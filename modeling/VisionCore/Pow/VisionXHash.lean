import VisionCore.Foundation.Mixing
import VisionCore.Pow.DatasetCache
import VisionCore.Types.Identifiers

/-!
# The VisionX hash

A hash fills a scratchpad from the dataset of the epoch, absorbs the header into two words,
runs a loop of dependent reads and writes on the scratchpad, and expands what the loop
leaves to 32 bytes.  All reads are masked; a read out of range aborts.
-/

namespace VisionCore

open Function
open Foundation

def rotateRight64 (x n : UInt64) : UInt64 :=
  x >>> n ||| x <<< (64 - n)

/-- A chunk of at most eight bytes as a big-endian word, filled up with zeros. -/
def chunkWord (chunk : Bytes) : UInt64 :=
  UInt64.ofNat (fromBeBytes (chunk ++ List.replicate (8 - chunk.length) 0))

def readWord (table : List UInt64) (i : Nat) : Except Fault UInt64 :=
  match table[i]? with
  | some word => .ok word
  | none => .error .indexOutOfRange

/-!
# The scratchpad
-/

def scratchSeed (header : Bytes) (nonce : UInt64) : UInt64 :=
  (header.toChunks 8).foldl
    (fun seed chunk =>
      rotateLeft64 ((seed ^^^ rotateLeft64 (chunkWord chunk) 13) * 0x9E3779B97F4A7C15) 7)
    (nonce ^^^ 0xDEADBEEFF00DFACE)

def scratchWord (base : List UInt64) (baseMask : Nat) (mixSeed : UInt64) :
    Except Fault UInt64 := do
  let word1 <- readWord base ((rotateLeft64 mixSeed 17).toNat &&& baseMask)
  let word2 <- readWord base ((rotateRight64 mixSeed 23).toNat &&& baseMask)
  return word1 ^^^ word2 ^^^ mixSeed * 0xC2B2AE3D27D4EB4F

def initScratch (P : Platform) (params : VisionXParams) (base : List UInt64) (baseMask : Nat)
    (header : Bytes) (nonce : UInt64) : Except Fault (List UInt64 × Nat) := do
  let kilobytes <- mulUsize P params.scratchMb 1024
  let bytes <- mulUsize P kilobytes 1024
  let words := doubleUpTo (bytes / 8) 1 Nat.one_pos
  let sm : SplitMix64 := { state := scratchSeed header nonce }
  let scratch <- (sm.take words).mapM (scratchWord base baseMask)
  return (scratch, words - 1)

/-!
# The hash
-/

/-- One chunk of at most sixteen header bytes. -/
def absorbChunk (ab : UInt64 × UInt64) (chunk : Bytes) : UInt64 × UInt64 :=
  let p := chunk ++ List.replicate (16 - chunk.length) 0
  let a := ab.1 ^^^ chunkWord (p.take 8) * 0x9E3779B185EBCA87
  let b := ab.2 ^^^ chunkWord (p.drop 8) * 0xC2B2AE3D27D4EB4F
  let a := rotateLeft64 a 13 ^^^ rotateRight64 b 7
  let b := rotateLeft64 b 29 ^^^ rotateRight64 a 19
  (a, b)

def absorb (header : Bytes) (nonce : UInt64) : UInt64 × UInt64 :=
  (header.toChunks 16).foldl absorbChunk
    (0x243F6A8885A308D3 ^^^ rotateLeft64 nonce 17, 0x13198A2E03707344 ^^^ rotateRight64 nonce 11)

structure MixState where
  a : UInt64
  b : UInt64
  acc : UInt64
  scratch : List UInt64

/-- The fourth read, which the parameters may leave out. -/
def readFourth (params : VisionXParams) (smask : Nat) (s : MixState) (v1 v3 : UInt64) :
    Except Fault UInt64 :=
  if params.readsPerIter ≥ 4 then
    readWord s.scratch ((rotateLeft64 (v3 ^^^ v1 ^^^ s.acc) 29).toNat &&& smask)
  else .ok v3

/-- The reads of a turn, each at a place that the word before it decides. -/
def readMix (params : VisionXParams) (smask : Nat) (s : MixState) (turn : UInt64) :
    Except Fault UInt64 := do
  let v1 <- readWord s.scratch
    ((rotateLeft64 (s.a ^^^ s.b ^^^ s.acc ^^^ turn * 0x9E3779B9) 17).toNat &&& smask)
  let v2 <- readWord s.scratch ((rotateLeft64 (v1 ^^^ s.a ^^^ s.acc) 23).toNat &&& smask)
  let v3 <- readWord s.scratch ((rotateLeft64 (v2 ^^^ s.b ^^^ s.acc) 19).toNat &&& smask)
  let v4 <- readFourth params smask s v1 v3
  return v1 ^^^ rotateLeft64 v2 13 ^^^ v3 * 0x94D049BB133111EB ^^^ rotateRight64 v4 7

/-- The write of a turn, in every `writeEvery`th one. -/
def writeBack (params : VisionXParams) (smask : Nat) (scratch : List UInt64) (i : Nat)
    (mix a b : UInt64) : Except Fault (List UInt64) :=
  if params.writeEvery.toNat > 0 ∧ i % params.writeEvery.toNat = 0 then do
    let jw := (rotateLeft64
      (mix ^^^ a ^^^ rotateLeft64 b 11 ^^^ UInt64.ofNat i * 0xA24BAED4963EE407) 31).toNat &&& smask
    let word <- readWord scratch jw
    return scratch.set jw (rotateLeft64 (word + (mix ^^^ 0x9E3779B97F4A7C15)) 41)
  else .ok scratch

/-- The turn `i` of the loop. -/
def mixStep (params : VisionXParams) (smask : Nat) (s : MixState) (i : Nat) :
    Except Fault MixState := do
  let mix <- readMix params smask s (UInt64.ofNat i)
  let a := rotateLeft64 s.a 13 ^^^ mix * 0xC2B2AE3D27D4EB4F
  let b := rotateLeft64 s.b 17 ^^^ (mix ^^^ s.acc) * 0xBF58476D1CE4E5B9
  let acc := rotateLeft64 s.acc 7 ^^^ (a ^^^ b) * 0xD6E8FEB86659FD93
  let scratch <- writeBack params smask s.scratch i mix a b
  return { a := a, b := b, acc := acc, scratch := scratch }

def expandRound (ab : UInt64 × UInt64) : UInt64 × UInt64 :=
  let a := rotateLeft64 ab.1 13 ^^^ ab.2 * 0x9E3779B185EBCA87
  let b := rotateLeft64 ab.2 17 ^^^ a * 0xC2B2AE3D27D4EB4F
  (a, b)

def expand256 (a b : UInt64) : U256 :=
  let ab := expandRound (expandRound (expandRound (expandRound (a, b))))
  let sm : SplitMix64 := { state := ab.1 ^^^ ab.2 ^^^ 0xD6E8FEB86659FD93 }
  let c := sm.next
  let d := c.2.next
  { bytes := toBeBytes 8 ab.1.toNat ++ toBeBytes 8 ab.2.toNat ++ toBeBytes 8 c.1.toNat ++
      toBeBytes 8 d.1.toNat
    length_eq := by simp }

/-- The loop on a scratchpad and two words that have taken in the header and the nonce. -/
def mixRun (P : Platform) (params : VisionXParams) (base : List UInt64) (baseMask : Nat)
    (header : Bytes) (nonce : UInt64) : Except Fault MixState := do
  let pad <- initScratch P params base baseMask header nonce
  let ab := absorb header nonce
  (List.range params.mixIters.toNat).foldlM (mixStep params pad.2)
    { a := ab.1, b := ab.2, acc := ab.1 ^^^ ab.2 ^^^ 0xDEADBEEFF00DFACE, scratch := pad.1 }

/-- The two words that the digest is expanded from. -/
def MixState.final (s : MixState) : UInt64 × UInt64 :=
  (s.a ^^^ s.acc, s.b ^^^ rotateLeft64 s.acc 3)

def visionxHash (P : Platform) (params : VisionXParams) (base : List UInt64) (baseMask : Nat)
    (header : Bytes) (nonce : UInt64) : Except Fault U256 := do
  let s <- mixRun P params base baseMask header nonce
  return expand256 s.final.1 s.final.2

/-- The hash over the dataset of an epoch, as it comes from the cache or is built anew. -/
def epochHash (P : Platform) (params : VisionXParams) (prevHash32 : U256) (epoch : UInt64)
    (header : Bytes) (nonce : UInt64) : Except Fault U256 := do
  let ds <- VisionXDataset.build P params prevHash32 epoch
  visionxHash P params ds.mem ds.mask header nonce

/-!
# Words
-/

theorem xorShift64_injective {s : UInt64} (hs : 0 < s.toNat % 64) :
    Injective fun z : UInt64 => z ^^^ z >>> s := by
  intro x y h
  apply UInt64.toBitVec_inj.mp
  have hbits := congrArg UInt64.toBitVec h
  simp only [UInt64.toBitVec_xor, UInt64.toBitVec_shiftRight, BitVec.ushiftRight_eq'] at hbits
  exact xorShiftRight_injective hs hbits

theorem mul64_injective {c d : UInt64} (h : c * d = 1) : Injective fun z : UInt64 => z * c := by
  intro x y heq
  apply UInt64.toBitVec_inj.mp
  exact mul_injective_of_inverse (congrArg UInt64.toBitVec h) (congrArg UInt64.toBitVec heq)

theorem toBitVec_rotateLeft64 (x : UInt64) {n : UInt64} (hpos : 0 < n.toNat) (hn : n.toNat < 64) :
    (rotateLeft64 x n).toBitVec = x.toBitVec.rotateLeft n.toNat := by
  have hback : (64 - n).toNat = 64 - n.toNat := by
    rw [UInt64.toNat_sub_of_le]
    · rfl
    · exact UInt64.le_iff_toNat_le.mpr (by simpa using hn.le)
  have hleft : (n.toBitVec % 64).toNat = n.toNat := by
    simpa using Nat.mod_eq_of_lt hn
  have hright : ((64 - n).toBitVec % 64).toNat = 64 - n.toNat := by
    rw [BitVec.toNat_umod, UInt64.toNat_toBitVec, hback]
    exact Nat.mod_eq_of_lt (by simp; omega)
  rw [rotateLeft64, UInt64.toBitVec_or, UInt64.toBitVec_shiftLeft, UInt64.toBitVec_shiftRight,
    BitVec.shiftLeft_eq', BitVec.ushiftRight_eq', hleft, hright, BitVec.rotateLeft_def,
    Nat.mod_eq_of_lt hn]

theorem rotateLeft64_injective {n : UInt64} (hpos : 0 < n.toNat) (hn : n.toNat < 64) :
    Injective fun x : UInt64 => rotateLeft64 x n := by
  intro x y h
  apply UInt64.toBitVec_inj.mp
  have hbits := congrArg UInt64.toBitVec h
  dsimp only at hbits
  rw [toBitVec_rotateLeft64 x hpos hn, toBitVec_rotateLeft64 y hpos hn] at hbits
  exact rotateLeft_injective n.toNat hbits

/-!
# The generator
-/

namespace SplitMix64

/-- What a generator gives out when it has reached a state. -/
def finish (state : UInt64) : UInt64 :=
  let z := (state ^^^ (state >>> 30)) * 0xBF58476D1CE4E5B9
  let z := (z ^^^ (z >>> 27)) * 0x94D049BB133111EB
  z ^^^ (z >>> 31)

theorem next_eq (sm : SplitMix64) :
    sm.next = (finish (sm.state + 0x9E3779B97F4A7C15),
      { state := sm.state + 0x9E3779B97F4A7C15 }) :=
  rfl

theorem finish_injective : Injective finish := by
  have hfirst : Injective fun z : UInt64 => (z ^^^ z >>> 30) * 0xBF58476D1CE4E5B9 :=
    (mul64_injective (d := 0x96DE1B173F119089) (by decide)).comp (xorShift64_injective (by decide))
  have hsecond : Injective fun z : UInt64 => (z ^^^ z >>> 27) * 0x94D049BB133111EB :=
    (mul64_injective (d := 0x319642B2D24D8EC3) (by decide)).comp (xorShift64_injective (by decide))
  have hlast : Injective fun z : UInt64 => z ^^^ z >>> 31 := xorShift64_injective (by decide)
  exact hlast.comp (hsecond.comp hfirst)

example : SplitMix64.take 2 { state := 0 } = [0xE220A8397B1DCDAF, 0x6E789E6AA1B965F4] := by
  decide

theorem take_length (count : Nat) (sm : SplitMix64) : (sm.take count).length = count := by
  induction count generalizing sm with
  | zero => rfl
  | succ count ih => rw [SplitMix64.take, List.length_cons, ih]

/-- The state that gives out the word at a place. -/
def stateAt (start : UInt64) (i : Nat) : UInt64 :=
  start + UInt64.ofNat (i + 1) * 0x9E3779B97F4A7C15

theorem take_getElem? (count : Nat) (sm : SplitMix64) (i : Nat) (hi : i < count) :
    (sm.take count)[i]? = some (finish (stateAt sm.state i)) := by
  induction count generalizing sm i with
  | zero => exact absurd hi (Nat.not_lt_zero i)
  | succ count ih =>
      rw [SplitMix64.take]
      cases i with
      | zero =>
          rw [List.getElem?_cons_zero, next_eq, stateAt]
          simp
      | succ i =>
          rw [List.getElem?_cons_succ, ih _ i (Nat.lt_of_succ_lt_succ hi), next_eq]
          have hstep : stateAt (sm.state + 0x9E3779B97F4A7C15) i = stateAt sm.state (i + 1) := by
            rw [stateAt, stateAt, UInt64.ofNat_add (i + 1) 1, UInt64.add_mul, UInt64.ofNat_one,
              UInt64.one_mul, UInt64.add_assoc, UInt64.add_comm (UInt64.ofNat (i + 1) * _)]
          rw [hstep]

theorem stateAt_injective (start : UInt64) {i j : Nat} (hi : i + 1 < 2 ^ 64)
    (hj : j + 1 < 2 ^ 64) (h : stateAt start i = stateAt start j) : i = j := by
  have hinverse : (0x9E3779B97F4A7C15 : UInt64) * 0xF1DE83E19937733D = 1 := by decide
  have hbits := congrArg UInt64.toBitVec h
  have hsteps := steps_injective (congrArg UInt64.toBitVec hinverse) start.toBitVec hi hj hbits
  exact Nat.succ.inj hsteps

/-- A generator does not give a word twice. -/
theorem take_nodup {count : Nat} (hcount : count < 2 ^ 64) (sm : SplitMix64) :
    (sm.take count).Nodup := by
  rw [List.nodup_iff_getElem?_ne_getElem?]
  intro i j hij hj heq
  rw [take_length] at hj
  rw [take_getElem? count sm i (by omega), take_getElem? count sm j hj] at heq
  have hstate := finish_injective (Option.some.inj heq)
  have hsame := stateAt_injective sm.state (by omega) (by omega) hstate
  omega

/-- Generators that start apart differ at every place. -/
theorem take_apart {count : Nat} {sm sm' : SplitMix64} (h : sm.state ≠ sm'.state) {i : Nat}
    (hi : i < count) : (sm.take count)[i]? ≠ (sm'.take count)[i]? := by
  intro heq
  rw [take_getElem? count sm i hi, take_getElem? count sm' i hi] at heq
  have hstate := finish_injective (Option.some.inj heq)
  exact h ((UInt64.add_left_inj _).mp hstate)

end SplitMix64

/-!
# Seeds
-/

theorem foldSeed_injective (prevHash32 : U256) : Injective (foldSeed prevHash32) := by
  intro epoch epoch' h
  have hstep : forall chunk : Bytes, Injective fun s : UInt64 =>
      rotateLeft64 ((s ^^^ rotateLeft64 (UInt64.ofNat (fromBeBytes
        (chunk ++ List.replicate (8 - chunk.length) 0))) 7) * 0x9E3779B97F4A7C15) 9 := by
    intro chunk s t heq
    have hproduct := rotateLeft64_injective (n := 9) (by decide) (by decide) heq
    have hxor := mul64_injective (d := 0xF1DE83E19937733D) (by decide) hproduct
    exact (UInt64.xor_left_inj _).mp hxor
  exact (UInt64.xor_left_inj _).mp (foldl_injective hstep _ h)

theorem scratchSeed_injective (header : Bytes) : Injective (scratchSeed header) := by
  intro nonce nonce' h
  have hstep : forall chunk : Bytes, Injective fun s : UInt64 =>
      rotateLeft64 ((s ^^^ rotateLeft64 (chunkWord chunk) 13) * 0x9E3779B97F4A7C15) 7 := by
    intro chunk s t heq
    have hproduct := rotateLeft64_injective (n := 7) (by decide) (by decide) heq
    have hxor := mul64_injective (d := 0xF1DE83E19937733D) (by decide) hproduct
    exact (UInt64.xor_left_inj _).mp hxor
  exact (UInt64.xor_left_inj _).mp (foldl_injective hstep _ h)

/-- Two words that are mixed one after the other, the second with the first one's result,
can be taken apart again. -/
theorem mixPair_injective {f g u v : UInt64 -> UInt64} (hf : Injective f) (hg : Injective g)
    {a b c d : UInt64} (hfirst : f a ^^^ u b = f c ^^^ u d)
    (hsecond : g b ^^^ v (f a ^^^ u b) = g d ^^^ v (f c ^^^ u d)) : a = c ∧ b = d := by
  rw [hfirst] at hsecond
  have hb : b = d := hg ((UInt64.xor_left_inj _).mp hsecond)
  rw [hb] at hfirst
  exact ⟨hf ((UInt64.xor_left_inj _).mp hfirst), hb⟩

theorem absorbChunk_injective (chunk : Bytes) : Injective fun ab => absorbChunk ab chunk := by
  intro ab cd h
  simp only [absorbChunk, Prod.mk.injEq] at h
  rcases mixPair_injective (f := fun x => rotateLeft64 x 13) (g := fun x => rotateLeft64 x 29)
    (u := fun x => rotateRight64 x 7) (v := fun x => rotateRight64 x 19)
    (rotateLeft64_injective (by decide) (by decide))
    (rotateLeft64_injective (by decide) (by decide)) h.1 h.2 with ⟨ha, hb⟩
  exact Prod.ext ((UInt64.xor_left_inj _).mp ha) ((UInt64.xor_left_inj _).mp hb)

theorem absorb_injective (header : Bytes) : Injective (absorb header) := by
  intro nonce nonce' h
  have hstart := foldl_injective absorbChunk_injective (header.toChunks 16) h
  have hword := (UInt64.xor_right_inj _).mp (Prod.mk.inj hstart).1
  exact rotateLeft64_injective (n := 17) (by decide) (by decide) hword

theorem expandRound_injective : Injective expandRound := by
  intro ab cd h
  simp only [expandRound, Prod.mk.injEq] at h
  rcases mixPair_injective (f := fun x => rotateLeft64 x 13) (g := fun x => rotateLeft64 x 17)
    (u := fun x => x * 0x9E3779B185EBCA87) (v := fun x => x * 0xC2B2AE3D27D4EB4F)
    (rotateLeft64_injective (by decide) (by decide))
    (rotateLeft64_injective (by decide) (by decide)) h.1 h.2 with ⟨ha, hb⟩
  exact Prod.ext ha hb

theorem toBeBytes_word_injective {x y : UInt64}
    (h : toBeBytes 8 x.toNat = toBeBytes 8 y.toNat) : x = y := by
  have hnat := congrArg fromBeBytes h
  rw [fromBeBytes_toBeBytes x.toNat_lt, fromBeBytes_toBeBytes y.toNat_lt] at hnat
  exact UInt64.toNat_inj.mp hnat

/-- The digest shows the two words that it was expanded from. -/
theorem expand256_injective {a b a' b' : UInt64} (h : expand256 a b = expand256 a' b') :
    a = a' ∧ b = b' := by
  have hbytes := congrArg U256.bytes h
  simp only [expand256, List.append_assoc] at hbytes
  rcases List.append_inj hbytes (by simp) with ⟨hfirst, hrest⟩
  rcases List.append_inj hrest (by simp) with ⟨hsecond, _⟩
  have hrounds := Prod.ext (toBeBytes_word_injective hfirst) (toBeBytes_word_injective hsecond)
  have hpair := expandRound_injective (expandRound_injective
    (expandRound_injective (expandRound_injective hrounds)))
  exact Prod.mk.inj hpair

/-!
# Memory accesses
-/

theorem doubleUpTo_eq (words : Nat) {n : Nat} (hn : 0 < n) :
    exists k, doubleUpTo words n hn = n * 2 ^ k ∧ words ≤ n * 2 ^ k ∧
      forall j, j < k -> n * 2 ^ j < words := by
  fun_induction doubleUpTo words n hn with
  | case1 n hn hlt ih =>
      rcases ih with ⟨k, heq, hle, hleast⟩
      have hdouble : forall j, n <<< 1 * 2 ^ j = n * 2 ^ (j + 1) := by
        intro j
        rw [Nat.shiftLeft_eq, pow_one, pow_succ]
        ring
      refine ⟨k + 1, by rw [heq, hdouble], by rw [← hdouble]; exact hle, ?_⟩
      intro j hj
      cases j with
      | zero => simpa using hlt
      | succ j =>
          rw [← hdouble]
          exact hleast j (by omega)
  | case2 n hn hge =>
      exact ⟨0, by simp, by simpa using hge, fun j hj => absurd hj (Nat.not_lt_zero j)⟩

/-- A table that is addressed through a mask: a power of two of words, the mask its last
place. -/
structure Masked (table : List UInt64) (mask : Nat) : Prop where
  size : exists k, table.length = 2 ^ k
  mask_eq : mask + 1 = table.length

theorem Masked.set {table : List UInt64} {mask : Nat} (h : Masked table mask) (i : Nat)
    (word : UInt64) : Masked (table.set i word) mask where
  size := by
    rw [List.length_set]
    exact h.size
  mask_eq := by
    rw [List.length_set]
    exact h.mask_eq

theorem Masked.read {table : List UInt64} {mask : Nat} (h : Masked table mask) (x : Nat) :
    exists word, readWord table (x &&& mask) = .ok word := by
  have hlt : x &&& mask < table.length := by
    rw [← h.mask_eq]
    exact Nat.lt_succ_of_le Nat.and_le_right
  unfold readWord
  rw [List.getElem?_eq_getElem hlt]
  exact ⟨_, rfl⟩

/-- The tables of the hash have the least power of two of words that makes up the
configured number of megabytes. -/
theorem masked_of_length {table : List UInt64} {words : Nat}
    (hlength : table.length = doubleUpTo words 1 Nat.one_pos) :
    Masked table (doubleUpTo words 1 Nat.one_pos - 1) := by
  rcases doubleUpTo_eq words Nat.one_pos with ⟨k, heq, _, _⟩
  have hpos : 0 < doubleUpTo words 1 Nat.one_pos := by
    rw [heq, Nat.one_mul]
    exact Nat.two_pow_pos k
  exact ⟨⟨k, by rw [hlength, heq, Nat.one_mul]⟩, by rw [hlength]; omega⟩

section Bounds

variable {P : Platform} {params : VisionXParams} {prevHash32 : U256} {epoch : UInt64}
  {header : Bytes} {nonce : UInt64} {base : List UInt64} {baseMask : Nat}

theorem megabytes_ok (P : Platform) {mb : Nat} (h : mb ≤ 512) :
    (mulUsize P mb 1024 >>= fun kilobytes => mulUsize P kilobytes 1024) =
      .ok (mb * 1024 * 1024) := by
  have hlarge : 512 * 1024 * 1024 < u64Bound := by decide
  have hkilobytes : mb * 1024 < u64Bound :=
    Nat.lt_of_le_of_lt (show mb * 1024 ≤ 512 * 1024 * 1024 by omega) hlarge
  have hbytes : mb * 1024 * 1024 < u64Bound :=
    Nat.lt_of_le_of_lt (show mb * 1024 * 1024 ≤ 512 * 1024 * 1024 by omega) hlarge
  rw [mulUsize_ok hkilobytes]
  exact mulUsize_ok hbytes

theorem paramsWithinBounds_iff : paramsWithinBounds params = true ↔
    params.datasetMb ≤ 512 ∧ params.scratchMb ≤ 128 ∧ params.mixIters.toNat ≤ 1000000 ∧
      params.readsPerIter.toNat ≤ 8 := by
  simp [paramsWithinBounds, and_assoc]

/-- The number of words of a table of so many megabytes. -/
def tableWords (mb : Nat) : Nat :=
  doubleUpTo (mb * 1024 * 1024 / 8) 1 Nat.one_pos

theorem tableWords_lt {mb : Nat} (h : mb ≤ 512) : tableWords mb < 2 ^ 64 := by
  rcases doubleUpTo_eq (mb * 1024 * 1024 / 8) Nat.one_pos with ⟨k, heq, _, hleast⟩
  rw [tableWords, heq, Nat.one_mul]
  apply Nat.pow_lt_pow_right (by decide)
  -- a smaller power would be enough
  by_contra hlarge
  have hwords := hleast 26 (by omega)
  omega

theorem build_eq (hbounds : paramsWithinBounds params = true) :
    VisionXDataset.build P params prevHash32 epoch =
      .ok { mem := SplitMix64.take (tableWords params.datasetMb)
              { state := foldSeed prevHash32 epoch }
            mask := tableWords params.datasetMb - 1 } := by
  have hbytes := megabytes_ok P (paramsWithinBounds_iff.mp hbounds).1
  rcases bind_eq_ok.mp hbytes with ⟨kilobytes, hkilobytes, hmegabytes⟩
  exact bind_eq_ok.mpr ⟨kilobytes, hkilobytes, bind_eq_ok.mpr ⟨_, hmegabytes, rfl⟩⟩

theorem scratchWord_total (hbase : Masked base baseMask) (mixSeed : UInt64) :
    exists word, scratchWord base baseMask mixSeed = .ok word := by
  rcases hbase.read (rotateLeft64 mixSeed 17).toNat with ⟨word1, hword1⟩
  rcases hbase.read (rotateRight64 mixSeed 23).toNat with ⟨word2, hword2⟩
  exact ⟨_, bind_eq_ok.mpr ⟨word1, hword1, bind_eq_ok.mpr ⟨word2, hword2, rfl⟩⟩⟩

theorem scratchWords_total (hbase : Masked base baseMask) (mixSeeds : List UInt64) :
    exists words, mixSeeds.mapM (scratchWord base baseMask) = .ok words ∧
      words.length = mixSeeds.length := by
  induction mixSeeds with
  | nil => exact ⟨[], rfl, rfl⟩
  | cons mixSeed rest ih =>
      rcases scratchWord_total hbase mixSeed with ⟨word, hword⟩
      rcases ih with ⟨words, hwords, hlength⟩
      refine ⟨word :: words, ?_, by rw [List.length_cons, List.length_cons, hlength]⟩
      rw [List.mapM_cons]
      exact bind_eq_ok.mpr ⟨word, hword, bind_eq_ok.mpr ⟨words, hwords, rfl⟩⟩

theorem initScratch_total (hbounds : paramsWithinBounds params = true)
    (hbase : Masked base baseMask) :
    exists scratch, initScratch P params base baseMask header nonce =
      .ok (scratch, tableWords params.scratchMb - 1) ∧
      scratch.length = tableWords params.scratchMb := by
  have hscratch : params.scratchMb ≤ 512 := by
    have h := (paramsWithinBounds_iff.mp hbounds).2.1
    omega
  have hbytes := megabytes_ok P hscratch
  rcases bind_eq_ok.mp hbytes with ⟨kilobytes, hkilobytes, hmegabytes⟩
  rcases scratchWords_total hbase (SplitMix64.take (tableWords params.scratchMb)
    { state := scratchSeed header nonce }) with ⟨scratch, hwords, hlength⟩
  rw [SplitMix64.take_length] at hlength
  refine ⟨scratch, ?_, hlength⟩
  refine bind_eq_ok.mpr ⟨kilobytes, hkilobytes, bind_eq_ok.mpr ⟨_, hmegabytes, ?_⟩⟩
  exact bind_eq_ok.mpr ⟨scratch, hwords, rfl⟩

theorem readMix_total {smask : Nat} {s : MixState} (hs : Masked s.scratch smask)
    (turn : UInt64) : exists mix, readMix params smask s turn = .ok mix := by
  rcases hs.read (rotateLeft64 (s.a ^^^ s.b ^^^ s.acc ^^^ turn * 0x9E3779B9) 17).toNat with
    ⟨v1, hv1⟩
  rcases hs.read (rotateLeft64 (v1 ^^^ s.a ^^^ s.acc) 23).toNat with ⟨v2, hv2⟩
  rcases hs.read (rotateLeft64 (v2 ^^^ s.b ^^^ s.acc) 19).toNat with ⟨v3, hv3⟩
  have hfourth : exists v4, readFourth params smask s v1 v3 = .ok v4 := by
    unfold readFourth
    split
    · exact hs.read _
    · exact ⟨v3, rfl⟩
  rcases hfourth with ⟨v4, hv4⟩
  exact ⟨_, bind_eq_ok.mpr ⟨v1, hv1, bind_eq_ok.mpr ⟨v2, hv2, bind_eq_ok.mpr ⟨v3, hv3,
    bind_eq_ok.mpr ⟨v4, hv4, rfl⟩⟩⟩⟩⟩

theorem writeBack_total {smask : Nat} {scratch : List UInt64} (hs : Masked scratch smask)
    (i : Nat) (mix a b : UInt64) :
    exists scratch', writeBack params smask scratch i mix a b = .ok scratch' ∧
      Masked scratch' smask := by
  unfold writeBack
  split
  · rcases hs.read (rotateLeft64
      (mix ^^^ a ^^^ rotateLeft64 b 11 ^^^ UInt64.ofNat i * 0xA24BAED4963EE407) 31).toNat with
      ⟨word, hword⟩
    exact ⟨_, bind_eq_ok.mpr ⟨word, hword, rfl⟩, hs.set _ _⟩
  · exact ⟨scratch, rfl, hs⟩

/-- A turn of the loop reads and writes inside of the scratchpad. -/
theorem mixStep_total {smask : Nat} {s : MixState} (hs : Masked s.scratch smask) (i : Nat) :
    exists s', mixStep params smask s i = .ok s' ∧ Masked s'.scratch smask := by
  rcases readMix_total hs (UInt64.ofNat i) with ⟨mix, hmix⟩
  rcases writeBack_total hs i mix (rotateLeft64 s.a 13 ^^^ mix * 0xC2B2AE3D27D4EB4F)
    (rotateLeft64 s.b 17 ^^^ (mix ^^^ s.acc) * 0xBF58476D1CE4E5B9) with ⟨scratch, hwrite, hmasked⟩
  exact ⟨_, bind_eq_ok.mpr ⟨mix, hmix, bind_eq_ok.mpr ⟨scratch, hwrite, rfl⟩⟩, hmasked⟩

theorem mixLoop_total {smask : Nat} (turns : List Nat) {s : MixState}
    (hs : Masked s.scratch smask) :
    exists s', turns.foldlM (mixStep params smask) s = .ok s' := by
  induction turns generalizing s with
  | nil => exact ⟨s, rfl⟩
  | cons i rest ih =>
      rcases mixStep_total hs i with ⟨next, hnext, hmasked⟩
      rcases ih hmasked with ⟨s', hrest⟩
      rw [List.foldlM_cons]
      exact ⟨s', bind_eq_ok.mpr ⟨next, hnext, hrest⟩⟩

theorem mixRun_total (P : Platform) (header : Bytes) (nonce : UInt64)
    (hbounds : paramsWithinBounds params = true) (hbase : Masked base baseMask) :
    exists s, mixRun P params base baseMask header nonce = .ok s := by
  rcases initScratch_total hbounds hbase with ⟨scratch, hpad, hlength⟩
  have hmasked := masked_of_length hlength
  rcases mixLoop_total (List.range params.mixIters.toNat)
    (s := { a := (absorb header nonce).1
            b := (absorb header nonce).2
            acc := (absorb header nonce).1 ^^^ (absorb header nonce).2 ^^^ 0xDEADBEEFF00DFACE
            scratch := scratch }) hmasked with ⟨s, hloop⟩
  exact ⟨s, bind_eq_ok.mpr ⟨_, hpad, hloop⟩⟩

theorem visionxHash_total (P : Platform) (header : Bytes) (nonce : UInt64)
    (hbounds : paramsWithinBounds params = true) (hbase : Masked base baseMask) :
    exists digest, visionxHash P params base baseMask header nonce = .ok digest := by
  rcases mixRun_total P header nonce hbounds hbase with ⟨s, hrun⟩
  exact ⟨_, bind_eq_ok.mpr ⟨s, hrun, rfl⟩⟩

end Bounds

/-!
# The hash of the node
-/

def sampleParent : U256 :=
  { bytes := List.replicate 32 1, length_eq := rfl }

/-- The platform whose hash is the loop over the dataset of the epoch. -/
def Platform.withVisionX (P : Platform) : Platform :=
  { P with
    visionxHash := fun params prevHash32 epoch header nonce =>
      match epochHash P params prevHash32 epoch header nonce with
      | .ok digest => digest
      | .error _ => { bytes := List.replicate 32 0, length_eq := rfl } }

/-- Within the bounds on the parameters the hash is computed without a read or a write out
of range, and it is what acceptance compares with the proof of work. -/
theorem visionxDigest_computed (P : Platform) (params : VisionXParams) (prevHash32 : U256)
    (epoch : UInt64) (header : Bytes) (nonce : UInt64)
    (hbounds : paramsWithinBounds params = true) :
    exists ds digest, VisionXDataset.build P params prevHash32 epoch = .ok ds ∧
      Masked ds.mem ds.mask ∧
      visionxHash P params ds.mem ds.mask header nonce = .ok digest ∧
      visionxDigest P.withVisionX params prevHash32 epoch header nonce = .ok digest := by
  have hbuild : VisionXDataset.build P params prevHash32 epoch = _ := build_eq hbounds
  have hmasked : Masked (SplitMix64.take (tableWords params.datasetMb)
      { state := foldSeed prevHash32 epoch }) (tableWords params.datasetMb - 1) :=
    masked_of_length (SplitMix64.take_length _ _)
  rcases visionxHash_total P header nonce hbounds hmasked with ⟨digest, hdigest⟩
  have hepoch : epochHash P params prevHash32 epoch header nonce = .ok digest :=
    bind_eq_ok.mpr ⟨_, hbuild, hdigest⟩
  refine ⟨_, digest, hbuild, hmasked, hdigest, ?_⟩
  have hhash : P.withVisionX.visionxHash params prevHash32 epoch header nonce = digest := by
    unfold Platform.withVisionX
    dsimp only
    rw [hepoch]
  unfold visionxDigest
  rw [hbounds, hhash]
  rfl

/-- A hash under the parameters of the network. -/
theorem visionxDigest_computed_network :
    exists ds digest,
      VisionXDataset.build samplePlatform visionxParams sampleParent 0 = .ok ds ∧
        Masked ds.mem ds.mask ∧
        visionxHash samplePlatform visionxParams ds.mem ds.mask [1, 2, 3] 7 = .ok digest ∧
        visionxDigest samplePlatform.withVisionX visionxParams sampleParent 0 [1, 2, 3] 7 =
          .ok digest :=
  visionxDigest_computed samplePlatform visionxParams sampleParent 0 [1, 2, 3] 7 (by decide)

/-- The words of a dataset are distinct, and the datasets of two epochs on one parent
differ at every place. -/
theorem dataset_distinct {P : Platform} {params : VisionXParams} {prevHash32 : U256}
    {epoch : UInt64} {ds : VisionXDataset} (hbounds : paramsWithinBounds params = true)
    (hbuild : VisionXDataset.build P params prevHash32 epoch = .ok ds) :
    ds.mem.Nodup ∧ forall epoch' ds', epoch' ≠ epoch ->
      VisionXDataset.build P params prevHash32 epoch' = .ok ds' ->
      forall i, i < ds.mem.length -> ds.mem[i]? ≠ ds'.mem[i]? := by
  rw [build_eq hbounds] at hbuild
  cases hbuild
  have hsmall : tableWords params.datasetMb < 2 ^ 64 := tableWords_lt
    (paramsWithinBounds_iff.mp hbounds).1
  refine ⟨SplitMix64.take_nodup hsmall _, ?_⟩
  intro epoch' ds' hne hbuild' i hi
  rw [build_eq hbounds] at hbuild'
  cases hbuild'
  rw [SplitMix64.take_length] at hi
  exact SplitMix64.take_apart (fun hseed => hne (foldSeed_injective prevHash32 hseed).symm) hi

theorem dataset_distinct_network :
    exists ds, VisionXDataset.build samplePlatform visionxParams sampleParent 0 = .ok ds ∧
      ds.mem.Nodup ∧ forall epoch' ds', epoch' ≠ 0 ->
        VisionXDataset.build samplePlatform visionxParams sampleParent epoch' = .ok ds' ->
        forall i, i < ds.mem.length -> ds.mem[i]? ≠ ds'.mem[i]? := by
  have hbounds : paramsWithinBounds visionxParams = true := by decide
  exact ⟨_, build_eq hbounds, dataset_distinct hbounds (build_eq hbounds)⟩

/-- Two nonces of one header start the loop apart, in both words together and in every
seed of the scratchpad; and what the loop leaves decides the digest. -/
theorem visionxHash_apart {P : Platform} {params : VisionXParams} {base : List UInt64}
    {baseMask : Nat} (hbounds : paramsWithinBounds params = true) (hbase : Masked base baseMask)
    (header : Bytes) {nonce nonce' : UInt64} (hne : nonce ≠ nonce') :
    absorb header nonce ≠ absorb header nonce' ∧
      (forall count i, i < count ->
        (SplitMix64.take count { state := scratchSeed header nonce })[i]? ≠
          (SplitMix64.take count { state := scratchSeed header nonce' })[i]?) ∧
      exists s s', mixRun P params base baseMask header nonce = .ok s ∧
        mixRun P params base baseMask header nonce' = .ok s' ∧
        (visionxHash P params base baseMask header nonce =
          visionxHash P params base baseMask header nonce' ↔ s.final = s'.final) := by
  refine ⟨fun h => hne (absorb_injective header h), ?_, ?_⟩
  · intro count i hi
    exact SplitMix64.take_apart (fun h => hne (scratchSeed_injective header h)) hi
  · rcases mixRun_total P header nonce hbounds hbase with ⟨s, hs⟩
    rcases mixRun_total P header nonce' hbounds hbase with ⟨s', hs'⟩
    have hdigest : visionxHash P params base baseMask header nonce =
        .ok (expand256 s.final.1 s.final.2) := bind_eq_ok.mpr ⟨s, hs, rfl⟩
    have hdigest' : visionxHash P params base baseMask header nonce' =
        .ok (expand256 s'.final.1 s'.final.2) := bind_eq_ok.mpr ⟨s', hs', rfl⟩
    refine ⟨s, s', hs, hs', ?_⟩
    rw [hdigest, hdigest']
    constructor
    · intro heq
      rcases expand256_injective (Except.ok.inj heq) with ⟨hfirst, hsecond⟩
      exact Prod.ext hfirst hsecond
    · intro heq
      rw [heq]

/-- Two nonces over a dataset of one word. -/
theorem visionxHash_apart_oneWord :
    absorb [1, 2, 3] 0 ≠ absorb [1, 2, 3] 1 ∧
      (forall count i, i < count ->
        (SplitMix64.take count { state := scratchSeed [1, 2, 3] 0 })[i]? ≠
          (SplitMix64.take count { state := scratchSeed [1, 2, 3] 1 })[i]?) ∧
      exists s s', mixRun samplePlatform visionxParams [7] 0 [1, 2, 3] 0 = .ok s ∧
        mixRun samplePlatform visionxParams [7] 0 [1, 2, 3] 1 = .ok s' ∧
        (visionxHash samplePlatform visionxParams [7] 0 [1, 2, 3] 0 =
          visionxHash samplePlatform visionxParams [7] 0 [1, 2, 3] 1 ↔ s.final = s'.final) :=
  visionxHash_apart (by decide) ⟨⟨0, rfl⟩, rfl⟩ [1, 2, 3] (by decide)

end VisionCore
