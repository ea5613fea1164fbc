import VisionCore.Foundation.Outcome
import VisionCore.Miner.Splice

/-!
# The nonce search

The stand-alone miner counts nonces up to a limit and returns the first one that solves
its job.  The verifier reads the nonce back from the header bytes and hashes them anew.
-/

namespace VisionCore

open Foundation

namespace PowJob

/-- A job over header bytes that hold the nonce at an offset. -/
def new (params : VisionXParams) (prevHash32 : U256) (epoch : UInt64) (headerBytes : Bytes)
    (nonceOffset : Nat) (target : U256) : Except InjectError PowJob := do
  let _ <- injectNonce headerBytes nonceOffset 0
  return {
    params := params
    prevHash32 := prevHash32
    epoch := epoch
    headerBytes := headerBytes
    nonceOffset := nonceOffset
    target := target
    historicalPreimage := none }

/-- The loop of the search, with `left` nonces to go. -/
def mineLoop (P : Platform) (job : PowJob) : Nat -> UInt64 -> Option PowSolution
  | 0, _ => none
  | left + 1, nonce =>
      match job.solutionForNonce P nonce with
      | .error _ => none
      | .ok candidate =>
          if job.validateSolution P candidate then some candidate
          else mineLoop P job left (nonce + 1)

end PowJob

namespace VisionXMiner

def buildJob (miner : VisionXMiner) (prevHash32 : U256) (epoch : UInt64) (headerBytes : Bytes)
    (nonceOffset : Nat) (target : U256) : Except InjectError PowJob :=
  PowJob.new miner.params prevHash32 epoch headerBytes nonceOffset target

def mine (P : Platform) (miner : VisionXMiner) (job : PowJob) (nonceLimit : UInt64) :
    Option PowSolution :=
  if job.params ≠ miner.params then none else job.mineLoop P nonceLimit.toNat 0

end VisionXMiner

/-- `verify`: whether header bytes with a nonce in them meet the target. -/
def verifyHeader (P : Platform) (params : VisionXParams) (prevHash32 : U256) (epoch : UInt64)
    (headerWithNonce : Bytes) (nonceOffset : Nat) (target : U256) : Bool :=
  if !paramsWithinBounds params then false
  else
    match nonceFromHeader headerWithNonce nonceOffset with
    | none => false
    | some nonce =>
        meetsTarget (P.visionxHash params prevHash32 epoch headerWithNonce nonce) target

/-!
# Jobs over header bytes
-/

section Search

variable {P : Platform} {params : VisionXParams} {prevHash32 : U256} {epoch : UInt64}
  {headerBytes whole : Bytes} {nonceOffset : Nat} {target : U256} {job : PowJob} {nonce : UInt64}

theorem injectNonce_ok_iff : injectNonce headerBytes nonceOffset nonce = .ok whole ↔
    nonceOffset + 8 < u64Bound ∧ nonceOffset + 8 ≤ headerBytes.length ∧
      whole = headerBytes.take nonceOffset ++ toBeBytes 8 nonce.toNat ++
        headerBytes.drop (nonceOffset + 8) := by
  unfold injectNonce
  split
  · rename_i hoverflow
    constructor
    · intro h
      cases h
    · intro h
      exact absurd h.1 (Nat.not_lt.mpr hoverflow)
  · rename_i hoffset
    split
    · rename_i hshort
      constructor
      · intro h
        cases h
      · intro h
        exact absurd h.2.1 (Nat.not_le.mpr hshort)
    · rename_i hlong
      constructor
      · intro h
        cases h
        exact ⟨Nat.not_le.mp hoffset, Nat.not_lt.mp hlong, rfl⟩
      · rintro ⟨_, _, rfl⟩
        rfl

/-- The nonce that was put in is read back. -/
theorem nonceFromHeader_inject (h : injectNonce headerBytes nonceOffset nonce = .ok whole) :
    nonceFromHeader whole nonceOffset = some nonce := by
  rcases injectNonce_ok_iff.mp h with ⟨hoffset, hlong, rfl⟩
  have hfront : (headerBytes.take nonceOffset).length = nonceOffset := by
    rw [List.length_take]
    omega
  have hread : nonceFromHeader (headerBytes.take nonceOffset ++ toBeBytes 8 nonce.toNat ++
      headerBytes.drop (nonceOffset + 8)) (headerBytes.take nonceOffset).length = some nonce :=
    nonceFromHeader_append (by rw [hfront]; exact hoffset)
  rwa [hfront] at hread

/-- A job of the stand-alone miner, and the header bytes of each of its nonces. -/
structure HeaderJob (params : VisionXParams) (prevHash32 : U256) (epoch : UInt64)
    (headerBytes : Bytes) (nonceOffset : Nat) (target : U256) (job : PowJob) : Prop where
  params_eq : job.params = params
  prevHash32_eq : job.prevHash32 = prevHash32
  epoch_eq : job.epoch = epoch
  target_eq : job.target = target
  preimage : job.historicalPreimage = none
  fits : forall nonce, exists whole, injectNonce headerBytes nonceOffset nonce = .ok whole ∧
    job.headerWithNonce nonce = .ok whole

theorem headerJob_of_new
    (h : PowJob.new params prevHash32 epoch headerBytes nonceOffset target = .ok job) :
    HeaderJob params prevHash32 epoch headerBytes nonceOffset target job := by
  rcases bind_eq_ok.mp h with ⟨zero, hzero, hjob⟩
  cases hjob
  rcases injectNonce_ok_iff.mp hzero with ⟨hoffset, hlong, _⟩
  refine ⟨rfl, rfl, rfl, rfl, rfl, fun nonce => ?_⟩
  have hfits : injectNonce headerBytes nonceOffset nonce = .ok _ :=
    injectNonce_ok_iff.mpr ⟨hoffset, hlong, rfl⟩
  exact ⟨_, hfits, hfits⟩

/-- The header bytes with the nonce are accepted by the verifier. -/
def Verifies (P : Platform) (params : VisionXParams) (prevHash32 : U256) (epoch : UInt64)
    (headerBytes : Bytes) (nonceOffset : Nat) (target : U256) (nonce : UInt64) : Prop :=
  exists whole, injectNonce headerBytes nonceOffset nonce = .ok whole ∧
    verifyHeader P params prevHash32 epoch whole nonceOffset target = true

theorem HeaderJob.hashForNonce
    (h : HeaderJob params prevHash32 epoch headerBytes nonceOffset target job)
    (hwhole : injectNonce headerBytes nonceOffset nonce = .ok whole) :
    (job.hashForNonce P nonce).toOption =
      (visionxDigest P params prevHash32 epoch whole nonce).toOption := by
  rcases h.fits nonce with ⟨whole', hinject, hfits⟩
  rw [hwhole] at hinject
  cases hinject
  unfold PowJob.hashForNonce
  rw [h.preimage, hfits, h.params_eq, h.prevHash32_eq, h.epoch_eq]
  dsimp only
  cases visionxDigest P params prevHash32 epoch whole nonce with
  | error e => rfl
  | ok hash => rfl

/-- The job accepts its own hash of a nonce exactly where the verifier accepts the bytes. -/
theorem HeaderJob.verifies_iff
    (h : HeaderJob params prevHash32 epoch headerBytes nonceOffset target job) :
    Verifies P params prevHash32 epoch headerBytes nonceOffset target nonce ↔
      exists hash, job.solutionForNonce P nonce = .ok { nonce := nonce, hash := hash } ∧
        job.validateSolution P { nonce := nonce, hash := hash } = true := by
  rcases h.fits nonce with ⟨whole, hinject, hfits⟩
  have hhash := h.hashForNonce (P := P) hinject
  have hread := nonceFromHeader_inject hinject
  have hsolution : forall hash,
      job.solutionForNonce P nonce = .ok { nonce := nonce, hash := hash } ↔
        (job.hashForNonce P nonce).toOption = some hash := by
    intro hash
    unfold PowJob.solutionForNonce
    cases job.hashForNonce P nonce with
    | error e => simp [bind, Except.bind, Except.toOption]
    | ok found => simp [bind, Except.bind, pure, Except.pure, Except.toOption]
  have hverifies : Verifies P params prevHash32 epoch headerBytes nonceOffset target nonce ↔
      verifyHeader P params prevHash32 epoch whole nonceOffset target = true := by
    constructor
    · rintro ⟨whole', hinject', hverify⟩
      rw [hinject] at hinject'
      cases hinject'
      exact hverify
    · exact fun hverify => ⟨whole, hinject, hverify⟩
  have hiff : forall hash, (job.solutionForNonce P nonce = .ok { nonce := nonce, hash := hash } ∧
      job.validateSolution P { nonce := nonce, hash := hash } = true) ↔
        ((visionxDigest P params prevHash32 epoch whole nonce).toOption = some hash ∧
          meetsTarget hash target = true) := by
    intro hash
    rw [hsolution, validateSolution_iff hfits, hhash, h.target_eq]
    exact ⟨fun hboth => hboth.2, fun hboth => ⟨hboth.1, hboth⟩⟩
  rw [hverifies]
  simp only [hiff]
  unfold verifyHeader visionxDigest
  rw [hread]
  cases paramsWithinBounds params with
  | false => simp [Except.toOption]
  | true => simp [Except.toOption]

/-!
# The search
-/

theorem solutionForNonce_nonce {solution : PowSolution}
    (h : job.solutionForNonce P nonce = .ok solution) : solution.nonce = nonce := by
  rcases bind_eq_ok.mp h with ⟨hash, _, hsolution⟩
  cases hsolution
  rfl

/-- A job fails on a nonce only where its parameters are out of bounds. -/
theorem HeaderJob.not_verifies_of_error
    (h : HeaderJob params prevHash32 epoch headerBytes nonceOffset target job) {e : PowJobError}
    (herror : job.solutionForNonce P nonce = .error e) (n : UInt64) :
    ¬Verifies P params prevHash32 epoch headerBytes nonceOffset target n := by
  rcases h.fits nonce with ⟨whole, hinject, _⟩
  have hhash := h.hashForNonce (P := P) hinject
  have hnone : (job.hashForNonce P nonce).toOption = none := by
    unfold PowJob.solutionForNonce at herror
    cases hfound : job.hashForNonce P nonce with
    | error e => rfl
    | ok hash =>
        rw [hfound] at herror
        cases herror
  rw [hnone] at hhash
  have hbounds : paramsWithinBounds params = false := by
    cases hparams : paramsWithinBounds params with
    | false => rfl
    | true =>
        unfold visionxDigest at hhash
        rw [hparams] at hhash
        cases hhash
  rintro ⟨whole', _, hverify⟩
  unfold verifyHeader at hverify
  rw [hbounds] at hverify
  cases hverify

/-- What a search over the nonces from `first` up to `last` may return: the least one that
verifies, with the job's hash of it, or nothing where none does. -/
def FirstVerified (P : Platform) (params : VisionXParams) (prevHash32 : U256) (epoch : UInt64)
    (headerBytes : Bytes) (nonceOffset : Nat) (target : U256) (job : PowJob) (first last : Nat) :
    Option PowSolution -> Prop
  | none => forall n : UInt64, first ≤ n.toNat -> n.toNat < last ->
      ¬Verifies P params prevHash32 epoch headerBytes nonceOffset target n
  | some solution =>
      (first ≤ solution.nonce.toNat ∧ solution.nonce.toNat < last) ∧
        Verifies P params prevHash32 epoch headerBytes nonceOffset target solution.nonce ∧
        job.solutionForNonce P solution.nonce = .ok solution ∧
        forall n : UInt64, first ≤ n.toNat -> n.toNat < solution.nonce.toNat ->
          ¬Verifies P params prevHash32 epoch headerBytes nonceOffset target n

theorem FirstVerified.skip {last : Nat} {found : Option PowSolution}
    (hnonce : ¬Verifies P params prevHash32 epoch headerBytes nonceOffset target nonce)
    (h : FirstVerified P params prevHash32 epoch headerBytes nonceOffset target job
      (nonce.toNat + 1) last found) :
    FirstVerified P params prevHash32 epoch headerBytes nonceOffset target job nonce.toNat last
      found := by
  have hfirst : forall n : UInt64, nonce.toNat ≤ n.toNat -> n ≠ nonce ->
      nonce.toNat + 1 ≤ n.toNat := by
    intro n hn hne
    have hnat : n.toNat ≠ nonce.toNat := fun heq => hne (UInt64.toNat_inj.mp heq)
    omega
  cases found with
  | none =>
      intro n hn hlast hverifies
      by_cases heq : n = nonce
      · exact hnonce (heq ▸ hverifies)
      · exact h n (hfirst n hn heq) hlast hverifies
  | some solution =>
      rcases h with ⟨⟨hlow, hlast⟩, hsolution, hhash, hless⟩
      refine ⟨⟨by omega, hlast⟩, hsolution, hhash, ?_⟩
      intro n hn hbelow hverifies
      by_cases heq : n = nonce
      · exact hnonce (heq ▸ hverifies)
      · exact hless n (hfirst n hn heq) hbelow hverifies

/-- The search looks at every nonce from the first one on, until one solves the job. -/
theorem HeaderJob.mineLoop
    (h : HeaderJob params prevHash32 epoch headerBytes nonceOffset target job) (P : Platform)
    (left : Nat) (nonce : UInt64) (hroom : nonce.toNat + left < u64Bound) :
    FirstVerified P params prevHash32 epoch headerBytes nonceOffset target job nonce.toNat
      (nonce.toNat + left) (job.mineLoop P left nonce) := by
  induction left generalizing nonce with
  | zero =>
      intro n hn hlast
      omega
  | succ left ih =>
      have hnext : (nonce + 1).toNat = nonce.toNat + 1 := by
        rw [UInt64.toNat_add]
        exact Nat.mod_eq_of_lt (Nat.lt_of_le_of_lt (show nonce.toNat + 1 ≤ nonce.toNat + (left + 1)
          by omega) hroom)
      unfold PowJob.mineLoop
      cases hsolution : job.solutionForNonce P nonce with
      | error e => exact fun n _ _ => h.not_verifies_of_error hsolution n
      | ok candidate =>
          have hcandidate := solutionForNonce_nonce hsolution
          dsimp only
          split
          · rename_i hvalid
            have hverifies : Verifies P params prevHash32 epoch headerBytes nonceOffset target
                nonce := by
              refine h.verifies_iff.mpr ⟨candidate.hash, ?_, ?_⟩
              · rw [hsolution, ← hcandidate]
              · rw [← hcandidate]
                exact hvalid
            rw [← hcandidate] at hverifies hsolution ⊢
            refine ⟨⟨Nat.le_refl _, by omega⟩, hverifies, hsolution, ?_⟩
            intro n hn hless
            omega
          · rename_i hinvalid
            have hnot : ¬Verifies P params prevHash32 epoch headerBytes nonceOffset target
                nonce := by
              intro hverifies
              rcases h.verifies_iff.mp hverifies with ⟨hash, hsame, hvalid⟩
              rw [hsolution] at hsame
              cases hsame
              exact hinvalid hvalid
            apply FirstVerified.skip hnot
            have hrest := ih (nonce + 1) (by rw [hnext]; omega)
            rw [hnext, show nonce.toNat + 1 + left = nonce.toNat + (left + 1) by omega] at hrest
            exact hrest

/-- The miner returns the least nonce below the limit whose header bytes the verifier
accepts, with the hash that the verifier compares, and nothing where there is none. -/
theorem mine_firstVerified {miner : VisionXMiner}
    (hjob : miner.buildJob prevHash32 epoch headerBytes nonceOffset target = .ok job)
    (nonceLimit : UInt64) :
    FirstVerified P miner.params prevHash32 epoch headerBytes nonceOffset target job 0
      nonceLimit.toNat (miner.mine P job nonceLimit) := by
  have hheader := headerJob_of_new hjob
  have hsearch := hheader.mineLoop P nonceLimit.toNat 0
    (by rw [UInt64.toNat_zero, Nat.zero_add]; exact nonceLimit.toNat_lt)
  unfold VisionXMiner.mine
  rw [if_neg (not_not.mpr hheader.params_eq)]
  simpa using hsearch

end Search

def sampleTarget : U256 :=
  { bytes := List.replicate 32 127, length_eq := rfl }

/-- The network's miner on a header of zeros. -/
theorem mine_firstVerified_zeros :
    exists job,
      VisionXMiner.buildJob { params := visionxParams } sampleTarget 0 (List.replicate 16 0) 4
        sampleTarget = .ok job ∧
      FirstVerified samplePlatform visionxParams sampleTarget 0 (List.replicate 16 0) 4
        sampleTarget job 0 5 (VisionXMiner.mine samplePlatform { params := visionxParams } job 5) :=
  ⟨_, rfl, @mine_firstVerified samplePlatform _ _ _ _ _ _ { params := visionxParams } rfl 5⟩

end VisionCore
