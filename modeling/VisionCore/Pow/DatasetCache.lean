import VisionCore.Chain.Sample
import VisionCore.Foundation.Listing
import VisionCore.Foundation.Memo
import VisionCore.Foundation.Outcome
import VisionCore.Pow.VisionX

/-!
# The dataset cache

The construction of the VisionX dataset of an epoch, and the cache that the threads of a
node share.  The words of a dataset are a list, so that sharing one by reference and
copying it are the same thing.
-/

namespace VisionCore

open Std
open Foundation

/-!
# Construction
-/

def rotateLeft64 (x n : UInt64) : UInt64 :=
  x <<< n ||| x >>> (64 - n)

structure SplitMix64 where
  state : UInt64

namespace SplitMix64

def next (sm : SplitMix64) : UInt64 × SplitMix64 :=
  let state := sm.state + 0x9E3779B97F4A7C15
  let z := (state ^^^ (state >>> 30)) * 0xBF58476D1CE4E5B9
  let z := (z ^^^ (z >>> 27)) * 0x94D049BB133111EB
  (z ^^^ (z >>> 31), { state := state })

/-- The next words of the generator, in order. -/
def take : Nat -> SplitMix64 -> List UInt64
  | 0, _ => []
  | count + 1, sm => sm.next.1 :: take count sm.next.2

end SplitMix64

def foldSeed (prevHash32 : U256) (epochId : UInt64) : UInt64 :=
  (prevHash32.bytes.toChunks 8).foldl
    (fun s chunk =>
      let v := chunk ++ List.replicate (8 - chunk.length) 0
      rotateLeft64 ((s ^^^ rotateLeft64 (UInt64.ofNat (fromBeBytes v)) 7) * 0x9E3779B97F4A7C15) 9)
    (epochId ^^^ 0xA24BAED4963EE407)

/-- A multiplication of `usize`, which has 64 bits. -/
def mulUsize (P : Platform) (a b : Nat) : Except Fault Nat :=
  if a * b < u64Bound then .ok (a * b)
  else if P.overflowChecks then .error .overflow
  else .ok (a * b % u64Bound)

/-- Double `n` until it is at least `words`. -/
def doubleUpTo (words n : Nat) (hn : 0 < n) : Nat :=
  if n < words then doubleUpTo words (n <<< 1) (by rw [Nat.shiftLeft_eq]; omega) else n
termination_by words - n
decreasing_by
  rw [Nat.shiftLeft_eq]
  omega

structure VisionXDataset where
  mem : List UInt64
  mask : Nat

def VisionXDataset.build (P : Platform) (params : VisionXParams) (prevHash32 : U256)
    (epoch : UInt64) : Except Fault VisionXDataset := do
  let kilobytes <- mulUsize P params.datasetMb 1024
  let bytes <- mulUsize P kilobytes 1024
  let words := doubleUpTo (bytes / 8) 1 Nat.one_pos
  let sm : SplitMix64 := { state := foldSeed prevHash32 epoch }
  return { mem := sm.take words, mask := words - 1 }

/-!
# The cache
-/

deriving instance Hashable for VisionXParams

deriving instance Hashable for U256

abbrev DatasetCacheKey := VisionXParams × UInt64 × U256

def datasetCacheCapacity : Nat := 3

structure DatasetCache where
  entries : ExtHashMap DatasetCacheKey (List UInt64 × Nat)
  order : List DatasetCacheKey

structure CacheInsertResult where
  dataset : List UInt64
  mask : Nat
  inserted : Bool
  evicted : List DatasetCacheKey

namespace DatasetCache

def default : DatasetCache :=
  { entries := ∅, order := [] }

def get (cache : DatasetCache) (key : DatasetCacheKey) : Option (List UInt64 × Nat) :=
  cache.entries[key]?

/-- The queued keys that have an entry, each at its first place. -/
def retainListed (entries : ExtHashMap DatasetCacheKey (List UInt64 × Nat)) :
    List DatasetCacheKey -> List DatasetCacheKey -> List DatasetCacheKey
  | _, [] => []
  | seen, key :: rest =>
      if !entries.contains key || seen.contains key then retainListed entries seen rest
      else key :: retainListed entries (seen ++ [key]) rest

def retainOrderForEntries (cache : DatasetCache) : DatasetCache :=
  { cache with order := retainListed cache.entries [] cache.order }

/-- The loop of `evictOverCapacityLimit`.  A candidate that has an entry and is not the
active key is removed, so that the test of the removal's result always succeeds. -/
def evictLoop (activeKey : DatasetCacheKey) (capacity : Nat)
    (entries : ExtHashMap DatasetCacheKey (List UInt64 × Nat)) (order : List DatasetCacheKey)
    (evicted : List DatasetCacheKey) (rotations : Nat) : DatasetCache × List DatasetCacheKey :=
  if entries.size > capacity ∧ rotations ≤ order.length then
    match _ : order with
    | [] => ({ entries := entries, order := [] }, evicted)
    | candidate :: rest =>
        if !entries.contains candidate then
          evictLoop activeKey capacity entries rest evicted rotations
        else if candidate = activeKey then
          evictLoop activeKey capacity entries (rest ++ [candidate]) evicted (rotations + 1)
        else
          evictLoop activeKey capacity (entries.erase candidate) rest (evicted ++ [candidate]) 0
  else ({ entries := entries, order := order }, evicted)
termination_by (order.length, order.length + 1 - rotations)
decreasing_by
  · exact Prod.Lex.left _ _ (Nat.lt_succ_self rest.length)
  · -- the queue keeps its length, and the number of rotations left falls
    rename_i hloop horder _ _
    have hrotations := hloop.2
    rw [horder, List.length_cons] at hrotations
    rw [List.length_append, List.length_singleton, List.length_cons]
    exact Prod.Lex.right _ (by omega)
  · exact Prod.Lex.left _ _ (Nat.lt_succ_self rest.length)

def evictOverCapacityLimit (cache : DatasetCache) (activeKey : DatasetCacheKey)
    (capacity : Nat) : List DatasetCacheKey × DatasetCache :=
  let out := evictLoop activeKey capacity cache.entries cache.order [] 0
  (out.2, out.1.retainOrderForEntries)

def evictOverCapacity (cache : DatasetCache) (activeKey : DatasetCacheKey) :
    List DatasetCacheKey × DatasetCache :=
  cache.evictOverCapacityLimit activeKey datasetCacheCapacity

def insertIfAbsent (cache : DatasetCache) (key : DatasetCacheKey) (dataset : List UInt64)
    (mask : Nat) : CacheInsertResult × DatasetCache :=
  match cache.get key with
  | some (existing, existingMask) =>
      ({ dataset := existing, mask := existingMask, inserted := false, evicted := [] },
        cache.retainOrderForEntries)
  | none =>
      let entries := cache.entries.insert key (dataset, mask)
      let order := cache.order.filter (fun queued => queued ≠ key) ++ [key]
      let out := ({ entries := entries, order := order } : DatasetCache).evictOverCapacity key
      ({ dataset := dataset, mask := mask, inserted := true, evicted := out.1 }, out.2)

def clear (_ : DatasetCache) : DatasetCache :=
  { entries := ∅, order := [] }

end DatasetCache

/-- What `getCached` computes when the cache has no entry. -/
def buildFor (P : Platform) (key : DatasetCacheKey) : Except Fault (List UInt64 × Nat) := do
  let ds <- VisionXDataset.build P key.1 key.2.2 key.2.1
  return (ds.mem, ds.mask)

/-- The locked sections of `getCached` and `clearCache`. -/
def datasetMemo : MemoCache DatasetCacheKey (List UInt64 × Nat) DatasetCache where
  get := DatasetCache.get
  store := fun cache key ds =>
    let out := cache.insertIfAbsent key ds.1 ds.2
    ((out.1.dataset, out.1.mask), out.2)
  clear := DatasetCache.clear

/-!
# What the locked operations keep
-/

/-- The queue lists the entries, of which there are at most as many as the capacity. -/
structure CacheWellFormed (cache : DatasetCache) : Prop where
  lists : Lists cache.order cache.entries
  bounded : cache.entries.size ≤ datasetCacheCapacity

namespace DatasetCache

variable {cache : DatasetCache} {key activeKey : DatasetCacheKey} {capacity rotations : Nat}
  {evicted : List DatasetCacheKey}

theorem retainListed_eq {entries : ExtHashMap DatasetCacheKey (List UInt64 × Nat)}
    {seen order : List DatasetCacheKey} (hnodup : order.Nodup)
    (hentries : forall key, key ∈ order -> key ∈ entries)
    (hseen : forall key, key ∈ order -> key ∉ seen) :
    retainListed entries seen order = order := by
  induction order generalizing seen with
  | nil => rfl
  | cons key rest ih =>
      have hkept : ¬((!entries.contains key || seen.contains key) = true) := by
        rw [Bool.or_eq_true, not_or]
        constructor
        · rw [ExtHashMap.contains_iff_mem.mpr (hentries key List.mem_cons_self)]
          exact Bool.false_ne_true
        · rw [List.contains_iff_mem]
          exact hseen key List.mem_cons_self
      have hrest := List.nodup_cons.mp hnodup
      unfold retainListed
      rw [if_neg hkept, ih hrest.2 fun k hk => hentries k (List.mem_cons_of_mem _ hk)]
      intro k hk hmem
      cases List.mem_append.mp hmem with
      | inl hold => exact hseen k (List.mem_cons_of_mem _ hk) hold
      | inr hnew =>
          rw [List.mem_singleton.mp hnew] at hk
          exact hrest.1 hk

/-- A queue that lists the entries is left alone. -/
theorem retainOrderForEntries_eq (h : Lists cache.order cache.entries) :
    cache.retainOrderForEntries = cache := by
  unfold retainOrderForEntries
  rw [retainListed_eq h.nodup (fun k hk => (h.mem_iff k).mp hk) fun k _ hmem => by cases hmem]

/-- The state of the eviction loop: the queue lists the entries, the active key is among
them, and after a rotation another key is in front. -/
structure Evicting (activeKey : DatasetCacheKey)
    (entries : ExtHashMap DatasetCacheKey (List UInt64 × Nat)) (order : List DatasetCacheKey)
    (evicted : List DatasetCacheKey) (rotations : Nat) : Prop where
  lists : Lists order entries
  active : activeKey ∈ entries
  kept : activeKey ∉ evicted
  front : rotations = 0 ∨ (rotations = 1 ∧ order.head? ≠ some activeKey)

section Eviction

variable {entries : ExtHashMap DatasetCacheKey (List UInt64 × Nat)}
  {order rest : List DatasetCacheKey} {candidate : DatasetCacheKey}

theorem Evicting.rotate (h : Evicting activeKey entries (activeKey :: rest) evicted rotations)
    (hsize : 1 < entries.size) :
    Evicting activeKey entries (rest ++ [activeKey]) evicted (rotations + 1) where
  lists := h.lists.rotate
  active := h.active
  kept := h.kept
  front := by
    have hlength := h.lists.length_eq
    cases h.front with
    | inl hzero =>
        refine Or.inr ⟨by rw [hzero], ?_⟩
        cases rest with
        | nil =>
            rw [List.length_singleton] at hlength
            omega
        | cons next rest =>
            intro hhead
            cases Option.some.inj hhead
            exact (List.nodup_cons.mp h.lists.nodup).1 List.mem_cons_self
    | inr hone => exact absurd rfl hone.2

theorem Evicting.remove (h : Evicting activeKey entries (candidate :: rest) evicted rotations)
    (hother : candidate ≠ activeKey) :
    Evicting activeKey (entries.erase candidate) rest (evicted ++ [candidate]) 0 where
  lists := h.lists.erase_head
  active := ExtHashMap.mem_erase.mpr ⟨beq_false_of_ne hother, h.active⟩
  kept := by
    intro hmem
    cases List.mem_append.mp hmem with
    | inl hold => exact h.kept hold
    | inr hnew => exact hother (List.mem_singleton.mp hnew).symm
  front := Or.inl rfl

/-- What the eviction loop leaves: a listed cache within the capacity, with the active key,
and with no entry that was not there before. -/
structure Evicted (activeKey : DatasetCacheKey) (capacity : Nat)
    (entries : ExtHashMap DatasetCacheKey (List UInt64 × Nat))
    (out : DatasetCache × List DatasetCacheKey) : Prop where
  lists : Lists out.1.order out.1.entries
  bounded : out.1.entries.size ≤ capacity
  active : activeKey ∈ out.1.entries
  kept : activeKey ∉ out.2
  same : forall (key : DatasetCacheKey) (ds : List UInt64 × Nat),
    out.1.entries[key]? = some ds -> entries[key]? = some ds

theorem evictLoop_evicted (hcapacity : 1 ≤ capacity)
    (h : Evicting activeKey entries order evicted rotations) :
    Evicted activeKey capacity entries
      (evictLoop activeKey capacity entries order evicted rotations) := by
  induction entries, order, evicted, rotations using evictLoop.induct activeKey capacity with
  | case1 entries evicted rotations hloop =>
      have hlength := h.lists.length_eq
      rw [List.length_nil] at hlength
      omega
  | case2 entries evicted rotations candidate rest habsent hloop _ =>
      have hmem : candidate ∈ entries := (h.lists.mem_iff _).mp List.mem_cons_self
      rw [ExtHashMap.contains_iff_mem.mpr hmem] at habsent
      cases habsent
  | case3 entries evicted rotations rest hpresent hloop ih =>
      unfold evictLoop
      rw [if_pos hloop]
      dsimp only
      rw [if_neg hpresent, if_pos rfl]
      exact ih (h.rotate (by omega))
  | case4 entries evicted rotations candidate rest hpresent hother hloop ih =>
      have hout := ih (h.remove hother)
      unfold evictLoop
      rw [if_pos hloop]
      dsimp only
      rw [if_neg hpresent, if_neg hother]
      refine ⟨hout.lists, hout.bounded, hout.active, hout.kept, ?_⟩
      intro key ds hslot
      have herased := hout.same key ds hslot
      rw [ExtHashMap.getElem?_erase] at herased
      split at herased
      · cases herased
      · exact herased
  | case5 entries order evicted rotations hdone =>
      have hlength := h.lists.length_eq
      -- at most one rotation has passed, so the loop ended because of the capacity
      have hbounded : entries.size ≤ capacity := by
        by_contra hlarge
        refine hdone ⟨by omega, ?_⟩
        rcases h.front with hzero | ⟨hone, _⟩
        · omega
        · omega
      unfold evictLoop
      rw [if_neg hdone]
      exact ⟨h.lists, hbounded, h.active, h.kept, fun _ _ hslot => hslot⟩

end Eviction

/-- What an insertion that finds no entry leaves, and what it reports. -/
theorem insertIfAbsent_absent (h : CacheWellFormed cache) (habsent : cache.get key = none)
    (dataset : List UInt64) (mask : Nat) :
    exists out, cache.insertIfAbsent key dataset mask =
        ({ dataset := dataset, mask := mask, inserted := true, evicted := out.2 }, out.1) ∧
      Evicted key datasetCacheCapacity (cache.entries.insert key (dataset, mask)) out := by
  have hfresh : key ∉ cache.entries := by
    intro hmem
    have hslot : cache.entries[key]? = none := habsent
    rw [ExtHashMap.mem_iff_isSome_getElem?, hslot] at hmem
    cases hmem
  have hlists := h.lists.insert hfresh (dataset, mask)
  have hevicted := @evictLoop_evicted key datasetCacheCapacity 0 []
    (cache.entries.insert key (dataset, mask)) (cache.order ++ [key]) (by decide)
    ⟨hlists, ExtHashMap.mem_insert_self, List.not_mem_nil, Or.inl rfl⟩
  refine ⟨_, ?_, hevicted⟩
  unfold insertIfAbsent evictOverCapacity evictOverCapacityLimit
  rw [habsent]
  dsimp only
  rw [h.lists.filter_ne hfresh, retainOrderForEntries_eq hevicted.lists]

theorem insertIfAbsent_present (h : CacheWellFormed cache) {ds : List UInt64 × Nat}
    (hpresent : cache.get key = some ds) (dataset : List UInt64) (mask : Nat) :
    cache.insertIfAbsent key dataset mask =
      ({ dataset := ds.1, mask := ds.2, inserted := false, evicted := [] }, cache) := by
  unfold insertIfAbsent
  rw [hpresent]
  dsimp only
  rw [retainOrderForEntries_eq h.lists]

theorem insertIfAbsent_wellFormed (h : CacheWellFormed cache) (dataset : List UInt64)
    (mask : Nat) : CacheWellFormed (cache.insertIfAbsent key dataset mask).2 := by
  cases hget : cache.get key with
  | none =>
      rcases insertIfAbsent_absent h hget dataset mask with ⟨out, heq, hevicted⟩
      rw [heq]
      exact ⟨hevicted.lists, hevicted.bounded⟩
  | some ds =>
      rw [insertIfAbsent_present h hget]
      exact h

/-- An insertion keeps the key that it inserts. -/
theorem insertIfAbsent_keeps (h : CacheWellFormed cache) (dataset : List UInt64) (mask : Nat) :
    key ∈ (cache.insertIfAbsent key dataset mask).2.entries ∧
      key ∉ (cache.insertIfAbsent key dataset mask).1.evicted := by
  cases hget : cache.get key with
  | none =>
      rcases insertIfAbsent_absent h hget dataset mask with ⟨out, heq, hevicted⟩
      rw [heq]
      exact ⟨hevicted.active, hevicted.kept⟩
  | some ds =>
      rw [insertIfAbsent_present h hget]
      refine ⟨?_, List.not_mem_nil⟩
      rw [ExtHashMap.mem_iff_isSome_getElem?]
      exact Option.isSome_iff_exists.mpr ⟨ds, hget⟩

end DatasetCache

theorem CacheWellFormed.empty : CacheWellFormed DatasetCache.default where
  lists := Lists.empty
  bounded := Nat.zero_le _

/-- The locked sections are those of a lawful memo. -/
theorem datasetMemo_lawful : datasetMemo.Lawful CacheWellFormed where
  store := fun h => DatasetCache.insertIfAbsent_wellFormed h _ _
  stored := by
    intro cache key ds h
    dsimp only [datasetMemo]
    cases hget : cache.get key with
    | none =>
        rcases DatasetCache.insertIfAbsent_absent h hget ds.1 ds.2 with ⟨out, heq, _⟩
        rw [heq]
        rfl
    | some existing =>
        rw [DatasetCache.insertIfAbsent_present h hget]
        rfl
  get_store := by
    intro cache key ds key' found h hfound
    dsimp only [datasetMemo] at hfound ⊢
    cases hget : cache.get key with
    | none =>
        rcases DatasetCache.insertIfAbsent_absent h hget ds.1 ds.2 with ⟨out, heq, hevicted⟩
        rw [heq] at hfound
        have hslot := hevicted.same key' found hfound
        rw [ExtHashMap.getElem?_insert] at hslot
        split at hslot
        · rename_i hkey
          exact Or.inr ⟨(beq_iff_eq.mp hkey).symm, (Option.some.inj hslot).symm⟩
        · exact Or.inl hslot
    | some existing =>
        rw [DatasetCache.insertIfAbsent_present h hget] at hfound
        exact Or.inl hfound
  clear := fun _ => CacheWellFormed.empty
  get_clear := by
    intro cache key
    exact ExtHashMap.getElem?_empty

/-!
# Threads that share the cache
-/

theorem buildFor_eq_ok {P : Platform} {key : DatasetCacheKey} {ds : List UInt64 × Nat} :
    buildFor P key = .ok ds ↔
      VisionXDataset.build P key.1 key.2.2 key.2.1 = .ok { mem := ds.1, mask := ds.2 } := by
  unfold buildFor
  rw [bind_eq_ok]
  constructor
  · rintro ⟨built, hbuilt, hfinal⟩
    cases hfinal
    exact hbuilt
  · intro hbuilt
    exact ⟨_, hbuilt, rfl⟩

theorem mulUsize_ok {P : Platform} {a b : Nat} (h : a * b < u64Bound) :
    mulUsize P a b = .ok (a * b) :=
  if_pos h

/-- A dataset whose bytes a `usize` can count is built. -/
theorem buildFor_total {P : Platform} {key : DatasetCacheKey}
    (hbytes : key.1.datasetMb * 1024 * 1024 < u64Bound) : exists ds, buildFor P key = .ok ds := by
  have hpositive : 0 < 1024 := by decide
  have hkilobytes : mulUsize P key.1.datasetMb 1024 = .ok (key.1.datasetMb * 1024) :=
    mulUsize_ok (Nat.lt_of_le_of_lt (Nat.le_mul_of_pos_right _ hpositive) hbytes)
  have hmul : mulUsize P (key.1.datasetMb * 1024) 1024 = .ok (key.1.datasetMb * 1024 * 1024) :=
    mulUsize_ok hbytes
  have hbuilt : exists built, VisionXDataset.build P key.1 key.2.2 key.2.1 = .ok built :=
    ⟨_, bind_eq_ok.mpr ⟨_, hkilobytes, bind_eq_ok.mpr ⟨_, hmul, rfl⟩⟩⟩
  rcases hbuilt with ⟨built, hbuilt⟩
  exact ⟨(built.mem, built.mask), buildFor_eq_ok.mpr hbuilt⟩

/-- The states of the threads and the cache after any locked steps from the empty cache. -/
def CacheReaches {Thread : Type} [DecidableEq Thread] (P : Platform)
    (s : MemoState Thread DatasetCacheKey (List UInt64 × Nat) DatasetCache) : Prop :=
  Relation.ReflTransGen (MemoStep datasetMemo (buildFor P)) (MemoState.start .default) s

/-- In every state that is reached, all returned datasets are the built ones, the queue lists
the entries within the capacity, insertions keep their key, and a call goes on: it returns
at once or builds, and what it has built it can return. -/
theorem datasetCache_transparent {Thread : Type} [DecidableEq Thread] {P : Platform}
    {s : MemoState Thread DatasetCacheKey (List UInt64 × Nat) DatasetCache}
    (hreached : CacheReaches P s) :
    (forall (key : DatasetCacheKey) (words : List UInt64) (mask : Nat),
      (key, words, mask) ∈ s.returned ->
        VisionXDataset.build P key.1 key.2.2 key.2.1 = .ok { mem := words, mask := mask }) ∧
    (s.cache.order.Nodup ∧ forall key : DatasetCacheKey,
      key ∈ s.cache.order ↔ key ∈ s.cache.entries) ∧
    s.cache.entries.size ≤ datasetCacheCapacity ∧
    (forall (key : DatasetCacheKey) (words : List UInt64) (mask : Nat),
      key ∈ (s.cache.insertIfAbsent key words mask).2.entries ∧
        key ∉ (s.cache.insertIfAbsent key words mask).1.evicted) ∧
    forall (i : Thread) (key : DatasetCacheKey),
      (s.phase i = .idle ->
        (exists ds, buildFor P key = .ok ds ∧
          MemoStep datasetMemo (buildFor P) s (s.give key ds)) ∨
        MemoStep datasetMemo (buildFor P) s (s.setPhase i (.computing key))) ∧
      forall ds, s.phase i = .computing key -> buildFor P key = .ok ds ->
        exists t, MemoStep datasetMemo (buildFor P) s t ∧ t.phase i = .idle ∧
          t.returned = s.returned ++ [(key, ds)] := by
  have hsound := (MemoSound.start CacheWellFormed.empty fun key =>
    ExtHashMap.getElem?_empty).run datasetMemo_lawful hreached
  refine ⟨?_, ⟨hsound.inv.lists.nodup, hsound.inv.lists.mem_iff⟩, hsound.inv.bounded, ?_, ?_⟩
  · intro key words mask hmem
    exact buildFor_eq_ok.mp (hsound.returned hmem)
  · intro key words mask
    exact DatasetCache.insertIfAbsent_keeps hsound.inv words mask
  · intro i key
    exact ⟨fun hidle => hsound.call_enabled hidle key,
      fun ds hcomputing hds => hsound.return_enabled datasetMemo_lawful hcomputing hds⟩

/-- A first call returns what it builds. -/
theorem firstCall_returns {P : Platform} {key : DatasetCacheKey} {ds : List UInt64 × Nat}
    (hds : buildFor P key = .ok ds) :
    exists s : MemoState Unit DatasetCacheKey (List UInt64 × Nat) DatasetCache,
      CacheReaches P s ∧ s.returned = [(key, ds)] := by
  have hmiss : CacheReaches P
      ((MemoState.start .default : MemoState Unit DatasetCacheKey (List UInt64 × Nat)
        DatasetCache).setPhase () (.computing key)) :=
    Relation.ReflTransGen.single (MemoStep.miss rfl ExtHashMap.getElem?_empty)
  have hsound := (MemoSound.start CacheWellFormed.empty fun key =>
    ExtHashMap.getElem?_empty).run datasetMemo_lawful hmiss
  rcases hsound.return_enabled datasetMemo_lawful (i := ()) rfl hds with
    ⟨s, hstep, _, hreturned⟩
  exact ⟨s, hmiss.tail hstep, hreturned⟩

/-- One thread asks for the dataset of the first epoch over the genesis block. -/
theorem datasetCache_transparent_sample : exists (ds : List UInt64 × Nat)
    (s : MemoState Unit DatasetCacheKey (List UInt64 × Nat) DatasetCache),
    CacheReaches samplePlatform s ∧ s.returned = [((visionxParams, 0, genesisDigest), ds)] ∧
      VisionXDataset.build samplePlatform visionxParams genesisDigest 0 =
        .ok { mem := ds.1, mask := ds.2 } := by
  have hbytes : visionxParams.datasetMb * 1024 * 1024 < u64Bound := by
    norm_num [visionxParams, visionxDatasetMb, u64Bound]
  rcases @buildFor_total samplePlatform (visionxParams, 0, genesisDigest) hbytes with ⟨ds, hds⟩
  rcases firstCall_returns hds with ⟨s, hreached, hreturned⟩
  have hmem : ((visionxParams, 0, genesisDigest), ds) ∈ s.returned := by
    rw [hreturned]
    exact List.mem_cons_self
  have hsound := datasetCache_transparent hreached
  exact ⟨ds, s, hreached, hreturned,
    hsound.1 (visionxParams, 0, genesisDigest) ds.1 ds.2 hmem⟩

end VisionCore
