import VisionCore.Chain.Orphan
import VisionCore.Foundation.OrderedMap

/-!
# The orphan pool as a collection

Which blocks wait in the pool, and how many, under the pool's operations.
-/

namespace VisionCore

open Std
open Foundation

/-- An entry waits in the pool under a parent hash. -/
def Waits (g : ChainState) (key : String) (entry : OrphanEntry) : Prop :=
  exists waiting, g.orphanPool[key]? = some waiting ∧ entry ∈ waiting

/-!
# Membership
-/

theorem Waits.congr {g g' : ChainState} (h : g'.orphanPool = g.orphanPool) {key : String}
    {entry : OrphanEntry} : Waits g' key entry ↔ Waits g key entry := by
  unfold Waits
  rw [h]

theorem waits_takeWaiting {g : ChainState} {key key' : String} {entry : OrphanEntry} :
    Waits (takeWaiting g key) key' entry ↔ key ≠ key' ∧ Waits g key' entry := by
  unfold Waits takeWaiting
  by_cases hkey : key = key'
  · simp [hkey]
  · simp [hkey, ExtTreeMap.getElem?_erase]

theorem waits_evictOrphan {g : ChainState} {evicted key : String} {pos : Nat}
    {entry : OrphanEntry} (h : Waits (evictOrphan g evicted pos) key entry) :
    Waits g key entry := by
  unfold evictOrphan at h
  cases hslot : g.orphanPool[evicted]? with
  | none =>
      rw [hslot] at h
      exact h
  | some entries =>
      rw [hslot] at h
      rcases h with ⟨waiting, hwaiting, hentry⟩
      dsimp only at hwaiting
      by_cases hkey : evicted = key
      · subst hkey
        split at hwaiting
        · simp at hwaiting
        · simp at hwaiting
          subst hwaiting
          exact ⟨entries, hslot, List.mem_of_mem_eraseIdx hentry⟩
      · refine ⟨waiting, ?_, hentry⟩
        split at hwaiting
        · simpa [ExtTreeMap.getElem?_erase, hkey] using hwaiting
        · simpa [ExtTreeMap.getElem?_insert, hkey] using hwaiting

theorem waits_pruneOldOrphans {g : ChainState} {key : String} {entry : OrphanEntry}
    (h : Waits (pruneOldOrphans g) key entry) : Waits g key entry := by
  unfold pruneOldOrphans at h
  split at h
  · exact h
  · split at h
    · exact h
    · exact waits_evictOrphan h

theorem waits_addOrphan {now : UInt64} {g : ChainState} {blk : Block} {peer key : String}
    {entry : OrphanEntry} :
    Waits (addOrphan now g blk peer) key entry ↔
      (key = blk.header.parentHash ∧ entry = (blk, now, peer)) ∨
        Waits (pruneOldOrphans g) key entry := by
  unfold Waits addOrphan
  by_cases hkey : blk.header.parentHash = key
  · subst hkey
    cases hslot : (pruneOldOrphans g).orphanPool[blk.header.parentHash]? with
    | none => simp [hslot]
    | some waiting => simp [hslot, or_comm]
  · have hkey' : key ≠ blk.header.parentHash := fun h => hkey h.symm
    simp [ExtTreeMap.getElem?_insert, hkey, hkey']

/-- Nothing is evicted from a pool below its limit. -/
theorem pruneOldOrphans_eq {g : ChainState} (h : orphanCount g < orphanPoolMax) :
    pruneOldOrphans g = g :=
  if_pos h

/-!
# Unchanged fields
-/

theorem evictOrphan_eq (g : ChainState) (key : String) (pos : Nat) :
    exists pool byHash,
      evictOrphan g key pos = { g with orphanPool := pool, orphanByHash := byHash } := by
  unfold evictOrphan
  split
  · exact ⟨g.orphanPool, g.orphanByHash, rfl⟩
  · exact ⟨_, _, rfl⟩

theorem pruneOldOrphans_frame (g : ChainState) :
    exists pool byHash,
      pruneOldOrphans g = { g with orphanPool := pool, orphanByHash := byHash } := by
  unfold pruneOldOrphans
  split
  · exact ⟨g.orphanPool, g.orphanByHash, rfl⟩
  · split
    · exact ⟨g.orphanPool, g.orphanByHash, rfl⟩
    · exact evictOrphan_eq g _ _

/-- Adding an orphan changes the pool and its reverse index only. -/
theorem addOrphan_frame (now : UInt64) (g : ChainState) (blk : Block) (peer : String) :
    exists pool byHash,
      addOrphan now g blk peer = { g with orphanPool := pool, orphanByHash := byHash } := by
  rcases pruneOldOrphans_frame g with ⟨pool, byHash, hprune⟩
  unfold addOrphan
  rw [hprune]
  exact ⟨_, _, rfl⟩

/-!
# Size
-/

theorem orphanCount_eq_mapSum (g : ChainState) :
    orphanCount g = mapSum List.length g.orphanPool := rfl

theorem orphanCount_congr {g g' : ChainState} (h : g'.orphanPool = g.orphanPool) :
    orphanCount g' = orphanCount g := by
  rw [orphanCount_eq_mapSum, orphanCount_eq_mapSum, h]

theorem orphanCount_takeWaiting {g : ChainState} {key : String} {waiting : List OrphanEntry}
    (hslot : g.orphanPool[key]? = some waiting) :
    orphanCount g = waiting.length + orphanCount (takeWaiting g key) :=
  mapSum_erase List.length hslot

theorem orphanCount_evictOrphan_le (g : ChainState) (key : String) (pos : Nat) :
    orphanCount (evictOrphan g key pos) ≤ orphanCount g := by
  unfold evictOrphan
  cases hslot : g.orphanPool[key]? with
  | none => exact Nat.le_refl _
  | some entries =>
      have hbefore := orphanCount_takeWaiting hslot
      simp only [orphanCount_eq_mapSum, takeWaiting] at hbefore ⊢
      split
      · omega
      · rw [mapSum_insert]
        have hlength := List.length_eraseIdx_le entries pos
        omega

theorem orphanCount_pruneOldOrphans_le (g : ChainState) :
    orphanCount (pruneOldOrphans g) ≤ orphanCount g := by
  unfold pruneOldOrphans
  split
  · exact Nat.le_refl _
  · split
    · exact Nat.le_refl _
    · exact orphanCount_evictOrphan_le g _ _

theorem orphanCount_addOrphan (now : UInt64) (g : ChainState) (blk : Block) (peer : String) :
    orphanCount (addOrphan now g blk peer) = orphanCount (pruneOldOrphans g) + 1 := by
  unfold addOrphan
  simp only [orphanCount_eq_mapSum]
  rw [mapSum_insert,
    mapSum_eq_getD List.length (pruneOldOrphans g).orphanPool blk.header.parentHash
      (v := []) rfl]
  rw [List.length_append, List.length_singleton]
  omega

/-!
# Eviction
-/

theorem mem_orphanSlots {g : ChainState} {key : String} {pos : Nat} {arrival : UInt64}
    (h : (key, pos, arrival) ∈ orphanSlots g) :
    exists (waiting : List OrphanEntry) (entry : OrphanEntry),
      g.orphanPool[key]? = some waiting ∧ waiting[pos]? = some entry := by
  unfold orphanSlots at h
  rcases List.mem_flatMap.mp h with ⟨⟨k, waiting⟩, hslot, hentry⟩
  rcases List.mem_map.mp hentry with ⟨⟨entry, i⟩, hindexed, heq⟩
  cases heq
  exact ⟨waiting, entry, ExtTreeMap.mem_toList_iff_getElem?_eq_some.mp hslot,
    List.mk_mem_zipIdx_iff_getElem?.mp hindexed⟩

/-- A fold that at each item keeps what it has or takes the item selects an item,
unless there is none. -/
theorem foldl_select {Item : Type} {f : Option Item -> Item -> Option Item}
    (hf : forall kept x, f kept x = some x ∨ (kept ≠ none ∧ f kept x = kept))
    (items : List Item) (kept : Option Item) :
    (exists x, x ∈ items ∧ items.foldl f kept = some x) ∨
      (items.foldl f kept = kept ∧ (items = [] ∨ kept ≠ none)) := by
  induction items generalizing kept with
  | nil => exact Or.inr ⟨rfl, Or.inl rfl⟩
  | cons first rest ih =>
      rw [List.foldl_cons]
      rcases ih (f kept first) with ⟨x, hx, hfold⟩ | ⟨hfold, _⟩
      · exact Or.inl ⟨x, List.mem_cons_of_mem _ hx, hfold⟩
      · rcases hf kept first with htaken | ⟨hsome, hkept⟩
        · exact Or.inl ⟨first, List.mem_cons_self, hfold.trans htaken⟩
        · exact Or.inr ⟨hfold.trans hkept, Or.inr hsome⟩

/-- The oldest entry is a stored one, when there is any. -/
theorem oldestOrphan_cases (g : ChainState) :
    orphanSlots g = [] ∨ exists slot, slot ∈ orphanSlots g ∧ oldestOrphan g = some slot := by
  have hselect : (exists slot, slot ∈ orphanSlots g ∧ oldestOrphan g = some slot) ∨
      (oldestOrphan g = none ∧
        (orphanSlots g = [] ∨ (none : Option (String × Nat × UInt64)) ≠ none)) := by
    unfold oldestOrphan
    refine foldl_select ?_ (orphanSlots g) none
    intro kept x
    cases kept with
    | none => exact Or.inl rfl
    | some best =>
        dsimp only
        split
        · exact Or.inl rfl
        · exact Or.inr ⟨Option.some_ne_none best, rfl⟩
  rcases hselect with hselected | ⟨_, hnil | hnone⟩
  · exact Or.inr hselected
  · exact Or.inl hnil
  · exact absurd rfl hnone

theorem orphanSlots_ne_nil {g : ChainState} (h : orphanCount g ≠ 0) : orphanSlots g ≠ [] := by
  intro hnil
  apply h
  unfold orphanSlots at hnil
  unfold orphanCount
  rw [List.sum_eq_zero_iff]
  intro n hn
  rcases List.mem_map.mp hn with ⟨slot, hslot, rfl⟩
  have hempty := List.flatMap_eq_nil_iff.mp hnil slot hslot
  rw [List.map_eq_nil_iff, List.zipIdx_eq_nil_iff] at hempty
  rw [hempty]
  rfl

/-- A full pool loses exactly one entry, and its name leaves the index. -/
theorem pruneOldOrphans_full {g : ChainState} (h : orphanPoolMax ≤ orphanCount g) :
    exists (key : String) (waiting : List OrphanEntry) (pos : Nat) (evicted : OrphanEntry),
      g.orphanPool[key]? = some waiting ∧ waiting[pos]? = some evicted ∧
        pruneOldOrphans g =
          { g with
            orphanByHash := g.orphanByHash.erase evicted.1.hash
            orphanPool :=
              if (waiting.eraseIdx pos).isEmpty then g.orphanPool.erase key
              else g.orphanPool.insert key (waiting.eraseIdx pos) } := by
  have hpositive : orphanCount g ≠ 0 := by
    have hmax : 0 < orphanPoolMax := by decide
    omega
  rcases oldestOrphan_cases g with hnil | ⟨⟨key, pos, arrival⟩, hmem, holdest⟩
  · exact absurd hnil (orphanSlots_ne_nil hpositive)
  rcases mem_orphanSlots hmem with ⟨waiting, evicted, hslot, hpos⟩
  refine ⟨key, waiting, pos, evicted, hslot, hpos, ?_⟩
  unfold pruneOldOrphans
  rw [if_neg (Nat.not_lt.mpr h), holdest]
  dsimp only
  unfold evictOrphan
  rw [hslot]
  dsimp only
  rw [hpos]

theorem orphanCount_pruneOldOrphans_full {g : ChainState} (h : orphanPoolMax ≤ orphanCount g) :
    orphanCount (pruneOldOrphans g) + 1 = orphanCount g := by
  rcases pruneOldOrphans_full h with ⟨key, waiting, pos, evicted, hslot, hpos, hpruned⟩
  have hlength : (waiting.eraseIdx pos).length + 1 = waiting.length := by
    have hlt := (List.getElem?_eq_some_iff.mp hpos).1
    rw [List.length_eraseIdx_of_lt hlt]
    omega
  have htaken := orphanCount_takeWaiting hslot
  simp only [orphanCount_eq_mapSum, takeWaiting] at htaken
  rw [hpruned]
  simp only [orphanCount_eq_mapSum]
  cases hrest : waiting.eraseIdx pos with
  | nil =>
      rw [hrest] at hlength
      rw [List.length_nil] at hlength
      rw [if_pos (List.isEmpty_nil)]
      omega
  | cons entry rest =>
      rw [hrest] at hlength
      rw [if_neg (by simp), mapSum_insert]
      omega

/-- Adding an orphan keeps the pool within its limit. -/
theorem orphanCount_addOrphan_le (now : UInt64) {g : ChainState} (blk : Block) (peer : String)
    (h : orphanCount g ≤ orphanPoolMax) :
    orphanCount (addOrphan now g blk peer) ≤ orphanPoolMax := by
  rw [orphanCount_addOrphan]
  by_cases hfull : orphanPoolMax ≤ orphanCount g
  · have hpruned := orphanCount_pruneOldOrphans_full hfull
    omega
  · rw [pruneOldOrphans_eq (Nat.not_le.mp hfull)]
    omega

end VisionCore
