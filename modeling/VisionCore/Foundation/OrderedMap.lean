import Mathlib.Tactic

/-!
# Folds over ordered maps

Lookups in a map after a list of entries has been inserted or erased.
-/

namespace VisionCore
namespace Foundation

open Std

variable {Key Value Item : Type} {cmp : Key -> Key -> Ordering}
  [TransCmp cmp] [LawfulEqCmp cmp]

theorem getElem?_insert_ite [DecidableEq Key] (m : ExtTreeMap Key Value cmp) (k : Key)
    (v : Value) (k' : Key) : (m.insert k v)[k']? = if k = k' then some v else m[k']? := by
  rw [ExtTreeMap.getElem?_insert]
  simp only [LawfulEqCmp.compare_eq_iff_eq]

theorem getElem?_erase_ite [DecidableEq Key] (m : ExtTreeMap Key Value cmp) (k k' : Key) :
    (m.erase k)[k']? = if k = k' then none else m[k']? := by
  rw [ExtTreeMap.getElem?_erase]
  simp only [LawfulEqCmp.compare_eq_iff_eq]

theorem mem_insert_iff {m : ExtTreeMap Key Value cmp} {k k' : Key} {v : Value} :
    k' ∈ m.insert k v ↔ k = k' ∨ k' ∈ m := by
  rw [ExtTreeMap.mem_insert, LawfulEqCmp.compare_eq_iff_eq]

theorem mem_insert_set_iff {m : ExtTreeSet Key cmp} {k k' : Key} :
    k' ∈ m.insert k ↔ k = k' ∨ k' ∈ m := by
  rw [ExtTreeSet.mem_insert, LawfulEqCmp.compare_eq_iff_eq]

theorem getElem?_foldl_erase_of_not_mem (key : Item -> Key) (items : List Item)
    (m : ExtTreeMap Key Value cmp) {k : Key} (hk : k ∉ items.map key) :
    (items.foldl (fun m x => m.erase (key x)) m)[k]? = m[k]? := by
  induction items generalizing m with
  | nil => rfl
  | cons x rest ih =>
      rw [List.map_cons, List.mem_cons, not_or] at hk
      have hx : key x ≠ k := fun h => hk.1 h.symm
      rw [List.foldl_cons, ih _ hk.2]
      simp [ExtTreeMap.getElem?_erase, hx]

theorem getElem?_foldl_erase_of_mem (key : Item -> Key) (items : List Item)
    (m : ExtTreeMap Key Value cmp) {k : Key} (hk : k ∈ items.map key) :
    (items.foldl (fun m x => m.erase (key x)) m)[k]? = none := by
  induction items generalizing m with
  | nil => cases hk
  | cons x rest ih =>
      rw [List.foldl_cons]
      by_cases hrest : k ∈ rest.map key
      · exact ih _ hrest
      · have hx : key x = k := by
          cases List.mem_cons.mp hk with
          | inl h => exact h.symm
          | inr h => exact absurd h hrest
        rw [getElem?_foldl_erase_of_not_mem key rest _ hrest, hx]
        simp

theorem getElem?_foldl_insert_of_not_mem (key : Item -> Key) (value : Item -> Value)
    (items : List Item) (m : ExtTreeMap Key Value cmp) {k : Key}
    (hk : k ∉ items.map key) :
    (items.foldl (fun m x => m.insert (key x) (value x)) m)[k]? = m[k]? := by
  induction items generalizing m with
  | nil => rfl
  | cons x rest ih =>
      rw [List.map_cons, List.mem_cons, not_or] at hk
      rw [List.foldl_cons, ih _ hk.2]
      have hx : key x ≠ k := fun h => hk.1 h.symm
      simp [ExtTreeMap.getElem?_insert, hx]

theorem getElem?_foldl_insert_of_mem (key : Item -> Key) (value : Item -> Value)
    (items : List Item) (m : ExtTreeMap Key Value cmp) (hnodup : (items.map key).Nodup)
    {x : Item} (hx : x ∈ items) :
    (items.foldl (fun m x => m.insert (key x) (value x)) m)[key x]? = some (value x) := by
  induction items generalizing m with
  | nil => cases hx
  | cons y rest ih =>
      rw [List.map_cons, List.nodup_cons] at hnodup
      rw [List.foldl_cons]
      cases List.mem_cons.mp hx with
      | inl h =>
          rw [h, getElem?_foldl_insert_of_not_mem key value rest _ hnodup.1]
          simp
      | inr h => exact ih _ hnodup.2 h

theorem mem_foldl_insert_set (key : Item -> Key) (items : List Item) (m : ExtTreeSet Key cmp)
    {k : Key} : k ∈ items.foldl (fun m x => m.insert (key x)) m ↔ k ∈ items.map key ∨ k ∈ m := by
  induction items generalizing m with
  | nil => simp
  | cons x rest ih =>
      rw [List.foldl_cons, ih, mem_insert_set_iff, List.map_cons, List.mem_cons,
        eq_comm (a := k)]
      constructor
      · rintro (h | h | h)
        · exact Or.inl (Or.inr h)
        · exact Or.inl (Or.inl h)
        · exact Or.inr h
      · rintro ((h | h) | h)
        · exact Or.inr (Or.inl h)
        · exact Or.inl h
        · exact Or.inr (Or.inr h)

/-- Distinct keys of a map are no more than its entries. -/
theorem length_le_size (m : ExtTreeMap Key Value cmp) {keys : List Key}
    (hnodup : keys.Nodup) (hmem : forall k, k ∈ keys -> k ∈ m) :
    keys.length ≤ m.size := by
  classical
  have hsub : keys ⊆ m.keys := fun k hk => ExtTreeMap.mem_keys.mpr (hmem k hk)
  calc keys.length ≤ m.keys.length := (List.subperm_of_subset hnodup hsub).length_le
    _ = m.size := ExtTreeMap.length_keys

/-!
# Sums over the values of a map
-/

theorem nodup_toList (m : ExtTreeMap Key Value cmp) : m.toList.Nodup :=
  List.Pairwise.imp
    (fun hne heq => hne (by rw [heq]; exact ReflCmp.compare_self))
    (ExtTreeMap.distinct_keys_toList (t := m))

theorem toList_perm_erase {m : ExtTreeMap Key Value cmp} {k : Key} {v : Value}
    (hk : m[k]? = some v) : m.toList.Perm ((k, v) :: (m.erase k).toList) := by
  rw [List.perm_ext_iff_of_nodup (nodup_toList m)]
  · rintro ⟨k', v'⟩
    rw [List.mem_cons, ExtTreeMap.mem_toList_iff_getElem?_eq_some,
      ExtTreeMap.mem_toList_iff_getElem?_eq_some, ExtTreeMap.getElem?_erase]
    by_cases hkk : k = k'
    · subst hkk
      simp [hk, eq_comm]
    · have hkk' : k' ≠ k := fun h => hkk h.symm
      simp [hkk, hkk']
  · rw [List.nodup_cons]
    refine ⟨?_, nodup_toList _⟩
    rw [ExtTreeMap.mem_toList_iff_getElem?_eq_some]
    simp

def mapSum (f : Value -> Nat) (m : ExtTreeMap Key Value cmp) : Nat :=
  (m.toList.map fun entry => f entry.2).sum

theorem mapSum_erase (f : Value -> Nat) {m : ExtTreeMap Key Value cmp} {k : Key} {v : Value}
    (hk : m[k]? = some v) : mapSum f m = f v + mapSum f (m.erase k) := by
  unfold mapSum
  rw [((toList_perm_erase hk).map fun entry => f entry.2).sum_eq]
  rfl

theorem mapSum_insert (f : Value -> Nat) (m : ExtTreeMap Key Value cmp) (k : Key) (v : Value) :
    mapSum f (m.insert k v) = f v + mapSum f (m.erase k) := by
  have herase : (m.insert k v).erase k = m.erase k := by
    refine ExtTreeMap.ext_getElem? ?_
    intro k'
    rw [ExtTreeMap.getElem?_erase, ExtTreeMap.getElem?_erase, ExtTreeMap.getElem?_insert]
    split <;> rfl
  have hself : (m.insert k v)[k]? = some v := ExtTreeMap.getElem?_insert_self
  rw [mapSum_erase f hself, herase]

/-- The value of a key counts for nothing when the key is absent. -/
theorem mapSum_eq_getD (f : Value -> Nat) (m : ExtTreeMap Key Value cmp) (k : Key)
    {v : Value} (hv : f v = 0) :
    mapSum f m = f ((m[k]?).getD v) + mapSum f (m.erase k) := by
  cases hk : m[k]? with
  | some w => exact mapSum_erase f hk
  | none =>
      have herase : m.erase k = m := by
        refine ExtTreeMap.ext_getElem? ?_
        intro k'
        rw [ExtTreeMap.getElem?_erase]
        split
        · rename_i hkk
          rw [LawfulEqCmp.eq_of_compare hkk] at hk
          exact hk.symm
        · rfl
      simp [herase, hv]

/-!
# Maps up to a default value
-/

/-- Two maps that give every key the same value, a missing key having `d`. -/
def EqualUpTo (d : Value) (m m' : ExtTreeMap Key Value cmp) : Prop :=
  forall k : Key, (m[k]?).getD d = (m'[k]?).getD d

namespace EqualUpTo

variable {d : Value} {m m' m'' : ExtTreeMap Key Value cmp}

omit [LawfulEqCmp cmp] in
theorem refl (d : Value) (m : ExtTreeMap Key Value cmp) : EqualUpTo d m m :=
  fun _ => rfl

omit [LawfulEqCmp cmp] in
theorem symm (h : EqualUpTo d m m') : EqualUpTo d m' m :=
  fun k => (h k).symm

omit [LawfulEqCmp cmp] in
theorem trans (h : EqualUpTo d m m') (h' : EqualUpTo d m' m'') : EqualUpTo d m m'' :=
  fun k => (h k).trans (h' k)

theorem insert [DecidableEq Key] (h : EqualUpTo d m m') (k : Key) (v : Value) :
    EqualUpTo d (m.insert k v) (m'.insert k v) := by
  intro k'
  rw [getElem?_insert_ite, getElem?_insert_ite]
  split
  · rfl
  · exact h k'

omit [LawfulEqCmp cmp] in
/-- The maps hold the same values other than the default. -/
theorem iff_getElem? : EqualUpTo d m m' ↔
    forall (k : Key) (v : Value), v ≠ d -> (m[k]? = some v ↔ m'[k]? = some v) := by
  constructor
  · intro h k v hv
    have hk := h k
    constructor
    · intro hm
      rw [hm] at hk
      cases hm' : m'[k]? with
      | none =>
          rw [hm'] at hk
          exact absurd hk hv
      | some v' =>
          rw [hm'] at hk
          exact congrArg some hk.symm
    · intro hm'
      rw [hm'] at hk
      cases hm : m[k]? with
      | none =>
          rw [hm] at hk
          exact absurd hk.symm hv
      | some v' =>
          rw [hm] at hk
          exact congrArg some hk
  · intro h k
    cases hm : m[k]? with
    | none =>
        cases hm' : m'[k]? with
        | none => rfl
        | some v' =>
            by_contra hne
            have hslot := (h k v' fun heq => hne heq.symm).mpr hm'
            rw [hm] at hslot
            cases hslot
    | some v =>
        by_cases hv : v = d
        · cases hm' : m'[k]? with
          | none => exact hv
          | some v' =>
              by_contra hne
              have hslot := (h k v' fun heq => hne (hv.trans heq.symm)).mpr hm'
              rw [hm] at hslot
              exact hne (Option.some.inj hslot)
        · rw [(h k v hv).mp hm]

variable [DecidableEq Value]

/-- Dropping the entries that hold the default changes nothing. -/
theorem filter (d : Value) (m : ExtTreeMap Key Value cmp) :
    EqualUpTo d (m.filter fun _ v => v != d) m := by
  intro k
  rw [ExtTreeMap.getElem?_filter']
  cases m[k]? with
  | none => rfl
  | some v =>
      by_cases hv : v = d
      · simp [hv, Option.filter]
      · simp [hv, Option.filter]

/-- Without the entries that hold the default the two maps are one. -/
theorem filter_eq (h : EqualUpTo d m m') :
    (m.filter fun _ v => v != d) = m'.filter fun _ v => v != d := by
  refine ExtTreeMap.ext_getElem? ?_
  intro k
  have hk := h k
  rw [ExtTreeMap.getElem?_filter', ExtTreeMap.getElem?_filter']
  cases hm : m[k]? with
  | none =>
      rw [hm] at hk
      cases hm' : m'[k]? with
      | none => rfl
      | some v' =>
          rw [hm'] at hk
          have hv' : v' = d := hk.symm
          simp [hv', Option.filter]
  | some v =>
      rw [hm] at hk
      cases hm' : m'[k]? with
      | none =>
          rw [hm'] at hk
          have hv : v = d := hk
          simp [hv, Option.filter]
      | some v' =>
          rw [hm'] at hk
          have hv : v = v' := hk
          rw [hv]

/-- Entries that hold the default add nothing to a sum in which it counts for nothing. -/
theorem mapSum_filter {f : Value -> Nat} (hd : f d = 0) (m : ExtTreeMap Key Value cmp) :
    mapSum f (m.filter fun _ v => v != d) = mapSum f m := by
  have hperm : (m.filter fun _ v => v != d).toList.Perm
      (m.toList.filter fun entry => entry.2 != d) := by
    rw [List.perm_ext_iff_of_nodup (nodup_toList _) ((nodup_toList m).filter _)]
    intro entry
    rw [List.mem_filter, ExtTreeMap.mem_toList_iff_getElem?_eq_some,
      ExtTreeMap.mem_toList_iff_getElem?_eq_some, ExtTreeMap.getElem?_filter',
      Option.filter_eq_some_iff]
  have hsum : forall entries : List (Key × Value),
      ((entries.filter fun entry => entry.2 != d).map fun entry => f entry.2).sum =
        (entries.map fun entry => f entry.2).sum := by
    intro entries
    induction entries with
    | nil => rfl
    | cons entry rest ih =>
        by_cases hentry : entry.2 = d
        · rw [List.filter_cons_of_neg (by simpa using hentry), ih, List.map_cons, List.sum_cons,
            hentry, hd, Nat.zero_add]
        · rw [List.filter_cons_of_pos (by simpa using hentry), List.map_cons, List.map_cons,
            List.sum_cons, List.sum_cons, ih]
  unfold mapSum
  rw [(hperm.map fun entry => f entry.2).sum_eq, hsum]

theorem mapSum_eq (h : EqualUpTo d m m') {f : Value -> Nat} (hd : f d = 0) :
    mapSum f m = mapSum f m' := by
  rw [← mapSum_filter hd m, h.filter_eq, mapSum_filter hd m']

end EqualUpTo

end Foundation
end VisionCore
