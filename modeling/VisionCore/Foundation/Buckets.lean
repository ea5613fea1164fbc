import VisionCore.Foundation.OrderedMap

/-!
# Buckets with a reverse index

Items lie in buckets, each under the key that is its home, and a second map takes
the name of an item to the key of its bucket.  An item that has left its bucket
and is still named in the index is loose.
-/

namespace VisionCore
namespace Foundation

open Std

/-!
# Folds that change the keys
-/

section Folds

variable {Key Value Item : Type} {cmp : Key -> Key -> Ordering}
  [TransCmp cmp] [LawfulEqCmp cmp]

theorem mem_foldl_insert (key : Item -> Key) (value : Item -> Value) (items : List Item)
    (m : ExtTreeMap Key Value cmp) {k : Key} :
    k ∈ items.foldl (fun m x => m.insert (key x) (value x)) m ↔ k ∈ items.map key ∨ k ∈ m := by
  induction items generalizing m with
  | nil => simp
  | cons x rest ih =>
      rw [List.foldl_cons, ih, mem_insert_iff, List.map_cons, List.mem_cons, eq_comm (a := k),
        or_assoc, or_left_comm]

theorem mem_foldl_erase (key : Item -> Key) (items : List Item) (m : ExtTreeMap Key Value cmp)
    {k : Key} :
    k ∈ items.foldl (fun m x => m.erase (key x)) m ↔ k ∉ items.map key ∧ k ∈ m := by
  by_cases hk : k ∈ items.map key
  · have hnone := getElem?_foldl_erase_of_mem key items m hk
    rw [ExtTreeMap.mem_iff_isSome_getElem?, hnone]
    simp [hk]
  · have hsame := getElem?_foldl_erase_of_not_mem key items m hk
    rw [ExtTreeMap.mem_iff_isSome_getElem?, ExtTreeMap.mem_iff_isSome_getElem?, hsame]
    simp [hk]

theorem getElem?_foldl_erase (key : Item -> Key) (items : List Item)
    (m : ExtTreeMap Key Value cmp) {k : Key} {v : Value}
    (h : (items.foldl (fun m x => m.erase (key x)) m)[k]? = some v) : m[k]? = some v := by
  by_cases hk : k ∈ items.map key
  · rw [getElem?_foldl_erase_of_mem key items m hk] at h
    cases h
  · rwa [getElem?_foldl_erase_of_not_mem key items m hk] at h

theorem getElem?_foldl_insert (key : Item -> Key) (value : Item -> Value) (items : List Item)
    (m : ExtTreeMap Key Value cmp) {k : Key} {v : Value}
    (h : (items.foldl (fun m x => m.insert (key x) (value x)) m)[k]? = some v) :
    (exists x, x ∈ items ∧ key x = k ∧ value x = v) ∨ m[k]? = some v := by
  induction items generalizing m with
  | nil => exact Or.inr h
  | cons x rest ih =>
      rw [List.foldl_cons] at h
      rcases ih _ h with ⟨y, hy, hkey, hvalue⟩ | hrest
      · exact Or.inl ⟨y, List.mem_cons_of_mem _ hy, hkey, hvalue⟩
      · rw [ExtTreeMap.getElem?_insert] at hrest
        split at hrest
        · rename_i heq
          exact Or.inl ⟨x, List.mem_cons_self, LawfulEqCmp.eq_of_compare heq,
            Option.some.inj hrest⟩
        · exact Or.inr hrest

end Folds

/-!
# The contents of the buckets
-/

section Contents

variable {Key Item : Type} {cmp : Key -> Key -> Ordering} [TransCmp cmp] [LawfulEqCmp cmp]
  {buckets : ExtTreeMap Key (List Item) cmp} {k : Key} {bucket : List Item} {x : Item}

def contents (buckets : ExtTreeMap Key (List Item) cmp) : List Item :=
  buckets.toList.flatMap Prod.snd

omit [LawfulEqCmp cmp] in
@[simp] theorem contents_empty : contents (∅ : ExtTreeMap Key (List Item) cmp) = [] := by
  have hnil : (∅ : ExtTreeMap Key (List Item) cmp).toList = [] :=
    ExtTreeMap.toList_eq_nil_iff.mpr rfl
  simp [contents, hnil]

theorem mem_contents :
    x ∈ contents buckets ↔
      exists (k : Key) (bucket : List Item), buckets[k]? = some bucket ∧ x ∈ bucket := by
  unfold contents
  rw [List.mem_flatMap]
  constructor
  · rintro ⟨⟨k, bucket⟩, hslot, hx⟩
    exact ⟨k, bucket, ExtTreeMap.mem_toList_iff_getElem?_eq_some.mp hslot, hx⟩
  · rintro ⟨k, bucket, hslot, hx⟩
    exact ⟨(k, bucket), ExtTreeMap.mem_toList_iff_getElem?_eq_some.mpr hslot, hx⟩

theorem contents_perm_erase (hslot : buckets[k]? = some bucket) :
    (contents buckets).Perm (bucket ++ contents (buckets.erase k)) :=
  (toList_perm_erase hslot).flatMap_right Prod.snd

theorem erase_insert (m : ExtTreeMap Key (List Item) cmp) (k : Key) (bucket : List Item) :
    (m.insert k bucket).erase k = m.erase k := by
  refine ExtTreeMap.ext_getElem? ?_
  intro k'
  rw [ExtTreeMap.getElem?_erase, ExtTreeMap.getElem?_erase, ExtTreeMap.getElem?_insert]
  split <;> rfl

theorem insert_erase (m : ExtTreeMap Key (List Item) cmp) (k : Key) (bucket : List Item) :
    (m.erase k).insert k bucket = m.insert k bucket := by
  refine ExtTreeMap.ext_getElem? ?_
  intro k'
  rw [ExtTreeMap.getElem?_insert, ExtTreeMap.getElem?_erase, ExtTreeMap.getElem?_insert]
  split <;> rfl

theorem contents_perm_insert (buckets : ExtTreeMap Key (List Item) cmp) (k : Key)
    (bucket : List Item) :
    (contents (buckets.insert k bucket)).Perm (bucket ++ contents (buckets.erase k)) := by
  have hself : (buckets.insert k bucket)[k]? = some bucket := ExtTreeMap.getElem?_insert_self
  have hperm := contents_perm_erase hself
  rwa [erase_insert] at hperm

theorem erase_of_none (hslot : buckets[k]? = none) : buckets.erase k = buckets := by
  refine ExtTreeMap.ext_getElem? ?_
  intro k'
  rw [ExtTreeMap.getElem?_erase]
  split
  · rename_i heq
    rw [LawfulEqCmp.eq_of_compare heq] at hslot
    exact hslot.symm
  · rfl

end Contents

/-!
# The reverse index
-/

section Index

variable {Key Name Item : Type} {cmp : Key -> Key -> Ordering} {ncmp : Name -> Name -> Ordering}
  [TransCmp cmp] [TransCmp ncmp]

/-- The index names the items of the buckets and the loose ones, each once and
with its home, and no bucket is empty. -/
structure Indexed (home : Item -> Key) (name : Item -> Name)
    (buckets : ExtTreeMap Key (List Item) cmp) (index : ExtTreeMap Name Key ncmp)
    (loose : List Item) : Prop where
  placed : forall (k : Key) bucket x, buckets[k]? = some bucket -> x ∈ bucket -> home x = k
  filled : forall (k : Key) bucket, buckets[k]? = some bucket -> bucket ≠ []
  distinct : ((loose ++ contents buckets).map name).Nodup
  entries : forall (n : Name) k, index[n]? = some k ↔
    exists x, x ∈ loose ++ contents buckets ∧ name x = n ∧ home x = k

variable {home : Item -> Key} {name : Item -> Name} {buckets : ExtTreeMap Key (List Item) cmp}
  {index : ExtTreeMap Name Key ncmp} {loose rest bucket : List Item} {k : Key} {x : Item}

namespace Indexed

theorem empty : Indexed home name (∅ : ExtTreeMap Key (List Item) cmp)
    (∅ : ExtTreeMap Name Key ncmp) [] where
  placed := fun k bucket x h => by simp at h
  filled := fun k bucket h => by simp at h
  distinct := by simp
  entries := by simp

theorem mem_iff (h : Indexed home name buckets index loose) {n : Name} :
    n ∈ index ↔ exists x, x ∈ loose ++ contents buckets ∧ name x = n := by
  rw [ExtTreeMap.mem_iff_isSome_getElem?, Option.isSome_iff_exists]
  constructor
  · rintro ⟨k, hk⟩
    rcases (h.entries n k).mp hk with ⟨x, hx, hname, _⟩
    exact ⟨x, hx, hname⟩
  · rintro ⟨x, hx, hname⟩
    exact ⟨home x, (h.entries n (home x)).mpr ⟨x, hx, hname, rfl⟩⟩

/-- What is indexed depends on the items, not on their order. -/
theorem perm {buckets' : ExtTreeMap Key (List Item) cmp} {loose' : List Item}
    (h : Indexed home name buckets index loose)
    (hplaced : forall (k : Key) bucket x, buckets'[k]? = some bucket -> x ∈ bucket -> home x = k)
    (hfilled : forall (k : Key) bucket, buckets'[k]? = some bucket -> bucket ≠ [])
    (hperm : (loose' ++ contents buckets').Perm (loose ++ contents buckets)) :
    Indexed home name buckets' index loose' where
  placed := hplaced
  filled := hfilled
  distinct := (hperm.map name).nodup_iff.mpr h.distinct
  entries := by
    intro n k
    rw [h.entries n k]
    constructor
    · rintro ⟨x, hx, hrest⟩
      exact ⟨x, hperm.mem_iff.mpr hx, hrest⟩
    · rintro ⟨x, hx, hrest⟩
      exact ⟨x, hperm.mem_iff.mp hx, hrest⟩

theorem erase_placed (h : Indexed home name buckets index loose) (k : Key) :
    forall (k' : Key) bucket x, (buckets.erase k)[k']? = some bucket -> x ∈ bucket -> home x = k' := by
  intro k' bucket x hslot hx
  rw [ExtTreeMap.getElem?_erase] at hslot
  split at hslot
  · cases hslot
  · exact h.placed k' bucket x hslot hx

theorem erase_filled (h : Indexed home name buckets index loose) (k : Key) :
    forall (k' : Key) bucket, (buckets.erase k)[k']? = some bucket -> bucket ≠ [] := by
  intro k' bucket hslot
  rw [ExtTreeMap.getElem?_erase] at hslot
  split at hslot
  · cases hslot
  · exact h.filled k' bucket hslot

variable [LawfulEqCmp ncmp]

/-- A loose item is forgotten by the index. -/
theorem forget (h : Indexed home name buckets index (x :: loose)) :
    Indexed home name buckets (index.erase (name x)) loose where
  placed := h.placed
  filled := h.filled
  distinct := by
    have hdistinct := h.distinct
    rw [List.cons_append, List.map_cons, List.nodup_cons] at hdistinct
    exact hdistinct.2
  entries := by
    intro n k
    have hdistinct := h.distinct
    rw [List.cons_append, List.map_cons, List.nodup_cons] at hdistinct
    rw [ExtTreeMap.getElem?_erase]
    split
    · rename_i heq
      have hname := LawfulEqCmp.eq_of_compare heq
      constructor
      · intro hnone
        cases hnone
      · rintro ⟨y, hy, hyname, _⟩
        exact absurd (List.mem_map.mpr ⟨y, hy, hyname.trans hname.symm⟩) hdistinct.1
    · rename_i hne
      rw [h.entries n k]
      constructor
      · rintro ⟨y, hy, hyname, hyhome⟩
        cases List.mem_cons.mp hy with
        | inl heq =>
            rw [heq] at hyname
            exact absurd (by rw [hyname]; exact ReflCmp.compare_self) hne
        | inr hrest => exact ⟨y, hrest, hyname, hyhome⟩
      · rintro ⟨y, hy, hrest⟩
        exact ⟨y, List.mem_cons_of_mem _ hy, hrest⟩

/-- An item whose name is free is indexed and is loose. -/
theorem adopt (h : Indexed home name buckets index loose) (hfree : name x ∉ index) :
    Indexed home name buckets (index.insert (name x) (home x)) (x :: loose) where
  placed := h.placed
  filled := h.filled
  distinct := by
    rw [List.cons_append, List.map_cons, List.nodup_cons]
    refine ⟨?_, h.distinct⟩
    intro hmem
    rcases List.mem_map.mp hmem with ⟨y, hy, hname⟩
    exact hfree (h.mem_iff.mpr ⟨y, hy, hname⟩)
  entries := by
    intro n k
    rw [ExtTreeMap.getElem?_insert]
    split
    · rename_i heq
      have hname := LawfulEqCmp.eq_of_compare heq
      constructor
      · intro hk
        exact ⟨x, List.mem_cons_self, hname, Option.some.inj hk⟩
      · rintro ⟨y, hy, hyname, hyhome⟩
        cases List.mem_cons.mp hy with
        | inl hself => rw [← hyhome, hself]
        | inr hrest =>
            exact absurd (h.mem_iff.mpr ⟨y, hrest, hyname.trans hname.symm⟩) hfree
    · rename_i hne
      rw [h.entries n k]
      constructor
      · rintro ⟨y, hy, hrest⟩
        exact ⟨y, List.mem_cons_of_mem _ hy, hrest⟩
      · rintro ⟨y, hy, hyname, hyhome⟩
        cases List.mem_cons.mp hy with
        | inl heq =>
            rw [heq] at hyname
            exact absurd (by rw [hyname]; exact ReflCmp.compare_self) hne
        | inr hrest => exact ⟨y, hrest, hyname, hyhome⟩

variable [LawfulEqCmp cmp]

omit [LawfulEqCmp ncmp] in
/-- A bucket is taken out whole. -/
theorem take (h : Indexed home name buckets index loose) (hslot : buckets[k]? = some bucket) :
    Indexed home name (buckets.erase k) index (bucket ++ loose) := by
  refine h.perm (h.erase_placed k) (h.erase_filled k) ?_
  calc (bucket ++ loose ++ contents (buckets.erase k)).Perm
        (loose ++ bucket ++ contents (buckets.erase k)) :=
      List.Perm.append_right _ List.perm_append_comm
    _ = loose ++ (bucket ++ contents (buckets.erase k)) := List.append_assoc _ _ _
    List.Perm _ (loose ++ contents buckets) :=
      List.Perm.append_left _ (contents_perm_erase hslot).symm

omit [LawfulEqCmp ncmp] in
/-- Loose items of one home are put back as its bucket. -/
theorem restore (h : Indexed home name buckets index (bucket ++ loose))
    (hslot : buckets[k]? = none) (hhome : forall x, x ∈ bucket -> home x = k)
    (hne : bucket ≠ []) : Indexed home name (buckets.insert k bucket) index loose := by
  refine h.perm ?_ ?_ ?_
  · intro k' bucket' x hslot' hx
    rw [ExtTreeMap.getElem?_insert] at hslot'
    split at hslot'
    · rename_i heq
      cases Option.some.inj hslot'
      rw [hhome x hx, LawfulEqCmp.eq_of_compare heq]
    · exact h.placed k' bucket' x hslot' hx
  · intro k' bucket' hslot'
    rw [ExtTreeMap.getElem?_insert] at hslot'
    split at hslot'
    · cases Option.some.inj hslot'
      exact hne
    · exact h.filled k' bucket' hslot'
  · have hinsert := contents_perm_insert buckets k bucket
    rw [erase_of_none hslot] at hinsert
    calc (loose ++ contents (buckets.insert k bucket)).Perm
          (loose ++ (bucket ++ contents buckets)) := List.Perm.append_left _ hinsert
      _ = loose ++ bucket ++ contents buckets := (List.append_assoc _ _ _).symm
      List.Perm _ (bucket ++ loose ++ contents buckets) :=
        List.Perm.append_right _ List.perm_append_comm

/-- A new item joins the bucket of its home. -/
theorem place (h : Indexed home name buckets index loose) (hfree : name x ∉ index) :
    Indexed home name
      (buckets.insert (home x) ((buckets[home x]?).getD [] ++ [x]))
      (index.insert (name x) (home x)) loose := by
  have hadopted := h.adopt hfree
  cases hslot : buckets[home x]? with
  | none =>
      have hhome : forall y, y ∈ [x] -> home y = home x := by
        intro y hy
        rw [List.mem_singleton.mp hy]
      exact hadopted.restore hslot hhome (List.cons_ne_nil x [])
  | some bucket =>
      have htaken := hadopted.take hslot
      have hordered : Indexed home name (buckets.erase (home x))
          (index.insert (name x) (home x)) (bucket ++ [x] ++ loose) := by
        rw [List.append_assoc]
        exact htaken
      have herased : (buckets.erase (home x))[home x]? = none := ExtTreeMap.getElem?_erase_self
      have hrestored := hordered.restore herased ?_ (by simp)
      · rwa [insert_erase] at hrestored
      · intro y hy
        cases List.mem_append.mp hy with
        | inl hold => exact h.placed _ bucket y hslot hold
        | inr hnew => rw [List.mem_singleton.mp hnew]

/-- One item leaves its bucket and the index; an emptied bucket goes with it. -/
theorem evict {pos : Nat} (h : Indexed home name buckets index loose)
    (hslot : buckets[k]? = some bucket) (hpos : bucket[pos]? = some x) :
    Indexed home name
      (if (bucket.eraseIdx pos).isEmpty then buckets.erase k
        else buckets.insert k (bucket.eraseIdx pos))
      (index.erase (name x)) loose := by
  rcases List.getElem?_eq_some_iff.mp hpos with ⟨hlt, hx⟩
  have hperm : (x :: bucket.eraseIdx pos).Perm bucket := by
    rw [← hx]
    exact List.getElem_cons_eraseIdx_perm hlt
  have htaken := h.take hslot
  have hsplit : (x :: (bucket.eraseIdx pos ++ loose) ++ contents (buckets.erase k)).Perm
      (bucket ++ loose ++ contents (buckets.erase k)) :=
    List.Perm.append_right _ (List.Perm.append_right loose hperm)
  have hforgot := (htaken.perm htaken.placed htaken.filled hsplit).forget
  cases hrest : bucket.eraseIdx pos with
  | nil =>
      rw [hrest] at hforgot
      exact hforgot
  | cons y rest =>
      rw [hrest] at hforgot
      have herased : (buckets.erase k)[k]? = none := ExtTreeMap.getElem?_erase_self
      have hrestored := hforgot.restore herased ?_ (List.cons_ne_nil _ _)
      · rwa [insert_erase] at hrestored
      · intro z hz
        rw [← hrest] at hz
        exact h.placed k bucket z hslot (List.mem_of_mem_eraseIdx hz)

end Indexed

end Index

end Foundation
end VisionCore
