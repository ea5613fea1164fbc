import VisionCore.Foundation.OrderedMap

/-!
# Climbing a forest

A map gives each of its keys a value, and the value names the key above.  When a rank
falls along these links and every link leads to a summit or to a key of the map, each
climb ends at a summit, and it takes no more steps than the map has keys.
-/

namespace VisionCore
namespace Foundation

open Std

variable {Key Value : Type} {cmp : Key -> Key -> Ordering} [TransCmp cmp]

/-- `above` is the key above `key`. -/
def Above (m : ExtTreeMap Key Value cmp) (up : Value -> Key) (above key : Key) : Prop :=
  exists v, m[key]? = some v ∧ up v = above

/-- A climb from a key passes the values in the list and ends at the last key. -/
inductive Climb (m : ExtTreeMap Key Value cmp) (up : Value -> Key) (summit : Key -> Prop) :
    Key -> List Value -> Key -> Prop where
  | arrive {k : Key} : summit k -> Climb m up summit k [] k
  | step {k top : Key} {v : Value} {passed : List Value} : ¬summit k -> m[k]? = some v ->
      Climb m up summit (up v) passed top -> Climb m up summit k (v :: passed) top

/-- Links lead to summits or keys of the map, and the rank falls along them. -/
structure Descending (m : ExtTreeMap Key Value cmp) (up : Value -> Key) (summit : Key -> Prop)
    (rank : Key -> Nat) : Prop where
  leads : forall {k : Key} {v : Value}, m[k]? = some v -> summit (up v) ∨ up v ∈ m
  falls : forall {k : Key} {v : Value}, m[k]? = some v -> rank (up v) < rank k

variable {m : ExtTreeMap Key Value cmp} {up : Value -> Key} {summit : Key -> Prop}
  {rank : Key -> Nat} {k top : Key} {passed : List Value}

theorem Climb.summit_top (h : Climb m up summit k passed top) : summit top := by
  induction h with
  | arrive hsummit => exact hsummit
  | step _ _ _ ih => exact ih

namespace Descending

/-- No key lies above itself, whatever way round. -/
theorem wellFounded (h : Descending m up summit rank) : WellFounded (Above m up) := by
  refine Subrelation.wf ?_ (measure rank).wf
  rintro above key ⟨v, hv, rfl⟩
  exact h.falls hv

theorem exists_climb (h : Descending m up summit rank) (hk : summit k ∨ k ∈ m) :
    exists passed top, Climb m up summit k passed top := by
  induction k using (measure rank).wf.induction with
  | h k ih =>
      by_cases hsummit : summit k
      · exact ⟨[], k, Climb.arrive hsummit⟩
      · have hmem := hk.resolve_left hsummit
        rcases Option.isSome_iff_exists.mp (ExtTreeMap.mem_iff_isSome_getElem?.mp hmem) with
          ⟨v, hv⟩
        rcases ih (up v) (h.falls hv) (h.leads hv) with ⟨passed, top, hrest⟩
        exact ⟨v :: passed, top, Climb.step hsummit hv hrest⟩

/-- The keys that a climb passes are distinct, since their ranks fall. -/
theorem keys_passed (h : Descending m up summit rank) (hclimb : Climb m up summit k passed top) :
    exists keys : List Key, keys.length = passed.length ∧ keys.Nodup ∧
      forall k', k' ∈ keys -> k' ∈ m ∧ rank k' ≤ rank k := by
  induction hclimb with
  | arrive _ =>
      refine ⟨[], rfl, List.nodup_nil, ?_⟩
      intro k' hk'
      cases hk'
  | @step k top v passed _ hv _ ih =>
      rcases ih with ⟨keys, hlength, hnodup, hkeys⟩
      have hfalls := h.falls hv
      refine ⟨k :: keys, ?_, List.nodup_cons.mpr ⟨?_, hnodup⟩, ?_⟩
      · rw [List.length_cons, List.length_cons, hlength]
      · intro hmem
        exact absurd (hkeys k hmem).2 (Nat.not_le.mpr hfalls)
      · intro k' hk'
        cases List.mem_cons.mp hk' with
        | inl heq =>
            rw [heq]
            refine ⟨ExtTreeMap.mem_iff_isSome_getElem?.mpr ?_, Nat.le_refl _⟩
            rw [hv]
            rfl
        | inr hrest =>
            have hlow := hkeys k' hrest
            exact ⟨hlow.1, Nat.le_trans hlow.2 (Nat.le_of_lt hfalls)⟩

theorem length_passed_le [LawfulEqCmp cmp] (h : Descending m up summit rank)
    (hclimb : Climb m up summit k passed top) : passed.length ≤ m.size := by
  rcases h.keys_passed hclimb with ⟨keys, hlength, hnodup, hkeys⟩
  rw [← hlength]
  exact length_le_size m hnodup fun k' hk' => (hkeys k' hk').1

end Descending

end Foundation
end VisionCore
