import VisionCore.Foundation.Lineage

/-!
# Heaviest-path fork choice

A tip path is heaviest when no path of the store outweighs it.  Adding a node
and keeping the heavier of the two candidates keeps the tip heaviest, and moves
it only to a strictly heavier path.
-/

namespace VisionCore
namespace Foundation

variable {Name Node : Type}

structure Heaviest (F : Lineage Name Node) (weight : Node -> Nat) (K : Store Name Node)
    (tip : List Node) : Prop where
  path : Path F K tip
  le : forall {l}, Path F K l -> pathWeight weight l ≤ pathWeight weight tip

/-- The heavier of two paths; the first one stays on a tie. -/
def chooseTip (weight : Node -> Nat) (tip candidate : List Node) : List Node :=
  if pathWeight weight tip < pathWeight weight candidate then candidate else tip

variable {F : Lineage Name Node} {weight : Node -> Nat} {K : Store Name Node}
  {tip candidate : List Node}

theorem chooseTip_of_lt (h : pathWeight weight tip < pathWeight weight candidate) :
    chooseTip weight tip candidate = candidate :=
  if_pos h

theorem chooseTip_of_le (h : pathWeight weight candidate ≤ pathWeight weight tip) :
    chooseTip weight tip candidate = tip :=
  if_neg (Nat.not_lt.mpr h)

theorem le_chooseTip_left :
    pathWeight weight tip ≤ pathWeight weight (chooseTip weight tip candidate) := by
  unfold chooseTip
  split <;> omega

theorem le_chooseTip_right :
    pathWeight weight candidate ≤ pathWeight weight (chooseTip weight tip candidate) := by
  unfold chooseTip
  split <;> omega

theorem chooseTip_strict (hne : chooseTip weight tip candidate ≠ tip) :
    pathWeight weight tip < pathWeight weight (chooseTip weight tip candidate) := by
  by_cases h : pathWeight weight tip < pathWeight weight candidate
  · rw [chooseTip_of_lt h]
    exact h
  · exact absurd (if_neg h) hne

namespace Heaviest

/-- Two heaviest tips of one store weigh the same. -/
theorem weight_eq {tip' : List Node} (htip : Heaviest F weight K tip)
    (htip' : Heaviest F weight K tip') :
    pathWeight weight tip = pathWeight weight tip' :=
  Nat.le_antisymm (htip'.le htip.path) (htip.le htip'.path)

variable [DecidableEq Name] {b p : Node} {rest : List Node}

theorem put (htip : Heaviest F weight K tip) (hK : Rooted F K)
    (hfresh : K (F.name b) = none) (hp : K (F.parent b) = some p)
    (hl : Path F K (p :: rest)) :
    Heaviest F weight (K.put F b) (chooseTip weight tip (b :: p :: rest)) where
  path := by
    unfold chooseTip
    split
    · exact hl.put_new hfresh (hK.named hp).symm
    · exact htip.path.put hfresh
  le := by
    intro l hl'
    cases l with
    | nil => exact absurd rfl hl'.ne_nil
    | cons n s =>
        rcases hl'.put_cases hK hfresh hp with hold | ⟨tail, rfl, rfl, htail⟩
        · exact Nat.le_trans (htip.le hold) le_chooseTip_left
        · have heq := htail.unique hl rfl
          rw [heq]
          exact le_chooseTip_right

end Heaviest

end Foundation
end VisionCore
