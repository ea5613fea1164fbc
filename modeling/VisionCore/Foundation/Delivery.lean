import VisionCore.Foundation.Lineage

/-!
# Delivered nodes

A node that has been delivered belongs to the lineage when its parent does and a
check that reads the node and its parent's path accepts it.  A store that holds
nothing else and lacks no such node is determined by the delivered set: in which
order the nodes came does not matter.
-/

namespace VisionCore
namespace Foundation

variable {Name Node : Type}

/-- The paths that consist of accepted nodes of `D`. -/
inductive Admissible (F : Lineage Name Node) (accepts : Node -> List Node -> Prop)
    (D : Node -> Prop) : List Node -> Prop where
  | root : Admissible F accepts D [F.root]
  | step {b p : Node} {rest : List Node} :
      Admissible F accepts D (p :: rest) -> D b -> F.parent b = F.name p ->
      F.name b ≠ F.name F.root -> accepts b (p :: rest) ->
      Admissible F accepts D (b :: p :: rest)

/-- A rooted store of accepted nodes of `D` that lacks none of them. -/
structure Saturated (F : Lineage Name Node) (accepts : Node -> List Node -> Prop)
    (D : Node -> Prop) (K : Store Name Node) : Prop where
  rooted : Rooted F K
  root : K (F.name F.root) = some F.root
  sound : forall {l}, Path F K l -> Admissible F accepts D l
  complete : forall {b p rest}, D b -> Path F K (p :: rest) -> F.parent b = F.name p ->
    F.name b ≠ F.name F.root -> accepts b (p :: rest) -> K (F.name b) = some b

variable {F : Lineage Name Node} {accepts : Node -> List Node -> Prop} {D : Node -> Prop}
  {K K' : Store Name Node}

namespace Saturated

theorem path (hK : Saturated F accepts D K) {l : List Node} (hl : Admissible F accepts D l) :
    Path F K l := by
  induction hl with
  | root => exact Path.root hK.root
  | step _ hb hparent hname haccepts ih =>
      exact Path.step ih (hK.complete hb ih hparent hname haccepts) hparent hname

theorem path_iff (hK : Saturated F accepts D K) {l : List Node} :
    Path F K l ↔ Admissible F accepts D l :=
  ⟨hK.sound, hK.path⟩

theorem le (hK : Saturated F accepts D K) (hK' : Saturated F accepts D K') {h : Name} {n : Node}
    (hn : K h = some n) : K' h = some n := by
  rcases hK.rooted.path hn with ⟨rest, hl⟩
  have hl' := hK'.path (hK.sound hl)
  rw [← hK.rooted.named hn]
  exact hl'.lookup List.mem_cons_self

/-- The delivered set determines the store. -/
theorem unique (hK : Saturated F accepts D K) (hK' : Saturated F accepts D K') : K = K' := by
  funext h
  cases hn : K h with
  | some n => exact (hK.le hK' hn).symm
  | none =>
      cases hn' : K' h with
      | none => rfl
      | some n =>
          rw [hK'.le hK hn'] at hn
          cases hn

end Saturated

end Foundation
end VisionCore
