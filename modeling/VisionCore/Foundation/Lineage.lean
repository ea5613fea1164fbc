import Mathlib.Tactic

/-!
# Rooted lineages

Nodes carry a name and the name of their parent, and one node is the root.  A
store maps names to nodes.  A path of a store lists a node and its ancestors,
newest first, down to the root.
-/

namespace VisionCore
namespace Foundation

structure Lineage (Name Node : Type) where
  name : Node -> Name
  parent : Node -> Name
  root : Node

abbrev Store (Name Node : Type) := Name -> Option Node

variable {Name Node : Type}

inductive Path (F : Lineage Name Node) (K : Store Name Node) : List Node -> Prop where
  | root : K (F.name F.root) = some F.root -> Path F K [F.root]
  | step {b p : Node} {rest : List Node} :
      Path F K (p :: rest) -> K (F.name b) = some b -> F.parent b = F.name p ->
      F.name b ≠ F.name F.root -> Path F K (b :: p :: rest)

/-- Every stored node is stored under its name and has a path. -/
structure Rooted (F : Lineage Name Node) (K : Store Name Node) : Prop where
  named : forall {h n}, K h = some n -> F.name n = h
  path : forall {h n}, K h = some n -> exists rest, Path F K (n :: rest)

/-- The store with one more node. -/
def Store.put [DecidableEq Name] (F : Lineage Name Node) (K : Store Name Node) (b : Node) :
    Store Name Node :=
  fun h => if h = F.name b then some b else K h

variable {F : Lineage Name Node} {K K' : Store Name Node}

/-!
# Paths
-/

namespace Path

theorem ne_nil {l : List Node} (hl : Path F K l) : l ≠ [] := by
  cases hl <;> simp

theorem lookup {l : List Node} (hl : Path F K l) {x : Node} (hx : x ∈ l) :
    K (F.name x) = some x := by
  induction hl with
  | root hroot =>
      have hx' : x = F.root := by simpa using hx
      rw [hx', hroot]
  | step _ hb _ _ ih =>
      cases List.mem_cons.mp hx with
      | inl h => rw [h, hb]
      | inr h => exact ih h

theorem tail {b p : Node} {rest : List Node} (hl : Path F K (b :: p :: rest)) :
    Path F K (p :: rest) := by
  cases hl with
  | step htail _ _ _ => exact htail

theorem suffix {s : List Node} {a : Node} {t : List Node}
    (hl : Path F K (s ++ a :: t)) : Path F K (a :: t) := by
  induction s with
  | nil => exact hl
  | cons x s ih =>
      cases s with
      | nil => exact hl.tail
      | cons y s => exact ih hl.tail

theorem mono (hsub : forall {h n}, K h = some n -> K' h = some n) {l : List Node}
    (hl : Path F K l) : Path F K' l := by
  induction hl with
  | root hroot => exact Path.root (hsub hroot)
  | step _ hb hparent hname ih => exact Path.step ih (hsub hb) hparent hname

/-- A path of one store is a path of any store that holds its nodes. -/
theorem transfer {l : List Node} (hl : Path F K l)
    (hmem : forall x, x ∈ l -> K' (F.name x) = some x) : Path F K' l := by
  induction hl with
  | root _ => exact Path.root (hmem _ List.mem_cons_self)
  | step _ _ hparent hname ih =>
      exact Path.step (ih fun x hx => hmem x (List.mem_cons_of_mem _ hx))
        (hmem _ List.mem_cons_self) hparent hname

theorem root_mem {l : List Node} (hl : Path F K l) : F.root ∈ l := by
  induction hl with
  | root _ => simp
  | step _ _ _ _ ih => exact List.mem_cons_of_mem _ ih

theorem getLast_eq {l : List Node} (hl : Path F K l) : l.getLast? = some F.root := by
  induction hl with
  | root _ => rfl
  | step _ _ _ _ ih => simpa using ih

/-- A node's name determines its path. -/
theorem unique {b b' : Node} {rest rest' : List Node}
    (hl : Path F K (b :: rest)) (hl' : Path F K (b' :: rest'))
    (hname : F.name b = F.name b') : b :: rest = b' :: rest' := by
  induction rest generalizing b b' rest' with
  | nil =>
      cases hl with
      | root _ =>
          cases hl' with
          | root _ => rfl
          | step _ _ _ hne => exact absurd hname.symm hne
  | cons p rest ih =>
      cases hl with
      | step htail hb hparent hne =>
          cases hl' with
          | root _ => exact absurd hname hne
          | step htail' hb' hparent' _ =>
              have hbb : b = b' := by
                rw [hname, hb'] at hb
                exact (Option.some.inj hb).symm
              subst hbb
              rw [ih htail htail' (hparent.symm.trans hparent')]

theorem mem_tail_name_ne {b : Node} {rest : List Node} (hl : Path F K (b :: rest))
    {x : Node} (hx : x ∈ rest) : F.name x ≠ F.name b := by
  intro hname
  rcases List.append_of_mem hx with ⟨s, t, rfl⟩
  have hx' : Path F K (x :: t) := Path.suffix (s := b :: s) hl
  have heq := congrArg List.length (hl.unique hx' hname.symm)
  simp at heq
  omega

theorem nodup_names {l : List Node} (hl : Path F K l) : (l.map F.name).Nodup := by
  induction hl with
  | root _ => simp
  | step htail hb hparent hne ih =>
      rw [List.map_cons, List.nodup_cons]
      refine ⟨?_, ih⟩
      intro hmem
      rcases List.mem_map.mp hmem with ⟨x, hx, hname⟩
      exact (Path.step htail hb hparent hne).mem_tail_name_ne hx hname

theorem nodup {l : List Node} (hl : Path F K l) : l.Nodup :=
  List.Nodup.of_map F.name hl.nodup_names

/-- Each node of a path but the root has its parent next to it. -/
theorem parent_eq {s : List Node} {b p : Node} {t : List Node}
    (hl : Path F K (s ++ b :: p :: t)) : F.parent b = F.name p := by
  have hb : Path F K (b :: p :: t) := hl.suffix
  cases hb with
  | step _ _ hparent _ => exact hparent

end Path

/-!
# Adding a node
-/

section Put

variable [DecidableEq Name] {b p : Node}

theorem Store.put_self : K.put F b (F.name b) = some b := by
  simp [Store.put]

theorem Store.put_of_ne {h : Name} (hne : h ≠ F.name b) : K.put F b h = K h := by
  simp [Store.put, hne]

theorem Store.put_mono (hfresh : K (F.name b) = none) {h : Name} {n : Node}
    (hn : K h = some n) : K.put F b h = some n := by
  rw [Store.put_of_ne, hn]
  intro hh
  rw [hh, hfresh] at hn
  cases hn

theorem Store.put_eq_some {h : Name} {n : Node} (hn : K.put F b h = some n) :
    (h = F.name b ∧ n = b) ∨ (h ≠ F.name b ∧ K h = some n) := by
  by_cases hh : h = F.name b
  · rw [hh, Store.put_self] at hn
    exact Or.inl ⟨hh, (Option.some.inj hn).symm⟩
  · rw [Store.put_of_ne hh] at hn
    exact Or.inr ⟨hh, hn⟩

theorem Path.put (hfresh : K (F.name b) = none) {l : List Node} (hl : Path F K l) :
    Path F (K.put F b) l :=
  hl.mono (Store.put_mono hfresh)

theorem Path.put_new (hfresh : K (F.name b) = none) {rest : List Node}
    (hl : Path F K (p :: rest)) (hparent : F.parent b = F.name p) :
    Path F (K.put F b) (b :: p :: rest) := by
  refine Path.step (hl.put hfresh) Store.put_self hparent ?_
  intro hname
  have hroot := hl.lookup hl.root_mem
  rw [← hname, hfresh] at hroot
  cases hroot

/-- Old nodes keep their paths. -/
theorem Path.of_put (hK : Rooted F K) (hfresh : K (F.name b) = none) {n : Node}
    {rest : List Node} (hl : Path F (K.put F b) (n :: rest)) (hne : F.name n ≠ F.name b) :
    Path F K (n :: rest) := by
  have hn := hl.lookup List.mem_cons_self
  rw [Store.put_of_ne hne] at hn
  rcases hK.path hn with ⟨rest', hl'⟩
  have heq := hl.unique (hl'.put hfresh) rfl
  rw [heq]
  exact hl'

theorem Rooted.put (hK : Rooted F K) (hfresh : K (F.name b) = none)
    (hp : K (F.parent b) = some p) : Rooted F (K.put F b) where
  named := by
    intro h n hn
    rcases Store.put_eq_some hn with ⟨hh, hb⟩ | ⟨_, hn⟩
    · rw [hb, hh]
    · exact hK.named hn
  path := by
    intro h n hn
    rcases Store.put_eq_some hn with ⟨_, hb⟩ | ⟨_, hn⟩
    · rcases hK.path hp with ⟨rest, hl⟩
      exact ⟨p :: rest, by
        rw [hb]
        exact hl.put_new hfresh (hK.named hp).symm⟩
    · rcases hK.path hn with ⟨rest, hl⟩
      exact ⟨rest, hl.put hfresh⟩

/-- A path of the larger store is an old path or ends in the new node. -/
theorem Path.put_cases (hK : Rooted F K) (hfresh : K (F.name b) = none)
    (hp : K (F.parent b) = some p) {n : Node} {rest : List Node}
    (hl : Path F (K.put F b) (n :: rest)) :
    Path F K (n :: rest) ∨
      exists tail, n = b ∧ rest = p :: tail ∧ Path F K (p :: tail) := by
  by_cases hne : F.name n = F.name b
  · right
    rcases hK.path hp with ⟨tail, hp'⟩
    have hnew := hp'.put_new hfresh (hK.named hp).symm
    have heq := hl.unique hnew hne
    rw [List.cons.injEq] at heq
    exact ⟨tail, heq.left, heq.right, hp'⟩
  · exact Or.inl (hl.of_put hK hfresh hne)

end Put

/-!
# Weights
-/

def pathWeight (weight : Node -> Nat) (l : List Node) : Nat :=
  (l.map weight).sum

@[simp] theorem pathWeight_cons (weight : Node -> Nat) (b : Node) (l : List Node) :
    pathWeight weight (b :: l) = weight b + pathWeight weight l := by
  simp [pathWeight]

@[simp] theorem pathWeight_nil (weight : Node -> Nat) :
    pathWeight weight [] = 0 := rfl

theorem pathWeight_append (weight : Node -> Nat) (s t : List Node) :
    pathWeight weight (s ++ t) = pathWeight weight s + pathWeight weight t := by
  simp [pathWeight]

theorem pathWeight_reverse (weight : Node -> Nat) (l : List Node) :
    pathWeight weight l.reverse = pathWeight weight l := by
  simp [pathWeight, List.sum_reverse]

end Foundation
end VisionCore
