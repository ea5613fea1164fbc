import Mathlib.Tactic
import Std.Data.ExtTreeMap

/-!
# Selecting a maximum

The last of the greatest elements of a list, as a scan that keeps the best so far
finds it.
-/

namespace VisionCore
namespace Foundation

open Std

variable {α : Type} {cmp : α -> α -> Ordering} {xs : List α} {x m : α}

/-- Keep the best so far only while it is strictly greater. -/
def better (cmp : α -> α -> Ordering) (best next : α) : α :=
  if cmp best next = .gt then best else next

def maxBy (cmp : α -> α -> Ordering) : List α -> Option α
  | [] => none
  | x :: xs => some (xs.foldl (better cmp) x)

theorem foldl_better_mem (cmp : α -> α -> Ordering) (x : α) (xs : List α) :
    xs.foldl (better cmp) x ∈ x :: xs := by
  induction xs generalizing x with
  | nil => exact List.mem_cons_self
  | cons y ys ih =>
      rw [List.foldl_cons]
      rcases List.mem_cons.mp (ih (better cmp x y)) with hhead | htail
      · rw [hhead]
        unfold better
        split
        · exact List.mem_cons_self
        · exact List.mem_cons_of_mem _ List.mem_cons_self
      · exact List.mem_cons_of_mem _ (List.mem_cons_of_mem _ htail)

theorem maxBy_mem (h : maxBy cmp xs = some m) : m ∈ xs := by
  cases xs with
  | nil => cases h
  | cons x xs =>
      cases h
      exact foldl_better_mem cmp x xs

theorem exists_maxBy (h : x ∈ xs) : exists m, maxBy cmp xs = some m := by
  cases xs with
  | nil => cases h
  | cons y ys => exact ⟨_, rfl⟩

section Order

variable [TransCmp cmp]

theorem le_better (best next : α) :
    (cmp best (better cmp best next)).isLE ∧ (cmp next (better cmp best next)).isLE := by
  unfold better
  split
  · rename_i hgt
    have hswap : cmp next best = (cmp best next).swap := OrientedCmp.eq_swap
    refine ⟨ReflCmp.isLE_rfl, ?_⟩
    rw [hswap, hgt]
    rfl
  · rename_i hle
    exact ⟨Ordering.ne_gt_iff_isLE.mp hle, ReflCmp.isLE_rfl⟩

theorem le_foldl_better (x : α) (xs : List α) :
    forall y, y ∈ x :: xs -> (cmp y (xs.foldl (better cmp) x)).isLE := by
  induction xs generalizing x with
  | nil =>
      intro y hy
      rw [List.mem_singleton.mp hy]
      exact ReflCmp.isLE_rfl
  | cons z zs ih =>
      intro y hy
      rw [List.foldl_cons]
      have hbest := ih (better cmp x z) (better cmp x z) List.mem_cons_self
      rcases List.mem_cons.mp hy with rfl | hy
      · exact TransCmp.isLE_trans (le_better y z).1 hbest
      · rcases List.mem_cons.mp hy with rfl | hy
        · exact TransCmp.isLE_trans (le_better x y).2 hbest
        · exact ih (better cmp x z) y (List.mem_cons_of_mem _ hy)

/-- No element is greater than the selected one. -/
theorem le_maxBy (h : maxBy cmp xs = some m) (hx : x ∈ xs) : (cmp x m).isLE := by
  cases xs with
  | nil => cases h
  | cons y ys =>
      cases h
      exact le_foldl_better y ys x hx

end Order

end Foundation
end VisionCore
