import Mathlib.Tactic

/-!
# Averages in natural numbers

Weighted means rounded down.  A mean lies between any bounds of its values.
-/

namespace VisionCore
namespace Foundation

/-- The sum of the values, each times its weight. -/
def weightedSum (xs : List (Nat × Nat)) : Nat :=
  (xs.map fun x => x.1 * x.2).sum

def totalWeight (xs : List (Nat × Nat)) : Nat :=
  (xs.map Prod.snd).sum

def weightedMean (xs : List (Nat × Nat)) : Nat :=
  weightedSum xs / totalWeight xs

def mean (xs : List Nat) : Nat :=
  xs.sum / xs.length

variable {xs : List (Nat × Nat)} {x : Nat × Nat} {lo hi : Nat}

@[simp] theorem weightedSum_nil : weightedSum [] = 0 := rfl

@[simp] theorem totalWeight_nil : totalWeight [] = 0 := rfl

@[simp] theorem weightedSum_cons : weightedSum (x :: xs) = x.1 * x.2 + weightedSum xs := by
  simp [weightedSum]

@[simp] theorem totalWeight_cons : totalWeight (x :: xs) = x.2 + totalWeight xs := by
  simp [totalWeight]

theorem weightedSum_le (h : forall x, x ∈ xs -> x.1 ≤ hi) :
    weightedSum xs ≤ hi * totalWeight xs := by
  induction xs with
  | nil => simp
  | cons x rest ih =>
      have hhead := Nat.mul_le_mul_right x.2 (h x List.mem_cons_self)
      have htail := ih fun y hy => h y (List.mem_cons_of_mem _ hy)
      rw [weightedSum_cons, totalWeight_cons, Nat.mul_add]
      exact Nat.add_le_add hhead htail

theorem le_weightedSum (h : forall x, x ∈ xs -> lo ≤ x.1) :
    lo * totalWeight xs ≤ weightedSum xs := by
  induction xs with
  | nil => simp
  | cons x rest ih =>
      have hhead := Nat.mul_le_mul_right x.2 (h x List.mem_cons_self)
      have htail := ih fun y hy => h y (List.mem_cons_of_mem _ hy)
      rw [weightedSum_cons, totalWeight_cons, Nat.mul_add]
      exact Nat.add_le_add hhead htail

theorem weightedMean_le (h : forall x, x ∈ xs -> x.1 ≤ hi) : weightedMean xs ≤ hi :=
  Nat.div_le_of_le_mul (by rw [Nat.mul_comm]; exact weightedSum_le h)

theorem le_weightedMean (hpos : 0 < totalWeight xs) (h : forall x, x ∈ xs -> lo ≤ x.1) :
    lo ≤ weightedMean xs :=
  (Nat.le_div_iff_mul_le hpos).mpr (le_weightedSum h)

theorem mean_le {xs : List Nat} (h : forall x, x ∈ xs -> x ≤ hi) : mean xs ≤ hi := by
  apply Nat.div_le_of_le_mul
  have hsum := List.sum_le_card_nsmul xs hi h
  rwa [smul_eq_mul] at hsum

end Foundation
end VisionCore
