import Mathlib.Tactic
import Mathlib.Algebra.Order.Ring.GeomSum

/-!
# Halving schedules

An amount that is halved after every period, rounding down.  It falls, reaches
zero, and its sum over all times is at most twice the amount of the first period.
-/

namespace VisionCore
namespace Foundation

open Finset

/-- The amount at time `h`, halved after every `period`. -/
def halved (amount period h : Nat) : Nat :=
  amount / 2 ^ (h / period)

variable {amount period h h' k : Nat}

theorem halved_antitone (hle : h ≤ h') : halved amount period h' ≤ halved amount period h :=
  Nat.div_le_div_left (Nat.pow_le_pow_right (by decide) (Nat.div_le_div_right hle))
    (Nat.pow_pos (by decide))

theorem halved_add (hpos : 0 < period) :
    halved amount period (h + period) = halved amount period h / 2 := by
  unfold halved
  rw [Nat.add_div_right h hpos, pow_succ, Nat.div_div_eq_div_mul]

theorem halved_eq_zero (hpos : 0 < period) (hamount : amount < 2 ^ k) (hle : k * period ≤ h) :
    halved amount period h = 0 := by
  have hperiods : k ≤ h / period := (Nat.le_div_iff_mul_le hpos).mpr hle
  exact Nat.div_eq_of_lt
    (Nat.lt_of_lt_of_le hamount (Nat.pow_le_pow_right (by decide) hperiods))

/-- One period pays `period` times one amount. -/
theorem sum_halved_period (hpos : 0 < period) (k : Nat) :
    ∑ n ∈ range period, halved amount period (period * k + n) = period * (amount / 2 ^ k) := by
  have hsame : forall n, n ∈ range period ->
      halved amount period (period * k + n) = amount / 2 ^ k := by
    intro n hn
    unfold halved
    rw [Nat.mul_add_div hpos, Nat.div_eq_of_lt (mem_range.mp hn), Nat.add_zero]
  rw [sum_congr rfl hsame, sum_const, card_range, smul_eq_mul]

theorem sum_halved_periods (hpos : 0 < period) (k : Nat) :
    ∑ n ∈ range (period * k), halved amount period n =
      period * ∑ j ∈ range k, amount / 2 ^ j := by
  induction k with
  | zero => simp
  | succ k ih =>
      rw [Nat.mul_succ, sum_range_add, ih, sum_halved_period hpos, sum_range_succ, Nat.mul_add]

theorem sum_halved_le (hpos : 0 < period) (k : Nat) :
    ∑ n ∈ range k, halved amount period n ≤ 2 * amount * period := by
  have hmore : range k ⊆ range (period * k) :=
    range_subset_range.mpr (Nat.le_mul_of_pos_left k hpos)
  calc ∑ n ∈ range k, halved amount period n
      ≤ ∑ n ∈ range (period * k), halved amount period n :=
        sum_le_sum_of_subset hmore
    _ = period * ∑ j ∈ range k, amount / 2 ^ j := sum_halved_periods hpos k
    _ ≤ period * (amount * 2 / (2 - 1)) :=
        Nat.mul_le_mul_left period (Nat.geom_sum_le (Nat.le_refl 2) amount k)
    _ = 2 * amount * period := by
        rw [Nat.div_one, Nat.mul_comm amount 2, Nat.mul_comm]

end Foundation
end VisionCore
