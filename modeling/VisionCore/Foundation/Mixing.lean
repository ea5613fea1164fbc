import Mathlib.Tactic

/-!
# Mixing words

Hash functions mix their words with steps that lose nothing: a xor with a shifted copy, a
rotation, a product with an invertible word.  This module proves these steps injective,
carries injectivity through a fold over the input, and counts how far a sequence of equal
steps runs before it repeats.
-/

namespace VisionCore
namespace Foundation

open Function

/-!
# Steps on one word
-/

section Words

variable {w : Nat}

theorem xorShiftRight_injective {s : Nat} (hs : 0 < s) :
    Injective fun x : BitVec w => x ^^^ x >>> s := by
  intro x y h
  have hbits : forall left i, w ≤ i + left -> x.getLsbD i = y.getLsbD i := by
    -- from the highest bit down: the bit that is xored in is a higher one
    intro left
    induction left with
    | zero =>
        intro i hi
        rw [BitVec.getLsbD_of_ge x i hi, BitVec.getLsbD_of_ge y i hi]
    | succ left ih =>
        intro i hi
        have hbit := congrArg (fun z => BitVec.getLsbD z i) h
        simp only [BitVec.getLsbD_xor, BitVec.getLsbD_ushiftRight] at hbit
        rw [ih (s + i) (by omega)] at hbit
        exact Bool.xor_left_inj.mp hbit
  exact BitVec.eq_of_getLsbD_eq fun i _ => hbits w i (Nat.le_add_left w i)

theorem rotateLeft_injective (r : Nat) : Injective fun x : BitVec w => x.rotateLeft r := by
  intro x y h
  apply BitVec.eq_of_getLsbD_eq
  intro i hi
  have hr : r % w < w := Nat.mod_lt r (by omega)
  -- the bit has moved up by the rotation, or around the end
  by_cases hlow : i + r % w < w
  · have hbit := congrArg (fun z => BitVec.getLsbD z (i + r % w)) h
    simp only [BitVec.getLsbD_rotateLeft] at hbit
    simpa [hlow, hi] using hbit
  · have hbit := congrArg (fun z => BitVec.getLsbD z (i + r % w - w)) h
    have hplace : i + r % w - w < r % w := by omega
    have hback : w - r % w + (i + r % w - w) = i := by omega
    simp only [BitVec.getLsbD_rotateLeft, hplace, hback] at hbit
    simpa using hbit

theorem mul_injective_of_inverse {c d : BitVec w} (h : c * d = 1#w) :
    Injective fun x : BitVec w => x * c := by
  intro x y heq
  have hback := congrArg (fun z => z * d) heq
  simpa only [BitVec.mul_assoc, h, BitVec.mul_one] using hback

/-- Equal steps by an invertible word do not come back before the counter wraps. -/
theorem steps_injective {c d : BitVec w} (h : c * d = 1#w) (start : BitVec w) {i j : Nat}
    (hi : i < 2 ^ w) (hj : j < 2 ^ w)
    (heq : start + BitVec.ofNat w i * c = start + BitVec.ofNat w j * c) : i = j := by
  have hword := mul_injective_of_inverse h ((BitVec.add_right_inj start).mp heq)
  have hnat := congrArg BitVec.toNat hword
  rwa [BitVec.toNat_ofNat, BitVec.toNat_ofNat, Nat.mod_eq_of_lt hi, Nat.mod_eq_of_lt hj] at hnat

end Words

/-!
# Folds
-/

section Folds

variable {σ α : Type} {f : σ -> α -> σ}

theorem foldl_injective (h : forall a, Injective fun s => f s a) (xs : List α) :
    Injective fun s => xs.foldl f s := by
  induction xs with
  | nil => exact fun _ _ heq => heq
  | cons a rest ih => exact fun s t heq => h a (ih heq)

end Folds

end Foundation
end VisionCore
