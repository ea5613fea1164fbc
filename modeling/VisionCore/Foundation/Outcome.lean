import Mathlib.Tactic

/-!
# Computations that may fail

Inversion of binds and folds in `Except`.
-/

namespace VisionCore
namespace Foundation

variable {ε ε' α β σ : Type}

theorem bind_eq_ok {x : Except ε α} {f : α -> Except ε β} {b : β} :
    (x >>= f) = .ok b ↔ exists a, x = .ok a ∧ f a = .ok b := by
  cases x with
  | error e => constructor <;> simp [bind, Except.bind]
  | ok a => simp [bind, Except.bind]

theorem bind_eq_error {x : Except ε α} {f : α -> Except ε β} {e : ε} :
    (x >>= f) = .error e ↔ x = .error e ∨ exists a, x = .ok a ∧ f a = .error e := by
  cases x with
  | error e' => simp [bind, Except.bind]
  | ok a => simp [bind, Except.bind]

theorem map_eq_ok {x : Except ε α} {f : α -> β} {b : β} :
    x.map f = .ok b ↔ exists a, x = .ok a ∧ f a = b := by
  cases x <;> simp [Except.map]

theorem foldlM_append_ok {f : σ -> α -> Except ε σ} {xs ys : List α} {s t : σ} :
    (xs ++ ys).foldlM f s = .ok t ↔
      exists u, xs.foldlM f s = .ok u ∧ ys.foldlM f u = .ok t := by
  rw [List.foldlM_append]
  exact bind_eq_ok

theorem foldlM_snoc_ok {f : σ -> α -> Except ε σ} {xs : List α} {x : α} {s t : σ} :
    (xs ++ [x]).foldlM f s = .ok t ↔
      exists u, xs.foldlM f s = .ok u ∧ f u x = .ok t := by
  rw [foldlM_append_ok]
  simp

/-- What every step of a fold preserves, the fold preserves. -/
theorem foldlM_induction {f : σ -> α -> Except ε σ} {I : σ -> Prop} {xs : List α} {s t : σ}
    (hstep : forall u x v, x ∈ xs -> I u -> f u x = .ok v -> I v) (hs : I s)
    (hfold : xs.foldlM f s = .ok t) : I t := by
  induction xs generalizing s with
  | nil =>
      rw [List.foldlM_nil] at hfold
      cases hfold
      exact hs
  | cons x rest ih =>
      rw [List.foldlM_cons, bind_eq_ok] at hfold
      rcases hfold with ⟨u, hu, hrest⟩
      exact ih (fun u' y v hy => hstep u' y v (List.mem_cons_of_mem _ hy))
        (hstep s x u List.mem_cons_self hs hu) hrest

/-- A fold succeeds alike when each of its steps does. -/
theorem foldlM_ok_mono {f : σ -> α -> Except ε σ} {f' : σ -> α -> Except ε' σ} {xs : List α}
    {s t : σ} (hstep : forall u x v, f u x = .ok v -> f' u x = .ok v)
    (hfold : xs.foldlM f s = .ok t) : xs.foldlM f' s = .ok t := by
  induction xs generalizing s with
  | nil =>
      rw [List.foldlM_nil] at hfold
      cases hfold
      rfl
  | cons x rest ih =>
      rw [List.foldlM_cons, bind_eq_ok] at hfold
      rcases hfold with ⟨u, hu, hrest⟩
      rw [List.foldlM_cons]
      exact bind_eq_ok.mpr ⟨u, hstep s x u hu, ih hrest⟩

/-- A fold that fails does so at one of its elements. -/
theorem foldlM_eq_error {f : σ -> α -> Except ε σ} {xs : List α} {s : σ} {e : ε}
    (hfold : xs.foldlM f s = .error e) :
    exists below x above t, xs = below ++ x :: above ∧ below.foldlM f s = .ok t ∧
      f t x = .error e := by
  induction xs generalizing s with
  | nil => cases hfold
  | cons x rest ih =>
      rw [List.foldlM_cons] at hfold
      cases hstep : f s x with
      | error e' =>
          rw [hstep] at hfold
          cases hfold
          exact ⟨[], x, rest, s, rfl, rfl, hstep⟩
      | ok u =>
          rw [hstep] at hfold
          rcases ih hfold with ⟨below, y, above, t, hsplit, hbelow, hfail⟩
          refine ⟨x :: below, y, above, t, by rw [hsplit]; rfl, ?_, hfail⟩
          rw [List.foldlM_cons]
          exact bind_eq_ok.mpr ⟨u, hstep, hbelow⟩

theorem toOption_eq_some {x : Except ε α} {a : α} : x.toOption = some a ↔ x = .ok a := by
  cases x <;> simp [Except.toOption]

theorem toOption_map_eq_some {x : Except ε α} {f : α -> β} {b : β}
    (h : x.toOption.map f = some b) : exists a, x = .ok a ∧ f a = b := by
  cases x with
  | error e => cases h
  | ok a => exact ⟨a, rfl, Option.some.inj h⟩

/-!
# Which errors occur
-/

/-- Every error that the computation ends with satisfies `F`. -/
def ErrorsIn (F : ε -> Prop) (x : Except ε α) : Prop :=
  forall e, x = .error e -> F e

namespace ErrorsIn

variable {F : ε -> Prop} {x : Except ε α}

theorem ok (a : α) : ErrorsIn F (.ok a) := by
  intro e h
  cases h

theorem error {e : ε} (he : F e) : ErrorsIn F (.error e : Except ε α) := by
  intro e' h
  cases h
  exact he

theorem bind {k : α -> Except ε β} (hx : ErrorsIn F x)
    (hk : forall a, x = .ok a -> ErrorsIn F (k a)) : ErrorsIn F (x >>= k) := by
  intro e h
  rcases bind_eq_error.mp h with herror | ⟨a, ha, herror⟩
  · exact hx e herror
  · exact hk a ha e herror

theorem foldlM {k : σ -> α -> Except ε σ} {xs : List α} {s : σ}
    (hk : forall a, a ∈ xs -> forall s, ErrorsIn F (k s a)) : ErrorsIn F (xs.foldlM k s) := by
  intro e h
  rcases foldlM_eq_error h with ⟨below, a, above, t, hsplit, _, herror⟩
  refine hk a ?_ t e herror
  rw [hsplit]
  exact List.mem_append_right _ List.mem_cons_self

theorem exists_ok (hx : ErrorsIn (fun _ => False) x) : exists a, x = .ok a := by
  cases x with
  | ok a => exact ⟨a, rfl⟩
  | error e => exact (hx e rfl).elim

end ErrorsIn

end Foundation
end VisionCore
