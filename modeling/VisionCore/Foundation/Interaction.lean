import Mathlib.Tactic

/-!
# Interactive programs

A program that talks to its surroundings reads and changes a state, may fail with
an error and may abort.  These rules say what holds when such a program returns,
and which facts about the state it keeps until then.
-/

namespace VisionCore
namespace Foundation

/-- A program over the state `σ` that may fail with `ε` or abort with `φ`. -/
abbrev Program (σ ε φ α : Type) : Type :=
  ExceptT ε (StateT σ (Except φ)) α

namespace Program

variable {σ ε φ α β : Type} {x : Program σ ε φ α} {f : α -> Program σ ε φ β} {s s' : σ} {a : α}
  {b : β} {I : σ -> Prop}

/-- From the state `s` the program returns `a` and leaves `s'`. -/
def Returns (x : Program σ ε φ α) (s : σ) (a : α) (s' : σ) : Prop :=
  x.run s = .ok (.ok a, s')

@[simp] theorem returns_pure {a a' : α} :
    Returns (pure a : Program σ ε φ α) s a' s' ↔ a' = a ∧ s' = s := by
  constructor
  · intro h
    cases h
    exact ⟨rfl, rfl⟩
  · rintro ⟨rfl, rfl⟩
    rfl

theorem returns_bind :
    Returns (x >>= f) s b s' ↔ exists a t, Returns x s a t ∧ Returns (f a) t b s' := by
  unfold Returns
  have hbind : (x >>= f).run s = (x.run s >>= fun r =>
      (ExceptT.bindCont f r.1).run r.2 : Except φ (Except ε β × σ)) := rfl
  rw [hbind]
  cases hx : (x.run s : Except φ (Except ε α × σ)) with
  | error fault =>
      constructor
      · intro h
        cases h
      · rintro ⟨a, t, hrun, _⟩
        cases hrun
  | ok r =>
      rcases r with ⟨result, t⟩
      cases result with
      | error e =>
          constructor
          · intro h
            cases h
          · rintro ⟨a, t', hrun, _⟩
            cases hrun
      | ok a =>
          constructor
          · intro h
            exact ⟨a, t, rfl, h⟩
          · rintro ⟨a', t', hrun, hrest⟩
            cases hrun
            exact hrest

/-- Continuations that agree wherever the first program returns may be exchanged. -/
theorem run_bind_congr {g : α -> Program σ ε φ β}
    (h : forall a t, Returns x s a t -> (f a).run t = (g a).run t) :
    (x >>= f).run s = (x >>= g).run s := by
  have hbind : forall k : α -> Program σ ε φ β, (x >>= k).run s = (x.run s >>= fun r =>
      (ExceptT.bindCont k r.1).run r.2 : Except φ (Except ε β × σ)) := fun _ => rfl
  rw [hbind, hbind]
  cases hx : (x.run s : Except φ (Except ε α × σ)) with
  | error fault => rfl
  | ok r =>
      rcases r with ⟨result, t⟩
      cases result with
      | error e => rfl
      | ok a => exact h a t hx

@[simp] theorem returns_get {t : σ} :
    Returns (get : Program σ ε φ σ) s t s' ↔ t = s ∧ s' = s := by
  constructor
  · intro h
    cases h
    exact ⟨rfl, rfl⟩
  · rintro ⟨rfl, rfl⟩
    rfl

@[simp] theorem returns_set {t : σ} {u : PUnit} :
    Returns (set t : Program σ ε φ PUnit) s u s' ↔ s' = t := by
  constructor
  · intro h
    cases h
    rfl
  · rintro rfl
    rfl

@[simp] theorem returns_modify {g : σ -> σ} {u : PUnit} :
    Returns (modify g : Program σ ε φ PUnit) s u s' ↔ s' = g s := by
  constructor
  · intro h
    cases h
    rfl
  · rintro rfl
    rfl

@[simp] theorem not_returns_throw {e : ε} :
    ¬Returns (throw e : Program σ ε φ α) s a s' := by
  intro h
  cases h

/-- A computation that may abort, run inside a program. -/
def call (c : Except φ α) : Program σ ε φ α :=
  fun s => c.map fun a => (.ok a, s)

@[simp] theorem returns_call {c : Except φ α} :
    Returns (call c : Program σ ε φ α) s a s' ↔ c = .ok a ∧ s' = s := by
  cases c with
  | error fault =>
      constructor
      · intro h
        cases h
      · rintro ⟨h, _⟩
        cases h
  | ok a' =>
      constructor
      · intro h
        cases h
        exact ⟨rfl, rfl⟩
      · rintro ⟨h, rfl⟩
        cases h
        rfl

theorem call_aborts (fault : φ) :
    (call (.error fault) : Program σ ε φ α).run s = .error fault := rfl

/-- A computation that may fail and does not touch the state, run inside a program. -/
def attempt (c : Except ε α) : Program σ ε φ α :=
  fun s => .ok (c, s)

@[simp] theorem returns_attempt {c : Except ε α} :
    Returns (attempt c : Program σ ε φ α) s a s' ↔ c = .ok a ∧ s' = s := by
  constructor
  · intro h
    cases h
    exact ⟨rfl, rfl⟩
  · rintro ⟨rfl, rfl⟩
    rfl

/-- From the state `s` the program fails with `e` and leaves `s'`. -/
def Raises (x : Program σ ε φ α) (s : σ) (e : ε) (s' : σ) : Prop :=
  x.run s = .ok (.error e, s')

/-!
# Running a program piece by piece
-/

theorem run_bind_of_returns {t : σ} (h : Returns x s a t) : (x >>= f).run s = (f a).run t := by
  have hbind : (x >>= f).run s = (x.run s >>= fun r =>
      (ExceptT.bindCont f r.1).run r.2 : Except φ (Except ε β × σ)) := rfl
  rw [hbind, h]
  rfl

theorem Raises.bind {e : ε} (h : Raises x s e s') : Raises (x >>= f) s e s' := by
  have hbind : (x >>= f).run s = (x.run s >>= fun r =>
      (ExceptT.bindCont f r.1).run r.2 : Except φ (Except ε β × σ)) := rfl
  unfold Raises
  rw [hbind, h]
  rfl

theorem run_bind_of_aborts {fault : φ} (h : x.run s = .error fault) :
    (x >>= f).run s = .error fault := by
  have hbind : (x >>= f).run s = (x.run s >>= fun r =>
      (ExceptT.bindCont f r.1).run r.2 : Except φ (Except ε β × σ)) := rfl
  rw [hbind, h]
  rfl

theorem Returns.tryCatch {handler : ε -> Program σ ε φ α} (h : Returns x s a s') :
    Returns (tryCatch x handler) s a s' := by
  unfold Returns at h ⊢
  change (x.run s >>= _) = _
  rw [h]
  rfl

theorem run_tryCatch_of_raises {handler : ε -> Program σ ε φ α} {e : ε} (h : Raises x s e s') :
    (tryCatch x handler).run s = (handler e).run s' := by
  unfold Raises at h
  change (x.run s >>= _) = _
  rw [h]
  rfl

theorem run_tryCatch_of_aborts {handler : ε -> Program σ ε φ α} {fault : φ}
    (h : x.run s = .error fault) : (tryCatch x handler).run s = .error fault := by
  change (x.run s >>= _) = _
  rw [h]
  rfl

/-- What `f` reads off the value and the state that the program returns. -/
def eval {γ : Type} (x : Program σ ε φ α) (s : σ) (f : α -> σ -> γ) : Option γ :=
  match x.run s with
  | .ok (.ok a, s') => some (f a s')
  | _ => none

theorem returns_of_eval {γ : Type} {f : α -> σ -> γ} {c : γ} (h : eval x s f = some c) :
    exists a s', Returns x s a s' ∧ f a s' = c := by
  unfold eval at h
  cases hx : (x.run s : Except φ (Except ε α × σ)) with
  | error fault =>
      rw [hx] at h
      cases h
  | ok r =>
      rcases r with ⟨result, s'⟩
      cases result with
      | error e =>
          rw [hx] at h
          cases h
      | ok a =>
          rw [hx] at h
          exact ⟨a, s', hx, Option.some.inj h⟩

/-- A fact about the state that holds after every return if it held before. -/
def Keeps (I : σ -> Prop) (x : Program σ ε φ α) : Prop :=
  forall ⦃s a s'⦄, I s -> Returns x s a s' -> I s'

namespace Keeps

theorem pure (a : α) : Keeps I (pure a : Program σ ε φ α) := by
  intro s a' s' hs h
  rw [(returns_pure.mp h).2]
  exact hs

theorem bind (hx : Keeps I x) (hf : forall a, Keeps I (f a)) : Keeps I (x >>= f) := by
  intro s b s' hs h
  rcases returns_bind.mp h with ⟨a, t, hrun, hrest⟩
  exact hf a (hx hs hrun) hrest

theorem get : Keeps I (get : Program σ ε φ σ) := by
  intro s a s' hs h
  rw [(returns_get.mp h).2]
  exact hs

theorem modify {g : σ -> σ} (hg : forall s, I s -> I (g s)) :
    Keeps I (modify g : Program σ ε φ PUnit) := by
  intro s a s' hs h
  rw [returns_modify.mp h]
  exact hg s hs

theorem throw (e : ε) : Keeps I (throw e : Program σ ε φ α) :=
  fun _ _ _ _ h => absurd h not_returns_throw

theorem call (c : Except φ α) : Keeps I (call c : Program σ ε φ α) := by
  intro s a s' hs h
  rw [(returns_call.mp h).2]
  exact hs

end Keeps

end Program
end Foundation
end VisionCore
