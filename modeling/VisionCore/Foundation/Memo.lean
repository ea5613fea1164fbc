import Mathlib.Tactic

/-!
# A memoised computation shared by threads

A call looks its key up under the lock.  If the cache has no value, the caller computes it
with the lock released and stores it under the lock; other calls and clearings may come in
between.  Whatever the cache forgets, every call returns what the computation gives.
-/

namespace VisionCore
namespace Foundation

variable {Thread Key Value Cache ε : Type}

/-- The locked operations; `store` returns the value that its caller gets. -/
structure MemoCache (Key Value Cache : Type) where
  get : Cache -> Key -> Option Value
  store : Cache -> Key -> Value -> Value × Cache
  clear : Cache -> Cache

/-- A cache gives back what was stored, a store prefers the value that is already there, and
the operations keep `Inv`. -/
structure MemoCache.Lawful (C : MemoCache Key Value Cache) (Inv : Cache -> Prop) : Prop where
  store : forall {c k v}, Inv c -> Inv (C.store c k v).2
  stored : forall {c k v}, Inv c -> (C.store c k v).1 = (C.get c k).getD v
  get_store : forall {c k v k' w}, Inv c -> C.get (C.store c k v).2 k' = some w ->
    C.get c k' = some w ∨ (k' = k ∧ w = v)
  clear : forall {c}, Inv c -> Inv (C.clear c)
  get_clear : forall (c : Cache) (k : Key), C.get (C.clear c) k = none

inductive MemoPhase (Key : Type) where
  | idle
  | computing (key : Key)

/-- The cache, the phase of each thread, and the values that calls have returned. -/
structure MemoState (Thread Key Value Cache : Type) where
  cache : Cache
  phase : Thread -> MemoPhase Key
  returned : List (Key × Value)

namespace MemoState

def start (cache : Cache) : MemoState Thread Key Value Cache :=
  { cache := cache
    phase := fun _ => .idle
    returned := [] }

def setPhase [DecidableEq Thread] (s : MemoState Thread Key Value Cache) (i : Thread) (phase : MemoPhase Key) :
    MemoState Thread Key Value Cache :=
  { s with phase := Function.update s.phase i phase }

def give (s : MemoState Thread Key Value Cache) (key : Key) (v : Value) :
    MemoState Thread Key Value Cache :=
  { s with returned := s.returned ++ [(key, v)] }

end MemoState

/-- One locked step of a thread, or a computation that fails with the lock released. -/
inductive MemoStep [DecidableEq Thread] (C : MemoCache Key Value Cache)
    (compute : Key -> Except ε Value) :
    MemoState Thread Key Value Cache -> MemoState Thread Key Value Cache -> Prop where
  | hit {s : MemoState Thread Key Value Cache} {i : Thread} {key : Key} {v : Value} :
      s.phase i = .idle -> C.get s.cache key = some v -> MemoStep C compute s (s.give key v)
  | miss {s : MemoState Thread Key Value Cache} {i : Thread} {key : Key} :
      s.phase i = .idle -> C.get s.cache key = none ->
      MemoStep C compute s (s.setPhase i (.computing key))
  | store {s : MemoState Thread Key Value Cache} {i : Thread} {key : Key} {v : Value} :
      s.phase i = .computing key -> compute key = .ok v ->
      MemoStep C compute s
        ((({ s with cache := (C.store s.cache key v).2 } :
          MemoState Thread Key Value Cache).setPhase i .idle).give key (C.store s.cache key v).1)
  | fail {s : MemoState Thread Key Value Cache} {i : Thread} {key : Key} {e : ε} :
      s.phase i = .computing key -> compute key = .error e ->
      MemoStep C compute s (s.setPhase i .idle)
  | clear {s : MemoState Thread Key Value Cache} :
      MemoStep C compute s { s with cache := C.clear s.cache }

/-- The cache and the returned values agree with the computation. -/
structure MemoSound (C : MemoCache Key Value Cache) (Inv : Cache -> Prop)
    (compute : Key -> Except ε Value) (s : MemoState Thread Key Value Cache) : Prop where
  inv : Inv s.cache
  cached : forall {key : Key} {v : Value}, C.get s.cache key = some v -> compute key = .ok v
  returned : forall {key : Key} {v : Value}, (key, v) ∈ s.returned -> compute key = .ok v

section Sound

variable {C : MemoCache Key Value Cache} {Inv : Cache -> Prop} {compute : Key -> Except ε Value}
  {s t : MemoState Thread Key Value Cache}

theorem MemoSound.start {cache : Cache} (hinv : Inv cache)
    (hempty : forall key, C.get cache key = none) :
    MemoSound C Inv compute (MemoState.start cache : MemoState Thread Key Value Cache) where
  inv := hinv
  cached := by
    intro key v hget
    rw [MemoState.start, hempty key] at hget
    cases hget
  returned := by
    intro key v hmem
    cases hmem

theorem MemoSound.give (h : MemoSound C Inv compute s) {key : Key} {v : Value}
    (hv : compute key = .ok v) : MemoSound C Inv compute (s.give key v) where
  inv := h.inv
  cached := h.cached
  returned := by
    intro key' v' hmem
    cases List.mem_append.mp hmem with
    | inl hold => exact h.returned hold
    | inr hnew =>
        cases List.mem_singleton.mp hnew
        exact hv

variable [DecidableEq Thread]

theorem MemoSound.step (hC : C.Lawful Inv) (h : MemoSound C Inv compute s)
    (hstep : MemoStep C compute s t) : MemoSound C Inv compute t := by
  cases hstep with
  | hit _ hget => exact h.give (h.cached hget)
  | miss _ _ => exact ⟨h.inv, h.cached, h.returned⟩
  | @store i key v _ hv =>
      have hvalue : compute key = .ok (C.store s.cache key v).1 := by
        rw [hC.stored h.inv]
        cases hget : C.get s.cache key with
        | none => exact hv
        | some w => exact h.cached hget
      have hstored : MemoSound C Inv compute
          (({ s with cache := (C.store s.cache key v).2 } :
            MemoState Thread Key Value Cache).setPhase i .idle) := by
        refine ⟨hC.store h.inv, ?_, h.returned⟩
        intro key' w hget
        rcases hC.get_store h.inv hget with hold | ⟨rfl, rfl⟩
        · exact h.cached hold
        · exact hv
      exact hstored.give hvalue
  | fail _ _ => exact ⟨h.inv, h.cached, h.returned⟩
  | clear =>
      refine ⟨hC.clear h.inv, ?_, h.returned⟩
      intro key w hget
      rw [hC.get_clear] at hget
      cases hget

theorem MemoSound.run (hC : C.Lawful Inv) (h : MemoSound C Inv compute s)
    (hrun : Relation.ReflTransGen (MemoStep C compute) s t) : MemoSound C Inv compute t := by
  induction hrun with
  | refl => exact h
  | tail _ hstep ih => exact ih.step hC hstep

/-- A call returns at once or starts to compute. -/
theorem MemoSound.call_enabled (h : MemoSound C Inv compute s) {i : Thread}
    (hidle : s.phase i = .idle) (key : Key) :
    (exists v, compute key = .ok v ∧ MemoStep C compute s (s.give key v)) ∨
      MemoStep C compute s (s.setPhase i (.computing key)) := by
  cases hget : C.get s.cache key with
  | none => exact Or.inr (MemoStep.miss hidle hget)
  | some v => exact Or.inl ⟨v, h.cached hget, MemoStep.hit hidle hget⟩

/-- A call that has computed its value can return it. -/
theorem MemoSound.return_enabled (hC : C.Lawful Inv) (h : MemoSound C Inv compute s) {i : Thread}
    {key : Key} {v : Value} (hcomputing : s.phase i = .computing key) (hv : compute key = .ok v) :
    exists t, MemoStep C compute s t ∧ t.phase i = .idle ∧
      t.returned = s.returned ++ [(key, v)] := by
  have hstep := MemoStep.store (C := C) hcomputing hv
  have hvalue : (C.store s.cache key v).1 = v := by
    rw [hC.stored h.inv]
    cases hget : C.get s.cache key with
    | none => rfl
    | some w => exact Except.ok.inj ((h.cached hget).symm.trans hv)
  refine ⟨_, hstep, Function.update_self i _ _, ?_⟩
  rw [hvalue]
  rfl

end Sound

end Foundation
end VisionCore
