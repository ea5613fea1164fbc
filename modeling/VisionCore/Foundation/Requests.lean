import Mathlib.Tactic

/-!
# Requests and answers

One side asks for values by their keys, the other side answers, and the asker may
deliver an answer to whoever wanted it.  A single slot for the pending key is enough
for a disciplined exchange: one request at a time, and every delivery is the answer
to the request that was pending.
-/

namespace VisionCore
namespace Foundation

inductive Exchange (Key Value : Type) where
  | ask (key : Key)
  | answer (value : Value)
  | deliver (value : Value)
deriving DecidableEq

namespace Exchange

variable {Key Value : Type}

/-- The keys that are asked for and not answered; an answer settles the oldest one. -/
def settle : List Key -> Exchange Key Value -> List Key
  | pending, ask key => pending ++ [key]
  | pending, answer _ => pending.tail
  | pending, deliver _ => pending

def outstanding (trace : List (Exchange Key Value)) : List Key :=
  trace.foldl settle []

@[simp] theorem outstanding_nil : outstanding ([] : List (Exchange Key Value)) = [] :=
  rfl

@[simp] theorem outstanding_snoc (trace : List (Exchange Key Value)) (e : Exchange Key Value) :
    outstanding (trace ++ [e]) = settle (outstanding trace) e := by
  simp [outstanding]

/-- At most one request is outstanding at any time, and a value is delivered only as the
answer, just received, to the request for its key. -/
structure Disciplined (key : Value -> Key) (trace : List (Exchange Key Value)) : Prop where
  single : forall before, before <+: trace -> (outstanding before).length ≤ 1
  requested : forall before value, before ++ [deliver value] <+: trace ->
    exists earlier, before = earlier ++ [answer value] ∧ outstanding earlier = [key value]

theorem Disciplined.nil (key : Value -> Key) :
    Disciplined key ([] : List (Exchange Key Value)) where
  single := by
    intro before hinit
    rw [List.prefix_nil.mp hinit]
    exact Nat.zero_le _
  requested := by
    intro before value hinit
    have hnil := List.prefix_nil.mp hinit
    simp at hnil

theorem Disciplined.snoc {key : Value -> Key} {trace : List (Exchange Key Value)}
    {e : Exchange Key Value} (h : Disciplined key trace)
    (hsingle : (outstanding (trace ++ [e])).length ≤ 1)
    (hrequested : forall value, e = deliver value ->
      exists earlier, trace = earlier ++ [answer value] ∧ outstanding earlier = [key value]) :
    Disciplined key (trace ++ [e]) where
  single := by
    intro before hinit
    rcases List.prefix_concat_iff.mp hinit with rfl | hold
    · exact hsingle
    · exact h.single before hold
  requested := by
    intro before value hinit
    rcases List.prefix_concat_iff.mp hinit with heq | hold
    · rcases List.append_inj' heq rfl with ⟨rfl, hlast⟩
      exact hrequested value (List.head_eq_of_cons_eq hlast).symm
    · exact h.requested before value hold

/-- Every prefix of a disciplined trace is one. -/
theorem Disciplined.of_prefix {key : Value -> Key} {before trace : List (Exchange Key Value)}
    (h : Disciplined key trace) (hinit : before <+: trace) : Disciplined key before where
  single := fun earlier hearlier => h.single earlier (hearlier.trans hinit)
  requested := fun earlier value hearlier => h.requested earlier value (hearlier.trans hinit)

/-!
# Counting
-/

section Counting

variable [DecidableEq Key]

def asked (key : Key) (trace : List (Exchange Key Value)) : Nat :=
  trace.countP fun e =>
    match e with
    | ask k => k == key
    | _ => false

def delivered (keyOf : Value -> Key) (key : Key) (trace : List (Exchange Key Value)) : Nat :=
  trace.countP fun e =>
    match e with
    | deliver value => keyOf value == key
    | _ => false

theorem asked_snoc (key : Key) (trace : List (Exchange Key Value)) (e : Exchange Key Value) :
    asked key (trace ++ [e]) = asked key trace + asked key [e] :=
  List.countP_append

theorem delivered_snoc (keyOf : Value -> Key) (key : Key) (trace : List (Exchange Key Value))
    (e : Exchange Key Value) :
    delivered keyOf key (trace ++ [e]) = delivered keyOf key trace + delivered keyOf key [e] :=
  List.countP_append

/-- Every delivery under a key uses up a request for it. -/
theorem Disciplined.delivered_add_le {keyOf : Value -> Key} {trace : List (Exchange Key Value)}
    (h : Disciplined keyOf trace) (key : Key) :
    delivered keyOf key trace + (outstanding trace).count key ≤ asked key trace := by
  induction hn : trace.length using Nat.strong_induction_on generalizing trace with
  | _ n ih =>
    rcases List.eq_nil_or_concat trace with rfl | ⟨before, e, rfl⟩
    · exact Nat.le_refl _
    rw [List.concat_eq_append] at h hn ⊢
    have hbefore := h.of_prefix (List.prefix_append before [e])
    have hlength : before.length < n := by
      rw [← hn, List.length_append, List.length_singleton]
      exact Nat.lt_succ_self _
    rw [delivered_snoc, asked_snoc, outstanding_snoc]
    cases e with
    | ask k =>
        have hle := ih before.length hlength hbefore rfl
        have hone : asked key [(ask k : Exchange Key Value)] = [k].count key := by
          simp [asked, List.count_singleton]
        have hnone : delivered keyOf key [ask k] = 0 := rfl
        rw [settle, List.count_append, hone, hnone]
        omega
    | answer value =>
        have hle := ih before.length hlength hbefore rfl
        have htail := (List.tail_sublist (outstanding before)).count_le key
        exact Nat.le_trans (Nat.add_le_add_left htail _) hle
    | deliver value =>
        rcases h.requested before value (List.prefix_refl _) with ⟨earlier, rfl, hpending⟩
        have hearlier := hbefore.of_prefix (List.prefix_append earlier _)
        rw [List.length_append, List.length_singleton] at hlength
        have hle := ih earlier.length (Nat.lt_of_succ_lt hlength) hearlier rfl
        have hone : delivered keyOf key [deliver value] = [keyOf value].count key := by
          simp [delivered, List.count_singleton]
        rw [hpending] at hle
        rw [delivered_snoc, asked_snoc, outstanding_snoc, hpending, hone]
        simpa [settle, delivered, asked] using hle

/-- At most as many values are delivered under a key as were asked for. -/
theorem Disciplined.delivered_le {keyOf : Value -> Key} {trace : List (Exchange Key Value)}
    (h : Disciplined keyOf trace) (key : Key) : delivered keyOf key trace ≤ asked key trace :=
  Nat.le_trans (Nat.le_add_right _ _) (h.delivered_add_le key)

end Counting

/-!
# One slot
-/

/-- The pending key, and the answer to it that has just been received. -/
structure Slot (Key Value : Type) where
  pending : Option Key
  ready : Option Value

namespace Slot

variable [DecidableEq Key] [DecidableEq Value] {keyOf : Value -> Key}
  {slot slot' : Slot Key Value} {trace trace' : List (Exchange Key Value)}

def empty : Slot Key Value :=
  { pending := none, ready := none }

/-- Ask when nothing is pending, and deliver only the answer to what was pending. -/
def next (keyOf : Value -> Key) (slot : Slot Key Value) :
    Exchange Key Value -> Option (Slot Key Value)
  | ask key =>
      match slot.pending with
      | none => some { pending := some key, ready := none }
      | some _ => none
  | answer value =>
      some
        { pending := none
          ready := if slot.pending = some (keyOf value) then some value else none }
  | deliver value =>
      if slot.ready = some value then some { pending := slot.pending, ready := none } else none

def run (keyOf : Value -> Key) (slot : Slot Key Value) (trace : List (Exchange Key Value)) :
    Option (Slot Key Value) :=
  trace.foldlM (next keyOf) slot

@[simp] theorem run_nil : run keyOf slot [] = some slot :=
  rfl

theorem run_append : run keyOf slot (trace ++ trace') =
    (run keyOf slot trace).bind fun slot => run keyOf slot trace' := by
  unfold run
  rw [List.foldlM_append]
  rfl

theorem run_append_of (h : run keyOf slot trace = some slot') :
    run keyOf slot (trace ++ trace') = run keyOf slot' trace' := by
  rw [run_append, h]
  rfl

/-- What a slot knows of the trace behind it. -/
structure Follows (keyOf : Value -> Key) (trace : List (Exchange Key Value))
    (slot : Slot Key Value) : Prop where
  disciplined : Disciplined keyOf trace
  pending : outstanding trace = slot.pending.toList
  ready : forall value, slot.ready = some value ->
    exists earlier, trace = earlier ++ [answer value] ∧ outstanding earlier = [keyOf value]

theorem Follows.next {e : Exchange Key Value} (h : Follows keyOf trace slot)
    (hnext : next keyOf slot e = some slot') : Follows keyOf (trace ++ [e]) slot' := by
  cases e with
  | ask key =>
      cases hpending : slot.pending with
      | some old =>
          simp only [Slot.next, hpending] at hnext
          cases hnext
      | none =>
          simp only [Slot.next, hpending] at hnext
          cases hnext
          have hopen : outstanding (trace ++ [ask key]) = [key] := by
            rw [outstanding_snoc, h.pending, hpending]
            rfl
          refine ⟨h.disciplined.snoc (by rw [hopen]; exact Nat.le_refl 1) ?_, hopen, ?_⟩
          · intro value heq
            cases heq
          · intro value heq
            cases heq
  | answer value =>
      cases hnext
      have hopen : outstanding (trace ++ [answer value]) = [] := by
        rw [outstanding_snoc, h.pending]
        cases slot.pending with
        | none => rfl
        | some key => rfl
      refine ⟨h.disciplined.snoc (by rw [hopen]; exact Nat.zero_le _) ?_, hopen, ?_⟩
      · intro other heq
        cases heq
      · intro other heq
        dsimp only at heq
        by_cases hmatch : slot.pending = some (keyOf value)
        · rw [if_pos hmatch] at heq
          cases heq
          exact ⟨trace, rfl, by rw [h.pending, hmatch]; rfl⟩
        · rw [if_neg hmatch] at heq
          cases heq
  | deliver value =>
      by_cases hready : slot.ready = some value
      · simp only [Slot.next, if_pos hready] at hnext
        cases hnext
        have hopen : outstanding (trace ++ [deliver value]) = outstanding trace :=
          outstanding_snoc trace _
        refine ⟨h.disciplined.snoc ?_ ?_, hopen.trans h.pending, ?_⟩
        · rw [hopen]
          exact h.disciplined.single trace (List.prefix_refl _)
        · intro other heq
          cases heq
          exact h.ready value hready
        · intro other heq
          cases heq
      · simp only [Slot.next, if_neg hready] at hnext
        cases hnext

/-- Whatever a slot allows is a disciplined exchange. -/
theorem Follows.run (h : Follows keyOf trace slot) (hrun : run keyOf slot trace' = some slot') :
    Follows keyOf (trace ++ trace') slot' := by
  induction trace' generalizing trace slot with
  | nil =>
      cases hrun
      rw [List.append_nil]
      exact h
  | cons e rest ih =>
      rcases Option.bind_eq_some_iff.mp hrun with ⟨middle, hnext, hrest⟩
      have hlater := ih (h.next hnext) hrest
      rw [List.append_assoc] at hlater
      exact hlater

omit [DecidableEq Key] [DecidableEq Value] in
theorem follows_empty (keyOf : Value -> Key) : Follows keyOf [] (empty : Slot Key Value) where
  disciplined := Disciplined.nil keyOf
  pending := rfl
  ready := fun _ heq => by cases heq

theorem follows_of_run (h : run keyOf empty trace = some slot) : Follows keyOf trace slot :=
  (follows_empty keyOf).run h

/-!
# A machine with one slot
-/

/-- With this key pending the slot allows the trace, and the key of `after` is pending
behind it, unless the machine has stopped. -/
def Allows (keyOf : Value -> Key) (pending : Option Key) (trace : List (Exchange Key Value))
    (after : Option (Option Key)) : Prop :=
  forall ready, exists slot',
    run keyOf { pending := pending, ready := ready } trace = some slot' ∧
      forall key, after = some key -> slot'.pending = key

section Machine

variable {pending middle : Option Key} {after : Option (Option Key)} {key : Key} {value : Value}

theorem allows_nil : Allows keyOf pending [] (some pending) := by
  intro ready
  refine ⟨_, rfl, ?_⟩
  intro key heq
  cases heq
  rfl

theorem Allows.stop (h : Allows keyOf pending trace after) : Allows keyOf pending trace none := by
  intro ready
  rcases h ready with ⟨slot', hrun, _⟩
  exact ⟨slot', hrun, fun key heq => by cases heq⟩

theorem Allows.append (h : Allows keyOf pending trace (some middle))
    (hrest : Allows keyOf middle trace' after) :
    Allows keyOf pending (trace ++ trace') after := by
  intro ready
  rcases h ready with ⟨slot, hrun, hpending⟩
  have hmiddle : slot = { pending := middle, ready := slot.ready } := by
    rw [← hpending middle rfl]
  rw [run_append_of hrun, hmiddle]
  exact hrest slot.ready

theorem allows_ask : Allows keyOf none [ask key] (some (some key)) := by
  intro ready
  refine ⟨_, rfl, ?_⟩
  intro other heq
  cases heq
  rfl

theorem allows_answer : Allows keyOf pending [answer value] (some none) := by
  intro ready
  refine ⟨_, rfl, ?_⟩
  intro other heq
  cases heq
  rfl

theorem allows_deliver :
    Allows keyOf (some (keyOf value)) [answer value, deliver value] (some none) := by
  intro ready
  refine ⟨{ pending := none, ready := none }, ?_, ?_⟩
  · simp [run, next]
  · intro other heq
    cases heq
    rfl

theorem Allows.follows (h : Allows keyOf none trace after) :
    Disciplined keyOf trace ∧ forall key, after = some key -> outstanding trace = key.toList := by
  rcases h none with ⟨slot, hrun, hpending⟩
  have hfollows := follows_of_run hrun
  refine ⟨hfollows.disciplined, ?_⟩
  intro key heq
  rw [hfollows.pending, hpending key heq]

end Machine

end Slot

end Exchange
end Foundation
end VisionCore
