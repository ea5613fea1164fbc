import Mathlib.Tactic

/-!
# Frames

A message travels as a header of fixed width that tells its length, and the message
itself.  A reader takes one symbol after the other and refuses a length beyond its
limit.  As long as it loses nothing of what it has taken, it receives the messages in
the order in which they were sent.
-/

namespace VisionCore
namespace Foundation

structure Framing (Symbol Message : Type) where
  width : Nat
  /-- The longest message that the reader accepts. -/
  limit : Nat
  /-- Headers tell the lengths below this bound apart. -/
  span : Nat
  header : Nat -> List Symbol
  lengthOf : List Symbol -> Nat
  serialize : Message -> List Symbol
  deserialize : List Symbol -> Option Message
  Fits : Message -> Prop
  width_pos : 0 < width
  header_length : forall n, (header n).length = width
  lengthOf_header : forall n, n < span -> lengthOf (header n) = n
  deserialize_serialize : forall message, Fits message ->
    deserialize (serialize message) = some message

/-- What a reader has after one more symbol. -/
inductive Reading (Symbol Message : Type) where
  | pending (taken : List Symbol)
  | received (message : Message)
  | oversized (length : Nat)
  | malformed

namespace Framing

variable {Symbol Message : Type} (F : Framing Symbol Message)

def size (message : Message) : Nat :=
  (F.serialize message).length

def frame (message : Message) : List Symbol :=
  F.header (F.size message) ++ F.serialize message

def wire (messages : List Message) : List Symbol :=
  messages.flatMap F.frame

def advance (taken : List Symbol) (symbol : Symbol) : Reading Symbol Message :=
  let taken := taken ++ [symbol]
  if taken.length < F.width then .pending taken
  else
    let length := F.lengthOf (taken.take F.width)
    if F.limit < length then .oversized length
    else if taken.length < F.width + length then .pending taken
    else
      match F.deserialize (taken.drop F.width) with
      | some message => .received message
      | none => .malformed

/-- The message has a frame that tells its length. -/
structure Framed (message : Message) : Prop where
  fits : F.Fits message
  size_lt : F.size message < F.span

variable {F} {message : Message} {messages received : List Message}
  {taken rest : List Symbol} {symbol : Symbol}

theorem frame_length : (F.frame message).length = F.width + F.size message := by
  unfold frame size
  rw [List.length_append, F.header_length]

theorem frame_pos : 0 < (F.frame message).length := by
  rw [frame_length]
  exact Nat.lt_of_lt_of_le F.width_pos (Nat.le_add_right _ _)

theorem frame_take : (F.frame message).take F.width = F.header (F.size message) :=
  List.take_left' (F.header_length _)

theorem frame_drop : (F.frame message).drop F.width = F.serialize message :=
  List.drop_left' (F.header_length _)

/-- The header of a frame that has been read far enough. -/
theorem lengthOf_take (h : F.Framed message) (hinit : taken <+: F.frame message)
    (hlength : F.width ≤ taken.length) : F.lengthOf (taken.take F.width) = F.size message := by
  rcases hinit with ⟨others, hothers⟩
  have htake : taken.take F.width = (F.frame message).take F.width := by
    rw [← hothers, List.take_append_of_le_length hlength]
  rw [htake, frame_take, F.lengthOf_header _ h.size_lt]

/-- Within a frame that is not too long the reader goes on until its last symbol. -/
theorem advance_frame (h : F.Framed message) (hlimit : F.size message ≤ F.limit)
    (hinit : taken ++ [symbol] <+: F.frame message) :
    F.advance taken symbol =
      if (taken ++ [symbol]).length < (F.frame message).length then .pending (taken ++ [symbol])
      else .received message := by
  unfold advance
  dsimp only
  rw [frame_length]
  by_cases hheader : (taken ++ [symbol]).length < F.width
  · rw [if_pos hheader, if_pos (Nat.lt_of_lt_of_le hheader (Nat.le_add_right _ _))]
  · rw [if_neg hheader, lengthOf_take h hinit (Nat.le_of_not_lt hheader),
      if_neg (Nat.not_lt.mpr hlimit)]
    by_cases hlast : (taken ++ [symbol]).length < F.width + F.size message
    · rw [if_pos hlast, if_pos hlast]
    · have hwhole : taken ++ [symbol] = F.frame message := by
        apply hinit.eq_of_length_le
        rw [frame_length]
        exact Nat.le_of_not_lt hlast
      rw [if_neg hlast, if_neg hlast, hwhole, frame_drop, F.deserialize_serialize _ h.fits]

/-- A frame that is too long is refused at the end of its header. -/
theorem advance_oversized (h : F.Framed message) (hlimit : F.limit < F.size message)
    (hinit : taken ++ [symbol] <+: F.frame message) :
    F.advance taken symbol =
      if (taken ++ [symbol]).length < F.width then .pending (taken ++ [symbol])
      else .oversized (F.size message) := by
  unfold advance
  dsimp only
  by_cases hheader : (taken ++ [symbol]).length < F.width
  · rw [if_pos hheader, if_pos hheader]
  · rw [if_neg hheader, if_neg hheader, lengthOf_take h hinit (Nat.le_of_not_lt hheader),
      if_pos hlimit]

/-!
# A reader in step with the sender
-/

/-- Of the sent messages the reader has received the first ones; it has taken less than
the next frame, and nothing is lost of what is left. -/
def InStep (F : Framing Symbol Message) (messages received : List Message)
    (taken rest : List Symbol) : Prop :=
  exists later, messages = received ++ later ∧ taken ++ rest = F.wire later ∧
    forall message others, later = message :: others ->
      taken.length < (F.frame message).length

theorem InStep.start (F : Framing Symbol Message) (messages : List Message) :
    F.InStep messages [] [] (F.wire messages) :=
  ⟨messages, rfl, rfl, fun _ _ _ => frame_pos⟩

theorem InStep.received_prefix (h : F.InStep messages received taken rest) :
    received <+: messages := by
  rcases h with ⟨later, hmessages, _, _⟩
  exact ⟨later, hmessages.symm⟩

/-- Between two frames nothing is taken, so a reader may start anew. -/
theorem InStep.finished (h : F.InStep messages received taken []) :
    received = messages ∧ taken = [] := by
  rcases h with ⟨later, hmessages, hwire, hshort⟩
  rw [List.append_nil] at hwire
  cases later with
  | nil =>
      rw [List.append_nil] at hmessages
      exact ⟨hmessages.symm, hwire⟩
  | cons message others =>
      have hlt := hshort message others rfl
      have hle : (F.frame message).length ≤ taken.length := by
        rw [hwire]
        unfold wire
        rw [List.flatMap_cons, List.length_append]
        exact Nat.le_add_right _ _
      exact absurd hlt (Nat.not_lt.mpr hle)

/-- The frame that the next symbol belongs to. -/
theorem InStep.next (h : F.InStep messages received taken (symbol :: rest)) :
    exists message others, messages = received ++ message :: others ∧
      taken ++ [symbol] <+: F.frame message ∧
        taken ++ symbol :: rest = F.frame message ++ F.wire others := by
  rcases h with ⟨later, hmessages, hwire, hshort⟩
  cases later with
  | nil =>
      have hempty : taken ++ symbol :: rest = [] := hwire
      simp at hempty
  | cons message others =>
      have hframe : taken ++ symbol :: rest = F.frame message ++ F.wire others := by
        rw [hwire]
        rfl
      refine ⟨message, others, hmessages, ?_, hframe⟩
      have hleft : taken ++ [symbol] <+: F.frame message ++ F.wire others := by
        rw [← hframe]
        exact ⟨rest, by simp⟩
      apply List.prefix_of_prefix_length_le hleft (List.prefix_append _ _)
      rw [List.length_append, List.length_singleton]
      exact hshort message others rfl

/-- A symbol of a message that is not too long keeps the reader in step. -/
theorem InStep.advance (h : F.InStep messages received taken (symbol :: rest))
    (hframed : forall message, message ∈ messages -> F.Framed message) :
    (exists later, F.advance taken symbol = .pending later ∧
        F.InStep messages received later rest) ∨
      (exists message, F.advance taken symbol = .received message ∧
        F.InStep messages (received ++ [message]) [] rest) ∨
      exists message, message ∈ messages ∧ F.limit < F.size message ∧
        F.advance taken symbol = .oversized (F.size message) := by
  rcases h.next with ⟨message, others, hmessages, hinit, hwire⟩
  have hmem : message ∈ messages := by
    rw [hmessages]
    exact List.mem_append_right _ List.mem_cons_self
  have hmessage := hframed message hmem
  have hrest : (taken ++ [symbol]) ++ rest = F.frame message ++ F.wire others := by
    rw [List.append_assoc]
    exact hwire
  have hpending : (taken ++ [symbol]).length < (F.frame message).length ->
      F.InStep messages received (taken ++ [symbol]) rest := by
    intro hlt
    refine ⟨message :: others, hmessages, hrest, ?_⟩
    intro first tail heq
    cases heq
    exact hlt
  by_cases hlimit : F.size message ≤ F.limit
  · rw [advance_frame hmessage hlimit hinit]
    by_cases hlt : (taken ++ [symbol]).length < (F.frame message).length
    · rw [if_pos hlt]
      exact Or.inl ⟨_, rfl, hpending hlt⟩
    · rw [if_neg hlt]
      have hwhole : taken ++ [symbol] = F.frame message :=
        hinit.eq_of_length_le (Nat.le_of_not_lt hlt)
      rw [hwhole] at hrest
      refine Or.inr (Or.inl ⟨message, rfl, others, ?_, List.append_cancel_left hrest, ?_⟩)
      · rw [hmessages, List.append_assoc]
        rfl
      · exact fun _ _ _ => frame_pos
  · have hlarge := Nat.lt_of_not_le hlimit
    rw [advance_oversized hmessage hlarge hinit]
    by_cases hlt : (taken ++ [symbol]).length < F.width
    · rw [if_pos hlt]
      refine Or.inl ⟨_, rfl, hpending ?_⟩
      rw [frame_length]
      exact Nat.lt_of_lt_of_le hlt (Nat.le_add_right _ _)
    · rw [if_neg hlt]
      exact Or.inr (Or.inr ⟨message, hmem, hlarge, rfl⟩)

/-!
# Uninterrupted reading
-/

/-- What a reader has received, and what it has taken of the next frame; it stops at the
first error. -/
structure Inbox (Symbol Message : Type) where
  received : List Message
  taken : List Symbol
  failed : Bool

namespace Inbox

def empty : Inbox Symbol Message :=
  { received := []
    taken := []
    failed := false }

def feed (F : Framing Symbol Message) (box : Inbox Symbol Message) (symbol : Symbol) :
    Inbox Symbol Message :=
  if box.failed then box
  else
    match F.advance box.taken symbol with
    | .pending taken => { box with taken := taken }
    | .received message => { box with received := box.received ++ [message], taken := [] }
    | .oversized _ | .malformed => { box with failed := true }

/-- The reader on a stream that arrives in pieces. -/
def feedAll (F : Framing Symbol Message) (box : Inbox Symbol Message)
    (arrivals : List (List Symbol)) : Inbox Symbol Message :=
  arrivals.foldl (fun box piece => piece.foldl (feed F) box) box

/-- How the stream is split does not matter. -/
theorem feedAll_eq (box : Inbox Symbol Message) (arrivals : List (List Symbol)) :
    feedAll F box arrivals = arrivals.flatten.foldl (feed F) box := by
  unfold feedAll
  rw [List.foldl_flatten]

theorem foldl_feed (hframed : forall message, message ∈ messages -> F.Framed message)
    (hlimit : forall message, message ∈ messages -> F.size message ≤ F.limit)
    (box : Inbox Symbol Message) {input : List Symbol} (hgoes : box.failed = false)
    (h : F.InStep messages box.received box.taken (input ++ rest)) :
    (input.foldl (feed F) box).failed = false ∧
      F.InStep messages (input.foldl (feed F) box).received (input.foldl (feed F) box).taken
        rest := by
  induction input generalizing box with
  | nil => exact ⟨hgoes, h⟩
  | cons symbol input ih =>
      rw [List.foldl_cons]
      rcases h.advance hframed with ⟨later, hadvance, hlater⟩ | ⟨message, hadvance, hlater⟩ |
        ⟨message, hmem, hlarge, _⟩
      · have hfeed : feed F box symbol = { box with taken := later } := by
          unfold feed
          rw [hgoes, hadvance]
          rfl
        rw [hfeed]
        exact ih _ hgoes hlater
      · have hfeed : feed F box symbol =
            { box with received := box.received ++ [message], taken := [] } := by
          unfold feed
          rw [hgoes, hadvance]
          rfl
        rw [hfeed]
        exact ih _ hgoes hlater
      · exact absurd hlarge (Nat.not_lt.mpr (hlimit message hmem))

/-- Messages within the limit are all received, in their order and without a rest. -/
theorem feedAll_wire (hframed : forall message, message ∈ messages -> F.Framed message)
    (hlimit : forall message, message ∈ messages -> F.size message ≤ F.limit)
    {arrivals : List (List Symbol)} (harrivals : arrivals.flatten = F.wire messages) :
    feedAll F empty arrivals = { received := messages, taken := [], failed := false } := by
  have hstart : F.InStep messages [] [] (F.wire messages ++ []) := by
    rw [List.append_nil]
    exact InStep.start F messages
  rw [feedAll_eq, harrivals]
  rcases foldl_feed hframed hlimit empty rfl hstart with ⟨hgoes, hstep⟩
  rcases hstep.finished with ⟨hreceived, htaken⟩
  generalize (F.wire messages).foldl (feed F) empty = box at hgoes hreceived htaken
  cases box
  cases hgoes
  cases hreceived
  cases htaken
  rfl

theorem foldl_feed_failed (box : Inbox Symbol Message) (input : List Symbol)
    (h : box.failed = true) : input.foldl (feed F) box = box := by
  induction input with
  | nil => rfl
  | cons symbol input ih =>
      have hfeed : feed F box symbol = box := by
        unfold feed
        rw [if_pos h]
      rw [List.foldl_cons, hfeed, ih]

/-- Of a message beyond the limit nothing is received, and the reader stops. -/
theorem foldl_feed_oversized (hframed : F.Framed message) (hlimit : F.limit < F.size message)
    (box : Inbox Symbol Message) (hgoes : box.failed = false) (hreceived : box.received = [])
    (hshort : box.taken.length < F.width) (hframe : box.taken ++ rest = F.frame message) :
    (rest.foldl (feed F) box).received = [] ∧ (rest.foldl (feed F) box).failed = true := by
  induction rest generalizing box with
  | nil =>
      have hlength := congrArg List.length hframe
      rw [List.append_nil, frame_length] at hlength
      omega
  | cons symbol rest ih =>
      have hinit : box.taken ++ [symbol] <+: F.frame message := by
        rw [← hframe]
        exact ⟨rest, by simp⟩
      have hadvance := advance_oversized hframed hlimit hinit
      rw [List.foldl_cons]
      by_cases hlt : (box.taken ++ [symbol]).length < F.width
      · rw [if_pos hlt] at hadvance
        have hfeed : feed F box symbol = { box with taken := box.taken ++ [symbol] } := by
          unfold feed
          rw [hgoes, hadvance]
          rfl
        have hrest : (box.taken ++ [symbol]) ++ rest = F.frame message := by
          rw [← hframe]
          simp
        rw [hfeed]
        exact ih { box with taken := box.taken ++ [symbol] } hgoes hreceived hlt hrest
      · rw [if_neg hlt] at hadvance
        have hfeed : feed F box symbol = { box with failed := true } := by
          unfold feed
          rw [hgoes, hadvance]
          rfl
        rw [hfeed, foldl_feed_failed _ _ rfl]
        exact ⟨hreceived, rfl⟩

end Inbox

end Framing
end Foundation
end VisionCore
