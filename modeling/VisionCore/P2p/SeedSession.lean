import VisionCore.P2p.SessionSafety

/-!
# The session with a seed peer

The session loop of an outbound connection, from its registration on.  A round sends
what is queued, polls the height of the peer, catches up over connections of its own,
and sends a ping.  Every other message that a poll or the wait for the pong reads goes
to `handle_seed_session_message`.
-/

namespace VisionCore

open Foundation Foundation.Exchange

structure SeedEnds where
  peerAddr : String
  generation : UInt64

inductive SeedPhase where
  /-- At the head of the loop. -/
  | top
  /-- Inside `poll_peer_height`, with the reads that are left. -/
  | polling (left : Nat)
  /-- Behind the poll, before the ping. -/
  | polled
  | pinged
deriving DecidableEq

structure SeedSession where
  phase : SeedPhase
  requestedBlockHash : Option String
deriving DecidableEq

inductive SeedInput where
  /-- The session's queue holds a message. -/
  | outbound (announcement : AnnounceBlock)
  | poll
  | message (message : P2PMessage)
  /-- The read fails, or its timer runs out. -/
  | readError
  /-- The catch-up is over, and whether it went well. -/
  | heartbeat (caughtUp : Bool) (timestamp : UInt64)

def heightPollMaxMessages : Nat := 8

/-- The state of the request behind the message, none when it is an error. -/
def handleSeedSessionMessage (around : Surroundings) (peerAddr : String)
    (requestedBlockHash : Option String) (message : P2PMessage) :
    List SessionAction × Option (Option String) :=
  match message with
  | .announceBlock announcement =>
      if isCanonicalHash announcement.hash = false ∨ isCanonicalHash announcement.prev = false
      then ([], none)
      else if (around.chain.blockByHash announcement.hash).isNone ∧ requestedBlockHash.isNone then
        ([.sent (.getBlock announcement.hash)],
          if around.sendOk 0 then some (some announcement.hash) else none)
      else ([], some requestedBlockHash)
  | .getBlock hash =>
      match around.chain.blockByHash hash with
      | none => ([], none)
      | some blk => ([.sent (.block blk)], if around.sendOk 0 then some requestedBlockHash else none)
  | .block blk =>
      match requestedBlockHash with
      | none => ([], none)
      | some expectedHash =>
          if blk.hash ≠ expectedHash then ([], none)
          else
            match around.importer with
            | some true => ([.queued blk peerAddr], some none)
            | _ => ([], none)
  | .getHeight =>
      ([.sent (.height (ChainSummary.fromChain around.chain))],
        if around.sendOk 0 then some requestedBlockHash else none)
  | .ping timestamp =>
      ([.sent (.pong timestamp)], if around.sendOk 0 then some requestedBlockHash else none)
  | .pong _ | .height _ => ([], some requestedBlockHash)
  | .disconnect _ => ([], none)
  | .handshake _ => ([], none)

namespace SeedSession

def start : SeedSession :=
  { phase := .top
    requestedBlockHash := none }

abbrev Outcome : Type :=
  List SessionAction × Option SeedSession

/-- Send a message; the session goes on in `phase` if that succeeds. -/
def send (around : Surroundings) (message : P2PMessage) (phase : SeedPhase) (s : SeedSession) :
    Outcome :=
  ([.sent message], if around.sendOk 0 then some { s with phase := phase } else none)

/-- Hand a message to `handle_seed_session_message`; without an error the session goes on
in `phase`, if there is one. -/
def handle (around : Surroundings) (ends : SeedEnds) (message : P2PMessage)
    (phase : Option SeedPhase) (s : SeedSession) : Outcome :=
  match handleSeedSessionMessage around ends.peerAddr s.requestedBlockHash message with
  | (actions, none) => (actions, none)
  | (actions, some requestedBlockHash) =>
      (actions, phase.map fun phase =>
        { phase := phase
          requestedBlockHash := requestedBlockHash })

/-- The phase of a poll that goes on after a read, none when the limit is reached. -/
def pollAgain (left : Nat) : Option SeedPhase :=
  if left ≤ 1 then none else some (.polling (left - 1))

/-- A read of `poll_peer_height`. -/
def pollPeerHeight (around : Surroundings) (ends : SeedEnds) (left : Nat) (s : SeedSession)
    (message : P2PMessage) : Outcome :=
  match message with
  | .height summary =>
      ([.peer (.noteSummaryFrom ends.peerAddr summary none none)],
        some { s with phase := .polled })
  | .getHeight =>
      ([.sent (.height (ChainSummary.fromChain around.chain))],
        if around.sendOk 0 then (pollAgain left).map fun phase => { s with phase := phase }
        else none)
  | .ping timestamp =>
      ([.sent (.pong timestamp)],
        if around.sendOk 0 then (pollAgain left).map fun phase => { s with phase := phase }
        else none)
  | .disconnect _ => ([], none)
  | other => handle around ends other (pollAgain left) s

/-- The read behind the ping. -/
def awaitPong (around : Surroundings) (ends : SeedEnds) (s : SeedSession)
    (message : P2PMessage) : Outcome :=
  match message with
  | .pong _ => ([], some { s with phase := .top })
  | other => handle around ends other (some .top) s

def step (ends : SeedEnds) (around : Surroundings) (s : SeedSession) : SeedInput -> Outcome
  | .outbound announcement =>
      match s.phase with
      | .top => send around (.announceBlock announcement) .top s
      | _ => ([], some s)
  | .poll =>
      match s.phase with
      | .top =>
          let (actions, next) := send around .getHeight (.polling heightPollMaxMessages) s
          (.peer (.heightPollSent ends.peerAddr) :: actions, next)
      | _ => ([], some s)
  | .message message =>
      match s.phase with
      | .polling left =>
          let (actions, next) := pollPeerHeight around ends left s message
          (.received message :: actions, next)
      | .pinged =>
          let (actions, next) := awaitPong around ends s message
          (.received message :: actions, next)
      | _ => ([], some s)
  | .readError =>
      match s.phase with
      | .polling _ | .pinged => ([], none)
      | _ => ([], some s)
  | .heartbeat caughtUp timestamp =>
      match s.phase with
      | .polled => if caughtUp then send around (.ping timestamp) .pinged s else ([], none)
      | _ => ([], some s)

/-- What the loop leaves to do when it ends. -/
def close (ends : SeedEnds) (around : Surroundings) : List SessionAction :=
  .unregistered ends.peerAddr ends.generation ::
    match around.latestGeneration with
    | some latest => [.peer (.disconnectIfGeneration ends.peerAddr latest)]
    | none => []

/-- The session on a sequence of inputs; the state is none once it has ended. -/
def run (ends : SeedEnds) : SeedSession -> List (SeedInput × Surroundings) -> Outcome
  | s, [] => ([], some s)
  | s, (input, around) :: rest =>
      match step ends around s input with
      | (actions, none) => (actions ++ close ends around, none)
      | (actions, some s') =>
          let (later, last) := run ends s' rest
          (actions ++ later, last)

/-!
# Requests
-/

section Steps

variable {around : Surroundings} {ends : SeedEnds} {s : SeedSession} {message : P2PMessage}
  {requestedBlockHash : Option String} {peerAddr : String}

/-- Actions without request traffic leave the request as it is. -/
theorem allows_quiet {actions : List SessionAction} {after : Option (Option String)}
    (hactions : SessionAction.exchanges actions = [])
    (hafter : forall requested, after = some requested -> requested = requestedBlockHash) :
    Slot.Allows Block.hash requestedBlockHash (SessionAction.exchanges actions) after := by
  rw [hactions]
  cases after with
  | none => exact Slot.allows_nil.stop
  | some requested =>
      rw [hafter requested rfl]
      exact Slot.allows_nil

theorem eq_of_sent {sendOk : Bool} {requested : Option String}
    (h : (if sendOk then some requestedBlockHash else none) = some requested) :
    requested = requestedBlockHash := by
  split at h
  · exact (Option.some.inj h).symm
  · cases h

theorem handleSeedSessionMessage_stray {blk : Block} (h : requestedBlockHash ≠ some blk.hash) :
    handleSeedSessionMessage around peerAddr requestedBlockHash (.block blk) = ([], none) := by
  unfold handleSeedSessionMessage
  cases requestedBlockHash with
  | none => rfl
  | some expectedHash =>
      dsimp only
      rw [if_pos fun heq => h (congrArg some heq.symm)]

theorem handleSeedSessionMessage_allowed :
    Slot.Allows Block.hash requestedBlockHash
      (SessionAction.exchanges (.received message ::
        (handleSeedSessionMessage around peerAddr requestedBlockHash message).1))
      (handleSeedSessionMessage around peerAddr requestedBlockHash message).2 := by
  cases message with
  | block blk =>
      by_cases hrequested : requestedBlockHash = some blk.hash
      · unfold handleSeedSessionMessage
        rw [hrequested]
        dsimp only
        rw [if_neg (not_not_intro rfl)]
        split
        · exact Slot.allows_deliver
        · exact Slot.allows_answer.stop
      · rw [handleSeedSessionMessage_stray hrequested]
        exact Slot.allows_answer.stop
  | announceBlock announcement =>
      unfold handleSeedSessionMessage
      dsimp only
      split
      · exact allows_quiet rfl fun requested heq => by cases heq
      · split
        · rename_i hunknown
          rw [Option.isNone_iff_eq_none.mp hunknown.2]
          dsimp only
          split
          · exact Slot.allows_ask
          · exact Slot.allows_ask.stop
        · exact allows_quiet rfl fun requested heq => (Option.some.inj heq).symm
  | getBlock hash =>
      unfold handleSeedSessionMessage
      dsimp only
      split
      · exact allows_quiet rfl fun requested heq => by cases heq
      · exact allows_quiet rfl fun requested heq => eq_of_sent heq
  | getHeight => exact allows_quiet rfl fun requested heq => eq_of_sent heq
  | ping timestamp => exact allows_quiet rfl fun requested heq => eq_of_sent heq
  | pong timestamp => exact allows_quiet rfl fun requested heq => (Option.some.inj heq).symm
  | height summary => exact allows_quiet rfl fun requested heq => (Option.some.inj heq).symm
  | disconnect reason => exact allows_quiet rfl fun requested heq => by cases heq
  | handshake remote => exact allows_quiet rfl fun requested heq => by cases heq

theorem handle_allowed (around : Surroundings) (ends : SeedEnds) (message : P2PMessage)
    (phase : Option SeedPhase) :
    Slot.Allows Block.hash s.requestedBlockHash
      (SessionAction.exchanges (.received message :: (handle around ends message phase s).1))
      ((handle around ends message phase s).2.map SeedSession.requestedBlockHash) := by
  have hallowed : Slot.Allows Block.hash s.requestedBlockHash
      (SessionAction.exchanges (.received message ::
        (handleSeedSessionMessage around ends.peerAddr s.requestedBlockHash message).1))
      (handleSeedSessionMessage around ends.peerAddr s.requestedBlockHash message).2 :=
    handleSeedSessionMessage_allowed
  unfold handle
  cases hresult : handleSeedSessionMessage around ends.peerAddr s.requestedBlockHash message with
  | mk actions after =>
      rw [hresult] at hallowed
      cases after with
      | none => exact hallowed
      | some requested =>
          cases phase with
          | none => exact hallowed.stop
          | some phase => exact hallowed

theorem map_phase {phase : Option SeedPhase} {requested : Option String}
    (h : (phase.map fun phase => { s with phase := phase }).map SeedSession.requestedBlockHash =
      some requested) : requested = s.requestedBlockHash := by
  cases phase with
  | none => cases h
  | some phase => exact (Option.some.inj h).symm

theorem map_sent {sendOk : Bool} {next : Option SeedSession} {requested : Option String}
    (hnext : forall requested, next.map SeedSession.requestedBlockHash = some requested ->
      requested = s.requestedBlockHash)
    (h : (if sendOk then next else none).map SeedSession.requestedBlockHash = some requested) :
    requested = s.requestedBlockHash := by
  split at h
  · exact hnext requested h
  · cases h

theorem pollPeerHeight_allowed (left : Nat) :
    Slot.Allows Block.hash s.requestedBlockHash
      (SessionAction.exchanges (.received message :: (pollPeerHeight around ends left s message).1))
      ((pollPeerHeight around ends left s message).2.map SeedSession.requestedBlockHash) := by
  cases message with
  | height summary => exact allows_quiet rfl fun requested heq => (Option.some.inj heq).symm
  | getHeight =>
      exact allows_quiet rfl fun requested heq => map_sent (fun _ => map_phase) heq
  | ping timestamp =>
      exact allows_quiet rfl fun requested heq => map_sent (fun _ => map_phase) heq
  | disconnect reason => exact allows_quiet rfl fun requested heq => by cases heq
  | handshake remote => exact handle_allowed around ends _ (pollAgain left)
  | pong timestamp => exact handle_allowed around ends _ (pollAgain left)
  | announceBlock announcement => exact handle_allowed around ends _ (pollAgain left)
  | getBlock hash => exact handle_allowed around ends _ (pollAgain left)
  | block blk => exact handle_allowed around ends _ (pollAgain left)

theorem awaitPong_allowed :
    Slot.Allows Block.hash s.requestedBlockHash
      (SessionAction.exchanges (.received message :: (awaitPong around ends s message).1))
      ((awaitPong around ends s message).2.map SeedSession.requestedBlockHash) := by
  cases message with
  | pong timestamp => exact allows_quiet rfl fun requested heq => (Option.some.inj heq).symm
  | height summary => exact handle_allowed around ends _ (some .top)
  | getHeight => exact handle_allowed around ends _ (some .top)
  | ping timestamp => exact handle_allowed around ends _ (some .top)
  | disconnect reason => exact handle_allowed around ends _ (some .top)
  | handshake remote => exact handle_allowed around ends _ (some .top)
  | announceBlock announcement => exact handle_allowed around ends _ (some .top)
  | getBlock hash => exact handle_allowed around ends _ (some .top)
  | block blk => exact handle_allowed around ends _ (some .top)

/-- A message that is sent between two reads. -/
theorem send_allowed {sent : P2PMessage} {phase : SeedPhase}
    (hsent : SessionAction.exchange (.sent sent) = none) :
    Slot.Allows Block.hash s.requestedBlockHash
      (SessionAction.exchanges (send around sent phase s).1)
      ((send around sent phase s).2.map SeedSession.requestedBlockHash) := by
  apply allows_quiet
  · exact List.filterMap_cons_none hsent
  · intro requested heq
    apply map_sent _ heq
    intro requested hsame
    cases hsame
    rfl

theorem step_allowed (input : SeedInput) :
    Slot.Allows Block.hash s.requestedBlockHash
      (SessionAction.exchanges (step ends around s input).1)
      ((step ends around s input).2.map SeedSession.requestedBlockHash) := by
  have hidle : Slot.Allows Block.hash s.requestedBlockHash (SessionAction.exchanges [])
      ((some s).map SeedSession.requestedBlockHash) := Slot.allows_nil
  unfold step
  cases input with
  | outbound announcement =>
      cases s.phase with
      | top => exact send_allowed (by rfl)
      | polling left => exact hidle
      | polled => exact hidle
      | pinged => exact hidle
  | poll =>
      have hpoll : Slot.Allows Block.hash s.requestedBlockHash
          (SessionAction.exchanges
            (send around .getHeight (.polling heightPollMaxMessages) s).1)
          ((send around .getHeight (.polling heightPollMaxMessages) s).2.map
            SeedSession.requestedBlockHash) := send_allowed rfl
      cases s.phase with
      | top => exact hpoll
      | polling left => exact hidle
      | polled => exact hidle
      | pinged => exact hidle
  | message message =>
      cases s.phase with
      | top => exact hidle
      | polling left => exact pollPeerHeight_allowed left
      | polled => exact hidle
      | pinged => exact awaitPong_allowed
  | readError =>
      cases s.phase with
      | top => exact hidle
      | polling left => exact hidle.stop
      | polled => exact hidle
      | pinged => exact hidle.stop
  | heartbeat caughtUp timestamp =>
      cases s.phase with
      | top => exact hidle
      | polling left => exact hidle
      | polled =>
          cases caughtUp with
          | true => exact send_allowed (by rfl)
          | false => exact hidle.stop
      | pinged => exact hidle

/-- A block that was not asked for ends the session, whichever read it reaches. -/
theorem step_stray {blk : Block} (h : s.requestedBlockHash ≠ some blk.hash) :
    step ends around s (.message (.block blk)) = ([.received (.block blk)], none) ∨
      step ends around s (.message (.block blk)) = ([], some s) := by
  have hhandle : forall phase,
      handle around ends (.block blk) phase s = ([], none) := by
    intro phase
    unfold handle
    rw [handleSeedSessionMessage_stray h]
  unfold step
  cases s.phase with
  | top => exact Or.inr rfl
  | polled => exact Or.inr rfl
  | polling left =>
      apply Or.inl
      have hpoll : pollPeerHeight around ends left s (.block blk) = ([], none) := hhandle _
      dsimp only
      rw [hpoll]
  | pinged =>
      apply Or.inl
      have hpong : awaitPong around ends s (.block blk) = ([], none) := hhandle _
      dsimp only
      rw [hpong]

end Steps

/-!
# Whole sessions
-/

section Runs

variable {ends : SeedEnds} {s : SeedSession}

theorem exchanges_close (ends : SeedEnds) (around : Surroundings) :
    SessionAction.exchanges (close ends around) = [] := by
  unfold close
  cases around.latestGeneration with
  | none => rfl
  | some latest => rfl

theorem run_allowed (inputs : List (SeedInput × Surroundings)) :
    Slot.Allows Block.hash s.requestedBlockHash
      (SessionAction.exchanges (run ends s inputs).1)
      ((run ends s inputs).2.map SeedSession.requestedBlockHash) := by
  induction inputs generalizing s with
  | nil => exact Slot.allows_nil
  | cons entry rest ih =>
      rcases entry with ⟨input, around⟩
      have hstep : Slot.Allows Block.hash s.requestedBlockHash
          (SessionAction.exchanges (step ends around s input).1)
          ((step ends around s input).2.map SeedSession.requestedBlockHash) := step_allowed input
      unfold run
      cases hresult : step ends around s input with
      | mk actions next =>
          rw [hresult] at hstep
          cases next with
          | none =>
              dsimp only at hstep ⊢
              rw [SessionAction.exchanges_append, exchanges_close, List.append_nil]
              exact hstep
          | some s' =>
              dsimp only at hstep ⊢
              rw [SessionAction.exchanges_append]
              exact hstep.append ih

/-- The guarantees of a session whose loop has done `log` and is now in `last`. -/
structure Safety (ends : SeedEnds) (log : List SessionAction) (last : Option SeedSession) :
    Prop where
  disciplined : Disciplined Block.hash (SessionAction.exchanges log)
  onePerRequest : forall hash, delivered Block.hash hash (SessionAction.exchanges log) ≤
    asked hash (SessionAction.exchanges log)
  stray : forall s around blk, last = some s ->
    outstanding (SessionAction.exchanges log) ≠ [blk.hash] ->
      step ends around s (.message (.block blk)) = ([.received (.block blk)], none) ∨
        step ends around s (.message (.block blk)) = ([], some s)

theorem run_safety (ends : SeedEnds) (inputs : List (SeedInput × Surroundings)) :
    Safety ends (run ends start inputs).1 (run ends start inputs).2 := by
  have hallowed : Slot.Allows Block.hash none
      (SessionAction.exchanges (run ends start inputs).1)
      ((run ends start inputs).2.map SeedSession.requestedBlockHash) := run_allowed (s := start) inputs
  rcases hallowed.follows with ⟨hdisciplined, hpending⟩
  refine ⟨hdisciplined, fun hash => hdisciplined.delivered_le hash, ?_⟩
  intro s around blk hlast hstray
  apply step_stray
  intro hrequested
  have hopen := hpending s.requestedBlockHash (by rw [hlast]; rfl)
  rw [hrequested] at hopen
  exact hstray hopen

end Runs

end SeedSession

/-- Inbound sessions keep the session protocol, and outbound ones its request rules. -/
theorem sessionProtocol_safe (P : Platform) :
    (forall (ends : InboundEnds) (inputs : List (SessionInput × Surroundings)),
      InboundSession.Safety P ends (InboundSession.run P ends .start inputs).1
        (InboundSession.run P ends .start inputs).2) ∧
      forall (ends : SeedEnds) (inputs : List (SeedInput × Surroundings)),
        SeedSession.Safety ends (SeedSession.run ends .start inputs).1
          (SeedSession.run ends .start inputs).2 :=
  ⟨InboundSession.run_safety P, SeedSession.run_safety⟩

end VisionCore
