import VisionCore.P2p.Frames
import VisionCore.P2p.InboundSession

/-!
# The byte stream of an inbound connection

The handler reads its messages from a stream of bytes.  Its loop races a read against
the queue of the session, and the summary refresh races one against a timer.  A read
that loses is dropped together with the bytes it has taken.
-/

namespace VisionCore

open Foundation

/-- The session's queue is polled beside the stream. -/
def InboundSession.pollsQueue (session : InboundSession) : Bool :=
  session.activeSession.isSome && session.refresh.isNone

theorem InboundSession.step_closed {P : Platform} {ends : InboundEnds} {around : Surroundings}
    (session : InboundSession) (h : session.pollsQueue = true) :
    (session.step P ends around .outboundClosed).2 = none := by
  unfold pollsQueue at h
  rcases Bool.and_eq_true_iff.mp h with ⟨hactive, hrefresh⟩
  have hopen : ¬(session.activeSession.isNone = true ∨ session.refresh.isSome = true) := by
    rintro (hnone | hsome)
    · rw [Option.isNone_iff_eq_none.mp hnone] at hactive
      cases hactive
    · rw [Option.isNone_iff_eq_none.mp hrefresh] at hsome
      cases hsome
  unfold step
  dsimp only
  rw [if_neg hopen]

structure InboundStream where
  session : Option InboundSession
  /-- What the pending read has taken of the stream. -/
  taken : Bytes
  /-- What has arrived and is not yet read. -/
  buffer : Bytes
  decoded : List P2PMessage
  closed : Bool

inductive StreamEvent where
  | arrive (bytes : Bytes)
  /-- The pending read takes the next byte. -/
  | read
  | outbound (announcement : AnnounceBlock)
  | outboundClosed
  /-- The timer of the summary refresh. -/
  | timeout
  | eof

/-- The bytes that arrive in an event. -/
def StreamEvent.arrival : StreamEvent -> Bytes
  | arrive bytes => bytes
  | _ => []

namespace InboundStream

def start : InboundStream :=
  { session := some InboundSession.start
    taken := []
    buffer := []
    decoded := []
    closed := false }

/-- The pending read ends without a message. -/
def cancel (P : Platform) (ends : InboundEnds) (around : Surroundings) (s : InboundStream)
    (session : InboundSession) (input : SessionInput) : InboundStream :=
  { s with
    session := (session.step P ends around input).2
    taken := [] }

def readByte (P : Platform) (ends : InboundEnds) (around : Surroundings) (s : InboundStream)
    (session : InboundSession) : InboundStream :=
  match s.buffer with
  | [] => s
  | byte :: buffer =>
      match recvMessage s.taken byte with
      | .pending taken =>
          { s with
            taken := taken
            buffer := buffer }
      | .received message =>
          { s with
            session := (session.step P ends around (.message message)).2
            taken := []
            buffer := buffer
            decoded := s.decoded ++ [message] }
      | .oversized _ | .malformed =>
          { s.cancel P ends around session .readError with buffer := buffer }

def step (P : Platform) (ends : InboundEnds) (around : Surroundings) (s : InboundStream)
    (event : StreamEvent) : InboundStream :=
  match s.session with
  | none => s
  | some session =>
      match event with
      | .arrive bytes => if s.closed then s else { s with buffer := s.buffer ++ bytes }
      | .read => s.readByte P ends around session
      | .outbound announcement =>
          if session.pollsQueue then s.cancel P ends around session (.outbound announcement) else s
      | .outboundClosed =>
          if session.pollsQueue then s.cancel P ends around session .outboundClosed else s
      | .timeout =>
          if session.refresh.isSome then s.cancel P ends around session .readError else s
      | .eof =>
          if s.buffer.isEmpty then { s.cancel P ends around session .readError with closed := true }
          else s

def run (P : Platform) (ends : InboundEnds) (s : InboundStream)
    (events : List (StreamEvent × Surroundings)) : InboundStream :=
  events.foldl (fun s event => s.step P ends event.2 event.1) s

def arrivals (events : List (StreamEvent × Surroundings)) : Bytes :=
  events.flatMap fun event => event.1.arrival

/-- So many reads in the same surroundings. -/
def reads (around : Surroundings) (n : Nat) : List (StreamEvent × Surroundings) :=
  List.replicate n (.read, around)

/-!
# What may be dropped
-/

/-- A read is dropped between two frames only, and the refresh meets no frame beyond
the limit. -/
def Calm (s : InboundStream) (event : StreamEvent) : Prop :=
  forall session, s.session = some session ->
    match event with
    | .outbound _ => session.pollsQueue = true -> s.taken = []
    | .timeout => session.refresh.isSome = true -> s.taken = []
    | .read =>
        session.refresh.isSome = true -> forall byte, s.buffer.head? = some byte ->
          forall length, recvMessage s.taken byte ≠ .oversized length
    | _ => True

/-- All steps of a run are calm. -/
inductive CalmRun (P : Platform) (ends : InboundEnds) :
    InboundStream -> List (StreamEvent × Surroundings) -> Prop where
  | nil (s : InboundStream) : CalmRun P ends s []
  | cons {s : InboundStream} {event : StreamEvent} {around : Surroundings}
      {events : List (StreamEvent × Surroundings)} (hcalm : s.Calm event)
      (hrest : CalmRun P ends (s.step P ends around event) events) :
      CalmRun P ends s ((event, around) :: events)

/-- What has been decoded are the first of the messages, and as long as the handler reads
it is in step with the peer, who has `later` still to deliver. -/
structure Aligned (messages : List P2PMessage) (later : Bytes) (s : InboundStream) : Prop where
  decoded : s.decoded <+: messages
  reading : s.session = none ∨ (s.closed = true ∧ s.buffer = []) ∨
    s.closed = false ∧ p2pFraming.InStep messages s.decoded s.taken (s.buffer ++ later)

section Runs

variable {P : Platform} {ends : InboundEnds} {around : Surroundings} {s : InboundStream}
  {session : InboundSession} {event : StreamEvent} {events : List (StreamEvent × Surroundings)}
  {messages : List P2PMessage} {later : Bytes}

theorem step_ended (h : s.session = none) : s.step P ends around event = s := by
  unfold step
  rw [h]

theorem aligned_start (messages : List P2PMessage) :
    Aligned messages (messages.flatMap sendMessage) start :=
  ⟨List.nil_prefix, Or.inr (Or.inr ⟨rfl, Framing.InStep.start p2pFraming messages⟩)⟩

theorem Aligned.cancel {input : SessionInput} (h : Aligned messages later s)
    (hopen : s.session = some session) (htaken : s.taken = []) :
    Aligned messages later (s.cancel P ends around session input) := by
  refine ⟨h.decoded, ?_⟩
  rcases h.reading with hended | hclosed | hreading
  · rw [hopen] at hended
    cases hended
  · exact Or.inr (Or.inl hclosed)
  · rw [htaken] at hreading
    exact Or.inr (Or.inr hreading)

/-- A handler that has left its loop is aligned whatever it has dropped. -/
theorem Aligned.ended {t : InboundStream} {others : Bytes} (h : Aligned messages others s)
    (hended : t.session = none) (hsame : t.decoded = s.decoded) : Aligned messages later t :=
  ⟨by rw [hsame]; exact h.decoded, Or.inl hended⟩

theorem Aligned.readByte (hframed : forall msg, msg ∈ messages -> p2pFraming.Framed msg)
    (h : Aligned messages later s) (hopen : s.session = some session)
    (hcalm : s.Calm .read) : Aligned messages later (s.readByte P ends around session) := by
  unfold InboundStream.readByte
  cases hbuffer : s.buffer with
  | nil => exact h
  | cons byte buffer =>
      dsimp only
      rcases h.reading with hended | hclosed | ⟨hstill, hstep⟩
      · rw [hopen] at hended
        cases hended
      · rw [hbuffer] at hclosed
        cases hclosed.2
      · rw [hbuffer, List.cons_append] at hstep
        rcases hstep.advance hframed with ⟨taken, hread, hnext⟩ | ⟨msg, hread, hnext⟩ |
          ⟨msg, _, _, hread⟩
        · have hrecv : recvMessage s.taken byte = .pending taken := hread
          rw [hrecv]
          exact ⟨h.decoded, Or.inr (Or.inr ⟨hstill, hnext⟩)⟩
        · have hrecv : recvMessage s.taken byte = .received msg := hread
          rw [hrecv]
          exact ⟨hnext.received_prefix, Or.inr (Or.inr ⟨hstill, hnext⟩)⟩
        · have hrecv : recvMessage s.taken byte = .oversized (p2pFraming.size msg) := hread
          rw [hrecv]
          -- Outside of the refresh the error ends the handler.
          cases hrefresh : session.refresh with
          | some left =>
              have hhead : s.buffer.head? = some byte := by
                rw [hbuffer]
                rfl
              have hsome : session.refresh.isSome = true := by
                rw [hrefresh]
                rfl
              exact absurd hrecv (hcalm session hopen hsome byte hhead _)
          | none =>
              apply h.ended
              · unfold InboundStream.cancel InboundSession.step
                rw [hrefresh]
              · rfl

theorem Aligned.step (hframed : forall msg, msg ∈ messages -> p2pFraming.Framed msg)
    (h : Aligned messages (event.arrival ++ later) s) (hcalm : s.Calm event) :
    Aligned messages later (s.step P ends around event) := by
  cases hopen : s.session with
  | none =>
      rw [step_ended hopen]
      exact h.ended hopen rfl
  | some session =>
      unfold InboundStream.step
      rw [hopen]
      dsimp only
      have hcalm' := hcalm session hopen
      cases event with
      | arrive bytes =>
          dsimp only
          rcases h.reading with hended | ⟨hclosed, hempty⟩ | ⟨hstill, hstep⟩
          · rw [hopen] at hended
            cases hended
          · rw [if_pos hclosed]
            exact ⟨h.decoded, Or.inr (Or.inl ⟨hclosed, hempty⟩)⟩
          · rw [if_neg (by rw [hstill]; exact Bool.false_ne_true)]
            refine ⟨h.decoded, Or.inr (Or.inr ⟨hstill, ?_⟩)⟩
            rw [List.append_assoc]
            exact hstep
      | read => exact h.readByte hframed hopen hcalm
      | outbound announcement =>
          dsimp only
          split
          · rename_i hpolls
            exact h.cancel hopen (hcalm' hpolls)
          · exact h
      | outboundClosed =>
          dsimp only
          split
          · rename_i hpolls
            exact h.ended (session.step_closed hpolls) rfl
          · exact h
      | timeout =>
          dsimp only
          split
          · rename_i hrefresh
            exact h.cancel hopen (hcalm' hrefresh)
          · exact h
      | eof =>
          dsimp only
          split
          · rename_i hempty
            exact ⟨h.decoded, Or.inr (Or.inl ⟨rfl, List.isEmpty_iff.mp hempty⟩)⟩
          · exact h

theorem run_aligned (hframed : forall msg, msg ∈ messages -> p2pFraming.Framed msg)
    (h : Aligned messages (arrivals events ++ later) s) (hcalm : CalmRun P ends s events)
    (n : Nat) : exists others, Aligned messages others (run P ends s (events.take n)) := by
  induction events generalizing s n with
  | nil =>
      rw [List.take_nil]
      exact ⟨_, h⟩
  | cons event events ih =>
      cases n with
      | zero => exact ⟨_, h⟩
      | succ n =>
          have harrivals : arrivals (event :: events) ++ later =
              event.1.arrival ++ (arrivals events ++ later) := by
            unfold arrivals
            rw [List.flatMap_cons, List.append_assoc]
          rw [harrivals] at h
          cases hcalm with
          | cons hfirst hrest => exact ih (h.step hframed hfirst) hrest n

/-- A peer that keeps to the limit never has a frame refused. -/
theorem Aligned.calm_read (hframed : forall msg, msg ∈ messages -> p2pFraming.Framed msg)
    (hlimit : forall msg, msg ∈ messages -> p2pFraming.size msg ≤ maxMessageBytes)
    (h : Aligned messages later s) : s.Calm .read := by
  intro session hopen _ byte hhead length hread
  cases hbuffer : s.buffer with
  | nil =>
      rw [hbuffer] at hhead
      cases hhead
  | cons first buffer =>
      rw [hbuffer] at hhead
      cases hhead
      rcases h.reading with hended | ⟨_, hempty⟩ | ⟨_, hstep⟩
      · rw [hopen] at hended
        cases hended
      · rw [hbuffer] at hempty
        cases hempty
      · rw [hbuffer, List.cons_append] at hstep
        have hadvance : p2pFraming.advance s.taken byte = .oversized length := hread
        rcases hstep.advance hframed with ⟨_, hnext, _⟩ | ⟨_, hnext, _⟩ | ⟨msg, hmem, hlarge, _⟩
        · rw [hadvance] at hnext
          cases hnext
        · rw [hadvance] at hnext
          cases hnext
        · exact absurd hlarge (Nat.not_lt.mpr (hlimit msg hmem))

theorem Aligned.calmRun_reads (hframed : forall msg, msg ∈ messages -> p2pFraming.Framed msg)
    (hlimit : forall msg, msg ∈ messages -> p2pFraming.size msg ≤ maxMessageBytes)
    (h : Aligned messages later s) (n : Nat) : CalmRun P ends s (reads around n) := by
  induction n generalizing s with
  | zero => exact CalmRun.nil s
  | succ n ih =>
      have hcalm := h.calm_read hframed hlimit
      exact CalmRun.cons hcalm (ih (@Aligned.step P ends around s .read messages later hframed h hcalm))

theorem calmRun_append {others : List (StreamEvent × Surroundings)}
    (hfirst : CalmRun P ends s events) (hsecond : CalmRun P ends (run P ends s events) others) :
    CalmRun P ends s (events ++ others) := by
  induction events generalizing s with
  | nil => exact hsecond
  | cons event events ih =>
      cases hfirst with
      | cons hcalm hrest => exact CalmRun.cons hcalm (ih hrest hsecond)

/-- Whatever the timing, as long as no read is dropped within a frame, the decoded
messages are the first ones of those that the peer has sent. -/
theorem decoded_prefix (htyped : forall msg, msg ∈ messages -> msg.Typed)
    (hsize : forall msg, msg ∈ messages -> p2pFraming.size msg < 2 ^ 32)
    (harrived : arrivals events <+: messages.flatMap sendMessage)
    (hcalm : CalmRun P ends start events) (n : Nat) :
    (run P ends start (events.take n)).decoded <+: messages := by
  have hframed : forall msg, msg ∈ messages -> p2pFraming.Framed msg :=
    fun msg hmem => framed_of_size (htyped msg hmem) (hsize msg hmem)
  rcases harrived with ⟨later, hlater⟩
  have hstart : Aligned messages (arrivals events ++ later) start := by
    rw [hlater]
    exact aligned_start messages
  rcases run_aligned hframed hstart hcalm n with ⟨others, haligned⟩
  exact haligned.decoded

/-!
# Reading a frame
-/

theorem run_cons {around : Surroundings} :
    run P ends s ((event, around) :: events) = run P ends (s.step P ends around event) events :=
  rfl

theorem run_append {others : List (StreamEvent × Surroundings)} :
    run P ends s (events ++ others) = run P ends (run P ends s events) others := by
  unfold run
  rw [List.foldl_append]

/-- Within a frame the reads only take its bytes. -/
theorem run_reads_pending {msg : P2PMessage} (hframed : p2pFraming.Framed msg)
    (hlimit : p2pFraming.size msg ≤ maxMessageBytes) (hopen : s.session = some session)
    {piece : Bytes} (hbuffer : s.buffer = piece ++ later)
    (hinit : s.taken ++ piece <+: sendMessage msg)
    (hshort : (s.taken ++ piece).length < (sendMessage msg).length) :
    run P ends s (reads around piece.length) =
      { s with
        taken := s.taken ++ piece
        buffer := later } := by
  induction piece generalizing s with
  | nil =>
      rw [List.nil_append] at hbuffer
      rw [List.append_nil, ← hbuffer]
      rfl
  | cons byte piece ih =>
      have hsplit : s.taken ++ byte :: piece = (s.taken ++ [byte]) ++ piece := by
        rw [List.append_assoc]
        rfl
      rw [hsplit] at hinit hshort
      have hlt : (s.taken ++ [byte]).length < (sendMessage msg).length := by
        rw [List.length_append] at hshort
        omega
      have hread : recvMessage s.taken byte = .pending (s.taken ++ [byte]) := by
        rw [recvMessage_frame hframed hlimit ((List.prefix_append _ piece).trans hinit),
          if_pos hlt]
      have hstep : s.step P ends around .read =
          { s with
            taken := s.taken ++ [byte]
            buffer := piece ++ later } := by
        unfold InboundStream.step readByte
        rw [hopen]
        dsimp only
        rw [hbuffer, List.cons_append]
        dsimp only
        rw [hread]
      have hreads : run P ends s (reads around (byte :: piece).length) =
          run P ends (s.step P ends around .read) (reads around piece.length) := rfl
      have hnext := @ih
        { s with
          taken := s.taken ++ [byte]
          buffer := piece ++ later } hopen rfl hinit hshort
      rw [hreads, hstep, hnext, hsplit]

theorem run_arrive {bytes : Bytes} (hopen : s.session = some session) (hstill : s.closed = false)
    (hempty : s.buffer = []) :
    run P ends s ((.arrive bytes, around) :: events) =
      run P ends { s with buffer := bytes } events := by
  have hstep : s.step P ends around (.arrive bytes) = { s with buffer := bytes } := by
    unfold InboundStream.step
    rw [hopen]
    dsimp only
    rw [if_neg (by rw [hstill]; exact Bool.false_ne_true), hempty, List.nil_append]
  rw [run_cons, hstep]

/-- A whole frame is read as its message. -/
theorem run_reads_frame {msg : P2PMessage} (hframed : p2pFraming.Framed msg)
    (hlimit : p2pFraming.size msg ≤ maxMessageBytes) (hopen : s.session = some session)
    (htaken : s.taken = []) (hbuffer : s.buffer = sendMessage msg ++ later) :
    run P ends s (reads around (sendMessage msg).length) =
      { s with
        session := (session.step P ends around (.message msg)).2
        taken := []
        buffer := later
        decoded := s.decoded ++ [msg] } := by
  have hne : sendMessage msg ≠ [] := List.ne_nil_of_length_pos Framing.frame_pos
  rcases List.eq_nil_or_concat (sendMessage msg) with hnil | ⟨piece, byte, hconcat⟩
  · exact absurd hnil hne
  rw [List.concat_eq_append] at hconcat
  have hlength : (sendMessage msg).length = piece.length + 1 := by
    rw [hconcat, List.length_append, List.length_singleton]
  have hpieces : s.buffer = piece ++ (byte :: later) := by
    rw [hbuffer, hconcat, List.append_assoc]
    rfl
  have hpending := @run_reads_pending P ends around s session (byte :: later) msg hframed hlimit
    hopen piece hpieces (by rw [htaken, hconcat]; exact List.prefix_append _ _)
    (by rw [htaken, hlength]; exact Nat.lt_succ_self _)
  have hread : recvMessage (s.taken ++ piece) byte = .received msg := by
    have hwhole : s.taken ++ piece ++ [byte] = sendMessage msg := by
      rw [htaken, hconcat]
      rfl
    rw [recvMessage_frame hframed hlimit (by rw [hwhole]), if_neg (by rw [hwhole]; exact lt_irrefl _)]
  have hreads : reads around (sendMessage msg).length =
      reads around piece.length ++ [(.read, around)] := by
    rw [hlength]
    exact List.replicate_succ'
  rw [hreads, run_append, hpending]
  unfold run InboundStream.step readByte
  rw [List.foldl_cons, List.foldl_nil]
  dsimp only
  rw [hopen]
  dsimp only
  rw [hread]

end Runs

/-!
# A dropped read
-/

def dropEnds : InboundEnds :=
  { addr := "10.0.0.9:50000"
    manager :=
      { localNodeNonce := 1
        advertisedIp := none
        advertisedPort := none
        allowPrivatePeerAddresses := true }
    hasDiscovery := false }

def dropAround : Surroundings :=
  { chain := sampleGenesis
    peers := PeerManager.empty
    generation := 1
    latestGeneration := none
    sendOk := fun _ => true
    importer := none }

def dropHandshake : P2PMessage :=
  .handshake (quietNode.localHandshake samplePlatform PeerManager.empty 0)

/-- A disconnect whose reason reads as the frame of a ping. -/
def dropDisconnect : P2PMessage :=
  .disconnect (String.ofList ((sendMessage (.ping 0)).map fun byte => Char.ofNat byte.toNat))

def dropMessages : List P2PMessage :=
  [dropHandshake, dropDisconnect]

/-- The disconnect up to its reason: its length, its kind and the length of the reason. -/
def dropStart : Bytes :=
  (sendMessage dropDisconnect).take 16

/-- An announcement is due while the read has taken the start of the disconnect. -/
def dropEvents : List (StreamEvent × Surroundings) :=
  (.arrive (sendMessage dropHandshake), dropAround) ::
      reads dropAround (sendMessage dropHandshake).length ++
    (.arrive dropStart, dropAround) :: reads dropAround dropStart.length ++
    (.outbound (AnnounceBlock.ofBlock genesisBlock), dropAround) ::
    (.arrive (sendMessage (.ping 0)), dropAround) ::
      reads dropAround (sendMessage (.ping 0)).length

/-- The session once the handshake is accepted. -/
def dropSession : InboundSession :=
  { handshakeDone := true
    activeSession := some ("10.0.0.9:50000", 1)
    requestedBlockHash := none
    refresh := none }

theorem dropDisconnect_frame : sendMessage dropDisconnect = dropStart ++ sendMessage (.ping 0) := by
  decide +kernel

theorem dropHandshake_sends : Sends samplePlatform dropHandshake :=
  Sends.handshake quietNode PeerManager.empty 0

theorem dropHandshake_size : p2pFraming.size dropHandshake ≤ maxMessageBytes := by
  apply dropHandshake_sends.size_le_iff.mpr
  have hseeds : (quietNode.localHandshake samplePlatform PeerManager.empty 0).seedPeers = [] :=
    dialableAddresses_empty maxSharedPeers
  unfold dropHandshake AddressesFit HandshakeMessage.addressBytes
  dsimp only
  rw [hseeds]
  decide

theorem dropSession_opened : (InboundSession.start.step samplePlatform dropEnds dropAround
    (.message dropHandshake)).2 = some dropSession := by
  have haccepted : validateHandshake samplePlatform
      (quietNode.localHandshake samplePlatform PeerManager.empty 0)
        dropEnds.manager.localNodeNonce = .accepted :=
    validateHandshake_newWithAdvertised samplePlatform 0 (by decide : (2 : UInt64) ≠ 1) none none
  unfold InboundSession.step InboundSession.start InboundSession.handleMessage dropHandshake
  dsimp only
  rw [if_neg (by decide)]
  unfold InboundSession.handleHandshake
  rw [haccepted]
  rfl

theorem ping_framed : p2pFraming.Framed (.ping 0) := by
  refine framed_of_size ?_ ?_
  · trivial
  · decide +kernel

theorem dropDisconnect_framed : p2pFraming.Framed dropDisconnect := by
  refine framed_of_size ?_ ?_
  · trivial
  · decide +kernel

/-- The stream between two reads, once the handshake is accepted. -/
def dropOpened (buffer : Bytes) (decoded : List P2PMessage) : InboundStream :=
  { session := some dropSession
    taken := []
    buffer := buffer
    decoded := decoded
    closed := false }

theorem dropEvents_opened : run samplePlatform dropEnds start
    ((.arrive (sendMessage dropHandshake), dropAround) ::
      reads dropAround (sendMessage dropHandshake).length) = dropOpened [] [dropHandshake] := by
  have hopen : ({ start with buffer := sendMessage dropHandshake } : InboundStream).session =
      some InboundSession.start := rfl
  have hbuffer : sendMessage dropHandshake = sendMessage dropHandshake ++ [] :=
    (List.append_nil _).symm
  rw [run_arrive rfl rfl rfl, run_reads_frame (dropHandshake_sends.framed dropHandshake_size)
    dropHandshake_size hopen rfl hbuffer, dropSession_opened]
  rfl

theorem dropEvents_taken : run samplePlatform dropEnds (dropOpened [] [dropHandshake])
    ((.arrive dropStart, dropAround) :: reads dropAround dropStart.length) =
      { dropOpened [] [dropHandshake] with taken := dropStart } := by
  have hopen : (dropOpened dropStart [dropHandshake]).session = some dropSession := rfl
  have hbuffer : dropStart = dropStart ++ [] := (List.append_nil _).symm
  have hinit : dropStart <+: sendMessage dropDisconnect := by
    rw [dropDisconnect_frame]
    exact List.prefix_append _ _
  have hshort : dropStart.length < (sendMessage dropDisconnect).length := by
    rw [dropDisconnect_frame, List.length_append]
    exact Nat.lt_add_of_pos_right Framing.frame_pos
  rw [run_arrive rfl rfl rfl]
  exact run_reads_pending dropDisconnect_framed (by decide +kernel) hopen hbuffer hinit hshort

theorem dropEvents_ping : (run samplePlatform dropEnds (dropOpened [] [dropHandshake])
    ((.arrive (sendMessage (.ping 0)), dropAround) ::
      reads dropAround (sendMessage (.ping 0)).length)).decoded = [dropHandshake, .ping 0] := by
  have hopen : (dropOpened (sendMessage (.ping 0)) [dropHandshake]).session = some dropSession :=
    rfl
  have hbuffer : sendMessage (.ping 0) = sendMessage (.ping 0) ++ [] := (List.append_nil _).symm
  have hread := @run_reads_frame samplePlatform dropEnds dropAround _ _ _ _ ping_framed
    (by decide +kernel) hopen rfl hbuffer
  rw [run_arrive rfl rfl rfl]
  exact congrArg InboundStream.decoded hread

theorem dropEvents_decoded : (run samplePlatform dropEnds start dropEvents).decoded =
    [dropHandshake, .ping 0] := by
  have hcancel : (({ dropOpened [] [dropHandshake] with taken := dropStart } :
      InboundStream).step samplePlatform dropEnds dropAround
        (.outbound (AnnounceBlock.ofBlock genesisBlock))) = dropOpened [] [dropHandshake] := rfl
  unfold dropEvents
  rw [run_append, run_append, dropEvents_opened, dropEvents_taken, run_cons, hcancel]
  exact dropEvents_ping

/-- An announcement between two frames. -/
def calmEvents : List (StreamEvent × Surroundings) :=
  (.arrive (sendMessage dropHandshake), dropAround) ::
      reads dropAround (sendMessage dropHandshake).length ++
    [(.outbound (AnnounceBlock.ofBlock genesisBlock), dropAround)]

theorem dropHandshake_framed : forall msg, msg ∈ [dropHandshake] -> p2pFraming.Framed msg := by
  intro msg hmem
  rw [List.mem_singleton.mp hmem]
  exact dropHandshake_sends.framed dropHandshake_size

theorem dropHandshake_fits : forall msg, msg ∈ [dropHandshake] ->
    p2pFraming.size msg ≤ maxMessageBytes := by
  intro msg hmem
  rw [List.mem_singleton.mp hmem]
  exact dropHandshake_size

theorem calmEvents_calm : CalmRun samplePlatform dropEnds start calmEvents := by
  have hcalm : start.Calm (.arrive (sendMessage dropHandshake)) := fun _ _ => trivial
  have harrived : Aligned [dropHandshake] []
      (start.step samplePlatform dropEnds dropAround (.arrive (sendMessage dropHandshake))) :=
    Aligned.step dropHandshake_framed (aligned_start [dropHandshake]) hcalm
  have hreads : CalmRun samplePlatform dropEnds
      (start.step samplePlatform dropEnds dropAround (.arrive (sendMessage dropHandshake)))
        (reads dropAround (sendMessage dropHandshake).length) :=
    harrived.calmRun_reads dropHandshake_framed dropHandshake_fits _
  unfold calmEvents
  refine calmRun_append (CalmRun.cons hcalm hreads) ?_
  rw [dropEvents_opened]
  exact CalmRun.cons (fun _ _ _ => rfl) (CalmRun.nil _)

theorem decoded_calmEvents : (run samplePlatform dropEnds start
    (calmEvents.take calmEvents.length)).decoded <+: [dropHandshake] := by
  have harrivals : arrivals calmEvents = [dropHandshake].flatMap sendMessage := by
    unfold calmEvents
    simp only [arrivals, reads, List.cons_append, List.flatMap_cons, List.flatMap_append,
      List.flatMap_replicate, StreamEvent.arrival, List.flatten_replicate_nil, List.append_nil,
      List.flatMap_nil]
  apply decoded_prefix (P := samplePlatform)
  · intro msg hmem
    rw [List.mem_singleton.mp hmem]
    trivial
  · intro msg hmem
    exact (dropHandshake_framed msg hmem).size_lt
  · rw [harrivals]
  · exact calmEvents_calm

/-- The peer has sent a handshake and a disconnect, and all of it has arrived; what is
decoded behind the handshake is a ping that the peer has not sent. -/
theorem droppedRead_forges_ping :
    (forall msg, msg ∈ dropMessages ->
      msg.Typed ∧ p2pFraming.size msg ≤ maxMessageBytes) ∧
    arrivals dropEvents = dropMessages.flatMap sendMessage ∧
    (run samplePlatform dropEnds start dropEvents).decoded = [dropHandshake, .ping 0] ∧
    ¬ (run samplePlatform dropEnds start dropEvents).decoded <+: dropMessages := by
  refine ⟨?_, ?_, dropEvents_decoded, ?_⟩
  · intro msg hmem
    rcases List.mem_cons.mp hmem with rfl | hmem
    · exact ⟨trivial, dropHandshake_size⟩
    · rw [List.mem_singleton.mp hmem]
      exact ⟨trivial, by decide +kernel⟩
  · unfold dropEvents dropMessages
    simp only [arrivals, reads, List.cons_append, List.append_assoc, List.flatMap_cons,
      List.flatMap_append, List.flatMap_replicate, StreamEvent.arrival,
      List.flatten_replicate_nil, List.nil_append, List.append_nil, List.flatMap_nil]
    rw [dropDisconnect_frame]
  · rw [dropEvents_decoded]
    intro hprefix
    have hlast := hprefix.eq_of_length rfl
    cases hlast

end InboundStream

end VisionCore
