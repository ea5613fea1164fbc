import VisionCore.P2p.SessionRegistry

/-!
# The steps of the sessions

The connection handlers and the dial loops share the registry and the peer
records, and their atomic steps interleave.  This module runs any number of
sessions of any peers, one atomic step at a time.
-/

namespace VisionCore

open Std

/-- Where a session is between its atomic steps. -/
inductive SessionPhase where
  | idle
  | known
  | drawn (generation : UInt64)
  | inserted (generation : UInt64)
  | live (generation : UInt64)
  | closing (latestGeneration : UInt64)
  | ended
deriving DecidableEq, Repr

/-- The generation under which the registry holds the session. -/
def SessionPhase.held : SessionPhase -> Option UInt64
  | .inserted generation | .live generation => some generation
  | _ => none

/-- A handler whose `unregister` returned a generation still has to disconnect it. -/
def SessionPhase.afterUnregister : Option UInt64 -> SessionPhase
  | none => .ended
  | some latestGeneration => .closing latestGeneration

/-- What is fixed about a session: the durable address of its peer, the address it
was observed under and which side dialled. -/
structure SessionEnds where
  peerKey : String
  observedAddr : String
  isOutbound : Bool

structure SessionWorld where
  registry : PeerSessionRegistry
  peers : PeerManager
  phase : Nat -> SessionPhase

inductive SessionEvent where
  | upsert (addr : String) (isOutbound : Bool)
  | handshake (session : Nat)
  | dialFailed (session : Nat)
  | draw (session : Nat)
  | insert (session : Nat)
  | connect (session : Nat)
  | noteHeight (session : Nat) (height : UInt64) (now : Nat)
  | noteSummary (session : Nat) (summary : ChainSummary) (source : String) (now : Nat)
  | unregister (session : Nat)
  | disconnect (session : Nat)

/-!
# Steps
-/

namespace SessionWorld

def start : SessionWorld :=
  { registry := .new
    peers := .empty
    phase := fun _ => .idle }

def enter (w : SessionWorld) (session : Nat) (phase : SessionPhase) : SessionWorld :=
  { w with phase := fun other => if other = session then phase else w.phase other }

def step (ends : Nat -> SessionEnds) (w : SessionWorld) : SessionEvent -> Option SessionWorld
  | .upsert addr isOutbound => some { w with peers := w.peers.upsert addr isOutbound }
  | .handshake i =>
      match w.phase i with
      | .idle =>
          let peers :=
            if (ends i).isOutbound then w.peers.upsert (ends i).peerKey true
            else w.peers.observeInbound (ends i).peerKey (ends i).observedAddr
          some ({ w with peers := peers }.enter i .known)
      | _ => none
  -- `seed_peer_loop` on an error of the connection or of the handshake.
  | .dialFailed i =>
      match w.phase i with
      | .idle =>
          if (ends i).isOutbound then
            some ({ w with peers := w.peers.setState (ends i).peerKey .disconnected }.enter i .ended)
          else none
      | _ => none
  | .draw i =>
      match w.phase i with
      | .known =>
          let drawn := w.registry.drawGeneration
          some ({ w with registry := drawn.2 }.enter i (.drawn drawn.1))
      | _ => none
  | .insert i =>
      match w.phase i with
      | .drawn generation =>
          let registry := w.registry.insertSession (ends i).peerKey generation
          some ({ w with registry := registry }.enter i (.inserted generation))
      | _ => none
  | .connect i =>
      match w.phase i with
      | .inserted generation =>
          let peers := w.peers.connectSession (ends i).peerKey generation
          some ({ w with peers := peers }.enter i (.live generation))
      | _ => none
  | .noteHeight i height now =>
      match w.phase i with
      | .live _ => some { w with peers := w.peers.notePeerHeight (ends i).peerKey height now }
      | _ => none
  | .noteSummary i summary source now =>
      match w.phase i with
      | .live generation =>
          some { w with
            peers := w.peers.notePeerSummaryFrom (ends i).peerKey summary (some generation)
              (some source) now }
      | _ => none
  | .unregister i =>
      match w.phase i with
      | .live generation =>
          let left := w.registry.unregister (ends i).peerKey generation
          some ({ w with registry := left.2 }.enter i (.afterUnregister left.1))
      | _ => none
  | .disconnect i =>
      match w.phase i with
      | .closing latest =>
          let peers := w.peers.disconnectIfGeneration (ends i).peerKey latest
          some ({ w with peers := peers }.enter i .ended)
      | _ => none

def run (ends : Nat -> SessionEnds) (w : SessionWorld) (events : List SessionEvent) :
    Option SessionWorld :=
  events.foldlM (step ends) w

/-- A session of the peer has still to run its `connect_session`. -/
def Connecting (ends : Nat -> SessionEnds) (w : SessionWorld) (addr : String) : Prop :=
  exists i generation, (ends i).peerKey = addr ∧
    (w.phase i = .drawn generation ∨ w.phase i = .inserted generation)

/-- No session of the peer is between two of its atomic steps. -/
def Quiescent (ends : Nat -> SessionEnds) (w : SessionWorld) (addr : String) : Prop :=
  forall i generation, (ends i).peerKey = addr ->
    w.phase i ≠ .drawn generation ∧ w.phase i ≠ .inserted generation ∧
      w.phase i ≠ .closing generation

def Connected (w : SessionWorld) (addr : String) : Prop :=
  exists peer, w.peers.peers[addr]? = some peer ∧ peer.state = .connected

/-- The steps that keep the order of the generations and that do not disconnect a
peer behind the back of its sessions. -/
def Orderly (ends : Nat -> SessionEnds) (w : SessionWorld) : SessionEvent -> Prop
  | .insert i =>
      forall generation, w.phase i = .drawn generation ->
        (forall peer, w.peers.peers[(ends i).peerKey]? = some peer ->
          peer.connectionGeneration < generation) ∧
        forall other, other ∈ w.registry.activeOf (ends i).peerKey -> other < generation
  | .dialFailed i =>
      w.registry.activeOf (ends i).peerKey = [] ∨ w.Connecting ends (ends i).peerKey
  | _ => True

/-- The worlds reached by runs whose steps are all orderly. -/
inductive OrderlyReached (ends : Nat -> SessionEnds) : SessionWorld -> Prop where
  | start : OrderlyReached ends start
  | step {w w' : SessionWorld} (e : SessionEvent) : OrderlyReached ends w ->
      w.Orderly ends e -> w.step ends e = some w' -> OrderlyReached ends w'

end SessionWorld

end VisionCore
