import VisionCore.P2p.SessionActions

/-!
# The handler of an inbound connection
-/

namespace VisionCore

/-- What is fixed about an inbound connection. -/
structure InboundEnds where
  /-- The observed socket address. -/
  addr : String
  manager : P2PConnectionManager
  hasDiscovery : Bool

/-- The handler between two reads.  The session's queue is there as long as
`activeSession` is.  Inside `request_inbound_peer_summary` `refresh` counts the reads
that are left. -/
structure InboundSession where
  handshakeDone : Bool
  activeSession : Option (String × UInt64)
  requestedBlockHash : Option String
  refresh : Option Nat
deriving DecidableEq

def inboundSummaryRefreshSource : String := "inbound handshake refresh"

def inboundSummaryRefreshMaxMessages : Nat := 8

def handshakeRejectReason : HandshakeResult -> String
  | .versionMismatch remote ours =>
      "unsupported protocol version: remote=" ++ toString remote ++ " ours=" ++ toString ours
  | .wrongChainId => "wrong chain identity"
  | .wrongGenesisHash => "wrong genesis hash"
  | .wrongEconHash => "wrong economic version"
  | .wrongPowParams => "wrong pow/consensus version"
  | .selfConnection => "self-connection rejected"
  | .accepted => "handshake accepted"

namespace InboundSession

def start : InboundSession :=
  { handshakeDone := false
    activeSession := none
    requestedBlockHash := none
    refresh := none }

/-- What a step does, and the handler after it, none when it leaves its loop. -/
abbrev Outcome : Type :=
  List SessionAction × Option InboundSession

/-- Send a message; the handler goes on if that succeeds. -/
def reply (around : Surroundings) (message : P2PMessage) (s : InboundSession) : Outcome :=
  ([.sent message], if around.sendOk 0 then some s else none)

def handleHandshake (P : Platform) (ends : InboundEnds) (around : Surroundings)
    (s : InboundSession) (remote : HandshakeMessage) : Outcome :=
  if s.handshakeDone then ([], none)
  else
    match validateHandshake P remote ends.manager.localNodeNonce with
    | .accepted =>
        match around.peers.resolveInboundPeerKey ends.addr remote
            ends.manager.allowPrivatePeerAddresses with
        | .error reason => ([.sent (.disconnect reason)], none)
        | .ok (peerKey, _) =>
            let localHandshake :=
              ends.manager.localHandshake P around.peers around.chain.currentHeight
            let discovered :=
              if ends.hasDiscovery then (remote.seedPeers.take maxSharedPeers).map .discovered
              else []
            let greeting :=
              .peer (.observeInbound peerKey ends.addr) :: discovered ++
                [.sent (.handshake localHandshake)]
            if around.sendOk 0 = false then (greeting, none)
            else
              let session :=
                { s with
                  handshakeDone := true
                  activeSession := some (peerKey, around.generation) }
              let joined :=
                [.registered peerKey around.generation,
                  .peer (.connectSession peerKey around.generation),
                  .peer (.noteHeight peerKey remote.chainHeight)]
              if peerKey = ends.addr then (greeting ++ joined, some session)
              else
                let asked := [.peer (.heightPollSent peerKey), .sent .getHeight]
                let refresh :=
                  if around.sendOk 1 then some inboundSummaryRefreshMaxMessages else none
                (greeting ++ joined ++ asked, some { session with refresh := refresh })
    | result =>
        ([.peer (.upsert ends.addr false), .peer (.setState ends.addr .disconnected),
            .sent (.disconnect (handshakeRejectReason result))], none)

/-- The body of the handler's loop. -/
def handleMessage (P : Platform) (ends : InboundEnds) (around : Surroundings)
    (s : InboundSession) (message : P2PMessage) : Outcome :=
  if s.handshakeDone = false ∧ message.isPreHandshake = false then ([], none)
  else
    match message with
    | .handshake remote => handleHandshake P ends around s remote
    | .ping timestamp => reply around (.pong timestamp) s
    | .getHeight => reply around (.height (ChainSummary.fromChain around.chain)) s
    | .getBlock hash =>
        match around.chain.blockByHash hash with
        | some blk => reply around (.block blk) s
        | none => ([.sent (.disconnect ("unknown block " ++ hash))], none)
    | .announceBlock announcement =>
        if isCanonicalHash announcement.hash = false ∨ isCanonicalHash announcement.prev = false
        then ([], none)
        else if (around.chain.blockByHash announcement.hash).isNone ∧
            s.requestedBlockHash.isNone then
          reply around (.getBlock announcement.hash)
            { s with requestedBlockHash := some announcement.hash }
        else ([], some s)
    | .block blk =>
        match s.requestedBlockHash with
        | none => ([], none)
        | some expectedHash =>
            let s := { s with requestedBlockHash := none }
            if blk.hash ≠ expectedHash then ([], none)
            else
              match around.importer with
              | none => ([], some s)
              | some false => ([], none)
              | some true =>
                  ([.queued blk ((s.activeSession.map Prod.fst).getD ends.addr)], some s)
    | .height summary =>
        match s.activeSession with
        | some (peerKey, _) => ([.peer (.noteSummaryFrom peerKey summary none none)], some s)
        | none => ([], some s)
    | .disconnect _ => ([], none)
    | .pong _ => ([], some s)

/-- The loop of `request_inbound_peer_summary` with `left` reads left.  Its errors are
only logged: the handler goes on. -/
def handleRefresh (around : Surroundings) (s : InboundSession) (left : Nat)
    (message : P2PMessage) : Outcome :=
  let failed := { s with refresh := none }
  let again := { s with refresh := if left ≤ 1 then none else some (left - 1) }
  match message with
  | .height summary =>
      match s.activeSession with
      | some (peerKey, generation) =>
          ([.peer (.noteSummaryFrom peerKey summary (some generation)
            (some inboundSummaryRefreshSource))], some failed)
      | none => ([], some failed)
  | .getHeight =>
      ([.sent (.height (ChainSummary.fromChain around.chain))],
        some (if around.sendOk 0 then again else failed))
  | .ping timestamp =>
      ([.sent (.pong timestamp)], some (if around.sendOk 0 then again else failed))
  | _ => ([], some failed)

def step (P : Platform) (ends : InboundEnds) (around : Surroundings) (s : InboundSession) :
    SessionInput -> Outcome
  | .message message =>
      let (actions, next) :=
        match s.refresh with
        | some left => handleRefresh around s left message
        | none => handleMessage P ends around s message
      (.received message :: actions, next)
  | .readError =>
      match s.refresh with
      | some _ => ([], some { s with refresh := none })
      | none => ([], none)
  -- The queue is polled in the handler's own loop, once the session is registered.
  | .outbound announcement =>
      if s.activeSession.isNone ∨ s.refresh.isSome then ([], some s)
      else reply around (.announceBlock announcement) s
  | .outboundClosed =>
      if s.activeSession.isNone ∨ s.refresh.isSome then ([], some s) else ([], none)

/-- What the handler does behind its loop.  No step that leaves the loop changes
`activeSession`. -/
def close (around : Surroundings) (s : InboundSession) : List SessionAction :=
  match s.activeSession with
  | none => []
  | some (peerKey, generation) =>
      .unregistered peerKey generation ::
        match around.latestGeneration with
        | some latest => [.peer (.disconnectIfGeneration peerKey latest)]
        | none => []

/-- The handler on a sequence of inputs; the state is none once it has ended. -/
def run (P : Platform) (ends : InboundEnds) :
    InboundSession -> List (SessionInput × Surroundings) -> Outcome
  | s, [] => ([], some s)
  | s, (input, around) :: rest =>
      match step P ends around s input with
      | (actions, none) => (actions ++ close around s, none)
      | (actions, some s') =>
          let (later, last) := run P ends s' rest
          (actions ++ later, last)

end InboundSession

end VisionCore
