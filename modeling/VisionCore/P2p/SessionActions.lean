import VisionCore.Foundation.Requests
import VisionCore.P2p.Connection

/-!
# What a session does

The handler of a connection shares the chain, the peer records, the registry and the
importer's queue with the rest of the node.  Here a session is what it reads and what
it does, in order; what it finds in the shared state may be anything at every step.
-/

namespace VisionCore

open Foundation

/-- A change that a session makes to the peer records. -/
inductive PeerOp where
  | upsert (addr : String) (isOutbound : Bool)
  | setState (addr : String) (state : PeerState)
  | observeInbound (durableAddr observedAddr : String)
  | connectSession (addr : String) (generation : UInt64)
  | noteHeight (addr : String) (height : UInt64)
  | noteSummaryFrom (addr : String) (summary : ChainSummary) (generation : Option UInt64)
      (source : Option String)
  | heightPollSent (addr : String)
  | disconnectIfGeneration (addr : String) (generation : UInt64)
deriving DecidableEq

def PeerOp.apply (now : Nat) (pm : PeerManager) : PeerOp -> PeerManager
  | upsert addr isOutbound => pm.upsert addr isOutbound
  | setState addr state => pm.setState addr state
  | observeInbound durableAddr observedAddr => pm.observeInbound durableAddr observedAddr
  | connectSession addr generation => pm.connectSession addr generation
  | noteHeight addr height => pm.notePeerHeight addr height now
  | noteSummaryFrom addr summary generation source =>
      pm.notePeerSummaryFrom addr summary generation source now
  | heightPollSent addr => pm.recordHeightPollSent addr now
  | disconnectIfGeneration addr generation => pm.disconnectIfGeneration addr generation

/-- `sent` is an attempt to write the message, whether it succeeds or not. -/
inductive SessionAction where
  | received (message : P2PMessage)
  | sent (message : P2PMessage)
  | peer (op : PeerOp)
  | discovered (candidate : String)
  | registered (peerKey : String) (generation : UInt64)
  | unregistered (peerKey : String) (generation : UInt64)
  | queued (blk : Block) (peerAddr : String)
deriving DecidableEq

/-- What one step of a session finds around it. -/
structure Surroundings where
  chain : ChainState
  peers : PeerManager
  /-- The generation that `register` draws. -/
  generation : UInt64
  /-- What `unregister` returns. -/
  latestGeneration : Option UInt64
  /-- Whether the n-th send of the step succeeds. -/
  sendOk : Nat -> Bool
  /-- Whether there is an importer, and whether it takes a block. -/
  importer : Option Bool

inductive SessionInput where
  | message (message : P2PMessage)
  /-- The read fails, or its timer runs out. -/
  | readError
  /-- A message of the session's queue is due. -/
  | outbound (announcement : AnnounceBlock)
  | outboundClosed

namespace SessionAction

/-- The request traffic of a session. -/
def exchange : SessionAction -> Option (Exchange String Block)
  | sent (.getBlock hash) => some (.ask hash)
  | received (.block blk) => some (.answer blk)
  | queued blk _ => some (.deliver blk)
  | _ => none

def exchanges (actions : List SessionAction) : List (Exchange String Block) :=
  actions.filterMap exchange

@[simp] theorem exchanges_append (actions later : List SessionAction) :
    exchanges (actions ++ later) = exchanges actions ++ exchanges later :=
  List.filterMap_append

end SessionAction

end VisionCore
