import VisionCore.P2p.Protocol

/-!
# Peer messages
-/

namespace VisionCore

inductive P2PMessage where
  | handshake (handshake : HandshakeMessage)
  | ping (timestamp : UInt64)
  | pong (timestamp : UInt64)
  | getHeight
  | height (summary : ChainSummary)
  | announceBlock (announcement : AnnounceBlock)
  | getBlock (hash : String)
  | block (blk : Block)
  | disconnect (reason : String)
deriving DecidableEq

namespace P2PMessage

def label : P2PMessage -> String
  | handshake _ => "Handshake"
  | ping _ => "Ping"
  | pong _ => "Pong"
  | getHeight => "GetHeight"
  | height _ => "Height"
  | announceBlock _ => "AnnounceBlock"
  | getBlock _ => "GetBlock"
  | block _ => "Block"
  | disconnect _ => "Disconnect"

def isPreHandshake : P2PMessage -> Bool
  | handshake _ | disconnect _ => true
  | _ => false

end P2PMessage

/-- The announcement of a block to the sessions. -/
def AnnounceBlock.ofBlock (blk : Block) : AnnounceBlock :=
  { height := blk.header.number
    hash := blk.hash
    prev := blk.header.parentHash }

def isCanonicalHash (value : String) : Bool :=
  byteLen value == 64 && isLowercaseHex value

end VisionCore
