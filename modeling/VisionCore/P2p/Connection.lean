import VisionCore.P2p.Messages
import VisionCore.P2p.PeerManager

/-!
# The connection manager
-/

namespace VisionCore

def maxSharedPeers : Nat := 32

/-- What every connection takes from the connection manager. -/
structure P2PConnectionManager where
  localNodeNonce : UInt64
  advertisedIp : Option String
  advertisedPort : Option UInt16
  allowPrivatePeerAddresses : Bool

namespace P2PConnectionManager

def localHandshake (P : Platform) (manager : P2PConnectionManager) (pm : PeerManager)
    (chainHeight : UInt64) : HandshakeMessage :=
  { HandshakeMessage.newWithAdvertised P chainHeight manager.localNodeNonce
      manager.advertisedIp manager.advertisedPort with
    seedPeers := pm.dialableAddresses maxSharedPeers }

end P2PConnectionManager

end VisionCore
