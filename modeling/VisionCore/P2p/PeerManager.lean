import VisionCore.Foundation.OrderedMap
import VisionCore.P2p.Address
import VisionCore.P2p.Protocol

/-!
# The peer manager

One record for each durable peer address.  An instant is a number of ticks of
the monotonic clock, and every function that reads the clock takes it as `now`.
-/

namespace VisionCore

open Std Foundation

inductive PeerState where
  | connected
  | connecting
  | disconnected
  | knownOnly
deriving DecidableEq, Repr

structure Peer where
  addr : String
  observedAddr : Option String
  advertisedAddr : Option String
  state : PeerState
  isOutbound : Bool
  height : UInt64
  tipHash : Option String
  cumulativeWork : Nat
  lastHeightUpdatedAt : Option Nat
  lastHeightPollSentAt : Option Nat
  lastHeightResponseAt : Option Nat
  lastActivity : Option Nat
  connectionGeneration : UInt64
  summaryGeneration : Option UInt64
  summarySource : Option String
deriving DecidableEq, Repr

namespace Peer

def new (addr : String) (isOutbound : Bool) : Peer :=
  { addr := addr
    observedAddr := none
    advertisedAddr := none
    state := .knownOnly
    isOutbound := isOutbound
    height := 0
    tipHash := none
    cumulativeWork := 0
    lastHeightUpdatedAt := none
    lastHeightPollSentAt := none
    lastHeightResponseAt := none
    lastActivity := none
    connectionGeneration := 0
    summaryGeneration := none
    summarySource := none }

def clearSummary (peer : Peer) : Peer :=
  { peer with
    height := 0
    tipHash := none
    cumulativeWork := 0
    lastHeightUpdatedAt := none
    lastHeightResponseAt := none
    lastHeightPollSentAt := none
    summaryGeneration := none
    summarySource := none }

def setState (peer : Peer) (state : PeerState) : Peer :=
  match state with
  | .disconnected | .knownOnly => { peer with state := state }.clearSummary
  | .connected | .connecting => { peer with state := state }

def disconnectIfGeneration (peer : Peer) (generation : UInt64) : Peer :=
  if peer.connectionGeneration ≠ generation then peer
  else { peer with state := .disconnected }.clearSummary

def connectSession (peer : Peer) (generation : UInt64) : Peer :=
  { peer with
    connectionGeneration := max peer.connectionGeneration generation
    state := .connected }

def noteHeight (peer : Peer) (height : UInt64) (now : Nat) : Peer :=
  if height < peer.height then
    { peer with lastActivity := some now, lastHeightResponseAt := some now }
  else
    { peer with
      height := height
      lastHeightUpdatedAt := some now
      lastHeightResponseAt := some now
      lastActivity := some now }

def noteSummaryFrom (peer : Peer) (summary : ChainSummary) (generation : Option UInt64)
    (source : Option String) (now : Nat) : Peer :=
  if generation.any fun generation => generation < peer.connectionGeneration then peer
  else
    let updated :=
      if summary.cumulativeWork > peer.cumulativeWork ∨ summary.height ≥ peer.height ∨
          peer.tipHash.isNone then
        { peer with
          height := summary.height
          tipHash := summary.tipHash
          cumulativeWork := summary.cumulativeWork
          lastHeightUpdatedAt := some now
          summaryGeneration := generation.or (some peer.connectionGeneration)
          summarySource := source }
      else peer
    { updated with lastHeightResponseAt := some now, lastActivity := some now }

end Peer

structure PeerManager where
  peers : ExtTreeMap String Peer

namespace PeerManager

def empty : PeerManager :=
  { peers := ∅ }

/-- Change the record of an address, if there is one. -/
def update (pm : PeerManager) (addr : String) (f : Peer -> Peer) : PeerManager :=
  match pm.peers[addr]? with
  | none => pm
  | some peer => { peers := pm.peers.insert addr (f peer) }

/-- Change the record of an address, or insert a first one. -/
def entry (pm : PeerManager) (addr : String) (f : Peer -> Peer) (first : Peer) : PeerManager :=
  match pm.peers[addr]? with
  | none => { peers := pm.peers.insert addr first }
  | some peer => { peers := pm.peers.insert addr (f peer) }

def upsert (pm : PeerManager) (addr : String) (isOutbound : Bool) : PeerManager :=
  pm.entry addr (fun peer => { peer with isOutbound := peer.isOutbound || isOutbound })
    (Peer.new addr isOutbound)

def setState (pm : PeerManager) (addr : String) (state : PeerState) : PeerManager :=
  pm.update addr fun peer => peer.setState state

def disconnectIfGeneration (pm : PeerManager) (addr : String) (generation : UInt64) :
    PeerManager :=
  pm.update addr fun peer => peer.disconnectIfGeneration generation

def connectSession (pm : PeerManager) (addr : String) (generation : UInt64) : PeerManager :=
  pm.update addr fun peer => peer.connectSession generation

def notePeerHeight (pm : PeerManager) (addr : String) (height : UInt64) (now : Nat) :
    PeerManager :=
  pm.update addr fun peer => peer.noteHeight height now

def notePeerSummaryFrom (pm : PeerManager) (addr : String) (summary : ChainSummary)
    (generation : Option UInt64) (source : Option String) (now : Nat) : PeerManager :=
  pm.update addr fun peer => peer.noteSummaryFrom summary generation source now

def recordHeightPollSent (pm : PeerManager) (addr : String) (now : Nat) : PeerManager :=
  pm.update addr fun peer => { peer with lastHeightPollSentAt := some now }

def noteObservedAddr (pm : PeerManager) (peerAddr observedAddr : String) : PeerManager :=
  pm.update peerAddr fun peer => { peer with observedAddr := some observedAddr }

/-- The record `resolve_inbound_peer_key` leaves under the durable address it has
chosen. -/
def observeInbound (pm : PeerManager) (durableAddr observedAddr : String) : PeerManager :=
  let observe := fun peer : Peer =>
    let observed := { peer with observedAddr := some observedAddr }
    if durableAddr ≠ observedAddr then
      { observed with advertisedAddr := some durableAddr }
    else observed
  pm.entry durableAddr observe (observe (Peer.new durableAddr false))

def resolveInboundPeerKey (pm : PeerManager) (observedAddr : String)
    (handshake : HandshakeMessage) (allowPrivate : Bool) : Except String (String × PeerManager) := do
  let advertised <-
    validatedAdvertisedAddr handshake.advertisedIp handshake.advertisedPort allowPrivate
  let durableAddr := advertised.getD observedAddr
  return (durableAddr, pm.observeInbound durableAddr observedAddr)

/-- At most `limit` addresses that may be shared with a compatible peer. -/
def dialableAddresses (pm : PeerManager) (limit : Nat) : List String :=
  let dialable := pm.peers.toList.filter fun entry =>
    entry.2.isOutbound || entry.2.advertisedAddr.isSome
  let addresses := (dialable.map fun entry => entry.2.addr).mergeSort
  (addresses.destutter (· ≠ ·)).take limit

def connectedCount (pm : PeerManager) : Nat :=
  (pm.peers.toList.filter fun entry => entry.2.state = .connected).length

/-!
# Reading a record after a change
-/

variable {pm : PeerManager} {addr addr' : String} {f : Peer -> Peer} {first : Peer}

theorem update_get : (pm.update addr f).peers[addr']? =
    if addr = addr' then pm.peers[addr']?.map f else pm.peers[addr']? := by
  unfold update
  cases hpeer : pm.peers[addr]? with
  | none =>
      dsimp only
      split
      · rename_i heq
        rw [← heq, hpeer]
        rfl
      · rfl
  | some peer =>
      dsimp only
      rw [getElem?_insert_ite]
      split
      · rename_i heq
        rw [← heq, hpeer]
        rfl
      · rfl

@[simp] theorem update_get_self : (pm.update addr f).peers[addr]? = pm.peers[addr]?.map f := by
  rw [update_get, if_pos rfl]

theorem update_get_of_ne (h : addr ≠ addr') :
    (pm.update addr f).peers[addr']? = pm.peers[addr']? := by
  rw [update_get, if_neg h]

theorem entry_get_self :
    (pm.entry addr f first).peers[addr]? = some ((pm.peers[addr]?.map f).getD first) := by
  unfold entry
  cases pm.peers[addr]? with
  | none => simp
  | some peer => simp

theorem entry_get_of_ne (h : addr ≠ addr') :
    (pm.entry addr f first).peers[addr']? = pm.peers[addr']? := by
  unfold entry
  cases pm.peers[addr]? with
  | none => rw [getElem?_insert_ite, if_neg h]
  | some peer => rw [getElem?_insert_ite, if_neg h]

end PeerManager

end VisionCore
