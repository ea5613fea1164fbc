import VisionCore.Foundation.Interaction
import VisionCore.Mempool.Pool
import VisionCore.Node.Importers
import VisionCore.P2p.Connection

/-!
# Catching up with a peer

A catch-up talks to one peer over a connection of its own.  The chain lock is
free between its steps, so the chain may be another one at every lock.
-/

namespace VisionCore

open Std
open Foundation

/-!
# The connection
-/

/-- Why a read yields no message. -/
inductive ReadError where
  | closed
  | oversized
  | malformed
  | elapsed
deriving DecidableEq, Repr

inductive SyncError where
  | connection
  | send
  | read (e : ReadError)
  | rejectedHandshake (reason : String)
  | unexpectedHandshakeReply (label : String)
  | handshakeRejected (result : HandshakeResult)
  | rejectedHeightQuery (reason : String)
  | unexpectedHeightReply (label : String)
  | heightQueryExceeded (peerAddr : String)
  | noTipHash (height : UInt64)
  | loopDetected (hash : String)
  | rejectedBlockRequest (reason : String)
  | unexpectedBlockReply (label : String)
  | wrongBlock (requested received : String)
  | importStoredOrphan (hash : String)
  | importRejected (reason : RejectReason)
deriving DecidableEq, Repr

/-- The surroundings of a catch-up.  Every read of them takes the next number: what
the other importers do before the lock is taken, the host of a call of `applyBlock`,
whether a send succeeds, the clock. -/
structure SyncEnv where
  platform : Platform
  manager : P2PConnectionManager
  peerAddr : String
  connects : Bool
  others : Nat -> List ImporterStep
  host : Nat -> Host
  sendOk : Nat -> Bool
  now : Nat -> Nat

structure SyncState where
  chain : ChainState
  peers : PeerManager
  mempool : Option Mempool
  replies : List (Except ReadError P2PMessage)
  sent : List P2PMessage
  turn : Nat

abbrev SyncProgram (α : Type) : Type :=
  Program SyncState SyncError Fault α

namespace SyncEnv

open Program

variable (env : SyncEnv)

def nextTurn : SyncProgram Nat := do
  let s <- get
  modify fun s => { s with turn := s.turn + 1 }
  return s.turn

def putChain (g : ChainState) : SyncProgram PUnit :=
  modify fun s => { s with chain := g }

/-- The chain as it is when the lock is taken. -/
def lockChain : SyncProgram ChainState := do
  let turn <- nextTurn
  let s <- get
  let g <- call (importAll env.platform s.chain (env.others turn))
  putChain g
  return g

def sendMessage (message : P2PMessage) : SyncProgram PUnit := do
  let turn <- nextTurn
  if env.sendOk turn then modify fun s => { s with sent := s.sent ++ [message] }
  else throw .send

def recvMessage : SyncProgram P2PMessage := do
  let s <- get
  match s.replies with
  | [] => throw (.read .closed)
  | .error e :: rest =>
      modify fun s => { s with replies := rest }
      throw (.read e)
  | .ok message :: rest =>
      modify fun s => { s with replies := rest }
      return message

def sendSummary : SyncProgram PUnit := do
  let g <- env.lockChain
  env.sendMessage (.height (ChainSummary.fromChain g))

/-!
# The height query
-/

def exchangeHandshakes : SyncProgram HandshakeMessage := do
  let g <- env.lockChain
  let s <- get
  env.sendMessage (.handshake
    (env.manager.localHandshake env.platform s.peers g.currentHeight))
  match <- recvMessage with
  | .handshake remote =>
      match validateHandshake env.platform remote env.manager.localNodeNonce with
      | .accepted =>
          let turn <- nextTurn
          modify fun s =>
            { s with
              peers := s.peers.notePeerHeight env.peerAddr remote.chainHeight (env.now turn) }
          return remote
      | result => throw (.handshakeRejected result)
  | .disconnect reason => throw (.rejectedHandshake reason)
  | message => throw (.unexpectedHandshakeReply message.label)

/-- At most `left` messages are read while the answer is awaited. -/
def awaitHeight : Nat -> SyncProgram ChainSummary
  | 0 => throw (.heightQueryExceeded env.peerAddr)
  | left + 1 => do
      match <- recvMessage with
      | .height summary => return summary
      | .getHeight =>
          env.sendSummary
          awaitHeight left
      | .ping timestamp =>
          env.sendMessage (.pong timestamp)
          awaitHeight left
      | .disconnect reason => throw (.rejectedHeightQuery reason)
      | message => throw (.unexpectedHeightReply message.label)

def queryHeight : SyncProgram ChainSummary := do
  env.sendMessage .getHeight
  let summary <- env.awaitHeight 8
  let turn <- nextTurn
  modify fun s =>
    { s with
      peers := s.peers.notePeerSummaryFrom env.peerAddr summary none none (env.now turn) }
  return summary

/-!
# The download

Every turn of a loop reads at least one message, so one turn more than there are
messages is enough.
-/

def awaitBlock : Nat -> SyncProgram Block
  | 0 => throw (.read .closed)
  | left + 1 => do
      match <- recvMessage with
      | .block blk => return blk
      | .announceBlock _ => awaitBlock left
      | .getHeight =>
          env.sendSummary
          awaitBlock left
      | .ping timestamp =>
          env.sendMessage (.pong timestamp)
          awaitBlock left
      | .disconnect reason => throw (.rejectedBlockRequest reason)
      | message => throw (.unexpectedBlockReply message.label)

def requestBlock (hash : String) : SyncProgram Block := do
  env.sendMessage (.getBlock hash)
  let s <- get
  let blk <- env.awaitBlock (s.replies.length + 1)
  if blk.hash ≠ hash then throw (.wrongBlock hash blk.hash)
  else return blk

def downloadLoop : Nat -> String -> List Block -> ExtTreeSet String -> SyncProgram (List Block)
  | 0, _, _, _ => throw (.read .closed)
  | left + 1, currentHash, fetched, seen => do
      let g <- env.lockChain
      if (g.blockByHash currentHash).isSome then return fetched
      else if currentHash ∈ seen then throw (.loopDetected currentHash)
      else
        let blk <- env.requestBlock currentHash
        let fetched := fetched ++ [blk]
        if blk.header.number = 0 then return fetched
        else downloadLoop left blk.header.parentHash fetched (seen.insert currentHash)

/-- The blocks from the peer's tip down to a known one, the oldest first. -/
def downloadBranch (tipHash : String) : SyncProgram (List Block) := do
  let s <- get
  let fetched <- env.downloadLoop (s.replies.length + 1) tipHash [] ∅
  return fetched.reverse

/-!
# The import
-/

/-- Take the recovery record of a reorg and requeue what it displaced. -/
def requeueRecovery : SyncProgram PUnit := do
  let g <- env.lockChain
  let g := g.refreshCachedStateRootFromTip
  let recovery := g.pendingReorgRecovery
  let g := { g with pendingReorgRecovery := none }
  modify fun s =>
    { s with
      chain := g
      mempool :=
        match s.mempool, recovery with
        | some mempool, some recovery =>
            some (mempool.requeueAfterReorg env.platform g recovery).2
        | mempool, _ => mempool }

def importFetchedBlock (blk : Block) : SyncProgram Nat := do
  let g <- env.lockChain
  if (g.blockByHash blk.hash).isSome then return 0
  else
    let turn <- nextTurn
    let applied <- call (applyBlock env.platform (env.host turn) g blk (some env.peerAddr))
    putChain applied.chain
    match applied.result with
    | .canonExtension _ =>
        env.requeueRecovery
        return 1
    | .sideChain _ => return 1
    | .storedOrphan hash => throw (.importStoredOrphan hash)
    | .rejected reason => throw (.importRejected reason)

def importFetchedBlocks : List Block -> SyncProgram Nat
  | [] => return 0
  | blk :: rest => do
      let imported <- env.importFetchedBlock blk
      let others <- importFetchedBlocks rest
      return imported + others

/-!
# The whole catch-up
-/

/-- The peer's summary and the downloaded blocks, none when the peer is not ahead. -/
def fetchBranch : SyncProgram (Option (ChainSummary × List Block)) := do
  if env.connects = false then throw .connection
  else
    let _ <- env.exchangeHandshakes
    let remote <- env.queryHeight
    let g <- env.lockChain
    let localSummary := ChainSummary.fromChain g
    let heightAhead := remote.height > localSummary.height
    let workAhead :=
      remote.cumulativeWork > localSummary.cumulativeWork ∧ remote.tipHash ≠ localSummary.tipHash
    if ¬heightAhead ∧ ¬workAhead then return none
    else
      match remote.tipHash with
      | none => throw (.noTipHash remote.height)
      | some tipHash =>
          let fetched <- env.downloadBranch tipHash
          return some (remote, fetched)

end SyncEnv

end VisionCore
