import VisionCore.Genesis.Genesis

/-!
# Chain state, database and host

`ChainState` is the in-memory state behind the node's chain lock together with
its database handle.  `Host` is what lies outside: the wall clock, the outcome
of each database write, and the reorg lines of the log.
-/

namespace VisionCore

open Std

/-!
# The database

Keys follow the key scheme of the storage module.  A value is classified by
what its bytes decode to (`number` is decimal text, the other structured ones
are bincode); `raw` stands for bytes that decode as none of these.
-/

inductive DbKey where
  | block (hash : String)
  | height (n : UInt64)
  | tipHeight
  | tipHash
  | genesisHash
  | snapshot (height : UInt64)
  | snapshotStateRoot (height : UInt64)
  | snapBalances (height : UInt64)
  | snapNonces (height : UInt64)
deriving DecidableEq, Repr

inductive DbValue where
  | block (blk : Block)
  | text (s : String)
  | number (n : UInt64)
  | balances (entries : ExtTreeMap String Nat)
  | nonces (entries : ExtTreeMap String UInt64)
  | snapshotMeta (height : UInt64) (hash : String)
  | stateRoot (root : String)
  | raw (bytes : Bytes)

structure Db where
  entries : DbKey -> Option DbValue

inductive DbOp where
  | insert (key : DbKey) (value : DbValue)
  | remove (key : DbKey)

namespace Db

def empty : Db :=
  { entries := fun _ => none }

def get (db : Db) (key : DbKey) : Option DbValue :=
  db.entries key

def apply (db : Db) : DbOp -> Db
  | .insert key value =>
      { entries := fun k => if k = key then some value else db.entries k }
  | .remove key =>
      { entries := fun k => if k = key then none else db.entries k }

def applyBatch (db : Db) (batch : List DbOp) : Db :=
  batch.foldl apply db

end Db

inductive StorageError where
  | writeFailed
  | emptyCanonicalChain
deriving DecidableEq, Repr

/-!
# Reorg records
-/

structure ReorgRecovery where
  displacedTxs : List Tx
  winningTxIds : List String
deriving DecidableEq, Repr

inductive CoinbaseError where
  | invalidMinerAddress
  | rewardOverflow
deriving DecidableEq, Repr

inductive SideStateReconstructionError where
  | brokenAncestry (expectedParent gotParent : String)
  | execution (e : TxExecutionError)
  | coinbaseReward (e : CoinbaseError)
  | stateRootConstructionFailed
  | stateRootMismatch (blockHash expected computed : String)
deriving DecidableEq, Repr

inductive ReorgAbort where
  | cannotTraceAncestry (hash : String)
  | ancestorNotCanonical (hash : String)
  | ancestorReplay (e : SideStateReconstructionError)
  | branchReplay (e : SideStateReconstructionError)
  | stateRootConstruction
  | stateRootMismatch (hash : String)
  | persistence (e : StorageError)
deriving DecidableEq, Repr

/-- The `[REORG]` lines written by one call of the reorg entry point. -/
inductive ReorgEvent where
  | aborted (reason : ReorgAbort)
  | complete (commonHeight newTipHeight : UInt64)
deriving DecidableEq, Repr

/-!
# The host
-/

/-- The wall clock is read as `clock reads`; a reading fits the signed 64-bit
seconds of a system time.  The write numbered `writes` succeeds when `writeOk`
says so, and changes nothing otherwise. -/
structure Host where
  clock : Nat -> UInt64
  clock_lt : forall i, (clock i).toNat < 2 ^ 63
  reads : Nat
  writeOk : Nat -> Bool
  writes : Nat
  reorgLog : List ReorgEvent

namespace Host

def now (host : Host) : UInt64 :=
  host.clock host.reads

def tick (host : Host) : Host :=
  { host with reads := host.reads + 1 }

def note (host : Host) (event : ReorgEvent) : Host :=
  { host with reorgLog := host.reorgLog ++ [event] }

def write (host : Host) (db : Db) (batch : List DbOp) :
    Except StorageError Unit × Db × Host :=
  let host' := { host with writes := host.writes + 1 }
  if host.writeOk host.writes then (.ok (), db.applyBatch batch, host')
  else (.error .writeFailed, db, host')

end Host

/-!
# Chain state
-/

structure ChainState where
  blocks : List Block
  difficulty : UInt64
  balances : ExtTreeMap String Nat
  nonces : ExtTreeMap String UInt64
  seenTxs : ExtTreeSet String
  seenBlocks : ExtTreeSet String
  sideBlocks : ExtTreeMap String Block
  cumulativeWork : ExtTreeMap String Nat
  orphanPool : ExtTreeMap String (List (Block × UInt64 × String))
  orphanByHash : ExtTreeMap String String
  canonIndex : ExtTreeMap String UInt64
  cachedStateRoot : Option (UInt64 × String)
  pendingReorgRecovery : Option ReorgRecovery
  db : Db

namespace ChainState

def empty (db : Db) : ChainState :=
  { blocks := []
    difficulty := difficultyFloor
    balances := ∅
    nonces := ∅
    seenTxs := ∅
    seenBlocks := ∅
    sideBlocks := ∅
    cumulativeWork := ∅
    orphanPool := ∅
    orphanByHash := ∅
    canonIndex := ∅
    cachedStateRoot := none
    pendingReorgRecovery := none
    db := db }

def currentHeight (g : ChainState) : UInt64 :=
  match g.blocks.getLast? with
  | some blk => blk.header.number
  | none => 0

def tipHash (g : ChainState) : String :=
  match g.blocks.getLast? with
  | some blk => blk.header.powHash
  | none => nullHash

def nonceOf (g : ChainState) (address : String) : UInt64 :=
  (g.nonces[address]?).getD 0

def blockByHash (g : ChainState) (hash : String) : Option Block :=
  match g.canonIndex[hash]? with
  | some h => g.blocks[h.toNat]?
  | none => g.sideBlocks[hash]?

def refreshCachedStateRootFromTip (g : ChainState) : ChainState :=
  { g with
    cachedStateRoot := g.blocks.getLast?.map fun tip => (tip.header.number, tip.header.stateRoot) }

/-- The recorded cumulative work of a hash, 0 when there is none. -/
def workOf (g : ChainState) (hash : String) : Nat :=
  (g.cumulativeWork[hash]?).getD 0

end ChainState

end VisionCore
