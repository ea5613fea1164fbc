import VisionCore.Chain.StateRoot
import VisionCore.Chain.Storage

/-!
# State snapshots
-/

namespace VisionCore

open Std

/-!
# Save
-/

inductive SnapshotError where
  | stateRoot (height : UInt64) (e : StateRootError)
  | storage (e : StorageError)
deriving DecidableEq, Repr

/-- Writes in order, stopping at the first that fails. -/
def writeSequence (host : Host) (db : Db) : List DbOp -> Except StorageError Unit × Db × Host
  | [] => (.ok (), db, host)
  | op :: rest =>
      match host.write db [op] with
      | (.ok (), db', host') => writeSequence host' db' rest
      | (.error e, db', host') => (.error e, db', host')

/-- The four keys of a snapshot, in the order in which they are written. -/
def snapshotEntries (g : ChainState) (height : UInt64) (stateRoot : String) : List DbOp :=
  [.insert (.snapBalances height) (.balances g.balances),
    .insert (.snapNonces height) (.nonces g.nonces),
    .insert (.snapshot height) (.snapshotMeta height g.tipHash),
    .insert (.snapshotStateRoot height) (.stateRoot stateRoot)]

def saveSnapshot (P : Platform) (host : Host) (g : ChainState) (height : UInt64) :
    Except SnapshotError Unit × Db × Host :=
  match computeStateRoot P g.balances g.nonces with
  | .error e => (.error (.stateRoot height e), g.db, host)
  | .ok stateRoot =>
      match writeSequence host g.db (snapshotEntries g height stateRoot) with
      | (.ok (), db, host) => (.ok (), db, host)
      | (.error e, db, host) => (.error (.storage e), db, host)

def maybeSaveSnapshot (P : Platform) (host : Host) (g : ChainState) :
    Except SnapshotError Unit × Db × Host :=
  let height := g.currentHeight
  if height = 0 ∨ height % snapshotEvery ≠ 0 then (.ok (), g.db, host)
  else saveSnapshot P host g height

/-!
# Restore
-/

inductive RestoreError where
  | noSnapshot (maxHeight : UInt64)
  | missingMetadata
  | undecodable (key : DbKey)
  | metadataHeight (key stored : UInt64)
  | load (e : LoadError)
  | hashMismatch (snapshot canonical : String) (height : UInt64)
  | stateRoot (height : UInt64) (e : StateRootError)
  | storedRootMismatch (height : UInt64) (stored computed : String)
  | blockRootMismatch (height : UInt64) (computed header : String)
deriving DecidableEq, Repr

def normalizeBalances (balances : ExtTreeMap String Nat) : ExtTreeMap String Nat :=
  balances.filter fun _ amount => amount != 0

def normalizeNonces (nonces : ExtTreeMap String UInt64) : ExtTreeMap String UInt64 :=
  nonces.filter fun _ nonce => nonce != 0

def loadSnapshotMeta (db : Db) (height : UInt64) : Except RestoreError (UInt64 × String) :=
  match db.get (.snapshot height) with
  | none => .error .missingMetadata
  | some (.snapshotMeta stored hash) => .ok (stored, hash)
  | some _ => .error (.undecodable (.snapshot height))

def loadSnapBalances (db : Db) (height : UInt64) :
    Except RestoreError (ExtTreeMap String Nat) :=
  match db.get (.snapBalances height) with
  | none => .ok ∅
  | some (.balances entries) => .ok entries
  | some _ => .error (.undecodable (.snapBalances height))

def loadSnapNonces (db : Db) (height : UInt64) :
    Except RestoreError (ExtTreeMap String UInt64) :=
  match db.get (.snapNonces height) with
  | none => .ok ∅
  | some (.nonces entries) => .ok entries
  | some _ => .error (.undecodable (.snapNonces height))

/-- The stored root, when there is one, must be the computed one. -/
def checkStoredRoot (db : Db) (height : UInt64) (computed : String) :
    Except RestoreError Unit :=
  match db.get (.snapshotStateRoot height) with
  | none => .ok ()
  | some (.stateRoot stored) =>
      if stored ≠ computed then .error (.storedRootMismatch height stored computed) else .ok ()
  | some _ => .error (.undecodable (.snapshotStateRoot height))

/-- The account state of a snapshot and its root, once every check has passed. -/
def loadSnapshot (P : Platform) (db : Db) (height : UInt64) :
    Except RestoreError (TxExecutionState × String) := do
  let (metadataHeight, snapshotHash) <- loadSnapshotMeta db height
  if metadataHeight ≠ height then .error (.metadataHeight height metadataHeight)
  else
    match loadHeightIndex db height with
    | .error e => .error (.load e)
    | .ok none => .error (.load (.missingHeightIndex height))
    | .ok (some canonicalHash) =>
        if snapshotHash ≠ canonicalHash then
          .error (.hashMismatch snapshotHash canonicalHash height)
        else
          match loadBlock db canonicalHash with
          | .error e => .error (.load e)
          | .ok none => .error (.load (.missingBlock canonicalHash height))
          | .ok (some canonicalBlock) => do
              let balances <- loadSnapBalances db height
              let nonces <- loadSnapNonces db height
              let balances := normalizeBalances balances
              let nonces := normalizeNonces nonces
              match computeStateRoot P balances nonces with
              | .error e => .error (.stateRoot height e)
              | .ok computedStateRoot => do
                  checkStoredRoot db height computedStateRoot
                  let isGenesisDevSnapshot :=
                    height == 0 && canonicalBlock.header.stateRoot == nullHash
                  if canonicalBlock.header.stateRoot ≠ computedStateRoot ∧
                      !isGenesisDevSnapshot then
                    .error (.blockRootMismatch height computedStateRoot
                      canonicalBlock.header.stateRoot)
                  else
                    return ({ balances := balances, nonces := nonces }, computedStateRoot)

/-- Rebuild the index, the works and the seen set from the vector of blocks. -/
def indexBlock (P : Platform) (entry : ChainState × Nat) (blk : Block) :
    Except Fault (ChainState × Nat) := do
  let g := entry.1
  let cw <- addU128 P entry.2 blk.header.difficulty.toNat
  return ({ g with
      canonIndex := g.canonIndex.insert blk.hash blk.header.number
      cumulativeWork := g.cumulativeWork.insert blk.hash cw
      seenBlocks := g.seenBlocks.insert blk.hash }, cw)

def rebuildIndexes (P : Platform) (g : ChainState) : Except Fault ChainState := do
  let cleared := { g with canonIndex := ∅, cumulativeWork := ∅, seenBlocks := ∅ }
  let indexed <- g.blocks.foldlM (indexBlock P) (cleared, 0)
  return indexed.1

def restoreSnapshotAt (P : Platform) (g : ChainState) (height : UInt64) :
    Except (Stop RestoreError) ChainState :=
  match loadSnapshot P g.db height with
  | .error e => .error (.err e)
  | .ok (state, computedStateRoot) => do
      let keep <- liftFault (addU64 P height 1)
      let restored <- liftFault (rebuildIndexes P
        { g with
          balances := state.balances
          nonces := state.nonces
          blocks := g.blocks.take keep.toNat })
      return { restored with cachedStateRoot := some (height, computedStateRoot) }

/-- The heights that have snapshot metadata, newest first, up to `maxHeight`. -/
def snapshotHeights (db : Db) (maxHeight : UInt64) : List UInt64 :=
  (heightRange 0 maxHeight).reverse.filter fun h => (db.get (.snapshot h)).isSome

/-- The first of the heights whose snapshot is accepted. -/
def restoreFirst (P : Platform) (g : ChainState) (maxHeight : UInt64) :
    List UInt64 -> Except (Stop RestoreError) (ChainState × UInt64)
  | [] => .error (.err (.noSnapshot maxHeight))
  | height :: rest =>
      match restoreSnapshotAt P g height with
      | .ok g => .ok (g, height)
      | .error (.fault f) => .error (.fault f)
      | .error (.err _) => restoreFirst P g maxHeight rest

def restoreLatestSnapshot (P : Platform) (g : ChainState) (maxHeight : UInt64) :
    Except (Stop RestoreError) (ChainState × UInt64) :=
  restoreFirst P g maxHeight (snapshotHeights g.db maxHeight)

end VisionCore
