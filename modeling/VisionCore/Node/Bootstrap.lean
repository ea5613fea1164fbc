import VisionCore.Chain.Accept

/-!
# Start-up

Opening the database, writing or verifying genesis, and recovering the account
state from the newest snapshot or from genesis.
-/

namespace VisionCore

inductive StartupError where
  | genesis (e : GenesisError)
  | load (e : LoadError)
  | storage (e : StorageError)
  | heightMismatch (height reported : UInt64)
  | replayRejected (height : UInt64) (hash : String) (result : AcceptResult)
deriving DecidableEq, Repr

/-- Open the database and reload the stored canonical chain. -/
def openWithGenesis (P : Platform) (db : Db) : Except (Stop StartupError) ChainState :=
  mapErr .load (loadCanonChain P (ChainState.empty db))

/-!
# Genesis
-/

/-- The three writes of a fresh database, in order. -/
def writeGenesis (host : Host) (db : Db) : Except StorageError Unit × Db × Host :=
  match host.write db [.insert (.block genesisBlock.hash) (.block genesisBlock)] with
  | (.error e, db, host) => (.error e, db, host)
  | (.ok (), db, host) =>
      match storeHeightIndex host db 0 genesisBlock.hash with
      | (.error e, db, host) => (.error e, db, host)
      | (.ok (), db, host) =>
          host.write db [.insert .genesisHash (.text genesisBlock.hash)]

def bootstrapChain (P : Platform) (host : Host) (g : ChainState) :
    Except StartupError (ChainState × Host) :=
  match validateGenesisHash P with
  | .error e => .error (.genesis e)
  | .ok () =>
      match loadGenesisHash g.db with
      | .error e => .error (.load e)
      | .ok none =>
          match writeGenesis host g.db with
          | (.error e, _, _) => .error (.storage e)
          | (.ok (), db, host) =>
              .ok ({ g with
                db := db
                blocks := g.blocks ++ [genesisBlock]
                canonIndex := g.canonIndex.insert genesisBlock.hash 0 }, host)
      | .ok (some storedHash) =>
          match verifyStoredGenesis storedHash with
          | .error e => .error (.genesis e)
          | .ok () => .ok (g, host)

/-!
# Recovery of the account state
-/

def requireTipHeight (db : Db) : Except StartupError UInt64 :=
  match loadTipHeight db with
  | .error e => .error (.load e)
  | .ok none => .error (.load .missingTipHeight)
  | .ok (some tipHeight) => .ok tipHeight

/-- The stored canonical block of a height, which must report that height. -/
def requireCanonicalBlock (db : Db) (height : UInt64) : Except StartupError (String × Block) :=
  match loadCanonicalBlock db height with
  | .error e => .error (.load e)
  | .ok (hash, blk) =>
      if blk.header.number ≠ height then .error (.heightMismatch height blk.header.number)
      else .ok (hash, blk)

/-- Apply a stored block, which must extend the chain at its height. -/
def replayStoredBlock (P : Platform) (entry : ChainState × Host) (height : UInt64)
    (hash : String) (blk : Block) : Except (Stop StartupError) (ChainState × Host) := do
  let applied <- liftFault (applyBlock P entry.2 entry.1 blk none)
  if applied.result = .canonExtension height then
    return (applied.chain.refreshCachedStateRootFromTip, applied.host)
  else .error (.err (.replayRejected height hash applied.result))

def replayStoredHeight (P : Platform) (entry : ChainState × Host) (height : UInt64) :
    Except (Stop StartupError) (ChainState × Host) :=
  match requireCanonicalBlock entry.1.db height with
  | .error e => .error (.err e)
  | .ok (hash, blk) => replayStoredBlock P entry height hash blk

def replayStoredCanonicalTail (P : Platform) (host : Host) (g : ChainState)
    (restoredHeight : UInt64) : Except (Stop StartupError) (ChainState × Host) :=
  match requireTipHeight g.db with
  | .error e => .error (.err e)
  | .ok tipHeight =>
      if tipHeight ≤ restoredHeight then .ok (g.refreshCachedStateRootFromTip, host)
      else do
        let first <- liftFault (addU64 P restoredHeight 1)
        (heightRange first tipHeight).foldlM (replayStoredHeight P) (g, host)

/-- The state that a full rebuild starts from. -/
def clearedForRebuild (g : ChainState) : ChainState :=
  { g with
    blocks := []
    canonIndex := ∅
    cumulativeWork := ∅
    seenBlocks := ∅
    balances := ∅
    nonces := ∅
    cachedStateRoot := none }

def rebuildCanonicalStateFromGenesis (P : Platform) (host : Host) (g : ChainState) :
    Except (Stop StartupError) (ChainState × Host) :=
  match requireTipHeight g.db with
  | .error e => .error (.err e)
  | .ok tipHeight =>
      match (heightRange 0 tipHeight).mapM (requireCanonicalBlock g.db) with
      | .error e => .error (.err e)
      | .ok stored =>
          (stored.map Prod.snd).foldlM
            (fun entry blk => replayStoredBlock P entry blk.header.number blk.hash blk)
            (clearedForRebuild g, host)

/-- The last stage of start-up: the newest valid snapshot and the tail above it,
or a rebuild from genesis when there is none. -/
def recoverAccountState (P : Platform) (host : Host) (g : ChainState) :
    Except (Stop StartupError) (ChainState × Host) :=
  match restoreLatestSnapshot P g g.currentHeight with
  | .ok (restored, restoredHeight) => replayStoredCanonicalTail P host restored restoredHeight
  | .error (.fault f) => .error (.fault f)
  | .error (.err _) =>
      if g.currentHeight > 0 then rebuildCanonicalStateFromGenesis P host g
      else .ok (g, host)

def initializeChainState (P : Platform) (host : Host) (db : Db) :
    Except (Stop StartupError) (ChainState × Host) := do
  let opened <- openWithGenesis P db
  match bootstrapChain P host opened with
  | .error e => .error (.err e)
  | .ok (g, host) => recoverAccountState P host g.refreshCachedStateRootFromTip

end VisionCore
