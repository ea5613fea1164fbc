import VisionCore.Chain.State

/-!
# Block storage and the canonical height index
-/

namespace VisionCore

/-!
# Writes
-/

/-- The keys written for one canonical block: the block and its height entry. -/
def canonicalEntry (blk : Block) : List DbOp :=
  [.insert (.block blk.hash) (.block blk),
    .insert (.height blk.header.number) (.text blk.hash)]

def tipEntry (height : UInt64) (hash : String) : List DbOp :=
  [.insert .tipHeight (.number height), .insert .tipHash (.text hash)]

def storeBlock (host : Host) (g : ChainState) (blk : Block) :
    Except StorageError Unit × Db × Host :=
  host.write g.db [.insert (.block blk.hash) (.block blk)]

def persistCanonicalExtension (host : Host) (g : ChainState) (blk : Block) :
    Except StorageError Unit × Db × Host :=
  host.write g.db (canonicalEntry blk ++ tipEntry blk.header.number blk.hash)

/-- The heights `first..=last`. -/
def heightRange (first last : UInt64) : List UInt64 :=
  (List.range (last.toNat + 1 - first.toNat)).map fun i => UInt64.ofNat (first.toNat + i)

def persistCanonicalReorg (P : Platform) (host : Host) (g : ChainState)
    (canonicalBlocks : List Block) (previousTipHeight : UInt64) :
    Except Fault (Except StorageError Unit × Db × Host) :=
  match canonicalBlocks.getLast? with
  | none => .ok (.error .emptyCanonicalChain, g.db, host)
  | some tip => do
      let newTipHeight := tip.header.number
      let firstStale <- addU64 P newTipHeight 1
      let stale :=
        (heightRange firstStale previousTipHeight).map fun h => DbOp.remove (.height h)
      return host.write g.db
        (canonicalBlocks.flatMap canonicalEntry ++ stale ++ tipEntry newTipHeight tip.hash)

/-- Record the canonical hash of a height, and the tip when the height is no
lower than the recorded one. -/
def storeHeightIndex (host : Host) (db : Db) (height : UInt64) (hash : String) :
    Except StorageError Unit × Db × Host :=
  match host.write db [.insert (.height height) (.text hash)] with
  | (.error e, db, host) => (.error e, db, host)
  | (.ok (), db, host) =>
      let currentTip :=
        match db.get .tipHeight with
        | some (.number n) => n
        | _ => 0
      if height ≥ currentTip then
        match host.write db [.insert .tipHeight (.number height)] with
        | (.error e, db, host) => (.error e, db, host)
        | (.ok (), db, host) => host.write db [.insert .tipHash (.text hash)]
      else (.ok (), db, host)

/-!
# Reads
-/

inductive LoadError where
  | undecodable (key : DbKey)
  | missingTipHeight
  | missingHeightIndex (height : UInt64)
  | missingBlock (hash : String) (height : UInt64)
deriving DecidableEq, Repr

/-- The decimal number stored under `meta:tip_height`. -/
def loadTipHeight (db : Db) : Except LoadError (Option UInt64) :=
  match db.get .tipHeight with
  | none => .ok none
  | some (.number n) => .ok (some n)
  | some _ => .error (.undecodable .tipHeight)

def loadGenesisHash (db : Db) : Except LoadError (Option String) :=
  match db.get .genesisHash with
  | none => .ok none
  | some (.text s) => .ok (some s)
  | some (.number n) => .ok (some (toString n.toNat))
  | some _ => .error (.undecodable .genesisHash)

def loadHeightIndex (db : Db) (height : UInt64) : Except LoadError (Option String) :=
  match db.get (.height height) with
  | none => .ok none
  | some (.text s) => .ok (some s)
  | some (.number n) => .ok (some (toString n.toNat))
  | some _ => .error (.undecodable (.height height))

def loadBlock (db : Db) (hash : String) : Except LoadError (Option Block) :=
  match db.get (.block hash) with
  | none => .ok none
  | some (.block blk) => .ok (some blk)
  | some _ => .error (.undecodable (.block hash))

/-- The canonical hash and block of a height. -/
def loadCanonicalBlock (db : Db) (height : UInt64) : Except LoadError (String × Block) := do
  match <- loadHeightIndex db height with
  | none => .error (.missingHeightIndex height)
  | some hash =>
      match <- loadBlock db hash with
      | none => .error (.missingBlock hash height)
      | some blk => .ok (hash, blk)

/-- Push the stored canonical block of a height, with `cumulative` the work below it. -/
def reloadBlock (P : Platform) (entry : ChainState × Nat) (height : UInt64) :
    Except (Stop LoadError) (ChainState × Nat) := do
  let g := entry.1
  match loadCanonicalBlock g.db height with
  | .error e => .error (.err e)
  | .ok (hash, blk) =>
      let cumulative <- liftFault (addU128 P entry.2 blk.header.difficulty.toNat)
      return ({ g with
          seenBlocks := g.seenBlocks.insert hash
          canonIndex := g.canonIndex.insert hash blk.header.number
          cumulativeWork := g.cumulativeWork.insert hash cumulative
          blocks := g.blocks ++ [blk] }, cumulative)

def loadCanonChain (P : Platform) (g : ChainState) : Except (Stop LoadError) ChainState :=
  match loadTipHeight g.db with
  | .error e => .error (.err e)
  | .ok none => .ok g
  | .ok (some tipHeight) => do
      let loaded <- (heightRange 0 tipHeight).foldlM (reloadBlock P) (g, 0)
      return loaded.1

end VisionCore
