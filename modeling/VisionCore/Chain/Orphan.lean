import VisionCore.Chain.State

/-!
# The orphan pool

Blocks whose parent is unknown wait under the parent's hash.  Promotion, which
calls block acceptance back, is defined with acceptance itself.
-/

namespace VisionCore

open Std

abbrev OrphanEntry := Block × UInt64 × String

def orphanCount (g : ChainState) : Nat :=
  (g.orphanPool.toList.map fun slot => slot.2.length).sum

/-- Every stored entry with its key and position, in pool order. -/
def orphanSlots (g : ChainState) : List (String × Nat × UInt64) :=
  g.orphanPool.toList.flatMap fun slot =>
    slot.2.zipIdx.map fun entry => (slot.1, entry.2, entry.1.2.1)

/-- The globally oldest entry; the first one wins among equal timestamps. -/
def oldestOrphan (g : ChainState) : Option (String × Nat × UInt64) :=
  (orphanSlots g).foldl
    (fun oldest slot =>
      match oldest with
      | none => some slot
      | some best => if slot.2.2 < best.2.2 then some slot else some best)
    none

def evictOrphan (g : ChainState) (key : String) (pos : Nat) : ChainState :=
  match g.orphanPool[key]? with
  | none => g
  | some entries =>
      let orphanByHash :=
        match entries[pos]? with
        | some evicted => g.orphanByHash.erase evicted.1.hash
        | none => g.orphanByHash
      let entries := entries.eraseIdx pos
      { g with
        orphanByHash := orphanByHash
        orphanPool :=
          if entries.isEmpty then g.orphanPool.erase key
          else g.orphanPool.insert key entries }

def pruneOldOrphans (g : ChainState) : ChainState :=
  if orphanCount g < orphanPoolMax then g
  else
    match oldestOrphan g with
    | none => g
    | some (key, pos, _) => evictOrphan g key pos

def addOrphan (now : UInt64) (g : ChainState) (blk : Block) (sourcePeer : String) :
    ChainState :=
  let parent := blk.header.parentHash
  let g := pruneOldOrphans g
  let waiting := (g.orphanPool[parent]?).getD []
  { g with
    orphanByHash := g.orphanByHash.insert blk.hash parent
    orphanPool := g.orphanPool.insert parent (waiting ++ [(blk, now, sourcePeer)]) }

/-- Take the blocks that wait for `parentHash` out of the pool. -/
def takeWaiting (g : ChainState) (parentHash : String) : ChainState :=
  { g with orphanPool := g.orphanPool.erase parentHash }

/-- Drop the reverse index entry of a block about to be offered again. -/
def forgetOrphan (g : ChainState) (hash : String) : ChainState :=
  { g with orphanByHash := g.orphanByHash.erase hash }

end VisionCore
