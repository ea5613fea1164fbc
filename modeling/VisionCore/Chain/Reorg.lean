import VisionCore.Chain.Execution
import VisionCore.Chain.StateRoot
import VisionCore.Chain.Storage

/-!
# Reorganisation
-/

namespace VisionCore

open Std

/-!
# The new segment
-/

/-- The loop of `collectNewSegment`.  Running out of fuel means that the walk
visits a side block twice, on which the source's loop does not end. -/
def collectNewSegmentLoop (g : ChainState) :
    Nat -> String -> List Block -> Except Fault (List Block)
  | 0, _, _ => .error .diverges
  | fuel + 1, current, segment =>
      if g.canonIndex.contains current then .ok segment
      else
        match g.sideBlocks[current]? with
        | some blk => collectNewSegmentLoop g fuel blk.header.parentHash (blk :: segment)
        | none => .ok []

/-- One iteration for every side block and one for the canonical ancestor. -/
def sideWalkFuel (g : ChainState) : Nat :=
  g.sideBlocks.size + 1

def collectNewSegment (g : ChainState) (tipHash : String) : Except Fault (List Block) :=
  collectNewSegmentLoop g (sideWalkFuel g) tipHash []

/-!
# Replay with state-root validation
-/

/-- Execute one block and compare the root with its header. -/
def replayBlockChecked (P : Platform) (state : TxExecutionState) (blk : Block) :
    Except (Stop SideStateReconstructionError) TxExecutionState :=
  match executeNonCoinbaseTxs P state blk with
  | .error (_, e) => .error (.err (.execution e))
  | .ok state =>
      if blk.header.number ≠ 0 then
        match applyCoinbaseReward P state blk.header.miner blk.header.number with
        | .error (.fault f) => .error (.fault f)
        | .error (.err e) => .error (.err (.coinbaseReward e))
        | .ok state =>
            match computeStateRoot P state.balances state.nonces with
            | .error _ => .error (.err .stateRootConstructionFailed)
            | .ok computedRoot =>
                if computedRoot ≠ blk.header.stateRoot then
                  .error (.err (.stateRootMismatch blk.hash blk.header.stateRoot computedRoot))
                else .ok state
      else .ok state

def reconstructCanonicalStateChecked (P : Platform) (g : ChainState) (height : UInt64) :
    Except (Stop SideStateReconstructionError) TxExecutionState := do
  let count <- liftFault (addU64 P height 1)
  (g.blocks.take count.toNat).foldlM (replayBlockChecked P) .new

def reconstructBranchStateFrom (P : Platform) :
    String -> TxExecutionState -> List Block ->
      Except (Stop SideStateReconstructionError) TxExecutionState
  | _, state, [] => .ok state
  | expectedParent, state, blk :: rest =>
      if blk.header.parentHash ≠ expectedParent then
        .error (.err (.brokenAncestry expectedParent blk.header.parentHash))
      else do
        let state <- replayBlockChecked P state blk
        reconstructBranchStateFrom P blk.hash state rest

def reconstructBranchState (P : Platform) (ancestorHash : String)
    (ancestorState : TxExecutionState) (branch : List Block) :
    Except (Stop SideStateReconstructionError) TxExecutionState :=
  reconstructBranchStateFrom P ancestorHash ancestorState branch

/-!
# The exchange of branches
-/

def nonCoinbaseTxs (blk : Block) : List Tx :=
  blk.txs.drop 1

/-- The identifiers of the segment's transactions, as an ordered set. -/
def winningTxIds (P : Platform) (segment : List Block) : ExtTreeSet String :=
  ((segment.flatMap nonCoinbaseTxs).map (canonicalTxId P)).foldl ExtTreeSet.insert ∅

def displacedTxs (P : Platform) (demoted segment : List Block) : List Tx :=
  (demoted.flatMap nonCoinbaseTxs).filter fun tx =>
    !(winningTxIds P segment).contains (canonicalTxId P tx)

/-- Move a demoted block from the canonical index to the side blocks. -/
def demoteBlock (g : ChainState) (blk : Block) : ChainState :=
  { g with
    canonIndex := g.canonIndex.erase blk.hash
    sideBlocks := g.sideBlocks.insert blk.hash blk }

/-- Append a block of the new segment, with `cw` the work below it. -/
def promoteBlock (P : Platform) (entry : ChainState × Nat) (blk : Block) :
    Except Fault (ChainState × Nat) := do
  let g := entry.1
  let cw <- addU128 P entry.2 blk.header.difficulty.toNat
  return ({ g with
      canonIndex := g.canonIndex.insert blk.hash blk.header.number
      sideBlocks := g.sideBlocks.erase blk.hash
      cumulativeWork := g.cumulativeWork.insert blk.hash cw
      seenBlocks := g.seenBlocks.insert blk.hash
      blocks := g.blocks ++ [blk] }, cw)

/-- The work of the common ancestor, summed from the chain when it is missing. -/
def ancestorWork (P : Platform) (g : ChainState) (commonHash : String)
    (kept : List Block) : Except Fault Nat :=
  match g.cumulativeWork[commonHash]? with
  | some cw => .ok cw
  | none => kept.foldlM (fun acc blk => addU128 P acc blk.header.difficulty.toNat) 0

/-- `blocks[..=height]`, where the last height of the type is never in range. -/
def sliceToInclusive (blocks : List Block) (height : UInt64) : Except Fault (List Block) :=
  if height.toNat + 1 < u64Bound ∧ height.toNat < blocks.length then .ok (blocks.take (height.toNat + 1))
  else .error .indexOutOfRange

/-- The validated inputs of the exchange: the ancestor's height, the segment,
and the replayed account state with its root. -/
structure ReorgPlan where
  commonHash : String
  commonHeight : UInt64
  segment : List Block
  state : TxExecutionState
  stateRoot : String

/-- The checks of `tryReorg` that come before any change. -/
def planReorg (P : Platform) (g : ChainState) (newTip : Block) :
    Except (Stop ReorgAbort) ReorgPlan := do
  let segment <- liftFault (collectNewSegment g newTip.hash)
  match segment with
  | [] => .error (.err (.cannotTraceAncestry newTip.hash))
  | first :: _ =>
      let commonHash := first.header.parentHash
      match g.canonIndex[commonHash]? with
      | none => .error (.err (.ancestorNotCanonical commonHash))
      | some commonHeight =>
          let ancestorState <-
            mapErr .ancestorReplay (reconstructCanonicalStateChecked P g commonHeight)
          let state <-
            mapErr .branchReplay (reconstructBranchState P commonHash ancestorState segment)
          match computeStateRoot P state.balances state.nonces with
          | .error _ => .error (.err .stateRootConstruction)
          | .ok root =>
              if root ≠ newTip.header.stateRoot then
                .error (.err (.stateRootMismatch newTip.hash))
              else
                .ok
                  { commonHash := commonHash
                    commonHeight := commonHeight
                    segment := segment
                    state := state
                    stateRoot := root }

/-- The chain state after the exchange, before it is persisted. -/
def exchangeBranches (P : Platform) (g : ChainState) (plan : ReorgPlan) :
    Except Fault (ChainState × List Block) := do
  let demotedFrom <- addU64 P plan.commonHeight 1
  let demoted := g.blocks.drop demotedFrom.toNat
  let kept <- sliceToInclusive g.blocks plan.commonHeight
  let lowered := { demoted.foldl demoteBlock g with blocks := kept }
  let cw <- ancestorWork P g plan.commonHash kept
  let raised <- plan.segment.foldlM (promoteBlock P) (lowered, cw)
  return (raised.1, demoted)

def tryReorg (P : Platform) (host : Host) (g : ChainState) (newTip : Block) :
    Except Fault (Option ReorgRecovery × ChainState × Host) :=
  match planReorg P g newTip with
  | .error (.fault f) => .error f
  | .error (.err reason) => .ok (none, g, host.note (.aborted reason))
  | .ok plan => do
      let (raised, demoted) <- exchangeBranches P g plan
      let persisted <- persistCanonicalReorg P host g raised.blocks g.currentHeight
      match persisted with
      | (.error e, _, host) => return (none, g, host.note (.aborted (.persistence e)))
      | (.ok (), db, host) =>
          let recovery :=
            { displacedTxs := displacedTxs P demoted plan.segment
              winningTxIds := (winningTxIds P plan.segment).toList }
          let g' :=
            { raised with
              balances := plan.state.balances
              nonces := plan.state.nonces
              cachedStateRoot := some (newTip.header.number, plan.stateRoot)
              db := db }
          return (some recovery, g', host.note (.complete plan.commonHeight newTip.header.number))

end VisionCore
