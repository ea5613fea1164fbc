import VisionCore.Chain.State

/-!
# Block execution

The coinbase reward and the replay of a block's transactions, shared by
acceptance, side-chain reconstruction and reorgs.
-/

namespace VisionCore

/-- Block subsidy at `height`, halved every `halvingInterval` blocks. -/
def blockReward (P : Platform) (height : UInt64) : Except Fault Nat :=
  shrU128 P emissionPerBlock (height.toNat / halvingInterval)

def applyCoinbaseReward (P : Platform) (state : TxExecutionState) (miner : String)
    (height : UInt64) : Except (Stop CoinbaseError) TxExecutionState :=
  if byteLen miner ≠ 64 ∨ isLowercaseHex miner = false then
    .error (.err .invalidMinerAddress)
  else do
    let reward <- liftFault (blockReward P height)
    match checkedAddU128 (state.balanceOf miner) reward with
    | none => .error (.err .rewardOverflow)
    | some balance => .ok { state with balances := state.balances.insert miner balance }

/-- Execute `txs`, the first of which has the given index in its block. -/
def executeTxsFrom (P : Platform) :
    Nat -> TxExecutionState -> List Tx -> Except (Nat × TxExecutionError) TxExecutionState
  | _, state, [] => .ok state
  | index, state, tx :: rest =>
      match simulateTxExecution P state tx with
      | (.ok _, state') => executeTxsFrom P (index + 1) state' rest
      | (.error e, _) => .error (index, e)

def executeNonCoinbaseTxs (P : Platform) (state : TxExecutionState) (blk : Block) :
    Except (Nat × TxExecutionError) TxExecutionState :=
  executeTxsFrom P 1 state (blk.txs.drop 1)

/-- The reward is credited in every block but genesis. -/
def creditMiner (P : Platform) (state : TxExecutionState) (blk : Block) :
    Except (Stop CoinbaseError) TxExecutionState :=
  if blk.header.number ≠ 0 then
    applyCoinbaseReward P state blk.header.miner blk.header.number
  else .ok state

end VisionCore
