import VisionCore.Chain.Validity
import VisionCore.Types.Spending

/-!
# The supply

Transfers burn their fee and move the rest, and only the coinbase reward creates
balance.  The supply of a chain is what its blocks have credited less the fees,
so that no balance of a reachable state comes near the bound of a `u128`.
-/

namespace VisionCore

open Foundation

/-- The sum of all balances. -/
def supply (state : TxExecutionState) : Nat :=
  mapSum id state.balances

/-- The fees charged by a block. -/
def feesOf (blk : Block) : Nat :=
  ((blk.txs.drop 1).map transferFee).sum

/-- The reward credited for a block. -/
def subsidyOf (P : Platform) (blk : Block) : Nat :=
  if blk.header.number ≠ 0 then
    match blockReward P blk.header.number with
    | .ok reward => reward
    | .error _ => 0
  else 0

/-!
# One step
-/

section Steps

variable {P : Platform} {state state' : TxExecutionState} {tx : Tx} {txs : List Tx}
  {args : CashTransferArgs} {blk : Block}

theorem mapSum_insert_balance (balances : Std.ExtTreeMap String Nat) (address : String)
    (value : Nat) :
    mapSum id (balances.insert address value) + (balances[address]?).getD 0 =
      mapSum id balances + value := by
  have hold := mapSum_eq_getD id balances address (v := 0) rfl
  have hnew := mapSum_insert id balances address value
  dsimp only [id] at hold hnew
  omega

theorem balanceOf_le_supply (state : TxExecutionState) (address : String) :
    state.balanceOf address ≤ supply state := by
  have hold := mapSum_eq_getD id state.balances address (v := 0) rfl
  unfold TxExecutionState.balanceOf supply
  dsimp only [id] at hold
  omega

/-- Two accounts together hold no more than the supply. -/
theorem balanceOf_add_le_supply (state : TxExecutionState) {a b : String} (hne : a ≠ b) :
    state.balanceOf a + state.balanceOf b ≤ supply state := by
  have hfirst := mapSum_eq_getD id state.balances a (v := 0) rfl
  have hsecond := mapSum_eq_getD id (state.balances.erase a) b (v := 0) rfl
  rw [getElem?_erase_ite, if_neg hne] at hsecond
  unfold TxExecutionState.balanceOf supply
  dsimp only [id] at hfirst hsecond
  omega

theorem Spends.supply_eq (h : Spends P state tx args) :
    supply (spend state tx args) + transferFee tx = supply state := by
  have hfunded := h.funded
  have hother := h.args_ok.2.2
  have hsent := mapSum_insert_balance state.balances tx.senderPubkey
    (state.balanceOf tx.senderPubkey - (args.amount + transferFee tx))
  have hpaid := mapSum_insert_balance
    (state.balances.insert tx.senderPubkey
      (state.balanceOf tx.senderPubkey - (args.amount + transferFee tx))) args.«to»
    (state.balanceOf args.«to» + args.amount)
  rw [getElem?_insert_ite, if_neg hother.symm] at hpaid
  unfold TxExecutionState.balanceOf at hsent hpaid hfunded
  unfold supply spend TxExecutionState.balanceOf
  dsimp only
  omega

theorem executeTxsFrom_cons {index : Nat} :
    executeTxsFrom P index state (tx :: txs) = .ok state' ↔
      exists args, Spends P state tx args ∧
        executeTxsFrom P (index + 1) (spend state tx args) txs = .ok state' := by
  constructor
  · intro h
    unfold executeTxsFrom at h
    cases hrun : simulateTxExecution P state tx with
    | mk result after =>
        rw [hrun] at h
        cases result with
        | error e => cases h
        | ok outcome =>
            rcases Spends.of_simulate hrun with ⟨args, hspends, rfl⟩
            exact ⟨args, hspends, h⟩
  · rintro ⟨args, hspends, hrest⟩
    rcases hspends.simulate with ⟨outcome, hrun⟩
    unfold executeTxsFrom
    rw [hrun]
    exact hrest

theorem executeTxsFrom_supply {index : Nat}
    (h : executeTxsFrom P index state txs = .ok state') :
    supply state' + (txs.map transferFee).sum = supply state := by
  induction txs generalizing index state with
  | nil =>
      cases h
      rfl
  | cons tx rest ih =>
      rcases executeTxsFrom_cons.mp h with ⟨args, hspends, hrest⟩
      have hone := hspends.supply_eq
      have hmany := ih hrest
      rw [List.map_cons, List.sum_cons]
      omega

theorem applyCoinbaseReward_supply {miner : String} {height : UInt64} {reward : Nat}
    (hreward : blockReward P height = .ok reward)
    (h : applyCoinbaseReward P state miner height = .ok state') :
    supply state' = supply state + reward := by
  unfold applyCoinbaseReward at h
  split at h
  · cases h
  · rw [hreward] at h
    dsimp only [bind, Except.bind, liftFault] at h
    cases hbalance : checkedAddU128 (state.balanceOf miner) reward with
    | none =>
        rw [hbalance] at h
        cases h
    | some balance =>
        rw [hbalance] at h
        cases h
        rcases checkedAddU128_eq_some.mp hbalance with ⟨_, rfl⟩
        have hinsert := mapSum_insert_balance state.balances miner (state.balanceOf miner + reward)
        unfold TxExecutionState.balanceOf at hinsert
        unfold supply TxExecutionState.balanceOf
        dsimp only
        omega

theorem creditMiner_supply (h : creditMiner P state blk = .ok state') :
    supply state' = supply state + subsidyOf P blk := by
  unfold creditMiner at h
  unfold subsidyOf
  split at h
  · rename_i hnumber
    rw [if_pos hnumber]
    cases hreward : blockReward P blk.header.number with
    | error f =>
        unfold applyCoinbaseReward at h
        rw [hreward] at h
        split at h <;> cases h
    | ok reward => exact applyCoinbaseReward_supply hreward h
  · rename_i hnumber
    cases h
    rw [if_neg hnumber]
    rfl

theorem replayBlock_supply (h : replayBlock P state blk = .ok state') :
    supply state' + feesOf blk = supply state + subsidyOf P blk := by
  unfold replayBlock executeNonCoinbaseTxs at h
  cases hexecuted : executeTxsFrom P 1 state (blk.txs.drop 1) with
  | error e =>
      rw [hexecuted] at h
      cases h
  | ok executed =>
      rw [hexecuted] at h
      have hfees := executeTxsFrom_supply hexecuted
      have hcredit := creditMiner_supply (mapErr_eq_ok.mp h)
      unfold feesOf
      omega

theorem blockReward_le {height : UInt64} {reward : Nat} (h : blockReward P height = .ok reward) :
    reward ≤ emissionPerBlock := by
  unfold blockReward shrU128 at h
  split_ifs at h
  · cases h
    exact Nat.shiftRight_le _ _
  · cases h
    exact Nat.shiftRight_le _ _

theorem subsidyOf_le (P : Platform) (blk : Block) : subsidyOf P blk ≤ emissionPerBlock := by
  unfold subsidyOf
  split
  · cases hreward : blockReward P blk.header.number with
    | error f => exact Nat.zero_le _
    | ok reward => exact blockReward_le hreward
  · exact Nat.zero_le _

end Steps

/-!
# A whole chain
-/

section Chains

variable {P : Platform} {D : Block -> Prop} {g : ChainState} {state : TxExecutionState}
  {blocks : List Block}

/-- A replay from empty accounts creates the subsidies and burns the fees. -/
theorem replay_supply {before : TxExecutionState}
    (h : blocks.foldlM (replayBlock P) before = .ok state) :
    supply state + (blocks.map feesOf).sum = supply before + (blocks.map (subsidyOf P)).sum := by
  induction blocks generalizing before with
  | nil =>
      cases h
      rfl
  | cons blk rest ih =>
      rw [List.foldlM_cons] at h
      rcases bind_eq_ok.mp h with ⟨middle, hone, hrest⟩
      have hstep := replayBlock_supply hone
      have htail := ih hrest
      simp only [List.map_cons, List.sum_cons]
      omega

theorem supply_new : supply .new = 0 := by
  decide

theorem replay_supply_le (h : blocks.foldlM (replayBlock P) .new = .ok state) :
    supply state ≤ blocks.length * emissionPerBlock := by
  have hsupply := replay_supply h
  have hsum : (blocks.map (subsidyOf P)).sum ≤ blocks.length * emissionPerBlock := by
    have hle := List.sum_le_card_nsmul (blocks.map (subsidyOf P)) emissionPerBlock (by
      intro value hvalue
      rcases List.mem_map.mp hvalue with ⟨blk, _, rfl⟩
      exact subsidyOf_le P blk)
    simpa using hle
  rw [supply_new] at hsupply
  omega

/-- The supply of a short enough chain leaves room in a `u128` for every reward. -/
theorem replay_supply_lt (hlength : blocks.length < u64Bound)
    (h : blocks.foldlM (replayBlock P) .new = .ok state) :
    supply state + emissionPerBlock < u128Bound := by
  have hle := replay_supply_le h
  have hbound : u64Bound * emissionPerBlock + emissionPerBlock < u128Bound := by decide
  have hmul : blocks.length * emissionPerBlock ≤ u64Bound * emissionPerBlock :=
    Nat.mul_le_mul_right _ (Nat.le_of_lt hlength)
  omega

theorem Replays.supply_lt (hr : Replays P g) (hg : Represents P D g) :
    supply g.accounts + emissionPerBlock < u128Bound :=
  replay_supply_lt hg.length_lt hr.accountState.replay

end Chains

end VisionCore
