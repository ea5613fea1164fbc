import VisionCore.Chain.Supply

/-!
# The exact effect of a transfer

Execution leaves the accounts as they are or moves exactly what the transaction
says: every check comes before the first write.
-/

namespace VisionCore

open Std
open Foundation

/-- What a successful execution has checked and done. -/
structure Transferred (P : Platform) (state : TxExecutionState) (tx : Tx)
    (outcome : TxExecutionOutcome) (state' : TxExecutionState) : Prop where
  valid : validateTxStateless P tx = .ok ()
  nonce : tx.nonce = state.nonceOf tx.senderPubkey
  sender : outcome.sender = tx.senderPubkey
  args : exists args, decodeCashTransferArgs P tx.args = .ok args ∧
    outcome.recipient = args.«to» ∧ outcome.amount = args.amount
  other : outcome.recipient ≠ outcome.sender
  fee : outcome.chargedFee.toNat = 1 + tx.tip.toNat
  fee_le : outcome.chargedFee ≤ tx.feeLimit
  cost_lt : outcome.amount + outcome.chargedFee.toNat < u128Bound
  sent : state'.balanceOf outcome.sender + (outcome.amount + outcome.chargedFee.toNat) =
    state.balanceOf outcome.sender
  received : state'.balanceOf outcome.recipient =
    state.balanceOf outcome.recipient + outcome.amount
  received_lt : state'.balanceOf outcome.recipient < u128Bound
  counted : (state'.nonceOf outcome.sender).toNat = (state.nonceOf outcome.sender).toNat + 1
  next : state'.nonceOf outcome.sender = outcome.nextSenderNonce
  balances : forall address, address ≠ outcome.sender -> address ≠ outcome.recipient ->
    state'.balances[address]? = state.balances[address]?
  nonces : forall address, address ≠ outcome.sender ->
    state'.nonces[address]? = state.nonces[address]?
  burnt : supply state' + outcome.chargedFee.toNat = supply state

section Execution

variable {P : Platform} {state state' : TxExecutionState} {tx : Tx} {args : CashTransferArgs}

theorem spend_balances_of_ne {address : String} (hsender : address ≠ tx.senderPubkey)
    (hto : address ≠ args.«to») :
    (spend state tx args).balances[address]? = state.balances[address]? := by
  unfold spend
  dsimp only
  rw [getElem?_insert_ite, if_neg hto.symm, getElem?_insert_ite, if_neg hsender.symm]

theorem spend_nonces_of_ne {address : String} (hsender : address ≠ tx.senderPubkey) :
    (spend state tx args).nonces[address]? = state.nonces[address]? := by
  unfold spend
  dsimp only
  rw [getElem?_insert_ite, if_neg hsender.symm]

theorem Spends.transferred (h : Spends P state tx args) :
    Transferred P state tx (transferOutcome tx args) (spend state tx args) := by
  have hfee : (cashTransferBaseFee + tx.tip).toNat = transferFee tx := addU64_toNat h.fee_lt
  have hother := h.args_ok.2.2
  have hfunded := h.funded
  have hnext : (spend state tx args).nonceOf tx.senderPubkey = tx.nonce + 1 := by
    rw [spend_nonceOf, if_pos rfl]
  have hreceived : (spend state tx args).balanceOf args.«to» =
      state.balanceOf args.«to» + args.amount := by
    rw [spend_balanceOf, if_pos rfl]
  constructor
  · exact h.valid
  · exact h.nonce
  · rfl
  · exact ⟨args, h.args_eq, rfl, rfl⟩
  · exact hother
  · exact hfee
  · dsimp only [transferOutcome]
    rw [UInt64.le_iff_toNat_le, hfee]
    exact h.fee_le
  · dsimp only [transferOutcome]
    rw [hfee]
    exact h.cost_lt
  · dsimp only [transferOutcome]
    rw [spend_balanceOf, if_neg hother, if_pos rfl, hfee]
    omega
  · exact hreceived
  · dsimp only [transferOutcome]
    rw [hreceived]
    exact h.received_lt
  · dsimp only [transferOutcome]
    rw [hnext, ← h.nonce, h.next_toNat]
  · exact hnext
  · exact fun address hsender hto => spend_balances_of_ne hsender hto
  · exact fun address hsender => spend_nonces_of_ne hsender
  · dsimp only [transferOutcome]
    rw [hfee]
    exact h.supply_eq

/-- A refused transaction leaves the state as it was. -/
theorem simulateTxExecution_error {e : TxExecutionError}
    (h : simulateTxExecution P state tx = (.error e, state')) : state' = state := by
  unfold simulateTxExecution at h
  split at h
  · cases h
    rfl
  · split at h
    · cases h
      rfl
    · dsimp only at h
      split at h
      · cases h
        rfl
      · split at h
        · cases h
          rfl
        · split at h
          · cases h
            rfl
          · split at h
            · cases h
              rfl
            · split at h
              · cases h
                rfl
              · split at h
                · cases h
                  rfl
                · split at h
                  · cases h
                    rfl
                  · split at h
                    · cases h
                      rfl
                    · cases h

/-- A transaction is refused and changes nothing, or it moves exactly its amount
and burns exactly its fee. -/
theorem simulate_exact (P : Platform) (state : TxExecutionState) (tx : Tx) :
    (exists e, simulateTxExecution P state tx = (.error e, state)) ∨
      exists outcome state', simulateTxExecution P state tx = (.ok outcome, state') ∧
        Transferred P state tx outcome state' := by
  cases hrun : simulateTxExecution P state tx with
  | mk result state' =>
      cases result with
      | error e => exact Or.inl ⟨e, by rw [simulateTxExecution_error hrun]⟩
      | ok outcome =>
          rcases Spends.of_simulate hrun with ⟨args, hspends, _⟩
          have heq := hspends.simulate_eq
          rw [hrun] at heq
          rw [heq]
          exact Or.inr ⟨_, _, rfl, hspends.transferred⟩

end Execution

end VisionCore
