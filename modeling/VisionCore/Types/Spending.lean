import VisionCore.Foundation.OrderedMap
import VisionCore.Types.Identifiers

/-!
# When a transfer executes

The checks of execution as one predicate on the state and the transaction, and
what executed transfers do to the nonces.
-/

namespace VisionCore

open Std

/-- The fee of a transfer, before any check that it fits. -/
def transferFee (tx : Tx) : Nat :=
  cashTransferBaseFee.toNat + tx.tip.toNat

/-- A transfer that the state can execute, with its decoded arguments. -/
structure Spends (P : Platform) (state : TxExecutionState) (tx : Tx) (args : CashTransferArgs) :
    Prop where
  module_eq : tx.module = "cash"
  method_eq : tx.method = "transfer"
  valid : validateTxStateless P tx = .ok ()
  nonce : tx.nonce = state.nonceOf tx.senderPubkey
  args_eq : decodeCashTransferArgs P tx.args = .ok args
  fee_lt : transferFee tx < u64Bound
  fee_le : transferFee tx ≤ tx.feeLimit.toNat
  cost_lt : args.amount + transferFee tx < u128Bound
  funded : args.amount + transferFee tx ≤ state.balanceOf tx.senderPubkey
  received_lt : state.balanceOf args.«to» + args.amount < u128Bound
  next_lt : tx.nonce.toNat + 1 < u64Bound

/-- The state after a transfer. -/
def spend (state : TxExecutionState) (tx : Tx) (args : CashTransferArgs) : TxExecutionState :=
  { balances :=
      (state.balances.insert tx.senderPubkey
        (state.balanceOf tx.senderPubkey - (args.amount + transferFee tx))).insert args.«to»
          (state.balanceOf args.«to» + args.amount)
    nonces := state.nonces.insert tx.senderPubkey (tx.nonce + 1) }

/-- What the execution of a transfer reports. -/
def transferOutcome (tx : Tx) (args : CashTransferArgs) : TxExecutionOutcome :=
  { sender := tx.senderPubkey
    recipient := args.«to»
    amount := args.amount
    chargedFee := cashTransferBaseFee + tx.tip
    nextSenderNonce := tx.nonce + 1 }

section Execution

variable {P : Platform} {state state' : TxExecutionState} {tx : Tx} {args : CashTransferArgs}

theorem addU64_toNat {a b : UInt64} (h : a.toNat + b.toNat < u64Bound) :
    (a + b).toNat = a.toNat + b.toNat := by
  rw [UInt64.toNat_add]
  exact Nat.mod_eq_of_lt h

theorem checkedAddU64_eq_some {a b c : UInt64} :
    checkedAddU64 a b = some c ↔ a.toNat + b.toNat < u64Bound ∧ c = a + b := by
  unfold checkedAddU64
  split <;> simp_all [eq_comm]

theorem checkedAddU128_eq_some {a b c : Nat} :
    checkedAddU128 a b = some c ↔ a + b < u128Bound ∧ c = a + b := by
  unfold checkedAddU128
  split <;> simp_all [eq_comm]

theorem Spends.simulate_eq (h : Spends P state tx args) :
    simulateTxExecution P state tx = (.ok (transferOutcome tx args), spend state tx args) := by
  have hfee : (cashTransferBaseFee + tx.tip).toNat = transferFee tx := addU64_toNat h.fee_lt
  have hlimit : ¬cashTransferBaseFee + tx.tip > tx.feeLimit := by
    rw [gt_iff_lt, UInt64.lt_iff_toNat_lt, hfee]
    exact Nat.not_lt.mpr h.fee_le
  unfold simulateTxExecution
  rw [if_neg (by simp [h.module_eq, h.method_eq]), h.valid]
  dsimp only
  rw [if_neg (not_not.mpr h.nonce), h.args_eq]
  dsimp only
  rw [checkedAddU64_eq_some.mpr ⟨h.fee_lt, rfl⟩]
  dsimp only
  rw [if_neg hlimit, hfee, checkedAddU128_eq_some.mpr ⟨h.cost_lt, rfl⟩]
  dsimp only
  rw [if_neg (Nat.not_lt.mpr h.funded), checkedAddU128_eq_some.mpr ⟨h.received_lt, rfl⟩]
  dsimp only
  rw [← h.nonce, checkedAddU64_eq_some.mpr ⟨h.next_lt, rfl⟩]
  rfl

theorem Spends.simulate (h : Spends P state tx args) :
    exists outcome, simulateTxExecution P state tx = (.ok outcome, spend state tx args) :=
  ⟨_, h.simulate_eq⟩

theorem Spends.of_simulate {outcome : TxExecutionOutcome}
    (h : simulateTxExecution P state tx = (.ok outcome, state')) :
    exists args, Spends P state tx args ∧ state' = spend state tx args := by
  unfold simulateTxExecution at h
  by_cases hkind : tx.module ≠ "cash" ∨ tx.method ≠ "transfer"
  · rw [if_pos hkind] at h
    cases h
  · rw [if_neg hkind] at h
    have hnames : tx.module = "cash" ∧ tx.method = "transfer" := by simpa using hkind
    cases hvalid : validateTxStateless P tx with
    | error e =>
        rw [hvalid] at h
        cases h
    | ok _ =>
        rw [hvalid] at h
        dsimp only at h
        by_cases hnonce : tx.nonce = state.nonceOf tx.senderPubkey
        · rw [if_neg (not_not.mpr hnonce)] at h
          cases hargs : decodeCashTransferArgs P tx.args with
          | error e =>
              rw [hargs] at h
              cases h
          | ok args =>
              rw [hargs] at h
              dsimp only at h
              cases hcharged : checkedAddU64 cashTransferBaseFee tx.tip with
              | none =>
                  rw [hcharged] at h
                  cases h
              | some chargedFee =>
                  rw [hcharged] at h
                  rcases checkedAddU64_eq_some.mp hcharged with ⟨hfee_lt, rfl⟩
                  have hfee : (cashTransferBaseFee + tx.tip).toNat = transferFee tx :=
                    addU64_toNat hfee_lt
                  dsimp only at h
                  by_cases hlimit : cashTransferBaseFee + tx.tip > tx.feeLimit
                  · rw [if_pos hlimit] at h
                    cases h
                  · rw [if_neg hlimit, hfee] at h
                    cases htotal : checkedAddU128 args.amount (transferFee tx) with
                    | none =>
                        rw [htotal] at h
                        cases h
                    | some totalCost =>
                        rw [htotal] at h
                        rcases checkedAddU128_eq_some.mp htotal with ⟨hcost_lt, rfl⟩
                        dsimp only at h
                        by_cases hfunds : state.balanceOf tx.senderPubkey <
                            args.amount + transferFee tx
                        · rw [if_pos hfunds] at h
                          cases h
                        · rw [if_neg hfunds] at h
                          cases hreceived :
                              checkedAddU128 (state.balanceOf args.«to») args.amount with
                          | none =>
                              rw [hreceived] at h
                              cases h
                          | some received =>
                              rw [hreceived] at h
                              rcases checkedAddU128_eq_some.mp hreceived with ⟨hreceived_lt, rfl⟩
                              dsimp only at h
                              rw [← hnonce] at h
                              cases hnext : checkedAddU64 tx.nonce 1 with
                              | none =>
                                  rw [hnext] at h
                                  cases h
                              | some next =>
                                  rw [hnext] at h
                                  rcases checkedAddU64_eq_some.mp hnext with ⟨hnext_lt, rfl⟩
                                  cases h
                                  refine ⟨args, ?_, rfl⟩
                                  constructor
                                  · exact hnames.1
                                  · exact hnames.2
                                  · exact hvalid
                                  · exact hnonce
                                  · exact hargs
                                  · exact hfee_lt
                                  · rw [gt_iff_lt, UInt64.lt_iff_toNat_lt, hfee] at hlimit
                                    exact Nat.not_lt.mp hlimit
                                  · exact hcost_lt
                                  · exact Nat.not_lt.mp hfunds
                                  · exact hreceived_lt
                                  · exact hnext_lt
        · rw [if_pos hnonce] at h
          cases h

theorem spend_nonceOf (state : TxExecutionState) (tx : Tx) (args : CashTransferArgs)
    (address : String) :
    (spend state tx args).nonceOf address =
      if address = tx.senderPubkey then tx.nonce + 1 else state.nonceOf address := by
  unfold spend TxExecutionState.nonceOf
  dsimp only
  rw [Foundation.getElem?_insert_ite]
  by_cases haddress : address = tx.senderPubkey
  · rw [if_pos haddress, if_pos haddress.symm]
    rfl
  · rw [if_neg haddress, if_neg (fun h => haddress h.symm)]

theorem Spends.next_toNat (h : Spends P state tx args) :
    (tx.nonce + 1).toNat = tx.nonce.toNat + 1 :=
  addU64_toNat h.next_lt

/-- A nonce never goes back. -/
theorem Spends.nonceOf_le (h : Spends P state tx args) (address : String) :
    (state.nonceOf address).toNat ≤ ((spend state tx args).nonceOf address).toNat := by
  rw [spend_nonceOf]
  split
  · rename_i haddress
    rw [haddress, ← h.nonce, h.next_toNat]
    exact Nat.le_succ _
  · exact Nat.le_refl _

theorem Spends.serializedTxSize_le (h : Spends P state tx args) :
    serializedTxSize tx ≤ maxSerializedTxBytes := by
  have hvalid := h.valid
  unfold validateTxStateless at hvalid
  split at hvalid
  · cases hvalid
  · rename_i hsize
    exact Nat.not_lt.mp hsize

theorem Spends.sender_length_lt (h : Spends P state tx args) :
    byteLen tx.senderPubkey < u64Bound := by
  have hkey := byteLen_senderPubkey_le tx
  have hsize := h.serializedTxSize_le
  have hbound : maxSerializedTxBytes < u64Bound := by decide
  omega

theorem Spends.sender_ne (h : Spends P state tx args) : tx.senderPubkey ≠ "" := by
  intro hempty
  have hvalid := h.valid
  unfold validateTxStateless at hvalid
  rw [if_neg (Nat.not_lt.mpr h.serializedTxSize_le), if_neg (by simp [h.module_eq]),
    if_pos hempty] at hvalid
  cases hvalid

theorem validateTxStateless_transfer (hmodule : tx.module = "cash")
    (h : validateTxStateless P tx = .ok ()) : validateCashTransferStateless P tx = .ok () := by
  unfold validateTxStateless at h
  split_ifs at h
  · rename_i hcoinbase
    rw [hmodule] at hcoinbase
    exact absurd hcoinbase.1 (by decide)
  · exact h

/-- What stateless validation says of the arguments of a transfer. -/
theorem validateCashTransferStateless_args (h : validateCashTransferStateless P tx = .ok ())
    (hargs : decodeCashTransferArgs P tx.args = .ok args) :
    isLowercaseHex32Bytes args.«to» = true ∧ args.amount ≠ 0 ∧ args.«to» ≠ tx.senderPubkey := by
  unfold validateCashTransferStateless at h
  split at h
  · cases h
  · cases hsignature : verifyTxSignature P tx with
    | error e =>
        rw [hsignature] at h
        cases h
    | ok _ =>
        rw [hsignature, hargs] at h
        dsimp only at h
        split_ifs at h with hdestination hzero hself
        exact ⟨by simpa using hdestination, hzero, hself⟩

theorem Spends.args_ok (h : Spends P state tx args) :
    isLowercaseHex32Bytes args.«to» = true ∧ args.amount ≠ 0 ∧ args.«to» ≠ tx.senderPubkey :=
  validateCashTransferStateless_args (validateTxStateless_transfer h.module_eq h.valid) h.args_eq

/-!
# Balances
-/

/-- What a transfer takes from an account. -/
def takenFrom (P : Platform) (tx : Tx) (address : String) : Nat :=
  match decodeCashTransferArgs P tx.args with
  | .ok args => if tx.senderPubkey = address then args.amount + transferFee tx else 0
  | .error _ => 0

/-- What a transfer pays to an account. -/
def paidTo (P : Platform) (tx : Tx) (address : String) : Nat :=
  match decodeCashTransferArgs P tx.args with
  | .ok args => if args.«to» = address then args.amount else 0
  | .error _ => 0

theorem spend_balanceOf (state : TxExecutionState) (tx : Tx) (args : CashTransferArgs)
    (address : String) :
    (spend state tx args).balanceOf address =
      if args.«to» = address then state.balanceOf args.«to» + args.amount
      else if tx.senderPubkey = address then
        state.balanceOf tx.senderPubkey - (args.amount + transferFee tx)
      else state.balanceOf address := by
  unfold spend
  rw [TxExecutionState.balanceOf]
  dsimp only
  rw [Foundation.getElem?_insert_ite, Foundation.getElem?_insert_ite]
  split_ifs
  · rfl
  · rfl
  · rfl

/-- An executed transfer moves what it takes and pays. -/
theorem Spends.balance (h : Spends P state tx args) (address : String) :
    (spend state tx args).balanceOf address + takenFrom P tx address =
      state.balanceOf address + paidTo P tx address := by
  have hother := h.args_ok.2.2
  have hfunded := h.funded
  unfold takenFrom paidTo
  rw [spend_balanceOf, h.args_eq]
  dsimp only
  by_cases hto : args.«to» = address
  · have hsender : tx.senderPubkey ≠ address := fun heq => hother (hto.trans heq.symm)
    rw [if_pos hto, if_neg hsender, if_pos hto, hto]
    rfl
  · rw [if_neg hto, if_neg hto]
    by_cases hsender : tx.senderPubkey = address
    · rw [if_pos hsender, if_pos hsender, ← hsender]
      omega
    · rw [if_neg hsender, if_neg hsender]

end Execution

end VisionCore
