import VisionCore.Chain.Verdict

/-!
# Account states up to zero entries

A restored snapshot has lost its zero entries.  Execution, the coinbase and the
state root read an account through its balance and its nonce, 0 when there is no
entry, so that nothing depends on the entries that hold zero.
-/

namespace VisionCore

open Std
open Foundation

/-- Every account has the same balance and the same nonce in both states. -/
structure SameAccounts (state state' : TxExecutionState) : Prop where
  balances : EqualUpTo 0 state.balances state'.balances
  nonces : EqualUpTo 0 state.nonces state'.nonces

namespace SameAccounts

variable {state state' state'' : TxExecutionState}

theorem refl (state : TxExecutionState) : SameAccounts state state where
  balances := EqualUpTo.refl 0 _
  nonces := EqualUpTo.refl 0 _

theorem symm (h : SameAccounts state state') : SameAccounts state' state where
  balances := h.balances.symm
  nonces := h.nonces.symm

theorem trans (h : SameAccounts state state') (h' : SameAccounts state' state'') :
    SameAccounts state state'' where
  balances := h.balances.trans h'.balances
  nonces := h.nonces.trans h'.nonces

theorem balanceOf (h : SameAccounts state state') (address : String) :
    state.balanceOf address = state'.balanceOf address :=
  h.balances address

theorem nonceOf (h : SameAccounts state state') (address : String) :
    state.nonceOf address = state'.nonceOf address :=
  h.nonces address

end SameAccounts

/-- Restoring a snapshot keeps its accounts. -/
theorem sameAccounts_normalize (state : TxExecutionState) :
    SameAccounts
      { balances := normalizeBalances state.balances, nonces := normalizeNonces state.nonces }
      state where
  balances := EqualUpTo.filter 0 state.balances
  nonces := EqualUpTo.filter 0 state.nonces

/-!
# Outcomes
-/

/-- Two computations fail alike, or end in the same accounts. -/
inductive SameOutcome {error : Type} :
    Except error TxExecutionState -> Except error TxExecutionState -> Prop where
  | ok {state state' : TxExecutionState} : SameAccounts state state' ->
      SameOutcome (.ok state) (.ok state')
  | error (e : error) : SameOutcome (.error e) (.error e)

namespace SameOutcome

variable {error error' : Type} {x x' : Except error TxExecutionState}

theorem of_ok (h : SameOutcome x x') {state : TxExecutionState} (hx : x = .ok state) :
    exists state', x' = .ok state' ∧ SameAccounts state state' := by
  cases h with
  | ok hsame =>
      cases hx
      exact ⟨_, rfl, hsame⟩
  | error e => cases hx

theorem bind {k k' : TxExecutionState -> Except error TxExecutionState} (h : SameOutcome x x')
    (hk : forall state state', SameAccounts state state' -> SameOutcome (k state) (k' state')) :
    SameOutcome (x >>= k) (x' >>= k') := by
  cases h with
  | ok hsame => exact hk _ _ hsame
  | error e => exact SameOutcome.error e

theorem mapErr {f : error -> error'} {x x' : Except (Stop error) TxExecutionState}
    (h : SameOutcome x x') : SameOutcome (mapErr f x) (VisionCore.mapErr f x') := by
  cases h with
  | ok hsame => exact SameOutcome.ok hsame
  | error e =>
      cases e with
      | fault _ => exact SameOutcome.error _
      | err _ => exact SameOutcome.error _

end SameOutcome

/-!
# Execution
-/

section Execution

variable {P : Platform} {state state' : TxExecutionState} {blk : Block}

/-- One transaction has one outcome in both states. -/
theorem simulateTxExecution_same (h : SameAccounts state state') (tx : Tx) :
    (simulateTxExecution P state tx).1 = (simulateTxExecution P state' tx).1 ∧
      SameAccounts (simulateTxExecution P state tx).2 (simulateTxExecution P state' tx).2 := by
  unfold simulateTxExecution
  dsimp only
  rw [h.nonceOf, h.balanceOf tx.senderPubkey]
  split
  · exact ⟨rfl, h⟩
  · split
    · exact ⟨rfl, h⟩
    · split
      · exact ⟨rfl, h⟩
      · split
        · exact ⟨rfl, h⟩
        · rename_i args _
          rw [h.balanceOf args.«to»]
          split
          · exact ⟨rfl, h⟩
          · split
            · exact ⟨rfl, h⟩
            · split
              · exact ⟨rfl, h⟩
              · split
                · exact ⟨rfl, h⟩
                · split
                  · exact ⟨rfl, h⟩
                  · split
                    · exact ⟨rfl, h⟩
                    · exact ⟨rfl, (h.balances.insert _ _).insert _ _, h.nonces.insert _ _⟩

theorem executeTxsFrom_same (h : SameAccounts state state') (index : Nat) (txs : List Tx) :
    SameOutcome (executeTxsFrom P index state txs) (executeTxsFrom P index state' txs) := by
  induction txs generalizing index state state' with
  | nil => exact SameOutcome.ok h
  | cons tx rest ih =>
      have hone := simulateTxExecution_same (P := P) h tx
      unfold executeTxsFrom
      generalize simulateTxExecution P state tx = result at hone
      generalize simulateTxExecution P state' tx = result' at hone
      rcases result with ⟨outcome, post⟩
      rcases result' with ⟨outcome', post'⟩
      rcases hone with ⟨houtcome, hpost⟩
      dsimp only at houtcome hpost
      subst houtcome
      cases outcome with
      | ok _ => exact ih hpost (index + 1)
      | error e => exact SameOutcome.error _

theorem applyCoinbaseReward_same (h : SameAccounts state state') (miner : String)
    (height : UInt64) :
    SameOutcome (applyCoinbaseReward P state miner height)
      (applyCoinbaseReward P state' miner height) := by
  unfold applyCoinbaseReward
  split
  · exact SameOutcome.error _
  · rw [h.balanceOf miner]
    cases (liftFault (blockReward P height) : Except (Stop CoinbaseError) Nat) with
    | error e => exact SameOutcome.error e
    | ok reward =>
        simp only [bind, Except.bind]
        split
        · exact SameOutcome.error _
        · exact SameOutcome.ok ⟨h.balances.insert _ _, h.nonces⟩

theorem creditMiner_same (h : SameAccounts state state') :
    SameOutcome (creditMiner P state blk) (creditMiner P state' blk) := by
  unfold creditMiner
  split
  · exact applyCoinbaseReward_same h _ _
  · exact SameOutcome.ok h

/-!
# The state root
-/

theorem balanceEntries_eq (balances : ExtTreeMap String Nat) :
    balanceEntries balances = (normalizeBalances balances).toList := by
  unfold balanceEntries normalizeBalances
  rw [ExtTreeMap.toList_filter]

theorem nonceEntries_eq (nonces : ExtTreeMap String UInt64) :
    nonceEntries nonces =
      (normalizeNonces nonces).toList.map fun entry => (entry.1, entry.2.toNat) := by
  unfold nonceEntries normalizeNonces
  rw [ExtTreeMap.toList_filter, List.filter_map]
  congr 1
  refine List.filter_congr ?_
  intro entry _
  have hzero : (0 : UInt64).toNat = 0 := rfl
  rw [Function.comp_apply, Bool.eq_iff_iff, bne_iff_ne, bne_iff_ne, not_iff_not,
    ← UInt64.toNat_inj, hzero]

theorem canonicalStateVector_same (h : SameAccounts state state') :
    canonicalStateVector state.balances state.nonces =
      canonicalStateVector state'.balances state'.nonces := by
  have hbalances : normalizeBalances state.balances = normalizeBalances state'.balances :=
    h.balances.filter_eq
  have hnonces : normalizeNonces state.nonces = normalizeNonces state'.nonces :=
    h.nonces.filter_eq
  unfold canonicalStateVector appendBalances appendNonces
  rw [balanceEntries_eq, nonceEntries_eq, hbalances, hnonces, ← balanceEntries_eq,
    ← nonceEntries_eq]

/-- The root commits to the accounts alone. -/
theorem computeStateRoot_same (h : SameAccounts state state') :
    computeStateRoot P state.balances state.nonces =
      computeStateRoot P state'.balances state'.nonces := by
  unfold computeStateRoot
  rw [canonicalStateVector_same h]

/-!
# Blocks
-/

theorem replayBlock_same (h : SameAccounts state state') :
    SameOutcome (replayBlock P state blk) (replayBlock P state' blk) := by
  have hexecuted := executeTxsFrom_same (P := P) h 1 (blk.txs.drop 1)
  unfold replayBlock executeNonCoinbaseTxs
  generalize executeTxsFrom P 1 state (blk.txs.drop 1) = outcome at hexecuted
  generalize executeTxsFrom P 1 state' (blk.txs.drop 1) = outcome' at hexecuted
  cases hexecuted with
  | ok hsame => exact (creditMiner_same hsame).mapErr
  | error e => exact SameOutcome.error _

theorem executeCandidate_same (h : SameAccounts state state') :
    SameOutcome (executeCandidate P blk state) (executeCandidate P blk state') := by
  have hexecuted := executeTxsFrom_same (P := P) h 1 (blk.txs.drop 1)
  unfold executeCandidate executeNonCoinbaseTxs
  generalize executeTxsFrom P 1 state (blk.txs.drop 1) = outcome at hexecuted
  generalize executeTxsFrom P 1 state' (blk.txs.drop 1) = outcome' at hexecuted
  cases hexecuted with
  | error e => exact SameOutcome.error _
  | ok hsame =>
      refine (creditMiner_same hsame).mapErr.bind ?_
      intro post post' hpost
      rw [computeStateRoot_same hpost]
      split
      · exact SameOutcome.error _
      · split
        · exact SameOutcome.error _
        · exact SameOutcome.ok hpost

/-- The verdict on a block reads the accounts of its parent alone. -/
theorem lineVerdict_same (h : SameAccounts state state') (now : UInt64) (parent : Block)
    (rest : List Block) :
    SameOutcome (lineVerdict P now blk parent rest state)
      (lineVerdict P now blk parent rest state') := by
  unfold lineVerdict validateInContext
  cases checkTimestamp P now parent blk with
  | error e => exact SameOutcome.error e
  | ok _ =>
      cases liftReject (checkDifficulty (lineWindow (parent :: rest)) blk) with
      | error e => exact SameOutcome.error e
      | ok _ =>
          cases liftReject (checkPow P (lineWindow (parent :: rest)) blk) with
          | error e => exact SameOutcome.error e
          | ok _ =>
              cases checkCoinbaseHeight blk with
              | error e => exact SameOutcome.error e
              | ok _ =>
                  cases liftReject (checkTxIds P blk) with
                  | error e => exact SameOutcome.error e
                  | ok _ => exact executeCandidate_same h

end Execution

end VisionCore
