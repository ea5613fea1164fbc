import VisionCore.Chain.Commitment
import VisionCore.Mempool.Pool
import VisionCore.Miner.Agreement

/-!
# Block production from the mempool

A candidate is given up at the first transaction that does not execute.  Which
pending transactions execute can be read off the balances, the nonces and the
amounts, without running them.
-/

namespace VisionCore

open Foundation

/-!
# Payable transactions
-/

def takenBy (P : Platform) (txs : List Tx) (address : String) : Nat :=
  (txs.map fun tx => takenFrom P tx address).sum

def paidBy (P : Platform) (txs : List Tx) (address : String) : Nat :=
  (txs.map fun tx => paidTo P tx address).sum

def sentBy (txs : List Tx) (sender : String) : Nat :=
  txs.countP fun tx => tx.senderPubkey == sender

/-- A transfer that carries the next nonce of its sender after `before`, within
its fee limit and covered by what `before` leaves to the sender. -/
structure PayableAfter (P : Platform) (state : TxExecutionState) (before : List Tx) (tx : Tx) :
    Prop where
  module_eq : tx.module = "cash"
  method_eq : tx.method = "transfer"
  valid : validateTxStateless P tx = .ok ()
  nonce : tx.nonce.toNat =
    (state.nonceOf tx.senderPubkey).toNat + sentBy before tx.senderPubkey
  next_lt : tx.nonce.toNat + 1 < u64Bound
  fee_le : transferFee tx ≤ tx.feeLimit.toNat
  funded : takenBy P before tx.senderPubkey + takenFrom P tx tx.senderPubkey ≤
    state.balanceOf tx.senderPubkey + paidBy P before tx.senderPubkey

/-- Every transaction of the list is payable after the ones before it. -/
def Payable (P : Platform) (state : TxExecutionState) (txs : List Tx) : Prop :=
  forall before tx after, txs = before ++ tx :: after -> PayableAfter P state before tx

section Payment

variable {P : Platform} {state : TxExecutionState} {tx t : Tx} {before txs : List Tx}
  {args : CashTransferArgs}

theorem decodeCashTransferArgs_of_valid (hmodule : tx.module = "cash")
    (h : validateTxStateless P tx = .ok ()) :
    exists args, decodeCashTransferArgs P tx.args = .ok args := by
  have htransfer := validateTxStateless_transfer hmodule h
  unfold validateCashTransferStateless at htransfer
  split at htransfer
  · cases htransfer
  · cases hsignature : verifyTxSignature P tx with
    | error e =>
        rw [hsignature] at htransfer
        cases htransfer
    | ok _ =>
        rw [hsignature] at htransfer
        cases hargs : decodeCashTransferArgs P tx.args with
        | error e =>
            rw [hargs] at htransfer
            cases htransfer
        | ok args => exact ⟨args, rfl⟩

theorem takenFrom_sender (hargs : decodeCashTransferArgs P tx.args = .ok args) :
    takenFrom P tx tx.senderPubkey = args.amount + transferFee tx := by
  unfold takenFrom
  rw [hargs]
  exact if_pos rfl

/-- With nothing before it a payable transaction is one that executes. -/
theorem payableAfter_nil_iff (hsupply : supply state < u128Bound) :
    PayableAfter P state [] tx ↔ exists args, Spends P state tx args := by
  constructor
  · intro h
    rcases decodeCashTransferArgs_of_valid h.module_eq h.valid with ⟨args, hargs⟩
    have hto := (validateCashTransferStateless_args
      (validateTxStateless_transfer h.module_eq h.valid) hargs).2.2
    have hfunded : args.amount + transferFee tx ≤ state.balanceOf tx.senderPubkey := by
      have hcovered := h.funded
      rw [takenFrom_sender hargs] at hcovered
      simpa [takenBy, paidBy] using hcovered
    have hbalances := balanceOf_add_le_supply state hto
    have hlimit := tx.feeLimit.toNat_lt
    have hfee := h.fee_le
    refine ⟨args, ?_⟩
    constructor
    · exact h.module_eq
    · exact h.method_eq
    · exact h.valid
    · exact UInt64.toNat_inj.mp (by simpa [sentBy] using h.nonce)
    · exact hargs
    · unfold u64Bound
      omega
    · exact hfee
    · omega
    · exact hfunded
    · omega
    · exact h.next_lt
  · rintro ⟨args, h⟩
    constructor
    · exact h.module_eq
    · exact h.method_eq
    · exact h.valid
    · rw [h.nonce]
      rfl
    · exact h.next_lt
    · exact h.fee_le
    · rw [takenFrom_sender h.args_eq]
      simpa [takenBy, paidBy] using h.funded

/-- Executing the first transaction moves it in front of the others. -/
theorem Spends.payableAfter_iff (h : Spends P state tx args) :
    PayableAfter P (spend state tx args) before t ↔ PayableAfter P state (tx :: before) t := by
  have hbalance := h.balance t.senderPubkey
  have hsent : ((spend state tx args).nonceOf t.senderPubkey).toNat + sentBy before t.senderPubkey =
      (state.nonceOf t.senderPubkey).toNat + sentBy (tx :: before) t.senderPubkey := by
    unfold sentBy
    rw [spend_nonceOf, List.countP_cons]
    by_cases hsender : t.senderPubkey = tx.senderPubkey
    · rw [if_pos hsender, if_pos (beq_iff_eq.mpr hsender.symm), h.next_toNat, h.nonce, hsender]
      omega
    · rw [if_neg hsender, if_neg (fun heq => hsender (beq_iff_eq.mp heq).symm)]
      omega
  have htaken : takenBy P (tx :: before) t.senderPubkey =
      takenFrom P tx t.senderPubkey + takenBy P before t.senderPubkey := by
    simp [takenBy]
  have hpaid : paidBy P (tx :: before) t.senderPubkey =
      paidTo P tx t.senderPubkey + paidBy P before t.senderPubkey := by
    simp [paidBy]
  constructor
  · intro hp
    have hfunded := hp.funded
    refine ⟨hp.module_eq, hp.method_eq, hp.valid, hp.nonce.trans hsent, hp.next_lt, hp.fee_le, ?_⟩
    rw [htaken, hpaid]
    omega
  · intro hp
    have hfunded := hp.funded
    rw [htaken, hpaid] at hfunded
    refine ⟨hp.module_eq, hp.method_eq, hp.valid, hp.nonce.trans hsent.symm, hp.next_lt,
      hp.fee_le, ?_⟩
    omega

theorem Spends.supply_le (h : Spends P state tx args) :
    supply (spend state tx args) ≤ supply state := by
  have hsupply := h.supply_eq
  omega

/-- The simulation succeeds on exactly the payable lists. -/
theorem simulateTxs_iff_payable (hsupply : supply state < u128Bound) :
    (exists state', simulateTxs P state txs = some state') ↔ Payable P state txs := by
  induction txs generalizing state with
  | nil =>
      constructor
      · rintro _ before tx after hsplit
        exact absurd hsplit (by simp)
      · exact fun _ => ⟨state, rfl⟩
  | cons first rest ih =>
      constructor
      · rintro ⟨state', hrun⟩
        rcases simulateTxs_cons.mp hrun with ⟨args, hspends, hrest⟩
        have htail := (ih (Nat.lt_of_le_of_lt hspends.supply_le hsupply)).mp ⟨state', hrest⟩
        intro before t after hsplit
        cases before with
        | nil =>
            cases hsplit
            exact (payableAfter_nil_iff hsupply).mpr ⟨args, hspends⟩
        | cons b before =>
            cases hsplit
            exact hspends.payableAfter_iff.mp (htail before t after rfl)
      · intro hpayable
        rcases (payableAfter_nil_iff hsupply).mp (hpayable [] first rest rfl) with ⟨args, hspends⟩
        have htail : Payable P (spend state first args) rest := by
          intro before t after hsplit
          apply hspends.payableAfter_iff.mpr
          exact hpayable (first :: before) t after (by rw [hsplit]; rfl)
        rcases (ih (Nat.lt_of_le_of_lt hspends.supply_le hsupply)).mpr htail with ⟨state', hrest⟩
        exact ⟨state', simulateTxs_cons.mpr ⟨args, hspends, hrest⟩⟩

theorem simulateTxs_supply {state' : TxExecutionState}
    (h : simulateTxs P state txs = some state') : supply state' ≤ supply state := by
  have hfees := executeTxsFrom_supply (executeTxsFrom_of_simulateTxs 1 h)
  omega

end Payment

/-!
# Candidates
-/

section Candidates

variable {P : Platform} {D : Block -> Prop} {s g : ChainState} {calls : List Call}
  {params : VisionXParams} {now jobId : UInt64} {minerAddr : String} {txs : List Tx}

theorem applyCoinbaseReward_ok {state : TxExecutionState} {height : UInt64} {reward : Nat}
    (hminer : IsAccountKey minerAddr) (hreward : blockReward P height = .ok reward)
    (hroom : state.balanceOf minerAddr + reward < u128Bound) :
    applyCoinbaseReward P state minerAddr height =
      .ok { state with
        balances := state.balances.insert minerAddr (state.balanceOf minerAddr + reward) } := by
  unfold applyCoinbaseReward
  rw [if_neg (by simp [hminer.1, hminer.2]), hreward]
  dsimp only [bind, Except.bind, liftFault]
  rw [checkedAddU128_eq_some.mpr ⟨hroom, rfl⟩]

theorem applyCoinbaseReward_reward {state post : TxExecutionState} {height : UInt64}
    (h : applyCoinbaseReward P state minerAddr height = .ok post) :
    exists reward, blockReward P height = .ok reward := by
  unfold applyCoinbaseReward at h
  split at h
  · cases h
  · rcases bind_eq_ok.mp h with ⟨reward, hreward, _⟩
    exact ⟨reward, liftFault_eq_ok.mp hreward⟩

theorem AccountKeys.reward {state post : TxExecutionState} {height : UInt64}
    (hkeys : AccountKeys state) (h : applyCoinbaseReward P state minerAddr height = .ok post) :
    AccountKeys post := by
  unfold applyCoinbaseReward at h
  split at h
  · cases h
  · rename_i hminer
    rcases bind_eq_ok.mp h with ⟨reward, _, h⟩
    cases hbalance : checkedAddU128 (state.balanceOf minerAddr) reward with
    | none =>
        rw [hbalance] at h
        cases h
    | some balance =>
        rw [hbalance] at h
        cases h
        refine ⟨?_, hkeys.nonces⟩
        intro key hkey
        rcases mem_insert_iff.mp hkey with rfl | hkey
        · rw [not_or] at hminer
          exact ⟨not_not.mp hminer.1, by simpa using hminer.2⟩
        · exact hkeys.balances key hkey

theorem AccountKeys.simulateTxs {state state' : TxExecutionState} (hkeys : AccountKeys state)
    (h : VisionCore.simulateTxs P state txs = some state') : AccountKeys state' :=
  hkeys.executeTxs (executeTxsFrom_of_simulateTxs 1 h)

/-- A reachable chain has a tip, and its height and time leave room for a block. -/
theorem Represents.next_ok (hg : Represents P D g) :
    exists tip, g.blocks.getLast? = some tip ∧
      addU64 P tip.header.timestamp 1 = .ok (tip.header.timestamp + 1) ∧
      addU64 P tip.header.number 1 = .ok (tip.header.number + 1) := by
  cases htip : g.blocks.getLast? with
  | none =>
      have hempty : g.blocks.reverse = [] := by
        rw [List.getLast?_eq_none_iff.mp htip]
        rfl
      exact absurd hempty hg.chain.ne_nil
  | some tip =>
      rcases hg.path_of_last htip with ⟨rest, hpath, _⟩
      have hnumber := hg.number_le_timestamp hpath
      have htime := hg.timely (hpath.lookup List.mem_cons_self)
      have hbound : timestampBound + 1 < u64Bound := by decide
      have hone : (1 : UInt64).toNat = 1 := rfl
      exact ⟨tip, rfl, addU64_ok P (by omega), addU64_ok P (by omega)⟩

/-- The reward and the root of a candidate never fail on executed transactions. -/
theorem candidateStateRoot_some {state : TxExecutionState} {height : UInt64} {reward : Nat}
    (hkeys : AccountKeys state) (hsupply : supply state + emissionPerBlock < u128Bound)
    (hminer : IsAccountKey minerAddr) (hreward : blockReward P height = .ok reward) :
    exists root, candidateStateRoot P state minerAddr height = .ok (some root) := by
  have hle := blockReward_le hreward
  have hbalance := balanceOf_le_supply state minerAddr
  have hcredit := applyCoinbaseReward_ok hminer hreward
    (show state.balanceOf minerAddr + reward < u128Bound by omega)
  rcases (hkeys.reward hcredit).computeStateRoot P with ⟨root, hroot⟩
  refine ⟨root, ?_⟩
  unfold candidateStateRoot
  rw [hcredit]
  dsimp only
  rw [hroot]
  rfl

/-- On a reachable chain a candidate is built from exactly the payable lists. -/
theorem buildCandidateForTip_iff (hg : Represents P D g) (hr : Replays P g)
    (hminer : IsAccountKey minerAddr) :
    (exists job, buildCandidateForTip P params now jobId g minerAddr txs = .ok (some job)) ↔
      (exists reward, blockReward P (g.currentHeight + 1) = .ok reward) ∧
        Payable P g.accounts (txs.take (blockTargetTxs - 1)) := by
  have hsupply := hr.supply_lt hg
  have hbound : supply g.accounts < u128Bound := by omega
  constructor
  · rintro ⟨job, hjob⟩
    rcases buildCandidateForTip_built hjob with ⟨tip, executed, post, hbuilt⟩
    have hreward := applyCoinbaseReward_reward hbuilt.reward
    rw [hbuilt.number_eq, ← ChainState.currentHeight_of_last hbuilt.tip_eq] at hreward
    exact ⟨hreward, (simulateTxs_iff_payable hbound).mp ⟨executed, hbuilt.executes⟩⟩
  · rintro ⟨⟨reward, hreward⟩, hpayable⟩
    rcases (simulateTxs_iff_payable hbound).mpr hpayable with ⟨executed, hexecuted⟩
    rcases hg.next_ok with ⟨tip, htip, htime, hnumber⟩
    have hstate := hr.accountState
    have hkeys : AccountKeys g.accounts := ⟨hstate.balanceKeys, hstate.nonceKeys⟩
    have hspent := simulateTxs_supply hexecuted
    rw [ChainState.currentHeight_of_last htip] at hreward
    rcases candidateStateRoot_some (hkeys.simulateTxs hexecuted) (by omega) hminer hreward with
      ⟨root, hroot⟩
    unfold buildCandidateForTip buildCandidateWithParams
    rw [htip]
    dsimp only
    rw [htime, hnumber]
    simp only [bind, Except.bind, pure, Except.pure, List.drop_one, List.tail_cons]
    rw [show simulateTxs P { balances := g.balances, nonces := g.nonces }
      (txs.take (blockTargetTxs - 1)) = some executed from hexecuted]
    dsimp only
    rw [hroot]
    exact ⟨_, rfl⟩

/-- Whatever the mempool holds, a candidate is built from it exactly when the
transactions selected first are payable in the order of their insertion. -/
theorem candidateFromMempool_iff (hnumbered : NumberedFrom P D) (hgenesis : GenesisApplied P s)
    (hcalls : forall call, call ∈ calls -> D call.blk) (hrun : applyAll P s calls = .ok g)
    (hminer : IsAccountKey minerAddr) (pool : Mempool) :
    (exists job, buildCandidateForTip P params now jobId g minerAddr
      (pool.selectForBlock blockTargetTxs) = .ok (some job)) ↔
      (exists reward, blockReward P (g.currentHeight + 1) = .ok reward) ∧
        Payable P g.accounts ((pool.selectForBlock blockTargetTxs).take (blockTargetTxs - 1)) := by
  have hreached := (stepInvariant_replays P D).applyAll hnumbered hgenesis.represents
    hgenesis.replays hcalls hrun
  exact buildCandidateForTip_iff hreached.1 hreached.2 hminer

end Candidates

/-!
# Samples
-/

/-- The pool after one admission into the empty pool. -/
def admittedSample (g : ChainState) (tx : Tx) : Except MempoolAdmissionError AdmissionDecision × Mempool :=
  Mempool.empty.admitTx samplePlatform tx (g.nonceOf tx.senderPubkey)

/-- The miner of the first block pays out of its reward. -/
theorem minerTransfer_values :
    ((applyAll samplePlatform sampleGenesis [sampleCall firstBlock]).toOption.map fun g =>
      ((admittedSample g (sampleTransfer sampleMiner)).1,
        (buildCandidateForTip samplePlatform visionxParams 200 1 g sampleMiner
          ((admittedSample g (sampleTransfer sampleMiner)).2.selectForBlock
            blockTargetTxs)).toOption.join.isSome)) =
      some (.ok .accept, true) := by
  decide +kernel

theorem minerTransfer_payable : exists g,
    applyAll samplePlatform sampleGenesis [sampleCall firstBlock] = .ok g ∧
      (admittedSample g (sampleTransfer sampleMiner)).1 = .ok .accept ∧
      Payable samplePlatform g.accounts
        (((admittedSample g (sampleTransfer sampleMiner)).2.selectForBlock blockTargetTxs).take
          (blockTargetTxs - 1)) := by
  rcases toOption_map_eq_some minerTransfer_values with ⟨g, hrun, hvalues⟩
  rw [Prod.mk.injEq, Option.isSome_iff_exists] at hvalues
  rcases hvalues with ⟨hadmitted, job, hjob⟩
  rw [Option.join_eq_some_iff] at hjob
  have hbuilt : exists job, buildCandidateForTip samplePlatform visionxParams 200 1 g sampleMiner
      ((admittedSample g (sampleTransfer sampleMiner)).2.selectForBlock blockTargetTxs) =
        .ok (some job) :=
    ⟨job, toOption_eq_some.mp hjob⟩
  have hpayable := (candidateFromMempool_iff sampleBlocks_numbered sampleGenesis_applied
    (sampleCalls_delivered (show [firstBlock] ⊆ sampleBlocks by simp [sampleBlocks])) hrun
    (show IsAccountKey sampleMiner by decide +kernel)
    (admittedSample g (sampleTransfer sampleMiner)).2).mp hbuilt
  exact ⟨g, hrun, hadmitted, hpayable.2⟩

/-- An account without any balance. -/
def poorSender : String :=
  "cccccccccccccccccccccccccccccccccccccccccccccccccccccccccccccccc"

/-- One admitted transfer of a sender without balance keeps the node from mining. -/
theorem admittedTransfer_stops_production :
    GenesisApplied samplePlatform sampleGenesis ∧ IsAccountKey sampleMiner ∧
      (admittedSample sampleGenesis (sampleTransfer poorSender)).1 = .ok .accept ∧
      ¬exists job, buildCandidateForTip samplePlatform visionxParams 60 1 sampleGenesis sampleMiner
        ((admittedSample sampleGenesis (sampleTransfer poorSender)).2.selectForBlock
          blockTargetTxs) = .ok (some job) := by
  have hnone : (buildCandidateForTip samplePlatform visionxParams 60 1 sampleGenesis sampleMiner
      ((admittedSample sampleGenesis (sampleTransfer poorSender)).2.selectForBlock
        blockTargetTxs)).toOption.join.isSome = false := by
    decide +kernel
  refine ⟨sampleGenesis_applied, by decide +kernel, by decide +kernel, ?_⟩
  rintro ⟨job, hjob⟩
  rw [hjob] at hnone
  cases hnone

end VisionCore
