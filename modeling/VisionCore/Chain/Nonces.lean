import VisionCore.Chain.Supply

/-!
# The nonces of the canonical chain

Every executed transfer takes its sender's next nonce, and nothing else moves a
nonce.  The nonces that a sender has on the canonical chain are therefore the
numbers below its account nonce, in order, and no transaction occurs twice.
-/

namespace VisionCore

open Foundation

/-- The transactions of a chain but the first of each block, in chain order. -/
def canonicalTxs (blocks : List Block) : List Tx :=
  blocks.flatMap nonCoinbaseTxs

/-- The nonces that a sender uses in a list of transactions. -/
def noncesOf (txs : List Tx) (sender : String) : List Nat :=
  (txs.filter fun tx => tx.senderPubkey = sender).map fun tx => tx.nonce.toNat

/-!
# One block
-/

section Steps

variable {P : Platform} {state state' : TxExecutionState} {tx : Tx} {txs : List Tx} {blk : Block}
  {blocks : List Block}

theorem noncesOf_append (txs txs' : List Tx) (sender : String) :
    noncesOf (txs ++ txs') sender = noncesOf txs sender ++ noncesOf txs' sender := by
  unfold noncesOf
  rw [List.filter_append, List.map_append]

theorem noncesOf_cons (tx : Tx) (txs : List Tx) (sender : String) :
    noncesOf (tx :: txs) sender =
      if tx.senderPubkey = sender then tx.nonce.toNat :: noncesOf txs sender
      else noncesOf txs sender := by
  unfold noncesOf
  by_cases hsender : tx.senderPubkey = sender
  · rw [if_pos hsender, List.filter_cons_of_pos (by simpa using hsender), List.map_cons]
  · rw [if_neg hsender, List.filter_cons_of_neg (by simpa using hsender)]

theorem mem_noncesOf (h : tx ∈ txs) : tx.nonce.toNat ∈ noncesOf txs tx.senderPubkey := by
  apply List.mem_map_of_mem
  apply List.mem_filter.mpr
  exact ⟨h, by simp⟩

/-- The nonces used between two states are the ones between the two account nonces. -/
def NoncesBetween (state state' : TxExecutionState) (txs : List Tx) (sender : String) : Prop :=
  noncesOf txs sender =
      List.range' (state.nonceOf sender).toNat (noncesOf txs sender).length ∧
    (state'.nonceOf sender).toNat =
      (state.nonceOf sender).toNat + (noncesOf txs sender).length

theorem NoncesBetween.append {middle : TxExecutionState} {txs' : List Tx} {sender : String}
    (h : NoncesBetween state middle txs sender) (h' : NoncesBetween middle state' txs' sender) :
    NoncesBetween state state' (txs ++ txs') sender := by
  constructor
  · rw [noncesOf_append, List.length_append, h.1, h'.1, h.2, List.length_range',
      List.length_range']
    rw [← List.range'_append_1]
  · rw [noncesOf_append, List.length_append, h'.2, h.2, Nat.add_assoc]

theorem Spends.noncesBetween {args : CashTransferArgs} (h : Spends P state tx args)
    (sender : String) : NoncesBetween state (spend state tx args) [tx] sender := by
  unfold NoncesBetween
  rw [noncesOf_cons, spend_nonceOf]
  by_cases hsender : tx.senderPubkey = sender
  · rw [if_pos hsender, if_pos hsender.symm, h.next_toNat, h.nonce, hsender]
    exact ⟨rfl, rfl⟩
  · rw [if_neg hsender, if_neg fun heq => hsender heq.symm]
    exact ⟨rfl, rfl⟩

theorem executeTxsFrom_nonces {index : Nat} (sender : String)
    (h : executeTxsFrom P index state txs = .ok state') :
    NoncesBetween state state' txs sender := by
  induction txs generalizing index state with
  | nil =>
      cases h
      exact ⟨rfl, rfl⟩
  | cons tx rest ih =>
      rcases executeTxsFrom_cons.mp h with ⟨args, hspends, hrest⟩
      exact (hspends.noncesBetween sender).append (ih hrest)

theorem creditMiner_nonces (h : creditMiner P state blk = .ok state') :
    state'.nonces = state.nonces := by
  unfold creditMiner applyCoinbaseReward at h
  split_ifs at h
  · rcases bind_eq_ok.mp h with ⟨reward, _, hcredit⟩
    cases hbalance : checkedAddU128 (state.balanceOf blk.header.miner) reward with
    | none =>
        rw [hbalance] at hcredit
        cases hcredit
    | some balance =>
        rw [hbalance] at hcredit
        cases hcredit
        rfl
  · cases h
    rfl

theorem replayBlock_parts (h : replayBlock P state blk = .ok state') :
    exists executed, executeTxsFrom P 1 state (nonCoinbaseTxs blk) = .ok executed ∧
      creditMiner P executed blk = .ok state' := by
  unfold replayBlock executeNonCoinbaseTxs at h
  cases hexecuted : executeTxsFrom P 1 state (blk.txs.drop 1) with
  | error e =>
      rw [hexecuted] at h
      cases h
  | ok executed =>
      rw [hexecuted] at h
      exact ⟨executed, hexecuted, mapErr_eq_ok.mp h⟩

theorem replayBlock_nonces (sender : String) (h : replayBlock P state blk = .ok state') :
    NoncesBetween state state' (nonCoinbaseTxs blk) sender := by
  rcases replayBlock_parts h with ⟨executed, hexecuted, hcredited⟩
  have hbetween := executeTxsFrom_nonces sender hexecuted
  have hkept : state'.nonceOf sender = executed.nonceOf sender := by
    unfold TxExecutionState.nonceOf
    rw [creditMiner_nonces hcredited]
  unfold NoncesBetween at hbetween ⊢
  rw [hkept]
  exact hbetween

/-- Over a whole replay the nonces of a sender go on without a gap. -/
theorem replay_nonces (sender : String)
    (h : blocks.foldlM (replayBlock P) state = .ok state') :
    NoncesBetween state state' (canonicalTxs blocks) sender := by
  induction blocks generalizing state with
  | nil =>
      cases h
      exact ⟨rfl, rfl⟩
  | cons blk rest ih =>
      rw [List.foldlM_cons] at h
      rcases bind_eq_ok.mp h with ⟨middle, hone, hrest⟩
      exact (replayBlock_nonces sender hone).append (ih hrest)

/-!
# Executed transactions
-/

/-- Every transaction of an execution passed the checks in some state. -/
theorem executeTxsFrom_spends {index : Nat} (h : executeTxsFrom P index state txs = .ok state')
    (htx : tx ∈ txs) : exists before args, Spends P before tx args := by
  induction txs generalizing index state with
  | nil => cases htx
  | cons t rest ih =>
      rcases executeTxsFrom_cons.mp h with ⟨args, hspends, hrest⟩
      cases List.mem_cons.mp htx with
      | inl heq =>
          subst heq
          exact ⟨state, args, hspends⟩
      | inr hmem => exact ih hrest hmem

theorem replay_spends (h : blocks.foldlM (replayBlock P) state = .ok state')
    (htx : tx ∈ canonicalTxs blocks) : exists before args, Spends P before tx args := by
  induction blocks generalizing state with
  | nil => cases htx
  | cons blk rest ih =>
      rw [List.foldlM_cons] at h
      rcases bind_eq_ok.mp h with ⟨middle, hone, hrest⟩
      cases List.mem_append.mp htx with
      | inl hmem =>
          rcases replayBlock_parts hone with ⟨executed, hexecuted, _⟩
          exact executeTxsFrom_spends hexecuted hmem
      | inr hmem => exact ih hrest hmem

end Steps

/-!
# Identifiers
-/

/-- Where no sender uses a nonce twice, no identifier occurs twice. -/
theorem canonicalTxId_nodup {P : Platform} {txs : List Tx} (hbind : IdsBind P txs)
    (hlength : forall tx, tx ∈ txs -> byteLen tx.senderPubkey < u64Bound)
    (hnonces : forall sender, (noncesOf txs sender).Nodup) :
    (txs.map (canonicalTxId P)).Nodup := by
  induction txs with
  | nil => exact List.nodup_nil
  | cons tx rest ih =>
      have hbind' : IdsBind P rest := fun t t' ht ht' =>
        hbind t t' (List.mem_cons_of_mem _ ht) (List.mem_cons_of_mem _ ht')
      rw [List.map_cons, List.nodup_cons]
      constructor
      · intro hmem
        rcases List.mem_map.mp hmem with ⟨other, hother, hid⟩
        have hpayload := hbind.payload_eq (List.mem_cons_of_mem _ hother) List.mem_cons_self hid
        rcases canonicalUnsignedPayload_inj (hlength other (List.mem_cons_of_mem _ hother))
          (hlength tx List.mem_cons_self) hpayload with ⟨hnonce, hsender⟩
        have hagain := hnonces tx.senderPubkey
        rw [noncesOf_cons, if_pos rfl, List.nodup_cons] at hagain
        apply hagain.1
        rw [← hnonce, ← hsender]
        exact mem_noncesOf hother
      · apply ih hbind'
        · intro t ht
          exact hlength t (List.mem_cons_of_mem _ ht)
        · intro sender
          have hsender := hnonces sender
          rw [noncesOf_cons] at hsender
          split at hsender
          · exact (List.nodup_cons.mp hsender).2
          · exact hsender

/-!
# Reachable states
-/

section Runs

variable {P : Platform} {D : Block -> Prop} {s g : ChainState} {calls : List Call}

theorem Replays.nonces (hr : Replays P g) (sender : String) :
    noncesOf (canonicalTxs g.blocks) sender =
      List.range (g.accounts.nonceOf sender).toNat := by
  have hbetween := replay_nonces sender hr.accountState.replay
  have hzero : (TxExecutionState.nonceOf .new sender).toNat = 0 := by
    unfold TxExecutionState.nonceOf TxExecutionState.new
    simp
  have hcount := hbetween.2
  rw [hzero, Nat.zero_add] at hcount
  have hlist := hbetween.1
  rw [hzero, ← hcount] at hlist
  rw [List.range_eq_range']
  exact hlist

theorem Replays.ids_nodup (hr : Replays P g) (hbind : IdsBind P (canonicalTxs g.blocks)) :
    ((canonicalTxs g.blocks).map (canonicalTxId P)).Nodup := by
  apply canonicalTxId_nodup hbind
  · intro tx htx
    rcases replay_spends hr.accountState.replay htx with ⟨before, args, hspends⟩
    exact hspends.sender_length_lt
  · intro sender
    rw [hr.nonces]
    exact List.nodup_range

/-- Each sender's canonical nonces count up to its account nonce, and no identifier
occurs twice on the chain. -/
theorem canonicalChain_nonces (hnumbered : NumberedFrom P D) (hgenesis : GenesisApplied P s)
    (hcalls : forall call, call ∈ calls -> D call.blk) (hrun : applyAll P s calls = .ok g) :
    (forall sender, noncesOf (canonicalTxs g.blocks) sender =
      List.range (g.nonceOf sender).toNat) ∧
    (IdsBind P (canonicalTxs g.blocks) ->
      ((canonicalTxs g.blocks).map (canonicalTxId P)).Nodup) := by
  have hreached := (stepInvariant_replays P D).applyAll hnumbered hgenesis.represents
    hgenesis.replays hcalls hrun
  constructor
  · exact hreached.2.nonces
  · exact hreached.2.ids_nodup

/-- A chain with two transfers of one sender. -/
theorem spendingRun_txs :
    ((applyAll samplePlatform sampleGenesis
      ([firstBlock, spendingBlock].map sampleCall)).toOption.map fun g =>
        canonicalTxs g.blocks) =
      some [sampleTransfer sampleMiner, { sampleTransfer sampleMiner with nonce := 1 }] := by
  decide +kernel

theorem spendingTxs_idsBind : IdsBind samplePlatform
    [sampleTransfer sampleMiner, { sampleTransfer sampleMiner with nonce := 1 }] := by
  have hall : forall tx, tx ∈
      [sampleTransfer sampleMiner, { sampleTransfer sampleMiner with nonce := 1 }] ->
        forall tx', tx' ∈
          [sampleTransfer sampleMiner, { sampleTransfer sampleMiner with nonce := 1 }] ->
            samplePlatform.blake3 (canonicalUnsignedPayload tx) =
                samplePlatform.blake3 (canonicalUnsignedPayload tx') ->
              canonicalUnsignedPayload tx = canonicalUnsignedPayload tx' := by
    decide +kernel
  exact fun tx tx' htx htx' => hall tx htx tx' htx'

theorem spendingRun_nonces :
    exists g, applyAll samplePlatform sampleGenesis
        ([firstBlock, spendingBlock].map sampleCall) = .ok g ∧
      [0, 1] = List.range (g.nonceOf sampleMiner).toNat ∧
      ((canonicalTxs g.blocks).map (canonicalTxId samplePlatform)).Nodup := by
  rcases toOption_map_eq_some spendingRun_txs with ⟨g, hrun, htxs⟩
  have hnonces := canonicalChain_nonces spendingBlocks_numbered sampleGenesis_applied
    (spendingCalls_delivered (show [firstBlock, spendingBlock] ⊆ spendingBlocks by simp [spendingBlocks]))
    hrun
  refine ⟨g, hrun, ?_, hnonces.2 (htxs ▸ spendingTxs_idsBind)⟩
  rw [← hnonces.1, htxs]
  decide +kernel

end Runs

end VisionCore
