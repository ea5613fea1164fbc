import VisionCore.Chain.Crash
import VisionCore.Chain.Nonces

/-!
# Conservation of the supply

Along every run the balances and the fees charged add up to the rewards of the
emission schedule.  Two accounts of a reachable state therefore never hold
enough together for a credit to overflow, neither that of a reward nor that of a
payment.
-/

namespace VisionCore

open Foundation

/-!
# Rewards and fees of a chain
-/

section Chains

variable {P : Platform} {D : Block -> Prop} {g : ChainState} {state state' : TxExecutionState}
  {blk : Block} {blocks : List Block}

theorem creditMiner_reward (hnumber : blk.header.number ≠ 0)
    (h : creditMiner P state blk = .ok state') :
    exists reward, blockReward P blk.header.number = .ok reward ∧
      supply state' = supply state + reward := by
  unfold creditMiner at h
  rw [if_pos hnumber] at h
  cases hreward : blockReward P blk.header.number with
  | error f =>
      unfold applyCoinbaseReward at h
      rw [hreward] at h
      split at h <;> cases h
  | ok reward => exact ⟨reward, rfl, applyCoinbaseReward_supply hreward h⟩

theorem feesOf_eq (blk : Block) :
    feesOf blk = ((nonCoinbaseTxs blk).map transferFee).sum := rfl

theorem sum_feesOf (blocks : List Block) :
    (blocks.map feesOf).sum = ((canonicalTxs blocks).map transferFee).sum := by
  induction blocks with
  | nil => rfl
  | cons blk rest ih =>
      unfold canonicalTxs at ih ⊢
      rw [List.map_cons, List.sum_cons, ih, feesOf_eq, List.flatMap_cons, List.map_append,
        List.sum_append]

/-- The replay of blocks above genesis creates the rewards of their numbers. -/
theorem replay_rewards (hnumbers : forall blk, blk ∈ blocks -> blk.header.number ≠ 0)
    (h : blocks.foldlM (replayBlock P) state = .ok state') :
    exists rewards,
      (blocks.map fun blk => blk.header.number).mapM (blockReward P) = .ok rewards ∧
        supply state' + (blocks.map feesOf).sum = supply state + rewards.sum := by
  induction blocks generalizing state with
  | nil =>
      cases h
      exact ⟨[], rfl, rfl⟩
  | cons blk rest ih =>
      rw [List.foldlM_cons] at h
      rcases bind_eq_ok.mp h with ⟨middle, hone, hrest⟩
      rcases replayBlock_parts hone with ⟨executed, hexecuted, hcredited⟩
      have hfees : supply executed + feesOf blk = supply state := executeTxsFrom_supply hexecuted
      rcases creditMiner_reward (hnumbers blk List.mem_cons_self) hcredited with
        ⟨reward, hreward, hcredit⟩
      rcases ih (fun b hb => hnumbers b (List.mem_cons_of_mem _ hb)) hrest with
        ⟨rewards, hrewards, htail⟩
      refine ⟨reward :: rewards, ?_, ?_⟩
      · rw [List.map_cons, List.mapM_cons, hreward, hrewards]
        rfl
      · simp only [List.map_cons, List.sum_cons]
        omega

/-- The blocks above the first are numbered from one. -/
theorem Represents.numbers (hg : Represents P D g) {first : Block} {rest : List Block}
    (hblocks : g.blocks = first :: rest) :
    first.header.number = 0 ∧
      rest.map (fun blk => blk.header.number) =
        (List.range' 1 rest.length).map UInt64.ofNat := by
  have hbound := hg.length_lt
  have hvalue : forall i blk, g.blocks[i]? = some blk -> blk.header.number = UInt64.ofNat i := by
    intro i blk hi
    rw [← hg.number_of_getElem? hi, UInt64.ofNat_toNat]
  constructor
  · exact hvalue 0 first (by rw [hblocks]; rfl)
  · apply List.ext_getElem
    · simp
    · intro i hi hi'
      rw [List.length_map] at hi
      have hat : g.blocks[i + 1]? = some rest[i] := by
        rw [hblocks, List.getElem?_cons_succ, List.getElem?_eq_getElem hi]
      rw [List.getElem_map, List.getElem_map, hvalue _ _ hat, List.getElem_range', Nat.one_mul,
        Nat.add_comm]

/-- The supply and the fees of a represented chain are the emission up to its tip. -/
theorem Replays.emission (hr : Replays P g) (hg : Represents P D g) :
    exists rewards,
      ((List.range' 1 g.currentHeight.toNat).map UInt64.ofNat).mapM (blockReward P) =
          .ok rewards ∧
        supply g.accounts + ((canonicalTxs g.blocks).map transferFee).sum = rewards.sum := by
  have hreplay := hr.accountState.replay
  cases hblocks : g.blocks with
  | nil =>
      have hne := hg.chain.ne_nil
      rw [hblocks] at hne
      exact absurd rfl hne
  | cons first rest =>
      rcases hg.numbers hblocks with ⟨hfirst, hnumbers⟩
      have hheight : g.currentHeight.toNat = rest.length := by
        have hlast : g.blocks.getLast? = g.blocks[rest.length]? := by
          rw [List.getLast?_eq_getElem?, hblocks]
          rfl
        unfold ChainState.currentHeight
        cases htip : g.blocks.getLast? with
        | none =>
            rw [List.getLast?_eq_none_iff.mp htip] at hblocks
            cases hblocks
        | some tip => exact hg.number_of_getElem? (hlast.symm.trans htip)
      have hne : forall blk, blk ∈ rest -> blk.header.number ≠ 0 := by
        intro blk hblk hzero
        have hmem : blk ∈ g.blocks := by
          rw [hblocks]
          exact List.mem_cons_of_mem _ hblk
        have hsame := hg.eq_of_number hg.chain (List.mem_reverse.mpr hmem)
          (List.mem_reverse.mpr (show first ∈ g.blocks by
            rw [hblocks]; exact List.mem_cons_self)) (hfirst.trans hzero.symm)
        subst hsame
        have hnodup := List.nodup_reverse.mp hg.chain.nodup
        rw [hblocks, List.nodup_cons] at hnodup
        exact hnodup.1 hblk
      rw [hblocks, List.foldlM_cons] at hreplay
      rcases bind_eq_ok.mp hreplay with ⟨middle, hone, hrest⟩
      have hgenesis := replayBlock_supply hone
      have hnone : subsidyOf P first = 0 := by
        unfold subsidyOf
        rw [if_neg (not_not.mpr hfirst)]
      rw [hnone, supply_new] at hgenesis
      rcases replay_rewards hne hrest with ⟨rewards, hrewards, hsum⟩
      refine ⟨rewards, ?_, ?_⟩
      · rw [hheight, ← hnumbers]
        exact hrewards
      · rw [← sum_feesOf, List.map_cons, List.sum_cons]
        unfold ChainState.accounts
        omega

end Chains

/-!
# Room for every credit
-/

section Credits

variable {P : Platform} {state state' : TxExecutionState} {tx : Tx} {txs : List Tx} {blk : Block}

/-- The branch of `simulateTxExecution` on which the recipient's balance overflows:
every earlier check has passed. -/
structure CreditOverflows (P : Platform) (state : TxExecutionState) (tx : Tx)
    (args : CashTransferArgs) : Prop where
  module_eq : tx.module = "cash"
  method_eq : tx.method = "transfer"
  valid : validateTxStateless P tx = .ok ()
  nonce : tx.nonce = state.nonceOf tx.senderPubkey
  args_eq : decodeCashTransferArgs P tx.args = .ok args
  fee_lt : transferFee tx < u64Bound
  fee_le : transferFee tx ≤ tx.feeLimit.toNat
  cost_lt : args.amount + transferFee tx < u128Bound
  funded : args.amount + transferFee tx ≤ state.balanceOf tx.senderPubkey
  overflow : u128Bound ≤ state.balanceOf args.«to» + args.amount

theorem CreditOverflows.simulate {args : CashTransferArgs}
    (h : CreditOverflows P state tx args) :
    (simulateTxExecution P state tx).1 = .error .arithmeticOverflow := by
  have hfee : (cashTransferBaseFee + tx.tip).toNat = transferFee tx := addU64_toNat h.fee_lt
  have hlimit : ¬cashTransferBaseFee + tx.tip > tx.feeLimit := by
    rw [gt_iff_lt, UInt64.lt_iff_toNat_lt, hfee]
    exact Nat.not_lt.mpr h.fee_le
  have hreceived : checkedAddU128 (state.balanceOf args.«to») args.amount = none := by
    unfold checkedAddU128
    exact if_neg (Nat.not_lt.mpr h.overflow)
  unfold simulateTxExecution
  rw [if_neg (by simp [h.module_eq, h.method_eq]), h.valid]
  dsimp only
  rw [if_neg (not_not.mpr h.nonce), h.args_eq]
  dsimp only
  rw [checkedAddU64_eq_some.mpr ⟨h.fee_lt, rfl⟩]
  dsimp only
  rw [if_neg hlimit, hfee, checkedAddU128_eq_some.mpr ⟨h.cost_lt, rfl⟩]
  dsimp only
  rw [if_neg (Nat.not_lt.mpr h.funded), hreceived]

theorem not_creditOverflows (hsupply : supply state < u128Bound) {args : CashTransferArgs} :
    ¬CreditOverflows P state tx args := by
  intro h
  have hother := (validateCashTransferStateless_args
    (validateTxStateless_transfer h.module_eq h.valid) h.args_eq).2.2
  have htwo := balanceOf_add_le_supply state hother
  have hfunded := h.funded
  have hoverflow := h.overflow
  omega

theorem applyCoinbaseReward_overflow {miner : String} {height : UInt64}
    (h : applyCoinbaseReward P state miner height = .error (.err .rewardOverflow)) :
    u128Bound ≤ supply state + emissionPerBlock := by
  unfold applyCoinbaseReward at h
  split at h
  · cases h
  · rcases bind_eq_error.mp h with hreward | ⟨reward, hreward, hcredit⟩
    · cases hpaid : blockReward P height with
      | error f =>
          rw [hpaid] at hreward
          cases hreward
      | ok reward =>
          rw [hpaid] at hreward
          cases hreward
    · have hle := blockReward_le (liftFault_eq_ok.mp hreward)
      have hbalance := balanceOf_le_supply state miner
      cases hsum : checkedAddU128 (state.balanceOf miner) reward with
      | some balance =>
          rw [hsum] at hcredit
          cases hcredit
      | none =>
          unfold checkedAddU128 at hsum
          split at hsum
          · cases hsum
          · omega

/-- Where an execution fails: behind the transactions that succeed. -/
theorem executeTxsFrom_error {first index : Nat} {e : TxExecutionError}
    (h : executeTxsFrom P first state txs = .error (index, e)) :
    exists before tx after reached, txs = before ++ tx :: after ∧
      index = first + before.length ∧
      executeTxsFrom P first state before = .ok reached ∧
      (simulateTxExecution P reached tx).1 = .error e := by
  induction txs generalizing first state with
  | nil => cases h
  | cons tx rest ih =>
      cases hrun : simulateTxExecution P state tx with
      | mk result after =>
          unfold executeTxsFrom at h
          rw [hrun] at h
          cases result with
          | error e' =>
              cases h
              refine ⟨[], tx, rest, state, rfl, rfl, rfl, ?_⟩
              rw [hrun]
          | ok outcome =>
              rcases ih h with ⟨before, t, later, reached, hsplit, hindex, hreached, hfail⟩
              refine ⟨tx :: before, t, later, reached, ?_, ?_, ?_, hfail⟩
              · rw [hsplit]
                rfl
              · rw [hindex, List.length_cons]
                omega
              · unfold executeTxsFrom
                rw [hrun]
                exact hreached

end Credits

/-!
# The reasons of a rejection
-/

/-- The rejections that come from executing transactions and rewards. -/
def RejectReason.OfExecution : RejectReason -> Prop
  | .parentState _ => True
  | .txValidationFailed _ _ => True
  | .coinbaseRewardFailed _ => True
  | _ => False

section Rejections

variable {P : Platform} {D : Block -> Prop} {host : Host} {g : ChainState} {blk parent : Block}
  {sourcePeer : Option String} {step : Step} {reason : RejectReason} {state : TxExecutionState}
  {pass : Pass}

theorem checkStructure_reason (h : checkStructure P blk = .error reason) :
    ¬reason.OfExecution := by
  unfold checkStructure at h
  split_ifs at h
  · cases h
    exact id
  · cases h
    exact id
  · unfold checkCoinbasePresence at h
    split at h
    · split at h
      · cases h
        exact id
      · split at h
        · cases h
          exact id
        · cases h
    · cases h

theorem acceptGenesis_reason (h : (acceptGenesis host g blk).result = .rejected reason) :
    ¬reason.OfExecution := by
  unfold acceptGenesis at h
  split_ifs at h
  · cases h
    exact id
  · cases h
    exact id
  · split at h
    · cases h
      exact id
    · cases h

/-- Such a rejection is the verdict of stages 3 to 6. -/
theorem acceptBlock_execution (hrun : acceptBlock P host g blk sourcePeer = .ok step)
    (hresult : step.result = .rejected reason) (hreason : reason.OfExecution) :
    ParentKnown g blk ∧ validateAgainstParent P host.now g blk = .error (.err reason) := by
  cases acceptBlock_cases hrun with
  | malformed hstructure =>
      cases hresult
      exact absurd hreason (checkStructure_reason hstructure)
  | duplicate _ =>
      cases hresult
      exact absurd hreason id
  | genesis _ _ _ => exact absurd hreason (acceptGenesis_reason hresult)
  | orphaned _ _ => cases hresult
  | invalid _ hknown hinvalid =>
      cases hresult
      exact ⟨hknown, hinvalid⟩
  | @extended candidateCw post _ _ =>
      have hcase := extendCanonical_cases P host.tick g blk candidateCw post
      generalize extendCanonical P host.tick g blk candidateCw post = step at hcase hresult
      cases hcase with
      | writeFailed _ =>
          cases hresult
          exact absurd hreason id
      | extended _ _ => cases hresult
  | side _ _ hstored =>
      cases storeSideChain_cases hstored with
      | writeFailed _ =>
          cases hresult
          exact absurd hreason id
      | stored _ _ => cases hresult
      | notReorganised _ _ _ => cases hresult
      | reorganised _ _ _ => cases hresult

theorem liftReject_eq_error {α : Type} {x : Except RejectReason α}
    (h : liftReject x = .error (.err reason)) : x = .error reason := by
  cases x with
  | ok a => cases h
  | error e =>
      cases h
      rfl

theorem liftFault_ne_err {error α : Type} {x : Except Fault α} {e : error} :
    liftFault x ≠ .error (.err e) := by
  cases x with
  | ok a => exact fun h => nomatch h
  | error f => exact fun h => nomatch h

theorem checkTimestamp_reason {now : UInt64}
    (h : checkTimestamp P now parent blk = .error (.err reason)) : ¬reason.OfExecution := by
  unfold checkTimestamp at h
  split at h
  · cases h
    exact id
  · rcases bind_eq_error.mp h with hlimit | ⟨limit, _, hlate⟩
    · exact absurd hlimit liftFault_ne_err
    · split at hlate
      · cases hlate
        exact id
      · cases hlate

theorem checkDifficulty_reason {window : List Block}
    (h : checkDifficulty window blk = .error reason) : ¬reason.OfExecution := by
  unfold checkDifficulty at h
  dsimp only at h
  split at h
  · cases h
    exact id
  · split at h
    · cases h
      exact id
    · cases h

theorem checkPow_reason {window : List Block} (h : checkPow P window blk = .error reason) :
    ¬reason.OfExecution := by
  unfold checkPow at h
  split at h
  · cases h
    exact id
  · cases h

theorem checkCoinbaseHeight_reason (h : checkCoinbaseHeight blk = .error (.err reason)) :
    ¬reason.OfExecution := by
  unfold checkCoinbaseHeight at h
  split at h
  · split at h
    · cases h
    · split_ifs at h
      · cases h
        exact id
      · cases h
        exact id
  · cases h

theorem checkTxIds_reason (h : checkTxIds P blk = .error reason) : ¬reason.OfExecution := by
  unfold checkTxIds at h
  split at h
  · cases h
    exact id
  · cases h

/-- The stages before the execution do not speak about it. -/
theorem validateInContext_execution {now : UInt64} {window : List Block}
    (h : validateInContext P now blk parent window (.ok state) = .error (.err reason))
    (hreason : reason.OfExecution) : executeCandidate P blk state = .error (.err reason) := by
  unfold validateInContext at h
  rcases bind_eq_error.mp h with htime | ⟨_, _, h⟩
  · exact absurd hreason (checkTimestamp_reason htime)
  rcases bind_eq_error.mp h with hdifficulty | ⟨_, _, h⟩
  · exact absurd hreason (checkDifficulty_reason (liftReject_eq_error hdifficulty))
  rcases bind_eq_error.mp h with hpow | ⟨_, _, h⟩
  · exact absurd hreason (checkPow_reason (liftReject_eq_error hpow))
  rcases bind_eq_error.mp h with hheight | ⟨_, _, h⟩
  · exact absurd hreason (checkCoinbaseHeight_reason hheight)
  rcases bind_eq_error.mp h with hids | ⟨_, _, h⟩
  · exact absurd hreason (checkTxIds_reason (liftReject_eq_error hids))
  · exact h

theorem lineState_supply_lt {l : List Block} (hg : Represents P D g) (hl : KnownPath g l)
    (h : lineState P l = .ok state) : supply state + emissionPerBlock < u128Bound := by
  have hlength : l.reverse.length < u64Bound := by
    rw [List.length_reverse]
    exact hg.path_length_lt hl
  exact replay_supply_lt hlength (lineReplay_of_lineState h)

/-- On a reachable state such a rejection is that of the execution on the state of
the parent, whose supply leaves room for one more reward. -/
theorem execution_of_rejected (hg : Represents P D g) (hr : Replays P g)
    (hrun : acceptBlock P host g blk sourcePeer = .ok step)
    (hresult : step.result = .rejected reason) (hreason : reason.OfExecution) :
    exists parentState, parentStateOf P g blk.header.parentHash = .ok parentState ∧
      supply parentState + emissionPerBlock < u128Bound ∧
      executeCandidate P blk parentState = .error (.err reason) := by
  rcases acceptBlock_execution hrun hresult hreason with ⟨hknown, hinvalid⟩
  rcases hg.parentKnown_iff.mp hknown with ⟨parent, hparent⟩
  rcases hg.rooted.path hparent with ⟨rest, hl⟩
  have hname : blk.header.parentHash = parent.hash := (hg.rooted.named hparent).symm
  rcases hr.known hl with ⟨state, hstate⟩
  have hparentState := parentStateOf_eq hg hr hl hstate
  refine ⟨state, hname ▸ hparentState, lineState_supply_lt hg hl hstate, ?_⟩
  rw [validateAgainstParent_of_state hl hname hparentState] at hinvalid
  exact validateInContext_execution hinvalid hreason

/-- A failed execution fails at a transaction or at the reward. -/
theorem executeCandidate_error (h : executeCandidate P blk state = .error (.err reason))
    (hreason : reason.OfExecution) :
    (exists index e, executeTxsFrom P 1 state (nonCoinbaseTxs blk) = .error (index, e) ∧
      reason = .txValidationFailed index e) ∨
    exists executed e, executeTxsFrom P 1 state (nonCoinbaseTxs blk) = .ok executed ∧
      creditMiner P executed blk = .error (.err e) ∧ reason = .coinbaseRewardFailed e := by
  unfold executeCandidate executeNonCoinbaseTxs at h
  unfold nonCoinbaseTxs
  cases hexecuted : executeTxsFrom P 1 state (blk.txs.drop 1) with
  | error failed =>
      rcases failed with ⟨index, e⟩
      rw [hexecuted] at h
      cases h
      exact Or.inl ⟨index, e, rfl, rfl⟩
  | ok executed =>
      rw [hexecuted] at h
      rcases bind_eq_error.mp h with hcredit | ⟨credited, _, hroot⟩
      · cases hpaid : creditMiner P executed blk with
        | ok credited =>
            rw [hpaid] at hcredit
            cases hcredit
        | error stop =>
            rw [hpaid] at hcredit
            cases stop with
            | fault f => cases hcredit
            | err e =>
                cases hcredit
                exact Or.inr ⟨executed, e, rfl, hpaid, rfl⟩
      · split at hroot
        · cases hroot
          exact absurd hreason id
        · split at hroot
          · cases hroot
            exact absurd hreason id
          · cases hroot

theorem executeTxsFrom_supply_le {txs : List Tx} {state' : TxExecutionState} {index : Nat}
    (h : executeTxsFrom P index state txs = .ok state') : supply state' ≤ supply state := by
  have hsupply := executeTxsFrom_supply h
  omega

/-- No credit overflows in a run of the pipeline: the reward fits, the state of the
parent is rebuilt, and a payment at which the execution fails has room. -/
structure CreditsFit (P : Platform) (pass : Pass) : Prop where
  reward : forall {step}, acceptBlock P pass.host pass.chain pass.blk pass.sourcePeer = .ok step ->
    step.result ≠ .rejected (.coinbaseRewardFailed .rewardOverflow)
  parentState : forall {step e},
    acceptBlock P pass.host pass.chain pass.blk pass.sourcePeer = .ok step ->
      step.result ≠ .rejected (.parentState e)
  payment : forall {step index e},
    acceptBlock P pass.host pass.chain pass.blk pass.sourcePeer = .ok step ->
      step.result = .rejected (.txValidationFailed index e) ->
        exists parentState reached tx,
          parentStateOf P pass.chain pass.blk.header.parentHash = .ok parentState ∧
          executeTxsFrom P 1 parentState ((nonCoinbaseTxs pass.blk).take (index - 1)) =
            .ok reached ∧
          pass.blk.txs[index]? = some tx ∧
          (simulateTxExecution P reached tx).1 = .error e ∧
          forall args, ¬CreditOverflows P reached tx args

theorem creditsFit (hg : Represents P D pass.chain) (hr : Replays P pass.chain) :
    CreditsFit P pass where
  reward := by
    intro step hrun hresult
    rcases execution_of_rejected hg hr hrun hresult trivial with
      ⟨parentState, _, hroom, hfail⟩
    rcases executeCandidate_error hfail trivial with
      ⟨index, e, _, heq⟩ | ⟨executed, e, hexecuted, hpaid, heq⟩
    · cases heq
    · cases heq
      have hle := executeTxsFrom_supply_le hexecuted
      unfold creditMiner at hpaid
      split at hpaid
      · have hfull := applyCoinbaseReward_overflow hpaid
        omega
      · cases hpaid
  parentState := by
    intro step e hrun hresult
    rcases execution_of_rejected hg hr hrun hresult trivial with ⟨parentState, _, _, hfail⟩
    rcases executeCandidate_error hfail trivial with
      ⟨index, e', _, heq⟩ | ⟨executed, e', _, _, heq⟩
    · cases heq
    · cases heq
  payment := by
    intro step index e hrun hresult
    rcases execution_of_rejected hg hr hrun hresult trivial with
      ⟨parentState, hparent, hroom, hfail⟩
    rcases executeCandidate_error hfail trivial with
      ⟨index', e', hexecuted, heq⟩ | ⟨executed, e', _, _, heq⟩
    · cases heq
      rcases executeTxsFrom_error hexecuted with
        ⟨before, tx, after, reached, hsplit, hindex, hreached, hfailed⟩
      have hle := executeTxsFrom_supply_le hreached
      have hcount : index - 1 = before.length := by omega
      refine ⟨parentState, reached, tx, hparent, ?_, ?_, hfailed, ?_⟩
      · rw [hsplit, hcount, List.take_left]
        exact hreached
      · have hat : (nonCoinbaseTxs pass.blk)[before.length]? = some tx := by
          rw [hsplit, List.getElem?_append_right (Nat.le_refl _), Nat.sub_self]
          rfl
        unfold nonCoinbaseTxs at hat
        rw [List.getElem?_drop] at hat
        rw [hindex]
        exact hat
      · intro args
        exact not_creditOverflows (by omega)
    · cases heq

/-!
# Reachable states
-/

/-- On every reachable chain the balances and the fees add up to the emission, no
balance comes near `u128::MAX`, and no block is rejected because a credit overflows. -/
theorem supply_conserved {s : ChainState} {calls : List Call} (hnumbered : NumberedFrom P D)
    (hgenesis : GenesisApplied P s) (hcalls : forall call, call ∈ calls -> D call.blk)
    (hrun : applyAll P s calls = .ok g) :
    (exists rewards,
      ((List.range' 1 g.currentHeight.toNat).map UInt64.ofNat).mapM (blockReward P) =
          .ok rewards ∧
        supply g.accounts + ((canonicalTxs g.blocks).map transferFee).sum = rewards.sum) ∧
      supply g.accounts < u128Bound - 1 ∧
      (forall address, g.accounts.balanceOf address < u128Bound - 1) ∧
      forall host blk sourcePeer, D blk ->
        forall pass, Passes P host g blk sourcePeer pass -> CreditsFit P pass := by
  have hJ := stepInvariant_replays P D
  have hreached := hJ.applyAll hnumbered hgenesis.represents hgenesis.replays hcalls hrun
  have hroom := hreached.2.supply_lt hreached.1
  have hreward : 1 < emissionPerBlock := by decide
  have hsupply : supply g.accounts < u128Bound - 1 := by omega
  refine ⟨hreached.2.emission hreached.1, hsupply, ?_, ?_⟩
  · intro address
    exact Nat.lt_of_le_of_lt (balanceOf_le_supply g.accounts address) hsupply
  · intro host blk sourcePeer hD pass hpass
    have hbefore := hJ.passes hnumbered hreached.1 hD hreached.2 hpass
    exact creditsFit hbefore.1 hbefore.2.2

/-- Two transfers burn two fees of the rewards of two blocks. -/
theorem supply_conserved_spendingBlock :
    exists g, applyAll samplePlatform sampleGenesis
        ([firstBlock, spendingBlock].map sampleCall) = .ok g ∧
      ((canonicalTxs g.blocks).map transferFee).sum ≠ 0 ∧
      exists rewards, ((List.range' 1 g.currentHeight.toNat).map UInt64.ofNat).mapM
          (blockReward samplePlatform) = .ok rewards ∧
        supply g.accounts + ((canonicalTxs g.blocks).map transferFee).sum = rewards.sum := by
  rcases toOption_map_eq_some spendingRun_txs with ⟨g, hrun, htxs⟩
  refine ⟨g, hrun, ?_, ?_⟩
  · rw [htxs]
    decide
  · exact (supply_conserved spendingBlocks_numbered sampleGenesis_applied
      (spendingCalls_delivered
        (show [firstBlock, spendingBlock] ⊆ spendingBlocks by simp [spendingBlocks])) hrun).1

end Rejections

end VisionCore
