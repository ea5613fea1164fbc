import VisionCore.Chain.Sample
import VisionCore.Chain.Work

/-!
# The account state as a replay

Every known path replays from the empty state with all of its state roots, and
the live account state is the replay of the canonical path.  The incremental
update of lane A, the reconstruction below a side block and the replay of a
reorg therefore agree.
-/

namespace VisionCore

open Std
open Foundation

/-!
# Replaying one block
-/

section Block

variable {P : Platform} {state state' : TxExecutionState} {blk : Block}

/-- The parts of a replay of one block that checks the root. -/
theorem replayBlockChecked_ok (h : replayBlockChecked P state blk = .ok state') :
    exists executed, executeNonCoinbaseTxs P state blk = .ok executed ∧
      creditMiner P executed blk = .ok state' ∧
      (blk.header.number ≠ 0 ->
        computeStateRoot P state'.balances state'.nonces = .ok blk.header.stateRoot) := by
  unfold replayBlockChecked at h
  split at h
  · cases h
  · rename_i executed hexecuted
    refine ⟨executed, hexecuted, ?_⟩
    unfold creditMiner
    split at h
    · rename_i hnumber
      rw [if_pos hnumber]
      split at h
      · cases h
      · cases h
      · rename_i credited hcredited
        split at h
        · cases h
        · rename_i root hroot
          split at h
          · cases h
          · rename_i hequal
            cases h
            exact ⟨hcredited, fun _ => (not_not.mp hequal) ▸ hroot⟩
    · rename_i hnumber
      rw [if_neg hnumber]
      cases h
      exact ⟨rfl, fun hne => absurd hne hnumber⟩

theorem replayBlock_of_checked (h : replayBlockChecked P state blk = .ok state') :
    replayBlock P state blk = .ok state' := by
  rcases replayBlockChecked_ok h with ⟨executed, hexecuted, hcredited, _⟩
  unfold replayBlock
  rw [hexecuted]
  exact mapErr_eq_ok.mpr hcredited

/-- Stage 6c does what a replay with the root check does. -/
theorem replayBlockChecked_of_candidate (hnumber : blk.header.number ≠ 0)
    (h : executeCandidate P blk state = .ok state') :
    replayBlockChecked P state blk = .ok state' := by
  unfold executeCandidate at h
  split at h
  · cases h
  · rename_i executed hexecuted
    rcases bind_eq_ok.mp h with ⟨credited, hcredited, h⟩
    have hreward := mapErr_eq_ok.mp hcredited
    unfold creditMiner at hreward
    rw [if_pos hnumber] at hreward
    unfold replayBlockChecked
    rw [hexecuted]
    dsimp only
    rw [if_pos hnumber, hreward]
    dsimp only
    cases hroot : computeStateRoot P credited.balances credited.nonces with
    | error _ =>
        rw [hroot] at h
        cases h
    | ok root =>
        rw [hroot] at h
        dsimp only at h ⊢
        by_cases hequal : root = blk.header.stateRoot
        · rw [if_neg (not_not.mpr hequal.symm)] at h
          rw [if_neg (not_not.mpr hequal), Except.ok.inj h]
        · rw [if_pos fun heq => hequal heq.symm] at h
          cases h

end Block

/-!
# Replaying a path
-/

/-- The state after a path, newest block first, with every root checked. -/
def lineState (P : Platform) (l : List Block) :
    Except (Stop SideStateReconstructionError) TxExecutionState :=
  l.reverse.foldlM (replayBlockChecked P) .new

theorem lineState_cons {P : Platform} {blk : Block} {l : List Block}
    {state : TxExecutionState} :
    lineState P (blk :: l) = .ok state ↔
      exists before, lineState P l = .ok before ∧
        replayBlockChecked P before blk = .ok state := by
  unfold lineState
  rw [List.reverse_cons]
  exact foldlM_snoc_ok

theorem lineState_genesis (P : Platform) : lineState P [genesisBlock] = .ok .new := rfl

/-- Every known path replays, and the live state is the replay of the chain. -/
structure Replays (P : Platform) (g : ChainState) : Prop where
  known : forall ⦃l⦄, KnownPath g l -> exists state, lineState P l = .ok state
  live : lineState P g.blocks.reverse = .ok { balances := g.balances, nonces := g.nonces }

theorem Replays.congr {P : Platform} {g g' : ChainState} (h : Replays P g)
    (hknown : resolveBlock g' = resolveBlock g) (hblocks : g'.blocks = g.blocks)
    (hbalances : g'.balances = g.balances) (hnonces : g'.nonces = g.nonces) :
    Replays P g' where
  known := by
    unfold KnownPath
    rw [hknown]
    exact h.known
  live := by
    rw [hblocks, hbalances, hnonces]
    exact h.live

/-!
# The reconstructions
-/

section Reconstruction

variable {P : Platform} {D : Block -> Prop} {g : ChainState} {blk parent common : Block}
  {rest side l : List Block} {state : TxExecutionState}

theorem Represents.addU64_height (hg : Represents P D g) (hmem : blk ∈ g.blocks) :
    exists count, addU64 P blk.header.number 1 = .ok count ∧
      count.toNat = blk.header.number.toNat + 1 := by
  have hlt : blk.header.number.toNat < g.blocks.length :=
    (List.getElem?_eq_some_iff.mp (hg.blocks_getElem? hmem)).1
  have hbound := hg.length_lt
  have hone : (1 : UInt64).toNat = 1 := rfl
  have hadd : addU64 P blk.header.number 1 = .ok (blk.header.number + 1) :=
    addU64_ok P (by omega)
  exact ⟨_, hadd, addU64_one_toNat hlt hbound hadd⟩

theorem reconstructCanonicalStateAtHeight_eq (hg : Represents P D g) (hmem : blk ∈ g.blocks) :
    reconstructCanonicalStateAtHeight P g blk.header.number =
      (g.blocks.take (blk.header.number.toNat + 1)).foldlM (replayBlock P) .new := by
  rcases hg.addU64_height hmem with ⟨count, hcount, hnat⟩
  unfold reconstructCanonicalStateAtHeight
  rw [hcount, ← hnat]
  rfl

theorem reconstructCanonicalStateChecked_eq (hg : Represents P D g) (hmem : blk ∈ g.blocks) :
    reconstructCanonicalStateChecked P g blk.header.number =
      lineState P (g.blocks.take (blk.header.number.toNat + 1)).reverse := by
  rcases hg.addU64_height hmem with ⟨count, hcount, hnat⟩
  unfold reconstructCanonicalStateChecked lineState
  rw [hcount, ← hnat, List.reverse_reverse]
  rfl

/-- The walk below a side block replays its side part over the canonical part. -/
theorem sideChainStateLoop_eq (hg : Represents P D g) {fuel : Nat} {parentHash : String}
    {branch : List Block} (hl : KnownPath g (blk :: rest))
    (hbranch : BranchesAt g (blk :: rest) side common) (hfuel : side.length < fuel) :
    sideChainStateLoop P g parentHash fuel blk.hash branch =
      (reconstructCanonicalStateAtHeight P g common.header.number >>= fun state =>
        (side.reverse ++ branch).foldlM (replayBlock P) state) := by
  induction side generalizing blk rest fuel branch with
  | nil =>
      cases fuel with
      | zero => cases hfuel
      | succ fuel =>
          have hpath := hbranch.path_eq
          rw [List.nil_append, hg.take_reverse hbranch.common_mem] at hpath
          unfold sideChainStateLoop
          rw [(List.cons.inj hpath).1, hg.canonIndex_of_mem hbranch.common_mem]
          rfl
  | cons x side ih =>
      cases fuel with
      | zero => cases hfuel
      | succ fuel =>
          have hx : blk = x := (List.cons.inj hbranch.path_eq).1
          subst hx
          rcases hbranch.side_mem blk List.mem_cons_self with ⟨hside, hcanon⟩
          have htail := hbranch.tail
          cases rest with
          | nil =>
              have hempty := htail.path_eq
              rw [hg.take_reverse hbranch.common_mem] at hempty
              simp at hempty
          | cons parent rest =>
              have hparent : blk.header.parentHash = parent.hash :=
                Path.parent_eq (s := []) hl
              unfold sideChainStateLoop
              rw [ExtTreeMap.getElem?_eq_none hcanon, hside]
              dsimp only
              rw [hparent, ih hl.tail htail (Nat.lt_of_succ_lt_succ hfuel)]
              simp

/-- The state after a path, newest block first, without a check of the roots. -/
def lineReplay (P : Platform) (l : List Block) : Except (Stop ReplayError) TxExecutionState :=
  l.reverse.foldlM (replayBlock P) .new

theorem lineReplay_cons {l : List Block} {before : TxExecutionState}
    (hbefore : lineReplay P l = .ok before) (hblk : replayBlock P before blk = .ok state) :
    lineReplay P (blk :: l) = .ok state := by
  unfold lineReplay
  rw [List.reverse_cons]
  exact foldlM_snoc_ok.mpr ⟨before, hbefore, hblk⟩

theorem lineReplay_of_lineState {l : List Block} (h : lineState P l = .ok state) :
    lineReplay P l = .ok state :=
  foldlM_ok_mono (fun _ _ _ hblk => replayBlock_of_checked hblk) h

/-- Whatever its position, the state after a known block is that of its path. -/
theorem reconstructParentStateForSideChain_eq (hg : Represents P D g)
    (hl : KnownPath g (parent :: rest)) :
    reconstructParentStateForSideChain P g parent.hash = lineReplay P (parent :: rest) := by
  unfold reconstructParentStateForSideChain
  cases hslot : g.canonIndex[parent.hash]? with
  | some height =>
      -- a canonical block has no side part
      rcases (hg.index _ _).mp hslot with ⟨blk, hmem, hname, rfl⟩
      have hparent : blk = parent :=
        Option.some.inj ((hname ▸ hg.resolve_of_mem hmem).symm.trans
          (hl.lookup List.mem_cons_self))
      subst hparent
      have hcanonical := hg.canonical_path hmem
      rw [hg.take_reverse hmem] at hcanonical
      unfold lineReplay
      rw [hl.unique hcanonical rfl, ← hg.take_reverse hmem, List.reverse_reverse]
      exact reconstructCanonicalStateAtHeight_eq hg hmem
  | none =>
      rcases hg.branchesAt hl with ⟨side, common, hbranch⟩
      have hsize := Represents.side_length_le hl hbranch
      dsimp only
      rw [sideChainStateLoop_eq hg hl hbranch (by unfold sideWalkFuel; omega), List.append_nil,
        reconstructCanonicalStateAtHeight_eq hg hbranch.common_mem]
      unfold lineReplay
      rw [hbranch.path_eq, List.reverse_append, List.reverse_reverse, List.foldlM_append]

/-- The live state and the reconstructions agree on the state after a parent. -/
theorem parentStateOf_eq (hg : Represents P D g) (hr : Replays P g)
    (hl : KnownPath g (parent :: rest)) (hstate : lineState P (parent :: rest) = .ok state) :
    parentStateOf P g parent.hash = .ok state := by
  unfold parentStateOf
  split
  · rename_i htip
    have hlive := hr.live
    rw [hg.path_of_tip hl htip, hstate] at hlive
    rw [← Except.ok.inj hlive]
  · rw [reconstructParentStateForSideChain_eq hg hl]
    exact mapErr_eq_ok.mpr (lineReplay_of_lineState hstate)

/-- Branch replay along a path checks parents that the path already links. -/
theorem reconstructBranchState_eq {anchor : Block} {below segment : List Block}
    (hl : KnownPath g (segment.reverse ++ anchor :: below)) :
    reconstructBranchState P anchor.hash state segment =
      segment.foldlM (replayBlockChecked P) state := by
  unfold reconstructBranchState
  induction segment generalizing anchor below state with
  | nil => rfl
  | cons blk segment ih =>
      rw [List.reverse_cons, List.append_assoc] at hl
      have hparent : blk.header.parentHash = anchor.hash := hl.parent_eq
      unfold reconstructBranchStateFrom
      rw [if_neg (not_not.mpr hparent), List.foldlM_cons]
      cases replayBlockChecked P state blk with
      | error stop => rfl
      | ok next => exact ih hl

/-- The replay of a reorg succeeds and yields the state of the new path. -/
theorem reorg_replay (hg : Represents P D g) (hl : KnownPath g l)
    (hbranch : BranchesAt g l side common) (hstate : lineState P l = .ok state) :
    exists ancestorState,
      reconstructCanonicalStateChecked P g common.header.number = .ok ancestorState ∧
        reconstructBranchState P common.hash ancestorState side.reverse = .ok state := by
  have hfold := hstate
  unfold lineState at hfold
  rw [hbranch.path_eq, List.reverse_append] at hfold
  rcases foldlM_append_ok.mp hfold with ⟨ancestorState, hbelow, habove⟩
  refine ⟨ancestorState, ?_, ?_⟩
  · rw [reconstructCanonicalStateChecked_eq hg hbranch.common_mem]
    exact hbelow
  · have hpath := hl
    rw [hbranch.path_eq, hg.take_reverse hbranch.common_mem] at hpath
    rw [reconstructBranchState_eq (by rwa [List.reverse_reverse])]
    exact habove

end Reconstruction

/-!
# Along a step
-/

section Steps

variable {P : Platform} {D : Block -> Prop} {host : Host} {g g' : ChainState}
  {blk parent common : Block} {rest side l : List Block} {candidateCw : Nat}
  {state : TxExecutionState} {sourcePeer : Option String} {step : Step}

theorem Admitted.lineState_eq (hg : Represents P D g) (hr : Replays P g)
    (h : Admitted P D host g blk parent rest candidateCw state) :
    lineState P (blk :: parent :: rest) = .ok state := by
  rcases hr.known h.joins.path with ⟨below, hbelow⟩
  rcases validateAgainstParent_ok h.vetted.valid with ⟨found, _, hvalid⟩
  rcases hvalid.executes with ⟨before, hbefore, hexecuted⟩
  rw [h.joins.parent_eq, parentStateOf_eq hg hr h.joins.path hbelow] at hbefore
  rw [← Except.ok.inj hbefore] at hexecuted
  exact lineState_cons.mpr
    ⟨below, hbelow, replayBlockChecked_of_candidate h.joins.number_ne hexecuted⟩

theorem replays_known_put (hg : Represents P D g) (hr : Replays P g)
    (h : Admitted P D host g blk parent rest candidateCw state)
    (hknown : resolveBlock g' = Store.put chainLineage (resolveBlock g) blk) ⦃l : List Block⦄
    (hl : KnownPath g' l) : exists state, lineState P l = .ok state := by
  cases l with
  | nil => exact absurd rfl hl.ne_nil
  | cons b tail =>
      rcases knownPath_cases hg h.joins hknown hl with ⟨hold, _⟩ | ⟨rfl, rfl⟩
      · exact hr.known hold
      · exact ⟨state, h.lineState_eq hg hr⟩

theorem Effect.replays (hg : Represents P D g) (hr : Replays P g)
    (h : Effect P D host g blk sourcePeer step) : Replays P step.chain := by
  cases h with
  | rejected _ => exact hr
  | orphaned _ _ _ =>
      rcases addOrphan_frame host.now g blk (sourcePeer.getD "anon") with ⟨pool, byHash, hframe⟩
      rw [hframe]
      exact hr.congr rfl rfl rfl rfl
  | extended hadmitted _ htip _ _ =>
      refine ⟨replays_known_put hg hr hadmitted (hadmitted.extended_known hg htip _), ?_⟩
      rw [extendedChain_blocks, List.reverse_append, htip]
      exact hadmitted.lineState_eq hg hr
  | recorded hadmitted _ _ _ =>
      exact ⟨replays_known_put hg hr hadmitted (hadmitted.recorded_known hg), hr.live⟩
  | moved hmoves _ =>
      have hadmitted := hmoves.admitted
      have hline := hadmitted.lineState_eq hg hr
      constructor
      · unfold KnownPath
        rw [hmoves.known]
        exact replays_known_put hg hr hadmitted (hadmitted.recorded_known hg)
      · rw [hmoves.blocks, List.reverse_reverse, hline]
        rcases hmoves.planned.replay with ⟨ancestorState, hancestor, hbranchState⟩
        rcases reorg_replay hmoves.recorded hmoves.path hmoves.branches hline with
          ⟨ancestorState', hancestor', hbranchState'⟩
        rw [hmoves.height_eq, hancestor'] at hancestor
        rw [hmoves.hash_eq, hmoves.segment_eq, ← Except.ok.inj hancestor, hbranchState']
          at hbranchState
        rw [Except.ok.inj hbranchState]
        rfl

end Steps

theorem stepInvariant_replays (P : Platform) (D : Block -> Prop) :
    StepInvariant P D fun _ g => Replays P g where
  effect := fun hg _ heffect hpre => heffect.replays hg hpre
  take := fun _ hpre => hpre.congr rfl rfl rfl rfl
  forget := fun _ hpre => hpre.congr rfl rfl rfl rfl

theorem GenesisApplied.replays {P : Platform} {g : ChainState} (h : GenesisApplied P g) :
    Replays P g := by
  rcases h.eq with ⟨db, rfl⟩
  refine ⟨?_, lineState_genesis P⟩
  intro l hl
  cases (genesisOnly_genesisApplied rfl rfl rfl rfl rfl).knownPath hl
  exact ⟨_, lineState_genesis P⟩

/-!
# Account keys
-/

/-- Every account of a state is named by 64 lowercase hexadecimal characters. -/
structure AccountKeys (state : TxExecutionState) : Prop where
  balances : forall key, key ∈ state.balances -> IsAccountKey key
  nonces : forall key, key ∈ state.nonces -> IsAccountKey key

section Keys

variable {P : Platform} {state state' : TxExecutionState} {tx : Tx} {blk : Block}

theorem verifyTxSignature_key (h : verifyTxSignature P tx = .ok ()) :
    IsAccountKey tx.senderPubkey := by
  rcases bind_eq_ok.mp h with ⟨key, hkey, _⟩
  unfold decodeSenderPubkey at hkey
  split at hkey
  · cases hkey
  · rename_i hlength
    split at hkey
    · cases hkey
    · rename_i hlower
      exact ⟨not_not.mp hlength, by simpa using hlower⟩

/-- A transfer that passes the stateless checks names two account keys. -/
theorem validateTxStateless_keys (hmodule : tx.module = "cash")
    (h : validateTxStateless P tx = .ok ()) :
    IsAccountKey tx.senderPubkey ∧
      forall args, decodeCashTransferArgs P tx.args = .ok args -> IsAccountKey args.«to» := by
  unfold validateTxStateless at h
  rw [hmodule] at h
  split at h
  · cases h
  · rw [if_neg (fun hcoinbase => absurd hcoinbase.1 (by decide))] at h
    split at h
    · cases h
    · split at h
      · cases h
      · split at h
        · unfold validateCashTransferStateless at h
          split at h
          · cases h
          · split at h
            · cases h
            · rename_i hsignature
              refine ⟨verifyTxSignature_key hsignature, ?_⟩
              intro args hargs
              rw [hargs] at h
              dsimp only at h
              split at h
              · cases h
              · rename_i hto
                simpa [isLowercaseHex32Bytes, IsAccountKey] using hto
        · cases h

/-- An executed transfer writes the sender's and the recipient's entries. -/
theorem simulateTxExecution_ok {outcome : TxExecutionOutcome}
    (h : simulateTxExecution P state tx = (.ok outcome, state')) :
    exists (args : CashTransferArgs) (sent received : Nat) (nonce : UInt64),
      tx.module = "cash" ∧ validateTxStateless P tx = .ok () ∧
        decodeCashTransferArgs P tx.args = .ok args ∧
        state' =
          { balances := (state.balances.insert tx.senderPubkey sent).insert args.«to» received
            nonces := state.nonces.insert tx.senderPubkey nonce } := by
  unfold simulateTxExecution at h
  split at h
  · cases h
  · rename_i hkind
    have hmodule : tx.module = "cash" := by
      by_contra hne
      exact hkind (Or.inl hne)
    split at h
    · cases h
    · rename_i hvalid
      dsimp only at h
      split at h
      · cases h
      · split at h
        · cases h
        · rename_i args hargs
          split at h
          · cases h
          · split at h
            · cases h
            · split at h
              · cases h
              · split at h
                · cases h
                · split at h
                  · cases h
                  · split at h
                    · cases h
                    · cases h
                      exact ⟨args, _, _, _, hmodule, hvalid, hargs, rfl⟩

theorem AccountKeys.simulate {outcome : TxExecutionOutcome} (hkeys : AccountKeys state)
    (h : simulateTxExecution P state tx = (.ok outcome, state')) : AccountKeys state' := by
  rcases simulateTxExecution_ok h with ⟨args, sent, received, nonce, hmodule, hvalid, hargs, rfl⟩
  have hnamed := validateTxStateless_keys hmodule hvalid
  constructor
  · intro key hkey
    rcases mem_insert_iff.mp hkey with rfl | hkey
    · exact hnamed.2 args hargs
    · rcases mem_insert_iff.mp hkey with rfl | hkey
      · exact hnamed.1
      · exact hkeys.balances key hkey
  · intro key hkey
    rcases mem_insert_iff.mp hkey with rfl | hkey
    · exact hnamed.1
    · exact hkeys.nonces key hkey

theorem AccountKeys.executeTxs {index : Nat} {txs : List Tx} (hkeys : AccountKeys state)
    (h : executeTxsFrom P index state txs = .ok state') : AccountKeys state' := by
  induction txs generalizing index state with
  | nil =>
      cases h
      exact hkeys
  | cons tx rest ih =>
      unfold executeTxsFrom at h
      split at h
      · rename_i hone
        exact ih (hkeys.simulate hone) h
      · cases h

theorem AccountKeys.creditMiner (hkeys : AccountKeys state)
    (h : creditMiner P state blk = .ok state') : AccountKeys state' := by
  unfold VisionCore.creditMiner at h
  split at h
  · unfold applyCoinbaseReward at h
    split at h
    · cases h
    · rename_i hminer
      rcases bind_eq_ok.mp h with ⟨reward, _, h⟩
      split at h
      · cases h
      · cases h
        refine ⟨?_, hkeys.nonces⟩
        intro key hkey
        rcases mem_insert_iff.mp hkey with rfl | hkey
        · rw [not_or] at hminer
          exact ⟨not_not.mp hminer.1, by simpa using hminer.2⟩
        · exact hkeys.balances key hkey
  · cases h
    exact hkeys

theorem AccountKeys.replay (hkeys : AccountKeys state)
    (h : replayBlock P state blk = .ok state') : AccountKeys state' := by
  unfold replayBlock at h
  split at h
  · cases h
  · rename_i executed hexecuted
    exact (hkeys.executeTxs hexecuted).creditMiner (mapErr_eq_ok.mp h)

theorem accountKeys_new : AccountKeys .new where
  balances := by simp [TxExecutionState.new]
  nonces := by simp [TxExecutionState.new]

end Keys

/-!
# The account state of every run
-/

/-- The live account state is the replay of the canonical chain from empty maps,
its keys are well formed, and its root is the one in the tip's header. -/
structure AccountStateReplayed (P : Platform) (g : ChainState) : Prop where
  replay : g.blocks.foldlM (replayBlock P) .new =
    .ok { balances := g.balances, nonces := g.nonces }
  balanceKeys : forall key, key ∈ g.balances -> IsAccountKey key
  nonceKeys : forall key, key ∈ g.nonces -> IsAccountKey key
  root : forall tip, g.blocks.getLast? = some tip -> tip.header.number ≠ 0 ->
    computeStateRoot P g.balances g.nonces = .ok tip.header.stateRoot

theorem Replays.accountState {P : Platform} {g : ChainState} (h : Replays P g) :
    AccountStateReplayed P g := by
  have hlive := h.live
  unfold lineState at hlive
  rw [List.reverse_reverse] at hlive
  have hreplay : g.blocks.foldlM (replayBlock P) .new =
      .ok { balances := g.balances, nonces := g.nonces } :=
    foldlM_ok_mono (fun _ _ _ h => replayBlock_of_checked h) hlive
  have hkeys := foldlM_induction (I := AccountKeys) (fun _ _ _ _ hu hv => hu.replay hv)
    accountKeys_new hreplay
  refine ⟨hreplay, hkeys.balances, hkeys.nonces, ?_⟩
  intro tip htip hnumber
  rcases List.getLast?_eq_some_iff.mp htip with ⟨below, hblocks⟩
  rw [hblocks] at hlive
  rcases foldlM_snoc_ok.mp hlive with ⟨before, _, hlast⟩
  rcases replayBlockChecked_ok hlast with ⟨_, _, _, hroot⟩
  exact hroot hnumber

theorem accountStateReplayed_of_run {P : Platform} {D : Block -> Prop} {g g' : ChainState}
    {calls : List Call} (hnumbered : NumberedFrom P D) (hgenesis : GenesisApplied P g)
    (hcalls : forall call, call ∈ calls -> D call.blk) (hrun : applyAll P g calls = .ok g') :
    AccountStateReplayed P g' :=
  ((stepInvariant_replays P D).applyAll hnumbered hgenesis.represents hgenesis.replays
    hcalls hrun).2.accountState

/-- A run with a side branch, an orphan and the reorg that it triggers. -/
theorem accountStateReplayed_sampleBlocks :
    exists g', applyAll samplePlatform sampleGenesis
        ([firstBlock, rivalSecond, rivalFirst].map sampleCall) = .ok g' ∧
      g'.tipHash = rivalSecond.hash ∧ AccountStateReplayed samplePlatform g' := by
  have hcalls : [firstBlock, rivalSecond, rivalFirst] ⊆ sampleBlocks := by simp [sampleBlocks]
  have hruns : (applyAll samplePlatform sampleGenesis
      ([firstBlock, rivalSecond, rivalFirst].map sampleCall)).toOption.map ChainState.tipHash =
        some rivalSecond.hash := by
    decide +kernel
  rcases toOption_map_eq_some hruns with ⟨g', hrun, htip⟩
  exact ⟨g', hrun, htip, accountStateReplayed_of_run sampleBlocks_numbered
    sampleGenesis_applied (sampleCalls_delivered hcalls) hrun⟩

end VisionCore
