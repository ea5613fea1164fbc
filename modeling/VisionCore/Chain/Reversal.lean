import VisionCore.Chain.Nonces
import VisionCore.Chain.Totality

/-!
# A reorg as an exact exchange

A reorg to a side block swaps the canonical blocks above the branching point
with the segment of the side block and touches nothing else that is indexed by
hash.  A second one back to the old tip therefore restores the chain.
-/

namespace VisionCore

open Std
open Foundation

/-!
# The exchange
-/

/-- A run of blocks each of which names the one before it, from `hash` on. -/
def LinksFrom : String -> List Block -> Prop
  | _, [] => True
  | hash, blk :: rest => blk.header.parentHash = hash ∧ LinksFrom blk.hash rest

/-- The side blocks from the last canonical ancestor of `newTip` up to it. -/
structure SegmentTo (g : ChainState) (newTip ancestor : Block) (segment : List Block) : Prop where
  ancestor_mem : ancestor ∈ g.blocks
  links : LinksFrom ancestor.hash segment
  last : segment.getLast? = some newTip
  side : forall blk, blk ∈ segment ->
    g.sideBlocks[blk.hash]? = some blk ∧ blk.hash ∉ g.canonIndex

/-- What a reorg over `segment` leaves of `g` in `g'`. -/
structure ExactExchange (P : Platform) (g g' : ChainState) (ancestor : Block)
    (segment : List Block) (recovery : ReorgRecovery) : Prop where
  blocks : g'.blocks = g.blocks.take (ancestor.header.number.toNat + 1) ++ segment
  sideBlocks : forall hash blk, g'.sideBlocks[hash]? = some blk ↔
    (g.sideBlocks[hash]? = some blk ∧ hash ∉ segment.map Block.hash) ∨
      (blk ∈ g.blocks.drop (ancestor.header.number.toNat + 1) ∧ blk.hash = hash)
  known : forall hash, hash ∈ g'.canonIndex ∨ hash ∈ g'.sideBlocks ↔
    hash ∈ g.canonIndex ∨ hash ∈ g.sideBlocks
  works : forall hash, hash ∉ segment.map Block.hash ->
    g'.cumulativeWork[hash]? = g.cumulativeWork[hash]?
  index : forall hash n, g'.canonIndex[hash]? = some n ↔
    exists blk, blk ∈ g'.blocks ∧ blk.hash = hash ∧ blk.header.number = n
  displaced : recovery.displacedTxs =
    (canonicalTxs (g.blocks.drop (ancestor.header.number.toNat + 1))).filter fun tx =>
      canonicalTxId P tx ∉ (canonicalTxs segment).map (canonicalTxId P)

/-- The chain of `g` again, whatever else differs. -/
structure ChainRestored (g g' : ChainState) : Prop where
  blocks : g'.blocks = g.blocks
  canonIndex : g'.canonIndex = g.canonIndex
  sideBlocks : g'.sideBlocks = g.sideBlocks
  accounts : SameAccounts g'.accounts g.accounts

theorem mem_winningTxIds {P : Platform} {segment : List Block} {id : String} :
    (winningTxIds P segment).contains id = true ↔
      id ∈ (canonicalTxs segment).map (canonicalTxId P) := by
  have hmem : id ∈ winningTxIds P segment ↔
      id ∈ ((canonicalTxs segment).map (canonicalTxId P)).map (fun id => id) ∨
        id ∈ (∅ : ExtTreeSet String) :=
    mem_foldl_insert_set (fun id : String => id) _ _
  rw [ExtTreeSet.contains_iff_mem, hmem, List.map_id']
  simp

theorem displacedTxs_eq (P : Platform) (demoted segment : List Block) :
    displacedTxs P demoted segment =
      (canonicalTxs demoted).filter fun tx =>
        canonicalTxId P tx ∉ (canonicalTxs segment).map (canonicalTxId P) := by
  unfold displacedTxs
  apply List.filter_congr
  intro tx _
  rw [Bool.eq_iff_iff, Bool.not_eq_true', ← Bool.not_eq_true, mem_winningTxIds]
  simp

/-!
# A reorg along a known path
-/

/-- The state after a reorg to the path that leaves the chain at `common`. -/
def reorgLanded (g : ChainState) (side : List Block) (common : Block)
    (works : ExtTreeMap String Nat) (state : TxExecutionState)
    (root : Option (UInt64 × String)) (db : Db) : ChainState :=
  { Represents.movedTo g side common works with
    balances := state.balances
    nonces := state.nonces
    cachedStateRoot := root
    db := db }

section Landing

variable {P : Platform} {D : Block -> Prop} {host host' : Host} {g g' : ChainState}
  {newTip common : Block} {rest side : List Block} {works : ExtTreeMap String Nat}
  {state : TxExecutionState} {root : Option (UInt64 × String)} {db : Db}
  {recovery : ReorgRecovery}

/-- A reorg that succeeds lands on the path of the new tip, with the state that the
path replays to. -/
theorem tryReorg_landed (hg : Represents P D g) (hr : Replays P g)
    (hl : KnownPath g (newTip :: rest)) (hbranch : BranchesAt g (newTip :: rest) side common)
    (hrun : tryReorg P host g newTip = .ok (some recovery, g', host')) :
    exists works state root db, lineState P (newTip :: rest) = .ok state ∧
      BranchWorks P g side common works ∧
      recovery = reorgRecovery P (Represents.demotedBlocks g common) side.reverse ∧
      g' = reorgLanded g side common works state root db := by
  rcases hr.known hl with ⟨state, hstate⟩
  cases tryReorg_cases hrun with
  | @exchanged plan raised demoted tip firstStale hplan hexchange hlast hstale hwrite =>
      have hplanned := planReorg_ok hplan
      rcases hg.planned_eq hl hbranch hplanned with ⟨hsegment, hhash, hheight⟩
      have hexchanged := exchangeBranches_ok hexchange
      have hdemoted : demoted = Represents.demotedBlocks g common := by
        rw [hexchanged.demoted_eq, hheight]
      rcases hexchanged.works with ⟨cw, works, hancestor, hworks, hraised⟩
      rw [hsegment, hheight] at hraised
      rw [hheight, hhash] at hancestor
      rw [hsegment] at hworks
      have hplanState : plan.state = state := by
        rcases hplanned.replay with ⟨ancestorState, hancestorState, hbranchState⟩
        rcases reorg_replay hg hl hbranch hstate with
          ⟨ancestorState', hancestorState', hbranchState'⟩
        rw [hheight, hancestorState'] at hancestorState
        rw [hhash, hsegment, ← Except.ok.inj hancestorState, hbranchState'] at hbranchState
        exact (Except.ok.inj hbranchState).symm
      refine ⟨works, state, some (newTip.header.number, plan.stateRoot),
        g.db.applyBatch (reorgBatch raised.blocks tip (heightRange firstStale g.currentHeight)),
        hstate, ⟨cw, hancestor, hworks⟩, ?_, ?_⟩
      · rw [hdemoted, hsegment]
      · rw [hraised]
        unfold reorganisedChain reorgLanded
        rw [hplanState]

/-- A reorg along a known path is never refused by a check. -/
theorem tryReorg_succeeds (hg : Represents P D g) (hr : Replays P g) (hw : WorkBounded g)
    (hl : KnownPath g (newTip :: rest)) (hbranch : BranchesAt g (newTip :: rest) side common)
    (hside : side ≠ []) (hwrite : host.writeOk host.writes = true) :
    exists recovery g' host', tryReorg P host g newTip = .ok (some recovery, g', host') := by
  rcases hr.known hl with ⟨state, hstate⟩
  have hplan : exists plan, planReorg P g newTip = .ok plan := by
    have hsegment := hg.collectNewSegment_eq hl hbranch
    cases hreverse : side.reverse with
    | nil => exact absurd (List.reverse_eq_nil_iff.mp hreverse) hside
    | cons first segment =>
        have hfirst : side.reverse.head? = some first := by
          rw [hreverse]
          rfl
        have hparent := hg.parent_of_side hl hbranch hfirst
        rcases reorg_replay hg hl hbranch hstate with ⟨ancestorState, hancestor, hreplayed⟩
        rw [hreverse] at hsegment hreplayed
        rcases lineState_cons.mp hstate with ⟨before, _, hblk⟩
        rcases replayBlockChecked_ok hblk with ⟨_, _, _, hroot⟩
        have hnumber : newTip.header.number ≠ 0 := by
          cases rest with
          | nil =>
              have hpath := hbranch.path_eq
              rw [hg.take_reverse hbranch.common_mem] at hpath
              have hlength := congrArg List.length hpath
              have hpos := List.length_pos_of_ne_nil hside
              simp only [List.length_cons, List.length_nil, List.length_append] at hlength
              omega
          | cons parent rest => exact hg.number_ne hl
        unfold planReorg
        rw [hsegment]
        dsimp only [liftFault, bind, Except.bind]
        rw [hparent, hg.canonIndex_of_mem hbranch.common_mem]
        dsimp only
        rw [hancestor]
        dsimp only [mapErr]
        rw [hreplayed]
        dsimp only
        rw [hroot hnumber]
        dsimp only
        rw [if_neg (not_not.mpr rfl)]
        exact ⟨_, rfl⟩
  rcases hplan with ⟨plan, hplan⟩
  rcases exchangeBranches_total hg hw hl hplan with ⟨raised, demoted, hexchange, hblocks⟩
  have hlast : raised.blocks.getLast? = some newTip := by
    rw [hblocks, List.getLast?_reverse]
    rfl
  have hstale : exists firstStale, addU64 P newTip.header.number 1 = .ok firstStale := by
    have hnumber := hg.number_eq hl
    have hlength := hg.path_length_lt hl
    have hone : (1 : UInt64).toNat = 1 := rfl
    rw [List.length_cons] at hlength
    exact ⟨_, addU64_ok P (by omega)⟩
  rcases hstale with ⟨firstStale, hstale⟩
  unfold tryReorg
  rw [hplan]
  dsimp only
  rw [hexchange]
  unfold persistCanonicalReorg
  simp only [bind, Except.bind, hlast, hstale, pure, Except.pure]
  unfold Host.write
  rw [if_pos hwrite]
  exact ⟨_, _, _, rfl⟩

theorem reorgLanded_known (hg : Represents P D g) (hl : KnownPath g (newTip :: rest))
    (hbranch : BranchesAt g (newTip :: rest) side common) :
    resolveBlock (reorgLanded g side common works state root db) = resolveBlock g :=
  hg.moved_resolveBlock hl hbranch works

theorem reorgLanded_represents (hg : Represents P D g) (hl : KnownPath g (newTip :: rest))
    (hbranch : BranchesAt g (newTip :: rest) side common) :
    Represents P D (reorgLanded g side common works state root db) :=
  (hg.moved hl hbranch works).congr rfl rfl rfl rfl (hg.moved hl hbranch works).waiting

theorem reorgLanded_blocks (hbranch : BranchesAt g (newTip :: rest) side common) :
    (reorgLanded g side common works state root db).blocks = (newTip :: rest).reverse :=
  Represents.moved_blocks hbranch works

theorem reorgLanded_replays (hg : Represents P D g) (hr : Replays P g)
    (hl : KnownPath g (newTip :: rest)) (hbranch : BranchesAt g (newTip :: rest) side common)
    (hstate : lineState P (newTip :: rest) = .ok state) :
    Replays P (reorgLanded g side common works state root db) where
  known := by
    unfold KnownPath
    rw [reorgLanded_known hg hl hbranch]
    exact hr.known
  live := by
    rw [reorgLanded_blocks hbranch, List.reverse_reverse]
    exact hstate

end Landing

/-!
# The tip has no children
-/

/-- No known block builds on the tip. -/
def TipChildless (g : ChainState) : Prop :=
  forall ⦃blk parent rest⦄, KnownPath g (blk :: parent :: rest) -> parent.hash ≠ g.tipHash

section Tip

variable {P : Platform} {D : Block -> Prop} {host : Host} {g g' : ChainState} {blk parent : Block}
  {rest : List Block} {candidateCw : Nat} {state : TxExecutionState}
  {sourcePeer : Option String} {step : Step}

theorem TipChildless.congr (h : TipChildless g) (hknown : resolveBlock g' = resolveBlock g)
    (htip : g'.tipHash = g.tipHash) : TipChildless g' := by
  unfold TipChildless KnownPath
  rw [hknown, htip]
  exact h

/-- A new tip was unknown, so that no known block names it. -/
theorem tipChildless_of_new (hg : Represents P D g)
    (h : Admitted P D host g blk parent rest candidateCw state)
    (hknown : resolveBlock g' = Store.put chainLineage (resolveBlock g) blk)
    (htip : g'.tipHash = blk.hash) : TipChildless g' := by
  intro b p tail hl
  have hparent : resolveBlock g p.hash = some p := by
    rcases knownPath_cases hg h.joins hknown hl with ⟨hold, _⟩ | ⟨_, htail⟩
    · exact hold.lookup (List.mem_cons_of_mem _ List.mem_cons_self)
    · rw [(List.cons.inj htail).1]
      exact h.joins.path.lookup List.mem_cons_self
  rw [htip]
  intro heq
  rw [heq, h.joins.unknown] at hparent
  cases hparent

theorem Effect.tipChildless (hg : Represents P D g) (ht : TipChildless g)
    (h : Effect P D host g blk sourcePeer step) : TipChildless step.chain := by
  cases h with
  | rejected _ => exact ht
  | orphaned _ _ _ =>
      have hknown := (addOrphan_known host.now g blk (sourcePeer.getD "anon")).1
      have hblocks := (addOrphan_db host.now g blk (sourcePeer.getD "anon")).1
      exact ht.congr hknown (ChainState.tipHash_congr hblocks)
  | extended hadmitted _ htip _ _ =>
      apply tipChildless_of_new hg hadmitted (hadmitted.extended_known hg htip _)
      apply ChainState.tipHash_of_last
      rw [extendedChain_blocks, List.getLast?_concat]
  | recorded hadmitted hparent _ _ =>
      intro b p tail hl
      rcases knownPath_cases hg hadmitted.joins (hadmitted.recorded_known hg) hl with
        ⟨hold, _⟩ | ⟨_, htail⟩
      · exact ht hold
      · rw [(List.cons.inj htail).1, ← hadmitted.joins.parent_eq]
        exact hparent
  | moved hmoves _ =>
      apply tipChildless_of_new hg hmoves.admitted
      · rw [hmoves.known]
        exact hmoves.admitted.recorded_known hg
      · apply ChainState.tipHash_of_last
        rw [hmoves.blocks, List.getLast?_reverse]
        rfl

theorem stepInvariant_tipChildless (P : Platform) (D : Block -> Prop) :
    StepInvariant P D fun _ g => TipChildless g where
  effect := fun hg _ heffect hpre => heffect.tipChildless hg hpre
  take := fun _ hpre => hpre
  forget := fun _ hpre => hpre

theorem GenesisApplied.tipChildless (h : GenesisApplied P g) : TipChildless g := by
  rcases h.eq with ⟨db, rfl⟩
  intro blk parent rest hl
  have hpath := (genesisOnly_genesisApplied rfl rfl rfl rfl rfl).knownPath hl
  simp at hpath

/-- A branch leaves the chain below the tip. -/
theorem TipChildless.demoted_ne (ht : TipChildless g) (hg : Represents P D g) {l side : List Block}
    {common : Block} (hl : KnownPath g l) (hbranch : BranchesAt g l side common)
    (hside : side ≠ []) : Represents.demotedBlocks g common ≠ [] := by
  intro hempty
  have hat := hg.blocks_getElem? hbranch.common_mem
  have hlength := List.drop_eq_nil_iff.mp hempty
  have hlt := (List.getElem?_eq_some_iff.mp hat).1
  have hlast : g.blocks.getLast? = some common := by
    rw [List.getLast?_eq_getElem?, ← hat]
    congr 1
    omega
  rcases List.eq_nil_or_concat side with hnil | ⟨newer, first, hconcat⟩
  · exact hside hnil
  · have hpath := hl
    rw [hbranch.path_eq, hg.take_reverse hbranch.common_mem, hconcat, List.concat_eq_append,
      List.append_assoc] at hpath
    exact ht hpath.suffix (ChainState.tipHash_of_last hlast).symm

end Tip

/-!
# The way back
-/

section Back

variable {P : Platform} {D : Block -> Prop} {host host' : Host} {g g' : ChainState}
  {newTip common : Block} {rest side : List Block} {works : ExtTreeMap String Nat}
  {state : TxExecutionState} {root : Option (UInt64 × String)} {db : Db}
  {recovery : ReorgRecovery}

theorem reorgLanded_take (hg : Represents P D g)
    (hbranch : BranchesAt g (newTip :: rest) side common) :
    (reorgLanded g side common works state root db).blocks.take
        (common.header.number.toNat + 1) =
      g.blocks.take (common.header.number.toNat + 1) := by
  have hlt := (List.getElem?_eq_some_iff.mp (hg.blocks_getElem? hbranch.common_mem)).1
  rw [reorgLanded_blocks hbranch, hbranch.path_eq, List.reverse_append, List.reverse_reverse]
  exact List.take_left' (by rw [List.length_take]; omega)

theorem reorgLanded_drop (hg : Represents P D g)
    (hbranch : BranchesAt g (newTip :: rest) side common) :
    (reorgLanded g side common works state root db).blocks.drop
        (common.header.number.toNat + 1) = side.reverse := by
  have hlt := (List.getElem?_eq_some_iff.mp (hg.blocks_getElem? hbranch.common_mem)).1
  rw [reorgLanded_blocks hbranch, hbranch.path_eq, List.reverse_append, List.reverse_reverse]
  exact List.drop_left' (by rw [List.length_take]; omega)

/-- After a reorg the old chain branches off where the new one does. -/
theorem reorgLanded_branchesAt (hg : Represents P D g)
    (hbranch : BranchesAt g (newTip :: rest) side common) :
    BranchesAt (reorgLanded g side common works state root db) g.blocks.reverse
      (Represents.demotedBlocks g common).reverse common where
  path_eq := by
    rw [reorgLanded_take hg hbranch, ← List.reverse_append, List.take_append_drop]
  common_mem := by
    rw [reorgLanded_blocks hbranch, hbranch.path_eq, hg.take_reverse hbranch.common_mem]
    simp
  side_mem := by
    intro blk hblk
    rw [List.mem_reverse] at hblk
    have hmem := Represents.demoted_mem hblk
    have hside := hg.not_mem_side_of_mem hbranch hmem
    constructor
    · exact Represents.moved_sideBlocks_demoted works hg hside hblk
    · intro hcanon
      have hslot : (reorgLanded g side common works state root db).canonIndex[blk.hash]? = none :=
        Represents.moved_canonIndex_demoted works hside (List.mem_map_of_mem hblk)
      rw [ExtTreeMap.mem_iff_isSome_getElem?, hslot] at hcanon
      cases hcanon

/-- Two chains with the same blocks have the same index. -/
theorem canonIndex_eq (hg : Represents P D g) (hg' : Represents P D g')
    (hblocks : g'.blocks = g.blocks) : g'.canonIndex = g.canonIndex := by
  apply ExtTreeMap.ext_getElem?
  intro h
  apply Option.ext
  intro n
  rw [hg'.index, hg.index, hblocks]

/-- A second reorg to the old tip restores the chain. -/
theorem reorg_back (hg : Represents P D g) (hr : Replays P g) {oldTip : Block}
    (hold : g.blocks.getLast? = some oldTip) (hl : KnownPath g (newTip :: rest))
    (hbranch : BranchesAt g (newTip :: rest) side common)
    (hstate : lineState P (newTip :: rest) = .ok state)
    (hrun : tryReorg P host (reorgLanded g side common works state root db) oldTip =
      .ok (some recovery, g', host')) : ChainRestored g g' := by
  have hg₁ : Represents P D (reorgLanded g side common works state root db) :=
    reorgLanded_represents hg hl hbranch
  have hr₁ : Replays P (reorgLanded g side common works state root db) :=
    reorgLanded_replays hg hr hl hbranch hstate
  have hpath : KnownPath (reorgLanded g side common works state root db) g.blocks.reverse := by
    unfold KnownPath
    rw [reorgLanded_known hg hl hbranch]
    exact hg.chain
  have hback : BranchesAt (reorgLanded g side common works state root db) g.blocks.reverse
      (Represents.demotedBlocks g common).reverse common :=
    reorgLanded_branchesAt hg hbranch
  have hreverse : exists below, g.blocks.reverse = oldTip :: below := by
    rw [List.getLast?_eq_some_iff] at hold
    rcases hold with ⟨below, hblocks⟩
    rw [hblocks, List.reverse_append]
    exact ⟨_, rfl⟩
  rcases hreverse with ⟨below, hreverse⟩
  rw [hreverse] at hpath hback
  rcases tryReorg_landed hg₁ hr₁ hpath hback hrun with
    ⟨works', state', root', db', hstate', _, _, hg'⟩
  have hblocks : g'.blocks = g.blocks := by
    rw [hg', reorgLanded_blocks hback, ← hreverse, List.reverse_reverse]
  have hg₂ : Represents P D g' := by
    rw [hg']
    exact reorgLanded_represents hg₁ hpath hback
  constructor
  · exact hblocks
  · exact canonIndex_eq hg hg₂ hblocks
  · apply ExtTreeMap.ext_getElem?
    intro h
    have hdrop : Represents.demotedBlocks
        (reorgLanded g side common works state root db) common = side.reverse :=
      reorgLanded_drop hg hbranch
    rw [hg']
    by_cases hdemoted : h ∈ (Represents.demotedBlocks g common).map Block.hash
    · rcases List.mem_map.mp hdemoted with ⟨blk, hblk, rfl⟩
      have hcanon : blk.hash ∈ g.canonIndex :=
        hg.mem_canonIndex_iff.mpr ⟨blk, Represents.demoted_mem hblk, rfl⟩
      have hnone : g.sideBlocks[blk.hash]? = none :=
        ExtTreeMap.getElem?_eq_none (hg.apart _ hcanon)
      rw [hnone]
      apply Represents.moved_sideBlocks_side works'
      simpa using hdemoted
    · have hback' : h ∉ (Represents.demotedBlocks g common).reverse.map Block.hash := by
        simpa using hdemoted
      by_cases hside : h ∈ side.map Block.hash
      · rcases List.mem_map.mp hside with ⟨blk, hblk, rfl⟩
        rw [(hbranch.side_mem blk hblk).1]
        apply Represents.moved_sideBlocks_demoted works' hg₁ hback'
        rw [hdrop]
        exact List.mem_reverse.mpr hblk
      · apply Eq.trans (Represents.moved_sideBlocks_kept works' hback' _)
        · exact Represents.moved_sideBlocks_kept works hside hdemoted
        · rw [hdrop]
          simpa using hside
  · have hlive := hr.live
    rw [hreverse, hstate'] at hlive
    have haccounts : g'.accounts = g.accounts := by
      rw [hg']
      exact Except.ok.inj hlive
    rw [haccounts]
    exact SameAccounts.refl _

end Back

/-!
# Reachable states
-/

section Runs

variable {P : Platform} {D : Block -> Prop} {host host' : Host} {s g g' : ChainState}
  {newTip common : Block} {rest side : List Block} {recovery : ReorgRecovery}
  {works : ExtTreeMap String Nat} {state : TxExecutionState} {root : Option (UInt64 × String)}
  {db : Db} {calls : List Call}

theorem linksFrom_append {hash : String} {segment : List Block} {blk : Block} :
    LinksFrom hash (segment ++ [blk]) ↔
      LinksFrom hash segment ∧
        blk.header.parentHash = ((segment.getLast?).map Block.hash).getD hash := by
  induction segment generalizing hash with
  | nil => simp [LinksFrom]
  | cons x segment ih =>
      rw [List.cons_append]
      unfold LinksFrom
      rw [ih, and_assoc]
      cases segment with
      | nil => simp
      | cons y segment =>
          rw [List.getLast?_cons_cons]
          cases hlast : (y :: segment).getLast? with
          | none => exact absurd (List.getLast?_eq_none_iff.mp hlast) (List.cons_ne_nil _ _)
          | some z => exact Iff.rfl

/-- The side part of a path is the segment of its tip. -/
theorem segmentTo_of_branchesAt (hg : Represents P D g) (hl : KnownPath g (newTip :: rest))
    (hbranch : BranchesAt g (newTip :: rest) side common) (hside : side ≠ []) :
    SegmentTo g newTip common side.reverse where
  ancestor_mem := hbranch.common_mem
  links := by
    have hpath := hl
    rw [hbranch.path_eq, hg.take_reverse hbranch.common_mem] at hpath
    clear hbranch hl hside
    induction side with
    | nil => trivial
    | cons blk side ih =>
        rw [List.reverse_cons, linksFrom_append]
        rw [List.cons_append] at hpath
        cases side with
        | nil => exact ⟨trivial, hpath.parent_eq (s := [])⟩
        | cons parent side =>
            refine ⟨ih hpath.tail, ?_⟩
            rw [List.getLast?_reverse]
            exact hpath.parent_eq (s := [])
  last := by
    cases side with
    | nil => exact absurd rfl hside
    | cons blk side =>
        have hpath := hbranch.path_eq
        rw [List.getLast?_reverse]
        rw [List.cons_append] at hpath
        rw [(List.cons.inj hpath).1]
        rfl
  side := by
    intro blk hblk
    exact hbranch.side_mem blk (List.mem_reverse.mp hblk)

theorem known_iff (hg : Represents P D g) (hash : String) :
    hash ∈ g.canonIndex ∨ hash ∈ g.sideBlocks ↔ resolveBlock g hash ≠ none := by
  by_cases hcanon : hash ∈ g.canonIndex
  · rcases hg.mem_canonIndex_iff.mp hcanon with ⟨blk, hmem, rfl⟩
    rw [hg.resolve_of_mem hmem]
    simp [hcanon]
  · rw [Represents.resolve_of_not_mem hcanon, ExtTreeMap.mem_iff_isSome_getElem?,
      Option.isSome_iff_ne_none]
    simp [hcanon]

theorem reorgLanded_exchange (hg : Represents P D g) (hl : KnownPath g (newTip :: rest))
    (hbranch : BranchesAt g (newTip :: rest) side common)
    (hworks : BranchWorks P g side common works)
    (hrecovery : recovery =
      reorgRecovery P (Represents.demotedBlocks g common) side.reverse) :
    ExactExchange P g (reorgLanded g side common works state root db) common side.reverse
      recovery where
  blocks := by
    rw [reorgLanded_blocks hbranch, hbranch.path_eq, List.reverse_append, List.reverse_reverse]
  sideBlocks := by
    intro hash blk
    rw [List.map_reverse, List.mem_reverse]
    show (Represents.movedTo g side common works).sideBlocks[hash]? = some blk ↔ _
    by_cases hside : hash ∈ side.map Block.hash
    · rw [Represents.moved_sideBlocks_side works hside]
      constructor
      · intro h
        cases h
      · rintro (⟨_, hnot⟩ | ⟨hdemoted, rfl⟩)
        · exact absurd hside hnot
        · exact absurd hside
            (hg.not_mem_side_of_mem hbranch (Represents.demoted_mem hdemoted))
    · by_cases hdemoted : hash ∈ (Represents.demotedBlocks g common).map Block.hash
      · rcases List.mem_map.mp hdemoted with ⟨b, hb, rfl⟩
        have hmem := Represents.demoted_mem hb
        rw [Represents.moved_sideBlocks_demoted works hg hside hb]
        constructor
        · intro h
          cases h
          exact Or.inr ⟨hb, rfl⟩
        · rintro (⟨hold, _⟩ | ⟨hblk, hname⟩)
          · have hcanon := hg.mem_canonIndex_iff.mpr ⟨b, hmem, rfl⟩
            rw [ExtTreeMap.getElem?_eq_none (hg.apart _ hcanon)] at hold
            cases hold
          · rw [Represents.eq_of_hash hg.chain
              (List.mem_reverse.mpr hmem)
              (List.mem_reverse.mpr (Represents.demoted_mem hblk)) hname]
      · rw [Represents.moved_sideBlocks_kept works hside hdemoted]
        constructor
        · intro h
          exact Or.inl ⟨h, hside⟩
        · rintro (⟨hold, _⟩ | ⟨hblk, rfl⟩)
          · exact hold
          · exact absurd (List.mem_map_of_mem hblk) hdemoted
  known := by
    intro hash
    rw [known_iff (reorgLanded_represents hg hl hbranch), known_iff hg,
      reorgLanded_known hg hl hbranch]
  works := by
    intro hash hout
    rcases hworks with ⟨cw, _, hrun⟩
    exact segmentWork_of_not_mem hrun hout
  index := (reorgLanded_represents hg hl hbranch).index
  displaced := by
    rw [hrecovery]
    exact displacedTxs_eq P _ _

/-- On every reachable state a reorg to a side block is an exact exchange at the last
canonical ancestor, and a reorg back to the old tip succeeds and restores the chain. -/
theorem reorg_exactExchange (hnumbered : NumberedFrom P D) (hgenesis : GenesisApplied P s)
    (hcalls : forall call, call ∈ calls -> D call.blk) (hrun : applyAll P s calls = .ok g)
    {hash : String} (hside : g.sideBlocks[hash]? = some newTip)
    (hreorg : tryReorg P host g newTip = .ok (some recovery, g', host')) :
    (exists ancestor segment, SegmentTo g newTip ancestor segment ∧
      ExactExchange P g g' ancestor segment recovery) ∧
    exists oldTip, g.blocks.getLast? = some oldTip ∧
      (forall (host : Host), host.writeOk host.writes = true ->
        exists recovery g'' host', tryReorg P host g' oldTip = .ok (some recovery, g'', host')) ∧
      forall (host : Host) recovery g'' host',
        tryReorg P host g' oldTip = .ok (some recovery, g'', host') -> ChainRestored g g'' := by
  have hJ := ((stepInvariant_replays P D).and (stepInvariant_workBounded P D)).and
    (stepInvariant_tipChildless P D)
  have hreached := hJ.applyAll (J := fun g => (Replays P g ∧ WorkBounded g) ∧ TipChildless g)
    hnumbered hgenesis.represents
    ⟨⟨hgenesis.replays, hgenesis.exactWork.bounded⟩, hgenesis.tipChildless⟩ hcalls hrun
  rcases hreached with ⟨hg, ⟨hr, hw⟩, ht⟩
  have hcanon : hash ∉ g.canonIndex := by
    intro hcanon
    have hnone := ExtTreeMap.getElem?_eq_none (hg.apart _ hcanon)
    rw [hside] at hnone
    cases hnone
  have hresolve : resolveBlock g hash = some newTip :=
    (Represents.resolve_of_not_mem hcanon).trans hside
  rcases hg.rooted.path hresolve with ⟨rest, hl⟩
  have hname : newTip.hash = hash := hg.rooted.named hresolve
  rcases hg.branchesAt hl with ⟨side, common, hbranch⟩
  have hne : side ≠ [] := by
    rintro rfl
    have hpath := hbranch.path_eq
    rw [List.nil_append, hg.take_reverse hbranch.common_mem] at hpath
    apply hcanon
    rw [← hname, (List.cons.inj hpath).1]
    exact hg.mem_canonIndex_iff.mpr ⟨common, hbranch.common_mem, rfl⟩
  rcases tryReorg_landed hg hr hl hbranch hreorg with
    ⟨works, state, root, db, hstate, hworks, hrecovery, rfl⟩
  constructor
  · exact ⟨common, side.reverse, segmentTo_of_branchesAt hg hl hbranch hne,
      reorgLanded_exchange hg hl hbranch hworks hrecovery⟩
  · cases hold : g.blocks.getLast? with
    | none =>
        have hempty := hg.chain.ne_nil
        rw [List.getLast?_eq_none_iff.mp hold] at hempty
        exact absurd rfl hempty
    | some oldTip =>
        refine ⟨oldTip, rfl, ?_, ?_⟩
        · intro host hwrite
          have hpath : KnownPath (reorgLanded g side common works state root db)
              g.blocks.reverse := by
            unfold KnownPath
            rw [reorgLanded_known hg hl hbranch]
            exact hg.chain
          have hback : BranchesAt (reorgLanded g side common works state root db)
              g.blocks.reverse (Represents.demotedBlocks g common).reverse common :=
            reorgLanded_branchesAt hg hbranch
          rcases List.getLast?_eq_some_iff.mp hold with ⟨below, hblocks⟩
          have hreverse : g.blocks.reverse = oldTip :: below.reverse := by
            rw [hblocks, List.reverse_append]
            rfl
          rw [hreverse] at hpath hback
          have hdemoted := ht.demoted_ne hg hl hbranch hne
          exact tryReorg_succeeds (reorgLanded_represents hg hl hbranch)
            (reorgLanded_replays hg hr hl hbranch hstate)
            (workBounded_moved hg hw hl hbranch hworks (reorgLanded_known hg hl hbranch) rfl)
            hpath hback (by simpa using hdemoted) hwrite
        · intro host recovery g'' host' hback
          exact reorg_back hg hr hold hl hbranch hstate hback

/-- A reorg that displaces the two transfers of the sample chain. -/
theorem displacingReorg_values :
    ((applyAll samplePlatform sampleGenesis
      ([firstBlock, spendingBlock, rivalFirst, rivalSecond].map sampleCall)).toOption.bind fun g =>
        (tryReorg samplePlatform sampleHost g rivalSecond).toOption.map fun out =>
          (g.sideBlocks[rivalSecond.hash]?, out.1.map fun recovery => recovery.displacedTxs.length)) =
      some (some rivalSecond, some 2) := by
  decide +kernel

theorem displacingReorg_exchange :
    exists g recovery g' host',
      applyAll samplePlatform sampleGenesis
        ([firstBlock, spendingBlock, rivalFirst, rivalSecond].map sampleCall) = .ok g ∧
      tryReorg samplePlatform sampleHost g rivalSecond = .ok (some recovery, g', host') ∧
      recovery.displacedTxs.length = 2 ∧
      exists oldTip recovery' g'' host'',
        tryReorg samplePlatform sampleHost g' oldTip = .ok (some recovery', g'', host'') ∧
          ChainRestored g g'' := by
  rcases Option.bind_eq_some_iff.mp displacingReorg_values with ⟨g, hrun, hvalues⟩
  rw [toOption_eq_some] at hrun
  rcases toOption_map_eq_some hvalues with ⟨⟨found, g', host'⟩, hreorg, heq⟩
  rw [Prod.mk.injEq] at heq
  rcases heq with ⟨hside, hcount⟩
  rcases Option.map_eq_some_iff.mp hcount with ⟨recovery, rfl, hlength⟩
  have hexchange := reorg_exactExchange spendingBlocks_numbered sampleGenesis_applied
    (spendingCalls_delivered
      (show [firstBlock, spendingBlock, rivalFirst, rivalSecond] ⊆ spendingBlocks by
        simp [spendingBlocks])) hrun hside hreorg
  rcases hexchange.2 with ⟨oldTip, _, hsucceeds, hrestored⟩
  rcases hsucceeds sampleHost rfl with ⟨recovery', g'', host'', hback⟩
  exact ⟨g, recovery, g', host', hrun, hreorg, hlength, oldTip, recovery', g'', host'', hback,
    hrestored _ _ _ _ hback⟩

end Runs

end VisionCore
