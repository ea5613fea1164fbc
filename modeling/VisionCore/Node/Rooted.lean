import VisionCore.Chain.Rejection
import VisionCore.Chain.Sample
import VisionCore.Chain.Transition
import VisionCore.Node.Recovery

/-!
# The block at height zero

The genesis case of acceptance compares the proof-of-work hash that a block claims and
checks the transaction root.  The other fields of the header and the transactions are
whatever the block brings.
-/

namespace VisionCore

open Std Foundation

/-- The block is the genesis block, up to its weight. -/
structure IsGenesis (blk : Block) : Prop where
  header : blk.header = genesisBlock.header
  txs : blk.txs = []

/-- What no check compares with the genesis block. -/
structure UncheckedGenesis (blk : Block) : Prop where
  parentHash : blk.header.parentHash = nullHash
  timestamp : blk.header.timestamp = 0
  difficulty : blk.header.difficulty = difficultyFloor
  nonce : blk.header.nonce = 0
  stateRoot : blk.header.stateRoot = nullHash
  miner : blk.header.miner = "network_genesis"
  txs : blk.txs = []

/-- The checks of a block at height zero. -/
structure PassesGenesis (P : Platform) (host : Host) (g : ChainState) (blk : Block) : Prop where
  weight : blk.weight ≤ blockWeightLimit
  txRoot : blk.header.txRoot = blk.computeTxRoot P
  fresh : blk.hash ∉ g.seenBlocks
  hash : blk.hash = genesisHash
  first : g.blocks = []
  written : host.writeOk host.writes = true

section Acceptance

variable {P : Platform} {host : Host} {g : ChainState} {blk : Block} {sourcePeer : Option String}

theorem isGenesis_iff (hnumber : blk.header.number = 0) (hhash : blk.hash = genesisHash)
    (hroot : blk.header.txRoot = blk.computeTxRoot P) : IsGenesis blk ↔ UncheckedGenesis blk := by
  constructor
  · rintro ⟨hheader, htxs⟩
    constructor
    · rw [hheader]
      rfl
    · rw [hheader]
      rfl
    · rw [hheader]
      rfl
    · rw [hheader]
      rfl
    · rw [hheader]
      rfl
    · rw [hheader]
      rfl
    · exact htxs
  · intro h
    refine ⟨?_, h.txs⟩
    have hempty : blk.header.txRoot = nullHash := by
      rw [hroot]
      unfold Block.computeTxRoot
      rw [h.txs]
      rfl
    have hpow : blk.header.powHash = genesisHash := hhash
    have hparent := h.parentHash
    have htimestamp := h.timestamp
    have hdifficulty := h.difficulty
    have hnonce := h.nonce
    have hstate := h.stateRoot
    have hminer := h.miner
    generalize blk.header = header at *
    cases header
    dsimp only at *
    subst hnumber hpow hparent htimestamp hdifficulty hnonce hstate hminer hempty
    rfl

theorem checkStructure_atZero (hnumber : blk.header.number = 0) :
    checkStructure P blk = .ok () ↔
      blk.weight ≤ blockWeightLimit ∧ blk.header.txRoot = blk.computeTxRoot P := by
  have hcoinbase : checkCoinbasePresence blk = .ok () := by
    unfold checkCoinbasePresence
    rw [hnumber]
    rfl
  unfold checkStructure
  rw [hcoinbase]
  by_cases hweight : blk.weight > blockWeightLimit
  · rw [if_pos hweight]
    constructor
    · intro h
      cases h
    · intro h
      exact absurd hweight (UInt64.not_lt.mpr h.1)
  · rw [if_neg hweight]
    by_cases hroot : blk.header.txRoot = blk.computeTxRoot P
    · rw [if_neg (not_not.mpr hroot)]
      exact iff_of_true rfl ⟨UInt64.not_lt.mp hweight, hroot⟩
    · rw [if_pos hroot]
      constructor
      · intro h
        cases h
      · intro h
        exact absurd h.2 hroot

theorem acceptGenesis_extends_iff (host : Host) (g : ChainState) (blk : Block) :
    (exists height, (acceptGenesis host g blk).result = .canonExtension height) ↔
      blk.hash = genesisHash ∧ g.blocks = [] ∧ host.writeOk host.writes = true := by
  unfold acceptGenesis persistCanonicalExtension rejectStep
  by_cases hhash : blk.hash = genesisHash
  · rw [if_neg (not_not.mpr hhash)]
    cases hblocks : g.blocks with
    | nil =>
        rw [if_neg (by decide)]
        cases hwrite : host.writeOk host.writes with
        | true => simp [Host.write, hwrite, hhash]
        | false => simp [Host.write, hwrite]
    | cons b rest => simp
  · rw [if_pos hhash]
    simp [hhash]

/-- A block at height zero is stored if and only if it passes the checks. -/
theorem acceptBlock_atZero (host : Host) (g : ChainState) (sourcePeer : Option String)
    (hnumber : blk.header.number = 0) :
    exists step, acceptBlock P host g blk sourcePeer = .ok step ∧ step.promote = none ∧
      ((exists height, step.result = .canonExtension height) ↔ PassesGenesis P host g blk) := by
  have hchecked := checkStructure_atZero (P := P) hnumber
  unfold acceptBlock
  cases hstructure : checkStructure P blk with
  | error reason =>
      refine ⟨_, rfl, rfl, ?_⟩
      constructor
      · rintro ⟨height, hresult⟩
        cases hresult
      · intro h
        rw [hchecked.mpr ⟨h.weight, h.txRoot⟩] at hstructure
        cases hstructure
  | ok _ =>
      have hfields := hchecked.mp hstructure
      dsimp only
      by_cases hseen : blk.hash ∈ g.seenBlocks
      · rw [if_pos (ExtTreeSet.contains_iff_mem.mpr hseen)]
        refine ⟨_, rfl, rfl, ?_⟩
        constructor
        · rintro ⟨height, hresult⟩
          cases hresult
        · intro h
          exact absurd hseen h.fresh
      · rw [if_neg (fun h => hseen (ExtTreeSet.contains_iff_mem.mp h)), if_pos hnumber]
        refine ⟨_, rfl, ?_, ?_⟩
        · have hcases := acceptGenesis_cases host g blk
          generalize acceptGenesis host g blk = step at hcases
          cases hcases with
          | rejected => rfl
          | applied _ _ _ => rfl
        · rw [acceptGenesis_extends_iff]
          constructor
          · rintro ⟨hhash, hfirst, hwritten⟩
            exact ⟨hfields.1, hfields.2, hseen, hhash, hfirst, hwritten⟩
          · intro h
            exact ⟨h.hash, h.first, h.written⟩

theorem acceptBlock_atZero_chain {step : Step} {height : UInt64} (hnumber : blk.header.number = 0)
    (hstep : acceptBlock P host g blk sourcePeer = .ok step)
    (hresult : step.result = .canonExtension height) : step.chain = genesisApplied g blk := by
  cases acceptBlock_transition hstep with
  | rejected _ => cases hresult
  | genesis _ _ _ _ _ => rfl
  | orphaned _ _ _ => cases hresult
  | extended hvetted _ _ _ => exact absurd hnumber hvetted.number_ne
  | recorded _ _ _ _ => cases hresult
  | aborted _ _ _ _ _ => cases hresult
  | reorganised hvetted _ _ _ _ _ _ _ => exact absurd hnumber hvetted.number_ne

/-- An accepted block at height zero is the genesis block if and only if it brings the
unchecked fields of the genesis block. -/
theorem applyBlock_atZero_iff (hnumber : blk.header.number = 0) :
    (forall out, applyBlock P host g blk sourcePeer = .ok out ->
        (exists height, out.result = .canonExtension height) -> IsGenesis blk) ↔
      (PassesGenesis P host g blk -> UncheckedGenesis blk) := by
  rcases acceptBlock_atZero (P := P) host g sourcePeer hnumber with
    ⟨step, hstep, hpromote, hextends⟩
  have happly := applyBlock_of_step hstep hpromote
  constructor
  · intro hgenesis hpasses
    exact (isGenesis_iff hnumber hpasses.hash hpasses.txRoot).mp
      (hgenesis _ happly (hextends.mpr hpasses))
  · intro hunchecked out hrun hresult
    rw [happly] at hrun
    cases hrun
    have hpasses := hextends.mp hresult
    exact (isGenesis_iff hnumber hpasses.hash hpasses.txRoot).mpr (hunchecked hpasses)

end Acceptance

/-!
# The root of a rebuilt chain
-/

section Rebuild

variable {P : Platform} {host host' : Host} {g g' : ChainState} {blk first : Block}
  {sourcePeer : Option String}

theorem exchangeBranches_head {plan : ReorgPlan} {raised : ChainState} {demoted : List Block}
    (hrun : exchangeBranches P g plan = .ok (raised, demoted))
    (hfirst : g.blocks.head? = some first) : raised.blocks.head? = some first := by
  unfold exchangeBranches at hrun
  rcases bind_eq_ok.mp hrun with ⟨demotedFrom, _, hrun⟩
  rcases bind_eq_ok.mp hrun with ⟨kept, hkept, hrun⟩
  rcases bind_eq_ok.mp hrun with ⟨cw, _, hrun⟩
  rcases bind_eq_ok.mp hrun with ⟨⟨g₁, cw'⟩, hfold, hpair⟩
  rcases foldlM_promoteBlock hfold with ⟨works, _, rfl⟩
  rcases sliceToInclusive_ok hkept with ⟨_, rfl⟩
  cases hpair
  cases hblocks : g.blocks with
  | nil =>
      rw [hblocks] at hfirst
      cases hfirst
  | cons b rest =>
      rw [hblocks] at hfirst
      cases hfirst
      rfl

/-- No step replaces the first block of a chain. -/
theorem promotionInvariant_head (P : Platform) (first : Block) :
    PromotionInvariant P fun _ _ _ g => g.blocks.head? = some first where
  accept := by
    intro offered host g blk sourcePeer step hpre hrun
    cases acceptBlock_transition hrun with
    | rejected _ => exact hpre
    | genesis _ _ hempty _ _ =>
        rw [hempty] at hpre
        cases hpre
    | orphaned _ _ _ =>
        rcases addOrphan_frame host.now g blk (sourcePeer.getD "anon") with ⟨pool, byHash, hframe⟩
        rw [hframe]
        exact hpre
    | extended _ _ _ _ =>
        rw [extendedChain_blocks, List.head?_append, hpre]
        rfl
    | recorded _ _ _ _ => exact hpre
    | aborted _ _ _ _ _ => exact hpre
    | reorganised _ _ _ _ hexchange _ _ _ =>
        have hraised := exchangeBranches_head hexchange hpre
        exact hraised
  idle := fun hpre _ => hpre
  take := fun hpre _ => hpre
  forget := fun hpre => hpre

theorem replayStoredBlock_head {height : UInt64} {hash : String}
    (hfirst : g.blocks.head? = some first)
    (hrun : replayStoredBlock P (g, host) height hash blk = .ok (g', host')) :
    g'.blocks.head? = some first := by
  rcases bind_eq_ok.mp hrun with ⟨applied, happlied, hfinal⟩
  split at hfinal
  · cases hfinal
    have hhead : applied.chain.blocks.head? = some first :=
      @PromotionInvariant.applyBlock P _ (promotionInvariant_head P first) [] _ _ _ _ _ hfirst
        (liftFault_eq_ok.mp happlied)
    exact hhead
  · cases hfinal

theorem heightRange_zero (last : UInt64) : exists rest, heightRange 0 last = 0 :: rest := by
  unfold heightRange
  have hzero : (0 : UInt64).toNat = 0 := rfl
  rw [hzero, Nat.sub_zero, List.range_succ_eq_map, List.map_cons]
  exact ⟨_, rfl⟩

/-- A rebuild that succeeds has put the stored block of height zero at its root. -/
theorem rebuild_root (hrun : rebuildCanonicalStateFromGenesis P host g = .ok (g', host')) :
    exists hash root, requireCanonicalBlock g.db 0 = .ok (hash, root) ∧
      g'.blocks.head? = some root ∧ (IsGenesis root ↔ UncheckedGenesis root) := by
  unfold rebuildCanonicalStateFromGenesis at hrun
  split at hrun
  · cases hrun
  · rename_i tipHeight _
    split at hrun
    · cases hrun
    · rename_i stored hstored
      rcases heightRange_zero tipHeight with ⟨heights, hheights⟩
      rw [hheights, List.mapM_cons] at hstored
      rcases bind_eq_ok.mp hstored with ⟨⟨hash, root⟩, hroot, hrest⟩
      rcases bind_eq_ok.mp hrest with ⟨others, _, hcons⟩
      cases hcons
      rw [List.map_cons, List.foldlM_cons] at hrun
      rcases bind_eq_ok.mp hrun with ⟨⟨g₁, host₁⟩, hfirst, hfold⟩
      have hnumber := (requireCanonicalBlock_ok hroot).1
      rcases acceptBlock_atZero (P := P) host (clearedForRebuild g) none hnumber with
        ⟨step, hstep, hpromote, hextends⟩
      rcases bind_eq_ok.mp hfirst with ⟨applied, happlied, hfinal⟩
      rw [applyBlock_of_step hstep hpromote] at happlied
      cases happlied
      dsimp only at hfinal
      split at hfinal
      · rename_i hresult
        cases hfinal
        have hpasses := hextends.mp ⟨_, hresult⟩
        have hchain := acceptBlock_atZero_chain hnumber hstep hresult
        have hhead : step.chain.refreshCachedStateRootFromTip.blocks.head? = some root := by
          rw [hchain]
          rfl
        refine ⟨hash, root, hroot, ?_, isGenesis_iff hnumber hpasses.hash hpasses.txRoot⟩
        refine foldlM_induction (I := fun entry => entry.1.blocks.head? = some root) ?_ hhead hfold
        intro entry blk entry' _ hpre hstep'
        exact replayStoredBlock_head hpre hstep'
      · cases hfinal

/-- Acceptance and a rebuild admit, at height zero, exactly the blocks that pass the
checks; these are the genesis block when the fields that no check reads are its own. -/
theorem genesisRoot_iff (P : Platform) :
    (forall (host : Host) (g : ChainState) (blk : Block) (sourcePeer : Option String),
      blk.header.number = 0 ->
        ((forall out, applyBlock P host g blk sourcePeer = .ok out ->
            (exists height, out.result = .canonExtension height) -> IsGenesis blk) ↔
          (PassesGenesis P host g blk -> UncheckedGenesis blk))) ∧
    forall (host host' : Host) (g g' : ChainState),
      rebuildCanonicalStateFromGenesis P host g = .ok (g', host') ->
        exists hash root, requireCanonicalBlock g.db 0 = .ok (hash, root) ∧
          g'.blocks.head? = some root ∧ (IsGenesis root ↔ UncheckedGenesis root) :=
  ⟨fun _ _ _ _ hnumber => applyBlock_atZero_iff hnumber, fun _ _ _ _ hrun => rebuild_root hrun⟩

end Rebuild

/-!
# Another genesis
-/

/-- A block at height zero with the hash of genesis, its own transactions and miner. -/
def falseGenesis : Block :=
  let txs := [coinbaseTx 0, sampleTransfer sampleMiner]
  { header :=
      { genesisBlock.header with
        timestamp := 1
        difficulty := 1
        txRoot := Block.computeTxRoot samplePlatform { genesisBlock with txs := txs }
        miner := sampleMiner }
    txs := txs
    weight := 0 }

theorem falseGenesis_passes (db : Db) :
    PassesGenesis samplePlatform sampleHost (ChainState.empty db) falseGenesis := by
  constructor
  · decide
  · rfl
  · simp [ChainState.empty]
  · rfl
  · rfl
  · rfl

theorem falseGenesis_not_genesis : ¬ IsGenesis falseGenesis := by
  intro h
  have htimestamp := congrArg BlockHeader.timestamp h.header
  exact absurd htimestamp (by decide)

theorem falseGenesis_applied (db : Db) : exists out,
    applyBlock samplePlatform sampleHost (ChainState.empty db) falseGenesis none = .ok out ∧
      out.result = .canonExtension 0 ∧ out.chain.blocks = [falseGenesis] := by
  rcases @acceptBlock_atZero samplePlatform falseGenesis sampleHost (ChainState.empty db) none
    rfl with ⟨step, hstep, hpromote, hextends⟩
  rcases hextends.mpr (falseGenesis_passes db) with ⟨height, hresult⟩
  have hchain := acceptBlock_atZero_chain rfl hstep hresult
  refine ⟨_, applyBlock_of_step hstep hpromote, ?_, ?_⟩
  · cases acceptBlock_transition hstep with
    | rejected _ => cases hresult
    | genesis _ _ _ _ _ => rfl
    | orphaned _ _ _ => cases hresult
    | extended hvetted _ _ _ => exact absurd rfl hvetted.number_ne
    | recorded _ _ _ _ => cases hresult
    | aborted _ _ _ _ _ => cases hresult
    | reorganised hvetted _ _ _ _ _ _ _ => exact absurd rfl hvetted.number_ne
  · dsimp only
    rw [hchain]
    rfl

/-- A database that stores the other genesis at height zero. -/
def falseDb : Db :=
  Db.empty.applyBatch (tipBatch falseGenesis)

theorem falseDb_rebuilt : exists g' host',
    rebuildCanonicalStateFromGenesis samplePlatform sampleHost (ChainState.empty falseDb) =
      .ok (g', host') ∧ g'.blocks = [falseGenesis] := by
  have htip : requireTipHeight falseDb = .ok 0 := by
    unfold requireTipHeight loadTipHeight falseDb
    rw [tipBatch_tipHeight]
    rfl
  have hblock : requireCanonicalBlock falseDb 0 = .ok (falseGenesis.hash, falseGenesis) :=
    (tipBatch_storedBlock Db.empty falseGenesis).require
  have hrange : heightRange 0 0 = [0] := by decide
  rcases falseGenesis_applied falseDb with ⟨out, happlied, hresult, hblocks⟩
  have hcleared : clearedForRebuild (ChainState.empty falseDb) = ChainState.empty falseDb := rfl
  have hreplay : replayStoredBlock samplePlatform (ChainState.empty falseDb, sampleHost)
      falseGenesis.header.number falseGenesis.hash falseGenesis =
        .ok (out.chain.refreshCachedStateRootFromTip, out.host) := by
    unfold replayStoredBlock
    rw [happlied]
    exact if_pos hresult
  refine ⟨out.chain.refreshCachedStateRootFromTip, out.host, ?_, hblocks⟩
  unfold rebuildCanonicalStateFromGenesis
  have hdb : (ChainState.empty falseDb).db = falseDb := rfl
  rw [hdb, htip]
  dsimp only
  rw [hrange, List.mapM_cons, hblock, hcleared]
  dsimp only [bind, Except.bind, List.mapM_nil, pure, Except.pure]
  rw [List.map_cons, List.map_nil, List.foldlM_cons]
  dsimp only
  rw [hreplay]
  rfl

/-- Acceptance and a rebuild admit a block at height zero that is not the genesis block. -/
theorem falseGenesis_admitted : falseGenesis.header.number = 0 ∧ ¬ IsGenesis falseGenesis ∧
    (exists out, applyBlock samplePlatform sampleHost (ChainState.empty Db.empty) falseGenesis
      none = .ok out ∧ out.result = .canonExtension 0) ∧
    exists g' host', rebuildCanonicalStateFromGenesis samplePlatform sampleHost
      (ChainState.empty falseDb) = .ok (g', host') ∧ g'.blocks = [falseGenesis] := by
  rcases falseGenesis_applied Db.empty with ⟨out, happlied, hresult, _⟩
  exact ⟨rfl, falseGenesis_not_genesis, ⟨out, happlied, hresult⟩, falseDb_rebuilt⟩

end VisionCore
