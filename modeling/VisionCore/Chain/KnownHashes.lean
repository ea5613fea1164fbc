import VisionCore.Chain.Exchange
import VisionCore.Chain.Promotion
import VisionCore.Chain.Transition
import VisionCore.Chain.Validation
import VisionCore.Foundation.Buckets

/-!
# The known hashes

A hash is known when it is canonical or names a side block.  Acceptance only ever
adds to the known hashes, and over a catalogued chain it adds exactly the hash
whose waiting children it goes on to promote.  Nothing here depends on what the
delivered blocks contain.
-/

namespace VisionCore

open Std
open Foundation

/-- A hash that is canonical or names a side block. -/
def Known (g : ChainState) (h : String) : Prop :=
  h ∈ g.canonIndex ∨ h ∈ g.sideBlocks

/-- Every canonical block is known and every side block is filed under its hash. -/
structure Catalogued (g : ChainState) : Prop where
  blocks : forall blk : Block, blk ∈ g.blocks -> Known g blk.hash
  side : forall (hash : String) (blk : Block), g.sideBlocks[hash]? = some blk -> blk.hash = hash

theorem Known.congr {g g' : ChainState} (hcanon : g'.canonIndex = g.canonIndex)
    (hside : g'.sideBlocks = g.sideBlocks) {h : String} : Known g' h ↔ Known g h := by
  unfold Known
  rw [hcanon, hside]

theorem Catalogued.congr {g g' : ChainState} (hcat : Catalogued g)
    (hblocks : g'.blocks = g.blocks) (hcanon : g'.canonIndex = g.canonIndex)
    (hside : g'.sideBlocks = g.sideBlocks) : Catalogued g' where
  blocks := by
    intro blk hmem
    rw [hblocks] at hmem
    exact (Known.congr hcanon hside).mpr (hcat.blocks blk hmem)
  side := by
    intro hash blk hslot
    rw [hside] at hslot
    exact hcat.side hash blk hslot

/-!
# One new block
-/

theorem known_pushCanonical (g : ChainState) (blk : Block) (cw : Nat) {h : String} :
    Known (pushCanonical g blk cw) h ↔ Known g h ∨ blk.hash = h := by
  unfold Known pushCanonical
  rw [mem_insert_iff]
  constructor
  · rintro ((hnew | hcanon) | hside)
    · exact Or.inr hnew
    · exact Or.inl (Or.inl hcanon)
    · exact Or.inl (Or.inr hside)
  · rintro ((hcanon | hside) | hnew)
    · exact Or.inl (Or.inr hcanon)
    · exact Or.inr hside
    · exact Or.inl (Or.inl hnew)

theorem known_recordSideBlock (g : ChainState) (blk : Block) (cw : Nat) {h : String} :
    Known (recordSideBlock g blk cw) h ↔ Known g h ∨ blk.hash = h := by
  unfold Known recordSideBlock
  rw [mem_insert_iff]
  constructor
  · rintro (hcanon | hnew | hside)
    · exact Or.inl (Or.inl hcanon)
    · exact Or.inr hnew
    · exact Or.inl (Or.inr hside)
  · rintro ((hcanon | hside) | hnew)
    · exact Or.inl hcanon
    · exact Or.inr (Or.inr hside)
    · exact Or.inr (Or.inl hnew)

theorem known_extendedChain (g : ChainState) (blk : Block) (cw : Nat) (state : TxExecutionState)
    (db : Db) {h : String} :
    Known (extendedChain g blk cw state db) h ↔ Known g h ∨ blk.hash = h :=
  known_pushCanonical { g with balances := state.balances, nonces := state.nonces } blk cw

theorem known_sideRecorded (g : ChainState) (blk : Block) (cw : Nat) {h : String} :
    Known (sideRecorded g blk cw) h ↔ Known g h ∨ blk.hash = h :=
  known_recordSideBlock _ blk cw

theorem Catalogued.pushCanonical {g : ChainState} (hcat : Catalogued g) (blk : Block)
    (cw : Nat) : Catalogued (pushCanonical g blk cw) where
  blocks := by
    intro b hmem
    rw [known_pushCanonical]
    cases List.mem_append.mp hmem with
    | inl hold => exact Or.inl (hcat.blocks b hold)
    | inr hnew => exact Or.inr (by rw [List.mem_singleton.mp hnew])
  side := hcat.side

theorem Catalogued.recordSideBlock {g : ChainState} (hcat : Catalogued g) (blk : Block)
    (cw : Nat) : Catalogued (recordSideBlock g blk cw) where
  blocks := fun b hmem => (known_recordSideBlock g blk cw).mpr (Or.inl (hcat.blocks b hmem))
  side := by
    intro hash b hslot
    have hinsert : (g.sideBlocks.insert blk.hash blk)[hash]? = some b := hslot
    rw [getElem?_insert_ite] at hinsert
    split at hinsert
    · rename_i heq
      cases Option.some.inj hinsert
      exact heq
    · exact hcat.side hash b hinsert

/-!
# The exchange
-/

/-- The exchange, whatever the chain: a non-empty part of the canonical blocks is
kept, and the demoted ones were canonical. -/
theorem exchangeBranches_shape {P : Platform} {g raised : ChainState} {plan : ReorgPlan}
    {demoted : List Block} (hrun : exchangeBranches P g plan = .ok (raised, demoted)) :
    exists (kept : List Block) (works : ExtTreeMap String Nat), kept ≠ [] ∧ kept ⊆ g.blocks ∧
      demoted ⊆ g.blocks ∧
      raised = promotedChain { demoted.foldl demoteBlock g with blocks := kept }
        plan.segment works := by
  unfold exchangeBranches at hrun
  rcases bind_eq_ok.mp hrun with ⟨demotedFrom, _, hrun⟩
  rcases bind_eq_ok.mp hrun with ⟨kept, hkept, hrun⟩
  rcases bind_eq_ok.mp hrun with ⟨cw, _, hrun⟩
  rcases bind_eq_ok.mp hrun with ⟨⟨g', cw'⟩, hfold, hrun⟩
  cases hrun
  rcases sliceToInclusive_ok hkept with ⟨⟨_, hheight⟩, hslice⟩
  rcases foldlM_promoteBlock hfold with ⟨works, _, hraised⟩
  refine ⟨kept, works, ?_, ?_, List.drop_subset _ _, hraised⟩
  · rw [hslice]
    intro hnil
    have hlength := congrArg List.length hnil
    rw [List.length_take, List.length_nil] at hlength
    omega
  · rw [hslice]
    exact List.take_subset _ _

theorem known_exchanged (g : ChainState) (kept demoted segment : List Block)
    (works : ExtTreeMap String Nat) {h : String} :
    Known (promotedChain { demoted.foldl demoteBlock g with blocks := kept } segment works) h ↔
      Known g h ∨ h ∈ demoted.map Block.hash ∨ h ∈ segment.map Block.hash := by
  unfold Known promotedChain
  rw [foldl_demoteBlock]
  dsimp only
  rw [mem_foldl_insert Block.hash, mem_foldl_erase Block.hash, mem_foldl_erase Block.hash,
    mem_foldl_insert Block.hash]
  by_cases hsegment : h ∈ segment.map Block.hash
  · simp [hsegment]
  · by_cases hdemoted : h ∈ demoted.map Block.hash
    · simp [hsegment, hdemoted]
    · simp [hsegment, hdemoted]

/-- The segment of a plan is made of side blocks. -/
theorem collectNewSegmentLoop_side {g : ChainState} {fuel : Nat} {current : String}
    {above segment : List Block}
    (hrun : collectNewSegmentLoop g fuel current above = .ok segment) :
    forall blk, blk ∈ segment -> blk ∈ above ∨ exists hash : String, g.sideBlocks[hash]? = some blk := by
  induction fuel generalizing current above with
  | zero => cases hrun
  | succ fuel ih =>
      unfold collectNewSegmentLoop at hrun
      by_cases hcanon : g.canonIndex.contains current = true
      · rw [if_pos hcanon] at hrun
        cases hrun
        exact fun blk hmem => Or.inl hmem
      · rw [if_neg hcanon] at hrun
        cases hslot : g.sideBlocks[current]? with
        | none =>
            rw [hslot] at hrun
            cases hrun
            exact fun blk hmem => by cases hmem
        | some side =>
            rw [hslot] at hrun
            intro blk hmem
            rcases ih hrun blk hmem with habove | hside
            · cases List.mem_cons.mp habove with
              | inl heq => exact Or.inr ⟨current, by rw [heq]; exact hslot⟩
              | inr hold => exact Or.inl hold
            · exact Or.inr hside

theorem planReorg_side {P : Platform} {g : ChainState} {newTip : Block} {plan : ReorgPlan}
    (hplan : planReorg P g newTip = .ok plan) :
    forall blk, blk ∈ plan.segment -> exists hash : String, g.sideBlocks[hash]? = some blk := by
  unfold planReorg at hplan
  rcases bind_eq_ok.mp hplan with ⟨segment, hsegment, hplan⟩
  have hside := collectNewSegmentLoop_side (liftFault_eq_ok.mp hsegment)
  cases segment with
  | nil => cases hplan
  | cons first rest =>
      dsimp only at hplan
      cases hcommon : g.canonIndex[first.header.parentHash]? with
      | none =>
          rw [hcommon] at hplan
          cases hplan
      | some commonHeight =>
          rw [hcommon] at hplan
          rcases bind_eq_ok.mp hplan with ⟨ancestorState, _, hplan⟩
          rcases bind_eq_ok.mp hplan with ⟨state, _, hplan⟩
          cases hroot : computeStateRoot P state.balances state.nonces with
          | error _ =>
              rw [hroot] at hplan
              cases hplan
          | ok root =>
              rw [hroot] at hplan
              dsimp only at hplan
              split at hplan
              · cases hplan
              · cases hplan
                intro blk hmem
                cases hside blk hmem with
                | inl hnil => cases hnil
                | inr hfound => exact hfound

theorem known_of_side {g : ChainState} {hash : String} {blk : Block}
    (hslot : g.sideBlocks[hash]? = some blk) : Known g hash := by
  refine Or.inr (ExtTreeMap.mem_iff_isSome_getElem?.mpr ?_)
  rw [hslot]
  rfl

/-- Over a catalogued chain the exchange makes no hash known and forgets none. -/
theorem exchange_catalogued {P : Platform} {g raised : ChainState} {newTip : Block}
    {plan : ReorgPlan} {demoted : List Block} (hcat : Catalogued g)
    (hplan : planReorg P g newTip = .ok plan)
    (hrun : exchangeBranches P g plan = .ok (raised, demoted)) :
    Catalogued raised ∧ raised.blocks ≠ [] ∧ forall h, Known raised h ↔ Known g h := by
  rcases exchangeBranches_shape hrun with ⟨kept, works, hne, hkept, hdemoted, hraised⟩
  have hsegment : forall blk, blk ∈ plan.segment -> Known g blk.hash := by
    intro blk hmem
    rcases planReorg_side hplan blk hmem with ⟨hash, hslot⟩
    rw [hcat.side hash blk hslot]
    exact known_of_side hslot
  have hknown : forall h, Known raised h ↔ Known g h := by
    intro h
    rw [hraised, known_exchanged]
    constructor
    · rintro (hold | hlow | hhigh)
      · exact hold
      · rcases List.mem_map.mp hlow with ⟨blk, hmem, rfl⟩
        exact hcat.blocks blk (hdemoted hmem)
      · rcases List.mem_map.mp hhigh with ⟨blk, hmem, rfl⟩
        exact hsegment blk hmem
    · exact Or.inl
  refine ⟨⟨?_, ?_⟩, ?_, hknown⟩
  · intro blk hmem
    rw [hknown]
    rw [hraised] at hmem
    cases List.mem_append.mp hmem with
    | inl hlow => exact hcat.blocks blk (hkept hlow)
    | inr hhigh => exact hsegment blk hhigh
  · intro hash blk hslot
    rw [hraised] at hslot
    unfold promotedChain at hslot
    rw [foldl_demoteBlock] at hslot
    have hlowered := getElem?_foldl_erase Block.hash _ _ hslot
    rcases getElem?_foldl_insert Block.hash id _ _ hlowered with ⟨b, _, hname, hself⟩ | hold
    · rw [← hself]
      exact hname
    · exact hcat.side hash blk hold
  · rw [hraised]
    simp [promotedChain, hne]

theorem tryReorg_orphans {P : Platform} {host host' : Host} {g g' : ChainState}
    {newTip : Block} {recovery : Option ReorgRecovery}
    (hrun : tryReorg P host g newTip = .ok (recovery, g', host')) :
    g'.orphanPool = g.orphanPool ∧ g'.orphanByHash = g.orphanByHash := by
  cases tryReorg_cases hrun with
  | aborted _ => exact ⟨rfl, rfl⟩
  | emptyChain _ _ => exact ⟨rfl, rfl⟩
  | writeFailed _ => exact ⟨rfl, rfl⟩
  | exchanged _ hexchange _ _ _ =>
      rcases exchangeBranches_shape hexchange with ⟨kept, works, _, _, _, rfl⟩
      simp [reorganisedChain, promotedChain, foldl_demoteBlock]

/-!
# One step
-/

section Steps

variable {P : Platform} {host : Host} {g : ChainState} {blk : Block}
  {sourcePeer : Option String} {step : Step}

theorem addOrphan_known_iff (now : UInt64) (g : ChainState) (blk : Block) (peer : String)
    {h : String} : Known (addOrphan now g blk peer) h ↔ Known g h := by
  rcases addOrphan_frame now g blk peer with ⟨pool, byHash, hframe⟩
  rw [hframe]
  exact Iff.rfl

/-- A step forgets no hash, and knows the one it promotes. -/
theorem acceptBlock_known (hrun : acceptBlock P host g blk sourcePeer = .ok step) :
    (forall h, Known g h -> Known step.chain h) ∧
      forall key, step.promote = some key -> Known step.chain key := by
  cases acceptBlock_transition hrun with
  | rejected _ => exact ⟨fun h hknown => hknown, fun key hkey => by cases hkey⟩
  | genesis _ _ _ _ _ =>
      refine ⟨fun h hknown => ?_, fun key hkey => by cases hkey⟩
      exact (known_pushCanonical _ blk _).mpr (Or.inl hknown)
  | orphaned _ _ _ =>
      refine ⟨fun h hknown => ?_, fun key hkey => by cases hkey⟩
      exact (addOrphan_known_iff _ _ _ _).mpr hknown
  | extended _ _ _ _ =>
      refine ⟨fun h hknown => ?_, fun key hkey => ?_⟩
      · exact (known_extendedChain g blk _ _ _).mpr (Or.inl hknown)
      · exact (known_extendedChain g blk _ _ _).mpr (Or.inr (Option.some.inj hkey))
  | recorded _ _ _ _ =>
      refine ⟨fun h hknown => ?_, fun key hkey => ?_⟩
      · exact (known_sideRecorded g blk _).mpr (Or.inl hknown)
      · exact (known_sideRecorded g blk _).mpr (Or.inr (Option.some.inj hkey))
  | aborted _ _ _ _ _ =>
      refine ⟨fun h hknown => ?_, fun key hkey => ?_⟩
      · exact (known_sideRecorded g blk _).mpr (Or.inl hknown)
      · exact (known_sideRecorded g blk _).mpr (Or.inr (Option.some.inj hkey))
  | @reorganised candidateCw _ plan raised demoted _ _ _ _ _ _ _ hexchange _ _ _ =>
      rcases exchangeBranches_shape hexchange with ⟨kept, works, _, _, _, hraised⟩
      have hkept : forall h, Known (sideRecorded g blk candidateCw) h -> Known raised h := by
        intro h hknown
        rw [hraised]
        exact (known_exchanged _ kept demoted plan.segment works).mpr (Or.inl hknown)
      refine ⟨fun h hknown => ?_, fun key hkey => ?_⟩
      · exact hkept h ((known_sideRecorded g blk _).mpr (Or.inl hknown))
      · exact hkept key ((known_sideRecorded g blk _).mpr (Or.inr (Option.some.inj hkey)))

/-- Above genesis a step makes known exactly the hash it promotes. -/
theorem acceptBlock_catalogued (hcat : Catalogued g) (hne : g.blocks ≠ [])
    (hrun : acceptBlock P host g blk sourcePeer = .ok step) :
    Catalogued step.chain ∧ step.chain.blocks ≠ [] ∧
      forall h, Known step.chain h ↔ Known g h ∨ step.promote = some h := by
  have hrecorded : forall candidateCw, Catalogued (sideRecorded g blk candidateCw) := by
    intro candidateCw
    have hwritten : Catalogued
        { g with db := g.db.applyBatch [.insert (.block blk.hash) (.block blk)] } :=
      hcat.congr rfl rfl rfl
    exact hwritten.recordSideBlock blk candidateCw
  cases acceptBlock_transition hrun with
  | rejected _ => exact ⟨hcat, hne, fun h => by simp [rejectStep]⟩
  | genesis _ _ hempty _ _ => exact absurd hempty hne
  | orphaned _ _ _ =>
      rcases addOrphan_frame host.now g blk (sourcePeer.getD "anon") with ⟨pool, byHash, hframe⟩
      refine ⟨?_, ?_, fun h => ?_⟩
      · rw [hframe]
        exact hcat.congr rfl rfl rfl
      · rw [hframe]
        exact hne
      · dsimp only
        rw [addOrphan_known_iff]
        simp
  | extended _ _ _ _ =>
      have hpushed := hcat.pushCanonical blk 0
      refine ⟨hpushed.congr rfl rfl rfl, ?_, fun h => ?_⟩
      · dsimp only
        simp
      · dsimp only
        rw [Option.some.injEq]
        exact known_extendedChain g blk _ _ _
  | recorded _ _ _ _ =>
      refine ⟨hrecorded _, hne, fun h => ?_⟩
      dsimp only
      rw [Option.some.injEq]
      exact known_sideRecorded g blk _
  | aborted _ _ _ _ _ =>
      refine ⟨hrecorded _, hne, fun h => ?_⟩
      dsimp only
      rw [Option.some.injEq]
      exact known_sideRecorded g blk _
  | reorganised _ _ _ hplan hexchange _ _ _ =>
      rcases exchange_catalogued (hrecorded _) hplan hexchange with ⟨hraised, hkept, hsame⟩
      refine ⟨hraised.congr rfl rfl rfl, hkept, fun h => ?_⟩
      dsimp only
      rw [Option.some.injEq]
      exact (hsame h).trans (known_sideRecorded g blk _)

/-- A step changes the pool only when it stores the block as an orphan. -/
theorem acceptBlock_pool (hrun : acceptBlock P host g blk sourcePeer = .ok step) :
    (step.chain.orphanPool = g.orphanPool ∧ step.chain.orphanByHash = g.orphanByHash ∧
      (Offered P g blk -> ParentKnown g blk)) ∨
    (Offered P g blk ∧ ¬ParentKnown g blk ∧ step.promote = none ∧
      step.chain = addOrphan host.now g blk (sourcePeer.getD "anon")) := by
  cases acceptBlock_cases hrun with
  | malformed h =>
      refine Or.inl ⟨rfl, rfl, fun hoffered => ?_⟩
      rw [hoffered.structure_ok] at h
      cases h
  | duplicate h => exact Or.inl ⟨rfl, rfl, fun hoffered => absurd h hoffered.fresh⟩
  | genesis _ _ hnumber =>
      have hframe := acceptGenesis_cases host g blk
      generalize acceptGenesis host g blk = step at hframe
      cases hframe with
      | rejected => exact Or.inl ⟨rfl, rfl, fun hoffered => absurd hnumber hoffered.number_ne⟩
      | applied _ _ _ =>
          exact Or.inl ⟨rfl, rfl, fun hoffered => absurd hnumber hoffered.number_ne⟩
  | orphaned hoffered hunknown => exact Or.inr ⟨hoffered, hunknown, rfl, rfl⟩
  | invalid _ hparent _ => exact Or.inl ⟨rfl, rfl, fun _ => hparent⟩
  | @extended candidateCw state hvetted _ =>
      have hframe := extendCanonical_cases P host.tick g blk candidateCw state
      generalize extendCanonical P host.tick g blk candidateCw state = step at hframe
      cases hframe with
      | writeFailed _ => exact Or.inl ⟨rfl, rfl, fun _ => hvetted.parent⟩
      | extended _ _ => exact Or.inl ⟨rfl, rfl, fun _ => hvetted.parent⟩
  | side hvetted _ hstep =>
      cases storeSideChain_cases hstep with
      | writeFailed _ => exact Or.inl ⟨rfl, rfl, fun _ => hvetted.parent⟩
      | stored _ _ => exact Or.inl ⟨rfl, rfl, fun _ => hvetted.parent⟩
      | notReorganised _ _ hreorg =>
          have hpool := tryReorg_orphans hreorg
          exact Or.inl ⟨hpool.1, hpool.2, fun _ => hvetted.parent⟩
      | reorganised _ _ hreorg =>
          have hpool := tryReorg_orphans hreorg
          exact Or.inl ⟨hpool.1, hpool.2, fun _ => hvetted.parent⟩

end Steps

end VisionCore
