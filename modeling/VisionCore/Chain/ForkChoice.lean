import VisionCore.Chain.Replay
import VisionCore.Foundation.ForkChoice

/-!
# Fork choice

On a run without write failures the canonical path is heaviest among the known
paths, it moves only to strictly heavier ones, and no reorg aborts: the second
validation that a reorg makes repeats what acceptance has already checked.
-/

namespace VisionCore

open Std
open Foundation

/-!
# Reorgs succeed
-/

section Reorg

variable {P : Platform} {D : Block -> Prop} {host : Host} {g : ChainState} {blk : Block}
  {rest : List Block} {state : TxExecutionState}

/-- The plan of a reorg to a known side block that replays. -/
theorem planReorg_of_path (hg : Represents P D g) (hl : KnownPath g (blk :: rest))
    (hstate : lineState P (blk :: rest) = .ok state) (hcanon : blk.hash ∉ g.canonIndex)
    (hnumber : blk.header.number ≠ 0) : exists plan, planReorg P g blk = .ok plan := by
  rcases hg.branchesAt hl with ⟨side, common, hbranch⟩
  rcases reorg_replay hg hl hbranch hstate with ⟨ancestorState, hancestor, hbranchState⟩
  rcases lineState_cons.mp hstate with ⟨_, _, hlast⟩
  rcases replayBlockChecked_ok hlast with ⟨_, _, _, hroot⟩
  have hsegment := hg.collectNewSegment_eq hl hbranch
  cases hside : side.reverse with
  | nil =>
      have hpath := hbranch.path_eq
      rw [List.reverse_eq_nil_iff.mp hside, List.nil_append,
        hg.take_reverse hbranch.common_mem] at hpath
      have hmem := hg.mem_canonIndex_iff.mpr ⟨common, hbranch.common_mem, rfl⟩
      rw [← (List.cons.inj hpath).1] at hmem
      exact absurd hmem hcanon
  | cons first newer =>
      have hfirst : side.reverse.head? = some first := by
        rw [hside]
        rfl
      have hcommon := hg.parent_of_side hl hbranch hfirst
      rw [hside] at hsegment hbranchState
      refine ⟨{ commonHash := common.hash
                commonHeight := common.header.number
                segment := first :: newer
                state := state
                stateRoot := blk.header.stateRoot },
        bind_eq_ok.mpr ⟨_, liftFault_eq_ok.mpr hsegment, ?_⟩⟩
      dsimp only
      rw [hcommon, hg.canonIndex_of_mem hbranch.common_mem]
      refine bind_eq_ok.mpr ⟨_, mapErr_eq_ok.mpr hancestor, ?_⟩
      refine bind_eq_ok.mpr ⟨_, mapErr_eq_ok.mpr hbranchState, ?_⟩
      rw [hroot hnumber]
      dsimp only
      rw [if_neg (not_not.mpr rfl)]

theorem tryReorg_ne_none (hg : Represents P D g) (hl : KnownPath g (blk :: rest))
    (hstate : lineState P (blk :: rest) = .ok state) (hcanon : blk.hash ∉ g.canonIndex)
    (hnumber : blk.header.number ≠ 0) (hwrites : forall i, host.writeOk i = true)
    {g' : ChainState} {host' : Host} :
    tryReorg P host g blk ≠ .ok (none, g', host') := by
  intro hrun
  cases tryReorg_cases hrun with
  | aborted habort =>
      rcases planReorg_of_path hg hl hstate hcanon hnumber with ⟨plan, hplan⟩
      rw [hplan] at habort
      cases habort
  | emptyChain hexchange hempty =>
      have hexchanged := exchangeBranches_ok hexchange
      rcases hexchanged.works with ⟨_, _, _, _, rfl⟩
      have hheight := hexchanged.height_lt
      rw [exchangedChain_blocks] at hempty
      have hlength := congrArg List.length hempty
      rw [List.length_append, List.length_take, List.length_nil] at hlength
      omega
  | writeFailed hfail =>
      rw [hwrites] at hfail
      cases hfail

end Reorg

/-!
# The work of the tip
-/

section Tip

variable {P : Platform} {D : Block -> Prop} {host : Host} {g : ChainState} {blk parent : Block}
  {rest : List Block} {candidateCw : Nat} {state : TxExecutionState}

theorem ExactWork.workOf_tip (hg : Represents P D g) (hw : ExactWork g) :
    g.workOf g.tipHash = lineWork g.blocks.reverse := by
  cases hblocks : g.blocks.reverse with
  | nil => exact absurd hblocks hg.chain.ne_nil
  | cons tip below =>
      have hlast : g.blocks.getLast? = some tip := by
        rw [← List.head?_reverse, hblocks, List.head?_cons]
      have htip : g.tipHash = tip.hash := by
        rw [ChainState.tipHash, hlast]
        rfl
      rw [htip]
      exact hw.workOf (hblocks ▸ hg.chain)

/-- Stage 4 admits no block without work. -/
theorem Admitted.blockWork_pos (h : Admitted P D host g blk parent rest candidateCw state) :
    0 < blockWork blk := by
  rcases validateAgainstParent_ok h.vetted.valid with ⟨_, _, hvalid⟩
  have hdifficulty := hvalid.difficulty
  unfold checkDifficulty at hdifficulty
  dsimp only at hdifficulty
  split at hdifficulty
  · cases hdifficulty
  · rename_i hfloor
    have hfloorPos : 0 < difficultyFloor.toNat := by decide
    rw [UInt64.lt_iff_toNat_lt] at hfloor
    unfold blockWork
    omega

theorem Admitted.candidateCw_lineWork (hg : Represents P D g) (hw : ExactWork g)
    (h : Admitted P D host g blk parent rest candidateCw state) :
    candidateCw = lineWork (blk :: parent :: rest) := by
  rw [h.candidateCw_eq hg hw.bounded, hw.workOf h.joins.path, lineWork_cons blk]
  omega

end Tip

/-!
# The invariant
-/

/-- The canonical path is heaviest among the known paths. -/
def HeaviestTip (g : ChainState) : Prop :=
  Heaviest chainLineage blockWork (resolveBlock g) g.blocks.reverse

theorem HeaviestTip.congr {g g' : ChainState} (h : HeaviestTip g)
    (hknown : resolveBlock g' = resolveBlock g) (hblocks : g'.blocks = g.blocks) :
    HeaviestTip g' := by
  unfold HeaviestTip
  rw [hknown, hblocks]
  exact h

/-- What holds along a call from `start` with the log `events` before it. -/
structure Selected (P : Platform) (start : ChainState) (events : List ReorgEvent) (host : Host)
    (g : ChainState) : Prop where
  writes : forall i, host.writeOk i = true
  exact : ExactWork g
  replays : Replays P g
  heaviest : HeaviestTip g
  moved : g.blocks = start.blocks ∨ lineWork start.blocks.reverse < lineWork g.blocks.reverse
  completed : forall reason, ReorgEvent.aborted reason ∈ host.reorgLog ->
    ReorgEvent.aborted reason ∈ events

section Steps

variable {P : Platform} {D : Block -> Prop} {start : ChainState} {events : List ReorgEvent}
  {host : Host} {g g' : ChainState} {blk parent : Block} {rest : List Block}
  {candidateCw : Nat} {state : TxExecutionState} {sourcePeer : Option String} {step : Step}

/-- A new block that outweighs the tip and becomes the tip. -/
theorem heaviestTip_put_lt (hg : Represents P D g) (hw : ExactWork g) (hh : HeaviestTip g)
    (h : Admitted P D host g blk parent rest candidateCw state)
    (hknown : resolveBlock g' = Store.put chainLineage (resolveBlock g) blk)
    (hblocks : g'.blocks.reverse = blk :: parent :: rest)
    (hlt : lineWork g.blocks.reverse < candidateCw) :
    HeaviestTip g' ∧ lineWork g.blocks.reverse < lineWork g'.blocks.reverse := by
  rw [h.candidateCw_lineWork hg hw] at hlt
  have hparent : resolveBlock g (chainLineage.parent blk) = some parent := by
    rw [chainLineage_parent, h.joins.parent_eq]
    exact h.joins.path.lookup List.mem_cons_self
  have hput := hh.put hg.rooted h.joins.unknown hparent h.joins.path
  rw [chooseTip_of_lt hlt] at hput
  unfold HeaviestTip
  rw [hknown, hblocks]
  exact ⟨hput, hlt⟩

/-- A new block that does not outweigh the tip, which stays. -/
theorem heaviestTip_put_le (hg : Represents P D g) (hw : ExactWork g) (hh : HeaviestTip g)
    (h : Admitted P D host g blk parent rest candidateCw state)
    (hknown : resolveBlock g' = Store.put chainLineage (resolveBlock g) blk)
    (hblocks : g'.blocks = g.blocks) (hle : candidateCw ≤ lineWork g.blocks.reverse) :
    HeaviestTip g' := by
  rw [h.candidateCw_lineWork hg hw] at hle
  have hparent : resolveBlock g (chainLineage.parent blk) = some parent := by
    rw [chainLineage_parent, h.joins.parent_eq]
    exact h.joins.path.lookup List.mem_cons_self
  have hput := hh.put hg.rooted h.joins.unknown hparent h.joins.path
  rw [chooseTip_of_le hle] at hput
  unfold HeaviestTip
  rw [hknown, hblocks]
  exact hput

theorem Selected.follows {host' : Host} {appended : List ReorgEvent}
    (h : Selected P start events host g) (hfollows : host.Follows host' appended)
    (happended : forall reason, ReorgEvent.aborted reason ∉ appended) :
    (forall i, host'.writeOk i = true) ∧
      forall reason, ReorgEvent.aborted reason ∈ host'.reorgLog ->
        ReorgEvent.aborted reason ∈ events := by
  constructor
  · rw [hfollows.writeOk]
    exact h.writes
  · intro reason hmem
    rw [hfollows.reorgLog, List.mem_append] at hmem
    cases hmem with
    | inl hold => exact h.completed reason hold
    | inr hnew => exact absurd hnew (happended reason)

/-- The path of a block recorded beside the canonical chain is not canonical. -/
theorem Admitted.recorded_not_canonical (hg : Represents P D g)
    (h : Admitted P D host g blk parent rest candidateCw state) :
    blk.hash ∉ (sideRecorded g blk candidateCw).canonIndex :=
  hg.not_mem_canonIndex h.joins.unknown

theorem Effect.selected (hg : Represents P D g) (hs : Selected P start events host g)
    (h : Effect P D host g blk sourcePeer step) :
    Selected P start events step.host step.chain := by
  have hexact := h.exactWork hg hs.exact
  have hreplays := h.replays hg hs.replays
  have htipWork := hs.exact.workOf_tip hg
  have hmove : forall {l : List Block}, lineWork g.blocks.reverse < lineWork l ->
      lineWork start.blocks.reverse < lineWork l := by
    intro l hlt
    cases hs.moved with
    | inl heq => rwa [heq] at hlt
    | inr hold => exact Nat.lt_trans hold hlt
  cases h with
  | rejected hfollows =>
      rcases hs.follows hfollows (by simp) with ⟨hwrites, hcompleted⟩
      exact ⟨hwrites, hexact, hreplays, hs.heaviest, hs.moved, hcompleted⟩
  | orphaned _ _ hfollows =>
      rcases hs.follows hfollows (by simp) with ⟨hwrites, hcompleted⟩
      have hknown := (addOrphan_known host.now g blk (sourcePeer.getD "anon")).1
      have hblocks := (addOrphan_db host.now g blk (sourcePeer.getD "anon")).1
      exact ⟨hwrites, hexact, hreplays, hs.heaviest.congr hknown hblocks, by
        dsimp only
        rw [hblocks]
        exact hs.moved, hcompleted⟩
  | @extended _ _ candidateCw _ _ _ hadmitted _ htip _ hfollows =>
      rcases hs.follows hfollows (by simp) with ⟨hwrites, hcompleted⟩
      have hlt : lineWork g.blocks.reverse < candidateCw := by
        have hpos := hadmitted.blockWork_pos
        rw [hadmitted.candidateCw_lineWork hg hs.exact, htip, lineWork_cons blk]
        omega
      rcases heaviestTip_put_lt hg hs.exact hs.heaviest hadmitted
          (hadmitted.extended_known hg htip _) (by simp [htip]) hlt with ⟨hheaviest, hheavier⟩
      exact ⟨hwrites, hexact, hreplays, hheaviest, Or.inr (hmove hheavier), hcompleted⟩
  | recorded hadmitted _ hdecided hfollows =>
      rcases hdecided with ⟨hle, rfl⟩ | hreorg
      · rcases hs.follows hfollows (by simp) with ⟨hwrites, hcompleted⟩
        rw [htipWork] at hle
        have hheaviest := heaviestTip_put_le hg hs.exact hs.heaviest hadmitted
          (hadmitted.recorded_known hg) rfl hle
        exact ⟨hwrites, hexact, hreplays, hheaviest, hs.moved, hcompleted⟩
      · have hwrites : forall i, host.tick.wrote.writeOk i = true := hs.writes
        exact absurd hreorg (tryReorg_ne_none (hg.recorded hadmitted.joins _)
          (hg.recorded_path hadmitted.joins _) (hadmitted.lineState_eq hg hs.replays)
          (hadmitted.recorded_not_canonical hg) hadmitted.joins.number_ne hwrites)
  | moved hmoves hfollows =>
      rcases hs.follows hfollows (by simp) with ⟨hwrites, hcompleted⟩
      have hadmitted := hmoves.admitted
      have hlt := hmoves.heavier
      rw [htipWork] at hlt
      rcases heaviestTip_put_lt hg hs.exact hs.heaviest hadmitted
          (hmoves.known.trans (hadmitted.recorded_known hg))
          (by rw [hmoves.blocks, List.reverse_reverse]) hlt with ⟨hheaviest, hheavier⟩
      exact ⟨hwrites, hexact, hreplays, hheaviest, Or.inr (hmove hheavier), hcompleted⟩

end Steps

theorem stepInvariant_selected (P : Platform) (D : Block -> Prop) (start : ChainState)
    (events : List ReorgEvent) : StepInvariant P D fun host g => Selected P start events host g where
  effect := fun hg _ heffect hpre => heffect.selected hg hpre
  take := fun _ hpre => ⟨hpre.writes, hpre.exact.congr rfl rfl,
    hpre.replays.congr rfl rfl rfl rfl, hpre.heaviest.congr rfl rfl, hpre.moved, hpre.completed⟩
  forget := fun _ hpre => ⟨hpre.writes, hpre.exact.congr rfl rfl,
    hpre.replays.congr rfl rfl rfl rfl, hpre.heaviest.congr rfl rfl, hpre.moved, hpre.completed⟩

/-!
# The tip of every run
-/

/-- What holds between two calls of a run without write failures. -/
structure Settled (P : Platform) (D : Block -> Prop) (g : ChainState) : Prop where
  represents : Represents P D g
  exact : ExactWork g
  replays : Replays P g
  heaviest : HeaviestTip g

section Runs

variable {P : Platform} {D : Block -> Prop} {host : Host} {g g' : ChainState} {blk : Block}
  {sourcePeer : Option String} {out : Applied} {calls : List Call}

theorem Settled.applyBlock (h : Settled P D g) (hnumbered : NumberedFrom P D) (hD : D blk)
    (hwrites : forall i, host.writeOk i = true)
    (hrun : applyBlock P host g blk sourcePeer = .ok out) :
    Settled P D out.chain ∧ Selected P g host.reorgLog out.host out.chain := by
  have hstart : Selected P g host.reorgLog host g :=
    ⟨hwrites, h.exact, h.replays, h.heaviest, Or.inl rfl, fun _ hmem => hmem⟩
  have hpost := (stepInvariant_selected P D g host.reorgLog).applyBlock hnumbered h.represents
    hD hstart hrun
  exact ⟨⟨hpost.1, hpost.2.exact, hpost.2.replays, hpost.2.heaviest⟩, hpost.2⟩

theorem Settled.applyAll (h : Settled P D g) (hnumbered : NumberedFrom P D)
    (hcalls : forall call, call ∈ calls -> D call.blk)
    (hwrites : forall call, call ∈ calls -> forall i, call.host.writeOk i = true)
    (hrun : applyAll P g calls = .ok g') : Settled P D g' := by
  refine foldlM_induction (I := Settled P D) ?_ h hrun
  intro g₁ call g₂ hcall hpre hstep
  rcases applyCall_ok hstep with ⟨out, hout, rfl⟩
  exact (hpre.applyBlock hnumbered (hcalls call hcall) (hwrites call hcall) hout).1

theorem GenesisApplied.settled (h : GenesisApplied P g) : Settled P D g where
  represents := h.represents
  exact := h.exactWork
  replays := h.replays
  heaviest := by
    refine ⟨h.represents (D := D).chain, ?_⟩
    intro l hl
    rcases h.eq with ⟨db, rfl⟩
    have honly := genesisOnly_genesisApplied (g := ChainState.empty db) rfl rfl rfl rfl rfl
    rw [honly.knownPath hl, honly.blocks]
    exact Nat.le_refl _

/-- The recorded work of the tip is the greatest among the known blocks. -/
theorem Settled.workOf_le (h : Settled P D g) {hash : String} (hknown : resolveBlock g hash = some blk) :
    g.workOf hash ≤ g.workOf g.tipHash := by
  rcases h.represents.rooted.path hknown with ⟨ancestors, hpath⟩
  have hname : blk.hash = hash := h.represents.rooted.named hknown
  rw [← hname, h.exact.workOf hpath, h.exact.workOf_tip h.represents]
  exact h.heaviest.le hpath

/-- Fork choice over every run without write failures: after a call the tip has
the greatest work of all known blocks, the call has moved it to a strictly
heavier block if at all, and none of the call's reorgs has aborted. -/
theorem forkChoice_of_run (hnumbered : NumberedFrom P D) (hgenesis : GenesisApplied P g)
    (hcalls : forall call, call ∈ calls -> D call.blk)
    (hwrites : forall call, call ∈ calls -> forall i, call.host.writeOk i = true)
    (hrun : applyAll P g calls = .ok g') (hD : D blk) (hwrite : forall i, host.writeOk i = true)
    (hcall : VisionCore.applyBlock P host g' blk sourcePeer = .ok out) :
    (forall hash known, resolveBlock out.chain hash = some known ->
      out.chain.workOf hash ≤ out.chain.workOf out.chain.tipHash) ∧
    (out.chain.tipHash ≠ g'.tipHash ->
      g'.workOf g'.tipHash < out.chain.workOf out.chain.tipHash) ∧
    forall reason, ReorgEvent.aborted reason ∈ out.host.reorgLog ->
      ReorgEvent.aborted reason ∈ host.reorgLog := by
  have hreached := (hgenesis.settled (D := D)).applyAll hnumbered hcalls hwrites hrun
  rcases hreached.applyBlock hnumbered hD hwrite hcall with ⟨hsettled, hselected⟩
  refine ⟨fun _ _ hknown => hsettled.workOf_le hknown, ?_, hselected.completed⟩
  intro hne
  rw [hreached.exact.workOf_tip hreached.represents,
    hsettled.exact.workOf_tip hsettled.represents]
  exact hselected.moved.resolve_left fun heq => hne (ChainState.tipHash_congr heq)

end Runs

/-- The rival branch overtakes once its second block arrives. -/
theorem forkChoice_sampleBlocks :
    exists g' out, applyAll samplePlatform sampleGenesis
        ([firstBlock, rivalFirst].map sampleCall) = .ok g' ∧
      applyBlock samplePlatform sampleHost g' rivalSecond none = .ok out ∧
      out.chain.tipHash ≠ g'.tipHash ∧
      g'.workOf g'.tipHash < out.chain.workOf out.chain.tipHash := by
  have hcalls : [firstBlock, rivalFirst] ⊆ sampleBlocks := by simp [sampleBlocks]
  have hlast : rivalSecond ∈ sampleBlocks := by simp [sampleBlocks]
  have hruns : (applyAll samplePlatform sampleGenesis
      ([firstBlock, rivalFirst].map sampleCall) >>= fun g' =>
        (applyBlock samplePlatform sampleHost g' rivalSecond none).map fun out =>
          (g', out)).toOption.map (fun pair => decide (pair.2.chain.tipHash ≠ pair.1.tipHash)) =
        some true := by
    decide +kernel
  rcases toOption_map_eq_some hruns with ⟨⟨g', out⟩, hpair, hmoved⟩
  rcases bind_eq_ok.mp hpair with ⟨reached, hrun, hmap⟩
  rcases map_eq_ok.mp hmap with ⟨applied, hcall, heq⟩
  cases heq
  have hchoice := forkChoice_of_run sampleBlocks_numbered sampleGenesis_applied
    (sampleCalls_delivered hcalls) (by simp [sampleCall, sampleHost]) hrun hlast
    (by simp [sampleHost]) hcall
  exact ⟨g', out, hrun, hcall, of_decide_eq_true hmoved,
    hchoice.2.1 (of_decide_eq_true hmoved)⟩

end VisionCore
