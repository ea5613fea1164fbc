import VisionCore.Chain.Faults
import VisionCore.Chain.Promotion
import VisionCore.Chain.Replay

/-!
# Block acceptance returns

On a represented chain whose works are bounded no stage aborts: lookups by height
hit, slices are in range, sums fit, and every walk ends.  What remains is the
shift of the block subsidy, which is in range as long as the subsidy of the
delivered heights is defined.
-/

namespace VisionCore

open Std
open Foundation

/-!
# Computations that do not abort
-/

def NoFault {error α : Type} (x : Except (Stop error) α) : Prop :=
  forall f, x ≠ .error (.fault f)

namespace NoFault

variable {error error' α β : Type}

theorem iff_faultsIn {x : Except (Stop error) α} :
    NoFault x ↔ FaultsIn (fun _ => False) x := by
  constructor
  · intro h stop hstop f hf
    exact h f (hf ▸ hstop)
  · intro h f hf
    exact h _ hf f rfl

theorem ok (a : α) : NoFault (.ok a : Except (Stop error) α) :=
  iff_faultsIn.mpr (ErrorsIn.ok a)

theorem err (e : error) : NoFault (.error (.err e) : Except (Stop error) α) :=
  iff_faultsIn.mpr (FaultsIn.err e)

theorem bind {x : Except (Stop error) α} {k : α -> Except (Stop error) β} (hx : NoFault x)
    (hk : forall a, x = .ok a -> NoFault (k a)) : NoFault (x >>= k) :=
  iff_faultsIn.mpr (ErrorsIn.bind (iff_faultsIn.mp hx) fun a ha => iff_faultsIn.mp (hk a ha))

theorem mapErr {f : error -> error'} {x : Except (Stop error) α} (hx : NoFault x) :
    NoFault (mapErr f x) :=
  iff_faultsIn.mpr (FaultsIn.mapErr (iff_faultsIn.mp hx))

theorem liftFault {x : Except Fault α} {a : α} (hx : x = .ok a) :
    NoFault (liftFault x : Except (Stop error) α) := by
  rw [hx]
  exact ok a

theorem foldlM {k : β -> α -> Except (Stop error) β} {xs : List α} {b : β}
    (hk : forall x, x ∈ xs -> forall b, NoFault (k b x)) : NoFault (xs.foldlM k b) :=
  iff_faultsIn.mpr (ErrorsIn.foldlM fun x hx b => iff_faultsIn.mp (hk x hx b))

end NoFault

/-!
# Execution
-/

/-- The subsidy of a block's height is defined. -/
def Rewarded (P : Platform) (blk : Block) : Prop :=
  exists reward, blockReward P blk.header.number = .ok reward

/-- The subsidy is defined at the height of every sealed delivered block. -/
def RewardsDefined (P : Platform) (D : Block -> Prop) : Prop :=
  forall blk, D blk -> Sealed P blk -> Rewarded P blk

theorem genesisBlock_rewarded (P : Platform) : Rewarded P genesisBlock :=
  ⟨_, shrU128_ok P (by decide)⟩

theorem Candidate.rewarded {P : Platform} {D : Block -> Prop} {blk : Block}
    (hrewards : RewardsDefined P D) (h : Candidate P D blk) : Rewarded P blk := by
  rcases h with rfl | ⟨hD, hsealed⟩
  · exact genesisBlock_rewarded P
  · exact hrewards blk hD hsealed

section Execution

variable {P : Platform} {blk : Block} {state : TxExecutionState}

theorem Rewarded.noAbort (hreward : Rewarded P blk) :
    ErrorsIn (fun _ => False) (blockReward P blk.header.number) := by
  rcases hreward with ⟨reward, hreward⟩
  rw [hreward]
  exact ErrorsIn.ok reward

theorem creditMiner_noFault (hreward : Rewarded P blk) :
    NoFault (creditMiner P state blk) :=
  NoFault.iff_faultsIn.mpr (creditMiner_faultsIn hreward.noAbort)

theorem replayBlock_noFault (hreward : Rewarded P blk) : NoFault (replayBlock P state blk) :=
  NoFault.iff_faultsIn.mpr (replayBlock_faultsIn hreward.noAbort)

theorem replayBlockChecked_noFault (hreward : Rewarded P blk) :
    NoFault (replayBlockChecked P state blk) :=
  NoFault.iff_faultsIn.mpr (replayBlockChecked_faultsIn hreward.noAbort)

end Execution

/-!
# Validation
-/

section Validation

variable {P : Platform} {D : Block -> Prop} {g : ChainState} {blk parent : Block}
  {rest : List Block}

/-- Stage 1c has found the coinbase that stage 6a reads. -/
theorem checkCoinbaseHeight_noFault (hstructure : checkStructure P blk = .ok ()) :
    NoFault (checkCoinbaseHeight blk) := by
  unfold checkCoinbaseHeight
  split
  · rename_i hnumber
    have hpresence : checkCoinbasePresence blk = .ok () := by
      unfold checkStructure at hstructure
      split at hstructure
      · cases hstructure
      · split at hstructure
        · cases hstructure
        · exact hstructure
    unfold checkCoinbasePresence at hpresence
    rw [if_pos hnumber] at hpresence
    cases htxs : blk.txs with
    | nil =>
        rw [htxs] at hpresence
        cases hpresence
    | cons cb txs =>
        dsimp only [List.getElem?_cons_zero]
        split
        · exact NoFault.err _
        · split
          · exact NoFault.err _
          · exact NoFault.ok _
  · exact NoFault.ok _

theorem Represents.rewarded (hg : Represents P D g) (hrewards : RewardsDefined P D) {h : String}
    (hknown : resolveBlock g h = some blk) : Rewarded P blk :=
  (hg.candidate hknown).rewarded hrewards

theorem reconstructCanonicalStateAtHeight_noFault (hg : Represents P D g)
    (hrewards : RewardsDefined P D) (hmem : blk ∈ g.blocks) :
    NoFault (reconstructCanonicalStateAtHeight P g blk.header.number) := by
  rw [reconstructCanonicalStateAtHeight_eq hg hmem]
  refine NoFault.foldlM ?_
  intro x hx state
  exact replayBlock_noFault (hg.rewarded hrewards (hg.resolve_of_mem (List.mem_of_mem_take hx)))

theorem reconstructParentStateForSideChain_noFault (hg : Represents P D g)
    (hrewards : RewardsDefined P D) (hl : KnownPath g (parent :: rest)) :
    NoFault (reconstructParentStateForSideChain P g parent.hash) := by
  unfold reconstructParentStateForSideChain
  cases hslot : g.canonIndex[parent.hash]? with
  | some height =>
      rcases (hg.index _ _).mp hslot with ⟨blk, hmem, _, rfl⟩
      exact reconstructCanonicalStateAtHeight_noFault hg hrewards hmem
  | none =>
      rcases hg.branchesAt hl with ⟨side, common, hbranch⟩
      have hsize := Represents.side_length_le hl hbranch
      dsimp only
      rw [sideChainStateLoop_eq hg hl hbranch (by unfold sideWalkFuel; omega)]
      refine NoFault.bind
        (reconstructCanonicalStateAtHeight_noFault hg hrewards hbranch.common_mem) ?_
      intro state _
      refine NoFault.foldlM ?_
      intro x hx state'
      have hxside : x ∈ side := by simpa using hx
      have hknown := hl.lookup (hbranch.path_eq ▸ List.mem_append_left _ hxside)
      exact replayBlock_noFault (hg.rewarded hrewards hknown)

theorem parentStateOf_noFault (hg : Represents P D g) (hrewards : RewardsDefined P D)
    (hl : KnownPath g (parent :: rest)) : NoFault (parentStateOf P g parent.hash) := by
  unfold parentStateOf
  split
  · exact NoFault.ok _
  · exact NoFault.mapErr (reconstructParentStateForSideChain_noFault hg hrewards hl)

theorem validateAgainstParent_noFault (hg : Represents P D g) (hrewards : RewardsDefined P D)
    (hD : D blk) (hstructure : checkStructure P blk = .ok ()) (hparent : ParentKnown g blk)
    {now : UInt64} (hnow : now.toNat < 2 ^ 63) :
    NoFault (validateAgainstParent P now g blk) := by
  rcases hg.parentKnown_iff.mp hparent with ⟨parent, hlookup⟩
  rcases hg.rooted.path hlookup with ⟨rest, hpath⟩
  have hname : blk.header.parentHash = parent.hash := (hg.rooted.named hlookup).symm
  unfold validateAgainstParent
  rw [hlookup]
  dsimp only
  refine NoFault.iff_faultsIn.mpr (validateInContext_faultsIn ?_ ?_ ?_ ?_)
  · rw [addU64_future P hnow]
    exact ErrorsIn.ok _
  · exact NoFault.iff_faultsIn.mp (checkCoinbaseHeight_noFault hstructure)
  · rw [hname]
    exact NoFault.iff_faultsIn.mp (parentStateOf_noFault hg hrewards hpath)
  · -- the proof of work has been verified, so the subsidy of the block is defined
    intro hpow
    exact (hrewards blk hD ⟨hstructure, checkPow_ok hpow⟩).noAbort

end Validation

/-!
# Reorganisation
-/

section Reorg

variable {P : Platform} {D : Block -> Prop} {host : Host} {g : ChainState} {blk : Block}
  {rest : List Block}

theorem reconstructCanonicalStateChecked_noFault (hg : Represents P D g)
    (hrewards : RewardsDefined P D) (hmem : blk ∈ g.blocks) :
    NoFault (reconstructCanonicalStateChecked P g blk.header.number) := by
  rw [reconstructCanonicalStateChecked_eq hg hmem]
  unfold lineState
  refine NoFault.foldlM ?_
  intro x hx state
  rw [List.reverse_reverse] at hx
  exact replayBlockChecked_noFault
    (hg.rewarded hrewards (hg.resolve_of_mem (List.mem_of_mem_take hx)))

theorem planReorg_noFault (hg : Represents P D g) (hrewards : RewardsDefined P D)
    (hl : KnownPath g (blk :: rest)) : NoFault (planReorg P g blk) := by
  rcases hg.branchesAt hl with ⟨side, common, hbranch⟩
  have hsegment := hg.collectNewSegment_eq hl hbranch
  refine NoFault.iff_faultsIn.mpr (planReorg_faultsIn ?_ ?_ ?_)
  · rw [hsegment]
    exact ErrorsIn.ok _
  · intro hash height hslot
    rcases (hg.index _ _).mp hslot with ⟨b, hmem, _, rfl⟩
    exact NoFault.iff_faultsIn.mp (reconstructCanonicalStateChecked_noFault hg hrewards hmem)
  · intro segment hcollected b hb
    rw [hsegment] at hcollected
    cases hcollected
    have hknown := hl.lookup (hbranch.path_eq ▸ List.mem_append_left _ (List.mem_reverse.mp hb))
    exact (hg.rewarded hrewards hknown).noAbort

/-- The work of the ancestor of a known path is found, and sums up with that of
the branch. -/
theorem ancestorWork_total {common : Block} {side : List Block} (hg : Represents P D g)
    (hw : WorkBounded g) (hl : KnownPath g (blk :: rest))
    (hbranch : BranchesAt g (blk :: rest) side common) :
    exists cw works,
      ancestorWork P g common.hash (g.blocks.take (common.header.number.toNat + 1)) = .ok cw ∧
        segmentWork P cw g.cumulativeWork side.reverse = .ok works := by
  have hline := hg.lineWork_lt hl
  have htotal := side_lineWork_le hbranch
  have hancestor : exists cw,
      ancestorWork P g common.hash (g.blocks.take (common.header.number.toNat + 1)) = .ok cw := by
    unfold ancestorWork
    cases g.cumulativeWork[common.hash]? with
    | some cw => exact ⟨cw, rfl⟩
    | none =>
        exact foldlM_addU128_total (by omega)
  rcases hancestor with ⟨cw, hcw⟩
  have hle := ancestorWork_le hg hw hbranch.common_mem hcw
  have hsum : cw + lineWork side.reverse < u128Bound := by omega
  rcases segmentWork_total hsum with ⟨works, hworks⟩
  exact ⟨cw, works, hcw, hworks⟩

theorem exchangeBranches_total (hg : Represents P D g) (hw : WorkBounded g)
    (hl : KnownPath g (blk :: rest)) {plan : ReorgPlan} (hplan : planReorg P g blk = .ok plan) :
    exists raised demoted, exchangeBranches P g plan = .ok (raised, demoted) ∧
      raised.blocks = (blk :: rest).reverse := by
  rcases hg.branchesAt hl with ⟨side, common, hbranch⟩
  rcases hg.planned_eq hl hbranch (planReorg_ok hplan) with ⟨hsegment, hhash, hheight⟩
  rcases hg.addU64_height hbranch.common_mem with ⟨from', hfrom, hfromNat⟩
  rcases ancestorWork_total hg hw hl hbranch with ⟨cw, works, hcw, hworks⟩
  have hlt : common.header.number.toNat < g.blocks.length :=
    (List.getElem?_eq_some_iff.mp (hg.blocks_getElem? hbranch.common_mem)).1
  have hslice : sliceToInclusive g.blocks common.header.number =
      .ok (g.blocks.take (common.header.number.toNat + 1)) :=
    if_pos ⟨Nat.lt_of_le_of_lt hlt hg.length_lt, hlt⟩
  have hlowered : segmentWork P cw
      ({ (g.blocks.drop (common.header.number.toNat + 1)).foldl demoteBlock g with
          blocks := g.blocks.take (common.header.number.toNat + 1) } : ChainState).cumulativeWork
      side.reverse = .ok works := by
    rw [foldl_demoteBlock]
    exact hworks
  rcases segmentWork_promote hlowered with ⟨cw', hfold⟩
  refine ⟨exchangedChain g common.header.number.toNat side.reverse works,
    g.blocks.drop (common.header.number.toNat + 1), ?_, ?_⟩
  · unfold exchangeBranches
    rw [hheight, hhash, hsegment]
    refine bind_eq_ok.mpr ⟨_, hfrom, ?_⟩
    rw [hfromNat]
    refine bind_eq_ok.mpr ⟨_, hslice, ?_⟩
    refine bind_eq_ok.mpr ⟨_, hcw, ?_⟩
    exact bind_eq_ok.mpr ⟨_, hfold, rfl⟩
  · exact Represents.moved_blocks hbranch works

theorem tryReorg_total (hg : Represents P D g) (hw : WorkBounded g)
    (hrewards : RewardsDefined P D) (hl : KnownPath g (blk :: rest)) :
    exists out, tryReorg P host g blk = .ok out := by
  have hplanFault := planReorg_noFault hg hrewards hl
  unfold tryReorg
  cases hplan : planReorg P g blk with
  | error stop =>
      cases stop with
      | fault f => exact absurd hplan (hplanFault f)
      | err reason => exact ⟨_, rfl⟩
  | ok plan =>
      rcases exchangeBranches_total hg hw hl hplan with ⟨raised, demoted, hexchange, hblocks⟩
      have hlast : raised.blocks.getLast? = some blk := by
        rw [hblocks, List.getLast?_reverse]
        rfl
      have hstale : exists firstStale, addU64 P blk.header.number 1 = .ok firstStale := by
        have hnumber := hg.number_eq hl
        have hlength := hg.path_length_lt hl
        have hone : (1 : UInt64).toNat = 1 := rfl
        rw [List.length_cons] at hlength
        exact ⟨_, addU64_ok P (by omega)⟩
      rcases hstale with ⟨firstStale, hstale⟩
      dsimp only
      rw [hexchange]
      unfold persistCanonicalReorg
      simp only [bind, Except.bind, hlast, hstale, pure, Except.pure]
      split
      · exact ⟨_, rfl⟩
      · exact ⟨_, rfl⟩

end Reorg

/-!
# The pipeline
-/

section Pipeline

variable {P : Platform} {D : Block -> Prop} {host : Host} {g : ChainState} {blk : Block}
  {sourcePeer : Option String}

theorem storeSideChain_total (hg : Represents P D g) (hw : WorkBounded g)
    (hrewards : RewardsDefined P D) {parent : Block} {rest : List Block} {candidateCw : Nat}
    {state : TxExecutionState} (h : Admitted P D host g blk parent rest candidateCw state) :
    exists step, storeSideChain P host.tick g blk (g.workOf g.tipHash) candidateCw = .ok step := by
  have hrecorded := hg.recorded h.joins candidateCw
  have hw' : WorkBounded (sideRecorded g blk candidateCw) :=
    workBounded_put hg hw h (h.recorded_known hg) rfl
  have hpath := hg.recorded_path h.joins candidateCw
  unfold storeSideChain storeBlock
  have hwrite := Host.write_cases host.tick g.db [.insert (.block blk.hash) (.block blk)]
  generalize host.tick.write g.db _ = written at hwrite
  cases hwrite with
  | failed _ => exact ⟨_, rfl⟩
  | written _ =>
      have htotal : exists out, tryReorg P host.tick.wrote (sideRecorded g blk candidateCw) blk =
          .ok out := tryReorg_total hrecorded hw' hrewards hpath
      rcases htotal with ⟨⟨recovery, g', host'⟩, hreorg⟩
      dsimp only
      split
      · unfold sideRecorded at hreorg
        rw [hreorg]
        cases recovery with
        | none => exact ⟨_, rfl⟩
        | some recovery => exact ⟨_, rfl⟩
      · exact ⟨_, rfl⟩

theorem candidateWork_total (hg : Represents P D g) (hw : WorkBounded g) (blk : Block) :
    exists candidateCw,
      addU128 P (g.workOf blk.header.parentHash) blk.header.difficulty.toNat = .ok candidateCw := by
  have hblk := blockWork_le blk
  unfold blockWork at hblk
  refine ⟨_, addU128_ok P ?_⟩
  cases hlookup : resolveBlock g blk.header.parentHash with
  | none =>
      have hnone : g.workOf blk.header.parentHash = 0 := by
        have hmem : blk.header.parentHash ∉ g.cumulativeWork := fun h => hw.known h hlookup
        unfold ChainState.workOf
        rw [ExtTreeMap.getElem?_eq_none hmem]
        rfl
      have hbound : u64Max < u128Bound := by decide
      omega
  | some parent =>
      rcases hg.rooted.path hlookup with ⟨rest, hpath⟩
      have hname : parent.hash = blk.header.parentHash := hg.rooted.named hlookup
      have hle := hw.le hpath
      have hlt := hg.lineWork_lt hpath
      rw [hname] at hle
      omega

theorem acceptBlock_total (hg : Represents P D g) (hw : WorkBounded g)
    (hnumbered : NumberedFrom P D) (hrewards : RewardsDefined P D) (hD : D blk) :
    exists step, acceptBlock P host g blk sourcePeer = .ok step := by
  have hnow : host.now.toNat < 2 ^ 63 := host.clock_lt _
  unfold acceptBlock
  cases hstructure : checkStructure P blk with
  | error reason => exact ⟨_, rfl⟩
  | ok _ =>
      dsimp only
      split
      · exact ⟨_, rfl⟩
      · rename_i hseen
        split
        · exact ⟨_, rfl⟩
        · rename_i hnumber
          rcases candidateWork_total hg hw blk with ⟨candidateCw, hwork⟩
          rw [hwork]
          simp only [bind, Except.bind]
          split
          · exact ⟨_, rfl⟩
          · rename_i hknown
            have hparent : ParentKnown g blk := by
              by_contra hunknown
              exact hknown (not_parentKnown_iff.mpr hunknown)
            have hfault := validateAgainstParent_noFault hg hrewards hD hstructure hparent hnow
            cases hvalid : validateAgainstParent P host.now g blk with
            | error stop =>
                cases stop with
                | fault f => exact absurd hvalid (hfault f)
                | err reason => exact ⟨_, rfl⟩
            | ok state =>
                dsimp only
                split
                · exact ⟨_, rfl⟩
                · have hvetted : Vetted P host.now g blk candidateCw state :=
                    { structure_ok := hstructure
                      fresh := hseen
                      number_ne := hnumber
                      parent := hparent
                      work := hwork
                      valid := hvalid }
                  rcases hg.joins hD hnumbered hnow hvetted with ⟨parent, rest, hjoins⟩
                  exact storeSideChain_total hg hw hrewards ⟨hjoins, hvetted⟩

end Pipeline

/-!
# Calls and runs
-/

section Runs

variable {P : Platform} {D : Block -> Prop} {host : Host} {g : ChainState} {blk : Block}
  {sourcePeer : Option String} {calls : List Call}

theorem applyBlock_total (hg : Represents P D g) (hw : WorkBounded g)
    (hnumbered : NumberedFrom P D) (hrewards : RewardsDefined P D) (hD : D blk) :
    exists out, applyBlock P host g blk sourcePeer = .ok out := by
  have hinvariant := (stepInvariant_workBounded P D).promotion hnumbered
  have hoffered : forall b, b ∈ [blk] -> D b := by simpa using hD
  refine hinvariant.applyBlock_total ?_ (And.intro hg (And.intro hoffered hw))
  rintro offered host' g' blk' peer ⟨hg', hoffered, hw'⟩
  exact acceptBlock_total hg' hw' hnumbered hrewards (hoffered blk' List.mem_cons_self)

theorem applyAll_total (hg : Represents P D g) (hw : WorkBounded g)
    (hnumbered : NumberedFrom P D) (hrewards : RewardsDefined P D)
    (hcalls : forall call, call ∈ calls -> D call.blk) :
    exists g', applyAll P g calls = .ok g' := by
  induction calls generalizing g with
  | nil => exact ⟨g, rfl⟩
  | cons call rest ih =>
      have hD := hcalls call List.mem_cons_self
      have hcall : exists out, applyBlock P call.host g call.blk call.sourcePeer = .ok out :=
        applyBlock_total hg hw hnumbered hrewards hD
      rcases hcall with ⟨out, hout⟩
      have hpost := (stepInvariant_workBounded P D).applyBlock hnumbered hg hD hw hout
      rcases ih hpost.1 hpost.2 (fun c hc => hcalls c (List.mem_cons_of_mem _ hc)) with
        ⟨g', hrest⟩
      refine ⟨g', ?_⟩
      unfold applyAll
      rw [List.foldlM_cons]
      exact bind_eq_ok.mpr ⟨out.chain, bind_eq_ok.mpr ⟨out, hout, rfl⟩, hrest⟩

end Runs

end VisionCore
