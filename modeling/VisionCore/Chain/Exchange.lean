import VisionCore.Chain.AcceptCases
import VisionCore.Foundation.OrderedMap

/-!
# The exchange of branches

The state that `exchangeBranches` returns, in closed form: the demoted blocks
leave the canonical index for the side blocks, the segment goes the other way,
and nothing else but the recorded work changes.
-/

namespace VisionCore

open Std
open Foundation

theorem foldl_demoteBlock (g : ChainState) (demoted : List Block) :
    demoted.foldl demoteBlock g =
      { g with
        canonIndex := demoted.foldl (fun m b => m.erase b.hash) g.canonIndex
        sideBlocks := demoted.foldl (fun m b => m.insert b.hash b) g.sideBlocks } := by
  induction demoted generalizing g with
  | nil => rfl
  | cons b rest ih =>
      rw [List.foldl_cons, ih]
      rfl

/-- The works recorded for a segment that starts above work `cw`. -/
def segmentWork (P : Platform) :
    Nat -> ExtTreeMap String Nat -> List Block -> Except Fault (ExtTreeMap String Nat)
  | _, works, [] => .ok works
  | cw, works, blk :: rest => do
      let cw <- addU128 P cw blk.header.difficulty.toNat
      segmentWork P cw (works.insert blk.hash cw) rest

/-- The state of `raised` over `g`, with the recorded works left open. -/
def promotedChain (g : ChainState) (segment : List Block) (works : ExtTreeMap String Nat) :
    ChainState :=
  { g with
    canonIndex := segment.foldl (fun m b => m.insert b.hash b.header.number) g.canonIndex
    sideBlocks := segment.foldl (fun m b => m.erase b.hash) g.sideBlocks
    cumulativeWork := works
    seenBlocks := segment.foldl (fun m b => m.insert b.hash) g.seenBlocks
    blocks := g.blocks ++ segment }

theorem foldlM_promoteBlock {P : Platform} {g g' : ChainState} {cw cw' : Nat}
    {segment : List Block}
    (hrun : segment.foldlM (promoteBlock P) (g, cw) = .ok (g', cw')) :
    exists works, segmentWork P cw g.cumulativeWork segment = .ok works ∧
      g' = promotedChain g segment works := by
  induction segment generalizing g cw with
  | nil =>
      rw [List.foldlM_nil] at hrun
      cases Except.ok.inj hrun
      exact ⟨_, rfl, by simp [promotedChain]⟩
  | cons b rest ih =>
      rw [List.foldlM_cons] at hrun
      rcases bind_eq_ok.mp hrun with ⟨⟨g₁, cw₁⟩, hstep, hrest⟩
      rcases bind_eq_ok.mp hstep with ⟨cw₂, hadd, hpromoted⟩
      cases Except.ok.inj hpromoted
      rcases ih hrest with ⟨works, hworks, hg'⟩
      refine ⟨works, ?_, ?_⟩
      · exact bind_eq_ok.mpr ⟨_, hadd, hworks⟩
      · rw [hg']
        simp [promotedChain]

theorem segmentWork_promote {P : Platform} {g : ChainState} {cw : Nat} {segment : List Block}
    {works : ExtTreeMap String Nat}
    (hworks : segmentWork P cw g.cumulativeWork segment = .ok works) :
    exists cw', segment.foldlM (promoteBlock P) (g, cw) =
      .ok (promotedChain g segment works, cw') := by
  induction segment generalizing g cw with
  | nil =>
      cases hworks
      exact ⟨cw, by simp [promotedChain, pure, Except.pure]⟩
  | cons b rest ih =>
      rcases bind_eq_ok.mp hworks with ⟨cw₁, hadd, hrest⟩
      have hrest' :
          segmentWork P cw₁
            (promotedChain g [b] (g.cumulativeWork.insert b.hash cw₁)).cumulativeWork rest =
            .ok works := hrest
      rcases ih hrest' with ⟨cw', hfold⟩
      refine ⟨cw', ?_⟩
      rw [List.foldlM_cons]
      refine bind_eq_ok.mpr ⟨_, bind_eq_ok.mpr ⟨cw₁, hadd, rfl⟩, ?_⟩
      simpa [promotedChain] using hfold

/-- The exchange over `g`, with the recorded works left open. -/
def exchangedChain (g : ChainState) (height : Nat) (segment : List Block)
    (works : ExtTreeMap String Nat) : ChainState :=
  promotedChain
    { (g.blocks.drop (height + 1)).foldl demoteBlock g with blocks := g.blocks.take (height + 1) }
    segment works

structure Exchanged (P : Platform) (g : ChainState) (plan : ReorgPlan) (raised : ChainState)
    (demoted : List Block) : Prop where
  height_lt : plan.commonHeight.toNat < g.blocks.length
  demoted_eq : demoted = g.blocks.drop (plan.commonHeight.toNat + 1)
  works : exists cw works,
    ancestorWork P g plan.commonHash (g.blocks.take (plan.commonHeight.toNat + 1)) = .ok cw ∧
      segmentWork P cw g.cumulativeWork plan.segment = .ok works ∧
      raised = exchangedChain g plan.commonHeight.toNat plan.segment works

theorem sliceToInclusive_ok {blocks kept : List Block} {height : UInt64}
    (h : sliceToInclusive blocks height = .ok kept) :
    (height.toNat + 1 < u64Bound ∧ height.toNat < blocks.length) ∧
      kept = blocks.take (height.toNat + 1) := by
  unfold sliceToInclusive at h
  split at h
  · cases h
    exact ⟨‹_›, rfl⟩
  · cases h

theorem addU64_one_toNat {P : Platform} {a b : UInt64} {n : Nat}
    (hn : a.toNat < n) (hbound : n < u64Bound) (h : addU64 P a 1 = .ok b) :
    b.toNat = a.toNat + 1 := by
  have hlt : a.toNat + (1 : UInt64).toNat < u64Bound := by
    have hone : (1 : UInt64).toNat = 1 := rfl
    omega
  rw [addU64_ok P hlt] at h
  cases h
  rw [UInt64.toNat_add]
  exact Nat.mod_eq_of_lt hlt

/-- The exchange in closed form. -/
theorem exchangeBranches_ok {P : Platform} {g raised : ChainState} {plan : ReorgPlan}
    {demoted : List Block} (hrun : exchangeBranches P g plan = .ok (raised, demoted)) :
    Exchanged P g plan raised demoted := by
  unfold exchangeBranches at hrun
  rcases bind_eq_ok.mp hrun with ⟨demotedFrom, hfrom, hrun⟩
  rcases bind_eq_ok.mp hrun with ⟨kept, hkept, hrun⟩
  rcases bind_eq_ok.mp hrun with ⟨cw, hcw, hrun⟩
  rcases bind_eq_ok.mp hrun with ⟨⟨g', cw'⟩, hfold, hrun⟩
  cases hrun
  rcases sliceToInclusive_ok hkept with ⟨⟨hbound, hheight⟩, rfl⟩
  have hfrom' := addU64_one_toNat (Nat.lt_succ_self _) hbound hfrom
  rcases foldlM_promoteBlock hfold with ⟨works, hworks, hraised⟩
  refine ⟨hheight, by rw [hfrom'], cw, works, hcw, ?_, ?_⟩
  · rw [foldl_demoteBlock] at hworks
    exact hworks
  · rw [hraised, hfrom']
    rfl

/-!
# Unchanged fields
-/

section Frame

variable (g : ChainState) (height : Nat) (segment : List Block) (works : ExtTreeMap String Nat)

@[simp] theorem exchangedChain_blocks :
    (exchangedChain g height segment works).blocks = g.blocks.take (height + 1) ++ segment := by
  simp [exchangedChain, promotedChain]

@[simp] theorem exchangedChain_canonIndex :
    (exchangedChain g height segment works).canonIndex =
      segment.foldl (fun m b => m.insert b.hash b.header.number)
        ((g.blocks.drop (height + 1)).foldl (fun m b => m.erase b.hash) g.canonIndex) := by
  simp [exchangedChain, promotedChain, foldl_demoteBlock]

@[simp] theorem exchangedChain_sideBlocks :
    (exchangedChain g height segment works).sideBlocks =
      segment.foldl (fun m b => m.erase b.hash)
        ((g.blocks.drop (height + 1)).foldl (fun m b => m.insert b.hash b) g.sideBlocks) := by
  simp [exchangedChain, promotedChain, foldl_demoteBlock]

@[simp] theorem exchangedChain_cumulativeWork :
    (exchangedChain g height segment works).cumulativeWork = works := rfl

@[simp] theorem exchangedChain_seenBlocks :
    (exchangedChain g height segment works).seenBlocks =
      segment.foldl (fun m b => m.insert b.hash) g.seenBlocks := by
  simp [exchangedChain, promotedChain, foldl_demoteBlock]

@[simp] theorem exchangedChain_orphanPool :
    (exchangedChain g height segment works).orphanPool = g.orphanPool := by
  simp [exchangedChain, promotedChain, foldl_demoteBlock]

@[simp] theorem exchangedChain_orphanByHash :
    (exchangedChain g height segment works).orphanByHash = g.orphanByHash := by
  simp [exchangedChain, promotedChain, foldl_demoteBlock]

end Frame

/-- Promotion and demotion leave the orphan pool alone, whatever the chain. -/
theorem exchangeBranches_orphanPool {P : Platform} {g raised : ChainState} {plan : ReorgPlan}
    {demoted : List Block} (hrun : exchangeBranches P g plan = .ok (raised, demoted)) :
    raised.orphanPool = g.orphanPool := by
  unfold exchangeBranches at hrun
  rcases bind_eq_ok.mp hrun with ⟨_, _, hrun⟩
  rcases bind_eq_ok.mp hrun with ⟨_, _, hrun⟩
  rcases bind_eq_ok.mp hrun with ⟨cw, _, hrun⟩
  rcases bind_eq_ok.mp hrun with ⟨⟨g', cw'⟩, hfold, hrun⟩
  cases hrun
  rcases foldlM_promoteBlock hfold with ⟨works, _, hraised⟩
  rw [hraised]
  simp [promotedChain, foldl_demoteBlock]

theorem tryReorg_orphanPool {P : Platform} {host host' : Host} {g g' : ChainState}
    {newTip : Block} {recovery : Option ReorgRecovery}
    (hrun : tryReorg P host g newTip = .ok (recovery, g', host')) :
    g'.orphanPool = g.orphanPool := by
  cases tryReorg_cases hrun with
  | aborted _ => rfl
  | emptyChain _ _ => rfl
  | writeFailed _ => rfl
  | exchanged _ hexchange _ _ _ =>
      have hpool := exchangeBranches_orphanPool hexchange
      exact hpool

end VisionCore
