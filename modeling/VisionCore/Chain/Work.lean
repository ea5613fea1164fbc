import VisionCore.Chain.Run

/-!
# Cumulative work

The recorded work of a known block never exceeds the work of its path, so that
no sum overflows.  Where genesis has been recorded with its own work, the
recorded works are exact.
-/

namespace VisionCore

open Std
open Foundation

def blockWork (blk : Block) : Nat :=
  blk.header.difficulty.toNat

/-- The work of a list of blocks. -/
def lineWork (l : List Block) : Nat :=
  pathWeight blockWork l

@[simp] theorem lineWork_nil : lineWork [] = 0 := rfl

@[simp] theorem lineWork_cons (blk : Block) (l : List Block) :
    lineWork (blk :: l) = blockWork blk + lineWork l :=
  pathWeight_cons blockWork blk l

theorem lineWork_append (s t : List Block) : lineWork (s ++ t) = lineWork s + lineWork t :=
  pathWeight_append blockWork s t

theorem lineWork_reverse (l : List Block) : lineWork l.reverse = lineWork l :=
  pathWeight_reverse blockWork l

theorem blockWork_le (blk : Block) : blockWork blk ≤ u64Max := by
  have h := blk.header.difficulty.toNat_lt
  unfold blockWork u64Max u64Bound
  omega

/-- Timestamps grow along a path, so a path has at most as many blocks above
genesis as its tip has seconds. -/
theorem Represents.lineWork_le {P : Platform} {D : Block -> Prop} {g : ChainState} {blk : Block}
    {rest : List Block} (hg : Represents P D g) (hl : KnownPath g (blk :: rest)) :
    lineWork (blk :: rest) ≤ 1 + blk.header.timestamp.toNat * u64Max := by
  induction rest generalizing blk with
  | nil =>
      cases hl with
      | root _ => exact Nat.le_refl _
  | cons parent rest ih =>
      have hbelow := ih hl.tail
      have hblk := blockWork_le blk
      have hmul : (parent.header.timestamp.toNat + 1) * u64Max ≤
          blk.header.timestamp.toNat * u64Max :=
        Nat.mul_le_mul_right _ (hg.linked hl).2
      rw [lineWork_cons]
      rw [Nat.succ_mul] at hmul
      omega

/-- One more block on a path does not overflow. -/
theorem Represents.lineWork_lt {P : Platform} {D : Block -> Prop} {g : ChainState} {blk : Block}
    {rest : List Block} (hg : Represents P D g) (hl : KnownPath g (blk :: rest)) :
    lineWork (blk :: rest) + u64Max < u128Bound := by
  have hle := hg.lineWork_le hl
  have htime := blk.header.timestamp.toNat_lt
  have hmul : blk.header.timestamp.toNat * u64Max ≤ u64Max * u64Max :=
    Nat.mul_le_mul_right _ (by unfold u64Max u64Bound; omega)
  have hbound : 1 + u64Max * u64Max + u64Max < u128Bound := by decide
  omega

/-!
# The works of a segment
-/

theorem addU128_eq {P : Platform} {a b c : Nat} (hbound : a + b < u128Bound)
    (h : addU128 P a b = .ok c) : c = a + b := by
  rw [addU128_ok P hbound] at h
  exact (Except.ok.inj h).symm

theorem segmentWork_of_not_mem {P : Platform} {cw : Nat} {works works' : ExtTreeMap String Nat}
    {segment : List Block} (hrun : segmentWork P cw works segment = .ok works') {h : String}
    (hh : h ∉ segment.map Block.hash) : works'[h]? = works[h]? := by
  induction segment generalizing cw works with
  | nil => cases hrun; rfl
  | cons blk rest ih =>
      rw [List.map_cons, List.mem_cons, not_or] at hh
      rcases bind_eq_ok.mp hrun with ⟨cw', _, hrest⟩
      rw [ih hrest hh.2, getElem?_insert_ite, if_neg (fun heq => hh.1 heq.symm)]

/-- Every block of the segment is recorded with the work below the segment, that
of its predecessors in the segment, and its own. -/
theorem segmentWork_of_mem {P : Platform} {cw : Nat} {works works' : ExtTreeMap String Nat}
    {older newer : List Block} {blk : Block}
    (hrun : segmentWork P cw works (older ++ blk :: newer) = .ok works')
    (hnodup : ((older ++ blk :: newer).map Block.hash).Nodup)
    (hbound : cw + lineWork (older ++ blk :: newer) < u128Bound) :
    works'[blk.hash]? = some (cw + lineWork older + blockWork blk) := by
  induction older generalizing cw works with
  | nil =>
      rw [List.nil_append, lineWork_cons] at hbound
      rw [List.nil_append, List.map_cons, List.nodup_cons] at hnodup
      rcases bind_eq_ok.mp hrun with ⟨cw', hadd, hrest⟩
      have hcw := addU128_eq (by unfold blockWork at hbound; omega) hadd
      rw [segmentWork_of_not_mem hrest hnodup.1, getElem?_insert_ite, if_pos rfl, hcw]
      rfl
  | cons x older ih =>
      rw [List.cons_append, lineWork_cons] at hbound
      rw [List.cons_append, List.map_cons, List.nodup_cons] at hnodup
      rcases bind_eq_ok.mp hrun with ⟨cw', hadd, hrest⟩
      have hcw := addU128_eq (by unfold blockWork at hbound; omega) hadd
      have hcw' : cw' = cw + blockWork x := hcw
      rw [ih hrest hnodup.2 (by omega), hcw', lineWork_cons]
      congr 1
      omega

theorem foldlM_addU128 {P : Platform} {cw cw' : Nat} {blocks : List Block}
    (hbound : cw + lineWork blocks < u128Bound)
    (hrun : blocks.foldlM (fun acc blk => addU128 P acc blk.header.difficulty.toNat) cw =
      .ok cw') : cw' = cw + lineWork blocks := by
  induction blocks generalizing cw with
  | nil =>
      rw [List.foldlM_nil] at hrun
      exact (Except.ok.inj hrun).symm
  | cons blk rest ih =>
      rw [lineWork_cons] at hbound
      rw [List.foldlM_cons] at hrun
      rcases bind_eq_ok.mp hrun with ⟨next, hadd, hrest⟩
      have hnext := addU128_eq (by unfold blockWork at hbound; omega) hadd
      have hnext' : next = cw + blockWork blk := hnext
      rw [ih (by omega) hrest, hnext', lineWork_cons, Nat.add_assoc]

theorem foldlM_addU128_total {P : Platform} {cw : Nat} {blocks : List Block}
    (hbound : cw + lineWork blocks < u128Bound) :
    exists cw', blocks.foldlM (fun acc blk => addU128 P acc blk.header.difficulty.toNat) cw =
      .ok cw' := by
  induction blocks generalizing cw with
  | nil => exact ⟨cw, rfl⟩
  | cons blk rest ih =>
      rw [lineWork_cons] at hbound
      have hadd := addU128_ok P (a := cw) (b := blk.header.difficulty.toNat)
        (by unfold blockWork at hbound; omega)
      have hrestBound : cw + blk.header.difficulty.toNat + lineWork rest < u128Bound := by
        unfold blockWork at hbound
        omega
      rcases ih hrestBound with ⟨cw', hrest⟩
      refine ⟨cw', ?_⟩
      rw [List.foldlM_cons]
      exact bind_eq_ok.mpr ⟨_, hadd, hrest⟩

/-- No sum along a segment overflows when the whole segment's does not. -/
theorem segmentWork_total {P : Platform} {cw : Nat} {works : ExtTreeMap String Nat}
    {segment : List Block} (hbound : cw + lineWork segment < u128Bound) :
    exists works', segmentWork P cw works segment = .ok works' := by
  induction segment generalizing cw works with
  | nil => exact ⟨works, rfl⟩
  | cons blk rest ih =>
      rw [lineWork_cons] at hbound
      have hadd := addU128_ok P (a := cw) (b := blk.header.difficulty.toNat)
        (by unfold blockWork at hbound; omega)
      have hrestBound : cw + blk.header.difficulty.toNat + lineWork rest < u128Bound := by
        unfold blockWork at hbound
        omega
      have hrest := @ih _ (works.insert blk.hash (cw + blk.header.difficulty.toNat)) hrestBound
      rcases hrest with ⟨works', hrest⟩
      exact ⟨works', bind_eq_ok.mpr ⟨_, hadd, hrest⟩⟩

/-!
# The two invariants
-/

/-- Works are recorded for known blocks only. -/
def WorkKnown (g : ChainState) : Prop :=
  forall ⦃h⦄, h ∈ g.cumulativeWork -> resolveBlock g h ≠ none

structure WorkBounded (g : ChainState) : Prop where
  le : forall ⦃blk rest⦄, KnownPath g (blk :: rest) ->
    g.workOf blk.hash ≤ lineWork (blk :: rest)
  known : WorkKnown g

structure ExactWork (g : ChainState) : Prop where
  value : forall ⦃blk rest⦄, KnownPath g (blk :: rest) ->
    g.cumulativeWork[blk.hash]? = some (lineWork (blk :: rest))
  known : WorkKnown g

theorem WorkKnown.congr {g g' : ChainState} (h : WorkKnown g)
    (hknown : resolveBlock g' = resolveBlock g) (hwork : g'.cumulativeWork = g.cumulativeWork) :
    WorkKnown g' := by
  intro hash hmem
  rw [hwork] at hmem
  rw [hknown]
  exact h hmem

theorem ExactWork.workOf {g : ChainState} (h : ExactWork g) {blk : Block} {rest : List Block}
    (hl : KnownPath g (blk :: rest)) : g.workOf blk.hash = lineWork (blk :: rest) := by
  unfold ChainState.workOf
  rw [h.value hl]
  rfl

theorem ExactWork.bounded {g : ChainState} (h : ExactWork g) : WorkBounded g where
  le := fun _ _ hl => Nat.le_of_eq (h.workOf hl)
  known := h.known

theorem ExactWork.congr {g g' : ChainState} (h : ExactWork g)
    (hknown : resolveBlock g' = resolveBlock g) (hwork : g'.cumulativeWork = g.cumulativeWork) :
    ExactWork g' where
  value := by
    intro blk rest hl
    unfold KnownPath at hl
    rw [hknown] at hl
    rw [hwork]
    exact h.value hl
  known := h.known.congr hknown hwork

theorem WorkBounded.congr {g g' : ChainState} (h : WorkBounded g)
    (hknown : resolveBlock g' = resolveBlock g) (hwork : g'.cumulativeWork = g.cumulativeWork) :
    WorkBounded g' where
  le := by
    intro blk rest hl
    unfold KnownPath at hl
    rw [hknown] at hl
    unfold ChainState.workOf
    rw [hwork]
    exact h.le hl
  known := h.known.congr hknown hwork

section Steps

variable {P : Platform} {D : Block -> Prop} {host : Host} {g g' : ChainState}
  {blk parent common : Block} {rest side l : List Block} {candidateCw : Nat}
  {state : TxExecutionState} {sourcePeer : Option String} {step : Step}

/-- The work of a new block is its parent's recorded work and its own. -/
theorem Admitted.candidateCw_eq (hg : Represents P D g) (hw : WorkBounded g)
    (h : Admitted P D host g blk parent rest candidateCw state) :
    candidateCw = g.workOf parent.hash + blockWork blk := by
  have hparent := hw.le h.joins.path
  have hlt := hg.lineWork_lt h.joins.path
  have hblk := blockWork_le blk
  have hwork := h.vetted.work
  rw [h.joins.parent_eq] at hwork
  exact addU128_eq (by unfold blockWork at hblk ⊢; omega) hwork

/-- A path of the enlarged state is an old one or that of the new block. -/
theorem knownPath_cases (hg : Represents P D g) (hjoins : Represents.Joins P D g blk parent rest)
    (hknown : resolveBlock g' = Store.put chainLineage (resolveBlock g) blk) {b : Block}
    {tail : List Block} (hl : KnownPath g' (b :: tail)) :
    (KnownPath g (b :: tail) ∧ b.hash ≠ blk.hash) ∨ (b = blk ∧ tail = parent :: rest) := by
  have hparent : resolveBlock g (chainLineage.parent blk) = some parent := by
    rw [chainLineage_parent, hjoins.parent_eq]
    exact hjoins.path.lookup List.mem_cons_self
  unfold KnownPath at hl
  rw [hknown] at hl
  rcases hl.put_cases hg.rooted hjoins.unknown hparent with hold | ⟨tail', rfl, rfl, htail'⟩
  · refine Or.inl ⟨hold, ?_⟩
    intro heq
    have hlookup := hold.lookup List.mem_cons_self
    rw [chainLineage_name, heq, hjoins.unknown] at hlookup
    cases hlookup
  · exact Or.inr ⟨rfl, htail'.unique hjoins.path rfl⟩

theorem workKnown_put (hw : WorkKnown g) (hjoins : Represents.Joins P D g blk parent rest)
    (hknown : resolveBlock g' = Store.put chainLineage (resolveBlock g) blk)
    (hwork : g'.cumulativeWork = g.cumulativeWork.insert blk.hash candidateCw) :
    WorkKnown g' := by
  intro h hmem
  rw [hwork] at hmem
  rw [hknown]
  rcases mem_insert_iff.mp hmem with rfl | hold
  · rw [← chainLineage_name, Store.put_self]
    simp
  · rcases Option.ne_none_iff_exists'.mp (hw hold) with ⟨known, hlookup⟩
    rw [Store.put_mono (F := chainLineage) hjoins.unknown hlookup]
    simp

theorem exactWork_put (hg : Represents P D g) (hw : ExactWork g)
    (h : Admitted P D host g blk parent rest candidateCw state)
    (hknown : resolveBlock g' = Store.put chainLineage (resolveBlock g) blk)
    (hwork : g'.cumulativeWork = g.cumulativeWork.insert blk.hash candidateCw) :
    ExactWork g' where
  value := by
    intro b tail hl
    rw [hwork, getElem?_insert_ite]
    rcases knownPath_cases hg h.joins hknown hl with ⟨hold, hne⟩ | ⟨rfl, rfl⟩
    · rw [if_neg fun heq => hne heq.symm]
      exact hw.value hold
    · rw [if_pos rfl, h.candidateCw_eq hg hw.bounded, hw.workOf h.joins.path, lineWork_cons b]
      congr 1
      omega
  known := workKnown_put hw.known h.joins hknown hwork

theorem workBounded_put (hg : Represents P D g) (hw : WorkBounded g)
    (h : Admitted P D host g blk parent rest candidateCw state)
    (hknown : resolveBlock g' = Store.put chainLineage (resolveBlock g) blk)
    (hwork : g'.cumulativeWork = g.cumulativeWork.insert blk.hash candidateCw) :
    WorkBounded g' where
  le := by
    intro b tail hl
    unfold ChainState.workOf
    rw [hwork, getElem?_insert_ite]
    rcases knownPath_cases hg h.joins hknown hl with ⟨hold, hne⟩ | ⟨rfl, rfl⟩
    · rw [if_neg fun heq => hne heq.symm]
      exact hw.le hold
    · have hparent := hw.le h.joins.path
      rw [if_pos rfl, Option.getD_some, h.candidateCw_eq hg hw, lineWork_cons]
      omega
  known := workKnown_put hw.known h.joins hknown hwork

/-!
# Reorganisation
-/

/-- The blocks of the side part, oldest first, split at one of them. -/
theorem BranchesAt.split (hbranch : BranchesAt g l side common) (hblk : blk ∈ side) :
    exists older newer, side.reverse = older ++ blk :: newer ∧
      l = newer.reverse ++ blk :: (older.reverse ++
        (g.blocks.take (common.header.number.toNat + 1)).reverse) := by
  rcases List.append_of_mem hblk with ⟨s, t, rfl⟩
  refine ⟨t.reverse, s.reverse, by simp, ?_⟩
  rw [hbranch.path_eq, List.reverse_reverse, List.reverse_reverse, List.append_assoc,
    List.cons_append]

theorem side_lineWork_le (hbranch : BranchesAt g l side common) :
    lineWork (g.blocks.take (common.header.number.toNat + 1)) + lineWork side.reverse =
      lineWork l := by
  rw [hbranch.path_eq, lineWork_append, lineWork_reverse, lineWork_reverse, Nat.add_comm]

/-- A reorg that starts from work `cw` at the ancestor records for each block of
its path that work and the work above the ancestor. -/
theorem branchWorks_side (hl : KnownPath g l) (hbranch : BranchesAt g l side common)
    {works : ExtTreeMap String Nat} {cw : Nat}
    (hcw : cw ≤ lineWork (g.blocks.take (common.header.number.toNat + 1)))
    (hbound : lineWork l < u128Bound)
    (hrun : segmentWork P cw g.cumulativeWork side.reverse = .ok works) (hblk : blk ∈ side) :
    exists tail above, KnownPath g (blk :: tail) ∧
      lineWork (blk :: tail) =
        lineWork (g.blocks.take (common.header.number.toNat + 1)) + above ∧
      works[blk.hash]? = some (cw + above) := by
  rcases hbranch.split hblk with ⟨older, newer, hreverse, hpath⟩
  have hnodup := Represents.side_nodup hl hbranch
  have htotal := side_lineWork_le hbranch
  rw [hreverse] at hrun hnodup htotal
  refine ⟨older.reverse ++ (g.blocks.take (common.header.number.toNat + 1)).reverse,
    lineWork older + blockWork blk, ?_, ?_, ?_⟩
  · rw [hpath] at hl
    exact hl.suffix
  · rw [lineWork_cons, lineWork_append, lineWork_reverse, lineWork_reverse]
    omega
  · rw [segmentWork_of_mem hrun hnodup (by omega), Nat.add_assoc]

/-- The ancestor of a reorg starts from no more than its own work. -/
theorem ancestorWork_le (hg : Represents P D g) (hw : WorkBounded g)
    (hcommon : common ∈ g.blocks) {cw : Nat}
    (hrun : ancestorWork P g common.hash (g.blocks.take (common.header.number.toNat + 1)) =
      .ok cw) : cw ≤ lineWork (g.blocks.take (common.header.number.toNat + 1)) := by
  have hkept := hg.canonical_path hcommon
  have hlt : lineWork (g.blocks.take (common.header.number.toNat + 1)) < u128Bound := by
    rw [hg.take_reverse hcommon] at hkept
    have hbound := hg.lineWork_lt hkept
    rw [← hg.take_reverse hcommon, lineWork_reverse] at hbound
    omega
  unfold ancestorWork at hrun
  cases hslot : g.cumulativeWork[common.hash]? with
  | some recorded =>
      rw [hslot] at hrun
      rw [hg.take_reverse hcommon] at hkept
      have hle := hw.le hkept
      unfold ChainState.workOf at hle
      rw [hslot, ← hg.take_reverse hcommon, lineWork_reverse] at hle
      rw [← Except.ok.inj hrun]
      exact hle
  | none =>
      rw [hslot] at hrun
      exact Nat.le_of_eq (by
        have hsum := foldlM_addU128 (by simpa using hlt) hrun
        simpa using hsum)

theorem workKnown_moved (hw : WorkKnown g) (hl : KnownPath g l)
    (hbranch : BranchesAt g l side common) {works : ExtTreeMap String Nat}
    (hworks : BranchWorks P g side common works) (hknown : resolveBlock g' = resolveBlock g)
    (hwork : g'.cumulativeWork = works) : WorkKnown g' := by
  rcases hworks with ⟨cw, _, hrun⟩
  intro h hmem
  rw [hknown]
  by_cases hside : h ∈ side.map Block.hash
  · rcases List.mem_map.mp hside with ⟨x, hx, rfl⟩
    have hlookup : resolveBlock g x.hash = some x :=
      hl.lookup (hbranch.path_eq ▸ List.mem_append_left _ hx)
    rw [hlookup]
    simp
  · refine hw ?_
    rw [hwork, ExtTreeMap.mem_iff_isSome_getElem?,
      segmentWork_of_not_mem hrun (by simpa using hside)] at hmem
    exact ExtTreeMap.mem_iff_isSome_getElem?.mpr hmem

/-- A reorg leaves exact works as they are. -/
theorem exactWork_moved (hg : Represents P D g) (hw : ExactWork g)
    (hl : KnownPath g (blk :: rest)) (hbranch : BranchesAt g (blk :: rest) side common)
    {works : ExtTreeMap String Nat} (hworks : BranchWorks P g side common works)
    (hknown : resolveBlock g' = resolveBlock g) (hwork : g'.cumulativeWork = works) :
    ExactWork g' := by
  refine ⟨?_, workKnown_moved hw.known hl hbranch hworks hknown hwork⟩
  rcases hworks with ⟨cw, hancestor, hrun⟩
  have hkept := hg.canonical_path hbranch.common_mem
  rw [hg.take_reverse hbranch.common_mem] at hkept
  have hcommon := hw.value hkept
  rw [← hg.take_reverse hbranch.common_mem, lineWork_reverse] at hcommon
  have hcw : cw = lineWork (g.blocks.take (common.header.number.toNat + 1)) := by
    unfold ancestorWork at hancestor
    rw [hcommon] at hancestor
    exact (Except.ok.inj hancestor).symm
  intro b tail hb
  unfold KnownPath at hb
  rw [hknown] at hb
  rw [hwork]
  by_cases hside : b.hash ∈ side.map Block.hash
  · rcases List.mem_map.mp hside with ⟨x, hx, hname⟩
    have hbound := hg.lineWork_lt hl
    rcases branchWorks_side hl hbranch (Nat.le_of_eq hcw) (by omega) hrun hx with
      ⟨tail', above, hx', htotal, hvalue⟩
    rw [← hx'.unique hb hname, ← hname, hvalue, hcw, htotal]
  · rw [segmentWork_of_not_mem hrun (by simpa using hside)]
    exact hw.value hb

theorem workBounded_moved (hg : Represents P D g) (hw : WorkBounded g)
    (hl : KnownPath g (blk :: rest)) (hbranch : BranchesAt g (blk :: rest) side common)
    {works : ExtTreeMap String Nat} (hworks : BranchWorks P g side common works)
    (hknown : resolveBlock g' = resolveBlock g) (hwork : g'.cumulativeWork = works) :
    WorkBounded g' := by
  refine ⟨?_, workKnown_moved hw.known hl hbranch hworks hknown hwork⟩
  rcases hworks with ⟨cw, hancestor, hrun⟩
  have hcw := ancestorWork_le hg hw hbranch.common_mem hancestor
  intro b tail hb
  unfold KnownPath at hb
  rw [hknown] at hb
  unfold ChainState.workOf
  rw [hwork]
  by_cases hside : b.hash ∈ side.map Block.hash
  · rcases List.mem_map.mp hside with ⟨x, hx, hname⟩
    have hbound := hg.lineWork_lt hl
    rcases branchWorks_side hl hbranch hcw (by omega) hrun hx with
      ⟨tail', above, hx', htotal, hvalue⟩
    rw [← hx'.unique hb hname, ← hname, hvalue, htotal, Option.getD_some]
    omega
  · rw [segmentWork_of_not_mem hrun (by simpa using hside)]
    exact hw.le hb

/-!
# Along a step
-/

theorem Effect.exactWork (hg : Represents P D g) (hw : ExactWork g)
    (h : Effect P D host g blk sourcePeer step) : ExactWork step.chain := by
  cases h with
  | rejected _ => exact hw
  | orphaned _ _ _ =>
      have hframe := addOrphan_known host.now g blk (sourcePeer.getD "anon")
      exact hw.congr hframe.1 hframe.2
  | extended hadmitted _ htip _ _ =>
      exact exactWork_put hg hw hadmitted (hadmitted.extended_known hg htip _) rfl
  | recorded hadmitted _ _ _ =>
      exact exactWork_put hg hw hadmitted (hadmitted.recorded_known hg) rfl
  | moved hmoves _ =>
      have hknown := hmoves.admitted.recorded_known hg
      have hw' := exactWork_put hg hw hmoves.admitted hknown rfl
      exact exactWork_moved hmoves.recorded hw' hmoves.path hmoves.branches hmoves.works_eq
        hmoves.known rfl

theorem Effect.workBounded (hg : Represents P D g) (hw : WorkBounded g)
    (h : Effect P D host g blk sourcePeer step) : WorkBounded step.chain := by
  cases h with
  | rejected _ => exact hw
  | orphaned _ _ _ =>
      have hframe := addOrphan_known host.now g blk (sourcePeer.getD "anon")
      exact hw.congr hframe.1 hframe.2
  | extended hadmitted _ htip _ _ =>
      exact workBounded_put hg hw hadmitted (hadmitted.extended_known hg htip _) rfl
  | recorded hadmitted _ _ _ =>
      exact workBounded_put hg hw hadmitted (hadmitted.recorded_known hg) rfl
  | moved hmoves _ =>
      have hknown := hmoves.admitted.recorded_known hg
      have hw' := workBounded_put hg hw hmoves.admitted hknown rfl
      exact workBounded_moved hmoves.recorded hw' hmoves.path hmoves.branches hmoves.works_eq
        hmoves.known rfl

end Steps

/-!
# Along a run
-/

/-- Genesis alone, recorded with its own work. -/
theorem GenesisOnly.exactWork {g : ChainState} (h : GenesisOnly g)
    (hwork : g.cumulativeWork =
      (∅ : ExtTreeMap String Nat).insert genesisHash (lineWork [genesisBlock])) :
    ExactWork g where
  value := by
    intro blk rest hl
    cases h.knownPath hl
    rw [hwork, getElem?_insert_ite, genesisBlock_hash, if_pos rfl]
  known := by
    intro hash hmem
    rw [hwork] at hmem
    rcases mem_insert_iff.mp hmem with rfl | hempty
    · rw [h.resolve.mpr ⟨rfl, rfl⟩]
      simp
    · simp at hempty

theorem stepInvariant_workBounded (P : Platform) (D : Block -> Prop) :
    StepInvariant P D fun _ g => WorkBounded g where
  effect := fun hg _ heffect hpre => heffect.workBounded hg hpre
  take := fun _ hpre => hpre.congr rfl rfl
  forget := fun _ hpre => hpre.congr rfl rfl

theorem stepInvariant_exactWork (P : Platform) (D : Block -> Prop) :
    StepInvariant P D fun _ g => ExactWork g where
  effect := fun hg _ heffect hpre => heffect.exactWork hg hpre
  take := fun _ hpre => hpre.congr rfl rfl
  forget := fun _ hpre => hpre.congr rfl rfl

theorem GenesisApplied.exactWork {P : Platform} {g : ChainState} (h : GenesisApplied P g) :
    ExactWork g := by
  rcases h.eq with ⟨db, rfl⟩
  have honly := genesisOnly_genesisApplied (g := ChainState.empty db) rfl rfl rfl rfl rfl
  exact honly.exactWork rfl

end VisionCore
