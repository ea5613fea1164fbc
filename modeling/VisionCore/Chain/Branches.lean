import VisionCore.Chain.Representation

/-!
# Branches and reorganisation

The walk of `collectNewSegment` finds the side part of a known path, the plan of
a reorg is the one that this path prescribes, and the exchange makes the path
canonical while every block stays known.
-/

namespace VisionCore

open Std
open Foundation

/-!
# The walk to the canonical chain
-/

theorem BranchesAt.tail {g : ChainState} {blk common : Block} {rest side : List Block}
    (h : BranchesAt g (blk :: rest) (blk :: side) common) : BranchesAt g rest side common where
  path_eq := (List.cons.inj h.path_eq).2
  common_mem := h.common_mem
  side_mem := fun x hx => h.side_mem x (List.mem_cons_of_mem _ hx)

namespace Represents

variable {P : Platform} {D : Block -> Prop} {g : ChainState} {blk common : Block}
  {rest side l : List Block}

theorem collectNewSegmentLoop_eq (hg : Represents P D g) {fuel : Nat} {segment : List Block}
    (hl : KnownPath g (blk :: rest)) (hbranch : BranchesAt g (blk :: rest) side common)
    (hfuel : side.length < fuel) :
    collectNewSegmentLoop g fuel blk.hash segment = .ok (side.reverse ++ segment) := by
  induction side generalizing blk rest fuel segment with
  | nil =>
      cases fuel with
      | zero => cases hfuel
      | succ fuel =>
          have hpath := hbranch.path_eq
          rw [List.nil_append, hg.take_reverse hbranch.common_mem] at hpath
          have hmem : blk.hash ∈ g.canonIndex := by
            rw [(List.cons.inj hpath).1]
            exact hg.mem_canonIndex_iff.mpr ⟨common, hbranch.common_mem, rfl⟩
          unfold collectNewSegmentLoop
          rw [if_pos (ExtTreeMap.contains_iff_mem.mpr hmem)]
          rfl
  | cons x side ih =>
      cases fuel with
      | zero => cases hfuel
      | succ fuel =>
          have hx : blk = x := (List.cons.inj hbranch.path_eq).1
          subst hx
          rcases hbranch.side_mem blk List.mem_cons_self with ⟨hside, hcanon⟩
          unfold collectNewSegmentLoop
          rw [if_neg (mt ExtTreeMap.contains_iff_mem.mp hcanon), hside]
          have htail := hbranch.tail
          cases rest with
          | nil =>
              have hempty := htail.path_eq
              rw [hg.take_reverse hbranch.common_mem] at hempty
              simp at hempty
          | cons parent rest =>
              have hparent : blk.header.parentHash = parent.hash :=
                Path.parent_eq (s := []) hl
              dsimp only
              rw [hparent]
              have hloop : collectNewSegmentLoop g fuel parent.hash (blk :: segment) =
                  .ok (side.reverse ++ blk :: segment) :=
                ih hl.tail htail (Nat.lt_of_succ_lt_succ hfuel)
              simpa using hloop

theorem side_length_le (hl : KnownPath g l) (hbranch : BranchesAt g l side common) :
    side.length ≤ g.sideBlocks.size := by
  have hnames := hl.nodup_names
  rw [hbranch.path_eq, List.map_append] at hnames
  have hle := length_le_size g.sideBlocks (List.nodup_append.mp hnames).1 (by
    intro name hname
    rcases List.mem_map.mp hname with ⟨x, hx, rfl⟩
    rw [ExtTreeMap.mem_iff_isSome_getElem?, chainLineage_name, (hbranch.side_mem x hx).1]
    rfl)
  rwa [List.length_map] at hle

theorem collectNewSegment_eq (hg : Represents P D g) (hl : KnownPath g (blk :: rest))
    (hbranch : BranchesAt g (blk :: rest) side common) :
    collectNewSegment g blk.hash = .ok side.reverse := by
  have hsize := side_length_le hl hbranch
  have hloop : collectNewSegmentLoop g (sideWalkFuel g) blk.hash [] =
      .ok (side.reverse ++ []) :=
    hg.collectNewSegmentLoop_eq hl hbranch (by unfold sideWalkFuel; omega)
  simpa [collectNewSegment] using hloop

/-- The oldest side block of a path names the canonical ancestor as its parent. -/
theorem parent_of_side (hg : Represents P D g) (hl : KnownPath g l)
    (hbranch : BranchesAt g l side common) {first : Block}
    (hfirst : side.reverse.head? = some first) : first.header.parentHash = common.hash := by
  rw [List.head?_reverse] at hfirst
  rcases List.getLast?_eq_some_iff.mp hfirst with ⟨newer, hside⟩
  have hpath := hl
  rw [hbranch.path_eq, hg.take_reverse hbranch.common_mem, hside, List.append_assoc] at hpath
  exact hpath.parent_eq

end Represents

/-!
# The plan of a reorg
-/

structure Planned (P : Platform) (g : ChainState) (newTip : Block) (plan : ReorgPlan) :
    Prop where
  segment : collectNewSegment g newTip.hash = .ok plan.segment
  common : exists first, plan.segment.head? = some first ∧
    plan.commonHash = first.header.parentHash
  height : g.canonIndex[plan.commonHash]? = some plan.commonHeight
  replay : exists ancestorState,
    reconstructCanonicalStateChecked P g plan.commonHeight = .ok ancestorState ∧
      reconstructBranchState P plan.commonHash ancestorState plan.segment = .ok plan.state
  root : computeStateRoot P plan.state.balances plan.state.nonces = .ok plan.stateRoot
  root_eq : plan.stateRoot = newTip.header.stateRoot

theorem planReorg_ok {P : Platform} {g : ChainState} {newTip : Block} {plan : ReorgPlan}
    (h : planReorg P g newTip = .ok plan) : Planned P g newTip plan := by
  unfold planReorg at h
  rcases bind_eq_ok.mp h with ⟨segment, hsegment, h⟩
  cases segment with
  | nil => cases h
  | cons first segment =>
      dsimp only at h
      cases hheight : g.canonIndex[first.header.parentHash]? with
      | none =>
          rw [hheight] at h
          cases h
      | some commonHeight =>
          rw [hheight] at h
          rcases bind_eq_ok.mp h with ⟨ancestorState, hancestor, h⟩
          rcases bind_eq_ok.mp h with ⟨state, hstate, h⟩
          cases hroot : computeStateRoot P state.balances state.nonces with
          | error _ =>
              rw [hroot] at h
              cases h
          | ok root =>
              rw [hroot] at h
              dsimp only at h
              split at h
              · cases h
              · rename_i hequal
                cases h
                exact
                  { segment := liftFault_eq_ok.mp hsegment
                    common := ⟨first, rfl, rfl⟩
                    height := hheight
                    replay := ⟨ancestorState, mapErr_eq_ok.mp hancestor, mapErr_eq_ok.mp hstate⟩
                    root := hroot
                    root_eq := not_not.mp hequal }

namespace Represents

variable {P : Platform} {D : Block -> Prop} {g : ChainState} {blk common : Block}
  {rest side l : List Block}

/-- The plan of a reorg to a known block follows the block's path. -/
theorem planned_eq (hg : Represents P D g) (hl : KnownPath g (blk :: rest))
    (hbranch : BranchesAt g (blk :: rest) side common) {plan : ReorgPlan}
    (hplan : Planned P g blk plan) :
    plan.segment = side.reverse ∧ plan.commonHash = common.hash ∧
      plan.commonHeight = common.header.number := by
  have hsegment : plan.segment = side.reverse :=
    Except.ok.inj (hplan.segment.symm.trans (hg.collectNewSegment_eq hl hbranch))
  rcases hplan.common with ⟨first, hfirst, hcommon⟩
  rw [hsegment] at hfirst
  have hhash : plan.commonHash = common.hash := by
    rw [hcommon]
    exact hg.parent_of_side hl hbranch hfirst
  have hheight := hplan.height
  rw [hhash, hg.canonIndex_of_mem hbranch.common_mem] at hheight
  exact ⟨hsegment, hhash, (Option.some.inj hheight).symm⟩

/-!
# The exchange
-/

/-- The state after the canonical chain has moved to the path `l`. -/
abbrev movedTo (g : ChainState) (side : List Block) (common : Block)
    (works : ExtTreeMap String Nat) : ChainState :=
  exchangedChain g common.header.number.toNat side.reverse works

theorem moved_blocks (hbranch : BranchesAt g l side common) (works : ExtTreeMap String Nat) :
    (movedTo g side common works).blocks = l.reverse := by
  rw [exchangedChain_blocks, hbranch.path_eq, List.reverse_append, List.reverse_reverse]

/-- The canonical blocks above the branching point. -/
abbrev demotedBlocks (g : ChainState) (common : Block) : List Block :=
  g.blocks.drop (common.header.number.toNat + 1)

theorem side_nodup (hl : KnownPath g l) (hbranch : BranchesAt g l side common) :
    (side.reverse.map Block.hash).Nodup := by
  have hnames := hl.nodup_names
  rw [hbranch.path_eq, List.map_append] at hnames
  rw [List.map_reverse, List.nodup_reverse]
  exact (List.nodup_append.mp hnames).1

theorem demoted_nodup (hg : Represents P D g) :
    ((demotedBlocks g common).map Block.hash).Nodup := by
  have hnames := hg.chain.nodup_names
  rw [List.map_reverse, List.nodup_reverse] at hnames
  exact hnames.sublist ((List.drop_sublist _ _).map _)

theorem demoted_mem (h : blk ∈ demotedBlocks g common) : blk ∈ g.blocks :=
  List.mem_of_mem_drop h

section Lookups

variable (works : ExtTreeMap String Nat) {h : String}

theorem moved_canonIndex_side (hl : KnownPath g l) (hbranch : BranchesAt g l side common)
    (hblk : blk ∈ side) :
    (movedTo g side common works).canonIndex[blk.hash]? = some blk.header.number := by
  rw [exchangedChain_canonIndex]
  exact getElem?_foldl_insert_of_mem Block.hash (fun b => b.header.number) _ _
    (side_nodup hl hbranch) (List.mem_reverse.mpr hblk)

theorem moved_canonIndex_demoted (hside : h ∉ side.map Block.hash)
    (hdemoted : h ∈ (demotedBlocks g common).map Block.hash) :
    (movedTo g side common works).canonIndex[h]? = none := by
  rw [exchangedChain_canonIndex,
    getElem?_foldl_insert_of_not_mem Block.hash _ _ _ (by simpa using hside)]
  exact getElem?_foldl_erase_of_mem Block.hash _ _ hdemoted

theorem moved_canonIndex_kept (hside : h ∉ side.map Block.hash)
    (hdemoted : h ∉ (demotedBlocks g common).map Block.hash) :
    (movedTo g side common works).canonIndex[h]? = g.canonIndex[h]? := by
  rw [exchangedChain_canonIndex,
    getElem?_foldl_insert_of_not_mem Block.hash _ _ _ (by simpa using hside)]
  exact getElem?_foldl_erase_of_not_mem Block.hash _ _ hdemoted

theorem moved_sideBlocks_side (hside : h ∈ side.map Block.hash) :
    (movedTo g side common works).sideBlocks[h]? = none := by
  rw [exchangedChain_sideBlocks]
  exact getElem?_foldl_erase_of_mem Block.hash _ _ (by simpa using hside)

theorem moved_sideBlocks_demoted (hg : Represents P D g) (hside : blk.hash ∉ side.map Block.hash)
    (hdemoted : blk ∈ demotedBlocks g common) :
    (movedTo g side common works).sideBlocks[blk.hash]? = some blk := by
  rw [exchangedChain_sideBlocks,
    getElem?_foldl_erase_of_not_mem Block.hash _ _ (by simpa using hside)]
  exact getElem?_foldl_insert_of_mem Block.hash (fun b => b) _ _ hg.demoted_nodup hdemoted

theorem moved_sideBlocks_kept (hside : h ∉ side.map Block.hash)
    (hdemoted : h ∉ (demotedBlocks g common).map Block.hash) :
    (movedTo g side common works).sideBlocks[h]? = g.sideBlocks[h]? := by
  rw [exchangedChain_sideBlocks,
    getElem?_foldl_erase_of_not_mem Block.hash _ _ (by simpa using hside)]
  exact getElem?_foldl_insert_of_not_mem Block.hash _ _ _ hdemoted

end Lookups

/-- A canonical name is not the name of a side block of the path. -/
theorem not_mem_side_of_mem (hg : Represents P D g) (hbranch : BranchesAt g l side common)
    (hmem : blk ∈ g.blocks) : blk.hash ∉ side.map Block.hash := by
  intro hside
  rcases List.mem_map.mp hside with ⟨x, hx, hname⟩
  have hcanon := (hbranch.side_mem x hx).2
  rw [hname] at hcanon
  exact hcanon (hg.mem_canonIndex_iff.mpr ⟨blk, hmem, rfl⟩)

/-- A kept canonical block is below the branching point. -/
theorem mem_take_of_kept (hmem : blk ∈ g.blocks)
    (hdemoted : blk.hash ∉ (demotedBlocks g common).map Block.hash) :
    blk ∈ g.blocks.take (common.header.number.toNat + 1) := by
  rw [← List.take_append_drop (common.header.number.toNat + 1) g.blocks,
    List.mem_append] at hmem
  cases hmem with
  | inl h => exact h
  | inr h => exact absurd (List.mem_map_of_mem h) hdemoted

/-- A canonical block of the path is not demoted. -/
theorem not_mem_demoted_of_mem_take (hg : Represents P D g)
    (hmem : blk ∈ g.blocks.take (common.header.number.toNat + 1)) :
    blk.hash ∉ (demotedBlocks g common).map Block.hash := by
  intro hdemoted
  have hnames := hg.chain.nodup_names
  rw [List.map_reverse, List.nodup_reverse,
    ← List.take_append_drop (common.header.number.toNat + 1) g.blocks, List.map_append] at hnames
  exact (List.nodup_append.mp hnames).2.2 _ (List.mem_map_of_mem hmem) _ hdemoted rfl

/-- The exchange changes which blocks are canonical, not which are known. -/
theorem moved_resolveBlock (hg : Represents P D g) (hl : KnownPath g l)
    (hbranch : BranchesAt g l side common) (works : ExtTreeMap String Nat) :
    resolveBlock (movedTo g side common works) = resolveBlock g := by
  funext h
  by_cases hside : h ∈ side.map Block.hash
  · rcases List.mem_map.mp hside with ⟨blk, hblk, rfl⟩
    have hmem : blk ∈ l := by
      rw [hbranch.path_eq]
      exact List.mem_append_left _ hblk
    have hold : resolveBlock g blk.hash = some blk := hl.lookup hmem
    rw [hold]
    unfold resolveBlock
    rw [moved_canonIndex_side works hl hbranch hblk]
    dsimp only
    rw [moved_blocks hbranch]
    exact hg.getElem?_reverse hl hmem
  · by_cases hdemoted : h ∈ (demotedBlocks g common).map Block.hash
    · rcases List.mem_map.mp hdemoted with ⟨blk, hblk, rfl⟩
      rw [hg.resolve_of_mem (demoted_mem hblk)]
      unfold resolveBlock
      rw [moved_canonIndex_demoted works hside hdemoted]
      exact moved_sideBlocks_demoted works hg hside hblk
    · unfold resolveBlock
      rw [moved_canonIndex_kept works hside hdemoted]
      cases hslot : g.canonIndex[h]? with
      | none => exact moved_sideBlocks_kept works hside hdemoted
      | some n =>
          rcases (hg.index h n).mp hslot with ⟨blk, hmem, rfl, rfl⟩
          have hkept := mem_take_of_kept hmem hdemoted
          have hinl : blk ∈ l := by
            rw [hbranch.path_eq]
            exact List.mem_append_right _ (List.mem_reverse.mpr hkept)
          dsimp only
          rw [moved_blocks hbranch, hg.getElem?_reverse hl hinl, hg.blocks_getElem? hmem]

theorem moved_index (hg : Represents P D g) (hl : KnownPath g l)
    (hbranch : BranchesAt g l side common) (works : ExtTreeMap String Nat) (h : String)
    (n : UInt64) :
    (movedTo g side common works).canonIndex[h]? = some n ↔
      exists blk, blk ∈ (movedTo g side common works).blocks ∧ blk.hash = h ∧
        blk.header.number = n := by
  rw [moved_blocks hbranch]
  constructor
  · intro hslot
    by_cases hside : h ∈ side.map Block.hash
    · rcases List.mem_map.mp hside with ⟨blk, hblk, rfl⟩
      rw [moved_canonIndex_side works hl hbranch hblk] at hslot
      refine ⟨blk, ?_, rfl, Option.some.inj hslot⟩
      rw [hbranch.path_eq, List.mem_reverse]
      exact List.mem_append_left _ hblk
    · by_cases hdemoted : h ∈ (demotedBlocks g common).map Block.hash
      · rw [moved_canonIndex_demoted works hside hdemoted] at hslot
        cases hslot
      · rw [moved_canonIndex_kept works hside hdemoted, hg.index] at hslot
        rcases hslot with ⟨blk, hmem, rfl, hn⟩
        refine ⟨blk, ?_, rfl, hn⟩
        rw [hbranch.path_eq, List.mem_reverse]
        exact List.mem_append_right _ (List.mem_reverse.mpr (mem_take_of_kept hmem hdemoted))
  · rintro ⟨blk, hmem, rfl, rfl⟩
    rw [hbranch.path_eq, List.mem_reverse, List.mem_append, List.mem_reverse] at hmem
    cases hmem with
    | inl hblk => exact moved_canonIndex_side works hl hbranch hblk
    | inr hkept =>
        have hblocks : blk ∈ g.blocks := List.mem_of_mem_take hkept
        rw [moved_canonIndex_kept works (hg.not_mem_side_of_mem hbranch hblocks)
          (hg.not_mem_demoted_of_mem_take hkept)]
        exact hg.canonIndex_of_mem hblocks

theorem moved_apart (hg : Represents P D g) (works : ExtTreeMap String Nat) (h : String)
    (hmem : h ∈ (movedTo g side common works).canonIndex) :
    h ∉ (movedTo g side common works).sideBlocks := by
  rw [ExtTreeMap.mem_iff_isSome_getElem?] at hmem ⊢
  by_cases hside : h ∈ side.map Block.hash
  · rw [moved_sideBlocks_side works hside]
    simp
  · by_cases hdemoted : h ∈ (demotedBlocks g common).map Block.hash
    · rw [moved_canonIndex_demoted works hside hdemoted] at hmem
      cases hmem
    · rw [moved_canonIndex_kept works hside hdemoted,
        ← ExtTreeMap.mem_iff_isSome_getElem?] at hmem
      rw [moved_sideBlocks_kept works hside hdemoted, ← ExtTreeMap.mem_iff_isSome_getElem?]
      exact hg.apart h hmem

/-- Moving the canonical chain to a known path keeps the representation. -/
theorem moved (hg : Represents P D g) (hl : KnownPath g l)
    (hbranch : BranchesAt g l side common) (works : ExtTreeMap String Nat) :
    Represents P D (movedTo g side common works) := by
  have hknown := hg.moved_resolveBlock hl hbranch works
  have hseen : forall h, h ∈ (movedTo g side common works).seenBlocks ↔
      h ∈ side.map Block.hash ∨ h ∈ g.seenBlocks := by
    intro h
    rw [exchangedChain_seenBlocks, mem_foldl_insert_set Block.hash]
    simp
  constructor
  · unfold KnownPath
    rw [hknown, moved_blocks hbranch, List.reverse_reverse]
    exact hl
  · rw [hknown]
    exact hg.rooted
  · exact hg.moved_index hl hbranch works
  · exact hg.moved_apart works
  · unfold KnownPath
    rw [hknown]
    exact hg.linked
  · rw [hknown]
    exact hg.timely
  · rw [hknown]
    exact hg.candidate
  · intro h hh
    rw [hknown]
    cases (hseen h).mp hh with
    | inl hside =>
        rcases List.mem_map.mp hside with ⟨x, hx, rfl⟩
        have hmem : x ∈ l := by
          rw [hbranch.path_eq]
          exact List.mem_append_left _ hx
        have hlookup : resolveBlock g x.hash = some x := hl.lookup hmem
        rw [hlookup]
        simp
    | inr hold => exact hg.seen_known hold
  · intro h known hh
    rw [hknown] at hh
    cases hg.known_seen hh with
    | inl hold => exact Or.inl ((hseen h).mpr (Or.inr hold))
    | inr hgenesis => exact Or.inr hgenesis
  · cases hg.guarded with
    | inl hold => exact Or.inl ((hseen _).mpr (Or.inr hold))
    | inr havoids => exact Or.inr havoids
  · intro key entry hwaits
    exact hg.waiting ((Waits.congr (exchangedChain_orphanPool _ _ _ _)).mp hwaits)

end Represents

end VisionCore
