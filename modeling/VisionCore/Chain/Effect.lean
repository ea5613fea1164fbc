import VisionCore.Chain.Branches

/-!
# The effect of a step on a represented chain

On a chain state that is represented, the cases of `Transition` can be stated in
terms of paths: lane A lengthens the canonical path, lane B adds a block beside
it, and a reorg moves the canonical chain to the path of the new block.
-/

namespace VisionCore

open Std
open Foundation

/-- A block that acceptance has vetted, with its place in the lineage. -/
structure Admitted (P : Platform) (D : Block -> Prop) (host : Host) (g : ChainState)
    (blk parent : Block) (rest : List Block) (candidateCw : Nat) (state : TxExecutionState) :
    Prop where
  joins : Represents.Joins P D g blk parent rest
  vetted : Vetted P host.now g blk candidateCw state

/-- The state after a reorg of `g`, in which the new block is recorded already. -/
def reorgApplied (P : Platform) (g : ChainState) (newTip : Block) (side : List Block)
    (common : Block) (works : ExtTreeMap String Nat) (plan : ReorgPlan) (db : Db) :
    ChainState :=
  { reorganisedChain (Represents.movedTo g side common works) newTip plan db with
    pendingReorgRecovery :=
      some (reorgRecovery P (Represents.demotedBlocks g common) side.reverse) }

/-- The works that a reorg records along the side part of a path. -/
def BranchWorks (P : Platform) (g : ChainState) (side : List Block) (common : Block)
    (works : ExtTreeMap String Nat) : Prop :=
  exists cw,
    ancestorWork P g common.hash (g.blocks.take (common.header.number.toNat + 1)) = .ok cw ∧
      segmentWork P cw g.cumulativeWork side.reverse = .ok works

/-- The database after a reorg to `newTip`, whose path is `l`. -/
def ReorgSaved (g : ChainState) (l : List Block) (newTip : Block) (db : Db) : Prop :=
  exists firstStale : UInt64, firstStale.toNat = newTip.header.number.toNat + 1 ∧
    db = g.db.applyBatch (reorgBatch l.reverse newTip (heightRange firstStale g.currentHeight))

/-- A reorg to the new block: its path, its plan, and what it writes. -/
structure Moves (P : Platform) (D : Block -> Prop) (host : Host) (g : ChainState)
    (blk parent common : Block) (rest side : List Block) (candidateCw : Nat)
    (state : TxExecutionState) (works : ExtTreeMap String Nat) (plan : ReorgPlan) (db : Db) :
    Prop where
  admitted : Admitted P D host g blk parent rest candidateCw state
  not_tip : blk.header.parentHash ≠ g.tipHash
  heavier : g.workOf g.tipHash < candidateCw
  recorded : Represents P D (sideRecorded g blk candidateCw)
  path : KnownPath (sideRecorded g blk candidateCw) (blk :: parent :: rest)
  branches : BranchesAt (sideRecorded g blk candidateCw) (blk :: parent :: rest) side common
  planned : Planned P (sideRecorded g blk candidateCw) blk plan
  segment_eq : plan.segment = side.reverse
  hash_eq : plan.commonHash = common.hash
  height_eq : plan.commonHeight = common.header.number
  works_eq : BranchWorks P (sideRecorded g blk candidateCw) side common works
  saved : ReorgSaved (sideRecorded g blk candidateCw) (blk :: parent :: rest) blk db

inductive Effect (P : Platform) (D : Block -> Prop) (host : Host) (g : ChainState) (blk : Block)
    (sourcePeer : Option String) : Step -> Prop where
  | rejected {reason : RejectReason} {host' : Host} : host.Follows host' [] ->
      Effect P D host g blk sourcePeer (rejectStep host' g reason)
  | orphaned {host' : Host} : Offered P g blk -> ¬ParentKnown g blk -> host.Follows host' [] ->
      Effect P D host g blk sourcePeer
        { result := .storedOrphan blk.hash
          chain := addOrphan host.now g blk (sourcePeer.getD "anon")
          host := host'
          promote := none }
  | extended {parent : Block} {rest : List Block} {candidateCw : Nat}
      {state : TxExecutionState} {db : Db} {host' : Host} :
      Admitted P D host g blk parent rest candidateCw state ->
      blk.header.parentHash = g.tipHash -> g.blocks.reverse = parent :: rest ->
      ExtensionSaved P g blk candidateCw state db -> host.Follows host' [] ->
      Effect P D host g blk sourcePeer
        { result := .canonExtension blk.header.number
          chain := extendedChain g blk candidateCw state db
          host := host'
          promote := some blk.hash }
  | recorded {parent : Block} {rest : List Block} {candidateCw : Nat}
      {state : TxExecutionState} {host' : Host} {events : List ReorgEvent} :
      Admitted P D host g blk parent rest candidateCw state ->
      blk.header.parentHash ≠ g.tipHash ->
      (candidateCw ≤ g.workOf g.tipHash ∧ events = []) ∨
        (tryReorg P host.tick.wrote (sideRecorded g blk candidateCw) blk =
          .ok (none, sideRecorded g blk candidateCw, host')) ->
      host.Follows host' events ->
      Effect P D host g blk sourcePeer
        { result := .sideChain blk.height
          chain := sideRecorded g blk candidateCw
          host := host'
          promote := some blk.hash }
  | moved {parent common : Block} {rest side : List Block} {candidateCw : Nat}
      {state : TxExecutionState} {works : ExtTreeMap String Nat} {plan : ReorgPlan} {db : Db}
      {host' : Host} :
      Moves P D host g blk parent common rest side candidateCw state works plan db ->
      host.Follows host' [.complete plan.commonHeight blk.header.number] ->
      Effect P D host g blk sourcePeer
        { result := .canonExtension blk.height
          chain :=
            reorgApplied P (sideRecorded g blk candidateCw) blk side common works plan db
          host := host'
          promote := some blk.hash }

namespace Represents

variable {P : Platform} {D : Block -> Prop} {host : Host} {g : ChainState} {blk : Block}
  {sourcePeer : Option String} {step : Step}

theorem recorded_path {parent : Block} {rest : List Block} (hg : Represents P D g)
    (hjoins : Joins P D g blk parent rest) (candidateCw : Nat) :
    KnownPath (sideRecorded g blk candidateCw) (blk :: parent :: rest) := by
  unfold KnownPath
  rw [hg.resolveBlock_recorded hjoins.unknown candidateCw]
  exact hjoins.path.put_new hjoins.unknown hjoins.parent_eq

theorem effect (hg : Represents P D g) (hnumbered : NumberedFrom P D) (hD : D blk)
    (h : Transition P host g blk sourcePeer step) : Effect P D host g blk sourcePeer step := by
  have hnow : host.now.toNat < 2 ^ 63 := host.clock_lt _
  cases h with
  | rejected hfollows => exact Effect.rejected hfollows
  | genesis _ _ hempty _ _ =>
      have hne := hg.chain.ne_nil
      rw [hempty] at hne
      exact absurd rfl hne
  | orphaned hoffered hunknown hfollows => exact Effect.orphaned hoffered hunknown hfollows
  | extended hvetted htip hsaved hfollows =>
      rcases hg.joins hD hnumbered hnow hvetted with ⟨parent, rest, hjoins⟩
      exact Effect.extended ⟨hjoins, hvetted⟩ htip (hg.tip_of_parent hjoins htip) hsaved hfollows
  | recorded hvetted htip hle hfollows =>
      rcases hg.joins hD hnumbered hnow hvetted with ⟨parent, rest, hjoins⟩
      exact Effect.recorded ⟨hjoins, hvetted⟩ htip (Or.inl ⟨hle, rfl⟩) hfollows
  | aborted hvetted htip _ hreorg hfollows =>
      rcases hg.joins hD hnumbered hnow hvetted with ⟨parent, rest, hjoins⟩
      exact Effect.recorded ⟨hjoins, hvetted⟩ htip (Or.inr hreorg) hfollows
  | @reorganised candidateCw _ plan raised demoted tip firstStale _ hvetted htip hlt hplan
      hexchange hlast hstale hfollows =>
      rcases hg.joins hD hnumbered hnow hvetted with ⟨parent, rest, hjoins⟩
      have hrecorded := hg.recorded hjoins candidateCw
      have hpath := hg.recorded_path hjoins candidateCw
      rcases hrecorded.branchesAt hpath with ⟨side, common, hbranch⟩
      have hplanned := planReorg_ok hplan
      rcases hrecorded.planned_eq hpath hbranch hplanned with ⟨hsegment, hhash, hheight⟩
      have hexchanged := exchangeBranches_ok hexchange
      rcases hexchanged.works with ⟨cw, works, hancestor, hworks, hraised⟩
      rw [hsegment, hheight] at hraised
      rw [hheight, hhash] at hancestor
      rw [hsegment] at hworks
      have hdemoted : demoted = demotedBlocks (sideRecorded g blk candidateCw) common := by
        rw [hexchanged.demoted_eq, hheight]
      have hblocks : raised.blocks = (blk :: parent :: rest).reverse := by
        rw [hraised]
        exact moved_blocks hbranch works
      have htipEq : tip = blk := by
        rw [hblocks, List.getLast?_reverse] at hlast
        exact (Option.some.inj hlast).symm
      have hstaleNat : firstStale.toNat = blk.header.number.toNat + 1 := by
        rw [← htipEq]
        refine addU64_one_toNat (n := raised.blocks.length) ?_ ?_ hstale
        · rw [htipEq, hblocks, List.length_reverse, hrecorded.number_eq hpath]
          exact Nat.lt_succ_self _
        · rw [hblocks, List.length_reverse]
          exact hrecorded.path_length_lt hpath
      have heffect : Effect P D host g blk sourcePeer _ := Effect.moved
        { admitted := ⟨hjoins, hvetted⟩
          not_tip := htip
          heavier := hlt
          recorded := hrecorded
          path := hpath
          branches := hbranch
          planned := hplanned
          segment_eq := hsegment
          hash_eq := hhash
          height_eq := hheight
          works_eq := ⟨cw, hancestor, hworks⟩
          saved := ⟨firstStale, hstaleNat, rfl⟩ } hfollows
      unfold reorgApplied at heffect
      rw [hdemoted, hsegment, hraised, htipEq, moved_blocks hbranch works]
      exact heffect

end Represents

/-!
# The representation along a run
-/

section Step

variable {P : Platform} {D : Block -> Prop} {host : Host} {g : ChainState} {blk : Block}
  {sourcePeer : Option String} {step : Step}

theorem Represents.addOrphan (hg : Represents P D g) (hD : D blk) (now : UInt64)
    (peer : String) : Represents P D (addOrphan now g blk peer) := by
  have hwaiting : forall {key : String} {entry : OrphanEntry},
      Waits (VisionCore.addOrphan now g blk peer) key entry ->
        D entry.1 ∧ entry.1.header.parentHash = key := by
    intro key entry hwaits
    rcases waits_addOrphan.mp hwaits with ⟨rfl, rfl⟩ | hold
    · exact ⟨hD, rfl⟩
    · exact hg.waiting (waits_pruneOldOrphans hold)
  rcases addOrphan_frame now g blk peer with ⟨pool, byHash, hframe⟩
  rw [hframe] at hwaiting ⊢
  exact hg.congr rfl rfl rfl rfl hwaiting

theorem Moves.represents {parent common : Block} {rest side : List Block} {candidateCw : Nat}
    {state : TxExecutionState} {works : ExtTreeMap String Nat} {plan : ReorgPlan} {db : Db}
    (h : Moves P D host g blk parent common rest side candidateCw state works plan db) :
    Represents P D
      (reorgApplied P (sideRecorded g blk candidateCw) blk side common works plan db) :=
  (h.recorded.moved h.path h.branches works).congr rfl rfl rfl rfl
    (h.recorded.moved h.path h.branches works).waiting

theorem Moves.known {parent common : Block} {rest side : List Block} {candidateCw : Nat}
    {state : TxExecutionState} {works : ExtTreeMap String Nat} {plan : ReorgPlan} {db : Db}
    (h : Moves P D host g blk parent common rest side candidateCw state works plan db) :
    resolveBlock (reorgApplied P (sideRecorded g blk candidateCw) blk side common works plan db) =
      resolveBlock (sideRecorded g blk candidateCw) :=
  h.recorded.moved_resolveBlock h.path h.branches works

theorem Moves.blocks {parent common : Block} {rest side : List Block} {candidateCw : Nat}
    {state : TxExecutionState} {works : ExtTreeMap String Nat} {plan : ReorgPlan} {db : Db}
    (h : Moves P D host g blk parent common rest side candidateCw state works plan db) :
    (reorgApplied P (sideRecorded g blk candidateCw) blk side common works plan db).blocks =
      (blk :: parent :: rest).reverse :=
  Represents.moved_blocks h.branches works

theorem Effect.represents (hg : Represents P D g) (hD : D blk)
    (h : Effect P D host g blk sourcePeer step) : Represents P D step.chain := by
  cases h with
  | rejected _ => exact hg
  | orphaned _ _ _ => exact hg.addOrphan hD _ _
  | extended hadmitted htip _ _ _ => exact hg.extended hadmitted.joins htip _ _ _
  | recorded hadmitted _ _ _ => exact hg.recorded hadmitted.joins _
  | moved hmoves _ => exact hmoves.represents

theorem Effect.follows (h : Effect P D host g blk sourcePeer step) :
    exists events, host.Follows step.host events := by
  cases h with
  | rejected hfollows => exact ⟨_, hfollows⟩
  | orphaned _ _ hfollows => exact ⟨_, hfollows⟩
  | extended _ _ _ _ hfollows => exact ⟨_, hfollows⟩
  | recorded _ _ _ hfollows => exact ⟨_, hfollows⟩
  | moved _ hfollows => exact ⟨_, hfollows⟩

/-!
# Known blocks after a step
-/

theorem addOrphan_known (now : UInt64) (g : ChainState) (blk : Block) (peer : String) :
    resolveBlock (addOrphan now g blk peer) = resolveBlock g ∧
      (addOrphan now g blk peer).cumulativeWork = g.cumulativeWork := by
  rcases addOrphan_frame now g blk peer with ⟨pool, byHash, hframe⟩
  rw [hframe]
  exact ⟨rfl, rfl⟩

theorem addOrphan_db (now : UInt64) (g : ChainState) (blk : Block) (peer : String) :
    (addOrphan now g blk peer).blocks = g.blocks ∧ (addOrphan now g blk peer).db = g.db := by
  rcases addOrphan_frame now g blk peer with ⟨pool, byHash, hframe⟩
  rw [hframe]
  exact ⟨rfl, rfl⟩

section Admission

variable {parent : Block} {rest : List Block} {candidateCw : Nat} {state : TxExecutionState}

theorem Admitted.extended_known (hg : Represents P D g)
    (h : Admitted P D host g blk parent rest candidateCw state)
    (htip : g.blocks.reverse = parent :: rest) (db : Db) :
    resolveBlock (extendedChain g blk candidateCw state db) =
      Store.put chainLineage (resolveBlock g) blk := by
  refine hg.resolveBlock_extended ?_ candidateCw state db
  have hlength := congrArg List.length htip
  rw [List.length_reverse, List.length_cons] at hlength
  rw [h.joins.number, hg.number_eq h.joins.path, hlength]

theorem Admitted.recorded_known (hg : Represents P D g)
    (h : Admitted P D host g blk parent rest candidateCw state) :
    resolveBlock (sideRecorded g blk candidateCw) =
      Store.put chainLineage (resolveBlock g) blk :=
  hg.resolveBlock_recorded h.joins.unknown candidateCw

end Admission

end Step

end VisionCore
