import VisionCore.Chain.Accept
import VisionCore.Foundation.Outcome

/-!
# What acceptance can do

One inversion lemma for each stage that changes the state: the database write,
the genesis case, lane A, the reorg entry point, lane B, and the pipeline as a
whole.  The invariants of the chain state are derived from these.
-/

namespace VisionCore

open Foundation

/-!
# Database writes
-/

/-- The host after one database write. -/
def Host.wrote (host : Host) : Host :=
  { host with writes := host.writes + 1 }

inductive WriteCase (host : Host) (db : Db) (batch : List DbOp) :
    Except StorageError Unit × Db × Host -> Prop where
  | written : host.writeOk host.writes = true ->
      WriteCase host db batch (.ok (), db.applyBatch batch, host.wrote)
  | failed : host.writeOk host.writes = false ->
      WriteCase host db batch (.error .writeFailed, db, host.wrote)

theorem Host.write_cases (host : Host) (db : Db) (batch : List DbOp) :
    WriteCase host db batch (host.write db batch) := by
  unfold Host.write
  cases h : host.writeOk host.writes with
  | true => exact WriteCase.written h
  | false => exact WriteCase.failed h

/-!
# The genesis case
-/

/-- The state after genesis has been written and pushed. -/
def genesisApplied (g : ChainState) (blk : Block) : ChainState :=
  pushCanonical
    { g with
      db := g.db.applyBatch (canonicalEntry blk ++ tipEntry blk.header.number blk.hash) }
    blk blk.header.difficulty.toNat

inductive GenesisCase (host : Host) (g : ChainState) (blk : Block) : Step -> Prop where
  | rejected {reason : RejectReason} {host' : Host} :
      GenesisCase host g blk (rejectStep host' g reason)
  | applied : blk.hash = genesisHash -> g.blocks = [] ->
      host.writeOk host.writes = true ->
      GenesisCase host g blk
        { result := .canonExtension 0
          chain := genesisApplied g blk
          host := host.wrote
          promote := none }

theorem acceptGenesis_cases (host : Host) (g : ChainState) (blk : Block) :
    GenesisCase host g blk (acceptGenesis host g blk) := by
  unfold acceptGenesis
  by_cases hhash : blk.hash = genesisHash
  · rw [if_neg (not_not.mpr hhash)]
    by_cases hempty : g.blocks = []
    · have hif : ¬(!g.blocks.isEmpty) = true := by simp [hempty]
      rw [if_neg hif]
      unfold persistCanonicalExtension
      have hwrite := Host.write_cases host g.db
        (canonicalEntry blk ++ tipEntry blk.header.number blk.hash)
      generalize host.write g.db _ = written at hwrite
      cases hwrite with
      | written hok => exact GenesisCase.applied hhash hempty hok
      | failed _ => exact GenesisCase.rejected
    · have hif : (!g.blocks.isEmpty) = true := by simp [hempty]
      rw [if_pos hif]
      exact GenesisCase.rejected
  · rw [if_pos hhash]
    exact GenesisCase.rejected

/-!
# Lane A
-/

/-- The state after lane A, with the database that the snapshot leaves. -/
def extendedChain (g : ChainState) (blk : Block) (candidateCw : Nat)
    (state : TxExecutionState) (db : Db) : ChainState :=
  { pushCanonical { g with balances := state.balances, nonces := state.nonces } blk candidateCw
    with db := db }

@[simp] theorem extendedChain_blocks (g : ChainState) (blk : Block) (candidateCw : Nat)
    (state : TxExecutionState) (db : Db) :
    (extendedChain g blk candidateCw state db).blocks = g.blocks ++ [blk] := rfl

inductive ExtendCase (P : Platform) (host : Host) (g : ChainState) (blk : Block)
    (candidateCw : Nat) (state : TxExecutionState) : Step -> Prop where
  | writeFailed : host.writeOk host.writes = false ->
      ExtendCase P host g blk candidateCw state
        (rejectStep host.wrote g (.canonicalPersistenceFailed .writeFailed))
  | extended {saved : Except SnapshotError Unit × Db × Host} :
      host.writeOk host.writes = true ->
      maybeSaveSnapshot P host.wrote
        (extendedChain g blk candidateCw state
          (g.db.applyBatch (canonicalEntry blk ++ tipEntry blk.header.number blk.hash))) =
        saved ->
      ExtendCase P host g blk candidateCw state
        { result := .canonExtension blk.header.number
          chain := extendedChain g blk candidateCw state saved.2.1
          host := saved.2.2
          promote := some blk.hash }

theorem extendCanonical_cases (P : Platform) (host : Host) (g : ChainState) (blk : Block)
    (candidateCw : Nat) (state : TxExecutionState) :
    ExtendCase P host g blk candidateCw state
      (extendCanonical P host g blk candidateCw state) := by
  unfold extendCanonical persistCanonicalExtension
  have hwrite := Host.write_cases host g.db
    (canonicalEntry blk ++ tipEntry blk.header.number blk.hash)
  generalize host.write g.db _ = written at hwrite
  cases hwrite with
  | written hok => exact ExtendCase.extended hok rfl
  | failed hfail => exact ExtendCase.writeFailed hfail

/-!
# The reorg entry point
-/

/-- The recovery record of an exchange. -/
def reorgRecovery (P : Platform) (demoted segment : List Block) : ReorgRecovery :=
  { displacedTxs := displacedTxs P demoted segment
    winningTxIds := (winningTxIds P segment).toList }

/-- The batch written by a reorg to the chain ending in `tip`. -/
def reorgBatch (blocks : List Block) (tip : Block) (stale : List UInt64) : List DbOp :=
  blocks.flatMap canonicalEntry ++ stale.map (fun h => DbOp.remove (.height h)) ++
    tipEntry tip.header.number tip.hash

/-- The state after an exchange has been written. -/
def reorganisedChain (raised : ChainState) (newTip : Block) (plan : ReorgPlan) (db : Db) :
    ChainState :=
  { raised with
    balances := plan.state.balances
    nonces := plan.state.nonces
    cachedStateRoot := some (newTip.header.number, plan.stateRoot)
    db := db }

inductive ReorgCase (P : Platform) (host : Host) (g : ChainState) (newTip : Block) :
    Option ReorgRecovery × ChainState × Host -> Prop where
  | aborted {reason : ReorgAbort} : planReorg P g newTip = .error (.err reason) ->
      ReorgCase P host g newTip (none, g, host.note (.aborted reason))
  | emptyChain {plan : ReorgPlan} {raised : ChainState} {demoted : List Block} :
      exchangeBranches P g plan = .ok (raised, demoted) -> raised.blocks = [] ->
      ReorgCase P host g newTip
        (none, g, host.note (.aborted (.persistence .emptyCanonicalChain)))
  | writeFailed : host.writeOk host.writes = false ->
      ReorgCase P host g newTip
        (none, g, host.wrote.note (.aborted (.persistence .writeFailed)))
  | exchanged {plan : ReorgPlan} {raised : ChainState} {demoted : List Block} {tip : Block}
      {firstStale : UInt64} :
      planReorg P g newTip = .ok plan ->
      exchangeBranches P g plan = .ok (raised, demoted) ->
      raised.blocks.getLast? = some tip ->
      addU64 P tip.header.number 1 = .ok firstStale ->
      host.writeOk host.writes = true ->
      ReorgCase P host g newTip
        (some (reorgRecovery P demoted plan.segment),
          reorganisedChain raised newTip plan
            (g.db.applyBatch
              (reorgBatch raised.blocks tip (heightRange firstStale g.currentHeight))),
          host.wrote.note (.complete plan.commonHeight newTip.header.number))

theorem tryReorg_cases {P : Platform} {host : Host} {g : ChainState} {newTip : Block}
    {out : Option ReorgRecovery × ChainState × Host}
    (hrun : tryReorg P host g newTip = .ok out) : ReorgCase P host g newTip out := by
  unfold tryReorg at hrun
  cases hplan : planReorg P g newTip with
  | error stop =>
      rw [hplan] at hrun
      cases stop with
      | fault f => cases hrun
      | err reason =>
          cases hrun
          exact ReorgCase.aborted hplan
  | ok plan =>
      rw [hplan] at hrun
      rcases bind_eq_ok.mp hrun with ⟨⟨raised, demoted⟩, hexchange, hrun⟩
      rcases bind_eq_ok.mp hrun with ⟨persisted, hpersist, hrun⟩
      unfold persistCanonicalReorg at hpersist
      cases htip : raised.blocks.getLast? with
      | none =>
          rw [htip] at hpersist
          cases hpersist
          cases hrun
          exact ReorgCase.emptyChain hexchange (List.getLast?_eq_none_iff.mp htip)
      | some tip =>
          rw [htip] at hpersist
          rcases bind_eq_ok.mp hpersist with ⟨firstStale, hstale, hwritten⟩
          have hwrite := Host.write_cases host g.db
            (reorgBatch raised.blocks tip (heightRange firstStale g.currentHeight))
          have hpersisted :
              host.write g.db
                (reorgBatch raised.blocks tip (heightRange firstStale g.currentHeight)) =
                persisted := by
            simpa [reorgBatch, List.map_map, Function.comp_def, pure, Except.pure] using hwritten
          rw [hpersisted] at hwrite
          cases hwrite with
          | written hok =>
              cases hrun
              exact ReorgCase.exchanged hplan hexchange htip hstale hok
          | failed hfail =>
              cases hrun
              exact ReorgCase.writeFailed hfail

/-!
# Lane B
-/

/-- The state once a block is recorded on its branch. -/
def sideRecorded (g : ChainState) (blk : Block) (candidateCw : Nat) : ChainState :=
  recordSideBlock
    { g with db := g.db.applyBatch [.insert (.block blk.hash) (.block blk)] } blk candidateCw

inductive SideCase (P : Platform) (host : Host) (g : ChainState) (blk : Block)
    (tipCw candidateCw : Nat) : Step -> Prop where
  | writeFailed : host.writeOk host.writes = false ->
      SideCase P host g blk tipCw candidateCw
        (rejectStep host.wrote g (.sideChainPersistenceFailed .writeFailed))
  | stored : host.writeOk host.writes = true -> candidateCw ≤ tipCw ->
      SideCase P host g blk tipCw candidateCw
        { result := .sideChain blk.height
          chain := sideRecorded g blk candidateCw
          host := host.wrote
          promote := some blk.hash }
  | notReorganised {g' : ChainState} {host' : Host} :
      host.writeOk host.writes = true -> tipCw < candidateCw ->
      tryReorg P host.wrote (sideRecorded g blk candidateCw) blk = .ok (none, g', host') ->
      SideCase P host g blk tipCw candidateCw
        { result := .sideChain blk.height
          chain := g'
          host := host'
          promote := some blk.hash }
  | reorganised {recovery : ReorgRecovery} {g' : ChainState} {host' : Host} :
      host.writeOk host.writes = true -> tipCw < candidateCw ->
      tryReorg P host.wrote (sideRecorded g blk candidateCw) blk =
        .ok (some recovery, g', host') ->
      SideCase P host g blk tipCw candidateCw
        { result := .canonExtension blk.height
          chain := { g' with pendingReorgRecovery := some recovery }
          host := host'
          promote := some blk.hash }

theorem storeSideChain_cases {P : Platform} {host : Host} {g : ChainState} {blk : Block}
    {tipCw candidateCw : Nat} {step : Step}
    (hrun : storeSideChain P host g blk tipCw candidateCw = .ok step) :
    SideCase P host g blk tipCw candidateCw step := by
  unfold storeSideChain storeBlock at hrun
  have hwrite := Host.write_cases host g.db [.insert (.block blk.hash) (.block blk)]
  generalize host.write g.db _ = written at hwrite hrun
  cases hwrite with
  | failed hfail =>
      cases hrun
      exact SideCase.writeFailed hfail
  | written hok =>
      by_cases hwork : candidateCw > tipCw
      · simp only [if_pos hwork] at hrun
        rcases bind_eq_ok.mp hrun with ⟨⟨recovery, g', host'⟩, hreorg, hrun⟩
        cases recovery with
        | none =>
            cases hrun
            exact SideCase.notReorganised hok hwork hreorg
        | some recovery =>
            cases hrun
            exact SideCase.reorganised hok hwork hreorg
      · simp only [if_neg hwork] at hrun
        cases hrun
        exact SideCase.stored hok (Nat.le_of_not_lt hwork)

/-!
# The pipeline
-/

/-- A block that reaches the parent lookup. -/
structure Offered (P : Platform) (g : ChainState) (blk : Block) : Prop where
  structure_ok : checkStructure P blk = .ok ()
  fresh : blk.hash ∉ g.seenBlocks
  number_ne : blk.header.number ≠ 0

def ParentKnown (g : ChainState) (blk : Block) : Prop :=
  blk.header.parentHash ∈ g.canonIndex ∨ blk.header.parentHash ∈ g.sideBlocks

/-- A block that has passed every stage, with its post-state and its work. -/
structure Vetted (P : Platform) (now : UInt64) (g : ChainState) (blk : Block)
    (candidateCw : Nat) (state : TxExecutionState) : Prop extends Offered P g blk where
  parent : ParentKnown g blk
  work : addU128 P (g.workOf blk.header.parentHash) blk.header.difficulty.toNat = .ok candidateCw
  valid : validateAgainstParent P now g blk = .ok state

inductive AcceptCase (P : Platform) (host : Host) (g : ChainState) (blk : Block)
    (sourcePeer : Option String) : Step -> Prop where
  | malformed {reason : RejectReason} : checkStructure P blk = .error reason ->
      AcceptCase P host g blk sourcePeer (rejectStep host g reason)
  | duplicate : blk.hash ∈ g.seenBlocks ->
      AcceptCase P host g blk sourcePeer (rejectStep host g (.duplicateBlock blk.hash))
  | genesis : checkStructure P blk = .ok () -> blk.hash ∉ g.seenBlocks ->
      blk.header.number = 0 ->
      AcceptCase P host g blk sourcePeer (acceptGenesis host g blk)
  | orphaned : Offered P g blk -> ¬ParentKnown g blk ->
      AcceptCase P host g blk sourcePeer
        { result := .storedOrphan blk.hash
          chain := addOrphan host.now g blk (sourcePeer.getD "anon")
          host := host.tick
          promote := none }
  | invalid {reason : RejectReason} : Offered P g blk -> ParentKnown g blk ->
      validateAgainstParent P host.now g blk = .error (.err reason) ->
      AcceptCase P host g blk sourcePeer (rejectStep host.tick g reason)
  | extended {candidateCw : Nat} {state : TxExecutionState} :
      Vetted P host.now g blk candidateCw state -> blk.header.parentHash = g.tipHash ->
      AcceptCase P host g blk sourcePeer (extendCanonical P host.tick g blk candidateCw state)
  | side {candidateCw : Nat} {state : TxExecutionState} {step : Step} :
      Vetted P host.now g blk candidateCw state -> blk.header.parentHash ≠ g.tipHash ->
      storeSideChain P host.tick g blk (g.workOf g.tipHash) candidateCw = .ok step ->
      AcceptCase P host g blk sourcePeer step

/-- Without write failures a block is rejected by one of the checks. -/
theorem AcceptCase.refused {P : Platform} {host : Host} {g : ChainState} {blk : Block}
    {sourcePeer : Option String} {step : Step} {reason : RejectReason}
    (h : AcceptCase P host g blk sourcePeer step) (hwrites : forall i, host.writeOk i = true)
    (hresult : step.result = .rejected reason) :
    (exists reason, checkStructure P blk = .error reason) ∨ blk.hash ∈ g.seenBlocks ∨
      blk.header.number = 0 ∨
      (ParentKnown g blk ∧
        exists reason, validateAgainstParent P host.now g blk = .error (.err reason)) := by
  cases h with
  | malformed hstructure => exact Or.inl ⟨_, hstructure⟩
  | duplicate hseen => exact Or.inr (Or.inl hseen)
  | genesis _ _ hnumber => exact Or.inr (Or.inr (Or.inl hnumber))
  | orphaned _ _ => cases hresult
  | invalid _ hknown hinvalid => exact Or.inr (Or.inr (Or.inr ⟨hknown, _, hinvalid⟩))
  | @extended candidateCw post _ _ =>
      have hcase := extendCanonical_cases P host.tick g blk candidateCw post
      generalize extendCanonical P host.tick g blk candidateCw post = step at hcase hresult
      cases hcase with
      | writeFailed hfail => exact absurd hfail (by simp [Host.tick, hwrites])
      | extended _ _ => cases hresult
  | side _ _ hstored =>
      cases storeSideChain_cases hstored with
      | writeFailed hfail => exact absurd hfail (by simp [Host.tick, hwrites])
      | stored _ _ => cases hresult
      | notReorganised _ _ _ => cases hresult
      | reorganised _ _ _ => cases hresult

theorem not_parentKnown_iff {g : ChainState} {blk : Block} :
    (!g.canonIndex.contains blk.header.parentHash &&
      !g.sideBlocks.contains blk.header.parentHash) = true ↔ ¬ParentKnown g blk := by
  unfold ParentKnown
  rw [← Std.ExtTreeMap.contains_iff_mem, ← Std.ExtTreeMap.contains_iff_mem]
  cases g.canonIndex.contains blk.header.parentHash <;>
    cases g.sideBlocks.contains blk.header.parentHash <;> simp

theorem acceptBlock_cases {P : Platform} {host : Host} {g : ChainState} {blk : Block}
    {sourcePeer : Option String} {step : Step}
    (hrun : acceptBlock P host g blk sourcePeer = .ok step) :
    AcceptCase P host g blk sourcePeer step := by
  unfold acceptBlock at hrun
  cases hstructure : checkStructure P blk with
  | error reason =>
      rw [hstructure] at hrun
      cases hrun
      exact AcceptCase.malformed hstructure
  | ok _ =>
      rw [hstructure] at hrun
      by_cases hseen : g.seenBlocks.contains blk.hash = true
      · simp only [if_pos hseen] at hrun
        cases hrun
        exact AcceptCase.duplicate hseen
      · simp only [if_neg hseen] at hrun
        by_cases hnumber : blk.header.number = 0
        · simp only [if_pos hnumber] at hrun
          cases hrun
          exact AcceptCase.genesis hstructure hseen hnumber
        · simp only [if_neg hnumber] at hrun
          have hoffered : Offered P g blk := ⟨hstructure, hseen, hnumber⟩
          rcases bind_eq_ok.mp hrun with ⟨candidateCw, hwork, hrun⟩
          by_cases hunknown : ¬ParentKnown g blk
          · simp only [if_pos (not_parentKnown_iff.mpr hunknown)] at hrun
            cases hrun
            exact AcceptCase.orphaned hoffered hunknown
          · simp only [if_neg (fun h => hunknown (not_parentKnown_iff.mp h))] at hrun
            have hknown : ParentKnown g blk := not_not.mp hunknown
            cases hvalid : validateAgainstParent P host.now g blk with
            | error stop =>
                rw [hvalid] at hrun
                cases stop with
                | fault f => cases hrun
                | err reason =>
                    cases hrun
                    exact AcceptCase.invalid hoffered hknown hvalid
            | ok state =>
                rw [hvalid] at hrun
                have hvetted : Vetted P host.now g blk candidateCw state :=
                  { toOffered := hoffered, parent := hknown, work := hwork, valid := hvalid }
                by_cases htip : blk.header.parentHash = g.tipHash
                · simp only [if_pos htip] at hrun
                  cases hrun
                  exact AcceptCase.extended hvetted htip
                · simp only [if_neg htip] at hrun
                  exact AcceptCase.side hvetted htip hrun

end VisionCore
