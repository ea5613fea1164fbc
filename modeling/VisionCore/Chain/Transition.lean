import VisionCore.Chain.Exchange

/-!
# The transitions of a chain state

`Transition` collects the inversion lemmas of the stages into one relation: what
one run of the pipeline returns, and in which state it leaves the chain.  The
invariants of the following modules are proved by cases on it.
-/

namespace VisionCore

open Std
open Foundation

/-!
# The host along a run
-/

/-- `host'` continues `host`, with `events` appended to the reorg log. -/
structure Host.Follows (host host' : Host) (events : List ReorgEvent) : Prop where
  clock : host'.clock = host.clock
  writeOk : host'.writeOk = host.writeOk
  reorgLog : host'.reorgLog = host.reorgLog ++ events

namespace Host.Follows

theorem refl (host : Host) : host.Follows host [] where
  clock := rfl
  writeOk := rfl
  reorgLog := (List.append_nil _).symm

theorem trans {host host' host'' : Host} {events events' : List ReorgEvent}
    (h : host.Follows host' events) (h' : host'.Follows host'' events') :
    host.Follows host'' (events ++ events') where
  clock := h'.clock.trans h.clock
  writeOk := h'.writeOk.trans h.writeOk
  reorgLog := by rw [h'.reorgLog, h.reorgLog, List.append_assoc]

theorem tick (host : Host) : host.Follows host.tick [] where
  clock := rfl
  writeOk := rfl
  reorgLog := (List.append_nil _).symm

theorem wrote (host : Host) : host.Follows host.wrote [] where
  clock := rfl
  writeOk := rfl
  reorgLog := (List.append_nil _).symm

theorem note (host : Host) (event : ReorgEvent) : host.Follows (host.note event) [event] where
  clock := rfl
  writeOk := rfl
  reorgLog := rfl

end Host.Follows

theorem Host.write_follows (host : Host) (db : Db) (batch : List DbOp) :
    host.Follows (host.write db batch).2.2 [] := by
  have hwrite := Host.write_cases host db batch
  generalize host.write db batch = written at hwrite
  cases hwrite with
  | written _ => exact Follows.wrote host
  | failed _ => exact Follows.wrote host

theorem writeSequence_follows (host : Host) (db : Db) (ops : List DbOp) :
    host.Follows (writeSequence host db ops).2.2 [] := by
  induction ops generalizing host db with
  | nil => exact Host.Follows.refl host
  | cons op rest ih =>
      have hfirst := Host.write_follows host db [op]
      unfold writeSequence
      split
      · rename_i heq
        rw [heq] at hfirst
        exact hfirst.trans (ih _ _)
      · rename_i heq
        rw [heq] at hfirst
        exact hfirst

theorem maybeSaveSnapshot_follows (P : Platform) (host : Host) (g : ChainState) :
    host.Follows (maybeSaveSnapshot P host g).2.2 [] := by
  unfold maybeSaveSnapshot
  dsimp only
  split
  · exact Host.Follows.refl host
  · unfold saveSnapshot
    split
    · exact Host.Follows.refl host
    · rename_i stateRoot _
      have hsequence := writeSequence_follows host g.db
        (snapshotEntries g g.currentHeight stateRoot)
      split
      · rename_i heq
        rw [heq] at hsequence
        exact hsequence
      · rename_i heq
        rw [heq] at hsequence
        exact hsequence

/-!
# The transition relation
-/

/-- The database after lane A: the extension's batch, then what the snapshot adds. -/
def ExtensionSaved (P : Platform) (g : ChainState) (blk : Block) (candidateCw : Nat)
    (state : TxExecutionState) (db : Db) : Prop :=
  exists host : Host,
    (maybeSaveSnapshot P host
      (extendedChain g blk candidateCw state
        (g.db.applyBatch (canonicalEntry blk ++ tipEntry blk.header.number blk.hash)))).2.1 = db

inductive Transition (P : Platform) (host : Host) (g : ChainState) (blk : Block)
    (sourcePeer : Option String) : Step -> Prop where
  | rejected {reason : RejectReason} {host' : Host} : host.Follows host' [] ->
      Transition P host g blk sourcePeer (rejectStep host' g reason)
  | genesis {host' : Host} : blk.hash = genesisHash -> blk.header.number = 0 ->
      g.blocks = [] -> blk.hash ∉ g.seenBlocks -> host.Follows host' [] ->
      Transition P host g blk sourcePeer
        { result := .canonExtension 0
          chain := genesisApplied g blk
          host := host'
          promote := none }
  | orphaned {host' : Host} : Offered P g blk -> ¬ParentKnown g blk ->
      host.Follows host' [] ->
      Transition P host g blk sourcePeer
        { result := .storedOrphan blk.hash
          chain := addOrphan host.now g blk (sourcePeer.getD "anon")
          host := host'
          promote := none }
  | extended {candidateCw : Nat} {state : TxExecutionState} {db : Db} {host' : Host} :
      Vetted P host.now g blk candidateCw state -> blk.header.parentHash = g.tipHash ->
      ExtensionSaved P g blk candidateCw state db -> host.Follows host' [] ->
      Transition P host g blk sourcePeer
        { result := .canonExtension blk.header.number
          chain := extendedChain g blk candidateCw state db
          host := host'
          promote := some blk.hash }
  | recorded {candidateCw : Nat} {state : TxExecutionState} {host' : Host} :
      Vetted P host.now g blk candidateCw state -> blk.header.parentHash ≠ g.tipHash ->
      candidateCw ≤ g.workOf g.tipHash -> host.Follows host' [] ->
      Transition P host g blk sourcePeer
        { result := .sideChain blk.height
          chain := sideRecorded g blk candidateCw
          host := host'
          promote := some blk.hash }
  | aborted {candidateCw : Nat} {state : TxExecutionState} {reason : ReorgAbort}
      {host' : Host} :
      Vetted P host.now g blk candidateCw state -> blk.header.parentHash ≠ g.tipHash ->
      g.workOf g.tipHash < candidateCw ->
      tryReorg P host.tick.wrote (sideRecorded g blk candidateCw) blk =
        .ok (none, sideRecorded g blk candidateCw, host') ->
      host.Follows host' [.aborted reason] ->
      Transition P host g blk sourcePeer
        { result := .sideChain blk.height
          chain := sideRecorded g blk candidateCw
          host := host'
          promote := some blk.hash }
  | reorganised {candidateCw : Nat} {state : TxExecutionState} {plan : ReorgPlan}
      {raised : ChainState} {demoted : List Block} {tip : Block} {firstStale : UInt64}
      {host' : Host} :
      Vetted P host.now g blk candidateCw state -> blk.header.parentHash ≠ g.tipHash ->
      g.workOf g.tipHash < candidateCw ->
      planReorg P (sideRecorded g blk candidateCw) blk = .ok plan ->
      exchangeBranches P (sideRecorded g blk candidateCw) plan = .ok (raised, demoted) ->
      raised.blocks.getLast? = some tip ->
      addU64 P tip.header.number 1 = .ok firstStale ->
      host.Follows host' [.complete plan.commonHeight blk.header.number] ->
      Transition P host g blk sourcePeer
        { result := .canonExtension blk.height
          chain :=
            { reorganisedChain raised blk plan
                ((sideRecorded g blk candidateCw).db.applyBatch
                  (reorgBatch raised.blocks tip (heightRange firstStale g.currentHeight)))
              with pendingReorgRecovery := some (reorgRecovery P demoted plan.segment) }
          host := host'
          promote := some blk.hash }

section Cases

variable {P : Platform} {host : Host} {g : ChainState} {blk : Block}
  {sourcePeer : Option String}

theorem acceptGenesis_transition (hfresh : blk.hash ∉ g.seenBlocks)
    (hnumber : blk.header.number = 0) :
    Transition P host g blk sourcePeer (acceptGenesis host g blk) := by
  unfold acceptGenesis
  split
  · exact Transition.rejected (Host.Follows.refl host)
  · rename_i hhash
    split
    · exact Transition.rejected (Host.Follows.refl host)
    · rename_i hempty
      unfold persistCanonicalExtension
      have hwrite := Host.write_cases host g.db
        (canonicalEntry blk ++ tipEntry blk.header.number blk.hash)
      generalize host.write g.db _ = written at hwrite
      cases hwrite with
      | written _ =>
          exact Transition.genesis (not_not.mp hhash) hnumber (by simpa using hempty) hfresh
            (Host.Follows.wrote host)
      | failed _ => exact Transition.rejected (Host.Follows.wrote host)

theorem extendCanonical_transition {candidateCw : Nat} {state : TxExecutionState}
    (hvetted : Vetted P host.now g blk candidateCw state)
    (htip : blk.header.parentHash = g.tipHash) :
    Transition P host g blk sourcePeer
      (extendCanonical P host.tick g blk candidateCw state) := by
  have hcase := extendCanonical_cases P host.tick g blk candidateCw state
  generalize extendCanonical P host.tick g blk candidateCw state = step at hcase
  have hwrote := (Host.Follows.tick host).trans (Host.Follows.wrote host.tick)
  cases hcase with
  | writeFailed _ => exact Transition.rejected hwrote
  | extended _ hsaved =>
      have hfollows := maybeSaveSnapshot_follows P host.tick.wrote
        (extendedChain g blk candidateCw state
          (g.db.applyBatch (canonicalEntry blk ++ tipEntry blk.header.number blk.hash)))
      rw [hsaved] at hfollows
      exact Transition.extended hvetted htip ⟨host.tick.wrote, by rw [hsaved]⟩
        (hwrote.trans hfollows)

theorem storeSideChain_transition {candidateCw : Nat} {state : TxExecutionState} {step : Step}
    (hvetted : Vetted P host.now g blk candidateCw state)
    (htip : blk.header.parentHash ≠ g.tipHash)
    (hrun : storeSideChain P host.tick g blk (g.workOf g.tipHash) candidateCw = .ok step) :
    Transition P host g blk sourcePeer step := by
  have hwrote := (Host.Follows.tick host).trans (Host.Follows.wrote host.tick)
  cases storeSideChain_cases hrun with
  | writeFailed _ => exact Transition.rejected hwrote
  | stored _ hle => exact Transition.recorded hvetted htip hle hwrote
  | notReorganised _ hlt hreorg =>
      have hcases := tryReorg_cases hreorg
      cases hcases with
      | aborted _ =>
          exact Transition.aborted hvetted htip hlt hreorg (hwrote.trans (Host.Follows.note _ _))
      | emptyChain _ _ =>
          exact Transition.aborted hvetted htip hlt hreorg (hwrote.trans (Host.Follows.note _ _))
      | writeFailed _ =>
          exact Transition.aborted hvetted htip hlt hreorg
            ((hwrote.trans (Host.Follows.wrote _)).trans (Host.Follows.note _ _))
  | reorganised _ hlt hreorg =>
      have hcases := tryReorg_cases hreorg
      cases hcases with
      | exchanged hplan hexchange hlast hstale _ =>
          exact Transition.reorganised hvetted htip hlt hplan hexchange hlast hstale
            ((hwrote.trans (Host.Follows.wrote _)).trans (Host.Follows.note _ _))

/-- Every run of the pipeline is one of the transitions. -/
theorem acceptBlock_transition {step : Step}
    (hrun : acceptBlock P host g blk sourcePeer = .ok step) :
    Transition P host g blk sourcePeer step := by
  cases acceptBlock_cases hrun with
  | malformed _ => exact Transition.rejected (Host.Follows.refl host)
  | duplicate _ => exact Transition.rejected (Host.Follows.refl host)
  | genesis _ hfresh hnumber => exact acceptGenesis_transition hfresh hnumber
  | orphaned hoffered hunknown =>
      exact Transition.orphaned hoffered hunknown (Host.Follows.tick host)
  | invalid _ _ _ => exact Transition.rejected (Host.Follows.tick host)
  | extended hvetted htip => exact extendCanonical_transition hvetted htip
  | side hvetted htip hstep => exact storeSideChain_transition hvetted htip hstep

end Cases

end VisionCore
