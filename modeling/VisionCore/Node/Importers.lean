import VisionCore.Chain.ForkChoice
import VisionCore.Chain.Run

/-!
# The importers of a node

Several tasks import blocks into one chain.  What each of them does while it holds
the chain lock is a step, and any of the steps may follow any other.
-/

namespace VisionCore

open Std
open Foundation

/-- What an importer does to the chain while it holds the lock. -/
inductive ImporterStep where
  | apply (call : Call)
  | refreshStateRoot
  | takeRecovery

def ImporterStep.run (P : Platform) (g : ChainState) : ImporterStep -> Except Fault ChainState
  | .apply call => applyCall P g call
  | .refreshStateRoot => .ok g.refreshCachedStateRootFromTip
  | .takeRecovery => .ok { g with pendingReorgRecovery := none }

def importAll (P : Platform) (g : ChainState) (steps : List ImporterStep) :
    Except Fault ChainState :=
  steps.foldlM (ImporterStep.run P) g

/-- Every block that the steps hand to `applyBlock` meets `A`. -/
def Calls (A : Call -> Prop) (steps : List ImporterStep) : Prop :=
  forall call, ImporterStep.apply call ∈ steps -> A call

/-!
# What the steps keep
-/

/-- A fact about the chain that survives every step whose call meets `A`. -/
structure ImportInvariant (P : Platform) (A : Call -> Prop) (I : ChainState -> Prop) : Prop where
  apply : forall {g call out}, I g -> A call ->
    applyBlock P call.host g call.blk call.sourcePeer = .ok out -> I out.chain
  refresh : forall {g}, I g -> I g.refreshCachedStateRootFromTip
  take : forall {g : ChainState}, I g -> I { g with pendingReorgRecovery := none }

section Invariants

variable {P : Platform} {D : Block -> Prop} {A : Call -> Prop} {I J : ChainState -> Prop}
  {g g' : ChainState} {blk : Block} {hash : String} {steps : List ImporterStep}

theorem ImportInvariant.importAll (hI : ImportInvariant P A I) (hcalls : Calls A steps)
    (hg : I g) (hrun : importAll P g steps = .ok g') : I g' := by
  refine foldlM_induction (I := I) ?_ hg hrun
  intro g step g' hstep hg hrun
  cases step with
  | apply call =>
      rcases applyCall_ok hrun with ⟨out, hout, rfl⟩
      exact hI.apply hg (hcalls call hstep) hout
  | refreshStateRoot =>
      cases hrun
      exact hI.refresh hg
  | takeRecovery =>
      cases hrun
      exact hI.take hg

theorem Represents.refresh (hg : Represents P D g) :
    Represents P D g.refreshCachedStateRootFromTip :=
  hg.congr rfl rfl rfl rfl hg.waiting

theorem Represents.takeRecovery (hg : Represents P D g) :
    Represents P D { g with pendingReorgRecovery := none } :=
  hg.congr rfl rfl rfl rfl hg.waiting

/-- What every step of block acceptance keeps, the importers keep. -/
theorem StepInvariant.importInvariant (hJ : StepInvariant P D fun _ g => J g)
    (hnumbered : NumberedFrom P D) (hrefresh : forall {g}, J g -> J g.refreshCachedStateRootFromTip)
    (htake : forall {g : ChainState}, J g -> J { g with pendingReorgRecovery := none }) :
    ImportInvariant P (fun call => D call.blk) fun g => Represents P D g ∧ J g where
  apply := fun hg hD hrun => hJ.applyBlock hnumbered hg.1 hD hg.2 hrun
  refresh := fun hg => ⟨hg.1.refresh, hrefresh hg.2⟩
  take := fun hg => ⟨hg.1.takeRecovery, htake hg.2⟩

/-!
# Known blocks
-/

/-- The block of a hash is found, on the canonical chain or beside it. -/
def Found (g : ChainState) (hash : String) : Prop :=
  (g.blockByHash hash).isSome

theorem found_iff_resolve : Found g hash ↔ exists blk, resolveBlock g hash = some blk :=
  Option.isSome_iff_exists

theorem Found.put (hold : Found g hash)
    (hput : resolveBlock g' = Store.put chainLineage (resolveBlock g) blk) : Found g' hash := by
  rcases found_iff_resolve.mp hold with ⟨known, hknown⟩
  rw [found_iff_resolve, hput]
  by_cases hname : hash = chainLineage.name blk
  · exact ⟨blk, by rw [hname, Store.put_self]⟩
  · exact ⟨known, by rw [Store.put_of_ne hname, hknown]⟩

theorem found_put_self (hput : resolveBlock g' = Store.put chainLineage (resolveBlock g) blk) :
    Found g' blk.hash := by
  rw [found_iff_resolve, hput]
  exact ⟨blk, Store.put_self⟩

section Steps

variable {host : Host} {sourcePeer : Option String} {step : Step} {out : Applied}

theorem Effect.foundKept (hg : Represents P D g) (h : Effect P D host g blk sourcePeer step)
    (hold : Found g hash) : Found step.chain hash := by
  cases h with
  | rejected _ => exact hold
  | orphaned _ _ _ =>
      have hknown := (addOrphan_known host.now g blk (sourcePeer.getD "anon")).1
      rw [found_iff_resolve, hknown]
      exact found_iff_resolve.mp hold
  | extended hadmitted _ htip _ _ => exact hold.put (hadmitted.extended_known hg htip _)
  | recorded hadmitted _ _ _ => exact hold.put (hadmitted.recorded_known hg)
  | moved hmoves _ => exact hold.put (hmoves.known.trans (hmoves.admitted.recorded_known hg))

/-- A block that a step has put on the chain or beside it is found. -/
theorem Effect.foundNew (hg : Represents P D g) (h : Effect P D host g blk sourcePeer step)
    (horphan : forall hash, step.result ≠ .storedOrphan hash)
    (hreject : forall reason, step.result ≠ .rejected reason) : Found step.chain blk.hash := by
  cases h with
  | rejected _ => exact absurd rfl (hreject _)
  | orphaned _ _ _ => exact absurd rfl (horphan _)
  | extended hadmitted _ htip _ _ => exact found_put_self (hadmitted.extended_known hg htip _)
  | recorded hadmitted _ _ _ => exact found_put_self (hadmitted.recorded_known hg)
  | moved hmoves _ =>
      exact found_put_self (hmoves.known.trans (hmoves.admitted.recorded_known hg))

theorem stepInvariant_found (P : Platform) (D : Block -> Prop) (hashes : List String) :
    StepInvariant P D fun _ g => forall hash, hash ∈ hashes -> Found g hash where
  effect := fun hg _ heffect hpre hash hmem => heffect.foundKept hg (hpre hash hmem)
  take := fun _ hpre => hpre
  forget := fun _ hpre => hpre

theorem importInvariant_found (hnumbered : NumberedFrom P D) (hashes : List String) :
    ImportInvariant P (fun call => D call.blk)
      fun g => Represents P D g ∧ forall hash, hash ∈ hashes -> Found g hash :=
  (stepInvariant_found P D hashes).importInvariant
    (J := fun g => forall hash, hash ∈ hashes -> Found g hash) hnumbered (fun h => h) (fun h => h)

theorem applyBlock_found (hnumbered : NumberedFrom P D) (hg : Represents P D g) (hD : D blk)
    (hrun : applyBlock P host g blk sourcePeer = .ok out)
    (horphan : forall hash, out.result ≠ .storedOrphan hash)
    (hreject : forall reason, out.result ≠ .rejected reason) : Found out.chain blk.hash := by
  rcases applyBlock_first hrun with ⟨step, hstep, hresult, hpromotion⟩
  rw [hresult] at horphan hreject
  have heffect := hg.effect hnumbered hD (acceptBlock_transition hstep)
  have hnew := heffect.foundNew hg horphan hreject
  rcases hpromotion with ⟨_, hchain, _⟩ | ⟨key, _, hprocess⟩
  · rw [hchain]
    exact hnew
  · have hkept := (stepInvariant_found P D [blk.hash]).promotion hnumbered
    have hnothing : forall b, b ∈ ([] : List Block) -> D b := by simp
    have hpost := hkept.processOrphansWith hkept.applyBlockFuel
      ⟨heffect.represents hg hD, hnothing, by simpa using hnew⟩ hprocess
    exact hpost.2.2 _ List.mem_cons_self

end Steps

/-!
# The tip
-/

/-- A call on a block of `D` none of whose writes fails. -/
def Durably (D : Block -> Prop) (call : Call) : Prop :=
  D call.blk ∧ forall i, call.host.writeOk i = true

theorem importInvariant_settled (hnumbered : NumberedFrom P D) :
    ImportInvariant P (Durably D) (Settled P D) where
  apply := fun hg hcall hrun => (hg.applyBlock hnumbered hcall.1 hcall.2 hrun).1
  refresh := fun hg => ⟨hg.represents.refresh, hg.exact.congr rfl rfl,
    hg.replays.congr rfl rfl rfl rfl, hg.heaviest.congr rfl rfl⟩
  take := fun hg => ⟨hg.represents.takeRecovery, hg.exact.congr rfl rfl,
    hg.replays.congr rfl rfl rfl rfl, hg.heaviest.congr rfl rfl⟩

end Invariants

end VisionCore
