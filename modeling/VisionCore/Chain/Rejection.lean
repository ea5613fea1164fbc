import VisionCore.Chain.Sample

/-!
# What a call that does not accept changes

A rejected block changes nothing, a stored orphan changes the pool alone, and a
reorg that aborts changes nothing, in every chain state and wherever a database
write fails.
-/

namespace VisionCore

open Foundation

section Atomic

variable {P : Platform} {host : Host} {g : ChainState} {blk : Block}
  {sourcePeer : Option String} {out : Applied}

/-- A call whose pipeline offers no orphans is the pipeline itself. -/
theorem applyBlock_of_step {step : Step}
    (hstep : acceptBlock P host g blk sourcePeer = .ok step) (hpromote : step.promote = none) :
    applyBlock P host g blk sourcePeer =
      .ok { result := step.result, chain := step.chain, host := step.host } := by
  rw [applyBlock_eq]
  refine bind_eq_ok.mpr ⟨step, hstep, ?_⟩
  rw [hpromote]
  rfl

/-- A call that rejects or stores leaves the state of its pipeline. -/
theorem applyBlock_unpromoted (hrun : applyBlock P host g blk sourcePeer = .ok out) :
    exists step, Transition P host g blk sourcePeer step ∧ out.result = step.result ∧
      (step.promote = none -> out.chain = step.chain) := by
  rcases applyBlock_first hrun with ⟨step, hstep, hresult, hcases⟩
  refine ⟨step, acceptBlock_transition hstep, hresult, ?_⟩
  intro hpromote
  rcases hcases with ⟨_, hchain, _⟩ | ⟨key, hkey, _⟩
  · exact hchain
  · rw [hpromote] at hkey
    cases hkey

theorem applyBlock_rejected {reason : RejectReason}
    (hrun : applyBlock P host g blk sourcePeer = .ok out) (hresult : out.result = .rejected reason) :
    out.chain = g := by
  rcases applyBlock_unpromoted hrun with ⟨step, htransition, hstep, hchain⟩
  rw [hresult] at hstep
  cases htransition with
  | rejected _ => exact hchain rfl
  | genesis _ _ _ _ _ => cases hstep
  | orphaned _ _ _ => cases hstep
  | extended _ _ _ _ => cases hstep
  | recorded _ _ _ _ => cases hstep
  | aborted _ _ _ _ _ => cases hstep
  | reorganised _ _ _ _ _ _ _ _ => cases hstep

theorem applyBlock_storedOrphan {hash : String}
    (hrun : applyBlock P host g blk sourcePeer = .ok out)
    (hresult : out.result = .storedOrphan hash) :
    exists pool byHash, out.chain = { g with orphanPool := pool, orphanByHash := byHash } := by
  rcases applyBlock_unpromoted hrun with ⟨step, htransition, hstep, hchain⟩
  rw [hresult] at hstep
  cases htransition with
  | rejected _ => cases hstep
  | genesis _ _ _ _ _ => cases hstep
  | orphaned _ _ _ =>
      rw [hchain rfl]
      exact addOrphan_frame _ _ _ _
  | extended _ _ _ _ => cases hstep
  | recorded _ _ _ _ => cases hstep
  | aborted _ _ _ _ _ => cases hstep
  | reorganised _ _ _ _ _ _ _ _ => cases hstep

theorem tryReorg_none {newTip : Block} {g' : ChainState} {host' : Host}
    (hrun : tryReorg P host g newTip = .ok (none, g', host')) : g' = g := by
  cases tryReorg_cases hrun with
  | aborted _ => rfl
  | emptyChain _ _ => rfl
  | writeFailed _ => rfl

end Atomic

/-- Rejection is atomic: every field and every database key stays as it is. -/
theorem rejection_atomic (P : Platform) (host : Host) (g : ChainState) (blk : Block)
    (sourcePeer : Option String) :
    (forall out reason, applyBlock P host g blk sourcePeer = .ok out ->
      out.result = .rejected reason -> out.chain = g) ∧
    (forall out hash, applyBlock P host g blk sourcePeer = .ok out ->
      out.result = .storedOrphan hash ->
        exists pool byHash, out.chain = { g with orphanPool := pool, orphanByHash := byHash }) ∧
    forall newTip g' host', tryReorg P host g newTip = .ok (none, g', host') -> g' = g :=
  ⟨fun _ _ hrun hresult => applyBlock_rejected hrun hresult,
    fun _ _ hrun hresult => applyBlock_storedOrphan hrun hresult,
    fun _ _ _ hrun => tryReorg_none hrun⟩

/-- A host on which every write fails. -/
def failingHost : Host :=
  { sampleHost with writeOk := fun _ => false }

/-- The write of a valid block fails, and the state stays as it was. -/
theorem rejection_atomic_failingHost :
    exists out, applyBlock samplePlatform failingHost sampleGenesis firstBlock none = .ok out ∧
      out.result = .rejected (.canonicalPersistenceFailed .writeFailed) ∧
      out.chain = sampleGenesis := by
  have hruns : (applyBlock samplePlatform failingHost sampleGenesis firstBlock none).toOption.map
      (fun out => out.result) = some (.rejected (.canonicalPersistenceFailed .writeFailed)) := by
    decide +kernel
  rcases toOption_map_eq_some hruns with ⟨out, hrun, hresult⟩
  exact ⟨out, hrun, hresult,
    (rejection_atomic samplePlatform failingHost sampleGenesis firstBlock none).1 out _ hrun
      hresult⟩

end VisionCore
