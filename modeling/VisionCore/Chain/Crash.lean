import VisionCore.Chain.Waiting

/-!
# Interrupted acceptance

Every change of the stored chain in acceptance is one write.  When some of the
writes of a run of the pipeline are lost, the canonical chain is the one before
the run or the one after it.
-/

namespace VisionCore

open Std
open Foundation

/-!
# Losing writes
-/

/-- A host that differs from `host` in that fewer writes succeed. -/
structure Host.Fewer (host host' : Host) : Prop where
  clock : host'.clock = host.clock
  reads : host'.reads = host.reads
  writes : host'.writes = host.writes
  writeOk : forall i, host'.writeOk i = true -> host.writeOk i = true

/-- A crash: only the first `k` writes of what follows reach the disk. -/
def Host.killedAfter (host : Host) (k : Nat) : Host :=
  { host with writeOk := fun i => host.writeOk i && decide (i < host.writes + k) }

namespace Host.Fewer

variable {host host' : Host}

theorem killedAfter (host : Host) (k : Nat) : host.Fewer (host.killedAfter k) where
  clock := rfl
  reads := rfl
  writes := rfl
  writeOk := by
    intro i h
    exact (Bool.and_eq_true_iff.mp h).1

theorem now (h : host.Fewer host') : host'.now = host.now := by
  unfold Host.now
  rw [h.clock, h.reads]

theorem tick (h : host.Fewer host') : host.tick.Fewer host'.tick where
  clock := h.clock
  reads := congrArg (fun n => n + 1) h.reads
  writes := h.writes
  writeOk := h.writeOk

theorem wrote (h : host.Fewer host') : host.wrote.Fewer host'.wrote where
  clock := h.clock
  reads := h.reads
  writes := congrArg (fun n => n + 1) h.writes
  writeOk := h.writeOk

/-- A write of the host with fewer writes fails, or succeeds on both. -/
theorem write (h : host.Fewer host') (db : Db) (batch : List DbOp) :
    host'.write db batch = (.error .writeFailed, db, host'.wrote) ∨
      (host'.write db batch = (.ok (), db.applyBatch batch, host'.wrote) ∧
        host.write db batch = (.ok (), db.applyBatch batch, host.wrote)) := by
  unfold Host.write
  cases hok : host'.writeOk host'.writes with
  | false => exact Or.inl rfl
  | true =>
      have hboth := h.writeOk _ hok
      rw [h.writes] at hboth
      rw [hboth]
      exact Or.inr ⟨rfl, rfl⟩

end Host.Fewer

/-!
# The stages
-/

section Stages

variable {P : Platform} {host host' host₁ : Host} {g g₁ : ChainState} {blk : Block}
  {sourcePeer : Option String} {step : Step} {tipCw candidateCw : Nat}

theorem acceptGenesis_fewer (h : host.Fewer host') (g : ChainState) (blk : Block) :
    (acceptGenesis host' g blk).chain = g ∨
      (acceptGenesis host' g blk).chain = (acceptGenesis host g blk).chain := by
  unfold acceptGenesis persistCanonicalExtension
  split
  · exact Or.inl rfl
  · split
    · exact Or.inl rfl
    · rcases h.write g.db (canonicalEntry blk ++ tipEntry blk.header.number blk.hash) with
        hfail | ⟨hok, hboth⟩
      · rw [hfail]
        exact Or.inl rfl
      · rw [hok, hboth]
        exact Or.inr rfl

theorem extendCanonical_fewer (h : host.Fewer host') (g : ChainState) (blk : Block)
    (candidateCw : Nat) (state : TxExecutionState) :
    (extendCanonical P host' g blk candidateCw state).chain = g ∨
      SameChain (extendCanonical P host g blk candidateCw state).chain
        (extendCanonical P host' g blk candidateCw state).chain := by
  unfold extendCanonical persistCanonicalExtension
  rcases h.write g.db (canonicalEntry blk ++ tipEntry blk.header.number blk.hash) with
    hfail | ⟨hok, hboth⟩
  · rw [hfail]
    exact Or.inl rfl
  · rw [hok, hboth]
    exact Or.inr ⟨rfl, rfl, rfl, rfl, rfl⟩

theorem persistCanonicalReorg_fewer (h : host.Fewer host') {blocks : List Block}
    {previous : UInt64} {out : Except StorageError Unit × Db × Host}
    (hrun : persistCanonicalReorg P host g blocks previous = .ok out) :
    (exists e host₁, persistCanonicalReorg P host' g blocks previous = .ok (.error e, g.db, host₁)) ∨
      (exists db, out = (.ok (), db, host.wrote) ∧
        persistCanonicalReorg P host' g blocks previous = .ok (.ok (), db, host'.wrote)) := by
  unfold persistCanonicalReorg at hrun ⊢
  cases hlast : blocks.getLast? with
  | none => exact Or.inl ⟨_, _, rfl⟩
  | some tip =>
      rw [hlast] at hrun
      dsimp only at hrun ⊢
      rcases bind_eq_ok.mp hrun with ⟨firstStale, hstale, hwritten⟩
      rw [hstale]
      dsimp only [bind, Except.bind, pure, Except.pure] at hwritten ⊢
      have hwrite := h.write g.db (blocks.flatMap canonicalEntry ++
        ((heightRange firstStale previous).map fun n => DbOp.remove (.height n)) ++
          tipEntry tip.header.number tip.hash)
      rcases hwrite with hfail | ⟨hok, hboth⟩
      · rw [hfail]
        exact Or.inl ⟨_, _, rfl⟩
      · rw [hboth] at hwritten
        rw [hok]
        exact Or.inr ⟨_, (Except.ok.inj hwritten).symm, rfl⟩

theorem tryReorg_fewer (h : host.Fewer host') {newTip : Block}
    {recovery : Option ReorgRecovery} (hrun : tryReorg P host g newTip = .ok (recovery, g₁, host₁)) :
    exists recovery' g' host₂, tryReorg P host' g newTip = .ok (recovery', g', host₂) ∧
      ((recovery' = none ∧ g' = g) ∨ (recovery' = recovery ∧ g' = g₁)) := by
  unfold tryReorg at hrun ⊢
  cases hplan : planReorg P g newTip with
  | error stop =>
      rw [hplan] at hrun
      cases stop with
      | fault f => cases hrun
      | err reason => exact ⟨none, g, _, rfl, Or.inl ⟨rfl, rfl⟩⟩
  | ok plan =>
      rw [hplan] at hrun
      rcases bind_eq_ok.mp hrun with ⟨⟨raised, demoted⟩, hexchange, hrun⟩
      rcases bind_eq_ok.mp hrun with ⟨persisted, hpersist, hrun⟩
      dsimp only
      rw [hexchange]
      dsimp only [bind, Except.bind]
      rcases persistCanonicalReorg_fewer h hpersist with ⟨e, host₂, hfail⟩ | ⟨db, rfl, hok⟩
      · rw [hfail]
        exact ⟨none, g, _, rfl, Or.inl ⟨rfl, rfl⟩⟩
      · rw [hok]
        cases hrun
        exact ⟨_, _, _, rfl, Or.inr ⟨rfl, rfl⟩⟩

theorem storeSideChain_fewer (h : host.Fewer host')
    (hrun : storeSideChain P host g blk tipCw candidateCw = .ok step) :
    exists cut, storeSideChain P host' g blk tipCw candidateCw = .ok cut ∧
      (SameChain g cut.chain ∨ SameChain step.chain cut.chain) := by
  unfold storeSideChain storeBlock at hrun ⊢
  rcases h.write g.db [.insert (.block blk.hash) (.block blk)] with hfail | ⟨hok, hboth⟩
  · rw [hfail]
    exact ⟨_, rfl, Or.inl (SameChain.refl g)⟩
  · rw [hok]
    rw [hboth] at hrun
    dsimp only at hrun ⊢
    have hrecorded : SameChain g (recordSideBlock
        { g with db := g.db.applyBatch [.insert (.block blk.hash) (.block blk)] }
        blk candidateCw) := SameChain.recorded g blk candidateCw
    by_cases hwork : candidateCw > tipCw
    · rw [if_pos hwork] at hrun ⊢
      rcases bind_eq_ok.mp hrun with ⟨⟨recovery, g₁, host₁⟩, hreorg, hfinal⟩
      rcases tryReorg_fewer h.wrote hreorg with ⟨recovery', g', host₂, hreorg', hcases⟩
      rw [hreorg']
      dsimp only [bind, Except.bind]
      rcases hcases with ⟨rfl, rfl⟩ | ⟨rfl, rfl⟩
      · exact ⟨_, rfl, Or.inl hrecorded⟩
      · cases recovery' with
        | none =>
            cases hfinal
            exact ⟨_, rfl, Or.inr (SameChain.refl _)⟩
        | some recovery =>
            cases hfinal
            exact ⟨_, rfl, Or.inr (SameChain.refl _)⟩
    · rw [if_neg hwork]
      exact ⟨_, rfl, Or.inl hrecorded⟩

/-- Losing writes of a run of the pipeline leaves the chain of before or after. -/
theorem acceptBlock_fewer (h : host.Fewer host')
    (hrun : acceptBlock P host g blk sourcePeer = .ok step) :
    exists cut, acceptBlock P host' g blk sourcePeer = .ok cut ∧
      (SameChain g cut.chain ∨ SameChain step.chain cut.chain) := by
  unfold acceptBlock at hrun ⊢
  rw [h.now]
  cases hstructure : checkStructure P blk with
  | error reason => exact ⟨_, rfl, Or.inl (SameChain.refl g)⟩
  | ok _ =>
      rw [hstructure] at hrun
      dsimp only at hrun ⊢
      by_cases hseen : g.seenBlocks.contains blk.hash = true
      · rw [if_pos hseen]
        exact ⟨_, rfl, Or.inl (SameChain.refl g)⟩
      · rw [if_neg hseen] at hrun ⊢
        by_cases hnumber : blk.header.number = 0
        · rw [if_pos hnumber] at hrun ⊢
          cases hrun
          refine ⟨_, rfl, ?_⟩
          rcases acceptGenesis_fewer h g blk with heq | heq
          · left
            rw [heq]
            exact SameChain.refl g
          · right
            rw [heq]
            exact SameChain.refl _
        · rw [if_neg hnumber] at hrun ⊢
          rcases bind_eq_ok.mp hrun with ⟨candidateCw, hwork, hrun⟩
          rw [hwork]
          dsimp only [bind, Except.bind]
          by_cases hunknown : (!g.canonIndex.contains blk.header.parentHash &&
              !g.sideBlocks.contains blk.header.parentHash) = true
          · rw [if_pos hunknown] at hrun ⊢
            cases hrun
            exact ⟨_, rfl, Or.inr (SameChain.refl _)⟩
          · rw [if_neg hunknown] at hrun ⊢
            cases hvalid : validateAgainstParent P host.now g blk with
            | error stop =>
                rw [hvalid] at hrun
                cases stop with
                | fault f => cases hrun
                | err reason => exact ⟨_, rfl, Or.inl (SameChain.refl g)⟩
            | ok state =>
                rw [hvalid] at hrun
                dsimp only at hrun ⊢
                by_cases htip : blk.header.parentHash = g.tipHash
                · rw [if_pos htip] at hrun ⊢
                  cases hrun
                  refine ⟨_, rfl, ?_⟩
                  rcases extendCanonical_fewer (P := P) h.tick g blk candidateCw state with
                    heq | hsame
                  · left
                    rw [heq]
                    exact SameChain.refl g
                  · exact Or.inr hsame
                · rw [if_neg htip] at hrun ⊢
                  exact storeSideChain_fewer h.tick hrun

end Stages

/-!
# The passes of a call

A call runs the pipeline on its own block and then on every block that it
promotes.
-/

/-- One run of the pipeline: the block and the state that it meets. -/
structure Pass where
  host : Host
  chain : ChainState
  blk : Block
  sourcePeer : Option String

/-- The passes over the blocks taken from the pool. -/
def PassesWaiting (apply : Apply)
    (passes : Host -> ChainState -> Block -> Option String -> Pass -> Prop) :
    List OrphanEntry -> Host -> ChainState -> Pass -> Prop
  | [], _, _, _ => False
  | (blk, _, sourcePeer) :: rest, host, g, pass =>
      passes host (forgetOrphan g blk.hash) blk (some sourcePeer) pass ∨
        exists applied, apply host (forgetOrphan g blk.hash) blk (some sourcePeer) = .ok applied ∧
          PassesWaiting apply passes rest applied.host applied.chain pass

def PassesFuel (P : Platform) :
    Nat -> Host -> ChainState -> Block -> Option String -> Pass -> Prop
  | 0, _, _, _, _, _ => False
  | fuel + 1, host, g, blk, sourcePeer, pass =>
      pass = ⟨host, g, blk, sourcePeer⟩ ∨
        exists step key waiting, acceptBlock P host g blk sourcePeer = .ok step ∧
          step.promote = some key ∧ step.chain.orphanPool[key]? = some waiting ∧
            PassesWaiting (applyBlockFuel P fuel) (PassesFuel P fuel) waiting step.host
              (takeWaiting step.chain key) pass

/-- The runs of the pipeline inside a call of `applyBlock`. -/
def Passes (P : Platform) (host : Host) (g : ChainState) (blk : Block)
    (sourcePeer : Option String) (pass : Pass) : Prop :=
  PassesFuel P (orphanCount g + 1) host g blk sourcePeer pass

theorem passes_self (P : Platform) (host : Host) (g : ChainState) (blk : Block)
    (sourcePeer : Option String) : Passes P host g blk sourcePeer ⟨host, g, blk, sourcePeer⟩ :=
  Or.inl rfl

namespace PromotionInvariant

variable {P : Platform} {I : List Block -> Option String -> Host -> ChainState -> Prop}

theorem passesWaiting (hI : PromotionInvariant P I) {apply : Apply} {pass : Pass}
    {passes : Host -> ChainState -> Block -> Option String -> Pass -> Prop}
    (happly : forall {offered host g blk sourcePeer out},
      I (blk :: offered) none host g -> apply host g blk sourcePeer = .ok out ->
        I offered none out.host out.chain)
    (hpasses : forall {offered host g blk sourcePeer},
      I (blk :: offered) none host g -> passes host g blk sourcePeer pass ->
        exists offered', I (pass.blk :: offered') none pass.host pass.chain)
    {waiting : List OrphanEntry} {offered : List Block} {host : Host} {g : ChainState}
    (hpre : I (waiting.map Prod.fst ++ offered) none host g)
    (hpass : PassesWaiting apply passes waiting host g pass) :
    exists offered', I (pass.blk :: offered') none pass.host pass.chain := by
  induction waiting generalizing host g with
  | nil => cases hpass
  | cons entry rest ih =>
      rcases entry with ⟨blk, arrival, sourcePeer⟩
      rcases hpass with hhere | ⟨applied, happlied, hlater⟩
      · exact hpasses (hI.forget hpre) hhere
      · exact ih (happly (hI.forget hpre) happlied) hlater

/-- What promotion keeps holds in front of every run of the pipeline. -/
theorem passesFuel (hI : PromotionInvariant P I) {fuel : Nat} {offered : List Block}
    {host : Host} {g : ChainState} {blk : Block} {sourcePeer : Option String} {pass : Pass}
    (hpre : I (blk :: offered) none host g)
    (hpass : PassesFuel P fuel host g blk sourcePeer pass) :
    exists offered', I (pass.blk :: offered') none pass.host pass.chain := by
  induction fuel generalizing offered host g blk sourcePeer with
  | zero => cases hpass
  | succ fuel ih =>
      rcases hpass with rfl | ⟨step, key, waiting, hstep, hpromote, hslot, hwaiting⟩
      · exact ⟨offered, hpre⟩
      · have hpost := hI.accept hpre hstep
        rw [hpromote] at hpost
        exact hI.passesWaiting hI.applyBlockFuel ih (hI.take hpost hslot) hwaiting

end PromotionInvariant

/-- A step invariant holds in front of every run of the pipeline inside a call. -/
theorem StepInvariant.passes {P : Platform} {D : Block -> Prop} {J : Host -> ChainState -> Prop}
    (hJ : StepInvariant P D J) (hnumbered : NumberedFrom P D) {host : Host} {g : ChainState}
    {blk : Block} {sourcePeer : Option String} {pass : Pass} (hg : Represents P D g)
    (hD : D blk) (hpre : J host g) (hpass : Passes P host g blk sourcePeer pass) :
    Represents P D pass.chain ∧ D pass.blk ∧ J pass.host pass.chain := by
  have hoffered : forall b, b ∈ [blk] -> D b := by simpa using hD
  rcases (hJ.promotion hnumbered).passesFuel (And.intro hg (And.intro hoffered hpre)) hpass with
    ⟨offered', hg', hoffered', hpre'⟩
  exact ⟨hg', hoffered' _ List.mem_cons_self, hpre'⟩

end VisionCore
