import VisionCore.Chain.Exchange
import VisionCore.Chain.Pool

/-!
# Promotion of orphans

`applyBlock` and `processOrphans` call each other.  This module packages that
recursion: an induction rule for whatever the pipeline and the pool operations
preserve, the fact that the bound on the depth never matters, and the equation
by which the source defines the two functions.
-/

namespace VisionCore

open Std
open Foundation

/-!
# The induction rule

`I offered pending host g` speaks about a state in the middle of a promotion:
`offered` are the blocks taken from the pool or just delivered and not yet
applied, and `pending` is the hash whose slot is about to be emptied.
-/

structure PromotionInvariant (P : Platform)
    (I : List Block -> Option String -> Host -> ChainState -> Prop) : Prop where
  accept : forall {offered host g blk sourcePeer step},
    I (blk :: offered) none host g -> acceptBlock P host g blk sourcePeer = .ok step ->
      I offered step.promote step.host step.chain
  idle : forall {offered key host g},
    I offered (some key) host g -> g.orphanPool[key]? = none -> I offered none host g
  take : forall {offered key host g waiting},
    I offered (some key) host g -> g.orphanPool[key]? = some waiting ->
      I (waiting.map Prod.fst ++ offered) none host (takeWaiting g key)
  forget : forall {offered blk host g},
    I (blk :: offered) none host g -> I (blk :: offered) none host (forgetOrphan g blk.hash)

namespace PromotionInvariant

variable {P : Platform} {I : List Block -> Option String -> Host -> ChainState -> Prop}

theorem offerWaiting (hI : PromotionInvariant P I) {apply : Apply}
    (happly : forall {offered host g blk sourcePeer out},
      I (blk :: offered) none host g -> apply host g blk sourcePeer = .ok out ->
        I offered none out.host out.chain)
    {waiting : List OrphanEntry} {offered : List Block} {host host' : Host}
    {g g' : ChainState} (hpre : I (waiting.map Prod.fst ++ offered) none host g)
    (hrun : offerWaiting apply waiting host g = .ok (g', host')) :
    I offered none host' g' := by
  induction waiting generalizing host g with
  | nil =>
      cases hrun
      exact hpre
  | cons entry rest ih =>
      rcases entry with ⟨blk, arrival, sourcePeer⟩
      rcases bind_eq_ok.mp hrun with ⟨applied, hone, hrest⟩
      exact ih (happly (hI.forget hpre) hone) hrest

theorem processOrphansWith (hI : PromotionInvariant P I) {apply : Apply}
    (happly : forall {offered host g blk sourcePeer out},
      I (blk :: offered) none host g -> apply host g blk sourcePeer = .ok out ->
        I offered none out.host out.chain)
    {offered : List Block} {host host' : Host} {g g' : ChainState} {key : String}
    (hpre : I offered (some key) host g)
    (hrun : processOrphansWith apply host g key = .ok (g', host')) :
    I offered none host' g' := by
  unfold VisionCore.processOrphansWith at hrun
  cases hslot : g.orphanPool[key]? with
  | none =>
      rw [hslot] at hrun
      cases hrun
      exact hI.idle hpre hslot
  | some waiting =>
      rw [hslot] at hrun
      exact hI.offerWaiting happly (hI.take hpre hslot) hrun

theorem applyBlockFuel (hI : PromotionInvariant P I) {fuel : Nat} {offered : List Block}
    {host : Host} {g : ChainState} {blk : Block} {sourcePeer : Option String} {out : Applied}
    (hpre : I (blk :: offered) none host g)
    (hrun : applyBlockFuel P fuel host g blk sourcePeer = .ok out) :
    I offered none out.host out.chain := by
  induction fuel generalizing offered host g blk sourcePeer out with
  | zero => cases hrun
  | succ fuel ih =>
      rcases bind_eq_ok.mp hrun with ⟨step, hstep, hrun⟩
      have hpost := hI.accept hpre hstep
      cases hpromote : step.promote with
      | none =>
          rw [hpromote] at hrun hpost
          cases hrun
          exact hpost
      | some key =>
          rw [hpromote] at hrun hpost
          rcases bind_eq_ok.mp hrun with ⟨⟨g', host'⟩, hprocess, hrun⟩
          cases hrun
          exact hI.processOrphansWith ih hpost hprocess

theorem applyBlock (hI : PromotionInvariant P I) {offered : List Block} {host : Host}
    {g : ChainState} {blk : Block} {sourcePeer : Option String} {out : Applied}
    (hpre : I (blk :: offered) none host g)
    (hrun : applyBlock P host g blk sourcePeer = .ok out) :
    I offered none out.host out.chain :=
  hI.applyBlockFuel hpre hrun

end PromotionInvariant

/-!
# The first step of a call
-/

/-- A call takes its result from the pipeline, and promotion runs from there. -/
theorem applyBlock_first {P : Platform} {host : Host} {g : ChainState} {blk : Block}
    {sourcePeer : Option String} {out : Applied}
    (hrun : applyBlock P host g blk sourcePeer = .ok out) :
    exists step, acceptBlock P host g blk sourcePeer = .ok step ∧
      out.result = step.result ∧
      ((step.promote = none ∧ out.chain = step.chain ∧ out.host = step.host) ∨
        exists key, step.promote = some key ∧
          processOrphansWith (applyBlockFuel P (orphanCount g)) step.host step.chain key =
            .ok (out.chain, out.host)) := by
  rcases bind_eq_ok.mp hrun with ⟨step, hstep, hrun⟩
  refine ⟨step, hstep, ?_⟩
  cases hpromote : step.promote with
  | none =>
      rw [hpromote] at hrun
      cases hrun
      exact ⟨rfl, Or.inl ⟨rfl, rfl, rfl⟩⟩
  | some key =>
      rw [hpromote] at hrun
      rcases bind_eq_ok.mp hrun with ⟨⟨g', host'⟩, hprocess, hrun⟩
      cases hrun
      exact ⟨rfl, Or.inr ⟨key, rfl, hprocess⟩⟩

/-!
# The size of the pool
-/

theorem SideCase.orphanPool {P : Platform} {host : Host} {g : ChainState} {blk : Block}
    {tipCw candidateCw : Nat} {step : Step} (h : SideCase P host g blk tipCw candidateCw step) :
    step.chain.orphanPool = g.orphanPool := by
  cases h with
  | writeFailed _ => rfl
  | stored _ _ => rfl
  | notReorganised _ _ hreorg =>
      have hpool := tryReorg_orphanPool hreorg
      exact hpool
  | reorganised _ _ hreorg =>
      have hpool := tryReorg_orphanPool hreorg
      exact hpool

theorem ExtendCase.orphanPool {P : Platform} {host : Host} {g : ChainState} {blk : Block}
    {candidateCw : Nat} {state : TxExecutionState} {step : Step}
    (h : ExtendCase P host g blk candidateCw state step) :
    step.chain.orphanPool = g.orphanPool := by
  cases h with
  | writeFailed _ => rfl
  | extended _ _ => rfl

theorem GenesisCase.orphanPool {host : Host} {g : ChainState} {blk : Block} {step : Step}
    (h : GenesisCase host g blk step) : step.chain.orphanPool = g.orphanPool := by
  cases h <;> rfl

/-- Only a block that becomes an orphan changes the pool. -/
theorem AcceptCase.orphanPool {P : Platform} {host : Host} {g : ChainState} {blk : Block}
    {sourcePeer : Option String} {step : Step} (h : AcceptCase P host g blk sourcePeer step) :
    step.chain.orphanPool = g.orphanPool ∨
      (step.promote = none ∧ step.chain = addOrphan host.now g blk (sourcePeer.getD "anon")) := by
  cases h with
  | malformed _ => exact Or.inl rfl
  | duplicate _ => exact Or.inl rfl
  | genesis _ _ _ => exact Or.inl (acceptGenesis_cases host g blk).orphanPool
  | orphaned _ _ => exact Or.inr ⟨rfl, rfl⟩
  | invalid _ _ _ => exact Or.inl rfl
  | extended _ _ => exact Or.inl (extendCanonical_cases P host.tick g blk _ _).orphanPool
  | side _ _ hstep => exact Or.inl (storeSideChain_cases hstep).orphanPool

theorem acceptBlock_orphanCount_le {P : Platform} {host : Host} {g : ChainState} {blk : Block}
    {sourcePeer : Option String} {step : Step}
    (hrun : acceptBlock P host g blk sourcePeer = .ok step) :
    orphanCount step.chain ≤ orphanCount g + 1 ∧
      (step.promote ≠ none -> orphanCount step.chain ≤ orphanCount g) := by
  cases (acceptBlock_cases hrun).orphanPool with
  | inl hpool =>
      rw [orphanCount_congr hpool]
      exact ⟨Nat.le_succ _, fun _ => Nat.le_refl _⟩
  | inr horphan =>
      refine ⟨?_, fun hpromote => absurd horphan.1 hpromote⟩
      rw [horphan.2, orphanCount_addOrphan]
      exact Nat.succ_le_succ (orphanCount_pruneOldOrphans_le g)

/-- Stored and offered blocks together never become more. -/
theorem orphanCount_invariant (P : Platform) (total : Nat) :
    PromotionInvariant P fun offered _ _ g => orphanCount g + offered.length ≤ total where
  accept := by
    intro offered host g blk sourcePeer step hpre hrun
    have hstep := (acceptBlock_orphanCount_le hrun).1
    rw [List.length_cons] at hpre
    omega
  idle := fun hpre _ => hpre
  take := by
    intro offered key host g waiting hpre hslot
    have hcount := orphanCount_takeWaiting hslot
    rw [List.length_append, List.length_map]
    omega
  forget := fun hpre => hpre

theorem applyBlockFuel_orphanCount_le {P : Platform} {fuel : Nat} {host : Host}
    {g : ChainState} {blk : Block} {sourcePeer : Option String} {out : Applied}
    (hrun : applyBlockFuel P fuel host g blk sourcePeer = .ok out) :
    orphanCount out.chain ≤ orphanCount g + 1 := by
  have hpre : orphanCount g + [blk].length ≤ orphanCount g + 1 := Nat.le_refl _
  exact (orphanCount_invariant P (orphanCount g + 1)).applyBlockFuel hpre hrun

/-!
# The depth bound never matters
-/

/-- Two functions that agree on small pools offer a short list alike. -/
theorem offerWaiting_congr {apply apply' : Apply} {n : Nat} {waiting : List OrphanEntry}
    {host : Host} {g : ChainState}
    (hagree : forall {host g blk sourcePeer}, orphanCount g < n ->
      apply host g blk sourcePeer = apply' host g blk sourcePeer)
    (hgrow : forall {host g blk sourcePeer out}, apply host g blk sourcePeer = .ok out ->
      orphanCount out.chain ≤ orphanCount g + 1)
    (hsize : orphanCount g + waiting.length ≤ n) :
    offerWaiting apply waiting host g = offerWaiting apply' waiting host g := by
  induction waiting generalizing host g with
  | nil => rfl
  | cons entry rest ih =>
      rcases entry with ⟨blk, arrival, sourcePeer⟩
      rw [List.length_cons] at hsize
      have hforget : orphanCount (forgetOrphan g blk.hash) = orphanCount g := rfl
      have hone := @hagree host (forgetOrphan g blk.hash) blk (some sourcePeer) (by omega)
      unfold offerWaiting
      rw [← hone]
      cases happlied : apply host (forgetOrphan g blk.hash) blk (some sourcePeer) with
      | error f => rfl
      | ok applied =>
          have hnext := hgrow happlied
          exact ih (by omega)

theorem processOrphansWith_congr {apply apply' : Apply} {host : Host} {g : ChainState}
    {key : String}
    (hagree : forall {host g' blk sourcePeer}, orphanCount g' < orphanCount g ->
      apply host g' blk sourcePeer = apply' host g' blk sourcePeer)
    (hgrow : forall {host g blk sourcePeer out}, apply host g blk sourcePeer = .ok out ->
      orphanCount out.chain ≤ orphanCount g + 1) :
    processOrphansWith apply host g key = processOrphansWith apply' host g key := by
  unfold processOrphansWith
  cases hslot : g.orphanPool[key]? with
  | none => rfl
  | some waiting =>
      have hcount := orphanCount_takeWaiting hslot
      exact offerWaiting_congr (n := orphanCount g) hagree hgrow (by omega)

/-- Every bound above the number of orphans gives the same result. -/
theorem applyBlockFuel_congr {P : Platform} {fuel fuel' : Nat} {host : Host} {g : ChainState}
    {blk : Block} {sourcePeer : Option String} (hfuel : orphanCount g < fuel)
    (hfuel' : orphanCount g < fuel') :
    applyBlockFuel P fuel host g blk sourcePeer =
      applyBlockFuel P fuel' host g blk sourcePeer := by
  induction fuel generalizing fuel' host g blk sourcePeer with
  | zero => cases hfuel
  | succ fuel ih =>
      cases fuel' with
      | zero => cases hfuel'
      | succ fuel' =>
          unfold applyBlockFuel
          cases hstep : acceptBlock P host g blk sourcePeer with
          | error f => rfl
          | ok step =>
              cases hpromote : step.promote with
              | none => simp [bind, Except.bind, hpromote]
              | some key =>
                  have hcount :=
                    (acceptBlock_orphanCount_le hstep).2 (by rw [hpromote]; simp)
                  have hprocess :
                      processOrphansWith (applyBlockFuel P fuel) step.host step.chain key =
                        processOrphansWith (applyBlockFuel P fuel') step.host step.chain key :=
                    processOrphansWith_congr (fun hlt => ih (by omega) (by omega))
                      applyBlockFuel_orphanCount_le
                  simp only [bind, Except.bind, hpromote, hprocess]

/-- The recursion of the source: acceptance, then promotion by acceptance. -/
theorem applyBlock_eq (P : Platform) (host : Host) (g : ChainState) (blk : Block)
    (sourcePeer : Option String) :
    applyBlock P host g blk sourcePeer = (do
      let step <- acceptBlock P host g blk sourcePeer
      match step.promote with
      | none => return { result := step.result, chain := step.chain, host := step.host }
      | some key =>
          let (g, host) <- processOrphans P step.host step.chain key
          return { result := step.result, chain := g, host := host }) := by
  unfold applyBlock applyBlockFuel
  cases hstep : acceptBlock P host g blk sourcePeer with
  | error f => rfl
  | ok step =>
      cases hpromote : step.promote with
      | none => simp [bind, Except.bind, hpromote]
      | some key =>
          have hcount := (acceptBlock_orphanCount_le hstep).2 (by rw [hpromote]; simp)
          have hprocess :
              processOrphansWith (applyBlockFuel P (orphanCount g)) step.host step.chain key =
                processOrphans P step.host step.chain key :=
            processOrphansWith_congr
              (fun hlt => applyBlockFuel_congr (by omega) (Nat.lt_succ_self _))
              applyBlockFuel_orphanCount_le
          simp only [bind, Except.bind, hpromote, hprocess]

/-!
# Aborts
-/

namespace PromotionInvariant

variable {P : Platform} {I : List Block -> Option String -> Host -> ChainState -> Prop}
  {F : Fault -> Prop}

theorem offerWaiting_errorsIn (hI : PromotionInvariant P I) {apply : Apply} {n : Nat}
    (happly : forall {offered host g blk sourcePeer out},
      I (blk :: offered) none host g -> apply host g blk sourcePeer = .ok out ->
        I offered none out.host out.chain)
    (hgrow : forall {host g blk sourcePeer out}, apply host g blk sourcePeer = .ok out ->
      orphanCount out.chain ≤ orphanCount g + 1)
    (haborts : forall {offered host g blk sourcePeer}, I (blk :: offered) none host g ->
      orphanCount g < n -> ErrorsIn F (apply host g blk sourcePeer))
    {waiting : List OrphanEntry} {offered : List Block} {host : Host} {g : ChainState}
    (hpre : I (waiting.map Prod.fst ++ offered) none host g)
    (hsize : orphanCount g + waiting.length ≤ n) :
    ErrorsIn F (VisionCore.offerWaiting apply waiting host g) := by
  induction waiting generalizing host g with
  | nil => exact ErrorsIn.ok _
  | cons entry rest ih =>
      rcases entry with ⟨blk, arrival, sourcePeer⟩
      rw [List.length_cons] at hsize
      have hforget : orphanCount (forgetOrphan g blk.hash) = orphanCount g := rfl
      have hpre' : I (blk :: (rest.map Prod.fst ++ offered)) none host
          (forgetOrphan g blk.hash) := hI.forget hpre
      refine ErrorsIn.bind (haborts hpre' (by omega)) ?_
      intro applied happlied
      have hnext := hgrow happlied
      exact ih (happly hpre' happlied) (by omega)

theorem processOrphansWith_errorsIn (hI : PromotionInvariant P I) {apply : Apply} {n : Nat}
    (happly : forall {offered host g blk sourcePeer out},
      I (blk :: offered) none host g -> apply host g blk sourcePeer = .ok out ->
        I offered none out.host out.chain)
    (hgrow : forall {host g blk sourcePeer out}, apply host g blk sourcePeer = .ok out ->
      orphanCount out.chain ≤ orphanCount g + 1)
    (haborts : forall {offered host g blk sourcePeer}, I (blk :: offered) none host g ->
      orphanCount g < n -> ErrorsIn F (apply host g blk sourcePeer))
    {offered : List Block} {host : Host} {g : ChainState} {key : String}
    (hpre : I offered (some key) host g) (hsize : orphanCount g ≤ n) :
    ErrorsIn F (VisionCore.processOrphansWith apply host g key) := by
  unfold VisionCore.processOrphansWith
  cases hslot : g.orphanPool[key]? with
  | none => exact ErrorsIn.ok _
  | some waiting =>
      have htake := orphanCount_takeWaiting hslot
      exact hI.offerWaiting_errorsIn (n := n) happly hgrow haborts (hI.take hpre hslot)
        (by omega)

/-- A call aborts only as the pipeline does under the invariant. -/
theorem applyBlockFuel_errorsIn (hI : PromotionInvariant P I)
    (hstep : forall {offered host g blk sourcePeer}, I (blk :: offered) none host g ->
      ErrorsIn F (acceptBlock P host g blk sourcePeer))
    {fuel : Nat} {offered : List Block} {host : Host} {g : ChainState} {blk : Block}
    {sourcePeer : Option String} (hpre : I (blk :: offered) none host g)
    (hfuel : orphanCount g < fuel) :
    ErrorsIn F (VisionCore.applyBlockFuel P fuel host g blk sourcePeer) := by
  induction fuel generalizing offered host g blk sourcePeer with
  | zero => cases hfuel
  | succ fuel ih =>
      refine ErrorsIn.bind (hstep hpre) ?_
      intro step hrun
      have hpost := hI.accept hpre hrun
      cases hpromote : step.promote with
      | none => exact ErrorsIn.ok _
      | some key =>
          have hcount := (acceptBlock_orphanCount_le hrun).2 (by rw [hpromote]; simp)
          rw [hpromote] at hpost
          have hprocess : ErrorsIn F (VisionCore.processOrphansWith
              (VisionCore.applyBlockFuel P fuel) step.host step.chain key) :=
            hI.processOrphansWith_errorsIn (n := fuel) hI.applyBlockFuel
              applyBlockFuel_orphanCount_le ih hpost (by omega)
          refine ErrorsIn.bind hprocess ?_
          intro out _
          exact ErrorsIn.ok _

theorem applyBlock_errorsIn (hI : PromotionInvariant P I)
    (hstep : forall {offered host g blk sourcePeer}, I (blk :: offered) none host g ->
      ErrorsIn F (acceptBlock P host g blk sourcePeer))
    {offered : List Block} {host : Host} {g : ChainState} {blk : Block}
    {sourcePeer : Option String} (hpre : I (blk :: offered) none host g) :
    ErrorsIn F (VisionCore.applyBlock P host g blk sourcePeer) :=
  hI.applyBlockFuel_errorsIn hstep hpre (Nat.lt_succ_self _)

theorem processOrphans_errorsIn (hI : PromotionInvariant P I)
    (hstep : forall {offered host g blk sourcePeer}, I (blk :: offered) none host g ->
      ErrorsIn F (acceptBlock P host g blk sourcePeer))
    {offered : List Block} {host : Host} {g : ChainState} {key : String}
    (hpre : I offered (some key) host g) :
    ErrorsIn F (VisionCore.processOrphans P host g key) :=
  hI.processOrphansWith_errorsIn (n := orphanCount g) hI.applyBlock
    applyBlockFuel_orphanCount_le (fun hinvariant _ => hI.applyBlock_errorsIn hstep hinvariant)
    hpre (Nat.le_refl _)

/-- When the pipeline never aborts under the invariant, neither does a call. -/
theorem applyBlock_total (hI : PromotionInvariant P I)
    (hstep : forall {offered host g blk sourcePeer}, I (blk :: offered) none host g ->
      exists step, acceptBlock P host g blk sourcePeer = .ok step)
    {offered : List Block} {host : Host} {g : ChainState} {blk : Block}
    {sourcePeer : Option String} (hpre : I (blk :: offered) none host g) :
    exists out, VisionCore.applyBlock P host g blk sourcePeer = .ok out := by
  refine ErrorsIn.exists_ok (hI.applyBlock_errorsIn ?_ hpre)
  intro offered host g blk sourcePeer hinvariant
  rcases @hstep _ _ _ _ sourcePeer hinvariant with ⟨step, hrun⟩
  rw [hrun]
  exact ErrorsIn.ok step

end PromotionInvariant

end VisionCore
