import VisionCore.Chain.KnownHashes
import VisionCore.Chain.Run
import VisionCore.Chain.Sample

/-!
# Completeness of promotion

Whenever a call of `applyBlock` returns, no block waits for a known hash: the
blocks that waited for one that the call has made known were offered to acceptance
within the call.
-/

namespace VisionCore

open Std
open Foundation

/-!
# The blocks that a call offers
-/

abbrev Offers := Host -> ChainState -> Block -> Option String -> List Block

/-- The blocks offered by `offerWaiting`, in order. -/
def waitingOffers (apply : Apply) (offers : Offers) :
    List OrphanEntry -> Host -> ChainState -> List Block
  | [], _, _ => []
  | (blk, _, sourcePeer) :: rest, host, g =>
      offers host (forgetOrphan g blk.hash) blk (some sourcePeer) ++
        match apply host (forgetOrphan g blk.hash) blk (some sourcePeer) with
        | .ok applied => waitingOffers apply offers rest applied.host applied.chain
        | .error _ => []

/-- The blocks offered by `processOrphansWith`. -/
def slotOffers (apply : Apply) (offers : Offers) (host : Host) (g : ChainState)
    (parentHash : String) : List Block :=
  match g.orphanPool[parentHash]? with
  | none => []
  | some waiting => waitingOffers apply offers waiting host (takeWaiting g parentHash)

/-- The blocks offered by `applyBlockFuel`: its own, then those it promotes. -/
def offersFuel (P : Platform) : Nat -> Offers
  | 0, _, _, _, _ => []
  | fuel + 1, host, g, blk, sourcePeer =>
      blk ::
        match acceptBlock P host g blk sourcePeer with
        | .error _ => []
        | .ok step =>
            match step.promote with
            | none => []
            | some hash =>
                slotOffers (applyBlockFuel P fuel) (offersFuel P fuel) step.host step.chain hash

/-- The blocks that a call of `applyBlock` hands to acceptance. -/
def offers (P : Platform) : Offers := fun host g blk sourcePeer =>
  offersFuel P (orphanCount g + 1) host g blk sourcePeer

/-!
# Nothing waits for a known hash
-/

/-- The chain between two steps; only the slot of `key` may wait for a known hash. -/
structure Shelved (g : ChainState) (key : Option String) : Prop where
  catalogued : Catalogued g
  started : g.blocks ≠ []
  placed : forall {k : String} {entry : OrphanEntry}, Waits g k entry ->
    entry.1.header.parentHash = k
  bounded : orphanCount g ≤ orphanPoolMax
  unknown : forall {k : String}, k ∈ g.orphanPool -> Known g k -> key = some k

theorem mem_orphanPool_pruned {g : ChainState} {k : String}
    (h : k ∈ (pruneOldOrphans g).orphanPool) : k ∈ g.orphanPool := by
  by_cases hfull : orphanPoolMax ≤ orphanCount g
  · rcases pruneOldOrphans_full hfull with ⟨key, waiting, pos, evicted, hslot, _, hpruned⟩
    have hkey : key ∈ g.orphanPool := by
      rw [ExtTreeMap.mem_iff_isSome_getElem?, hslot]
      rfl
    rw [hpruned] at h
    dsimp only at h
    split at h
    · exact ExtTreeMap.mem_of_mem_erase h
    · cases mem_insert_iff.mp h with
      | inl heq => rwa [← heq]
      | inr hmem => exact hmem
  · rwa [pruneOldOrphans_eq (Nat.not_le.mp hfull)] at h

theorem mem_orphanPool_of_waits {g : ChainState} {k : String} {entry : OrphanEntry}
    (h : Waits g k entry) : k ∈ g.orphanPool := by
  rcases h with ⟨waiting, hslot, _⟩
  rw [ExtTreeMap.mem_iff_isSome_getElem?, hslot]
  rfl

section Steps

variable {P : Platform} {host : Host} {g : ChainState} {blk : Block}
  {sourcePeer : Option String} {step : Step}

/-- An orphan is stored under a hash that is not known. -/
theorem Shelved.addOrphan (h : Shelved g none) (now : UInt64) (peer : String)
    (hunknown : ¬ParentKnown g blk) : Shelved (addOrphan now g blk peer) none := by
  rcases addOrphan_frame now g blk peer with ⟨pool, byHash, hframe⟩
  refine ⟨?_, ?_, ?_, orphanCount_addOrphan_le now blk peer h.bounded, ?_⟩
  · rw [hframe]
    exact h.catalogued.congr rfl rfl rfl
  · rw [hframe]
    exact h.started
  · intro k entry hwaits
    rcases waits_addOrphan.mp hwaits with ⟨hkey, hentry⟩ | hold
    · rw [hentry, hkey]
    · exact h.placed (waits_pruneOldOrphans hold)
  · intro k hk hknown
    rw [addOrphan_known_iff] at hknown
    unfold VisionCore.addOrphan at hk
    cases mem_insert_iff.mp hk with
    | inl heq =>
        rw [← heq] at hknown
        exact absurd hknown hunknown
    | inr hmem => exact h.unknown (mem_orphanPool_pruned hmem) hknown

theorem Shelved.accept (h : Shelved g none)
    (hrun : acceptBlock P host g blk sourcePeer = .ok step) :
    Shelved step.chain step.promote := by
  rcases acceptBlock_pool hrun with ⟨hpool, _, _⟩ | ⟨_, hunknown, hpromote, hstored⟩
  · rcases acceptBlock_catalogued h.catalogued h.started hrun with ⟨hcat, hstarted, hknown⟩
    refine ⟨hcat, hstarted, ?_, ?_, ?_⟩
    · intro k entry hwaits
      exact h.placed ((Waits.congr hpool).mp hwaits)
    · rw [orphanCount_congr hpool]
      exact h.bounded
    · intro k hk hnow
      rw [hpool] at hk
      cases (hknown k).mp hnow with
      | inl hbefore => cases h.unknown hk hbefore
      | inr hpromoted => exact hpromoted
  · rw [hpromote, hstored]
    exact h.addOrphan _ _ hunknown

theorem Shelved.take {key : String} (h : Shelved g (some key)) :
    Shelved (takeWaiting g key) none where
  catalogued := h.catalogued.congr rfl rfl rfl
  started := h.started
  placed := fun hwaits => h.placed (waits_takeWaiting.mp hwaits).2
  bounded := by
    cases hslot : g.orphanPool[key]? with
    | none =>
        have hsame : (takeWaiting g key).orphanPool = g.orphanPool := erase_of_none hslot
        rw [orphanCount_congr hsame]
        exact h.bounded
    | some waiting =>
        have hcount := orphanCount_takeWaiting hslot
        have hbound := h.bounded
        omega
  unknown := by
    intro k hk hknown
    have hmem : k ∈ g.orphanPool.erase key := hk
    rw [ExtTreeMap.mem_erase] at hmem
    cases h.unknown hmem.2 hknown
    exact absurd ReflCmp.compare_self hmem.1

/-- Promotion leaves nothing that waits for a known hash. -/
theorem promotionInvariant_shelved (P : Platform) :
    PromotionInvariant P fun _ key _ g => Shelved g key where
  accept := fun hpre hrun => hpre.accept hrun
  idle := by
    intro offered key host g hpre hslot
    have hsame : (VisionCore.takeWaiting g key).orphanPool = g.orphanPool := erase_of_none hslot
    have htaken := hpre.take
    refine ⟨hpre.catalogued, hpre.started, hpre.placed, hpre.bounded, ?_⟩
    intro k hk hknown
    rw [← hsame] at hk
    exact htaken.unknown hk hknown
  take := fun hpre _ => hpre.take
  forget := fun hpre => ⟨hpre.catalogued.congr rfl rfl rfl, hpre.started, hpre.placed,
    hpre.bounded, hpre.unknown⟩

theorem GenesisApplied.shelved (h : GenesisApplied P g) : Shelved g none := by
  rcases h.eq with ⟨db, rfl⟩
  have hempty : Catalogued (ChainState.empty db) := by
    constructor
    · intro blk hmem
      cases hmem
    · intro hash blk hslot
      simp [ChainState.empty] at hslot
  refine ⟨(hempty.pushCanonical genesisBlock 0).congr rfl rfl rfl, ?_, ?_, ?_, ?_⟩
  · exact List.cons_ne_nil _ _
  · rintro k entry ⟨waiting, hslot, _⟩
    simp [genesisApplied, pushCanonical, ChainState.empty] at hslot
  · have hcount : orphanCount (genesisApplied (ChainState.empty db) genesisBlock) = 0 := rfl
    rw [hcount]
    exact Nat.zero_le _
  · intro k hk _
    simp [genesisApplied, pushCanonical, ChainState.empty] at hk

theorem Shelved.applyAll {g' : ChainState} {calls : List Call} (h : Shelved g none)
    (hrun : applyAll P g calls = .ok g') : Shelved g' none := by
  refine foldlM_induction (I := fun g => Shelved g none) ?_ h hrun
  intro g call g' _ hpre hcall
  rcases applyCall_ok hcall with ⟨out, hout, rfl⟩
  exact @PromotionInvariant.applyBlock P _ (promotionInvariant_shelved P) [] _ _ _ _ _ hpre hout

end Steps

/-!
# What leaves the pool is offered
-/

/-- Between two states of a promotion the pool only loses entries, and those it
loses are in the log. -/
structure Accounted (g g' : ChainState) (log : List Block) : Prop where
  known : forall {h : String}, Known g h -> Known g' h
  fewer : forall {k : String} {entry : OrphanEntry}, Waits g' k entry -> Waits g k entry
  logged : forall {k : String} {entry : OrphanEntry}, Waits g k entry ->
    Waits g' k entry ∨ entry.1 ∈ log

theorem Accounted.refl (g : ChainState) : Accounted g g [] where
  known := fun h => h
  fewer := fun h => h
  logged := Or.inl

theorem Accounted.trans {g g' g'' : ChainState} {log log' : List Block}
    (h : Accounted g g' log) (h' : Accounted g' g'' log') : Accounted g g'' (log ++ log') where
  known := fun hknown => h'.known (h.known hknown)
  fewer := fun hwaits => h.fewer (h'.fewer hwaits)
  logged := by
    intro k entry hwaits
    rcases h.logged hwaits with hstill | hfirst
    · rcases h'.logged hstill with hlast | hsecond
      · exact Or.inl hlast
      · exact Or.inr (List.mem_append_right _ hsecond)
    · exact Or.inr (List.mem_append_left _ hfirst)

/-- Every entry lies in the slot of its block's parent. -/
def Placed (g : ChainState) : Prop :=
  forall {k : String} {entry : OrphanEntry}, Waits g k entry -> entry.1.header.parentHash = k

/-- Calls on blocks of known parents account for the pool in their offers. -/
def AccountsFor (apply : Apply) (offers : Offers) : Prop :=
  forall {host : Host} {g : ChainState} {blk : Block} {sourcePeer : Option String} {out : Applied},
    Placed g -> ParentKnown g blk -> apply host g blk sourcePeer = .ok out ->
      Accounted g out.chain (offers host g blk sourcePeer) ∧ blk ∈ offers host g blk sourcePeer

section Accounts

variable {P : Platform} {host host' : Host} {g g' : ChainState} {apply : Apply} {offers : Offers}

theorem offerWaiting_accounted (happly : AccountsFor apply offers) {waiting : List OrphanEntry}
    (hplaced : Placed g) (hparents : forall entry, entry ∈ waiting -> ParentKnown g entry.1)
    (hrun : offerWaiting apply waiting host g = .ok (g', host')) :
    Accounted g g' (waitingOffers apply offers waiting host g) ∧
      forall entry, entry ∈ waiting -> entry.1 ∈ waitingOffers apply offers waiting host g := by
  induction waiting generalizing host g with
  | nil =>
      cases hrun
      exact ⟨Accounted.refl _, fun entry hmem => by cases hmem⟩
  | cons entry rest ih =>
      rcases entry with ⟨blk, arrival, sourcePeer⟩
      rcases bind_eq_ok.mp hrun with ⟨applied, hone, hrest⟩
      rcases @happly host (forgetOrphan g blk.hash) blk (some sourcePeer) applied hplaced
        (hparents _ List.mem_cons_self) hone with ⟨hfirst, hself⟩
      have hrestParents : forall e, e ∈ rest -> ParentKnown applied.chain e.1 := fun e he =>
        hfirst.known (hparents e (List.mem_cons_of_mem _ he))
      have hrestPlaced : Placed applied.chain := fun hwaits => hplaced (hfirst.fewer hwaits)
      rcases ih hrestPlaced hrestParents hrest with ⟨hlast, hothers⟩
      unfold waitingOffers
      rw [hone]
      have hstart : Accounted g (forgetOrphan g blk.hash) [] := ⟨fun h => h, fun h => h, Or.inl⟩
      refine ⟨hstart.trans (hfirst.trans hlast), ?_⟩
      intro e he
      cases List.mem_cons.mp he with
      | inl heq =>
          rw [heq]
          exact List.mem_append_left _ hself
      | inr hmem => exact List.mem_append_right _ (hothers e hmem)

theorem processOrphansWith_accounted (happly : AccountsFor apply offers) {key : String}
    (hplaced : Placed g) (hknown : Known g key)
    (hrun : processOrphansWith apply host g key = .ok (g', host')) :
    Accounted g g' (slotOffers apply offers host g key) := by
  unfold processOrphansWith at hrun
  unfold slotOffers
  cases hslot : g.orphanPool[key]? with
  | none =>
      rw [hslot] at hrun
      cases hrun
      exact Accounted.refl g
  | some waiting =>
      rw [hslot] at hrun
      have hparents : forall entry, entry ∈ waiting -> ParentKnown (takeWaiting g key) entry.1 := by
        intro entry hentry
        have hparent : Known g entry.1.header.parentHash := by
          rw [hplaced ⟨waiting, hslot, hentry⟩]
          exact hknown
        exact hparent
      have htaken : Placed (takeWaiting g key) :=
        fun hwaits => hplaced (waits_takeWaiting.mp hwaits).2
      rcases offerWaiting_accounted happly htaken hparents hrun with ⟨hrest, hoffered⟩
      constructor
      · exact hrest.known
      · exact fun hwaits => (waits_takeWaiting.mp (hrest.fewer hwaits)).2
      · intro k entry hwaits
        by_cases hkey : key = k
        · rcases hwaits with ⟨other, hother, hentry⟩
          rw [← hkey, hslot] at hother
          cases hother
          exact Or.inr (hoffered entry hentry)
        · exact hrest.logged (waits_takeWaiting.mpr ⟨hkey, hwaits⟩)

/-- A step that stores no orphan keeps the pool. -/
theorem acceptBlock_accounted {blk : Block} {sourcePeer : Option String} {step : Step}
    (hstep : acceptBlock P host g blk sourcePeer = .ok step)
    (hpool : step.chain.orphanPool = g.orphanPool) : Accounted g step.chain [] where
  known := fun {h} => (acceptBlock_known hstep).1 h
  fewer := (Waits.congr hpool).mp
  logged := fun hwaits => Or.inl ((Waits.congr hpool).mpr hwaits)

theorem applyBlockFuel_accounted (P : Platform) (fuel : Nat) :
    AccountsFor (applyBlockFuel P fuel) (offersFuel P fuel) := by
  induction fuel with
  | zero =>
      intro host g blk sourcePeer out _ _ hrun
      cases hrun
  | succ fuel ih =>
      intro host g blk sourcePeer out hplaced hparent hrun
      rcases bind_eq_ok.mp hrun with ⟨step, hstep, hrest⟩
      have hsame : Accounted g step.chain [] := by
        rcases acceptBlock_pool hstep with ⟨hpool, _, _⟩ | ⟨_, hunknown, _⟩
        · exact acceptBlock_accounted hstep hpool
        · exact absurd hparent hunknown
      refine ⟨?_, List.mem_cons_self⟩
      unfold offersFuel
      rw [hstep]
      dsimp only
      cases hpromote : step.promote with
      | none =>
          rw [hpromote] at hrest
          cases hrest
          exact ⟨hsame.known, hsame.fewer, fun hwaits => (hsame.logged hwaits).imp_right (by simp)⟩
      | some key =>
          rw [hpromote] at hrest
          rcases bind_eq_ok.mp hrest with ⟨⟨g', host'⟩, hprocess, hfinal⟩
          cases hfinal
          have hstepPlaced : Placed step.chain := fun hwaits => hplaced (hsame.fewer hwaits)
          have hpromoted := hsame.trans (processOrphansWith_accounted ih hstepPlaced
            ((acceptBlock_known hstep).2 key hpromote) hprocess)
          exact ⟨hpromoted.known, hpromoted.fewer,
            fun hwaits => (hpromoted.logged hwaits).imp_right (List.mem_cons_of_mem _)⟩

end Accounts

/-!
# Runs
-/

section Runs

variable {P : Platform} {s g : ChainState} {calls : List Call}

/-- A call that starts with nothing waiting for a known hash offers every block
that waited for a hash it has made known. -/
theorem Shelved.offered {host : Host} {blk : Block} {sourcePeer : Option String} {out : Applied}
    (h : Shelved g none) (hout : applyBlock P host g blk sourcePeer = .ok out) {key : String}
    {entry : OrphanEntry} (hwaits : Waits g key entry) (hknown : Known out.chain key) :
    entry.1 ∈ offers P host g blk sourcePeer := by
  have hafter : Shelved out.chain none :=
    @PromotionInvariant.applyBlock P _ (promotionInvariant_shelved P) [] _ _ _ _ _ h hout
  rcases applyBlock_first hout with ⟨step, hstep, _, hpromotion⟩
  have hgone : ¬Waits out.chain key entry := by
    intro hstill
    cases hafter.unknown (mem_orphanPool_of_waits hstill) hknown
  rcases acceptBlock_pool hstep with ⟨hpool, _, _⟩ | ⟨_, _, hnone, hstored⟩
  · have hsame := acceptBlock_accounted hstep hpool
    rcases hpromotion with ⟨_, hchain, _⟩ | ⟨promoted, hpromote, hprocess⟩
    · rw [hchain] at hgone
      exact absurd ((Waits.congr hpool).mpr hwaits) hgone
    · have hplaced : Placed step.chain := fun hwaits => h.placed (hsame.fewer hwaits)
      have hrest := processOrphansWith_accounted (applyBlockFuel_accounted P _) hplaced
        ((acceptBlock_known hstep).2 promoted hpromote) hprocess
      rcases (hsame.trans hrest).logged hwaits with hstill | hlogged
      · exact absurd hstill hgone
      · unfold offers offersFuel
        rw [hstep]
        dsimp only
        rw [hpromote]
        exact List.mem_cons_of_mem _ hlogged
  · -- the block was stored as an orphan, so no hash has become known
    rcases hpromotion with ⟨_, hchain, _⟩ | ⟨promoted, hpromote, _⟩
    · rw [hchain, hstored, addOrphan_known_iff] at hknown
      cases h.unknown (mem_orphanPool_of_waits hwaits) hknown
    · rw [hnone] at hpromote
      cases hpromote

/-- After every call of a run from genesis the pool is within its limit and no
block waits for a known hash; what waited for a hash that a call makes known was
offered by that call. -/
theorem promotion_complete (hgenesis : GenesisApplied P s) (hrun : applyAll P s calls = .ok g) :
    orphanCount g ≤ orphanPoolMax ∧
      (forall key, key ∈ g.orphanPool -> ¬Known g key) ∧
      forall (call : Call) (out : Applied),
        applyBlock P call.host g call.blk call.sourcePeer = .ok out ->
          forall (key : String) (entry : OrphanEntry), Waits g key entry ->
            Known out.chain key -> entry.1 ∈ offers P call.host g call.blk call.sourcePeer := by
  have hshelved := hgenesis.shelved.applyAll hrun
  refine ⟨hshelved.bounded, ?_, ?_⟩
  · intro key hkey hknown
    cases hshelved.unknown hkey hknown
  · intro call out hout key entry hwaits hknown
    exact hshelved.offered hout hwaits hknown

/-- A second block that arrives first is offered with the first one. -/
theorem promotion_complete_secondBlock :
    exists (g : ChainState) (out : Applied),
      applyAll samplePlatform sampleGenesis [sampleCall secondBlock] = .ok g ∧
      applyBlock samplePlatform sampleHost g firstBlock none = .ok out ∧
      (forall key, key ∈ g.orphanPool -> ¬Known g key) ∧
      secondBlock ∈ offers samplePlatform sampleHost g firstBlock none := by
  have hvalues :
      (applyAll samplePlatform sampleGenesis [sampleCall secondBlock]).toOption.bind
        (fun g => (applyBlock samplePlatform sampleHost g firstBlock none).toOption.map
          fun out => ((g.orphanPool[firstBlock.hash]?).map fun waiting => waiting.map Prod.fst,
            out.chain.canonIndex.contains firstBlock.hash)) =
      some (some [secondBlock], true) := by
    decide +kernel
  rcases Option.bind_eq_some_iff.mp hvalues with ⟨g, hg, hcall⟩
  rcases toOption_map_eq_some hcall with ⟨out, hout, heq⟩
  have hrun := toOption_eq_some.mp hg
  rcases Option.map_eq_some_iff.mp (Prod.mk.inj heq).1 with ⟨waiting, hslot, hblocks⟩
  rcases promotion_complete sampleGenesis_applied hrun with ⟨_, hunknown, hoffered⟩
  have hmem : secondBlock ∈ waiting.map Prod.fst := by
    rw [hblocks]
    exact List.mem_cons_self
  rcases List.mem_map.mp hmem with ⟨entry, hentry, hblock⟩
  have hpromoted := hoffered (sampleCall firstBlock) out hout firstBlock.hash entry
    ⟨waiting, hslot, hentry⟩ (Or.inl (Prod.mk.inj heq).2)
  rw [hblock] at hpromoted
  exact ⟨g, out, hrun, hout, hunknown, hpromoted⟩

end Runs

end VisionCore
