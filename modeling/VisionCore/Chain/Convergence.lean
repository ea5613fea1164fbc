import VisionCore.Chain.KnownHashes
import VisionCore.Chain.ForkChoice
import VisionCore.Chain.Verdict
import VisionCore.Foundation.Delivery

/-!
# Convergence

Which blocks a node knows after a run depends on the set of the delivered blocks
alone.  Parking, promotion and reorgs happen at different moments in different
orders, but after each call every block delivered so far is known, waits for an
unknown parent, or is refused on the path of its parent.
-/

namespace VisionCore

open Std
open Foundation

/-!
# The fate of a delivered block
-/

/-- Acceptance of a block on a path, at a fixed reading of the clock. -/
def AcceptedOn (P : Platform) (now : UInt64) (blk : Block) : List Block -> Prop
  | [] => False
  | parent :: rest =>
      checkStructure P blk = .ok () ∧ blk.header.number ≠ 0 ∧
        exists before after, lineState P (parent :: rest) = .ok before ∧
          lineVerdict P now blk parent rest before = .ok after

/-- What has become of a block that is not on offer; `pending` is the hash whose
waiting blocks are about to be offered. -/
inductive Handled (P : Platform) (now : UInt64) (g : ChainState) (pending : Option String)
    (blk : Block) : Prop where
  | known : resolveBlock g blk.hash = some blk -> Handled P now g pending blk
  | unfit : (forall path, ¬AcceptedOn P now blk path) -> Handled P now g pending blk
  | barred : blk.hash = genesisHash -> Handled P now g pending blk
  | waiting {arrival : UInt64} {peer : String} :
      Waits g blk.header.parentHash (blk, arrival, peer) ->
      resolveBlock g blk.header.parentHash = none ∨ pending = some blk.header.parentHash ->
      Handled P now g pending blk
  | refused {parent : Block} {rest : List Block} : KnownPath g (parent :: rest) ->
      blk.header.parentHash = parent.hash -> ¬AcceptedOn P now blk (parent :: rest) ->
      Handled P now g pending blk

section Fate

variable {P : Platform} {D : Block -> Prop} {now : UInt64} {host : Host} {g g' : ChainState}
  {pending : Option String} {b blk parent : Block} {rest : List Block} {candidateCw : Nat}
  {state : TxExecutionState} {sourcePeer : Option String} {step : Step} {key : String}

theorem Admitted.acceptedOn (hg : Represents P D g) (hr : Replays P g)
    (h : Admitted P D host g blk parent rest candidateCw state) :
    AcceptedOn P host.now blk (parent :: rest) := by
  rcases hr.known h.joins.path with ⟨before, hbefore⟩
  refine ⟨h.vetted.structure_ok, h.joins.number_ne, before, state, hbefore, ?_⟩
  rw [← validateAgainstParent_eq hg hr h.joins.path h.joins.parent_eq hbefore]
  exact h.vetted.valid

/-- The new block of a step that promotes joins the known blocks. -/
theorem Effect.joined (hg : Represents P D g) (h : Effect P D host g blk sourcePeer step)
    (hpromote : step.promote = some key) :
    key = blk.hash ∧
      exists parent rest candidateCw state, Admitted P D host g blk parent rest candidateCw state ∧
        resolveBlock step.chain = Store.put chainLineage (resolveBlock g) blk := by
  cases h with
  | rejected _ => cases hpromote
  | orphaned _ _ _ => cases hpromote
  | extended hadmitted _ hreverse _ _ =>
      cases hpromote
      exact ⟨rfl, _, _, _, _, hadmitted, hadmitted.extended_known hg hreverse _⟩
  | recorded hadmitted _ _ _ =>
      cases hpromote
      exact ⟨rfl, _, _, _, _, hadmitted, hadmitted.recorded_known hg⟩
  | moved hmoves _ =>
      cases hpromote
      exact ⟨rfl, _, _, _, _, hmoves.admitted,
        hmoves.known.trans (hmoves.admitted.recorded_known hg)⟩

theorem Handled.congr (h : Handled P now g pending b)
    (hknown : resolveBlock g' = resolveBlock g) (hpool : g'.orphanPool = g.orphanPool) :
    Handled P now g' pending b := by
  cases h with
  | known hb =>
      refine Handled.known ?_
      rw [hknown]
      exact hb
  | unfit hunfit => exact Handled.unfit hunfit
  | barred hbarred => exact Handled.barred hbarred
  | waiting hwaits hparent =>
      rw [← hknown] at hparent
      exact Handled.waiting ((Waits.congr hpool).mpr hwaits) hparent
  | refused hpath hparent hrefused =>
      refine Handled.refused ?_ hparent hrefused
      unfold KnownPath
      rw [hknown]
      exact hpath

/-- A new known block may end the waiting of its children, and nothing else. -/
theorem Handled.put (h : Handled P now g none b) (hunknown : resolveBlock g blk.hash = none)
    (hknown : resolveBlock g' = Store.put chainLineage (resolveBlock g) blk)
    (hpool : g'.orphanPool = g.orphanPool) : Handled P now g' (some blk.hash) b := by
  cases h with
  | known hb =>
      refine Handled.known ?_
      rw [hknown]
      exact Store.put_mono (F := chainLineage) hunknown hb
  | unfit hunfit => exact Handled.unfit hunfit
  | barred hbarred => exact Handled.barred hbarred
  | waiting hwaits hparent =>
      refine Handled.waiting ((Waits.congr hpool).mpr hwaits) ?_
      by_cases hname : b.header.parentHash = blk.hash
      · exact Or.inr (congrArg some hname.symm)
      · left
        rw [hknown, Store.put_of_ne (F := chainLineage) hname]
        exact hparent.resolve_right (by simp)
  | refused hpath hparent hrefused =>
      refine Handled.refused ?_ hparent hrefused
      unfold KnownPath
      rw [hknown]
      exact hpath.put hunknown

/-- A block that the checks reject is refused for good. -/
theorem handled_of_refused (hg : Represents P D g) (hr : Replays P g) (hD : D blk)
    (hinjective : forall b b', D b -> D b' -> b.hash = b'.hash -> b = b')
    (hrefused : (exists reason, checkStructure P blk = .error reason) ∨ blk.hash ∈ g.seenBlocks ∨
      blk.header.number = 0 ∨
      (ParentKnown g blk ∧
        exists reason, validateAgainstParent P now g blk = .error (.err reason))) :
    Handled P now g none blk := by
  rcases hrefused with ⟨reason, hstructure⟩ | hseen | hnumber | ⟨hknown, reason, hinvalid⟩
  · refine Handled.unfit ?_
    intro path haccepted
    cases path with
    | nil => exact haccepted
    | cons parent rest =>
        rw [haccepted.1] at hstructure
        cases hstructure
  · rcases Option.ne_none_iff_exists'.mp (hg.seen_known hseen) with ⟨known, hlookup⟩
    have hname : known.hash = blk.hash := hg.rooted.named hlookup
    rcases hg.candidate hlookup with rfl | ⟨hknownD, _⟩
    · exact Handled.barred hname.symm
    · rw [hinjective known blk hknownD hD hname] at hlookup
      exact Handled.known hlookup
  · refine Handled.unfit ?_
    intro path haccepted
    cases path with
    | nil => exact haccepted
    | cons parent rest => exact haccepted.2.1 hnumber
  · rcases hg.parentKnown_iff.mp hknown with ⟨parent, hparent⟩
    rcases hg.rooted.path hparent with ⟨rest, hpath⟩
    have hname : blk.header.parentHash = parent.hash := (hg.rooted.named hparent).symm
    refine Handled.refused hpath hname ?_
    rintro ⟨_, _, before, after, hbefore, hverdict⟩
    rw [validateAgainstParent_eq hg hr hpath hname hbefore, hverdict] at hinvalid
    cases hinvalid

end Fate

/-!
# The invariant
-/

/-- What holds while the blocks of `S`, a part of `D`, have been delivered. -/
structure Converging (P : Platform) (D : Block -> Prop) (now : UInt64) (S : Block -> Prop)
    (offered : List Block) (pending : Option String) (host : Host) (g : ChainState) : Prop where
  represents : Represents P D g
  replays : Replays P g
  clock : forall i, host.clock i = now
  writes : forall i, host.writeOk i = true
  sound : forall {l}, KnownPath g l -> Admissible chainLineage (AcceptedOn P now) D l
  room : orphanCount g + offered.length ≤ orphanPoolMax
  delivered : forall b, b ∈ offered -> D b
  handled : forall b, S b -> b ∈ offered ∨ Handled P now g pending b

section Invariant

variable {P : Platform} {D S : Block -> Prop} {now : UInt64} {host host' : Host}
  {g : ChainState} {blk parent : Block} {rest offered : List Block} {candidateCw : Nat}
  {state : TxExecutionState} {events : List ReorgEvent}

theorem Handled.addOrphan {b : Block} {peer : String} {arrival : UInt64}
    (h : Handled P now g none b) (hroom : orphanCount g < orphanPoolMax) :
    Handled P now (addOrphan arrival g blk peer) none b := by
  have hknown := (addOrphan_known arrival g blk peer).1
  cases h with
  | known hb =>
      refine Handled.known ?_
      rw [hknown]
      exact hb
  | unfit hunfit => exact Handled.unfit hunfit
  | barred hbarred => exact Handled.barred hbarred
  | waiting hwaits hparent =>
      rw [← hknown] at hparent
      rw [show g = pruneOldOrphans g from (pruneOldOrphans_eq hroom).symm] at hwaits
      exact Handled.waiting (waits_addOrphan.mpr (Or.inr hwaits)) hparent
  | refused hpath hparent hrefused =>
      refine Handled.refused ?_ hparent hrefused
      unfold KnownPath
      rw [hknown]
      exact hpath

/-- The blocks handled so far, with the new block among them. -/
theorem Converging.handled_cons (h : Converging P D now S (blk :: offered) none host g)
    {g' : ChainState} {pending : Option String} (hblk : Handled P now g' pending blk)
    (hkeep : forall b, Handled P now g none b -> Handled P now g' pending b) (b : Block)
    (hb : S b) : b ∈ offered ∨ Handled P now g' pending b := by
  rcases h.handled b hb with hoffered | hhandled
  · rcases List.mem_cons.mp hoffered with rfl | hrest
    · exact Or.inr hblk
    · exact Or.inl hrest
  · exact Or.inr (hkeep b hhandled)

theorem Converging.sound_put (h : Converging P D now S (blk :: offered) none host g)
    (hadmitted : Admitted P D host g blk parent rest candidateCw state) {g' : ChainState}
    (hknown : resolveBlock g' = Store.put chainLineage (resolveBlock g) blk) {l : List Block}
    (hl : KnownPath g' l) : Admissible chainLineage (AcceptedOn P now) D l := by
  cases l with
  | nil => exact absurd rfl hl.ne_nil
  | cons b tail =>
      rcases knownPath_cases h.represents hadmitted.joins hknown hl with ⟨hold, _⟩ | ⟨rfl, rfl⟩
      · exact h.sound hold
      · have haccepted := hadmitted.acceptedOn h.represents h.replays
        rw [show host.now = now from h.clock _] at haccepted
        refine Admissible.step (h.sound hadmitted.joins.path) hadmitted.joins.delivered
          hadmitted.joins.parent_eq ?_ haccepted
        intro hroot
        have hgenesis := hadmitted.joins.path.lookup hadmitted.joins.path.root_mem
        rw [← hroot, chainLineage_name, hadmitted.joins.unknown] at hgenesis
        cases hgenesis

theorem promotionInvariant_converging (hnumbered : NumberedFrom P D)
    (hinjective : forall b b', D b -> D b' -> b.hash = b'.hash -> b = b') :
    PromotionInvariant P fun offered pending host g =>
      Converging P D now S offered pending host g where
  accept := by
    intro offered host g blk sourcePeer step h hrun
    have hg := h.represents
    have hD := h.delivered blk List.mem_cons_self
    have heffect := hg.effect hnumbered hD (acceptBlock_transition hrun)
    rcases heffect.follows with ⟨events, hfollows⟩
    have hrepresents := heffect.represents hg hD
    have hreplays := heffect.replays hg h.replays
    have hclock : forall i, step.host.clock i = now := by
      rw [hfollows.clock]
      exact h.clock
    have hwrites : forall i, step.host.writeOk i = true := by
      rw [hfollows.writeOk]
      exact h.writes
    have hbefore := h.room
    rw [List.length_cons] at hbefore
    have hroom : orphanCount step.chain + offered.length ≤ orphanPoolMax := by
      have hcount := (acceptBlock_orphanCount_le hrun).1
      omega
    have hrest := fun b hb => h.delivered b (List.mem_cons_of_mem blk hb)
    cases hpromote : step.promote with
    | some key =>
        rcases heffect.joined hg hpromote with
          ⟨rfl, parent, rest, candidateCw, state, hadmitted, hknown⟩
        have hpool : step.chain.orphanPool = g.orphanPool := by
          refine (acceptBlock_cases hrun).orphanPool.resolve_right fun hnone => ?_
          rw [hnone.1] at hpromote
          cases hpromote
        have hblk : Handled P now step.chain (some blk.hash) blk := by
          refine Handled.known ?_
          rw [hknown]
          exact Store.put_self (F := chainLineage)
        exact ⟨hrepresents, hreplays, hclock, hwrites, h.sound_put hadmitted hknown, hroom, hrest,
          h.handled_cons hblk fun b hb => hb.put hadmitted.joins.unknown hknown hpool⟩
    | none =>
        cases heffect with
        | extended _ _ _ _ _ => cases hpromote
        | recorded _ _ _ _ => cases hpromote
        | moved _ _ => cases hpromote
        | rejected _ =>
            have hrefused := (acceptBlock_cases hrun).refused h.writes rfl
            rw [show host.now = now from h.clock _] at hrefused
            exact ⟨hrepresents, hreplays, hclock, hwrites, h.sound, hroom, hrest,
              h.handled_cons (handled_of_refused hg h.replays hD hinjective hrefused)
                fun _ hb => hb⟩
        | orphaned _ hunknown _ =>
            have hknown := (addOrphan_known host.now g blk (sourcePeer.getD "anon")).1
            have hparent : resolveBlock (addOrphan host.now g blk (sourcePeer.getD "anon"))
                blk.header.parentHash = none := by
              rw [hknown]
              cases hlookup : resolveBlock g blk.header.parentHash with
              | none => rfl
              | some parent => exact absurd (hg.parentKnown_iff.mpr ⟨parent, hlookup⟩) hunknown
            refine ⟨hrepresents, hreplays, hclock, hwrites, ?_, hroom, hrest, ?_⟩
            · intro l hl
              unfold KnownPath at hl
              rw [hknown] at hl
              exact h.sound hl
            · exact h.handled_cons
                (Handled.waiting (waits_addOrphan.mpr (Or.inl ⟨rfl, rfl⟩)) (Or.inl hparent))
                fun b hb => hb.addOrphan (by omega)
  idle := by
    intro offered key host g h hslot
    refine { h with handled := fun b hb => ?_ }
    rcases h.handled b hb with hoffered | hhandled
    · exact Or.inl hoffered
    · right
      cases hhandled with
      | known hknown => exact Handled.known hknown
      | unfit hunfit => exact Handled.unfit hunfit
      | barred hbarred => exact Handled.barred hbarred
      | refused hpath hparent hrefused => exact Handled.refused hpath hparent hrefused
      | waiting hwaits hparent =>
          rcases hparent with hunknown | hpending
          · exact Handled.waiting hwaits (Or.inl hunknown)
          · rcases hwaits with ⟨waiting, hwaiting, _⟩
            rw [← Option.some.inj hpending, hslot] at hwaiting
            cases hwaiting
  take := by
    intro offered key host g waiting h hslot
    have hentry : forall b, b ∈ waiting.map Prod.fst -> D b := by
      intro b hb
      rcases List.mem_map.mp hb with ⟨entry, hmem, rfl⟩
      exact (h.represents.waiting ⟨waiting, hslot, hmem⟩).1
    constructor
    · exact h.represents.takeWaiting key
    · exact h.replays.congr rfl rfl rfl rfl
    · exact h.clock
    · exact h.writes
    · exact h.sound
    · have hcount := orphanCount_takeWaiting hslot
      have hbefore := h.room
      rw [List.length_append, List.length_map]
      omega
    · intro b hb
      cases List.mem_append.mp hb with
      | inl hnew => exact hentry b hnew
      | inr hold => exact h.delivered b hold
    · intro b hb
      rcases h.handled b hb with hoffered | hhandled
      · exact Or.inl (List.mem_append_right _ hoffered)
      · cases hhandled with
        | known hknown => exact Or.inr (Handled.known hknown)
        | unfit hunfit => exact Or.inr (Handled.unfit hunfit)
        | barred hbarred => exact Or.inr (Handled.barred hbarred)
        | refused hpath hparent hrefused =>
            exact Or.inr (Handled.refused hpath hparent hrefused)
        | waiting hwaits hparent =>
            by_cases hkey : key = b.header.parentHash
            · rcases hwaits with ⟨waiting', hwaiting', hmem⟩
              rw [← hkey, hslot] at hwaiting'
              cases hwaiting'
              exact Or.inl (List.mem_append_left _ (List.mem_map_of_mem hmem))
            · refine Or.inr (Handled.waiting (waits_takeWaiting.mpr ⟨hkey, hwaits⟩) (Or.inl ?_))
              exact hparent.resolve_right fun hpending => hkey (Option.some.inj hpending)
  forget := by
    intro offered blk host g h
    exact ⟨h.represents.forgetOrphan blk.hash, h.replays.congr rfl rfl rfl rfl, h.clock, h.writes,
      h.sound, h.room, h.delivered,
      fun b hb => (h.handled b hb).imp_right fun hhandled => hhandled.congr rfl rfl⟩

end Invariant

/-!
# Runs
-/

/-- What holds between two calls, once the blocks of `S` have been delivered. -/
structure Converged (P : Platform) (D : Block -> Prop) (now : UInt64) (S : Block -> Prop)
    (g : ChainState) : Prop where
  represents : Represents P D g
  replays : Replays P g
  sound : forall {l}, KnownPath g l -> Admissible chainLineage (AcceptedOn P now) D l
  handled : forall b, S b -> Handled P now g none b

/-- A node that starts from applied genesis and is handed exactly the blocks of
`D`, under a standing clock, without database failures, and with room in its
orphan pool before every call. -/
structure Receives (P : Platform) (D : Block -> Prop) (now : UInt64) (s : ChainState)
    (calls : List Call) : Prop where
  genesis : GenesisApplied P s
  delivered : forall b, D b ↔ exists call, call ∈ calls ∧ call.blk = b
  clock : forall call, call ∈ calls -> forall i, call.host.clock i = now
  writes : forall call, call ∈ calls -> forall i, call.host.writeOk i = true
  room : forall before call after g, calls = before ++ call :: after ->
    applyAll P s before = .ok g -> orphanCount g < orphanPoolMax

section Runs

variable {P : Platform} {D S : Block -> Prop} {now : UInt64} {host : Host} {s g g' : ChainState}
  {blk : Block} {sourcePeer : Option String} {out : Applied} {calls : List Call}

theorem Converged.applyBlock (h : Converged P D now S g) (hnumbered : NumberedFrom P D)
    (hinjective : forall b b', D b -> D b' -> b.hash = b'.hash -> b = b') (hD : D blk)
    (hclock : forall i, host.clock i = now) (hwrites : forall i, host.writeOk i = true)
    (hroom : orphanCount g < orphanPoolMax)
    (hrun : applyBlock P host g blk sourcePeer = .ok out) :
    Converged P D now (fun b => S b ∨ b = blk) out.chain := by
  have hstart : Converging P D now (fun b => S b ∨ b = blk) [blk] none host g := by
    constructor
    · exact h.represents
    · exact h.replays
    · exact hclock
    · exact hwrites
    · exact h.sound
    · exact hroom
    · simpa using hD
    · rintro b (hb | rfl)
      · exact Or.inr (h.handled b hb)
      · exact Or.inl List.mem_cons_self
  have hpost := (promotionInvariant_converging hnumbered hinjective).applyBlock hstart hrun
  exact ⟨hpost.represents, hpost.replays, hpost.sound,
    fun b hb => (hpost.handled b hb).resolve_left List.not_mem_nil⟩

theorem Converged.applyAll (h : Converged P D now S g) (hnumbered : NumberedFrom P D)
    (hinjective : forall b b', D b -> D b' -> b.hash = b'.hash -> b = b')
    (hcalls : forall call, call ∈ calls -> D call.blk)
    (hclock : forall call, call ∈ calls -> forall i, call.host.clock i = now)
    (hwrites : forall call, call ∈ calls -> forall i, call.host.writeOk i = true)
    (hroom : forall before call after g', calls = before ++ call :: after ->
      VisionCore.applyAll P g before = .ok g' -> orphanCount g' < orphanPoolMax)
    (hrun : VisionCore.applyAll P g calls = .ok g') :
    Converged P D now (fun b => S b ∨ exists call, call ∈ calls ∧ call.blk = b) g' := by
  induction calls generalizing S g with
  | nil =>
      cases hrun
      exact ⟨h.represents, h.replays, h.sound, fun b hb => by
        rcases hb with hb | ⟨call, hcall, _⟩
        · exact h.handled b hb
        · exact absurd hcall List.not_mem_nil⟩
  | cons call rest ih =>
      rcases bind_eq_ok.mp hrun with ⟨g₁, hcall, hrest⟩
      rcases applyCall_ok hcall with ⟨out, hout, rfl⟩
      have hone := h.applyBlock hnumbered hinjective (hcalls call List.mem_cons_self)
        (hclock call List.mem_cons_self) (hwrites call List.mem_cons_self)
        (hroom [] call rest g rfl rfl) hout
      have htail := ih hone (fun c hc => hcalls c (List.mem_cons_of_mem _ hc))
        (fun c hc => hclock c (List.mem_cons_of_mem _ hc))
        (fun c hc => hwrites c (List.mem_cons_of_mem _ hc))
        (fun before c after g₂ heq hbefore =>
          hroom (call :: before) c after g₂ (by rw [heq]; rfl)
            (bind_eq_ok.mpr ⟨_, hcall, hbefore⟩))
        hrest
      refine ⟨htail.represents, htail.replays, htail.sound, ?_⟩
      rintro b (hb | ⟨c, hc, rfl⟩)
      · exact htail.handled b (Or.inl (Or.inl hb))
      · rcases List.mem_cons.mp hc with rfl | hc
        · exact htail.handled _ (Or.inl (Or.inr rfl))
        · exact htail.handled _ (Or.inr ⟨c, hc, rfl⟩)

/-- Once all of `D` has been delivered, the known blocks are determined by `D`. -/
theorem Converged.saturated (h : Converged P D now D g) :
    Saturated chainLineage (AcceptedOn P now) D (resolveBlock g) where
  rooted := h.represents.rooted
  root := h.represents.chain.lookup h.represents.chain.root_mem
  sound := h.sound
  complete := by
    intro b parent rest hb hpath hparent hname haccepted
    cases h.handled b hb with
    | known hknown => exact hknown
    | unfit hunfit => exact absurd haccepted (hunfit _)
    | barred hbarred => exact absurd hbarred hname
    | waiting _ hunknown =>
        have hlookup := hpath.lookup List.mem_cons_self
        rw [← hparent, chainLineage_parent, hunknown.resolve_right (by simp)] at hlookup
        cases hlookup
    | refused hpath' hparent' hrefused =>
        have hsame : parent.hash = _ := hparent.symm.trans hparent'
        rw [hpath.unique hpath' hsame] at haccepted
        exact absurd haccepted hrefused

theorem GenesisApplied.converged (h : GenesisApplied P s) :
    Converged P D now (fun _ => False) s where
  represents := h.represents
  replays := h.replays
  sound := by
    intro l hl
    rcases h.eq with ⟨db, rfl⟩
    rw [(genesisOnly_genesisApplied (g := ChainState.empty db) rfl rfl rfl rfl rfl).knownPath hl]
    exact Admissible.root
  handled := fun _ hb => hb.elim

theorem Receives.converged (h : Receives P D now s calls) (hnumbered : NumberedFrom P D)
    (hinjective : forall b b', D b -> D b' -> b.hash = b'.hash -> b = b')
    (hrun : VisionCore.applyAll P s calls = .ok g) : Converged P D now D g := by
  have hcalls : forall call, call ∈ calls -> D call.blk :=
    fun call hcall => (h.delivered call.blk).mpr ⟨call, hcall, rfl⟩
  have hstart : Converged P D now (fun _ => False) s := h.genesis.converged
  have hpost := hstart.applyAll hnumbered hinjective hcalls h.clock h.writes h.room hrun
  exact ⟨hpost.represents, hpost.replays, hpost.sound,
    fun b hb => hpost.handled b (Or.inr ((h.delivered b).mp hb))⟩

/-!
# Agreement
-/

/-- A known hash of greatest cumulative work. -/
structure GreatestWork (g : ChainState) (h : String) : Prop where
  known : Known g h
  le : forall h', Known g h' -> g.workOf h' ≤ g.workOf h

/-- What two nodes share: the known hashes, the work of the tip and, where one
known block alone has the greatest work, the chain and the account state. -/
structure Agree (g g' : ChainState) : Prop where
  known : forall h, Known g h ↔ Known g' h
  work : g.workOf g.tipHash = g'.workOf g'.tipHash
  chain : (forall h h', GreatestWork g h -> GreatestWork g h' -> h = h') ->
    g.blocks = g'.blocks ∧ g.balances = g'.balances ∧ g.nonces = g'.nonces

theorem Represents.known_iff (hg : Represents P D g) {h : String} :
    Known g h ↔ exists blk, resolveBlock g h = some blk := by
  unfold Known
  by_cases hcanon : h ∈ g.canonIndex
  · rcases hg.mem_canonIndex_iff.mp hcanon with ⟨blk, hmem, hname⟩
    rw [← hname, hg.resolve_of_mem hmem]
    simp [hname, hcanon]
  · rw [Represents.resolve_of_not_mem hcanon, ← Option.isSome_iff_exists,
      ← ExtTreeMap.mem_iff_isSome_getElem?]
    simp [hcanon]

/-- The tip's path has the tip's hash. -/
theorem Represents.tip_path (hg : Represents P D g) :
    exists tip below, g.blocks.reverse = tip :: below ∧ tip.hash = g.tipHash := by
  cases hblocks : g.blocks.reverse with
  | nil => exact absurd hblocks hg.chain.ne_nil
  | cons tip below =>
      refine ⟨tip, below, rfl, ?_⟩
      have hlast : g.blocks.getLast? = some tip := by
        rw [← List.head?_reverse, hblocks, List.head?_cons]
      rw [ChainState.tipHash, hlast]
      rfl

theorem ExactWork.workOf_eq (hg : Represents P D g) (hw : ExactWork g) (hw' : ExactWork g')
    (hknown : resolveBlock g = resolveBlock g') {h : String} (hh : Known g h) :
    g.workOf h = g'.workOf h := by
  rcases hg.known_iff.mp hh with ⟨blk, hblk⟩
  rcases hg.rooted.path hblk with ⟨rest, hpath⟩
  have hpath' : KnownPath g' (blk :: rest) := by
    unfold KnownPath
    rw [← hknown]
    exact hpath
  have hname : blk.hash = h := hg.rooted.named hblk
  rw [← hname, hw.workOf hpath, hw'.workOf hpath']

/-- Settled states with the same known blocks agree. -/
theorem Settled.agree (h : Settled P D g) (h' : Settled P D g')
    (hknown : resolveBlock g = resolveBlock g') : Agree g g' := by
  have hiff : forall hash, Known g hash ↔ Known g' hash := by
    intro hash
    rw [h.represents.known_iff, h'.represents.known_iff, hknown]
  have hheaviest : HeaviestTip g' := h'.heaviest
  have hwork : g.workOf g.tipHash = g'.workOf g'.tipHash := by
    rw [h.exact.workOf_tip h.represents, h'.exact.workOf_tip h'.represents]
    unfold HeaviestTip at hheaviest
    rw [← hknown] at hheaviest
    exact h.heaviest.weight_eq hheaviest
  refine ⟨hiff, hwork, ?_⟩
  intro hunique
  rcases h.represents.tip_path with ⟨tip, below, hblocks, htip⟩
  rcases h'.represents.tip_path with ⟨tip', below', hblocks', htip'⟩
  have hpath : KnownPath g (tip :: below) := hblocks ▸ h.represents.chain
  have hpath' : KnownPath g (tip' :: below') := by
    have hchain := h'.represents.chain
    unfold KnownPath at hchain ⊢
    rw [hblocks', ← hknown] at hchain
    exact hchain
  have hgreatest : forall {hash}, Known g hash -> g.workOf hash = g.workOf g.tipHash ->
      GreatestWork g hash := by
    intro hash hmem heq
    refine ⟨hmem, ?_⟩
    intro other hother
    rcases h.represents.known_iff.mp hother with ⟨blk, hblk⟩
    rw [heq]
    exact h.workOf_le hblk
  have hmem : Known g g.tipHash :=
    h.represents.known_iff.mpr ⟨tip, htip ▸ hpath.lookup List.mem_cons_self⟩
  have hmem' : Known g g'.tipHash :=
    h.represents.known_iff.mpr ⟨tip', htip' ▸ hpath'.lookup List.mem_cons_self⟩
  have hwork' : g.workOf g'.tipHash = g.workOf g.tipHash := by
    rw [ExactWork.workOf_eq h.represents h.exact h'.exact hknown hmem', hwork]
  have hname := hunique _ _ (hgreatest hmem rfl) (hgreatest hmem' hwork')
  have hequal : g.blocks = g'.blocks := by
    have hlists := hpath.unique hpath' (by rw [chainLineage_name, chainLineage_name, htip, htip', hname])
    rw [← hblocks, ← hblocks'] at hlists
    exact List.reverse_injective hlists
  have hlive := h.replays.live
  rw [hequal, h'.replays.live] at hlive
  have hstate := Except.ok.inj hlive
  injection hstate with hbalances hnonces
  exact ⟨hequal, hbalances.symm, hnonces.symm⟩

/-- Two nodes that are handed the same blocks, in whatever orders and however
often, agree. -/
theorem deliveries_converge {s₁ s₂ g₁ g₂ : ChainState} {calls₁ calls₂ : List Call}
    (hnumbered : NumberedFrom P D)
    (hinjective : forall b b', D b -> D b' -> b.hash = b'.hash -> b = b')
    (hreceives₁ : Receives P D now s₁ calls₁) (hreceives₂ : Receives P D now s₂ calls₂)
    (hrun₁ : VisionCore.applyAll P s₁ calls₁ = .ok g₁)
    (hrun₂ : VisionCore.applyAll P s₂ calls₂ = .ok g₂) : Agree g₁ g₂ := by
  have hsettled : forall {s g : ChainState} {calls : List Call}, Receives P D now s calls ->
      VisionCore.applyAll P s calls = .ok g -> Settled P D g := by
    intro s g calls h hrun
    exact (h.genesis.settled (D := D)).applyAll hnumbered
      (fun call hcall => (h.delivered call.blk).mpr ⟨call, hcall, rfl⟩) h.writes hrun
  exact (hsettled hreceives₁ hrun₁).agree (hsettled hreceives₂ hrun₂)
    ((hreceives₁.converged hnumbered hinjective hrun₁).saturated.unique
      (hreceives₂.converged hnumbered hinjective hrun₂).saturated)

/-- A run stores at most one orphan a call. -/
theorem applyAll_orphanCount_le (hrun : VisionCore.applyAll P g calls = .ok g') :
    orphanCount g' ≤ orphanCount g + calls.length := by
  induction calls generalizing g with
  | nil =>
      cases hrun
      exact Nat.le_refl _
  | cons call rest ih =>
      rcases bind_eq_ok.mp hrun with ⟨g₁, hcall, hrest⟩
      rcases applyCall_ok hcall with ⟨out, hout, rfl⟩
      have hone := applyBlockFuel_orphanCount_le hout
      have htail := ih hrest
      rw [List.length_cons]
      omega

end Runs

/-- A node that receives a short list of sample blocks. -/
theorem sampleReceives {blocks : List Block} (hshort : blocks.length ≤ orphanPoolMax)
    (hmem : forall b, b ∈ sampleBlocks ↔ b ∈ blocks) :
    Receives samplePlatform (fun b => b ∈ sampleBlocks) 1000000 sampleGenesis
      (blocks.map sampleCall) where
  genesis := sampleGenesis_applied
  delivered := by
    intro b
    rw [hmem]
    simp [sampleCall]
  clock := by simp [sampleCall, sampleHost]
  writes := by simp [sampleCall, sampleHost]
  room := by
    intro before call after g heq hbefore
    have hcount := applyAll_orphanCount_le hbefore
    have hempty : orphanCount sampleGenesis = 0 := by decide +kernel
    have hlength := congrArg List.length heq
    rw [List.length_map, List.length_append, List.length_cons] at hlength
    omega

/-- The two branches, in order and with their second blocks first. -/
theorem deliveries_converge_sampleBlocks :
    exists g₁ g₂, applyAll samplePlatform sampleGenesis (sampleBlocks.map sampleCall) = .ok g₁ ∧
      applyAll samplePlatform sampleGenesis
        ([rivalSecond, secondBlock, rivalFirst, firstBlock].map sampleCall) = .ok g₂ ∧
      g₁.tipHash ≠ g₂.tipHash ∧ Agree g₁ g₂ := by
  have hinjective : forall b b', b ∈ sampleBlocks -> b' ∈ sampleBlocks -> b.hash = b'.hash ->
      b = b' := by
    have hdistinct : forall b, b ∈ sampleBlocks -> forall b', b' ∈ sampleBlocks ->
        b.hash = b'.hash -> b = b' := by
      decide +kernel
    exact fun b b' hb hb' => hdistinct b hb b' hb'
  have hmem : forall b, b ∈ sampleBlocks ↔
      b ∈ [rivalSecond, secondBlock, rivalFirst, firstBlock] := by
    intro b
    simp only [sampleBlocks, List.mem_cons, List.not_mem_nil, or_false]
    grind
  have hruns : ((applyAll samplePlatform sampleGenesis (sampleBlocks.map sampleCall)) >>=
      fun g₁ => (applyAll samplePlatform sampleGenesis
        ([rivalSecond, secondBlock, rivalFirst, firstBlock].map sampleCall)).map fun g₂ =>
          (g₁, g₂)).toOption.map (fun pair => decide (pair.1.tipHash ≠ pair.2.tipHash)) =
        some true := by
    decide +kernel
  rcases toOption_map_eq_some hruns with ⟨⟨g₁, g₂⟩, hpair, hne⟩
  rcases bind_eq_ok.mp hpair with ⟨reached, hrun₁, hmap⟩
  rcases map_eq_ok.mp hmap with ⟨reached', hrun₂, heq⟩
  cases heq
  exact ⟨g₁, g₂, hrun₁, hrun₂, of_decide_eq_true hne,
    deliveries_converge sampleBlocks_numbered hinjective
      (sampleReceives (by decide) fun _ => Iff.rfl) (sampleReceives (by decide) hmem) hrun₁ hrun₂⟩

end VisionCore
