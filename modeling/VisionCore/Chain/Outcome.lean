import VisionCore.Chain.Waiting
import VisionCore.Node.Session

/-!
# What the result of a call says

The result of `applyBlock` is chosen before waiting blocks are offered again.
It describes the state after the call when no line of waiting blocks outweighs
the tip; the condition is one on the state before the call.
-/

namespace VisionCore

open Std
open Foundation

/-!
# The first step of a promotion
-/

section Start

variable {P : Platform} {D : Block -> Prop} {host : Host} {g : ChainState}
  {blk parent common : Block} {rest side : List Block} {candidateCw : Nat}
  {post : TxExecutionState} {works : ExtTreeMap String Nat} {plan : ReorgPlan} {db : Db}
  {sourcePeer : Option String} {step : Step} {key : String}

/-- The plan's account state is the replay of the new canonical path. -/
theorem Moves.lineState_eq
    (h : Moves P D host g blk parent common rest side candidateCw post works plan db) :
    lineState P (blk :: parent :: rest) = .ok plan.state := by
  rcases h.planned.replay with ⟨ancestorState, hancestor, hbranchState⟩
  have hpath := h.path
  rw [h.branches.path_eq, h.recorded.take_reverse h.branches.common_mem] at hpath
  rw [h.height_eq, reconstructCanonicalStateChecked_eq h.recorded h.branches.common_mem]
    at hancestor
  rw [h.hash_eq, h.segment_eq, reconstructBranchState_eq (by rwa [List.reverse_reverse])]
    at hbranchState
  unfold lineState at hancestor ⊢
  rw [h.branches.path_eq, List.reverse_append]
  exact foldlM_append_ok.mpr ⟨ancestorState, hancestor, hbranchState⟩

theorem Moves.state_eq
    (h : Moves P D host g blk parent common rest side candidateCw post works plan db)
    (hg : Represents P D g) : plan.state = post := by
  have hline := h.admitted.lineReplay_eq hg (h.admitted.joins.parent_eq ▸ h.not_tip)
  rw [lineReplay_of_lineState h.lineState_eq] at hline
  exact Except.ok.inj hline

theorem Moves.tipHash
    (h : Moves P D host g blk parent common rest side candidateCw post works plan db) :
    (reorgApplied P (sideRecorded g blk candidateCw) blk side common works plan db).tipHash =
      blk.hash := by
  apply ChainState.tipHash_of_last
  rw [h.blocks, List.getLast?_reverse]
  rfl

theorem extendedChain_tipHash :
    (extendedChain g blk candidateCw post db).tipHash = blk.hash := by
  apply ChainState.tipHash_of_last
  rw [extendedChain_blocks, List.getLast?_append]
  rfl

/-- The account state at a new tip is the live one. -/
theorem parentStateOf_tip {g : ChainState} {hash : String} (htip : hash = g.tipHash)
    (hbalances : g.balances = post.balances) (hnonces : g.nonces = post.nonces) :
    parentStateOf P g hash = .ok post := by
  unfold parentStateOf
  rw [if_pos htip, hbalances, hnonces]

theorem Effect.seen (h : Effect P D host g blk sourcePeer step) (hash : String)
    (hmem : hash ∈ g.seenBlocks) : hash ∈ step.chain.seenBlocks := by
  cases h with
  | rejected _ => exact hmem
  | orphaned _ _ _ =>
      rcases addOrphan_frame host.now g blk (sourcePeer.getD "anon") with ⟨pool, byHash, hframe⟩
      rw [hframe]
      exact hmem
  | extended _ _ _ _ _ => exact mem_insert_set_iff.mpr (Or.inr hmem)
  | recorded _ _ _ _ => exact mem_insert_set_iff.mpr (Or.inr hmem)
  | @moved _ common _ side candidateCw _ works _ _ _ _ _ =>
      show hash ∈
        (Represents.movedTo (sideRecorded g blk candidateCw) side common works).seenBlocks
      rw [exchangedChain_seenBlocks, mem_foldl_insert_set Block.hash]
      exact Or.inr (mem_insert_set_iff.mpr (Or.inr hmem))

/-- A step that offers waiting blocks leaves them seated on its own block. -/
theorem Effect.settling (hg : Represents P D g) (hw : WorkBounded g) (hD : D blk)
    (h : Effect P D host g blk sourcePeer step)
    (hpool : step.chain.orphanPool = g.orphanPool) (hpromote : step.promote = some key) :
    exists parent rest candidateCw post,
      Admitted P D host g blk parent rest candidateCw post ∧ key = blk.hash ∧
        Seat P host g (blk :: parent :: rest) post step.chain [] blk (parent :: rest) post ∧
        Settling P D host g (blk :: parent :: rest) post step.chain [] (some key) step.host
          step.chain ∧
        ((step.chain.tipHash = blk.hash ∧ g.workOf g.tipHash < candidateCw) ∨
          step.chain = sideRecorded g blk candidateCw) := by
  have hrepresents := h.represents hg hD
  have hworks := h.workBounded hg hw
  have hseen := h.seen
  have hstart : forall {parent : Block} {rest : List Block} {post : TxExecutionState}
      {events : List ReorgEvent}, host.Follows step.host events -> key = blk.hash ->
      KnownPath step.chain (blk :: parent :: rest) ->
      parentStateOf P step.chain blk.hash = .ok post ->
      Seat P host g (blk :: parent :: rest) post step.chain [] blk (parent :: rest) post ∧
        Settling P D host g (blk :: parent :: rest) post step.chain [] (some key) step.host
          step.chain := by
    intro parent rest post events hfollows hkey hpath hstate
    have hseat : Seat P host g (blk :: parent :: rest) post step.chain [] blk (parent :: rest)
        post := ⟨WaitingLine.nil, rfl, hpath, hstate⟩
    refine ⟨hseat, ?_⟩
    constructor
    · exact hrepresents
    · exact hworks
    · exact hfollows.clock
    · exact SameChain.refl _
    · exact fun _ _ hside => hside
    · exact hseen
    · exact fun _ _ hwaits => (Waits.congr hpool).mp hwaits
    · simp
    · simp
    · simp
    · intro key' hkey'
      cases hkey'
      exact ⟨[], blk, _, post, hseat, hkey.symm⟩
  cases h with
  | rejected _ => cases hpromote
  | orphaned _ _ _ => cases hpromote
  | @extended parent rest candidateCw post db host' hadmitted htip hreverse hsaved hfollows =>
      cases hpromote
      have hpath : KnownPath (extendedChain g blk candidateCw post db) (blk :: parent :: rest) := by
        unfold KnownPath
        rw [hadmitted.extended_known hg hreverse]
        exact hadmitted.joins.path.put_new hadmitted.joins.unknown hadmitted.joins.parent_eq
      rcases hstart hfollows rfl hpath (parentStateOf_tip extendedChain_tipHash.symm rfl rfl) with
        ⟨hseat, hsettling⟩
      refine ⟨parent, rest, candidateCw, post, hadmitted, rfl, hseat, hsettling,
        Or.inl ⟨extendedChain_tipHash, ?_⟩⟩
      have hpos := hadmitted.blockWork_pos
      rw [hadmitted.candidateCw_eq hg hw, ← hadmitted.joins.parent_eq, htip]
      omega
  | @recorded parent rest candidateCw post _ _ hadmitted htip _ hfollows =>
      cases hpromote
      rcases hstart hfollows rfl (hg.recorded_path hadmitted.joins candidateCw)
          (hadmitted.recorded_parentState hg (hadmitted.joins.parent_eq ▸ htip)) with
        ⟨hseat, hsettling⟩
      exact ⟨parent, rest, candidateCw, post, hadmitted, rfl, hseat, hsettling, Or.inr rfl⟩
  | @moved parent common rest side candidateCw post works plan db _ hmoves hfollows =>
      cases hpromote
      have hpath : KnownPath
          (reorgApplied P (sideRecorded g blk candidateCw) blk side common works plan db)
          (blk :: parent :: rest) := by
        unfold KnownPath
        rw [hmoves.known]
        exact hmoves.path
      have hstate : parentStateOf P
          (reorgApplied P (sideRecorded g blk candidateCw) blk side common works plan db)
          blk.hash = .ok plan.state := parentStateOf_tip hmoves.tipHash.symm rfl rfl
      rw [hmoves.state_eq hg] at hstate
      rcases hstart hfollows rfl hpath hstate with ⟨hseat, hsettling⟩
      exact ⟨parent, rest, candidateCw, post, hmoves.admitted, rfl, hseat, hsettling,
        Or.inl ⟨hmoves.tipHash, hmoves.heavier⟩⟩

end Start

/-!
# Lines that the tip outweighs
-/

/-- A seated hash above which no waiting line outweighs the tip. -/
def Capped (P : Platform) (host : Host) (g₀ : ChainState) (base : List Block)
    (post : TxExecutionState) (g : ChainState) (key : String) : Prop :=
  exists above tip below state,
    Seat P host g₀ base post g above tip below state ∧ tip.hash = key ∧
      forall ext state', ext ≠ [] -> WaitingLine P host g₀ base post (ext ++ above) state' ->
        g.workOf key + lineWork ext ≤ g.workOf g.tipHash

section Capping

variable {P : Platform} {D : Block -> Prop} {host host₀ : Host} {g₀ s g : ChainState}
  {base offered rest : List Block} {post state' : TxExecutionState} {blk parent : Block}
  {candidateCw : Nat} {key : String}

theorem Capped.congr {g' : ChainState} (h : Capped P host g₀ base post g key)
    (hg : Represents P D g) (hg' : Represents P D g') (hsame : SameChain g g')
    (hknown : resolveBlock g' = resolveBlock g) (hwork : g'.cumulativeWork = g.cumulativeWork) :
    Capped P host g₀ base post g' key := by
  rcases h with ⟨above, tip, below, state, hseat, hname, hcap⟩
  refine ⟨above, tip, below, state, hseat.congr hg hg' hsame ?_, hname, ?_⟩
  · unfold KnownPath
    rw [hknown]
    exact hseat.path
  · intro ext state' hne hline
    unfold ChainState.workOf
    rw [hsame.tipHash, hwork]
    exact hcap ext state' hne hline

theorem Capped.recorded (h : Capped P host₀ g₀ base post g key) (hg : Represents P D g)
    (hadmitted : Admitted P D host g blk parent rest candidateCw state') :
    Capped P host₀ g₀ base post (sideRecorded g blk candidateCw) key := by
  rcases h with ⟨above, tip, below, state, hseat, hname, hcap⟩
  refine ⟨above, tip, below, state, hseat.recorded hg hadmitted, hname, ?_⟩
  have hkey : resolveBlock g key ≠ none := by
    have hlookup : resolveBlock g tip.hash = some tip := hseat.path.lookup List.mem_cons_self
    rw [← hname, hlookup]
    simp
  intro ext state hne hline
  rw [sideRecorded_workOf_known hadmitted.joins.unknown hkey,
    (SameChain.recorded g blk candidateCw).tipHash,
    sideRecorded_workOf_known hadmitted.joins.unknown hg.tip_known]
  exact hcap ext state hne hline

/-- An admitted block of a capped line does not outweigh the tip. -/
theorem Capped.admitted (h : Capped P host₀ g₀ base post g blk.header.parentHash)
    (hs : Settling P D host₀ g₀ base post s (blk :: offered) none host g)
    (hadmitted : Admitted P D host g blk parent rest candidateCw state') :
    candidateCw ≤ g.workOf g.tipHash := by
  rcases h with ⟨above, tip, below, state, hseat, hname, hcap⟩
  have hline := hs.line_cons hadmitted hseat hname
  have hle := hcap [blk] state' (List.cons_ne_nil _ _) hline
  rw [hadmitted.candidateCw_eq hs.represents hs.works, ← hadmitted.joins.parent_eq]
  simpa using hle

theorem Capped.recorded_new (h : Capped P host₀ g₀ base post g blk.header.parentHash)
    (hs : Settling P D host₀ g₀ base post s (blk :: offered) none host g)
    (hadmitted : Admitted P D host g blk parent rest candidateCw state')
    (hne : blk.header.parentHash ≠ g.tipHash) :
    Capped P host₀ g₀ base post (sideRecorded g blk candidateCw) blk.hash := by
  rcases h with ⟨above, tip, below, state, hseat, hname, hcap⟩
  refine ⟨blk :: above, blk, tip :: below, state',
    hseat.recorded_new hs.represents hname hadmitted hne (hs.line_cons hadmitted hseat hname),
    rfl, ?_⟩
  intro ext state'' _ hline
  have hle := hcap (ext ++ [blk]) state'' (by simp) (by simpa using hline)
  rw [sideRecorded_workOf, if_pos rfl, (SameChain.recorded g blk candidateCw).tipHash,
    sideRecorded_workOf_known hadmitted.joins.unknown hs.represents.tip_known,
    hadmitted.candidateCw_eq hs.represents hs.works, ← hadmitted.joins.parent_eq]
  rw [lineWork_append, lineWork_cons, lineWork_nil] at hle
  omega

/-- While every offered block sits below lines that the tip outweighs, the
canonical chain does not move. -/
theorem promotionInvariant_capped (P : Platform) (hnumbered : NumberedFrom P D) (host₀ : Host)
    (g₀ s : ChainState) (base : List Block) (post : TxExecutionState) :
    PromotionInvariant P fun offered pending host g =>
      Settling P D host₀ g₀ base post s offered pending host g ∧
        (forall b, b ∈ offered -> Capped P host₀ g₀ base post g b.header.parentHash) ∧
        forall key, pending = some key -> Capped P host₀ g₀ base post g key where
  accept := by
    rintro offered host g blk sourcePeer step ⟨hs, hcapped, _⟩ hrun
    have hg := hs.represents
    have hblk := hcapped blk List.mem_cons_self
    have hrest := fun b hb => hcapped b (List.mem_cons_of_mem blk hb)
    have heffect := hg.effect hnumbered (hs.delivered blk List.mem_cons_self)
      (acceptBlock_transition hrun)
    cases heffect with
    | rejected hfollows => exact ⟨hs.tail.follows hfollows, hrest, by simp [rejectStep]⟩
    | orphaned _ hunknown _ => exact absurd hs.parentKnown hunknown
    | extended hadmitted htip hreverse _ _ =>
        have hle := hblk.admitted hs hadmitted
        have hpos := hadmitted.blockWork_pos
        rw [hadmitted.candidateCw_eq hg hs.works, ← hadmitted.joins.parent_eq, htip] at hle
        omega
    | recorded hadmitted htip _ hfollows =>
        refine ⟨hs.recorded hadmitted htip hfollows, ?_, ?_⟩
        · exact fun b hb => (hrest b hb).recorded hg hadmitted
        · intro key hkey
          cases hkey
          exact hblk.recorded_new hs hadmitted htip
    | moved hmoves _ =>
        exact absurd (hblk.admitted hs hmoves.admitted) (Nat.not_le_of_lt hmoves.heavier)
  idle := fun hpre _ => ⟨hpre.1.idle, hpre.2.1, by simp⟩
  take := by
    rintro offered key host g waiting ⟨hs, hcapped, hpending⟩ hslot
    have htaken := hs.takeWaiting hslot
    have hkeep : forall {k : String}, Capped P host₀ g₀ base post g k ->
        Capped P host₀ g₀ base post (takeWaiting g key) k :=
      fun h => h.congr hs.represents htaken.represents ⟨rfl, rfl, rfl, rfl, rfl⟩ rfl rfl
    refine ⟨htaken, ?_, by simp⟩
    intro b hb
    cases List.mem_append.mp hb with
    | inl hnew =>
        rcases List.mem_map.mp hnew with ⟨entry, hentry, rfl⟩
        rw [(hs.represents.waiting ⟨waiting, hslot, hentry⟩).2]
        exact hkeep (hpending key rfl)
    | inr hold => exact hkeep (hcapped b hold)
  forget := by
    rintro offered blk host g ⟨hs, hcapped, hpending⟩
    have hforgot : Settling P D host₀ g₀ base post s (blk :: offered) none host
        (forgetOrphan g blk.hash) := hs.forgetOrphan
    have hkeep : forall {k : String}, Capped P host₀ g₀ base post g k ->
        Capped P host₀ g₀ base post (forgetOrphan g blk.hash) k :=
      fun h => h.congr hs.represents hforgot.represents ⟨rfl, rfl, rfl, rfl, rfl⟩ rfl rfl
    exact ⟨hforgot, fun b hb => hkeep (hcapped b hb), fun key hkey => hkeep (hpending key hkey)⟩

end Capping

/-!
# Quiet calls
-/

/-- No line of waiting blocks on `blk` outweighs the tip, the work of `blk`
itself included. -/
def Quiet (P : Platform) (host : Host) (g : ChainState) (blk : Block) : Prop :=
  forall parent rest post above state, KnownPath g (parent :: rest) ->
    blk.header.parentHash = parent.hash -> validateAgainstParent P host.now g blk = .ok post ->
    WaitingLine P host g (blk :: parent :: rest) post above state -> above ≠ [] ->
      g.workOf parent.hash + lineWork (above ++ [blk]) ≤ g.workOf g.tipHash

section Calls

variable {P : Platform} {D : Block -> Prop} {host : Host} {g g' s : ChainState} {blk : Block}
  {sourcePeer : Option String} {out : Applied} {step : Step} {calls : List Call}

/-- After a quiet call the canonical chain is the one that the first step left. -/
theorem Quiet.sameChain (h : Quiet P host g blk) (hnumbered : NumberedFrom P D)
    (hg : Represents P D g) (hw : WorkBounded g) (hD : D blk)
    (hrun : applyBlock P host g blk sourcePeer = .ok out) :
    exists step, Transition P host g blk sourcePeer step ∧ out.result = step.result ∧
      SameChain step.chain out.chain ∧
      forall (hash : String) (b : Block), step.chain.sideBlocks[hash]? = some b ->
        out.chain.sideBlocks[hash]? = some b := by
  rcases applyBlock_first hrun with ⟨step, hstep, hresult, hcases⟩
  have htransition := acceptBlock_transition hstep
  refine ⟨step, htransition, hresult, ?_⟩
  rcases hcases with ⟨_, hchain, _⟩ | ⟨key, hpromote, hprocess⟩
  · rw [hchain]
    exact ⟨SameChain.refl _, fun _ _ hside => hside⟩
  · have hpool : step.chain.orphanPool = g.orphanPool := by
      refine (acceptBlock_cases hstep).orphanPool.resolve_right fun hnone => ?_
      rw [hnone.1] at hpromote
      cases hpromote
    rcases (hg.effect hnumbered hD htransition).settling hg hw hD hpool hpromote with
      ⟨parent, rest, candidateCw, post, hadmitted, hkey, hseat, hsettling, hplace⟩
    have hcw := hadmitted.candidateCw_eq hg hw
    have hquiet : forall {ext : List Block} {state : TxExecutionState}, ext ≠ [] ->
        WaitingLine P host g (blk :: parent :: rest) post ext state ->
          candidateCw + lineWork ext ≤ g.workOf g.tipHash := by
      intro ext state hne hline
      have hle := h parent rest post ext state hadmitted.joins.path hadmitted.joins.parent_eq
        hadmitted.vetted.valid hline hne
      rw [lineWork_append, lineWork_cons, lineWork_nil] at hle
      omega
    have hcapped : Capped P host g (blk :: parent :: rest) post step.chain key := by
      refine ⟨[], blk, parent :: rest, post, hseat, hkey.symm, ?_⟩
      intro ext state hne hline
      rw [List.append_nil] at hline
      have hle := hquiet hne hline
      cases hplace with
      | inl hmoved => omega
      | inr hrecorded =>
          rw [hrecorded, hkey, sideRecorded_workOf, if_pos rfl,
            (SameChain.recorded g blk candidateCw).tipHash,
            sideRecorded_workOf_known hadmitted.joins.unknown hg.tip_known]
          exact hle
    have hinvariant := promotionInvariant_capped P hnumbered host g step.chain
      (blk :: parent :: rest) post
    have hpost := hinvariant.processOrphansWith hinvariant.applyBlockFuel
      ⟨hsettling, by simp, fun k hk => by
        rw [← Option.some.inj hk]
        exact hcapped⟩ hprocess
    exact ⟨hpost.1.same, hpost.1.sides⟩

/-- A call that finds nothing waiting for its block is its first step. -/
theorem applyBlock_unawaited (hrun : applyBlock P host g blk sourcePeer = .ok out)
    (hslot : g.orphanPool[blk.hash]? = none) :
    exists step, Transition P host g blk sourcePeer step ∧ out.result = step.result ∧
      out.chain = step.chain := by
  rcases applyBlock_first hrun with ⟨step, hstep, hresult, hcases⟩
  have htransition := acceptBlock_transition hstep
  refine ⟨step, htransition, hresult, ?_⟩
  rcases hcases with ⟨_, hchain, _⟩ | ⟨key, hpromote, hprocess⟩
  · exact hchain
  · have hpool : step.chain.orphanPool = g.orphanPool := by
      refine (acceptBlock_cases hstep).orphanPool.resolve_right fun hnone => ?_
      rw [hnone.1] at hpromote
      cases hpromote
    have hkey : key = blk.hash := by
      cases htransition <;> cases hpromote <;> rfl
    unfold processOrphansWith at hprocess
    rw [hpool, hkey, hslot] at hprocess
    exact (congrArg Prod.fst (Except.ok.inj hprocess)).symm

end Calls

/-!
# The documented meaning of a result
-/

/-- What the documentation of the result variants says of the state after a call. -/
def ResultHolds (result : AcceptResult) (g : ChainState) (blk : Block) (g' : ChainState) : Prop :=
  match result with
  | .canonExtension height => blk ∈ g'.blocks ∧ g'.currentHeight = height
  | .sideChain _ =>
      g'.blocks = g.blocks ∧ g'.canonIndex = g.canonIndex ∧ g'.balances = g.balances ∧
        g'.nonces = g.nonces ∧ g'.tipHash = g.tipHash ∧ g'.sideBlocks[blk.hash]? = some blk
  | .storedOrphan _ => True
  | .rejected _ => True

section Meaning

variable {P : Platform} {D : Block -> Prop} {host : Host} {g g' g'' s : ChainState} {blk : Block}
  {sourcePeer : Option String} {out : Applied} {step : Step} {calls : List Call}
  {result : AcceptResult}

theorem ResultHolds.same (h : ResultHolds result g blk g') (hsame : SameChain g' g'')
    (hsides : forall (hash : String) (b : Block), g'.sideBlocks[hash]? = some b ->
      g''.sideBlocks[hash]? = some b) : ResultHolds result g blk g'' := by
  cases result with
  | canonExtension height =>
      rcases h with ⟨hmem, hheight⟩
      constructor
      · rw [hsame.blocks]
        exact hmem
      · unfold ChainState.currentHeight at hheight ⊢
        rw [hsame.blocks]
        exact hheight
  | sideChain height =>
      rcases h with ⟨hblocks, hcanon, hbalances, hnonces, htip, hside⟩
      exact ⟨hsame.blocks.trans hblocks, hsame.canonIndex.trans hcanon,
        hsame.balances.trans hbalances, hsame.nonces.trans hnonces, hsame.tipHash.trans htip,
        hsides _ _ hside⟩
  | storedOrphan hash => trivial
  | rejected reason => trivial

theorem collectNewSegmentLoop_append {fuel : Nat} {current : String}
    {segment collected : List Block}
    (hrun : collectNewSegmentLoop g fuel current segment = .ok collected) :
    collected = [] ∨ exists below, collected = below ++ segment := by
  induction fuel generalizing current segment with
  | zero => cases hrun
  | succ fuel ih =>
      unfold collectNewSegmentLoop at hrun
      split at hrun
      · cases hrun
        exact Or.inr ⟨[], rfl⟩
      · split at hrun
        · rcases ih hrun with hempty | ⟨below, hbelow⟩
          · exact Or.inl hempty
          · exact Or.inr ⟨below ++ [_], by rw [hbelow, List.append_assoc]; rfl⟩
        · cases hrun
          exact Or.inl rfl

/-- The segment of a reorg ends in its new tip. -/
theorem planned_segment_last {plan : ReorgPlan} (hplan : Planned P g blk plan)
    (hside : g.sideBlocks[blk.hash]? = some blk) :
    exists below, plan.segment = below ++ [blk] := by
  rcases hplan.common with ⟨first, hfirst, _⟩
  have hne : plan.segment ≠ [] := by
    intro hempty
    rw [hempty] at hfirst
    cases hfirst
  have hrun := hplan.segment
  unfold collectNewSegment sideWalkFuel collectNewSegmentLoop at hrun
  split at hrun
  · exact absurd (Except.ok.inj hrun).symm hne
  · rw [hside] at hrun
    exact (collectNewSegmentLoop_append hrun).resolve_left hne

theorem exchangeBranches_segment {plan : ReorgPlan} {raised : ChainState} {demoted : List Block}
    (hrun : exchangeBranches P g plan = .ok (raised, demoted)) :
    exists kept, raised.blocks = kept ++ plan.segment := by
  unfold exchangeBranches at hrun
  rcases bind_eq_ok.mp hrun with ⟨demotedFrom, _, hrun⟩
  rcases bind_eq_ok.mp hrun with ⟨kept, _, hrun⟩
  rcases bind_eq_ok.mp hrun with ⟨cw, _, hrun⟩
  rcases bind_eq_ok.mp hrun with ⟨⟨g', cw'⟩, hfold, hpair⟩
  rcases foldlM_promoteBlock hfold with ⟨works, _, rfl⟩
  cases hpair
  exact ⟨kept, rfl⟩

/-- In every state the first step of a call does what its result says. -/
theorem Transition.resultHolds (h : Transition P host g blk sourcePeer step) :
    ResultHolds step.result g blk step.chain := by
  have hlast : forall {g' : ChainState} {kept : List Block}, g'.blocks = kept ++ [blk] ->
      blk ∈ g'.blocks ∧ g'.currentHeight = blk.header.number := by
    intro g' kept hblocks
    constructor
    · rw [hblocks]
      simp
    · exact ChainState.currentHeight_of_last (by rw [hblocks, List.getLast?_append]; rfl)
  have hside : forall candidateCw, ResultHolds (.sideChain blk.height) g blk
      (sideRecorded g blk candidateCw) :=
    fun candidateCw => ⟨rfl, rfl, rfl, rfl, rfl, by
      rw [show (sideRecorded g blk candidateCw).sideBlocks =
        g.sideBlocks.insert blk.hash blk from rfl, getElem?_insert_ite, if_pos rfl]⟩
  cases h with
  | rejected _ => trivial
  | orphaned _ _ _ => trivial
  | genesis _ hnumber _ _ _ =>
      have hmem := @hlast (genesisApplied g blk) g.blocks rfl
      exact ⟨hmem.1, hmem.2.trans hnumber⟩
  | extended _ _ _ _ => exact hlast rfl
  | recorded _ _ _ _ => exact hside _
  | aborted _ _ _ _ _ => exact hside _
  | @reorganised candidateCw _ _ _ _ _ _ _ _ _ _ hplan hexchange _ _ _ =>
      rcases planned_segment_last (planReorg_ok hplan) (hside candidateCw).2.2.2.2.2 with
        ⟨below, hsegment⟩
      rcases exchangeBranches_segment hexchange with ⟨kept, hblocks⟩
      rw [hsegment, ← List.append_assoc] at hblocks
      exact hlast hblocks

/-- Results tell the truth about every reachable state when nothing waits for the
block, and on correctly numbered blocks when the call is quiet. -/
theorem resultHolds_of_quiet (hstart : Started P D s)
    (hcalls : forall call, call ∈ calls -> D call.blk) (hreached : applyAll P s calls = .ok g)
    (hcondition : g.orphanPool[blk.hash]? = none ∨
      (NumberedFrom P D ∧ D blk ∧ Quiet P host g blk))
    (hrun : applyBlock P host g blk sourcePeer = .ok out) :
    ResultHolds out.result g blk out.chain := by
  rcases hcondition with hslot | ⟨hnumbered, hD, hquiet⟩
  · rcases applyBlock_unawaited hrun hslot with ⟨step, htransition, hresult, hchain⟩
    rw [hresult, hchain]
    exact htransition.resultHolds
  · rcases hstart.reached hnumbered hcalls hreached with ⟨hg, hw⟩
    rcases hquiet.sameChain hnumbered hg hw hD hrun with
      ⟨step, htransition, hresult, hsame, hsides⟩
    rw [hresult]
    exact htransition.resultHolds.same hsame hsides

end Meaning

/-!
# Samples
-/

/-- The pool of a sample state, with the parts of an entry that matter here. -/
def samplePool (g : ChainState) : List (String × List Block) :=
  g.orphanPool.toList.map fun slot => (slot.1, slot.2.map Prod.fst)

theorem waits_samplePool {g : ChainState} {key : String} {entry : OrphanEntry}
    (hwaits : Waits g key entry) :
    exists waiting, (key, waiting) ∈ samplePool g ∧ entry.1 ∈ waiting := by
  rcases hwaits with ⟨waiting, hslot, hentry⟩
  refine ⟨waiting.map Prod.fst, List.mem_map.mpr ⟨(key, waiting), ?_, rfl⟩,
    List.mem_map_of_mem hentry⟩
  exact ExtTreeMap.mem_toList_iff_getElem?_eq_some.mpr hslot

/-- Where one block waits in the whole pool, a line has at most that block. -/
theorem WaitingLine.single {P : Platform} {host : Host} {g : ChainState} {blk child : Block}
    {l above : List Block} {post state : TxExecutionState}
    (h : WaitingLine P host g (blk :: l) post above state)
    (hpool : samplePool g = [(blk.hash, [child])]) (hne : child.hash ≠ blk.hash) :
    above = [] ∨ above = [child] := by
  have honly : forall {key : String} {entry : OrphanEntry}, Waits g key entry ->
      key = blk.hash ∧ entry.1 = child := by
    intro key entry hwaits
    rcases waits_samplePool hwaits with ⟨waiting, hslot, hentry⟩
    rw [hpool, List.mem_singleton] at hslot
    cases hslot
    exact ⟨rfl, List.mem_singleton.mp hentry⟩
  induction h with
  | nil => exact Or.inl rfl
  | cons _ hpath hwaits _ _ ih =>
      rcases honly hwaits with ⟨hkey, hchild⟩
      cases ih with
      | inl hempty =>
          subst hempty
          right
          rw [← hchild]
      | inr hsingle =>
          subst hsingle
          rw [← (List.cons.inj hpath).1] at hkey
          exact absurd hkey hne

/-- What a sample state shows of its pool, its works and its tip. -/
def samplePoolAndWorks (g : ChainState) : List (String × List Block) × Nat × Nat :=
  (samplePool g, g.workOf genesisHash, g.workOf g.tipHash)

/-- The rival branch ties with a tip of two blocks. -/
theorem rivalFirst_quiet {g : ChainState}
    (hview : samplePoolAndWorks g = ([(rivalFirst.hash, [rivalSecond])], 1, 3)) :
    Quiet samplePlatform sampleHost g rivalFirst := by
  have hlinks : rivalSecond.hash ≠ rivalFirst.hash ∧
      rivalFirst.header.parentHash = genesisHash ∧ lineWork [rivalSecond, rivalFirst] = 2 := by
    decide +kernel
  rw [samplePoolAndWorks, Prod.mk.injEq, Prod.mk.injEq] at hview
  intro parent rest post above state _ hparent _ hline hne
  have habove := (hline.single hview.1 hlinks.1).resolve_left hne
  rw [← hparent, hlinks.2.1, hview.2.1, hview.2.2, habove]
  exact Nat.le_of_eq (congrArg (1 + ·) hlinks.2.2)

/-- A side block whose waiting child ties with the tip stays a side block. -/
theorem resultHolds_rivalFirst :
    exists g out, applyAll samplePlatform sampleGenesis
        ([firstBlock, secondBlock, rivalSecond].map sampleCall) = .ok g ∧
      applyBlock samplePlatform sampleHost g rivalFirst none = .ok out ∧
      out.result = .sideChain 1 ∧ ResultHolds (.sideChain 1) g rivalFirst out.chain := by
  have hcalls : [firstBlock, secondBlock, rivalSecond] ⊆ sampleBlocks := by simp [sampleBlocks]
  have hmem : rivalFirst ∈ sampleBlocks := by simp [sampleBlocks]
  have hruns : (applyAll samplePlatform sampleGenesis
      ([firstBlock, secondBlock, rivalSecond].map sampleCall) >>= fun g =>
        (applyBlock samplePlatform sampleHost g rivalFirst none).map fun out =>
          (g, out)).toOption.map (fun pair => (samplePoolAndWorks pair.1, pair.2.result)) =
        some (([(rivalFirst.hash, [rivalSecond])], 1, 3), .sideChain 1) := by
    decide +kernel
  rcases toOption_map_eq_some hruns with ⟨⟨g, out⟩, hpair, hview⟩
  rcases bind_eq_ok.mp hpair with ⟨reached, hrun, hmap⟩
  rcases map_eq_ok.mp hmap with ⟨applied, hcall, heq⟩
  cases heq
  rw [Prod.mk.injEq] at hview
  have hholds := resultHolds_of_quiet (Started.genesis sampleGenesis_applied)
    (sampleCalls_delivered hcalls) hrun
    (Or.inr ⟨sampleBlocks_numbered, hmem, rivalFirst_quiet hview.1⟩) hcall
  rw [hview.2] at hholds
  exact ⟨g, out, hrun, hcall, hview.2, hholds⟩

/-- The first block is reported as a new tip of height 1, while the second, which
waited for it, has become the tip; a rival is reported as a side block, while the
block that waited for it has made its branch canonical. -/
theorem results_outdated_by_promotion :
    GenesisApplied samplePlatform sampleGenesis ∧
      (exists g out, applyAll samplePlatform sampleGenesis ([secondBlock].map sampleCall) = .ok g ∧
        applyBlock samplePlatform sampleHost g firstBlock none = .ok out ∧
        ¬ResultHolds out.result g firstBlock out.chain) ∧
      exists g out, applyAll samplePlatform sampleGenesis
          ([firstBlock, rivalSecond].map sampleCall) = .ok g ∧
        applyBlock samplePlatform sampleHost g rivalFirst none = .ok out ∧
        ¬ResultHolds out.result g rivalFirst out.chain := by
  refine ⟨sampleGenesis_applied, ?_, ?_⟩
  · have hruns : (applyAll samplePlatform sampleGenesis ([secondBlock].map sampleCall) >>=
        fun g => (applyBlock samplePlatform sampleHost g firstBlock none).map fun out =>
          (g, out)).toOption.map (fun pair => (pair.2.result, pair.2.chain.currentHeight)) =
        some (.canonExtension 1, 2) := by
      decide +kernel
    rcases toOption_map_eq_some hruns with ⟨⟨g, out⟩, hpair, hview⟩
    rcases bind_eq_ok.mp hpair with ⟨reached, hrun, hmap⟩
    rcases map_eq_ok.mp hmap with ⟨applied, hcall, heq⟩
    cases heq
    rw [Prod.mk.injEq] at hview
    refine ⟨g, out, hrun, hcall, ?_⟩
    rw [hview.1]
    intro hholds
    have hheight := hholds.2
    rw [hview.2] at hheight
    cases hheight
  · have hruns : (applyAll samplePlatform sampleGenesis
        ([firstBlock, rivalSecond].map sampleCall) >>=
        fun g => (applyBlock samplePlatform sampleHost g rivalFirst none).map fun out =>
          (g, out)).toOption.map
            (fun pair => (pair.2.result, pair.1.tipHash, pair.2.chain.tipHash)) =
        some (.sideChain 1, firstBlock.hash, rivalSecond.hash) := by
      decide +kernel
    rcases toOption_map_eq_some hruns with ⟨⟨g, out⟩, hpair, hview⟩
    rcases bind_eq_ok.mp hpair with ⟨reached, hrun, hmap⟩
    rcases map_eq_ok.mp hmap with ⟨applied, hcall, heq⟩
    cases heq
    rw [Prod.mk.injEq, Prod.mk.injEq] at hview
    refine ⟨g, out, hrun, hcall, ?_⟩
    rw [hview.1]
    intro hholds
    have htip := hholds.2.2.2.2.1
    rw [hview.2.1, hview.2.2] at htip
    have hne : rivalSecond.hash ≠ firstBlock.hash := by decide +kernel
    exact hne htip

end VisionCore
