import VisionCore.Chain.ForkChoice
import VisionCore.Chain.Verdict

/-!
# Lines of waiting blocks

A block that joins the chain offers the blocks that wait for it again, and these
offer the ones that wait for them.  `WaitingLine` says, of the state before the
call, which chains of waiting blocks pass acceptance on top of the new block.
`Settling` is the invariant of a promotion during which the canonical chain does
not move.
-/

namespace VisionCore

open Std
open Foundation

/-!
# Waiting lines
-/

/-- A list of waiting blocks, newest first, that passes acceptance block by
block on top of the path `base`; `post` is the account state after `base`, and
the last index the state after the list. -/
inductive WaitingLine (P : Platform) (host : Host) (g : ChainState) (base : List Block)
    (post : TxExecutionState) : List Block -> TxExecutionState -> Prop where
  | nil : WaitingLine P host g base post [] post
  | cons {above rest : List Block} {parent blk : Block} {state state' : TxExecutionState}
      {arrival : UInt64} {peer : String} {reading : Nat} :
      WaitingLine P host g base post above state -> above ++ base = parent :: rest ->
      Waits g parent.hash (blk, arrival, peer) -> Offered P g blk ->
      lineVerdict P (host.clock reading) blk parent rest state = .ok state' ->
      WaitingLine P host g base post (blk :: above) state'

/-- A waiting line whose place in the lineage is known: its blocks down to
genesis are the path of `tip`, and `state` is the account state there. -/
structure Seat (P : Platform) (host : Host) (g₀ : ChainState) (base : List Block)
    (post : TxExecutionState) (g : ChainState) (above : List Block) (tip : Block)
    (below : List Block) (state : TxExecutionState) : Prop where
  line : WaitingLine P host g₀ base post above state
  path_eq : above ++ base = tip :: below
  path : KnownPath g (tip :: below)
  parentState : parentStateOf P g tip.hash = .ok state

/-- The canonical part of a chain state, with its reorg record. -/
structure SameChain (s g : ChainState) : Prop where
  blocks : g.blocks = s.blocks
  canonIndex : g.canonIndex = s.canonIndex
  balances : g.balances = s.balances
  nonces : g.nonces = s.nonces
  recovery : g.pendingReorgRecovery = s.pendingReorgRecovery

namespace SameChain

variable {s g g' : ChainState}

theorem refl (g : ChainState) : SameChain g g := ⟨rfl, rfl, rfl, rfl, rfl⟩

theorem trans (h : SameChain s g) (h' : SameChain g g') : SameChain s g' where
  blocks := h'.blocks.trans h.blocks
  canonIndex := h'.canonIndex.trans h.canonIndex
  balances := h'.balances.trans h.balances
  nonces := h'.nonces.trans h.nonces
  recovery := h'.recovery.trans h.recovery

theorem tipHash (h : SameChain s g) : g.tipHash = s.tipHash :=
  ChainState.tipHash_congr h.blocks

theorem recorded (g : ChainState) (blk : Block) (candidateCw : Nat) :
    SameChain g (sideRecorded g blk candidateCw) := ⟨rfl, rfl, rfl, rfl, rfl⟩

end SameChain

section Seats

variable {P : Platform} {D : Block -> Prop} {host host₀ : Host} {g₀ g g' : ChainState}
  {base above above' rest below below' : List Block} {post state state' : TxExecutionState}
  {blk parent tip tip' : Block} {candidateCw : Nat}

/-- The state at a block depends on the canonical chain and the block's path. -/
theorem parentStateOf_congr (hg : Represents P D g) (hg' : Represents P D g')
    (hsame : SameChain g g') (hl : KnownPath g (tip :: below))
    (hl' : KnownPath g' (tip :: below)) :
    parentStateOf P g' tip.hash = parentStateOf P g tip.hash := by
  unfold parentStateOf
  rw [hsame.tipHash, hsame.balances, hsame.nonces, reconstructParentStateForSideChain_eq hg hl,
    reconstructParentStateForSideChain_eq hg' hl']

theorem Seat.congr (h : Seat P host g₀ base post g above tip below state)
    (hg : Represents P D g) (hg' : Represents P D g') (hsame : SameChain g g')
    (hl' : KnownPath g' (tip :: below)) :
    Seat P host g₀ base post g' above tip below state where
  line := h.line
  path_eq := h.path_eq
  path := hl'
  parentState := (parentStateOf_congr hg hg' hsame h.path hl').trans h.parentState

/-- The seat of a hash is unique. -/
theorem Seat.unique (h : Seat P host g₀ base post g above tip below state)
    (h' : Seat P host g₀ base post g above' tip' below' state') (hname : tip.hash = tip'.hash) :
    above = above' ∧ tip :: below = tip' :: below' := by
  have hpath := h.path.unique h'.path hname
  refine ⟨?_, hpath⟩
  have hlists : above ++ base = above' ++ base := by
    rw [h.path_eq, h'.path_eq, hpath]
  exact List.append_cancel_right hlists

/-- The verdict on a block that is admitted on a seat. -/
theorem Seat.verdict (h : Seat P host₀ g₀ base post g above tip below state)
    (hname : tip.hash = blk.header.parentHash)
    (hadmitted : Admitted P D host g blk parent rest candidateCw state') :
    parent :: rest = tip :: below ∧
      lineVerdict P host.now blk tip below state = .ok state' := by
  have hpath := hadmitted.joins.path.unique h.path
    (hadmitted.joins.parent_eq.symm.trans hname.symm)
  refine ⟨hpath, ?_⟩
  rw [← validateAgainstParent_of_state h.path hname.symm h.parentState]
  exact hadmitted.vetted.valid

/-- A line goes on through an admitted block that has waited for its tip. -/
theorem Seat.line_cons (h : Seat P host₀ g₀ base post g above tip below state)
    (hname : tip.hash = blk.header.parentHash)
    (hadmitted : Admitted P D host g blk parent rest candidateCw state')
    (hclock : host.clock = host₀.clock) (hseen : forall h, h ∈ g₀.seenBlocks -> h ∈ g.seenBlocks)
    {arrival : UInt64} {peer : String}
    (hwaits : Waits g₀ blk.header.parentHash (blk, arrival, peer)) :
    WaitingLine P host₀ g₀ base post (blk :: above) state' := by
  have hoffered := hadmitted.vetted.toOffered
  have hoffered₀ : Offered P g₀ blk :=
    ⟨hoffered.structure_ok, fun hmem => hoffered.fresh (hseen _ hmem), hoffered.number_ne⟩
  have hverdict := (h.verdict hname hadmitted).2
  unfold Host.now at hverdict
  rw [hclock] at hverdict
  exact WaitingLine.cons h.line h.path_eq (hname ▸ hwaits) hoffered₀ hverdict

/-- The post-state of a block above a parent that is not the tip is the replay
of its path. -/
theorem Admitted.lineReplay_eq (hg : Represents P D g)
    (h : Admitted P D host g blk parent rest candidateCw state') (hne : parent.hash ≠ g.tipHash) :
    lineReplay P (blk :: parent :: rest) = .ok state' := by
  rcases validateAgainstParent_ok h.vetted.valid with ⟨_, _, hvalid⟩
  rcases hvalid.executes with ⟨before, hbefore, hexecuted⟩
  rw [h.joins.parent_eq] at hbefore
  unfold parentStateOf at hbefore
  rw [if_neg hne, reconstructParentStateForSideChain_eq hg h.joins.path] at hbefore
  exact lineReplay_cons (mapErr_eq_ok.mp hbefore)
    (replayBlock_of_checked (replayBlockChecked_of_candidate h.joins.number_ne hexecuted))

/-- The account state at a block recorded beside the canonical chain. -/
theorem Admitted.recorded_parentState (hg : Represents P D g)
    (h : Admitted P D host g blk parent rest candidateCw state') (hne : parent.hash ≠ g.tipHash) :
    parentStateOf P (sideRecorded g blk candidateCw) blk.hash = .ok state' := by
  have hrecorded := hg.recorded h.joins candidateCw
  have hpath := hg.recorded_path h.joins candidateCw
  have htip : blk.hash ≠ (sideRecorded g blk candidateCw).tipHash := by
    intro heq
    have hcanonical := hrecorded.path_of_tip hpath heq
    have hreverse : blk ∈ g.blocks.reverse := hcanonical ▸ List.mem_cons_self
    have hknown := hg.resolve_of_mem (List.mem_reverse.mp hreverse)
    rw [h.joins.unknown] at hknown
    cases hknown
  unfold parentStateOf
  rw [if_neg htip, reconstructParentStateForSideChain_eq hrecorded hpath]
  exact mapErr_eq_ok.mpr (h.lineReplay_eq hg hne)

/-!
# Recording beside the canonical chain
-/

theorem sideRecorded_workOf (g : ChainState) (blk : Block) (candidateCw : Nat) (h : String) :
    (sideRecorded g blk candidateCw).workOf h = if blk.hash = h then candidateCw else g.workOf h := by
  unfold ChainState.workOf
  rw [show (sideRecorded g blk candidateCw).cumulativeWork =
    g.cumulativeWork.insert blk.hash candidateCw from rfl, getElem?_insert_ite]
  split
  · rfl
  · rfl

theorem Represents.tip_known (hg : Represents P D g) : resolveBlock g g.tipHash ≠ none := by
  cases hblocks : g.blocks.reverse with
  | nil => exact absurd hblocks hg.chain.ne_nil
  | cons tip below =>
      have hlast : g.blocks.getLast? = some tip := by
        rw [← List.head?_reverse, hblocks, List.head?_cons]
      have hname : g.tipHash = tip.hash := by
        rw [ChainState.tipHash, hlast]
        rfl
      have hmem : tip ∈ g.blocks := List.mem_of_getLast? hlast
      rw [hname, hg.resolve_of_mem hmem]
      simp

/-- A known hash keeps its recorded work when a new block is recorded. -/
theorem sideRecorded_workOf_known (hunknown : resolveBlock g blk.hash = none) {h : String}
    (hknown : resolveBlock g h ≠ none) (candidateCw : Nat) :
    (sideRecorded g blk candidateCw).workOf h = g.workOf h := by
  rw [sideRecorded_workOf, if_neg]
  intro heq
  rw [← heq] at hknown
  exact hknown hunknown

theorem sideRecorded_sideBlocks (hg : Represents P D g) (hunknown : resolveBlock g blk.hash = none)
    (candidateCw : Nat) {h : String} {b : Block} (hside : g.sideBlocks[h]? = some b) :
    (sideRecorded g blk candidateCw).sideBlocks[h]? = some b := by
  have hne : blk.hash ≠ h := by
    intro heq
    have hnone := Represents.resolve_of_not_mem (hg.not_mem_canonIndex hunknown)
    rw [heq, hside, ← heq, hunknown] at hnone
    cases hnone
  rw [show (sideRecorded g blk candidateCw).sideBlocks = g.sideBlocks.insert blk.hash blk from rfl,
    getElem?_insert_ite, if_neg hne, hside]

theorem Seat.recorded (h : Seat P host₀ g₀ base post g above tip below state)
    (hg : Represents P D g) (hadmitted : Admitted P D host g blk parent rest candidateCw state') :
    Seat P host₀ g₀ base post (sideRecorded g blk candidateCw) above tip below state := by
  refine h.congr hg (hg.recorded hadmitted.joins candidateCw) (SameChain.recorded _ _ _) ?_
  unfold KnownPath
  rw [hadmitted.recorded_known hg]
  exact h.path.put hadmitted.joins.unknown

/-- The seat of a block recorded on top of another seat. -/
theorem Seat.recorded_new (h : Seat P host₀ g₀ base post g above tip below state)
    (hg : Represents P D g) (hname : tip.hash = blk.header.parentHash)
    (hadmitted : Admitted P D host g blk parent rest candidateCw state')
    (hne : blk.header.parentHash ≠ g.tipHash)
    (hline : WaitingLine P host₀ g₀ base post (blk :: above) state') :
    Seat P host₀ g₀ base post (sideRecorded g blk candidateCw) (blk :: above) blk (tip :: below)
      state' := by
  have hpath := (h.verdict hname hadmitted).1
  constructor
  · exact hline
  · rw [List.cons_append, h.path_eq]
  · rw [← hpath]
    exact hg.recorded_path hadmitted.joins candidateCw
  · exact hadmitted.recorded_parentState hg (hadmitted.joins.parent_eq ▸ hne)

end Seats

/-!
# Settling
-/

/-- A hash that carries a seat. -/
def Seated (P : Platform) (host : Host) (g₀ : ChainState) (base : List Block)
    (post : TxExecutionState) (g : ChainState) (key : String) : Prop :=
  exists above tip below state,
    Seat P host g₀ base post g above tip below state ∧ tip.hash = key

/-- What holds while blocks are promoted onto `base` and the canonical chain
stays that of `s`; `g₀` is the state before the call. -/
structure Settling (P : Platform) (D : Block -> Prop) (host₀ : Host) (g₀ : ChainState)
    (base : List Block) (post : TxExecutionState) (s : ChainState) (offered : List Block)
    (pending : Option String) (host : Host) (g : ChainState) : Prop where
  represents : Represents P D g
  works : WorkBounded g
  clock : host.clock = host₀.clock
  same : SameChain s g
  sides : forall (h : String) (b : Block), s.sideBlocks[h]? = some b -> g.sideBlocks[h]? = some b
  seen : forall h, h ∈ g₀.seenBlocks -> h ∈ g.seenBlocks
  pool : forall key entry, Waits g key entry -> Waits g₀ key entry
  delivered : forall b, b ∈ offered -> D b
  waited : forall b, b ∈ offered ->
    exists arrival peer, Waits g₀ b.header.parentHash (b, arrival, peer)
  seated : forall b, b ∈ offered -> Seated P host₀ g₀ base post g b.header.parentHash
  pendingSeated : forall key, pending = some key -> Seated P host₀ g₀ base post g key

namespace Settling

variable {P : Platform} {D : Block -> Prop} {host host' host₀ : Host} {g₀ s g : ChainState}
  {base offered rest above below : List Block} {post state state' : TxExecutionState}
  {blk parent tip : Block} {candidateCw : Nat} {pending : Option String}
  {events : List ReorgEvent}

theorem tail (h : Settling P D host₀ g₀ base post s (blk :: offered) none host g) :
    Settling P D host₀ g₀ base post s offered none host g :=
  { h with
    delivered := fun b hb => h.delivered b (List.mem_cons_of_mem _ hb)
    waited := fun b hb => h.waited b (List.mem_cons_of_mem _ hb)
    seated := fun b hb => h.seated b (List.mem_cons_of_mem _ hb) }

theorem follows (h : Settling P D host₀ g₀ base post s offered pending host g)
    (hfollows : host.Follows host' events) :
    Settling P D host₀ g₀ base post s offered pending host' g :=
  { h with clock := hfollows.clock.trans h.clock }

theorem idle {key : String} (h : Settling P D host₀ g₀ base post s offered (some key) host g) :
    Settling P D host₀ g₀ base post s offered none host g :=
  { h with pendingSeated := by simp }

/-- A block offered on a seat is not an orphan. -/
theorem parentKnown (h : Settling P D host₀ g₀ base post s (blk :: offered) none host g) :
    ParentKnown g blk := by
  rcases h.seated blk List.mem_cons_self with ⟨above, tip, below, state, hseat, hname⟩
  rw [h.represents.parentKnown_iff, ← hname]
  exact ⟨tip, hseat.path.lookup List.mem_cons_self⟩

/-- The line that an admitted block lengthens. -/
theorem line_cons (h : Settling P D host₀ g₀ base post s (blk :: offered) none host g)
    (hadmitted : Admitted P D host g blk parent rest candidateCw state')
    (hseat : Seat P host₀ g₀ base post g above tip below state)
    (hname : tip.hash = blk.header.parentHash) :
    WaitingLine P host₀ g₀ base post (blk :: above) state' := by
  rcases h.waited blk List.mem_cons_self with ⟨arrival, peer, hwaits⟩
  exact hseat.line_cons hname hadmitted h.clock h.seen hwaits

theorem recorded (h : Settling P D host₀ g₀ base post s (blk :: offered) none host g)
    (hadmitted : Admitted P D host g blk parent rest candidateCw state')
    (hne : blk.header.parentHash ≠ g.tipHash) (hfollows : host.Follows host' events) :
    Settling P D host₀ g₀ base post s offered (some blk.hash) host'
      (sideRecorded g blk candidateCw) where
  represents := h.represents.recorded hadmitted.joins candidateCw
  works := workBounded_put h.represents h.works hadmitted
    (hadmitted.recorded_known h.represents) rfl
  clock := hfollows.clock.trans h.clock
  same := h.same.trans (SameChain.recorded _ _ _)
  sides := fun hash b hb =>
    sideRecorded_sideBlocks h.represents hadmitted.joins.unknown candidateCw (h.sides hash b hb)
  seen := fun hash hmem => mem_insert_set_iff.mpr (Or.inr (h.seen hash hmem))
  pool := h.pool
  delivered := fun b hb => h.delivered b (List.mem_cons_of_mem _ hb)
  waited := fun b hb => h.waited b (List.mem_cons_of_mem _ hb)
  seated := by
    intro b hb
    rcases h.seated b (List.mem_cons_of_mem _ hb) with ⟨above, tip, below, state, hseat, hname⟩
    exact ⟨above, tip, below, state, hseat.recorded h.represents hadmitted, hname⟩
  pendingSeated := by
    intro key hkey
    cases hkey
    rcases h.seated blk List.mem_cons_self with ⟨above, tip, below, state, hseat, hname⟩
    exact ⟨blk :: above, blk, tip :: below, state',
      hseat.recorded_new h.represents hname hadmitted hne (h.line_cons hadmitted hseat hname), rfl⟩

theorem takeWaiting {key : String} {waiting : List OrphanEntry}
    (h : Settling P D host₀ g₀ base post s offered (some key) host g)
    (hslot : g.orphanPool[key]? = some waiting) :
    Settling P D host₀ g₀ base post s (waiting.map Prod.fst ++ offered) none host
      (takeWaiting g key) := by
  have hentry : forall b, b ∈ waiting.map Prod.fst ->
      exists arrival peer, Waits g key (b, arrival, peer) := by
    intro b hb
    rcases List.mem_map.mp hb with ⟨⟨blk, arrival, peer⟩, hmem, rfl⟩
    exact ⟨arrival, peer, waiting, hslot, hmem⟩
  have hparent : forall b, b ∈ waiting.map Prod.fst -> D b ∧ b.header.parentHash = key := by
    intro b hb
    rcases hentry b hb with ⟨arrival, peer, hwaits⟩
    exact h.represents.waiting hwaits
  have hseats : forall {k : String}, Seated P host₀ g₀ base post g k ->
      Seated P host₀ g₀ base post (VisionCore.takeWaiting g key) k := by
    rintro k ⟨above, tip, below, state, hseat, hname⟩
    exact ⟨above, tip, below, state, hseat.congr h.represents (h.represents.takeWaiting key)
      ⟨rfl, rfl, rfl, rfl, rfl⟩ hseat.path, hname⟩
  constructor
  · exact h.represents.takeWaiting key
  · exact h.works.congr rfl rfl
  · exact h.clock
  · exact h.same.trans ⟨rfl, rfl, rfl, rfl, rfl⟩
  · exact h.sides
  · exact h.seen
  · exact fun k entry hwaits => h.pool k entry (waits_takeWaiting.mp hwaits).2
  · intro b hb
    cases List.mem_append.mp hb with
    | inl hnew => exact (hparent b hnew).1
    | inr hold => exact h.delivered b hold
  · intro b hb
    cases List.mem_append.mp hb with
    | inl hnew =>
        rcases hentry b hnew with ⟨arrival, peer, hwaits⟩
        rw [(hparent b hnew).2]
        exact ⟨arrival, peer, h.pool key _ hwaits⟩
    | inr hold => exact h.waited b hold
  · intro b hb
    cases List.mem_append.mp hb with
    | inl hnew =>
        rw [(hparent b hnew).2]
        exact hseats (h.pendingSeated key rfl)
    | inr hold => exact hseats (h.seated b hold)
  · simp

theorem forgetOrphan {hash : String}
    (h : Settling P D host₀ g₀ base post s offered pending host g) :
    Settling P D host₀ g₀ base post s offered pending host (forgetOrphan g hash) := by
  have hseats : forall {k : String}, Seated P host₀ g₀ base post g k ->
      Seated P host₀ g₀ base post (VisionCore.forgetOrphan g hash) k := by
    rintro k ⟨above, tip, below, state, hseat, hname⟩
    exact ⟨above, tip, below, state, hseat.congr h.represents (h.represents.forgetOrphan hash)
      ⟨rfl, rfl, rfl, rfl, rfl⟩ hseat.path, hname⟩
  exact
    { represents := h.represents.forgetOrphan hash
      works := h.works.congr rfl rfl
      clock := h.clock
      same := h.same.trans ⟨rfl, rfl, rfl, rfl, rfl⟩
      sides := h.sides
      seen := h.seen
      pool := h.pool
      delivered := h.delivered
      waited := h.waited
      seated := fun b hb => hseats (h.seated b hb)
      pendingSeated := fun key hkey => hseats (h.pendingSeated key hkey) }

end Settling

end VisionCore
