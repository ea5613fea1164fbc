import VisionCore.Chain.Accounts
import VisionCore.Foundation.Delivery

/-!
# The validity of known blocks

Whatever path a block has taken into the chain state, it once passed the verdict
on top of its ancestry, at a clock reading of the node.  The live accounts are
those of the canonical path, up to the zero entries that a restore drops.
-/

namespace VisionCore

open Std
open Foundation

/-!
# Delivered ancestries
-/

/-- Sealed delivered blocks linked down to genesis, newest first. -/
abbrev Ancestry (P : Platform) (D : Block -> Prop) (l : List Block) : Prop :=
  Admissible chainLineage (fun blk _ => Sealed P blk) D l

theorem Represents.ancestry {P : Platform} {D : Block -> Prop} {g : ChainState} {l : List Block}
    (hg : Represents P D g) (hl : KnownPath g l) : Ancestry P D l := by
  induction hl with
  | root _ => exact Admissible.root
  | step _ hb hparent hname ih =>
      rcases hg.candidate hb with rfl | ⟨hD, hsealed⟩
      · exact absurd rfl hname
      · exact Admissible.step ih hD hparent hname hsealed

def ChainState.accounts (g : ChainState) : TxExecutionState :=
  { balances := g.balances, nonces := g.nonces }

/-!
# Vouched blocks
-/

/-- At a clock reading that satisfies `N` the block passed the verdict on top of
its ancestry, of which `before` is the account state. -/
structure Vouched (P : Platform) (N : UInt64 -> Prop) (blk parent : Block) (rest : List Block)
    (before after : TxExecutionState) : Prop where
  below : lineState P (parent :: rest) = .ok before
  verdict : exists now, N now ∧ lineVerdict P now blk parent rest before = .ok after

/-- Every known block is vouched for. -/
def AllVouched (P : Platform) (N : UInt64 -> Prop) (g : ChainState) : Prop :=
  forall ⦃blk parent rest⦄, KnownPath g (blk :: parent :: rest) ->
    exists before after, Vouched P N blk parent rest before after

/-- Every known block is vouched for, and the live accounts are those of the
canonical path. -/
structure Sound (P : Platform) (N : UInt64 -> Prop) (g : ChainState) : Prop where
  vouched : AllVouched P N g
  live : exists state, lineState P g.blocks.reverse = .ok state ∧ SameAccounts state g.accounts

section Vouching

variable {P : Platform} {D : Block -> Prop} {N : UInt64 -> Prop} {host : Host}
  {g g' : ChainState} {blk parent : Block} {rest l : List Block}
  {before after state : TxExecutionState} {candidateCw : Nat} {sourcePeer : Option String}
  {step : Step}

theorem lineVerdict_valid {now : UInt64}
    (h : lineVerdict P now blk parent rest before = .ok after) :
    ValidInContext P now blk parent (lineWindow (parent :: rest)) (.ok before) after :=
  validateInContext_ok h

theorem lineVerdict_executes {now : UInt64}
    (h : lineVerdict P now blk parent rest before = .ok after) :
    executeCandidate P blk before = .ok after := by
  rcases (lineVerdict_valid h).executes with ⟨before', hbefore, hexecute⟩
  rwa [← Except.ok.inj hbefore] at hexecute

theorem Vouched.lineState (h : Vouched P N blk parent rest before after)
    (hnumber : blk.header.number ≠ 0) : lineState P (blk :: parent :: rest) = .ok after := by
  rcases h.verdict with ⟨now, _, hverdict⟩
  exact lineState_cons.mpr
    ⟨before, h.below, replayBlockChecked_of_candidate hnumber (lineVerdict_executes hverdict)⟩

theorem Represents.number_ne (hg : Represents P D g) (hl : KnownPath g (blk :: parent :: rest)) :
    blk.header.number ≠ 0 := by
  intro hzero
  have hnumber := (hg.linked hl).1
  rw [hzero] at hnumber
  exact absurd hnumber (Nat.succ_ne_zero _).symm

/-- Every known path replays with all of its state roots. -/
theorem AllVouched.known (h : AllVouched P N g) (hg : Represents P D g) (hl : KnownPath g l) :
    exists state, lineState P l = .ok state := by
  cases l with
  | nil => exact absurd rfl hl.ne_nil
  | cons blk rest =>
      cases rest with
      | nil =>
          cases hl with
          | root _ => exact ⟨_, lineState_genesis P⟩
      | cons parent rest =>
          rcases h hl with ⟨before, after, hvouched⟩
          exact ⟨after, hvouched.lineState (hg.number_ne hl)⟩

theorem AllVouched.mono (h : AllVouched P N g)
    (hpath : forall l, KnownPath g' l -> KnownPath g l) : AllVouched P N g' :=
  fun _ _ _ hl => h (hpath _ hl)

theorem Sound.congr (h : Sound P N g) (hknown : resolveBlock g' = resolveBlock g)
    (hblocks : g'.blocks = g.blocks) (haccounts : g'.accounts = g.accounts) : Sound P N g' where
  vouched := by
    refine h.vouched.mono ?_
    intro l hl
    unfold KnownPath at hl
    rwa [hknown] at hl
  live := by
    rw [hblocks, haccounts]
    exact h.live

theorem Sound.forgetClock (h : Sound P N g) : Sound P (fun _ => True) g where
  vouched := by
    intro blk parent rest hl
    rcases h.vouched hl with ⟨before, after, hbelow, now, _, hverdict⟩
    exact ⟨before, after, hbelow, now, trivial, hverdict⟩
  live := h.live

/-- The parent state that acceptance uses has the accounts of the parent's path. -/
theorem Sound.parentState (h : Sound P N g) (hg : Represents P D g)
    (hl : KnownPath g (parent :: rest)) (hbelow : lineState P (parent :: rest) = .ok before) :
    exists used, parentStateOf P g parent.hash = .ok used ∧ SameAccounts before used := by
  unfold parentStateOf
  split
  · rename_i htip
    rcases h.live with ⟨state, hstate, hsame⟩
    rw [hg.path_of_tip hl htip, hbelow] at hstate
    cases hstate
    exact ⟨_, rfl, hsame⟩
  · rw [reconstructParentStateForSideChain_eq hg hl]
    exact ⟨before, mapErr_eq_ok.mpr (lineReplay_of_lineState hbelow), SameAccounts.refl before⟩

theorem Sound.validate_eq (h : Sound P N g) (hg : Represents P D g)
    (hl : KnownPath g (parent :: rest)) (hparent : blk.header.parentHash = parent.hash)
    (hbelow : lineState P (parent :: rest) = .ok before) (now : UInt64) :
    SameOutcome (lineVerdict P now blk parent rest before) (validateAgainstParent P now g blk) := by
  rcases h.parentState hg hl hbelow with ⟨used, hused, hsame⟩
  rw [validateAgainstParent_of_state hl hparent hused now]
  exact lineVerdict_same hsame now parent rest

/-- An admitted block is vouched for, and its accounts are those it leaves. -/
theorem Admitted.vouched (h : Admitted P D host g blk parent rest candidateCw state)
    (hg : Represents P D g) (hs : Sound P N g) (hnow : N host.now) :
    exists before after, Vouched P N blk parent rest before after ∧ SameAccounts after state := by
  rcases hs.vouched.known hg h.joins.path with ⟨before, hbelow⟩
  have hsame := hs.validate_eq hg h.joins.path h.joins.parent_eq hbelow host.now
  have hvalid : validateAgainstParent P host.now g blk = .ok state := h.vetted.valid
  rw [hvalid] at hsame
  generalize hverdict : lineVerdict P host.now blk parent rest before = outcome at hsame
  cases hsame with
  | ok hafter => exact ⟨before, _, ⟨hbelow, host.now, hnow, hverdict⟩, hafter⟩

/-!
# Along a step
-/

theorem vouched_put (hg : Represents P D g) (hs : Sound P N g)
    (h : Admitted P D host g blk parent rest candidateCw state)
    (hvouched : Vouched P N blk parent rest before after)
    (hknown : resolveBlock g' = Store.put chainLineage (resolveBlock g) blk) ⦃b p : Block⦄
    ⦃tail : List Block⦄ (hl : KnownPath g' (b :: p :: tail)) :
    exists before after, Vouched P N b p tail before after := by
  rcases knownPath_cases hg h.joins hknown hl with ⟨hold, _⟩ | ⟨rfl, hrest⟩
  · exact hs.vouched hold
  · cases hrest
    exact ⟨before, after, hvouched⟩

theorem Effect.sound (hg : Represents P D g) (hs : Sound P N g) (hnow : N host.now)
    (h : Effect P D host g blk sourcePeer step) : Sound P N step.chain := by
  cases h with
  | rejected _ => exact hs
  | orphaned _ _ _ =>
      rcases addOrphan_frame host.now g blk (sourcePeer.getD "anon") with ⟨pool, byHash, hframe⟩
      rw [hframe]
      exact hs.congr rfl rfl rfl
  | extended hadmitted _ htip _ _ =>
      rcases hadmitted.vouched hg hs hnow with ⟨before, after, hvouched, hafter⟩
      refine ⟨vouched_put hg hs hadmitted hvouched (hadmitted.extended_known hg htip _), ?_⟩
      refine ⟨after, ?_, hafter⟩
      rw [extendedChain_blocks, List.reverse_append, htip]
      exact hvouched.lineState hadmitted.joins.number_ne
  | recorded hadmitted _ _ _ =>
      rcases hadmitted.vouched hg hs hnow with ⟨before, after, hvouched, _⟩
      exact ⟨vouched_put hg hs hadmitted hvouched (hadmitted.recorded_known hg), hs.live⟩
  | moved hmoves _ =>
      have hadmitted := hmoves.admitted
      rcases hadmitted.vouched hg hs hnow with ⟨before, after, hvouched, _⟩
      have hline := hvouched.lineState hadmitted.joins.number_ne
      constructor
      · unfold AllVouched KnownPath
        rw [hmoves.known]
        exact vouched_put hg hs hadmitted hvouched (hadmitted.recorded_known hg)
      · refine ⟨after, ?_, ?_⟩
        · rw [hmoves.blocks, List.reverse_reverse, hline]
        · rcases hmoves.planned.replay with ⟨ancestorState, hancestor, hbranchState⟩
          rcases reorg_replay hmoves.recorded hmoves.path hmoves.branches hline with
            ⟨ancestorState', hancestor', hbranchState'⟩
          rw [hmoves.height_eq, hancestor'] at hancestor
          rw [hmoves.hash_eq, hmoves.segment_eq, ← Except.ok.inj hancestor, hbranchState']
            at hbranchState
          rw [Except.ok.inj hbranchState]
          exact SameAccounts.refl _

end Vouching

/-- The clock of the host only shows readings that satisfy `N`. -/
def Host.Within (N : UInt64 -> Prop) (host : Host) : Prop :=
  forall i, N (host.clock i)

theorem Effect.within {P : Platform} {D : Block -> Prop} {N : UInt64 -> Prop} {host : Host}
    {g : ChainState} {blk : Block} {sourcePeer : Option String} {step : Step}
    (h : Effect P D host g blk sourcePeer step) (hhost : host.Within N) :
    step.host.Within N := by
  rcases h.follows with ⟨events, hfollows⟩
  unfold Host.Within
  rw [hfollows.clock]
  exact hhost

/-- No sealed block above genesis carries an all-zero hash, the mark of a block
without a parent. -/
def AvoidsZeroHash (P : Platform) (D : Block -> Prop) : Prop :=
  forall blk, D blk -> Sealed P blk -> blk.header.number ≠ 0 -> isZeroHash blk.hash = false

theorem verifyVisionxPow_ok {P : Platform} {blk : Block} {expected : Option UInt64}
    {path : String} (h : verifyVisionxPow P blk expected path = .ok ()) :
    exists digest, historicalBlockDigest P visionxParams
        (visionxParams.epoch blk.header.number) blk.header = .ok digest ∧
      bytesLe (digest.bytes.take 8) ((difficultyToTarget blk.header.difficulty).bytes.take 8) ∧
      hexEncode digest.bytes = blk.hash := by
  unfold verifyVisionxPow at h
  dsimp only at h
  split at h
  · cases h
  · rename_i digest hdigest
    split at h
    · cases h
    · rename_i htarget
      split at h
      · cases h
      · rename_i hhash
        refine ⟨digest, hdigest, ?_, (not_not.mp hhash).symm⟩
        unfold meetsTarget at htarget
        simpa using htarget

/-- Stages 1c and 6a together fix the coinbase. -/
theorem checkCoinbase_ok {P : Platform} {blk : Block} (hnumber : blk.header.number ≠ 0)
    (hstructure : checkStructure P blk = .ok ()) (hheight : checkCoinbaseHeight blk = .ok ()) :
    exists cb, blk.txs[0]? = some cb ∧ cb.module = "coinbase" ∧ cb.method = "reward" ∧
      cb.args.length = 8 ∧ fromBeBytes cb.args = blk.header.number.toNat := by
  have hpos : blk.header.number > 0 := UInt64.pos_iff_ne_zero.mpr hnumber
  have hpresence : checkCoinbasePresence blk = .ok () := by
    unfold checkStructure at hstructure
    split at hstructure
    · cases hstructure
    · split at hstructure
      · cases hstructure
      · exact hstructure
  unfold checkCoinbasePresence at hpresence
  unfold checkCoinbaseHeight at hheight
  rw [if_pos hpos] at hpresence hheight
  cases htxs : blk.txs with
  | nil =>
      rw [htxs] at hpresence
      cases hpresence
  | cons cb txs =>
      rw [htxs] at hpresence hheight
      dsimp only [List.head?_cons, List.getElem?_cons_zero] at hpresence hheight
      split at hpresence
      · cases hpresence
      · rename_i hkind
        rw [not_or, not_not, not_not] at hkind
        split at hheight
        · cases hheight
        · rename_i hlength
          split at hheight
          · cases hheight
          · rename_i hencoded
            exact ⟨cb, rfl, hkind.1, hkind.2, not_not.mp hlength, not_not.mp hencoded⟩

section Rules

variable {P : Platform} {D : Block -> Prop} {N : UInt64 -> Prop} {g : ChainState}
  {blk parent : Block} {rest : List Block} {before after : TxExecutionState}

theorem lineWindowLoop_eq {limit : Nat} {l chain : List Block}
    (hzero : forall newer blk older, l = newer ++ blk :: older -> older ≠ [] ->
      isZeroHash blk.header.parentHash = false) :
    lineWindowLoop limit l chain = (l.take limit).reverse ++ chain := by
  induction limit generalizing l chain with
  | zero =>
      unfold lineWindowLoop
      simp
  | succ limit ih =>
      cases l with
      | nil =>
          unfold lineWindowLoop
          simp
      | cons blk rest =>
          unfold lineWindowLoop
          split
          · rename_i hstop
            cases rest with
            | nil => simp
            | cons p rest =>
                rw [hzero [] blk (p :: rest) rfl (by simp)] at hstop
                cases hstop
          · rw [ih]
            · simp
            · rintro newer b older rfl hne
              exact hzero (blk :: newer) b older rfl hne

theorem genesis_not_isZeroHash : isZeroHash genesisBlock.hash = false := by
  decide

/-- The retarget window of a known path is its newest part, oldest block first. -/
theorem lineWindow_eq (hg : Represents P D g) (havoids : AvoidsZeroHash P D)
    (hl : KnownPath g (blk :: rest)) :
    lineWindow (blk :: rest) = ((blk :: rest).take (retargetWindow + 1)).reverse := by
  unfold lineWindow
  rw [lineWindowLoop_eq, List.append_nil]
  intro newer b older hsplit hne
  rw [hsplit] at hl
  cases older with
  | nil => exact absurd rfl hne
  | cons p older =>
      have hparent : b.header.parentHash = p.hash := hl.parent_eq
      rw [hparent]
      have hp : KnownPath g (p :: older) := hl.suffix.tail
      rcases hg.candidate (hp.lookup List.mem_cons_self) with rfl | ⟨hD, hsealed⟩
      · exact genesis_not_isZeroHash
      · cases older with
        | nil =>
            cases hp with
            | root _ => exact genesis_not_isZeroHash
        | cons q older => exact havoids p hD hsealed (hg.number_ne hp)

theorem Represents.resolve_side (hg : Represents P D g) {hash : String}
    (hside : g.sideBlocks[hash]? = some blk) : resolveBlock g hash = some blk := by
  have hcanon : hash ∉ g.canonIndex := by
    intro hmem
    refine hg.apart hash hmem ?_
    rw [ExtTreeMap.mem_iff_isSome_getElem?, hside]
    rfl
  unfold resolveBlock
  rw [ExtTreeMap.getElem?_eq_none hcanon]
  exact hside

end Rules

/-!
# A zero hash

Four blocks over genesis, the second of which has the zero digest.  The walk for
the retarget window takes the third for genesis.
-/

end VisionCore
