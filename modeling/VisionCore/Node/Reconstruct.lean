import VisionCore.Chain.Outcome
import VisionCore.Node.Restart

/-!
# A restart reconstructs the chain

Every block of the stored chain passes acceptance again on top of the blocks
before it, at any clock that has not gone back, so that a restart ends on the
stored tip whichever snapshot it starts from.
-/

namespace VisionCore

open Std
open Foundation

/-!
# A stored block passes again
-/

section Again

variable {P : Platform} {D : Block -> Prop} {N : UInt64 -> Prop} {T : UInt64} {host : Host}
  {g : ChainState} {blk parent : Block} {rest : List Block} {before after : TxExecutionState}
  {sourcePeer : Option String}

/-- A later clock only widens the future limit. -/
theorem checkTimestamp_later {now now' : UInt64} (hle : now ≤ now') (hnow' : now'.toNat < 2 ^ 63)
    (h : checkTimestamp P now parent blk = .ok ()) : checkTimestamp P now' parent blk = .ok () := by
  rw [UInt64.le_iff_toNat_le] at hle
  have hnow : now.toNat < 2 ^ 63 := Nat.lt_of_le_of_lt hle hnow'
  unfold checkTimestamp at h ⊢
  split at h
  · cases h
  · rename_i hlater
    rw [if_neg hlater, addU64_future P hnow']
    rw [addU64_future P hnow] at h
    rcases bind_eq_ok.mp h with ⟨limit, hlimit, hfinal⟩
    rw [← Except.ok.inj (liftFault_eq_ok.mp hlimit)] at hfinal
    split at hfinal
    · cases hfinal
    · rename_i hearly
      refine bind_eq_ok.mpr ⟨_, liftFault_eq_ok.mpr rfl, if_neg ?_⟩
      rw [gt_iff_lt, UInt64.lt_iff_toNat_lt, addFuture_toNat hnow] at hearly
      rw [gt_iff_lt, UInt64.lt_iff_toNat_lt, addFuture_toNat hnow']
      omega

theorem lineVerdict_later {now now' : UInt64} (hle : now ≤ now') (hnow' : now'.toNat < 2 ^ 63)
    (h : lineVerdict P now blk parent rest before = .ok after) :
    lineVerdict P now' blk parent rest before = .ok after := by
  have htimestamp := checkTimestamp_later hle hnow' (lineVerdict_valid h).timestamp
  unfold lineVerdict validateInContext at h ⊢
  rcases bind_eq_ok.mp h with ⟨_, _, h⟩
  exact bind_eq_ok.mpr ⟨_, htimestamp, h⟩

theorem Represents.tipHash_eq (hblocks : g.blocks.reverse = parent :: rest) :
    g.tipHash = parent.hash := by
  apply ChainState.tipHash_of_last
  rw [← List.head?_reverse, hblocks]
  rfl

/-- On top of its ancestry a block that was vouched for reaches lane A again. -/
theorem Sound.acceptBlock_again (hs : Sound P N g) (hg : Represents P D g) (hw : WorkBounded g)
    (harrives : Arrives g blk parent rest) (htip : g.blocks.reverse = parent :: rest)
    (hstructure : checkStructure P blk = .ok ())
    (hvouched : Vouched P (fun now => now ≤ T) blk parent rest before after)
    (hclock : T ≤ host.now) :
    exists state, SameAccounts after state ∧
      acceptBlock P host g blk sourcePeer = .ok (extendCanonical P host.tick g blk
        (g.workOf blk.header.parentHash + blk.header.difficulty.toNat) state) := by
  rcases hvouched.verdict with ⟨now, hnow, hverdict⟩
  have hlater := lineVerdict_later (UInt64.le_trans hnow hclock) (host.clock_lt _) hverdict
  have hsame := hs.validate_eq hg harrives.path harrives.parent_eq hvouched.below host.now
  rcases hsame.of_ok hlater with ⟨state, hvalid, hstate⟩
  refine ⟨state, hstate, ?_⟩
  rw [harrives.acceptBlock_eq hg hw hstructure, hvalid]
  dsimp only
  rw [if_pos (harrives.parent_eq.trans (Represents.tipHash_eq htip).symm)]

/-- Without waiting blocks a call ends after its first step. -/
theorem applyBlock_of_idle {step : Step} (hstep : acceptBlock P host g blk sourcePeer = .ok step)
    (hpool : step.chain.orphanPool = ∅) :
    applyBlock P host g blk sourcePeer =
      .ok { result := step.result, chain := step.chain, host := step.host } := by
  rw [applyBlock_eq]
  refine bind_eq_ok.mpr ⟨step, hstep, ?_⟩
  cases step.promote with
  | none => rfl
  | some key =>
      have hidle : processOrphans P step.host step.chain key = .ok (step.chain, step.host) := by
        unfold processOrphans processOrphansWith
        rw [hpool]
        rfl
      dsimp only
      rw [hidle]
      rfl

theorem replayStoredBlock_of_applyBlock {applied : Applied} {height : UInt64} (hash : String)
    (hrun : applyBlock P host g blk none = .ok applied)
    (hresult : applied.result = .canonExtension height) :
    replayStoredBlock P (g, host) height hash blk =
      .ok (applied.chain.refreshCachedStateRootFromTip, applied.host) := by
  unfold replayStoredBlock
  rw [hrun]
  exact if_pos hresult

end Again

/-!
# Replaying the rest of the chain
-/

/-- A host of a later start on which every write succeeds. -/
structure Host.Later (T : UInt64) (host : Host) : Prop where
  clock : forall i, T ≤ host.clock i
  writes : forall i, host.writeOk i = true

theorem Host.Later.congr {T : UInt64} {host host' : Host} (h : host.Later T)
    (hhost : host'.clock = host.clock ∧ host'.writeOk = host.writeOk) : host'.Later T where
  clock := by
    rw [hhost.1]
    exact h.clock
  writes := by
    rw [hhost.2]
    exact h.writes

/-- A state that knows the part `below` of the chain of `left` and nothing else,
over a database in which the whole of that chain is stored. -/
structure Following (P : Platform) (D : Block -> Prop) (left : ChainState) (below : List Block)
    (g : ChainState) : Prop where
  recovering : Recovering P D g
  blocks : g.blocks = below
  sideBlocks : g.sideBlocks = ∅
  pool : g.orphanPool = ∅
  stored : forall blk, blk ∈ left.blocks -> StoredBlock g.db blk

/-- A state in which the part `below` of the chain of `left` has been replayed. -/
structure Resuming (P : Platform) (D : Block -> Prop) (left : ChainState) (below : List Block)
    (g : ChainState) : Prop where
  recovering : Recovering P D g
  sound : Sound P (fun _ => True) g
  blocks : g.blocks = below
  sideBlocks : g.sideBlocks = ∅
  pool : g.orphanPool = ∅
  stored : forall blk, blk ∈ left.blocks -> StoredBlock g.db blk

/-- The root that a node keeps for its tip. -/
def TipCached (g : ChainState) : Prop :=
  g.cachedStateRoot = g.blocks.getLast?.map fun tip => (tip.header.number, tip.header.stateRoot)

section Rest

variable {P : Platform} {D : Block -> Prop} {T : UInt64} {left g g' : ChainState}
  {below above : List Block} {blk : Block} {host host' : Host}

/-- The next block of the chain, with the path below it. -/
theorem Represents.next_path (hleft : Represents P D left)
    (hsplit : left.blocks = below ++ blk :: above) : KnownPath left (blk :: below.reverse) := by
  have hchain := hleft.chain
  rw [hsplit, List.reverse_append, List.reverse_cons, List.append_assoc] at hchain
  exact hchain.suffix

theorem Resuming.following (h : Resuming P D left below g) : Following P D left below g :=
  { recovering := h.recovering
    blocks := h.blocks
    sideBlocks := h.sideBlocks
    pool := h.pool
    stored := h.stored }

theorem Following.arrives (h : Following P D left below g) (hleft : Represents P D left)
    (hsplit : left.blocks = below ++ blk :: above) {parent : Block} {rest : List Block}
    (hbelow : below.reverse = parent :: rest) : Arrives g blk parent rest := by
  have hpath := hleft.next_path hsplit
  rw [hbelow] at hpath
  have hg := h.recovering.represents
  have hchain := hg.chain
  rw [h.blocks, hbelow] at hchain
  refine ⟨hchain, Path.parent_eq (s := []) hpath, (hleft.linked hpath).1, ?_⟩
  -- nothing but the part below is known, and the path repeats no hash
  cases hknown : resolveBlock g blk.hash with
  | none => rfl
  | some found =>
      have hmem : found ∈ g.blocks := by
        unfold resolveBlock at hknown
        rw [h.sideBlocks] at hknown
        split at hknown
        · exact List.mem_of_getElem? hknown
        · simp at hknown
      have hfound : found ∈ parent :: rest := by
        rw [← hbelow, ← h.blocks]
        exact List.mem_reverse.mpr hmem
      exact absurd (hg.rooted.named hknown) (hpath.mem_tail_name_ne hfound)

/-- Writing the tip again leaves every stored block of the chain in place. -/
theorem StoredBlock.tipBatch (hleft : Represents P D left) {b : Block} {db db' : Db}
    (h : StoredBlock db b) (hb : b ∈ left.blocks) (hblk : blk ∈ left.blocks)
    (hdb : forall key, key.isSnapshot = false -> db'.get key = (db.applyBatch (tipBatch blk)).get key) :
    StoredBlock db' b := by
  by_cases heq : b = blk
  · subst heq
    exact (tipBatch_storedBlock db b).congr (hdb _ rfl) (hdb _ rfl)
  · have hhash : b.hash ≠ blk.hash := fun hname =>
      heq (Represents.eq_of_hash hleft.chain (List.mem_reverse.mpr hblk)
        (List.mem_reverse.mpr hb) hname)
    have hnumber : b.header.number ≠ blk.header.number := fun hname =>
      heq (hleft.eq_of_number hleft.chain (List.mem_reverse.mpr hblk)
        (List.mem_reverse.mpr hb) hname)
    refine h.congr ?_ ?_
    · rw [hdb _ rfl]
      exact tipBatch_get_untouched (by simpa using hhash) (by simp) (by simp) (by simp)
    · rw [hdb _ rfl]
      exact tipBatch_get_untouched (by simp) (by simpa using hnumber) (by simp) (by simp)

theorem Following.tip (h : Following P D left below g) {parent : Block} {rest : List Block}
    (hbelow : below.reverse = parent :: rest) : g.blocks.reverse = parent :: rest := by
  rw [h.blocks, hbelow]

theorem Following.applyBlock_cases (h : Following P D left below g) (hleft : Represents P D left)
    (hsplit : left.blocks = below ++ blk :: above) (hbelow : below ≠ []) {out : Applied}
    (hrun : applyBlock P host g blk none = .ok out) :
    (out.result = .canonExtension blk.header.number ∧ exists candidateCw state db,
      out.chain = extendedChain g blk candidateCw state db ∧
      forall key, key.isSnapshot = false ->
        db.get key = (g.db.applyBatch (tipBatch blk)).get key) ∨
    ((exists reason, out.result = .rejected reason) ∧ out.chain = g) := by
  rcases List.exists_cons_of_ne_nil (mt List.reverse_eq_nil_iff.mp hbelow) with
    ⟨parent, rest, hreverse⟩
  have harrives := h.arrives hleft hsplit hreverse
  have hg := h.recovering.represents
  have htip : blk.header.parentHash = g.tipHash :=
    harrives.parent_eq.trans (Represents.tipHash_eq (h.tip hreverse)).symm
  have hslot : g.orphanPool[blk.hash]? = none := by
    rw [h.pool]
    simp
  rcases applyBlock_unawaited hrun hslot with ⟨step, htransition, hresult, hchain⟩
  rw [hresult, hchain]
  cases htransition with
  | rejected _ => exact Or.inr ⟨⟨_, rfl⟩, rfl⟩
  | genesis _ hnumber _ _ _ => exact absurd hnumber harrives.number_ne
  | orphaned _ hunknown _ => exact absurd (harrives.parentKnown hg) hunknown
  | extended _ _ hsaved _ =>
      exact Or.inl ⟨rfl, _, _, _, rfl, fun key hkey => extensionSaved_get hsaved hkey⟩
  | recorded _ hside _ _ => exact absurd htip hside
  | aborted _ hside _ _ _ => exact absurd htip hside
  | reorganised _ hside _ _ _ _ _ _ => exact absurd htip hside

theorem stepInvariant_true_sound (P : Platform) (D : Block -> Prop) :
    StepInvariant P D fun _ g => Sound P (fun _ => True) g where
  effect := fun hg _ heffect hpre => heffect.sound hg hpre trivial
  take := fun _ hpre => hpre.congr rfl rfl rfl
  forget := fun _ hpre => hpre.congr rfl rfl rfl

theorem Represents.next_delivered (hleft : Represents P D left)
    (hsplit : left.blocks = below ++ blk :: above) (hbelow : below ≠ []) : D blk := by
  have hpath := hleft.next_path hsplit
  rcases List.exists_cons_of_ne_nil (mt List.reverse_eq_nil_iff.mp hbelow) with
    ⟨parent, rest, hreverse⟩
  rw [hreverse] at hpath
  rcases hleft.candidate (hpath.lookup List.mem_cons_self) with rfl | hcandidate
  · exact absurd rfl (hleft.number_ne hpath)
  · exact hcandidate.1

/-- A replay of the next block that succeeds follows up to it, and writes nothing
but the new tip. -/
theorem Following.replayed (h : Following P D left below g) (hnumbered : NumberedFrom P D)
    (hleft : Represents P D left) (hsplit : left.blocks = below ++ blk :: above)
    (hbelow : below ≠ []) {hash : String}
    (hrun : replayStoredBlock P (g, host) blk.header.number hash blk = .ok (g', host')) :
    Following P D left (below ++ [blk]) g' ∧ TipCached g' ∧
      forall key, key.isSnapshot = false ->
        g'.db.get key = (g.db.applyBatch (tipBatch blk)).get key := by
  have hrecovering := (replayStoredBlock_ok hnumbered h.recovering
    (hleft.next_delivered hsplit hbelow) hrun).1
  have hblk : blk ∈ left.blocks := by
    rw [hsplit]
    exact List.mem_append_right _ List.mem_cons_self
  rcases bind_eq_ok.mp hrun with ⟨applied, happlied, hfinal⟩
  split at hfinal
  · rename_i hresult
    cases Except.ok.inj hfinal
    rcases h.applyBlock_cases hleft hsplit hbelow (liftFault_eq_ok.mp happlied) with
      ⟨_, candidateCw, state, db, hchain, hdb⟩ | ⟨⟨reason, hrejected⟩, _⟩
    · refine ⟨⟨hrecovering, ?_, ?_, ?_, ?_⟩, rfl, ?_⟩
      · show applied.chain.blocks = below ++ [blk]
        rw [hchain, extendedChain_blocks, h.blocks]
      · show applied.chain.sideBlocks = ∅
        rw [hchain]
        exact h.sideBlocks
      · show applied.chain.orphanPool = ∅
        rw [hchain]
        exact h.pool
      · intro b hb
        show StoredBlock applied.chain.db b
        rw [hchain]
        exact (h.stored b hb).tipBatch hleft hb hblk hdb
      · intro key hkey
        show applied.chain.db.get key = _
        rw [hchain]
        exact hdb key hkey
    · rw [hrejected] at hresult
      cases hresult
  · cases hfinal

/-- A replay of the next block that succeeds resumes behind it. -/
theorem Resuming.replayed (h : Resuming P D left below g) (hnumbered : NumberedFrom P D)
    (hleft : Represents P D left) (hsplit : left.blocks = below ++ blk :: above)
    (hbelow : below ≠ []) {hash : String}
    (hrun : replayStoredBlock P (g, host) blk.header.number hash blk = .ok (g', host')) :
    Resuming P D left (below ++ [blk]) g' ∧ TipCached g' := by
  have hpost := replayStoredBlock_keeps (stepInvariant_true_sound P D)
    (fun hpre => hpre.congr rfl rfl rfl) hnumbered h.recovering h.sound
    (hleft.next_delivered hsplit hbelow) hrun
  rcases h.following.replayed hnumbered hleft hsplit hbelow hrun with ⟨hnext, hcached, _⟩
  exact ⟨⟨hnext.recovering, hpost.2, hnext.blocks, hnext.sideBlocks, hnext.pool, hnext.stored⟩,
    hcached⟩

/-- The pipeline accepts the next block of the chain, and nothing is promoted. -/
theorem Resuming.applyBlock_next (h : Resuming P D left below g) (hleft : Represents P D left)
    (hvouched : AllVouched P (fun now => now ≤ T) left)
    (hsplit : left.blocks = below ++ blk :: above) (hbelow : below ≠ []) (hhost : host.Later T) :
    exists candidateCw state db host', host'.Later T ∧
      (forall key, key.isSnapshot = false ->
        db.get key = (g.db.applyBatch (tipBatch blk)).get key) ∧
      applyBlock P host g blk none = .ok
        { result := .canonExtension blk.header.number
          chain := extendedChain g blk candidateCw state db
          host := host' } := by
  rcases List.exists_cons_of_ne_nil (mt List.reverse_eq_nil_iff.mp hbelow) with
    ⟨parent, rest, hreverse⟩
  have harrives := h.following.arrives hleft hsplit hreverse
  have hpath := hleft.next_path hsplit
  rw [hreverse] at hpath
  rcases hvouched hpath with ⟨before, after, hblk⟩
  have hstructure : checkStructure P blk = .ok () := by
    rcases hleft.candidate (hpath.lookup List.mem_cons_self) with rfl | ⟨_, hsealed⟩
    · exact absurd rfl (hleft.number_ne hpath)
    · exact hsealed.structure_ok
  have htip : g.blocks.reverse = parent :: rest := by rw [h.blocks, hreverse]
  rcases h.sound.acceptBlock_again h.recovering.represents h.recovering.exact.bounded harrives
    htip hstructure hblk (hhost.clock _) with ⟨state, _, hstep⟩
  have hcase := extendCanonical_cases P host.tick g blk
    (g.workOf blk.header.parentHash + blk.header.difficulty.toNat) state
  generalize extendCanonical P host.tick g blk
    (g.workOf blk.header.parentHash + blk.header.difficulty.toNat) state = step at hstep hcase
  cases hcase with
  | writeFailed hfail =>
      have hwrites : host.tick.writeOk host.tick.writes = true := hhost.writes _
      rw [hwrites] at hfail
      cases hfail
  | @extended saved _ hsaved =>
      have hrun := applyBlock_of_idle hstep h.pool
      have hkeeps := applyBlock_host hrun
      refine ⟨_, state, saved.2.1, saved.2.2, hhost.congr hkeeps, ?_, hrun⟩
      intro key hkey
      rw [← hsaved]
      exact maybeSaveSnapshot_get P _ _ hkey

theorem Resuming.replay_next (h : Resuming P D left below g) (hnumbered : NumberedFrom P D)
    (hleft : Represents P D left) (hvouched : AllVouched P (fun now => now ≤ T) left)
    (hsplit : left.blocks = below ++ blk :: above) (hbelow : below ≠ []) (hhost : host.Later T)
    (hash : String) :
    exists g' host', replayStoredBlock P (g, host) blk.header.number hash blk = .ok (g', host') ∧
      Resuming P D left (below ++ [blk]) g' ∧ host'.Later T ∧ TipCached g' := by
  rcases h.applyBlock_next hleft hvouched hsplit hbelow hhost with
    ⟨candidateCw, state, db, host', hhost', hdb, hrun⟩
  have hreplay : replayStoredBlock P (g, host) blk.header.number hash blk =
      .ok ((extendedChain g blk candidateCw state db).refreshCachedStateRootFromTip, host') :=
    replayStoredBlock_of_applyBlock _ hrun rfl
  rcases h.replayed hnumbered hleft hsplit hbelow hreplay with ⟨hnext, hcached⟩
  exact ⟨_, host', hreplay, hnext, hhost', hcached⟩

/-- Replaying the rest of the chain ends in the whole chain. -/
theorem Resuming.replay_rest (hnumbered : NumberedFrom P D) (hleft : Represents P D left)
    (hvouched : AllVouched P (fun now => now ≤ T) left)
    (h : Resuming P D left below g) (hsplit : left.blocks = below ++ above) (hbelow : below ≠ [])
    (hhost : host.Later T) (hcached : above = [] -> TipCached g) :
    exists g' host',
      above.foldlM (fun entry blk => replayStoredBlock P entry blk.header.number blk.hash blk)
        (g, host) = .ok (g', host') ∧
      (above.map fun blk => blk.header.number).foldlM (replayStoredHeight P) (g, host) =
        .ok (g', host') ∧
      Resuming P D left left.blocks g' ∧ TipCached g' := by
  induction above generalizing below g host with
  | nil =>
      rw [List.append_nil] at hsplit
      exact ⟨g, host, rfl, rfl, hsplit.symm ▸ h, hcached rfl⟩
  | cons blk above ih =>
      rcases h.replay_next hnumbered hleft hvouched hsplit hbelow hhost blk.hash with
        ⟨g₁, host₁, hfirst, hnext, hhost₁, hcached₁⟩
      have hsplit' : left.blocks = (below ++ [blk]) ++ above := by
        rw [hsplit, List.append_assoc]
        rfl
      rcases ih hnext hsplit' (by simp) hhost₁ (fun _ => hcached₁) with
        ⟨g', host', hblocks, hheights, hresumed, hfinal⟩
      refine ⟨g', host', ?_, ?_, hresumed, hfinal⟩
      · rw [List.foldlM_cons]
        exact bind_eq_ok.mpr ⟨_, hfirst, hblocks⟩
      · have hmem : blk ∈ left.blocks := by
          rw [hsplit]
          exact List.mem_append_right _ List.mem_cons_self
        have hheight : replayStoredHeight P (g, host) blk.header.number = .ok (g₁, host₁) := by
          unfold replayStoredHeight
          rw [(h.stored blk hmem).require]
          exact hfirst
        rw [List.map_cons, List.foldlM_cons]
        exact bind_eq_ok.mpr ⟨_, hheight, hheights⟩

end Rest

/-!
# No stage of a restart fails
-/

section Stages

variable {P : Platform} {D : Block -> Prop} {T : UInt64} {g g' : ChainState} {host host' : Host}

theorem foldlM_indexBlock_total {chain : List Block} {cw : Nat}
    (hbound : cw + lineWork chain < u128Bound) :
    exists out, chain.foldlM (indexBlock P) (g, cw) = .ok out := by
  induction chain generalizing g cw with
  | nil => exact ⟨_, rfl⟩
  | cons blk rest ih =>
      rw [lineWork_cons] at hbound
      unfold blockWork at hbound
      have hadd := addU128_ok P (a := cw) (b := blk.header.difficulty.toNat) (by omega)
      have hstep : exists g₁, indexBlock P (g, cw) blk =
          .ok (g₁, cw + blk.header.difficulty.toNat) := ⟨_, bind_eq_ok.mpr ⟨_, hadd, rfl⟩⟩
      rcases hstep with ⟨g₁, hstep⟩
      have hrest : cw + blk.header.difficulty.toNat + lineWork rest < u128Bound := by omega
      rcases ih (g := g₁) hrest with ⟨out, hout⟩
      rw [List.foldlM_cons]
      exact ⟨out, bind_eq_ok.mpr ⟨_, hstep, hout⟩⟩

theorem foldlM_reloadBlock_total {chain : List Block} {cw : Nat}
    (hload : forall blk, blk ∈ chain -> StoredBlock g.db blk)
    (hbound : cw + lineWork chain < u128Bound) :
    exists out, (chain.map fun blk => blk.header.number).foldlM (reloadBlock P) (g, cw) =
      .ok out := by
  induction chain generalizing g cw with
  | nil => exact ⟨_, rfl⟩
  | cons blk rest ih =>
      rw [lineWork_cons] at hbound
      unfold blockWork at hbound
      have hadd := addU128_ok P (a := cw) (b := blk.header.difficulty.toNat) (by omega)
      have hstep : exists g₁ cw₁, reloadBlock P (g, cw) blk.header.number = .ok (g₁, cw₁) ∧
          g₁.db = g.db ∧ cw₁ = cw + blk.header.difficulty.toNat := by
        unfold reloadBlock
        dsimp only
        rw [(hload blk List.mem_cons_self).load]
        dsimp only
        rw [hadd]
        exact ⟨_, _, rfl, rfl, rfl⟩
      rcases hstep with ⟨g₁, cw₁, hstep, hdb, rfl⟩
      have hrest : cw + blk.header.difficulty.toNat + lineWork rest < u128Bound := by omega
      rcases ih (g := g₁) (fun b hb => hdb.symm ▸ hload b (List.mem_cons_of_mem _ hb)) hrest
        with ⟨out, hout⟩
      rw [List.map_cons, List.foldlM_cons]
      exact ⟨out, bind_eq_ok.mpr ⟨_, hstep, hout⟩⟩

theorem Represents.lineWork_path (hg : Represents P D g) {chain : List Block}
    (hl : KnownPath g chain.reverse) : 0 + lineWork chain < u128Bound := by
  rw [Nat.zero_add, ← lineWork_reverse]
  cases hreverse : chain.reverse with
  | nil => exact absurd hreverse hl.ne_nil
  | cons tip below =>
      rw [hreverse] at hl
      have hlt := hg.lineWork_lt hl
      omega

theorem openWithGenesis_total (hdurable : Durable P D g) :
    exists opened, openWithGenesis P g.db = .ok opened := by
  rcases hdurable.persisted.tip with ⟨tip, hlast, htip⟩
  have hfold : exists out, (g.blocks.map fun blk => blk.header.number).foldlM (reloadBlock P)
      (ChainState.empty g.db, 0) = .ok out :=
    foldlM_reloadBlock_total (g := ChainState.empty g.db) hdurable.persisted.entries
      (hdurable.represents.lineWork_path hdurable.represents.chain)
  rcases hfold with ⟨out, hout⟩
  have hget : (ChainState.empty g.db).db.get .tipHeight = some (.number tip.header.number) := htip
  refine ⟨out.1, mapErr_eq_ok.mpr ?_⟩
  unfold loadCanonChain loadTipHeight
  rw [hget]
  dsimp only
  rw [hdurable.represents.heights_eq hlast]
  exact bind_eq_ok.mpr ⟨out, hout, rfl⟩

/-- A restore either succeeds or reports why the snapshot is not usable. -/
theorem Represents.restoreSnapshotAt_noFault (hg : Represents P D g) {height : UInt64}
    (hheight : height.toNat ≤ g.currentHeight.toNat) :
    NoFault (restoreSnapshotAt P g height) := by
  rcases hg.canonical_prefix hheight with ⟨hpath, hindex⟩
  have hlt := hg.length_lt
  have hone : (1 : UInt64).toNat = 1 := rfl
  have hadd : addU64 P height 1 = .ok (height + 1) := addU64_ok P (by omega)
  have hkeep := addU64_one_toNat hindex hlt hadd
  unfold restoreSnapshotAt
  split
  · exact NoFault.err _
  · rename_i state root _
    refine NoFault.bind (NoFault.liftFault hadd) ?_
    intro keep hkeep'
    have hkeepEq : keep = height + 1 :=
      Except.ok.inj ((liftFault_eq_ok.mp hkeep').symm.trans hadd)
    subst hkeepEq
    rw [hkeep]
    have htotal : exists rebuilt, rebuildIndexes P
        { g with
          balances := state.balances
          nonces := state.nonces
          blocks := g.blocks.take (height.toNat + 1) } = .ok rebuilt := by
      have hfold := foldlM_indexBlock_total (P := P)
        (g := { g with
          balances := state.balances
          nonces := state.nonces
          blocks := g.blocks.take (height.toNat + 1)
          canonIndex := ∅
          cumulativeWork := ∅
          seenBlocks := ∅ }) (hg.lineWork_path hpath)
      rcases hfold with ⟨out, hout⟩
      exact ⟨out.1, bind_eq_ok.mpr ⟨out, hout, rfl⟩⟩
    rcases htotal with ⟨rebuilt, hrebuilt⟩
    refine NoFault.bind (NoFault.liftFault hrebuilt) ?_
    intro restored _
    exact NoFault.ok _

theorem Represents.restoreFirst_noFault (hg : Represents P D g) {maxHeight : UInt64}
    {heights : List UInt64}
    (hheights : forall height, height ∈ heights -> height.toNat ≤ g.currentHeight.toNat) :
    NoFault (restoreFirst P g maxHeight heights) := by
  induction heights with
  | nil => exact NoFault.err _
  | cons height rest ih =>
      have hfault := hg.restoreSnapshotAt_noFault (hheights height List.mem_cons_self)
      unfold restoreFirst
      cases hrestore : restoreSnapshotAt P g height with
      | ok restored => exact NoFault.ok _
      | error stop =>
          cases stop with
          | fault f => exact absurd hrestore (hfault f)
          | err e => exact ih fun h' hh' => hheights h' (List.mem_cons_of_mem _ hh')

theorem checkStructure_genesis (P : Platform) : checkStructure P genesisBlock = .ok () := by
  have hroot : genesisBlock.header.txRoot = genesisBlock.computeTxRoot P := rfl
  have hweight : ¬genesisBlock.weight > blockWeightLimit := by decide
  unfold checkStructure
  rw [if_neg hweight, if_neg (not_not.mpr hroot)]
  rfl

/-- Genesis is accepted on an empty chain. -/
theorem applyBlock_genesis_total (hblocks : g.blocks = []) (hseen : g.seenBlocks = ∅)
    (hwrites : forall i, host.writeOk i = true) :
    applyBlock P host g genesisBlock none =
      .ok { result := .canonExtension 0, chain := genesisApplied g genesisBlock, host := host.wrote } := by
  have hstep : acceptBlock P host g genesisBlock none =
      .ok { result := .canonExtension 0
            chain := genesisApplied g genesisBlock
            host := host.wrote
            promote := none } := by
    have hwrite : host.write g.db (tipBatch genesisBlock) =
        (.ok (), g.db.applyBatch (tipBatch genesisBlock), host.wrote) := if_pos (hwrites _)
    unfold acceptBlock
    rw [checkStructure_genesis]
    dsimp only
    rw [hseen, if_neg (by simp), if_pos genesisBlock_number]
    have hempty : ¬(!g.blocks.isEmpty) = true := by
      rw [hblocks]
      simp
    unfold acceptGenesis persistCanonicalExtension
    rw [if_neg (by simp), if_neg hempty]
    unfold tipBatch at hwrite
    rw [hwrite]
    rfl
  exact applyBlock_of_step hstep rfl

end Stages

/-!
# The recovery paths end
-/

section Recovery

variable {P : Platform} {D : Block -> Prop} {T : UInt64} {g g' : ChainState} {host host' : Host}

theorem heightRange_drop (first last : UInt64) :
    heightRange first last = (heightRange 0 last).drop first.toNat := by
  unfold heightRange
  have hzero : (0 : UInt64).toNat = 0 := rfl
  rw [← List.map_drop, hzero, List.range_eq_range', List.range_eq_range', List.drop_range']
  refine List.ext_getElem? ?_
  intro i
  rw [List.getElem?_map, List.getElem?_map]
  by_cases hi : i < last.toNat + 1 - first.toNat
  · rw [List.getElem?_range' (by omega), List.getElem?_range' (by omega)]
    simp
  · rw [List.getElem?_eq_none (by rw [List.length_range']; omega),
      List.getElem?_eq_none (by rw [List.length_range']; omega)]
    rfl

theorem Reopened.following (h : Reopened P D g) {height : UInt64}
    (hheight : height.toNat ≤ g.currentHeight.toNat)
    (hrun : restoreSnapshotAt P g height = .ok g') :
    Following P D g (g.blocks.take (height.toNat + 1)) g' := by
  have hlt := h.recovering.represents.length_lt
  rcases h.recovering.represents.canonical_prefix hheight with ⟨_, hindex⟩
  rcases h.restored hheight hrun with ⟨hrecovering, hdb, hblocks⟩
  rcases restoreSnapshotAt_ok h.sideBlocks h.pool (by omega) hrun with ⟨honly, _⟩
  exact
    { recovering := hrecovering
      blocks := hblocks
      sideBlocks := honly.sideBlocks
      pool := honly.pool
      stored := by
        intro blk hblk
        rw [hdb]
        exact h.recovering.entries blk hblk }

/-- The state that a restore yields is a point of the replay. -/
theorem Reopened.resuming {N : UInt64 -> Prop} (h : Reopened P D g) (hvouched : AllVouched P N g)
    (hsnapshots : SnapshotContents P D g.db) (hroots : RootsBind P D) {height : UInt64}
    (hheight : height.toNat ≤ g.currentHeight.toNat)
    (hrun : restoreSnapshotAt P g height = .ok g') :
    Resuming P D g (g.blocks.take (height.toNat + 1)) g' := by
  have hfollowing := h.following hheight hrun
  have hsound := (h.restored_sound hvouched hsnapshots hroots hheight hrun).forgetClock
  exact ⟨hfollowing.recovering, hsound, hfollowing.blocks, hfollowing.sideBlocks,
    hfollowing.pool, hfollowing.stored⟩

theorem Resuming.refresh {left : ChainState} {below : List Block}
    (h : Resuming P D left below g) :
    Resuming P D left below g.refreshCachedStateRootFromTip :=
  { recovering := h.recovering.refresh
    sound := h.sound.congr rfl rfl rfl
    blocks := h.blocks
    sideBlocks := h.sideBlocks
    pool := h.pool
    stored := h.stored }

theorem tipCached_refresh (g : ChainState) : TipCached g.refreshCachedStateRootFromTip := rfl

/-- The tail above a restored snapshot replays up to the stored tip. -/
theorem Reopened.tail_total (h : Reopened P D g) (hnumbered : NumberedFrom P D)
    (hvouched : AllVouched P (fun now => now ≤ T) g) (hsnapshots : SnapshotContents P D g.db)
    (hroots : RootsBind P D) (hhost : host.Later T) {restored : ChainState} {height : UInt64}
    (hheight : height.toNat ≤ g.currentHeight.toNat)
    (hrestore : restoreSnapshotAt P g height = .ok restored) :
    exists g' host', replayStoredCanonicalTail P host restored height = .ok (g', host') ∧
      Resuming P D g g.blocks g' ∧ TipCached g' := by
  have hg := h.recovering.represents
  have hresuming := h.resuming hvouched hsnapshots hroots hheight hrestore
  rcases h.recovering.represents.canonical_prefix hheight with ⟨_, hindex⟩
  rcases h.restored hheight hrestore with ⟨_, hdb, _⟩
  rcases h.persisted.tip with ⟨tip, hlast, _⟩
  have hlength := hg.tip_number hlast
  have hcurrent := ChainState.currentHeight_of_last hlast
  unfold replayStoredCanonicalTail
  rw [hdb, h.requireTipHeight]
  dsimp only
  by_cases hle : g.currentHeight ≤ height
  · rw [if_pos hle]
    refine ⟨_, host, rfl, ?_, tipCached_refresh restored⟩
    have hall : g.blocks.take (height.toNat + 1) = g.blocks := by
      rw [UInt64.le_iff_toNat_le, hcurrent] at hle
      exact List.take_of_length_le (by omega)
    rw [hall] at hresuming
    exact hresuming.refresh
  · rw [if_neg hle]
    have hlt := hg.length_lt
    have hone : (1 : UInt64).toNat = 1 := rfl
    have hadd : addU64 P height 1 = .ok (height + 1) := addU64_ok P (by omega)
    have hfirst := addU64_one_toNat hindex hlt hadd
    have hsplit : g.blocks =
        g.blocks.take (height.toNat + 1) ++ g.blocks.drop (height.toNat + 1) :=
      (List.take_append_drop _ _).symm
    have hne : g.blocks.take (height.toNat + 1) ≠ [] := by
      intro hnil
      have hlen := congrArg List.length hnil
      rw [List.length_take, List.length_nil] at hlen
      omega
    have hheights : heightRange (height + 1) g.currentHeight =
        (g.blocks.drop (height.toNat + 1)).map fun blk => blk.header.number := by
      rw [heightRange_drop, hfirst, hcurrent, hg.heights_eq hlast, List.map_drop]
    have hcached : g.blocks.drop (height.toNat + 1) = [] -> TipCached restored := by
      intro hnil
      have hlen := congrArg List.length hnil
      rw [List.length_drop, List.length_nil] at hlen
      rw [UInt64.le_iff_toNat_le, hcurrent] at hle
      omega
    rcases Resuming.replay_rest hnumbered hg hvouched hresuming hsplit hne hhost hcached with
      ⟨g', host', _, hrest, hfinal, htip⟩
    refine ⟨g', host', bind_eq_ok.mpr ⟨_, liftFault_eq_ok.mpr hadd, ?_⟩, hfinal, htip⟩
    rw [hheights]
    exact hrest

/-- Genesis applied again is the first point of a rebuild. -/
theorem Reopened.rebuild_following (h : Reopened P D g)
    (hrun : replayStoredBlock P (clearedForRebuild g, host) genesisBlock.header.number
      genesisBlock.hash genesisBlock = .ok (g', host')) :
    Following P D g [genesisBlock] g' ∧ TipCached g' ∧
      g'.db = g.db.applyBatch (tipBatch genesisBlock) := by
  have hg := h.recovering.represents
  rcases hg.blocks_cons with ⟨above, habove⟩
  have hstart := rebuilt_genesis h.sideBlocks h.pool h.recovering.archive hrun
  rcases bind_eq_ok.mp hrun with ⟨applied, happlied, hfinal⟩
  split at hfinal
  · rename_i hresult
    cases Except.ok.inj hfinal
    have hchain := applyBlock_genesis (liftFault_eq_ok.mp happlied) hresult
    have hdb : applied.chain.db = g.db.applyBatch (tipBatch genesisBlock) := by
      rw [hchain]
      rfl
    refine ⟨⟨hstart.1, ?_, ?_, ?_, ?_⟩, rfl, hdb⟩
    · show applied.chain.blocks = [genesisBlock]
      rw [hchain]
      rfl
    · show applied.chain.sideBlocks = ∅
      rw [hchain]
      exact h.sideBlocks
    · show applied.chain.orphanPool = ∅
      rw [hchain]
      exact h.pool
    · intro blk hblk
      show StoredBlock applied.chain.db blk
      rw [hchain]
      refine (h.recovering.entries blk hblk).tipBatch hg hblk ?_ fun _ _ => rfl
      rw [habove]
      exact List.mem_cons_self
  · cases hfinal

/-- Once genesis has been applied again a rebuild is a replay. -/
theorem Reopened.rebuild_start (h : Reopened P D g) (hsnapshots : SnapshotContents P D g.db)
    (hrun : replayStoredBlock P (clearedForRebuild g, host) genesisBlock.header.number
      genesisBlock.hash genesisBlock = .ok (g', host')) :
    Resuming P D g [genesisBlock] g' ∧ SnapshotContents P D g'.db ∧ TipCached g' := by
  have hkept := rebuilt_genesis_kept (N := fun _ => True) h.sideBlocks h.pool hsnapshots
    (fun _ => trivial) hrun
  rcases h.rebuild_following hrun with ⟨hfollowing, hcached, _⟩
  exact ⟨⟨hfollowing.recovering, hkept.2.sound, hfollowing.blocks, hfollowing.sideBlocks,
    hfollowing.pool, hfollowing.stored⟩, hkept.2.snapshots, hcached⟩

/-- A rebuild from genesis ends on the stored tip. -/
theorem Reopened.rebuild_total (h : Reopened P D g) (hnumbered : NumberedFrom P D)
    (hvouched : AllVouched P (fun now => now ≤ T) g) (hsnapshots : SnapshotContents P D g.db)
    (hhost : host.Later T) :
    exists g' host', rebuildCanonicalStateFromGenesis P host g = .ok (g', host') ∧
      Resuming P D g g.blocks g' ∧ TipCached g' := by
  have hg := h.recovering.represents
  rcases hg.blocks_cons with ⟨above, habove⟩
  have hgenesis := applyBlock_genesis_total (P := P) (g := clearedForRebuild g) rfl rfl
    hhost.writes
  have hfirst : replayStoredBlock P (clearedForRebuild g, host) genesisBlock.header.number
      genesisBlock.hash genesisBlock = .ok
        ((genesisApplied (clearedForRebuild g) genesisBlock).refreshCachedStateRootFromTip,
          host.wrote) :=
    replayStoredBlock_of_applyBlock _ hgenesis rfl
  have hresuming := (h.rebuild_start hsnapshots hfirst).1
  have hlater : host.wrote.Later T := hhost.congr ⟨rfl, rfl⟩
  rcases Resuming.replay_rest hnumbered hg hvouched hresuming habove (by simp) hlater
    (fun _ => rfl) with ⟨g', host', hrest, _, hfinal, htip⟩
  refine ⟨g', host', ?_, hfinal, htip⟩
  rw [h.rebuild_eq habove, List.foldlM_cons]
  exact bind_eq_ok.mpr ⟨_, hfirst, hrest⟩

theorem Reopened.recover_total (h : Reopened P D g) (hnumbered : NumberedFrom P D)
    (hvouched : AllVouched P (fun now => now ≤ T) g) (hsnapshots : SnapshotContents P D g.db)
    (hroots : RootsBind P D) (hhost : host.Later T) (htip : TipCached g) :
    exists g' host', recoverAccountState P host g = .ok (g', host') ∧ g'.blocks = g.blocks ∧
      TipCached g' := by
  have hheights : forall height, height ∈ snapshotHeights g.db g.currentHeight ->
      height.toNat ≤ g.currentHeight.toNat := fun height hmem =>
    mem_heightRange_le (List.mem_reverse.mp (List.mem_filter.mp hmem).1)
  unfold recoverAccountState
  cases hrestore : restoreLatestSnapshot P g g.currentHeight with
  | ok found =>
      rcases restoreFirst_ok hrestore with ⟨hmem, hat⟩
      rcases h.tail_total hnumbered hvouched hsnapshots hroots hhost (hheights _ hmem) hat with
        ⟨g', host', hrun, hfinal, hcached⟩
      exact ⟨g', host', hrun, hfinal.blocks, hcached⟩
  | error stop =>
      cases stop with
      | fault f => exact absurd hrestore (h.recovering.represents.restoreFirst_noFault hheights f)
      | err e =>
          dsimp only
          split
          · rcases h.rebuild_total hnumbered hvouched hsnapshots hhost with
              ⟨g', host', hrun, hfinal, hcached⟩
            exact ⟨g', host', hrun, hfinal.blocks, hcached⟩
          · exact ⟨g, host, rfl, rfl, htip⟩

end Recovery

/-!
# The reconstructed chain
-/

/-- What a restart has to bring back of the state that the node left. -/
structure Reconstructed (left g : ChainState) : Prop where
  blocks : g.blocks = left.blocks
  canonIndex : g.canonIndex = left.canonIndex
  accounts : SameAccounts left.accounts g.accounts
  cachedStateRoot : TipCached g

section Restart

variable {P : Platform} {D : Block -> Prop} {T : UInt64} {db : Db} {left g₀ : ChainState}
  {host host₀ host' : Host} {calls : List Call}

/-- The index is determined by the blocks. -/
theorem Represents.canonIndex_eq {g : ChainState} (hleft : Represents P D left)
    (hg : Represents P D g) (hblocks : g.blocks = left.blocks) :
    g.canonIndex = left.canonIndex := by
  refine ExtTreeMap.ext_getElem? ?_
  intro hash
  refine Option.ext ?_
  intro n
  rw [hg.index, hleft.index, hblocks]

/-- So are the accounts, up to the entries that hold zero. -/
theorem Sound.accounts_eq {N N' : UInt64 -> Prop} {g : ChainState} (hleft : Sound P N left)
    (hg : Sound P N' g) (hblocks : g.blocks = left.blocks) :
    SameAccounts left.accounts g.accounts := by
  rcases hleft.live with ⟨state, hstate, hsame⟩
  rcases hg.live with ⟨state', hstate', hsame'⟩
  rw [hblocks, hstate] at hstate'
  rw [← Except.ok.inj hstate'] at hsame'
  exact hsame.symm.trans hsame'

theorem initializeChainState_genesis (hrun : initializeChainState P host db = .ok (g₀, host₀)) :
    validateGenesisHash P = .ok () := by
  rcases bind_eq_ok.mp hrun with ⟨opened, _, hrun⟩
  split at hrun
  · cases hrun
  · rename_i hboot
    unfold bootstrapChain at hboot
    split at hboot
    · cases hboot
    · rename_i hvalid
      exact hvalid

theorem bootstrapChain_total (host : Host) {g : ChainState} (hgenesis : validateGenesisHash P = .ok ())
    (hmarked : g.db.get .genesisHash = some (.text genesisHash)) :
    bootstrapChain P host g = .ok (g, host) := by
  unfold bootstrapChain loadGenesisHash
  rw [hgenesis, hmarked]
  simp [verifyStoredGenesis]

/-- A node that has run reopens on the chain that it left. -/
theorem Running.restart (hleft : Running P D (fun now => now ≤ T) left)
    (hnumbered : NumberedFrom P D) (hroots : RootsBind P D)
    (hgenesis : validateGenesisHash P = .ok ()) (hhost : host.Later T) :
    exists g host', initializeChainState P host left.db = .ok (g, host') ∧
      Reconstructed left g := by
  have hdurable := hleft.durable
  rcases openWithGenesis_total hdurable with ⟨opened, hopened⟩
  rcases openWithGenesis_ok hdurable hopened with ⟨honly, hdb⟩
  have hboot := bootstrapChain_total host hgenesis (hdb.symm ▸ hdurable.archive.marked)
  have hvouched : AllVouched P (fun now => now ≤ T) opened.refreshCachedStateRootFromTip :=
    hleft.kept.sound.vouched.mono fun l hl =>
      honly.knownPath hdurable.represents hdurable.represents.chain hl
  have hsnapshots : SnapshotContents P D opened.refreshCachedStateRootFromTip.db :=
    hdb.symm ▸ hleft.kept.snapshots
  rcases (hdurable.reopened hopened).recover_total hnumbered hvouched hsnapshots hroots hhost
    (tipCached_refresh opened) with ⟨g, host', hrecover, hblocks, hcached⟩
  have hrun : initializeChainState P host left.db = .ok (g, host') := by
    refine bind_eq_ok.mpr ⟨opened, hopened, ?_⟩
    rw [hboot]
    exact hrecover
  have hsame : g.blocks = left.blocks := hblocks.trans honly.blocks
  have hdurable' := (initializeChainState_restart hnumbered hdurable hrun).1
  have hkept' := initializeChainState_kept (N := fun _ => True) hnumbered hdurable
    ⟨hleft.kept.sound.forgetClock, hleft.kept.snapshots⟩ hroots (fun _ => trivial) hrun
  exact ⟨g, host', hrun,
    { blocks := hsame
      canonIndex := hdurable.represents.canonIndex_eq hdurable'.represents hsame
      accounts := hleft.kept.sound.accounts_eq hkept'.sound hsame
      cachedStateRoot := hcached }⟩

/-- After any sessions a start with a clock that has not gone back reconstructs
the chain that the last one left. -/
theorem restart_reconstructs (hnumbered : NumberedFrom P D) (havoids : AvoidsGenesis P D)
    (hroots : RootsBind P D) (hdb : ClockedDb P D (fun now => now ≤ T) db)
    (hclock : host.Within fun now => now ≤ T)
    (hstart : initializeChainState P host db = .ok (g₀, host₀))
    (hcalls : forall call, call ∈ calls ->
      D call.blk ∧ call.host.Within fun now => now ≤ T)
    (hrun : applyAll P g₀ calls = .ok left) (hlater : host'.Later T) :
    exists g host'', initializeChainState P host' left.db = .ok (g, host'') ∧
      Reconstructed left g := by
  have hstarted := initializeChainState_running hnumbered havoids hroots
    (hdb.running hnumbered havoids hroots) hclock hstart
  exact (hstarted.applyAll hnumbered hcalls hrun).restart hnumbered hroots
    (initializeChainState_genesis hstart) hlater

end Restart

theorem restart_reconstructs_sample : exists g₀ host₀ left g host'',
    initializeChainState samplePlatform sampleHost Db.empty = .ok (g₀, host₀) ∧
      applyAll samplePlatform g₀ [sampleCall firstBlock] = .ok left ∧
      initializeChainState samplePlatform sampleHost left.db = .ok (g, host'') ∧
      Reconstructed left g := by
  rcases restartedSample_runs with ⟨g₀, host₀, left, _, _, hstart, happly, _, _⟩
  have hclock : sampleHost.Within fun now => now ≤ 1000000 := fun _ => UInt64.le_refl _
  have hlater : sampleHost.Later 1000000 := ⟨fun _ => UInt64.le_refl _, fun _ => rfl⟩
  rcases restart_reconstructs firstOnly_numbered firstOnly_avoidGenesis firstOnly_rootsBind
    ClockedDb.empty hclock hstart (firstOnly_delivered _ (UInt64.le_refl _)) happly hlater with
    ⟨g, host'', hrestart, hsame⟩
  exact ⟨g₀, host₀, left, g, host'', hstart, happly, hrestart, hsame⟩

end VisionCore
