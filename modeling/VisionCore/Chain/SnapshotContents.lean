import VisionCore.Chain.Persistence
import VisionCore.Chain.Validity

/-!
# What the stored snapshots contain

A snapshot is four separate writes, so that a failed one leaves maps of different
blocks under one height.  Each map is still that of some delivered ancestry, and
the check of the state root at a restore tells whether the two belong together.
-/

namespace VisionCore

open Std
open Foundation

/-- Each map of a stored snapshot is that of a delivered ancestry, and there is no
snapshot of genesis. -/
structure SnapshotContents (P : Platform) (D : Block -> Prop) (db : Db) : Prop where
  balances : forall {height entries}, db.get (.snapBalances height) = some (.balances entries) ->
    exists l state, Ancestry P D l ∧ lineState P l = .ok state ∧
      EqualUpTo 0 entries state.balances
  nonces : forall {height entries}, db.get (.snapNonces height) = some (.nonces entries) ->
    exists l state, Ancestry P D l ∧ lineState P l = .ok state ∧
      EqualUpTo 0 entries state.nonces
  genesis : db.get (.snapshot 0) = none

/-- The state root tells the accounts of a delivered ancestry from any balances
and nonces of two others: the hash has no collision among their encodings. -/
def RootsBind (P : Platform) (D : Block -> Prop) : Prop :=
  forall l l₁ l₂ state state₁ state₂ root, Ancestry P D l -> Ancestry P D l₁ -> Ancestry P D l₂ ->
    lineState P l = .ok state -> lineState P l₁ = .ok state₁ -> lineState P l₂ = .ok state₂ ->
    computeStateRoot P state.balances state.nonces = .ok root ->
    computeStateRoot P state₁.balances state₂.nonces = .ok root ->
    SameAccounts state { balances := state₁.balances, nonces := state₂.nonces }

/-!
# Writes
-/

section Writes

variable {P : Platform} {D : Block -> Prop} {db db' : Db} {host : Host} {g : ChainState}
  {key : DbKey} {value : DbValue}

theorem writeSequence_get_cases {ops : List DbOp}
    (h : (writeSequence host db ops).2.1.get key = some value) :
    db.get key = some value ∨ DbOp.insert key value ∈ ops := by
  induction ops generalizing host db with
  | nil => exact Or.inl h
  | cons op rest ih =>
      have hwrite := Host.write_cases host db [op]
      unfold writeSequence at h
      generalize host.write db [op] = written at h hwrite
      cases hwrite with
      | written _ =>
          rcases ih h with hfirst | hmem
          · rcases Db.get_applyBatch_cases hfirst with hold | hop
            · exact Or.inl hold
            · exact Or.inr (List.mem_singleton.mp hop ▸ List.mem_cons_self)
          · exact Or.inr (List.mem_cons_of_mem _ hmem)
      | failed _ => exact Or.inl h

/-- A key holds what it held before the snapshot, or an entry of the snapshot. -/
theorem maybeSaveSnapshot_get_cases
    (h : (maybeSaveSnapshot P host g).2.1.get key = some value) :
    g.db.get key = some value ∨
      (g.currentHeight ≠ 0 ∧ exists root,
        DbOp.insert key value ∈ snapshotEntries g g.currentHeight root) := by
  unfold maybeSaveSnapshot at h
  dsimp only at h
  split at h
  · exact Or.inl h
  · rename_i hheight
    rw [not_or] at hheight
    unfold saveSnapshot at h
    split at h
    · exact Or.inl h
    · rename_i root _
      have hsequence : (writeSequence host g.db
          (snapshotEntries g g.currentHeight root)).2.1.get key = some value := by
        split at h
        · rename_i heq
          rw [heq]
          exact h
        · rename_i heq
          rw [heq]
          exact h
      rcases writeSequence_get_cases hsequence with hold | hmem
      · exact Or.inl hold
      · exact Or.inr ⟨hheight.1, root, hmem⟩

theorem SnapshotContents.congr (h : SnapshotContents P D db)
    (hget : forall key, key.isSnapshot = true -> db'.get key = db.get key) :
    SnapshotContents P D db' where
  balances := fun hentries => h.balances ((hget _ rfl).symm.trans hentries)
  nonces := fun hentries => h.nonces ((hget _ rfl).symm.trans hentries)
  genesis := (hget _ rfl).trans h.genesis

/-- A batch without snapshot keys leaves the snapshots alone. -/
theorem SnapshotContents.applyBatch (h : SnapshotContents P D db) {batch : List DbOp}
    (hbatch : forall op, op ∈ batch -> op.key.isSnapshot = false) :
    SnapshotContents P D (db.applyBatch batch) := by
  refine h.congr ?_
  intro key hkey
  refine Db.get_applyBatch_of_untouched ?_
  intro op hop heq
  rw [← heq, hbatch op hop] at hkey
  cases hkey

theorem tipBatch_isSnapshot {blk : Block} {op : DbOp} (hop : op ∈ tipBatch blk) :
    op.key.isSnapshot = false := by
  rcases mem_tipBatch.mp hop with rfl | rfl | rfl | rfl <;> rfl

/-- Saving the accounts of a delivered ancestry, completely or not. -/
theorem SnapshotContents.maybeSave {l : List Block} {state : TxExecutionState}
    (h : SnapshotContents P D g.db) (hl : Ancestry P D l) (hstate : lineState P l = .ok state)
    (hsame : SameAccounts state g.accounts) :
    SnapshotContents P D (maybeSaveSnapshot P host g).2.1 where
  balances := by
    intro height entries hget
    rcases maybeSaveSnapshot_get_cases hget with hold | ⟨_, root, hmem⟩
    · exact h.balances hold
    · simp only [snapshotEntries, List.mem_cons, List.not_mem_nil, or_false, DbOp.insert.injEq,
        DbKey.snapBalances.injEq, DbValue.balances.injEq, reduceCtorEq, false_and] at hmem
      exact ⟨l, state, hl, hstate, hmem.2 ▸ hsame.balances.symm⟩
  nonces := by
    intro height entries hget
    rcases maybeSaveSnapshot_get_cases hget with hold | ⟨_, root, hmem⟩
    · exact h.nonces hold
    · simp only [snapshotEntries, List.mem_cons, List.not_mem_nil, or_false, DbOp.insert.injEq,
        DbKey.snapNonces.injEq, DbValue.nonces.injEq, reduceCtorEq, false_and, false_or] at hmem
      exact ⟨l, state, hl, hstate, hmem.2 ▸ hsame.nonces.symm⟩
  genesis := by
    cases hget : (maybeSaveSnapshot P host g).2.1.get (.snapshot 0) with
    | none => rfl
    | some value =>
        rcases maybeSaveSnapshot_get_cases hget with hold | ⟨hheight, root, hmem⟩
        · rw [h.genesis] at hold
          cases hold
        · simp only [snapshotEntries, List.mem_cons, List.not_mem_nil, or_false,
            DbOp.insert.injEq, DbKey.snapshot.injEq, reduceCtorEq, false_and, false_or] at hmem
          exact absurd hmem.1.symm hheight

end Writes

/-!
# Along a step
-/

section Step

variable {P : Platform} {D : Block -> Prop} {N : UInt64 -> Prop} {host : Host} {g : ChainState}
  {blk : Block} {sourcePeer : Option String} {step : Step}

theorem recorded_snapshots (h : SnapshotContents P D g.db) (candidateCw : Nat) :
    SnapshotContents P D (sideRecorded g blk candidateCw).db := by
  refine h.applyBatch ?_
  intro op hop
  rw [List.mem_singleton.mp hop]
  rfl

theorem reorgBatch_isSnapshot {canonicalBlocks : List Block} {tip : Block} {stale : List UInt64}
    {op : DbOp} (hop : op ∈ reorgBatch canonicalBlocks tip stale) :
    op.key.isSnapshot = false := by
  unfold reorgBatch at hop
  rw [List.append_assoc] at hop
  rcases List.mem_append.mp hop with hentry | hop
  · rcases mem_canonicalEntries.mp hentry with ⟨b, _, rfl | rfl⟩ <;> rfl
  · rcases List.mem_append.mp hop with hremove | htip
    · rcases List.mem_map.mp hremove with ⟨_, _, rfl⟩
      rfl
    · simp only [tipEntry, List.mem_cons, List.not_mem_nil, or_false] at htip
      rcases htip with rfl | rfl <;> rfl

theorem Effect.snapshots (hg : Represents P D g) (hs : Sound P N g) (hnow : N host.now)
    (h : Effect P D host g blk sourcePeer step) (hpre : SnapshotContents P D g.db) :
    SnapshotContents P D step.chain.db := by
  cases h with
  | rejected _ => exact hpre
  | orphaned _ _ _ =>
      have hframe := addOrphan_db host.now g blk (sourcePeer.getD "anon")
      exact hframe.2.symm ▸ hpre
  | @extended parent rest candidateCw state db host' hadmitted htip hreverse hsaved _ =>
      rcases hadmitted.vouched hg hs hnow with ⟨before, after, hvouched, hafter⟩
      have hline := hvouched.lineState hadmitted.joins.number_ne
      have hancestry : Ancestry P D (blk :: parent :: rest) := by
        have hjoins := hadmitted.joins
        refine Admissible.step (hg.ancestry hjoins.path) hjoins.delivered hjoins.parent_eq ?_
          hjoins.is_sealed
        exact hjoins.hash_ne hg
      rcases hsaved with ⟨saver, hsaved⟩
      have hdb : (extendedChain g blk candidateCw state db).db = db := rfl
      rw [hdb, ← hsaved]
      refine SnapshotContents.maybeSave ?_ hancestry hline hafter
      exact hpre.applyBatch fun op hop => tipBatch_isSnapshot hop
  | recorded _ _ _ _ => exact recorded_snapshots hpre _
  | @moved parent common rest side candidateCw state works plan db host' hmoves _ =>
      rcases hmoves.saved with ⟨firstStale, _, hdb⟩
      have hdb' : (reorgApplied P (sideRecorded g blk candidateCw) blk side common works plan
          db).db = db := rfl
      rw [hdb', hdb]
      exact (recorded_snapshots hpre candidateCw).applyBatch
        fun op hop => reorgBatch_isSnapshot hop

end Step

/-- What a node keeps about its blocks and its snapshots. -/
structure Kept (P : Platform) (D : Block -> Prop) (N : UInt64 -> Prop) (g : ChainState) : Prop where
  sound : Sound P N g
  snapshots : SnapshotContents P D g.db

theorem stepInvariant_kept (P : Platform) (D : Block -> Prop) (N : UInt64 -> Prop) :
    StepInvariant P D fun host g => host.Within N ∧ Kept P D N g where
  effect := fun hg _ heffect hpre =>
    ⟨heffect.within hpre.1, heffect.sound hg hpre.2.sound (hpre.1 _),
      heffect.snapshots hg hpre.2.sound (hpre.1 _) hpre.2.snapshots⟩
  take := fun _ hpre => ⟨hpre.1, hpre.2.sound.congr rfl rfl rfl, hpre.2.snapshots⟩
  forget := fun _ hpre => ⟨hpre.1, hpre.2.sound.congr rfl rfl rfl, hpre.2.snapshots⟩

end VisionCore
