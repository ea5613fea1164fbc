import VisionCore.Chain.Outcome
import VisionCore.Node.Session

/-!
# A start-up that fails

Recovery checks stored blocks by applying them, and applying a block writes it
as the tip.  This module follows the database through a start-up that fails and
says when the stored chain survives it.
-/

namespace VisionCore

open Std
open Foundation

/-!
# The database of a failure
-/

/-- An error of start-up with the database that it leaves. -/
structure StartupFailure where
  error : StartupError
  db : Db

/-!
Start-up once more, stage by stage, with the database that each error leaves.
-/

namespace Traced

def bootstrapChain (P : Platform) (host : Host) (g : ChainState) :
    Except StartupFailure (ChainState × Host) :=
  match validateGenesisHash P with
  | .error e => .error ⟨.genesis e, g.db⟩
  | .ok () =>
      match loadGenesisHash g.db with
      | .error e => .error ⟨.load e, g.db⟩
      | .ok none =>
          match writeGenesis host g.db with
          | (.error e, db, _) => .error ⟨.storage e, db⟩
          | (.ok (), db, host) =>
              .ok ({ g with
                db := db
                blocks := g.blocks ++ [genesisBlock]
                canonIndex := g.canonIndex.insert genesisBlock.hash 0 }, host)
      | .ok (some storedHash) =>
          match verifyStoredGenesis storedHash with
          | .error e => .error ⟨.genesis e, g.db⟩
          | .ok () => .ok (g, host)

def replayStoredBlock (P : Platform) (entry : ChainState × Host) (height : UInt64)
    (hash : String) (blk : Block) : Except (Stop StartupFailure) (ChainState × Host) := do
  let applied <- liftFault (applyBlock P entry.2 entry.1 blk none)
  if applied.result = .canonExtension height then
    return (applied.chain.refreshCachedStateRootFromTip, applied.host)
  else .error (.err ⟨.replayRejected height hash applied.result, applied.chain.db⟩)

def replayStoredHeight (P : Platform) (entry : ChainState × Host) (height : UInt64) :
    Except (Stop StartupFailure) (ChainState × Host) :=
  match requireCanonicalBlock entry.1.db height with
  | .error e => .error (.err ⟨e, entry.1.db⟩)
  | .ok (hash, blk) => replayStoredBlock P entry height hash blk

def replayStoredCanonicalTail (P : Platform) (host : Host) (g : ChainState)
    (restoredHeight : UInt64) : Except (Stop StartupFailure) (ChainState × Host) :=
  match requireTipHeight g.db with
  | .error e => .error (.err ⟨e, g.db⟩)
  | .ok tipHeight =>
      if tipHeight ≤ restoredHeight then .ok (g.refreshCachedStateRootFromTip, host)
      else do
        let first <- liftFault (addU64 P restoredHeight 1)
        (heightRange first tipHeight).foldlM (replayStoredHeight P) (g, host)

def rebuildCanonicalStateFromGenesis (P : Platform) (host : Host) (g : ChainState) :
    Except (Stop StartupFailure) (ChainState × Host) :=
  match requireTipHeight g.db with
  | .error e => .error (.err ⟨e, g.db⟩)
  | .ok tipHeight =>
      match (heightRange 0 tipHeight).mapM (requireCanonicalBlock g.db) with
      | .error e => .error (.err ⟨e, g.db⟩)
      | .ok stored =>
          (stored.map Prod.snd).foldlM
            (fun entry blk => replayStoredBlock P entry blk.header.number blk.hash blk)
            (clearedForRebuild g, host)

def recoverAccountState (P : Platform) (host : Host) (g : ChainState) :
    Except (Stop StartupFailure) (ChainState × Host) :=
  match restoreLatestSnapshot P g g.currentHeight with
  | .ok (restored, restoredHeight) => replayStoredCanonicalTail P host restored restoredHeight
  | .error (.fault f) => .error (.fault f)
  | .error (.err _) =>
      if g.currentHeight > 0 then rebuildCanonicalStateFromGenesis P host g
      else .ok (g, host)

def initializeChainState (P : Platform) (host : Host) (db : Db) :
    Except (Stop StartupFailure) (ChainState × Host) := do
  let opened <- mapErr (fun e => ⟨e, db⟩) (openWithGenesis P db)
  match bootstrapChain P host opened with
  | .error failure => .error (.err failure)
  | .ok (g, host) => recoverAccountState P host g.refreshCachedStateRootFromTip

end Traced

/-!
# Forgetting the database
-/

section Forget

variable {P : Platform} {host : Host} {g : ChainState} {error error' error'' α β : Type}

theorem mapErr_bind (f : error -> error') (x : Except (Stop error) α)
    (k : α -> Except (Stop error) β) :
    mapErr f (x >>= k) = mapErr f x >>= fun a => mapErr f (k a) := by
  cases x with
  | ok a => rfl
  | error stop => cases stop <;> rfl

theorem mapErr_liftFault (f : error -> error') (x : Except Fault α) :
    mapErr f (liftFault x) = liftFault x := by
  cases x <;> rfl

theorem mapErr_mapErr (f : error -> error') (f' : error' -> error'')
    (x : Except (Stop error) α) : mapErr f' (mapErr f x) = mapErr (f' ∘ f) x := by
  cases x with
  | ok a => rfl
  | error stop => cases stop <;> rfl

theorem mapErr_foldlM (f : error -> error') {σ : Type} {step : σ -> α -> Except (Stop error) σ}
    {step' : σ -> α -> Except (Stop error') σ} (hstep : forall s a, mapErr f (step s a) = step' s a)
    (xs : List α) (s : σ) : mapErr f (xs.foldlM step s) = xs.foldlM step' s := by
  induction xs generalizing s with
  | nil => rfl
  | cons x rest ih =>
      rw [List.foldlM_cons, List.foldlM_cons, mapErr_bind, hstep]
      exact congrArg _ (funext ih)

theorem bootstrapChain_traced (P : Platform) (host : Host) (g : ChainState) :
    (Traced.bootstrapChain P host g).mapError StartupFailure.error = bootstrapChain P host g := by
  unfold Traced.bootstrapChain bootstrapChain
  cases validateGenesisHash P with
  | error e => rfl
  | ok _ =>
      cases loadGenesisHash g.db with
      | error e => rfl
      | ok mark =>
          cases mark with
          | none => rcases writeGenesis host g.db with ⟨_ | _, db, host'⟩ <;> rfl
          | some storedHash =>
              dsimp only
              cases verifyStoredGenesis storedHash <;> rfl

theorem replayStoredBlock_traced (P : Platform) (entry : ChainState × Host) (height : UInt64)
    (hash : String) (blk : Block) :
    mapErr StartupFailure.error (Traced.replayStoredBlock P entry height hash blk) =
      replayStoredBlock P entry height hash blk := by
  unfold Traced.replayStoredBlock replayStoredBlock
  rw [mapErr_bind, mapErr_liftFault]
  refine congrArg _ (funext fun applied => ?_)
  split <;> rfl

theorem replayStoredHeight_traced (P : Platform) (entry : ChainState × Host) (height : UInt64) :
    mapErr StartupFailure.error (Traced.replayStoredHeight P entry height) =
      replayStoredHeight P entry height := by
  unfold Traced.replayStoredHeight replayStoredHeight
  cases requireCanonicalBlock entry.1.db height with
  | error e => rfl
  | ok found => exact replayStoredBlock_traced P entry height found.1 found.2

theorem recoverAccountState_traced (P : Platform) (host : Host) (g : ChainState) :
    mapErr StartupFailure.error (Traced.recoverAccountState P host g) =
      recoverAccountState P host g := by
  unfold Traced.recoverAccountState recoverAccountState
  cases restoreLatestSnapshot P g g.currentHeight with
  | ok found =>
      show mapErr _ (Traced.replayStoredCanonicalTail P host found.1 found.2) =
        replayStoredCanonicalTail P host found.1 found.2
      unfold Traced.replayStoredCanonicalTail replayStoredCanonicalTail
      cases requireTipHeight found.1.db with
      | error e => rfl
      | ok tipHeight =>
          dsimp only
          split
          · rfl
          · rw [mapErr_bind, mapErr_liftFault]
            exact congrArg _ (funext fun first =>
              mapErr_foldlM _ (replayStoredHeight_traced P) _ _)
  | error stop =>
      cases stop with
      | fault f => rfl
      | err e =>
          dsimp only
          split
          · unfold Traced.rebuildCanonicalStateFromGenesis rebuildCanonicalStateFromGenesis
            cases requireTipHeight g.db with
            | error e => rfl
            | ok tipHeight =>
                dsimp only
                cases (heightRange 0 tipHeight).mapM (requireCanonicalBlock g.db) with
                | error e => rfl
                | ok stored =>
                    exact mapErr_foldlM _
                      (fun entry blk => replayStoredBlock_traced P entry _ _ blk) _ _
          · rfl

/-- Without the databases this is start-up. -/
theorem initializeChainState_traced (P : Platform) (host : Host) (db : Db) :
    mapErr StartupFailure.error (Traced.initializeChainState P host db) =
      initializeChainState P host db := by
  unfold Traced.initializeChainState initializeChainState
  rw [mapErr_bind, mapErr_mapErr]
  have hopen : mapErr (StartupFailure.error ∘ fun e => ⟨e, db⟩) (openWithGenesis P db) =
      openWithGenesis P db := by
    cases openWithGenesis P db with
    | ok g => rfl
    | error stop => cases stop <;> rfl
  rw [hopen]
  refine congrArg _ (funext fun opened => ?_)
  rw [← bootstrapChain_traced]
  cases Traced.bootstrapChain P host opened with
  | error failure => rfl
  | ok booted => exact recoverAccountState_traced P booted.2 _

theorem traced_of_error {db : Db} {e : StartupError}
    (hrun : initializeChainState P host db = .error (.err e)) :
    exists db', Traced.initializeChainState P host db = .error (.err ⟨e, db'⟩) := by
  rw [← initializeChainState_traced] at hrun
  cases htraced : Traced.initializeChainState P host db with
  | ok out =>
      rw [htraced] at hrun
      cases hrun
  | error stop =>
      rw [htraced] at hrun
      cases stop with
      | fault f => cases hrun
      | err failure =>
          cases hrun
          exact ⟨failure.db, rfl⟩

end Forget

/-!
# The stored chain
-/

/-- The stored tip and the height index are those of `db`. -/
structure SameStoredChain (db db' : Db) : Prop where
  tipHeight : db'.get .tipHeight = db.get .tipHeight
  tipHash : db'.get .tipHash = db.get .tipHash
  heights : forall n, db'.get (.height n) = db.get (.height n)

namespace SameStoredChain

theorem refl (db : Db) : SameStoredChain db db :=
  ⟨rfl, rfl, fun _ => rfl⟩

theorem trans {db db' db'' : Db} (h : SameStoredChain db db') (h' : SameStoredChain db' db'') :
    SameStoredChain db db'' where
  tipHeight := h'.tipHeight.trans h.tipHeight
  tipHash := h'.tipHash.trans h.tipHash
  heights := fun n => (h'.heights n).trans (h.heights n)

end SameStoredChain

section Steps

variable {P : Platform} {host host' : Host} {g g' : ChainState} {blk : Block}
  {sourcePeer : Option String} {out : Applied}

theorem recorded_sameStored (g : ChainState) (blk : Block) (candidateCw : Nat) :
    SameStoredChain g.db (sideRecorded g blk candidateCw).db where
  tipHeight := recorded_get (by simp)
  tipHash := recorded_get (by simp)
  heights := fun _ => recorded_get (by simp)

theorem reorgBatch_tipHeight (db : Db) (blocks : List Block) (tip : Block)
    (stale : List UInt64) :
    (db.applyBatch (reorgBatch blocks tip stale)).get .tipHeight =
      some (.number tip.header.number) := by
  unfold reorgBatch
  refine Db.get_applyBatch_of_mem (by simp [tipEntry]) ?_
  intro op hop hkey
  rcases List.mem_append.mp hop with hop | htip
  · rcases List.mem_append.mp hop with hentry | hremove
    · rcases mem_canonicalEntries.mp hentry with ⟨b, _, rfl | rfl⟩ <;> cases hkey
    · rcases List.mem_map.mp hremove with ⟨height, _, rfl⟩
      cases hkey
  · simp only [tipEntry, List.mem_cons, List.not_mem_nil, or_false] at htip
    rcases htip with rfl | rfl
    · rfl
    · cases hkey

/-- Without waiting blocks a call that reports an extension stores the block as
the tip, and any other call leaves the stored chain alone. -/
theorem applyBlock_idle_tip (hpool : g.orphanPool = ∅)
    (hrun : applyBlock P host g blk sourcePeer = .ok out) :
    (out.result = .canonExtension blk.header.number ∧ out.chain.orphanPool = ∅ ∧
      out.chain.db.get .tipHeight = some (.number blk.header.number)) ∨
    ((forall height, out.result ≠ .canonExtension height) ∧
      SameStoredChain g.db out.chain.db) := by
  have hslot : g.orphanPool[blk.hash]? = none := by
    rw [hpool]
    simp
  rcases applyBlock_unawaited hrun hslot with ⟨step, htransition, hresult, hchain⟩
  rw [hresult, hchain]
  cases htransition with
  | rejected _ => exact Or.inr ⟨by simp [rejectStep], SameStoredChain.refl _⟩
  | orphaned _ _ _ =>
      refine Or.inr ⟨by simp, ?_⟩
      rcases addOrphan_frame host.now g blk (sourcePeer.getD "anon") with ⟨_, _, heq⟩
      rw [heq]
      exact SameStoredChain.refl _
  | recorded _ _ _ _ => exact Or.inr ⟨by simp, recorded_sameStored g blk _⟩
  | aborted _ _ _ _ _ => exact Or.inr ⟨by simp, recorded_sameStored g blk _⟩
  | genesis _ hnumber _ _ _ =>
      refine Or.inl ⟨by rw [hnumber], hpool, ?_⟩
      exact tipBatch_tipHeight g.db blk
  | @extended _ _ db _ _ _ hsaved _ =>
      rcases hsaved with ⟨hostSaved, rfl⟩
      refine Or.inl ⟨rfl, hpool, ?_⟩
      exact (maybeSaveSnapshot_get P hostSaved _ rfl).trans (tipBatch_tipHeight g.db blk)
  | @reorganised candidateCw _ plan raised _ tip _ _ _ _ _ hplan hexchange hlast _ _ =>
      -- the new branch ends in the block itself
      have hside : (sideRecorded g blk candidateCw).sideBlocks[blk.hash]? = some blk :=
        ExtTreeMap.getElem?_insert_self
      rcases planned_segment_last (planReorg_ok hplan) hside with ⟨below, hsegment⟩
      rcases exchangeBranches_segment hexchange with ⟨kept, hblocks⟩
      have htip : tip = blk := by
        rw [hblocks, hsegment, ← List.append_assoc, List.getLast?_concat] at hlast
        exact (Option.some.inj hlast).symm
      subst htip
      refine Or.inl ⟨rfl, ?_, reorgBatch_tipHeight _ _ _ _⟩
      exact (exchangeBranches_orphanPool hexchange).trans hpool

end Steps

/-!
# What a failing replay leaves
-/

/-- A replay step on states without waiting blocks: success stores its height as
the tip, and an error leaves the stored chain alone. -/
structure StoresTip {α : Type}
    (f : ChainState × Host -> α -> Except (Stop StartupFailure) (ChainState × Host))
    (height : α -> UInt64) : Prop where
  ok : forall {entry x entry'}, entry.1.orphanPool = ∅ -> f entry x = .ok entry' ->
    entry'.1.orphanPool = ∅ ∧ entry'.1.db.get .tipHeight = some (.number (height x))
  err : forall {entry x failure}, entry.1.orphanPool = ∅ -> f entry x = .error (.err failure) ->
    SameStoredChain entry.1.db failure.db

section Failures

variable {P : Platform} {host host' : Host} {g g' : ChainState} {blk : Block}
  {entry entry' : ChainState × Host} {failure : StartupFailure}

theorem replayStoredBlock_storesTip (P : Platform) :
    StoresTip (fun entry (found : String × Block) =>
      Traced.replayStoredBlock P entry found.2.header.number found.1 found.2)
      (fun found => found.2.header.number) where
  ok := by
    intro entry found entry' hpool hrun
    rcases bind_eq_ok.mp hrun with ⟨applied, happlied, hfinal⟩
    split at hfinal
    · rename_i hresult
      cases Except.ok.inj hfinal
      rcases applyBlock_idle_tip hpool (liftFault_eq_ok.mp happlied) with
        ⟨_, hpool', htip⟩ | ⟨hnone, _⟩
      · exact ⟨hpool', htip⟩
      · exact absurd hresult (hnone _)
    · cases hfinal
  err := by
    intro entry found failure hpool hrun
    unfold Traced.replayStoredBlock at hrun
    cases happlied : applyBlock P entry.2 entry.1 found.2 none with
    | error f =>
        rw [happlied] at hrun
        cases hrun
    | ok applied =>
        rw [happlied] at hrun
        change (if applied.result = _ then _ else _) = _ at hrun
        rcases applyBlock_idle_tip hpool happlied with ⟨hresult, _, _⟩ | ⟨hnone, hsame⟩
        · rw [if_pos hresult] at hrun
          cases hrun
        · rw [if_neg (hnone _)] at hrun
          cases hrun
          exact hsame

theorem replayStoredHeight_storesTip (P : Platform) :
    StoresTip (Traced.replayStoredHeight P) fun height => height where
  ok := by
    intro entry height entry' hpool hrun
    unfold Traced.replayStoredHeight at hrun
    split at hrun
    · cases hrun
    · rename_i hash blk hrequire
      have hnumber := (requireCanonicalBlock_ok hrequire).1
      rw [← hnumber] at hrun ⊢
      exact (replayStoredBlock_storesTip P).ok (x := (hash, blk)) hpool hrun
  err := by
    intro entry height failure hpool hrun
    unfold Traced.replayStoredHeight at hrun
    split at hrun
    · cases hrun
      exact SameStoredChain.refl _
    · rename_i hash blk hrequire
      have hnumber := (requireCanonicalBlock_ok hrequire).1
      rw [← hnumber] at hrun
      exact (replayStoredBlock_storesTip P).err (x := (hash, blk)) hpool hrun

/-- A replay that fails has either applied nothing, or left a tip below the last
of its heights. -/
theorem StoresTip.leaves {α : Type}
    {f : ChainState × Host -> α -> Except (Stop StartupFailure) (ChainState × Host)}
    {height : α -> UInt64} (h : StoresTip f height) {xs : List α}
    (hpool : entry.1.orphanPool = ∅) (hrun : xs.foldlM f entry = .error (.err failure)) :
    (exists first, xs.head? = some first ∧ f entry first = .error (.err failure) ∧
      SameStoredChain entry.1.db failure.db) ∨
    (exists first entry', xs.head? = some first ∧ f entry first = .ok entry' ∧
      exists i last, i + 1 < xs.length ∧ xs[i]? = some last ∧
        failure.db.get .tipHeight = some (.number (height last))) := by
  rcases foldlM_eq_error hrun with ⟨below, x, above, failed, hsplit, hbelow, hfail⟩
  have hkeeps : failed.1.orphanPool = ∅ :=
    foldlM_induction (I := fun entry : ChainState × Host => entry.1.orphanPool = ∅)
      (fun _ _ _ _ hpre hstep => (h.ok hpre hstep).1) hpool hbelow
  have hsame := h.err hkeeps hfail
  cases below with
  | nil =>
      rw [List.foldlM_nil] at hbelow
      cases hbelow
      exact Or.inl ⟨x, by rw [hsplit]; rfl, hfail, hsame⟩
  | cons first rest =>
      right
      have hfirst := hbelow
      rw [List.foldlM_cons] at hfirst
      rcases bind_eq_ok.mp hfirst with ⟨entry', hentry', _⟩
      rcases List.eq_nil_or_concat (first :: rest) with hnil | ⟨init, last, hconcat⟩
      · cases hnil
      · rw [hconcat, List.concat_eq_append] at hbelow hsplit
        rcases foldlM_snoc_ok.mp hbelow with ⟨before, hinit, hlast⟩
        have hbefore : before.1.orphanPool = ∅ :=
          foldlM_induction (I := fun entry : ChainState × Host => entry.1.orphanPool = ∅)
            (fun _ _ _ _ hpre hstep => (h.ok hpre hstep).1) hpool hinit
        refine ⟨first, entry', ?_, hentry', init.length, last, ?_, ?_, ?_⟩
        · rw [hsplit, ← List.concat_eq_append, ← hconcat]
          rfl
        · rw [hsplit]
          simp
        · rw [hsplit]
          simp
        · rw [hsame.tipHeight]
          exact (h.ok hbefore hlast).2

end Failures

/-!
# When the stored chain survives
-/

/-- Recovery does not get as far as having applied a stored block: the first one
that it offers is refused, or the stored chain cannot be read. -/
def NothingReplayed (P : Platform) (host : Host) (g : ChainState) : Prop :=
  match restoreLatestSnapshot P g g.currentHeight with
  | .ok (restored, restoredHeight) =>
      forall tipHeight, requireTipHeight restored.db = .ok tipHeight ->
        restoredHeight < tipHeight ->
          forall entry, replayStoredHeight P (restored, host) (restoredHeight + 1) ≠ .ok entry
  | .error _ =>
      forall tipHeight stored, requireTipHeight g.db = .ok tipHeight ->
        (heightRange 0 tipHeight).mapM (requireCanonicalBlock g.db) = .ok stored ->
          forall first, (stored.map Prod.snd).head? = some first ->
            forall entry, replayStoredBlock P (clearedForRebuild g, host)
              first.header.number first.hash first ≠ .ok entry

/-- The writes of genesis, where they are made, repeat what is stored, and
recovery fails before it has applied a block. -/
def KeepsChain (P : Platform) (host : Host) (db : Db) : Prop :=
  forall opened, openWithGenesis P db = .ok opened ->
    (validateGenesisHash P = .ok () -> loadGenesisHash db = .ok none ->
      SameStoredChain db (writeGenesis host db).2.1) ∧
    forall g host', bootstrapChain P host opened = .ok (g, host') ->
      NothingReplayed P host' g.refreshCachedStateRootFromTip

/-- The stored tip of `db'` is lower than the one of `db`. -/
def LowerTip (db db' : Db) : Prop :=
  exists tip tip', db.get .tipHeight = some (.number tip) ∧
    db'.get .tipHeight = some (.number tip') ∧ tip'.toNat < tip.toNat

/-- The stored chain is left alone under the condition, with a lower tip otherwise. -/
def KeptIf (kept : Prop) (db db' : Db) : Prop :=
  (kept ∧ SameStoredChain db db') ∨ (¬kept ∧ LowerTip db db')

section Survival

variable {P : Platform} {host host' : Host} {g g' : ChainState} {db db' : Db}
  {failure : StartupFailure} {height : UInt64} {kept kept' : Prop}

theorem SameStoredChain.not_lowerTip (h : SameStoredChain db db') : ¬LowerTip db db' := by
  rintro ⟨tip, tip', htip, htip', hlt⟩
  rw [h.tipHeight, htip] at htip'
  cases htip'
  exact Nat.lt_irrefl _ hlt

theorem KeptIf.iff (h : KeptIf kept db db') : SameStoredChain db db' ↔ kept := by
  rcases h with ⟨hkept, hsame⟩ | ⟨hnot, hlower⟩
  · exact iff_of_true hsame hkept
  · exact iff_of_false (fun hsame => hsame.not_lowerTip hlower) hnot

theorem KeptIf.congr (h : KeptIf kept db db') (hiff : kept ↔ kept') : KeptIf kept' db db' := by
  unfold KeptIf at h ⊢
  rwa [← hiff]

theorem openWithGenesis_frame (hrun : openWithGenesis P db = .ok g) :
    g.db = db ∧ g.orphanPool = ∅ := by
  have hload := mapErr_eq_ok.mp hrun
  unfold loadCanonChain at hload
  split at hload
  · cases hload
  · cases hload
    exact ⟨rfl, rfl⟩
  · rcases bind_eq_ok.mp hload with ⟨loaded, hfold, hfinal⟩
    cases Except.ok.inj hfinal
    refine foldlM_induction
      (I := fun entry : ChainState × Nat => entry.1.db = db ∧ entry.1.orphanPool = ∅)
      ?_ ⟨rfl, rfl⟩ hfold
    intro entry n entry' _ hpre hstep
    unfold reloadBlock at hstep
    dsimp only at hstep
    split at hstep
    · cases hstep
    · rcases bind_eq_ok.mp hstep with ⟨cumulative, _, hnext⟩
      cases Except.ok.inj hnext
      exact hpre

theorem restoreSnapshotAt_frame (hrun : restoreSnapshotAt P g height = .ok g') :
    g'.db = g.db ∧ g'.orphanPool = g.orphanPool := by
  rcases restoreSnapshotAt_eq hrun with ⟨state, root, keep, works, _, _, _, rfl⟩
  exact ⟨rfl, rfl⟩

theorem heightRange_getElem? {first last n : UInt64} {i : Nat}
    (h : (heightRange first last)[i]? = some n) :
    n.toNat = first.toNat + i ∧ first.toNat + i ≤ last.toNat := by
  unfold heightRange at h
  rw [List.getElem?_map] at h
  rcases Option.map_eq_some_iff.mp h with ⟨k, hk, rfl⟩
  have hlt := (List.getElem?_eq_some_iff.mp hk).1
  rw [List.length_range] at hlt
  rw [List.getElem?_range hlt] at hk
  cases hk
  have hlast := last.toNat_lt
  rw [UInt64.toNat_ofNat', Nat.mod_eq_of_lt (by omega)]
  omega

/-- A replay of all heights up to the stored tip that fails after its first block
leaves a lower tip. -/
theorem StoresTip.keptIf {α : Type}
    {f : ChainState × Host -> α -> Except (Stop StartupFailure) (ChainState × Host)}
    {height : α -> UInt64} (h : StoresTip f height) {xs : List α} {first last : UInt64}
    {entry : ChainState × Host} (hxs : xs.map height = heightRange first last)
    (htip : entry.1.db.get .tipHeight = some (.number last)) (hpool : entry.1.orphanPool = ∅)
    (hrun : xs.foldlM f entry = .error (.err failure)) :
    KeptIf (forall x, xs.head? = some x -> forall entry', f entry x ≠ .ok entry')
      entry.1.db failure.db := by
  rcases h.leaves hpool hrun with ⟨x, hhead, hfail, hsame⟩ |
    ⟨x, entry', hhead, hok, i, y, hi, hy, htip'⟩
  · refine Or.inl ⟨?_, hsame⟩
    intro x' hx' entry' hok
    rw [hhead] at hx'
    cases hx'
    rw [hfail] at hok
    cases hok
  · refine Or.inr ⟨fun hnone => hnone x hhead entry' hok, last, height y, htip, htip', ?_⟩
    have hat : (heightRange first last)[i]? = some (height y) := by
      rw [← hxs, List.getElem?_map, hy]
      rfl
    have hlength : i + 1 < (heightRange first last).length := by
      rw [← hxs, List.length_map]
      exact hi
    have hnext := heightRange_getElem? (List.getElem?_eq_getElem hlength)
    have hbound := heightRange_getElem? hat
    omega

theorem requireTipHeight_ok {tipHeight : UInt64} (hrun : requireTipHeight db = .ok tipHeight) :
    db.get .tipHeight = some (.number tipHeight) := by
  unfold requireTipHeight loadTipHeight at hrun
  cases hget : db.get .tipHeight with
  | none =>
      rw [hget] at hrun
      cases hrun
  | some value =>
      rw [hget] at hrun
      cases value with
      | number n =>
          cases hrun
          rfl
      | _ => cases hrun

theorem mapM_require_numbers {heights : List UInt64} {stored : List (String × Block)}
    (hrun : heights.mapM (requireCanonicalBlock db) = .ok stored) :
    stored.map (fun found => found.2.header.number) = heights := by
  induction heights generalizing stored with
  | nil =>
      rw [List.mapM_nil] at hrun
      cases Except.ok.inj hrun
      rfl
  | cons n rest ih =>
      rw [List.mapM_cons] at hrun
      rcases bind_eq_ok.mp hrun with ⟨⟨hash, blk⟩, hrequire, hrun⟩
      rcases bind_eq_ok.mp hrun with ⟨others, hothers, hfinal⟩
      cases Except.ok.inj hfinal
      rw [List.map_cons, ih hothers]
      exact congrArg (fun m => m :: rest) (requireCanonicalBlock_ok hrequire).1

theorem tail_keptIf (hpool : g.orphanPool = ∅)
    (hrun : Traced.replayStoredCanonicalTail P host g height = .error (.err failure)) :
    KeptIf (forall tipHeight, requireTipHeight g.db = .ok tipHeight -> height < tipHeight ->
        forall entry, replayStoredHeight P (g, host) (height + 1) ≠ .ok entry)
      g.db failure.db := by
  unfold Traced.replayStoredCanonicalTail at hrun
  cases hrequire : requireTipHeight g.db with
  | error e =>
      rw [hrequire] at hrun
      cases hrun
      exact Or.inl ⟨fun _ h => (by cases h), SameStoredChain.refl _⟩
  | ok tipHeight =>
      rw [hrequire] at hrun
      dsimp only at hrun
      by_cases hle : tipHeight ≤ height
      · rw [if_pos hle] at hrun
        cases hrun
      · rw [if_neg hle] at hrun
        have hlt : height < tipHeight := UInt64.not_le.mp hle
        have hlt' := UInt64.lt_iff_toNat_lt.mp hlt
        have hbound := tipHeight.toNat_lt
        have hone : (1 : UInt64).toNat = 1 := rfl
        have hadd : addU64 P height 1 = .ok (height + 1) :=
          addU64_ok P (by unfold u64Bound; omega)
        have hfirst := addU64_one_toNat hlt' hbound hadd
        rw [hadd] at hrun
        have hkept := (replayStoredHeight_storesTip P).keptIf
          (List.map_id' (heightRange (height + 1) tipHeight)) (requireTipHeight_ok hrequire)
          hpool hrun
        have hhead : (heightRange (height + 1) tipHeight).head? = some (height + 1) := by
          rw [heightRange, List.head?_map, List.head?_range, hfirst, if_neg (by omega)]
          simp
        refine hkept.congr ⟨?_, ?_⟩
        · intro hnone tip htip _ entry hentry
          rw [← replayStoredHeight_traced] at hentry
          exact hnone _ hhead entry (mapErr_eq_ok.mp hentry)
        · intro hnone x hx entry hentry
          rw [hhead] at hx
          cases hx
          refine hnone tipHeight rfl hlt entry ?_
          rw [← replayStoredHeight_traced]
          exact mapErr_eq_ok.mpr hentry

theorem rebuild_keptIf (hpool : g.orphanPool = ∅)
    (hrun : Traced.rebuildCanonicalStateFromGenesis P host g = .error (.err failure)) :
    KeptIf (forall tipHeight stored, requireTipHeight g.db = .ok tipHeight ->
        (heightRange 0 tipHeight).mapM (requireCanonicalBlock g.db) = .ok stored ->
          forall first, (stored.map Prod.snd).head? = some first ->
            forall entry, replayStoredBlock P (clearedForRebuild g, host)
              first.header.number first.hash first ≠ .ok entry)
      g.db failure.db := by
  unfold Traced.rebuildCanonicalStateFromGenesis at hrun
  cases hrequire : requireTipHeight g.db with
  | error e =>
      rw [hrequire] at hrun
      cases hrun
      exact Or.inl ⟨fun _ _ h => (by cases h), SameStoredChain.refl _⟩
  | ok tipHeight =>
      rw [hrequire] at hrun
      dsimp only at hrun
      cases hstored : (heightRange 0 tipHeight).mapM (requireCanonicalBlock g.db) with
      | error e =>
          rw [hstored] at hrun
          cases hrun
          refine Or.inl ⟨?_, SameStoredChain.refl _⟩
          intro tip stored htip hload
          cases htip
          rw [hstored] at hload
          cases hload
      | ok stored =>
          rw [hstored] at hrun
          have hsteps : StoresTip (fun entry (blk : Block) =>
              Traced.replayStoredBlock P entry blk.header.number blk.hash blk)
              (fun blk => blk.header.number) :=
            ⟨fun {_ blk _} => (replayStoredBlock_storesTip P).ok (x := (blk.hash, blk)),
              fun {_ blk _} => (replayStoredBlock_storesTip P).err (x := (blk.hash, blk))⟩
          have hheights : (stored.map Prod.snd).map (fun blk => blk.header.number) =
              heightRange 0 tipHeight := by
            rw [List.map_map]
            exact mapM_require_numbers hstored
          have hkept := hsteps.keptIf hheights (requireTipHeight_ok hrequire) hpool hrun
          refine hkept.congr ⟨?_, ?_⟩
          · intro hnone tip stored' htip hload first hfirst entry hentry
            cases htip
            rw [hstored] at hload
            cases hload
            rw [← replayStoredBlock_traced] at hentry
            exact hnone first hfirst entry (mapErr_eq_ok.mp hentry)
          · intro hnone first hfirst entry hentry
            refine hnone tipHeight stored rfl hstored first hfirst entry ?_
            rw [← replayStoredBlock_traced]
            exact mapErr_eq_ok.mpr hentry

theorem recover_keptIf (hpool : g.orphanPool = ∅)
    (hrun : Traced.recoverAccountState P host g = .error (.err failure)) :
    KeptIf (NothingReplayed P host g) g.db failure.db := by
  unfold Traced.recoverAccountState at hrun
  unfold NothingReplayed
  cases hrestore : restoreLatestSnapshot P g g.currentHeight with
  | ok found =>
      rcases found with ⟨restored, restoredHeight⟩
      rw [hrestore] at hrun
      have hframe := restoreSnapshotAt_frame (restoreFirst_ok hrestore).2
      rw [← hframe.1]
      exact tail_keptIf (hframe.2.trans hpool) hrun
  | error stop =>
      rw [hrestore] at hrun
      cases stop with
      | fault f => cases hrun
      | err e =>
          dsimp only at hrun
          split at hrun
          · exact rebuild_keptIf hpool hrun
          · cases hrun

/-- What start-up has done to the database before recovery. -/
theorem bootstrapChain_ok (hrun : bootstrapChain P host g = .ok (g', host')) :
    g'.orphanPool = g.orphanPool ∧ validateGenesisHash P = .ok () ∧
      ((loadGenesisHash g.db = .ok none ∧ g'.db = (writeGenesis host g.db).2.1) ∨
        (loadGenesisHash g.db ≠ .ok none ∧ g'.db = g.db)) := by
  unfold bootstrapChain at hrun
  cases hgenesis : validateGenesisHash P with
  | error e =>
      rw [hgenesis] at hrun
      cases hrun
  | ok _ =>
      rw [hgenesis] at hrun
      cases hmark : loadGenesisHash g.db with
      | error e =>
          rw [hmark] at hrun
          cases hrun
      | ok mark =>
          rw [hmark] at hrun
          cases mark with
          | none =>
              dsimp only at hrun
              generalize hwrite : writeGenesis host g.db = written at hrun
              rcases written with ⟨_ | _, db, hostWritten⟩
              · cases hrun
              · cases hrun
                exact ⟨rfl, rfl, Or.inl ⟨rfl, rfl⟩⟩
          | some storedHash =>
              dsimp only at hrun
              split at hrun
              · cases hrun
              · cases hrun
                exact ⟨rfl, rfl, Or.inr ⟨by simp, rfl⟩⟩

theorem traced_bootstrapChain_error (hrun : Traced.bootstrapChain P host g = .error failure) :
    (validateGenesisHash P = .ok () ∧ loadGenesisHash g.db = .ok none ∧
      failure.db = (writeGenesis host g.db).2.1) ∨
    ((validateGenesisHash P ≠ .ok () ∨ loadGenesisHash g.db ≠ .ok none) ∧
      failure.db = g.db) := by
  unfold Traced.bootstrapChain at hrun
  cases hgenesis : validateGenesisHash P with
  | error e =>
      rw [hgenesis] at hrun
      cases hrun
      exact Or.inr ⟨Or.inl (by simp), rfl⟩
  | ok _ =>
      rw [hgenesis] at hrun
      cases hmark : loadGenesisHash g.db with
      | error e =>
          rw [hmark] at hrun
          cases hrun
          exact Or.inr ⟨Or.inr (by simp), rfl⟩
      | ok mark =>
          rw [hmark] at hrun
          cases mark with
          | none =>
              dsimp only at hrun
              generalize hwrite : writeGenesis host g.db = written at hrun
              rcases written with ⟨_ | _, db, hostWritten⟩
              · cases hrun
                exact Or.inl ⟨rfl, rfl, rfl⟩
              · cases hrun
          | some storedHash =>
              dsimp only at hrun
              split at hrun
              · cases hrun
                exact Or.inr ⟨Or.inr (by simp), rfl⟩
              · cases hrun

theorem storeHeightIndex_tipHeight (host : Host) (db : Db) (height : UInt64) (hash : String) :
    (storeHeightIndex host db height hash).2.1.get .tipHeight = db.get .tipHeight ∨
      (storeHeightIndex host db height hash).2.1.get .tipHeight = some (.number height) := by
  have hindex : (host.write db [.insert (.height height) (.text hash)]).2.1.get .tipHeight =
      db.get .tipHeight :=
    Host.write_get host db _ (by simp [DbOp.key])
  unfold storeHeightIndex
  generalize host.write db [.insert (.height height) (.text hash)] = first at hindex ⊢
  rcases first with ⟨_ | _, db₁, host₁⟩
  · exact Or.inl hindex
  · dsimp only at hindex ⊢
    split_ifs
    · have hwrite := Host.write_cases host₁ db₁ [.insert .tipHeight (.number height)]
      generalize host₁.write db₁ [.insert .tipHeight (.number height)] = written at hwrite
      cases hwrite with
      | failed _ => exact Or.inl hindex
      | written _ =>
          right
          have hhash : (host₁.wrote.write (db₁.applyBatch [.insert .tipHeight (.number height)])
              [.insert .tipHash (.text hash)]).2.1.get .tipHeight =
                (db₁.applyBatch [.insert .tipHeight (.number height)]).get .tipHeight :=
            Host.write_get host₁.wrote _ _ (by simp [DbOp.key])
          exact hhash
    · exact Or.inl hindex

/-- The writes of genesis keep the stored tip or store height zero. -/
theorem writeGenesis_tipHeight (host : Host) (db : Db) :
    (writeGenesis host db).2.1.get .tipHeight = db.get .tipHeight ∨
      (writeGenesis host db).2.1.get .tipHeight = some (.number 0) := by
  have hblock : (host.write db
      [.insert (.block genesisBlock.hash) (.block genesisBlock)]).2.1.get .tipHeight =
        db.get .tipHeight :=
    Host.write_get host db _ (by simp [DbOp.key])
  unfold writeGenesis
  generalize host.write db [.insert (.block genesisBlock.hash) (.block genesisBlock)] = first
    at hblock ⊢
  rcases first with ⟨_ | _, db₁, host₁⟩
  · exact Or.inl hblock
  · dsimp only at hblock ⊢
    have hindex := storeHeightIndex_tipHeight host₁ db₁ 0 genesisBlock.hash
    rw [hblock] at hindex
    generalize storeHeightIndex host₁ db₁ 0 genesisBlock.hash = second at hindex ⊢
    rcases second with ⟨_ | _, db₂, host₂⟩
    · exact hindex
    · have hmark : (host₂.write db₂
          [.insert .genesisHash (.text genesisBlock.hash)]).2.1.get .tipHeight =
            db₂.get .tipHeight :=
        Host.write_get host₂ db₂ _ (by simp [DbOp.key])
      dsimp only at hindex ⊢
      rwa [hmark]

/-- A failing start leaves the stored chain alone exactly when the genesis writes
change nothing and no stored block has been applied. -/
theorem startup_keepsChain_iff {e : StartupError}
    (hrun : initializeChainState P host db = .error (.err e)) :
    exists db', Traced.initializeChainState P host db = .error (.err ⟨e, db'⟩) ∧
      (SameStoredChain db db' ↔ KeepsChain P host db) := by
  rcases traced_of_error hrun with ⟨db', htraced⟩
  refine ⟨db', htraced, ?_⟩
  unfold Traced.initializeChainState at htraced
  unfold KeepsChain
  cases hopen : openWithGenesis P db with
  | error stop =>
      rw [hopen] at htraced
      cases stop with
      | fault f => cases htraced
      | err loadError =>
          cases htraced
          exact iff_of_true (SameStoredChain.refl _) (fun _ h => by cases h)
  | ok opened =>
      rw [hopen] at htraced
      dsimp only [mapErr, bind, Except.bind] at htraced
      rcases openWithGenesis_frame hopen with ⟨hdb, hpool⟩
      have hboots := bootstrapChain_traced P host opened
      cases hboot : Traced.bootstrapChain P host opened with
      | error failure =>
          rw [hboot] at htraced hboots
          cases htraced
          have hnone : forall g host', bootstrapChain P host opened ≠ .ok (g, host') := by
            intro g host' hok
            rw [hok] at hboots
            cases hboots
          rcases traced_bootstrapChain_error hboot with ⟨hgenesis, hmark, hfailed⟩ | ⟨hnot, hfailed⟩
          · rw [hdb] at hmark hfailed
            dsimp only at hfailed
            constructor
            · rintro hsame _ ⟨⟩
              exact ⟨fun _ _ => hfailed ▸ hsame, fun g host' hok => absurd hok (hnone g host')⟩
            · intro hkeeps
              rw [hfailed]
              exact (hkeeps opened rfl).1 hgenesis hmark
          · rw [hdb] at hnot hfailed
            dsimp only at hfailed
            refine iff_of_true (hfailed ▸ SameStoredChain.refl _) ?_
            rintro _ ⟨⟩
            refine ⟨fun hgenesis hmark => ?_, fun g host' hok => absurd hok (hnone g host')⟩
            exact (hnot.elim (absurd hgenesis) (absurd hmark))
      | ok booted =>
          rcases booted with ⟨g, host'⟩
          rw [hboot] at htraced hboots
          have hbooted : bootstrapChain P host opened = .ok (g, host') := hboots.symm
          rcases bootstrapChain_ok hbooted with ⟨hpool', hgenesis, hwritten⟩
          have hkept := recover_keptIf (g := g.refreshCachedStateRootFromTip)
            (hpool'.trans hpool) htraced
          change KeptIf _ g.db db' at hkept
          rw [hdb] at hwritten
          have honly : forall {g₁ host₁}, bootstrapChain P host opened = .ok (g₁, host₁) ->
              g₁ = g ∧ host₁ = host' := by
            intro g₁ host₁ hok
            rw [hbooted] at hok
            cases hok
            exact ⟨rfl, rfl⟩
          rcases hwritten with ⟨hmark, hfresh⟩ | ⟨hmark, hfresh⟩
          · rw [hfresh] at hkept
            constructor
            · rintro hsame _ ⟨⟩
              rcases hkept with ⟨hnothing, hafter⟩ | ⟨_, tip, tip', htip, htip', hlt⟩
              · refine ⟨fun _ _ => ?_, fun g₁ host₁ hok => ?_⟩
                · exact
                    { tipHeight := hafter.tipHeight.symm.trans hsame.tipHeight
                      tipHash := hafter.tipHash.symm.trans hsame.tipHash
                      heights := fun n => (hafter.heights n).symm.trans (hsame.heights n) }
                · rcases honly hok with ⟨rfl, rfl⟩
                  exact hnothing
              · -- the tip above zero was there before the genesis writes
                exfalso
                rw [hsame.tipHeight] at htip'
                rcases writeGenesis_tipHeight host db with hkeep | hzero
                · rw [hkeep, htip'] at htip
                  cases htip
                  exact Nat.lt_irrefl _ hlt
                · rw [hzero] at htip
                  cases htip
                  exact Nat.not_lt_zero _ hlt
            · intro hkeeps
              rcases hkeeps opened rfl with ⟨hsame, hnothing⟩
              exact (hsame hgenesis hmark).trans (hkept.iff.mpr (hnothing g host' hbooted))
          · rw [hfresh] at hkept
            refine hkept.iff.trans ⟨?_, ?_⟩
            · rintro hnothing _ ⟨⟩
              refine ⟨fun _ hnone => absurd hnone hmark, fun g₁ host₁ hok => ?_⟩
              rcases honly hok with ⟨rfl, rfl⟩
              exact hnothing
            · intro hkeeps
              exact (hkeeps opened rfl).2 g host' hbooted

end Survival

/-!
# A shortened chain
-/

/-- A child of the first sample block that lies three hours ahead. -/
def lateBlock : Block :=
  sealBlock samplePlatform (stateAfter samplePlatform .new firstBlock)
    (sampleDraft firstBlock.hash 2 10000 2 [])

/-- A host whose clock has gone back. -/
def earlyHost : Host :=
  { sampleHost with
    clock := fun _ => 0
    clock_lt := by
      intro _
      decide }

/-- The database that a session on the two blocks leaves. -/
def lateSession : Except (Stop StartupError) ChainState := do
  let started <- initializeChainState samplePlatform sampleHost Db.empty
  liftFault (applyAll samplePlatform started.1 [sampleCall firstBlock, sampleCall lateBlock])

/-- The failure of a start on a database, if it fails. -/
def startFailure (P : Platform) (host : Host) (db : Db) : Option StartupFailure :=
  match Traced.initializeChainState P host db with
  | .error (.err failure) => some failure
  | _ => none

theorem startFailure_eq_some {P : Platform} {host : Host} {db : Db} {failure : StartupFailure}
    (h : startFailure P host db = some failure) :
    Traced.initializeChainState P host db = .error (.err failure) := by
  unfold startFailure at h
  split at h
  · rename_i hrun
    cases h
    exact hrun
  · cases h

theorem lateSession_tips : lateSession.toOption.map (fun left =>
    ((loadTipHeight left.db).toOption, (startFailure samplePlatform earlyHost left.db).map
      fun failure => ((loadTipHeight failure.db).toOption,
        (initializeChainState samplePlatform earlyHost failure.db).toOption.map
          fun started => started.1.currentHeight))) =
    some (some (some 2), some (some (some 1), some 1)) := by
  decide +kernel

theorem lateSession_fails : exists g₀ host₀ left failure g host',
    initializeChainState samplePlatform sampleHost Db.empty = .ok (g₀, host₀) ∧
      applyAll samplePlatform g₀ [sampleCall firstBlock, sampleCall lateBlock] = .ok left ∧
      (loadTipHeight left.db).toOption = some (some 2) ∧
      Traced.initializeChainState samplePlatform earlyHost left.db = .error (.err failure) ∧
      (loadTipHeight failure.db).toOption = some (some 1) ∧
      initializeChainState samplePlatform earlyHost failure.db = .ok (g, host') ∧
      g.currentHeight = 1 := by
  rcases toOption_map_eq_some lateSession_tips with ⟨left, hrun, htips⟩
  rcases Prod.mk.inj htips with ⟨htip, hfailure⟩
  rcases Option.map_eq_some_iff.mp hfailure with ⟨failure, hfails, htips'⟩
  rcases Prod.mk.inj htips' with ⟨htip', hrestart⟩
  rcases toOption_map_eq_some hrestart with ⟨⟨g, host'⟩, hstarts, hheight⟩
  rcases bind_eq_ok.mp hrun with ⟨⟨g₀, host₀⟩, hstart, hcalls⟩
  exact ⟨g₀, host₀, left, failure, g, host', hstart, liftFault_eq_ok.mp hcalls, htip,
    startFailure_eq_some hfails, htip', hstarts, hheight⟩

theorem SameStoredChain.loadTipHeight_eq {db db' : Db} (h : SameStoredChain db db') :
    loadTipHeight db' = loadTipHeight db := by
  unfold loadTipHeight
  rw [h.tipHeight]

/-- A start with an early clock fails on a stored block, has by then stored a
lower tip, and the next start succeeds on the shorter chain. -/
theorem failedStart_shortens : exists g₀ host₀ left failure g host',
    initializeChainState samplePlatform sampleHost Db.empty = .ok (g₀, host₀) ∧
      applyAll samplePlatform g₀ [sampleCall firstBlock, sampleCall lateBlock] = .ok left ∧
      Traced.initializeChainState samplePlatform earlyHost left.db = .error (.err failure) ∧
      ¬SameStoredChain left.db failure.db ∧
      initializeChainState samplePlatform earlyHost failure.db = .ok (g, host') ∧
      g.currentHeight = 1 := by
  rcases lateSession_fails with
    ⟨g₀, host₀, left, failure, g, host', hstart, hcalls, htip, hfails, htip', hstarts, hheight⟩
  refine ⟨g₀, host₀, left, failure, g, host', hstart, hcalls, hfails, ?_, hstarts, hheight⟩
  intro hsame
  rw [hsame.loadTipHeight_eq, htip] at htip'
  cases htip'

theorem startup_keepsChain_late : exists db e db',
    initializeChainState samplePlatform earlyHost db = .error (.err e) ∧
      Traced.initializeChainState samplePlatform earlyHost db = .error (.err ⟨e, db'⟩) ∧
      (SameStoredChain db db' ↔ KeepsChain samplePlatform earlyHost db) := by
  rcases lateSession_fails with ⟨_, _, left, failure, _, _, _, _, _, hfails, _⟩
  have hrun : initializeChainState samplePlatform earlyHost left.db =
      .error (.err failure.error) := by
    rw [← initializeChainState_traced, hfails]
    rfl
  rcases startup_keepsChain_iff hrun with ⟨db', htraced, hiff⟩
  exact ⟨left.db, failure.error, db', hrun, htraced, hiff⟩

end VisionCore
