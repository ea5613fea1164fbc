import VisionCore.Chain.Crash
import VisionCore.Node.Reconstruct
import VisionCore.Node.Startup

/-!
# Crashes

Each database write is atomic, and a crash loses every write that comes after
it.  A crash in acceptance costs at most the block that was being applied; a
crash in start-up is survived unless it leaves a tip that start-up itself has
moved.
-/

namespace VisionCore

open Std
open Foundation

/-!
# A crash in acceptance
-/

section Acceptance

variable {P : Platform} {D : Block -> Prop} {N : UInt64 -> Prop} {T : UInt64} {host host' : Host}
  {g s left : ChainState} {blk : Block} {sourcePeer : Option String} {step : Step}

theorem Running.accept (h : Running P D N g) (hnumbered : NumberedFrom P D) (hD : D blk)
    (hhost : host.Within N) (hrun : acceptBlock P host g blk sourcePeer = .ok step) :
    Running P D N step.chain := by
  have hg := h.durable.represents
  have heffect := hg.effect hnumbered hD (acceptBlock_transition hrun)
  constructor
  · exact ⟨heffect.represents hg hD,
      ⟨heffect.storedEntries hg h.durable.persisted.entries,
        heffect.storedTip hg h.durable.persisted⟩,
      heffect.archive h.durable.archive⟩
  · exact ((stepInvariant_kept P D N).effect hg hD heffect ⟨hhost, h.kept⟩).2

/-- A node is between two writes of a call as it is between two calls. -/
theorem Running.pass (h : Running P D N g) (hnumbered : NumberedFrom P D) (hD : D blk)
    (hhost : host.Within N) {pass : Pass} (hpass : Passes P host g blk sourcePeer pass) :
    Running P D N pass.chain ∧ D pass.blk ∧ pass.host.Within N := by
  have hinvariant := ((stepInvariant_persisted P D).and (stepInvariant_archive P D)).and
    (stepInvariant_kept P D N)
  rcases hinvariant.passes hnumbered h.durable.represents hD
    ⟨⟨h.durable.persisted, h.durable.archive⟩, hhost, h.kept⟩ hpass with
    ⟨hg, hD', ⟨hpersisted, harchive⟩, hhost', hkept⟩
  exact ⟨⟨⟨hg, hpersisted, harchive⟩, hkept⟩, hD', hhost'⟩

theorem Reconstructed.of_same (h : Reconstructed left g) (hsame : SameChain s left) :
    Reconstructed s g where
  blocks := h.blocks.trans hsame.blocks
  canonIndex := h.canonIndex.trans hsame.canonIndex
  accounts := by
    have haccounts := h.accounts
    unfold ChainState.accounts at haccounts ⊢
    rwa [hsame.balances, hsame.nonces] at haccounts
  cachedStateRoot := h.cachedStateRoot

/-- After a crash in a run of the pipeline the next start is before or behind it. -/
theorem Running.recovers_step (h : Running P D (fun now => now ≤ T) g)
    (hnumbered : NumberedFrom P D) (hroots : RootsBind P D)
    (hgenesis : validateGenesisHash P = .ok ()) (hD : D blk)
    (hhost : host.Within fun now => now ≤ T) (hlater : host'.Later T)
    (hrun : acceptBlock P host g blk sourcePeer = .ok step) (k : Nat) :
    exists cut g' host'', acceptBlock P (host.killedAfter k) g blk sourcePeer = .ok cut ∧
      initializeChainState P host' cut.chain.db = .ok (g', host'') ∧
      (Reconstructed g g' ∨ Reconstructed step.chain g') := by
  rcases acceptBlock_fewer (Host.Fewer.killedAfter host k) hrun with ⟨cut, hcut, hsame⟩
  have hcutRunning : Running P D (fun now => now ≤ T) cut.chain :=
    h.accept hnumbered hD (show (host.killedAfter k).Within _ from hhost) hcut
  rcases hcutRunning.restart hnumbered hroots hgenesis hlater with ⟨g', host'', hstart, hback⟩
  refine ⟨cut, g', host'', hcut, hstart, ?_⟩
  rcases hsame with hbefore | hafter
  · exact Or.inl (hback.of_same hbefore)
  · exact Or.inr (hback.of_same hafter)

end Acceptance

/-!
# A crash in recovery
-/

/-- The database when start-up ends, one way or the other. -/
def endDb : Except (Stop StartupFailure) (ChainState × Host) -> Option Db
  | .ok (g, _) => some g.db
  | .error (.err failure) => some failure.db
  | .error (.fault _) => none

def startupDb (P : Platform) (host : Host) (db : Db) : Option Db :=
  endDb (Traced.initializeChainState P host db)

/-- A database that keeps everything but the tip of the chain of `left`. -/
structure Rewritten (P : Platform) (D : Block -> Prop) (left : ChainState) (db : Db) : Prop where
  stored : forall blk, blk ∈ left.blocks -> StoredBlock db blk
  archive : Archive P D db
  snapshots : SnapshotContents P D db

section Recovery

variable {P : Platform} {D : Block -> Prop} {N : UInt64 -> Prop} {host host' : Host}
  {left g g' : ChainState} {below above : List Block} {blk : Block} {db' : Db}

theorem Resuming.rewritten (h : Resuming P D left below g)
    (hsnapshots : SnapshotContents P D g.db) : Rewritten P D left g.db :=
  ⟨h.stored, h.recovering.archive, hsnapshots⟩

/-- With its tip the rewritten database is that of the node again. -/
theorem Rewritten.running (h : Rewritten P D left db') (hleft : Running P D N left)
    (htip : db'.get .tipHeight = left.db.get .tipHeight) :
    Running P D N { left with db := db' } := by
  constructor
  · refine ⟨hleft.durable.represents.congr rfl rfl rfl rfl hleft.durable.represents.waiting,
      ⟨h.stored, ?_⟩, h.archive⟩
    rcases hleft.durable.persisted.tip with ⟨tip, hlast, hget⟩
    exact ⟨tip, hlast, htip.trans hget⟩
  · exact ⟨hleft.kept.sound.congr rfl rfl rfl, h.snapshots⟩

/-- A step of the replay, whatever becomes of its writes. -/
theorem Resuming.replay_cases (h : Resuming P D left below g) (hnumbered : NumberedFrom P D)
    (hleft : Represents P D left) (hsnapshots : SnapshotContents P D g.db)
    (hsplit : left.blocks = below ++ blk :: above) (hbelow : below ≠ []) (hash : String)
    {out : Except (Stop StartupFailure) (ChainState × Host)}
    (hrun : Traced.replayStoredBlock P (g, host) blk.header.number hash blk = out) :
    (exists f, out = .error (.fault f)) ∨
    (exists e, out = .error (.err ⟨e, g.db⟩)) ∨
    (exists g' host', out = .ok (g', host') ∧ Resuming P D left (below ++ [blk]) g' ∧
      SnapshotContents P D g'.db) := by
  cases happlied : applyBlock P host g blk none with
  | error f =>
      left
      unfold Traced.replayStoredBlock at hrun
      rw [happlied] at hrun
      exact ⟨f, hrun.symm⟩
  | ok applied =>
      right
      have hout : (if applied.result = .canonExtension blk.header.number then
          .ok (applied.chain.refreshCachedStateRootFromTip, applied.host)
        else .error (.err ⟨.replayRejected blk.header.number hash applied.result,
          applied.chain.db⟩)) = out := by
        unfold Traced.replayStoredBlock at hrun
        rw [happlied] at hrun
        exact hrun
      rcases h.following.applyBlock_cases hleft hsplit hbelow happlied with
        ⟨hresult, _⟩ | ⟨⟨reason, hrejected⟩, hchain⟩
      · right
        rw [if_pos hresult] at hout
        have hreplay := replayStoredBlock_of_applyBlock hash happlied hresult
        have hpost := replayStoredBlock_keeps (stepInvariant_kept P D fun _ => True) Kept.refresh
          hnumbered h.recovering ⟨fun _ => trivial, h.sound, hsnapshots⟩
          (hleft.next_delivered hsplit hbelow) hreplay
        exact ⟨_, _, hout.symm, (h.replayed hnumbered hleft hsplit hbelow hreplay).1,
          hpost.2.2.snapshots⟩
      · left
        rw [if_neg (by rw [hrejected]; simp), hchain] at hout
        exact ⟨_, hout.symm⟩

/-- A replay of the rest of the chain that ends anywhere keeps all but the tip. -/
theorem Resuming.rest_rewritten (hnumbered : NumberedFrom P D) (hleft : Represents P D left)
    (h : Resuming P D left below g) (hsnapshots : SnapshotContents P D g.db)
    (hsplit : left.blocks = below ++ above) (hbelow : below ≠ []) :
    (endDb (above.foldlM (fun entry blk =>
        Traced.replayStoredBlock P entry blk.header.number blk.hash blk) (g, host)) = some db' ->
      Rewritten P D left db') ∧
    (endDb ((above.map fun blk => blk.header.number).foldlM (Traced.replayStoredHeight P)
        (g, host)) = some db' ->
      Rewritten P D left db') := by
  induction above generalizing below g host with
  | nil =>
      constructor
      · intro hend
        cases hend
        exact h.rewritten hsnapshots
      · intro hend
        cases hend
        exact h.rewritten hsnapshots
  | cons blk above ih =>
      have hmem : blk ∈ left.blocks := by
        rw [hsplit]
        exact List.mem_append_right _ List.mem_cons_self
      have hheight : Traced.replayStoredHeight P (g, host) blk.header.number =
          Traced.replayStoredBlock P (g, host) blk.header.number blk.hash blk := by
        unfold Traced.replayStoredHeight
        rw [(h.stored blk hmem).require]
      have hsplit' : left.blocks = (below ++ [blk]) ++ above := by
        rw [hsplit, List.append_assoc]
        rfl
      rw [List.map_cons, List.foldlM_cons, List.foldlM_cons, hheight]
      generalize hout : Traced.replayStoredBlock P (g, host) blk.header.number blk.hash blk = out
      rcases h.replay_cases hnumbered hleft hsnapshots hsplit hbelow blk.hash hout with
        ⟨f, rfl⟩ | ⟨e, rfl⟩ | ⟨g₁, host₁, rfl, hnext, hsnapshots₁⟩
      · constructor <;> intro hend <;> cases hend
      · constructor
        · intro hend
          cases hend
          exact h.rewritten hsnapshots
        · intro hend
          cases hend
          exact h.rewritten hsnapshots
      · exact ih hnext hsnapshots₁ hsplit' (by simp)

theorem Rewritten.self (h : Reopened P D g) (hsnapshots : SnapshotContents P D g.db) :
    Rewritten P D g g.db :=
  ⟨h.recovering.entries, h.recovering.archive, hsnapshots⟩

theorem Reopened.tail_rewritten (h : Reopened P D g) (hnumbered : NumberedFrom P D)
    (hvouched : AllVouched P N g) (hsnapshots : SnapshotContents P D g.db)
    (hroots : RootsBind P D) {restored : ChainState} {height : UInt64}
    (hheight : height.toNat ≤ g.currentHeight.toNat)
    (hrestore : restoreSnapshotAt P g height = .ok restored)
    (hend : endDb (Traced.replayStoredCanonicalTail P host restored height) = some db') :
    Rewritten P D g db' := by
  have hg := h.recovering.represents
  have hresuming := h.resuming hvouched hsnapshots hroots hheight hrestore
  rcases h.recovering.represents.canonical_prefix hheight with ⟨_, hindex⟩
  rcases h.restored hheight hrestore with ⟨_, hdb, _⟩
  rcases h.persisted.tip with ⟨tip, hlast, _⟩
  have hcurrent := ChainState.currentHeight_of_last hlast
  have hsame : Rewritten P D g restored.db := hdb ▸ Rewritten.self h hsnapshots
  unfold Traced.replayStoredCanonicalTail at hend
  rw [hdb, h.requireTipHeight] at hend
  dsimp only at hend
  by_cases hle : g.currentHeight ≤ height
  · rw [if_pos hle] at hend
    cases hend
    exact hsame
  · rw [if_neg hle] at hend
    have hlt := hg.length_lt
    have hone : (1 : UInt64).toNat = 1 := rfl
    have hadd : addU64 P height 1 = .ok (height + 1) := addU64_ok P (by omega)
    have hfirst := addU64_one_toNat hindex hlt hadd
    have hsplit : g.blocks =
        g.blocks.take (height.toNat + 1) ++ g.blocks.drop (height.toNat + 1) :=
      (List.take_append_drop _ _).symm
    have hne : g.blocks.take (height.toNat + 1) ≠ [] := by
      intro hnil
      have hlen := congrArg List.length hnil
      rw [List.length_take, List.length_nil] at hlen
      omega
    have hheights : heightRange (height + 1) g.currentHeight =
        (g.blocks.drop (height.toNat + 1)).map fun blk => blk.header.number := by
      rw [heightRange_drop, hfirst, hcurrent, hg.heights_eq hlast, List.map_drop]
    rw [hadd] at hend
    have hfold : endDb ((heightRange (height + 1) g.currentHeight).foldlM
        (Traced.replayStoredHeight P) (restored, host)) = some db' := hend
    rw [hheights] at hfold
    exact (hresuming.rest_rewritten hnumbered hg (hdb.symm ▸ hsnapshots) hsplit hne).2 hfold

/-- The first step of a rebuild applies genesis or changes nothing. -/
theorem rebuild_genesis_cases (hpool : g.orphanPool = ∅) {applied : Applied}
    (hrun : applyBlock P host (clearedForRebuild g) genesisBlock none = .ok applied) :
    applied.result = .canonExtension 0 ∨
      ((exists reason, applied.result = .rejected reason) ∧ applied.chain.db = g.db) := by
  have hslot : (clearedForRebuild g).orphanPool[genesisBlock.hash]? = none := by
    show g.orphanPool[genesisBlock.hash]? = none
    rw [hpool]
    simp
  rcases applyBlock_unawaited hrun hslot with ⟨step, htransition, hresult, hchain⟩
  rw [hresult, hchain]
  have hzero : genesisBlock.header.number = 0 := rfl
  cases htransition with
  | rejected _ => exact Or.inr ⟨⟨_, rfl⟩, rfl⟩
  | genesis _ _ _ _ _ => exact Or.inl rfl
  | orphaned hoffered _ _ => exact absurd hzero hoffered.number_ne
  | extended hvetted _ _ _ => exact absurd hzero hvetted.number_ne
  | recorded hvetted _ _ _ => exact absurd hzero hvetted.number_ne
  | aborted hvetted _ _ _ _ => exact absurd hzero hvetted.number_ne
  | reorganised hvetted _ _ _ _ _ _ _ => exact absurd hzero hvetted.number_ne

theorem Reopened.rebuild_traced_eq (h : Reopened P D g) {above : List Block}
    (habove : g.blocks = genesisBlock :: above) :
    Traced.rebuildCanonicalStateFromGenesis P host g =
      (genesisBlock :: above).foldlM
        (fun entry blk => Traced.replayStoredBlock P entry blk.header.number blk.hash blk)
        (clearedForRebuild g, host) := by
  have hg := h.recovering.represents
  rcases h.persisted.tip with ⟨tip, hlast, _⟩
  have hcurrent := ChainState.currentHeight_of_last hlast
  have hblocks : g.blocks.map (Prod.snd ∘ fun blk => (blk.hash, blk)) = g.blocks := by
    simp [Function.comp_def]
  unfold Traced.rebuildCanonicalStateFromGenesis
  rw [h.requireTipHeight]
  dsimp only
  rw [hcurrent, hg.heights_eq hlast, mapM_requireCanonicalBlock h.recovering.entries]
  dsimp only
  rw [List.map_map, hblocks, habove]

theorem Reopened.rebuild_rewritten (h : Reopened P D g) (hnumbered : NumberedFrom P D)
    (hsnapshots : SnapshotContents P D g.db)
    (hend : endDb (Traced.rebuildCanonicalStateFromGenesis P host g) = some db') :
    Rewritten P D g db' := by
  have hg := h.recovering.represents
  rcases hg.blocks_cons with ⟨above, habove⟩
  rw [h.rebuild_traced_eq habove, List.foldlM_cons] at hend
  cases happlied : applyBlock P host (clearedForRebuild g) genesisBlock none with
  | error f =>
      unfold Traced.replayStoredBlock at hend
      rw [happlied] at hend
      cases hend
  | ok applied =>
      rcases rebuild_genesis_cases h.pool happlied with hresult | ⟨⟨reason, hrejected⟩, hdb⟩
      · have hfirst := replayStoredBlock_of_applyBlock genesisBlock.hash happlied hresult
        rcases h.rebuild_start hsnapshots hfirst with ⟨hresuming, hsnapshots₁, _⟩
        have htraced : Traced.replayStoredBlock P (clearedForRebuild g, host)
            genesisBlock.header.number genesisBlock.hash genesisBlock =
              .ok (applied.chain.refreshCachedStateRootFromTip, applied.host) := by
          rw [← replayStoredBlock_traced] at hfirst
          exact mapErr_eq_ok.mp hfirst
        rw [htraced] at hend
        exact (hresuming.rest_rewritten hnumbered hg hsnapshots₁ habove (by simp)).1 hend
      · unfold Traced.replayStoredBlock at hend
        rw [happlied] at hend
        have hfailed : endDb (((if applied.result = .canonExtension genesisBlock.header.number then
            .ok (applied.chain.refreshCachedStateRootFromTip, applied.host)
          else .error (.err ⟨.replayRejected genesisBlock.header.number genesisBlock.hash
            applied.result, applied.chain.db⟩)) :
              Except (Stop StartupFailure) (ChainState × Host)) >>= fun entry =>
            above.foldlM (fun entry blk =>
              Traced.replayStoredBlock P entry blk.header.number blk.hash blk) entry) =
            some db' := hend
        rw [if_neg (by rw [hrejected]; simp)] at hfailed
        cases hfailed
        exact hdb ▸ Rewritten.self h hsnapshots

theorem Reopened.recover_rewritten (h : Reopened P D g) (hnumbered : NumberedFrom P D)
    (hvouched : AllVouched P N g) (hsnapshots : SnapshotContents P D g.db)
    (hroots : RootsBind P D) (hend : endDb (Traced.recoverAccountState P host g) = some db') :
    Rewritten P D g db' := by
  unfold Traced.recoverAccountState at hend
  cases hrestore : restoreLatestSnapshot P g g.currentHeight with
  | ok found =>
      rw [hrestore] at hend
      rcases restoreFirst_ok hrestore with ⟨hmem, hat⟩
      exact h.tail_rewritten hnumbered hvouched hsnapshots hroots
        (mem_heightRange_le (List.mem_reverse.mp (List.mem_filter.mp hmem).1)) hat hend
  | error stop =>
      rw [hrestore] at hend
      cases stop with
      | fault f => cases hend
      | err e =>
          dsimp only at hend
          split at hend
          · exact h.rebuild_rewritten hnumbered hsnapshots hend
          · cases hend
            exact Rewritten.self h hsnapshots

theorem traced_bootstrapChain_marked (host : Host)
    (hmarked : g.db.get .genesisHash = some (.text genesisHash)) :
    Traced.bootstrapChain P host g = .ok (g, host) ∨
      exists e, Traced.bootstrapChain P host g = .error ⟨e, g.db⟩ := by
  unfold Traced.bootstrapChain loadGenesisHash
  rw [hmarked]
  cases validateGenesisHash P with
  | error e => exact Or.inr ⟨_, rfl⟩
  | ok _ =>
      left
      simp [verifyStoredGenesis]

/-- Start-up on the database of a node keeps all but the tip, wherever it ends. -/
theorem Running.startup_rewritten (hleft : Running P D N left) (hnumbered : NumberedFrom P D)
    (hroots : RootsBind P D) (hend : startupDb P host left.db = some db') :
    Rewritten P D left db' := by
  have hdurable := hleft.durable
  have hself : Rewritten P D left left.db :=
    ⟨hdurable.persisted.entries, hdurable.archive, hleft.kept.snapshots⟩
  unfold startupDb Traced.initializeChainState at hend
  cases hopened : openWithGenesis P left.db with
  | error stop =>
      rw [hopened] at hend
      cases stop with
      | fault f => cases hend
      | err e =>
          cases hend
          exact hself
  | ok opened =>
      rw [hopened] at hend
      rcases openWithGenesis_ok hdurable hopened with ⟨honly, hdb⟩
      rcases traced_bootstrapChain_marked (P := P) host
        (hdb.symm ▸ hdurable.archive.marked) with hboot | ⟨e, hboot⟩
      · have hrecover : endDb (Traced.recoverAccountState P host
            opened.refreshCachedStateRootFromTip) = some db' := by
          dsimp only [mapErr, bind, Except.bind] at hend
          rw [hboot] at hend
          exact hend
        have hvouched : AllVouched P N opened.refreshCachedStateRootFromTip :=
          hleft.kept.sound.vouched.mono fun l hl =>
            honly.knownPath hdurable.represents hdurable.represents.chain hl
        have hsnapshots : SnapshotContents P D opened.refreshCachedStateRootFromTip.db :=
          hdb.symm ▸ hleft.kept.snapshots
        have hrewritten := (hdurable.reopened hopened).recover_rewritten hnumbered hvouched
          hsnapshots hroots hrecover
        exact ⟨fun blk hblk => hrewritten.stored blk (honly.blocks.symm ▸ hblk),
          hrewritten.archive, hrewritten.snapshots⟩
      · dsimp only [mapErr, bind, Except.bind] at hend
        rw [hboot] at hend
        cases hend
        exact hdb.symm ▸ hself

end Recovery

/-!
# A crash in the first start
-/

/-- Nothing is stored but the genesis block and its height entry, if those. -/
def Unmarked (db : Db) : Prop :=
  forall key, key ≠ .block genesisHash -> key ≠ .height 0 -> db.get key = none

/-- The tip is stored and the genesis mark is not. -/
def TipUnmarked (db : Db) : Prop :=
  (db.get .tipHeight).isSome ∧ db.get .genesisHash = none

section Fresh

variable {P : Platform} {host host' : Host} {T : UInt64} {db db' : Db}

theorem Unmarked.empty : Unmarked Db.empty :=
  fun _ _ _ => rfl

theorem Unmarked.insert (h : Unmarked db) {key : DbKey} {value : DbValue}
    (hkey : key = .block genesisHash ∨ key = .height 0) :
    Unmarked (db.applyBatch [.insert key value]) := by
  intro k hblock hheight
  have hne : key ≠ k := by
    rintro rfl
    exact hkey.elim hblock hheight
  refine (Db.get_applyBatch_of_untouched ?_).trans (h k hblock hheight)
  intro op hop heq
  rw [List.mem_singleton.mp hop] at heq
  exact hne heq

/-- The five inserts of genesis give the fresh database. -/
theorem Unmarked.written (h : Unmarked db) :
    ((((db.applyBatch [.insert (.block genesisBlock.hash) (.block genesisBlock)]).applyBatch
      [.insert (.height 0) (.text genesisBlock.hash)]).applyBatch
        [.insert .tipHeight (.number 0)]).applyBatch
          [.insert .tipHash (.text genesisBlock.hash)]).applyBatch
            [.insert .genesisHash (.text genesisBlock.hash)] = freshDb := by
  refine congrArg Db.mk (funext fun key => ?_)
  by_cases hblock : key = .block genesisHash
  · subst hblock
    rfl
  · by_cases hheight : key = .height 0
    · subst hheight
      rfl
    · have hnone : db.entries key = none := h key hblock hheight
      simp [Db.applyBatch, Db.apply, canonicalEntry, tipEntry, Db.empty, hnone]

theorem Unmarked.tipHeight (h : Unmarked db) : db.get .tipHeight = none :=
  h _ (by simp) (by simp)

theorem Unmarked.genesisMark (h : Unmarked db) : db.get .genesisHash = none :=
  h _ (by simp) (by simp)

/-- The writes of genesis, cut off anywhere. -/
theorem Unmarked.writeGenesis_cases (h : Unmarked db) (host : Host) :
    (exists host', writeGenesis host db = (.ok (), freshDb, host')) ∨
    (exists e db' host', writeGenesis host db = (.error e, db', host') ∧
      (Unmarked db' ∨ TipUnmarked db')) := by
  unfold writeGenesis storeHeightIndex
  have hblock := Host.write_cases host db
    [.insert (.block genesisBlock.hash) (.block genesisBlock)]
  generalize host.write db [.insert (.block genesisBlock.hash) (.block genesisBlock)] = first
    at hblock ⊢
  have hone : Unmarked
      (db.applyBatch [.insert (.block genesisBlock.hash) (.block genesisBlock)]) :=
    h.insert (Or.inl rfl)
  cases hblock with
  | failed _ => exact Or.inr ⟨_, _, _, rfl, Or.inl h⟩
  | written _ =>
      dsimp only
      generalize hdb₁ : db.applyBatch [.insert (.block genesisBlock.hash) (.block genesisBlock)] =
        db₁ at hone ⊢
      have hindex := Host.write_cases host.wrote db₁
        [.insert (.height 0) (.text genesisBlock.hash)]
      generalize host.wrote.write db₁ [.insert (.height 0) (.text genesisBlock.hash)] = second
        at hindex ⊢
      have htwo : Unmarked (db₁.applyBatch [.insert (.height 0) (.text genesisBlock.hash)]) :=
        hone.insert (Or.inr rfl)
      cases hindex with
      | failed _ => exact Or.inr ⟨_, _, _, rfl, Or.inl hone⟩
      | written _ =>
          dsimp only
          rw [htwo.tipHeight, if_pos (by decide)]
          generalize hdb₂ : db₁.applyBatch [.insert (.height 0) (.text genesisBlock.hash)] = db₂
            at htwo ⊢
          have htip := Host.write_cases host.wrote.wrote db₂ [.insert .tipHeight (.number 0)]
          generalize host.wrote.wrote.write db₂ [.insert .tipHeight (.number 0)] = third
            at htip ⊢
          have hthree : TipUnmarked (db₂.applyBatch [.insert .tipHeight (.number 0)]) :=
            ⟨rfl, htwo.genesisMark⟩
          cases htip with
          | failed _ => exact Or.inr ⟨_, _, _, rfl, Or.inl htwo⟩
          | written _ =>
              dsimp only
              generalize hdb₃ : db₂.applyBatch [.insert .tipHeight (.number 0)] = db₃
                at hthree ⊢
              have hhash := Host.write_cases host.wrote.wrote.wrote db₃
                [.insert .tipHash (.text genesisBlock.hash)]
              generalize host.wrote.wrote.wrote.write db₃
                [.insert .tipHash (.text genesisBlock.hash)] = fourth at hhash ⊢
              have hfour : TipUnmarked
                  (db₃.applyBatch [.insert .tipHash (.text genesisBlock.hash)]) :=
                ⟨hthree.1, hthree.2⟩
              cases hhash with
              | failed _ => exact Or.inr ⟨_, _, _, rfl, Or.inr hthree⟩
              | written _ =>
                  dsimp only
                  generalize hdb₄ : db₃.applyBatch [.insert .tipHash (.text genesisBlock.hash)] =
                    db₄ at hfour ⊢
                  have hmark := Host.write_cases host.wrote.wrote.wrote.wrote db₄
                    [.insert .genesisHash (.text genesisBlock.hash)]
                  generalize host.wrote.wrote.wrote.wrote.write db₄
                    [.insert .genesisHash (.text genesisBlock.hash)] = fifth at hmark ⊢
                  cases hmark with
                  | failed _ => exact Or.inr ⟨_, _, _, rfl, Or.inr hfour⟩
                  | written _ =>
                      refine Or.inl ⟨host.wrote.wrote.wrote.wrote.wrote, ?_⟩
                      rw [← hdb₄, ← hdb₃, ← hdb₂, ← hdb₁, h.written]

theorem Host.write_of_ok (host : Host) (hwrites : forall i, host.writeOk i = true) (db : Db)
    (batch : List DbOp) : host.write db batch = (.ok (), db.applyBatch batch, host.wrote) := by
  unfold Host.write
  rw [hwrites]
  rfl

/-- Without write failures genesis is written. -/
theorem writeGenesis_noFailure (hwrites : forall i, host.writeOk i = true) {e : StorageError} :
    writeGenesis host db ≠ (.error e, db', host') := by
  unfold writeGenesis storeHeightIndex
  rw [Host.write_of_ok host hwrites]
  dsimp only
  rw [Host.write_of_ok host.wrote hwrites]
  dsimp only
  split_ifs
  · rw [Host.write_of_ok host.wrote.wrote hwrites]
    dsimp only
    rw [Host.write_of_ok host.wrote.wrote.wrote hwrites]
    dsimp only
    rw [Host.write_of_ok host.wrote.wrote.wrote.wrote hwrites]
    simp
  · dsimp only
    rw [Host.write_of_ok host.wrote.wrote hwrites]
    simp

theorem Unmarked.opened (h : Unmarked db) (P : Platform) :
    openWithGenesis P db = .ok (ChainState.empty db) := by
  have hget : (ChainState.empty db).db.get .tipHeight = none := h.tipHeight
  unfold openWithGenesis loadCanonChain loadTipHeight
  rw [hget]
  rfl

theorem Unmarked.loadGenesisHash (h : Unmarked db) : loadGenesisHash db = .ok none := by
  unfold VisionCore.loadGenesisHash
  rw [h.genesisMark]

/-- A first start, cut off anywhere. -/
theorem Unmarked.startup_cases (h : Unmarked db) (hend : startupDb P host db = some db') :
    db' = freshDb ∨ Unmarked db' ∨ TipUnmarked db' := by
  unfold startupDb Traced.initializeChainState at hend
  rw [h.opened P] at hend
  dsimp only [mapErr, bind, Except.bind] at hend
  unfold Traced.bootstrapChain at hend
  cases hgenesis : validateGenesisHash P with
  | error e =>
      rw [hgenesis] at hend
      cases hend
      exact Or.inr (Or.inl h)
  | ok _ =>
      have hmark : VisionCore.loadGenesisHash (ChainState.empty db).db = .ok none :=
        h.loadGenesisHash
      rw [hgenesis, hmark] at hend
      dsimp only at hend
      have hdb : (ChainState.empty db).db = db := rfl
      rw [hdb] at hend
      rcases h.writeGenesis_cases host with ⟨host', hwrite⟩ | ⟨e, cutDb, host', hwrite, hcut⟩
      · rw [hwrite] at hend
        have hfresh : endDb (Traced.recoverAccountState P host'
            freshChain.refreshCachedStateRootFromTip) = some db' := hend
        unfold Traced.recoverAccountState at hfresh
        rw [restoreLatestSnapshot_fresh] at hfresh
        left
        exact (Option.some.inj hfresh).symm
      · rw [hwrite] at hend
        cases hend
        exact Or.inr hcut

/-- On a later host the first start ends at genesis. -/
theorem Unmarked.start (h : Unmarked db) (hgenesis : validateGenesisHash P = .ok ())
    (hlater : host.Later T) : exists host',
      initializeChainState P host db = .ok (freshChain.refreshCachedStateRootFromTip, host') := by
  rcases h.writeGenesis_cases host with ⟨host', hwrite⟩ | ⟨e, cutDb, host', hwrite, _⟩
  · have hmark : VisionCore.loadGenesisHash (ChainState.empty db).db = .ok none :=
      h.loadGenesisHash
    have hdb : (ChainState.empty db).db = db := rfl
    refine ⟨host', bind_eq_ok.mpr ⟨_, h.opened P, ?_⟩⟩
    unfold bootstrapChain
    rw [hgenesis, hmark]
    dsimp only
    rw [hdb, hwrite]
    exact recoverAccountState_fresh P host'
  · exact absurd hwrite (writeGenesis_noFailure hlater.writes)

theorem Unmarked.started {g : ChainState} (h : Unmarked db)
    (hrun : initializeChainState P host db = .ok (g, host')) :
    g = freshChain.refreshCachedStateRootFromTip := by
  rcases bind_eq_ok.mp hrun with ⟨opened, hopened, hrecover⟩
  rw [h.opened P] at hopened
  cases hopened
  have hmark : VisionCore.loadGenesisHash (ChainState.empty db).db = .ok none :=
    h.loadGenesisHash
  have hdb : (ChainState.empty db).db = db := rfl
  unfold bootstrapChain at hrecover
  cases hgenesis : validateGenesisHash P with
  | error e =>
      rw [hgenesis] at hrecover
      cases hrecover
  | ok _ =>
      rw [hgenesis, hmark] at hrecover
      dsimp only at hrecover
      rw [hdb] at hrecover
      rcases h.writeGenesis_cases host with ⟨host₁, hwrite⟩ | ⟨e, cutDb, host₁, hwrite, _⟩
      · rw [hwrite] at hrecover
        have hfresh : recoverAccountState P host₁ freshChain.refreshCachedStateRootFromTip =
            .ok (g, host') := hrecover
        rw [recoverAccountState_fresh] at hfresh
        cases hfresh
        rfl
      · rw [hwrite] at hrecover
        cases hrecover

end Fresh

/-!
# Crash consistency
-/

/-- The crash of a start has left the tip that the start found, or the start was
the first one and has stored the genesis mark. -/
def SafeCut (db db' : Db) : Prop :=
  db'.get .tipHeight = db.get .tipHeight ∨
    (db.get .tipHeight = none ∧ (db'.get .genesisHash).isSome)

/-- The databases that sessions on blocks of `D` leave, each ended by a stop
between two calls, by a crash in a call, or by a safe crash in start-up. -/
inductive CrashedDb (P : Platform) (D : Block -> Prop) (N : UInt64 -> Prop) : Db -> Prop where
  | empty : CrashedDb P D N Db.empty
  | stopped {db : Db} {host host' : Host} {g g' : ChainState} {calls : List Call} :
      CrashedDb P D N db -> host.Within N -> initializeChainState P host db = .ok (g, host') ->
      (forall call, call ∈ calls -> D call.blk ∧ call.host.Within N) ->
      applyAll P g calls = .ok g' -> CrashedDb P D N g'.db
  | cutStart {db db' : Db} {host : Host} {k : Nat} :
      CrashedDb P D N db -> startupDb P (host.killedAfter k) db = some db' -> SafeCut db db' ->
      CrashedDb P D N db'
  | cutCall {db : Db} {host host' : Host} {g g' : ChainState} {calls : List Call} {call : Call}
      {pass : Pass} {k : Nat} {cut : Step} :
      CrashedDb P D N db -> host.Within N -> initializeChainState P host db = .ok (g, host') ->
      (forall call, call ∈ calls -> D call.blk ∧ call.host.Within N) ->
      applyAll P g calls = .ok g' -> D call.blk -> call.host.Within N ->
      Passes P call.host g' call.blk call.sourcePeer pass ->
      acceptBlock P (pass.host.killedAfter k) pass.chain pass.blk pass.sourcePeer = .ok cut ->
      CrashedDb P D N cut.chain.db

section Consistency

variable {P : Platform} {D : Block -> Prop} {N : UInt64 -> Prop} {T : UInt64}
  {host host' : Host} {db db' : Db} {g g' left : ChainState} {calls : List Call}

/-- A database from which the next start continues. -/
def Continues (P : Platform) (D : Block -> Prop) (N : UInt64 -> Prop) (db : Db) : Prop :=
  Unmarked db ∨ exists left, Running P D N left ∧ left.db = db

theorem Continues.started (h : Continues P D N db) (hnumbered : NumberedFrom P D)
    (havoids : AvoidsGenesis P D) (hroots : RootsBind P D) (hhost : host.Within N)
    (hrun : initializeChainState P host db = .ok (g, host')) : Running P D N g := by
  rcases h with hfresh | hleft
  · rw [hfresh.started hrun]
    exact freshChain_running havoids
  · exact initializeChainState_running hnumbered havoids hroots (Or.inr hleft) hhost hrun

theorem Running.tipHeight_ne_none (h : Running P D N left) : left.db.get .tipHeight ≠ none := by
  rcases h.durable.persisted.tip with ⟨tip, _, hget⟩
  rw [hget]
  simp

theorem Running.safeCut (h : Running P D N left) (hnumbered : NumberedFrom P D)
    (hroots : RootsBind P D) (hend : startupDb P host left.db = some db')
    (hsafe : SafeCut left.db db') : Running P D N { left with db := db' } := by
  rcases hsafe with htip | ⟨hnone, _⟩
  · exact (h.startup_rewritten hnumbered hroots hend).running h htip
  · exact absurd hnone h.tipHeight_ne_none

theorem Unmarked.safeCut (h : Unmarked db) (hend : startupDb P host db = some db')
    (hsafe : SafeCut db db') : db' = freshDb ∨ Unmarked db' := by
  rcases h.startup_cases hend with hfresh | hunmarked | ⟨htip, hmark⟩
  · exact Or.inl hfresh
  · exact Or.inr hunmarked
  · rcases hsafe with hsame | ⟨_, hmarked⟩
    · rw [hsame, h.tipHeight] at htip
      cases htip
    · rw [hmark] at hmarked
      cases hmarked

theorem Continues.safeCut (h : Continues P D N db) (hnumbered : NumberedFrom P D)
    (havoids : AvoidsGenesis P D) (hroots : RootsBind P D)
    (hend : startupDb P host db = some db') (hsafe : SafeCut db db') : Continues P D N db' := by
  rcases h with hfresh | ⟨left, hleft, rfl⟩
  · rcases hfresh.safeCut hend hsafe with rfl | hunmarked
    · exact Or.inr ⟨_, freshChain_running havoids, rfl⟩
    · exact Or.inl hunmarked
  · exact Or.inr ⟨_, hleft.safeCut hnumbered hroots hend hsafe, rfl⟩

theorem CrashedDb.continues (hnumbered : NumberedFrom P D) (havoids : AvoidsGenesis P D)
    (hroots : RootsBind P D) (h : CrashedDb P D N db) : Continues P D N db := by
  induction h with
  | empty => exact Or.inl Unmarked.empty
  | stopped _ hhost hstart hcalls hrun ih =>
      have hstarted := ih.started hnumbered havoids hroots hhost hstart
      exact Or.inr ⟨_, hstarted.applyAll hnumbered hcalls hrun, rfl⟩
  | cutStart _ hend hsafe ih => exact ih.safeCut hnumbered havoids hroots hend hsafe
  | cutCall _ hhost hstart hcalls hrun hD hcall hpass hcut ih =>
      have hstarted := ih.started hnumbered havoids hroots hhost hstart
      have hreached := hstarted.applyAll hnumbered hcalls hrun
      rcases hreached.pass hnumbered hD hcall hpass with ⟨hrunning, hD', hhost'⟩
      exact Or.inr ⟨_, hrunning.accept hnumbered hD'
        (show (Host.killedAfter _ _).Within N from hhost') hcut,
        rfl⟩

theorem Reconstructed.between (h : Reconstructed left g) (h' : Reconstructed left g') :
    Reconstructed g g' where
  blocks := h'.blocks.trans h.blocks.symm
  canonIndex := h'.canonIndex.trans h.canonIndex.symm
  accounts := h.accounts.symm.trans h'.accounts
  cachedStateRoot := h'.cachedStateRoot

theorem Reconstructed.of_db (h : Reconstructed { left with db := db' } g) :
    Reconstructed left g :=
  ⟨h.blocks, h.canonIndex, h.accounts, h.cachedStateRoot⟩

/-- A safe crash of a start does not change what the next start yields. -/
theorem Continues.start_consistent (h : Continues P D (fun now => now ≤ T) db)
    (hnumbered : NumberedFrom P D) (havoids : AvoidsGenesis P D) (hroots : RootsBind P D)
    (hgenesis : validateGenesisHash P = .ok ()) (hlater : host'.Later T)
    (hend : startupDb P host db = some db') (hsafe : SafeCut db db') :
    exists g host₁ g' host₂, initializeChainState P host' db = .ok (g, host₁) ∧
      initializeChainState P host' db' = .ok (g', host₂) ∧ Reconstructed g g' := by
  rcases h with hfresh | ⟨left, hleft, rfl⟩
  · rcases hfresh.start hgenesis hlater with ⟨host₁, hfirst⟩
    rcases hfresh.safeCut hend hsafe with rfl | hunmarked
    · have hrunning := freshChain_running (N := fun now => now ≤ T) havoids
      rcases hrunning.restart hnumbered hroots hgenesis hlater with ⟨g', host₂, hsecond, hback⟩
      exact ⟨_, host₁, g', host₂, hfirst, hsecond, hback⟩
    · rcases hunmarked.start hgenesis hlater with ⟨host₂, hsecond⟩
      exact ⟨_, host₁, _, host₂, hfirst, hsecond, rfl, rfl, SameAccounts.refl _, rfl⟩
  · rcases hleft.restart hnumbered hroots hgenesis hlater with ⟨g, host₁, hfirst, hback⟩
    have hcut := hleft.safeCut hnumbered hroots hend hsafe
    rcases hcut.restart hnumbered hroots hgenesis hlater with ⟨g', host₂, hsecond, hback'⟩
    exact ⟨g, host₁, g', host₂, hfirst, hsecond, hback.between hback'.of_db⟩

/-- A crash between two writes costs at most the operation that it interrupts: a
start that is cut off safely is made good by the next one, and after a crash in a
call the node is before or behind the block that was being applied. -/
theorem crash_consistent (hnumbered : NumberedFrom P D) (havoids : AvoidsGenesis P D)
    (hroots : RootsBind P D) (hgenesis : validateGenesisHash P = .ok ())
    (hdb : CrashedDb P D (fun now => now ≤ T) db) (hlater : host'.Later T) :
    (forall (host : Host) (k : Nat) (db' : Db),
      startupDb P (host.killedAfter k) db = some db' -> SafeCut db db' ->
      exists g host₁ g' host₂, initializeChainState P host' db = .ok (g, host₁) ∧
        initializeChainState P host' db' = .ok (g', host₂) ∧ Reconstructed g g') ∧
    (forall (host host₀ : Host) (g₀ g : ChainState) (calls : List Call) (call : Call)
        (pass : Pass) (step : Step) (k : Nat),
      (host.Within fun now => now ≤ T) -> initializeChainState P host db = .ok (g₀, host₀) ->
      (forall c, c ∈ calls -> D c.blk ∧ c.host.Within fun now => now ≤ T) ->
      applyAll P g₀ calls = .ok g -> D call.blk -> (call.host.Within fun now => now ≤ T) ->
      Passes P call.host g call.blk call.sourcePeer pass ->
      acceptBlock P pass.host pass.chain pass.blk pass.sourcePeer = .ok step ->
      exists cut g' host'',
        acceptBlock P (pass.host.killedAfter k) pass.chain pass.blk pass.sourcePeer = .ok cut ∧
        initializeChainState P host' cut.chain.db = .ok (g', host'') ∧
        (Reconstructed pass.chain g' ∨ Reconstructed step.chain g')) := by
  have hcontinues := hdb.continues hnumbered havoids hroots
  constructor
  · intro host k db' hend hsafe
    exact hcontinues.start_consistent hnumbered havoids hroots hgenesis hlater hend hsafe
  · intro host host₀ g₀ g calls call pass step k hhost hstart hcalls hrun hD hcall hpass hstep
    have hstarted := hcontinues.started hnumbered havoids hroots hhost hstart
    have hreached := hstarted.applyAll hnumbered hcalls hrun
    rcases hreached.pass hnumbered hD hcall hpass with ⟨hrunning, hD', hhost'⟩
    exact hrunning.recovers_step hnumbered hroots hgenesis hD' hhost' hlater hstep k

end Consistency

/-!
# Sample crashes
-/

theorem cutFirstStart_tip :
    (startupDb samplePlatform (sampleHost.killedAfter 1) Db.empty).map
      (fun db => (db.get .tipHeight).isNone) = some true := by
  decide +kernel

/-- A first start cut off after one write, and a call cut off before its write. -/
theorem crash_consistent_sample : exists db' g host₁ g' host₂ g₀ host₀ step cut g₁ host₃,
    startupDb samplePlatform (sampleHost.killedAfter 1) Db.empty = some db' ∧
      initializeChainState samplePlatform sampleHost Db.empty = .ok (g, host₁) ∧
      initializeChainState samplePlatform sampleHost db' = .ok (g', host₂) ∧
      Reconstructed g g' ∧
      initializeChainState samplePlatform sampleHost Db.empty = .ok (g₀, host₀) ∧
      acceptBlock samplePlatform sampleHost g₀ firstBlock none = .ok step ∧
      acceptBlock samplePlatform (sampleHost.killedAfter 0) g₀ firstBlock none = .ok cut ∧
      initializeChainState samplePlatform sampleHost cut.chain.db = .ok (g₁, host₃) ∧
      (Reconstructed g₀ g₁ ∨ Reconstructed step.chain g₁) := by
  rcases restartedSample_runs with ⟨g₀, host₀, left, _, _, hstart, hcalls, _, _⟩
  have hclock : sampleHost.Within fun now => now ≤ 1000000 := fun _ => UInt64.le_refl _
  have hlater : sampleHost.Later 1000000 := ⟨fun _ => UInt64.le_refl _, fun _ => rfl⟩
  rcases Option.map_eq_some_iff.mp cutFirstStart_tip with ⟨db', hend, htip⟩
  have hsafe : SafeCut Db.empty db' := Or.inl (Option.isNone_iff_eq_none.mp htip)
  have hboth := crash_consistent firstOnly_numbered firstOnly_avoidGenesis firstOnly_rootsBind
    (initializeChainState_genesis hstart) CrashedDb.empty hlater
  rcases hboth.1 sampleHost 1 db' hend hsafe with ⟨g, host₁, g', host₂, hfirst, hsecond, hsame⟩
  rcases (@foldlM_append_ok _ _ _ _ [] [sampleCall firstBlock] _ _).mp hcalls with
    ⟨_, hnil, hone⟩
  cases hnil
  rcases bind_eq_ok.mp hone with ⟨_, happly, _⟩
  rcases applyCall_ok happly with ⟨out, hout, _⟩
  rcases applyBlock_first hout with ⟨step, hstep, _, _⟩
  rcases hboth.2 sampleHost host₀ g₀ g₀ [] (sampleCall firstBlock)
    ⟨sampleHost, g₀, firstBlock, none⟩ step 0 hclock hstart (by simp) rfl
    (List.mem_cons_self) hclock (passes_self _ _ _ _ _) hstep with
    ⟨cut, g₁, host₃, hcut, hthird, hback⟩
  exact ⟨db', g, host₁, g', host₂, g₀, host₀, step, cut, g₁, host₃, hend, hfirst, hsecond, hsame,
    hstart, hstep, hcut, hthird, hback⟩

theorem cutBootstrap_blocks :
    (startupDb samplePlatform (sampleHost.killedAfter 3) Db.empty).map (fun db =>
      (initializeChainState samplePlatform sampleHost db).toOption.map fun out =>
        out.1.blocks.map Block.hash) = some (some [genesisHash, genesisHash]) := by
  decide +kernel

/-- A session that applies two blocks and stops. -/
def twoBlockSession : Except (Stop StartupError) ChainState := do
  let started <- initializeChainState samplePlatform sampleHost Db.empty
  liftFault (applyAll samplePlatform started.1 [sampleCall firstBlock, sampleCall secondBlock])

theorem cutRecovery_blocks : twoBlockSession.toOption.map (fun left =>
    (left.blocks.length, (startupDb samplePlatform (sampleHost.killedAfter 2) left.db).map
      fun db => (initializeChainState samplePlatform sampleHost db).toOption.map
        fun out => out.1.blocks.length)) = some (3, some (some 2)) := by
  decide +kernel

/-- After three writes of a first start the next one holds genesis twice, and a
recovery that is cut off after the second of three blocks loses the third. -/
theorem crash_loses :
    (exists db g host', startupDb samplePlatform (sampleHost.killedAfter 3) Db.empty = some db ∧
      initializeChainState samplePlatform sampleHost db = .ok (g, host') ∧
      g.blocks.map Block.hash = [genesisHash, genesisHash]) ∧
    (exists g₀ host₀ left db g host',
      initializeChainState samplePlatform sampleHost Db.empty = .ok (g₀, host₀) ∧
      applyAll samplePlatform g₀ [sampleCall firstBlock, sampleCall secondBlock] = .ok left ∧
      left.blocks.length = 3 ∧
      startupDb samplePlatform (sampleHost.killedAfter 2) left.db = some db ∧
      initializeChainState samplePlatform sampleHost db = .ok (g, host') ∧
      g.blocks.length = 2) := by
  constructor
  · rcases Option.map_eq_some_iff.mp cutBootstrap_blocks with ⟨db, hend, hblocks⟩
    rcases toOption_map_eq_some hblocks with ⟨⟨g, host'⟩, hstart, hhashes⟩
    exact ⟨db, g, host', hend, hstart, hhashes⟩
  · rcases toOption_map_eq_some cutRecovery_blocks with ⟨left, hrun, hlengths⟩
    rcases Prod.mk.inj hlengths with ⟨hlength, hcut⟩
    rcases Option.map_eq_some_iff.mp hcut with ⟨db, hend, hblocks⟩
    rcases toOption_map_eq_some hblocks with ⟨⟨g, host'⟩, hstart, hshort⟩
    rcases bind_eq_ok.mp hrun with ⟨⟨g₀, host₀⟩, hfirst, hcalls⟩
    exact ⟨g₀, host₀, left, db, g, host', hfirst, liftFault_eq_ok.mp hcalls, hlength, hend,
      hstart, hshort⟩

end VisionCore
