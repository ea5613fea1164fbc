import VisionCore.Node.Reconstruct

/-!
# The database mirrors the chain

Genesis, extensions, side blocks, reorgs and the two recovery paths write the
same keys by different routines.  After each of them the height index lists the
canonical hashes and nothing above the tip, the tip entries name the tip, and
every known block is stored under its hash.
-/

namespace VisionCore

open Std
open Foundation

/-!
# Batches
-/

/-- A key that is absent or removed is absent after a batch that does not insert it. -/
theorem Db.get_applyBatch_none {db : Db} {batch : List DbOp} {key : DbKey}
    (hinsert : forall value, DbOp.insert key value ∉ batch)
    (h : db.get key = none ∨ DbOp.remove key ∈ batch) : (db.applyBatch batch).get key = none := by
  unfold Db.applyBatch
  induction batch generalizing db with
  | nil =>
      cases h with
      | inl habsent => exact habsent
      | inr hremoved => cases hremoved
  | cons op rest ih =>
      rw [List.foldl_cons]
      apply ih fun value hmem => hinsert value (List.mem_cons_of_mem _ hmem)
      by_cases hkey : op.key = key
      · left
        cases op with
        | insert k value =>
            have hk : k = key := hkey
            subst hk
            exact absurd List.mem_cons_self (hinsert value)
        | remove k =>
            have hk : k = key := hkey
            subst hk
            exact if_pos rfl
      · cases h with
        | inl habsent => exact Or.inl ((Db.get_apply_of_ne hkey).trans habsent)
        | inr hremoved =>
            cases List.mem_cons.mp hremoved with
            | inl heq => exact absurd (heq ▸ rfl) hkey
            | inr hrest => exact Or.inr hrest

/-- A key that a batch only ever writes with its old value keeps it. -/
theorem Db.get_applyBatch_kept {db : Db} {batch : List DbOp} {key : DbKey} {value : DbValue}
    (h : db.get key = some value)
    (hall : forall op, op ∈ batch -> op.key = key -> op = .insert key value) :
    (db.applyBatch batch).get key = some value := by
  by_cases hmem : DbOp.insert key value ∈ batch
  · exact Db.get_applyBatch_of_mem hmem hall
  · refine (Db.get_applyBatch_of_untouched ?_).trans h
    intro op hop hkey
    exact hmem (hall op hop hkey ▸ hop)

theorem tipBatch_tipHash (db : Db) (blk : Block) :
    (db.applyBatch (tipBatch blk)).get .tipHash = some (.text blk.hash) := by
  refine Db.get_applyBatch_of_mem (mem_tipBatch.mpr (Or.inr (Or.inr (Or.inr rfl)))) ?_
  intro op hop hkey
  rcases mem_tipBatch.mp hop with rfl | rfl | rfl | rfl <;> simp [DbOp.key] at hkey ⊢

/-!
# The invariant
-/

/-- What the database holds beside the canonical entries and the tip height. -/
structure Mirrored (g : ChainState) : Prop where
  absent : forall height : UInt64, g.blocks.length ≤ height.toNat ->
    g.db.get (.height height) = none
  tipHash : exists tip, g.blocks.getLast? = some tip ∧
    g.db.get .tipHash = some (.text tip.hash)
  known : forall {hash blk}, resolveBlock g hash = some blk ->
    g.db.get (.block blk.hash) = some (.block blk)

theorem Mirrored.congr {g g' : ChainState} (h : Mirrored g) (hblocks : g'.blocks = g.blocks)
    (hknown : resolveBlock g' = resolveBlock g) (hdb : g'.db = g.db) : Mirrored g' where
  absent := by
    rw [hblocks, hdb]
    exact h.absent
  tipHash := by
    rw [hblocks, hdb]
    exact h.tipHash
  known := by
    rw [hknown, hdb]
    exact h.known

section Step

variable {P : Platform} {D : Block -> Prop} {host : Host} {g : ChainState}
  {blk parent common : Block} {rest side : List Block} {candidateCw : Nat}
  {state : TxExecutionState} {sourcePeer : Option String} {step : Step}

/-- A known block is not the new one. -/
theorem Represents.Joins.known_hash_ne (hg : Represents P D g)
    (h : Represents.Joins P D g blk parent rest) {hash : String} {b : Block}
    (hb : resolveBlock g hash = some b) : b.hash ≠ blk.hash := by
  intro heq
  have hname : b.hash = hash := hg.rooted.named hb
  have hunknown := h.unknown
  rw [← heq, hname, hb] at hunknown
  cases hunknown

/-- The known blocks of the enlarged state are stored when the new one is and the
entries of the others are left alone. -/
theorem known_put (hg : Represents P D g) (hjoins : Represents.Joins P D g blk parent rest)
    {g' : ChainState} (hknown : resolveBlock g' = Store.put chainLineage (resolveBlock g) blk)
    (hm : Mirrored g) (hnew : g'.db.get (.block blk.hash) = some (.block blk))
    (hold : forall hash, hash ≠ blk.hash -> g'.db.get (.block hash) = g.db.get (.block hash))
    {hash : String} {b : Block} (hb : resolveBlock g' hash = some b) :
    g'.db.get (.block b.hash) = some (.block b) := by
  rw [hknown] at hb
  unfold Store.put at hb
  split at hb
  · cases hb
    exact hnew
  · rw [hold b.hash (hjoins.known_hash_ne hg hb)]
    exact hm.known hb

theorem extended_mirrored (hg : Represents P D g) (hm : Mirrored g)
    (h : Admitted P D host g blk parent rest candidateCw state)
    (htip : g.blocks.reverse = parent :: rest) {db : Db}
    (hsaved : ExtensionSaved P g blk candidateCw state db) :
    Mirrored (extendedChain g blk candidateCw state db) where
  absent := by
    intro height hheight
    rw [extendedChain_blocks, List.length_append, List.length_singleton] at hheight
    have hlength := congrArg List.length htip
    rw [List.length_reverse, List.length_cons] at hlength
    have hnumber : blk.header.number.toNat = g.blocks.length := by
      rw [h.joins.number, hg.number_eq h.joins.path, hlength]
    have hne : height ≠ blk.header.number := by
      intro heq
      rw [heq, hnumber] at hheight
      omega
    show db.get (.height height) = none
    rw [extensionSaved_get hsaved rfl,
      tipBatch_get_untouched (by simp) (by simpa using hne) (by simp) (by simp)]
    exact hm.absent height (by omega)
  tipHash :=
    ⟨blk, List.getLast?_concat, (extensionSaved_get hsaved rfl).trans (tipBatch_tipHash g.db blk)⟩
  known := by
    apply known_put hg h.joins (h.extended_known hg htip db) hm
    · exact (extensionSaved_get hsaved rfl).trans (tipBatch_storedBlock g.db blk).block
    · intro hash hhash
      exact (extensionSaved_get hsaved rfl).trans
        (tipBatch_get_untouched (by simpa using hhash) (by simp) (by simp) (by simp))

theorem recorded_mirrored (hg : Represents P D g) (hm : Mirrored g)
    (h : Admitted P D host g blk parent rest candidateCw state) :
    Mirrored (sideRecorded g blk candidateCw) where
  absent := by
    intro height hheight
    rw [recorded_get (by simp)]
    exact hm.absent height hheight
  tipHash := by
    rcases hm.tipHash with ⟨tip, hlast, htip⟩
    exact ⟨tip, hlast, (recorded_get (by simp)).trans htip⟩
  known := by
    apply known_put hg h.joins (h.recorded_known hg) hm
    · exact Db.get_applyBatch_of_mem (by simp) (by simp)
    · intro hash hhash
      exact recorded_get (by simpa using hhash)

theorem Moves.mirrored {works : ExtTreeMap String Nat} {plan : ReorgPlan} {db : Db}
    (h : Moves P D host g blk parent common rest side candidateCw state works plan db)
    (hm : Mirrored (sideRecorded g blk candidateCw)) :
    Mirrored (reorgApplied P (sideRecorded g blk candidateCw) blk side common works plan db) := by
  have hblocks := h.blocks
  have hknown := h.known
  have hdb : (reorgApplied P (sideRecorded g blk candidateCw) blk side common works plan
      db).db = db := rfl
  have hnumber := h.recorded.number_eq h.path
  rcases h.saved with ⟨firstStale, hstale, hsaved⟩
  unfold reorgBatch at hsaved
  rw [List.append_assoc] at hsaved
  constructor
  · intro height hheight
    rw [hblocks, List.length_reverse, List.length_cons] at hheight
    rw [hdb, hsaved]
    apply Db.get_applyBatch_none
    · intro value hmem
      rcases List.mem_append.mp hmem with hentry | hrest
      · rcases mem_canonicalEntries.mp hentry with ⟨b, hb, heq | heq⟩
        · cases heq
        · cases heq
          have hpath := h.recorded.getElem?_reverse h.path (List.mem_reverse.mp hb)
          have hlt := (List.getElem?_eq_some_iff.mp hpath).1
          rw [List.length_reverse, List.length_cons] at hlt
          omega
      · simp [tipEntry] at hrest
    · by_cases hold : (sideRecorded g blk candidateCw).blocks.length ≤ height.toNat
      · exact Or.inl (hm.absent height hold)
      · right
        rcases hm.tipHash with ⟨tip, hlast, _⟩
        have hlength := h.recorded.tip_number hlast
        have hcurrent := ChainState.currentHeight_of_last hlast
        have hrange : height ∈ heightRange firstStale
            (sideRecorded g blk candidateCw).currentHeight := by
          apply mem_heightRange_of_le
          · omega
          · rw [hcurrent]
            omega
        exact List.mem_append_right _ (List.mem_append_left _ (List.mem_map.mpr ⟨_, hrange, rfl⟩))
  · refine ⟨blk, by rw [hblocks, List.getLast?_reverse, List.head?_cons], ?_⟩
    rw [hdb, hsaved]
    refine Db.get_applyBatch_of_mem (by simp [tipEntry]) ?_
    intro op hop hkey
    rcases List.mem_append.mp hop with hentry | hop
    · rcases mem_canonicalEntries.mp hentry with ⟨b, _, rfl | rfl⟩ <;> cases hkey
    · rcases List.mem_append.mp hop with hremove | htip
      · rcases List.mem_map.mp hremove with ⟨height, _, rfl⟩
        cases hkey
      · simp only [tipEntry, List.mem_cons, List.not_mem_nil, or_false] at htip
        rcases htip with rfl | rfl
        · cases hkey
        · rfl
  · intro hash b hb
    rw [hknown] at hb
    rw [hdb, hsaved]
    refine Db.get_applyBatch_kept (hm.known hb) ?_
    intro op hop hkey
    rcases List.mem_append.mp hop with hentry | hop
    · rcases mem_canonicalEntries.mp hentry with ⟨x, hx, rfl | rfl⟩
      · -- a block of the path with this hash is the known block itself
        have hname : x.hash = b.hash := DbKey.block.inj hkey
        have hbname : b.hash = hash := h.recorded.rooted.named hb
        have hlookup := h.path.lookup (List.mem_reverse.mp hx)
        rw [chainLineage_name, hname, hbname, hb] at hlookup
        rw [← Option.some.inj hlookup]
      · cases hkey
    · rcases List.mem_append.mp hop with hremove | htip
      · rcases List.mem_map.mp hremove with ⟨height, _, rfl⟩
        cases hkey
      · simp only [tipEntry, List.mem_cons, List.not_mem_nil, or_false] at htip
        rcases htip with rfl | rfl <;> cases hkey

theorem Effect.mirrored (hg : Represents P D g) (h : Effect P D host g blk sourcePeer step)
    (hm : Mirrored g) : Mirrored step.chain := by
  cases h with
  | rejected _ => exact hm
  | orphaned _ _ _ =>
      have hframe := addOrphan_db host.now g blk (sourcePeer.getD "anon")
      have hknown := addOrphan_known host.now g blk (sourcePeer.getD "anon")
      exact hm.congr hframe.1 hknown.1 hframe.2
  | extended hadmitted _ htip hsaved _ => exact extended_mirrored hg hm hadmitted htip hsaved
  | recorded hadmitted _ _ _ => exact recorded_mirrored hg hm hadmitted
  | moved hmoves _ => exact hmoves.mirrored (recorded_mirrored hg hm hmoves.admitted)

theorem stepInvariant_mirrored (P : Platform) (D : Block -> Prop) :
    StepInvariant P D fun _ g => Mirrored g where
  effect := fun hg _ heffect hpre => heffect.mirrored hg hpre
  take := fun _ hpre => hpre.congr rfl rfl rfl
  forget := fun _ hpre => hpre.congr rfl rfl rfl

end Step

/-!
# Replayed blocks
-/

/-- The databases agree on everything but the tip and the snapshots. -/
def SameChainKeys (db db' : Db) : Prop :=
  forall key, key.isSnapshot = false -> key ≠ .tipHeight -> key ≠ .tipHash ->
    db'.get key = db.get key

theorem SameChainKeys.refl (db : Db) : SameChainKeys db db :=
  fun _ _ _ _ => rfl

theorem SameChainKeys.trans {db db' db'' : Db} (h : SameChainKeys db db')
    (h' : SameChainKeys db' db'') : SameChainKeys db db'' :=
  fun key hkey hheight hhash =>
    (h' key hkey hheight hhash).trans (h key hkey hheight hhash)

/-- Making a stored block the tip again changes nothing else. -/
theorem StoredBlock.sameChainKeys {db db' : Db} {blk : Block} (h : StoredBlock db blk)
    (hdb : forall key, key.isSnapshot = false ->
      db'.get key = (db.applyBatch (VisionCore.tipBatch blk)).get key) :
    SameChainKeys db db' := by
  intro key hkey hheight hhash
  rw [hdb key hkey]
  by_cases hblock : key = .block blk.hash
  · rw [hblock, (tipBatch_storedBlock db blk).block, h.block]
  · by_cases hindex : key = .height blk.header.number
    · rw [hindex, (tipBatch_storedBlock db blk).height, h.height]
    · exact tipBatch_get_untouched hblock hindex hheight hhash

def TipHashStored (g : ChainState) : Prop :=
  g.db.get .tipHash = some (.text g.tipHash)

section Replay

variable {P : Platform} {D : Block -> Prop} {left g g' : ChainState} {below above : List Block}
  {blk : Block} {host host' : Host}

theorem tipHash_concat (hblocks : g.blocks = below ++ [blk]) : g.tipHash = blk.hash := by
  apply ChainState.tipHash_of_last
  rw [hblocks, List.getLast?_concat]

/-- Replaying the rest of the stored chain writes nothing but the tip. -/
theorem Following.replays (h : Following P D left below g) (hnumbered : NumberedFrom P D)
    (hleft : Represents P D left) (hsplit : left.blocks = below ++ above) (hbelow : below ≠ [])
    (hstored : above = [] -> TipHashStored g)
    (hrun : above.foldlM
      (fun entry blk => replayStoredBlock P entry blk.header.number blk.hash blk) (g, host) =
        .ok (g', host')) :
    Following P D left left.blocks g' ∧ SameChainKeys g.db g'.db ∧ TipHashStored g' := by
  induction above generalizing below g host with
  | nil =>
      cases hrun
      rw [List.append_nil] at hsplit
      exact ⟨hsplit.symm ▸ h, SameChainKeys.refl _, hstored rfl⟩
  | cons blk above ih =>
      rw [List.foldlM_cons] at hrun
      rcases bind_eq_ok.mp hrun with ⟨⟨g₁, host₁⟩, hfirst, hrest⟩
      rcases h.replayed hnumbered hleft hsplit hbelow hfirst with ⟨hnext, _, hdb⟩
      have hmem : blk ∈ left.blocks := by
        rw [hsplit]
        exact List.mem_append_right _ List.mem_cons_self
      have hsplit' : left.blocks = (below ++ [blk]) ++ above := by
        rw [hsplit, List.append_assoc]
        rfl
      have htip : TipHashStored g₁ := by
        unfold TipHashStored
        rw [tipHash_concat hnext.blocks, hdb _ rfl, tipBatch_tipHash]
      rcases ih hnext hsplit' (by simp) (fun _ => htip) hrest with ⟨hfinal, hsame, hlast⟩
      exact ⟨hfinal, ((h.stored blk hmem).sameChainKeys hdb).trans hsame, hlast⟩

/-- Reading a stored block back and replaying it is replaying the block. -/
theorem Following.replays_heights (h : Following P D left below g)
    (hnumbered : NumberedFrom P D) (hleft : Represents P D left)
    (hsplit : left.blocks = below ++ above) (hbelow : below ≠ [])
    (hrun : (above.map fun blk => blk.header.number).foldlM (replayStoredHeight P) (g, host) =
      .ok (g', host')) :
    above.foldlM
      (fun entry blk => replayStoredBlock P entry blk.header.number blk.hash blk) (g, host) =
        .ok (g', host') := by
  induction above generalizing below g host with
  | nil => exact hrun
  | cons blk above ih =>
      rw [List.map_cons, List.foldlM_cons] at hrun
      rcases bind_eq_ok.mp hrun with ⟨⟨g₁, host₁⟩, hfirst, hrest⟩
      have hmem : blk ∈ left.blocks := by
        rw [hsplit]
        exact List.mem_append_right _ List.mem_cons_self
      have hreplay : replayStoredBlock P (g, host) blk.header.number blk.hash blk =
          .ok (g₁, host₁) := by
        unfold replayStoredHeight at hfirst
        rw [(h.stored blk hmem).require] at hfirst
        exact hfirst
      have hsplit' : left.blocks = (below ++ [blk]) ++ above := by
        rw [hsplit, List.append_assoc]
        rfl
      rw [List.foldlM_cons]
      exact bind_eq_ok.mpr ⟨_, hreplay,
        ih (h.replayed hnumbered hleft hsplit hbelow hreplay).1 hsplit' (by simp) hrest⟩

end Replay

/-!
# Start-up
-/

section Startup

variable {P : Platform} {D : Block -> Prop} {db : Db} {left g g' : ChainState}
  {host host' : Host} {calls : List Call}

theorem Reopened.tail_mirrored (h : Reopened P D g) (hnumbered : NumberedFrom P D)
    (htip : TipHashStored g) {restored : ChainState} {height : UInt64}
    (hheight : height.toNat ≤ g.currentHeight.toNat)
    (hrestore : restoreSnapshotAt P g height = .ok restored)
    (hrun : replayStoredCanonicalTail P host restored height = .ok (g', host')) :
    Following P D g g.blocks g' ∧ SameChainKeys g.db g'.db ∧ TipHashStored g' := by
  have hg := h.recovering.represents
  have hfollowing := h.following hheight hrestore
  have hlength := h.recovering.represents.blocks_length
  rcases h.restored hheight hrestore with ⟨_, hdb, hblocks⟩
  rcases h.persisted.tip with ⟨tip, hlast, _⟩
  have hcurrent := ChainState.currentHeight_of_last hlast
  unfold replayStoredCanonicalTail at hrun
  rw [hdb, h.requireTipHeight] at hrun
  dsimp only at hrun
  by_cases hle : g.currentHeight ≤ height
  · rw [if_pos hle] at hrun
    cases hrun
    rw [UInt64.le_iff_toNat_le] at hle
    have hall : g.blocks.take (height.toNat + 1) = g.blocks :=
      List.take_of_length_le (by omega)
    rw [hall] at hfollowing
    refine ⟨⟨hfollowing.recovering.refresh, hfollowing.blocks, hfollowing.sideBlocks,
      hfollowing.pool, hfollowing.stored⟩, ?_, ?_⟩
    · show SameChainKeys g.db restored.db
      rw [hdb]
      exact SameChainKeys.refl _
    · show restored.db.get .tipHash = some (.text restored.tipHash)
      rw [hdb, ChainState.tipHash_congr hfollowing.blocks]
      exact htip
  · rw [if_neg hle] at hrun
    rw [UInt64.le_iff_toNat_le] at hle
    have hlt := hg.length_lt
    have hone : (1 : UInt64).toNat = 1 := rfl
    have hadd : addU64 P height 1 = .ok (height + 1) := addU64_ok P (by omega)
    have hfirst := addU64_one_toNat (n := g.blocks.length) (by omega) hlt hadd
    rw [hadd] at hrun
    have hsplit : g.blocks =
        g.blocks.take (height.toNat + 1) ++ g.blocks.drop (height.toNat + 1) :=
      (List.take_append_drop _ _).symm
    have hne : g.blocks.take (height.toNat + 1) ≠ [] := by
      intro hnil
      have hlen := congrArg List.length hnil
      rw [List.length_take, List.length_nil] at hlen
      omega
    have hheights : heightRange (height + 1) g.currentHeight =
        (g.blocks.drop (height.toNat + 1)).map fun blk => blk.header.number := by
      rw [heightRange_drop, hfirst, hcurrent, hg.heights_eq hlast, List.map_drop]
    have hfold : (heightRange (height + 1) g.currentHeight).foldlM (replayStoredHeight P)
        (restored, host) = .ok (g', host') := hrun
    rw [hheights] at hfold
    have hblocksFold := hfollowing.replays_heights hnumbered hg hsplit hne hfold
    have hnonempty : g.blocks.drop (height.toNat + 1) ≠ [] := by
      intro hnil
      have hlen := congrArg List.length hnil
      rw [List.length_drop, List.length_nil] at hlen
      omega
    have hpost := hfollowing.replays hnumbered hg hsplit hne
      (fun hnil => absurd hnil hnonempty) hblocksFold
    rw [hdb] at hpost
    exact hpost

theorem Reopened.rebuild_mirrored (h : Reopened P D g) (hnumbered : NumberedFrom P D)
    (hrun : rebuildCanonicalStateFromGenesis P host g = .ok (g', host')) :
    Following P D g g.blocks g' ∧ SameChainKeys g.db g'.db ∧ TipHashStored g' := by
  have hg := h.recovering.represents
  rcases hg.blocks_cons with ⟨above, habove⟩
  rw [h.rebuild_eq habove, List.foldlM_cons] at hrun
  rcases bind_eq_ok.mp hrun with ⟨⟨g₁, host₁⟩, hfirst, hrest⟩
  rcases h.rebuild_following hfirst with ⟨hfollowing, _, hdb⟩
  have hgenesis : genesisBlock ∈ g.blocks := by
    rw [habove]
    exact List.mem_cons_self
  have hsame : SameChainKeys g.db g₁.db :=
    (h.recovering.entries genesisBlock hgenesis).sameChainKeys fun _ _ => by rw [hdb]
  have htip : TipHashStored g₁ := by
    have hblocks : g₁.blocks = [] ++ [genesisBlock] := hfollowing.blocks
    unfold TipHashStored
    rw [tipHash_concat hblocks, hdb, tipBatch_tipHash]
  rcases hfollowing.replays hnumbered hg (habove.trans rfl) (by simp) (fun _ => htip) hrest with
    ⟨hfinal, hrewritten, hlast⟩
  exact ⟨hfinal, hsame.trans hrewritten, hlast⟩

theorem Reopened.recover_mirrored (h : Reopened P D g) (hnumbered : NumberedFrom P D)
    (htip : TipHashStored g) (hrun : recoverAccountState P host g = .ok (g', host')) :
    Following P D g g.blocks g' ∧ SameChainKeys g.db g'.db ∧ TipHashStored g' := by
  unfold recoverAccountState at hrun
  split at hrun
  · rename_i restored height hrestore
    rcases restoreFirst_ok hrestore with ⟨hmem, hat⟩
    have hle := mem_heightRange_le (List.mem_reverse.mp (List.mem_filter.mp hmem).1)
    exact h.tail_mirrored hnumbered htip hle hat hrun
  · cases hrun
  · split at hrun
    · exact h.rebuild_mirrored hnumbered hrun
    · cases hrun
      exact ⟨⟨h.recovering, rfl, h.sideBlocks, h.pool, h.recovering.entries⟩,
        SameChainKeys.refl _, htip⟩

/-- A restart leaves the database of a mirrored chain as it was. -/
theorem initializeChainState_mirrored (hnumbered : NumberedFrom P D)
    (hdurable : Durable P D left) (hm : Mirrored left)
    (hrun : initializeChainState P host left.db = .ok (g', host')) : Mirrored g' := by
  rcases bind_eq_ok.mp hrun with ⟨opened, hopened, hrecover⟩
  rcases openWithGenesis_ok hdurable hopened with ⟨honly, hdb⟩
  split at hrecover
  · cases hrecover
  · rename_i booted hostBooted hboot
    rcases bootstrapChain_marked (hdb ▸ hdurable.archive.marked) hboot with ⟨rfl, rfl⟩
    rcases hm.tipHash with ⟨tip, hlast, htip⟩
    have hopenedTip : booted.tipHash = tip.hash := by
      unfold ChainState.tipHash
      rw [honly.blocks, hlast]
      rfl
    have hstored : TipHashStored booted.refreshCachedStateRootFromTip := by
      show booted.db.get .tipHash = some (.text booted.tipHash)
      rw [hdb, hopenedTip]
      exact htip
    rcases (hdurable.reopened hopened).recover_mirrored hnumbered hstored hrecover with
      ⟨hfinal, hsame, hfinalTip⟩
    have hblocks : g'.blocks = left.blocks := hfinal.blocks.trans honly.blocks
    constructor
    · intro height hheight
      rw [hblocks] at hheight
      rw [hsame _ rfl (by simp) (by simp)]
      show booted.db.get (.height height) = none
      rw [hdb]
      exact hm.absent height hheight
    · refine ⟨tip, by rw [hblocks, hlast], ?_⟩
      unfold TipHashStored at hfinalTip
      rw [hfinalTip]
      unfold ChainState.tipHash
      rw [hblocks, hlast]
      rfl
    · intro hash b hb
      have hmem : b ∈ g'.blocks := by
        unfold resolveBlock at hb
        rw [hfinal.sideBlocks] at hb
        split at hb
        · exact List.mem_of_getElem? hb
        · simp at hb
      exact (hfinal.stored b (hfinal.blocks ▸ hmem)).block

theorem freshChain_mirrored : Mirrored freshChain.refreshCachedStateRootFromTip where
  absent := by
    intro height hheight
    have hone : 1 ≤ height.toNat := hheight
    have hne : height ≠ genesisBlock.header.number := by
      intro heq
      rw [heq] at hone
      exact absurd hone (by decide)
    have hget : (Db.empty.applyBatch (tipBatch genesisBlock)).get (.height height) =
        Db.empty.get (.height height) :=
      tipBatch_get_untouched (by simp) (by simpa using hne) (by simp) (by simp)
    exact (freshDb_get (by simp)).trans hget
  tipHash :=
    ⟨genesisBlock, rfl, (freshDb_get (by simp)).trans (tipBatch_tipHash Db.empty genesisBlock)⟩
  known := by
    intro hash blk hknown
    rcases freshChain_only.resolve.mp hknown with ⟨_, rfl⟩
    exact (freshDb_get (by simp)).trans (tipBatch_storedBlock Db.empty genesisBlock).block

/-!
# Sessions
-/

theorem initializeChainState_started_mirrored (hnumbered : NumberedFrom P D)
    (havoids : AvoidsGenesis P D)
    (hdb : db = Db.empty ∨ exists left, (Durable P D left ∧ Mirrored left) ∧ left.db = db)
    (hrun : initializeChainState P host db = .ok (g, host')) :
    Durable P D g ∧ Mirrored g := by
  rcases hdb with rfl | ⟨left, ⟨hdurable, hm⟩, rfl⟩
  · rw [initializeChainState_fresh hrun]
    exact ⟨freshChain_durable havoids, freshChain_mirrored⟩
  · exact ⟨(initializeChainState_restart hnumbered hdurable hrun).1,
      initializeChainState_mirrored hnumbered hdurable hm hrun⟩

theorem Mirrored.applyAll (hm : Mirrored g) (hdurable : Durable P D g)
    (hnumbered : NumberedFrom P D) (hcalls : forall call, call ∈ calls -> D call.blk)
    (hrun : applyAll P g calls = .ok g') : Mirrored g' :=
  ((stepInvariant_mirrored P D).applyAll hnumbered hdurable.represents hm hcalls hrun).2

theorem SessionDb.mirrored (hnumbered : NumberedFrom P D) (havoids : AvoidsGenesis P D)
    (h : SessionDb P D db) :
    db = Db.empty ∨ exists left, (Durable P D left ∧ Mirrored left) ∧ left.db = db := by
  induction h with
  | empty => exact Or.inl rfl
  | left _ hstart hcalls hrun ih =>
      rcases initializeChainState_started_mirrored hnumbered havoids ih hstart with
        ⟨hdurable, hm⟩
      exact Or.inr ⟨_, ⟨hdurable.applyAll hnumbered hcalls hrun,
        hm.applyAll hdurable hnumbered hcalls hrun⟩, rfl⟩

/-- The database says of the chain what the memory says. -/
structure DbMirrors (g : ChainState) : Prop where
  canonical : forall height : UInt64, height ≤ g.currentHeight ->
    exists blk, g.blocks[height.toNat]? = some blk ∧
      g.db.get (.height height) = some (.text blk.hash)
  absent : forall height : UInt64, g.currentHeight < height -> g.db.get (.height height) = none
  tipHeight : g.db.get .tipHeight = some (.number g.currentHeight)
  tipHash : g.db.get .tipHash = some (.text g.tipHash)
  stored : forall blk : Block, (blk ∈ g.blocks ∨ exists hash : String, g.sideBlocks[hash]? = some blk) ->
    g.db.get (.block blk.hash) = some (.block blk)

theorem Mirrored.dbMirrors (hm : Mirrored g) (hdurable : Durable P D g) : DbMirrors g := by
  have hg := hdurable.represents
  rcases hdurable.persisted.tip with ⟨tip, hlast, htip⟩
  have hlength := hg.tip_number hlast
  have hcurrent := ChainState.currentHeight_of_last hlast
  constructor
  · intro height hheight
    rw [hcurrent, UInt64.le_iff_toNat_le] at hheight
    have hindex : height.toNat < g.blocks.length := by omega
    have hat := List.getElem?_eq_getElem hindex
    have hentry := (hdurable.persisted.entries _ (List.getElem_mem hindex)).height
    rw [UInt64.toNat_inj.mp (hg.number_of_getElem? hat)] at hentry
    exact ⟨_, hat, hentry⟩
  · intro height hheight
    rw [hcurrent, UInt64.lt_iff_toNat_lt] at hheight
    exact hm.absent height (by omega)
  · rw [hcurrent]
    exact htip
  · rcases hm.tipHash with ⟨tip', hlast', hhash⟩
    rw [hhash]
    unfold ChainState.tipHash
    rw [hlast']
    rfl
  · rintro blk (hmem | ⟨hash, hside⟩)
    · exact (hdurable.persisted.entries blk hmem).block
    · have hmem : hash ∈ g.sideBlocks :=
        ExtTreeMap.mem_iff_isSome_getElem?.mpr (by rw [hside]; rfl)
      have hcanon : hash ∉ g.canonIndex := fun h => hg.apart hash h hmem
      exact hm.known ((Represents.resolve_of_not_mem hcanon).trans hside)

/-- After any sessions and any calls the database mirrors the chain. -/
theorem dbMirrors_of_session (hnumbered : NumberedFrom P D) (havoids : AvoidsGenesis P D)
    (hdb : SessionDb P D db) (hstart : initializeChainState P host db = .ok (g, host'))
    (hcalls : forall call, call ∈ calls -> D call.blk) (hrun : applyAll P g calls = .ok g') :
    DbMirrors g' := by
  rcases initializeChainState_started_mirrored hnumbered havoids
    (hdb.mirrored hnumbered havoids) hstart with ⟨hdurable, hm⟩
  exact (hm.applyAll hdurable hnumbered hcalls hrun).dbMirrors
    (hdurable.applyAll hnumbered hcalls hrun)

end Startup

/-- The restarted sample node. -/
theorem dbMirrors_restarted : exists db g host', SessionDb samplePlatform firstOnly db ∧
    initializeChainState samplePlatform sampleHost db = .ok (g, host') ∧
      g.tipHash = firstBlock.hash ∧ DbMirrors g := by
  rcases restartedSample_runs with ⟨g₀, host₀, left, g, host', hstart, happly, hrestart, htip⟩
  have hdb : SessionDb samplePlatform firstOnly left.db :=
    SessionDb.left SessionDb.empty hstart
      (fun call hcall => (firstOnly_delivered (fun _ => True) trivial call hcall).1) happly
  have hnone : forall call, call ∈ ([] : List Call) -> firstOnly call.blk := by simp
  exact ⟨left.db, g, host', hdb, hrestart, htip,
    dbMirrors_of_session firstOnly_numbered firstOnly_avoidGenesis hdb hrestart hnone rfl⟩

end VisionCore
