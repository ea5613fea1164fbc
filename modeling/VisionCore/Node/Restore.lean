import VisionCore.Foundation.Interaction
import VisionCore.Node.Reconstruct

/-!
# Restoring in place

A restore works on the chain state itself and tries one stored height after the
other.  Every check of a height comes before the first write for it, so a height
that is turned down leaves nothing behind, and a height that is accepted has been
checked against the canonical block stored for it.
-/

namespace VisionCore

open Std
open Foundation

/-!
# The writes of a restore
-/

def ChainState.truncateBlocks (g : ChainState) (keep : UInt64) : ChainState :=
  if g.blocks.length > keep.toNat then { g with blocks := g.blocks.take keep.toNat } else g

theorem ChainState.truncateBlocks_eq (g : ChainState) (keep : UInt64) :
    g.truncateBlocks keep = { g with blocks := g.blocks.take keep.toNat } := by
  unfold truncateBlocks
  split
  · rfl
  · rename_i hlength
    rw [List.take_of_length_le (Nat.le_of_not_lt hlength)]

section Definitions

variable (P : Platform)

def restoreSnapshotInPlace (height : UInt64) : Program ChainState RestoreError Fault Unit := do
  let g <- get
  let loaded <- Program.attempt (loadSnapshot P g.db height)
  modify fun g => { g with balances := loaded.1.balances, nonces := loaded.1.nonces }
  let keep <- Program.call (addU64 P height 1)
  modify fun g => g.truncateBlocks keep
  let truncated <- get
  let rebuilt <- Program.call (rebuildIndexes P truncated)
  set { rebuilt with cachedStateRoot := some (height, loaded.2) }

/-- A height that fails leaves its state to the next one. -/
def restoreFirstInPlace (maxHeight : UInt64) :
    List UInt64 -> Program ChainState RestoreError Fault UInt64
  | [] => throw (.noSnapshot maxHeight)
  | height :: rest =>
      tryCatch
        (do
          restoreSnapshotInPlace P height
          return height)
        fun _ => restoreFirstInPlace maxHeight rest

def restoreLatestInPlace (maxHeight : UInt64) :
    Program ChainState RestoreError Fault UInt64 := do
  let g <- get
  restoreFirstInPlace P maxHeight (snapshotHeights g.db maxHeight)

end Definitions

/-!
# All or nothing
-/

/-- The run of a program that takes effect as a whole or leaves the state alone. -/
def settled {α : Type} (g : ChainState) :
    Except (Stop RestoreError) (ChainState × α) -> Except Fault (Except RestoreError α × ChainState)
  | .ok (g', a) => .ok (.ok a, g')
  | .error (.err e) => .ok (.error e, g)
  | .error (.fault f) => .error f

section Runs

variable {P : Platform} {g : ChainState}

/-- What is left to do once the checks of a height have passed. -/
def rebuildFrom (P : Platform) (g : ChainState) (height : UInt64)
    (loaded : TxExecutionState × String) : Except Fault ChainState := do
  let keep <- addU64 P height 1
  let rebuilt <- rebuildIndexes P
    { g with
      balances := loaded.1.balances
      nonces := loaded.1.nonces
      blocks := g.blocks.take keep.toNat }
  return { rebuilt with cachedStateRoot := some (height, loaded.2) }

theorem restoreSnapshotAt_of_load {height : UInt64} {loaded : TxExecutionState × String}
    (hload : loadSnapshot P g.db height = .ok loaded) :
    restoreSnapshotAt P g height = liftFault (rebuildFrom P g height loaded) := by
  unfold restoreSnapshotAt rebuildFrom
  rw [hload]
  dsimp only
  cases addU64 P height 1 with
  | error f => rfl
  | ok keep =>
      change (liftFault (rebuildIndexes P
          { g with
            balances := loaded.1.balances
            nonces := loaded.1.nonces
            blocks := g.blocks.take keep.toNat }) >>= _) =
        liftFault (rebuildIndexes P
          { g with
            balances := loaded.1.balances
            nonces := loaded.1.nonces
            blocks := g.blocks.take keep.toNat } >>= _)
      generalize rebuildIndexes P _ = rebuilt
      cases rebuilt with
      | error f => rfl
      | ok rebuilt => rfl

theorem restoreSnapshotInPlace_run (P : Platform) (g : ChainState) (height : UInt64) :
    (restoreSnapshotInPlace P height).run g =
      settled g ((restoreSnapshotAt P g height).map fun g' => (g', ())) := by
  unfold restoreSnapshotInPlace
  rw [Program.run_bind_of_returns (Program.returns_get.mpr ⟨rfl, rfl⟩)]
  cases hload : loadSnapshot P g.db height with
  | error e =>
      have hrejected : restoreSnapshotAt P g height = .error (.err e) := by
        unfold restoreSnapshotAt
        rw [hload]
      rw [hrejected]
      exact Program.Raises.bind rfl
  | ok loaded =>
      rw [restoreSnapshotAt_of_load hload,
        Program.run_bind_of_returns (Program.returns_attempt.mpr ⟨rfl, rfl⟩),
        Program.run_bind_of_returns (Program.returns_modify (u := ()).mpr rfl)]
      unfold rebuildFrom
      cases addU64 P height 1 with
      | error f => exact Program.run_bind_of_aborts (Program.call_aborts f)
      | ok keep =>
          rw [Program.run_bind_of_returns (Program.returns_call.mpr ⟨rfl, rfl⟩),
            Program.run_bind_of_returns (Program.returns_modify (u := ()).mpr rfl),
            Program.run_bind_of_returns (Program.returns_get.mpr ⟨rfl, rfl⟩),
            ChainState.truncateBlocks_eq]
          change _ = settled g ((liftFault (rebuildIndexes P
            { g with
              balances := loaded.1.balances
              nonces := loaded.1.nonces
              blocks := g.blocks.take keep.toNat } >>= _)).map _)
          generalize rebuildIndexes P _ = rebuilt
          cases rebuilt with
          | error f => exact Program.run_bind_of_aborts (Program.call_aborts f)
          | ok rebuilt =>
              rw [Program.run_bind_of_returns (Program.returns_call.mpr ⟨rfl, rfl⟩)]
              rfl

theorem restoreFirstInPlace_run (P : Platform) (g : ChainState) (maxHeight : UInt64)
    (heights : List UInt64) : (restoreFirstInPlace P maxHeight heights).run g =
      settled g (restoreFirst P g maxHeight heights) := by
  induction heights with
  | nil => rfl
  | cons height rest ih =>
      have hat := restoreSnapshotInPlace_run P g height
      unfold restoreFirstInPlace restoreFirst
      cases hrestore : restoreSnapshotAt P g height with
      | ok g' =>
          rw [hrestore] at hat
          have hreturns : Program.Returns (restoreSnapshotInPlace P height) g () g' := hat
          have hboth : Program.Returns
              (do
                restoreSnapshotInPlace P height
                return height) g height g' :=
            Program.returns_bind.mpr ⟨(), g', hreturns, Program.returns_pure.mpr ⟨rfl, rfl⟩⟩
          exact hboth.tryCatch
      | error stop =>
          rw [hrestore] at hat
          cases stop with
          | fault f =>
              have haborts : (restoreSnapshotInPlace P height).run g = .error f := hat
              exact Program.run_tryCatch_of_aborts (Program.run_bind_of_aborts haborts)
          | err e =>
              have hraises : Program.Raises (restoreSnapshotInPlace P height) g e g := hat
              rw [Program.run_tryCatch_of_raises hraises.bind]
              exact ih

theorem restoreLatestInPlace_run (P : Platform) (g : ChainState) (maxHeight : UInt64) :
    (restoreLatestInPlace P maxHeight).run g =
      settled g (restoreLatestSnapshot P g maxHeight) := by
  unfold restoreLatestInPlace
  rw [Program.run_bind_of_returns (Program.returns_get.mpr ⟨rfl, rfl⟩)]
  exact restoreFirstInPlace_run P g maxHeight (snapshotHeights g.db maxHeight)

end Runs

/-!
# The order of the heights
-/

section Heights

variable {P : Platform} {g g' : ChainState} {maxHeight height : UInt64} {heights : List UInt64}

theorem heightRange_sorted (first last : UInt64) :
    (heightRange first last).Pairwise fun x y => x.toNat < y.toNat := by
  unfold heightRange
  rw [List.pairwise_map]
  refine List.pairwise_lt_range.imp_of_mem ?_
  intro i j hi hj hlt
  rw [List.mem_range] at hi hj
  have hlast := last.toNat_lt
  rw [UInt64.toNat_ofNat', UInt64.toNat_ofNat', Nat.mod_eq_of_lt (by omega),
    Nat.mod_eq_of_lt (by omega)]
  omega

theorem snapshotHeights_sorted (db : Db) (maxHeight : UInt64) :
    (snapshotHeights db maxHeight).Pairwise fun x y => y.toNat < x.toNat :=
  (List.pairwise_reverse.mpr (heightRange_sorted 0 maxHeight)).filter _

theorem mem_snapshotHeights {db : Db} : height ∈ snapshotHeights db maxHeight ↔
    height.toNat ≤ maxHeight.toNat ∧ (db.get (.snapshot height)).isSome := by
  unfold snapshotHeights
  rw [List.mem_filter, List.mem_reverse]
  constructor
  · rintro ⟨hmem, hsome⟩
    exact ⟨mem_heightRange_le hmem, hsome⟩
  · rintro ⟨hle, hsome⟩
    exact ⟨mem_heightRange_of_le (Nat.zero_le _) hle, hsome⟩

theorem restoreSnapshotAt_rejected {e : RestoreError}
    (hrun : restoreSnapshotAt P g height = .error (.err e)) :
    loadSnapshot P g.db height = .error e := by
  cases hload : loadSnapshot P g.db height with
  | error e' =>
      unfold restoreSnapshotAt at hrun
      rw [hload] at hrun
      cases hrun
      rfl
  | ok loaded =>
      rw [restoreSnapshotAt_of_load hload] at hrun
      cases hrebuild : rebuildFrom P g height loaded with
      | error f =>
          rw [hrebuild] at hrun
          cases hrun
      | ok rebuilt =>
          rw [hrebuild] at hrun
          cases hrun

/-- Every height above the restored one was turned down. -/
theorem restoreFirst_rejected (hsorted : heights.Pairwise fun x y => y.toNat < x.toNat)
    (hrun : restoreFirst P g maxHeight heights = .ok (g', height)) {h : UInt64} (hmem : h ∈ heights)
    (habove : height.toNat < h.toNat) : exists e, restoreSnapshotAt P g h = .error (.err e) := by
  induction heights with
  | nil => cases hmem
  | cons x rest ih =>
      rcases List.pairwise_cons.mp hsorted with ⟨hbelow, hrest⟩
      unfold restoreFirst at hrun
      cases hrestore : restoreSnapshotAt P g x with
      | ok restored =>
          rw [hrestore] at hrun
          cases hrun
          rcases List.mem_cons.mp hmem with rfl | hlater
          · exact absurd habove (Nat.lt_irrefl _)
          · exact absurd habove (Nat.lt_asymm (hbelow h hlater))
      | error stop =>
          rw [hrestore] at hrun
          cases stop with
          | fault f => cases hrun
          | err e =>
              rcases List.mem_cons.mp hmem with rfl | hlater
              · exact ⟨e, hrestore⟩
              · exact ih hrest hrun hlater

end Heights

/-!
# The chain decides
-/

/-- The indexes are exactly those of the vector of blocks. -/
structure IndexesBlocks (g : ChainState) : Prop where
  canonIndex : forall hash n, g.canonIndex[hash]? = some n ↔
    exists blk, blk ∈ g.blocks ∧ blk.hash = hash ∧ blk.header.number = n
  cumulativeWork : forall hash cw, g.cumulativeWork[hash]? = some cw ↔
    exists older blk newer, g.blocks = older ++ blk :: newer ∧ blk.hash = hash ∧
      cw = lineWork older + blockWork blk
  seenBlocks : forall hash, hash ∈ g.seenBlocks ↔ exists blk, blk ∈ g.blocks ∧ blk.hash = hash

/-- `g'` is `g` cut back to `height` by the newest usable snapshot up to `maxHeight`:
the accounts have the root that the canonical block of the height names, and the
indexes are those of the blocks that are left. -/
structure Restored (P : Platform) (g : ChainState) (maxHeight height : UInt64)
    (g' : ChainState) : Prop where
  checked : exists hash blk, SnapshotAt P g.db height hash blk g'.accounts blk.header.stateRoot
  bounded : height ≤ maxHeight
  newest : forall h, height < h -> h ≤ maxHeight ->
    ¬exists hash blk state root, SnapshotAt P g.db h hash blk state root
  blocks : g'.blocks = g.blocks.take (height.toNat + 1)
  length : g'.blocks.length = height.toNat + 1
  indexes : IndexesBlocks g'
  balances : forall key : String, g'.balances[key]? ≠ some 0
  nonces : forall key : String, g'.nonces[key]? ≠ some 0

section Restored

variable {P : Platform} {D : Block -> Prop} {g g' : ChainState} {maxHeight height : UInt64}

theorem getElem?_normalizeBalances (balances : ExtTreeMap String Nat) (key : String) :
    (normalizeBalances balances)[key]? ≠ some 0 := by
  unfold normalizeBalances
  rw [ExtTreeMap.getElem?_filter']
  simp [Option.filter_eq_some_iff]

theorem getElem?_normalizeNonces (nonces : ExtTreeMap String UInt64) (key : String) :
    (normalizeNonces nonces)[key]? ≠ some 0 := by
  unfold normalizeNonces
  rw [ExtTreeMap.getElem?_filter']
  simp [Option.filter_eq_some_iff]

theorem getElem?_segmentWork {blocks : List Block} {works : ExtTreeMap String Nat}
    (hrun : segmentWork P 0 ∅ blocks = .ok works) (hnodup : (blocks.map Block.hash).Nodup)
    (hbound : lineWork blocks < u128Bound) {hash : String} {cw : Nat} :
    works[hash]? = some cw ↔
      exists older blk newer, blocks = older ++ blk :: newer ∧ blk.hash = hash ∧
        cw = lineWork older + blockWork blk := by
  have hat : forall {older newer : List Block} {blk : Block}, blocks = older ++ blk :: newer ->
      works[blk.hash]? = some (lineWork older + blockWork blk) := by
    rintro older newer blk rfl
    rw [segmentWork_of_mem hrun hnodup (by omega), Nat.zero_add]
  constructor
  · intro hslot
    by_cases hmem : hash ∈ blocks.map Block.hash
    · rcases List.mem_map.mp hmem with ⟨blk, hblk, rfl⟩
      rcases List.append_of_mem hblk with ⟨older, newer, hsplit⟩
      refine ⟨older, blk, newer, hsplit, rfl, ?_⟩
      exact Option.some.inj (hslot.symm.trans (hat hsplit))
    · rw [segmentWork_of_not_mem hrun hmem] at hslot
      simp at hslot
  · rintro ⟨older, blk, newer, hsplit, rfl, rfl⟩
    exact hat hsplit

/-- A height that is accepted leaves the blocks up to it and their indexes. -/
theorem Represents.restoreSnapshotAt_indexes (hg : Represents P D g)
    (hheight : height.toNat ≤ g.currentHeight.toNat)
    (hrun : restoreSnapshotAt P g height = .ok g') :
    g'.blocks = g.blocks.take (height.toNat + 1) ∧ g'.blocks.length = height.toNat + 1 ∧
      IndexesBlocks g' := by
  have hlt := hg.length_lt
  rcases hg.canonical_prefix hheight with ⟨hpath, hindex⟩
  rcases restoreSnapshotAt_eq hrun with ⟨state, root, keep, works, _, hkeep, hworks, rfl⟩
  have hkeep' := addU64_one_toNat hindex hlt hkeep
  rw [hkeep'] at hworks
  have hblocks : (restoredChain g height keep state root works).blocks =
      g.blocks.take (height.toNat + 1) := congrArg g.blocks.take hkeep'
  have hnodup : ((g.blocks.take (height.toNat + 1)).map Block.hash).Nodup := by
    have hnames := hpath.nodup_names
    rwa [List.map_reverse, List.nodup_reverse] at hnames
  -- The side branches and the pool play no part in reading an index.
  have honly : ChainOnly P
      { restoredChain g height keep state root works with sideBlocks := ∅, orphanPool := ∅ }
      (g.blocks.take (height.toNat + 1)) := by
    rw [← hkeep'] at hworks ⊢
    exact ⟨rfl, rfl, rfl, hworks, rfl, rfl⟩
  refine ⟨hblocks, ?_, honly.index hnodup, ?_, ?_⟩
  · rw [hblocks, List.length_take]
    omega
  · intro hash cw
    rw [hblocks]
    have hbound := hg.lineWork_path hpath
    rw [Nat.zero_add] at hbound
    exact getElem?_segmentWork hworks hnodup hbound
  · intro hash
    rw [hblocks]
    exact honly.mem_seen

theorem Represents.restored (hg : Represents P D g)
    (hmax : maxHeight.toNat ≤ g.currentHeight.toNat) (hpos : 1 ≤ height.toNat)
    (hrun : restoreLatestSnapshot P g maxHeight = .ok (g', height)) :
    Restored P g maxHeight height g' := by
  rcases restoreFirst_ok hrun with ⟨hmem, hat⟩
  have hbounded := (mem_snapshotHeights.mp hmem).1
  rcases hg.restoreSnapshotAt_indexes (Nat.le_trans hbounded hmax) hat with
    ⟨hblocks, hlength, hindexes⟩
  rcases restoreSnapshotAt_accounts hat with ⟨root, hload⟩
  rcases loadSnapshot_ok hload with ⟨hash, blk, hsnapshot⟩
  have hne : height ≠ 0 := by
    rintro rfl
    exact absurd hpos (by decide)
  have hroot : blk.header.stateRoot = root :=
    hsnapshot.header.resolve_right fun hgenesis => hne hgenesis.1
  rcases hsnapshot.balances with ⟨balances, _, hbalances⟩
  rcases hsnapshot.nonces with ⟨nonces, _, hnonces⟩
  constructor
  · subst hroot
    exact ⟨hash, blk, hsnapshot⟩
  · exact UInt64.le_iff_toNat_le.mpr hbounded
  · rintro h habove hle ⟨hash', blk', state', root', hother⟩
    have hmem' : h ∈ snapshotHeights g.db maxHeight := by
      rw [mem_snapshotHeights, hother.metadata]
      exact ⟨UInt64.le_iff_toNat_le.mp hle, rfl⟩
    rcases restoreFirst_rejected (snapshotHeights_sorted g.db maxHeight) hrun hmem'
      (UInt64.lt_iff_toNat_lt.mp habove) with ⟨e, hrejected⟩
    have herror := restoreSnapshotAt_rejected hrejected
    rw [hother.load] at herror
    cases herror
  · exact hblocks
  · exact hlength
  · exact hindexes
  · intro key
    have hkey := getElem?_normalizeBalances balances key
    rwa [← hbalances] at hkey
  · intro key
    have hkey := getElem?_normalizeNonces nonces key
    rwa [← hnonces] at hkey

/-- A restore from a represented chain ends.  It fails without a trace, or the state
that it leaves is the one that the newest usable snapshot and the canonical block
of its height describe. -/
theorem restore_keeps_chain (hg : Represents P D g)
    (hmax : maxHeight.toNat ≤ g.currentHeight.toNat) :
    exists result g', (restoreLatestInPlace P maxHeight).run g = .ok (result, g') ∧
      (forall e, result = .error e -> g' = g) ∧
      (forall h, result = .ok h -> 1 ≤ h.toNat -> Restored P g maxHeight h g') := by
  rw [restoreLatestInPlace_run]
  have hheights : forall height, height ∈ snapshotHeights g.db maxHeight ->
      height.toNat ≤ g.currentHeight.toNat := fun height hmem =>
    Nat.le_trans (mem_snapshotHeights.mp hmem).1 hmax
  cases hrun : restoreLatestSnapshot P g maxHeight with
  | ok out =>
      rcases out with ⟨g', height⟩
      refine ⟨.ok height, g', rfl, fun e he => (by cases he), ?_⟩
      intro h hh hpos
      cases hh
      exact hg.restored hmax hpos hrun
  | error stop =>
      cases stop with
      | fault f => exact absurd hrun (hg.restoreFirst_noFault hheights f)
      | err e => exact ⟨.error e, g, rfl, fun _ _ => rfl, fun h hh => (by cases hh)⟩

/-- The first block applied to a fresh chain, with a snapshot of the state it leaves. -/
def snapshotSample : Except (Stop StartupError) ChainState := do
  let started <- initializeChainState samplePlatform sampleHost Db.empty
  let left <- liftFault (applyAll samplePlatform started.1 [sampleCall firstBlock])
  let saved := saveSnapshot samplePlatform sampleHost left left.currentHeight
  return { left with db := saved.2.1 }

theorem snapshotSample_restores : snapshotSample.toOption.map (fun g =>
    ((restoreLatestInPlace samplePlatform g.currentHeight).run g).toOption.map fun out =>
      out.1.toOption) = some (some (some 1)) := by
  decide +kernel

theorem restore_keeps_chain_firstBlock : exists g g',
    (restoreLatestInPlace samplePlatform g.currentHeight).run g = .ok (.ok 1, g') ∧
      Restored samplePlatform g g.currentHeight 1 g' := by
  rcases toOption_map_eq_some snapshotSample_restores with ⟨g, hg, hrestores⟩
  rcases toOption_map_eq_some hrestores with ⟨⟨outcome, restored⟩, hrun, houtcome⟩
  rcases bind_eq_ok.mp hg with ⟨⟨g₀, host₀⟩, hstart, hg⟩
  rcases bind_eq_ok.mp hg with ⟨left, happly, hg⟩
  cases hg
  have hleft : Represents samplePlatform firstOnly left :=
    ((Started.startup firstOnly_avoidGenesis SessionDb.empty hstart).reached firstOnly_numbered
      (fun call hcall => (firstOnly_delivered (fun _ => True) trivial call hcall).1)
      (liftFault_eq_ok.mp happly)).1
  have hsaved : Represents samplePlatform firstOnly
      { left with db := (saveSnapshot samplePlatform sampleHost left left.currentHeight).2.1 } :=
    hleft.congr rfl rfl rfl rfl hleft.waiting
  rcases restore_keeps_chain hsaved (Nat.le_refl _) with ⟨result, g', hresult, _, hrestored⟩
  have hsame := hrun.symm.trans hresult
  cases hsame
  have hone := toOption_eq_some.mp houtcome
  dsimp only at hone
  rw [hone] at hresult
  exact ⟨_, _, hresult, hrestored 1 hone (by decide)⟩

end Restored

end VisionCore
