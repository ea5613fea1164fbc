import VisionCore.Chain.Persistence
import VisionCore.Chain.Run
import VisionCore.Chain.Work
import VisionCore.Node.Bootstrap

/-!
# Recovery at start-up

A database that stores a canonical chain is read back into a chain state that
represents the same chain, with exact works, whichever of the recovery paths is
taken.
-/

namespace VisionCore

open Std
open Foundation

/-!
# Step invariants of the stored chain
-/

section Invariants

variable (P : Platform) (D : Block -> Prop)

theorem stepInvariant_storedEntries : StepInvariant P D fun _ g => StoredEntries g where
  effect := fun hg _ heffect hpre => heffect.storedEntries hg hpre
  take := fun _ hpre => hpre
  forget := fun _ hpre => hpre

theorem stepInvariant_persisted : StepInvariant P D fun _ g => Persisted g where
  effect := fun hg _ heffect hpre =>
    ⟨heffect.storedEntries hg hpre.entries, heffect.storedTip hg hpre⟩
  take := fun _ hpre => ⟨hpre.entries, hpre.tip⟩
  forget := fun _ hpre => ⟨hpre.entries, hpre.tip⟩

theorem stepInvariant_archive : StepInvariant P D fun _ g => Archive P D g.db where
  effect := fun _ _ heffect hpre => heffect.archive hpre
  take := fun _ hpre => hpre
  forget := fun _ hpre => hpre

end Invariants

/-- What a running node and its database satisfy between two calls. -/
structure Durable (P : Platform) (D : Block -> Prop) (g : ChainState) : Prop where
  represents : Represents P D g
  persisted : Persisted g
  archive : Archive P D g.db

/-- The same while stored blocks are replayed, before the tip is reached. -/
structure Recovering (P : Platform) (D : Block -> Prop) (g : ChainState) : Prop where
  represents : Represents P D g
  entries : StoredEntries g
  archive : Archive P D g.db
  exact : ExactWork g

section Calls

variable {P : Platform} {D : Block -> Prop} {host : Host} {g : ChainState} {blk : Block}
  {sourcePeer : Option String} {out : Applied}

theorem Durable.applyBlock (h : Durable P D g) (hnumbered : NumberedFrom P D) (hD : D blk)
    (hrun : applyBlock P host g blk sourcePeer = .ok out) : Durable P D out.chain := by
  have hpost := ((stepInvariant_persisted P D).and (stepInvariant_archive P D)).applyBlock
    hnumbered h.represents hD ⟨h.persisted, h.archive⟩ hrun
  exact ⟨hpost.1, hpost.2.1, hpost.2.2⟩

theorem Recovering.applyBlock (h : Recovering P D g) (hnumbered : NumberedFrom P D) (hD : D blk)
    (hrun : applyBlock P host g blk sourcePeer = .ok out) : Recovering P D out.chain := by
  have hpost := ((stepInvariant_storedEntries P D).and
    ((stepInvariant_archive P D).and (stepInvariant_exactWork P D))).applyBlock
    hnumbered h.represents hD ⟨h.entries, h.archive, h.exact⟩ hrun
  exact ⟨hpost.1, hpost.2.1, hpost.2.2.1, hpost.2.2.2⟩

/-- A call that reports an extension leaves the tip stored. -/
theorem applyBlock_persisted (hnumbered : NumberedFrom P D) (hg : Represents P D g)
    (hentries : StoredEntries g) (hD : D blk)
    (hrun : applyBlock P host g blk sourcePeer = .ok out) {height : UInt64}
    (hresult : out.result = .canonExtension height) : Persisted out.chain := by
  rcases applyBlock_first hrun with ⟨step, hstep, hout, hcases⟩
  have heffect := hg.effect hnumbered hD (acceptBlock_transition hstep)
  have hpersisted := heffect.persisted hg hentries (hout.symm.trans hresult)
  rcases hcases with ⟨_, hchain, _⟩ | ⟨key, hkey, hprocess⟩
  · rw [hchain]
    exact hpersisted
  · have hinvariant := (stepInvariant_persisted P D).promotion hnumbered
    have hoffered : forall b, b ∈ ([] : List Block) -> D b := by simp
    have hpost := hinvariant.processOrphansWith hinvariant.applyBlockFuel
      (And.intro (heffect.represents hg hD) (And.intro hoffered hpersisted)) hprocess
    exact hpost.2.2

end Calls

/-!
# The stored chain as heights
-/

section Heights

variable {P : Platform} {D : Block -> Prop} {g : ChainState}

theorem Represents.blocks_cons (hg : Represents P D g) :
    exists above, g.blocks = genesisBlock :: above := by
  have hlast := hg.chain.getLast_eq
  rw [List.getLast?_reverse] at hlast
  cases hblocks : g.blocks with
  | nil =>
      rw [hblocks] at hlast
      cases hlast
  | cons b above =>
      rw [hblocks, List.head?_cons] at hlast
      exact ⟨above, by rw [Option.some.inj hlast]; rfl⟩

/-- The heights of the chain, in order. -/
theorem Represents.heights_eq (hg : Represents P D g) {tip : Block}
    (htip : g.blocks.getLast? = some tip) :
    heightRange 0 tip.header.number = g.blocks.map fun blk => blk.header.number := by
  have hlength : tip.header.number.toNat + 1 = g.blocks.length := by
    rcases List.getLast?_eq_some_iff.mp htip with ⟨below, hblocks⟩
    have hat : g.blocks[below.length]? = some tip := by
      rw [hblocks]
      simp
    rw [hg.number_of_getElem? hat, hblocks]
    simp
  have hlt := hg.length_lt
  refine List.ext_getElem? ?_
  intro i
  unfold heightRange
  rw [List.getElem?_map, List.getElem?_map]
  by_cases hi : i < g.blocks.length
  · have hzero : (0 : UInt64).toNat = 0 := rfl
    rw [List.getElem?_range (by omega), List.getElem?_eq_getElem hi]
    have hnumber := hg.number_of_getElem? (List.getElem?_eq_getElem hi)
    rw [Option.map_some, Option.map_some, hzero, Nat.zero_add]
    congr 1
    rw [← UInt64.toNat_inj, hnumber, UInt64.toNat_ofNat']
    exact Nat.mod_eq_of_lt (by unfold u64Bound at hlt; omega)
  · have hzero : (0 : UInt64).toNat = 0 := rfl
    rw [List.getElem?_eq_none (by rw [List.length_range, hzero]; omega),
      List.getElem?_eq_none (by omega)]
    rfl

theorem StoredBlock.load {db : Db} {blk : Block} (h : StoredBlock db blk) :
    loadCanonicalBlock db blk.header.number = .ok (blk.hash, blk) := by
  unfold loadCanonicalBlock loadHeightIndex
  rw [h.height]
  simp only [bind, Except.bind]
  unfold loadBlock
  rw [h.block]

theorem StoredBlock.require {db : Db} {blk : Block} (h : StoredBlock db blk) :
    requireCanonicalBlock db blk.header.number = .ok (blk.hash, blk) := by
  unfold requireCanonicalBlock
  rw [h.load]
  simp

theorem mapM_requireCanonicalBlock {db : Db} {chain : List Block}
    (h : forall blk, blk ∈ chain -> StoredBlock db blk) :
    (chain.map fun blk => blk.header.number).mapM (requireCanonicalBlock db) =
      .ok (chain.map fun blk => (blk.hash, blk)) := by
  induction chain with
  | nil => rfl
  | cons blk rest ih =>
      rw [List.map_cons, List.mapM_cons, (h blk List.mem_cons_self).require,
        ih fun b hb => h b (List.mem_cons_of_mem _ hb)]
      rfl

end Heights

/-!
# Chains read back
-/

/-- A chain state that holds one chain and nothing else. -/
structure ChainOnly (P : Platform) (g : ChainState) (chain : List Block) : Prop where
  blocks : g.blocks = chain
  canonIndex : g.canonIndex = chain.foldl (fun m b => m.insert b.hash b.header.number) ∅
  seenBlocks : g.seenBlocks = chain.foldl (fun m b => m.insert b.hash) ∅
  works : segmentWork P 0 ∅ chain = .ok g.cumulativeWork
  sideBlocks : g.sideBlocks = ∅
  pool : g.orphanPool = ∅

theorem foldlM_reloadBlock {P : Platform} {chain : List Block} {g g' : ChainState}
    {cw cw' : Nat}
    (hrun : (chain.map fun blk => blk.header.number).foldlM (reloadBlock P) (g, cw) =
      .ok (g', cw'))
    (hload : forall blk, blk ∈ chain -> StoredBlock g.db blk) :
    exists works, segmentWork P cw g.cumulativeWork chain = .ok works ∧
      g' =
        { g with
          seenBlocks := chain.foldl (fun m b => m.insert b.hash) g.seenBlocks
          canonIndex := chain.foldl (fun m b => m.insert b.hash b.header.number) g.canonIndex
          cumulativeWork := works
          blocks := g.blocks ++ chain } := by
  induction chain generalizing g cw with
  | nil =>
      rw [List.map_nil, List.foldlM_nil] at hrun
      cases Except.ok.inj hrun
      exact ⟨_, rfl, by simp⟩
  | cons blk rest ih =>
      rw [List.map_cons, List.foldlM_cons] at hrun
      rcases bind_eq_ok.mp hrun with ⟨⟨g₁, cw₁⟩, hstep, hrest⟩
      unfold reloadBlock at hstep
      dsimp only at hstep
      rw [(hload blk List.mem_cons_self).load] at hstep
      rcases bind_eq_ok.mp hstep with ⟨cumulative, hadd, hnext⟩
      cases Except.ok.inj hnext
      rcases ih hrest (fun b hb => hload b (List.mem_cons_of_mem _ hb)) with
        ⟨works, hworks, hg'⟩
      refine ⟨works, bind_eq_ok.mpr ⟨_, liftFault_eq_ok.mp hadd, hworks⟩, ?_⟩
      rw [hg']
      simp

theorem foldlM_indexBlock {P : Platform} {chain : List Block} {g g' : ChainState}
    {cw cw' : Nat} (hrun : chain.foldlM (indexBlock P) (g, cw) = .ok (g', cw')) :
    exists works, segmentWork P cw g.cumulativeWork chain = .ok works ∧
      g' =
        { g with
          seenBlocks := chain.foldl (fun m b => m.insert b.hash) g.seenBlocks
          canonIndex := chain.foldl (fun m b => m.insert b.hash b.header.number) g.canonIndex
          cumulativeWork := works } := by
  induction chain generalizing g cw with
  | nil =>
      rw [List.foldlM_nil] at hrun
      cases Except.ok.inj hrun
      exact ⟨_, rfl, rfl⟩
  | cons blk rest ih =>
      rw [List.foldlM_cons] at hrun
      rcases bind_eq_ok.mp hrun with ⟨⟨g₁, cw₁⟩, hstep, hrest⟩
      rcases bind_eq_ok.mp hstep with ⟨cw₂, hadd, hnext⟩
      cases Except.ok.inj hnext
      rcases ih hrest with ⟨works, hworks, hg'⟩
      exact ⟨works, bind_eq_ok.mpr ⟨_, hadd, hworks⟩, hg'⟩

namespace ChainOnly

variable {P : Platform} {D : Block -> Prop} {g g' : ChainState} {chain : List Block}

theorem index (h : ChainOnly P g chain) (hnodup : (chain.map Block.hash).Nodup) (hash : String)
    (n : UInt64) : g.canonIndex[hash]? = some n ↔
      exists blk, blk ∈ g.blocks ∧ blk.hash = hash ∧ blk.header.number = n := by
  rw [h.canonIndex, h.blocks]
  constructor
  · intro hslot
    by_cases hmem : hash ∈ chain.map Block.hash
    · rcases List.mem_map.mp hmem with ⟨blk, hblk, rfl⟩
      rw [getElem?_foldl_insert_of_mem Block.hash (fun b => b.header.number) _ _ hnodup hblk]
        at hslot
      exact ⟨blk, hblk, rfl, Option.some.inj hslot⟩
    · rw [getElem?_foldl_insert_of_not_mem Block.hash _ _ _ hmem] at hslot
      simp at hslot
  · rintro ⟨blk, hblk, rfl, rfl⟩
    exact getElem?_foldl_insert_of_mem Block.hash (fun b => b.header.number) _ _ hnodup hblk

theorem mem_seen (h : ChainOnly P g chain) {hash : String} :
    hash ∈ g.seenBlocks ↔ exists blk, blk ∈ chain ∧ blk.hash = hash := by
  rw [h.seenBlocks, mem_foldl_insert_set Block.hash]
  simp

/-- Reading back a path of a represented chain gives a represented chain. -/
theorem resolve (h : ChainOnly P g chain) (hg' : Represents P D g')
    (hl : KnownPath g' chain.reverse) {hash : String} {blk : Block} :
    resolveBlock g hash = some blk ↔ blk ∈ chain ∧ blk.hash = hash := by
  have hnodup : (chain.map Block.hash).Nodup := by
    have hnames := hl.nodup_names
    rwa [List.map_reverse, List.nodup_reverse] at hnames
  have hat : forall b, b ∈ chain -> chain[b.header.number.toNat]? = some b := by
    intro b hb
    have hreverse := hg'.getElem?_reverse hl (List.mem_reverse.mpr hb)
    rwa [List.reverse_reverse] at hreverse
  unfold resolveBlock
  constructor
  · intro hknown
    cases hslot : g.canonIndex[hash]? with
    | none =>
        rw [hslot, h.sideBlocks] at hknown
        simp at hknown
    | some n =>
        rw [hslot] at hknown
        rcases (h.index hnodup hash n).mp hslot with ⟨b, hb, hname, rfl⟩
        rw [h.blocks] at hb hknown
        dsimp only at hknown
        rw [hat b hb] at hknown
        rw [← Option.some.inj hknown]
        exact ⟨hb, hname⟩
  · rintro ⟨hblk, rfl⟩
    have hslot := (h.index hnodup blk.hash blk.header.number).mpr
      ⟨blk, h.blocks.symm ▸ hblk, rfl, rfl⟩
    rw [hslot, h.blocks]
    exact hat blk hblk

/-- Every path of the state read back is a path of the original. -/
theorem knownPath (h : ChainOnly P g chain) (hg' : Represents P D g')
    (hl : KnownPath g' chain.reverse) {l : List Block} (hpath : KnownPath g l) :
    KnownPath g' l := by
  refine hpath.mono ?_
  intro hash blk hknown
  rcases (h.resolve hg' hl).mp hknown with ⟨hblk, rfl⟩
  exact hl.lookup (List.mem_reverse.mpr hblk)

theorem represents (h : ChainOnly P g chain) (hg' : Represents P D g')
    (hl : KnownPath g' chain.reverse) : Represents P D g := by
  have hnodup : (chain.map Block.hash).Nodup := by
    have hnames := hl.nodup_names
    rwa [List.map_reverse, List.nodup_reverse] at hnames
  have hresolve : forall {hash blk}, resolveBlock g hash = some blk ->
      resolveBlock g' hash = some blk := by
    intro hash blk hknown
    rcases (h.resolve hg' hl).mp hknown with ⟨hblk, rfl⟩
    exact hl.lookup (List.mem_reverse.mpr hblk)
  have hstored : forall b, b ∈ chain -> resolveBlock g b.hash = some b :=
    fun b hb => (h.resolve hg' hl).mpr ⟨hb, rfl⟩
  constructor
  · rw [h.blocks]
    exact hl.transfer fun x hx => hstored x (List.mem_reverse.mp hx)
  · constructor
    · intro hash blk hknown
      exact ((h.resolve hg' hl).mp hknown).2
    · intro hash blk hknown
      rcases (h.resolve hg' hl).mp hknown with ⟨hblk, _⟩
      rcases List.append_of_mem (List.mem_reverse.mpr hblk) with ⟨s, t, hsplit⟩
      have hsuffix := hl
      rw [hsplit] at hsuffix
      refine ⟨t, hsuffix.suffix.transfer fun x hx => hstored x ?_⟩
      have hmem : x ∈ chain.reverse := by
        rw [hsplit]
        exact List.mem_append_right _ hx
      exact List.mem_reverse.mp hmem
  · exact h.index hnodup
  · intro hash _
    simp [h.sideBlocks]
  · intro blk parent rest hpath
    exact hg'.linked (h.knownPath hg' hl hpath)
  · intro hash blk hknown
    exact hg'.timely (hresolve hknown)
  · intro hash blk hknown
    exact hg'.candidate (hresolve hknown)
  · intro hash hseen
    rcases h.mem_seen.mp hseen with ⟨blk, hblk, rfl⟩
    rw [hstored blk hblk]
    simp
  · intro hash blk hknown
    exact Or.inl (h.mem_seen.mpr ⟨blk, (h.resolve hg' hl).mp hknown⟩)
  · exact Or.inl (h.mem_seen.mpr ⟨genesisBlock, List.mem_reverse.mp hl.root_mem, rfl⟩)
  · rintro key entry ⟨waiting, hslot, _⟩
    rw [h.pool] at hslot
    simp at hslot

theorem workKnown (h : ChainOnly P g chain) (hg' : Represents P D g')
    (hl : KnownPath g' chain.reverse) : WorkKnown g := by
  intro hash hmem
  by_cases hchain : hash ∈ chain.map Block.hash
  · rcases List.mem_map.mp hchain with ⟨blk, hblk, rfl⟩
    rw [(h.resolve hg' hl).mpr ⟨hblk, rfl⟩]
    simp
  · rw [ExtTreeMap.mem_iff_isSome_getElem?, segmentWork_of_not_mem h.works hchain] at hmem
    simp at hmem

theorem exactWork (h : ChainOnly P g chain) (hg' : Represents P D g')
    (hl : KnownPath g' chain.reverse) : ExactWork g := by
  refine ⟨?_, h.workKnown hg' hl⟩
  intro blk rest hpath
  have hpath' := h.knownPath hg' hl hpath
  have hblk := ((h.resolve hg' hl).mp (hpath.lookup List.mem_cons_self)).1
  rcases List.append_of_mem hblk with ⟨older, newer, rfl⟩
  have hbound : 0 + lineWork (older ++ blk :: newer) < u128Bound := by
    rw [Nat.zero_add, ← lineWork_reverse]
    cases hreverse : (older ++ blk :: newer).reverse with
    | nil => simp at hreverse
    | cons tip below =>
        rw [hreverse] at hl
        have hlt := hg'.lineWork_lt hl
        omega
  have hnodup : ((older ++ blk :: newer).map Block.hash).Nodup := by
    have hnames := hl.nodup_names
    rwa [List.map_reverse, List.nodup_reverse] at hnames
  rw [segmentWork_of_mem h.works hnodup hbound]
  have hsuffix : KnownPath g' (blk :: older.reverse) := by
    have hsplit := hl
    rw [List.reverse_append, List.reverse_cons, List.append_assoc] at hsplit
    exact hsplit.suffix
  rw [hpath'.unique hsuffix rfl, lineWork_cons, lineWork_reverse, Nat.zero_add, Nat.add_comm]

end ChainOnly

/-!
# Opening the database
-/

section Restart

variable {P : Platform} {D : Block -> Prop} {g g' : ChainState} {host host' : Host}

/-- The state that a stored chain is read into. -/
def loadedChain (db : Db) (chain : List Block) (works : ExtTreeMap String Nat) : ChainState :=
  { ChainState.empty db with
    seenBlocks := chain.foldl (fun m b => m.insert b.hash) ∅
    canonIndex := chain.foldl (fun m b => m.insert b.hash b.header.number) ∅
    cumulativeWork := works
    blocks := [] ++ chain }

theorem openWithGenesis_eq (hdurable : Durable P D g)
    (hrun : openWithGenesis P g.db = .ok g') :
    exists works, segmentWork P 0 ∅ g.blocks = .ok works ∧ g' = loadedChain g.db g.blocks works := by
  rcases hdurable.persisted.tip with ⟨tip, hlast, htip⟩
  have hload : loadCanonChain P (ChainState.empty g.db) = .ok g' := mapErr_eq_ok.mp hrun
  unfold loadCanonChain loadTipHeight at hload
  have hget : (ChainState.empty g.db).db.get .tipHeight = some (.number tip.header.number) := htip
  rw [hget] at hload
  dsimp only at hload
  rw [hdurable.represents.heights_eq hlast] at hload
  rcases bind_eq_ok.mp hload with ⟨⟨loaded, cw⟩, hfold, hfinal⟩
  cases Except.ok.inj hfinal
  exact foldlM_reloadBlock hfold hdurable.persisted.entries

theorem openWithGenesis_ok (hdurable : Durable P D g)
    (hrun : openWithGenesis P g.db = .ok g') : ChainOnly P g' g.blocks ∧ g'.db = g.db := by
  rcases openWithGenesis_eq hdurable hrun with ⟨works, hworks, rfl⟩
  exact ⟨⟨rfl, rfl, rfl, hworks, rfl, rfl⟩, rfl⟩

/-- Opening reads no account. -/
theorem openWithGenesis_accounts (hdurable : Durable P D g)
    (hrun : openWithGenesis P g.db = .ok g') : g'.balances = ∅ ∧ g'.nonces = ∅ := by
  rcases openWithGenesis_eq hdurable hrun with ⟨works, _, rfl⟩
  exact ⟨rfl, rfl⟩

theorem bootstrapChain_marked (hmarked : g.db.get .genesisHash = some (.text genesisHash))
    (hrun : bootstrapChain P host g = .ok (g', host')) : g' = g ∧ host' = host := by
  unfold bootstrapChain loadGenesisHash at hrun
  split at hrun
  · cases hrun
  · rw [hmarked] at hrun
    simp [verifyStoredGenesis] at hrun
    exact ⟨hrun.1.symm, hrun.2.symm⟩

/-!
# The newest snapshot
-/

theorem mem_heightRange_le {first last height : UInt64} (h : height ∈ heightRange first last) :
    height.toNat ≤ last.toNat := by
  unfold heightRange at h
  rcases List.mem_map.mp h with ⟨i, hi, rfl⟩
  rw [List.mem_range] at hi
  rw [UInt64.toNat_ofNat']
  have hmod := Nat.mod_le (first.toNat + i) (2 ^ 64)
  omega

theorem mem_heightRange_of_le {first last height : UInt64} (hfirst : first.toNat ≤ height.toNat)
    (hlast : height.toNat ≤ last.toNat) : height ∈ heightRange first last := by
  unfold heightRange
  apply List.mem_map.mpr
  refine ⟨height.toNat - first.toNat, List.mem_range.mpr (by omega), ?_⟩
  rw [Nat.add_sub_cancel' hfirst, UInt64.ofNat_toNat]

theorem restoreFirst_ok {maxHeight height : UInt64} {heights : List UInt64}
    (hrun : restoreFirst P g maxHeight heights = .ok (g', height)) :
    height ∈ heights ∧ restoreSnapshotAt P g height = .ok g' := by
  induction heights with
  | nil => cases hrun
  | cons h rest ih =>
      unfold restoreFirst at hrun
      cases hrestore : restoreSnapshotAt P g h with
      | ok restored =>
          rw [hrestore] at hrun
          cases hrun
          exact ⟨List.mem_cons_self, hrestore⟩
      | error stop =>
          rw [hrestore] at hrun
          cases stop with
          | fault f => cases hrun
          | err e =>
              rcases ih hrun with ⟨hmem, hok⟩
              exact ⟨List.mem_cons_of_mem _ hmem, hok⟩

/-- The state that a restore leaves. -/
def restoredChain (g : ChainState) (height keep : UInt64) (state : TxExecutionState)
    (root : String) (works : ExtTreeMap String Nat) : ChainState :=
  let kept := g.blocks.take keep.toNat
  { g with
    balances := state.balances
    nonces := state.nonces
    blocks := kept
    seenBlocks := kept.foldl (fun m b => m.insert b.hash) ∅
    canonIndex := kept.foldl (fun m b => m.insert b.hash b.header.number) ∅
    cumulativeWork := works
    cachedStateRoot := some (height, root) }

theorem restoreSnapshotAt_eq {height : UInt64} (hrun : restoreSnapshotAt P g height = .ok g') :
    exists state root keep works, loadSnapshot P g.db height = .ok (state, root) ∧
      addU64 P height 1 = .ok keep ∧
      segmentWork P 0 ∅ (g.blocks.take keep.toNat) = .ok works ∧
      g' = restoredChain g height keep state root works := by
  unfold restoreSnapshotAt at hrun
  split at hrun
  · cases hrun
  · rename_i state root hload
    rcases bind_eq_ok.mp hrun with ⟨keep, hkeep, hrun⟩
    rcases bind_eq_ok.mp hrun with ⟨restored, hrebuild, hfinal⟩
    cases Except.ok.inj hfinal
    rcases bind_eq_ok.mp (liftFault_eq_ok.mp hrebuild) with ⟨⟨indexed, cw⟩, hfold, hindexed⟩
    cases Except.ok.inj hindexed
    rcases foldlM_indexBlock hfold with ⟨works, hworks, hg'⟩
    subst hg'
    exact ⟨state, root, keep, works, hload, liftFault_eq_ok.mp hkeep, hworks, rfl⟩

theorem restoreSnapshotAt_ok {height : UInt64} (hside : g.sideBlocks = ∅)
    (hpool : g.orphanPool = ∅) (hheight : height.toNat + 1 < u64Bound)
    (hrun : restoreSnapshotAt P g height = .ok g') :
    ChainOnly P g' (g.blocks.take (height.toNat + 1)) ∧ g'.db = g.db := by
  rcases restoreSnapshotAt_eq hrun with ⟨state, root, keep, works, _, hkeep, hworks, rfl⟩
  rw [← addU64_one_toNat (Nat.lt_succ_self _) hheight hkeep]
  exact ⟨⟨rfl, rfl, rfl, hworks, hside, hpool⟩, rfl⟩

end Restart

/-!
# Replay of stored blocks
-/

section Replay

variable {P : Platform} {D : Block -> Prop} {g g' : ChainState} {host host' : Host}

theorem Recovering.refresh (h : Recovering P D g) :
    Recovering P D g.refreshCachedStateRootFromTip :=
  ⟨h.represents.congr rfl rfl rfl rfl h.represents.waiting, h.entries, h.archive,
    h.exact.congr rfl rfl⟩

theorem Persisted.refresh (h : Persisted g) : Persisted g.refreshCachedStateRootFromTip :=
  ⟨h.entries, h.tip⟩

theorem Recovering.durable (h : Recovering P D g) (hpersisted : Persisted g) : Durable P D g :=
  ⟨h.represents, hpersisted, h.archive⟩

/-- A replayed block keeps the representation and stores the tip. -/
theorem replayStoredBlock_ok (hnumbered : NumberedFrom P D) (h : Recovering P D g)
    {height : UInt64} {hash : String} {blk : Block} (hD : D blk)
    (hrun : replayStoredBlock P (g, host) height hash blk = .ok (g', host')) :
    Recovering P D g' ∧ Persisted g' := by
  rcases bind_eq_ok.mp hrun with ⟨applied, happlied, hfinal⟩
  split at hfinal
  · rename_i hresult
    cases Except.ok.inj hfinal
    have happlied' := liftFault_eq_ok.mp happlied
    exact ⟨(h.applyBlock hnumbered hD happlied').refresh,
      (applyBlock_persisted hnumbered h.represents h.entries hD happlied' hresult).refresh⟩
  · cases hfinal

theorem requireCanonicalBlock_ok {db : Db} {height : UInt64} {hash : String} {blk : Block}
    (hrun : requireCanonicalBlock db height = .ok (hash, blk)) :
    blk.header.number = height ∧ db.get (.block hash) = some (.block blk) := by
  unfold requireCanonicalBlock at hrun
  split at hrun
  · cases hrun
  · rename_i loadedHash loadedBlock hload
    split at hrun
    · cases hrun
    · rename_i hnumber
      cases hrun
      refine ⟨not_not.mp hnumber, ?_⟩
      rcases bind_eq_ok.mp hload with ⟨index, _, hload⟩
      cases index with
      | none => cases hload
      | some indexHash =>
          rcases bind_eq_ok.mp hload with ⟨stored, hstored, hload⟩
          cases stored with
          | none => cases hload
          | some storedBlock =>
              cases hload
              unfold loadBlock at hstored
              split at hstored
              · cases hstored
              · rename_i hget
                cases hstored
                exact hget
              · cases hstored

theorem Archive.delivered {db : Db} {hash : String} {blk : Block} (h : Archive P D db)
    (hget : db.get (.block hash) = some (.block blk)) (hnumber : 1 ≤ blk.header.number.toNat) :
    D blk := by
  rcases h.candidate hget with hgenesis | hD
  · rw [hgenesis] at hnumber
    exact absurd hnumber (by decide)
  · exact hD.1

theorem replayStoredHeight_ok (hnumbered : NumberedFrom P D) (h : Recovering P D g)
    {height : UInt64} (hheight : 1 ≤ height.toNat)
    (hrun : replayStoredHeight P (g, host) height = .ok (g', host')) :
    Recovering P D g' ∧ Persisted g' := by
  unfold replayStoredHeight at hrun
  split at hrun
  · cases hrun
  · rename_i hash blk hrequire
    rcases requireCanonicalBlock_ok hrequire with ⟨hnumber, hget⟩
    exact replayStoredBlock_ok hnumbered h
      (h.archive.delivered hget (by rw [hnumber]; exact hheight)) hrun

/-- A fold of replays that replays something ends with the tip stored. -/
theorem replayed_foldlM {α : Type}
    {f : ChainState × Host -> α -> Except (Stop StartupError) (ChainState × Host)} {xs : List α}
    (hf : forall g host x g' host', x ∈ xs -> Recovering P D g -> f (g, host) x = .ok (g', host') ->
      Recovering P D g' ∧ Persisted g')
    (h : Recovering P D g) (hstored : xs = [] -> Persisted g)
    (hrun : xs.foldlM f (g, host) = .ok (g', host')) : Recovering P D g' ∧ Persisted g' := by
  cases xs with
  | nil =>
      rw [List.foldlM_nil] at hrun
      cases Except.ok.inj hrun
      exact ⟨h, hstored rfl⟩
  | cons x rest =>
      rw [List.foldlM_cons] at hrun
      rcases bind_eq_ok.mp hrun with ⟨⟨g₁, host₁⟩, hfirst, hrest⟩
      refine foldlM_induction (I := fun entry : ChainState × Host =>
        Recovering P D entry.1 ∧ Persisted entry.1) ?_
        (hf g host x g₁ host₁ List.mem_cons_self h hfirst) hrest
      rintro ⟨g₂, host₂⟩ y ⟨g₃, host₃⟩ hy hpre hstep
      exact hf g₂ host₂ y g₃ host₃ (List.mem_cons_of_mem _ hy) hpre.1 hstep

end Replay

/-!
# The recovery paths
-/

section Recover

variable {P : Platform} {D : Block -> Prop} {g g' : ChainState} {host host' : Host}

/-- A state that a stored chain has been read into, with nothing beside it. -/
structure Reopened (P : Platform) (D : Block -> Prop) (g : ChainState) : Prop where
  recovering : Recovering P D g
  persisted : Persisted g
  sideBlocks : g.sideBlocks = ∅
  pool : g.orphanPool = ∅

theorem Represents.tip_number (hg : Represents P D g) {tip : Block}
    (htip : g.blocks.getLast? = some tip) : g.blocks.length = tip.header.number.toNat + 1 := by
  rcases List.getLast?_eq_some_iff.mp htip with ⟨below, hblocks⟩
  have hat : g.blocks[below.length]? = some tip := by
    rw [hblocks]
    simp
  rw [hg.number_of_getElem? hat, hblocks]
  simp

theorem Represents.blocks_length (hg : Represents P D g) :
    g.blocks.length = g.currentHeight.toNat + 1 := by
  cases hlast : g.blocks.getLast? with
  | none =>
      rcases hg.blocks_cons with ⟨above, hblocks⟩
      rw [hblocks, List.getLast?_cons] at hlast
      cases hlast
  | some tip => rw [hg.tip_number hlast, ChainState.currentHeight_of_last hlast]

/-- The canonical blocks up to a height are a path. -/
theorem Represents.canonical_prefix (hg : Represents P D g) {height : UInt64}
    (hheight : height.toNat ≤ g.currentHeight.toNat) :
    KnownPath g (g.blocks.take (height.toNat + 1)).reverse ∧ height.toNat < g.blocks.length := by
  have hlength := hg.blocks_length
  have hindex : height.toNat < g.blocks.length := by omega
  have hpath := hg.canonical_path (List.getElem_mem hindex)
  rw [hg.number_of_getElem? (List.getElem?_eq_getElem hindex)] at hpath
  exact ⟨hpath, hindex⟩

theorem Reopened.requireTipHeight (h : Reopened P D g) :
    requireTipHeight g.db = .ok g.currentHeight := by
  rcases h.persisted.tip with ⟨tip, hlast, htip⟩
  unfold VisionCore.requireTipHeight loadTipHeight ChainState.currentHeight
  rw [htip, hlast]

theorem Reopened.restored (h : Reopened P D g) {height : UInt64}
    (hheight : height.toNat ≤ g.currentHeight.toNat)
    (hrun : restoreSnapshotAt P g height = .ok g') :
    Recovering P D g' ∧ g'.db = g.db ∧ g'.blocks = g.blocks.take (height.toNat + 1) := by
  have hg := h.recovering.represents
  have hlt := hg.length_lt
  rcases hg.canonical_prefix hheight with ⟨hpath, hindex⟩
  rcases restoreSnapshotAt_ok h.sideBlocks h.pool (by omega) hrun with ⟨honly, hdb⟩
  refine ⟨⟨honly.represents hg hpath, ?_, hdb ▸ h.recovering.archive, honly.exactWork hg hpath⟩,
    hdb, honly.blocks⟩
  intro blk hblk
  rw [honly.blocks] at hblk
  rw [hdb]
  exact h.recovering.entries blk (List.mem_of_mem_take hblk)

theorem Reopened.replay_ok (hnumbered : NumberedFrom P D) (h : Reopened P D g)
    {restored : ChainState} {height : UInt64}
    (hheight : height.toNat ≤ g.currentHeight.toNat)
    (hrestore : restoreSnapshotAt P g height = .ok restored)
    (hrun : replayStoredCanonicalTail P host restored height = .ok (g', host')) :
    Recovering P D g' ∧ Persisted g' := by
  rcases h.restored hheight hrestore with ⟨hrecovering, hdb, hblocks⟩
  unfold replayStoredCanonicalTail at hrun
  rw [hdb, h.requireTipHeight] at hrun
  dsimp only at hrun
  split at hrun
  · rename_i hle
    cases hrun
    have hpersisted : Persisted restored := by
      rcases h.persisted.tip with ⟨tip, hlast, htip⟩
      have hlength := h.recovering.represents.tip_number hlast
      have hcurrent := ChainState.currentHeight_of_last hlast
      rw [hcurrent, UInt64.le_iff_toNat_le] at hle
      have hall : restored.blocks = g.blocks := by
        rw [hblocks]
        exact List.take_of_length_le (by omega)
      refine ⟨hrecovering.entries, tip, hall ▸ hlast, hdb ▸ htip⟩
    exact ⟨hrecovering.refresh, hpersisted.refresh⟩
  · rename_i hlt
    rcases bind_eq_ok.mp hrun with ⟨first, hfirst, hfold⟩
    have hlt' : height.toNat < g.currentHeight.toNat := by
      rw [UInt64.le_iff_toNat_le] at hlt
      omega
    have hbound : g.currentHeight.toNat < u64Bound := g.currentHeight.toNat_lt
    have hfirst' := addU64_one_toNat hlt' hbound (liftFault_eq_ok.mp hfirst)
    refine replayed_foldlM ?_ hrecovering ?_ hfold
    · intro g₁ host₁ x g₂ host₂ hx hpre hstep
      have hge := mem_heightRange hx
      exact replayStoredHeight_ok hnumbered hpre (by omega) hstep
    · intro hnil
      have hlen := congrArg List.length hnil
      simp only [heightRange, List.length_map, List.length_range, List.length_nil] at hlen
      omega

/-- The first block of a rebuild is genesis, on an empty chain. -/
theorem rebuilt_genesis (hside : g.sideBlocks = ∅) (hpool : g.orphanPool = ∅)
    (harchive : Archive P D g.db)
    (hrun : replayStoredBlock P (clearedForRebuild g, host) genesisBlock.header.number
      genesisBlock.hash genesisBlock = .ok (g', host')) :
    Recovering P D g' ∧ Persisted g' := by
  rcases bind_eq_ok.mp hrun with ⟨applied, happlied, hfinal⟩
  split at hfinal
  · rename_i hresult
    cases Except.ok.inj hfinal
    have hchain := applyBlock_genesis (liftFault_eq_ok.mp happlied) hresult
    have honly : GenesisOnly applied.chain := by
      rw [hchain]
      exact genesisOnly_genesisApplied rfl rfl hside rfl hpool
    have hdb : applied.chain.db = g.db.applyBatch (tipBatch genesisBlock) := by
      rw [hchain]
      rfl
    have hrepresents : Represents P D applied.chain := by
      refine honly.represents (Or.inl ?_)
      rw [hchain]
      exact genesisApplied_seen _
    have hentries : StoredEntries applied.chain := by
      intro blk hblk
      rw [honly.blocks, List.mem_singleton] at hblk
      rw [hblk, hdb]
      exact tipBatch_storedBlock g.db genesisBlock
    have hexact : ExactWork applied.chain := by
      refine honly.exactWork ?_
      rw [hchain]
      rfl
    have hrecovering : Recovering P D applied.chain :=
      ⟨hrepresents, hentries, hdb ▸ harchive.tipBatch (Or.inl rfl), hexact⟩
    have hpersisted : Persisted applied.chain :=
      ⟨hentries, genesisBlock, by rw [honly.blocks]; rfl, by
        rw [hdb]
        exact tipBatch_tipHeight g.db genesisBlock⟩
    exact ⟨hrecovering.refresh, hpersisted.refresh⟩
  · cases hfinal

theorem Reopened.blocks_delivered (h : Reopened P D g) {above : List Block}
    (habove : g.blocks = genesisBlock :: above) {blk : Block} (hblk : blk ∈ above) : D blk := by
  have hmem : blk ∈ g.blocks := habove.symm ▸ List.mem_cons_of_mem _ hblk
  have hnumber : 1 ≤ blk.header.number.toNat := by
    rcases List.getElem?_of_mem hblk with ⟨i, hi⟩
    have hat : g.blocks[i + 1]? = some blk := by
      rw [habove]
      exact hi
    rw [h.recovering.represents.number_of_getElem? hat]
    omega
  exact h.recovering.archive.delivered (h.recovering.entries blk hmem).block hnumber

/-- A rebuild applies the blocks of the chain in order, genesis first. -/
theorem Reopened.rebuild_eq (h : Reopened P D g) {above : List Block}
    (habove : g.blocks = genesisBlock :: above) :
    rebuildCanonicalStateFromGenesis P host g =
      (genesisBlock :: above).foldlM
        (fun entry blk => replayStoredBlock P entry blk.header.number blk.hash blk)
        (clearedForRebuild g, host) := by
  have hg := h.recovering.represents
  rcases h.persisted.tip with ⟨tip, hlast, _⟩
  have hcurrent := ChainState.currentHeight_of_last hlast
  have hblocks : g.blocks.map (Prod.snd ∘ fun blk => (blk.hash, blk)) = g.blocks := by
    simp [Function.comp_def]
  unfold rebuildCanonicalStateFromGenesis
  rw [h.requireTipHeight]
  dsimp only
  rw [hcurrent, hg.heights_eq hlast, mapM_requireCanonicalBlock h.recovering.entries]
  dsimp only
  rw [List.map_map, hblocks, habove]

theorem Reopened.rebuild_ok (hnumbered : NumberedFrom P D) (h : Reopened P D g)
    (hrun : rebuildCanonicalStateFromGenesis P host g = .ok (g', host')) :
    Recovering P D g' ∧ Persisted g' := by
  rcases h.recovering.represents.blocks_cons with ⟨above, habove⟩
  rw [h.rebuild_eq habove, List.foldlM_cons] at hrun
  rcases bind_eq_ok.mp hrun with ⟨⟨g₁, host₁⟩, hfirst, hrest⟩
  have hstart := rebuilt_genesis h.sideBlocks h.pool h.recovering.archive hfirst
  refine replayed_foldlM ?_ hstart.1 (fun _ => hstart.2) hrest
  intro g₂ host₂ blk g₃ host₃ hblk hpre hstep
  exact replayStoredBlock_ok hnumbered hpre (h.blocks_delivered habove hblk) hstep

theorem Reopened.recoverAccountState_ok (hnumbered : NumberedFrom P D) (h : Reopened P D g)
    (hrun : recoverAccountState P host g = .ok (g', host')) :
    Recovering P D g' ∧ Persisted g' := by
  unfold recoverAccountState at hrun
  split at hrun
  · rename_i restored height hrestore
    rcases restoreFirst_ok hrestore with ⟨hmem, hat⟩
    have hrange := List.mem_reverse.mp (List.mem_filter.mp hmem).1
    exact h.replay_ok hnumbered (mem_heightRange_le hrange) hat hrun
  · cases hrun
  · split at hrun
    · exact h.rebuild_ok hnumbered hrun
    · cases hrun
      exact ⟨h.recovering, h.persisted⟩

/-- The stored chain of a running node, read back. -/
theorem Durable.reopened {opened : ChainState} (hdurable : Durable P D g)
    (hopened : openWithGenesis P g.db = .ok opened) :
    Reopened P D opened.refreshCachedStateRootFromTip := by
  rcases openWithGenesis_ok hdurable hopened with ⟨honly, hdb⟩
  have hg := hdurable.represents
  have hrecovering : Recovering P D opened :=
    ⟨honly.represents hg hg.chain, by
      intro blk hblk
      rw [honly.blocks] at hblk
      exact hdb ▸ hdurable.persisted.entries blk hblk,
      hdb ▸ hdurable.archive, honly.exactWork hg hg.chain⟩
  have hpersisted : Persisted opened := by
    rcases hdurable.persisted.tip with ⟨tip, hlast, htip⟩
    exact ⟨hrecovering.entries, tip, honly.blocks.symm ▸ hlast, hdb ▸ htip⟩
  exact ⟨hrecovering.refresh, hpersisted.refresh, honly.sideBlocks, honly.pool⟩

/-- A restart on the database of a running node represents the stored chain,
with exact works. -/
theorem initializeChainState_restart (hnumbered : NumberedFrom P D) (hdurable : Durable P D g)
    (hrun : initializeChainState P host g.db = .ok (g', host')) :
    Durable P D g' ∧ ExactWork g' := by
  rcases bind_eq_ok.mp hrun with ⟨opened, hopened, hrecover⟩
  rcases openWithGenesis_ok hdurable hopened with ⟨_, hdb⟩
  split at hrecover
  · cases hrecover
  · rename_i booted hostBooted hboot
    rcases bootstrapChain_marked (hdb ▸ hdurable.archive.marked) hboot with ⟨rfl, rfl⟩
    rcases (hdurable.reopened hopened).recoverAccountState_ok hnumbered hrecover with
      ⟨hfinal, hstored⟩
    exact ⟨hfinal.durable hstored, hfinal.exact⟩

end Recover

end VisionCore
