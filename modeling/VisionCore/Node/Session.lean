import VisionCore.Chain.Totality
import VisionCore.Node.Recovery

/-!
# Sessions of a node

A node starts on an empty database or on the one that an earlier session left,
and then applies blocks.  Both starts represent a chain; only the restart
records exact works, since a fresh start leaves genesis without a work.
-/

namespace VisionCore

open Std
open Foundation

/-!
# The fresh start
-/

/-- The writes of a fresh start: genesis as the tip, and the genesis mark. -/
def freshDb : Db :=
  (Db.empty.applyBatch (tipBatch genesisBlock)).applyBatch
    [.insert .genesisHash (.text genesisHash)]

theorem freshDb_get {key : DbKey} (hkey : key ≠ .genesisHash) :
    freshDb.get key = (Db.empty.applyBatch (tipBatch genesisBlock)).get key := by
  refine Db.get_applyBatch_of_untouched ?_
  intro op hop heq
  rw [List.mem_singleton.mp hop] at heq
  exact hkey heq.symm

theorem freshDb_snapshot (height : UInt64) : freshDb.get (.snapshot height) = none := by
  rw [freshDb_get (by simp)]
  exact tipBatch_get_untouched (by simp) (by simp) (by simp) (by simp)

theorem freshDb_archive (P : Platform) (D : Block -> Prop) : Archive P D freshDb where
  candidate := by
    intro h blk hget
    rw [freshDb_get (by simp)] at hget
    rcases Db.get_applyBatch_cases hget with hempty | hmem
    · cases hempty
    · rcases mem_tipBatch.mp hmem with heq | heq | heq | heq <;> cases heq
      exact Or.inl rfl
  marked := Db.get_applyBatch_of_mem (by simp) (by simp)

theorem Host.write_ok {host host' : Host} {db db' : Db} {batch : List DbOp}
    (h : host.write db batch = (.ok (), db', host')) : db' = db.applyBatch batch := by
  have hwrite := Host.write_cases host db batch
  rw [h] at hwrite
  cases hwrite with
  | written _ => rfl

theorem freshTip_none :
    ((Db.empty.applyBatch [.insert (.block genesisBlock.hash) (.block genesisBlock)]).applyBatch
      [.insert (.height 0) (.text genesisBlock.hash)]).get .tipHeight = none := rfl

/-- The five inserts of genesis, when none fails. -/
theorem writeGenesis_ok {host host' : Host} {db : Db}
    (hrun : writeGenesis host Db.empty = (.ok (), db, host')) : db = freshDb := by
  unfold writeGenesis storeHeightIndex at hrun
  split at hrun
  · cases hrun
  · rename_i db₁ host₁ hblock
    split at hrun
    · cases hrun
    · rename_i db₂ host₂ hindex
      rw [Host.write_ok hrun]
      have hdb₁ := Host.write_ok hblock
      subst hdb₁
      split at hindex
      · cases hindex
      · rename_i db₃ host₃ hheight
        have hdb₃ := Host.write_ok hheight
        subst hdb₃
        dsimp only at hindex
        rw [freshTip_none, if_pos (by decide)] at hindex
        split at hindex
        · cases hindex
        · rename_i db₄ host₄ htipHeight
          have hdb₄ := Host.write_ok htipHeight
          subst hdb₄
          rw [Host.write_ok hindex]
          rfl

/-- The chain state of a fresh start: genesis alone, neither worked nor seen. -/
def freshChain : ChainState :=
  { ChainState.empty freshDb with
    blocks := [genesisBlock]
    canonIndex := (∅ : ExtTreeMap String UInt64).insert genesisHash 0 }

theorem snapshotHeights_freshDb (maxHeight : UInt64) : snapshotHeights freshDb maxHeight = [] := by
  unfold snapshotHeights
  rw [List.filter_eq_nil_iff]
  intro height _
  rw [freshDb_snapshot]
  simp

theorem restoreLatestSnapshot_fresh (P : Platform) :
    restoreLatestSnapshot P freshChain.refreshCachedStateRootFromTip
      freshChain.refreshCachedStateRootFromTip.currentHeight =
        .error (.err (.noSnapshot 0)) := by
  unfold restoreLatestSnapshot
  have hheights := snapshotHeights_freshDb
    freshChain.refreshCachedStateRootFromTip.currentHeight
  have hdb : freshChain.refreshCachedStateRootFromTip.db = freshDb := rfl
  rw [hdb, hheights]
  rfl

/-- At genesis there is nothing to recover. -/
theorem recoverAccountState_fresh (P : Platform) (host : Host) :
    recoverAccountState P host freshChain.refreshCachedStateRootFromTip =
      .ok (freshChain.refreshCachedStateRootFromTip, host) := by
  unfold recoverAccountState
  rw [restoreLatestSnapshot_fresh]
  rfl

theorem initializeChainState_fresh {P : Platform} {host host' : Host} {g : ChainState}
    (hrun : initializeChainState P host Db.empty = .ok (g, host')) :
    g = freshChain.refreshCachedStateRootFromTip := by
  rcases bind_eq_ok.mp hrun with ⟨opened, hopened, hrecover⟩
  have hopened' : opened = ChainState.empty Db.empty := by
    have hload := mapErr_eq_ok.mp hopened
    exact (Except.ok.inj hload).symm
  subst hopened'
  split at hrecover
  · cases hrecover
  · rename_i booted hostBooted hboot
    have hbooted : booted = freshChain := by
      unfold bootstrapChain at hboot
      split at hboot
      · cases hboot
      · have hmark : loadGenesisHash (ChainState.empty Db.empty).db = .ok none := rfl
        rw [hmark] at hboot
        dsimp only at hboot
        split at hboot
        · cases hboot
        · rename_i db hostWritten hwritten
          have hdb := writeGenesis_ok hwritten
          subst hdb
          cases hboot
          rfl
    subst hbooted
    rw [recoverAccountState_fresh] at hrecover
    cases hrecover
    rfl

theorem freshChain_only : GenesisOnly freshChain.refreshCachedStateRootFromTip where
  blocks := rfl
  index := by
    intro h n
    change ((∅ : ExtTreeMap String UInt64).insert genesisHash 0)[h]? = some n ↔ _
    rw [getElem?_insert_ite]
    by_cases hh : genesisHash = h
    · simp [hh, eq_comm]
    · have hh' : h ≠ genesisHash := fun heq => hh heq.symm
      simp [hh, hh']
  sideBlocks := rfl
  seen := by
    intro h hh
    simp [freshChain, ChainState.empty, ChainState.refreshCachedStateRootFromTip] at hh
  pool := rfl

theorem freshChain_durable {P : Platform} {D : Block -> Prop} (havoids : AvoidsGenesis P D) :
    Durable P D freshChain.refreshCachedStateRootFromTip where
  represents := freshChain_only.represents (Or.inr havoids)
  persisted := by
    refine ⟨?_, genesisBlock, rfl, ?_⟩
    · intro blk hblk
      have hgenesis : blk = genesisBlock := List.mem_singleton.mp hblk
      subst hgenesis
      exact (tipBatch_storedBlock Db.empty genesisBlock).congr (freshDb_get (by simp))
        (freshDb_get (by simp))
    · exact (freshDb_get (by simp)).trans (tipBatch_tipHeight Db.empty genesisBlock)
  archive := freshDb_archive P D

theorem freshChain_workBounded : WorkBounded freshChain.refreshCachedStateRootFromTip := by
  refine ⟨?_, fun h hmem => by
    simp [freshChain, ChainState.empty, ChainState.refreshCachedStateRootFromTip] at hmem⟩
  intro blk rest _
  have hnone : freshChain.refreshCachedStateRootFromTip.workOf blk.hash = 0 := by
    simp [freshChain, ChainState.workOf, ChainState.empty,
      ChainState.refreshCachedStateRootFromTip]
  rw [hnone]
  exact Nat.zero_le _

/-!
# Sessions
-/

/-- The databases that sessions on blocks of `D` may leave. -/
inductive SessionDb (P : Platform) (D : Block -> Prop) : Db -> Prop where
  | empty : SessionDb P D Db.empty
  | left {db : Db} {host host' : Host} {g g' : ChainState} {calls : List Call} :
      SessionDb P D db -> initializeChainState P host db = .ok (g, host') ->
      (forall call, call ∈ calls -> D call.blk) -> applyAll P g calls = .ok g' ->
      SessionDb P D g'.db

/-- The states in which a node begins to take blocks of `D`. -/
inductive Started (P : Platform) (D : Block -> Prop) : ChainState -> Prop where
  | genesis {g : ChainState} : GenesisApplied P g -> Started P D g
  | startup {db : Db} {host host' : Host} {g : ChainState} : AvoidsGenesis P D ->
      SessionDb P D db -> initializeChainState P host db = .ok (g, host') -> Started P D g

section Sessions

variable {P : Platform} {D : Block -> Prop} {db : Db} {host host' : Host} {g g' : ChainState}
  {calls : List Call}

theorem Durable.applyAll (h : Durable P D g) (hnumbered : NumberedFrom P D)
    (hcalls : forall call, call ∈ calls -> D call.blk) (hrun : applyAll P g calls = .ok g') :
    Durable P D g' := by
  have hpost := ((stepInvariant_persisted P D).and (stepInvariant_archive P D)).applyAll
    (J := fun g => Persisted g ∧ Archive P D g.db) hnumbered h.represents
    ⟨h.persisted, h.archive⟩ hcalls hrun
  exact ⟨hpost.1, hpost.2.1, hpost.2.2⟩

/-- What start-up yields on the database of an earlier session. -/
theorem initializeChainState_cases (hnumbered : NumberedFrom P D)
    (hdb : db = Db.empty ∨ exists g, Durable P D g ∧ g.db = db)
    (hrun : initializeChainState P host db = .ok (g, host')) :
    (db = Db.empty ∧ g = freshChain.refreshCachedStateRootFromTip) ∨
      (db ≠ Db.empty ∧ Durable P D g ∧ ExactWork g) := by
  rcases hdb with rfl | ⟨left, hleft, rfl⟩
  · exact Or.inl ⟨rfl, initializeChainState_fresh hrun⟩
  · refine Or.inr ⟨?_, initializeChainState_restart hnumbered hleft hrun⟩
    intro hempty
    have hmarked := hleft.archive.marked
    rw [hempty] at hmarked
    cases hmarked

theorem SessionDb.durable (hnumbered : NumberedFrom P D) (havoids : AvoidsGenesis P D)
    (h : SessionDb P D db) : db = Db.empty ∨ exists g, Durable P D g ∧ g.db = db := by
  induction h with
  | empty => exact Or.inl rfl
  | left _ hstart hcalls hrun ih =>
      rcases initializeChainState_cases hnumbered ih hstart with
        ⟨_, rfl⟩ | ⟨_, hdurable, _⟩
      · exact Or.inr ⟨_, (freshChain_durable havoids).applyAll hnumbered hcalls hrun, rfl⟩
      · exact Or.inr ⟨_, hdurable.applyAll hnumbered hcalls hrun, rfl⟩

theorem Started.invariant (hnumbered : NumberedFrom P D) (h : Started P D g) :
    Represents P D g ∧ WorkBounded g := by
  cases h with
  | genesis hgenesis => exact ⟨hgenesis.represents, hgenesis.exactWork.bounded⟩
  | startup havoids hdb hstart =>
      rcases initializeChainState_cases hnumbered (hdb.durable hnumbered havoids) hstart
        with ⟨_, rfl⟩ | ⟨_, hdurable, hexact⟩
      · exact ⟨(freshChain_durable havoids).represents, freshChain_workBounded⟩
      · exact ⟨hdurable.represents, hexact.bounded⟩

theorem Started.reached (hnumbered : NumberedFrom P D) (h : Started P D g)
    (hcalls : forall call, call ∈ calls -> D call.blk) (hrun : applyAll P g calls = .ok g') :
    Represents P D g' ∧ WorkBounded g' :=
  (stepInvariant_workBounded P D).applyAll hnumbered (h.invariant hnumbered).1
    (h.invariant hnumbered).2 hcalls hrun

end Sessions

/-!
# The representation of every run
-/

/-- The documented shape of a chain state: `blocks` is a hash-linked chain from
genesis that is indexed by height, and `canonIndex` is its inverse. -/
structure ChainRepresentation (g : ChainState) : Prop where
  genesis : g.blocks[0]? = some genesisBlock
  number : forall (i : Nat) (blk : Block), g.blocks[i]? = some blk ->
    blk.header.number.toNat = i
  parent : forall (i : Nat) (blk next : Block), g.blocks[i]? = some blk ->
    g.blocks[i + 1]? = some next -> next.header.parentHash = blk.hash
  index : forall (h : String) (n : UInt64), g.canonIndex[h]? = some n ↔
    exists blk, g.blocks[n.toNat]? = some blk ∧ blk.hash = h
  apart : forall h : String, h ∈ g.canonIndex -> h ∉ g.sideBlocks

theorem Represents.parent_hash {P : Platform} {D : Block -> Prop} {g : ChainState}
    (hg : Represents P D g) {i : Nat} {blk next : Block} (hblk : g.blocks[i]? = some blk)
    (hnext : g.blocks[i + 1]? = some next) : next.header.parentHash = blk.hash := by
  have htake : g.blocks.take (i + 2) = g.blocks.take i ++ [blk, next] := by
    rw [List.take_add_one, List.take_add_one, hblk, hnext]
    simp
  have hsplit : g.blocks.reverse =
      (g.blocks.drop (i + 2)).reverse ++ next :: blk :: (g.blocks.take i).reverse := by
    conv_lhs => rw [← List.take_append_drop (i + 2) g.blocks, htake]
    simp
  have hchain := hg.chain
  rw [hsplit] at hchain
  exact hchain.parent_eq

theorem Represents.chainRepresentation {P : Platform} {D : Block -> Prop} {g : ChainState}
    (hg : Represents P D g) : ChainRepresentation g where
  genesis := by
    rcases hg.blocks_cons with ⟨above, habove⟩
    rw [habove]
    rfl
  number := fun _ _ hi => hg.number_of_getElem? hi
  parent := fun _ _ _ hblk hnext => hg.parent_hash hblk hnext
  index := by
    intro h n
    rw [hg.index]
    constructor
    · rintro ⟨blk, hmem, rfl, rfl⟩
      exact ⟨blk, hg.blocks_getElem? hmem, rfl⟩
    · rintro ⟨blk, hat, rfl⟩
      exact ⟨blk, List.mem_of_getElem? hat, rfl,
        UInt64.toNat_inj.mp (hg.number_of_getElem? hat)⟩
  apart := hg.apart

/-- Every run of correctly numbered blocks keeps the documented shape. -/
theorem Started.keepsRepresentation {P : Platform} {D : Block -> Prop} {g g' : ChainState}
    {calls : List Call} (hnumbered : NumberedFrom P D) (hstart : Started P D g)
    (hcalls : forall call, call ∈ calls -> D call.blk) (hrun : applyAll P g calls = .ok g') :
    ChainRepresentation g' :=
  (hstart.reached hnumbered hcalls hrun).1.chainRepresentation

theorem sampleBlocks_rewarded :
    RewardsDefined samplePlatform fun blk => blk ∈ sampleBlocks := by
  have hheights : forall blk, blk ∈ sampleBlocks ->
      blk.header.number.toNat / halvingInterval < 128 := by
    intro blk hblk
    simp only [sampleBlocks, List.mem_cons, List.not_mem_nil, or_false] at hblk
    rcases hblk with rfl | rfl | rfl | rfl
    · exact (by decide : 1 / halvingInterval < 128)
    · exact (by decide : 2 / halvingInterval < 128)
    · exact (by decide : 1 / halvingInterval < 128)
    · exact (by decide : 2 / halvingInterval < 128)
  exact fun blk hblk _ => ⟨_, shrU128_ok samplePlatform (hheights blk hblk)⟩

theorem chainRepresentation_sampleBlocks :
    exists g', applyAll samplePlatform sampleGenesis ([rivalSecond, firstBlock].map sampleCall) =
      .ok g' ∧ ChainRepresentation g' := by
  have hcalls : [rivalSecond, firstBlock] ⊆ sampleBlocks := by simp [sampleBlocks]
  have hstart : Started samplePlatform (fun blk => blk ∈ sampleBlocks) sampleGenesis :=
    Started.genesis sampleGenesis_applied
  have hinvariant := hstart.invariant sampleBlocks_numbered
  rcases VisionCore.applyAll_total hinvariant.1 hinvariant.2 sampleBlocks_numbered
    sampleBlocks_rewarded (sampleCalls_delivered hcalls) with ⟨g', hrun⟩
  exact ⟨g', hrun, Started.keepsRepresentation sampleBlocks_numbered hstart
    (sampleCalls_delivered hcalls) hrun⟩

/-- A block on genesis whose header claims height 5. -/
def jumpBlock : Block :=
  sealBlock samplePlatform .new (sampleDraft genesisHash 5 100 7 [])

theorem jumpBlock_breaks_representation :
    GenesisApplied samplePlatform sampleGenesis ∧
      exists g', applyAll samplePlatform sampleGenesis [sampleCall jumpBlock] = .ok g' ∧
        ¬ChainRepresentation g' := by
  have hruns : (applyAll samplePlatform sampleGenesis [sampleCall jumpBlock]).toOption.map
      (fun g => g.blocks[1]?) = some (some jumpBlock) := by
    decide +kernel
  rcases toOption_map_eq_some hruns with ⟨g', hrun, hat⟩
  refine ⟨sampleGenesis_applied, g', hrun, ?_⟩
  intro hshape
  have hnumber := hshape.number 1 jumpBlock hat
  have hfive : jumpBlock.header.number.toNat = 5 := rfl
  omega

/-!
# Every run returns
-/

/-- A run of correctly numbered blocks whose subsidies are defined never aborts. -/
theorem Started.runReturns {P : Platform} {D : Block -> Prop} {g : ChainState}
    {calls : List Call} (hnumbered : NumberedFrom P D) (hrewards : RewardsDefined P D)
    (hstart : Started P D g) (hcalls : forall call, call ∈ calls -> D call.blk) :
    exists g', applyAll P g calls = .ok g' :=
  VisionCore.applyAll_total (hstart.invariant hnumbered).1 (hstart.invariant hnumbered).2
    hnumbered hrewards hcalls

theorem sampleBlocks_run_returns :
    exists g', applyAll samplePlatform sampleGenesis (sampleBlocks.map sampleCall) = .ok g' :=
  Started.runReturns sampleBlocks_numbered sampleBlocks_rewarded
    (Started.genesis sampleGenesis_applied) (sampleCalls_delivered (List.Subset.refl _))

/-- A block on top of the one that claims height 5. -/
def afterJumpBlock : Block :=
  sealBlock samplePlatform (stateAfter samplePlatform .new jumpBlock)
    (sampleDraft jumpBlock.hash 6 200 8 [])

/-- The parent of the second block is looked up at height 5 of a chain of two. -/
theorem afterJumpBlock_aborts :
    applyAll samplePlatform sampleGenesis ([jumpBlock, afterJumpBlock].map sampleCall) =
      .error .expectNone := by
  have hruns : faultOf (applyAll samplePlatform sampleGenesis
      ([jumpBlock, afterJumpBlock].map sampleCall)) = some .expectNone := by
    decide +kernel
  exact eq_error_of_faultOf hruns

/-!
# The works of every run
-/

/-- Every canonical or side block is recorded with the work of its ancestry. -/
def WorkRecorded (g : ChainState) : Prop :=
  forall h blk, resolveBlock g h = some blk ->
    exists ancestors, KnownPath g (blk :: ancestors) ∧
      g.cumulativeWork[h]? = some (lineWork (blk :: ancestors))

theorem ExactWork.workRecorded {P : Platform} {D : Block -> Prop} {g : ChainState}
    (h : ExactWork g) (hg : Represents P D g) : WorkRecorded g := by
  intro hash blk hknown
  rcases hg.rooted.path hknown with ⟨ancestors, hpath⟩
  have hname : blk.hash = hash := hg.rooted.named hknown
  exact ⟨ancestors, hpath, hname ▸ h.value hpath⟩

/-- Nothing after a fresh start records the work of genesis. -/
def GenesisUnworked (g : ChainState) : Prop :=
  g.cumulativeWork[genesisHash]? = none

theorem Effect.genesisUnworked {P : Platform} {D : Block -> Prop} {host : Host}
    {g : ChainState} {blk : Block} {sourcePeer : Option String} {step : Step}
    (hg : Represents P D g) (hpre : GenesisUnworked g)
    (h : Effect P D host g blk sourcePeer step) : GenesisUnworked step.chain := by
  unfold GenesisUnworked at hpre ⊢
  have hinsert : forall {parent rest} (candidateCw : Nat),
      Represents.Joins P D g blk parent rest ->
        (g.cumulativeWork.insert blk.hash candidateCw)[genesisHash]? = none := by
    intro parent rest candidateCw hjoins
    rw [getElem?_insert_ite, if_neg (hjoins.hash_ne hg)]
    exact hpre
  cases h with
  | rejected _ => exact hpre
  | orphaned _ _ _ =>
      rw [(addOrphan_known host.now g blk (sourcePeer.getD "anon")).2]
      exact hpre
  | extended hadmitted _ _ _ _ => exact hinsert _ hadmitted.joins
  | recorded hadmitted _ _ _ => exact hinsert _ hadmitted.joins
  | @moved _ common _ side candidateCw _ works plan db _ hmoves _ =>
      rcases hmoves.works_eq with ⟨cw, _, hworks⟩
      have hgenesis : genesisBlock ∈ (sideRecorded g blk candidateCw).blocks :=
        List.mem_reverse.mp hmoves.recorded.chain.root_mem
      have hside := hmoves.recorded.not_mem_side_of_mem hmoves.branches hgenesis
      exact (segmentWork_of_not_mem hworks (by simpa using hside)).trans
        (hinsert candidateCw hmoves.admitted.joins)

theorem stepInvariant_genesisUnworked (P : Platform) (D : Block -> Prop) :
    StepInvariant P D fun _ g => GenesisUnworked g where
  effect := fun hg _ heffect hpre => heffect.genesisUnworked hg hpre
  take := fun _ hpre => hpre
  forget := fun _ hpre => hpre

/-- The recorded works are exact in every state of a session exactly when the
session was started on the database of an earlier one. -/
theorem workRecorded_iff_restarted {P : Platform} {D : Block -> Prop} {db : Db}
    {host host' : Host} {g g' : ChainState} {calls : List Call} (hnumbered : NumberedFrom P D)
    (havoids : AvoidsGenesis P D) (hdb : SessionDb P D db)
    (hstart : initializeChainState P host db = .ok (g, host'))
    (hcalls : forall call, call ∈ calls -> D call.blk) (hrun : applyAll P g calls = .ok g') :
    WorkRecorded g' ↔ db ≠ Db.empty := by
  rcases initializeChainState_cases hnumbered (hdb.durable hnumbered havoids) hstart with
    ⟨hempty, rfl⟩ | ⟨hne, hdurable, hexact⟩
  · have hpost := (stepInvariant_genesisUnworked P D).applyAll hnumbered
      (freshChain_durable havoids).represents rfl hcalls hrun
    refine iff_of_false ?_ (not_not.mpr hempty)
    intro hrecorded
    rcases hrecorded genesisHash genesisBlock hpost.1.genesis_known with ⟨_, _, hwork⟩
    rw [hpost.2] at hwork
    cases hwork
  · have hpost := (stepInvariant_exactWork P D).applyAll hnumbered hdurable.represents hexact
      hcalls hrun
    exact iff_of_true (hpost.2.workRecorded hpost.1) hne

/-- The sample node starts on the database of a fresh start and on an empty one. -/
theorem initializeChainState_samples :
    (initializeChainState samplePlatform sampleHost freshDb).toOption.isSome ∧
      (initializeChainState samplePlatform sampleHost Db.empty).toOption.isSome := by
  decide +kernel

theorem initializeChainState_freshDb :
    exists g host', initializeChainState samplePlatform sampleHost freshDb = .ok (g, host') := by
  rcases Option.isSome_iff_exists.mp initializeChainState_samples.1 with ⟨⟨g, host'⟩, hstart⟩
  exact ⟨g, host', toOption_eq_some.mp hstart⟩

theorem initializeChainState_empty :
    exists g host', initializeChainState samplePlatform sampleHost Db.empty = .ok (g, host') := by
  rcases Option.isSome_iff_exists.mp initializeChainState_samples.2 with ⟨⟨g, host'⟩, hstart⟩
  exact ⟨g, host', toOption_eq_some.mp hstart⟩

theorem workRecorded_restarted_sample :
    exists g host', initializeChainState samplePlatform sampleHost freshDb = .ok (g, host') ∧
      WorkRecorded g := by
  rcases initializeChainState_empty with ⟨fresh, hostFresh, hfresh⟩
  rcases initializeChainState_freshDb with ⟨g, host', hstart⟩
  have hleft : SessionDb samplePlatform (fun blk => blk ∈ sampleBlocks) freshDb := by
    have hcalls : forall call, call ∈ [].map sampleCall -> call.blk ∈ sampleBlocks :=
      sampleCalls_delivered (List.nil_subset _)
    have hdb := SessionDb.left SessionDb.empty hfresh hcalls rfl
    rwa [initializeChainState_fresh hfresh] at hdb
  have hne : freshDb ≠ Db.empty := by
    intro heq
    have hmarked := (freshDb_archive samplePlatform fun blk => blk ∈ sampleBlocks).marked
    rw [heq] at hmarked
    cases hmarked
  have hcalls : forall call, call ∈ [].map sampleCall -> call.blk ∈ sampleBlocks :=
    sampleCalls_delivered (List.nil_subset _)
  exact ⟨g, host', hstart, (workRecorded_iff_restarted sampleBlocks_numbered
    sampleBlocks_avoidGenesis hleft hstart hcalls rfl).mpr hne⟩

theorem freshStart_lacks_genesis_work :
    exists g host', initializeChainState samplePlatform sampleHost Db.empty = .ok (g, host') ∧
      ¬WorkRecorded g := by
  rcases initializeChainState_empty with ⟨g, host', hstart⟩
  refine ⟨g, host', hstart, ?_⟩
  rw [initializeChainState_fresh hstart]
  intro hrecorded
  rcases hrecorded genesisHash genesisBlock (freshChain_only.resolve.mpr ⟨rfl, rfl⟩) with
    ⟨_, _, hwork⟩
  cases hwork

end VisionCore
