import VisionCore.Chain.SnapshotContents
import VisionCore.Node.Session

/-!
# Validity across restarts

A restart reloads blocks without looking at them again and takes the account
state from a snapshot.  It keeps what the node knew about its blocks, because a
snapshot is restored only when its root is the one in the header of the canonical
block at its height.
-/

namespace VisionCore

open Std
open Foundation

/-!
# Loading a snapshot
-/

section Load

variable {P : Platform} {D : Block -> Prop} {db : Db} {height : UInt64} {root : String}
  {state : TxExecutionState}

/-- What is stored for a height passes every check against the canonical block and
holds `state`, whose root is `root`. -/
structure SnapshotAt (P : Platform) (db : Db) (height : UInt64) (hash : String) (blk : Block)
    (state : TxExecutionState) (root : String) : Prop where
  metadata : db.get (.snapshot height) = some (.snapshotMeta height hash)
  canonical : loadHeightIndex db height = .ok (some hash)
  block : loadBlock db hash = .ok (some blk)
  balances : exists balances, loadSnapBalances db height = .ok balances ∧
    state.balances = normalizeBalances balances
  nonces : exists nonces, loadSnapNonces db height = .ok nonces ∧
    state.nonces = normalizeNonces nonces
  computed : computeStateRoot P state.balances state.nonces = .ok root
  stored : checkStoredRoot db height root = .ok ()
  header : blk.header.stateRoot = root ∨ height = 0 ∧ blk.header.stateRoot = nullHash

theorem loadSnapshot_ok (h : loadSnapshot P db height = .ok (state, root)) :
    exists hash blk, SnapshotAt P db height hash blk state root := by
  unfold loadSnapshot at h
  rcases bind_eq_ok.mp h with ⟨⟨metadataHeight, snapshotHash⟩, hmeta, h⟩
  dsimp only at h
  have hget : db.get (.snapshot height) = some (.snapshotMeta metadataHeight snapshotHash) := by
    unfold loadSnapshotMeta at hmeta
    split at hmeta
    · cases hmeta
    · rename_i hget
      cases hmeta
      exact hget
    · cases hmeta
  split at h
  · cases h
  · rename_i hsame
    rw [not_not.mp hsame] at hget
    split at h
    · cases h
    · cases h
    · rename_i canonicalHash hindex
      split at h
      · cases h
      · rename_i hhash
        rw [not_not.mp hhash] at hget
        split at h
        · cases h
        · cases h
        · rename_i canonicalBlock hblock
          rcases bind_eq_ok.mp h with ⟨balances, hbalances, h⟩
          rcases bind_eq_ok.mp h with ⟨nonces, hnonces, h⟩
          split at h
          · cases h
          · rename_i computed hcomputed
            rcases bind_eq_ok.mp h with ⟨_, hstored, h⟩
            split at h
            · cases h
            · rename_i hroot
              cases h
              refine ⟨canonicalHash, canonicalBlock, hget, hindex, hblock, ⟨_, hbalances, rfl⟩,
                ⟨_, hnonces, rfl⟩, hcomputed, hstored, ?_⟩
              simpa [or_iff_not_imp_left] using hroot

theorem SnapshotAt.load {hash : String} {blk : Block}
    (h : SnapshotAt P db height hash blk state root) :
    loadSnapshot P db height = .ok (state, root) := by
  rcases h.balances with ⟨balances, hbalances, hstate⟩
  rcases h.nonces with ⟨nonces, hnonces, hstate'⟩
  have hmeta : loadSnapshotMeta db height = .ok (height, hash) := by
    unfold loadSnapshotMeta
    rw [h.metadata]
  have hcomputed := h.computed
  have hroot : ¬(blk.header.stateRoot ≠ root ∧
      (!(height == 0 && blk.header.stateRoot == nullHash)) = true) := by
    rcases h.header with heq | ⟨hzero, hnull⟩
    · exact fun hboth => hboth.1 heq
    · simp [hzero, hnull]
  rw [hstate, hstate'] at hcomputed
  unfold loadSnapshot
  refine bind_eq_ok.mpr ⟨(height, hash), hmeta, ?_⟩
  dsimp only
  rw [if_neg (not_not.mpr rfl), h.canonical]
  dsimp only
  rw [if_neg (not_not.mpr rfl), h.block]
  refine bind_eq_ok.mpr ⟨balances, hbalances, bind_eq_ok.mpr ⟨nonces, hnonces, ?_⟩⟩
  rw [hcomputed]
  refine bind_eq_ok.mpr ⟨(), h.stored, ?_⟩
  rw [if_neg hroot, ← hstate, ← hstate']
  rfl

theorem SnapshotContents.loadBalances (h : SnapshotContents P D db)
    {balances : ExtTreeMap String Nat} (hload : loadSnapBalances db height = .ok balances) :
    exists l state, Ancestry P D l ∧ lineState P l = .ok state ∧
      EqualUpTo 0 balances state.balances := by
  unfold loadSnapBalances at hload
  split at hload
  · cases hload
    exact ⟨_, _, Admissible.root, lineState_genesis P, EqualUpTo.refl 0 _⟩
  · rename_i entries hget
    cases hload
    exact h.balances hget
  · cases hload

theorem SnapshotContents.loadNonces (h : SnapshotContents P D db)
    {nonces : ExtTreeMap String UInt64} (hload : loadSnapNonces db height = .ok nonces) :
    exists l state, Ancestry P D l ∧ lineState P l = .ok state ∧
      EqualUpTo 0 nonces state.nonces := by
  unfold loadSnapNonces at hload
  split at hload
  · cases hload
    exact ⟨_, _, Admissible.root, lineState_genesis P, EqualUpTo.refl 0 _⟩
  · rename_i entries hget
    cases hload
    exact h.nonces hget
  · cases hload

/-- The snapshot that a restore accepts holds the accounts of the canonical block
at its height. -/
theorem SnapshotContents.accounts (h : SnapshotContents P D db) (hroots : RootsBind P D)
    (hload : loadSnapshot P db height = .ok (state, root)) {blk : Block} {rest : List Block}
    {after : TxExecutionState} (hl : Ancestry P D (blk :: rest)) (hstored : StoredBlock db blk)
    (hheight : blk.header.number = height) (hafter : lineState P (blk :: rest) = .ok after) :
    SameAccounts after state := by
  rcases loadSnapshot_ok hload with ⟨hash, found, hsnapshot⟩
  have hindex := hsnapshot.canonical
  have hblock := hsnapshot.block
  rcases hsnapshot.balances with ⟨balances, hbalances, hstateBalances⟩
  rcases hsnapshot.nonces with ⟨nonces, hnonces, hstateNonces⟩
  have hne : height ≠ 0 := by
    intro hzero
    have hmeta := hsnapshot.metadata
    rw [hzero, h.genesis] at hmeta
    cases hmeta
  have hfound : found = blk := by
    unfold loadHeightIndex at hindex
    rw [← hheight, hstored.height] at hindex
    cases hindex
    unfold loadBlock at hblock
    rw [hstored.block] at hblock
    cases hblock
    rfl
  rcases h.loadBalances hbalances with ⟨l₁, state₁, hl₁, hstate₁, hequal₁⟩
  rcases h.loadNonces hnonces with ⟨l₂, state₂, hl₂, hstate₂, hequal₂⟩
  have hmixed : SameAccounts { balances := state₁.balances, nonces := state₂.nonces } state := by
    have hloaded : SameAccounts { balances := balances, nonces := nonces }
        { balances := state₁.balances, nonces := state₂.nonces } := ⟨hequal₁, hequal₂⟩
    have hnormal := (sameAccounts_normalize { balances := balances, nonces := nonces }).trans hloaded
    rw [← hstateBalances, ← hstateNonces] at hnormal
    exact hnormal.symm
  have hbound : computeStateRoot P after.balances after.nonces = .ok root := by
    rcases lineState_cons.mp hafter with ⟨before, _, hchecked⟩
    rcases replayBlockChecked_ok hchecked with ⟨_, _, _, hblockRoot⟩
    have hheader := hsnapshot.header.resolve_right fun hgenesis => hne hgenesis.1
    rw [← hheader, hfound]
    exact hblockRoot (hheight ▸ hne)
  have hmixedRoot : computeStateRoot P state₁.balances state₂.nonces = .ok root :=
    (computeStateRoot_same hmixed).trans hsnapshot.computed
  exact (hroots _ _ _ _ _ _ _ hl hl₁ hl₂ hafter hstate₁ hstate₂ hbound hmixedRoot).trans hmixed

end Load

/-!
# Restoring
-/

section Restore

variable {P : Platform} {D : Block -> Prop} {N : UInt64 -> Prop} {g g' : ChainState}
  {host host' : Host}

theorem restoreSnapshotAt_accounts {height : UInt64}
    (hrun : restoreSnapshotAt P g height = .ok g') :
    exists root, loadSnapshot P g.db height = .ok (g'.accounts, root) := by
  rcases restoreSnapshotAt_eq hrun with ⟨state, root, keep, works, hload, _, _, rfl⟩
  exact ⟨root, hload⟩

/-- A restored prefix of the chain is as sound as the stored chain. -/
theorem Reopened.restored_sound (h : Reopened P D g) (hvouched : AllVouched P N g)
    (hsnapshots : SnapshotContents P D g.db) (hroots : RootsBind P D) {height : UInt64}
    (hheight : height.toNat ≤ g.currentHeight.toNat)
    (hrun : restoreSnapshotAt P g height = .ok g') : Sound P N g' := by
  have hg := h.recovering.represents
  have hlt := hg.length_lt
  rcases hg.canonical_prefix hheight with ⟨hpath, hindex⟩
  have hmem : g.blocks[height.toNat] ∈ g.blocks := List.getElem_mem hindex
  have hnumber := hg.number_of_getElem? (List.getElem?_eq_getElem hindex)
  rcases restoreSnapshotAt_ok h.sideBlocks h.pool (by omega) hrun with ⟨honly, _⟩
  constructor
  · exact hvouched.mono fun l hl => honly.knownPath hg hpath hl
  · rcases restoreSnapshotAt_accounts hrun with ⟨root, hload⟩
    rcases hvouched.known hg hpath with ⟨after, hafter⟩
    refine ⟨after, by rw [honly.blocks]; exact hafter, ?_⟩
    have htake := hg.take_reverse hmem
    rw [hnumber] at htake
    rw [htake] at hpath hafter
    exact hsnapshots.accounts hroots hload (hg.ancestry hpath)
      (h.recovering.entries _ hmem) (UInt64.toNat_inj.mp hnumber) hafter

end Restore

/-!
# Step invariants during a replay
-/

section Replay

variable {P : Platform} {D : Block -> Prop} {J : Host -> ChainState -> Prop} {g g' : ChainState}
  {host host' : Host}

theorem replayStoredBlock_keeps (hJ : StepInvariant P D J)
    (hrefresh : forall {host g}, J host g -> J host g.refreshCachedStateRootFromTip)
    (hnumbered : NumberedFrom P D) (h : Recovering P D g) (hpre : J host g) {height : UInt64}
    {hash : String} {blk : Block} (hD : D blk)
    (hrun : replayStoredBlock P (g, host) height hash blk = .ok (g', host')) :
    Recovering P D g' ∧ J host' g' := by
  rcases bind_eq_ok.mp hrun with ⟨applied, happlied, hfinal⟩
  split at hfinal
  · cases Except.ok.inj hfinal
    have happlied' := liftFault_eq_ok.mp happlied
    exact ⟨(h.applyBlock hnumbered hD happlied').refresh,
      hrefresh (hJ.applyBlock hnumbered h.represents hD hpre happlied').2⟩
  · cases hfinal

theorem replayStoredHeight_keeps (hJ : StepInvariant P D J)
    (hrefresh : forall {host g}, J host g -> J host g.refreshCachedStateRootFromTip)
    (hnumbered : NumberedFrom P D) (h : Recovering P D g) (hpre : J host g) {height : UInt64}
    (hheight : 1 ≤ height.toNat)
    (hrun : replayStoredHeight P (g, host) height = .ok (g', host')) :
    Recovering P D g' ∧ J host' g' := by
  unfold replayStoredHeight at hrun
  split at hrun
  · cases hrun
  · rename_i hash blk hrequire
    rcases requireCanonicalBlock_ok hrequire with ⟨hnumber, hget⟩
    exact replayStoredBlock_keeps hJ hrefresh hnumbered h hpre
      (h.archive.delivered hget (by rw [hnumber]; exact hheight)) hrun

theorem replayStoredCanonicalTail_keeps (hJ : StepInvariant P D J)
    (hrefresh : forall {host g}, J host g -> J host g.refreshCachedStateRootFromTip)
    (hnumbered : NumberedFrom P D) (h : Recovering P D g) (hpre : J host g) {height : UInt64}
    (hrun : replayStoredCanonicalTail P host g height = .ok (g', host')) : J host' g' := by
  unfold replayStoredCanonicalTail at hrun
  split at hrun
  · cases hrun
  · rename_i tipHeight _
    split at hrun
    · cases hrun
      exact hrefresh hpre
    · rename_i hlt
      rcases bind_eq_ok.mp hrun with ⟨first, hfirst, hfold⟩
      have hlt' : height.toNat < tipHeight.toNat := by
        rw [UInt64.le_iff_toNat_le] at hlt
        omega
      have hfirst' := addU64_one_toNat hlt' tipHeight.toNat_lt (liftFault_eq_ok.mp hfirst)
      have hpost := foldlM_induction
        (I := fun entry : ChainState × Host => Recovering P D entry.1 ∧ J entry.2 entry.1)
        (f := replayStoredHeight P) ?_ ⟨h, hpre⟩ hfold
      · exact hpost.2
      · rintro ⟨g₁, host₁⟩ x ⟨g₂, host₂⟩ hx ⟨hrecovering, hmid⟩ hstep
        have hge := mem_heightRange hx
        exact replayStoredHeight_keeps hJ hrefresh hnumbered hrecovering hmid (by omega) hstep

end Replay

/-!
# The host of a call
-/

section Hosts

variable {P : Platform} {host : Host} {g : ChainState} {blk : Block}
  {sourcePeer : Option String}

theorem Transition.follows {step : Step} (h : Transition P host g blk sourcePeer step) :
    exists events, host.Follows step.host events := by
  cases h with
  | rejected hfollows => exact ⟨_, hfollows⟩
  | genesis _ _ _ _ hfollows => exact ⟨_, hfollows⟩
  | orphaned _ _ hfollows => exact ⟨_, hfollows⟩
  | extended _ _ _ hfollows => exact ⟨_, hfollows⟩
  | recorded _ _ _ hfollows => exact ⟨_, hfollows⟩
  | aborted _ _ _ _ hfollows => exact ⟨_, hfollows⟩
  | reorganised _ _ _ _ _ _ _ hfollows => exact ⟨_, hfollows⟩

/-- A call leaves the clock and the outcomes of the writes alone. -/
theorem applyBlock_host {out : Applied} (hrun : applyBlock P host g blk sourcePeer = .ok out) :
    out.host.clock = host.clock ∧ out.host.writeOk = host.writeOk := by
  have hinvariant : PromotionInvariant P fun _ _ h _ =>
      h.clock = host.clock ∧ h.writeOk = host.writeOk :=
    { accept := by
        rintro offered h g blk sourcePeer step ⟨hclock, hwrites⟩ hstep
        rcases (acceptBlock_transition hstep).follows with ⟨events, hfollows⟩
        exact ⟨hfollows.clock.trans hclock, hfollows.writeOk.trans hwrites⟩
      idle := fun hpre _ => hpre
      take := fun hpre _ => hpre
      forget := fun hpre => hpre }
  exact @PromotionInvariant.applyBlock P _ hinvariant [] _ _ _ _ _ ⟨rfl, rfl⟩ hrun

end Hosts

/-!
# Start-up keeps what the node knew
-/

section Startup

variable {P : Platform} {D : Block -> Prop} {N : UInt64 -> Prop} {g g' : ChainState}
  {host host' : Host}

theorem Kept.refresh (h : host.Within N ∧ Kept P D N g) :
    host.Within N ∧ Kept P D N g.refreshCachedStateRootFromTip :=
  ⟨h.1, h.2.sound.congr rfl rfl rfl, h.2.snapshots⟩

theorem GenesisOnly.sound (h : GenesisOnly g) (hbalances : g.balances = ∅)
    (hnonces : g.nonces = ∅) : Sound P N g where
  vouched := by
    intro blk parent rest hl
    have heq := h.knownPath hl
    simp at heq
  live := by
    refine ⟨_, by rw [h.blocks]; exact lineState_genesis P, ?_⟩
    unfold ChainState.accounts
    rw [hbalances, hnonces]
    exact SameAccounts.refl _

theorem rebuilt_genesis_kept (hside : g.sideBlocks = ∅) (hpool : g.orphanPool = ∅)
    (hsnapshots : SnapshotContents P D g.db) (hhost : host.Within N)
    (hrun : replayStoredBlock P (clearedForRebuild g, host) genesisBlock.header.number
      genesisBlock.hash genesisBlock = .ok (g', host')) : host'.Within N ∧ Kept P D N g' := by
  rcases bind_eq_ok.mp hrun with ⟨applied, happlied, hfinal⟩
  split at hfinal
  · rename_i hresult
    cases Except.ok.inj hfinal
    have happlied' := liftFault_eq_ok.mp happlied
    have hchain := applyBlock_genesis happlied' hresult
    have honly : GenesisOnly applied.chain := by
      rw [hchain]
      exact genesisOnly_genesisApplied rfl rfl hside rfl hpool
    refine Kept.refresh ⟨?_, ?_, ?_⟩
    · unfold Host.Within
      rw [(applyBlock_host happlied').1]
      exact hhost
    · refine honly.sound ?_ ?_
      · rw [hchain]
        rfl
      · rw [hchain]
        rfl
    · rw [hchain]
      exact hsnapshots.applyBatch fun op hop => tipBatch_isSnapshot hop
  · cases hfinal

theorem Reopened.rebuild_kept (hnumbered : NumberedFrom P D) (h : Reopened P D g)
    (hsnapshots : SnapshotContents P D g.db) (hhost : host.Within N)
    (hrun : rebuildCanonicalStateFromGenesis P host g = .ok (g', host')) : Kept P D N g' := by
  rcases h.recovering.represents.blocks_cons with ⟨above, habove⟩
  rw [h.rebuild_eq habove, List.foldlM_cons] at hrun
  rcases bind_eq_ok.mp hrun with ⟨⟨g₁, host₁⟩, hfirst, hrest⟩
  have hstart := rebuilt_genesis h.sideBlocks h.pool h.recovering.archive hfirst
  have hkept := rebuilt_genesis_kept (N := N) h.sideBlocks h.pool hsnapshots hhost hfirst
  have hpost := foldlM_induction
    (I := fun entry : ChainState × Host =>
      Recovering P D entry.1 ∧ entry.2.Within N ∧ Kept P D N entry.1) ?_
    ⟨hstart.1, hkept⟩ hrest
  · exact hpost.2.2
  · rintro ⟨g₂, host₂⟩ blk ⟨g₃, host₃⟩ hblk ⟨hrecovering, hmid⟩ hstep
    exact replayStoredBlock_keeps (stepInvariant_kept P D N) Kept.refresh hnumbered hrecovering
      hmid (h.blocks_delivered habove hblk) hstep

theorem Reopened.recover_kept (hnumbered : NumberedFrom P D) (h : Reopened P D g)
    (hvouched : AllVouched P N g) (hsnapshots : SnapshotContents P D g.db)
    (hroots : RootsBind P D) (hbalances : g.balances = ∅) (hnonces : g.nonces = ∅)
    (hhost : host.Within N) (hrun : recoverAccountState P host g = .ok (g', host')) :
    Kept P D N g' := by
  unfold recoverAccountState at hrun
  split at hrun
  · rename_i restored height hrestore
    rcases restoreFirst_ok hrestore with ⟨hmem, hat⟩
    have hle := mem_heightRange_le (List.mem_reverse.mp (List.mem_filter.mp hmem).1)
    rcases h.restored hle hat with ⟨hrecovering, hdb, _⟩
    have hsound := h.restored_sound hvouched hsnapshots hroots hle hat
    have hpost := replayStoredCanonicalTail_keeps (stepInvariant_kept P D N) Kept.refresh
      hnumbered hrecovering ⟨hhost, hsound, hdb.symm ▸ hsnapshots⟩ hrun
    exact hpost.2
  · cases hrun
  · split at hrun
    · exact h.rebuild_kept hnumbered hsnapshots hhost hrun
    · rename_i hheight
      cases hrun
      refine ⟨⟨hvouched, ?_⟩, hsnapshots⟩
      -- at height zero the chain is genesis alone, whose accounts are empty
      rcases h.persisted.tip with ⟨tip, hlast, _⟩
      have hlength := h.recovering.represents.tip_number hlast
      have hcurrent := ChainState.currentHeight_of_last hlast
      have hzero : tip.header.number = 0 := by
        rw [← hcurrent]
        exact not_not.mp (mt UInt64.pos_iff_ne_zero.mpr hheight)
      rcases h.recovering.represents.blocks_cons with ⟨above, habove⟩
      rw [hzero, habove, List.length_cons] at hlength
      have hnil : above = [] := List.length_eq_zero_iff.mp (by simpa using hlength)
      refine ⟨_, by rw [habove, hnil]; exact lineState_genesis P, ?_⟩
      unfold ChainState.accounts
      rw [hbalances, hnonces]
      exact SameAccounts.refl _

/-- A restart on the database of a running node keeps what the node knew. -/
theorem initializeChainState_kept (hnumbered : NumberedFrom P D) (hdurable : Durable P D g)
    (hkept : Kept P D N g) (hroots : RootsBind P D) (hhost : host.Within N)
    (hrun : initializeChainState P host g.db = .ok (g', host')) : Kept P D N g' := by
  rcases bind_eq_ok.mp hrun with ⟨opened, hopened, hrecover⟩
  rcases openWithGenesis_ok hdurable hopened with ⟨honly, hdb⟩
  split at hrecover
  · cases hrecover
  · rename_i booted hostBooted hboot
    rcases bootstrapChain_marked (hdb ▸ hdurable.archive.marked) hboot with ⟨rfl, rfl⟩
    have hvouched : AllVouched P N booted :=
      hkept.sound.vouched.mono fun l hl =>
        honly.knownPath hdurable.represents hdurable.represents.chain hl
    exact (hdurable.reopened hopened).recover_kept hnumbered hvouched
      (hdb.symm ▸ hkept.snapshots) hroots (openWithGenesis_accounts hdurable hopened).1
      (openWithGenesis_accounts hdurable hopened).2 hhost hrecover

end Startup

/-!
# Sessions and their clocks
-/

/-- The databases that sessions on blocks of `D` may leave when every clock
reading satisfies `N`. -/
inductive ClockedDb (P : Platform) (D : Block -> Prop) (N : UInt64 -> Prop) : Db -> Prop where
  | empty : ClockedDb P D N Db.empty
  | left {db : Db} {host host' : Host} {g g' : ChainState} {calls : List Call} :
      ClockedDb P D N db -> host.Within N -> initializeChainState P host db = .ok (g, host') ->
      (forall call, call ∈ calls -> D call.blk ∧ call.host.Within N) ->
      applyAll P g calls = .ok g' -> ClockedDb P D N g'.db

/-- What a node and its database satisfy between two calls. -/
structure Running (P : Platform) (D : Block -> Prop) (N : UInt64 -> Prop) (g : ChainState) :
    Prop where
  durable : Durable P D g
  kept : Kept P D N g

section Sessions

variable {P : Platform} {D : Block -> Prop} {N : UInt64 -> Prop} {db : Db} {host host' : Host}
  {g g' : ChainState} {calls : List Call}

theorem Running.applyAll (h : Running P D N g) (hnumbered : NumberedFrom P D)
    (hcalls : forall call, call ∈ calls -> D call.blk ∧ call.host.Within N)
    (hrun : applyAll P g calls = .ok g') : Running P D N g' := by
  refine foldlM_induction (I := Running P D N) ?_ h hrun
  intro g call g' hcall hpre hstep
  rcases applyCall_ok hstep with ⟨out, hout, rfl⟩
  have hD := (hcalls call hcall).1
  have hpost := (stepInvariant_kept P D N).applyBlock hnumbered hpre.durable.represents hD
    ⟨(hcalls call hcall).2, hpre.kept⟩ hout
  exact ⟨hpre.durable.applyBlock hnumbered hD hout, hpost.2.2⟩

theorem freshChain_running (havoids : AvoidsGenesis P D) :
    Running P D N freshChain.refreshCachedStateRootFromTip where
  durable := freshChain_durable havoids
  kept := by
    refine ⟨freshChain_only.sound rfl rfl, ?_, ?_, freshDb_snapshot 0⟩
    · intro height entries hget
      have hfresh : freshDb.get (.snapBalances height) = some (.balances entries) := hget
      rw [freshDb_get (by simp), tipBatch_get_untouched (by simp) (by simp) (by simp) (by simp)]
        at hfresh
      cases hfresh
    · intro height entries hget
      have hfresh : freshDb.get (.snapNonces height) = some (.nonces entries) := hget
      rw [freshDb_get (by simp), tipBatch_get_untouched (by simp) (by simp) (by simp) (by simp)]
        at hfresh
      cases hfresh

/-- Start-up on a database that sessions have left yields a running node. -/
theorem initializeChainState_running (hnumbered : NumberedFrom P D)
    (havoids : AvoidsGenesis P D) (hroots : RootsBind P D)
    (hdb : db = Db.empty ∨ exists left, Running P D N left ∧ left.db = db)
    (hhost : host.Within N) (hrun : initializeChainState P host db = .ok (g, host')) :
    Running P D N g := by
  rcases hdb with rfl | ⟨left, hleft, rfl⟩
  · rw [initializeChainState_fresh hrun]
    exact freshChain_running havoids
  · exact ⟨(initializeChainState_restart hnumbered hleft.durable hrun).1,
      initializeChainState_kept hnumbered hleft.durable hleft.kept hroots hhost hrun⟩

theorem ClockedDb.running (hnumbered : NumberedFrom P D) (havoids : AvoidsGenesis P D)
    (hroots : RootsBind P D) (h : ClockedDb P D N db) :
    db = Db.empty ∨ exists left, Running P D N left ∧ left.db = db := by
  induction h with
  | empty => exact Or.inl rfl
  | left _ hhost hstart hcalls hrun ih =>
      have hstarted := initializeChainState_running hnumbered havoids hroots ih hhost hstart
      exact Or.inr ⟨_, hstarted.applyAll hnumbered hcalls hrun, rfl⟩

end Sessions

/-!
# A sample restart
-/

/-- Deliveries that consist of the first sample block. -/
def firstOnly : Block -> Prop := fun blk => blk ∈ [firstBlock]

theorem firstBlock_links :
    firstBlock.hash ≠ genesisHash ∧ isZeroHash firstBlock.hash = false ∧
      firstBlock.header.parentHash ≠ firstBlock.hash ∧
      forall parent, parent ∈ [genesisBlock, firstBlock] ->
        firstBlock.header.parentHash = parent.hash ->
          firstBlock.header.number.toNat = parent.header.number.toNat + 1 := by
  decide +kernel

theorem firstOnly_numbered : NumberedFrom samplePlatform firstOnly := by
  apply numberedFrom_of_list
  intro blk hblk
  rw [List.mem_singleton.mp hblk]
  exact firstBlock_links.2.2.2

theorem firstOnly_avoidGenesis : AvoidsGenesis samplePlatform firstOnly := by
  intro blk hblk _ _
  rw [List.mem_singleton.mp hblk]
  exact firstBlock_links.1

theorem firstOnly_ancestry {l : List Block} (h : Ancestry samplePlatform firstOnly l) :
    l = [genesisBlock] ∨ l = [firstBlock, genesisBlock] := by
  have hparent := firstBlock_links.2.2.1
  induction h with
  | root => exact Or.inl rfl
  | @step b p rest hbelow hb hname _ _ ih =>
      have hfirst : b = firstBlock := List.mem_singleton.mp hb
      subst hfirst
      rcases ih with heq | heq
      · rw [heq]
        exact Or.inr rfl
      · rw [(List.cons.inj heq).1] at hname
        exact absurd hname hparent

/-- The two account states that occur have different roots, and no nonces. -/
theorem firstOnly_roots :
    (lineState samplePlatform [firstBlock, genesisBlock]).toOption.map (fun state =>
      (state.nonces.toList.length,
        decide ((computeStateRoot samplePlatform state.balances state.nonces).toOption =
          (computeStateRoot samplePlatform ∅ ∅).toOption))) = some (0, false) := by
  decide +kernel

theorem firstOnly_rootsBind : RootsBind samplePlatform firstOnly := by
  rcases toOption_map_eq_some firstOnly_roots with ⟨first, hfirst, hroots⟩
  have hnonces : first.nonces = ∅ := by
    have hlength : first.nonces.toList.length = 0 := congrArg Prod.fst hroots
    exact ExtTreeMap.toList_eq_nil_iff.mp (List.length_eq_zero_iff.mp hlength)
  have hdiffer : computeStateRoot samplePlatform first.balances ∅ ≠
      computeStateRoot samplePlatform ∅ ∅ := by
    intro heq
    have hfalse := congrArg Prod.snd hroots
    dsimp only at hfalse
    rw [hnonces, heq] at hfalse
    simp at hfalse
  have hcases : forall {l state}, Ancestry samplePlatform firstOnly l ->
      lineState samplePlatform l = .ok state -> state = .new ∨ state = first := by
    intro l state hl hstate
    rcases firstOnly_ancestry hl with rfl | rfl
    · exact Or.inl (Except.ok.inj ((lineState_genesis samplePlatform).symm.trans hstate)).symm
    · exact Or.inr (Except.ok.inj (hfirst.symm.trans hstate)).symm
  have hempty : forall {l state}, Ancestry samplePlatform firstOnly l ->
      lineState samplePlatform l = .ok state -> state.nonces = ∅ := by
    intro l state hl hstate
    rcases hcases hl hstate with rfl | rfl
    · rfl
    · exact hnonces
  intro l l₁ l₂ state state₁ state₂ root hl hl₁ hl₂ hstate hstate₁ hstate₂ hroot hroot₁₂
  rw [hempty hl₂ hstate₂] at hroot₁₂ ⊢
  rw [hempty hl hstate, ← hroot₁₂] at hroot
  refine ⟨?_, by rw [hempty hl hstate]; exact EqualUpTo.refl 0 _⟩
  rcases hcases hl hstate with rfl | rfl
  · rcases hcases hl₁ hstate₁ with rfl | rfl
    · exact EqualUpTo.refl 0 _
    · exact absurd hroot.symm hdiffer
  · rcases hcases hl₁ hstate₁ with rfl | rfl
    · exact absurd hroot hdiffer
    · exact EqualUpTo.refl 0 _

theorem firstOnly_delivered (N : UInt64 -> Prop) (hN : N 1000000) :
    forall call, call ∈ [sampleCall firstBlock] -> firstOnly call.blk ∧ call.host.Within N := by
  intro call hcall
  rw [List.mem_singleton.mp hcall]
  exact ⟨List.mem_cons_self, fun _ => hN⟩

/-- A session that applies the first block and stops, and the next start. -/
def restartedSample : Except (Stop StartupError) (ChainState × Host) := do
  let started <- initializeChainState samplePlatform sampleHost Db.empty
  let left <- liftFault (applyAll samplePlatform started.1 [sampleCall firstBlock])
  initializeChainState samplePlatform sampleHost left.db

theorem restartedSample_tip : restartedSample.toOption.map (fun out => out.1.tipHash) =
    some firstBlock.hash := by
  decide +kernel

/-- The session and the restart of the sample. -/
theorem restartedSample_runs : exists g₀ host₀ left g host',
    initializeChainState samplePlatform sampleHost Db.empty = .ok (g₀, host₀) ∧
      applyAll samplePlatform g₀ [sampleCall firstBlock] = .ok left ∧
      initializeChainState samplePlatform sampleHost left.db = .ok (g, host') ∧
      g.tipHash = firstBlock.hash := by
  rcases toOption_map_eq_some restartedSample_tip with ⟨⟨g, host'⟩, hrun, htip⟩
  rcases bind_eq_ok.mp hrun with ⟨⟨g₀, host₀⟩, hstart, hrun⟩
  rcases bind_eq_ok.mp hrun with ⟨left, happly, hrestart⟩
  exact ⟨g₀, host₀, left, g, host', hstart, liftFault_eq_ok.mp happly, hrestart, htip⟩

end VisionCore
