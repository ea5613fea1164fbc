import VisionCore.Chain.KnownHashes
import VisionCore.Chain.Sample

/-!
# The reverse index of the orphan pool

`orphan_by_hash` is meant to name every waiting block once.  Adding an orphan does
not look whether its hash waits already, so the index is kept in step exactly in
the runs that never deliver a waiting orphan again.
-/

namespace VisionCore

open Std
open Foundation

/-!
# The invariant
-/

def OrphanEntry.home (entry : OrphanEntry) : String :=
  entry.1.header.parentHash

def OrphanEntry.name (entry : OrphanEntry) : String :=
  entry.1.hash

/-- Every stored block, in pool order. -/
def orphanBlocks (g : ChainState) : List Block :=
  (contents g.orphanPool).map Prod.fst

/-- The reverse index and the pool agree. -/
structure OrphanIndexed (g : ChainState) : Prop where
  keys : forall hash, hash ∈ g.orphanByHash ↔
    exists (key : String) (entry : OrphanEntry), Waits g key entry ∧ entry.1.hash = hash
  parent : forall (key : String) (entry : OrphanEntry), Waits g key entry ->
    entry.1.header.parentHash = key ∧ g.orphanByHash[entry.1.hash]? = some key
  once : ((orphanBlocks g).map Block.hash).Nodup
  filled : forall (key : String) (waiting : List OrphanEntry),
    g.orphanPool[key]? = some waiting -> waiting ≠ []

/-- The same while `loose` has been taken out of the pool and not yet forgotten. -/
def PoolIndexed (g : ChainState) (loose : List OrphanEntry) : Prop :=
  Indexed OrphanEntry.home OrphanEntry.name g.orphanPool g.orphanByHash loose

/-- The delivery of an orphan whose hash already waits, once the pool has made room. -/
def Repeats (P : Platform) (g : ChainState) (blk : Block) : Prop :=
  Offered P g blk ∧ ¬ParentKnown g blk ∧ blk.hash ∈ (pruneOldOrphans g).orphanByHash

/-- No call of a run delivers a waiting orphan again. -/
def NeverRepeats (P : Platform) : ChainState -> List Call -> Prop
  | _, [] => True
  | g, call :: rest => forall g', applyCall P g call = .ok g' ->
      ¬Repeats P g call.blk ∧ NeverRepeats P g' rest

theorem mem_contents_pool {g : ChainState} {entry : OrphanEntry} :
    entry ∈ contents g.orphanPool ↔ exists key, Waits g key entry :=
  mem_contents

theorem PoolIndexed.orphanIndexed {g : ChainState} (h : PoolIndexed g []) :
    OrphanIndexed g where
  keys := by
    intro hash
    rw [h.mem_iff, List.nil_append]
    constructor
    · rintro ⟨entry, hentry, hname⟩
      rcases mem_contents_pool.mp hentry with ⟨key, hwaits⟩
      exact ⟨key, entry, hwaits, hname⟩
    · rintro ⟨key, entry, hwaits, hname⟩
      exact ⟨entry, mem_contents_pool.mpr ⟨key, hwaits⟩, hname⟩
  parent := by
    rintro key entry ⟨waiting, hslot, hentry⟩
    have hhome := h.placed key waiting entry hslot hentry
    refine ⟨hhome, (h.entries _ _).mpr ⟨entry, ?_, rfl, hhome⟩⟩
    exact mem_contents_pool.mpr ⟨key, waiting, hslot, hentry⟩
  once := by
    have hdistinct := h.distinct
    rw [List.nil_append] at hdistinct
    unfold orphanBlocks
    rw [List.map_map]
    exact hdistinct
  filled := h.filled

/-!
# The operations
-/

section Operations

variable {g : ChainState} {loose : List OrphanEntry}

theorem PoolIndexed.prune (h : PoolIndexed g loose) : PoolIndexed (pruneOldOrphans g) loose := by
  by_cases hfull : orphanPoolMax ≤ orphanCount g
  · rcases pruneOldOrphans_full hfull with ⟨key, waiting, pos, evicted, hslot, hpos, hpruned⟩
    rw [hpruned]
    exact h.evict hslot hpos
  · rw [pruneOldOrphans_eq (Nat.not_le.mp hfull)]
    exact h

theorem PoolIndexed.add (h : PoolIndexed g loose) (now : UInt64) {blk : Block} (peer : String)
    (hfree : blk.hash ∉ (pruneOldOrphans g).orphanByHash) :
    PoolIndexed (addOrphan now g blk peer) loose := by
  have hentry : OrphanEntry.name (blk, now, peer) ∉ (pruneOldOrphans g).orphanByHash := hfree
  exact h.prune.place hentry

theorem PoolIndexed.takeWaiting {key : String} {waiting : List OrphanEntry}
    (h : PoolIndexed g loose) (hslot : g.orphanPool[key]? = some waiting) :
    PoolIndexed (takeWaiting g key) (waiting ++ loose) :=
  h.take hslot

theorem PoolIndexed.forgetOrphan {entry : OrphanEntry} (h : PoolIndexed g (entry :: loose)) :
    PoolIndexed (forgetOrphan g entry.1.hash) loose :=
  h.forget

/-- A hash that is stored again is stored twice. -/
theorem not_indexed_of_repeated (h : PoolIndexed g []) (now : UInt64) {blk : Block}
    (peer : String) (hrepeated : blk.hash ∈ (pruneOldOrphans g).orphanByHash) :
    ¬OrphanIndexed (addOrphan now g blk peer) := by
  intro hindexed
  rcases h.prune.mem_iff.mp hrepeated with ⟨entry, hentry, hname⟩
  rw [List.nil_append] at hentry
  have hperm : (contents (addOrphan now g blk peer).orphanPool).Perm
      ((blk, now, peer) :: contents (pruneOldOrphans g).orphanPool) := by
    unfold addOrphan
    refine (contents_perm_insert _ _ _).trans ?_
    cases hslot : (pruneOldOrphans g).orphanPool[blk.header.parentHash]? with
    | none => rw [erase_of_none hslot]; exact List.Perm.refl _
    | some waiting =>
        have hrest := (contents_perm_erase hslot).symm
        have hmoved : (waiting ++ [(blk, now, peer)]).Perm ((blk, now, peer) :: waiting) :=
          List.perm_append_singleton _ _
        exact (hmoved.append_right _).trans (hrest.cons _)
  have honce := hindexed.once
  unfold orphanBlocks at honce
  rw [List.map_map, (hperm.map _).nodup_iff, List.map_cons, List.nodup_cons] at honce
  exact honce.1 (List.mem_map.mpr ⟨entry, hentry, hname⟩)

end Operations

/-!
# Promotion
-/

section Promotion

variable {P : Platform} {g g' : ChainState} {host host' : Host} {loose : List OrphanEntry}

/-- What a promoting call keeps: the index, with the entries that are still to be
offered loose, and the known hashes. -/
structure Promotes (g g' : ChainState) (loose : List OrphanEntry) : Prop where
  indexed : PoolIndexed g' loose
  known : forall h, Known g h -> Known g' h

theorem offerWaiting_promotes {apply : Apply}
    (happly : forall {loose host g blk sourcePeer out}, PoolIndexed g loose -> ParentKnown g blk ->
      apply host g blk sourcePeer = .ok out -> Promotes g out.chain loose)
    {waiting : List OrphanEntry} (hindexed : PoolIndexed g (waiting ++ loose))
    (hparents : forall entry, entry ∈ waiting -> ParentKnown g entry.1)
    (hrun : offerWaiting apply waiting host g = .ok (g', host')) : Promotes g g' loose := by
  induction waiting generalizing host g with
  | nil =>
      cases hrun
      exact ⟨hindexed, fun h hknown => hknown⟩
  | cons entry rest ih =>
      rcases bind_eq_ok.mp hrun with ⟨applied, hone, hrest⟩
      have hforgot : PoolIndexed (forgetOrphan g entry.1.hash) (rest ++ loose) :=
        PoolIndexed.forgetOrphan hindexed
      have hfirst := happly hforgot (hparents entry List.mem_cons_self) hone
      have hlast := ih hfirst.indexed
        (fun e he => hfirst.known _ (hparents e (List.mem_cons_of_mem _ he))) hrest
      exact ⟨hlast.indexed, fun h hknown => hlast.known h (hfirst.known h hknown)⟩

theorem processOrphansWith_promotes {apply : Apply}
    (happly : forall {loose host g blk sourcePeer out}, PoolIndexed g loose -> ParentKnown g blk ->
      apply host g blk sourcePeer = .ok out -> Promotes g out.chain loose)
    {key : String} (hindexed : PoolIndexed g loose) (hknown : Known g key)
    (hrun : processOrphansWith apply host g key = .ok (g', host')) : Promotes g g' loose := by
  unfold processOrphansWith at hrun
  cases hslot : g.orphanPool[key]? with
  | none =>
      rw [hslot] at hrun
      cases hrun
      exact ⟨hindexed, fun h hknown => hknown⟩
  | some waiting =>
      rw [hslot] at hrun
      have hparents : forall entry, entry ∈ waiting ->
          ParentKnown (takeWaiting g key) entry.1 := by
        intro entry hentry
        have hhome : entry.1.header.parentHash = key :=
          hindexed.placed key waiting entry hslot hentry
        have hparent : Known g entry.1.header.parentHash := by rw [hhome]; exact hknown
        exact hparent
      have hpost := offerWaiting_promotes happly (hindexed.takeWaiting hslot) hparents hrun
      exact ⟨hpost.indexed, hpost.known⟩

/-- A block whose parent is known is never stored as an orphan. -/
theorem applyBlockFuel_promotes {fuel : Nat} {blk : Block} {sourcePeer : Option String}
    {out : Applied} (hindexed : PoolIndexed g loose) (hparent : ParentKnown g blk)
    (hrun : applyBlockFuel P fuel host g blk sourcePeer = .ok out) :
    Promotes g out.chain loose := by
  induction fuel generalizing loose host g blk sourcePeer out with
  | zero => cases hrun
  | succ fuel ih =>
      rcases bind_eq_ok.mp hrun with ⟨step, hstep, hrest⟩
      rcases acceptBlock_known hstep with ⟨hkept, hpromoted⟩
      have hsame : PoolIndexed step.chain loose := by
        rcases acceptBlock_pool hstep with ⟨hpool, hbyHash, _⟩ | ⟨_, hunknown, _⟩
        · unfold PoolIndexed
          rw [hpool, hbyHash]
          exact hindexed
        · exact absurd hparent hunknown
      cases hpromote : step.promote with
      | none =>
          rw [hpromote] at hrest
          cases hrest
          exact ⟨hsame, hkept⟩
      | some key =>
          rw [hpromote] at hrest
          rcases bind_eq_ok.mp hrest with ⟨⟨g', host'⟩, hprocess, hfinal⟩
          cases hfinal
          have hpost := processOrphansWith_promotes ih hsame (hpromoted key hpromote) hprocess
          exact ⟨hpost.indexed, fun h hknown => hpost.known h (hkept h hknown)⟩

end Promotion

/-!
# Runs
-/

section Runs

variable {P : Platform} {g g' : ChainState} {call : Call}

theorem applyCall_indexed (hindexed : PoolIndexed g []) (hrun : applyCall P g call = .ok g')
    (hfresh : ¬Repeats P g call.blk) : PoolIndexed g' [] := by
  rcases applyCall_ok hrun with ⟨out, hout, rfl⟩
  rcases applyBlock_first hout with ⟨step, hstep, _, hpromotion⟩
  rcases acceptBlock_pool hstep with ⟨hpool, hbyHash, _⟩ | ⟨hoffered, hunknown, hpromote, hstored⟩
  · have hsame : PoolIndexed step.chain [] := by
      unfold PoolIndexed
      rw [hpool, hbyHash]
      exact hindexed
    rcases hpromotion with ⟨_, hchain, _⟩ | ⟨key, hpromote, hprocess⟩
    · rw [hchain]
      exact hsame
    · have hknown := (acceptBlock_known hstep).2 key hpromote
      exact (processOrphansWith_promotes applyBlockFuel_promotes hsame hknown hprocess).indexed
  · rcases hpromotion with ⟨_, hchain, _⟩ | ⟨key, hother, _⟩
    · rw [hchain, hstored]
      exact hindexed.add _ _ fun hrepeated => hfresh ⟨hoffered, hunknown, hrepeated⟩
    · rw [hpromote] at hother
      cases hother

theorem applyCall_repeated (hindexed : PoolIndexed g []) (hrun : applyCall P g call = .ok g')
    (hrepeats : Repeats P g call.blk) : ¬OrphanIndexed g' := by
  rcases applyCall_ok hrun with ⟨out, hout, rfl⟩
  rcases applyBlock_first hout with ⟨step, hstep, _, hpromotion⟩
  rcases hrepeats with ⟨hoffered, hunknown, hrepeated⟩
  rcases acceptBlock_pool hstep with ⟨_, _, hparent⟩ | ⟨_, _, hpromote, hstored⟩
  · exact absurd (hparent hoffered) hunknown
  · rcases hpromotion with ⟨_, hchain, _⟩ | ⟨key, hother, _⟩
    · rw [hchain, hstored]
      exact not_indexed_of_repeated hindexed _ _ hrepeated
    · rw [hpromote] at hother
      cases hother

/-- Every state of a run. -/
def Throughout (P : Platform) (I : ChainState -> Prop) (g : ChainState) (calls : List Call) :
    Prop :=
  forall before g', before <+: calls -> applyAll P g before = .ok g' -> I g'

theorem throughout_cons {I : ChainState -> Prop} {calls : List Call} :
    Throughout P I g (call :: calls) ↔
      I g ∧ forall g', applyCall P g call = .ok g' -> Throughout P I g' calls := by
  constructor
  · intro h
    refine ⟨h [] g (List.nil_prefix) rfl, ?_⟩
    intro g' hcall before g'' hbefore hrun
    refine h (call :: before) g'' (List.cons_prefix_cons.mpr ⟨rfl, hbefore⟩) ?_
    exact bind_eq_ok.mpr ⟨g', hcall, hrun⟩
  · rintro ⟨hfirst, hrest⟩ before g' hbefore hrun
    cases before with
    | nil =>
        cases hrun
        exact hfirst
    | cons first before =>
        rcases List.cons_prefix_cons.mp hbefore with ⟨rfl, htail⟩
        rcases bind_eq_ok.mp hrun with ⟨g'', hcall, hafter⟩
        exact hrest g'' hcall before g' htail hafter

theorem throughout_nil {I : ChainState -> Prop} : Throughout P I g [] ↔ I g := by
  constructor
  · exact fun h => h [] g List.nil_prefix rfl
  · intro h before g' hbefore hrun
    rw [List.prefix_nil.mp hbefore] at hrun
    cases hrun
    exact h

theorem indexed_throughout_iff (hindexed : PoolIndexed g []) (calls : List Call) :
    Throughout P OrphanIndexed g calls ↔ NeverRepeats P g calls := by
  induction calls generalizing g with
  | nil => exact ⟨fun _ => trivial, fun _ => throughout_nil.mpr hindexed.orphanIndexed⟩
  | cons call rest ih =>
      rw [throughout_cons]
      constructor
      · rintro ⟨_, hrest⟩ g' hcall
        have hafter : OrphanIndexed g' := hrest g' hcall [] g' List.nil_prefix rfl
        have hfresh : ¬Repeats P g call.blk :=
          fun hrepeats => applyCall_repeated hindexed hcall hrepeats hafter
        exact ⟨hfresh, (ih (applyCall_indexed hindexed hcall hfresh)).mp (hrest g' hcall)⟩
      · intro hnever
        refine ⟨hindexed.orphanIndexed, fun g' hcall => ?_⟩
        rcases hnever g' hcall with ⟨hfresh, hrest⟩
        exact (ih (applyCall_indexed hindexed hcall hfresh)).mpr hrest

/-- From a chain without orphans the index agrees with the pool in every state of
a run exactly when no waiting orphan is delivered again. -/
theorem orphanIndex_iff (hpool : g.orphanPool = ∅) (hindex : g.orphanByHash = ∅)
    (calls : List Call) : Throughout P OrphanIndexed g calls ↔ NeverRepeats P g calls := by
  refine indexed_throughout_iff ?_ calls
  unfold PoolIndexed
  rw [hpool, hindex]
  exact Indexed.empty

/-- One orphan is indexed as it should be. -/
theorem orphanIndex_secondBlock :
    Throughout samplePlatform OrphanIndexed sampleGenesis [sampleCall secondBlock] := by
  refine (orphanIndex_iff rfl rfl [sampleCall secondBlock]).mpr ?_
  intro g' _
  refine ⟨?_, trivial⟩
  rintro ⟨_, _, hrepeated⟩
  have hpruned : pruneOldOrphans sampleGenesis = sampleGenesis :=
    pruneOldOrphans_eq (by decide)
  rw [hpruned] at hrepeated
  exact absurd hrepeated (by decide)

/-- Two peers deliver one orphan: it is stored twice under one entry of the index. -/
theorem secondBlock_stored_twice :
    exists g, applyAll samplePlatform sampleGenesis
        [sampleCall secondBlock, sampleCall secondBlock] = .ok g ∧ ¬OrphanIndexed g := by
  have hvalues :
      (applyAll samplePlatform sampleGenesis
          [sampleCall secondBlock, sampleCall secondBlock]).toOption.map
        (fun g => (orphanBlocks g).map Block.hash) =
      some [secondBlock.hash, secondBlock.hash] := by
    decide +kernel
  rcases toOption_map_eq_some hvalues with ⟨g, hrun, hstored⟩
  refine ⟨g, hrun, fun hindexed => ?_⟩
  have honce := hindexed.once
  rw [hstored] at honce
  exact (List.nodup_cons.mp honce).1 List.mem_cons_self

end Runs

end VisionCore
