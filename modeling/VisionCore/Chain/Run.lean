import VisionCore.Chain.Effect

/-!
# Runs of block acceptance

A run is a list of calls of `applyBlock`, each with its own host.  An invariant
that the effect of a step keeps, and that reads nothing of the orphan pool,
holds along every run.
-/

namespace VisionCore

open Std
open Foundation

/-!
# Calls
-/

structure Call where
  host : Host
  blk : Block
  sourcePeer : Option String

def applyCall (P : Platform) (g : ChainState) (call : Call) : Except Fault ChainState := do
  let applied <- applyBlock P call.host g call.blk call.sourcePeer
  return applied.chain

def applyAll (P : Platform) (g : ChainState) (calls : List Call) : Except Fault ChainState :=
  calls.foldlM (applyCall P) g

/-- A state in which genesis has been applied to an empty chain. -/
def GenesisApplied (P : Platform) (g : ChainState) : Prop :=
  exists (host : Host) (db : Db) (sourcePeer : Option String) (out : Applied),
    applyBlock P host (ChainState.empty db) genesisBlock sourcePeer = .ok out ∧
      out.result = .canonExtension 0 ∧ g = out.chain

theorem applyCall_ok {P : Platform} {g g' : ChainState} {call : Call}
    (h : applyCall P g call = .ok g') :
    exists out, applyBlock P call.host g call.blk call.sourcePeer = .ok out ∧ g' = out.chain := by
  rcases bind_eq_ok.mp h with ⟨out, hout, hfinal⟩
  exact ⟨out, hout, (Except.ok.inj hfinal).symm⟩

/-!
# Invariants of a step
-/

structure StepInvariant (P : Platform) (D : Block -> Prop) (J : Host -> ChainState -> Prop) :
    Prop where
  effect : forall {host g blk sourcePeer step}, Represents P D g -> D blk ->
    Effect P D host g blk sourcePeer step -> J host g -> J step.host step.chain
  take : forall {host g} (key : String), J host g -> J host (takeWaiting g key)
  forget : forall {host g} (hash : String), J host g -> J host (forgetOrphan g hash)

theorem Represents.takeWaiting {P : Platform} {D : Block -> Prop} {g : ChainState}
    (hg : Represents P D g) (key : String) : Represents P D (takeWaiting g key) :=
  hg.congr rfl rfl rfl rfl fun hwaits => hg.waiting (waits_takeWaiting.mp hwaits).2

theorem Represents.forgetOrphan {P : Platform} {D : Block -> Prop} {g : ChainState}
    (hg : Represents P D g) (hash : String) : Represents P D (forgetOrphan g hash) :=
  hg.congr rfl rfl rfl rfl hg.waiting

namespace StepInvariant

variable {P : Platform} {D : Block -> Prop} {J J' : Host -> ChainState -> Prop}

theorem and (hJ : StepInvariant P D J) (hJ' : StepInvariant P D J') :
    StepInvariant P D fun host g => J host g ∧ J' host g where
  effect := fun hg hD heffect hpre =>
    ⟨hJ.effect hg hD heffect hpre.1, hJ'.effect hg hD heffect hpre.2⟩
  take := fun key hpre => ⟨hJ.take key hpre.1, hJ'.take key hpre.2⟩
  forget := fun hash hpre => ⟨hJ.forget hash hpre.1, hJ'.forget hash hpre.2⟩

theorem promotion (hJ : StepInvariant P D J) (hnumbered : NumberedFrom P D) :
    PromotionInvariant P fun offered _ host g =>
      Represents P D g ∧ (forall blk, blk ∈ offered -> D blk) ∧ J host g where
  accept := by
    rintro offered host g blk sourcePeer step ⟨hg, hoffered, hpre⟩ hrun
    have hD := hoffered blk List.mem_cons_self
    have heffect := hg.effect hnumbered hD (acceptBlock_transition hrun)
    exact ⟨heffect.represents hg hD, fun b hb => hoffered b (List.mem_cons_of_mem _ hb),
      hJ.effect hg hD heffect hpre⟩
  idle := fun hpre _ => hpre
  take := by
    rintro offered key host g waiting ⟨hg, hoffered, hpre⟩ hslot
    refine ⟨hg.takeWaiting key, ?_, hJ.take key hpre⟩
    intro b hb
    cases List.mem_append.mp hb with
    | inl hwaiting =>
        rcases List.mem_map.mp hwaiting with ⟨entry, hentry, rfl⟩
        exact (hg.waiting ⟨waiting, hslot, hentry⟩).1
    | inr hold => exact hoffered b hold
  forget := by
    rintro offered blk host g ⟨hg, hoffered, hpre⟩
    exact ⟨hg.forgetOrphan blk.hash, hoffered, hJ.forget blk.hash hpre⟩

theorem applyBlock (hJ : StepInvariant P D J) (hnumbered : NumberedFrom P D) {host : Host}
    {g : ChainState} {blk : Block} {sourcePeer : Option String} {out : Applied}
    (hg : Represents P D g) (hD : D blk) (hpre : J host g)
    (hrun : applyBlock P host g blk sourcePeer = .ok out) :
    Represents P D out.chain ∧ J out.host out.chain := by
  have hoffered : forall b, b ∈ [blk] -> D b := by simpa using hD
  have hpost := (hJ.promotion hnumbered).applyBlock
    (And.intro hg (And.intro hoffered hpre)) hrun
  exact ⟨hpost.1, hpost.2.2⟩

end StepInvariant

/-- The representation itself is a step invariant with nothing added. -/
theorem stepInvariant_true (P : Platform) (D : Block -> Prop) :
    StepInvariant P D fun _ _ => True where
  effect := fun _ _ _ _ => trivial
  take := fun _ _ => trivial
  forget := fun _ _ => trivial

section Runs

variable {P : Platform} {D : Block -> Prop} {J : ChainState -> Prop} {g g' : ChainState}
  {calls : List Call}

/-- What a step keeps whatever the host, a run keeps. -/
theorem StepInvariant.applyAll (hJ : StepInvariant P D fun _ g => J g)
    (hnumbered : NumberedFrom P D) (hg : Represents P D g) (hpre : J g)
    (hcalls : forall call, call ∈ calls -> D call.blk) (hrun : applyAll P g calls = .ok g') :
    Represents P D g' ∧ J g' := by
  refine foldlM_induction (I := fun g => Represents P D g ∧ J g) ?_ ⟨hg, hpre⟩ hrun
  rintro g call g' hcall ⟨hg, hpre⟩ hstep
  rcases applyCall_ok hstep with ⟨out, hout, rfl⟩
  exact hJ.applyBlock hnumbered hg (hcalls call hcall) hpre hout

theorem Represents.applyAll (hnumbered : NumberedFrom P D) (hg : Represents P D g)
    (hcalls : forall call, call ∈ calls -> D call.blk) (hrun : applyAll P g calls = .ok g') :
    Represents P D g' :=
  ((stepInvariant_true P D).applyAll (J := fun _ => True) hnumbered hg trivial hcalls hrun).1

end Runs

/-!
# Applied genesis
-/

/-- A call that accepts genesis leaves the genesis case's state. -/
theorem applyBlock_genesis {P : Platform} {host : Host} {g : ChainState}
    {sourcePeer : Option String} {out : Applied} {height : UInt64}
    (hrun : applyBlock P host g genesisBlock sourcePeer = .ok out)
    (hresult : out.result = .canonExtension height) :
    out.chain = genesisApplied g genesisBlock := by
  rcases applyBlock_first hrun with ⟨step, hstep, hout, hcases⟩
  rw [hout] at hresult
  have htransition := acceptBlock_transition hstep
  cases htransition with
  | rejected _ => cases hresult
  | orphaned _ _ _ => cases hresult
  | recorded _ _ _ _ => cases hresult
  | aborted _ _ _ _ _ => cases hresult
  | extended hvetted _ _ _ => exact absurd rfl hvetted.number_ne
  | reorganised hvetted _ _ _ _ _ _ _ => exact absurd rfl hvetted.number_ne
  | genesis _ _ _ _ _ =>
      rcases hcases with ⟨_, hchain, _⟩ | ⟨key, hkey, _⟩
      · exact hchain
      · cases hkey

theorem GenesisApplied.eq {P : Platform} {g : ChainState} (h : GenesisApplied P g) :
    exists db, g = genesisApplied (ChainState.empty db) genesisBlock := by
  rcases h with ⟨host, db, sourcePeer, out, hrun, hresult, rfl⟩
  exact ⟨db, applyBlock_genesis hrun hresult⟩

/-- A chain that consists of genesis alone. -/
structure GenesisOnly (g : ChainState) : Prop where
  blocks : g.blocks = [genesisBlock]
  index : forall h n, g.canonIndex[h]? = some n ↔ h = genesisHash ∧ n = 0
  sideBlocks : g.sideBlocks = ∅
  seen : forall h, h ∈ g.seenBlocks -> h = genesisHash
  pool : g.orphanPool = ∅

theorem GenesisOnly.resolve {g : ChainState} (h : GenesisOnly g) {hash : String} {blk : Block} :
    resolveBlock g hash = some blk ↔ hash = genesisHash ∧ blk = genesisBlock := by
  unfold resolveBlock
  by_cases hhash : hash = genesisHash
  · have hslot := (h.index hash 0).mpr ⟨hhash, rfl⟩
    rw [hslot, h.blocks]
    simp [hhash, eq_comm]
  · have hslot : g.canonIndex[hash]? = none := by
      cases hslot : g.canonIndex[hash]? with
      | none => rfl
      | some n => exact absurd ((h.index hash n).mp hslot).1 hhash
    rw [hslot, h.sideBlocks]
    simp [hhash]

theorem GenesisOnly.knownPath {g : ChainState} (h : GenesisOnly g) {l : List Block}
    (hl : KnownPath g l) : l = [genesisBlock] := by
  cases hl with
  | root _ => rfl
  | step _ hb _ hne => exact absurd (h.resolve.mp hb).1 hne

theorem GenesisOnly.represents {P : Platform} {D : Block -> Prop} {g : ChainState}
    (h : GenesisOnly g) (hguarded : genesisHash ∈ g.seenBlocks ∨ AvoidsGenesis P D) :
    Represents P D g := by
  have hroot : KnownPath g [genesisBlock] := Path.root (h.resolve.mpr ⟨rfl, rfl⟩)
  constructor
  · rw [h.blocks]
    exact hroot
  · constructor
    · intro hash blk hknown
      rcases h.resolve.mp hknown with ⟨rfl, rfl⟩
      rfl
    · intro hash blk hknown
      rcases h.resolve.mp hknown with ⟨_, rfl⟩
      exact ⟨[], hroot⟩
  · intro hash n
    rw [h.index, h.blocks]
    simp [eq_comm]
  · intro hash _
    simp [h.sideBlocks]
  · intro blk parent rest hl
    have heq := h.knownPath hl
    simp at heq
  · intro hash blk hknown
    rw [(h.resolve.mp hknown).2]
    decide
  · intro hash blk hknown
    exact Or.inl (h.resolve.mp hknown).2
  · intro hash hseen
    rw [h.resolve.mpr ⟨h.seen hash hseen, rfl⟩]
    simp
  · intro hash blk hknown
    exact Or.inr (h.resolve.mp hknown).1
  · exact hguarded
  · rintro key entry ⟨waiting, hslot, _⟩
    rw [h.pool] at hslot
    simp at hslot

theorem genesisOnly_genesisApplied {g : ChainState} (hblocks : g.blocks = [])
    (hcanon : g.canonIndex = ∅) (hside : g.sideBlocks = ∅) (hseen : g.seenBlocks = ∅)
    (hpool : g.orphanPool = ∅) : GenesisOnly (genesisApplied g genesisBlock) where
  blocks := by
    simp [genesisApplied, pushCanonical, hblocks]
  index := by
    intro h n
    simp only [genesisApplied, pushCanonical, hcanon, getElem?_insert_ite,
      genesisBlock_hash, genesisBlock_number]
    by_cases hh : genesisHash = h
    · simp [hh, eq_comm]
    · have hh' : h ≠ genesisHash := fun heq => hh heq.symm
      simp [hh, hh']
  sideBlocks := hside
  seen := by
    intro h hh
    rcases mem_insert_set_iff.mp hh with heq | hmem
    · exact heq.symm
    · simp [hseen] at hmem
  pool := hpool

theorem genesisApplied_seen (g : ChainState) :
    genesisHash ∈ (genesisApplied g genesisBlock).seenBlocks :=
  mem_insert_set_iff.mpr (Or.inl rfl)

theorem GenesisApplied.represents {P : Platform} {D : Block -> Prop} {g : ChainState}
    (h : GenesisApplied P g) : Represents P D g := by
  rcases h.eq with ⟨db, rfl⟩
  exact (genesisOnly_genesisApplied rfl rfl rfl rfl rfl).represents
    (Or.inl (genesisApplied_seen _))

end VisionCore
