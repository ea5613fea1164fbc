import VisionCore.Chain.Rejection
import VisionCore.Chain.Replay

/-!
# The verdict on a block

What acceptance reads from the chain to validate a block is a function of the
path of its parent: the retarget window and the account state do not depend on
whether the parent is the tip, an inner canonical block or a side block.
-/

namespace VisionCore

open Std
open Foundation

/-!
# The window of a path
-/

/-- `ancestorWindowLoop` on a path, newest block first. -/
def lineWindowLoop : Nat -> List Block -> List Block -> List Block
  | 0, _, chain => chain
  | _ + 1, [], chain => chain
  | limit + 1, blk :: rest, chain =>
      if isZeroHash blk.header.parentHash then blk :: chain
      else lineWindowLoop limit rest (blk :: chain)

def lineWindow (l : List Block) : List Block :=
  lineWindowLoop (retargetWindow + 1) l []

theorem isZeroHash_genesis : isZeroHash genesisBlock.header.parentHash = true := by
  decide

theorem ancestorWindowLoop_eq {g : ChainState} {blk : Block} {rest chain : List Block}
    {limit : Nat} (hl : KnownPath g (blk :: rest)) :
    ancestorWindowLoop g limit blk.hash chain = lineWindowLoop limit (blk :: rest) chain := by
  induction limit generalizing blk rest chain with
  | zero => rfl
  | succ limit ih =>
      have hlookup : resolveBlock g blk.hash = some blk := hl.lookup List.mem_cons_self
      unfold ancestorWindowLoop lineWindowLoop
      rw [hlookup]
      dsimp only
      split
      · rfl
      · rename_i hzero
        cases rest with
        | nil =>
            cases hl with
            | root _ => exact absurd isZeroHash_genesis hzero
        | cons parent rest =>
            have hparent : blk.header.parentHash = parent.hash := Path.parent_eq (s := []) hl
            rw [hparent]
            exact ih hl.tail

/-!
# Validation along a path
-/

/-- Stages 3 to 6 for a block on top of a path with the given account state. -/
def lineVerdict (P : Platform) (now : UInt64) (blk parent : Block) (rest : List Block)
    (state : TxExecutionState) : Except (Stop RejectReason) TxExecutionState :=
  validateInContext P now blk parent (lineWindow (parent :: rest)) (.ok state)

section Validation

variable {P : Platform} {D : Block -> Prop} {host : Host} {g : ChainState} {blk parent : Block}
  {rest : List Block} {state : TxExecutionState} {sourcePeer : Option String}

theorem validateAgainstParent_of_state (hl : KnownPath g (parent :: rest))
    (hparent : blk.header.parentHash = parent.hash)
    (hstate : parentStateOf P g parent.hash = .ok state) (now : UInt64) :
    validateAgainstParent P now g blk = lineVerdict P now blk parent rest state := by
  have hlookup : resolveBlock g parent.hash = some parent := hl.lookup List.mem_cons_self
  unfold validateAgainstParent collectAncestorWindow
  rw [hparent, hlookup, hstate, ancestorWindowLoop_eq hl]
  rfl

theorem validateAgainstParent_eq (hg : Represents P D g) (hr : Replays P g)
    (hl : KnownPath g (parent :: rest)) (hparent : blk.header.parentHash = parent.hash)
    (hstate : lineState P (parent :: rest) = .ok state) (now : UInt64) :
    validateAgainstParent P now g blk = lineVerdict P now blk parent rest state :=
  validateAgainstParent_of_state hl hparent (parentStateOf_eq hg hr hl hstate) now

/-!
# The verdict
-/

/-- The call ends and rejects the block. -/
def Rejects (P : Platform) (host : Host) (g : ChainState) (blk : Block)
    (sourcePeer : Option String) : Prop :=
  exists out reason, applyBlock P host g blk sourcePeer = .ok out ∧
    out.result = .rejected reason

/-- A block on top of a path fails a check that reads the block alone, or one of
stages 3 to 6. -/
def RejectedOn (P : Platform) (now : UInt64) (blk parent : Block) (rest : List Block)
    (state : TxExecutionState) : Prop :=
  (exists reason, checkStructure P blk = .error reason) ∨
    exists reason, lineVerdict P now blk parent rest state = .error (.err reason)

/-- A block that is new, on top of a known path. -/
structure Arrives (g : ChainState) (blk parent : Block) (rest : List Block) : Prop where
  path : KnownPath g (parent :: rest)
  parent_eq : blk.header.parentHash = parent.hash
  number : blk.header.number.toNat = parent.header.number.toNat + 1
  unknown : resolveBlock g blk.hash = none

theorem Arrives.number_ne (h : Arrives g blk parent rest) : blk.header.number ≠ 0 := by
  intro hzero
  have hnumber := h.number
  rw [hzero] at hnumber
  exact absurd hnumber (Nat.succ_ne_zero _).symm

theorem Arrives.fresh (h : Arrives g blk parent rest) (hg : Represents P D g) :
    blk.hash ∉ g.seenBlocks :=
  fun hseen => hg.seen_known hseen h.unknown

theorem Arrives.parentKnown (h : Arrives g blk parent rest) (hg : Represents P D g) :
    ParentKnown g blk := by
  rw [hg.parentKnown_iff, h.parent_eq]
  exact ⟨parent, h.path.lookup List.mem_cons_self⟩

theorem Arrives.work_ok (h : Arrives g blk parent rest) (hg : Represents P D g)
    (hw : WorkBounded g) :
    addU128 P (g.workOf blk.header.parentHash) blk.header.difficulty.toNat =
      .ok (g.workOf blk.header.parentHash + blk.header.difficulty.toNat) := by
  have hle := hw.le h.path
  have hlt := hg.lineWork_lt h.path
  have hblk := blockWork_le blk
  unfold blockWork at hblk
  rw [h.parent_eq]
  exact addU128_ok P (by omega)

/-- The pipeline on an arriving block that passes the structural checks. -/
theorem Arrives.acceptBlock_eq (h : Arrives g blk parent rest) (hg : Represents P D g)
    (hw : WorkBounded g) (hstructure : checkStructure P blk = .ok ()) :
    acceptBlock P host g blk sourcePeer =
      match validateAgainstParent P host.now g blk with
      | .error (.fault f) => .error f
      | .error (.err reason) => .ok (rejectStep host.tick g reason)
      | .ok state =>
          if blk.header.parentHash = g.tipHash then
            .ok (extendCanonical P host.tick g blk
              (g.workOf blk.header.parentHash + blk.header.difficulty.toNat) state)
          else
            storeSideChain P host.tick g blk (g.workOf g.tipHash)
              (g.workOf blk.header.parentHash + blk.header.difficulty.toNat) := by
  have hseen : ¬g.seenBlocks.contains blk.hash = true := h.fresh hg
  have hparent : ¬(!g.canonIndex.contains blk.header.parentHash &&
      !g.sideBlocks.contains blk.header.parentHash) = true :=
    fun hnone => not_parentKnown_iff.mp hnone (h.parentKnown hg)
  unfold acceptBlock
  rw [hstructure]
  dsimp only
  rw [if_neg hseen, if_neg h.number_ne, h.work_ok hg hw]
  simp only [bind, Except.bind, if_neg hparent]
  rfl

/-- Without write failures a block is rejected exactly on the verdict of its path. -/
theorem Arrives.rejects_iff (h : Arrives g blk parent rest) (hg : Represents P D g)
    (hw : WorkBounded g) (hr : Replays P g) (hstate : lineState P (parent :: rest) = .ok state)
    (hwrites : forall i, host.writeOk i = true) :
    Rejects P host g blk sourcePeer ↔ RejectedOn P host.now blk parent rest state := by
  have hverdict := validateAgainstParent_eq hg hr h.path h.parent_eq hstate host.now
  constructor
  · rintro ⟨out, reason, hrun, hresult⟩
    rcases applyBlock_first hrun with ⟨step, hstep, hout, _⟩
    rw [hresult] at hout
    rcases (acceptBlock_cases hstep).refused hwrites hout.symm with
      hstructure | hseen | hnumber | ⟨_, reason', hinvalid⟩
    · exact Or.inl hstructure
    · exact absurd hseen (h.fresh hg)
    · exact absurd hnumber h.number_ne
    · exact Or.inr ⟨reason', hverdict.symm.trans hinvalid⟩
  · rintro (⟨reason, hstructure⟩ | ⟨reason, hinvalid⟩)
    · have hstep : acceptBlock P host g blk sourcePeer = .ok (rejectStep host g reason) := by
        unfold acceptBlock
        rw [hstructure]
      exact ⟨_, reason, applyBlock_of_step hstep rfl, rfl⟩
    · cases hstructure : checkStructure P blk with
      | error reason' =>
          have hstep : acceptBlock P host g blk sourcePeer =
              .ok (rejectStep host g reason') := by
            unfold acceptBlock
            rw [hstructure]
          exact ⟨_, reason', applyBlock_of_step hstep rfl, rfl⟩
      | ok _ =>
          have hstep : acceptBlock P host g blk sourcePeer =
              .ok (rejectStep host.tick g reason) := by
            rw [h.acceptBlock_eq hg hw hstructure, hverdict, hinvalid]
          exact ⟨_, reason, applyBlock_of_step hstep rfl, rfl⟩

end Validation

/-- Two nodes that know a block's ancestors give the same verdict on it. -/
theorem verdict_view_independent {P : Platform} {D₁ D₂ : Block -> Prop}
    {s₁ s₂ g₁ g₂ : ChainState} {calls₁ calls₂ : List Call} {host₁ host₂ : Host}
    {blk parent : Block} {rest : List Block} {peer₁ peer₂ : Option String}
    (hnumbered₁ : NumberedFrom P D₁) (hnumbered₂ : NumberedFrom P D₂)
    (hgenesis₁ : GenesisApplied P s₁) (hgenesis₂ : GenesisApplied P s₂)
    (hcalls₁ : forall call, call ∈ calls₁ -> D₁ call.blk)
    (hcalls₂ : forall call, call ∈ calls₂ -> D₂ call.blk)
    (hrun₁ : applyAll P s₁ calls₁ = .ok g₁) (hrun₂ : applyAll P s₂ calls₂ = .ok g₂)
    (harrives₁ : Arrives g₁ blk parent rest) (harrives₂ : Arrives g₂ blk parent rest)
    (hclock : host₁.now = host₂.now) (hwrites₁ : forall i, host₁.writeOk i = true)
    (hwrites₂ : forall i, host₂.writeOk i = true) :
    Rejects P host₁ g₁ blk peer₁ ↔ Rejects P host₂ g₂ blk peer₂ := by
  have hworks₁ := (stepInvariant_exactWork P D₁).applyAll hnumbered₁ hgenesis₁.represents
    hgenesis₁.exactWork hcalls₁ hrun₁
  have hworks₂ := (stepInvariant_exactWork P D₂).applyAll hnumbered₂ hgenesis₂.represents
    hgenesis₂.exactWork hcalls₂ hrun₂
  have hreplays₁ := ((stepInvariant_replays P D₁).applyAll hnumbered₁ hgenesis₁.represents
    hgenesis₁.replays hcalls₁ hrun₁).2
  have hreplays₂ := ((stepInvariant_replays P D₂).applyAll hnumbered₂ hgenesis₂.represents
    hgenesis₂.replays hcalls₂ hrun₂).2
  rcases hreplays₁.known harrives₁.path with ⟨state, hstate⟩
  rw [harrives₁.rejects_iff hworks₁.1 hworks₁.2.bounded hreplays₁ hstate hwrites₁,
    harrives₂.rejects_iff hworks₂.1 hworks₂.2.bounded hreplays₂ hstate hwrites₂, hclock]

/-- The lookups by which the second sample block arrives on the first. -/
def sampleView (g : ChainState) : List (Option Block) :=
  [genesisHash, firstBlock.hash, secondBlock.hash].map (resolveBlock g)

theorem secondBlock_arrives {g : ChainState}
    (hview : sampleView g = [some genesisBlock, some firstBlock, none]) :
    Arrives g secondBlock firstBlock [genesisBlock] := by
  unfold sampleView at hview
  simp only [List.map_cons, List.map_nil, List.cons.injEq, and_true] at hview
  have hlinks : firstBlock.header.parentHash = genesisHash ∧ firstBlock.hash ≠ genesisHash := by
    decide +kernel
  have hsecond : secondBlock.header.parentHash = firstBlock.hash ∧
      secondBlock.header.number.toNat = firstBlock.header.number.toNat + 1 := by
    decide +kernel
  exact ⟨Path.step (Path.root hview.1) hview.2.1 hlinks.1 hlinks.2, hsecond.1, hsecond.2,
    hview.2.2⟩

/-- One verdict on the second block where the first is the tip and where it is a
side block. -/
theorem verdict_view_independent_sampleBlocks :
    exists g₁ g₂, applyAll samplePlatform sampleGenesis ([firstBlock].map sampleCall) = .ok g₁ ∧
      applyAll samplePlatform sampleGenesis ([rivalFirst, firstBlock].map sampleCall) = .ok g₂ ∧
      (Rejects samplePlatform sampleHost g₁ secondBlock none ↔
        Rejects samplePlatform sampleHost g₂ secondBlock none) := by
  have hcalls₁ : [firstBlock] ⊆ sampleBlocks := by simp [sampleBlocks]
  have hcalls₂ : [rivalFirst, firstBlock] ⊆ sampleBlocks := by simp [sampleBlocks]
  have hruns₁ : (applyAll samplePlatform sampleGenesis
      ([firstBlock].map sampleCall)).toOption.map sampleView =
        some [some genesisBlock, some firstBlock, none] := by
    decide +kernel
  have hruns₂ : (applyAll samplePlatform sampleGenesis
      ([rivalFirst, firstBlock].map sampleCall)).toOption.map sampleView =
        some [some genesisBlock, some firstBlock, none] := by
    decide +kernel
  rcases toOption_map_eq_some hruns₁ with ⟨g₁, hrun₁, hview₁⟩
  rcases toOption_map_eq_some hruns₂ with ⟨g₂, hrun₂, hview₂⟩
  have hwrites : forall i, sampleHost.writeOk i = true := fun _ => rfl
  exact ⟨g₁, g₂, hrun₁, hrun₂, verdict_view_independent sampleBlocks_numbered
    sampleBlocks_numbered sampleGenesis_applied sampleGenesis_applied
    (sampleCalls_delivered hcalls₁) (sampleCalls_delivered hcalls₂) hrun₁ hrun₂
    (secondBlock_arrives hview₁) (secondBlock_arrives hview₂) rfl hwrites hwrites⟩

end VisionCore
