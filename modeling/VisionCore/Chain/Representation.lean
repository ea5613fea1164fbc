import VisionCore.Chain.Promotion
import VisionCore.Chain.Transition
import VisionCore.Chain.Validation
import VisionCore.Foundation.Lineage

/-!
# Representation of the chain

The known blocks of a chain state, canonical or not, form a rooted lineage over
genesis.  `Represents` says that the vector of canonical blocks is a path of it,
that the indexes agree with the vector, and that heights and timestamps grow
along every path.  The invariant needs one thing that acceptance does not check:
the number of a block is one more than its parent's.
-/

namespace VisionCore

open Std
open Foundation

def chainLineage : Lineage String Block where
  name := Block.hash
  parent := fun blk => blk.header.parentHash
  root := genesisBlock

/-- A list of known blocks from the newest down to genesis. -/
abbrev KnownPath (g : ChainState) (l : List Block) : Prop :=
  Path chainLineage (resolveBlock g) l

@[simp] theorem chainLineage_name (blk : Block) : chainLineage.name blk = blk.hash := rfl

@[simp] theorem chainLineage_parent (blk : Block) :
    chainLineage.parent blk = blk.header.parentHash := rfl

@[simp] theorem chainLineage_root : chainLineage.root = genesisBlock := rfl

theorem ChainState.tipHash_congr {g g' : ChainState} (hblocks : g'.blocks = g.blocks) :
    g'.tipHash = g.tipHash := by
  unfold ChainState.tipHash
  rw [hblocks]

theorem ChainState.tipHash_of_last {g : ChainState} {tip : Block}
    (htip : g.blocks.getLast? = some tip) : g.tipHash = tip.hash := by
  unfold ChainState.tipHash
  rw [htip]
  rfl

theorem ChainState.currentHeight_of_last {g : ChainState} {tip : Block}
    (htip : g.blocks.getLast? = some tip) : g.currentHeight = tip.header.number := by
  unfold ChainState.currentHeight
  rw [htip]

/-!
# Conditions on the delivered blocks

`D` is the set of blocks that are handed to acceptance.
-/

/-- A block that a node may come to know. -/
def Candidate (P : Platform) (D : Block -> Prop) (blk : Block) : Prop :=
  blk = genesisBlock ∨ (D blk ∧ Sealed P blk)

/-- Every sealed block above genesis is numbered one more than its parent. -/
def NumberedFrom (P : Platform) (D : Block -> Prop) : Prop :=
  forall blk parent, D blk -> Sealed P blk -> blk.header.number ≠ 0 ->
    Candidate P D parent -> blk.header.parentHash = parent.hash ->
      blk.header.number.toNat = parent.header.number.toNat + 1

/-- No sealed block above genesis carries the genesis hash. -/
def AvoidsGenesis (P : Platform) (D : Block -> Prop) : Prop :=
  forall blk, D blk -> Sealed P blk -> blk.header.number ≠ 0 -> blk.hash ≠ genesisHash

/-!
# The invariant
-/

structure Represents (P : Platform) (D : Block -> Prop) (g : ChainState) : Prop where
  chain : KnownPath g g.blocks.reverse
  rooted : Rooted chainLineage (resolveBlock g)
  index : forall h n, g.canonIndex[h]? = some n ↔
    exists blk, blk ∈ g.blocks ∧ blk.hash = h ∧ blk.header.number = n
  apart : forall h, h ∈ g.canonIndex -> h ∉ g.sideBlocks
  linked : forall {blk parent : Block} {rest : List Block}, KnownPath g (blk :: parent :: rest) ->
    blk.header.number.toNat = parent.header.number.toNat + 1 ∧
      parent.header.timestamp.toNat < blk.header.timestamp.toNat
  timely : forall {h blk}, resolveBlock g h = some blk ->
    blk.header.timestamp.toNat < timestampBound
  candidate : forall {h blk}, resolveBlock g h = some blk -> Candidate P D blk
  seen_known : forall {h}, h ∈ g.seenBlocks -> resolveBlock g h ≠ none
  known_seen : forall {h blk}, resolveBlock g h = some blk -> h ∈ g.seenBlocks ∨ h = genesisHash
  guarded : genesisHash ∈ g.seenBlocks ∨ AvoidsGenesis P D
  waiting : forall {key : String} {entry : OrphanEntry}, Waits g key entry ->
    D entry.1 ∧ entry.1.header.parentHash = key

namespace Represents

variable {P : Platform} {D : Block -> Prop} {g g' : ChainState} {blk parent : Block}
  {rest l : List Block}

/-!
# Heights along a path
-/

/-- The height of a known block is the number of its ancestors. -/
theorem number_eq (hg : Represents P D g) (hl : KnownPath g (blk :: rest)) :
    blk.header.number.toNat = rest.length := by
  induction rest generalizing blk with
  | nil =>
      cases hl with
      | root _ => rfl
  | cons parent rest ih =>
      rw [(hg.linked hl).1, ih hl.tail, List.length_cons]

theorem number_le_timestamp (hg : Represents P D g) (hl : KnownPath g (blk :: rest)) :
    blk.header.number.toNat ≤ blk.header.timestamp.toNat := by
  induction rest generalizing blk with
  | nil =>
      cases hl with
      | root _ => exact Nat.le_refl _
  | cons parent rest ih =>
      have hlinked := hg.linked hl
      have hparent := ih hl.tail
      omega

/-- On the reversal of a path the height of a block is its position. -/
theorem getElem?_reverse (hg : Represents P D g) (hl : KnownPath g l) (hmem : blk ∈ l) :
    l.reverse[blk.header.number.toNat]? = some blk := by
  rcases List.append_of_mem hmem with ⟨s, t, rfl⟩
  rw [hg.number_eq hl.suffix, List.reverse_append, List.reverse_cons, List.append_assoc,
    List.getElem?_append_right (by simp)]
  simp

theorem blocks_getElem? (hg : Represents P D g) (hmem : blk ∈ g.blocks) :
    g.blocks[blk.header.number.toNat]? = some blk := by
  have h := hg.getElem?_reverse hg.chain (List.mem_reverse.mpr hmem)
  rwa [List.reverse_reverse] at h

theorem number_of_getElem? (hg : Represents P D g) {i : Nat} (hi : g.blocks[i]? = some blk) :
    blk.header.number.toNat = i := by
  have hat := hg.blocks_getElem? (List.mem_of_getElem? hi)
  have hlt : blk.header.number.toNat < g.blocks.length :=
    (List.getElem?_eq_some_iff.mp hat).1
  exact (List.getElem?_inj hlt (List.nodup_reverse.mp hg.chain.nodup)).mp (hat.trans hi.symm)

/-- Two blocks of a path with one hash are equal. -/
theorem eq_of_hash {b : Block} (hl : KnownPath g l) (hblk : blk ∈ l) (hb : b ∈ l)
    (hhash : b.hash = blk.hash) : b = blk := by
  have hlookup := hl.lookup hblk
  rw [chainLineage_name, ← hhash, ← chainLineage_name, hl.lookup hb] at hlookup
  exact Option.some.inj hlookup

/-- Two blocks of a path with one number are equal. -/
theorem eq_of_number (hg : Represents P D g) {b : Block} (hl : KnownPath g l) (hblk : blk ∈ l)
    (hb : b ∈ l) (hnumber : b.header.number = blk.header.number) : b = blk := by
  have hat := hg.getElem?_reverse hl hblk
  rw [← hnumber, hg.getElem?_reverse hl hb] at hat
  exact Option.some.inj hat

theorem path_length_lt (hg : Represents P D g) (hl : KnownPath g l) : l.length < u64Bound := by
  cases l with
  | nil => exact absurd rfl hl.ne_nil
  | cons tip rest =>
      have hnumber := hg.number_eq hl
      have htime := hg.number_le_timestamp hl
      have hbound := hg.timely (hl.lookup List.mem_cons_self)
      have hlt : timestampBound + 1 < u64Bound := by decide
      rw [List.length_cons]
      omega

theorem length_lt (hg : Represents P D g) : g.blocks.length < u64Bound := by
  rw [← List.length_reverse]
  exact hg.path_length_lt hg.chain

/-!
# Canonical and side blocks
-/

theorem resolve_of_mem (hg : Represents P D g) (hmem : blk ∈ g.blocks) :
    resolveBlock g blk.hash = some blk :=
  hg.chain.lookup (List.mem_reverse.mpr hmem)

theorem canonIndex_of_mem (hg : Represents P D g) (hmem : blk ∈ g.blocks) :
    g.canonIndex[blk.hash]? = some blk.header.number :=
  (hg.index _ _).mpr ⟨blk, hmem, rfl, rfl⟩

theorem mem_canonIndex_iff (hg : Represents P D g) {h : String} :
    h ∈ g.canonIndex ↔ exists blk, blk ∈ g.blocks ∧ blk.hash = h := by
  constructor
  · intro hmem
    rcases (hg.index h _).mp (ExtTreeMap.getElem?_eq_some_getElem hmem) with
      ⟨blk, hblk, hname, _⟩
    exact ⟨blk, hblk, hname⟩
  · rintro ⟨blk, hblk, rfl⟩
    exact ExtTreeMap.mem_iff_isSome_getElem?.mpr (by rw [hg.canonIndex_of_mem hblk]; rfl)

theorem resolve_of_not_mem {h : String} (hh : h ∉ g.canonIndex) :
    resolveBlock g h = g.sideBlocks[h]? := by
  unfold resolveBlock
  rw [ExtTreeMap.getElem?_eq_none hh]

theorem parentKnown_iff (hg : Represents P D g) :
    ParentKnown g blk ↔ exists parent, resolveBlock g blk.header.parentHash = some parent := by
  unfold ParentKnown
  by_cases hcanon : blk.header.parentHash ∈ g.canonIndex
  · rcases hg.mem_canonIndex_iff.mp hcanon with ⟨parent, hmem, hname⟩
    rw [← hname, hg.resolve_of_mem hmem]
    simp [hname, hcanon]
  · rw [resolve_of_not_mem hcanon, ← Option.isSome_iff_exists,
      ← ExtTreeMap.mem_iff_isSome_getElem?]
    simp [hcanon]

theorem take_reverse (hg : Represents P D g) (hmem : blk ∈ g.blocks) :
    (g.blocks.take (blk.header.number.toNat + 1)).reverse =
      blk :: (g.blocks.take blk.header.number.toNat).reverse := by
  rw [List.take_add_one, hg.blocks_getElem? hmem]
  simp

/-- The canonical blocks up to one of them, newest first, are its path. -/
theorem canonical_path (hg : Represents P D g) (hmem : blk ∈ g.blocks) :
    KnownPath g (g.blocks.take (blk.header.number.toNat + 1)).reverse := by
  have hsplit : g.blocks.reverse =
      (g.blocks.drop (blk.header.number.toNat + 1)).reverse ++
        (g.blocks.take (blk.header.number.toNat + 1)).reverse := by
    rw [← List.reverse_append, List.take_append_drop]
  have hchain := hg.chain
  rw [hsplit, hg.take_reverse hmem] at hchain
  rw [hg.take_reverse hmem]
  exact hchain.suffix

end Represents

/-- A path leaves the canonical chain at `common` and goes on through side blocks. -/
structure BranchesAt (g : ChainState) (l side : List Block) (common : Block) : Prop where
  path_eq : l = side ++ (g.blocks.take (common.header.number.toNat + 1)).reverse
  common_mem : common ∈ g.blocks
  side_mem : forall blk, blk ∈ side ->
    g.sideBlocks[blk.hash]? = some blk ∧ blk.hash ∉ g.canonIndex

namespace Represents

variable {P : Platform} {D : Block -> Prop} {g g' : ChainState} {blk parent : Block}
  {rest l : List Block}

theorem branchesAt (hg : Represents P D g) (hl : KnownPath g l) :
    exists side common, BranchesAt g l side common := by
  induction l with
  | nil => exact absurd rfl hl.ne_nil
  | cons blk rest ih =>
      have hlookup := hl.lookup List.mem_cons_self
      rw [chainLineage_name] at hlookup
      by_cases hcanon : blk.hash ∈ g.canonIndex
      · rcases hg.mem_canonIndex_iff.mp hcanon with ⟨common, hmem, hname⟩
        have hpath := hg.canonical_path hmem
        rw [hg.take_reverse hmem] at hpath
        refine ⟨[], common, ?_, hmem, fun _ h => absurd h List.not_mem_nil⟩
        rw [List.nil_append, hg.take_reverse hmem]
        exact hl.unique hpath hname.symm
      · have hside : g.sideBlocks[blk.hash]? = some blk :=
          (resolve_of_not_mem hcanon).symm.trans hlookup
        cases rest with
        | nil =>
            cases hl with
            | root _ =>
                have hroot : genesisBlock ∈ g.blocks :=
                  List.mem_reverse.mp hg.chain.root_mem
                exact absurd (hg.mem_canonIndex_iff.mpr ⟨genesisBlock, hroot, rfl⟩) hcanon
        | cons parent rest =>
            rcases ih hl.tail with ⟨side, common, hbranch⟩
            refine ⟨blk :: side, common, ?_, hbranch.common_mem, ?_⟩
            · rw [hbranch.path_eq, List.cons_append]
            · intro x hx
              cases List.mem_cons.mp hx with
              | inl h => rw [h]; exact ⟨hside, hcanon⟩
              | inr h => exact hbranch.side_mem x h

/-- The invariant reads only the vector, the indexes, the seen set and the pool. -/
theorem congr (hg : Represents P D g) (hblocks : g'.blocks = g.blocks)
    (hcanon : g'.canonIndex = g.canonIndex) (hside : g'.sideBlocks = g.sideBlocks)
    (hseen : g'.seenBlocks = g.seenBlocks)
    (hwaiting : forall {key : String} {entry : OrphanEntry}, Waits g' key entry ->
      D entry.1 ∧ entry.1.header.parentHash = key) : Represents P D g' := by
  have hknown : resolveBlock g' = resolveBlock g := by
    unfold resolveBlock
    rw [hblocks, hcanon, hside]
  constructor
  · unfold KnownPath
    rw [hknown, hblocks]
    exact hg.chain
  · rw [hknown]
    exact hg.rooted
  · rw [hcanon, hblocks]
    exact hg.index
  · rw [hcanon, hside]
    exact hg.apart
  · unfold KnownPath
    rw [hknown]
    exact hg.linked
  · rw [hknown]
    exact hg.timely
  · rw [hknown]
    exact hg.candidate
  · rw [hknown, hseen]
    exact hg.seen_known
  · rw [hknown, hseen]
    exact hg.known_seen
  · rw [hseen]
    exact hg.guarded
  · exact hwaiting

/-!
# Integration of a new block
-/

/-- What is known of a block that acceptance has vetted. -/
structure Joins (P : Platform) (D : Block -> Prop) (g : ChainState) (blk parent : Block)
    (rest : List Block) : Prop where
  path : KnownPath g (parent :: rest)
  parent_eq : blk.header.parentHash = parent.hash
  unknown : resolveBlock g blk.hash = none
  number : blk.header.number.toNat = parent.header.number.toNat + 1
  number_ne : blk.header.number ≠ 0
  later : parent.header.timestamp.toNat < blk.header.timestamp.toNat
  timely : blk.header.timestamp.toNat < timestampBound
  delivered : D blk
  is_sealed : Sealed P blk

theorem genesis_known (hg : Represents P D g) :
    resolveBlock g genesisHash = some genesisBlock :=
  hg.chain.lookup hg.chain.root_mem

theorem Joins.hash_ne (h : Joins P D g blk parent rest) (hg : Represents P D g) :
    blk.hash ≠ genesisHash := by
  intro heq
  have hunknown := h.unknown
  rw [heq, hg.genesis_known] at hunknown
  cases hunknown

theorem joins (hg : Represents P D g) (hD : D blk) (hnumbered : NumberedFrom P D)
    {now : UInt64} (hnow : now.toNat < 2 ^ 63) {candidateCw : Nat} {state : TxExecutionState}
    (hvetted : Vetted P now g blk candidateCw state) :
    exists parent rest, Joins P D g blk parent rest := by
  rcases validateAgainstParent_ok hvetted.valid with ⟨parent, hparent, hvalid⟩
  rcases hg.rooted.path hparent with ⟨rest, hpath⟩
  have hname : blk.header.parentHash = parent.hash := (hg.rooted.named hparent).symm
  have htime := checkTimestamp_ok hnow hvalid.timestamp
  have hsealed := hvetted.is_sealed
  refine ⟨parent, rest, ?_⟩
  constructor
  · exact hpath
  · exact hname
  · cases hblk : resolveBlock g blk.hash with
    | none => rfl
    | some known =>
        rcases hg.known_seen hblk with hseen | hgenesis
        · exact absurd hseen hvetted.fresh
        · cases hg.guarded with
          | inl hseen => exact absurd (hgenesis ▸ hseen) hvetted.fresh
          | inr havoids =>
              exact absurd hgenesis (havoids blk hD hsealed hvetted.number_ne)
  · exact hnumbered blk parent hD hsealed hvetted.number_ne (hg.candidate hparent) hname
  · exact hvetted.number_ne
  · exact htime.1
  · exact htime.2
  · exact hD
  · exact hsealed

/-- The chain state of one more known block, given what the lanes decide: which
path is canonical, and the two indexes. -/
theorem put (hg : Represents P D g) (hjoins : Joins P D g blk parent rest)
    (hknown : resolveBlock g' = Store.put chainLineage (resolveBlock g) blk)
    (hseen : forall h, h ∈ g'.seenBlocks ↔ h = blk.hash ∨ h ∈ g.seenBlocks)
    (hpool : g'.orphanPool = g.orphanPool)
    (hchain : KnownPath g' g'.blocks.reverse)
    (hindex : forall h n, g'.canonIndex[h]? = some n ↔
      exists blk, blk ∈ g'.blocks ∧ blk.hash = h ∧ blk.header.number = n)
    (hapart : forall h, h ∈ g'.canonIndex -> h ∉ g'.sideBlocks) :
    Represents P D g' := by
  have hparent : resolveBlock g blk.header.parentHash = some parent := by
    rw [hjoins.parent_eq]
    exact hjoins.path.lookup List.mem_cons_self
  have hcases : forall {h known}, resolveBlock g' h = some known ->
      (h = blk.hash ∧ known = blk) ∨ resolveBlock g h = some known := by
    intro h known hh
    rw [hknown] at hh
    rcases Store.put_eq_some (F := chainLineage) hh with hnew | ⟨_, hold⟩
    · exact Or.inl hnew
    · exact Or.inr hold
  constructor
  · exact hchain
  · rw [hknown]
    exact hg.rooted.put hjoins.unknown hparent
  · exact hindex
  · exact hapart
  · intro b p tail hl
    have hl' : Path chainLineage (Store.put chainLineage (resolveBlock g) blk)
        (b :: p :: tail) :=
      hknown ▸ hl
    rcases hl'.put_cases hg.rooted hjoins.unknown hparent with hold | ⟨_, rfl, htail, _⟩
    · exact hg.linked hold
    · cases htail
      exact ⟨hjoins.number, hjoins.later⟩
  · intro h known hh
    rcases hcases hh with ⟨_, rfl⟩ | hold
    · exact hjoins.timely
    · exact hg.timely hold
  · intro h known hh
    rcases hcases hh with ⟨_, rfl⟩ | hold
    · exact Or.inr ⟨hjoins.delivered, hjoins.is_sealed⟩
    · exact hg.candidate hold
  · intro h hh
    rw [hknown]
    cases (hseen h).mp hh with
    | inl hnew =>
        rw [hnew, ← chainLineage_name, Store.put_self]
        simp
    | inr hold =>
        intro hnone
        cases hlookup : resolveBlock g h with
        | none => exact hg.seen_known hold hlookup
        | some known =>
            rw [Store.put_mono (F := chainLineage) hjoins.unknown hlookup] at hnone
            cases hnone
  · intro h known hh
    rcases hcases hh with ⟨hname, _⟩ | hold
    · exact Or.inl ((hseen h).mpr (Or.inl hname))
    · cases hg.known_seen hold with
      | inl hmem => exact Or.inl ((hseen h).mpr (Or.inr hmem))
      | inr hgenesis => exact Or.inr hgenesis
  · cases hg.guarded with
    | inl hmem => exact Or.inl ((hseen _).mpr (Or.inr hmem))
    | inr havoids => exact Or.inr havoids
  · intro key entry hwaits
    exact hg.waiting ((Waits.congr hpool).mp hwaits)

/-!
# Lane A and the recording of a side block
-/

theorem resolveBlock_extended (hg : Represents P D g)
    (hnumber : blk.header.number.toNat = g.blocks.length) (candidateCw : Nat)
    (state : TxExecutionState) (db : Db) :
    resolveBlock (extendedChain g blk candidateCw state db) =
      Store.put chainLineage (resolveBlock g) blk := by
  funext h
  simp only [resolveBlock, extendedChain, pushCanonical, Store.put, chainLineage_name,
    getElem?_insert_ite]
  by_cases hname : h = blk.hash
  · simp [hname, hnumber]
  · have hname' : blk.hash ≠ h := fun heq => hname heq.symm
    simp only [hname', if_false, hname]
    cases hslot : g.canonIndex[h]? with
    | none => rfl
    | some n =>
        rcases (hg.index h n).mp hslot with ⟨known, hmem, _, hn⟩
        have hlt : n.toNat < g.blocks.length := by
          rw [← hn]
          exact (List.getElem?_eq_some_iff.mp (hg.blocks_getElem? hmem)).1
        simp only [List.getElem?_append_left hlt]

theorem not_mem_canonIndex (hg : Represents P D g) {h : String}
    (hunknown : resolveBlock g h = none) : h ∉ g.canonIndex := by
  intro hmem
  rcases hg.mem_canonIndex_iff.mp hmem with ⟨known, hknown, hname⟩
  rw [← hname, hg.resolve_of_mem hknown] at hunknown
  cases hunknown

theorem resolveBlock_recorded (hg : Represents P D g)
    (hunknown : resolveBlock g blk.hash = none) (candidateCw : Nat) :
    resolveBlock (sideRecorded g blk candidateCw) =
      Store.put chainLineage (resolveBlock g) blk := by
  funext h
  simp only [resolveBlock, sideRecorded, recordSideBlock, Store.put, chainLineage_name,
    getElem?_insert_ite]
  by_cases hname : h = blk.hash
  · have hnone : g.canonIndex[blk.hash]? = none :=
      ExtTreeMap.getElem?_eq_none (hg.not_mem_canonIndex hunknown)
    simp [hname, hnone]
  · have hname' : blk.hash ≠ h := fun heq => hname heq.symm
    simp [hname, hname']

/-- The path of the tip is the canonical chain. -/
theorem path_of_tip (hg : Represents P D g) (hl : KnownPath g (blk :: rest))
    (htip : blk.hash = g.tipHash) : g.blocks.reverse = blk :: rest := by
  cases hblocks : g.blocks.reverse with
  | nil => exact absurd hblocks hg.chain.ne_nil
  | cons tip below =>
      have hpath : KnownPath g (tip :: below) := hblocks ▸ hg.chain
      have hlast : g.blocks.getLast? = some tip := by
        rw [← List.head?_reverse, hblocks, List.head?_cons]
      have hname : tip.hash = blk.hash := by
        rw [htip, ChainState.tipHash, hlast]
        rfl
      exact hpath.unique hl hname

theorem tip_of_parent (hg : Represents P D g) (hjoins : Joins P D g blk parent rest)
    (htip : blk.header.parentHash = g.tipHash) : g.blocks.reverse = parent :: rest :=
  hg.path_of_tip hjoins.path (hjoins.parent_eq ▸ htip)

theorem extended (hg : Represents P D g) (hjoins : Joins P D g blk parent rest)
    (htip : blk.header.parentHash = g.tipHash) (candidateCw : Nat)
    (state : TxExecutionState) (db : Db) :
    Represents P D (extendedChain g blk candidateCw state db) := by
  have hreverse := hg.tip_of_parent hjoins htip
  have hlength : blk.header.number.toNat = g.blocks.length := by
    have hlengths := congrArg List.length hreverse
    rw [List.length_reverse, List.length_cons] at hlengths
    rw [hjoins.number, hg.number_eq hjoins.path, hlengths]
  have hknown := hg.resolveBlock_extended hlength candidateCw state db
  have hblocks : (extendedChain g blk candidateCw state db).blocks = g.blocks ++ [blk] := rfl
  refine hg.put hjoins hknown ?_ rfl ?_ ?_ ?_
  · intro h
    rw [extendedChain, pushCanonical, mem_insert_set_iff, eq_comm]
  · rw [hblocks, List.reverse_append, hreverse]
    unfold KnownPath
    rw [hknown]
    exact hjoins.path.put_new hjoins.unknown hjoins.parent_eq
  · intro h n
    rw [hblocks]
    simp only [extendedChain, pushCanonical, getElem?_insert_ite,
      List.mem_append, List.mem_singleton]
    by_cases hname : blk.hash = h
    · rw [if_pos hname]
      constructor
      · intro hn
        exact ⟨blk, Or.inr rfl, hname, Option.some.inj hn⟩
      · rintro ⟨b, hb | hb, hbname, hbnumber⟩
        · have hresolve := hg.resolve_of_mem hb
          rw [hbname, ← hname, hjoins.unknown] at hresolve
          cases hresolve
        · rw [← hbnumber, hb]
    · rw [if_neg hname, hg.index]
      constructor
      · rintro ⟨b, hb, hrest⟩
        exact ⟨b, Or.inl hb, hrest⟩
      · rintro ⟨b, hb | hb, hbname, hbnumber⟩
        · exact ⟨b, hb, hbname, hbnumber⟩
        · exact absurd (hb ▸ hbname) hname
  · intro h hmem hside
    have hside' : h ∈ g.sideBlocks := hside
    rcases mem_insert_iff.mp hmem with hname | hold
    · have hunknown := hjoins.unknown
      rw [hname, resolve_of_not_mem (hg.not_mem_canonIndex (hname ▸ hjoins.unknown))] at hunknown
      rw [ExtTreeMap.mem_iff_isSome_getElem?, hunknown] at hside'
      cases hside'
    · exact hg.apart h hold hside'

theorem recorded (hg : Represents P D g) (hjoins : Joins P D g blk parent rest)
    (candidateCw : Nat) : Represents P D (sideRecorded g blk candidateCw) := by
  have hknown := hg.resolveBlock_recorded hjoins.unknown candidateCw
  refine hg.put hjoins hknown ?_ rfl ?_ ?_ ?_
  · intro h
    rw [sideRecorded, recordSideBlock, mem_insert_set_iff, eq_comm]
  · unfold KnownPath
    rw [hknown]
    exact hg.chain.put hjoins.unknown
  · exact hg.index
  · intro h hmem hside
    rcases mem_insert_iff.mp hside with hname | hold
    · exact hg.not_mem_canonIndex (hname ▸ hjoins.unknown) hmem
    · exact hg.apart h hmem hold

end Represents

end VisionCore
