import VisionCore.Chain.Effect

/-!
# Persistence of the canonical chain

What the database holds after each kind of batch, and the invariant that a
restart relies on: every canonical block is stored under its hash and its
height, and the recorded tip height is that of the tip.
-/

namespace VisionCore

open Std
open Foundation

/-!
# Batches
-/

def DbOp.key : DbOp -> DbKey
  | .insert key _ => key
  | .remove key => key

namespace Db

theorem get_apply_of_ne {db : Db} {op : DbOp} {key : DbKey} (h : op.key ≠ key) :
    (db.apply op).get key = db.get key := by
  have h' : key ≠ op.key := fun heq => h heq.symm
  cases op with
  | insert k v => exact if_neg h'
  | remove k => exact if_neg h'

theorem get_applyBatch_of_untouched {db : Db} {batch : List DbOp} {key : DbKey}
    (h : forall op, op ∈ batch -> op.key ≠ key) : (db.applyBatch batch).get key = db.get key := by
  unfold applyBatch
  induction batch generalizing db with
  | nil => rfl
  | cons op rest ih =>
      rw [List.foldl_cons, ih fun o ho => h o (List.mem_cons_of_mem _ ho),
        get_apply_of_ne (h op List.mem_cons_self)]

/-- A key gets the value that every operation on it writes. -/
theorem get_applyBatch_of_mem {db : Db} {batch : List DbOp} {key : DbKey} {value : DbValue}
    (hmem : DbOp.insert key value ∈ batch)
    (hall : forall op, op ∈ batch -> op.key = key -> op = .insert key value) :
    (db.applyBatch batch).get key = some value := by
  unfold applyBatch
  induction batch generalizing db with
  | nil => cases hmem
  | cons op rest ih =>
      rw [List.foldl_cons]
      have hall' : forall o, o ∈ rest -> o.key = key -> o = .insert key value :=
        fun o ho => hall o (List.mem_cons_of_mem _ ho)
      by_cases hrest : DbOp.insert key value ∈ rest
      · exact ih hrest hall'
      · have hop : op = .insert key value := by
          cases List.mem_cons.mp hmem with
          | inl h => exact h.symm
          | inr h => exact absurd h hrest
        have huntouched : forall o, o ∈ rest -> o.key ≠ key := by
          intro o ho hkey
          exact hrest (hall' o ho hkey ▸ ho)
        have htail : ((db.apply op).applyBatch rest).get key = (db.apply op).get key :=
          get_applyBatch_of_untouched huntouched
        unfold applyBatch at htail
        rw [htail, hop]
        exact if_pos rfl

/-- A value comes from before the batch or from one of its inserts. -/
theorem get_applyBatch_cases {db : Db} {batch : List DbOp} {key : DbKey} {value : DbValue}
    (h : (db.applyBatch batch).get key = some value) :
    db.get key = some value ∨ DbOp.insert key value ∈ batch := by
  unfold applyBatch at h
  induction batch generalizing db with
  | nil => exact Or.inl h
  | cons op rest ih =>
      rw [List.foldl_cons] at h
      rcases ih h with hfirst | hmem
      · by_cases hkey : op.key = key
        · cases op with
          | insert k v =>
              have hk : k = key := hkey
              subst hk
              have hv : some v = some value := (if_pos rfl : _).symm.trans hfirst
              rw [Option.some.inj hv]
              exact Or.inr List.mem_cons_self
          | remove k =>
              have hk : k = key := hkey
              subst hk
              have hnone : none = some value := (if_pos rfl : _).symm.trans hfirst
              cases hnone
        · rw [get_apply_of_ne hkey] at hfirst
          exact Or.inl hfirst
      · exact Or.inr (List.mem_cons_of_mem _ hmem)

end Db

/-!
# Snapshots
-/

/-- The keys of the account snapshots. -/
def DbKey.isSnapshot : DbKey -> Bool
  | .snapshot _ => true
  | .snapshotStateRoot _ => true
  | .snapBalances _ => true
  | .snapNonces _ => true
  | _ => false

theorem Host.write_get (host : Host) (db : Db) (batch : List DbOp) {key : DbKey}
    (h : forall op, op ∈ batch -> op.key ≠ key) :
    (host.write db batch).2.1.get key = db.get key := by
  have hwrite := Host.write_cases host db batch
  generalize host.write db batch = written at hwrite
  cases hwrite with
  | written _ => exact Db.get_applyBatch_of_untouched h
  | failed _ => rfl

theorem writeSequence_get (host : Host) (db : Db) (ops : List DbOp) {key : DbKey}
    (h : forall op, op ∈ ops -> op.key ≠ key) :
    (writeSequence host db ops).2.1.get key = db.get key := by
  induction ops generalizing host db with
  | nil => rfl
  | cons op rest ih =>
      have hop : forall o, o ∈ [op] -> o.key ≠ key := by simpa using h op
      have hfirst := Host.write_get host db [op] hop
      unfold writeSequence
      split
      · rename_i heq
        rw [heq] at hfirst
        rw [ih _ _ fun o ho => h o (List.mem_cons_of_mem _ ho)]
        exact hfirst
      · rename_i heq
        rw [heq] at hfirst
        exact hfirst

/-- A snapshot writes snapshot keys only. -/
theorem maybeSaveSnapshot_get (P : Platform) (host : Host) (g : ChainState) {key : DbKey}
    (hkey : key.isSnapshot = false) :
    (maybeSaveSnapshot P host g).2.1.get key = g.db.get key := by
  unfold maybeSaveSnapshot
  dsimp only
  split
  · rfl
  · unfold saveSnapshot
    split
    · rfl
    · rename_i stateRoot _
      have huntouched : forall op, op ∈ snapshotEntries g g.currentHeight stateRoot ->
          op.key ≠ key := by
        intro op hop heq
        rw [← heq] at hkey
        simp only [snapshotEntries, List.mem_cons, List.not_mem_nil, or_false] at hop
        rcases hop with rfl | rfl | rfl | rfl <;> simp [DbOp.key, DbKey.isSnapshot] at hkey
      have hsequence := writeSequence_get host g.db
        (snapshotEntries g g.currentHeight stateRoot) huntouched
      split
      · rename_i heq
        rw [heq] at hsequence
        exact hsequence
      · rename_i heq
        rw [heq] at hsequence
        exact hsequence

/-!
# The batches of acceptance
-/

/-- The value that a key of the canonical entries of a list of blocks gets. -/
theorem mem_canonicalEntries {blocks : List Block} {op : DbOp} :
    op ∈ blocks.flatMap canonicalEntry ↔
      exists blk, blk ∈ blocks ∧
        (op = .insert (.block blk.hash) (.block blk) ∨
          op = .insert (.height blk.header.number) (.text blk.hash)) := by
  simp [canonicalEntry, List.mem_flatMap]

/-- A block stored under its hash, and its hash under its height. -/
structure StoredBlock (db : Db) (blk : Block) : Prop where
  block : db.get (.block blk.hash) = some (.block blk)
  height : db.get (.height blk.header.number) = some (.text blk.hash)

theorem StoredBlock.congr {db db' : Db} {blk : Block} (h : StoredBlock db blk)
    (hblock : db'.get (.block blk.hash) = db.get (.block blk.hash))
    (hheight : db'.get (.height blk.header.number) = db.get (.height blk.header.number)) :
    StoredBlock db' blk where
  block := hblock.trans h.block
  height := hheight.trans h.height

/-- The canonical entries are all stored when no two blocks share a hash or a height. -/
theorem storedBlock_of_batch {db : Db} {blocks : List Block} {rest : List DbOp} {blk : Block}
    (hmem : blk ∈ blocks)
    (hhash : forall b, b ∈ blocks -> b.hash = blk.hash -> b = blk)
    (hnumber : forall b, b ∈ blocks -> b.header.number = blk.header.number -> b = blk)
    (hrest : forall op, op ∈ rest ->
      op.key ≠ .block blk.hash ∧ op.key ≠ .height blk.header.number) :
    StoredBlock (db.applyBatch (blocks.flatMap canonicalEntry ++ rest)) blk := by
  constructor
  · refine Db.get_applyBatch_of_mem ?_ ?_
    · exact List.mem_append_left _ (mem_canonicalEntries.mpr ⟨blk, hmem, Or.inl rfl⟩)
    · intro op hop hkey
      cases List.mem_append.mp hop with
      | inl hentry =>
          rcases mem_canonicalEntries.mp hentry with ⟨b, hb, rfl | rfl⟩
          · rw [hhash b hb (DbKey.block.inj hkey)]
          · cases hkey
      | inr htail => exact absurd hkey (hrest op htail).1
  · refine Db.get_applyBatch_of_mem ?_ ?_
    · exact List.mem_append_left _ (mem_canonicalEntries.mpr ⟨blk, hmem, Or.inr rfl⟩)
    · intro op hop hkey
      cases List.mem_append.mp hop with
      | inl hentry =>
          rcases mem_canonicalEntries.mp hentry with ⟨b, hb, rfl | rfl⟩
          · cases hkey
          · rw [hnumber b hb (DbKey.height.inj hkey)]
      | inr htail => exact absurd hkey (hrest op htail).2

/-- The batch that makes `blk` the canonical tip. -/
abbrev tipBatch (blk : Block) : List DbOp :=
  canonicalEntry blk ++ tipEntry blk.header.number blk.hash

theorem mem_tipBatch {blk : Block} {op : DbOp} :
    op ∈ tipBatch blk ↔
      op = .insert (.block blk.hash) (.block blk) ∨
        op = .insert (.height blk.header.number) (.text blk.hash) ∨
          op = .insert .tipHeight (.number blk.header.number) ∨
            op = .insert .tipHash (.text blk.hash) := by
  simp [canonicalEntry, tipEntry, or_assoc]

theorem tipBatch_storedBlock (db : Db) (blk : Block) :
    StoredBlock (db.applyBatch (tipBatch blk)) blk := by
  have hbatch : StoredBlock (db.applyBatch
      ([blk].flatMap canonicalEntry ++ tipEntry blk.header.number blk.hash)) blk := by
    refine storedBlock_of_batch (List.mem_singleton.mpr rfl) ?_ ?_ ?_
    · intro b hb _
      exact List.mem_singleton.mp hb
    · intro b hb _
      exact List.mem_singleton.mp hb
    · intro op hop
      simp only [tipEntry, List.mem_cons, List.not_mem_nil, or_false] at hop
      rcases hop with rfl | rfl <;> simp [DbOp.key]
  rwa [List.flatMap_singleton] at hbatch

theorem tipBatch_tipHeight (db : Db) (blk : Block) :
    (db.applyBatch (tipBatch blk)).get .tipHeight = some (.number blk.header.number) := by
  refine Db.get_applyBatch_of_mem (mem_tipBatch.mpr (Or.inr (Or.inr (Or.inl rfl)))) ?_
  intro op hop hkey
  rcases mem_tipBatch.mp hop with rfl | rfl | rfl | rfl <;> simp [DbOp.key] at hkey ⊢

theorem tipBatch_get_untouched {db : Db} {blk : Block} {key : DbKey}
    (hhash : key ≠ .block blk.hash) (hheight : key ≠ .height blk.header.number)
    (htipHeight : key ≠ .tipHeight) (htipHash : key ≠ .tipHash) :
    (db.applyBatch (tipBatch blk)).get key = db.get key := by
  refine Db.get_applyBatch_of_untouched ?_
  intro op hop heq
  rcases mem_tipBatch.mp hop with rfl | rfl | rfl | rfl
  · exact hhash heq.symm
  · exact hheight heq.symm
  · exact htipHeight heq.symm
  · exact htipHash heq.symm

/-!
# The invariant
-/

def StoredEntries (g : ChainState) : Prop :=
  forall blk, blk ∈ g.blocks -> StoredBlock g.db blk

def StoredTip (g : ChainState) : Prop :=
  exists tip, g.blocks.getLast? = some tip ∧
    g.db.get .tipHeight = some (.number tip.header.number)

structure Persisted (g : ChainState) : Prop where
  entries : StoredEntries g
  tip : StoredTip g

section Lanes

variable {P : Platform} {D : Block -> Prop} {host : Host} {g : ChainState}
  {blk parent common : Block} {rest side l : List Block} {candidateCw : Nat}
  {state : TxExecutionState}

/-- Every key but those of snapshots keeps what the extension's batch wrote. -/
theorem extensionSaved_get {db : Db} (hsaved : ExtensionSaved P g blk candidateCw state db)
    {key : DbKey} (hkey : key.isSnapshot = false) :
    db.get key = (g.db.applyBatch (tipBatch blk)).get key := by
  rcases hsaved with ⟨host, rfl⟩
  exact maybeSaveSnapshot_get P host _ hkey

theorem extended_persisted (hg : Represents P D g) (hjoins : Represents.Joins P D g blk parent rest)
    (htip : g.blocks.reverse = parent :: rest) (hstored : StoredEntries g) {db : Db}
    (hsaved : ExtensionSaved P g blk candidateCw state db) :
    Persisted (extendedChain g blk candidateCw state db) := by
  constructor
  · intro b hb
    have hdb : (extendedChain g blk candidateCw state db).db = db := rfl
    rw [hdb]
    cases List.mem_append.mp hb with
    | inr hnew =>
        rw [List.mem_singleton.mp hnew]
        exact (tipBatch_storedBlock g.db blk).congr (extensionSaved_get hsaved rfl)
          (extensionSaved_get hsaved rfl)
    | inl hold =>
        have hhash : b.hash ≠ blk.hash := by
          intro heq
          have hresolve := hg.resolve_of_mem hold
          rw [heq, hjoins.unknown] at hresolve
          cases hresolve
        have hnumber : b.header.number ≠ blk.header.number := by
          intro heq
          have hat := (List.getElem?_eq_some_iff.mp (hg.blocks_getElem? hold)).1
          have hlength := congrArg List.length htip
          rw [List.length_reverse, List.length_cons] at hlength
          rw [heq, hjoins.number, hg.number_eq hjoins.path] at hat
          omega
        refine (hstored b hold).congr ?_ ?_
        · rw [extensionSaved_get hsaved rfl]
          exact tipBatch_get_untouched (by simpa using hhash) (by simp) (by simp) (by simp)
        · rw [extensionSaved_get hsaved rfl]
          exact tipBatch_get_untouched (by simp) (by simpa using hnumber) (by simp) (by simp)
  · refine ⟨blk, List.getLast?_concat, ?_⟩
    exact (extensionSaved_get hsaved rfl).trans (tipBatch_tipHeight g.db blk)

theorem recorded_get {key : DbKey} (hkey : key ≠ .block blk.hash) :
    (sideRecorded g blk candidateCw).db.get key = g.db.get key := by
  refine Db.get_applyBatch_of_untouched ?_
  intro op hop heq
  rw [List.mem_singleton.mp hop] at heq
  exact hkey heq.symm

theorem recorded_storedEntries (hg : Represents P D g)
    (hjoins : Represents.Joins P D g blk parent rest) (hstored : StoredEntries g) :
    StoredEntries (sideRecorded g blk candidateCw) := by
  intro b hb
  have hhash : b.hash ≠ blk.hash := by
    intro heq
    have hresolve := hg.resolve_of_mem hb
    rw [heq, hjoins.unknown] at hresolve
    cases hresolve
  exact (hstored b hb).congr (recorded_get (by simpa using hhash)) (recorded_get (by simp))

theorem recorded_storedTip (hstored : StoredTip g) :
    StoredTip (sideRecorded g blk candidateCw) := by
  rcases hstored with ⟨tip, hlast, htip⟩
  exact ⟨tip, hlast, (recorded_get (by simp)).trans htip⟩

theorem mem_heightRange {first last height : UInt64} (h : height ∈ heightRange first last) :
    first.toNat ≤ height.toNat := by
  unfold heightRange at h
  rcases List.mem_map.mp h with ⟨i, hi, rfl⟩
  rw [List.mem_range] at hi
  have hlast := last.toNat_lt
  have hmod : (first.toNat + i) % 2 ^ 64 = first.toNat + i :=
    Nat.mod_eq_of_lt (by omega)
  rw [UInt64.toNat_ofNat', hmod]
  omega

/-- A reorg stores its whole path, whatever was stored before. -/
theorem reorg_persisted (hg : Represents P D g) (hl : KnownPath g (blk :: rest)) {db : Db}
    (hsaved : ReorgSaved g (blk :: rest) blk db) :
    (forall b, b ∈ blk :: rest -> StoredBlock db b) ∧
      db.get .tipHeight = some (.number blk.header.number) := by
  rcases hsaved with ⟨firstStale, hstale, rfl⟩
  unfold reorgBatch
  rw [List.append_assoc]
  constructor
  · intro b hb
    refine storedBlock_of_batch (List.mem_reverse.mpr hb) ?_ ?_ ?_
    · intro b' hb' heq
      exact Represents.eq_of_hash hl hb (List.mem_reverse.mp hb') heq
    · intro b' hb' heq
      exact hg.eq_of_number hl hb (List.mem_reverse.mp hb') heq
    · intro op hop
      rcases List.mem_append.mp hop with hremove | htip
      · rcases List.mem_map.mp hremove with ⟨height, hheight, rfl⟩
        refine ⟨by simp [DbOp.key], ?_⟩
        intro heq
        have hle := mem_heightRange hheight
        rw [DbKey.height.inj heq, hstale] at hle
        have hat := (List.getElem?_eq_some_iff.mp (hg.getElem?_reverse hl hb)).1
        rw [List.length_reverse, List.length_cons] at hat
        rw [hg.number_eq hl] at hle
        omega
      · simp only [tipEntry, List.mem_cons, List.not_mem_nil, or_false] at htip
        rcases htip with rfl | rfl <;> simp [DbOp.key]
  · refine Db.get_applyBatch_of_mem (by simp [tipEntry]) ?_
    intro op hop hkey
    rcases List.mem_append.mp hop with hentry | hop
    · rcases mem_canonicalEntries.mp hentry with ⟨b, _, rfl | rfl⟩ <;> cases hkey
    · rcases List.mem_append.mp hop with hremove | htip
      · rcases List.mem_map.mp hremove with ⟨height, _, rfl⟩
        cases hkey
      · simp only [tipEntry, List.mem_cons, List.not_mem_nil, or_false] at htip
        rcases htip with rfl | rfl
        · rfl
        · cases hkey

end Lanes

section Step

variable {P : Platform} {D : Block -> Prop} {host : Host} {g : ChainState} {blk : Block}
  {sourcePeer : Option String} {step : Step}

theorem Moves.persisted {parent common : Block} {rest side : List Block} {candidateCw : Nat}
    {state : TxExecutionState} {works : ExtTreeMap String Nat} {plan : ReorgPlan} {db : Db}
    (h : Moves P D host g blk parent common rest side candidateCw state works plan db) :
    Persisted (reorgApplied P (sideRecorded g blk candidateCw) blk side common works plan db) := by
  rcases reorg_persisted h.recorded h.path h.saved with ⟨hentries, htip⟩
  constructor
  · intro b hb
    rw [h.blocks] at hb
    exact hentries b (List.mem_reverse.mp hb)
  · refine ⟨blk, ?_, htip⟩
    rw [h.blocks, List.getLast?_reverse, List.head?_cons]

theorem Effect.storedEntries (hg : Represents P D g)
    (h : Effect P D host g blk sourcePeer step) (hstored : StoredEntries g) :
    StoredEntries step.chain := by
  cases h with
  | rejected _ => exact hstored
  | orphaned _ _ _ =>
      have hframe := addOrphan_db host.now g blk (sourcePeer.getD "anon")
      unfold StoredEntries
      rw [hframe.1, hframe.2]
      exact hstored
  | extended hadmitted _ htip hsaved _ =>
      exact (extended_persisted hg hadmitted.joins htip hstored hsaved).entries
  | recorded hadmitted _ _ _ => exact recorded_storedEntries hg hadmitted.joins hstored
  | moved hmoves _ => exact hmoves.persisted.entries

/-- A step that reports an extension has stored the tip. -/
theorem Effect.persisted (hg : Represents P D g)
    (h : Effect P D host g blk sourcePeer step) (hstored : StoredEntries g)
    {height : UInt64} (hresult : step.result = .canonExtension height) :
    Persisted step.chain := by
  cases h with
  | rejected _ => cases hresult
  | orphaned _ _ _ => cases hresult
  | extended hadmitted _ htip hsaved _ =>
      exact extended_persisted hg hadmitted.joins htip hstored hsaved
  | recorded _ _ _ _ => cases hresult
  | moved hmoves _ => exact hmoves.persisted

theorem Effect.storedTip (hg : Represents P D g)
    (h : Effect P D host g blk sourcePeer step) (hstored : Persisted g) :
    StoredTip step.chain := by
  cases h with
  | rejected _ => exact hstored.tip
  | orphaned _ _ _ =>
      have hframe := addOrphan_db host.now g blk (sourcePeer.getD "anon")
      unfold StoredTip
      rw [hframe.1, hframe.2]
      exact hstored.tip
  | extended hadmitted _ htip hsaved _ =>
      exact (extended_persisted hg hadmitted.joins htip hstored.entries hsaved).tip
  | recorded _ _ _ _ => exact recorded_storedTip hstored.tip
  | moved hmoves _ => exact hmoves.persisted.tip

/-!
# Every stored block
-/

/-- The database of a node: every block in it has been delivered or is genesis,
and the genesis hash is marked. -/
structure Archive (P : Platform) (D : Block -> Prop) (db : Db) : Prop where
  candidate : forall {h b}, db.get (.block h) = some (.block b) -> Candidate P D b
  marked : db.get .genesisHash = some (.text genesisHash)

/-- A batch of candidate blocks that leaves the genesis mark alone. -/
theorem Archive.applyBatch {db : Db} (h : Archive P D db) {batch : List DbOp}
    (hblocks : forall key b, DbOp.insert key (.block b) ∈ batch -> Candidate P D b)
    (hmark : forall op, op ∈ batch -> op.key ≠ .genesisHash) : Archive P D (db.applyBatch batch) where
  candidate := by
    intro key b hget
    rcases Db.get_applyBatch_cases hget with hold | hnew
    · exact h.candidate hold
    · exact hblocks _ b hnew
  marked := (Db.get_applyBatch_of_untouched hmark).trans h.marked

theorem Archive.tipBatch {db : Db} (h : Archive P D db) (hblk : Candidate P D blk) :
    Archive P D (db.applyBatch (tipBatch blk)) := by
  refine h.applyBatch ?_ ?_
  · intro key b hop
    rcases mem_tipBatch.mp hop with heq | heq | heq | heq <;> cases heq
    exact hblk
  · intro op hop
    rcases mem_tipBatch.mp hop with rfl | rfl | rfl | rfl <;> simp [DbOp.key]

theorem Archive.congr {db db' : Db} (h : Archive P D db)
    (hget : forall key, key.isSnapshot = false -> db'.get key = db.get key) : Archive P D db' where
  candidate := fun hb => h.candidate ((hget _ rfl).symm.trans hb)
  marked := (hget _ rfl).trans h.marked

theorem Admitted.candidate {parent : Block} {rest : List Block} {candidateCw : Nat}
    {state : TxExecutionState} (h : Admitted P D host g blk parent rest candidateCw state) :
    Candidate P D blk :=
  Or.inr ⟨h.joins.delivered, h.joins.is_sealed⟩

theorem recorded_archive (hblk : Candidate P D blk) (harchive : Archive P D g.db)
    (candidateCw : Nat) : Archive P D (sideRecorded g blk candidateCw).db := by
  refine harchive.applyBatch ?_ ?_
  · intro key b hop
    simp only [List.mem_singleton, DbOp.insert.injEq, DbValue.block.injEq] at hop
    rw [hop.2]
    exact hblk
  · intro op hop
    rw [List.mem_singleton.mp hop]
    simp [DbOp.key]

theorem Effect.archive (h : Effect P D host g blk sourcePeer step)
    (harchive : Archive P D g.db) : Archive P D step.chain.db := by
  cases h with
  | rejected _ => exact harchive
  | orphaned _ _ _ =>
      have hframe := addOrphan_db host.now g blk (sourcePeer.getD "anon")
      exact hframe.2.symm ▸ harchive
  | extended hadmitted _ _ hsaved _ =>
      exact (harchive.tipBatch hadmitted.candidate).congr
        fun key hkey => extensionSaved_get hsaved hkey
  | recorded hadmitted _ _ _ => exact recorded_archive hadmitted.candidate harchive _
  | @moved parent common rest side candidateCw state works plan db host' hmoves _ =>
      rcases hmoves.saved with ⟨firstStale, _, hdb⟩
      have hdb' : (reorgApplied P (sideRecorded g blk candidateCw) blk side common works plan
          db).db = db := rfl
      rw [hdb', hdb]
      refine (recorded_archive hmoves.admitted.candidate harchive _).applyBatch ?_ ?_
      · intro key b hop
        unfold reorgBatch at hop
        rw [List.append_assoc] at hop
        rcases List.mem_append.mp hop with hentry | hop
        · rcases mem_canonicalEntries.mp hentry with ⟨b', hb', heq | heq⟩
          · cases heq
            exact hmoves.recorded.candidate (hmoves.path.lookup (List.mem_reverse.mp hb'))
          · cases heq
        · rcases List.mem_append.mp hop with hremove | htip
          · rcases List.mem_map.mp hremove with ⟨_, _, heq⟩
            cases heq
          · simp [tipEntry] at htip
      · intro op hop
        unfold reorgBatch at hop
        rw [List.append_assoc] at hop
        rcases List.mem_append.mp hop with hentry | hop
        · rcases mem_canonicalEntries.mp hentry with ⟨b', _, rfl | rfl⟩ <;> simp [DbOp.key]
        · rcases List.mem_append.mp hop with hremove | htip
          · rcases List.mem_map.mp hremove with ⟨_, _, rfl⟩
            simp [DbOp.key]
          · simp only [tipEntry, List.mem_cons, List.not_mem_nil, or_false] at htip
            rcases htip with rfl | rfl <;> simp [DbOp.key]

end Step

end VisionCore
