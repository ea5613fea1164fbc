import VisionCore.Mempool.WellFormed

/-!
# The mempool's policy

Every sequence of admissions, removals and requeues keeps the two indexes in step,
the pool within its limit, and the pending transactions apart in sender and nonce.
On such a pool an admission changes exactly what its result says.
-/

namespace VisionCore

open Std
open Foundation

namespace Mempool

/-- An operation on a shared pool. -/
inductive PoolOp where
  | admitTx (tx : Tx) (currentNonce : UInt64)
  | removeConfirmed (txIds : List String)
  | requeueAfterReorg (g : ChainState) (recovery : ReorgRecovery)

def applyOp (P : Platform) (pool : Mempool) : PoolOp -> Mempool
  | .admitTx tx currentNonce => (pool.admitTx P tx currentNonce).2
  | .removeConfirmed txIds => pool.removeConfirmed txIds
  | .requeueAfterReorg g recovery => (pool.requeueAfterReorg P g recovery).2

def applyOps (P : Platform) (pool : Mempool) (ops : List PoolOp) : Mempool :=
  ops.foldl (applyOp P) pool

def SameSlot (a b : Tx) : Prop :=
  a.senderPubkey = b.senderPubkey ∧ a.nonce = b.nonce

structure Policed (P : Platform) (pool : Mempool) : Prop extends WellFormed P pool where
  bounded : pool.byId.size ≤ mempoolMax
  apart : pool.pending.Pairwise fun a b => ¬SameSlot a b

/-- The pool after `tx` has been stored at the end of `order`, with `gone` removed. -/
structure Stored (P : Platform) (pool : Mempool) (tx : Tx) (gone : Option String)
    (pool' : Mempool) : Prop where
  order : pool'.order = (pool.order.filter fun id => some id != gone) ++ [canonicalTxId P tx]
  slots : forall id, pool'.byId[id]? =
    if canonicalTxId P tx = id then some tx else if gone = some id then none else pool.byId[id]?
  fresh : canonicalTxId P tx ∉ pool.byId

/-- What an admission does to the pool, by its result. -/
structure AdmitExact (P : Platform) (pool : Mempool) (tx : Tx)
    (out : Except MempoolAdmissionError AdmissionDecision × Mempool) : Prop where
  refused : forall e, out.1 = .error e -> out.2 = pool
  replaced : forall gone, out.1 = .ok (.replace gone) ->
    (exists old, pool.byId[gone]? = some old ∧ old.tip < tx.tip) ∧
      Stored P pool tx (some gone) out.2
  accepted : out.1 = .ok .accept ->
    Stored P pool tx (if pool.byId.size < mempoolMax then none else pool.order.head?) out.2

section Operations

variable {P : Platform} {pool pool' : Mempool} {tx : Tx} {id : String}

/-!
# Pools that only lose transactions
-/

theorem pending_sublist (hsub : pool'.order.Sublist pool.order)
    (hsame : forall id, id ∈ pool'.order -> pool'.byId[id]? = pool.byId[id]?) :
    pool'.pending.Sublist pool.pending := by
  unfold pending
  rw [List.filterMap_congr hsame]
  exact hsub.filterMap _

theorem makeRoom_sublist (h : WellFormed P pool) :
    pool.makeRoom.pending.Sublist pool.pending := by
  have hnodup := h.nodup
  unfold Mempool.makeRoom
  split
  · cases horder : pool.order with
    | nil => exact List.Sublist.refl _
    | cons evictId rest =>
        rw [horder, List.nodup_cons] at hnodup
        apply pending_sublist
        · rw [horder]
          exact List.sublist_cons_self evictId rest
        · intro id hid
          rw [getElem?_erase_ite, if_neg]
          rintro rfl
          exact hnodup.1 hid
  · exact List.Sublist.refl _

theorem size_makeRoom_lt (h : WellFormed P pool) (hbounded : pool.byId.size ≤ mempoolMax) :
    pool.makeRoom.byId.size < mempoolMax := by
  unfold Mempool.makeRoom
  split
  · rename_i hfull
    cases horder : pool.order with
    | nil =>
        have hempty : pool.byId = ∅ := by
          rw [ExtTreeMap.eq_empty_iff_forall_not_mem]
          intro id hid
          have hmem := (h.mem_iff id).mpr hid
          rw [horder] at hmem
          cases hmem
        have hzero := ExtTreeMap.eq_empty_iff_size_eq_zero.mp hempty
        have hmax : 0 < mempoolMax := by decide
        omega
    | cons evictId rest =>
        have hmem : evictId ∈ pool.byId := by
          rw [← h.mem_iff, horder]
          exact List.mem_cons_self
        have hsize := ExtTreeMap.size_erase (t := pool.byId) (k := evictId)
        rw [if_pos (ExtTreeMap.contains_iff_mem.mpr hmem)] at hsize
        dsimp only
        have hmax : 0 < mempoolMax := by decide
        omega
  · rename_i hroom
    exact Nat.not_le.mp hroom

theorem Policed.insertLocked (h : Policed P pool) (hfresh : canonicalTxId P tx ∉ pool.byId)
    (hshort : byteLen tx.senderPubkey < u64Bound)
    (hfree : forall t, t ∈ pool.pending -> ¬SameSlot t tx) :
    Policed P (pool.insertLocked (canonicalTxId P tx) tx) where
  toWellFormed := h.toWellFormed.insertLocked hfresh hshort
  bounded := by
    have hroom := size_makeRoom_lt h.toWellFormed h.bounded
    unfold Mempool.insertLocked
    exact (ExtTreeMap.size_insert_le).trans hroom
  apart := by
    have hsub := makeRoom_sublist h.toWellFormed
    rw [pending_insertLocked_room h.toWellFormed hfresh, List.pairwise_append]
    refine ⟨h.apart.sublist hsub, List.pairwise_singleton _ _, ?_⟩
    intro t ht t' ht'
    rw [List.mem_singleton.mp ht']
    exact hfree t (hsub.subset ht)

theorem Policed.evict (h : Policed P pool) (gone : String) : Policed P (pool.evict gone) where
  toWellFormed := h.toWellFormed.evict gone
  bounded := (ExtTreeMap.size_erase_le).trans h.bounded
  apart := by
    refine h.apart.sublist (pending_sublist List.filter_sublist ?_)
    intro id hid
    have hne := (List.mem_filter.mp hid).2
    unfold Mempool.evict
    rw [getElem?_erase_ite, if_neg]
    rintro rfl
    simp at hne

theorem Policed.removeConfirmed (h : Policed P pool) (txIds : List String) :
    Policed P (pool.removeConfirmed txIds) where
  toWellFormed := h.toWellFormed.removeConfirmed txIds
  bounded := (size_removeConfirmed_le pool txIds).trans h.bounded
  apart := by
    refine h.apart.sublist (pending_sublist List.filter_sublist ?_)
    intro id hid
    have hkept := ExtTreeMap.contains_iff_mem.mp (List.mem_filter.mp hid).2
    rw [removeConfirmed_slot]
    split
    · rename_i hin
      have hslot := removeConfirmed_slot pool txIds id
      rw [if_pos hin] at hslot
      unfold Mempool.removeConfirmed at hslot
      rw [ExtTreeMap.mem_iff_isSome_getElem?, hslot] at hkept
      cases hkept
    · rfl

/-!
# Admission
-/

/-- A replacement outbids the transaction it replaces. -/
theorem admit_replace_tip {currentNonce : UInt64} {gone : String}
    (h : (pool.admitTx P tx currentNonce).1 = .ok (.replace gone)) :
    exists old, old ∈ pool.pending ∧ gone = canonicalTxId P old ∧ old.tip < tx.tip := by
  unfold admitTx MempoolAdmission.evaluate at h
  cases hvalid : validateTxStateless P tx with
  | error e =>
      rw [hvalid] at h
      cases h
  | ok _ =>
      rw [hvalid] at h
      dsimp only at h
      by_cases hknown : (pool.pending.any fun t => canonicalTxId P t == canonicalTxId P tx) = true
      · rw [if_pos hknown] at h
        cases h
      · rw [if_neg hknown] at h
        by_cases hstale : tx.nonce < currentNonce
        · rw [if_pos hstale] at h
          cases h
        · rw [if_neg hstale] at h
          by_cases hgap : tx.nonce > saturatingAddU64 currentNonce 1
          · rw [if_pos hgap] at h
            cases h
          · rw [if_neg hgap] at h
            cases hfound : pool.pending.find? fun existing =>
                existing.senderPubkey == tx.senderPubkey && existing.nonce == tx.nonce with
            | none =>
                rw [hfound] at h
                cases h
            | some old =>
                rw [hfound] at h
                dsimp only at h
                by_cases htip : tx.tip > old.tip
                · rw [if_pos htip] at h
                  cases h
                  exact ⟨old, List.mem_of_find?_eq_some hfound, rfl, htip⟩
                · rw [if_neg htip] at h
                  cases h

/-- Once the transaction that shares its slot is evicted, a transaction has its
slot to itself. -/
theorem evict_free (h : Policed P pool) {old : Tx} (hold : old ∈ pool.pending)
    (hsame : SameSlot old tx) :
    forall t, t ∈ (pool.evict (canonicalTxId P old)).pending -> ¬SameSlot t tx := by
  intro t ht hslot
  rw [pending_evict h.toWellFormed, List.mem_filter] at ht
  have hne : t ≠ old := by
    rintro rfl
    simp at ht
  have hsymm : Symm fun a b : Tx => ¬SameSlot a b :=
    ⟨fun a b hab hba => hab ⟨hba.1.symm, hba.2.symm⟩⟩
  exact h.apart.forall ht.1 hold hne
    ⟨hslot.1.trans hsame.1.symm, hslot.2.trans hsame.2.symm⟩

theorem Policed.admitTx (h : Policed P pool) (tx : Tx) (currentNonce : UInt64) :
    Policed P (pool.admitTx P tx currentNonce).2 := by
  have hcase := admit_cases P pool tx currentNonce
  generalize pool.admitTx P tx currentNonce = out at hcase
  cases hcase with
  | refused _ _ => exact h
  | accepted hadmits =>
      exact h.insertLocked (not_mem_byId h.toWellFormed hadmits.fresh)
        (byteLen_sender_of_valid hadmits.valid)
        fun t ht hslot => hadmits.free t ht hslot.1 hslot.2
  | replaced hvalid hfresh hold hsender hnonce =>
      exact (h.evict _).insertLocked (evict_fresh (not_mem_byId h.toWellFormed hfresh) _)
        (byteLen_sender_of_valid hvalid) (evict_free h hold ⟨hsender, hnonce⟩)

theorem Policed.requeue (h : Policed P pool) (g : ChainState) (recovery : ReorgRecovery) :
    Policed P (pool.requeueAfterReorg P g recovery).2 := by
  unfold requeueAfterReorg
  have hstart := h.removeConfirmed recovery.winningTxIds
  generalize ({ accepted := [], rejected := [] } : ReorgRequeueReport) = report
  generalize pool.removeConfirmed recovery.winningTxIds = start at hstart
  induction requeueCandidates P recovery generalizing report start with
  | nil => exact hstart
  | cons tx rest ih =>
      rw [List.foldl_cons]
      have hstep := hstart.admitTx tx (g.nonceOf tx.senderPubkey)
      rw [← requeueStep_pool g report start tx] at hstep
      exact ih _ _ hstep

theorem Policed.empty (P : Platform) : Policed P empty where
  toWellFormed := WellFormed.empty P
  bounded := by decide
  apart := List.Pairwise.nil

theorem Policed.applyOps (h : Policed P pool) (ops : List PoolOp) :
    Policed P (applyOps P pool ops) := by
  induction ops generalizing pool with
  | nil => exact h
  | cons op rest ih =>
      have hstep : Policed P (applyOp P pool op) := by
        cases op with
        | admitTx tx currentNonce => exact h.admitTx tx currentNonce
        | removeConfirmed txIds => exact h.removeConfirmed txIds
        | requeueAfterReorg g recovery => exact h.requeue g recovery
      exact ih hstep

/-!
# What an admission changes
-/

theorem insertLocked_stored (h : Policed P pool) (hfresh : canonicalTxId P tx ∉ pool.byId) :
    Stored P pool tx (if pool.byId.size < mempoolMax then none else pool.order.head?)
      (pool.insertLocked (canonicalTxId P tx) tx) := by
  unfold Mempool.insertLocked
  by_cases hroom : pool.byId.size < mempoolMax
  · rw [if_pos hroom, makeRoom_of_lt hroom]
    have hkept : pool.order.filter (fun id => some id != none) = pool.order :=
      List.filter_eq_self.mpr fun id _ => rfl
    refine ⟨by rw [hkept], ?_, hfresh⟩
    intro id
    dsimp only
    rw [getElem?_insert_ite]
    simp
  · rw [if_neg hroom]
    have hnodup := h.nodup
    unfold Mempool.makeRoom
    rw [if_pos (Nat.not_lt.mp hroom)]
    cases horder : pool.order with
    | nil =>
        refine ⟨by simp [horder], ?_, hfresh⟩
        intro id
        dsimp only
        rw [getElem?_insert_ite]
        simp
    | cons oldest rest =>
        rw [horder, List.nodup_cons] at hnodup
        refine ⟨?_, ?_, hfresh⟩
        · have hkept : rest.filter (fun id => some id != some oldest) = rest := by
            rw [List.filter_eq_self]
            intro id hid
            have hne : id ≠ oldest := by
              rintro rfl
              exact hnodup.1 hid
            simpa using hne
          rw [horder]
          simp [hkept]
        · intro id
          dsimp only
          rw [getElem?_insert_ite, getElem?_erase_ite]
          simp

theorem evict_stored (h : Policed P pool) {gone : String} (hgone : gone ∈ pool.byId)
    (hfresh : canonicalTxId P tx ∉ pool.byId) :
    Stored P pool tx (some gone)
      ((pool.evict gone).insertLocked (canonicalTxId P tx) tx) := by
  have hsize : (pool.evict gone).byId.size < mempoolMax := by
    have hbounded := h.bounded
    have hmax : 0 < mempoolMax := by decide
    have herase := ExtTreeMap.size_erase (t := pool.byId) (k := gone)
    rw [if_pos (ExtTreeMap.contains_iff_mem.mpr hgone)] at herase
    unfold Mempool.evict
    dsimp only
    omega
  unfold Mempool.insertLocked
  rw [makeRoom_of_lt hsize]
  refine ⟨?_, ?_, hfresh⟩
  · have hsame : (fun id => some id != some gone) = fun id : String => id != gone := by
      funext id
      rfl
    rw [hsame]
    rfl
  · intro id
    unfold Mempool.evict
    dsimp only
    rw [getElem?_insert_ite, getElem?_erase_ite]
    simp

theorem Policed.admitExact (h : Policed P pool) (tx : Tx) (currentNonce : UInt64) :
    AdmitExact P pool tx (pool.admitTx P tx currentNonce) := by
  have htip := fun gone => @admit_replace_tip P pool tx currentNonce gone
  have hcase := admit_cases P pool tx currentNonce
  generalize pool.admitTx P tx currentNonce = out at hcase htip
  cases hcase with
  | refused e _ =>
      exact ⟨fun _ _ => rfl, fun _ heq => (by cases heq), fun heq => (by cases heq)⟩
  | accepted hadmits =>
      have hfresh := not_mem_byId h.toWellFormed hadmits.fresh
      exact ⟨fun _ heq => (by cases heq), fun _ heq => (by cases heq),
        fun _ => insertLocked_stored h hfresh⟩
  | @replaced existing _ hids hmem _ _ =>
      have hfresh := not_mem_byId h.toWellFormed hids
      have hslot := (mem_pending h.toWellFormed).mp hmem
      have hgone : canonicalTxId P existing ∈ pool.byId := by
        rw [ExtTreeMap.mem_iff_isSome_getElem?, hslot]
        rfl
      refine ⟨fun _ heq => (by cases heq), ?_, fun heq => (by cases heq)⟩
      intro gone heq
      rcases htip gone heq with ⟨old, hold, hname, hlower⟩
      cases heq
      have holdSlot := (mem_pending h.toWellFormed).mp hold
      rw [← hname] at holdSlot
      exact ⟨⟨old, holdSlot, hlower⟩, evict_stored h hgone hfresh⟩

/-- Whatever has been asked of a pool, its indexes agree, it is within its limit,
no two pending transactions share sender and nonce, and the next admission changes
exactly what its result says. -/
theorem mempool_policy (P : Platform) (ops : List PoolOp) :
    Policed P (applyOps P Mempool.empty ops) ∧
      forall (tx : Tx) (currentNonce : UInt64),
        AdmitExact P (applyOps P Mempool.empty ops) tx
          ((applyOps P Mempool.empty ops).admitTx P tx currentNonce) := by
  have hpoliced := (Policed.empty P).applyOps ops
  exact ⟨hpoliced, hpoliced.admitExact⟩

end Operations

end Mempool

end VisionCore
