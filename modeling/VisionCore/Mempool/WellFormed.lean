import VisionCore.Foundation.OrderedMap
import VisionCore.Mempool.Pool
import VisionCore.Types.Identifiers

/-!
# Well-formed mempools

The queue lists the identifiers of the map once each, and every transaction is
stored under its own identifier.  Every operation keeps this, and on such a pool
an admission appends to the pending transactions.
-/

namespace VisionCore

open Std
open Foundation

namespace Mempool

/-- Insertion without admission checks, as the tests use it. -/
def insert (P : Platform) (pool : Mempool) (tx : Tx) : Bool × Mempool :=
  if pool.byId.contains (canonicalTxId P tx) then (false, pool)
  else (true, pool.insertLocked (canonicalTxId P tx) tx)

structure WellFormed (P : Platform) (pool : Mempool) : Prop where
  nodup : pool.order.Nodup
  mem_iff : forall id, id ∈ pool.order ↔ id ∈ pool.byId
  named : forall {id : String} {tx : Tx}, pool.byId[id]? = some tx -> canonicalTxId P tx = id
  -- the length of a string is a `usize`
  short : forall {id : String} {tx : Tx}, pool.byId[id]? = some tx ->
    byteLen tx.senderPubkey < u64Bound

section Operations

variable {P : Platform} {pool : Mempool} {tx existing : Tx} {id : String}

theorem WellFormed.empty (P : Platform) : WellFormed P empty where
  nodup := List.nodup_nil
  mem_iff := by
    intro id
    simp [Mempool.empty]
  named := by
    intro id tx h
    simp [Mempool.empty] at h
  short := by
    intro id tx h
    simp [Mempool.empty] at h

theorem mem_pending (h : WellFormed P pool) :
    tx ∈ pool.pending ↔ pool.byId[canonicalTxId P tx]? = some tx := by
  unfold pending
  rw [List.mem_filterMap]
  constructor
  · rintro ⟨id, _, hslot⟩
    rw [h.named hslot]
    exact hslot
  · intro hslot
    refine ⟨canonicalTxId P tx, ?_, hslot⟩
    rw [h.mem_iff, ExtTreeMap.mem_iff_isSome_getElem?, hslot]
    rfl

/-- Dropping one identifier. -/
theorem WellFormed.erase (h : WellFormed P pool) {order : List String} {gone : String}
    (hnodup : order.Nodup) (horder : forall id, id ∈ order ↔ id ∈ pool.order ∧ gone ≠ id) :
    WellFormed P { byId := pool.byId.erase gone, order := order } where
  nodup := hnodup
  mem_iff := by
    intro id
    rw [horder, h.mem_iff, ExtTreeMap.mem_iff_isSome_getElem?, ExtTreeMap.mem_iff_isSome_getElem?,
      getElem?_erase_ite]
    by_cases hid : gone = id
    · simp [hid]
    · simp [hid]
  named := by
    intro id tx hslot
    rw [getElem?_erase_ite] at hslot
    split at hslot
    · cases hslot
    · exact h.named hslot
  short := by
    intro id tx hslot
    rw [getElem?_erase_ite] at hslot
    split at hslot
    · cases hslot
    · exact h.short hslot

theorem WellFormed.makeRoom (h : WellFormed P pool) : WellFormed P pool.makeRoom := by
  unfold Mempool.makeRoom
  split
  · cases horder : pool.order with
    | nil => exact h
    | cons evictId rest =>
        have hnodup := h.nodup
        rw [horder, List.nodup_cons] at hnodup
        apply h.erase hnodup.2
        intro id
        rw [horder, List.mem_cons]
        constructor
        · intro hid
          refine ⟨Or.inr hid, ?_⟩
          rintro rfl
          exact hnodup.1 hid
        · rintro ⟨rfl | hid, hne⟩
          · exact absurd rfl hne
          · exact hid
  · exact h

theorem makeRoom_byId (pool : Mempool) (hid : id ∉ pool.byId) : id ∉ pool.makeRoom.byId := by
  unfold Mempool.makeRoom
  split
  · cases pool.order with
    | nil => exact hid
    | cons evictId rest =>
        rw [ExtTreeMap.mem_iff_isSome_getElem?, getElem?_erase_ite]
        split
        · simp
        · rw [← ExtTreeMap.mem_iff_isSome_getElem?]
          exact hid
  · exact hid

theorem WellFormed.insertLocked (h : WellFormed P pool) (hfresh : canonicalTxId P tx ∉ pool.byId)
    (hshort : byteLen tx.senderPubkey < u64Bound) :
    WellFormed P (pool.insertLocked (canonicalTxId P tx) tx) := by
  have hroom := h.makeRoom
  have hfresh' := makeRoom_byId pool hfresh
  unfold Mempool.insertLocked
  constructor
  · apply List.nodup_append.mpr
    refine ⟨hroom.nodup, List.nodup_singleton _, ?_⟩
    intro a ha b hb hab
    rw [List.mem_singleton] at hb
    rw [hab, hb, hroom.mem_iff] at ha
    exact hfresh' ha
  · intro id
    rw [List.mem_append, List.mem_singleton, hroom.mem_iff, mem_insert_iff, eq_comm (a := id),
      or_comm]
  · intro id t hslot
    dsimp only at hslot
    rw [getElem?_insert_ite] at hslot
    split at hslot
    · rename_i heq
      rw [← Option.some.inj hslot]
      exact heq
    · exact hroom.named hslot
  · intro id t hslot
    dsimp only at hslot
    rw [getElem?_insert_ite] at hslot
    split at hslot
    · rw [← Option.some.inj hslot]
      exact hshort
    · exact hroom.short hslot

theorem WellFormed.evict (h : WellFormed P pool) (gone : String) :
    WellFormed P (pool.evict gone) := by
  apply h.erase (h.nodup.filter _)
  intro id
  rw [List.mem_filter]
  simp [ne_comm]

theorem removeConfirmed_slot (pool : Mempool) (txIds : List String) (id : String) :
    (pool.removeConfirmed txIds).byId[id]? = if id ∈ txIds then none else pool.byId[id]? := by
  have hmem := getElem?_foldl_erase_of_mem (fun id : String => id) txIds pool.byId (k := id)
  have hnot := getElem?_foldl_erase_of_not_mem (fun id : String => id) txIds pool.byId (k := id)
  rw [List.map_id'] at hmem hnot
  unfold Mempool.removeConfirmed
  dsimp only
  split
  · rename_i hin
    exact hmem hin
  · rename_i hout
    exact hnot hout

theorem WellFormed.removeConfirmed (h : WellFormed P pool) (txIds : List String) :
    WellFormed P (pool.removeConfirmed txIds) := by
  have hold : forall {id : String} {tx : Tx},
      (pool.removeConfirmed txIds).byId[id]? = some tx -> pool.byId[id]? = some tx := by
    intro id tx hslot
    rw [removeConfirmed_slot] at hslot
    split at hslot
    · cases hslot
    · exact hslot
  constructor
  · exact h.nodup.filter _
  · intro id
    show id ∈ pool.order.filter _ ↔ _
    rw [List.mem_filter, h.mem_iff, ExtTreeMap.contains_iff_mem]
    constructor
    · rintro ⟨_, hid⟩
      exact hid
    · intro hid
      refine ⟨?_, hid⟩
      rw [ExtTreeMap.mem_iff_isSome_getElem?, Option.isSome_iff_exists] at hid ⊢
      rcases hid with ⟨tx, hslot⟩
      exact ⟨tx, hold hslot⟩
  · intro id tx hslot
    exact h.named (hold hslot)
  · intro id tx hslot
    exact h.short (hold hslot)

/-!
# The pending transactions
-/

theorem makeRoom_of_lt (hroom : pool.byId.size < mempoolMax) : pool.makeRoom = pool := by
  unfold Mempool.makeRoom
  rw [if_neg (Nat.not_le.mpr hroom)]

/-- An insertion appends to what is left once there is room. -/
theorem pending_insertLocked_room (h : WellFormed P pool) (hfresh : id ∉ pool.byId) :
    (pool.insertLocked id tx).pending = pool.makeRoom.pending ++ [tx] := by
  unfold Mempool.insertLocked pending
  dsimp only
  rw [List.filterMap_append]
  congr 1
  · apply List.filterMap_congr
    intro id' hid'
    rw [h.makeRoom.mem_iff] at hid'
    rw [getElem?_insert_ite, if_neg]
    rintro rfl
    exact makeRoom_byId pool hfresh hid'
  · simp [getElem?_insert_ite]

/-- With room left an insertion appends. -/
theorem pending_insertLocked (h : WellFormed P pool) (hroom : pool.byId.size < mempoolMax)
    (hfresh : id ∉ pool.byId) :
    (pool.insertLocked id tx).pending = pool.pending ++ [tx] := by
  rw [pending_insertLocked_room h hfresh, makeRoom_of_lt hroom]

theorem size_insertLocked_le (hroom : pool.byId.size < mempoolMax) :
    (pool.insertLocked id tx).byId.size ≤ pool.byId.size + 1 := by
  unfold Mempool.insertLocked
  rw [makeRoom_of_lt hroom]
  exact ExtTreeMap.size_insert_le

/-- An eviction takes one transaction out. -/
theorem pending_evict (h : WellFormed P pool) (gone : String) :
    (pool.evict gone).pending = pool.pending.filter fun tx => canonicalTxId P tx != gone := by
  unfold Mempool.evict pending
  dsimp only
  rw [List.filter_filterMap, List.filterMap_filter]
  apply List.filterMap_congr
  intro id hid
  rw [getElem?_erase_ite]
  by_cases hgone : gone = id
  · subst hgone
    cases hslot : pool.byId[gone]? with
    | none => simp
    | some tx => simp [Option.filter, h.named hslot]
  · have hne : (id != gone) = true := by simpa using fun heq => hgone heq.symm
    cases hslot : pool.byId[id]? with
    | none => simp [hgone]
    | some tx => simp [Option.filter, h.named hslot, hgone, hne]

theorem pending_removeConfirmed (h : WellFormed P pool) (txIds : List String)
    (htx : tx ∈ (pool.removeConfirmed txIds).pending) : tx ∈ pool.pending := by
  rw [mem_pending (h.removeConfirmed txIds), removeConfirmed_slot] at htx
  split at htx
  · cases htx
  · exact (mem_pending h).mpr htx

theorem size_removeConfirmed_le (pool : Mempool) (txIds : List String) :
    (pool.removeConfirmed txIds).byId.size ≤ pool.byId.size := by
  unfold Mempool.removeConfirmed
  dsimp only
  induction txIds generalizing pool with
  | nil => exact Nat.le_refl _
  | cons id rest ih =>
      rw [List.foldl_cons]
      have hrest := ih { byId := pool.byId.erase id, order := pool.order }
      exact hrest.trans ExtTreeMap.size_erase_le

/-!
# Admission
-/

/-- The conditions under which `evaluate` accepts without evicting. -/
structure Admits (P : Platform) (pool : Mempool) (tx : Tx) (currentNonce : UInt64) : Prop where
  valid : validateTxStateless P tx = .ok ()
  fresh : forall t, t ∈ pool.pending -> canonicalTxId P t ≠ canonicalTxId P tx
  not_stale : currentNonce ≤ tx.nonce
  no_gap : tx.nonce ≤ saturatingAddU64 currentNonce 1
  free : forall t, t ∈ pool.pending -> t.senderPubkey = tx.senderPubkey -> t.nonce ≠ tx.nonce

inductive AdmitCase (P : Platform) (pool : Mempool) (tx : Tx) (currentNonce : UInt64) :
    Except MempoolAdmissionError AdmissionDecision × Mempool -> Prop where
  | refused (e : MempoolAdmissionError) : ¬Admits P pool tx currentNonce ->
      AdmitCase P pool tx currentNonce (.error e, pool)
  | accepted : Admits P pool tx currentNonce ->
      AdmitCase P pool tx currentNonce
        (.ok .accept, pool.insertLocked (canonicalTxId P tx) tx)
  | replaced {existing : Tx} : validateTxStateless P tx = .ok () ->
      (forall t, t ∈ pool.pending -> canonicalTxId P t ≠ canonicalTxId P tx) ->
      existing ∈ pool.pending -> existing.senderPubkey = tx.senderPubkey ->
      existing.nonce = tx.nonce ->
      AdmitCase P pool tx currentNonce
        (.ok (.replace (canonicalTxId P existing)),
          (pool.evict (canonicalTxId P existing)).insertLocked (canonicalTxId P tx) tx)

theorem admit_cases (P : Platform) (pool : Mempool) (tx : Tx) (currentNonce : UInt64) :
    AdmitCase P pool tx currentNonce (pool.admitTx P tx currentNonce) := by
  unfold admitTx MempoolAdmission.evaluate
  cases hvalid : validateTxStateless P tx with
  | error e =>
      apply AdmitCase.refused
      intro hadmits
      rw [hadmits.valid] at hvalid
      cases hvalid
  | ok _ =>
      dsimp only
      by_cases hknown : (pool.pending.any fun t => canonicalTxId P t == canonicalTxId P tx) = true
      · rw [if_pos hknown]
        apply AdmitCase.refused
        intro hadmits
        rcases List.any_eq_true.mp hknown with ⟨t, ht, heq⟩
        exact hadmits.fresh t ht (by simpa using heq)
      · rw [if_neg hknown]
        have hfresh : forall t, t ∈ pool.pending -> canonicalTxId P t ≠ canonicalTxId P tx := by
          intro t ht heq
          exact hknown (List.any_eq_true.mpr ⟨t, ht, by simpa using heq⟩)
        by_cases hstale : tx.nonce < currentNonce
        · rw [if_pos hstale]
          apply AdmitCase.refused
          intro hadmits
          exact absurd hadmits.not_stale (UInt64.not_le.mpr hstale)
        · rw [if_neg hstale]
          by_cases hgap : tx.nonce > saturatingAddU64 currentNonce 1
          · rw [if_pos hgap]
            apply AdmitCase.refused
            intro hadmits
            exact absurd hadmits.no_gap (UInt64.not_le.mpr hgap)
          · rw [if_neg hgap]
            cases hfound : pool.pending.find? fun existing =>
                existing.senderPubkey == tx.senderPubkey && existing.nonce == tx.nonce with
            | none =>
                apply AdmitCase.accepted
                rw [List.find?_eq_none] at hfound
                constructor
                · exact hvalid
                · exact hfresh
                · exact UInt64.not_lt.mp hstale
                · exact UInt64.not_lt.mp hgap
                · intro t ht hsender hnonce
                  exact hfound t ht (by simp [hsender, hnonce])
            | some existing =>
                have hmem := List.mem_of_find?_eq_some hfound
                have hsame := List.find?_some hfound
                simp only [Bool.and_eq_true, beq_iff_eq] at hsame
                dsimp only
                by_cases htip : tx.tip > existing.tip
                · rw [if_pos htip]
                  exact AdmitCase.replaced hvalid hfresh hmem hsame.1 hsame.2
                · rw [if_neg htip]
                  apply AdmitCase.refused
                  intro hadmits
                  exact hadmits.free existing hmem hsame.1 hsame.2

theorem byteLen_sender_of_valid (h : validateTxStateless P tx = .ok ()) :
    byteLen tx.senderPubkey < u64Bound := by
  have hkey := byteLen_senderPubkey_le tx
  have hbound : maxSerializedTxBytes < u64Bound := by decide
  unfold validateTxStateless at h
  split at h
  · cases h
  · omega

theorem not_mem_byId (h : WellFormed P pool)
    (hfresh : forall t, t ∈ pool.pending -> canonicalTxId P t ≠ canonicalTxId P tx) :
    canonicalTxId P tx ∉ pool.byId := by
  intro hmem
  rw [ExtTreeMap.mem_iff_isSome_getElem?, Option.isSome_iff_exists] at hmem
  rcases hmem with ⟨t, hslot⟩
  have hid := h.named hslot
  exact hfresh t ((mem_pending h).mpr (hid ▸ hslot)) hid

theorem evict_fresh (hfresh : id ∉ pool.byId) (gone : String) : id ∉ (pool.evict gone).byId := by
  unfold Mempool.evict
  rw [ExtTreeMap.mem_iff_isSome_getElem?, getElem?_erase_ite]
  split
  · simp
  · rw [← ExtTreeMap.mem_iff_isSome_getElem?]
    exact hfresh

theorem WellFormed.admitTx (h : WellFormed P pool) (tx : Tx) (currentNonce : UInt64) :
    WellFormed P (pool.admitTx P tx currentNonce).2 := by
  have hcase := admit_cases P pool tx currentNonce
  generalize pool.admitTx P tx currentNonce = out at hcase
  cases hcase with
  | refused _ _ => exact h
  | accepted hadmits =>
      exact h.insertLocked (not_mem_byId h hadmits.fresh) (byteLen_sender_of_valid hadmits.valid)
  | replaced hvalid hfresh _ _ _ =>
      exact (h.evict _).insertLocked (evict_fresh (not_mem_byId h hfresh) _)
        (byteLen_sender_of_valid hvalid)

theorem requeueStep_pool (g : ChainState) (report : ReorgRequeueReport) (pool : Mempool)
    (tx : Tx) :
    (requeueStep P g (report, pool) tx).2 = (pool.admitTx P tx (g.nonceOf tx.senderPubkey)).2 := by
  unfold requeueStep
  cases pool.admitTx P tx (g.nonceOf tx.senderPubkey) with
  | mk result after => cases result <;> rfl

theorem WellFormed.requeue (h : WellFormed P pool) (g : ChainState) (recovery : ReorgRecovery) :
    WellFormed P (pool.requeueAfterReorg P g recovery).2 := by
  unfold requeueAfterReorg
  have hstart := h.removeConfirmed recovery.winningTxIds
  generalize ({ accepted := [], rejected := [] } : ReorgRequeueReport) = report
  generalize pool.removeConfirmed recovery.winningTxIds = start at hstart
  induction requeueCandidates P recovery generalizing report start with
  | nil => exact hstart
  | cons tx rest ih =>
      rw [List.foldl_cons]
      have hstep := hstart.admitTx tx (g.nonceOf tx.senderPubkey)
      rw [← requeueStep_pool g report start tx] at hstep
      exact ih _ _ hstep

/-- The pools that the operations of the mempool build. -/
inductive Reached (P : Platform) : Mempool -> Prop where
  | empty : Reached P Mempool.empty
  | insert {pool : Mempool} (tx : Tx) : Reached P pool -> byteLen tx.senderPubkey < u64Bound ->
      Reached P (pool.insert P tx).2
  | admitTx {pool : Mempool} (tx : Tx) (currentNonce : UInt64) : Reached P pool ->
      Reached P (pool.admitTx P tx currentNonce).2
  | removeConfirmed {pool : Mempool} (txIds : List String) : Reached P pool ->
      Reached P (pool.removeConfirmed txIds)
  | requeue {pool : Mempool} (g : ChainState) (recovery : ReorgRecovery) : Reached P pool ->
      Reached P (pool.requeueAfterReorg P g recovery).2

theorem Reached.wellFormed (h : Reached P pool) : WellFormed P pool := by
  induction h with
  | empty => exact WellFormed.empty P
  | insert tx _ hshort ih =>
      unfold Mempool.insert
      split
      · exact ih
      · rename_i hfresh
        exact ih.insertLocked (mt ExtTreeMap.contains_iff_mem.mpr hfresh) hshort
  | admitTx tx currentNonce _ ih => exact ih.admitTx tx currentNonce
  | removeConfirmed txIds _ ih => exact ih.removeConfirmed txIds
  | requeue g recovery _ ih => exact ih.requeue g recovery

end Operations

end Mempool

end VisionCore
