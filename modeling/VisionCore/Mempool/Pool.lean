import Mathlib.Data.List.Sort
import VisionCore.Chain.State
import VisionCore.Mempool.Admission

/-!
# The mempool

A map from identifiers to transactions and the queue of the identifiers in the
order of insertion.
-/

namespace VisionCore

open Std

structure Mempool where
  byId : ExtTreeMap String Tx
  order : List String

structure ReorgRequeueReport where
  accepted : List String
  rejected : List (String × MempoolAdmissionError)
deriving DecidableEq, Repr

namespace Mempool

def empty : Mempool :=
  { byId := ∅, order := [] }

/-- Make room by dropping the oldest transaction when the pool is full. -/
def makeRoom (pool : Mempool) : Mempool :=
  if pool.byId.size ≥ mempoolMax then
    match pool.order with
    | [] => pool
    | evictId :: rest => { byId := pool.byId.erase evictId, order := rest }
  else pool

def insertLocked (pool : Mempool) (id : String) (tx : Tx) : Mempool :=
  { byId := pool.makeRoom.byId.insert id tx
    order := pool.makeRoom.order ++ [id] }

/-- The pending transactions in the order of insertion. -/
def pending (pool : Mempool) : List Tx :=
  pool.order.filterMap fun id => pool.byId[id]?

def evict (pool : Mempool) (evictTxId : String) : Mempool :=
  { byId := pool.byId.erase evictTxId
    order := pool.order.filter fun id => id != evictTxId }

/-- `admit`: take a transaction in or leave the pool as it is. -/
def admitTx (P : Platform) (pool : Mempool) (tx : Tx) (currentNonce : UInt64) :
    Except MempoolAdmissionError AdmissionDecision × Mempool :=
  match MempoolAdmission.evaluate P { currentNonce := currentNonce, pending := pool.pending } tx with
  | .error e => (.error e, pool)
  | .ok .accept => (.ok .accept, pool.insertLocked (canonicalTxId P tx) tx)
  | .ok (.replace evictTxId) =>
      (.ok (.replace evictTxId), (pool.evict evictTxId).insertLocked (canonicalTxId P tx) tx)

/-- The first `limit` pending transactions, oldest first. -/
def selectForBlock (pool : Mempool) (limit : Nat) : List Tx :=
  (pool.order.take limit).filterMap fun id => pool.byId[id]?

def removeConfirmed (pool : Mempool) (txIds : List String) : Mempool :=
  let byId := txIds.foldl (fun byId id => byId.erase id) pool.byId
  { byId := byId
    order := pool.order.filter fun id => byId.contains id }

/-- The order in which displaced transactions are offered again. -/
def requeueLe (a b : Tx) : Prop :=
  a.senderPubkey < b.senderPubkey ∨ (a.senderPubkey = b.senderPubkey ∧ a.nonce ≤ b.nonce)

instance : DecidableRel requeueLe := fun a b =>
  inferInstanceAs (Decidable (a.senderPubkey < b.senderPubkey ∨ _))

def requeueCandidates (P : Platform) (recovery : ReorgRecovery) : List Tx :=
  (recovery.displacedTxs.filter fun tx =>
    tx.module != "coinbase" && !recovery.winningTxIds.contains (canonicalTxId P tx)).insertionSort
      requeueLe

/-- One candidate of `requeueAfterReorg`. -/
def requeueStep (P : Platform) (g : ChainState) (acc : ReorgRequeueReport × Mempool) (tx : Tx) :
    ReorgRequeueReport × Mempool :=
  match acc.2.admitTx P tx (g.nonceOf tx.senderPubkey) with
  | (.ok _, pool) =>
      ({ acc.1 with accepted := acc.1.accepted ++ [canonicalTxId P tx] }, pool)
  | (.error e, pool) =>
      ({ acc.1 with rejected := acc.1.rejected ++ [(canonicalTxId P tx, e)] }, pool)

def requeueAfterReorg (P : Platform) (pool : Mempool) (g : ChainState)
    (recovery : ReorgRecovery) : ReorgRequeueReport × Mempool :=
  (requeueCandidates P recovery).foldl (requeueStep P g)
    ({ accepted := [], rejected := [] }, pool.removeConfirmed recovery.winningTxIds)

end Mempool

end VisionCore
