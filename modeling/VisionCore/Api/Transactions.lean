import VisionCore.Chain.Conservation
import VisionCore.Mempool.Requeue
import VisionCore.Node.Reconstruct
import VisionCore.Types.Binding

/-!
# Transactions at the API

A client submits a transaction to the pool and looks transactions up by their
identifiers, first on the canonical chain and then in the pool.
-/

namespace VisionCore

open Std
open Foundation

structure TransactionLookupSnapshot where
  txId : String
  found : Bool
  blockHash : Option String
  blockHeight : Option UInt64
  txIndex : Option Nat
  tx : Option Tx
deriving DecidableEq, Repr

def TransactionLookupSnapshot.pending (txId : String) (tx : Tx) : TransactionLookupSnapshot :=
  { txId := txId, found := true, blockHash := none, blockHeight := none, txIndex := none
    tx := some tx }

section Payloads

variable {tx tx' : Tx}

end Payloads

/-!
# Identifiers on the chain
-/

section Ids

variable {P : Platform} {D : Block -> Prop} {N : UInt64 -> Prop} {g : ChainState}
  {blk : Block} {tx : Tx}

/-- The identifiers tell the transactions apart: no two payloads share a hash, and no sender is
longer than a length can say. -/
structure IdsTell (P : Platform) (txs : List Tx) : Prop where
  bind : IdsBind P txs
  sender_lt : forall tx, tx ∈ txs -> byteLen tx.senderPubkey < u64Bound

/-- What the first transaction of a block that is not genesis looks like. -/
structure IsCoinbase (blk : Block) (tx : Tx) : Prop where
  module_eq : tx.module = "coinbase"
  method_eq : tx.method = "reward"
  args_length : tx.args.length = 8
  args_eq : fromBeBytes tx.args = blk.header.number.toNat

theorem Sound.coinbase (hs : Sound P N g) (hg : Represents P D g) (hblk : blk ∈ g.blocks)
    (htx : tx ∈ blk.txs.take 1) : IsCoinbase blk tx := by
  have hlookup := hg.resolve_of_mem hblk
  rcases hg.rooted.path hlookup with ⟨ancestors, hl⟩
  cases ancestors with
  | nil =>
      cases hl with
      | root _ => cases htx
  | cons parent rest =>
      have hnumber := hg.number_ne hl
      rcases hs.vouched hl with ⟨before, after, hvouched⟩
      rcases hvouched.verdict with ⟨now, _, hverdict⟩
      have hstructure : checkStructure P blk = .ok () := by
        rcases hg.candidate hlookup with rfl | ⟨_, hsealed⟩
        · exact absurd rfl hnumber
        · exact hsealed.structure_ok
      rcases checkCoinbase_ok hnumber hstructure (lineVerdict_valid hverdict).coinbaseHeight with
        ⟨cb, hfirst, hmodule, hmethod, hlength, hargs⟩
      have heq : tx = cb := by
        cases htxs : blk.txs with
        | nil =>
            rw [htxs] at hfirst
            cases hfirst
        | cons first others =>
            rw [htxs] at hfirst htx
            cases hfirst
            exact List.mem_singleton.mp htx
      subst heq
      exact ⟨hmodule, hmethod, hlength, hargs⟩

theorem IdsTell.mono {txs txs' : List Tx} (h : IdsTell P txs) (hsub : txs' ⊆ txs) :
    IdsTell P txs' where
  bind := fun tx tx' htx htx' => h.bind tx tx' (hsub htx) (hsub htx')
  sender_lt := fun tx htx => h.sender_lt tx (hsub htx)

end Ids

/-!
# Lookups
-/

section Lookups

variable {P : Platform} {D : Block -> Prop} {N : UInt64 -> Prop} {g : ChainState}
  {pool pool' : Mempool} {place : TxPlace} {tx : Tx} {txId : String}

end Lookups

/-!
# Sample lookups
-/

end VisionCore
