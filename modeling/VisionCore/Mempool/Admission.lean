import VisionCore.Types.Transaction

/-!
# Mempool admission

The policy for one transaction against a snapshot of the pending ones.
-/

namespace VisionCore

inductive MempoolAdmissionError where
  | statelessValidation (e : TxValidationError)
  | duplicateCanonicalTxId
  | staleNonce (currentNonce txNonce : UInt64)
  | nonceGap (currentNonce txNonce : UInt64)
  | duplicateSenderNonce (senderPubkey : String) (nonce existingTip newTip : UInt64)
deriving DecidableEq, Repr

inductive AdmissionDecision where
  | accept
  | replace (evictTxId : String)
deriving DecidableEq, Repr

def saturatingAddU64 (a b : UInt64) : UInt64 :=
  if a.toNat + b.toNat < u64Bound then a + b else UInt64.ofNat (u64Bound - 1)

structure MempoolAdmission where
  currentNonce : UInt64
  pending : List Tx

def MempoolAdmission.evaluate (P : Platform) (admission : MempoolAdmission) (tx : Tx) :
    Except MempoolAdmissionError AdmissionDecision :=
  match validateTxStateless P tx with
  | .error e => .error (.statelessValidation e)
  | .ok () =>
      let txId := canonicalTxId P tx
      if admission.pending.any fun existing => canonicalTxId P existing == txId then
        .error .duplicateCanonicalTxId
      else if tx.nonce < admission.currentNonce then
        .error (.staleNonce admission.currentNonce tx.nonce)
      else if tx.nonce > saturatingAddU64 admission.currentNonce 1 then
        .error (.nonceGap admission.currentNonce tx.nonce)
      else
        match admission.pending.find? fun existing =>
          existing.senderPubkey == tx.senderPubkey && existing.nonce == tx.nonce with
        | some existing =>
            if tx.tip > existing.tip then .ok (.replace (canonicalTxId P existing))
            else .error (.duplicateSenderNonce tx.senderPubkey tx.nonce existing.tip tx.tip)
        | none => .ok .accept

end VisionCore
