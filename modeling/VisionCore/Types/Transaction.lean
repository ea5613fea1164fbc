import VisionCore.Types.Platform

/-!
# Transactions

The transaction envelope, its canonical identifier, stateless validation and
execution against a balance and nonce state.
-/

namespace VisionCore

open Std

structure Tx where
  nonce : UInt64
  senderPubkey : String
  «module» : String
  method : String
  args : Bytes
  tip : UInt64
  feeLimit : UInt64
  sig : String
deriving DecidableEq, Repr

def Tx.bincode (tx : Tx) : Bytes :=
  bincodeU64 tx.nonce ++ bincodeString tx.senderPubkey ++ bincodeString tx.module ++
    bincodeString tx.method ++ bincodeBytes tx.args ++ bincodeU64 tx.tip ++
    bincodeU64 tx.feeLimit ++ bincodeString tx.sig

def canonicalUnsignedPayload (tx : Tx) : Bytes :=
  { tx with sig := "" }.bincode

def canonicalTxId (P : Platform) (tx : Tx) : String :=
  hexEncode (P.blake3 (canonicalUnsignedPayload tx)).bytes

/-!
# Signatures
-/

inductive TxSignatureError where
  | senderPubkeyWrongLength
  | senderPubkeyNotLowercaseHex
  | signatureWrongLength
  | signatureNotLowercaseHex
  | malformedPublicKey
  | invalidSignature
deriving DecidableEq, Repr

def decodeSenderPubkey (senderPubkey : String) : Except TxSignatureError U256 :=
  if byteLen senderPubkey ≠ 64 then .error .senderPubkeyWrongLength
  else if !isLowercaseHex senderPubkey then .error .senderPubkeyNotLowercaseHex
  else
    match hexDecode (asBytes senderPubkey) with
    | .error _ => .error .senderPubkeyNotLowercaseHex
    | .ok bytes =>
        if h : bytes.length = 32 then .ok ⟨bytes, h⟩
        else .error .senderPubkeyWrongLength

def decodeSignature (sig : String) : Except TxSignatureError Bytes :=
  if byteLen sig ≠ 128 then .error .signatureWrongLength
  else if !isLowercaseHex sig then .error .signatureNotLowercaseHex
  else
    match hexDecode (asBytes sig) with
    | .error _ => .error .signatureNotLowercaseHex
    | .ok bytes =>
        if bytes.length = 64 then .ok bytes else .error .signatureWrongLength

def verifyTxSignature (P : Platform) (tx : Tx) : Except TxSignatureError Unit := do
  let pubkeyBytes <- decodeSenderPubkey tx.senderPubkey
  let sigBytes <- decodeSignature tx.sig
  if !P.verifyingKey pubkeyBytes then .error .malformedPublicKey
  else if !P.verify pubkeyBytes (canonicalUnsignedPayload tx) sigBytes then
    .error .invalidSignature
  else .ok ()

/-!
# Stateless validation
-/

def maxSerializedTxBytes : Nat := 64 * 1024

def minCashTransferFeeLimit : UInt64 := 201

def cashTransferBaseFee : UInt64 := 1

inductive TxValidationError where
  | txTooLarge
  | missingSenderPubkey
  | missingSignature
  | unsupportedModuleMethod
  | badTransferArgs
  | invalidTransferDestination
  | transferAmountZero
  | transferToSelf
  | feeLimitTooLow
  | signature (e : TxSignatureError)
deriving DecidableEq, Repr

def serializedTxSize (tx : Tx) : Nat :=
  tx.bincode.length

def isLowercaseHex32Bytes (s : String) : Bool :=
  byteLen s == 64 && isLowercaseHex s

def decodeCashTransferArgs (P : Platform) (args : Bytes) :
    Except TxValidationError CashTransferArgs :=
  match P.transferArgsFromJson args with
  | some args => .ok args
  | none => .error .badTransferArgs

def validateCashTransferStateless (P : Platform) (tx : Tx) :
    Except TxValidationError Unit :=
  if tx.feeLimit < minCashTransferFeeLimit then .error .feeLimitTooLow
  else
    match verifyTxSignature P tx with
    | .error e => .error (.signature e)
    | .ok () =>
        match decodeCashTransferArgs P tx.args with
        | .error e => .error e
        | .ok args =>
            if !isLowercaseHex32Bytes args.«to» then .error .invalidTransferDestination
            else if args.amount = 0 then .error .transferAmountZero
            else if args.«to» = tx.senderPubkey then .error .transferToSelf
            else .ok ()

def validateTxStateless (P : Platform) (tx : Tx) : Except TxValidationError Unit :=
  if serializedTxSize tx > maxSerializedTxBytes then .error .txTooLarge
  else if tx.module = "coinbase" ∧ tx.method = "reward" then .ok ()
  else if tx.senderPubkey = "" then .error .missingSenderPubkey
  else if tx.sig = "" then .error .missingSignature
  else if tx.module = "cash" ∧ tx.method = "transfer" then
    validateCashTransferStateless P tx
  else .error .unsupportedModuleMethod

/-!
# Execution
-/

structure TxExecutionState where
  balances : ExtTreeMap String Nat
  nonces : ExtTreeMap String UInt64

def TxExecutionState.new : TxExecutionState :=
  { balances := ∅, nonces := ∅ }

def TxExecutionState.balanceOf (state : TxExecutionState) (address : String) : Nat :=
  (state.balances[address]?).getD 0

def TxExecutionState.nonceOf (state : TxExecutionState) (address : String) : UInt64 :=
  (state.nonces[address]?).getD 0

structure TxExecutionOutcome where
  sender : String
  recipient : String
  amount : Nat
  chargedFee : UInt64
  nextSenderNonce : UInt64
deriving DecidableEq, Repr

inductive TxExecutionError where
  | validation (e : TxValidationError)
  | nonceMismatch (expected actual : UInt64)
  | feeExceedsLimit (chargedFee feeLimit : UInt64)
  | insufficientBalance (available required : Nat)
  | arithmeticOverflow
deriving DecidableEq, Repr

/-- Execute one transaction.  The state is returned in every case: the source
mutates it in place, and only after the last check. -/
def simulateTxExecution (P : Platform) (state : TxExecutionState) (tx : Tx) :
    Except TxExecutionError TxExecutionOutcome × TxExecutionState :=
  if tx.module ≠ "cash" ∨ tx.method ≠ "transfer" then
    (.error (.validation .unsupportedModuleMethod), state)
  else
    match validateTxStateless P tx with
    | .error e => (.error (.validation e), state)
    | .ok () =>
        let sender := tx.senderPubkey
        let expectedNonce := state.nonceOf sender
        if tx.nonce ≠ expectedNonce then
          (.error (.nonceMismatch expectedNonce tx.nonce), state)
        else
          match decodeCashTransferArgs P tx.args with
          | .error e => (.error (.validation e), state)
          | .ok args =>
              match checkedAddU64 cashTransferBaseFee tx.tip with
              | none => (.error .arithmeticOverflow, state)
              | some chargedFee =>
                  if chargedFee > tx.feeLimit then
                    (.error (.feeExceedsLimit chargedFee tx.feeLimit), state)
                  else
                    match checkedAddU128 args.amount chargedFee.toNat with
                    | none => (.error .arithmeticOverflow, state)
                    | some totalCost =>
                        let available := state.balanceOf sender
                        if available < totalCost then
                          (.error (.insufficientBalance available totalCost), state)
                        else
                          match checkedAddU128 (state.balanceOf args.«to») args.amount with
                          | none => (.error .arithmeticOverflow, state)
                          | some newRecipientBalance =>
                              match checkedAddU64 expectedNonce 1 with
                              | none => (.error .arithmeticOverflow, state)
                              | some nextSenderNonce =>
                                  (.ok
                                    { sender := sender
                                      recipient := args.«to»
                                      amount := args.amount
                                      chargedFee := chargedFee
                                      nextSenderNonce := nextSenderNonce },
                                    { balances :=
                                        (state.balances.insert sender
                                          (available - totalCost)).insert args.«to»
                                          newRecipientBalance
                                      nonces := state.nonces.insert sender nextSenderNonce })

end VisionCore
