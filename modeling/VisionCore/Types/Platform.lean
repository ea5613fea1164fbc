import VisionCore.Config.Constants
import VisionCore.Types.Encoding

/-!
# What the node takes from outside

Third-party cryptography and decoding, the VisionX hash, and the build's
treatment of integer overflow.  Every function of the model that depends on one
of them takes the `Platform` as its first argument.
-/

namespace VisionCore

structure CashTransferArgs where
  «to» : String
  amount : Nat
  amount_lt : amount < u128Bound
deriving DecidableEq

structure VisionXParams where
  datasetMb : Nat
  scratchMb : Nat
  mixIters : UInt32
  readsPerIter : UInt32
  writeEvery : UInt32
  epochBlocks : UInt32
deriving DecidableEq, Repr

structure Platform where
  blake3 : Bytes -> U256
  /-- Whether the bytes are a valid Ed25519 verifying key. -/
  verifyingKey : U256 -> Bool
  /-- Ed25519 verification of a message against a key and a 64-byte signature. -/
  verify : U256 -> Bytes -> Bytes -> Bool
  /-- The JSON decoder for transfer arguments. -/
  transferArgsFromJson : Bytes -> Option CashTransferArgs
  /-- The VisionX hash of a preimage and a nonce over the epoch's dataset. -/
  visionxHash : VisionXParams -> U256 -> UInt64 -> Bytes -> UInt64 -> U256
  /-- Whether the build aborts on integer overflow or wraps. -/
  overflowChecks : Bool

/-!
# Aborts

A Rust function that may panic returns its value in `Except Fault`.  A
function that also returns a `Result` uses `Except (Stop error)`.
-/

inductive Fault where
  | expectNone
  | indexOutOfRange
  | overflow
  | diverges
deriving DecidableEq, Repr

inductive Stop (error : Type) where
  | fault (f : Fault)
  | err (e : error)
deriving DecidableEq, Repr

def liftFault {error α : Type} : Except Fault α -> Except (Stop error) α
  | .ok a => .ok a
  | .error f => .error (.fault f)

def mapErr {error error' α : Type} (f : error -> error') :
    Except (Stop error) α -> Except (Stop error') α
  | .ok a => .ok a
  | .error (.fault x) => .error (.fault x)
  | .error (.err e) => .error (.err (f e))

/-- An unchecked `u64` addition. -/
def addU64 (P : Platform) (a b : UInt64) : Except Fault UInt64 :=
  if a.toNat + b.toNat < u64Bound then .ok (a + b)
  else if P.overflowChecks then .error .overflow
  else .ok (a + b)

/-- An unchecked `u128` addition. -/
def addU128 (P : Platform) (a b : Nat) : Except Fault Nat :=
  if a + b < u128Bound then .ok (a + b)
  else if P.overflowChecks then .error .overflow
  else .ok ((a + b) % u128Bound)

/-- A shift of a `u128` to the right by a `u64`. -/
def shrU128 (P : Platform) (a shift : Nat) : Except Fault Nat :=
  if shift < 128 then .ok (a >>> shift)
  else if P.overflowChecks then .error .overflow
  else .ok (a >>> (shift % 128))

theorem addU64_ok (P : Platform) {a b : UInt64} (h : a.toNat + b.toNat < u64Bound) :
    addU64 P a b = .ok (a + b) := by
  simp [addU64, h]

theorem addU128_ok (P : Platform) {a b : Nat} (h : a + b < u128Bound) :
    addU128 P a b = .ok (a + b) := by
  simp [addU128, h]

theorem shrU128_ok (P : Platform) {a shift : Nat} (h : shift < 128) :
    shrU128 P a shift = .ok (a >>> shift) := by
  simp [shrU128, h]

end VisionCore
