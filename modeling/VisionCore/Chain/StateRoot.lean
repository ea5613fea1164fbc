import VisionCore.Types.Transaction

/-!
# The account state commitment
-/

namespace VisionCore

open Std

inductive StateRootError where
  | malformedAccountKey
  | mixedCaseAccountKey
deriving DecidableEq, Repr

/-- The bytes of `VSTATE`. -/
def stateRootMagic : Bytes := [86, 83, 84, 65, 84, 69]

def stateRootVersion : Nat := 1

def validateAccountKey (key : String) : Except StateRootError Unit :=
  if byteLen key ≠ 64 then .error .malformedAccountKey
  else
    let sawUppercase := (asBytes key).any isUpperHexByte
    let sawNonLowerHex :=
      (asBytes key).any fun byte => !isUpperHexByte byte && !isLowerHexByte byte
    if sawUppercase then .error .mixedCaseAccountKey
    else if sawNonLowerHex then .error .malformedAccountKey
    else .ok ()

def decodeAccountKey (key : String) : Except StateRootError U256 := do
  validateAccountKey key
  match hexDecode (asBytes key) with
  | .error _ => .error .malformedAccountKey
  | .ok bytes =>
      if h : bytes.length = 32 then .ok ⟨bytes, h⟩ else .error .malformedAccountKey

def encodeHeader : Bytes :=
  stateRootMagic ++ toLeBytes 4 stateRootVersion

/-- The encoded entries of a map: the 32-byte key, then the value at `width`. -/
def appendEntries (width : Nat) : List (String × Nat) -> Except StateRootError Bytes
  | [] => .ok []
  | (key, value) :: rest => do
      let decoded <- decodeAccountKey key
      let tail <- appendEntries width rest
      return decoded.bytes ++ toLeBytes width value ++ tail

/-- The non-zero entries in key order. -/
def balanceEntries (balances : ExtTreeMap String Nat) : List (String × Nat) :=
  balances.toList.filter fun entry => entry.2 != 0

def nonceEntries (nonces : ExtTreeMap String UInt64) : List (String × Nat) :=
  (nonces.toList.map fun entry => (entry.1, entry.2.toNat)).filter fun entry => entry.2 != 0

def appendBalances (balances : ExtTreeMap String Nat) : Except StateRootError Bytes := do
  let entries := balanceEntries balances
  let body <- appendEntries 16 entries
  return toLeBytes 8 entries.length ++ body

def appendNonces (nonces : ExtTreeMap String UInt64) : Except StateRootError Bytes := do
  let entries := nonceEntries nonces
  let body <- appendEntries 8 entries
  return toLeBytes 8 entries.length ++ body

def canonicalStateVector (balances : ExtTreeMap String Nat)
    (nonces : ExtTreeMap String UInt64) : Except StateRootError Bytes := do
  let balancePart <- appendBalances balances
  let noncePart <- appendNonces nonces
  return encodeHeader ++ balancePart ++ noncePart

def computeStateRoot (P : Platform) (balances : ExtTreeMap String Nat)
    (nonces : ExtTreeMap String UInt64) : Except StateRootError String := do
  let vector <- canonicalStateVector balances nonces
  return hexEncode (P.blake3 vector).bytes

end VisionCore
