import Mathlib.Tactic

/-!
# Byte encodings

Integers and strings as the byte sequences that the node hashes and stores.  A
Rust string is its sequence of UTF-8 bytes, so lengths and character classes
are read off `asBytes`.
-/

namespace VisionCore

abbrev Bytes := List UInt8

/-- A 32-byte value: a hash, a public key or a proof-of-work target. -/
structure U256 where
  bytes : Bytes
  length_eq : bytes.length = 32
deriving DecidableEq

def asBytes (s : String) : Bytes :=
  s.toUTF8.data.toList

/-- The byte length of a string. -/
def byteLen (s : String) : Nat :=
  (asBytes s).length

/-!
# Integers
-/

def toLeBytes : Nat -> Nat -> Bytes
  | 0, _ => []
  | width + 1, n => UInt8.ofNat (n % 256) :: toLeBytes width (n / 256)

def toBeBytes (width n : Nat) : Bytes :=
  (toLeBytes width n).reverse

def fromBeBytes (bytes : Bytes) : Nat :=
  bytes.foldl (fun acc byte => acc * 256 + byte.toNat) 0

@[simp] theorem toLeBytes_length (width n : Nat) :
    (toLeBytes width n).length = width := by
  induction width generalizing n with
  | zero => rfl
  | succ width ih => simp [toLeBytes, ih]

@[simp] theorem toBeBytes_length (width n : Nat) :
    (toBeBytes width n).length = width := by
  simp [toBeBytes]

/-- Lexicographic order on byte slices. -/
def bytesLe : Bytes -> Bytes -> Bool
  | [], _ => true
  | _ :: _, [] => false
  | a :: as, b :: bs =>
      if a.toNat < b.toNat then true
      else if b.toNat < a.toNat then false
      else bytesLe as bs

/-!
# Hexadecimal text
-/

inductive HexError where
  | oddLength
  | invalidHexCharacter (byte : UInt8) (index : Nat)
deriving DecidableEq, Repr

def hexDigit (n : Nat) : Char :=
  if n < 10 then Char.ofNat (48 + n) else Char.ofNat (87 + n)

def hexEncode (bytes : Bytes) : String :=
  String.ofList
    (bytes.flatMap fun byte => [hexDigit (byte.toNat / 16), hexDigit (byte.toNat % 16)])

def hexValue (byte : UInt8) (index : Nat) : Except HexError Nat :=
  let n := byte.toNat
  if 48 ≤ n ∧ n ≤ 57 then .ok (n - 48)
  else if 97 ≤ n ∧ n ≤ 102 then .ok (n - 87)
  else if 65 ≤ n ∧ n ≤ 70 then .ok (n - 55)
  else .error (.invalidHexCharacter byte index)

def hexDecodePairs : Nat -> Bytes -> Except HexError Bytes
  | _, [] => .ok []
  | _, [_] => .error .oddLength
  | index, a :: b :: rest => do
      let hi <- hexValue a index
      let lo <- hexValue b (index + 1)
      let tail <- hexDecodePairs (index + 2) rest
      return UInt8.ofNat (hi * 16 + lo) :: tail

def hexDecode (text : Bytes) : Except HexError Bytes :=
  if text.length % 2 ≠ 0 then .error .oddLength
  else hexDecodePairs 0 text

/-- Remove a leading `0x`. -/
def stripHexPrefix : Bytes -> Bytes
  | 48 :: 120 :: rest => rest
  | text => text

def isLowerHexByte (byte : UInt8) : Bool :=
  let n := byte.toNat
  (Nat.ble 48 n && Nat.ble n 57) || (Nat.ble 97 n && Nat.ble n 102)

def isUpperHexByte (byte : UInt8) : Bool :=
  let n := byte.toNat
  Nat.ble 65 n && Nat.ble n 70

def isLowercaseHex (s : String) : Bool :=
  (asBytes s).all isLowerHexByte

/-- A string of 64 lowercase hexadecimal characters. -/
def IsAccountKey (s : String) : Prop :=
  byteLen s = 64 ∧ isLowercaseHex s = true

instance (s : String) : Decidable (IsAccountKey s) :=
  inferInstanceAs (Decidable (_ ∧ _))

/-!
# Bincode

Fixed-width little-endian integers; strings and byte vectors carry their length
as eight bytes.
-/

def bincodeU64 (n : UInt64) : Bytes :=
  toLeBytes 8 n.toNat

def bincodeBytes (bytes : Bytes) : Bytes :=
  toLeBytes 8 bytes.length ++ bytes

def bincodeString (s : String) : Bytes :=
  bincodeBytes (asBytes s)

/-!
# Checked and unchecked arithmetic
-/

def u64Bound : Nat := 2 ^ 64

def u128Bound : Nat := 2 ^ 128

def checkedAddU64 (a b : UInt64) : Option UInt64 :=
  if a.toNat + b.toNat < u64Bound then some (a + b) else none

def checkedAddU128 (a b : Nat) : Option Nat :=
  if a + b < u128Bound then some (a + b) else none

end VisionCore
