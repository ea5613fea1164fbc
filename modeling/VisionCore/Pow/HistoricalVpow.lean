import VisionCore.Types.Block

/-!
# The historical proof-of-work preimage
-/

namespace VisionCore

/-- Why a header field does not decode as a 32-byte hash. -/
inductive HashDecodeError where
  | invalidHex (label : String) (e : HexError)
  | wrongLength (label : String) (got : Nat)
deriving DecidableEq, Repr

/-- Decode a hash that may carry a `0x` prefix. -/
def decodeHash32 (label s : String) : Except HashDecodeError U256 :=
  match hexDecode (stripHexPrefix (asBytes s)) with
  | .error e => .error (.invalidHex label e)
  | .ok bytes =>
      if h : bytes.length = 32 then .ok ⟨bytes, h⟩
      else .error (.wrongLength label bytes.length)

/-- The bytes of `VPOW`. -/
def vpowMagic : Bytes := [86, 80, 79, 87]

def vpowVersion : Nat := 1

def historicalVpowNonceOffset : Nat := 64

def historicalVpowMessageBytes (header : BlockHeader) : Except HashDecodeError Bytes := do
  let parentHash <- decodeHash32 "parent_hash" header.parentHash
  let txRoot <- decodeHash32 "tx_root" header.txRoot
  let minerBytes := asBytes header.miner
  return vpowMagic ++ toLeBytes 4 vpowVersion ++ parentHash.bytes ++
    toLeBytes 8 header.number.toNat ++ toLeBytes 8 header.timestamp.toNat ++
    toLeBytes 8 header.difficulty.toNat ++ toBeBytes 8 header.nonce.toNat ++
    txRoot.bytes ++ toLeBytes 4 (minerBytes.length % 2 ^ 32) ++ minerBytes

def historicalVpowMessageBytesWithNonceZero (header : BlockHeader) :
    Except HashDecodeError Bytes :=
  historicalVpowMessageBytes { header with nonce := 0 }

end VisionCore
