import VisionCore.Types.Transaction

/-!
# Block headers and blocks
-/

namespace VisionCore

structure BlockHeader where
  parentHash : String
  number : UInt64
  timestamp : UInt64
  difficulty : UInt64
  nonce : UInt64
  powHash : String
  stateRoot : String
  txRoot : String
  miner : String
deriving DecidableEq, Repr

structure Block where
  header : BlockHeader
  txs : List Tx
  weight : UInt64
deriving DecidableEq, Repr

/-- The null hash: 64 zero characters. -/
def nullHash : String :=
  "0000000000000000000000000000000000000000000000000000000000000000"

namespace BlockHeader

/-- Decode a hash into 32 bytes, padding with zeros on error. -/
def decodeHash32 (s : String) : Bytes :=
  let raw :=
    match hexDecode (asBytes s) with
    | .ok bytes => bytes
    | .error _ => List.replicate 32 0
  let kept := raw.take 32
  kept ++ List.replicate (32 - kept.length) 0

def canonicalBytes (header : BlockHeader) : Bytes :=
  toBeBytes 4 blockVersion.toNat ++ toBeBytes 8 header.number.toNat ++
    decodeHash32 header.parentHash ++ toBeBytes 8 header.timestamp.toNat ++
    toBeBytes 8 header.difficulty.toNat ++ toBeBytes 8 header.nonce.toNat ++
    decodeHash32 header.txRoot

def computeHash (P : Platform) (header : BlockHeader) : String :=
  hexEncode (P.blake3 header.canonicalBytes).bytes

end BlockHeader

namespace Block

def hash (blk : Block) : String :=
  blk.header.powHash

def height (blk : Block) : UInt64 :=
  blk.header.number

def computeTxRoot (P : Platform) (blk : Block) : String :=
  if blk.txs.isEmpty then nullHash
  else hexEncode (P.blake3 (blk.txs.flatMap fun tx => asBytes (canonicalTxId P tx))).bytes

end Block

end VisionCore
