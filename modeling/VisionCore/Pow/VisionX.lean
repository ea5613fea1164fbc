import VisionCore.Pow.HistoricalVpow

/-!
# VisionX digests

The dataset construction and the memory-hard loop are the platform's
`visionxHash`; this module holds the parameters, the epoch and the digest of a
block header.
-/

namespace VisionCore

namespace VisionXParams

def epoch (params : VisionXParams) (height : UInt64) : UInt64 :=
  height / UInt64.ofNat params.epochBlocks.toNat

end VisionXParams

def visionxParams : VisionXParams :=
  { datasetMb := visionxDatasetMb
    scratchMb := visionxScratchMb
    mixIters := visionxMixIters
    readsPerIter := visionxReadsPerIter
    writeEvery := visionxWriteEvery
    epochBlocks := visionxEpochBlocks }

def paramsWithinBounds (params : VisionXParams) : Bool :=
  params.datasetMb ≤ 512 && params.scratchMb ≤ 128 && params.mixIters.toNat ≤ 1000000 &&
    params.readsPerIter.toNat ≤ 8

inductive DigestError where
  | hash (e : HashDecodeError)
  | invalidParameters
deriving DecidableEq, Repr

def visionxDigest (P : Platform) (params : VisionXParams) (prevHash32 : U256)
    (epoch : UInt64) (headerBytes : Bytes) (nonce : UInt64) : Except DigestError U256 :=
  if !paramsWithinBounds params then .error .invalidParameters
  else .ok (P.visionxHash params prevHash32 epoch headerBytes nonce)

def historicalBlockDigest (P : Platform) (params : VisionXParams) (epoch : UInt64)
    (header : BlockHeader) : Except DigestError U256 :=
  match decodeHash32 "parent_hash" header.parentHash with
  | .error e => .error (.hash e)
  | .ok prevHash32 =>
      match historicalVpowMessageBytesWithNonceZero header with
      | .error e => .error (.hash e)
      | .ok historicalPreimage =>
          visionxDigest P params prevHash32 epoch historicalPreimage header.nonce

end VisionCore
