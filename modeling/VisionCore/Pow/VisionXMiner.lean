import VisionCore.Pow.Difficulty
import VisionCore.Pow.VisionX

/-!
# Jobs for the VisionX miner

The miner's own view of the proof of work: a job holds the preimage and the
target, a solution is a nonce with the hash found for it.
-/

namespace VisionCore

/-- Why a nonce does not fit into the header bytes. -/
inductive InjectError where
  | offsetOverflows (nonceOffset : Nat)
  | tooShort (nonceOffset needed got : Nat)
deriving DecidableEq, Repr

def injectNonce (headerBytes : Bytes) (nonceOffset : Nat) (nonce : UInt64) :
    Except InjectError Bytes :=
  if nonceOffset + 8 ≥ u64Bound then .error (.offsetOverflows nonceOffset)
  else if headerBytes.length < nonceOffset + 8 then
    .error (.tooShort nonceOffset (nonceOffset + 8) headerBytes.length)
  else
    .ok (headerBytes.take nonceOffset ++ toBeBytes 8 nonce.toNat ++
      headerBytes.drop (nonceOffset + 8))

structure PowJob where
  params : VisionXParams
  prevHash32 : U256
  epoch : UInt64
  headerBytes : Bytes
  nonceOffset : Nat
  target : U256
  historicalPreimage : Option Bytes
deriving DecidableEq

structure PowSolution where
  nonce : UInt64
  hash : U256
deriving DecidableEq

inductive PowJobError where
  | inject (e : InjectError)
  | digest (e : DigestError)
deriving DecidableEq, Repr

namespace PowJob

def fromHistoricalHeader (params : VisionXParams) (prevHash32 : U256) (epoch : UInt64)
    (header : BlockHeader) (nonceOffset : Nat) (target : U256) :
    Except HashDecodeError PowJob := do
  let historicalPreimage <- historicalVpowMessageBytesWithNonceZero header
  return {
    params := params
    prevHash32 := prevHash32
    epoch := epoch
    headerBytes := historicalPreimage
    nonceOffset := nonceOffset
    target := target
    historicalPreimage := some historicalPreimage }

def headerWithNonce (job : PowJob) (nonce : UInt64) : Except InjectError Bytes :=
  injectNonce job.headerBytes job.nonceOffset nonce

def miningInputBytes (job : PowJob) : Bytes :=
  job.historicalPreimage.getD job.headerBytes

/-- A historical job hashes its preimage with the nonce apart, any other job
the header bytes with the nonce put in. -/
def hashForNonce (P : Platform) (job : PowJob) (nonce : UInt64) : Except PowJobError U256 :=
  if job.historicalPreimage.isSome then
    match visionxDigest P job.params job.prevHash32 job.epoch job.miningInputBytes nonce with
    | .error e => .error (.digest e)
    | .ok hash => .ok hash
  else
    match job.headerWithNonce nonce with
    | .error e => .error (.inject e)
    | .ok headerWithNonce =>
        match visionxDigest P job.params job.prevHash32 job.epoch headerWithNonce nonce with
        | .error e => .error (.digest e)
        | .ok hash => .ok hash

def solutionForNonce (P : Platform) (job : PowJob) (nonce : UInt64) :
    Except PowJobError PowSolution := do
  let hash <- job.hashForNonce P nonce
  return { nonce := nonce, hash := hash }

def validateSolution (P : Platform) (job : PowJob) (solution : PowSolution) : Bool :=
  match job.headerWithNonce solution.nonce with
  | .error _ => false
  | .ok _ =>
      match job.hashForNonce P solution.nonce with
      | .error _ => false
      | .ok expectedHash =>
          if solution.hash ≠ expectedHash then false
          else meetsTarget solution.hash job.target

end PowJob

structure VisionXMiner where
  params : VisionXParams

namespace VisionXMiner

def buildHistoricalJob (miner : VisionXMiner) (prevHash32 : U256) (epoch : UInt64)
    (header : BlockHeader) (nonceOffset : Nat) (target : U256) :
    Except HashDecodeError PowJob :=
  PowJob.fromHistoricalHeader miner.params prevHash32 epoch header nonceOffset target

def verifySolution (P : Platform) (miner : VisionXMiner) (job : PowJob)
    (solution : PowSolution) : Bool :=
  if job.params ≠ miner.params then false else job.validateSolution P solution

end VisionXMiner

end VisionCore
