import VisionCore.Pow.VisionXMiner

/-!
# Mining jobs

The candidate block as the miner assembles it, before any nonce is tried.
-/

namespace VisionCore

structure MiningJob where
  headerTemplate : BlockHeader
  targetDifficulty : UInt64
  epoch : UInt64
  visionxParams : VisionXParams
  headerBytes : Bytes
  jobId : UInt64
  txs : List Tx

namespace MiningJob

def encodeHeader (header : BlockHeader) : Bytes :=
  header.canonicalBytes

/-- Try one nonce; a solution that verifies completes the template to a block. -/
def tryNonce (P : Platform) (job : MiningJob) (nonce : UInt64) : Option Block := do
  let header := { job.headerTemplate with nonce := nonce, powHash := "" }
  let prevHash32 <- (decodeHash32 "parent_hash" header.parentHash).toOption
  let target := difficultyToTarget job.targetDifficulty
  let miner : VisionXMiner := { params := job.visionxParams }
  let powJob <- (miner.buildHistoricalJob prevHash32 job.epoch header
    historicalVpowNonceOffset target).toOption
  let solution <- (powJob.solutionForNonce P nonce).toOption
  if !miner.verifySolution P powJob solution then none
  else
    some {
      header := { header with powHash := hexEncode solution.hash.bytes }
      txs := job.txs
      weight := UInt64.ofNat job.txs.length }

end MiningJob

def candidateCoinbase (height : UInt64) : Tx where
  nonce := height
  senderPubkey := ""
  «module» := "coinbase"
  method := "reward"
  args := toBeBytes 8 height.toNat
  tip := 0
  feeLimit := 0
  sig := ""

/-- The root over the identifiers of a non-empty list of transactions. -/
def candidateTxRoot (P : Platform) (txs : List Tx) : String :=
  hexEncode (P.blake3 (txs.flatMap fun tx => asBytes (canonicalTxId P tx))).bytes

def buildCandidateWithParams (P : Platform) (tip : Block) (jobId : UInt64)
    (minerAddr : String) (extraTxs : List Tx) (ancestorWindow : List Block)
    (nowSecs : UInt64) (params : VisionXParams) : Except Fault MiningJob := do
  let height <- addU64 P tip.header.number 1
  let txs := candidateCoinbase height :: extraTxs.take (blockTargetTxs - 1)
  let difficulty := calculateNextDifficulty ancestorWindow nowSecs
  let headerTemplate : BlockHeader :=
    { parentHash := tip.hash
      number := height
      timestamp := nowSecs
      difficulty := difficulty
      nonce := 0
      powHash := ""
      stateRoot := nullHash
      txRoot := candidateTxRoot P txs
      miner := minerAddr }
  return {
    headerTemplate := headerTemplate
    targetDifficulty := difficulty
    epoch := params.epoch height
    visionxParams := params
    headerBytes := MiningJob.encodeHeader headerTemplate
    jobId := jobId
    txs := txs }

end VisionCore
