import VisionCore.Chain.Execution
import VisionCore.Chain.StateRoot
import VisionCore.Miner.Job

/-!
# Candidates on the canonical tip
-/

namespace VisionCore

/-- The transactions of a candidate, executed one after the other. -/
def simulateTxs (P : Platform) : TxExecutionState -> List Tx -> Option TxExecutionState
  | state, [] => some state
  | state, tx :: rest =>
      match simulateTxExecution P state tx with
      | (.ok _, state') => simulateTxs P state' rest
      | (.error _, _) => none

/-- The newest `retargetWindow + 1` canonical blocks, oldest first. -/
def tipWindow (g : ChainState) : List Block :=
  (g.blocks.reverse.take (retargetWindow + 1)).reverse

/-- The reward and the state root of a candidate whose transactions have been
executed; `none` where the source gives the candidate up. -/
def candidateStateRoot (P : Platform) (state : TxExecutionState) (minerAddr : String)
    (height : UInt64) : Except Fault (Option String) :=
  match applyCoinbaseReward P state minerAddr height with
  | .error (.fault f) => .error f
  | .error (.err _) => .ok none
  | .ok state => .ok (computeStateRoot P state.balances state.nonces).toOption

/-- The candidate for the canonical tip.  `now` is the reading of the system
clock and `jobId` the next number of the job counter. -/
def buildCandidateForTip (P : Platform) (params : VisionXParams) (now jobId : UInt64)
    (g : ChainState) (minerAddr : String) (mempoolTxs : List Tx) :
    Except Fault (Option MiningJob) :=
  match g.blocks.getLast? with
  | none => .ok none
  | some tip => do
      let earliest <- addU64 P tip.header.timestamp 1
      let job <- buildCandidateWithParams P tip jobId minerAddr mempoolTxs (tipWindow g)
        (max now earliest) params
      match simulateTxs P { balances := g.balances, nonces := g.nonces } (job.txs.drop 1) with
      | none => return none
      | some state =>
          let height <- addU64 P tip.header.number 1
          let stateRoot <- candidateStateRoot P state minerAddr height
          match stateRoot with
          | none => return none
          | some stateRoot =>
              let headerTemplate := { job.headerTemplate with stateRoot := stateRoot }
              return some {
                job with
                headerTemplate := headerTemplate
                headerBytes := MiningJob.encodeHeader headerTemplate }

end VisionCore
