import VisionCore.Node.CatchUp
import VisionCore.Node.History
import VisionCore.P2p.SyncTarget

/-!
# Higher-work recovery

The watchdog and the sessions with seed peers compare the node with its peers.  For a
heavier peer they raise a claim, which pauses mining, and catch up with the peer.  The
claim is one slot that all of them share.
-/

namespace VisionCore

open Std Foundation

/-!
# Claims
-/

inductive RecoveryMode where
  | normal
  | higherWorkRecovery
  | recoveryLimited
  | highRiskFork
deriving DecidableEq, Repr

structure RecoveryClaim where
  mode : RecoveryMode
  peerAddr : String
  localSummary : ChainSummary
  remoteSummary : ChainSummary
  reason : String
deriving DecidableEq, Repr

structure RecoveryState where
  claim : Option RecoveryClaim
deriving DecidableEq, Repr

namespace RecoveryState

def new : RecoveryState :=
  { claim := none }

def beginHigherWorkRecovery (_ : RecoveryState) (peerAddr : String)
    (localSummary remoteSummary : ChainSummary) : RecoveryState :=
  { claim := some
      { mode := .higherWorkRecovery
        peerAddr := peerAddr
        localSummary := localSummary
        remoteSummary := remoteSummary
        reason := "peer advertised strictly greater cumulative work" } }

def markLimited (r : RecoveryState) (reason : String) : RecoveryState :=
  { claim := r.claim.map fun claim => { claim with mode := .recoveryLimited, reason := reason } }

def markHighRisk (r : RecoveryState) (reason : String) : RecoveryState :=
  { claim := r.claim.map fun claim => { claim with mode := .highRiskFork, reason := reason } }

def clear (_ : RecoveryState) : RecoveryState :=
  { claim := none }

def clearIfLocalSatisfiesClaim (r : RecoveryState) (localSummary : ChainSummary) :
    RecoveryState :=
  { claim := r.claim.filter fun claim =>
      decide (localSummary.cumulativeWork < claim.remoteSummary.cumulativeWork) }

def mode (r : RecoveryState) : RecoveryMode :=
  (r.claim.map RecoveryClaim.mode).getD .normal

end RecoveryState

/-- What another loop does to the shared slot. -/
inductive RecoveryOp where
  | begin (peerAddr : String) (localSummary remoteSummary : ChainSummary)
  | markLimited (reason : String)
  | markHighRisk (reason : String)
  | clear
  | clearIfLocalSatisfiesClaim (localSummary : ChainSummary)

def RecoveryOp.apply (r : RecoveryState) : RecoveryOp -> RecoveryState
  | begin peerAddr localSummary remoteSummary =>
      r.beginHigherWorkRecovery peerAddr localSummary remoteSummary
  | markLimited reason => r.markLimited reason
  | markHighRisk reason => r.markHighRisk reason
  | clear => r.clear
  | clearIfLocalSatisfiesClaim localSummary => r.clearIfLocalSatisfiesClaim localSummary

/-!
# One catch-up at a time
-/

structure SyncGuard where
  inProgress : Bool
  cooldownUntil : Option Nat
deriving DecidableEq, Repr

namespace SyncGuard

def new : SyncGuard :=
  { inProgress := false, cooldownUntil := none }

end SyncGuard

/-!
# Texts of errors
-/

/-- The text of an error.  What comes from outside of the node's own code, or shows a value,
is `shown`. -/
def SyncError.text (shown : SyncError -> String) (e : SyncError) : String :=
  match e with
  | .connection => shown e
  | .send => shown e
  | .read _ => shown e
  | .rejectedHandshake reason => "peer rejected sync handshake: " ++ reason
  | .unexpectedHandshakeReply label => "unexpected handshake reply: " ++ label
  | .handshakeRejected _ => "sync handshake rejected: " ++ shown e
  | .rejectedHeightQuery reason => "peer rejected height query: " ++ reason
  | .unexpectedHeightReply label => "unexpected height reply: " ++ label
  | .heightQueryExceeded peerAddr => "height query exceeded message limit for " ++ peerAddr
  | .noTipHash height => "peer reported no tip hash at height " ++ toString height.toNat
  | .loopDetected hash => "sync loop detected at " ++ hash
  | .rejectedBlockRequest reason => "peer rejected block request: " ++ reason
  | .unexpectedBlockReply label => "unexpected block reply: " ++ label
  | .wrongBlock requested received =>
      "requested block " ++ requested ++ " but received " ++ received
  | .importStoredOrphan hash => "sync import stored orphan " ++ hash
  | .importRejected _ => "sync import rejected: " ++ shown e

/-- The surroundings of one step: the clock, what the importers do before each lock of the
chain, what the sessions do to the peer table and the other loops to the claim, and how each
peer answers.  The peer of `sync` is the one that the step connects to. -/
structure WatchdogEnv where
  sync : SyncEnv
  reachable : String -> Bool
  answers : String -> List (Except ReadError P2PMessage)
  checkedAt : Nat
  before : List ImporterStep
  scans : ScanTimes
  sessions : List (Nat × PeerOp)
  raising : List RecoveryOp
  doneAt : Nat
  after : List ImporterStep
  settling : List RecoveryOp
  shown : SyncError -> String

/-- The sessions work on the table one operation after the other. -/
def PeerManager.applyOps (pm : PeerManager) (ops : List (Nat × PeerOp)) : PeerManager :=
  ops.foldl (fun pm entry => entry.2.apply entry.1 pm) pm

namespace WatchdogEnv

variable (env : WatchdogEnv)

end WatchdogEnv

/-!
# Work that stays
-/

section Work

variable {P : Platform} {D : Block -> Prop} {g g' : ChainState} {steps : List ImporterStep}

end Work

/-!
# The heaviest peer
-/

section Heaviest

variable {pm : PeerManager} {peer : Peer} {localTip : String} {summary : ChainSummary}
  {times : ScanTimes} {now : Nat}

instance : TransCmp Peer.byWork := by
  unfold Peer.byWork
  infer_instance

theorem Heavier.candidate (hkeys : pm.WellKeyed) (htip : summary.tipHash = some localTip)
    (h : Heavier pm summary now peer) :
    peer ∈ pm.values.filter fun peer =>
      peer.usable now && decide (peer.cumulativeWork > summary.cumulativeWork) &&
        decide (peer.tipHash ≠ some localTip) && peer.tipHash.isSome := by
  rcases h.tip with ⟨tip, hpeerTip, hne⟩
  have hother : tip ≠ localTip := fun heq => hne (htip.trans (congrArg some heq.symm))
  rw [List.mem_filter]
  refine ⟨(mem_values hkeys).mpr h.recorded, ?_⟩
  simp [h.usable, h.work, hpeerTip, hother]

end Heaviest

/-!
# Catching up with the heaviest peer
-/

namespace WatchdogEnv

/-- The writes of the node and its sends succeed, its clock is not behind `T` and the other
importers call on blocks of `D`. -/
structure Awake (env : WatchdogEnv) (D : Block -> Prop) (T : UInt64) : Prop where
  sync : env.sync.Awake D T
  before : Calls (Durably D) env.before
  after : Calls (Durably D) env.after

section Steps

variable {env : WatchdogEnv} {D : Block -> Prop} {T : UInt64} {w : WatchdogState}
  {peerAddr : String} {remote g start : ChainState} {steps : List ImporterStep}

end Steps

/-!
# A heavier sample peer
-/

open SyncEnv

end WatchdogEnv

end VisionCore
