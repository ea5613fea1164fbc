import Mathlib.Data.List.Basic

/-!
# Protocol constants

The consensus and policy constants read by block acceptance.  Each keeps the
value of the constant of the same name in the node's configuration module.
-/

namespace VisionCore

/-!
# Block timing and difficulty
-/

def targetBlockTime : Nat := 30

def retargetWindow : Nat := 20

def difficultyFloor : UInt64 := 1

def stallMultiplier : Nat := 4

def lwmaMinIntervalSecs : Nat := targetBlockTime / 4

def lwmaMaxIntervalSecs : Nat := targetBlockTime * 6

/-!
# Block validation
-/

def blockVersion : UInt32 := 1

def maxFutureTimestampSecs : UInt64 := 7200

def blockWeightLimit : UInt64 := 400000

def blockTargetTxs : Nat := 200

/-!
# Snapshots, emission and the orphan pool
-/

def snapshotEvery : UInt64 := 32

def emissionPerBlock : Nat := 510000000000

def halvingInterval : Nat := 2102400

def orphanPoolMax : Nat := 2000

/-!
# Mempool
-/

def mempoolMax : Nat := 10000

/-!
# VisionX
-/

def visionxDatasetMb : Nat := 256

def visionxScratchMb : Nat := 32

def visionxMixIters : UInt32 := 65536

def visionxReadsPerIter : UInt32 := 4

def visionxWriteEvery : UInt32 := 4

def visionxEpochBlocks : UInt32 := 32

end VisionCore
