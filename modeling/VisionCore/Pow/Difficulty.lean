import VisionCore.Types.Block

/-!
# Targets and difficulty retargeting
-/

namespace VisionCore

def u64Max : Nat := u64Bound - 1

def u128Max : Nat := u128Bound - 1

def saturatingMulU128 (a b : Nat) : Nat :=
  min (a * b) u128Max

/-- The upper eight bytes hold the target, the lower 24 are wildcards. -/
def difficultyToTarget (difficulty : UInt64) : U256 :=
  { bytes := toBeBytes 8 (u64Max / max difficulty.toNat 1) ++ List.replicate 24 255
    length_eq := by simp }

/-- The historical comparison: only the upper 64 bits count. -/
def meetsTarget (digest target : U256) : Bool :=
  bytesLe (digest.bytes.take 8) (target.bytes.take 8)

/-!
# Linearly weighted moving average
-/

structure LwmaSums where
  weightedSum : Nat
  weightTotal : Nat
  sumDifficulty : Nat

def clampInterval (raw : Nat) : Nat :=
  min (max raw lwmaMinIntervalSecs) lwmaMaxIntervalSecs

/-- One iteration of the retarget loop, over the block pair at index `i`. -/
def lwmaStep (sums : LwmaSums) (entry : (Block × Block) × Nat) : LwmaSums :=
  let older := entry.1.1
  let newer := entry.1.2
  let weight := entry.2 + 1
  let rawInterval := newer.header.timestamp.toNat - older.header.timestamp.toNat
  { weightedSum := sums.weightedSum + clampInterval rawInterval * weight
    weightTotal := sums.weightTotal + weight
    sumDifficulty := sums.sumDifficulty + newer.header.difficulty.toNat }

def lwmaSums (window : List Block) : LwmaSums :=
  (window.zip window.tail).zipIdx.foldl lwmaStep ⟨0, 0, 0⟩

/-- The last `retargetWindow + 1` blocks, or all of them. -/
def retargetSlice (blocks : List Block) : List Block :=
  if blocks.length > retargetWindow + 1 then
    blocks.drop (blocks.length - (retargetWindow + 1))
  else blocks

def calculateNextDifficulty (blocks : List Block) (nowSecs : UInt64) : UInt64 :=
  if blocks.length < 2 then difficultyFloor
  else
    let window := retargetSlice blocks
    let count := window.length - 1
    let sums := lwmaSums window
    let lwmaInterval := max (sums.weightedSum / sums.weightTotal) 1
    let avgDifficulty := sums.sumDifficulty / count
    let newDiff := saturatingMulU128 avgDifficulty targetBlockTime / lwmaInterval
    let lastTs :=
      match window.getLast? with
      | some blk => blk.header.timestamp.toNat
      | none => 0
    let waitSinceLast := nowSecs.toNat - lastTs
    let stallThreshold := targetBlockTime * stallMultiplier
    let newDiff :=
      if waitSinceLast > stallThreshold then saturatingMulU128 newDiff 3 / 4 else newDiff
    UInt64.ofNat (max newDiff difficultyFloor.toNat)

end VisionCore
