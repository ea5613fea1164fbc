import VisionCore.Foundation.Average
import VisionCore.Pow.Difficulty

/-!
# The retarget formula

The difficulty of the next block is the mean difficulty of a window, scaled by the
target time over the weighted mean of the clamped intervals, less a quarter on a
stall.  The loop computes it without losing anything.  The result is then cut to 64
bits, which keeps it only while it fits.
-/

namespace VisionCore

open Foundation

/-!
# The formula over natural numbers
-/

/-- The blocks of the last `retargetWindow` intervals. -/
def retargetBlocks (blocks : List Block) : List Block :=
  blocks.drop (blocks.length - (retargetWindow + 1))

/-- The clamped intervals with their weights, the oldest first. -/
def retargetIntervals (window : List Block) : List (Nat × Nat) :=
  (window.zip window.tail).zipIdx.map fun entry =>
    (clampInterval (entry.1.2.header.timestamp.toNat - entry.1.1.header.timestamp.toNat),
      entry.2 + 1)

def meanInterval (blocks : List Block) : Nat :=
  weightedMean (retargetIntervals (retargetBlocks blocks))

/-- The difficulties of the blocks that end the intervals. -/
def windowDifficulties (blocks : List Block) : List Nat :=
  (retargetBlocks blocks).tail.map fun blk => blk.header.difficulty.toNat

def meanDifficulty (blocks : List Block) : Nat :=
  mean (windowDifficulties blocks)

/-- No block for more than `stallMultiplier` target times. -/
def stalled (blocks : List Block) (nowSecs : UInt64) : Bool :=
  blocks.getLast?.any fun tip =>
    decide (tip.header.timestamp.toNat + targetBlockTime * stallMultiplier < nowSecs.toNat)

def retargetFormula (blocks : List Block) (nowSecs : UInt64) : Nat :=
  let scaled := meanDifficulty blocks * targetBlockTime / meanInterval blocks
  if stalled blocks nowSecs then scaled * 3 / 4 else scaled

/-!
# The loop
-/

section Loop

variable {blocks window : List Block} {blk : Block} {nowSecs : UInt64}

theorem foldl_lwmaStep (entries : List ((Block × Block) × Nat)) (sums : LwmaSums) :
    entries.foldl lwmaStep sums =
      ⟨sums.weightedSum + weightedSum (entries.map fun entry =>
          (clampInterval (entry.1.2.header.timestamp.toNat - entry.1.1.header.timestamp.toNat),
            entry.2 + 1)),
        sums.weightTotal + totalWeight (entries.map fun entry =>
          (clampInterval (entry.1.2.header.timestamp.toNat - entry.1.1.header.timestamp.toNat),
            entry.2 + 1)),
        sums.sumDifficulty + (entries.map fun entry => entry.1.2.header.difficulty.toNat).sum⟩ := by
  induction entries generalizing sums with
  | nil => simp
  | cons entry rest ih =>
      rw [List.foldl_cons, ih]
      simp [lwmaStep, Nat.add_assoc]

theorem lwmaSums_eq (window : List Block) :
    lwmaSums window =
      ⟨weightedSum (retargetIntervals window), totalWeight (retargetIntervals window),
        (window.tail.map fun blk => blk.header.difficulty.toNat).sum⟩ := by
  have hsnd : (window.zip window.tail).zipIdx.map (fun entry => entry.1.2) = window.tail := by
    have hzip : (window.zip window.tail).map Prod.snd = window.tail :=
      List.map_snd_zip (by rw [List.length_tail]; omega)
    calc (window.zip window.tail).zipIdx.map (fun entry => entry.1.2)
        = ((window.zip window.tail).zipIdx.map Prod.fst).map Prod.snd := by
          rw [List.map_map]
          rfl
      _ = window.tail := by rw [List.zipIdx_map_fst, hzip]
  have hdifficulties : (window.zip window.tail).zipIdx.map
      (fun entry => entry.1.2.header.difficulty.toNat) =
        window.tail.map fun blk => blk.header.difficulty.toNat := by
    conv_rhs => rw [← hsnd]
    rw [List.map_map]
    rfl
  unfold lwmaSums
  rw [foldl_lwmaStep, hdifficulties]
  simp [retargetIntervals]

theorem retargetSlice_eq (blocks : List Block) : retargetSlice blocks = retargetBlocks blocks := by
  unfold retargetSlice retargetBlocks
  split
  · rfl
  · rename_i hshort
    rw [Nat.sub_eq_zero_of_le (Nat.le_of_not_lt hshort), List.drop_zero]

theorem retargetBlocks_length (blocks : List Block) :
    (retargetBlocks blocks).length = min blocks.length (retargetWindow + 1) := by
  unfold retargetBlocks
  rw [List.length_drop]
  omega

theorem retargetBlocks_getLast? (blocks : List Block) :
    (retargetBlocks blocks).getLast? = blocks.getLast? := by
  unfold retargetBlocks
  rw [List.getLast?_drop]
  split
  · rename_i hlength
    have hnil : blocks = [] := List.length_eq_zero_iff.mp (by unfold retargetWindow at hlength; omega)
    rw [hnil]
    rfl
  · rfl

theorem meanDifficulty_le (blocks : List Block) : meanDifficulty blocks ≤ u64Max := by
  apply mean_le
  intro d hd
  rcases List.mem_map.mp hd with ⟨blk, _, rfl⟩
  exact Nat.le_sub_one_of_lt blk.header.difficulty.toNat_lt

theorem clampInterval_bounds (raw : Nat) :
    lwmaMinIntervalSecs ≤ clampInterval raw ∧ clampInterval raw ≤ lwmaMaxIntervalSecs := by
  have horder : lwmaMinIntervalSecs ≤ lwmaMaxIntervalSecs := by decide
  unfold clampInterval
  exact ⟨le_min (le_max_right _ _) horder, min_le_right _ _⟩

theorem retargetIntervals_bounds {x : Nat × Nat} (h : x ∈ retargetIntervals window) :
    lwmaMinIntervalSecs ≤ x.1 ∧ x.1 ≤ lwmaMaxIntervalSecs := by
  rcases List.mem_map.mp h with ⟨entry, _, rfl⟩
  exact clampInterval_bounds _

theorem totalWeight_pos (hlength : 2 ≤ window.length) :
    0 < totalWeight (retargetIntervals window) := by
  rcases window with _ | ⟨older, _ | ⟨newer, rest⟩⟩
  · simp at hlength
  · simp at hlength
  · unfold retargetIntervals
    rw [List.tail_cons, List.zip_cons_cons, List.zipIdx_cons, List.map_cons, totalWeight_cons]
    omega

/-- The weighted mean of the intervals lies between the clamps. -/
theorem meanInterval_bounds (hlength : 2 ≤ blocks.length) :
    lwmaMinIntervalSecs ≤ meanInterval blocks ∧ meanInterval blocks ≤ lwmaMaxIntervalSecs := by
  have hwindow : 2 ≤ (retargetBlocks blocks).length := by
    rw [retargetBlocks_length]
    exact le_min hlength (by decide)
  constructor
  · exact le_weightedMean (totalWeight_pos hwindow) fun x hx => (retargetIntervals_bounds hx).1
  · exact weightedMean_le fun x hx => (retargetIntervals_bounds hx).2

end Loop

/-!
# The cut to 64 bits
-/

/-- The retarget before it is cut to 64 bits. -/
def uncutDifficulty (blocks : List Block) (nowSecs : UInt64) : Nat :=
  if blocks.length < 2 then difficultyFloor.toNat
  else
    let window := retargetSlice blocks
    let sums := lwmaSums window
    let raw := saturatingMulU128 (sums.sumDifficulty / (window.length - 1)) targetBlockTime /
      max (sums.weightedSum / sums.weightTotal) 1
    let lastTs :=
      match window.getLast? with
      | some blk => blk.header.timestamp.toNat
      | none => 0
    let stalled := nowSecs.toNat - lastTs > targetBlockTime * stallMultiplier
    max (if stalled then saturatingMulU128 raw 3 / 4 else raw) difficultyFloor.toNat

theorem calculateNextDifficulty_eq (blocks : List Block) (nowSecs : UInt64) :
    calculateNextDifficulty blocks nowSecs = UInt64.ofNat (uncutDifficulty blocks nowSecs) := by
  unfold calculateNextDifficulty uncutDifficulty
  split
  · rfl
  · rfl

/-- The scaled mean difficulty fits in 64 bits, after the downshift on a stall. -/
def RetargetFits (blocks : List Block) (nowSecs : UInt64) : Prop :=
  if stalled blocks nowSecs then
    meanDifficulty blocks * targetBlockTime / meanInterval blocks * 3 < 4 * u64Bound
  else meanDifficulty blocks * targetBlockTime < meanInterval blocks * u64Bound

instance (blocks : List Block) (nowSecs : UInt64) : Decidable (RetargetFits blocks nowSecs) :=
  inferInstanceAs (Decidable (if stalled blocks nowSecs then
    meanDifficulty blocks * targetBlockTime / meanInterval blocks * 3 < 4 * u64Bound
  else meanDifficulty blocks * targetBlockTime < meanInterval blocks * u64Bound))

/-- The next difficulty is the formula or the floor, and moves from the mean of the
window no further than the clamps and the downshift allow. -/
structure ExactRetarget (blocks : List Block) (nowSecs : UInt64) : Prop where
  exact : (calculateNextDifficulty blocks nowSecs).toNat =
    max difficultyFloor.toNat (retargetFormula blocks nowSecs)
  floor : difficultyFloor ≤ calculateNextDifficulty blocks nowSecs
  slow : meanDifficulty blocks * targetBlockTime / lwmaMaxIntervalSecs * 3 / 4 ≤
    (calculateNextDifficulty blocks nowSecs).toNat
  fast : (calculateNextDifficulty blocks nowSecs).toNat ≤
    max difficultyFloor.toNat (meanDifficulty blocks * targetBlockTime / lwmaMinIntervalSecs)

section Cut

variable {blocks : List Block} {nowSecs : UInt64}

theorem saturatingMulU128_eq {a b : Nat} (h : a * b < u128Bound) : saturatingMulU128 a b = a * b :=
  min_eq_left (Nat.le_sub_one_of_lt h)

theorem stalled_iff {tip : Block} (hlast : blocks.getLast? = some tip) :
    nowSecs.toNat - tip.header.timestamp.toNat > targetBlockTime * stallMultiplier ↔
      stalled blocks nowSecs = true := by
  unfold stalled
  rw [hlast, Option.any_some, decide_eq_true_iff]
  omega

theorem meanInterval_pos (hlength : 2 ≤ blocks.length) : 0 < meanInterval blocks :=
  Nat.lt_of_lt_of_le (by decide) (meanInterval_bounds hlength).1

/-- The loop computes the formula without a loss. -/
theorem uncutDifficulty_eq (hlength : 2 ≤ blocks.length) :
    uncutDifficulty blocks nowSecs =
      max difficultyFloor.toNat (retargetFormula blocks nowSecs) := by
  cases hlast : blocks.getLast? with
  | none =>
      rw [List.getLast?_eq_none_iff.mp hlast] at hlength
      exact absurd hlength (by decide)
  | some tip =>
      have hmean : ((retargetBlocks blocks).tail.map fun blk => blk.header.difficulty.toNat).sum /
          ((retargetBlocks blocks).length - 1) = meanDifficulty blocks := by
        unfold meanDifficulty mean windowDifficulties
        rw [List.length_map, List.length_tail]
      have hinterval : max (weightedSum (retargetIntervals (retargetBlocks blocks)) /
          totalWeight (retargetIntervals (retargetBlocks blocks))) 1 = meanInterval blocks :=
        max_eq_left (meanInterval_pos hlength)
      -- Both products stay far below 2^128.
      have hscale : meanDifficulty blocks * targetBlockTime < 2 ^ 70 := by
        have hle := meanDifficulty_le blocks
        unfold u64Max u64Bound at hle
        unfold targetBlockTime
        omega
      have hquotient : meanDifficulty blocks * targetBlockTime / meanInterval blocks < 2 ^ 70 :=
        Nat.lt_of_le_of_lt (Nat.div_le_self _ _) hscale
      have hproduct := saturatingMulU128_eq (Nat.lt_trans hscale (by decide))
      have hdownshift : saturatingMulU128
          (meanDifficulty blocks * targetBlockTime / meanInterval blocks) 3 =
            meanDifficulty blocks * targetBlockTime / meanInterval blocks * 3 := by
        apply saturatingMulU128_eq
        unfold u128Bound
        omega
      unfold uncutDifficulty retargetFormula
      rw [if_neg (Nat.not_lt.mpr hlength)]
      dsimp only
      rw [retargetSlice_eq, lwmaSums_eq, retargetBlocks_getLast?, hlast]
      dsimp only
      rw [hmean, hinterval, hproduct, hdownshift, max_comm]
      congr 1
      exact if_congr (stalled_iff hlast) rfl rfl

theorem retargetFormula_lt_iff (hlength : 2 ≤ blocks.length) :
    retargetFormula blocks nowSecs < u64Bound ↔ RetargetFits blocks nowSecs := by
  have hpos := meanInterval_pos hlength
  unfold retargetFormula RetargetFits
  dsimp only
  split
  · rw [Nat.div_lt_iff_lt_mul (by decide), Nat.mul_comm u64Bound]
  · rw [Nat.div_lt_iff_lt_mul hpos, Nat.mul_comm u64Bound]

theorem retargetFormula_le (hlength : 2 ≤ blocks.length) :
    retargetFormula blocks nowSecs ≤
      meanDifficulty blocks * targetBlockTime / lwmaMinIntervalSecs := by
  have hscaled : meanDifficulty blocks * targetBlockTime / meanInterval blocks ≤
      meanDifficulty blocks * targetBlockTime / lwmaMinIntervalSecs :=
    Nat.div_le_div_left (meanInterval_bounds hlength).1 (by decide)
  unfold retargetFormula
  dsimp only
  split
  · omega
  · exact hscaled

theorem le_retargetFormula (hlength : 2 ≤ blocks.length) :
    meanDifficulty blocks * targetBlockTime / lwmaMaxIntervalSecs * 3 / 4 ≤
      retargetFormula blocks nowSecs := by
  have hscaled : meanDifficulty blocks * targetBlockTime / lwmaMaxIntervalSecs ≤
      meanDifficulty blocks * targetBlockTime / meanInterval blocks :=
    Nat.div_le_div_left (meanInterval_bounds hlength).2 (meanInterval_pos hlength)
  unfold retargetFormula
  dsimp only
  split
  · exact Nat.div_le_div_right (Nat.mul_le_mul_right 3 hscaled)
  · omega

/-- The retarget is exact if and only if its value fits in 64 bits. -/
theorem exactRetarget_iff (hlength : 2 ≤ blocks.length) :
    ExactRetarget blocks nowSecs ↔ RetargetFits blocks nowSecs := by
  have hvalue : (calculateNextDifficulty blocks nowSecs).toNat =
      max difficultyFloor.toNat (retargetFormula blocks nowSecs) % 2 ^ 64 := by
    rw [calculateNextDifficulty_eq, UInt64.toNat_ofNat', uncutDifficulty_eq hlength]
  rw [← retargetFormula_lt_iff hlength]
  constructor
  · intro h
    have hlt := (calculateNextDifficulty blocks nowSecs).toNat_lt
    rw [h.exact] at hlt
    exact (max_lt_iff.mp hlt).2
  · intro hfits
    have hexact : (calculateNextDifficulty blocks nowSecs).toNat =
        max difficultyFloor.toNat (retargetFormula blocks nowSecs) := by
      rw [hvalue]
      exact Nat.mod_eq_of_lt (max_lt (by decide) hfits)
    constructor
    · exact hexact
    · rw [UInt64.le_iff_toNat_le, hexact]
      exact le_max_left _ _
    · rw [hexact]
      exact le_max_of_le_right (le_retargetFormula hlength)
    · rw [hexact]
      exact max_le_max_left _ (retargetFormula_le hlength)

/-- A window whose difficulties stay below 7/30 of the range always fits. -/
theorem retargetFits_of_lt (hlength : 2 ≤ blocks.length)
    (hsmall : forall d, d ∈ windowDifficulties blocks ->
      d * targetBlockTime < lwmaMinIntervalSecs * u64Bound) : RetargetFits blocks nowSecs := by
  rw [← retargetFormula_lt_iff hlength]
  refine Nat.lt_of_le_of_lt (retargetFormula_le hlength) ?_
  rw [Nat.div_lt_iff_lt_mul (by decide), Nat.mul_comm u64Bound]
  have hmean : meanDifficulty blocks ≤ (lwmaMinIntervalSecs * u64Bound - 1) / targetBlockTime := by
    apply mean_le
    intro d hd
    rw [Nat.le_div_iff_mul_le (by decide)]
    exact Nat.le_sub_one_of_lt (hsmall d hd)
  have hscaled := Nat.mul_le_mul_right targetBlockTime hmean
  exact Nat.lt_of_le_of_lt hscaled (by decide)

end Cut

/-!
# A window that does not fit
-/

/-- A block of which the retarget reads the time and the difficulty. -/
def timedBlock (timestamp difficulty : UInt64) : Block :=
  { header :=
      { parentHash := ""
        number := 0
        timestamp := timestamp
        difficulty := difficulty
        nonce := 0
        powHash := ""
        stateRoot := ""
        txRoot := ""
        miner := "" }
    txs := []
    weight := 0 }

theorem exactRetarget_steady :
    RetargetFits [timedBlock 0 1000, timedBlock 30 1000] 60 ∧
      ExactRetarget [timedBlock 0 1000, timedBlock 30 1000] 60 := by
  have hfits : RetargetFits [timedBlock 0 1000, timedBlock 30 1000] 60 := by decide
  exact ⟨hfits, (exactRetarget_iff (by decide)).mpr hfits⟩

/-- Twice the difficulty 2^63 is 2^64, of which the cut leaves nothing. -/
theorem retarget_collapses :
    calculateNextDifficulty [timedBlock 0 9223372036854775808,
        timedBlock 15 9223372036854775808] 15 = 0 ∧
      ¬ExactRetarget [timedBlock 0 9223372036854775808, timedBlock 15 9223372036854775808] 15 := by
  have hzero : calculateNextDifficulty [timedBlock 0 9223372036854775808,
      timedBlock 15 9223372036854775808] 15 = 0 := by decide
  refine ⟨hzero, fun hexact => ?_⟩
  have hfloor := hexact.floor
  rw [hzero] at hfloor
  exact absurd hfloor (by decide)

end VisionCore
