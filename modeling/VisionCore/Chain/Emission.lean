import VisionCore.Chain.Conservation
import VisionCore.Chain.Sample
import VisionCore.Chain.Supply
import VisionCore.Chain.Totality
import VisionCore.Foundation.Halving

/-!
# The emission schedule

The subsidy is a shift by the number of halvings.  Below the 128th halving it is the
halving schedule.  From there on the shift is wider than the amount, so that it
aborts or starts again, by the build.
-/

namespace VisionCore

open Foundation

/-- The first height whose shift is as wide as the amount. -/
def emissionLimit : Nat := 128 * halvingInterval

/-- The schedule that `blockReward` follows. -/
def scheduledReward (height : Nat) : Nat :=
  halved emissionPerBlock halvingInterval height

section Schedule

variable {P : Platform} {height : UInt64} {reward : Nat}

theorem blockReward_eq (P : Platform) (h : height.toNat < emissionLimit) :
    blockReward P height = .ok (scheduledReward height.toNat) := by
  have hshift : height.toNat / halvingInterval < 128 :=
    Nat.div_lt_of_lt_mul (by rwa [Nat.mul_comm])
  unfold blockReward
  rw [shrU128_ok P hshift, Nat.shiftRight_eq_div_pow]
  rfl

theorem blockReward_scheduled (h : height.toNat < emissionLimit)
    (hreward : blockReward P height = .ok reward) : reward = scheduledReward height.toNat := by
  rw [blockReward_eq P h] at hreward
  exact (Except.ok.inj hreward).symm

/-- A build that checks for overflow aborts beyond the schedule. -/
theorem blockReward_aborts (hchecks : P.overflowChecks = true)
    (h : emissionLimit ≤ height.toNat) : blockReward P height = .error .overflow := by
  have hshift : ¬height.toNat / halvingInterval < 128 := by
    rw [Nat.div_lt_iff_lt_mul (by decide)]
    exact Nat.not_lt.mpr h
  unfold blockReward shrU128
  rw [if_neg hshift, if_pos hchecks]

end Schedule

/-- Up to the height `top` the subsidy of every block is computed without an overflow of
the shift, falls with the height, halves with every interval, and is zero after 39
intervals, so that all of it together stays within twice the first interval's. -/
structure EmissionUpTo (top : UInt64) : Prop where
  evaluated : forall (P : Platform) (height : UInt64), height ≤ top ->
    exists reward, blockReward P height = .ok reward
  credited : forall (P : Platform) (state : TxExecutionState) (blk : Block),
    blk.header.number ≤ top -> NoFault (creditMiner P state blk)
  monotone : forall (P : Platform) (h h2 : UInt64) (reward reward2 : Nat), h ≤ h2 -> h2 ≤ top ->
    blockReward P h = .ok reward -> blockReward P h2 = .ok reward2 -> reward2 ≤ reward
  halves : forall (P : Platform) (h h2 : UInt64) (reward reward2 : Nat),
    h2.toNat = h.toNat + halvingInterval -> h2 ≤ top ->
      blockReward P h = .ok reward -> blockReward P h2 = .ok reward2 -> reward2 = reward / 2
  ends : forall (P : Platform) (height : UInt64) (reward : Nat),
    39 * halvingInterval ≤ height.toNat -> height ≤ top ->
      blockReward P height = .ok reward -> reward = 0
  total : forall (P : Platform) (rewards : Nat -> Nat),
    (forall height : UInt64, height ≤ top ->
      blockReward P height = .ok (rewards height.toNat)) ->
        ∑ n ∈ Finset.range (top.toNat + 1), rewards n ≤ 2 * emissionPerBlock * halvingInterval

theorem emissionUpTo_of_lt {top : UInt64} (htop : top.toNat < emissionLimit) :
    EmissionUpTo top := by
  have hbelow : forall {height : UInt64}, height ≤ top -> height.toNat < emissionLimit :=
    fun hle => Nat.lt_of_le_of_lt (UInt64.le_iff_toNat_le.mp hle) htop
  have hpos : 0 < halvingInterval := by decide
  constructor
  · intro P height hle
    exact ⟨_, blockReward_eq P (hbelow hle)⟩
  · intro P state blk hle
    exact creditMiner_noFault ⟨_, blockReward_eq P (hbelow hle)⟩
  · intro P h h2 reward reward2 hle htop2 hreward hreward2
    rw [UInt64.le_iff_toNat_le] at hle
    rw [blockReward_scheduled (Nat.lt_of_le_of_lt hle (hbelow htop2)) hreward,
      blockReward_scheduled (hbelow htop2) hreward2]
    exact halved_antitone hle
  · intro P h h2 reward reward2 hadd htop2 hreward hreward2
    have hlt := hbelow htop2
    rw [blockReward_scheduled (by omega) hreward, blockReward_scheduled hlt hreward2, hadd]
    exact halved_add hpos
  · intro P height reward hlate hle hreward
    rw [blockReward_scheduled (hbelow hle) hreward]
    exact halved_eq_zero hpos (by decide) hlate
  · intro P rewards hrewards
    have hsame : forall n, n ∈ Finset.range (top.toNat + 1) -> rewards n = scheduledReward n := by
      intro n hn
      have hn' : n ≤ top.toNat := Nat.le_of_lt_succ (Finset.mem_range.mp hn)
      have htoNat : (UInt64.ofNat n).toNat = n :=
        UInt64.toNat_ofNat_of_lt' (Nat.lt_of_le_of_lt hn' top.toNat_lt)
      have hle : UInt64.ofNat n ≤ top := by
        rw [UInt64.le_iff_toNat_le, htoNat]
        exact hn'
      have hreward := blockReward_scheduled (hbelow hle) (hrewards _ hle)
      rwa [htoNat] at hreward
    rw [Finset.sum_congr rfl hsame]
    exact sum_halved_le hpos _

/-- The schedule holds up to a height exactly when no shift is too wide before it. -/
theorem emissionUpTo_iff (top : UInt64) : EmissionUpTo top ↔ top.toNat < 128 * halvingInterval := by
  constructor
  · intro h
    by_contra hwide
    rcases h.evaluated { samplePlatform with overflowChecks := true } top (UInt64.le_refl top) with
      ⟨reward, hreward⟩
    rw [blockReward_aborts rfl (Nat.not_lt.mp hwide)] at hreward
    cases hreward
  · exact emissionUpTo_of_lt

/-- A sealed block on genesis with the number of the 128th halving. -/
def farBlock : Block :=
  sealBlock samplePlatform .new (sampleDraft genesisHash 269107200 100 11 [])

/-- At the 128th halving the subsidy aborts the acceptance of a block, or is the first
one again. -/
theorem emission_restarts :
    applyBlock samplePlatform sampleHost sampleGenesis farBlock none = .error .overflow ∧
      blockReward { samplePlatform with overflowChecks := false } 269107199 = .ok 0 ∧
      blockReward { samplePlatform with overflowChecks := false } 269107200 =
        .ok emissionPerBlock ∧
      ¬EmissionUpTo 18446744073709551615 := by
  have haborts : faultOf (applyBlock samplePlatform sampleHost sampleGenesis farBlock none) =
      some .overflow := by
    decide +kernel
  refine ⟨eq_error_of_faultOf haborts, rfl, rfl, ?_⟩
  rw [emissionUpTo_iff]
  decide

/-!
# The cap
-/

section Cap

variable {P : Platform} {D : Block -> Prop} {s g : ChainState} {calls : List Call}

end Cap

end VisionCore
