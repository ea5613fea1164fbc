import VisionCore.Chain.Sample
import VisionCore.Pow.Preimage

/-!
# The miner's test of a nonce

A job hashes the preimage with the nonce apart, as the validator does, and accepts what
the validator accepts.
-/

namespace VisionCore

/-- A job tests the nonce `n` as a validator does. -/
structure JobAgrees (P : Platform) (header : BlockHeader) (n : UInt64) (whole : Bytes)
    (job : PowJob) : Prop where
  headerWithNonce : job.headerWithNonce n = .ok whole
  hashForNonce : (job.hashForNonce P n).toOption =
    (historicalBlockDigest P job.params job.epoch { header with nonce := n }).toOption
  validateSolution : forall hash,
    job.validateSolution P { nonce := n, hash := hash } = true ↔
      exists digest,
        historicalBlockDigest P job.params job.epoch { header with nonce := n } = .ok digest ∧
          meetsTarget digest job.target = true ∧ digest = hash

section Job

variable {P : Platform} {header : BlockHeader} {parentHash txRoot : U256} {n : UInt64}
  {zero whole : Bytes}

theorem historicalBlockDigest_of_decode {params : VisionXParams} {epoch : UInt64}
    (hparent : decodeHash32 "parent_hash" header.parentHash = .ok parentHash)
    (hzero : historicalVpowMessageBytesWithNonceZero header = .ok zero) :
    historicalBlockDigest P params epoch { header with nonce := n } =
      visionxDigest P params parentHash epoch zero n := by
  have hzero' : historicalVpowMessageBytesWithNonceZero { header with nonce := n } = .ok zero :=
    hzero
  unfold historicalBlockDigest
  dsimp only
  rw [hparent, hzero']

/-- A job that holds the preimage hashes it with the nonce apart. -/
theorem hashForNonce_of_preimage {job : PowJob} (hpreimage : job.historicalPreimage = some zero) :
    (job.hashForNonce P n).toOption =
      (visionxDigest P job.params job.prevHash32 job.epoch zero n).toOption := by
  have hsome : job.historicalPreimage.isSome = true := by
    rw [hpreimage]
    rfl
  have hinput : job.miningInputBytes = zero := by
    unfold PowJob.miningInputBytes
    rw [hpreimage]
    rfl
  unfold PowJob.hashForNonce
  rw [if_pos hsome, hinput]
  cases visionxDigest P job.params job.prevHash32 job.epoch zero n with
  | error e => rfl
  | ok hash => rfl

theorem validateSolution_iff {job : PowJob} {hash : U256} (hfits : job.headerWithNonce n = .ok whole) :
    job.validateSolution P { nonce := n, hash := hash } = true ↔
      (job.hashForNonce P n).toOption = some hash ∧ meetsTarget hash job.target = true := by
  unfold PowJob.validateSolution
  dsimp only
  rw [hfits]
  dsimp only
  cases job.hashForNonce P n with
  | error e => simp [Except.toOption]
  | ok expected =>
      dsimp only
      by_cases heq : hash = expected
      · rw [if_neg (not_not.mpr heq), heq]
        simp [Except.toOption]
      · rw [if_pos heq]
        simp [Except.toOption, Ne.symm heq]

theorem agrees_of_preimage {job : PowJob} (hpreimage : job.historicalPreimage = some zero)
    (hparent : decodeHash32 "parent_hash" header.parentHash = .ok job.prevHash32)
    (hzero : historicalVpowMessageBytesWithNonceZero header = .ok zero)
    (hfits : job.headerWithNonce n = .ok whole) : JobAgrees P header n whole job := by
  have hdigest : historicalBlockDigest P job.params job.epoch { header with nonce := n } =
      visionxDigest P job.params job.prevHash32 job.epoch zero n :=
    historicalBlockDigest_of_decode hparent hzero
  constructor
  · exact hfits
  · rw [hashForNonce_of_preimage hpreimage, hdigest]
  · intro hash
    rw [validateSolution_iff hfits, hashForNonce_of_preimage hpreimage, hdigest]
    cases visionxDigest P job.params job.prevHash32 job.epoch zero n with
    | error e => simp [Except.toOption]
    | ok digest =>
        constructor
        · rintro ⟨hhash, hmeets⟩
          cases hhash
          exact ⟨hash, rfl, hmeets, rfl⟩
        · rintro ⟨found, hfound, hmeets, rfl⟩
          cases hfound
          exact ⟨rfl, hmeets⟩

theorem fromHistoricalHeader_agrees
    (hparent : decodeHash32 "parent_hash" header.parentHash = .ok parentHash)
    (hzero : historicalVpowMessageBytesWithNonceZero header = .ok zero)
    (hwhole : injectNonce zero historicalVpowNonceOffset n = .ok whole)
    (params : VisionXParams) (epoch : UInt64) (target : U256) :
    exists job, PowJob.fromHistoricalHeader params parentHash epoch header
        historicalVpowNonceOffset target = .ok job ∧ job.params = params ∧ job.epoch = epoch ∧
          job.target = target ∧ JobAgrees P header n whole job := by
  refine ⟨
    { params := params
      prevHash32 := parentHash
      epoch := epoch
      headerBytes := zero
      nonceOffset := historicalVpowNonceOffset
      target := target
      historicalPreimage := some zero }, ?_, rfl, rfl, rfl, ?_⟩
  · unfold PowJob.fromHistoricalHeader
    rw [hzero]
    rfl
  · exact agrees_of_preimage rfl hparent hzero hwhole

/-- The miner's splice is the encoder's layout, and the miner accepts the solutions that
the validator accepts. -/
theorem spliced_agrees (P : Platform)
    (hparent : decodeHash32 "parent_hash" header.parentHash = .ok parentHash)
    (hroot : decodeHash32 "tx_root" header.txRoot = .ok txRoot) (n : UInt64) :
    exists zero whole, historicalVpowMessageBytesWithNonceZero header = .ok zero ∧
      Spliced header n zero whole ∧
      forall (params : VisionXParams) (epoch : UInt64) (target : U256), exists job,
        PowJob.fromHistoricalHeader params parentHash epoch header historicalVpowNonceOffset
          target = .ok job ∧ job.params = params ∧ job.epoch = epoch ∧ job.target = target ∧
            JobAgrees P header n whole job := by
  have hspliced := spliced_of_decode hparent hroot n
  have hzero : historicalVpowMessageBytesWithNonceZero header =
      .ok (preimageFront header parentHash ++ toBeBytes 8 0 ++ preimageBack header txRoot) :=
    preimage_split hparent hroot 0
  exact ⟨_, _, hzero, hspliced, fun params epoch target =>
    fromHistoricalHeader_agrees hparent hzero hspliced.injected params epoch target⟩

end Job

theorem spliced_genesis : exists zero whole,
    historicalVpowMessageBytesWithNonceZero genesisBlock.header = .ok zero ∧
      Spliced genesisBlock.header 7 zero whole ∧
      forall (params : VisionXParams) (epoch : UInt64) (target : U256), exists job,
        PowJob.fromHistoricalHeader params ⟨List.replicate 32 0, rfl⟩ epoch genesisBlock.header
          historicalVpowNonceOffset target = .ok job ∧ job.params = params ∧ job.epoch = epoch ∧
            job.target = target ∧ JobAgrees samplePlatform genesisBlock.header 7 whole job :=
  spliced_agrees samplePlatform (by decide +kernel)
    (by decide +kernel : decodeHash32 "tx_root" genesisBlock.header.txRoot =
      .ok ⟨List.replicate 32 0, rfl⟩) 7

end VisionCore
