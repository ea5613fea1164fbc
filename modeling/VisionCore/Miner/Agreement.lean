import VisionCore.Chain.Outcome
import VisionCore.Chain.Validity
import VisionCore.Miner.Manager
import VisionCore.Pow.Retarget
import VisionCore.Types.Spending

/-!
# Miner and validator

The miner assembles the root, the window, the reward, the state root and the
preimage of a block by itself.  A block it solves is accepted by the chain state
it was built on, unless the two retarget windows or the difficulty floor stand
in the way.
-/

namespace VisionCore

open Foundation

/-!
# Executed transactions
-/

section Simulation

variable {P : Platform} {state state' : TxExecutionState} {tx : Tx} {txs : List Tx}

theorem simulateTxs_cons :
    simulateTxs P state (tx :: txs) = some state' ↔
      exists args, Spends P state tx args ∧ simulateTxs P (spend state tx args) txs = some state' := by
  constructor
  · intro h
    unfold simulateTxs at h
    cases hrun : simulateTxExecution P state tx with
    | mk result after =>
        rw [hrun] at h
        cases result with
        | error e => cases h
        | ok outcome =>
            rcases Spends.of_simulate hrun with ⟨args, hspends, rfl⟩
            exact ⟨args, hspends, h⟩
  · rintro ⟨args, hspends, hrest⟩
    rcases hspends.simulate with ⟨outcome, hrun⟩
    unfold simulateTxs
    rw [hrun]
    exact hrest

theorem executeTxsFrom_of_simulateTxs (index : Nat) (h : simulateTxs P state txs = some state') :
    executeTxsFrom P index state txs = .ok state' := by
  induction txs generalizing index state with
  | nil =>
      cases h
      rfl
  | cons tx rest ih =>
      rcases simulateTxs_cons.mp h with ⟨args, hspends, hrest⟩
      rcases hspends.simulate with ⟨outcome, hrun⟩
      unfold executeTxsFrom
      rw [hrun]
      exact ih (index + 1) hrest

theorem simulateTxs_spends (h : simulateTxs P state txs = some state') (hmem : tx ∈ txs) :
    exists before args, Spends P before tx args := by
  induction txs generalizing state with
  | nil => cases hmem
  | cons first rest ih =>
      rcases simulateTxs_cons.mp h with ⟨args, hspends, hrest⟩
      cases hmem with
      | head => exact ⟨state, args, hspends⟩
      | tail _ hmem => exact ih hrest hmem

/-- An executed transaction carries a nonce that its sender has not used. -/
theorem simulateTxs_nonce_le (h : simulateTxs P state txs = some state') (hmem : tx ∈ txs) :
    (state.nonceOf tx.senderPubkey).toNat ≤ tx.nonce.toNat := by
  induction txs generalizing state with
  | nil => cases hmem
  | cons first rest ih =>
      rcases simulateTxs_cons.mp h with ⟨args, hspends, hrest⟩
      cases hmem with
      | head => exact Nat.le_of_eq (congrArg UInt64.toNat hspends.nonce.symm)
      | tail _ hmem => exact Nat.le_trans (hspends.nonceOf_le _) (ih hrest hmem)

/-- The executed nonces of one sender grow. -/
theorem simulateTxs_pairwise (h : simulateTxs P state txs = some state') :
    txs.Pairwise fun tx tx' =>
      tx.senderPubkey = tx'.senderPubkey -> tx.nonce.toNat < tx'.nonce.toNat := by
  induction txs generalizing state with
  | nil => exact List.Pairwise.nil
  | cons first rest ih =>
      rcases simulateTxs_cons.mp h with ⟨args, hspends, hrest⟩
      refine List.Pairwise.cons ?_ (ih hrest)
      intro tx hmem hsender
      have hle := simulateTxs_nonce_le hrest hmem
      rw [spend_nonceOf, if_pos hsender.symm, hspends.next_toNat] at hle
      exact hle

/-!
# Identifiers of a candidate
-/

theorem firstDuplicate_of_nodup {seen ids : List String} (hids : ids.Nodup)
    (hseen : forall id, id ∈ ids -> id ∉ seen) : firstDuplicate seen ids = none := by
  induction ids generalizing seen with
  | nil => rfl
  | cons id rest ih =>
      have hnodup := List.nodup_cons.mp hids
      unfold firstDuplicate
      rw [if_neg (by simpa using hseen id List.mem_cons_self)]
      apply ih hnodup.2
      intro id' hid' hold
      rcases List.mem_cons.mp hold with rfl | hold
      · exact hnodup.1 hid'
      · exact hseen id' (List.mem_cons_of_mem _ hid') hold

theorem candidate_ids_nodup {height : UInt64} (hbind : IdsBind P (candidateCoinbase height :: txs))
    (h : simulateTxs P state txs = some state') :
    ((candidateCoinbase height :: txs).map (canonicalTxId P)).Nodup := by
  have hcoinbase : byteLen (candidateCoinbase height).senderPubkey < u64Bound :=
    show byteLen "" < u64Bound by decide
  rw [List.map_cons, List.nodup_cons]
  constructor
  · intro hmem
    rcases List.mem_map.mp hmem with ⟨tx, htx, hid⟩
    rcases simulateTxs_spends h htx with ⟨before, args, hspends⟩
    have hpayload := hbind.payload_eq (List.mem_cons_of_mem _ htx) List.mem_cons_self hid
    exact hspends.sender_ne
      (canonicalUnsignedPayload_inj hspends.sender_length_lt hcoinbase hpayload).2
  · apply List.Pairwise.map _ _ ((simulateTxs_pairwise h).imp_of_mem ?_)
    · exact fun tx tx' : Tx => canonicalTxId P tx ≠ canonicalTxId P tx'
    · exact fun _ _ hne => hne
    · intro tx tx' htx htx' hgrows hid
      rcases simulateTxs_spends h htx with ⟨_, _, hspends⟩
      rcases simulateTxs_spends h htx' with ⟨_, _, hspends'⟩
      have hpayload :=
        hbind.payload_eq (List.mem_cons_of_mem _ htx) (List.mem_cons_of_mem _ htx') hid
      rcases canonicalUnsignedPayload_inj hspends.sender_length_lt hspends'.sender_length_lt
        hpayload with ⟨hnonce, hsender⟩
      exact absurd (hgrows hsender) (by rw [hnonce]; exact Nat.lt_irrefl _)

end Simulation

/-!
# Candidates and solutions
-/

/-- The candidate `job` on `tip`, with the account state after it. -/
structure Built (P : Platform) (params : VisionXParams) (now : UInt64) (g : ChainState)
    (minerAddr : String) (mempoolTxs : List Tx) (job : MiningJob) (tip : Block)
    (executed post : TxExecutionState) : Prop where
  tip_eq : g.blocks.getLast? = some tip
  number : addU64 P tip.header.number 1 = .ok job.headerTemplate.number
  timestamp : exists earliest, addU64 P tip.header.timestamp 1 = .ok earliest ∧
    job.headerTemplate.timestamp = max now earliest
  parent_eq : job.headerTemplate.parentHash = tip.hash
  difficulty : job.headerTemplate.difficulty =
    calculateNextDifficulty (tipWindow g) job.headerTemplate.timestamp
  target : job.targetDifficulty = job.headerTemplate.difficulty
  params_eq : job.visionxParams = params
  epoch : job.epoch = params.epoch job.headerTemplate.number
  txs : job.txs = candidateCoinbase job.headerTemplate.number ::
    mempoolTxs.take (blockTargetTxs - 1)
  txRoot : job.headerTemplate.txRoot = candidateTxRoot P job.txs
  executes : simulateTxs P { balances := g.balances, nonces := g.nonces }
    (mempoolTxs.take (blockTargetTxs - 1)) = some executed
  reward : applyCoinbaseReward P executed job.headerTemplate.miner job.headerTemplate.number =
    .ok post
  stateRoot : computeStateRoot P post.balances post.nonces = .ok job.headerTemplate.stateRoot

section Agreement

variable {P : Platform} {params : VisionXParams} {now jobId : UInt64} {g : ChainState}
  {minerAddr : String} {mempoolTxs : List Tx} {job : MiningJob} {nonce : UInt64} {blk : Block}

theorem candidateStateRoot_ok {state : TxExecutionState} {height : UInt64} {root : String}
    (h : candidateStateRoot P state minerAddr height = .ok (some root)) :
    exists post, applyCoinbaseReward P state minerAddr height = .ok post ∧
      computeStateRoot P post.balances post.nonces = .ok root := by
  unfold candidateStateRoot at h
  cases hreward : applyCoinbaseReward P state minerAddr height with
  | error stop =>
      rw [hreward] at h
      cases stop <;> cases h
  | ok post =>
      rw [hreward] at h
      dsimp only at h
      cases hroot : computeStateRoot P post.balances post.nonces with
      | error e =>
          rw [hroot] at h
          cases h
      | ok computed =>
          rw [hroot] at h
          cases h
          exact ⟨post, rfl, hroot⟩

theorem buildCandidateForTip_built
    (h : buildCandidateForTip P params now jobId g minerAddr mempoolTxs = .ok (some job)) :
    exists tip executed post,
      Built P params now g minerAddr mempoolTxs job tip executed post := by
  unfold buildCandidateForTip at h
  cases htip : g.blocks.getLast? with
  | none =>
      rw [htip] at h
      cases h
  | some tip =>
      rw [htip] at h
      rcases bind_eq_ok.mp h with ⟨earliest, hearliest, h⟩
      rcases bind_eq_ok.mp h with ⟨draft, hdraft, h⟩
      rcases bind_eq_ok.mp hdraft with ⟨height, hheight, hdraft⟩
      cases hdraft
      simp only [List.drop_one, List.tail_cons] at h
      cases hsimulate : simulateTxs P { balances := g.balances, nonces := g.nonces }
          (mempoolTxs.take (blockTargetTxs - 1)) with
      | none =>
          rw [hsimulate] at h
          cases h
      | some executed =>
          rw [hsimulate] at h
          rcases bind_eq_ok.mp h with ⟨height', hheight', h⟩
          rcases bind_eq_ok.mp h with ⟨root, hroot, h⟩
          cases root with
          | none => cases h
          | some root =>
              cases h
              cases hheight.symm.trans hheight'
              rcases candidateStateRoot_ok hroot with ⟨post, hreward, hcomputed⟩
              exact ⟨tip, executed, post, ⟨htip, hheight, ⟨earliest, hearliest, rfl⟩, rfl, rfl, rfl,
                rfl, rfl, rfl, rfl, hsimulate, hreward, hcomputed⟩⟩

theorem PowJob.validateSolution_meets {powJob : PowJob} {solution : PowSolution}
    (h : powJob.validateSolution P solution = true) :
    meetsTarget solution.hash powJob.target = true := by
  unfold PowJob.validateSolution at h
  cases hinject : powJob.headerWithNonce solution.nonce with
  | error e =>
      rw [hinject] at h
      cases h
  | ok bytes =>
      rw [hinject] at h
      cases hhash : powJob.hashForNonce P solution.nonce with
      | error e =>
          rw [hhash] at h
          cases h
      | ok expectedHash =>
          rw [hhash] at h
          dsimp only at h
          split at h
          · cases h
          · exact h

theorem VisionXMiner.verifySolution_meets {miner : VisionXMiner} {powJob : PowJob}
    {solution : PowSolution} (h : miner.verifySolution P powJob solution = true) :
    meetsTarget solution.hash powJob.target = true := by
  unfold VisionXMiner.verifySolution at h
  split at h
  · cases h
  · exact PowJob.validateSolution_meets h

theorem PowJob.hashForNonce_historical {powJob : PowJob} {preimage : Bytes} {digest : U256}
    (hpreimage : powJob.historicalPreimage = some preimage)
    (h : powJob.hashForNonce P nonce = .ok digest) :
    visionxDigest P powJob.params powJob.prevHash32 powJob.epoch preimage nonce = .ok digest := by
  unfold PowJob.hashForNonce PowJob.miningInputBytes at h
  rw [hpreimage, Option.isSome_some, if_pos rfl, Option.getD_some] at h
  cases hdigest : visionxDigest P powJob.params powJob.prevHash32 powJob.epoch preimage nonce with
  | error e =>
      rw [hdigest] at h
      cases h
  | ok computed =>
      rw [hdigest] at h
      cases h
      rfl

/-- A historical job hashes what the validator hashes. -/
theorem historicalBlockDigest_of_job {epoch : UInt64} {header : BlockHeader} {offset : Nat}
    {target prevHash32 digest : U256} {powJob : PowJob}
    (hprev : decodeHash32 "parent_hash" header.parentHash = .ok prevHash32)
    (hjob : PowJob.fromHistoricalHeader params prevHash32 epoch header offset target = .ok powJob)
    (hhash : powJob.hashForNonce P header.nonce = .ok digest) :
    powJob.target = target ∧ historicalBlockDigest P params epoch header = .ok digest := by
  rcases bind_eq_ok.mp hjob with ⟨preimage, hpreimage, hjob⟩
  cases hjob
  have hdigest := PowJob.hashForNonce_historical rfl hhash
  refine ⟨rfl, ?_⟩
  unfold historicalBlockDigest
  rw [hprev, hpreimage]
  exact hdigest

/-- A solved block is the template with the nonce and its hash. -/
theorem MiningJob.tryNonce_solved (h : job.tryNonce P nonce = some blk) :
    exists digest,
      historicalBlockDigest P job.visionxParams job.epoch blk.header = .ok digest ∧
        meetsTarget digest (difficultyToTarget job.targetDifficulty) = true ∧
        blk =
          { header :=
              { job.headerTemplate with nonce := nonce, powHash := hexEncode digest.bytes }
            txs := job.txs
            weight := UInt64.ofNat job.txs.length } := by
  unfold MiningJob.tryNonce at h
  rcases Option.bind_eq_some_iff.mp h with ⟨prevHash32, hprev, h⟩
  rcases Option.bind_eq_some_iff.mp h with ⟨powJob, hpowJob, h⟩
  rcases Option.bind_eq_some_iff.mp h with ⟨solution, hsolution, h⟩
  rw [toOption_eq_some] at hprev hpowJob hsolution
  cases hverified :
      VisionXMiner.verifySolution P { params := job.visionxParams } powJob solution with
  | false =>
      rw [hverified] at h
      cases h
  | true =>
      rw [hverified] at h
      cases h
      rcases bind_eq_ok.mp hsolution with ⟨digest, hdigest, hsolution⟩
      cases hsolution
      have hjob := historicalBlockDigest_of_job hprev hpowJob hdigest
      have hmeets := VisionXMiner.verifySolution_meets hverified
      rw [hjob.1] at hmeets
      exact ⟨digest, hjob.2, hmeets, rfl⟩

end Agreement

/-!
# The verdict on a solved block
-/

/-- The block that a solution makes of a job. -/
def MiningJob.solved (job : MiningJob) (nonce : UInt64) (digest : U256) : Block :=
  { header := { job.headerTemplate with nonce := nonce, powHash := hexEncode digest.bytes }
    txs := job.txs
    weight := UInt64.ofNat job.txs.length }

/-- At `timestamp` the two retarget windows give one difficulty, and it is not
below the floor. -/
def RetargetAgrees (g : ChainState) (timestamp : UInt64) : Prop :=
  calculateNextDifficulty (collectAncestorWindow g g.tipHash) timestamp =
      calculateNextDifficulty (tipWindow g) timestamp ∧
    difficultyFloor ≤ calculateNextDifficulty (tipWindow g) timestamp

section Verdict

variable {P : Platform} {D : Block -> Prop} {params : VisionXParams} {now nonce : UInt64}
  {g : ChainState} {minerAddr : String} {mempoolTxs : List Tx} {job : MiningJob} {tip : Block}
  {rest : List Block} {executed post : TxExecutionState} {digest : U256} {host : Host}

theorem Represents.path_of_last (hg : Represents P D g) (htip : g.blocks.getLast? = some tip) :
    exists rest, KnownPath g (tip :: rest) ∧ g.blocks.reverse = tip :: rest := by
  have hchain := hg.chain
  rw [← List.head?_reverse] at htip
  cases hblocks : g.blocks.reverse with
  | nil =>
      rw [hblocks] at htip
      cases htip
  | cons b rest =>
      rw [hblocks] at htip hchain
      cases htip
      exact ⟨rest, hchain, rfl⟩

namespace Built

variable (h : Built P params now g minerAddr mempoolTxs job tip executed post)

include h

theorem txs_length : job.txs.length ≤ blockTargetTxs := by
  rw [h.txs, List.length_cons, List.length_take]
  have hpos : 0 < blockTargetTxs := by decide
  omega

theorem number_eq : job.headerTemplate.number = tip.header.number + 1 := by
  have hsum := h.number
  unfold addU64 at hsum
  split_ifs at hsum
  · exact (Except.ok.inj hsum).symm
  · exact (Except.ok.inj hsum).symm

theorem number_toNat (hg : Represents P D g) :
    job.headerTemplate.number.toNat = tip.header.number.toNat + 1 := by
  rcases hg.path_of_last h.tip_eq with ⟨rest, hpath, _⟩
  have hnumber := hg.number_le_timestamp hpath
  have htime := hg.timely (hpath.lookup List.mem_cons_self)
  have hbound : timestampBound + 1 < u64Bound := by decide
  have hlt : tip.header.number.toNat + (1 : UInt64).toNat < u64Bound := by
    show tip.header.number.toNat + 1 < u64Bound
    omega
  rw [h.number_eq, addU64_toNat hlt]
  rfl

/-- A candidate is later than the block it is built on. -/
theorem timestamp_gt (hg : Represents P D g) :
    tip.header.timestamp.toNat < job.headerTemplate.timestamp.toNat := by
  rcases hg.path_of_last h.tip_eq with ⟨rest, hpath, _⟩
  have htime := hg.timely (hpath.lookup List.mem_cons_self)
  have hbound : timestampBound + 1 < u64Bound := by decide
  have hlt : tip.header.timestamp.toNat + (1 : UInt64).toNat < u64Bound := by
    show tip.header.timestamp.toNat + 1 < u64Bound
    omega
  rcases h.timestamp with ⟨earliest, hearliest, heq⟩
  rw [addU64_ok P hlt] at hearliest
  have hvalue : earliest.toNat = tip.header.timestamp.toNat + 1 := by
    rw [← Except.ok.inj hearliest, addU64_toNat hlt]
    rfl
  have hle : earliest ≤ max now earliest := by
    show earliest ≤ if now ≤ earliest then earliest else now
    split
    · exact UInt64.le_refl _
    · rename_i hlater
      exact UInt64.le_of_lt (UInt64.not_le.mp hlater)
  rw [UInt64.le_iff_toNat_le, ← heq] at hle
  omega

theorem number_pos (hg : Represents P D g) : job.headerTemplate.number > 0 := by
  rw [gt_iff_lt, UInt64.lt_iff_toNat_lt, h.number_toNat hg]
  exact Nat.succ_pos _

theorem checkStructure (hg : Represents P D g) :
    VisionCore.checkStructure P (job.solved nonce digest) = .ok () := by
  have hlength := h.txs_length
  have hweight : ¬(job.solved nonce digest).weight > blockWeightLimit := by
    have hle : blockTargetTxs ≤ blockWeightLimit.toNat := by decide
    rw [gt_iff_lt, UInt64.lt_iff_toNat_lt]
    show ¬blockWeightLimit.toNat < (UInt64.ofNat job.txs.length).toNat
    rw [UInt64.toNat_ofNat']
    have hmod := Nat.mod_le job.txs.length (2 ^ 64)
    omega
  have hroot : (job.solved nonce digest).header.txRoot =
      (job.solved nonce digest).computeTxRoot P := by
    show job.headerTemplate.txRoot = _
    rw [h.txRoot]
    unfold Block.computeTxRoot candidateTxRoot MiningJob.solved
    rw [if_neg (by rw [h.txs]; simp)]
  unfold VisionCore.checkStructure
  rw [if_neg hweight, if_neg (not_not.mpr hroot)]
  unfold checkCoinbasePresence
  rw [if_pos (show (job.solved nonce digest).header.number > 0 from h.number_pos hg)]
  unfold MiningJob.solved
  rw [h.txs]
  rfl

theorem checkCoinbaseHeight :
    VisionCore.checkCoinbaseHeight (job.solved nonce digest) = .ok () := by
  unfold VisionCore.checkCoinbaseHeight
  split
  · unfold MiningJob.solved
    rw [h.txs, List.getElem?_cons_zero]
    dsimp only [candidateCoinbase]
    rw [toBeBytes_length, if_neg (by simp),
      fromBeBytes_toBeBytes job.headerTemplate.number.toNat_lt, if_neg (by simp)]
  · rfl

theorem checkTxIds (hbind : IdsBind P job.txs) :
    VisionCore.checkTxIds P (job.solved nonce digest) = .ok () := by
  rw [h.txs] at hbind
  have hnodup := candidate_ids_nodup hbind h.executes
  unfold VisionCore.checkTxIds MiningJob.solved
  rw [h.txs, firstDuplicate_of_nodup hnodup (by simp)]

theorem executeCandidate (hg : Represents P D g) :
    VisionCore.executeCandidate P (job.solved nonce digest)
      { balances := g.balances, nonces := g.nonces } = .ok post := by
  have hrun : executeNonCoinbaseTxs P { balances := g.balances, nonces := g.nonces }
      (job.solved nonce digest) = .ok executed := by
    unfold executeNonCoinbaseTxs MiningJob.solved
    rw [h.txs, List.drop_one, List.tail_cons]
    exact executeTxsFrom_of_simulateTxs 1 h.executes
  have hnumber : (job.solved nonce digest).header.number ≠ 0 :=
    UInt64.pos_iff_ne_zero.mp (h.number_pos hg)
  have hcredit : creditMiner P executed (job.solved nonce digest) = .ok post := by
    unfold creditMiner
    rw [if_pos hnumber]
    exact h.reward
  unfold VisionCore.executeCandidate
  rw [hrun]
  dsimp only
  rw [hcredit]
  dsimp only [bind, Except.bind, mapErr]
  rw [h.stateRoot]
  exact if_neg (not_not.mpr rfl)

end Built

/-- A digest found for a job, with the verdict on its target. -/
structure Solves (P : Platform) (job : MiningJob) (nonce : UInt64) (digest : U256) : Prop where
  digest_eq : historicalBlockDigest P job.visionxParams job.epoch
    (job.solved nonce digest).header = .ok digest
  meets : meetsTarget digest (difficultyToTarget job.targetDifficulty) = true

namespace Built

variable (h : Built P visionxParams now g minerAddr mempoolTxs job tip executed post)

include h

theorem verifyVisionxPow (hsolves : Solves P job nonce digest) (expected : Option UInt64)
    (path : String) :
    VisionCore.verifyVisionxPow P (job.solved nonce digest) expected path = .ok () := by
  have hdigest := hsolves.digest_eq
  have hmeets := hsolves.meets
  rw [h.params_eq, h.epoch] at hdigest
  rw [h.target] at hmeets
  have hfound : historicalBlockDigest P visionxParams
      (visionxParams.epoch (job.solved nonce digest).header.number)
      (job.solved nonce digest).header = .ok digest := hdigest
  unfold VisionCore.verifyVisionxPow
  dsimp only
  rw [hfound]
  dsimp only
  rw [if_neg (by
    rw [Bool.not_eq_true', Bool.not_eq_false]
    exact hmeets)]
  exact if_neg (not_not.mpr rfl)

theorem checkTimestamp (hg : Represents P D g)
    (hfuture : job.headerTemplate.timestamp.toNat ≤
      host.now.toNat + maxFutureTimestampSecs.toNat) :
    VisionCore.checkTimestamp P host.now tip (job.solved nonce digest) = .ok () := by
  have hnow : host.now.toNat < 2 ^ 63 := host.clock_lt _
  have hlater : ¬(job.solved nonce digest).header.timestamp ≤ tip.header.timestamp := by
    rw [UInt64.le_iff_toNat_le, Nat.not_le]
    exact h.timestamp_gt hg
  have hearly : ¬(job.solved nonce digest).header.timestamp > host.now + maxFutureTimestampSecs := by
    rw [gt_iff_lt, UInt64.lt_iff_toNat_lt, addFuture_toNat hnow, Nat.not_lt]
    exact hfuture
  unfold VisionCore.checkTimestamp
  rw [if_neg hlater, addU64_future P hnow]
  exact if_neg hearly

/-- Past the timestamp and the difficulty every stage holds. -/
theorem validateAgainstParent (hg : Represents P D g) (hsolves : Solves P job nonce digest)
    (hbind : IdsBind P job.txs)
    (hfuture : job.headerTemplate.timestamp.toNat ≤
      host.now.toNat + maxFutureTimestampSecs.toNat) :
    VisionCore.validateAgainstParent P host.now g (job.solved nonce digest) =
      match checkDifficulty (collectAncestorWindow g g.tipHash) (job.solved nonce digest) with
      | .error reason => .error (.err reason)
      | .ok () => .ok post := by
  rcases hg.path_of_last h.tip_eq with ⟨rest, hpath, _⟩
  have htip := ChainState.tipHash_of_last h.tip_eq
  have hlookup : resolveBlock g tip.hash = some tip := hpath.lookup List.mem_cons_self
  have hstate : parentStateOf P g tip.hash =
      .ok { balances := g.balances, nonces := g.nonces } := parentStateOf_tip htip.symm rfl rfl
  have hparent : (job.solved nonce digest).header.parentHash = tip.hash := h.parent_eq
  unfold VisionCore.validateAgainstParent
  rw [hparent, hlookup, hstate, htip]
  dsimp only
  unfold validateInContext
  rw [h.checkTimestamp hg hfuture, h.checkCoinbaseHeight, h.checkTxIds hbind]
  dsimp only [bind, Except.bind, liftReject]
  cases checkDifficulty (collectAncestorWindow g tip.hash) (job.solved nonce digest) with
  | error reason => rfl
  | ok _ =>
      unfold checkPow
      rw [h.verifyVisionxPow hsolves]
      exact h.executeCandidate hg

theorem arrives (hg : Represents P D g) (hguarded : genesisHash ∈ g.seenBlocks)
    (hfresh : (job.solved nonce digest).hash ∉ g.seenBlocks) :
    exists rest, Arrives g (job.solved nonce digest) tip rest := by
  rcases hg.path_of_last h.tip_eq with ⟨rest, hpath, _⟩
  refine ⟨rest, hpath, h.parent_eq, h.number_toNat hg, ?_⟩
  cases hknown : resolveBlock g (job.solved nonce digest).hash with
  | none => rfl
  | some known =>
      rcases hg.known_seen hknown with hseen | hgenesis
      · exact absurd hseen hfresh
      · exact absurd (hgenesis ▸ hguarded) hfresh

end Built

end Verdict

/-!
# The result of a call
-/

theorem GenesisApplied.seen {P : Platform} {g : ChainState} (h : GenesisApplied P g) :
    genesisHash ∈ g.seenBlocks := by
  rcases h.eq with ⟨db, rfl⟩
  exact genesisApplied_seen _

section Runs

variable {P : Platform} {D : Block -> Prop} {s g : ChainState} {calls : List Call}
  {now jobId nonce : UInt64} {minerAddr : String} {mempoolTxs : List Tx} {job : MiningJob}
  {blk : Block} {host : Host}

end Runs

/-- The floor is lost exactly when the cut leaves nothing. -/
theorem difficultyFloor_le_iff (blocks : List Block) (nowSecs : UInt64) :
    difficultyFloor ≤ calculateNextDifficulty blocks nowSecs ↔
      uncutDifficulty blocks nowSecs % 2 ^ 64 ≠ 0 := by
  rw [calculateNextDifficulty_eq, UInt64.le_iff_toNat_le, UInt64.toNat_ofNat']
  exact Nat.one_le_iff_ne_zero

/-- Without zero hashes the miner's window is the validator's. -/
theorem Represents.collectAncestorWindow_tip {P : Platform} {D : Block -> Prop} {g : ChainState}
    (hg : Represents P D g) (hzero : AvoidsZeroHash P D) :
    collectAncestorWindow g g.tipHash = tipWindow g := by
  cases htip : g.blocks.getLast? with
  | none =>
      have hempty : g.blocks.reverse = [] := by
        rw [List.getLast?_eq_none_iff.mp htip]
        rfl
      exact absurd hempty hg.chain.ne_nil
  | some tip =>
      rcases hg.path_of_last htip with ⟨rest, hpath, hblocks⟩
      unfold collectAncestorWindow tipWindow
      rw [ChainState.tipHash_of_last htip, ancestorWindowLoop_eq hpath, hblocks]
      exact lineWindow_eq hg hzero hpath

theorem retargetAgrees_of_uncut {P : Platform} {D : Block -> Prop} {g : ChainState}
    (hg : Represents P D g) (hzero : AvoidsZeroHash P D) {timestamp : UInt64}
    (hfits : uncutDifficulty (tipWindow g) timestamp % 2 ^ 64 ≠ 0) :
    RetargetAgrees g timestamp := by
  constructor
  · rw [hg.collectAncestorWindow_tip hzero]
  · exact (difficultyFloor_le_iff _ _).mpr hfits

end VisionCore
