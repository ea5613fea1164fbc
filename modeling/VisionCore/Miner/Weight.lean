import VisionCore.Chain.KnownHashes
import VisionCore.Miner.Agreement

/-!
# The weight of a block

The producer counts one for each transaction.  Acceptance compares the number that the
block brings with the limit, and no check compares it with the transactions.
-/

namespace VisionCore

open Std Foundation

/-- The weight is the sum over the transactions, one for each of them. -/
def Block.WeighsContent (blk : Block) : Prop :=
  blk.weight.toNat = (blk.txs.map fun _ => 1).sum

theorem Block.weighsContent_iff {blk : Block} :
    blk.WeighsContent ↔ blk.weight.toNat = blk.txs.length := by
  unfold Block.WeighsContent
  rw [List.map_const', List.sum_replicate, smul_eq_mul, Nat.mul_one]

theorem Block.WeighsContent.weight_eq {blk blk' : Block} (h : blk.WeighsContent)
    (h' : blk'.WeighsContent) (htxs : blk.txs = blk'.txs) : blk.weight = blk'.weight := by
  unfold Block.WeighsContent at h h'
  rw [htxs, ← h'] at h
  exact UInt64.toNat_inj.mp h

/-!
# The producer
-/

theorem MiningJob.tryNonce_weighsContent {P : Platform} {job : MiningJob} {nonce : UInt64}
    {blk : Block} (h : job.tryNonce P nonce = some blk) (hsize : job.txs.length < u64Bound) :
    blk.WeighsContent := by
  rcases MiningJob.tryNonce_solved h with ⟨digest, _, _, rfl⟩
  exact Block.weighsContent_iff.mpr (UInt64.toNat_ofNat_of_lt' hsize)

/-- A candidate has few transactions, so its solved block brings their exact weight. -/
theorem candidate_weighsContent {P : Platform} {tip : Block} {jobId nowSecs nonce : UInt64}
    {minerAddr : String} {extraTxs : List Tx} {ancestorWindow : List Block}
    {params : VisionXParams} {job : MiningJob} {blk : Block}
    (hjob : buildCandidateWithParams P tip jobId minerAddr extraTxs ancestorWindow nowSecs
      params = .ok job) (hnonce : job.tryNonce P nonce = some blk) : blk.WeighsContent := by
  refine MiningJob.tryNonce_weighsContent hnonce ?_
  rcases bind_eq_ok.mp hjob with ⟨height, _, hjob⟩
  cases hjob
  have htaken := List.length_take_le (blockTargetTxs - 1) extraTxs
  have htarget : blockTargetTxs + 1 < u64Bound := by decide
  dsimp only
  rw [List.length_cons]
  omega

/-!
# What the stores hold
-/

/-- The block is canonical or a side block. -/
def Held (g : ChainState) (blk : Block) : Prop :=
  blk ∈ g.blocks ∨ exists hash : String, g.sideBlocks[hash]? = some blk

theorem checkStructure_weight {P : Platform} {blk : Block} (h : checkStructure P blk = .ok ()) :
    blk.weight ≤ blockWeightLimit := by
  unfold checkStructure at h
  split at h
  · cases h
  · rename_i hweight
    exact UInt64.not_lt.mp hweight

section Steps

variable {P : Platform} {host : Host} {g : ChainState} {blk b : Block}
  {sourcePeer : Option String} {step : Step} {candidateCw : Nat}

theorem held_sideRecorded (h : Held (sideRecorded g blk candidateCw) b) : Held g b ∨ b = blk := by
  rcases h with hcanon | ⟨hash, hslot⟩
  · exact Or.inl (Or.inl hcanon)
  · have hinsert : (g.sideBlocks.insert blk.hash blk)[hash]? = some b := hslot
    rw [getElem?_insert_ite] at hinsert
    split at hinsert
    · exact Or.inr (Option.some.inj hinsert).symm
    · exact Or.inl (Or.inr ⟨hash, hinsert⟩)

theorem held_pushCanonical (h : Held (pushCanonical g blk candidateCw) b) :
    Held g b ∨ b = blk := by
  rcases h with hcanon | hside
  · cases List.mem_append.mp hcanon with
    | inl hold => exact Or.inl (Or.inl hold)
    | inr hnew => exact Or.inr (List.mem_singleton.mp hnew)
  · exact Or.inl (Or.inr hside)

theorem held_genesisApplied (h : Held (genesisApplied g blk) b) : Held g b ∨ b = blk :=
  @held_pushCanonical _ blk b blk.header.difficulty.toNat h

theorem held_extendedChain {state : TxExecutionState} {db : Db}
    (h : Held (extendedChain g blk candidateCw state db) b) : Held g b ∨ b = blk :=
  @held_pushCanonical _ blk b candidateCw h

/-- The exchange brings no block into the stores. -/
theorem held_exchanged {raised : ChainState} {newTip : Block} {plan : ReorgPlan}
    {demoted : List Block} (hplan : planReorg P g newTip = .ok plan)
    (hrun : exchangeBranches P g plan = .ok (raised, demoted)) (h : Held raised b) :
    Held g b := by
  rcases exchangeBranches_shape hrun with ⟨kept, works, _, hkept, hdemoted, hraised⟩
  rw [hraised] at h
  rcases h with hcanon | ⟨hash, hslot⟩
  · cases List.mem_append.mp hcanon with
    | inl hlow => exact Or.inl (hkept hlow)
    | inr hhigh => exact Or.inr (planReorg_side hplan b hhigh)
  · unfold promotedChain at hslot
    rw [foldl_demoteBlock] at hslot
    have hlowered := getElem?_foldl_erase Block.hash _ _ hslot
    rcases getElem?_foldl_insert Block.hash id _ _ hlowered with ⟨b', hmem, _, hself⟩ | hold
    · rw [← hself]
      exact Or.inl (hdemoted hmem)
    · exact Or.inr ⟨hash, hold⟩

/-- A step stores at most its block, and only one that passes the structure checks. -/
theorem acceptBlock_held (hrun : acceptBlock P host g blk sourcePeer = .ok step)
    (h : Held step.chain b) : Held g b ∨ (b = blk ∧ checkStructure P blk = .ok ()) := by
  cases hstructure : checkStructure P blk with
  | error reason =>
      unfold acceptBlock at hrun
      rw [hstructure] at hrun
      cases hrun
      exact Or.inl h
  | ok _ =>
      have hone : Held g b ∨ b = blk := by
        cases acceptBlock_transition hrun with
        | rejected _ => exact Or.inl h
        | genesis _ _ _ _ _ => exact held_genesisApplied h
        | orphaned _ _ _ =>
            rcases addOrphan_frame host.now g blk (sourcePeer.getD "anon") with
              ⟨pool, byHash, hframe⟩
            rw [hframe] at h
            exact Or.inl h
        | extended _ _ _ _ => exact held_extendedChain h
        | recorded _ _ _ _ => exact held_sideRecorded h
        | aborted _ _ _ _ _ => exact held_sideRecorded h
        | reorganised _ _ _ hplan hexchange _ _ _ =>
            exact held_sideRecorded (held_exchanged hplan hexchange h)
      exact hone.imp_right fun heq => ⟨heq, rfl⟩

/-- A call that stores its block has checked its weight. -/
theorem applyBlock_structure {out : Applied}
    (hrun : applyBlock P host g blk sourcePeer = .ok out)
    (hresult : forall reason, out.result ≠ .rejected reason) :
    checkStructure P blk = .ok () := by
  rcases applyBlock_first hrun with ⟨step, hstep, hstepResult, _⟩
  cases hstructure : checkStructure P blk with
  | ok _ => rfl
  | error reason =>
      unfold acceptBlock at hstep
      rw [hstructure] at hstep
      cases hstep
      exact absurd hstepResult (hresult reason)

end Steps

/-!
# Runs
-/

/-- The stores hold, besides genesis, delivered blocks that pass the structure checks, and
delivered blocks wait in the pool. -/
structure Supplied (P : Platform) (D : Block -> Prop) (g : ChainState) : Prop where
  held : forall blk, Held g blk -> blk = genesisBlock ∨ (D blk ∧ checkStructure P blk = .ok ())
  waiting : forall (key : String) (entry : OrphanEntry), Waits g key entry -> D entry.1

theorem Supplied.accept {P : Platform} {D : Block -> Prop} {host : Host} {g : ChainState}
    {blk : Block} {sourcePeer : Option String} {step : Step} (hg : Supplied P D g) (hD : D blk)
    (hrun : acceptBlock P host g blk sourcePeer = .ok step) : Supplied P D step.chain where
  held := by
    intro b hb
    rcases acceptBlock_held hrun hb with hold | ⟨rfl, hstructure⟩
    · exact hg.held b hold
    · exact Or.inr ⟨hD, hstructure⟩
  waiting := by
    intro key entry hwaits
    rcases acceptBlock_pool hrun with ⟨hpool, _, _⟩ | ⟨_, _, _, hchain⟩
    · exact hg.waiting key entry ((Waits.congr hpool).mp hwaits)
    · rw [hchain] at hwaits
      rcases waits_addOrphan.mp hwaits with ⟨_, rfl⟩ | hold
      · exact hD
      · exact hg.waiting key entry (waits_pruneOldOrphans hold)

theorem promotionInvariant_supplied (P : Platform) (D : Block -> Prop) :
    PromotionInvariant P fun offered _ _ g =>
      (forall blk, blk ∈ offered -> D blk) ∧ Supplied P D g where
  accept := by
    intro offered host g blk sourcePeer step hpre hrun
    exact ⟨fun b hb => hpre.1 b (List.mem_cons_of_mem _ hb),
      hpre.2.accept (hpre.1 blk List.mem_cons_self) hrun⟩
  idle := fun hpre _ => hpre
  take := by
    intro offered key host g waiting hpre hslot
    refine ⟨?_, hpre.2.held, ?_⟩
    · intro b hb
      cases List.mem_append.mp hb with
      | inl htaken =>
          rcases List.mem_map.mp htaken with ⟨entry, hentry, rfl⟩
          exact hpre.2.waiting key entry ⟨waiting, hslot, hentry⟩
      | inr hold => exact hpre.1 b hold
    · intro key' entry hwaits
      exact hpre.2.waiting key' entry (waits_takeWaiting.mp hwaits).2
  forget := fun hpre => ⟨hpre.1, hpre.2.held, hpre.2.waiting⟩

theorem GenesisApplied.supplied {P : Platform} {g : ChainState} (h : GenesisApplied P g)
    (D : Block -> Prop) : Supplied P D g := by
  rcases h.eq with ⟨db, rfl⟩
  constructor
  · intro blk hheld
    rcases held_genesisApplied hheld with (hcanon | ⟨hash, hslot⟩) | heq
    · cases hcanon
    · simp [ChainState.empty] at hslot
    · exact Or.inl heq
  · rintro key entry ⟨waiting, hslot, _⟩
    simp [genesisApplied, pushCanonical, ChainState.empty] at hslot

theorem Supplied.applyAll {P : Platform} {D : Block -> Prop} {s g : ChainState}
    {calls : List Call} (hs : Supplied P D s) (hcalls : forall call, call ∈ calls -> D call.blk)
    (hrun : applyAll P s calls = .ok g) : Supplied P D g := by
  refine foldlM_induction (I := Supplied P D) ?_ hs hrun
  intro u call v hcall hu hstep
  rcases applyCall_ok hstep with ⟨out, hout, rfl⟩
  have hoffered : forall b, b ∈ [call.blk] -> D b := by
    intro b hb
    rw [List.mem_singleton.mp hb]
    exact hcalls call hcall
  exact ((promotionInvariant_supplied P D).applyBlock (And.intro hoffered hu) hout).2

/-- The state is reached from genesis by calls whose blocks, if they pass the structure
checks, weigh their content. -/
def HonestlyReached (P : Platform) (g : ChainState) : Prop :=
  exists (s : ChainState) (calls : List Call), GenesisApplied P s ∧
    (forall call, call ∈ calls -> checkStructure P call.blk = .ok () -> call.blk.WeighsContent) ∧
    applyAll P s calls = .ok g

theorem length_le_limit {P : Platform} {blk : Block} (h : blk.WeighsContent)
    (hstructure : checkStructure P blk = .ok ()) :
    blk.txs.length ≤ blockWeightLimit.toNat := by
  have hweight := UInt64.le_iff_toNat_le.mp (checkStructure_weight hstructure)
  rwa [Block.weighsContent_iff.mp h] at hweight

theorem HonestlyReached.held {P : Platform} {g : ChainState} (h : HonestlyReached P g)
    {blk : Block} (hheld : Held g blk) :
    blk.WeighsContent ∧ blk.txs.length ≤ blockWeightLimit.toNat := by
  rcases h with ⟨s, calls, hgenesis, hhonest, hrun⟩
  have hsupplied := (hgenesis.supplied fun b =>
    checkStructure P b = .ok () -> b.WeighsContent).applyAll hhonest hrun
  rcases hsupplied.held blk hheld with rfl | ⟨hweighs, hstructure⟩
  · exact ⟨rfl, by decide⟩
  · exact ⟨hweighs hstructure, length_le_limit (hweighs hstructure) hstructure⟩

/-- In every state that is reached with honest weights, the stored blocks weigh their
content and keep its limit, a call stores no other block, and header and transactions
determine the weight. -/
theorem heldBlocks_weighContent {P : Platform} {g : ChainState} (hreached : HonestlyReached P g) :
    (forall blk, Held g blk ->
      blk.WeighsContent ∧ blk.txs.length ≤ blockWeightLimit.toNat) ∧
    (forall (host : Host) (blk : Block) (sourcePeer : Option String) (out : Applied),
      (checkStructure P blk = .ok () -> blk.WeighsContent) ->
      applyBlock P host g blk sourcePeer = .ok out ->
      (forall reason, out.result ≠ .rejected reason) ->
        blk.WeighsContent ∧ blk.txs.length ≤ blockWeightLimit.toNat) ∧
    forall g' blk blk', HonestlyReached P g' -> Held g blk -> Held g' blk' ->
      blk.header = blk'.header -> blk.txs = blk'.txs -> blk.weight = blk'.weight := by
  refine ⟨fun blk => hreached.held, ?_, ?_⟩
  · intro host blk sourcePeer out hhonest hrun hresult
    have hstructure := applyBlock_structure hrun hresult
    exact ⟨hhonest hstructure, length_le_limit (hhonest hstructure) hstructure⟩
  · intro g' blk blk' hreached' hheld hheld' _ htxs
    exact (hreached.held hheld).1.weight_eq (hreached'.held hheld').1 htxs

/-!
# A block with a false weight
-/

/-- The first sample block with its weight left at zero, which its hash does not commit. -/
def weightlessFirst : Block :=
  { firstBlock with weight := 0 }

theorem firstBlocks_accepted :
    (applyAll samplePlatform sampleGenesis ([firstBlock].map sampleCall)).toOption.map
        ChainState.blocks = some [genesisBlock, firstBlock] ∧
      (applyAll samplePlatform sampleGenesis ([weightlessFirst].map sampleCall)).toOption.map
        ChainState.blocks = some [genesisBlock, weightlessFirst] := by
  decide +kernel

theorem held_firstBlock : exists g,
    applyAll samplePlatform sampleGenesis ([firstBlock].map sampleCall) = .ok g ∧
      HonestlyReached samplePlatform g ∧ Held g firstBlock := by
  rcases Option.map_eq_some_iff.mp firstBlocks_accepted.1 with ⟨g, hsome, hblocks⟩
  have hrun := toOption_eq_some.mp hsome
  refine ⟨g, hrun, ⟨sampleGenesis, _, sampleGenesis_applied, ?_, hrun⟩, Or.inl ?_⟩
  · intro call hcall _
    rw [List.mem_singleton.mp hcall]
    rfl
  · rw [hblocks]
    exact List.mem_cons_of_mem _ List.mem_cons_self

theorem heldBlocks_weighContent_sample : exists g,
    HonestlyReached samplePlatform g ∧ Held g firstBlock ∧ firstBlock.WeighsContent := by
  rcases held_firstBlock with ⟨g, _, hreached, hheld⟩
  exact ⟨g, hreached, hheld, ((heldBlocks_weighContent hreached).1 firstBlock hheld).1⟩

/-- The block with the false weight is accepted as the first block is. -/
theorem weightlessFirst_held : exists g g',
    applyAll samplePlatform sampleGenesis ([firstBlock].map sampleCall) = .ok g ∧
      applyAll samplePlatform sampleGenesis ([weightlessFirst].map sampleCall) = .ok g' ∧
      Held g firstBlock ∧ Held g' weightlessFirst ∧ ¬ weightlessFirst.WeighsContent ∧
      firstBlock.header = weightlessFirst.header ∧ firstBlock.txs = weightlessFirst.txs ∧
      firstBlock.weight ≠ weightlessFirst.weight := by
  rcases held_firstBlock with ⟨g, hrun, _, hheld⟩
  rcases Option.map_eq_some_iff.mp firstBlocks_accepted.2 with ⟨g', hsome, hblocks⟩
  refine ⟨g, g', hrun, toOption_eq_some.mp hsome, hheld, Or.inl ?_, ?_, rfl, rfl, by decide⟩
  · rw [hblocks]
    exact List.mem_cons_of_mem _ List.mem_cons_self
  · intro hweighs
    cases Block.weighsContent_iff.mp hweighs

end VisionCore
