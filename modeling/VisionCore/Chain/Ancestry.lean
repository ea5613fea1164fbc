import VisionCore.Chain.Faults
import VisionCore.Chain.KnownHashes
import VisionCore.Chain.Run
import VisionCore.Chain.Sample
import VisionCore.Foundation.Climb

/-!
# Ancestry

A block enters the stores after its parent, and an exchange of branches keeps that
order.  So the walks along the parent links end, whatever numbers the blocks claim and
whatever waits in the orphan pool.
-/

namespace VisionCore

open Std
open Foundation

/-- The hash that a block names as its parent. -/
def parentOf (blk : Block) : String :=
  blk.header.parentHash

/-- A walk from a hash to the canonical chain, with the side blocks that it passes. -/
abbrev WalkTo (g : ChainState) : String -> List Block -> String -> Prop :=
  Climb g.sideBlocks parentOf fun h => h ∈ g.canonIndex

/-!
# The order of entry
-/

/-- The parent is known and has entered the stores before the block. -/
structure EnteredAfter (g : ChainState) (rank : String -> Nat) (blk : Block) : Prop where
  known : Known g (parentOf blk)
  before : rank (parentOf blk) < rank blk.hash

/-- `rank` numbers the known hashes in the order in which they have become known. -/
structure Ordered (g : ChainState) (rank : String -> Nat) (bound : Nat) : Prop where
  catalogued : Catalogued g
  nonempty : g.blocks ≠ []
  seen : forall h : String, Known g h -> h ∈ g.seenBlocks
  bounded : forall h : String, Known g h -> rank h < bound
  side : forall (hash : String) (blk : Block), g.sideBlocks[hash]? = some blk ->
    EnteredAfter g rank blk
  chain : forall blk : Block, blk ∈ g.blocks.tail -> EnteredAfter g rank blk

section Order

variable {P : Platform} {g g' : ChainState} {rank : String -> Nat} {bound : Nat} {blk : Block}

theorem Ordered.congr (hg : Ordered g rank bound) (hblocks : g'.blocks = g.blocks)
    (hcanon : g'.canonIndex = g.canonIndex) (hside : g'.sideBlocks = g.sideBlocks)
    (hseen : g'.seenBlocks = g.seenBlocks) : Ordered g' rank bound := by
  have hknown : forall h, Known g' h ↔ Known g h := fun h => Known.congr hcanon hside
  constructor
  · exact hg.catalogued.congr hblocks hcanon hside
  · rw [hblocks]
    exact hg.nonempty
  · intro h hh
    rw [hseen]
    exact hg.seen h ((hknown h).mp hh)
  · exact fun h hh => hg.bounded h ((hknown h).mp hh)
  · intro hash b hslot
    rw [hside] at hslot
    have hentered := hg.side hash b hslot
    exact ⟨(hknown _).mpr hentered.known, hentered.before⟩
  · intro b hmem
    rw [hblocks] at hmem
    have hentered := hg.chain b hmem
    exact ⟨(hknown _).mpr hentered.known, hentered.before⟩

/-- A fresh block with a known parent is the last to enter. -/
theorem Ordered.enter (hg : Ordered g rank bound) (hfresh : blk.hash ∉ g.seenBlocks)
    (hparent : Known g (parentOf blk)) (hcatalogued : Catalogued g') (hne : g'.blocks ≠ [])
    (hknown : forall h, Known g' h ↔ Known g h ∨ blk.hash = h)
    (hseen : forall h, h ∈ g'.seenBlocks ↔ blk.hash = h ∨ h ∈ g.seenBlocks)
    (hside : forall (hash : String) (b : Block), g'.sideBlocks[hash]? = some b ->
      g.sideBlocks[hash]? = some b ∨ b = blk)
    (hchain : forall b : Block, b ∈ g'.blocks.tail -> b ∈ g.blocks.tail ∨ b = blk) :
    Ordered g' (fun h => if blk.hash = h then bound else rank h) (bound + 1) := by
  have hold : forall h, Known g h -> (if blk.hash = h then bound else rank h) = rank h := by
    intro h hh
    refine if_neg ?_
    intro heq
    exact hfresh (hg.seen _ (heq ▸ hh))
  have hkept : forall b, Known g b.hash -> EnteredAfter g rank b ->
      EnteredAfter g' (fun h => if blk.hash = h then bound else rank h) b := by
    intro b hb hentered
    refine ⟨(hknown _).mpr (Or.inl hentered.known), ?_⟩
    rw [hold _ hentered.known, hold _ hb]
    exact hentered.before
  have hnew : EnteredAfter g' (fun h => if blk.hash = h then bound else rank h) blk := by
    refine ⟨(hknown _).mpr (Or.inl hparent), ?_⟩
    rw [hold _ hparent, if_pos rfl]
    exact hg.bounded _ hparent
  constructor
  · exact hcatalogued
  · exact hne
  · intro h hh
    refine (hseen h).mpr ?_
    cases (hknown h).mp hh with
    | inl hbefore => exact Or.inr (hg.seen h hbefore)
    | inr heq => exact Or.inl heq
  · intro h hh
    cases (hknown h).mp hh with
    | inl hbefore =>
        rw [hold h hbefore]
        exact Nat.lt_succ_of_lt (hg.bounded h hbefore)
    | inr heq =>
        rw [if_pos heq]
        exact Nat.lt_succ_self bound
  · intro hash b hslot
    cases hside hash b hslot with
    | inl hbefore =>
        refine hkept b ?_ (hg.side hash b hbefore)
        rw [hg.catalogued.side hash b hbefore]
        exact known_of_side hbefore
    | inr heq => exact heq ▸ hnew
  · intro b hmem
    cases hchain b hmem with
    | inl hbefore =>
        exact hkept b (hg.catalogued.blocks b (List.mem_of_mem_tail hbefore))
          (hg.chain b hbefore)
    | inr heq => exact heq ▸ hnew

theorem Ordered.extended (hg : Ordered g rank bound) (hfresh : blk.hash ∉ g.seenBlocks)
    (hparent : Known g (parentOf blk)) (cw : Nat) (state : TxExecutionState) (db : Db) :
    Ordered (extendedChain g blk cw state db)
      (fun h => if blk.hash = h then bound else rank h) (bound + 1) := by
  refine hg.enter hfresh hparent ?_ ?_ ?_ ?_ ?_ ?_
  · exact (hg.catalogued.pushCanonical blk 0).congr rfl rfl rfl
  · rw [extendedChain_blocks]
    simp
  · exact fun h => known_extendedChain g blk cw state db
  · intro h
    exact mem_insert_set_iff
  · exact fun hash b hslot => Or.inl hslot
  · intro b hmem
    rw [extendedChain_blocks, List.tail_append_of_ne_nil hg.nonempty] at hmem
    cases List.mem_append.mp hmem with
    | inl hbefore => exact Or.inl hbefore
    | inr hnew => exact Or.inr (List.mem_singleton.mp hnew)

theorem Ordered.recorded (hg : Ordered g rank bound) (hfresh : blk.hash ∉ g.seenBlocks)
    (hparent : Known g (parentOf blk)) (cw : Nat) :
    Ordered (sideRecorded g blk cw) (fun h => if blk.hash = h then bound else rank h)
      (bound + 1) := by
  refine hg.enter hfresh hparent ?_ hg.nonempty ?_ ?_ ?_ fun b hmem => Or.inl hmem
  · have hwritten : Catalogued
        { g with db := g.db.applyBatch [.insert (.block blk.hash) (.block blk)] } :=
      hg.catalogued.congr rfl rfl rfl
    exact hwritten.recordSideBlock blk cw
  · exact fun h => known_sideRecorded g blk cw
  · intro h
    exact mem_insert_set_iff
  · intro hash b hslot
    have hinsert : (g.sideBlocks.insert blk.hash blk)[hash]? = some b := hslot
    rw [getElem?_insert_ite] at hinsert
    split at hinsert
    · exact Or.inr (Option.some.inj hinsert).symm
    · exact Or.inl hinsert

/-- The exchange of branches leaves the order as it was: the first block is never demoted,
and the promoted ones have been side blocks. -/
theorem Ordered.exchanged (hg : Ordered g rank bound) {newTip : Block} {plan : ReorgPlan}
    {raised : ChainState} {demoted : List Block} (hplan : planReorg P g newTip = .ok plan)
    (hrun : exchangeBranches P g plan = .ok (raised, demoted)) : Ordered raised rank bound := by
  rcases exchange_catalogued hg.catalogued hplan hrun with ⟨hcatalogued, hne, hknown⟩
  rcases (exchangeBranches_ok hrun).works with ⟨_, works, _, _, hraised⟩
  rcases List.exists_cons_of_ne_nil hg.nonempty with ⟨first, rest, hblocks⟩
  have hchain : forall b, b ∈ rest -> EnteredAfter g rank b := by
    intro b hmem
    refine hg.chain b ?_
    rw [hblocks]
    exact hmem
  have hkept : forall b, EnteredAfter g rank b -> EnteredAfter raised rank b :=
    fun b hb => ⟨(hknown _).mpr hb.known, hb.before⟩
  constructor
  · exact hcatalogued
  · exact hne
  · intro h hh
    rw [hraised, exchangedChain_seenBlocks]
    exact (mem_foldl_insert_set Block.hash _ _).mpr (Or.inr (hg.seen h ((hknown h).mp hh)))
  · exact fun h hh => hg.bounded h ((hknown h).mp hh)
  · intro hash b hslot
    rw [hraised, exchangedChain_sideBlocks] at hslot
    have hlowered := getElem?_foldl_erase Block.hash _ _ hslot
    rcases getElem?_foldl_insert Block.hash id _ _ hlowered with ⟨b', hmem, _, hself⟩ | hbefore
    · rw [← hself]
      rw [hblocks, List.drop_succ_cons] at hmem
      exact hkept b' (hchain b' (List.mem_of_mem_drop hmem))
    · exact hkept b (hg.side hash b hbefore)
  · intro b hmem
    rw [hraised, exchangedChain_blocks, hblocks, List.take_succ_cons, List.cons_append,
      List.tail_cons] at hmem
    cases List.mem_append.mp hmem with
    | inl hlow => exact hkept b (hchain b (List.mem_of_mem_take hlow))
    | inr hhigh =>
        rcases planReorg_side hplan b hhigh with ⟨hash, hslot⟩
        exact hkept b (hg.side hash b hslot)

end Order

/-!
# The order along runs
-/

/-- The stores can be numbered in the order of entry. -/
def Traceable (g : ChainState) : Prop :=
  exists (rank : String -> Nat) (bound : Nat), Ordered g rank bound

theorem Traceable.congr {g g' : ChainState} (hg : Traceable g) (hblocks : g'.blocks = g.blocks)
    (hcanon : g'.canonIndex = g.canonIndex) (hside : g'.sideBlocks = g.sideBlocks)
    (hseen : g'.seenBlocks = g.seenBlocks) : Traceable g' := by
  rcases hg with ⟨rank, bound, hordered⟩
  exact ⟨rank, bound, hordered.congr hblocks hcanon hside hseen⟩

/-- Every step of acceptance keeps the order of entry. -/
theorem Traceable.accept {P : Platform} {host : Host} {g : ChainState} {blk : Block}
    {sourcePeer : Option String} {step : Step} (hg : Traceable g)
    (hrun : acceptBlock P host g blk sourcePeer = .ok step) : Traceable step.chain := by
  rcases hg with ⟨rank, bound, hordered⟩
  cases acceptBlock_transition hrun with
  | rejected _ => exact ⟨rank, bound, hordered⟩
  | genesis _ _ hempty _ _ => exact absurd hempty hordered.nonempty
  | orphaned _ _ _ =>
      rcases addOrphan_frame host.now g blk (sourcePeer.getD "anon") with ⟨pool, byHash, hframe⟩
      rw [hframe]
      exact ⟨rank, bound, hordered.congr rfl rfl rfl rfl⟩
  | extended hvetted _ _ _ =>
      exact ⟨_, _, hordered.extended hvetted.fresh hvetted.parent _ _ _⟩
  | recorded hvetted _ _ _ => exact ⟨_, _, hordered.recorded hvetted.fresh hvetted.parent _⟩
  | aborted hvetted _ _ _ _ => exact ⟨_, _, hordered.recorded hvetted.fresh hvetted.parent _⟩
  | reorganised hvetted _ _ hplan hexchange _ _ _ =>
      have hrecorded := hordered.recorded hvetted.fresh hvetted.parent
      exact ⟨_, _, ((hrecorded _).exchanged hplan hexchange).congr rfl rfl rfl rfl⟩

theorem promotionInvariant_traceable (P : Platform) :
    PromotionInvariant P fun _ _ _ g => Traceable g where
  accept := fun hpre hrun => hpre.accept hrun
  idle := fun hpre _ => hpre
  take := fun hpre _ => hpre.congr rfl rfl rfl rfl
  forget := fun hpre => hpre.congr rfl rfl rfl rfl

theorem GenesisOnly.traceable {g : ChainState} (h : GenesisOnly g)
    (hseen : genesisHash ∈ g.seenBlocks) : Traceable g := by
  have hcanon : forall hash, hash ∈ g.canonIndex ↔ hash = genesisHash := by
    intro hash
    rw [ExtTreeMap.mem_iff_isSome_getElem?, Option.isSome_iff_exists]
    constructor
    · rintro ⟨height, hslot⟩
      exact ((h.index hash height).mp hslot).1
    · intro heq
      exact ⟨0, (h.index hash 0).mpr ⟨heq, rfl⟩⟩
  have hknown : forall hash, Known g hash ↔ hash = genesisHash := by
    intro hash
    unfold Known
    rw [hcanon, h.sideBlocks]
    simp
  refine ⟨fun _ => 0, 1, ⟨?_, ?_⟩, ?_, ?_, ?_, ?_, ?_⟩
  · intro blk hmem
    rw [h.blocks] at hmem
    rw [List.mem_singleton.mp hmem]
    exact (hknown _).mpr rfl
  · intro hash blk hslot
    rw [h.sideBlocks] at hslot
    simp at hslot
  · rw [h.blocks]
    exact List.cons_ne_nil _ _
  · intro hash hh
    rw [(hknown hash).mp hh]
    exact hseen
  · exact fun _ _ => Nat.one_pos
  · intro hash blk hslot
    rw [h.sideBlocks] at hslot
    simp at hslot
  · intro blk hmem
    rw [h.blocks] at hmem
    cases hmem

theorem GenesisApplied.traceable {P : Platform} {g : ChainState} (h : GenesisApplied P g) :
    Traceable g := by
  rcases h.eq with ⟨db, rfl⟩
  exact (genesisOnly_genesisApplied rfl rfl rfl rfl rfl).traceable (genesisApplied_seen _)

theorem Traceable.applyAll {P : Platform} {s g : ChainState} {calls : List Call}
    (hs : Traceable s) (hrun : applyAll P s calls = .ok g) : Traceable g := by
  refine foldlM_induction (I := Traceable) ?_ hs hrun
  intro u call v _ hu hstep
  rcases applyCall_ok hstep with ⟨out, hout, rfl⟩
  exact @PromotionInvariant.applyBlock P _ (promotionInvariant_traceable P) [] _ _ _ _ _ hu hout

/-!
# The walks
-/

section Walks

variable {P : Platform} {g : ChainState} {rank : String -> Nat} {bound : Nat}
  {current top : String} {passed : List Block} {height : UInt64}

theorem Ordered.descending (hg : Ordered g rank bound) :
    Descending g.sideBlocks parentOf (fun h => h ∈ g.canonIndex) rank where
  leads := fun hslot => (hg.side _ _ hslot).known
  falls := by
    intro hash blk hslot
    have hbefore := (hg.side hash blk hslot).before
    rwa [hg.catalogued.side hash blk hslot] at hbefore

theorem collectNewSegmentLoop_walk (h : WalkTo g current passed top) {fuel : Nat}
    {above : List Block} (hfuel : passed.length < fuel) :
    collectNewSegmentLoop g fuel current above = .ok (passed.reverse ++ above) := by
  induction h generalizing fuel above with
  | arrive hcanon =>
      cases fuel with
      | zero => cases hfuel
      | succ fuel => exact if_pos (ExtTreeMap.contains_iff_mem.mpr hcanon)
  | @step current top blk passed hcanon hslot _ ih =>
      cases fuel with
      | zero => cases hfuel
      | succ fuel =>
          unfold collectNewSegmentLoop
          rw [if_neg fun h => hcanon (ExtTreeMap.contains_iff_mem.mp h), hslot]
          dsimp only
          rw [List.reverse_cons, List.append_assoc]
          exact ih (Nat.lt_of_succ_lt_succ hfuel)

theorem sideChainStateLoop_walk (h : WalkTo g current passed top)
    (htop : g.canonIndex[top]? = some height) {fuel : Nat} {parentHash : String}
    {branch : List Block} (hfuel : passed.length < fuel) :
    sideChainStateLoop P g parentHash fuel current branch =
      (reconstructCanonicalStateAtHeight P g height >>= fun state =>
        (passed.reverse ++ branch).foldlM (replayBlock P) state) := by
  induction h generalizing fuel branch with
  | arrive _ =>
      cases fuel with
      | zero => cases hfuel
      | succ fuel =>
          unfold sideChainStateLoop
          rw [htop]
          rfl
  | @step current top blk passed hcanon hslot _ ih =>
      cases fuel with
      | zero => cases hfuel
      | succ fuel =>
          unfold sideChainStateLoop
          rw [ExtTreeMap.getElem?_eq_none hcanon, hslot]
          dsimp only
          rw [List.reverse_cons, List.append_assoc]
          exact ih htop (Nat.lt_of_succ_lt_succ hfuel)

/-- The walks from `h` pass the side blocks `passed`, newest first, and end at the canonical
hash `top`, which has the given height. -/
structure WalksEnd (P : Platform) (g : ChainState) (h : String) (passed : List Block)
    (top : String) (height : UInt64) : Prop where
  walk : WalkTo g h passed top
  canonical : g.canonIndex[top]? = some height
  segment : collectNewSegment g h = .ok passed.reverse
  parentState : reconstructParentStateForSideChain P g h =
    (reconstructCanonicalStateAtHeight P g height >>= fun state =>
      passed.reverse.foldlM (replayBlock P) state)

theorem Ordered.walksEnd (hg : Ordered g rank bound) {h : String} (hknown : Known g h) :
    exists passed top height, WalksEnd P g h passed top height := by
  rcases hg.descending.exists_climb hknown with ⟨passed, top, hwalk⟩
  have hfuel : passed.length < sideWalkFuel g :=
    Nat.lt_succ_of_le (hg.descending.length_passed_le hwalk)
  rcases Option.isSome_iff_exists.mp (ExtTreeMap.mem_iff_isSome_getElem?.mp hwalk.summit_top) with
    ⟨height, htop⟩
  have hsegment := @collectNewSegmentLoop_walk g h top passed hwalk (sideWalkFuel g) [] hfuel
  have hstate := @sideChainStateLoop_walk P g h top passed height hwalk htop (sideWalkFuel g) h []
    hfuel
  rw [List.append_nil] at hsegment hstate
  refine ⟨passed, top, height, hwalk, htop, hsegment, ?_⟩
  unfold reconstructParentStateForSideChain
  cases hslot : g.canonIndex[h]? with
  | none => exact hstate
  | some height' =>
      cases hwalk with
      | arrive _ =>
          rw [hslot] at htop
          cases htop
          exact (bind_pure _).symm
      | step hcanon _ _ =>
          rw [ExtTreeMap.getElem?_eq_none hcanon] at hslot
          cases hslot

end Walks

/-!
# Acceptance ends
-/

/-- The fault of a loop that does not end is excluded. -/
def Ends (f : Fault) : Prop :=
  f ≠ .diverges

theorem ends_overflow : Ends .overflow := by
  intro h
  cases h

theorem ends_indexOutOfRange : Ends .indexOutOfRange := by
  intro h
  cases h

section Calls

variable {P : Platform} {host : Host} {g : ChainState} {rank : String -> Nat} {bound : Nat}
  {blk : Block} {sourcePeer : Option String}

theorem Ordered.validateAgainstParent_ends (hg : Ordered g rank bound)
    (hparent : Known g (parentOf blk)) (now : UInt64) :
    FaultsIn Ends (validateAgainstParent P now g blk) := by
  unfold validateAgainstParent
  cases resolveBlock g blk.header.parentHash with
  | none =>
      refine ErrorsIn.error ?_
      intro f h
      cases h
      intro h
      cases h
  | some parent =>
      refine validateInContext_faultsIn (addU64_errorsIn ends_overflow _ _)
        (checkCoinbaseHeight_faultsIn ends_indexOutOfRange) ?_
        fun _ => blockReward_errorsIn ends_overflow _
      unfold parentStateOf
      split
      · exact ErrorsIn.ok _
      · rcases hg.walksEnd hparent with ⟨passed, top, height, hwalks⟩
        refine FaultsIn.mapErr ?_
        have hstate := @WalksEnd.parentState P _ _ _ _ _ hwalks
        unfold parentOf at hstate
        rw [hstate]
        refine ErrorsIn.bind
          (reconstructCanonicalStateAtHeight_faultsIn ends_overflow height) fun state _ => ?_
        exact ErrorsIn.foldlM fun b _ s => replayBlock_faultsIn (blockReward_errorsIn ends_overflow _)

theorem Ordered.tryReorg_ends (hg : Ordered g rank bound) (hknown : Known g blk.hash) :
    ErrorsIn Ends (tryReorg P host g blk) := by
  rcases hg.walksEnd hknown with ⟨passed, top, height, hwalks⟩
  have hsegment := @WalksEnd.segment P _ _ _ _ _ hwalks
  refine tryReorg_errorsIn ends_overflow ends_indexOutOfRange (planReorg_faultsIn ?_ ?_ ?_)
  · rw [hsegment]
    exact ErrorsIn.ok _
  · exact fun _ height' _ => reconstructCanonicalStateChecked_faultsIn ends_overflow height'
  · exact fun _ _ b _ => blockReward_errorsIn ends_overflow _

theorem Traceable.acceptBlock_ends (hg : Traceable g) :
    ErrorsIn Ends (acceptBlock P host g blk sourcePeer) := by
  rcases hg with ⟨rank, bound, hordered⟩
  unfold acceptBlock
  cases checkStructure P blk with
  | error reason => exact ErrorsIn.ok _
  | ok _ =>
      dsimp only
      split
      · exact ErrorsIn.ok _
      · rename_i hseen
        split
        · exact ErrorsIn.ok _
        · refine ErrorsIn.bind (addU128_errorsIn ends_overflow _ _) fun candidateCw _ => ?_
          split
          · exact ErrorsIn.ok _
          · rename_i hknown
            have hparent : ParentKnown g blk := by
              by_contra hunknown
              exact hknown (not_parentKnown_iff.mpr hunknown)
            have hfresh : blk.hash ∉ g.seenBlocks :=
              fun h => hseen (ExtTreeSet.contains_iff_mem.mpr h)
            have hvalid := @Ordered.validateAgainstParent_ends P g rank bound blk hordered hparent
              host.now
            split
            · rename_i f hfault
              exact ErrorsIn.error (hvalid _ hfault f rfl)
            · exact ErrorsIn.ok _
            · split
              · exact ErrorsIn.ok _
              · refine storeSideChain_errorsIn fun host' => ?_
                refine (hordered.recorded hfresh hparent candidateCw).tryReorg_ends ?_
                exact (known_sideRecorded g blk candidateCw).mpr (Or.inr rfl)

end Calls

/-- In every state reached from genesis no hash lies above itself, the walks from every known
hash end at a canonical block, and, whatever waits in the pool, neither acceptance nor the
promotion of orphans goes on forever. -/
theorem ancestry_ends {P : Platform} {s g : ChainState} {calls : List Call}
    (hgenesis : GenesisApplied P s) (hrun : applyAll P s calls = .ok g) :
    WellFounded (Above g.sideBlocks parentOf) ∧
      (forall h, Known g h -> exists passed top height, WalksEnd P g h passed top height) ∧
      forall (pool : ExtTreeMap String (List OrphanEntry)) (byHash : ExtTreeMap String String)
        (host : Host),
        (forall (blk : Block) (sourcePeer : Option String),
          applyBlock P host { g with orphanPool := pool, orphanByHash := byHash } blk sourcePeer ≠
            .error .diverges) ∧
        forall key : String,
          processOrphans P host { g with orphanPool := pool, orphanByHash := byHash } key ≠
            .error .diverges := by
  have hg := hgenesis.traceable.applyAll hrun
  rcases hg with ⟨rank, bound, hordered⟩
  refine ⟨hordered.descending.wellFounded, fun h hknown => hordered.walksEnd hknown, ?_⟩
  intro pool byHash host
  have hpooled : Traceable { g with orphanPool := pool, orphanByHash := byHash } :=
    ⟨rank, bound, hordered.congr rfl rfl rfl rfl⟩
  have hI := promotionInvariant_traceable P
  constructor
  · intro blk sourcePeer hdiverges
    have hends : ErrorsIn Ends (applyBlock P host
        { g with orphanPool := pool, orphanByHash := byHash } blk sourcePeer) :=
      @PromotionInvariant.applyBlock_errorsIn P _ Ends hI (fun h => h.acceptBlock_ends) [] _ _ _ _
        hpooled
    exact hends _ hdiverges rfl
  · intro key hdiverges
    have hends : ErrorsIn Ends (processOrphans P host
        { g with orphanPool := pool, orphanByHash := byHash } key) :=
      @PromotionInvariant.processOrphans_errorsIn P _ Ends hI (fun h => h.acceptBlock_ends) [] _ _ _
        hpooled
    exact hends _ hdiverges rfl

theorem forkedRun_sides :
    (applyAll samplePlatform sampleGenesis ([firstBlock, rivalFirst].map sampleCall)).toOption.map
      (fun g => g.sideBlocks.contains rivalFirst.hash) = some true := by
  decide +kernel

theorem ancestry_ends_forked : exists g,
    applyAll samplePlatform sampleGenesis ([firstBlock, rivalFirst].map sampleCall) = .ok g ∧
      WellFounded (Above g.sideBlocks parentOf) ∧
      exists passed top height, WalksEnd samplePlatform g rivalFirst.hash passed top height := by
  rcases toOption_map_eq_some forkedRun_sides with ⟨g, hrun, hside⟩
  have hends := ancestry_ends sampleGenesis_applied hrun
  exact ⟨g, hrun, hends.1,
    hends.2.1 rivalFirst.hash (Or.inr (ExtTreeMap.contains_iff_mem.mp hside))⟩

end VisionCore
