import VisionCore.Chain.Validation
import VisionCore.Foundation.Outcome

/-!
# Where acceptance can abort

A stage aborts only where its arithmetic, its lookups or its walks do.  The lemmas
hold for any set of faults that contains those.
-/

namespace VisionCore

open Foundation

/-- An error of the function itself, or a fault in `F`. -/
def Stop.FaultIn {error : Type} (F : Fault -> Prop) (stop : Stop error) : Prop :=
  forall f, stop = .fault f -> F f

abbrev FaultsIn {error α : Type} (F : Fault -> Prop) (x : Except (Stop error) α) : Prop :=
  ErrorsIn (Stop.FaultIn F) x

namespace FaultsIn

variable {error error' α : Type} {F : Fault -> Prop}

theorem err (e : error) : FaultsIn F (.error (.err e) : Except (Stop error) α) := by
  refine ErrorsIn.error ?_
  intro f h
  cases h

theorem liftFault {x : Except Fault α} (hx : ErrorsIn F x) :
    FaultsIn F (liftFault x : Except (Stop error) α) := by
  cases x with
  | ok a => exact ErrorsIn.ok a
  | error f =>
      refine ErrorsIn.error ?_
      intro f' h
      cases h
      exact hx f rfl

theorem mapErr {f : error -> error'} {x : Except (Stop error) α} (hx : FaultsIn F x) :
    FaultsIn F (mapErr f x) := by
  cases x with
  | ok a => exact ErrorsIn.ok a
  | error stop =>
      cases stop with
      | err e => exact err _
      | fault g =>
          refine ErrorsIn.error ?_
          intro f' h
          cases h
          exact hx _ rfl g rfl

theorem liftReject (x : Except RejectReason α) : FaultsIn F (liftReject x) := by
  cases x with
  | ok a => exact ErrorsIn.ok a
  | error reason => exact err reason

end FaultsIn

/-!
# Arithmetic
-/

section Arithmetic

variable {P : Platform} {F : Fault -> Prop}

theorem addU64_errorsIn (hoverflow : F .overflow) (a b : UInt64) : ErrorsIn F (addU64 P a b) := by
  unfold addU64
  split
  · exact ErrorsIn.ok _
  · split
    · exact ErrorsIn.error hoverflow
    · exact ErrorsIn.ok _

theorem addU128_errorsIn (hoverflow : F .overflow) (a b : Nat) : ErrorsIn F (addU128 P a b) := by
  unfold addU128
  split
  · exact ErrorsIn.ok _
  · split
    · exact ErrorsIn.error hoverflow
    · exact ErrorsIn.ok _

theorem blockReward_errorsIn (hoverflow : F .overflow) (height : UInt64) :
    ErrorsIn F (blockReward P height) := by
  unfold blockReward shrU128
  split
  · exact ErrorsIn.ok _
  · split
    · exact ErrorsIn.error hoverflow
    · exact ErrorsIn.ok _

end Arithmetic

/-!
# Execution
-/

section Execution

variable {P : Platform} {F : Fault -> Prop} {blk : Block} {state : TxExecutionState}

theorem applyCoinbaseReward_faultsIn {height : UInt64} (hreward : ErrorsIn F (blockReward P height))
    (miner : String) : FaultsIn F (applyCoinbaseReward P state miner height) := by
  unfold applyCoinbaseReward
  split
  · exact FaultsIn.err _
  · refine ErrorsIn.bind (FaultsIn.liftFault hreward) ?_
    intro reward _
    split
    · exact FaultsIn.err _
    · exact ErrorsIn.ok _

theorem creditMiner_faultsIn (hreward : ErrorsIn F (blockReward P blk.header.number)) :
    FaultsIn F (creditMiner P state blk) := by
  unfold creditMiner
  split
  · exact applyCoinbaseReward_faultsIn hreward _
  · exact ErrorsIn.ok _

theorem replayBlock_faultsIn (hreward : ErrorsIn F (blockReward P blk.header.number)) :
    FaultsIn F (replayBlock P state blk) := by
  unfold replayBlock
  split
  · exact FaultsIn.err _
  · exact FaultsIn.mapErr (creditMiner_faultsIn hreward)

theorem replayBlockChecked_faultsIn (hreward : ErrorsIn F (blockReward P blk.header.number)) :
    FaultsIn F (replayBlockChecked P state blk) := by
  unfold replayBlockChecked
  split
  · exact FaultsIn.err _
  · split
    · split
      · rename_i f hfault
        refine ErrorsIn.error ?_
        intro f' h
        cases h
        exact applyCoinbaseReward_faultsIn hreward _ _ hfault f rfl
      · exact FaultsIn.err _
      · split
        · exact FaultsIn.err _
        · split
          · exact FaultsIn.err _
          · exact ErrorsIn.ok _
    · exact ErrorsIn.ok _

theorem executeCandidate_faultsIn (hreward : ErrorsIn F (blockReward P blk.header.number)) :
    FaultsIn F (executeCandidate P blk state) := by
  unfold executeCandidate
  split
  · exact FaultsIn.err _
  · refine ErrorsIn.bind (FaultsIn.mapErr (creditMiner_faultsIn hreward)) ?_
    intro state' _
    split
    · exact FaultsIn.err _
    · split
      · exact FaultsIn.err _
      · exact ErrorsIn.ok _

theorem reconstructBranchStateFrom_faultsIn {segment : List Block} {expected : String}
    (hrewards : forall blk, blk ∈ segment -> ErrorsIn F (blockReward P blk.header.number)) :
    FaultsIn F (reconstructBranchStateFrom P expected state segment) := by
  induction segment generalizing expected state with
  | nil => exact ErrorsIn.ok _
  | cons blk segment ih =>
      unfold reconstructBranchStateFrom
      split
      · exact FaultsIn.err _
      · refine ErrorsIn.bind (replayBlockChecked_faultsIn (hrewards blk List.mem_cons_self)) ?_
        intro state' _
        exact ih fun b hb => hrewards b (List.mem_cons_of_mem _ hb)

theorem reconstructCanonicalStateAtHeight_faultsIn {g : ChainState} (hoverflow : F .overflow)
    (height : UInt64) : FaultsIn F (reconstructCanonicalStateAtHeight P g height) := by
  unfold reconstructCanonicalStateAtHeight
  refine ErrorsIn.bind (FaultsIn.liftFault (addU64_errorsIn hoverflow _ _)) fun count _ => ?_
  exact ErrorsIn.foldlM fun b _ state => replayBlock_faultsIn (blockReward_errorsIn hoverflow _)

theorem reconstructCanonicalStateChecked_faultsIn {g : ChainState} (hoverflow : F .overflow)
    (height : UInt64) : FaultsIn F (reconstructCanonicalStateChecked P g height) := by
  unfold reconstructCanonicalStateChecked
  refine ErrorsIn.bind (FaultsIn.liftFault (addU64_errorsIn hoverflow _ _)) fun count _ => ?_
  exact ErrorsIn.foldlM fun b _ state =>
    replayBlockChecked_faultsIn (blockReward_errorsIn hoverflow _)

end Execution

/-!
# Validation and reorganisation
-/

section Stages

variable {P : Platform} {F : Fault -> Prop} {g : ChainState} {blk parent : Block}

theorem checkTimestamp_faultsIn {now : UInt64}
    (hlimit : ErrorsIn F (addU64 P now maxFutureTimestampSecs)) :
    FaultsIn F (checkTimestamp P now parent blk) := by
  unfold checkTimestamp
  split
  · exact FaultsIn.err _
  · refine ErrorsIn.bind (FaultsIn.liftFault hlimit) ?_
    intro limit _
    split
    · exact FaultsIn.err _
    · exact ErrorsIn.ok _

theorem validateInContext_faultsIn {now : UInt64} {window : List Block}
    {parentState : Except (Stop RejectReason) TxExecutionState}
    (hlimit : ErrorsIn F (addU64 P now maxFutureTimestampSecs))
    (hcoinbase : FaultsIn F (checkCoinbaseHeight blk)) (hparent : FaultsIn F parentState)
    (hreward : checkPow P window blk = .ok () ->
      ErrorsIn F (blockReward P blk.header.number)) :
    FaultsIn F (validateInContext P now blk parent window parentState) := by
  unfold validateInContext
  refine ErrorsIn.bind (checkTimestamp_faultsIn hlimit) fun _ _ => ?_
  refine ErrorsIn.bind (FaultsIn.liftReject _) fun _ _ => ?_
  refine ErrorsIn.bind (FaultsIn.liftReject _) fun _ hpow => ?_
  refine ErrorsIn.bind hcoinbase fun _ _ => ?_
  refine ErrorsIn.bind (FaultsIn.liftReject _) fun _ _ => ?_
  refine ErrorsIn.bind hparent fun _ _ => ?_
  exact executeCandidate_faultsIn (hreward (liftReject_eq_ok.mp hpow))

theorem planReorg_faultsIn {newTip : Block}
    (hwalk : ErrorsIn F (collectNewSegment g newTip.hash))
    (hancestor : forall (hash : String) (height : UInt64), g.canonIndex[hash]? = some height ->
      FaultsIn F (reconstructCanonicalStateChecked P g height))
    (hrewards : forall segment, collectNewSegment g newTip.hash = .ok segment ->
      forall b, b ∈ segment -> ErrorsIn F (blockReward P b.header.number)) :
    FaultsIn F (planReorg P g newTip) := by
  unfold planReorg
  refine ErrorsIn.bind (FaultsIn.liftFault hwalk) ?_
  intro segment hsegment
  have hrewarded := hrewards segment (liftFault_eq_ok.mp hsegment)
  split
  · exact FaultsIn.err _
  · rename_i first newer
    dsimp only
    cases hslot : g.canonIndex[first.header.parentHash]? with
    | none => exact FaultsIn.err _
    | some height =>
        refine ErrorsIn.bind (FaultsIn.mapErr (hancestor _ height hslot)) ?_
        intro ancestorState _
        refine ErrorsIn.bind
          (FaultsIn.mapErr (reconstructBranchStateFrom_faultsIn hrewarded)) ?_
        intro state _
        split
        · exact FaultsIn.err _
        · split
          · exact FaultsIn.err _
          · exact ErrorsIn.ok _

theorem exchangeBranches_errorsIn (hoverflow : F .overflow) (hindex : F .indexOutOfRange)
    (plan : ReorgPlan) : ErrorsIn F (exchangeBranches P g plan) := by
  unfold exchangeBranches
  refine ErrorsIn.bind (addU64_errorsIn hoverflow _ _) fun demotedFrom _ => ?_
  refine ErrorsIn.bind ?_ fun kept _ => ?_
  · unfold sliceToInclusive
    split
    · exact ErrorsIn.ok _
    · exact ErrorsIn.error hindex
  refine ErrorsIn.bind ?_ fun cw _ => ?_
  · unfold ancestorWork
    split
    · exact ErrorsIn.ok _
    · exact ErrorsIn.foldlM fun b _ acc => addU128_errorsIn hoverflow _ _
  refine ErrorsIn.bind ?_ fun raised _ => ErrorsIn.ok _
  refine ErrorsIn.foldlM fun b _ entry => ?_
  unfold promoteBlock
  exact ErrorsIn.bind (addU128_errorsIn hoverflow _ _) fun cw' _ => ErrorsIn.ok _

theorem tryReorg_errorsIn {host : Host} {newTip : Block} (hoverflow : F .overflow)
    (hindex : F .indexOutOfRange) (hplan : FaultsIn F (planReorg P g newTip)) :
    ErrorsIn F (tryReorg P host g newTip) := by
  unfold tryReorg
  split
  · rename_i f hfault
    exact ErrorsIn.error (hplan _ hfault f rfl)
  · exact ErrorsIn.ok _
  · refine ErrorsIn.bind (exchangeBranches_errorsIn hoverflow hindex _) fun exchanged _ => ?_
    refine ErrorsIn.bind ?_ fun persisted _ => ?_
    · unfold persistCanonicalReorg
      split
      · exact ErrorsIn.ok _
      · exact ErrorsIn.bind (addU64_errorsIn hoverflow _ _) fun firstStale _ => ErrorsIn.ok _
    · split
      · exact ErrorsIn.ok _
      · exact ErrorsIn.ok _

theorem storeSideChain_errorsIn {host : Host} {tipCw candidateCw : Nat}
    (hreorg : forall host, ErrorsIn F (tryReorg P host (sideRecorded g blk candidateCw) blk)) :
    ErrorsIn F (storeSideChain P host g blk tipCw candidateCw) := by
  unfold storeSideChain storeBlock
  have hwrite := Host.write_cases host g.db [.insert (.block blk.hash) (.block blk)]
  generalize host.write g.db _ = written at hwrite
  cases hwrite with
  | failed _ => exact ErrorsIn.ok _
  | written _ =>
      dsimp only
      split
      · refine ErrorsIn.bind (hreorg host.wrote) fun out _ => ?_
        split
        · exact ErrorsIn.ok _
        · exact ErrorsIn.ok _
      · exact ErrorsIn.ok _

/-- Stage 6a reads the first transaction, which may be missing. -/
theorem checkCoinbaseHeight_faultsIn (hindex : F .indexOutOfRange) :
    FaultsIn F (checkCoinbaseHeight blk) := by
  unfold checkCoinbaseHeight
  split
  · split
    · refine ErrorsIn.error ?_
      intro f h
      cases h
      exact hindex
    · split
      · exact FaultsIn.err _
      · split
        · exact FaultsIn.err _
        · exact ErrorsIn.ok _
  · exact ErrorsIn.ok _

end Stages

end VisionCore
