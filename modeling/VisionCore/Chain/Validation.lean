import VisionCore.Chain.AcceptCases

/-!
# Facts about the validation stages

What a block that passes a stage satisfies.
-/

namespace VisionCore

open Foundation

theorem liftFault_eq_ok {error α : Type} {x : Except Fault α} {a : α} :
    (liftFault x : Except (Stop error) α) = .ok a ↔ x = .ok a := by
  cases x <;> simp [liftFault]

theorem liftReject_eq_ok {α : Type} {x : Except RejectReason α} {a : α} :
    liftReject x = .ok a ↔ x = .ok a := by
  cases x <;> simp [liftReject]

theorem mapErr_eq_ok {error error' α : Type} {f : error -> error'}
    {x : Except (Stop error) α} {a : α} : mapErr f x = .ok a ↔ x = .ok a := by
  cases x with
  | ok b => simp [mapErr]
  | error stop => cases stop <;> simp [mapErr]

/-- A bound on the timestamps that the future limit lets through. -/
def timestampBound : Nat := 2 ^ 63 + maxFutureTimestampSecs.toNat

theorem addU64_future (P : Platform) {now : UInt64} (hnow : now.toNat < 2 ^ 63) :
    addU64 P now maxFutureTimestampSecs = .ok (now + maxFutureTimestampSecs) := by
  refine addU64_ok P ?_
  have hbound : 2 ^ 63 + maxFutureTimestampSecs.toNat < u64Bound := by decide
  omega

theorem addFuture_toNat {now : UInt64} (hnow : now.toNat < 2 ^ 63) :
    (now + maxFutureTimestampSecs).toNat = now.toNat + maxFutureTimestampSecs.toNat := by
  have hbound : 2 ^ 63 + maxFutureTimestampSecs.toNat < 2 ^ 64 := by decide
  rw [UInt64.toNat_add]
  exact Nat.mod_eq_of_lt (by omega)

/-- Stage 3 orders a block after its parent and bounds its timestamp. -/
theorem checkTimestamp_ok {P : Platform} {now : UInt64} {parent blk : Block}
    (hnow : now.toNat < 2 ^ 63) (h : checkTimestamp P now parent blk = .ok ()) :
    parent.header.timestamp.toNat < blk.header.timestamp.toNat ∧
      blk.header.timestamp.toNat < timestampBound := by
  unfold checkTimestamp at h
  split at h
  · cases h
  · rename_i hlater
    rw [addU64_future P hnow] at h
    rcases bind_eq_ok.mp h with ⟨limit, hlimit, hfinal⟩
    rw [← Except.ok.inj (liftFault_eq_ok.mp hlimit)] at hfinal
    split at hfinal
    · cases hfinal
    · rename_i hearly
      rw [gt_iff_lt, UInt64.lt_iff_toNat_lt, addFuture_toNat hnow] at hearly
      rw [UInt64.le_iff_toNat_le] at hlater
      unfold timestampBound
      omega

/-!
# Sealed blocks
-/

/-- The checks that read the block alone, its proof of work included. -/
structure Sealed (P : Platform) (blk : Block) : Prop where
  structure_ok : checkStructure P blk = .ok ()
  pow_ok : verifyVisionxPow P blk none "" = .ok ()

/-- The expected difficulty and the path only appear in the errors. -/
theorem verifyVisionxPow_ok_congr {P : Platform} {blk : Block}
    {expected expected' : Option UInt64} {path path' : String}
    (h : verifyVisionxPow P blk expected path = .ok ()) :
    verifyVisionxPow P blk expected' path' = .ok () := by
  unfold verifyVisionxPow at h ⊢
  dsimp only at h ⊢
  split at h
  · cases h
  · split at h
    · cases h
    · split at h
      · cases h
      · rename_i htarget hhash
        rw [if_neg htarget, if_neg hhash]

theorem checkPow_ok {P : Platform} {window : List Block} {blk : Block}
    (h : checkPow P window blk = .ok ()) : verifyVisionxPow P blk none "" = .ok () := by
  unfold checkPow at h
  split at h
  · cases h
  · rename_i hverify
    exact verifyVisionxPow_ok_congr hverify

/-!
# Stages 3 to 6
-/

/-- A block that passes stages 3 to 6 with the given post-state. -/
structure ValidInContext (P : Platform) (now : UInt64) (blk parent : Block)
    (window : List Block) (parentState : Except (Stop RejectReason) TxExecutionState)
    (state : TxExecutionState) : Prop where
  timestamp : checkTimestamp P now parent blk = .ok ()
  difficulty : checkDifficulty window blk = .ok ()
  pow : checkPow P window blk = .ok ()
  coinbaseHeight : checkCoinbaseHeight blk = .ok ()
  txIds : checkTxIds P blk = .ok ()
  executes : exists before, parentState = .ok before ∧ executeCandidate P blk before = .ok state

theorem validateInContext_ok {P : Platform} {now : UInt64} {blk parent : Block}
    {window : List Block} {parentState : Except (Stop RejectReason) TxExecutionState}
    {state : TxExecutionState}
    (h : validateInContext P now blk parent window parentState = .ok state) :
    ValidInContext P now blk parent window parentState state := by
  unfold validateInContext at h
  rcases bind_eq_ok.mp h with ⟨_, htimestamp, h⟩
  rcases bind_eq_ok.mp h with ⟨_, hdifficulty, h⟩
  rcases bind_eq_ok.mp h with ⟨_, hpow, h⟩
  rcases bind_eq_ok.mp h with ⟨_, hcoinbase, h⟩
  rcases bind_eq_ok.mp h with ⟨_, hids, h⟩
  rcases bind_eq_ok.mp h with ⟨before, hbefore, hexecute⟩
  exact
    { timestamp := htimestamp
      difficulty := liftReject_eq_ok.mp hdifficulty
      pow := liftReject_eq_ok.mp hpow
      coinbaseHeight := hcoinbase
      txIds := liftReject_eq_ok.mp hids
      executes := ⟨before, hbefore, hexecute⟩ }

theorem validateAgainstParent_ok {P : Platform} {now : UInt64} {g : ChainState} {blk : Block}
    {state : TxExecutionState} (h : validateAgainstParent P now g blk = .ok state) :
    exists parent, resolveBlock g blk.header.parentHash = some parent ∧
      ValidInContext P now blk parent (collectAncestorWindow g blk.header.parentHash)
        (parentStateOf P g blk.header.parentHash) state := by
  unfold validateAgainstParent at h
  split at h
  · cases h
  · rename_i parent hparent
    exact ⟨parent, hparent, validateInContext_ok h⟩

/-- A vetted block is sealed. -/
theorem Vetted.is_sealed {P : Platform} {now : UInt64} {g : ChainState} {blk : Block}
    {candidateCw : Nat} {state : TxExecutionState}
    (h : Vetted P now g blk candidateCw state) : Sealed P blk := by
  rcases validateAgainstParent_ok h.valid with ⟨parent, _, hvalid⟩
  exact ⟨h.structure_ok, checkPow_ok hvalid.pow⟩

end VisionCore
