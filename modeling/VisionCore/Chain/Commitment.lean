import VisionCore.Chain.Supply

/-!
# Commitments to well-formed accounts

Account keys decode, so a state whose keys are account keys has a root.
-/

namespace VisionCore

open Foundation

theorem hexValue_lower {byte : UInt8} (h : isLowerHexByte byte = true) (index : Nat) :
    exists n, hexValue byte index = .ok n := by
  have hrange : (48 ≤ byte.toNat ∧ byte.toNat ≤ 57) ∨ (97 ≤ byte.toNat ∧ byte.toNat ≤ 102) := by
    simpa [isLowerHexByte] using h
  unfold hexValue
  rcases hrange with hdigit | hletter
  · exact ⟨_, if_pos hdigit⟩
  · exact ⟨_, (if_neg (by omega)).trans (if_pos hletter)⟩

theorem hexDecodePairs_lower : forall (index : Nat) (text : Bytes),
    text.all isLowerHexByte = true -> text.length % 2 = 0 ->
      exists bytes, hexDecodePairs index text = .ok bytes ∧ 2 * bytes.length = text.length
  | _, [], _, _ => ⟨[], rfl, rfl⟩
  | _, [_], _, heven => absurd heven (by simp)
  | index, a :: b :: rest, hall, heven => by
      rw [List.all_cons, List.all_cons, Bool.and_eq_true, Bool.and_eq_true] at hall
      rcases hall with ⟨ha, hb, hrest⟩
      have heven' : rest.length % 2 = 0 := by
        simp only [List.length_cons] at heven
        omega
      rcases hexValue_lower ha index with ⟨hi, hhi⟩
      rcases hexValue_lower hb (index + 1) with ⟨lo, hlo⟩
      rcases hexDecodePairs_lower (index + 2) rest hrest heven' with ⟨tail, htail, hlength⟩
      refine ⟨UInt8.ofNat (hi * 16 + lo) :: tail, ?_, ?_⟩
      · unfold hexDecodePairs
        rw [hhi, hlo, htail]
        rfl
      · simp only [List.length_cons]
        omega

theorem hexDecode_lower {text : Bytes} (hall : text.all isLowerHexByte = true)
    (heven : text.length % 2 = 0) :
    exists bytes, hexDecode text = .ok bytes ∧ 2 * bytes.length = text.length := by
  unfold hexDecode
  rw [if_neg (not_not.mpr heven)]
  exact hexDecodePairs_lower 0 text hall heven

theorem not_upper_of_lower {byte : UInt8} (h : isLowerHexByte byte = true) :
    isUpperHexByte byte = false := by
  have hrange : (48 ≤ byte.toNat ∧ byte.toNat ≤ 57) ∨ (97 ≤ byte.toNat ∧ byte.toNat ≤ 102) := by
    simpa [isLowerHexByte] using h
  cases hupper : isUpperHexByte byte with
  | false => rfl
  | true =>
      have hletter : 65 ≤ byte.toNat ∧ byte.toNat ≤ 70 := by simpa [isUpperHexByte] using hupper
      omega

theorem validateAccountKey_ok {key : String} (h : IsAccountKey key) :
    validateAccountKey key = .ok () := by
  have hlower := List.all_eq_true.mp h.2
  have hupper : (asBytes key).any isUpperHexByte = false := by
    rw [List.any_eq_false]
    intro byte hbyte
    rw [not_upper_of_lower (hlower byte hbyte)]
    exact Bool.false_ne_true
  have hother : ((asBytes key).any fun byte => !isUpperHexByte byte && !isLowerHexByte byte) =
      false := by
    rw [List.any_eq_false]
    intro byte hbyte
    rw [hlower byte hbyte]
    simp
  unfold validateAccountKey
  rw [if_neg (not_not.mpr h.1)]
  dsimp only
  rw [hupper, hother]
  rfl

theorem decodeAccountKey_ok {key : String} (h : IsAccountKey key) :
    exists decoded, decodeAccountKey key = .ok decoded := by
  have hlength : (asBytes key).length = 64 := h.1
  rcases hexDecode_lower h.2 (by rw [hlength]) with ⟨bytes, hdecode, hhalf⟩
  have hbytes : bytes.length = 32 := by omega
  unfold decodeAccountKey
  rw [validateAccountKey_ok h]
  dsimp only [bind, Except.bind]
  rw [hdecode]
  exact ⟨_, dif_pos hbytes⟩

theorem appendEntries_ok (width : Nat) {entries : List (String × Nat)}
    (h : forall entry, entry ∈ entries -> IsAccountKey entry.1) :
    exists bytes, appendEntries width entries = .ok bytes := by
  induction entries with
  | nil => exact ⟨[], rfl⟩
  | cons entry rest ih =>
      rcases decodeAccountKey_ok (h entry List.mem_cons_self) with ⟨decoded, hdecoded⟩
      rcases ih (fun e he => h e (List.mem_cons_of_mem _ he)) with ⟨tail, htail⟩
      unfold appendEntries
      rw [hdecoded, htail]
      exact ⟨_, rfl⟩

/-- A state whose keys are account keys has a root. -/
theorem AccountKeys.computeStateRoot (P : Platform) {state : TxExecutionState}
    (h : AccountKeys state) :
    exists root, VisionCore.computeStateRoot P state.balances state.nonces = .ok root := by
  have hbalances : forall entry, entry ∈ balanceEntries state.balances -> IsAccountKey entry.1 := by
    intro entry hentry
    rcases entry with ⟨key, value⟩
    have hmem := (List.mem_filter.mp hentry).1
    rw [Std.ExtTreeMap.mem_toList_iff_getElem?_eq_some] at hmem
    exact h.balances key (Std.ExtTreeMap.mem_iff_isSome_getElem?.mpr (by rw [hmem]; rfl))
  have hnonces : forall entry, entry ∈ nonceEntries state.nonces -> IsAccountKey entry.1 := by
    intro entry hentry
    rcases List.mem_map.mp (List.mem_filter.mp hentry).1 with ⟨⟨key, value⟩, hmem, rfl⟩
    rw [Std.ExtTreeMap.mem_toList_iff_getElem?_eq_some] at hmem
    exact h.nonces key (Std.ExtTreeMap.mem_iff_isSome_getElem?.mpr (by rw [hmem]; rfl))
  rcases appendEntries_ok 16 hbalances with ⟨balancePart, hbalancePart⟩
  rcases appendEntries_ok 8 hnonces with ⟨noncePart, hnoncePart⟩
  unfold VisionCore.computeStateRoot canonicalStateVector appendBalances appendNonces
  dsimp only
  rw [hbalancePart, hnoncePart]
  exact ⟨_, rfl⟩

end VisionCore
