import VisionCore.Chain.Commitment
import VisionCore.Types.Binding

/-!
# What the state vector determines

The vector of a state is a header and two counted sections of entries of one
width.  Keys are read back from their digits, so a section determines its entries,
and the entries determine the map up to the entries that are zero.
-/

namespace VisionCore

open Std
open Foundation

/-!
# Keys
-/

theorem hexValue_lower_inv {byte : UInt8} {index n : Nat} (h : isLowerHexByte byte = true)
    (hvalue : hexValue byte index = .ok n) : n < 16 ∧ byte = hexByte n := by
  have hrange : (48 ≤ byte.toNat ∧ byte.toNat ≤ 57) ∨ (97 ≤ byte.toNat ∧ byte.toNat ≤ 102) := by
    simpa [isLowerHexByte] using h
  unfold hexValue at hvalue
  unfold hexByte
  rcases hrange with hdigit | hletter
  · rw [if_pos hdigit] at hvalue
    cases hvalue
    refine ⟨by omega, ?_⟩
    rw [if_pos (by omega), Nat.add_sub_cancel' hdigit.1, UInt8.ofNat_toNat]
  · rw [if_neg (by omega), if_pos hletter] at hvalue
    cases hvalue
    refine ⟨by omega, ?_⟩
    rw [if_neg (by omega), Nat.add_sub_cancel' (by omega), UInt8.ofNat_toNat]

/-- Lower-case digits are the digits of the bytes that they decode to. -/
theorem hexDecodePairs_lower_inv : forall {index : Nat} {text bytes : Bytes},
    text.all isLowerHexByte = true -> hexDecodePairs index text = .ok bytes ->
      text = bytes.flatMap fun byte => [hexByte (byte.toNat / 16), hexByte (byte.toNat % 16)]
  | _, [], _, _, h => by
      cases h
      rfl
  | _, [_], _, _, h => by cases h
  | index, a :: b :: rest, bytes, hall, h => by
      rw [List.all_cons, List.all_cons, Bool.and_eq_true, Bool.and_eq_true] at hall
      rcases hall with ⟨ha, hb, hrest⟩
      unfold hexDecodePairs at h
      rcases bind_eq_ok.mp h with ⟨hi, hhi, h⟩
      rcases bind_eq_ok.mp h with ⟨lo, hlo, h⟩
      rcases bind_eq_ok.mp h with ⟨tail, htail, h⟩
      cases h
      rcases hexValue_lower_inv ha hhi with ⟨hhi', rfl⟩
      rcases hexValue_lower_inv hb hlo with ⟨hlo', rfl⟩
      have hbyte : (UInt8.ofNat (hi * 16 + lo)).toNat = hi * 16 + lo := by
        rw [UInt8.toNat_ofNat', Nat.mod_eq_of_lt (by omega)]
      have hhigh : (hi * 16 + lo) / 16 = hi := by omega
      have hlow : (hi * 16 + lo) % 16 = lo := by omega
      rw [List.flatMap_cons, hbyte, hhigh, hlow, ← hexDecodePairs_lower_inv hrest htail]
      rfl

theorem validateAccountKey_eq_ok {key : String} :
    validateAccountKey key = .ok () ↔ IsAccountKey key := by
  constructor
  · intro h
    unfold validateAccountKey at h
    split at h
    · cases h
    · rename_i hlength
      dsimp only at h
      split at h
      · cases h
      · rename_i hupper
        split at h
        · cases h
        · rename_i hother
          refine ⟨not_not.mp hlength, List.all_eq_true.mpr ?_⟩
          intro byte hbyte
          by_contra hlower
          refine hother (List.any_eq_true.mpr ⟨byte, hbyte, ?_⟩)
          have hnot : ¬isUpperHexByte byte = true :=
            fun h' => hupper (List.any_eq_true.mpr ⟨byte, hbyte, h'⟩)
          simp [Bool.eq_false_iff.mpr hnot, Bool.eq_false_iff.mpr hlower]
  · exact validateAccountKey_ok

/-- A key that decodes is the text of what it decodes to. -/
theorem decodeAccountKey_eq {key : String} {decoded : U256}
    (h : decodeAccountKey key = .ok decoded) :
    IsAccountKey key ∧ key = hexEncode decoded.bytes := by
  unfold decodeAccountKey at h
  rcases bind_eq_ok.mp h with ⟨_, hvalid, h⟩
  have hkey := validateAccountKey_eq_ok.mp hvalid
  refine ⟨hkey, ?_⟩
  split at h
  · cases h
  · rename_i bytes hdecode
    split at h
    · cases h
      unfold hexDecode at hdecode
      split at hdecode
      · cases hdecode
      · apply asBytes_inj
        rw [asBytes_hexEncode]
        exact hexDecodePairs_lower_inv hkey.2 hdecode
    · cases h

/-!
# Sections
-/

theorem appendEntries_eq_ok {width : Nat} {entries : List (String × Nat)} :
    (exists bytes, appendEntries width entries = .ok bytes) ↔
      forall entry, entry ∈ entries -> IsAccountKey entry.1 := by
  constructor
  · induction entries with
    | nil => simp
    | cons entry rest ih =>
        rintro ⟨bytes, h⟩
        rcases bind_eq_ok.mp h with ⟨decoded, hdecoded, h⟩
        rcases bind_eq_ok.mp h with ⟨tail, htail, _⟩
        rw [List.forall_mem_cons]
        exact ⟨(decodeAccountKey_eq hdecoded).1, ih ⟨tail, htail⟩⟩
  · exact appendEntries_ok width

theorem appendEntries_length {width : Nat} {entries : List (String × Nat)} {bytes : Bytes}
    (h : appendEntries width entries = .ok bytes) :
    bytes.length = (32 + width) * entries.length := by
  induction entries generalizing bytes with
  | nil =>
      cases h
      rfl
  | cons entry rest ih =>
      rcases bind_eq_ok.mp h with ⟨decoded, hdecoded, h⟩
      rcases bind_eq_ok.mp h with ⟨tail, htail, h⟩
      cases h
      rw [List.length_append, List.length_append, decoded.length_eq, toLeBytes_length, ih htail,
        List.length_cons, Nat.mul_succ]
      omega

theorem appendEntries_inj {width : Nat} {entries entries' : List (String × Nat)} {bytes : Bytes}
    (hlength : entries.length = entries'.length)
    (hbound : forall entry, entry ∈ entries -> entry.2 < 256 ^ width)
    (hbound' : forall entry, entry ∈ entries' -> entry.2 < 256 ^ width)
    (h : appendEntries width entries = .ok bytes) (h' : appendEntries width entries' = .ok bytes) :
    entries = entries' := by
  induction entries generalizing entries' bytes with
  | nil => exact (List.length_eq_zero_iff.mp hlength.symm).symm
  | cons entry rest ih =>
      cases entries' with
      | nil => cases hlength
      | cons entry' rest' =>
          rcases entry with ⟨key, value⟩
          rcases entry' with ⟨key', value'⟩
          rcases bind_eq_ok.mp h with ⟨decoded, hdecoded, h⟩
          rcases bind_eq_ok.mp h with ⟨tail, htail, h⟩
          rcases bind_eq_ok.mp h' with ⟨decoded', hdecoded', h'⟩
          rcases bind_eq_ok.mp h' with ⟨tail', htail', h'⟩
          cases h
          have hbytes := Except.ok.inj h'
          rw [List.append_assoc, List.append_assoc] at hbytes
          rcases List.append_inj hbytes (decoded'.length_eq.trans decoded.length_eq.symm) with
            ⟨hkey, hbytes⟩
          rcases List.append_inj hbytes (by simp) with ⟨hvalue, hrest⟩
          have hvalues := toLeBytes_inj (hbound' _ List.mem_cons_self)
            (hbound _ List.mem_cons_self) hvalue
          have hkeys : key = key' := by
            rw [(decodeAccountKey_eq hdecoded).2, (decodeAccountKey_eq hdecoded').2, hkey]
          have htails := ih (Nat.succ.inj hlength)
            (fun entry hentry => hbound entry (List.mem_cons_of_mem _ hentry))
            (fun entry hentry => hbound' entry (List.mem_cons_of_mem _ hentry)) htail
            (hrest ▸ htail')
          rw [hkeys, htails]
          exact congrArg (fun v => (key', v) :: rest') hvalues.symm

/-- A counted section and what follows it can be told apart. -/
theorem section_inj {width : Nat} {entries entries' : List (String × Nat)}
    {body body' rest rest' : Bytes} (hcount : entries.length < u64Bound)
    (hcount' : entries'.length < u64Bound)
    (hbound : forall entry, entry ∈ entries -> entry.2 < 256 ^ width)
    (hbound' : forall entry, entry ∈ entries' -> entry.2 < 256 ^ width)
    (h : appendEntries width entries = .ok body) (h' : appendEntries width entries' = .ok body')
    (heq : toLeBytes 8 entries.length ++ body ++ rest =
      toLeBytes 8 entries'.length ++ body' ++ rest') : entries = entries' ∧ rest = rest' := by
  rw [List.append_assoc, List.append_assoc] at heq
  rcases List.append_inj heq (by simp) with ⟨hlengths, heq⟩
  have hlength : entries.length = entries'.length := toLeBytes_inj hcount hcount' hlengths
  have hbodies : body.length = body'.length := by
    rw [appendEntries_length h, appendEntries_length h', hlength]
  rcases List.append_inj heq hbodies with ⟨rfl, hrest⟩
  exact ⟨appendEntries_inj hlength hbound hbound' h h', hrest⟩

/-!
# Entries
-/

theorem mem_balanceEntries {balances : ExtTreeMap String Nat} {entry : String × Nat} :
    entry ∈ balanceEntries balances ↔ balances[entry.1]? = some entry.2 ∧ entry.2 ≠ 0 := by
  unfold balanceEntries
  rw [List.mem_filter, bne_iff_ne, ExtTreeMap.mem_toList_iff_getElem?_eq_some]

theorem mem_nonceEntries {nonces : ExtTreeMap String UInt64} {entry : String × Nat} :
    entry ∈ nonceEntries nonces ↔
      exists nonce : UInt64, nonces[entry.1]? = some nonce ∧ nonce ≠ 0 ∧ entry.2 = nonce.toNat := by
  unfold nonceEntries
  rw [List.mem_filter, bne_iff_ne, List.mem_map]
  constructor
  · rintro ⟨⟨⟨key, nonce⟩, hmem, rfl⟩, hne⟩
    rw [ExtTreeMap.mem_toList_iff_getElem?_eq_some] at hmem
    exact ⟨nonce, hmem, fun hzero => hne (congrArg UInt64.toNat hzero), rfl⟩
  · rcases entry with ⟨key, value⟩
    rintro ⟨nonce, hslot, hne, rfl⟩
    refine ⟨⟨(key, nonce), ExtTreeMap.mem_toList_iff_getElem?_eq_some.mpr hslot, rfl⟩, ?_⟩
    intro hzero
    exact hne (UInt64.toNat_inj.mp hzero)

theorem toNat_mem_nonceEntries {nonces : ExtTreeMap String UInt64} {key : String}
    {nonce : UInt64} :
    (key, nonce.toNat) ∈ nonceEntries nonces ↔ nonces[key]? = some nonce ∧ nonce ≠ 0 := by
  rw [mem_nonceEntries]
  constructor
  · rintro ⟨other, hslot, hne, hvalue⟩
    rw [UInt64.toNat_inj.mp hvalue]
    exact ⟨hslot, hne⟩
  · rintro ⟨hslot, hne⟩
    exact ⟨nonce, hslot, hne, rfl⟩

/-- A key other than 64 lower-case digits that holds something. -/
def HoldsBadKey (balances : ExtTreeMap String Nat) (nonces : ExtTreeMap String UInt64) : Prop :=
  (exists key amount, balances[key]? = some amount ∧ amount ≠ 0 ∧ ¬IsAccountKey key) ∨
    (exists key nonce, nonces[key]? = some nonce ∧ nonce ≠ 0 ∧ ¬IsAccountKey key)

theorem canonicalStateVector_eq_ok {balances : ExtTreeMap String Nat}
    {nonces : ExtTreeMap String UInt64} {vector : Bytes}
    (h : canonicalStateVector balances nonces = .ok vector) :
    exists body body', appendEntries 16 (balanceEntries balances) = .ok body ∧
      appendEntries 8 (nonceEntries nonces) = .ok body' ∧
      vector = encodeHeader ++ (toLeBytes 8 (balanceEntries balances).length ++ body) ++
        (toLeBytes 8 (nonceEntries nonces).length ++ body') := by
  rcases bind_eq_ok.mp h with ⟨balancePart, hbalances, h⟩
  rcases bind_eq_ok.mp h with ⟨noncePart, hnonces, h⟩
  rcases bind_eq_ok.mp hbalances with ⟨body, hbody, hbalances⟩
  rcases bind_eq_ok.mp hnonces with ⟨body', hbody', hnonces⟩
  cases hbalances
  cases hnonces
  cases h
  exact ⟨body, body', hbody, hbody', rfl⟩

theorem canonicalStateVector_total {balances : ExtTreeMap String Nat}
    {nonces : ExtTreeMap String UInt64} :
    (exists vector, canonicalStateVector balances nonces = .ok vector) ↔
      ¬HoldsBadKey balances nonces := by
  constructor
  · rintro ⟨vector, h⟩ hbad
    rcases canonicalStateVector_eq_ok h with ⟨body, body', hbody, hbody', _⟩
    rcases hbad with ⟨key, amount, hslot, hne, hkey⟩ | ⟨key, nonce, hslot, hne, hkey⟩
    · exact hkey (appendEntries_eq_ok.mp ⟨body, hbody⟩ (key, amount)
        (mem_balanceEntries.mpr ⟨hslot, hne⟩))
    · exact hkey (appendEntries_eq_ok.mp ⟨body', hbody'⟩ (key, nonce.toNat)
        (mem_nonceEntries.mpr ⟨nonce, hslot, hne, rfl⟩))
  · intro hgood
    have hbalances : forall entry, entry ∈ balanceEntries balances -> IsAccountKey entry.1 := by
      intro entry hentry
      rcases mem_balanceEntries.mp hentry with ⟨hslot, hne⟩
      by_contra hkey
      exact hgood (Or.inl ⟨_, _, hslot, hne, hkey⟩)
    have hnonces : forall entry, entry ∈ nonceEntries nonces -> IsAccountKey entry.1 := by
      intro entry hentry
      rcases mem_nonceEntries.mp hentry with ⟨nonce, hslot, hne, _⟩
      by_contra hkey
      exact hgood (Or.inr ⟨_, _, hslot, hne, hkey⟩)
    rcases appendEntries_ok 16 hbalances with ⟨body, hbody⟩
    rcases appendEntries_ok 8 hnonces with ⟨body', hbody'⟩
    have hfirst : appendBalances balances =
        .ok (toLeBytes 8 (balanceEntries balances).length ++ body) :=
      bind_eq_ok.mpr ⟨body, hbody, rfl⟩
    have hsecond : appendNonces nonces =
        .ok (toLeBytes 8 (nonceEntries nonces).length ++ body') :=
      bind_eq_ok.mpr ⟨body', hbody', rfl⟩
    exact ⟨_, bind_eq_ok.mpr ⟨_, hfirst, bind_eq_ok.mpr ⟨_, hsecond, rfl⟩⟩⟩

/-!
# Account maps
-/

/-- The maps of an account state: amounts are below 2^128 and a map has fewer than
2^64 entries. -/
structure AccountMaps where
  balances : ExtTreeMap String Nat
  nonces : ExtTreeMap String UInt64
  amount_lt : forall {key : String} {amount : Nat}, balances[key]? = some amount ->
    amount < u128Bound
  balances_size : balances.size < u64Bound
  nonces_size : nonces.size < u64Bound

namespace AccountMaps

def vector (a : AccountMaps) : Except StateRootError Bytes :=
  canonicalStateVector a.balances a.nonces

def stateRoot (P : Platform) (a : AccountMaps) : Except StateRootError String :=
  computeStateRoot P a.balances a.nonces

/-- The maps have the same entries other than zero. -/
structure Agree (a b : AccountMaps) : Prop where
  balances : forall (key : String) (amount : Nat), amount ≠ 0 ->
    (a.balances[key]? = some amount ↔ b.balances[key]? = some amount)
  nonces : forall (key : String) (nonce : UInt64), nonce ≠ 0 ->
    (a.nonces[key]? = some nonce ↔ b.nonces[key]? = some nonce)

variable {P : Platform} {a b : AccountMaps}

theorem agree_iff : a.Agree b ↔
    SameAccounts { balances := a.balances, nonces := a.nonces }
      { balances := b.balances, nonces := b.nonces } := by
  constructor
  · intro h
    exact ⟨EqualUpTo.iff_getElem?.mpr h.balances, EqualUpTo.iff_getElem?.mpr h.nonces⟩
  · intro h
    exact ⟨EqualUpTo.iff_getElem?.mp h.balances, EqualUpTo.iff_getElem?.mp h.nonces⟩

theorem balanceEntries_length (a : AccountMaps) : (balanceEntries a.balances).length < u64Bound := by
  have hfilter := List.length_filter_le (fun entry : String × Nat => entry.2 != 0) a.balances.toList
  rw [ExtTreeMap.length_toList] at hfilter
  exact Nat.lt_of_le_of_lt hfilter a.balances_size

theorem nonceEntries_length (a : AccountMaps) : (nonceEntries a.nonces).length < u64Bound := by
  have hfilter := List.length_filter_le (fun entry : String × Nat => entry.2 != 0)
    (a.nonces.toList.map fun entry => (entry.1, entry.2.toNat))
  rw [List.length_map, ExtTreeMap.length_toList] at hfilter
  exact Nat.lt_of_le_of_lt hfilter a.nonces_size

theorem balance_lt (a : AccountMaps) {entry : String × Nat}
    (h : entry ∈ balanceEntries a.balances) : entry.2 < 256 ^ 16 :=
  a.amount_lt (mem_balanceEntries.mp h).1

theorem nonce_lt (a : AccountMaps) {entry : String × Nat}
    (h : entry ∈ nonceEntries a.nonces) : entry.2 < 256 ^ 8 := by
  rcases mem_nonceEntries.mp h with ⟨nonce, _, _, hvalue⟩
  rw [hvalue]
  exact nonce.toNat_lt

/-- Two states with one vector have the same entries. -/
theorem agree_of_vector {vector : Bytes} (ha : a.vector = .ok vector)
    (hb : b.vector = .ok vector) : a.Agree b := by
  rcases canonicalStateVector_eq_ok ha with ⟨balancesA, noncesA, hbalancesA, hnoncesA, hvectorA⟩
  rcases canonicalStateVector_eq_ok hb with ⟨balancesB, noncesB, hbalancesB, hnoncesB, hvectorB⟩
  have heq := hvectorA.symm.trans hvectorB
  rw [List.append_assoc, List.append_assoc] at heq
  have heq := List.append_cancel_left heq
  rcases section_inj a.balanceEntries_length b.balanceEntries_length (fun _ => a.balance_lt)
    (fun _ => b.balance_lt) hbalancesA hbalancesB heq with ⟨hbalances, hrest⟩
  have hsame : balanceEntries a.balances = balanceEntries b.balances ∧
      nonceEntries a.nonces = nonceEntries b.nonces := by
    refine ⟨hbalances, ?_⟩
    have hpadded : toLeBytes 8 (nonceEntries a.nonces).length ++ noncesA ++ [] =
        toLeBytes 8 (nonceEntries b.nonces).length ++ noncesB ++ [] := by
      rw [List.append_nil, List.append_nil]
      exact hrest
    exact (section_inj a.nonceEntries_length b.nonceEntries_length (fun _ => a.nonce_lt)
      (fun _ => b.nonce_lt) hnoncesA hnoncesB hpadded).1
  constructor
  · intro key amount hne
    have hmem : (key, amount) ∈ balanceEntries a.balances ↔
        (key, amount) ∈ balanceEntries b.balances := by rw [hsame.1]
    rw [mem_balanceEntries, mem_balanceEntries] at hmem
    simpa [hne] using hmem
  · intro key nonce hne
    have hmem : (key, nonce.toNat) ∈ nonceEntries a.nonces ↔
        (key, nonce.toNat) ∈ nonceEntries b.nonces := by rw [hsame.2]
    rw [toNat_mem_nonceEntries, toNat_mem_nonceEntries] at hmem
    simpa [hne] using hmem

theorem stateRoot_of_agree (P : Platform) (h : a.Agree b) : a.stateRoot P = b.stateRoot P :=
  computeStateRoot_same (agree_iff.mp h)

theorem vector_of_agree (h : a.Agree b) : a.vector = b.vector :=
  canonicalStateVector_same (agree_iff.mp h)

theorem vector_fails_iff (a : AccountMaps) :
    (exists e, a.vector = .error e) ↔ HoldsBadKey a.balances a.nonces := by
  rw [← not_iff_not, ← canonicalStateVector_total]
  constructor
  · intro hnone
    cases hvector : a.vector with
    | error e => exact absurd ⟨e, hvector⟩ hnone
    | ok vector => exact ⟨vector, hvector⟩
  · rintro ⟨vector, hvector⟩ ⟨e, herror⟩
    have heq := hvector.symm.trans herror
    cases heq

theorem stateRoot_ok {vector : Bytes} (h : a.vector = .ok vector) :
    a.stateRoot P = .ok (hexEncode (P.blake3 vector).bytes) :=
  bind_eq_ok.mpr ⟨vector, h, rfl⟩

/-- The vector fails only on a key that does not decode and holds something, and two
vectors are equal exactly when the states are, up to zero entries.  So is the root,
unless the two vectors collide. -/
theorem commitment_faithful (P : Platform) (a b : AccountMaps) :
    ((exists e, a.vector = .error e) ↔ HoldsBadKey a.balances a.nonces) ∧
      (forall va vb, a.vector = .ok va -> b.vector = .ok vb ->
        (va = vb ↔ a.Agree b) ∧
          ((P.blake3 va = P.blake3 vb -> va = vb) ->
            (a.stateRoot P = b.stateRoot P ↔ a.Agree b))) ∧
      (a.Agree b -> a.stateRoot P = b.stateRoot P) := by
  refine ⟨a.vector_fails_iff, ?_, stateRoot_of_agree P⟩
  intro va vb ha hb
  have hvectors : va = vb ↔ a.Agree b := by
    constructor
    · rintro rfl
      exact agree_of_vector ha hb
    · intro h
      rw [vector_of_agree h, hb] at ha
      exact (Except.ok.inj ha).symm
  refine ⟨hvectors, fun hcollision => ⟨?_, stateRoot_of_agree P⟩⟩
  intro hroots
  rw [stateRoot_ok ha, stateRoot_ok hb] at hroots
  exact hvectors.mp (hcollision (blake3_eq_of_hexEncode (Except.ok.inj hroots)))

end AccountMaps

end VisionCore
