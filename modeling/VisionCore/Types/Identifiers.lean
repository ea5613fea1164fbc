import VisionCore.Types.Transaction

/-!
# What an identifier determines

The encodings below the canonical identifier are injective on the values that
occur, so that two transactions with one identifier have one sender and nonce.
-/

namespace VisionCore

/-!
# Integers and text
-/

theorem toLeBytes_inj {width n m : Nat} (hn : n < 256 ^ width) (hm : m < 256 ^ width)
    (h : toLeBytes width n = toLeBytes width m) : n = m := by
  induction width generalizing n m with
  | zero =>
      rw [pow_zero] at hn hm
      omega
  | succ width ih =>
      unfold toLeBytes at h
      rcases List.cons.inj h with ⟨hhead, htail⟩
      have hdigit : n % 256 = m % 256 := by
        have hbyte := congrArg UInt8.toNat hhead
        simpa [UInt8.toNat_ofNat] using hbyte
      have hrest : n / 256 = m / 256 := by
        apply ih _ _ htail
        · exact Nat.div_lt_of_lt_mul (by rwa [pow_succ, Nat.mul_comm] at hn)
        · exact Nat.div_lt_of_lt_mul (by rwa [pow_succ, Nat.mul_comm] at hm)
      omega

theorem fromBeBytes_append (bytes : Bytes) (byte : UInt8) :
    fromBeBytes (bytes ++ [byte]) = fromBeBytes bytes * 256 + byte.toNat := by
  simp [fromBeBytes]

theorem fromBeBytes_toBeBytes {width n : Nat} (hn : n < 256 ^ width) :
    fromBeBytes (toBeBytes width n) = n := by
  induction width generalizing n with
  | zero =>
      rw [pow_zero] at hn
      have hzero : n = 0 := by omega
      rw [hzero]
      rfl
  | succ width ih =>
      have hrest : n / 256 < 256 ^ width :=
        Nat.div_lt_of_lt_mul (by rwa [pow_succ, Nat.mul_comm] at hn)
      have hinit := ih hrest
      unfold toBeBytes at hinit ⊢
      unfold toLeBytes
      rw [List.reverse_cons, fromBeBytes_append, hinit, UInt8.toNat_ofNat']
      omega

theorem asBytes_inj {s t : String} (h : asBytes s = asBytes t) : s = t := by
  unfold asBytes at h
  apply String.toByteArray_inj.mp
  apply ByteArray.ext
  exact Array.toList_inj.mp h

theorem hexDigit_inj {n m : Nat} (hn : n < 16) (hm : m < 16) (h : hexDigit n = hexDigit m) :
    n = m := by
  have hall : forall i, i < 16 -> forall j, j < 16 -> hexDigit i = hexDigit j -> i = j := by
    decide
  exact hall n hn m hm h

theorem hexEncode_inj {bytes bytes' : Bytes} (h : hexEncode bytes = hexEncode bytes') :
    bytes = bytes' := by
  unfold hexEncode at h
  replace h := String.ofList_injective h
  induction bytes generalizing bytes' with
  | nil =>
      cases bytes' with
      | nil => rfl
      | cons b rest => simp at h
  | cons a rest ih =>
      cases bytes' with
      | nil => simp at h
      | cons b rest' =>
          simp only [List.flatMap_cons, List.cons_append, List.nil_append, List.cons.injEq] at h
          rcases h with ⟨hhigh, hlow, htail⟩
          have ha := a.toNat_lt
          have hb := b.toNat_lt
          have hhigh' := hexDigit_inj (by omega) (by omega) hhigh
          have hlow' := hexDigit_inj (by omega) (by omega) hlow
          have hbyte : a = b := UInt8.toNat_inj.mp (by omega)
          rw [hbyte, ih htail]

/-!
# Payloads
-/

theorem bincodeString_append_inj {s t : String} {u v : Bytes} (hs : byteLen s < u64Bound)
    (ht : byteLen t < u64Bound) (h : bincodeString s ++ u = bincodeString t ++ v) :
    s = t ∧ u = v := by
  unfold bincodeString bincodeBytes at h
  rw [List.append_assoc, List.append_assoc] at h
  rcases List.append_inj h (by simp) with ⟨hlength, hrest⟩
  have hlen : (asBytes s).length = (asBytes t).length := toLeBytes_inj hs ht hlength
  rcases List.append_inj hrest hlen with ⟨htext, htail⟩
  exact ⟨asBytes_inj htext, htail⟩

/-- Two transactions with one payload have one nonce and one sender. -/
theorem canonicalUnsignedPayload_inj {tx tx' : Tx} (hlen : byteLen tx.senderPubkey < u64Bound)
    (hlen' : byteLen tx'.senderPubkey < u64Bound)
    (h : canonicalUnsignedPayload tx = canonicalUnsignedPayload tx') :
    tx.nonce = tx'.nonce ∧ tx.senderPubkey = tx'.senderPubkey := by
  unfold canonicalUnsignedPayload Tx.bincode bincodeU64 at h
  simp only [List.append_assoc] at h
  rcases List.append_inj h (by simp) with ⟨hnonce, hrest⟩
  have hvalue := toLeBytes_inj tx.nonce.toNat_lt tx'.nonce.toNat_lt hnonce
  exact ⟨UInt64.toNat_inj.mp hvalue, (bincodeString_append_inj hlen hlen' hrest).1⟩

/-- A serialised transaction is longer than its sender's key. -/
theorem byteLen_senderPubkey_le (tx : Tx) : byteLen tx.senderPubkey ≤ serializedTxSize tx := by
  unfold serializedTxSize Tx.bincode bincodeString bincodeBytes byteLen
  simp only [List.length_append]
  omega

/-- No two of the transactions share the hash of different payloads. -/
def IdsBind (P : Platform) (txs : List Tx) : Prop :=
  forall tx tx', tx ∈ txs -> tx' ∈ txs ->
    P.blake3 (canonicalUnsignedPayload tx) = P.blake3 (canonicalUnsignedPayload tx') ->
      canonicalUnsignedPayload tx = canonicalUnsignedPayload tx'

theorem IdsBind.payload_eq {P : Platform} {txs : List Tx} (h : IdsBind P txs) {tx tx' : Tx}
    (htx : tx ∈ txs) (htx' : tx' ∈ txs) (hid : canonicalTxId P tx = canonicalTxId P tx') :
    canonicalUnsignedPayload tx = canonicalUnsignedPayload tx' := by
  apply h tx tx' htx htx'
  have hbytes := hexEncode_inj hid
  cases hleft : P.blake3 (canonicalUnsignedPayload tx) with
  | mk left _ =>
      cases hright : P.blake3 (canonicalUnsignedPayload tx') with
      | mk right _ =>
          rw [hleft, hright] at hbytes
          subst hbytes
          rfl

end VisionCore
