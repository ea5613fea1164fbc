import VisionCore.Pow.VisionX
import VisionCore.Types.Identifiers

/-!
# What a block hash determines

Canonical hash texts, transaction roots, payloads and proof-of-work preimages are
injective encodings of what they cover.
-/

namespace VisionCore

/-!
# Hash texts
-/

theorem asBytes_ofList (cs : List Char) :
    asBytes (String.ofList cs) = cs.flatMap String.utf8EncodeChar := by
  unfold asBytes
  rw [String.toUTF8_eq_toByteArray, String.toByteArray_ofList]
  simp [List.utf8Encode]

/-- The byte of a lower-case hexadecimal digit. -/
def hexByte (n : Nat) : UInt8 :=
  UInt8.ofNat (if n < 10 then 48 + n else 87 + n)

theorem utf8EncodeChar_hexDigit {n : Nat} (hn : n < 16) :
    String.utf8EncodeChar (hexDigit n) = [hexByte n] := by
  have hall : forall i, i < 16 -> String.utf8EncodeChar (hexDigit i) = [hexByte i] := by decide
  exact hall n hn

theorem hexValue_hexByte {n : Nat} (hn : n < 16) (index : Nat) :
    hexValue (hexByte n) index = .ok n := by
  have hall : forall i, i < 16 ->
      (48 ≤ (hexByte i).toNat ∧ (hexByte i).toNat ≤ 57 ∧ (hexByte i).toNat - 48 = i) ∨
        (¬(hexByte i).toNat ≤ 57 ∧ 97 ≤ (hexByte i).toNat ∧ (hexByte i).toNat ≤ 102 ∧
          (hexByte i).toNat - 87 = i) := by decide
  unfold hexValue
  rcases hall n hn with ⟨hlow, hhigh, hvalue⟩ | ⟨hnot, hlow, hhigh, hvalue⟩
  · rw [if_pos ⟨hlow, hhigh⟩, hvalue]
  · rw [if_neg fun hdigit => hnot hdigit.2, if_pos ⟨hlow, hhigh⟩, hvalue]

theorem asBytes_hexEncode (bytes : Bytes) :
    asBytes (hexEncode bytes) =
      bytes.flatMap fun byte => [hexByte (byte.toNat / 16), hexByte (byte.toNat % 16)] := by
  unfold hexEncode
  rw [asBytes_ofList, List.flatMap_assoc]
  congr 1
  funext byte
  have hbyte := byte.toNat_lt
  rw [List.flatMap_cons, List.flatMap_cons, List.flatMap_nil, List.append_nil,
    utf8EncodeChar_hexDigit (Nat.div_lt_of_lt_mul hbyte),
    utf8EncodeChar_hexDigit (Nat.mod_lt _ (by decide))]
  rfl

theorem asBytes_hexEncode_length (bytes : Bytes) :
    (asBytes (hexEncode bytes)).length = 2 * bytes.length := by
  rw [asBytes_hexEncode]
  induction bytes with
  | nil => rfl
  | cons byte rest ih =>
      rw [List.flatMap_cons, List.length_append, ih, List.length_cons]
      exact (Nat.mul_add_one 2 rest.length ▸ Nat.add_comm _ _)

theorem hexDecodePairs_hexEncode (bytes : Bytes) (index : Nat) :
    hexDecodePairs index (bytes.flatMap fun byte =>
      [hexByte (byte.toNat / 16), hexByte (byte.toNat % 16)]) = .ok bytes := by
  induction bytes generalizing index with
  | nil => rfl
  | cons byte rest ih =>
      have hbyte := byte.toNat_lt
      have hvalue : UInt8.ofNat (byte.toNat / 16 * 16 + byte.toNat % 16) = byte := by
        rw [Nat.div_add_mod', UInt8.ofNat_toNat]
      rw [List.flatMap_cons, List.cons_append, List.cons_append, List.nil_append]
      unfold hexDecodePairs
      rw [hexValue_hexByte (Nat.div_lt_of_lt_mul hbyte),
        hexValue_hexByte (Nat.mod_lt _ (by decide)), ih]
      exact congrArg (fun b => Except.ok (b :: rest)) hvalue

theorem hexDecode_hexEncode (bytes : Bytes) :
    hexDecode (asBytes (hexEncode bytes)) = .ok bytes := by
  have heven : ¬(asBytes (hexEncode bytes)).length % 2 ≠ 0 := by
    rw [asBytes_hexEncode_length, Nat.mul_mod_right]
    exact not_not.mpr rfl
  unfold hexDecode
  rw [if_neg heven, asBytes_hexEncode]
  exact hexDecodePairs_hexEncode bytes 0

/-- A canonical hash text has no prefix to strip. -/
theorem stripHexPrefix_hexEncode (bytes : Bytes) :
    stripHexPrefix (asBytes (hexEncode bytes)) = asBytes (hexEncode bytes) := by
  have hdigit : forall i, i < 16 -> hexByte i ≠ 120 := by decide
  rw [asBytes_hexEncode]
  cases bytes with
  | nil => rfl
  | cons byte rest =>
      rw [List.flatMap_cons, List.cons_append, List.cons_append]
      unfold stripHexPrefix
      split
      · rename_i hshape
        have hsecond := (List.cons.inj (List.cons.inj hshape).2).1
        exact absurd hsecond (hdigit _ (Nat.mod_lt _ (by decide)))
      · rfl

theorem decodeHash32_hexEncode (label : String) (hash : U256) :
    decodeHash32 label (hexEncode hash.bytes) = .ok hash := by
  unfold decodeHash32
  rw [stripHexPrefix_hexEncode, hexDecode_hexEncode]
  exact dif_pos hash.length_eq

/-- The text is the canonical text of a 32-byte hash. -/
def IsHashText (s : String) : Prop :=
  exists hash : U256, s = hexEncode hash.bytes

theorem IsHashText.decode_inj {s t label label' : String} {hash hash' : U256}
    (hs : IsHashText s) (ht : IsHashText t) (hdecode : decodeHash32 label s = .ok hash)
    (hdecode' : decodeHash32 label' t = .ok hash') (heq : hash.bytes = hash'.bytes) : s = t := by
  rcases hs with ⟨left, rfl⟩
  rcases ht with ⟨right, rfl⟩
  rw [decodeHash32_hexEncode] at hdecode hdecode'
  rw [Except.ok.inj hdecode, Except.ok.inj hdecode', heq]

/-!
# Payloads
-/

def Tx.unsigned (tx : Tx) : Tx :=
  { tx with sig := "" }

theorem Tx.unsigned_fields {tx tx' : Tx} (h : tx.unsigned = tx'.unsigned) :
    tx.senderPubkey = tx'.senderPubkey ∧ tx.nonce = tx'.nonce ∧ tx.tip = tx'.tip ∧
      tx.args = tx'.args := by
  unfold Tx.unsigned at h
  injection h with hnonce hsender _ _ hargs htip _ _
  exact ⟨hsender, hnonce, htip, hargs⟩

theorem bincodeBytes_append_inj {a b u v : Bytes} (ha : a.length < u64Bound)
    (hb : b.length < u64Bound) (h : bincodeBytes a ++ u = bincodeBytes b ++ v) :
    a = b ∧ u = v := by
  unfold bincodeBytes at h
  rw [List.append_assoc, List.append_assoc] at h
  rcases List.append_inj h (by simp) with ⟨hlength, hrest⟩
  exact List.append_inj hrest (toLeBytes_inj ha hb hlength)

theorem bincodeU64_append_inj {n m : UInt64} {u v : Bytes}
    (h : bincodeU64 n ++ u = bincodeU64 m ++ v) : n = m ∧ u = v := by
  rcases List.append_inj h (by simp [bincodeU64]) with ⟨hvalue, hrest⟩
  exact ⟨UInt64.toNat_inj.mp (toLeBytes_inj n.toNat_lt m.toNat_lt hvalue), hrest⟩

/-- The texts and the arguments of a transaction are shorter than 2^64 bytes. -/
structure Tx.Fits (tx : Tx) : Prop where
  sender : byteLen tx.senderPubkey < u64Bound
  module_lt : byteLen tx.module < u64Bound
  method : byteLen tx.method < u64Bound
  args : tx.args.length < u64Bound

/-- A payload determines everything but the signature. -/
theorem unsigned_eq_of_payload {tx tx' : Tx} (hfits : tx.Fits) (hfits' : tx'.Fits)
    (h : canonicalUnsignedPayload tx = canonicalUnsignedPayload tx') :
    tx.unsigned = tx'.unsigned := by
  unfold canonicalUnsignedPayload Tx.bincode at h
  simp only [List.append_assoc] at h
  rcases bincodeU64_append_inj h with ⟨hnonce, h⟩
  rcases bincodeString_append_inj hfits.sender hfits'.sender h with ⟨hsender, h⟩
  rcases bincodeString_append_inj hfits.module_lt hfits'.module_lt h with ⟨hmodule, h⟩
  rcases bincodeString_append_inj hfits.method hfits'.method h with ⟨hmethod, h⟩
  rcases bincodeBytes_append_inj hfits.args hfits'.args h with ⟨hargs, h⟩
  rcases bincodeU64_append_inj h with ⟨htip, h⟩
  rcases bincodeU64_append_inj h with ⟨hlimit, _⟩
  unfold Tx.unsigned
  rw [hnonce, hsender, hmodule, hmethod, hargs, htip, hlimit]

/-!
# Transaction roots
-/

/-- The concatenation of parts of one length determines the parts. -/
theorem flatMap_inj_of_length {α β γ : Type} {width : Nat} (hwidth : 0 < width)
    {f : α -> List γ} {f' : β -> List γ} (hf : forall a, (f a).length = width)
    (hf' : forall b, (f' b).length = width) :
    forall {l : List α} {l' : List β}, l.flatMap f = l'.flatMap f' -> l.map f = l'.map f'
  | [], [], _ => rfl
  | [], b :: rest, h => by
      have hlength := congrArg List.length h
      rw [List.flatMap_cons, List.length_append, hf'] at hlength
      simp only [List.flatMap_nil, List.length_nil] at hlength
      omega
  | a :: rest, [], h => by
      have hlength := congrArg List.length h
      rw [List.flatMap_cons, List.length_append, hf] at hlength
      simp only [List.flatMap_nil, List.length_nil] at hlength
      omega
  | a :: rest, b :: rest', h => by
      rw [List.flatMap_cons, List.flatMap_cons] at h
      rcases List.append_inj h ((hf a).trans (hf' b).symm) with ⟨hhead, htail⟩
      rw [List.map_cons, List.map_cons, hhead, flatMap_inj_of_length hwidth hf hf' htail]

/-- What the transaction root hashes. -/
def Block.txRootInput (P : Platform) (blk : Block) : Bytes :=
  blk.txs.flatMap fun tx => asBytes (canonicalTxId P tx)

theorem canonicalTxId_bytes_length (P : Platform) (tx : Tx) :
    (asBytes (canonicalTxId P tx)).length = 64 := by
  unfold canonicalTxId
  rw [asBytes_hexEncode_length, (P.blake3 _).length_eq]

/-- The root's input determines the list of identifiers. -/
theorem txIds_of_txRootInput {P : Platform} {blk blk' : Block}
    (h : blk.txRootInput P = blk'.txRootInput P) :
    blk.txs.map (canonicalTxId P) = blk'.txs.map (canonicalTxId P) := by
  have hbytes := flatMap_inj_of_length (by decide) (canonicalTxId_bytes_length P)
    (canonicalTxId_bytes_length P) h
  apply (List.map_injective_iff.mpr fun _ _ => asBytes_inj)
  rw [List.map_map, List.map_map]
  exact hbytes

theorem blake3_eq_of_hexEncode {P : Platform} {a b : Bytes}
    (h : hexEncode (P.blake3 a).bytes = hexEncode (P.blake3 b).bytes) :
    P.blake3 a = P.blake3 b := by
  have hbytes := hexEncode_inj h
  cases hleft : P.blake3 a with
  | mk left _ =>
      cases hright : P.blake3 b with
      | mk right _ =>
          rw [hleft, hright] at hbytes
          subst hbytes
          rfl

/-!
# Preimages
-/

theorem historicalVpowMessageBytes_ok {header : BlockHeader} {message : Bytes}
    (h : historicalVpowMessageBytes header = .ok message) :
    exists parentHash txRoot, decodeHash32 "parent_hash" header.parentHash = .ok parentHash ∧
      decodeHash32 "tx_root" header.txRoot = .ok txRoot ∧
      message = vpowMagic ++ toLeBytes 4 vpowVersion ++ parentHash.bytes ++
        toLeBytes 8 header.number.toNat ++ toLeBytes 8 header.timestamp.toNat ++
        toLeBytes 8 header.difficulty.toNat ++ toBeBytes 8 header.nonce.toNat ++
        txRoot.bytes ++ toLeBytes 4 ((asBytes header.miner).length % 2 ^ 32) ++
        asBytes header.miner := by
  unfold historicalVpowMessageBytes at h
  cases hparent : decodeHash32 "parent_hash" header.parentHash with
  | error e =>
      rw [hparent] at h
      cases h
  | ok parentHash =>
      rw [hparent] at h
      cases hroot : decodeHash32 "tx_root" header.txRoot with
      | error e =>
          rw [hroot] at h
          cases h
      | ok txRoot =>
          rw [hroot] at h
          cases h
          exact ⟨parentHash, txRoot, rfl, rfl, rfl⟩

/-- The values that reach the preimage of a header. -/
structure SamePreimage (header header' : BlockHeader) : Prop where
  parent : forall {parent parent'}, decodeHash32 "parent_hash" header.parentHash = .ok parent ->
    decodeHash32 "parent_hash" header'.parentHash = .ok parent' -> parent = parent'
  number : header.number = header'.number
  timestamp : header.timestamp = header'.timestamp
  difficulty : header.difficulty = header'.difficulty
  nonce : header.nonce = header'.nonce
  root : forall {root root'}, decodeHash32 "tx_root" header.txRoot = .ok root ->
    decodeHash32 "tx_root" header'.txRoot = .ok root' -> root = root'
  miner : header.miner = header'.miner

theorem U256.ext {a b : U256} (h : a.bytes = b.bytes) : a = b := by
  cases a
  cases b
  cases h
  rfl

/-- The preimage determines the values that reach it. -/
theorem preimage_values {header header' : BlockHeader} {message : Bytes}
    (h : historicalVpowMessageBytes header = .ok message)
    (h' : historicalVpowMessageBytes header' = .ok message) : SamePreimage header header' := by
  rcases historicalVpowMessageBytes_ok h with ⟨parent, root, hdecode, hdecodeRoot, hmessage⟩
  rcases historicalVpowMessageBytes_ok h' with ⟨parent', root', hdecode', hdecodeRoot', hmessage'⟩
  have heq := hmessage.symm.trans hmessage'
  simp only [List.append_assoc] at heq
  have heq := List.append_cancel_left heq
  have heq := List.append_cancel_left heq
  rcases List.append_inj heq (parent.length_eq.trans parent'.length_eq.symm) with ⟨hparentEq, heq⟩
  rcases List.append_inj heq (by simp) with ⟨hnumber, heq⟩
  rcases List.append_inj heq (by simp) with ⟨htimestamp, heq⟩
  rcases List.append_inj heq (by simp) with ⟨hdifficulty, heq⟩
  rcases List.append_inj heq (by simp [toBeBytes]) with ⟨hnonce, heq⟩
  rcases List.append_inj heq (root.length_eq.trans root'.length_eq.symm) with ⟨hrootEq, heq⟩
  rcases List.append_inj heq (by simp) with ⟨_, hminer⟩
  constructor
  · intro first first' hfirst hfirst'
    cases hdecode.symm.trans hfirst
    cases hdecode'.symm.trans hfirst'
    exact U256.ext hparentEq
  · exact UInt64.toNat_inj.mp
      (toLeBytes_inj header.number.toNat_lt header'.number.toNat_lt hnumber)
  · exact UInt64.toNat_inj.mp
      (toLeBytes_inj header.timestamp.toNat_lt header'.timestamp.toNat_lt htimestamp)
  · exact UInt64.toNat_inj.mp
      (toLeBytes_inj header.difficulty.toNat_lt header'.difficulty.toNat_lt hdifficulty)
  · exact UInt64.toNat_inj.mp (toLeBytes_inj header.nonce.toNat_lt header'.nonce.toNat_lt
      (List.reverse_inj.mp hnonce))
  · intro first first' hfirst hfirst'
    cases hdecodeRoot.symm.trans hfirst
    cases hdecodeRoot'.symm.trans hfirst'
    exact U256.ext hrootEq
  · exact asBytes_inj hminer

/-- The preimage determines every field of the header that it covers, up to the
texts of the two hashes. -/
theorem preimage_inj {header header' : BlockHeader} {message : Bytes}
    (h : historicalVpowMessageBytes header = .ok message)
    (h' : historicalVpowMessageBytes header' = .ok message)
    (hparent : IsHashText header.parentHash) (hparent' : IsHashText header'.parentHash)
    (hroot : IsHashText header.txRoot) (hroot' : IsHashText header'.txRoot) :
    header.parentHash = header'.parentHash ∧ header.number = header'.number ∧
      header.timestamp = header'.timestamp ∧ header.difficulty = header'.difficulty ∧
      header.txRoot = header'.txRoot ∧ header.miner = header'.miner := by
  have hsame := preimage_values h h'
  rcases historicalVpowMessageBytes_ok h with ⟨parent, root, hdecode, hdecodeRoot, _⟩
  rcases historicalVpowMessageBytes_ok h' with ⟨parent', root', hdecode', hdecodeRoot', _⟩
  have hparentEq := congrArg U256.bytes (hsame.parent hdecode hdecode')
  have hrootEq := congrArg U256.bytes (hsame.root hdecodeRoot hdecodeRoot')
  exact ⟨hparent.decode_inj hparent' hdecode hdecode' hparentEq, hsame.number, hsame.timestamp,
    hsame.difficulty, hroot.decode_inj hroot' hdecodeRoot hdecodeRoot' hrootEq, hsame.miner⟩

end VisionCore
