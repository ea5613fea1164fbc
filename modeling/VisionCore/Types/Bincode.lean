import VisionCore.Foundation.Codec
import VisionCore.Types.Block

/-!
# Binary formats

The format in which nodes store and send their data: little-endian integers of a
fixed width, texts, byte strings and lists behind their length, one byte before an
optional value.
-/

namespace VisionCore
namespace Bincode

open Foundation

/-!
# Integers
-/

def fromLeBytes : Bytes -> Nat
  | [] => 0
  | byte :: rest => byte.toNat + 256 * fromLeBytes rest

theorem fromLeBytes_toLeBytes {width n : Nat} (h : n < 256 ^ width) :
    fromLeBytes (toLeBytes width n) = n := by
  induction width generalizing n with
  | zero =>
      rw [pow_zero, Nat.lt_one_iff] at h
      rw [h]
      rfl
  | succ width ih =>
      have hrest : n / 256 < 256 ^ width := by
        rw [Nat.div_lt_iff_lt_mul (by decide), ← pow_succ]
        exact h
      have hbyte : (UInt8.ofNat (n % 256)).toNat = n % 256 :=
        UInt8.toNat_ofNat_of_lt' (Nat.mod_lt n (by decide))
      unfold toLeBytes fromLeBytes
      rw [ih hrest, hbyte]
      exact Nat.mod_add_div n 256

theorem toLeBytes_fromLeBytes (bytes : Bytes) :
    toLeBytes bytes.length (fromLeBytes bytes) = bytes ∧
      fromLeBytes bytes < 256 ^ bytes.length := by
  induction bytes with
  | nil => exact ⟨rfl, Nat.one_pos⟩
  | cons byte rest ih =>
      have hbyte : byte.toNat < 256 := byte.toNat_lt
      have hmod : (byte.toNat + 256 * fromLeBytes rest) % 256 = byte.toNat := by
        rw [Nat.add_mul_mod_self_left, Nat.mod_eq_of_lt hbyte]
      have hdiv : (byte.toNat + 256 * fromLeBytes rest) / 256 = fromLeBytes rest := by
        rw [Nat.add_mul_div_left _ _ (by decide), Nat.div_eq_of_lt hbyte, Nat.zero_add]
      constructor
      · rw [List.length_cons]
        unfold fromLeBytes toLeBytes
        rw [hmod, hdiv, ih.1, UInt8.ofNat_toNat]
      · rw [List.length_cons, pow_succ]
        unfold fromLeBytes
        have hrest := ih.2
        omega

/-- A number of so many bytes. -/
def uint (width : Nat) : Codec UInt8 Nat where
  encode := toLeBytes width
  decode := fun input =>
    if width ≤ input.length then some (fromLeBytes (input.take width), input.drop width)
    else none
  Fits := fun n => n < 256 ^ width
  decode_encode := by
    intro n rest h
    rw [if_pos (by simp), List.take_left' (toLeBytes_length width n),
      List.drop_left' (toLeBytes_length width n), fromLeBytes_toLeBytes h]
  encode_decode := by
    intro input n rest h
    split at h
    · rename_i hlength
      cases h
      have htaken : (input.take width).length = width := List.length_take_of_le hlength
      have hbytes := toLeBytes_fromLeBytes (input.take width)
      rw [htaken] at hbytes
      constructor
      · rw [hbytes.1, List.take_append_drop]
      · exact hbytes.2
    · cases h

theorem uint_fits {width n : Nat} : (uint width).Fits n ↔ n < 256 ^ width :=
  Iff.rfl

/-- The integers of a fixed-width type. -/
def fixed {Value : Type} (width : Nat) (toNat : Value -> Nat) (ofNat : Nat -> Value)
    (ofNat_toNat : forall value, ofNat (toNat value) = value)
    (toNat_lt : forall value, toNat value < 256 ^ width)
    (toNat_ofNat : forall n, n < 256 ^ width -> toNat (ofNat n) = n) : Codec UInt8 Value :=
  (uint width).via (fun n => if n < 256 ^ width then some (ofNat n) else none) toNat
    (fun value => by rw [if_pos (toNat_lt value), ofNat_toNat])
    (fun h => by
      split at h
      · rename_i hlt
        cases h
        exact toNat_ofNat _ hlt
      · cases h)

def u16 : Codec UInt8 UInt16 :=
  fixed 2 UInt16.toNat UInt16.ofNat (fun _ => UInt16.ofNat_toNat) UInt16.toNat_lt
    (fun _ h => UInt16.toNat_ofNat_of_lt' h)

def u32 : Codec UInt8 UInt32 :=
  fixed 4 UInt32.toNat UInt32.ofNat (fun _ => UInt32.ofNat_toNat) UInt32.toNat_lt
    (fun _ h => UInt32.toNat_ofNat_of_lt' h)

def u64 : Codec UInt8 UInt64 :=
  fixed 8 UInt64.toNat UInt64.ofNat (fun _ => UInt64.ofNat_toNat) UInt64.toNat_lt
    (fun _ h => UInt64.toNat_ofNat_of_lt' h)

def u128 : Codec UInt8 Nat :=
  uint 16

def flagOf : Nat -> Option Bool
  | 0 => some false
  | 1 => some true
  | _ => none

/-- The byte before an optional value. -/
def flag : Codec UInt8 Bool :=
  (uint 1).via flagOf Bool.toNat
    (fun value => by
      cases value with
      | false => rfl
      | true => rfl)
    (fun {first value} h => by
      rcases first with _ | _ | n
      · cases h
        rfl
      · cases h
        rfl
      · cases h)

/-!
# Bytes and texts
-/

/-- A byte string behind its length. -/
def bytes : Codec UInt8 Bytes :=
  Codec.counted (uint 8) Codec.symbol

theorem bytes_encode (value : Bytes) : bytes.encode value = bincodeBytes value := by
  have hsame : value.flatMap (fun byte => [byte]) = value := List.flatMap_singleton' value
  exact congrArg (toLeBytes 8 value.length ++ ·) hsame

theorem bytes_fits {value : Bytes} : bytes.Fits value ↔ value.length < 256 ^ 8 := by
  constructor
  · exact fun h => h.1
  · exact fun h => ⟨h, fun byte _ => trivial⟩

/-- The text of UTF-8 bytes. -/
def textOf (value : Bytes) : Option String :=
  String.fromUTF8? ⟨value.toArray⟩

theorem textOf_asBytes (s : String) : textOf (asBytes s) = some s := by
  unfold textOf asBytes String.fromUTF8?
  rw [Array.toArray_toList]
  have hvalid : (ByteArray.mk s.toUTF8.data).IsValidUTF8 := s.isValidUTF8
  rw [dif_pos hvalid]
  rfl

theorem asBytes_of_textOf {value : Bytes} {s : String} (h : textOf value = some s) :
    asBytes s = value := by
  unfold textOf String.fromUTF8? at h
  split at h
  · cases h
    rfl
  · cases h

def text : Codec UInt8 String :=
  bytes.via textOf asBytes textOf_asBytes asBytes_of_textOf

theorem text_encode (s : String) : text.encode s = bincodeString s :=
  bytes_encode (asBytes s)

theorem text_fits {s : String} : text.Fits s ↔ byteLen s < 256 ^ 8 :=
  bytes_fits

def hashOf (value : Bytes) : Option U256 :=
  if h : value.length = 32 then some ⟨value, h⟩ else none

/-- 32 bytes. -/
def hash : Codec UInt8 U256 :=
  (Codec.items Codec.symbol 32).via hashOf U256.bytes
    (fun value => by
      unfold hashOf
      rw [dif_pos value.length_eq])
    (fun h => by
      unfold hashOf at h
      split at h
      · cases h
        rfl
      · cases h)

/-- A list behind its length. -/
def list {Value : Type} (item : Codec UInt8 Value) : Codec UInt8 (List Value) :=
  Codec.counted (uint 8) item

def option {Value : Type} (item : Codec UInt8 Value) : Codec UInt8 (Option Value) :=
  Codec.option flag item

/-!
# Blocks
-/

def tx : Codec UInt8 Tx :=
  (u64.seq (text.seq (text.seq (text.seq (bytes.seq (u64.seq (u64.seq text))))))).iso
    (fun v =>
      { nonce := v.1
        senderPubkey := v.2.1
        «module» := v.2.2.1
        method := v.2.2.2.1
        args := v.2.2.2.2.1
        tip := v.2.2.2.2.2.1
        feeLimit := v.2.2.2.2.2.2.1
        sig := v.2.2.2.2.2.2.2 })
    (fun tx => (tx.nonce, tx.senderPubkey, tx.module, tx.method, tx.args, tx.tip, tx.feeLimit,
      tx.sig))
    (fun _ => rfl) (fun _ => rfl)

theorem tx_encode (value : Tx) : tx.encode value = value.bincode := by
  have hparts : tx.encode value = u64.encode value.nonce ++ (text.encode value.senderPubkey ++
      (text.encode value.module ++ (text.encode value.method ++ (bytes.encode value.args ++
        (u64.encode value.tip ++ (u64.encode value.feeLimit ++ text.encode value.sig)))))) := rfl
  rw [hparts, text_encode, text_encode, text_encode, text_encode, bytes_encode]
  unfold Tx.bincode
  simp only [List.append_assoc]
  rfl

def header : Codec UInt8 BlockHeader :=
  (text.seq (u64.seq (u64.seq (u64.seq (u64.seq (text.seq (text.seq (text.seq text)))))))).iso
    (fun v =>
      { parentHash := v.1
        number := v.2.1
        timestamp := v.2.2.1
        difficulty := v.2.2.2.1
        nonce := v.2.2.2.2.1
        powHash := v.2.2.2.2.2.1
        stateRoot := v.2.2.2.2.2.2.1
        txRoot := v.2.2.2.2.2.2.2.1
        miner := v.2.2.2.2.2.2.2.2 })
    (fun header => (header.parentHash, header.number, header.timestamp, header.difficulty,
      header.nonce, header.powHash, header.stateRoot, header.txRoot, header.miner))
    (fun _ => rfl) (fun _ => rfl)

def block : Codec UInt8 Block :=
  (header.seq ((list tx).seq u64)).iso
    (fun v =>
      { header := v.1
        txs := v.2.1
        weight := v.2.2 })
    (fun blk => (blk.header, blk.txs, blk.weight))
    (fun _ => rfl) (fun _ => rfl)

/-!
# Short values
-/

theorem fixed_fits {Value : Type} {width : Nat} {toNat : Value -> Nat} {ofNat : Nat -> Value}
    {ofNat_toNat : forall value, ofNat (toNat value) = value}
    {toNat_lt : forall value, toNat value < 256 ^ width}
    {toNat_ofNat : forall n, n < 256 ^ width -> toNat (ofNat n) = n} {bound : Nat} :
    (fixed width toNat ofNat ofNat_toNat toNat_lt toNat_ofNat).FitsBelow bound :=
  Codec.FitsBelow.of_always toNat_lt

theorem flag_fits {bound : Nat} : flag.FitsBelow bound := by
  apply Codec.FitsBelow.of_always
  intro value
  have hlt : value.toNat < 256 ^ 1 := by
    cases value with
    | false => decide
    | true => decide
  exact hlt

theorem hash_fits {bound : Nat} : hash.FitsBelow bound :=
  Codec.FitsBelow.of_always fun value => ⟨value.length_eq, fun _ _ => trivial⟩

theorem bytes_fitsBelow : bytes.FitsBelow (256 ^ 8) :=
  Codec.FitsBelow.counted (fun _ h => h) (Codec.FitsBelow.of_always fun _ => trivial)
    (fun _ => Nat.one_pos)

theorem text_fitsBelow : text.FitsBelow (256 ^ 8) :=
  bytes_fitsBelow.via

theorem option_fitsBelow {Value : Type} {item : Codec UInt8 Value}
    (h : item.FitsBelow (256 ^ 8)) : (option item).FitsBelow (256 ^ 8) :=
  Codec.FitsBelow.option flag_fits h

theorem list_fitsBelow {Value : Type} {item : Codec UInt8 Value}
    (h : item.FitsBelow (256 ^ 8)) (hpos : forall value, 0 < (item.encode value).length) :
    (list item).FitsBelow (256 ^ 8) :=
  Codec.FitsBelow.counted (fun _ hlt => hlt) h hpos

theorem tx_fitsBelow : tx.FitsBelow (256 ^ 8) :=
  (fixed_fits.seq (text_fitsBelow.seq (text_fitsBelow.seq (text_fitsBelow.seq
    (bytes_fitsBelow.seq (fixed_fits.seq (fixed_fits.seq text_fitsBelow))))))).iso

theorem header_fitsBelow : header.FitsBelow (256 ^ 8) :=
  (text_fitsBelow.seq (fixed_fits.seq (fixed_fits.seq (fixed_fits.seq (fixed_fits.seq
    (text_fitsBelow.seq (text_fitsBelow.seq (text_fitsBelow.seq text_fitsBelow)))))))).iso

theorem u64_length (n : UInt64) : (u64.encode n).length = 8 :=
  toLeBytes_length 8 n.toNat

theorem tx_length_pos (value : Tx) : 0 < (tx.encode value).length := by
  rw [tx_encode]
  unfold Tx.bincode
  simp only [List.length_append]
  unfold bincodeU64
  rw [toLeBytes_length]
  omega

theorem block_fitsBelow : block.FitsBelow (256 ^ 8) :=
  (header_fitsBelow.seq ((list_fitsBelow tx_fitsBelow tx_length_pos).seq fixed_fits)).iso

theorem text_length (s : String) : (text.encode s).length = 8 + byteLen s := by
  rw [text_encode]
  unfold bincodeString bincodeBytes byteLen
  rw [List.length_append, toLeBytes_length]

end Bincode
end VisionCore
