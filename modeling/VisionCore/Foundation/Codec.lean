import Mathlib.Tactic

/-!
# Codecs

A codec writes a value as a list of symbols and reads it back from the head of a
longer list.  It accepts exactly what it writes, for the values that fit its format.
Codecs of records, lists and alternatives are built from those of their parts.
-/

namespace VisionCore
namespace Foundation

structure Codec (Symbol Value : Type) where
  encode : Value -> List Symbol
  decode : List Symbol -> Option (Value × List Symbol)
  /-- The values that the format can hold. -/
  Fits : Value -> Prop
  decode_encode : forall {value : Value} {rest : List Symbol}, Fits value ->
    decode (encode value ++ rest) = some (value, rest)
  encode_decode : forall {input : List Symbol} {value : Value} {rest : List Symbol},
    decode input = some (value, rest) -> input = encode value ++ rest ∧ Fits value

namespace Codec

variable {Symbol Value Left Right Tag : Type} {Body : Tag -> Type}

/-- Nothing is written. -/
def nothing : Codec Symbol Unit where
  encode := fun _ => []
  decode := fun input => some ((), input)
  Fits := fun _ => True
  decode_encode := fun _ => rfl
  encode_decode := by
    intro input value rest h
    cases h
    exact ⟨rfl, trivial⟩

/-- One symbol. -/
def symbol : Codec Symbol Symbol where
  encode := fun value => [value]
  decode := fun input => input.head?.map fun value => (value, input.tail)
  Fits := fun _ => True
  decode_encode := fun _ => rfl
  encode_decode := by
    intro input value rest h
    cases input with
    | nil => cases h
    | cons first others =>
        cases h
        exact ⟨rfl, trivial⟩

/-- One value behind another. -/
def seq (left : Codec Symbol Left) (right : Codec Symbol Right) : Codec Symbol (Left × Right) where
  encode := fun value => left.encode value.1 ++ right.encode value.2
  decode := fun input =>
    (left.decode input).bind fun first =>
      (right.decode first.2).map fun second => ((first.1, second.1), second.2)
  Fits := fun value => left.Fits value.1 ∧ right.Fits value.2
  decode_encode := by
    intro value rest h
    rw [List.append_assoc, left.decode_encode h.1, Option.bind_some, right.decode_encode h.2]
    rfl
  encode_decode := by
    intro input value rest h
    rcases Option.bind_eq_some_iff.mp h with ⟨first, hfirst, hrest⟩
    rcases Option.map_eq_some_iff.mp hrest with ⟨second, hsecond, heq⟩
    cases heq
    rcases left.encode_decode hfirst with ⟨hinput, hleft⟩
    rcases right.encode_decode hsecond with ⟨hmiddle, hright⟩
    constructor
    · rw [hinput, hmiddle, List.append_assoc]
    · exact ⟨hleft, hright⟩

/-- A tag and what it announces. -/
def tagged (tag : Codec Symbol Tag) (body : forall t, Codec Symbol (Body t)) :
    Codec Symbol (Sigma Body) where
  encode := fun value => tag.encode value.1 ++ (body value.1).encode value.2
  decode := fun input =>
    (tag.decode input).bind fun first =>
      ((body first.1).decode first.2).map fun second => (⟨first.1, second.1⟩, second.2)
  Fits := fun value => tag.Fits value.1 ∧ (body value.1).Fits value.2
  decode_encode := by
    intro value rest h
    rw [List.append_assoc, tag.decode_encode h.1, Option.bind_some,
      (body value.1).decode_encode h.2]
    rfl
  encode_decode := by
    intro input value rest h
    rcases Option.bind_eq_some_iff.mp h with ⟨first, hfirst, hrest⟩
    rcases Option.map_eq_some_iff.mp hrest with ⟨second, hsecond, heq⟩
    cases heq
    rcases tag.encode_decode hfirst with ⟨hinput, htag⟩
    rcases (body first.1).encode_decode hsecond with ⟨hmiddle, hbody⟩
    constructor
    · rw [hinput, hmiddle, List.append_assoc]
    · exact ⟨htag, hbody⟩

/-- The values of another type, written as values of this one. -/
def via (codec : Codec Symbol Left) (read : Left -> Option Right) (write : Right -> Left)
    (read_write : forall value, read (write value) = some value)
    (write_read : forall {first value}, read first = some value -> write value = first) :
    Codec Symbol Right where
  encode := fun value => codec.encode (write value)
  decode := fun input =>
    (codec.decode input).bind fun first => (read first.1).map fun value => (value, first.2)
  Fits := fun value => codec.Fits (write value)
  decode_encode := by
    intro value rest h
    rw [codec.decode_encode h, Option.bind_some, read_write]
    rfl
  encode_decode := by
    intro input value rest h
    rcases Option.bind_eq_some_iff.mp h with ⟨first, hfirst, hrest⟩
    rcases Option.map_eq_some_iff.mp hrest with ⟨second, hsecond, heq⟩
    cases heq
    rw [write_read hsecond]
    exact codec.encode_decode hfirst

/-- The same values under another name. -/
def iso (codec : Codec Symbol Left) (read : Left -> Right) (write : Right -> Left)
    (read_write : forall value, read (write value) = value)
    (write_read : forall value, write (read value) = value) : Codec Symbol Right :=
  codec.via (fun first => some (read first)) write
    (fun value => congrArg some (read_write value))
    (fun h => by
      cases h
      exact write_read _)

/-!
# Lists
-/

def decodeItems (item : Codec Symbol Value) :
    Nat -> List Symbol -> Option (List Value × List Symbol)
  | 0, input => some ([], input)
  | count + 1, input =>
      (item.decode input).bind fun first =>
        (decodeItems item count first.2).map fun others => (first.1 :: others.1, others.2)

theorem decodeItems_encode {item : Codec Symbol Value} {values : List Value}
    {rest : List Symbol} (h : forall value, value ∈ values -> item.Fits value) :
    decodeItems item values.length (values.flatMap item.encode ++ rest) = some (values, rest) := by
  induction values with
  | nil => rfl
  | cons value others ih =>
      rw [List.length_cons, List.flatMap_cons, List.append_assoc]
      unfold decodeItems
      rw [item.decode_encode (h value List.mem_cons_self), Option.bind_some,
        ih fun other hmem => h other (List.mem_cons_of_mem _ hmem)]
      rfl

theorem encode_decodeItems {item : Codec Symbol Value} {count : Nat} {input : List Symbol}
    {values : List Value} {rest : List Symbol}
    (h : decodeItems item count input = some (values, rest)) :
    input = values.flatMap item.encode ++ rest ∧ values.length = count ∧
      forall value, value ∈ values -> item.Fits value := by
  induction count generalizing input values rest with
  | zero =>
      cases h
      exact ⟨rfl, rfl, fun value hmem => by cases hmem⟩
  | succ count ih =>
      rcases Option.bind_eq_some_iff.mp h with ⟨first, hfirst, hothers⟩
      rcases Option.map_eq_some_iff.mp hothers with ⟨others, hrest, heq⟩
      cases heq
      rcases item.encode_decode hfirst with ⟨hinput, hfits⟩
      rcases ih hrest with ⟨hmiddle, hlength, hall⟩
      constructor
      · rw [hinput, hmiddle, List.flatMap_cons, List.append_assoc]
      constructor
      · rw [List.length_cons, hlength]
      · intro value hmem
        rcases List.mem_cons.mp hmem with rfl | hmem
        · exact hfits
        · exact hall value hmem

/-- So many values, one behind the other. -/
def items (item : Codec Symbol Value) (count : Nat) : Codec Symbol (List Value) where
  encode := fun values => values.flatMap item.encode
  decode := decodeItems item count
  Fits := fun values => values.length = count ∧ forall value, value ∈ values -> item.Fits value
  decode_encode := by
    intro values rest h
    rw [← h.1]
    exact decodeItems_encode h.2
  encode_decode := encode_decodeItems

/-- The number of values, and the values. -/
def counted (count : Codec Symbol Nat) (item : Codec Symbol Value) : Codec Symbol (List Value) where
  encode := fun values => count.encode values.length ++ values.flatMap item.encode
  decode := fun input =>
    (count.decode input).bind fun first => decodeItems item first.1 first.2
  Fits := fun values => count.Fits values.length ∧ forall value, value ∈ values -> item.Fits value
  decode_encode := by
    intro values rest h
    rw [List.append_assoc, count.decode_encode h.1, Option.bind_some]
    exact decodeItems_encode h.2
  encode_decode := by
    intro input values rest h
    rcases Option.bind_eq_some_iff.mp h with ⟨first, hfirst, hrest⟩
    rcases count.encode_decode hfirst with ⟨hinput, hcount⟩
    rcases encode_decodeItems hrest with ⟨hmiddle, hlength, hall⟩
    rw [hlength]
    constructor
    · rw [hinput, hmiddle, List.append_assoc]
    · exact ⟨hcount, hall⟩

/-!
# Optional values
-/

def OptionBody (Value : Type) : Bool -> Type
  | true => Value
  | false => Unit

def optionBody (codec : Codec Symbol Value) :
    forall present, Codec Symbol (OptionBody Value present)
  | true => codec
  | false => nothing

def ofTagged : Sigma (OptionBody Value) -> Option Value
  | ⟨true, value⟩ => some value
  | ⟨false, _⟩ => none

def toTagged : Option Value -> Sigma (OptionBody Value)
  | some value => ⟨true, value⟩
  | none => ⟨false, ()⟩

theorem ofTagged_toTagged (value : Option Value) : ofTagged (toTagged value) = value := by
  cases value with
  | none => rfl
  | some value => rfl

theorem toTagged_ofTagged (value : Sigma (OptionBody Value)) :
    toTagged (ofTagged value) = value := by
  rcases value with ⟨present, value⟩
  cases present with
  | false => rfl
  | true => rfl

/-- A flag, and the value behind it if there is one. -/
def option (flag : Codec Symbol Bool) (codec : Codec Symbol Value) :
    Codec Symbol (Option Value) :=
  (tagged flag (optionBody codec)).iso ofTagged toTagged ofTagged_toTagged toTagged_ofTagged

/-!
# Short values
-/

/-- The format holds every value that it writes in fewer symbols. -/
def FitsBelow (codec : Codec Symbol Value) (bound : Nat) : Prop :=
  forall value, (codec.encode value).length < bound -> codec.Fits value

namespace FitsBelow

variable {codec : Codec Symbol Value} {left : Codec Symbol Left} {right : Codec Symbol Right}
  {bound : Nat}

theorem of_always (h : forall value, codec.Fits value) : codec.FitsBelow bound :=
  fun value _ => h value

theorem seq (hleft : left.FitsBelow bound) (hright : right.FitsBelow bound) :
    (left.seq right).FitsBelow bound := by
  intro value h
  have hlength : ((left.seq right).encode value).length =
      (left.encode value.1).length + (right.encode value.2).length := List.length_append
  rw [hlength] at h
  constructor
  · exact hleft value.1 (Nat.lt_of_le_of_lt (Nat.le_add_right _ _) h)
  · exact hright value.2 (Nat.lt_of_le_of_lt (Nat.le_add_left _ _) h)

theorem tagged {tag : Codec Symbol Tag} {body : forall t, Codec Symbol (Body t)}
    (htag : tag.FitsBelow bound) (hbody : forall t, (body t).FitsBelow bound) :
    (Codec.tagged tag body).FitsBelow bound := by
  intro value h
  have hlength : ((Codec.tagged tag body).encode value).length =
      (tag.encode value.1).length + ((body value.1).encode value.2).length := List.length_append
  rw [hlength] at h
  constructor
  · exact htag value.1 (Nat.lt_of_le_of_lt (Nat.le_add_right _ _) h)
  · exact hbody value.1 value.2 (Nat.lt_of_le_of_lt (Nat.le_add_left _ _) h)

theorem via {read : Left -> Option Right} {write : Right -> Left}
    {read_write : forall value, read (write value) = some value}
    {write_read : forall {first value}, read first = some value -> write value = first}
    (h : left.FitsBelow bound) : (left.via read write read_write write_read).FitsBelow bound :=
  fun value hlength => h (write value) hlength

theorem iso {read : Left -> Right} {write : Right -> Left}
    {read_write : forall value, read (write value) = value}
    {write_read : forall value, write (read value) = value} (h : left.FitsBelow bound) :
    (left.iso read write read_write write_read).FitsBelow bound :=
  fun value hlength => h (write value) hlength

theorem counted {count : Codec Symbol Nat} {item : Codec Symbol Value}
    (hcount : forall n, n < bound -> count.Fits n) (hitem : item.FitsBelow bound)
    (hpos : forall value, 0 < (item.encode value).length) :
    (Codec.counted count item).FitsBelow bound := by
  intro values h
  have hlength : ((Codec.counted count item).encode values).length =
      (count.encode values.length).length + (values.flatMap item.encode).length :=
    List.length_append
  have hitems : (values.flatMap item.encode).length < bound := by
    rw [hlength] at h
    exact Nat.lt_of_le_of_lt (Nat.le_add_left _ _) h
  constructor
  · apply hcount
    apply Nat.lt_of_le_of_lt _ hitems
    rw [List.length_flatMap]
    have hle := List.length_le_sum_of_one_le (values.map fun value => (item.encode value).length)
      (fun n hmem => by
        rcases List.mem_map.mp hmem with ⟨value, _, rfl⟩
        exact hpos value)
    rwa [List.length_map] at hle
  · intro value hmem
    apply hitem
    apply Nat.lt_of_le_of_lt _ hitems
    rw [List.length_flatMap]
    exact List.le_sum_of_mem (List.mem_map.mpr ⟨value, hmem, rfl⟩)

theorem option {flag : Codec Symbol Bool} (hflag : flag.FitsBelow bound)
    (h : codec.FitsBelow bound) : (Codec.option flag codec).FitsBelow bound := by
  apply iso
  apply tagged hflag
  intro present
  cases present with
  | true => exact h
  | false => exact of_always fun _ => trivial

end FitsBelow

end Codec
end Foundation
end VisionCore
