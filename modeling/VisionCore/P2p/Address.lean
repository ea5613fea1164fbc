import VisionCore.Types.Encoding

/-!
# Network addresses

The textual form of IP addresses as the standard library reads it, and the check
of the address that a peer advertises.  A parser reads a prefix of its input and
returns what is left; it returns `none` without consuming anything.
-/

namespace VisionCore

inductive IpAddr where
  | v4 (octets : List Nat)
  | v6 (segments : List Nat)
deriving DecidableEq, Repr

namespace IpAddr

def toDigit (radix : Nat) (c : Char) : Option Nat :=
  let digit? :=
    if '0' ≤ c ∧ c ≤ '9' then some (c.toNat - '0'.toNat)
    else if 'a' ≤ c ∧ c ≤ 'f' then some (c.toNat - 'a'.toNat + 10)
    else if 'A' ≤ c ∧ c ≤ 'F' then some (c.toNat - 'A'.toNat + 10)
    else none
  digit?.filter fun digit => digit < radix

/-- The digits of a number of at most `bound` with at most `maxDigits` digits: its
value, how many digits were read and the rest. -/
def readDigits (radix bound maxDigits : Nat) :
    Nat -> Nat -> List Char -> Option (Nat × Nat × List Char)
  | value, count, [] => some (value, count, [])
  | value, count, c :: rest =>
      match toDigit radix c with
      | none => some (value, count, c :: rest)
      | some digit =>
          let value' := value * radix + digit
          if bound < value' ∨ maxDigits < count + 1 then none
          else readDigits radix bound maxDigits value' (count + 1) rest

def readNumber (radix bound maxDigits : Nat) (allowZeroPrefix : Bool) (input : List Char) :
    Option (Nat × List Char) :=
  match readDigits radix bound maxDigits 0 0 input with
  | none => none
  | some (value, count, rest) =>
      let hasLeadingZero := input.head? = some '0'
      if count = 0 then none
      else if allowZeroPrefix = false ∧ hasLeadingZero ∧ 1 < count then none
      else some (value, rest)

/-- An item of a separated list: all but the first stand behind `separator`. -/
def readSeparator {α : Type} (separator : Char) (index : Nat)
    (inner : List Char -> Option (α × List Char)) (input : List Char) : Option (α × List Char) :=
  if index = 0 then inner input
  else
    match input with
    | c :: rest => if c = separator then inner rest else none
    | [] => none

def readOctets : Nat -> List Char -> Option (List Nat × List Char)
  | 0, input => some ([], input)
  | left + 1, input => do
      let (octet, rest) <- readSeparator '.' (3 - left) (readNumber 10 255 3 false) input
      let (octets, rest) <- readOctets left rest
      return (octet :: octets, rest)

def readIpv4 (input : List Char) : Option (List Nat × List Char) :=
  readOctets 4 input

/-- The two segments that an embedded IPv4 address fills. -/
def embedIpv4 : List Nat -> List Nat
  | [one, two, three, four] => [one * 256 + two, three * 256 + four]
  | _ => []

/-- Up to `left` more segments of at most `limit`; the flag tells whether they end in
an IPv4 address. -/
def readGroups (limit : Nat) : Nat -> List Char -> List Nat × Bool × List Char
  | 0, input => ([], false, input)
  | left + 1, input =>
      let index := limit - (left + 1)
      let embedded := if left = 0 then none else readSeparator ':' index readIpv4 input
      match embedded with
      | some (octets, rest) => (embedIpv4 octets, true, rest)
      | none =>
          match readSeparator ':' index (readNumber 16 65535 4 true) input with
          | none => ([], false, input)
          | some (segment, rest) =>
              let (segments, isIpv4, rest) := readGroups limit left rest
              (segment :: segments, isIpv4, rest)

def readIpv6 (input : List Char) : Option (List Nat × List Char) :=
  match readGroups 8 8 input with
  | (head, isIpv4, rest) =>
      if head.length = 8 then some (head, rest)
      else if isIpv4 then none
      else
        match rest with
        | ':' :: ':' :: rest =>
            let limit := 8 - (head.length + 1)
            let (tail, _, rest) := readGroups limit limit rest
            some (head ++ List.replicate (8 - head.length - tail.length) 0 ++ tail, rest)
        | _ => none

def parse (text : String) : Option IpAddr :=
  match readIpv4 text.toList with
  | some (octets, []) => some (v4 octets)
  | some _ => none
  | none =>
      match readIpv6 text.toList with
      | some (segments, []) => some (v6 segments)
      | _ => none

/-- Loopback, private, link-local and unspecified addresses. -/
def isPrivateLike : IpAddr -> Bool
  | v4 octets =>
      match octets with
      | [a, b, c, d] =>
          a == 127 || (a == 10 || (a == 172 && 16 ≤ b && b ≤ 31) || (a == 192 && b == 168)) ||
            (a == 169 && b == 254) || (a == 0 && b == 0 && c == 0 && d == 0)
      | _ => false
  | v6 segments =>
      let first := segments.headD 0
      segments == [0, 0, 0, 0, 0, 0, 0, 1] || segments == [0, 0, 0, 0, 0, 0, 0, 0] ||
        first / 512 == 126 || first / 64 == 1018

example : parse "::ffff:10.0.0.1" = some (v6 [0, 0, 0, 0, 0, 65535, 2560, 1]) := by decide +kernel

end IpAddr

/-!
# Advertised addresses
-/

/-- The Unicode white space that trimming removes. -/
def isWhiteSpace (c : Char) : Bool :=
  let n := c.toNat
  (9 ≤ n && n ≤ 13) || n == 32 || n == 133 || n == 160 || n == 5760 ||
    (8192 ≤ n && n ≤ 8202) || n == 8232 || n == 8233 || n == 8239 || n == 8287 || n == 12288

def trim (s : String) : String :=
  String.ofList ((s.toList.dropWhile isWhiteSpace).reverse.dropWhile isWhiteSpace).reverse

def toAsciiLowercase (s : String) : String :=
  String.ofList (s.toList.map fun c =>
    if 'A' ≤ c ∧ c ≤ 'Z' then Char.ofNat (c.toNat + 32) else c)

/-- A letter, a digit, a dot or a hyphen of ASCII. -/
def isHostByte (byte : UInt8) : Bool :=
  let n := byte.toNat
  (Nat.ble 97 n && Nat.ble n 122) || (Nat.ble 65 n && Nat.ble n 90) ||
    (Nat.ble 48 n && Nat.ble n 57) || n == 46 || n == 45

/-- The durable address that a handshake advertises, if it advertises one. -/
def validatedAdvertisedAddr (host : Option String) (port : Option UInt16) (allowPrivate : Bool) :
    Except String (Option String) :=
  match host, port with
  | some host, some port =>
      let host := trim host
      let address := toAsciiLowercase host ++ ":" ++ toString port
      if host.isEmpty ∨ port = 0 then .error "malformed advertised address"
      else if ':' ∈ host.toList ∧ (IpAddr.parse host).isNone then
        .error "malformed advertised host"
      else
        match IpAddr.parse host with
        | some ip =>
            if allowPrivate = false ∧ ip.isPrivateLike then
              .error "private advertised address not allowed"
            else .ok (some address)
        | none =>
            if (asBytes host).all isHostByte then .ok (some address)
            else .error "malformed advertised host"
  | _, _ => .ok none

end VisionCore
