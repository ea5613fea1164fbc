import VisionCore.P2p.Address
import VisionCore.Types.Binding

/-!
# Socket addresses

The textual form of socket addresses as the standard library reads it, the check of an
address that the node dials, and what that check makes of a host and a port that were
written side by side.
-/

namespace VisionCore

/-- The scope is zero unless an IPv6 address names one. -/
structure SocketAddr where
  ip : IpAddr
  port : UInt16
  scopeId : UInt32
deriving DecidableEq, Repr

namespace SocketAddr

def readGivenChar (given : Char) : List Char -> Option (List Char)
  | c :: rest => if c = given then some rest else none
  | [] => none

/-- A decimal number with any number of digits. -/
def readDecimal (bound : Nat) (input : List Char) : Option (Nat × List Char) :=
  IpAddr.readNumber 10 bound input.length true input

def readPort (input : List Char) : Option (UInt16 × List Char) := do
  let rest <- readGivenChar ':' input
  let (port, rest) <- readDecimal 65535 rest
  return (UInt16.ofNat port, rest)

def readScopeId (input : List Char) : Option (UInt32 × List Char) := do
  let rest <- readGivenChar '%' input
  let (scope, rest) <- readDecimal 4294967295 rest
  return (UInt32.ofNat scope, rest)

def readSocketAddrV4 (input : List Char) : Option (SocketAddr × List Char) := do
  let (octets, rest) <- IpAddr.readIpv4 input
  let (port, rest) <- readPort rest
  return ({ ip := .v4 octets, port := port, scopeId := 0 }, rest)

def readSocketAddrV6 (input : List Char) : Option (SocketAddr × List Char) := do
  let rest <- readGivenChar '[' input
  let (segments, rest) <- IpAddr.readIpv6 rest
  let (scopeId, rest) := (readScopeId rest).getD (0, rest)
  let rest <- readGivenChar ']' rest
  let (port, rest) <- readPort rest
  return ({ ip := .v6 segments, port := port, scopeId := scopeId }, rest)

def readSocketAddr (input : List Char) : Option (SocketAddr × List Char) :=
  (readSocketAddrV4 input).or (readSocketAddrV6 input)

def parse (text : String) : Option SocketAddr :=
  match readSocketAddr text.toList with
  | some (addr, []) => some addr
  | _ => none

end SocketAddr

/-- Why an address is not dialed; each reason names the text. -/
inductive DialAddressError where
  | invalid (value : String)
  | portZero (value : String)
  | notAllowed (value : String)
deriving DecidableEq, Repr

def validateDialAddress (value : String) (allowPrivate : Bool) :
    Except DialAddressError SocketAddr :=
  match SocketAddr.parse value with
  | none => .error (.invalid value)
  | some addr =>
      if addr.port = 0 then .error (.portZero value)
      else if allowPrivate = false ∧ addr.ip.isPrivateLike then .error (.notAllowed value)
      else .ok addr

example : validateDialAddress "127.0.0.1:9001" false = .error (.notAllowed "127.0.0.1:9001") := by
  decide +kernel

/-!
# Letters in a number
-/

def asciiLowercase (c : Char) : Char :=
  if 'A' ≤ c ∧ c ≤ 'Z' then Char.ofNat (c.toNat + 32) else c

theorem toAsciiLowercase_eq (s : String) :
    toAsciiLowercase s = String.ofList (s.toList.map asciiLowercase) := rfl

/-- Only a capital letter changes, and it becomes a small one. -/
theorem asciiLowercase_cases (c : Char) : asciiLowercase c = c ∨
    (65 ≤ c.toNat ∧ c.toNat ≤ 90) ∧
      97 ≤ (asciiLowercase c).toNat ∧ (asciiLowercase c).toNat ≤ 122 := by
  unfold asciiLowercase
  split
  · rename_i hupper
    have hlow : 65 ≤ c.toNat := hupper.1
    have hhigh : c.toNat ≤ 90 := hupper.2
    have hvalid : (c.toNat + 32).isValidChar := Or.inl (by omega)
    have hvalue : (Char.ofNat (c.toNat + 32)).toNat = c.toNat + 32 := by
      rw [Char.ofNat, dif_pos hvalid]
      rfl
    rw [hvalue]
    exact Or.inr ⟨⟨hlow, hhigh⟩, by omega, by omega⟩
  · exact Or.inl rfl

/-- No character but a capital letter is confused with another one. -/
theorem asciiLowercase_eq_iff {c d : Char} (hd : d.toNat < 65 ∨ 122 < d.toNat ∨
    90 < d.toNat ∧ d.toNat < 97) : asciiLowercase c = d ↔ c = d := by
  rcases asciiLowercase_cases c with hsame | ⟨hupper, hlower⟩
  · rw [hsame]
  · constructor
    · intro heq
      rw [heq] at hlower
      omega
    · intro heq
      rw [heq] at hupper
      omega

namespace IpAddr

theorem toDigit_ten (c : Char) :
    toDigit 10 c = if 48 ≤ c.toNat ∧ c.toNat ≤ 57 then some (c.toNat - 48) else none := by
  unfold toDigit
  dsimp only
  by_cases hdigit : 48 ≤ c.toNat ∧ c.toNat ≤ 57
  · have hchars : '0' ≤ c ∧ c ≤ '9' := hdigit
    have hsmall : c.toNat - 48 < 10 := by omega
    rw [if_pos hdigit, if_pos hchars]
    exact Option.filter_eq_some_iff.mpr ⟨rfl, decide_eq_true hsmall⟩
  · have hchars : ¬ ('0' ≤ c ∧ c ≤ '9') := hdigit
    rw [if_neg hdigit, if_neg hchars]
    have hlarge : forall base : Nat, ((some (c.toNat - base + 10)).filter
        fun digit => decide (digit < 10)) = none := by
      intro base
      exact Option.filter_eq_none_iff.mpr (by intro _ heq; cases heq; simp)
    split
    · exact hlarge 'a'.toNat
    · split
      · exact hlarge 'A'.toNat
      · rfl

theorem toDigit_asciiLowercase (c : Char) : toDigit 10 (asciiLowercase c) = toDigit 10 c := by
  rcases asciiLowercase_cases c with hsame | ⟨hupper, hlower⟩
  · rw [hsame]
  · rw [toDigit_ten, toDigit_ten, if_neg (by omega), if_neg (by omega)]

/-!
# What stands in front of a port

A number, an octet and an IPv4 address end before a colon, so what is read in front of a
port is what is read without it.
-/

section Followed

/-- The host in small letters in front of a colon and `port`. -/
def followed (port host : List Char) : List Char :=
  host.map asciiLowercase ++ ':' :: port

variable {port : List Char}

theorem followed_nil : followed port [] = ':' :: port := rfl

theorem followed_cons (c : Char) (rest : List Char) :
    followed port (c :: rest) = asciiLowercase c :: followed port rest := rfl

theorem readDigits_followed (bound maxDigits : Nat) (host : List Char) :
    forall value count : Nat, readDigits 10 bound maxDigits value count (followed port host) =
      (readDigits 10 bound maxDigits value count host).map
        (Prod.map id (Prod.map id (followed port))) := by
  induction host with
  | nil =>
      intro value count
      rfl
  | cons c rest ih =>
      intro value count
      rw [followed_cons]
      unfold readDigits
      rw [toDigit_asciiLowercase]
      cases toDigit 10 c with
      | none => rfl
      | some digit =>
          dsimp only
          split
          · rfl
          · exact ih _ _

theorem head?_followed (host : List Char) :
    (followed port host).head? = some '0' ↔ host.head? = some '0' := by
  cases host with
  | nil => exact ⟨fun h => absurd h (by simp [followed]), fun h => absurd h (by simp)⟩
  | cons c rest =>
      rw [followed_cons, List.head?_cons, List.head?_cons, Option.some_inj, Option.some_inj]
      exact asciiLowercase_eq_iff (by decide)

theorem readNumber_followed (bound maxDigits : Nat) (allowZeroPrefix : Bool)
    (host : List Char) :
    readNumber 10 bound maxDigits allowZeroPrefix (followed port host) =
      (readNumber 10 bound maxDigits allowZeroPrefix host).map
        (Prod.map id (followed port)) := by
  unfold readNumber
  rw [readDigits_followed]
  cases readDigits 10 bound maxDigits 0 0 host with
  | none => rfl
  | some read =>
      rcases read with ⟨value, count, rest⟩
      dsimp only [Option.map_some, Prod.map, id]
      simp only [head?_followed]
      rw [apply_ite (Option.map (Prod.map id (followed port))),
        apply_ite (Option.map (Prod.map id (followed port)))]
      rfl

theorem readOctet_followed (index : Nat) (host : List Char) :
    readSeparator '.' index (readNumber 10 255 3 false) (followed port host) =
      (readSeparator '.' index (readNumber 10 255 3 false) host).map
        (Prod.map id (followed port)) := by
  unfold readSeparator
  split
  · exact readNumber_followed 255 3 false host
  · cases host with
    | nil => rfl
    | cons c rest =>
        rw [followed_cons]
        dsimp only
        by_cases hdot : c = '.'
        · rw [if_pos hdot, if_pos ((asciiLowercase_eq_iff (by decide)).mpr hdot)]
          exact readNumber_followed 255 3 false rest
        · rw [if_neg hdot, if_neg (fun h => hdot ((asciiLowercase_eq_iff (by decide)).mp h))]
          rfl

theorem readOctets_followed (left : Nat) : forall host : List Char,
    readOctets left (followed port host) =
      (readOctets left host).map (Prod.map id (followed port)) := by
  induction left with
  | zero =>
      intro host
      rfl
  | succ left ih =>
      intro host
      unfold readOctets
      rw [readOctet_followed]
      cases readSeparator '.' (3 - left) (readNumber 10 255 3 false) host with
      | none => rfl
      | some read =>
          rcases read with ⟨octet, rest⟩
          have hrest := ih rest
          dsimp only [Option.map_some, Prod.map, Option.bind_eq_bind, Option.bind_some]
          rw [hrest]
          cases readOctets left rest with
          | none => rfl
          | some read => rfl

theorem readIpv4_followed (host : List Char) :
    readIpv4 (followed port host) = (readIpv4 host).map (Prod.map id (followed port)) :=
  readOctets_followed 4 host

end Followed

end IpAddr

/-!
# The port as it is written
-/

namespace SocketAddr

open IpAddr

theorem readGivenChar_cons (given c : Char) (rest : List Char) :
    readGivenChar given (c :: rest) = if c = given then some rest else none := rfl

theorem le_ofDigitChars (cs : List Char) : forall value : Nat,
    value ≤ Nat.ofDigitChars 10 cs value := by
  induction cs with
  | nil =>
      intro value
      rw [Nat.ofDigitChars_nil]
  | cons c rest ih =>
      intro value
      rw [Nat.ofDigitChars_cons]
      have hrest := ih (10 * value + (c.toNat - '0'.toNat))
      omega

theorem readDigits_digits (bound : Nat) {maxDigits : Nat} (cs : List Char)
    (hdigits : forall c, c ∈ cs -> c.isDigit) : forall value count : Nat,
    Nat.ofDigitChars 10 cs value ≤ bound -> count + cs.length ≤ maxDigits ->
      readDigits 10 bound maxDigits value count cs =
        some (Nat.ofDigitChars 10 cs value, count + cs.length, []) := by
  induction cs with
  | nil =>
      intro value count _ _
      rfl
  | cons c rest ih =>
      intro value count hbound hlength
      have hdigit : 48 ≤ c.toNat ∧ c.toNat ≤ 57 := by
        have hc := hdigits c List.mem_cons_self
        rw [Char.isDigit_iff_toNat] at hc
        exact hc
      rw [Nat.ofDigitChars_cons] at hbound ⊢
      have hzero : '0'.toNat = 48 := rfl
      rw [hzero, Nat.mul_comm 10 value] at hbound ⊢
      have hvalue := (le_ofDigitChars rest (value * 10 + (c.toNat - 48))).trans hbound
      rw [List.length_cons] at hlength ⊢
      unfold readDigits
      rw [toDigit_ten, if_pos hdigit]
      dsimp only
      rw [if_neg (by omega)]
      rw [ih (fun c hmem => hdigits c (List.mem_cons_of_mem _ hmem)) _ _ hbound (by omega)]
      rw [Nat.add_assoc, Nat.add_comm 1]

theorem readDecimal_toDigits {bound n : Nat} (hn : n ≤ bound) :
    readDecimal bound (Nat.toDigits 10 n) = some (n, []) := by
  have hread := readDigits_digits bound (Nat.toDigits 10 n)
    (fun c hmem => Nat.isDigit_of_mem_toDigits (by decide) (by decide) hmem) 0 0
    (by rw [Nat.ofDigitChars_ten_toDigits]; exact hn) (Nat.zero_add _).le
  have hpos : (Nat.toDigits 10 n).length ≠ 0 := Nat.length_toDigits_pos.ne'
  unfold readDecimal readNumber
  rw [hread, Nat.ofDigitChars_ten_toDigits]
  dsimp only
  rw [Nat.zero_add, if_neg hpos, if_neg (fun h => Bool.noConfusion h.1)]

theorem readPort_toDigits (port : UInt16) :
    readPort (':' :: Nat.toDigits 10 port.toNat) = some (port, []) := by
  have hbound : port.toNat ≤ 65535 := Nat.lt_succ_iff.mp port.toNat_lt
  unfold readPort
  rw [readGivenChar_cons, if_pos rfl]
  dsimp only [Option.bind_eq_bind, Option.bind_some]
  rw [readDecimal_toDigits hbound]
  dsimp only [Option.bind_some]
  rw [UInt16.ofNat_toNat]
  rfl

/-!
# A host in front of its port
-/

section HostPort

variable {host port : List Char}

theorem followed_ne_nil : followed port host ≠ [] := by
  unfold followed
  exact List.append_ne_nil_of_right_ne_nil _ (List.cons_ne_nil _ _)

/-- What the host leaves over cannot be taken for the port. -/
theorem readPort_followed {c : Char} {read : UInt16 × List Char}
    (h : readPort (followed port (c :: host)) = some read) : read.2 ≠ [] := by
  unfold readPort at h
  rw [followed_cons, readGivenChar_cons] at h
  split at h
  · dsimp only [Option.bind_eq_bind, Option.bind_some] at h
    unfold readDecimal at h
    rw [readNumber_followed, Option.bind_map] at h
    rcases Option.bind_eq_some_iff.mp h with ⟨left, _, hread⟩
    have heq := Option.some.inj hread
    rw [← heq]
    exact followed_ne_nil
  · cases h

theorem readSocketAddrV6_followed (hbracket : host.head? ≠ some '[') :
    readSocketAddrV6 (followed port host) = none := by
  have hgiven : readGivenChar '[' (followed port host) = none := by
    cases host with
    | nil => rfl
    | cons c rest =>
        rw [followed_cons, readGivenChar_cons, if_neg]
        intro heq
        have hc := (asciiLowercase_eq_iff (by decide)).mp heq
        exact hbracket (congrArg some hc)
  unfold readSocketAddrV6
  rw [hgiven]
  rfl

end HostPort

section Text

variable {text : String} {host : List Char} {port : UInt16}

/-- Behind an IPv4 address the port is read. -/
theorem parse_ipv4Port {octets : List Nat}
    (htext : text.toList = followed (Nat.toDigits 10 port.toNat) host)
    (h : readIpv4 host = some (octets, [])) :
    parse text = some { ip := .v4 octets, port := port, scopeId := 0 } := by
  have hread : readSocketAddr (followed (Nat.toDigits 10 port.toNat) host) =
      some ({ ip := .v4 octets, port := port, scopeId := 0 }, []) := by
    unfold readSocketAddr readSocketAddrV4
    rw [readIpv4_followed, h]
    dsimp only [Option.map_some, Prod.map, Option.bind_eq_bind, Option.bind_some]
    rw [followed_nil, readPort_toDigits]
    rfl
  unfold parse
  rw [htext, hread]

/-- Behind any other host nothing is read, for only brackets let an IPv6 address stand
in front of a port. -/
theorem parse_otherPort (htext : text.toList = followed (Nat.toDigits 10 port.toNat) host)
    (hbracket : host.head? ≠ some '[')
    (h : forall octets : List Nat, readIpv4 host ≠ some (octets, [])) : parse text = none := by
  have hread : forall read, readSocketAddr (followed (Nat.toDigits 10 port.toNat) host) =
      some read -> read.2 ≠ [] := by
    intro read hread
    unfold readSocketAddr readSocketAddrV4 at hread
    rw [readSocketAddrV6_followed hbracket, Option.or_none, readIpv4_followed] at hread
    rcases Option.bind_eq_some_iff.mp hread with ⟨address, haddress, hport⟩
    rcases Option.map_eq_some_iff.mp haddress with ⟨⟨octets, rest⟩, hipv4, heq⟩
    rw [← heq] at hport
    rcases Option.bind_eq_some_iff.mp hport with ⟨behind, hbehind, hpure⟩
    have hresult := Option.some.inj hpure
    cases rest with
    | nil => exact absurd hipv4 (h octets)
    | cons c rest =>
        rw [← hresult]
        exact readPort_followed hbehind
  unfold parse
  rw [htext]
  cases hresult : readSocketAddr (followed (Nat.toDigits 10 port.toNat) host) with
  | none => rfl
  | some read =>
      rcases read with ⟨addr, rest⟩
      have hrest := hread _ hresult
      cases rest with
      | nil => exact absurd rfl hrest
      | cons c rest => rfl

end Text

end SocketAddr

/-!
# The check of an advertised address
-/

theorem IpAddr.parse_eq_v4_iff {text : String} {octets : List Nat} :
    IpAddr.parse text = some (.v4 octets) ↔ IpAddr.readIpv4 text.toList = some (octets, []) := by
  unfold IpAddr.parse
  constructor
  · intro h
    split at h
    · rename_i hread
      rw [hread]
      cases h
      rfl
    · cases h
    · split at h
      · cases h
      · cases h
  · intro h
    rw [h]

/-- What an accepted advertisement looks like. -/
structure Advertises (host : String) (port : UInt16) (allowPrivate : Bool) (addr : String) :
    Prop where
  text : addr.toList = IpAddr.followed (Nat.toDigits 10 port.toNat) (trim host).toList
  bracket : (trim host).toList.head? ≠ some '['
  portNonzero : port ≠ 0
  allowed : forall ip : IpAddr, IpAddr.parse (trim host) = some ip -> allowPrivate = false ->
    ip.isPrivateLike = false

theorem hostPort_toList (host : String) (port : UInt16) :
    (toAsciiLowercase host ++ ":" ++ toString port).toList =
      IpAddr.followed (Nat.toDigits 10 port.toNat) host.toList := by
  have hport : (toString port).toList = Nat.toDigits 10 port.toNat := Nat.toList_repr
  rw [String.toList_append, String.toList_append, hport, toAsciiLowercase_eq,
    String.toList_ofList, List.append_assoc]
  rfl

/-- A text that begins with a bracket is no address, and no name of a host. -/
theorem refused_bracket {host : String} (h : host.toList.head? = some '[') :
    IpAddr.parse host = none ∧ (asBytes host).all isHostByte = false := by
  rcases List.head?_eq_some_iff.mp h with ⟨rest, hchars⟩
  have hhost : host = String.ofList ('[' :: rest) := by
    rw [← hchars, String.ofList_toList]
  have hbracket : String.utf8EncodeChar '[' = [91] := by decide
  constructor
  · unfold IpAddr.parse
    rw [hchars]
    rfl
  · rw [hhost, asBytes_ofList, List.flatMap_cons, hbracket]
    rfl

theorem Advertises.of_validated {host : String} {port : UInt16} {allowPrivate : Bool}
    {addr : String}
    (h : validatedAdvertisedAddr (some host) (some port) allowPrivate = .ok (some addr)) :
    Advertises host port allowPrivate addr := by
  unfold validatedAdvertisedAddr at h
  dsimp only at h
  split at h
  · cases h
  · rename_i hpresent
    split at h
    · cases h
    · split at h
      · rename_i ip hip
        split at h
        · cases h
        · rename_i hallowed
          have haddr := Option.some.inj (Except.ok.inj h)
          exact {
            text := haddr ▸ hostPort_toList _ _
            bracket := by
              intro hbracket
              rw [(refused_bracket hbracket).1] at hip
              cases hip
            portNonzero := fun hzero => hpresent (Or.inr hzero)
            allowed := by
              intro other hother hforbid
              rw [hip] at hother
              rw [← Option.some.inj hother]
              exact Bool.eq_false_of_not_eq_true fun hprivate => hallowed ⟨hforbid, hprivate⟩ }
      · rename_i hname
        split at h
        · rename_i hbytes
          have haddr := Option.some.inj (Except.ok.inj h)
          exact {
            text := haddr ▸ hostPort_toList _ _
            bracket := by
              intro hbracket
              rw [(refused_bracket hbracket).2] at hbytes
              cases hbytes
            portNonzero := fun hzero => hpresent (Or.inr hzero)
            allowed := by
              intro ip hip
              rw [hname] at hip
              cases hip }
        · cases h

namespace Advertises

variable {host addr : String} {port : UInt16} {allowPrivate : Bool}

theorem parse_v4 (h : Advertises host port allowPrivate addr) {octets : List Nat}
    (hip : IpAddr.parse (trim host) = some (.v4 octets)) :
    SocketAddr.parse addr = some { ip := .v4 octets, port := port, scopeId := 0 } :=
  SocketAddr.parse_ipv4Port h.text (IpAddr.parse_eq_v4_iff.mp hip)

theorem parse_other (h : Advertises host port allowPrivate addr)
    (hip : forall octets : List Nat, IpAddr.parse (trim host) ≠ some (.v4 octets)) :
    SocketAddr.parse addr = none :=
  SocketAddr.parse_otherPort h.text h.bracket
    fun octets hread => hip octets (IpAddr.parse_eq_v4_iff.mpr hread)

/-- The dial check accepts an advertised address when its host is an IPv4 address, and
reads back what was advertised. -/
theorem validateDialAddress_eq_ok_iff (h : Advertises host port allowPrivate addr)
    {read : SocketAddr} : validateDialAddress addr allowPrivate = .ok read ↔
      exists octets : List Nat, IpAddr.parse (trim host) = some (.v4 octets) ∧
        read = { ip := .v4 octets, port := port, scopeId := 0 } := by
  unfold validateDialAddress
  by_cases hip : exists octets : List Nat, IpAddr.parse (trim host) = some (.v4 octets)
  · rcases hip with ⟨octets, hip⟩
    have hallowed : ¬ (allowPrivate = false ∧ (IpAddr.v4 octets).isPrivateLike) := by
      intro hprivate
      rw [h.allowed _ hip hprivate.1] at hprivate
      exact Bool.false_ne_true hprivate.2
    rw [h.parse_v4 hip]
    dsimp only
    rw [if_neg h.portNonzero, if_neg hallowed]
    constructor
    · intro hread
      exact ⟨octets, hip, (Except.ok.inj hread).symm⟩
    · rintro ⟨other, hother, hread⟩
      rw [hip] at hother
      cases hother
      rw [hread]
  · rw [h.parse_other fun octets hoctets => hip ⟨octets, hoctets⟩]
    constructor
    · intro hread
      cases hread
    · rintro ⟨octets, hoctets, _⟩
      exact absurd ⟨octets, hoctets⟩ hip

end Advertises

end VisionCore
