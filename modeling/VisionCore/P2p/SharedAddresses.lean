import Mathlib.Data.List.Destutter
import VisionCore.Chain.Sample
import VisionCore.P2p.PeerManager
import VisionCore.P2p.SocketAddress

/-!
# The addresses that a node shares

A node shares the address of each peer that it has dialed itself and of each peer that
has advertised one.  Other nodes dial what they are told only after their own check.
-/

namespace VisionCore

open Std Foundation

/-- Dropping neighbours that repeat loses no element. -/
theorem mem_destutter'_ne {Item : Type} [DecidableEq Item] {x : Item} (items : List Item) :
    forall first : Item, x ∈ items.destutter' (· ≠ ·) first ↔ x ∈ first :: items := by
  induction items with
  | nil =>
      intro first
      rw [List.destutter'_nil]
  | cons second rest ih =>
      intro first
      by_cases hne : first ≠ second
      · rw [List.destutter'_cons_pos rest hne, List.mem_cons, ih, List.mem_cons (a := x) (b := first)]
      · have heq : first = second := not_not.mp hne
        rw [List.destutter'_cons_neg rest hne, ih, heq, List.mem_cons, List.mem_cons,
          List.mem_cons, ← or_assoc, or_self]

theorem mem_destutter_ne {Item : Type} [DecidableEq Item] {x : Item} (items : List Item) :
    x ∈ items.destutter (· ≠ ·) ↔ x ∈ items := by
  cases items with
  | nil => rfl
  | cons first rest => exact mem_destutter'_ne rest first

/-!
# Which records are shared
-/

/-- The filter of `dialable_addresses`. -/
def Peer.isDialable (peer : Peer) : Bool :=
  peer.isOutbound || peer.advertisedAddr.isSome

namespace PeerManager

variable {pm : PeerManager} {addr : String} {limit : Nat}

/-- The addresses of the dialable records, without the bound on their number. -/
theorem mem_dialable_iff : addr ∈ ((pm.peers.toList.filter fun entry =>
      entry.2.isOutbound || entry.2.advertisedAddr.isSome).map fun entry => entry.2.addr) ↔
    exists (key : String) (peer : Peer), pm.peers[key]? = some peer ∧ peer.isDialable ∧ peer.addr = addr := by
  rw [List.mem_map]
  constructor
  · rintro ⟨⟨key, peer⟩, hmem, haddr⟩
    rcases List.mem_filter.mp hmem with ⟨hmem, hdialable⟩
    exact ⟨key, peer, ExtTreeMap.mem_toList_iff_getElem?_eq_some.mp hmem, hdialable, haddr⟩
  · rintro ⟨key, peer, hpeer, hdialable, haddr⟩
    refine ⟨(key, peer), List.mem_filter.mpr ⟨?_, hdialable⟩, haddr⟩
    exact ExtTreeMap.mem_toList_iff_getElem?_eq_some.mpr hpeer

theorem exists_of_mem_dialableAddresses (h : addr ∈ pm.dialableAddresses limit) :
    exists (key : String) (peer : Peer), pm.peers[key]? = some peer ∧ peer.isDialable ∧ peer.addr = addr := by
  have hmem := List.mem_of_mem_take h
  rw [mem_destutter_ne, List.mem_mergeSort] at hmem
  exact mem_dialable_iff.mp hmem

theorem mem_dialableAddresses {key : String} {peer : Peer} (hlimit : pm.peers.size ≤ limit)
    (hpeer : pm.peers[key]? = some peer) (hdialable : peer.isDialable) :
    peer.addr ∈ pm.dialableAddresses limit := by
  unfold dialableAddresses
  dsimp only
  rw [List.take_of_length_le, mem_destutter_ne, List.mem_mergeSort]
  · exact mem_dialable_iff.mpr ⟨key, peer, hpeer, hdialable, rfl⟩
  · refine (List.destutter_sublist _ _).length_le.trans ?_
    rw [List.length_mergeSort, List.length_map]
    refine (List.length_filter_le _ _).trans ?_
    rw [ExtTreeMap.length_toList]
    exact hlimit

/-- Each record stands under its own address, and exactly the addresses that `shared`
names are dialable. -/
structure Records (shared : String -> Prop) (pm : PeerManager) : Prop where
  addr : forall {key : String} {peer : Peer}, pm.peers[key]? = some peer -> peer.addr = key
  shared : forall key : String,
    (exists peer, pm.peers[key]? = some peer ∧ peer.isDialable) ↔ shared key

namespace Records

variable {shared : String -> Prop}

theorem empty : Records (fun _ => False) PeerManager.empty where
  addr := by
    intro key peer hpeer
    unfold PeerManager.empty at hpeer
    simp at hpeer
  shared := by
    intro key
    unfold PeerManager.empty
    simp

/-- A change of one record adds its address when it makes the record dialable. -/
theorem entry (h : Records shared pm) (dials : Bool) {key : String} {f : Peer -> Peer}
    {first : Peer} (hfaddr : forall peer, (f peer).addr = peer.addr)
    (hf : forall peer, (f peer).isDialable = (peer.isDialable || dials))
    (hfirstAddr : first.addr = key) (hfirst : first.isDialable = dials) :
    Records (fun other => shared other ∨ other = key ∧ dials = true)
      (pm.entry key f first) where
  addr := by
    intro other peer hpeer
    by_cases heq : key = other
    · rw [← heq, entry_get_self] at hpeer
      rw [← Option.some.inj hpeer, ← heq]
      cases hold : pm.peers[key]? with
      | none => exact hfirstAddr
      | some old => exact (hfaddr old).trans (h.addr hold)
    · rw [entry_get_of_ne heq] at hpeer
      exact h.addr hpeer
  shared := by
    intro other
    rw [← h.shared other]
    by_cases heq : key = other
    · rw [← heq, entry_get_self]
      cases hold : pm.peers[key]? with
      | none => simp [hfirst]
      | some old => simp [hf]
    · rw [entry_get_of_ne heq]
      simp [Ne.symm heq]

theorem congr {shared' : String -> Prop} (h : Records shared pm)
    (hiff : forall key, shared key ↔ shared' key) : Records shared' pm where
  addr := h.addr
  shared := fun key => (h.shared key).trans (hiff key)

theorem upsert (h : Records shared pm) (key : String) (isOutbound : Bool) :
    Records (fun other => shared other ∨ other = key ∧ isOutbound = true)
      (pm.upsert key isOutbound) := by
  refine h.entry isOutbound (fun peer => rfl) ?_ rfl ?_
  · intro peer
    unfold Peer.isDialable
    rw [Bool.or_assoc, Bool.or_comm isOutbound, ← Bool.or_assoc]
  · exact Bool.or_false isOutbound

theorem observeInbound (h : Records shared pm) (durable observed : String) :
    Records (fun other => shared other ∨ other = durable ∧ durable ≠ observed)
      (pm.observeInbound durable observed) := by
  have hobserve : forall peer : Peer,
      (if durable ≠ observed then
          { peer with observedAddr := some observed, advertisedAddr := some durable }
        else { peer with observedAddr := some observed } : Peer).isDialable =
        (peer.isDialable || decide (durable ≠ observed)) := by
    intro peer
    unfold Peer.isDialable
    by_cases hne : durable ≠ observed
    · rw [if_pos hne, decide_eq_true hne, Bool.or_true]
      exact Bool.or_true _
    · rw [if_neg hne, decide_eq_false hne, Bool.or_false]
  refine (h.entry (decide (durable ≠ observed)) ?_ hobserve ?_ (hobserve _)).congr ?_
  · intro peer
    split
    · rfl
    · rfl
  · split
    · rfl
    · rfl
  · intro key
    rw [decide_eq_true_iff]

end Records

theorem entry_size_le {key : String} {f : Peer -> Peer} {first : Peer} :
    (pm.entry key f first).peers.size ≤ pm.peers.size + 1 := by
  unfold entry
  cases pm.peers[key]? with
  | none => exact ExtTreeMap.size_insert_le
  | some peer => exact ExtTreeMap.size_insert_le

end PeerManager

/-!
# Runs
-/

inductive PeerCall where
  | upsert (addr : String) (isOutbound : Bool)
  | resolve (observedAddr : String) (handshake : HandshakeMessage)

namespace PeerCall

/-- A refused handshake leaves the records alone. -/
def run (allowPrivate : Bool) (pm : PeerManager) : PeerCall -> PeerManager
  | upsert addr isOutbound => pm.upsert addr isOutbound
  | resolve observedAddr handshake =>
      match pm.resolveInboundPeerKey observedAddr handshake allowPrivate with
      | .ok (_, pm) => pm
      | .error _ => pm

def runAll (allowPrivate : Bool) (calls : List PeerCall) : PeerManager :=
  calls.foldl (run allowPrivate) PeerManager.empty

/-- What `validated_advertised_addr` makes of a handshake. -/
def advertised (allowPrivate : Bool) (handshake : HandshakeMessage) :
    Except String (Option String) :=
  validatedAdvertisedAddr handshake.advertisedIp handshake.advertisedPort allowPrivate

/-- The call makes the address one that the node shares. -/
def Shares (allowPrivate : Bool) (addr : String) : PeerCall -> Prop
  | upsert key isOutbound => addr = key ∧ isOutbound = true
  | resolve observedAddr handshake =>
      advertised allowPrivate handshake = .ok (some addr) ∧ addr ≠ observedAddr

variable {allowPrivate : Bool} {pm : PeerManager} {shared : String -> Prop} {addr : String}

theorem shares_resolve_iff {observedAddr : String} {handshake : HandshakeMessage} :
    (resolve observedAddr handshake).Shares allowPrivate addr ↔
      advertised allowPrivate handshake = .ok (some addr) ∧ addr ≠ observedAddr :=
  Iff.rfl

theorem run_resolve (pm : PeerManager) (observedAddr : String) (handshake : HandshakeMessage) :
    (resolve observedAddr handshake).run allowPrivate pm =
      match advertised allowPrivate handshake with
      | .error _ => pm
      | .ok addr => pm.observeInbound (addr.getD observedAddr) observedAddr := by
  unfold run PeerManager.resolveInboundPeerKey advertised
  dsimp only
  cases validatedAdvertisedAddr handshake.advertisedIp handshake.advertisedPort allowPrivate with
  | error reason => rfl
  | ok addr => rfl

theorem records_run (h : PeerManager.Records shared pm) (call : PeerCall) :
    PeerManager.Records (fun addr => shared addr ∨ call.Shares allowPrivate addr)
      (call.run allowPrivate pm) := by
  cases call with
  | upsert addr isOutbound => exact h.upsert addr isOutbound
  | resolve observedAddr handshake =>
      rw [run_resolve]
      cases hadvertised : advertised allowPrivate handshake with
      | error reason =>
          refine h.congr ?_
          intro key
          rw [shares_resolve_iff, hadvertised]
          simp
      | ok advertisement =>
          refine (h.observeInbound _ _).congr ?_
          intro key
          rw [shares_resolve_iff, hadvertised, Except.ok.injEq]
          cases advertisement with
          | none => simp
          | some durable =>
              rw [Option.getD_some, Option.some_inj, eq_comm (a := key)]
              exact or_congr_right (and_congr_right fun heq => by rw [heq])

theorem records_foldl (calls : List PeerCall) : forall {shared : String -> Prop}
    {pm : PeerManager}, PeerManager.Records shared pm ->
      PeerManager.Records
        (fun addr => shared addr ∨ exists call, call ∈ calls ∧ call.Shares allowPrivate addr)
        (calls.foldl (run allowPrivate) pm) := by
  induction calls with
  | nil =>
      intro shared pm h
      refine h.congr ?_
      intro key
      simp
  | cons call rest ih =>
      intro shared pm h
      refine (ih (records_run h call)).congr ?_
      intro key
      simp [or_assoc]

theorem records_runAll (allowPrivate : Bool) (calls : List PeerCall) :
    PeerManager.Records
      (fun addr => exists call, call ∈ calls ∧ call.Shares allowPrivate addr)
      (runAll allowPrivate calls) := by
  refine (records_foldl calls PeerManager.Records.empty).congr ?_
  intro key
  rw [false_or]

theorem size_run_le (allowPrivate : Bool) (pm : PeerManager) (call : PeerCall) :
    (call.run allowPrivate pm).peers.size ≤ pm.peers.size + 1 := by
  cases call with
  | upsert addr isOutbound => exact PeerManager.entry_size_le
  | resolve observedAddr handshake =>
      rw [run_resolve]
      cases advertised allowPrivate handshake with
      | error reason => exact Nat.le_succ _
      | ok advertisement => exact PeerManager.entry_size_le

theorem size_foldl_le (allowPrivate : Bool) (calls : List PeerCall) : forall pm : PeerManager,
    (calls.foldl (run allowPrivate) pm).peers.size ≤ pm.peers.size + calls.length := by
  induction calls with
  | nil =>
      intro pm
      exact Nat.le_refl _
  | cons call rest ih =>
      intro pm
      have hcall := size_run_le allowPrivate pm call
      have hrest := ih (call.run allowPrivate pm)
      rw [List.length_cons, List.foldl_cons]
      omega

/-- What a node shares after some calls is what one of them made shareable. -/
theorem shares_of_mem {calls : List PeerCall} {limit : Nat}
    (h : addr ∈ (runAll allowPrivate calls).dialableAddresses limit) :
    exists call, call ∈ calls ∧ call.Shares allowPrivate addr := by
  have hrecords := records_runAll allowPrivate calls
  rcases PeerManager.exists_of_mem_dialableAddresses h with ⟨key, peer, hpeer, hdialable, haddr⟩
  rw [← haddr, hrecords.addr hpeer]
  exact (hrecords.shared key).mp ⟨peer, hpeer, hdialable⟩

/-- And with room for every call, all of it is shared. -/
theorem mem_of_shares {calls : List PeerCall} {call : PeerCall} {limit : Nat}
    (hlimit : calls.length ≤ limit) (hmem : call ∈ calls) (h : call.Shares allowPrivate addr) :
    addr ∈ (runAll allowPrivate calls).dialableAddresses limit := by
  have hrecords := records_runAll allowPrivate calls
  rcases (hrecords.shared addr).mpr ⟨call, hmem, h⟩ with ⟨peer, hpeer, hdialable⟩
  have hsize := size_foldl_le allowPrivate calls PeerManager.empty
  have hempty : PeerManager.empty.peers.size = 0 := rfl
  rw [hempty, Nat.zero_add] at hsize
  have hmem := PeerManager.mem_dialableAddresses (hsize.trans hlimit) hpeer hdialable
  rw [hrecords.addr hpeer] at hmem
  exact hmem

end PeerCall

/-!
# What is safe to share
-/

/-- The IPv4 address that an IPv6 address maps. -/
def IpAddr.mappedIpv4 : IpAddr -> Option IpAddr
  | v6 [0, 0, 0, 0, 0, 65535, high, low] =>
      some (v4 [high / 256, high % 256, low / 256, low % 256])
  | _ => none

/-- The address maps a loopback, private, link-local or unspecified IPv4 address. -/
def IpAddr.mapsPrivate (ip : IpAddr) : Bool :=
  ip.mappedIpv4.any IpAddr.isPrivateLike

/-- The address denotes a host that a public node must not name. -/
def IpAddr.denotesPrivate (ip : IpAddr) : Bool :=
  ip.isPrivateLike || ip.mapsPrivate

/-- After `calls`, every address that the node shares can be dialed and is public, and the
address of an advertised IP literal reads back as what was advertised. -/
structure SafeToShare (allowPrivate : Bool) (calls : List PeerCall) : Prop where
  accepted : forall {limit : Nat} {addr : String},
    addr ∈ (PeerCall.runAll allowPrivate calls).dialableAddresses limit ->
      exists read, validateDialAddress addr allowPrivate = .ok read
  readBack : forall {limit : Nat} {addr observedAddr host : String}
    {handshake : HandshakeMessage} {port : UInt16} {ip : IpAddr},
    PeerCall.resolve observedAddr handshake ∈ calls -> handshake.advertisedIp = some host ->
      handshake.advertisedPort = some port -> IpAddr.parse (trim host) = some ip ->
      PeerCall.advertised allowPrivate handshake = .ok (some addr) ->
      addr ∈ (PeerCall.runAll allowPrivate calls).dialableAddresses limit ->
      exists read, SocketAddr.parse addr = some read ∧ read.ip = ip ∧ read.port = port
  isPublic : allowPrivate = false -> forall {limit : Nat} {addr : String} {read : SocketAddr},
    addr ∈ (PeerCall.runAll allowPrivate calls).dialableAddresses limit ->
      SocketAddr.parse addr = some read -> read.ip.denotesPrivate = false

namespace PeerCall

variable {allowPrivate : Bool}

/-- Callers hand over addresses that have passed the dial check. -/
def Checked (allowPrivate : Bool) : PeerCall -> Prop
  | upsert addr _ => exists read, validateDialAddress addr allowPrivate = .ok read
  | resolve _ _ => True

/-- A dialed address maps no private one, and an advertised host is an IPv4 address. -/
def Plain (allowPrivate : Bool) : PeerCall -> Prop
  | upsert addr isOutbound => isOutbound = true -> allowPrivate = false ->
      forall read, SocketAddr.parse addr = some read -> read.ip.mapsPrivate = false
  | resolve observedAddr handshake => forall host addr, handshake.advertisedIp = some host ->
      advertised allowPrivate handshake = .ok (some addr) -> addr ≠ observedAddr ->
        exists octets, IpAddr.parse (trim host) = some (.v4 octets)

theorem advertises_of_advertised {handshake : HandshakeMessage} {addr : String}
    (h : advertised allowPrivate handshake = .ok (some addr)) :
    exists host port, handshake.advertisedIp = some host ∧
      handshake.advertisedPort = some port ∧ Advertises host port allowPrivate addr := by
  unfold advertised at h
  cases hhost : handshake.advertisedIp with
  | none =>
      rw [hhost] at h
      cases h
  | some host =>
      cases hport : handshake.advertisedPort with
      | none =>
          rw [hhost, hport] at h
          cases h
      | some port =>
          rw [hhost, hport] at h
          exact ⟨host, port, rfl, rfl, Advertises.of_validated h⟩

theorem of_validateDialAddress {value : String} {read : SocketAddr}
    (h : validateDialAddress value allowPrivate = .ok read) :
    SocketAddr.parse value = some read ∧
      (allowPrivate = false -> read.ip.isPrivateLike = false) := by
  unfold validateDialAddress at h
  split at h
  · cases h
  · rename_i addr hparse
    split at h
    · cases h
    · split at h
      · cases h
      · rename_i hallowed
        rw [← Except.ok.inj h]
        refine ⟨hparse, ?_⟩
        intro hforbid
        exact Bool.eq_false_of_not_eq_true fun hprivate => hallowed ⟨hforbid, hprivate⟩

/-- A plain call makes only addresses shareable that pass the check and are public. -/
theorem Plain.shares {call : PeerCall} (hplain : call.Plain allowPrivate)
    (hchecked : call.Checked allowPrivate) {addr : String}
    (h : call.Shares allowPrivate addr) :
    exists read, validateDialAddress addr allowPrivate = .ok read ∧
      (allowPrivate = false -> read.ip.denotesPrivate = false) := by
  cases call with
  | upsert key isOutbound =>
      rcases h with ⟨rfl, hisOutbound⟩
      rcases hchecked with ⟨read, hread⟩
      rcases of_validateDialAddress hread with ⟨hparse, hallowed⟩
      refine ⟨read, hread, ?_⟩
      intro hforbid
      unfold IpAddr.denotesPrivate
      rw [hallowed hforbid, hplain hisOutbound hforbid read hparse]
      rfl
  | resolve observedAddr handshake =>
      rcases h with ⟨hadvertised, hother⟩
      rcases advertises_of_advertised hadvertised with ⟨host, port, hhost, _, hadvertises⟩
      rcases hplain host addr hhost hadvertised hother with ⟨octets, hoctets⟩
      refine ⟨_, hadvertises.validateDialAddress_eq_ok_iff.mpr ⟨octets, hoctets, rfl⟩, ?_⟩
      intro hforbid
      unfold IpAddr.denotesPrivate
      rw [hadvertises.allowed _ hoctets hforbid]
      rfl

/-- And a call whose addresses are all safe is plain. -/
theorem plain_of_shares {call : PeerCall}
    (h : forall addr, call.Shares allowPrivate addr ->
      exists read, validateDialAddress addr allowPrivate = .ok read ∧
        (allowPrivate = false -> read.ip.denotesPrivate = false)) :
    call.Plain allowPrivate := by
  cases call with
  | upsert key isOutbound =>
      intro hisOutbound hforbid read hparse
      rcases h key ⟨rfl, hisOutbound⟩ with ⟨other, hread, hpublic⟩
      rw [(of_validateDialAddress hread).1] at hparse
      rw [← Option.some.inj hparse]
      exact (Bool.or_eq_false_iff.mp (hpublic hforbid)).2
  | resolve observedAddr handshake =>
      intro host addr hhost hadvertised hother
      rcases advertises_of_advertised hadvertised with ⟨other, port, hsome, _, hadvertises⟩
      rw [hhost] at hsome
      rw [Option.some.inj hsome]
      rcases h addr ⟨hadvertised, hother⟩ with ⟨read, hread, _⟩
      rcases hadvertises.validateDialAddress_eq_ok_iff.mp hread with ⟨octets, hoctets, _⟩
      exact ⟨octets, hoctets⟩

end PeerCall

theorem SafeToShare.of_shares {allowPrivate : Bool} {calls : List PeerCall}
    (h : forall call, call ∈ calls -> forall addr, call.Shares allowPrivate addr ->
      exists read, validateDialAddress addr allowPrivate = .ok read ∧
        (allowPrivate = false -> read.ip.denotesPrivate = false)) :
    SafeToShare allowPrivate calls := by
  have hsafe : forall {limit : Nat} {addr : String},
      addr ∈ (PeerCall.runAll allowPrivate calls).dialableAddresses limit ->
        exists read, validateDialAddress addr allowPrivate = .ok read ∧
          (allowPrivate = false -> read.ip.denotesPrivate = false) := by
    intro limit addr hmem
    rcases PeerCall.shares_of_mem hmem with ⟨call, hcall, hshares⟩
    exact h call hcall addr hshares
  exact {
    accepted := by
      intro limit addr hmem
      rcases hsafe hmem with ⟨read, hread, _⟩
      exact ⟨read, hread⟩
    readBack := by
      intro limit addr observedAddr host handshake port ip _ hhost hport hip hadvertised hmem
      rcases hsafe hmem with ⟨read, hread, _⟩
      rcases PeerCall.advertises_of_advertised hadvertised with
        ⟨host', port', hhost', hport', hadvertises⟩
      rw [hhost] at hhost'
      rw [hport] at hport'
      cases hhost'
      cases hport'
      rcases hadvertises.validateDialAddress_eq_ok_iff.mp hread with ⟨octets, hoctets, heq⟩
      rw [hip] at hoctets
      refine ⟨read, (PeerCall.of_validateDialAddress hread).1, ?_, ?_⟩
      · rw [heq, Option.some.inj hoctets]
      · rw [heq]
    isPublic := by
      intro hforbid limit addr read hmem hparse
      rcases hsafe hmem with ⟨other, hread, hpublic⟩
      rw [(PeerCall.of_validateDialAddress hread).1] at hparse
      rw [← Option.some.inj hparse]
      exact hpublic hforbid }

theorem SafeToShare.shares {allowPrivate : Bool} {calls : List PeerCall}
    (h : SafeToShare allowPrivate calls) {call : PeerCall} (hmem : call ∈ calls) {addr : String}
    (hshares : call.Shares allowPrivate addr) :
    exists read, validateDialAddress addr allowPrivate = .ok read ∧
      (allowPrivate = false -> read.ip.denotesPrivate = false) := by
  have hshared := PeerCall.mem_of_shares (Nat.le_refl calls.length) hmem hshares
  rcases h.accepted hshared with ⟨read, hread⟩
  refine ⟨read, hread, ?_⟩
  intro hforbid
  exact h.isPublic hforbid hshared (PeerCall.of_validateDialAddress hread).1

/-- Every state of a run is safe to share exactly when each call of the run is plain. -/
theorem safeToShare_iff_plain (allowPrivate : Bool) (calls : List PeerCall)
    (hchecked : forall call, call ∈ calls -> call.Checked allowPrivate) :
    (forall count : Nat, SafeToShare allowPrivate (calls.take count)) ↔
      forall call, call ∈ calls -> call.Plain allowPrivate := by
  constructor
  · intro hsafe call hmem
    have hlast := hsafe calls.length
    rw [List.take_length] at hlast
    exact PeerCall.plain_of_shares fun addr hshares => hlast.shares hmem hshares
  · intro hplain count
    apply SafeToShare.of_shares
    intro call hmem addr hshares
    have hcall := List.mem_of_mem_take hmem
    exact (hplain call hcall).shares (hchecked call hcall) hshares

/-- The handshake of a node that advertises `host` and port 9000. -/
def advertisingHandshake (host : String) : HandshakeMessage :=
  HandshakeMessage.newWithAdvertised samplePlatform 0 7 (some host) (some 9000)

/-- A dialed peer, and one that has advertised its own address. -/
def publicCalls : List PeerCall :=
  [.upsert "198.51.100.9:9001" true,
    .resolve "203.0.113.5:50000" (advertisingHandshake " 203.0.113.5 ")]

theorem safeToShare_iff_plain_sample :
    (forall count : Nat, SafeToShare false (publicCalls.take count)) ↔
      forall call, call ∈ publicCalls -> call.Plain false := by
  apply safeToShare_iff_plain
  intro call hmem
  rcases List.mem_cons.mp hmem with rfl | hmem
  · exact ⟨{ ip := .v4 [198, 51, 100, 9], port := 9001, scopeId := 0 }, by decide +kernel⟩
  · rw [List.mem_singleton.mp hmem]
    trivial

/-- An IPv6 literal, a name and a dialed address that maps a private one. -/
def strayCalls : List PeerCall :=
  [.resolve "198.51.100.7:50000" (advertisingHandshake "2001:db8::7"),
    .resolve "198.51.100.8:50000" (advertisingHandshake "node.example"),
    .upsert "[::ffff:10.0.0.1]:9001" true]

theorem strayCalls_unsafe :
    (forall call, call ∈ strayCalls -> call.Checked false) ∧
      (forall addr, addr ∈ ["2001:db8::7:9000", "node.example:9000", "[::ffff:10.0.0.1]:9001"] ->
        addr ∈ (PeerCall.runAll false strayCalls).dialableAddresses 32) ∧
      validateDialAddress "2001:db8::7:9000" false = .error (.invalid "2001:db8::7:9000") ∧
      validateDialAddress "node.example:9000" false = .error (.invalid "node.example:9000") ∧
      SocketAddr.parse "[::ffff:10.0.0.1]:9001" =
        some { ip := .v6 [0, 0, 0, 0, 0, 65535, 2560, 1], port := 9001, scopeId := 0 } ∧
      (IpAddr.v6 [0, 0, 0, 0, 0, 65535, 2560, 1]).denotesPrivate = true ∧
      ¬ SafeToShare false strayCalls := by
  have hipv6 : PeerCall.advertised false (advertisingHandshake "2001:db8::7") =
      .ok (some "2001:db8::7:9000") := by decide +kernel
  have hname : PeerCall.advertised false (advertisingHandshake "node.example") =
      .ok (some "node.example:9000") := by decide +kernel
  have hrefused : validateDialAddress "2001:db8::7:9000" false =
      .error (.invalid "2001:db8::7:9000") := by decide +kernel
  have hmapped : validateDialAddress "[::ffff:10.0.0.1]:9001" false =
      .ok { ip := .v6 [0, 0, 0, 0, 0, 65535, 2560, 1], port := 9001, scopeId := 0 } := by
    decide +kernel
  have hshared : forall call, call ∈ strayCalls -> forall addr, call.Shares false addr ->
      addr ∈ (PeerCall.runAll false strayCalls).dialableAddresses 32 :=
    fun call hmem addr h => PeerCall.mem_of_shares (by decide) hmem h
  have hfirst : "2001:db8::7:9000" ∈
      (PeerCall.runAll false strayCalls).dialableAddresses 32 :=
    hshared _ List.mem_cons_self _ ⟨hipv6, by decide⟩
  refine ⟨?_, ?_, hrefused, by decide +kernel, by decide +kernel, by decide, ?_⟩
  · intro call hmem
    rcases List.mem_cons.mp hmem with rfl | hmem
    · trivial
    · rcases List.mem_cons.mp hmem with rfl | hmem
      · trivial
      · rw [List.mem_singleton.mp hmem]
        exact ⟨_, hmapped⟩
  · intro addr hmem
    rcases List.mem_cons.mp hmem with rfl | hmem
    · exact hfirst
    · rcases List.mem_cons.mp hmem with rfl | hmem
      · exact hshared _ (List.mem_cons_of_mem _ List.mem_cons_self) _ ⟨hname, by decide⟩
      · rw [List.mem_singleton.mp hmem]
        exact hshared _ (List.mem_cons_of_mem _ (List.mem_cons_of_mem _ List.mem_cons_self)) _
          ⟨rfl, rfl⟩
  · intro hsafe
    rcases hsafe.accepted hfirst with ⟨read, hread⟩
    rw [hrefused] at hread
    cases hread

end VisionCore
