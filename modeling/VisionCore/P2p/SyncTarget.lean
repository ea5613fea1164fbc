import VisionCore.Foundation.Selection
import VisionCore.P2p.SessionActions

/-!
# The choice of a peer to sync from

A node that lags in height catches up with the highest usable peer.  Otherwise it
looks for a usable peer with more work.  Only the second rule compares work, so a
peer that is merely higher comes before a heavier one once the lag is large enough.
-/

namespace VisionCore

open Std Foundation

/-!
# Freshness
-/

/-- Nanoseconds of the monotonic clock. -/
def ticksPerSecond : Nat := 1000000000

def elapsedSecs (now instant : Nat) : Nat :=
  (now - instant) / ticksPerSecond

def peerHeightStaleSecs : Nat := 45

def heightPollResponseWindowSecs : Nat := 10

def syncLagThreshold : UInt64 := 5

namespace Peer

def isHeightFresh (peer : Peer) (now : Nat) : Bool :=
  peer.lastHeightUpdatedAt.any fun t => decide (elapsedSecs now t < peerHeightStaleSecs)

def isHeightPollStalled (peer : Peer) (now : Nat) : Bool :=
  match peer.lastHeightPollSentAt, peer.lastHeightResponseAt with
  | some sent, some recv =>
      decide (sent > recv) && decide (elapsedSecs now sent ≥ heightPollResponseWindowSecs)
  | some sent, none => decide (elapsedSecs now sent ≥ heightPollResponseWindowSecs)
  | none, _ => false

def summary (peer : Peer) : ChainSummary :=
  { height := peer.height
    tipHash := peer.tipHash
    cumulativeWork := peer.cumulativeWork }

/-- Connected, with a fresh summary and no unanswered poll. -/
def usable (peer : Peer) (now : Nat) : Bool :=
  decide (peer.state = .connected) && peer.isHeightFresh now && !peer.isHeightPollStalled now

/-- Higher first, then the smaller address. -/
def byHeight : Peer -> Peer -> Ordering :=
  compareLex (compareOn Peer.height) fun a b => compareOn Peer.addr b a

/-- Heavier first, then higher, then the smaller address. -/
def byWork : Peer -> Peer -> Ordering :=
  compareLex (compareOn Peer.cumulativeWork) byHeight

end Peer

/-!
# The scans of the peer table
-/

namespace PeerManager

def values (pm : PeerManager) : List Peer :=
  pm.peers.toList.map Prod.snd

def bestRemoteHeight (pm : PeerManager) (now : Nat) : UInt64 :=
  (maxBy compare ((pm.values.filter fun peer => peer.usable now).map Peer.height)).getD 0

def bestSyncTarget (pm : PeerManager) (localHeight : UInt64) (now : Nat) : Option String :=
  (maxBy Peer.byHeight (pm.values.filter fun peer =>
    peer.usable now && decide (peer.height > localHeight))).map Peer.addr

def bestWorkSyncTarget (pm : PeerManager) (localTipHash : String) (localWork now : Nat) :
    Option String :=
  (maxBy Peer.byWork (pm.values.filter fun peer =>
    peer.usable now && decide (peer.cumulativeWork > localWork) &&
      decide (peer.tipHash ≠ some localTipHash) && peer.tipHash.isSome)).map Peer.addr

def peerSummary (pm : PeerManager) (addr : String) : Option ChainSummary :=
  pm.peers[addr]?.map Peer.summary

end PeerManager

inductive SyncDecision where
  | synced
  | behind (peerAddr : String) (lag : UInt64)
  | higherWork (peerAddr : String) (remoteWork localWork : Nat)
deriving DecidableEq, Repr

def SyncDecision.peerAddr : SyncDecision -> Option String
  | synced => none
  | behind peerAddr _ => some peerAddr
  | higherWork peerAddr _ _ => some peerAddr

/-- The instants at which the three scans read the clock. -/
structure ScanTimes where
  height : Nat
  target : Nat
  work : Nat

def heightLag (pm : PeerManager) («local» : ChainSummary) (now : Nat) : UInt64 :=
  UInt64.ofNat ((pm.bestRemoteHeight now).toNat - «local».height.toNat)

/-- The peer to catch up with when the lag is large enough. -/
def heightTarget (pm : PeerManager) («local» : ChainSummary) (times : ScanTimes) :
    Option String :=
  if heightLag pm «local» times.height ≥ syncLagThreshold then
    pm.bestSyncTarget «local».height times.target
  else none

def workTarget (pm : PeerManager) («local» : ChainSummary) (times : ScanTimes) : SyncDecision :=
  match «local».tipHash with
  | none => .synced
  | some localTip =>
      match pm.bestWorkSyncTarget localTip «local».cumulativeWork times.work with
      | none => .synced
      | some peerAddr =>
          match pm.peerSummary peerAddr with
          | none => .synced
          | some remote => .higherWork peerAddr remote.cumulativeWork «local».cumulativeWork

def shouldSyncForSummary (pm : PeerManager) («local» : ChainSummary) (times : ScanTimes) :
    SyncDecision :=
  match heightTarget pm «local» times with
  | some peerAddr => .behind peerAddr (heightLag pm «local» times.height)
  | none => workTarget pm «local» times

/-!
# Keys
-/

/-- Every record is kept under its own address. -/
def PeerManager.WellKeyed (pm : PeerManager) : Prop :=
  forall (addr : String) (peer : Peer), pm.peers[addr]? = some peer -> peer.addr = addr

namespace PeerManager.WellKeyed

variable {pm : PeerManager} {addr : String} {f : Peer -> Peer} {first : Peer}

theorem empty : PeerManager.empty.WellKeyed := by
  intro addr peer h
  simp [PeerManager.empty] at h

theorem update (h : pm.WellKeyed) (hf : forall peer, (f peer).addr = peer.addr) :
    (pm.update addr f).WellKeyed := by
  intro addr' peer hpeer
  rw [PeerManager.update_get] at hpeer
  split at hpeer
  · rcases Option.map_eq_some_iff.mp hpeer with ⟨old, hold, rfl⟩
    rw [hf, h _ _ hold]
  · exact h _ _ hpeer

theorem entry (h : pm.WellKeyed) (hf : forall peer, (f peer).addr = peer.addr)
    (hfirst : first.addr = addr) : (pm.entry addr f first).WellKeyed := by
  intro addr' peer hpeer
  by_cases heq : addr = addr'
  · subst heq
    rw [PeerManager.entry_get_self] at hpeer
    cases hold : pm.peers[addr]? with
    | none =>
        rw [hold] at hpeer
        cases hpeer
        exact hfirst
    | some old =>
        rw [hold] at hpeer
        cases hpeer
        exact (hf old).trans (h _ _ hold)
  · rw [PeerManager.entry_get_of_ne heq] at hpeer
    exact h _ _ hpeer

end PeerManager.WellKeyed

theorem addr_noteHeight (peer : Peer) (height : UInt64) (now : Nat) :
    (peer.noteHeight height now).addr = peer.addr := by
  unfold Peer.noteHeight
  split
  · rfl
  · rfl

theorem addr_noteSummaryFrom (peer : Peer) (summary : ChainSummary) (generation : Option UInt64)
    (source : Option String) (now : Nat) :
    (peer.noteSummaryFrom summary generation source now).addr = peer.addr := by
  unfold Peer.noteSummaryFrom
  split
  · rfl
  · dsimp only
    split
    · rfl
    · rfl

theorem addr_setState (peer : Peer) (state : PeerState) : (peer.setState state).addr = peer.addr := by
  cases state with
  | connected => rfl
  | connecting => rfl
  | disconnected => rfl
  | knownOnly => rfl

theorem addr_disconnectIfGeneration (peer : Peer) (generation : UInt64) :
    (peer.disconnectIfGeneration generation).addr = peer.addr := by
  unfold Peer.disconnectIfGeneration
  split
  · rfl
  · rfl

theorem PeerOp.wellKeyed {pm : PeerManager} (h : pm.WellKeyed) (now : Nat) (op : PeerOp) :
    (op.apply now pm).WellKeyed := by
  cases op with
  | upsert addr isOutbound => exact h.entry (fun _ => rfl) rfl
  | setState addr state => exact h.update fun peer => addr_setState peer state
  | observeInbound durableAddr observedAddr =>
      unfold PeerOp.apply PeerManager.observeInbound
      dsimp only
      split
      · exact h.entry (fun _ => rfl) rfl
      · exact h.entry (fun _ => rfl) rfl
  | connectSession addr generation => exact h.update fun _ => rfl
  | noteHeight addr height => exact h.update fun peer => addr_noteHeight peer height now
  | noteSummaryFrom addr summary generation source =>
      exact h.update fun peer => addr_noteSummaryFrom peer summary generation source now
  | heightPollSent addr => exact h.update fun _ => rfl
  | disconnectIfGeneration addr generation =>
      exact h.update fun peer => addr_disconnectIfGeneration peer generation

/-- Every table that sessions build is well keyed. -/
theorem wellKeyed_ops (ops : List (Nat × PeerOp)) :
    (ops.foldl (fun pm entry => entry.2.apply entry.1 pm) PeerManager.empty).WellKeyed := by
  have hrun : forall pm : PeerManager, pm.WellKeyed ->
      (ops.foldl (fun pm entry => entry.2.apply entry.1 pm) pm).WellKeyed := by
    induction ops with
    | nil => exact fun pm h => h
    | cons entry rest ih => exact fun pm h => ih _ (PeerOp.wellKeyed h entry.1 entry.2)
  exact hrun PeerManager.empty PeerManager.WellKeyed.empty

/-!
# The named peer
-/

section Targets

variable {pm : PeerManager} {addr localTip : String} {peer : Peer} {summary : ChainSummary}
  {times : ScanTimes} {now : Nat}

/-- A usable peer whose tip is not the local one and has more work. -/
structure Heavier (pm : PeerManager) (summary : ChainSummary) (now : Nat) (peer : Peer) :
    Prop where
  recorded : pm.peers[peer.addr]? = some peer
  usable : peer.usable now = true
  tip : exists tip, peer.tipHash = some tip ∧ summary.tipHash ≠ some tip
  work : summary.cumulativeWork < peer.cumulativeWork

/-- A usable peer above the local height that no usable peer exceeds in height. -/
structure Highest (pm : PeerManager) (summary : ChainSummary) (now : Nat) (peer : Peer) :
    Prop where
  recorded : pm.peers[peer.addr]? = some peer
  usable : peer.usable now = true
  height : summary.height < peer.height
  highest : forall other, other ∈ pm.values -> other.usable now = true ->
    summary.height < other.height -> other.height ≤ peer.height

theorem mem_values (hkeys : pm.WellKeyed) : peer ∈ pm.values ↔ pm.peers[peer.addr]? = some peer := by
  unfold PeerManager.values
  rw [List.mem_map]
  constructor
  · rintro ⟨⟨key, record⟩, hmem, rfl⟩
    rw [ExtTreeMap.mem_toList_iff_getElem?_eq_some] at hmem
    dsimp only at hmem ⊢
    rw [hkeys _ _ hmem]
    exact hmem
  · intro h
    exact ⟨(peer.addr, peer), ExtTreeMap.mem_toList_iff_getElem?_eq_some.mpr h, rfl⟩

instance : TransCmp Peer.byHeight := by
  have haddr : TransCmp fun a b : Peer => compareOn Peer.addr b a := TransCmp.opposite
  unfold Peer.byHeight
  infer_instance

theorem le_of_byHeight {a b : Peer} (h : (Peer.byHeight a b).isLE) : a.height ≤ b.height := by
  unfold Peer.byHeight compareLex at h
  have hfirst := Ordering.isLE_left_of_isLE_then h
  exact Std.isLE_compare.mp hfirst

theorem bestSyncTarget_spec (hkeys : pm.WellKeyed)
    (h : pm.bestSyncTarget summary.height now = some addr) :
    exists peer, peer.addr = addr ∧ Highest pm summary now peer := by
  rcases Option.map_eq_some_iff.mp h with ⟨peer, hmax, haddr⟩
  have hmem := List.mem_filter.mp (maxBy_mem hmax)
  have hparts : peer.usable now = true ∧ summary.height < peer.height := by
    simpa using hmem.2
  refine ⟨peer, haddr, (mem_values hkeys).mp hmem.1, hparts.1, hparts.2, ?_⟩
  intro other hother husable hheight
  apply le_of_byHeight
  apply le_maxBy hmax
  rw [List.mem_filter]
  refine ⟨hother, ?_⟩
  simp [husable, hheight]

theorem bestWorkSyncTarget_spec (hkeys : pm.WellKeyed) (htip : summary.tipHash = some localTip)
    (h : pm.bestWorkSyncTarget localTip summary.cumulativeWork now = some addr) :
    exists peer, peer.addr = addr ∧ Heavier pm summary now peer := by
  rcases Option.map_eq_some_iff.mp h with ⟨peer, hmax, haddr⟩
  have hmem := List.mem_filter.mp (maxBy_mem hmax)
  have hparts : ((peer.usable now = true ∧ summary.cumulativeWork < peer.cumulativeWork) ∧
      peer.tipHash ≠ some localTip) ∧ peer.tipHash.isSome = true := by
    simpa using hmem.2
  rcases Option.isSome_iff_exists.mp hparts.2 with ⟨tip, hpeerTip⟩
  refine ⟨peer, haddr, (mem_values hkeys).mp hmem.1, hparts.1.1.1, ⟨tip, hpeerTip, ?_⟩,
    hparts.1.1.2⟩
  rw [htip, ← hpeerTip]
  exact fun heq => hparts.1.2 heq.symm

theorem exists_bestWorkSyncTarget (hkeys : pm.WellKeyed)
    (htip : summary.tipHash = some localTip) (h : Heavier pm summary now peer) :
    exists addr, pm.bestWorkSyncTarget localTip summary.cumulativeWork now = some addr := by
  rcases h.tip with ⟨tip, hpeerTip, hne⟩
  have hmem : peer ∈ pm.values.filter fun peer =>
      peer.usable now && decide (peer.cumulativeWork > summary.cumulativeWork) &&
        decide (peer.tipHash ≠ some localTip) && peer.tipHash.isSome := by
    rw [List.mem_filter]
    refine ⟨(mem_values hkeys).mpr h.recorded, ?_⟩
    rw [htip] at hne
    simp [h.usable, h.work, hpeerTip, Ne.symm (fun heq => hne (congrArg some heq) : localTip ≠ tip)]
  rcases exists_maxBy hmem with ⟨best, hbest⟩
  exact ⟨best.addr, Option.map_eq_some_iff.mpr ⟨best, hbest, rfl⟩⟩

/-- With a heavier peer in the table the second rule names one. -/
theorem workTarget_spec (hkeys : pm.WellKeyed) (htip : summary.tipHash = some localTip)
    (h : Heavier pm summary times.work peer) :
    exists named, Heavier pm summary times.work named ∧
      workTarget pm summary times =
        .higherWork named.addr named.cumulativeWork summary.cumulativeWork := by
  rcases exists_bestWorkSyncTarget hkeys htip h with ⟨addr, hbest⟩
  rcases bestWorkSyncTarget_spec hkeys htip hbest with ⟨named, rfl, hheavier⟩
  refine ⟨named, hheavier, ?_⟩
  have hsummary : pm.peerSummary named.addr = some named.summary := by
    unfold PeerManager.peerSummary
    rw [hheavier.recorded]
    rfl
  unfold workTarget
  rw [htip]
  dsimp only
  rw [hbest]
  dsimp only
  rw [hsummary]
  rfl

/-- With a heavier peer in the table a peer is named, and it has more work than the
local chain, or the height rule applies and it is the highest. -/
theorem syncTarget_of_heavier (hkeys : pm.WellKeyed) (htip : summary.tipHash = some localTip)
    (h : Heavier pm summary times.work peer) :
    shouldSyncForSummary pm summary times ≠ .synced ∧
      forall addr, (shouldSyncForSummary pm summary times).peerAddr = some addr ->
        exists named, pm.peers[addr]? = some named ∧
          (summary.cumulativeWork < named.cumulativeWork ∨
            syncLagThreshold ≤ heightLag pm summary times.height ∧
              Highest pm summary times.target named) := by
  unfold shouldSyncForSummary
  cases htarget : heightTarget pm summary times with
  | none =>
      rcases workTarget_spec hkeys htip h with ⟨named, hheavier, hdecision⟩
      dsimp only
      rw [hdecision]
      refine ⟨fun heq => (by cases heq), ?_⟩
      intro addr haddr
      cases haddr
      exact ⟨named, hheavier.recorded, Or.inl hheavier.work⟩
  | some target =>
      refine ⟨fun heq => (by cases heq), ?_⟩
      intro addr haddr
      cases haddr
      unfold heightTarget at htarget
      split at htarget
      · rename_i hlag
        rcases bestSyncTarget_spec hkeys htarget with ⟨named, rfl, hhighest⟩
        exact ⟨named, hhighest.recorded, Or.inr ⟨hlag, hhighest⟩⟩
      · cases htarget

end Targets

/-!
# A peer that is merely higher
-/

def sampleLocalSummary : ChainSummary :=
  { height := 90, tipHash := some "local", cumulativeWork := 500 }

/-- A higher peer with little work and a heavier peer at the local height. -/
def rivalPeers : PeerManager :=
  ([(0, .upsert "higher:1" true), (0, .setState "higher:1" .connected),
    (0, .noteSummaryFrom "higher:1"
      { height := 100, tipHash := some "light", cumulativeWork := 50 } none none),
    (0, .upsert "heavier:1" true), (0, .setState "heavier:1" .connected),
    (0, .noteSummaryFrom "heavier:1"
      { height := 90, tipHash := some "heavy", cumulativeWork := 1000 } none none)] :
        List (Nat × PeerOp)).foldl (fun pm entry => entry.2.apply entry.1 pm) PeerManager.empty

def sampleScans : ScanTimes :=
  { height := 1, target := 1, work := 1 }

theorem rivalPeers_records :
    (rivalPeers.peers["heavier:1"]?.map fun peer =>
        (peer.addr, peer.usable 1, peer.tipHash, peer.cumulativeWork)) =
      some ("heavier:1", true, some "heavy", 1000) ∧
      (rivalPeers.peers["higher:1"]?.map Peer.cumulativeWork) = some 50 ∧
      shouldSyncForSummary rivalPeers sampleLocalSummary sampleScans = .behind "higher:1" 10 := by
  decide +kernel

theorem rivalPeers_heavier : exists peer, Heavier rivalPeers sampleLocalSummary 1 peer := by
  rcases Option.map_eq_some_iff.mp rivalPeers_records.1 with ⟨peer, hpeer, hvalues⟩
  simp only [Prod.mk.injEq] at hvalues
  rcases hvalues with ⟨haddr, husable, htip, hwork⟩
  refine ⟨peer, by rw [haddr]; exact hpeer, husable, ⟨"heavy", htip, by decide⟩, ?_⟩
  rw [hwork]
  decide

theorem syncTarget_rivalPeers :
    shouldSyncForSummary rivalPeers sampleLocalSummary sampleScans ≠ .synced := by
  rcases rivalPeers_heavier with ⟨peer, hheavier⟩
  have hnamed : shouldSyncForSummary rivalPeers sampleLocalSummary sampleScans ≠ .synced ∧ _ :=
    syncTarget_of_heavier (wellKeyed_ops _) rfl hheavier
  exact hnamed.1

/-- The higher peer is named although it has less work than the local chain. -/
theorem higher_displaces_heavier :
    rivalPeers.WellKeyed ∧ (exists peer, Heavier rivalPeers sampleLocalSummary 1 peer) ∧
      shouldSyncForSummary rivalPeers sampleLocalSummary sampleScans = .behind "higher:1" 10 ∧
      (rivalPeers.peers["higher:1"]?.map Peer.cumulativeWork) = some 50 ∧
      50 < sampleLocalSummary.cumulativeWork :=
  ⟨wellKeyed_ops _, rivalPeers_heavier, rivalPeers_records.2.2, rivalPeers_records.2.1, by decide⟩

end VisionCore
