import VisionCore.P2p.SessionView

/-!
# Peer state and live sessions

Every peer sees the steps of the world as orderly steps of its own sessions, so in
an orderly run its record follows the registry.
-/

namespace VisionCore

open Std

namespace SessionWorld

/-- The state and the generation of the record of an address. -/
def recordOf (pm : PeerManager) (addr : String) : Option (PeerState × UInt64) :=
  pm.peers[addr]?.map fun peer => (peer.state, peer.connectionGeneration)

def view (ends : Nat -> SessionEnds) (w : SessionWorld) (addr : String) : SessionView :=
  { entry := w.registry.sessions[addr]?
    record := recordOf w.peers addr
    phase := fun i => if (ends i).peerKey = addr then w.phase i else .idle }

variable {ends : Nat -> SessionEnds} {w w' : SessionWorld} {pm : PeerManager}
  {addr other : String} {i : Nat} {p : SessionPhase} {e : SessionEvent}

theorem view_phase (hkey : (ends i).peerKey = addr) : (w.view ends addr).phase i = w.phase i :=
  if_pos hkey

theorem view_enter (hkey : (ends i).peerKey = addr) :
    (w.enter i p).view ends addr = (w.view ends addr).enter i p := by
  unfold view SessionView.enter enter
  congr 1
  funext j
  dsimp only
  by_cases heq : j = i
  · rw [if_pos heq, heq, if_pos hkey, if_pos rfl]
  · rw [if_neg heq, if_neg heq]

theorem view_enter_of_ne (hkey : (ends i).peerKey ≠ addr) :
    (w.enter i p).view ends addr = w.view ends addr := by
  unfold view enter
  congr 1
  funext j
  dsimp only
  by_cases heq : j = i
  · rw [heq, if_neg hkey, if_neg hkey]
  · rw [if_neg heq]

theorem active_view : (w.view ends addr).active = w.registry.activeOf addr := rfl

theorem connected_view : (w.view ends addr).Connected ↔ w.Connected addr := by
  constructor
  · rintro ⟨generation, hrecord⟩
    rcases Option.map_eq_some_iff.mp hrecord with ⟨peer, hpeer, hstate⟩
    exact ⟨peer, hpeer, congrArg Prod.fst hstate⟩
  · rintro ⟨peer, hpeer, hstate⟩
    refine ⟨peer.connectionGeneration, ?_⟩
    change w.peers.peers[addr]?.map _ = _
    rw [hpeer, ← hstate]
    rfl

theorem connecting_view : (w.view ends addr).Connecting ↔ w.Connecting ends addr := by
  constructor
  · rintro ⟨i, generation, hphase⟩
    by_cases hkey : (ends i).peerKey = addr
    · rw [view_phase hkey] at hphase
      exact ⟨i, generation, hkey, hphase⟩
    · unfold view at hphase
      dsimp only at hphase
      rw [if_neg hkey] at hphase
      rcases hphase with hphase | hphase
      · cases hphase
      · cases hphase
  · rintro ⟨i, generation, hkey, hphase⟩
    refine ⟨i, generation, ?_⟩
    rw [view_phase hkey]
    exact hphase

theorem recordOf_update {f : Peer -> Peer} {f' : PeerState × UInt64 -> PeerState × UInt64}
    (hf : forall peer, ((f peer).state, (f peer).connectionGeneration) =
      f' (peer.state, peer.connectionGeneration)) :
    recordOf (pm.update addr f) addr = (recordOf pm addr).map f' := by
  unfold recordOf
  rw [PeerManager.update_get_self]
  cases pm.peers[addr]? with
  | none => rfl
  | some peer => exact congrArg some (hf peer)

theorem recordOf_update_of_ne {f : Peer -> Peer} (h : addr ≠ other) :
    recordOf (pm.update addr f) other = recordOf pm other := by
  unfold recordOf
  rw [PeerManager.update_get_of_ne h]

theorem recordOf_entry {f : Peer -> Peer} {first : Peer}
    (hf : forall peer, (f peer).state = peer.state ∧
      (f peer).connectionGeneration = peer.connectionGeneration)
    (hfirst : first.state = .knownOnly ∧ first.connectionGeneration = 0) :
    recordOf (pm.entry addr f first) addr = some ((recordOf pm addr).getD (.knownOnly, 0)) := by
  unfold recordOf
  rw [PeerManager.entry_get_self]
  cases pm.peers[addr]? with
  | none => simp [hfirst]
  | some peer => simp [hf]

theorem recordOf_entry_of_ne {f : Peer -> Peer} {first : Peer} (h : addr ≠ other) :
    recordOf (pm.entry addr f first) other = recordOf pm other := by
  unfold recordOf
  rw [PeerManager.entry_get_of_ne h]

theorem setState_disconnected (peer : Peer) :
    ((peer.setState .disconnected).state, (peer.setState .disconnected).connectionGeneration) =
      (PeerState.disconnected, peer.connectionGeneration) := rfl

theorem disconnectIfGeneration_record (peer : Peer) (generation : UInt64) :
    ((peer.disconnectIfGeneration generation).state,
        (peer.disconnectIfGeneration generation).connectionGeneration) =
      if peer.connectionGeneration ≠ generation then (peer.state, peer.connectionGeneration)
      else (.disconnected, peer.connectionGeneration) := by
  unfold Peer.disconnectIfGeneration
  split
  · rfl
  · rfl

theorem noteHeight_record (peer : Peer) (height : UInt64) (now : Nat) :
    ((peer.noteHeight height now).state, (peer.noteHeight height now).connectionGeneration) =
      (peer.state, peer.connectionGeneration) := by
  unfold Peer.noteHeight
  split
  · rfl
  · rfl

theorem noteSummaryFrom_record (peer : Peer) (summary : ChainSummary)
    (generation : Option UInt64) (source : Option String) (now : Nat) :
    ((peer.noteSummaryFrom summary generation source now).state,
        (peer.noteSummaryFrom summary generation source now).connectionGeneration) =
      (peer.state, peer.connectionGeneration) := by
  unfold Peer.noteSummaryFrom
  split
  · rfl
  · dsimp only
    split
    · rfl
    · rfl

theorem view_upsert (address : String) (isOutbound : Bool) :
    SessionView.Step (w.view ends addr)
      ({ w with peers := w.peers.upsert address isOutbound }.view ends addr) := by
  by_cases hkey : address = addr
  · have hview : { w with peers := w.peers.upsert address isOutbound }.view ends addr =
        (w.view ends addr).known := by
      unfold view SessionView.known
      congr 1
      rw [hkey]
      exact recordOf_entry (fun _ => ⟨rfl, rfl⟩) ⟨rfl, rfl⟩
    rw [hview]
    exact .known
  · have hview : { w with peers := w.peers.upsert address isOutbound }.view ends addr =
        w.view ends addr := by
      unfold view
      congr 1
      exact recordOf_entry_of_ne hkey
    rw [hview]
    exact .stay

/-- A change of the records under another address is not seen. -/
theorem view_peers_of_ne {peers : PeerManager} (hrecord : recordOf peers addr =
    recordOf w.peers addr) : { w with peers := peers }.view ends addr = w.view ends addr := by
  unfold view
  congr 1

theorem view_registry_of_ne {registry : PeerSessionRegistry} (hentry : registry.sessions[addr]? =
    w.registry.sessions[addr]?) :
    { w with registry := registry }.view ends addr = w.view ends addr := by
  unfold view
  congr 1

theorem view_onRecord {f : Peer -> Peer} {f' : PeerState × UInt64 -> PeerState × UInt64}
    (hf : forall peer, ((f peer).state, (f peer).connectionGeneration) =
      f' (peer.state, peer.connectionGeneration)) :
    { w with peers := w.peers.update addr f }.view ends addr =
      (w.view ends addr).onRecord f' := by
  unfold view SessionView.onRecord
  congr 1
  exact recordOf_update hf

theorem view_noted {f : Peer -> Peer} (key : String)
    (hf : forall peer, ((f peer).state, (f peer).connectionGeneration) =
      (peer.state, peer.connectionGeneration)) :
    { w with peers := w.peers.update key f }.view ends addr = w.view ends addr := by
  by_cases hkey : key = addr
  · subst hkey
    have hsame : { w with peers := w.peers.update key f }.view ends key =
        (w.view ends key).onRecord id := view_onRecord hf
    rw [hsame]
    unfold SessionView.onRecord
    rw [Option.map_id_fun, id]
  · exact view_peers_of_ne (recordOf_update_of_ne hkey)

/-- A step of one session is seen by its own peer alone. -/
theorem step_enter {u : SessionWorld}
    (hself : (ends i).peerKey = addr ->
      SessionView.Step (w.view ends addr) ((u.view ends addr).enter i p))
    (hother : (ends i).peerKey ≠ addr -> u.view ends addr = w.view ends addr) :
    SessionView.Step (w.view ends addr) ((u.enter i p).view ends addr) := by
  by_cases hkey : (ends i).peerKey = addr
  · rw [view_enter hkey]
    exact hself hkey
  · rw [view_enter_of_ne hkey, hother hkey]
    exact .stay

theorem view_handshake (hphase : w.phase i = .idle) :
    SessionView.Step (w.view ends addr)
      (({ w with
        peers := if (ends i).isOutbound then w.peers.upsert (ends i).peerKey true
          else w.peers.observeInbound (ends i).peerKey (ends i).observedAddr }.enter i
            .known).view ends addr) := by
  apply step_enter
  · rintro rfl
    have hknown : { w with
        peers := if (ends i).isOutbound then w.peers.upsert (ends i).peerKey true
          else w.peers.observeInbound (ends i).peerKey (ends i).observedAddr }.view ends
            (ends i).peerKey = (w.view ends (ends i).peerKey).known := by
      unfold view SessionView.known
      congr 1
      split
      · exact recordOf_entry (fun _ => ⟨rfl, rfl⟩) ⟨rfl, rfl⟩
      · apply recordOf_entry
        · intro peer
          split
          · exact ⟨rfl, rfl⟩
          · exact ⟨rfl, rfl⟩
        · split
          · exact ⟨rfl, rfl⟩
          · exact ⟨rfl, rfl⟩
    rw [hknown]
    exact .handshake ((view_phase rfl).trans hphase)
  · intro hkey
    apply view_peers_of_ne
    split
    · exact recordOf_entry_of_ne hkey
    · exact recordOf_entry_of_ne hkey

theorem view_insert (hinv : (w.view ends addr).Ordered) (ho : w.Orderly ends (.insert i))
    {g : UInt64} (hphase : w.phase i = .drawn g) :
    SessionView.Step (w.view ends addr)
      (({ w with registry := w.registry.insertSession (ends i).peerKey g }.enter i
        (.inserted g)).view ends addr) := by
  apply step_enter
  · rintro rfl
    have hown : (w.view ends (ends i).peerKey).phase i = .drawn g :=
      (view_phase rfl).trans hphase
    rcases ho g hphase with ⟨hnew, hfresh⟩
    have hentry : { w with registry := w.registry.insertSession (ends i).peerKey g }.view ends
        (ends i).peerKey = { w.view ends (ends i).peerKey with
          entry := some { latestGeneration := g
                          active := (w.view ends (ends i).peerKey).active ++ [g] } } := by
      unfold view
      congr 1
      exact PeerSessionRegistry.insertSession_get_self
    rw [hentry]
    apply SessionView.Step.insert hown _ hfresh
    have hrecord := hinv.record_isSome (by rw [hown]; nofun) (by rw [hown]; nofun)
    rcases Option.isSome_iff_exists.mp hrecord with ⟨record, hsome⟩
    rw [SessionView.generation_of_record hsome]
    rcases Option.map_eq_some_iff.mp hsome with ⟨peer, hpeer, hstate⟩
    rw [← hstate]
    exact hnew peer hpeer
  · intro hkey
    exact view_registry_of_ne (PeerSessionRegistry.insertSession_get_of_ne hkey)

/-- An `unregister` is the departure of one of several transports or of the last. -/
theorem view_unregister (hinv : (w.view ends addr).Ordered) {g : UInt64}
    (hphase : w.phase i = .live g) :
    SessionView.Step (w.view ends addr)
      (({ w with registry := (w.registry.unregister (ends i).peerKey g).2 }.enter i
        (.afterUnregister (w.registry.unregister (ends i).peerKey g).1)).view ends addr) := by
  apply step_enter
  · rintro rfl
    have hown : (w.view ends (ends i).peerKey).phase i = .live g := (view_phase rfl).trans hphase
    have hmem : g ∈ (w.view ends (ends i).peerKey).active :=
      (hinv.mem_active g).mpr ⟨i, congrArg SessionPhase.held hown⟩
    cases hentry : w.registry.sessions[(ends i).peerKey]? with
    | none =>
        rw [SessionView.active, show (w.view ends (ends i).peerKey).entry = none from hentry] at hmem
        cases hmem
    | some peerSessions =>
        have hactive : (w.view ends (ends i).peerKey).active = peerSessions.active :=
          SessionView.active_of_entry hentry
        rw [hactive] at hmem
        by_cases hlast : (peerSessions.active.filter fun session => session != g) = []
        · rcases PeerSessionRegistry.unregister_last hentry hmem hlast with ⟨hnewest, hgone⟩
          have hview : { w with
              registry := (w.registry.unregister (ends i).peerKey g).2 }.view ends
                (ends i).peerKey = { w.view ends (ends i).peerKey with entry := none } := by
            unfold view
            congr 1
          rw [hnewest]
          rw [hview]
          exact .leaveLast hown hentry hlast
        · rcases PeerSessionRegistry.unregister_kept hentry hlast with ⟨hnone, hkept⟩
          have hview : { w with
              registry := (w.registry.unregister (ends i).peerKey g).2 }.view ends
                (ends i).peerKey = { w.view ends (ends i).peerKey with
                  entry := some { peerSessions with
                    active := peerSessions.active.filter fun session => session != g } } := by
            unfold view
            congr 1
          rw [hnone]
          rw [hview]
          exact .leave hown hentry hlast
  · intro hkey
    apply view_registry_of_ne
    exact PeerSessionRegistry.unregister_get_of_ne hkey

theorem step_view (hinv : (w.view ends addr).Ordered) (ho : w.Orderly ends e)
    (h : w.step ends e = some w') : SessionView.Step (w.view ends addr) (w'.view ends addr) := by
  cases e with
  | upsert address isOutbound =>
      cases h
      exact view_upsert address isOutbound
  | handshake i =>
      dsimp only [step] at h
      cases hphase : w.phase i with
      | idle =>
          rw [hphase] at h
          cases h
          exact view_handshake hphase
      | known | drawn _ | inserted _ | live _ | closing _ | ended =>
          rw [hphase] at h
          cases h
  | dialFailed i =>
      dsimp only [step] at h
      cases hphase : w.phase i with
      | idle =>
          rw [hphase] at h
          dsimp only at h
          split at h
          · cases h
            apply step_enter
            · rintro rfl
              have hturned : { w with
                  peers := w.peers.setState (ends i).peerKey .disconnected }.view ends
                    (ends i).peerKey = (w.view ends (ends i).peerKey).onRecord
                      fun record => (.disconnected, record.2) := view_onRecord setState_disconnected
              rw [hturned]
              apply SessionView.Step.dialFailed ((view_phase rfl).trans hphase)
              exact ho.imp_right connecting_view.mpr
            · intro hkey
              exact view_peers_of_ne (recordOf_update_of_ne hkey)
          · cases h
      | known | drawn _ | inserted _ | live _ | closing _ | ended =>
          rw [hphase] at h
          cases h
  | draw i =>
      dsimp only [step] at h
      cases hphase : w.phase i with
      | known =>
          rw [hphase] at h
          cases h
          apply step_enter
          · rintro rfl
            exact .draw ((view_phase rfl).trans hphase)
          · exact fun _ => rfl
      | idle | drawn _ | inserted _ | live _ | closing _ | ended =>
          rw [hphase] at h
          cases h
  | insert i =>
      cases hphase : w.phase i with
      | drawn g =>
          dsimp only [step] at h
          rw [hphase] at h
          cases h
          exact view_insert hinv ho hphase
      | idle | known | inserted _ | live _ | closing _ | ended =>
          dsimp only [step] at h
          rw [hphase] at h
          cases h
  | connect i =>
      dsimp only [step] at h
      cases hphase : w.phase i with
      | inserted g =>
          rw [hphase] at h
          cases h
          apply step_enter
          · rintro rfl
            have hturned : { w with
                peers := w.peers.connectSession (ends i).peerKey g }.view ends (ends i).peerKey =
                  (w.view ends (ends i).peerKey).onRecord
                    fun record => (.connected, max record.2 g) := view_onRecord fun _ => rfl
            rw [hturned]
            exact .connect ((view_phase rfl).trans hphase)
          · intro hkey
            exact view_peers_of_ne (recordOf_update_of_ne hkey)
      | idle | known | drawn _ | live _ | closing _ | ended =>
          rw [hphase] at h
          cases h
  | noteHeight i height now =>
      dsimp only [step] at h
      cases hphase : w.phase i with
      | live g =>
          rw [hphase] at h
          cases h
          have hview : { w with
              peers := w.peers.notePeerHeight (ends i).peerKey height now }.view ends addr =
                w.view ends addr := view_noted _ fun peer => noteHeight_record peer height now
          rw [hview]
          exact .stay
      | idle | known | drawn _ | inserted _ | closing _ | ended =>
          rw [hphase] at h
          cases h
  | noteSummary i summary source now =>
      dsimp only [step] at h
      cases hphase : w.phase i with
      | live g =>
          rw [hphase] at h
          cases h
          have hview : { w with
              peers := w.peers.notePeerSummaryFrom (ends i).peerKey summary (some g)
                (some source) now }.view ends addr = w.view ends addr :=
            view_noted _ fun peer => noteSummaryFrom_record peer summary (some g) (some source) now
          rw [hview]
          exact .stay
      | idle | known | drawn _ | inserted _ | closing _ | ended =>
          rw [hphase] at h
          cases h
  | unregister i =>
      dsimp only [step] at h
      cases hphase : w.phase i with
      | live g =>
          rw [hphase] at h
          cases h
          exact view_unregister hinv hphase
      | idle | known | drawn _ | inserted _ | closing _ | ended =>
          rw [hphase] at h
          cases h
  | disconnect i =>
      dsimp only [step] at h
      cases hphase : w.phase i with
      | closing g =>
          rw [hphase] at h
          cases h
          apply step_enter
          · rintro rfl
            have hturned : { w with
                peers := w.peers.disconnectIfGeneration (ends i).peerKey g }.view ends
                  (ends i).peerKey = (w.view ends (ends i).peerKey).onRecord fun record =>
                    if record.2 ≠ g then record else (.disconnected, record.2) :=
              view_onRecord fun peer => disconnectIfGeneration_record peer g
            rw [hturned]
            exact .disconnect ((view_phase rfl).trans hphase)
          · intro hkey
            exact view_peers_of_ne (recordOf_update_of_ne hkey)
      | idle | known | drawn _ | inserted _ | live _ | ended =>
          rw [hphase] at h
          cases h

/-!
# Runs
-/

theorem start_ordered (ends : Nat -> SessionEnds) (addr : String) :
    (start.view ends addr).Ordered := by
  have hphase : forall i, (start.view ends addr).phase i = .idle := fun i => ite_self _
  have hentry : (start.view ends addr).entry = none := ExtTreeMap.getElem?_empty
  have hactive : (start.view ends addr).active = [] := by
    rw [SessionView.active, hentry]
  have hidle : forall {i q}, (start.view ends addr).phase i = q -> q = .idle :=
    fun h => h.symm.trans (hphase _)
  have hholds : forall i g, ¬(start.view ends addr).Holds i g := by
    intro i g hheld
    rw [SessionView.Holds, hphase] at hheld
    cases hheld
  constructor
  · constructor
    · intro g
      rw [hactive]
      constructor
      · exact fun hmem => absurd hmem List.not_mem_nil
      · rintro ⟨i, hheld⟩
        exact absurd hheld (hholds i g)
    · exact fun hheld => absurd hheld (hholds _ _)
  · exact fun i => Or.inl (hphase i)
  · exact fun hlive => by cases hidle hlive
  · exact fun hsome => by cases hentry.symm.trans hsome
  · exact fun hsome => by cases hentry.symm.trans hsome
  · exact fun hclosing => by cases hidle hclosing
  · rw [connected_view]
    rintro ⟨peer, hpeer, _⟩
    have hnone : start.peers.peers[addr]? = none := ExtTreeMap.getElem?_empty
    cases hnone.symm.trans hpeer
  · exact fun hne => absurd hactive hne

theorem OrderlyReached.ordered (h : OrderlyReached ends w) (addr : String) :
    (w.view ends addr).Ordered := by
  induction h with
  | start => exact start_ordered ends addr
  | step e _ ho hstep ih => exact ih.step (step_view ih ho hstep)

/-- In an orderly run, whenever no session of a peer is between two steps, the peer is
connected if and only if the registry holds a session of it. -/
theorem connected_iff_registered (h : OrderlyReached ends w) (hquiet : w.Quiescent ends addr) :
    w.Connected addr ↔ w.registry.activeOf addr ≠ [] := by
  have hordered := h.ordered addr
  rw [← connected_view, ← active_view]
  constructor
  · intro hconnected
    rcases hordered.connected hconnected with hactive | ⟨i, hclosing⟩
    · exact hactive
    · by_cases hkey : (ends i).peerKey = addr
      · rw [view_phase hkey] at hclosing
        exact absurd hclosing (hquiet i _ hkey).2.2
      · have hidle : (w.view ends addr).phase i = .idle := if_neg hkey
        cases hidle.symm.trans hclosing
  · intro hactive
    rcases hordered.registered hactive with hconnected | hconnecting
    · exact hconnected
    · rcases connecting_view.mp hconnecting with ⟨i, generation, hkey, hdrawn | hinserted⟩
      · exact absurd hdrawn (hquiet i generation hkey).1
      · exact absurd hinserted (hquiet i generation hkey).2.1

/-- One peer with two sessions that dialled in; the others are the node's own dials. -/
def sampleEnds (i : Nat) : SessionEnds :=
  { peerKey := "198.51.100.9:7072"
    observedAddr := "198.51.100.9:51000"
    isOutbound := decide (2 ≤ i) }

def establish (i : Nat) : List SessionEvent :=
  [.handshake i, .draw i, .insert i, .connect i]

theorem quiescent_of_rest {addr : String}
    (h : forall i, w.phase i = .idle ∨ w.phase i = .ended ∨ exists g, w.phase i = .live g) :
    w.Quiescent ends addr := by
  intro i generation _
  rcases h i with hphase | hphase | ⟨g, hphase⟩
  · rw [hphase]
    exact ⟨nofun, nofun, nofun⟩
  · rw [hphase]
    exact ⟨nofun, nofun, nofun⟩
  · rw [hphase]
    exact ⟨nofun, nofun, nofun⟩

/-- The world after a run of the sample sessions. -/
def sampleAfter (events : List SessionEvent) : SessionWorld :=
  (run sampleEnds start events).getD start

theorem connected_iff_registered_established :
    (sampleAfter (establish 0)).Connected (sampleEnds 0).peerKey ↔
      (sampleAfter (establish 0)).registry.activeOf (sampleEnds 0).peerKey ≠ [] := by
  have hknown : OrderlyReached sampleEnds (sampleAfter [.handshake 0]) :=
    .step (.handshake 0) .start trivial rfl
  have hdrawn : OrderlyReached sampleEnds (sampleAfter [.handshake 0, .draw 0]) :=
    .step (.draw 0) hknown trivial rfl
  have hinserted : OrderlyReached sampleEnds (sampleAfter [.handshake 0, .draw 0, .insert 0]) := by
    refine .step (.insert 0) hdrawn ?_ rfl
    intro generation hphase
    cases hphase
    constructor
    · intro peer hpeer
      have hrecord : recordOf (sampleAfter [.handshake 0, .draw 0]).peers (sampleEnds 0).peerKey =
          some (.knownOnly, 0) := by decide +kernel
      rw [recordOf, hpeer] at hrecord
      rw [show peer.connectionGeneration = 0 from congrArg Prod.snd (Option.some.inj hrecord)]
      exact (by decide : (0 : UInt64) < 1)
    · exact fun other hother => absurd hother List.not_mem_nil
  have hlive : OrderlyReached sampleEnds (sampleAfter (establish 0)) :=
    .step (.connect 0) hinserted trivial rfl
  apply connected_iff_registered hlive
  apply quiescent_of_rest
  intro i
  rcases i with _ | i
  · exact Or.inr (Or.inr ⟨1, rfl⟩)
  · exact Or.inl rfl

def dialBehindSession : List SessionEvent :=
  establish 0 ++ [.dialFailed 2]

def lateInsert : List SessionEvent :=
  [.handshake 0, .draw 0, .handshake 1, .draw 1, .insert 1, .connect 1, .insert 0, .connect 0,
    .unregister 0, .unregister 1, .disconnect 1]

/-- A dial that fails disconnects a peer whose inbound session is live; and a
generation registered late leaves a peer connected after its last session. -/
theorem unseated :
    (exists w, run sampleEnds start dialBehindSession = some w ∧
      w.Quiescent sampleEnds (sampleEnds 0).peerKey ∧
      ¬w.Connected (sampleEnds 0).peerKey ∧
      w.registry.activeOf (sampleEnds 0).peerKey = [1]) ∧
    exists w, run sampleEnds start lateInsert = some w ∧
      w.Quiescent sampleEnds (sampleEnds 0).peerKey ∧
      w.Connected (sampleEnds 0).peerKey ∧
      w.registry.activeOf (sampleEnds 0).peerKey = [] := by
  constructor
  · refine ⟨sampleAfter dialBehindSession, rfl, quiescent_of_rest ?_, ?_, by decide +kernel⟩
    · intro i
      rcases i with _ | _ | _ | i
      · exact Or.inr (Or.inr ⟨1, rfl⟩)
      · exact Or.inl rfl
      · exact Or.inr (Or.inl rfl)
      · exact Or.inl rfl
    · rintro ⟨peer, hpeer, hstate⟩
      have hrecord : recordOf (sampleAfter dialBehindSession).peers (sampleEnds 0).peerKey =
          some (.disconnected, 1) := by decide +kernel
      rw [recordOf, hpeer, Option.map_some, hstate] at hrecord
      cases hrecord
  · refine ⟨sampleAfter lateInsert, rfl, quiescent_of_rest ?_, ?_, by decide +kernel⟩
    · intro i
      rcases i with _ | _ | i
      · exact Or.inr (Or.inl rfl)
      · exact Or.inr (Or.inl rfl)
      · exact Or.inl rfl
    · have hrecord : recordOf (sampleAfter lateInsert).peers (sampleEnds 0).peerKey =
          some (.connected, 2) := by decide +kernel
      rcases Option.map_eq_some_iff.mp hrecord with ⟨peer, hpeer, hstate⟩
      exact ⟨peer, hpeer, congrArg Prod.fst hstate⟩

end SessionWorld

end VisionCore
