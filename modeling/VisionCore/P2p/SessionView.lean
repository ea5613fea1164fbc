import VisionCore.P2p.SessionSteps

/-!
# The sessions of one peer

What the steps leave of one peer: its entry in the registry, the state and the
generation of its record, and the phases of its own sessions.  Orderly steps keep
the newest generation in the record or on its way there.
-/

namespace VisionCore

structure SessionView where
  entry : Option PeerSessions
  record : Option (PeerState × UInt64)
  phase : Nat -> SessionPhase

namespace SessionView

def active (v : SessionView) : List UInt64 :=
  match v.entry with
  | none => []
  | some peerSessions => peerSessions.active

def generation (v : SessionView) : UInt64 :=
  match v.record with
  | none => 0
  | some record => record.2

def Connected (v : SessionView) : Prop :=
  exists generation, v.record = some (.connected, generation)

/-- The session is in the registry under a generation. -/
def Holds (v : SessionView) (i : Nat) (generation : UInt64) : Prop :=
  (v.phase i).held = some generation

def Connecting (v : SessionView) : Prop :=
  exists i generation, v.phase i = .drawn generation ∨ v.phase i = .inserted generation

def enter (v : SessionView) (session : Nat) (phase : SessionPhase) : SessionView :=
  { v with phase := fun other => if other = session then phase else v.phase other }

def known (v : SessionView) : SessionView :=
  { v with record := some (v.record.getD (.knownOnly, 0)) }

def onRecord (v : SessionView) (f : PeerState × UInt64 -> PeerState × UInt64) : SessionView :=
  { v with record := v.record.map f }

/-- The orderly steps as one peer sees them. -/
inductive Step : SessionView -> SessionView -> Prop where
  | stay {v : SessionView} : Step v v
  | known {v : SessionView} : Step v v.known
  | handshake {v : SessionView} {i : Nat} : v.phase i = .idle -> Step v (v.known.enter i .known)
  | dialFailed {v : SessionView} {i : Nat} : v.phase i = .idle ->
      v.active = [] ∨ v.Connecting ->
      Step v ((v.onRecord fun record => (.disconnected, record.2)).enter i .ended)
  | draw {v : SessionView} {i : Nat} {g : UInt64} : v.phase i = .known ->
      Step v (v.enter i (.drawn g))
  | insert {v : SessionView} {i : Nat} {g : UInt64} : v.phase i = .drawn g ->
      v.generation < g -> (forall other, other ∈ v.active -> other < g) ->
      Step v ({ v with
        entry := some { latestGeneration := g, active := v.active ++ [g] } }.enter i (.inserted g))
  | connect {v : SessionView} {i : Nat} {g : UInt64} : v.phase i = .inserted g ->
      Step v ((v.onRecord fun record => (.connected, max record.2 g)).enter i (.live g))
  | leave {v : SessionView} {i : Nat} {g : UInt64} {peerSessions : PeerSessions} :
      v.phase i = .live g -> v.entry = some peerSessions ->
      (peerSessions.active.filter fun session => session != g) ≠ [] ->
      Step v ({ v with
        entry := some { peerSessions with
          active := peerSessions.active.filter fun session => session != g } }.enter i .ended)
  | leaveLast {v : SessionView} {i : Nat} {g : UInt64} {peerSessions : PeerSessions} :
      v.phase i = .live g -> v.entry = some peerSessions ->
      (peerSessions.active.filter fun session => session != g) = [] ->
      Step v ({ v with entry := none }.enter i (.closing peerSessions.latestGeneration))
  | disconnect {v : SessionView} {i : Nat} {g : UInt64} : v.phase i = .closing g ->
      Step v ((v.onRecord fun record =>
        if record.2 ≠ g then record else (.disconnected, record.2)).enter i .ended)

/-!
# The invariant of one peer
-/

/-- The registry holds the generations of the registered sessions, and no others. -/
structure Registered (v : SessionView) : Prop where
  mem_active : forall g, g ∈ v.active ↔ exists i, v.Holds i g
  unique : forall {i j g}, v.Holds i g -> v.Holds j g -> i = j

structure Ordered (v : SessionView) : Prop extends Registered v where
  recorded : forall i, v.phase i = .idle ∨ v.phase i = .ended ∨ v.record.isSome = true
  live_le : forall {i g}, v.phase i = .live g -> g ≤ v.generation
  le_latest : forall {peerSessions}, v.entry = some peerSessions ->
    v.generation ≤ peerSessions.latestGeneration ∧
      forall g, g ∈ v.active -> g ≤ peerSessions.latestGeneration
  /-- The newest generation is in the record, or its session is about to put it there. -/
  latest : forall {peerSessions}, v.entry = some peerSessions ->
    v.generation = peerSessions.latestGeneration ∨
      exists i, v.phase i = .inserted peerSessions.latestGeneration
  /-- A disconnect still to run is older than every session registered since. -/
  closing : forall {i g}, v.phase i = .closing g ->
    g ≤ v.generation ∧ forall other, other ∈ v.active -> g < other
  connected : v.Connected -> v.active ≠ [] ∨ exists i, v.phase i = .closing v.generation
  registered : v.active ≠ [] -> v.Connected ∨ v.Connecting

variable {v u : SessionView} {i j : Nat} {g : UInt64} {p q : SessionPhase}

@[simp] theorem enter_phase_self : (v.enter i p).phase i = p :=
  if_pos rfl

theorem enter_phase_of_ne (h : j ≠ i) : (v.enter i p).phase j = v.phase j :=
  if_neg h

/-- A phase other than the new one was there before. -/
theorem phase_of_enter (h : (v.enter i p).phase j = q) (hne : p ≠ q) : v.phase j = q := by
  by_cases heq : j = i
  · rw [heq, enter_phase_self] at h
    exact absurd h hne
  · rwa [enter_phase_of_ne heq] at h

/-- A phase other than the old one is still there. -/
theorem enter_phase (h : v.phase j = q) (hne : v.phase i ≠ q) : (v.enter i p).phase j = q := by
  rw [enter_phase_of_ne]
  · exact h
  · rintro rfl
    exact hne h

theorem enter_held (h : p.held = (v.phase i).held) (j : Nat) :
    ((v.enter i p).phase j).held = (v.phase j).held := by
  by_cases heq : j = i
  · rw [heq, enter_phase_self, h]
  · rw [enter_phase_of_ne heq]

theorem Registered.congr (h : Registered v) (hactive : u.active = v.active)
    (hheld : forall j, (u.phase j).held = (v.phase j).held) : Registered u where
  mem_active := by
    intro g
    rw [hactive, h.mem_active]
    unfold Holds
    simp only [hheld]
  unique := by
    intro i j g hi hj
    unfold Holds at hi hj
    rw [hheld] at hi hj
    exact h.unique hi hj

theorem Ordered.holds_mem (h : Ordered v) (hphase : v.phase i = .inserted g) : g ∈ v.active :=
  (h.mem_active g).mpr ⟨i, by rw [Holds, hphase]; rfl⟩

theorem recorded_enter (h : Ordered v)
    (hrecord : p = .idle ∨ p = .ended ∨ v.record.isSome = true) (j : Nat) :
    (v.enter i p).phase j = .idle ∨ (v.enter i p).phase j = .ended ∨ v.record.isSome = true := by
  by_cases heq : j = i
  · rw [heq, enter_phase_self]
    exact hrecord
  · rw [enter_phase_of_ne heq]
    exact h.recorded j

theorem Ordered.record_isSome (h : Ordered v) (hidle : v.phase i ≠ .idle)
    (hended : v.phase i ≠ .ended) : v.record.isSome = true := by
  rcases h.recorded i with hphase | hphase | hrecord
  · exact absurd hphase hidle
  · exact absurd hphase hended
  · exact hrecord

/-!
# The steps keep the invariant
-/

theorem known_generation : v.known.generation = v.generation := by
  unfold known generation
  cases v.record with
  | none => rfl
  | some record => rfl

theorem known_connected : v.known.Connected ↔ v.Connected := by
  unfold known Connected
  cases v.record with
  | none => simp
  | some record => simp

theorem Ordered.known (h : Ordered v) : Ordered v.known where
  toRegistered := h.toRegistered.congr rfl fun _ => rfl
  recorded := fun _ => Or.inr (Or.inr rfl)
  live_le := by
    intro i g hphase
    rw [known_generation]
    exact h.live_le hphase
  le_latest := by
    intro peerSessions hentry
    rw [known_generation]
    exact h.le_latest hentry
  latest := by
    intro peerSessions hentry
    rw [known_generation]
    exact h.latest hentry
  closing := by
    intro i g hphase
    rw [known_generation]
    exact h.closing hphase
  connected := by
    rw [known_connected, known_generation]
    exact h.connected
  registered := by
    rw [known_connected]
    exact h.registered

/-- A session outside the registry moves on to a phase that is outside it too. -/
theorem Ordered.enter (h : Ordered v) (hbefore : (v.phase i).held = none) (hafter : p.held = none)
    (hdrawn : forall g, v.phase i ≠ .drawn g) (hclosing : forall g, p ≠ .closing g)
    (hclosed : v.Connected -> v.phase i ≠ .closing v.generation)
    (hrecord : p = .idle ∨ p = .ended ∨ v.record.isSome = true) : Ordered (v.enter i p) where
  toRegistered := h.toRegistered.congr rfl (enter_held (hafter.trans hbefore.symm))
  recorded := recorded_enter h hrecord
  live_le := by
    intro j g hlive
    apply h.live_le (phase_of_enter hlive _)
    rintro rfl
    cases hafter
  le_latest := h.le_latest
  latest := by
    intro peerSessions hentry
    rcases h.latest hentry with hlatest | ⟨j, hj⟩
    · exact Or.inl hlatest
    · refine Or.inr ⟨j, enter_phase hj ?_⟩
      intro hphase
      rw [hphase] at hbefore
      cases hbefore
  closing := fun hphase => h.closing (phase_of_enter hphase (hclosing _))
  connected := fun hconnected => (h.connected hconnected).imp_right fun ⟨j, hj⟩ =>
    ⟨j, enter_phase hj (hclosed hconnected)⟩
  registered := by
    intro hactive
    rcases h.registered hactive with hconnected | ⟨j, g, hphase | hphase⟩
    · exact Or.inl hconnected
    · exact Or.inr ⟨j, g, Or.inl (enter_phase hphase (hdrawn g))⟩
    · refine Or.inr ⟨j, g, Or.inr (enter_phase hphase ?_)⟩
      intro hinserted
      rw [hinserted] at hbefore
      cases hbefore

theorem onRecord_generation {f : PeerState × UInt64 -> PeerState × UInt64}
    (hf : forall record, (f record).2 = record.2) :
    (v.onRecord f).generation = v.generation := by
  unfold onRecord generation
  cases v.record with
  | none => rfl
  | some record => exact hf record

/-- A record is disconnected while no session of the peer is registered, or while one
is on its way to connect it again. -/
theorem Ordered.turnOff (h : Ordered v) (hquiet : v.active = [] ∨ v.Connecting)
    {f : PeerState × UInt64 -> PeerState × UInt64} (hf : forall record, (f record).2 = record.2)
    (hoff : forall record, (f record).1 ≠ .connected) : Ordered (v.onRecord f) where
  toRegistered := h.toRegistered.congr rfl fun _ => rfl
  recorded := by
    intro i
    rcases h.recorded i with hphase | hphase | hrecord
    · exact Or.inl hphase
    · exact Or.inr (Or.inl hphase)
    · exact Or.inr (Or.inr (by rw [← hrecord]; exact Option.isSome_map))
  live_le := by
    intro i g hphase
    rw [onRecord_generation hf]
    exact h.live_le hphase
  le_latest := by
    intro peerSessions hentry
    rw [onRecord_generation hf]
    exact h.le_latest hentry
  latest := by
    intro peerSessions hentry
    rw [onRecord_generation hf]
    exact h.latest hentry
  closing := by
    intro i g hphase
    rw [onRecord_generation hf]
    exact h.closing hphase
  connected := by
    rintro ⟨g, hrecord⟩
    rcases Option.map_eq_some_iff.mp hrecord with ⟨record, _, hstate⟩
    exact absurd (congrArg Prod.fst hstate) (hoff record)
  registered := fun hactive => Or.inr (hquiet.resolve_left hactive)

theorem Ordered.dialFailed (h : Ordered v) (hphase : v.phase i = .idle)
    (hquiet : v.active = [] ∨ v.Connecting) :
    Ordered ((v.onRecord fun record => (.disconnected, record.2)).enter i .ended) := by
  have hoff := h.turnOff hquiet (f := fun record => (.disconnected, record.2)) (fun _ => rfl) nofun
  apply hoff.enter
  · exact congrArg SessionPhase.held hphase
  · rfl
  · intro g hdrawn
    cases hphase.symm.trans hdrawn
  · exact nofun
  · intro _ hclosing
    cases hphase.symm.trans hclosing
  · exact Or.inr (Or.inl rfl)

/-- The session last inserted holds the newest generation. -/
theorem Ordered.insert (h : Ordered v) (hphase : v.phase i = .drawn g) (hnew : v.generation < g)
    (hfresh : forall other, other ∈ v.active -> other < g) :
    Ordered ({ v with
      entry := some { latestGeneration := g, active := v.active ++ [g] } }.enter i
        (.inserted g)) where
  mem_active := by
    intro other
    change other ∈ v.active ++ [g] ↔ _
    rw [List.mem_append, List.mem_singleton, h.mem_active]
    constructor
    · rintro (⟨j, hj⟩ | rfl)
      · refine ⟨j, ?_⟩
        unfold Holds
        rw [enter_phase_of_ne]
        · exact hj
        · rintro rfl
          rw [Holds, hphase] at hj
          cases hj
      · exact ⟨i, by rw [Holds, enter_phase_self]; rfl⟩
    · rintro ⟨j, hj⟩
      unfold Holds at hj
      by_cases heq : j = i
      · rw [heq, enter_phase_self] at hj
        exact Or.inr (Option.some.inj hj).symm
      · rw [enter_phase_of_ne heq] at hj
        exact Or.inl ⟨j, hj⟩
  unique := by
    intro a b other ha hb
    unfold Holds at ha hb
    have hnot : forall j, j ≠ i -> (v.phase j).held ≠ some g := fun j _ hj =>
      UInt64.lt_irrefl _ (hfresh g ((h.mem_active g).mpr ⟨j, hj⟩))
    by_cases hai : a = i
    · by_cases hbi : b = i
      · rw [hai, hbi]
      · rw [hai, enter_phase_self] at ha
        rw [enter_phase_of_ne hbi, ← ha] at hb
        exact absurd hb (hnot b hbi)
    · rw [enter_phase_of_ne hai] at ha
      by_cases hbi : b = i
      · rw [hbi, enter_phase_self] at hb
        rw [← hb] at ha
        exact absurd ha (hnot a hai)
      · rw [enter_phase_of_ne hbi] at hb
        exact h.unique ha hb
  recorded := by
    apply recorded_enter (v := v) h
    exact Or.inr (Or.inr (h.record_isSome (by rw [hphase]; nofun) (by rw [hphase]; nofun)))
  live_le := fun hlive => h.live_le (phase_of_enter hlive nofun)
  le_latest := by
    intro peerSessions hentry
    cases hentry
    constructor
    · exact UInt64.le_of_lt hnew
    · intro other hother
      rcases List.mem_append.mp hother with hother | hother
      · exact UInt64.le_of_lt (hfresh other hother)
      · rw [List.mem_singleton.mp hother]
        exact UInt64.le_refl g
  latest := by
    intro peerSessions hentry
    cases hentry
    exact Or.inr ⟨i, enter_phase_self⟩
  closing := by
    intro j old hclosing
    have hbefore := h.closing (phase_of_enter hclosing nofun)
    refine ⟨hbefore.1, ?_⟩
    intro other hother
    rcases List.mem_append.mp hother with hother | hother
    · exact hbefore.2 other hother
    · rw [List.mem_singleton.mp hother]
      exact UInt64.lt_of_le_of_lt hbefore.1 hnew
  connected := fun _ => Or.inl (List.append_ne_nil_of_right_ne_nil _ (List.cons_ne_nil _ _))
  registered := fun _ => Or.inr ⟨i, g, Or.inr enter_phase_self⟩

theorem max_eq_of_le {a b c : UInt64} (h : a = c ∨ b = c) (ha : a ≤ c) (hb : b ≤ c) :
    max a b = c := by
  change (if a ≤ b then b else a) = c
  rcases h with rfl | rfl
  · split
    · exact UInt64.le_antisymm hb (by assumption)
    · rfl
  · rw [if_pos ha]

theorem connect_generation (hrecord : v.record.isSome = true) :
    (v.onRecord fun record => (.connected, max record.2 g)).generation = max v.generation g := by
  unfold onRecord generation
  cases hcase : v.record with
  | none =>
      rw [hcase] at hrecord
      cases hrecord
  | some record => rfl

theorem le_max_generation (a b : UInt64) : a ≤ max a b ∧ b ≤ max a b := by
  change a ≤ (if a ≤ b then b else a) ∧ b ≤ (if a ≤ b then b else a)
  split
  · rename_i hle
    exact ⟨hle, UInt64.le_refl b⟩
  · rename_i hgt
    exact ⟨UInt64.le_refl a, UInt64.le_of_lt (UInt64.not_le.mp hgt)⟩

theorem Ordered.connect (h : Ordered v) (hphase : v.phase i = .inserted g) :
    Ordered ((v.onRecord fun record => (.connected, max record.2 g)).enter i (.live g)) := by
  have hrecord : v.record.isSome = true :=
    h.record_isSome (by rw [hphase]; nofun) (by rw [hphase]; nofun)
  have hgeneration : ((v.onRecord fun record => (.connected, max record.2 g)).enter i
      (.live g)).generation = max v.generation g := connect_generation hrecord
  have hmem := h.holds_mem hphase
  have hgrows := le_max_generation v.generation g
  constructor
  · exact h.toRegistered.congr rfl (enter_held (congrArg SessionPhase.held hphase).symm)
  · intro j
    exact Or.inr (Or.inr (by rw [← hrecord]; exact Option.isSome_map))
  · intro j other hlive
    rw [hgeneration]
    by_cases heq : j = i
    · rw [heq, enter_phase_self] at hlive
      cases hlive
      exact hgrows.2
    · rw [enter_phase_of_ne heq] at hlive
      exact UInt64.le_trans (h.live_le hlive) hgrows.1
  · intro peerSessions hentry
    have hbefore := h.le_latest hentry
    refine ⟨?_, hbefore.2⟩
    rw [hgeneration]
    change (if v.generation ≤ g then g else v.generation) ≤ _
    split
    · exact hbefore.2 g hmem
    · exact hbefore.1
  · intro peerSessions hentry
    have hbefore := h.le_latest hentry
    rw [hgeneration]
    rcases h.latest hentry with hlatest | ⟨j, hj⟩
    · exact Or.inl (max_eq_of_le (Or.inl hlatest) hbefore.1 (hbefore.2 g hmem))
    · by_cases heq : j = i
      · rw [heq, hphase] at hj
        cases hj
        exact Or.inl (max_eq_of_le (Or.inr rfl) hbefore.1 (hbefore.2 _ hmem))
      · exact Or.inr ⟨j, (enter_phase_of_ne heq).trans hj⟩
  · intro j other hclosing
    rw [hgeneration]
    have hbefore := h.closing (phase_of_enter hclosing nofun)
    exact ⟨UInt64.le_trans hbefore.1 hgrows.1, hbefore.2⟩
  · intro _
    exact Or.inl (List.ne_nil_of_mem hmem)
  · intro _
    rcases Option.isSome_iff_exists.mp hrecord with ⟨record, hsome⟩
    refine Or.inl ⟨max record.2 g, ?_⟩
    change v.record.map _ = _
    rw [hsome]
    rfl

/-- A session that leaves takes its own generation out, and no other. -/
theorem Registered.leave (h : Registered v) (hphase : v.phase i = .live g)
    (hactive : u.active = v.active.filter fun session => session != g)
    (hmoves : forall j, j ≠ i -> u.phase j = v.phase j) (hself : (u.phase i).held = none) :
    Registered u := by
  have hself' : forall other, ¬u.Holds i other := by
    intro other hholds
    rw [Holds, hself] at hholds
    cases hholds
  have hother : forall {j other}, u.Holds j other -> j ≠ i ∧ v.Holds j other := by
    intro j other hholds
    by_cases heq : j = i
    · exact absurd (heq ▸ hholds) (hself' other)
    · rw [Holds, hmoves j heq] at hholds
      exact ⟨heq, hholds⟩
  have hown : v.Holds i g := by
    rw [Holds, hphase]
    rfl
  constructor
  · intro other
    rw [hactive, List.mem_filter, bne_iff_ne, h.mem_active]
    constructor
    · rintro ⟨⟨j, hj⟩, hne⟩
      refine ⟨j, ?_⟩
      rw [Holds, hmoves]
      · exact hj
      · rintro rfl
        exact hne (Option.some.inj (hj.symm.trans hown))
    · rintro ⟨j, hj⟩
      rcases hother hj with ⟨hne, hheld⟩
      refine ⟨⟨j, hheld⟩, ?_⟩
      rintro rfl
      exact hne (h.unique hheld hown)
  · intro a b other ha hb
    exact h.unique (hother ha).2 (hother hb).2

theorem Connecting.enter (h : v.Connecting) (hphase : v.phase i = .live g) :
    (v.enter i p).Connecting := by
  rcases h with ⟨j, other, hdrawn | hinserted⟩
  · exact ⟨j, other, Or.inl (enter_phase hdrawn (by rw [hphase]; nofun))⟩
  · exact ⟨j, other, Or.inr (enter_phase hinserted (by rw [hphase]; nofun))⟩

theorem active_of_entry {peerSessions : PeerSessions} (hentry : v.entry = some peerSessions) :
    v.active = peerSessions.active := by
  unfold active
  rw [hentry]

theorem Ordered.leave (h : Ordered v) (hphase : v.phase i = .live g) {peerSessions : PeerSessions}
    (hentry : v.entry = some peerSessions)
    (hothers : (peerSessions.active.filter fun session => session != g) ≠ []) :
    Ordered ({ v with
      entry := some { peerSessions with
        active := peerSessions.active.filter fun session => session != g } }.enter i .ended) := by
  have hactive := active_of_entry hentry
  have hfewer : forall other,
      other ∈ (peerSessions.active.filter fun session => session != g) -> other ∈ v.active := by
    intro other hother
    rw [hactive]
    exact (List.mem_filter.mp hother).1
  constructor
  · apply h.toRegistered.leave hphase
    · rw [hactive]
      rfl
    · exact fun j hne => enter_phase_of_ne hne
    · rw [enter_phase_self]
      rfl
  · exact recorded_enter (v := v) h (Or.inr (Or.inl rfl))
  · exact fun hlive => h.live_le (phase_of_enter hlive nofun)
  · intro left hleft
    cases hleft
    have hbefore := h.le_latest hentry
    exact ⟨hbefore.1, fun other hother => hbefore.2 other (hfewer other hother)⟩
  · intro left hleft
    cases hleft
    exact (h.latest hentry).imp_right fun ⟨j, hj⟩ => ⟨j, enter_phase hj (by rw [hphase]; nofun)⟩
  · intro j other hclosing
    have hbefore := h.closing (phase_of_enter hclosing nofun)
    exact ⟨hbefore.1, fun other hother => hbefore.2 other (hfewer other hother)⟩
  · exact fun _ => Or.inl hothers
  · intro _
    have hne : v.active ≠ [] := by
      intro hnil
      rw [hactive] at hnil
      rw [hnil] at hothers
      exact hothers rfl
    exact (h.registered hne).imp_right fun hconnecting => hconnecting.enter hphase

/-- The last session leaves with the newest generation, and the record has it. -/
theorem Ordered.leaveLast (h : Ordered v) (hphase : v.phase i = .live g)
    {peerSessions : PeerSessions} (hentry : v.entry = some peerSessions)
    (hlast : (peerSessions.active.filter fun session => session != g) = []) :
    Ordered ({ v with entry := none }.enter i (.closing peerSessions.latestGeneration)) := by
  have hactive := active_of_entry hentry
  have hnewest : v.generation = peerSessions.latestGeneration := by
    rcases h.latest hentry with hlatest | ⟨j, hj⟩
    · exact hlatest
    · have hmem := h.holds_mem hj
      have heq : peerSessions.latestGeneration = g := by
        by_contra hne
        have hleft : peerSessions.latestGeneration ∈
            peerSessions.active.filter fun session => session != g := by
          rw [List.mem_filter, bne_iff_ne, ← hactive]
          exact ⟨hmem, hne⟩
        rw [hlast] at hleft
        cases hleft
      have hsame : j = i := by
        apply h.unique (g := g)
        · rw [Holds, hj, heq]
          rfl
        · rw [Holds, hphase]
          rfl
      rw [hsame, hphase] at hj
      cases hj
  constructor
  · apply h.toRegistered.leave hphase
    · rw [hactive, hlast]
      rfl
    · exact fun j hne => enter_phase_of_ne hne
    · rw [enter_phase_self]
      rfl
  · apply recorded_enter (v := v) h
    exact Or.inr (Or.inr (h.record_isSome (by rw [hphase]; nofun) (by rw [hphase]; nofun)))
  · exact fun hlive => h.live_le (phase_of_enter hlive nofun)
  · exact nofun
  · exact nofun
  · intro j other hclosing
    refine ⟨?_, nofun⟩
    by_cases heq : j = i
    · rw [heq, enter_phase_self] at hclosing
      cases hclosing
      exact UInt64.le_of_eq hnewest.symm
    · rw [enter_phase_of_ne heq] at hclosing
      exact (h.closing hclosing).1
  · intro _
    refine Or.inr ⟨i, ?_⟩
    rw [enter_phase_self]
    exact congrArg SessionPhase.closing hnewest.symm
  · exact fun hne => absurd rfl hne

/-- Behind a disconnect of the newest generation every registered session is still on
its way. -/
theorem Ordered.connecting_of_closing (h : Ordered v) (hphase : v.phase i = .closing v.generation) :
    v.active = [] ∨ v.Connecting := by
  cases hactive : v.active with
  | nil => exact Or.inl rfl
  | cons other rest =>
      have hmem : other ∈ v.active := by
        rw [hactive]
        exact List.mem_cons_self
      have hlt := (h.closing hphase).2 other hmem
      rcases (h.mem_active other).mp hmem with ⟨j, hj⟩
      refine Or.inr ⟨j, other, Or.inr ?_⟩
      unfold Holds at hj
      cases hcase : v.phase j with
      | inserted own =>
          rw [hcase] at hj
          rw [Option.some.inj hj]
      | live own =>
          rw [hcase] at hj
          rw [Option.some.inj hj] at hcase
          exact absurd (h.live_le hcase) (UInt64.not_le.mpr hlt)
      | idle | known | drawn _ | closing _ | ended =>
          rw [hcase] at hj
          cases hj

theorem onRecord_congr {f f' : PeerState × UInt64 -> PeerState × UInt64}
    (hf : forall record, v.record = some record -> f record = f' record) :
    v.onRecord f = v.onRecord f' := by
  unfold onRecord
  congr 1
  cases hrecord : v.record with
  | none => rfl
  | some record => exact congrArg some (hf record hrecord)

theorem generation_of_record {record : PeerState × UInt64} (hrecord : v.record = some record) :
    v.generation = record.2 := by
  unfold generation
  rw [hrecord]

theorem Ordered.disconnect (h : Ordered v) (hphase : v.phase i = .closing g) :
    Ordered ((v.onRecord fun record =>
      if record.2 ≠ g then record else (.disconnected, record.2)).enter i .ended) := by
  have hheld : (v.phase i).held = none := congrArg SessionPhase.held hphase
  by_cases hnewest : v.generation = g
  · have hoff : (v.onRecord fun record =>
        if record.2 ≠ g then record else (.disconnected, record.2)) =
        v.onRecord fun record => (.disconnected, record.2) := by
      apply onRecord_congr
      intro record hrecord
      rw [if_neg]
      rw [not_not, ← generation_of_record hrecord, hnewest]
    rw [hoff]
    have hturned := h.turnOff (h.connecting_of_closing (by rw [hphase, hnewest]))
      (f := fun record => (.disconnected, record.2)) (fun _ => rfl) nofun
    apply hturned.enter hheld rfl
    · intro other hdrawn
      cases hphase.symm.trans hdrawn
    · exact nofun
    · rintro ⟨other, hrecord⟩
      rcases Option.map_eq_some_iff.mp hrecord with ⟨record, _, hstate⟩
      cases congrArg Prod.fst hstate
    · exact Or.inr (Or.inl rfl)
  · have hkept : (v.onRecord fun record =>
        if record.2 ≠ g then record else (.disconnected, record.2)) = v := by
      have hsame : (v.onRecord fun record =>
          if record.2 ≠ g then record else (.disconnected, record.2)) = v.onRecord id := by
        apply onRecord_congr
        intro record hrecord
        rw [if_pos]
        · rfl
        · rw [← generation_of_record hrecord]
          exact hnewest
      rw [hsame]
      unfold onRecord
      rw [Option.map_id_fun, id]
    rw [hkept]
    apply h.enter hheld rfl
    · intro other hdrawn
      cases hphase.symm.trans hdrawn
    · exact nofun
    · intro _ hclosing
      exact hnewest (SessionPhase.closing.inj (hclosing.symm.trans hphase))
    · exact Or.inr (Or.inl rfl)

theorem Ordered.step (h : Ordered v) (hstep : Step v u) : Ordered u := by
  cases hstep with
  | stay => exact h
  | known => exact h.known
  | handshake hphase =>
      apply h.known.enter (congrArg SessionPhase.held hphase) rfl
      · intro other hdrawn
        cases hphase.symm.trans hdrawn
      · exact nofun
      · intro _ hclosing
        cases hphase.symm.trans hclosing
      · exact Or.inr (Or.inr rfl)
  | dialFailed hphase hquiet => exact h.dialFailed hphase hquiet
  | draw hphase =>
      apply h.enter (congrArg SessionPhase.held hphase) rfl
      · intro other hdrawn
        cases hphase.symm.trans hdrawn
      · exact nofun
      · intro _ hclosing
        cases hphase.symm.trans hclosing
      · exact Or.inr (Or.inr (h.record_isSome (by rw [hphase]; nofun) (by rw [hphase]; nofun)))
  | insert hphase hnew hfresh => exact h.insert hphase hnew hfresh
  | connect hphase => exact h.connect hphase
  | leave hphase hentry hothers => exact h.leave hphase hentry hothers
  | leaveLast hphase hentry hlast => exact h.leaveLast hphase hentry hlast
  | disconnect hphase => exact h.disconnect hphase

end SessionView

end VisionCore
