import Mathlib.Order.Monotone.Basic
import VisionCore.P2p.SessionActions

/-!
# What a peer has reported

Summaries and heights reach the record of a peer from several sessions in any order.
The tip and the work of the record always come from one summary.  The work can fall,
because a summary at the recorded height or above replaces the record whatever its
work is.
-/

namespace VisionCore

open Foundation

/-- The summary does not replace the record by one of less work: it comes from an old
generation, has as much work, or is lower than a record with a tip. -/
def Peer.KeepsWork (peer : Peer) (summary : ChainSummary) (generation : Option UInt64) : Prop :=
  (generation.any fun generation => generation < peer.connectionGeneration) = true ∨
    peer.cumulativeWork ≤ summary.cumulativeWork ∨
      summary.height < peer.height ∧ peer.tipHash.isSome = true

namespace PeerManager

def tip (pm : PeerManager) (addr : String) : Option String :=
  pm.peers[addr]?.bind Peer.tipHash

def work (pm : PeerManager) (addr : String) : Nat :=
  (pm.peers[addr]?.map Peer.cumulativeWork).getD 0

/-- The record holds no summary. -/
structure Cleared (pm : PeerManager) (addr : String) : Prop where
  tip : pm.tip addr = none
  work : pm.work addr = 0

def applyAll (pm : PeerManager) (ops : List (Nat × PeerOp)) : PeerManager :=
  ops.foldl (fun pm entry => entry.2.apply entry.1 pm) pm

end PeerManager

namespace PeerOp

/-- The operation ends the connection of the peer. -/
def Disconnects (addr : String) (pm : PeerManager) : PeerOp -> Prop
  | setState key state => key = addr ∧ (state = .disconnected ∨ state = .knownOnly)
  | disconnectIfGeneration key generation =>
      key = addr ∧ exists peer, pm.peers[addr]? = some peer ∧
        peer.connectionGeneration = generation
  | _ => False

/-- The operation brings a summary of the peer with this tip and this work. -/
def Brings (addr : String) (tip : Option String) (work : Nat) : PeerOp -> Prop
  | noteSummaryFrom key summary _ _ =>
      key = addr ∧ summary.tipHash = tip ∧ summary.cumulativeWork = work
  | _ => False

def KeepsWork (addr : String) (pm : PeerManager) : PeerOp -> Prop
  | noteSummaryFrom key summary generation _ =>
      key = addr -> forall peer, pm.peers[addr]? = some peer ->
        peer.KeepsWork summary generation
  | _ => True

end PeerOp

/-!
# One operation
-/

section Step

variable {pm : PeerManager} {addr key : String} {f : Peer -> Peer} {first : Peer}

theorem Peer.noteHeight_tip (peer : Peer) (height : UInt64) (now : Nat) :
    (peer.noteHeight height now).tipHash = peer.tipHash ∧
      (peer.noteHeight height now).cumulativeWork = peer.cumulativeWork := by
  unfold Peer.noteHeight
  split
  · exact ⟨rfl, rfl⟩
  · exact ⟨rfl, rfl⟩

/-- A summary is ignored, or replaces the tip and the work together. -/
theorem Peer.noteSummaryFrom_cases (peer : Peer) (summary : ChainSummary)
    (generation : Option UInt64) (source : Option String) (now : Nat) :
    ((peer.noteSummaryFrom summary generation source now).tipHash = peer.tipHash ∧
        (peer.noteSummaryFrom summary generation source now).cumulativeWork =
          peer.cumulativeWork ∧ peer.KeepsWork summary generation) ∨
      ((peer.noteSummaryFrom summary generation source now).tipHash = summary.tipHash ∧
        (peer.noteSummaryFrom summary generation source now).cumulativeWork =
          summary.cumulativeWork ∧
        (peer.KeepsWork summary generation ↔
          peer.cumulativeWork ≤ summary.cumulativeWork)) := by
  unfold Peer.noteSummaryFrom
  split
  · rename_i hstale
    exact Or.inl ⟨rfl, rfl, Or.inl hstale⟩
  · rename_i hcurrent
    dsimp only
    split
    · rename_i hreplaces
      apply Or.inr
      constructor
      · rfl
      constructor
      · rfl
      constructor
      · rintro (hstale | hmore | ⟨hlower, htip⟩)
        · exact absurd hstale hcurrent
        · exact hmore
        · rcases hreplaces with hmore | hhigher | hnone
          · exact Nat.le_of_lt hmore
          · exact absurd hlower (UInt64.not_lt.mpr hhigher)
          · rw [Option.isNone_iff_eq_none.mp hnone] at htip
            cases htip
      · exact fun hmore => Or.inr (Or.inl hmore)
    · rename_i hkeeps
      rw [not_or, not_or] at hkeeps
      apply Or.inl
      constructor
      · rfl
      constructor
      · rfl
      · apply Or.inr
        apply Or.inr
        constructor
        · exact UInt64.not_le.mp hkeeps.2.1
        · rw [← Option.not_isNone]
          simp [hkeeps.2.2]

namespace PeerManager

theorem update_keeps (hf : key = addr -> forall peer : Peer, (f peer).tipHash = peer.tipHash ∧
    (f peer).cumulativeWork = peer.cumulativeWork) :
    (pm.update key f).tip addr = pm.tip addr ∧ (pm.update key f).work addr = pm.work addr := by
  unfold tip work
  rw [update_get]
  split
  · rename_i heq
    cases pm.peers[addr]? with
    | none => exact ⟨rfl, rfl⟩
    | some peer => exact hf heq peer
  · exact ⟨rfl, rfl⟩

theorem entry_keeps (hf : forall peer : Peer, (f peer).tipHash = peer.tipHash ∧
    (f peer).cumulativeWork = peer.cumulativeWork)
    (hfirst : first.tipHash = none ∧ first.cumulativeWork = 0) :
    (pm.entry key f first).tip addr = pm.tip addr ∧
      (pm.entry key f first).work addr = pm.work addr := by
  unfold tip work
  by_cases heq : key = addr
  · subst heq
    rw [entry_get_self]
    cases pm.peers[key]? with
    | none => exact hfirst
    | some peer => exact hf peer
  · rw [entry_get_of_ne heq]
    exact ⟨rfl, rfl⟩

theorem update_cleared (hf : forall peer : Peer, (f peer).tipHash = none ∧
    (f peer).cumulativeWork = 0) : (pm.update addr f).Cleared addr := by
  constructor
  · unfold tip
    rw [update_get_self]
    cases pm.peers[addr]? with
    | none => rfl
    | some peer => exact (hf peer).1
  · unfold work
    rw [update_get_self]
    cases pm.peers[addr]? with
    | none => rfl
    | some peer => exact (hf peer).2

end PeerManager

/-- A connection that ends leaves no summary behind. -/
theorem PeerOp.Disconnects.cleared {op : PeerOp} (h : op.Disconnects addr pm) (now : Nat) :
    (op.apply now pm).Cleared addr := by
  cases op with
  | setState key state =>
      rcases h with ⟨rfl, hstate⟩
      apply PeerManager.update_cleared
      intro peer
      rcases hstate with rfl | rfl
      · exact ⟨rfl, rfl⟩
      · exact ⟨rfl, rfl⟩
  | disconnectIfGeneration key generation =>
      rcases h with ⟨rfl, peer, hpeer, hgeneration⟩
      have hafter : (pm.disconnectIfGeneration key generation).peers[key]? =
          some { peer with state := .disconnected }.clearSummary := by
        unfold PeerManager.disconnectIfGeneration
        rw [PeerManager.update_get_self, hpeer]
        unfold Peer.disconnectIfGeneration
        simp [hgeneration]
      constructor
      · unfold PeerManager.tip PeerOp.apply
        dsimp only
        rw [hafter]
        rfl
      · unfold PeerManager.work PeerOp.apply
        dsimp only
        rw [hafter]
        rfl
  | upsert key isOutbound => exact h.elim
  | observeInbound durableAddr observedAddr => exact h.elim
  | connectSession key generation => exact h.elim
  | noteHeight key height => exact h.elim
  | noteSummaryFrom key summary generation source => exact h.elim
  | heightPollSent key => exact h.elim

/-- Within a connection an operation keeps the tip and the work, or sets both from the
summary that it brings. -/
theorem PeerOp.apply_cases {op : PeerOp} (h : ¬ op.Disconnects addr pm) (now : Nat) :
    (((op.apply now pm).tip addr = pm.tip addr ∧ (op.apply now pm).work addr = pm.work addr) ∧
        op.KeepsWork addr pm) ∨
      (op.Brings addr ((op.apply now pm).tip addr) ((op.apply now pm).work addr) ∧
        (op.KeepsWork addr pm ↔ pm.work addr ≤ (op.apply now pm).work addr)) := by
  cases op with
  | upsert key isOutbound =>
      exact Or.inl ⟨PeerManager.entry_keeps (fun _ => ⟨rfl, rfl⟩) ⟨rfl, rfl⟩, trivial⟩
  | setState key state =>
      apply Or.inl
      refine ⟨PeerManager.update_keeps ?_, trivial⟩
      intro heq peer
      cases state with
      | connected => exact ⟨rfl, rfl⟩
      | connecting => exact ⟨rfl, rfl⟩
      | disconnected => exact absurd ⟨heq, Or.inl rfl⟩ h
      | knownOnly => exact absurd ⟨heq, Or.inr rfl⟩ h
  | observeInbound durableAddr observedAddr =>
      apply Or.inl
      refine ⟨?_, trivial⟩
      unfold PeerOp.apply PeerManager.observeInbound
      dsimp only
      split
      · exact PeerManager.entry_keeps (fun _ => ⟨rfl, rfl⟩) ⟨rfl, rfl⟩
      · exact PeerManager.entry_keeps (fun _ => ⟨rfl, rfl⟩) ⟨rfl, rfl⟩
  | connectSession key generation =>
      exact Or.inl ⟨PeerManager.update_keeps fun _ _ => ⟨rfl, rfl⟩, trivial⟩
  | noteHeight key height =>
      exact Or.inl ⟨PeerManager.update_keeps fun _ peer => peer.noteHeight_tip height now, trivial⟩
  | heightPollSent key =>
      exact Or.inl ⟨PeerManager.update_keeps fun _ _ => ⟨rfl, rfl⟩, trivial⟩
  | disconnectIfGeneration key generation =>
      apply Or.inl
      refine ⟨?_, trivial⟩
      unfold PeerOp.apply PeerManager.disconnectIfGeneration PeerManager.tip PeerManager.work
      dsimp only
      rw [PeerManager.update_get]
      split
      · rename_i heq
        cases hpeer : pm.peers[addr]? with
        | none => exact ⟨rfl, rfl⟩
        | some peer =>
            -- The record belongs to a newer session.
            have hgeneration : peer.connectionGeneration ≠ generation :=
              fun hgeneration => h ⟨heq, peer, hpeer, hgeneration⟩
            rw [Option.map_some]
            unfold Peer.disconnectIfGeneration
            rw [if_pos hgeneration]
            exact ⟨rfl, rfl⟩
      · exact ⟨rfl, rfl⟩
  | noteSummaryFrom key summary generation source =>
      unfold PeerOp.apply PeerManager.notePeerSummaryFrom PeerManager.tip PeerManager.work
        PeerOp.KeepsWork PeerOp.Brings
      dsimp only
      rw [PeerManager.update_get]
      by_cases heq : key = addr
      · rw [if_pos heq]
        cases hpeer : pm.peers[addr]? with
        | none =>
            apply Or.inl
            refine ⟨⟨rfl, rfl⟩, ?_⟩
            intro _ peer hsome
            cases hsome
        | some peer =>
            have hkeeps : (key = addr -> forall record, some peer = some record ->
                record.KeepsWork summary generation) ↔ peer.KeepsWork summary generation := by
              constructor
              · exact fun hall => hall heq peer rfl
              · rintro hpeer _ record hrecord
                cases hrecord
                exact hpeer
            rw [Option.map_some, hkeeps]
            rcases peer.noteSummaryFrom_cases summary generation source now with
              ⟨htip, hwork, hholds⟩ | ⟨htip, hwork, hiff⟩
            · exact Or.inl ⟨⟨htip, hwork⟩, hholds⟩
            · apply Or.inr
              refine ⟨⟨heq, htip.symm, hwork.symm⟩, hiff.trans ?_⟩
              rw [Option.map_some, Option.map_some, Option.getD_some, Option.getD_some, hwork]
      · rw [if_neg heq]
        exact Or.inl ⟨⟨rfl, rfl⟩, fun hsame => absurd hsame heq⟩

theorem PeerOp.le_apply_iff {op : PeerOp} (h : ¬ op.Disconnects addr pm) (now : Nat) :
    pm.work addr ≤ (op.apply now pm).work addr ↔ op.KeepsWork addr pm := by
  rcases PeerOp.apply_cases h now with ⟨⟨_, hwork⟩, hkeeps⟩ | ⟨_, hiff⟩
  · exact iff_of_true (Nat.le_of_eq hwork.symm) hkeeps
  · exact hiff.symm

end Step

/-!
# A connection
-/

section Run

variable {addr : String} {pm : PeerManager} {ops : List (Nat × PeerOp)}

/-- No operation of the run ends the connection of the peer. -/
def StaysConnected (addr : String) (pm : PeerManager) (ops : List (Nat × PeerOp)) : Prop :=
  forall (i : Nat) (h : i < ops.length),
    ¬ (ops[i]).2.Disconnects addr (pm.applyAll (ops.take i))

/-- Along the run the work of the peer never falls, and its tip and its work are those
of one summary that the run brought. -/
structure WorkHolds (addr : String) (pm : PeerManager) (ops : List (Nat × PeerOp)) : Prop where
  monotone : Monotone fun i => (pm.applyAll (ops.take i)).work addr
  oneSummary : forall i, (pm.applyAll (ops.take i)).Cleared addr ∨
    exists entry, entry ∈ ops.take i ∧
      entry.2.Brings addr ((pm.applyAll (ops.take i)).tip addr)
        ((pm.applyAll (ops.take i)).work addr)

theorem applyAll_take_succ {i : Nat} (h : i < ops.length) :
    pm.applyAll (ops.take (i + 1)) =
      (ops[i]).2.apply (ops[i]).1 (pm.applyAll (ops.take i)) := by
  unfold PeerManager.applyAll
  rw [List.take_succ_eq_append_getElem h, List.foldl_append]
  rfl

theorem work_monotone_iff (hops : StaysConnected addr pm ops) :
    (Monotone fun i => (pm.applyAll (ops.take i)).work addr) ↔
      forall (i : Nat) (h : i < ops.length),
        (ops[i]).2.KeepsWork addr (pm.applyAll (ops.take i)) := by
  constructor
  · intro hmono i h
    apply (PeerOp.le_apply_iff (hops i h) (ops[i]).1).mp
    rw [← applyAll_take_succ h]
    exact hmono (Nat.le_succ i)
  · intro hkeeps
    apply monotone_nat_of_le_succ
    intro i
    by_cases h : i < ops.length
    · rw [applyAll_take_succ h]
      exact (PeerOp.le_apply_iff (hops i h) (ops[i]).1).mpr (hkeeps i h)
    · have hlength : ops.length ≤ i := Nat.le_of_not_lt h
      rw [List.take_of_length_le hlength, List.take_of_length_le (Nat.le_succ_of_le hlength)]

/-- The tip and the work come from one summary, whatever the order of the reports. -/
theorem oneSummary_applyAll (hstart : pm.Cleared addr) (hops : StaysConnected addr pm ops)
    (i : Nat) : (pm.applyAll (ops.take i)).Cleared addr ∨
      exists entry, entry ∈ ops.take i ∧
        entry.2.Brings addr ((pm.applyAll (ops.take i)).tip addr)
          ((pm.applyAll (ops.take i)).work addr) := by
  induction i with
  | zero => exact Or.inl hstart
  | succ i ih =>
      by_cases h : i < ops.length
      · have hmem : ops[i] ∈ ops.take (i + 1) := by
          rw [List.take_succ_eq_append_getElem h]
          exact List.mem_append_right _ List.mem_cons_self
        have hlater : forall entry, entry ∈ ops.take i -> entry ∈ ops.take (i + 1) :=
          fun entry hentry => List.take_subset_take_left ops (Nat.le_succ i) hentry
        rw [applyAll_take_succ h]
        rcases PeerOp.apply_cases (hops i h) (ops[i]).1 with ⟨⟨htip, hwork⟩, _⟩ | ⟨hbrings, _⟩
        · rw [htip, hwork]
          rcases ih with hcleared | ⟨entry, hentry, hbrings⟩
          · exact Or.inl ⟨htip.trans hcleared.tip, hwork.trans hcleared.work⟩
          · exact Or.inr ⟨entry, hlater entry hentry, hbrings⟩
        · exact Or.inr ⟨ops[i], hmem, hbrings⟩
      · have hlength : ops.length ≤ i := Nat.le_of_not_lt h
        rw [List.take_of_length_le (Nat.le_succ_of_le hlength)]
        rw [List.take_of_length_le hlength] at ih
        exact ih

/-- Between two disconnects the stored work holds exactly when no operation finds a
record that a summary of less work replaces. -/
theorem peerWork_iff (hstart : pm.Cleared addr) (hops : StaysConnected addr pm ops) :
    WorkHolds addr pm ops ↔
      forall (i : Nat) (h : i < ops.length),
        (ops[i]).2.KeepsWork addr (pm.applyAll (ops.take i)) := by
  constructor
  · exact fun h => (work_monotone_iff hops).mp h.monotone
  · exact fun h => ⟨(work_monotone_iff hops).mpr h, oneSummary_applyAll hstart hops⟩

end Run

/-!
# A summary that arrives late
-/

/-- The peer reorganizes from height 83 to the heavier tip at height 81, and its older
summary arrives after the newer one. -/
def lateSummary : List (Nat × PeerOp) :=
  [(0, .upsert "c:9000" true), (0, .setState "c:9000" .connected),
    (1, .noteSummaryFrom "c:9000"
      { height := 81, tipHash := some "new", cumulativeWork := 1757 } none none),
    (2, .noteSummaryFrom "c:9000"
      { height := 83, tipHash := some "old", cumulativeWork := 1754 } none none)]

theorem empty_cleared (addr : String) : PeerManager.empty.Cleared addr := by
  constructor
  · simp [PeerManager.tip, PeerManager.empty]
  · simp [PeerManager.work, PeerManager.empty]

theorem lateSummary_staysConnected :
    StaysConnected "c:9000" PeerManager.empty lateSummary := by
  intro i h
  have hi : i < 4 := h
  interval_cases i
  · exact id
  · rintro ⟨_, hstate⟩
    rcases hstate with hstate | hstate
    · cases hstate
    · cases hstate
  · exact id
  · exact id

theorem peerWork_lateSummary : WorkHolds "c:9000" PeerManager.empty lateSummary ↔
    forall (i : Nat) (h : i < lateSummary.length),
      (lateSummary[i]).2.KeepsWork "c:9000" (PeerManager.empty.applyAll (lateSummary.take i)) :=
  peerWork_iff (empty_cleared "c:9000") lateSummary_staysConnected

theorem lateSummary_works :
    (PeerManager.empty.applyAll (lateSummary.take 3)).work "c:9000" = 1757 ∧
      (PeerManager.empty.applyAll (lateSummary.take 4)).work "c:9000" = 1754 := by
  decide +kernel

theorem lateSummary_lowers_work : PeerManager.empty.Cleared "c:9000" ∧
    StaysConnected "c:9000" PeerManager.empty lateSummary ∧
      ¬ WorkHolds "c:9000" PeerManager.empty lateSummary := by
  constructor
  · exact empty_cleared "c:9000"
  constructor
  · exact lateSummary_staysConnected
  · intro h
    have hle : (PeerManager.empty.applyAll (lateSummary.take 3)).work "c:9000" ≤
        (PeerManager.empty.applyAll (lateSummary.take 4)).work "c:9000" :=
      h.monotone (Nat.le_succ 3)
    rw [lateSummary_works.1, lateSummary_works.2] at hle
    exact absurd hle (by decide)

end VisionCore
