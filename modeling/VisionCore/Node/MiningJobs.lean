import VisionCore.Miner.Agreement

/-!
# The published mining job

The miner loop builds a candidate while it holds the chain lock and publishes it
afterwards.  The number of the job and the job itself are two cells, and each of the
calls that publish or clear a job writes one after the other.  The importers extend the
chain and clear the job in between.
-/

namespace VisionCore

open Std Foundation

/-- Where the miner loop stands. -/
inductive MinerPhase where
  | idle
  | pausing
  | built (job : MiningJob)
  | publishing (job : MiningJob)
  | mining (job : MiningJob) (nonce : UInt64)
  | trying (job : MiningJob) (nonce : UInt64)
  | solved (job : MiningJob) (blk : Block)

namespace MinerPhase

/-- A call that writes both cells has written the first one. -/
def isHalfway : MinerPhase -> Bool
  | pausing | publishing _ => true
  | idle | built _ | mining _ _ | trying _ _ | solved _ _ => false

end MinerPhase

/-- Where the import of an announced block stands. -/
inductive AnnouncerPhase where
  | idle
  | imported
  | clearing
deriving DecidableEq

structure MiningNode where
  chain : ChainState
  nextJobId : UInt64
  activeJobId : UInt64
  currentJob : Option MiningJob
  miner : MinerPhase
  announcer : AnnouncerPhase

inductive MiningEvent where
  | pause
  | paused
  | candidate (now : UInt64) (minerAddr : String) (mempoolTxs : List Tx)
  | publishId
  | publishJob
  | checkJob
  | tryNonce
  | submit (host : Host)
  | announce (host : Host) (blk : Block) (peerAddr : String)
  | clearId
  | clearJob
  | fetch (host : Host) (blk : Block) (peerAddr : String)
  | finishFetch

/-- What an importer does with a block under one chain lock: after a canonical extension
it refreshes the cached root and takes the recovery.  The flag reports the extension. -/
def importLocked (P : Platform) (host : Host) (g : ChainState) (blk : Block)
    (sourcePeer : Option String) : Except Fault (ChainState × Bool) := do
  let out <- applyBlock P host g blk sourcePeer
  match out.result with
  | .canonExtension _ =>
      return ({ out.chain.refreshCachedStateRootFromTip with pendingReorgRecovery := none }, true)
  | _ => return (out.chain, false)

namespace MiningNode

def start (g : ChainState) : MiningNode :=
  { chain := g
    nextJobId := 1
    activeJobId := 0
    currentJob := none
    miner := .idle
    announcer := .idle }

def isCurrentJob (s : MiningNode) (jobId : UInt64) : Bool :=
  s.activeJobId == jobId

/-- One atomic step of a task; `none` where the step is not the next one of its task, or
where the task aborts. -/
def step (P : Platform) (params : VisionXParams) (s : MiningNode) :
    MiningEvent -> Option MiningNode
  | .pause =>
      match s.miner with
      | .idle => some { s with activeJobId := 0, miner := .pausing }
      | _ => none
  | .paused =>
      match s.miner with
      | .pausing => some { s with currentJob := none, miner := .idle }
      | _ => none
  | .candidate now minerAddr mempoolTxs =>
      match s.miner with
      | .idle =>
          -- the number is drawn once there is a tip, also where the candidate is given up
          let drawn := if s.chain.blocks.isEmpty then s.nextJobId else s.nextJobId + 1
          match buildCandidateForTip P params now s.nextJobId s.chain minerAddr mempoolTxs with
          | .error _ => none
          | .ok none => some { s with nextJobId := drawn }
          | .ok (some job) => some { s with nextJobId := drawn, miner := .built job }
      | _ => none
  | .publishId =>
      match s.miner with
      | .built job => some { s with activeJobId := job.jobId, miner := .publishing job }
      | _ => none
  | .publishJob =>
      match s.miner with
      | .publishing job => some { s with currentJob := some job, miner := .mining job 0 }
      | _ => none
  | .checkJob =>
      match s.miner with
      | .mining job nonce =>
          some { s with
            miner := if s.isCurrentJob job.jobId then .trying job nonce else .idle }
      | _ => none
  | .tryNonce =>
      match s.miner with
      | .trying job nonce =>
          match job.tryNonce P nonce with
          | some blk => some { s with miner := .solved job blk }
          | none =>
              some { s with
                miner := if nonce = UInt64.ofNat (u64Bound - 1) then .idle
                  else .mining job (nonce + 1) }
      | _ => none
  | .submit host =>
      match s.miner with
      | .solved _ blk =>
          match importLocked P host s.chain blk none with
          | .error _ => none
          | .ok (chain, _) => some { s with chain := chain, miner := .idle }
      | _ => none
  | .announce host blk peerAddr =>
      match s.announcer with
      | .idle =>
          match importLocked P host s.chain blk (some peerAddr) with
          | .error _ => none
          | .ok (chain, extended) =>
              some { s with chain := chain, announcer := if extended then .imported else .idle }
      | _ => none
  | .clearId =>
      match s.announcer with
      | .imported => some { s with activeJobId := 0, announcer := .clearing }
      | _ => none
  | .clearJob =>
      match s.announcer, s.miner with
      -- the lock of the second cell is taken
      | .clearing, .publishing _ => none
      | .clearing, _ => some { s with currentJob := none, announcer := .idle }
      | _, _ => none
  | .fetch host blk peerAddr =>
      if (s.chain.blockByHash blk.hash).isSome then some s
      else
        match applyBlock P host s.chain blk (some peerAddr) with
        | .error _ => none
        | .ok out => some { s with chain := out.chain }
  | .finishFetch =>
      some { s with
        chain := { s.chain.refreshCachedStateRootFromTip with pendingReorgRecovery := none } }

def run (P : Platform) (params : VisionXParams) (s : MiningNode) (events : List MiningEvent) :
    Option MiningNode :=
  events.foldlM (step P params) s

/-- A nonce of the job with this number is tried. -/
def tries (s : MiningNode) (jobId : UInt64) : MiningEvent -> Nat
  | .tryNonce =>
      match s.miner with
      | .trying job _ => if job.jobId = jobId then 1 else 0
      | _ => 0
  | _ => 0

/-- How many nonces of the job a run tries. -/
def triesIn (P : Platform) (params : VisionXParams) (jobId : UInt64) :
    MiningNode -> List MiningEvent -> Nat
  | _, [] => 0
  | s, event :: rest =>
      match s.step P params event with
      | none => 0
      | some s' => s.tries jobId event + triesIn P params jobId s' rest

end MiningNode

/-!
# The candidate
-/

theorem buildCandidateForTip_job {P : Platform} {params : VisionXParams} {now jobId : UInt64}
    {g : ChainState} {minerAddr : String} {mempoolTxs : List Tx} {job : MiningJob}
    (h : buildCandidateForTip P params now jobId g minerAddr mempoolTxs = .ok (some job)) :
    job.jobId = jobId ∧ g.blocks.isEmpty = false := by
  unfold buildCandidateForTip at h
  cases htip : g.blocks.getLast? with
  | none =>
      rw [htip] at h
      cases h
  | some tip =>
      have hblocks : g.blocks.isEmpty = false := by
        rw [List.isEmpty_eq_false_iff]
        intro hempty
        rw [hempty] at htip
        cases htip
      rw [htip] at h
      rcases bind_eq_ok.mp h with ⟨earliest, _, h⟩
      rcases bind_eq_ok.mp h with ⟨draft, hdraft, h⟩
      rcases bind_eq_ok.mp hdraft with ⟨height, _, hdraft⟩
      cases hdraft
      split at h
      · cases h
      · rcases bind_eq_ok.mp h with ⟨height', _, h⟩
        rcases bind_eq_ok.mp h with ⟨root, _, h⟩
        cases root with
        | none => cases h
        | some root =>
            cases h
            exact ⟨rfl, hblocks⟩

/-!
# What a step can do
-/

namespace MiningNode

variable {P : Platform} {params : VisionXParams} {s s' : MiningNode} {event : MiningEvent}
  {events : List MiningEvent} {jobId : UInt64}

inductive StepCase (s : MiningNode) : MiningEvent -> MiningNode -> Prop where
  | pause (hminer : s.miner = .idle) :
      StepCase s .pause { s with activeJobId := 0, miner := .pausing }
  | paused (hminer : s.miner = .pausing) :
      StepCase s .paused { s with currentJob := none, miner := .idle }
  | draw {now minerAddr mempoolTxs} (next : UInt64) (hminer : s.miner = .idle)
      (hnext : next = s.nextJobId ∨ next = s.nextJobId + 1) :
      StepCase s (.candidate now minerAddr mempoolTxs) { s with nextJobId := next }
  | built {now minerAddr mempoolTxs} (job : MiningJob) (hminer : s.miner = .idle)
      (hid : job.jobId = s.nextJobId) :
      StepCase s (.candidate now minerAddr mempoolTxs)
        { s with nextJobId := s.nextJobId + 1, miner := .built job }
  | publishId (job : MiningJob) (hminer : s.miner = .built job) :
      StepCase s .publishId { s with activeJobId := job.jobId, miner := .publishing job }
  | publishJob (job : MiningJob) (hminer : s.miner = .publishing job) :
      StepCase s .publishJob { s with currentJob := some job, miner := .mining job 0 }
  | goOn (job : MiningJob) (nonce : UInt64) (hminer : s.miner = .mining job nonce)
      (hcurrent : s.activeJobId = job.jobId) :
      StepCase s .checkJob { s with miner := .trying job nonce }
  | giveUp (job : MiningJob) (nonce : UInt64) (hminer : s.miner = .mining job nonce) :
      StepCase s .checkJob { s with miner := .idle }
  | solve (job : MiningJob) (nonce : UInt64) (blk : Block) (hminer : s.miner = .trying job nonce) :
      StepCase s .tryNonce { s with miner := .solved job blk }
  | exhaust (job : MiningJob) (nonce : UInt64) (hminer : s.miner = .trying job nonce) :
      StepCase s .tryNonce { s with miner := .idle }
  | miss (job : MiningJob) (nonce : UInt64) (hminer : s.miner = .trying job nonce) :
      StepCase s .tryNonce { s with miner := .mining job (nonce + 1) }
  | submit {host} (job : MiningJob) (blk : Block) (chain : ChainState)
      (hminer : s.miner = .solved job blk) :
      StepCase s (.submit host) { s with chain := chain, miner := .idle }
  | announce {host blk peerAddr} (chain : ChainState) (phase : AnnouncerPhase)
      (hannouncer : s.announcer = .idle) (hphase : phase ≠ .clearing) :
      StepCase s (.announce host blk peerAddr) { s with chain := chain, announcer := phase }
  | clearId (hannouncer : s.announcer = .imported) :
      StepCase s .clearId { s with activeJobId := 0, announcer := .clearing }
  | clearJob (hannouncer : s.announcer = .clearing)
      (hlock : forall job, s.miner ≠ .publishing job) :
      StepCase s .clearJob { s with currentJob := none, announcer := .idle }
  | fetch {host blk peerAddr} (chain : ChainState) :
      StepCase s (.fetch host blk peerAddr) { s with chain := chain }
  | finishFetch (chain : ChainState) : StepCase s .finishFetch { s with chain := chain }

theorem step_case (h : s.step P params event = some s') : StepCase s event s' := by
  unfold MiningNode.step at h
  cases event with
  | pause =>
      dsimp only at h
      split at h
      · rename_i hminer
        cases h
        exact StepCase.pause hminer
      · cases h
  | paused =>
      dsimp only at h
      split at h
      · rename_i hminer
        cases h
        exact StepCase.paused hminer
      · cases h
  | candidate now minerAddr mempoolTxs =>
      dsimp only at h
      split at h
      · rename_i hminer
        split at h
        · cases h
        · cases h
          refine StepCase.draw _ hminer ?_
          split
          · exact Or.inl rfl
          · exact Or.inr rfl
        · rename_i job hbuilt
          rcases buildCandidateForTip_job hbuilt with ⟨hid, hblocks⟩
          cases h
          rw [hblocks, if_neg Bool.false_ne_true]
          exact StepCase.built job hminer hid
      · cases h
  | publishId =>
      dsimp only at h
      split at h
      · rename_i job hminer
        cases h
        exact StepCase.publishId job hminer
      · cases h
  | publishJob =>
      dsimp only at h
      split at h
      · rename_i job hminer
        cases h
        exact StepCase.publishJob job hminer
      · cases h
  | checkJob =>
      dsimp only at h
      split at h
      · rename_i job nonce hminer
        cases h
        split
        · rename_i hcurrent
          exact StepCase.goOn job nonce hminer (eq_of_beq hcurrent)
        · exact StepCase.giveUp job nonce hminer
      · cases h
  | tryNonce =>
      dsimp only at h
      split at h
      · rename_i job nonce hminer
        split at h
        · cases h
          exact StepCase.solve job nonce _ hminer
        · cases h
          split
          · exact StepCase.exhaust job nonce hminer
          · exact StepCase.miss job nonce hminer
      · cases h
  | submit host =>
      dsimp only at h
      split at h
      · rename_i job blk hminer
        split at h
        · cases h
        · cases h
          exact StepCase.submit job blk _ hminer
      · cases h
  | announce host blk peerAddr =>
      dsimp only at h
      split at h
      · rename_i hannouncer
        split at h
        · cases h
        · cases h
          refine StepCase.announce _ _ hannouncer ?_
          split
          · exact AnnouncerPhase.noConfusion
          · exact AnnouncerPhase.noConfusion
      · cases h
  | clearId =>
      dsimp only at h
      split at h
      · rename_i hannouncer
        cases h
        exact StepCase.clearId hannouncer
      · cases h
  | clearJob =>
      dsimp only at h
      split at h
      · cases h
      · rename_i hannouncer hlock
        cases h
        exact StepCase.clearJob hannouncer hlock
      · cases h
  | fetch host blk peerAddr =>
      dsimp only at h
      split at h
      · cases h
        exact StepCase.fetch s.chain
      · split at h
        · cases h
        · cases h
          exact StepCase.fetch _
  | finishFetch =>
      cases h
      exact StepCase.finishFetch _

/-- What every step keeps holds at the end of a run. -/
theorem run_induction {I : MiningNode -> Prop}
    (hstep : forall {s event s'}, I s -> StepCase s event s' -> I s') (hs : I s)
    (hrun : s.run P params events = some s') : I s' := by
  induction events generalizing s with
  | nil =>
      rw [← Option.some.inj hrun]
      exact hs
  | cons event rest ih =>
      rcases Option.bind_eq_some_iff.mp hrun with ⟨next, hone, hrest⟩
      exact ih (hstep hs (step_case hone)) hrest

/-!
# The job that is shown
-/

/-- No call that writes both cells has written only one of them. -/
def Quiet (s : MiningNode) : Prop :=
  s.announcer ≠ .clearing ∧ s.miner.isHalfway = false

/-- The job in the second cell is active, unless a call is about to write that cell. -/
structure Shows (s : MiningNode) : Prop where
  shown : forall job, s.currentJob = some job ->
    s.activeJobId = job.jobId ∨ s.announcer = .clearing ∨ s.miner.isHalfway = true
  publishing : forall job, s.miner = .publishing job ->
    s.activeJobId = job.jobId ∨ s.announcer = .clearing

theorem Shows.start (g : ChainState) : Shows (MiningNode.start g) where
  shown := fun job hjob => by cases hjob
  publishing := fun job hjob => by cases hjob

theorem Shows.step (h : Shows s) (hcase : StepCase s event s') : Shows s' := by
  have hfree : forall phase : MinerPhase, s.miner.isHalfway = false ->
      (forall job, phase ≠ .publishing job) -> Shows { s with miner := phase } := by
    intro phase hhalfway hphase
    refine ⟨fun job hjob => ?_, fun job hjob => absurd hjob (hphase job)⟩
    rcases h.shown job hjob with hactive | hclearing | hwriting
    · exact Or.inl hactive
    · exact Or.inr (Or.inl hclearing)
    · rw [hhalfway] at hwriting
      cases hwriting
  cases hcase with
  | pause hminer => exact ⟨fun _ _ => Or.inr (Or.inr rfl), fun _ hjob => by cases hjob⟩
  | paused hminer => exact ⟨fun _ hjob => (by cases hjob), fun _ hjob => (by cases hjob)⟩
  | draw next hminer hnext => exact ⟨h.shown, h.publishing⟩
  | built job hminer hid =>
      have hshows := hfree (.built job) (by rw [hminer]; rfl) (fun _ hjob => by cases hjob)
      exact ⟨hshows.shown, hshows.publishing⟩
  | publishId job hminer =>
      refine ⟨fun _ _ => Or.inr (Or.inr rfl), fun other hother => ?_⟩
      cases hother
      exact Or.inl rfl
  | publishJob job hminer =>
      refine ⟨fun other hother => ?_, fun _ hjob => by cases hjob⟩
      cases hother
      exact (h.publishing job hminer).imp_right Or.inl
  | goOn job nonce hminer hcurrent =>
      exact hfree _ (by rw [hminer]; rfl) (fun _ hjob => by cases hjob)
  | giveUp job nonce hminer => exact hfree _ (by rw [hminer]; rfl) (fun _ hjob => by cases hjob)
  | solve job nonce blk hminer => exact hfree _ (by rw [hminer]; rfl) (fun _ hjob => by cases hjob)
  | exhaust job nonce hminer => exact hfree _ (by rw [hminer]; rfl) (fun _ hjob => by cases hjob)
  | miss job nonce hminer => exact hfree _ (by rw [hminer]; rfl) (fun _ hjob => by cases hjob)
  | submit job blk chain hminer =>
      have hshows := hfree .idle (by rw [hminer]; rfl) (fun _ hjob => by cases hjob)
      exact ⟨hshows.shown, hshows.publishing⟩
  | announce chain phase hannouncer hphase =>
      have hidle : s.announcer ≠ .clearing := by rw [hannouncer]; exact AnnouncerPhase.noConfusion
      constructor
      · intro job hjob
        rcases h.shown job hjob with hactive | hclearing | hwriting
        · exact Or.inl hactive
        · exact absurd hclearing hidle
        · exact Or.inr (Or.inr hwriting)
      · intro job hjob
        exact Or.inl ((h.publishing job hjob).resolve_right hidle)
  | clearId hannouncer => exact ⟨fun _ _ => Or.inr (Or.inl rfl), fun _ _ => Or.inr rfl⟩
  | clearJob hannouncer hlock =>
      exact ⟨fun _ hjob => (by cases hjob), fun job hjob => absurd hjob (hlock job)⟩
  | fetch chain => exact ⟨h.shown, h.publishing⟩
  | finishFetch chain => exact ⟨h.shown, h.publishing⟩

/-- In every run, the job that the node shows is the one that the miner loop goes on with,
unless a call has written one of the two cells and not yet the other. -/
theorem shownJob_current {g : ChainState} (hrun : (start g).run P params events = some s)
    (hquiet : s.Quiet) :
    forall job, s.currentJob = some job -> s.isCurrentJob job.jobId = true := by
  intro job hjob
  have hshows : Shows s := run_induction Shows.step (Shows.start g) hrun
  rcases hshows.shown job hjob with hactive | hclearing | hwriting
  · exact beq_iff_eq.mpr hactive
  · exact absurd hclearing hquiet.1
  · rw [hquiet.2] at hwriting
    cases hwriting

/-!
# Jobs that are left behind
-/

/-- The numbers that are in use lie below the next one, and `left` more can be drawn. -/
structure Counted (left : Nat) (s : MiningNode) : Prop where
  room : s.nextJobId.toNat + left < u64Bound
  active : s.activeJobId.toNat < s.nextJobId.toNat
  built : forall job, s.miner = .built job ->
    s.activeJobId.toNat < job.jobId.toNat ∧ job.jobId.toNat < s.nextJobId.toNat

theorem toNat_next {n : UInt64} {left : Nat} (h : n.toNat + (left + 1) < u64Bound) :
    (n + 1).toNat = n.toNat + 1 := by
  rw [UInt64.toNat_add]
  exact Nat.mod_eq_of_lt (by unfold u64Bound at h; simp; omega)

theorem Counted.start (g : ChainState) {left : Nat} (hleft : left + 1 < u64Bound) :
    Counted left (MiningNode.start g) where
  room := by
    show (1 : UInt64).toNat + left < u64Bound
    simp
    omega
  active := by
    show (0 : UInt64).toNat < (1 : UInt64).toNat
    simp
  built := fun job hjob => by cases hjob

theorem Counted.step {left : Nat} (h : Counted (left + 1) s) (hcase : StepCase s event s') :
    Counted left s' := by
  have hnext := toNat_next h.room
  have hroom : s.nextJobId.toNat + left < u64Bound := by have := h.room; omega
  have hfree : forall {phase : MinerPhase}, (forall job, phase ≠ .built job) ->
      Counted left { s with miner := phase } :=
    fun hphase => ⟨hroom, h.active, fun job hjob => absurd hjob (hphase job)⟩
  cases hcase with
  | pause hminer =>
      exact ⟨hroom, Nat.zero_lt_of_lt h.active, fun _ hjob => by cases hjob⟩
  | paused hminer => exact ⟨hroom, h.active, fun _ hjob => by cases hjob⟩
  | draw next hminer hdrawn =>
      have hbuilt : forall job, s.miner ≠ .built job := by
        intro job hjob
        rw [hminer] at hjob
        cases hjob
      rcases hdrawn with rfl | rfl
      · exact ⟨hroom, h.active, fun job hjob => absurd hjob (hbuilt job)⟩
      · refine ⟨?_, ?_, fun job hjob => absurd hjob (hbuilt job)⟩
        · have := h.room
          show (s.nextJobId + 1).toNat + left < u64Bound
          omega
        · exact Nat.lt_of_lt_of_eq (Nat.lt_succ_of_lt h.active) hnext.symm
  | built job hminer hid =>
      refine ⟨?_, ?_, ?_⟩
      · have := h.room
        show (s.nextJobId + 1).toNat + left < u64Bound
        omega
      · exact Nat.lt_of_lt_of_eq (Nat.lt_succ_of_lt h.active) hnext.symm
      · intro other hother
        cases hother
        show s.activeJobId.toNat < job.jobId.toNat ∧ job.jobId.toNat < (s.nextJobId + 1).toNat
        rw [hid, hnext]
        exact ⟨h.active, Nat.lt_succ_self _⟩
  | publishId job hminer =>
      exact ⟨hroom, (h.built job hminer).2, fun _ hjob => by cases hjob⟩
  | publishJob job hminer => exact ⟨hroom, h.active, fun _ hjob => by cases hjob⟩
  | goOn job nonce hminer hcurrent => exact hfree fun _ hjob => by cases hjob
  | giveUp job nonce hminer => exact hfree fun _ hjob => by cases hjob
  | solve job nonce blk hminer => exact hfree fun _ hjob => by cases hjob
  | exhaust job nonce hminer => exact hfree fun _ hjob => by cases hjob
  | miss job nonce hminer => exact hfree fun _ hjob => by cases hjob
  | submit job blk chain hminer =>
      exact ⟨hroom, h.active, fun _ hjob => by cases hjob⟩
  | announce chain phase hannouncer hphase => exact ⟨hroom, h.active, h.built⟩
  | clearId hannouncer =>
      exact ⟨hroom, Nat.zero_lt_of_lt h.active, fun job hjob =>
        ⟨Nat.zero_lt_of_lt (h.built job hjob).1, (h.built job hjob).2⟩⟩
  | clearJob hannouncer hlock => exact ⟨hroom, h.active, h.built⟩
  | fetch chain => exact ⟨hroom, h.active, h.built⟩
  | finishFetch chain => exact ⟨hroom, h.active, h.built⟩

/-- What every step keeps while there are numbers left holds at the end of a run. -/
theorem counted_induction {I : MiningNode -> Prop} {left : Nat}
    (hstep : forall {left s event s'}, Counted (left + 1) s -> I s -> StepCase s event s' -> I s')
    (hcounted : Counted (events.length + left) s) (hs : I s)
    (hrun : s.run P params events = some s') : Counted left s' ∧ I s' := by
  induction events generalizing s with
  | nil =>
      rw [← Option.some.inj hrun]
      rw [List.length_nil, Nat.zero_add] at hcounted
      exact ⟨hcounted, hs⟩
  | cons event rest ih =>
      rcases Option.bind_eq_some_iff.mp hrun with ⟨next, hone, hrest⟩
      rw [List.length_cons, Nat.add_right_comm] at hcounted
      have hcase := step_case hone
      exact ih (hcounted.step hcase) (hstep hcounted hs hcase) hrest

/-- The number has been drawn, and its job is not waiting to be published. -/
structure Past (jobId : UInt64) (s : MiningNode) : Prop where
  nonzero : jobId ≠ 0
  drawn : jobId.toNat < s.nextJobId.toNat
  published : forall job, s.miner = .built job -> job.jobId ≠ jobId

theorem Counted.past {left : Nat} (h : Counted left s) (hactive : s.activeJobId ≠ 0) :
    Past s.activeJobId s where
  nonzero := hactive
  drawn := h.active
  published := by
    intro job hjob heq
    have hless := (h.built job hjob).1
    rw [heq] at hless
    exact Nat.lt_irrefl _ hless

theorem Past.step {left : Nat} (h : Past jobId s) (hcounted : Counted (left + 1) s)
    (hcase : StepCase s event s') : Past jobId s' := by
  have hnext := toNat_next hcounted.room
  have hfree : forall {phase : MinerPhase}, (forall job, phase ≠ .built job) ->
      Past jobId { s with miner := phase } :=
    fun hphase => ⟨h.nonzero, h.drawn, fun job hjob => absurd hjob (hphase job)⟩
  cases hcase with
  | pause hminer => exact ⟨h.nonzero, h.drawn, fun _ hjob => by cases hjob⟩
  | paused hminer => exact ⟨h.nonzero, h.drawn, fun _ hjob => by cases hjob⟩
  | draw next hminer hdrawn =>
      rcases hdrawn with rfl | rfl
      · exact ⟨h.nonzero, h.drawn, h.published⟩
      · exact ⟨h.nonzero, Nat.lt_of_lt_of_eq (Nat.lt_succ_of_lt h.drawn) hnext.symm, h.published⟩
  | built job hminer hid =>
      refine ⟨h.nonzero, Nat.lt_of_lt_of_eq (Nat.lt_succ_of_lt h.drawn) hnext.symm, ?_⟩
      intro other hother heq
      cases hother
      have hless := h.drawn
      rw [← heq, hid] at hless
      exact Nat.lt_irrefl _ hless
  | publishId job hminer => exact ⟨h.nonzero, h.drawn, fun _ hjob => by cases hjob⟩
  | publishJob job hminer => exact ⟨h.nonzero, h.drawn, fun _ hjob => by cases hjob⟩
  | goOn job nonce hminer hcurrent => exact hfree fun _ hjob => by cases hjob
  | giveUp job nonce hminer => exact hfree fun _ hjob => by cases hjob
  | solve job nonce blk hminer => exact hfree fun _ hjob => by cases hjob
  | exhaust job nonce hminer => exact hfree fun _ hjob => by cases hjob
  | miss job nonce hminer => exact hfree fun _ hjob => by cases hjob
  | submit job blk chain hminer => exact ⟨h.nonzero, h.drawn, fun _ hjob => by cases hjob⟩
  | announce chain phase hannouncer hphase => exact ⟨h.nonzero, h.drawn, h.published⟩
  | clearId hannouncer => exact ⟨h.nonzero, h.drawn, h.published⟩
  | clearJob hannouncer hlock => exact ⟨h.nonzero, h.drawn, h.published⟩
  | fetch chain => exact ⟨h.nonzero, h.drawn, h.published⟩
  | finishFetch chain => exact ⟨h.nonzero, h.drawn, h.published⟩

/-- A published job that is not active does not become active. -/
theorem Past.stays (h : Past jobId s) (hcase : StepCase s event s')
    (hstale : s.activeJobId ≠ jobId) : s'.activeJobId ≠ jobId := by
  cases hcase with
  | pause hminer => exact h.nonzero.symm
  | publishId job hminer => exact h.published job hminer
  | clearId hannouncer => exact h.nonzero.symm
  | _ => exact hstale

/-- The next step may try a nonce of the job. -/
def isTrying (s : MiningNode) (jobId : UInt64) : Nat :=
  s.tries jobId .tryNonce

/-- A step that tries the job uses up the one try that is left. -/
theorem StepCase.tries_le (hcase : StepCase s event s') (hstale : s.activeJobId ≠ jobId) :
    s.tries jobId event + s'.isTrying jobId ≤ s.isTrying jobId := by
  have hsame : 0 + s.isTrying jobId ≤ s.isTrying jobId := Nat.le_of_eq (Nat.zero_add _)
  cases hcase with
  | pause hminer => exact Nat.zero_le _
  | paused hminer => exact Nat.zero_le _
  | draw next hminer hnext => exact hsame
  | built job hminer hid => exact Nat.zero_le _
  | publishId job hminer => exact Nat.zero_le _
  | publishJob job hminer => exact Nat.zero_le _
  | goOn job nonce hminer hcurrent =>
      have hother : job.jobId ≠ jobId := hcurrent ▸ hstale
      have hnone : ({ s with miner := .trying job nonce } : MiningNode).isTrying jobId = 0 :=
        if_neg hother
      rw [hnone]
      exact Nat.zero_le _
  | giveUp job nonce hminer => exact Nat.zero_le _
  | solve job nonce blk hminer => exact Nat.le_refl _
  | exhaust job nonce hminer => exact Nat.le_refl _
  | miss job nonce hminer => exact Nat.le_refl _
  | submit job blk chain hminer => exact Nat.zero_le _
  | announce chain phase hannouncer hphase => exact hsame
  | clearId hannouncer => exact hsame
  | clearJob hannouncer hlock => exact hsame
  | fetch chain => exact hsame
  | finishFetch chain => exact hsame

theorem isTrying_le (s : MiningNode) (jobId : UInt64) : s.isTrying jobId ≤ 1 := by
  dsimp only [isTrying, tries]
  split
  · split
    · exact Nat.le_refl _
    · exact Nat.zero_le _
  · exact Nat.zero_le _

theorem Past.run (P : Platform) (params : VisionXParams) (h : Past jobId s)
    (hcounted : Counted events.length s) (hstale : s.activeJobId ≠ jobId) :
    s.triesIn P params jobId events ≤ s.isTrying jobId ∧
      forall {s'}, s.run P params events = some s' -> s'.activeJobId ≠ jobId := by
  induction events generalizing s with
  | nil =>
      refine ⟨Nat.zero_le _, fun {s'} hrun => ?_⟩
      rw [← Option.some.inj hrun]
      exact hstale
  | cons event rest ih =>
      rw [List.length_cons] at hcounted
      unfold MiningNode.triesIn
      cases hone : s.step P params event with
      | none =>
          refine ⟨Nat.zero_le _, fun {s'} hrun => ?_⟩
          rcases Option.bind_eq_some_iff.mp hrun with ⟨next, hnext, _⟩
          rw [hone] at hnext
          cases hnext
      | some next =>
          have hcase := step_case hone
          have hrest := ih (h.step hcounted hcase) (hcounted.step hcase) (h.stays hcase hstale)
          refine ⟨Nat.le_trans (Nat.add_le_add_left hrest.1 _) (hcase.tries_le hstale), ?_⟩
          intro s' hrun
          rcases Option.bind_eq_some_iff.mp hrun with ⟨next', hnext, hlater⟩
          rw [hone] at hnext
          cases hnext
          exact hrest.2 hlater

/-- A published job that a call is about to clear, or that is no longer active. -/
structure Leaving (jobId : UInt64) (s : MiningNode) : Prop where
  past : Past jobId s
  leaving : s.announcer = .imported ∨ s.activeJobId ≠ jobId

theorem Leaving.step {left : Nat} (hcounted : Counted (left + 1) s) (h : Leaving jobId s)
    (hcase : StepCase s event s') : Leaving jobId s' := by
  refine ⟨h.past.step hcounted hcase, ?_⟩
  rcases h.leaving with himported | hstale
  · cases hcase with
    | announce chain phase hannouncer hphase =>
        rw [hannouncer] at himported
        cases himported
    | clearId hannouncer => exact Or.inr h.past.nonzero.symm
    | clearJob hannouncer hlock =>
        rw [hannouncer] at himported
        cases himported
    | _ => exact Or.inl himported
  · exact Or.inr (h.past.stays hcase hstale)

section Runs

variable {g : ChainState} {before middle after : List MiningEvent} {t : MiningNode}

theorem counted_of_run (hfew : before.length + middle.length + after.length + 1 < u64Bound)
    (hbefore : (start g).run P params before = some s) :
    Counted (middle.length + after.length) s := by
  have hcounted : Counted (before.length + (middle.length + after.length)) (start g) :=
    Counted.start g (by omega)
  exact (counted_induction (I := fun _ => True) (fun _ _ _ => trivial) hcounted trivial hbefore).1

/-- A job whose number has been active and is so no longer stays behind, whatever the miner
loop and the importers do, and at most one more of its nonces is tried. -/
theorem formerJob_abandoned
    (hfew : before.length + middle.length + after.length + 1 < u64Bound)
    (hbefore : (start g).run P params before = some s) (hactive : s.activeJobId ≠ 0)
    (hmiddle : s.run P params middle = some t) (hstale : t.activeJobId ≠ s.activeJobId) :
    t.triesIn P params s.activeJobId after ≤ 1 ∧
      forall {u}, t.run P params after = some u -> u.activeJobId ≠ s.activeJobId := by
  have hcounted := counted_of_run hfew hbefore
  rcases counted_induction (fun hcounted hpast hcase => hpast.step hcounted hcase) hcounted
    (hcounted.past hactive) hmiddle with ⟨hrest, hpast⟩
  have hlater := hpast.run P params hrest hstale
  exact ⟨Nat.le_trans hlater.1 (isTrying_le t _), hlater.2⟩

/-- Once an announced block has extended the chain and its import is over, the job that was
active at the import stays behind, and at most one more of its nonces is tried. -/
theorem announcedExtension_abandons
    (hfew : before.length + middle.length + after.length + 1 < u64Bound)
    (hbefore : (start g).run P params before = some s) (hactive : s.activeJobId ≠ 0)
    (himported : s.announcer = .imported) (hmiddle : s.run P params middle = some t)
    (hidle : t.announcer = .idle) :
    t.triesIn P params s.activeJobId after ≤ 1 ∧
      forall {u}, t.run P params after = some u -> u.activeJobId ≠ s.activeJobId := by
  have hcounted := counted_of_run hfew hbefore
  have hleaving : Leaving s.activeJobId s := ⟨hcounted.past hactive, Or.inl himported⟩
  rcases counted_induction Leaving.step hcounted hleaving hmiddle with ⟨hrest, hleft⟩
  have hstale : t.activeJobId ≠ s.activeJobId := by
    rcases hleft.leaving with hstill | hstale
    · rw [hidle] at hstill
      cases hstill
    · exact hstale
  have hlater := hleft.past.run P params hrest hstale
  exact ⟨Nat.le_trans hlater.1 (isTrying_le t _), hlater.2⟩

end Runs

/-!
# A sample run

A job is published, and while its first nonce is tried an announced block clears it.
-/

def publishedEvents : List MiningEvent :=
  [.candidate 60 sampleMiner [], .publishId, .publishJob, .checkJob,
    .announce sampleHost firstBlock "127.0.0.1:9001"]

def clearedEvents : List MiningEvent :=
  [.clearId, .clearJob]

theorem sampleMining_values :
    (((start sampleGenesis).run samplePlatform visionxParams publishedEvents).bind fun s =>
      (s.run samplePlatform visionxParams clearedEvents).map fun t =>
        ((s.activeJobId, s.announcer, s.miner.isHalfway, s.currentJob.map MiningJob.jobId),
          t.activeJobId, t.announcer)) =
      some ((1, .imported, false, some 1), 0, .idle) := by
  decide +kernel

theorem sampleMining_reached :
    exists s t, (start sampleGenesis).run samplePlatform visionxParams publishedEvents = some s ∧
      s.run samplePlatform visionxParams clearedEvents = some t ∧ s.activeJobId = 1 ∧
      s.announcer = .imported ∧ s.Quiet ∧ s.currentJob.map MiningJob.jobId = some 1 ∧
      t.activeJobId = 0 ∧ t.announcer = .idle := by
  rcases Option.bind_eq_some_iff.mp sampleMining_values with ⟨s, hs, hrest⟩
  rcases Option.map_eq_some_iff.mp hrest with ⟨t, ht, hvalues⟩
  simp only [Prod.mk.injEq] at hvalues
  rcases hvalues with ⟨⟨hactive, himported, hfree, hshown⟩, hcleared, hidle⟩
  refine ⟨s, t, hs, ht, hactive, himported, ⟨?_, hfree⟩, hshown, hcleared, hidle⟩
  rw [himported]
  exact AnnouncerPhase.noConfusion

theorem shownJob_current_sample :
    exists s job, (start sampleGenesis).run samplePlatform visionxParams publishedEvents = some s ∧
      s.currentJob = some job ∧ s.isCurrentJob job.jobId = true := by
  rcases sampleMining_reached with ⟨s, t, hs, _, _, _, hquiet, hshown, _⟩
  rcases Option.map_eq_some_iff.mp hshown with ⟨job, hjob, _⟩
  exact ⟨s, job, hs, hjob, shownJob_current hs hquiet job hjob⟩

/-- The nonce is tried although the job has been cleared. -/
theorem formerJob_abandoned_sample :
    exists s t, (start sampleGenesis).run samplePlatform visionxParams publishedEvents = some s ∧
      s.run samplePlatform visionxParams clearedEvents = some t ∧
      t.triesIn samplePlatform visionxParams s.activeJobId [.tryNonce, .checkJob] ≤ 1 := by
  rcases sampleMining_reached with ⟨s, t, hs, ht, hactive, _, _, _, hcleared, _⟩
  have hnonzero : s.activeJobId ≠ 0 := by rw [hactive]; decide
  have hstale : t.activeJobId ≠ s.activeJobId := by rw [hcleared, hactive]; decide
  exact ⟨s, t, hs, ht,
    (formerJob_abandoned (by decide) hs hnonzero ht hstale).1⟩

theorem announcedExtension_abandons_sample :
    exists s t, (start sampleGenesis).run samplePlatform visionxParams publishedEvents = some s ∧
      s.run samplePlatform visionxParams clearedEvents = some t ∧
      t.triesIn samplePlatform visionxParams s.activeJobId [.tryNonce, .checkJob] ≤ 1 := by
  rcases sampleMining_reached with ⟨s, t, hs, ht, hactive, himported, _, _, _, hidle⟩
  have hnonzero : s.activeJobId ≠ 0 := by rw [hactive]; decide
  exact ⟨s, t, hs, ht, (announcedExtension_abandons (by decide) hs
    hnonzero himported ht hidle).1⟩

end MiningNode

end VisionCore
