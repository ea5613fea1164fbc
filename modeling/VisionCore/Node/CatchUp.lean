import VisionCore.Chain.Convergence
import VisionCore.Chain.Totality
import VisionCore.Node.Reconstruct
import VisionCore.Node.Restart
import VisionCore.P2p.Download

/-!
# Catching up with an honest peer

A peer that sends its own chain, block by block from the tip downwards, brings the node to
its own work at least, whatever it says in between and whatever the other importers do.
-/

namespace VisionCore

open Std
open Foundation

/-!
# The importers in between
-/

section Importers

variable {P : Platform} {D : Block -> Prop} {A B : Call -> Prop} {I J : ChainState -> Prop}
  {g : ChainState} {blk : Block} {steps : List ImporterStep}

theorem ImportInvariant.and (hI : ImportInvariant P A I) (hJ : ImportInvariant P A J) :
    ImportInvariant P A fun g => I g ∧ J g where
  apply := fun hg hcall hrun => ⟨hI.apply hg.1 hcall hrun, hJ.apply hg.2 hcall hrun⟩
  refresh := fun hg => ⟨hI.refresh hg.1, hJ.refresh hg.2⟩
  take := fun hg => ⟨hI.take hg.1, hJ.take hg.2⟩

theorem ImportInvariant.mono (hI : ImportInvariant P A I) (hsub : forall call, B call -> A call) :
    ImportInvariant P B I where
  apply := fun hg hcall hrun => hI.apply hg (hsub _ hcall) hrun
  refresh := hI.refresh
  take := hI.take

/-- A settled chain on which a block is found. -/
def Keeping (P : Platform) (D : Block -> Prop) (hash : String) (g : ChainState) : Prop :=
  Settled P D g ∧ Found g hash

theorem Settled.keeping_genesis (h : Settled P D g) : Keeping P D genesisHash g :=
  ⟨h, found_iff_resolve.mpr ⟨_, h.represents.chain.lookup h.represents.chain.root_mem⟩⟩

theorem importInvariant_keeping (hnumbered : NumberedFrom P D) (hash : String) :
    ImportInvariant P (Durably D) (Keeping P D hash) where
  apply := by
    intro g call out hg hcall hrun
    have hsettled := (importInvariant_settled hnumbered).apply hg.1 hcall hrun
    have hfound := (importInvariant_found hnumbered [hash]).apply
      ⟨hg.1.represents, by simpa using hg.2⟩ hcall.1 hrun
    exact ⟨hsettled, hfound.2 hash List.mem_cons_self⟩
  refresh := fun hg => ⟨(importInvariant_settled hnumbered).refresh hg.1, hg.2⟩
  take := fun hg => ⟨(importInvariant_settled hnumbered).take hg.1, hg.2⟩

theorem Settled.applyBlock_total (h : Settled P D g) (host : Host) (sourcePeer : Option String)
    (hnumbered : NumberedFrom P D) (hrewards : RewardsDefined P D) (hD : D blk) :
    exists out, VisionCore.applyBlock P host g blk sourcePeer = .ok out :=
  VisionCore.applyBlock_total h.represents h.exact.bounded hnumbered hrewards hD

/-- The importers always get through their steps. -/
theorem Settled.importAll_total (h : Settled P D g) (hnumbered : NumberedFrom P D)
    (hrewards : RewardsDefined P D) (hcalls : Calls (Durably D) steps) :
    exists g', importAll P g steps = .ok g' := by
  induction steps generalizing g with
  | nil => exact ⟨g, rfl⟩
  | cons step rest ih =>
      have hone : exists g', step.run P g = .ok g' := by
        cases step with
        | apply call =>
            have hcall := hcalls call List.mem_cons_self
            rcases h.applyBlock_total call.host call.sourcePeer hnumbered hrewards hcall.1 with
              ⟨out, hout⟩
            exact ⟨out.chain, bind_eq_ok.mpr ⟨out, hout, rfl⟩⟩
        | refreshStateRoot => exact ⟨_, rfl⟩
        | takeRecovery => exact ⟨_, rfl⟩
      rcases hone with ⟨g', hstep⟩
      have hsingle : importAll P g [step] = .ok g' := bind_eq_ok.mpr ⟨g', hstep, rfl⟩
      have hsettled := (importInvariant_settled hnumbered).importAll
        (fun call hcall => hcalls call (by
          rw [List.mem_singleton] at hcall
          rw [← hcall]
          exact List.mem_cons_self)) h hsingle
      rcases ih hsettled (fun call hcall => hcalls call (List.mem_cons_of_mem _ hcall)) with
        ⟨g'', hrest⟩
      exact ⟨g'', bind_eq_ok.mpr ⟨g', hstep, hrest⟩⟩

end Importers

/-!
# The chain of the peer
-/

section Peer

variable {P : Platform} {D : Block -> Prop} {T : UInt64} {g remote : ChainState}
  {blk parent : Block} {rest : List Block} {host : Host} {sourcePeer : Option String}
  {out : Applied}

theorem Represents.genesis_found (hg : Represents P D g) :
    resolveBlock g genesisHash = some genesisBlock :=
  hg.chain.lookup hg.chain.root_mem

/-- Two nodes that find a hash find the same block under it. -/
theorem Represents.same_block (hg : Represents P D g) (hremote : Represents P D remote)
    (hinjective : forall b b', D b -> D b' -> b.hash = b'.hash -> b = b') {hash : String}
    {b b' : Block} (hb : resolveBlock g hash = some b) (hb' : resolveBlock remote hash = some b') :
    b = b' := by
  have hname := hg.rooted.named hb
  have hname' := hremote.rooted.named hb'
  by_cases hgenesis : hash = genesisHash
  · rw [hgenesis, hg.genesis_found] at hb
    rw [hgenesis, hremote.genesis_found] at hb'
    rw [← Option.some.inj hb, ← Option.some.inj hb']
  · rcases hg.candidate hb with rfl | ⟨hD, _⟩
    · exact absurd hname.symm hgenesis
    · rcases hremote.candidate hb' with rfl | ⟨hD', _⟩
      · exact absurd hname'.symm hgenesis
      · exact hinjective b b' hD hD' (hname.trans hname'.symm)

/-- A block of the peer's chain that is found is found with the whole path below it. -/
theorem Represents.path_shared (hg : Represents P D g) (hremote : Represents P D remote)
    (hinjective : forall b b', D b -> D b' -> b.hash = b'.hash -> b = b')
    (hl : KnownPath remote (blk :: rest)) (hfound : Found g blk.hash) :
    KnownPath g (blk :: rest) := by
  induction rest generalizing blk with
  | nil =>
      cases hl with
      | root _ => exact Path.root hg.genesis_found
  | cons parent rest ih =>
      rcases found_iff_resolve.mp hfound with ⟨known, hknown⟩
      have heq : known = blk :=
        hg.same_block hremote hinjective hknown (hl.lookup List.mem_cons_self)
      rw [heq] at hknown
      rcases hg.rooted.path hknown with ⟨below, hpath⟩
      cases hl with
      | step htail hlookup hparent hname =>
          cases hpath with
          | root _ => exact absurd rfl hname
          | step htail' hlookup' hparent' hname' =>
              rename_i other tail
              have hsame : other.hash = parent.hash := hparent'.symm.trans hparent
              have hother : Found g parent.hash :=
                found_iff_resolve.mpr ⟨other, hsame ▸ htail'.lookup List.mem_cons_self⟩
              exact Path.step (ih htail hother) hknown hparent hname

/-- A block that the peer has accepted is accepted on a known parent, by a clock that is not
behind the peer's. -/
theorem Settled.accepts (h : Settled P D g) (hremote : Represents P D remote)
    (hsound : Sound P (fun now => now ≤ T) remote)
    (hpath : KnownPath remote (blk :: parent :: rest)) (hparent : KnownPath g (parent :: rest))
    (hunknown : ¬Found g blk.hash) (hclock : T ≤ host.now)
    (hwrites : forall i, host.writeOk i = true) (hnumbered : NumberedFrom P D)
    (hrun : VisionCore.applyBlock P host g blk sourcePeer = .ok out) :
    (forall hash, out.result ≠ .storedOrphan hash) ∧
      forall reason, out.result ≠ .rejected reason := by
  have hlinks := hremote.linked hpath
  have hname : blk.header.parentHash = parent.hash := Path.parent_eq (s := []) hpath
  have harrives : Arrives g blk parent rest := by
    refine ⟨hparent, hname, hlinks.1, ?_⟩
    cases hlookup : resolveBlock g blk.hash with
    | none => rfl
    | some known => exact absurd (found_iff_resolve.mpr ⟨known, hlookup⟩) hunknown
  rcases hremote.candidate (hpath.lookup List.mem_cons_self) with rfl | ⟨hD, hsealed⟩
  · exact absurd rfl (hremote.number_ne hpath)
  rcases hsound.vouched hpath with ⟨before, after, hbelow, now, hnow, hverdict⟩
  constructor
  · intro hash hresult
    rcases applyBlock_first hrun with ⟨step, hstep, hout, _⟩
    have heffect := h.represents.effect hnumbered hD (acceptBlock_transition hstep)
    rw [hresult] at hout
    cases heffect with
    | orphaned _ hunparented _ => exact hunparented (harrives.parentKnown h.represents)
    | rejected _ => cases hout
    | extended _ _ _ _ _ => cases hout
    | recorded _ _ _ _ => cases hout
    | moved _ _ => cases hout
  · intro reason hresult
    have hrejects : Rejects P host g blk sourcePeer := ⟨out, reason, hrun, hresult⟩
    have hlater := lineVerdict_later (UInt64.le_trans hnow hclock) (host.clock_lt _) hverdict
    rcases (harrives.rejects_iff h.represents h.exact.bounded h.replays hbelow hwrites).mp
      hrejects with ⟨reason', hstructure⟩ | ⟨reason', hinvalid⟩
    · rw [hsealed.structure_ok] at hstructure
      cases hstructure
    · rw [hlater] at hinvalid
      cases hinvalid

end Peer

/-!
# A peer that follows the rules
-/

/-- The chain of a node whose clock has not passed `T`. -/
structure Honest (P : Platform) (D : Block -> Prop) (T : UInt64) (g : ChainState) : Prop where
  represents : Represents P D g
  exact : ExactWork g
  sound : Sound P (fun now => now ≤ T) g

section Honesty

variable {P : Platform} {D : Block -> Prop} {T : UInt64} {g : ChainState}

/-- A summary names the tip and its recorded work. -/
theorem Represents.fromChain (hg : Represents P D g) :
    (ChainSummary.fromChain g).tipHash = some g.tipHash ∧
      (ChainSummary.fromChain g).cumulativeWork = g.workOf g.tipHash := by
  have hblocks : g.blocks.isEmpty = false := by
    cases hcases : g.blocks with
    | nil => exact absurd (by rw [hcases]; rfl) hg.chain.ne_nil
    | cons blk rest => rfl
  unfold ChainSummary.fromChain
  rw [hblocks]
  exact ⟨rfl, rfl⟩

/-- A chain on which the peer's tip is found has the peer's work. -/
theorem Settled.workOf_peer {remote : ChainState} (h : Settled P D g)
    (hremote : Honest P D T remote)
    (hinjective : forall b b', D b -> D b' -> b.hash = b'.hash -> b = b')
    (hfound : Found g remote.tipHash) :
    remote.workOf remote.tipHash ≤ g.workOf g.tipHash := by
  rcases hremote.represents.tip_path with ⟨tip, below, hblocks, htip⟩
  have hpath : KnownPath remote (tip :: below) := hblocks ▸ hremote.represents.chain
  have hshared := h.represents.path_shared hremote.represents hinjective hpath (htip.symm ▸ hfound)
  rw [← htip, hremote.exact.workOf hpath, ← h.exact.workOf hshared]
  exact h.workOf_le (hshared.lookup List.mem_cons_self)

end Honesty

/-!
# What the peer sends
-/

/-- The blocks in the order of the requests.  In between the peer may announce, ask for the
height and ping; what follows the last block is not read. -/
inductive Answers : List Block -> List (Except ReadError P2PMessage) -> Prop where
  | done (replies : List (Except ReadError P2PMessage)) : Answers [] replies
  | block (blk : Block) {blocks : List Block} {replies : List (Except ReadError P2PMessage)} :
      Answers blocks replies -> Answers (blk :: blocks) (.ok (.block blk) :: replies)
  | announce (announcement : AnnounceBlock) {blocks : List Block}
      {replies : List (Except ReadError P2PMessage)} :
      Answers blocks replies -> Answers blocks (.ok (.announceBlock announcement) :: replies)
  | getHeight {blocks : List Block} {replies : List (Except ReadError P2PMessage)} :
      Answers blocks replies -> Answers blocks (.ok .getHeight :: replies)
  | ping (timestamp : UInt64) {blocks : List Block}
      {replies : List (Except ReadError P2PMessage)} :
      Answers blocks replies -> Answers blocks (.ok (.ping timestamp) :: replies)

namespace SyncEnv

open Program

/-- The connection is up, the writes of the node succeed and its clock is not behind `T`. -/
structure Awake (env : SyncEnv) (D : Block -> Prop) (T : UInt64) : Prop where
  connects : env.connects = true
  sendOk : forall n, env.sendOk n = true
  others : forall n, Calls (Durably D) (env.others n)
  writes : forall n i, (env.host n).writeOk i = true
  clock : forall n i, T ≤ (env.host n).clock i

section Steps

variable {env : SyncEnv} {D : Block -> Prop} {T : UInt64} {s : SyncState} {hash : String}
  {blk : Block} {blocks : List Block}

theorem Awake.lockChain (h : env.Awake D T) (hnumbered : NumberedFrom env.platform D)
    (hrewards : RewardsDefined env.platform D) (hpre : Keeping env.platform D hash s.chain) :
    exists g, Returns env.lockChain s g { s with turn := s.turn + 1, chain := g } ∧
      Keeping env.platform D hash g := by
  rcases hpre.1.importAll_total hnumbered hrewards (h.others s.turn) with ⟨g, himport⟩
  exact ⟨g, returns_lockChain.mpr ⟨himport, rfl⟩,
    (importInvariant_keeping hnumbered hash).importAll (h.others s.turn) hpre himport⟩

theorem Awake.sendMessage (h : env.Awake D T) (s : SyncState) (message : P2PMessage) :
    Returns (env.sendMessage message) s ⟨⟩
      { s with turn := s.turn + 1, sent := s.sent ++ [message] } :=
  returns_sendMessage.mpr ⟨h.sendOk s.turn, rfl⟩

theorem Awake.sendSummary (h : env.Awake D T) (hnumbered : NumberedFrom env.platform D)
    (hrewards : RewardsDefined env.platform D) (hpre : Keeping env.platform D hash s.chain) :
    exists s', Returns env.sendSummary s ⟨⟩ s' ∧ s'.replies = s.replies ∧
      Keeping env.platform D hash s'.chain := by
  rcases h.lockChain hnumbered hrewards hpre with ⟨g, hlock, hkeep⟩
  refine ⟨_, returns_bind.mpr ⟨g, _, hlock, h.sendMessage _ _⟩, rfl, hkeep⟩

/-- The next block arrives, whatever comes before it. -/
theorem Awake.awaitBlock (h : env.Awake D T) (hnumbered : NumberedFrom env.platform D)
    (hrewards : RewardsDefined env.platform D) (hpre : Keeping env.platform D hash s.chain)
    (hanswers : Answers (blk :: blocks) s.replies) {left : Nat} (hleft : s.replies.length < left) :
    exists s', Returns (env.awaitBlock left) s blk s' ∧ Answers blocks s'.replies ∧
      s'.replies.length < s.replies.length ∧ Keeping env.platform D hash s'.chain := by
  generalize hreplies : s.replies = replies at hanswers hleft
  generalize hblocks : blk :: blocks = awaited at hanswers
  induction hanswers generalizing s left with
  | done replies => cases hblocks
  | block b hrest ih =>
      cases hblocks
      cases left with
      | zero => exact absurd hleft (Nat.not_lt_zero _)
      | succ left =>
          refine ⟨_, returns_bind.mpr ⟨_, _, returns_recvMessage.mpr ⟨_, hreplies, rfl⟩,
            returns_pure.mpr ⟨rfl, rfl⟩⟩, hrest, ?_, hpre⟩
          exact Nat.lt_succ_self _
  | announce announcement hrest ih =>
      cases left with
      | zero => exact absurd hleft (Nat.not_lt_zero _)
      | succ left =>
          rename_i blocks' replies'
          rcases ih (s := { s with replies := replies' }) hpre rfl
            (Nat.lt_of_succ_lt_succ hleft) hblocks with ⟨s', hrun, hanswers, hless, hkeep⟩
          exact ⟨s', returns_bind.mpr ⟨_, _, returns_recvMessage.mpr ⟨_, hreplies, rfl⟩, hrun⟩,
            hanswers, Nat.lt_succ_of_lt hless, hkeep⟩
  | getHeight hrest ih =>
      cases left with
      | zero => exact absurd hleft (Nat.not_lt_zero _)
      | succ left =>
          rename_i blocks' replies'
          rcases h.sendSummary (s := { s with replies := replies' }) hnumbered hrewards hpre with
            ⟨t, hsend, hsame, hkeep⟩
          rcases ih (s := t) hkeep hsame (Nat.lt_of_succ_lt_succ hleft) hblocks with
            ⟨s', hrun, hanswers, hless, hkeep'⟩
          exact ⟨s', returns_bind.mpr ⟨_, _, returns_recvMessage.mpr ⟨_, hreplies, rfl⟩,
            returns_bind.mpr ⟨_, _, hsend, hrun⟩⟩, hanswers, Nat.lt_succ_of_lt hless, hkeep'⟩
  | ping timestamp hrest ih =>
      cases left with
      | zero => exact absurd hleft (Nat.not_lt_zero _)
      | succ left =>
          rename_i blocks' replies'
          rcases ih (s := { s with
              replies := replies'
              turn := s.turn + 1
              sent := s.sent ++ [.pong timestamp] }) hpre rfl
            (Nat.lt_of_succ_lt_succ hleft) hblocks with ⟨s', hrun, hanswers, hless, hkeep⟩
          exact ⟨s', returns_bind.mpr ⟨_, _, returns_recvMessage.mpr ⟨_, hreplies, rfl⟩,
            returns_bind.mpr ⟨_, _, h.sendMessage _ _, hrun⟩⟩, hanswers,
            Nat.lt_succ_of_lt hless, hkeep⟩

theorem Awake.requestBlock (h : env.Awake D T) (hnumbered : NumberedFrom env.platform D)
    (hrewards : RewardsDefined env.platform D) (hpre : Keeping env.platform D hash s.chain)
    (hanswers : Answers (blk :: blocks) s.replies) :
    exists s', Returns (env.requestBlock blk.hash) s blk s' ∧ Answers blocks s'.replies ∧
      s'.replies.length < s.replies.length ∧ Keeping env.platform D hash s'.chain := by
  rcases h.awaitBlock
    (s := { s with turn := s.turn + 1, sent := s.sent ++ [.getBlock blk.hash] })
    hnumbered hrewards hpre hanswers (Nat.lt_succ_self _) with ⟨s', hawait, hrest, hless, hkeep⟩
  refine ⟨s', ?_, hrest, hless, hkeep⟩
  refine returns_bind.mpr ⟨_, _, h.sendMessage _ _, returns_bind.mpr ⟨_, _,
    returns_get.mpr ⟨rfl, rfl⟩, returns_bind.mpr ⟨_, _, hawait, ?_⟩⟩⟩
  rw [if_neg (not_not.mpr rfl)]
  exact returns_pure.mpr ⟨rfl, rfl⟩

end Steps

/-!
# Download and import
-/

section Loops

variable {env : SyncEnv} {D : Block -> Prop} {T : UInt64} {remote : ChainState} {s : SyncState}
  {blk bottom : Block} {rest kept : List Block}

/-- The download goes down the peer's chain to the first block that is found. -/
theorem Awake.downloadLoop (h : env.Awake D T) (hnumbered : NumberedFrom env.platform D)
    (hrewards : RewardsDefined env.platform D) (hremote : Represents env.platform D remote)
    (hpath : KnownPath remote (blk :: rest)) (hanswers : Answers (blk :: rest) s.replies)
    {left : Nat} (hleft : s.replies.length < left) {seen : ExtTreeSet String}
    (hfresh : forall b, b ∈ blk :: rest -> b.hash ∉ seen) (fetched : List Block)
    (hpre : Settled env.platform D s.chain) :
    exists taken bottom kept s', blk :: rest = taken ++ bottom :: kept ∧
      Returns (env.downloadLoop left blk.hash fetched seen) s (fetched ++ taken) s' ∧
      Keeping env.platform D bottom.hash s'.chain := by
  induction rest generalizing blk s left seen fetched with
  | nil =>
      cases left with
      | zero => exact absurd hleft (Nat.not_lt_zero _)
      | succ left =>
          rcases h.lockChain hnumbered hrewards hpre.keeping_genesis with ⟨g, hlock, hkeep⟩
          have hname : blk.hash = genesisHash := by
            cases hpath with
            | root _ => rfl
          refine ⟨[], blk, [], { s with turn := s.turn + 1, chain := g }, rfl,
            returns_bind.mpr ⟨g, _, hlock, ?_⟩, hname ▸ hkeep⟩
          have hfound : (g.blockByHash blk.hash).isSome := hname ▸ hkeep.2
          rw [if_pos hfound, List.append_nil]
          exact returns_pure.mpr ⟨rfl, rfl⟩
  | cons parent rest ih =>
      cases left with
      | zero => exact absurd hleft (Nat.not_lt_zero _)
      | succ left =>
          rcases h.lockChain hnumbered hrewards hpre.keeping_genesis with ⟨g, hlock, hkeep⟩
          by_cases hfound : (g.blockByHash blk.hash).isSome
          · refine ⟨[], blk, parent :: rest, { s with turn := s.turn + 1, chain := g }, rfl,
              returns_bind.mpr ⟨g, _, hlock, ?_⟩, hkeep.1, hfound⟩
            rw [if_pos hfound, List.append_nil]
            exact returns_pure.mpr ⟨rfl, rfl⟩
          rcases h.requestBlock (s := { s with turn := s.turn + 1, chain := g }) hnumbered hrewards
            hkeep hanswers with ⟨t, hrequest, hrest, hless, hkeep'⟩
          have hname : blk.header.parentHash = parent.hash := Path.parent_eq (s := []) hpath
          have hfresh' : forall b, b ∈ parent :: rest -> b.hash ∉ seen.insert blk.hash := by
            intro b hb hmem
            rcases ExtTreeSet.mem_insert.mp hmem with heq | hold
            · exact hpath.mem_tail_name_ne hb (LawfulEqCmp.eq_of_compare heq).symm
            · exact hfresh b (List.mem_cons_of_mem _ hb) hold
          have hleft' : t.replies.length < left :=
            Nat.lt_of_lt_of_le hless (Nat.le_of_lt_succ hleft)
          rcases ih hpath.tail hrest hleft' hfresh' (fetched ++ [blk]) hkeep'.1 with
            ⟨taken, bottom, kept, s', hsplit, hloop, hbottom⟩
          refine ⟨blk :: taken, bottom, kept, s', by rw [hsplit]; rfl, ?_, hbottom⟩
          refine returns_bind.mpr ⟨g, _, hlock, ?_⟩
          rw [if_neg hfound, if_neg (hfresh blk List.mem_cons_self)]
          refine returns_bind.mpr ⟨blk, t, hrequest, ?_⟩
          dsimp only
          rw [if_neg (hremote.number_ne hpath), hname]
          rw [List.append_assoc] at hloop
          exact hloop

theorem Awake.requeueRecovery (h : env.Awake D T) (hnumbered : NumberedFrom env.platform D)
    (hrewards : RewardsDefined env.platform D) {hash : String}
    (hpre : Keeping env.platform D hash s.chain) :
    exists s', Returns env.requeueRecovery s ⟨⟩ s' ∧ Keeping env.platform D hash s'.chain := by
  rcases h.lockChain hnumbered hrewards hpre with ⟨g, hlock, hkeep⟩
  refine ⟨_, returns_bind.mpr ⟨g, _, hlock, returns_modify.mpr rfl⟩, ?_⟩
  exact (importInvariant_keeping hnumbered hash).take
    ((importInvariant_keeping hnumbered hash).refresh hkeep)

/-- A block of the peer's chain is imported on its parent. -/
theorem Awake.importFetchedBlock (h : env.Awake D T) (hnumbered : NumberedFrom env.platform D)
    (hrewards : RewardsDefined env.platform D)
    (hinjective : forall b b', D b -> D b' -> b.hash = b'.hash -> b = b')
    (hremote : Represents env.platform D remote)
    (hsound : Sound env.platform (fun now => now ≤ T) remote)
    (hpath : KnownPath remote (blk :: bottom :: kept))
    (hpre : Keeping env.platform D bottom.hash s.chain) :
    exists n s', Returns (env.importFetchedBlock blk) s n s' ∧
      Keeping env.platform D blk.hash s'.chain := by
  rcases h.lockChain hnumbered hrewards hpre with ⟨g, hlock, hkeep⟩
  by_cases hfound : (g.blockByHash blk.hash).isSome
  · refine ⟨0, { s with turn := s.turn + 1, chain := g },
      returns_bind.mpr ⟨g, _, hlock, ?_⟩, hkeep.1, hfound⟩
    rw [if_pos hfound]
    exact returns_pure.mpr ⟨rfl, rfl⟩
  rcases hremote.candidate (hpath.lookup List.mem_cons_self) with rfl | ⟨hD, _⟩
  · exact absurd rfl (hremote.number_ne hpath)
  rcases hkeep.1.applyBlock_total (env.host (s.turn + 1)) (some env.peerAddr) hnumbered hrewards
    hD with ⟨out, hout⟩
  have hparent := hkeep.1.represents.path_shared hremote hinjective hpath.tail hkeep.2
  have hdone := hkeep.1.accepts hremote hsound hpath hparent hfound (h.clock _ _)
    (h.writes _) hnumbered hout
  have hput : Keeping env.platform D blk.hash out.chain :=
    ⟨(hkeep.1.applyBlock hnumbered hD (h.writes _) hout).1,
      applyBlock_found hnumbered hkeep.1.represents hD hout hdone.1 hdone.2⟩
  rcases h.requeueRecovery (s := { s with turn := s.turn + 2, chain := out.chain }) hnumbered
    hrewards hput with ⟨t, hrequeue, hkeep'⟩
  cases hresult : out.result with
  | canonExtension height =>
      refine ⟨1, t, returns_bind.mpr ⟨g, _, hlock, ?_⟩, hkeep'⟩
      rw [if_neg hfound]
      refine returns_bind.mpr ⟨_, _, returns_nextTurn.mpr ⟨rfl, rfl⟩, returns_bind.mpr ⟨out, _,
        returns_call.mpr ⟨hout, rfl⟩, returns_bind.mpr ⟨⟨⟩, _, returns_putChain.mpr rfl, ?_⟩⟩⟩
      rw [hresult]
      exact returns_bind.mpr ⟨⟨⟩, t, hrequeue, returns_pure.mpr ⟨rfl, rfl⟩⟩
  | sideChain height =>
      refine ⟨1, { s with turn := s.turn + 2, chain := out.chain },
        returns_bind.mpr ⟨g, _, hlock, ?_⟩, hput⟩
      rw [if_neg hfound]
      refine returns_bind.mpr ⟨_, _, returns_nextTurn.mpr ⟨rfl, rfl⟩, returns_bind.mpr ⟨out, _,
        returns_call.mpr ⟨hout, rfl⟩, returns_bind.mpr ⟨⟨⟩, _, returns_putChain.mpr rfl, ?_⟩⟩⟩
      rw [hresult]
      exact returns_pure.mpr ⟨rfl, rfl⟩
  | storedOrphan hash => exact absurd hresult (hdone.1 hash)
  | rejected reason => exact absurd hresult (hdone.2 reason)

theorem Awake.importFetchedBlocks (h : env.Awake D T) (hnumbered : NumberedFrom env.platform D)
    (hrewards : RewardsDefined env.platform D)
    (hinjective : forall b b', D b -> D b' -> b.hash = b'.hash -> b = b')
    (hremote : Represents env.platform D remote)
    (hsound : Sound env.platform (fun now => now ≤ T) remote) (fetched : List Block)
    (hpath : KnownPath remote (fetched.reverse ++ bottom :: kept))
    (hpre : Keeping env.platform D bottom.hash s.chain) :
    exists n s' top below, Returns (env.importFetchedBlocks fetched) s n s' ∧
      fetched.reverse ++ bottom :: kept = top :: below ∧
      Keeping env.platform D top.hash s'.chain := by
  induction fetched generalizing bottom kept s with
  | nil => exact ⟨0, s, bottom, kept, returns_pure.mpr ⟨rfl, rfl⟩, rfl, hpre⟩
  | cons blk fetched ih =>
      rw [List.reverse_cons, List.append_assoc] at hpath
      rcases h.importFetchedBlock hnumbered hrewards hinjective hremote hsound hpath.suffix hpre
        with ⟨n, t, hone, hkeep⟩
      rcases ih hpath hkeep with ⟨m, s', top, below, hrest, hsplit, htop⟩
      refine ⟨n + m, s', top, below, ?_,
        by rw [← hsplit, List.reverse_cons, List.append_assoc]; rfl, htop⟩
      exact returns_bind.mpr ⟨n, t, hone, returns_bind.mpr ⟨m, s', hrest,
        returns_pure.mpr ⟨rfl, rfl⟩⟩⟩

end Loops

/-!
# The catch-up
-/

section Whole

variable {env : SyncEnv} {D : Block -> Prop} {T : UInt64} {remote : ChainState} {s : SyncState}
  {handshake : HandshakeMessage} {replies : List (Except ReadError P2PMessage)}

theorem Awake.exchangeHandshakes (h : env.Awake D T) (hnumbered : NumberedFrom env.platform D)
    (hrewards : RewardsDefined env.platform D) (hpre : Settled env.platform D s.chain)
    (hreplies : s.replies = .ok (.handshake handshake) :: replies)
    (haccepted : validateHandshake env.platform handshake env.manager.localNodeNonce = .accepted) :
    exists s', Returns env.exchangeHandshakes s handshake s' ∧ s'.replies = replies ∧
      Settled env.platform D s'.chain := by
  rcases h.lockChain hnumbered hrewards hpre.keeping_genesis with ⟨g, hlock, hkeep⟩
  refine ⟨{ s with
      chain := g
      replies := replies
      sent := s.sent ++
        [.handshake (env.manager.localHandshake env.platform s.peers g.currentHeight)]
      turn := s.turn + 3
      peers := s.peers.notePeerHeight env.peerAddr handshake.chainHeight (env.now (s.turn + 2)) },
    ?_, rfl, hkeep.1⟩
  refine returns_bind.mpr ⟨g, _, hlock, returns_bind.mpr ⟨_, _, returns_get.mpr ⟨rfl, rfl⟩,
    returns_bind.mpr ⟨_, _, h.sendMessage _ _, returns_bind.mpr ⟨_, _,
      returns_recvMessage.mpr ⟨replies, hreplies, rfl⟩, ?_⟩⟩⟩⟩
  dsimp only
  rw [haccepted]
  exact returns_bind.mpr ⟨_, _, returns_nextTurn.mpr ⟨rfl, rfl⟩, returns_bind.mpr ⟨⟨⟩, _,
    returns_modify.mpr rfl, returns_pure.mpr ⟨rfl, rfl⟩⟩⟩

theorem Awake.queryHeight (h : env.Awake D T) {summary : ChainSummary}
    (hreplies : s.replies = .ok (.height summary) :: replies) :
    exists s', Returns env.queryHeight s summary s' ∧ s'.replies = replies ∧
      s'.chain = s.chain :=
  ⟨_, returns_bind.mpr ⟨⟨⟩, _, h.sendMessage _ _, returns_bind.mpr ⟨summary, _,
    returns_bind.mpr ⟨_, _, returns_recvMessage.mpr ⟨replies, hreplies, rfl⟩,
      returns_pure.mpr ⟨rfl, rfl⟩⟩,
    returns_bind.mpr ⟨_, _, returns_nextTurn.mpr ⟨rfl, rfl⟩, returns_bind.mpr ⟨⟨⟩, _,
      returns_modify.mpr rfl, returns_pure.mpr ⟨rfl, rfl⟩⟩⟩⟩⟩, rfl, rfl⟩

/-- The branch of an honest peer is downloaded, unless the peer is not ahead. -/
theorem Awake.fetchBranch (h : env.Awake D T) (hnumbered : NumberedFrom env.platform D)
    (hrewards : RewardsDefined env.platform D)
    (hinjective : forall b b', D b -> D b' -> b.hash = b'.hash -> b = b')
    (hremote : Honest env.platform D T remote) (hpre : Settled env.platform D s.chain)
    (hreplies : s.replies =
      .ok (.handshake handshake) :: .ok (.height (ChainSummary.fromChain remote)) :: replies)
    (haccepted : validateHandshake env.platform handshake env.manager.localNodeNonce = .accepted)
    (hanswers : Answers remote.blocks.reverse replies) :
    (exists s', Returns env.fetchBranch s none s' ∧ Settled env.platform D s'.chain ∧
      remote.workOf remote.tipHash ≤ s'.chain.workOf s'.chain.tipHash) ∨
    exists taken bottom kept s', remote.blocks.reverse = taken ++ bottom :: kept ∧
      Returns env.fetchBranch s (some (ChainSummary.fromChain remote, taken.reverse)) s' ∧
      Keeping env.platform D bottom.hash s'.chain := by
  rcases h.exchangeHandshakes hnumbered hrewards hpre hreplies haccepted with
    ⟨t, hgreet, hreplies', ht⟩
  rcases h.queryHeight hreplies' with ⟨u, hquery, hreplies'', hsame⟩
  rw [← hsame] at ht
  rcases h.lockChain hnumbered hrewards ht.keeping_genesis with ⟨g, hlock, hkeep⟩
  have hconnects : ¬env.connects = false := by rw [h.connects]; exact Bool.noConfusion
  have hsummary := hremote.represents.fromChain
  have hours := hkeep.1.represents.fromChain
  by_cases hahead : ¬(ChainSummary.fromChain remote).height > (ChainSummary.fromChain g).height ∧
      ¬((ChainSummary.fromChain remote).cumulativeWork >
          (ChainSummary.fromChain g).cumulativeWork ∧
        (ChainSummary.fromChain remote).tipHash ≠ (ChainSummary.fromChain g).tipHash)
  · refine Or.inl ⟨{ u with turn := u.turn + 1, chain := g }, ?_, hkeep.1, ?_⟩
    · unfold SyncEnv.fetchBranch
      rw [if_neg hconnects]
      refine returns_bind.mpr ⟨_, t, hgreet, returns_bind.mpr ⟨_, u, hquery,
        returns_bind.mpr ⟨g, _, hlock, ?_⟩⟩⟩
      dsimp only
      rw [if_pos hahead]
      exact returns_pure.mpr ⟨rfl, rfl⟩
    · rw [hsummary.1, hsummary.2, hours.1, hours.2] at hahead
      by_cases hwork : remote.workOf remote.tipHash ≤ g.workOf g.tipHash
      · exact hwork
      · have htip : remote.tipHash = g.tipHash := by
          by_contra hne
          exact hahead.2 ⟨Nat.lt_of_not_le hwork, fun heq => hne (Option.some.inj heq)⟩
        rcases hkeep.1.represents.tip_path with ⟨tip, below, hblocks, hname⟩
        have hpath : KnownPath g (tip :: below) := hblocks ▸ hkeep.1.represents.chain
        have hfound : Found g remote.tipHash :=
          found_iff_resolve.mpr ⟨tip, by rw [htip, ← hname]; exact hpath.lookup List.mem_cons_self⟩
        exact hkeep.1.workOf_peer hremote hinjective hfound
  · right
    rcases hremote.represents.tip_path with ⟨tip, below, hblocks, hname⟩
    have hpath : KnownPath remote (tip :: below) := hblocks ▸ hremote.represents.chain
    rw [hblocks] at hanswers
    rcases h.downloadLoop (s := { u with turn := u.turn + 1, chain := g }) hnumbered hrewards
      hremote.represents hpath (hreplies''.symm ▸ hanswers) (Nat.lt_succ_self _)
      (fun _ _ hmem => ExtTreeSet.not_mem_empty hmem) [] hkeep.1 with
      ⟨taken, bottom, kept, s', hsplit, hloop, hbottom⟩
    refine ⟨taken, bottom, kept, s', hblocks.trans hsplit, ?_, hbottom⟩
    unfold SyncEnv.fetchBranch
    rw [if_neg hconnects]
    refine returns_bind.mpr ⟨_, t, hgreet, returns_bind.mpr ⟨_, u, hquery,
      returns_bind.mpr ⟨g, _, hlock, ?_⟩⟩⟩
    dsimp only
    rw [if_neg hahead, hsummary.1]
    rw [hname] at hloop
    exact returns_bind.mpr ⟨taken.reverse, s', returns_bind.mpr ⟨_, _, returns_get.mpr ⟨rfl, rfl⟩,
      returns_bind.mpr ⟨taken, s', hloop, returns_pure.mpr ⟨rfl, rfl⟩⟩⟩,
      returns_pure.mpr ⟨rfl, rfl⟩⟩

end Whole

/-!
# A sample peer
-/

end SyncEnv

end VisionCore
