import VisionCore.Node.Session
import VisionCore.P2p.LiveSync

/-!
# What a catch-up downloads

The loop follows parent hashes downwards from the peer's tip, so what it has
fetched is a descent.
-/

namespace VisionCore
namespace SyncEnv

open Std
open Foundation
open Program

variable {env : SyncEnv} {s s' : SyncState} {g : ChainState} {message : P2PMessage} {blk : Block}
  {hash tipHash currentHash : String} {fetched blocks : List Block} {seen : ExtTreeSet String}
  {n : Nat} {summary : ChainSummary} {u : PUnit}

/-!
# The steps of the connection
-/

theorem returns_nextTurn :
    Returns nextTurn s n s' ↔ n = s.turn ∧ s' = { s with turn := s.turn + 1 } := by
  unfold nextTurn
  simp only [returns_bind, returns_get, returns_modify, returns_pure]
  constructor
  · rintro ⟨_, _, ⟨rfl, rfl⟩, _, _, rfl, rfl, rfl⟩
    exact ⟨rfl, rfl⟩
  · rintro ⟨rfl, rfl⟩
    exact ⟨_, _, ⟨rfl, rfl⟩, ⟨⟩, _, rfl, rfl, rfl⟩

theorem returns_putChain : Returns (putChain g) s u s' ↔ s' = { s with chain := g } :=
  returns_modify

theorem returns_lockChain :
    Returns env.lockChain s g s' ↔
      importAll env.platform s.chain (env.others s.turn) = .ok g ∧
        s' = { s with turn := s.turn + 1, chain := g } := by
  unfold lockChain
  simp only [returns_bind, returns_nextTurn, returns_get, returns_call, returns_putChain,
    returns_pure]
  constructor
  · rintro ⟨_, _, ⟨rfl, rfl⟩, _, _, ⟨rfl, rfl⟩, _, _, ⟨himport, rfl⟩, _, _, rfl, rfl, rfl⟩
    exact ⟨himport, rfl⟩
  · rintro ⟨himport, rfl⟩
    exact ⟨_, _, ⟨rfl, rfl⟩, _, _, ⟨rfl, rfl⟩, _, _, ⟨himport, rfl⟩, ⟨⟩, _, rfl, rfl, rfl⟩

theorem returns_sendMessage :
    Returns (env.sendMessage message) s u s' ↔ env.sendOk s.turn = true ∧
      s' = { s with turn := s.turn + 1, sent := s.sent ++ [message] } := by
  unfold sendMessage
  simp only [returns_bind, returns_nextTurn]
  cases hsend : env.sendOk s.turn with
  | false =>
      constructor
      · rintro ⟨_, _, ⟨rfl, rfl⟩, hrest⟩
        rw [if_neg (by simp [hsend])] at hrest
        exact absurd hrest not_returns_throw
      · rintro ⟨hok, _⟩
        cases hok
  | true =>
      constructor
      · rintro ⟨_, _, ⟨rfl, rfl⟩, hrest⟩
        rw [if_pos hsend] at hrest
        exact ⟨rfl, returns_modify.mp hrest⟩
      · rintro ⟨_, rfl⟩
        refine ⟨_, _, ⟨rfl, rfl⟩, ?_⟩
        rw [if_pos hsend]
        exact returns_modify.mpr rfl

theorem returns_recvMessage :
    Returns recvMessage s message s' ↔
      exists rest, s.replies = .ok message :: rest ∧ s' = { s with replies := rest } := by
  unfold recvMessage
  rw [returns_bind]
  constructor
  · rintro ⟨t, u, hget, hrest⟩
    rcases returns_get.mp hget with ⟨ht, hu⟩
    rw [ht, hu] at hrest
    cases hreplies : s.replies with
    | nil =>
        rw [hreplies] at hrest
        exact absurd hrest not_returns_throw
    | cons reply rest =>
        rw [hreplies] at hrest
        cases reply with
        | error e =>
            rcases returns_bind.mp hrest with ⟨_, _, _, hthrow⟩
            exact absurd hthrow not_returns_throw
        | ok m =>
            rcases returns_bind.mp hrest with ⟨_, _, hmodify, hpure⟩
            rcases returns_pure.mp hpure with ⟨rfl, rfl⟩
            exact ⟨rest, rfl, returns_modify.mp hmodify⟩
  · rintro ⟨rest, hreplies, rfl⟩
    refine ⟨_, _, returns_get.mpr ⟨rfl, rfl⟩, ?_⟩
    rw [hreplies]
    exact returns_bind.mpr ⟨⟨⟩, _, returns_modify.mpr rfl, returns_pure.mpr ⟨rfl, rfl⟩⟩

/-!
# What the connection keeps
-/

/-- A fact about the state that no step of the connection touches and that the other
importers keep. -/
structure Stable (env : SyncEnv) (I : SyncState -> Prop) : Prop where
  turn : forall {s}, I s -> I { s with turn := s.turn + 1 }
  sent : forall {s} (sent : List P2PMessage), I s -> I { s with sent := sent }
  peers : forall {s} (peers : PeerManager), I s -> I { s with peers := peers }
  read : forall {s reply rest}, I s -> s.replies = reply :: rest -> I { s with replies := rest }
  others : forall {s n g}, I s ->
    importAll env.platform s.chain (env.others n) = .ok g -> I { s with chain := g }

namespace Stable

variable {I : SyncState -> Prop}

theorem nextTurn (hI : env.Stable I) : Keeps I SyncEnv.nextTurn := by
  intro s n s' hs h
  rw [(returns_nextTurn.mp h).2]
  exact hI.turn hs

theorem lockChain (hI : env.Stable I) : Keeps I env.lockChain := by
  intro s g s' hs h
  rcases returns_lockChain.mp h with ⟨himport, rfl⟩
  exact hI.turn (s := { s with chain := g }) (hI.others hs himport)

theorem sendMessage (hI : env.Stable I) (message : P2PMessage) :
    Keeps I (env.sendMessage message) := by
  intro s u s' hs h
  rcases returns_sendMessage.mp h with ⟨_, rfl⟩
  exact hI.turn (s := { s with sent := s.sent ++ [message] }) (hI.sent _ hs)

theorem recvMessage (hI : env.Stable I) : Keeps I SyncEnv.recvMessage := by
  intro s message s' hs h
  rcases returns_recvMessage.mp h with ⟨rest, hreplies, rfl⟩
  exact hI.read hs hreplies

theorem sendSummary (hI : env.Stable I) : Keeps I env.sendSummary :=
  hI.lockChain.bind fun _ => hI.sendMessage _

theorem exchangeHandshakes (hI : env.Stable I) : Keeps I env.exchangeHandshakes := by
  refine hI.lockChain.bind fun g => Keeps.get.bind fun s => (hI.sendMessage _).bind fun _ =>
    hI.recvMessage.bind fun message => ?_
  cases message with
  | handshake remote =>
      dsimp only
      cases validateHandshake env.platform remote env.manager.localNodeNonce with
      | accepted =>
          exact hI.nextTurn.bind fun _ => (Keeps.modify fun s hs => hI.peers _ hs).bind fun _ =>
            Keeps.pure _
      | _ => exact Keeps.throw _
  | _ => exact Keeps.throw _

theorem awaitHeight (hI : env.Stable I) (left : Nat) : Keeps I (env.awaitHeight left) := by
  induction left with
  | zero => exact Keeps.throw _
  | succ left ih =>
      refine hI.recvMessage.bind fun message => ?_
      cases message with
      | height summary => exact Keeps.pure _
      | getHeight => exact hI.sendSummary.bind fun _ => ih
      | ping timestamp => exact (hI.sendMessage _).bind fun _ => ih
      | _ => exact Keeps.throw _

theorem queryHeight (hI : env.Stable I) : Keeps I env.queryHeight :=
  (hI.sendMessage _).bind fun _ => (hI.awaitHeight 8).bind fun _ => hI.nextTurn.bind fun _ =>
    (Keeps.modify fun _ hs => hI.peers _ hs).bind fun _ => Keeps.pure _

theorem awaitBlock (hI : env.Stable I) (left : Nat) : Keeps I (env.awaitBlock left) := by
  induction left with
  | zero => exact Keeps.throw _
  | succ left ih =>
      refine hI.recvMessage.bind fun message => ?_
      cases message with
      | block blk => exact Keeps.pure _
      | announceBlock announcement => exact ih
      | getHeight => exact hI.sendSummary.bind fun _ => ih
      | ping timestamp => exact (hI.sendMessage _).bind fun _ => ih
      | _ => exact Keeps.throw _

theorem requestBlock (hI : env.Stable I) (hash : String) : Keeps I (env.requestBlock hash) := by
  refine (hI.sendMessage _).bind fun _ => Keeps.get.bind fun s => (hI.awaitBlock _).bind
    fun blk => ?_
  by_cases hname : blk.hash ≠ hash
  · rw [if_pos hname]
    exact Keeps.throw _
  · rw [if_neg hname]
    exact Keeps.pure _

theorem downloadLoop (hI : env.Stable I) (left : Nat) (currentHash : String)
    (fetched : List Block) (seen : ExtTreeSet String) :
    Keeps I (env.downloadLoop left currentHash fetched seen) := by
  induction left generalizing currentHash fetched seen with
  | zero => exact Keeps.throw _
  | succ left ih =>
      refine hI.lockChain.bind fun g => ?_
      by_cases hfound : (g.blockByHash currentHash).isSome
      · rw [if_pos hfound]
        exact Keeps.pure _
      · rw [if_neg hfound]
        by_cases hseen : currentHash ∈ seen
        · rw [if_pos hseen]
          exact Keeps.throw _
        · rw [if_neg hseen]
          refine (hI.requestBlock currentHash).bind fun blk => ?_
          by_cases hzero : blk.header.number = 0
          · rw [if_pos hzero]
            exact Keeps.pure _
          · rw [if_neg hzero]
            exact ih _ _ _

theorem fetchBranch (hI : env.Stable I) : Keeps I env.fetchBranch := by
  unfold SyncEnv.fetchBranch
  by_cases hconnects : env.connects = false
  · rw [if_pos hconnects]
    exact Keeps.throw _
  rw [if_neg hconnects]
  refine hI.exchangeHandshakes.bind fun _ => hI.queryHeight.bind fun remote =>
    hI.lockChain.bind fun g => ?_
  dsimp only
  split
  · exact Keeps.pure _
  · cases remote.tipHash with
    | none => exact Keeps.throw _
    | some tipHash =>
        exact (Keeps.get.bind fun s => (hI.downloadLoop _ _ _ _).bind fun _ =>
          Keeps.pure _).bind fun _ => Keeps.pure _

end Stable

/-!
# Enough turns
-/

theorem stable_length (env : SyncEnv) (k : Nat) : env.Stable fun s => s.replies.length ≤ k where
  turn := fun h => h
  sent := fun _ h => h
  peers := fun _ h => h
  read := by
    intro s reply rest h hreplies
    rw [hreplies] at h
    exact Nat.le_of_succ_le h
  others := fun h _ => h

theorem recvMessage_length (h : Returns recvMessage s message s') :
    s'.replies.length + 1 = s.replies.length := by
  rcases returns_recvMessage.mp h with ⟨rest, hreplies, rfl⟩
  rw [hreplies]
  rfl

theorem awaitBlock_length {left : Nat} (h : Returns (env.awaitBlock left) s blk s') :
    s'.replies.length < s.replies.length := by
  cases left with
  | zero => exact absurd h not_returns_throw
  | succ left =>
      unfold awaitBlock at h
      rcases returns_bind.mp h with ⟨message, t, hrecv, hrest⟩
      have hread := recvMessage_length hrecv
      refine Nat.lt_of_le_of_lt ?_ (Nat.lt_of_succ_le (Nat.le_of_eq hread))
      have hkept := (stable_length env t.replies.length).awaitBlock left
      cases message with
      | block b =>
          rcases returns_pure.mp hrest with ⟨_, rfl⟩
          exact Nat.le_refl _
      | announceBlock announcement => exact hkept (Nat.le_refl _) hrest
      | getHeight =>
          rcases returns_bind.mp hrest with ⟨_, t', hsend, hrest⟩
          exact hkept ((stable_length env _).sendSummary (Nat.le_refl _) hsend) hrest
      | ping timestamp =>
          rcases returns_bind.mp hrest with ⟨_, t', hsend, hrest⟩
          exact hkept ((stable_length env _).sendMessage _ (Nat.le_refl _) hsend) hrest
      | _ => exact absurd hrest not_returns_throw

/-- Every bound above the number of messages gives the same result. -/
theorem awaitBlock_congr {left left' : Nat} (hleft : s.replies.length < left)
    (hleft' : s.replies.length < left') :
    (env.awaitBlock left).run s = (env.awaitBlock left').run s := by
  induction left generalizing left' s with
  | zero => cases hleft
  | succ left ih =>
      cases left' with
      | zero => cases hleft'
      | succ left' =>
          unfold awaitBlock
          apply run_bind_congr
          intro message t hrecv
          have hread := recvMessage_length hrecv
          have hlater : forall {u : SyncState}, u.replies.length ≤ t.replies.length ->
              (env.awaitBlock left).run u = (env.awaitBlock left').run u :=
            fun hle => ih (by omega) (by omega)
          cases message with
          | announceBlock announcement => exact hlater (Nat.le_refl _)
          | getHeight =>
              exact run_bind_congr fun _ u hsend =>
                hlater ((stable_length env _).sendSummary (Nat.le_refl _) hsend)
          | ping timestamp =>
              exact run_bind_congr fun _ u hsend =>
                hlater ((stable_length env _).sendMessage _ (Nat.le_refl _) hsend)
          | _ => rfl

theorem requestBlock_length (h : Returns (env.requestBlock hash) s blk s') :
    s'.replies.length < s.replies.length := by
  unfold requestBlock at h
  rcases returns_bind.mp h with ⟨_, t, hsend, hrest⟩
  rcases returns_bind.mp hrest with ⟨t', u, hget, hrest⟩
  rcases returns_bind.mp hrest with ⟨b, v, hawait, hrest⟩
  rw [(returns_get.mp hget).2] at hawait
  have hsent := (stable_length env _).sendMessage (.getBlock hash) (Nat.le_refl _) hsend
  refine Nat.lt_of_lt_of_le ?_ hsent
  have hread := awaitBlock_length hawait
  by_cases hname : b.hash ≠ hash
  · rw [if_pos hname] at hrest
    exact absurd hrest not_returns_throw
  · rw [if_neg hname] at hrest
    rw [(returns_pure.mp hrest).2]
    exact hread

/-- Every bound above the number of messages gives the same download. -/
theorem downloadLoop_congr {left left' : Nat} (hleft : s.replies.length < left)
    (hleft' : s.replies.length < left') :
    (env.downloadLoop left currentHash fetched seen).run s =
      (env.downloadLoop left' currentHash fetched seen).run s := by
  induction left generalizing left' currentHash fetched seen s with
  | zero => cases hleft
  | succ left ih =>
      cases left' with
      | zero => cases hleft'
      | succ left' =>
          unfold downloadLoop
          apply run_bind_congr
          intro g t hlock
          have hlocked := (stable_length env _).lockChain (Nat.le_refl _) hlock
          by_cases hfound : (g.blockByHash currentHash).isSome
          · rw [if_pos hfound, if_pos hfound]
          · rw [if_neg hfound, if_neg hfound]
            by_cases hseen : currentHash ∈ seen
            · rw [if_pos hseen, if_pos hseen]
            · rw [if_neg hseen, if_neg hseen]
              apply run_bind_congr
              intro blk u hrequest
              have hread := requestBlock_length hrequest
              by_cases hzero : blk.header.number = 0
              · rw [if_pos hzero, if_pos hzero]
              · rw [if_neg hzero, if_neg hzero]
                exact ih (by omega) (by omega)

/-!
# The descent
-/

/-- The blocks lead from the hash `tipHash` down, each the parent of the one before,
and `currentHash` is the next one below. -/
def Descends : String -> List Block -> String -> Prop
  | tipHash, [], currentHash => currentHash = tipHash
  | tipHash, blk :: rest, currentHash =>
      blk.hash = tipHash ∧ Descends blk.header.parentHash rest currentHash

theorem Descends.snoc (h : Descends tipHash fetched currentHash) (hname : blk.hash = currentHash) :
    Descends tipHash (fetched ++ [blk]) blk.header.parentHash := by
  induction fetched generalizing tipHash with
  | nil => exact ⟨hname.trans h, rfl⟩
  | cons b rest ih => exact ⟨h.1, ih h.2⟩

theorem Descends.head (h : Descends tipHash fetched currentHash) {b : Block}
    (hhead : fetched.head? = some b) : b.hash = tipHash := by
  cases fetched with
  | nil => cases hhead
  | cons b' rest =>
      cases hhead
      exact h.1

theorem Descends.last (h : Descends tipHash fetched currentHash) {b : Block}
    (hlast : fetched.getLast? = some b) : currentHash = b.header.parentHash := by
  induction fetched generalizing tipHash with
  | nil => cases hlast
  | cons b' rest ih =>
      cases rest with
      | nil =>
          cases hlast
          exact h.2
      | cons b'' rest =>
          rw [List.getLast?_cons_cons] at hlast
          exact ih h.2 hlast

theorem Descends.isChain (h : Descends tipHash fetched currentHash) :
    fetched.IsChain fun child parent => child.header.parentHash = parent.hash := by
  induction fetched generalizing tipHash with
  | nil => exact List.isChain_nil
  | cons b rest ih =>
      cases rest with
      | nil => exact List.isChain_singleton b
      | cons b' rest => exact List.isChain_cons_cons.mpr ⟨h.2.1.symm, ih h.2⟩

/-- A list of blocks that hangs together, from a child of a known block, or a block
numbered 0, up to the tip. -/
structure RootedBranch (g : ChainState) (tipHash : String) (branch : List Block) : Prop where
  nodup : (branch.map Block.hash).Nodup
  tip : forall blk, branch.getLast? = some blk -> blk.hash = tipHash
  linked : branch.IsChain fun parent child => child.header.parentHash = parent.hash
  root : forall blk, branch.head? = some blk ->
    Found g blk.header.parentHash ∨ blk.header.number = 0

/-- What holds between two turns of the download loop. -/
structure Fetching (tipHash : String) (fetched : List Block) (seen : ExtTreeSet String)
    (currentHash : String) : Prop where
  descends : Descends tipHash fetched currentHash
  seen : forall blk, blk ∈ fetched -> blk.hash ∈ seen
  nodup : (fetched.map Block.hash).Nodup

theorem Fetching.start (tipHash : String) : Fetching tipHash [] ∅ tipHash where
  descends := rfl
  seen := fun _ hmem => by cases hmem
  nodup := List.nodup_nil

theorem Fetching.fetch (h : Fetching tipHash fetched seen currentHash)
    (hnew : currentHash ∉ seen) (hname : blk.hash = currentHash) :
    Fetching tipHash (fetched ++ [blk]) (seen.insert currentHash) blk.header.parentHash where
  descends := h.descends.snoc hname
  seen := by
    intro b hmem
    rw [mem_insert_set_iff]
    rcases List.mem_append.mp hmem with hold | hlast
    · exact Or.inr (h.seen b hold)
    · rw [List.mem_singleton.mp hlast]
      exact Or.inl hname.symm
  nodup := by
    rw [List.map_append, List.nodup_append]
    refine ⟨h.nodup, List.nodup_singleton _, ?_⟩
    intro x hx y hy hxy
    rcases List.mem_map.mp hx with ⟨b, hb, rfl⟩
    apply hnew
    rw [← hname, ← List.mem_singleton.mp hy, ← hxy]
    exact h.seen b hb

/-- A descent that has reached a known block, or a block numbered 0, is a branch. -/
theorem Fetching.rooted (h : Fetching tipHash fetched seen currentHash)
    (hroot : Found g currentHash ∨
      exists blk, fetched.getLast? = some blk ∧ blk.header.number = 0) :
    RootedBranch g tipHash fetched.reverse where
  nodup := by
    rw [List.map_reverse, List.nodup_reverse]
    exact h.nodup
  tip := by
    intro blk hlast
    rw [List.getLast?_reverse] at hlast
    exact h.descends.head hlast
  linked := List.isChain_reverse.mpr h.descends.isChain
  root := by
    intro blk hhead
    rw [List.head?_reverse] at hhead
    rcases hroot with hfound | ⟨last, hlast, hzero⟩
    · rw [h.descends.last hhead] at hfound
      exact Or.inl hfound
    · rw [hhead] at hlast
      cases hlast
      exact Or.inr hzero

/-!
# The loops
-/

theorem requestBlock_hash (h : Returns (env.requestBlock hash) s blk s') : blk.hash = hash := by
  unfold requestBlock at h
  simp only [returns_bind] at h
  rcases h with ⟨_, _, _, _, _, _, b, _, _, hrest⟩
  by_cases hname : b.hash ≠ hash
  · rw [if_pos hname] at hrest
    exact absurd hrest not_returns_throw
  · rw [if_neg hname] at hrest
    rw [(returns_pure.mp hrest).1]
    exact not_not.mp hname

theorem downloadLoop_fetching {left : Nat} (hpre : Fetching tipHash fetched seen currentHash)
    (h : Returns (env.downloadLoop left currentHash fetched seen) s blocks s') :
    RootedBranch s'.chain tipHash blocks.reverse := by
  induction left generalizing currentHash fetched seen s with
  | zero => exact absurd h not_returns_throw
  | succ left ih =>
      unfold downloadLoop at h
      rcases returns_bind.mp h with ⟨g, t, hlock, hrest⟩
      rcases returns_lockChain.mp hlock with ⟨_, rfl⟩
      by_cases hfound : (g.blockByHash currentHash).isSome
      · rw [if_pos hfound] at hrest
        rcases returns_pure.mp hrest with ⟨rfl, rfl⟩
        exact hpre.rooted (Or.inl hfound)
      · rw [if_neg hfound] at hrest
        by_cases hseen : currentHash ∈ seen
        · rw [if_pos hseen] at hrest
          exact absurd hrest not_returns_throw
        · rw [if_neg hseen] at hrest
          rcases returns_bind.mp hrest with ⟨blk, t', hrequest, hrest⟩
          have hnext := hpre.fetch hseen (requestBlock_hash hrequest)
          by_cases hzero : blk.header.number = 0
          · rw [if_pos hzero] at hrest
            rcases returns_pure.mp hrest with ⟨rfl, rfl⟩
            exact hnext.rooted (Or.inr ⟨blk, List.getLast?_concat, hzero⟩)
          · rw [if_neg hzero] at hrest
            exact ih hnext hrest

theorem downloadBranch_rooted (h : Returns (env.downloadBranch tipHash) s blocks s') :
    RootedBranch s'.chain tipHash blocks := by
  unfold downloadBranch at h
  rcases returns_bind.mp h with ⟨_, _, _, hrest⟩
  rcases returns_bind.mp hrest with ⟨fetched, t, hloop, hpure⟩
  rcases returns_pure.mp hpure with ⟨rfl, rfl⟩
  exact downloadLoop_fetching (Fetching.start tipHash) hloop

/-!
# The peer's answer
-/

theorem stable_replies (env : SyncEnv) (replies : List (Except ReadError P2PMessage)) :
    env.Stable fun s => s.replies ⊆ replies where
  turn := fun h => h
  sent := fun _ h => h
  peers := fun _ h => h
  read := by
    intro s reply rest h hreplies
    rw [hreplies] at h
    exact fun _ hmem => h (List.mem_cons_of_mem _ hmem)
  others := fun h _ => h

theorem awaitHeight_reply {left : Nat} (h : Returns (env.awaitHeight left) s summary s') :
    .ok (.height summary) ∈ s.replies := by
  induction left generalizing s with
  | zero => exact absurd h not_returns_throw
  | succ left ih =>
      unfold awaitHeight at h
      rcases returns_bind.mp h with ⟨message, t, hrecv, hrest⟩
      have hsub : t.replies ⊆ s.replies :=
        (stable_replies env s.replies).recvMessage (fun _ hmem => hmem) hrecv
      cases message with
      | height received =>
          rcases returns_recvMessage.mp hrecv with ⟨rest, hreplies, _⟩
          rcases returns_pure.mp hrest with ⟨rfl, _⟩
          rw [hreplies]
          exact List.mem_cons_self
      | getHeight =>
          rcases returns_bind.mp hrest with ⟨_, t', hsend, hrest⟩
          exact (stable_replies env s.replies).sendSummary hsub hsend (ih hrest)
      | ping timestamp =>
          rcases returns_bind.mp hrest with ⟨_, t', hsend, hrest⟩
          exact (stable_replies env s.replies).sendMessage _ hsub hsend (ih hrest)
      | _ => exact absurd hrest not_returns_throw

theorem queryHeight_reply (h : Returns env.queryHeight s summary s') :
    .ok (.height summary) ∈ s.replies := by
  unfold queryHeight at h
  rcases returns_bind.mp h with ⟨_, t, hsend, hrest⟩
  rcases returns_bind.mp hrest with ⟨received, t', hawait, hrest⟩
  rcases returns_bind.mp hrest with ⟨_, _, _, hrest⟩
  rcases returns_bind.mp hrest with ⟨_, _, _, hpure⟩
  rcases returns_pure.mp hpure with ⟨rfl, _⟩
  exact (stable_replies env s.replies).sendMessage _ (fun _ hmem => hmem) hsend
    (awaitHeight_reply hawait)

theorem fetchBranch_rooted (h : Returns env.fetchBranch s (some (summary, fetched)) s') :
    exists tipHash, .ok (.height summary) ∈ s.replies ∧ summary.tipHash = some tipHash ∧
      RootedBranch s'.chain tipHash fetched := by
  unfold fetchBranch at h
  by_cases hconnects : env.connects = false
  · rw [if_pos hconnects] at h
    exact absurd h not_returns_throw
  rw [if_neg hconnects] at h
  rcases returns_bind.mp h with ⟨_, t, hshake, hrest⟩
  rcases returns_bind.mp hrest with ⟨remote, t', hquery, hrest⟩
  rcases returns_bind.mp hrest with ⟨g, t'', _, hrest⟩
  have hreply : .ok (.height remote) ∈ s.replies :=
    (stable_replies env s.replies).exchangeHandshakes (fun _ hmem => hmem) hshake
      (queryHeight_reply hquery)
  dsimp only at hrest
  split at hrest
  · cases (returns_pure.mp hrest).1
  · cases htip : remote.tipHash with
    | none =>
        rw [htip] at hrest
        exact absurd hrest not_returns_throw
    | some tipHash =>
        rw [htip] at hrest
        rcases returns_bind.mp hrest with ⟨blocks, _, hdownload, hpure⟩
        rcases returns_pure.mp hpure with ⟨heq, rfl⟩
        cases heq
        exact ⟨tipHash, hreply, htip, downloadBranch_rooted hdownload⟩

/-!
# The import
-/

/-- What the other importers do to the chain between two locks. -/
def Between (env : SyncEnv) (g g' : ChainState) : Prop :=
  exists steps, (forall call, ImporterStep.apply call ∈ steps ->
      exists n, ImporterStep.apply call ∈ env.others n) ∧
    importAll env.platform g steps = .ok g'

theorem between_others {g' : ChainState} (h : importAll env.platform g (env.others n) = .ok g') :
    env.Between g g' :=
  ⟨env.others n, fun _ hmem => ⟨n, hmem⟩, h⟩

theorem between_refl : env.Between g g :=
  ⟨[], fun _ hmem => (by cases hmem), rfl⟩

theorem between_recovered {g' : ChainState}
    (h : importAll env.platform g (env.others n) = .ok g') :
    env.Between g { g'.refreshCachedStateRootFromTip with pendingReorgRecovery := none } := by
  refine ⟨env.others n ++ [.refreshStateRoot, .takeRecovery], ?_, ?_⟩
  · intro call hmem
    rcases List.mem_append.mp hmem with hothers | hown
    · exact ⟨n, hothers⟩
    · simp at hown
  · unfold importAll at h ⊢
    rw [List.foldlM_append, h]
    rfl

theorem Between.keeps {A : Call -> Prop} {I : ChainState -> Prop} {g' : ChainState}
    (h : env.Between g g') (hI : ImportInvariant env.platform A I)
    (hothers : forall n, Calls A (env.others n)) (hg : I g) : I g' := by
  rcases h with ⟨steps, hsteps, hrun⟩
  refine hI.importAll (fun call hmem => ?_) hg hrun
  rcases hsteps call hmem with ⟨n, hn⟩
  exact hothers n call hn

def ownCall (env : SyncEnv) (n : Nat) (blk : Block) : Call :=
  { host := env.host n, blk := blk, sourcePeer := some env.peerAddr }

/-- A fetched block is found already, or its own call puts it somewhere. -/
theorem importFetchedBlock_cases (h : Returns (env.importFetchedBlock blk) s n s') :
    exists g, env.Between s.chain g ∧ ((Found g blk.hash ∧ s'.chain = g) ∨
      exists turn out, applyBlock env.platform (env.host turn) g blk (some env.peerAddr) = .ok out ∧
        (forall hash, out.result ≠ .storedOrphan hash) ∧
        (forall reason, out.result ≠ .rejected reason) ∧ env.Between out.chain s'.chain) := by
  unfold importFetchedBlock at h
  rcases returns_bind.mp h with ⟨g, t, hlock, hrest⟩
  rcases returns_lockChain.mp hlock with ⟨himport, rfl⟩
  refine ⟨g, between_others himport, ?_⟩
  by_cases hfound : (g.blockByHash blk.hash).isSome
  · rw [if_pos hfound] at hrest
    rcases returns_pure.mp hrest with ⟨_, rfl⟩
    exact Or.inl ⟨hfound, rfl⟩
  rw [if_neg hfound] at hrest
  rcases returns_bind.mp hrest with ⟨turn, t, _, happly⟩
  rcases returns_bind.mp happly with ⟨out, t', hcall, hput⟩
  rcases returns_bind.mp hput with ⟨_, t'', hchain, hrest⟩
  have hout := (returns_call.mp hcall).1
  replace hchain := congrArg SyncState.chain (returns_putChain.mp hchain)
  refine Or.inr ⟨turn, out, hout, ?_⟩
  cases hresult : out.result with
  | canonExtension height =>
      rw [hresult] at hrest
      refine ⟨fun _ heq => (by cases heq), fun _ heq => (by cases heq), ?_⟩
      rcases returns_bind.mp hrest with ⟨_, u, hrequeue, hpure⟩
      rcases returns_pure.mp hpure with ⟨_, rfl⟩
      unfold requeueRecovery at hrequeue
      rcases returns_bind.mp hrequeue with ⟨g', v, hlock', hmodify⟩
      rcases returns_lockChain.mp hlock' with ⟨himport', rfl⟩
      rw [hchain] at himport'
      rw [returns_modify.mp hmodify]
      exact between_recovered himport'
  | sideChain height =>
      rw [hresult] at hrest
      refine ⟨fun _ heq => (by cases heq), fun _ heq => (by cases heq), ?_⟩
      rcases returns_pure.mp hrest with ⟨_, rfl⟩
      rw [hchain]
      exact between_refl
  | storedOrphan hash =>
      rw [hresult] at hrest
      exact absurd hrest not_returns_throw
  | rejected reason =>
      rw [hresult] at hrest
      exact absurd hrest not_returns_throw

section Invariants

variable {A : Call -> Prop} {D : Block -> Prop} {I : ChainState -> Prop} {imported : Nat}

theorem importFetchedBlock_keeps (hI : ImportInvariant env.platform A I)
    (hothers : forall n, Calls A (env.others n)) (hown : forall n, A (env.ownCall n blk))
    (hpre : I s.chain) (h : Returns (env.importFetchedBlock blk) s imported s') : I s'.chain := by
  rcases importFetchedBlock_cases h with ⟨g, hbetween, ⟨_, hchain⟩ | ⟨turn, out, hout, _, _, hafter⟩⟩
  · rw [hchain]
    exact hbetween.keeps hI hothers hpre
  · have hg := hbetween.keeps hI hothers hpre
    exact hafter.keeps hI hothers (hI.apply hg (hown turn) hout)

theorem importFetchedBlocks_keeps (hI : ImportInvariant env.platform A I)
    (hothers : forall n, Calls A (env.others n))
    (hown : forall n blk, blk ∈ fetched -> A (env.ownCall n blk)) (hpre : I s.chain)
    (h : Returns (env.importFetchedBlocks fetched) s imported s') : I s'.chain := by
  induction fetched generalizing s imported with
  | nil =>
      rw [(returns_pure.mp h).2]
      exact hpre
  | cons blk rest ih =>
      unfold importFetchedBlocks at h
      rcases returns_bind.mp h with ⟨_, t, hone, hrest⟩
      rcases returns_bind.mp hrest with ⟨_, u, hothersRun, hpure⟩
      rcases returns_pure.mp hpure with ⟨_, rfl⟩
      exact ih (fun n b hb => hown n b (List.mem_cons_of_mem _ hb))
        (importFetchedBlock_keeps hI hothers (fun n => hown n blk List.mem_cons_self) hpre hone)
        hothersRun

theorem importFetchedBlock_found (hnumbered : NumberedFrom env.platform D)
    (hothers : forall n, Calls (fun call => D call.blk) (env.others n)) (hD : D blk)
    (hpre : Represents env.platform D s.chain)
    (h : Returns (env.importFetchedBlock blk) s imported s') : Found s'.chain blk.hash := by
  have hkept := importInvariant_found hnumbered [blk.hash]
  have hstart := importInvariant_found hnumbered []
  have hnone : forall hash, hash ∈ [] -> Found s.chain hash := fun _ hmem => by cases hmem
  rcases importFetchedBlock_cases h with
    ⟨g, hbetween, ⟨hfound, hchain⟩ | ⟨turn, out, hout, horphan, hreject, hafter⟩⟩
  · rw [hchain]
    exact hfound
  · have hg := (hbetween.keeps hstart hothers ⟨hpre, hnone⟩).1
    have hnew := applyBlock_found hnumbered hg hD hout horphan hreject
    have hown : D (env.ownCall turn blk).blk := hD
    have hpost := hstart.apply ⟨hg, fun _ hmem => by cases hmem⟩ hown hout
    exact (hafter.keeps hkept hothers ⟨hpost.1, by simpa using hnew⟩).2 _ List.mem_cons_self

theorem importFetchedBlocks_found (hnumbered : NumberedFrom env.platform D)
    (hothers : forall n, Calls (fun call => D call.blk) (env.others n))
    (hD : forall blk, blk ∈ fetched -> D blk) (hpre : Represents env.platform D s.chain)
    (h : Returns (env.importFetchedBlocks fetched) s imported s') :
    forall blk, blk ∈ fetched -> Found s'.chain blk.hash := by
  induction fetched generalizing s imported with
  | nil => exact fun _ hmem => by cases hmem
  | cons b rest ih =>
      unfold importFetchedBlocks at h
      rcases returns_bind.mp h with ⟨_, t, hone, hrest⟩
      rcases returns_bind.mp hrest with ⟨_, u, hothersRun, hpure⟩
      rcases returns_pure.mp hpure with ⟨_, rfl⟩
      have hDb := hD b List.mem_cons_self
      have hDrest : forall blk, blk ∈ rest -> D blk :=
        fun blk hmem => hD blk (List.mem_cons_of_mem _ hmem)
      have hnew := importFetchedBlock_found hnumbered hothers hDb hpre hone
      have hmid := importFetchedBlock_keeps (importInvariant_found hnumbered []) hothers
        (fun _ => hDb) ⟨hpre, fun _ hmem => by cases hmem⟩ hone
      intro blk hmem
      rcases List.mem_cons.mp hmem with rfl | hmem
      · exact (importFetchedBlocks_keeps (importInvariant_found hnumbered [blk.hash]) hothers
          (fun _ b hb => hDrest b hb) ⟨hmid.1, by simpa using hnew⟩ hothersRun).2 _
            List.mem_cons_self
      · exact ih hDrest hmid.1 hothersRun blk hmem

end Invariants

/-!
# A completed catch-up
-/

theorem stable_chain {A : Call -> Prop} {I : ChainState -> Prop}
    (hI : ImportInvariant env.platform A I) (hothers : forall n, Calls A (env.others n)) :
    env.Stable fun s => I s.chain where
  turn := fun h => h
  sent := fun _ h => h
  peers := fun _ h => h
  read := fun h _ => h
  others := fun h hrun => hI.importAll (hothers _) h hrun

/-- Every call on the chain meets `A`: those that led to it, those of the other importers
and those on the fetched blocks. -/
structure Delivers (env : SyncEnv) (A : Call -> Prop) (start : ChainState)
    (steps : List ImporterStep) (s : SyncState) (fetched : List Block) : Prop where
  reached : importAll env.platform start steps = .ok s.chain
  before : Calls A steps
  others : forall n, Calls A (env.others n)
  own : forall n blk, blk ∈ fetched -> A (env.ownCall n blk)

theorem Delivers.mono {A B : Call -> Prop} {start : ChainState} {steps : List ImporterStep}
    (h : env.Delivers A start steps s fetched) (hsub : forall call, A call -> B call) :
    env.Delivers B start steps s fetched where
  reached := h.reached
  before := fun call hcall => hsub call (h.before call hcall)
  others := fun n call hcall => hsub call (h.others n call hcall)
  own := fun n blk hblk => hsub _ (h.own n blk hblk)

theorem Delivers.fetchBranch {A : Call -> Prop} {I : ChainState -> Prop} {start : ChainState}
    {steps : List ImporterStep} (h : env.Delivers A start steps s fetched) (hI : ImportInvariant env.platform A I)
    (hstart : I start) (hfetch : Returns env.fetchBranch s (some (summary, fetched)) s') :
    I s'.chain :=
  (stable_chain hI h.others).fetchBranch (hI.importAll h.before hstart h.reached) hfetch

/-- Whatever the peer answers and the other importers do, a completed download is a
branch that is rooted in the chain and ends in the peer's tip.  Once it is imported, its
blocks are found and the tip is at least as heavy as theirs. -/
theorem completedDownload (hfetch : Returns env.fetchBranch s (some (summary, fetched)) s') :
    (exists tipHash, .ok (.height summary) ∈ s.replies ∧ summary.tipHash = some tipHash ∧
      RootedBranch s'.chain tipHash fetched) ∧
    forall {D} start steps {s'' imported}, NumberedFrom env.platform D ->
      Returns (env.importFetchedBlocks fetched) s' imported s'' ->
      (Started env.platform D start ->
        env.Delivers (fun call => D call.blk) start steps s fetched ->
          forall blk, blk ∈ fetched -> Found s''.chain blk.hash) ∧
      (GenesisApplied env.platform start -> env.Delivers (Durably D) start steps s fetched ->
        forall tip, fetched.getLast? = some tip ->
          s''.chain.workOf tip.hash ≤ s''.chain.workOf s''.chain.tipHash) := by
  refine ⟨fetchBranch_rooted hfetch, ?_⟩
  intro D start steps s'' imported hnumbered himport
  constructor
  · intro hstart hdelivers
    have hmid := hdelivers.fetchBranch (importInvariant_found hnumbered [])
      ⟨(hstart.invariant hnumbered).1, fun _ hmem => by cases hmem⟩ hfetch
    exact importFetchedBlocks_found hnumbered hdelivers.others
      (fun blk hmem => hdelivers.own 0 blk hmem) hmid.1 himport
  · intro hgenesis hdelivers tip htip
    have hsettled := importInvariant_settled hnumbered
    have hmid := hdelivers.fetchBranch hsettled hgenesis.settled hfetch
    have hpost := importFetchedBlocks_keeps hsettled hdelivers.others hdelivers.own hmid himport
    have hfound := importFetchedBlocks_found hnumbered
      (fun n call hcall => (hdelivers.others n call hcall).1)
      (fun blk hmem => (hdelivers.own 0 blk hmem).1) hmid.represents himport tip
      (List.mem_of_getLast? htip)
    rcases found_iff_resolve.mp hfound with ⟨known, hknown⟩
    exact hpost.workOf_le hknown

/-!
# A sample catch-up
-/

/-- Another importer brings a rival block while the fetched ones are imported. -/
def sampleSyncEnv : SyncEnv :=
  { platform := samplePlatform
    manager :=
      { localNodeNonce := 1
        advertisedIp := none
        advertisedPort := none
        allowPrivatePeerAddresses := true }
    peerAddr := "127.0.0.1:9001"
    connects := true
    others := fun n => if n = 15 then [.apply (sampleCall rivalFirst)] else []
    host := fun _ => sampleHost
    sendOk := fun _ => true
    now := fun n => n }

/-- A node at genesis and a peer that reports `tip` and serves the blocks. -/
def sampleSync (tip : Block) (blocks : List Block) : SyncState :=
  { chain := sampleGenesis
    peers := .empty
    mempool := some .empty
    replies :=
      [.ok (.handshake
          (HandshakeMessage.newWithAdvertised samplePlatform tip.header.number 2 none none)),
        .ok (.height
          { height := tip.header.number, tipHash := some tip.hash, cumulativeWork := 2 ^ 60 }),
        .ok (.ping 7)] ++ blocks.map fun blk => .ok (.block blk)
    sent := []
    turn := 0 }

def sampleCatchUp : SyncProgram (Option (ChainSummary × List Block) × Nat) := do
  let branch <- sampleSyncEnv.fetchBranch
  let imported <- sampleSyncEnv.importFetchedBlocks ((branch.map Prod.snd).getD [])
  return (branch, imported)

theorem sampleCatchUp_values :
    eval sampleCatchUp (sampleSync secondBlock [secondBlock, firstBlock])
        (fun r s => (r.1.map fun branch => (branch.1.tipHash, branch.2), s.chain.blocks)) =
      some (some (some secondBlock.hash, [firstBlock, secondBlock]),
        [genesisBlock, firstBlock, secondBlock]) ∧
    eval sampleCatchUp (sampleSync jumpBlock [jumpBlock])
        (fun r s => (r.1.map fun branch => branch.2, (s.chain.blockByHash jumpBlock.hash).isSome)) =
      some (some [jumpBlock], false) := by
  decide +kernel

theorem sampleCatchUp_returns {branch : Option (ChainSummary × List Block)} {imported : Nat}
    (h : Returns sampleCatchUp s (branch, imported) s') :
    exists t, Returns sampleSyncEnv.fetchBranch s branch t ∧
      Returns (sampleSyncEnv.importFetchedBlocks ((branch.map Prod.snd).getD [])) t imported s' := by
  unfold sampleCatchUp at h
  rcases returns_bind.mp h with ⟨_, t, hfetch, hrest⟩
  rcases returns_bind.mp hrest with ⟨_, u, himport, hpure⟩
  rcases returns_pure.mp hpure with ⟨heq, rfl⟩
  cases heq
  exact ⟨t, hfetch, himport⟩

theorem sampleSync_delivers (tip : Block) {blocks : List Block} (hblocks : blocks ⊆ sampleBlocks)
    (replies : List Block) :
    sampleSyncEnv.Delivers (Durably fun blk => blk ∈ sampleBlocks) sampleGenesis []
      (sampleSync tip replies) blocks where
  reached := rfl
  before := fun _ hcall => by cases hcall
  others := by
    intro n call hcall
    dsimp only [sampleSyncEnv] at hcall
    by_cases hn : n = 15
    · rw [if_pos hn, List.mem_singleton] at hcall
      cases hcall
      exact ⟨by simp [sampleCall, sampleBlocks], fun _ => rfl⟩
    · rw [if_neg hn] at hcall
      cases hcall
  own := fun _ _ hblk => ⟨hblocks hblk, fun _ => rfl⟩

theorem completedDownload_secondBlock :
    exists summary fetched s' imported s'',
      Returns sampleSyncEnv.fetchBranch (sampleSync secondBlock [secondBlock, firstBlock])
        (some (summary, fetched)) s' ∧
      Returns (sampleSyncEnv.importFetchedBlocks fetched) s' imported s'' ∧
      fetched = [firstBlock, secondBlock] ∧ RootedBranch s'.chain secondBlock.hash fetched ∧
      (forall blk, blk ∈ fetched -> Found s''.chain blk.hash) ∧
      s''.chain.workOf secondBlock.hash ≤ s''.chain.workOf s''.chain.tipHash := by
  rcases returns_of_eval sampleCatchUp_values.1 with ⟨⟨branch, imported⟩, s'', hrun, hvalues⟩
  rcases sampleCatchUp_returns hrun with ⟨s', hfetch, himport⟩
  cases branch with
  | none => cases (Prod.mk.inj hvalues).1
  | some branch =>
      rcases branch with ⟨summary, fetched⟩
      have hbranch := Option.some.inj (Prod.mk.inj hvalues).1
      rcases Prod.mk.inj hbranch with ⟨htip, hfetched⟩
      dsimp only at htip hfetched
      have hblocks : fetched ⊆ sampleBlocks := by rw [hfetched]; simp [sampleBlocks]
      have hdelivers := sampleSync_delivers secondBlock hblocks [secondBlock, firstBlock]
      have hcompleted := completedDownload hfetch
      rcases hcompleted.1 with ⟨tipHash, _, hsummary, hrooted⟩
      have himported := hcompleted.2 sampleGenesis [] sampleBlocks_numbered himport
      rw [htip] at hsummary
      cases hsummary
      exact ⟨summary, fetched, s', imported, s'', hfetch, himport, hfetched, hrooted,
        himported.1 (Started.genesis sampleGenesis_applied) (hdelivers.mono fun _ h => h.1),
        himported.2 sampleGenesis_applied hdelivers secondBlock (by rw [hfetched]; rfl)⟩

/-- A block that is not numbered one above its parent is fetched and imported, and is not
found afterwards. -/
theorem jumpBlock_not_found :
    exists summary fetched s' imported s'', GenesisApplied samplePlatform sampleGenesis ∧
      Returns sampleSyncEnv.fetchBranch (sampleSync jumpBlock [jumpBlock])
        (some (summary, fetched)) s' ∧
      Returns (sampleSyncEnv.importFetchedBlocks fetched) s' imported s'' ∧
      exists blk, blk ∈ fetched ∧ ¬Found s''.chain blk.hash := by
  rcases returns_of_eval sampleCatchUp_values.2 with ⟨⟨branch, imported⟩, s'', hrun, hvalues⟩
  rcases sampleCatchUp_returns hrun with ⟨s', hfetch, himport⟩
  rcases Prod.mk.inj hvalues with ⟨hbranch, hlost⟩
  cases branch with
  | none => cases hbranch
  | some branch =>
      rcases branch with ⟨summary, fetched⟩
      have hfetched : fetched = [jumpBlock] := Option.some.inj hbranch
      refine ⟨summary, fetched, s', imported, s'', sampleGenesis_applied, hfetch, himport,
        jumpBlock, by rw [hfetched]; exact List.mem_cons_self, ?_⟩
      intro hfound
      rw [Found, hlost] at hfound
      cases hfound

end SyncEnv
end VisionCore
