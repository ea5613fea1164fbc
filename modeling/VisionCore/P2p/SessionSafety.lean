import VisionCore.P2p.InboundSession

/-!
# What an inbound session may do

Nothing of the chain leaves the node, and nothing of the peer enters it, before an
accepted handshake.  A connection registers one session, and it asks for one block at
a time.  A block that was not asked for changes nothing.
-/

namespace VisionCore

open Foundation Foundation.Exchange

namespace SessionAction

/-- The action shows the chain, records what the peer says about its own, registers
the session or hands over a block. -/
def needsHandshake : SessionAction -> Bool
  | sent (.height _) | sent (.block _) => true
  | peer (.noteSummaryFrom _ _ _ _) | peer (.noteHeight _ _) | peer (.connectSession _ _) => true
  | registered _ _ | queued _ _ => true
  | _ => false

def registration : SessionAction -> Option (String × UInt64)
  | registered peerKey generation => some (peerKey, generation)
  | _ => none

def unregistration : SessionAction -> Option (String × UInt64)
  | unregistered peerKey generation => some (peerKey, generation)
  | _ => none

/-- Neither request traffic nor a change of the registry. -/
structure Quiet (action : SessionAction) : Prop where
  exchange : action.exchange = none
  registration : action.registration = none
  unregistration : action.unregistration = none

theorem exchanges_quiet {actions : List SessionAction}
    (h : forall action, action ∈ actions -> action.Quiet) : exchanges actions = [] :=
  List.filterMap_eq_nil_iff.mpr fun action hmem => (h action hmem).exchange

theorem registrations_quiet {actions : List SessionAction}
    (h : forall action, action ∈ actions -> action.Quiet) :
    actions.filterMap registration = [] :=
  List.filterMap_eq_nil_iff.mpr fun action hmem => (h action hmem).registration

theorem unregistrations_quiet {actions : List SessionAction}
    (h : forall action, action ∈ actions -> action.Quiet) :
    actions.filterMap unregistration = [] :=
  List.filterMap_eq_nil_iff.mpr fun action hmem => (h action hmem).unregistration

end SessionAction

namespace InboundSession

/-- The action receives a handshake that `validate_handshake` accepts. -/
def acceptsHandshake (P : Platform) (ends : InboundEnds) : SessionAction -> Bool
  | .received (.handshake remote) =>
      decide (validateHandshake P remote ends.manager.localNodeNonce = .accepted)
  | _ => false

/-- What the handler's variables say together. -/
structure Sound (s : InboundSession) : Prop where
  joined : s.activeSession.isSome = s.handshakeDone
  requested : s.requestedBlockHash.isSome = true -> s.handshakeDone = true
  refresh : s.refresh.isSome = true -> s.handshakeDone = true ∧ s.requestedBlockHash = none

theorem sound_start : start.Sound where
  joined := rfl
  requested := fun h => by cases h
  refresh := fun h => by cases h

/-- Everything that a step can do. -/
inductive StepCase (P : Platform) (ends : InboundEnds) (s : InboundSession) :
    SessionInput -> Outcome -> Prop where
  | quiet {input : SessionInput} {actions : List SessionAction} {next : Option InboundSession}
      (hquiet : forall action, action ∈ actions -> action.Quiet)
      (hprivate : s.handshakeDone = false ->
        forall action, action ∈ actions -> action.needsHandshake = false)
      (hnext : forall s', next = some s' ->
        exists refresh, s' = { s with refresh := refresh } ∧
          (refresh.isSome = true -> s.refresh.isSome = true)) :
      StepCase P ends s input (actions, next)
  | joins {remote : HandshakeMessage} {greeting rest : List SessionAction} {peerKey : String}
      {generation : UInt64} {refresh : Option Nat}
      (hfirst : s.handshakeDone = false)
      (haccepted : validateHandshake P remote ends.manager.localNodeNonce = .accepted)
      (hgreeting : forall action, action ∈ greeting -> action.Quiet)
      (hrest : forall action, action ∈ rest -> action.Quiet) :
      StepCase P ends s (.message (.handshake remote))
        (.received (.handshake remote) :: (greeting ++ .registered peerKey generation :: rest),
          some
            { s with
              handshakeDone := true
              activeSession := some (peerKey, generation)
              refresh := refresh })
  | asks {announcement : AnnounceBlock} {next : Option InboundSession}
      (hdone : s.handshakeDone = true) (hidle : s.refresh = none)
      (hfree : s.requestedBlockHash = none)
      (hnext : next = none ∨ next = some { s with requestedBlockHash := some announcement.hash }) :
      StepCase P ends s (.message (.announceBlock announcement))
        ([.received (.announceBlock announcement), .sent (.getBlock announcement.hash)], next)
  | answered {blk : Block} {delivered : List SessionAction} {next : Option InboundSession}
      (hdone : s.handshakeDone = true)
      (hrequested : s.requestedBlockHash = some blk.hash)
      (hdelivered : delivered = [] ∨ exists peerAddr, delivered = [.queued blk peerAddr])
      (hnext : next = none ∨ next = some { s with requestedBlockHash := none }) :
      StepCase P ends s (.message (.block blk)) (.received (.block blk) :: delivered, next)
  | stray {blk : Block} {next : Option InboundSession}
      (hrequested : s.requestedBlockHash ≠ some blk.hash)
      (hnext : next = none ∨ next = some { s with refresh := none } ∧ s.requestedBlockHash = none) :
      StepCase P ends s (.message (.block blk)) ([.received (.block blk)], next)

section Steps

variable {P : Platform} {ends : InboundEnds} {around : Surroundings} {s : InboundSession}

/-- A received message that is no block. -/
theorem received_quiet {message : P2PMessage}
    (h : forall blk, message ≠ .block blk) : (SessionAction.received message).Quiet := by
  cases message with
  | block blk => exact absurd rfl (h blk)
  | handshake remote => exact ⟨rfl, rfl, rfl⟩
  | ping timestamp => exact ⟨rfl, rfl, rfl⟩
  | pong timestamp => exact ⟨rfl, rfl, rfl⟩
  | getHeight => exact ⟨rfl, rfl, rfl⟩
  | height summary => exact ⟨rfl, rfl, rfl⟩
  | announceBlock announcement => exact ⟨rfl, rfl, rfl⟩
  | getBlock hash => exact ⟨rfl, rfl, rfl⟩
  | disconnect reason => exact ⟨rfl, rfl, rfl⟩

/-- A quiet step after the handshake. -/
theorem StepCase.afterHandshake {input : SessionInput} {actions : List SessionAction}
    {next : Option InboundSession} (hdone : s.handshakeDone = true)
    (hquiet : forall action, action ∈ actions -> action.Quiet)
    (hnext : next = none ∨ exists refresh, next = some { s with refresh := refresh } ∧
      (refresh.isSome = true -> s.refresh.isSome = true)) :
    StepCase P ends s input (actions, next) := by
  apply StepCase.quiet hquiet
  · intro hfirst
    rw [hdone] at hfirst
    cases hfirst
  · intro s' heq
    rcases hnext with hnone | ⟨refresh, hsome, hrefresh⟩
    · rw [hnone] at heq
      cases heq
    · rw [hsome] at heq
      cases heq
      exact ⟨refresh, rfl, hrefresh⟩

/-- A quiet step that leaves the loop. -/
theorem StepCase.leaves {input : SessionInput} {actions : List SessionAction}
    (h : forall action, action ∈ actions -> action.Quiet ∧ action.needsHandshake = false) :
    StepCase P ends s input (actions, none) := by
  apply StepCase.quiet
  · exact fun action hmem => (h action hmem).1
  · exact fun _ action hmem => (h action hmem).2
  · intro s' heq
    cases heq

/-- The answer to a message that is no block. -/
theorem StepCase.reply {input message : P2PMessage} (hdone : s.handshakeDone = true)
    (hinput : forall blk, input ≠ .block blk) (hsent : (SessionAction.sent message).Quiet) :
    StepCase P ends s (.message input)
      (.received input :: (InboundSession.reply around message s).1,
        (InboundSession.reply around message s).2) := by
  apply StepCase.afterHandshake hdone
  · intro action hmem
    rcases List.mem_cons.mp hmem with rfl | hmem
    · exact received_quiet hinput
    · rw [List.mem_singleton.mp hmem]
      exact hsent
  · unfold InboundSession.reply
    dsimp only
    split
    · exact Or.inr ⟨s.refresh, rfl, id⟩
    · exact Or.inl rfl

/-- A received message that the handler lets pass. -/
theorem StepCase.passes {message : P2PMessage} (hdone : s.handshakeDone = true)
    (h : forall blk, message ≠ .block blk) :
    StepCase P ends s (.message message) ([.received message], some s) := by
  apply StepCase.afterHandshake hdone
  · intro action hmem
    rw [List.mem_singleton.mp hmem]
    exact received_quiet h
  · exact Or.inr ⟨s.refresh, rfl, id⟩

/-- A received message that ends the session. -/
theorem StepCase.refused {message : P2PMessage} (h : forall blk, message ≠ .block blk) :
    StepCase P ends s (.message message) ([.received message], none) := by
  apply StepCase.leaves
  intro action hmem
  rw [List.mem_singleton.mp hmem]
  exact ⟨received_quiet h, rfl⟩

/-- A handshake that is not accepted. -/
theorem StepCase.rejected (remote : HandshakeMessage) (reason : String) :
    StepCase P ends s (.message (.handshake remote))
      ([.received (.handshake remote), .peer (.upsert ends.addr false),
        .peer (.setState ends.addr .disconnected), .sent (.disconnect reason)], none) := by
  apply StepCase.leaves
  intro action hmem
  simp only [List.mem_cons, List.not_mem_nil, or_false] at hmem
  rcases hmem with rfl | rfl | rfl | rfl
  · exact ⟨⟨rfl, rfl, rfl⟩, rfl⟩
  · exact ⟨⟨rfl, rfl, rfl⟩, rfl⟩
  · exact ⟨⟨rfl, rfl, rfl⟩, rfl⟩
  · exact ⟨⟨rfl, rfl, rfl⟩, rfl⟩

/-- What an accepted handshake leads to before the session is registered. -/
theorem greeting_quiet {peerKey : String} {candidates : List String}
    {localHandshake : HandshakeMessage} {action : SessionAction}
    (h : action ∈ .peer (.observeInbound peerKey ends.addr) ::
      (if ends.hasDiscovery then candidates.map .discovered else []) ++
        [.sent (.handshake localHandshake)]) :
    action.Quiet ∧ action.needsHandshake = false := by
  rcases List.mem_append.mp h with hfirst | hsent
  · rcases List.mem_cons.mp hfirst with rfl | hdiscovered
    · exact ⟨⟨rfl, rfl, rfl⟩, rfl⟩
    · split at hdiscovered
      · rcases List.mem_map.mp hdiscovered with ⟨candidate, _, rfl⟩
        exact ⟨⟨rfl, rfl, rfl⟩, rfl⟩
      · cases hdiscovered
  · rw [List.mem_singleton.mp hsent]
    exact ⟨⟨rfl, rfl, rfl⟩, rfl⟩

/-- The records that follow the registration. -/
theorem joined_quiet {peerKey : String} {generation : UInt64} {height : UInt64}
    {action : SessionAction}
    (h : action ∈ ([.peer (.connectSession peerKey generation),
      .peer (.noteHeight peerKey height)] : List SessionAction)) : action.Quiet := by
  simp only [List.mem_cons, List.not_mem_nil, or_false] at h
  rcases h with rfl | rfl
  · exact ⟨rfl, rfl, rfl⟩
  · exact ⟨rfl, rfl, rfl⟩

theorem handleHandshake_cases (remote : HandshakeMessage) :
    StepCase P ends s (.message (.handshake remote))
      (.received (.handshake remote) :: (handleHandshake P ends around s remote).1,
        (handleHandshake P ends around s remote).2) := by
  have hreceived : (SessionAction.received (.handshake remote)).Quiet := ⟨rfl, rfl, rfl⟩
  unfold handleHandshake
  by_cases hdone : s.handshakeDone = true
  · rw [if_pos hdone]
    exact StepCase.refused fun blk heq => by cases heq
  · have hfirst : s.handshakeDone = false := Bool.eq_false_iff.mpr hdone
    rw [if_neg hdone]
    cases hresult : validateHandshake P remote ends.manager.localNodeNonce with
    | accepted =>
        dsimp only
        cases hkey : around.peers.resolveInboundPeerKey ends.addr remote
            ends.manager.allowPrivatePeerAddresses with
        | error reason =>
            dsimp only
            apply StepCase.leaves
            intro action hmem
            simp only [List.mem_cons, List.not_mem_nil, or_false] at hmem
            rcases hmem with rfl | rfl
            · exact ⟨hreceived, rfl⟩
            · exact ⟨⟨rfl, rfl, rfl⟩, rfl⟩
        | ok resolved =>
            rcases resolved with ⟨peerKey, peers⟩
            dsimp only
            by_cases hsent : around.sendOk 0 = false
            · rw [if_pos hsent]
              apply StepCase.leaves
              intro action hmem
              rcases List.mem_cons.mp hmem with rfl | hmem
              · exact ⟨hreceived, rfl⟩
              · exact greeting_quiet hmem
            · rw [if_neg hsent]
              by_cases hobserved : peerKey = ends.addr
              · rw [if_pos hobserved]
                exact StepCase.joins hfirst hresult (fun action hmem => (greeting_quiet hmem).1)
                  (fun action hmem => joined_quiet hmem)
              · rw [if_neg hobserved]
                dsimp only
                rw [List.append_assoc]
                apply StepCase.joins hfirst hresult
                · exact fun action hmem => (greeting_quiet hmem).1
                · intro action hmem
                  rcases List.mem_append.mp hmem with hmem | hmem
                  · exact joined_quiet hmem
                  · simp only [List.mem_cons, List.not_mem_nil, or_false] at hmem
                    rcases hmem with rfl | rfl
                    · exact ⟨rfl, rfl, rfl⟩
                    · exact ⟨rfl, rfl, rfl⟩
    | versionMismatch remoteVersion ours => exact StepCase.rejected remote _
    | wrongChainId => exact StepCase.rejected remote _
    | wrongGenesisHash => exact StepCase.rejected remote _
    | wrongEconHash => exact StepCase.rejected remote _
    | wrongPowParams => exact StepCase.rejected remote _
    | selfConnection => exact StepCase.rejected remote _

theorem Sound.requested_of_first (hs : s.Sound) (hfirst : s.handshakeDone = false) :
    s.requestedBlockHash = none := by
  rw [← Option.not_isSome_iff_eq_none]
  intro hrequested
  rw [hs.requested hrequested] at hfirst
  cases hfirst

/-- A block that was not asked for ends the handler's loop. -/
theorem handleMessage_stray {blk : Block} (h : s.requestedBlockHash ≠ some blk.hash) :
    handleMessage P ends around s (.block blk) = ([], none) := by
  unfold handleMessage
  split
  · rfl
  · dsimp only
    cases hrequested : s.requestedBlockHash with
    | none => rfl
    | some expectedHash =>
        rw [hrequested] at h
        dsimp only
        rw [if_pos fun heq => h (congrArg some heq.symm)]

/-- A block in the handler's own loop. -/
theorem handleBlock_cases (hdone : s.handshakeDone = true) (blk : Block) :
    StepCase P ends s (.message (.block blk))
      (.received (.block blk) :: (handleMessage P ends around s (.block blk)).1,
        (handleMessage P ends around s (.block blk)).2) := by
  by_cases hrequested : s.requestedBlockHash = some blk.hash
  · unfold handleMessage
    rw [if_neg (by rw [hdone]; exact fun h => by cases h.1), hrequested]
    dsimp only
    rw [if_neg (not_not_intro rfl)]
    cases around.importer with
    | none => exact StepCase.answered hdone hrequested (Or.inl rfl) (Or.inr rfl)
    | some taken =>
        cases taken with
        | false => exact StepCase.answered hdone hrequested (Or.inl rfl) (Or.inl rfl)
        | true => exact StepCase.answered hdone hrequested (Or.inr ⟨_, rfl⟩) (Or.inr rfl)
  · rw [handleMessage_stray hrequested]
    exact StepCase.stray hrequested (Or.inl rfl)

theorem handleAnnounceBlock_cases (hdone : s.handshakeDone = true) (hidle : s.refresh = none)
    (announcement : AnnounceBlock) :
    StepCase P ends s (.message (.announceBlock announcement))
      (.received (.announceBlock announcement) ::
          (handleMessage P ends around s (.announceBlock announcement)).1,
        (handleMessage P ends around s (.announceBlock announcement)).2) := by
  unfold handleMessage
  rw [if_neg (by rw [hdone]; exact fun h => by cases h.1)]
  dsimp only
  split
  · exact StepCase.refused fun blk heq => by cases heq
  · split
    · rename_i hunknown
      have hfree : s.requestedBlockHash = none := Option.isNone_iff_eq_none.mp hunknown.2
      apply StepCase.asks hdone hidle hfree
      unfold InboundSession.reply
      dsimp only
      split
      · exact Or.inr rfl
      · exact Or.inl rfl
    · exact StepCase.passes hdone fun blk heq => by cases heq

theorem handleMessage_cases (hs : s.Sound) (hidle : s.refresh = none) (message : P2PMessage) :
    StepCase P ends s (.message message)
      (.received message :: (handleMessage P ends around s message).1,
        (handleMessage P ends around s message).2) := by
  by_cases hgate : s.handshakeDone = false ∧ message.isPreHandshake = false
  · unfold handleMessage
    rw [if_pos hgate]
    by_cases hblock : exists blk, message = .block blk
    · rcases hblock with ⟨blk, rfl⟩
      have hfree := hs.requested_of_first hgate.1
      exact StepCase.stray (by rw [hfree]; exact fun h => by cases h) (Or.inl rfl)
    · exact StepCase.refused fun blk heq => hblock ⟨blk, heq⟩
  · have hdone : message.isPreHandshake = false -> s.handshakeDone = true := by
      intro hpre
      rw [← Bool.not_eq_false]
      exact fun hfirst => hgate ⟨hfirst, hpre⟩
    cases message with
    | handshake remote =>
        unfold handleMessage
        rw [if_neg hgate]
        exact handleHandshake_cases remote
    | block blk => exact handleBlock_cases (hdone rfl) blk
    | announceBlock announcement => exact handleAnnounceBlock_cases (hdone rfl) hidle announcement
    | ping timestamp =>
        unfold handleMessage
        rw [if_neg hgate]
        exact StepCase.reply (hdone rfl) (fun blk heq => by cases heq) ⟨rfl, rfl, rfl⟩
    | getHeight =>
        unfold handleMessage
        rw [if_neg hgate]
        exact StepCase.reply (hdone rfl) (fun blk heq => by cases heq) ⟨rfl, rfl, rfl⟩
    | getBlock hash =>
        unfold handleMessage
        rw [if_neg hgate]
        dsimp only
        cases around.chain.blockByHash hash with
        | some blk => exact StepCase.reply (hdone rfl) (fun other heq => by cases heq) ⟨rfl, rfl, rfl⟩
        | none =>
            apply StepCase.leaves
            intro action hmem
            simp only [List.mem_cons, List.not_mem_nil, or_false] at hmem
            rcases hmem with rfl | rfl
            · exact ⟨⟨rfl, rfl, rfl⟩, rfl⟩
            · exact ⟨⟨rfl, rfl, rfl⟩, rfl⟩
    | height summary =>
        unfold handleMessage
        rw [if_neg hgate]
        dsimp only
        cases s.activeSession with
        | none => exact StepCase.passes (hdone rfl) fun blk heq => by cases heq
        | some session =>
            apply StepCase.afterHandshake (hdone rfl)
            · intro action hmem
              simp only [List.mem_cons, List.not_mem_nil, or_false] at hmem
              rcases hmem with rfl | rfl
              · exact ⟨rfl, rfl, rfl⟩
              · exact ⟨rfl, rfl, rfl⟩
            · exact Or.inr ⟨s.refresh, rfl, id⟩
    | disconnect reason =>
        unfold handleMessage
        rw [if_neg hgate]
        exact StepCase.refused fun blk heq => by cases heq
    | pong timestamp =>
        unfold handleMessage
        rw [if_neg hgate]
        exact StepCase.passes (hdone rfl) fun blk heq => by cases heq

/-- A read of the summary refresh that is no block. -/
theorem StepCase.refreshes {left : Nat} {message : P2PMessage} {actions : List SessionAction}
    {refresh : Option Nat} (hs : s.Sound) (hleft : s.refresh = some left)
    (hmessage : forall blk, message ≠ .block blk)
    (hactions : forall action, action ∈ actions -> action.Quiet) :
    StepCase P ends s (.message message)
      (.received message :: actions, some { s with refresh := refresh }) := by
  apply StepCase.afterHandshake (hs.refresh (by rw [hleft]; rfl)).1
  · intro action hmem
    rcases List.mem_cons.mp hmem with rfl | hmem
    · exact received_quiet hmessage
    · exact hactions action hmem
  · refine Or.inr ⟨refresh, rfl, ?_⟩
    rw [hleft]
    exact fun _ => rfl

theorem handleRefresh_cases (hs : s.Sound) {left : Nat} (hleft : s.refresh = some left)
    (message : P2PMessage) :
    StepCase P ends s (.message message)
      (.received message :: (handleRefresh around s left message).1,
        (handleRefresh around s left message).2) := by
  have hsent : forall reply : P2PMessage, (SessionAction.sent reply).Quiet ->
      forall action, action ∈ [SessionAction.sent reply] -> action.Quiet := by
    intro reply hquiet action hmem
    rw [List.mem_singleton.mp hmem]
    exact hquiet
  have hnothing : forall action, action ∈ ([] : List SessionAction) -> action.Quiet := by
    intro action hmem
    cases hmem
  cases message with
  | block blk =>
      have hfree := (hs.refresh (by rw [hleft]; rfl)).2
      apply StepCase.stray
      · rw [hfree]
        exact fun heq => by cases heq
      · exact Or.inr ⟨rfl, hfree⟩
  | height summary =>
      unfold handleRefresh
      dsimp only
      split
      · apply StepCase.refreshes hs hleft (fun blk heq => by cases heq)
        intro action hmem
        rw [List.mem_singleton.mp hmem]
        exact ⟨rfl, rfl, rfl⟩
      · exact StepCase.refreshes hs hleft (fun blk heq => by cases heq) hnothing
  | getHeight =>
      unfold handleRefresh
      dsimp only
      split
      · exact StepCase.refreshes hs hleft (fun blk heq => by cases heq) (hsent _ ⟨rfl, rfl, rfl⟩)
      · exact StepCase.refreshes hs hleft (fun blk heq => by cases heq) (hsent _ ⟨rfl, rfl, rfl⟩)
  | ping timestamp =>
      unfold handleRefresh
      dsimp only
      split
      · exact StepCase.refreshes hs hleft (fun blk heq => by cases heq) (hsent _ ⟨rfl, rfl, rfl⟩)
      · exact StepCase.refreshes hs hleft (fun blk heq => by cases heq) (hsent _ ⟨rfl, rfl, rfl⟩)
  | handshake remote => exact StepCase.refreshes hs hleft (fun blk heq => by cases heq) hnothing
  | pong timestamp => exact StepCase.refreshes hs hleft (fun blk heq => by cases heq) hnothing
  | announceBlock announcement =>
      exact StepCase.refreshes hs hleft (fun blk heq => by cases heq) hnothing
  | getBlock hash => exact StepCase.refreshes hs hleft (fun blk heq => by cases heq) hnothing
  | disconnect reason => exact StepCase.refreshes hs hleft (fun blk heq => by cases heq) hnothing

/-- A step without actions that keeps the session. -/
theorem StepCase.idle {input : SessionInput} : StepCase P ends s input ([], some s) := by
  apply StepCase.quiet
  · exact fun action hmem => by cases hmem
  · exact fun _ action hmem => by cases hmem
  · intro s' heq
    cases heq
    exact ⟨s.refresh, rfl, id⟩

theorem StepCase.closes {input : SessionInput} : StepCase P ends s input ([], none) :=
  StepCase.leaves fun action hmem => by cases hmem

theorem step_cases (hs : s.Sound) (input : SessionInput) :
    StepCase P ends s input (step P ends around s input) := by
  unfold step
  cases input with
  | message message =>
      cases hrefresh : s.refresh with
      | some left => exact handleRefresh_cases hs hrefresh message
      | none => exact handleMessage_cases hs hrefresh message
  | readError =>
      cases hrefresh : s.refresh with
      | some left =>
          apply StepCase.quiet
          · exact fun action hmem => by cases hmem
          · exact fun _ action hmem => by cases hmem
          · intro s' heq
            cases heq
            exact ⟨none, rfl, fun h => by cases h⟩
      | none => exact StepCase.closes
  | outbound announcement =>
      dsimp only
      split
      · exact StepCase.idle
      · rename_i hopen
        have hactive : s.activeSession.isSome = true := by
          rw [Option.isSome_iff_ne_none]
          exact fun hnone => hopen (Or.inl (by rw [hnone]; rfl))
        apply StepCase.afterHandshake (hs.joined ▸ hactive)
        · intro action hmem
          rw [List.mem_singleton.mp hmem]
          exact ⟨rfl, rfl, rfl⟩
        · split
          · exact Or.inr ⟨s.refresh, rfl, id⟩
          · exact Or.inl rfl
  | outboundClosed =>
      dsimp only
      split
      · exact StepCase.idle
      · exact StepCase.closes

/-- A block that was not asked for has no effect: it ends the handler, or the summary
refresh that was reading. -/
theorem step_stray {blk : Block} (h : s.requestedBlockHash ≠ some blk.hash) :
    step P ends around s (.message (.block blk)) = ([.received (.block blk)], none) ∨
      step P ends around s (.message (.block blk)) =
        ([.received (.block blk)], some { s with refresh := none }) := by
  unfold step
  dsimp only
  cases s.refresh with
  | some left => exact Or.inr rfl
  | none =>
      dsimp only
      rw [handleMessage_stray h]
      exact Or.inl rfl

theorem StepCase.sound {input : SessionInput} {actions : List SessionAction}
    {s' : InboundSession} (hs : s.Sound) (h : StepCase P ends s input (actions, some s')) :
    s'.Sound := by
  cases h with
  | quiet _ _ hnext =>
      rcases hnext s' rfl with ⟨refresh, rfl, hrefresh⟩
      exact
        { joined := hs.joined
          requested := hs.requested
          refresh := fun hsome => hs.refresh (hrefresh hsome) }
  | joins hfirst _ _ _ =>
      exact
        { joined := rfl
          requested := fun _ => rfl
          refresh := fun _ => ⟨rfl, hs.requested_of_first hfirst⟩ }
  | asks hdone hidle _ hnext =>
      rcases hnext with hnext | hnext
      · cases hnext
      · cases hnext
        refine ⟨hs.joined, fun _ => hdone, ?_⟩
        intro hsome
        dsimp only at hsome
        rw [hidle] at hsome
        cases hsome
  | answered hdone _ _ hnext =>
      rcases hnext with hnext | hnext
      · cases hnext
      · cases hnext
        exact ⟨hs.joined, fun hsome => (by cases hsome), fun _ => ⟨hdone, rfl⟩⟩
  | stray _ hnext =>
      rcases hnext with hnext | ⟨hnext, _⟩
      · cases hnext
      · cases hnext
        exact ⟨hs.joined, hs.requested, fun hsome => (by cases hsome)⟩

end Steps

/-!
# Whole connections
-/

section Runs

variable {P : Platform} {ends : InboundEnds} {around : Surroundings} {s s' : InboundSession}
  {input : SessionInput} {actions later : List SessionAction} {last next : Option InboundSession}

/-- What holds of a run when the last step and every earlier one keep it. -/
theorem run_induction {C : InboundSession -> List SessionAction -> Option InboundSession -> Prop}
    (hnil : forall s, s.Sound -> C s [] (some s))
    (hends : forall s input around actions, s.Sound ->
      StepCase P ends s input (actions, none) -> C s (actions ++ close around s) none)
    (hstep : forall s s' input actions later last, s.Sound ->
      StepCase P ends s input (actions, some s') -> C s' later last ->
        C s (actions ++ later) last)
    (hs : s.Sound) (inputs : List (SessionInput × Surroundings)) :
    C s (run P ends s inputs).1 (run P ends s inputs).2 := by
  induction inputs generalizing s with
  | nil => exact hnil s hs
  | cons entry rest ih =>
      rcases entry with ⟨input, around⟩
      have hcase : StepCase P ends s input (step P ends around s input) := step_cases hs input
      unfold run
      cases hresult : step P ends around s input with
      | mk actions next =>
          rw [hresult] at hcase
          cases next with
          | none => exact hends s input around actions hs hcase
          | some s' => exact hstep s s' input actions _ _ hs hcase (ih (hcase.sound hs))

theorem run_sound (hs : s.Sound) (inputs : List (SessionInput × Surroundings)) :
    forall s', (run P ends s inputs).2 = some s' -> s'.Sound := by
  apply run_induction (C := fun _ _ last => forall s', last = some s' -> s'.Sound)
  · intro s hs s' heq
    cases heq
    exact hs
  · intro s input around actions hs hcase s' heq
    cases heq
  · exact fun s s' input actions later last hs hcase ih => ih
  · exact hs

/-!
# Requests
-/

theorem exchanges_close (around : Surroundings) (s : InboundSession) :
    SessionAction.exchanges (close around s) = [] := by
  unfold close
  cases s.activeSession with
  | none => rfl
  | some session =>
      cases around.latestGeneration with
      | none => rfl
      | some latest => rfl

section Joined

variable {remote : HandshakeMessage} {greeting rest : List SessionAction} {peerKey : String}
  {generation : UInt64}

theorem exchanges_joined (hgreeting : forall action, action ∈ greeting -> action.Quiet)
    (hrest : forall action, action ∈ rest -> action.Quiet) :
    SessionAction.exchanges
      (.received (.handshake remote) :: (greeting ++ .registered peerKey generation :: rest)) =
        [] := by
  unfold SessionAction.exchanges
  rw [List.filterMap_cons_none rfl, List.filterMap_append, List.filterMap_cons_none rfl]
  rw [← SessionAction.exchanges, ← SessionAction.exchanges,
    SessionAction.exchanges_quiet hgreeting, SessionAction.exchanges_quiet hrest]
  rfl

theorem registrations_joined (hgreeting : forall action, action ∈ greeting -> action.Quiet)
    (hrest : forall action, action ∈ rest -> action.Quiet) :
    (SessionAction.received (.handshake remote) ::
      (greeting ++ .registered peerKey generation :: rest)).filterMap
        SessionAction.registration = [(peerKey, generation)] := by
  have hkey : SessionAction.registration (.registered peerKey generation) =
      some (peerKey, generation) := rfl
  rw [List.filterMap_cons_none rfl, List.filterMap_append,
    SessionAction.registrations_quiet hgreeting, List.filterMap_cons_some hkey,
    SessionAction.registrations_quiet hrest]
  rfl

theorem unregistrations_joined (hgreeting : forall action, action ∈ greeting -> action.Quiet)
    (hrest : forall action, action ∈ rest -> action.Quiet) :
    (SessionAction.received (.handshake remote) ::
      (greeting ++ .registered peerKey generation :: rest)).filterMap
        SessionAction.unregistration = [] := by
  rw [List.filterMap_cons_none rfl, List.filterMap_append,
    SessionAction.unregistrations_quiet hgreeting, List.filterMap_cons_none rfl,
    SessionAction.unregistrations_quiet hrest]
  rfl

end Joined

theorem StepCase.allowed (h : StepCase P ends s input (actions, next)) :
    Slot.Allows Block.hash s.requestedBlockHash (SessionAction.exchanges actions)
      (next.map requestedBlockHash) := by
  cases h with
  | quiet hquiet _ hnext =>
      rw [SessionAction.exchanges_quiet hquiet]
      cases next with
      | none => exact Slot.allows_nil.stop
      | some s' =>
          rcases hnext s' rfl with ⟨refresh, rfl, _⟩
          exact Slot.allows_nil
  | joins _ _ hgreeting hrest =>
      rw [exchanges_joined hgreeting hrest]
      exact Slot.allows_nil
  | asks _ _ hfree hnext =>
      rw [hfree]
      rcases hnext with rfl | rfl
      · exact Slot.allows_ask.stop
      · exact Slot.allows_ask
  | answered _ hrequested hdelivered hnext =>
      rw [hrequested]
      rcases hdelivered with rfl | ⟨peerAddr, rfl⟩
      · rcases hnext with rfl | rfl
        · exact Slot.allows_answer.stop
        · exact Slot.allows_answer
      · rcases hnext with rfl | rfl
        · exact Slot.allows_deliver.stop
        · exact Slot.allows_deliver
  | stray _ hnext =>
      rcases hnext with rfl | ⟨rfl, hfree⟩
      · exact Slot.allows_answer.stop
      · rw [Option.map_some, hfree]
        exact Slot.allows_answer

theorem run_allowed (hs : s.Sound) (inputs : List (SessionInput × Surroundings)) :
    Slot.Allows Block.hash s.requestedBlockHash
      (SessionAction.exchanges (run P ends s inputs).1)
      ((run P ends s inputs).2.map requestedBlockHash) := by
  apply run_induction (C := fun s log last =>
    Slot.Allows Block.hash s.requestedBlockHash (SessionAction.exchanges log)
      (last.map requestedBlockHash))
  · exact fun s _ => Slot.allows_nil
  · intro s input around actions _ hcase
    rw [SessionAction.exchanges_append, exchanges_close, List.append_nil]
    exact hcase.allowed
  · intro s s' input actions later last _ hcase ih
    rw [SessionAction.exchanges_append]
    exact hcase.allowed.append ih
  · exact hs

/-!
# One session for each connection
-/

/-- Whatever is registered is unregistered behind the loop, or still held. -/
structure Sessions (s : InboundSession) (log : List SessionAction)
    (last : Option InboundSession) : Prop where
  balance : log.filterMap SessionAction.unregistration ++
      (last.bind activeSession).toList =
    s.activeSession.toList ++ log.filterMap SessionAction.registration
  single : (s.activeSession.toList ++ log.filterMap SessionAction.registration).length ≤ 1

theorem registrations_close (around : Surroundings) (s : InboundSession) :
    (close around s).filterMap SessionAction.registration = [] ∧
      (close around s).filterMap SessionAction.unregistration = s.activeSession.toList := by
  unfold close
  cases s.activeSession with
  | none => exact ⟨rfl, rfl⟩
  | some session =>
      cases around.latestGeneration with
      | none => exact ⟨rfl, rfl⟩
      | some latest => exact ⟨rfl, rfl⟩

theorem StepCase.sessions (hs : s.Sound) (h : StepCase P ends s input (actions, next)) :
    actions.filterMap SessionAction.unregistration = [] ∧
      (s.activeSession.toList ++ actions.filterMap SessionAction.registration).length ≤ 1 ∧
        (next = none -> actions.filterMap SessionAction.registration = []) ∧
          forall s', next = some s' -> s'.activeSession.toList =
            s.activeSession.toList ++ actions.filterMap SessionAction.registration := by
  have hheld : forall actions : List SessionAction,
      actions.filterMap SessionAction.unregistration = [] ->
      actions.filterMap SessionAction.registration = [] ->
      (forall s', next = some s' -> s'.activeSession = s.activeSession) ->
      actions.filterMap SessionAction.unregistration = [] ∧
        (s.activeSession.toList ++ actions.filterMap SessionAction.registration).length ≤ 1 ∧
          (next = none -> actions.filterMap SessionAction.registration = []) ∧
            forall s', next = some s' -> s'.activeSession.toList =
              s.activeSession.toList ++ actions.filterMap SessionAction.registration := by
    intro actions hunregistered hregistered hactive
    rw [hregistered, List.append_nil]
    refine ⟨hunregistered, ?_, fun _ => rfl, fun s' heq => by rw [hactive s' heq]⟩
    cases s.activeSession with
    | none => exact Nat.zero_le 1
    | some session => exact Nat.le_refl 1
  cases h with
  | quiet hquiet _ hnext =>
      apply hheld _ (SessionAction.unregistrations_quiet hquiet)
        (SessionAction.registrations_quiet hquiet)
      intro s' heq
      rcases hnext s' heq with ⟨refresh, rfl, _⟩
      rfl
  | joins hfirst _ hgreeting hrest =>
      have hnone : s.activeSession = none := by
        rw [← Option.not_isSome_iff_eq_none, hs.joined, hfirst]
        exact Bool.false_ne_true
      rw [unregistrations_joined hgreeting hrest, registrations_joined hgreeting hrest, hnone]
      refine ⟨rfl, Nat.le_refl 1, fun heq => (by cases heq), ?_⟩
      intro s' heq
      cases heq
      rfl
  | asks _ _ _ hnext =>
      apply hheld _ rfl rfl
      intro s' heq
      rcases hnext with rfl | rfl
      · cases heq
      · cases heq
        rfl
  | answered _ _ hdelivered hnext =>
      have hactive : forall s', next = some s' -> s'.activeSession = s.activeSession := by
        intro s' heq
        rcases hnext with rfl | rfl
        · cases heq
        · cases heq
          rfl
      rcases hdelivered with rfl | ⟨peerAddr, rfl⟩
      · exact hheld _ rfl rfl hactive
      · exact hheld _ rfl rfl hactive
  | stray _ hnext =>
      apply hheld _ rfl rfl
      intro s' heq
      rcases hnext with rfl | ⟨rfl, _⟩
      · cases heq
      · cases heq
        rfl

theorem run_sessions (hs : s.Sound) (inputs : List (SessionInput × Surroundings)) :
    Sessions s (run P ends s inputs).1 (run P ends s inputs).2 := by
  apply run_induction (C := Sessions)
  · intro s hs
    constructor
    · exact (List.append_nil _).symm
    · cases s.activeSession with
      | none => exact Nat.zero_le 1
      | some session => exact Nat.le_refl 1
  · intro s input around actions hs hcase
    rcases hcase.sessions hs with ⟨hunregistered, hsingle, hregistered, _⟩
    rcases registrations_close around s with ⟨hnone, hclosed⟩
    constructor
    · rw [List.filterMap_append, List.filterMap_append, hunregistered, hclosed, hregistered rfl,
        hnone]
      simp
    · rw [List.filterMap_append, hnone, List.append_nil]
      exact hsingle
  · intro s s' input actions later last hs hcase ih
    rcases hcase.sessions hs with ⟨hunregistered, _, _, hheld⟩
    have hactive := hheld s' rfl
    constructor
    · rw [List.filterMap_append, List.filterMap_append, hunregistered, List.nil_append,
        ih.balance, hactive, List.append_assoc]
    · rw [List.filterMap_append, ← List.append_assoc, ← hactive]
      exact ih.single
  · exact hs

/-!
# Before the handshake
-/

theorem mem_takeWhile_append {α : Type} {p : α -> Bool} {xs ys : List α} {a : α}
    (h : a ∈ (xs ++ ys).takeWhile p) : a ∈ xs ∨ a ∈ ys.takeWhile p := by
  rw [List.takeWhile_append] at h
  split at h
  · exact List.mem_append.mp h
  · exact Or.inl ((List.takeWhile_sublist p).subset h)

/-- Before the handshake a step either receives an accepted one or does nothing that
needs it. -/
theorem StepCase.guarded (hfirst : s.handshakeDone = false)
    (h : StepCase P ends s input (actions, next)) :
    (exists received rest, actions = received :: rest ∧
        acceptsHandshake P ends received = true) ∨
      (forall action, action ∈ actions -> action.needsHandshake = false) ∧
        forall s', next = some s' -> s'.handshakeDone = false := by
  cases h with
  | quiet _ hprivate hnext =>
      apply Or.inr
      constructor
      · exact hprivate hfirst
      · intro s' heq
        rcases hnext s' heq with ⟨refresh, rfl, _⟩
        exact hfirst
  | joins _ haccepted _ _ => exact Or.inl ⟨_, _, rfl, decide_eq_true haccepted⟩
  | asks hdone _ _ _ =>
      rw [hfirst] at hdone
      cases hdone
  | answered hdone _ _ _ =>
      rw [hfirst] at hdone
      cases hdone
  | stray _ hnext =>
      apply Or.inr
      constructor
      · intro action hmem
        rw [List.mem_singleton.mp hmem]
        rfl
      · intro s' heq
        rcases hnext with rfl | ⟨rfl, _⟩
        · cases heq
        · cases heq
          exact hfirst

theorem run_guarded (hs : s.Sound) (inputs : List (SessionInput × Surroundings)) :
    s.handshakeDone = false ->
      forall action,
        action ∈ (run P ends s inputs).1.takeWhile (fun a => !acceptsHandshake P ends a) ->
          action.needsHandshake = false := by
  -- The accepted handshake comes first in its step, so nothing of that step is in the list.
  have hopened : forall received rest, acceptsHandshake P ends received = true ->
      (received :: rest).takeWhile (fun a => !acceptsHandshake P ends a) = [] := by
    intro received rest haccepted
    rw [List.takeWhile_cons_of_neg]
    rw [haccepted]
    exact Bool.false_ne_true
  apply run_induction (C := fun s log _ => s.handshakeDone = false ->
    forall action, action ∈ log.takeWhile (fun a => !acceptsHandshake P ends a) ->
      action.needsHandshake = false)
  · intro s _ _ action hmem
    cases hmem
  · intro s input around actions hs hcase hfirst action hmem
    rcases hcase.guarded hfirst with ⟨received, rest, rfl, haccepted⟩ | ⟨hactions, _⟩
    · rw [List.cons_append, hopened received _ haccepted] at hmem
      cases hmem
    · have hnone : s.activeSession = none := by
        rw [← Option.not_isSome_iff_eq_none, hs.joined, hfirst]
        exact Bool.false_ne_true
      have hclosed : close around s = [] := by
        unfold close
        rw [hnone]
      rw [hclosed, List.append_nil] at hmem
      exact hactions action ((List.takeWhile_sublist _).subset hmem)
  · intro s s' input actions later last hs hcase ih hfirst action hmem
    rcases hcase.guarded hfirst with ⟨received, rest, rfl, haccepted⟩ | ⟨hactions, hnext⟩
    · rw [List.cons_append, hopened received _ haccepted] at hmem
      cases hmem
    · rcases mem_takeWhile_append hmem with hmem | hmem
      · exact hactions action hmem
      · exact ih (hnext s' rfl) action hmem
  · exact hs

end Runs

/-!
# The session protocol
-/

/-- The guarantees of a connection whose handler has done `log` and is now in `last`. -/
structure Safety (P : Platform) (ends : InboundEnds) (log : List SessionAction)
    (last : Option InboundSession) : Prop where
  guarded : forall action,
    action ∈ log.takeWhile (fun a => !acceptsHandshake P ends a) ->
      action.needsHandshake = false
  oneSession : (log.filterMap SessionAction.registration).length ≤ 1
  unregistered : last = none ->
    log.filterMap SessionAction.unregistration = log.filterMap SessionAction.registration
  disciplined : Disciplined Block.hash (SessionAction.exchanges log)
  onePerRequest : forall hash, delivered Block.hash hash (SessionAction.exchanges log) ≤
    asked hash (SessionAction.exchanges log)
  stray : forall s around blk, last = some s ->
    outstanding (SessionAction.exchanges log) ≠ [blk.hash] ->
      step P ends around s (.message (.block blk)) = ([.received (.block blk)], none) ∨
        step P ends around s (.message (.block blk)) =
          ([.received (.block blk)], some { s with refresh := none })

theorem run_safety (P : Platform) (ends : InboundEnds)
    (inputs : List (SessionInput × Surroundings)) :
    Safety P ends (run P ends start inputs).1 (run P ends start inputs).2 := by
  have hsessions : Sessions start (run P ends start inputs).1 (run P ends start inputs).2 :=
    run_sessions sound_start inputs
  have hallowed : Slot.Allows Block.hash start.requestedBlockHash
      (SessionAction.exchanges (run P ends start inputs).1)
      ((run P ends start inputs).2.map requestedBlockHash) := run_allowed sound_start inputs
  rcases hallowed.follows with ⟨hdisciplined, hpending⟩
  refine ⟨?_, hsessions.single, ?_, hdisciplined, ?_, ?_⟩
  · exact run_guarded sound_start inputs rfl
  · intro hended
    have hbalance := hsessions.balance
    rw [hended, Option.bind_none, Option.toList_none, List.append_nil] at hbalance
    exact hbalance
  · exact fun hash => hdisciplined.delivered_le hash
  · intro s around blk hlast hstray
    apply step_stray
    intro hrequested
    have hopen := hpending s.requestedBlockHash (by rw [hlast]; rfl)
    rw [hrequested] at hopen
    exact hstray hopen

end InboundSession

end VisionCore
