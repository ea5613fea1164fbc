import VisionCore.Chain.Nonces
import VisionCore.Mempool.WellFormed

/-!
# Requeueing after a reorg

Displaced transactions go through the ordinary admission one by one, each against
its sender's nonce on the new chain.  Of a run of displaced transactions the
admission window takes the first two.
-/

namespace VisionCore

open Std
open Foundation

/-!
# What a reorg displaces
-/

/-- The displaced transactions of a reorg of a valid chain. -/
structure Displaced (P : Platform) (recovery : ReorgRecovery) : Prop where
  spent : forall tx, tx ∈ recovery.displacedTxs -> exists state args, Spends P state tx args
  rising : forall sender, (noncesOf recovery.displacedTxs sender).Pairwise (· < ·)
  lost : forall tx, tx ∈ recovery.displacedTxs -> canonicalTxId P tx ∉ recovery.winningTxIds

def PendingDisplaced (P : Platform) (g : ChainState) : Prop :=
  forall recovery, g.pendingReorgRecovery = some recovery -> Displaced P recovery

section Recoveries

variable {P : Platform} {D : Block -> Prop} {host : Host} {g : ChainState} {blk : Block}
  {sourcePeer : Option String} {step : Step}

theorem noncesOf_filter (p : Tx -> Bool) (txs : List Tx) (sender : String) :
    (noncesOf (txs.filter p) sender).Sublist (noncesOf txs sender) := by
  unfold noncesOf
  exact ((List.filter_sublist.filter _).map _)

theorem reorgRecovery_displaced (hr : Replays P g) (height : Nat) (segment : List Block) :
    Displaced P (reorgRecovery P (g.blocks.drop height) segment) where
  spent := by
    intro tx htx
    apply replay_spends hr.accountState.replay
    rw [← List.take_append_drop height g.blocks]
    unfold canonicalTxs
    rw [List.flatMap_append]
    exact List.mem_append_right _ (List.mem_filter.mp htx).1
  rising := by
    intro sender
    have hall := hr.nonces sender
    rw [← List.take_append_drop height g.blocks] at hall
    unfold canonicalTxs at hall
    rw [List.flatMap_append, noncesOf_append] at hall
    have hrange := List.pairwise_lt_range (n := (g.accounts.nonceOf sender).toNat)
    rw [← hall] at hrange
    exact (List.pairwise_append.mp hrange).2.1.sublist (noncesOf_filter _ _ sender)
  lost := by
    intro tx htx
    have hout := (List.mem_filter.mp htx).2
    show canonicalTxId P tx ∉ (winningTxIds P segment).toList
    rw [ExtTreeSet.mem_toList]
    intro hmem
    rw [ExtTreeSet.contains_iff_mem.mpr hmem] at hout
    cases hout

theorem Effect.pendingDisplaced (hr : Replays P g) (hp : PendingDisplaced P g)
    (h : Effect P D host g blk sourcePeer step) : PendingDisplaced P step.chain := by
  cases h with
  | rejected _ => exact hp
  | orphaned _ _ _ =>
      rcases addOrphan_frame host.now g blk (sourcePeer.getD "anon") with ⟨pool, byHash, hframe⟩
      rw [hframe]
      exact hp
  | extended _ _ _ _ _ =>
      intro recovery hsome
      cases hsome
  | recorded _ _ _ _ => exact hp
  | moved _ _ =>
      intro recovery hsome
      cases hsome
      exact reorgRecovery_displaced hr _ _

theorem stepInvariant_displaced (P : Platform) (D : Block -> Prop) :
    StepInvariant P D fun _ g => Replays P g ∧ PendingDisplaced P g where
  effect := fun hg _ heffect hpre =>
    ⟨heffect.replays hg hpre.1, heffect.pendingDisplaced hpre.1 hpre.2⟩
  take := fun _ hpre => ⟨hpre.1.congr rfl rfl rfl rfl, hpre.2⟩
  forget := fun _ hpre => ⟨hpre.1.congr rfl rfl rfl rfl, hpre.2⟩

theorem GenesisApplied.pendingDisplaced (h : GenesisApplied P g) : PendingDisplaced P g := by
  rcases h.eq with ⟨db, rfl⟩
  intro recovery hsome
  cases hsome

end Recoveries

/-!
# The order of the candidates
-/

instance : Std.Total Mempool.requeueLe where
  total := by
    intro a b
    unfold Mempool.requeueLe
    rcases Std.lt_trichotomy a.senderPubkey b.senderPubkey with hlt | heq | hgt
    · exact Or.inl (Or.inl hlt)
    · cases UInt64.le_total a.nonce b.nonce with
      | inl hle => exact Or.inl (Or.inr ⟨heq, hle⟩)
      | inr hle => exact Or.inr (Or.inr ⟨heq.symm, hle⟩)
    · exact Or.inr (Or.inl hgt)

instance : IsTrans Tx Mempool.requeueLe where
  trans := by
    rintro a b c (hab | ⟨hab, hle⟩) (hbc | ⟨hbc, hle'⟩)
    · exact Or.inl (Std.lt_trans hab hbc)
    · exact Or.inl (hbc ▸ hab)
    · exact Or.inl (hab ▸ hbc)
    · exact Or.inr ⟨hab.trans hbc, UInt64.le_trans hle hle'⟩

/-- A transaction of a sender comes before the ones with later nonces. -/
def Rising (a b : Tx) : Prop :=
  a.senderPubkey = b.senderPubkey -> a.nonce < b.nonce

section Candidates

variable {P : Platform} {recovery : ReorgRecovery} {tx : Tx}

theorem Displaced.module_eq (h : Displaced P recovery) (htx : tx ∈ recovery.displacedTxs) :
    tx.module = "cash" := by
  rcases h.spent tx htx with ⟨state, args, hspends⟩
  exact hspends.module_eq

theorem Displaced.candidates_eq (h : Displaced P recovery) :
    Mempool.requeueCandidates P recovery = recovery.displacedTxs.insertionSort Mempool.requeueLe := by
  unfold Mempool.requeueCandidates
  congr 1
  apply List.filter_eq_self.mpr
  intro tx htx
  have hmodule := h.module_eq htx
  have hlost := h.lost tx htx
  simp [hmodule, hlost]

theorem Displaced.mem_candidates (h : Displaced P recovery) :
    tx ∈ Mempool.requeueCandidates P recovery ↔ tx ∈ recovery.displacedTxs := by
  rw [h.candidates_eq, List.mem_insertionSort]

theorem Displaced.candidates_rising (h : Displaced P recovery) :
    (Mempool.requeueCandidates P recovery).Pairwise Rising := by
  have hsorted : (Mempool.requeueCandidates P recovery).Pairwise Mempool.requeueLe := by
    rw [h.candidates_eq]
    exact List.pairwise_insertionSort Mempool.requeueLe _
  -- no sender has one nonce twice among the candidates
  have hdistinct : (Mempool.requeueCandidates P recovery).Pairwise fun a b =>
      a.senderPubkey = b.senderPubkey -> a.nonce ≠ b.nonce := by
    rw [h.candidates_eq]
    apply (List.perm_insertionSort Mempool.requeueLe _).symm.pairwise
    · have hrising := h.rising
      generalize recovery.displacedTxs = txs at hrising
      induction txs with
      | nil => exact List.Pairwise.nil
      | cons a rest ih =>
          rw [List.pairwise_cons]
          constructor
          · intro b hb hsender heq
            have hown := hrising a.senderPubkey
            rw [noncesOf_cons, if_pos rfl, List.pairwise_cons] at hown
            have hlt := hown.1 b.nonce.toNat (hsender ▸ mem_noncesOf hb)
            rw [heq] at hlt
            exact Nat.lt_irrefl _ hlt
          · apply ih
            intro sender
            have hown := hrising sender
            rw [noncesOf_cons] at hown
            split at hown
            · exact (List.pairwise_cons.mp hown).2
            · exact hown
    · intro a b hab hsender heq
      exact hab hsender.symm heq.symm
  apply (hsorted.and hdistinct).imp
  rintro a b ⟨hle, hne⟩ hsender
  rcases hle with hlt | ⟨_, hle⟩
  · rw [hsender] at hlt
    exact absurd hlt (String.lt_irrefl _)
  · exact UInt64.lt_of_le_of_ne hle (hne hsender)

end Candidates

/-!
# One sender's transactions
-/

section Senders

variable {P : Platform} {g : ChainState} {pool : Mempool} {tx : Tx} {sender : String}
  {all txs : List Tx}

/-- The pending transactions of a sender. -/
def pendingOf (pool : Mempool) (sender : String) : List Tx :=
  pool.pending.filter fun tx => tx.senderPubkey = sender

/-- The transactions of a sender that the admission window lets in. -/
def windowOf (g : ChainState) (txs : List Tx) (sender : String) : List Tx :=
  txs.filter fun tx => tx.senderPubkey = sender ∧ g.nonceOf sender ≤ tx.nonce ∧
    tx.nonce ≤ saturatingAddU64 (g.nonceOf sender) 1

theorem windowOf_cons (g : ChainState) (tx : Tx) (txs : List Tx) (sender : String) :
    windowOf g (tx :: txs) sender = windowOf g [tx] sender ++ windowOf g txs sender := by
  unfold windowOf
  rw [← List.filter_append]
  rfl

/-- What an admission into a pool with room can do to the pending transactions. -/
structure AdmitEffect (P : Platform) (g : ChainState) (pool after : Mempool) (tx : Tx) : Prop where
  wellFormed : Mempool.WellFormed P after
  size_le : after.byId.size ≤ pool.byId.size + 1
  pending_sub : forall t, t ∈ after.pending -> t ∈ pool.pending ∨ t = tx
  others : forall sender, tx.senderPubkey ≠ sender -> pendingOf after sender = pendingOf pool sender
  own : forall sender, tx.senderPubkey = sender ->
    (forall t, t ∈ pendingOf pool sender -> t.nonce ≠ tx.nonce) ->
    (Mempool.Admits P pool tx (g.nonceOf sender) ∧
        pendingOf after sender = pendingOf pool sender ++ [tx]) ∨
      (¬Mempool.Admits P pool tx (g.nonceOf sender) ∧
        pendingOf after sender = pendingOf pool sender)

theorem admitEffect (h : Mempool.WellFormed P pool) (hroom : pool.byId.size < mempoolMax)
    (g : ChainState) (tx : Tx) :
    AdmitEffect P g pool (pool.admitTx P tx (g.nonceOf tx.senderPubkey)).2 tx := by
  have hafter := h.admitTx tx (g.nonceOf tx.senderPubkey)
  have hcase := Mempool.admit_cases P pool tx (g.nonceOf tx.senderPubkey)
  generalize pool.admitTx P tx (g.nonceOf tx.senderPubkey) = out at hafter hcase
  cases hcase with
  | refused _ hnot =>
      refine ⟨h, Nat.le_succ _, fun t ht => Or.inl ht, fun _ _ => rfl, ?_⟩
      rintro sender rfl _
      exact Or.inr ⟨hnot, rfl⟩
  | accepted hadmits =>
      have hpending : (pool.insertLocked (canonicalTxId P tx) tx).pending = pool.pending ++ [tx] :=
        Mempool.pending_insertLocked h hroom (Mempool.not_mem_byId h hadmits.fresh)
      refine ⟨hafter, Mempool.size_insertLocked_le hroom, ?_, ?_, ?_⟩
      · intro t ht
        rw [hpending, List.mem_append, List.mem_singleton] at ht
        exact ht
      · intro sender hother
        unfold pendingOf
        rw [hpending, List.filter_append, List.filter_cons_of_neg (by simpa using hother),
          List.filter_nil, List.append_nil]
      · rintro sender rfl _
        refine Or.inl ⟨hadmits, ?_⟩
        unfold pendingOf
        rw [hpending, List.filter_append, List.filter_cons_of_pos (by simp), List.filter_nil]
  | @replaced existing hvalid hfresh hexisting hsender hnonce =>
      have hevicted := h.evict (canonicalTxId P existing)
      have hsmaller : (pool.evict (canonicalTxId P existing)).byId.size ≤ pool.byId.size :=
        ExtTreeMap.size_erase_le
      have hroom' : (pool.evict (canonicalTxId P existing)).byId.size < mempoolMax := by omega
      have hpending :
          ((pool.evict (canonicalTxId P existing)).insertLocked (canonicalTxId P tx) tx).pending =
            (pool.evict (canonicalTxId P existing)).pending ++ [tx] :=
        Mempool.pending_insertLocked hevicted hroom'
          (Mempool.evict_fresh (Mempool.not_mem_byId h hfresh) _)
      rw [Mempool.pending_evict h] at hpending
      refine ⟨hafter, ?_, ?_, ?_, ?_⟩
      · apply Nat.le_trans (Mempool.size_insertLocked_le hroom')
        exact Nat.succ_le_succ hsmaller
      · intro t ht
        rw [hpending, List.mem_append, List.mem_singleton] at ht
        exact ht.imp_left fun ht => (List.mem_filter.mp ht).1
      · intro sender hother
        unfold pendingOf
        rw [hpending, List.filter_append, List.filter_cons_of_neg (by simpa using hother),
          List.filter_nil, List.append_nil, List.filter_filter]
        apply List.filter_congr
        intro t ht
        by_cases hown : t.senderPubkey = sender
        · have hne : canonicalTxId P t ≠ canonicalTxId P existing := by
            intro hid
            have hslot := (Mempool.mem_pending h).mp ht
            rw [hid, (Mempool.mem_pending h).mp hexisting] at hslot
            apply hother
            rw [← hsender, Option.some.inj hslot, hown]
          simp [hown, hne]
        · simp [hown]
      · rintro sender rfl hfree
        refine absurd hnonce (hfree existing ?_)
        exact List.mem_filter.mpr ⟨hexisting, by simpa using hsender⟩

/-- The candidates extend a sender's pending transactions by those in the window. -/
theorem requeue_pendingOf (hvalid : forall t, t ∈ txs -> validateTxStateless P t = .ok ())
    (hrising : txs.Pairwise Rising) (hbind : IdsBind P all)
    (hshort : forall t, t ∈ all -> byteLen t.senderPubkey < u64Bound)
    (htxs : forall t, t ∈ txs -> t ∈ all) {report : ReorgRequeueReport}
    (h : Mempool.WellFormed P pool) (hpool : forall t, t ∈ pool.pending -> t ∈ all)
    (hroom : pool.byId.size + txs.length ≤ mempoolMax)
    (hbefore : forall a, a ∈ pendingOf pool sender -> forall b, b ∈ txs -> Rising a b) :
    pendingOf (txs.foldl (Mempool.requeueStep P g) (report, pool)).2 sender =
      pendingOf pool sender ++ windowOf g txs sender := by
  induction txs generalizing report pool with
  | nil => simp [windowOf]
  | cons tx rest ih =>
      rw [List.length_cons] at hroom
      rw [List.pairwise_cons] at hrising
      have heffect := admitEffect h (by omega) g tx
      have hpoolAfter := Mempool.requeueStep_pool (P := P) g report pool tx
      generalize hstep : Mempool.requeueStep P g (report, pool) tx = next at hpoolAfter
      rcases next with ⟨report', after⟩
      dsimp only at hpoolAfter
      rw [← hpoolAfter] at heffect
      have hin : tx ∈ all := htxs tx List.mem_cons_self
      have hown : pendingOf after sender = pendingOf pool sender ++ windowOf g [tx] sender := by
        by_cases hsender : tx.senderPubkey = sender
        · have hfree : forall t, t ∈ pendingOf pool sender -> t.nonce ≠ tx.nonce := by
            intro t ht heq
            have hlt := hbefore t ht tx List.mem_cons_self
              ((of_decide_eq_true (List.mem_filter.mp ht).2).trans hsender.symm)
            rw [heq] at hlt
            exact absurd hlt (UInt64.lt_irrefl _)
          have hwindow : Mempool.Admits P pool tx (g.nonceOf sender) ↔
              g.nonceOf sender ≤ tx.nonce ∧
                tx.nonce ≤ saturatingAddU64 (g.nonceOf sender) 1 := by
            constructor
            · intro hadmits
              exact ⟨hadmits.not_stale, hadmits.no_gap⟩
            · rintro ⟨hlow, hhigh⟩
              constructor
              · exact hvalid tx List.mem_cons_self
              · intro t ht hid
                have hpayload := hbind.payload_eq (hpool t ht) hin hid
                rcases canonicalUnsignedPayload_inj (hshort t (hpool t ht)) (hshort tx hin)
                  hpayload with ⟨hnonce, hkey⟩
                refine hfree t (List.mem_filter.mpr ⟨ht, ?_⟩) hnonce
                exact decide_eq_true (hkey.trans hsender)
              · exact hlow
              · exact hhigh
              · intro t ht hkey hnonce
                refine hfree t (List.mem_filter.mpr ⟨ht, ?_⟩) hnonce
                exact decide_eq_true (hkey.trans hsender)
          rcases heffect.own sender hsender hfree with ⟨hadmits, heq⟩ | ⟨hnot, heq⟩
          · rw [heq]
            unfold windowOf
            rw [List.filter_cons_of_pos (by simpa [hsender] using hwindow.mp hadmits),
              List.filter_nil]
          · rw [heq]
            unfold windowOf
            rw [List.filter_cons_of_neg (by simpa [hsender] using mt hwindow.mpr hnot),
              List.filter_nil, List.append_nil]
        · rw [heffect.others sender hsender]
          unfold windowOf
          rw [List.filter_cons_of_neg (by simp [hsender]), List.filter_nil, List.append_nil]
      rw [List.foldl_cons, hstep, windowOf_cons, ← List.append_assoc, ← hown]
      apply ih
      · exact fun t ht => hvalid t (List.mem_cons_of_mem _ ht)
      · exact hrising.2
      · exact fun t ht => htxs t (List.mem_cons_of_mem _ ht)
      · exact heffect.wellFormed
      · intro t ht
        cases heffect.pending_sub t ht with
        | inl hold => exact hpool t hold
        | inr heq => exact heq ▸ hin
      · have hsize := heffect.size_le
        omega
      · intro a ha b hb
        rw [hown, List.mem_append] at ha
        cases ha with
        | inl hold => exact hbefore a hold b (List.mem_cons_of_mem _ hb)
        | inr hnew =>
            have heq := List.mem_singleton.mp (List.mem_filter.mp hnew).1
            rw [heq]
            exact hrising.1 b hb

end Senders

/-!
# Runs of displaced transactions
-/

/-- A run of displaced transactions of a sender from nonce `n` on.  All displaced
transactions are valid transfers that the winning branch does not contain. -/
def DisplacedRun (recovery : ReorgRecovery) (sender : String) (n : UInt64) (txs : List Tx) :
    Prop :=
  forall i tx, txs[i]? = some tx ->
    tx ∈ recovery.displacedTxs ∧ tx.senderPubkey = sender ∧ tx.nonce.toNat = n.toNat + i

/-- All of the run is pending, and the sender's pending nonces increase. -/
def RunPending (pool : Mempool) (sender : String) (txs : List Tx) : Prop :=
  (forall tx, tx ∈ txs -> tx ∈ pool.pending) ∧ (noncesOf pool.pending sender).Pairwise (· < ·)

section Runs

variable {P : Platform} {D : Block -> Prop} {s g : ChainState} {calls : List Call}
  {pool : Mempool} {recovery : ReorgRecovery} {sender : String} {txs : List Tx}

theorem saturatingAddU64_one_toNat (n : UInt64) :
    (saturatingAddU64 n 1).toNat = min (n.toNat + 1) (u64Bound - 1) := by
  have hone : (1 : UInt64).toNat = 1 := rfl
  have hlt := n.toNat_lt
  have hbound : u64Bound = 2 ^ 64 := rfl
  unfold saturatingAddU64
  split
  · rename_i hfits
    rw [addU64_toNat hfits]
    omega
  · rename_i hfull
    have htop : (UInt64.ofNat (u64Bound - 1)).toNat = u64Bound - 1 := rfl
    rw [htop]
    omega

theorem noncesOf_pending (pool : Mempool) (sender : String) :
    noncesOf pool.pending sender = (pendingOf pool sender).map fun tx => tx.nonce.toNat := rfl

theorem mem_pendingOf {tx : Tx} :
    tx ∈ pendingOf pool sender ↔ tx ∈ pool.pending ∧ tx.senderPubkey = sender := by
  unfold pendingOf
  rw [List.mem_filter, decide_eq_true_iff]

/-- The sender's pending transactions after the requeue. -/
theorem requeue_window (hr : Displaced P recovery) (hpool : Mempool.WellFormed P pool)
    (hbind : IdsBind P (pool.pending ++ recovery.displacedTxs))
    (hfree : pool.byId.size + recovery.displacedTxs.length ≤ mempoolMax)
    (hnone : forall tx, tx ∈ pool.pending -> tx.senderPubkey ≠ sender) :
    pendingOf (pool.requeueAfterReorg P g recovery).2 sender =
      windowOf g (Mempool.requeueCandidates P recovery) sender := by
  have hstart := hpool.removeConfirmed recovery.winningTxIds
  have hempty : pendingOf (pool.removeConfirmed recovery.winningTxIds) sender = [] := by
    apply List.filter_eq_nil_iff.mpr
    intro tx htx
    have hne := hnone tx (Mempool.pending_removeConfirmed hpool _ htx)
    simpa using hne
  have hshort : forall t, t ∈ pool.pending ++ recovery.displacedTxs ->
      byteLen t.senderPubkey < u64Bound := by
    intro t ht
    cases List.mem_append.mp ht with
    | inl hpending => exact hpool.short ((Mempool.mem_pending hpool).mp hpending)
    | inr hdisplaced =>
        rcases hr.spent t hdisplaced with ⟨state, args, hspends⟩
        exact hspends.sender_length_lt
  unfold Mempool.requeueAfterReorg
  rw [requeue_pendingOf _ hr.candidates_rising hbind hshort _ hstart, hempty,
    List.nil_append]
  · intro t ht
    exact List.mem_append_left _ (Mempool.pending_removeConfirmed hpool _ ht)
  · have hsize := Mempool.size_removeConfirmed_le pool recovery.winningTxIds
    rw [hr.candidates_eq, List.length_insertionSort]
    omega
  · intro a ha
    rw [hempty] at ha
    cases ha
  · intro t ht
    rcases hr.spent t (hr.mem_candidates.mp ht) with ⟨state, args, hspends⟩
    exact hspends.valid
  · intro t ht
    exact List.mem_append_right _ (hr.mem_candidates.mp ht)

/-- A run of displaced transactions comes back whole if and only if it has at most
two transactions. -/
theorem requeuedRun_iff (hnumbered : NumberedFrom P D) (hgenesis : GenesisApplied P s)
    (hcalls : forall call, call ∈ calls -> D call.blk) (hrun : applyAll P s calls = .ok g)
    (hrecovery : g.pendingReorgRecovery = some recovery) (hpool : Mempool.Reached P pool)
    (hbind : IdsBind P (pool.pending ++ recovery.displacedTxs))
    (hfree : pool.byId.size + recovery.displacedTxs.length ≤ mempoolMax)
    (hnone : forall tx, tx ∈ pool.pending -> tx.senderPubkey ≠ sender)
    (htxs : DisplacedRun recovery sender (g.nonceOf sender) txs) :
    RunPending (pool.requeueAfterReorg P g recovery).2 sender txs ↔ txs.length ≤ 2 := by
  have hreached := (stepInvariant_displaced P D).applyAll
    (J := fun g => Replays P g ∧ PendingDisplaced P g) hnumbered hgenesis.represents
    ⟨hgenesis.replays, hgenesis.pendingDisplaced⟩ hcalls hrun
  have hr := hreached.2.2 recovery hrecovery
  have hwindow := requeue_window (g := g) hr hpool.wellFormed hbind hfree hnone
  have hhigh := saturatingAddU64_one_toNat (g.nonceOf sender)
  constructor
  · -- the third transaction of the run lies behind the window
    intro hpending
    by_contra hlong
    have hthird : txs[2]? = some txs[2] := List.getElem?_eq_getElem (by omega)
    rcases htxs 2 _ hthird with ⟨_, hsender, hnonce⟩
    have hmem := mem_pendingOf.mpr
      ⟨hpending.1 _ (List.mem_of_getElem? hthird), hsender⟩
    rw [hwindow] at hmem
    have hin := of_decide_eq_true (List.mem_filter.mp hmem).2
    have hle := UInt64.le_iff_toNat_le.mp hin.2.2
    omega
  · intro hshort
    constructor
    · intro tx htx
      rcases List.mem_iff_getElem?.mp htx with ⟨i, hi⟩
      rcases htxs i tx hi with ⟨hdisplaced, hsender, hnonce⟩
      have hlt := (List.getElem?_eq_some_iff.mp hi).1
      have hbound := tx.nonce.toNat_lt
      have hmem : tx ∈ pendingOf (pool.requeueAfterReorg P g recovery).2 sender := by
        rw [hwindow]
        apply List.mem_filter.mpr
        refine ⟨hr.mem_candidates.mpr hdisplaced, decide_eq_true ⟨hsender, ?_, ?_⟩⟩
        · rw [UInt64.le_iff_toNat_le]
          omega
        · have hmax : u64Bound = 2 ^ 64 := rfl
          rw [UInt64.le_iff_toNat_le]
          omega
      exact (mem_pendingOf.mp hmem).1
    · rw [noncesOf_pending, hwindow, List.pairwise_map]
      have hrising := hr.candidates_rising.sublist
        (List.filter_sublist (p := fun tx : Tx => decide (tx.senderPubkey = sender ∧
          g.nonceOf sender ≤ tx.nonce ∧ tx.nonce ≤ saturatingAddU64 (g.nonceOf sender) 1)))
      apply hrising.imp_of_mem
      intro a b ha hb hab
      have hfirst := of_decide_eq_true (List.mem_filter.mp ha).2
      have hsecond := of_decide_eq_true (List.mem_filter.mp hb).2
      exact UInt64.lt_iff_toNat_lt.mp (hab (hfirst.1.trans hsecond.1.symm))

/-!
# A run of three
-/

def minerTransfer (nonce : UInt64) : Tx :=
  { sampleTransfer sampleMiner with nonce := nonce }

/-- A block with three transfers of the miner of the first block. -/
def tripleBlock : Block :=
  sealBlock samplePlatform (stateAfter samplePlatform .new firstBlock)
    (sampleDraft firstBlock.hash 2 200 5 [minerTransfer 0, minerTransfer 1, minerTransfer 2])

def tripleBlocks : List Block :=
  [firstBlock, tripleBlock, rivalFirst, rivalSecond, rivalThird]

theorem tripleBlocks_numbered : NumberedFrom samplePlatform fun blk => blk ∈ tripleBlocks :=
  numberedFrom_of_list (by decide +kernel)

theorem tripleCalls_delivered :
    forall call, call ∈ tripleBlocks.map sampleCall -> call.blk ∈ tripleBlocks := by
  intro call hcall
  rcases List.mem_map.mp hcall with ⟨blk, hblk, rfl⟩
  exact hblk

/-- The rival branch displaces the three transfers, and two of them come back. -/
theorem tripleRun_values :
    ((applyAll samplePlatform sampleGenesis (tripleBlocks.map sampleCall)).toOption.bind fun g =>
      g.pendingReorgRecovery.map fun recovery =>
        (recovery.displacedTxs, g.nonceOf sampleMiner,
          (Mempool.empty.requeueAfterReorg samplePlatform g recovery).2.pending)) =
      some ([minerTransfer 0, minerTransfer 1, minerTransfer 2], 0,
        [minerTransfer 0, minerTransfer 1]) := by
  decide +kernel

theorem tripleRun : exists g recovery,
    applyAll samplePlatform sampleGenesis (tripleBlocks.map sampleCall) = .ok g ∧
      g.pendingReorgRecovery = some recovery ∧
      recovery.displacedTxs = [minerTransfer 0, minerTransfer 1, minerTransfer 2] ∧
      g.nonceOf sampleMiner = 0 ∧
      (Mempool.empty.requeueAfterReorg samplePlatform g recovery).2.pending =
        [minerTransfer 0, minerTransfer 1] := by
  rcases Option.bind_eq_some_iff.mp tripleRun_values with ⟨g, hrun, hvalues⟩
  rcases Option.map_eq_some_iff.mp hvalues with ⟨recovery, hrecovery, heq⟩
  rw [Prod.mk.injEq, Prod.mk.injEq] at heq
  exact ⟨g, recovery, toOption_eq_some.mp hrun, hrecovery, heq.1, heq.2.1, heq.2.2⟩

theorem tripleRun_displaced {recovery : ReorgRecovery}
    (h : recovery.displacedTxs = [minerTransfer 0, minerTransfer 1, minerTransfer 2]) (k : Nat) :
    DisplacedRun recovery sampleMiner 0
      ([minerTransfer 0, minerTransfer 1, minerTransfer 2].take k) := by
  intro i tx hi
  rw [List.getElem?_take] at hi
  split at hi
  · have hmem := List.mem_of_getElem? hi
    rw [h]
    refine ⟨hmem, ?_, ?_⟩
    · rcases i with _ | _ | _ | i <;> simp at hi <;> rw [← hi] <;> rfl
    · rcases i with _ | _ | _ | i <;> simp at hi <;> rw [← hi] <;> rfl
  · cases hi

/-- Three displaced transfers of one sender, an empty pool: the third is lost. -/
theorem requeuedRun_loses_third : exists g recovery,
    GenesisApplied samplePlatform sampleGenesis ∧
      applyAll samplePlatform sampleGenesis (tripleBlocks.map sampleCall) = .ok g ∧
      g.pendingReorgRecovery = some recovery ∧
      DisplacedRun recovery sampleMiner (g.nonceOf sampleMiner)
        [minerTransfer 0, minerTransfer 1, minerTransfer 2] ∧
      ¬RunPending (Mempool.empty.requeueAfterReorg samplePlatform g recovery).2 sampleMiner
        [minerTransfer 0, minerTransfer 1, minerTransfer 2] := by
  rcases tripleRun with ⟨g, recovery, hrun, hrecovery, hdisplaced, hnonce, hpending⟩
  refine ⟨g, recovery, sampleGenesis_applied, hrun, hrecovery, ?_, ?_⟩
  · rw [hnonce]
    exact tripleRun_displaced hdisplaced 3
  · intro hall
    have hthird := hall.1 (minerTransfer 2) (by simp)
    rw [hpending] at hthird
    exact absurd hthird (by decide)

theorem tripleTxs_idsBind :
    IdsBind samplePlatform [minerTransfer 0, minerTransfer 1, minerTransfer 2] := by
  have hall : forall tx, tx ∈ [minerTransfer 0, minerTransfer 1, minerTransfer 2] ->
      forall tx', tx' ∈ [minerTransfer 0, minerTransfer 1, minerTransfer 2] ->
        samplePlatform.blake3 (canonicalUnsignedPayload tx) =
            samplePlatform.blake3 (canonicalUnsignedPayload tx') ->
          canonicalUnsignedPayload tx = canonicalUnsignedPayload tx' := by
    decide +kernel
  exact fun tx tx' htx htx' => hall tx htx tx' htx'

/-- The first two of the three come back. -/
theorem requeuedRun_two : exists g recovery,
    applyAll samplePlatform sampleGenesis (tripleBlocks.map sampleCall) = .ok g ∧
      RunPending (Mempool.empty.requeueAfterReorg samplePlatform g recovery).2 sampleMiner
        [minerTransfer 0, minerTransfer 1] := by
  rcases tripleRun with ⟨g, recovery, hrun, hrecovery, hdisplaced, hnonce, _⟩
  refine ⟨g, recovery, hrun, ?_⟩
  apply (requeuedRun_iff tripleBlocks_numbered sampleGenesis_applied tripleCalls_delivered hrun
    hrecovery Mempool.Reached.empty _ _ _ _).mpr
  · decide
  · rw [hdisplaced]
    exact tripleTxs_idsBind
  · rw [hdisplaced]
    decide
  · intro tx htx
    cases htx
  · rw [hnonce]
    exact tripleRun_displaced hdisplaced 2

end Runs

end VisionCore
