import VisionCore.Chain.Outcome
import VisionCore.Chain.Sample
import VisionCore.Chain.Supply

/-!
# The alpha airdrop

A development node credits an account outside of any block.  The credit is part of the
live account state, so the node leaves the network's chain with it.
-/

namespace VisionCore

open Std
open Foundation

/-- Credit an account, saturating at the bound of a `u128`. -/
def ChainState.creditBalance (g : ChainState) (address : String) (amount : Nat) : ChainState :=
  { g with
    balances := g.balances.insert address
      (min ((g.balances[address]?).getD 0 + amount) (u128Bound - 1)) }

inductive AlphaAirdropError where
  | disabled
  | invalidAddress
  | zeroAmount
  | stateRootComputationFailed
  | snapshotPersistenceFailed
deriving DecidableEq, Repr

structure AlphaAirdropSnapshot where
  status : String
  scope : String
  address : String
  amount : Nat
  balance : Nat
  canonicalTipHeight : UInt64
  cachedStateRoot : String
deriving DecidableEq, Repr

/-- The entry of an account, or its absence. -/
def putBalance (balances : ExtTreeMap String Nat) (address : String) :
    Option Nat -> ExtTreeMap String Nat
  | some balance => balances.insert address balance
  | none => balances.erase address

/-- Put the balance and the cached root back. -/
def undoAirdrop (g : ChainState) (address : String) (previousBalance : Option Nat)
    (previousCachedStateRoot : Option (UInt64 × String)) : ChainState :=
  { g with
    balances := putBalance g.balances address previousBalance
    cachedStateRoot := previousCachedStateRoot }

def alphaAirdrop (P : Platform) (host : Host) (alphaAirdropEnabled : Bool) (g : ChainState)
    (address : String) (amount : Nat) :
    Except AlphaAirdropError AlphaAirdropSnapshot × ChainState × Host :=
  if alphaAirdropEnabled = false then (.error .disabled, g, host)
  else if ¬IsAccountKey address then (.error .invalidAddress, g, host)
  else if amount = 0 then (.error .zeroAmount, g, host)
  else
    let previousBalance := g.balances[address]?
    let previousCachedStateRoot := g.cachedStateRoot
    let credited := g.creditBalance address amount
    let height := credited.currentHeight
    match computeStateRoot P credited.balances credited.nonces with
    | .error _ =>
        (.error .stateRootComputationFailed,
          undoAirdrop credited address previousBalance previousCachedStateRoot, host)
    | .ok stateRoot =>
        let rooted := { credited with cachedStateRoot := some (height, stateRoot) }
        match saveSnapshot P host rooted height with
        | (.error _, db, host) =>
            (.error .snapshotPersistenceFailed,
              undoAirdrop { rooted with db := db } address previousBalance
                previousCachedStateRoot, host)
        | (.ok (), db, host) =>
            (.ok
              { status := "accepted"
                scope := "alpha_dev_only"
                address := address
                amount := amount
                balance := (rooted.balances[address]?).getD 0
                canonicalTipHeight := height
                cachedStateRoot := stateRoot }, { rooted with db := db }, host)

/-!
# An airdrop that fails
-/

section Failure

variable {P : Platform} {host host' : Host} {enabled : Bool} {g g' : ChainState}
  {address : String} {amount : Nat}

theorem putBalance_insert (balances : ExtTreeMap String Nat) (address : String) (value : Nat) :
    putBalance (balances.insert address value) address balances[address]? = balances := by
  apply ExtTreeMap.ext_getElem?
  intro key
  cases hprevious : balances[address]? with
  | none =>
      unfold putBalance
      dsimp only
      rw [getElem?_erase_ite, getElem?_insert_ite]
      by_cases hkey : address = key
      · rw [if_pos hkey, ← hkey, hprevious]
      · rw [if_neg hkey, if_neg hkey]
  | some balance =>
      unfold putBalance
      dsimp only
      rw [getElem?_insert_ite, getElem?_insert_ite]
      by_cases hkey : address = key
      · rw [if_pos hkey, ← hkey, hprevious]
      · rw [if_neg hkey, if_neg hkey]

theorem undo_credit (g : ChainState) (address : String) (amount : Nat)
    (cached : Option (UInt64 × String)) (db : Db) :
    undoAirdrop { g.creditBalance address amount with cachedStateRoot := cached, db := db } address
      g.balances[address]? g.cachedStateRoot = { g with db := db } := by
  unfold undoAirdrop ChainState.creditBalance
  dsimp only
  rw [putBalance_insert]

/-- The keys of the snapshot at a height. -/
def snapshotKeys (height : UInt64) : List DbKey :=
  [.snapBalances height, .snapNonces height, .snapshot height, .snapshotStateRoot height]

theorem saveSnapshot_get {height : UInt64} {result : Except SnapshotError Unit} {db : Db}
    (h : saveSnapshot P host g height = (result, db, host')) {key : DbKey}
    (hkey : key ∉ snapshotKeys height) : db.get key = g.db.get key := by
  unfold saveSnapshot at h
  split at h
  · cases h
    rfl
  · rename_i stateRoot hroot
    have hother : forall op, op ∈ snapshotEntries g height stateRoot -> op.key ≠ key := by
      intro op hop heq
      apply hkey
      rw [← heq]
      simp only [snapshotEntries, List.mem_cons, List.not_mem_nil, or_false] at hop
      rcases hop with rfl | rfl | rfl | rfl
      · simp [snapshotKeys, DbOp.key]
      · simp [snapshotKeys, DbOp.key]
      · simp [snapshotKeys, DbOp.key]
      · simp [snapshotKeys, DbOp.key]
    have hwritten := writeSequence_get host g.db _ hother
    split at h
    · rename_i hsequence
      rw [hsequence] at hwritten
      cases h
      exact hwritten
    · rename_i hsequence
      rw [hsequence] at hwritten
      cases h
      exact hwritten

/-- What an airdrop leaves behind. -/
inductive AirdropCase (P : Platform) (host : Host) (g : ChainState) (address : String)
    (amount : Nat) : Except AlphaAirdropError AlphaAirdropSnapshot × ChainState × Host -> Prop where
  | refused (e : AlphaAirdropError) (he : e ≠ .snapshotPersistenceFailed) :
      AirdropCase P host g address amount (.error e, g, host)
  | unsaved (db : Db) (host' : Host)
      (hother : forall key, key ∉ snapshotKeys g.currentHeight -> db.get key = g.db.get key) :
      AirdropCase P host g address amount
        (.error .snapshotPersistenceFailed, { g with db := db }, host')
  | credited (snapshot : AlphaAirdropSnapshot) (db : Db) (host' : Host)
      (haddress : IsAccountKey address) (hamount : amount ≠ 0)
      (hroot : computeStateRoot P (g.creditBalance address amount).balances g.nonces =
        .ok snapshot.cachedStateRoot)
      (hsaved : saveSnapshot P host
        { g.creditBalance address amount with
          cachedStateRoot := some (g.currentHeight, snapshot.cachedStateRoot) } g.currentHeight =
        (.ok (), db, host')) :
      AirdropCase P host g address amount
        (.ok snapshot,
          { g.creditBalance address amount with
            cachedStateRoot := some (g.currentHeight, snapshot.cachedStateRoot), db := db }, host')

theorem alphaAirdrop_case (P : Platform) (host : Host) (enabled : Bool) (g : ChainState)
    (address : String) (amount : Nat) :
    AirdropCase P host g address amount (alphaAirdrop P host enabled g address amount) := by
  have hundo := undo_credit g address amount
  unfold alphaAirdrop
  split
  · exact AirdropCase.refused _ (by decide)
  split
  · exact AirdropCase.refused _ (by decide)
  split
  · exact AirdropCase.refused _ (by decide)
  rename_i haddress hamount
  dsimp only
  split
  · have hback := hundo g.cachedStateRoot g.db
    exact hback ▸ AirdropCase.refused _ (by decide)
  · rename_i stateRoot hroot
    split
    · rename_i e db host' hsave
      have hback := hundo (some (g.currentHeight, stateRoot)) db
      exact hback ▸ AirdropCase.unsaved db host' fun key hkey => saveSnapshot_get hsave hkey
    · rename_i db host' hsave
      exact AirdropCase.credited _ db host' (not_not.mp haddress) hamount hroot hsave

/-- An airdrop that fails at any point leaves the chain in memory as it was, and on disk
nothing but parts of the snapshot of the current height. -/
theorem failedAirdrop_undone {e : AlphaAirdropError}
    (h : alphaAirdrop P host enabled g address amount = (.error e, g', host')) :
    g' = { g with db := g'.db } ∧
      (forall key, key ∉ snapshotKeys g.currentHeight -> g'.db.get key = g.db.get key) ∧
      (e ≠ .snapshotPersistenceFailed -> g' = g) := by
  have hcase := alphaAirdrop_case P host enabled g address amount
  rw [h] at hcase
  cases hcase with
  | refused _ _ => exact ⟨rfl, fun _ _ => rfl, fun _ => rfl⟩
  | unsaved db _ hother => exact ⟨rfl, hother, fun he => absurd rfl he⟩

/-- A host that stops writing after the balances of a snapshot. -/
def stoppingHost : Host :=
  { sampleHost with writeOk := fun write => write == 0 }

theorem failedAirdrop_undone_stopping : exists g' host',
    alphaAirdrop samplePlatform stoppingHost true sampleGenesis samplePayee 5 =
        (.error .snapshotPersistenceFailed, g', host') ∧
      g' = { sampleGenesis with db := g'.db } := by
  have hresult : (alphaAirdrop samplePlatform stoppingHost true sampleGenesis samplePayee 5).1 =
      .error .snapshotPersistenceFailed := by
    decide +kernel
  have hrun := Prod.ext (y := (_, _)) hresult rfl
  exact ⟨_, _, hrun, (failedAirdrop_undone hrun).1⟩

end Failure

/-!
# An airdrop that succeeds
-/

section Success

variable {P : Platform} {host host' : Host} {enabled : Bool} {g g' : ChainState}
  {address : String} {amount : Nat} {snapshot : AlphaAirdropSnapshot}

theorem supply_credit (hroom : (g.balances[address]?).getD 0 < u128Bound - 1)
    (hamount : amount ≠ 0) :
    supply g.accounts < supply (g.creditBalance address amount).accounts := by
  have hinsert := mapSum_insert_balance g.balances address
    (min ((g.balances[address]?).getD 0 + amount) (u128Bound - 1))
  unfold supply ChainState.accounts ChainState.creditBalance
  dsimp only
  omega

theorem SameAccounts.supply_eq {state state' : TxExecutionState} (h : SameAccounts state state') :
    supply state = supply state' :=
  h.balances.mapSum_eq rfl

/-- An airdrop raises the supply and leaves the blocks alone. -/
theorem alphaAirdrop_credits
    (h : alphaAirdrop P host enabled g address amount = (.ok snapshot, g', host'))
    (hroom : (g.balances[address]?).getD 0 < u128Bound - 1) :
    supply g.accounts < supply g'.accounts ∧ g'.blocks = g.blocks ∧
      g'.canonIndex = g.canonIndex ∧ g'.sideBlocks = g.sideBlocks := by
  have hcase := alphaAirdrop_case P host enabled g address amount
  rw [h] at hcase
  cases hcase with
  | credited _ db _ haddress hamount hroot hsaved =>
      exact ⟨supply_credit hroom hamount, rfl, rfl, rfl⟩

theorem executeCandidate_replays {blk : Block} {before after : TxExecutionState}
    (h : executeCandidate P blk before = .ok after) :
    replayBlock P before blk = .ok after ∧
      computeStateRoot P after.balances after.nonces = .ok blk.header.stateRoot := by
  unfold executeCandidate at h
  unfold replayBlock
  split at h
  · cases h
  · rename_i executed hexecuted
    rcases bind_eq_ok.mp h with ⟨credited, hcredited, hroot⟩
    split at hroot
    · cases hroot
    · rename_i computed hcomputed
      split at hroot
      · cases hroot
      · rename_i heq
        cases hroot
        exact ⟨mapErr_eq_ok.mpr (mapErr_eq_ok.mp hcredited), by rw [hcomputed, not_not.mp heq]⟩

/-- A block that has extended the tip was executed on the live accounts. -/
theorem extension_executes {blk : Block} {sourcePeer : Option String} {out : Applied}
    {height : UInt64} (hrun : applyBlock P host g blk sourcePeer = .ok out)
    (hresult : out.result = .canonExtension height) (hblocks : g.blocks ≠ [])
    (hparent : blk.header.parentHash = g.tipHash) :
    ParentKnown g blk ∧ exists after, replayBlock P g.accounts blk = .ok after ∧
      computeStateRoot P after.balances after.nonces = .ok blk.header.stateRoot := by
  rcases applyBlock_first hrun with ⟨step, hstep, hfirst, _⟩
  rw [hfirst] at hresult
  have htransition := acceptBlock_transition hstep
  cases htransition with
  | rejected _ => cases hresult
  | genesis _ _ hempty _ _ => exact absurd hempty hblocks
  | orphaned _ _ _ => cases hresult
  | extended hvetted _ _ _ =>
      rcases validateAgainstParent_ok hvetted.valid with ⟨parent, _, hvalid⟩
      rcases hvalid.executes with ⟨before, hbefore, hexecutes⟩
      have hlive : parentStateOf P g blk.header.parentHash = .ok g.accounts :=
        parentStateOf_tip hparent rfl rfl
      rw [hlive] at hbefore
      cases hbefore
      exact ⟨hvetted.parent, _, executeCandidate_replays hexecutes⟩
  | recorded _ hother _ _ => exact absurd hparent hother
  | aborted _ hother _ _ _ => exact absurd hparent hother
  | reorganised _ hother _ _ _ _ _ _ => exact absurd hparent hother

/-- A child of the tip extends it or is turned away. -/
theorem tipChild_result {blk : Block} {sourcePeer : Option String} {out : Applied}
    (hrun : applyBlock P host g blk sourcePeer = .ok out) (hknown : ParentKnown g blk)
    (hparent : blk.header.parentHash = g.tipHash) :
    (exists height, out.result = .canonExtension height) ∨
      exists reason, out.result = .rejected reason := by
  rcases applyBlock_first hrun with ⟨step, hstep, hfirst, _⟩
  rw [hfirst]
  have htransition := acceptBlock_transition hstep
  cases htransition with
  | rejected _ => exact Or.inr ⟨_, rfl⟩
  | genesis _ _ _ _ _ => exact Or.inl ⟨_, rfl⟩
  | orphaned _ hunknown _ => exact absurd hknown hunknown
  | extended _ _ _ _ => exact Or.inl ⟨_, rfl⟩
  | recorded _ hother _ _ => exact absurd hparent hother
  | aborted _ hother _ _ _ => exact absurd hparent hother
  | reorganised _ hother _ _ _ _ _ _ => exact absurd hparent hother

/-- The state root tells the accounts apart, unless they are the same. -/
def ToldApart (P : Platform) (state state' : TxExecutionState) : Prop :=
  forall root, computeStateRoot P state.balances state.nonces = .ok root ->
    computeStateRoot P state'.balances state'.nonces = .ok root -> SameAccounts state state'

/-- A block leads from accounts of different supplies to accounts of different roots. -/
theorem replays_differ {blk : Block} {before before' after after' : TxExecutionState}
    {root : String} (hsupply : supply before ≠ supply before')
    (hafter : replayBlock P before blk = .ok after)
    (hafter' : replayBlock P before' blk = .ok after') (hapart : ToldApart P after after')
    (hroot : computeStateRoot P after.balances after.nonces = .ok root) :
    computeStateRoot P after'.balances after'.nonces ≠ .ok root := by
  intro hroot'
  have hsame := (hapart root hroot hroot').supply_eq
  have hleft := replayBlock_supply hafter
  have hright := replayBlock_supply hafter'
  omega

/-- An airdrop splits the node off: every block with which another node extends the tip they
share is rejected by the node with the airdrop, and the other way round. -/
theorem airdrop_splits {blk : Block} {host₁ host₂ : Host} {peer₁ peer₂ : Option String}
    {out₁ out₂ : Applied}
    (h : alphaAirdrop P host enabled g address amount = (.ok snapshot, g', host'))
    (hroom : (g.balances[address]?).getD 0 < u128Bound - 1) (hblocks : g.blocks ≠ [])
    (hapart : forall after after', replayBlock P g.accounts blk = .ok after ->
      replayBlock P g'.accounts blk = .ok after' -> ToldApart P after after')
    (hparent : blk.header.parentHash = g.tipHash)
    (hwithout : applyBlock P host₁ g blk peer₁ = .ok out₁)
    (hwith : applyBlock P host₂ g' blk peer₂ = .ok out₂) :
    (forall height, out₁.result = .canonExtension height ->
        exists reason, out₂.result = .rejected reason) ∧
      (forall height, out₂.result = .canonExtension height ->
        exists reason, out₁.result = .rejected reason) := by
  rcases alphaAirdrop_credits h hroom with ⟨hsupply, hsame, hindex, hside⟩
  have hblocks' : g'.blocks ≠ [] := by rw [hsame]; exact hblocks
  have htip : g'.tipHash = g.tipHash := by unfold ChainState.tipHash; rw [hsame]
  have hparent' : blk.header.parentHash = g'.tipHash := hparent.trans htip.symm
  have hknown : ParentKnown g' blk ↔ ParentKnown g blk := by
    unfold ParentKnown
    rw [hindex, hside]
  have hboth : forall {height height'}, out₁.result = .canonExtension height ->
      out₂.result ≠ .canonExtension height' := by
    intro height height' hextends hextends'
    rcases extension_executes hwithout hextends hblocks hparent with ⟨_, after, hafter, hroot⟩
    rcases extension_executes hwith hextends' hblocks' hparent' with ⟨_, after', hafter', hroot'⟩
    exact replays_differ (Nat.ne_of_lt hsupply) hafter hafter' (hapart _ _ hafter hafter') hroot
      hroot'
  constructor
  · intro height hextends
    have hparentKnown := (extension_executes hwithout hextends hblocks hparent).1
    rcases tipChild_result hwith (hknown.mpr hparentKnown) hparent' with ⟨_, heq⟩ | hrejected
    · exact absurd heq (hboth hextends)
    · exact hrejected
  · intro height hextends
    have hparentKnown := (extension_executes hwith hextends hblocks' hparent').1
    rcases tipChild_result hwithout (hknown.mp hparentKnown) hparent with ⟨_, heq⟩ | hrejected
    · exact absurd hextends (hboth heq)
    · exact hrejected

/-- The root after a block. -/
def rootAfter (P : Platform) (g : ChainState) (blk : Block) : Option String :=
  (replayBlock P g.accounts blk).toOption.bind fun state =>
    (computeStateRoot P state.balances state.nonces).toOption

theorem toldApart_of_rootAfter {blk : Block} (h : rootAfter P g blk ≠ rootAfter P g' blk)
    {after after' : TxExecutionState} (hafter : replayBlock P g.accounts blk = .ok after)
    (hafter' : replayBlock P g'.accounts blk = .ok after') : ToldApart P after after' := by
  intro root hroot hroot'
  have hleft : rootAfter P g blk = some root := by
    unfold rootAfter
    rw [hafter]
    dsimp only [Except.toOption, Option.bind_some]
    rw [hroot]
  have hright : rootAfter P g' blk = some root := by
    unfold rootAfter
    rw [hafter']
    dsimp only [Except.toOption, Option.bind_some]
    rw [hroot']
  exact absurd (hleft.trans hright.symm) h

/-- An airdrop on the sample chain, and the first block on both sides of it. -/
def sampleAirdrop : Except AlphaAirdropError AlphaAirdropSnapshot × ChainState × Host :=
  alphaAirdrop samplePlatform sampleHost true sampleGenesis samplePayee 5

theorem sampleAirdrop_values :
    sampleAirdrop.1.toOption.map (fun snapshot => snapshot.balance) = some 5 ∧
      (applyBlock samplePlatform sampleHost sampleGenesis firstBlock none).toOption.map
        (fun out => out.result) = some (.canonExtension 1) ∧
      (applyBlock samplePlatform sampleHost sampleAirdrop.2.1 firstBlock none).toOption.map
        (fun _ => ()) = some () ∧
      rootAfter samplePlatform sampleGenesis firstBlock ≠
        rootAfter samplePlatform sampleAirdrop.2.1 firstBlock ∧
      firstBlock.header.parentHash = sampleGenesis.tipHash ∧
      (sampleGenesis.balances[samplePayee]?).getD 0 < u128Bound - 1 := by
  decide +kernel

theorem airdrop_splits_sample : exists out,
    applyBlock samplePlatform sampleHost sampleAirdrop.2.1 firstBlock none = .ok out ∧
      exists reason, out.result = .rejected reason := by
  rcases sampleAirdrop_values with ⟨hbalance, hfirst, hsecond, hroots, hparent, hroom⟩
  rcases toOption_map_eq_some hbalance with ⟨snapshot, hsnapshot, _⟩
  rcases toOption_map_eq_some hfirst with ⟨out₁, hout₁, hresult⟩
  rcases toOption_map_eq_some hsecond with ⟨out₂, hout₂, _⟩
  have hairdrop : alphaAirdrop samplePlatform sampleHost true sampleGenesis samplePayee 5 =
      (.ok snapshot, sampleAirdrop.2.1, sampleAirdrop.2.2) := Prod.ext hsnapshot rfl
  exact ⟨out₂, hout₂, (airdrop_splits hairdrop hroom (List.cons_ne_nil genesisBlock [])
    (fun _ _ hafter hafter' => toldApart_of_rootAfter hroots hafter hafter') hparent hout₁
    hout₂).1 1 hresult⟩

end Success

end VisionCore
