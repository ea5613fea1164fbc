import VisionCore.Chain.Nonces
import VisionCore.Types.Binding

/-!
# One hash, one history

The proof of work covers neither the state root nor the texts of the hashes nor
the signatures.  The other checks of acceptance, along the whole ancestry, leave
one history to a block hash.
-/

namespace VisionCore

open Std Foundation

/-- No two of the delivered blocks show a collision of one of the hash functions. -/
structure HashesBind (P : Platform) (D : Block -> Prop) : Prop where
  ids : forall {b b' tx tx'}, D b -> D b' -> tx ∈ b.txs -> tx' ∈ b'.txs ->
    P.blake3 (canonicalUnsignedPayload tx) = P.blake3 (canonicalUnsignedPayload tx') ->
      canonicalUnsignedPayload tx = canonicalUnsignedPayload tx'
  roots : forall {b b'}, D b -> D b' ->
    P.blake3 (b.txRootInput P) = P.blake3 (b'.txRootInput P) -> b.txRootInput P = b'.txRootInput P
  digests : forall {b b' message message' digest}, D b -> D b' ->
    historicalVpowMessageBytesWithNonceZero b.header = .ok message ->
    historicalVpowMessageBytesWithNonceZero b'.header = .ok message' ->
    historicalBlockDigest P visionxParams (visionxParams.epoch b.header.number) b.header =
      .ok digest ->
    historicalBlockDigest P visionxParams (visionxParams.epoch b'.header.number) b'.header =
      .ok digest -> message = message' ∧ b.header.nonce = b'.header.nonce

/-- The transactions of the delivered blocks are texts and bytes of a 64-bit machine. -/
def TxsFit (D : Block -> Prop) : Prop :=
  forall blk tx, D blk -> tx ∈ blk.txs -> tx.Fits

/-- Two blocks that differ in signatures and weight at most. -/
structure SameButSignatures (b b' : Block) : Prop where
  header : b.header = b'.header
  txs : b.txs.map Tx.unsigned = b'.txs.map Tx.unsigned

/-!
# Two sealed blocks with one hash
-/

section Blocks

variable {P : Platform} {D : Block -> Prop} {b b' : Block}

theorem header_ext {header header' : BlockHeader} (hparent : header.parentHash = header'.parentHash)
    (hnumber : header.number = header'.number) (htimestamp : header.timestamp = header'.timestamp)
    (hdifficulty : header.difficulty = header'.difficulty) (hnonce : header.nonce = header'.nonce)
    (hpow : header.powHash = header'.powHash) (hstateRoot : header.stateRoot = header'.stateRoot)
    (hroot : header.txRoot = header'.txRoot) (hminer : header.miner = header'.miner) :
    header = header' := by
  cases header
  cases header'
  dsimp only at hparent hnumber htimestamp hdifficulty hnonce hpow hstateRoot hroot hminer
  subst hparent hnumber htimestamp hdifficulty hnonce hpow hstateRoot hroot hminer
  rfl

theorem historicalBlockDigest_message {header : BlockHeader} {digest : U256} {epoch : UInt64}
    (h : historicalBlockDigest P visionxParams epoch header = .ok digest) :
    exists message, historicalVpowMessageBytesWithNonceZero header = .ok message := by
  unfold historicalBlockDigest at h
  cases hparent : decodeHash32 "parent_hash" header.parentHash with
  | error e =>
      rw [hparent] at h
      cases h
  | ok prevHash32 =>
      rw [hparent] at h
      cases hmessage : historicalVpowMessageBytesWithNonceZero header with
      | error e =>
          rw [hmessage] at h
          cases h
      | ok message => exact ⟨message, rfl⟩

theorem Sealed.txRoot (h : Sealed P b) : b.header.txRoot = b.computeTxRoot P := by
  have hstructure := h.structure_ok
  unfold checkStructure at hstructure
  split at hstructure
  · cases hstructure
  · split at hstructure
    · cases hstructure
    · rename_i hroot
      exact not_not.mp hroot

theorem Sealed.txs_ne_nil (h : Sealed P b) (hnumber : b.header.number ≠ 0) : b.txs ≠ [] := by
  have hpos : b.header.number > 0 := UInt64.pos_iff_ne_zero.mpr hnumber
  have hstructure := h.structure_ok
  intro hempty
  unfold checkStructure at hstructure
  split at hstructure
  · cases hstructure
  · split at hstructure
    · cases hstructure
    · unfold checkCoinbasePresence at hstructure
      rw [if_pos hpos, hempty] at hstructure
      cases hstructure

/-- Above genesis the root is the hash of the identifiers. -/
theorem Sealed.txRoot_eq (h : Sealed P b) (hnumber : b.header.number ≠ 0) :
    b.header.txRoot = hexEncode (P.blake3 (b.txRootInput P)).bytes := by
  have hempty : b.txs.isEmpty = false := by
    rw [List.isEmpty_eq_false_iff]
    exact h.txs_ne_nil hnumber
  rw [h.txRoot]
  unfold Block.computeTxRoot
  rw [hempty]
  rfl

theorem Sealed.hashText (h : Sealed P b) : IsHashText b.hash := by
  rcases verifyVisionxPow_ok h.pow_ok with ⟨digest, _, _, hhash⟩
  exact ⟨digest, hhash.symm⟩

/-- The proof of work of two blocks with one hash covers the same fields. -/
theorem HashesBind.covered (h : HashesBind P D) (hD : D b) (hD' : D b') (hs : Sealed P b)
    (hs' : Sealed P b') (hnumber : b.header.number ≠ 0) (hnumber' : b'.header.number ≠ 0)
    (hparent : IsHashText b.header.parentHash) (hparent' : IsHashText b'.header.parentHash)
    (hhash : b.hash = b'.hash) :
    b.header.parentHash = b'.header.parentHash ∧ b.header.number = b'.header.number ∧
      b.header.timestamp = b'.header.timestamp ∧ b.header.difficulty = b'.header.difficulty ∧
      b.header.nonce = b'.header.nonce ∧ b.header.txRoot = b'.header.txRoot ∧
      b.header.miner = b'.header.miner := by
  rcases verifyVisionxPow_ok hs.pow_ok with ⟨digest, hdigest, _, htext⟩
  rcases verifyVisionxPow_ok hs'.pow_ok with ⟨digest', hdigest', _, htext'⟩
  have hbytes : digest.bytes = digest'.bytes :=
    hexEncode_inj (htext.trans (hhash.trans htext'.symm))
  have hsame : digest = digest' := by
    cases digest with
    | mk bytes _ =>
        cases digest' with
        | mk bytes' _ =>
            dsimp only at hbytes
            subst hbytes
            rfl
  rw [← hsame] at hdigest'
  rcases historicalBlockDigest_message hdigest with ⟨message, hmessage⟩
  rcases historicalBlockDigest_message hdigest' with ⟨message', hmessage'⟩
  rcases h.digests hD hD' hmessage hmessage' hdigest hdigest' with ⟨heq, hnonce⟩
  rw [← heq] at hmessage'
  have hroot : IsHashText b.header.txRoot := ⟨_, hs.txRoot_eq hnumber⟩
  have hroot' : IsHashText b'.header.txRoot := ⟨_, hs'.txRoot_eq hnumber'⟩
  have hfields := preimage_inj hmessage hmessage' hparent hparent' hroot hroot'
  exact ⟨hfields.1, hfields.2.1, hfields.2.2.1, hfields.2.2.2.1, hnonce, hfields.2.2.2.2.1,
    hfields.2.2.2.2.2⟩

theorem map_eq_of_map_eq {α β γ : Type} {f : α -> β} {k : α -> γ} :
    forall {l l' : List α}, (forall a a', a ∈ l -> a' ∈ l' -> f a = f a' -> k a = k a') ->
      l.map f = l'.map f -> l.map k = l'.map k
  | [], [], _, _ => rfl
  | [], a' :: rest, _, h => by cases h
  | a :: rest, [], _, h => by cases h
  | a :: rest, a' :: rest', hf, h => by
      rw [List.map_cons, List.map_cons, List.cons.injEq] at h
      rw [List.map_cons, List.map_cons, hf a a' List.mem_cons_self List.mem_cons_self h.1]
      congr 1
      exact map_eq_of_map_eq (fun c c' hc hc' =>
        hf c c' (List.mem_cons_of_mem _ hc) (List.mem_cons_of_mem _ hc')) h.2

/-- One transaction root, one list of transactions up to their signatures. -/
theorem HashesBind.txs_eq (h : HashesBind P D) (hfits : TxsFit D) (hD : D b) (hD' : D b')
    (hs : Sealed P b) (hs' : Sealed P b') (hnumber : b.header.number ≠ 0)
    (hnumber' : b'.header.number ≠ 0) (hroot : b.header.txRoot = b'.header.txRoot) :
    b.txs.map Tx.unsigned = b'.txs.map Tx.unsigned := by
  rw [hs.txRoot_eq hnumber, hs'.txRoot_eq hnumber'] at hroot
  have hids := txIds_of_txRootInput (h.roots hD hD' (blake3_eq_of_hexEncode hroot))
  refine map_eq_of_map_eq ?_ hids
  intro tx tx' htx htx' hid
  have hpayload := h.ids hD hD' htx htx' (blake3_eq_of_hexEncode hid)
  exact unsigned_eq_of_payload (hfits b tx hD htx) (hfits b' tx' hD' htx') hpayload

end Blocks

/-!
# Execution does not read the signatures
-/

section Execution

variable {P : Platform} {state state' before before' after after' : TxExecutionState}
  {txs txs' : List Tx} {b b' : Block}

/-- Two runs that both execute leave one state when only the signatures differ. -/
theorem executeTxsFrom_unsigned {index index' : Nat}
    (htxs : txs.map Tx.unsigned = txs'.map Tx.unsigned)
    (h : executeTxsFrom P index before txs = .ok after)
    (h' : executeTxsFrom P index' before txs' = .ok after') : after = after' := by
  induction txs generalizing index index' before txs' with
  | nil =>
      cases txs' with
      | nil =>
          cases h
          cases h'
          rfl
      | cons tx' rest' => cases htxs
  | cons tx rest ih =>
      cases txs' with
      | nil => cases htxs
      | cons tx' rest' =>
          rw [List.map_cons, List.map_cons, List.cons.injEq] at htxs
          rcases executeTxsFrom_cons.mp h with ⟨args, hspends, hrest⟩
          rcases executeTxsFrom_cons.mp h' with ⟨args', hspends', hrest'⟩
          rcases Tx.unsigned_fields htxs.1 with ⟨hsender, hnonce, htip, hdata⟩
          have hargs : args = args' := by
            have hdecode := hspends.args_eq
            rw [hdata, hspends'.args_eq] at hdecode
            exact (Except.ok.inj hdecode).symm
          have hspend : spend before tx args = spend before tx' args' := by
            unfold spend transferFee
            rw [hsender, hnonce, htip, hargs]
          rw [hspend] at hrest
          exact ih htxs.2 hrest hrest'

theorem replayBlockChecked_unsigned (hnumber : b.header.number = b'.header.number)
    (hminer : b.header.miner = b'.header.miner)
    (htxs : b.txs.map Tx.unsigned = b'.txs.map Tx.unsigned) (hsame : SameAccounts before before')
    (h : replayBlockChecked P before b = .ok after)
    (h' : replayBlockChecked P before' b' = .ok after') : SameAccounts after after' := by
  rcases replayBlockChecked_ok h with ⟨executed, hexecuted, hcredited, _⟩
  rcases replayBlockChecked_ok h' with ⟨executed', hexecuted', hcredited', _⟩
  unfold executeNonCoinbaseTxs at hexecuted hexecuted'
  rcases (executeTxsFrom_same hsame 1 (b.txs.drop 1)).of_ok hexecuted with
    ⟨moved, hmoved, hmovedSame⟩
  have hdrop : (b.txs.drop 1).map Tx.unsigned = (b'.txs.drop 1).map Tx.unsigned := by
    rw [List.map_drop, List.map_drop, htxs]
  rw [executeTxsFrom_unsigned hdrop hmoved hexecuted'] at hmovedSame
  rcases (creditMiner_same hmovedSame).of_ok hcredited with ⟨credited, hok, hcreditedSame⟩
  have hcredit : creditMiner P executed' b = creditMiner P executed' b' := by
    unfold creditMiner
    rw [hnumber, hminer]
  rw [hcredit, hcredited'] at hok
  rw [← Except.ok.inj hok] at hcreditedSame
  exact hcreditedSame

end Execution

/-!
# Two histories
-/

section Histories

variable {P : Platform} {D D' : Block -> Prop} {g g' : ChainState} {b b' : Block}
  {rest rest' : List Block} {state state' : TxExecutionState}

theorem genesis_hashText : IsHashText genesisBlock.hash := by
  have hbytes : exists bytes : Bytes, bytes.length = 32 ∧ genesisBlock.hash = hexEncode bytes := by
    refine ⟨[0xd6, 0x46, 0x9e, 0xc9, 0x5f, 0x56, 0xb5, 0x6b, 0xe4, 0x92, 0x1e, 0xf4, 0x0b, 0x97,
      0x95, 0x90, 0x2c, 0x96, 0xf2, 0xad, 0x26, 0x58, 0x2e, 0xf8, 0xdb, 0x8f, 0xac, 0x46,
      0xf4, 0xa7, 0xaa, 0x13], rfl, ?_⟩
    decide
  rcases hbytes with ⟨bytes, hlength, hhash⟩
  exact ⟨⟨bytes, hlength⟩, hhash⟩

theorem Represents.known_hashText (hg : Represents P D g) (hl : KnownPath g (b :: rest)) :
    IsHashText b.hash := by
  rcases hg.candidate (hl.lookup List.mem_cons_self) with rfl | ⟨_, hsealed⟩
  · exact genesis_hashText
  · exact hsealed.hashText

/-- A known block with the genesis hash is genesis. -/
theorem genesis_of_hash (hl : KnownPath g (b :: rest))
    (hhash : b.hash = genesisHash) : b = genesisBlock ∧ rest = [] := by
  have hroot : genesisBlock ∈ b :: rest := hl.root_mem
  have hlookup := hl.lookup hroot
  have hself := hl.lookup List.mem_cons_self
  have hb : b = genesisBlock := by
    have hname : chainLineage.name genesisBlock = chainLineage.name b := hhash.symm
    rw [hname, hself] at hlookup
    exact Option.some.inj hlookup
  subst hb
  cases hl with
  | root _ => exact ⟨rfl, rfl⟩
  | step _ _ _ hname => exact absurd rfl hname

theorem sameAccounts_of_genesis (h : lineState P [genesisBlock] = .ok state)
    (h' : lineState P [genesisBlock] = .ok state') : SameAccounts state state' := by
  rw [← Except.ok.inj (h.symm.trans h')]
  exact SameAccounts.refl state

/-- Two blocks known to two nodes under one hash agree, and so do the accounts
after them: by induction over the ancestry of the first. -/
theorem same_history (hg : Represents P D g) (hg' : Represents P D' g')
    (hbinds : HashesBind P fun blk => D blk ∨ D' blk) (hfits : TxsFit fun blk => D blk ∨ D' blk)
    (hl : KnownPath g (b :: rest)) (hl' : KnownPath g' (b' :: rest')) (hhash : b.hash = b'.hash)
    (hstate : lineState P (b :: rest) = .ok state)
    (hstate' : lineState P (b' :: rest') = .ok state') :
    SameButSignatures b b' ∧ SameAccounts state state' := by
  induction rest generalizing b b' rest' state state' with
  | nil =>
      cases hl with
      | root _ =>
          rcases genesis_of_hash hl' hhash.symm with ⟨rfl, rfl⟩
          exact ⟨⟨rfl, rfl⟩, sameAccounts_of_genesis hstate hstate'⟩
  | cons p rest ih =>
      cases rest' with
      | nil =>
          cases hl' with
          | root _ => cases (genesis_of_hash hl hhash).2
      | cons p' rest' =>
          have hparent : b.header.parentHash = p.hash := Path.parent_eq (s := []) hl
          have hparent' : b'.header.parentHash = p'.hash := Path.parent_eq (s := []) hl'
          have hnumber := hg.number_ne hl
          have hnumber' := hg'.number_ne hl'
          have hknown := hg.candidate (hl.lookup List.mem_cons_self)
          have hknown' := hg'.candidate (hl'.lookup List.mem_cons_self)
          rcases hknown with rfl | ⟨hD, hsealed⟩
          · exact absurd rfl hnumber
          rcases hknown' with rfl | ⟨hD', hsealed'⟩
          · exact absurd rfl hnumber'
          have hcovered := hbinds.covered (Or.inl hD) (Or.inr hD') hsealed hsealed' hnumber hnumber'
            (hparent ▸ hg.known_hashText hl.tail) (hparent' ▸ hg'.known_hashText hl'.tail) hhash
          rcases hcovered with ⟨hparents, hnumbers, htimestamp, hdifficulty, hnonce, hroot, hminer⟩
          have htxs := hbinds.txs_eq hfits (Or.inl hD) (Or.inr hD') hsealed hsealed' hnumber
            hnumber' hroot
          rcases lineState_cons.mp hstate with ⟨before, hbefore, hblk⟩
          rcases lineState_cons.mp hstate' with ⟨before', hbefore', hblk'⟩
          have hbelow := (ih hl.tail hl'.tail (hparent.symm.trans (hparents.trans hparent'))
            hbefore hbefore').2
          have hsame := replayBlockChecked_unsigned hnumbers hminer htxs hbelow hblk hblk'
          refine ⟨⟨?_, htxs⟩, hsame⟩
          -- the state root is not covered: it follows from the accounts
          have hstateRoot : b.header.stateRoot = b'.header.stateRoot := by
            rcases replayBlockChecked_ok hblk with ⟨_, _, _, hcommits⟩
            rcases replayBlockChecked_ok hblk' with ⟨_, _, _, hcommits'⟩
            have hleft := hcommits hnumber
            rw [computeStateRoot_same hsame, hcommits' hnumber'] at hleft
            exact (Except.ok.inj hleft).symm
          have hpow : b.header.powHash = b'.header.powHash := hhash
          exact header_ext hparents hnumbers htimestamp hdifficulty hnonce hpow hstateRoot hroot
            hminer

/-- The block is canonical or on a side branch. -/
def StoredIn (g : ChainState) (blk : Block) : Prop :=
  blk ∈ g.blocks ∨ exists hash : String, g.sideBlocks[hash]? = some blk

theorem StoredIn.path (h : StoredIn g b) (hg : Represents P D g) (hne : b ≠ genesisBlock) :
    exists parent rest, KnownPath g (b :: parent :: rest) := by
  have hknown : exists hash : String, resolveBlock g hash = some b := by
    rcases h with hmem | ⟨hash, hside⟩
    · exact ⟨b.hash, hg.resolve_of_mem hmem⟩
    · exact ⟨hash, hg.resolve_side hside⟩
  rcases hknown with ⟨hash, hlookup⟩
  rcases hg.rooted.path hlookup with ⟨ancestors, hl⟩
  cases ancestors with
  | nil =>
      cases hl with
      | root _ => exact absurd rfl hne
  | cons parent rest => exact ⟨parent, rest, hl⟩

/-- What two nodes that hold blocks under one hash agree on. -/
structure OneHistory (P : Platform) (g g' : ChainState) (b b' : Block) : Prop where
  header : b.header = b'.header
  txs : b.txs.map Tx.unsigned = b'.txs.map Tx.unsigned
  ancestry : exists parent rest parent' rest' after after',
    KnownPath g (b :: parent :: rest) ∧ KnownPath g' (b' :: parent' :: rest') ∧
      parent.hash = parent'.hash ∧
      (b :: parent :: rest).reverse.foldlM (replayBlock P) .new = .ok after ∧
      (b' :: parent' :: rest').reverse.foldlM (replayBlock P) .new = .ok after' ∧
      SameAccounts after after'

end Histories

/-!
# Two nodes
-/

section Nodes

variable {P : Platform} {D D' : Block -> Prop} {s s' g g' : ChainState} {calls calls' : List Call}
  {b b' : Block}

/-- Blocks that two nodes have stored under one hash have one history. -/
theorem oneHistory_of_hash (hnumbered : NumberedFrom P D) (hnumbered' : NumberedFrom P D')
    (hgenesis : GenesisApplied P s) (hgenesis' : GenesisApplied P s')
    (hcalls : forall call, call ∈ calls -> D call.blk)
    (hcalls' : forall call, call ∈ calls' -> D' call.blk)
    (hrun : applyAll P s calls = .ok g) (hrun' : applyAll P s' calls' = .ok g')
    (hbinds : HashesBind P fun blk => D blk ∨ D' blk) (hfits : TxsFit fun blk => D blk ∨ D' blk)
    (hstored : StoredIn g b) (hstored' : StoredIn g' b') (hne : b ≠ genesisBlock)
    (hne' : b' ≠ genesisBlock) (hhash : b.hash = b'.hash) : OneHistory P g g' b b' := by
  rcases (stepInvariant_replays P D).applyAll hnumbered hgenesis.represents hgenesis.replays hcalls
    hrun with ⟨hg, hr⟩
  rcases (stepInvariant_replays P D').applyAll hnumbered' hgenesis'.represents hgenesis'.replays
    hcalls' hrun' with ⟨hg', hr'⟩
  rcases hstored.path hg hne with ⟨parent, rest, hl⟩
  rcases hstored'.path hg' hne' with ⟨parent', rest', hl'⟩
  rcases hr.known hl with ⟨after, hafter⟩
  rcases hr'.known hl' with ⟨after', hafter'⟩
  rcases same_history hg hg' hbinds hfits hl hl' hhash hafter hafter' with ⟨hsame, haccounts⟩
  have hparent : b.header.parentHash = parent.hash := Path.parent_eq (s := []) hl
  have hparent' : b'.header.parentHash = parent'.hash := Path.parent_eq (s := []) hl'
  constructor
  · exact hsame.header
  · exact hsame.txs
  · refine ⟨parent, rest, parent', rest', after, after', hl, hl', ?_,
      lineReplay_of_lineState hafter, lineReplay_of_lineState hafter', haccounts⟩
    rw [← hparent, hsame.header, hparent']

/-!
# A block and its copy with other signatures
-/

/-- Every byte of the input counts. -/
def foldDigest (bytes : Bytes) : U256 :=
  { bytes := toBeBytes 32 (bytes.foldl (fun acc byte => acc * 257 + byte.toNat + 1) 0 % 2 ^ 256)
    length_eq := by simp [toBeBytes] }

def foldPlatform : Platform :=
  { samplePlatform with blake3 := foldDigest }

def boundFirst : Block :=
  sealBlock foldPlatform .new (sampleDraft genesisHash 1 100 1 [])

def boundSecond : Block :=
  sealBlock foldPlatform (stateAfter foldPlatform .new boundFirst)
    (sampleDraft boundFirst.hash 2 200 5 [sampleTransfer sampleMiner])

def resignedSecond : Block :=
  { boundSecond with
    txs := boundSecond.txs.map fun tx =>
      { tx with sig := String.ofList (List.replicate 128 'e') } }

def boundBlocks : List Block :=
  [boundFirst, boundSecond, resignedSecond]

theorem boundBlocks_numbered : NumberedFrom foldPlatform fun blk => blk ∈ boundBlocks :=
  numberedFrom_of_list (by decide +kernel)

theorem boundBlocks_fit : TxsFit fun blk => blk ∈ boundBlocks ∨ blk ∈ boundBlocks := by
  have hall : forall blk, blk ∈ boundBlocks -> forall tx, tx ∈ blk.txs ->
      byteLen tx.senderPubkey < u64Bound ∧ byteLen tx.module < u64Bound ∧
        byteLen tx.method < u64Bound ∧ tx.args.length < u64Bound := by decide +kernel
  intro blk tx hblk htx
  have hfits := hall blk (hblk.elim id id) tx htx
  exact ⟨hfits.1, hfits.2.1, hfits.2.2.1, hfits.2.2.2⟩

/-- The hash functions show no collision on the three blocks. -/
theorem boundBlocks_separate : forall b, b ∈ boundBlocks -> forall b', b' ∈ boundBlocks ->
    (forall tx, tx ∈ b.txs -> forall tx', tx' ∈ b'.txs ->
      foldDigest (canonicalUnsignedPayload tx) = foldDigest (canonicalUnsignedPayload tx') ->
        canonicalUnsignedPayload tx = canonicalUnsignedPayload tx') ∧
    (foldDigest (b.txRootInput foldPlatform) = foldDigest (b'.txRootInput foldPlatform) ->
      b.txRootInput foldPlatform = b'.txRootInput foldPlatform) ∧
    ((historicalBlockDigest foldPlatform visionxParams
        (visionxParams.epoch b.header.number) b.header).toOption =
      (historicalBlockDigest foldPlatform visionxParams
        (visionxParams.epoch b'.header.number) b'.header).toOption ->
      (historicalVpowMessageBytesWithNonceZero b.header).toOption =
        (historicalVpowMessageBytesWithNonceZero b'.header).toOption ∧
      b.header.nonce = b'.header.nonce) := by
  decide +kernel

theorem boundBlocks_bind :
    HashesBind foldPlatform fun blk => blk ∈ boundBlocks ∨ blk ∈ boundBlocks := by
  have hall := boundBlocks_separate
  constructor
  · intro b b' tx tx' hb hb' htx htx'
    exact (hall b (hb.elim id id) b' (hb'.elim id id)).1 tx htx tx' htx'
  · intro b b' hb hb'
    exact (hall b (hb.elim id id) b' (hb'.elim id id)).2.1
  · intro b b' message message' digest hb hb' hmessage hmessage' hdigest hdigest'
    have hsame := (hall b (hb.elim id id) b' (hb'.elim id id)).2.2 (by rw [hdigest, hdigest'])
    rw [hmessage, hmessage'] at hsame
    exact ⟨Option.some.inj hsame.1, hsame.2⟩

theorem foldGenesis_applied : GenesisApplied foldPlatform sampleGenesis :=
  ⟨sampleHost, Db.empty, none, _, rfl, rfl, rfl⟩

theorem boundRuns_blocks :
    (applyAll foldPlatform sampleGenesis
        ([boundFirst, boundSecond].map sampleCall)).toOption.map ChainState.blocks =
      some [genesisBlock, boundFirst, boundSecond] ∧
    (applyAll foldPlatform sampleGenesis
        ([boundFirst, resignedSecond].map sampleCall)).toOption.map ChainState.blocks =
      some [genesisBlock, boundFirst, resignedSecond] ∧
    boundSecond ≠ genesisBlock ∧ resignedSecond ≠ genesisBlock ∧ boundSecond ≠ resignedSecond := by
  decide +kernel

theorem boundCalls_delivered {blocks : List Block} (h : blocks ⊆ boundBlocks) :
    forall call, call ∈ blocks.map sampleCall -> call.blk ∈ boundBlocks := by
  intro call hcall
  rcases List.mem_map.mp hcall with ⟨blk, hblk, rfl⟩
  exact h hblk

theorem oneHistory_resigned :
    boundSecond ≠ resignedSecond ∧ exists g g',
      applyAll foldPlatform sampleGenesis ([boundFirst, boundSecond].map sampleCall) = .ok g ∧
      applyAll foldPlatform sampleGenesis ([boundFirst, resignedSecond].map sampleCall) = .ok g' ∧
      OneHistory foldPlatform g g' boundSecond resignedSecond := by
  rcases boundRuns_blocks with ⟨hblocks, hblocks', hne, hne', hdiffer⟩
  rcases toOption_map_eq_some hblocks with ⟨g, hrun, hg⟩
  rcases toOption_map_eq_some hblocks' with ⟨g', hrun', hg'⟩
  refine ⟨hdiffer, g, g', hrun, hrun', ?_⟩
  apply oneHistory_of_hash boundBlocks_numbered boundBlocks_numbered foldGenesis_applied
    foldGenesis_applied
    (boundCalls_delivered (show [boundFirst, boundSecond] ⊆ boundBlocks by simp [boundBlocks]))
    (boundCalls_delivered (show [boundFirst, resignedSecond] ⊆ boundBlocks by simp [boundBlocks]))
    hrun hrun' boundBlocks_bind boundBlocks_fit
  · exact Or.inl (by rw [hg]; simp)
  · exact Or.inl (by rw [hg']; simp)
  · exact hne
  · exact hne'
  · unfold resignedSecond Block.hash
    dsimp only

end Nodes

end VisionCore
