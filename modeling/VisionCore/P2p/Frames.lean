import Mathlib.Data.List.Destutter
import VisionCore.Chain.Completeness
import VisionCore.Chain.Identity
import VisionCore.Miner.Agreement
import VisionCore.P2p.Connection
import VisionCore.P2p.Wire
import VisionCore.Types.Binding

/-!
# What a node sends, a node can read

The reader refuses frames above its limit, and the sender does not look at the size of
what it sends.  Blocks, heights and requests stay far below the limit.  A handshake
carries addresses that other peers have chosen, and nothing bounds their length.
-/

namespace VisionCore

open Std Foundation

/-!
# Sizes
-/

namespace Bincode

theorem message_length (msg : P2PMessage) : (message.encode msg).length =
    4 + ((MessageTag.body (messageParts msg).1).encode (messageParts msg).2).length := by
  have hparts : message.encode msg = toLeBytes 4 (messageParts msg).1.index ++
      (MessageTag.body (messageParts msg).1).encode (messageParts msg).2 := rfl
  rw [hparts, List.length_append, toLeBytes_length]

/-- The length of an optional text. -/
def optionTextLength : Option String -> Nat
  | none => 1
  | some s => 9 + byteLen s

theorem optionText_length (s : Option String) :
    ((option text).encode s).length = optionTextLength s := by
  cases s with
  | none => rfl
  | some s =>
      have hparts : (option text).encode (some s) = [1] ++ text.encode s := rfl
      rw [hparts, List.length_append, text_length]
      rw [List.length_singleton, ← Nat.add_assoc]
      rfl

theorem optionU16_length (port : Option UInt16) :
    ((option u16).encode port).length = if port.isSome then 3 else 1 := by
  cases port with
  | none => rfl
  | some port =>
      have hparts : (option u16).encode (some port) = [1] ++ toLeBytes 2 port.toNat := rfl
      rw [hparts, List.length_append, toLeBytes_length]
      rfl

/-- The length of a list of texts behind its length. -/
theorem texts_length (texts : List String) :
    ((list text).encode texts).length = 8 + (texts.map fun s => 8 + byteLen s).sum := by
  have hparts : (list text).encode texts =
      toLeBytes 8 texts.length ++ texts.flatMap text.encode := rfl
  rw [hparts, List.length_append, toLeBytes_length, List.length_flatMap]
  simp only [text_length]

theorem chainSummary_length (summary : ChainSummary) :
    (chainSummary.encode summary).length = 8 + (optionTextLength summary.tipHash + 16) := by
  have hparts : chainSummary.encode summary = u64.encode summary.height ++
      ((option text).encode summary.tipHash ++ toLeBytes 16 summary.cumulativeWork) := rfl
  rw [hparts, List.length_append, List.length_append, u64_length, optionText_length,
    toLeBytes_length]

theorem announceBlock_length (announcement : AnnounceBlock) :
    (announceBlock.encode announcement).length =
      8 + ((8 + byteLen announcement.hash) + (8 + byteLen announcement.prev)) := by
  have hparts : announceBlock.encode announcement = u64.encode announcement.height ++
      (text.encode announcement.hash ++ text.encode announcement.prev) := rfl
  rw [hparts, List.length_append, List.length_append, u64_length, text_length, text_length]

theorem header_length (value : BlockHeader) : (header.encode value).length =
    72 + byteLen value.parentHash + byteLen value.powHash + byteLen value.stateRoot +
      byteLen value.txRoot + byteLen value.miner := by
  have hparts : header.encode value = text.encode value.parentHash ++
      (u64.encode value.number ++ (u64.encode value.timestamp ++ (u64.encode value.difficulty ++
        (u64.encode value.nonce ++ (text.encode value.powHash ++ (text.encode value.stateRoot ++
          (text.encode value.txRoot ++ text.encode value.miner))))))) := rfl
  rw [hparts]
  simp only [List.length_append, text_length, u64_length]
  omega

theorem block_length (value : Block) : (block.encode value).length =
    (header.encode value.header).length + 16 + (value.txs.map serializedTxSize).sum := by
  have hparts : block.encode value = header.encode value.header ++
      ((toLeBytes 8 value.txs.length ++ value.txs.flatMap tx.encode) ++
        u64.encode value.weight) := rfl
  rw [hparts]
  simp only [List.length_append, toLeBytes_length, u64_length, List.length_flatMap, tx_encode]
  unfold serializedTxSize
  omega

theorem handshake_length (value : HandshakeMessage) : (handshake.encode value).length =
    100 + byteLen value.genesisHash + byteLen value.networkId + byteLen value.nodeTag +
      byteLen value.econHash + byteLen value.powParamsHash +
      optionTextLength value.advertisedIp + (if value.advertisedPort.isSome then 3 else 1) +
      (value.seedPeers.map fun s => 8 + byteLen s).sum := by
  have hparts : handshake.encode value = toLeBytes 4 value.protocolVersion.toNat ++
      (value.chainId.bytes.flatMap (fun byte => [byte]) ++
        (text.encode value.genesisHash ++ (u64.encode value.nodeNonce ++
          (u64.encode value.chainHeight ++ (text.encode value.networkId ++
            (text.encode value.nodeTag ++ (text.encode value.econHash ++
              (text.encode value.powParamsHash ++ ((option text).encode value.advertisedIp ++
                ((option u16).encode value.advertisedPort ++
                  (list text).encode value.seedPeers)))))))))) := rfl
  rw [hparts]
  simp only [List.length_append, text_length, u64_length, optionText_length, optionU16_length,
    texts_length, toLeBytes_length, List.flatMap_singleton', value.chainId.length_eq]
  omega

end Bincode

/-!
# Blocks of a node
-/

/-- A block that the node has mined, or has received in a frame. -/
inductive OwnBlock (P : Platform) : Block -> Prop where
  | mined {params : VisionXParams} {now jobId : UInt64} {g : ChainState} {minerAddr : String}
      {mempoolTxs : List Tx} {job : MiningJob} {nonce : UInt64} {blk : Block}
      (hjob : buildCandidateForTip P params now jobId g minerAddr mempoolTxs = .ok (some job))
      (hblk : job.tryNonce P nonce = some blk) : OwnBlock P blk
  | received {payload : Bytes} {blk : Block} (hlength : payload.length ≤ maxMessageBytes)
      (hread : p2pFraming.deserialize payload = some (.block blk)) : OwnBlock P blk

section Blocks

variable {P : Platform} {blk : Block}

/-- What was decoded takes no more bytes than it was decoded from. -/
theorem size_of_deserialize {payload : Bytes} {msg : P2PMessage}
    (h : p2pFraming.deserialize payload = some msg) : p2pFraming.size msg ≤ payload.length := by
  rcases Option.map_eq_some_iff.mp h with ⟨⟨read, rest⟩, hdecode, rfl⟩
  rw [(Bincode.message.encode_decode hdecode).1, List.length_append]
  exact Nat.le_add_right _ _

theorem hexDecodePairs_length : forall {index : Nat} {text bytes : Bytes},
    hexDecodePairs index text = .ok bytes -> text.length = 2 * bytes.length
  | _, [], _, h => by
      cases h
      rfl
  | _, [_], _, h => by cases h
  | index, a :: b :: rest, bytes, h => by
      rcases bind_eq_ok.mp h with ⟨hi, _, h⟩
      rcases bind_eq_ok.mp h with ⟨lo, _, h⟩
      rcases bind_eq_ok.mp h with ⟨tail, htail, h⟩
      cases h
      have hlength := hexDecodePairs_length htail
      rw [List.length_cons, List.length_cons, List.length_cons, hlength]
      omega

theorem stripHexPrefix_length (text : Bytes) :
    text.length ≤ (stripHexPrefix text).length + 2 := by
  unfold stripHexPrefix
  split
  · rw [List.length_cons, List.length_cons]
  · exact Nat.le_add_right _ _

/-- A text that decodes to a hash has at most 66 bytes. -/
theorem byteLen_of_decodeHash32 {label s : String} {hash : U256}
    (h : decodeHash32 label s = .ok hash) : byteLen s ≤ 66 := by
  unfold decodeHash32 at h
  cases hdecode : hexDecode (stripHexPrefix (asBytes s)) with
  | error e =>
      rw [hdecode] at h
      cases h
  | ok bytes =>
      rw [hdecode] at h
      dsimp only at h
      split at h
      · rename_i hlength
        unfold hexDecode at hdecode
        split at hdecode
        · cases hdecode
        · have htext := hexDecodePairs_length hdecode
          have hstrip := stripHexPrefix_length (asBytes s)
          unfold byteLen
          omega
      · cases h

theorem byteLen_hexEncode (hash : U256) : byteLen (hexEncode hash.bytes) = 64 := by
  unfold byteLen
  rw [asBytes_hexEncode_length, hash.length_eq]

theorem serializedTxSize_eq (tx : Tx) : serializedTxSize tx = 64 + byteLen tx.senderPubkey +
    byteLen tx.module + byteLen tx.method + tx.args.length + byteLen tx.sig := by
  unfold serializedTxSize Tx.bincode bincodeU64 bincodeString bincodeBytes byteLen
  simp only [List.length_append, toLeBytes_length]
  omega

theorem candidateCoinbase_size (height : UInt64) :
    serializedTxSize (candidateCoinbase height) = 86 := by
  rw [serializedTxSize_eq]
  have hargs : (candidateCoinbase height).args.length = 8 := toBeBytes_length 8 height.toNat
  have hmodule : byteLen "coinbase" = 8 := by decide
  have hmethod : byteLen "reward" = 6 := by decide
  have hempty : byteLen "" = 0 := by decide
  rw [hargs]
  unfold candidateCoinbase
  rw [hmodule, hmethod, hempty]

/-- The block message of a candidate: its texts are hashes and a key, and each of its
transactions has passed the size check. -/
theorem Built.block_length_le {params : VisionXParams} {now : UInt64} {g : ChainState}
    {minerAddr : String} {mempoolTxs : List Tx} {job : MiningJob} {tip : Block}
    {executed post : TxExecutionState} {nonce : UInt64}
    (h : Built P params now g minerAddr mempoolTxs job tip executed post)
    (hblk : job.tryNonce P nonce = some blk) :
    (Bincode.block.encode blk).length ≤ 500 + (blockTargetTxs - 1) * maxSerializedTxBytes := by
  rcases MiningJob.tryNonce_solved hblk with ⟨digest, hdigest, _, rfl⟩
  rw [Bincode.block_length, Bincode.header_length]
  dsimp only
  have hpow : byteLen (hexEncode digest.bytes) = 64 := byteLen_hexEncode digest
  have hroot : byteLen job.headerTemplate.txRoot = 64 := by
    rw [h.txRoot]
    exact byteLen_hexEncode _
  have hstate : byteLen job.headerTemplate.stateRoot = 64 := by
    rcases bind_eq_ok.mp h.stateRoot with ⟨vector, _, hvector⟩
    rw [← Except.ok.inj hvector]
    exact byteLen_hexEncode _
  have hminer : byteLen job.headerTemplate.miner = 64 := by
    have hreward := h.reward
    unfold applyCoinbaseReward at hreward
    split at hreward
    · cases hreward
    · rename_i hkey
      exact not_not.mp (not_or.mp hkey).1
  have hparent : byteLen job.headerTemplate.parentHash ≤ 66 := by
    unfold historicalBlockDigest at hdigest
    cases hdecode : decodeHash32 "parent_hash" job.headerTemplate.parentHash with
    | error e =>
        rw [hdecode] at hdigest
        cases hdigest
    | ok hash => exact byteLen_of_decodeHash32 hdecode
  have htxs : (job.txs.map serializedTxSize).sum ≤
      86 + (blockTargetTxs - 1) * maxSerializedTxBytes := by
    rw [h.txs, List.map_cons, List.sum_cons, candidateCoinbase_size]
    apply Nat.add_le_add_left
    have hall : forall size, size ∈ (mempoolTxs.take (blockTargetTxs - 1)).map serializedTxSize ->
        size ≤ maxSerializedTxBytes := by
      intro size hmem
      rcases List.mem_map.mp hmem with ⟨tx, htx, rfl⟩
      rcases simulateTxs_spends h.executes htx with ⟨before, args, hspends⟩
      exact hspends.serializedTxSize_le
    apply Nat.le_trans (List.sum_le_card_nsmul _ _ hall)
    rw [List.length_map, smul_eq_mul]
    exact Nat.mul_le_mul_right _ (List.length_take_le _ _)
  omega

theorem OwnBlock.size_le (h : OwnBlock P blk) :
    p2pFraming.size (.block blk) ≤ maxMessageBytes := by
  cases h with
  | mined hjob hblk =>
      rcases buildCandidateForTip_built hjob with ⟨tip, executed, post, hbuilt⟩
      have hlength := hbuilt.block_length_le hblk
      have hsize : p2pFraming.size (.block blk) = 4 + (Bincode.block.encode blk).length :=
        Bincode.message_length _
      have hbound : 504 + (blockTargetTxs - 1) * maxSerializedTxBytes ≤ maxMessageBytes := by
        decide
      omega
  | received hlength hread => exact Nat.le_trans (size_of_deserialize hread) hlength

/-- An announcement is shorter than the block that it announces. -/
theorem announceBlock_size_le (blk : Block) :
    p2pFraming.size (.announceBlock (AnnounceBlock.ofBlock blk)) ≤
      p2pFraming.size (.block blk) := by
  have hannounce : p2pFraming.size (.announceBlock (AnnounceBlock.ofBlock blk)) =
      4 + (Bincode.announceBlock.encode (AnnounceBlock.ofBlock blk)).length :=
    Bincode.message_length _
  have hblock : p2pFraming.size (.block blk) = 4 + (Bincode.block.encode blk).length :=
    Bincode.message_length _
  rw [hannounce, hblock, Bincode.announceBlock_length, Bincode.block_length,
    Bincode.header_length]
  unfold AnnounceBlock.ofBlock Block.hash
  dsimp only
  omega

end Blocks

/-!
# The tip
-/

/-- Every known hash is the text of 32 bytes. -/
structure HashTexts (g : ChainState) : Prop where
  catalogued : Catalogued g
  started : g.blocks ≠ []
  texts : forall h, Known g h -> IsHashText h

section Tip

variable {P : Platform} {s g : ChainState} {calls : List Call}

theorem acceptBlock_promotes {host : Host} {blk : Block} {sourcePeer : Option String}
    {step : Step} {key : String} (hrun : acceptBlock P host g blk sourcePeer = .ok step)
    (hkey : step.promote = some key) : IsHashText key := by
  cases acceptBlock_transition hrun with
  | rejected _ => cases hkey
  | genesis _ _ _ _ _ => cases hkey
  | orphaned _ _ _ => cases hkey
  | extended hvetted _ _ _ =>
      cases hkey
      exact hvetted.is_sealed.hashText
  | recorded hvetted _ _ _ =>
      cases hkey
      exact hvetted.is_sealed.hashText
  | aborted hvetted _ _ _ _ =>
      cases hkey
      exact hvetted.is_sealed.hashText
  | reorganised hvetted _ _ _ _ _ _ _ =>
      cases hkey
      exact hvetted.is_sealed.hashText

theorem promotionInvariant_hashTexts (P : Platform) :
    PromotionInvariant P fun _ _ _ g => HashTexts g where
  accept := by
    intro offered host g blk sourcePeer step hpre hrun
    rcases acceptBlock_catalogued hpre.catalogued hpre.started hrun with
      ⟨hcatalogued, hstarted, hknown⟩
    refine ⟨hcatalogued, hstarted, ?_⟩
    intro h hh
    rcases (hknown h).mp hh with hold | hnew
    · exact hpre.texts h hold
    · exact acceptBlock_promotes hrun hnew
  idle := fun hpre _ => hpre
  take := fun hpre _ => ⟨hpre.catalogued.congr rfl rfl rfl, hpre.started, hpre.texts⟩
  forget := fun hpre => ⟨hpre.catalogued.congr rfl rfl rfl, hpre.started, hpre.texts⟩

theorem GenesisApplied.hashTexts (h : GenesisApplied P s) : HashTexts s := by
  refine ⟨h.shelved.catalogued, h.shelved.started, ?_⟩
  rcases h.eq with ⟨db, rfl⟩
  intro hash hknown
  rcases (known_pushCanonical _ genesisBlock _).mp hknown with hold | hnew
  · rcases hold with hcanon | hside
    · simp [ChainState.empty] at hcanon
    · simp [ChainState.empty] at hside
  · rw [← hnew]
    exact genesis_hashText

theorem HashTexts.applyAll (h : HashTexts s) (hrun : applyAll P s calls = .ok g) :
    HashTexts g := by
  refine foldlM_induction (I := HashTexts) ?_ h hrun
  intro g call g' _ hpre hcall
  rcases applyCall_ok hcall with ⟨out, hout, rfl⟩
  exact @PromotionInvariant.applyBlock P _ (promotionInvariant_hashTexts P) [] _ _ _ _ _ hpre hout

theorem HashTexts.byteLen_tipHash (h : HashTexts g) : byteLen g.tipHash = 64 := by
  cases hlast : g.blocks.getLast? with
  | none => exact absurd (List.getLast?_eq_none_iff.mp hlast) h.started
  | some tip =>
      rw [ChainState.tipHash_of_last hlast]
      rcases h.texts tip.hash (h.catalogued.blocks tip (List.mem_of_getLast? hlast)) with
        ⟨hash, hhash⟩
      rw [hhash]
      exact byteLen_hexEncode hash

end Tip

/-!
# The messages of a node
-/

/-- A message that a running node makes up.  A work is a 128-bit number in the source. -/
inductive Sends (P : Platform) : P2PMessage -> Prop where
  | handshake (manager : P2PConnectionManager) (pm : PeerManager) (chainHeight : UInt64) :
      Sends P (.handshake (manager.localHandshake P pm chainHeight))
  | height {s g : ChainState} {calls : List Call} (hgenesis : GenesisApplied P s)
      (hrun : applyAll P s calls = .ok g)
      (hwork : (ChainSummary.fromChain g).cumulativeWork < u128Bound) :
      Sends P (.height (ChainSummary.fromChain g))
  | getBlock {announcement : AnnounceBlock} (h : isCanonicalHash announcement.hash = true) :
      Sends P (.getBlock announcement.hash)
  | announceBlock {blk : Block} (h : OwnBlock P blk) :
      Sends P (.announceBlock (AnnounceBlock.ofBlock blk))
  | block {blk : Block} (h : OwnBlock P blk) : Sends P (.block blk)

/-- The bytes of the addresses in a handshake: the advertised one and the shared ones. -/
def HandshakeMessage.addressBytes (handshake : HandshakeMessage) : Nat :=
  Bincode.optionTextLength handshake.advertisedIp +
    (if handshake.advertisedPort.isSome then 3 else 1) +
    (handshake.seedPeers.map fun s => 8 + byteLen s).sum

/-- What a handshake leaves for addresses. -/
def maxAddressBytes : Nat := maxMessageBytes - 326

/-- The addresses of a handshake leave room for the rest of it. -/
def AddressesFit : P2PMessage -> Prop
  | .handshake handshake => handshake.addressBytes ≤ maxAddressBytes
  | _ => True

section Messages

variable {P : Platform} {msg : P2PMessage} {messages : List P2PMessage}

theorem localHandshake_size (manager : P2PConnectionManager) (pm : PeerManager)
    (chainHeight : UInt64) :
    p2pFraming.size (.handshake (manager.localHandshake P pm chainHeight)) =
      326 + (manager.localHandshake P pm chainHeight).addressBytes := by
  have hsize : p2pFraming.size (.handshake (manager.localHandshake P pm chainHeight)) =
      4 + (Bincode.handshake.encode (manager.localHandshake P pm chainHeight)).length :=
    Bincode.message_length _
  have hgenesis : byteLen (manager.localHandshake P pm chainHeight).genesisHash = 64 :=
    (by decide : byteLen genesisHash = 64)
  have hnetwork : byteLen (manager.localHandshake P pm chainHeight).networkId = 7 :=
    (by decide : byteLen networkId = 7)
  have htag : byteLen (manager.localHandshake P pm chainHeight).nodeTag = 23 :=
    (by decide : byteLen (nodeVersion ++ "-consensus-v1.0." ++ toString consensusVersion) = 23)
  have hecon : byteLen (manager.localHandshake P pm chainHeight).econHash = 64 :=
    (by decide : byteLen econHash = 64)
  have hpow : byteLen (manager.localHandshake P pm chainHeight).powParamsHash = 64 :=
    byteLen_hexEncode _
  rw [hsize, Bincode.handshake_length, hgenesis, hnetwork, htag, hecon, hpow]
  unfold HandshakeMessage.addressBytes
  omega

theorem HashTexts.summaryTip_length {g : ChainState} (h : HashTexts g) :
    Bincode.optionTextLength (ChainSummary.fromChain g).tipHash ≤ 73 := by
  unfold ChainSummary.fromChain
  dsimp only
  split
  · decide
  · exact Nat.le_of_eq (congrArg (9 + ·) h.byteLen_tipHash)

/-- Among the messages of a node only a handshake can exceed the limit. -/
theorem Sends.size_le_iff (h : Sends P msg) :
    p2pFraming.size msg ≤ maxMessageBytes ↔ AddressesFit msg := by
  cases h with
  | handshake manager pm chainHeight =>
      rw [localHandshake_size]
      unfold AddressesFit maxAddressBytes
      have hroom : 326 ≤ maxMessageBytes := by decide
      omega
  | @height s g calls hgenesis hrun hwork =>
      have hlength := (hgenesis.hashTexts.applyAll hrun).summaryTip_length
      have hsize : p2pFraming.size (.height (ChainSummary.fromChain g)) =
          4 + (Bincode.chainSummary.encode (ChainSummary.fromChain g)).length :=
        Bincode.message_length _
      have hroom : 101 ≤ maxMessageBytes := by decide
      refine iff_of_true ?_ trivial
      rw [hsize, Bincode.chainSummary_length]
      omega
  | @getBlock announcement hhash =>
      have hsize : p2pFraming.size (.getBlock announcement.hash) =
          4 + (Bincode.text.encode announcement.hash).length := Bincode.message_length _
      have hlength : byteLen announcement.hash = 64 := by
        unfold isCanonicalHash at hhash
        simpa using (Bool.and_eq_true_iff.mp hhash).1
      have hroom : 76 ≤ maxMessageBytes := by decide
      refine iff_of_true ?_ trivial
      rw [hsize, Bincode.text_length, hlength]
      exact hroom
  | announceBlock hown =>
      exact iff_of_true (Nat.le_trans (announceBlock_size_le _) hown.size_le) trivial
  | block hown => exact iff_of_true hown.size_le trivial

theorem handshake_fitsBelow : Bincode.handshake.FitsBelow (256 ^ 8) :=
  (Bincode.fixed_fits.seq (Bincode.hash_fits.seq (Bincode.text_fitsBelow.seq
    (Bincode.fixed_fits.seq (Bincode.fixed_fits.seq (Bincode.text_fitsBelow.seq
      (Bincode.text_fitsBelow.seq (Bincode.text_fitsBelow.seq (Bincode.text_fitsBelow.seq
        ((Bincode.option_fitsBelow Bincode.text_fitsBelow).seq
          ((Bincode.option_fitsBelow Bincode.fixed_fits).seq
            (Bincode.list_fitsBelow Bincode.text_fitsBelow fun s => by
              rw [Bincode.text_length]
              exact Nat.lt_of_lt_of_le (by decide) (Nat.le_add_right 8 _))))))))))))).iso

theorem announceBlock_fitsBelow : Bincode.announceBlock.FitsBelow (256 ^ 8) :=
  (Bincode.fixed_fits.seq (Bincode.text_fitsBelow.seq Bincode.text_fitsBelow)).iso

theorem chainSummary_fits {summary : ChainSummary} (hwork : summary.cumulativeWork < u128Bound)
    (hlength : (Bincode.chainSummary.encode summary).length < 256 ^ 8) :
    Bincode.chainSummary.Fits summary := by
  rw [Bincode.chainSummary_length] at hlength
  refine ⟨UInt64.toNat_lt _, ?_, hwork⟩
  have htip : Bincode.optionTextLength summary.tipHash < 256 ^ 8 := by
    omega
  apply Bincode.option_fitsBelow Bincode.text_fitsBelow
  rw [Bincode.optionText_length]
  exact htip

/-- The values of the source's types: a work is a 128-bit number. -/
def P2PMessage.Typed : P2PMessage -> Prop
  | .height summary => summary.cumulativeWork < u128Bound
  | _ => True

/-- A message whose length fits the header has a frame. -/
theorem framed_of_size (htyped : msg.Typed) (hsize : p2pFraming.size msg < 2 ^ 32) :
    p2pFraming.Framed msg := by
  have hbody : ((Bincode.MessageTag.body (Bincode.messageParts msg).1).encode
      (Bincode.messageParts msg).2).length < 256 ^ 8 := by
    have hlength : p2pFraming.size msg = 4 + _ := Bincode.message_length msg
    rw [hlength] at hsize
    exact Nat.lt_trans (Nat.lt_of_le_of_lt (Nat.le_add_left _ _) hsize) (by decide)
  have htag : (Bincode.messageParts msg).1.index < 256 ^ 4 :=
    Nat.lt_trans (Bincode.MessageTag.index_lt _) (by decide)
  refine ⟨⟨htag, ?_⟩, hsize⟩
  cases msg with
  | handshake handshake => exact handshake_fitsBelow _ hbody
  | ping timestamp => exact UInt64.toNat_lt _
  | pong timestamp => exact UInt64.toNat_lt _
  | getHeight => trivial
  | height summary => exact chainSummary_fits htyped hbody
  | announceBlock announcement => exact announceBlock_fitsBelow _ hbody
  | getBlock hash => exact Bincode.text_fitsBelow _ hbody
  | block blk => exact Bincode.block_fitsBelow _ hbody
  | disconnect reason => exact Bincode.text_fitsBelow _ hbody

/-- A message of a node that is short enough has a frame. -/
theorem Sends.framed (h : Sends P msg) (hsize : p2pFraming.size msg ≤ maxMessageBytes) :
    p2pFraming.Framed msg := by
  have hlimit : maxMessageBytes < 2 ^ 32 := by decide
  refine framed_of_size ?_ (Nat.lt_of_le_of_lt hsize hlimit)
  cases h with
  | handshake manager pm chainHeight => trivial
  | height hgenesis hrun hwork => exact hwork
  | getBlock hhash => trivial
  | announceBlock hown => trivial
  | block hown => trivial

/-- The frames of the messages, however they arrive, are read back as these messages. -/
def ReadBack (messages : List P2PMessage) : Prop :=
  (forall msg, msg ∈ messages -> p2pFraming.size msg ≤ maxMessageBytes) ∧
    forall arrivals : List Bytes, arrivals.flatten = messages.flatMap sendMessage ->
      Framing.Inbox.feedAll p2pFraming Framing.Inbox.empty arrivals =
        { received := messages
          taken := []
          failed := false }

theorem Sends.readBack (hsends : forall msg, msg ∈ messages -> Sends P msg)
    (hfit : forall msg, msg ∈ messages -> AddressesFit msg) : ReadBack messages := by
  have hsize : forall msg, msg ∈ messages -> p2pFraming.size msg ≤ maxMessageBytes :=
    fun msg hmem => (hsends msg hmem).size_le_iff.mpr (hfit msg hmem)
  have hframed : forall msg, msg ∈ messages -> p2pFraming.Framed msg :=
    fun msg hmem => (hsends msg hmem).framed (hsize msg hmem)
  exact ⟨hsize, fun arrivals harrivals => Framing.Inbox.feedAll_wire hframed hsize harrivals⟩

/-- What a node sends is read back if and only if its handshakes leave room for
everything but the addresses. -/
theorem readBack_iff (hsends : forall msg, msg ∈ messages -> Sends P msg) :
    ReadBack messages ↔ forall msg, msg ∈ messages -> AddressesFit msg := by
  constructor
  · intro hread msg hmem
    exact (hsends msg hmem).size_le_iff.mp (hread.1 msg hmem)
  · exact Sends.readBack hsends

theorem readBack_sample : ReadBack [.getBlock genesisHash] ↔
    forall msg, msg ∈ [P2PMessage.getBlock genesisHash] -> AddressesFit msg := by
  have hcanonical : isCanonicalHash genesisHash = true := by decide +kernel
  apply readBack_iff (P := samplePlatform)
  intro msg hmem
  rw [List.mem_singleton.mp hmem]
  exact @Sends.getBlock samplePlatform
    { height := 0
      hash := genesisHash
      prev := "" } hcanonical

end Messages

/-!
# A long host
-/

/-- A host of letters. -/
def longHost (n : Nat) : String :=
  String.ofList (List.replicate (n + 1) 'x')

section LongHost

variable {n : Nat}

theorem asBytes_longHost (n : Nat) : asBytes (longHost n) = List.replicate (n + 1) 120 := by
  unfold longHost
  rw [asBytes_ofList, List.flatMap_replicate]
  have hletter : String.utf8EncodeChar 'x' = [120] := by decide
  rw [hletter]
  simp

theorem byteLen_append (s t : String) : byteLen (s ++ t) = byteLen s + byteLen t := by
  unfold byteLen asBytes
  simp [String.toUTF8]

theorem byteLen_longHost (n : Nat) : byteLen (longHost n) = n + 1 := by
  unfold byteLen
  rw [asBytes_longHost, List.length_replicate]

theorem trim_longHost (n : Nat) : trim (longHost n) = longHost n := by
  have hletter : isWhiteSpace 'x' = false := by decide
  have hdrop : (List.replicate (n + 1) 'x').dropWhile isWhiteSpace =
      List.replicate (n + 1) 'x' := by
    rw [List.replicate_succ, List.dropWhile_cons_of_neg (by rw [hletter]; exact Bool.false_ne_true)]
  unfold trim longHost
  rw [String.toList_ofList, hdrop, List.reverse_replicate, hdrop, List.reverse_replicate]

theorem toAsciiLowercase_longHost (n : Nat) : toAsciiLowercase (longHost n) = longHost n := by
  unfold toAsciiLowercase longHost
  rw [String.toList_ofList, List.map_replicate]
  rfl

theorem parse_longHost (n : Nat) : IpAddr.parse (longHost n) = none := by
  unfold IpAddr.parse longHost
  rw [String.toList_ofList, List.replicate_succ]
  rfl

/-- The address of a long host passes the check. -/
theorem validatedAdvertisedAddr_longHost (n : Nat) :
    validatedAdvertisedAddr (some (longHost n)) (some 9000) true =
      .ok (some (longHost n ++ ":" ++ toString (9000 : UInt16))) := by
  have hcolon : ':' ∉ (longHost n).toList := by
    unfold longHost
    rw [String.toList_ofList]
    intro hmem
    exact absurd (List.eq_of_mem_replicate hmem) (by decide)
  have hnonempty : (longHost n).isEmpty = false := by
    rw [String.isEmpty_eq_false_iff]
    intro hempty
    have hlength := congrArg (fun s => (asBytes s).length) hempty
    rw [asBytes_longHost, List.length_replicate] at hlength
    exact absurd hlength (Nat.succ_ne_zero n)
  have hbytes : (asBytes (longHost n)).all isHostByte = true := by
    rw [asBytes_longHost, List.all_eq_true]
    intro byte hmem
    rw [List.eq_of_mem_replicate hmem]
    decide
  unfold validatedAdvertisedAddr
  dsimp only
  rw [trim_longHost, toAsciiLowercase_longHost, parse_longHost, hnonempty]
  rw [if_neg (by decide), if_neg (fun h => hcolon h.1)]
  dsimp only
  rw [if_pos hbytes]

/-- A node that advertises a long host. -/
def advertisingNode (n : Nat) : P2PConnectionManager :=
  { localNodeNonce := 1
    advertisedIp := some (longHost n)
    advertisedPort := some 9000
    allowPrivatePeerAddresses := true }

/-- A node that advertises nothing. -/
def quietNode : P2PConnectionManager :=
  { localNodeNonce := 2
    advertisedIp := none
    advertisedPort := none
    allowPrivatePeerAddresses := true }

def longHandshake (n : Nat) : HandshakeMessage :=
  (advertisingNode n).localHandshake samplePlatform PeerManager.empty 0

def longAddress (n : Nat) : String :=
  longHost n ++ ":" ++ toString (9000 : UInt16)

/-- The peers of the quiet node once it has met the advertising one. -/
def longPeers (n : Nat) : PeerManager :=
  PeerManager.empty.observeInbound (longAddress n) "10.0.0.9:50000"

theorem byteLen_longAddress (n : Nat) : byteLen (longAddress n) = n + 6 := by
  have hport : byteLen (toString (9000 : UInt16)) = 4 := by decide
  have hcolon : byteLen ":" = 1 := by decide
  unfold longAddress
  rw [byteLen_append, byteLen_append, hport, hcolon, byteLen_longHost]

theorem longHandshake_accepted (n : Nat) :
    validateHandshake samplePlatform (longHandshake n) quietNode.localNodeNonce = .accepted :=
  validateHandshake_newWithAdvertised samplePlatform 0 (by decide : (1 : UInt64) ≠ 2)
    (some (longHost n)) (some 9000)

theorem longHandshake_resolved (n : Nat) :
    PeerManager.empty.resolveInboundPeerKey "10.0.0.9:50000" (longHandshake n) true =
      .ok (longAddress n, longPeers n) := by
  unfold PeerManager.resolveInboundPeerKey
  have haddress : validatedAdvertisedAddr (longHandshake n).advertisedIp
      (longHandshake n).advertisedPort true = .ok (some (longAddress n)) :=
    validatedAdvertisedAddr_longHost n
  rw [haddress]
  rfl

theorem longPeers_dialable (hn : 8 < n) :
    (longPeers n).dialableAddresses maxSharedPeers = [longAddress n] := by
  have hother : longAddress n ≠ "10.0.0.9:50000" := by
    intro heq
    have hlength := congrArg byteLen heq
    rw [byteLen_longAddress, (by decide : byteLen "10.0.0.9:50000" = 14)] at hlength
    omega
  have hget : (longPeers n).peers[longAddress n]? =
      some { Peer.new (longAddress n) false with
        observedAddr := some "10.0.0.9:50000"
        advertisedAddr := some (longAddress n) } := by
    unfold longPeers PeerManager.observeInbound PeerManager.entry PeerManager.empty
    simp [hother]
  have hlength : (longPeers n).peers.toList.length = 1 := by
    unfold longPeers PeerManager.observeInbound PeerManager.entry PeerManager.empty
    simp [ExtTreeMap.length_toList, ExtTreeMap.size_insert]
  rcases List.length_eq_one_iff.mp hlength with ⟨entry, hentry⟩
  have hmem := ExtTreeMap.mem_toList_iff_getElem?_eq_some.mpr hget
  rw [hentry, List.mem_singleton] at hmem
  unfold PeerManager.dialableAddresses
  rw [hentry, ← hmem]
  simp only [List.filter_cons, Option.isSome_some, Bool.or_true, if_true, List.filter_nil,
    List.map_cons, List.map_nil, List.mergeSort_singleton]
  rfl

theorem dialableAddresses_empty (limit : Nat) :
    PeerManager.empty.dialableAddresses limit = [] := by
  have hempty : PeerManager.empty.peers.toList = [] := ExtTreeMap.toList_eq_nil_iff.mpr rfl
  unfold PeerManager.dialableAddresses
  rw [hempty, List.filter_nil]
  dsimp only
  rw [List.map_nil, List.mergeSort_nil]
  exact List.take_nil

theorem longHandshake_size (n : Nat) :
    p2pFraming.size (.handshake (longHandshake n)) = n + 339 := by
  have hseeds : (longHandshake n).seedPeers = [] := dialableAddresses_empty maxSharedPeers
  have hip : Bincode.optionTextLength (longHandshake n).advertisedIp = 9 + byteLen (longHost n) :=
    rfl
  have hport : (longHandshake n).advertisedPort.isSome = true := rfl
  have hsize : p2pFraming.size (.handshake (longHandshake n)) =
      326 + (longHandshake n).addressBytes := localHandshake_size _ _ _
  rw [hsize]
  unfold HandshakeMessage.addressBytes
  rw [hseeds, hip, byteLen_longHost, if_pos hport, List.map_nil, List.sum_nil]
  omega

theorem answer_size (hn : 8 < n) :
    p2pFraming.size (.handshake (quietNode.localHandshake samplePlatform (longPeers n) 0)) =
      n + 342 := by
  have hseeds : (quietNode.localHandshake samplePlatform (longPeers n) 0).seedPeers =
      [longAddress n] := longPeers_dialable hn
  have hip : Bincode.optionTextLength
      (quietNode.localHandshake samplePlatform (longPeers n) 0).advertisedIp = 1 := rfl
  have hport : (quietNode.localHandshake samplePlatform (longPeers n) 0).advertisedPort.isSome =
      false := rfl
  rw [localHandshake_size]
  unfold HandshakeMessage.addressBytes
  rw [hseeds, hip, hport, List.map_singleton, List.sum_singleton, byteLen_longAddress]
  simp
  omega

/-- The longest host whose handshake can be read. -/
def longestHost : Nat := maxMessageBytes - 339

theorem longHandshake_readBack : ReadBack [.handshake (longHandshake longestHost)] := by
  have hsends : forall msg, msg ∈ [P2PMessage.handshake (longHandshake longestHost)] ->
      Sends samplePlatform msg := by
    intro msg hmem
    rw [List.mem_singleton.mp hmem]
    exact Sends.handshake (advertisingNode longestHost) PeerManager.empty 0
  apply Sends.readBack hsends
  intro msg hmem
  apply (hsends msg hmem).size_le_iff.mp
  rw [List.mem_singleton.mp hmem, longHandshake_size]
  decide

/-- A node whose peer advertises a long host shares it in a handshake that no node can
read, although the handshake of that peer has been read. -/
theorem longHost_unreadable :
    ReadBack [.handshake (longHandshake longestHost)] ∧
      validateHandshake samplePlatform (longHandshake longestHost) quietNode.localNodeNonce =
        .accepted ∧
      PeerManager.empty.resolveInboundPeerKey "10.0.0.9:50000" (longHandshake longestHost)
        quietNode.allowPrivatePeerAddresses = .ok (longAddress longestHost, longPeers longestHost) ∧
      exists msg, msg =
          .handshake (quietNode.localHandshake samplePlatform (longPeers longestHost) 0) ∧
        Sends samplePlatform msg ∧ ¬ ReadBack [msg] ∧
        (Framing.Inbox.feedAll p2pFraming Framing.Inbox.empty [sendMessage msg]).received = [] := by
  have hsize := answer_size (by decide : 8 < longestHost)
  have hlimit : maxMessageBytes < longestHost + 342 := by decide
  have hspan : longestHost + 342 < 2 ^ 32 := by decide
  refine ⟨longHandshake_readBack, longHandshake_accepted longestHost,
    longHandshake_resolved longestHost, _, rfl, Sends.handshake _ _ _, ?_, ?_⟩
  · intro hread
    have hle := hread.1 _ List.mem_cons_self
    rw [hsize] at hle
    exact absurd hlimit (Nat.not_lt.mpr hle)
  · have hframed : p2pFraming.Framed
        (.handshake (quietNode.localHandshake samplePlatform (longPeers longestHost) 0)) := by
      refine framed_of_size ?_ ?_
      · trivial
      · rw [hsize]
        exact hspan
    rw [Framing.Inbox.feedAll_eq, List.flatten_singleton]
    exact (Framing.Inbox.foldl_feed_oversized hframed (by rw [hsize]; exact hlimit)
      Framing.Inbox.empty rfl rfl (by decide) (List.nil_append _)).1

end LongHost

end VisionCore
