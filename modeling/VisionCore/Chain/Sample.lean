import VisionCore.Chain.Run

/-!
# Sealing blocks

`sealBlock` fills in the roots and the proof of work of a block over a given
account state, as the producer of test blocks does.  On any platform a block
sealed at the difficulty floor carries a valid proof of work.  The sample
platform makes such blocks computable.
-/

namespace VisionCore

/-!
# Sealing
-/

/-- A coinbase transaction that encodes `height` as eight big-endian bytes. -/
def coinbaseTx (height : UInt64) : Tx :=
  { nonce := height
    senderPubkey := ""
    «module» := "coinbase"
    method := "reward"
    args := toBeBytes 8 height.toNat
    tip := 0
    feeLimit := 0
    sig := "" }

/-- The parts of a block that its producer chooses. -/
structure BlockDraft where
  parentHash : String
  number : UInt64
  timestamp : UInt64
  nonce : UInt64
  miner : String
  txs : List Tx

/-- The block of a draft at the difficulty floor, without roots and proof of work. -/
def BlockDraft.block (draft : BlockDraft) : Block :=
  { header :=
      { parentHash := draft.parentHash
        number := draft.number
        timestamp := draft.timestamp
        difficulty := difficultyFloor
        nonce := draft.nonce
        powHash := ""
        stateRoot := ""
        txRoot := ""
        miner := draft.miner }
    txs := coinbaseTx draft.number :: draft.txs
    weight := UInt64.ofNat (draft.txs.length + 1) }

/-- The root of the account state after the block, empty when it does not execute. -/
def postStateRoot (P : Platform) (state : TxExecutionState) (blk : Block) : String :=
  match replayBlock P state blk with
  | .error _ => ""
  | .ok post =>
      match computeStateRoot P post.balances post.nonces with
      | .error _ => ""
      | .ok root => root

/-- The proof of work of a header, empty when its hash fields do not decode. -/
def powHashOf (P : Platform) (header : BlockHeader) : String :=
  match historicalBlockDigest P visionxParams (visionxParams.epoch header.number) header with
  | .error _ => ""
  | .ok digest => hexEncode digest.bytes

def sealBlock (P : Platform) (state : TxExecutionState) (draft : BlockDraft) : Block :=
  let blk := draft.block
  let blk := { blk with header := { blk.header with txRoot := blk.computeTxRoot P } }
  let blk := { blk with header := { blk.header with stateRoot := postStateRoot P state blk } }
  { blk with header := { blk.header with powHash := powHashOf P blk.header } }

/-!
# The difficulty floor
-/

theorem bytesLe_replicate (bytes : Bytes) {n : Nat} (h : bytes.length ≤ n) :
    bytesLe bytes (List.replicate n 255) = true := by
  induction bytes generalizing n with
  | nil => cases n <;> rfl
  | cons byte rest ih =>
      cases n with
      | zero => cases h
      | succ n =>
          rw [List.replicate_succ]
          unfold bytesLe
          have hbyte := byte.toNat_lt
          have hmax : (255 : UInt8).toNat = 255 := rfl
          split
          · rfl
          · rw [if_neg (by omega)]
            exact ih (Nat.le_of_succ_le_succ h)

/-- The target of the floor admits every digest. -/
theorem meetsTarget_floor (digest : U256) :
    meetsTarget digest (difficultyToTarget difficultyFloor) = true := by
  have htarget : (difficultyToTarget difficultyFloor).bytes.take 8 = List.replicate 8 255 := by
    decide
  unfold meetsTarget
  rw [htarget]
  exact bytesLe_replicate _ (List.length_take_le _ _)

theorem powHashOf_eq {P : Platform} {header : BlockHeader} {digest : U256}
    (h : historicalBlockDigest P visionxParams (visionxParams.epoch header.number) header =
      .ok digest) : powHashOf P header = hexEncode digest.bytes := by
  unfold powHashOf
  rw [h]

/-- A block sealed at the floor carries a valid proof of work. -/
theorem sealBlock_pow {P : Platform} {state : TxExecutionState} {draft : BlockDraft}
    {digest : U256} (hdigest : historicalBlockDigest P visionxParams
      (visionxParams.epoch draft.number) (sealBlock P state draft).header = .ok digest) :
    verifyVisionxPow P (sealBlock P state draft) none "" = .ok () := by
  have hdifficulty : (sealBlock P state draft).header.difficulty = difficultyFloor := rfl
  -- the digest does not read the field that it fills in
  have hhash : (sealBlock P state draft).hash = hexEncode digest.bytes :=
    @powHashOf_eq P { (sealBlock P state draft).header with powHash := "" } digest hdigest
  have hdigest' : historicalBlockDigest P visionxParams
      (visionxParams.epoch (sealBlock P state draft).header.number)
      (sealBlock P state draft).header = .ok digest := hdigest
  unfold verifyVisionxPow
  dsimp only
  rw [hdigest']
  simp [hdifficulty, meetsTarget_floor, hhash]

/-!
# The sample platform
-/

/-- The first 32 bytes, padded with zeros. -/
def padDigest (bytes : Bytes) : U256 :=
  { bytes := bytes.take 32 ++ List.replicate (32 - (bytes.take 32).length) 0
    length_eq := by
      rw [List.length_append, List.length_replicate]
      have hlength := List.length_take_le 32 bytes
      omega }

/-- The bytes of `genesisHash`. -/
def genesisDigest : U256 :=
  { bytes :=
      [0xd6, 0x46, 0x9e, 0xc9, 0x5f, 0x56, 0xb5, 0x6b, 0xe4, 0x92, 0x1e, 0xf4, 0x0b, 0x97,
        0x95, 0x90, 0x2c, 0x96, 0xf2, 0xad, 0x26, 0x58, 0x2e, 0xf8, 0xdb, 0x8f, 0xac, 0x46,
        0xf4, 0xa7, 0xaa, 0x13]
    length_eq := rfl }

def samplePayee : String :=
  "bbbbbbbbbbbbbbbbbbbbbbbbbbbbbbbbbbbbbbbbbbbbbbbbbbbbbbbbbbbbbbbb"

def sampleMiner : String :=
  "aaaaaaaaaaaaaaaaaaaaaaaaaaaaaaaaaaaaaaaaaaaaaaaaaaaaaaaaaaaaaaaa"

/-- Digests that keep the start of their input, and the genesis digest for a
canonical header, which starts with the block version.  The proof-of-work digest
is the nonce; every signature is accepted and every transfer pays one unit. -/
def samplePlatform : Platform :=
  { blake3 := fun bytes => if bytes.take 4 = [0, 0, 0, 1] then genesisDigest else padDigest bytes
    verifyingKey := fun _ => true
    verify := fun _ _ _ => true
    transferArgsFromJson := fun _ =>
      some { «to» := samplePayee, amount := 1, amount_lt := by decide }
    visionxHash := fun _ _ _ _ nonce => padDigest (toBeBytes 8 nonce.toNat)
    overflowChecks := true }

/-- A host with a standing clock on which every write succeeds. -/
def sampleHost : Host :=
  { clock := fun _ => 1000000
    clock_lt := by
      intro _
      decide
    reads := 0
    writeOk := fun _ => true
    writes := 0
    reorgLog := [] }

def sampleCall (blk : Block) : Call :=
  { host := sampleHost, blk := blk, sourcePeer := none }

def sampleDraft (parentHash : String) (number timestamp nonce : UInt64) (txs : List Tx) :
    BlockDraft :=
  { parentHash := parentHash
    number := number
    timestamp := timestamp
    nonce := nonce
    miner := sampleMiner
    txs := txs }

/-- The abort of a computation, if it aborts. -/
def faultOf {α : Type} : Except Fault α -> Option Fault
  | .ok _ => none
  | .error f => some f

theorem eq_error_of_faultOf {α : Type} {x : Except Fault α} {f : Fault}
    (h : faultOf x = some f) : x = .error f := by
  cases x with
  | ok a => cases h
  | error f' => rw [Option.some.inj h]

/-- The state of the sample node after genesis. -/
def sampleGenesis : ChainState :=
  genesisApplied (ChainState.empty Db.empty) genesisBlock

theorem sampleGenesis_applied : GenesisApplied samplePlatform sampleGenesis :=
  ⟨sampleHost, Db.empty, none, _, rfl, rfl, rfl⟩

/-!
# Sample blocks

Two branches of two blocks each over genesis.
-/

/-- The account state after a block, unchanged when the block does not execute. -/
def stateAfter (P : Platform) (state : TxExecutionState) (blk : Block) : TxExecutionState :=
  match replayBlock P state blk with
  | .ok post => post
  | .error _ => state

def firstBlock : Block :=
  sealBlock samplePlatform .new (sampleDraft genesisHash 1 100 1 [])

def secondBlock : Block :=
  sealBlock samplePlatform (stateAfter samplePlatform .new firstBlock)
    (sampleDraft firstBlock.hash 2 200 2 [])

def rivalFirst : Block :=
  sealBlock samplePlatform .new (sampleDraft genesisHash 1 100 3 [])

def rivalSecond : Block :=
  sealBlock samplePlatform (stateAfter samplePlatform .new rivalFirst)
    (sampleDraft rivalFirst.hash 2 200 4 [])

def sampleBlocks : List Block :=
  [firstBlock, secondBlock, rivalFirst, rivalSecond]

/-- On a list of blocks the numbering is a finite check. -/
theorem numberedFrom_of_list {P : Platform} {blocks : List Block}
    (h : forall blk, blk ∈ blocks -> forall parent, parent ∈ genesisBlock :: blocks ->
      blk.header.parentHash = parent.hash ->
        blk.header.number.toNat = parent.header.number.toNat + 1) :
    NumberedFrom P fun blk => blk ∈ blocks := by
  intro blk parent hblk _ _ hparent hname
  rcases hparent with rfl | ⟨hmem, _⟩
  · exact h blk hblk _ List.mem_cons_self hname
  · exact h blk hblk parent (List.mem_cons_of_mem _ hmem) hname

theorem sampleBlocks_numbered : NumberedFrom samplePlatform fun blk => blk ∈ sampleBlocks :=
  numberedFrom_of_list (by decide +kernel)

theorem sampleBlocks_avoidGenesis :
    AvoidsGenesis samplePlatform fun blk => blk ∈ sampleBlocks := by
  have hnames : forall blk, blk ∈ sampleBlocks -> blk.hash ≠ genesisHash := by decide +kernel
  exact fun blk hblk _ _ => hnames blk hblk

/-- A sample call delivers a sample block. -/
theorem sampleCalls_delivered {blocks : List Block} (h : blocks ⊆ sampleBlocks) :
    forall call, call ∈ blocks.map sampleCall -> call.blk ∈ sampleBlocks := by
  intro call hcall
  rcases List.mem_map.mp hcall with ⟨blk, hblk, rfl⟩
  exact h hblk

/-!
# Sample transfers

A block that spends its miner's reward, and a branch beside it that outgrows it.
-/

/-- A transfer with the lowest fee limit. -/
def sampleTransfer (senderPubkey : String) : Tx :=
  { nonce := 0
    senderPubkey := senderPubkey
    «module» := "cash"
    method := "transfer"
    args := []
    tip := 0
    feeLimit := minCashTransferFeeLimit
    sig := String.ofList (List.replicate 128 'd') }

/-- Two transfers of the miner of the first block. -/
def spendingBlock : Block :=
  sealBlock samplePlatform (stateAfter samplePlatform .new firstBlock)
    (sampleDraft firstBlock.hash 2 200 5
      [sampleTransfer sampleMiner, { sampleTransfer sampleMiner with nonce := 1 }])

def rivalThird : Block :=
  sealBlock samplePlatform
    (stateAfter samplePlatform (stateAfter samplePlatform .new rivalFirst) rivalSecond)
    (sampleDraft rivalSecond.hash 3 300 6 [])

def spendingBlocks : List Block :=
  [firstBlock, spendingBlock, rivalFirst, rivalSecond, rivalThird]

theorem spendingBlocks_numbered :
    NumberedFrom samplePlatform fun blk => blk ∈ spendingBlocks :=
  numberedFrom_of_list (by decide +kernel)

theorem spendingCalls_delivered {blocks : List Block} (h : blocks ⊆ spendingBlocks) :
    forall call, call ∈ blocks.map sampleCall -> call.blk ∈ spendingBlocks := by
  intro call hcall
  rcases List.mem_map.mp hcall with ⟨blk, hblk, rfl⟩
  exact h hblk

end VisionCore
