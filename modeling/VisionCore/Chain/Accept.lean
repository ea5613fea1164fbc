import VisionCore.Chain.Orphan
import VisionCore.Chain.Reorg
import VisionCore.Chain.Snapshots
import VisionCore.Pow.Difficulty
import VisionCore.Pow.VisionX

/-!
# Block acceptance

The single entry point for blocks.  `acceptBlock` is the pipeline up to the
point where waiting orphans are offered again; `applyBlock` closes the recursion
through `processOrphans`.
-/

namespace VisionCore

/-!
# Results
-/

inductive PowFailure where
  | digest (e : DigestError)
  | failed (path : String) (expectedDifficulty : Option UInt64)
  | hashMismatch (path : String) (expectedDifficulty : Option UInt64)
deriving DecidableEq, Repr

/-- Why the account state below a side-chain block cannot be rebuilt. -/
inductive ReplayError where
  | txFailed (index : Nat) (e : TxExecutionError)
  | coinbase (e : CoinbaseError)
  | brokenAncestry (parentHash : String)
deriving DecidableEq, Repr

inductive RejectReason where
  | weightExceedsLimit (weight : UInt64)
  | txRootMismatch (header computed : String)
  | missingCoinbase
  | firstTxNotCoinbase
  | duplicateBlock (hash : String)
  | genesisHashMismatch (got : String)
  | genesisAlreadyApplied
  | timestampNotMonotonic (blk parent : UInt64)
  | timestampTooFarInFuture (blk limit : UInt64)
  | difficultyBelowFloor (difficulty : UInt64)
  | difficultyMismatch (number header expected : UInt64)
  | pow (e : PowFailure)
  | coinbaseArgsLength (got : Nat)
  | coinbaseHeightMismatch (encoded : Nat) (number : UInt64)
  | duplicateTx (id : String)
  | parentState (e : ReplayError)
  | txValidationFailed (index : Nat) (e : TxExecutionError)
  | coinbaseRewardFailed (e : CoinbaseError)
  | stateRootConstructionFailed
  | stateRootMismatch (header computed : String)
  | canonicalPersistenceFailed (e : StorageError)
  | sideChainPersistenceFailed (e : StorageError)
deriving DecidableEq, Repr

inductive AcceptResult where
  | canonExtension (height : UInt64)
  | sideChain (height : UInt64)
  | storedOrphan (blockHash : String)
  | rejected (reason : RejectReason)
deriving DecidableEq, Repr

/-!
# Lookups
-/

def resolveBlock (g : ChainState) (hash : String) : Option Block :=
  match g.canonIndex[hash]? with
  | some height => g.blocks[height.toNat]?
  | none => g.sideBlocks[hash]?

/-- The test for the genesis sentinel: every character is a zero. -/
def isZeroHash (hash : String) : Bool :=
  (asBytes hash).all fun byte => byte.toNat == 48

/-- Ancestors from `current` downwards, at most `limit` of them, prepended to
the newer blocks already collected. -/
def ancestorWindowLoop (g : ChainState) : Nat -> String -> List Block -> List Block
  | 0, _, chain => chain
  | limit + 1, current, chain =>
      match resolveBlock g current with
      | none => chain
      | some blk =>
          if isZeroHash blk.header.parentHash then blk :: chain
          else ancestorWindowLoop g limit blk.header.parentHash (blk :: chain)

def collectAncestorWindow (g : ChainState) (tipHash : String) : List Block :=
  ancestorWindowLoop g (retargetWindow + 1) tipHash []

def pushCanonical (g : ChainState) (blk : Block) (cw : Nat) : ChainState :=
  { g with
    pendingReorgRecovery := none
    cumulativeWork := g.cumulativeWork.insert blk.hash cw
    seenBlocks := g.seenBlocks.insert blk.hash
    canonIndex := g.canonIndex.insert blk.hash blk.header.number
    blocks := g.blocks ++ [blk] }

/-!
# Reconstruction of the parent state
-/

def replayBlock (P : Platform) (state : TxExecutionState) (blk : Block) :
    Except (Stop ReplayError) TxExecutionState :=
  match executeNonCoinbaseTxs P state blk with
  | .error (index, e) => .error (.err (.txFailed index e))
  | .ok state => mapErr .coinbase (creditMiner P state blk)

def reconstructCanonicalStateAtHeight (P : Platform) (g : ChainState) (height : UInt64) :
    Except (Stop ReplayError) TxExecutionState := do
  let count <- liftFault (addU64 P height 1)
  (g.blocks.take count.toNat).foldlM (replayBlock P) .new

/-- The loop of `reconstructParentStateForSideChain`; fuel as in
`collectNewSegmentLoop`. -/
def sideChainStateLoop (P : Platform) (g : ChainState) (parentHash : String) :
    Nat -> String -> List Block -> Except (Stop ReplayError) TxExecutionState
  | 0, _, _ => .error (.fault .diverges)
  | fuel + 1, current, branch =>
      match g.canonIndex[current]? with
      | some height => do
          let state <- reconstructCanonicalStateAtHeight P g height
          branch.foldlM (replayBlock P) state
      | none =>
          match g.sideBlocks[current]? with
          | some blk => sideChainStateLoop P g parentHash fuel blk.header.parentHash (blk :: branch)
          | none => .error (.err (.brokenAncestry parentHash))

def reconstructParentStateForSideChain (P : Platform) (g : ChainState) (parentHash : String) :
    Except (Stop ReplayError) TxExecutionState :=
  match g.canonIndex[parentHash]? with
  | some height => reconstructCanonicalStateAtHeight P g height
  | none => sideChainStateLoop P g parentHash (sideWalkFuel g) parentHash []

/-!
# Validation stages
-/

/-- Stage 1c. -/
def checkCoinbasePresence (blk : Block) : Except RejectReason Unit :=
  if blk.header.number > 0 then
    match blk.txs.head? with
    | none => .error .missingCoinbase
    | some cb =>
        if cb.module ≠ "coinbase" ∨ cb.method ≠ "reward" then .error .firstTxNotCoinbase
        else .ok ()
  else .ok ()

/-- Stages 1a to 1c: the checks that read the block alone. -/
def checkStructure (P : Platform) (blk : Block) : Except RejectReason Unit :=
  if blk.weight > blockWeightLimit then .error (.weightExceedsLimit blk.weight)
  else if blk.header.txRoot ≠ blk.computeTxRoot P then
    .error (.txRootMismatch blk.header.txRoot (blk.computeTxRoot P))
  else checkCoinbasePresence blk

/-- Stage 3. -/
def checkTimestamp (P : Platform) (now : UInt64) (parent blk : Block) :
    Except (Stop RejectReason) Unit :=
  if blk.header.timestamp ≤ parent.header.timestamp then
    .error (.err (.timestampNotMonotonic blk.header.timestamp parent.header.timestamp))
  else do
    let limit <- liftFault (addU64 P now maxFutureTimestampSecs)
    if blk.header.timestamp > limit then
      .error (.err (.timestampTooFarInFuture blk.header.timestamp limit))
    else .ok ()

/-- Stage 4. -/
def checkDifficulty (window : List Block) (blk : Block) : Except RejectReason Unit :=
  let expectedDiff := calculateNextDifficulty window blk.header.timestamp
  if blk.header.difficulty < difficultyFloor then
    .error (.difficultyBelowFloor blk.header.difficulty)
  else if blk.header.difficulty ≠ expectedDiff then
    .error (.difficultyMismatch blk.header.number blk.header.difficulty expectedDiff)
  else .ok ()

/-- Stage 5. -/
def verifyVisionxPow (P : Platform) (blk : Block) (expectedDifficulty : Option UInt64)
    (path : String) : Except PowFailure Unit :=
  let epoch := visionxParams.epoch blk.header.number
  match historicalBlockDigest P visionxParams epoch blk.header with
  | .error e => .error (.digest e)
  | .ok digest =>
      if !meetsTarget digest (difficultyToTarget blk.header.difficulty) then
        .error (.failed path expectedDifficulty)
      else if blk.hash ≠ hexEncode digest.bytes then
        .error (.hashMismatch path expectedDifficulty)
      else .ok ()

def checkPow (P : Platform) (window : List Block) (blk : Block) : Except RejectReason Unit :=
  match verifyVisionxPow P blk
      (some (calculateNextDifficulty window blk.header.timestamp)) "apply_block" with
  | .error e => .error (.pow e)
  | .ok () => .ok ()

/-- Stage 6a. -/
def checkCoinbaseHeight (blk : Block) : Except (Stop RejectReason) Unit :=
  if blk.header.number > 0 then
    match blk.txs[0]? with
    | none => .error (.fault .indexOutOfRange)
    | some cb =>
        if cb.args.length ≠ 8 then .error (.err (.coinbaseArgsLength cb.args.length))
        else if fromBeBytes cb.args ≠ blk.header.number.toNat then
          .error (.err (.coinbaseHeightMismatch (fromBeBytes cb.args) blk.header.number))
        else .ok ()
  else .ok ()

/-- The first identifier of the list that has been seen before. -/
def firstDuplicate : List String -> List String -> Option String
  | _, [] => none
  | seen, id :: rest =>
      if seen.contains id then some id else firstDuplicate (id :: seen) rest

/-- Stage 6b. -/
def checkTxIds (P : Platform) (blk : Block) : Except RejectReason Unit :=
  match firstDuplicate [] (blk.txs.map (canonicalTxId P)) with
  | some id => .error (.duplicateTx id)
  | none => .ok ()

/-- Stage 6c: execute the block on the parent state and compare the root. -/
def executeCandidate (P : Platform) (blk : Block) (parentState : TxExecutionState) :
    Except (Stop RejectReason) TxExecutionState :=
  match executeNonCoinbaseTxs P parentState blk with
  | .error (index, e) => .error (.err (.txValidationFailed index e))
  | .ok state => do
      let state <- mapErr .coinbaseRewardFailed (creditMiner P state blk)
      match computeStateRoot P state.balances state.nonces with
      | .error _ => .error (.err .stateRootConstructionFailed)
      | .ok computedRoot =>
          if blk.header.stateRoot ≠ computedRoot then
            .error (.err (.stateRootMismatch blk.header.stateRoot computedRoot))
          else .ok state

def liftReject {α : Type} : Except RejectReason α -> Except (Stop RejectReason) α
  | .ok a => .ok a
  | .error reason => .error (.err reason)

/-- Stages 3 to 6, given what they read from the chain: the parent block, the
retarget window that ends in it, and the account state after it. -/
def validateInContext (P : Platform) (now : UInt64) (blk parent : Block)
    (window : List Block) (parentState : Except (Stop RejectReason) TxExecutionState) :
    Except (Stop RejectReason) TxExecutionState := do
  checkTimestamp P now parent blk
  liftReject (checkDifficulty window blk)
  liftReject (checkPow P window blk)
  checkCoinbaseHeight blk
  liftReject (checkTxIds P blk)
  let state <- parentState
  executeCandidate P blk state

/-- The live state for the tip, a reconstruction for any other parent. -/
def parentStateOf (P : Platform) (g : ChainState) (parentHash : String) :
    Except (Stop RejectReason) TxExecutionState :=
  if parentHash = g.tipHash then .ok { balances := g.balances, nonces := g.nonces }
  else mapErr .parentState (reconstructParentStateForSideChain P g parentHash)

def validateAgainstParent (P : Platform) (now : UInt64) (g : ChainState) (blk : Block) :
    Except (Stop RejectReason) TxExecutionState :=
  match resolveBlock g blk.header.parentHash with
  | none => .error (.fault .expectNone)
  | some parent =>
      validateInContext P now blk parent (collectAncestorWindow g blk.header.parentHash)
        (parentStateOf P g blk.header.parentHash)

/-!
# Integration
-/

/-- What the pipeline returns before orphans are processed; `promote` is the
hash whose waiting children are to be offered again. -/
structure Step where
  result : AcceptResult
  chain : ChainState
  host : Host
  promote : Option String

def rejectStep (host : Host) (g : ChainState) (reason : RejectReason) : Step :=
  { result := .rejected reason, chain := g, host := host, promote := none }

/-- The genesis special case of stage 2. -/
def acceptGenesis (host : Host) (g : ChainState) (blk : Block) : Step :=
  if blk.hash ≠ genesisHash then rejectStep host g (.genesisHashMismatch blk.hash)
  else if !g.blocks.isEmpty then rejectStep host g .genesisAlreadyApplied
  else
    match persistCanonicalExtension host g blk with
    | (.error e, _, host) => rejectStep host g (.canonicalPersistenceFailed e)
    | (.ok (), db, host) =>
        { result := .canonExtension 0
          chain := pushCanonical { g with db := db } blk blk.header.difficulty.toNat
          host := host
          promote := none }

/-- Lane A: the block extends the canonical tip. -/
def extendCanonical (P : Platform) (host : Host) (g : ChainState) (blk : Block)
    (candidateCw : Nat) (state : TxExecutionState) : Step :=
  match persistCanonicalExtension host g blk with
  | (.error e, _, host) => rejectStep host g (.canonicalPersistenceFailed e)
  | (.ok (), db, host) =>
      let g := { g with db := db, balances := state.balances, nonces := state.nonces }
      let g := pushCanonical g blk candidateCw
      let saved := maybeSaveSnapshot P host g
      { result := .canonExtension blk.header.number
        chain := { g with db := saved.2.1 }
        host := saved.2.2
        promote := some blk.hash }

/-- Record a block of a non-tip chain. -/
def recordSideBlock (g : ChainState) (blk : Block) (candidateCw : Nat) : ChainState :=
  { g with
    cumulativeWork := g.cumulativeWork.insert blk.hash candidateCw
    seenBlocks := g.seenBlocks.insert blk.hash
    sideBlocks := g.sideBlocks.insert blk.hash blk }

/-- Lane B: the block is recorded on its branch, and its branch replaces the
canonical one when it has strictly more work. -/
def storeSideChain (P : Platform) (host : Host) (g : ChainState) (blk : Block)
    (tipCw candidateCw : Nat) : Except Fault Step :=
  match storeBlock host g blk with
  | (.error e, _, host) => .ok (rejectStep host g (.sideChainPersistenceFailed e))
  | (.ok (), db, host) =>
      let g := recordSideBlock { g with db := db } blk candidateCw
      if candidateCw > tipCw then do
        let (recovery, g, host) <- tryReorg P host g blk
        match recovery with
        | some recovery =>
            return {
              result := .canonExtension blk.height
              chain := { g with pendingReorgRecovery := some recovery }
              host := host
              promote := some blk.hash }
        | none =>
            return {
              result := .sideChain blk.height
              chain := g
              host := host
              promote := some blk.hash }
      else
        .ok {
          result := .sideChain blk.height
          chain := g
          host := host
          promote := some blk.hash }

/-- The pipeline of `applyBlock` up to the promotion of orphans.  The clock is
read once by a call that gets past the genesis case. -/
def acceptBlock (P : Platform) (host : Host) (g : ChainState) (blk : Block)
    (sourcePeer : Option String) : Except Fault Step :=
  match checkStructure P blk with
  | .error reason => .ok (rejectStep host g reason)
  | .ok () =>
      if g.seenBlocks.contains blk.hash then
        .ok (rejectStep host g (.duplicateBlock blk.hash))
      else if blk.header.number = 0 then .ok (acceptGenesis host g blk)
      else do
        let parentHash := blk.header.parentHash
        let tipCw := g.workOf g.tipHash
        let candidateCw <- addU128 P (g.workOf parentHash) blk.header.difficulty.toNat
        if !g.canonIndex.contains parentHash && !g.sideBlocks.contains parentHash then
          return {
            result := .storedOrphan blk.hash
            chain := addOrphan host.now g blk (sourcePeer.getD "anon")
            host := host.tick
            promote := none }
        else
          match validateAgainstParent P host.now g blk with
          | .error (.fault f) => .error f
          | .error (.err reason) => return rejectStep host.tick g reason
          | .ok state =>
              if parentHash = g.tipHash then
                return extendCanonical P host.tick g blk candidateCw state
              else storeSideChain P host.tick g blk tipCw candidateCw

/-!
# Promotion of orphans
-/

/-- What `applyBlock` returns together with the state it leaves. -/
structure Applied where
  result : AcceptResult
  chain : ChainState
  host : Host

abbrev Apply := Host -> ChainState -> Block -> Option String -> Except Fault Applied

/-- Offer the blocks taken from the pool, in order, to `apply`. -/
def offerWaiting (apply : Apply) :
    List OrphanEntry -> Host -> ChainState -> Except Fault (ChainState × Host)
  | [], host, g => .ok (g, host)
  | (blk, _, sourcePeer) :: rest, host, g => do
      let applied <- apply host (forgetOrphan g blk.hash) blk (some sourcePeer)
      offerWaiting apply rest applied.host applied.chain

def processOrphansWith (apply : Apply) (host : Host) (g : ChainState) (parentHash : String) :
    Except Fault (ChainState × Host) :=
  match g.orphanPool[parentHash]? with
  | none => .ok (g, host)
  | some waiting => offerWaiting apply waiting host (takeWaiting g parentHash)

/-- `applyBlock` with a bound on the depth of promotion. -/
def applyBlockFuel (P : Platform) : Nat -> Apply
  | 0, _, _, _, _ => .error .diverges
  | fuel + 1, host, g, blk, sourcePeer => do
      let step <- acceptBlock P host g blk sourcePeer
      match step.promote with
      | none => return { result := step.result, chain := step.chain, host := step.host }
      | some hash =>
          let (g, host) <-
            processOrphansWith (applyBlockFuel P fuel) step.host step.chain hash
          return { result := step.result, chain := g, host := host }

/-- Block acceptance.  Each level of promotion empties a slot of the pool, so
one level more than there are orphans is enough. -/
def applyBlock (P : Platform) : Apply := fun host g blk sourcePeer =>
  applyBlockFuel P (orphanCount g + 1) host g blk sourcePeer

def processOrphans (P : Platform) (host : Host) (g : ChainState) (parentHash : String) :
    Except Fault (ChainState × Host) :=
  processOrphansWith (applyBlock P) host g parentHash

end VisionCore
