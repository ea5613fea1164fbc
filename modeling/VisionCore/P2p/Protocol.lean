import VisionCore.Chain.State
import VisionCore.Genesis.Genesis
import VisionCore.Pow.VisionX

/-!
# The handshake and the chain summary
-/

namespace VisionCore

def protocolVersion : UInt32 := 4

def consensusVersion : UInt32 := 3

def nodeVersion : String := "v1.0.4"

def networkId : String := "mainnet"

structure ChainSummary where
  height : UInt64
  tipHash : Option String
  cumulativeWork : Nat
deriving DecidableEq, Repr

def ChainSummary.fromChain (g : ChainState) : ChainSummary :=
  let tipHash := if g.blocks.isEmpty then none else some g.tipHash
  { height := g.currentHeight
    tipHash := tipHash
    cumulativeWork := (tipHash.bind fun hash => g.cumulativeWork[hash]?).getD 0 }

structure HandshakeMessage where
  protocolVersion : UInt32
  chainId : U256
  genesisHash : String
  nodeNonce : UInt64
  chainHeight : UInt64
  networkId : String
  nodeTag : String
  econHash : String
  powParamsHash : String
  advertisedIp : Option String
  advertisedPort : Option UInt16
  seedPeers : List String
deriving DecidableEq

/-- A block offered by its hash. -/
structure AnnounceBlock where
  height : UInt64
  hash : String
  prev : String
deriving DecidableEq, Repr

def econHash : String :=
  "a18f9f82aeb6276b5cfb353e351cd0cf9b34aad962e29f4ac6268f0659c55f95"

def VisionXParams.fingerprint (P : Platform) (params : VisionXParams) : String :=
  let canonical :=
    "visionx/v1 dataset_mb=" ++ toString params.datasetMb ++
      " scratch_mb=" ++ toString params.scratchMb ++
      " mix_iters=" ++ toString params.mixIters ++
      " reads_per_iter=" ++ toString params.readsPerIter ++
      " write_every=" ++ toString params.writeEvery ++
      " epoch_blocks=" ++ toString params.epochBlocks
  hexEncode (P.blake3 (asBytes canonical)).bytes

/-- The network identifier: the hash of the genesis hash and the network name. -/
def expectedChainId (P : Platform) : U256 :=
  P.blake3 (asBytes genesisHash ++ asBytes networkId)

def HandshakeMessage.new (P : Platform) (chainHeight nodeNonce : UInt64) : HandshakeMessage :=
  { protocolVersion := VisionCore.protocolVersion
    chainId := expectedChainId P
    genesisHash := VisionCore.genesisHash
    nodeNonce := nodeNonce
    chainHeight := chainHeight
    networkId := VisionCore.networkId
    nodeTag := nodeVersion ++ "-consensus-v1.0." ++ toString consensusVersion
    econHash := VisionCore.econHash
    powParamsHash := visionxParams.fingerprint P
    advertisedIp := none
    advertisedPort := none
    seedPeers := [] }

def HandshakeMessage.newWithAdvertised (P : Platform) (chainHeight nodeNonce : UInt64)
    (advertisedIp : Option String) (advertisedPort : Option UInt16) : HandshakeMessage :=
  { HandshakeMessage.new P chainHeight nodeNonce with
    advertisedIp := advertisedIp
    advertisedPort := advertisedPort }

/-!
# Validation of a handshake
-/

inductive HandshakeResult where
  | accepted
  | versionMismatch (remote ours : UInt32)
  | wrongChainId
  | wrongGenesisHash
  | wrongEconHash
  | wrongPowParams
  | selfConnection
deriving DecidableEq, Repr

def validateHandshake (P : Platform) (remote : HandshakeMessage) (ourNonce : UInt64) :
    HandshakeResult :=
  if remote.nodeNonce = ourNonce then .selfConnection
  else if remote.protocolVersion ≠ protocolVersion then
    .versionMismatch remote.protocolVersion protocolVersion
  else if remote.chainId ≠ expectedChainId P then .wrongChainId
  else if remote.genesisHash ≠ genesisHash then .wrongGenesisHash
  else if remote.econHash ≠ econHash then .wrongEconHash
  else if remote.powParamsHash ≠ visionxParams.fingerprint P then .wrongPowParams
  else .accepted

/-- Whatever a node sends about itself, a node with another nonce accepts. -/
theorem validateHandshake_newWithAdvertised (P : Platform) (height : UInt64)
    {nonce ourNonce : UInt64} (hnonce : nonce ≠ ourNonce) (ip : Option String)
    (port : Option UInt16) :
    validateHandshake P (HandshakeMessage.newWithAdvertised P height nonce ip port) ourNonce =
      .accepted := by
  unfold validateHandshake
  rw [if_neg (show ¬(HandshakeMessage.newWithAdvertised P height nonce ip port).nodeNonce =
    ourNonce from hnonce)]
  simp [HandshakeMessage.newWithAdvertised, HandshakeMessage.new]

end VisionCore
