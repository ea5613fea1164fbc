import VisionCore.Types.Block

/-!
# The genesis block
-/

namespace VisionCore

def genesisHash : String :=
  "d6469ec95f56b56be4921ef40b9795902c96f2ad26582ef8db8fac46f4a7aa13"

def genesisBlock : Block :=
  { header :=
      { parentHash := nullHash
        number := 0
        timestamp := 0
        difficulty := difficultyFloor
        nonce := 0
        powHash := genesisHash
        stateRoot := nullHash
        txRoot := nullHash
        miner := "network_genesis" }
    txs := []
    weight := 0 }

def computeGenesisPowHash (P : Platform) : String :=
  genesisBlock.header.computeHash P

inductive GenesisError where
  | hashMismatch (expected computed : String)
  | storedMismatch (expected found : String)
deriving DecidableEq, Repr

def validateGenesisHash (P : Platform) : Except GenesisError Unit :=
  if computeGenesisPowHash P ≠ genesisHash then
    .error (.hashMismatch genesisHash (computeGenesisPowHash P))
  else .ok ()

def verifyStoredGenesis (stored : String) : Except GenesisError Unit :=
  if stored ≠ genesisHash then .error (.storedMismatch genesisHash stored)
  else .ok ()

@[simp] theorem genesisBlock_hash : genesisBlock.hash = genesisHash := rfl

@[simp] theorem genesisBlock_number : genesisBlock.header.number = 0 := rfl

@[simp] theorem genesisBlock_timestamp : genesisBlock.header.timestamp = 0 := rfl

@[simp] theorem genesisBlock_difficulty :
    genesisBlock.header.difficulty = difficultyFloor := rfl

@[simp] theorem genesisBlock_txs : genesisBlock.txs = [] := rfl

end VisionCore
