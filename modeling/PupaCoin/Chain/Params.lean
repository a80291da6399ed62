import Mathlib.Tactic

/-!
# Amounts, depths and network parameters

The constants of `util.h`, `main.h`, `mining.h`, `fork.h` and `blockparams.h` that validation reads,
and the parameter sets of `chainparams.cpp`.
-/

namespace PupaCoin

/-- A 256-bit number used as a hash (`uint256`). -/
abbrev UInt256 := BitVec 256

instance instLawfulBEqUInt256 : LawfulBEq UInt256 := inferInstance

/-- The order of `uint256`: as numbers. -/
instance : LinearOrder UInt256 where
  le_refl := BitVec.le_refl
  le_trans _ _ _ := BitVec.le_trans
  le_antisymm _ _ := BitVec.le_antisymm
  le_total := BitVec.le_total
  lt_iff_le_not_ge a b := by
    rw [BitVec.not_le]
    exact ⟨fun h => ⟨BitVec.le_of_lt h, h⟩, fun h => h.2⟩
  toDecidableLE := inferInstance
  toDecidableLT := inferInstance

def coin : Int := 100000000
def cent : Int := 1000000

/-- No amount larger than this is valid. -/
def maxSingleTx : Int := 21000000 * coin

def moneyRange (nValue : Int) : Bool := 0 ≤ nValue && nValue ≤ maxSingleTx

def minTxFee : Int := 10000
def minRelayTxFee : Int := minTxFee
/-- `MAX_BLOCK_SIZE_GEN/5`, from the initial `MAX_BLOCK_SIZE`. -/
def maxStandardTxSize : Nat := 15256128 / 2 / 5
def defaultBlockPrioritySize : Nat := 50000

def nBlockRewardReserve : Int := 140000 * coin

def nBlockStandardReward : Int := 5 * coin

def nReservePhaseStart : Int := 1

/-- Outputs can only be staked after this number of new blocks. -/
def nStakeMinConfirmations : Int := 80

/-- Coinbase and coinstake outputs can only be spent after this number of new blocks. -/
def nTransactionMaturity : Int := 10

def blockReorgMaxDepth : Int := 1

/-- Override of the reorganize depth. `main.h` declares it `static`, so every translation unit has
    its own copy: `init.cpp` only writes the one it compiled, and the copies that `main.cpp` and
    `velocity.cpp` read keep their initial value. -/
def blockReorgOverrideDepth : Int := 0

/-- Combined maximum block reorganize depth. -/
def blockReorgThreshold : Int := blockReorgMaxDepth + blockReorgOverrideDepth

/-- Depth of the rolling checkpoint block. -/
def blockTempCheckpointDepth : Int := 120

def nDrift : Int := 5 * 60

def futureDrift (nTime : Int) : Int := nTime + nDrift

/-- Threshold below which a lock time is a height. -/
def locktimeThreshold : Nat := 500000000

def minBlockSize : Nat := 1525612
def maxBlockSizeIncreaseMultiple : Nat := 2
def numBlocksForMedianBlock : Nat := 25

def blockSpacing : Int := 5 * 60
def blockSpacingMin : Int := 270
def blockSpacingMax : Int := 330

def startDevopsPayments : Int := 1554494400
def stopDevopsPayments : Int := 9993058800
def startDevopsPaymentsTestnet : Int := 9993058800
def stopDevopsPaymentsTestnet : Int := 9993058800

inductive Network where
  | main
  | testnet
  | regtest
deriving DecidableEq, Repr

/-- The parameters of a network that validation reads. -/
structure CChainParams where
  networkID : Network
  hashGenesisBlock : UInt256
  bnProofOfWorkLimit : Int
  bnProofOfStakeLimit : Int
  nEndPoWBlock : Int
  nStartPoSBlock : Int
  strDevOpsAddress : String
  /-- `Checkpoints::mapCheckpoints` of the network, beyond the genesis block. -/
  mapCheckpoints : List (Int × UInt256)

/-- `TestNet()`: false for the regression test mode. -/
def CChainParams.testNet (params : CChainParams) : Bool := params.networkID == .testnet

def mainParams : CChainParams where
  networkID := .main
  hashGenesisBlock := 0x0000c7d7bc6a7b6bc769d03439e9a9bcb7c9818e802cb96253fc58df8aa33176
  bnProofOfWorkLimit := 2 ^ 240 - 1
  bnProofOfStakeLimit := 2 ^ 238 - 1
  nEndPoWBlock := 0x7fffffff
  nStartPoSBlock := 1
  strDevOpsAddress := "PTUzfmVxBk6eZFa3J3JJeCyru8oCbZJuPx"
  mapCheckpoints :=
    [(1, 0x000084679a17f8cab7cdbd1ed41bdbc236af4d75ca544a1ec139eaa22342340a),
     (10, 0x00003917aa4d2fd9a7f5522de54d09c2cdb7a9f791d4a5bd864e8d6df07daf1c),
     (100, 0x135677ad9de09ab96bd928efb5b76ff360021a26070b236f18acb10d3f964df9),
     (350, 0x000000001b1889c08489f2a4c9ad8ca71d2453612579df59ceb082e24fb73009),
     (500, 0xf44e0c14e34132145dff5ae5a8c5e93172d7ac89b2cff88497c89f1c2fc183a0),
     (562, 0x2b53c1e333354b9576c0bbe97884c1488fa21d3a2a5847123a96ac6b1e8fd4b9),
     (725, 0xe4b29993f9e5151fa51245318a124326e8b86593fcb1640d6205669bc3c3462d),
     (757, 0xb03f60aef1b721c068423a0971c8e65ed6ab5b6532592914bf0adde478bf6329)]

def testNetParams : CChainParams where
  networkID := .testnet
  hashGenesisBlock := 0x000088f08e579c29f9e3349bd4767c84c4a8098f9668af2d1c1d8e004887543b
  bnProofOfWorkLimit := 2 ^ 244 - 1
  bnProofOfStakeLimit := 2 ^ 242 - 1
  nEndPoWBlock := 0x7fffffff
  nStartPoSBlock := 1
  strDevOpsAddress := mainParams.strDevOpsAddress
  mapCheckpoints := []

def regTestParams : CChainParams where
  networkID := .regtest
  hashGenesisBlock := 0x578667a92fd32d1d7df14d155984ee61d91fd2681826d7737cd035e1e6535b00
  bnProofOfWorkLimit := 2 ^ 255 - 1
  bnProofOfStakeLimit := testNetParams.bnProofOfStakeLimit
  nEndPoWBlock := testNetParams.nEndPoWBlock
  nStartPoSBlock := testNetParams.nStartPoSBlock
  strDevOpsAddress := mainParams.strDevOpsAddress
  mapCheckpoints := mainParams.mapCheckpoints

end PupaCoin
