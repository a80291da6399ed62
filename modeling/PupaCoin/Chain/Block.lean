import PupaCoin.Chain.Transaction

/-!
# Blocks (`main.h`)

Blocks and their headers, the proof-of-stake test, the merkle tree, and the positions of blocks and
transactions in the block files.
-/

namespace PupaCoin

/-- The fields of a block that its hash covers. -/
structure CBlockHeader where
  nVersion : Int
  hashPrevBlock : UInt256
  hashMerkleRoot : UInt256
  nTime : UInt32
  nBits : UInt32
  nNonce : UInt32
deriving DecidableEq, Repr

structure CBlock extends CBlockHeader where
  vtx : List CTransaction
  vchBlockSig : List UInt8
deriving DecidableEq, Repr

namespace CBlock

def getBlockTime (block : CBlock) : Int := block.nTime.toNat

/-- `IsProofOfStake`: the second transaction is a coinstake. -/
def isProofOfStake (block : CBlock) : Bool :=
  match block.vtx with
  | _ :: tx :: _ => tx.isCoinStake
  | _ => false

def isProofOfWork (block : CBlock) : Bool := !block.isProofOfStake

/-- `::GetSerializeSize(block, ...)`. -/
def serializeSize (block : CBlock) : Nat :=
  80 + getSizeOfCompactSize block.vtx.length + (block.vtx.map CTransaction.serializeSize).sum
    + CTransaction.bytesSize block.vchBlockSig

/-- One level of `BuildMerkleTree`: neighbours are hashed together, an odd last one with itself. -/
def merkleLevel (hashPair : UInt256 → UInt256 → UInt256) : List UInt256 → List UInt256
  | a :: b :: rest => hashPair a b :: merkleLevel hashPair rest
  | [a] => [hashPair a a]
  | [] => []

/-- The levels of `BuildMerkleTree`, from the transactions up. Every level is shorter than the one
    below, so the number of transactions is enough fuel. -/
def merkleRoot (hashPair : UInt256 → UInt256 → UInt256) : Nat → List UInt256 → UInt256
  | _, [] => 0
  | _, [root] => root
  | 0, _ => 0
  | fuel + 1, level => merkleRoot hashPair fuel (merkleLevel hashPair level)

def buildMerkleTree (getHash : CTransaction → UInt256) (hashPair : UInt256 → UInt256 → UInt256)
    (block : CBlock) : UInt256 :=
  merkleRoot hashPair block.vtx.length (block.vtx.map getHash)

end CBlock

/-- `CDiskTxPos`: where a transaction is stored. -/
structure CDiskTxPos where
  nFile : UInt32
  nBlockPos : UInt32
  nTxPos : UInt32
deriving DecidableEq, Repr

def CDiskTxPos.null : CDiskTxPos := ⟨0xffffffff, 0, 0⟩

/-- `IsNull` only looks at the file number. -/
def CDiskTxPos.isNull (pos : CDiskTxPos) : Bool := pos.nFile == 0xffffffff

/-- The position that stands for a transaction of the memory pool. -/
def CDiskTxPos.mempool : CDiskTxPos := ⟨1, 1, 1⟩

/-- `CTxIndex`: where a transaction is stored, and where the spenders of its outputs are. -/
structure CTxIndex where
  pos : CDiskTxPos
  vSpent : List CDiskTxPos
deriving DecidableEq, Repr

/-- `CTxIndex(posIn, nOutputs)`: nothing is spent yet. -/
def CTxIndex.new (pos : CDiskTxPos) (nOutputs : Nat) : CTxIndex := ⟨pos, List.replicate nOutputs .null⟩

/-- `vSpent[n] = pos`. -/
def CTxIndex.setSpent (txindex : CTxIndex) (n : Nat) (pos : CDiskTxPos) : CTxIndex :=
  { txindex with vSpent := txindex.vSpent.set n pos }

end PupaCoin
