import PupaCoin.Chain.BlockIndex
import PupaCoin.Lib.Overlay

/-!
# The transaction database (`txdb-leveldb.h`, `main.h`)

The keys and the records of the LevelDB database that block validation reads and writes.
-/

namespace PupaCoin

/-- `CDiskBlockIndex`: a block index entry with its pointers marshalled into hashes, 0 for null. -/
structure CDiskBlockIndex extends CBlockHeader where
  hashNext : UInt256
  nFile : UInt32
  nBlockPos : UInt32
  nHeight : Nat
  nMint : Int
  nMoneySupply : Int
  nFlags : UInt32
  nStakeModifier : UInt64
  bnStakeModifierV2 : UInt256
  prevoutStake : COutPoint
  nStakeTime : UInt32
  hashProof : UInt256
deriving DecidableEq, Repr

/-- `CDiskBlockIndex(pindex)`. -/
def CDiskBlockIndex.ofIndex (pindex : CBlockIndex) : CDiskBlockIndex where
  nVersion := pindex.nVersion
  hashPrevBlock := pindex.pprev.getD 0
  hashMerkleRoot := pindex.hashMerkleRoot
  nTime := pindex.nTime
  nBits := pindex.nBits
  nNonce := pindex.nNonce
  hashNext := pindex.pnext.getD 0
  nFile := pindex.nFile
  nBlockPos := pindex.nBlockPos
  nHeight := pindex.nHeight
  nMint := pindex.nMint
  nMoneySupply := pindex.nMoneySupply
  nFlags := pindex.nFlags
  nStakeModifier := pindex.nStakeModifier
  bnStakeModifierV2 := pindex.bnStakeModifierV2
  prevoutStake := if pindex.isProofOfStake then pindex.prevoutStake else .null
  nStakeTime := if pindex.isProofOfStake then pindex.nStakeTime else 0
  hashProof := pindex.hashProof

/-- The key of a record. -/
inductive DbKey where
  | tx (hash : UInt256)
  | blockIndex (hash : UInt256)
  | hashBestChain
  | bnBestInvalidTrust
  | adr (addrHash : BitVec 160)
deriving DecidableEq, Repr

/-- The value of a record. -/
inductive DbVal where
  | txIndex (txindex : CTxIndex)
  | blockIndex (blockindex : CDiskBlockIndex)
  | hash (hash : UInt256)
  | trust (nTrust : UInt256)
  | txHashes (txHashes : List UInt256)
deriving DecidableEq, Repr

abbrev Db := DbKey → Option DbVal

namespace Db

def readTxIndex (db : Db) (hash : UInt256) : Option CTxIndex :=
  match db (.tx hash) with
  | some (.txIndex txindex) => some txindex
  | _ => none

def readAddrIndex (db : Db) (addrHash : BitVec 160) : Option (List UInt256) :=
  match db (.adr addrHash) with
  | some (.txHashes txHashes) => some txHashes
  | _ => none

def readHashBestChain (db : Db) : Option UInt256 :=
  match db .hashBestChain with
  | some (.hash hash) => some hash
  | _ => none

def readBlockIndex (db : Db) (hash : UInt256) : Option CDiskBlockIndex :=
  match db (.blockIndex hash) with
  | some (.blockIndex blockindex) => some blockindex
  | _ => none

end Db

end PupaCoin
