import PupaCoin.Chain.Block
import PupaCoin.Lib.Codec
import PupaCoin.Lib.LittleEndian

/-!
# The wire format of transactions and blocks (`serialize.h`, `chain.h`, `main.h`)

Every class of objects has three functions: what `Serialize` writes, what `Unserialize` reads, and the size that
`GetSerializeSize` computes on its own, as an `unsigned int`.
-/

namespace PupaCoin

open Codec LittleEndian

/-- `MAX_SIZE`: no vector is read that is longer. -/
def maxSize : Nat := 0x02000000

/-- `SER_DISK`. A stream has one of these types. -/
def serDisk : UInt32 := 2
def serGetHash : UInt32 := 4
def serBlockHeaderOnly : UInt32 := 0x20000

/-- Reading from a stream; the `std::ios_base::failure` that it throws is its message. -/
abbrev ReadM := Reader String

/-- `s.read`. -/
def readData (k : Nat) : ReadM (List UInt8) := takeBytes "CDataStream::read() : end of data" k

/-- Four bytes, the lowest first. -/
def writeUInt32 (x : UInt32) : List UInt8 := LittleEndian.ofNat 4 x.toNat

def readUInt32 : ReadM UInt32 := do
  let bytes ← readData 4
  return UInt32.ofNat (toNat bytes)

/-- `int` and `int64_t`. -/
def readSigned (k : Nat) : ReadM Int := do
  let bytes ← readData k
  return toInt bytes

/-- `uint256`: its words follow each other as their bytes do. -/
def writeUInt256 (x : UInt256) : List UInt8 := LittleEndian.ofNat 32 x.toNat

def readUInt256 : ReadM UInt256 := do
  let bytes ← readData 32
  return BitVec.ofNat 256 (toNat bytes)

/-- `WriteCompactSize`: one, three, five or nine bytes. -/
def writeCompactSize (nSize : Nat) : List UInt8 :=
  if nSize < 253 then [UInt8.ofNat nSize]
  else if nSize ≤ 0xffff then 253 :: LittleEndian.ofNat 2 nSize
  else if nSize ≤ 0xffffffff then 254 :: LittleEndian.ofNat 4 nSize
  else 255 :: LittleEndian.ofNat 8 nSize

/-- A size of `k` bytes that is too large for a shorter form. -/
def readWideSize (k least : Nat) : ReadM Nat := do
  let bytes ← readData k
  if toNat bytes < least then Exec.stop "non-canonical ReadCompactSize()"
  return toNat bytes

/-- The size behind its first byte. -/
def readSizeBehind (chSize : Nat) : ReadM Nat :=
  if chSize < 253 then pure chSize
  else if chSize = 253 then readWideSize 2 253
  else if chSize = 254 then readWideSize 4 0x10000
  else readWideSize 8 0x100000000

/-- `ReadCompactSize`. -/
def readCompactSize : ReadM Nat := do
  let chSize ← readData 1
  let nSizeRet ← readSizeBehind (toNat chSize)
  if nSizeRet > maxSize then Exec.stop "ReadCompactSize() : size too large"
  return nSizeRet

/-- `Serialize` of a vector. -/
def writeVector {α : Type} (write : α → List UInt8) (v : List α) : List UInt8 :=
  writeCompactSize v.length ++ v.flatMap write

/-- `Unserialize` of a vector of records: it makes room for `5000000 / sizeof(T)` records at a time. -/
def readVector {α : Type} (sizeOf : Nat) (read : ReadM α) : ReadM (List α) := do
  let nSize ← readCompactSize
  inBlocks (readMany read) (5000000 / sizeOf) nSize nSize

/-- `GetSerializeSize` of a vector of records. -/
def vectorSize {α : Type} (size : α → UInt32) (v : List α) : UInt32 :=
  v.foldl (fun nSize x => nSize + size x) (UInt32.ofNat (getSizeOfCompactSize v.length))

/-- `Serialize` of a vector of bytes. -/
def writeBytes (v : List UInt8) : List UInt8 := writeCompactSize v.length ++ v

/-- `Unserialize` of a vector of bytes, in blocks of at most five million bytes. -/
def readBytes : ReadM (List UInt8) := do
  let nSize ← readCompactSize
  inBlocks readData (1 + 4999999 / 1) nSize nSize

/-- `Serialize` of a `std::string`. -/
def writeString (str : List UInt8) : List UInt8 := writeCompactSize str.length ++ str

/-- `Unserialize` of a `std::string`. -/
def readString : ReadM (List UInt8) := do
  let nSize ← readCompactSize
  readData nSize

/-- `GetSerializeSize` of a vector of bytes. -/
def bytesSerializeSize (v : List UInt8) : UInt32 := UInt32.ofNat (getSizeOfCompactSize v.length + v.length * 1)

/-- The sizes of the records in memory, in which the compiler is free. -/
structure Layout where
  sizeofTxIn : Nat
  sizeofTxOut : Nat
  sizeofTransaction : Nat
  txIn_range : 0 < sizeofTxIn ∧ sizeofTxIn ≤ 5000000
  txOut_range : 0 < sizeofTxOut ∧ sizeofTxOut ≤ 5000000
  transaction_range : 0 < sizeofTransaction ∧ sizeofTransaction ≤ 5000000

namespace COutPoint

def serialize (o : COutPoint) : List UInt8 := writeUInt256 o.hash ++ writeUInt32 o.n

def unserialize : ReadM COutPoint := do
  let hash ← readUInt256
  let n ← readUInt32
  return { hash, n }

def getSerializeSize (_ : COutPoint) : UInt32 := 36

end COutPoint

namespace CTxIn

def serialize (txin : CTxIn) : List UInt8 :=
  txin.prevout.serialize ++ writeBytes txin.scriptSig ++ writeUInt32 txin.nSequence

def unserialize : ReadM CTxIn := do
  let prevout ← COutPoint.unserialize
  let scriptSig ← readBytes
  let nSequence ← readUInt32
  return { prevout, scriptSig, nSequence }

def getSerializeSize (txin : CTxIn) : UInt32 :=
  0 + txin.prevout.getSerializeSize + bytesSerializeSize txin.scriptSig + 4

end CTxIn

namespace CTxOut

def serialize (txout : CTxOut) : List UInt8 := ofInt 8 txout.nValue ++ writeBytes txout.scriptPubKey

def unserialize : ReadM CTxOut := do
  let nValue ← readSigned 8
  let scriptPubKey ← readBytes
  return { nValue, scriptPubKey }

def getSerializeSize (txout : CTxOut) : UInt32 := 0 + 8 + bytesSerializeSize txout.scriptPubKey

end CTxOut

namespace CTransaction

def serialize (tx : CTransaction) : List UInt8 :=
  ofInt 4 tx.nVersion ++ writeUInt32 tx.nTime ++ writeVector CTxIn.serialize tx.vin
    ++ writeVector CTxOut.serialize tx.vout ++ writeUInt32 tx.nLockTime

def unserialize (layout : Layout) : ReadM CTransaction := do
  let nVersion ← readSigned 4
  let nTime ← readUInt32
  let vin ← readVector layout.sizeofTxIn CTxIn.unserialize
  let vout ← readVector layout.sizeofTxOut CTxOut.unserialize
  let nLockTime ← readUInt32
  return { nVersion, nTime, vin, vout, nLockTime }

def getSerializeSize (tx : CTransaction) : UInt32 :=
  0 + 4 + 4 + vectorSize CTxIn.getSerializeSize tx.vin + vectorSize CTxOut.getSerializeSize tx.vout + 4

end CTransaction

namespace CBlockHeader

def serialize (header : CBlockHeader) : List UInt8 :=
  ofInt 4 header.nVersion ++ writeUInt256 header.hashPrevBlock ++ writeUInt256 header.hashMerkleRoot
    ++ writeUInt32 header.nTime ++ writeUInt32 header.nBits ++ writeUInt32 header.nNonce

def unserialize : ReadM CBlockHeader := do
  let nVersion ← readSigned 4
  let hashPrevBlock ← readUInt256
  let hashMerkleRoot ← readUInt256
  let nTime ← readUInt32
  let nBits ← readUInt32
  let nNonce ← readUInt32
  return { nVersion, hashPrevBlock, hashMerkleRoot, nTime, nBits, nNonce }

end CBlockHeader

namespace CBlock

/-- `!(nType & (SER_GETHASH|SER_BLOCKHEADERONLY))`. -/
def withTransactions (nType : UInt32) : Bool := nType &&& (serGetHash ||| serBlockHeaderOnly) == 0

def serialize (nType : UInt32) (block : CBlock) : List UInt8 :=
  block.toCBlockHeader.serialize ++
    if withTransactions nType then writeVector CTransaction.serialize block.vtx ++ writeBytes block.vchBlockSig
    else []

def unserialize (layout : Layout) (nType : UInt32) : ReadM CBlock := do
  let header ← CBlockHeader.unserialize
  if withTransactions nType then
    let vtx ← readVector layout.sizeofTransaction (CTransaction.unserialize layout)
    let vchBlockSig ← readBytes
    return { header with vtx, vchBlockSig }
  else return { header with vtx := [], vchBlockSig := [] }

def getSerializeSize (nType : UInt32) (block : CBlock) : UInt32 :=
  0 + 4 + 32 + 32 + 4 + 4 + 4 +
    if withTransactions nType then
      vectorSize CTransaction.getSerializeSize block.vtx + bytesSerializeSize block.vchBlockSig
    else 0

end CBlock

/-- No vector has more than `MAX_SIZE` elements. -/
def FitsSize {α : Type} (v : List α) : Prop := v.length ≤ maxSize

instance {α : Type} (v : List α) : Decidable (FitsSize v) := inferInstanceAs (Decidable (_ ≤ _))

/-- The sizes of the script can be written and read. -/
def CTxIn.Fits (txin : CTxIn) : Prop := FitsSize txin.scriptSig

instance (txin : CTxIn) : Decidable txin.Fits := inferInstanceAs (Decidable (FitsSize _))

/-- The value is an `int64_t`. -/
def CTxOut.Fits (txout : CTxOut) : Prop := InRange 8 txout.nValue ∧ FitsSize txout.scriptPubKey

instance (txout : CTxOut) : Decidable txout.Fits := inferInstanceAs (Decidable (_ ∧ _))

structure CTransaction.Fits (tx : CTransaction) : Prop where
  /-- The version is an `int`. -/
  nVersion : InRange 4 tx.nVersion
  vin : FitsSize tx.vin
  txins : ∀ txin ∈ tx.vin, txin.Fits
  vout : FitsSize tx.vout
  txouts : ∀ txout ∈ tx.vout, txout.Fits

structure CBlock.Fits (block : CBlock) : Prop where
  nVersion : InRange 4 block.nVersion
  vtx : FitsSize block.vtx
  txs : ∀ tx ∈ block.vtx, tx.Fits
  vchBlockSig : FitsSize block.vchBlockSig

/-- What is written of a block: all of it, or its header. -/
def CBlock.Written (nType : UInt32) (block : CBlock) : Prop :=
  CBlock.withTransactions nType = false → block.vtx = [] ∧ block.vchBlockSig = []

/-- What the three functions of a class of objects have to do with each other. -/
structure WireFormat {α : Type} (fits : α → Prop) (write : α → List UInt8) (read : ReadM α) (size : α → UInt32) :
    Prop where
  reads : ∀ a rest, fits a → read (write a ++ rest) = (.ok a, rest)
  rewrites : ∀ bytes a rest, read bytes = (.ok a, rest) → bytes = write a ++ rest
  size_eq : ∀ a, (size a).toNat = (write a).length % 2 ^ 32

/-!
## The bytes of the block files (`main.h`, `main.cpp`)

`WriteToDisk` appends a block to the current block file, behind the magic bytes and the size of the block. A
transaction is read back from an offset of the file. The functions work on the bytes that the files hold.
-/

/-- The bytes of the block files; a file that does not exist is empty. -/
abbrev FileBytes := UInt32 → List UInt8

/-- `pchMessageStart`: four bytes. -/
structure MessageStart where
  bytes : List UInt8
  length_eq : bytes.length = 4

/-- The numbers of block files that `OpenBlockFile` opens. -/
def opensBlockFile (nFile : UInt32) : Bool := !(decide (nFile < 1) || nFile == 0xffffffff)

/-- `AppendBlockFile`, from the current block file on: the file to append to. -/
def appendBlockFile (files : FileBytes) : Nat → UInt32 → Option UInt32
  | 0, _ => none
  | fuel + 1, nCurrentBlockFile =>
    if !opensBlockFile nCurrentBlockFile then none
    else if (files nCurrentBlockFile).length < 0x7F000000 - maxSize then some nCurrentBlockFile
    else appendBlockFile files fuel (nCurrentBlockFile + 1)

namespace CBlock

/-- `WriteToDisk`: the files afterwards, `nFileRet` and `nBlockPosRet`. -/
def writeToFile (messageStart : MessageStart) (files : FileBytes) (fuel : Nat) (nCurrentBlockFile : UInt32)
    (block : CBlock) : Option (FileBytes × UInt32 × UInt32) := do
  let nFileRet ← appendBlockFile files fuel nCurrentBlockFile
  let nSize := block.getSerializeSize serDisk
  let front := files nFileRet ++ messageStart.bytes ++ writeUInt32 nSize
  let nBlockPosRet := UInt32.ofNat front.length
  return (Function.update files nFileRet (front ++ block.serialize serDisk), nFileRet, nBlockPosRet)

/-- Where a transaction begins in the serialization of its block: behind the header, the number of transactions and
the transactions before it. -/
def txOffset (block : CBlock) (i : Nat) : Nat :=
  (block.toCBlockHeader.serialize ++ writeCompactSize block.vtx.length
    ++ (block.vtx.take i).flatMap CTransaction.serialize).length

end CBlock

/-- `CTransaction::ReadFromDisk(pos)`. -/
def readTxAt (layout : Layout) (files : FileBytes) (pos : CDiskTxPos) : Option CTransaction :=
  if !opensBlockFile pos.nFile then none
  else
    match CTransaction.unserialize layout ((files pos.nFile).drop pos.nTxPos.toNat) with
    | (.ok tx, _) => some tx
    | (.error _, _) => none

end PupaCoin
