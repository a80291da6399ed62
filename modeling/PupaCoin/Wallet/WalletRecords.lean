import PupaCoin.Chain.Serialize
import PupaCoin.Lib.Decimal
import PupaCoin.Lib.OrderedMap
import PupaCoin.Wallet.WalletTx
import Mathlib.Data.List.Lex

/-!
# The records of a wallet (`wallet.h`, `walletdb.cpp`)

Some fields of a transaction and of an accounting entry have no place of their own in the record: they are put into
`mapValue` under reserved keys, and `mapValue` itself follows the comment of an accounting entry behind a NUL byte. An
object is changed for this while it is written or measured, and restored afterwards.
-/

namespace PupaCoin

open Codec LittleEndian

/-- `std::string`. -/
abbrev StdString := List UInt8

/-- A literal of the source. -/
def stdString (s : String) : StdString := s.toList.map fun c => UInt8.ofNat c.toNat

def writePair (item : StdString × StdString) : List UInt8 := writeString item.1 ++ writeString item.2

def readPair : ReadM (StdString × StdString) := do
  let first ← readString
  let second ← readString
  return (first, second)

def pairSize (item : StdString × StdString) : UInt32 := bytesSerializeSize item.1 + bytesSerializeSize item.2

/-- `mapValue_t`. -/
abbrev MapValue := OrderedMap StdString StdString

def writeMap (m : MapValue) : List UInt8 := writeVector writePair m.entries

/-- `Unserialize` of a map. -/
def readMap : ReadM MapValue := do
  let nSize ← readCompactSize
  let items ← readMany readPair nSize
  return items.foldl OrderedMap.insert .empty

def mapSize (m : MapValue) : UInt32 := vectorSize pairSize m.entries

def keyFromAccount : StdString := stdString "fromaccount"
def keyVersion : StdString := stdString "version"
def keySpent : StdString := stdString "spent"
def keyN : StdString := stdString "n"
def keyTimeSmart : StdString := stdString "timesmart"

/-- `ReadOrderPos`: -1 where the map has no position. -/
def readOrderPos (mapValue : MapValue) : Int :=
  match mapValue.find? keyN with
  | none => -1
  | some s => Decimal.strtoll s

/-- `WriteOrderPos`. -/
def writeOrderPos (nOrderPos : Int) (mapValue : MapValue) : MapValue :=
  if nOrderPos = -1 then mapValue else mapValue.set keyN (Decimal.ofInt nOrderPos)

/-- The sizes of the records of a wallet in memory. -/
structure RecordLayout extends Layout where
  sizeofMerkleTx : Nat
  sizeofPair : Nat
  merkleTx_range : 0 < sizeofMerkleTx ∧ sizeofMerkleTx ≤ 5000000
  pair_range : 0 < sizeofPair ∧ sizeofPair ≤ 5000000

namespace CMerkleTx

def serialize (mtx : CMerkleTx) : List UInt8 :=
  mtx.tx.serialize ++ writeUInt256 mtx.hashBlock ++ writeVector writeUInt256 mtx.vMerkleBranch ++ ofInt 4 mtx.nIndex

def unserialize (layout : Layout) : ReadM CMerkleTx := do
  let tx ← CTransaction.unserialize layout
  let hashBlock ← readUInt256
  let vMerkleBranch ← readVector 32 readUInt256
  let nIndex ← readSigned 4
  return { tx, hashBlock, vMerkleBranch, nIndex }

def getSerializeSize (mtx : CMerkleTx) : UInt32 :=
  0 + mtx.tx.getSerializeSize + 32 + vectorSize (fun _ => 32) mtx.vMerkleBranch + 4

end CMerkleTx

/-- `CWalletTx`, with all that its record holds. -/
structure StoredTx where
  merkleTx : CMerkleTx
  vtxPrev : List CMerkleTx
  mapValue : MapValue
  vOrderForm : List (StdString × StdString)
  fTimeReceivedIsTxTime : UInt32
  nTimeReceived : UInt32
  nTimeSmart : UInt32
  fFromMe : UInt8
  strFromAccount : StdString
  vfSpent : List Bool
  nOrderPos : Int

namespace StoredTx

variable (wtx : StoredTx)

/-- The value of `spent`: a digit for each output. -/
def spentString : StdString := wtx.vfSpent.map fun f => if f then 0x31 else 0x30

/-- `mapValue` while the object is written or measured. -/
def reservedMap : MapValue :=
  let mapValue := (wtx.mapValue.set keyFromAccount wtx.strFromAccount).set keySpent wtx.spentString
  let mapValue := writeOrderPos wtx.nOrderPos mapValue
  if wtx.nTimeSmart ≠ 0 then mapValue.set keyTimeSmart (Decimal.ofNat wtx.nTimeSmart.toNat) else mapValue

/-- The map without the keys that hold fields of the transaction. -/
def eraseReserved (mapValue : MapValue) : MapValue :=
  ((((mapValue.erase keyFromAccount).erase keyVersion).erase keySpent).erase keyN).erase keyTimeSmart

/-- `fSpent`. -/
def anySpent : UInt8 := if wtx.vfSpent.any id then 1 else 0

/-- The object after it has been written or measured. -/
def restored : StoredTx := { wtx with mapValue := eraseReserved wtx.reservedMap }

/-- `Serialize`: what is written, and the object afterwards. -/
def serialize : List UInt8 × StoredTx :=
  (wtx.merkleTx.serialize ++ writeVector CMerkleTx.serialize wtx.vtxPrev ++ writeMap wtx.reservedMap
      ++ writeVector writePair wtx.vOrderForm ++ writeUInt32 wtx.fTimeReceivedIsTxTime
      ++ writeUInt32 wtx.nTimeReceived ++ [wtx.fFromMe] ++ [wtx.anySpent],
    wtx.restored)

/-- `GetSerializeSize`: the size, and the object afterwards. -/
def getSerializeSize : UInt32 × StoredTx :=
  (0 + wtx.merkleTx.getSerializeSize + vectorSize CMerkleTx.getSerializeSize wtx.vtxPrev + mapSize wtx.reservedMap
      + vectorSize pairSize wtx.vOrderForm + 4 + 4 + 1 + 1,
    wtx.restored)

end StoredTx

/-- `READWRITE` of a `char`. -/
def readChar : ReadM UInt8 := do
  let bytes ← readData 1
  return UInt8.ofNat (toNat bytes)

/-- The flags of a record; one without the string has all or none of them. -/
def spentFlags (mapValue : MapValue) (nOutputs : Nat) (fSpent : UInt8) : List Bool :=
  match mapValue.find? keySpent with
  | some s => s.map fun c => decide (c ≠ 0x30)
  | none => List.replicate nOutputs (decide (fSpent ≠ 0))

/-- `nTimeSmart`, 0 where the map has none. -/
def readTimeSmart (mapValue : MapValue) : UInt32 :=
  match mapValue.find? keyTimeSmart with
  | some s => UInt32.ofInt (Decimal.strtoll s)
  | none => 0

def StoredTx.unserialize (layout : RecordLayout) : ReadM StoredTx := do
  let merkleTx ← CMerkleTx.unserialize layout.toLayout
  let vtxPrev ← readVector layout.sizeofMerkleTx (CMerkleTx.unserialize layout.toLayout)
  let mapValue ← readMap
  let vOrderForm ← readVector layout.sizeofPair readPair
  let fTimeReceivedIsTxTime ← readUInt32
  let nTimeReceived ← readUInt32
  let fFromMe ← readChar
  let fSpent ← readChar
  return {
    merkleTx, vtxPrev, vOrderForm, fTimeReceivedIsTxTime, nTimeReceived, fFromMe
    mapValue := StoredTx.eraseReserved mapValue
    strFromAccount := (mapValue.find? keyFromAccount).getD []
    vfSpent := spentFlags mapValue merkleTx.tx.vout.length fSpent
    nOrderPos := readOrderPos mapValue
    nTimeSmart := readTimeSmart mapValue }

/-- `CAccountingEntry`: a move between two accounts. -/
structure CAccountingEntry where
  strAccount : StdString
  nCreditDebit : Int
  nTime : Int
  strOtherAccount : StdString
  strComment : StdString
  mapValue : MapValue
  nOrderPos : Int
  nEntryNo : UInt64
  ssExtra : List UInt8

namespace CAccountingEntry

variable (nType : UInt32) (nVersion : Int) (acentry : CAccountingEntry)

/-- `mapValue` while the object is written or measured. -/
def orderedMap : MapValue := writeOrderPos acentry.nOrderPos acentry.mapValue

/-- The comment with the map behind it, as it is written. -/
def extendedComment : StdString :=
  if acentry.orderedMap.entries = [] ∧ acentry.ssExtra = [] then acentry.strComment
  else acentry.strComment ++ 0 :: (writeMap acentry.orderedMap ++ acentry.ssExtra)

/-- The object after it has been written or measured. -/
def restored : CAccountingEntry :=
  { acentry with
    strComment := acentry.extendedComment.takeWhile fun c => decide (c ≠ 0)
    mapValue := acentry.orderedMap.erase keyN }

/-- `!(nType & SER_GETHASH)`. -/
def withVersion : Bool := nType &&& serGetHash == 0

/-- `Serialize`: what is written, and the object afterwards. -/
def serialize : List UInt8 × CAccountingEntry :=
  ((if withVersion nType then ofInt 4 nVersion else []) ++ ofInt 8 acentry.nCreditDebit ++ ofInt 8 acentry.nTime
      ++ writeString acentry.strOtherAccount ++ writeString acentry.extendedComment,
    acentry.restored)

/-- `GetSerializeSize`: the size, and the object afterwards. -/
def getSerializeSize : UInt32 × CAccountingEntry :=
  (0 + (if withVersion nType then 4 else 0) + 8 + 8 + bytesSerializeSize acentry.strOtherAccount
      + bytesSerializeSize acentry.extendedComment,
    acentry.restored)

/-- `mapValue` and what is left of the stream, out of what follows the NUL byte in the comment. -/
def readBehindComment (strComment : StdString) : ReadM (MapValue × Option (List UInt8)) :=
  match strComment.dropWhile fun c => decide (c ≠ 0) with
  | [] => pure (.empty, none)
  | _ :: ss =>
    match readMap ss with
    | (.ok mapValue, rest) => pure (mapValue, some rest)
    | (.error e, _) => Exec.stop e

/-- `READWRITE(nVersion)`, into a copy that nothing reads. -/
def readVersion : ReadM Unit := do
  if withVersion nType then
    let _nVersion ← readSigned 4

/-- `Unserialize`, into an object. -/
def unserialize : ReadM CAccountingEntry := do
  readVersion nType
  let nCreditDebit ← readSigned 8
  let nTime ← readSigned 8
  let strOtherAccount ← readString
  let strComment ← readString
  let (mapValue, ssExtra) ← readBehindComment strComment
  return { acentry with
    nCreditDebit, nTime, strOtherAccount
    strComment := strComment.takeWhile fun c => decide (c ≠ 0)
    mapValue := mapValue.erase keyN
    nOrderPos := readOrderPos mapValue
    ssExtra := ssExtra.getD acentry.ssExtra }

end CAccountingEntry

/-- `CAccountingEntry()`; the number is what the memory holds. -/
def newAccountingEntry (nEntryNo : UInt64) : CAccountingEntry where
  strAccount := []
  nCreditDebit := 0
  nTime := 0
  strOtherAccount := []
  strComment := []
  mapValue := .empty
  nOrderPos := -1
  nEntryNo := nEntryNo
  ssExtra := []

/-- The key of the record that `WriteAccountingEntry` writes. -/
def accountingKey (strAccount : StdString) (nAccEntryNum : UInt64) : List UInt8 :=
  writeString (stdString "acentry") ++ writeString strAccount ++ LittleEndian.ofNat 8 nAccEntryNum.toNat

/-- What `ListAccountCreditDebit` makes of a record: `none` where it is not one of an accounting entry. -/
def readAccountingEntry (uninitialized : UInt64) (ssKey ssValue : List UInt8) : Except String (Option CAccountingEntry) :=
  (do
    let strType ← readString
    if strType ≠ stdString "acentry" then return none
    else
      let strAccount ← readString
      match (CAccountingEntry.unserialize serDisk { newAccountingEntry uninitialized with strAccount } ssValue).1 with
      | .error e => Exec.stop e
      | .ok acentry =>
        let nEntryNo ← readData 8
        return some { acentry with nEntryNo := UInt64.ofNat (toNat nEntryNo) } : ReadM (Option CAccountingEntry)) ssKey |>.1

def MapValue.Fits (m : MapValue) : Prop := FitsSize m.entries ∧ ∀ item ∈ m.entries, FitsSize item.1 ∧ FitsSize item.2

structure CMerkleTx.Fits (mtx : CMerkleTx) : Prop where
  tx : mtx.tx.Fits
  vMerkleBranch : FitsSize mtx.vMerkleBranch
  /-- The index is an `int`. -/
  nIndex : InRange 4 mtx.nIndex

/-- The keys under which `mapValue` holds fields of a transaction. -/
def reservedKeys : List StdString := [keyFromAccount, keyVersion, keySpent, keyN, keyTimeSmart]

/-- Nothing is longer than `MAX_SIZE`, with the entries for the fields that `mapValue` is to hold; and the numbers are
of their types. -/
structure StoredTx.Fits (wtx : StoredTx) : Prop where
  merkleTx : wtx.merkleTx.Fits
  vtxPrev : FitsSize wtx.vtxPrev
  prevs : ∀ mtx ∈ wtx.vtxPrev, mtx.Fits
  mapValue : wtx.mapValue.entries.length + 4 ≤ maxSize
  items : ∀ item ∈ wtx.mapValue.entries, FitsSize item.1 ∧ FitsSize item.2
  vOrderForm : FitsSize wtx.vOrderForm
  forms : ∀ item ∈ wtx.vOrderForm, FitsSize item.1 ∧ FitsSize item.2
  strFromAccount : FitsSize wtx.strFromAccount
  vfSpent : FitsSize wtx.vfSpent
  nOrderPos : InRange 8 wtx.nOrderPos

structure CAccountingEntry.Fits (acentry : CAccountingEntry) : Prop where
  strAccount : FitsSize acentry.strAccount
  nCreditDebit : InRange 8 acentry.nCreditDebit
  nTime : InRange 8 acentry.nTime
  strOtherAccount : FitsSize acentry.strOtherAccount
  /-- With what is put behind it. -/
  strComment : FitsSize acentry.extendedComment
  nOrderPos : InRange 8 acentry.nOrderPos

/-- None of the keys is used by anything but the fields. -/
def StoredTx.KeysFree (wtx : StoredTx) : Prop := ∀ key ∈ reservedKeys, wtx.mapValue.find? key = none

end PupaCoin
