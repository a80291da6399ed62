import PupaCoin.Lib.Renumber
import PupaCoin.Wallet.WalletRecords

/-!
# Giving positions to transactions and accounting entries (`CWalletDB::ReorderTransactions`)

Records of old wallets have no position. A wallet that is loaded takes its transactions, and the accounting entries that
it lists, in the order of their times, and gives a position to those that have none; the others are shifted.
-/

namespace PupaCoin

/-- The records of accounting entries, with what is read back of each: the account and the number come from the key. -/
structure AccountingRecords where
  records : OrderedMap (List UInt8) CAccountingEntry
  keyed : ∀ e ∈ records.entries, e.1 = accountingKey e.2.strAccount e.2.nEntryNo

def AccountingRecords.set (db : AccountingRecords) (acentry : CAccountingEntry) : AccountingRecords where
  records := db.records.set (accountingKey acentry.strAccount acentry.nEntryNo) acentry
  keyed e he := by
    rcases OrderedMap.mem_set.mp he with rfl | ⟨he, -⟩
    · rfl
    · exact db.keyed e he

/-- `CWalletDB`, and whether a write of each of its records goes through. -/
structure OrderDB where
  txs : OrderedMap UInt256 StoredTx
  acentries : AccountingRecords
  orderposnext : Option Int
  writesTx : UInt256 → Bool
  writesAcentry : List UInt8 → Bool
  writesNext : Bool

/-- `ListAccountCreditDebit`. (The records behind those of accounting entries end it, as the end of the database does.) -/
def listAccountCreditDebit (strAccount : StdString) (db : OrderDB) : List CAccountingEntry :=
  let fAllAccounts := decide (strAccount = stdString "*")
  let start := accountingKey (if fAllAccounts then [] else strAccount) 0
  ((db.acentries.records.entries.dropWhile fun e => decide (e.1 < start)).takeWhile fun e =>
    fAllAccounts || decide (e.2.strAccount = strAccount)).map Prod.snd

/-- A transaction of the wallet, by the hash of its entry, or an accounting entry of the list. -/
inductive TimedItem where
  | pwtx (hash : UInt256)
  | pacentry (acentry : CAccountingEntry)

/-- The wallet, the database and the variables of the loop. -/
structure ReorderState where
  mapWallet : OrderedMap UInt256 StoredTx
  db : OrderDB
  nOrderPosNext : Int
  nOrderPosOffsets : List Int

/-- How the function ends; a sum that does not fit into an `int64_t` is undefined behaviour. -/
inductive ReorderEnd where
  | loadOk
  | loadFail
  | overflow
deriving DecidableEq, Repr

namespace ReorderState

def txByTime (mapWallet : OrderedMap UInt256 StoredTx) (db : OrderDB) : OrderedMultimap Int TimedItem :=
  let txByTime := mapWallet.entries.foldl (fun items e => items.insert e.2.nTimeReceived.toNat (.pwtx e.1)) .empty
  (listAccountCreditDebit [] db).foldl (fun items acentry => items.insert acentry.nTime (.pacentry acentry)) txByTime

/-- `nOrderPos`; a pointer of the list is always to an entry. -/
def nOrderPos (s : ReorderState) : TimedItem → Int
  | .pwtx hash => ((s.mapWallet.find? hash).map StoredTx.nOrderPos).getD (-1)
  | .pacentry acentry => acentry.nOrderPos

/-- A new position of an item, written with its record: `WriteTx` or `WriteAccountingEntry`. -/
def write (getHash : CTransaction → UInt256) (s : ReorderState) (nOrderPos : Int) : TimedItem → Bool × ReorderState
  | .pwtx hash =>
    match s.mapWallet.find? hash with
    | none => (true, s)
    | some wtx =>
      let wtx := { wtx with nOrderPos }
      -- the object loses what it holds under reserved keys, whether or not the record is written
      let s := { s with mapWallet := s.mapWallet.set hash wtx.restored }
      let key := getHash wtx.merkleTx.tx
      if s.db.writesTx key then (true, { s with db := { s.db with txs := s.db.txs.set key wtx } }) else (false, s)
  | .pacentry acentry =>
    let acentry := { acentry with nOrderPos }
    if s.db.writesAcentry (accountingKey acentry.strAccount acentry.nEntryNo) then
      (true, { s with db := { s.db with acentries := s.db.acentries.set acentry } })
    else (false, s)

/-- The largest `int64_t`. -/
def maxInt64 : Int := 2 ^ 63 - 1

/-- The body of the loop; an item whose record cannot be written ends it. -/
def reorderItem (getHash : CTransaction → UInt256) (s : ReorderState) (item : TimedItem) : ReorderEnd × ReorderState :=
  let nOrderPos := s.nOrderPos item
  if nOrderPos = -1 then
    if s.nOrderPosNext + 1 > maxInt64 then (.overflow, s)
    else
      let s' := { s with
        nOrderPosNext := s.nOrderPosNext + 1, nOrderPosOffsets := s.nOrderPosOffsets ++ [s.nOrderPosNext] }
      match s'.write getHash s.nOrderPosNext item with
      | (true, s) => (.loadOk, s)
      | (false, s) => (.loadFail, s)
  else
    let nOrderPosOff := s.nOrderPosOffsets.countP fun nOffsetStart => decide (nOrderPos ≥ nOffsetStart)
    if nOrderPos + nOrderPosOff + 1 > maxInt64 then (.overflow, s)
    else
      let s' := { s with nOrderPosNext := max s.nOrderPosNext (nOrderPos + nOrderPosOff + 1) }
      if nOrderPosOff = 0 then (.loadOk, s')
      else
        match s'.write getHash (nOrderPos + nOrderPosOff) item with
        | (true, s) => (.loadOk, s)
        | (false, s) => (.loadFail, s)

def reorderLoop (getHash : CTransaction → UInt256) (s : ReorderState) : List TimedItem → ReorderEnd × ReorderState
  | [] => (.loadOk, s)
  | item :: items =>
    match s.reorderItem getHash item with
    | (.loadOk, s) => s.reorderLoop getHash items
    | (e, s) => (e, s)

def writeOrderPosNext (s : ReorderState) : ReorderState :=
  if s.db.writesNext then { s with db := { s.db with orderposnext := some s.nOrderPosNext } } else s

end ReorderState

/-- `ReorderTransactions`: how it ends, and the wallet and the database then. -/
def reorderTransactions (getHash : CTransaction → UInt256) (mapWallet : OrderedMap UInt256 StoredTx) (db : OrderDB) :
    ReorderEnd × ReorderState :=
  let items := (ReorderState.txByTime mapWallet db).entries.map Prod.snd
  match ReorderState.reorderLoop getHash ⟨mapWallet, db, 0, []⟩ items with
  | (.loadOk, s) => (.loadOk, s.writeOrderPosNext)
  | (e, s) => (e, s)

/-- A transaction of the wallet, or the record of an accounting entry. -/
abbrev OrderedItem := UInt256 ⊕ List UInt8

/-- The position of a transaction in the wallet, or of an accounting entry in the database. -/
def positionOf (mapWallet : OrderedMap UInt256 StoredTx) (db : OrderDB) : OrderedItem → Option Int
  | .inl hash => (mapWallet.find? hash).map StoredTx.nOrderPos
  | .inr key => (db.acentries.records.find? key).map CAccountingEntry.nOrderPos

/-- No two have one position, and all have one below the next one; what had a position keeps its order; and the records
hold the positions of the transactions, and the next one if it could be written. -/
structure StrictlyOrdered (before : OrderedItem → Option Int) (s : ReorderState) : Prop where
  distinct : ∀ a b n, positionOf s.mapWallet s.db a = some n → positionOf s.mapWallet s.db b = some n → a = b
  below : ∀ a n, positionOf s.mapWallet s.db a = some n → n < s.nOrderPosNext
  kept : ∀ a b m n m' n', before a = some m → before b = some n → 0 ≤ m → m < n →
    positionOf s.mapWallet s.db a = some m' → positionOf s.mapWallet s.db b = some n' → m' < n'
  written : ∀ hash wtx, s.mapWallet.find? hash = some wtx →
    (s.db.txs.find? hash).map StoredTx.nOrderPos = some wtx.nOrderPos
  next : s.db.writesNext = true → s.db.orderposnext = some s.nOrderPosNext

def TimedItem.item : TimedItem → OrderedItem
  | .pwtx hash => .inl hash
  | .pacentry acentry => .inr (accountingKey acentry.strAccount acentry.nEntryNo)

/-- The positions of the listed items, in the order of their times. -/
def listedPositions (mapWallet : OrderedMap UInt256 StoredTx) (db : OrderDB) : List Int :=
  (ReorderState.txByTime mapWallet db).entries.map fun e => ReorderState.nOrderPos ⟨mapWallet, db, 0, []⟩ e.2

/-- What a wallet that is loaded has: the positions are distinct where there are any, the transactions are under their
hashes, and a record with a position holds the one of the transaction. -/
structure Loaded (getHash : CTransaction → UInt256) (mapWallet : OrderedMap UInt256 StoredTx) (db : OrderDB) : Prop where
  range : ∀ a n, positionOf mapWallet db a = some n → -1 ≤ n
  distinct : ∀ a b n, n ≠ -1 → positionOf mapWallet db a = some n → positionOf mapWallet db b = some n → a = b
  hash : ∀ hash wtx, mapWallet.find? hash = some wtx → getHash wtx.merkleTx.tx = hash
  records : ∀ hash wtx, mapWallet.find? hash = some wtx → wtx.nOrderPos ≠ -1 →
    (db.txs.find? hash).map StoredTx.nOrderPos = some wtx.nOrderPos

/-- Every record of a transaction or an entry can be written. -/
structure OrderDB.Writable (db : OrderDB) : Prop where
  txs : ∀ hash, db.writesTx hash = true
  acentries : ∀ key, db.writesAcentry key = true

/-- The position of an entry of another account, in what becomes of the listed ones: it is below the next one, no slot,
and above what the smaller ones are shifted to. -/
structure FitsIn (listed : List Int) (q : Int) : Prop where
  below : q < Renumber.slot listed
  slots : ∀ l₁ l₂, listed = l₁ ++ -1 :: l₂ → q ≠ Renumber.slot l₁
  above : ∀ p ∈ listed, p ≠ -1 → p < q → p + Renumber.shift listed p < q

/-- The entries of other accounts, which are not listed, are in order nevertheless. -/
structure OthersFit (mapWallet : OrderedMap UInt256 StoredTx) (db : OrderDB) : Prop where
  fits : ∀ acentry q, acentry.strAccount ≠ [] →
    positionOf mapWallet db (TimedItem.pacentry acentry).item = some q → FitsIn (listedPositions mapWallet db) q
  /-- At most one of them has no position. -/
  unplaced : ∀ acentry acentry' : CAccountingEntry, acentry.strAccount ≠ [] → acentry'.strAccount ≠ [] →
    positionOf mapWallet db (TimedItem.pacentry acentry).item = some (-1) →
    positionOf mapWallet db (TimedItem.pacentry acentry').item = some (-1) →
    (TimedItem.pacentry acentry).item = (TimedItem.pacentry acentry').item

end PupaCoin
