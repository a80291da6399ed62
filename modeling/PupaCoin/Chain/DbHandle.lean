import PupaCoin.Chain.Transaction
import PupaCoin.Lib.Overlay

/-!
# A handle of the transaction database (`txdb-leveldb.h`, `txdb-leveldb.cpp`)

`CTxDB` reads and writes the database, between `TxnBegin` and `TxnCommit` through a batch of writes that are not
in the database yet. Keys and values are the bytes they are serialized to; `Read` is given the function that
unserializes.
-/

namespace PupaCoin

abbrev LevelDb := List UInt8 → Option (List UInt8)

/-- `leveldb::WriteBatch`: its puts and deletes, oldest first. -/
abbrev WriteBatch := List (Overlay.Op (List UInt8) (List UInt8))

/-- `CBatchScanner`, without its needle. -/
structure CBatchScanner where
  deleted : Bool
  foundValue : List UInt8
  foundEntry : Bool
deriving DecidableEq, Repr

/-- `Put` and `Delete` of the scanner. -/
def CBatchScanner.handle (needle : List UInt8) (scanner : CBatchScanner) :
    Overlay.Op (List UInt8) (List UInt8) → CBatchScanner
  | .put key value => if key = needle then ⟨false, value, true⟩ else scanner
  | .delete key => if key = needle then { scanner with foundEntry := true, deleted := true } else scanner

/-- `ScanBatch`: the scanner after the batch. -/
def scanBatch (activeBatch : WriteBatch) (key value : List UInt8) : CBatchScanner :=
  activeBatch.foldl (CBatchScanner.handle key) ⟨false, value, false⟩

/-- `CTxDB`, with the database that it points at. -/
structure CTxDB where
  pdb : Option LevelDb
  /-- Puts and deletes go here instead of to the database. -/
  activeBatch : Option WriteBatch
  fReadOnly : Bool

namespace CTxDB

/-- `pdb->Get`, which finds the value or answers that there is none: that the disk can be read is assumed. -/
def get (t : CTxDB) (ssKey : List UInt8) : Except Stop (Option (List UInt8)) := do
  let db ← orUndefined t.pdb "pdb"
  return db ssKey

/-- The string that `Read` unserializes. -/
def readString (t : CTxDB) (ssKey : List UInt8) : Except Stop (Option (List UInt8)) :=
  match t.activeBatch with
  | none => t.get ssKey
  | some batch =>
    let scanner := scanBatch batch ssKey []
    if scanner.deleted then return none
    else if scanner.foundEntry then return some scanner.foundValue
    else t.get ssKey

/-- `Read`: the value, where it returns true. -/
def read {T : Type} (unserialize : List UInt8 → Option T) (t : CTxDB) (ssKey : List UInt8) :
    Except Stop (Option T) := do
  let strValue ← t.readString ssKey
  return strValue.bind unserialize

/-- `Exists`. -/
def existsKey (t : CTxDB) (ssKey : List UInt8) : Except Stop Bool := do
  let found := match t.activeBatch with
    | none => false
    | some batch =>
      let scanner := scanBatch batch ssKey []
      scanner.foundEntry && !scanner.deleted
  if found then return true
  -- a key that the batch deletes is looked up in the database as well
  let value ← t.get ssKey
  return value.isSome

/-- `Write`, with the status that LevelDB returns where it is asked: a value that it refuses is not stored. -/
def write (status : Bool) (t : CTxDB) (ssKey ssValue : List UInt8) : Except Stop (Bool × CTxDB) :=
  if t.fReadOnly then .error (.undefined "assert: Write called on database in read-only mode")
  else
    match t.activeBatch with
    | some batch => return (true, { t with activeBatch := some (batch ++ [.put ssKey ssValue]) })
    | none => do
      let db ← orUndefined t.pdb "pdb"
      return (status, { t with pdb := some (if status then (Overlay.Op.put ssKey ssValue).apply db else db) })

/-- `Erase`, with the same status. LevelDB deletes a key that it does not have. -/
def erase (status : Bool) (t : CTxDB) (ssKey : List UInt8) : Except Stop (Bool × CTxDB) :=
  match t.pdb with
  | none => return (false, t)
  | some db =>
    if t.fReadOnly then .error (.undefined "assert: Erase called on database in read-only mode")
    else
      match t.activeBatch with
      | some batch => return (true, { t with activeBatch := some (batch ++ [.delete ssKey]) })
      | none =>
        return (status, { t with pdb := some (if status then (Overlay.Op.delete ssKey).apply db else db) })

def txnBegin (t : CTxDB) : Except Stop CTxDB :=
  match t.activeBatch with
  | some _ => .error (.undefined "assert(!activeBatch)")
  | none => return { t with activeBatch := some [] }

/-- `TxnCommit`, with the status that LevelDB returns: a batch is written as a whole or not at all. -/
def txnCommit (status : Bool) (t : CTxDB) : Except Stop (Bool × CTxDB) :=
  match t.activeBatch with
  | none => .error (.undefined "assert(activeBatch)")
  | some batch => do
    let db ← orUndefined t.pdb "pdb"
    return (status, { t with pdb := some (if status then Overlay.commit db batch else db), activeBatch := none })

def txnAbort (t : CTxDB) : CTxDB := { t with activeBatch := none }

end CTxDB

/-- A call between `TxnBegin` and `TxnCommit`. -/
inductive DbCall (T : Type) where
  | read (key : List UInt8) (unserialize : List UInt8 → Option T)
  | existsKey (key : List UInt8)
  | write (key value : List UInt8)
  | erase (key : List UInt8)

/-- What a call returns. -/
inductive DbAnswer (T : Type) where
  /-- `Read`: the value, where it returns true. -/
  | value (value : Option T)
  | bool (result : Bool)
deriving DecidableEq, Repr

namespace DbCall

variable {T : Type}

/-- The operation that a call adds to the batch. -/
def op? : DbCall T → Option (Overlay.Op (List UInt8) (List UInt8))
  | read _ _ => none
  | existsKey _ => none
  | write key value => some (.put key value)
  | erase key => some (.delete key)

def ops (calls : List (DbCall T)) : WriteBatch := calls.filterMap op?

/-- A call, with the status of a write that does not go to a batch. -/
def run (status : Bool) (t : CTxDB) : DbCall T → Except Stop (DbAnswer T × CTxDB)
  | read key unserialize => do return (.value (← t.read unserialize key), t)
  | existsKey key => do return (.bool (← t.existsKey key), t)
  | write key value => do
    let (result, t) ← CTxDB.write status t key value
    return (.bool result, t)
  | erase key => do
    let (result, t) ← CTxDB.erase status t key
    return (.bool result, t)

/-- The calls of a transaction, which go to its batch. -/
def runAll (t : CTxDB) : List (DbCall T) → Except Stop (List (DbAnswer T) × CTxDB)
  | [] => return ([], t)
  | call :: calls => do
    let (answer, t) ← call.run true t
    let (answers, t) ← runAll t calls
    return (answer :: answers, t)

/-! ### The map that a handle stands for -/

def answer (m : LevelDb) : DbCall T → DbAnswer T
  | read key unserialize => .value ((m key).bind unserialize)
  | existsKey key => .bool (m key).isSome
  | write _ _ => .bool true
  | erase _ => .bool true

def apply (m : LevelDb) (call : DbCall T) : LevelDb :=
  match call.op? with
  | none => m
  | some op => op.apply m

/-- What the calls to a map return, one after the other. -/
def answers (m : LevelDb) : List (DbCall T) → List (DbAnswer T)
  | [] => []
  | call :: calls => call.answer m :: answers (call.apply m) calls

/-- The calls between `TxnBegin` and the end of the transaction return what they return on a map. `TxnCommit`
makes the database equal to this map, and `TxnAbort` leaves the database as it was. -/
def BehavesAsMap (db : LevelDb) (fReadOnly : Bool) (calls : List (DbCall T)) : Prop :=
  ∃ begun returned ended, CTxDB.txnBegin ⟨some db, none, fReadOnly⟩ = .ok begun
    ∧ runAll begun calls = .ok (returned, ended)
    ∧ returned = answers db calls
    ∧ ended.txnCommit true = .ok (true, ⟨some (calls.foldl apply db), none, fReadOnly⟩)
    ∧ ended.txnAbort = ⟨some db, none, fReadOnly⟩

/-- `Exists` of a key of the database that is erased in the batch. -/
def AsksErased (db : LevelDb) (batch : WriteBatch) : DbCall T → Prop
  | existsKey key => (db key).isSome ∧ Overlay.scan batch key = some none
  | _ => False

/-- The assertions on read-only handles hold. -/
def Permitted (fReadOnly : Bool) (calls : List (DbCall T)) : Prop :=
  fReadOnly = true → ∀ call ∈ calls, call.op? = none

end DbCall

/-- A step of a session with a handle, which may hold several transactions: `status` is what LevelDB returns of what is
written to it. -/
inductive DbStep (T : Type) where
  | txnBegin
  | txnCommit (status : Bool)
  | txnAbort
  | dbCall (status : Bool) (call : DbCall T)

/-- The map that is stored, and that of the transaction that is open. -/
structure MapStore where
  disk : LevelDb
  pending : Option LevelDb

def MapStore.visible (m : MapStore) : LevelDb := m.pending.getD m.disk

namespace DbStep

variable {T : Type}

def run (t : CTxDB) : DbStep T → Except Stop (Option (DbAnswer T) × CTxDB)
  | txnBegin => do return (none, ← t.txnBegin)
  | txnCommit status => do
    let (result, t) ← t.txnCommit status
    return (some (.bool result), t)
  | txnAbort => return (none, t.txnAbort)
  | dbCall status call => do
    let (answer, t) ← call.run status t
    return (some answer, t)

def apply (m : MapStore) : DbStep T → MapStore
  | txnBegin => { m with pending := some m.disk }
  | txnCommit status => ⟨if status then m.visible else m.disk, none⟩
  | txnAbort => { m with pending := none }
  | dbCall status call =>
    if m.pending.isSome then { m with pending := some (call.apply m.visible) }
    else if status then { m with disk := call.apply m.disk }
    else m

def answer (m : MapStore) : DbStep T → Option (DbAnswer T)
  | txnBegin => none
  | txnCommit status => some (.bool status)
  | txnAbort => none
  | dbCall status call =>
    some (if m.pending.isNone && call.op?.isSome then .bool status else call.answer m.visible)

/-- `Exists` of a key of the database that the open batch erases. -/
def AsksErased (t : CTxDB) : DbStep T → Prop
  | dbCall _ call => ∃ db batch, t.pdb = some db ∧ t.activeBatch = some batch ∧ call.AsksErased db batch
  | _ => False

end DbStep

/-- A handle stands for a map, and for a second one while a transaction is open. -/
structure CTxDB.Stands (t : CTxDB) (m : MapStore) : Prop where
  pdb : t.pdb = some m.disk
  pending : t.activeBatch.map (Overlay.commit m.disk) = m.pending

end PupaCoin
