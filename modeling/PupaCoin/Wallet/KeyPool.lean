import Mathlib.Data.Finset.Max
import PupaCoin.Lib.Exec

/-!
# The key pool (`wallet.cpp`, `wallet.h`, `walletdb.cpp`)

The wallet keeps records of unused keys in its database and the indices of these records in memory. A key is
reserved by taking its index out of the set; later the index is returned, or the record is erased and the key is
kept. The reservations are `CReserveKey` objects, of which there may be many at a time. A caller that keeps the
index in a variable of its own is an object here as well.

`newKey` are the keys that the wallet generates, one after the other. The database reads and writes what it is
asked to.
-/

namespace PupaCoin

/-- `CKeyPool`; the key is absent where `vchPubKey` is not valid. -/
structure CKeyPool (κ : Type) where
  vchPubKey : Option κ
deriving DecidableEq, Repr

structure CReserveKey (κ : Type) where
  nIndex : Int
  vchPubKey : Option κ
deriving DecidableEq, Repr

/-- `CReserveKey()`. -/
def CReserveKey.initial {κ : Type} : CReserveKey κ := ⟨-1, none⟩

/-- What became of a key. -/
inductive KeyEvent (κ : Type)
  | handedOut (key : κ)
  | kept (key : κ)
deriving DecidableEq, Repr

/-- The wallet as far as the key pool is concerned, with the objects that hold reservations. -/
structure KeyWallet (κ : Type) where
  /-- The keys of which the wallet has the secret. -/
  mapKeys : Finset κ
  fLocked : Bool
  vchDefaultKey : Option κ
  setKeyPool : Finset Int
  /-- The `pool` records of the database. -/
  pool : Int → Option (CKeyPool κ)
  /-- How many keys have been generated. -/
  nGenerated : Nat
  reserveKeys : Nat → CReserveKey κ
  /-- What has happened to keys, the latest first. -/
  history : List (KeyEvent κ)

/-- `-litemode` and `-keypool`. -/
structure KeyPoolArgs where
  fLiteMode : Bool
  keypool : Option Int
deriving DecidableEq, Repr

/-- The number of keys that the pool is to have. -/
def KeyPoolArgs.nKeys (args : KeyPoolArgs) : Int :=
  if args.fLiteMode then max (args.keypool.getD 100) 0 else max (args.keypool.getD 1000) 0

abbrev KeyWalletM (κ : Type) := Exec (KeyWallet κ) String

namespace KeyWallet

variable {κ : Type}

def writePool (nIndex : Int) (keypool : CKeyPool κ) (w : KeyWallet κ) : KeyWallet κ :=
  { w with pool := Function.update w.pool nIndex (some keypool) }

def erasePool (nIndex : Int) (w : KeyWallet κ) : KeyWallet κ :=
  { w with pool := Function.update w.pool nIndex none }

def insertIndex (nIndex : Int) (w : KeyWallet κ) : KeyWallet κ := { w with setKeyPool := insert nIndex w.setKeyPool }

def eraseIndex (nIndex : Int) (w : KeyWallet κ) : KeyWallet κ := { w with setKeyPool := w.setKeyPool.erase nIndex }

/-- The index behind the largest one in the set, from 1 on. -/
def nextIndex (w : KeyWallet κ) : Int := if h : w.setKeyPool.Nonempty then w.setKeyPool.max' h + 1 else 1

/-- An assignment to the reservation `i`. -/
def setReserveKey (i : Nat) (reservekey : CReserveKey κ) (w : KeyWallet κ) : KeyWallet κ :=
  { w with reserveKeys := Function.update w.reserveKeys i reservekey }

def record (events : List (KeyEvent κ)) (w : KeyWallet κ) : KeyWallet κ := { w with history := events ++ w.history }

/-- `HaveKey`, of the id of the key. -/
def haveKey [DecidableEq κ] (w : KeyWallet κ) (vchPubKey : Option κ) : Bool :=
  match vchPubKey with
  | none => false
  | some key => key ∈ w.mapKeys

end KeyWallet

section CWallet

variable {κ : Type} [DecidableEq κ] (newKey : Nat → κ) (args : KeyPoolArgs)

/-- `GenerateNewKey`: a locked wallet does not take the key. -/
def generateNewKey : KeyWalletM κ κ := fun w =>
  if w.fLocked then (.error "CWallet::GenerateNewKey() : AddKey failed", w)
  else
    let pubkey := newKey w.nGenerated
    (.ok pubkey, { w with nGenerated := w.nGenerated + 1, mapKeys := insert pubkey w.mapKeys })

/-- A new key with the index `nIndex`. -/
def addPoolKey (nIndex : Int) : KeyWalletM κ Unit := do
  let pubkey ← generateNewKey newKey
  Exec.update (KeyWallet.writePool nIndex ⟨some pubkey⟩)
  Exec.update (KeyWallet.insertIndex nIndex)

def newKeyPool : KeyWalletM κ Bool := do
  Exec.update fun w => { w with pool := fun nIndex => if nIndex ∈ w.setKeyPool then none else w.pool nIndex }
  Exec.update fun w => { w with setKeyPool := ∅ }
  let w ← Exec.read
  if w.fLocked then return false
  else
    (List.range args.nKeys.toNat).forM fun i => addPoolKey newKey (i + 1)
    return true

/-- The size that `TopUpKeyPool` fills the set up to, `nTargetSize + 1` as an `unsigned int`. -/
def topUpSize (nSize : UInt32) : Nat :=
  let nTargetSize := if nSize > 0 then nSize else UInt32.ofNat args.nKeys.toNat
  (nTargetSize + 1).toNat

/-- The loop of `TopUpKeyPool`; every pass makes the set larger by one. -/
def topUpLoop (size : Nat) : Nat → KeyWalletM κ Unit
  | 0 => pure ()
  | fuel + 1 => do
    let w ← Exec.read
    if w.setKeyPool.card < size then
      addPoolKey newKey w.nextIndex
      topUpLoop size fuel

def topUpKeyPool (nSize : UInt32) : KeyWalletM κ Bool := do
  let w ← Exec.read
  if w.fLocked then return false
  else
    topUpLoop newKey (topUpSize args nSize) (topUpSize args nSize)
    return true

/-- The second half of `ReserveKeyFromKeyPool`: the index is assigned to its reference before the record is read. A
key that is not valid is not in the wallet. -/
def takeOldestKey (assign : Int → KeyWallet κ → KeyWallet κ) : KeyWalletM κ (Int × CKeyPool κ) := do
  let w ← Exec.read
  if h : w.setKeyPool.Nonempty then
    let nIndex := w.setKeyPool.min' h
    Exec.update (assign nIndex)
    Exec.update (KeyWallet.eraseIndex nIndex)
    match w.pool nIndex with
    | none => Exec.stop "ReserveKeyFromKeyPool() : read failed"
    | some keypool =>
      if w.haveKey keypool.vchPubKey then return (nIndex, keypool)
      else Exec.stop "ReserveKeyFromKeyPool() : unknown key in key pool"
  else return (-1, ⟨none⟩)

/-- `ReserveKeyFromKeyPool`; `assign` writes the reference to the index. -/
def reserveKeyFromKeyPool (assign : Int → KeyWallet κ → KeyWallet κ) : KeyWalletM κ (Int × CKeyPool κ) := do
  Exec.update (assign (-1))
  let w ← Exec.read
  if w.fLocked then takeOldestKey assign
  else
    let _ ← topUpKeyPool newKey args 0
    takeOldestKey assign

/-- `AddReserveKey`: an empty set has no last element. -/
def addReserveKey (keypool : CKeyPool κ) : KeyWalletM κ Int := do
  let w ← Exec.read
  if h : w.setKeyPool.Nonempty then
    let nIndex := 1 + w.setKeyPool.max' h
    Exec.update (KeyWallet.writePool nIndex keypool)
    Exec.update (KeyWallet.insertIndex nIndex)
    return nIndex
  else Exec.stop "AddReserveKey() : --end() of an empty set"

def keepKey (nIndex : Int) : KeyWalletM κ Unit := Exec.update (KeyWallet.erasePool nIndex)

def returnKey (nIndex : Int) : KeyWalletM κ Unit := Exec.update (KeyWallet.insertIndex nIndex)

/-- `GetKeyFromPool`; `none` where it returns false. -/
def getKeyFromPool : KeyWalletM κ (Option κ) := do
  let (nIndex, keypool) ← reserveKeyFromKeyPool newKey args fun _ w => w
  if nIndex = -1 then
    let w ← Exec.read
    if w.fLocked then return none
    else
      let result ← generateNewKey newKey
      return some result
  else
    keepKey nIndex
    return keypool.vchPubKey

namespace CReserveKey

/-- What `GetReservedKey` does when it has no index; false where it returns. -/
def fillReservation (i : Nat) : KeyWalletM κ Bool := do
  let (nIndex, keypool) ← reserveKeyFromKeyPool newKey args fun nIndex w =>
    w.setReserveKey i { w.reserveKeys i with nIndex }
  if nIndex ≠ -1 then
    Exec.update fun w => w.setReserveKey i { w.reserveKeys i with vchPubKey := keypool.vchPubKey }
    return true
  else
    let w ← Exec.read
    if w.vchDefaultKey.isSome then
      Exec.update fun w => w.setReserveKey i { w.reserveKeys i with vchPubKey := w.vchDefaultKey }
      return true
    else return false

def heldKey (i : Nat) : KeyWalletM κ (Option κ) := do
  let w ← Exec.read
  if (w.reserveKeys i).vchPubKey.isSome then return (w.reserveKeys i).vchPubKey
  else Exec.stop "assert(vchPubKey.IsValid())"

/-- `GetReservedKey`; `none` where it returns false. -/
def getReservedKey (i : Nat) : KeyWalletM κ (Option κ) := do
  let w ← Exec.read
  if (w.reserveKeys i).nIndex = -1 then
    let filled ← fillReservation newKey args i
    if filled then heldKey i else return none
  else heldKey i

def keepKey (i : Nat) : KeyWalletM κ Unit := do
  let w ← Exec.read
  (if (w.reserveKeys i).nIndex ≠ -1 then PupaCoin.keepKey (w.reserveKeys i).nIndex else pure ())
  Exec.update (KeyWallet.setReserveKey i .initial)

/-- `CReserveKey::ReturnKey`, also by the destructor. -/
def returnKey (i : Nat) : KeyWalletM κ Unit := do
  let w ← Exec.read
  (if (w.reserveKeys i).nIndex ≠ -1 then PupaCoin.returnKey (w.reserveKeys i).nIndex else pure ())
  Exec.update (KeyWallet.setReserveKey i .initial)

end CReserveKey

/-- What is done to the wallet, in any order; the reservation `i` is used by one thread at a time. -/
inductive KeyPoolOp (κ : Type)
  | newKeyPool
  | topUpKeyPool (nSize : UInt32)
  | addReserveKey (keypool : CKeyPool κ)
  | getKeyFromPool
  | getReservedKey (i : Nat)
  | keepKey (i : Nat)
  | returnKey (i : Nat)
  | lock
  | unlock
deriving DecidableEq, Repr

/-- An operation, and what it makes of keys: a key is kept when it is taken for good, from the pool or not. -/
def keyPoolStep : KeyPoolOp κ → KeyWalletM κ Unit
  | .newKeyPool => do let _ ← PupaCoin.newKeyPool newKey args
  | .topUpKeyPool nSize => do let _ ← PupaCoin.topUpKeyPool newKey args nSize
  | .addReserveKey keypool => do let _ ← PupaCoin.addReserveKey keypool
  | .getKeyFromPool => do
    let result ← PupaCoin.getKeyFromPool newKey args
    Exec.update (KeyWallet.record (result.toList.flatMap fun key => [.kept key, .handedOut key]))
  | .getReservedKey i => do
    let pubkey ← CReserveKey.getReservedKey newKey args i
    Exec.update (KeyWallet.record (pubkey.toList.map .handedOut))
  | .keepKey i => do
    let w ← Exec.read
    CReserveKey.keepKey i
    Exec.update (KeyWallet.record ((w.reserveKeys i).vchPubKey.toList.map .kept))
  | .returnKey i => CReserveKey.returnKey i
  | .lock => Exec.update fun w => { w with fLocked := true }
  | .unlock => Exec.update fun w => { w with fLocked := false }

end CWallet

namespace KeyWallet

variable {κ : Type}

/-- The object `i` holds the index `n`. -/
def Reserved (w : KeyWallet κ) (i : Nat) (n : Int) : Prop := (w.reserveKeys i).nIndex = n ∧ n ≠ -1

/-- No key is handed out after it was kept. -/
def NeverAgain (history : List (KeyEvent κ)) : Prop :=
  ∀ later key earlier, history = later ++ .handedOut key :: earlier → .kept key ∉ earlier

/-- The records of the database are those of the indices in the set and of the reservations. -/
structure Accounted (w : KeyWallet κ) : Prop where
  /-- An index in the set has a record, of a key of the wallet. -/
  recorded : ∀ n ∈ w.setKeyPool, ∃ key ∈ w.mapKeys, w.pool n = some ⟨some key⟩
  /-- A record belongs to an index in the set or to a reservation. -/
  owned : ∀ n, w.pool n ≠ none → n ∈ w.setKeyPool ∨ ∃ i, w.Reserved i n
  /-- A reserved index belongs to one reservation and to the key that this holds. -/
  assigned : ∀ i n, w.Reserved i n → n ∉ w.setKeyPool ∧ w.pool n = some ⟨(w.reserveKeys i).vchPubKey⟩ ∧
    ∀ j, w.Reserved j n → j = i
  neverAgain : NeverAgain w.history

/-- A wallet that has been loaded: the set is read from the records, and nothing is reserved. -/
structure Loaded (newKey : Nat → κ) (w : KeyWallet κ) : Prop where
  setKeyPool : ∀ n, n ∈ w.setKeyPool ↔ w.pool n ≠ none
  records : ∀ n keypool, w.pool n = some keypool → 1 ≤ n ∧ ∃ key ∈ w.mapKeys, keypool = ⟨some key⟩
  distinct : ∀ m n keypool, w.pool m = some keypool → w.pool n = some keypool → m = n
  /-- The default key is a key of the wallet that was taken from the pool. -/
  vchDefaultKey : ∀ key, w.vchDefaultKey = some key → key ∈ w.mapKeys ∧ ∀ n, w.pool n ≠ some ⟨some key⟩
  /-- What will be generated is new. -/
  fresh : ∀ m, w.nGenerated ≤ m → newKey m ∉ w.mapKeys
  reserveKeys : ∀ i, w.reserveKeys i = .initial
  history : w.history = []

end KeyWallet

section Safe

variable {κ : Type} (args : KeyPoolArgs)

/-- The indices that `TopUpKeyPool` is about to write are not reserved. -/
def TopUpSafe (nSize : UInt32) (w : KeyWallet κ) : Prop :=
  w.fLocked = false → ∀ i n, w.Reserved i n →
    ¬(w.nextIndex ≤ n ∧ n < w.nextIndex + topUpSize args nSize - w.setKeyPool.card)

/-- The operation writes no index that is reserved; `AddReserveKey` is called on a set that is not empty, with an
unused key of the wallet; a reservation does not fall back on a default key that was kept. -/
def KeyPoolSafe (w : KeyWallet κ) : KeyPoolOp κ → Prop
  | .newKeyPool => w.fLocked = false → ∀ i n, w.Reserved i n → ¬(1 ≤ n ∧ n ≤ args.nKeys)
  | .topUpKeyPool nSize => TopUpSafe args nSize w
  | .addReserveKey keypool => w.setKeyPool.Nonempty ∧ (∀ i, ¬w.Reserved i w.nextIndex) ∧
      ∃ key ∈ w.mapKeys, keypool = ⟨some key⟩ ∧ (∀ n, w.pool n ≠ some keypool) ∧ .kept key ∉ w.history ∧
        w.vchDefaultKey ≠ some key
  | .getKeyFromPool => TopUpSafe args 0 w
  | .getReservedKey i => (w.reserveKeys i).nIndex = -1 → TopUpSafe args 0 w ∧
      (w.setKeyPool = ∅ → w.fLocked = true ∨ topUpSize args 0 = 0 →
        ∀ key, w.vchDefaultKey = some key → .kept key ∉ w.history)
  | .keepKey _ | .returnKey _ | .lock | .unlock => True

end Safe

/-- The states that operations lead to, one after the other, each of them safe where it begins; one that throws
leaves what it has done. -/
inductive SafeKeyPoolRun {κ : Type} [DecidableEq κ] (newKey : Nat → κ) (args : KeyPoolArgs) :
    KeyWallet κ → KeyWallet κ → Prop
  | start (w : KeyWallet κ) : SafeKeyPoolRun newKey args w w
  | step {w₀ w : KeyWallet κ} (op : KeyPoolOp κ) : SafeKeyPoolRun newKey args w₀ w → KeyPoolSafe args w op →
      SafeKeyPoolRun newKey args w₀ (keyPoolStep newKey args op w).2

end PupaCoin
