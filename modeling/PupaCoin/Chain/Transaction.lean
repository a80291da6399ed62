import PupaCoin.Chain.Params
import PupaCoin.Script.Script
import PupaCoin.Lib.Guards

/-!
# Transactions (`chain.h`, `main.h`, `main.cpp`)

Transactions, their classification into coinbase, coinstake and ordinary ones, the checks of
`CheckTransaction`, and the three ways in which a function of the node can fail to return.
-/

namespace PupaCoin

variable {c : Bool} {n : Nat} {m w : String} {e : Stop}

/-- Why a function did not succeed. -/
inductive Stop where
  /-- The C++ function returned `false`, with the misbehaviour score and the message it logs. -/
  | reject (nDoS : Nat) (message : String)
  /-- A C++ exception. -/
  | exception (what : String)
  /-- Undefined behaviour: a null or out-of-range access, a failed assertion, a signed overflow. -/
  | undefined (what : String)
deriving DecidableEq, Repr

/-- The function has returned true or false. -/
def IsVerdict {α : Type} : Except Stop α → Prop
  | .ok _ => True
  | .error (.reject _ _) => True
  | _ => False

/-- `if (c) return DoS(nDoS, error(message));` -/
def rejectIf (c : Bool) (nDoS : Nat) (message : String) : Except Stop Unit :=
  Guards.stopIf c (.reject nDoS message)

/-- The value behind a pointer or an index that the code does not check. -/
def orUndefined {α : Type} (x : Option α) (what : String) : Except Stop α :=
  match x with
  | some a => .ok a
  | none => .error (.undefined what)

/-- Addition of two `int64_t`. -/
def addI64 (a b : Int) : Except Stop Int :=
  if -2 ^ 63 ≤ a + b ∧ a + b < 2 ^ 63 then .ok (a + b) else .error (.undefined "signed overflow")

@[simp] theorem rejectIf_eq_ok {u : Unit} : rejectIf c n m = .ok u ↔ c = false := Guards.stopIf_eq_ok

@[simp] theorem rejectIf_eq_error : rejectIf c n m = .error e ↔ c = true ∧ .reject n m = e := Guards.stopIf_eq_error

@[simp] theorem orUndefined_eq_ok {α : Type} {x : Option α} {a : α} : orUndefined x w = .ok a ↔ x = some a := by
  cases x <;> simp [orUndefined]

@[simp] theorem orUndefined_eq_error {α : Type} {x : Option α} :
    orUndefined x w = .error e ↔ x = none ∧ .undefined w = e := by
  cases x <;> simp [orUndefined]

theorem addI64_eq_ok {a b c : Int} (h : addI64 a b = .ok c) : c = a + b := by
  unfold addI64 at h
  split at h
  · exact (Except.ok.inj h).symm
  · cases h

/-- `COutPoint`: a transaction hash and an index into its outputs. -/
structure COutPoint where
  hash : UInt256
  n : UInt32
deriving DecidableEq, Repr

def COutPoint.null : COutPoint := ⟨0, 0xffffffff⟩

def COutPoint.isNull (o : COutPoint) : Bool := o == .null

structure CTxIn where
  prevout : COutPoint
  scriptSig : CScript
  nSequence : UInt32
deriving DecidableEq, Repr

def CTxIn.isFinal (txin : CTxIn) : Bool := txin.nSequence == 0xffffffff

structure CTxOut where
  nValue : Int
  scriptPubKey : CScript
deriving DecidableEq, Repr

def CTxOut.isEmpty (txout : CTxOut) : Bool := txout.nValue == 0 && txout.scriptPubKey.isEmpty

structure CTransaction where
  nVersion : Int
  nTime : UInt32
  vin : List CTxIn
  vout : List CTxOut
  nLockTime : UInt32
deriving DecidableEq, Repr

def getSizeOfCompactSize (nSize : Nat) : Nat :=
  if nSize < 253 then 1
  else if nSize ≤ 0xffff then 3
  else if nSize ≤ 0xffffffff then 5
  else 9

namespace CTransaction

def bytesSize (bytes : List UInt8) : Nat := getSizeOfCompactSize bytes.length + bytes.length

/-- `::GetSerializeSize(tx, ...)`: the network and the disk format have the same size. -/
def serializeSize (tx : CTransaction) : Nat :=
  4 + 4 + getSizeOfCompactSize tx.vin.length
    + (tx.vin.map fun txin => 36 + bytesSize txin.scriptSig + 4).sum
    + getSizeOfCompactSize tx.vout.length
    + (tx.vout.map fun txout => 8 + bytesSize txout.scriptPubKey).sum + 4

def isCoinBase (tx : CTransaction) : Bool :=
  match tx.vin with
  | [txin] => txin.prevout.isNull && decide (1 ≤ tx.vout.length)
  | _ => false

/-- `IsCoinStake`: marked by an empty first output. -/
def isCoinStake (tx : CTransaction) : Bool :=
  match tx.vin, tx.vout with
  | txin :: _, txout :: _ :: _ => !txin.prevout.isNull && txout.isEmpty
  | _, _ => false

/-- One round of `GetValueOut`. -/
def addValueOut (nValueOut : Int) (txout : CTxOut) : Except Stop Int := do
  let sum ← addI64 nValueOut txout.nValue
  if !moneyRange txout.nValue || !moneyRange sum then
    throw (.exception "CTransaction::GetValueOut() : value out of range")
  return sum

def getValueOut (tx : CTransaction) : Except Stop Int := tx.vout.foldlM addValueOut 0

def getLegacySigOpCount (tx : CTransaction) : Nat :=
  (tx.vin.map fun txin => txin.scriptSig.getSigOpCount false).sum
    + (tx.vout.map fun txout => txout.scriptPubKey.getSigOpCount false).sum

/-- One round of the output loop of `CheckTransaction`. -/
def checkTxOut (tx : CTransaction) (nValueOut : Int) (txout : CTxOut) : Except Stop Int := do
  rejectIf (txout.isEmpty && !tx.isCoinBase && !tx.isCoinStake) 100
    "CTransaction::CheckTransaction() : txout empty for user transaction"
  rejectIf (txout.nValue < 0) 100 "CTransaction::CheckTransaction() : txout.nValue negative"
  rejectIf (txout.nValue > maxSingleTx) 100
    "CTransaction::CheckTransaction() : txout.nValue too high"
  let sum ← addI64 nValueOut txout.nValue
  rejectIf (!moneyRange sum) 100 "CTransaction::CheckTransaction() : txout total out of range"
  return sum

/-- The checks of `CheckTransaction` on the inputs, after the one for duplicates. -/
def checkTxIns (tx : CTransaction) : Except Stop Unit :=
  if tx.isCoinBase then
    tx.vin.forM fun txin =>
      rejectIf (txin.scriptSig.length < 2 || txin.scriptSig.length > 100) 100
        "CTransaction::CheckTransaction() : coinbase script size is invalid"
  else
    tx.vin.forM fun txin =>
      rejectIf txin.prevout.isNull 10 "CTransaction::CheckTransaction() : prevout is null"

/-- `CheckTransaction`, under the current `MAX_BLOCK_SIZE`. -/
def checkTransaction (maxBlockSize : Nat) (tx : CTransaction) : Except Stop Unit := do
  rejectIf tx.vin.isEmpty 10 "CTransaction::CheckTransaction() : vin empty"
  rejectIf tx.vout.isEmpty 10 "CTransaction::CheckTransaction() : vout empty"
  rejectIf (tx.serializeSize > maxBlockSize) 100
    "CTransaction::CheckTransaction() : size limits failed"
  let _ ← tx.vout.foldlM (checkTxOut tx) 0
  rejectIf (!(tx.vin.map CTxIn.prevout).Nodup) 0 ""
  checkTxIns tx

/-- `IsFinalTx`: a height or a time of zero stands for the node's best height or adjusted time. -/
def isFinalTx (nBestHeight adjustedTime : Int) (tx : CTransaction) (nBlockHeight nBlockTime : Int) : Bool :=
  let height := if nBlockHeight = 0 then nBestHeight else nBlockHeight
  let time := if nBlockTime = 0 then adjustedTime else nBlockTime
  tx.nLockTime == 0
    || decide ((tx.nLockTime.toNat : Int)
      < if tx.nLockTime.toNat < locktimeThreshold then height else time)
    || tx.vin.all CTxIn.isFinal

end CTransaction

inductive GetMinFeeMode where
  | relay
  | send
deriving DecidableEq, Repr

def getMinFee (tx : CTransaction) (nBytes : Nat) (fAllowFree : Bool) (mode : GetMinFeeMode) : Int :=
  let nBaseFee := if mode = .relay then minRelayTxFee else minTxFee
  let nMinFee : Int := (1 + nBytes / 1000 : Nat) * nBaseFee
  let nMinFee :=
    if fAllowFree && decide (nBytes < if mode = .send then 1000 else defaultBlockPrioritySize - 1000) then 0
    else nMinFee
  let nMinFee :=
    if nMinFee < nBaseFee ∧ mode = .send ∧ tx.vout.any (fun txout => decide (txout.nValue < cent)) then nBaseFee
    else nMinFee
  if moneyRange nMinFee then nMinFee else maxSingleTx

end PupaCoin
