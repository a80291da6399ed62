import PupaCoin.Script.Reading
import PupaCoin.Script.Solver
import PupaCoin.Wallet.SelectCoins

/-!
# Creating a transaction (`wallet.cpp`, `main.cpp`)

`CreateTransaction` looks for a fee that pays for the transaction it leads to: every round selects coins for
the payments and the fee, makes the change and signs, and measures the transaction. A round whose fee is too low
is followed by one with the fee of the transaction it has made.
-/

namespace PupaCoin

/-- Multiplication of two `int64_t`. -/
def mulI64 (a b : Int) : Except Stop Int :=
  if -2 ^ 63 ≤ a * b ∧ a * b < 2 ^ 63 then .ok (a * b) else .error (.undefined "signed overflow")

namespace CTxOut

def isNull (txout : CTxOut) : Bool := txout.nValue == -1

/-- `GetSerializeSize`. -/
def serializeSize (txout : CTxOut) : Nat := 8 + CTransaction.bytesSize txout.scriptPubKey

def isDust (txout : CTxOut) (nMinRelayTxFee : Int) : Except Stop Bool := do
  let nValue ← mulI64 txout.nValue 1000
  return decide (nValue.tdiv (3 * (txout.serializeSize + 148)) < nMinRelayTxFee)

end CTxOut

/-- What is asked for: the arguments of `CreateTransaction`, with what is in `wtxNew` when it is called. -/
structure SendRequest where
  vecSend : List (CScript × Int)
  nVersion : Int
  nTime : UInt32
  nLockTime : UInt32
  coinControl : Option CCoinControl
  coinType : AvailableCoinsType
  useIX : Bool

/-- The random and the external choices of one round: those of the three attempts of `SelectCoins`, the order
    of a set of pointers, the script of the key that is reserved, the place of the change, what `SignSignature`
    makes, and whether `AllowFree` finds the priority high enough. -/
structure RoundChoices where
  selection : Nat → SelectionChoices
  setOrder : (coins : List CoinRef) → { ordered : List CoinRef // ordered.Perm coins }
  reservedKey : Option CScript
  getRandInt : (nMax : Nat) → Fin (nMax + 1)
  signSignature : CoinRef → CTransaction → Nat → Option CScript
  fAllowFree : Bool

/-- What a round that is paid for leaves. -/
structure Created where
  wtxNew : CTransaction
  nFeeRet : Int
  setCoins : List CoinRef
  fAllowFree : Bool

/-- How a round ends that does not fail. -/
inductive RoundResult where
  | again (nFeeRet : Int)
  | done (created : Created)

section Create

variable (w : CWallet) (solver : CScript → Option TxnOutType) (request : SendRequest)

/-- Whether the output for a payment is one that carries data, which `Solver` is asked for the amounts 0 and -1. -/
def carriesData (txout : CTxOut) : Except Stop Bool :=
  if txout.isNull || (!txout.isEmpty && txout.nValue == 0) then
    match solver txout.scriptPubKey with
    | none => .error (.reject 0 "Invalid scriptPubKey")
    | some .nonstandard => .error (.reject 0 "Unknown transaction type")
    | some whichType => .ok (whichType == .nullData)
  else .ok false

def payeeOut (s : CScript × Int) : Except Stop CTxOut := do
  let txout : CTxOut := ⟨s.2, s.1⟩
  let fOpReturn ← carriesData solver txout
  if fOpReturn then return txout
  else
    rejectIf (← txout.isDust minRelayTxFee) 0 "Transaction amount too small"
    return txout

/-- The reason for which `SelectCoins` fails. -/
def selectFailReason : String :=
  (match request.coinType with
  | .allCoins => " Insufficient funds."
  | .onlyNot10000IfMN => " Unable to locate enough MNengine non-denominated funds for this transaction."
  | .onlyNondenominatedNot10000IfMN => " Unable to locate enough MNengine non-denominated funds for this transaction that are not equal 1000 PPCN.")
  ++ if request.useIX then " InstantX requires inputs with at least 10 confirmations, you might need to wait a few minutes and try again."
    else ""

def scriptChange (choices : RoundChoices) : Except Stop CScript :=
  match request.coinControl.bind CCoinControl.destChange with
  | some script => .ok script
  | none => orUndefined choices.reservedKey "assertion failed: ret"

/-- The change, or the fee that takes it when it is dust. -/
def addChange (choices : RoundChoices) (vout : List CTxOut) (nChange nFeeRet : Int) :
    Except Stop (List CTxOut × Int) := do
  if nChange > 0 then
    let newTxOut : CTxOut := ⟨nChange, ← scriptChange request choices⟩
    if ← newTxOut.isDust minRelayTxFee then return (vout, ← addI64 nFeeRet nChange)
    else return (vout.insertIdx (choices.getRandInt vout.length).val newTxOut, nFeeRet)
  else return (vout, nFeeRet)

def signInput (choices : RoundChoices) (tx : CTransaction) (input : CoinRef × Nat) : Except Stop CTransaction :=
  match choices.signSignature input.1 tx input.2 with
  | none => .error (.reject 0 " Signing transaction failed")
  | some scriptSig =>
    .ok { tx with vin := tx.vin.modify input.2 fun txin => { txin with scriptSig := scriptSig } }

def requiredFee (nPayFee nMinFee : Int) : Int :=
  if request.useIX then max cent (max nPayFee nMinFee) else max nPayFee nMinFee

def createRound (choices : RoundChoices) (nValue nFeeRet : Int) : Except Stop RoundResult := do
  let nTotalValue ← addI64 nValue nFeeRet
  let vout ← request.vecSend.mapM (payeeOut solver)
  match ← selectCoins w choices.selection request.coinControl request.coinType request.useIX nTotalValue
      request.nTime with
  | none => throw (.reject 0 (selectFailReason request))
  | some (coins, nValueIn) =>
    let nChange ← addI64 (← addI64 nValueIn (-nValue)) (-nFeeRet)
    let (vout, nFeeRet) ← addChange request choices vout nChange nFeeRet
    let setCoins := (choices.setOrder coins).val
    let vin := setCoins.map fun c => (⟨c.outPoint, [], 0xffffffff⟩ : CTxIn)
    let wtxNew ← setCoins.zipIdx.foldlM (signInput choices)
      ⟨request.nVersion, request.nTime, vin, vout, request.nLockTime⟩
    let nBytes := wtxNew.serializeSize
    rejectIf (nBytes ≥ maxStandardTxSize) 0 " Transaction too large"
    let nPayFee ← mulI64 w.nTransactionFee (1 + nBytes / 1000 : Nat)
    let nMinFee := getMinFee wtxNew nBytes choices.fAllowFree .send
    if nFeeRet < max nPayFee nMinFee then return .again (requiredFee request nPayFee nMinFee)
    else return .done ⟨wtxNew, nFeeRet, setCoins, choices.fAllowFree⟩

/-- The loop: `none` where it has not ended within `fuel` rounds. -/
def createLoop (choices : Nat → RoundChoices) (nValue : Int) : Nat → Nat → Int → Option (Except Stop Created)
  | 0, _, _ => none
  | fuel + 1, round, nFeeRet =>
    match createRound w solver request (choices round) nValue nFeeRet with
    | .error e => some (.error e)
    | .ok (.done created) => some (.ok created)
    | .ok (.again nFeeRet) => createLoop choices nValue fuel (round + 1) nFeeRet

/-- One payment is added to the sum of those before it. -/
def addPayment (nValue : Int) (s : CScript × Int) : Except Stop Int := do
  rejectIf (nValue < 0) 0 "Transaction amounts must be positive"
  addI64 nValue s.2

def paymentSum : Except Stop Int := do
  let nValue ← request.vecSend.foldlM addPayment 0
  rejectIf (request.vecSend.isEmpty || decide (nValue < 0)) 0 "Transaction amounts must be positive"
  return nValue

def firstFee : Int := if request.useIX then max cent w.nTransactionFee else w.nTransactionFee

def createTransaction (choices : Nat → RoundChoices) (fuel : Nat) : Option (Except Stop Created) :=
  match paymentSum request with
  | .error e => some (.error e)
  | .ok nValue => createLoop w solver request choices nValue fuel 0 (firstFee w request)

end Create

/-- The coin is an output of a transaction of the wallet. -/
def CWallet.holds (w : CWallet) (c : CoinRef) : Prop :=
  ∃ pcoin, w.mapWallet.lookup c.hash = some pcoin
    ∧ (pcoin.tx.vout[c.n]?).map CTxOut.nValue = some c.nValue

def SendRequest.payees (request : SendRequest) : List CTxOut := request.vecSend.map fun s => ⟨s.2, s.1⟩

/-- The transaction spends coins of the wallet, each once, to the payments in their order and one output more at
    most, and what is left is the fee, which is high enough for it. -/
structure Created.Balanced (w : CWallet) (request : SendRequest) (created : Created) : Prop where
  coins : created.setCoins.Nodup ∧ ∀ c ∈ created.setCoins, w.holds c
  inputs : created.wtxNew.vin.map CTxIn.prevout = created.setCoins.map CoinRef.outPoint
  balance : sumCoins created.setCoins = (created.wtxNew.vout.map CTxOut.nValue).sum + created.nFeeRet
  payFee : w.nTransactionFee * (1 + created.wtxNew.serializeSize / 1000 : Nat) ≤ created.nFeeRet
  minFee : getMinFee created.wtxNew created.wtxNew.serializeSize created.fAllowFree .send ≤ created.nFeeRet
  instant : request.useIX = true → cent ≤ created.nFeeRet
  outputs : created.wtxNew.vout = request.payees ∨ ∃ before after change,
    request.payees = before ++ after ∧ created.wtxNew.vout = before ++ change :: after
      ∧ 0 < change.nValue ∧ change.isDust minRelayTxFee = .ok false

/-- `vNDesc`: the mark of a plaintext narration. -/
def narrationMark : List UInt8 := [0x6e, 0x70]

/-- `scriptN`: the script of the output that carries a narration. -/
def narrationScript (sNarr : List UInt8) : CScript :=
  CScript.Element.build [.opcode 0x6a, .bytes narrationMark, .opcode 0x6a, .bytes sNarr]

/-- What `CreateTransaction(scriptPubKey, nValue, sNarr, ...)` asks for, with what is in `wtxNew`. -/
def SendRequest.narrated (scriptPubKey : CScript) (nValue : Int) (sNarr : List UInt8) (nVersion : Int)
    (nTime nLockTime : UInt32) (coinControl : Option CCoinControl) : SendRequest where
  vecSend := (scriptPubKey, nValue) :: if sNarr.length > 0 then [(narrationScript sNarr, 0)] else []
  nVersion := nVersion
  nTime := nTime
  nLockTime := nLockTime
  coinControl := coinControl
  coinType := .allCoins
  useIX := false

/-- The part of `FindStealthTransactions` that looks for a plaintext narration in the script of an output. -/
def plaintextNarration (scriptPubKey : CScript) : Option (List UInt8) := do
  let (opCode, _, itTxA) ← CScript.getOp scriptPubKey
  if opCode ≠ CScript.opReturn then none
  else
    let (_, vchEphemPK, itTxA) ← CScript.getOp itTxA
    if vchEphemPK.length = 33 then none
    else if vchEphemPK.take 2 ≠ narrationMark then none
    else
      let (opCode, _, itTxA) ← CScript.getOp itTxA
      if opCode ≠ CScript.opReturn then none
      else
        let (_, vchENarr, _) ← CScript.getOp itTxA
        if vchENarr.length > 0 then some vchENarr else none

/-- The key `n_%d` of `mapNarr`. -/
def narrationKey (nOutputId : Int) : String := "n_" ++ nOutputId.repr

/-- `mapNarr` as `FindStealthTransactions` leaves it: a plaintext narration is that of the output before its own. -/
def findNarrations (vout : List CTxOut) : List (String × List UInt8) :=
  vout.zipIdx.filterMap fun output =>
    (plaintextNarration output.1.scriptPubKey).map fun sNarr => (narrationKey (output.2 - 1), sNarr)

/-- The output with the narration directly follows the one that is paid, and the receiver finds the narration to be of
that output. -/
def NarrationFollows (vout : List CTxOut) (scriptPubKey : CScript) (nValue : Int) (sNarr : List UInt8) : Prop :=
  ∃ i : Nat, vout[i]? = some ⟨nValue, scriptPubKey⟩ ∧ vout[i + 1]? = some ⟨0, narrationScript sNarr⟩ ∧
    (findNarrations vout).lookup (narrationKey i) = some sNarr

/-- `CreateTransaction` makes a transaction for the payment, in which the narration stays with it. -/
def NarrationStays (w : CWallet) (solver : CScript → Option TxnOutType) (request : SendRequest)
    (choices : Nat → RoundChoices) (fuel : Nat) (scriptPubKey : CScript) (nValue : Int) (sNarr : List UInt8) : Prop :=
  ∃ created, createTransaction w solver request choices fuel = some (.ok created) ∧
    NarrationFollows created.wtxNew.vout scriptPubKey nValue sNarr

section Rounds

variable (w : CWallet) (solver : CScript → Option TxnOutType) (request : SendRequest) (choices : Nat → RoundChoices)
  (nValue : Int)

/-- The rounds of the loop that are begun, each with its fee. -/
inductive RoundBegins : Nat → Int → Prop
  | first : RoundBegins 0 (firstFee w request)
  | again {round : Nat} {nFeeRet nFee : Int} : RoundBegins round nFeeRet →
      createRound w solver request (choices round) nValue nFeeRet = .ok (.again nFee) → RoundBegins (round + 1) nFee

def changeOutput (choices : RoundChoices) (nChange : Int) : Option CTxOut :=
  if nChange > 0 then
    match scriptChange request choices with
    | .error _ => none
    | .ok script => if (⟨nChange, script⟩ : CTxOut).isDust minRelayTxFee = .ok false then some ⟨nChange, script⟩ else none
  else none

/-- The change is not put between the payment and the narration, in the round that makes the transaction: there is
none, or another place is drawn, or it pays the same as the payment. -/
def ChangeStaysOut (created : Created) (scriptPubKey : CScript) : Prop :=
  ∃ round nFeeRet coins nValueIn, RoundBegins w solver request choices nValue round nFeeRet ∧
    createRound w solver request (choices round) nValue nFeeRet = .ok (.done created) ∧
    selectCoins w (choices round).selection request.coinControl request.coinType request.useIX (nValue + nFeeRet)
      request.nTime = .ok (some (coins, nValueIn)) ∧
    ∀ change, changeOutput request (choices round) (nValueIn - nValue - nFeeRet) = some change →
      ((choices round).getRandInt 2).val = 1 → change = ⟨nValue, scriptPubKey⟩

end Rounds

end PupaCoin
