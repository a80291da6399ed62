import PupaCoin.Lib.While
import PupaCoin.Net.MixingPool
import PupaCoin.Script.SignatureHash
import PupaCoin.Smsg.Crypt

/-!
# The masternode of a mixing session (`mnengine.cpp`, `mnengine.h`)

The masternode takes the entries of the clients, drops those that are too old, makes the final transaction of the
entries that it has and takes the signatures of their inputs.
-/

namespace PupaCoin

open Smsg (pubKeyOfBytes pubKeyIsValid)

inductive PoolStatus where
  | unknown | idle | queue | acceptingEntries | finalizeTransaction | signing | transmission | error | success
deriving DecidableEq

/-- `CTxDSIn`, with its flag. -/
structure SessionInput extends CTxDSIn where
  fHasSig : Bool
deriving DecidableEq

/-- `CMNengineEntry`, with the time in seconds at which it was added. -/
structure SessionEntry where
  sev : List SessionInput
  vout : List CTxOut
  addedTime : Int
deriving DecidableEq

/-- What `CMNenginePool` has for a session. -/
structure MixingSession where
  state : PoolStatus
  entries : List SessionEntry
  finalTransaction : CTransaction
  /-- In milliseconds. -/
  lastTimeChanged : Int
  sessionUsers : Int
  /-- `vecMNengineQueue`: the times of the queue objects. -/
  queueTimes : List Int
deriving DecidableEq

/-- What does not change during a session. -/
structure MixingParams where
  fMasterNode : Bool
  /-- `GetMaxPoolTransactions`. -/
  maxPoolTransactions : Int

/-- The time of a call: `GetTime` and `GetTimeMillis`. -/
structure Clock where
  time : Int
  timeMillis : Int
deriving DecidableEq

def mnengineQueueTimeout : Int := 30
def mnengineSigningTimeout : Int := 15

/-- `IsExpired`, of an entry or of a queue object. -/
def Clock.expired (now : Clock) (since : Int) : Bool := decide (now.time - since > mnengineQueueTimeout)

namespace MixingSession

def setNull (now : Clock) (pool : MixingSession) : MixingSession :=
  { pool with
    sessionUsers := 0
    state := .idle
    entries := []
    finalTransaction := { pool.finalTransaction with vin := [], vout := [] }
    lastTimeChanged := now.timeMillis }

def updateState (params : MixingParams) (now : Clock) (newState : PoolStatus) (pool : MixingSession) : MixingSession :=
  if params.fMasterNode && (newState = .error || newState = .success) then pool
  else { pool with
    lastTimeChanged := if pool.state ≠ newState then now.timeMillis else pool.lastTimeChanged
    state := newState }

/-- The outpoints of all inputs. -/
def outpoints (pool : MixingSession) : List COutPoint := pool.entries.flatMap fun e => e.sev.map fun s => s.prevout

/-- `!AddEntry`'s first check. -/
def inputsInvalid (newInput : List CTxDSIn) (nAmount : Int) : Bool :=
  newInput.any fun txin => txin.prevout.isNull || decide (nAmount < 0)

/-- An input of the call is one of the session: outpoint, signature script and sequence are compared. -/
def hasInput (pool : MixingSession) (newInput : List CTxDSIn) : Bool :=
  newInput.any fun txin => pool.entries.any fun v => v.sev.any fun s => s.toCTxIn = txin.toCTxIn

/-- Why `AddEntry` refuses an entry. -/
def refusal (params : MixingParams) (pool : MixingSession) (newInput : List CTxDSIn) (nAmount : Int)
    (collateralValid : Bool) : Option String :=
  if inputsInvalid newInput nAmount then some "Input is not valid."
  else if !collateralValid then some "Collateral is not valid."
  else if (pool.entries.length : Int) ≥ params.maxPoolTransactions then some "Entries are full."
  else if pool.hasInput newInput then some "Already have that input."
  else none

/-- `CMNengineEntry::Add`. -/
def newEntry (now : Clock) (newInput : List CTxDSIn) (newOutput : List CTxOut) : SessionEntry where
  sev := newInput.map fun txin => { txin with fHasSig := false }
  vout := newOutput
  addedTime := now.time

/-- `AddEntry`: what it returns, its error and the pool. The message about a new entry reads its first input. -/
def addEntry (params : MixingParams) (now : Clock) (pool : MixingSession) (newInput : List CTxDSIn) (nAmount : Int)
    (collateralValid : Bool) (newOutput : List CTxOut) : Except Stop (Bool × String × MixingSession) :=
  if !params.fMasterNode then .ok (false, "", pool)
  else
    match pool.refusal params newInput nAmount collateralValid with
    | some error => .ok (false, error, { pool with sessionUsers := pool.sessionUsers - 1 })
    | none => do
      let _ ← orUndefined newInput.head? "newInput[0]"
      return (true, "", { pool with entries := pool.entries ++ [newEntry now newInput newOutput] })

/-- One round of a loop that erases what has expired: `it` is the place of the iterator. -/
def eraseRound {σ α : Type} (items : σ → List α) (expired : α → Bool) (erase : Nat → σ → σ) (st : Nat × σ) :
    While.Round (Nat × σ) (Except Stop σ) :=
  let (it, s) := st
  if it = (items s).length then .done (.ok s)
  else
    match (items s)[it]? with
    | none => .done (.error (.undefined "an iterator that is not in the vector"))
    | some a => if expired a then .next (it, erase it s) else .next (it + 1, s)

/-- The loop from the first element on, for as many rounds as there are elements and one. -/
def eraseExpired {σ α : Type} (items : σ → List α) (expired : α → Bool) (erase : Nat → σ → σ) (s : σ) : Except Stop σ :=
  match While.run (eraseRound items expired erase) ((items s).length + 1) (0, s) with
  | none => .error (.undefined "a loop that has not ended")
  | some r => r

/-- `vecMNengineQueue.erase(it)`. -/
def eraseQueue (it : Nat) (pool : MixingSession) : MixingSession :=
  { pool with queueTimes := pool.queueTimes.eraseIdx it }

/-- `entries.erase(it2)`; the pool is reset when it was the last entry. -/
def eraseEntry (now : Clock) (it2 : Nat) (pool : MixingSession) : MixingSession :=
  let pool := { pool with entries := pool.entries.eraseIdx it2 }
  if pool.entries.length = 0 then setNull now pool else pool

/-- `Check`, as it is called for a client. -/
def checkClient (now : Clock) (pool : MixingSession) : MixingSession :=
  if (pool.state = .error || pool.state = .success) && now.timeMillis - pool.lastTimeChanged ≥ 10000 then
    setNull now pool
  else pool

/-- Nothing has changed for as long as a session may take; a client gives the masternode a few seconds more. -/
def timedOut (params : MixingParams) (now : Clock) (timeout : Int) (pool : MixingSession) : Bool :=
  let addLagTime := if params.fMasterNode then 0 else 10000
  decide (now.timeMillis - pool.lastTimeChanged ≥ timeout * 1000 + addLagTime)

def checkHanging (params : MixingParams) (now : Clock) (pool : MixingSession) : MixingSession :=
  if !params.fMasterNode && (pool.state = .transmission || pool.state = .error || pool.state = .success) then
    checkClient now pool
  else pool

def checkEntries (params : MixingParams) (now : Clock) (pool : MixingSession) : Except Stop MixingSession := do
  let pool ← eraseExpired entries (fun e => now.expired e.addedTime) (eraseEntry now) pool
  return if pool.timedOut params now mnengineQueueTimeout then setNull now pool else pool

def fail (params : MixingParams) (now : Clock) (pool : MixingSession) : MixingSession :=
  (setNull now pool).updateState params now .error

/-- A session that waits for users or entries, or for anything else. -/
def checkWaiting (params : MixingParams) (now : Clock) (pool : MixingSession) : Except Stop MixingSession :=
  if pool.state = .acceptingEntries || pool.state = .queue then checkEntries params now pool
  else .ok (if pool.timedOut params now mnengineQueueTimeout then fail params now pool else pool)

/-- A session that waits for signatures. -/
def checkSigning (params : MixingParams) (now : Clock) (pool : MixingSession) : MixingSession :=
  if pool.state = .signing && pool.timedOut params now mnengineSigningTimeout then fail params now pool else pool

def checkTimeout (params : MixingParams) (now : Clock) (pool : MixingSession) : Except Stop MixingSession := do
  let pool ← eraseExpired queueTimes now.expired eraseQueue (checkHanging params now pool)
  let pool ← checkWaiting params now pool
  return checkSigning params now pool

/-- What happens to the pool. -/
inductive Event where
  | addEntry (now : Clock) (newInput : List CTxDSIn) (nAmount : Int) (collateralValid : Bool) (newOutput : List CTxOut)
  | checkTimeout (now : Clock)
  | reset (now : Clock)
  | updateState (now : Clock) (newState : PoolStatus)

def step (params : MixingParams) (pool : MixingSession) : Event → Except Stop MixingSession
  | .addEntry now newInput nAmount collateralValid newOutput =>
    (pool.addEntry params now newInput nAmount collateralValid newOutput).map fun r => r.2.2
  | .checkTimeout now => pool.checkTimeout params now
  | .reset now => .ok (pool.setNull now)
  | .updateState now newState => .ok (pool.updateState params now newState)

def run (params : MixingParams) (pool : MixingSession) (events : List Event) : Except Stop MixingSession :=
  events.foldlM (step params) pool

/-- Users are counted and no outpoint is there twice. -/
structure Sound (pool : MixingSession) : Prop where
  sessionUsers : 0 ≤ pool.sessionUsers
  outpoints : pool.outpoints.Nodup

/-- An event that does no harm: an entry is refused only where a user is counted, and one that is taken has inputs, whose
outpoints are new and not the same. -/
def Event.Harmless (params : MixingParams) (pool : MixingSession) : Event → Prop
  | .addEntry _ newInput nAmount collateralValid _ =>
    params.fMasterNode = true → match pool.refusal params newInput nAmount collateralValid with
      | some _ => 1 ≤ pool.sessionUsers
      | none => newInput ≠ [] ∧ (newInput.map fun txin => txin.prevout).Nodup ∧
          ∀ txin ∈ newInput, txin.prevout ∉ pool.outpoints
  | _ => True

/-- Whatever happens to a pool that has been reset, it stays sound, and nothing is undefined. -/
def StaysSound (params : MixingParams) (pool : MixingSession) (events : List Event) : Prop :=
  ∀ before, before <+: events → ∃ pool', run params pool before = .ok pool' ∧ pool'.Sound

/-- What a signature check takes from outside of the session. -/
structure SigningEnv where
  /-- The hash functions of scripts. -/
  scripts : ScriptEnv
  /-- The hash of `CHashWriter`. -/
  hash : List UInt8 → UInt256
  /-- `CPubKey::Verify`. -/
  verify : CPubKey → UInt256 → List UInt8 → Bool

/-- `CheckSig`, for an input of a transaction. -/
def checkSig (env : SigningEnv) (txTo : CTransaction) (nIn : Nat) (vchSig vchPubKey : List UInt8)
    (scriptCode : CScript) : Bool :=
  let pubkey := pubKeyOfBytes vchPubKey
  if !pubKeyIsValid pubkey then false
  else
    match vchSig.getLast? with
    | none => false
    | some nHashType =>
      env.verify pubkey (signatureHash env.hash scriptCode txTo nIn (UInt32.ofNat nHashType.toNat)) vchSig.dropLast

/-- `VerifyScript`, for an input of a transaction. -/
def verifyInput (env : SigningEnv) (scriptSig scriptPubKey : CScript) (txTo : CTransaction) (nIn : Nat) : Bool :=
  let scripts := { env.scripts with checkSig := checkSig env txTo nIn }
  verdict scripts (txRules scripts (scriptVerifyP2SH ||| scriptVerifyStrictEnc)) scriptSig scriptPubKey

def inputs (pool : MixingSession) : List SessionInput := pool.entries.flatMap SessionEntry.sev

/-- The last input of the entries that is `newVin`, with its place. -/
def findInput (pool : MixingSession) (newVin : CTxDSIn) : Option (Nat × CScript) :=
  pool.inputs.zipIdx.foldl
    (fun found (s, i) => if s.toCTxIn = newVin.toCTxIn then some (i, s.prevPubKey) else found) none

/-- `SignatureValid`: the transaction has the inputs in the order of the entries. -/
def signatureValid (env : SigningEnv) (nTime : UInt32) (pool : MixingSession) (newSig : CScript) (newVin : CTxDSIn) :
    Bool :=
  match pool.findInput newVin with
  | none => true
  | some (n, sigPubKey) =>
    let txNew : CTransaction :=
      { nVersion := 1, nTime, nLockTime := 0, vout := pool.entries.flatMap SessionEntry.vout
        vin := (pool.inputs.map fun s => s.toCTxIn).modify n fun txin => { txin with scriptSig := newSig } }
    verifyInput env newSig sigPubKey txNew n

/-- Two inputs with one outpoint and one sequence number. -/
def sameInput (txin txin' : CTxIn) : Bool := txin.prevout = txin'.prevout && txin.nSequence = txin'.nSequence

/-- The loop of `AddSig`, over the inputs. -/
def addSigLoop (vin : CTxDSIn) : List SessionInput → Option (List SessionInput)
  | [] => none
  | s :: sev =>
    if sameInput s.toCTxIn vin.toCTxIn then
      if s.fHasSig then none
      else some ({ s with scriptSig := vin.scriptSig, prevPubKey := vin.prevPubKey, fHasSig := true } :: sev)
    else (addSigLoop vin sev).map (s :: ·)

/-- `AddSig`; `none` where it returns false. -/
def addSig (vin : CTxDSIn) (e : SessionEntry) : Option SessionEntry :=
  (addSigLoop vin e.sev).map fun sev => { e with sev }

def addSigs (vin : CTxDSIn) : List SessionEntry → Option (List SessionEntry)
  | [] => none
  | e :: entries =>
    match addSig vin e with
    | some e => some (e :: entries)
    | none => (addSigs vin entries).map (e :: ·)

/-- The signature is put into the final transaction. -/
def putSignature (newVin : CTxDSIn) (tx : CTransaction) : CTransaction :=
  { tx with vin := tx.vin.map fun vin =>
      if sameInput vin newVin.toCTxIn then { vin with scriptSig := newVin.scriptSig } else vin }

def hasScriptSig (pool : MixingSession) (scriptSig : CScript) : Bool := pool.inputs.any fun s => s.scriptSig = scriptSig

def addScriptSig (env : SigningEnv) (nTime : UInt32) (pool : MixingSession) (newVin : CTxDSIn) : Bool × MixingSession :=
  if pool.hasScriptSig newVin.scriptSig then (false, pool)
  else if !signatureValid env nTime pool newVin.scriptSig newVin then (false, pool)
  else
    let pool := { pool with finalTransaction := putSignature newVin pool.finalTransaction }
    match addSigs newVin pool.entries with
    | some entries => (true, { pool with entries })
    | none => (false, pool)

def signaturesComplete (pool : MixingSession) : Bool := pool.inputs.all fun s => s.fHasSig

/-- A way in which `random_shuffle` orders. -/
structure Order (α : Type) where
  shuffle : List α → List α
  perm : ∀ l, (shuffle l).Perm l

/-- The part of `Check` that makes the final transaction. -/
def finalize (vinOrder : Order CTxIn) (voutOrder : Order CTxOut) (nTime : UInt32) (pool : MixingSession) :
    MixingSession :=
  { pool with finalTransaction :=
    { nVersion := 1, nTime, nLockTime := 0, vin := vinOrder.shuffle (pool.inputs.map fun s => s.toCTxIn)
      vout := voutOrder.shuffle (pool.entries.flatMap SessionEntry.vout) } }

/-- The pool after signatures have been submitted. -/
def sign (env : SigningEnv) (nTime : UInt32) (pool : MixingSession) (submitted : List CTxDSIn) : MixingSession :=
  submitted.foldl (fun pool newVin => (addScriptSig env nTime pool newVin).2) pool

/-! ### What the masternode should accept -/

section Accept

variable (env : SigningEnv) (spent : COutPoint → CScript) (pool : MixingSession) (newVin : CTxDSIn)

/-- An input of the session that has no signature. -/
def IsUnsigned : Prop := ∃ s ∈ pool.inputs, sameInput s.toCTxIn newVin.toCTxIn = true ∧ s.fHasSig = false

def IsInput : Prop := ∃ s ∈ pool.inputs, sameInput s.toCTxIn newVin.toCTxIn = true

/-- The first such input of some entry has no signature. -/
def IsOpen : Prop := ∃ e ∈ pool.entries, ∃ s, e.sev.find? (fun s => sameInput s.toCTxIn newVin.toCTxIn) = some s ∧
  s.fHasSig = false

/-- The signature script is valid in the final transaction, for the output that is spent. -/
def IsValidSignature : Prop := ∀ n txin, pool.finalTransaction.vin[n]? = some txin →
  sameInput txin newVin.toCTxIn = true →
    verifyInput env newVin.scriptSig (spent newVin.prevout) pool.finalTransaction n = true

/-- `AddScriptSig` accepts the valid signatures of the unsigned inputs. -/
def AcceptsRightly (nTime : UInt32) : Prop :=
  (addScriptSig env nTime pool newVin).1 = true ↔ pool.IsUnsigned newVin ∧ pool.IsValidSignature env spent newVin

/-- When the signatures are complete, those of the final transaction are valid. -/
def CompleteIsValid : Prop := pool.signaturesComplete = true → ∀ n txin, pool.finalTransaction.vin[n]? = some txin →
  verifyInput env txin.scriptSig (spent txin.prevout) pool.finalTransaction n = true

/-- Of an unsigned input: the signature is valid exactly if it is not one that the session has and the input is the first
of its kind in an entry. -/
def SubmitsRightly : Prop := pool.IsUnsigned newVin →
  (pool.IsValidSignature env spent newVin ↔ pool.hasScriptSig newVin.scriptSig = false ∧ pool.IsOpen newVin)

/-- No other signature is submitted for an input that is signed. -/
def KeepsSigned : Prop := pool.IsInput newVin → pool.hasScriptSig newVin.scriptSig = false → pool.IsUnsigned newVin

end Accept

/-- In which calls the right signatures are accepted, and in which sessions the complete ones are valid. -/
structure SignsRightly (env : SigningEnv) (spent : COutPoint → CScript) : Prop where
  accepts : ∀ (nTime : UInt32) (pool : MixingSession) (newVin : CTxDSIn),
    AcceptsRightly env spent pool newVin nTime ↔ SubmitsRightly env spent pool newVin
  complete : ∀ (nTime : UInt32) (vinOrder : Order CTxIn) (voutOrder : Order CTxOut) (pool : MixingSession)
    (submitted : List CTxDSIn), (∀ s ∈ pool.inputs, s.fHasSig = false) →
    (∀ before newVin, before ++ [newVin] <+: submitted →
      SubmitsRightly env spent (sign env nTime (finalize vinOrder voutOrder nTime pool) before) newVin ∧
      KeepsSigned (sign env nTime (finalize vinOrder voutOrder nTime pool) before) newVin) →
    ∀ before, before <+: submitted →
      CompleteIsValid env spent (sign env nTime (finalize vinOrder voutOrder nTime pool) before)

end MixingSession

end PupaCoin
