import PupaCoin.Chain.Serialize
import Mathlib.Data.List.AList

/-!
# Alerts (`alert.cpp`, `alert.h`)

Signed messages of the developers. An alert cancels others by their ids, and the one with the largest id is reserved
for the case that the key for signing alerts is compromised.
-/

namespace PupaCoin

open LittleEndian

/-- `std::numeric_limits<int>::max()`. -/
def maxInt : Int := 2147483647

/-- `Unserialize` of a `std::set`, as the list of its elements in the order of the stream. -/
def readSet {α : Type} (read : ReadM α) : ReadM (List α) := do
  let nSize ← readCompactSize
  Codec.readMany read nSize

structure CUnsignedAlert where
  nVersion : Int
  nRelayUntil : Int
  nExpiration : Int
  nID : Int
  nCancel : Int
  setCancel : List Int
  nMinVer : Int
  nMaxVer : Int
  setSubVer : List (List UInt8)
  nPriority : Int
  strComment : List UInt8
  strStatusBar : List UInt8
  strReserved : List UInt8
deriving DecidableEq

namespace CUnsignedAlert

def serialize (alert : CUnsignedAlert) : List UInt8 :=
  ofInt 4 alert.nVersion ++ ofInt 8 alert.nRelayUntil ++ ofInt 8 alert.nExpiration ++ ofInt 4 alert.nID
    ++ ofInt 4 alert.nCancel ++ writeVector (ofInt 4) alert.setCancel ++ ofInt 4 alert.nMinVer
    ++ ofInt 4 alert.nMaxVer ++ writeVector writeString alert.setSubVer ++ ofInt 4 alert.nPriority
    ++ writeString alert.strComment ++ writeString alert.strStatusBar ++ writeString alert.strReserved

def unserialize : ReadM CUnsignedAlert := do
  let nVersion ← readSigned 4
  let nRelayUntil ← readSigned 8
  let nExpiration ← readSigned 8
  let nID ← readSigned 4
  let nCancel ← readSigned 4
  let setCancel ← readSet (readSigned 4)
  let nMinVer ← readSigned 4
  let nMaxVer ← readSigned 4
  let setSubVer ← readSet readString
  let nPriority ← readSigned 4
  let strComment ← readString
  let strStatusBar ← readString
  let strReserved ← readString
  return { nVersion, nRelayUntil, nExpiration, nID, nCancel, setCancel, nMinVer, nMaxVer, setSubVer, nPriority,
           strComment, strStatusBar, strReserved }

end CUnsignedAlert

structure CAlert extends CUnsignedAlert where
  vchMsg : List UInt8
  vchSig : List UInt8
deriving DecidableEq

/-- `CPubKey(Params().AlertKey()).Verify` and the hash of a message. -/
structure AlertEnv where
  verify : List UInt8 → List UInt8 → Bool
  hash : List UInt8 → UInt256

abbrev MapAlerts := AList fun _ : UInt256 => CAlert

/-- A call of `ProcessAlert`: the adjusted time and the message with its signature, the fields that an alert is sent
    with. -/
structure AlertCall where
  now : Int
  vchMsg : List UInt8
  vchSig : List UInt8
deriving DecidableEq

/-- `URGENT: Alert key compromised, upgrade required`. -/
def compromisedText : List UInt8 :=
  "URGENT: Alert key compromised, upgrade required".toList.map fun c => UInt8.ofNat c.toNat

namespace CAlert

def getHash (env : AlertEnv) (alert : CAlert) : UInt256 := env.hash alert.vchMsg

def isInEffect (now : Int) (alert : CAlert) : Bool := now < alert.nExpiration

def cancelsId (alert : CAlert) (nID : Int) : Bool := nID ≤ alert.nCancel || nID ∈ alert.setCancel

/-- `self.Cancels(alert)`. -/
def cancels (now : Int) (self alert : CAlert) : Bool := self.isInEffect now && self.cancelsId alert.nID

/-- What is asked of an alert with the largest id. -/
def isPredefined (alert : CAlert) : Bool :=
  alert.nExpiration == maxInt && alert.nCancel == maxInt - 1 && alert.nMinVer == 0 && alert.nMaxVer == maxInt
    && alert.setSubVer.isEmpty && alert.nPriority == maxInt && alert.strStatusBar == compromisedText

/-- `CheckSignature`: the alert that the message holds, unless the signature is wrong. -/
def checkSignature (env : AlertEnv) (call : AlertCall) : Except String (Option CAlert) := do
  if !env.verify call.vchMsg call.vchSig then return none
  let alert ← (CUnsignedAlert.unserialize call.vchMsg).1
  return some { alert with vchMsg := call.vchMsg, vchSig := call.vchSig }

/-- The first loop of `ProcessAlert`: what the new alert cancels goes, and what has expired. -/
def cancelPrevious (now : Int) (alert : CAlert) (mapAlerts : MapAlerts) : MapAlerts :=
  mapAlerts.entries.foldl (fun rest item =>
    if alert.cancels now item.2 || !item.2.isInEffect now then rest.erase item.1 else rest) mapAlerts

/-- `mapAlerts.insert`: an entry that is there stays. -/
def insertAlert (env : AlertEnv) (alert : CAlert) (mapAlerts : MapAlerts) : MapAlerts :=
  if alert.getHash env ∈ mapAlerts then mapAlerts else mapAlerts.insert (alert.getHash env) alert

/-- `ProcessAlert`, apart from the notifications of the user. -/
def processAlert (env : AlertEnv) (call : AlertCall) : Exec MapAlerts String Bool := do
  match ← Exec.lift (checkSignature env call) with
  | none => return false
  | some alert =>
    if !alert.isInEffect call.now then return false
    else if alert.nID == maxInt && !alert.isPredefined then return false
    else
      Exec.update (cancelPrevious call.now alert)
      let mapAlerts ← Exec.read
      if mapAlerts.entries.any fun item => item.2.cancels call.now alert then return false
      else
        Exec.update (insertAlert env alert)
        return true

end CAlert

/-- The call gets to the stored alerts with `alert`. -/
structure AlertCall.Admits (env : AlertEnv) (call : AlertCall) (alert : CAlert) : Prop where
  signed : CAlert.checkSignature env call = .ok (some alert)
  inEffect : alert.isInEffect call.now = true
  predefined : alert.nID = maxInt → alert.isPredefined = true

/-- The mapped alerts after the calls of a list, each made where `P` holds; the list says which were accepted. -/
inductive AlertRun (env : AlertEnv) (P : MapAlerts → AlertCall → Prop) : List (AlertCall × Bool) → MapAlerts → Prop
  | start : AlertRun env P [] ∅
  | process {calls : List (AlertCall × Bool)} {mapAlerts mapAlerts' : MapAlerts} {r : Except String Bool}
      (call : AlertCall) : AlertRun env P calls mapAlerts → P mapAlerts call →
      CAlert.processAlert env call mapAlerts = (r, mapAlerts') →
      AlertRun env P (calls ++ [(call, decide (r.toOption = some true))]) mapAlerts'

def NoneCancelled (mapAlerts : MapAlerts) : Prop := ∀ h alert h' other, mapAlerts.lookup h = some alert →
  mapAlerts.lookup h' = some other → h ≠ h' → other.cancelsId alert.nID = false

def HoldsAlert (env : AlertEnv) (mapAlerts : MapAlerts) (alert : CAlert) : Prop :=
  ∃ stored, mapAlerts.lookup (alert.getHash env) = some stored
    ∧ stored.toCUnsignedAlert = alert.toCUnsignedAlert

/-- Every alert with the largest id that was accepted is stored, no stored alert has a smaller id, and none was
    accepted afterwards. -/
def FinalKept (env : AlertEnv) (calls : List (AlertCall × Bool)) (mapAlerts : MapAlerts) : Prop :=
  ∀ pre call post alert, calls = pre ++ (call, true) :: post →
    CAlert.checkSignature env call = .ok (some alert) → alert.nID = maxInt →
    HoldsAlert env mapAlerts alert ∧ (∀ h stored, mapAlerts.lookup h = some stored → maxInt ≤ stored.nID) ∧
      ∀ later other, (later, true) ∈ post → CAlert.checkSignature env later = .ok (some other) → maxInt ≤ other.nID

/-- The call is made before the largest time, and cancels no alert with the largest id but itself. -/
structure SparesFinal (env : AlertEnv) (mapAlerts : MapAlerts) (call : AlertCall) : Prop where
  before : call.now < maxInt
  spares : ∀ alert, call.Admits env alert → ∀ h stored, mapAlerts.lookup h = some stored → stored.nID = maxInt →
    h ≠ alert.getHash env → alert.cancelsId maxInt = false

def alertMessages (calls : List (AlertCall × Bool)) : Set (List UInt8) := {msg | ∃ c ∈ calls, c.1.vchMsg = msg}

end PupaCoin
