import PupaCoin.Net.InstantX

/-!
# The masternode list (`masternode.h`, `masternodeman.cpp`)

A masternode announces itself with a `dsee` message, stays on the list with `dseep` pings, and votes with
`mvote`. A handler checks the signature of the message, and where it does not verify writes to the log.
-/

namespace PupaCoin

def minPoolPeerProtoVersion : Int := 62032
def protocolVersion : Int := 62039
def masternodeMinConfirmations : Int := 7
def masternodeMinDseepSeconds : Int := 30 * 60
def masternodeMinDseeSeconds : Int := 5 * 60
def masternodeExpirationSeconds : Int := 65 * 60
def masternodeRemovalSeconds : Int := 70 * 60

/-- `CService`: an address and a port. -/
structure CService where
  ip : BitVec 128
  port : UInt16
deriving DecidableEq, Repr

/-- `CMasternode::state`. -/
inductive MasternodeState where
  | enabled
  | expired
  | vinSpent
  | remove
  | posError
deriving DecidableEq, Repr

/-- `CMasternode`, with what the messages read and write of it. -/
structure MasternodeEntry where
  vin : CTxIn
  addr : CService
  /-- The key of the collateral. -/
  pubkey : List UInt8
  /-- The key of the operator. -/
  pubkey2 : List UInt8
  sig : List UInt8
  activeState : MasternodeState
  sigTime : Int
  lastDseep : Int
  lastTimeSeen : Int
  unitTest : Bool
  protocolVersion : Int
  donationAddress : CScript
  donationPercentage : Int
  nVote : Int
  lastVote : Int
  isPortOpen : Bool
deriving DecidableEq, Repr

/-- `dsee`, the announcement of a masternode. -/
structure Dsee where
  vin : CTxIn
  addr : CService
  vchSig : List UInt8
  sigTime : Int
  pubkey : List UInt8
  pubkey2 : List UInt8
  count : Int
  current : Int
  lastUpdated : Int
  protocolVersion : Int
  donationAddress : CScript
  donationPercentage : Int
deriving DecidableEq, Repr

/-- `dseep`, its ping. -/
structure Dseep where
  vin : CTxIn
  vchSig : List UInt8
  sigTime : Int
  stop : Bool
deriving DecidableEq, Repr

/-- `mvote`, its vote. -/
structure Mvote where
  vin : CTxIn
  vchSig : List UInt8
  nVote : Int
deriving DecidableEq, Repr

/-- A message about a masternode. -/
inductive MasternodeMessage where
  | dsee (msg : Dsee)
  | dseep (msg : Dseep)
  | mvote (msg : Mvote)

/-- What a handler does besides its writes. -/
inductive MasternodeEffect where
  /-- `Misbehaving(pfrom->GetId(), howmuch)`. -/
  | misbehaving (howmuch : Nat)
  /-- `addrman.Add`. -/
  | addPeer (addr : CService)
  | relayEntry (msg : Dsee)
  | relayEntryPing (msg : Dseep)
  | relayVote (msg : Mvote)
  /-- The sender is asked for the entry. -/
  | pushDseg (vin : CTxIn)
deriving DecidableEq, Repr

/-- What the handlers are parametric in. -/
structure MasternodeEnv where
  /-- `CPubKey::GetID`. -/
  getID : List UInt8 → BitVec 160
  /-- `ToString` of an address, of an input and of a script. -/
  addrToString : CService → List UInt8
  vinToString : CTxIn → List UInt8
  scriptToString : CScript → List UInt8
  /-- `addr.IsRFC1918() || addr.IsLocal()`. -/
  isLocal : CService → Bool
  /-- `mnEngineSigner.VerifyMessage` of a key, a signature and a message. -/
  verifyMessage : List UInt8 → List UInt8 → List UInt8 → Bool

/-- What the handlers read of the node while they process a message. -/
structure MasternodeExt where
  /-- `mnEnginePool.IsBlockchainSynced()`. -/
  fBlockchainSynced : Bool
  getTime : Int
  getAdjustedTime : Int
  fMasterNode : Bool
  fShutdownRequested : Bool
  /-- `TRY_LOCK(cs_main)` succeeds. -/
  fLockMain : Bool
  /-- `CheckNode`: a connection to the address can be opened. -/
  checkNode : CService → Bool
  /-- `AcceptableInputs` of a transaction with this input and a collateral as its output. -/
  acceptableInputs : CTxIn → Bool
  /-- `mnEngineSigner.IsVinAssociatedWithPubkey`. -/
  isVinAssociatedWithPubkey : CTxIn → List UInt8 → Bool
  getInputAge : CTxIn → Int
  /-- The height of the block with the transaction of the input, when it is in `mapBlockIndex`. -/
  collateralHeight : CTxIn → Option Int
  /-- `FindBlockByHeight(nHeight)->GetBlockTime()`. -/
  blockTime : Int → Int

/-- `CActiveMasternode`: the masternode that the node itself is. -/
structure CActiveMasternode where
  pubKeyMasternode : List UInt8
  vin : CTxIn
  service : CService
deriving DecidableEq, Repr

/-- `CMasternodeMan`, and the globals that its messages write. -/
structure CMasternodeMan where
  vMasternodes : List MasternodeEntry
  mWeAskedForMasternodeListEntry : COutPoint → Option Int
  activeMasternode : CActiveMasternode

namespace MasternodeEntry

variable (ext : MasternodeExt) (mn : MasternodeEntry)

/-- `UpdateLastSeen`: now, or at the given time. -/
def updateLastSeen (override : Int) : MasternodeEntry :=
  { mn with lastTimeSeen := if override = 0 then ext.getAdjustedTime else override }

/-- `UpdatedWithin`: the entry has been seen in the last seconds. -/
def updatedWithin (seconds : Int) : Bool := decide (ext.getAdjustedTime - mn.lastTimeSeen < seconds)

/-- `Disable`: it has not been seen since long. -/
def disable : MasternodeEntry := { mn with lastTimeSeen := 0 }

/-- `IsEnabled`: its port is open, and no check has found it expired or spent. -/
def isEnabled : Bool := mn.isPortOpen && mn.activeState == .enabled

/-- The state that `Check` leaves. -/
def checkedState : MasternodeState :=
  if ext.fShutdownRequested || !ext.fLockMain then mn.activeState
  else if mn.activeState = .vinSpent then .vinSpent
  else if !mn.updatedWithin ext masternodeRemovalSeconds then .remove
  else if !mn.updatedWithin ext masternodeExpirationSeconds then .expired
  else if !mn.unitTest && !ext.acceptableInputs mn.vin then .vinSpent
  else .enabled

/-- `Check`: the state is computed again. -/
def check : MasternodeEntry := { mn with activeState := mn.checkedState ext }

end MasternodeEntry

/-- The script that pays to a key (`SetDestination`). -/
def CScript.setDestination (keyID : BitVec 160) : CScript :=
  [0x76, 0xa9, 20] ++ (List.range 20).map (fun i => UInt8.ofBitVec (keyID.extractLsb' (8 * i) 8)) ++ [0x88, 0xac]

/-- `boost::lexical_cast<std::string>`. -/
def lexicalCast (n : Int) : List UInt8 := (toString n).toUTF8.toList

namespace CMasternodeMan

/-- `Find`: the first entry with the outpoint. -/
def find (s : CMasternodeMan) (vin : CTxIn) : Option (Fin s.vMasternodes.length) :=
  s.vMasternodes.findFinIdx? fun mn => mn.vin.prevout == vin.prevout

/-- An assignment through the pointer that `Find` has returned. -/
def set (s : CMasternodeMan) (pmn : Fin s.vMasternodes.length) (mn : MasternodeEntry) : CMasternodeMan :=
  { s with vMasternodes := s.vMasternodes.set pmn mn }

/-- `Add`: the masternode is enabled, and its input is not in the list yet. -/
def add (s : CMasternodeMan) (mn : MasternodeEntry) : CMasternodeMan :=
  if !mn.isEnabled then s
  else if (s.find mn.vin).isNone then { s with vMasternodes := s.vMasternodes ++ [mn] }
  else s

/-- `EnableHotColdMasterNode`: we are the masternode that the announcement is about. -/
def enableHotColdMasterNode (s : CMasternodeMan) (ext : MasternodeExt) (newVin : CTxIn)
    (newService : CService) : CMasternodeMan :=
  if !ext.fMasterNode then s
  else { s with activeMasternode := { s.activeMasternode with vin := newVin, service := newService } }

end CMasternodeMan

namespace Dsee

variable (env : MasternodeEnv) (ext : MasternodeExt) (msg : Dsee)

def strMessage : List UInt8 :=
  env.addrToString msg.addr ++ lexicalCast msg.sigTime ++ msg.pubkey ++ msg.pubkey2 ++
    lexicalCast msg.protocolVersion ++ env.scriptToString msg.donationAddress ++
    lexicalCast msg.donationPercentage

/-- The checks in front of the one of the signature: what follows when one fails. -/
def precheck : Option (List MasternodeEffect) :=
  if msg.sigTime > ext.getAdjustedTime + 60 * 60 then some []
  else if msg.donationPercentage < 0 ∨ msg.donationPercentage > 100 then some []
  else if msg.protocolVersion < minPoolPeerProtoVersion then some []
  else if (CScript.setDestination (env.getID msg.pubkey)).length ≠ 25 then some [.misbehaving 100]
  else if (CScript.setDestination (env.getID msg.pubkey2)).length ≠ 25 then some [.misbehaving 100]
  else if msg.vin.scriptSig ≠ [] then some []
  else none

/-- We are a masternode that does not know its input yet, and the message is about us. -/
def isOwn (s : CMasternodeMan) : Bool :=
  ext.fMasterNode && decide (s.activeMasternode.vin = ⟨.null, [], 0xffffffff⟩)
    && decide (msg.pubkey2 = s.activeMasternode.pubKeyMasternode)

/-- The announcement has the key of the entry and comes from the masternode itself, and the entry is not fresh. -/
def isUpdate (mn : MasternodeEntry) : Bool :=
  decide (msg.count = -1) && decide (mn.pubkey = msg.pubkey)
    && !mn.updatedWithin ext masternodeMinDseeSeconds

/-- The entry after an accepted announcement. -/
def updated (mn : MasternodeEntry) : MasternodeEntry :=
  { mn.updateLastSeen ext 0 with
    isPortOpen := ext.checkNode msg.addr
    pubkey2 := msg.pubkey2
    sigTime := msg.sigTime
    sig := msg.vchSig
    protocolVersion := msg.protocolVersion
    addr := msg.addr
    donationAddress := msg.donationAddress
    donationPercentage := msg.donationPercentage }

/-- The branch for an entry that is on the list. -/
def update (s : CMasternodeMan) (pmn : Fin s.vMasternodes.length) : CMasternodeMan × List MasternodeEffect :=
  let mn := s.vMasternodes.get pmn
  if msg.isUpdate ext mn then
    if mn.sigTime < msg.sigTime then
      let mn := (msg.updated ext mn).check ext
      (s.set pmn mn, (if ext.checkNode msg.addr then [.addPeer msg.addr] else []) ++
        if mn.isEnabled then [.relayEntry msg] else [])
    else (s.set pmn (mn.updateLastSeen ext 0), [])
  else (s, [])

/-- The signature is older than the confirmation of the collateral. -/
def isTooOld : Bool :=
  match ext.collateralHeight msg.vin with
  | none => false
  | some nHeight => decide (ext.blockTime (nHeight + masternodeMinConfirmations - 1) > msg.sigTime)

/-- The checks of a new entry: what follows when one fails. -/
def entryCheck : Option (List MasternodeEffect) :=
  if !ext.isVinAssociatedWithPubkey msg.vin msg.pubkey then some [.misbehaving 100]
  else if !ext.fLockMain then some []
  else if !ext.acceptableInputs msg.vin then some []
  else if ext.getInputAge msg.vin < masternodeMinConfirmations then some [.misbehaving 20]
  else if msg.isTooOld ext then some []
  else none

/-- The message without a donation to a script hash. -/
def withoutScriptDonation : Dsee :=
  if msg.donationAddress.isPayToScriptHash then { msg with donationAddress := [], donationPercentage := 0 }
  else msg

/-- The entry that an announcement adds. -/
def entry : MasternodeEntry where
  vin := msg.vin
  addr := msg.addr
  pubkey := msg.pubkey
  pubkey2 := msg.pubkey2
  sig := msg.vchSig
  activeState := .enabled
  sigTime := msg.sigTime
  lastDseep := 0
  lastTimeSeen := 0
  unitTest := false
  protocolVersion := msg.protocolVersion
  donationAddress := msg.donationAddress
  donationPercentage := msg.donationPercentage
  nVote := 0
  lastVote := 0
  isPortOpen := true

/-- The end of `dsee`, for an input that is not in the list. -/
def announce (s : CMasternodeMan) : CMasternodeMan × List MasternodeEffect :=
  match msg.entryCheck ext with
  | some effects => (s, effects)
  | none =>
    let msg := msg.withoutScriptDonation
    let s := s.add (msg.entry.updateLastSeen ext msg.lastUpdated)
    let s := if msg.pubkey2 = s.activeMasternode.pubKeyMasternode ∧ msg.protocolVersion = PupaCoin.protocolVersion
      then s.enableHotColdMasterNode ext msg.vin msg.addr else s
    (s, .addPeer msg.addr :: if msg.count = -1 && !env.isLocal msg.addr then [.relayEntry msg] else [])

/-- `ProcessMessage` of a `dsee`. Behind `precheck` the signature is verified; whether it does makes no
    difference. -/
def process (s : CMasternodeMan) : CMasternodeMan × List MasternodeEffect :=
  match msg.precheck env ext with
  | some effects => (s, effects)
  | none =>
    match s.find msg.vin with
    | some pmn => if msg.isOwn ext s then msg.announce env ext s else msg.update ext s pmn
    | none => msg.announce env ext s

end Dsee

namespace Dseep

variable (env : MasternodeEnv) (ext : MasternodeExt) (msg : Dseep)

def strMessage (addr : CService) : List UInt8 :=
  env.addrToString addr ++ lexicalCast msg.sigTime ++ lexicalCast (if msg.stop then 1 else 0)

/-- The ping is more than an hour ahead or behind. -/
def isOffTime : Bool :=
  decide (msg.sigTime > ext.getAdjustedTime + 60 * 60) || decide (msg.sigTime ≤ ext.getAdjustedTime - 60 * 60)

/-- The entry that the ping leaves; whether the signature verifies makes no difference. -/
def pinged (mn : MasternodeEntry) : MasternodeEntry :=
  let mn := { mn with lastDseep := msg.sigTime }
  if mn.updatedWithin ext masternodeMinDseepSeconds then mn
  else if msg.stop then mn.disable
  else (mn.updateLastSeen ext 0).check ext

/-- The branch for an entry that is on the list. -/
def ping (s : CMasternodeMan) (pmn : Fin s.vMasternodes.length) : CMasternodeMan × List MasternodeEffect :=
  let mn := s.vMasternodes.get pmn
  if mn.lastDseep < msg.sigTime then
    (s.set pmn (msg.pinged ext mn), if mn.updatedWithin ext masternodeMinDseepSeconds then []
      else if msg.stop || (msg.pinged ext mn).isEnabled then [.relayEntryPing msg] else [])
  else (s, [])

/-- The sender is asked for an entry that is missing, unless it has been asked for lately. -/
def askForEntry (s : CMasternodeMan) : CMasternodeMan × List MasternodeEffect :=
  let asked := s.mWeAskedForMasternodeListEntry
  if (asked msg.vin.prevout).any fun t => decide (ext.getTime < t) then (s, [])
  else
    let askAgain := ext.getTime + masternodeMinDseepSeconds
    ({ s with
      mWeAskedForMasternodeListEntry := Function.update asked msg.vin.prevout (some askAgain) },
      [.pushDseg msg.vin])

/-- `ProcessMessage` of a `dseep`. -/
def process (s : CMasternodeMan) : CMasternodeMan × List MasternodeEffect :=
  if msg.isOffTime ext then (s, [])
  else
    match s.find msg.vin with
    | some pmn =>
      if minPoolPeerProtoVersion ≤ (s.vMasternodes.get pmn).protocolVersion then msg.ping ext s pmn
      else msg.askForEntry ext s
    | none => msg.askForEntry ext s

end Dseep

namespace Mvote

variable (env : MasternodeEnv) (ext : MasternodeExt) (msg : Mvote)

def strMessage : List UInt8 := env.vinToString msg.vin ++ lexicalCast msg.nVote

/-- The masternode has not voted within the last hour. -/
def isDue (mn : MasternodeEntry) : Bool := decide (ext.getAdjustedTime - mn.lastVote > 60 * 60)

/-- `ProcessMessage` of an `mvote`; whether the signature verifies makes no difference. -/
def process (s : CMasternodeMan) : CMasternodeMan × List MasternodeEffect :=
  match s.find msg.vin with
  | some pmn =>
    let mn := s.vMasternodes.get pmn
    if isDue ext mn then
      (s.set pmn { mn with nVote := msg.nVote, lastVote := ext.getAdjustedTime }, [.relayVote msg])
    else (s, [])
  | none => (s, [])

end Mvote

/-- `CMasternodeMan::ProcessMessage`, for the messages that write to the list. -/
def MasternodeMessage.process (env : MasternodeEnv) (ext : MasternodeExt) (msg : MasternodeMessage)
    (s : CMasternodeMan) : CMasternodeMan × List MasternodeEffect :=
  if !ext.fBlockchainSynced then (s, [])
  else
    match msg with
    | .dsee msg => msg.process env ext s
    | .dseep msg => msg.process ext s
    | .mvote msg => msg.process ext s

/-- What the list says about a masternode. -/
structure MasternodeRecord where
  prevout : COutPoint
  pubkey : List UInt8
  pubkey2 : List UInt8
  addr : CService
  lastTimeSeen : Int
  activeState : MasternodeState
  isPortOpen : Bool
  nVote : Int
deriving DecidableEq, Repr

/-- The record of an entry, without what is only in memory. -/
def MasternodeEntry.record (mn : MasternodeEntry) : MasternodeRecord where
  prevout := mn.vin.prevout
  pubkey := mn.pubkey
  pubkey2 := mn.pubkey2
  addr := mn.addr
  lastTimeSeen := mn.lastTimeSeen
  activeState := mn.activeState
  isPortOpen := mn.isPortOpen
  nVote := mn.nVote

namespace MasternodeMessage

variable (env : MasternodeEnv) (ext : MasternodeExt)

/-- The signature of the message verifies under the key that its handler tries. -/
def Signed (s : CMasternodeMan) : MasternodeMessage → Prop
  | .dsee msg => env.verifyMessage msg.pubkey msg.vchSig (msg.strMessage env)
  | .dseep msg => ∃ pmn, s.find msg.vin = some pmn ∧ env.verifyMessage (s.vMasternodes.get pmn).pubkey2
      msg.vchSig (msg.strMessage env (s.vMasternodes.get pmn).addr)
  | .mvote msg => ∃ pmn, s.find msg.vin = some pmn ∧ env.verifyMessage (s.vMasternodes.get pmn).pubkey2
      msg.vchSig (msg.strMessage env)

/-- The message passes the other tests of its handler, and there is something to write. -/
def Takes (s : CMasternodeMan) : MasternodeMessage → Prop
  | .dsee msg => msg.precheck env ext = none ∧ ((∃ pmn, s.find msg.vin = some pmn ∧ msg.isOwn ext s = false
          ∧ msg.isUpdate ext (s.vMasternodes.get pmn)) ∨
        (s.find msg.vin = none ∧ msg.entryCheck ext = none))
  | .dseep msg => msg.isOffTime ext = false ∧ ∃ pmn, s.find msg.vin = some pmn ∧
      minPoolPeerProtoVersion ≤ (s.vMasternodes.get pmn).protocolVersion ∧
      (s.vMasternodes.get pmn).lastDseep < msg.sigTime ∧
      (s.vMasternodes.get pmn).updatedWithin ext masternodeMinDseepSeconds = false ∧
      (msg.stop → (s.vMasternodes.get pmn).lastTimeSeen ≠ 0)
  | .mvote msg => ∃ pmn, s.find msg.vin = some pmn ∧ Mvote.isDue ext (s.vMasternodes.get pmn) ∧
      (s.vMasternodes.get pmn).nVote ≠ msg.nVote

/-- The message is signed with the key of an entry, or of a new one: the key of its collateral for a `dsee`, the
    key of its operator for the others. -/
def Vouches (mn : Option MasternodeEntry) : MasternodeMessage → Prop
  | .dsee msg => env.verifyMessage msg.pubkey msg.vchSig (msg.strMessage env) ∧ match mn with
      | some mn => mn.vin.prevout = msg.vin.prevout ∧ mn.pubkey = msg.pubkey
      | none => ext.isVinAssociatedWithPubkey msg.vin msg.pubkey
  | .dseep msg => ∃ pmn, mn = some pmn ∧ pmn.vin.prevout = msg.vin.prevout ∧
      env.verifyMessage pmn.pubkey2 msg.vchSig (msg.strMessage env pmn.addr)
  | .mvote msg => ∃ pmn, mn = some pmn ∧ pmn.vin.prevout = msg.vin.prevout ∧
      env.verifyMessage pmn.pubkey2 msg.vchSig (msg.strMessage env)

end MasternodeMessage

/-- A message, and what the node is like when it arrives. -/
structure MasternodeDelivery where
  ext : MasternodeExt
  msg : MasternodeMessage

namespace MasternodeDelivery

variable (env : MasternodeEnv)

/-- The list after the message has been delivered. -/
def after (d : MasternodeDelivery) (s : CMasternodeMan) : CMasternodeMan := (d.msg.process env d.ext s).1

/-- Whatever the message changes it is signed for, and no signing time decreases. -/
structure Authentic (s : CMasternodeMan) (d : MasternodeDelivery) : Prop where
  signed : ∀ i : Nat, ((d.after env s).vMasternodes[i]?).map MasternodeEntry.record
      ≠ (s.vMasternodes[i]?).map MasternodeEntry.record →
    d.msg.Vouches env d.ext s.vMasternodes[i]?
  sigTime : ∀ (i : Nat) mn, s.vMasternodes[i]? = some mn →
    ∃ mn', (d.after env s).vMasternodes[i]? = some mn' ∧ mn.sigTime ≤ mn'.sigTime

/-- A message that would be written carries a signature that verifies. -/
def Trusted (s : CMasternodeMan) (d : MasternodeDelivery) : Prop :=
  d.ext.fBlockchainSynced → d.msg.Takes env d.ext s → d.msg.Signed env s

/-- Every message is delivered in a state in which `P` holds of it. -/
def AlongRun (P : CMasternodeMan → MasternodeDelivery → Prop) : CMasternodeMan → List MasternodeDelivery → Prop
  | _, [] => True
  | s, d :: ds => P s d ∧ AlongRun P (d.after env s) ds

end MasternodeDelivery

end PupaCoin
