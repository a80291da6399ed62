import PupaCoin.Chain.Params
import PupaCoin.Lib.Latest
import PupaCoin.Lib.OrderedMap
import PupaCoin.Lib.Regroup

/-!
# Sporks (`spork.cpp`)

A spork is a setting of the network. Whoever has the key signs a value for it, with the time, and a node keeps the value
that was signed last.
-/

namespace PupaCoin

structure CSporkMessage where
  vchSig : List UInt8
  nSporkID : Int
  nValue : Int
  nTimeSigned : Int
deriving DecidableEq, Repr

/-- What the sporks are parametric in. -/
structure SporkEnv where
  /-- `CSporkMessage::GetHash`. -/
  getHash : CSporkMessage → UInt256
  /-- `VerifyMessage` with the key `strMainPubKey`. -/
  verifyMessage : List UInt8 → String → Bool
  /-- `SetKey` with `strMasterPrivKey`, and `SignMessage`, whose signature `VerifyMessage` takes. -/
  signMessage : String → Option (List UInt8)

/-- What `ProcessSpork` reads of the node. -/
structure SporkExt where
  fLiteMode : Bool
  /-- The height of `pindexBest`. -/
  pindexBest : Option Int

/-- The maps of `spork.cpp`. -/
structure Sporks where
  mapSporks : UInt256 → Option CSporkMessage
  mapSporksActive : OrderedMap Int CSporkMessage

def Sporks.empty : Sporks := ⟨fun _ => none, .empty⟩

/-- The numbers in decimals, one behind the other. -/
def CSporkMessage.strMessage (spork : CSporkMessage) : String :=
  toString spork.nSporkID ++ toString spork.nValue ++ toString spork.nTimeSigned

section Manager

variable (env : SporkEnv)

/-- `CheckSignature`. -/
def checkSporkSignature (spork : CSporkMessage) : Bool := env.verifyMessage spork.vchSig spork.strMessage

/-- `Sign`. -/
def signSpork (spork : CSporkMessage) : Option CSporkMessage :=
  (env.signMessage spork.strMessage).map fun vchSig => { spork with vchSig := vchSig }

/-- `mapSporks[hash] = spork` and `mapSporksActive[spork.nSporkID] = spork`. -/
def Sporks.record (s : Sporks) (spork : CSporkMessage) : Sporks :=
  ⟨Function.update s.mapSporks (env.getHash spork) (some spork), s.mapSporksActive.set spork.nSporkID spork⟩

def updateSpork (getTime nSporkID nValue : Int) (s : Sporks) : Bool × Sporks :=
  match signSpork env ⟨[], nSporkID, nValue, getTime⟩ with
  | none => (false, s)
  | some msg => (true, s.record env msg)

end Manager

/-- The commands of `ProcessSpork`. -/
inductive SporkCommand where
  | spork (spork : CSporkMessage)
  | getsporks

/-- What `ProcessSpork` does to the peers. -/
inductive SporkAction where
  | misbehaving (howmuch : Nat)
  | relay (hash : UInt256)
  | push (spork : CSporkMessage)
deriving DecidableEq, Repr

section Process

variable (env : SporkEnv) (ext : SporkExt)

/-- There is a value for this spork, which is not older. -/
def Sporks.seen (s : Sporks) (spork : CSporkMessage) : Bool :=
  (s.mapSporksActive.find? spork.nSporkID).any fun active => decide (active.nTimeSigned ≥ spork.nTimeSigned)

def processSpork : SporkCommand → Sporks → List SporkAction × Sporks
  | command, s =>
    if ext.fLiteMode then ([], s)
    else
      match command with
      | .spork spork =>
        if ext.pindexBest = none then ([], s)
        else if s.seen spork then ([], s)
        else if !checkSporkSignature env spork then ([.misbehaving 100], s)
        else ([.relay (env.getHash spork)], s.record env spork)
      | .getsporks => (s.mapSporksActive.entries.map fun e => .push e.2, s)

/-- The maps once the sporks have been delivered, from a start. -/
def deliverSporks (deliveries : List (SporkExt × CSporkMessage)) : Sporks :=
  deliveries.foldl (fun s d => (processSpork env d.1 (.spork d.2) s).2) .empty

end Process

/-- The sporks and their defaults, as `IsSporkActive` and `GetSporkValue` go through them. `SPORK_7` has no default of its
own: its number stands there. -/
def sporkDefaults : List (Int × Int) :=
  [(10000, 4070908800),  -- SPORK_1_MASTERNODE_PAYMENTS_ENFORCEMENT
   (10001, 0),           -- SPORK_2_INSTANTX
   (10002, 0),           -- SPORK_3_INSTANTX_BLOCK_FILTERING
   (10004, 3000000),     -- SPORK_5_MAX_VALUE
   (10005, 0),           -- SPORK_6_REPLAY_BLOCKS
   (10006, 10006),       -- SPORK_7_MASTERNODE_SCANNING
   (10007, 4070908800),  -- SPORK_8_MASTERNODE_PAYMENT_ENFORCEMENT
   (10008, 4070908800),  -- SPORK_9_MASTERNODE_BUDGET_ENFORCEMENT
   (10009, 4070908800),  -- SPORK_10_MASTERNODE_PAY_UPDATED_NODES
   (10010, 0),           -- SPORK_11_RESET_BUDGET
   (10011, 0),           -- SPORK_12_RECONSIDER_BLOCKS
   (10012, 4070908800)]  -- SPORK_13_ENABLE_SUPERBLOCKS

/-- The default of a spork, and -1 for a number that is none. -/
def sporkDefault (nSporkID : Int) : Int :=
  sporkDefaults.foldl (fun r e => if nSporkID = e.1 then e.2 else r) (-1)

def getSporkValue (s : Sporks) (nSporkID : Int) : Int :=
  match s.mapSporksActive.find? nSporkID with
  | some spork => spork.nValue
  | none => sporkDefault nSporkID

/-- `IsSporkActive`: -1 stands for a time that is far off. -/
def isSporkActive (s : Sporks) (getTime nSporkID : Int) : Bool :=
  let r := getSporkValue s nSporkID
  decide ((if r = -1 then 4070908800 else r) < getTime)

/-- The node keeps, for every spork, the latest of some messages. -/
def Sporks.KeepsLatest (s : Sporks) (msgs : List CSporkMessage) : Prop :=
  ∀ nSporkID, Latest.IsLatest CSporkMessage.nSporkID CSporkMessage.nTimeSigned msgs nSporkID
    (s.mapSporksActive.find? nSporkID)

/-- The node is not in lite mode and has a best block, and the messages are validly signed. -/
def TakesSporks (env : SporkEnv) (deliveries : List (SporkExt × CSporkMessage)) : Prop :=
  ∀ d ∈ deliveries, d.1.fLiteMode = false ∧ d.1.pindexBest ≠ none ∧ checkSporkSignature env d.2 = true

def decimals (n : Int) : List Char := (toString n).toList

def CSporkMessage.triple (spork : CSporkMessage) : Int × Int × Int := (spork.nSporkID, spork.nValue, spork.nTimeSigned)

/-- The digits `u` and `w` go over the boundaries between the numbers of `a`, and the numbers of `b` come out. -/
def CSporkMessage.ShiftsTo (a b : CSporkMessage) (u w : List Char) : Prop :=
  Regroup.Shifts u w (decimals a.nSporkID) (decimals a.nValue) (decimals a.nTimeSigned)
    (decimals b.nSporkID) (decimals b.nValue) (decimals b.nTimeSigned)

def CSporkMessage.Regroups (a b : CSporkMessage) : Prop := ∃ u w, a.ShiftsTo b u w ∧ (u ≠ [] ∨ w ≠ [])

end PupaCoin
