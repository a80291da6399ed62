import PupaCoin.Lib.Latest
import PupaCoin.Net.InstantX

/-!
# The masternodes that are paid (`masternode-payments.cpp`)

A message `mnw` names the masternode that is paid in a block. The node keeps a winner for every height, and elects one
itself whenever it is asked for the winner of a height.
-/

namespace PupaCoin

def minMasternodeBscRelay : Int := 62026

structure CMasternodePaymentWinner where
  nBlockHeight : Int
  vin : CTxIn
  payee : CScript
  vchSig : List UInt8
  score : Nat
deriving DecidableEq, Repr

/-- What the payments are parametric in. -/
structure PaymentsEnv where
  /-- The hash of an `int`, and of a `uint256`. -/
  hashHeight : Int → UInt256
  hashOne : UInt256 → UInt256
  /-- `CheckSignature`. -/
  checkSignature : CMasternodePaymentWinner → Bool
  /-- The signature that `Sign` leaves; it returns true whatever fails. -/
  sign : CMasternodePaymentWinner → List UInt8

/-- What is read of the masternode that `GetCurrentMasterNode(1)` finds. -/
structure CurrentMasternode where
  vin : CTxIn
  /-- `GetScriptForDestination(pubkey.GetID())`. -/
  payee : CScript

/-- What the payments read of the node. -/
structure PaymentsExt where
  fBlockchainSynced : Bool
  fInitialBlockDownload : Bool
  /-- The height of `pindexBest`. -/
  pindexBest : Option Int
  getBlockHash : Int → Option UInt256
  getCurrentMasterNode : Option CurrentMasternode
  /-- `pfrom->nVersion`. -/
  nVersion : Int

/-- What `masternode-payments.cpp` keeps. -/
structure MasternodePayments where
  vWinning : List CMasternodePaymentWinner
  mapSeenMasternodeVotes : UInt256 → Option CMasternodePaymentWinner

abbrev PaymentsM := Exec MasternodePayments Stop

namespace MasternodePayments

def empty : MasternodePayments := ⟨[], fun _ => none⟩

def entry (s : MasternodePayments) (nBlockHeight : Int) : Option CMasternodePaymentWinner :=
  s.vWinning.find? fun winner => winner.nBlockHeight == nBlockHeight

end MasternodePayments

section Payments

variable (env : PaymentsEnv) (ext : PaymentsExt)

/-- `CMasternodePaymentWinner::GetHash`. -/
def winnerHash (winner : CMasternodePaymentWinner) : UInt256 :=
  let n2 := env.hashHeight winner.nBlockHeight
  if winner.vin.prevout.hash > n2 then winner.vin.prevout.hash - n2 else n2 - winner.vin.prevout.hash

/-- `CalculateScore`: `Get64` takes the low 64 bits. -/
def calculateWinnerScore (blockHash : UInt256) (vin : CTxIn) : Nat :=
  let n2 := env.hashOne blockHash
  let n3 := env.hashOne vin.prevout.hash
  let n4 := if n3 > n2 then n3 - n2 else n2 - n3
  n4.toNat % 2 ^ 64

/-- The winner with its own score: the block hash is 0. -/
def CMasternodePaymentWinner.scored (winner : CMasternodePaymentWinner) : CMasternodePaymentWinner :=
  { winner with score := calculateWinnerScore env 0 winner.vin }

/-- The loop of `AddWinningMasternode`, where it replaces a winner. -/
def replaceWinner (winnerIn : CMasternodePaymentWinner) :
    List CMasternodePaymentWinner → Option (List CMasternodePaymentWinner)
  | [] => none
  | winner :: rest =>
    if winner.nBlockHeight = winnerIn.nBlockHeight ∧ winner.score < winnerIn.score then
      some ({ winner with
        score := winnerIn.score
        vin := winnerIn.vin
        payee := winnerIn.payee
        vchSig := winnerIn.vchSig } :: rest)
    else (replaceWinner winnerIn rest).map (winner :: ·)

def addWinningMasternode (winner : CMasternodePaymentWinner) : PaymentsM Bool := fun s =>
  let winnerIn := winner.scored env
  let mapSeen := mapInsert s.mapSeenMasternodeVotes (winnerHash env winnerIn) winnerIn
  match replaceWinner winnerIn s.vWinning with
  | some vWinning => (.ok true, ⟨vWinning, mapSeen⟩)
  | none =>
    if (s.vWinning.any fun old => old.nBlockHeight == winnerIn.nBlockHeight) then (.ok false, s)
    else (.ok true, ⟨s.vWinning ++ [winnerIn], mapSeen⟩)

/-- The winner that `ProcessBlock` makes of the current masternode, signed. -/
def newWinner (nBlockHeight : Int) (mn : CurrentMasternode) : CMasternodePaymentWinner :=
  let winner : CMasternodePaymentWinner := ⟨nBlockHeight, mn.vin, mn.payee, [], 0⟩
  { winner with vchSig := env.sign winner }

/-- `ProcessBlock`: the protocol version of the current masternode is read before the null check. -/
def CMasternodePayments.processBlock (nBlockHeight : Int) : PaymentsM Bool := do
  if nBlockHeight ≤ 10 then return false
  else if ext.fInitialBlockDownload then return false
  else if ext.getBlockHash nBlockHeight = none then return false
  else
    match ext.getCurrentMasterNode with
    | none => .stop (.undefined "null pmn")
    | some mn => addWinningMasternode env (newWinner env nBlockHeight mn)

/-- `GetWinningMasternode`: the payee and the `vin` of the last winner. -/
def getWinningMasternode (nBlockHeight : Int) : PaymentsM (Option (CScript × CTxIn)) := do
  if ext.fInitialBlockDownload then return none
  else if ext.getCurrentMasterNode.isNone then return none
  else if !(← CMasternodePayments.processBlock env ext nBlockHeight) then return none
  else return ((← Exec.read).vWinning.getLast?.map fun winner => (winner.payee, winner.vin))

/-- What a node does with a message `mnw`. -/
inductive PaymentsAction where
  | misbehaving (howmuch : Nat)
  | relay (hash : UInt256)
deriving DecidableEq, Repr

/-- The height of a winner is near the best block. -/
def inRange (nBestHeight : Int) (winner : CMasternodePaymentWinner) : Bool :=
  decide (nBestHeight - 10 ≤ winner.nBlockHeight) && decide (winner.nBlockHeight ≤ nBestHeight + 20)

/-- The branch `mnw` of `ProcessMessageMasternodePayments`. -/
def processWinner (winner : CMasternodePaymentWinner) : PaymentsM (List PaymentsAction) := do
  if !ext.fBlockchainSynced then return []
  else
    match ext.pindexBest with
    | none => return []
    | some nBestHeight =>
      if ((← Exec.read).mapSeenMasternodeVotes (winnerHash env winner)).isSome then return []
      else if !inRange nBestHeight winner then return []
      else if winner.vin.nSequence ≠ 0xffffffff then return [.misbehaving 100]
      else if ext.nVersion < minMasternodeBscRelay then return []
      else if !env.checkSignature winner then return [.misbehaving 100]
      else
        Exec.update fun s => { s with
          mapSeenMasternodeVotes := mapInsert s.mapSeenMasternodeVotes (winnerHash env winner) winner }
        if ← addWinningMasternode env winner then return [.relay (winnerHash env winner)] else return []

/-- A step and what the node is like. -/
inductive PaymentsStep where
  | mnw (ext : PaymentsExt) (winner : CMasternodePaymentWinner)
  | block (ext : PaymentsExt) (nBlockHeight : Int)

def PaymentsStep.Returns : PaymentsStep → MasternodePayments → MasternodePayments → Prop
  | .mnw ext winner, s, s' => ∃ actions, processWinner env ext winner s = (.ok actions, s')
  | .block ext nBlockHeight, s, s' => ∃ elected, CMasternodePayments.processBlock env ext nBlockHeight s = (.ok elected, s')

/-- The message is valid, whether its hash has been seen or not. -/
def winnerValid (winner : CMasternodePaymentWinner) : Bool :=
  ext.fBlockchainSynced && ext.pindexBest.any (inRange · winner) && winner.vin.nSequence == 0xffffffff
    && decide (minMasternodeBscRelay ≤ ext.nVersion) && env.checkSignature winner

/-- The winner that `ProcessBlock` elects. -/
def electedWinner (nBlockHeight : Int) : Option CMasternodePaymentWinner :=
  if nBlockHeight ≤ 10 ∨ ext.fInitialBlockDownload = true ∨ ext.getBlockHash nBlockHeight = none then none
  else ext.getCurrentMasterNode.map (newWinner env nBlockHeight)

/-- The winners that a step brings, with their scores. -/
def PaymentsStep.winners : PaymentsStep → List CMasternodePaymentWinner
  | .mnw ext winner => if winnerValid env ext winner then [winner.scored env] else []
  | .block ext nBlockHeight => (electedWinner env ext nBlockHeight).toList.map (CMasternodePaymentWinner.scored env)

/-- The states reached by steps that come to their end and meet `P`, with the winners so far. -/
inductive PaymentsRun (P : PaymentsStep → List CMasternodePaymentWinner → MasternodePayments → Prop) :
    List CMasternodePaymentWinner → MasternodePayments → Prop
  | start : PaymentsRun P [] .empty
  | step {winners : List CMasternodePaymentWinner} {s s' : MasternodePayments} (step : PaymentsStep) :
      PaymentsRun P winners s → P step winners s → step.Returns env s s' → PaymentsRun P (winners ++ step.winners env) s'

/-- There is one winner at most for every height, and it is one with the highest score of those that have come. -/
structure MasternodePayments.KeepsBest (s : MasternodePayments) (winners : List CMasternodePaymentWinner) : Prop where
  heights : (s.vWinning.map CMasternodePaymentWinner.nBlockHeight).Nodup
  best : ∀ nBlockHeight, Latest.IsLatest CMasternodePaymentWinner.nBlockHeight CMasternodePaymentWinner.score winners
    nBlockHeight (s.entry nBlockHeight)

/-- `GetWinningMasternode` returns the payee and the `vin` of the winner of the height, or false where there is none; and
the same again when it is called again. -/
def LooksUpWinner (s : MasternodePayments) (nBlockHeight : Int) : Prop :=
  ∃ result s', getWinningMasternode env ext nBlockHeight s = (.ok result, s')
    ∧ result = (s'.entry nBlockHeight).map (fun winner => (winner.payee, winner.vin))
    ∧ (getWinningMasternode env ext nBlockHeight s').1 = .ok result

/-- A valid message whose hash has been seen brings no winner with a higher score than those that have come for its
height. -/
def HidesNoWinner : PaymentsStep → List CMasternodePaymentWinner → MasternodePayments → Prop
  | .mnw ext winner, winners, s =>
    winnerValid env ext winner = true → (s.mapSeenMasternodeVotes (winnerHash env winner)).isSome = true →
      ∃ old ∈ winners, old.nBlockHeight = winner.nBlockHeight ∧ (winner.scored env).score ≤ old.score
  | .block _ _, _, _ => True

end Payments

end PupaCoin
