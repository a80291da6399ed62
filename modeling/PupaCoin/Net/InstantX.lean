import PupaCoin.Chain.Node
import PupaCoin.Lib.Quorum

/-!
# InstantX locks (`instantx.cpp`, `masternodeman.cpp`)

A request `txlreq` asks the masternodes to lock the inputs of a transaction, and a masternode answers with
a vote `txlvote`. The node collects the votes of every transaction and locks its inputs against other
transactions.
-/

namespace PupaCoin

def instantxSignaturesRequired : Int := 2
def instantxSignaturesTotal : Int := 4
def minInstantxProtoVersion : Int := 62032

/-- `CConsensusVote`: a masternode votes for a transaction at a height. -/
structure CConsensusVote where
  vinMasternode : CTxIn
  txHash : UInt256
  nBlockHeight : Int
  vchMasterNodeSignature : List UInt8
deriving DecidableEq, Repr

/-- `CConsensusVote::GetHash`: the height is not part of it. -/
def CConsensusVote.getHash (vote : CConsensusVote) : UInt256 :=
  vote.vinMasternode.prevout.hash + BitVec.ofNat 256 vote.vinMasternode.prevout.n.toNat + vote.txHash

/-- `CTransactionLock`: the votes for a transaction. -/
structure CTransactionLock where
  nBlockHeight : Int
  txHash : UInt256
  vecConsensusVotes : List CConsensusVote
  nExpiration : Int
  nTimeout : Int
deriving DecidableEq, Repr

namespace CTransactionLock

/-- The vote is for the height of the lock. -/
def counts (lock : CTransactionLock) (vote : CConsensusVote) : Bool :=
  vote.nBlockHeight == lock.nBlockHeight

/-- `CountSignatures`: only votes for the height of the lock count. -/
def countSignatures (lock : CTransactionLock) : Int :=
  if lock.nBlockHeight = 0 then -1 else lock.vecConsensusVotes.countP lock.counts

/-- `AddSignature`: also a vote that was added before. -/
def addSignature (lock : CTransactionLock) (vote : CConsensusVote) : CTransactionLock :=
  { lock with vecConsensusVotes := lock.vecConsensusVotes ++ [vote] }

end CTransactionLock

/-- What the ranking reads of a `CMasternode`. -/
structure CMasternode where
  vin : CTxIn
  pubkey2 : List UInt8
  protocolVersion : Int
  /-- `IsEnabled()`, after `Check()`. -/
  fEnabled : Bool

/-- The inventory that is relayed. -/
inductive CInv where
  | txLockRequest (hash : UInt256)
  | txLockVote (hash : UInt256)
deriving DecidableEq, Repr

/-- What InstantX is parametric in. -/
structure InstantXEnv extends Env where
  /-- The hash of a block hash, and of a block hash with a number behind it. -/
  hashOne : UInt256 → UInt256
  hashTwo : UInt256 → UInt256 → UInt256
  /-- `VerifyMessage(pubkey, signature, txHash.ToString() + nBlockHeight)`. -/
  verifyMessage : List UInt8 → List UInt8 → UInt256 → Int → Bool

/-- What InstantX reads of the node while it processes a message. -/
structure InstantXExt where
  fLiteMode : Bool
  /-- `IsSporkActive(SPORK_2_INSTANTX)`. -/
  fInstantX : Bool
  /-- `mnEnginePool.IsBlockchainSynced()`. -/
  fBlockchainSynced : Bool
  getTime : Int
  getAdjustedTime : Int
  /-- The height of `pindexBest`. -/
  pindexBest : Option Int
  /-- `GetTransaction`: the transaction and the hash of its block. -/
  getTransaction : UInt256 → Option (CTransaction × UInt256)
  /-- The heights of the blocks of `mapBlockIndex`. -/
  blockHeight : UInt256 → Option Int
  /-- `GetSporkValue(SPORK_5_MAX_VALUE)`. -/
  sporkMaxValue : Int
  /-- `GetBlockHash`. -/
  getBlockHash : Int → Option UInt256
  vMasternodes : List CMasternode
  fMasterNode : Bool
  /-- `activeMasternode.vin`. -/
  activeMasternode : CTxIn
  /-- `CConsensusVote::Sign`. -/
  sign : UInt256 → Int → Option (List UInt8)
  /-- `AcceptToMemoryPool(mempool, tx, true, &fMissingInputs)`. -/
  acceptToMemoryPool : CTransaction → Bool

/-- The maps of `instantx.cpp`. -/
structure InstantX where
  mapTxLockReq : UInt256 → Option CTransaction
  mapTxLockReqRejected : UInt256 → Option CTransaction
  mapTxLockVote : UInt256 → Option CConsensusVote
  mapTxLocks : UInt256 → Option CTransactionLock
  mapLockedInputs : COutPoint → Option UInt256
  mapUnknownVotes : AList fun _ : UInt256 => Int

/-- `std::map::insert`, which keeps the entry that there is. -/
def mapInsert {K V : Type} [DecidableEq K] (m : K → Option V) (key : K) (value : V) : K → Option V :=
  if (m key).isSome then m else Function.update m key (some value)

section Masternodes

variable (env : InstantXEnv) (ext : InstantXExt)

/-- `CalculateScore(1, nBlockHeight)`, from the hash of the block. -/
def calculateScore (hash : UInt256) (vin : CTxIn) : UInt256 :=
  let aux := vin.prevout.hash + BitVec.ofNat 256 vin.prevout.n.toNat
  let hash2 := env.hashOne hash
  let hash3 := env.hashTwo hash aux
  if hash3 > hash2 then hash3 - hash2 else hash2 - hash3

/-- `GetMasternodeRank` with `fOnlyActive`: the place of the masternode among those of descending score,
    of which the low 32 bits count. `sort` leaves the order of equal scores open. -/
def getMasternodeRank (vin : CTxIn) (nBlockHeight minProtocol : Int) : Int :=
  match ext.getBlockHash nBlockHeight with
  | none => -1
  | some hash =>
    let vecMasternodeScores := (ext.vMasternodes.filter fun mn =>
      decide (minProtocol ≤ mn.protocolVersion) && mn.fEnabled).map fun mn =>
        ((calculateScore env hash mn.vin).toNat % 2 ^ 32, mn.vin)
    let sorted := vecMasternodeScores.insertionSort fun s t => t.1 ≤ s.1
    match sorted.findIdx? fun s => s.2 == vin with
    | none => -1
    | some i => i + 1

/-- `Find`. -/
def findMasternode (vin : CTxIn) : Option CMasternode :=
  ext.vMasternodes.find? fun mn => mn.vin.prevout == vin.prevout

/-- `SignatureValid`: the masternode of the vote has signed it. -/
def signatureValid (vote : CConsensusVote) : Bool :=
  match findMasternode ext vote.vinMasternode with
  | none => false
  | some pmn =>
    env.verifyMessage pmn.pubkey2 vote.vchMasterNodeSignature vote.txHash vote.nBlockHeight

/-- The tests of `ProcessConsensusVote` on the masternode and its signature. -/
def voteAccepted (vote : CConsensusVote) : Bool :=
  let n := getMasternodeRank env ext vote.vinMasternode vote.nBlockHeight minInstantxProtoVersion
  if n = -1 then false
  else if n > instantxSignaturesTotal then false
  else signatureValid env ext vote

/-- The vote of this node in `DoConsensusVote`. -/
def consensusVote (txHash : UInt256) (nBlockHeight : Int) : Option CConsensusVote :=
  if ¬ ext.fMasterNode then none
  else
    let n := getMasternodeRank env ext ext.activeMasternode nBlockHeight minInstantxProtoVersion
    if n = -1 then none
    else if n > instantxSignaturesTotal then none
    else
      (ext.sign txHash nBlockHeight).bind fun signature =>
        let vote : CConsensusVote := ⟨ext.activeMasternode, txHash, nBlockHeight, signature⟩
        if signatureValid env ext vote then some vote else none

end Masternodes

section Requests

variable (env : InstantXEnv) (ext : InstantXExt)

/-- Addition of an output of an input's transaction in `IsIXTXValid`; the flag is `missingTx`. -/
def addInputValue (acc : Int × Bool) (i : CTxIn) : Except Stop (Int × Bool) :=
  match ext.getTransaction i.prevout.hash with
  | none => .ok (acc.1, true)
  | some (tx2, _) =>
    match tx2.vout[i.prevout.n.toNat]? with
    | none => .ok acc
    | some o => do return (← addI64 acc.1 o.nValue, acc.2)

/-- `IsIXTXValid`. The double `COIN*0.01` is the integer 1000000. -/
def isIXTXValid (txCollateral : CTransaction) : Except Stop Bool := do
  if txCollateral.vout.length < 1 then return false
  if txCollateral.nLockTime ≠ 0 then return false
  let nValueOut ← txCollateral.vout.foldlM (fun nValueOut o => addI64 nValueOut o.nValue) 0
  let (nValueIn, missingTx) ← txCollateral.vin.foldlM (addInputValue ext) (0, false)
  if nValueOut > ext.sporkMaxValue * coin then return false
  if missingTx then return true
  let nFee ← addI64 nValueIn (-nValueOut)
  return !decide (nFee < 1000000)

/-- `GetInputAge`: the confirmations of the output that is spent. -/
def getInputAge (vin : CTxIn) : Except Stop Int :=
  match ext.getTransaction vin.prevout.hash with
  | none => .ok 0
  | some (_, hashBlock) =>
    match ext.blockHeight hashBlock with
    | none => .ok 0
    | some nHeight => do return (← orUndefined ext.pindexBest "null pindexBest") - nHeight

/-- The loop of `CreateNewLock` over the inputs: the age of the last one it looks at, and `none` where one
    is too new. -/
def lastInputAge : List CTxIn → Int → Except Stop (Option Int)
  | [], nTxAge => .ok (some nTxAge)
  | i :: rest, _ => do
    let nTxAge ← getInputAge ext i
    if nTxAge < 9 then return none else lastInputAge rest nTxAge

/-- The height that `CreateNewLock` gives the lock of a transaction; `none` where it makes no lock. -/
def newLockHeight (tx : CTransaction) : Except Stop (Option Int) := do
  match ← lastInputAge ext tx.vin.reverse 0 with
  | none => return none
  | some nTxAge => return some ((← orUndefined ext.pindexBest "null pindexBest") - nTxAge + 4)

/-- The checks in front of `CreateNewLock`. -/
def requestValid (tx : CTransaction) : Except Stop Bool := do
  if ¬ (← isIXTXValid ext tx) then return false
  return tx.vout.all fun o => o.scriptPubKey.isNormalPaymentScript || o.scriptPubKey.isUnspendable

end Requests

namespace InstantX

def empty : InstantX :=
  ⟨fun _ => none, fun _ => none, fun _ => none, fun _ => none, fun _ => none, ∅⟩

variable (s : InstantX)

/-- The transaction was requested, whether accepted or not. -/
def known (hash : UInt256) : Bool :=
  (s.mapTxLockReq hash).isSome || (s.mapTxLockReqRejected hash).isSome

/-- The end of `CreateNewLock`. -/
def setLockHeight (now : Int) (hash : UInt256) (nBlockHeight : Int) : InstantX :=
  let lock : CTransactionLock :=
    match s.mapTxLocks hash with
    | none => ⟨nBlockHeight, hash, [], now + 20 * 60, now + 60 * 5⟩
    | some lock => { lock with nBlockHeight := nBlockHeight }
  { s with mapTxLocks := Function.update s.mapTxLocks hash (some lock) }

/-- The lock of a transaction in `ProcessConsensusVote`, which makes one where there is none. -/
def lockOf (now : Int) (txHash : UInt256) : CTransactionLock :=
  (s.mapTxLocks txHash).getD ⟨0, txHash, [], now + 20 * 60, now + 60 * 5⟩

/-- The vote is added to the lock of its transaction. -/
def addVote (now : Int) (vote : CConsensusVote) : InstantX :=
  { s with
    mapTxLocks := Function.update s.mapTxLocks vote.txHash
      (some ((s.lockOf now vote.txHash).addSignature vote)) }

/-- The loops that lock the inputs of a transaction that are not locked. -/
def lockInputs (txHash : UInt256) (vin : List CTxIn) : InstantX :=
  { s with
    mapLockedInputs :=
      vin.foldl (fun locked txin => mapInsert locked txin.prevout txHash) s.mapLockedInputs }

/-- `mapTxLocks[txHash].nExpiration = GetTime()`, where there is such a lock. -/
def expireLock (now : Int) (txHash : UInt256) : InstantX :=
  { s with
    mapTxLocks := Function.update s.mapTxLocks txHash
      ((s.mapTxLocks txHash).map fun lock => { lock with nExpiration := now }) }

/-- The transaction that the first input locked for another one is locked for. -/
def conflictingLock (hash : UInt256) (tx : CTransaction) : Option UInt256 :=
  tx.vin.findSome? fun txin => (s.mapLockedInputs txin.prevout).filter fun locked => locked != hash

/-- `GetAverageVoteTime`: the mean of the times of the unknown votes. -/
def getAverageVoteTime (votes : AList fun _ : UInt256 => Int) : Int :=
  (votes.entries.map Sigma.snd).sum.tdiv votes.entries.length

/-- The spam protection for votes on unknown transactions: whether the vote is passed on. -/
def allowUnknownVote (now : Int) (masternode : UInt256) : Bool × InstantX :=
  let votes := if masternode ∈ s.mapUnknownVotes then s.mapUnknownVotes
    else s.mapUnknownVotes.insert masternode (now + 60 * 10)
  let time := (votes.lookup masternode).getD 0
  if time > now ∧ time - getAverageVoteTime votes > 60 * 10 then
    (false, { s with mapUnknownVotes := votes })
  else (true, { s with mapUnknownVotes := votes.insert masternode (now + 60 * 10) })

end InstantX

/-- A function of `instantx.cpp`. -/
abbrev InstantXM := Exec InstantX Stop

section Messages

variable (env : InstantXEnv) (ext : InstantXExt)

/-- `CreateNewLock`: the height of the lock, or 0 where none is made. -/
def createNewLock (tx : CTransaction) : InstantXM Int := do
  match ← (newLockHeight ext tx : Except Stop (Option Int)) with
  | none => return 0
  | some nBlockHeight =>
    Exec.update fun s => s.setLockHeight ext.getTime (env.getHash tx) nBlockHeight
    return nBlockHeight

/-- `CheckForConflictingLocks`: both locks expire where an input is locked for another transaction. -/
def checkForConflictingLocks (tx : CTransaction) : InstantXM Bool := fun s =>
  match s.conflictingLock (env.getHash tx) tx with
  | none => (.ok false, s)
  | some locked => (.ok true, (s.expireLock ext.getTime (env.getHash tx)).expireLock ext.getTime locked)

/-- `block.DisconnectBlock(txdb, pindex)`: `pindex` has not been given a value. -/
def reprocessBlocks : InstantXM Unit := .stop (.undefined "DisconnectBlock of an uninitialized pindex")

/-- `DoConsensusVote`: we vote, if we are a masternode among the first ranks. -/
def doConsensusVote (tx : CTransaction) (nBlockHeight : Int) : InstantXM (List CInv) :=
  match consensusVote env ext (env.getHash tx) nBlockHeight with
  | none => pure []
  | some vote => do
    Exec.update fun s =>
      { s with mapTxLockVote := Function.update s.mapTxLockVote vote.getHash (some vote) }
    return [.txLockVote vote.getHash]

/-- The request whose transaction the memory pool has taken. -/
def acceptRequest (tx : CTransaction) (nBlockHeight : Int) : InstantXM (List CInv) := do
  let invs ← doConsensusVote env ext tx nBlockHeight
  Exec.update fun s => { s with mapTxLockReq := mapInsert s.mapTxLockReq (env.getHash tx) tx }
  return .txLockRequest (env.getHash tx) :: invs

/-- The end of the request whose transaction the memory pool has refused. -/
def resolveConflicts (tx : CTransaction) : InstantXM Unit := do
  let s ← Exec.read
  match s.mapTxLocks (env.getHash tx) with
  | none => return ()
  | some lock =>
    if lock.countSignatures ≥ instantxSignaturesRequired then
      if ¬ (← checkForConflictingLocks env ext tx) then reprocessBlocks else return ()
    else return ()

/-- The request whose transaction the memory pool has refused: its inputs are locked all the same. -/
def rejectRequest (tx : CTransaction) : InstantXM (List CInv) := do
  Exec.update fun s =>
    { s with mapTxLockReqRejected := mapInsert s.mapTxLockReqRejected (env.getHash tx) tx }
  Exec.update fun s => s.lockInputs (env.getHash tx) tx.vin
  resolveConflicts env ext tx
  return []

/-- The branch `txlreq` of `ProcessMessageInstantX`. -/
def processLockRequest (tx : CTransaction) : InstantXM (List CInv) := do
  let s ← Exec.read
  if s.known (env.getHash tx) then return []
  else if ¬ (← (requestValid ext tx : Except Stop Bool)) then return []
  else
    let nBlockHeight ← createNewLock env ext tx
    if ext.acceptToMemoryPool tx then acceptRequest env ext tx nBlockHeight
    else rejectRequest env ext tx

/-- `mapTxLockReq[txHash]`, which makes an empty transaction where there is none. -/
def lockRequestAt (txHash : UInt256) : InstantXM CTransaction := fun s =>
  let tx := (s.mapTxLockReq txHash).getD ⟨1, UInt32.ofInt ext.getAdjustedTime, [], [], 0⟩
  (.ok tx, { s with mapTxLockReq := Function.update s.mapTxLockReq txHash (some tx) })

/-- What `ProcessConsensusVote` does with a lock that has votes enough. -/
def completeLock (vote : CConsensusVote) (lock : CTransactionLock) : InstantXM Unit := do
  let tx ← lockRequestAt ext vote.txHash
  if ← checkForConflictingLocks env ext tx then return ()
  else
    Exec.update fun s =>
      if (s.mapTxLockReq vote.txHash).isSome then s.lockInputs vote.txHash tx.vin else s
    let s ← Exec.read
    if (s.mapTxLockReqRejected lock.txHash).isSome then reprocessBlocks else return ()

/-- `ProcessConsensusVote`: an accepted vote is added to its lock, which it may complete. -/
def processConsensusVote (vote : CConsensusVote) : InstantXM Bool := do
  if ¬ voteAccepted env ext vote then return false
  else
    let s ← Exec.read
    let lock := (s.lockOf ext.getTime vote.txHash).addSignature vote
    Exec.update fun s => s.addVote ext.getTime vote
    if lock.countSignatures ≥ instantxSignaturesRequired then completeLock env ext vote lock
    return true

/-- A vote on an unknown transaction is relayed unless its masternode has sent too many of them. -/
def relayVote (vote : CConsensusVote) : InstantXM (List CInv) := fun s =>
  if s.known vote.txHash then (.ok [.txLockVote vote.getHash], s)
  else
    match s.allowUnknownVote ext.getTime vote.vinMasternode.prevout.hash with
    | (true, s) => (.ok [.txLockVote vote.getHash], s)
    | (false, s) => (.ok [], s)

/-- The branch `txlvote` of `ProcessMessageInstantX`. -/
def processLockVote (vote : CConsensusVote) : InstantXM (List CInv) := do
  let s ← Exec.read
  if (s.mapTxLockVote vote.getHash).isSome then return []
  else
    Exec.update fun s => { s with mapTxLockVote := mapInsert s.mapTxLockVote vote.getHash vote }
    if ← processConsensusVote env ext vote then relayVote ext vote else return []

/-- The messages of InstantX. -/
inductive InstantXMessage where
  | txlreq (tx : CTransaction)
  | txlvote (vote : CConsensusVote)

/-- `ProcessMessageInstantX`: what is relayed. -/
def processMessageInstantX : InstantXMessage → InstantXM (List CInv)
  | message =>
    if ext.fLiteMode || !ext.fInstantX || !ext.fBlockchainSynced then pure []
    else
      match message with
      | .txlreq tx => processLockRequest env ext tx
      | .txlvote vote => processLockVote env ext vote

end Messages

/-- A message and what the node was like when it came. -/
abbrev InstantXEvent := InstantXExt × InstantXMessage

/-- The states reached from empty maps by messages that are processed to their end and meet `P` when they
    come, with the messages so far. -/
inductive InstantXRun (env : InstantXEnv) (P : InstantXEvent → InstantX → Prop) : List InstantXEvent → InstantX → Prop
  | start : InstantXRun env P [] .empty
  | receive {events : List InstantXEvent} {s s' : InstantX} {event : InstantXEvent}
      {invs : List CInv} : InstantXRun env P events s → P event s →
      processMessageInstantX env event.1 event.2 s = (.ok invs, s') →
      InstantXRun env P (events ++ [event]) s'

/-- The vote has come with a message, from one of the masternodes that ranked highest at its height when
    it came, and with a valid signature. -/
def ValidVote (env : InstantXEnv) (events : List InstantXEvent) (vote : CConsensusVote) : Prop :=
  ∃ ext, (ext, .txlvote vote) ∈ events ∧ signatureValid env ext vote = true
    ∧ 1 ≤ getMasternodeRank env ext vote.vinMasternode vote.nBlockHeight minInstantxProtoVersion
    ∧ getMasternodeRank env ext vote.vinMasternode vote.nBlockHeight minInstantxProtoVersion
      ≤ instantxSignaturesTotal

/-- The lock of the transaction has enough valid votes of different masternodes at its height. -/
def CompleteLock (env : InstantXEnv) (events : List InstantXEvent) (s : InstantX) (h : UInt256) : Prop :=
  ∃ lock, s.mapTxLocks h = some lock
    ∧ Tally.Quorum instantxSignaturesRequired.toNat (fun vote => vote.vinMasternode.prevout)
      (fun vote => vote.txHash = h ∧ vote.nBlockHeight = lock.nBlockHeight ∧ ValidVote env events vote)
      lock.vecConsensusVotes

/-- Every locked input is an input of the transaction it is locked for, and the lock of this transaction
    is complete. -/
def LocksComplete (env : InstantXEnv) (events : List InstantXEvent) (s : InstantX) : Prop :=
  ∀ o h, s.mapLockedInputs o = some h → (∃ tx : CTransaction, env.getHash tx = h ∧ ∃ txin ∈ tx.vin, txin.prevout = o)
      ∧ CompleteLock env events s h

/-- The votes that have been counted for a transaction, at a height. -/
def InstantX.votesAt (s : InstantX) (h : UInt256) (nBlockHeight : Int) : Nat :=
  (((s.mapTxLocks h).map CTransactionLock.vecConsensusVotes).getD []).countP fun vote =>
    vote.nBlockHeight == nBlockHeight

/-- The height of the lock of a transaction after `CreateNewLock`. -/
def heightAfter (env : InstantXEnv) (ext : InstantXExt) (tx : CTransaction) (s : InstantX) : Int :=
  match newLockHeight ext tx with
  | .ok (some nBlockHeight) => nBlockHeight
  | _ => ((s.mapTxLocks (env.getHash tx)).map CTransactionLock.nBlockHeight).getD 0

/-- A request that gets as far as the memory pool and is refused there finds its inputs locked already, or
    votes enough at the height its lock is given. -/
def RefusedWithVotes (env : InstantXEnv) : InstantXEvent → InstantX → Prop
  | (ext, .txlreq tx), s =>
    (ext.fLiteMode || !ext.fInstantX || !ext.fBlockchainSynced) = false →
      s.known (env.getHash tx) = false → requestValid ext tx = .ok true →
      ext.acceptToMemoryPool tx = false →
      (∀ txin ∈ tx.vin, s.mapLockedInputs txin.prevout ≠ none)
        ∨ instantxSignaturesRequired ≤ s.votesAt (env.getHash tx) (heightAfter env ext tx s)
  | _, _ => True

/-!
## Collecting the votes of a lock

A request for a lock and the votes on it reach a node in any order, and with them whatever else is sent under
the hash of a vote. A vote is tried once: its hash is recorded before the vote is looked at.
-/

/-- A vote and what the node was like when it came. -/
abbrev VoteEvent := InstantXExt × CConsensusVote

def VoteEvent.toEvent (e : VoteEvent) : InstantXEvent := (e.1, .txlvote e.2)

/-- The request between the votes that come before it and those that come after it. -/
def lockEvents (before : List VoteEvent) (ext : InstantXExt) (tx : CTransaction) (after : List VoteEvent) :
    List InstantXEvent :=
  before.map VoteEvent.toEvent ++ (ext, .txlreq tx) :: after.map VoteEvent.toEvent

def InstantXExt.isActive (ext : InstantXExt) : Bool :=
  !(ext.fLiteMode || !ext.fInstantX || !ext.fBlockchainSynced)

/-- A request that passes the checks, whose lock is given a height, and that the memory pool takes. -/
structure GoodRequest (ext : InstantXExt) (tx : CTransaction) (nBlockHeight : Int) : Prop where
  active : ext.isActive = true
  valid : requestValid ext tx = .ok true
  height : newLockHeight ext tx = .ok (some nBlockHeight)
  pos : 0 < nBlockHeight
  accepted : ext.acceptToMemoryPool tx = true
  inputs : tx.vin ≠ []

section Collection

variable (env : InstantXEnv) (before after : List VoteEvent) (ext : InstantXExt) (tx : CTransaction)
  (nBlockHeight : Int)

/-- The vote is accepted, and on this transaction. -/
def VoteEvent.isFor (h : UInt256) (e : VoteEvent) : Bool := voteAccepted env e.1 e.2 && e.2.txHash == h

/-- The vote is accepted, on this transaction and at the height of its lock. -/
def VoteEvent.isGenuine (h : UInt256) (e : VoteEvent) : Bool :=
  e.isFor env h && e.2.nBlockHeight == nBlockHeight

def triedBefore : List VoteEvent := Tally.firsts (fun e : VoteEvent => e.2.getHash) [] before

/-- The hashes that are recorded once the request has been processed, the node's own vote among them. -/
def recordedHashes : List UInt256 :=
  ((consensusVote env ext (env.getHash tx) nBlockHeight).map CConsensusVote.getHash).toList ++
    before.map fun e => e.2.getHash

def triedAfter : List VoteEvent :=
  Tally.firsts (fun e : VoteEvent => e.2.getHash) (recordedHashes env before ext tx nBlockHeight) after

/-- The lock is complete and its inputs are locked; every genuine vote counts, whatever else was sent; and no
    masternode counts twice. -/
structure LockCollected (s : InstantX) : Prop where
  complete : ∃ lock, s.mapTxLocks (env.getHash tx) = some lock ∧ lock.nBlockHeight = nBlockHeight
    ∧ instantxSignaturesRequired ≤ lock.countSignatures
    ∧ (∀ e ∈ before ++ after, VoteEvent.isGenuine env nBlockHeight (env.getHash tx) e →
        ∃ vote ∈ lock.vecConsensusVotes, vote.vinMasternode.prevout = e.2.vinMasternode.prevout
          ∧ vote.nBlockHeight = nBlockHeight)
    ∧ (lock.vecConsensusVotes.map fun vote => vote.vinMasternode.prevout).Nodup
  locked : ∀ txin ∈ tx.vin, s.mapLockedInputs txin.prevout = some (env.getHash tx)

/-- For every genuine vote a genuine vote of its masternode is tried, and an accepted vote on the transaction
    is tried when the request is there. -/
structure WellOrdered : Prop where
  unshadowed : ∀ e ∈ before ++ after, VoteEvent.isGenuine env nBlockHeight (env.getHash tx) e →
    ∃ e' ∈ triedBefore before ++ triedAfter env before after ext tx nBlockHeight,
      VoteEvent.isGenuine env nBlockHeight (env.getHash tx) e'
        ∧ e'.2.vinMasternode.prevout = e.2.vinMasternode.prevout
  late : ∃ e ∈ triedAfter env before after ext tx nBlockHeight, VoteEvent.isFor env (env.getHash tx) e

end Collection

/-!
## Locks at different nodes

All nodes run the same code, each on its own maps. A masternode votes on a request when the memory pool of its
own node takes the transaction, and the votes reach the nodes in any order, more than once or not at all.
-/

/-- The votes are of one masternode, on one transaction and for one height. -/
def CConsensusVote.sameVote (vote vote' : CConsensusVote) : Prop :=
  vote.vinMasternode.prevout = vote'.vinMasternode.prevout ∧ vote.txHash = vote'.txHash
    ∧ vote.nBlockHeight = vote'.nBlockHeight

/-- The two transactions spend an output in common. -/
def CTransaction.sharesInput (tx tx' : CTransaction) : Prop :=
  ∃ txin ∈ tx.vin, ∃ txin' ∈ tx'.vin, txin.prevout = txin'.prevout

/-- The maps of the nodes, and the votes that masternodes have cast. -/
structure LockNetwork (N : Type) where
  node : N → InstantX
  cast : List CConsensusVote

/-- The votes that a node relays with a request are its own. -/
def castVotes : InstantXMessage → List CInv → InstantX → List CConsensusVote
  | .txlvote _, _, _ => []
  | .txlreq _, invs, s =>
    invs.filterMap fun inv =>
      match inv with
      | .txLockRequest _ => none
      | .txLockVote hash => s.mapTxLockVote hash

/-- The lock of a transaction has the signatures that it needs. -/
def InstantX.lockComplete (s : InstantX) (h : UInt256) : Prop :=
  ∃ lock, s.mapTxLocks h = some lock ∧ instantxSignaturesRequired ≤ lock.countSignatures

section Nodes

variable {N : Type} [DecidableEq N] (env : InstantXEnv) (owner : COutPoint → N)

/-- What is sent when the masternodes that rank highest are honest: each of them is run by one node, its votes
    are signed there only, and the memory pool of this node never takes two transactions that spend the same
    output. -/
structure HonestEvent (net : LockNetwork N) (i : N) (event : InstantXEvent) : Prop where
  active : event.1.fMasterNode = true → owner event.1.activeMasternode.prevout = i
  mempool : ∀ tx, event.2 = .txlreq tx → event.1.acceptToMemoryPool tx = true →
    ∀ h tx', (net.node i).mapTxLockReq h = some tx' → ¬ tx.sharesInput tx'
  genuine : ∀ vote, event.2 = .txlvote vote → voteAccepted env event.1 vote = true →
    ∃ cast ∈ net.cast, cast.sameVote vote

/-- The networks reached from empty maps by messages to any of the nodes. -/
inductive LockNetworkRun : LockNetwork N → Prop
  | start : LockNetworkRun ⟨fun _ => .empty, []⟩
  | receive {net : LockNetwork N} {i : N} {event : InstantXEvent} {invs : List CInv} {s : InstantX} :
      LockNetworkRun net → HonestEvent env owner net i event →
      processMessageInstantX env event.1 event.2 (net.node i) = (.ok invs, s) →
      LockNetworkRun ⟨Function.update net.node i s, net.cast ++ castVotes event.2 invs s⟩

/-- The masternode has voted for the transaction, which the memory pool of its node has taken. -/
def LockNetwork.votedFor (net : LockNetwork N) (tx : CTransaction) (masternode : COutPoint) : Prop :=
  (∃ vote ∈ net.cast, vote.vinMasternode.prevout = masternode ∧ vote.txHash = env.getHash tx)
    ∧ (net.node (owner masternode)).mapTxLockReq (env.getHash tx) = some tx

/-- Masternodes enough for a lock have voted for one transaction, and as many others for the other one. -/
def LockNetwork.split (net : LockNetwork N) (tx tx' : CTransaction) : Prop :=
  ∃ voters voters' : List COutPoint, (voters ++ voters').Nodup
    ∧ instantxSignaturesRequired ≤ voters.length ∧ instantxSignaturesRequired ≤ voters'.length
    ∧ (∀ masternode ∈ voters, net.votedFor env owner tx masternode)
    ∧ ∀ masternode ∈ voters', net.votedFor env owner tx' masternode

end Nodes

/-!
## The height of a lock

`CreateNewLock` computes the height from the age that its loop over the inputs leaves, which is the age of the first
input.
-/

section LockHeight

variable (env : InstantXEnv) (ext : InstantXExt)

/-- The height of the block with the transaction that an input spends. -/
def inputHeight (vin : CTxIn) : Option Int :=
  (ext.getTransaction vin.prevout.hash).bind fun s => ext.blockHeight s.2

/-- Every input is in a block, which nine blocks or more have followed. -/
def InputsDeep (nBestHeight : Int) (vin : List CTxIn) : Prop :=
  ∀ txin ∈ vin, ∃ nHeight, inputHeight ext txin = some nHeight ∧ 9 ≤ nBestHeight - nHeight

/-- `CreateNewLock` returns a height above the blocks of all inputs. -/
def NewerThanInputs (tx : CTransaction) (s : InstantX) : Prop :=
  ∃ n s', createNewLock env ext tx s = (.ok n, s')
    ∧ ∀ txin ∈ tx.vin, ∀ nHeight, inputHeight ext txin = some nHeight → nHeight < n

/-- No input is in a block that is four or more above the block of the first input. -/
def NearFirstInput (vin : List CTxIn) : Prop :=
  ∀ first ∈ vin.head?, ∀ txin ∈ vin, ∀ nFirst nHeight, inputHeight ext first = some nFirst →
    inputHeight ext txin = some nHeight → nHeight < nFirst + 4

end LockHeight

end PupaCoin
