import PupaCoin.Lib.While
import PupaCoin.Net.InstantX

/-!
# The upkeep of the locks (`instantx.cpp`)

`CleanTransactionLocksList` goes through `mapTxLocks` and erases the locks that have expired. The steps of InstantX are
the messages, the search for conflicting locks and the cleaning, in any order.
-/

namespace PupaCoin

open While

/-- `std::map::erase`. -/
def mapErase {K V : Type} [DecidableEq K] (m : K → Option V) (key : K) : K → Option V :=
  Function.update m key none

/-- The keys of a `std::map`, in the order in which an iterator comes to them. -/
structure IsKeys {V : Type} (m : UInt256 → Option V) (keys : List UInt256) : Prop where
  sorted : keys.Pairwise (· < ·)
  mem_iff : ∀ k, k ∈ keys ↔ (m k).isSome = true

namespace InstantX

variable (s : InstantX)

/-- What is erased with a lock whose transaction is in `mapTxLockReq`. -/
def eraseRequest (lock : CTransactionLock) : InstantX :=
  match s.mapTxLockReq lock.txHash with
  | none => s
  | some tx =>
    { s with
      mapLockedInputs := tx.vin.foldl (fun locked txin => mapErase locked txin.prevout) s.mapLockedInputs
      mapTxLockReq := mapErase s.mapTxLockReq lock.txHash
      mapTxLockReqRejected := mapErase s.mapTxLockReqRejected lock.txHash
      mapTxLockVote := lock.vecConsensusVotes.foldl (fun votes v => mapErase votes v.getHash) s.mapTxLockVote }

/-- The body of the loop, at the entry `key`. -/
def cleanEntry (now : Int) (key : UInt256) : InstantX :=
  match s.mapTxLocks key with
  | none => s
  | some lock =>
    if now > lock.nExpiration then
      { s.eraseRequest lock with mapTxLocks := mapErase (s.eraseRequest lock).mapTxLocks key }
    else s

/-- There is a lock of the transaction, and it has expired. -/
def Expired (now : Int) (h : UInt256) : Prop :=
  ∃ lock, s.mapTxLocks h = some lock ∧ now > lock.nExpiration

end InstantX

/-- A round of the loop: `it` is what the iterator has still to come to. Only entries that it has passed are erased. -/
def cleanRound (now : Int) : List UInt256 × InstantX → Round (List UInt256 × InstantX) InstantX
  | ([], s) => .done s
  | (key :: it, s) => .next (it, s.cleanEntry now key)

/-- `CleanTransactionLocksList` returns and leaves the state `s'`. -/
def CleansLocks (ext : InstantXExt) (s s' : InstantX) : Prop :=
  if ext.pindexBest = none then s' = s
  else ∃ keys, IsKeys s.mapTxLocks keys ∧ While.Returns (cleanRound ext.getTime) (keys, s) s'

/-- A step of InstantX and what the node is like. -/
inductive InstantXStep where
  | message (ext : InstantXExt) (m : InstantXMessage)
  | checkConflicts (ext : InstantXExt) (tx : CTransaction)
  | cleanLocks (ext : InstantXExt)

section Steps

variable (env : InstantXEnv)

def InstantXStep.Returns : InstantXStep → InstantX → InstantX → Prop
  | .message ext m, s, s' => ∃ invs, processMessageInstantX env ext m s = (.ok invs, s')
  | .checkConflicts ext tx, s, s' => ∃ conflict, checkForConflictingLocks env ext tx s = (.ok conflict, s')
  | .cleanLocks ext, s, s' => CleansLocks ext s s'

/-- The states reached from empty maps by steps that come to their end. -/
inductive InstantXReachable : InstantX → Prop
  | start : InstantXReachable .empty
  | step {s s' : InstantX} (step : InstantXStep) : InstantXReachable s → step.Returns env s s' → InstantXReachable s'

/-- `DisconnectBlock` is called with the index that has not been given a value. -/
def uninitializedBlock : Stop := .undefined "DisconnectBlock of an uninitialized pindex"

def InstantXStep.UsesUninitializedBlock : InstantXStep → InstantX → Prop
  | .message ext m, s => (processMessageInstantX env ext m s).1 = .error uninitializedBlock
  | .checkConflicts ext tx, s => (checkForConflictingLocks env ext tx s).1 = .error uninitializedBlock
  | .cleanLocks _, _ => False

/-- Every request is stored under the hash of its transaction. -/
def InstantX.RequestsKeyed (s : InstantX) : Prop :=
  ∀ h tx, s.mapTxLockReq h = some tx → env.getHash tx = h

/-- The lock has votes enough at its height. -/
def CTransactionLock.IsComplete (lock : CTransactionLock) : Prop :=
  instantxSignaturesRequired ≤ lock.countSignatures

/-- The lock of a request once `CreateNewLock` has given it the height. -/
def InstantX.lockAt (s : InstantX) (now : Int) (hash : UInt256) : Option Int → Option CTransactionLock
  | none => s.mapTxLocks hash
  | some nBlockHeight => (s.setLockHeight now hash nBlockHeight).mapTxLocks hash

/-- A new request that the memory pool refuses, though its lock is complete; and none of its inputs is locked for
another transaction. -/
def RefusesCompleteLock (ext : InstantXExt) (tx : CTransaction) (s : InstantX) : Prop :=
  s.known (env.getHash tx) = false ∧ requestValid ext tx = .ok true ∧ ext.acceptToMemoryPool tx = false
    ∧ s.conflictingLock (env.getHash tx) tx = none
    ∧ ∃ height lock, newLockHeight ext tx = .ok height ∧ s.lockAt ext.getTime (env.getHash tx) height = some lock
      ∧ lock.IsComplete

/-- A new vote that is accepted completes the lock of a request that has been refused. -/
def CompletesRefusedLock (ext : InstantXExt) (vote : CConsensusVote) (s : InstantX) : Prop :=
  s.mapTxLockVote vote.getHash = none ∧ voteAccepted env ext vote = true
    ∧ s.mapTxLockReqRejected vote.txHash ≠ none ∧ ((s.lockOf ext.getTime vote.txHash).addSignature vote).IsComplete

/-- The step finds that the blocks have to be processed again. -/
def InstantXStep.FindsRefusedLock : InstantXStep → InstantX → Prop
  | .message ext (.txlreq tx), s =>
    (ext.fLiteMode || !ext.fInstantX || !ext.fBlockchainSynced) = false ∧ RefusesCompleteLock env ext tx s
  | .message ext (.txlvote vote), s =>
    (ext.fLiteMode || !ext.fInstantX || !ext.fBlockchainSynced) = false ∧ CompletesRefusedLock env ext vote s
  | _, _ => False

end Steps

/-- `CleanTransactionLocksList` returns; then the locks that have expired are gone, and no others; so are the inputs locked
for their transactions; and an input locked for a transaction whose lock remains stays locked. -/
structure CleansExpired (ext : InstantXExt) (s : InstantX) : Prop where
  returns : ∃ s', CleansLocks ext s s'
  locks : ∀ s', CleansLocks ext s s' → ∀ h lock,
    s'.mapTxLocks h = some lock ↔ s.mapTxLocks h = some lock ∧ ¬ s.Expired ext.getTime h
  inputs : ∀ s', CleansLocks ext s s' → ∀ o h,
    s.mapLockedInputs o = some h → s.Expired ext.getTime h → s'.mapLockedInputs o = none
  kept : ∀ s', CleansLocks ext s s' → ∀ o h,
    s.mapLockedInputs o = some h → (s'.mapTxLocks h).isSome = true → s'.mapLockedInputs o = some h

/-- The input belongs to an accepted request whose lock has expired. -/
def InstantX.ReleasedBy (s : InstantX) (now : Int) (o : COutPoint) : Prop :=
  ∃ h tx, s.mapTxLockReq h = some tx ∧ s.Expired now h ∧ ∃ txin ∈ tx.vin, txin.prevout = o

/-- There is a best block, or no lock has expired; an input that a refused request has locked belongs also to an accepted
one whose lock expires, if its own does; and the inputs of an accepted request whose lock expires are not locked for a
transaction whose lock remains. -/
structure OwnInputs (ext : InstantXExt) (s : InstantX) : Prop where
  best : ext.pindexBest = none → ∀ h, ¬ s.Expired ext.getTime h
  refused : ∀ o h, s.mapLockedInputs o = some h → (s.mapTxLockReqRejected h).isSome = true →
    s.Expired ext.getTime h → s.ReleasedBy ext.getTime o
  shared : ∀ o h, s.mapLockedInputs o = some h → s.ReleasedBy ext.getTime o → (s.mapTxLocks h).isSome = true →
    s.Expired ext.getTime h

/-- The locks are stored under the hashes of their transactions. -/
def InstantX.LocksKeyed (s : InstantX) : Prop := ∀ k lock, s.mapTxLocks k = some lock → lock.txHash = k

end PupaCoin
