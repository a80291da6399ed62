import PupaCoin.Chain.AcceptBlock
import PupaCoin.Net.Download
import PupaCoin.Script.Encoding
import Mathlib.Data.List.Sort
import Mathlib.Data.Finset.Insert

/-!
# Receiving a block (`ProcessBlock`)

A block that comes from a peer, from the miner or from `submitblock`: it is checked, held back as an
orphan while its parent is not known, or accepted, in which case the orphans that waited for it are
accepted after it.
-/

namespace PupaCoin

/-- The stake of a block: the kernel and the time of its coinstake. -/
abbrev ProofOfStake := COutPoint × UInt32

/-- `COrphanBlock`. The serialized block is the block itself. -/
structure COrphanBlock where
  hashBlock : UInt256
  hashPrev : UInt256
  stake : ProofOfStake
  vchBlock : CBlock
deriving DecidableEq, Repr

/-- What `ProcessBlock` reads and writes. -/
structure Intake where
  node : Node
  peers : Downloads
  setStakeSeen : Finset ProofOfStake
  mapOrphanBlocks : UInt256 → Option COrphanBlock
  /-- In the order of the keys. -/
  mapOrphanBlocksByPrev : List (UInt256 × COrphanBlock)
  setStakeSeenOrphan : Finset ProofOfStake

/-- The settings that `ProcessBlock` reads. -/
structure IntakeSettings where
  fReindex : Bool
  fImporting : Bool
  /-- `-banscore`. -/
  banscore : Int
  /-- `-maxorphanblocks`. -/
  nMaxOrphanBlocks : Nat
  /-- `fDemiPeerRelay(pfrom->addrName)`. -/
  fDemiPeerRelay : NodeId → Bool

abbrev IntakeM := Exec Intake Stop

/-- A validation function, on the node. -/
def onNode {α : Type} (m : NodeM α) : IntakeM α := fun s =>
  let (r, node) := m s.node
  (r, { s with node })

def isCanonicalBlockSignature (block : CBlock) : Bool :=
  if block.isProofOfWork then block.vchBlockSig.isEmpty else isDERSignature block.vchBlockSig false

namespace Intake

/-- `mapOrphanBlocksByPrev.count(hash)` is not zero. -/
def waits (s : Intake) (hash : UInt256) : Bool := s.mapOrphanBlocksByPrev.any fun entry => entry.1 == hash

/-- The loop of `PruneOrphanBlocks`: from an orphan on to one that waits for it, while there is one. An
    orphan at a time, so more rounds than there are orphans go around in a cycle. -/
def lastSuccessor (byPrev : List (UInt256 × COrphanBlock)) :
    Nat → UInt256 × COrphanBlock → Option (UInt256 × COrphanBlock)
  | 0, _ => none
  | fuel + 1, it =>
    match byPrev.find? fun entry => entry.1 == it.2.hashBlock with
    | none => some it
    | some it2 => lastSuccessor byPrev fuel it2

def dropOrphan (s : Intake) (it : UInt256 × COrphanBlock) : Intake :=
  { s with
    setStakeSeenOrphan := s.setStakeSeenOrphan.erase it.2.stake
    mapOrphanBlocksByPrev := s.mapOrphanBlocksByPrev.erase it
    mapOrphanBlocks := Function.update s.mapOrphanBlocks it.2.hashBlock none }

/-- An orphan enters the three containers. Entries of one key stay in the order of their insertion. -/
def addOrphan (env : Env) (block : CBlock) (s : Intake) : Intake :=
  let pblock2 : COrphanBlock :=
    ⟨block.getHash env, block.hashPrevBlock, getProofOfStake block, block⟩
  { s with
    mapOrphanBlocks := Function.update s.mapOrphanBlocks pblock2.hashBlock (some pblock2)
    mapOrphanBlocksByPrev := s.mapOrphanBlocksByPrev.orderedInsert (fun a b => a.1 < b.1)
      (pblock2.hashPrev, pblock2)
    setStakeSeenOrphan := if block.isProofOfStake then insert (getProofOfStake block) s.setStakeSeenOrphan
      else s.setStakeSeenOrphan }

end Intake

/-- `PruneOrphanBlocks`, with the value of `insecure_rand()`. -/
def pruneOrphanBlocks (nMaxOrphanBlocks rand : Nat) : IntakeM Unit := do
  let s ← Exec.read
  let byPrev := s.mapOrphanBlocksByPrev
  if byPrev.length ≤ nMaxOrphanBlocks then return ()
  else
    let it ← Exec.lift (orUndefined (byPrev[rand % byPrev.length]?.bind
      (Intake.lastSuccessor byPrev byPrev.length)) "PruneOrphanBlocks() : the loop does not end")
    Exec.update fun s => s.dropOrphan it

/-- The part of `ProcessBlock` for a block whose parent is not known, sent by a peer. -/
def holdOrphan (env : Env) (settings : IntakeSettings) (rand : Nat) (block : CBlock) : IntakeM Unit := do
  let s ← Exec.read
  Exec.lift (rejectIf (block.isProofOfStake && decide (getProofOfStake block ∈ s.setStakeSeenOrphan)
    && !s.waits (block.getHash env)) 0 "ProcessBlock() : duplicate proof-of-stake for orphan block")
  pruneOrphanBlocks settings.nMaxOrphanBlocks rand
  Exec.update (Intake.addOrphan env block)

/-- `AcceptBlock`, with the stakes that `AddToBlockIndex` has seen. -/
def acceptInto (env : Env) (block : CBlock) : IntakeM Unit := fun s =>
  let (r, node) := block.acceptBlock env s.node
  let entered := (s.node.mapBlockIndex.entries (block.getHash env)).isNone
    && (node.mapBlockIndex.entries (block.getHash env)).isSome
  (r, { s with
    node
    setStakeSeen := if entered && block.isProofOfStake then insert (getProofOfStake block) s.setStakeSeen
      else s.setStakeSeen })

/-- An orphan whose parent was accepted: it is offered to `AcceptBlock` and leaves the pool, but for its
    entry by parent. When it was accepted too, its hash is queued. -/
def connectOrphan (env : Env) (vWorkQueue : List UInt256) (mi : UInt256 × COrphanBlock) :
    IntakeM (List UInt256) := fun s =>
  match acceptInto env mi.2.vchBlock s with
  | (.error (.exception what), s) => (.error (.exception what), s)
  | (.error (.undefined what), s) => (.error (.undefined what), s)
  | (r, s) =>
    (.ok (if r = .ok () then vWorkQueue ++ [mi.2.hashBlock] else vWorkQueue), { s with
        mapOrphanBlocks := Function.update s.mapOrphanBlocks mi.2.hashBlock none
        setStakeSeenOrphan := s.setStakeSeenOrphan.erase (getProofOfStake mi.2.vchBlock) })

/-- One round of the loop over `vWorkQueue`: the orphans that wait for `hashPrev`. -/
def connectWaiting (env : Env) (hashPrev : UInt256) (vWorkQueue : List UInt256) : IntakeM (List UInt256) := do
  let s ← Exec.read
  let vWorkQueue ← (s.mapOrphanBlocksByPrev.filter fun entry => entry.1 == hashPrev).foldlM
    (connectOrphan env) vWorkQueue
  Exec.update fun s => { s with
    mapOrphanBlocksByPrev := s.mapOrphanBlocksByPrev.filter fun entry => entry.1 != hashPrev }
  return vWorkQueue

/-- The loop over `vWorkQueue` from index `i` on, for at most `fuel` rounds: whether it has ended, and the
    queue. -/
def connectOrphans (env : Env) : Nat → Nat → List UInt256 → IntakeM (Bool × List UInt256)
  | 0, i, vWorkQueue => pure (decide (vWorkQueue.length ≤ i), vWorkQueue)
  | fuel + 1, i, vWorkQueue =>
    match vWorkQueue[i]? with
    | none => pure (true, vWorkQueue)
    | some hashPrev => do
      let vWorkQueue ← connectWaiting env hashPrev vWorkQueue
      connectOrphans env fuel (i + 1) vWorkQueue

/-- The part of `ProcessBlock` from `AcceptBlock` on, up to the Velocity check: the hashes of the blocks
    that were accepted. Every orphan is taken out of the pool once, which bounds the rounds. -/
def acceptWithOrphans (env : Env) (block : CBlock) : IntakeM (List UInt256) := do
  acceptInto env block
  let s ← Exec.read
  let (ended, vWorkQueue) ← connectOrphans env (s.mapOrphanBlocksByPrev.length + 1) 0 [block.getHash env]
  if ended then return vWorkQueue
  else Exec.stop (.undefined "ProcessBlock() : the loop does not end")

/-- The Velocity check on a block that has been accepted: whether it passed. -/
def velocityAccepted (env : Env) (block : CBlock) : NodeM Bool := do
  let pindex ← deref (block.getHash env)
  let limited ← velocityCheck env pindex.nHeight
  if limited then
    let hprev ← Exec.lift (orUndefined pindex.pprev "mapBlockIndex[hash]->pprev")
    onReject (do velocity env hprev block true; pure true) (pure false)
  else return true

def punish (settings : IntakeSettings) (peer : NodeId) (howmuch : Int) : IntakeM Unit :=
  Exec.update fun s => { s with peers := Downloads.misbehaving settings.banscore peer howmuch s.peers }

/-- `if (pfrom) Misbehaving(...)`. -/
def punishPeer (settings : IntakeSettings) (pfrom : Option NodeId) (howmuch : Int) : IntakeM Unit :=
  match pfrom with
  | some peer => punish settings peer howmuch
  | none => pure ()

/-- A block that does not build on the best one must not be older than the synchronized checkpoint. -/
def checkAgainstCheckpoint (settings : IntakeSettings) (pfrom : Option NodeId) (block : CBlock) : IntakeM Unit := do
  let s ← Exec.read
  if block.hashPrevBlock ≠ s.node.hashBestChain then
    let pcheckpoint ← Exec.lift (autoSelectSyncCheckpoint s.node)
    if block.getBlockTime - pcheckpoint.getBlockTime < 0 then
      punishPeer settings pfrom 1
      Exec.stop (.reject 0 "ProcessBlock() : block with timestamp before last checkpoint")

/-- The part of `ProcessBlock` in front of the test for orphans. -/
def precheckBlock (env : Env) (settings : IntakeSettings) (pfrom : Option NodeId) (block : CBlock) :
    IntakeM Unit := do
  let s ← Exec.read
  let hash := block.getHash env
  Exec.lift (rejectIf (s.node.mapBlockIndex.entries hash).isSome 0
    "ProcessBlock() : already have block")
  Exec.lift (rejectIf (s.mapOrphanBlocks hash).isSome 0
    "ProcessBlock() : already have block (orphan)")
  Exec.lift (rejectIf (!settings.fReindex && !settings.fImporting && block.isProofOfStake
    && decide (getProofOfStake block ∈ s.setStakeSeen) && !s.waits hash) 0
    "ProcessBlock() : duplicate proof-of-stake")
  checkAgainstCheckpoint settings pfrom block
  Exec.lift (rejectIf (!isCanonicalBlockSignature block) 0
    "ProcessBlock(): bad block signature encoding")
  onNode (block.checkBlock env true true true)
  match pfrom with
  | some peer => Exec.update fun s => { s with
      node := { s.node with
        ext := { s.node.ext with fDemiPeerRelay := settings.fDemiPeerRelay peer } } }
  | none => pure ()

/-- How a call of `ProcessBlock` stops: as validation does, or at a null `pfrom`. -/
inductive ProcessStop where
  | stop (why : Stop)
  | nullPeer
deriving DecidableEq, Repr

abbrev ProcessM := Exec Intake ProcessStop

/-- A part of `ProcessBlock` that does not look at `pfrom`. -/
def ofIntake {α : Type} (m : IntakeM α) : ProcessM α := fun s =>
  let (r, s) := m s
  (r.mapError .stop, s)

/-- The end of `ProcessBlock` for a block that did not pass the last Velocity check: its peer misbehaves.
    The code does not ask whether there is one. -/
def rejectAccepted (settings : IntakeSettings) (pfrom : Option NodeId) : ProcessM Unit :=
  match pfrom with
  | some peer => ofIntake do
    punish settings peer 25
    Exec.stop (.reject 0 "ProcessBlock() : Velocity rejected block, required parameters not met")
  | none => Exec.stop .nullPeer

/-- The part of `ProcessBlock` for a block whose parent is known. -/
def processAccepted (env : Env) (settings : IntakeSettings) (pfrom : Option NodeId) (block : CBlock) :
    ProcessM Unit := do
  let _ ← ofIntake (acceptWithOrphans env block)
  let passed ← ofIntake (onNode (velocityAccepted env block))
  if passed then return () else rejectAccepted settings pfrom

/-- `ProcessBlock`: a null `pfrom` is `none`. -/
def processBlock (env : Env) (settings : IntakeSettings) (rand : Nat) (pfrom : Option NodeId)
    (block : CBlock) : ProcessM Unit := do
  ofIntake (precheckBlock env settings pfrom block)
  let s ← Exec.read
  if (s.node.mapBlockIndex.entries block.hashPrevBlock).isNone then
    match pfrom with
    | some _ => ofIntake (holdOrphan env settings rand block)
    | none => pure ()
  else processAccepted env settings pfrom block

end PupaCoin
