import PupaCoin.Chain.Kernel
import PupaCoin.Chain.Retarget
import PupaCoin.Chain.SetBestChain

/-!
# Accepting a block (`AcceptBlock`, `AddToBlockIndex`)

The checks of a block against its place in the tree, its storage on disk, and its entry into the block
index, which makes it the best block when its chain has more trust.
-/

namespace PupaCoin

/-- `SetStakeEntropyBit` and `SetStakeModifier` on the flags. -/
def indexFlags (fProofOfStake : Bool) (nEntropyBit : Bool) (fGeneratedStakeModifier : Bool) : UInt32 :=
  (if fProofOfStake then CBlockIndex.blockProofOfStake else 0)
    ||| (if nEntropyBit then CBlockIndex.blockStakeEntropy else 0)
    ||| (if fGeneratedStakeModifier then CBlockIndex.blockStakeModifier else 0)

/-- The hash that enters the stake modifier: the kernel's transaction, or the block. -/
def modifierKernel (env : Env) (block : CBlock) : UInt256 :=
  if block.isProofOfWork then block.getHash env
  else ((block.vtx[1]?.bind fun tx => tx.vin.head?).map fun txin => txin.prevout.hash).getD 0

/-- The coinstake's kernel and time (`GetProofOfStake`). -/
def getProofOfStake (block : CBlock) : COutPoint × UInt32 :=
  if block.isProofOfStake then
    match block.vtx[1]? with
    | some tx => ((tx.vin.head?.map CTxIn.prevout).getD .null, tx.nTime)
    | none => (.null, 0)
  else (.null, 0)

/-- The entry that `AddToBlockIndex` builds for a block on top of `pprev`. -/
def newBlockIndex (env : Env) (pprev : Option CBlockIndex) (nFile nBlockPos : UInt32) (block : CBlock)
    (hashProof : UInt256) (modifier : UInt64 × Bool) : CBlockIndex where
  phashBlock := block.getHash env
  pprev := pprev.map CBlockIndex.phashBlock
  pnext := none
  nFile := nFile
  nBlockPos := nBlockPos
  nChainTrust := (pprev.map CBlockIndex.nChainTrust).getD 0 + CBlockIndex.blockTrust block.nBits
  nHeight := (pprev.map fun prev => prev.nHeight + 1).getD 0
  nMint := 0
  nMoneySupply := 0
  nFlags := indexFlags block.isProofOfStake ((block.getHash env).getLsbD 0) modifier.2
  nStakeModifier := modifier.1
  bnStakeModifierV2 := match pprev with
    | none => 0
    | some prev => env.hashModifier (modifierKernel env block) prev.bnStakeModifierV2
  prevoutStake := (getProofOfStake block).1
  nStakeTime := (getProofOfStake block).2
  hashProof := hashProof
  nVersion := block.nVersion
  hashMerkleRoot := block.hashMerkleRoot
  nTime := block.nTime
  nBits := block.nBits
  nNonce := block.nNonce

namespace BlockTree

/-- A new entry: its hash is not known yet, and it fits on top of its parent. -/
def insert (t : BlockTree) (e : CBlockIndex) (hroot : e.pprev = none → e.nHeight = 0)
    (hprev : ∀ p, e.pprev = some p → ∃ f, t.entries p = some f ∧ e.nHeight = f.nHeight + 1)
    (hnew : t.entries e.phashBlock = none) : BlockTree where
  entries := Function.update t.entries e.phashBlock (some e)
  hash_eq := by
    intro h f hf
    by_cases hh : h = e.phashBlock
    · subst hh
      have : e = f := by simpa using hf
      rw [← this]
    · exact t.hash_eq (by simpa [hh] using hf)
  root_height := by
    intro h f hf hp
    by_cases hh : h = e.phashBlock
    · subst hh
      have : e = f := by simpa using hf
      subst this
      exact hroot hp
    · exact t.root_height (by simpa [hh] using hf) hp
  prev_height := by
    intro h f p hf hp
    have hold : ∃ g, t.entries p = some g ∧ f.nHeight = g.nHeight + 1 := by
      by_cases hh : h = e.phashBlock
      · subst hh
        have : e = f := by simpa using hf
        subst this
        exact hprev p hp
      · exact t.prev_height (h := h) (by simpa [hh] using hf) hp
    obtain ⟨g, hg, hheight⟩ := hold
    have hne : p ≠ e.phashBlock := by
      rintro rfl
      rw [hnew] at hg
      cases hg
    exact ⟨g, by simpa [hne] using hg, hheight⟩

/-- The tree with a block added on top of the entry of its `hashPrevBlock`, if there is one. -/
def addBlock (t : BlockTree) (env : Env) (nFile nBlockPos : UInt32) (block : CBlock)
    (hashProof : UInt256) (modifier : UInt64 × Bool) (hnew : t.entries (block.getHash env) = none) : BlockTree :=
  t.insert (newBlockIndex env (t.entries block.hashPrevBlock) nFile nBlockPos block hashProof modifier)
    (by
      intro h
      cases he : t.entries block.hashPrevBlock with
      | none => rfl
      | some f => simp [newBlockIndex, he] at h)
    (by
      intro p h
      cases he : t.entries block.hashPrevBlock with
      | none => simp [newBlockIndex, he] at h
      | some f =>
        have hp : f.phashBlock = p := by simpa [newBlockIndex, he] using h
        rw [t.hash_eq he] at hp
        exact ⟨f, by rw [← hp, he], rfl⟩)
    hnew

end BlockTree

/-- A `CTxDB` that lives as long as `m` runs: its batch does not survive it. -/
def withTxDB {α : Type} (m : NodeM α) : NodeM α := fun n =>
  let (r, n') := m n
  (r, { n' with activeBatch := none })

/-- The record of a new entry, in a database transaction of its own. -/
def storeBlockIndex (env : Env) (h : UInt256) : NodeM Unit := do
  let pindexNew ← deref h
  txnBegin
  writeBlockIndex env (.ofIndex pindexNew)
  txnCommit ""

/-- The part of `AddToBlockIndex` behind `mapBlockIndex.insert`: the new entry is stored, and its block
    becomes the best one if its chain has more trust. -/
def activateBlock (env : Env) (block : CBlock) : NodeM (List CBlockIndex) := do
  storeBlockIndex env (block.getHash env)
  let pindexNew ← deref (block.getHash env)
  let n ← Exec.read
  if pindexNew.nChainTrust > n.nBestChainTrust then setBestChain env block (block.getHash env)
  else return []

/-- `AddToBlockIndex`, with the blocks that `SetBestChain` gave up on. -/
def addToBlockIndex (env : Env) (block : CBlock) (nFile nBlockPos : UInt32) (hashProof : UInt256) :
    NodeM (List CBlockIndex) := fun n =>
  if hnew : n.mapBlockIndex.entries (block.getHash env) = none then
    match env.computeNextStakeModifier (n.mapBlockIndex.chain block.hashPrevBlock) with
    | none => (.error (.reject 0 "AddToBlockIndex() : ComputeNextStakeModifier() failed"), n)
    | some modifier =>
      let tree := n.mapBlockIndex.addBlock env nFile nBlockPos block hashProof modifier hnew
      withTxDB (activateBlock env block) { n with mapBlockIndex := tree }
  else (.error (.reject 0 "AddToBlockIndex() : already exists"), n)

def checkHardened (params : CChainParams) (nHeight : Int) (hash : UInt256) : Bool :=
  if nHeight = 0 ∧ ¬ params.testNet then hash == params.hashGenesisBlock
  else
    match params.mapCheckpoints.lookup nHeight with
    | none => true
    | some checkpoint => hash == checkpoint

/-- The loop of `AutoSelectSyncCheckpoint`. -/
def walkToSyncCheckpoint (nBestHeight : Nat) : List CBlockIndex → List CBlockIndex
  | pindex :: pprev :: rest =>
    if (pindex.nHeight : Int) + (blockTempCheckpointDepth + 500) > nBestHeight then
      walkToSyncCheckpoint nBestHeight (pprev :: rest)
    else pindex :: pprev :: rest
  | chain => chain

def autoSelectSyncCheckpoint (n : Node) : Except Stop CBlockIndex := do
  let chain := n.mapBlockIndex.chain? n.pindexBest
  let pindexBest ← orUndefined chain.head? "pindexBest"
  if pindexBest.nHeight < 1 then return pindexBest
  else if pindexBest.nHeight < 500 then orUndefined chain.tail.head? "pindex->pprev"
  else orUndefined (walkToSyncCheckpoint pindexBest.nHeight chain).head? "pindex"

def checkSync (n : Node) (nHeight : Int) : Except Stop Bool := do
  let pindexSync ← autoSelectSyncCheckpoint n
  return !decide (nHeight ≤ pindexSync.nHeight)

namespace CBlock

def checkKindAtHeight (params : CChainParams) (block : CBlock) (nHeight : Int) : Except Stop Unit := do
  rejectIf (block.isProofOfWork && decide (nHeight > params.nEndPoWBlock)) 100
    "AcceptBlock() : reject proof-of-work at height"
  rejectIf (block.isProofOfWork && decide (nHeight > 50000) && decide (nHeight < 52000)) 100
    "AcceptBlock() : reject proof-of-work during net upgrade for block"
  rejectIf (block.isProofOfStake && decide (nHeight < params.nStartPoSBlock)) 100
    "AcceptBlock() : reject proof-of-stake at height"

/-- The times of the coinbase and the coinstake of a proof-of-stake block. -/
def checkStakeTimes (block : CBlock) : Except Stop Unit := do
  let coinbase ← orUndefined block.vtx[0]? "vtx[0]"
  rejectIf (decide (block.getBlockTime > futureDrift coinbase.nTime.toNat) && block.isProofOfStake) 50
    "AcceptBlock() : coinbase timestamp is too early"
  if block.isProofOfStake then
    let coinstake ← orUndefined block.vtx[1]? "vtx[1]"
    rejectIf (!checkCoinStakeTimestamp block.getBlockTime coinstake.nTime.toNat) 50
      "AcceptBlock() : coinstake timestamp violation"

/-- The target of a block is the one that its previous block requires. -/
def checkTarget (env : Env) (n : Node) (block : CBlock) (pindexPrev : List CBlockIndex) : Except Stop Unit := do
  let nBits ← getNextTargetRequired env.params n pindexPrev block.isProofOfStake
  rejectIf (block.nBits != nBits) 100 "AcceptBlock() : incorrect proof-of-work or proof-of-stake"

/-- The proof hash of a block: for proof of work the hash, for proof of stake that of the kernel. -/
def proofHash (env : Env) (n : Node) (block : CBlock) (pindexPrev : List CBlockIndex) : Except Stop UInt256 :=
  if block.isProofOfStake then do
    let coinstake ← orUndefined block.vtx[1]? "vtx[1]"
    checkProofOfStake env n pindexPrev coinstake block.nBits
  else .ok (block.getHash env)

def checkCoinbaseHeight (block : CBlock) (nHeight : Int) : Except Stop Unit := do
  let coinbase ← orUndefined block.vtx[0]? "vtx[0]"
  let txin ← orUndefined coinbase.vin[0]? "vin[0]"
  rejectIf (!(CScript.pushInt64 nHeight).isPrefixOf txin.scriptSig) 100
    "AcceptBlock() : block height mismatch in coinbase"

/-- The checks of `AcceptBlock` behind the Velocity check, in the order of the source: the proof
    hash. -/
def checkContext (env : Env) (n : Node) (block : CBlock) (pindexPrev : List CBlockIndex) : Except Stop UInt256 := do
  let prev ← orUndefined pindexPrev.head? "pindexPrev"
  let nHeight : Int := prev.nHeight + 1
  block.checkKindAtHeight env.params nHeight
  block.checkStakeTimes
  block.checkTarget env n pindexPrev
  rejectIf (decide (block.getBlockTime ≤ prev.getPastTimeLimit)
    || decide (futureDrift block.getBlockTime < prev.getBlockTime)) 0
    "AcceptBlock() : block's timestamp is too early"
  rejectIf (!block.vtx.all fun tx =>
    tx.isFinalTx n.nBestHeight n.ext.getAdjustedTime nHeight block.getBlockTime) 10
    "AcceptBlock() : contains a non-final transaction"
  rejectIf (!checkHardened env.params nHeight (block.getHash env)) 100
    "AcceptBlock() : rejected by hardened checkpoint lock-in"
  let hashProof ← block.proofHash env n pindexPrev
  let inSync ← checkSync n nHeight
  rejectIf (!inSync) 0 "AcceptBlock() : rejected by synchronized checkpoint"
  block.checkCoinbaseHeight nHeight
  return hashProof

/-- The positions of the transactions of a block that starts at `nTxPos`. -/
def txPositions : UInt32 → List CTransaction → List (UInt32 × CTransaction)
  | _, [] => []
  | nTxPos, tx :: vtx => (nTxPos, tx) :: txPositions (nTxPos + UInt32.ofNat tx.serializeSize) vtx

def writeFiles (files : BlockFiles) (block : CBlock) (nFile nBlockPos : UInt32) : BlockFiles where
  readBlock f p := if f = nFile ∧ p = nBlockPos then some block else files.readBlock f p
  readHeader f p :=
    if f = nFile ∧ p = nBlockPos then some block.toCBlockHeader else files.readHeader f p
  readTx f p :=
    match f == nFile, (txPositions (nBlockPos + 80
      + UInt32.ofNat (getSizeOfCompactSize block.vtx.length)) block.vtx).lookup p with
    | true, some tx => some tx
    | _, _ => files.readTx f p

/-- `CheckDiskSpace` and `WriteToDisk`: where the block was written. -/
def writeToDisk (block : CBlock) : NodeM (UInt32 × UInt32) := do
  let n ← Exec.read
  Exec.lift (rejectIf (decide (n.ext.nFreeBytesAvailable < 52428800 + block.serializeSize)) 0
    "AcceptBlock() : out of disk space")
  match n.ext.appendPos with
  | none => Exec.stop (.reject 0 "AcceptBlock() : WriteToDisk failed")
  | some (nFile, nBlockPos) =>
    Exec.update fun n => { n with files := writeFiles n.files block nFile nBlockPos }
    return (nFile, nBlockPos)

/-- The Velocity check of `AcceptBlock`. -/
def limitVelocity (env : Env) (block : CBlock) (nHeight : Int) : NodeM Unit := do
  let limited ← velocityCheck env nHeight
  if limited then
    onReject (velocity env block.hashPrevBlock block false)
      (Exec.stop (.reject 100 "AcceptBlock() : Velocity rejected block"))
  else pure ()

/-- The last part of `AcceptBlock`: the block is written to disk and entered into the block index. -/
def storeBlock (env : Env) (block : CBlock) (nHeight : Int) (hashProof : UInt256) : NodeM Unit := do
  let pos ← writeToDisk block
  let _ ← onReject (addToBlockIndex env block pos.1 pos.2 hashProof)
    (Exec.stop (.reject 0 "AcceptBlock() : AddToBlockIndex failed"))
  let fRollingCheckpoint ← rollingCheckpoints nHeight
  Exec.update fun n => { n with fRollingCheckpoint }

def acceptBlock (env : Env) (block : CBlock) : NodeM Unit := do
  let n ← Exec.read
  Exec.lift (rejectIf (n.mapBlockIndex.entries (block.getHash env)).isSome 0
    "AcceptBlock() : block already in mapBlockIndex")
  match (n.mapBlockIndex.chain block.hashPrevBlock).head? with
  | none => Exec.stop (.reject 10 "AcceptBlock() : prev block not found")
  | some prev =>
    let nHeight : Int := prev.nHeight + 1
    Exec.lift (rejectIf (decide (block.nVersion < 7)) 100 "AcceptBlock() : reject too old nVersion")
    Exec.lift (rejectIf (decide (block.nVersion > 7)) 100 "AcceptBlock() : reject too new nVersion")
    block.limitVelocity env nHeight
    let n ← Exec.read
    let hashProof ← Exec.lift
      (block.checkContext env n (n.mapBlockIndex.chain block.hashPrevBlock))
    block.storeBlock env nHeight hashProof

end CBlock

end PupaCoin

/-!
## Where a stake comes from

The transaction that a proof-of-stake block stakes, the blocks that contain it, and the index of the
active chain that leads to it.
-/

namespace PupaCoin

/-- The hash of the transaction whose output is the kernel input of a block's coinstake. -/
def kernelHash (block : CBlock) : UInt256 := (getProofOfStake block).1.hash

/-- The block `h`, as the block files hold it, contains a transaction. -/
def ContainsTx (env : Env) (n : Node) (h txHash : UInt256) : Prop :=
  ∃ pindex block, n.mapBlockIndex.entries h = some pindex ∧
    n.files.readBlock pindex.nFile pindex.nBlockPos = some block ∧ ∃ tx ∈ block.vtx, env.getHash tx = txHash

def activePath (n : Node) : List UInt256 := (n.pindexBest.map n.mapBlockIndex.path).getD []

/-- The index entry of a transaction leads to the block `h`. -/
def LeadsTo (n : Node) (txindex : CTxIndex) (h : UInt256) : Prop :=
  ∃ pindex, n.mapBlockIndex.entries h = some pindex ∧ pindex.nFile = txindex.pos.nFile ∧
    pindex.nBlockPos = txindex.pos.nBlockPos

/-- The transaction index is the one of the active chain: its entries lead to the blocks of the active
    chain that contain the transactions, no two blocks of the active chain contain the same one, and no
    two blocks are stored at the same place. -/
structure ActiveIndex (env : Env) (n : Node) : Prop where
  located : ∀ txHash txindex, n.pdb.readTxIndex txHash = some txindex →
    ∃ h ∈ activePath n, LeadsTo n txindex h ∧ ContainsTx env n h txHash
  once : ∀ h ∈ activePath n, ∀ k ∈ activePath n, ∀ txHash,
    ContainsTx env n h txHash → ContainsTx env n k txHash → h = k
  placed : ∀ txindex h k, LeadsTo n txindex h → LeadsTo n txindex k → h = k

/-- The block `h` is an ancestor of a block with the parent `hprev`, at least `nStakeMinConfirmations`
    blocks below it, and contains the transaction. -/
def StakeableAncestor (env : Env) (n : Node) (hprev h txHash : UInt256) : Prop :=
  h ∈ n.mapBlockIndex.path hprev ∧ ContainsTx env n h txHash ∧
    (n.mapBlockIndex.nHeight h : Int) + nStakeMinConfirmations ≤ n.mapBlockIndex.nHeight hprev + 1

end PupaCoin
