import PupaCoin.Chain.ConnectBlock
import PupaCoin.Chain.Velocity

/-!
# Reorganisation (`Reorganize`)

`Reorganize` moves the best chain to a competing branch inside the open database transaction. Its part
before the first write to the database is `reorganizePlan`; the disconnects, the connects and the
changes in memory follow.
-/

namespace PupaCoin

/-- `CBlock::ReadFromDisk(pindex)`. -/
def readBlockFromDisk (env : Env) (n : Node) (pindex : CBlockIndex) : Option CBlock := do
  let block ← n.files.readBlock pindex.nFile pindex.nBlockPos
  if block.isProofOfWork && !checkProofOfWork env.params (block.getHash env) block.nBits then none
  else if block.getHash env ≠ pindex.phashBlock then none
  else some block

theorem readBlockFromDisk_eq_some {env : Env} {n : Node} {pindex : CBlockIndex} {block : CBlock} :
    readBlockFromDisk env n pindex = some block ↔ n.files.readBlock pindex.nFile pindex.nBlockPos = some block ∧
        (block.isProofOfWork && !checkProofOfWork env.params (block.getHash env) block.nBits) = false ∧
        block.getHash env = pindex.phashBlock := by
  unfold readBlockFromDisk
  cases n.files.readBlock pindex.nFile pindex.nBlockPos with
  | none => simp
  | some stored =>
    simp only [Option.bind_eq_bind, Option.bind_some, Option.some.injEq]
    constructor
    · intro h
      split at h
      · cases h
      · next hwork =>
        split at h
        · cases h
        · next hhash =>
          obtain rfl := Option.some.inj h
          exact ⟨rfl, Bool.eq_false_iff.mpr hwork, not_not.mp hhash⟩
    · rintro ⟨rfl, hwork, hhash⟩
      rw [if_neg (Bool.eq_false_iff.mp hwork), if_neg (not_not.mpr hhash)]

/-- The two branches of a reorganisation. -/
structure ReorganizePlan where
  /-- Blocks to disconnect, the tip first. -/
  vDisconnect : List CBlockIndex
  /-- Blocks to connect, the new tip last. -/
  vConnect : List CBlockIndex
  preorgmax : Int

/-- The depth check, on the heights of the two tips; `preorgmax` where it passes. -/
def checkReorganizeDepth (ext : Ext) (nHeightBest nHeightNew : Int) : Except Stop Int :=
  let pfinglonger := nHeightNew - nHeightBest
  let preorgmax := nHeightBest - blockReorgMaxDepth
  if pfinglonger > blockReorgMaxDepth then
    if ext.fDemiPeerRelay && ext.fDemiNodes then
      if pfinglonger > blockReorgThreshold then
        .error (.reject 0 "Reorganize() : Threshold depth exceeded")
      else .ok (preorgmax - blockReorgOverrideDepth)
    else .error (.reject 0 "Reorganize() : Maximum depth exceeded")
  else .ok preorgmax

/-- The walk of the chain quality check from the new tip: to the rolling block, or down to the rolling
    height. -/
def walkToCheckpoint (rollingBlock : UInt256) (rollingHeight : Int) : Int → List CBlockIndex → List CBlockIndex
  | _, [] => []
  | pheightlonger, plongerindex :: pprev =>
    if pheightlonger > rollingHeight ∧ plongerindex.phashBlock ≠ rollingBlock then
      walkToCheckpoint rollingBlock rollingHeight (pheightlonger - 1) pprev
    else plongerindex :: pprev

/-- The chain quality check: the new branch contains the rolling checkpoint. -/
def checkChainQuality (n : Node) (chainNew : List CBlockIndex) (nHeightNew : Int) : Except Stop Unit := do
  let plongerindex ← orUndefined
    (walkToCheckpoint n.rollingBlock n.rollingHeight nHeightNew chainNew).head? "plongerindex"
  rejectIf (plongerindex.phashBlock != n.rollingBlock) 0
    "Reorganize() : Chain quality failed, blockhash is invalid"

/-- The search for the fork from the chains of the two tips: the entry where they meet, and the number
    of rounds. -/
def findFork : List CBlockIndex → List CBlockIndex → Nat → Except Stop (CBlockIndex × Nat)
  | [], _, _ => .error (.reject 0 "Reorganize() : pfork->pprev is null")
  | _, [], _ => .error (.reject 0 "Reorganize() : plonger->pprev is null")
  | pfork :: pforks, plonger :: plongers, diffFactor =>
    if pfork.phashBlock = plonger.phashBlock then .ok (pfork, diffFactor)
    else
      match (plonger :: plongers).dropWhile fun pindex => pindex.nHeight > pfork.nHeight with
      | [] => .error (.reject 0 "Reorganize() : plonger->pprev is null")
      | plonger :: plongers =>
        if pfork.phashBlock = plonger.phashBlock then .ok (pfork, diffFactor + 1)
        else findFork pforks (plonger :: plongers) (diffFactor + 1)

def branchAbove (pfork : CBlockIndex) (chain : List CBlockIndex) : List CBlockIndex :=
  chain.takeWhile fun pindex => pindex.phashBlock ≠ pfork.phashBlock

/-- `Reorganize` up to the lists of blocks, from the state with the rolling checkpoint set. -/
def reorganizePlan (n : Node) (hNew : UInt256) (preorgmax : Int) : Except Stop ReorganizePlan := do
  let pindexNew ← orUndefined (n.mapBlockIndex.entries hNew) "pindexNew"
  let chainBest := n.mapBlockIndex.chain? n.pindexBest
  let chainNew := n.mapBlockIndex.chain hNew
  rejectIf (!n.fRollingCheckpoint) 0 "Reorganize() : Chain quality failed, blockheight is invalid"
  checkChainQuality n chainNew pindexNew.nHeight
  let (pfork, diffFactor) ← findFork chainBest chainNew 0
  rejectIf (!bIndexFactor pfork pindexNew diffFactor) 0 "Reorganize() : Invalid branch coin supply"
  return {
    vDisconnect := branchAbove pfork chainBest
    vConnect := (branchAbove pfork chainNew).reverse
    preorgmax }

/-- One round of the loop that disconnects: the transactions to resurrect, those of lower blocks
    first. -/
def disconnectBranchStep (env : Env) (preorgmax : Int) (vResurrect : List CTransaction)
    (pindex : CBlockIndex) : NodeM (List CTransaction) := do
  let n ← Exec.read
  match readBlockFromDisk env n pindex with
  | none => Exec.stop (.reject 0 "Reorganize() : ReadFromDisk for disconnect failed")
  | some block =>
    onReject (block.disconnectBlock env pindex.phashBlock)
      (Exec.stop (.reject 0 "Reorganize() : DisconnectBlock failed for block"))
    return (block.vtx.filter fun tx =>
      !(tx.isCoinBase || tx.isCoinStake) && decide ((pindex.nHeight : Int) > preorgmax)) ++ vResurrect

/-- One round of the loop that connects: the transactions to delete from the memory pool. -/
def connectBranchStep (env : Env) (vDelete : List CTransaction) (pindex : CBlockIndex) :
    NodeM (List CTransaction) := do
  let n ← Exec.read
  match readBlockFromDisk env n pindex with
  | none => Exec.stop (.reject 0 "Reorganize() : ReadFromDisk for connect failed")
  | some block =>
    onReject (block.connectBlock env pindex.phashBlock false)
      (Exec.stop (.reject 0 "Reorganize() : ConnectBlock failed for block"))
    if ← velocityCheck env pindex.nHeight then
      let hprev ← Exec.lift (orUndefined pindex.pprev "pindex->pprev")
      onReject (velocity env hprev block true)
        (Exec.stop (.reject 0 "Reorganize() : Velocity failed at height"))
    return vDelete ++ block.vtx

/-- The `pnext` pointers after the disconnects. -/
def unlinkBranch (t : BlockTree) (vDisconnect : List CBlockIndex) : BlockTree :=
  vDisconnect.foldl (fun t pindex =>
    match pindex.pprev with
    | none => t
    | some hprev => t.setPnext hprev none) t

/-- The `pnext` pointers after the connects. -/
def linkBranch (t : BlockTree) (vConnect : List CBlockIndex) : BlockTree :=
  vConnect.foldl (fun t pindex =>
    match pindex.pprev with
    | none => t
    | some hprev => t.setPnext hprev (some pindex.phashBlock)) t

/-- A transaction of the disconnected branch is offered to the memory pool again. -/
def resurrect (env : Env) (n : Node) (tx : CTransaction) : Node :=
  let (mempool, signals) := env.acceptToMemoryPool n tx
  { n with mempool, walletSignals := n.walletSignals ++ signals }

/-- A transaction of the connected branch leaves the memory pool, with those that conflict with it. -/
def deleteFromPool (env : Env) (n : Node) (tx : CTransaction) : Node :=
  { n with mempool := (n.mempool.remove env.getHash tx).removeConflicts env.getHash tx }

def reorganizeMemory (env : Env) (plan : ReorganizePlan) (vResurrect vDelete : List CTransaction) (n : Node) : Node :=
  let tree := linkBranch (unlinkBranch n.mapBlockIndex plan.vDisconnect) plan.vConnect
  let n := { n with mapBlockIndex := tree }
  vDelete.foldl (deleteFromPool env) (vResurrect.foldl (resurrect env) n)

/-- The checks of `Reorganize` before it touches the database: the depth, the rolling checkpoint, the
    fork and the supply of the branch. -/
def prepareReorganize (hNew : UInt256) : NodeM ReorganizePlan := do
  let n ← Exec.read
  let pindexBest ← Exec.lift (orUndefined (n.pindexBest.bind n.mapBlockIndex.entries) "pindexBest")
  let pindexNew ← deref hNew
  let preorgmax ← Exec.lift (checkReorganizeDepth n.ext pindexBest.nHeight pindexNew.nHeight)
  let fRollingCheckpoint ← rollingCheckpoints pindexBest.nHeight
  Exec.update fun n => { n with fRollingCheckpoint }
  let n ← Exec.read
  Exec.lift (reorganizePlan n hNew preorgmax)

def reorganize (env : Env) (hNew : UInt256) : NodeM Unit := do
  let plan ← prepareReorganize hNew
  let vResurrect ← plan.vDisconnect.foldlM (disconnectBranchStep env plan.preorgmax) []
  let vDelete ← plan.vConnect.foldlM (connectBranchStep env) []
  writeHashBestChain hNew
  txnCommit "Reorganize() : TxnCommit failed"
  Exec.update (reorganizeMemory env plan vResurrect vDelete)

/-!
## The transactions that a reorganisation must not lose

The ordinary transactions of the blocks that it disconnects: they are to be in the new branch, or to be
offered to the memory pool.
-/

/-- The blocks of a branch above a fork, the last one first. -/
def branchBlocks (t : BlockTree) (fork h : UInt256) : List CBlockIndex :=
  (t.toParentTree.above fork h).filterMap t.entries

def blockTxs (env : Env) (n : Node) (pindex : CBlockIndex) : List CTransaction :=
  ((readBlockFromDisk env n pindex).map CBlock.vtx).getD []

/-- The transactions of a block that are neither coinbase nor coinstake. -/
def ordinaryTxs (env : Env) (n : Node) (pindex : CBlockIndex) : List CTransaction :=
  (blockTxs env n pindex).filter fun tx => !(tx.isCoinBase || tx.isCoinStake)

/-- `preorgmax` of a reorganisation that passes the depth check. -/
def Node.preorgmax (n : Node) (hBest : UInt256) : Int := n.mapBlockIndex.nHeight hBest - blockReorgMaxDepth

/-- The ordinary transactions of the blocks above a height, those of lower blocks first. -/
def txsAbove (env : Env) (n : Node) (nHeight : Int) (branch : List CBlockIndex) : List CTransaction :=
  branch.reverse.flatMap fun pindex => if (pindex.nHeight : Int) > nHeight then ordinaryTxs env n pindex else []

/-- `AcceptToMemoryPool` is called on the transactions, one after the other. -/
inductive Offers (env : Env) : Node → List CTransaction → Node → Prop
  | nil (n : Node) : Offers env n [] n
  | cons {n n' : Node} {tx : CTransaction} {txs : List CTransaction} :
      Offers env { n with mempool := (env.acceptToMemoryPool n tx).1
                          walletSignals := n.walletSignals ++ (env.acceptToMemoryPool n tx).2 } txs n' →
        Offers env n (tx :: txs) n'

/-- The number of blocks that a reorganisation may disconnect. -/
def reorgLimit (ext : Ext) : Nat :=
  if ext.fDemiPeerRelay && ext.fDemiNodes then blockReorgThreshold.toNat
  else blockReorgMaxDepth.toNat

end PupaCoin
