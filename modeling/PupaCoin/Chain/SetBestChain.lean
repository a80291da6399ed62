import PupaCoin.Chain.Reorganize

/-!
# Moving the best chain (`SetBestChain`)

The three ways to a new best block: the genesis block, a block on top of the best one, and a branch
that needs a reorganisation. In the last case only the part of the branch that is needed to overtake is
reorganised in one database transaction; the blocks above it are connected one by one.
-/

namespace PupaCoin

/-- `InvalidChainFound`. It writes through a database handle of its own. -/
def invalidChainFound (hNew : UInt256) : NodeM Unit := do
  let pindexNew ← deref hNew
  Exec.update fun n =>
    if pindexNew.nChainTrust > n.nBestInvalidTrust then
      { n with
        nBestInvalidTrust := pindexNew.nChainTrust
        pdb := Function.update n.pdb .bnBestInvalidTrust (some (.trust pindexNew.nChainTrust)) }
    else n
  let n ← Exec.read
  let _ ← Exec.lift (orUndefined (pindexNew.pprev.bind n.mapBlockIndex.entries) "pindexNew->pprev")
  let _ ← Exec.lift (orUndefined (n.pindexBest.bind n.mapBlockIndex.entries) "pindexBest")

def removeFromPool (env : Env) (block : CBlock) (n : Node) : Node :=
  { n with mempool := block.vtx.foldl (CTxMemPool.remove env.getHash) n.mempool }

/-- `SetBestChainInner`: a block on top of the chain whose index the database holds. -/
def setBestChainInner (env : Env) (block : CBlock) (hNew : UInt256) : NodeM Unit := do
  onReject (do block.connectBlock env hNew false; writeHashBestChain (block.getHash env)) (do
    txnAbort
    invalidChainFound hNew
    Exec.stop (.reject 0 ""))
  txnCommit "SetBestChain() : TxnCommit failed"
  let pindexNew ← deref hNew
  let hprev ← Exec.lift (orUndefined pindexNew.pprev "pindexNew->pprev")
  Exec.update fun n => { n with mapBlockIndex := n.mapBlockIndex.setPnext hprev (some hNew) }
  Exec.update (removeFromPool env block)

/-- The entries of a chain whose parent has more trust than the best block: they are postponed. What
    remains is the chain of the block to reorganise to. -/
def postponed (nBestTrust : UInt256) : List CBlockIndex → List CBlockIndex × List CBlockIndex
  | pindex :: pprev :: rest =>
    if pprev.nChainTrust > nBestTrust then
      let (vpindexSecondary, chain) := postponed nBestTrust (pprev :: rest)
      (pindex :: vpindexSecondary, chain)
    else ([], pindex :: pprev :: rest)
  | chain => ([], chain)

/-- The loop over the postponed blocks, the lowest first: the blocks that it gave up on. -/
def connectSecondary (env : Env) : List CBlockIndex → NodeM (List CBlockIndex)
  | [] => pure []
  | pindex :: rest => do
    let n ← Exec.read
    match readBlockFromDisk env n pindex with
    | none => return pindex :: rest
    | some block =>
      txnBegin
      let connected ← onReject (do setBestChainInner env block pindex.phashBlock; pure true) (pure false)
      if connected then connectSecondary env rest else return pindex :: rest

/-- The branch of `SetBestChain` that reorganises. -/
def setBestChainReorganize (env : Env) (hNew : UInt256) : NodeM (List CBlockIndex) := do
  let n ← Exec.read
  let pindexBest ← Exec.lift (orUndefined (n.pindexBest.bind n.mapBlockIndex.entries) "pindexBest")
  let (vpindexSecondary, chain) := postponed pindexBest.nChainTrust (n.mapBlockIndex.chain hNew)
  let pindexIntermediate ← Exec.lift (orUndefined chain.head? "pindexNew")
  onReject (reorganize env pindexIntermediate.phashBlock) (do
    txnAbort
    invalidChainFound hNew
    Exec.stop (.reject 0 "SetBestChain() : Reorganize failed"))
  connectSecondary env vpindexSecondary.reverse

def setBest (block : CBlock) (env : Env) (hNew : UInt256) : NodeM Unit := do
  let pindexNew ← deref hNew
  Exec.update fun n => { n with
    hashBestChain := block.getHash env
    pindexBest := some hNew
    pblockindexFBBHLast := none
    nBestHeight := pindexNew.nHeight
    nBestChainTrust := pindexNew.nChainTrust }

/-- The branch of `SetBestChain` for the genesis block. -/
def setBestChainGenesis (env : Env) (block : CBlock) (hNew : UInt256) : NodeM (List CBlockIndex) := do
  writeHashBestChain (block.getHash env)
  txnCommit "SetBestChain() : TxnCommit failed"
  Exec.update fun n => { n with pindexGenesisBlock := some hNew }
  return []

/-- The branch of `SetBestChain` for a block on top of the best one. -/
def setBestChainExtend (env : Env) (block : CBlock) (hNew : UInt256) : NodeM (List CBlockIndex) := do
  onReject (setBestChainInner env block hNew)
    (Exec.stop (.reject 0 "SetBestChain() : SetBestChainInner failed"))
  return []

/-- The three branches of `SetBestChain`. -/
def setBestChainBranch (env : Env) (block : CBlock) (hNew : UInt256) : NodeM (List CBlockIndex) := do
  let n ← Exec.read
  if n.pindexGenesisBlock = none ∧ block.getHash env = env.params.hashGenesisBlock then
    setBestChainGenesis env block hNew
  else if block.hashPrevBlock = n.hashBestChain then setBestChainExtend env block hNew
  else setBestChainReorganize env hNew

/-- `SetBestChain`, with the blocks its last loop gave up on. -/
def setBestChain (env : Env) (block : CBlock) (hNew : UInt256) : NodeM (List CBlockIndex) := do
  txnBegin
  let left ← setBestChainBranch env block hNew
  setBest block env hNew
  return left

end PupaCoin
