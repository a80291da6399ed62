import PupaCoin.Chain.AcceptBlock

/-!
# What a function of the node writes

The globals of the node in groups (`Part`). `Writes ps` relates two nodes that agree on every group
that is not among `ps`; a function whose calls are all so related writes at most the groups `ps`.
-/

namespace PupaCoin

/-- A group of globals. -/
inductive Part where
  /-- The block index without the two groups that follow. -/
  | index
  /-- The `pnext` pointers. -/
  | pnext
  /-- `nMint` and `nMoneySupply` of every entry. -/
  | supply
  | genesis
  /-- The best block: its pointer, hash, height and trust. -/
  | tip
  | invalidTrust
  /-- The committed records, but for the next group. -/
  | records
  /-- The committed record of `nBestInvalidTrust`. -/
  | trustRecord
  /-- What a transaction guarantees until its commit: it stays open, and the committed records stay. -/
  | committed
  | batch
  | faults
  | files
  | mempool
  /-- `MAX_BLOCK_SIZE`, `MAX_BLOCK_SIGOPS` and `MAX_TX_SIGOPS`. -/
  | limits
  /-- The sizes behind `MAX_BLOCK_SIZE`. -/
  | sizes
  /-- The cache of `FindBlockByHeight`. -/
  | cache
  /-- The delay of the payment checks. -/
  | delay
  | rolling
  | velocity
  | wallet
  /-- What the wallets have been sent stays sent. -/
  | sent
  | ext
deriving DecidableEq, Repr

/-- An entry without its `pnext` pointer and its supply. -/
def CBlockIndex.core (pindex : CBlockIndex) : CBlockIndex :=
  { pindex with pnext := none, nMint := 0, nMoneySupply := 0 }

/-- What `ConnectBlock` records in an entry. -/
def CBlockIndex.supply (pindex : CBlockIndex) : Int × Int := (pindex.nMint, pindex.nMoneySupply)

def Part.Same (n n' : Node) : Part → Prop
  | index => ∀ h, (n'.mapBlockIndex.entries h).map CBlockIndex.core
      = (n.mapBlockIndex.entries h).map CBlockIndex.core
  | pnext => ∀ h, n'.mapBlockIndex.pnext h = n.mapBlockIndex.pnext h
  | supply => ∀ h, (n'.mapBlockIndex.entries h).map CBlockIndex.supply
      = (n.mapBlockIndex.entries h).map CBlockIndex.supply
  | genesis => n'.pindexGenesisBlock = n.pindexGenesisBlock
  | tip => n'.pindexBest = n.pindexBest ∧ n'.hashBestChain = n.hashBestChain
      ∧ n'.nBestHeight = n.nBestHeight ∧ n'.nBestChainTrust = n.nBestChainTrust
  | invalidTrust => n'.nBestInvalidTrust = n.nBestInvalidTrust
  | records => ∀ key, key ≠ .bnBestInvalidTrust → n'.pdb key = n.pdb key
  | trustRecord => n'.pdb .bnBestInvalidTrust = n.pdb .bnBestInvalidTrust
  | committed => n.activeBatch ≠ none →
      n'.activeBatch ≠ none ∧ ∀ key, key ≠ .bnBestInvalidTrust → n'.pdb key = n.pdb key
  | batch => n'.activeBatch = n.activeBatch
  | faults => n'.commitFaults = n.commitFaults
  | files => n'.files = n.files
  | mempool => n'.mempool = n.mempool
  | limits => n'.maxBlockSize = n.maxBlockSize ∧ n'.maxBlockSigops = n.maxBlockSigops
      ∧ n'.maxTxSigops = n.maxTxSigops
  | sizes => n'.blocksizes = n.blocksizes ∧ n'.sorted = n.sorted
  | cache => n'.pblockindexFBBHLast = n.pblockindexFBBHLast
  | delay => n'.nMasterNodeChecksDelayBaseTime = n.nMasterNodeChecksDelayBaseTime
  | rolling => n'.fRollingCheckpoint = n.fRollingCheckpoint ∧ n'.rollingBlock = n.rollingBlock
      ∧ n'.rollingHeight = n.rollingHeight
  | velocity => n'.velocityFactor = n.velocityFactor
  | wallet => n'.walletSignals = n.walletSignals
  | sent => n.walletSignals <+: n'.walletSignals
  | ext => n'.ext = n.ext

/-- `n'` agrees with `n` on every group but `ps`. -/
def Writes (ps : List Part) (n n' : Node) : Prop := ∀ p, p ∉ ps → p.Same n n'

/-- What `ConnectBlock` writes. -/
def connectParts : List Part :=
  [.delay, .limits, .sizes, .cache, .supply, .records, .batch, .wallet]

/-- What `Reorganize` writes before its commit. -/
def branchParts : List Part := [.rolling, .velocity] ++ connectParts

/-- What `SetBestChain` writes before it sets the best block. -/
def bestChainParts : List Part :=
  [.genesis, .invalidTrust, .trustRecord, .committed, .faults, .pnext, .mempool] ++ branchParts

/-!
## What the checks of a block read of the best chain

Two nodes that contain the same branch may have different best blocks. The reward reads the supply at
the best block, of which only a class enters (`rewardClass`); the retarget reads whether the best
block is at the height of a fork and the difficulty on the best chain (`SameRetargetReads`).
-/

/-- Two nodes contain the block `h`: its entry and those of its ancestors agree up to what the best
    chain writes into them, and the inputs of the block lead to the same transactions. -/
structure SameBranch (block : CBlock) (h : UInt256) (n1 n2 : Node) : Prop where
  chain : (n1.mapBlockIndex.chain h).map CBlockIndex.core = (n2.mapBlockIndex.chain h).map CBlockIndex.core
  inputs : ∀ tx ∈ block.vtx, ∀ txin ∈ tx.vin, CTransaction.readFromDisk n1 n1.view.readTxIndex txin.prevout
      = CTransaction.readFromDisk n2 n2.view.readTxIndex txin.prevout

/-- What the reward of a block at a height depends on of the supply at the best block. -/
def rewardClass (nHeight nMoneySupply : Int) : Bool :=
  if nHeight > nReservePhaseStart then decide (nMoneySupply < nBlockRewardReserve * 100)
  else decide (nMoneySupply > maxSingleTx)

/-- The reward that `ConnectBlock` asks for. -/
def CBlock.connectReward (n : Node) (block : CBlock) (pindex : CBlockIndex) (nCoinAge : Nat)
    (nFees : Int) : Except Stop Int := do
  if block.isProofOfWork then getProofOfWorkReward n pindex.nHeight nFees
  else
    let pprev ← orUndefined (pindex.pprev.bind n.mapBlockIndex.entries) "pindex->pprev"
    getProofOfStakeReward n pprev nCoinAge nFees

/-- The retarget comes to the extended curve run and finds it due, so that it reads
    `VRX_GetPrevDiff`. -/
def readsPrevDiff (chain : List CBlockIndex) (fProofOfStake : Bool) : Bool :=
  match chain.head?, (getLastBlockIndex fProofOfStake chain).head? with
  | some pindexLast, some blockVelocityType =>
    decide (pindexLast.nHeight > 7500)
      && decide ((timeDifference pindexLast.getBlockTime blockVelocityType.getBlockTime).toNat
        > (if pindexLast.nHeight > 63000 then 45 else 15) * 60)
  | _, _ => false

/-- Two nodes agree on what the retarget on top of a chain reads of their best chains. -/
structure SameRetargetReads (n1 n2 : Node) (chain : List CBlockIndex) (fProofOfStake : Bool) : Prop where
  dryRun : ∀ pindexLast, chain.head? = some pindexLast → vrxDryRun n1 pindexLast = vrxDryRun n2 pindexLast
  prevDiff : readsPrevDiff chain fProofOfStake = true →
    prevDiffBelowOne n1 fProofOfStake = prevDiffBelowOne n2 fProofOfStake

end PupaCoin

/-!
## Runs of a node

A node starts with the genesis block (`GenesisState`) and is then given blocks, in any order and with any
changes of its surroundings in between (`AcceptRun`). A run of the money supply is the finer view of the
same: the calls of `ConnectBlock`, which are the only steps that assign a supply, and everything else.
-/

namespace PupaCoin

/-- The node knows the genesis block only, and has nothing but it in its database. -/
structure GenesisState (env : Env) (n : Node) : Prop where
  pindexGenesisBlock : n.pindexGenesisBlock = some env.params.hashGenesisBlock
  pindexBest : n.pindexBest = some env.params.hashGenesisBlock
  hashBestChain : n.hashBestChain = env.params.hashGenesisBlock
  nBestHeight : n.nBestHeight = 0
  only : ∀ h e, n.mapBlockIndex.entries h = some e → h = env.params.hashGenesisBlock
  entry : ∃ e, n.mapBlockIndex.entries env.params.hashGenesisBlock = some e ∧
    e.pprev = none ∧ e.pnext = none ∧ e.nMoneySupply = 0 ∧
    env.hashHeader (CDiskBlockIndex.ofIndex e).toCBlockHeader = env.params.hashGenesisBlock
  activeBatch : n.activeBatch = none
  committedBest : n.pdb.readHashBestChain = some env.params.hashGenesisBlock
  committedTx : ∀ h, n.pdb (.tx h) = none

/-- The groups of globals that change between two blocks: the surroundings, the memory pool, what the
    wallets are told about it, and which commits will fail. -/
def idleParts : List Part := [.ext, .mempool, .wallet, .faults]

/-- The node goes on after a call: it returned, was rejected or threw an exception. -/
def Survives {α : Type} : Except Stop α → Prop
  | .error (.undefined _) => False
  | _ => True

/-- `n'` is reached from `n` by calls of `AcceptBlock`. -/
inductive AcceptRun (env : Env) (n : Node) : Node → Prop
  | start : AcceptRun env n n
  | idle {m m' : Node} : AcceptRun env n m → Writes idleParts m m' → AcceptRun env n m'
  | accept {m : Node} (block : CBlock) : AcceptRun env n m → Survives (block.acceptBlock env m).1 →
      AcceptRun env n (block.acceptBlock env m).2

/-- A call of `ConnectBlock`. -/
structure ConnectCall where
  node : Node
  block : CBlock
  h : UInt256
  fJustCheck : Bool

namespace ConnectCall

def after (env : Env) (call : ConnectCall) : Node :=
  (call.block.connectBlock env call.h call.fJustCheck call.node).2

/-- The supply at the parent of the block has not passed the cap, and the block carries no coinstake
    behind its second transaction. -/
def Sound (call : ConnectCall) : Prop :=
  (∀ pindex, call.node.mapBlockIndex.entries call.h = some pindex →
    CBlock.prevMoneySupply call.node pindex ≤ maxSingleTx) ∧
  ∀ tx ∈ call.block.vtx.drop 2, tx.isCoinStake = false

end ConnectCall

/-- No supply is assigned; an entry that is new has none yet. -/
def QuietStep (n n' : Node) : Prop := ∀ h e', n'.mapBlockIndex.entries h = some e' →
  (∃ e, n.mapBlockIndex.entries h = some e ∧ e'.nMoneySupply = e.nMoneySupply) ∨ e'.nMoneySupply = 0

/-- `n'` is reached from `n` by the calls `calls` of `ConnectBlock`, in this order, and by steps between
    them that assign no supply. -/
inductive SupplyRun (env : Env) (n : Node) : List ConnectCall → Node → Prop
  | start : SupplyRun env n [] n
  | quiet {calls : List ConnectCall} {m m' : Node} : SupplyRun env n calls m → QuietStep m m' →
      SupplyRun env n calls m'
  | connect {calls : List ConnectCall} (call : ConnectCall) : SupplyRun env n calls call.node →
      SupplyRun env n (calls ++ [call]) (call.after env)

end PupaCoin
