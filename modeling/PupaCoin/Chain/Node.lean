import PupaCoin.Chain.Mempool
import PupaCoin.Chain.TxDB
import PupaCoin.Lib.Exec

/-!
# The state of a node

The globals that validation reads and writes, the surroundings it only reads (`Ext`: clocks, the
masternode list, settings), and the functions it is parametric in (`Env`: hashing, signatures,
addresses).
-/

namespace PupaCoin

/-- What the node reads of its surroundings. -/
structure Ext where
  /-- `GetTime()`. -/
  getTime : Int
  /-- `GetAdjustedTime()`. -/
  getAdjustedTime : Int
  /-- `IsSporkActive(SPORK_3_INSTANTX_BLOCK_FILTERING)`. -/
  fInstantXFiltering : Bool
  mapLockedInputs : COutPoint → Option UInt256
  /-- `mnodeman.IsPayeeAValidMasternode`. -/
  isPayeeAValidMasternode : CScript → Bool
  fMnAdvRelay : Bool
  fDemiNodes : Bool
  /-- `fDemiPeerRelay(GetRelayPeerAddr)`. -/
  fDemiPeerRelay : Bool
  /-- Free bytes on the data directory's file system. -/
  nFreeBytesAvailable : Nat
  /-- The file and the offset at which `WriteToDisk` appends; `none` when the file does not open. -/
  appendPos : Option (UInt32 × UInt32)
  /-- The bytes of `blocks/blkNNNNN.dat`, which `OpenDiskFile` creates empty when it is not there; `none`
      when it cannot be opened. The blocks themselves are in the files `blkNNNN.dat` above `blocks`. -/
  blocksDir : UInt32 → Option (List UInt8)

/-- The block files: the block, the block header and the transaction found at an offset. -/
structure BlockFiles where
  readBlock : UInt32 → UInt32 → Option CBlock
  readHeader : UInt32 → UInt32 → Option CBlockHeader
  readTx : UInt32 → UInt32 → Option CTransaction

/-- One call of `SyncWithWallets`. -/
structure WalletSignal where
  tx : CTransaction
  pblock : CBlock
  fConnect : Bool
deriving DecidableEq, Repr

/-- The globals of the node. -/
structure Node where
  mapBlockIndex : BlockTree
  pindexGenesisBlock : Option UInt256
  pindexBest : Option UInt256
  hashBestChain : UInt256
  nBestHeight : Int
  nBestChainTrust : UInt256
  nBestInvalidTrust : UInt256
  /-- The database as committed, and the batch of the transaction in progress. -/
  pdb : Db
  activeBatch : Option (List (Overlay.Op DbKey DbVal))
  /-- Which of the next commits LevelDB fails; those after the end of the list succeed. -/
  commitFaults : List Bool
  files : BlockFiles
  mempool : CTxMemPool
  /-- `MAX_BLOCK_SIZE`, `MAX_BLOCK_SIGOPS` and `MAX_TX_SIGOPS`. -/
  maxBlockSize : Nat
  maxBlockSigops : Nat
  maxTxSigops : Nat
  /-- The static variables of `blocksizecalculator.cpp`, and the cache of `FindBlockByHeight`. -/
  blocksizes : List Nat
  sorted : Bool
  pblockindexFBBHLast : Option UInt256
  nMasterNodeChecksDelayBaseTime : Int
  fRollingCheckpoint : Bool
  rollingBlock : UInt256
  rollingHeight : Int
  velocityFactor : Bool
  /-- The notifications that the wallets have been sent, oldest first. -/
  walletSignals : List WalletSignal
  ext : Ext

def nMasterNodeDelay : Int := 15 * 60

/-- The elements of the `VELOCITY_*` tables at a height. The tables have one element and the code
    indexes them with the height, so the elements beyond index 0 are whatever lies behind them. -/
structure VelocityTables where
  height : Int → Int
  rate : Int → Int
  minRate : Int → Int
  minTx : Int → Int
  minValue : Int → Int
  minFee : Int → Int
  explicit : Int → Bool
  height_zero : height 0 = 175
  rate_zero : rate 0 = blockSpacing
  minRate_zero : minRate 0 = blockSpacingMin
  minTx_zero : minTx 0 = 0
  minValue_zero : minValue 0 = coin / 100
  minFee_zero : minFee 0 = coin / 10000
  explicit_zero : explicit 0 = false

/-- What validation is parametric in. -/
structure Env where
  params : CChainParams
  /-- `CTransaction::GetHash`. -/
  getHash : CTransaction → UInt256
  /-- `Hash_bmw512` of a block header: both `CBlock::GetHash` and `GetPoWHash`. -/
  hashHeader : CBlockHeader → UInt256
  /-- The hash of two hashes in the merkle tree. -/
  hashPair : UInt256 → UInt256 → UInt256
  /-- `Hash_echo512` of stake modifier, time of the previous transaction, outpoint and time. -/
  hashKernel : UInt256 → UInt32 → COutPoint → UInt32 → UInt256
  /-- `Hash_echo512` of a kernel hash and the previous modifier. -/
  hashModifier : UInt256 → UInt256 → UInt256
  /-- `ComputeNextStakeModifier` from the chain of the previous block. -/
  computeNextStakeModifier : List CBlockIndex → Option (UInt64 × Bool)
  /-- `VerifySignature(txFrom, txTo, nIn, flags, 0)`. -/
  verifySignature : CTransaction → CTransaction → Nat → Nat → Bool
  /-- `Solver` finds a public key in the script and the key verifies the signature of the hash. -/
  verifyBlockSignature : CScript → UInt256 → List UInt8 → Bool
  /-- `CBitcoinAddress(ExtractDestination(script)).ToString()`. -/
  addressOf : CScript → String
  /-- `-addrindex`. -/
  fAddrIndex : Bool
  /-- `BuildAddrIndex`. -/
  buildAddrIndex : CScript → List (BitVec 160)
  velocity : VelocityTables
  /-- `AcceptToMemoryPool(mempool, tx, false, NULL)`: the pool it leaves and the notifications it
      sends. -/
  acceptToMemoryPool : Node → CTransaction → CTxMemPool × List WalletSignal

abbrev NodeM := Exec Node Stop

/-- Run `handler` where `m` returns `false`; exceptions and undefined behaviour pass through. -/
def onReject {α : Type} (m : NodeM α) (handler : NodeM α) : NodeM α := fun n =>
  match m n with
  | (.error (.reject _ _), n') => handler n'
  | r => r

namespace Node

/-- What a read of the database handle sees: the open batch over the committed records. -/
def view (n : Node) : Db :=
  match n.activeBatch with
  | none => n.pdb
  | some batch => fun key => Overlay.get n.pdb batch key

/-- `Write` and `Erase`: into the batch when there is one, else into the database. -/
def dbApply (op : Overlay.Op DbKey DbVal) (n : Node) : Node :=
  match n.activeBatch with
  | none => { n with pdb := op.apply n.pdb }
  | some batch => { n with activeBatch := some (batch ++ [op]) }

@[simp] theorem view_dbApply (op : Overlay.Op DbKey DbVal) (n : Node) : (n.dbApply op).view = op.apply n.view := by
  unfold dbApply view
  cases hb : n.activeBatch with
  | none => rfl
  | some batch =>
    funext key
    simp only [Overlay.get_append_singleton, Overlay.Op.apply, Function.update_apply, eq_comm]

@[simp] theorem mapBlockIndex_dbApply (op : Overlay.Op DbKey DbVal) (n : Node) :
    (n.dbApply op).mapBlockIndex = n.mapBlockIndex := by
  unfold dbApply
  split <;> rfl

end Node

/-- The key under which `WriteBlockIndex` stores a record: the hash of its header. -/
def CDiskBlockIndex.getBlockHash (env : Env) (blockindex : CDiskBlockIndex) : UInt256 :=
  env.hashHeader blockindex.toCBlockHeader

def writeBlockIndex (env : Env) (blockindex : CDiskBlockIndex) : NodeM Unit :=
  .update (Node.dbApply (.put (.blockIndex (blockindex.getBlockHash env)) (.blockIndex blockindex)))

def updateTxIndex (hash : UInt256) (txindex : CTxIndex) : NodeM Unit :=
  .update (Node.dbApply (.put (.tx hash) (.txIndex txindex)))

def eraseTxIndex (hash : UInt256) : NodeM Unit := .update (Node.dbApply (.delete (.tx hash)))

def writeHashBestChain (hash : UInt256) : NodeM Unit :=
  .update (Node.dbApply (.put .hashBestChain (.hash hash)))

def writeAddrIndex (addrHash : BitVec 160) (txHash : UInt256) : NodeM Unit :=
  .update fun n =>
    match n.view.readAddrIndex addrHash with
    | none => n.dbApply (.put (.adr addrHash) (.txHashes [txHash]))
    | some txHashes =>
      if txHash ∈ txHashes then n
      else n.dbApply (.put (.adr addrHash) (.txHashes (txHashes ++ [txHash])))

def txnBegin : NodeM Unit := fun n =>
  match n.activeBatch with
  | none => (.ok (), { n with activeBatch := some [] })
  | some _ => (.error (.undefined "assert(!activeBatch)"), n)

/-- `TxnCommit`: the batch is gone either way. -/
def txnCommit (message : String) : NodeM Unit := fun n =>
  match n.activeBatch with
  | none => (.error (.undefined "assert(activeBatch)"), n)
  | some batch =>
    if n.commitFaults.headD false then
      (.error (.reject 0 message), { n with activeBatch := none, commitFaults := n.commitFaults.tail })
    else
      (.ok (), { n with
        pdb := Overlay.commit n.pdb batch, activeBatch := none, commitFaults := n.commitFaults.tail })

/-- `TxnAbort`, and the end of the life of a `CTxDB`. -/
def txnAbort : NodeM Unit := .update fun n => { n with activeBatch := none }

/-- `SyncWithWallets` for every transaction of a block. -/
def syncWithWallets (block : CBlock) (fConnect : Bool) : NodeM Unit :=
  .update fun n =>
    { n with walletSignals := n.walletSignals ++ block.vtx.map fun tx => ⟨tx, block, fConnect⟩ }

/-- The entry that a pointer leads to. -/
def deref (h : UInt256) : NodeM CBlockIndex := fun n =>
  (orUndefined (n.mapBlockIndex.entries h) "null block index", n)

section Steps

variable (n : Node) (env : Env)

@[simp] theorem writeBlockIndex_apply (blockindex : CDiskBlockIndex) :
    writeBlockIndex env blockindex n = (.ok (), n.dbApply
      (.put (.blockIndex (blockindex.getBlockHash env)) (.blockIndex blockindex))) := rfl

@[simp] theorem updateTxIndex_apply (hash : UInt256) (txindex : CTxIndex) :
    updateTxIndex hash txindex n = (.ok (), n.dbApply (.put (.tx hash) (.txIndex txindex))) := rfl

@[simp] theorem eraseTxIndex_apply (hash : UInt256) :
    eraseTxIndex hash n = (.ok (), n.dbApply (.delete (.tx hash))) := rfl

@[simp] theorem writeHashBestChain_apply (hash : UInt256) :
    writeHashBestChain hash n = (.ok (), n.dbApply (.put .hashBestChain (.hash hash))) := rfl

@[simp] theorem txnAbort_apply : txnAbort n = (.ok (), { n with activeBatch := none }) := rfl

@[simp] theorem syncWithWallets_apply (block : CBlock) (fConnect : Bool) :
    syncWithWallets block fConnect n = (.ok (), { n with
      walletSignals := n.walletSignals ++ block.vtx.map fun tx => ⟨tx, block, fConnect⟩ }) := rfl

@[simp] theorem deref_apply (h : UInt256) :
    deref h n = (orUndefined (n.mapBlockIndex.entries h) "null block index", n) := rfl

end Steps

theorem deref_returns {n n' : Node} {h : UInt256} {pindex : CBlockIndex} :
    deref h n = (.ok pindex, n') ↔ n.mapBlockIndex.entries h = some pindex ∧ n = n' := by
  simp

theorem onReject_returns {α : Type} {m handler : NodeM α} {n n' : Node} {a : α} : onReject m handler n = (.ok a, n') ↔
      m n = (.ok a, n') ∨ ∃ d msg t, m n = (.error (.reject d msg), t) ∧ handler t = (.ok a, n') := by
  unfold onReject
  rcases hm : m n with ⟨r, t⟩
  cases r with
  | ok b => simp
  | error e => cases e <;> simp

end PupaCoin

/-!
## Block rewards and payments (`blockparams.cpp`)

Both rewards are decided by the height of the block and by the money supply of the *best* block, which
need not be the parent of the block being checked.
-/

namespace PupaCoin

/-- `pindexBest->nMoneySupply`. -/
def bestMoneySupply (n : Node) : Except Stop Int :=
  orUndefined ((n.pindexBest.bind n.mapBlockIndex.entries).map CBlockIndex.nMoneySupply) "pindexBest"

/-- The body of both reward functions: the subsidy of a block at height `nHeight`, plus the fees. The
    test of the hard cap is the `else` of the test of the height. -/
def blockReward (nMoneySupply nHeight nFees : Int) : Int :=
  if nHeight > nReservePhaseStart then
    (if nMoneySupply < nBlockRewardReserve * 100 then nBlockRewardReserve else nBlockStandardReward)
      + nFees
  else if nMoneySupply > maxSingleTx then nFees
  else nBlockStandardReward + nFees

def getProofOfWorkReward (n : Node) (nHeight nFees : Int) : Except Stop Int := do
  let nMoneySupply ← bestMoneySupply n
  return blockReward nMoneySupply nHeight nFees

/-- `GetProofOfStakeReward`. The coin age does not enter. -/
def getProofOfStakeReward (n : Node) (pindexPrev : CBlockIndex) (_nCoinAge : Nat) (nFees : Int) :
    Except Stop Int := do
  let nMoneySupply ← bestMoneySupply n
  return blockReward nMoneySupply (pindexPrev.nHeight + 1) nFees

/-- `GetMasternodePayment`: 3.5 coins from height 200 on. -/
def getMasternodePayment (nHeight _blockValue : Int) : Int := if nHeight < 200 then 0 else 35 * coin / 10

/-- `GetDevOpsPayment`: 0.25 coins from height 200 on, the whole reward before. -/
def getDevOpsPayment (nHeight blockValue : Int) : Int := if nHeight < 200 then blockValue else coin / 4

end PupaCoin
