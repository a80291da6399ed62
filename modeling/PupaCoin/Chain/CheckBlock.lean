import PupaCoin.Chain.Node

/-!
# Context-free block checks (`CBlock::CheckBlock`)

The checks that do not depend on the place of a block in the chain. They are split as the source
orders them: the shape of the block, transaction locks, the payments to a masternode and to the
developers, and the transactions.
-/

namespace PupaCoin

def checkProofOfWork (params : CChainParams) (hash : UInt256) (nBits : UInt32) : Bool :=
  let bnTarget := setCompact nBits
  decide (0 < bnTarget) && decide (bnTarget ≤ params.bnProofOfWorkLimit)
    && decide (hash.toNat ≤ (getUInt256 bnTarget).toNat)

namespace CBlock

def getHash (env : Env) (block : CBlock) : UInt256 := env.hashHeader block.toCBlockHeader

def checkBlockSignature (env : Env) (block : CBlock) : Bool :=
  if block.isProofOfWork then block.vchBlockSig.isEmpty
  else !block.vchBlockSig.isEmpty &&
    match block.vtx with
    | _ :: tx :: _ =>
      match tx.vout with
      | _ :: txout :: _ =>
        env.verifyBlockSignature txout.scriptPubKey (block.getHash env) block.vchBlockSig
      | _ => false
    | _ => false

/-- The coinbase of a proof-of-stake block has one output, and that is empty. -/
def hasEmptyCoinbase (block : CBlock) : Bool :=
  match block.vtx with
  | coinbase :: _ =>
    match coinbase.vout with
    | [txout] => txout.isEmpty
    | _ => false
  | [] => false

/-- The first part of `CheckBlock`: size, proof of work, time, and the places of the coinbase and the
    coinstake. -/
def checkStructure (env : Env) (n : Node) (block : CBlock) (fCheckPOW fCheckSig : Bool) : Except Stop Unit := do
  rejectIf (block.vtx.isEmpty || decide (block.vtx.length > n.maxBlockSize)
    || decide (block.serializeSize > n.maxBlockSize)) 100 "CheckBlock() : size limits failed"
  rejectIf (fCheckPOW && block.isProofOfWork
    && !checkProofOfWork env.params (block.getHash env) block.nBits) 50
    "CheckBlock() : proof of work failed"
  rejectIf (block.getBlockTime > futureDrift n.ext.getAdjustedTime) 0
    "CheckBlock() : block timestamp too far in the future"
  rejectIf (!(block.vtx.head?.any CTransaction.isCoinBase)) 100
    "CheckBlock() : first tx is not coinbase"
  rejectIf (block.vtx.tail.any CTransaction.isCoinBase) 100 "CheckBlock() : more than one coinbase"
  rejectIf (block.isProofOfStake && !block.hasEmptyCoinbase) 100
    "CheckBlock() : coinbase output not empty for proof-of-stake block"
  rejectIf (block.isProofOfStake && (block.vtx.drop 2).any CTransaction.isCoinStake) 100
    "CheckBlock() : more than one coinstake"
  rejectIf (fCheckSig && !block.checkBlockSignature env) 100
    "CheckBlock() : bad proof-of-stake block signature"

/-- The scan for conflicts with transaction locks. -/
def checkTransactionLocks (env : Env) (ext : Ext) (block : CBlock) : Except Stop Unit :=
  if ext.fInstantXFiltering then
    block.vtx.forM fun tx =>
      if tx.isCoinBase then .ok ()
      else tx.vin.forM fun txin =>
        rejectIf ((ext.mapLockedInputs txin.prevout).any (· != env.getHash tx)) 0
          "CheckBlock() : found conflicting transaction with transaction lock"
  else .ok ()

/-- When the payments are verified: past the fork height, unless the delay still runs. -/
def checksPayments (n : Node) : Bool :=
  decide (n.nBestHeight > 725)
    && decide (n.nMasterNodeChecksDelayBaseTime + nMasterNodeDelay < n.ext.getTime)

/-- What the verification of one block's payments works with. -/
structure PaymentCheck where
  isProofOfStake : Bool
  /-- The outputs of `vtx[isProofOfStake]`. -/
  vout : List CTxOut
  nProofOfIndexMasternode : Nat
  nProofOfIndexDevops : Nat
  nMasternodePayment : Int
  nDevopsPayment : Int

/-- The places of the two payments, and whether the number of outputs is as expected. -/
def paymentIndexes (isProofOfStake : Bool) (nOutputs : Nat) : Nat × Nat × Bool :=
  if isProofOfStake then
    if nOutputs = 4 then (2, 3, true)
    else if nOutputs = 5 then (3, 4, true)
    else (2, 3, false)
  else (1, 2, nOutputs == 3)

/-- The number of outputs that the indexes reach into at least. -/
def outputsIndexed (isProofOfStake : Bool) : Nat := if isProofOfStake then 4 else 3

def masternodePayeeOk (env : Env) (ext : Ext) (rawPayee : CScript) : Bool :=
  ext.isPayeeAValidMasternode rawPayee
    || env.addressOf rawPayee == env.params.strDevOpsAddress
    || !ext.fMnAdvRelay

/-- One round of the loop over the outputs: whether the block still has its payments. Both payments
    are read at their index in every round. -/
def checkPaymentOut (env : Env) (ext : Ext) (c : PaymentCheck) (fBlockHasPayments : Bool)
    (out : CTxOut × Nat) : Except Stop Bool := do
  let nAmount := out.1.nValue.tdiv coin
  let masternode ← orUndefined c.vout[c.nProofOfIndexMasternode]? "vout[nProofOfIndexMasternode]"
  let devops ← orUndefined c.vout[c.nProofOfIndexDevops]? "vout[nProofOfIndexDevops]"
  let nIndexedMasternodePayment := masternode.nValue.tdiv coin
  let nIndexedDevopsPayment := devops.nValue.tdiv coin
  let masternodeAmount := if c.isProofOfStake then nIndexedMasternodePayment else nAmount
  let devopsAmount := if c.isProofOfStake then nIndexedDevopsPayment else nAmount
  let masternodeOk := out.2 != c.nProofOfIndexMasternode
    || (masternodePayeeOk env ext out.1.scriptPubKey && masternodeAmount == c.nMasternodePayment)
  let devopsOk := out.2 != c.nProofOfIndexDevops
    || (env.addressOf out.1.scriptPubKey == env.params.strDevOpsAddress
      && (devopsAmount == c.nDevopsPayment || decide (nIndexedDevopsPayment ≥ c.nDevopsPayment)))
  return fBlockHasPayments && masternodeOk && devopsOk

/-- The standard payment: the reward for the best height, or for the block after the best block's
    parent. -/
def standardPayment (n : Node) (isProofOfStake : Bool) : Except Stop Int := do
  let pindexBest ← orUndefined (n.pindexBest.bind n.mapBlockIndex.entries) "pindexBest"
  if isProofOfStake then
    let pindexPrev ← orUndefined (pindexBest.pprev.bind n.mapBlockIndex.entries) "pindexPrev"
    getProofOfStakeReward n pindexPrev 0 0
  else getProofOfWorkReward n n.nBestHeight 0

/-- The outputs of `vtx[isProofOfStake]`. -/
def paymentOutputs (block : CBlock) (isProofOfStake : Bool) : Except Stop (List CTxOut) := do
  let tx ← orUndefined block.vtx[isProofOfStake.toNat]? "vtx[isProofOfStake]"
  return tx.vout

/-- The verification of the payments of a block. -/
def checkPayments (env : Env) (n : Node) (block : CBlock) : Except Stop Unit := do
  let pindexBest ← orUndefined (n.pindexBest.bind n.mapBlockIndex.entries) "pindexBest"
  let isProofOfStake := !block.isProofOfWork
  let vout ← block.paymentOutputs isProofOfStake
  let nStandardPayment ← standardPayment n isProofOfStake
  let (nProofOfIndexMasternode, nProofOfIndexDevops, fBlockHasPayments) :=
    paymentIndexes isProofOfStake vout.length
  let c : PaymentCheck := {
    isProofOfStake, vout, nProofOfIndexMasternode, nProofOfIndexDevops
    nMasternodePayment := (getMasternodePayment pindexBest.nHeight nStandardPayment).tdiv coin
    nDevopsPayment := (getDevOpsPayment pindexBest.nHeight nStandardPayment).tdiv coin }
  let fBlockHasPayments ← vout.zipIdx.foldlM (checkPaymentOut env n.ext c) fBlockHasPayments
  rejectIf (!fBlockHasPayments) 100
    "CheckBlock() : PoW/PoS invalid payments in current block\n"

/-- A failed `CheckTransaction` as `CheckBlock` reports it. -/
def checkTransactionFailed : Stop → Stop
  | .reject nDoS _ => .reject nDoS "CheckBlock() : CheckTransaction failed"
  | stop => stop

/-- `CheckTransaction`, and the time of a transaction against that of its block. -/
def checkBlockTx (maxBlockSize : Nat) (block : CBlock) (tx : CTransaction) : Except Stop Unit := do
  (tx.checkTransaction maxBlockSize).mapError checkTransactionFailed
  rejectIf (block.getBlockTime < (tx.nTime.toNat : Int)) 50
    "CheckBlock() : block timestamp earlier than transaction timestamp"

/-- The last part of `CheckBlock`: the transactions, their hashes, the signature operations and the
    merkle root. -/
def checkTransactions (env : Env) (n : Node) (block : CBlock) (fCheckMerkleRoot : Bool) : Except Stop Unit := do
  block.vtx.forM (checkBlockTx n.maxBlockSize block)
  rejectIf (!(block.vtx.map env.getHash).Nodup) 100 "CheckBlock() : duplicate transaction"
  rejectIf ((block.vtx.map CTransaction.getLegacySigOpCount).sum % 2 ^ 32 > n.maxBlockSigops) 100
    "CheckBlock() : out-of-bounds SigOpCount"
  rejectIf (fCheckMerkleRoot && block.hashMerkleRoot != block.buildMerkleTree env.getHash env.hashPair)
    100 "CheckBlock() : hashMerkleRoot mismatch"

/-- `CheckBlock`. Before the payments are verified their delay is restarted; this is the only thing
    the function writes. -/
def checkBlock (env : Env) (block : CBlock) (fCheckPOW fCheckMerkleRoot fCheckSig : Bool) : NodeM Unit := do
  let n ← Exec.read
  Exec.lift (block.checkStructure env n fCheckPOW fCheckSig)
  Exec.lift (block.checkTransactionLocks env n.ext)
  let _ ← Exec.lift (orUndefined (n.pindexBest.bind n.mapBlockIndex.entries) "pindexBest")
  if checksPayments n then
    Exec.update fun n => { n with nMasterNodeChecksDelayBaseTime := nMasterNodeDelay }
    Exec.lift (block.checkPayments env n)
  Exec.lift (block.checkTransactions env n fCheckMerkleRoot)

/-- The node after `CheckBlock` has restarted the delay of the payment checks. -/
def restartDelay (n : Node) : Node := { n with nMasterNodeChecksDelayBaseTime := nMasterNodeDelay }

/-- The part of `CheckBlock` that verifies the payments, as a step on the node. -/
def paymentStep (env : Env) (block : CBlock) (n : Node) : Except Stop Unit × Node :=
  if checksPayments n then (block.checkPayments env n, restartDelay n) else (.ok (), n)

/-- What a call of `CheckBlock` that returns has checked. -/
structure Checked (env : Env) (block : CBlock) (n : Node) (fCheckPOW fCheckMerkleRoot fCheckSig : Bool) : Prop where
  structureOk : block.checkStructure env n fCheckPOW fCheckSig = .ok ()
  locksOk : block.checkTransactionLocks env n.ext = .ok ()
  bestOk : ∃ pindexBest, n.pindexBest.bind n.mapBlockIndex.entries = some pindexBest
  paymentsOk : checksPayments n = true → block.checkPayments env n = .ok ()
  transactionsOk : block.checkTransactions env n fCheckMerkleRoot = .ok ()

def paidOutputs (block : CBlock) : List CTxOut :=
  ((block.vtx[block.isProofOfStake.toNat]?).map CTransaction.vout).getD []

/-- A block whose payments were verified: what they should be, and the two outputs that were compared
    with it. -/
structure Pays (env : Env) (n : Node) (block : CBlock) (pindexBest : CBlockIndex)
    (nStandardPayment : Int) (masternode devops : CTxOut) : Prop where
  standard : standardPayment n block.isProofOfStake = .ok nStandardPayment
  expected : (paymentIndexes block.isProofOfStake block.paidOutputs.length).2.2 = true
  masternodeOut : block.paidOutputs[(paymentIndexes block.isProofOfStake
    block.paidOutputs.length).1]? = some masternode
  devopsOut : block.paidOutputs[(paymentIndexes block.isProofOfStake
    block.paidOutputs.length).2.1]? = some devops
  masternodeAmount : masternode.nValue.tdiv coin
    = (getMasternodePayment pindexBest.nHeight nStandardPayment).tdiv coin
  devopsAddress : env.addressOf devops.scriptPubKey = env.params.strDevOpsAddress
  devopsAmount : (getDevOpsPayment pindexBest.nHeight nStandardPayment).tdiv coin
    ≤ devops.nValue.tdiv coin

end CBlock

end PupaCoin
