import PupaCoin.Chain.BlockSize
import PupaCoin.Chain.CheckBlock
import PupaCoin.Chain.Inputs

/-!
# Connecting and disconnecting a block (`main.cpp`)

`ConnectBlock` checks the block again, runs over its transactions with the accumulators of
`ConnectState`, checks what the block creates, and then writes: the supply into the block index, the
queued index entries and the two block records into the database. `DisconnectBlock` takes the index
changes back.
-/

namespace PupaCoin

/-- The local variables of `ConnectBlock` that its loop over the transactions changes. -/
structure ConnectState where
  mapQueuedChanges : QueuedChanges
  nTxPos : UInt32
  nSigOps : Nat
  nFees : Int
  nValueIn : Int
  nValueOut : Int
  nStakeReward : Int

namespace CBlock

/-- The position of the first transaction of a block: behind the header and the number of
    transactions. The position 1 marks a block that is only checked. -/
def firstTxPos (pindex : CBlockIndex) (block : CBlock) (fJustCheck : Bool) : UInt32 :=
  if fJustCheck then 1
  else pindex.nBlockPos + 80 + UInt32.ofNat (getSizeOfCompactSize block.vtx.length)

/-- `ConnectState` before the first transaction. -/
def connectInit (pindex : CBlockIndex) (block : CBlock) (fJustCheck : Bool) : ConnectState where
  mapQueuedChanges := ∅
  nTxPos := firstTxPos pindex block fJustCheck
  nSigOps := 0
  nFees := 0
  nValueIn := 0
  nValueOut := 0
  nStakeReward := 0

/-- The part of a round for a coinbase: its outputs are counted. -/
def connectCoinbase (st : ConnectState) (tx : CTransaction) : Except Stop ConnectState := do
  let nTxValueOut ← tx.getValueOut
  let nValueOut ← addI64 st.nValueOut nTxValueOut
  return { st with nValueOut }

/-- `nFees` after a transaction: a coinstake pays no fee. -/
def addTxFee (tx : CTransaction) (nFees nTxValueIn nTxValueOut : Int) : Except Stop Int :=
  if tx.isCoinStake then .ok nFees
  else do
    let nTxFee ← addI64 nTxValueIn (-nTxValueOut)
    addI64 nFees nTxFee

/-- `nStakeReward` after a transaction: that of the last coinstake. -/
def setStakeReward (tx : CTransaction) (nStakeReward nTxValueIn nTxValueOut : Int) : Except Stop Int :=
  if tx.isCoinStake then addI64 nTxValueOut (-nTxValueIn) else .ok nStakeReward

/-- The part of a round for any other transaction: its inputs are fetched, counted in the accumulators
    and connected. -/
def connectTxInputs (env : Env) (n : Node) (pindexBlock : List CBlockIndex) (posThisTx : CDiskTxPos)
    (st : ConnectState) (tx : CTransaction) : Except Stop ConnectState := do
  let mapInputs ← tx.fetchInputs n n.view.readTxIndex st.mapQueuedChanges true false
  let nP2SH ← tx.getP2SHSigOpCount mapInputs
  let nSigOps := (st.nSigOps + nP2SH) % 2 ^ 32
  rejectIf (nSigOps > n.maxBlockSigops) 100 "ConnectBlock() : too many sigops"
  let nTxValueIn ← tx.getValueMapIn mapInputs
  let nTxValueOut ← tx.getValueOut
  let nValueIn ← addI64 st.nValueIn nTxValueIn
  let nValueOut ← addI64 st.nValueOut nTxValueOut
  let nFees ← addTxFee tx st.nFees nTxValueIn nTxValueOut
  let nStakeReward ← setStakeReward tx st.nStakeReward nTxValueIn nTxValueOut
  let mapQueuedChanges ← tx.connectInputs env n mapInputs st.mapQueuedChanges posThisTx pindexBlock
    true false scriptVerifyNoCache true
  return { st with mapQueuedChanges, nSigOps, nFees, nValueIn, nValueOut, nStakeReward }

def connectTxValues (env : Env) (n : Node) (pindexBlock : List CBlockIndex) (posThisTx : CDiskTxPos)
    (st : ConnectState) (tx : CTransaction) : Except Stop ConnectState :=
  if tx.isCoinBase then connectCoinbase st tx else connectTxInputs env n pindexBlock posThisTx st tx

/-- One round of the loop of `ConnectBlock`. -/
def connectTx (env : Env) (n : Node) (pindex : CBlockIndex) (fJustCheck : Bool) (st : ConnectState)
    (tx : CTransaction) : Except Stop ConnectState := do
  let nSigOps := (st.nSigOps + tx.getLegacySigOpCount) % 2 ^ 32
  rejectIf (nSigOps > n.maxBlockSigops) 100 "ConnectBlock() : too many sigops"
  let posThisTx : CDiskTxPos := ⟨pindex.nFile, pindex.nBlockPos, st.nTxPos⟩
  let nTxPos := if fJustCheck then st.nTxPos else st.nTxPos + UInt32.ofNat tx.serializeSize
  let st ← connectTxValues env n (n.mapBlockIndex.chain pindex.phashBlock) posThisTx
    { st with nSigOps, nTxPos } tx
  return { st with
    mapQueuedChanges := st.mapQueuedChanges.insert (env.getHash tx) (.new posThisTx tx.vout.length) }

/-- The check of a proof-of-work block: the coinbase does not take more than its reward. -/
def checkWorkReward (n : Node) (pindex : CBlockIndex) (block : CBlock) (st : ConnectState) : Except Stop Unit := do
  let nReward ← getProofOfWorkReward n pindex.nHeight st.nFees
  let coinbase ← orUndefined block.vtx[0]? "vtx[0]"
  let nActual ← coinbase.getValueOut
  rejectIf (nActual > nReward) 50 "ConnectBlock() : coinbase reward exceeded"

/-- The check of a proof-of-stake block: the coinstake does not create more than its reward. -/
def checkStakeReward (n : Node) (pindex : CBlockIndex) (block : CBlock) (st : ConnectState) : Except Stop Unit := do
  let coinstake ← orUndefined block.vtx[1]? "vtx[1]"
  let nCoinAge ← coinstake.getCoinAge n n.view.readTxIndex (n.mapBlockIndex.chain? pindex.pprev)
  let pprev ← orUndefined (pindex.pprev.bind n.mapBlockIndex.entries) "pindex->pprev"
  let nCalculatedStakeReward ← getProofOfStakeReward n pprev nCoinAge st.nFees
  rejectIf (st.nStakeReward > nCalculatedStakeReward) 100 "ConnectBlock() : coinstake pays too much"

/-- The check of `ConnectBlock` on what the block creates. -/
def checkReward (n : Node) (pindex : CBlockIndex) (block : CBlock) (st : ConnectState) : Except Stop Unit :=
  if block.isProofOfWork then checkWorkReward n pindex block st
  else checkStakeReward n pindex block st

/-- `pindex->pprev? pindex->pprev->nMoneySupply : 0`. -/
def prevMoneySupply (n : Node) (pindex : CBlockIndex) : Int :=
  ((pindex.pprev.bind n.mapBlockIndex.entries).map CBlockIndex.nMoneySupply).getD 0

/-- The addresses that the address index files a transaction under: those of the outputs of its
    previous transactions and of its own outputs. -/
def addrIndexIds (env : Env) (n : Node) (tx : CTransaction) : Except Stop (List (BitVec 160)) := do
  let mapInputs ← tx.fetchInputs n n.view.readTxIndex ∅ true false
  return (mapInputs.entries.flatMap fun input =>
      input.2.2.vout.flatMap fun txout => env.buildAddrIndex txout.scriptPubKey)
    ++ tx.vout.flatMap fun txout => env.buildAddrIndex txout.scriptPubKey

/-- The writes of `ConnectBlock` to the address index. -/
def writeAddrIndexes (env : Env) (block : CBlock) : NodeM Unit :=
  if env.fAddrIndex then
    block.vtx.forM fun tx => do
      let n ← Exec.read
      let addrIds ← Exec.lift (addrIndexIds env n tx)
      addrIds.forM fun addrId => writeAddrIndex addrId (env.getHash tx)
  else pure ()

/-- The record of the previous block, with `hashNext` replaced. -/
def writePrevBlockIndex (env : Env) (pindex : CBlockIndex) (hashNext : UInt256) : NodeM Unit :=
  match pindex.pprev with
  | none => pure ()
  | some hprev => do
    let pprev ← deref hprev
    writeBlockIndex env { CDiskBlockIndex.ofIndex pprev with hashNext }

/-- The last part of `ConnectBlock`: the queued changes, the address index, the record of the previous
    block and the wallets. -/
def connectWrites (env : Env) (block : CBlock) (pindex : CBlockIndex) (st : ConnectState) : NodeM Unit := do
  st.mapQueuedChanges.entries.forM fun entry => updateTxIndex entry.1 entry.2
  writeAddrIndexes env block
  writePrevBlockIndex env pindex pindex.phashBlock
  syncWithWallets block true

/-- `MAX_BLOCK_SIZE = ComputeBlockSize(pindex)` and the limits that follow from it. -/
def setLimits (pindex : CBlockIndex) : NodeM Unit := do
  let size ← BlockSizeCalculator.computeBlockSize pindex
  Exec.update fun n =>
    { n with maxBlockSize := size, maxBlockSigops := size / 50, maxTxSigops := size / 50 / 5 }

/-- What a block adds to the money supply is recorded in its entry and its record. -/
def recordSupply (env : Env) (h : UInt256) (st : ConnectState) : NodeM Unit := do
  let n ← Exec.read
  let pindex ← deref h
  let nMint := st.nValueOut - st.nValueIn + st.nFees
  let nMoneySupply := prevMoneySupply n pindex + st.nValueOut - st.nValueIn
  Exec.update fun n => { n with mapBlockIndex := n.mapBlockIndex.setSupply h nMint nMoneySupply }
  writeBlockIndex env (.ofIndex { pindex with nMint, nMoneySupply })

/-- `ConnectBlock` on the block index entry `h`. -/
def connectBlock (env : Env) (block : CBlock) (h : UInt256) (fJustCheck : Bool) : NodeM Unit := do
  block.checkBlock env (!fJustCheck) (!fJustCheck) false
  let pindex ← deref h
  setLimits pindex
  let n ← Exec.read
  let st ← Exec.lift (block.vtx.foldlM (connectTx env n pindex fJustCheck)
    (connectInit pindex block fJustCheck))
  Exec.lift (checkReward n pindex block st)
  recordSupply env h st
  if fJustCheck then pure () else connectWrites env block pindex st

/-- `DisconnectBlock` on the block index entry `h`. -/
def disconnectBlock (env : Env) (block : CBlock) (h : UInt256) : NodeM Unit := do
  block.vtx.reverse.forM (CTransaction.disconnectInputs env)
  let pindex ← deref h
  writePrevBlockIndex env pindex 0
  syncWithWallets block false

/-- The node after `recordSupply`. -/
def supplyRecorded (env : Env) (n : Node) (h : UInt256) (pindex : CBlockIndex) (st : ConnectState) : Node :=
  let nMint := st.nValueOut - st.nValueIn + st.nFees
  let nMoneySupply := prevMoneySupply n pindex + st.nValueOut - st.nValueIn
  let record := CDiskBlockIndex.ofIndex { pindex with nMint, nMoneySupply }
  ({ n with mapBlockIndex := n.mapBlockIndex.setSupply h nMint nMoneySupply } : Node).dbApply
    (.put (.blockIndex (record.getBlockHash env)) (.blockIndex record))

/-- The phases of a call of `ConnectBlock` on the entry `pindex` in front of its first lasting write:
    `n1` is the node in which the loop runs, `st` what the loop computes. -/
structure Approves (env : Env) (block : CBlock) (h : UInt256) (fJustCheck : Bool) (n : Node)
    (pindex : CBlockIndex) (n1 : Node) (st : ConnectState) : Prop where
  checked : Checked env block n (!fJustCheck) (!fJustCheck) false
  entry : n.mapBlockIndex.entries h = some pindex
  limits : setLimits pindex (paymentStep env block n).2 = (.ok (), n1)
  loop : block.vtx.foldlM (connectTx env n1 pindex fJustCheck) (connectInit pindex block fJustCheck)
    = .ok st
  reward : checkReward n1 pindex block st = .ok ()

end CBlock

/-! ## Blocks that are taken back -/

/-- The entry with its null positions as `SetNull` leaves them: the file number alone makes a position null. -/
def CTxIndex.normal (txindex : CTxIndex) : CTxIndex :=
  { txindex with vSpent := txindex.vSpent.map fun pos => if pos.isNull then .null else pos }

def SameTxIndex (n n' : Node) : Prop := n'.view.readTxIndex = n.view.readTxIndex

/-- Histories in which every block that is connected is disconnected again, and in the reverse order: the hashes of the
transactions of the blocks, the node before and the node after. Between the calls the transaction index stays. -/
inductive TakenBack (env : Env) : List UInt256 → Node → Node → Prop
  | same {n n' : Node} : SameTxIndex n n' → TakenBack env [] n n'
  | next {hashes hashes' : List UInt256} {n m n' : Node} :
      TakenBack env hashes n m → TakenBack env hashes' m n' → TakenBack env (hashes ++ hashes') n n'
  | undo {block : CBlock} {hashes : List UInt256} {h h' : UInt256} {n n1 n2 n' : Node} :
      block.connectBlock env h false n = (.ok (), n1) → TakenBack env hashes n1 n2 →
      block.disconnectBlock env h' n2 = (.ok (), n') → TakenBack env (block.vtx.map env.getHash ++ hashes) n n'

end PupaCoin
