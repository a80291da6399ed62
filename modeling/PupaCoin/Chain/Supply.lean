import PupaCoin.Chain.Reorganize

/-!
# What a block does to the money supply

The ledger of a block pairs its transactions with the previous transactions that `ConnectBlock` fetched
for them. The amounts a block creates and spends are sums over it; they say, without the accumulators
of the loop, by how much a block lets the money supply grow.
-/

namespace PupaCoin

namespace CTransaction

def valueOut (tx : CTransaction) : Int := (tx.vout.map CTxOut.nValue).sum

/-- The value of an output of a fetched transaction, 0 when it does not exist. -/
def prevValue (inputs : MapPrevTx) (prevout : COutPoint) : Int :=
  (((inputs.lookup prevout.hash).bind fun prev => prev.2.vout[prevout.n.toNat]?).map
    CTxOut.nValue).getD 0

def spentValue (inputs : MapPrevTx) (tx : CTransaction) : Int :=
  (tx.vin.map fun txin => prevValue inputs txin.prevout).sum

end CTransaction

/-- A transaction of a block and the previous transactions that were fetched for it. -/
structure LedgerEntry where
  tx : CTransaction
  inputs : MapPrevTx

namespace LedgerEntry

/-- What a transaction spends; a coinbase spends nothing. -/
def spent (entry : LedgerEntry) : Int :=
  if entry.tx.isCoinBase then 0 else entry.tx.spentValue entry.inputs

/-- What a transaction creates beyond what it spends. -/
def issue (entry : LedgerEntry) : Int := entry.tx.valueOut - entry.spent

def stakeIssue (entry : LedgerEntry) : Int := if entry.tx.isCoinStake then entry.issue else 0

def fee (entry : LedgerEntry) : Int :=
  if entry.tx.isCoinBase || entry.tx.isCoinStake then 0 else -entry.issue

end LedgerEntry

def ledgerSum (f : LedgerEntry → Int) (ledger : List LedgerEntry) : Int := (ledger.map f).sum

namespace CBlock

/-- The ledger of the transactions that the loop of `ConnectBlock` gets through from `st`. -/
def ledgerFrom (env : Env) (n : Node) (pindex : CBlockIndex) (fJustCheck : Bool) :
    ConnectState → List CTransaction → List LedgerEntry
  | _, [] => []
  | st, tx :: vtx =>
    match connectTx env n pindex fJustCheck st tx with
    | .error _ => []
    | .ok st' =>
      let inputs := tx.fetchInputs n n.view.readTxIndex st.mapQueuedChanges true false
      ⟨tx, inputs.toOption.getD ∅⟩ :: ledgerFrom env n pindex fJustCheck st' vtx

/-- The node in which the loop of `ConnectBlock` runs: after `CheckBlock`, with the limits set. -/
def loopNode (env : Env) (block : CBlock) (pindex : CBlockIndex) (fJustCheck : Bool) (n : Node) : Node :=
  (setLimits pindex (block.checkBlock env (!fJustCheck) (!fJustCheck) false n).2).2

/-- The ledger of a block that is connected on the entry `pindex`. -/
def ledger (env : Env) (block : CBlock) (pindex : CBlockIndex) (fJustCheck : Bool) (n : Node) : List LedgerEntry :=
  ledgerFrom env (block.loopNode env pindex fJustCheck n) pindex fJustCheck
    (connectInit pindex block fJustCheck) block.vtx

/-- The sum of all outputs minus the sum of all inputs spent. -/
def netIssue (ledger : List LedgerEntry) : Int :=
  ledgerSum (fun entry => entry.tx.valueOut) ledger - ledgerSum LedgerEntry.spent ledger

/-- The reward of a block without fees: `GetProofOfWorkReward(height, 0)` or
    `GetProofOfStakeReward(prev, age, 0)`. -/
def bareSubsidy (n : Node) (block : CBlock) (pindex : CBlockIndex) (nCoinAge : Nat) : Except Stop Int := do
  if block.isProofOfWork then getProofOfWorkReward n pindex.nHeight 0
  else
    let pprev ← orUndefined (pindex.pprev.bind n.mapBlockIndex.entries) "pindex->pprev"
    getProofOfStakeReward n pprev nCoinAge 0

end CBlock

/-!
## What a branch adds to the money supply

The blocks of a branch counted from the block files, before any of them is connected: every transaction
creates its outputs and takes away the outputs that it spends, which are read from where their
transactions are stored.
-/

/-- Where transactions are stored, by their hashes. -/
abbrev TxPositions := UInt256 → Option CDiskTxPos

def Node.txPositions (n : Node) : TxPositions := fun hash => (n.view.readTxIndex hash).map CTxIndex.pos

/-- The value of an output, 0 when it is not stored. -/
def storedValue (n : Node) (positions : TxPositions) (prevout : COutPoint) : Int :=
  (((positions prevout.hash).bind fun pos =>
    (CTransaction.readPrev n prevout.hash ⟨pos, []⟩).toOption.bind fun txPrev =>
      txPrev.vout[prevout.n.toNat]?).map CTxOut.nValue).getD 0

/-- What a transaction takes away: the outputs that it spends. -/
def CTransaction.takes (n : Node) (positions : TxPositions) (tx : CTransaction) : Int :=
  if tx.isCoinBase then 0
  else (tx.vin.map fun txin => storedValue n positions txin.prevout).sum

/-- A count over the transactions of a branch: where those before and in it are stored, the position of
    the next one, and what has been created. -/
structure BranchCount where
  positions : TxPositions
  nTxPos : UInt32
  created : Int

def countTx (env : Env) (n : Node) (pindex : CBlockIndex) (c : BranchCount) (tx : CTransaction) : BranchCount where
  positions := Function.update c.positions (env.getHash tx)
    (some ⟨pindex.nFile, pindex.nBlockPos, c.nTxPos⟩)
  nTxPos := c.nTxPos + UInt32.ofNat tx.serializeSize
  created := c.created + (tx.valueOut - tx.takes n c.positions)

def countBlock (env : Env) (n : Node) (c : BranchCount) (pindex : CBlockIndex) : BranchCount :=
  match readBlockFromDisk env n pindex with
  | none => c
  | some block => block.vtx.foldl (countTx env n pindex)
      { c with nTxPos := CBlock.firstTxPos pindex block false }

def branchCreates (env : Env) (n : Node) (branch : List CBlockIndex) : Int :=
  (branch.foldl (countBlock env n) ⟨n.txPositions, 0, 0⟩).created

/-- The most that a branch can create within the bound of `bIndexFactor`: a coin for every round of the
    search for the fork, and up to the end of the last whole coin. -/
def supplyRoom (nMoneySupply : Int) (diffFactor : Nat) : Int :=
  let nCoins := (nMoneySupply + coin * diffFactor).tdiv coin
  (if 0 ≤ nCoins then nCoins * coin + (coin - 1) else nCoins * coin) - nMoneySupply

end PupaCoin
