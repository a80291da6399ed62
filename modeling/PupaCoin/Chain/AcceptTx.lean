import PupaCoin.Chain.OrphanTx
import PupaCoin.Chain.StandardInputs

/-!
# Loose transactions (`main.cpp`)

`AcceptToMemoryPool` checks a transaction that is not in a block and puts it into the memory pool, or reports that its
inputs are missing. The `tx` message keeps a transaction with missing inputs as an orphan, and tries the orphans again
that spend an output of an accepted one.
-/

namespace PupaCoin

/-- `MAX_ORPHAN_TRANSACTIONS`, from the initial `MAX_BLOCK_SIZE`. -/
def maxOrphanTransactions : Nat := 15256128 / 100

/-- The node, the orphans, the static variables of the rate limiter and what `pfMissingInputs` points at. The
transactions of the two lists have been sent to the wallets and to the peers. -/
structure TxNode where
  node : Node
  orphans : OrphanTxs
  dFreeCount : Float
  nLastTime : Int
  fMissingInputs : Bool
  synced : List CTransaction
  relayed : List CTransaction

/-- What the handling of loose transactions is parametric in. -/
structure TxEnv where
  env : Env
  /-- The script environment of an input of a transaction. -/
  scriptEnv : CTransaction → Nat → ScriptEnv
  mapMNengineBroadcastTxes : UInt256 → Bool
  /-- `GetArg("-limitfreerelay", 15)`. -/
  nLimitFreeRelay : Int
  getRandHash : Nat → UInt256

/-- The arguments of `AcceptToMemoryPool` that say which fees it wants. -/
structure FeeRules where
  fLimitFree : Bool
  fRejectInsaneFee : Bool
  ignoreFees : Bool

/-- A function that handles loose transactions. -/
abbrev TxM := Exec TxNode Stop

namespace TxNode

/-- `ContainsTx`, through a database handle of its own. -/
def containsTx (s : TxNode) (hash : UInt256) : Bool := (s.node.pdb (.tx hash)).isSome

/-- `pool.exists`. -/
def inPool (s : TxNode) (hash : UInt256) : Bool := (s.node.mempool.lookup hash).isSome

/-- `*pfMissingInputs = false`. -/
def clearFlag (s : TxNode) : TxNode := { s with fMissingInputs := false }

/-- `pool.addUnchecked` and `SyncWithWallets`. -/
def store (E : TxEnv) (tx : CTransaction) (s : TxNode) : TxNode :=
  { s with
    node := { s.node with mempool := s.node.mempool.addUnchecked (E.env.getHash tx) tx }
    synced := s.synced ++ [tx] }

end TxNode

/-- `error(message)`, which leaves the misbehaviour score of the transaction as it is. -/
def Stop.relabel (message : String) : Stop → Stop
  | .reject nDoS _ => .reject nDoS message
  | stop => stop

/-- The value that a function returns, where it does not throw. -/
def TxM.verdict (m : TxM Unit) : TxM Bool := fun s =>
  match m s with
  | (.ok (), s') => (.ok true, s')
  | (.error (.reject _ _), s') => (.ok false, s')
  | (.error stop, s') => (.error stop, s')

namespace TxEnv

variable (E : TxEnv)

/-- Transactions are standard, unless on the test network. -/
def checkStandard (n : Node) (tx : CTransaction) : Except Stop Unit :=
  if E.env.params.testNet then .ok ()
  else
    (tx.isStandardTx n.nBestHeight n.ext.getAdjustedTime).mapError fun reason =>
      .reject 0 ("AcceptToMemoryPool : nonstandard transaction: " ++ reason)

/-- The checks that come before the inputs are looked for. -/
def checkLoose (s : TxNode) (tx : CTransaction) : Except Stop Unit := do
  let n := s.node
  let hash := E.env.getHash tx
  (tx.checkTransaction n.maxBlockSize).mapError (Stop.relabel "AcceptToMemoryPool : CheckTransaction failed")
  rejectIf tx.isCoinBase 100 "AcceptToMemoryPool : coinbase as individual tx"
  rejectIf tx.isCoinStake 100 "AcceptToMemoryPool : coinstake as individual tx"
  checkStandard E n tx
  rejectIf (s.inPool hash) 0 ""
  rejectIf (tx.vin.any fun txin => (n.ext.mapLockedInputs txin.prevout).any (· != hash)) 0
    "AcceptToMemoryPool : conflicts with existing transaction lock: "
  rejectIf (tx.vin.any fun txin => decide (txin.prevout ∈ n.mempool.mapNextTx)) 0 ""
  rejectIf (s.containsTx hash) 0 ""

def lacksInputs (s : TxNode) (tx : CTransaction) : Bool := tx.vin.any fun txin => !s.containsTx txin.prevout.hash

/-- The rate limiter for transactions that pay less than the relay fee. -/
def limitFreeTx (nSize : Nat) : TxM Unit := do
  let s ← Exec.read
  let nNow := s.node.ext.getTime
  let dFreeCount := s.dFreeCount * Float.pow (1.0 - 1.0 / 600.0) (Float.ofInt (nNow - s.nLastTime))
  Exec.update fun s => { s with dFreeCount, nLastTime := nNow }
  if dFreeCount > Float.ofInt (E.nLimitFreeRelay * 10 * 1000) then
    Exec.stop (.reject 0 "AcceptableInputs : free transaction rejected by rate limiter")
  else
    Exec.update fun s => { s with dFreeCount := dFreeCount + Float.ofNat nSize }

/-- The checks that the fee is high enough, which are not made for the transactions of masternodes. -/
def checkRelayFee (rules : FeeRules) (tx : CTransaction) (nFees : Int) : TxM Unit :=
  let nSize := tx.serializeSize
  if E.mapMNengineBroadcastTxes (E.env.getHash tx) || rules.ignoreFees then pure ()
  else do
    Exec.lift (rejectIf (rules.fLimitFree && decide (nFees < getMinFee tx nSize true .relay)) 0
      "AcceptToMemoryPool : not enough fees")
    if rules.fLimitFree && decide (nFees < minRelayTxFee) then limitFreeTx E nSize else pure ()

def checkFeeRules (rules : FeeRules) (tx : CTransaction) (nFees : Int) : TxM Unit := do
  checkRelayFee E rules tx nFees
  Exec.lift (rejectIf (rules.fRejectInsaneFee && decide (nFees > minRelayTxFee * 10000)) 0
    "AcceptableInputs: : insane fees")

/-- The checks of the inputs as they are fetched, up to the fee that they leave. -/
def checkFetched (s : TxNode) (tx : CTransaction) : Except Stop (MapPrevTx × Int) := do
  let n := s.node
  let mapInputs ← (tx.fetchInputs n n.pdb.readTxIndex ∅ false false)
  if !E.env.params.testNet then
    let standard ← tx.areInputsStandard (E.scriptEnv tx) mapInputs
    rejectIf (!standard) 0 "AcceptToMemoryPool : nonstandard transaction input"
  let nP2SHSigOps ← tx.getP2SHSigOpCount mapInputs
  rejectIf (decide ((tx.getLegacySigOpCount + nP2SHSigOps) % 2 ^ 32 > n.maxTxSigops)) 0
    "AcceptToMemoryPool : too many sigops"
  let nValueIn ← tx.getValueMapIn mapInputs
  let nValueOut ← tx.getValueOut
  let nFees ← addI64 nValueIn (-nValueOut)
  return (mapInputs, nFees)

/-- The two calls of `ConnectInputs`, with the standard and with the mandatory flags. -/
def checkConnect (s : TxNode) (tx : CTransaction) (mapInputs : MapPrevTx) : Except Stop Unit := do
  let n := s.node
  let pindexBest := n.mapBlockIndex.chain? n.pindexBest
  let _ ← (tx.connectInputs E.env n mapInputs ∅ .mempool pindexBest false false
    standardNotMandatoryVerifyFlags true).mapError (Stop.relabel "AcceptToMemoryPool : ConnectInputs failed")
  let _ ← (tx.connectInputs E.env n mapInputs ∅ .mempool pindexBest false false scriptVerifyNone
    true).mapError (Stop.relabel "AcceptToMemoryPool: : BUG! PLEASE REPORT THIS! ConnectInputs failed")

/-- The checks that come after the scan for missing inputs. -/
def checkInputs (rules : FeeRules) (tx : CTransaction) : TxM Unit := do
  let s ← Exec.read
  let (mapInputs, nFees) ← Exec.lift (checkFetched E s tx)
  checkFeeRules E rules tx nFees
  Exec.lift (checkConnect E s tx mapInputs)

def acceptToMemoryPool (rules : FeeRules) (tx : CTransaction) : TxM Unit := do
  Exec.update TxNode.clearFlag
  let s ← Exec.read
  Exec.lift (checkLoose E s tx)
  if lacksInputs s tx then
    Exec.update fun s => { s with fMissingInputs := true }
    Exec.stop (.reject 0 "")
  else
    checkInputs E rules tx
    Exec.update (TxNode.store E tx)

/-- `mapOrphanTransactions[hash]`, which enters an empty transaction under a hash that is not there. -/
def orphanAt (hash : UInt256) : TxM CTransaction := do
  let s ← Exec.read
  match s.orphans.mapOrphanTransactions.find? hash with
  | some tx => return tx
  | none => do
    let tx : CTransaction :=
      { nVersion := 1, nTime := UInt32.ofInt s.node.ext.getAdjustedTime, vin := [], vout := [], nLockTime := 0 }
    Exec.update fun s =>
      { s with orphans := { s.orphans with mapOrphanTransactions := s.orphans.mapOrphanTransactions.set hash tx } }
    return tx

/-- The rules for an orphan: the defaults. -/
def orphanRules : FeeRules := ⟨true, false, false⟩

/-- One round over the orphans that spend an accepted transaction: what it adds to `vWorkQueue` and to `vEraseQueue`. -/
def tryOrphan (queues : List UInt256 × List UInt256) (orphanTxHash : UInt256) : TxM (List UInt256 × List UInt256) := do
  let orphanTx ← orphanAt orphanTxHash
  if ← TxM.verdict (acceptToMemoryPool E orphanRules orphanTx) then
    Exec.update fun s => { s with relayed := s.relayed ++ [orphanTx] }
    return (queues.1 ++ [orphanTxHash], queues.2 ++ [orphanTxHash])
  else
    let s ← Exec.read
    -- it has its inputs but is not accepted, so it will never be
    if !s.fMissingInputs then return (queues.1, queues.2 ++ [orphanTxHash]) else return queues

/-- The loop over `vWorkQueue`, from its next element on: what it adds to `vEraseQueue`. -/
def workLoop : Nat → List UInt256 → List UInt256 → TxM (List UInt256)
  | 0, _, vEraseQueue => return vEraseQueue
  | _ + 1, [], vEraseQueue => return vEraseQueue
  | fuel + 1, hash :: vWorkQueue, vEraseQueue => do
    let s ← Exec.read
    match s.orphans.mapOrphanTransactionsByPrev.find? hash with
    | none => workLoop fuel vWorkQueue vEraseQueue
    | some hashes => do
      let queues ← (hashes.sort (· ≤ ·)).foldlM (tryOrphan E) (vWorkQueue, vEraseQueue)
      workLoop fuel queues.1 queues.2

/-- The orphans that depend on an accepted transaction are tried, and those of them that are accepted or will never be
    are erased. An orphan is accepted once at most, so their number and one is enough fuel. -/
def processOrphans (hash : UInt256) : TxM Unit := do
  let s ← Exec.read
  let vEraseQueue ← workLoop E (s.orphans.mapOrphanTransactions.size + 1) [hash] []
  Exec.update fun s => { s with orphans := vEraseQueue.foldl (fun orphans h => orphans.eraseOrphanTx h) s.orphans }

def keepOrphan (tx : CTransaction) : TxM Unit := do
  Exec.update fun s => { s with orphans := (s.orphans.addOrphanTx E.env.getHash tx).2 }
  let s ← Exec.read
  match s.orphans.limitOrphanTxSize E.getRandHash maxOrphanTransactions with
  | some (_, orphans) => Exec.update fun s => { s with orphans }
  | none => Exec.stop (.undefined "LimitOrphanTxSize")

/-- The `tx` message, behind the test whether the transaction is there already, and the `dstx` message behind the test
    of its masternode, which makes it ignore fees. -/
def processTx (ignoreFees : Bool) (tx : CTransaction) : TxM Unit := do
  if ← TxM.verdict (acceptToMemoryPool E ⟨true, false, ignoreFees⟩ tx) then
    Exec.update fun s => { s with relayed := s.relayed ++ [tx] }
    processOrphans E (E.env.getHash tx)
  else
    let s ← Exec.read
    if s.fMissingInputs then keepOrphan E tx

section Statements

variable (rules : FeeRules) (tx : CTransaction) (s : TxNode)

/-- `AcceptToMemoryPool` returns `true`. -/
def Accepts : Prop := (acceptToMemoryPool E rules tx s).1 = .ok ()

/-- It returns `false` and has set `*pfMissingInputs`. -/
def ReportsMissing : Prop :=
  (∃ nDoS message, (acceptToMemoryPool E rules tx s).1 = .error (.reject nDoS message))
    ∧ (acceptToMemoryPool E rules tx s).2.fMissingInputs = true

/-- The parent of some input is neither in the index nor in the pool. -/
def LacksParent : Prop :=
  ∃ txin ∈ tx.vin, s.containsTx txin.prevout.hash = false ∧ s.inPool txin.prevout.hash = false

/-- All parents are in the index or in the pool, and one is in the pool alone. -/
def HasPoolParent : Prop :=
  (∀ txin ∈ tx.vin, s.containsTx txin.prevout.hash = true ∨ s.inPool txin.prevout.hash = true)
    ∧ ∃ txin ∈ tx.vin, s.containsTx txin.prevout.hash = false

/-- The transaction passes all checks but the scan for missing inputs. -/
def OtherwiseValid : Prop := checkLoose E s tx = .ok () ∧ (checkInputs E rules tx s).1 = .ok ()

def storeValid : TxNode := TxNode.store E tx (checkInputs E rules tx s).2

end Statements

/-- Orphans, every one of which spends an output of one of the transactions before it, and is otherwise valid once
those are stored. -/
inductive ValidDescendants : TxNode → List CTransaction → List CTransaction → Prop
  | nil (s : TxNode) (stored : List CTransaction) : ValidDescendants s stored []
  | cons {s : TxNode} {stored rest : List CTransaction} {child : CTransaction} :
      s.orphans.mapOrphanTransactions.find? (E.env.getHash child) = some child →
      (∃ txin ∈ child.vin, ∃ parent ∈ stored, txin.prevout.hash = E.env.getHash parent) →
      OtherwiseValid E orphanRules child s →
      ValidDescendants (storeValid E orphanRules child s) (child :: stored) rest →
      ValidDescendants s stored (child :: rest)

/-- The transaction has been moved from the orphans into the pool. -/
def Moved (tx : CTransaction) (s : TxNode) : Prop :=
  s.inPool (E.env.getHash tx) = true ∧ s.orphans.mapOrphanTransactions.find? (E.env.getHash tx) = none

end TxEnv

end PupaCoin
