import PupaCoin.Chain.Node

/-!
# Connecting the inputs of a transaction (`main.cpp`)

`FetchInputs` collects the previous transactions of a transaction with their index entries,
`ConnectInputs` checks and spends them in a map of queued changes, `DisconnectInputs` gives them back.
-/

namespace PupaCoin

/-- `MapPrevTx`: previous transactions and their index entries. -/
abbrev MapPrevTx := AList fun _ : UInt256 => CTxIndex × CTransaction

/-- Index entries that wait to be written. -/
abbrev QueuedChanges := AList fun _ : UInt256 => CTxIndex

def scriptVerifyNone : Nat := 0
def scriptVerifyNoCache : Nat := 1

/-- `STANDARD_NOT_MANDATORY_VERIFY_FLAGS`: the flags `STRICTENC`, `NULLDUMMY` and
    `DISCOURAGE_UPGRADABLE_NOPS`, none of which is mandatory. -/
def standardNotMandatoryVerifyFlags : Nat := 2 ^ 1 + 2 ^ 4 + 2 ^ 7

def getTotalBlocksEstimate (params : CChainParams) : Int :=
  match params.mapCheckpoints.getLast? with
  | none => 0
  | some checkpoint => checkpoint.1

namespace CTransaction

/-- The transaction an index entry leads to: from the memory pool when the entry says so, else from
    the block files. -/
def readPrev (n : Node) (hash : UInt256) (txindex : CTxIndex) : Except Stop CTransaction :=
  if txindex.pos == .mempool then
    match n.mempool.lookup hash with
    | some txPrev => .ok txPrev
    | none => .error (.reject 0 "FetchInputs() : mempool Tx prev not found")
  else
    match n.files.readTx txindex.pos.nFile txindex.pos.nTxPos with
    | some txPrev => .ok txPrev
    | none => .error (.reject 0 "FetchInputs() : ReadFromDisk prev tx failed")

/-- The first loop of `FetchInputs`: what one input adds to `inputsRet`. `readTxIndex` reads the index
    through the database handle that the function is given. -/
def fetchInput (n : Node) (readTxIndex : UInt256 → Option CTxIndex) (mapTestPool : QueuedChanges)
    (fBlock fMiner : Bool) (inputsRet : MapPrevTx) (txin : CTxIn) : Except Stop MapPrevTx :=
  let hash := txin.prevout.hash
  if hash ∈ inputsRet then .ok inputsRet
  else
    let found :=
      if (fBlock || fMiner) && decide (hash ∈ mapTestPool) then mapTestPool.lookup hash
      else readTxIndex hash
    match found with
    | some txindex => do
      let txPrev ← readPrev n hash txindex
      return inputsRet.insert hash (txindex, txPrev)
    | none =>
      if fMiner then .error (.reject 0 "")
      else if fBlock then .error (.reject 0 "FetchInputs() : prev tx index entry not found")
      else
        match n.mempool.lookup hash with
        | none => .error (.reject 0 "FetchInputs() : mempool Tx prev not found")
        | some txPrev => .ok (inputsRet.insert hash (.new .null txPrev.vout.length, txPrev))

/-- The second loop of `FetchInputs`: the output that an input spends exists. -/
def checkPrevout (inputsRet : MapPrevTx) (txin : CTxIn) : Except Stop Unit := do
  let (txindex, txPrev) ← orUndefined (inputsRet.lookup txin.prevout.hash) "FetchInputs() : inputsRet"
  rejectIf (decide (txin.prevout.n.toNat ≥ txPrev.vout.length)
    || decide (txin.prevout.n.toNat ≥ txindex.vSpent.length)) 100
    "FetchInputs() : prevout.n out of range"

def fetchInputs (n : Node) (readTxIndex : UInt256 → Option CTxIndex) (mapTestPool : QueuedChanges)
    (fBlock fMiner : Bool) (tx : CTransaction) : Except Stop MapPrevTx :=
  if tx.isCoinBase then .ok ∅
  else do
    let inputsRet ← tx.vin.foldlM (fetchInput n readTxIndex mapTestPool fBlock fMiner) ∅
    tx.vin.forM (checkPrevout inputsRet)
    return inputsRet

def getOutputFor (inputs : MapPrevTx) (txin : CTxIn) : Except Stop CTxOut :=
  match inputs.lookup txin.prevout.hash with
  | none => .error (.exception "CTransaction::GetOutputFor() : prevout.hash not found")
  | some (_, txPrev) =>
    match txPrev.vout[txin.prevout.n.toNat]? with
    | none => .error (.exception "CTransaction::GetOutputFor() : prevout.n out of range")
    | some txout => .ok txout

/-- One round of `GetValueMapIn`. -/
def addValueIn (inputs : MapPrevTx) (nResult : Int) (txin : CTxIn) : Except Stop Int := do
  let txout ← getOutputFor inputs txin
  addI64 nResult txout.nValue

def getValueMapIn (inputs : MapPrevTx) (tx : CTransaction) : Except Stop Int :=
  if tx.isCoinBase then .ok 0 else tx.vin.foldlM (addValueIn inputs) 0

/-- One round of `GetP2SHSigOpCount`. -/
def addP2SHSigOps (inputs : MapPrevTx) (nSigOps : Nat) (txin : CTxIn) : Except Stop Nat := do
  let prevout ← getOutputFor inputs txin
  if prevout.scriptPubKey.isPayToScriptHash then
    return nSigOps + prevout.scriptPubKey.getSigOpCountP2SH txin.scriptSig
  else return nSigOps

def getP2SHSigOpCount (inputs : MapPrevTx) (tx : CTransaction) : Except Stop Nat :=
  if tx.isCoinBase then .ok 0 else tx.vin.foldlM (addP2SHSigOps inputs) 0

/-- The first loop of `ConnectInputs`: the inexpensive checks of one input, and the sum of the values.
    `pindexBlock` is the block being connected with its ancestors. -/
def checkInput (pindexBlock : List CBlockIndex) (tx : CTransaction) (inputs : MapPrevTx)
    (nValueIn : Int) (txin : CTxIn) : Except Stop Int := do
  let (txindex, txPrev) ← orUndefined (inputs.lookup txin.prevout.hash) "ConnectInputs() : inputs"
  rejectIf (decide (txin.prevout.n.toNat ≥ txPrev.vout.length)
    || decide (txin.prevout.n.toNat ≥ txindex.vSpent.length)) 100
    "ConnectInputs() : prevout.n out of range"
  rejectIf ((txPrev.isCoinBase || txPrev.isCoinStake)
    && (isConfirmedInNPrevBlocks txindex pindexBlock nTransactionMaturity).isSome) 0
    "ConnectInputs() : tried to spend coinbase or coinstake at depth"
  rejectIf (decide (txPrev.nTime > tx.nTime)) 100
    "ConnectInputs() : transaction timestamp earlier than input transaction"
  let txout ← orUndefined txPrev.vout[txin.prevout.n.toNat]? "txPrev.vout[prevout.n]"
  rejectIf txout.isEmpty 1 "ConnectInputs() : special marker is not spendable"
  let sum ← addI64 nValueIn txout.nValue
  rejectIf (!moneyRange txout.nValue || !moneyRange sum) 100
    "ConnectInputs() : txin values out of range"
  return sum

/-- The signature check of one input. Blocks below the last checkpoint are not checked. -/
def checkInputSignature (env : Env) (n : Node) (tx txPrev : CTransaction) (i : Nat) (fBlock : Bool)
    (flags : Nat) : Except Stop Unit :=
  if fBlock && decide (n.nBestHeight < getTotalBlocksEstimate env.params) then .ok ()
  else if env.verifySignature txPrev tx i flags then .ok ()
  else if flags &&& standardNotMandatoryVerifyFlags ≠ 0
      ∧ env.verifySignature txPrev tx i (flags - (flags &&& standardNotMandatoryVerifyFlags)) = true then
    .error (.reject 0 "ConnectInputs() : non-mandatory VerifySignature failed")
  else .error (.reject 100 "ConnectInputs() : VerifySignature failed")

/-- The second loop of `ConnectInputs`: one input is checked for a conflict and spent, in the map of
    inputs and, for a block or a miner, in the queued changes. -/
def spendInput (env : Env) (n : Node) (tx : CTransaction) (posThisTx : CDiskTxPos)
    (fBlock fMiner : Bool) (flags : Nat) (fValidateSig : Bool)
    (maps : MapPrevTx × QueuedChanges) (txin : CTxIn × Nat) : Except Stop (MapPrevTx × QueuedChanges) := do
  let hash := txin.1.prevout.hash
  let nOut := txin.1.prevout.n.toNat
  let (txindex, txPrev) ← orUndefined (maps.1.lookup hash) "ConnectInputs() : inputs"
  let spent ← orUndefined txindex.vSpent[nOut]? "txindex.vSpent[prevout.n]"
  rejectIf (!spent.isNull) 0 "ConnectInputs() : prev tx already used"
  if fValidateSig then checkInputSignature env n tx txPrev txin.2 fBlock flags
  let txindex := txindex.setSpent nOut posThisTx
  return (maps.1.insert hash (txindex, txPrev), if fBlock || fMiner then maps.2.insert hash txindex else maps.2)

/-- The check of `ConnectInputs` that an ordinary transaction does not create value. -/
def checkFees (tx : CTransaction) (nValueIn : Int) : Except Stop Unit :=
  if tx.isCoinStake then .ok ()
  else do
    let nValueOut ← tx.getValueOut
    rejectIf (nValueIn < nValueOut) 100 "ConnectInputs() : value in < value out"
    rejectIf (nValueIn - nValueOut < 0) 100 "ConnectInputs() : nTxFee < 0"
    rejectIf (!moneyRange (nValueIn - nValueOut)) 100 "ConnectInputs() : nFees out of range"

/-- `ConnectInputs`: the queued changes afterwards. -/
def connectInputs (env : Env) (n : Node) (inputs : MapPrevTx) (mapTestPool : QueuedChanges)
    (posThisTx : CDiskTxPos) (pindexBlock : List CBlockIndex) (fBlock fMiner : Bool) (flags : Nat)
    (fValidateSig : Bool) (tx : CTransaction) : Except Stop QueuedChanges :=
  if tx.isCoinBase then .ok mapTestPool
  else do
    let nValueIn ← tx.vin.foldlM (checkInput pindexBlock tx inputs) 0
    let maps ← tx.vin.zipIdx.foldlM
      (spendInput env n tx posThisTx fBlock fMiner flags fValidateSig) (inputs, mapTestPool)
    checkFees tx nValueIn
    return maps.2

/-- One round of `DisconnectInputs`: the output that an input spent is given back. -/
def disconnectInput (txin : CTxIn) : NodeM Unit := do
  let n ← Exec.read
  match n.view.readTxIndex txin.prevout.hash with
  | none => Exec.stop (.reject 0 "DisconnectInputs() : ReadTxIndex failed")
  | some txindex =>
    if txin.prevout.n.toNat ≥ txindex.vSpent.length then
      Exec.stop (.reject 0 "DisconnectInputs() : prevout.n out of range")
    else
      updateTxIndex txin.prevout.hash (txindex.setSpent txin.prevout.n.toNat .null)

def disconnectInputs (env : Env) (tx : CTransaction) : NodeM Unit := do
  if !tx.isCoinBase then tx.vin.forM disconnectInput
  eraseTxIndex (env.getHash tx)

/-- `ReadFromDisk(txdb, prevout, txindex)`: the transaction of an outpoint and its index entry. -/
def readFromDisk (n : Node) (readTxIndex : UInt256 → Option CTxIndex) (prevout : COutPoint) :
    Option (CTransaction × CTxIndex) := do
  let txindex ← readTxIndex prevout.hash
  let tx ← n.files.readTx txindex.pos.nFile txindex.pos.nTxPos
  if prevout.n.toNat ≥ tx.vout.length then none else some (tx, txindex)

/-- One round of `GetCoinAge`, in cent-seconds. -/
def addCoinAge (n : Node) (readTxIndex : UInt256 → Option CTxIndex) (pindexPrev : List CBlockIndex)
    (tx : CTransaction) (bnCentSecond : Int) (txin : CTxIn) : Except Stop Int :=
  match readFromDisk n readTxIndex txin.prevout with
  | none => .ok bnCentSecond
  | some (txPrev, txindex) => do
    rejectIf (decide (tx.nTime < txPrev.nTime)) 0
      "ConnectBlock() : unable to get coin age for coinstake"
    if (isConfirmedInNPrevBlocks txindex pindexPrev (nStakeMinConfirmations - 1)).isSome then
      return bnCentSecond
    else
      let txout ← orUndefined txPrev.vout[txin.prevout.n.toNat]? "txPrev.vout[txin.prevout.n]"
      let nTimeDiff : Int := (tx.nTime - txPrev.nTime).toNat
      return bnCentSecond + (txout.nValue * nTimeDiff).tdiv cent

/-- `GetCoinAge`, in coin-days. -/
def getCoinAge (n : Node) (readTxIndex : UInt256 → Option CTxIndex) (pindexPrev : List CBlockIndex)
    (tx : CTransaction) : Except Stop Nat :=
  if tx.isCoinBase then .ok 0
  else do
    let bnCentSecond ← tx.vin.foldlM (addCoinAge n readTxIndex pindexPrev tx) 0
    let bnCoinDay := ((bnCentSecond * cent).tdiv coin).tdiv (24 * 60 * 60)
    return bnCoinDay.natAbs % 2 ^ 64

end CTransaction

end PupaCoin
