import PupaCoin.Lib.OrderedMap
import PupaCoin.Wallet.WalletTx

/-!
# The transaction history of a wallet (`wallet.cpp`, `wallet.h`, `walletdb.cpp`)

A wallet keeps its transactions in `mapWallet`, with an index of what they spend and one of the order in which they
came, and writes a record of each to its database. Transactions are added and updated as they are made and as
blocks are connected and disconnected; the records are what is left when the wallet is closed, and a wallet that
is opened again is made of them.

An operation that throws leaves what it has written.
-/

namespace PupaCoin

/-- `CWallet::TxPair`: a pointer to a transaction of the wallet, by the hash of its entry, or to an accounting entry.
A pointer to a transaction that has been erased points nowhere. -/
inductive TxPair where
  | tx (pwtx : Option UInt256)
  | acentry (nTime : Int)
deriving DecidableEq, Repr

/-- `CWallet`, as far as its transactions are concerned, with its database. -/
structure WalletState where
  mapWallet : OrderedMap UInt256 WalletTx
  mapTxSpends : OrderedMultimap COutPoint UInt256
  wtxOrdered : OrderedMultimap Int TxPair
  nOrderPosNext : Int
  fFileBacked : Bool
  /-- The `tx` records of the database. -/
  txRecords : OrderedMap UInt256 TxRecord

/-- What a call finds outside the transactions of the wallet. -/
structure WalletCall where
  /-- `::IsMine`, with the keys that the wallet has once it has looked for stealth payments. -/
  isMine : CScript → IsMineType
  /-- `FindStealthTransactions`: the narrations. -/
  findStealthTransactions : CTransaction → List (String × String)
  nMinimumInputValue : Int
  nAdjustedTime : UInt32
  /-- The time of the block with a hash, where it is in the block index. -/
  blockTime : UInt256 → Option UInt32
  /-- Whether the database takes a record. -/
  writeTx : TxRecord → Bool
  /-- The memory of the caches that a new `CWalletTx` does not initialize. -/
  uninitialized : Option Int × Option Int

abbrev WalletM := Exec WalletState Stop

namespace WalletState

/-- An assignment to `mapWallet[hash]`. -/
def setTx (hash : UInt256) (wtx : WalletTx) (w : WalletState) : WalletState :=
  { w with mapWallet := w.mapWallet.set hash wtx }

/-- The transaction with a hash, replaced where there is one. -/
def modifyTx (hash : UInt256) (f : WalletTx → WalletTx) (w : WalletState) : WalletState :=
  match w.mapWallet.find? hash with
  | some wtx => w.setTx hash (f wtx)
  | none => w

/-- `wtxOrdered.insert(...)`, of a transaction of the wallet. -/
def insertOrdered (nOrderPos : Int) (hash : UInt256) (w : WalletState) : WalletState :=
  { w with wtxOrdered := w.wtxOrdered.insert nOrderPos (.tx (some hash)) }

end WalletState

section Wallet

variable (env : Env) (hashMerkleRoot : UInt256 → UInt256) (call : WalletCall)

namespace WalletState

variable (w : WalletState)

def isMine (tx : CTransaction) : Bool :=
  tx.vout.any fun txout => (call.isMine txout.scriptPubKey).isAny && decide (txout.nValue ≥ call.nMinimumInputValue)

/-- `GetDebit(txin, ISMINE_ALL)`. -/
def getDebitIn (txin : CTxIn) : Int :=
  match w.mapWallet.find? txin.prevout.hash with
  | none => 0
  | some prev =>
    match prev.tx.vout[txin.prevout.n.toNat]? with
    | none => 0
    | some txout => if (call.isMine txout.scriptPubKey).isAny then txout.nValue else 0

/-- One round of `GetDebit(tx, ISMINE_ALL)`. -/
def addDebit (nDebit : Int) (txin : CTxIn) : Except Stop Int := do
  let sum ← addI64 nDebit (w.getDebitIn call txin)
  if !moneyRange sum then throw (.exception "CWallet::GetDebit() : value out of range")
  return sum

def isFromMe (tx : CTransaction) : Except Stop Bool := do
  let nDebit ← tx.vin.foldlM (w.addDebit call) 0
  return decide (nDebit > 0)

/-- `fExisted || IsMine(tx) || IsFromMe(tx)`. -/
def involvesMe (tx : CTransaction) : Except Stop Bool :=
  if (w.mapWallet.find? (env.getHash tx)).isSome || isMine call tx then .ok true else w.isFromMe call tx

end WalletState

/-- `mapWallet[hash]`, which is there afterwards. -/
def entryOf (hash : UInt256) : WalletM WalletTx := do
  let w ← Exec.read
  match w.mapWallet.find? hash with
  | some wtx => return wtx
  | none =>
    let wtx := WalletTx.ofTx call.uninitialized (WalletTx.emptyTx call.nAdjustedTime)
    Exec.update (WalletState.setTx hash wtx)
    return wtx

/-- An `int64_t` as an `int`. -/
def toInt32 (n : Int) : Int := n.bmod (2 ^ 32)

/-- `std::numeric_limits<int>::max()`, where the search for the least position begins. -/
def maxOrderPos : Int := 2 ^ 31 - 1

/-- One round of the first loop of `SyncMetaData`; the least position so far, and the transaction that has it. -/
def findCopyFrom (best : Int × Option UInt256) (hash : UInt256) : WalletM (Int × Option UInt256) := do
  let wtx ← entryOf call hash
  let n := toInt32 wtx.nOrderPos
  return if n < best.1 then (n, some hash) else best

/-- The fields that `SyncMetaData` copies. -/
def WalletTx.copyMetaData (copyFrom : WalletTx) (copyTo : WalletTx) : WalletTx :=
  { copyTo with
    mapValue := copyFrom.mapValue
    vOrderForm := copyFrom.vOrderForm
    nTimeSmart := copyFrom.nTimeSmart
    fFromMe := copyFrom.fFromMe
    strFromAccount := copyFrom.strFromAccount }

/-- One round of the second loop of `SyncMetaData`. -/
def copyMetaDataTo (copyFrom : Option UInt256) (hash : UInt256) : WalletM Unit := do
  let copyTo ← entryOf call hash
  if copyFrom = some hash then return ()
  else
    match copyFrom with
    | none => Exec.stop (.undefined "SyncMetaData: copyFrom is null")
    | some from' =>
      let wtx ← entryOf call from'
      Exec.update (WalletState.setTx hash (wtx.copyMetaData copyTo))

/-- `SyncMetaData`, of the transactions in a range of `mapTxSpends`. -/
def syncMetaData (range : List UInt256) : WalletM Unit := do
  let best ← range.foldlM (findCopyFrom call) (maxOrderPos, none)
  range.forM (copyMetaDataTo call best.2)

def addToSpends (wtxid : UInt256) (outpoint : COutPoint) : WalletM Unit := do
  Exec.update fun w => { w with mapTxSpends := w.mapTxSpends.insert outpoint wtxid }
  let w ← Exec.read
  syncMetaData call (w.mapTxSpends.equalRange outpoint)

/-- The outpoints that `AddToSpends(wtxid)` indexes. -/
def spentBy (tx : CTransaction) : List COutPoint := if tx.isCoinBase then [] else tx.vin.map CTxIn.prevout

/-- `AddToSpends(wtxid)`. -/
def addTxToSpends (wtxid : UInt256) : WalletM Unit := do
  let w ← Exec.read
  match w.mapWallet.find? wtxid with
  | none => Exec.stop (.undefined "assert(mapWallet.count(wtxid))")
  | some thisTx => (spentBy thisTx.tx).forM (addToSpends call wtxid)

def WalletState.isSpent (chain : ChainView) (outpoint : COutPoint) (w : WalletState) : Bool :=
  (w.mapTxSpends.equalRange outpoint).any fun wtxid =>
    match w.mapWallet.find? wtxid with
    | none => false
    | some wtx => decide (wtx.getDepthInMainChain env hashMerkleRoot chain wtx.fMerkleVerified ≥ 0)

def writeToDisk (wtx : WalletTx) : WalletM Bool :=
  if call.writeTx wtx.toTxRecord then do
    Exec.update fun w => { w with txRecords := w.txRecords.set (env.getHash wtx.tx) wtx.toTxRecord }
    return true
  else return false

/-- The smart time of what an entry of `wtxOrdered` points to. -/
def WalletState.smartTime (w : WalletState) : TxPair → Except Stop Int
  | .acentry nTime => .ok nTime
  | .tx pwtx =>
    match pwtx.bind w.mapWallet.find? with
    | none => .error (.undefined "a transaction that was erased")
    | some wtx => .ok (if wtx.nTimeSmart = 0 then wtx.nTimeReceived.toNat else wtx.nTimeSmart.toNat)

/-- The walk back through `wtxOrdered`, from `latestNow` on: `latestEntry` and `latestNow` afterwards. -/
def WalletState.latestEntry (w : WalletState) (hash : UInt256) (latestNow : UInt32) :
    List (Int × TxPair) → Except Stop (UInt32 × UInt32)
  | [] => .ok (0, latestNow)
  | (_, pair) :: rest =>
    if pair = .tx (some hash) then latestEntry w hash latestNow rest
    else
      match w.smartTime pair with
      | .error e => .error e
      | .ok nSmartTime =>
        if nSmartTime ≤ ((latestNow + 300).toNat : Int) then
          .ok (UInt32.ofInt nSmartTime,
            if nSmartTime > (latestNow.toNat : Int) then UInt32.ofInt nSmartTime else latestNow)
        else latestEntry w hash latestNow rest

/-- `nTimeSmart` of a transaction that has just been inserted. -/
def WalletState.nTimeSmart (w : WalletState) (hash : UInt256) (wtx : WalletTx) : Except Stop UInt32 :=
  if wtx.hashBlock = 0 then .ok wtx.nTimeReceived
  else
    match call.blockTime wtx.hashBlock with
    | none => .ok wtx.nTimeReceived
    | some blocktime => do
      let latest ← w.latestEntry hash wtx.nTimeReceived w.wtxOrdered.entries.reverse
      return max latest.1 (min blocktime latest.2)

/-- What `AddToWallet` makes of a transaction that was not there. -/
def insertNew (hash : UInt256) (wtxIn : WalletTx) : WalletM WalletTx := do
  let w ← Exec.read
  let nOrderPos := w.nOrderPosNext
  let wtx := { wtxIn.markDirty with
    nTimeReceived := call.nAdjustedTime, nOrderPos := nOrderPos, nTimeSmart := call.nAdjustedTime }
  Exec.update fun w => { w with nOrderPosNext := w.nOrderPosNext + 1 }
  Exec.update fun w => (w.setTx hash wtx).insertOrdered nOrderPos hash
  let w ← Exec.read
  let nTimeSmart ← w.nTimeSmart call hash wtx
  Exec.update (WalletState.setTx hash { wtx with nTimeSmart })
  return { wtx with nTimeSmart }

/-- The merge of `wtxIn` into the transaction that was found: the fields of `CMerkleTx`. -/
def CMerkleTx.merge (wtx wtxIn : CMerkleTx) : CMerkleTx :=
  let wtx' := if wtxIn.hashBlock ≠ 0 ∧ wtxIn.hashBlock ≠ wtx.hashBlock then { wtx with hashBlock := wtxIn.hashBlock }
    else wtx
  if wtxIn.nIndex ≠ -1 ∧ (wtxIn.vMerkleBranch ≠ wtx.vMerkleBranch ∨ wtxIn.nIndex ≠ wtx.nIndex) then
    { wtx' with vMerkleBranch := wtxIn.vMerkleBranch, nIndex := wtxIn.nIndex }
  else wtx'

/-- The merge, and whether something was updated. -/
def WalletTx.merge (wtx wtxIn : WalletTx) : WalletTx × Bool :=
  let mtx := wtx.toCMerkleTx.merge wtxIn.toCMerkleTx
  let fFromMe := if wtxIn.fFromMe ≠ 0 then wtxIn.fFromMe else wtx.fFromMe
  let (wtx', fSpent) :=
    ({ wtx with toCMerkleTx := mtx, fFromMe := fFromMe } : WalletTx).updateSpent wtxIn.vfSpent
  (wtx', decide (mtx ≠ wtx.toCMerkleTx) || decide (fFromMe ≠ wtx.fFromMe) || fSpent)

/-- The end of `AddToWallet`: the record is written if something has changed. -/
def storeTx (hash : UInt256) (wtx : WalletTx) (fChanged : Bool) : WalletM Bool :=
  if fChanged then do
    let written ← writeToDisk env call wtx
    if written then
      Exec.update (WalletState.modifyTx hash WalletTx.markDirty)
      return true
    else return false
  else do
    Exec.update (WalletState.modifyTx hash WalletTx.markDirty)
    return true

/-- `AddToWallet(wtxIn, true)`. -/
def loadToWallet (wtxIn : WalletTx) : WalletM Bool := do
  let hash := env.getHash wtxIn.tx
  Exec.update (WalletState.setTx hash wtxIn.markDirty)
  Exec.update (WalletState.insertOrdered wtxIn.nOrderPos hash)
  addTxToSpends call hash
  return true

/-- `AddToWallet(wtxIn)`, of a transaction that is not in the wallet. -/
def addNewToWallet (wtxIn : WalletTx) : WalletM Bool := do
  let hash := env.getHash wtxIn.tx
  let wtx ← insertNew call hash wtxIn
  storeTx env call hash wtx true

/-- `AddToWallet(wtxIn)`, of a transaction that the wallet has as `wtx`. -/
def mergeToWallet (wtx wtxIn : WalletTx) : WalletM Bool := do
  let hash := env.getHash wtxIn.tx
  let (wtx', fUpdated) := wtx.markDirty.merge wtxIn
  Exec.update (WalletState.setTx hash wtx')
  storeTx env call hash wtx' fUpdated

def addToWallet (wtxIn : WalletTx) (fFromLoadWallet : Bool) : WalletM Bool :=
  if fFromLoadWallet then loadToWallet env call wtxIn
  else do
    let w ← Exec.read
    match w.mapWallet.find? (env.getHash wtxIn.tx) with
    | none => addNewToWallet env call wtxIn
    | some wtx => mergeToWallet env call wtx wtxIn

/-- The `CWalletTx` that `AddToWalletIfInvolvingMe` makes. -/
def walletTxOf (tx : CTransaction) (pblock : Option CBlock) : WalletTx :=
  let wtx := { WalletTx.ofTx call.uninitialized tx with mapValue := call.findStealthTransactions tx }
  match pblock with
  | none => wtx
  | some block => { wtx with toCMerkleTx := wtx.toCMerkleTx.setMerkleBranch env block }

/-- `AddToWalletIfInvolvingMe`, with `fUpdate`. -/
def addToWalletIfInvolvingMe (tx : CTransaction) (pblock : Option CBlock) : WalletM Bool := do
  let w ← Exec.read
  let involved ← w.involvesMe env call tx
  if involved then addToWallet env call (walletTxOf env call tx pblock) false
  else return false

/-- The loop of `DisableTransaction`. -/
def refundInput (txin : CTxIn) : WalletM Unit := do
  let w ← Exec.read
  match w.mapWallet.find? txin.prevout.hash with
  | none => return ()
  | some prev =>
    match prev.tx.vout[txin.prevout.n.toNat]? with
    | none => return ()
    | some txout =>
      if (call.isMine txout.scriptPubKey).isAny then do
        let prev' ← prev.markUnspent txin.prevout.n.toNat
        Exec.update (WalletState.setTx txin.prevout.hash prev')
        let _ ← writeToDisk env call prev'
        return ()
      else return ()

def disableTransaction (tx : CTransaction) : WalletM Unit := do
  let w ← Exec.read
  if tx.isCoinStake then do
    let fFromMe ← w.isFromMe call tx
    if fFromMe then tx.vin.forM (refundInput env call) else return ()
  else return ()

/-- The loop of `SyncTransaction` that marks coins as spent. -/
def fixSpentCoin (txin : CTxIn) : WalletM Unit := do
  let coin ← entryOf call txin.prevout.hash
  Exec.update (WalletState.setTx txin.prevout.hash coin.markDirty)
  let coin' ← coin.markDirty.markSpent txin.prevout.n.toNat
  Exec.update (WalletState.setTx txin.prevout.hash coin')
  let _ ← writeToDisk env call coin'
  return ()

/-- What `SyncTransaction` does for a transaction that it has added and that is being disconnected. -/
def syncDisconnected (tx : CTransaction) : WalletM Unit := do
  let w ← Exec.read
  if tx.isCoinStake then do
    let fFromMe ← w.isFromMe call tx
    if fFromMe then disableTransaction env call tx else return ()
  else return ()

/-- What `SyncTransaction` does for a transaction that it has added and that is being connected. -/
def syncConnected (tx : CTransaction) (pblock : Option CBlock) (fFixSpentCoins : Bool) : WalletM Unit := do
  let _ ← addToWalletIfInvolvingMe env call tx pblock
  if fFixSpentCoins then tx.vin.forM (fixSpentCoin env call) else return ()

def syncTransaction (tx : CTransaction) (pblock : Option CBlock) (fConnect fFixSpentCoins : Bool) : WalletM Unit := do
  let added ← addToWalletIfInvolvingMe env call tx pblock
  if added then do
    tx.vin.forM fun txin => Exec.update (WalletState.modifyTx txin.prevout.hash WalletTx.markDirty)
    if fConnect then syncConnected env call tx pblock fFixSpentCoins else syncDisconnected env call tx
  else return ()

/-- `EraseFromWallet`: what pointed to the transaction points nowhere. -/
def eraseFromWallet (hash : UInt256) : WalletM Unit := do
  let w ← Exec.read
  if w.fFileBacked = true ∧ (w.mapWallet.find? hash).isSome then
    Exec.update fun w => { w with
      mapWallet := w.mapWallet.erase hash
      wtxOrdered := w.wtxOrdered.mapValues fun pair => if pair = .tx (some hash) then .tx none else pair
      txRecords := w.txRecords.erase hash }
  else return ()

/-- A wallet that has not loaded its records. -/
def WalletState.closed (fFileBacked : Bool) (nOrderPosNext : Int) (txRecords : OrderedMap UInt256 TxRecord) :
    WalletState where
  mapWallet := .empty
  mapTxSpends := .empty
  wtxOrdered := .empty
  nOrderPosNext := nOrderPosNext
  fFileBacked := fFileBacked
  txRecords := txRecords

/-- The part of `LoadWallet` that adds the records, in the order in which the database gives them, and the
accounting entries, by position and time. -/
def loadWallet (records : List TxRecord) (laccentries : List (Int × Int)) : WalletM Unit := do
  records.forM fun record => do
    let _ ← addToWallet env call (record.load call.uninitialized) true
    return ()
  Exec.update fun w => { w with
    wtxOrdered := laccentries.foldl (fun m entry => m.insert entry.1 (.acentry entry.2)) w.wtxOrdered }

/-- What is done to the transactions of a wallet. A depth that is asked for is remembered to have been verified. -/
inductive HistoryOp where
  | addToWallet (wtxIn : WalletTx) (fFromLoadWallet : Bool)
  | eraseFromWallet (hash : UInt256)
  | syncTransaction (tx : CTransaction) (pblock : Option CBlock) (fConnect fFixSpentCoins : Bool)
  | getDepthInMainChain (chain : ChainView) (hash : UInt256)

/-- An operation, in the surroundings that it finds. -/
def historyStep : HistoryOp → WalletM Unit
  | .addToWallet wtxIn fFromLoadWallet => do
    let _ ← PupaCoin.addToWallet env call wtxIn fFromLoadWallet
    return ()
  | .eraseFromWallet hash => PupaCoin.eraseFromWallet hash
  | .syncTransaction tx pblock fConnect fFixSpentCoins =>
    PupaCoin.syncTransaction env call tx pblock fConnect fFixSpentCoins
  | .getDepthInMainChain chain hash =>
    Exec.update (WalletState.modifyTx hash fun wtx => { wtx with
      fMerkleVerified :=
        (wtx.getDepthInMainChainInternal env hashMerkleRoot chain wtx.fMerkleVerified).2 })

end Wallet

section Synchronised

variable (env : Env) (call : WalletCall) (tx : CTransaction) (pblock : Option CBlock) (fConnect fFixSpentCoins : Bool)
  (w w' : WalletState)

/-- The transactions of a wallet, by the keys of their entries. -/
def WalletState.txs (hash : UInt256) : Option CTransaction := (w.mapWallet.find? hash).map fun wtx => wtx.tx

/-- Every entry is under the hash of the transaction that it holds. -/
def WalletState.Keyed : Prop := ∀ hash tx, w.txs hash = some tx → env.getHash tx = hash

/-- The wallet has the entries that it had, and no other but that of the transaction. -/
def WalletState.AddsAtMost : Prop :=
  ∀ hash, w'.txs hash = w.txs hash ∨ (hash = env.getHash tx ∧ w.txs hash = none ∧ w'.txs hash = some tx)

/-- The wallet in which `AddToWallet` asks for the smart time of a transaction that it has just inserted. -/
def WalletState.inserted (hash : UInt256) (wtx : WalletTx) : WalletState :=
  ({ w with nOrderPosNext := w.nOrderPosNext + 1 }.setTx hash wtx).insertOrdered w.nOrderPosNext hash

/-- What `AddToWallet` inserts, before it knows the smart time. -/
def WalletState.newEntry (wtxIn : WalletTx) : WalletTx :=
  { wtxIn.markDirty with
    nTimeReceived := call.nAdjustedTime, nOrderPos := w.nOrderPosNext, nTimeSmart := call.nAdjustedTime }

/-- What `AddToWallet` makes of a transaction that comes in: its entry, and whether the record is written. -/
def WalletState.entered (wtxIn : WalletTx) : Except Stop (WalletTx × Bool) :=
  match w.mapWallet.find? (env.getHash wtxIn.tx) with
  | none => do
    let wtx := w.newEntry call wtxIn
    let nTimeSmart ← (w.inserted (env.getHash wtxIn.tx) wtx).nTimeSmart call (env.getHash wtxIn.tx) wtx
    return ({ wtx with nTimeSmart }, true)
  | some wtx => .ok (wtx.markDirty.merge wtxIn)

/-- The entry of a transaction that is about to be synchronised, where it gets into the wallet and its record into the
database. -/
def WalletState.Enters (wtx : WalletTx) : Prop :=
  w.involvesMe env call tx = .ok true ∧ ∃ fChanged, w.entered env call (walletTxOf env call tx pblock) = .ok (wtx, fChanged) ∧
    (fChanged = true → call.writeTx wtx.toTxRecord = true)

/-- Nothing that `SyncTransaction` looks at is out of range or missing: the debit of the transaction, the entries that
its smart time is taken from, and, where its coins are to be marked as spent, these coins. -/
structure SyncSafe : Prop where
  involvesMe : ∃ involved, w.involvesMe env call tx = .ok involved
  entered : w.involvesMe env call tx = .ok true → ∃ r, w.entered env call (walletTxOf env call tx pblock) = .ok r
  isFromMe : fConnect = false → tx.isCoinStake = true → ∀ wtx, w.Enters env call tx pblock wtx →
    ∃ fFromMe, (w.setTx (env.getHash tx) wtx).isFromMe call tx = .ok fFromMe
  coins : fConnect = true → fFixSpentCoins = true → ∀ wtx, w.Enters env call tx pblock wtx → ∀ txin ∈ tx.vin,
    ∃ coin, (w.setTx (env.getHash tx) wtx).txs txin.prevout.hash = some coin ∧ txin.prevout.n.toNat < coin.vout.length

/-- `SyncTransaction` returns, and has added at most the transaction, under its hash. -/
def SyncAddsNothingForeign : Prop :=
  ∃ w', syncTransaction env call tx pblock fConnect fFixSpentCoins w = (.ok (), w') ∧ w.AddsAtMost env tx w' ∧
    (w.Keyed env → w'.Keyed env)

end Synchronised

section Restart

variable (env : Env) (hashMerkleRoot : UInt256 → UInt256)

/-- The two wallets have the same indices, and take the same outputs for spent. -/
structure SameHistory (w w' : WalletState) : Prop where
  isSpent : ∀ chain outpoint, w.isSpent env hashMerkleRoot chain outpoint = w'.isSpent env hashMerkleRoot chain outpoint
  mapTxSpends : w.mapTxSpends.entries.Perm w'.mapTxSpends.entries
  wtxOrdered : w.wtxOrdered.entries.Perm w'.wtxOrdered.entries

/-- The indices refer to transactions of the wallet. -/
structure RefersToPresent (w : WalletState) : Prop where
  mapTxSpends : ∀ outpoint wtxid, (outpoint, wtxid) ∈ w.mapTxSpends.entries → (w.mapWallet.find? wtxid).isSome
  wtxOrdered : ∀ nOrderPos pwtx, (nOrderPos, .tx pwtx) ∈ w.wtxOrdered.entries →
    ∃ hash, pwtx = some hash ∧ (w.mapWallet.find? hash).isSome

/-- Records that a wallet can be loaded from: each is stored under its hash, and where it spends something,
`SyncMetaData` finds a position below its bound. -/
def Loadable (txRecords : OrderedMap UInt256 TxRecord) : Prop :=
  ∀ hash record, (hash, record) ∈ txRecords.entries →
    env.getHash record.tx = hash ∧ (spentBy record.tx ≠ [] → toInt32 record.nOrderPos < maxOrderPos)

/-- The transaction names no block, or one that its merkle branch leads to. -/
def CMerkleTx.Attached (mtx : CMerkleTx) : Prop :=
  (mtx.hashBlock = 0 ∧ mtx.nIndex = -1) ∨ (mtx.hashBlock ≠ 0 ∧ mtx.nIndex ≠ -1 ∧ mtx.Connects env hashMerkleRoot)

/-- `AddToWallet(wtxIn)` brings in nothing that spends, as it does not index it; the database takes the record; and
the merkle branch that has been verified remains a verified one. -/
structure AddSafe (call : WalletCall) (w : WalletState) (wtxIn : WalletTx) : Prop where
  writeTx : ∀ record, call.writeTx record = true
  spentBy : w.mapWallet.find? (env.getHash wtxIn.tx) = none → spentBy wtxIn.tx = []
  connects : w.mapWallet.find? (env.getHash wtxIn.tx) = none → wtxIn.fMerkleVerified = true →
    wtxIn.Connects env hashMerkleRoot
  attached : ∀ wtx, w.mapWallet.find? (env.getHash wtxIn.tx) = some wtx → wtx.fMerkleVerified = true →
    wtxIn.Attached env hashMerkleRoot

/-- The operation adds only what `AddSafe` allows, outside of loading; it erases no transaction that the wallet has;
and it marks no coins of transactions as spent that the wallet does not have. -/
def HistorySafe (call : WalletCall) (w : WalletState) : HistoryOp → Prop
  | .addToWallet wtxIn fFromLoadWallet => fFromLoadWallet = false ∧ AddSafe env hashMerkleRoot call w wtxIn
  | .eraseFromWallet hash => w.fFileBacked = true → w.mapWallet.find? hash = none
  | .syncTransaction tx pblock fConnect fFixSpentCoins => w.involvesMe env call tx = .ok true →
      AddSafe env hashMerkleRoot call w (walletTxOf env call tx pblock) ∧ (fConnect = true → fFixSpentCoins = true →
          ∀ txin ∈ tx.vin, (w.mapWallet.find? txin.prevout.hash).isSome)
  | .getDepthInMainChain _ _ => True

/-- The states that operations lead to, one after the other, each of them safe where it begins. -/
inductive SafeHistoryRun : WalletState → WalletState → Prop
  | start (w : WalletState) : SafeHistoryRun w w
  | step {w₀ w : WalletState} (call : WalletCall) (op : HistoryOp) : SafeHistoryRun w₀ w →
      HistorySafe env hashMerkleRoot call w op →
      SafeHistoryRun w₀ (historyStep env hashMerkleRoot call op w).2

end Restart

end PupaCoin
