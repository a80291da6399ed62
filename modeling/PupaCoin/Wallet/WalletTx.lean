import PupaCoin.Chain.Merkle
import PupaCoin.Chain.Locator
import PupaCoin.Net.InstantX
import PupaCoin.Wallet.SelectCoins

/-!
# The transactions of a wallet (`wallet.h`, `main.h`, `main.cpp`)

What a wallet keeps of a transaction: the transaction and the block it is in, what the database stores beside
them, and what only memory holds. The depth of a transaction is read off the block that it names, once its merkle
branch has been found to lead to the root of that block.
-/

namespace PupaCoin

/-- The order of `COutPoint`: by hash, then by index. -/
instance : LinearOrder COutPoint :=
  LinearOrder.lift' (fun o => toLex (o.hash, o.n.toNat)) fun a b h => by
    have hpair : (a.hash, a.n.toNat) = (b.hash, b.n.toNat) := h
    obtain ⟨hhash, hn⟩ := Prod.mk.inj hpair
    cases a
    cases b
    rw [COutPoint.mk.injEq]
    exact ⟨hhash, UInt32.toNat_inj.mp hn⟩

/-- What `IsMine(...) & filter` is true of. -/
def IsMineType.isAny (mine : IsMineType) : Bool := mine ≠ .no

/-- What the database stores of a `CMerkleTx`. -/
structure CMerkleTx where
  tx : CTransaction
  hashBlock : UInt256
  vMerkleBranch : List UInt256
  nIndex : Int
deriving DecidableEq, Repr

/-- What a wallet reads of the block index and of the mempool. -/
structure ChainView where
  /-- The height of the block with a hash, where it is in the main chain. -/
  mainHeight : UInt256 → Option Int
  nBestHeight : Int
  inMempool : UInt256 → Bool
  /-- `GetTransactionLockSignatures`. -/
  lockSignatures : UInt256 → Int
  nInstantXDepth : Int

namespace CMerkleTx

/-- `CMerkleTx(txIn)`. -/
def ofTx (tx : CTransaction) : CMerkleTx := ⟨tx, 0, [], -1⟩

/-- `SetMerkleBranch`, of a block. -/
def setMerkleBranch (env : Env) (block : CBlock) (mtx : CMerkleTx) : CMerkleTx :=
  match block.vtx.idxOf? mtx.tx with
  | some nIndex =>
    { mtx with
      hashBlock := env.hashHeader block.toCBlockHeader
      vMerkleBranch := block.getMerkleBranch env.getHash env.hashPair nIndex
      nIndex := nIndex }
  | none => { mtx with hashBlock := env.hashHeader block.toCBlockHeader, vMerkleBranch := [], nIndex := -1 }

section Depth

-- `hashMerkleRoot` is the merkle root that the block index has under a hash: the hash covers it, and an entry of the
-- index never changes.
variable (env : Env) (hashMerkleRoot : UInt256 → UInt256)

/-- The merkle branch leads to the root of the block. -/
def Connects (mtx : CMerkleTx) : Prop :=
  CBlock.checkMerkleBranch env.hashPair (env.getHash mtx.tx) mtx.vMerkleBranch mtx.nIndex =
    hashMerkleRoot mtx.hashBlock

instance (mtx : CMerkleTx) : Decidable (mtx.Connects env hashMerkleRoot) :=
  inferInstanceAs (Decidable (_ = _))

/-- `GetDepthInMainChainINTERNAL`: the depth, and `fMerkleVerified` afterwards. -/
def getDepthInMainChainInternal (chain : ChainView) (mtx : CMerkleTx) (fMerkleVerified : Bool) : Int × Bool :=
  if mtx.hashBlock = 0 ∨ mtx.nIndex = -1 then (0, fMerkleVerified)
  else
    match chain.mainHeight mtx.hashBlock with
    | none => (0, fMerkleVerified)
    | some nHeight =>
      if fMerkleVerified = false ∧ ¬mtx.Connects env hashMerkleRoot then (0, fMerkleVerified)
      else (chain.nBestHeight - nHeight + 1, true)

def getDepthInMainChain (chain : ChainView) (mtx : CMerkleTx) (fMerkleVerified : Bool) : Int :=
  let nResult := (mtx.getDepthInMainChainInternal env hashMerkleRoot chain fMerkleVerified).1
  let hash := env.getHash mtx.tx
  if nResult = 0 ∧ chain.inMempool hash = false then -1
  else if nResult < 10 ∧ chain.lockSignatures hash ≥ instantxSignaturesRequired then chain.nInstantXDepth + nResult
  else nResult

end Depth

end CMerkleTx

/-- The cached balances of a `CWalletTx`: a value where the flag is set. -/
structure BalanceCaches where
  debit : Option Int
  credit : Option Int
  immatureCredit : Option Int
  availableCredit : Option Int
  anonymizableCredit : Option Int
  anonymizedCredit : Option Int
  watchDebit : Option Int
  watchCredit : Option Int
  immatureWatchCredit : Option Int
  availableWatchCredit : Option Int
  change : Option Int
deriving DecidableEq, Repr

namespace BalanceCaches

/-- The caches after `CWalletTx::Init`, which leaves two of them as the memory was. -/
def init (uninitialized : Option Int × Option Int) : BalanceCaches where
  debit := none
  credit := none
  immatureCredit := none
  availableCredit := none
  anonymizableCredit := uninitialized.1
  anonymizedCredit := uninitialized.2
  watchDebit := none
  watchCredit := none
  immatureWatchCredit := none
  availableWatchCredit := none
  change := none

/-- What `CWalletTx::MarkDirty` does to the caches. -/
def markDirty (caches : BalanceCaches) : BalanceCaches :=
  { caches with
    credit := none
    availableCredit := none
    watchDebit := none
    watchCredit := none
    availableWatchCredit := none
    immatureWatchCredit := none
    debit := none
    change := none }

end BalanceCaches

/-- What the database stores of a `CWalletTx`; it keeps some of the fields in reserved entries of `mapValue`, which
are not among those here. -/
structure TxRecord extends CMerkleTx where
  mapValue : List (String × String)
  vOrderForm : List (String × String)
  nTimeReceived : UInt32
  nTimeSmart : UInt32
  fFromMe : UInt8
  strFromAccount : String
  vfSpent : List Bool
  nOrderPos : Int
deriving DecidableEq, Repr

/-- `CWalletTx`: the record, and what is in memory only. -/
structure WalletTx extends TxRecord where
  fMerkleVerified : Bool
  caches : BalanceCaches
deriving DecidableEq, Repr

def TxRecord.load (uninitialized : Option Int × Option Int) (record : TxRecord) : WalletTx where
  toTxRecord := record
  fMerkleVerified := false
  caches := .init uninitialized

namespace WalletTx

/-- `CWalletTx(pwalletIn, txIn)`. -/
def ofTx (uninitialized : Option Int × Option Int) (tx : CTransaction) : WalletTx where
  toCMerkleTx := .ofTx tx
  mapValue := []
  vOrderForm := []
  nTimeReceived := 0
  nTimeSmart := 0
  fFromMe := 0
  strFromAccount := ""
  vfSpent := []
  nOrderPos := -1
  fMerkleVerified := false
  caches := .init uninitialized

/-- The transaction of `CWalletTx()`, at the adjusted time. -/
def emptyTx (nTime : UInt32) : CTransaction where
  nVersion := 1
  nTime := nTime
  vin := []
  vout := []
  nLockTime := 0

/-- `MarkDirty`, and all that `BindWallet` does beside the pointer. -/
def markDirty (wtx : WalletTx) : WalletTx := { wtx with caches := wtx.caches.markDirty }

/-- The loop of `UpdateSpent`: the flags afterwards, and whether one of them was set. -/
def updateFlags : List Bool → List Bool → List Bool × Bool
  | [], vfSpent => (vfSpent, false)
  | _ :: _, [] => ([], false)
  | fNew :: vfNewSpent, fSpent :: vfSpent =>
    let (rest, fReturn) := updateFlags vfNewSpent vfSpent
    ((fNew || fSpent) :: rest, (fNew && !fSpent) || fReturn)

def updateSpent (vfNewSpent : List Bool) (wtx : WalletTx) : WalletTx × Bool :=
  let (vfSpent, fReturn) := updateFlags vfNewSpent wtx.vfSpent
  if fReturn then ({ wtx with vfSpent, caches := { wtx.caches with availableCredit := none } }, true) else (wtx, false)

/-- `vfSpent.resize(vout.size())`. -/
def resizedFlags (wtx : WalletTx) : List Bool :=
  wtx.vfSpent.take wtx.tx.vout.length ++ List.replicate (wtx.tx.vout.length - wtx.vfSpent.length) false

/-- The flag of an output that exists, set to `fSpent`. -/
def setSpent (fSpent : Bool) (nOut : Nat) (wtx : WalletTx) : WalletTx :=
  if wtx.resizedFlags.getD nOut false = fSpent then { wtx with vfSpent := wtx.resizedFlags }
  else
    { wtx with
      vfSpent := wtx.resizedFlags.set nOut fSpent
      caches := { wtx.caches with availableCredit := none } }

def markSpent (nOut : Nat) (wtx : WalletTx) : Except Stop WalletTx :=
  if nOut ≥ wtx.tx.vout.length then .error (.exception "CWalletTx::MarkSpent() : nOut out of range")
  else .ok (wtx.setSpent true nOut)

def markUnspent (nOut : Nat) (wtx : WalletTx) : Except Stop WalletTx :=
  if nOut ≥ wtx.tx.vout.length then .error (.exception "CWalletTx::MarkUnspent() : nOut out of range")
  else .ok (wtx.setSpent false nOut)

def isSpent (nOut : Nat) (wtx : WalletTx) : Except Stop Bool :=
  if nOut ≥ wtx.tx.vout.length then .error (.exception "CWalletTx::IsSpent() : nOut out of range")
  else .ok (wtx.vfSpent.getD nOut false)

/-- Merging flags into those that are stored loses none: an output is spent afterwards if it was spent or is spent by
the new flags, the result tells whether an output has changed, and neither the order of two merges nor a second merge
of the same flags matters. -/
structure Merges (vfNewSpent : List Bool) (wtx : WalletTx) : Prop where
  flags : ∀ n fSpent, wtx.isSpent n = .ok fSpent →
    (wtx.updateSpent vfNewSpent).1.isSpent n = .ok (fSpent || vfNewSpent.getD n false)
  returned : (wtx.updateSpent vfNewSpent).2 = true ↔ ∃ n, (wtx.updateSpent vfNewSpent).1.isSpent n ≠ wtx.isSpent n
  commutes : ∀ vfOther : List Bool, vfOther.length ≤ wtx.tx.vout.length → ∀ n,
    ((wtx.updateSpent vfNewSpent).1.updateSpent vfOther).1.isSpent n =
      ((wtx.updateSpent vfOther).1.updateSpent vfNewSpent).1.isSpent n
  idempotent : (wtx.updateSpent vfNewSpent).1.updateSpent vfNewSpent = ((wtx.updateSpent vfNewSpent).1, false)

def withFlags (vfSpent : List Bool) (wtx : WalletTx) : WalletTx := { wtx with vfSpent }

/-- No flag is set beyond the end of the stored ones. -/
def Covers (vfNewSpent vfSpent : List Bool) : Prop := ∀ n, vfSpent.length ≤ n → vfNewSpent.getD n false = false

end WalletTx

/-!
## The block that a wallet transaction is in (`SetMerkleBranch`)

`SetMerkleBranch` takes the block that the transaction is in, or a null pointer. In the second case it finds the
block through the transaction index.
-/

/-- `CBlock::ReadFromDisk(nFile, nBlockPos)`. -/
def readBlockAt (env : Env) (n : Node) (nFile nBlockPos : UInt32) : Option CBlock := do
  let block ← n.files.readBlock nFile nBlockPos
  if block.isProofOfWork && !checkProofOfWork env.params (block.getHash env) block.nBits then none
  else some block

/-- The end of `SetMerkleBranch`: the depth of the block with a hash, 0 where it is not in the main chain. -/
def Node.depthInMainChain (n : Node) (hashBlock : UInt256) : Except Stop Int :=
  match n.mapBlockIndex.entries hashBlock with
  | none => .ok 0
  | some pindex =>
    if n.isInMainChain pindex then do
      let pindexBest ← orUndefined (n.pindexBest.bind n.mapBlockIndex.entries) "pindexBest"
      return pindexBest.nHeight - pindex.nHeight + 1
    else .ok 0

namespace CMerkleTx

/-- `SetMerkleBranch`: the transaction afterwards, and the depth that it returns. -/
def setMerkleBranchIn (env : Env) (n : Node) (pblock : Option CBlock) (mtx : CMerkleTx) :
    Except Stop (CMerkleTx × Int) :=
  match pblock with
  | some block => do
    let mtx := mtx.setMerkleBranch env block
    if mtx.nIndex = -1 then return (mtx, 0) else return (mtx, ← n.depthInMainChain mtx.hashBlock)
  | none =>
    match n.pdb.readTxIndex (env.getHash mtx.tx) with
    | none => return (mtx, 0)
    | some txindex =>
      match readBlockAt env n txindex.pos.nFile txindex.pos.nBlockPos with
      | none => return (mtx, 0)
      -- the assignment to `pblock` stands behind the `return 0` of a failed read, so `pblock` is still null here
      | some _ => return (mtx, ← n.depthInMainChain mtx.hashBlock)

/-- The transaction is in a block of the main chain that the transaction index leads to. -/
structure LocatedIn (env : Env) (n : Node) (mtx : CMerkleTx) (block : CBlock) (pindex : CBlockIndex) : Prop where
  mem : mtx.tx ∈ block.vtx
  entry : n.mapBlockIndex.entries (block.getHash env) = some pindex
  active : n.isInMainChain pindex = true
  indexed : ∃ txindex, n.pdb.readTxIndex (env.getHash mtx.tx) = some txindex
    ∧ LeadsTo n txindex (block.getHash env)
  stored : readBlockFromDisk env n pindex = some block

/-- The fields of the transaction are those of its place in the block. -/
structure Names (env : Env) (block : CBlock) (mtx : CMerkleTx) : Prop where
  hashBlock : mtx.hashBlock = block.getHash env
  nIndex : mtx.nIndex = block.vtx.idxOf mtx.tx
  vMerkleBranch : mtx.vMerkleBranch = block.getMerkleBranch env.getHash env.hashPair (block.vtx.idxOf mtx.tx)

/-- `SetMerkleBranch` without a block does what it does with this block, and finds the depth of the block. -/
def FindsBlock (env : Env) (n : Node) (block : CBlock) (pindex : CBlockIndex) (mtx : CMerkleTx) : Prop :=
  mtx.setMerkleBranchIn env n none = mtx.setMerkleBranchIn env n (some block)
    ∧ ∃ mtx', mtx.setMerkleBranchIn env n none = .ok (mtx', n.nBestHeight - pindex.nHeight + 1)

end CMerkleTx

end PupaCoin
