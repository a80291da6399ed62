import PupaCoin.Chain.Proofs.ConnectBlockProofs
import PupaCoin.Chain.Verdict

/-!
# The block index in memory and in the database

Every entry of `mapBlockIndex` has a record in the database. The pointers in memory lead along the active chain.
-/

/-!
## What a failed reorganisation leaves behind

`SetBestChain` aborts the database transaction of a reorganisation that failed. What `ConnectBlock` and
`DisconnectBlock` did outside of the database stays.
-/

namespace PupaCoin

/-- What a failed call is compared on: the database, the best block, the `pnext` pointers, the supplies,
    the limits, the memory pool and the notifications of the wallets. -/
def observedParts : List Part := [.records, .tip, .pnext, .supply, .limits, .mempool, .wallet]

/-- Everything observable is as before. -/
def AsBefore (n n' : Node) : Prop := ∀ p ∈ observedParts, p.Same n n'

/-- The block that `SetBestChain` reorganises to: the first of the new chain to overtake. -/
def pindexIntermediate (n : Node) (hNew : UInt256) : Option UInt256 := do
  let pindexBest ← n.pindexBest.bind n.mapBlockIndex.entries
  let pindex ← (postponed pindexBest.nChainTrust (n.mapBlockIndex.chain hNew)).2.head?
  return pindex.phashBlock

/-- The node with the transaction that `SetBestChain` opens. -/
def opened (n : Node) : Node := { n with activeBatch := some [] }

namespace CBlock

/-- The part of `ConnectBlock` up to the limits. -/
def connectChecks (env : Env) (block : CBlock) (h : UInt256) : NodeM Unit := do
  block.checkBlock env true true false
  let pindex ← deref h
  setLimits pindex

/-- `ConnectBlock` fails and changes neither the limits nor a supply: before it sets the limits; with the
    limits that were in force already, before it records the supply; or behind that, in the address
    index, where the recorded supply is the one that the entry had. -/
inductive FailsQuietly (env : Env) (block : CBlock) (h : UInt256) (n : Node) : Prop
  | unchecked {e : Stop} {t : Node} (check : connectChecks env block h n = (.error e, t))
  | refused {pindex : CBlockIndex} {n1 : Node} {e : Stop}
      (entry : n.mapBlockIndex.entries h = some pindex)
      (checks : connectChecks env block h n = (.ok (), n1)) (inForce : Part.limits.Same n n1)
      (refusal : (block.vtx.foldlM (connectTx env n1 pindex false) (connectInit pindex block false)
        >>= checkReward n1 pindex block) = .error e)
  | unindexed {pindex : CBlockIndex} {n1 t : Node} {st : ConnectState} {e : Stop}
      (approves : Approves env block h false n pindex n1 st) (inForce : Part.limits.Same n n1)
      (recorded : Part.supply.Same n (supplyRecorded env n1 h pindex st))
      (unwritten : connectWrites env block pindex st (supplyRecorded env n1 h pindex st)
        = (.error e, t))

end CBlock

/-- The reorganisation `plan` fails before its first lasting effect: at its first disconnect or, where
    there is nothing to disconnect, quietly at its first connect. -/
def FailsFirst (env : Env) (n : Node) (plan : ReorganizePlan) : Prop :=
  match plan.vDisconnect, plan.vConnect with
  | pindex :: _, _ => ∀ block, readBlockFromDisk env n pindex = some block →
      ∀ n', block.disconnectBlock env pindex.phashBlock n ≠ (.ok (), n')
  | [], pindex :: _ => ∀ block, readBlockFromDisk env n pindex = some block →
      block.FailsQuietly env pindex.phashBlock n
  | [], [] => True

end PupaCoin

namespace PupaCoin

/-- The block that follows `h` on the chain of `tip`. -/
def BlockTree.next (t : BlockTree) (tip h : UInt256) : Option UInt256 := t.toParentTree.next tip h

/-- The `pnext` pointers lead along the chain of `tip`, and nowhere else. -/
def Linked (t : BlockTree) (tip : UInt256) : Prop := ∀ h e, t.entries h = some e → e.pnext = t.next tip h

/-- The best block. -/
structure BestAt (n : Node) (tip : UInt256) : Prop where
  pindexBest : n.pindexBest = some tip
  hashBestChain : n.hashBestChain = tip
  nBestHeight : n.nBestHeight = n.mapBlockIndex.nHeight tip
  nBestChainTrust : ∀ e, n.mapBlockIndex.entries tip = some e → n.nBestChainTrust = e.nChainTrust

/-- The blocks that `SetBestChain` postpones on the way to `hNew`. -/
def postponedBlocks (n : Node) (hNew : UInt256) : List CBlockIndex :=
  match n.pindexBest.bind n.mapBlockIndex.entries with
  | none => []
  | some pindexBest => (postponed pindexBest.nChainTrust (n.mapBlockIndex.chain hNew)).1.reverse

/-- `SetBestChain` commits a reorganisation and does not connect all the blocks that it has postponed. -/
def GivesUp (env : Env) (hNew : UInt256) (n : Node) : Prop :=
  ∃ h n₁, pindexIntermediate n hNew = some h ∧ reorganize env h n = (.ok (), n₁)
    ∧ ∀ n₂, connectSecondary env (postponedBlocks n hNew) n₁ ≠ (.ok [], n₂)

/-- The best block is `tip`, and the globals repeat its entry. -/
structure TipRecorded (n : Node) (tip : UInt256) : Prop extends BestAt n tip where
  known : ∃ e, n.mapBlockIndex.entries tip = some e

end PupaCoin
