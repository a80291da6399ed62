import PupaCoin.Chain.Effects
import PupaCoin.Chain.ProcessBlock

/-!
# The verdict of `ProcessBlock` and its effect

A verdict fits when a block that was rejected has left the block index, the best chain and the database as
they were, a block that was taken is in the index or among the orphans, and a null peer has not been
followed. `VerdictSound` names the branches on which it does.
-/

namespace PupaCoin

/-- The block index, the best chain and the database are the same. -/
def ChainSame (n n' : Node) : Prop :=
  ∀ p ∈ [Part.index, .pnext, .supply, .tip, .records, .trustRecord], p.Same n n'

def PoolSame (s s' : Intake) : Prop :=
  s'.mapOrphanBlocks = s.mapOrphanBlocks ∧ s'.mapOrphanBlocksByPrev = s.mapOrphanBlocksByPrev
    ∧ s'.setStakeSeenOrphan = s.setStakeSeenOrphan

/-- What `ProcessBlock` reports of a block fits what it did, from `s` on. -/
def VerdictFits (env : Env) (block : CBlock) (s : Intake) : Except ProcessStop Unit × Intake → Prop
  | (.ok (), s') => (s'.node.mapBlockIndex.entries (block.getHash env)).isSome
      ∨ (s'.mapOrphanBlocks (block.getHash env)).isSome
  | (.error (.stop (.reject _ _)), s') => ChainSame s.node s'.node
  | (.error .nullPeer, _) => False
  | _ => True

/-- `AcceptBlock` rejects nothing from `n` to the point where it has inserted the block into
    `mapBlockIndex`, which leaves `n₁`. -/
def Entered (env : Env) (block : CBlock) (n n₁ : Node) : Prop :=
  ∃ prev n₀ hashProof pos n₂ modifier, n.mapBlockIndex.entries (block.getHash env) = none
    ∧ n.mapBlockIndex.entries block.hashPrevBlock = some prev
    ∧ block.nVersion = 7
    ∧ block.limitVelocity env (prev.nHeight + 1) n = (.ok (), n₀)
    ∧ block.checkContext env n₀ (n₀.mapBlockIndex.chain block.hashPrevBlock) = .ok hashProof
    ∧ block.writeToDisk n₀ = (.ok pos, n₂)
    ∧ env.computeNextStakeModifier (n₂.mapBlockIndex.chain block.hashPrevBlock) = some modifier
    ∧ ∃ hnew, n₁ = { n₂ with
        mapBlockIndex := n₂.mapBlockIndex.addBlock env pos.1 pos.2 block hashProof modifier hnew }

/-- A validation function returns `false`. -/
def Rejects {α : Type} (m : NodeM α) (n : Node) : Prop := ∃ d msg n', m n = (.error (.reject d msg), n')

/-- The branches on which a verdict fits: a block with an unknown parent was sent by a peer; what follows
    the insertion into the block index, the storage of the entry and `SetBestChain`, is not rejected; and
    neither is the Velocity check on the accepted block. -/
structure VerdictSound (env : Env) (settings : IntakeSettings) (pfrom : Option NodeId) (block : CBlock)
    (s : Intake) : Prop where
  orphan : ∀ s₁, precheckBlock env settings pfrom block s = (.ok (), s₁) →
    s₁.node.mapBlockIndex.entries block.hashPrevBlock = none → pfrom ≠ none
  activated : ∀ s₁ n₁, precheckBlock env settings pfrom block s = (.ok (), s₁) →
    Entered env block s₁.node n₁ → ¬ Rejects (activateBlock env block) n₁
  velocity : ∀ s₁ vWorkQueue s₂ s₃, precheckBlock env settings pfrom block s = (.ok (), s₁) →
    acceptWithOrphans env block s₁ = (.ok vWorkQueue, s₂) →
    onNode (velocityAccepted env block) s₂ ≠ (.ok false, s₃)

/-!
## The orphan pool over runs of `ProcessBlock`

`PoolFits` is what the three containers of the pool have to do with each other; `IntakeRun` are the
sequences of calls of `ProcessBlock`, with any changes of the node in between.
-/

def COrphanBlock.ofBlock (env : Env) (block : CBlock) : COrphanBlock :=
  ⟨block.getHash env, block.hashPrevBlock, getProofOfStake block, block⟩

/-- The two maps hold the same orphans, each once and under its `hashPrev`, and every stake in the set is
    that of a proof-of-stake orphan. -/
structure PoolFits (env : Env) (s : Intake) : Prop where
  made : ∀ entry ∈ s.mapOrphanBlocksByPrev, entry.1 = entry.2.hashPrev
    ∧ entry.2 = .ofBlock env entry.2.vchBlock
  listed : ∀ hash o, s.mapOrphanBlocks hash = some o
    ↔ (o.hashPrev, o) ∈ s.mapOrphanBlocksByPrev ∧ o.hashBlock = hash
  once : (s.mapOrphanBlocksByPrev.map fun entry => entry.2.hashBlock).Nodup
  stakes : ∀ stake ∈ s.setStakeSeenOrphan, ∃ entry ∈ s.mapOrphanBlocksByPrev,
    entry.2.vchBlock.isProofOfStake = true ∧ entry.2.stake = stake

/-- The set holds every stake of a proof-of-stake orphan. -/
def StakesSeen (s : Intake) : Prop := ∀ entry ∈ s.mapOrphanBlocksByPrev,
  entry.2.vchBlock.isProofOfStake = true → entry.2.stake ∈ s.setStakeSeenOrphan

/-- Different proof-of-stake orphans have different stakes. -/
def DistinctStakes (s : Intake) : Prop :=
  ∀ a ∈ s.mapOrphanBlocksByPrev, ∀ b ∈ s.mapOrphanBlocksByPrev, a.2.vchBlock.isProofOfStake = true →
    b.2.vchBlock.isProofOfStake = true → a.2.stake = b.2.stake → a = b

/-- `ProcessBlock` came back to its caller. -/
def Returns : Except ProcessStop Unit → Prop
  | .ok () | .error (.stop (.reject _ _)) => True
  | _ => False

/-- The states reached from an empty pool by calls of `ProcessBlock` that return, each from a state that
    satisfies `P`, and by changes that leave the pool alone. -/
inductive IntakeRun (env : Env) (P : Intake → Prop) : Intake → Prop
  | start {s : Intake} : s.mapOrphanBlocks = (fun _ => none) → s.mapOrphanBlocksByPrev = [] →
      s.setStakeSeenOrphan = ∅ → IntakeRun env P s
  | idle {s s' : Intake} : IntakeRun env P s → PoolSame s s' → IntakeRun env P s'
  | process {s : Intake} (settings : IntakeSettings) (rand : Nat) (pfrom : Option NodeId)
      (block : CBlock) : IntakeRun env P s → P s →
      Returns (processBlock env settings rand pfrom block s).1 →
      IntakeRun env P (processBlock env settings rand pfrom block s).2

/-- `n'` is reached from `n` by calls of `AcceptBlock` on the blocks of a list, in this order; the list says
    whether each was accepted. -/
inductive OfferRun (env : Env) : Node → List (CBlock × Bool) → Node → Prop
  | nil (n : Node) : OfferRun env n [] n
  | accept {n n₁ n' : Node} {block : CBlock} {rest : List (CBlock × Bool)} :
      block.acceptBlock env n = (.ok (), n₁) → OfferRun env n₁ rest n' →
      OfferRun env n ((block, true) :: rest) n'
  | reject {n n₁ n' : Node} {block : CBlock} {rest : List (CBlock × Bool)} {d : Nat} {msg : String} :
      block.acceptBlock env n = (.error (.reject d msg), n₁) → OfferRun env n₁ rest n' →
      OfferRun env n ((block, false) :: rest) n'

def acceptedHashes (env : Env) (offers : List (CBlock × Bool)) : List UInt256 :=
  (offers.filter fun offer => offer.2).map fun offer => offer.1.getHash env

/-- How the loop over `vWorkQueue` changes the pool: it offers exactly the orphans whose parent is in the
    queue to `AcceptBlock`, those that are accepted enter the queue, and they all leave the pool. -/
structure Connected (env : Env) (s : Intake) (offers : List (CBlock × Bool)) (vWorkQueue : List UInt256)
    (s' : Intake) : Prop where
  run : OfferRun env s.node offers s'.node
  offered : ∀ block, block ∈ offers.map Prod.fst ↔
    ∃ entry ∈ s.mapOrphanBlocksByPrev, entry.2.vchBlock = block ∧ entry.2.hashPrev ∈ vWorkQueue
  left : ∀ entry, entry ∈ s'.mapOrphanBlocksByPrev ↔ entry ∈ s.mapOrphanBlocksByPrev
    ∧ entry.2.hashPrev ∉ vWorkQueue

end PupaCoin
