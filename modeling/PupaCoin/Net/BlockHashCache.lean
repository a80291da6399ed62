import PupaCoin.Chain.Effects

/-!
# The cache of block hashes (`masternode.cpp`)

The ranking of the masternodes asks for the hash of the block in front of a height. `GetBlockHash` keeps every
answer in `mapCacheBlockHashes` and never takes one out.
-/

namespace PupaCoin

/-- `mapCacheBlockHashes`. -/
abbrev BlockHashCache := Int → Option UInt256

/-- The entries that `pindexBest` reaches. -/
def activeChain (n : Node) : List CBlockIndex := n.mapBlockIndex.chain? n.pindexBest

/-- The loop of `GetBlockHash`: `nBlocksAgo` blocks back from `BlockReading`, but not to the genesis block. -/
def readBlockHash (nBlocksAgo : Int) : Int → List CBlockIndex → Option UInt256
  | _, [] => none
  | n, blockReading :: pprev =>
    if 0 < blockReading.nHeight then
      if nBlocksAgo ≤ n then some blockReading.phashBlock else readBlockHash nBlocksAgo (n + 1) pprev
    else none

/-- `GetBlockHash`. The height 0 stands for the best one. -/
def getBlockHash (n : Node) (nBlockHeight : Int) (cache : BlockHashCache) : Option UInt256 × BlockHashCache :=
  match activeChain n with
  | [] => (none, cache)
  | pindexBest :: pprev =>
    let nBlockHeight := if nBlockHeight = 0 then (pindexBest.nHeight : Int) else nBlockHeight
    match cache nBlockHeight with
    | some hash => (some hash, cache)
    | none =>
      if pindexBest.nHeight = 0 ∨ (pindexBest.nHeight : Int) + 1 < nBlockHeight then (none, cache)
      else
        let nBlocksAgo := if 0 < nBlockHeight then (pindexBest.nHeight : Int) + 1 - nBlockHeight else 0
        match readBlockHash nBlocksAgo 0 (pindexBest :: pprev) with
        | none => (none, cache)
        | some hash => (some hash, Function.update cache nBlockHeight (some hash))

/-- The height of the block whose hash is asked for: the one below, and the best one for a negative number. -/
def usedHeight (nHeightBest : Nat) (nBlockHeight : Int) : Int :=
  if nBlockHeight = 0 then nHeightBest - 1
  else if nBlockHeight < 0 then nHeightBest
  else nBlockHeight - 1

def hashAt (chain : List CBlockIndex) (nHeight : Int) : Option UInt256 :=
  (chain.find? fun pindex => (pindex.nHeight : Int) = nHeight).map CBlockIndex.phashBlock

/-- The block on the active chain whose hash is asked for. -/
def blockUsed (n : Node) (nBlockHeight : Int) : Option UInt256 :=
  (activeChain n).head?.bind fun pindexBest =>
    hashAt (activeChain n) (usedHeight pindexBest.nHeight nBlockHeight)

/-- The node and the cache. -/
structure CachedNode where
  node : Node
  mapCacheBlockHashes : BlockHashCache

namespace CachedNode

/-- Whatever `GetBlockHash` answers is the hash of the block on the active chain that was asked for. -/
def Coherent (s : CachedNode) : Prop := ∀ nBlockHeight hash,
  (getBlockHash s.node nBlockHeight s.mapCacheBlockHashes).1 = some hash → blockUsed s.node nBlockHeight = some hash

/-- A call of `GetBlockHash`. -/
def lookup (s : CachedNode) (nBlockHeight : Int) : CachedNode where
  node := s.node
  mapCacheBlockHashes := (getBlockHash s.node nBlockHeight s.mapCacheBlockHashes).2

/-- Between the two states no block is exchanged that an earlier call was asked for. -/
def KeepsAnswered (s s' : CachedNode) : Prop := ∀ nBlockHeight, (s.mapCacheBlockHashes nBlockHeight).isSome →
    blockUsed s'.node nBlockHeight = blockUsed s.node nBlockHeight

end CachedNode

/-- A lookup, a change of the surroundings, or a block that the node is given. -/
inductive CacheStep (env : Env) (s : CachedNode) : CachedNode → Prop
  | lookup (nBlockHeight : Int) : CacheStep env s (s.lookup nBlockHeight)
  | idle {n' : Node} : Writes idleParts s.node n' → CacheStep env s { s with node := n' }
  | accept (block : CBlock) : Survives (block.acceptBlock env s.node).1 →
      CacheStep env s { s with node := (block.acceptBlock env s.node).2 }

/-- The states, the last one first, that a node goes through which starts with an empty cache. -/
inductive CacheRun (env : Env) (n : Node) : List CachedNode → Prop
  | start : CacheRun env n [⟨n, fun _ => none⟩]
  | step {s s' : CachedNode} {past : List CachedNode} : CacheRun env n (s :: past) → CacheStep env s s' →
      CacheRun env n (s' :: s :: past)

end PupaCoin
