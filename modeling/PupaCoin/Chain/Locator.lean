import PupaCoin.Chain.Stored

/-!
# Block locators (`main.h`)

A `CBlockLocator` describes a place in the block chain to another node by the hashes of some blocks: the first of them
follow one another, the later ones are further and further apart. The other node looks for the first that is in its own
main chain.
-/

namespace PupaCoin

/-- `IsInMainChain`: of an index entry that is stored under its own hash. -/
def Node.isInMainChain (n : Node) (pindex : CBlockIndex) : Bool :=
  pindex.pnext.isSome || n.pindexBest == some pindex.phashBlock

/-- The block of a hash is known and in the main chain. -/
def Node.inMainChain (n : Node) (hash : UInt256) : Bool :=
  match n.mapBlockIndex.entries hash with
  | none => false
  | some pindex => n.isInMainChain pindex

/-- A pointer to a block, `i` steps back along `pprev` as far as it goes. -/
def BlockTree.stepBack (t : BlockTree) : Nat → Option UInt256 → Option UInt256
  | 0, pindex => pindex
  | _ + 1, none => none
  | i + 1, some hash => t.stepBack i (t.pprev hash)

/-- The sum of two numbers that are not negative, as an `int`. -/
def addInt (a b : Nat) : Except Stop Nat :=
  if a + b < 2 ^ 31 then .ok (a + b) else .error (.undefined "signed overflow")

/-- `nStep *= 2` under the condition that both loops have for it. -/
def nextStep (nCount nStep : Nat) : Except Stop Nat := if nCount > 10 then addInt nStep nStep else .ok nStep

structure CBlockLocator where
  vHave : List UInt256
deriving DecidableEq, Repr

namespace CBlockLocator

/-- The loop of `Set`. Every round goes back by a block or more, so the height of the first and one is enough fuel. -/
def setLoop (t : BlockTree) : Nat → Option UInt256 → Nat → List UInt256 → Except Stop (List UInt256)
  | 0, _, _, vHave => .ok vHave
  | _ + 1, none, _, vHave => .ok vHave
  | fuel + 1, some pindex, nStep, vHave => do
    let vHave := vHave ++ [pindex]
    let pprev := t.stepBack nStep (some pindex)
    let nStep ← nextStep vHave.length nStep
    setLoop t fuel pprev nStep vHave

/-- `Set`, with the block tree that the pointer leads into. -/
def set (t : BlockTree) (hashGenesisBlock : UInt256) (pindex : Option UInt256) : Except Stop CBlockLocator := do
  let fuel := (pindex.map t.nHeight).getD 0 + 1
  let vHave ← setLoop t fuel pindex 1 []
  return ⟨vHave ++ [hashGenesisBlock]⟩

/-- The loop of `GetDistanceBack`. -/
def distanceLoop (n : Node) : List UInt256 → Nat → Nat → Except Stop Nat
  | [], nDistance, _ => .ok nDistance
  | hash :: vHave, nDistance, nStep =>
    if n.inMainChain hash then .ok nDistance
    else do
      let nDistance ← addInt nDistance nStep
      let nStep ← nextStep nDistance nStep
      distanceLoop n vHave nDistance nStep

def getDistanceBack (n : Node) (locator : CBlockLocator) : Except Stop Nat := distanceLoop n locator.vHave 0 1

def getBlockIndex (n : Node) (locator : CBlockLocator) : Option UInt256 :=
  (locator.vHave.find? n.inMainChain).or n.pindexGenesisBlock

/-- The depth below the first block of its element number `k`: 0 to 11, then 13, 17, 25 and so on. -/
def stepDistance (k : Nat) : Nat := if k ≤ 10 then k else 9 + 2 ^ (k - 10)

/-- The main chain of a node shares blocks with the branch of a block in a block tree, which may be that of another
node: what both know has the same parent in both, and `fork` is the highest block that the branch and the main chain
have in common. -/
structure SharesBranch (t : BlockTree) (n : Node) (hashGenesisBlock pindex tip fork : UInt256) : Prop where
  known : (t.entries pindex).isSome
  tipKnown : (n.mapBlockIndex.entries tip).isSome
  root : t.pprev hashGenesisBlock = none
  genesis : hashGenesisBlock ∈ t.path pindex
  linked : Linked n.mapBlockIndex tip
  best : n.pindexBest = some tip
  agrees : ∀ h, (t.entries h).isSome → (n.mapBlockIndex.entries h).isSome → t.pprev h = n.mapBlockIndex.pprev h
  forkBranch : fork ∈ t.path pindex
  forkMain : fork ∈ n.mapBlockIndex.path tip
  highest : ∀ h ∈ t.path pindex, h ∈ n.mapBlockIndex.path tip → t.nHeight h ≤ t.nHeight fork

/-- What is expected of a locator. It starts with the block, ends with the genesis block and lists ancestors of the block
with falling heights, where the genesis block may stand twice. `GetBlockIndex` finds the highest listed block of the main
chain, which is as deep as the fork where that is at most 11 deep and else not more than twice as deep. `GetDistanceBack`
is how deep it is. -/
structure Locates (t : BlockTree) (n : Node) (hashGenesisBlock pindex tip fork : UInt256) (locator : CBlockLocator) :
    Prop where
  first : locator.vHave.head? = some pindex
  last : locator.vHave.getLast? = some hashGenesisBlock
  ancestors : ∀ h ∈ locator.vHave, h ∈ t.path pindex
  falling : locator.vHave.dropLast.Pairwise fun a b => t.nHeight b < t.nHeight a
  index : ∃ h, locator.getBlockIndex n = some h ∧ h ∈ locator.vHave ∧ h ∈ n.mapBlockIndex.path tip ∧
    (∀ h' ∈ locator.vHave, h' ∈ n.mapBlockIndex.path tip → t.nHeight h' ≤ t.nHeight h) ∧
    (t.nHeight pindex - t.nHeight fork ≤ 11 → h = fork) ∧
    t.nHeight pindex - t.nHeight h ≤ 2 * (t.nHeight pindex - t.nHeight fork) ∧
    locator.getDistanceBack n = .ok (t.nHeight pindex - t.nHeight h)

end CBlockLocator

/-!
## Blocks of the active chain by their height (`FindBlockByHeight`)

`FindBlockByHeight` starts from the genesis block, the best block or the block that it has found last, and follows the
pointers of the block index to the height. It relies on what every change of the active chain has to keep: the pointers
lead along the chain of the best block, and the block found last is on it.
-/

/-- `FindBlockByHeight`, with the write to its cache. -/
def findBlock (nHeight : Int) : NodeM CBlockIndex := do
  let n ← Exec.read
  let pblockindex ← Exec.lift (findBlockByHeight n nHeight)
  Exec.update fun n => { n with pblockindexFBBHLast := some pblockindex.phashBlock }
  return pblockindex

/-- The pointers of the block index lead along the chain of `tip`, from the genesis block on. -/
structure ChainLinked (n : Node) (tip : UInt256) : Prop where
  known : (n.mapBlockIndex.entries tip).isSome
  linked : Linked n.mapBlockIndex tip
  genesis : ∃ g ∈ n.mapBlockIndex.path tip, n.mapBlockIndex.pprev g = none ∧ n.pindexGenesisBlock = some g

/-- They lead along the chain of the best block, and the block found last is on it. -/
structure TipLinked (n : Node) (tip : UInt256) : Prop extends ChainLinked n tip where
  pindexBest : n.pindexBest = some tip
  hashBestChain : n.hashBestChain = tip
  nBestHeight : n.nBestHeight = n.mapBlockIndex.nHeight tip
  cache : ∀ c, n.pblockindexFBBHLast = some c → c ∈ n.mapBlockIndex.path tip

/-- What `FindBlockByHeight` reads. -/
def findParts : List Part := [.index, .pnext, .genesis, .tip, .cache]

/-- `SetBestChain`, called for the block by `AcceptBlock`, connects all the blocks that it has postponed where it has
reorganised. -/
def ConnectsPostponed (env : Env) (block : CBlock) (n : Node) : Prop :=
  ∀ n₁ n₂, Entered env block n n₁ → storeBlockIndex env (block.getHash env) n₁ = (.ok (), n₂) →
    ¬ GivesUp env (block.getHash env) (opened n₂)

/-- `n'` is reached from `n` by calls of `FindBlockByHeight` that return, by calls of `AcceptBlock` for blocks that meet
`P`, with any result, and by changes of what `FindBlockByHeight` does not read. -/
inductive FindRun (env : Env) (P : CBlock → Node → Prop) (n : Node) : Node → Prop
  | start : FindRun env P n n
  | idle {m m' : Node} : FindRun env P n m → (∀ p ∈ findParts, p.Same m m') → FindRun env P n m'
  | find {m m' : Node} {nHeight : Int} {pblockindex : CBlockIndex} : FindRun env P n m →
      findBlock nHeight m = (.ok pblockindex, m') → FindRun env P n m'
  | accept {m : Node} (block : CBlock) : FindRun env P n m → P block m → Survives (block.acceptBlock env m).1 →
      FindRun env P n (block.acceptBlock env m).2

/-- `FindBlockByHeight` returns the one block of a height on the active chain. -/
def FindsBlock (n : Node) (nHeight : Int) : Prop :=
  ∃ pblockindex n', findBlock nHeight n = (.ok pblockindex, n') ∧
    pblockindex ∈ n.mapBlockIndex.chain? n.pindexBest ∧ (pblockindex.nHeight : Int) = nHeight ∧
    ∀ e ∈ n.mapBlockIndex.chain? n.pindexBest, (e.nHeight : Int) = nHeight → e = pblockindex

end PupaCoin
