import PupaCoin.Chain.Node
import PupaCoin.Lib.LittleEndian

/-!
# The adaptive block size (`blocksizecalculator.cpp`)

The limit on the size of a block is twice the median of the sizes of the last 25 blocks. The sizes are
kept in a static vector: it is filled once and then only has one element replaced for each block.
-/

namespace PupaCoin

/-- `FindBlockByHeight`, walking down to a height: the empty list where it follows a null `pprev`. -/
def walkDown (nHeight : Int) (chain : List CBlockIndex) : List CBlockIndex :=
  chain.dropWhile fun pindex => (pindex.nHeight : Int) > nHeight

/-- `FindBlockByHeight`, walking up along `pnext`. Every step is one higher, so the height to reach is
    enough fuel. -/
def walkUp (t : BlockTree) (nHeight : Int) : Nat → UInt256 → Except Stop UInt256
  | 0, h => do
    let pindex ← orUndefined (t.entries h) "FindBlockByHeight"
    if (pindex.nHeight : Int) < nHeight then throw (.undefined "FindBlockByHeight : pnext") else return h
  | fuel + 1, h => do
    let pindex ← orUndefined (t.entries h) "FindBlockByHeight"
    if (pindex.nHeight : Int) < nHeight then
      match pindex.pnext with
      | some next => walkUp t nHeight fuel next
      | none => throw (.undefined "FindBlockByHeight : pnext")
    else return h

/-- Where `FindBlockByHeight` starts. -/
def findBlockStart (n : Node) (nHeight : Int) : Except Stop CBlockIndex := do
  let start := if nHeight < n.nBestHeight.tdiv 2 then n.pindexGenesisBlock else n.pindexBest
  let pindex ← orUndefined (start.bind n.mapBlockIndex.entries) "FindBlockByHeight"
  match n.pblockindexFBBHLast with
  | none => return pindex
  | some last =>
    let cached ← orUndefined (n.mapBlockIndex.entries last) "pblockindexFBBHLast"
    if (nHeight - pindex.nHeight).natAbs > (nHeight - cached.nHeight).natAbs then return cached
    else return pindex

/-- `FindBlockByHeight`, without the write to its cache. -/
def findBlockByHeight (n : Node) (nHeight : Int) : Except Stop CBlockIndex := do
  let start ← findBlockStart n nHeight
  match walkDown nHeight (n.mapBlockIndex.chain start.phashBlock) with
  | [] => throw (.undefined "FindBlockByHeight : pprev")
  | pindex :: _ =>
    let h ← walkUp n.mapBlockIndex nHeight nHeight.natAbs pindex.phashBlock
    orUndefined (n.mapBlockIndex.entries h) "FindBlockByHeight"

namespace BlockSizeCalculator

/-- `OpenBlockFile` of a `CDiskBlockPos`. -/
def openBlockFile (ext : Ext) (nFile : UInt32) : Option (List UInt8) :=
  if nFile = 0xffffffff then none else ext.blocksDir nFile

/-- `GetBlockSize`: the four bytes in front of the position of the block, as an `int`. -/
def getBlockSize (ext : Ext) (pindex : CBlockIndex) : Except Stop Int := do
  let blockFile ← orUndefined (openBlockFile ext pindex.nFile) "GetBlockSize : ftell"
  let filePos := pindex.nBlockPos.toNat
  -- `fseek` to a negative offset fails, and the file stays where it is
  let filePos := if filePos < 4 then filePos else filePos - 4
  return (BitVec.ofNat 32 (LittleEndian.toNat ((blockFile.drop filePos).take 4))).toInt

/-- An `int` stored in a vector of `unsigned int`. -/
def toUnsigned (size : Int) : Nat := (BitVec.ofInt 32 size).toNat

/-- The sizes of the blocks above height `firstBlock`, first visited first. -/
def collectBlockSizes (ext : Ext) (firstBlock : Int) : List CBlockIndex → Except Stop (List Nat)
  | [] => .ok []
  | pindex :: pprev =>
    if (pindex.nHeight : Int) > firstBlock then do
      let blocksize ← getBlockSize ext pindex
      let rest ← collectBlockSizes ext firstBlock pprev
      return if blocksize = -1 then rest else toUnsigned blocksize :: rest
    else .ok []

/-- The binary search of `std::lower_bound` among the `len` elements from `first` on. Every round makes
    `len` smaller. -/
def lowerBoundFrom (sizes : List Nat) (size : Nat) : Nat → Nat → Nat → Nat
  | 0, first, _ => first
  | fuel + 1, first, len =>
    if len = 0 then first
    else if sizes.getD (first + len / 2) 0 < size then
      lowerBoundFrom sizes size fuel (first + len / 2 + 1) (len - len / 2 - 1)
    else lowerBoundFrom sizes size fuel first (len / 2)

/-- `insert` at the place that `std::lower_bound` finds. -/
def insertSorted (size : Nat) (sizes : List Nat) : List Nat :=
  let place := lowerBoundFrom sizes size sizes.length 0 sizes.length
  sizes.take place ++ size :: sizes.drop place

/-- `GetBlockSizes`: the new vector, and the new cache of `FindBlockByHeight`. -/
def getBlockSizes (n : Node) (pindex : CBlockIndex) (pastblocks : Nat) : Except Stop (List Nat × Option UInt256) := do
  let firstBlock : Int := pindex.nHeight - pastblocks
  if pindex.nHeight < pastblocks then return (n.blocksizes, n.pblockindexFBBHLast)
  else if n.blocksizes.isEmpty then
    let sizes ← collectBlockSizes n.ext firstBlock (n.mapBlockIndex.chain pindex.phashBlock)
    return (sizes, n.pblockindexFBBHLast)
  else
    let latestBlockSize ← getBlockSize n.ext pindex
    if latestBlockSize = -1 then return (n.blocksizes, n.pblockindexFBBHLast)
    else
      let firstBlockIndex ← findBlockByHeight n firstBlock
      let oldestBlockSize ← getBlockSize n.ext firstBlockIndex
      let cache := some firstBlockIndex.phashBlock
      if oldestBlockSize ≠ -1 ∧ toUnsigned oldestBlockSize ∈ n.blocksizes then
        let sizes := n.blocksizes.erase (toUnsigned oldestBlockSize)
        return (insertSorted (toUnsigned latestBlockSize) sizes, cache)
      else return (n.blocksizes, cache)

/-- The median of a sorted vector, rounded down; 0 unless it has `pastblocks` elements. -/
def median (sizes : List Nat) (pastblocks : Nat) : Except Stop Nat :=
  let vsize := sizes.length
  if vsize = pastblocks then
    if vsize = 0 then throw (.undefined "GetMedianBlockSize : blocksizes")
    else if vsize % 2 = 0 then return (sizes.getD (vsize / 2) 0 + sizes.getD (vsize / 2 - 1) 0) % 2 ^ 32 / 2
    else return sizes.getD (vsize / 2) 0
  else return 0

def sizeLimit (proposedMaxBlockSize : Nat) : Nat :=
  if proposedMaxBlockSize > 0 then
    let result := proposedMaxBlockSize * maxBlockSizeIncreaseMultiple % 2 ^ 32
    let result := if result < proposedMaxBlockSize then 2 ^ 32 - 1 else result
    if result < minBlockSize then minBlockSize else result
  else minBlockSize

/-- The static vector after `std::sort`, which only the first call comes to. -/
def sortOnce (n : Node) (sizes : List Nat) : List Nat :=
  if n.sorted then sizes else sizes.insertionSort (· ≤ ·)

/-- `ComputeBlockSize`. -/
def computeBlockSizeOf (pindex : CBlockIndex) (pastblocks : Nat) : Exec Node Stop Nat := do
  let n ← Exec.read
  let (sizes, cache) ← Exec.lift (getBlockSizes n pindex pastblocks)
  let sizes := sortOnce n sizes
  let proposedMaxBlockSize ← Exec.lift (median sizes pastblocks)
  Exec.update fun n => { n with blocksizes := sizes, sorted := true, pblockindexFBBHLast := cache }
  return sizeLimit proposedMaxBlockSize

/-- `ComputeBlockSize` with its default argument. -/
def computeBlockSize (pindex : CBlockIndex) : Exec Node Stop Nat :=
  computeBlockSizeOf pindex numBlocksForMedianBlock

/-!
## What the adaptive block size is for

Twice the median of the sizes of the last blocks of a branch, as they stand in the block files.
-/

/-- The size of the block of an entry, 0 when it is not in the block files. -/
def sizeOfBlock (n : Node) (pindex : CBlockIndex) : Nat :=
  ((n.files.readBlock pindex.nFile pindex.nBlockPos).map CBlock.serializeSize).getD 0

/-- The sizes of the last `k` blocks of a branch, the last one first. -/
def branchSizes (n : Node) (h : UInt256) (k : Nat) : List Nat :=
  ((n.mapBlockIndex.chain h).take k).map (sizeOfBlock n)

/-- The element in the middle of the sorted sizes; of two, their mean rounded down. -/
def medianSize (sizes : List Nat) : Nat :=
  let sorted := sizes.insertionSort (· ≤ ·)
  if sizes.length % 2 = 0 then
    (sorted.getD (sizes.length / 2) 0 + sorted.getD (sizes.length / 2 - 1) 0) / 2
  else sorted.getD (sizes.length / 2) 0

def branchBlockSize (n : Node) (h : UInt256) (k : Nat) : Nat :=
  max minBlockSize (2 * medianSize (branchSizes n h k))

/-- Nothing is in the files below `blocks`: the program creates them there and never writes to them. -/
def BlocksDirEmpty (ext : Ext) : Prop := ∀ nFile bytes, ext.blocksDir nFile = some bytes → bytes = []

/-- The states of the program from its start on. Between the calls, for any blocks and any numbers of past
    blocks, all globals but the static vector may change in any way. -/
inductive SizeRun : Node → Prop
  | start {n : Node} : n.blocksizes = [] → BlocksDirEmpty n.ext → SizeRun n
  | idle {n n' : Node} : SizeRun n → n'.blocksizes = n.blocksizes → BlocksDirEmpty n'.ext → SizeRun n'
  | call {n n' : Node} {pindex : CBlockIndex} {k size : Nat} : SizeRun n →
      computeBlockSizeOf pindex k n = (.ok size, n') → SizeRun n'

def Opens (ext : Ext) (pindex : CBlockIndex) : Prop := (openBlockFile ext pindex.nFile).isSome

/-- A call returns: the files that it reads sizes from open, and the walk to the oldest block ends there. -/
def Answers (n : Node) (pindex : CBlockIndex) (k : Nat) : Prop :=
  k ≤ pindex.nHeight → if n.blocksizes = [] then
      ∀ e ∈ (n.mapBlockIndex.chain pindex.phashBlock).takeWhile (fun e => pindex.nHeight < e.nHeight + k),
        Opens n.ext e
    else Opens n.ext pindex ∧ ∃ e, findBlockByHeight n (pindex.nHeight - k) = .ok e ∧ Opens n.ext e

/-- The best chain as `FindBlockByHeight` walks over it: `pnext` leads back from parent to child, and the
    cached block is on it. -/
structure ActiveLinked (n : Node) (best : UInt256) : Prop where
  pindexBest : n.pindexBest = some best
  known : ∃ e, n.mapBlockIndex.entries best = some e
  genesis : ∃ g ∈ n.mapBlockIndex.path best, n.pindexGenesisBlock = some g
  pnext : ∀ a ∈ n.mapBlockIndex.path best, ∀ p, n.mapBlockIndex.pprev a = some p → n.mapBlockIndex.pnext p = some a
  cache : ∀ c, n.pblockindexFBBHLast = some c → c ∈ n.mapBlockIndex.path best

end BlockSizeCalculator

end PupaCoin
