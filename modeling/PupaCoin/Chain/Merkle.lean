import PupaCoin.Chain.Block
import Mathlib.Data.Nat.Bitwise

/-!
# Merkle branches (`main.h`)

The branch of a transaction is the list of its neighbours on the levels of the merkle tree, from the transactions
up. Whoever has the hash of the transaction and the branch finds the root.
-/

namespace PupaCoin

namespace CBlock

/-- `GetMerkleBranch`, over the levels of the tree from the transactions up: the neighbour on each level, which is
the node itself where it is the last one of an odd level. -/
def merkleBranch (hashPair : UInt256 → UInt256 → UInt256) : Nat → List UInt256 → Nat → List UInt256
  | 0, _, _ => []
  | fuel + 1, level, nIndex =>
    if level.length > 1 then
      level.getD (min (nIndex ^^^ 1) (level.length - 1)) 0
        :: merkleBranch hashPair fuel (merkleLevel hashPair level) (nIndex / 2)
    else []

/-- `GetMerkleBranch`; the number of transactions is enough fuel. -/
def getMerkleBranch (getHash : CTransaction → UInt256) (hashPair : UInt256 → UInt256 → UInt256) (block : CBlock)
    (nIndex : Nat) : List UInt256 :=
  merkleBranch hashPair block.vtx.length (block.vtx.map getHash) nIndex

/-- The loop of `CheckMerkleBranch`. -/
def foldMerkleBranch (hashPair : UInt256 → UInt256 → UInt256) : UInt256 → List UInt256 → Int → UInt256
  | hash, [], _ => hash
  | hash, otherside :: vMerkleBranch, nIndex =>
    foldMerkleBranch hashPair (if nIndex % 2 = 1 then hashPair otherside hash else hashPair hash otherside)
      vMerkleBranch (nIndex / 2)

def checkMerkleBranch (hashPair : UInt256 → UInt256 → UInt256) (hash : UInt256) (vMerkleBranch : List UInt256)
    (nIndex : Int) : UInt256 :=
  if nIndex = -1 then 0 else foldMerkleBranch hashPair hash vMerkleBranch nIndex

section Branch

variable {hashPair : UInt256 → UInt256 → UInt256}

theorem length_merkleLevel (level : List UInt256) : (merkleLevel hashPair level).length = (level.length + 1) / 2 := by
  induction level using merkleLevel.induct with
  | case1 a b rest ih =>
    rw [merkleLevel, List.length_cons, ih, List.length_cons, List.length_cons]
    omega
  | case2 a =>
    rw [merkleLevel, List.length_singleton, List.length_singleton]
  | case3 => rfl

theorem getD_merkleLevel (level : List UInt256) {j : Nat} (hj : 2 * j < level.length) :
    (merkleLevel hashPair level).getD j 0 =
      hashPair (level.getD (2 * j) 0) (level.getD (min (2 * j + 1) (level.length - 1)) 0) := by
  induction level using merkleLevel.induct generalizing j with
  | case1 a b rest ih =>
    cases j with
    | zero =>
      have hmin : min (2 * 0 + 1) ((a :: b :: rest).length - 1) = 1 := by
        rw [List.length_cons, List.length_cons]
        omega
      rw [hmin]
      rfl
    | succ j =>
      rw [List.length_cons, List.length_cons] at hj
      have hrest : 2 * j < rest.length := by omega
      have hmin : min (2 * (j + 1) + 1) ((a :: b :: rest).length - 1) = min (2 * j + 1) (rest.length - 1) + 2 := by
        rw [List.length_cons, List.length_cons]
        omega
      have hdouble : 2 * (j + 1) = 2 * j + 2 := by omega
      rw [hmin, hdouble]
      exact ih hrest
  | case2 a =>
    rw [List.length_singleton] at hj
    have hzero : j = 0 := by omega
    rw [hzero]
    rfl
  | case3 => exact absurd hj (Nat.not_lt_zero _)

theorem merkleLevel_step (level : List UInt256) {i : Nat} (hi : i < level.length) : (if (i : Int) % 2 = 1 then
        hashPair (level.getD (min (i ^^^ 1) (level.length - 1)) 0) (level.getD i 0)
      else hashPair (level.getD i 0) (level.getD (min (i ^^^ 1) (level.length - 1)) 0)) =
      (merkleLevel hashPair level).getD (i / 2) 0 := by
  have hhalf : 2 * (i / 2) < level.length := by omega
  rw [getD_merkleLevel level hhalf]
  rcases Nat.even_or_odd i with heven | hodd
  · have hmod : i % 2 = 0 := Nat.even_iff.mp heven
    have hint : ¬(i : Int) % 2 = 1 := by omega
    have hdouble : 2 * (i / 2) = i := by omega
    rw [if_neg hint, Nat.xor_one_of_even heven, hdouble]
  · have hmod : i % 2 = 1 := Nat.odd_iff.mp hodd
    have hint : (i : Int) % 2 = 1 := by omega
    have hleft : min (i - 1) (level.length - 1) = 2 * (i / 2) := by omega
    have hright : min (2 * (i / 2) + 1) (level.length - 1) = i := by omega
    rw [if_pos hint, Nat.xor_one_of_odd hodd, hleft, hright]

theorem foldMerkleBranch_merkleBranch {fuel : Nat} {level : List UInt256} {i : Nat} (hi : i < level.length)
    (hfuel : level.length ≤ fuel) :
    foldMerkleBranch hashPair (level.getD i 0) (merkleBranch hashPair fuel level i) i =
      merkleRoot hashPair fuel level := by
  induction fuel generalizing level i with
  | zero => omega
  | succ fuel ih =>
    match level, hi with
    | [root], hi =>
      rw [List.length_singleton] at hi
      have hzero : i = 0 := by omega
      rw [hzero]
      rfl
    | a :: b :: rest, hi =>
      have hlong : (a :: b :: rest).length > 1 := by
        rw [List.length_cons, List.length_cons]
        omega
      have hup : (merkleLevel hashPair (a :: b :: rest)).length = _ := length_merkleLevel (a :: b :: rest)
      have hcast : ((i / 2 : Nat) : Int) = (i : Int) / 2 := Int.natCast_ediv i 2
      have hhalf : i / 2 < (merkleLevel hashPair (a :: b :: rest)).length := by omega
      have hrest := ih hhalf (by omega)
      rw [merkleBranch, if_pos hlong, foldMerkleBranch, merkleLevel_step _ hi, ← hcast, hrest]
      rfl

end Branch

end CBlock

end PupaCoin

/-!
## The merkle tree in one array (`main.h`)

`vMerkleTree` holds the levels of the tree behind each other, the transactions first. `BuildMerkleTree` and
`GetMerkleBranch` walk over it with the offset `j` of a level and its size. A computation is `none` where it would
read outside the array.
-/

namespace PupaCoin

namespace CBlock

variable (hashPair : UInt256 → UInt256 → UInt256)

/-- One round of the inner loop of `BuildMerkleTree`. -/
def pushNode (j nSize : Nat) (vMerkleTree : List UInt256) (i : Nat) : Option (List UInt256) := do
  let i2 := min (i + 1) (nSize - 1)
  let left ← vMerkleTree[j + i]?
  let right ← vMerkleTree[j + i2]?
  return vMerkleTree ++ [hashPair left right]

/-- The inner loop, over the even numbers below `nSize`. -/
def pushLevel (j nSize : Nat) (vMerkleTree : List UInt256) : Option (List UInt256) :=
  ((List.range ((nSize + 1) / 2)).map (2 * ·)).foldlM (pushNode hashPair j nSize) vMerkleTree

/-- The outer loop. The size halves, so that the number of transactions is enough fuel. -/
def pushLevels : Nat → Nat → Nat → List UInt256 → Option (List UInt256)
  | 0, _, _, vMerkleTree => some vMerkleTree
  | fuel + 1, j, nSize, vMerkleTree =>
    if nSize > 1 then do
      let vMerkleTree ← pushLevel hashPair j nSize vMerkleTree
      pushLevels fuel (j + nSize) ((nSize + 1) / 2) vMerkleTree
    else some vMerkleTree

/-- The array that `BuildMerkleTree` fills, of the hashes of the transactions. -/
def buildMerkleArray (hashes : List UInt256) : Option (List UInt256) :=
  pushLevels hashPair hashes.length 0 hashes.length hashes

/-- What `BuildMerkleTree` returns. -/
def merkleBack (vMerkleTree : List UInt256) : UInt256 := vMerkleTree.getLast?.getD 0

/-- The loop of `GetMerkleBranch`. -/
def readBranch (vMerkleTree : List UInt256) : Nat → Nat → Nat → Nat → Option (List UInt256)
  | 0, _, _, _ => some []
  | fuel + 1, j, nSize, nIndex =>
    if nSize > 1 then do
      let i := min (nIndex ^^^ 1) (nSize - 1)
      let hash ← vMerkleTree[j + i]?
      let rest ← readBranch vMerkleTree fuel (j + nSize) ((nSize + 1) / 2) (nIndex / 2)
      return hash :: rest
    else some []

/-- `GetMerkleBranch`: it builds the tree where `vMerkleTree` is empty. -/
def getMerkleArrayBranch (hashes vMerkleTree : List UInt256) (nIndex : Nat) : Option (List UInt256) :=
  let built := if vMerkleTree.isEmpty then buildMerkleArray hashPair hashes else some vMerkleTree
  built.bind fun vMerkleTree => readBranch vMerkleTree hashes.length 0 hashes.length nIndex

/-- The levels above a level, and the level itself. -/
def merkleLevels : Nat → List UInt256 → List (List UInt256)
  | 0, level => [level]
  | fuel + 1, level =>
    if level.length > 1 then level :: merkleLevels fuel (merkleLevel hashPair level) else [level]

def merkleNodes (hashes : List UInt256) : List UInt256 := (merkleLevels hashPair hashes.length hashes).flatten

def innerNodes (hashes : List UInt256) : List UInt256 := (merkleLevels hashPair hashes.length hashes).tail.flatten

def InjectiveOn (nodes : List UInt256) : Prop :=
  ∀ a ∈ nodes, ∀ b ∈ nodes, ∀ c ∈ nodes, ∀ d ∈ nodes, hashPair a b = hashPair c d → a = c ∧ b = d

instance (nodes : List UInt256) : Decidable (InjectiveOn hashPair nodes) :=
  -- over the nodes, not over all hashes
  decidable_of_iff (nodes.all fun a => nodes.all fun b => nodes.all fun c => nodes.all fun d =>
    decide (hashPair a b = hashPair c d → a = c ∧ b = d)) (by simp only [InjectiveOn, List.all_eq_true, decide_eq_true_eq])

/-- No hash of a transaction is the hash of two nodes, in the trees over two lists. -/
def LeavesApart (left right : List UInt256) : Prop :=
  ∀ leaf ∈ left ++ right, leaf ∉ innerNodes hashPair left ++ innerNodes hashPair right

instance (left right : List UInt256) : Decidable (LeavesApart hashPair left right) :=
  decidable_of_iff ((left ++ right).all fun leaf =>
    decide (leaf ∉ innerNodes hashPair left ++ innerNodes hashPair right)) (by simp only [LeavesApart, List.all_eq_true, decide_eq_true_eq])

/-- The two hashes in the order of a round of `CheckMerkleBranch`. -/
def branchPair (nIndex : Int) (otherside hash : UInt256) : UInt256 × UInt256 :=
  if nIndex % 2 = 1 then (otherside, hash) else (hash, otherside)

/-- The pairs that the loop of `CheckMerkleBranch` hashes. -/
def branchPairs (hashPair : UInt256 → UInt256 → UInt256) : UInt256 → List UInt256 → Int → List (UInt256 × UInt256)
  | _, [], _ => []
  | hash, otherside :: vMerkleBranch, nIndex =>
    branchPair nIndex otherside hash :: branchPairs hashPair
      (hashPair (branchPair nIndex otherside hash).1 (branchPair nIndex otherside hash).2) vMerkleBranch (nIndex / 2)

/-- At some level two branches hash different pairs to the same hash. -/
def BranchesCollide (hashPair : UInt256 → UInt256 → UInt256) (ps qs : List (UInt256 × UInt256)) : Prop :=
  ∃ (k : Nat) (p q : UInt256 × UInt256), ps[k]? = some p ∧ qs[k]? = some q ∧ p ≠ q ∧ hashPair p.1 p.2 = hashPair q.1 q.2

end CBlock

end PupaCoin
