import PupaCoin.Chain.Transaction
import PupaCoin.Lib.Cascade
import Mathlib.Data.List.AList

/-!
# The memory pool (`txmempool.cpp`)

The transactions that wait to be included in a block, and for every output that one of them spends,
the spender and the number of its input.
-/

namespace PupaCoin

theorem lookup_insert_cases {α β : Type} [DecidableEq α] {m : AList fun _ : α => β} {a a' : α} {b b' : β}
    (h : (m.insert a b).lookup a' = some b') : a' = a ∧ b' = b ∨ a' ≠ a ∧ m.lookup a' = some b' := by
  by_cases ha : a' = a
  · rw [ha, AList.lookup_insert] at h
    exact Or.inl ⟨ha, (Option.some.inj h).symm⟩
  · rw [AList.lookup_insert_ne ha] at h
    exact Or.inr ⟨ha, h⟩

/-- `CTxMemPool`. A `CInPoint` is the hash of the spending transaction, whose entry in `mapTx` it
    points at, and the number of the input. -/
structure CTxMemPool where
  mapTx : AList fun _ : UInt256 => CTransaction
  mapNextTx : AList fun _ : COutPoint => UInt256 × Nat

namespace CTxMemPool

def empty : CTxMemPool := ⟨∅, ∅⟩

def lookup (pool : CTxMemPool) (hash : UInt256) : Option CTransaction := pool.mapTx.lookup hash

def addUnchecked (pool : CTxMemPool) (hash : UInt256) (tx : CTransaction) : CTxMemPool where
  mapTx := pool.mapTx.insert hash tx
  mapNextTx := tx.vin.zipIdx.foldl (fun next (txin, i) => next.insert txin.prevout (hash, i))
    pool.mapNextTx

/-- `mapTx.erase(hash)`, with the entries of the inputs in `mapNextTx`. -/
def eraseTx (pool : CTxMemPool) (hash : UInt256) (tx : CTransaction) : CTxMemPool where
  mapTx := pool.mapTx.erase hash
  mapNextTx := tx.vin.foldl (fun next txin => next.erase txin.prevout) pool.mapNextTx

/-- `remove(tx, true)`: a transaction and, before it, those that spend its outputs. The spenders of
    spenders are reached one level of fuel down; a pool has no longer chains than it has
    transactions. -/
def removeRecursive (getHash : CTransaction → UInt256) : Nat → CTxMemPool → CTransaction → CTxMemPool
  | 0, pool, _ => pool
  | fuel + 1, pool, tx =>
    let hash := getHash tx
    if hash ∈ pool.mapTx then
      let removeSpender (pool : CTxMemPool) (i : Nat) : CTxMemPool :=
        match pool.mapNextTx.lookup ⟨hash, UInt32.ofNat i⟩ with
        | none => pool
        | some (spender, _) =>
          match pool.mapTx.lookup spender with
          | none => pool
          | some ptx => removeRecursive getHash fuel pool ptx
      ((List.range tx.vout.length).foldl removeSpender pool).eraseTx hash tx
    else pool

def remove (getHash : CTransaction → UInt256) (pool : CTxMemPool) (tx : CTransaction) : CTxMemPool :=
  if getHash tx ∈ pool.mapTx then pool.eraseTx (getHash tx) tx else pool

/-- One round of `removeConflicts`: the pool transaction that spends the same output goes, with all
    that depend on it. -/
def removeConflict (getHash : CTransaction → UInt256) (tx : CTransaction) (pool : CTxMemPool)
    (txin : CTxIn) : CTxMemPool :=
  match (pool.mapNextTx.lookup txin.prevout).bind fun spender => pool.mapTx.lookup spender.1 with
  | none => pool
  | some txConflict =>
    if txConflict ≠ tx then removeRecursive getHash (pool.mapTx.entries.length + 1) pool txConflict
    else pool

def removeConflicts (getHash : CTransaction → UInt256) (pool : CTxMemPool) (tx : CTransaction) :
    CTxMemPool := tx.vin.foldl (removeConflict getHash tx) pool

end CTxMemPool

/-!
## Runs of the memory pool

`Represents` is what the two maps of a pool have to do with each other; `PoolRun` are the sequences of operations on
an empty pool. `SpendsOutputOf` is the direct dependency that a recursive removal follows.
-/

/-- `child` spends an output of `tx`. -/
def SpendsOutputOf (getHash : CTransaction → UInt256) (tx child : CTransaction) : Prop :=
  ∃ txin ∈ child.vin, txin.prevout.hash = getHash tx ∧ txin.prevout.n.toNat < tx.vout.length

/-- No two inputs spend the same output. `AcceptToMemoryPool` has it from `CheckTransaction`. -/
def CTransaction.DistinctInputs (tx : CTransaction) : Prop := (tx.vin.map CTxIn.prevout).Nodup

instance (tx : CTransaction) : Decidable tx.DistinctInputs :=
  inferInstanceAs (Decidable (tx.vin.map CTxIn.prevout).Nodup)

/-- What the hash promises about some transactions: different ones have different hashes, and none has, through the
    hashes in its inputs, itself among the transactions it depends on. -/
structure HashFits (getHash : CTransaction → UInt256) (txs : Set CTransaction) : Prop where
  injective : Set.InjOn getHash txs
  acyclic : Cascade.Acyclic (SpendsOutputOf getHash) txs

namespace CTxMemPool

/-- The transactions in the pool, each under its own hash. -/
def txs (getHash : CTransaction → UInt256) (pool : CTxMemPool) : Set CTransaction :=
  {tx | pool.mapTx.lookup (getHash tx) = some tx}

/-- `mapNextTx` has one entry for every input of every transaction in `mapTx`, which leads to that transaction and
    the number of the input, and no other entry. -/
structure Represents (getHash : CTransaction → UInt256) (pool : CTxMemPool) : Prop where
  hash_eq : ∀ hash tx, pool.mapTx.lookup hash = some tx → getHash tx = hash
  spender : ∀ prevout hash i, pool.mapNextTx.lookup prevout = some (hash, i) ↔
    ∃ tx, pool.mapTx.lookup hash = some tx ∧ ∃ txin, tx.vin[i]? = some txin ∧ txin.prevout = prevout

/-- `remove(tx, true)`, with fuel for every transaction in the pool. -/
def removeAll (getHash : CTransaction → UInt256) (pool : CTxMemPool) (tx : CTransaction) : CTxMemPool :=
  removeRecursive getHash (pool.mapTx.entries.length + 1) pool tx

end CTxMemPool

/-- An operation on the pool. -/
inductive PoolOp where
  | addUnchecked (tx : CTransaction)
  | remove (tx : CTransaction) (fRecursive : Bool)
  | removeConflicts (tx : CTransaction)
deriving DecidableEq

namespace PoolOp

def tx : PoolOp → CTransaction
  | addUnchecked tx => tx
  | remove tx _ => tx
  | removeConflicts tx => tx

def apply (getHash : CTransaction → UInt256) (pool : CTxMemPool) : PoolOp → CTxMemPool
  | addUnchecked tx => pool.addUnchecked (getHash tx) tx
  | remove tx true => pool.removeAll getHash tx
  | remove tx false => pool.remove getHash tx
  | removeConflicts tx => pool.removeConflicts getHash tx

/-- What `AcceptToMemoryPool` has checked of a transaction that it adds: its inputs are different, and not spent in
    the pool. -/
def Admitted (pool : CTxMemPool) : PoolOp → Prop
  | addUnchecked tx => tx.DistinctInputs ∧ ∀ txin ∈ tx.vin, txin.prevout ∉ pool.mapNextTx
  | _ => True

instance (pool : CTxMemPool) : (op : PoolOp) → Decidable (op.Admitted pool)
  | addUnchecked tx =>
    inferInstanceAs (Decidable (tx.DistinctInputs ∧ ∀ txin ∈ tx.vin, txin.prevout ∉ pool.mapNextTx))
  | remove _ _ | removeConflicts _ => inferInstanceAs (Decidable True)

end PoolOp

/-- `pool` is what the operations, each admitted in its turn, make of an empty pool. -/
inductive PoolRun (getHash : CTransaction → UInt256) : List PoolOp → CTxMemPool → Prop
  | start : PoolRun getHash [] .empty
  | step {ops : List PoolOp} {pool : CTxMemPool} (op : PoolOp) : PoolRun getHash ops pool → op.Admitted pool →
      PoolRun getHash (ops ++ [op]) (op.apply getHash pool)

def PoolOp.txs (ops : List PoolOp) : Set CTransaction := {tx | tx ∈ ops.map PoolOp.tx}

end PupaCoin
