import Mathlib.Logic.Function.Basic
import Mathlib.Data.List.Induction

/-!
# A key-value store with one open write batch

A batch is the list of the puts and deletes made since it was opened, oldest first. A read scans
the batch for the last operation on its key and falls back to the store when there is none; a commit
applies the operations to the store in order.
-/

namespace Overlay

variable {K V : Type}

/-- One operation of a batch. -/
inductive Op (K V : Type) where
  /-- Store a value under a key. -/
  | put (key : K) (value : V)
  /-- Remove a key. -/
  | delete (key : K)

def Op.key : Op K V → K
  | put k _ => k
  | delete k => k

/-- What an operation leaves under its key. -/
def Op.value : Op K V → Option V
  | put _ v => some v
  | delete _ => none

variable [DecidableEq K]

/-- The result of the last operation of the batch on the key `k`, `none` when there is none. -/
def scan (ops : List (Op K V)) (k : K) : Option (Option V) :=
  ops.foldl (fun found op => if op.key = k then some op.value else found) none

/-- A read through the batch: the batch first, then the store. -/
def get (db : K → Option V) (ops : List (Op K V)) (k : K) : Option V :=
  match scan ops k with
  | some found => found
  | none => db k

def Op.apply (db : K → Option V) (op : Op K V) : K → Option V :=
  Function.update db op.key op.value

/-- The store after all operations of the batch, in order. -/
def commit (db : K → Option V) (ops : List (Op K V)) : K → Option V :=
  ops.foldl Op.apply db

@[simp] theorem commit_nil (db : K → Option V) : commit db [] = db := rfl

@[simp] theorem commit_append_singleton (db : K → Option V) (ops : List (Op K V)) (op : Op K V) :
    commit db (ops ++ [op]) = op.apply (commit db ops) := by
  simp [commit]

@[simp] theorem get_nil (db : K → Option V) (k : K) : get db [] k = db k := rfl

theorem scan_append_singleton (ops : List (Op K V)) (op : Op K V) (k : K) :
    scan (ops ++ [op]) k = if op.key = k then some op.value else scan ops k := by
  simp [scan]

theorem get_append_singleton (db : K → Option V) (ops : List (Op K V)) (op : Op K V) (k : K) :
    get db (ops ++ [op]) k = if op.key = k then op.value else get db ops k := by
  unfold get
  rw [scan_append_singleton]
  split_ifs <;> rfl

theorem get_eq_commit (db : K → Option V) (ops : List (Op K V)) (k : K) : get db ops k = commit db ops k := by
  induction ops using List.reverseRecOn with
  | nil => rfl
  | append_singleton ops op ih =>
    rw [get_append_singleton, commit_append_singleton, Op.apply, Function.update_apply, ih]
    by_cases h : op.key = k
    · rw [if_pos h, if_pos h.symm]
    · rw [if_neg h, if_neg (Ne.symm h)]

end Overlay
