import Mathlib.Data.List.Basic

/-!
# Checked reads

An array is read at positions that the program computes. A read outside the array is a fault, so a program that
returns has read inside.
-/

namespace Memory

inductive Fault where
  | outOfBounds
deriving DecidableEq, Repr

variable {α : Type}

/-- `buf[pos]`. -/
def read (buf : List α) (pos : ℕ) : Except Fault α :=
  match buf[pos]? with
  | some a => .ok a
  | none => .error .outOfBounds

/-- The `len` elements from `&buf[pos]`. -/
def slice (buf : List α) (pos len : ℕ) : Except Fault (List α) :=
  if pos + len ≤ buf.length then .ok ((buf.drop pos).take len) else .error .outOfBounds

theorem read_of_drop {buf rest : List α} {pos : ℕ} {a : α} (h : buf.drop pos = a :: rest) : read buf pos = .ok a := by
  have hget : buf[pos]? = some a := by rw [← List.head?_drop, h, List.head?_cons]
  unfold read
  rw [hget]

theorem read_of_lt {buf : List α} {pos : ℕ} (h : pos < buf.length) (d : α) : read buf pos = .ok (buf.getD pos d) := by
  unfold read
  rw [List.getD_eq_getElem?_getD, List.getElem?_eq_getElem h]
  rfl

theorem slice_of_le {buf : List α} {pos len : ℕ} (h : pos + len ≤ buf.length) :
    slice buf pos len = .ok ((buf.drop pos).take len) := if_pos h

end Memory
