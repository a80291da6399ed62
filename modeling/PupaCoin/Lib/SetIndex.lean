import Mathlib.Data.Finset.Basic
import PupaCoin.Lib.OrderedMap

/-!
# Maps from keys to sets of items

A set is created when the first item is put under its key, and it is removed with its last item. The map is known by
the items that it holds under every key.
-/

abbrev SetIndex (κ ι : Type) [LinearOrder κ] [DecidableEq ι] := OrderedMap κ (Finset ι)

namespace SetIndex

variable {κ ι : Type} [LinearOrder κ] [DecidableEq ι]

/-- An item put under a key: `index[k].insert(i)`. -/
def put (index : SetIndex κ ι) (k : κ) (i : ι) : SetIndex κ ι :=
  index.set k (insert i ((index.find? k).getD ∅))

/-- An item taken from a key, and the set with it when it was the last one. -/
def take (index : SetIndex κ ι) (k : κ) (i : ι) : SetIndex κ ι :=
  match index.find? k with
  | none => index
  | some items => if items.erase i = ∅ then index.erase k else index.set k (items.erase i)

def Holds (index : SetIndex κ ι) (k : κ) (i : ι) : Prop := ∃ items, index.find? k = some items ∧ i ∈ items

/-- There are no empty sets. -/
def NoEmpty (index : SetIndex κ ι) : Prop := ∀ k items, index.find? k = some items → items ≠ ∅

variable {index : SetIndex κ ι} {k k' : κ} {i i' : ι}

theorem not_holds_empty (k : κ) (i : ι) : ¬Holds (OrderedMap.empty : SetIndex κ ι) k i := by
  rintro ⟨items, hfind, -⟩
  rw [OrderedMap.find?_empty] at hfind
  cases hfind

theorem noEmpty_empty : NoEmpty (OrderedMap.empty : SetIndex κ ι) := by
  intro k items hfind
  rw [OrderedMap.find?_empty] at hfind
  cases hfind

theorem holds_iff_getD : Holds index k i ↔ i ∈ (index.find? k).getD ∅ := by
  unfold Holds
  cases index.find? k with
  | none => simp
  | some items => simp

theorem holds_put : Holds (put index k i) k' i' ↔ Holds index k' i' ∨ (k' = k ∧ i' = i) := by
  rw [holds_iff_getD, holds_iff_getD, put]
  by_cases hk : k' = k
  · subst hk
    rw [OrderedMap.find?_set_self, Option.getD_some, Finset.mem_insert]
    tauto
  · rw [OrderedMap.find?_set_of_ne _ _ hk]
    tauto

theorem NoEmpty.put (h : NoEmpty index) (k : κ) (i : ι) : NoEmpty (put index k i) := by
  intro k' items hfind
  by_cases hk : k' = k
  · subst hk
    rw [SetIndex.put, OrderedMap.find?_set_self, Option.some.injEq] at hfind
    rw [← hfind]
    exact Finset.insert_ne_empty _ _
  · rw [SetIndex.put, OrderedMap.find?_set_of_ne _ _ hk] at hfind
    exact h k' items hfind

theorem find?_take (index : SetIndex κ ι) (k : κ) (i : ι) (k' : κ) : (take index k i).find? k' =
      if k' = k then (index.find? k).bind fun items => if items.erase i = ∅ then none else some (items.erase i)
      else index.find? k' := by
  unfold take
  cases hfind : index.find? k with
  | none =>
    by_cases hk : k' = k
    · rw [if_pos hk, hk, hfind]
      rfl
    · rw [if_neg hk]
  | some items =>
    simp only [Option.bind_some]
    by_cases hempty : items.erase i = ∅
    · rw [if_pos hempty, if_pos hempty]
      by_cases hk : k' = k
      · rw [if_pos hk, hk, OrderedMap.find?_erase_self]
      · rw [if_neg hk, OrderedMap.find?_erase_of_ne _ hk]
    · rw [if_neg hempty, if_neg hempty]
      by_cases hk : k' = k
      · rw [if_pos hk, hk, OrderedMap.find?_set_self]
      · rw [if_neg hk, OrderedMap.find?_set_of_ne _ _ hk]

theorem holds_take : Holds (take index k i) k' i' ↔ Holds index k' i' ∧ ¬(k' = k ∧ i' = i) := by
  rw [holds_iff_getD, holds_iff_getD, find?_take]
  by_cases hk : k' = k
  · subst hk
    rw [if_pos rfl]
    cases index.find? k' with
    | none => simp
    | some items =>
      rw [Option.bind_some, Option.getD_some]
      have herase : i' ∈ items.erase i ↔ i' ∈ items ∧ ¬(k' = k' ∧ i' = i) := by
        rw [Finset.mem_erase]
        tauto
      rw [← herase]
      split
      · rename_i hempty
        rw [hempty]
        exact Iff.rfl
      · exact Iff.rfl
  · rw [if_neg hk]
    tauto

theorem NoEmpty.take (h : NoEmpty index) (k : κ) (i : ι) : NoEmpty (take index k i) := by
  intro k' items hfind
  rw [find?_take] at hfind
  split at hfind
  · obtain ⟨found, -, hkept⟩ := Option.bind_eq_some_iff.mp hfind
    split at hkept
    · cases hkept
    · rename_i hne
      cases hkept
      exact hne
  · exact h k' items hfind

section Keys

variable {α : Type} {keys : List α} {key : α → κ}

theorem holds_foldl_put : Holds (keys.foldl (fun index a => put index (key a) i) index) k' i' ↔
      Holds index k' i' ∨ ((∃ a ∈ keys, key a = k') ∧ i' = i) := by
  induction keys generalizing index with
  | nil => simp
  | cons a keys ih =>
    rw [List.foldl_cons, ih, holds_put, List.exists_mem_cons_iff, or_assoc]
    refine or_congr_right ?_
    rw [or_and_right, eq_comm (a := k')]

theorem holds_foldl_take : Holds (keys.foldl (fun index a => take index (key a) i) index) k' i' ↔
      Holds index k' i' ∧ ¬((∃ a ∈ keys, key a = k') ∧ i' = i) := by
  induction keys generalizing index with
  | nil => simp
  | cons a keys ih =>
    rw [List.foldl_cons, ih, holds_take, List.exists_mem_cons_iff, and_assoc]
    refine and_congr_right fun _ => ?_
    rw [← not_or, or_and_right, eq_comm (a := k')]

theorem NoEmpty.foldl_put (h : NoEmpty index) (i : ι) (keys : List α) :
    NoEmpty (keys.foldl (fun index a => SetIndex.put index (key a) i) index) := by
  induction keys generalizing index with
  | nil => exact h
  | cons a keys ih => exact ih (h.put (key a) i)

theorem NoEmpty.foldl_take (h : NoEmpty index) (i : ι) (keys : List α) :
    NoEmpty (keys.foldl (fun index a => SetIndex.take index (key a) i) index) := by
  induction keys generalizing index with
  | nil => exact h
  | cons a keys ih => exact ih (h.take (key a) i)

end Keys

end SetIndex
