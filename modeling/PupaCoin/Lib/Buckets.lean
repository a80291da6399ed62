import Mathlib.Algebra.BigOperators.Fin
import Mathlib.Algebra.Order.BigOperators.Group.Finset
import Mathlib.Data.Finset.Insert

/-!
# Families of buckets

A family of buckets is a function from a finite set of indices. A total adds up a measure of its buckets;
changing one bucket changes a total by what the measure of this bucket changes by.
-/

namespace Buckets

open Function

variable {B X I : Type} [Fintype B]

variable {f : X → Nat} {x : X} {vv : B → Finset I} {b : B} {n m : I}

def total (f : X → Nat) (vv : B → X) : Nat := ∑ b, f (vv b)

theorem total_const (h : f x = 0) : total f (fun _ : B => x) = 0 := by
  rw [total]
  simp only [h, Finset.sum_const_zero]

theorem total_eq_zero {vv : B → X} : total f vv = 0 ↔ ∀ b, f (vv b) = 0 := by
  rw [total, Finset.sum_eq_zero_iff]
  exact ⟨fun h b => h b (Finset.mem_univ b), fun h b _ => h b⟩

theorem le_total (f : X → Nat) (vv : B → X) (b : B) : f (vv b) ≤ total f vv :=
  Finset.single_le_sum (f := fun c => f (vv c)) (fun c _ => Nat.zero_le (f (vv c))) (Finset.mem_univ b)

theorem total_congr {g : X → Nat} {vv ww : B → X} (h : ∀ b, f (vv b) = g (ww b)) : total f vv = total g ww :=
  Finset.sum_congr rfl fun b _ => h b

variable [DecidableEq B]

theorem total_update (f : X → Nat) (vv : B → X) (b : B) (x : X) :
    total f (update vv b x) + f (vv b) = total f vv + f x := by
  rw [total, total, ← Finset.add_sum_erase _ _ (Finset.mem_univ b),
    ← Finset.add_sum_erase _ (fun c => f (vv c)) (Finset.mem_univ b), update_self]
  have hrest : ∑ c ∈ Finset.univ.erase b, f (update vv b x c) = ∑ c ∈ Finset.univ.erase b, f (vv c) := by
    refine Finset.sum_congr rfl fun c hc => ?_
    rw [update_of_ne (Finset.ne_of_mem_erase hc)]
  rw [hrest]
  omega

theorem total_update_eq {vv : B → X} (h : f x = f (vv b)) : total f (update vv b x) = total f vv := by
  have := total_update f vv b x
  omega

section Sets

variable [DecidableEq I]

/-- The number of buckets that hold an element. -/
def places (n : I) (vv : B → Finset I) : Nat := total (fun s => if n ∈ s then 1 else 0) vv

omit [DecidableEq B] in
theorem places_eq_zero : places n vv = 0 ↔ ∀ b, n ∉ vv b := by
  rw [places, total_eq_zero]
  simp

omit [DecidableEq B] in
theorem places_pos (h : n ∈ vv b) : 0 < places n vv := by
  refine lt_of_lt_of_le ?_ (le_total (fun s => if n ∈ s then 1 else 0) vv b)
  rw [if_pos h]
  exact Nat.one_pos

theorem places_insert_self (h : n ∉ vv b) : places n (update vv b (insert n (vv b))) = places n vv + 1 := by
  have := total_update (fun s => if n ∈ s then 1 else 0) vv b (insert n (vv b))
  rw [if_neg h, if_pos (Finset.mem_insert_self n _)] at this
  exact this

theorem places_insert_of_ne (h : m ≠ n) : places m (update vv b (insert n (vv b))) = places m vv := by
  refine total_update_eq ?_
  simp only [Finset.mem_insert, h, false_or]

theorem places_erase_self (h : n ∈ vv b) : places n (update vv b ((vv b).erase n)) + 1 = places n vv := by
  have := total_update (fun s => if n ∈ s then 1 else 0) vv b ((vv b).erase n)
  rw [if_pos h, if_neg (Finset.notMem_erase n _)] at this
  exact this

theorem places_erase_of_ne (h : m ≠ n) : places m (update vv b ((vv b).erase n)) = places m vv := by
  refine total_update_eq ?_
  simp only [Finset.mem_erase, ne_eq, h, not_false_eq_true, true_and]

omit [DecidableEq B] in
theorem places_eraseAll : places m (fun b => (vv b).erase n) = if m = n then 0 else places m vv := by
  by_cases h : m = n
  · subst h
    rw [if_pos rfl, places_eq_zero]
    exact fun b => Finset.notMem_erase m _
  · rw [if_neg h]
    refine total_congr fun b => ?_
    simp only [Finset.mem_erase, ne_eq, h, not_false_eq_true, true_and]

end Sets

end Buckets
