import Mathlib.Algebra.BigOperators.Group.List.Basic

/-!
# Elements of a list that are marked by flags

A subset of the elements of a list is a list of flags of the same length, as a solver keeps it that switches
elements on and off.
-/

namespace Flags

variable {α M : Type}

def pick : List α → List Bool → List α
  | x :: xs, true :: flags => x :: pick xs flags
  | _ :: xs, false :: flags => pick xs flags
  | _, _ => []

theorem pick_sublist (xs : List α) (flags : List Bool) : (pick xs flags).Sublist xs := by
  induction xs generalizing flags with
  | nil => cases flags <;> exact List.Sublist.refl _
  | cons x xs ih =>
    cases flags with
    | nil => exact List.nil_sublist _
    | cons b flags =>
      cases b with
      | true => exact (ih flags).cons_cons x
      | false => exact (ih flags).cons x

theorem pick_all (xs : List α) : pick xs (List.replicate xs.length true) = xs := by
  induction xs with
  | nil => rfl
  | cons x xs ih =>
    rw [List.length_cons, List.replicate_succ, pick, ih]

theorem pick_none (xs : List α) (k : ℕ) : pick xs (List.replicate k false) = [] := by
  induction xs generalizing k with
  | nil => cases k <;> rfl
  | cons x xs ih =>
    cases k with
    | zero => rfl
    | succ k =>
      rw [List.replicate_succ, pick]
      exact ih k

theorem sum_pick_set [AddCommMonoid M] (f : α → M) {xs : List α} {flags : List Bool} {i : ℕ} {x : α}
    (hx : xs[i]? = some x) (hflag : flags[i]? = some false) :
    ((pick xs (flags.set i true)).map f).sum = ((pick xs flags).map f).sum + f x := by
  induction xs generalizing flags i with
  | nil => cases hx
  | cons y xs ih =>
    cases flags with
    | nil => cases hflag
    | cons b flags =>
      cases i with
      | zero =>
        rw [List.getElem?_cons_zero, Option.some.injEq] at hx hflag
        rw [hx, hflag, List.set_cons_zero, pick, pick, List.map_cons, List.sum_cons, add_comm]
      | succ i =>
        rw [List.getElem?_cons_succ] at hx hflag
        have hrest := ih hx hflag
        rw [List.set_cons_succ]
        cases b with
        | true => rw [pick, pick, List.map_cons, List.map_cons, List.sum_cons, List.sum_cons, hrest, add_assoc]
        | false =>
          rw [pick, pick]
          exact hrest

end Flags
