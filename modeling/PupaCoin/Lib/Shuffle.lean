import Mathlib.Data.List.Dedup
import Mathlib.Data.List.MinMax
import Mathlib.Data.List.Nodup
import Mathlib.Data.List.Perm.Subperm
import Mathlib.Order.Basic
import Mathlib.Order.Defs.LinearOrder

/-!
# Partial shuffles

The round `i` of a shuffle exchanges the elements at `i` and at a position that does not come before it: it draws the
element there, and the draws so far stand at the front of the list, in their order. A scan that goes along with the
draws keeps the first one with the least key.
-/

namespace Shuffle

variable {α β : Type}

/-- The list with the elements at two positions exchanged. -/
def swap (xs : List α) (i p : Nat) : List α :=
  match xs[p]?, xs[i]? with
  | some a, some b => (xs.set p b).set i a
  | _, _ => xs

/-- The list after some rounds, of which the round `i` draws from the position `pos i`. -/
def shuffled (pos : Nat → Nat) (xs : List α) : Nat → List α
  | 0 => xs
  | m + 1 => swap (shuffled pos xs m) m (pos m)

def drawn (pos : Nat → Nat) (xs : List α) (i : Nat) : Option α := (shuffled pos xs i)[pos i]?

/-- Every round draws from a position of the list that does not come before its own. -/
def DrawsAhead (pos : Nat → Nat) (xs : List α) (m : Nat) : Prop := ∀ i < m, i ≤ pos i ∧ pos i < xs.length

section Swap

variable {xs : List α} {i p q : Nat}

theorem swap_eq (hi : i < xs.length) (hp : p < xs.length) : swap xs i p = (xs.set p xs[i]).set i xs[p] := by
  unfold swap
  rw [List.getElem?_eq_getElem hp, List.getElem?_eq_getElem hi]

theorem swap_perm (xs : List α) (i p : Nat) : (swap xs i p).Perm xs := by
  unfold swap
  split
  · next a b hp hi =>
    obtain ⟨hplt, rfl⟩ := List.getElem?_eq_some_iff.mp hp
    obtain ⟨hilt, rfl⟩ := List.getElem?_eq_some_iff.mp hi
    exact List.set_set_perm hplt hilt
  · exact List.Perm.refl xs

theorem getElem?_swap_left (hi : i < xs.length) (hp : p < xs.length) : (swap xs i p)[i]? = xs[p]? := by
  rw [swap_eq hi hp, List.getElem?_set_self (by simpa using hi), List.getElem?_eq_getElem hp]

theorem getElem?_swap_of_ne (hi : i < xs.length) (hp : p < xs.length) (hqi : i ≠ q) (hqp : p ≠ q) :
    (swap xs i p)[q]? = xs[q]? := by
  rw [swap_eq hi hp, List.getElem?_set_ne hqi, List.getElem?_set_ne hqp]

end Swap

section Shuffled

variable {pos : Nat → Nat} {xs : List α} {i m : Nat}

theorem shuffled_perm (pos : Nat → Nat) (xs : List α) (m : Nat) : (shuffled pos xs m).Perm xs := by
  induction m with
  | zero => exact List.Perm.refl xs
  | succ m ih => exact (swap_perm _ m (pos m)).trans ih

@[simp] theorem length_shuffled (pos : Nat → Nat) (xs : List α) (m : Nat) : (shuffled pos xs m).length = xs.length :=
  (shuffled_perm pos xs m).length_eq

theorem DrawsAhead.mono {m' : Nat} (h : DrawsAhead pos xs m) (hle : m' ≤ m) : DrawsAhead pos xs m' :=
  fun i hi => h i (Nat.lt_of_lt_of_le hi hle)

theorem exists_drawn (h : DrawsAhead pos xs m) (hi : i < m) : ∃ a, drawn pos xs i = some a ∧ a ∈ xs := by
  have hlt : pos i < (shuffled pos xs i).length := by
    rw [length_shuffled]
    exact (h i hi).2
  exact ⟨_, List.getElem?_eq_getElem hlt, (shuffled_perm pos xs i).mem_iff.mp (List.getElem_mem hlt)⟩

/-- The draws stand at the front. By induction on the rounds: a later round exchanges later positions only. -/
theorem getElem?_shuffled (h : DrawsAhead pos xs m) (hi : i < m) : (shuffled pos xs m)[i]? = drawn pos xs i := by
  induction m with
  | zero => omega
  | succ m ih =>
    obtain ⟨hle, hlt⟩ := h m (Nat.lt_succ_self m)
    have hplt : pos m < (shuffled pos xs m).length := by
      rw [length_shuffled]
      exact hlt
    have hmlt : m < (shuffled pos xs m).length := Nat.lt_of_le_of_lt hle hplt
    rcases Nat.lt_succ_iff_lt_or_eq.mp hi with hi | rfl
    · rw [← ih (h.mono (Nat.le_succ m)) hi]
      exact getElem?_swap_of_ne hmlt hplt (by omega) (by omega)
    · exact getElem?_swap_left hmlt hplt

theorem getElem?_ne_drawn (h : DrawsAhead pos xs m) (hnodup : xs.Nodup) {q : Nat} (hq : m ≤ q) (hlen : q < xs.length)
    (hi : i < m) : (shuffled pos xs m)[q]? ≠ drawn pos xs i := by
  rw [← getElem?_shuffled h hi]
  have hnodup' := (shuffled_perm pos xs m).nodup_iff.mpr hnodup
  exact Ne.symm (List.nodup_iff_getElem?_ne_getElem?.mp hnodup' i q (by omega) (by simpa using hlen))

end Shuffled

/-- The round `b` is the first of `m` with the least key. -/
structure FirstLeast [LinearOrder β] (key : Nat → β) (m b : Nat) : Prop where
  lt : b < m
  least : ∀ j < m, key b ≤ key j
  first : ∀ j < b, key b < key j

namespace FirstLeast

variable [LinearOrder β] {key : Nat → β} {m b c : Nat}

theorem one (key : Nat → β) : FirstLeast key 1 0 where
  lt := Nat.one_pos
  least j hj := by
    obtain rfl : j = 0 := by omega
    exact le_rfl
  first j hj := absurd hj (Nat.not_lt_zero j)

theorem succ_of_lt (h : FirstLeast key m b) (hlt : key m < key b) : FirstLeast key (m + 1) m where
  lt := Nat.lt_succ_self m
  least j hj := by
    rcases Nat.lt_succ_iff_lt_or_eq.mp hj with hj | rfl
    · exact hlt.le.trans (h.least j hj)
    · exact le_rfl
  first j hj := hlt.trans_le (h.least j hj)

theorem succ_of_le (h : FirstLeast key m b) (hle : key b ≤ key m) : FirstLeast key (m + 1) b where
  lt := Nat.lt_succ_of_lt h.lt
  least j hj := by
    rcases Nat.lt_succ_iff_lt_or_eq.mp hj with hj | rfl
    · exact h.least j hj
    · exact hle
  first := h.first

theorem unique (h : FirstLeast key m b) (h' : FirstLeast key m c) : b = c := by
  rcases Nat.lt_trichotomy b c with hlt | heq | hgt
  · exact absurd (h'.first b hlt) (h.least c h'.lt).not_gt
  · exact heq
  · exact absurd (h.first c hgt) (h'.least b h.lt).not_gt

end FirstLeast

end Shuffle

/-!
## Drawing without replacement

`Drawn pick pool drawn` says that the elements of `drawn` have been drawn from a pool one after the other, and never
twice. `scan` is one way to draw: the pool is sorted so that what is late stands behind, and the scan takes the element
with the least key among the first that is left and those left that are not late.
-/

variable {α β : Type}

/-- The elements of `drawn` have been drawn from `pool`, each by `pick` with the draws before it. -/
structure Drawn (pick : List α → Option α) (pool drawn : List α) : Prop where
  nodup : drawn.Nodup
  subset : ∀ a ∈ drawn, a ∈ pool
  picked : ∀ r a, drawn[r]? = some a → pick (drawn.take r) = some a

namespace Drawn

variable {pick : List α → Option α} {pool drawn : List α} {a : α}

theorem nil : Drawn pick pool [] where
  nodup := List.nodup_nil
  subset _ h := absurd h List.not_mem_nil
  picked _ _ h := nomatch h

theorem snoc (h : Drawn pick pool drawn) (hpick : pick drawn = some a) (hpool : a ∈ pool) (hnew : a ∉ drawn) :
    Drawn pick pool (drawn ++ [a]) where
  nodup := by
    rw [List.nodup_append]
    refine ⟨h.nodup, List.nodup_singleton a, fun b hb c hc => ?_⟩
    rw [List.mem_singleton.mp hc]
    rintro rfl
    exact hnew hb
  subset b hb := by
    rcases List.mem_append.mp hb with hb | hb
    · exact h.subset b hb
    · rwa [List.mem_singleton.mp hb]
  picked r b hb := by
    rcases Nat.lt_trichotomy r drawn.length with hlt | rfl | hgt
    · rw [List.getElem?_append_left hlt] at hb
      rw [List.take_append_of_le_length hlt.le]
      exact h.picked r b hb
    · rw [List.getElem?_concat_length, Option.some.injEq] at hb
      rw [List.take_left, hpick, hb]
    · rw [List.getElem?_eq_none (by simp; omega)] at hb
      cases hb

theorem exists_left (hpool : pool.Nodup) (hlt : drawn.length < pool.length) : ∃ a ∈ pool, a ∉ drawn := by
  by_contra hnone
  push Not at hnone
  have hle := (List.subperm_of_subset hpool hnone).length_le
  omega

end Drawn

section Scan

variable [LinearOrder β] (late taken : α → Bool) (key : α → β)

/-- The scan for the least key, which ends at the first late element once it has found one that is not taken. -/
def scan : List α → Option α → Option α
  | [], best => best
  | a :: l, best =>
    if best.isSome && late a then best
    else if taken a then scan l best
    else
      match best with
      | none => scan l (some a)
      | some b => scan l (if key a < key b then some a else some b)

/-- The first of the elements that are left, and those of the others that are not late. -/
def eligible : List α → List α
  | [] => []
  | a :: l => a :: l.filter fun b => !late b

variable {late taken key} {l : List α}

theorem scan_some (hlate : l.Pairwise fun a b => late a = true → late b = true) (b : α) :
    scan late taken key l (some b) =
      (l.filter fun a => !late a && !taken a).foldl (List.argAux fun a c => key a < key c) (some b) := by
  induction l generalizing b with
  | nil => rfl
  | cons a l ih =>
    rw [List.pairwise_cons] at hlate
    unfold scan
    cases ha : late a with
    | true =>
      have hnone : ((a :: l).filter fun a => !late a && !taken a) = [] := by
        rw [List.filter_eq_nil_iff]
        intro c hc
        rcases List.mem_cons.mp hc with rfl | hc
        · simp [ha]
        · simp [hlate.1 c hc ha]
      rw [hnone]
      rfl
    | false =>
      cases ht : taken a with
      | true => simp [ha, ht, ih hlate.2 b]
      | false =>
        rw [List.filter_cons_of_pos (by simp [ha, ht]), List.foldl_cons]
        simp only [Option.isSome_some, Bool.true_and, Bool.false_eq_true, if_false]
        by_cases hkey : key a < key b
        · rw [if_pos hkey, ih hlate.2 a]
          simp [List.argAux, hkey]
        · rw [if_neg hkey, ih hlate.2 b]
          simp [List.argAux, hkey]

theorem scan_eq_argmin (hlate : l.Pairwise fun a b => late a = true → late b = true) :
    scan late taken key l none = (eligible late (l.filter fun a => !taken a)).argmin key := by
  induction l with
  | nil => rfl
  | cons a l ih =>
    rw [List.pairwise_cons] at hlate
    unfold scan
    cases ht : taken a with
    | true => simp [ht, ih hlate.2]
    | false =>
      rw [List.filter_cons_of_pos (by simp [ht]), eligible, List.filter_filter]
      simp only [Option.isSome_none, Bool.false_and, Bool.false_eq_true, if_false]
      exact scan_some hlate.2 a

theorem mem_of_mem_eligible {a : α} (h : a ∈ eligible late l) : a ∈ l := by
  cases l with
  | nil => exact h
  | cons b l =>
    rcases List.mem_cons.mp h with rfl | h
    · exact List.mem_cons_self
    · exact List.mem_cons_of_mem _ (List.mem_of_mem_filter h)

theorem exists_argmin_eligible {a : α} (hmem : a ∈ l) : ∃ b ∈ l, (eligible late l).argmin key = some b := by
  cases hmin : (eligible late l).argmin key with
  | none =>
    cases l with
    | nil => exact absurd hmem List.not_mem_nil
    | cons c l => exact absurd (List.argmin_eq_none.mp hmin) (List.cons_ne_nil _ _)
  | some b => exact ⟨b, mem_of_mem_eligible (List.argmin_mem hmin), rfl⟩

end Scan
