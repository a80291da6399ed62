import Mathlib.Order.Monotone.Basic
import Mathlib.Data.List.Basic

/-!
# Lists that sample another list

`Samples d p l` says that `l` holds the elements of `p` at the positions `d 0`, `d 1` and so on, as far as `p` goes.
-/

variable {α : Type}

/-- `l` holds the elements of `p` at the positions `d 0`, `d 1` and so on. -/
def Samples (d : Nat → Nat) (p l : List α) : Prop := ∀ i, l[i]? = p[d i]?

namespace Samples

variable {d : Nat → Nat} {p l : List α}

theorem mem (h : Samples d p l) {a : α} (ha : a ∈ l) : a ∈ p := by
  obtain ⟨i, hi⟩ := List.mem_iff_getElem?.mp ha
  rw [h i] at hi
  exact List.mem_of_getElem? hi

theorem lt_length_iff (h : Samples d p l) (i : Nat) : i < l.length ↔ d i < p.length := by
  have hi := h i
  constructor
  · intro hlt
    rw [List.getElem?_eq_getElem hlt] at hi
    by_contra hge
    rw [List.getElem?_eq_none (Nat.le_of_not_lt hge)] at hi
    exact nomatch hi
  · intro hlt
    rw [List.getElem?_eq_getElem hlt] at hi
    by_contra hge
    rw [List.getElem?_eq_none (Nat.le_of_not_lt hge)] at hi
    exact nomatch hi

theorem pairwise {R : α → α → Prop} (h : Samples d p l) (hd : StrictMono d) (hp : p.Pairwise R) : l.Pairwise R := by
  rw [List.pairwise_iff_getElem] at hp ⊢
  intro i j hi hj hij
  have hi' := (h.lt_length_iff i).mp hi
  have hj' := (h.lt_length_iff j).mp hj
  have heqi : l[i] = p[d i] := by
    have := h i
    rwa [List.getElem?_eq_getElem hi, List.getElem?_eq_getElem hi', Option.some.injEq] at this
  have heqj : l[j] = p[d j] := by
    have := h j
    rwa [List.getElem?_eq_getElem hj, List.getElem?_eq_getElem hj', Option.some.injEq] at this
  rw [heqi, heqj]
  exact hp (d i) (d j) hi' hj' (hd hij)

def From (Q : α → Bool) (p : List α) (F : Nat) : Prop := ∀ i a, p[i]? = some a → (Q a = true ↔ F ≤ i)

variable {Q : α → Bool} {F : Nat}

theorem findIdx_spec (h : Samples d p l) (hQ : From Q p F) {j : Nat} (hj : j < l.length) :
    (j < l.findIdx Q → d j < F) ∧ (j = l.findIdx Q → F ≤ d j) := by
  have hget : p[d j]? = some l[j] := by
    rw [← h j, List.getElem?_eq_getElem hj]
  have htest := hQ (d j) l[j] hget
  constructor
  · intro hlt
    by_contra hge
    have hpass : Q l[j] = true := htest.mpr (Nat.le_of_not_lt hge)
    exact nomatch (List.not_of_lt_findIdx hlt).symm.trans hpass
  · intro heq
    subst heq
    exact htest.mp (List.findIdx_getElem (w := hj))

theorem findIdx_lt_iff (h : Samples d p l) (hQ : From Q p F) :
    l.findIdx Q < l.length ↔ ∃ k, F ≤ d k ∧ d k < p.length := by
  constructor
  · intro hlt
    exact ⟨_, (h.findIdx_spec hQ hlt).2 rfl, (h.lt_length_iff _).mp hlt⟩
  · rintro ⟨k, hF, hk⟩
    have hlt := (h.lt_length_iff k).mpr hk
    by_contra hge
    have := (h.findIdx_spec hQ hlt).1 (by omega)
    omega

theorem find?_eq (h : Samples d p l) (Q : α → Bool) : l.find? Q = p[d (l.findIdx Q)]? := by
  rw [← h, List.find?_eq_getElem?_findIdx]

end Samples

theorem List.Pairwise.of_find? {R : α → α → Prop} {Q : α → Bool} {l : List α} {a b : α} (hl : l.Pairwise R)
    (hfind : l.find? Q = some b) (ha : a ∈ l) (hQ : Q a = true) : a = b ∨ R b a := by
  induction l with
  | nil => exact absurd ha List.not_mem_nil
  | cons x l ih =>
    rw [List.pairwise_cons] at hl
    cases hx : Q x with
    | true =>
      rw [List.find?_cons_of_pos hx, Option.some.injEq] at hfind
      subst hfind
      rcases List.mem_cons.mp ha with h | h
      · exact Or.inl h
      · exact Or.inr (hl.1 a h)
    | false =>
      rw [List.find?_cons_of_neg (by simp [hx])] at hfind
      rcases List.mem_cons.mp ha with h | h
      · exact nomatch (h ▸ hQ).symm.trans hx
      · exact ih hl.2 hfind h
