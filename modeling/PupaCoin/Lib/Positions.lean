import Mathlib.Data.List.Basic
import Mathlib.Data.List.Nodup

/-!
# Lists whose elements know their position

Every element of a list has its position recorded elsewhere, and nothing else has one: `Located`. Appending
a new element, swapping two and dropping the last keep it.
-/

namespace Positions

open Function

variable {I : Type}

/-- `pos` records where each element of the list stands. -/
def Located (pos : I → Option Int) (xs : List I) : Prop :=
  ∀ n q, pos n = some q ↔ ∃ p : Nat, q = p ∧ xs[p]? = some n

namespace Located

variable {pos : I → Option Int} {xs : List I} {m n : I} {p i j : Nat}

theorem pos_eq (h : Located pos xs) (hp : xs[p]? = some n) : pos n = some (p : Int) :=
  (h n p).mpr ⟨p, rfl, hp⟩

theorem unique (h : Located pos xs) (hi : xs[i]? = some n) (hj : xs[j]? = some n) : i = j := by
  have hpos := h.pos_eq hi
  rw [h.pos_eq hj, Option.some.injEq, Int.natCast_inj] at hpos
  exact hpos.symm

theorem nodup (h : Located pos xs) : xs.Nodup := by
  rw [List.nodup_iff_getElem?_ne_getElem?]
  intro i j hij hj heq
  rw [List.getElem?_eq_getElem hj] at heq
  have := h.unique heq (List.getElem?_eq_getElem hj)
  omega

theorem mem_iff (h : Located pos xs) : n ∈ xs ↔ ∃ q, pos n = some q := by
  rw [List.mem_iff_getElem?]
  constructor
  · rintro ⟨p, hp⟩
    exact ⟨p, h.pos_eq hp⟩
  · rintro ⟨q, hq⟩
    obtain ⟨p, -, hp⟩ := (h n q).mp hq
    exact ⟨p, hp⟩

theorem nil : Located (fun _ : I => none) [] := by
  intro n q
  simp

variable [DecidableEq I]

theorem append (h : Located pos xs) (hn : pos n = none) :
    Located (update pos n (some (xs.length : Int))) (xs ++ [n]) := by
  have hmem : n ∉ xs := by
    intro hmem
    obtain ⟨q, hq⟩ := h.mem_iff.mp hmem
    rw [hn] at hq
    exact absurd hq (by simp)
  intro m q
  by_cases hm : m = n
  · subst hm
    rw [update_self, Option.some.injEq]
    constructor
    · rintro rfl
      exact ⟨xs.length, rfl, by simp⟩
    · rintro ⟨p, rfl, hp⟩
      rcases Nat.lt_trichotomy p xs.length with hlt | rfl | hgt
      · rw [List.getElem?_append_left hlt] at hp
        exact absurd (List.mem_of_getElem? hp) hmem
      · rfl
      · rw [List.getElem?_eq_none (by simp; omega)] at hp
        exact absurd hp (by simp)
  · rw [update_of_ne hm, h m q]
    refine exists_congr fun p => and_congr_right fun _ => ?_
    rcases Nat.lt_trichotomy p xs.length with hlt | rfl | hgt
    · rw [List.getElem?_append_left hlt]
    · simp [Ne.symm hm]
    · rw [List.getElem?_eq_none (by omega), List.getElem?_eq_none (by simp; omega)]

theorem swap (h : Located pos xs) (hm : xs[i]? = some m) (hn : xs[j]? = some n) (hij : i ≠ j) :
    Located (update (update pos m (some (j : Int))) n (some (i : Int))) ((xs.set i n).set j m) := by
  have hi : i < xs.length := (List.getElem?_eq_some_iff.mp hm).1
  have hj : j < xs.length := (List.getElem?_eq_some_iff.mp hn).1
  have hmn : m ≠ n := by
    rintro rfl
    exact hij (h.unique hm hn)
  have hget : ∀ p, ((xs.set i n).set j m)[p]? = if p = j then some m else if p = i then some n else xs[p]? := by
    intro p
    rw [List.getElem?_set, List.getElem?_set, List.length_set]
    by_cases hpj : p = j
    · rw [if_pos hpj.symm, if_pos hj, if_pos hpj]
    · rw [if_neg (Ne.symm hpj), if_neg hpj]
      by_cases hpi : p = i
      · rw [if_pos hpi.symm, if_pos hi, if_pos hpi]
      · rw [if_neg (Ne.symm hpi), if_neg hpi]
  intro k q
  simp only [hget]
  by_cases hkn : k = n
  · subst hkn
    rw [update_self, Option.some.injEq]
    constructor
    · rintro rfl
      exact ⟨i, rfl, by rw [if_neg hij, if_pos rfl]⟩
    · rintro ⟨p, rfl, hp⟩
      split_ifs at hp with hpj hpi
      · exact absurd (Option.some.inj hp) hmn
      · rw [hpi]
      · exact absurd (h.unique hp hn) hpj
  · rw [update_of_ne hkn]
    by_cases hkm : k = m
    · subst hkm
      rw [update_self, Option.some.injEq]
      constructor
      · rintro rfl
        exact ⟨j, rfl, by rw [if_pos rfl]⟩
      · rintro ⟨p, rfl, hp⟩
        split_ifs at hp with hpj hpi
        · rw [hpj]
        · exact absurd (Option.some.inj hp).symm hmn
        · exact absurd (h.unique hp hm) hpi
    · rw [update_of_ne hkm, h k q]
      refine exists_congr fun p => and_congr_right fun _ => ?_
      split_ifs with hpj hpi
      · rw [hpj, hn, Option.some.injEq, Option.some.injEq]
        exact ⟨fun h => absurd h.symm hkn, fun h => absurd h.symm hkm⟩
      · rw [hpi, hm, Option.some.injEq, Option.some.injEq]
        exact ⟨fun h => absurd h.symm hkm, fun h => absurd h.symm hkn⟩
      · rfl

theorem dropLast (h : Located pos xs) (hn : xs[xs.length - 1]? = some n) :
    Located (update pos n none) xs.dropLast := by
  have hlast : xs.length - 1 < xs.length := (List.getElem?_eq_some_iff.mp hn).1
  intro m q
  by_cases hm : m = n
  · subst hm
    rw [update_self]
    constructor
    · exact fun h => absurd h (by simp)
    · rintro ⟨p, -, hp⟩
      rw [List.getElem?_dropLast] at hp
      split_ifs at hp with hlt
      have := h.unique hp hn
      omega
  · rw [update_of_ne hm, h m q]
    refine exists_congr fun p => and_congr_right fun _ => ?_
    rw [List.getElem?_dropLast]
    split_ifs with hlt
    · rfl
    · constructor
      · intro hp
        have hle : p < xs.length := (List.getElem?_eq_some_iff.mp hp).1
        have hpe : p = xs.length - 1 := by omega
        rw [hpe, hn, Option.some.injEq] at hp
        exact absurd hp.symm hm
      · exact fun hp => absurd hp (by simp)

end Located

end Positions
