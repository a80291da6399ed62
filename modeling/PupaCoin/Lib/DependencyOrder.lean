import Mathlib.Data.List.Basic
import Mathlib.Data.List.Induction

/-!
# Sequences in the order of their dependencies

In a sequence that resolves its dependencies, everything that an element depends on is there from the start or is
provided by an element in front of it. Elements may be left out as long as the providers of those that stay do.
-/

namespace DependencyOrder

variable {α δ : Type*} {base : δ → Prop} {provides : α → α → δ → Prop} {deps : α → List δ}

/-- What each element depends on is there from the start, or provided for it by an element in front of it. -/
def Resolves (base : δ → Prop) (provides : α → α → δ → Prop) (deps : α → List δ) (xs : List α) : Prop :=
  ∀ pre x post, xs = pre ++ x :: post → ∀ d ∈ deps x, base d ∨ ∃ y ∈ pre, provides y x d

theorem resolves_nil : Resolves base provides deps [] := by
  intro pre x post h
  exact absurd h.symm (by simp)

theorem resolves_concat {xs : List α} {x : α} : Resolves base provides deps (xs ++ [x]) ↔
      Resolves base provides deps xs ∧ ∀ d ∈ deps x, base d ∨ ∃ y ∈ xs, provides y x d := by
  constructor
  · intro h
    refine ⟨?_, h xs x [] rfl⟩
    intro pre z post hsplit
    exact h pre z (post ++ [x]) (by rw [hsplit, List.append_assoc, List.cons_append])
  · rintro ⟨hxs, hx⟩ pre z post hsplit
    rcases List.eq_nil_or_concat post with rfl | ⟨post', last, rfl⟩
    · obtain ⟨rfl, hlast⟩ := List.append_inj' hsplit rfl
      obtain rfl := List.singleton_inj.mp hlast
      exact hx
    · have hsplit' : xs ++ [x] = (pre ++ z :: post') ++ [last] := by
        rw [hsplit]
        simp
      exact hxs pre z post' (List.append_inj' hsplit' rfl).1

/-- **Leaving elements out.** What is left resolves its dependencies, when every provider of an element that stays
stays as well. By induction on the sequence from its end. -/
theorem Resolves.filter {p : α → Bool} (hp : ∀ y x d, provides y x d → p x = true → p y = true) {xs : List α}
    (h : Resolves base provides deps xs) : Resolves base provides deps (xs.filter p) := by
  induction xs using List.reverseRecOn with
  | nil => exact h
  | append_singleton xs x ih =>
    obtain ⟨hxs, hx⟩ := resolves_concat.mp h
    rw [List.filter_append]
    cases hpx : p x with
    | false =>
      have hnone : [x].filter p = [] := by simp [hpx]
      rw [hnone, List.append_nil]
      exact ih hxs
    | true =>
      have hkept : [x].filter p = [x] := by simp [hpx]
      rw [hkept]
      refine resolves_concat.mpr ⟨ih hxs, ?_⟩
      intro d hd
      rcases hx d hd with hbase | ⟨y, hy, hprovides⟩
      · exact Or.inl hbase
      · exact Or.inr ⟨y, List.mem_filter.mpr ⟨hy, hp y x d hprovides hpx⟩, hprovides⟩

theorem Resolves.mono {base' : δ → Prop} {provides' : α → α → δ → Prop} (hbase : ∀ d, base d → base' d)
    (hprovides : ∀ y x d, provides y x d → provides' y x d) {xs : List α}
    (h : Resolves base provides deps xs) : Resolves base' provides' deps xs := by
  intro pre x post hsplit d hd
  rcases h pre x post hsplit d hd with hd | ⟨y, hy, hyd⟩
  · exact Or.inl (hbase d hd)
  · exact Or.inr ⟨y, hy, hprovides y x d hyd⟩

end DependencyOrder
