import PupaCoin.Lib.Guards

/-!
# Loops that the first verdict ends

A round of such a loop either gives the answer of the whole loop or goes on with the next element, and the loop that
comes to its end answers `true`.
-/

namespace FirstVerdict

variable {ε α : Type}

/-- The answer of the first round that gives one, `true` where there is none. -/
def firstVerdict (judge : α → Except ε (Option Bool)) : List α → Except ε Bool
  | [] => .ok true
  | x :: xs => do
    match ← judge x with
    | some b => return b
    | none => firstVerdict judge xs

/-- The first element that is not `Good` comes after one that `Ends` the loop. -/
def Misses (Good Ends : α → Prop) (xs : List α) : Prop :=
  ∃ before x after, xs = before ++ x :: after ∧ (∀ y ∈ before, Good y) ∧ ¬ Good x ∧ ∃ y ∈ before, Ends y

variable {judge : α → Except ε (Option Bool)} {Good Ends : α → Prop} {x : α} {xs : List α}

theorem Misses.not_good (h : Misses Good Ends xs) : ¬ ∀ y ∈ xs, Good y := by
  obtain ⟨before, x, after, rfl, -, hbad, -⟩ := h
  intro hall
  exact hbad (hall x (by simp))

theorem exists_first_bad (h : ¬ ∀ y ∈ xs, Good y) :
    ∃ before x after, xs = before ++ x :: after ∧ (∀ y ∈ before, Good y) ∧ ¬ Good x := by
  induction xs with
  | nil => exact absurd (by simp) h
  | cons x xs ih =>
    by_cases hx : Good x
    · have hrest : ¬ ∀ y ∈ xs, Good y := fun hall => h (List.forall_mem_cons.mpr ⟨hx, hall⟩)
      obtain ⟨before, z, after, rfl, hbefore, hz⟩ := ih hrest
      exact ⟨x :: before, z, after, rfl, List.forall_mem_cons.mpr ⟨hx, hbefore⟩, hz⟩
    · exact ⟨[], x, xs, rfl, by simp, hx⟩

theorem not_misses_cons_of_bad (hx : ¬ Good x) : ¬ Misses Good Ends (x :: xs) := by
  rintro ⟨before, z, after, heq, hbefore, -, y, hy, -⟩
  cases before with
  | nil => simp at hy
  | cons w before =>
    obtain ⟨rfl, -⟩ := List.cons.inj heq
    exact hx (hbefore x (by simp))

theorem misses_cons_of_ends (hx : Good x) (hends : Ends x) : Misses Good Ends (x :: xs) ↔ ¬ ∀ y ∈ xs, Good y := by
  constructor
  · intro h hall
    exact h.not_good (List.forall_mem_cons.mpr ⟨hx, hall⟩)
  · intro h
    obtain ⟨before, z, after, rfl, hbefore, hz⟩ := exists_first_bad h
    exact ⟨x :: before, z, after, rfl, List.forall_mem_cons.mpr ⟨hx, hbefore⟩, hz, x, by simp, hends⟩

theorem misses_cons_of_goes_on (hx : Good x) (hends : ¬ Ends x) :
    Misses Good Ends (x :: xs) ↔ Misses Good Ends xs := by
  constructor
  · rintro ⟨before, z, after, heq, hbefore, hz, y, hy, hyends⟩
    cases before with
    | nil => simp at hy
    | cons w before =>
      obtain ⟨rfl, rfl⟩ := List.cons.inj heq
      have hmem : y ∈ before := (List.mem_cons.mp hy).resolve_left fun h => hends (h ▸ hyends)
      exact ⟨before, z, after, rfl, fun v hv => hbefore v (List.mem_cons_of_mem _ hv), hz, y, hmem, hyends⟩
  · rintro ⟨before, z, after, rfl, hbefore, hz, y, hy, hyends⟩
    exact ⟨x :: before, z, after, rfl, List.forall_mem_cons.mpr ⟨hx, hbefore⟩, hz, y,
      List.mem_cons_of_mem _ hy, hyends⟩

theorem firstVerdict_eq_true_iff (hon : ∀ x, judge x = .ok none ↔ Good x ∧ ¬ Ends x)
    (hends : ∀ x, judge x = .ok (some true) ↔ Good x ∧ Ends x) (xs : List α) :
    firstVerdict judge xs = .ok true ↔ (∀ y ∈ xs, Good y) ∨ Misses Good Ends xs := by
  induction xs with
  | nil => simp [firstVerdict]
  | cons x xs ih =>
    by_cases hgood : Good x
    · by_cases hx : Ends x
      · have hjudge : firstVerdict judge (x :: xs) = .ok true := by
          simp [firstVerdict, (hends x).mpr ⟨hgood, hx⟩, pure, Except.pure]
        rw [hjudge, misses_cons_of_ends hgood hx, List.forall_mem_cons]
        simp only [hgood, true_and, true_iff]
        exact Classical.em _
      · have hjudge : firstVerdict judge (x :: xs) = firstVerdict judge xs := by
          simp [firstVerdict, (hon x).mpr ⟨hgood, hx⟩]
        rw [hjudge, ih, misses_cons_of_goes_on hgood hx, List.forall_mem_cons]
        simp only [hgood, true_and]
    · have hnone : judge x ≠ .ok none := fun h => hgood ((hon x).mp h).1
      have htrue : judge x ≠ .ok (some true) := fun h => hgood ((hends x).mp h).1
      have hjudge : firstVerdict judge (x :: xs) ≠ .ok true := by
        rw [firstVerdict, ne_eq, Guards.bind_eq_ok]
        rintro ⟨verdict, hv, h⟩
        cases verdict with
        | none => exact hnone hv
        | some b =>
          obtain rfl : b = true := Except.ok.inj h
          exact htrue hv
      constructor
      · exact fun h => absurd h hjudge
      · rintro (h | h)
        · exact absurd (h x (by simp)) hgood
        · exact absurd h (not_misses_cons_of_bad hgood)

end FirstVerdict
