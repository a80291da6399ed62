import Mathlib.Order.Basic
import Mathlib.Order.WellFounded

/-!
# Loops that may not end

A round of a loop ends it with a result or leaves a state for the next round. The loop returns a result when it does so
within some number of rounds; it returns none when every state of an invariant leaves another one.
-/

namespace While

/-- How a round ends. -/
inductive Round (σ ρ : Type) where
  | done (r : ρ)
  | next (s : σ)

variable {σ ρ : Type}

def run (round : σ → Round σ ρ) : Nat → σ → Option ρ
  | 0, _ => none
  | fuel + 1, s =>
    match round s with
    | .done r => some r
    | .next s => run round fuel s

def Returns (round : σ → Round σ ρ) (s : σ) (r : ρ) : Prop := ∃ fuel, run round fuel s = some r

variable {round : σ → Round σ ρ} {s s' : σ} {r r' : ρ}

theorem returns_done_iff (h : round s = .done r') : Returns round s r ↔ r = r' := by
  constructor
  · rintro ⟨_ | fuel, hrun⟩
    · cases hrun
    · rw [run, h] at hrun
      exact (Option.some.inj hrun).symm
  · rintro rfl
    exact ⟨1, by rw [run, h]⟩

theorem returns_next_iff (h : round s = .next s') : Returns round s r ↔ Returns round s' r := by
  constructor
  · rintro ⟨_ | fuel, hrun⟩
    · cases hrun
    · rw [run, h] at hrun
      exact ⟨fuel, hrun⟩
  · rintro ⟨fuel, hrun⟩
    exact ⟨fuel + 1, by rw [run, h]; exact hrun⟩

/-- A loop whose rounds leave the invariant does not return. By induction on the rounds that it is given. -/
theorem not_returns {I : σ → Prop} (hI : ∀ s, I s → ∃ s', round s = .next s' ∧ I s') (hs : I s) :
    ¬ Returns round s r := by
  rintro ⟨fuel, hrun⟩
  induction fuel generalizing s with
  | zero => cases hrun
  | succ fuel ih =>
    obtain ⟨s', hround, hs'⟩ := hI s hs
    rw [run, hround] at hrun
    exact ih hs' hrun

end While
