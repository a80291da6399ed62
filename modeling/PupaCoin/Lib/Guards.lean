import Mathlib.Data.List.Basic

/-!
# Sequences of checks in `Except`

What a successful sequence of checks establishes: each check passed, in turn. A list loop that
returns has returned at every element, and an invariant of its step is an invariant of the loop.
-/

namespace Guards

variable {ε α β σ : Type}

/-- Stop with `e` when the check `c` fires. -/
def stopIf (c : Bool) (e : ε) : Except ε Unit := if c then .error e else .ok ()

@[simp] theorem ok_bind {a : α} {f : α → Except ε β} : (Except.ok a >>= f) = f a := rfl

@[simp] theorem error_bind {e : ε} {f : α → Except ε β} : (Except.error e >>= f) = .error e := rfl

theorem bind_eq_ok {x : Except ε α} {f : α → Except ε β} {b : β} :
    (x >>= f) = .ok b ↔ ∃ a, x = .ok a ∧ f a = .ok b := by
  cases x <;> simp [bind, Except.bind]

@[simp] theorem stopIf_eq_ok {c : Bool} {e : ε} {u : Unit} : stopIf c e = .ok u ↔ c = false := by
  cases c <;> simp [stopIf]

@[simp] theorem stopIf_eq_error {c : Bool} {e e' : ε} : stopIf c e = .error e' ↔ c = true ∧ e = e' := by
  cases c <;> simp [stopIf]

@[simp] theorem stopIf_false (e : ε) : stopIf false e = .ok () := rfl

@[simp] theorem stopIf_true (e : ε) : stopIf true e = .error e := rfl

theorem mapM_ok_of_mem {f : α → Except ε β} {xs : List α} {ys : List β} (h : xs.mapM f = .ok ys) {x : α} (hx : x ∈ xs)
    : ∃ y, f x = .ok y := by
  induction xs generalizing ys with
  | nil => exact absurd hx List.not_mem_nil
  | cons a xs ih =>
    rw [List.mapM_cons] at h
    obtain ⟨b, hb, h⟩ := bind_eq_ok.mp h
    obtain ⟨bs, hbs, -⟩ := bind_eq_ok.mp h
    rcases List.mem_cons.mp hx with rfl | hx
    · exact ⟨b, hb⟩
    · exact ih hbs hx

theorem forM_eq_ok {xs : List α} {g : α → Except ε Unit} {u : Unit} : xs.forM g = .ok u ↔ ∀ x ∈ xs, g x = .ok () := by
  induction xs with
  | nil => simp [List.forM, pure, Except.pure]
  | cons x xs ih =>
    change (g x >>= fun _ => xs.forM g) = _ ↔ _
    rw [bind_eq_ok]
    simp only [ih, List.mem_cons, forall_eq_or_imp]
    constructor
    · rintro ⟨⟨⟩, hx, hs⟩
      exact ⟨hx, hs⟩
    · rintro ⟨hx, hs⟩
      exact ⟨_, hx, hs⟩

theorem foldlM_cons_eq_ok {f : σ → α → Except ε σ} {x : α} {xs : List α} {s t : σ} :
    (x :: xs).foldlM f s = .ok t ↔ ∃ s', f s x = .ok s' ∧ xs.foldlM f s' = .ok t := by
  rw [List.foldlM_cons, bind_eq_ok]

@[simp] theorem foldlM_nil_eq_ok {f : σ → α → Except ε σ} {s t : σ} : ([] : List α).foldlM f s = .ok t ↔ s = t := by
  simp [pure, Except.pure]

theorem foldlM_congr {f g : σ → α → Except ε σ} {xs : List α} {s : σ} (h : ∀ s, ∀ x ∈ xs, f s x = g s x)
    : xs.foldlM f s = xs.foldlM g s := by
  induction xs generalizing s with
  | nil => rfl
  | cons x xs ih =>
    have hrest : ∀ s, xs.foldlM f s = xs.foldlM g s :=
      fun s => ih fun s y hy => h s y (List.mem_cons_of_mem x hy)
    rw [List.foldlM_cons, List.foldlM_cons, h s x List.mem_cons_self]
    simp only [hrest]

/-- **Loop rule.** An invariant of the list consumed so far and of the accumulator, established by
    the start and kept by every step that returns, holds when the loop returns. -/
theorem foldlM_invariant {f : σ → α → Except ε σ} (I : List α → σ → Prop)
    (hstep : ∀ done s x s', I done s → f s x = .ok s' → I (done ++ [x]) s') :
    ∀ (xs done : List α) (s t : σ), I done s → xs.foldlM f s = .ok t → I (done ++ xs) t := by
  intro xs
  induction xs with
  | nil =>
    intro done s t hI h
    rw [foldlM_nil_eq_ok] at h
    rw [List.append_nil, ← h]
    exact hI
  | cons x xs ih =>
    intro done s t hI h
    obtain ⟨s', hx, hxs⟩ := foldlM_cons_eq_ok.mp h
    have := ih (done ++ [x]) s' t (hstep done s x s' hI hx) hxs
    rwa [List.append_assoc] at this

/-- The computation returns a value with `P`, or stops for an allowed reason. -/
def Settles (allowed : ε → Prop) (P : α → Prop) : Except ε α → Prop
  | .ok a => P a
  | .error e => allowed e

namespace Settles

variable {allowed : ε → Prop} {P : α → Prop} {Q : β → Prop}

@[simp] theorem ok {a : α} : Settles allowed P (.ok a : Except ε α) ↔ P a := Iff.rfl

@[simp] theorem error {e : ε} : Settles allowed P (.error e : Except ε α) ↔ allowed e := Iff.rfl

@[simp] theorem pure {a : α} : Settles allowed P (Pure.pure a : Except ε α) ↔ P a := Iff.rfl

theorem bind {x : Except ε α} {f : α → Except ε β} (hx : Settles allowed P x)
    (hf : ∀ a, P a → Settles allowed Q (f a)) : Settles allowed Q (x >>= f) := by
  cases x with
  | ok a => exact hf a hx
  | error e => exact hx

theorem map {x : Except ε α} {f : α → β} (hx : Settles allowed (fun a => Q (f a)) x) :
    Settles allowed Q (f <$> x) := by
  cases x with
  | ok a => exact hx
  | error e => exact hx

theorem mono {P' : α → Prop} {x : Except ε α} (hx : Settles allowed P x) (h : ∀ a, P a → P' a) :
    Settles allowed P' x := by
  cases x with
  | ok a => exact h a hx
  | error e => exact hx

theorem ite {c : Prop} [Decidable c] {x y : Except ε α} (ht : c → Settles allowed P x) (hf : ¬c → Settles allowed P y)
    : Settles allowed P (if c then x else y) := by
  split_ifs with hc
  · exact ht hc
  · exact hf hc

/-- **Loop rule.** An invariant of the list consumed so far and of the accumulator that every step keeps
holds after the loop. -/
theorem foldlM {f : σ → α → Except ε σ} {I : List α → σ → Prop} {xs d : List α} {s : σ}
    (hstep : ∀ d s, ∀ x ∈ xs, I d s → Settles allowed (I (d ++ [x])) (f s x)) (hs : I d s) :
    Settles allowed (I (d ++ xs)) (xs.foldlM f s) := by
  induction xs generalizing s d with
  | nil =>
    rw [List.append_nil]
    exact hs
  | cons x xs ih =>
    rw [List.foldlM_cons]
    refine (hstep d s x List.mem_cons_self hs).bind fun t ht => ?_
    have := ih (fun d s y hy => hstep d s y (List.mem_cons_of_mem x hy)) ht
    rwa [List.append_assoc] at this

end Settles

end Guards
