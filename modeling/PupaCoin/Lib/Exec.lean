import Mathlib.Data.List.Basic

/-!
# Computations that write a state and may stop

`Exec σ ε α` reads and writes a state `σ` and either returns an `α` or stops with an `ε`. What was
written before the stop remains written, as it does when an imperative function returns early: a
stopped computation is not a rolled back one.
-/

/-- A computation over the state `σ` that returns an `α` or stops with an `ε`. -/
def Exec (σ ε α : Type) := σ → Except ε α × σ

namespace Exec

variable {σ ε α β : Type}

instance : Monad (Exec σ ε) where
  pure a := fun s => (.ok a, s)
  bind m f := fun s =>
    match m s with
    | (.ok a, s') => f a s'
    | (.error e, s') => (.error e, s')

/-- Stop with `e`, leaving the state as it is. -/
def stop (e : ε) : Exec σ ε α := fun s => (.error e, s)

def read : Exec σ ε σ := fun s => (.ok s, s)

/-- Replace the state by its image under `f`. -/
def update (f : σ → σ) : Exec σ ε Unit := fun s => (.ok (), f s)

/-- A computation that only depends on the state and does not write it. -/
def lift (r : Except ε α) : Exec σ ε α := fun s => (r, s)

instance : MonadLift (Except ε) (Exec σ ε) := ⟨lift⟩

@[simp] theorem pure_apply (a : α) (s : σ) : (pure a : Exec σ ε α) s = (.ok a, s) := rfl

@[simp] theorem stop_apply (e : ε) (s : σ) : (stop e : Exec σ ε α) s = (.error e, s) := rfl

@[simp] theorem read_apply (s : σ) : (read : Exec σ ε σ) s = (.ok s, s) := rfl

@[simp] theorem update_apply (f : σ → σ) (s : σ) : (update f : Exec σ ε Unit) s = (.ok (), f s) := rfl

@[simp] theorem lift_apply (r : Except ε α) (s : σ) : (lift r : Exec σ ε α) s = (r, s) := rfl

theorem bind_apply (m : Exec σ ε α) (f : α → Exec σ ε β) (s : σ) : (m >>= f) s = match m s with
      | (.ok a, s') => f a s'
      | (.error e, s') => (.error e, s') := rfl

theorem eq_of_fst {m : Exec σ ε α} {s : σ} {r : Except ε α} (h : (m s).1 = r) : m s = (r, (m s).2) := by
  rw [← h]

/-- The first half returned, so the second half runs on what it left. -/
theorem bind_of_ok {m : Exec σ ε α} {s t : σ} {a : α} (h : m s = (.ok a, t)) (f : α → Exec σ ε β) :
    (m >>= f) s = f a t := by
  rw [bind_apply, h]

theorem read_bind (f : σ → Exec σ ε β) (s : σ) : ((read : Exec σ ε σ) >>= f) s = f s s := rfl

theorem update_bind (g : σ → σ) (f : Unit → Exec σ ε β) (s : σ) :
    ((update g : Exec σ ε Unit) >>= f) s = f () (g s) := rfl

theorem lift_ok_bind (a : α) (f : α → Exec σ ε β) : ((lift (.ok a) : Exec σ ε α) >>= f) = f a := rfl

theorem lift_error_bind (e : ε) (f : α → Exec σ ε β) : ((lift (.error e) : Exec σ ε α) >>= f) = stop e := rfl

/-- The first half stopped, so the whole stops there. -/
theorem bind_of_error {m : Exec σ ε α} {s t : σ} {e : ε} (h : m s = (.error e, t)) (f : α → Exec σ ε β)
    : (m >>= f) s = (.error e, t) := by
  rw [bind_apply, h]

theorem bind_returns {m : Exec σ ε α} {f : α → Exec σ ε β} {s s' : σ} {b : β} :
    (m >>= f) s = (.ok b, s') ↔ ∃ a t, m s = (.ok a, t) ∧ f a t = (.ok b, s') := by
  rw [bind_apply]
  constructor
  · intro h
    rcases hm : m s with ⟨r, t⟩
    rw [hm] at h
    cases r with
    | ok a => exact ⟨a, t, rfl, h⟩
    | error e => simp at h
  · rintro ⟨a, t, hm, hf⟩
    rw [hm]
    exact hf

theorem foldlM_concat_returns {f : β → α → Exec σ ε β} {xs : List α} {x : α} {b c : β} {s s' : σ} :
    (xs ++ [x]).foldlM f b s = (.ok c, s') ↔ ∃ b' t, xs.foldlM f b s = (.ok b', t) ∧ f b' x t = (.ok c, s') := by
  induction xs generalizing b s with
  | nil =>
    rw [List.nil_append, List.foldlM_cons, bind_returns]
    constructor
    · rintro ⟨b', t, hx, hpure⟩
      obtain ⟨rfl, rfl⟩ : b' = c ∧ t = s' := by simpa using hpure
      exact ⟨b, s, rfl, hx⟩
    · rintro ⟨b', t, hpure, hx⟩
      obtain ⟨rfl, rfl⟩ : b = b' ∧ s = t := by simpa using hpure
      exact ⟨c, s', hx, rfl⟩
  | cons y xs ih =>
    rw [List.cons_append, List.foldlM_cons, List.foldlM_cons, bind_returns]
    simp only [ih, bind_returns]
    constructor
    · rintro ⟨b', t, hy, b'', t', hrest, hx⟩
      exact ⟨b'', t', ⟨b', t, hy, hrest⟩, hx⟩
    · rintro ⟨b'', t', ⟨b', t, hy, hrest⟩, hx⟩
      exact ⟨b', t, hy, b'', t', hrest, hx⟩

theorem forM_invariant {f : α → Exec σ ε Unit} (I : List α → σ → Prop)
    (hstep : ∀ done s x s', I done s → f x s = (.ok (), s') → I (done ++ [x]) s') :
    ∀ (xs done : List α) (s t : σ), I done s → xs.forM f s = (.ok (), t) → I (done ++ xs) t := by
  intro xs
  induction xs with
  | nil =>
    intro done s t hI h
    obtain rfl : s = t := congrArg Prod.snd h
    rwa [List.append_nil]
  | cons x xs ih =>
    intro done s t hI h
    obtain ⟨_, s', hx, hxs⟩ := bind_returns.mp h
    have := ih (done ++ [x]) s' t (hstep done s x s' hI hx) hxs
    rwa [List.append_assoc] at this

theorem liftM_returns {r : Except ε α} {s s' : σ} {a : α} :
    (liftM r : Exec σ ε α) s = (.ok a, s') ↔ r = .ok a ∧ s = s' :=
  Prod.mk.injEq _ _ _ _ ▸ Iff.rfl

theorem bind_stops {m : Exec σ ε α} {f : α → Exec σ ε β} {s s' : σ} {e : ε} : (m >>= f) s = (.error e, s') ↔
      m s = (.error e, s') ∨ ∃ a t, m s = (.ok a, t) ∧ f a t = (.error e, s') := by
  rcases hm : m s with ⟨r, t⟩
  cases r with
  | ok a =>
    rw [bind_of_ok hm]
    constructor
    · exact fun h => Or.inr ⟨a, t, rfl, h⟩
    · rintro (h | ⟨a', t', h, hf⟩)
      · simp at h
      · simp only [Prod.mk.injEq, Except.ok.injEq] at h
        rw [h.1, h.2]
        exact hf
  | error e' =>
    rw [bind_of_error hm]
    simp

/-- Whatever `m` does from any state, `R` holds between that state and the one it leaves. -/
def Frame (R : σ → σ → Prop) (m : Exec σ ε α) : Prop := ∀ s, R s (m s).2

section Frame

variable {R : σ → σ → Prop}

theorem Frame.apply {m : Exec σ ε α} (hm : Frame R m) {s s' : σ} {r : Except ε α} (h : m s = (r, s')) : R s s' := by
  have := hm s
  rwa [h] at this

theorem Frame.pure (hrefl : ∀ s, R s s) (a : α) : Frame R (pure a : Exec σ ε α) :=
  fun s => hrefl s

theorem Frame.stop (hrefl : ∀ s, R s s) (e : ε) : Frame R (Exec.stop e : Exec σ ε α) :=
  fun s => hrefl s

theorem Frame.read (hrefl : ∀ s, R s s) : Frame R (Exec.read : Exec σ ε σ) :=
  fun s => hrefl s

theorem Frame.lift (hrefl : ∀ s, R s s) (r : Except ε α) : Frame R (Exec.lift r : Exec σ ε α) :=
  fun s => hrefl s

theorem Frame.update {f : σ → σ} (h : ∀ s, R s (f s)) : Frame R (Exec.update f : Exec σ ε Unit) :=
  h

theorem Frame.bind (htrans : ∀ a b c, R a b → R b c → R a c) {m : Exec σ ε α} {f : α → Exec σ ε β} (hm : Frame R m)
    (hf : ∀ a, Frame R (f a)) : Frame R (m >>= f) := by
  intro s
  rcases h : m s with ⟨r, t⟩
  have h1 : R s t := hm.apply h
  cases r with
  | ok a =>
    rw [bind_of_ok h]
    exact htrans s t _ h1 (hf a t)
  | error e =>
    rw [bind_of_error h]
    exact h1

theorem Frame.mono {S : σ → σ → Prop} (h : ∀ a b, R a b → S a b) {m : Exec σ ε α} (hm : Frame R m)
    : Frame S m := fun s => h _ _ (hm s)

theorem Frame.forM_mem (hrefl : ∀ s, R s s) (htrans : ∀ a b c, R a b → R b c → R a c) {f : α → Exec σ ε Unit}
    {xs : List α} (hf : ∀ a ∈ xs, Frame R (f a)) : Frame R (xs.forM f : Exec σ ε Unit) := by
  induction xs with
  | nil => exact Frame.pure hrefl _
  | cons x xs ih =>
    exact Frame.bind htrans (hf x List.mem_cons_self) fun _ => ih fun a ha => hf a (List.mem_cons_of_mem x ha)

theorem Frame.forM (hrefl : ∀ s, R s s) (htrans : ∀ a b c, R a b → R b c → R a c) {f : α → Exec σ ε Unit}
    (hf : ∀ a, Frame R (f a)) (xs : List α) : Frame R (xs.forM f : Exec σ ε Unit) :=
  Frame.forM_mem hrefl htrans fun a _ => hf a

theorem Frame.foldlM_mem (hrefl : ∀ s, R s s) (htrans : ∀ a b c, R a b → R b c → R a c) {f : β → α → Exec σ ε β}
    {xs : List α} (hf : ∀ a ∈ xs, ∀ b, Frame R (f b a)) (b : β) : Frame R (xs.foldlM f b : Exec σ ε β) := by
  induction xs generalizing b with
  | nil => exact Frame.pure hrefl _
  | cons x xs ih =>
    exact Frame.bind htrans (hf x (by simp) b) fun b' => ih (fun a ha => hf a (by simp [ha])) b'

theorem Frame.foldlM (hrefl : ∀ s, R s s) (htrans : ∀ a b c, R a b → R b c → R a c) {f : β → α → Exec σ ε β}
    (hf : ∀ b a, Frame R (f b a)) (xs : List α) (b : β) : Frame R (xs.foldlM f b : Exec σ ε β) :=
  Frame.foldlM_mem hrefl htrans (fun a _ b => hf b a) b

end Frame

/-- Whatever `m` does, it adds at most `k` to the count that is its state. -/
def AtMost (k : Nat) (m : Exec Nat ε α) : Prop := ∀ s, (m s).2 ≤ s + k

section AtMost

variable {m : Exec Nat ε α} {f : α → Exec Nat ε β} {k l : Nat}

theorem AtMost.mono (hm : AtMost k m) (h : k ≤ l) : AtMost l m := fun s => by
  have := hm s
  omega

theorem AtMost.pure (a : α) : AtMost k (pure a : Exec Nat ε α) := fun s => Nat.le_add_right s k

theorem AtMost.stop (e : ε) : AtMost k (Exec.stop e : Exec Nat ε α) := fun s => Nat.le_add_right s k

theorem AtMost.lift (r : Except ε α) : AtMost k (Exec.lift r : Exec Nat ε α) := fun s => Nat.le_add_right s k

theorem AtMost.bind_of (hm : AtMost k m) (hf : ∀ s a t, m s = (.ok a, t) → AtMost l (f a)) :
    AtMost (k + l) (m >>= f) := by
  intro s
  rcases h : m s with ⟨r, t⟩
  have h1 := hm s
  rw [h] at h1
  cases r with
  | ok a =>
    rw [bind_of_ok h]
    have h2 := hf s a t h t
    simp only at h1
    omega
  | error e =>
    rw [bind_of_error h]
    simp only at h1 ⊢
    omega

theorem AtMost.bind (hm : AtMost k m) (hf : ∀ a, AtMost l (f a)) : AtMost (k + l) (m >>= f) :=
  hm.bind_of fun _ a _ _ => hf a

theorem AtMost.bind_zero (hm : AtMost 0 m) (hf : ∀ a, AtMost k (f a)) : AtMost k (m >>= f) := by
  have := hm.bind hf
  rwa [Nat.zero_add] at this

theorem AtMost.ite {c : Prop} [Decidable c] {m' : Exec Nat ε α} (ht : c → AtMost k m) (hf : ¬c → AtMost k m')
    : AtMost k (if c then m else m') := by
  split_ifs with hc
  · exact ht hc
  · exact hf hc

end AtMost

/-- Two outcomes agree: they are the same value, or neither is one; a stop for an excused reason agrees with
everything. -/
def Agree (excused : ε → Prop) : Except ε α → Except ε α → Prop
  | .ok a, .ok b => a = b
  | .ok _, .error _ => False
  | .error e, .ok _ => excused e
  | .error _, .error _ => True

/-- From whatever states they start, the second computation returns what the first one does, unless that
stops for an excused reason. -/
def Follows (excused : ε → Prop) (m₀ m : Exec σ ε α) : Prop := ∀ s t, Agree excused (m₀ s).1 (m t).1

section Follows

variable {excused : ε → Prop}

theorem Follows.pure (a : α) : Follows excused (pure a : Exec σ ε α) (pure a) := fun _ _ => rfl

theorem Follows.stop (e e' : ε) : Follows excused (Exec.stop e : Exec σ ε α) (Exec.stop e') :=
  fun _ _ => trivial

theorem Follows.lift (r : Except ε α) : Follows excused (Exec.lift r : Exec σ ε α) (Exec.lift r) := by
  intro s t
  cases r with
  | ok a => exact (rfl : a = a)
  | error e => exact trivial

theorem Follows.of_excused {e : ε} (he : excused e) (m : Exec σ ε α) : Follows excused (Exec.stop e) m := by
  intro s t
  show Agree excused (.error e) (m t).1
  cases (m t).1 with
  | ok a => exact he
  | error e' => exact trivial

theorem Follows.bind {m₀ m : Exec σ ε α} {f₀ f : α → Exec σ ε β} (hm : Follows excused m₀ m)
    (hf : ∀ a, Follows excused (f₀ a) (f a)) : Follows excused (m₀ >>= f₀) (m >>= f) := by
  intro s t
  have h := hm s t
  rcases h₀ : m₀ s with ⟨r₀, s'⟩
  rcases h₁ : m t with ⟨r, t'⟩
  rw [h₀, h₁] at h
  cases r₀ with
  | ok a =>
    cases r with
    | ok b =>
      have hab : a = b := h
      rw [bind_of_ok h₀, bind_of_ok h₁, hab]
      exact hf b s' t'
    | error e => exact absurd h id
  | error e =>
    rw [bind_of_error h₀]
    cases r with
    | ok b =>
      rw [bind_of_ok h₁]
      show Agree excused (.error e) (f b t').1
      cases (f b t').1 with
      | ok c => exact h
      | error e' => exact trivial
    | error e' =>
      rw [bind_of_error h₁]
      exact trivial

theorem Follows.ite {c : Prop} [Decidable c] {m₀ m n₀ n : Exec σ ε α} (ht : c → Follows excused m₀ m)
    (hf : ¬c → Follows excused n₀ n) : Follows excused (if c then m₀ else n₀) (if c then m else n) := by
  split_ifs with hc
  · exact ht hc
  · exact hf hc

theorem Follows.isOk_eq {m₀ m : Exec σ ε α} (h : Follows excused m₀ m) {s : σ}
    (hs : ∀ e, (m₀ s).1 = .error e → ¬excused e) (t : σ) : (m t).1.isOk = (m₀ s).1.isOk := by
  have hst := h s t
  cases h₀ : (m₀ s).1 with
  | ok a =>
    rw [h₀] at hst
    cases h₁ : (m t).1 with
    | ok b => rfl
    | error e =>
      rw [h₁] at hst
      exact absurd hst id
  | error e =>
    rw [h₀] at hst
    cases h₁ : (m t).1 with
    | ok b =>
      rw [h₁] at hst
      exact absurd hst (hs e h₀)
    | error e' => rfl

end Follows

end Exec
