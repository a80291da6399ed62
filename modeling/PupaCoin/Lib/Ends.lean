import PupaCoin.Lib.Exec

/-!
# Pre- and postconditions

`Ends P m Q R` says what holds of a computation that is run from a state with `P`: `Q` where it returns, `R` where it
stops. There is one rule for each way to build a computation, and an invariant takes a loop over a list from its
beginning to its end.
-/

namespace Exec

variable {σ ε α β : Type}

/-- From a state with `P`, the computation returns a value and leaves a state with `Q`, or it stops and leaves a state
    with `R`. -/
def Ends (P : σ → Prop) (m : Exec σ ε α) (Q : α → σ → Prop) (R : ε → σ → Prop) : Prop :=
  ∀ s, P s → (∀ a s', m s = (.ok a, s') → Q a s') ∧ ∀ e s', m s = (.error e, s') → R e s'

namespace Ends

variable {P P' : σ → Prop} {Q Q' : α → σ → Prop} {R R' : ε → σ → Prop}

theorem mono {m : Exec σ ε α} (h : Ends P m Q R) (hpre : ∀ s, P' s → P s) (hpost : ∀ a s, Q a s → Q' a s)
    (hstop : ∀ e s, R e s → R' e s) : Ends P' m Q' R' :=
  fun s hs => ⟨fun a s' hrun => hpost a s' ((h s (hpre s hs)).1 a s' hrun),
    fun e s' hrun => hstop e s' ((h s (hpre s hs)).2 e s' hrun)⟩

theorem pre {m : Exec σ ε α} (h : Ends P m Q R) (hpre : ∀ s, P' s → P s) : Ends P' m Q R :=
  h.mono hpre (fun _ _ hq => hq) fun _ _ hr => hr

theorem post {m : Exec σ ε α} (h : Ends P m Q R) (hpost : ∀ a s, Q a s → Q' a s) : Ends P m Q' R :=
  h.mono (fun _ hp => hp) hpost fun _ _ hr => hr

theorem of_fact {c : Prop} {m : Exec σ ε α} (h : c → Ends P m Q R) : Ends (fun s => P s ∧ c) m Q R :=
  fun s hs => h hs.2 s hs.1

theorem of_start {m : Exec σ ε α} (h : ∀ s, P s → Ends (fun s' => s' = s) m Q R) : Ends P m Q R :=
  fun s hs => h s hs s rfl

theorem of_returns {m : Exec σ ε α} (h : ∀ s, P s → ∃ a t, m s = (.ok a, t) ∧ Q a t) : Ends P m Q R := by
  intro s hs
  obtain ⟨a, t, hrun, hq⟩ := h s hs
  rw [hrun]
  refine ⟨fun b s' hb => ?_, fun e s' he => nomatch (Prod.mk.inj he).1⟩
  obtain ⟨heq, rfl⟩ := Prod.mk.inj hb
  exact Except.ok.inj heq ▸ hq

theorem pure {a : α} (h : ∀ s, P s → Q a s) : Ends P (pure a : Exec σ ε α) Q R := by
  intro s hs
  refine ⟨fun b s' hrun => ?_, fun e s' hrun => nomatch (Prod.mk.inj hrun).1⟩
  obtain ⟨hb, hs'⟩ := Prod.mk.inj hrun
  rw [← Except.ok.inj hb, ← hs']
  exact h s hs

theorem stop {e : ε} (h : ∀ s, P s → R e s) : Ends P (Exec.stop e : Exec σ ε α) Q R := by
  intro s hs
  refine ⟨fun a s' hrun => (nomatch (Prod.mk.inj hrun).1), fun e' s' hrun => ?_⟩
  obtain ⟨he, hs'⟩ := Prod.mk.inj hrun
  rw [← Except.error.inj he, ← hs']
  exact h s hs

theorem lift {r : Except ε α} (hok : ∀ a s, r = .ok a → P s → Q a s) (herror : ∀ e s, r = .error e → P s → R e s) :
    Ends P (Exec.lift r : Exec σ ε α) Q R := by
  intro s hs
  refine ⟨fun a s' hrun => ?_, fun e s' hrun => ?_⟩
  · obtain ⟨hr, rfl⟩ := Prod.mk.inj hrun
    exact hok a s hr hs
  · obtain ⟨hr, rfl⟩ := Prod.mk.inj hrun
    exact herror e s hr hs

theorem update {f : σ → σ} {Q : Unit → σ → Prop} (h : ∀ s, P s → Q () (f s)) :
    Ends P (Exec.update f : Exec σ ε Unit) Q R := by
  intro s hs
  refine ⟨fun a s' hrun => ?_, fun e s' hrun => nomatch (Prod.mk.inj hrun).1⟩
  rw [← (Prod.mk.inj hrun).2]
  exact h s hs

theorem bind {m : Exec σ ε α} {f : α → Exec σ ε β} {Q' : β → σ → Prop} (hm : Ends P m Q R)
    (hf : ∀ a, Ends (Q a) (f a) Q' R) : Ends P (m >>= f) Q' R := by
  intro s hs
  refine ⟨fun b s' hrun => ?_, fun e s' hrun => ?_⟩
  · obtain ⟨a, t, hma, hfa⟩ := bind_returns.mp hrun
    exact (hf a t ((hm s hs).1 a t hma)).1 b s' hfa
  · rcases bind_stops.mp hrun with hstop | ⟨a, t, hma, hfa⟩
    · exact (hm s hs).2 e s' hstop
    · exact (hf a t ((hm s hs).1 a t hma)).2 e s' hfa

theorem bind_read {f : σ → Exec σ ε β} {Q' : β → σ → Prop} (h : ∀ w, P w → Ends (fun s => s = w) (f w) Q' R) :
    Ends P (Exec.read >>= f) Q' R := by
  intro s hs
  exact h s hs s rfl

theorem ite {c : Prop} [Decidable c] {m m' : Exec σ ε α} (ht : c → Ends P m Q R) (hf : ¬c → Ends P m' Q R) :
    Ends P (if c then m else m') Q R := by
  split_ifs with hc
  · exact ht hc
  · exact hf hc

/-- A loop keeps the invariant that its body keeps at every element. -/
theorem forM_mem {f : α → Exec σ ε Unit} {xs : List α} (hf : ∀ a ∈ xs, Ends P (f a) (fun _ => P) R) :
    Ends P (xs.forM f : Exec σ ε Unit) (fun _ => P) R := by
  induction xs with
  | nil => exact pure fun _ hs => hs
  | cons x xs ih => exact bind (hf x List.mem_cons_self) fun _ => ih fun a ha => hf a (List.mem_cons_of_mem x ha)

theorem foldlM_mem {J : β → σ → Prop} {f : β → α → Exec σ ε β} {xs : List α}
    (hf : ∀ a ∈ xs, ∀ b, Ends (J b) (f b a) J R) (b : β) : Ends (J b) (xs.foldlM f b : Exec σ ε β) J R := by
  induction xs generalizing b with
  | nil => exact pure fun _ hs => hs
  | cons x xs ih =>
    have hrest : ∀ a ∈ xs, ∀ b, Ends (J b) (f b a) J R := fun a ha => hf a (List.mem_cons_of_mem x ha)
    exact bind (hf x List.mem_cons_self b) fun b' => ih hrest b'

theorem leaves {m : Exec σ ε α} {S : σ → Prop} (h : Ends P m (fun _ => S) fun _ => S) {s : σ} (hs : P s) :
    S (m s).2 := by
  rcases hrun : m s with ⟨r, t⟩
  cases r with
  | ok a => exact (h s hs).1 a t hrun
  | error e => exact (h s hs).2 e t hrun

theorem returns {m : Exec σ ε α} (h : Ends P m Q fun _ _ => False) {s : σ} (hs : P s) :
    ∃ a t, m s = (.ok a, t) ∧ Q a t := by
  rcases hrun : m s with ⟨r, t⟩
  cases r with
  | ok a => exact ⟨a, t, rfl, (h s hs).1 a t hrun⟩
  | error e => exact ((h s hs).2 e t hrun).elim

end Ends

end Exec
