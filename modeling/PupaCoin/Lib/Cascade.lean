import Mathlib.Logic.Relation
import Mathlib.Data.Set.Card

/-!
# Removing an element with all that depend on it

`R a b` says that `b` depends directly on `a`. `Removal` is what a removal that takes the dependents of whatever it
takes does to a set; removals compose, and one that starts at a single element leaves exactly what does not depend on
it.
-/

namespace Cascade

variable {α : Type*} {R : α → α → Prop} {roots roots' : α → Prop} {s t u : Set α} {a b c : α}

/-- A direct dependency between two elements of `s`. -/
def Within (R : α → α → Prop) (s : Set α) (a b : α) : Prop := a ∈ s ∧ b ∈ s ∧ R a b

/-- `b` is `a`, or depends on it inside `s`, directly or through others. -/
def Depends (R : α → α → Prop) (s : Set α) : α → α → Prop := Relation.ReflTransGen (Within R s)

/-- Nothing in `s` depends on itself. -/
def Acyclic (R : α → α → Prop) (s : Set α) : Prop := ∀ a, ¬ Relation.TransGen (Within R s) a a

theorem Within.mono (h : t ⊆ s) (hab : Within R t a b) : Within R s a b := ⟨h hab.1, h hab.2.1, hab.2.2⟩

theorem Depends.mono (h : t ⊆ s) (hab : Depends R t a b) : Depends R s a b :=
  Relation.ReflTransGen.mono (fun _ _ hstep => hstep.mono h) a b hab

theorem Acyclic.mono (h : t ⊆ s) (hs : Acyclic R s) : Acyclic R t := fun a ha =>
  hs a (Relation.TransGen.mono (fun _ _ hstep => hstep.mono h) a a ha)

theorem Acyclic.of_rank (rank : α → Nat) (h : ∀ a ∈ s, ∀ b ∈ s, R a b → rank a < rank b) : Acyclic R s := by
  intro a ha
  have hlt : ∀ b, Relation.TransGen (Within R s) a b → rank a < rank b := by
    intro b hab
    induction hab with
    | single hstep => exact h _ hstep.1 _ hstep.2.1 hstep.2.2
    | tail _ hstep ih => exact ih.trans (h _ hstep.1 _ hstep.2.1 hstep.2.2)
  exact lt_irrefl _ (hlt a ha)

theorem Depends.mem (h : Depends R s a b) (ha : a ∈ s) : b ∈ s := by
  induction h with
  | refl => exact ha
  | tail _ hstep _ => exact hstep.2.1

/-- `t` is what is left of `s` after some of `roots` went, each with its dependents. -/
structure Removal (R : α → α → Prop) (roots : α → Prop) (s t : Set α) : Prop where
  subset : t ⊆ s
  closed : ∀ a ∈ s, a ∉ t → ∀ b ∈ s, R a b → b ∉ t
  caused : ∀ b ∈ s, b ∉ t → ∃ a, roots a ∧ Depends R s a b

namespace Removal

theorem refl (s : Set α) : Removal R roots s s where
  subset := le_rfl
  closed _ ha hgone := absurd ha hgone
  caused _ hb hgone := absurd hb hgone

theorem mono (hroots : ∀ a, roots a → roots' a) (h : Removal R roots s t) : Removal R roots' s t where
  subset := h.subset
  closed := h.closed
  caused b hb hgone := by
    obtain ⟨a, ha, hdep⟩ := h.caused b hb hgone
    exact ⟨a, hroots a ha, hdep⟩

theorem trans (h₁ : Removal R roots s t) (h₂ : Removal R roots t u) : Removal R roots s u where
  subset := h₂.subset.trans h₁.subset
  closed a ha hgone b hb hab hbu := by
    have hbt := h₂.subset hbu
    by_cases hat : a ∈ t
    · exact h₂.closed a hat hgone b hbt hab hbu
    · exact h₁.closed a ha hat b hb hab hbt
  caused b hb hgone := by
    by_cases hbt : b ∈ t
    · obtain ⟨a, ha, hdep⟩ := h₂.caused b hbt hgone
      exact ⟨a, ha, hdep.mono h₁.subset⟩
    · exact h₁.caused b hb hbt

theorem gone_of_depends (h : Removal R roots s t) (hab : Depends R s a b) (hgone : a ∉ t) : b ∉ t := by
  induction hab with
  | refl => exact hgone
  | tail _ hstep ih => exact h.closed _ hstep.1 ih _ hstep.2.1 hstep.2.2

theorem eq_of_root (h : Removal R (· = a) s t) (hgone : a ∉ t) : t = {b ∈ s | ¬ Depends R s a b} := by
  ext b
  constructor
  · intro hb
    exact ⟨h.subset hb, fun hdep => h.gone_of_depends hdep hgone hb⟩
  · rintro ⟨hb, hnot⟩
    by_contra hbt
    obtain ⟨_, rfl, hdep⟩ := h.caused b hb hbt
    exact hnot hdep

theorem root_kept (hacyclic : Acyclic R s) (ha : a ∈ s) (h : Removal R (Within R s a) s t) : a ∈ t := by
  by_contra hgone
  obtain ⟨c, hac, hca⟩ := h.caused a ha hgone
  exact hacyclic a (Relation.TransGen.head' hac hca)

theorem remove_root (ha : a ∈ s) (h : Removal R (Within R s a) s t) (hdone : ∀ b ∈ t, ¬ R a b) :
    Removal R (· = a) s (t \ {a}) where
  subset := Set.sdiff_subset.trans h.subset
  closed b hb hgone c hc hbc hct := by
    by_cases hbt : b ∈ t
    · obtain rfl : b = a := by
        by_contra hne
        exact hgone ⟨hbt, hne⟩
      exact hdone c hct.1 hbc
    · exact h.closed b hb hbt c hc hbc hct.1
  caused b hb hgone := by
    refine ⟨a, rfl, ?_⟩
    by_cases hbt : b ∈ t
    · obtain rfl : b = a := by
        by_contra hne
        exact hgone ⟨hbt, hne⟩
      exact .refl
    · obtain ⟨c, hac, hcb⟩ := h.caused b hb hbt
      exact Relation.ReflTransGen.head hac hcb

end Removal

theorem ncard_depends_lt (hfinite : s.Finite) (hacyclic : Acyclic R s) (hts : t ⊆ s) (hab : Within R s a b) :
    {c | Depends R t b c}.ncard < {c | Depends R s a c}.ncard := by
  have hsub : {c | Depends R s a c} ⊆ s := fun c hc => hc.mem hab.1
  refine Set.ncard_lt_ncard ⟨?_, ?_⟩ (hfinite.subset hsub)
  · intro c hc
    exact Relation.ReflTransGen.head hab (hc.mono hts)
  · intro hall
    have hba : Depends R t b a := hall Relation.ReflTransGen.refl
    exact hacyclic a (Relation.TransGen.head' hab (hba.mono hts))

end Cascade
