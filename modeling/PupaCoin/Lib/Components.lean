import Mathlib.Data.Set.Lattice
import Mathlib.Logic.Relation

/-!
# The connected components of a family of sets

Two elements are linked where a set of the family has both. The classes of the smallest equivalence that links them can
be made one set after the other: a new set is joined with the classes that it meets.
-/

namespace Components

open Relation (EqvGen)

variable {α : Type} {family classes : Set (Set α)} {g c : Set α} {a b : α}

/-- Two elements of one set of the family. -/
def Linked (family : Set (Set α)) (a b : α) : Prop := ∃ g ∈ family, a ∈ g ∧ b ∈ g

/-- The classes of the linked elements of a family: disjoint, with all of its elements and no others. -/
structure Are (family classes : Set (Set α)) : Prop where
  inhabited : ∀ c ∈ classes, c.Nonempty
  disjoint : ∀ c ∈ classes, ∀ c' ∈ classes, ∀ a ∈ c, a ∈ c' → c = c'
  covers : ∀ g ∈ family, ∃ c ∈ classes, g ⊆ c
  within : ∀ c ∈ classes, ∀ a ∈ c, ∃ g ∈ family, a ∈ g
  connected : ∀ c ∈ classes, ∀ a ∈ c, ∀ b ∈ c, EqvGen (Linked family) a b

/-- What is linked by a chain is in one class. By induction on the chain. -/
theorem Are.eq_or_same (h : Are family classes) (hab : EqvGen (Linked family) a b) :
    a = b ∨ ∃ c ∈ classes, a ∈ c ∧ b ∈ c := by
  induction hab with
  | rel a b hlinked =>
    obtain ⟨g, hg, ha, hb⟩ := hlinked
    obtain ⟨c, hc, hsub⟩ := h.covers g hg
    exact Or.inr ⟨c, hc, hsub ha, hsub hb⟩
  | refl a => exact Or.inl rfl
  | symm a b _ ih =>
    rcases ih with rfl | ⟨c, hc, ha, hb⟩
    · exact Or.inl rfl
    · exact Or.inr ⟨c, hc, hb, ha⟩
  | trans a b d _ _ ih ih' =>
    rcases ih with rfl | ⟨c, hc, ha, hb⟩
    · exact ih'
    · rcases ih' with rfl | ⟨c', hc', hb', hd⟩
      · exact Or.inr ⟨c, hc, ha, hb⟩
      · rw [h.disjoint c hc c' hc' b hb hb'] at ha
        exact Or.inr ⟨c', hc', ha, hd⟩

theorem Are.mem_iff (h : Are family classes) (hc : c ∈ classes) (ha : a ∈ c) :
    b ∈ c ↔ EqvGen (Linked family) a b := by
  constructor
  · exact fun hb => h.connected c hc a ha b hb
  · intro hab
    rcases h.eq_or_same hab with rfl | ⟨c', hc', ha', hb⟩
    · exact ha
    · rw [h.disjoint c hc c' hc' a ha ha']
      exact hb

theorem are_empty : Are (∅ : Set (Set α)) ∅ :=
  ⟨fun _ h => h.elim, fun _ h => h.elim, fun _ h => h.elim, fun _ h => h.elim, fun _ h => h.elim⟩

theorem eqvGen_insert (g : Set α) (h : EqvGen (Linked family) a b) : EqvGen (Linked (insert g family)) a b :=
  EqvGen.mono (fun _ _ ⟨g', hg', hab⟩ => ⟨g', Or.inr hg', hab⟩) a b h

def hits (classes : Set (Set α)) (g : Set α) : Set (Set α) := {c | c ∈ classes ∧ (c ∩ g).Nonempty}

/-- A set with the classes that it meets. -/
def merged (classes : Set (Set α)) (g : Set α) : Set α := g ∪ ⋃₀ hits classes g

theorem Are.connected_merged (h : Are family classes) (ha : a ∈ merged classes g) (hb : b ∈ g) :
    EqvGen (Linked (insert g family)) a b := by
  rcases ha with ha | ⟨c, ⟨hc, d, hdc, hdg⟩, ha⟩
  · exact .rel a b ⟨g, Or.inl rfl, ha, hb⟩
  · have hstep : EqvGen (Linked (insert g family)) d b := .rel d b ⟨g, Or.inl rfl, hdg, hb⟩
    exact .trans a d b (eqvGen_insert g (h.connected c hc a ha d hdc)) hstep

theorem Are.disjoint_merged (h : Are family classes) (hc : c ∈ classes \ hits classes g) (ha : a ∈ c) :
    a ∉ merged classes g := by
  rintro (hg | ⟨c', ⟨hc', hmeets⟩, ha'⟩)
  · exact hc.2 ⟨hc.1, a, ha, hg⟩
  · rw [h.disjoint c' hc' c hc.1 a ha' ha] at hmeets
    exact hc.2 ⟨hc.1, hmeets⟩

theorem Are.insert (h : Are family classes) (hg : g.Nonempty) :
    Are (insert g family) (insert (merged classes g) (classes \ hits classes g)) where
  inhabited := by
    rintro c (rfl | hc)
    · obtain ⟨a, ha⟩ := hg
      exact ⟨a, Or.inl ha⟩
    · exact h.inhabited c hc.1
  disjoint := by
    rintro c (rfl | hc) c' (rfl | hc') a ha ha'
    · rfl
    · exact absurd ha (h.disjoint_merged hc' ha')
    · exact absurd ha' (h.disjoint_merged hc ha)
    · exact h.disjoint c hc.1 c' hc'.1 a ha ha'
  covers := by
    rintro g' (rfl | hg')
    · exact ⟨_, Or.inl rfl, Set.subset_union_left⟩
    · obtain ⟨c, hc, hsub⟩ := h.covers g' hg'
      by_cases hhit : c ∈ hits classes g
      · exact ⟨_, Or.inl rfl, fun a ha => Or.inr ⟨c, hhit, hsub ha⟩⟩
      · exact ⟨c, Or.inr ⟨hc, hhit⟩, hsub⟩
  within := by
    rintro c (rfl | hc) a ha
    · rcases ha with ha | ⟨c, hhit, ha⟩
      · exact ⟨g, Or.inl rfl, ha⟩
      · obtain ⟨g', hg', ha'⟩ := h.within c hhit.1 a ha
        exact ⟨g', Or.inr hg', ha'⟩
    · obtain ⟨g', hg', ha'⟩ := h.within c hc.1 a ha
      exact ⟨g', Or.inr hg', ha'⟩
  connected := by
    rintro c (rfl | hc) a ha b hb
    · obtain ⟨d, hd⟩ := hg
      exact .trans a d b (h.connected_merged ha hd) (.symm b d (h.connected_merged hb hd))
    · exact eqvGen_insert g (h.connected c hc.1 a ha b hb)

end Components
