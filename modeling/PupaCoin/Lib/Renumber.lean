import Mathlib.Tactic

/-!
# Numbering a list of which some items have a number

The items are taken one after the other. One without a number gets the next one, and the numbers that are not smaller
are shifted by one for it.
-/

namespace Renumber

variable {l pre l' l₁ mid : List ℤ} {p q : ℤ} {m : ℤ × ℤ}

/-- The greatest number of a list, `-1` where it has none. -/
def top (l : List ℤ) : ℤ := l.foldl max (-1)

@[simp] theorem top_nil : top [] = -1 := rfl

@[simp] theorem top_append_singleton (l : List ℤ) (p : ℤ) : top (l ++ [p]) = max (top l) p := by
  rw [top, List.foldl_append]
  rfl

theorem neg_one_le_top (l : List ℤ) : -1 ≤ top l := by
  induction l using List.reverseRecOn with
  | nil => exact le_rfl
  | append_singleton l p ih => exact (top_append_singleton l p).symm ▸ ih.trans (le_max_left _ _)

theorem le_top (h : p ∈ l) : p ≤ top l := by
  induction l using List.reverseRecOn with
  | nil => exact absurd h List.not_mem_nil
  | append_singleton l q ih =>
    rw [top_append_singleton]
    rcases List.mem_append.mp h with h | h
    · exact (ih h).trans (le_max_left _ _)
    · exact List.mem_singleton.mp h ▸ le_max_right _ _

theorem top_mem (l : List ℤ) : top l = -1 ∨ top l ∈ l := by
  induction l using List.reverseRecOn with
  | nil => exact Or.inl rfl
  | append_singleton l p ih =>
    rw [top_append_singleton]
    rcases max_choice (top l) p with hmax | hmax
    · rw [hmax]
      exact ih.imp_right fun h => List.mem_append_left _ h
    · rw [hmax]
      exact Or.inr (List.mem_append_right _ List.mem_cons_self)

theorem top_le_append (l l' : List ℤ) : top l ≤ top (l ++ l') := by
  induction l' using List.reverseRecOn with
  | nil => rw [List.append_nil]
  | append_singleton l' p ih =>
    rw [← List.append_assoc, top_append_singleton]
    exact ih.trans (le_max_left _ _)

/-- The next number, and the numbers that items without one have got. -/
structure Progress where
  next : ℤ
  starts : List ℤ

namespace Progress

/-- What the number of an item becomes. -/
def number (s : Progress) (p : ℤ) : ℤ := if p = -1 then s.next else p + s.starts.countP fun o => decide (o ≤ p)

def advance (s : Progress) (p : ℤ) : Progress :=
  if p = -1 then ⟨s.next + 1, s.starts ++ [s.next]⟩ else ⟨max s.next (s.number p + 1), s.starts⟩

theorem number_of_none (s : Progress) : s.number (-1) = s.next := if_pos rfl

theorem number_of_some (s : Progress) (h : p ≠ -1) :
    s.number p = p + s.starts.countP fun o => decide (o ≤ p) := if_neg h

theorem advance_of_none (s : Progress) : s.advance (-1) = ⟨s.next + 1, s.starts ++ [s.next]⟩ := if_pos rfl

theorem advance_of_some (s : Progress) (h : p ≠ -1) :
    s.advance p = ⟨max s.next (s.number p + 1), s.starts⟩ := if_neg h

end Progress

/-- Where the numbering is behind some items. -/
def progress (l : List ℤ) : Progress := l.foldl Progress.advance ⟨0, []⟩

@[simp] theorem progress_append_singleton (l : List ℤ) (p : ℤ) : progress (l ++ [p]) = (progress l).advance p := by
  rw [progress, List.foldl_append]
  rfl

theorem length_starts (l : List ℤ) : (progress l).starts.length = l.count (-1) := by
  induction l using List.reverseRecOn with
  | nil => rfl
  | append_singleton l p ih =>
    rw [progress_append_singleton, List.count_append]
    by_cases hp : p = -1
    · rw [hp, Progress.advance_of_none, List.length_append, ih, List.count_singleton_self]
      rfl
    · rw [Progress.advance_of_some _ hp, List.count_singleton, ih]
      simp [hp]

/-- The number for an item without one behind the items of a list. -/
def slot (l : List ℤ) : ℤ := top l + l.count (-1) + 1

/-- For the items without a number, the greatest number in front of each, and its slot. -/
def marks (pre : List ℤ) : List ℤ → List (ℤ × ℤ)
  | [] => []
  | p :: l => (if p = -1 then [(top pre, slot pre)] else []) ++ marks (pre ++ [p]) l

def shift (l : List ℤ) (p : ℤ) : ℕ := (marks [] l).countP fun m => decide (m.1 < p)

/-- What the number of an item behind the items of a list is to become. -/
def ideal (l : List ℤ) (p : ℤ) : ℤ := if p = -1 then slot l else p + shift l p

theorem ideal_of_none (l : List ℤ) : ideal l (-1) = slot l := if_pos rfl

theorem ideal_of_some (l : List ℤ) (h : p ≠ -1) : ideal l p = p + shift l p := if_neg h

theorem marks_append (pre l l' : List ℤ) : marks pre (l ++ l') = marks pre l ++ marks (pre ++ l) l' := by
  induction l generalizing pre with
  | nil => rw [List.append_nil]; rfl
  | cons p l ih => rw [List.cons_append, marks, marks, ih, List.append_assoc, List.append_assoc]; rfl

theorem marks_append_singleton (l : List ℤ) (p : ℤ) :
    marks [] (l ++ [p]) = marks [] l ++ if p = -1 then [(top l, slot l)] else [] := by
  rw [marks_append, List.nil_append, marks, marks, List.append_nil]

theorem length_marks (pre l : List ℤ) : (marks pre l).length = l.count (-1) := by
  induction l generalizing pre with
  | nil => rfl
  | cons p l ih =>
    rw [marks, List.length_append, ih, List.count_cons]
    by_cases hp : p = -1
    · simp [hp, Nat.add_comm]
    · simp [hp]

theorem mem_marks : m ∈ marks pre l ↔ ∃ l₁ l₂, l = l₁ ++ -1 :: l₂ ∧ m = (top (pre ++ l₁), slot (pre ++ l₁)) := by
  induction l generalizing pre with
  | nil => exact ⟨fun h => absurd h List.not_mem_nil, fun ⟨l₁, l₂, h, _⟩ => by simp at h⟩
  | cons p l ih =>
    rw [marks, List.mem_append, ih]
    constructor
    · rintro (h | ⟨l₁, l₂, rfl, rfl⟩)
      · split_ifs at h with hp
        · exact ⟨[], l, by rw [hp]; rfl, by rw [List.append_nil]; exact List.mem_singleton.mp h⟩
        · exact absurd h List.not_mem_nil
      · exact ⟨p :: l₁, l₂, rfl, by rw [List.append_assoc]; rfl⟩
    · rintro ⟨l₁, l₂, hl, rfl⟩
      cases l₁ with
      | nil =>
        left
        rw [if_pos (List.cons.inj hl).1, List.append_nil]
        exact List.mem_cons_self
      | cons q l₁ =>
        obtain ⟨rfl, rfl⟩ := List.cons.inj hl
        exact Or.inr ⟨l₁, l₂, rfl, by rw [List.append_assoc]; rfl⟩

/-- The numbers are so far apart that both ways shift them alike: none is above what is in front of an item without one
and below its slot. -/
def Spaced (l : List ℤ) : Prop :=
  ∀ l₁ l₂ p l₃, l = l₁ ++ -1 :: (l₂ ++ p :: l₃) → p ≠ -1 → top l₁ < p → slot l₁ ≤ p

theorem spaced_of_count_le_one (h : l.count (-1) ≤ 1) : Spaced l := by
  rintro l₁ l₂ p l₃ rfl - hlt
  rw [List.count_append, List.count_cons_self] at h
  rw [slot]
  omega

theorem Spaced.of_append (h : Spaced (l ++ l')) : Spaced l := fun l₁ l₂ p l₃ hl =>
  h l₁ l₂ p (l₃ ++ l') (by rw [hl]; simp)

theorem Spaced.mark (h : Spaced (l ++ p :: l')) (hp : p ≠ -1)
    (hm : m ∈ marks [] l) (hlt : m.1 < p) : m.2 ≤ p := by
  obtain ⟨l₁, l₂, rfl, rfl⟩ := mem_marks.1 hm
  exact h l₁ l₂ p l' (by simp) hp hlt

theorem countP_le_of_forall₂ {α β : Type} {R : α → β → Prop} {P : α → Bool} {Q : β → Bool} {l : List α} {l' : List β}
    (h : List.Forall₂ R l l') (hR : ∀ x y, R x y → P x = true → Q y = true) : l.countP P ≤ l'.countP Q := by
  induction h with
  | nil => exact le_rfl
  | @cons x y l l' hxy _ ih =>
    rw [List.countP_cons, List.countP_cons]
    refine Nat.add_le_add ih ?_
    split_ifs with hP hQ
    · exact le_rfl
    · exact absurd (hR x y hxy hP) hQ
    · exact Nat.zero_le _
    · exact le_rfl

theorem shift_le (l : List ℤ) (p : ℤ) : shift l p ≤ l.count (-1) := length_marks [] l ▸ List.countP_le_length

theorem shift_of_top_lt (h : top l < p) : shift l p = l.count (-1) := by
  rw [← length_marks [] l, shift, List.countP_eq_length]
  intro m hm
  obtain ⟨l₁, l₂, hl, rfl⟩ := mem_marks.1 hm
  exact decide_eq_true ((hl ▸ top_le_append l₁ (-1 :: l₂)).trans_lt h)

theorem mark_lt (h : m ∈ marks pre l) : m.1 < m.2 := by
  obtain ⟨l₁, l₂, -, rfl⟩ := mem_marks.1 h
  show top (pre ++ l₁) < top (pre ++ l₁) + (pre ++ l₁).count (-1) + 1
  omega

theorem slot_le_append (l l' : List ℤ) : slot l ≤ slot (l ++ l') := by
  have htop := top_le_append l l'
  rw [slot, slot, List.count_append]
  omega

theorem slot_append_none (l : List ℤ) : slot (l ++ [-1]) = slot l + 1 := by
  rw [slot, slot, top_append_singleton, max_eq_left (neg_one_le_top l), List.count_append, List.count_singleton_self]
  omega

theorem slot_append_some (l : List ℤ) (h : p ≠ -1) : slot (l ++ [p]) = max (top l) p + l.count (-1) + 1 := by
  have hcount : [p].count (-1) = 0 :=
    List.count_eq_zero_of_not_mem fun hmem => h (List.mem_singleton.mp hmem).symm
  rw [slot, top_append_singleton, List.count_append, hcount, Nat.add_zero]

theorem progress_bounds (l : List ℤ) : (top l < (progress l).next ∧ (progress l).next ≤ slot l) ∧
      List.Forall₂ (fun o m => m.1 < o ∧ o ≤ m.2) (progress l).starts (marks [] l) := by
  induction l using List.reverseRecOn with
  | nil => exact ⟨⟨by decide, by decide⟩, .nil⟩
  | append_singleton l p ih =>
    obtain ⟨⟨hlt, hle⟩, hstarts⟩ := ih
    rw [progress_append_singleton, marks_append_singleton]
    by_cases hp : p = -1
    · rw [hp, Progress.advance_of_none, slot_append_none, top_append_singleton, max_eq_left (neg_one_le_top l), if_pos rfl]
      refine ⟨⟨?_, ?_⟩, List.rel_append hstarts (.cons ⟨hlt, hle⟩ .nil)⟩
      · show top l < (progress l).next + 1
        omega
      · show (progress l).next + 1 ≤ slot l + 1
        omega
    · rw [Progress.advance_of_some _ hp, slot_append_some l hp, top_append_singleton, if_neg hp, List.append_nil]
      have hnumber := (progress l).number_of_some hp
      have hcount : (progress l).starts.countP (fun o => decide (o ≤ p)) ≤ l.count (-1) :=
        length_starts l ▸ List.countP_le_length
      have hslot : slot l = top l + l.count (-1) + 1 := rfl
      refine ⟨⟨?_, ?_⟩, hstarts⟩
      · exact max_lt (hlt.trans_le (le_max_left _ _)) (lt_max_of_lt_right (by omega))
      · refine max_le ?_ ?_
        · have := le_max_left (top l) p
          omega
        · have := le_max_right (top l) p
          omega

theorem number_le_ideal (l : List ℤ) (p : ℤ) : (progress l).number p ≤ ideal l p := by
  obtain ⟨⟨-, hnext⟩, hstarts⟩ := progress_bounds l
  by_cases hp : p = -1
  · rw [hp, Progress.number_of_none, ideal_of_none]
    exact hnext
  · rw [Progress.number_of_some _ hp, ideal_of_some l hp]
    have hcount := countP_le_of_forall₂ (P := fun o => decide (o ≤ p)) (Q := fun m => decide (m.1 < p)) hstarts
      fun o m h ho => decide_eq_true (h.1.trans_le (of_decide_eq_true ho))
    exact Int.add_le_add_left (Int.ofNat_le.mpr hcount) p

theorem countP_slots (l : List ℤ) (p : ℤ) (h : ∀ m ∈ marks [] l, m.1 < p → m.2 ≤ p) :
    ((marks [] l).map Prod.snd).countP (fun o => decide (o ≤ p)) = shift l p := by
  rw [List.countP_map, shift]
  refine List.countP_congr fun m hm => ?_
  rw [Function.comp_apply, decide_eq_true_iff, decide_eq_true_iff]
  exact ⟨fun hle => (mark_lt hm).trans_le hle, h m hm⟩

/-- Where the numbers are spaced, the next number is the slot. By induction on the items. -/
theorem Spaced.progress_eq (h : Spaced l) :
    (progress l).next = slot l ∧ (progress l).starts = (marks [] l).map Prod.snd := by
  induction l using List.reverseRecOn with
  | nil => exact ⟨rfl, rfl⟩
  | append_singleton l p ih =>
    obtain ⟨hnext, hstarts⟩ := ih h.of_append
    rw [progress_append_singleton, marks_append_singleton]
    by_cases hp : p = -1
    · rw [hp, Progress.advance_of_none, slot_append_none, hnext, hstarts, if_pos rfl, List.map_append]
      exact ⟨rfl, rfl⟩
    · rw [Progress.advance_of_some _ hp, Progress.number_of_some _ hp, hstarts, countP_slots l p fun m hm hlt =>
        h.mark hp hm hlt, slot_append_some l hp, hnext, slot, if_neg hp, List.append_nil]
      refine ⟨?_, rfl⟩
      rcases le_or_gt p (top l) with hle | hlt
      · have := shift_le l p
        rw [max_eq_left hle, max_eq_left]
        omega
      · rw [max_eq_right hlt.le, shift_of_top_lt hlt, max_eq_right]
        omega

theorem Spaced.number_eq {k : List ℤ} (h : Spaced (l ++ p :: k)) : (progress l).number p = ideal l p := by
  obtain ⟨hnext, hstarts⟩ := h.of_append.progress_eq
  by_cases hp : p = -1
  · rw [hp, Progress.number_of_none, ideal_of_none, hnext]
  · rw [Progress.number_of_some _ hp, ideal_of_some l hp, hstarts, countP_slots l p fun m hm hlt => h.mark hp hm hlt]

theorem top_le_mark (h : m ∈ marks pre l) : top pre ≤ m.1 := by
  obtain ⟨l₁, l₂, -, rfl⟩ := mem_marks.1 h
  exact top_le_append pre l₁

theorem countP_marks_eq_zero (h : q ≤ top pre) : ((marks pre l).countP fun m => decide (m.1 < q)) = 0 := by
  refine List.countP_eq_zero.mpr fun m hm hlt => ?_
  exact absurd (of_decide_eq_true hlt) (not_lt.mpr (h.trans (top_le_mark hm)))

theorem shift_append (l l' : List ℤ) (q : ℤ) :
    shift (l ++ l') q = shift l q + (marks l l').countP fun m => decide (m.1 < q) := by
  rw [shift, marks_append, List.countP_append, List.nil_append, shift]

theorem shift_mono (l : List ℤ) (h : p ≤ q) : shift l p ≤ shift l q :=
  List.countP_mono_left fun _ _ hlt => decide_eq_true ((of_decide_eq_true hlt).trans_le h)

theorem count_append_le (l l' : List ℤ) : l.count (-1) ≤ (l ++ l').count (-1) := by
  rw [List.count_append]
  exact Nat.le_add_right _ _

theorem ideal_lt_slot (l₁ mid : List ℤ) (p : ℤ) : ideal l₁ p < slot (l₁ ++ p :: mid) := by
  have htop := top_le_append l₁ (p :: mid)
  have hcount := count_append_le l₁ (p :: mid)
  by_cases hp : p = -1
  · rw [hp, ideal_of_none, slot, slot]
    have hmore : (l₁ ++ -1 :: mid).count (-1) = l₁.count (-1) + (mid.count (-1) + 1) := by
      rw [List.count_append, List.count_cons_self]
    rw [hp] at htop
    omega
  · have hle : p ≤ top (l₁ ++ p :: mid) := le_top (List.mem_append_right _ List.mem_cons_self)
    have hshift := shift_le l₁ p
    rw [ideal_of_some _ hp, slot]
    omega

theorem slot_ne_ideal (hq : 0 ≤ q) (hnew : q ∉ l₁) : slot l₁ ≠ ideal (l₁ ++ -1 :: mid) q := by
  have hsome : q ≠ -1 := by omega
  rw [ideal_of_some _ hsome, shift_append, slot]
  rcases lt_or_ge (top l₁) q with hlt | hle
  · rw [shift_of_top_lt hlt, marks, if_pos rfl, List.countP_append, List.countP_singleton, if_pos (decide_eq_true hlt)]
    omega
  · rw [countP_marks_eq_zero hle]
    have hne : top l₁ ≠ q := fun heq => by
      rcases top_mem l₁ with hnone | hmem
      · omega
      · exact hnew (heq ▸ hmem)
    have := shift_le l₁ q
    omega

theorem shift_of_le (hp : p ≠ -1) (h : q ≤ p) : shift (l₁ ++ p :: mid) q = shift l₁ q := by
  have htop : q ≤ top (l₁ ++ [p]) := by
    rw [top_append_singleton]
    exact h.trans (le_max_right _ _)
  rw [shift_append, marks, if_neg hp, List.nil_append, countP_marks_eq_zero htop, Nat.add_zero]

theorem ideal_lt_of_lt (hp : p ≠ -1) (hq : q ≠ -1) (h : p < q) : ideal l₁ p < ideal (l₁ ++ p :: mid) q := by
  have hmono := shift_mono l₁ h.le
  rw [ideal_of_some _ hp, ideal_of_some _ hq, shift_append]
  omega

theorem ideal_lt_of_gt (hp : p ≠ -1) (hq : q ≠ -1) (h : q < p) : ideal (l₁ ++ p :: mid) q < ideal l₁ p := by
  have hmono := shift_mono l₁ h.le
  rw [ideal_of_some _ hp, ideal_of_some _ hq, shift_of_le hp h.le]
  omega

theorem ideal_ne_ideal (hq : -1 ≤ q) (hnew : q ≠ -1 → q ∉ l₁ ++ p :: mid) :
    ideal l₁ p ≠ ideal (l₁ ++ p :: mid) q := by
  by_cases hq' : q = -1
  · rw [hq', ideal_of_none]
    exact (ideal_lt_slot l₁ mid p).ne
  · have hnew := hnew hq'
    by_cases hp : p = -1
    · rw [hp, ideal_of_none]
      exact slot_ne_ideal (by omega) fun hmem => hnew (List.mem_append_left _ hmem)
    · rcases lt_trichotomy p q with hlt | heq | hgt
      · exact (ideal_lt_of_lt hp hq' hlt).ne
      · exact absurd (heq ▸ List.mem_append_right _ List.mem_cons_self) hnew
      · exact (ideal_lt_of_gt hp hq' hgt).ne'

section Along

variable {α : Type} {f g : List ℤ → ℤ → ℤ}

/-- The items with what `f` makes of their numbers and of those in front of them. -/
def along (f : List ℤ → ℤ → ℤ) (pre : List ℤ) : List (α × ℤ) → List (α × ℤ)
  | [] => []
  | e :: l => (e.1, f pre e.2) :: along f (pre ++ [e.2]) l

theorem map_fst_along (f : List ℤ → ℤ → ℤ) (pre : List ℤ) (l : List (α × ℤ)) :
    (along f pre l).map Prod.fst = l.map Prod.fst := by
  induction l generalizing pre with
  | nil => rfl
  | cons e l ih => rw [along, List.map_cons, ih, List.map_cons]

theorem mem_along {l : List (α × ℤ)} {a : α} {n : ℤ} :
    (a, n) ∈ along f pre l ↔ ∃ l₁ p l₂, l = l₁ ++ (a, p) :: l₂ ∧ n = f (pre ++ l₁.map Prod.snd) p := by
  induction l generalizing pre with
  | nil => exact ⟨fun h => absurd h List.not_mem_nil, fun ⟨l₁, p, l₂, h, _⟩ => by simp at h⟩
  | cons e l ih =>
    rw [along, List.mem_cons, ih]
    constructor
    · rintro (h | ⟨l₁, p, l₂, rfl, rfl⟩)
      · obtain ⟨rfl, rfl⟩ := Prod.mk.inj h
        exact ⟨[], e.2, l, rfl, by rw [List.map_nil, List.append_nil]⟩
      · exact ⟨e :: l₁, p, l₂, rfl, by rw [List.append_assoc]; rfl⟩
    · rintro ⟨l₁, p, l₂, hl, rfl⟩
      cases l₁ with
      | nil =>
        obtain ⟨rfl, rfl⟩ := List.cons.inj hl
        exact Or.inl (by rw [List.map_nil, List.append_nil])
      | cons d l₁ =>
        obtain ⟨rfl, rfl⟩ := List.cons.inj hl
        exact Or.inr ⟨l₁, p, l₂, rfl, by rw [List.append_assoc]; rfl⟩

theorem along_forall₂ (hle : ∀ pre p, f pre p ≤ g pre p) (pre : List ℤ) (l : List (α × ℤ)) :
    List.Forall₂ (· ≤ ·) ((along f pre l).map Prod.snd) ((along g pre l).map Prod.snd) := by
  induction l generalizing pre with
  | nil => exact .nil
  | cons e l ih => exact .cons (hle pre e.2) (ih (pre ++ [e.2]))

theorem eq_of_along_eq {l₁ l₂ : List (α × ℤ)} {e : α × ℤ}
    (h : (along f pre (l₁ ++ e :: l₂)).map Prod.snd = (along g pre (l₁ ++ e :: l₂)).map Prod.snd) :
    f (pre ++ l₁.map Prod.snd) e.2 = g (pre ++ l₁.map Prod.snd) e.2 := by
  induction l₁ generalizing pre with
  | nil =>
    rw [List.map_nil, List.append_nil]
    exact (List.cons.inj h).1
  | cons d l₁ ih =>
    have hrest := ih (List.cons.inj h).2
    rw [List.append_assoc] at hrest
    exact hrest

theorem earlier_of_ne {l l₁ l₂ l₁' l₂' : List (α × ℤ)} {e e' : α × ℤ} (h : l = l₁ ++ e :: l₂) (h' : l = l₁' ++ e' :: l₂')
    (hne : e ≠ e') : (∃ mid, l₁' = l₁ ++ e :: mid) ∨ ∃ mid, l₁ = l₁' ++ e' :: mid := by
  rcases List.append_eq_append_iff.mp (h.symm.trans h') with ⟨c, hc, hc'⟩ | ⟨c, hc, hc'⟩
  · cases c with
    | nil => exact absurd (List.cons.inj hc').1 hne
    | cons d c =>
      obtain ⟨rfl, -⟩ := List.cons.inj hc'
      exact Or.inl ⟨c, hc⟩
  · cases c with
    | nil => exact absurd (List.cons.inj hc').1.symm hne
    | cons d c =>
      obtain ⟨rfl, -⟩ := List.cons.inj hc'
      exact Or.inr ⟨c, hc⟩

end Along

/-- Below every number there are all smaller ones. -/
def GapFree (l : List ℤ) : Prop := ∀ p ∈ l, ∀ q, 0 ≤ q → q ≤ p → q ∈ l

/-- Every item has a number of its own, or none. -/
structure Numbered (l : List ℤ) : Prop where
  range : ∀ p ∈ l, -1 ≤ p
  nodup : (l.filter fun p => decide (p ≠ -1)).Nodup

theorem slot_le_length (hl : GapFree l) : slot l ≤ l.length := by
  have hplaced : (top l + 1).toNat ≤ (l.filter fun p => decide (p ≠ -1)).length := by
    have hsub : ((List.range (top l + 1).toNat).map Int.ofNat).Subperm (l.filter fun p => decide (p ≠ -1)) := by
      refine List.Nodup.subperm (List.Nodup.map (fun _ _ => Int.ofNat.inj) List.nodup_range) fun q hq => ?_
      obtain ⟨n, hn, rfl⟩ := List.mem_map.mp hq
      have hn := List.mem_range.mp hn
      refine List.mem_filter.mpr ⟨?_, decide_eq_true (by simp)⟩
      rcases top_mem l with hnone | hmem
      · rw [hnone] at hn
        exact absurd hn (Nat.not_lt_zero _)
      · exact hl (top l) hmem n (Int.natCast_nonneg n) (by omega)
    have hlen := hsub.length_le
    rwa [List.length_map, List.length_range] at hlen
  have hcount : (l.filter fun p => decide (p ≠ -1)).length + l.count (-1) = l.length := by
    rw [← List.countP_eq_length_filter, List.count, List.length_eq_countP_add_countP fun p => decide (p ≠ -1)]
    congr 1
    refine List.countP_congr fun p _ => ?_
    simp
  have := neg_one_le_top l
  rw [slot]
  omega

theorem perm_range {n : ℕ} (hnodup : l.Nodup) (hlen : l.length = n) (hrange : ∀ p ∈ l, 0 ≤ p ∧ p < n) :
    l.Perm ((List.range n).map Int.ofNat) := by
  have hsub : l.Subperm ((List.range n).map Int.ofNat) := by
    refine hnodup.subperm fun p hp => List.mem_map.mpr ⟨p.toNat, List.mem_range.mpr ?_, Int.toNat_of_nonneg (hrange p hp).1⟩
    have := hrange p hp
    omega
  refine hsub.perm_of_length_le ?_
  rw [List.length_map, List.length_range, hlen]

theorem eq_of_forall₂_of_sum_eq (h : List.Forall₂ (· ≤ ·) l l') (hsum : l.sum = l'.sum) : l = l' := by
  induction h with
  | nil => rfl
  | @cons p q l l' hle hrest ih =>
    have hsums : l.sum ≤ l'.sum := List.Forall₂.sum_le_sum hrest
    rw [List.sum_cons, List.sum_cons] at hsum
    rw [ih (by omega), show p = q by omega]

theorem of_countP_eq {α : Type} {P Q : α → Bool} {l : List α} (himp : ∀ x ∈ l, P x = true → Q x = true)
    (heq : l.countP P = l.countP Q) : ∀ x ∈ l, Q x = true → P x = true := by
  induction l with
  | nil => exact nofun
  | cons a l ih =>
    have hrest : l.countP P ≤ l.countP Q := List.countP_mono_left fun x hx => himp x (List.mem_cons_of_mem a hx)
    have ha := himp a List.mem_cons_self
    rw [List.countP_cons, List.countP_cons] at heq
    intro x hx hQ
    rcases List.mem_cons.mp hx with rfl | hx
    · by_contra hP
      rw [if_neg hP, if_pos hQ] at heq
      omega
    · refine ih (fun x hx => himp x (List.mem_cons_of_mem a hx)) ?_ x hx hQ
      split_ifs at heq with hP hQa
      · omega
      · exact absurd (ha hP) hQa
      · omega
      · omega

theorem starts_eq (h : ∀ l₁ l₂, l = l₁ ++ -1 :: l₂ → (progress l₁).next = slot l₁) :
    (progress l).starts = (marks [] l).map Prod.snd := by
  induction l using List.reverseRecOn with
  | nil => rfl
  | append_singleton l p ih =>
    have hstarts := ih fun l₁ l₂ hl => h l₁ (l₂ ++ [p]) (by rw [hl, List.append_assoc]; rfl)
    rw [progress_append_singleton, marks_append_singleton, List.map_append, ← hstarts]
    by_cases hp : p = -1
    · rw [hp, Progress.advance_of_none, if_pos rfl, h l [] (by rw [hp])]
      rfl
    · rw [Progress.advance_of_some _ hp, if_neg hp, List.map_nil, List.append_nil]

theorem spaced_of_number_eq (h : ∀ l₁ p l₂, l = l₁ ++ p :: l₂ → (progress l₁).number p = ideal l₁ p) : Spaced l := by
  intro l₁ l₂ p l₃ hl hp hlt
  have hstarts : (progress (l₁ ++ -1 :: l₂)).starts = (marks [] (l₁ ++ -1 :: l₂)).map Prod.snd := by
    refine starts_eq fun k k' hk => ?_
    have hnumber := h k (-1) (k' ++ p :: l₃) (by rw [hl, ← List.cons_append, ← List.append_assoc, hk]; simp)
    rwa [Progress.number_of_none, ideal_of_none] at hnumber
  have hnumber := h (l₁ ++ -1 :: l₂) p l₃ (by rw [hl]; simp)
  rw [Progress.number_of_some _ hp, ideal_of_some _ hp, hstarts, List.countP_map] at hnumber
  have hcount := Int.ofNat.inj (Int.add_left_cancel hnumber)
  have hmark : (top l₁, slot l₁) ∈ marks [] (l₁ ++ -1 :: l₂) := mem_marks.2 ⟨l₁, l₂, rfl, rfl⟩
  refine of_decide_eq_true (of_countP_eq (fun m hm hle => ?_) hcount _ hmark (decide_eq_true hlt))
  exact decide_eq_true ((mark_lt hm).trans_le (of_decide_eq_true hle))

theorem Numbered.of_append (h : Numbered (l ++ l')) : Numbered l :=
  ⟨fun p hp => h.range p (List.mem_append_left _ hp),
    (List.filter_append (p := fun p : ℤ => decide (p ≠ -1)) l l' ▸ h.nodup).of_append_left⟩

theorem Numbered.not_mem (h : Numbered (l ++ q :: l')) (hq : q ≠ -1) : q ∉ l := by
  intro hmem
  have hnodup := h.nodup
  rw [List.filter_append, List.filter_cons_of_pos (by exact decide_eq_true hq)] at hnodup
  exact (List.nodup_append.mp hnodup).2.2 q (List.mem_filter.mpr ⟨hmem, decide_eq_true hq⟩) q List.mem_cons_self rfl

theorem along_append_singleton {α : Type} (f : List ℤ → ℤ → ℤ) (pre : List ℤ) (l : List (α × ℤ)) (e : α × ℤ) :
    along f pre (l ++ [e]) = along f pre l ++ [(e.1, f (pre ++ l.map Prod.snd) e.2)] := by
  induction l generalizing pre with
  | nil => rw [List.nil_append, List.map_nil, List.append_nil]; rfl
  | cons d l ih => rw [List.cons_append, along, ih, List.append_assoc]; rfl

theorem nodup_ideals {α : Type} {l : List (α × ℤ)} (h : Numbered (l.map Prod.snd)) :
    ((along ideal [] l).map Prod.snd).Nodup := by
  induction l using List.reverseRecOn with
  | nil => exact List.nodup_nil
  | append_singleton l e ih =>
    rw [List.map_append] at h
    rw [along_append_singleton, List.map_append, List.map_cons, List.map_nil]
    refine List.nodup_append.mpr ⟨ih h.of_append, List.nodup_singleton _, fun n hn m hm => ?_⟩
    rw [List.mem_singleton.mp hm]
    obtain ⟨⟨a, n'⟩, hmem, rfl⟩ := List.mem_map.mp hn
    obtain ⟨l₁, p, l₂, rfl, hn'⟩ := mem_along.1 hmem
    have hsplit : (l₁ ++ (a, p) :: l₂).map Prod.snd = l₁.map Prod.snd ++ p :: l₂.map Prod.snd := by
      rw [List.map_append, List.map_cons]
    show n' ≠ ideal ([] ++ (l₁ ++ (a, p) :: l₂).map Prod.snd) e.2
    rw [hn', List.nil_append, List.nil_append, hsplit]
    refine ideal_ne_ideal (h.range e.2 (List.mem_append_right _ List.mem_cons_self)) fun he => ?_
    rw [← hsplit]
    exact h.not_mem he

theorem number_nonneg (hp : -1 ≤ p) : 0 ≤ (progress l).number p := by
  by_cases hnone : p = -1
  · have := (progress_bounds l).1.1
    have := neg_one_le_top l
    rw [hnone, Progress.number_of_none]
    omega
  · rw [Progress.number_of_some _ hnone]
    omega

theorem spaced_of_gapFree {α : Type} {l : List (α × ℤ)} (h : Numbered (l.map Prod.snd)) (hgap : GapFree (l.map Prod.snd))
    (hnodup : ((along (fun pre => (progress pre).number) [] l).map Prod.snd).Nodup) : Spaced (l.map Prod.snd) := by
  have hle := along_forall₂ (α := α) (fun pre p => number_le_ideal pre p) [] l
  have hlen (f : List ℤ → ℤ → ℤ) : ((along f [] l).map Prod.snd).length = l.length := by
    rw [List.length_map, ← List.length_map (f := Prod.fst), map_fst_along, List.length_map]
  have hbelow : ∀ l₁ a p l₂, l = l₁ ++ (a, p) :: l₂ → -1 ≤ p ∧ ideal (l₁.map Prod.snd) p < l.length := by
    rintro l₁ a p l₂ rfl
    refine ⟨h.range p (List.mem_map.mpr ⟨(a, p), List.mem_append_right _ List.mem_cons_self, rfl⟩), ?_⟩
    have hslot := slot_le_length hgap
    rw [List.length_map, List.map_append, List.map_cons] at hslot
    exact (ideal_lt_slot _ _ p).trans_le hslot
  have hnumbers := perm_range hnodup (hlen _) fun n hn => by
    obtain ⟨⟨a, n⟩, hmem, rfl⟩ := List.mem_map.mp hn
    obtain ⟨l₁, p, l₂, hl, rfl⟩ := mem_along.1 hmem
    obtain ⟨hp, hlt⟩ := hbelow l₁ a p l₂ hl
    exact ⟨number_nonneg hp, (number_le_ideal _ p).trans_lt hlt⟩
  have hideals := perm_range (nodup_ideals h) (hlen _) fun n hn => by
    obtain ⟨⟨a, n⟩, hmem, rfl⟩ := List.mem_map.mp hn
    obtain ⟨l₁, p, l₂, hl, rfl⟩ := mem_along.1 hmem
    obtain ⟨hp, hlt⟩ := hbelow l₁ a p l₂ hl
    exact ⟨(number_nonneg hp).trans (number_le_ideal _ p), hlt⟩
  have heq := eq_of_forall₂_of_sum_eq hle (hnumbers.trans hideals.symm).sum_eq
  refine spaced_of_number_eq fun k p k' hk => ?_
  obtain ⟨l₁, l', rfl, rfl, hl'⟩ := List.map_eq_append_iff.mp hk
  obtain ⟨e, l₂, rfl, rfl, rfl⟩ := List.map_eq_cons_iff.mp hl'
  exact eq_of_along_eq heq

end Renumber
