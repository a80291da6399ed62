import Mathlib.Tactic

/-!
# The latest value of every key

Values come in with a key and a stamp, and for every key the one with the greatest stamp is kept. What is kept depends on
which values have come in, and not on their order, as far as stamps tell the values of a key apart.
-/

namespace Latest

variable {κ τ α β : Type} [LinearOrder τ] {key : α → κ} {stamp : α → τ}

/-- The kept value of a key is one of the values, and none has a greater stamp; none is kept where there is none. -/
def IsLatest (key : α → κ) (stamp : α → τ) (xs : List α) (k : κ) : Option α → Prop
  | none => ∀ x ∈ xs, key x ≠ k
  | some y => y ∈ xs ∧ key y = k ∧ ∀ x ∈ xs, key x = k → stamp x ≤ stamp y

variable {xs ys : List α} {k : κ} {v w : Option α} {x y : α}

theorem IsLatest.nil (key : α → κ) (stamp : α → τ) (k : κ) : IsLatest key stamp [] k none :=
  nofun

theorem IsLatest.snoc_other (hv : IsLatest key stamp xs k v) (hx : key x ≠ k) : IsLatest key stamp (xs ++ [x]) k v := by
  cases v with
  | none =>
    intro z hz
    rcases List.mem_append.mp hz with hz | hz
    · exact hv z hz
    · rwa [List.mem_singleton.mp hz]
  | some y =>
    obtain ⟨hy, hkey, hmax⟩ := hv
    refine ⟨List.mem_append_left _ hy, hkey, fun z hz hzkey => ?_⟩
    rcases List.mem_append.mp hz with hz | hz
    · exact hmax z hz hzkey
    · rw [List.mem_singleton.mp hz] at hzkey
      exact absurd hzkey hx

theorem IsLatest.snoc_older (hv : IsLatest key stamp xs k (some y)) (hx : stamp x ≤ stamp y) :
    IsLatest key stamp (xs ++ [x]) k (some y) := by
  obtain ⟨hy, hkey, hmax⟩ := hv
  refine ⟨List.mem_append_left _ hy, hkey, fun z hz hzkey => ?_⟩
  rcases List.mem_append.mp hz with hz | hz
  · exact hmax z hz hzkey
  · rwa [List.mem_singleton.mp hz]

theorem IsLatest.snoc_newer (hv : IsLatest key stamp xs (key x) v) (hx : ∀ y ∈ v, stamp y ≤ stamp x) :
    IsLatest key stamp (xs ++ [x]) (key x) (some x) := by
  refine ⟨List.mem_append_right _ List.mem_cons_self, rfl, fun z hz hzkey => ?_⟩
  rcases List.mem_append.mp hz with hz | hz
  · cases v with
    | none => exact absurd hzkey (hv z hz)
    | some y => exact (hv.2.2 z hz hzkey).trans (hx y rfl)
  · rw [List.mem_singleton.mp hz]

theorem IsLatest.agree (hv : IsLatest key stamp xs k v) (hw : IsLatest key stamp ys k w)
    (hsame : ∀ x, x ∈ xs ↔ x ∈ ys) {f : α → β}
    (hties : ∀ x ∈ xs, ∀ y ∈ xs, key x = key y → stamp x = stamp y → f x = f y) : v.map f = w.map f := by
  cases v with
  | none =>
    cases w with
    | none => rfl
    | some y => exact absurd hw.2.1 (hv y ((hsame y).mpr hw.1))
  | some x =>
    cases w with
    | none => exact absurd hv.2.1 (hw x ((hsame x).mp hv.1))
    | some y =>
      obtain ⟨hx, hxkey, hxmax⟩ := hv
      obtain ⟨hy, hykey, hymax⟩ := hw
      have hstamp : stamp x = stamp y :=
        le_antisymm (hymax x ((hsame x).mp hx) hxkey) (hxmax y ((hsame y).mpr hy) hykey)
      exact congrArg some (hties x hx y ((hsame y).mpr hy) (hxkey.trans hykey.symm) hstamp)

end Latest

/-!
## Words that are written without a separator

Three words one behind the other. The same letters come from other three words exactly when letters have gone over the
two places where one word ends and the next one begins.
-/

namespace Regroup

variable {α : Type} {x y z x' y' z' u w : List α}

/-- The first word takes over the letters `u` of what follows. Then the second word takes over the letters `w` of the
third one, or gives them to it. -/
def Shifts (u w x y z x' y' z' : List α) : Prop :=
  x' = x ++ u ∧ (u ++ y' = y ++ w ∧ z = w ++ z' ∨ y = u ++ y' ++ w ∧ z' = w ++ z)

theorem Shifts.append_eq (h : Shifts u w x y z x' y' z') : x ++ y ++ z = x' ++ y' ++ z' := by
  obtain ⟨rfl, ⟨hy, rfl⟩ | ⟨rfl, rfl⟩⟩ := h
  · calc x ++ y ++ (w ++ z') = x ++ (y ++ w) ++ z' := by simp only [List.append_assoc]
      _ = x ++ (u ++ y') ++ z' := by rw [hy]
      _ = x ++ u ++ y' ++ z' := by simp only [List.append_assoc]
  · simp only [List.append_assoc]

theorem Shifts.nil (h : Shifts [] [] x y z x' y' z') : x = x' ∧ y = y' ∧ z = z' := by
  obtain ⟨hx, ⟨hy, hz⟩ | ⟨hy, hz⟩⟩ := h
  · simp only [List.append_nil, List.nil_append] at hx hy hz
    exact ⟨hx.symm, hy.symm, hz⟩
  · simp only [List.append_nil, List.nil_append] at hx hy hz
    exact ⟨hx.symm, hy, hz.symm⟩

theorem Shifts.eq_nil (h : Shifts u w x y z x y z) : u = [] ∧ w = [] := by
  obtain ⟨hx, ⟨-, hz⟩ | ⟨-, hz⟩⟩ := h
  · exact ⟨List.self_eq_append_right.mp hx, List.self_eq_append_left.mp hz⟩
  · exact ⟨List.self_eq_append_right.mp hx, List.self_eq_append_left.mp hz⟩

theorem exists_shifts {u : List α} (hx : x' = x ++ u) (h : y ++ z = u ++ y' ++ z') :
    ∃ u w, Shifts u w x y z x' y' z' := by
  rcases List.append_eq_append_iff.mp h with ⟨w, hy, hz⟩ | ⟨w, hy, hz⟩
  · exact ⟨u, w, hx, Or.inl ⟨hy, hz⟩⟩
  · exact ⟨u, w, hx, Or.inr ⟨hy, hz⟩⟩

theorem append_eq_iff : x ++ y ++ z = x' ++ y' ++ z' ↔ (∃ u w, Shifts u w x y z x' y' z')
    ∨ ∃ u w, Shifts u w x' y' z' x y z := by
  constructor
  · intro h
    rw [List.append_assoc, List.append_assoc] at h
    rcases List.append_eq_append_iff.mp h with ⟨u, hx, hrest⟩ | ⟨u, hx, hrest⟩
    · exact Or.inl (exists_shifts hx (hrest.trans (List.append_assoc _ _ _).symm))
    · exact Or.inr (exists_shifts hx (hrest.trans (List.append_assoc _ _ _).symm))
  · rintro (⟨u, w, h⟩ | ⟨u, w, h⟩)
    · exact h.append_eq
    · exact h.append_eq.symm

end Regroup
