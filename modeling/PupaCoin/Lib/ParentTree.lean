import Mathlib.Tactic

/-!
# Trees given by parent pointers

A forest is given by a `parent` pointer and a `height` that grows by one from a parent to its
children. `path k` lists `k` and its ancestors down to the root.
-/

/-- A forest of parent pointers over the keys `K`. -/
structure ParentTree (K : Type) where
  parent : K → Option K
  height : K → Nat
  height_of_parent : ∀ {k p}, parent k = some p → height k = height p + 1
  height_of_root : ∀ {k}, parent k = none → height k = 0

namespace ParentTree

variable {K : Type} (t : ParentTree K)

variable {k p a b c tip : K} {t' : ParentTree K} {m : Nat}

/-- `k` and at most `fuel` of its ancestors. -/
def pathAux : Nat → K → List K
  | 0, k => [k]
  | fuel + 1, k =>
    match t.parent k with
    | none => [k]
    | some p => k :: pathAux fuel p

/-- `k` followed by its ancestors, the root last. -/
def path (k : K) : List K := t.pathAux (t.height k) k

variable {t}

theorem path_of_root (h : t.parent k = none) : t.path k = [k] := by
  rw [path, t.height_of_root h, pathAux]

theorem path_of_parent (h : t.parent k = some p) : t.path k = k :: t.path p := by
  rw [path, t.height_of_parent h, pathAux, h]
  rfl

/-- **Induction along the parent pointers.** -/
theorem path_induction {motive : K → Prop} (root : ∀ k, t.parent k = none → motive k)
    (child : ∀ k p, t.parent k = some p → motive p → motive k) (k : K) : motive k := by
  induction hn : t.height k using Nat.strong_induction_on generalizing k with
  | h n ih =>
    cases hp : t.parent k with
    | none => exact root k hp
    | some p =>
      have hlt : t.height p < n := by
        have := t.height_of_parent hp
        omega
      exact child k p hp (ih _ hlt p rfl)

theorem path_eq_cons (k : K) : ∃ rest, t.path k = k :: rest := by
  cases hp : t.parent k with
  | none => exact ⟨[], path_of_root hp⟩
  | some p => exact ⟨t.path p, path_of_parent hp⟩

theorem mem_path_self (k : K) : k ∈ t.path k := by
  obtain ⟨rest, h⟩ := t.path_eq_cons k
  simp [h]

theorem length_path (k : K) : (t.path k).length = t.height k + 1 := by
  induction k using t.path_induction with
  | root k h => simp [path_of_root h, t.height_of_root h]
  | child k p h ih => simp [path_of_parent h, ih, t.height_of_parent h]

theorem path_suffix_of_mem (h : a ∈ t.path k) : t.path a <:+ t.path k := by
  induction k using t.path_induction with
  | root k hk =>
    rw [path_of_root hk, List.mem_singleton] at h
    rw [h]
  | child k p hp ih =>
    rw [path_of_parent hp, List.mem_cons] at h
    rcases h with rfl | h
    · exact List.suffix_refl _
    · rw [path_of_parent hp]
      exact (ih h).trans (List.suffix_cons _ _)

theorem mem_path_trans (hab : a ∈ t.path b) (hbk : b ∈ t.path k) : a ∈ t.path k :=
  (path_suffix_of_mem hbk).subset hab

theorem height_le_of_mem (h : a ∈ t.path k) : t.height a ≤ t.height k := by
  have hlen := (path_suffix_of_mem h).length_le
  rw [length_path, length_path] at hlen
  omega

theorem path_congr (h : ∀ a ∈ t.path k, t'.parent a = t.parent a) : t'.path k = t.path k := by
  induction k using t.path_induction with
  | root k hk =>
    rw [path_of_root hk, path_of_root ((h k (t.mem_path_self k)).trans hk)]
  | child k p hp ih =>
    rw [path_of_parent hp] at h ⊢
    rw [path_of_parent ((h k List.mem_cons_self).trans hp), ih fun a ha => h a (List.mem_cons_of_mem k ha)]

theorem eq_of_mem_of_height (ha : a ∈ t.path k) (hb : b ∈ t.path k)
    (h : t.height a = t.height b) : a = b := by
  induction k using t.path_induction with
  | root k hk =>
    rw [path_of_root hk, List.mem_singleton] at ha hb
    rw [ha, hb]
  | child k p hp ih =>
    have hkp := t.height_of_parent hp
    rw [path_of_parent hp, List.mem_cons] at ha hb
    rcases ha with rfl | ha <;> rcases hb with rfl | hb
    · rfl
    · have := height_le_of_mem hb
      omega
    · have := height_le_of_mem ha
      omega
    · exact ih ha hb

theorem mem_path_of_height_le (ha : a ∈ t.path k) (hb : b ∈ t.path k)
    (h : t.height a ≤ t.height b) : a ∈ t.path b := by
  induction k using t.path_induction with
  | root k hk =>
    rw [path_of_root hk, List.mem_singleton] at ha hb
    rw [ha, hb]
    exact mem_path_self k
  | child k p hp ih =>
    have hkp := t.height_of_parent hp
    rw [path_of_parent hp, List.mem_cons] at hb
    rcases hb with rfl | hb
    · exact ha
    · rw [path_of_parent hp, List.mem_cons] at ha
      rcases ha with rfl | ha
      · have := height_le_of_mem hb
        omega
      · exact ih ha hb

theorem exists_mem_of_height_le {n : Nat} (h : n ≤ t.height k) : ∃ a ∈ t.path k, t.height a = n := by
  induction k using t.path_induction with
  | root k hk =>
    have := t.height_of_root hk
    exact ⟨k, mem_path_self k, by omega⟩
  | child k p hp ih =>
    by_cases hn : n = t.height k
    · exact ⟨k, mem_path_self k, hn.symm⟩
    · have hkp := t.height_of_parent hp
      obtain ⟨a, ha, hh⟩ := ih (by omega)
      exact ⟨a, by rw [path_of_parent hp]; exact List.mem_cons_of_mem _ ha, hh⟩

theorem nodup_path (k : K) : (t.path k).Nodup := by
  induction k using t.path_induction with
  | root k hk => simp [path_of_root hk]
  | child k p hp ih =>
    rw [path_of_parent hp, List.nodup_cons]
    refine ⟨fun hmem => ?_, ih⟩
    have hle := height_le_of_mem hmem
    have := t.height_of_parent hp
    omega

theorem pairwise_path (k : K) : (t.path k).Pairwise fun a b => t.height b ≤ t.height a := by
  induction k using t.path_induction with
  | root k hk => simp [path_of_root hk]
  | child k p hp ih =>
    rw [path_of_parent hp, List.pairwise_cons]
    refine ⟨fun a ha => ?_, ih⟩
    have := t.height_of_parent hp
    have := height_le_of_mem ha
    omega

theorem height_of_getElem? {i : Nat} (h : (t.path k)[i]? = some a) : t.height k = t.height a + i := by
  induction k using t.path_induction generalizing i with
  | root k hk =>
    rw [path_of_root hk] at h
    cases i with
    | zero =>
      obtain rfl : k = a := by simpa using h
      rfl
    | succ i => simp at h
  | child k p hp ih =>
    rw [path_of_parent hp] at h
    cases i with
    | zero =>
      obtain rfl : k = a := by simpa using h
      rfl
    | succ i =>
      have hkp := t.height_of_parent hp
      have := ih (by simpa using h)
      omega

theorem getElem?_succ_path (k : K) (i : Nat) : (t.path k)[i + 1]? = ((t.path k)[i]?).bind t.parent := by
  induction k using t.path_induction generalizing i with
  | root k hk =>
    rw [path_of_root hk]
    cases i with
    | zero => simp [hk]
    | succ i => simp
  | child k p hp ih =>
    rw [path_of_parent hp]
    cases i with
    | zero =>
      obtain ⟨rest, hrest⟩ := t.path_eq_cons p
      simp [hp, hrest]
    | succ i => simpa using ih i

theorem mem_take_path : a ∈ (t.path k).take (m + 1) ↔ a ∈ t.path k ∧ t.height k ≤ t.height a + m := by
  constructor
  · intro h
    obtain ⟨i, hi, ha⟩ := List.mem_take_iff_getElem.mp h
    have hget : (t.path k)[i]? = some a := by rw [← ha]; exact List.getElem?_eq_getElem _
    have := height_of_getElem? hget
    exact ⟨List.mem_of_mem_take h, by omega⟩
  · rintro ⟨ha, hle⟩
    obtain ⟨i, hi, hget⟩ := List.getElem_of_mem ha
    have hsome : (t.path k)[i]? = some a := by rw [← hget]; exact List.getElem?_eq_getElem hi
    have := height_of_getElem? hsome
    exact List.mem_take_iff_getElem.mpr ⟨i, by omega, hget⟩

/-- `c` is the highest common ancestor of `a` and `b`. -/
structure IsFork (t : ParentTree K) (a b c : K) : Prop where
  left : c ∈ t.path a
  right : c ∈ t.path b
  highest : ∀ d, d ∈ t.path a → d ∈ t.path b → d ∈ t.path c

theorem isFork_of_mem (h : a ∈ t.path b) : t.IsFork a b a :=
  ⟨mem_path_self a, h, fun _ hd _ => hd⟩

theorem IsFork.eq {d : K} (hc : t.IsFork a b c) (hd : t.IsFork a b d) : c = d :=
  eq_of_mem_of_height hc.left hd.left (Nat.le_antisymm (height_le_of_mem (hd.highest c hc.left hc.right))
    (height_le_of_mem (hc.highest d hd.left hd.right)))

variable [DecidableEq K]

/-- The path of `k` above `a`: from `k` down to, and without, `a`. -/
def above (t : ParentTree K) (a k : K) : List K := (t.path k).takeWhile (· ≠ a)

theorem above_self (k : K) : t.above k k = [] := by
  obtain ⟨rest, h⟩ := t.path_eq_cons k
  simp [above, h]

theorem above_of_parent (hp : t.parent k = some p) (hne : k ≠ a) : t.above a k = k :: t.above a p := by
  simp [above, path_of_parent hp, hne]

theorem above_append_path (h : a ∈ t.path k) : t.above a k ++ t.path a = t.path k := by
  induction k using t.path_induction with
  | root k hk =>
    rw [path_of_root hk, List.mem_singleton] at h
    rw [h, above_self, List.nil_append]
  | child k p hp ih =>
    by_cases hne : k = a
    · rw [hne, above_self, List.nil_append]
    · rw [path_of_parent hp, List.mem_cons] at h
      have hmem := h.resolve_left (Ne.symm hne)
      rw [above_of_parent hp hne, path_of_parent hp, List.cons_append, ih hmem]

theorem length_above (h : a ∈ t.path k) : (t.above a k).length + t.height a = t.height k := by
  have := congrArg List.length (above_append_path h)
  rw [List.length_append, length_path, length_path] at this
  omega

theorem IsFork.length_above_le_iff (h : t.IsFork a b c) :
    (t.above c a).length ≤ m ↔ ∃ d ∈ (t.path a).take (m + 1), d ∈ t.path b := by
  have hlen := length_above h.left
  constructor
  · intro hm
    exact ⟨c, mem_take_path.mpr ⟨h.left, by omega⟩, h.right⟩
  · rintro ⟨d, hd, hdb⟩
    obtain ⟨hda, hle⟩ := mem_take_path.mp hd
    have := height_le_of_mem (h.highest d hda hdb)
    omega

/-- The child of `k` on the path of `tip`. -/
def next (t : ParentTree K) (tip k : K) : Option K := (t.path tip).find? fun c => t.parent c = some k

theorem next_eq_some_iff : t.next tip k = some c ↔ c ∈ t.path tip ∧ t.parent c = some k := by
  constructor
  · intro h
    exact ⟨List.mem_of_find?_eq_some h, by simpa using List.find?_some h⟩
  · rintro ⟨hmem, hparent⟩
    cases hnext : t.next tip k with
    | none =>
      have hno := List.find?_eq_none.mp hnext c hmem
      simp [hparent] at hno
    | some d =>
      have hd : t.parent d = some k := by simpa using List.find?_some hnext
      have hheight : t.height d = t.height c := by
        rw [t.height_of_parent hd, t.height_of_parent hparent]
      rw [eq_of_mem_of_height (List.mem_of_find?_eq_some hnext) hmem hheight]

theorem next_congr (h : ∀ a ∈ t.path tip, t'.parent a = t.parent a) (k : K) : t'.next tip k = t.next tip k := by
  unfold next
  rw [path_congr h]
  refine List.find?_congr fun c hc => ?_
  rw [h c hc]

theorem next_eq_none_of_not_mem (h : k ∉ t.path tip) : t.next tip k = none := by
  rw [Option.eq_none_iff_forall_ne_some]
  intro c hc
  obtain ⟨hmem, hparent⟩ := next_eq_some_iff.mp hc
  refine h (mem_path_trans ?_ hmem)
  rw [path_of_parent hparent]
  exact List.mem_cons_of_mem c (t.mem_path_self k)

theorem next_self (tip : K) : t.next tip tip = none := by
  rw [Option.eq_none_iff_forall_ne_some]
  intro c hc
  obtain ⟨hmem, hparent⟩ := next_eq_some_iff.mp hc
  have hle := height_le_of_mem hmem
  have hup := t.height_of_parent hparent
  omega

theorem next_of_parent (h : t.parent tip = some p) (k : K) :
    t.next tip k = if k = p then some tip else t.next p k := by
  unfold next
  rw [path_of_parent h]
  by_cases hk : k = p
  · simp [h, hk]
  · have hne : ¬ some p = some k := fun heq => hk (Option.some.inj heq).symm
    simp [h, hk, hne]

theorem exists_next (h : k ∈ t.path tip) (hk : k ≠ tip) : ∃ c, t.next tip k = some c := by
  induction tip using t.path_induction with
  | root tip htip =>
    rw [path_of_root htip, List.mem_singleton] at h
    exact absurd h hk
  | child tip p hp ih =>
    rw [path_of_parent hp, List.mem_cons] at h
    rw [next_of_parent hp]
    by_cases hkp : k = p
    · exact ⟨tip, if_pos hkp⟩
    · rw [if_neg hkp]
      exact ih (h.resolve_left hk) hkp

end ParentTree
