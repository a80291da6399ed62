import Mathlib.Data.List.Nodup
import Mathlib.Logic.Function.Basic

/-!
# Lists of several owners and an index into them

Every owner has a list of entries; an entry is reached through a handle that stays valid while other
entries come and go. An index sends a key to the owner and the handle of the entry with that key.
-/

namespace Registry

variable {O H E K : Type}

variable {k : K} {o : O} {h : H}

/-- The index leads to exactly the entries of the lists, and a handle to one entry of its list. -/
structure Agrees (key : E → K) (lists : O → List (H × E)) (index : K → Option (O × H)) : Prop where
  index_iff : ∀ k o h, index k = some (o, h) ↔ ∃ e, (h, e) ∈ lists o ∧ key e = k
  handles : ∀ o, ((lists o).map Prod.fst).Nodup

section Handles

variable {xs : List (H × E)} {h : H} {e f : E}

theorem entry_unique (hnd : (xs.map Prod.fst).Nodup) (he : (h, e) ∈ xs) (hf : (h, f) ∈ xs) : e = f := by
  have := List.inj_on_of_nodup_map hnd he hf rfl
  exact (Prod.mk.inj this).2

variable [DecidableEq H]

theorem mem_eraseP (hnd : (xs.map Prod.fst).Nodup) (x : H × E) :
    x ∈ xs.eraseP (fun y => decide (y.1 = h)) ↔ x ∈ xs ∧ x.1 ≠ h := by
  induction xs with
  | nil => simp
  | cons y ys ih =>
    rw [List.map_cons, List.nodup_cons] at hnd
    by_cases hy : y.1 = h
    · rw [List.eraseP_cons_of_pos (by simpa using hy), List.mem_cons]
      constructor
      · intro hx
        refine ⟨Or.inr hx, fun hxh => hnd.1 ?_⟩
        rw [hy, ← hxh]
        exact List.mem_map_of_mem hx
      · rintro ⟨rfl | hx, hne⟩
        · exact absurd hy hne
        · exact hx
    · rw [List.eraseP_cons_of_neg (by simpa using hy), List.mem_cons, List.mem_cons, ih hnd.2]
      constructor
      · rintro (rfl | ⟨hx, hne⟩)
        · exact ⟨Or.inl rfl, hy⟩
        · exact ⟨Or.inr hx, hne⟩
      · rintro ⟨rfl | hx, hne⟩
        · exact Or.inl rfl
        · exact Or.inr ⟨hx, hne⟩

theorem nodup_eraseP (hnd : (xs.map Prod.fst).Nodup) : ((xs.eraseP fun y => decide (y.1 = h)).map Prod.fst).Nodup :=
  hnd.sublist (List.eraseP_sublist.map Prod.fst)

theorem length_eraseP (hmem : (h, e) ∈ xs) : (xs.eraseP fun y => decide (y.1 = h)).length + 1 = xs.length := by
  have hlen := List.length_eraseP_of_mem (p := fun y => decide (y.1 = h)) hmem (by simp)
  have := List.length_pos_of_mem hmem
  omega

end Handles

namespace Agrees

variable {key : E → K} {lists : O → List (H × E)} {index : K → Option (O × H)}

theorem empty (key : E → K) : Agrees key (fun _ : O => ([] : List (H × E))) fun _ => none where
  index_iff := by simp
  handles := by simp

theorem entry (ha : Agrees key lists index) (hk : index k = some (o, h)) :
    ∃ e, (h, e) ∈ lists o ∧ key e = k := (ha.index_iff k o h).mp hk

theorem keys (ha : Agrees key lists index) (o : O) : ((lists o).map fun x => key x.2).Nodup := by
  rw [List.nodup_map_iff_inj_on (List.Nodup.of_map _ (ha.handles o))]
  intro x hx y hy hkey
  have hxi := (ha.index_iff (key x.2) o x.1).mpr ⟨x.2, hx, rfl⟩
  have hyi := (ha.index_iff (key x.2) o y.1).mpr ⟨y.2, hy, hkey.symm⟩
  have hhandle : x.1 = y.1 := by
    rw [hxi] at hyi
    exact (Prod.mk.inj (Option.some.inj hyi)).2
  exact List.inj_on_of_nodup_map (ha.handles o) hx hy hhandle

variable [DecidableEq O] [DecidableEq K]

theorem append (ha : Agrees key lists index) {e : E} (hkey : index (key e) = none)
    (hfresh : ∀ x ∈ lists o, x.1 ≠ h) : Agrees key (Function.update lists o (lists o ++ [(h, e)]))
      (Function.update index (key e) (some (o, h))) where
  index_iff := by
    intro k o' h'
    by_cases hk : k = key e
    · subst hk
      rw [Function.update_self, Option.some.injEq, Prod.mk.injEq]
      constructor
      · rintro ⟨rfl, rfl⟩
        exact ⟨e, by simp, rfl⟩
      · rintro ⟨f, hf, hfk⟩
        have hold : (h', f) ∉ lists o' := by
          intro hmem
          rw [(ha.index_iff (key e) o' h').mpr ⟨f, hmem, hfk⟩] at hkey
          cases hkey
        by_cases ho : o' = o
        · subst ho
          simp only [Function.update_self, List.mem_append, List.mem_singleton, Prod.mk.injEq] at hf
          exact ⟨rfl, (hf.resolve_left hold).1.symm⟩
        · rw [Function.update_of_ne ho] at hf
          exact absurd hf hold
    · rw [Function.update_of_ne hk, ha.index_iff k o' h']
      by_cases ho : o' = o
      · subst ho
        simp only [Function.update_self, List.mem_append, List.mem_singleton, Prod.mk.injEq]
        constructor
        · rintro ⟨f, hf, hfk⟩
          exact ⟨f, Or.inl hf, hfk⟩
        · rintro ⟨f, hf | ⟨-, rfl⟩, hfk⟩
          · exact ⟨f, hf, hfk⟩
          · exact absurd hfk.symm hk
      · rw [Function.update_of_ne ho]
  handles := by
    intro o'
    by_cases ho : o' = o
    · subst ho
      rw [Function.update_self, List.map_append, List.nodup_append]
      refine ⟨ha.handles o', by simp, fun a hamem b hb hab => ?_⟩
      obtain ⟨x, hx, rfl⟩ := List.mem_map.mp hamem
      rw [List.map_singleton, List.mem_singleton] at hb
      exact hfresh x hx (hab.trans hb)
    · rw [Function.update_of_ne ho]
      exact ha.handles o'

theorem erase [DecidableEq H] (ha : Agrees key lists index) (hk : index k = some (o, h)) :
    Agrees key (Function.update lists o ((lists o).eraseP fun y => decide (y.1 = h)))
      (Function.update index k none) where
  index_iff := by
    obtain ⟨e, he, hek⟩ := ha.entry hk
    intro k' o' h'
    by_cases ho : o' = o
    · subst ho
      simp only [Function.update_self, mem_eraseP (ha.handles o')]
      by_cases hk' : k' = k
      · subst hk'
        rw [Function.update_self]
        refine ⟨fun hnone => (by cases hnone), ?_⟩
        rintro ⟨f, ⟨hf, hne⟩, hfk⟩
        have hindex := (ha.index_iff k' o' h').mpr ⟨f, hf, hfk⟩
        rw [hk] at hindex
        exact absurd (Prod.mk.inj (Option.some.inj hindex)).2.symm hne
      · rw [Function.update_of_ne hk', ha.index_iff k' o' h']
        constructor
        · rintro ⟨f, hf, hfk⟩
          refine ⟨f, ⟨hf, ?_⟩, hfk⟩
          rintro rfl
          rw [entry_unique (ha.handles o') hf he] at hfk
          exact hk' (hfk.symm.trans hek)
        · rintro ⟨f, ⟨hf, -⟩, hfk⟩
          exact ⟨f, hf, hfk⟩
    · rw [Function.update_of_ne ho]
      by_cases hk' : k' = k
      · subst hk'
        rw [Function.update_self]
        refine ⟨fun hnone => (by cases hnone), ?_⟩
        rintro ⟨f, hf, hfk⟩
        have hindex := (ha.index_iff k' o' h').mpr ⟨f, hf, hfk⟩
        rw [hk] at hindex
        exact absurd (Prod.mk.inj (Option.some.inj hindex)).1.symm ho
      · rw [Function.update_of_ne hk', ha.index_iff k' o' h']
  handles := by
    intro o'
    by_cases ho : o' = o
    · subst ho
      rw [Function.update_self]
      exact nodup_eraseP (ha.handles o')
    · rw [Function.update_of_ne ho]
      exact ha.handles o'

def forget (index : K → Option (O × H)) (ks : List K) : K → Option (O × H) :=
  ks.foldl (fun index k => Function.update index k none) index

omit [DecidableEq O] in
theorem forget_apply (index : K → Option (O × H)) (ks : List K) (k : K) :
    forget index ks k = if k ∈ ks then none else index k := by
  unfold forget
  induction ks generalizing index with
  | nil => simp
  | cons a ks ih =>
    rw [List.foldl_cons, ih]
    by_cases hk : k ∈ ks
    · simp [hk]
    · by_cases hka : k = a
      · simp [hka]
      · simp [hk, hka]

theorem drop (ha : Agrees key lists index) (o : O) :
    Agrees key (Function.update lists o []) (forget index ((lists o).map fun x => key x.2)) where
  index_iff := by
    intro k o' h'
    rw [forget_apply]
    by_cases hk : k ∈ (lists o).map fun x => key x.2
    · rw [if_pos hk]
      refine ⟨fun hnone => (by cases hnone), ?_⟩
      rintro ⟨f, hf, hfk⟩
      by_cases ho : o' = o
      · subst ho
        simp at hf
      · rw [Function.update_of_ne ho] at hf
        obtain ⟨x, hx, hxk⟩ := List.mem_map.mp hk
        have hindex := (ha.index_iff k o' h').mpr ⟨f, hf, hfk⟩
        have hindexX := (ha.index_iff k o x.1).mpr ⟨x.2, hx, hxk⟩
        rw [hindex] at hindexX
        exact absurd (Prod.mk.inj (Option.some.inj hindexX)).1 ho
    · rw [if_neg hk, ha.index_iff k o' h']
      by_cases ho : o' = o
      · subst ho
        simp only [Function.update_self, List.not_mem_nil, false_and, exists_false, iff_false]
        rintro ⟨f, hf, hfk⟩
        exact hk (List.mem_map.mpr ⟨(h', f), hf, hfk⟩)
      · rw [Function.update_of_ne ho]
  handles := by
    intro o'
    by_cases ho : o' = o
    · subst ho
      simp
    · rw [Function.update_of_ne ho]
      exact ha.handles o'

end Agrees

end Registry
