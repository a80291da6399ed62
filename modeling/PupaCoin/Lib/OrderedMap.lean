import Mathlib.Data.List.Basic
import Mathlib.Data.List.Lex
import Mathlib.Data.List.Nodup
import Mathlib.Data.Set.Basic
import Mathlib.Order.Basic
import Mathlib.Order.Defs.LinearOrder

/-!
# Maps that are kept in the order of their keys

The map is the list of its entries, the one with the least key first. It is known by what it maps its keys to.
-/

instance instLinearOrderUInt8 : LinearOrder UInt8 where
  le_refl := UInt8.le_refl
  le_trans _ _ _ := UInt8.le_trans
  le_antisymm _ _ := UInt8.le_antisymm
  le_total := UInt8.le_total
  lt_iff_le_not_ge a b := by
    rw [UInt8.not_le]
    exact ⟨fun h => ⟨UInt8.le_of_lt h, h⟩, fun h => h.2⟩
  toDecidableLE := inferInstance
  toDecidableLT := inferInstance

instance lawfulBEq_of_linearOrder {α : Type} [LinearOrder α] : @LawfulBEq α instBEqOfDecidableEq := inferInstance

/-- The entries of a map by ascending keys. -/
structure OrderedMap (κ ν : Type) [LinearOrder κ] where
  entries : List (κ × ν)
  sorted : entries.Pairwise fun a b => a.1 < b.1

namespace OrderedMap

variable {κ ν : Type} [LinearOrder κ]

def empty : OrderedMap κ ν := ⟨[], List.Pairwise.nil⟩

def find? (m : OrderedMap κ ν) (k : κ) : Option ν := (m.entries.find? fun e => decide (e.1 = k)).map Prod.snd

def begin? (m : OrderedMap κ ν) : Option (κ × ν) := m.entries.head?

/-- The first entry whose key is not less than a key (`lower_bound`). -/
def lowerBound? (m : OrderedMap κ ν) (k : κ) : Option (κ × ν) := m.entries.find? fun e => decide (k ≤ e.1)

def size (m : OrderedMap κ ν) : Nat := m.entries.length

/-- An entry put in its place, instead of the one that has its key. -/
def insertEntry (k : κ) (v : ν) : List (κ × ν) → List (κ × ν)
  | [] => [(k, v)]
  | e :: l => if k < e.1 then (k, v) :: e :: l else if k = e.1 then (k, v) :: l else e :: insertEntry k v l

theorem mem_insertEntry {k : κ} {v : ν} {l : List (κ × ν)} (h : l.Pairwise fun a b => a.1 < b.1) {e : κ × ν} :
    e ∈ insertEntry k v l ↔ e = (k, v) ∨ (e ∈ l ∧ e.1 ≠ k) := by
  induction l with
  | nil =>
    rw [insertEntry, List.mem_singleton]
    exact ⟨Or.inl, fun he => he.resolve_right fun hmem => List.not_mem_nil hmem.1⟩
  | cons a l ih =>
    obtain ⟨hhead, htail⟩ := List.pairwise_cons.mp h
    rw [insertEntry]
    split_ifs with hlt heq
    · rw [List.mem_cons]
      refine or_congr_right ⟨fun hmem => ⟨hmem, ?_⟩, fun hmem => hmem.1⟩
      rcases List.mem_cons.mp hmem with rfl | hmem
      · exact hlt.ne'
      · exact (hlt.trans (hhead e hmem)).ne'
    · rw [List.mem_cons]
      refine or_congr_right ⟨fun hmem => ⟨List.mem_cons_of_mem a hmem, ?_⟩, fun hmem => ?_⟩
      · rw [heq]
        exact (hhead e hmem).ne'
      · rcases List.mem_cons.mp hmem.1 with rfl | hmem'
        · exact absurd heq.symm hmem.2
        · exact hmem'
    · rw [List.mem_cons, ih htail, List.mem_cons]
      constructor
      · rintro (rfl | he | ⟨hmem, hne⟩)
        · exact Or.inr ⟨Or.inl rfl, Ne.symm heq⟩
        · exact Or.inl he
        · exact Or.inr ⟨Or.inr hmem, hne⟩
      · rintro (he | ⟨rfl | hmem, hne⟩)
        · exact Or.inr (Or.inl he)
        · exact Or.inl rfl
        · exact Or.inr (Or.inr ⟨hmem, hne⟩)

theorem sorted_insertEntry (k : κ) (v : ν) {l : List (κ × ν)} (h : l.Pairwise fun a b => a.1 < b.1) :
    (insertEntry k v l).Pairwise fun a b => a.1 < b.1 := by
  induction l with
  | nil => exact List.pairwise_singleton _ _
  | cons a l ih =>
    obtain ⟨hhead, htail⟩ := List.pairwise_cons.mp h
    rw [insertEntry]
    split_ifs with hlt heq
    · refine List.pairwise_cons.mpr ⟨fun e he => ?_, h⟩
      rcases List.mem_cons.mp he with rfl | he
      · exact hlt
      · exact hlt.trans (hhead e he)
    · exact List.pairwise_cons.mpr ⟨fun e he => heq ▸ hhead e he, htail⟩
    · refine List.pairwise_cons.mpr ⟨fun e he => ?_, ih htail⟩
      rcases (mem_insertEntry htail).mp he with rfl | ⟨he, -⟩
      · exact lt_of_le_of_ne (not_lt.mp hlt) (Ne.symm heq)
      · exact hhead e he

def set (m : OrderedMap κ ν) (k : κ) (v : ν) : OrderedMap κ ν :=
  ⟨insertEntry k v m.entries, sorted_insertEntry k v m.sorted⟩

/-- `insert`, which keeps what is under the key. -/
def insert (m : OrderedMap κ ν) (e : κ × ν) : OrderedMap κ ν := if (m.find? e.1).isSome then m else m.set e.1 e.2

def erase (m : OrderedMap κ ν) (k : κ) : OrderedMap κ ν :=
  ⟨m.entries.filter fun e => decide (e.1 ≠ k), m.sorted.filter _⟩

section Entries

variable {m : OrderedMap κ ν} {k k' : κ} {v v' : ν}

theorem mem_set {e : κ × ν} : e ∈ (m.set k v).entries ↔ e = (k, v) ∨ (e ∈ m.entries ∧ e.1 ≠ k) :=
  mem_insertEntry m.sorted

theorem mem_erase {e : κ × ν} : e ∈ (m.erase k).entries ↔ e ∈ m.entries ∧ e.1 ≠ k := by
  rw [erase, List.mem_filter, decide_eq_true_iff]

theorem value_unique (h : (k, v) ∈ m.entries) (h' : (k, v') ∈ m.entries) : v = v' := by
  obtain ⟨l, hsorted⟩ := m
  show v = v'
  induction l with
  | nil => exact absurd h List.not_mem_nil
  | cons a l ih =>
    obtain ⟨hhead, htail⟩ := List.pairwise_cons.mp hsorted
    rcases List.mem_cons.mp h with rfl | hl
    · rcases List.mem_cons.mp h' with heq | hl'
      · exact (Prod.mk.inj heq).2.symm
      · exact absurd (hhead _ hl') (lt_irrefl k)
    · rcases List.mem_cons.mp h' with rfl | hl'
      · exact absurd (hhead _ hl) (lt_irrefl k)
      · exact ih htail hl hl'

theorem find?_eq_some_iff : m.find? k = some v ↔ (k, v) ∈ m.entries := by
  rw [find?, Option.map_eq_some_iff]
  constructor
  · rintro ⟨e, he, rfl⟩
    have hkey : e.1 = k := of_decide_eq_true (List.find?_some (p := fun e : κ × ν => decide (e.1 = k)) he)
    rw [← hkey]
    exact List.mem_of_find?_eq_some he
  · intro hmem
    cases hfind : m.entries.find? fun e => decide (e.1 = k) with
    | none => exact absurd (decide_eq_true rfl) (List.find?_eq_none.mp hfind (k, v) hmem)
    | some e =>
      have hkey : e.1 = k := of_decide_eq_true (List.find?_some (p := fun e : κ × ν => decide (e.1 = k)) hfind)
      have hmem' : (k, e.2) ∈ m.entries := hkey ▸ List.mem_of_find?_eq_some hfind
      exact ⟨e, rfl, value_unique hmem' hmem⟩

theorem find?_eq_none_iff : m.find? k = none ↔ ∀ v, (k, v) ∉ m.entries := by
  rw [Option.eq_none_iff_forall_ne_some]
  exact forall_congr' fun v => not_congr find?_eq_some_iff

theorem find?_empty (k : κ) : (empty : OrderedMap κ ν).find? k = none := rfl

theorem find?_set_self (m : OrderedMap κ ν) (k : κ) (v : ν) : (m.set k v).find? k = some v :=
  find?_eq_some_iff.mpr (mem_set.mpr (Or.inl rfl))

theorem find?_set_of_ne (m : OrderedMap κ ν) (v : ν) (h : k' ≠ k) : (m.set k v).find? k' = m.find? k' := by
  refine Option.ext fun v' => ?_
  rw [find?_eq_some_iff, find?_eq_some_iff, mem_set]
  constructor
  · rintro (heq | ⟨hmem, -⟩)
    · exact absurd (Prod.mk.inj heq).1 h
    · exact hmem
  · exact fun hmem => Or.inr ⟨hmem, h⟩

theorem find?_set (m : OrderedMap κ ν) (k : κ) (v : ν) (k' : κ) [Decidable (k' = k)] :
    (m.set k v).find? k' = if k' = k then some v else m.find? k' := by
  split_ifs with hk
  · rw [hk, find?_set_self]
  · exact find?_set_of_ne m v hk

theorem find?_set_cases {v'' : ν} (h : (m.set k v).find? k' = some v'') :
    k' = k ∧ v'' = v ∨ k' ≠ k ∧ m.find? k' = some v'' := by
  by_cases hk : k' = k
  · rw [hk, find?_set_self] at h
    exact Or.inl ⟨hk, (Option.some.inj h).symm⟩
  · rw [find?_set_of_ne _ _ hk] at h
    exact Or.inr ⟨hk, h⟩

theorem find?_set_eq_none (h : (m.set k v).find? k' = none) : k' ≠ k ∧ m.find? k' = none := by
  have hk : k' ≠ k := fun hk => by
    rw [hk, find?_set_self] at h
    cases h
  rw [find?_set_of_ne _ _ hk] at h
  exact ⟨hk, h⟩

theorem isSome_find?_set (k : κ) (v : ν) (h : (m.find? k').isSome = true) : ((m.set k v).find? k').isSome = true := by
  by_cases hk : k' = k
  · rw [hk, find?_set_self]
    rfl
  · rw [find?_set_of_ne _ _ hk]
    exact h

theorem find?_erase_self (m : OrderedMap κ ν) (k : κ) : (m.erase k).find? k = none :=
  find?_eq_none_iff.mpr fun _ hmem => (mem_erase.mp hmem).2 rfl

theorem find?_erase_of_ne (m : OrderedMap κ ν) (h : k' ≠ k) : (m.erase k).find? k' = m.find? k' := by
  refine Option.ext fun v' => ?_
  rw [find?_eq_some_iff, find?_eq_some_iff, mem_erase]
  exact ⟨fun hmem => hmem.1, fun hmem => ⟨hmem, h⟩⟩

theorem find?_erase (m : OrderedMap κ ν) (k k' : κ) [Decidable (k' = k)] :
    (m.erase k).find? k' = if k' = k then none else m.find? k' := by
  split_ifs with hk
  · rw [hk, find?_erase_self]
  · exact find?_erase_of_ne m hk

theorem keys_nodup (m : OrderedMap κ ν) : (m.entries.map Prod.fst).Nodup :=
  List.Pairwise.map Prod.fst (fun _ _ hlt => ne_of_lt hlt) m.sorted

theorem ext_find? {m m' : OrderedMap κ ν} (h : ∀ k, m.find? k = m'.find? k) : m = m' := by
  have hmem : ∀ e, e ∈ m.entries ↔ e ∈ m'.entries := fun e => by
    rw [← find?_eq_some_iff (k := e.1), ← find?_eq_some_iff (k := e.1), h]
  have hperm : m.entries.Perm m'.entries :=
    (List.perm_ext_iff_of_nodup (List.Nodup.of_map _ m.keys_nodup) (List.Nodup.of_map _ m'.keys_nodup)).mpr hmem
  have hentries : m.entries = m'.entries :=
    hperm.eq_of_pairwise (fun _ _ _ _ hlt hgt => absurd hgt hlt.not_gt) m.sorted m'.sorted
  obtain ⟨entries, hsorted⟩ := m
  obtain ⟨entries', hsorted'⟩ := m'
  have heq : entries = entries' := hentries
  subst heq
  rfl

theorem find?_insert (m : OrderedMap κ ν) (e : κ × ν) (k : κ) :
    (m.insert e).find? k = (m.find? k).or (if e.1 = k then some e.2 else none) := by
  rw [insert]
  split_ifs with hsome hk hk
  · rw [← hk, Option.or_of_isSome hsome]
  · rw [Option.or_none]
  · have hnone : m.find? e.1 = none := Option.not_isSome_iff_eq_none.mp hsome
    rw [← hk, find?_set_self, hnone, Option.none_or]
  · rw [find?_set_of_ne _ _ (Ne.symm hk), Option.or_none]

/-- Of the items that are inserted, the first one of a key is found. By induction on the items. -/
theorem find?_foldl_insert (items : List (κ × ν)) (m : OrderedMap κ ν) (k : κ) : (items.foldl insert m).find? k
      = (m.find? k).or ((items.find? fun e => decide (e.1 = k)).map Prod.snd) := by
  induction items generalizing m with
  | nil => exact (Option.or_none).symm
  | cons e items ih =>
    rw [List.foldl_cons, ih, find?_insert, Option.or_assoc, List.find?_cons]
    congr 1
    by_cases hk : e.1 = k
    · rw [if_pos hk, decide_eq_true hk]
      rfl
    · rw [if_neg hk, decide_eq_false hk, Option.none_or]

theorem foldl_insert_entries (m : OrderedMap κ ν) : m.entries.foldl insert empty = m :=
  ext_find? fun k => (find?_foldl_insert m.entries empty k).trans (Option.none_or)

theorem length_set_le (m : OrderedMap κ ν) (k : κ) (v : ν) : (m.set k v).entries.length ≤ m.entries.length + 1 := by
  show (insertEntry k v m.entries).length ≤ m.entries.length + 1
  induction m.entries with
  | nil => exact Nat.le_refl 1
  | cons e l ih =>
    rw [insertEntry]
    split_ifs
    · exact Nat.le_refl _
    · exact Nat.le_succ _
    · exact Nat.succ_le_succ ih

theorem set_perm_of_none (h : m.find? k = none) : (m.set k v).entries.Perm ((k, v) :: m.entries) := by
  have hnew : ∀ e ∈ m.entries, e.1 ≠ k := fun e he hkey =>
    find?_eq_none_iff.mp h e.2 (hkey ▸ he)
  suffices hinsert : ∀ l : List (κ × ν), (∀ e ∈ l, e.1 ≠ k) → (insertEntry k v l).Perm ((k, v) :: l) from
    hinsert m.entries hnew
  intro l hl
  induction l with
  | nil => exact List.Perm.refl _
  | cons e l ih =>
    rw [insertEntry]
    split_ifs with hlt heq
    · exact List.Perm.refl _
    · exact absurd heq.symm (hl e List.mem_cons_self)
    · exact ((ih fun e' he' => hl e' (List.mem_cons_of_mem e he')).cons e).trans (List.Perm.swap (k, v) e l)

theorem erase_perm_of_some (h : m.find? k = some v) : m.entries.Perm ((k, v) :: (m.erase k).entries) := by
  refine (List.perm_ext_iff_of_nodup (List.Nodup.of_map _ m.keys_nodup) ?_).mpr fun e => ?_
  · refine List.nodup_cons.mpr ⟨fun hmem => (mem_erase.mp hmem).2 rfl, List.Nodup.of_map _ (m.erase k).keys_nodup⟩
  · rw [List.mem_cons, mem_erase]
    constructor
    · intro he
      by_cases hk : e.1 = k
      · exact Or.inl (Prod.ext hk (value_unique (hk ▸ he) (find?_eq_some_iff.mp h)))
      · exact Or.inr ⟨he, hk⟩
    · rintro (rfl | ⟨he, -⟩)
      · exact find?_eq_some_iff.mp h
      · exact he

/-- A key that is there keeps its place, so that nothing changes for a function that does not tell its two values
apart. -/
theorem map_set_of_some {α : Type} {f : κ × ν → α} (h : m.find? k = some v') (hf : f (k, v) = f (k, v')) :
    (m.set k v).entries.map f = m.entries.map f := by
  have hmem : (k, v') ∈ m.entries := find?_eq_some_iff.mp h
  suffices hinsert : ∀ l : List (κ × ν), (l.Pairwise fun a b => a.1 < b.1) → (k, v') ∈ l →
      (insertEntry k v l).map f = l.map f from hinsert m.entries m.sorted hmem
  intro l hl hmem
  induction l with
  | nil => exact absurd hmem List.not_mem_nil
  | cons e l ih =>
    obtain ⟨hhead, htail⟩ := List.pairwise_cons.mp hl
    rw [insertEntry]
    rcases List.mem_cons.mp hmem with rfl | hmem
    · rw [if_neg (lt_irrefl k), if_pos rfl, List.map_cons, List.map_cons, hf]
    · have hlt : e.1 < k := hhead _ hmem
      rw [if_neg hlt.not_gt, if_neg hlt.ne', List.map_cons, List.map_cons, ih htail hmem]

theorem begin?_mem {e : κ × ν} (h : m.begin? = some e) : e ∈ m.entries := List.mem_of_head? h

theorem lowerBound?_mem {e : κ × ν} (h : m.lowerBound? k = some e) : e ∈ m.entries := List.mem_of_find?_eq_some h

theorem size_erase_lt {e : κ × ν} (h : e ∈ m.entries) : (m.erase e.1).size < m.size := by
  refine List.length_filter_lt_length_iff_exists.mpr ⟨e, h, ?_⟩
  rw [decide_eq_true_iff, not_not]

theorem begin?_le {e e' : κ × ν} (h : m.begin? = some e) (h' : e' ∈ m.entries) : e.1 ≤ e'.1 := by
  have hsorted := m.sorted
  cases hentries : m.entries with
  | nil =>
    rw [hentries] at h'
    exact absurd h' List.not_mem_nil
  | cons a l =>
    rw [begin?, hentries] at h
    rw [hentries] at hsorted h'
    rw [← Option.some.inj h]
    rcases List.mem_cons.mp h' with rfl | h'
    · exact le_rfl
    · exact ((List.pairwise_cons.mp hsorted).1 e' h').le

theorem set_ne_nil (m : OrderedMap κ ν) (k : κ) (v : ν) : (m.set k v).entries ≠ [] :=
  List.ne_nil_of_mem (mem_set.mpr (Or.inl rfl))

theorem begin?_set_of_lt {e : κ × ν} (h : m.begin? = some e) (hlt : e.1 < k) : (m.set k v).begin? = some e := by
  cases hentries : m.entries with
  | nil =>
    rw [begin?, hentries] at h
    exact nomatch h
  | cons a l =>
    rw [begin?, hentries] at h
    have ha : a = e := Option.some.inj h
    show (insertEntry k v m.entries).head? = some e
    rw [hentries, insertEntry, ha, if_neg (not_lt.mpr hlt.le), if_neg hlt.ne']
    rfl

theorem begin?_set (m : OrderedMap κ ν) (k : κ) (v : ν) :
    (m.set k v).begin? = some (k, v) ∨ ∃ e, m.begin? = some e ∧ e.1 < k ∧ (m.set k v).begin? = some e := by
  cases hentries : m.entries with
  | nil =>
    left
    show (insertEntry k v m.entries).head? = some (k, v)
    rw [hentries]
    rfl
  | cons a l =>
    have hbegin : m.begin? = some a := by rw [begin?, hentries]; rfl
    by_cases hlt : a.1 < k
    · exact Or.inr ⟨a, hbegin, hlt, begin?_set_of_lt hbegin hlt⟩
    · left
      show (insertEntry k v m.entries).head? = some (k, v)
      rw [hentries, insertEntry]
      split_ifs with hlt' heq
      · rfl
      · rfl
      · exact absurd (lt_of_le_of_ne (not_lt.mp hlt') (Ne.symm heq)) hlt

theorem begin?_eq_none_iff : m.begin? = none ↔ m.entries = [] := List.head?_eq_none_iff

end Entries

section Scan

variable {l : List (κ × ν)} {k : κ} {q : κ × ν → Bool} {α : Type} [LinearOrder α]

theorem takeWhile_dropWhile_eq_filter [∀ e : κ × ν, Decidable (e.1 < k)] (hsorted : l.Pairwise fun a b => a.1 < b.1)
    (hbefore : ∀ e ∈ l, e.1 < k → q e = false)
    (hafter : ∀ e ∈ l, ∀ e' ∈ l, ¬ e.1 < k → q e = false → e.1 < e'.1 → q e' = false) :
    (l.dropWhile fun e => decide (e.1 < k)).takeWhile q = l.filter q := by
  induction l with
  | nil => rfl
  | cons a l ih =>
    obtain ⟨hhead, htail⟩ := List.pairwise_cons.mp hsorted
    have hrest := ih htail (fun e he => hbefore e (List.mem_cons_of_mem a he))
      (fun e he e' he' => hafter e (List.mem_cons_of_mem a he) e' (List.mem_cons_of_mem a he'))
    by_cases hlt : a.1 < k
    · rw [List.dropWhile_cons_of_pos (p := fun e : κ × ν => decide (e.1 < k)) (decide_eq_true hlt), hrest,
        List.filter_cons_of_neg (Bool.eq_false_iff.mp (hbefore a List.mem_cons_self hlt))]
    · rw [List.dropWhile_cons_of_neg (p := fun e : κ × ν => decide (e.1 < k)) fun h => hlt (of_decide_eq_true h)]
      have hstart : (l.dropWhile fun e => decide (e.1 < k)) = l := by
        cases l with
        | nil => rfl
        | cons b l =>
          refine List.dropWhile_cons_of_neg fun h => hlt ?_
          exact (hhead b List.mem_cons_self).trans (of_decide_eq_true h)
      rw [hstart] at hrest
      by_cases hq : q a = true
      · rw [List.takeWhile_cons_of_pos hq, List.filter_cons_of_pos hq, hrest]
      · rw [List.takeWhile_cons_of_neg hq, List.filter_cons_of_neg hq]
        refine (List.filter_eq_nil_iff.mpr fun e he => Bool.eq_false_iff.mp ?_).symm
        exact hafter a List.mem_cons_self e (List.mem_cons_of_mem a he) hlt (Bool.eq_false_iff.mpr hq) (hhead e he)

theorem isPrefix_of_between {pre l l' : List α} (hle : ¬ l < pre) (hlt : l < l') (h : pre <+: l') : pre <+: l := by
  induction pre generalizing l l' with
  | nil => exact List.nil_prefix
  | cons a pre ih =>
    obtain ⟨rest, rfl⟩ := h
    cases l with
    | nil => exact absurd (List.nil_lt_cons a pre) hle
    | cons b l =>
      rw [List.cons_append, List.cons_lt_cons_iff] at hlt
      rw [List.cons_lt_cons_iff, not_or, not_and] at hle
      rcases hlt with hlt | ⟨rfl, hlt⟩
      · exact absurd hlt hle.1
      · exact (List.prefix_cons_inj b).mpr (ih (hle.2 rfl) hlt (List.prefix_append pre rest))

end Scan

/-- Every key is mapped to a value that has the property there. -/
def All (P : κ → ν → Prop) (m : OrderedMap κ ν) : Prop := ∀ k v, m.find? k = some v → P k v

section All

variable {P P' : κ → ν → Prop} {m m' : OrderedMap κ ν} {k : κ} {o : Option ν}

theorem all_empty (P : κ → ν → Prop) : (empty : OrderedMap κ ν).All P := fun _ _ h => nomatch h

theorem All.mono (h : m.All P) (hP : ∀ k v, P k v → P' k v) : m.All P' := fun k v hv => hP k v (h k v hv)

theorem All.update (h : m.All P) (hm' : ∀ k', m'.find? k' = if k' = k then o else m.find? k')
    (hother : ∀ k' v, k' ≠ k → P k' v → P' k' v) (hhere : ∀ v, o = some v → P' k v) : m'.All P' := by
  intro k' v hv
  rw [hm'] at hv
  split_ifs at hv with hk
  · rw [hk]
    exact hhere v hv
  · exact hother k' v hk (h k' v hv)

end All

end OrderedMap

/-!
## Multimaps that are kept in the order of their keys

An entry is inserted behind the entries whose key is the same or smaller. Which entries there are does not depend
on the order in which they came.
-/

/-- The entries of a multimap by ascending keys. -/
structure OrderedMultimap (κ ν : Type) [LinearOrder κ] where
  entries : List (κ × ν)
  sorted : entries.Pairwise fun a b => a.1 ≤ b.1

namespace OrderedMultimap

variable {κ ν : Type} [LinearOrder κ]

def empty : OrderedMultimap κ ν := ⟨[], List.Pairwise.nil⟩

/-- An entry put behind those whose key is not larger. -/
def insertEntry (k : κ) (v : ν) : List (κ × ν) → List (κ × ν)
  | [] => [(k, v)]
  | e :: l => if k < e.1 then (k, v) :: e :: l else e :: insertEntry k v l

theorem insertEntry_perm (k : κ) (v : ν) (l : List (κ × ν)) : (insertEntry k v l).Perm ((k, v) :: l) := by
  induction l with
  | nil => exact List.Perm.refl _
  | cons e l ih =>
    rw [insertEntry]
    split_ifs with hlt
    · exact List.Perm.refl _
    · exact (ih.cons e).trans (List.Perm.swap (k, v) e l)

theorem sorted_insertEntry (k : κ) (v : ν) {l : List (κ × ν)} (h : l.Pairwise fun a b => a.1 ≤ b.1) :
    (insertEntry k v l).Pairwise fun a b => a.1 ≤ b.1 := by
  induction l with
  | nil => exact List.pairwise_singleton _ _
  | cons a l ih =>
    obtain ⟨hhead, htail⟩ := List.pairwise_cons.mp h
    rw [insertEntry]
    split_ifs with hlt
    · refine List.pairwise_cons.mpr ⟨fun e he => ?_, h⟩
      rcases List.mem_cons.mp he with rfl | he
      · exact hlt.le
      · exact hlt.le.trans (hhead e he)
    · refine List.pairwise_cons.mpr ⟨fun e he => ?_, ih htail⟩
      rcases List.mem_cons.mp ((insertEntry_perm k v l).mem_iff.mp he) with rfl | he
      · exact not_lt.mp hlt
      · exact hhead e he

def insert (m : OrderedMultimap κ ν) (k : κ) (v : ν) : OrderedMultimap κ ν :=
  ⟨insertEntry k v m.entries, sorted_insertEntry k v m.sorted⟩

def equalRange (m : OrderedMultimap κ ν) (k : κ) : List ν :=
  (m.entries.filter fun e => decide (e.1 = k)).map Prod.snd

def mapValues (m : OrderedMultimap κ ν) (f : ν → ν) : OrderedMultimap κ ν :=
  ⟨m.entries.map fun e => (e.1, f e.2), List.pairwise_map.mpr m.sorted⟩

theorem insert_perm (m : OrderedMultimap κ ν) (k : κ) (v : ν) : (m.insert k v).entries.Perm ((k, v) :: m.entries) :=
  insertEntry_perm k v m.entries

theorem foldl_insert_perm {α : Type} (k : α → κ) (v : α → ν) (l : List α) (m : OrderedMultimap κ ν) :
    (l.foldl (fun m a => m.insert (k a) (v a)) m).entries.Perm (m.entries ++ l.map fun a => (k a, v a)) := by
  induction l generalizing m with
  | nil =>
    rw [List.map_nil, List.append_nil]
    exact List.Perm.refl _
  | cons a l ih =>
    rw [List.foldl_cons, List.map_cons]
    refine (ih (m.insert (k a) (v a))).trans (((m.insert_perm (k a) (v a)).append_right _).trans ?_)
    exact List.perm_middle.symm

theorem mem_equalRange {m : OrderedMultimap κ ν} {k : κ} {v : ν} : v ∈ m.equalRange k ↔ (k, v) ∈ m.entries := by
  rw [equalRange, List.mem_map]
  constructor
  · rintro ⟨⟨k', v'⟩, he, rfl⟩
    obtain ⟨hmem, hkey⟩ := List.mem_filter.mp he
    rw [← of_decide_eq_true hkey]
    exact hmem
  · exact fun hmem => ⟨(k, v), List.mem_filter.mpr ⟨hmem, decide_eq_true rfl⟩, rfl⟩

end OrderedMultimap

/-!
## Sets that are kept in order

A set is a map to nothing. Sets are ordered as the lists of their elements are.
-/

/-- The elements of a set by ascending order. -/
abbrev OrderedSet (α : Type) [LinearOrder α] := OrderedMap α Unit

namespace OrderedSet

variable {α : Type} [LinearOrder α]

def elems (s : OrderedSet α) : List α := s.entries.map Prod.fst

instance : Membership α (OrderedSet α) := ⟨fun s a => a ∈ s.elems⟩

instance (s : OrderedSet α) (a : α) : Decidable (a ∈ s) := inferInstanceAs (Decidable (a ∈ s.elems))

/-- `insert` of an element. -/
def add (s : OrderedSet α) (a : α) : OrderedSet α := s.set a ()

/-- `insert` of all elements of another set. -/
def addAll (s t : OrderedSet α) : OrderedSet α := t.elems.foldl add s

/-- `erase`. -/
def remove (s : OrderedSet α) (a : α) : OrderedSet α := s.erase a

section Elements

variable {s t : OrderedSet α} {a b : α}

theorem mem_elems : a ∈ s.elems ↔ a ∈ s := Iff.rfl

theorem mem_iff_entries : a ∈ s ↔ (a, ()) ∈ s.entries := by
  rw [← mem_elems, elems, List.mem_map]
  constructor
  · rintro ⟨⟨b, _⟩, hb, rfl⟩
    exact hb
  · exact fun ha => ⟨(a, ()), ha, rfl⟩

theorem not_mem_empty (a : α) : a ∉ (OrderedMap.empty : OrderedSet α) := List.not_mem_nil

theorem mem_add : b ∈ s.add a ↔ b = a ∨ b ∈ s := by
  rw [mem_iff_entries, mem_iff_entries, add, OrderedMap.mem_set, Prod.mk.injEq]
  constructor
  · rintro (⟨rfl, -⟩ | ⟨hb, -⟩)
    · exact Or.inl rfl
    · exact Or.inr hb
  · intro hb
    by_cases heq : b = a
    · exact Or.inl ⟨heq, rfl⟩
    · exact Or.inr ⟨hb.resolve_left heq, heq⟩

theorem mem_foldl_add {l : List α} : b ∈ l.foldl add s ↔ b ∈ s ∨ b ∈ l := by
  induction l generalizing s with
  | nil => exact (or_iff_left List.not_mem_nil).symm
  | cons a l ih =>
    rw [List.foldl_cons, ih, mem_add, List.mem_cons, or_comm (a := b = a), or_assoc]

theorem mem_addAll : b ∈ s.addAll t ↔ b ∈ s ∨ b ∈ t := mem_foldl_add

theorem mem_remove : b ∈ s.remove a ↔ b ∈ s ∧ b ≠ a := by
  rw [mem_iff_entries, mem_iff_entries, remove, OrderedMap.mem_erase]

theorem nodup_elems (s : OrderedSet α) : s.elems.Nodup := s.keys_nodup

theorem ext_mem (h : ∀ a, a ∈ s ↔ a ∈ t) : s = t := by
  refine OrderedMap.ext_find? fun a => Option.ext fun u => ?_
  rw [OrderedMap.find?_eq_some_iff, OrderedMap.find?_eq_some_iff]
  exact mem_iff_entries.symm.trans ((h a).trans mem_iff_entries)

theorem size_pos_iff : 0 < s.size ↔ ∃ a, a ∈ s := by
  rw [OrderedMap.size, List.length_pos_iff_exists_mem]
  constructor
  · rintro ⟨⟨a, u⟩, ha⟩
    exact ⟨a, mem_iff_entries.mpr ha⟩
  · rintro ⟨a, ha⟩
    exact ⟨(a, ()), mem_iff_entries.mp ha⟩

end Elements

theorem elems_injective : Function.Injective (elems : OrderedSet α → List α) := fun s t h =>
  ext_mem fun a => by rw [← mem_elems, h, mem_elems]

/-- Sets are compared element by element. -/
instance : LinearOrder (OrderedSet α) := LinearOrder.lift' elems elems_injective

def toSet (s : OrderedSet α) : Set α := {a | a ∈ s}

theorem mem_toSet {s : OrderedSet α} {a : α} : a ∈ s.toSet ↔ a ∈ s := Iff.rfl

theorem toSet_injective : Function.Injective (toSet : OrderedSet α → Set α) := fun s t h =>
  ext_mem fun a => by rw [← mem_toSet, h, mem_toSet]

end OrderedSet
