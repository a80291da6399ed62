import Mathlib.Data.List.Sort
import Mathlib.Data.List.Perm.Basic
import Mathlib.Data.List.NodupEquivFin
import Mathlib.Order.Defs.LinearOrder

/-!
# Places in a list of scored entries

Entries are sorted by descending score, and an entry has the place at which it is found. A sort may arrange
entries of equal score as it likes: the places are determined by the set of entries exactly when no two of
them have the same score.
-/

namespace Ranking

variable {κ β : Type} [LinearOrder κ] {xs ys zs : List (κ × β)} {a b : κ × β}

def byScore (xs : List (κ × β)) : List (κ × β) := xs.insertionSort fun a b => b.1 ≤ a.1

/-- A list that a sort of `xs` by descending score may give. -/
structure Arranges (xs ys : List (κ × β)) : Prop where
  perm : ys.Perm xs
  descending : ys.Pairwise fun a b => b.1 ≤ a.1

theorem byScore_arranges (xs : List (κ × β)) : Arranges xs (byScore xs) where
  perm := List.perm_insertionSort _ _
  descending := by
    have : Std.Total fun a b : κ × β => b.1 ≤ a.1 := ⟨fun a b => le_total b.1 a.1⟩
    have : IsTrans (κ × β) fun a b => b.1 ≤ a.1 := ⟨fun _ _ _ hab hbc => hbc.trans hab⟩
    exact List.pairwise_insertionSort _ _

theorem Arranges.of_perm (h : Arranges xs zs) (hp : ys.Perm xs) : Arranges ys zs :=
  ⟨h.perm.trans hp.symm, h.descending⟩

theorem Arranges.unique (hnd : (xs.map Prod.fst).Nodup) (hy : Arranges xs ys) (hz : Arranges xs zs) : ys = zs := by
  refine List.Perm.eq_of_pairwise ?_ hy.descending hz.descending (hy.perm.trans hz.perm.symm)
  intro a b ha hb hba hab
  exact List.inj_on_of_nodup_map hnd (hy.perm.subset ha) (hz.perm.subset hb) (le_antisymm hab hba)

theorem exists_perm_of_map {α γ : Type} {f : α → γ} {l : List α} {ys : List γ} (hp : ys.Perm (l.map f)) :
    ∃ l' : List α, l'.Perm l ∧ l'.map f = ys := by
  have hcomp : Relation.Comp (fun ys l' => ys = List.map f l') List.Perm ys l := by
    rw [List.eq_map_comp_perm]
    exact hp
  obtain ⟨l', rfl, hl'⟩ := hcomp
  exact ⟨l', hl', rfl⟩

theorem byScore_tie (hab : a.1 = b.1) (hsub : [a, b].Sublist xs) : [a, b].Sublist (byScore xs) := by
  have : Std.Total fun a b : κ × β => b.1 ≤ a.1 := ⟨fun a b => le_total b.1 a.1⟩
  have : IsTrans (κ × β) fun a b => b.1 ≤ a.1 := ⟨fun _ _ _ hab hbc => hbc.trans hab⟩
  exact List.pair_sublist_insertionSort hab.ge hsub

section Places

variable {α : Type} [DecidableEq α] {vs : List α} {v w : α} {i j : Nat}

def place (vs : List α) (v : α) : Option Nat := vs.findIdx? fun w => w == v

theorem place_eq_none : place vs v = none ↔ v ∉ vs := by
  unfold place
  rw [List.findIdx?_eq_none_iff]
  constructor
  · intro h hv
    simpa using h v hv
  · intro h w hw
    rw [beq_eq_false_iff_ne]
    rintro rfl
    exact h hw

theorem place_eq_some (hnd : vs.Nodup) : place vs v = some i ↔ vs[i]? = some v := by
  unfold place
  rw [List.findIdx?_eq_some_iff_getElem]
  constructor
  · rintro ⟨hi, heq, -⟩
    rw [beq_iff_eq] at heq
    rw [List.getElem?_eq_getElem hi, heq]
  · intro hget
    obtain ⟨hi, heq⟩ := List.getElem?_eq_some_iff.mp hget
    refine ⟨hi, by simpa using heq, ?_⟩
    intro k hk hkv
    rw [beq_iff_eq] at hkv
    have hik : k = i := (hnd.getElem_inj_iff).mp (hkv.trans heq.symm)
    omega

theorem place_lt_of_sublist (hnd : vs.Nodup) (hsub : [v, w].Sublist vs) :
    ∃ i j, place vs v = some i ∧ place vs w = some j ∧ i < j := by
  obtain ⟨f, hf⟩ := List.sublist_iff_exists_orderEmbedding_getElem?_eq.mp hsub
  refine ⟨f 0, f 1, (place_eq_some hnd).mpr (hf 0).symm, (place_eq_some hnd).mpr (hf 1).symm, ?_⟩
  exact f.strictMono Nat.zero_lt_one

end Places

def ranking (xs : List (κ × β)) : List β := (byScore xs).map Prod.snd

theorem ranking_perm (xs : List (κ × β)) : (ranking xs).Perm (xs.map Prod.snd) :=
  (byScore_arranges xs).perm.map Prod.snd

theorem ranking_congr (hnd : (xs.map Prod.fst).Nodup) (hp : ys.Perm xs) : ranking ys = ranking xs := by
  unfold ranking
  rw [Arranges.unique hnd ((byScore_arranges ys).of_perm hp.symm) (byScore_arranges xs)]

variable [DecidableEq β]

theorem place_lt_of_tie (hnd : (xs.map Prod.snd).Nodup) (hab : a.1 = b.1) (hsub : [a, b].Sublist xs) :
    ∃ i j, place (ranking xs) a.2 = some i ∧ place (ranking xs) b.2 = some j ∧ i < j :=
  place_lt_of_sublist ((ranking_perm xs).nodup_iff.mpr hnd) ((byScore_tie hab hsub).map Prod.snd)

theorem scores_nodup_of_places (hnd : (xs.map Prod.snd).Nodup)
    (hsame : ∀ ys, ys.Perm xs → ∀ v ∈ xs.map Prod.snd, place (ranking ys) v = place (ranking xs) v) :
    (xs.map Prod.fst).Nodup := by
  rw [List.nodup_map_iff_inj_on (List.Nodup.of_map Prod.snd hnd)]
  intro a ha b hb hab
  by_contra hne
  have hb' : b ∈ xs.erase a := (List.mem_erase_of_ne (Ne.symm hne)).mpr hb
  have hfront : (a :: b :: (xs.erase a).erase b).Perm xs :=
    ((List.perm_cons_erase hb').symm.cons a).trans (List.perm_cons_erase ha).symm
  have hback : (b :: a :: (xs.erase a).erase b).Perm xs := (List.Perm.swap a b _).trans hfront
  obtain ⟨i, j, hi, hj, hij⟩ := place_lt_of_tie ((hfront.map Prod.snd).nodup_iff.mpr hnd) hab
    (List.sublist_append_left [a, b] _)
  obtain ⟨j', i', hj', hi', hji⟩ := place_lt_of_tie ((hback.map Prod.snd).nodup_iff.mpr hnd) hab.symm
    (List.sublist_append_left [b, a] _)
  have hva : a.2 ∈ xs.map Prod.snd := List.mem_map_of_mem ha
  have hvb : b.2 ∈ xs.map Prod.snd := List.mem_map_of_mem hb
  rw [hsame _ hfront _ hva] at hi
  rw [hsame _ hback _ hva, hi, Option.some.injEq] at hi'
  rw [hsame _ hfront _ hvb] at hj
  rw [hsame _ hback _ hvb, hj, Option.some.injEq] at hj'
  omega

end Ranking
