import PupaCoin.Wallet.AddressGroupings

/-!
# Proofs: the classes that `GetAddressGroupings` returns

The allocated sets are the connected components of the groupings that the loop has seen. One round makes the component
of the next grouping out of those that it meets, which are deleted.
-/

namespace PupaCoin

open Relation (EqvGen)

variable {entry : UInt256 × CTransaction}

section Merge

variable {α : Type} [LinearOrder α] {s s' : MergeState α} {family : Set (Set α)} {g ours theirs : OrderedSet α}
  {a : α} {p hit merged : Nat} {hits : List Nat}

namespace MergeState

def classes (s : MergeState α) : Set (Set α) := {c | ∃ p g, s.heap.find? p = some g ∧ g.toSet = c}

/-- What is allocated are the classes of what has been joined, and both ways to find them agree with it. -/
structure Groups (s : MergeState α) (family : Set (Set α)) : Prop where
  unique : ∀ p, p ∈ s.uniqueGroupings ↔ ∃ g, s.heap.find? p = some g
  setmap : ∀ a p, s.setmap.find? a = some p ↔ ∃ g, s.heap.find? p = some g ∧ a ∈ g
  classes : Components.Are family s.classes

theorem groups_initial : (initial : MergeState α).Groups ∅ where
  unique p := by
    refine iff_of_false (OrderedSet.not_mem_empty p) ?_
    rintro ⟨g, hg⟩
    cases hg
  setmap a p := by
    refine iff_of_false (fun h => nomatch h) ?_
    rintro ⟨g, hg, -⟩
    cases hg
  classes := by
    have hnone : (initial : MergeState α).classes = ∅ := by
      refine Set.eq_empty_iff_forall_notMem.mpr ?_
      rintro c ⟨p, g, hg, -⟩
      cases hg
    rw [hnone]
    exact Components.are_empty

end MergeState

open MergeState

theorem readGroup_of_live (h : s.heap.find? p = some g) : readGroup p s = (.ok g, s) := by
  rw [readGroup, Exec.read_bind, h]
  rfl

theorem deleteGroup_of_live (h : s.heap.find? p = some g) :
    deleteGroup p s = (.ok (), { s with heap := s.heap.erase p }) := by
  rw [deleteGroup, Exec.read_bind, h]
  rfl

theorem mem_hitsOf {setmap : OrderedMap α Nat} : p ∈ hitsOf setmap g ↔ ∃ a ∈ g, setmap.find? a = some p := by
  rw [hitsOf, OrderedSet.mem_foldl_add, List.mem_filterMap]
  exact or_iff_right (OrderedSet.not_mem_empty p)

/-! ### The groups that are hit -/

/-- A group that is hit has been put into the new one. -/
def MergeState.absorb (merged hit : Nat) (g : OrderedSet α) (s : MergeState α) : MergeState α :=
  { s with
    heap := (s.heap.set merged g).erase hit
    uniqueGroupings := s.uniqueGroupings.remove hit }

theorem mergeHit_of_live (hhit : s.heap.find? hit = some theirs) (hours : s.heap.find? merged = some ours)
    (hne : hit ≠ merged) : mergeHit merged hit s = (.ok (), s.absorb merged hit (ours.addAll theirs)) := by
  have hlive : (s.heap.set merged (ours.addAll theirs)).find? hit = some theirs := by
    rw [OrderedMap.find?_set_of_ne _ _ hne, hhit]
  rw [mergeHit, Exec.bind_of_ok (readGroup_of_live hhit), Exec.bind_of_ok (readGroup_of_live hours), Exec.update_bind,
    Exec.update_bind]
  exact deleteGroup_of_live hlive

/-- What the loop over the groups that are hit leaves: they are in the new one, and deleted. -/
structure Joined (merged : Nat) (ours : OrderedSet α) (hits : List Nat) (s s' : MergeState α) : Prop where
  group : ∃ g, s'.heap.find? merged = some g ∧
    ∀ a, a ∈ g ↔ a ∈ ours ∨ ∃ p ∈ hits, ∃ theirs, s.heap.find? p = some theirs ∧ a ∈ theirs
  deleted : ∀ p ∈ hits, s'.heap.find? p = none
  kept : ∀ p, p ≠ merged → p ∉ hits → s'.heap.find? p = s.heap.find? p
  unique : ∀ p, p ∈ s'.uniqueGroupings ↔ p ∈ s.uniqueGroupings ∧ p ∉ hits
  setmap : s'.setmap = s.setmap

theorem Joined.cons (hhit : s.heap.find? hit = some theirs) (hne : hit ≠ merged) (hnot : hit ∉ hits)
    (h : Joined merged (ours.addAll theirs) hits (s.absorb merged hit (ours.addAll theirs)) s')
    (hmerged : merged ∉ hits) : Joined merged ours (hit :: hits) s s' := by
  have hothers : ∀ p, p ≠ hit → p ≠ merged →
      (s.absorb merged hit (ours.addAll theirs)).heap.find? p = s.heap.find? p := by
    intro p hp hp'
    rw [MergeState.absorb, OrderedMap.find?_erase_of_ne _ hp, OrderedMap.find?_set_of_ne _ _ hp']
  refine ⟨?_, fun p hp => ?_, fun p hp hp' => ?_, fun p => ?_, h.setmap⟩
  · obtain ⟨g, hg, hmem⟩ := h.group
    refine ⟨g, hg, fun a => ?_⟩
    rw [hmem, OrderedSet.mem_addAll, or_assoc]
    refine or_congr_right ⟨?_, ?_⟩
    · rintro (ha | ⟨p, hp, g', hg', ha⟩)
      · exact ⟨hit, List.mem_cons_self, theirs, hhit, ha⟩
      · rw [hothers p (fun heq => hnot (heq ▸ hp)) (fun heq => hmerged (heq ▸ hp))] at hg'
        exact ⟨p, List.mem_cons_of_mem hit hp, g', hg', ha⟩
    · rintro ⟨p, hp, g', hg', ha⟩
      rcases List.mem_cons.mp hp with rfl | hp
      · rw [hhit] at hg'
        rw [Option.some.inj hg']
        exact Or.inl ha
      · refine Or.inr ⟨p, hp, g', ?_, ha⟩
        rw [hothers p (fun heq => hnot (heq ▸ hp)) (fun heq => hmerged (heq ▸ hp))]
        exact hg'
  · rcases List.mem_cons.mp hp with rfl | hp
    · rw [h.kept p hne hnot]
      exact OrderedMap.find?_erase_self _ p
    · exact h.deleted p hp
  · rw [List.mem_cons, not_or] at hp'
    rw [h.kept p hp hp'.2]
    exact hothers p hp'.1 hp
  · rw [h.unique, MergeState.absorb, OrderedSet.mem_remove, List.mem_cons, not_or, and_assoc]

/-- By induction on the groups that are hit: each of them is allocated when its turn comes. -/
theorem forM_mergeHit (hnodup : hits.Nodup) (hlive : ∀ p ∈ hits, p ≠ merged ∧ ∃ g, s.heap.find? p = some g)
    (hours : s.heap.find? merged = some ours) :
    ∃ s', (hits.forM (mergeHit merged) : MergeM α Unit) s = (.ok (), s') ∧ Joined merged ours hits s s' := by
  induction hits generalizing s ours with
  | nil =>
    refine ⟨s, rfl, ⟨ours, hours, fun a => ?_⟩, nofun, fun p _ _ => rfl, fun p => ?_, rfl⟩
    · refine (or_iff_left ?_).symm
      rintro ⟨p, hp, -⟩
      exact absurd hp List.not_mem_nil
    · exact (and_iff_left List.not_mem_nil).symm
  | cons hit hits ih =>
    obtain ⟨hnot, hnodup⟩ := List.nodup_cons.mp hnodup
    obtain ⟨hne, theirs, hhit⟩ := hlive hit List.mem_cons_self
    have hrest : ∀ p ∈ hits, p ≠ merged ∧ ∃ g, (s.absorb merged hit (ours.addAll theirs)).heap.find? p = some g := by
      intro p hp
      obtain ⟨hp', g, hg⟩ := hlive p (List.mem_cons_of_mem hit hp)
      have hother : p ≠ hit := fun heq => hnot (heq ▸ hp)
      refine ⟨hp', g, ?_⟩
      rw [MergeState.absorb, OrderedMap.find?_erase_of_ne _ hother, OrderedMap.find?_set_of_ne _ _ hp']
      exact hg
    have hmerged : (s.absorb merged hit (ours.addAll theirs)).heap.find? merged = some (ours.addAll theirs) := by
      rw [MergeState.absorb, OrderedMap.find?_erase_of_ne _ hne.symm]
      exact OrderedMap.find?_set_self _ _ _
    obtain ⟨s', hrun, hjoined⟩ := ih (s := s.absorb merged hit (ours.addAll theirs)) hnodup hrest hmerged
    refine ⟨s', ?_, hjoined.cons hhit hne hnot fun hmem => (hrest merged hmem).1 rfl⟩
    exact (Exec.bind_of_ok (mergeHit_of_live hhit hours hne) _).trans hrun

/-! ### One grouping -/

theorem find?_foldl_set {l : List α} {m : OrderedMap α Nat} :
    (l.foldl (fun m element => m.set element merged) m).find? a = if a ∈ l then some merged else m.find? a := by
  induction l generalizing m with
  | nil => exact (if_neg List.not_mem_nil).symm
  | cons b l ih =>
    rw [List.foldl_cons, ih]
    by_cases hl : a ∈ l
    · rw [if_pos hl, if_pos (List.mem_cons_of_mem b hl)]
    · rw [if_neg hl]
      by_cases heq : a = b
      · rw [heq, if_pos List.mem_cons_self]
        exact OrderedMap.find?_set_self m b merged
      · rw [OrderedMap.find?_set_of_ne m merged heq, if_neg]
        rw [List.mem_cons, not_or]
        exact ⟨heq, hl⟩

theorem forM_setmap (l : List α) (s : MergeState α) :
    (l.forM (fun element => Exec.update fun s => { s with setmap := s.setmap.set element merged }) : MergeM α Unit) s =
      (.ok (), { s with setmap := l.foldl (fun m element => m.set element merged) s.setmap }) := by
  induction l generalizing s with
  | nil => rfl
  | cons a l ih =>
    exact (Exec.update_bind _ _ s).trans (ih _)

/-- The first step of a round: the new set is allocated, and nothing else changes. -/
def MergeState.withNew (s : MergeState α) (p : Nat) (g : OrderedSet α) : MergeState α :=
  { s with heap := s.heap.set p g, made := s.made + 1 }

/-- What a round leaves: the grouping is in one new set `joined` at `p` with the groups that it has hit. -/
structure Merged (g : OrderedSet α) (p : Nat) (joined : OrderedSet α) (s s' : MergeState α) : Prop where
  fresh : s.heap.find? p = none
  group : s'.heap.find? p = some joined
  elements : joined.toSet = Components.merged s.classes g.toSet
  others : ∀ q, q ≠ p → s'.heap.find? q = if q ∈ hitsOf s.setmap g then none else s.heap.find? q
  unique : ∀ q, q ∈ s'.uniqueGroupings ↔ q = p ∨ (q ∈ s.uniqueGroupings ∧ q ∉ hitsOf s.setmap g)
  setmap : ∀ a, s'.setmap.find? a = if a ∈ joined then some p else s.setmap.find? a

theorem MergeState.Groups.mem_hits (h : s.Groups family) :
    (∃ p ∈ (hitsOf s.setmap g).elems, ∃ theirs, s.heap.find? p = some theirs ∧ a ∈ theirs) ↔
      a ∈ ⋃₀ Components.hits s.classes g.toSet := by
  rw [Set.mem_sUnion]
  constructor
  · rintro ⟨p, hp, theirs, htheirs, ha⟩
    obtain ⟨b, hb, hfind⟩ := mem_hitsOf.mp hp
    obtain ⟨theirs', htheirs', hb'⟩ := (h.setmap b p).mp hfind
    rw [htheirs] at htheirs'
    rw [← Option.some.inj htheirs'] at hb'
    exact ⟨theirs.toSet, ⟨⟨p, theirs, htheirs, rfl⟩, b, hb', hb⟩, ha⟩
  · rintro ⟨c, ⟨⟨p, theirs, htheirs, rfl⟩, b, hb, hbg⟩, ha⟩
    exact ⟨p, mem_hitsOf.mpr ⟨b, hbg, (h.setmap b p).mpr ⟨theirs, htheirs, hb⟩⟩, theirs, htheirs, ha⟩

theorem mergeGrouping_run (allocator : Allocator α) (h : s.Groups family) (g : OrderedSet α) :
    ∃ p joined s', mergeGrouping allocator g s = (.ok (), s') ∧ Merged g p joined s s' := by
  have hfresh : s.heap.find? (allocator.alloc s.made s.heap) = none := allocator.fresh s.made s.heap
  obtain ⟨p, hp⟩ : ∃ p, p = allocator.alloc s.made s.heap := ⟨_, rfl⟩
  rw [← hp] at hfresh
  have hnew : newGroup allocator g s = (.ok p, s.withNew p g) := by
    rw [hp]
    rfl
  have hlive : ∀ q ∈ (hitsOf s.setmap g).elems, ∃ theirs, s.heap.find? q = some theirs := by
    intro q hq
    obtain ⟨b, -, hfind⟩ := mem_hitsOf.mp hq
    obtain ⟨theirs, htheirs, -⟩ := (h.setmap b q).mp hfind
    exact ⟨theirs, htheirs⟩
  have hother : ∀ q, q ≠ p → (s.withNew p g).heap.find? q = s.heap.find? q := fun q hq =>
    OrderedMap.find?_set_of_ne s.heap g hq
  have hne : ∀ q ∈ (hitsOf s.setmap g).elems, q ≠ p := by
    rintro q hq rfl
    obtain ⟨theirs, htheirs⟩ := hlive q hq
    rw [hfresh] at htheirs
    cases htheirs
  have hready : ∀ q ∈ (hitsOf s.setmap g).elems, q ≠ p ∧ ∃ theirs, (s.withNew p g).heap.find? q = some theirs := by
    intro q hq
    rw [hother q (hne q hq)]
    exact ⟨hne q hq, hlive q hq⟩
  obtain ⟨t, hrun, hjoined⟩ := forM_mergeHit (OrderedSet.nodup_elems _) hready (OrderedMap.find?_set_self s.heap p g)
  obtain ⟨joined, hlivep, hmem⟩ := hjoined.group
  refine ⟨p, joined, { t with
    uniqueGroupings := t.uniqueGroupings.add p
    setmap := joined.elems.foldl (fun m element => m.set element p) t.setmap }, ?_, ?_⟩
  · rw [mergeGrouping, Exec.read_bind]
    rw [Exec.bind_of_ok hnew, Exec.bind_of_ok hrun, Exec.update_bind]
    have hread : readGroup p { t with uniqueGroupings := t.uniqueGroupings.add p } = (.ok joined, _) :=
      readGroup_of_live hlivep
    exact (Exec.bind_of_ok hread _).trans (forM_setmap joined.elems _)
  · refine ⟨hfresh, hlivep, ?_, fun q hq => ?_, fun q => ?_, fun a => ?_⟩
    · ext a
      rw [OrderedSet.mem_toSet, hmem, Components.merged, Set.mem_union, ← h.mem_hits]
      refine or_congr_right ⟨?_, ?_⟩
      · rintro ⟨q, hq, theirs, htheirs, ha⟩
        rw [hother q (hne q hq)] at htheirs
        exact ⟨q, hq, theirs, htheirs, ha⟩
      · rintro ⟨q, hq, theirs, htheirs, ha⟩
        rw [← hother q (hne q hq)] at htheirs
        exact ⟨q, hq, theirs, htheirs, ha⟩
    · split_ifs with hhit
      · exact hjoined.deleted q hhit
      · rw [← hother q hq]
        exact hjoined.kept q hq hhit
    · rw [OrderedSet.mem_add, hjoined.unique]
      rfl
    · rw [find?_foldl_set, hjoined.setmap]
      rfl

namespace Merged

variable {joined : OrderedSet α}

theorem hit_iff (h : s.Groups family) (hp : s.heap.find? p = some ours) :
    p ∈ hitsOf s.setmap g ↔ ours.toSet ∈ Components.hits s.classes g.toSet := by
  rw [mem_hitsOf]
  constructor
  · rintro ⟨a, ha, hfind⟩
    obtain ⟨ours', hours', ha'⟩ := (h.setmap a p).mp hfind
    rw [hp] at hours'
    exact ⟨⟨p, ours, hp, rfl⟩, a, Option.some.inj hours' ▸ ha', ha⟩
  · rintro ⟨-, a, ha, hag⟩
    exact ⟨a, hag, (h.setmap a p).mpr ⟨ours, hp, ha⟩⟩

theorem live_iff (hm : Merged g p joined s s') {q : Nat} : s'.heap.find? q = some theirs ↔
      (q = p ∧ theirs = joined) ∨ (s.heap.find? q = some theirs ∧ q ∉ hitsOf s.setmap g) := by
  by_cases hq : q = p
  · rw [hq, hm.group, hm.fresh]
    constructor
    · exact fun heq => Or.inl ⟨rfl, (Option.some.inj heq).symm⟩
    · rintro (⟨-, rfl⟩ | ⟨hnone, -⟩)
      · rfl
      · cases hnone
  · rw [hm.others q hq]
    split_ifs with hhit
    · refine iff_of_false (fun hnone => nomatch hnone) ?_
      rintro (⟨heq, -⟩ | ⟨-, hnot⟩)
      · exact hq heq
      · exact hnot hhit
    · constructor
      · exact fun hlive => Or.inr ⟨hlive, hhit⟩
      · rintro (⟨heq, -⟩ | ⟨hlive, -⟩)
        · exact absurd heq hq
        · exact hlive

theorem classes_eq (hm : Merged g p joined s s') (h : s.Groups family) :
    s'.classes = insert (Components.merged s.classes g.toSet) (s.classes \ Components.hits s.classes g.toSet) := by
  ext c
  constructor
  · rintro ⟨q, theirs, hlive, rfl⟩
    rcases hm.live_iff.mp hlive with ⟨-, rfl⟩ | ⟨hlive, hnot⟩
    · exact Or.inl hm.elements
    · exact Or.inr ⟨⟨q, theirs, hlive, rfl⟩, fun hhit => hnot ((hit_iff h hlive).mpr hhit)⟩
  · rintro (rfl | ⟨⟨q, theirs, hlive, rfl⟩, hnot⟩)
    · exact ⟨p, joined, hm.group, hm.elements⟩
    · exact ⟨q, theirs, hm.live_iff.mpr (Or.inr ⟨hlive, fun hhit => hnot ((hit_iff h hlive).mp hhit)⟩), rfl⟩

theorem groups (hm : Merged g p joined s s') (h : s.Groups family) (hg : ∃ a, a ∈ g) :
    s'.Groups (insert g.toSet family) where
  unique q := by
    rw [hm.unique, h.unique]
    constructor
    · rintro (rfl | ⟨⟨theirs, hlive⟩, hnot⟩)
      · exact ⟨joined, hm.group⟩
      · exact ⟨theirs, hm.live_iff.mpr (Or.inr ⟨hlive, hnot⟩)⟩
    · rintro ⟨theirs, hlive⟩
      rcases hm.live_iff.mp hlive with ⟨heq, -⟩ | ⟨hlive, hnot⟩
      · exact Or.inl heq
      · exact Or.inr ⟨⟨theirs, hlive⟩, hnot⟩
  setmap a q := by
    rw [hm.setmap]
    have hmem : a ∈ joined ↔ a ∈ Components.merged s.classes g.toSet := by rw [← hm.elements, OrderedSet.mem_toSet]
    split_ifs with ha
    · constructor
      · intro heq
        exact ⟨joined, Option.some.inj heq ▸ hm.group, ha⟩
      · rintro ⟨theirs, hlive, hat⟩
        rcases hm.live_iff.mp hlive with ⟨rfl, -⟩ | ⟨hlive, hnot⟩
        · rfl
        · -- a group that is left has nothing in common with the new one
          have hleft : theirs.toSet ∈ s.classes \ Components.hits s.classes g.toSet :=
            ⟨⟨q, theirs, hlive, rfl⟩, fun hhit => hnot ((hit_iff h hlive).mpr hhit)⟩
          exact absurd (hmem.mp ha) (h.classes.disjoint_merged hleft hat)
    · rw [h.setmap]
      constructor
      · rintro ⟨theirs, hlive, hat⟩
        refine ⟨theirs, hm.live_iff.mpr (Or.inr ⟨hlive, fun hhit => ha ?_⟩), hat⟩
        exact hmem.mpr (Or.inr ⟨theirs.toSet, (hit_iff h hlive).mp hhit, hat⟩)
      · rintro ⟨theirs, hlive, hat⟩
        rcases hm.live_iff.mp hlive with ⟨-, rfl⟩ | ⟨hlive, -⟩
        · exact absurd hat ha
        · exact ⟨theirs, hlive, hat⟩
  classes := by
    rw [hm.classes_eq h]
    exact h.classes.insert hg

end Merged

/-! ### All groupings -/

/-- By induction on the groupings that are left. -/
theorem forM_mergeGrouping (allocator : Allocator α) {l : List (OrderedSet α)} (hl : ∀ g ∈ l, ∃ a, a ∈ g)
    (h : s.Groups family) : ∃ s', (l.forM (mergeGrouping allocator) : MergeM α Unit) s = (.ok (), s') ∧
      s'.Groups (family ∪ OrderedSet.toSet '' {g | g ∈ l}) := by
  induction l generalizing s family with
  | nil =>
    refine ⟨s, rfl, ?_⟩
    have hnone : {g : OrderedSet α | g ∈ ([] : List (OrderedSet α))} = ∅ :=
      Set.eq_empty_iff_forall_notMem.mpr fun g => List.not_mem_nil
    rw [hnone, Set.image_empty, Set.union_empty]
    exact h
  | cons g l ih =>
    obtain ⟨p, joined, t, hrun, hm⟩ := mergeGrouping_run allocator h g
    have ht := hm.groups h (hl g List.mem_cons_self)
    obtain ⟨s', hrest, hs'⟩ := ih (fun g' hg' => hl g' (List.mem_cons_of_mem g hg')) ht
    refine ⟨s', (Exec.bind_of_ok hrun _).trans hrest, ?_⟩
    have hcons : {g' : OrderedSet α | g' ∈ g :: l} = insert g {g' | g' ∈ l} :=
      Set.ext fun g' => List.mem_cons
    rw [hcons, Set.image_insert_eq, Set.union_insert, ← Set.insert_union]
    exact hs'

/-- Returning the groups: each of them is deleted once. By induction on those that are left. -/
theorem foldlM_collectGroup {l : List Nat} {ret : OrderedSet (OrderedSet α)} (hnodup : l.Nodup)
    (hlive : ∀ p ∈ l, ∃ g, s.heap.find? p = some g) : ∃ ret' s', l.foldlM collectGroup ret s = (.ok ret', s') ∧
      (∀ g, g ∈ ret' ↔ g ∈ ret ∨ ∃ p ∈ l, s.heap.find? p = some g) ∧
      ∀ p, s'.heap.find? p = if p ∈ l then none else s.heap.find? p := by
  induction l generalizing s ret with
  | nil =>
    refine ⟨ret, s, rfl, fun g => (or_iff_left ?_).symm, fun p => (if_neg List.not_mem_nil).symm⟩
    rintro ⟨p, hp, -⟩
    exact absurd hp List.not_mem_nil
  | cons p l ih =>
    obtain ⟨hnot, hnodup⟩ := List.nodup_cons.mp hnodup
    obtain ⟨g, hg⟩ := hlive p List.mem_cons_self
    have hrun : collectGroup ret p s = (.ok (ret.add g), { s with heap := s.heap.erase p }) := by
      rw [collectGroup, Exec.bind_of_ok (readGroup_of_live hg), Exec.bind_of_ok (deleteGroup_of_live hg)]
      rfl
    obtain ⟨t, ht⟩ : ∃ t : MergeState α, t = { s with heap := s.heap.erase p } := ⟨_, rfl⟩
    rw [← ht] at hrun
    have hother : ∀ q ∈ l, t.heap.find? q = s.heap.find? q := by
      intro q hq
      rw [ht]
      exact OrderedMap.find?_erase_of_ne _ fun heq => hnot (heq ▸ hq)
    have hrest : ∀ q ∈ l, ∃ g, t.heap.find? q = some g := by
      intro q hq
      rw [hother q hq]
      exact hlive q (List.mem_cons_of_mem p hq)
    obtain ⟨ret', s', hrun', hret, hheap⟩ := ih hnodup hrest
    refine ⟨ret', s', ?_, fun g' => ?_, fun q => ?_⟩
    · rw [List.foldlM_cons, Exec.bind_of_ok hrun]
      exact hrun'
    · rw [hret, OrderedSet.mem_add, or_comm (a := g' = g), or_assoc]
      refine or_congr_right ⟨?_, ?_⟩
      · rintro (rfl | ⟨q, hq, hlive'⟩)
        · exact ⟨p, List.mem_cons_self, hg⟩
        · rw [hother q hq] at hlive'
          exact ⟨q, List.mem_cons_of_mem p hq, hlive'⟩
      · rintro ⟨q, hq, hlive'⟩
        rcases List.mem_cons.mp hq with rfl | hq
        · rw [hg] at hlive'
          exact Or.inl (Option.some.inj hlive').symm
        · rw [← hother q hq] at hlive'
          exact Or.inr ⟨q, hq, hlive'⟩
    · rw [hheap]
      by_cases hq : q ∈ l
      · rw [if_pos hq, if_pos (List.mem_cons_of_mem p hq)]
      · rw [if_neg hq, ht]
        by_cases heq : q = p
        · rw [heq, if_pos List.mem_cons_self]
          exact OrderedMap.find?_erase_self s.heap p
        · rw [if_neg (List.mem_cons.not.mpr (not_or.mpr ⟨heq, hq⟩))]
          exact OrderedMap.find?_erase_of_ne _ heq

theorem mergeGroupings_run (allocator : Allocator α) {groupings : OrderedSet (OrderedSet α)}
    (h : ∀ g ∈ groupings, ∃ a, a ∈ g) :
    ∃ ret s', mergeGroupings allocator groupings MergeState.initial = (.ok ret, s') ∧ s'.heap = OrderedMap.empty ∧
      Components.Are (OrderedSet.toSet '' {g | g ∈ groupings}) (OrderedSet.toSet '' {g | g ∈ ret}) := by
  obtain ⟨s, hrun, hs⟩ := forM_mergeGrouping allocator h MergeState.groups_initial
  rw [Set.empty_union] at hs
  obtain ⟨ret, s', hret, hmem, hheap⟩ := foldlM_collectGroup (OrderedSet.nodup_elems _)
    fun p hp => (hs.unique p).mp hp
  refine ⟨ret, s', ?_, OrderedMap.ext_find? fun p => ?_, ?_⟩
  · rw [mergeGroupings, Exec.bind_of_ok hrun, Exec.read_bind]
    exact hret
  · rw [hheap, OrderedMap.find?_empty]
    split_ifs with hp
    · rfl
    · refine Option.eq_none_iff_forall_ne_some.mpr fun g hg => hp ?_
      exact (hs.unique p).mpr ⟨g, hg⟩
  · have hclasses : OrderedSet.toSet '' {g | g ∈ ret} = s.classes := by
      ext c
      rw [Set.mem_image]
      constructor
      · rintro ⟨g, hg, rfl⟩
        obtain ⟨p, -, hlive⟩ := ((hmem g).mp hg).resolve_left (OrderedSet.not_mem_empty g)
        exact ⟨p, g, hlive, rfl⟩
      · rintro ⟨p, g, hlive, rfl⟩
        exact ⟨g, (hmem g).mpr (Or.inr ⟨p, (hs.unique p).mpr ⟨g, hlive⟩, hlive⟩), rfl⟩
    rw [hclasses]
    exact hs.classes

end Merge

namespace GroupingWallet

variable {w : GroupingWallet} {tx : CTransaction} {a b : CTxDestination} {gs : OrderedSet Grouping} {g : Grouping}

theorem foldl_groupInput {l : List CTxIn} {s : Grouping × Bool} : (∀ a, a ∈ (l.foldl w.groupInput s).1 ↔
      a ∈ s.1 ∨ ∃ txin ∈ l, (w.isMineIn txin).isAny = true ∧ w.spentAddress txin = some a) ∧
    ((l.foldl w.groupInput s).2 = true ↔
      s.2 = true ∨ ∃ a, ∃ txin ∈ l, (w.isMineIn txin).isAny = true ∧ w.spentAddress txin = some a) := by
  induction l generalizing s with
  | nil => simp
  | cons txin l ih =>
    rw [List.foldl_cons, ih.2]
    simp only [ih.1, List.mem_cons, or_and_right, exists_or, exists_eq_left, groupInput]
    split_ifs with hmine
    · cases hspent : w.spentAddress txin with
      | none => simp
      | some address =>
        refine ⟨fun a => ?_, ?_⟩
        · rw [OrderedSet.mem_add, or_comm (a := a = address), or_assoc, eq_comm (a := a)]
          simp only [Option.some.injEq, hmine, true_and]
        · simp [hmine]
    · simp [hmine]

theorem mem_foldl_groupChange {l : List CTxOut} : a ∈ l.foldl w.groupChange g ↔
      a ∈ g ∨ ∃ txout ∈ l, w.isChange txout = true ∧ extractDestination w.getID txout.scriptPubKey = some a := by
  induction l generalizing g with
  | nil => simp
  | cons txout l ih =>
    rw [List.foldl_cons, ih]
    simp only [List.mem_cons, or_and_right, exists_or, exists_eq_left, groupChange]
    split_ifs with hchange
    · cases hdest : extractDestination w.getID txout.scriptPubKey with
      | none => simp
      | some address =>
        rw [OrderedSet.mem_add, or_comm (a := a = address), or_assoc, eq_comm (a := a)]
        simp only [Option.some.injEq, hchange, true_and]
    · simp [hchange]

/-- The grouping of a transaction that the wallet has made. -/
def IsSpenderGroup (w : GroupingWallet) (tx : CTransaction) (g : Grouping) : Prop :=
  w.Spends tx ∧ (∃ c, w.IsInputAddress tx c) ∧ ∀ a, a ∈ g ↔ w.IsInputAddress tx a ∨ w.IsChangeAddress tx a

/-- The grouping of an output of the wallet's own. -/
def IsLoneGroup (w : GroupingWallet) (txout : CTxOut) (g : Grouping) : Prop :=
  (w.isMine txout.scriptPubKey).isAny = true ∧
    ∃ a, extractDestination w.getID txout.scriptPubKey = some a ∧ ∀ b, b ∈ g ↔ b = a

theorem groupSpender_empty (w : GroupingWallet) (gs : OrderedSet Grouping) (tx : CTransaction) :
    ∃ gs', w.groupSpender (gs, OrderedMap.empty) tx = (gs', OrderedMap.empty) ∧
      ∀ g, g ∈ gs' ↔ g ∈ gs ∨ w.IsSpenderGroup tx g := by
  obtain ⟨hmem, hany⟩ := foldl_groupInput (w := w) (l := tx.vin) (s := (OrderedMap.empty, false))
  by_cases hspends : w.Spends tx
  · obtain ⟨first, hfirst, hmine⟩ := hspends
    obtain ⟨rest, hvin⟩ := List.head?_eq_some_iff.mp hfirst
    unfold groupSpender
    rw [hvin] at hmem hany ⊢
    dsimp only
    rw [if_pos hmine]
    obtain ⟨st, hst⟩ : ∃ st, st = (first :: rest).foldl w.groupInput (OrderedMap.empty, false) := ⟨_, rfl⟩
    rw [← hst] at hmem hany ⊢
    obtain ⟨inputs, any_mine⟩ := st
    dsimp only at hmem hany ⊢
    rw [← hvin] at hmem hany
    cases any_mine with
    | true =>
      rw [if_pos rfl]
      obtain ⟨c, hc⟩ : ∃ c, w.IsInputAddress tx c := (hany.mp rfl).resolve_left Bool.false_ne_true
      have hgroup : ∀ a, a ∈ tx.vout.foldl w.groupChange inputs ↔ w.IsInputAddress tx a ∨ w.IsChangeAddress tx a := by
        intro a
        rw [mem_foldl_groupChange, hmem, or_iff_right (OrderedSet.not_mem_empty a)]
        rfl
      rw [if_pos (OrderedSet.size_pos_iff.mpr ⟨c, (hgroup c).mpr (Or.inl hc)⟩)]
      refine ⟨_, rfl, fun g => ?_⟩
      rw [OrderedSet.mem_add, or_comm]
      refine or_congr_right ⟨?_, ?_⟩
      · rintro rfl
        exact ⟨⟨first, hfirst, hmine⟩, ⟨c, hc⟩, hgroup⟩
      · rintro ⟨-, -, hg⟩
        exact OrderedSet.ext_mem fun a => (hg a).trans (hgroup a).symm
    | false =>
      have hnone : ∀ a, ¬ w.IsInputAddress tx a := by
        intro a ha
        exact absurd (hany.mpr (Or.inr ⟨a, ha⟩)) Bool.false_ne_true
      have hempty : inputs = OrderedMap.empty := OrderedSet.ext_mem fun a =>
        iff_of_false (fun ha => hnone a (((hmem a).mp ha).resolve_left (OrderedSet.not_mem_empty a)))
          (OrderedSet.not_mem_empty a)
      rw [hempty]
      refine ⟨gs, rfl, fun g => (or_iff_left ?_).symm⟩
      rintro ⟨-, ⟨c, hc⟩, -⟩
      exact hnone c hc
  · refine ⟨gs, ?_, fun g => (or_iff_left fun hg => hspends hg.1).symm⟩
    unfold groupSpender
    cases hvin : tx.vin with
    | nil => rfl
    | cons first rest =>
      dsimp only
      rw [if_neg]
      intro hmine
      exact hspends ⟨first, by rw [hvin]; rfl, hmine⟩

theorem foldl_groupLone (w : GroupingWallet) (l : List CTxOut) (gs : OrderedSet Grouping) :
    ∃ gs', l.foldl w.groupLone (gs, OrderedMap.empty) = (gs', OrderedMap.empty) ∧
      ∀ g, g ∈ gs' ↔ g ∈ gs ∨ ∃ txout ∈ l, w.IsLoneGroup txout g := by
  induction l generalizing gs with
  | nil => exact ⟨gs, rfl, fun g => by simp⟩
  | cons txout l ih =>
    obtain ⟨gs₁, hstep, hgs₁⟩ : ∃ gs₁, w.groupLone (gs, OrderedMap.empty) txout = (gs₁, OrderedMap.empty) ∧
        ∀ g, g ∈ gs₁ ↔ g ∈ gs ∨ w.IsLoneGroup txout g := by
      unfold groupLone
      by_cases hmine : (w.isMine txout.scriptPubKey).isAny = true
      · rw [if_pos hmine]
        cases hdest : extractDestination w.getID txout.scriptPubKey with
        | none =>
          refine ⟨gs, rfl, fun g => (or_iff_left ?_).symm⟩
          rintro ⟨-, a, ha, -⟩
          rw [hdest] at ha
          cases ha
        | some address =>
          have hsingle : ∀ b, b ∈ OrderedSet.add OrderedMap.empty address ↔ b = address := by
            intro b
            rw [OrderedSet.mem_add]
            exact or_iff_left (OrderedSet.not_mem_empty b)
          refine ⟨_, rfl, fun g => ?_⟩
          rw [OrderedSet.mem_add, or_comm]
          refine or_congr_right ⟨?_, ?_⟩
          · rintro rfl
            exact ⟨hmine, address, hdest, hsingle⟩
          · rintro ⟨-, a, ha, hg⟩
            rw [hdest] at ha
            rw [← Option.some.inj ha] at hg
            exact OrderedSet.ext_mem fun b => (hg b).trans (hsingle b).symm
      · rw [if_neg hmine]
        exact ⟨gs, rfl, fun g => (or_iff_left fun hg => hmine hg.1).symm⟩
    obtain ⟨gs', hrun, hgs'⟩ := ih gs₁
    refine ⟨gs', ?_, fun g => ?_⟩
    · rw [List.foldl_cons, hstep, hrun]
    · rw [hgs', hgs₁, or_assoc, List.exists_mem_cons_iff]

theorem mem_rawGroupings : g ∈ w.rawGroupings ↔ ∃ entry ∈ w.mapWallet.entries,
    w.IsSpenderGroup entry.2 g ∨ ∃ txout ∈ entry.2.vout, w.IsLoneGroup txout g := by
  have hloop : ∀ (l : List (UInt256 × CTransaction)) (gs : OrderedSet Grouping),
      ∃ gs', l.foldl w.groupEntry (gs, OrderedMap.empty) = (gs', OrderedMap.empty) ∧
        ∀ g, g ∈ gs' ↔ g ∈ gs ∨ ∃ entry ∈ l,
          w.IsSpenderGroup entry.2 g ∨ ∃ txout ∈ entry.2.vout, w.IsLoneGroup txout g := by
    intro l
    induction l with
    | nil => exact fun gs => ⟨gs, rfl, fun g => by simp⟩
    | cons entry l ih =>
      intro gs
      obtain ⟨gs₁, hspender, hgs₁⟩ := groupSpender_empty w gs entry.2
      obtain ⟨gs₂, hlone, hgs₂⟩ := foldl_groupLone w entry.2.vout gs₁
      obtain ⟨gs', hrun, hgs'⟩ := ih gs₂
      refine ⟨gs', ?_, fun g => ?_⟩
      · rw [List.foldl_cons, groupEntry, hspender, hlone, hrun]
      · rw [hgs', hgs₂, hgs₁, List.exists_mem_cons_iff, or_assoc, or_assoc, or_assoc]
  obtain ⟨gs', hrun, hgs'⟩ := hloop w.mapWallet.entries OrderedMap.empty
  rw [rawGroupings, hrun, hgs']
  exact or_iff_right (OrderedSet.not_mem_empty g)

theorem isOwnAddress_of_input (h : w.IsInputAddress entry.2 a) : w.IsOwnAddress a := by
  obtain ⟨txin, -, hmine, hspent⟩ := h
  unfold isMineIn at hmine
  unfold spentAddress at hspent
  cases hprev : w.mapWallet.find? txin.prevout.hash with
  | none =>
    rw [hprev] at hspent
    cases hspent
  | some prev =>
    rw [hprev] at hmine hspent
    dsimp only [Option.bind_eq_bind, Option.bind_some] at hmine hspent
    cases hout : prev.vout[txin.prevout.n.toNat]? with
    | none =>
      rw [hout] at hspent
      cases hspent
    | some txout =>
      rw [hout] at hmine hspent
      exact ⟨_, OrderedMap.find?_eq_some_iff.mp hprev, txout, List.mem_of_getElem? hout, hmine, hspent⟩

theorem isMine_of_isChange {txout : CTxOut} (h : w.isChange txout = true) :
    (w.isMine txout.scriptPubKey).isAny = true := by
  unfold isChange at h
  by_contra hmine
  rw [if_neg hmine] at h
  cases h

theorem isOwnAddress_of_mem (hg : g ∈ w.rawGroupings) (ha : a ∈ g) : w.IsOwnAddress a := by
  obtain ⟨entry, hentry, hgroup | ⟨txout, hout, hmine, b, hdest, hmem⟩⟩ := mem_rawGroupings.1 hg
  · rcases (hgroup.2.2 a).mp ha with hin | ⟨txout, hout, hchange, hdest⟩
    · exact isOwnAddress_of_input hin
    · exact ⟨entry, hentry, txout, hout, isMine_of_isChange hchange, hdest⟩
  · rw [(hmem a).mp ha]
    exact ⟨entry, hentry, txout, hout, hmine, hdest⟩

theorem exists_mem_of_rawGrouping (hg : g ∈ w.rawGroupings) : ∃ a, a ∈ g := by
  obtain ⟨entry, -, hgroup | ⟨txout, -, -, a, -, hmem⟩⟩ := mem_rawGroupings.1 hg
  · obtain ⟨c, hc⟩ := hgroup.2.1
    exact ⟨c, (hgroup.2.2 c).mpr (Or.inl hc)⟩
  · exact ⟨a, (hmem a).mpr rfl⟩

theorem exists_spenderGroup (hentry : entry ∈ w.mapWallet.entries)
    (hspends : w.Spends entry.2) (hin : ∃ c, w.IsInputAddress entry.2 c) :
    ∃ g ∈ w.rawGroupings, ∀ a, a ∈ g ↔ w.IsInputAddress entry.2 a ∨ w.IsChangeAddress entry.2 a := by
  have hmem : ∀ a, a ∈ entry.2.vout.foldl w.groupChange (entry.2.vin.foldl w.groupInput (OrderedMap.empty, false)).1 ↔
      w.IsInputAddress entry.2 a ∨ w.IsChangeAddress entry.2 a := by
    intro a
    rw [mem_foldl_groupChange, (foldl_groupInput (w := w)).1 a, or_iff_right (OrderedSet.not_mem_empty a)]
    rfl
  exact ⟨_, mem_rawGroupings.2 ⟨entry, hentry, Or.inl ⟨hspends, hin, hmem⟩⟩, hmem⟩

theorem eqvGen_linked_iff :
    EqvGen (Components.Linked (OrderedSet.toSet '' {g | g ∈ w.rawGroupings})) a b ↔ EqvGen w.Linked a b := by
  constructor
  · intro h
    rw [← (EqvGen.is_equivalence w.Linked).eqvGen_iff]
    refine EqvGen.mono ?_ a b h
    rintro a b ⟨_, ⟨g, hg, rfl⟩, ha, hb⟩
    obtain ⟨entry, hentry, hgroup | ⟨txout, -, -, c, -, hmem⟩⟩ := mem_rawGroupings.1 hg
    · exact .rel a b ⟨entry, hentry, hgroup.1, hgroup.2.1, (hgroup.2.2 a).mp ha, (hgroup.2.2 b).mp hb⟩
    · rw [(hmem a).mp ha, (hmem b).mp hb]
      exact .refl c
  · refine EqvGen.mono ?_ a b
    rintro a b ⟨entry, hentry, hspends, hin, ha, hb⟩
    obtain ⟨g, hg, hmem⟩ := exists_spenderGroup hentry hspends hin
    exact ⟨g.toSet, ⟨g, hg, rfl⟩, (hmem a).mpr ha, (hmem b).mpr hb⟩

/-- `GetAddressGroupings` returns the classes of the linked addresses of the wallet, each of its own addresses in one of
them. No group is used after it has been deleted, and none is left. -/
theorem getAddressGroupings_isPartition (allocator : Allocator CTxDestination) (w : GroupingWallet) :
    ∃ groups, w.getAddressGroupings allocator = .ok (groups, OrderedMap.empty) ∧ w.IsPartition w.Linked groups := by
  obtain ⟨ret, s', hrun, hheap, hare⟩ := mergeGroupings_run allocator fun g hg => exists_mem_of_rawGrouping (w := w) hg
  refine ⟨ret, ?_, ?_⟩
  · rw [getAddressGroupings, hrun, ← hheap]
  · have hclass : ∀ g ∈ ret, g.toSet ∈ OrderedSet.toSet '' {g | g ∈ ret} := fun g hg => ⟨g, hg, rfl⟩
    have hdisjoint : ∀ g ∈ ret, ∀ g' ∈ ret, ∀ a ∈ g, a ∈ g' → g = g' := fun g hg g' hg' a ha ha' =>
      OrderedSet.toSet_injective (hare.disjoint _ (hclass g hg) _ (hclass g' hg') a ha ha')
    refine ⟨fun g hg => hare.inhabited _ (hclass g hg), fun g hg a ha => ?_, fun a ha => ?_, hdisjoint,
      fun g hg a ha b => ?_⟩
    · obtain ⟨_, ⟨g', hg', rfl⟩, ha'⟩ := hare.within _ (hclass g hg) a ha
      exact isOwnAddress_of_mem hg' ha'
    · obtain ⟨entry, hentry, txout, hout, hmine, hdest⟩ := ha
      have hsingle : ∀ b, b ∈ OrderedSet.add OrderedMap.empty a ↔ b = a := by
        intro b
        rw [OrderedSet.mem_add]
        exact or_iff_left (OrderedSet.not_mem_empty b)
      have hlone := mem_rawGroupings.2 ⟨entry, hentry, Or.inr ⟨txout, hout, hmine, a, hdest, hsingle⟩⟩
      obtain ⟨_, ⟨g, hg, rfl⟩, hsub⟩ := hare.covers _ ⟨_, hlone, rfl⟩
      have hag : a ∈ g := hsub ((hsingle a).mpr rfl)
      exact ⟨g, ⟨hg, hag⟩, fun g' hg' => hdisjoint g' hg'.1 g hg a hg'.2 hag⟩
    · rw [← eqvGen_linked_iff]
      exact hare.mem_iff (hclass g hg) ha

end GroupingWallet

namespace Sample

def bumpAllocator : Allocator CTxDestination where
  alloc _ heap := (heap.entries.map Prod.fst).foldr max 0 + 1
  fresh _ heap := by
    have hle : ∀ (l : List Nat), ∀ p ∈ l, p ≤ l.foldr max 0 := by
      intro l
      induction l with
      | nil => exact nofun
      | cons q l ih =>
        intro p hp
        rcases List.mem_cons.mp hp with rfl | hp
        · exact le_max_left _ _
        · exact le_max_of_le_right (ih p hp)
    refine OrderedMap.find?_eq_none_iff.mpr fun g hg => ?_
    exact absurd (hle _ _ (List.mem_map_of_mem (f := Prod.fst) hg)) (Nat.not_succ_le_self _)

def byteHashScript (b : UInt8) : CScript := [0x76, 0xa9, 20, b] ++ List.replicate 19 0 ++ [0x88, 0xac]

def multisigSpender : GroupingWallet where
  mapWallet := (OrderedMap.empty.set 1 ⟨1, 0, [], [⟨0, [0x51, 33] ++ List.replicate 33 2 ++ [0x51, 0xae]⟩], 0⟩).set 2
    ⟨1, 0, [⟨⟨1, 0⟩, [], 0⟩], [⟨0, byteHashScript 1⟩, ⟨0, byteHashScript 2⟩], 0⟩
  mapAddressBook := OrderedMap.empty
  isMine _ := .spendable
  getID _ := 0

theorem multisigSpender_groups :
    ((multisigSpender.getAddressGroupings bumpAllocator).toOption.map fun r => r.1.elems.map OrderedSet.elems) =
      some [[.keyID 1], [.keyID 2]] := by
  decide +kernel

theorem multisigSpender_linked : multisigSpender.LinkedBySpending (.keyID 1) (.keyID 2) := by
  refine ⟨(2, ⟨1, 0, [⟨⟨1, 0⟩, [], 0⟩], [⟨0, byteHashScript 1⟩, ⟨0, byteHashScript 2⟩], 0⟩), by decide +kernel,
    ⟨⟨⟨1, 0⟩, [], 0⟩, rfl, by decide +kernel⟩, Or.inr ?_, Or.inr ?_⟩
  · exact ⟨⟨0, byteHashScript 1⟩, List.mem_cons_self, by decide +kernel, by decide +kernel⟩
  · exact ⟨⟨0, byteHashScript 2⟩, List.mem_cons_of_mem _ List.mem_cons_self, by decide +kernel, by decide +kernel⟩

/-- The change of a transaction is left apart where none of the inputs has an address. -/
theorem multisigSpender_apart : ¬ ∀ (allocator : Allocator CTxDestination) (w : GroupingWallet), ∃ groups,
      w.getAddressGroupings allocator = .ok (groups, OrderedMap.empty) ∧ w.IsPartition w.LinkedBySpending groups := by
  intro h
  obtain ⟨groups, hrun, hpartition⟩ := h bumpAllocator multisigSpender
  have hgroups := multisigSpender_groups
  rw [hrun] at hgroups
  have helems : groups.elems.map OrderedSet.elems = [[.keyID 1], [.keyID 2]] := Option.some.inj hgroups
  have hmem : [CTxDestination.keyID 1] ∈ groups.elems.map OrderedSet.elems := by
    rw [helems]
    exact List.mem_cons_self
  obtain ⟨g, hg, hone⟩ := List.mem_map.mp hmem
  have hfirst : CTxDestination.keyID 1 ∈ g.elems := by
    rw [hone]
    exact List.mem_cons_self
  have hsecond : CTxDestination.keyID 2 ∈ g.elems :=
    (hpartition.classes g hg _ hfirst _).mpr (.rel _ _ multisigSpender_linked)
  rw [hone] at hsecond
  exact absurd hsecond (by decide)

end Sample

end PupaCoin
