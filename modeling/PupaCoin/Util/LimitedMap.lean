import PupaCoin.Lib.OrderedMap
import Mathlib.Tactic

/-!
# A map that keeps the entries with the highest values (`limitedmap.h`)

Beside the map from keys to values a multimap leads from values back to entries; an iterator is the key of its entry.
A map with a limit gives up entries with the lowest values.
-/

namespace PupaCoin

/-- Where no value is returned: the first entry of an empty `rmap` is taken, or `assert(0)` is reached. -/
inductive LimitedMapFault where
  | emptyRmap
  | assertion
deriving DecidableEq, Repr

structure LimitedMap (K V : Type) [LinearOrder K] [LinearOrder V] where
  map : OrderedMap K V
  rmap : OrderedMultimap V K
  nMaxSize : Nat

namespace LimitedMap

variable {K V : Type} [LinearOrder K] [LinearOrder V]

def new (nMaxSizeIn : Nat) : LimitedMap K V := ⟨.empty, .empty, nMaxSizeIn⟩

/-- `map.erase(rmap.begin()->second); rmap.erase(rmap.begin());` -/
def evict (s : LimitedMap K V) : Except LimitedMapFault (LimitedMap K V) :=
  match s.rmap.entries with
  | [] => .error .emptyRmap
  | e :: _ => .ok { s with map := s.map.erase e.2, rmap := ⟨s.rmap.entries.tail, s.rmap.sorted.tail⟩ }

def insert (x : K × V) (s : LimitedMap K V) : Except LimitedMapFault (LimitedMap K V) :=
  if (s.map.find? x.1).isSome then .ok s
  else do
    let s := { s with map := s.map.set x.1 x.2 }
    let s ← if s.nMaxSize ≠ 0 ∧ s.map.size = s.nMaxSize then evict s else .ok s
    return { s with rmap := s.rmap.insert x.2 x.1 }

/-- The loops of `erase` and `update` over the entries of `rmap` with a value: the one of the key is erased. -/
def eraseReverse (k : K) (v : V) (s : LimitedMap K V) : Except LimitedMapFault (LimitedMap K V) :=
  if k ∈ s.rmap.equalRange v then
    .ok { s with rmap := ⟨s.rmap.entries.erase (v, k), s.rmap.sorted.sublist List.erase_sublist⟩ }
  else .error .assertion

def erase (k : K) (s : LimitedMap K V) : Except LimitedMapFault (LimitedMap K V) :=
  match s.map.find? k with
  | none => .ok s
  | some value => do
    let s ← eraseReverse k value s
    return { s with map := s.map.erase k }

/-- `update` of the entry that an iterator is at. -/
def update (k : K) (v : V) (s : LimitedMap K V) : Except LimitedMapFault (LimitedMap K V) :=
  match s.map.find? k with
  | none => .ok s
  | some value => do
    let s ← eraseReverse k value s
    return { s with map := s.map.set k v, rmap := s.rmap.insert v k }

/-- The loop of `max_size`. -/
def shrink (size : Nat) (s : LimitedMap K V) : Except LimitedMapFault (LimitedMap K V) :=
  if s.map.size > size then
    match _h : s.rmap.entries with
    | [] => .error .emptyRmap
    | e :: _ =>
      shrink size { s with map := s.map.erase e.2, rmap := ⟨s.rmap.entries.tail, s.rmap.sorted.tail⟩ }
  else .ok s
termination_by s.rmap.entries.length
decreasing_by rw [_h]; exact Nat.lt_succ_self _

def maxSize (size : Nat) (s : LimitedMap K V) : Except LimitedMapFault (LimitedMap K V) := do
  let s ← if size ≠ 0 then shrink size s else .ok s
  return { s with nMaxSize := size }

inductive Call (K V : Type) where
  | insert (x : K × V)
  | erase (k : K)
  | update (k : K) (v : V)
  | maxSize (size : Nat)

def step : Call K V → LimitedMap K V → Except LimitedMapFault (LimitedMap K V)
  | .insert x => insert x
  | .erase k => erase k
  | .update k v => update k v
  | .maxSize size => maxSize size

/-- The two maps have the same entries, and no more than the limit. -/
structure Sound (s : LimitedMap K V) : Prop where
  perm : s.rmap.entries.Perm (s.map.entries.map Prod.swap)
  limit : s.nMaxSize ≠ 0 → s.map.size ≤ s.nMaxSize

/-- An insertion loses an entry only where the map is full, and then one with the lowest value. -/
def EvictsLowest (s s' : LimitedMap K V) : Call K V → Prop
  | .insert _ => ∀ k v, s.map.find? k = some v → s'.map.find? k = some v ∨
      s.map.size = s.nMaxSize ∧ ∀ e ∈ s.map.entries, v ≤ e.2
  | _ => True

/-- Every call of a run returns, and what it leaves is as promised. -/
def Keeps : List (Call K V) → LimitedMap K V → Prop
  | [], _ => True
  | call :: calls, s => ∃ s', step call s = .ok s' ∧ Sound s' ∧ EvictsLowest s s' call ∧ Keeps calls s'

/-- A new key is inserted only where, with it, one place stays free. -/
def Roomy (s : LimitedMap K V) : Call K V → Prop
  | .insert x => s.map.find? x.1 = none → s.nMaxSize ≠ 0 → s.map.size + 1 < s.nMaxSize
  | _ => True

/-- Every call of a run has room in the state before it. -/
def AllRoomy : List (Call K V) → LimitedMap K V → Prop
  | [], _ => True
  | call :: calls, s => Roomy s call ∧ ∀ s', step call s = .ok s' → AllRoomy calls s'

section Perm

variable {s s' : LimitedMap K V} {k : K} {v v' : V} {x : K × V} {size : Nat}

theorem Sound.mem_rmap (hs : s.rmap.entries.Perm (s.map.entries.map Prod.swap)) :
    (v, k) ∈ s.rmap.entries ↔ s.map.find? k = some v := by
  rw [hs.mem_iff, OrderedMap.find?_eq_some_iff, List.mem_map]
  constructor
  · rintro ⟨⟨k', v'⟩, he, heq⟩
    obtain ⟨rfl, rfl⟩ := Prod.mk.inj heq
    exact he
  · exact fun he => ⟨(k, v), he, rfl⟩

theorem perm_erase (hs : s.rmap.entries.Perm (s.map.entries.map Prod.swap)) (hfind : s.map.find? k = some v) :
    s.rmap.entries.Perm ((v, k) :: (s.map.erase k).entries.map Prod.swap) :=
  hs.trans ((OrderedMap.erase_perm_of_some hfind).map Prod.swap)

theorem perm_tail {e : V × K} {rest : List (V × K)} (hs : s.rmap.entries.Perm (s.map.entries.map Prod.swap))
    (hentries : s.rmap.entries = e :: rest) :
    s.map.find? e.2 = some e.1 ∧ rest.Perm ((s.map.erase e.2).entries.map Prod.swap) := by
  have hfind : s.map.find? e.2 = some e.1 := (Sound.mem_rmap hs).mp (by rw [hentries]; exact List.mem_cons_self)
  have hperm := perm_erase hs hfind
  rw [hentries] at hperm
  exact ⟨hfind, (List.perm_cons e).mp hperm⟩

omit [LinearOrder V] in
theorem set_eq_erase_set (m : OrderedMap K V) (k : K) (v : V) : m.set k v = (m.erase k).set k v := by
  refine OrderedMap.ext_find? fun k' => ?_
  by_cases hk : k' = k
  · rw [hk, OrderedMap.find?_set_self, OrderedMap.find?_set_self]
  · rw [OrderedMap.find?_set_of_ne _ _ hk, OrderedMap.find?_set_of_ne _ _ hk, OrderedMap.find?_erase_of_ne _ hk]

omit [LinearOrder V] in
theorem size_set_of_none {m : OrderedMap K V} (h : m.find? k = none) : (m.set k v).size = m.size + 1 :=
  (OrderedMap.set_perm_of_none h).length_eq

omit [LinearOrder V] in
theorem size_erase_of_some {m : OrderedMap K V} (h : m.find? k = some v) : m.size = (m.erase k).size + 1 :=
  (OrderedMap.erase_perm_of_some h).length_eq

theorem eraseReverse_eq (hs : s.rmap.entries.Perm (s.map.entries.map Prod.swap)) (hfind : s.map.find? k = some v) :
    ∃ rmap : OrderedMultimap V K, eraseReverse k v s = .ok { s with rmap := rmap } ∧
      rmap.entries.Perm ((s.map.erase k).entries.map Prod.swap) := by
  have hmem : k ∈ s.rmap.equalRange v := OrderedMultimap.mem_equalRange.mpr ((Sound.mem_rmap hs).mpr hfind)
  refine ⟨⟨s.rmap.entries.erase (v, k), s.rmap.sorted.sublist List.erase_sublist⟩, if_pos hmem, ?_⟩
  have hperm := (perm_erase hs hfind).erase (v, k)
  rwa [List.erase_cons_head] at hperm

/-- The loop of `max_size` ends with the map at the limit or below it. By induction on the entries of `rmap`. -/
theorem shrink_eq (size : Nat) (s : LimitedMap K V) (hs : s.rmap.entries.Perm (s.map.entries.map Prod.swap)) :
    ∃ s', shrink size s = .ok s' ∧ s'.rmap.entries.Perm (s'.map.entries.map Prod.swap) ∧ s'.map.size ≤ size := by
  induction s using shrink.induct size with
  | case1 s hlarge hnil =>
    have hlength := hs.length_eq
    rw [hnil, List.length_map, List.length_nil] at hlength
    unfold OrderedMap.size at hlarge
    omega
  | case2 s hlarge e rest hentries ih =>
    obtain ⟨-, hrest⟩ := perm_tail hs hentries
    have htail : s.rmap.entries.tail.Perm ((s.map.erase e.2).entries.map Prod.swap) := by
      rw [hentries]
      exact hrest
    obtain ⟨s', hshrink, hs', hsize⟩ := ih htail
    refine ⟨s', ?_, hs', hsize⟩
    rw [shrink, if_pos hlarge]
    split
    · next hnil => exact absurd (hentries.symm.trans hnil) (List.cons_ne_nil _ _)
    · next e' rest' hentries' =>
      obtain ⟨rfl, -⟩ := List.cons.inj (hentries.symm.trans hentries')
      exact hshrink
  | case3 s hsmall =>
    refine ⟨s, ?_, hs, Nat.le_of_not_lt hsmall⟩
    rw [shrink, if_neg hsmall]

end Perm

section Step

variable {s s' : LimitedMap K V} {k : K} {v : V} {x : K × V} {call : Call K V}

theorem sound_new (nMaxSizeIn : Nat) : Sound (new nMaxSizeIn : LimitedMap K V) :=
  ⟨List.Perm.refl _, fun _ => Nat.zero_le _⟩

theorem insert_apart (hnew : s.map.find? x.1 = none) (hapart : s.nMaxSize = 0 ∨ s.map.size + 1 ≠ s.nMaxSize) :
    insert x s = .ok { s with map := s.map.set x.1 x.2, rmap := s.rmap.insert x.2 x.1 } := by
  have hsize : ¬(s.nMaxSize ≠ 0 ∧ (s.map.set x.1 x.2).size = s.nMaxSize) := by
    rw [size_set_of_none hnew]
    exact fun h => hapart.elim h.1 (fun hne => hne h.2)
  unfold insert
  rw [if_neg (by rw [hnew]; exact Bool.false_ne_true)]
  dsimp only
  rw [if_neg hsize]
  rfl

theorem perm_insert (hs : s.rmap.entries.Perm (s.map.entries.map Prod.swap)) (hnew : s.map.find? k = none) (v : V) :
    (s.rmap.insert v k).entries.Perm ((s.map.set k v).entries.map Prod.swap) :=
  (s.rmap.insert_perm v k).trans
    ((hs.cons (v, k)).trans ((OrderedMap.set_perm_of_none hnew).map Prod.swap).symm)

theorem insert_early (hs : Sound s) (hnew : s.map.find? x.1 = none) (hlast : s.map.size + 1 = s.nMaxSize)
    (hstep : insert x s = .ok s') : ¬EvictsLowest s s' (.insert x) := by
  have hsize : s.nMaxSize ≠ 0 ∧ (s.map.set x.1 x.2).size = s.nMaxSize := by
    rw [size_set_of_none hnew]
    exact ⟨by omega, hlast⟩
  unfold insert at hstep
  rw [if_neg (by rw [hnew]; exact Bool.false_ne_true)] at hstep
  dsimp only at hstep
  rw [if_pos hsize] at hstep
  unfold evict at hstep
  cases hentries : s.rmap.entries with
  | nil =>
    simp only [hentries] at hstep
    exact absurd hstep nofun
  | cons e rest =>
    obtain ⟨hfind, -⟩ := perm_tail hs.perm hentries
    simp only [hentries] at hstep
    obtain rfl := Except.ok.inj hstep
    intro hevicts
    rcases hevicts e.2 e.1 hfind with hkept | ⟨hfull, -⟩
    · exact absurd hkept (by rw [OrderedMap.find?_erase_self]; exact nofun)
    · omega

theorem step_iff (hs : Sound s) (call : Call K V) :
    (∃ s', step call s = .ok s' ∧ Sound s' ∧ EvictsLowest s s' call) ↔ Roomy s call := by
  cases call with
  | insert x =>
    constructor
    · rintro ⟨s', hstep, hs', hevicts⟩ hnew hlimit
      have hle := hs.limit hlimit
      by_contra hroom
      rcases Nat.lt_or_eq_of_le hle with hlt | heq
      · exact insert_early hs hnew (by omega) hstep hevicts
      · rw [step, insert_apart hnew (Or.inr (by omega)), Except.ok.injEq] at hstep
        have hlarge := hs'.limit (by rw [← hstep]; exact hlimit)
        rw [← hstep] at hlarge
        have hsize : (s.map.set x.1 x.2).size = s.map.size + 1 := size_set_of_none hnew
        have hlarge' : (s.map.set x.1 x.2).size ≤ s.nMaxSize := hlarge
        omega
    · intro hroom
      cases hfind : s.map.find? x.1 with
      | some v =>
        refine ⟨s, ?_, hs, fun k v hk => Or.inl hk⟩
        rw [step, insert, if_pos (by rw [hfind]; rfl)]
      | none =>
        have hapart : s.nMaxSize = 0 ∨ s.map.size + 1 ≠ s.nMaxSize := by
          by_cases hlimit : s.nMaxSize = 0
          · exact Or.inl hlimit
          · exact Or.inr (Nat.ne_of_lt (hroom hfind hlimit))
        refine ⟨_, insert_apart hfind hapart, ⟨perm_insert hs.perm hfind x.2, fun hlimit => ?_⟩, fun k v hk => Or.inl ?_⟩
        · show (s.map.set x.1 x.2).size ≤ s.nMaxSize
          have hlt := hroom hfind hlimit
          rw [size_set_of_none hfind]
          omega
        · have hne : k ≠ x.1 := fun heq => by
            rw [heq, hfind] at hk
            exact absurd hk nofun
          show (s.map.set x.1 x.2).find? k = some v
          rw [OrderedMap.find?_set_of_ne _ _ hne, hk]
  | erase k =>
    refine iff_of_true ?_ trivial
    cases hfind : s.map.find? k with
    | none => exact ⟨s, by rw [step, erase, hfind], hs, trivial⟩
    | some v =>
      obtain ⟨rmap, herase, hperm⟩ := eraseReverse_eq hs.perm hfind
      refine ⟨{ s with map := s.map.erase k, rmap := rmap }, ?_, ⟨hperm, fun hlimit => ?_⟩, trivial⟩
      · rw [step, erase, hfind]
        dsimp only
        rw [herase]
        rfl
      · have hle := hs.limit hlimit
        have hsize := size_erase_of_some hfind
        show (s.map.erase k).size ≤ s.nMaxSize
        omega
  | update k v =>
    refine iff_of_true ?_ trivial
    cases hfind : s.map.find? k with
    | none => exact ⟨s, by rw [step, update, hfind], hs, trivial⟩
    | some v' =>
      obtain ⟨rmap, herase, hperm⟩ := eraseReverse_eq hs.perm hfind
      have hset : (s.map.set k v).entries = ((s.map.erase k).set k v).entries := by rw [set_eq_erase_set]
      have hnone := OrderedMap.find?_erase_self s.map k
      refine ⟨{ s with map := s.map.set k v, rmap := rmap.insert v k }, ?_, ⟨?_, fun hlimit => ?_⟩, trivial⟩
      · rw [step, update, hfind]
        dsimp only
        rw [herase]
        rfl
      · show (rmap.insert v k).entries.Perm ((s.map.set k v).entries.map Prod.swap)
        rw [hset]
        exact perm_insert (s := ⟨s.map.erase k, rmap, 0⟩) hperm hnone v
      · have hle := hs.limit hlimit
        have hsize := size_erase_of_some hfind
        have hsize' : ((s.map.erase k).set k v).size = (s.map.erase k).size + 1 := size_set_of_none hnone
        show (s.map.set k v).size ≤ s.nMaxSize
        rw [set_eq_erase_set]
        omega
  | maxSize size =>
    refine iff_of_true ?_ trivial
    by_cases hzero : size = 0
    · refine ⟨{ s with nMaxSize := size }, ?_, ⟨hs.perm, fun hlimit => absurd hzero hlimit⟩, trivial⟩
      rw [step, maxSize, if_neg (not_not.mpr hzero)]
      rfl
    · obtain ⟨s', hshrink, hs', hsize⟩ := shrink_eq size s hs.perm
      refine ⟨{ s' with nMaxSize := size }, ?_, ⟨hs', fun _ => hsize⟩, trivial⟩
      rw [step, maxSize, if_pos hzero, hshrink]
      rfl

end Step

/-- A run from a new map keeps all that is promised if and only if all of its calls have room. By induction on the
calls, from every sound map. -/
theorem keeps_iff (nMaxSizeIn : Nat) (calls : List (Call K V)) :
    Keeps calls (new nMaxSizeIn) ↔ AllRoomy calls (new nMaxSizeIn) := by
  have hrun : ∀ (calls : List (Call K V)) (s : LimitedMap K V), Sound s → (Keeps calls s ↔ AllRoomy calls s) := by
    intro calls
    induction calls with
    | nil => exact fun s _ => Iff.rfl
    | cons call calls ih =>
      intro s hs
      constructor
      · rintro ⟨s', hstep, hs', hevicts, hkeeps⟩
        refine ⟨(step_iff hs call).mp ⟨s', hstep, hs', hevicts⟩, fun t ht => ?_⟩
        rw [hstep, Except.ok.injEq] at ht
        exact ht ▸ (ih s' hs').mp hkeeps
      · rintro ⟨hroom, hrest⟩
        obtain ⟨s', hstep, hs', hevicts⟩ := (step_iff hs call).mpr hroom
        exact ⟨s', hstep, hs', hevicts, (ih s' hs').mpr (hrest s' hstep)⟩
  exact hrun calls (new nMaxSizeIn) (sound_new nMaxSizeIn)

end LimitedMap

namespace Sample

open LimitedMap

/-- With a limit of one the first insertion takes the first entry of an empty `rmap`; with a limit of two the second one
evicts the entry of the first; and after `max_size` two entries become three. -/
theorem limitedMap_slips : step (.insert (7, 1)) (LimitedMap.new 1 : LimitedMap Nat Nat) = .error .emptyRmap ∧
    ((insert (7, 1) (LimitedMap.new 2 : LimitedMap Nat Nat)).bind fun s => (insert (8, 5) s).map fun s => s.map.entries)
      = .ok [(8, 5)] ∧
    ∃ s : LimitedMap Nat Nat, Sound s ∧ s.map.size = 2 ∧ s.nMaxSize = 2 ∧
      (insert (9, 9) s).map (fun s => s.map.size) = .ok 3 := by
  refine ⟨rfl, rfl, ⟨⟨[(7, 1), (8, 5)], by decide⟩, ⟨[(1, 7), (5, 8)], by decide⟩, 2⟩, ⟨?_, fun _ => le_rfl⟩, rfl, rfl, rfl⟩
  exact List.Perm.refl _

end Sample

end PupaCoin
