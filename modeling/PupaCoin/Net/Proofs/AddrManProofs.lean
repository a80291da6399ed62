import PupaCoin.Lib.Positions
import PupaCoin.Net.AddrMan
import Mathlib.Tactic.Linarith

/-!
# The invariant of the address manager

What the operations of the manager rely on between their writes: an entry may be owed a place in a bucket
that it has already been counted for, and one entry may be on its way from one table to the other.
-/

namespace PupaCoin.CAddrMan

open Function

variable {b : Fin addrmanNewBucketCount} {k : Fin addrmanTriedBucketCount}

section Views

variable {am : CAddrMan} {n : Nat} {info : CAddrInfo}

theorem known_of (h : am.mapInfo n = some info) : am.known n = true := by
  rw [known, h, Option.isSome_some]

theorem isTried_of (h : am.mapInfo n = some info) : am.isTried n = info.fInTried := by
  rw [isTried, h, Option.any_some]

theorem refs_of (h : am.mapInfo n = some info) : am.refs n = info.nRefCount := by
  rw [refs, h, Option.elim_some]

theorem addrOf_of (h : am.mapInfo n = some info) : am.addrOf n = some info.ip := by
  rw [addrOf, h, Option.map_some]

theorem posOf_of (h : am.mapInfo n = some info) : am.posOf n = some info.nRandomPos := by
  rw [posOf, h, Option.map_some]

theorem known_iff : am.known n = true ↔ ∃ info, am.mapInfo n = some info := by
  rw [known, Option.isSome_iff_exists]

theorem entry_of_some (h : am.mapInfo n = some info) : am.entry n = .ok info := by
  rw [entry, h]

theorem entry_of_known (h : am.known n = true) : ∃ info, am.entry n = .ok info ∧ am.mapInfo n = some info := by
  obtain ⟨info, hinfo⟩ := known_iff.mp h
  exact ⟨info, entry_of_some hinfo, hinfo⟩

end Views

section Edit

variable (am : CAddrMan) (n : Nat) (f : CAddrInfo → CAddrInfo)

theorem edit_mapInfo (m : Nat) : (am.edit n f).mapInfo m = if m = n then (am.mapInfo n).map f else am.mapInfo m :=
  Function.update_apply _ _ _ _

variable {am n}

theorem edit_self {info : CAddrInfo} (h : am.mapInfo n = some info) : (am.edit n f).mapInfo n = some (f info) := by
  rw [edit_mapInfo, if_pos rfl, h, Option.map_some]

theorem edit_of_ne {m : Nat} (h : m ≠ n) : (am.edit n f).mapInfo m = am.mapInfo m := by
  rw [edit_mapInfo, if_neg h]

variable (am n)

theorem edit_view {α : Type} (g : Option CAddrInfo → α) (hg : ∀ info, g (some (f info)) = g (some info)) :
    (fun m => g ((am.edit n f).mapInfo m)) = fun m => g (am.mapInfo m) := by
  funext m
  rw [edit_mapInfo]
  split_ifs with hm
  · rw [hm]
    cases am.mapInfo n with
    | none => rfl
    | some info => exact hg info
  · rfl

@[simp] theorem edit_known : (am.edit n f).known = am.known := am.edit_view n f Option.isSome fun _ => rfl

variable {f}

theorem edit_addrOf (hf : ∀ info, (f info).ip = info.ip) : (am.edit n f).addrOf = am.addrOf :=
  am.edit_view n f (Option.map fun info => info.ip) fun info => congrArg some (hf info)

theorem edit_posOf (hf : ∀ info, (f info).nRandomPos = info.nRandomPos) : (am.edit n f).posOf = am.posOf :=
  am.edit_view n f (Option.map CAddrInfo.nRandomPos) fun info => congrArg some (hf info)

theorem edit_isTried (hf : ∀ info, (f info).fInTried = info.fInTried) : (am.edit n f).isTried = am.isTried :=
  am.edit_view n f (fun entry => entry.any CAddrInfo.fInTried) hf

theorem edit_refs (hf : ∀ info, (f info).nRefCount = info.nRefCount) : (am.edit n f).refs = am.refs :=
  am.edit_view n f (fun entry => entry.elim 0 CAddrInfo.nRefCount) hf

variable {am n}

theorem edit_view_eq {α : Type} (g : Option CAddrInfo → α) {a : α} (hn : am.known n = true)
    (hg : ∀ info, am.mapInfo n = some info → g (some (f info)) = a) :
    (fun m => g ((am.edit n f).mapInfo m)) = update (fun m => g (am.mapInfo m)) n a := by
  obtain ⟨info, hinfo⟩ := known_iff.mp hn
  funext m
  by_cases hm : m = n
  · subst hm
    rw [update_self, edit_self f hinfo, hg info hinfo]
  · rw [update_of_ne hm, edit_of_ne f hm]

theorem edit_refs_eq {r : Int} (hn : am.known n = true) (hf : ∀ info, am.mapInfo n = some info →
    (f info).nRefCount = r) : (am.edit n f).refs = update am.refs n r :=
  edit_view_eq (fun entry => entry.elim 0 CAddrInfo.nRefCount) hn hf

theorem edit_isTried_eq {t : Bool} (hn : am.known n = true) (hf : ∀ info, (f info).fInTried = t) :
    (am.edit n f).isTried = update am.isTried n t :=
  edit_view_eq (fun entry => entry.any CAddrInfo.fInTried) hn fun info _ => hf info

theorem edit_posOf_eq {p : Int} (hn : am.known n = true) (hf : ∀ info, (f info).nRandomPos = p) :
    (am.edit n f).posOf = update am.posOf n (some p) :=
  edit_view_eq (Option.map CAddrInfo.nRandomPos) hn fun info _ => congrArg some (hf info)

end Edit

/-- `mapInfo`, `mapAddr` and `vRandom` agree. -/
structure Indexed (am : CAddrMan) : Prop where
  fresh : ∀ n, am.nIdCount ≤ n → am.mapInfo n = none
  addressed : ∀ a n, am.mapAddr a = some n ↔ am.addrOf n = some a
  located : Positions.Located am.posOf am.vRandom

/-- The buckets hold what the entries say. Each entry has `owed` more references than places in new
buckets, and `limbo` is in neither table. -/
structure Placed (am : CAddrMan) (owed : Nat → Int) (limbo : Option Nat) : Prop where
  inTried : ∀ n, Buckets.total (List.count n) am.vvTried = if am.isTried n then 1 else 0
  inNew : ∀ n, (am.newPlaces n : Int) + owed n = am.refs n
  triedRefs : ∀ n, am.isTried n = true → am.refs n = 0
  newRefs : ∀ n, am.known n = true → am.isTried n = false → limbo ≠ some n →
    1 ≤ am.refs n ∧ am.refs n ≤ addrmanNewBucketsPerAddress
  limboRefs : ∀ n, limbo = some n → am.known n = true ∧ am.isTried n = false ∧ am.refs n = 0
  triedSize : ∀ b, (am.vvTried b).length ≤ addrmanTriedBucketSize
  newSize : ∀ b, (am.vvNew b).card ≤ addrmanNewBucketSize
  triedCount : am.nTried = Buckets.total List.length am.vvTried

end CAddrMan

/-- The times of an entry are as `Check_` wants them. -/
def CAddrInfo.TimesOk (info : CAddrInfo) : Prop :=
  0 ≤ info.nLastTry ∧ 0 ≤ info.nLastSuccess ∧ (info.fInTried = true → info.nLastSuccess ≠ 0)

namespace CAddrMan

variable {a : CNetAddr} {info : CAddrInfo} {T : Prop}

open Function

/-- If the recorded times are positive, the times of the entries are as `Check_` wants them. -/
def Timed (T : Prop) (am : CAddrMan) : Prop := T → ∀ n info, am.mapInfo n = some info → info.TimesOk

/-- The manager between two writes. `nNew` counts `slack` entries too few. -/
structure Inv (T : Prop) (am : CAddrMan) (owed : Nat → Int) (limbo : Option Nat) (slack : Int) : Prop where
  index : Indexed am
  placed : Placed am owed limbo
  timed : Timed T am
  counted : (am.vRandom.length : Int) = am.nTried + am.nNew + slack

namespace Indexed

variable {am am' : CAddrMan} {n : Nat} {f : CAddrInfo → CAddrInfo}

theorem edit (h : Indexed am) (hip : ∀ info, (f info).ip = info.ip)
    (hpos : ∀ info, (f info).nRandomPos = info.nRandomPos) : Indexed (am.edit n f) where
  fresh := by
    intro m hm
    have hnone := h.fresh m hm
    rw [edit_mapInfo]
    split_ifs with hmn
    · rw [← hmn, hnone, Option.map_none]
    · exact hnone
  addressed := by
    rw [am.edit_addrOf n hip]
    exact h.addressed
  located := by
    rw [am.edit_posOf n hpos]
    exact h.located

theorem of_eq (h : Indexed am) (hid : am'.nIdCount = am.nIdCount) (hinfo : am'.mapInfo = am.mapInfo)
    (haddr : am'.mapAddr = am.mapAddr) (hrandom : am'.vRandom = am.vRandom) : Indexed am' where
  fresh := by
    rw [hid, hinfo]
    exact h.fresh
  addressed := by
    simp only [haddr, addrOf, hinfo]
    exact h.addressed
  located := by
    have hpos : am'.posOf = am.posOf := by
      funext m
      rw [posOf, posOf, hinfo]
    rw [hpos, hrandom]
    exact h.located

theorem find_some (h : Indexed am) (hfind : am.find a = some (n, info)) : am.mapInfo n = some info ∧ info.ip = a := by
  simp only [find, Option.bind_eq_bind, Option.bind_eq_some_iff, Option.pure_def, Option.some.injEq,
    Prod.mk.injEq] at hfind
  obtain ⟨m, hm, _, hinfo, rfl, rfl⟩ := hfind
  have haddr := (h.addressed a m).mp hm
  rw [addrOf_of hinfo, Option.some.injEq] at haddr
  exact ⟨hinfo, haddr⟩

theorem find_none (h : Indexed am) (hfind : am.find a = none) : ∀ n, am.addrOf n ≠ some a := by
  intro n hn
  have ha := (h.addressed a n).mpr hn
  rw [addrOf, Option.map_eq_some_iff] at hn
  obtain ⟨info, hinfo, -⟩ := hn
  rw [find, ha] at hfind
  simp [hinfo] at hfind

theorem lt_length (h : Indexed am) (hinfo : am.mapInfo n = some info) :
    ∃ p : Nat, info.nRandomPos = p ∧ am.vRandom[p]? = some n :=
  (h.located n info.nRandomPos).mp (posOf_of hinfo)

theorem known_of_mem (h : Indexed am) (hn : n ∈ am.vRandom) : am.known n = true := by
  obtain ⟨q, hq⟩ := h.located.mem_iff.mp hn
  rw [posOf, Option.map_eq_some_iff] at hq
  obtain ⟨info, hinfo, -⟩ := hq
  exact known_of hinfo

end Indexed

/-- The manager after a swap of two entries of `vRandom`. -/
def swapped (am : CAddrMan) (i j nId1 nId2 : Nat) : CAddrMan :=
  { (am.edit nId1 fun info => { info with nRandomPos := j }).edit nId2
      fun info => { info with nRandomPos := i } with
    vRandom := (am.vRandom.set i nId2).set j nId1 }

section Swap

variable {am : CAddrMan} {i j m n : Nat}

theorem Indexed.swapped (h : Indexed am) (hm : am.vRandom[i]? = some m) (hn : am.vRandom[j]? = some n) (hij : i ≠ j)
    : Indexed (am.swapped i j m n) where
  fresh := by
    intro k hk
    have hnone := h.fresh k hk
    have hkm : k ≠ m := by
      rintro rfl
      have := h.known_of_mem (List.mem_of_getElem? hm)
      rw [known, hnone] at this
      exact absurd this (by simp)
    have hkn : k ≠ n := by
      rintro rfl
      have := h.known_of_mem (List.mem_of_getElem? hn)
      rw [known, hnone] at this
      exact absurd this (by simp)
    show ((am.edit m _).edit n _).mapInfo k = none
    rw [edit_of_ne _ hkn, edit_of_ne _ hkm, hnone]
  addressed := by
    have haddr : (am.swapped i j m n).addrOf = am.addrOf := by
      show ((am.edit m _).edit n _).addrOf = am.addrOf
      rw [edit_addrOf _ _ (by simp), edit_addrOf _ _ (by simp)]
    rw [haddr]
    exact h.addressed
  located := by
    have hknown : (am.edit m fun info => { info with nRandomPos := j }).known n = true := by
      rw [edit_known]
      exact h.known_of_mem (List.mem_of_getElem? hn)
    have hpos : (am.swapped i j m n).posOf = update (update am.posOf m (some (j : Int))) n (some (i : Int)) := by
      have hfirst : (am.edit m fun info => { info with nRandomPos := j }).posOf
          = update am.posOf m (some (j : Int)) :=
        edit_posOf_eq (h.known_of_mem (List.mem_of_getElem? hm)) fun _ => rfl
      rw [← hfirst]
      exact edit_posOf_eq hknown fun _ => rfl
    rw [hpos]
    exact h.located.swap hm hn hij

/-- `SwapRandom` exchanges two ids and both positions, and nothing where they are the same. -/
theorem Indexed.swapRandom_eq (h : Indexed am) (hm : am.vRandom[i]? = some m) (hn : am.vRandom[j]? = some n) :
    am.swapRandom i j = .ok (if i = j then am else am.swapped i j m n) := by
  rw [swapRandom]
  split_ifs with hij
  · rfl
  · obtain ⟨info1, he1, -⟩ := entry_of_known (h.known_of_mem (List.mem_of_getElem? hm))
    obtain ⟨info2, he2, -⟩ := entry_of_known (h.known_of_mem (List.mem_of_getElem? hn))
    simp only [hm, hn, he1, he2]
    rfl

end Swap

/-- The tables and what they depend on are the same, and every entry is but for its position. -/
structure SameTables (am am' : CAddrMan) : Prop where
  known : am'.known = am.known
  isTried : am'.isTried = am.isTried
  refs : am'.refs = am.refs
  vvTried : am'.vvTried = am.vvTried
  vvNew : am'.vvNew = am.vvNew
  nTried : am'.nTried = am.nTried
  nNew : am'.nNew = am.nNew
  length : am'.vRandom.length = am.vRandom.length
  addrOf : am'.addrOf = am.addrOf

theorem Timed.edit {am : CAddrMan} {n : Nat} {f : CAddrInfo → CAddrInfo} (h : Timed T am)
    (hf : T → ∀ info, am.mapInfo n = some info → info.TimesOk → (f info).TimesOk) : Timed T (am.edit n f) := by
  intro hT m info hinfo
  rw [edit_mapInfo] at hinfo
  split_ifs at hinfo with hmn
  · rw [Option.map_eq_some_iff] at hinfo
    obtain ⟨info', hinfo', rfl⟩ := hinfo
    exact hf hT info' hinfo' (h hT n info' hinfo')
  · exact h hT m info hinfo

section Swap

variable {am : CAddrMan} {i j m n : Nat}

theorem SameTables.refl (am : CAddrMan) : SameTables am am :=
  ⟨rfl, rfl, rfl, rfl, rfl, rfl, rfl, rfl, rfl⟩

theorem SameTables.swapped : SameTables am (am.swapped i j m n) where
  known := by
    show ((am.edit m _).edit n _).known = am.known
    rw [edit_known, edit_known]
  isTried := by
    show ((am.edit m _).edit n _).isTried = am.isTried
    rw [edit_isTried _ _ (by simp), edit_isTried _ _ (by simp)]
  refs := by
    show ((am.edit m _).edit n _).refs = am.refs
    rw [edit_refs _ _ (by simp), edit_refs _ _ (by simp)]
  vvTried := rfl
  vvNew := rfl
  nTried := rfl
  nNew := rfl
  length := by
    show ((am.vRandom.set i n).set j m).length = am.vRandom.length
    rw [List.length_set, List.length_set]
  addrOf := by
    show ((am.edit m _).edit n _).addrOf = am.addrOf
    rw [edit_addrOf _ _ (by simp), edit_addrOf _ _ (by simp)]

theorem Timed.swapped (h : Timed T am) : Timed T (am.swapped i j m n) := by
  have hedit : Timed T (am.edit m fun info => { info with nRandomPos := (j : Int) }) :=
    h.edit fun _ _ _ hok => hok
  intro hT k info hinfo
  exact hedit.edit (n := n) (f := fun info => { info with nRandomPos := (i : Int) })
    (fun _ _ _ hok => hok) hT k info hinfo

theorem Indexed.swapRandom (h : Indexed am) (hi : i < am.vRandom.length) (hj : j < am.vRandom.length) :
    ∃ am', am.swapRandom i j = .ok am' ∧ Indexed am' ∧ SameTables am am'
      ∧ (∀ T, Timed T am → Timed T am') ∧ am'.vRandom[j]? = am.vRandom[i]? := by
  have hm := List.getElem?_eq_getElem hi
  have hn := List.getElem?_eq_getElem hj
  refine ⟨_, h.swapRandom_eq hm hn, ?_⟩
  split_ifs with hij
  · exact ⟨h, SameTables.refl am, fun _ ht => ht, by rw [hij]⟩
  · refine ⟨h.swapped hm hn hij, SameTables.swapped, fun _ ht => ht.swapped, ?_⟩
    show ((am.vRandom.set i _).set j _)[j]? = am.vRandom[i]?
    rw [List.getElem?_set_self (by rw [List.length_set]; exact hj), hm]

end Swap

def owedNone : Nat → Int := fun _ => 0

/-- The entry `n` is owed one place. -/
def owedTo (n : Nat) : Nat → Int := fun m => if m = n then 1 else 0

namespace Placed

variable {am am' : CAddrMan} {owed : Nat → Int} {limbo : Option Nat} {m n : Nat}

theorem of_same (h : Placed am owed limbo) (hs : SameTables am am') : Placed am' owed limbo where
  inTried := by
    rw [hs.isTried, hs.vvTried]
    exact h.inTried
  inNew := by
    simp only [newPlaces, hs.vvNew, hs.refs]
    exact h.inNew
  triedRefs := by
    rw [hs.isTried, hs.refs]
    exact h.triedRefs
  newRefs := by
    rw [hs.known, hs.isTried, hs.refs]
    exact h.newRefs
  limboRefs := by
    rw [hs.known, hs.isTried, hs.refs]
    exact h.limboRefs
  triedSize := by
    rw [hs.vvTried]
    exact h.triedSize
  newSize := by
    rw [hs.vvNew]
    exact h.newSize
  triedCount := by
    rw [hs.nTried, hs.vvTried]
    exact h.triedCount

theorem of_mem_new (h : Placed am owed limbo) (hm : m ∈ am.vvNew b)
    (howed : 0 ≤ owed m) : am.known m = true ∧ am.isTried m = false ∧ 1 ≤ am.refs m := by
  have hpos : 0 < am.newPlaces m := Buckets.places_pos hm
  have href := h.inNew m
  have hrefs : 1 ≤ am.refs m := by omega
  refine ⟨?_, ?_, hrefs⟩
  · by_contra hunknown
    rw [known, Bool.not_eq_true, Option.isSome_eq_false_iff, Option.isNone_iff_eq_none] at hunknown
    rw [refs, hunknown, Option.elim_none] at hrefs
    omega
  · by_contra htried
    have := h.triedRefs m (by simpa using htried)
    omega

theorem isTried_of_mem (h : Placed am owed limbo) {b : Fin addrmanTriedBucketCount} (hm : m ∈ am.vvTried b) :
    am.isTried m = true := by
  have hpos : 0 < (am.vvTried b).count m := List.count_pos_iff.mpr hm
  have hle := Buckets.le_total (List.count m) am.vvTried b
  have htried := h.inTried m
  by_contra hnot
  rw [if_neg hnot] at htried
  omega

theorem known_of_isTried (ht : am.isTried m = true) : am.known m = true := by
  rw [isTried, Option.any_eq_true] at ht
  obtain ⟨info, hinfo, -⟩ := ht
  exact known_of hinfo

theorem refs_nonneg (h : Placed am owedNone limbo) : 0 ≤ am.refs n := by
  have := h.inNew n
  rw [owedNone] at this
  omega

theorem notMem_new (h : Placed am owedNone limbo) (hrefs : am.refs n = 0) : ∀ b, n ∉ am.vvNew b := by
  have := h.inNew n
  rw [owedNone, hrefs] at this
  exact Buckets.places_eq_zero.mp (by unfold newPlaces at this; omega)

theorem triedRefs_of_update (h : Placed am owed limbo) (htried : am.isTried n = false) (hisTried : am'.isTried = am.isTried)
    {k : Int} (hrefs : am'.refs = update am.refs n k) : ∀ m, am'.isTried m = true → am'.refs m = 0 := by
  intro m hm
  rw [hisTried] at hm
  have hmn : m ≠ n := by
    rintro rfl
    rw [htried] at hm
    exact absurd hm Bool.false_ne_true
  rw [hrefs, update_of_ne hmn]
  exact h.triedRefs m hm

/-- `Add_` counts a place that the entry does not stand in yet. -/
theorem increment (h : Placed am owedNone limbo) (hlimbo : limbo = none ∨ limbo = some n) (hknown : am.known n = true)
    (htried : am.isTried n = false) (hmax : am.refs n < addrmanNewBucketsPerAddress) :
    Placed (am.edit n fun info => { info with nRefCount := info.nRefCount + 1 }) (owedTo n) none := by
  have hisTried := am.edit_isTried n (f := fun info => { info with nRefCount := info.nRefCount + 1 })
    fun _ => rfl
  have hrefs : (am.edit n fun info => { info with nRefCount := info.nRefCount + 1 }).refs
      = update am.refs n (am.refs n + 1) :=
    edit_refs_eq hknown fun info hinfo => by rw [refs_of hinfo]
  have hnonneg := h.refs_nonneg (n := n)
  refine ⟨?_, ?_, ?_, ?_, by simp, h.triedSize, h.newSize, h.triedCount⟩
  · rw [hisTried]
    exact h.inTried
  · intro m
    have hnew := h.inNew m
    rw [hrefs, update_apply, owedTo]
    show ((am.newPlaces m : Nat) : Int) + _ = _
    rw [owedNone] at hnew
    split_ifs with hm
    · subst hm
      omega
    · exact hnew
  · exact h.triedRefs_of_update htried hisTried hrefs
  · intro m hkm htm _
    rw [edit_known] at hkm
    rw [hisTried] at htm
    rw [hrefs, update_apply]
    split_ifs with hm
    · omega
    · refine h.newRefs m hkm htm ?_
      rcases hlimbo with rfl | rfl
      · simp
      · simpa using fun h => hm h.symm

/-- `ShrinkNew` takes an entry out of one bucket and counts it down. -/
theorem remove (h : Placed am owed none) (hn : n ∈ am.vvNew b) (howed : owed n = 0)
    (hrefs : am'.refs = update am.refs n (am.refs n - 1)) (hisTried : am'.isTried = am.isTried)
    (hknown : ∀ m, am'.known m = true → am.known m = true ∧ (m = n → am.refs n ≠ 1))
    (hvvTried : am'.vvTried = am.vvTried) (hnTried : am'.nTried = am.nTried)
    (hvvNew : am'.vvNew = update am.vvNew b ((am.vvNew b).erase n)) : Placed am' owed none := by
  obtain ⟨-, htried, hpos⟩ := h.of_mem_new hn (le_of_eq howed.symm)
  refine ⟨?_, ?_, ?_, ?_, by simp, ?_, ?_, ?_⟩
  · rw [hisTried, hvvTried]
    exact h.inTried
  · intro m
    have hnew := h.inNew m
    rw [newPlaces, hvvNew, hrefs, update_apply]
    split_ifs with hm
    · subst hm
      have := Buckets.places_erase_self hn
      unfold newPlaces at hnew
      omega
    · rw [Buckets.places_erase_of_ne hm]
      exact hnew
  · exact h.triedRefs_of_update htried hisTried hrefs
  · intro m hkm htm _
    rw [hisTried] at htm
    obtain ⟨hk, hne⟩ := hknown m hkm
    have hbounds := h.newRefs m hk htm (by simp)
    rw [hrefs, update_apply]
    split_ifs with hm
    · subst hm
      have := hne rfl
      omega
    · exact hbounds
  · rw [hvvTried]
    exact h.triedSize
  · intro c
    rw [hvvNew, update_apply]
    split_ifs with hc
    · exact le_trans (Finset.card_erase_le) (h.newSize b)
    · exact h.newSize c
  · rw [hnTried, hvvTried]
    exact h.triedCount

/-- The entry goes into the bucket that was counted for it. -/
theorem insert (h : Placed am (owedTo n) none) (hn : n ∉ am.vvNew b)
    (hcard : (am.vvNew b).card < addrmanNewBucketSize) :
    Placed { am with vvNew := update am.vvNew b (Insert.insert n (am.vvNew b)) } owedNone none := by
  refine ⟨h.inTried, ?_, h.triedRefs, h.newRefs, by simp, h.triedSize, ?_, h.triedCount⟩
  · intro m
    have hnew := h.inNew m
    rw [owedTo] at hnew
    show ((Buckets.places m (update am.vvNew b (Insert.insert n (am.vvNew b))) : Nat) : Int) + 0 = am.refs m
    by_cases hm : m = n
    · subst hm
      rw [if_pos rfl] at hnew
      rw [Buckets.places_insert_self hn]
      unfold newPlaces at hnew
      omega
    · rw [if_neg hm] at hnew
      rw [Buckets.places_insert_of_ne hm]
      exact hnew
  · intro c
    show (update am.vvNew b (Insert.insert n (am.vvNew b)) c).card ≤ addrmanNewBucketSize
    rw [update_apply]
    split_ifs with hc
    · rw [Finset.card_insert_of_notMem hn]
      omega
    · exact h.newSize c

/-- `MakeTried` takes an entry out of all its new buckets: it is in limbo. -/
theorem unlink (h : Placed am owedNone none) (hknown : am.known n = true) (htried : am.isTried n = false)
    (hrefs : am'.refs = update am.refs n 0) (hisTried : am'.isTried = am.isTried)
    (hknown' : am'.known = am.known) (hvvTried : am'.vvTried = am.vvTried) (hnTried : am'.nTried = am.nTried)
    (hvvNew : am'.vvNew = fun b => (am.vvNew b).erase n) : Placed am' owedNone (some n) := by
  refine ⟨?_, ?_, ?_, ?_, ?_, ?_, ?_, ?_⟩
  · rw [hisTried, hvvTried]
    exact h.inTried
  · intro m
    have hnew := h.inNew m
    rw [newPlaces, hvvNew, hrefs, update_apply, Buckets.places_eraseAll]
    split_ifs with hm
    · rfl
    · exact hnew
  · intro m hm
    rw [hisTried] at hm
    rw [hrefs, update_apply]
    split_ifs
    · rfl
    · exact h.triedRefs m hm
  · intro m hkm htm hlimbo
    rw [hknown'] at hkm
    rw [hisTried] at htm
    rw [hrefs, update_of_ne (by rintro rfl; exact hlimbo rfl)]
    exact h.newRefs m hkm htm (by simp)
  · rintro m ⟨⟩
    rw [hknown', hisTried, hrefs, update_self]
    exact ⟨hknown, htried, rfl⟩
  · rw [hvvTried]
    exact h.triedSize
  · intro c
    rw [hvvNew]
    exact le_trans Finset.card_erase_le (h.newSize c)
  · rw [hnTried, hvvTried]
    exact h.triedCount

/-- The entry in limbo goes to the end of a tried bucket. -/
theorem append (h : Placed am owedNone (some n))
    (hlen : (am.vvTried k).length < addrmanTriedBucketSize)
    (hrefs : am'.refs = am.refs) (hisTried : am'.isTried = update am.isTried n true)
    (hknown : am'.known = am.known) (hvvTried : am'.vvTried = update am.vvTried k (am.vvTried k ++ [n]))
    (hnTried : am'.nTried = am.nTried + 1) (hvvNew : am'.vvNew = am.vvNew) : Placed am' owedNone none := by
  obtain ⟨-, htried, hzero⟩ := h.limboRefs n rfl
  refine ⟨?_, ?_, ?_, ?_, by simp, ?_, ?_, ?_⟩
  · intro m
    have htotal := Buckets.total_update (List.count m) am.vvTried k (am.vvTried k ++ [n])
    have hold := h.inTried m
    rw [List.count_append, List.count_singleton] at htotal
    rw [hvvTried, hisTried, update_apply]
    by_cases hm : m = n
    · subst hm
      simp only [htried, if_false, Bool.false_eq_true, beq_self_eq_true, if_true] at hold htotal ⊢
      omega
    · have hmn : (n == m) = false := by simpa using fun h => hm h.symm
      rw [hmn, if_neg (by simp)] at htotal
      rw [if_neg hm]
      omega
  · simp only [newPlaces, hvvNew, hrefs]
    exact h.inNew
  · intro m hm
    rw [hisTried, update_apply] at hm
    rw [hrefs]
    split_ifs at hm with hmn
    · rw [hmn, hzero]
    · exact h.triedRefs m hm
  · intro m hkm htm _
    rw [hisTried, update_apply] at htm
    split_ifs at htm with hmn
    rw [hknown] at hkm
    rw [hrefs]
    exact h.newRefs m hkm htm (by simpa using fun h => hmn h.symm)
  · intro c
    rw [hvvTried, update_apply]
    split_ifs with hc
    · rw [List.length_append, List.length_singleton]
      exact hlen
    · exact h.triedSize c
  · rw [hvvNew]
    exact h.newSize
  · have htotal := Buckets.total_update List.length am.vvTried k (am.vvTried k ++ [n])
    have hold := h.triedCount
    rw [List.length_append, List.length_singleton] at htotal
    rw [hnTried, hvvTried]
    omega

/-- `SelectTried` only changes the order of a bucket. -/
theorem permute (h : Placed am owed limbo) {xs : List Nat}
    (hperm : xs.Perm (am.vvTried k)) : Placed { am with vvTried := update am.vvTried k xs } owed limbo := by
  refine ⟨?_, h.inNew, h.triedRefs, h.newRefs, h.limboRefs, ?_, h.newSize, ?_⟩
  · intro m
    show Buckets.total (List.count m) (update am.vvTried k xs) = _
    rw [Buckets.total_update_eq (hperm.count_eq m)]
    exact h.inTried m
  · intro c
    show (update am.vvTried k xs c).length ≤ addrmanTriedBucketSize
    rw [update_apply]
    split_ifs with hc
    · rw [hperm.length_eq]
      exact h.triedSize k
    · exact h.triedSize c
  · show am.nTried = Buckets.total List.length (update am.vvTried k xs)
    rw [Buckets.total_update_eq hperm.length_eq]
    exact h.triedCount

/-- The entry in limbo takes the place of a tried one, which goes into a new bucket. -/
theorem exchange (h : Placed am owedNone (some n)) {p nOld : Nat}
    {t : Fin addrmanNewBucketCount} (hp : (am.vvTried k)[p]? = some nOld)
    (hcard : (am.vvNew t).card < addrmanNewBucketSize) (hrefs : am'.refs = update am.refs nOld 1)
    (hisTried : am'.isTried = update (update am.isTried nOld false) n true)
    (hknown : am'.known = am.known) (hvvTried : am'.vvTried = update am.vvTried k ((am.vvTried k).set p n))
    (hnTried : am'.nTried = am.nTried)
    (hvvNew : am'.vvNew = update am.vvNew t (Insert.insert nOld (am.vvNew t))) : Placed am' owedNone none := by
  obtain ⟨-, htried, hzero⟩ := h.limboRefs n rfl
  obtain ⟨hlt, hget⟩ := List.getElem?_eq_some_iff.mp hp
  have holdTried : am.isTried nOld = true := h.isTried_of_mem (List.mem_of_getElem? hp)
  have hne : n ≠ nOld := by
    rintro rfl
    rw [htried] at holdTried
    exact absurd holdTried (by simp)
  have holdNew : nOld ∉ am.vvNew t := h.notMem_new (h.triedRefs nOld holdTried) t
  refine ⟨?_, ?_, ?_, ?_, by simp, ?_, ?_, ?_⟩
  · intro m
    have htotal := Buckets.total_update (List.count m) am.vvTried k ((am.vvTried k).set p n)
    have hold := h.inTried m
    rw [List.count_set hlt, hget] at htotal
    rw [hvvTried, hisTried, update_apply, update_apply]
    have hmem : m = nOld → 0 < (am.vvTried k).count m := by
      rintro rfl
      exact List.count_pos_iff.mpr (List.mem_of_getElem? hp)
    by_cases hm : m = n
    · subst hm
      have hmOld : (nOld == m) = false := by simpa using fun h => hne h.symm
      simp only [hmOld, htried, if_true, beq_self_eq_true, if_false, Bool.false_eq_true] at hold htotal ⊢
      omega
    · have hmn : (n == m) = false := by simpa using fun h => hm h.symm
      by_cases hmo : m = nOld
      · subst hmo
        have := hmem rfl
        simp only [hmn, hm, holdTried, if_true, beq_self_eq_true, if_false, Bool.false_eq_true]
          at hold htotal ⊢
        omega
      · have hom : (nOld == m) = false := by simpa using fun h => hmo h.symm
        simp only [hmn, hm, hom, hmo, if_false, Bool.false_eq_true] at htotal ⊢
        omega
  · intro m
    have hnew := h.inNew m
    rw [newPlaces, hvvNew, hrefs, update_apply]
    split_ifs with hm
    · subst hm
      rw [Buckets.places_insert_self holdNew]
      rw [h.triedRefs m holdTried] at hnew
      unfold newPlaces at hnew
      omega
    · rw [Buckets.places_insert_of_ne hm]
      exact hnew
  · intro m hm
    rw [hisTried, update_apply, update_apply] at hm
    rw [hrefs]
    split_ifs at hm with hmn hmo
    · rw [hmn, update_of_ne hne, hzero]
    · rw [update_of_ne hmo]
      exact h.triedRefs m hm
  · intro m hkm htm _
    rw [hisTried, update_apply, update_apply] at htm
    rw [hknown] at hkm
    rw [hrefs, update_apply]
    by_cases hmn : m = n
    · rw [if_pos hmn] at htm
      exact absurd htm (by simp)
    · split_ifs at htm ⊢ with hmo
      · exact ⟨le_refl _, by decide⟩
      · exact h.newRefs m hkm htm (by simpa using fun h => hmn h.symm)
  · intro c
    rw [hvvTried, update_apply]
    split_ifs with hc
    · rw [List.length_set]
      exact h.triedSize k
    · exact h.triedSize c
  · intro c
    rw [hvvNew, update_apply]
    split_ifs with hc
    · rw [Finset.card_insert_of_notMem holdNew]
      omega
    · exact h.newSize c
  · rw [hnTried, hvvTried, Buckets.total_update_eq (List.length_set ..)]
    exact h.triedCount

end Placed

end PupaCoin.CAddrMan
