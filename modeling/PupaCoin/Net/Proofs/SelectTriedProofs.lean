import PupaCoin.Net.Proofs.AddrManRunProofs

/-!
# Proofs: the entry that a full tried bucket gives up

After `m` rounds the bucket is shuffled by the draws and `nOldest` is the first of the inspected entries with the least
`nLastSuccess`, but `nOldestPos` is where this entry stood before it was drawn.
-/

namespace PupaCoin.CAddrMan

open Function Shuffle

section Select

variable {am : CAddrMan} {rand : Nat → Nat} {k : Fin addrmanTriedBucketCount} {i m n : Nat}

theorem drawsAhead_tried (rand : Nat → Nat) (vTried : List Nat) :
    DrawsAhead (triedDraw rand vTried) vTried (triedRounds vTried) := by
  intro i hi
  have hlt : i < vTried.length := Nat.lt_of_lt_of_le hi (Nat.min_le_right _ _)
  have hrand : getRandInt (rand i) (vTried.length - i) < vTried.length - i := getRandInt_lt (rand i) (by omega)
  unfold triedDraw
  omega

theorem lastSuccess_of {info : CAddrInfo} (h : am.mapInfo n = some info) : am.lastSuccess n = info.nLastSuccess := by
  rw [lastSuccess, h, Option.elim_some]

theorem inspectedSuccess_of (h : inspectedTried rand (am.vvTried k) i = some n) :
    am.inspectedSuccess rand k i = am.lastSuccess n := by
  rw [inspectedSuccess, h, Option.elim_some]

theorem isOlder_eq {nOld : Nat} (hn : am.known n = true) (hold : am.known nOld = true) :
    am.isOlder CAddrInfo.nLastSuccess (some nOld) n = .ok (decide (am.lastSuccess n < am.lastSuccess nOld)) := by
  obtain ⟨info, hinfo, hmap⟩ := entry_of_known hn
  obtain ⟨infoOld, hinfoOld, hmapOld⟩ := entry_of_known hold
  rw [lastSuccess_of hmap, lastSuccess_of hmapOld]
  simp only [isOlder, hinfo, hinfoOld, Guards.ok_bind]
  rfl

theorem selectTriedStep_eq (am : CAddrMan) {vTried : List Nat} (hm : m < triedRounds vTried) (oldest : Option (Nat × Nat))
    (hn : inspectedTried rand vTried m = some n) :
    am.selectTriedStep rand (shuffled (triedDraw rand vTried) vTried m, oldest) m =
      (am.isOlder CAddrInfo.nLastSuccess (oldest.map Prod.fst) n).map fun fOlder =>
        (shuffled (triedDraw rand vTried) vTried (m + 1),
          if fOlder then some (n, triedDraw rand vTried m) else oldest) := by
  obtain ⟨hle, hlt⟩ := drawsAhead_tried rand vTried m hm
  set xs := shuffled (triedDraw rand vTried) vTried m with hxs
  have hlen : xs.length = vTried.length := length_shuffled _ _ m
  have hdraw : getRandInt (rand m) (xs.length - m) + m = triedDraw rand vTried m := by
    rw [hlen]
    rfl
  have hplt : triedDraw rand vTried m < xs.length := by omega
  have hmlt : m < xs.length := by omega
  obtain rfl : xs[triedDraw rand vTried m] = n := by
    rw [inspectedTried, drawn, ← hxs, List.getElem?_eq_getElem hplt] at hn
    exact Option.some.inj hn
  have hswap : shuffled (triedDraw rand vTried) vTried (m + 1) =
      (xs.set (triedDraw rand vTried m) xs[m]).set m xs[triedDraw rand vTried m] := swap_eq hmlt hplt
  rw [hswap]
  unfold selectTriedStep
  simp only [hdraw, List.getElem?_eq_getElem hplt, List.getElem?_eq_getElem hmlt]
  cases am.isOlder CAddrInfo.nLastSuccess (oldest.map Prod.fst) xs[triedDraw rand vTried m] <;> rfl

/-- The rounds. By induction on them: `nOldest` is the first entry with the least `nLastSuccess`, `nOldestPos` the
position that it was drawn from. -/
theorem selectTried_rounds (rand : Nat → Nat) (hknown : ∀ n ∈ am.vvTried k, am.known n = true)
    (hm : m ≤ triedRounds (am.vvTried k)) :
    ∃ oldest, (List.range m).foldlM (am.selectTriedStep rand) (am.vvTried k, none) =
        .ok (shuffled (triedDraw rand (am.vvTried k)) (am.vvTried k) m, oldest) ∧ (m = 0 → oldest = none) ∧
      (0 < m → ∃ b nOld, FirstLeast (am.inspectedSuccess rand k) m b ∧
        inspectedTried rand (am.vvTried k) b = some nOld ∧
        oldest = some (nOld, triedDraw rand (am.vvTried k) b)) := by
  induction m with
  | zero => exact ⟨none, rfl, fun _ => rfl, fun h => absurd h (Nat.lt_irrefl 0)⟩
  | succ m ih =>
    obtain ⟨oldest, hrounds, hzero, hpos⟩ := ih (Nat.le_of_succ_le hm)
    have hmlt : m < triedRounds (am.vvTried k) := hm
    obtain ⟨n, hn, hmem⟩ := exists_drawn (drawsAhead_tried rand (am.vvTried k)) hmlt
    have hstep := selectTriedStep_eq am hmlt oldest hn
    have hrun : (List.range (m + 1)).foldlM (am.selectTriedStep rand) (am.vvTried k, none) =
        (am.isOlder CAddrInfo.nLastSuccess (oldest.map Prod.fst) n).map fun fOlder =>
          (shuffled (triedDraw rand (am.vvTried k)) (am.vvTried k) (m + 1),
            if fOlder then some (n, triedDraw rand (am.vvTried k) m) else oldest) := by
      rw [List.range_succ, List.foldlM_append, hrounds, Guards.ok_bind, List.foldlM_cons, hstep]
      cases am.isOlder CAddrInfo.nLastSuccess (oldest.map Prod.fst) n <;> rfl
    rcases Nat.eq_zero_or_pos m with rfl | hm0
    · refine ⟨some (n, triedDraw rand (am.vvTried k) 0), ?_, fun h => absurd h (Nat.succ_ne_zero 0), fun _ => ?_⟩
      · rw [hrun, hzero rfl]
        rfl
      · exact ⟨0, n, FirstLeast.one _, hn, rfl⟩
    · obtain ⟨b, nOld, hleast, hold, rfl⟩ := hpos hm0
      obtain ⟨nOld', hold', hmemOld⟩ :=
        exists_drawn (drawsAhead_tried rand (am.vvTried k)) (Nat.lt_trans hleast.lt hmlt)
      obtain rfl : nOld = nOld' := Option.some.inj (hold.symm.trans hold')
      have holder : am.isOlder CAddrInfo.nLastSuccess (some nOld) n =
          .ok (decide (am.lastSuccess n < am.lastSuccess nOld)) := isOlder_eq (hknown n hmem) (hknown nOld hmemOld)
      rw [hrun, Option.map_some, holder]
      by_cases hlt : am.lastSuccess n < am.lastSuccess nOld
      · refine ⟨some (n, triedDraw rand (am.vvTried k) m), ?_, fun h => absurd h (Nat.succ_ne_zero m), fun _ => ?_⟩
        · rw [decide_eq_true hlt]
          rfl
        · refine ⟨m, n, hleast.succ_of_lt ?_, hn, rfl⟩
          rwa [inspectedSuccess_of hn, inspectedSuccess_of hold]
      · refine ⟨some (nOld, triedDraw rand (am.vvTried k) b), ?_, fun h => absurd h (Nat.succ_ne_zero m), fun _ => ?_⟩
        · rw [decide_eq_false hlt]
          rfl
        · refine ⟨b, nOld, hleast.succ_of_le ?_, hold, rfl⟩
          rw [inspectedSuccess_of hn, inspectedSuccess_of hold]
          exact not_lt.mp hlt

theorem selectTried_eq (rand : Nat → Nat) (hknown : ∀ n ∈ am.vvTried k, am.known n = true) :
    ∃ oldest, am.selectTried rand k = .ok ({ am with
        vvTried := update am.vvTried k (shuffled (triedDraw rand (am.vvTried k)) (am.vvTried k)
          (triedRounds (am.vvTried k))) }, oldest) ∧ (triedRounds (am.vvTried k) = 0 → oldest = none) ∧
      (0 < triedRounds (am.vvTried k) → ∃ b, FirstLeast (am.inspectedSuccess rand k) (triedRounds (am.vvTried k)) b ∧
        oldest = some (triedDraw rand (am.vvTried k) b)) := by
  obtain ⟨oldest, hrounds, hzero, hpos⟩ := selectTried_rounds rand hknown le_rfl
  refine ⟨oldest.map Prod.snd, ?_, fun h => ?_, fun h => ?_⟩
  · unfold selectTried
    have hrun := hrounds
    unfold triedRounds at hrun
    simp only [hrun, Guards.ok_bind]
    rfl
  · rw [hzero h, Option.map_none]
  · obtain ⟨b, nOld, hleast, -, rfl⟩ := hpos h
    exact ⟨b, hleast, rfl⟩

/-- **The oldest entry.** `SelectTried` returns the position of the oldest entry that it has inspected exactly when this
entry was drawn from the place where it goes, or from that of another one that is as old. -/
theorem selectTried_oldest_iff (am : CAddrMan) (rand : Nat → Nat) (k : Fin addrmanTriedBucketCount)
    (hknown : ∀ n ∈ am.vvTried k, am.known n = true) (hnodup : (am.vvTried k).Nodup) :
    am.SelectsOldest rand k ↔ am.OldestInPlace rand k := by
  have hahead := drawsAhead_tried rand (am.vvTried k)
  obtain ⟨oldest, hselect, hzero, hpos⟩ := selectTried_eq rand hknown
  have hrounds : ∀ {i : Nat}, i < triedRounds (am.vvTried k) → i < (am.vvTried k).length :=
    fun hi => Nat.lt_of_lt_of_le hi (Nat.min_le_right _ _)
  constructor
  · rintro ⟨am', nPos, nId, hcall, hat, ⟨i, hi, hinspected⟩, hleast⟩
    obtain ⟨b, hb, rfl⟩ := hpos (Nat.lt_of_le_of_lt (Nat.zero_le i) hi)
    rw [hselect, Except.ok.injEq, Prod.mk.injEq, Option.some.injEq] at hcall
    obtain ⟨rfl, rfl⟩ := hcall
    simp only [update_self] at hat
    refine ⟨b, hb, ?_⟩
    obtain ⟨hle, hlt⟩ := hahead b hb.lt
    -- behind the inspected entries there is none of them
    have hfront : triedDraw rand (am.vvTried k) b < triedRounds (am.vvTried k) := by
      by_contra hbehind
      exact getElem?_ne_drawn hahead hnodup (not_lt.mp hbehind) hlt hi (hat.trans hinspected.symm)
    refine Or.inr ⟨hfront, ?_⟩
    rw [getElem?_shuffled hahead hfront] at hat
    rw [inspectedSuccess_of hat]
    refine le_antisymm (hleast b hb.lt) ?_
    rw [← inspectedSuccess_of hat]
    exact hb.least _ hfront
  · rintro ⟨b, hb, hplace⟩
    obtain ⟨c, hc, rfl⟩ := hpos (Nat.lt_of_le_of_lt (Nat.zero_le b) hb.lt)
    obtain rfl := hc.unique hb
    have hfront : triedDraw rand (am.vvTried k) c < triedRounds (am.vvTried k) := by
      rcases hplace with heq | ⟨hlt, -⟩
      · rw [heq]
        exact hb.lt
      · exact hlt
    have hsame : am.inspectedSuccess rand k (triedDraw rand (am.vvTried k) c) = am.inspectedSuccess rand k c := by
      rcases hplace with heq | ⟨-, hsame⟩
      · rw [heq]
      · exact hsame
    obtain ⟨nId, hinspected, -⟩ := exists_drawn hahead hfront
    refine ⟨_, _, nId, hselect, ?_, ⟨_, hfront, hinspected⟩, fun i hi => ?_⟩
    · simp only [update_self]
      rw [getElem?_shuffled hahead hfront]
      exact hinspected
    · have hnew : am.inspectedSuccess rand k _ = am.lastSuccess nId := inspectedSuccess_of hinspected
      rw [← hnew, hsame]
      exact hb.least i hi

end Select

/-- The two entries of a tried bucket, of which the second one is older. -/
def triedInfo (n : Nat) : Option CAddrInfo :=
  match n with
  | 0 => some { CAddress.empty.toInfo 0 with ip := 1, nLastSuccess := 20, fInTried := true }
  | 1 => some { CAddress.empty.toInfo 0 with ip := 2, nLastSuccess := 10, fInTried := true }
  | _ => none

def triedBucket : Fin addrmanTriedBucketCount := ⟨0, by decide⟩

def triedPair : CAddrMan :=
  { empty with nIdCount := 2, mapInfo := triedInfo, vRandom := [0, 1], nTried := 2
               vvTried := update (fun _ => []) triedBucket [0, 1] }

theorem triedPair_known : ∀ n ∈ triedPair.vvTried triedBucket, triedPair.known n = true := by decide

/-- The older entry is drawn first, from position 1. This position is returned, where the other entry stands now. -/
theorem triedPair_selects_newer : ¬ ∀ (am : CAddrMan) (rand : Nat → Nat) (k : Fin addrmanTriedBucketCount),
    (∀ n ∈ am.vvTried k, am.known n = true) → (am.vvTried k).Nodup → am.vvTried k ≠ [] → am.SelectsOldest rand k := by
  intro hall
  obtain ⟨am', nPos, nId, hcall, hat, -, hleast⟩ :=
    hall triedPair (fun i => 1 - i) triedBucket triedPair_known (by decide) (by decide)
  have hselect : triedPair.selectTried (fun i => 1 - i) triedBucket =
      .ok ({ triedPair with vvTried := update triedPair.vvTried triedBucket [1, 0] }, some 1) := rfl
  rw [hselect, Except.ok.injEq, Prod.mk.injEq, Option.some.injEq] at hcall
  obtain ⟨rfl, rfl⟩ := hcall
  obtain rfl : 0 = nId := Option.some.inj hat
  exact absurd (hleast 0 (by decide)) (by decide)

theorem triedPair_selects_oldest : triedPair.SelectsOldest (fun _ => 0) triedBucket := by
  refine (selectTried_oldest_iff triedPair (fun _ => 0) triedBucket triedPair_known (by decide)).mpr ?_
  have hyoungest : triedPair.inspectedSuccess (fun _ => 0) triedBucket 0 = 20 := rfl
  have holdest : triedPair.inspectedSuccess (fun _ => 0) triedBucket 1 = 10 := rfl
  refine ⟨1, ⟨by decide, fun j hj => ?_, fun j hj => ?_⟩, Or.inl rfl⟩
  · have hcases : j = 0 ∨ j = 1 := by
      have : triedRounds (triedPair.vvTried triedBucket) = 2 := rfl
      omega
    rcases hcases with rfl | rfl
    · rw [hyoungest, holdest]
      decide
    · exact le_rfl
  · obtain rfl : j = 0 := by omega
    rw [hyoungest, holdest]
    decide

end PupaCoin.CAddrMan
