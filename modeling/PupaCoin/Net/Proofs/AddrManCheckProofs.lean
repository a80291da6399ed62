import PupaCoin.Net.Proofs.AddrManRunProofs

/-!
# The consistency check of the address manager

`Check_` finds nothing wrong with a manager that has the invariant, in every state that a run of the manager
reaches.
-/

namespace PupaCoin.CAddrMan

variable {p : CAddrInfo → Bool} {xs : List Nat} {S : Finset Nat} {f : Nat → Int} {err : Int} {env : AddrManEnv}

open Function Guards

section Counting

variable {T : Prop} {am : CAddrMan} {n : Nat}

theorem mem_ids_iff (hfresh : ∀ n, am.nIdCount ≤ n → am.mapInfo n = none) :
    n ∈ am.ids p ↔ ∃ info, am.mapInfo n = some info ∧ p info = true := by
  rw [ids, List.mem_filter, List.mem_range, Option.any_eq_true]
  constructor
  · exact fun hn => hn.2
  · rintro ⟨info, hinfo, hp⟩
    refine ⟨?_, info, hinfo, hp⟩
    by_contra hge
    rw [hfresh n (Nat.le_of_not_lt hge)] at hinfo
    exact nomatch hinfo

theorem mem_ids (h : Indexed am) :
    n ∈ am.ids p ↔ ∃ info, am.mapInfo n = some info ∧ p info = true := mem_ids_iff h.fresh

theorem nodup_ids (p : CAddrInfo → Bool) : (am.ids p).Nodup := List.nodup_range.filter _

theorem isTried_iff : am.isTried n = true ↔ ∃ info, am.mapInfo n = some info ∧ info.fInTried = true := by
  rw [isTried, Option.any_eq_true]

theorem count_flatMap_new : ((List.finRange addrmanNewBucketCount).flatMap fun b => (am.vvNew b).sort (· ≤ ·)).count n
    = am.newPlaces n := by
  rw [newPlaces, Buckets.places, Buckets.total, Fin.sum_univ_def, List.count_flatMap]
  congr 1
  refine List.map_congr_left fun b _ => ?_
  show List.count n ((am.vvNew b).sort (· ≤ ·)) = _
  rw [(Finset.sort_nodup (am.vvNew b) (· ≤ ·)).count]
  simp only [Finset.mem_sort]

theorem count_flatMap_tried : ((List.finRange addrmanTriedBucketCount).flatMap am.vvTried).count n
    = Buckets.total (List.count n) am.vvTried := by
  rw [Buckets.total, Fin.sum_univ_def, List.count_flatMap]
  rfl

theorem count_tried (h : Inv T am owedNone none 0) :
    ((List.finRange addrmanTriedBucketCount).flatMap am.vvTried).count n
      = if n ∈ am.ids CAddrInfo.fInTried then 1 else 0 := by
  rw [count_flatMap_tried, h.placed.inTried n]
  simp only [mem_ids h.index, isTried_iff]

theorem length_ids_tried (h : Inv T am owedNone none 0) : ((am.ids CAddrInfo.fInTried).length : Int) = am.nTried := by
  have hperm : ((List.finRange addrmanTriedBucketCount).flatMap am.vvTried).Perm (am.ids CAddrInfo.fInTried) := by
    rw [List.perm_iff_count]
    intro m
    rw [count_tried h, (nodup_ids CAddrInfo.fInTried).count]
  have hlen := hperm.length_eq
  rw [List.length_flatMap] at hlen
  rw [h.placed.triedCount, Buckets.total, Fin.sum_univ_def, ← hlen]

theorem length_ids_new (h : Inv T am owedNone none 0) :
    ((am.ids fun info => !info.fInTried).length : Int) = am.nNew := by
  have hperm : am.vRandom.Perm (am.ids fun _ => true) := by
    rw [List.perm_ext_iff_of_nodup h.index.located.nodup (nodup_ids _)]
    intro m
    rw [mem_ids h.index, h.index.located.mem_iff]
    simp only [posOf, Option.map_eq_some_iff, and_true]
    constructor
    · rintro ⟨_, info, hinfo, -⟩
      exact ⟨info, hinfo⟩
    · rintro ⟨info, hinfo⟩
      exact ⟨_, info, hinfo, rfl⟩
  have hsplit := List.length_eq_length_filter_add (l := am.ids fun _ => true) am.isTried
  have htried : (am.ids fun _ => true).filter am.isTried = am.ids CAddrInfo.fInTried := by
    rw [ids, List.filter_filter, ids]
    refine List.filter_congr fun m _ => ?_
    rw [isTried]
    cases am.mapInfo m <;> simp
  have hnew : ((am.ids fun _ => true).filter fun m => !am.isTried m) = am.ids fun info => !info.fInTried := by
    rw [ids, List.filter_filter, ids]
    refine List.filter_congr fun m _ => ?_
    rw [isTried]
    cases am.mapInfo m <;> simp
  rw [htried, hnew] at hsplit
  have hlen := hperm.length_eq
  have htriedLen := length_ids_tried h
  have hcounted := h.counted
  omega

end Counting

theorem checkTried_ok (h : ∀ n, xs.count n = if n ∈ S then 1 else 0) : checkTried xs S = .ok ∅ := by
  induction xs generalizing S with
  | nil =>
    have hempty : S = ∅ := by
      rw [Finset.eq_empty_iff_forall_notMem]
      intro n hn
      have := h n
      rw [if_pos hn] at this
      simp at this
    rw [checkTried, hempty]
  | cons m xs ih =>
    have hm : m ∈ S := by
      by_contra hnot
      have := h m
      rw [if_neg hnot, List.count_cons_self] at this
      omega
    rw [checkTried, if_neg (not_not.mpr hm)]
    refine ih fun n => ?_
    have hn := h n
    rw [List.count_cons] at hn
    by_cases hmn : m = n
    · subst hmn
      rw [beq_self_eq_true, if_pos rfl, if_pos hm] at hn
      rw [if_neg (Finset.notMem_erase m S)]
      omega
    · rw [if_neg (by simpa using hmn)] at hn
      simp only [Finset.mem_erase, ne_eq, Ne.symm hmn, not_false_eq_true, true_and]
      exact hn

theorem checkNew_ok (h : ∀ n, (xs.count n : Int) = f n) : checkNew xs f = .ok fun _ => 0 := by
  induction xs generalizing f with
  | nil =>
    rw [checkNew]
    congr 1
    funext n
    have := h n
    rw [List.count_nil] at this
    exact this.symm
  | cons m xs ih =>
    have hm : f m ≠ 0 := by
      have := h m
      rw [List.count_cons_self] at this
      omega
    rw [checkNew, if_neg hm]
    refine ih fun n => ?_
    have hn := h n
    rw [List.count_cons] at hn
    rw [update_apply]
    by_cases hmn : m = n
    · subst hmn
      rw [beq_self_eq_true, if_pos rfl] at hn
      rw [if_pos rfl]
      omega
    · rw [if_neg (by simpa using hmn)] at hn
      rw [if_neg (Ne.symm hmn)]
      exact hn

theorem checkTried_error (h : checkTried xs S = .error err) : err = -11 := by
  induction xs generalizing S with
  | nil => exact nomatch h
  | cons m xs ih =>
    rw [checkTried] at h
    split_ifs at h
    · exact ih h
    · exact (Except.error.inj h).symm

theorem checkNew_error (h : checkNew xs f = .error err) : err = -12 := by
  induction xs generalizing f with
  | nil => exact nomatch h
  | cons m xs ih =>
    rw [checkNew] at h
    split_ifs at h
    · exact (Except.error.inj h).symm
    · exact ih h

theorem count_of_checkTried {S' : Finset Nat} (h : checkTried xs S = .ok S') (hempty : S' = ∅) :
    ∀ n, xs.count n = if n ∈ S then 1 else 0 := by
  induction xs generalizing S with
  | nil =>
    intro n
    rw [checkTried] at h
    rw [Except.ok.inj h, hempty, if_neg (Finset.notMem_empty n), List.count_nil]
  | cons m xs ih =>
    intro n
    rw [checkTried] at h
    split_ifs at h with hm
    have hn := ih h n
    rw [List.count_cons, hn]
    simp only [Finset.mem_erase]
    by_cases hmn : m = n
    · subst hmn
      simp [hm]
    · simp [hmn, Ne.symm hmn]

theorem count_of_checkNew {f' : Nat → Int} (h : checkNew xs f = .ok f') (hpos : ∀ n, 0 ≤ f n) :
    ∀ n, (xs.count n : Int) + f' n = f n ∧ 0 ≤ f' n := by
  induction xs generalizing f with
  | nil =>
    intro n
    rw [checkNew] at h
    rw [← Except.ok.inj h, List.count_nil]
    exact ⟨zero_add _, hpos n⟩
  | cons m xs ih =>
    intro n
    rw [checkNew] at h
    split_ifs at h with hm
    have hpos' : ∀ k, 0 ≤ update f m (f m - 1) k := by
      intro k
      rw [update_apply]
      split_ifs with hk
      · have := hpos m
        omega
      · exact hpos k
    obtain ⟨hcount, hleft⟩ := ih h hpos' n
    rw [update_apply] at hcount
    rw [List.count_cons]
    by_cases hmn : m = n
    · subst hmn
      rw [if_pos rfl] at hcount
      rw [beq_self_eq_true, if_pos rfl]
      push_cast
      exact ⟨by omega, hleft⟩
    · rw [if_neg (Ne.symm hmn)] at hcount
      rw [if_neg (by simpa using hmn)]
      exact ⟨by omega, hleft⟩

theorem checkTried_iff :
    (∃ S', checkTried xs S = .ok S' ∧ S'.card = 0) ↔ ∀ n, xs.count n = if n ∈ S then 1 else 0 := by
  constructor
  · rintro ⟨S', h, hcard⟩
    exact count_of_checkTried h (Finset.card_eq_zero.mp hcard)
  · intro h
    exact ⟨∅, checkTried_ok h, Finset.card_empty⟩

theorem checkNew_iff {ids : List Nat} (hpos : ∀ n, 0 ≤ f n) (hids : ∀ n, n ∉ ids → f n = 0) :
    (∃ f', checkNew xs f = .ok f' ∧ (ids.filter fun n => decide (f' n ≠ 0)).length = 0) ↔
      ∀ n, (xs.count n : Int) = f n := by
  constructor
  · rintro ⟨f', h, hzero⟩ n
    obtain ⟨hcount, hleft⟩ := count_of_checkNew h hpos n
    by_cases hn : n ∈ ids
    · have hnone := List.filter_eq_nil_iff.mp (List.eq_nil_of_length_eq_zero hzero) n hn
      have hzero : f' n = 0 := by simpa using hnone
      omega
    · have hzero := hids n hn
      omega
  · intro h
    exact ⟨_, checkNew_ok h, by simp⟩

/-- The checks of `Check_` on one entry. -/
structure EntryOk (am : CAddrMan) (n : Nat) (info : CAddrInfo) : Prop where
  success : info.fInTried = true → info.nLastSuccess ≠ 0
  triedRefs : info.fInTried = true → info.nRefCount = 0
  newRefs : info.fInTried = false → 1 ≤ info.nRefCount ∧ info.nRefCount ≤ addrmanNewBucketsPerAddress
  addressed : (am.mapAddr info.ip).getD 0 = n
  listed : ∃ p : Nat, info.nRandomPos = p ∧ am.vRandom[p]? = some n
  lastTry : 0 ≤ info.nLastTry
  lastSuccess : 0 ≤ info.nLastSuccess

/-- What `Check_` says of the containers. -/
structure Checked (am : CAddrMan) : Prop where
  counted : (am.vRandom.length : Int) = am.nTried + am.nNew
  entry : ∀ n info, am.mapInfo n = some info → am.EntryOk n info
  triedCount : ((am.ids CAddrInfo.fInTried).length : Int) = am.nTried
  newCount : ((am.ids fun info => !info.fInTried).length : Int) = am.nNew
  inTried : ∀ n, Buckets.total (List.count n) am.vvTried = if am.isTried n then 1 else 0
  inNew : ∀ n, (am.newPlaces n : Int) = if am.isTried n then 0 else am.refs n

section Check

variable {T : Prop} {am : CAddrMan} {n : Nat} {info : CAddrInfo}

theorem checkEntry_eq_zero_iff : am.checkEntry n info = 0 ↔ am.EntryOk n info := by
  constructor
  · intro h
    rw [checkEntry] at h
    split_ifs at h with h1 h2 h3 h4 h5 h6 h7 h8
    simp only [not_and, not_or, not_not, not_lt, Bool.not_eq_true] at h1 h2 h3 h4 h5 h6 h7 h8
    obtain ⟨hpos, -, hget⟩ := h6
    refine ⟨h1, h2, fun hnew => ?_, h5, ⟨info.nRandomPos.toNat, (Int.toNat_of_nonneg hpos).symm, hget⟩, h7, h8⟩
    have hne : ¬info.nRefCount = 0 := h4 hnew
    have hrange := h3 hnew
    omega
  · rintro ⟨hsuccess, htriedRefs, hnewRefs, haddr, ⟨p, hp, hget⟩, hlastTry, hlastSuccess⟩
    have hlt : p < am.vRandom.length := (List.getElem?_eq_some_iff.mp hget).1
    rw [checkEntry, if_neg fun hc => hsuccess hc.1 hc.2, if_neg fun hc => hc.2 (htriedRefs hc.1), if_neg, if_neg,
      if_neg fun hne => hne haddr, if_neg, if_neg (by omega), if_neg (by omega)]
    · rintro (hneg | hge | hne)
      · omega
      · omega
      · rw [hp, Int.toNat_natCast] at hne
        exact hne hget
    · rintro ⟨hnew, hzero⟩
      have := hnewRefs (by simpa using hnew)
      omega
    · rintro ⟨hnew, hbad⟩
      have := hnewRefs (by simpa using hnew)
      omega

theorem mapNew_eq (hfresh : ∀ n, am.nIdCount ≤ n → am.mapInfo n = none) :
    (if n ∈ am.ids (fun info => !info.fInTried) then (am.mapInfo n).elim 0 CAddrInfo.nRefCount else 0)
      = if am.isTried n then 0 else am.refs n := by
  cases hinfo : am.mapInfo n with
  | none =>
    rw [isTried, refs, hinfo]
    simp
  | some info =>
    rw [isTried_of hinfo, refs_of hinfo]
    simp only [mem_ids_iff hfresh, hinfo]
    cases htried : info.fInTried with
    | true => simp [htried]
    | false => simp [htried]

theorem mapNew_nonneg (hentry : ∀ n info, am.mapInfo n = some info → am.EntryOk n info)
    (hfresh : ∀ n, am.nIdCount ≤ n → am.mapInfo n = none) :
    0 ≤ if n ∈ am.ids (fun info => !info.fInTried) then (am.mapInfo n).elim 0 CAddrInfo.nRefCount else 0 := by
  split_ifs with hn
  · obtain ⟨info, hinfo, hnew⟩ := (mem_ids_iff hfresh).mp hn
    have hrefs := (hentry n info hinfo).newRefs (by simpa using hnew)
    rw [hinfo, Option.elim_some]
    omega
  · exact le_refl 0

theorem checkEntries_iff (hfresh : ∀ n, am.nIdCount ≤ n → am.mapInfo n = none) :
    ((am.ids fun _ => true).findSome? fun n => ((am.mapInfo n).map (am.checkEntry n)).filter (· ≠ 0)) = none ↔
      ∀ n info, am.mapInfo n = some info → am.EntryOk n info := by
  rw [List.findSome?_eq_none_iff]
  constructor
  · intro h n info hinfo
    have hnone := h n ((mem_ids_iff hfresh).mpr ⟨info, hinfo, rfl⟩)
    rw [hinfo, Option.map_some] at hnone
    refine checkEntry_eq_zero_iff.mp ?_
    by_contra hne
    simp [hne] at hnone
  · intro h n hn
    obtain ⟨info, hinfo, -⟩ := (mem_ids_iff hfresh).mp hn
    rw [hinfo, Option.map_some, checkEntry_eq_zero_iff.mpr (h n info hinfo)]
    rfl

theorem check_eq_zero_cases : am.check = 0 ↔ (am.vRandom.length : Int) = am.nTried + am.nNew ∧
    ((am.ids fun _ => true).findSome? fun n => ((am.mapInfo n).map (am.checkEntry n)).filter (· ≠ 0)) = none ∧
    ((am.ids CAddrInfo.fInTried).length : Int) = am.nTried ∧ ((am.ids fun info => !info.fInTried).length : Int) = am.nNew ∧
    (∃ setTried, checkTried ((List.finRange addrmanTriedBucketCount).flatMap am.vvTried)
      (am.ids CAddrInfo.fInTried).toFinset = .ok setTried ∧ setTried.card = 0) ∧
    ∃ mapNew, checkNew ((List.finRange addrmanNewBucketCount).flatMap fun b => (am.vvNew b).sort (· ≤ ·))
      (fun n => if n ∈ am.ids (fun info => !info.fInTried) then (am.mapInfo n).elim 0 CAddrInfo.nRefCount else 0)
        = .ok mapNew ∧
      ((am.ids fun info => !info.fInTried).filter fun n => decide (mapNew n ≠ 0)).length = 0 := by
  constructor
  · intro h
    rw [check] at h
    split_ifs at h with hcounted
    cases hentries : (am.ids fun _ => true).findSome? fun n =>
        ((am.mapInfo n).map (am.checkEntry n)).filter (· ≠ 0) with
    | some err =>
      rw [hentries] at h
      obtain ⟨m, -, hm⟩ := List.exists_of_findSome?_eq_some hentries
      have hne := (Option.filter_eq_some_iff.mp hm).2
      exact absurd h (by simpa using hne)
    | none =>
      rw [hentries] at h
      dsimp only at h
      split_ifs at h with htriedCount hnewCount
      cases htried : checkTried ((List.finRange addrmanTriedBucketCount).flatMap am.vvTried)
          (am.ids CAddrInfo.fInTried).toFinset with
      | error err =>
        rw [htried] at h
        exact absurd (h.symm.trans (checkTried_error htried)) (by decide)
      | ok setTried =>
        rw [htried] at h
        dsimp only at h
        cases hnew : checkNew ((List.finRange addrmanNewBucketCount).flatMap fun b => (am.vvNew b).sort (· ≤ ·))
            (fun n => if n ∈ am.ids (fun info => !info.fInTried) then (am.mapInfo n).elim 0 CAddrInfo.nRefCount
              else 0) with
        | error err =>
          rw [hnew] at h
          exact absurd (h.symm.trans (checkNew_error hnew)) (by decide)
        | ok mapNew =>
          rw [hnew] at h
          dsimp only at h
          split_ifs at h with hsetTried hmapNew
          exact ⟨not_not.mp hcounted, rfl, not_not.mp htriedCount, not_not.mp hnewCount,
            ⟨setTried, rfl, not_not.mp hsetTried⟩, mapNew, rfl, not_not.mp hmapNew⟩
  · rintro ⟨hcounted, hentries, htriedCount, hnewCount, ⟨setTried, htried, hsetTried⟩, mapNew, hnew, hmapNew⟩
    rw [check, if_neg (not_not.mpr hcounted), hentries]
    dsimp only
    rw [if_neg (not_not.mpr htriedCount), if_neg (not_not.mpr hnewCount), htried]
    dsimp only
    rw [hnew]
    dsimp only
    rw [if_neg (not_not.mpr hsetTried), if_neg (not_not.mpr hmapNew)]

theorem check_eq_zero_iff (hfresh : ∀ n, am.nIdCount ≤ n → am.mapInfo n = none) : am.check = 0 ↔ am.Checked := by
  have htried : (∀ n, ((List.finRange addrmanTriedBucketCount).flatMap am.vvTried).count n
      = if n ∈ (am.ids CAddrInfo.fInTried).toFinset then 1 else 0) ↔
      ∀ n, Buckets.total (List.count n) am.vvTried = if am.isTried n then 1 else 0 := by
    simp only [count_flatMap_tried, List.mem_toFinset, mem_ids_iff hfresh, isTried_iff]
  have hnew : (∀ n, (((List.finRange addrmanNewBucketCount).flatMap fun b => (am.vvNew b).sort (· ≤ ·)).count n : Int)
      = if n ∈ am.ids (fun info => !info.fInTried) then (am.mapInfo n).elim 0 CAddrInfo.nRefCount else 0) ↔
      ∀ n, (am.newPlaces n : Int) = if am.isTried n then 0 else am.refs n := by
    simp only [count_flatMap_new, mapNew_eq hfresh]
  rw [check_eq_zero_cases, checkEntries_iff hfresh, checkTried_iff, htried]
  constructor
  · rintro ⟨hcounted, hentry, htriedCount, hnewCount, hinTried, hchecked⟩
    have hinNew := (checkNew_iff (fun n => mapNew_nonneg hentry hfresh) fun n hn => if_neg hn).mp hchecked
    exact ⟨hcounted, hentry, htriedCount, hnewCount, hinTried, hnew.mp hinNew⟩
  · rintro ⟨hcounted, hentry, htriedCount, hnewCount, hinTried, hinNew⟩
    exact ⟨hcounted, hentry, htriedCount, hnewCount, hinTried,
      (checkNew_iff (fun n => mapNew_nonneg hentry hfresh) fun n hn => if_neg hn).mpr (hnew.mpr hinNew)⟩

theorem Inv.entryOk (h : Inv T am owedNone none 0) (hinfo : am.mapInfo n = some info) (htimes : info.TimesOk) :
    am.EntryOk n info where
  success := htimes.2.2
  triedRefs htried := by
    have := h.placed.triedRefs n ((isTried_of hinfo).trans htried)
    rwa [refs_of hinfo] at this
  newRefs hnew := by
    have := h.placed.newRefs n (known_of hinfo) ((isTried_of hinfo).trans hnew) (by simp)
    rwa [refs_of hinfo] at this
  addressed := by rw [(h.index.addressed info.ip n).mpr (addrOf_of hinfo), Option.getD_some]
  listed := h.index.lt_length hinfo
  lastTry := htimes.1
  lastSuccess := htimes.2.1

/-- The invariant between calls is what `Check_` says, where the times are as it wants them. -/
theorem Inv.checked (h : Inv T am owedNone none 0) (hT : T) : am.Checked where
  counted := by
    have := h.counted
    omega
  entry n info hinfo := h.entryOk hinfo (h.timed hT n info hinfo)
  triedCount := length_ids_tried h
  newCount := length_ids_new h
  inTried := h.placed.inTried
  inNew n := by
    have hnew := h.placed.inNew n
    rw [owedNone, add_zero] at hnew
    rw [hnew]
    split_ifs with htried
    · exact h.placed.triedRefs n htried
    · rfl

theorem Inv.check_eq (h : Inv T am owedNone none 0) (hT : T) : am.check = 0 :=
  (check_eq_zero_iff h.index.fresh).mpr (h.checked hT)

/-- The invariant between calls is the consistency of the containers. -/
theorem Inv.consistent (h : Inv T am owedNone none 0) : Consistent am where
  addressed := by
    intro a m
    rw [h.index.addressed, addrOf, Option.map_eq_some_iff]
  listed := by
    intro p m
    constructor
    · intro hp
      have hpos := h.index.located.pos_eq hp
      rw [posOf, Option.map_eq_some_iff] at hpos
      exact hpos
    · rintro ⟨info, hinfo, hp⟩
      obtain ⟨q, hq, hget⟩ := h.index.lt_length hinfo
      rw [hp, Int.natCast_inj] at hq
      rw [hq, hget]
  known := by
    intro m info hinfo
    obtain ⟨p, -, hget⟩ := h.index.lt_length hinfo
    refine ⟨?_, List.mem_of_getElem? hget⟩
    by_contra hge
    rw [h.index.fresh m (Nat.le_of_not_lt hge)] at hinfo
    exact absurd hinfo (by simp)
  tried := by
    intro m info hinfo htried
    have hplace := h.placed.inTried m
    have hnew := h.placed.inNew m
    have hrefs := h.placed.triedRefs m ((isTried_of hinfo).trans htried)
    rw [isTried_of hinfo, htried, if_pos rfl] at hplace
    rw [refs_of hinfo] at hnew hrefs
    rw [owedNone] at hnew
    exact ⟨hplace, by omega, hrefs⟩
  new := by
    intro m info hinfo htried
    have hplace := h.placed.inTried m
    have hnew := h.placed.inNew m
    have hbounds := h.placed.newRefs m (known_of hinfo) ((isTried_of hinfo).trans htried) (by simp)
    rw [isTried_of hinfo, htried, if_neg (by simp)] at hplace
    rw [refs_of hinfo] at hnew hbounds
    rw [owedNone] at hnew
    exact ⟨hplace, by omega, hbounds⟩
  unknown := by
    intro m hinfo
    have hplace := h.placed.inTried m
    have hnew := h.placed.inNew m
    rw [isTried, hinfo, Option.any_none, if_neg (by simp)] at hplace
    rw [refs, hinfo, Option.elim_none, owedNone] at hnew
    exact ⟨hplace, by omega⟩
  triedSize := h.placed.triedSize
  newSize := h.placed.newSize
  triedCount := (length_ids_tried h).symm
  newCount := (length_ids_new h).symm

end Check

theorem Inv.empty (T : Prop) : Inv T empty owedNone none 0 where
  index := ⟨fun _ _ => rfl, fun _ _ => by simp [CAddrMan.empty, addrOf], Positions.Located.nil⟩
  placed :=
    { inTried := fun _ => Buckets.total_const rfl
      inNew := fun m => by
        have hplaces : (CAddrMan.empty).newPlaces m = 0 :=
          Buckets.places_eq_zero.mpr fun _ => Finset.notMem_empty m
        rw [hplaces]
        rfl
      triedRefs := fun _ _ => rfl
      newRefs := fun _ hknown => absurd hknown (by simp [known, CAddrMan.empty])
      limboRefs := fun _ hlimbo => absurd hlimbo (by simp)
      triedSize := fun _ => Nat.zero_le _
      newSize := fun _ => Nat.zero_le _
      triedCount := by
        have htotal : Buckets.total List.length (CAddrMan.empty).vvTried = 0 := Buckets.total_const rfl
        rw [htotal]
        rfl }
  timed := fun _ _ _ hinfo => absurd hinfo (by simp [CAddrMan.empty])
  counted := rfl

/-- One call keeps the invariant. -/
theorem Inv.step {T : Prop} {am : CAddrMan} (h : Inv T am owedNone none 0) {call : AddrManCall}
    (htime : T → call.TimePositive) :
    Settles Exhausted (fun am' => Inv T am' owedNone none 0) (am.step env call) := by
  cases call with
  | add addr source nTimePenalty nNow rand => exact h.add.map
  | good addr nTime rand => exact h.good htime
  | attempt addr nTime => exact h.attempt htime
  | connected addr nTime => exact h.connected
  | select fTried rounds =>
    exact Settles.map (Q := fun am' => Inv T am' owedNone none 0) (h.select.mono fun _ _ => h)
  | getAddr rand => exact h.getAddr.map

/-- Every run keeps the invariant. -/
theorem Inv.run {T : Prop} {calls : List AddrManCall} (htime : T → ∀ call ∈ calls, call.TimePositive) :
    Settles Exhausted (fun am => Inv T am owedNone none 0) (CAddrMan.run env calls) := by
  refine Settles.foldlM (I := fun _ am => Inv T am owedNone none 0) (d := []) ?_ (Inv.empty T)
  intro _ am call hcall h
  exact h.step fun hT => htime hT call hcall

end PupaCoin.CAddrMan

namespace PupaCoin

open Guards

/-- **The address manager is consistent after every sequence of calls**, whatever addresses, sources, times and
random numbers these read: its assertions hold, the containers agree, and `Check_` finds nothing as long as
`Good_` and `Attempt_` record positive times. Only an exhausted counter ends a run. -/
theorem addrMan_consistent (env : AddrManEnv) (calls : List AddrManCall) : Settles (· = .overflow)
      (fun am => am.Consistent ∧ ((∀ call ∈ calls, call.TimePositive) → am.check = 0))
      (CAddrMan.run env calls) :=
  (CAddrMan.Inv.run fun hT => hT).mono fun _ h => ⟨h.consistent, h.check_eq⟩

namespace Sample

def peerEnv : AddrManEnv := ⟨[], fun _ => [], fun _ => [], fun _ => 7, fun _ => true⟩

def peer (ip : CNetAddr) : CAddress := { ip, port := 9999, nServices := 1, nTime := 1000000, nLastTry := 0 }

def peerCalls : List AddrManCall :=
  [.add (peer 1) 5 0 1000000 fun _ => 0, .add (peer 2) 5 7200 1000000 fun _ => 0,
    .good (peer 1).toCService 1000100 fun _ => 3, .attempt (peer 2).toCService 1000200]

theorem peerCalls_positive : ∀ call ∈ peerCalls, call.TimePositive := by
  intro call hcall
  simp only [peerCalls, List.mem_cons, List.not_mem_nil, or_false] at hcall
  rcases hcall with rfl | rfl | rfl | rfl
  · trivial
  · trivial
  · show (0 : Int) < 1000100
    omega
  · show (0 : Int) < 1000200
    omega

theorem peers_consistent : ∃ am, CAddrMan.run peerEnv peerCalls = .ok am ∧ am.vRandom = [0, 1] ∧ am.nTried = 1
    ∧ am.nNew = 1 ∧ am.Consistent ∧ am.check = 0 := by
  have hrun : ((CAddrMan.run peerEnv peerCalls).toOption.map fun am => (am.vRandom, am.nTried, am.nNew))
      = some ([0, 1], 1, 1) := by decide +kernel
  have hpositive := peerCalls_positive
  generalize peerCalls = calls at hrun hpositive ⊢
  have hconsistent := addrMan_consistent peerEnv calls
  cases hresult : CAddrMan.run peerEnv calls with
  | error fault =>
    rw [hresult] at hrun
    exact absurd hrun (by simp [Except.toOption])
  | ok am =>
    rw [hresult] at hrun hconsistent
    simp only [Except.toOption, Option.map_some, Option.some.injEq, Prod.mk.injEq] at hrun
    exact ⟨am, rfl, hrun.1, hrun.2.1, hrun.2.2, hconsistent.1, hconsistent.2 hpositive⟩

end Sample

end PupaCoin
