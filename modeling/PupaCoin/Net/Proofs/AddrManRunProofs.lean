import PupaCoin.Net.Proofs.AddrManProofs

/-!
# Runs of the address manager

Every operation of the manager returns with the invariant, unless one of its counters is exhausted; so does
every sequence of operations, and `Check_` finds nothing.
-/

namespace PupaCoin.CAddrMan

variable {info : CAddrInfo} {am' : CAddrMan} {xs : List Nat} {rand : Nat → Nat} {nNow nTime : Int} {env : AddrManEnv}
  {source : CNetAddr} {addr : CService}

open Function Guards

variable {k : Fin addrmanTriedBucketCount} {origin b : Fin addrmanNewBucketCount}

/-- The one reason for an operation to stop. -/
def Exhausted (fault : AddrManFault) : Prop := fault = .overflow

section

variable {T : Prop} {am : CAddrMan} {owed : Nat → Int} {limbo : Option Nat} {slack : Int} {n : Nat}

theorem getRandInt_lt (nRand : Nat) {nMax : Nat} (h : 0 < nMax) : getRandInt nRand nMax < nMax := by
  rw [getRandInt, if_neg (by omega)]
  exact Nat.mod_lt _ h

theorem toUnsigned_natCast (n : Nat) : toUnsigned n = n := by
  rw [toUnsigned, if_neg (by omega), Int.toNat_natCast]

theorem isOlder_ok (age : CAddrInfo → Int) {nOldest : Option Nat} (hn : am.known n = true)
    (hold : ∀ m, nOldest = some m → am.known m = true) :
    ∃ fOlder, am.isOlder age nOldest n = .ok fOlder ∧ (nOldest = none → fOlder = true) := by
  cases nOldest with
  | none => exact ⟨true, rfl, fun _ => rfl⟩
  | some m =>
    obtain ⟨info, he, -⟩ := entry_of_known hn
    obtain ⟨infoOldest, heOldest, -⟩ := entry_of_known (hold m rfl)
    refine ⟨decide (age info < age infoOldest), ?_, by simp⟩
    simp only [isOlder, he, heOldest, ok_bind]
    rfl

theorem Inv.touch (h : Inv T am owed limbo slack) {f : CAddrInfo → CAddrInfo} (hip : ∀ info, (f info).ip = info.ip)
    (hpos : ∀ info, (f info).nRandomPos = info.nRandomPos) (htried : ∀ info, (f info).fInTried = info.fInTried)
    (hrefs : ∀ info, (f info).nRefCount = info.nRefCount)
    (htimes : T → ∀ info, info.TimesOk → (f info).TimesOk) : Inv T (am.edit n f) owed limbo slack where
  index := h.index.edit hip hpos
  placed := h.placed.of_same
    { known := am.edit_known n f
      isTried := am.edit_isTried n htried
      refs := am.edit_refs n hrefs
      vvTried := rfl
      vvNew := rfl
      nTried := rfl
      nNew := rfl
      length := rfl
      addrOf := am.edit_addrOf n hip }
  timed := h.timed.edit fun hT info _ hok => htimes hT info hok
  counted := h.counted

theorem Inv.swapRandom (h : Inv T am owed limbo slack) {i j : Nat} (hi : i < am.vRandom.length)
    (hj : j < am.vRandom.length) : ∃ am', am.swapRandom i j = .ok am' ∧ Inv T am' owed limbo slack
      ∧ am'.vRandom.length = am.vRandom.length := by
  obtain ⟨am', hswap, hindex, hsame, htimed, -⟩ := h.index.swapRandom hi hj
  refine ⟨am', hswap, ⟨hindex, h.placed.of_same hsame, htimed T h.timed, ?_⟩, hsame.length⟩
  rw [hsame.length, hsame.nTried, hsame.nNew]
  exact h.counted

theorem Indexed.dropLast (h : Indexed am) (hinfo : am.mapInfo n = some info)
    (hlast : am.vRandom[am.vRandom.length - 1]? = some n)
    (hid : am'.nIdCount = am.nIdCount) (hmap : am'.mapInfo = update am.mapInfo n none)
    (haddr : am'.mapAddr = update am.mapAddr info.ip none) (hrandom : am'.vRandom = am.vRandom.dropLast) :
    Indexed am' where
  fresh := by
    intro m hm
    rw [hid] at hm
    rw [hmap, update_apply]
    split_ifs
    · rfl
    · exact h.fresh m hm
  addressed := by
    intro a m
    have haddrOf : am'.addrOf m = if m = n then none else am.addrOf m := by
      rw [addrOf, hmap, update_apply]
      split_ifs <;> rfl
    have hold := h.addressed a m
    rw [haddrOf, haddr, update_apply]
    by_cases hmn : m = n
    · subst hmn
      rw [if_pos rfl]
      split_ifs with ha
      · simp
      · rw [hold, addrOf_of hinfo]
        simpa using fun h => ha h.symm
    · rw [if_neg hmn]
      split_ifs with ha
      · have hn := (h.addressed info.ip n).mpr (addrOf_of hinfo)
        rw [ha] at hold
        rw [hn, Option.some.injEq] at hold
        rw [ha, ← hold]
        simpa using fun h => hmn h.symm
      · exact hold
  located := by
    have hpos : am'.posOf = update am.posOf n none := by
      funext m
      rw [posOf, hmap, update_apply, update_apply]
      split_ifs <;> rfl
    rw [hpos, hrandom]
    exact h.located.dropLast hlast

/-- What the manager has besides the entry `n`, once that is gone. -/
structure Dropped (n : Nat) (am am' : CAddrMan) : Prop where
  known : am'.known = update am.known n false
  isTried : am'.isTried = update am.isTried n false
  refs : am'.refs = update am.refs n 0
  vvTried : am'.vvTried = am.vvTried
  vvNew : am'.vvNew = am.vvNew
  nTried : am'.nTried = am.nTried
  nNew : am'.nNew = am.nNew - 1
  length : am'.vRandom.length + 1 = am.vRandom.length

theorem Indexed.drop (h : Indexed am) (hinfo : am.mapInfo n = some info) (info' : CAddrInfo)
    (hip : info'.ip = info.ip) (hpos : info'.nRandomPos = info.nRandomPos) :
    ∃ am', am.drop n info' = .ok am' ∧ Indexed am' ∧ Dropped n am am' ∧ ∀ T, Timed T am → Timed T am' := by
  obtain ⟨p, hp, hget⟩ := h.lt_length hinfo
  have hplt : p < am.vRandom.length := (List.getElem?_eq_some_iff.mp hget).1
  have hlast : am.vRandom.length - 1 < am.vRandom.length := by omega
  obtain ⟨am₂, hswap, hindex₂, hsame, htimed₂, hmoved⟩ := h.swapRandom hplt hlast
  have hlen₂ : (0 : Nat) < am₂.vRandom.length := by
    rw [hsame.length]
    omega
  have hne : am₂.vRandom ≠ [] := List.length_pos_iff.mp hlen₂
  rw [hget, ← hsame.length] at hmoved
  obtain ⟨info₂, -, hinfo₂⟩ := entry_of_known (hindex₂.known_of_mem (List.mem_of_getElem? hmoved))
  have hip₂ : info₂.ip = info.ip := by
    have haddr := congrFun hsame.addrOf n
    rw [addrOf_of hinfo₂, addrOf_of hinfo, Option.some.injEq] at haddr
    exact haddr
  have hunsigned : toUnsigned ((am.vRandom.length : Int) - 1) = am.vRandom.length - 1 := by
    rw [← toUnsigned_natCast (am.vRandom.length - 1)]
    congr 1
    omega
  have hposn : toUnsigned info'.nRandomPos = p := by
    have hposp : info.nRandomPos = p := hp
    rw [hpos, hposp, toUnsigned_natCast]
  refine ⟨{ am₂ with
    vRandom := am₂.vRandom.dropLast
    mapAddr := update am₂.mapAddr info'.ip none
    mapInfo := update am₂.mapInfo n none
    nNew := am₂.nNew - 1 }, ?_, ?_, ⟨?_, ?_, ?_, hsame.vvTried, hsame.vvNew, hsame.nTried, ?_, ?_⟩, ?_⟩
  · unfold CAddrMan.drop
    rw [hposn, hunsigned, hswap]
    simp only [ok_bind, if_neg hne]
    rfl
  · exact hindex₂.dropLast hinfo₂ hmoved rfl rfl (by rw [hip₂, hip]) rfl
  · rw [← hsame.known]
    exact comp_update Option.isSome am₂.mapInfo n none
  · rw [← hsame.isTried]
    exact comp_update (fun entry => entry.any CAddrInfo.fInTried) am₂.mapInfo n none
  · rw [← hsame.refs]
    exact comp_update (fun entry => entry.elim 0 CAddrInfo.nRefCount) am₂.mapInfo n none
  · show am₂.nNew - 1 = am.nNew - 1
    rw [hsame.nNew]
  · show am₂.vRandom.dropLast.length + 1 = am.vRandom.length
    rw [List.length_dropLast, hsame.length]
    omega
  · intro T ht hT m info₃ hinfo₃
    have hget₃ : (update am₂.mapInfo n none) m = some info₃ := hinfo₃
    rw [update_apply] at hget₃
    split_ifs at hget₃
    exact htimed₂ T ht hT m info₃ hget₃

theorem Inv.removeNew (h : Inv T am owed none slack) (hn : n ∈ am.vvNew b)
    (howed : owed n = 0) : ∃ am', am.removeNew b n = .ok am' ∧ Inv T am' owed none slack
      ∧ am'.vvNew = update am.vvNew b ((am.vvNew b).erase n) := by
  obtain ⟨hknown, htried, hpos⟩ := h.placed.of_mem_new hn (le_of_eq howed.symm)
  obtain ⟨info, hentry, hinfo⟩ := entry_of_known hknown
  have hrefs := refs_of hinfo
  set am₁ := am.edit n fun info => { info with nRefCount := info.nRefCount - 1 } with ham₁
  have hindex₁ : Indexed am₁ := h.index.edit (fun _ => rfl) fun _ => rfl
  have hrefs₁ : am₁.refs = update am.refs n (am.refs n - 1) :=
    edit_refs_eq hknown fun info' hinfo' => by rw [refs_of hinfo']
  have htried₁ : am₁.isTried = am.isTried := am.edit_isTried n fun _ => rfl
  have hknown₁ : am₁.known = am.known := am.edit_known n _
  have htimed₁ : Timed T am₁ := h.timed.edit fun _ _ _ hok => hok
  by_cases hone : info.nRefCount - 1 = 0
  · -- the last reference: the entry goes
    have hinfo₁ : am₁.mapInfo n = some { info with nRefCount := info.nRefCount - 1 } := edit_self _ hinfo
    obtain ⟨am₂, hdrop, hindex₂, hdropped, htimed₂⟩ := hindex₁.drop hinfo₁ info rfl rfl
    refine ⟨{ am₂ with vvNew := update am₂.vvNew b ((am₂.vvNew b).erase n) }, ?_, ⟨?_, ?_, ?_, ?_⟩, ?_⟩
    · simp only [CAddrMan.removeNew, hentry, ok_bind, if_pos hone]
      rw [← ham₁, hdrop]
      rfl
    · exact hindex₂.of_eq rfl rfl rfl rfl
    · refine h.placed.remove hn howed ?_ ?_ ?_ hdropped.vvTried hdropped.nTried ?_
      · show am₂.refs = _
        rw [hdropped.refs, hrefs₁, update_idem, hrefs, hone]
      · show am₂.isTried = _
        rw [hdropped.isTried, htried₁, ← htried, update_eq_self]
      · intro m hm
        have hk : am₂.known m = true := hm
        rw [hdropped.known, hknown₁, update_apply] at hk
        split_ifs at hk with hmn
        exact ⟨hk, fun hsame => absurd hsame hmn⟩
      · show update am₂.vvNew b ((am₂.vvNew b).erase n) = _
        rw [hdropped.vvNew]
        rfl
    · exact htimed₂ T htimed₁
    · show ((am₂.vRandom.length : Nat) : Int) = am₂.nTried + am₂.nNew + slack
      have hcounted : ((am₁.vRandom.length : Nat) : Int) = am₁.nTried + am₁.nNew + slack := h.counted
      have hlength := hdropped.length
      rw [hdropped.nTried, hdropped.nNew]
      omega
    · show update am₂.vvNew b ((am₂.vvNew b).erase n) = _
      rw [hdropped.vvNew]
      rfl
  · refine ⟨{ am₁ with vvNew := update am.vvNew b ((am.vvNew b).erase n) }, ?_, ⟨?_, ?_, ?_, ?_⟩, rfl⟩
    · simp only [CAddrMan.removeNew, hentry, ok_bind, if_neg hone]
      rfl
    · exact hindex₁.of_eq rfl rfl rfl rfl
    · refine h.placed.remove hn howed hrefs₁ htried₁ ?_ rfl rfl rfl
      intro m hm
      have hk : am₁.known m = true := hm
      rw [hknown₁] at hk
      refine ⟨hk, fun _ => ?_⟩
      rw [hrefs]
      omega
    · exact htimed₁
    · exact h.counted

theorem firstTerrible_ok (nNow : Int) (hknown : ∀ m ∈ xs, am.known m = true) :
    ∃ r, am.firstTerrible nNow xs = .ok r ∧ ∀ m, r = some m → m ∈ xs := by
  induction xs with
  | nil => exact ⟨none, rfl, by simp⟩
  | cons m xs ih =>
    obtain ⟨info, hentry, -⟩ := entry_of_known (hknown m List.mem_cons_self)
    obtain ⟨r, hr, hmem⟩ := ih fun k hk => hknown k (List.mem_cons_of_mem m hk)
    rw [firstTerrible, hentry, ok_bind]
    by_cases hterrible : info.isTerrible nNow = true
    · refine ⟨some m, by rw [if_pos hterrible]; rfl, ?_⟩
      rintro k ⟨⟩
      exact List.mem_cons_self
    · refine ⟨r, by rw [if_neg hterrible]; exact hr, ?_⟩
      exact fun k hk => List.mem_cons_of_mem m (hmem k hk)

theorem oldest_settles {picks : List Nat} (hknown : ∀ m ∈ xs, am.known m = true) (hpick : ∃ k ∈ picks, k < xs.length)
    : Settles Exhausted (fun r => ∃ m ∈ xs, r = some m) (xs.zipIdx.foldlM (am.oldestStep picks) none) := by
  -- once an element has been drawn the loop holds one
  let I : List (Nat × Nat) → Option Nat → Prop := fun done r =>
    (∀ m, r = some m → m ∈ xs) ∧ ((∃ it ∈ done, it.2 ∈ picks) → r ≠ none)
  have hloop : Settles Exhausted (I ([] ++ xs.zipIdx)) (xs.zipIdx.foldlM (am.oldestStep picks) none) :=
    Settles.foldlM ?_ (by simp [I])
  · refine hloop.mono fun r ⟨hmem, hne⟩ => ?_
    obtain ⟨k, hk, hlt⟩ := hpick
    have hdrawn : ∃ it ∈ [] ++ xs.zipIdx, it.2 ∈ picks := by
      refine ⟨(xs[k], k), ?_, hk⟩
      rw [List.nil_append, List.mem_zipIdx_iff_getElem?, List.getElem?_eq_getElem hlt]
    obtain ⟨m, hm⟩ := Option.ne_none_iff_exists'.mp (hne hdrawn)
    exact ⟨m, hmem m hm, hm⟩
  · rintro done r ⟨m, nI⟩ hit ⟨hmem, hne⟩
    have hm : m ∈ xs := by
      rw [List.mem_zipIdx_iff_getElem?] at hit
      exact List.mem_of_getElem? hit
    rw [oldestStep]
    refine Settles.ite (fun hdrawn => ?_) fun hnot => ?_
    · obtain ⟨fOlder, hok, hnone⟩ := isOlder_ok (fun info => info.nTime.toNat) (hknown m hm)
        fun k hk => hknown k (hmem k hk)
      rw [hok, ok_bind]
      cases fOlder with
      | true =>
        refine ⟨?_, by simp⟩
        rintro k ⟨⟩
        exact hm
      | false =>
        refine ⟨hmem, fun _ hr => ?_⟩
        have := hnone hr
        simp at this
    · refine ⟨hmem, ?_⟩
      rintro ⟨it, hit', hp⟩
      rw [List.mem_append, List.mem_singleton] at hit'
      rcases hit' with hdone | rfl
      · exact hne ⟨it, hdone, hp⟩
      · exact absurd hp hnot

theorem Inv.shrinkNew (h : Inv T am owed none slack) (hne : (am.vvNew b).Nonempty)
    (howed : ∀ m ∈ am.vvNew b, owed m = 0) : Settles Exhausted (fun r => Inv T r.1 owed none slack
      ∧ ∃ m ∈ am.vvNew b, r.1.vvNew = update am.vvNew b ((am.vvNew b).erase m))
      (am.shrinkNew rand nNow b) := by
  have hmem : ∀ m, m ∈ (am.vvNew b).sort (· ≤ ·) ↔ m ∈ am.vvNew b := fun m => Finset.mem_sort _
  have hlen : 0 < ((am.vvNew b).sort (· ≤ ·)).length := by
    rw [Finset.length_sort]
    exact hne.card_pos
  have hknown : ∀ m ∈ (am.vvNew b).sort (· ≤ ·), am.known m = true := by
    intro m hm
    have hm' := (hmem m).mp hm
    exact (h.placed.of_mem_new hm' (le_of_eq (howed m hm').symm)).1
  obtain ⟨r, hr, hrmem⟩ := firstTerrible_ok nNow hknown
  simp only [CAddrMan.shrinkNew, hr, ok_bind]
  cases r with
  | some m =>
    have hm := (hmem m).mp (hrmem m rfl)
    obtain ⟨am', hremove, hinv, hvv⟩ := h.removeNew hm (howed m hm)
    simp only [hremove, ok_bind]
    exact ⟨hinv, m, hm, hvv⟩
  | none =>
    refine Settles.bind (oldest_settles hknown ⟨getRandInt (rand 0) _, ?_, getRandInt_lt _ hlen⟩) ?_
    · exact List.mem_map.mpr ⟨0, by simp, rfl⟩
    · rintro r ⟨m, hm, rfl⟩
      have hm := (hmem m).mp hm
      obtain ⟨am', hremove, hinv, hvv⟩ := h.removeNew hm (howed m hm)
      simp only [hremove, ok_bind]
      exact ⟨hinv, m, hm, hvv⟩

theorem Inv.addToBucket (h : Inv T am owedNone limbo 0) {ip : CNetAddr} (hlimbo : limbo = none ∨ limbo = some n) (hknown : am.known n = true)
    (htried : am.isTried n = false) (hmax : am.refs n < addrmanNewBucketsPerAddress) :
    Settles Exhausted (fun am' => Inv T am' owedNone none 0) (am.addToBucket env n ip source nNow rand) := by
  rw [CAddrMan.addToBucket]
  set b := CNetAddr.getNewBucket env ip source
  refine Settles.ite (fun hmem => ?_) fun hmem => ?_
  · rcases hlimbo with rfl | rfl
    · exact h
    · have := h.placed.notMem_new (h.placed.limboRefs n rfl).2.2 b
      exact absurd hmem this
  · set am₁ := am.edit n fun info => { info with nRefCount := info.nRefCount + 1 } with ham₁
    have hinv₁ : Inv T am₁ (owedTo n) none 0 :=
      { index := h.index.edit (fun _ => rfl) fun _ => rfl
        placed := h.placed.increment hlimbo hknown htried hmax
        timed := h.timed.edit fun _ _ _ hok => hok
        counted := h.counted }
    have hvv₁ : am₁.vvNew = am.vvNew := rfl
    have hinsert : ∀ am₂ : CAddrMan, Inv T am₂ (owedTo n) none 0 → n ∉ am₂.vvNew b →
        (am₂.vvNew b).card < addrmanNewBucketSize →
        Inv T { am₂ with vvNew := update am₂.vvNew b (insert n (am₂.vvNew b)) } owedNone none 0 :=
      fun am₂ hinv₂ hn hcard =>
        { index := hinv₂.index.of_eq rfl rfl rfl rfl
          placed := hinv₂.placed.insert hn hcard
          timed := hinv₂.timed
          counted := hinv₂.counted }
    refine Settles.ite (fun hfull => ?_) fun hfull => ?_
    · have hne : (am₁.vvNew b).Nonempty := by
        rw [← Finset.card_pos, hfull]
        decide
      have howed : ∀ m ∈ am₁.vvNew b, owedTo n m = 0 := by
        intro m hm
        rw [owedTo, if_neg]
        rintro rfl
        exact hmem hm
      refine Settles.bind (Settles.map (Q := fun am₂ => Inv T am₂ (owedTo n) none 0
        ∧ ∃ m ∈ am₁.vvNew b, am₂.vvNew = update am₁.vvNew b ((am₁.vvNew b).erase m))
        (hinv₁.shrinkNew hne howed)) ?_
      rintro am₂ ⟨hinv₂, m, hm, hvv₂⟩
      have hb : am₂.vvNew b = (am.vvNew b).erase m := by
        rw [hvv₂, update_self, hvv₁]
      have hcard := Finset.card_erase_lt_of_mem hm
      refine hinsert am₂ hinv₂ ?_ ?_
      · rw [hb]
        exact fun hn => hmem (Finset.mem_of_mem_erase hn)
      · rw [hb]
        rw [hvv₁] at hcard hfull
        omega
    · have hle := h.placed.newSize b
      refine hinsert am₁ hinv₁ hmem ?_
      rw [hvv₁] at hfull ⊢
      omega

theorem selectTried_settles (hknown : ∀ m ∈ am.vvTried k, am.known m = true)
    (hne : am.vvTried k ≠ []) : Settles Exhausted (fun r => ∃ xs nPos, xs.Perm (am.vvTried k) ∧ nPos < xs.length
      ∧ r = ({ am with vvTried := update am.vvTried k xs }, some nPos)) (am.selectTried rand k) := by
  have hlen : 0 < (am.vvTried k).length := List.length_pos_iff.mpr hne
  rw [selectTried]
  refine Settles.bind (P := fun s => s.1.Perm (am.vvTried k) ∧ ∃ q, s.2 = some q ∧ q.2 < s.1.length) ?_ ?_
  · -- the first round finds a position, and every round keeps the bucket up to order
    let rounds := List.range (min addrmanTriedEntriesInspectOnEvict (am.vvTried k).length)
    let I : List Nat → List Nat × Option (Nat × Nat) → Prop := fun done s =>
      s.1.Perm (am.vvTried k) ∧ (done ≠ [] → s.2 ≠ none)
        ∧ ∀ q, s.2 = some q → q.1 ∈ am.vvTried k ∧ q.2 < s.1.length
    have hloop : Settles Exhausted (I ([] ++ rounds))
        (rounds.foldlM (am.selectTriedStep rand) (am.vvTried k, none)) :=
      Settles.foldlM ?_ ⟨List.Perm.refl _, by simp, by simp⟩
    · refine hloop.mono fun s ⟨hperm, hsome, hq⟩ => ⟨hperm, ?_⟩
      have hrounds : [] ++ List.range (min addrmanTriedEntriesInspectOnEvict (am.vvTried k).length) ≠ [] := by
        rw [List.nil_append, ne_eq, List.range_eq_nil]
        have : 0 < addrmanTriedEntriesInspectOnEvict := by decide
        omega
      obtain ⟨q, hsq⟩ := Option.ne_none_iff_exists'.mp (hsome hrounds)
      exact ⟨q, hsq, (hq q hsq).2⟩
    · rintro done ⟨xs, oldest⟩ i hi ⟨hperm, -, hq⟩
      simp only at hperm hq
      have hilt : i < xs.length := by
        rw [List.mem_range] at hi
        rw [hperm.length_eq]
        omega
      have hplt : getRandInt (rand i) (xs.length - i) + i < xs.length := by
        have hpos : 0 < xs.length - i := by omega
        have := getRandInt_lt (rand i) hpos
        omega
      set nPos := getRandInt (rand i) (xs.length - i) + i with hnPos
      have htemp : xs[nPos] ∈ am.vvTried k := hperm.mem_iff.mp (List.getElem_mem hplt)
      have hold : ∀ m, oldest.map Prod.fst = some m → am.known m = true := by
        intro m hm
        obtain ⟨q, hq', rfl⟩ := Option.map_eq_some_iff.mp hm
        exact hknown _ (hq q hq').1
      obtain ⟨fOlder, hok, hnone⟩ := isOlder_ok CAddrInfo.nLastSuccess (hknown _ htemp) hold
      have hswap : ((xs.set nPos xs[i]).set i xs[nPos]).Perm (am.vvTried k) :=
        (List.set_set_perm hplt hilt).trans hperm
      simp only [selectTriedStep, ← hnPos, List.getElem?_eq_getElem hplt, List.getElem?_eq_getElem hilt, hok, ok_bind]
      refine ⟨hswap, fun _ => ?_, ?_⟩
      · cases fOlder with
        | true => simp
        | false =>
          intro hold
          have := hnone (by rw [show oldest = none from hold, Option.map_none])
          simp at this
      · intro q hq'
        rw [List.length_set, List.length_set]
        cases fOlder with
        | true =>
          rw [if_pos rfl, Option.some.injEq] at hq'
          rw [← hq']
          exact ⟨htemp, hplt⟩
        | false => exact hq q hq'
  · rintro ⟨xs, oldest⟩ ⟨hperm, q, hq, hlt⟩
    refine ⟨xs, q.2, hperm, hlt, ?_⟩
    simp only at hq
    rw [hq, Option.map_some]

theorem Inv.evictTried (h : Inv T am owedNone (some n) 1) (hinfo : am.mapInfo n = some info)
    (hsuccess : T → info.nLastSuccess ≠ 0) (horigin : (am.vvNew origin).card < addrmanNewBucketSize) {nPos : Nat} (hpos : nPos < (am.vvTried k).length) :
    Settles Exhausted (fun am' => Inv T am' owedNone none 0) (am.evictTried env n origin k (some nPos)) := by
  have hget := List.getElem?_eq_getElem hpos
  set nOld := (am.vvTried k)[nPos]
  have holdTried : am.isTried nOld = true := h.placed.isTried_of_mem (List.mem_of_getElem? hget)
  have holdKnown := Placed.known_of_isTried holdTried
  obtain ⟨infoOld, hentry, -⟩ := entry_of_known holdKnown
  obtain ⟨hknown, htried, -⟩ := h.placed.limboRefs n rfl
  have hne : n ≠ nOld := by
    intro heq
    rw [← heq, htried] at holdTried
    exact absurd holdTried (by simp)
  simp only [CAddrMan.evictTried, hget, hentry, ok_bind]
  set am₁ := am.edit nOld fun info => { info with fInTried := false, nRefCount := 1 } with ham₁
  set b := CNetAddr.getNewBucket env infoOld.ip infoOld.source
  set t := if (am₁.vvNew b).card < addrmanNewBucketSize then b else origin with ht
  have hcard : (am.vvNew t).card < addrmanNewBucketSize := by
    rw [ht]
    split_ifs with hb
    · exact hb
    · exact horigin
  have hrefs₁ : am₁.refs = update am.refs nOld 1 := edit_refs_eq holdKnown fun _ _ => rfl
  have htried₁ : am₁.isTried = update am.isTried nOld false := edit_isTried_eq holdKnown fun _ => rfl
  have hknown₁ : am₁.known = am.known := am.edit_known nOld _
  have hindex₁ : Indexed am₁ := h.index.edit (fun _ => rfl) fun _ => rfl
  have htimed₁ : Timed T am₁ := by
    refine h.timed.edit fun _ info _ hok => ?_
    exact ⟨hok.1, hok.2.1, by simp⟩
  have hinfo₁ : am₁.mapInfo n = some info := by
    rw [ham₁, edit_of_ne _ hne, hinfo]
  set am₂ : CAddrMan := { am₁ with
    vvNew := update am₁.vvNew t (insert nOld (am₁.vvNew t))
    nNew := am₁.nNew + 1
    vvTried := update am₁.vvTried k ((am₁.vvTried k).set nPos n) }
  have hknown₂ : am₂.known n = true := by
    show am₁.known n = true
    rw [hknown₁, hknown]
  have hindex₂ : Indexed am₂ := hindex₁.of_eq rfl rfl rfl rfl
  have htimed₂ : Timed T am₂ := htimed₁
  exact
    { index := hindex₂.edit (fun _ => rfl) fun _ => rfl
      placed := by
        refine h.placed.exchange hget hcard ?_ ?_ ?_ rfl rfl rfl
        · have hsame := am₂.edit_refs n (f := fun info => { info with fInTried := true }) fun _ => rfl
          exact hsame.trans hrefs₁
        · have hset : am₂.isTried = update am.isTried nOld false := htried₁
          rw [← hset]
          exact edit_isTried_eq hknown₂ fun _ => rfl
        · exact (am₂.edit_known n _).trans hknown₁
      timed := by
        refine htimed₂.edit fun hT info' hinfo' hok => ⟨hok.1, hok.2.1, fun _ => ?_⟩
        have heq : am₁.mapInfo n = some info' := hinfo'
        rw [hinfo₁, Option.some.injEq] at heq
        rw [← heq]
        exact hsuccess hT
      counted := by
        have := h.counted
        show ((am.vRandom.length : Nat) : Int) = am.nTried + (am.nNew + 1) + 0
        omega }

theorem Inv.unlinkNew (h : Inv T am owedNone none 0) (hknown : am.known n = true) (htried : am.isTried n = false)
    : Inv T (am.unlinkNew n) owedNone (some n) 1 := by
  have hplaces := h.placed.inNew n
  rw [owedNone] at hplaces
  have hrefs : (am.unlinkNew n).refs = update am.refs n 0 := by
    refine edit_refs_eq hknown fun info hinfo => ?_
    rw [refs_of hinfo] at hplaces
    show info.nRefCount - am.newPlaces n = 0
    omega
  have hindex : Indexed (am.edit n fun info => { info with nRefCount := info.nRefCount - am.newPlaces n }) :=
    h.index.edit (fun _ => rfl) fun _ => rfl
  have htimed : Timed T (am.edit n fun info => { info with nRefCount := info.nRefCount - am.newPlaces n }) :=
    h.timed.edit fun _ _ _ hok => hok
  refine ⟨hindex.of_eq rfl rfl rfl rfl, ?_, htimed, ?_⟩
  · exact h.placed.unlink hknown htried hrefs (am.edit_isTried n fun _ => rfl) (am.edit_known n _) rfl rfl rfl
  · have := h.counted
    show ((am.vRandom.length : Nat) : Int) = am.nTried + (am.nNew - 1) + 1
    omega

theorem Inv.appendTried (h : Inv T am owedNone (some n) 1) (hinfo : am.mapInfo n = some info)
    (hsuccess : T → info.nLastSuccess ≠ 0)
    (hroom : (am.vvTried k).length < addrmanTriedBucketSize) : Inv T (am.appendTried n k) owedNone none 0 := by
  have hindex : Indexed (am.edit n fun info => { info with fInTried := true }) :=
    h.index.edit (fun _ => rfl) fun _ => rfl
  have htimed : Timed T (am.edit n fun info => { info with fInTried := true }) := by
    refine h.timed.edit fun hT info' hinfo' hok => ⟨hok.1, hok.2.1, fun _ => ?_⟩
    rw [hinfo, Option.some.injEq] at hinfo'
    rw [← hinfo']
    exact hsuccess hT
  have hrefs : (am.appendTried n k).refs = am.refs :=
    am.edit_refs n (f := fun info => { info with fInTried := true }) fun _ => rfl
  have htried : (am.appendTried n k).isTried = update am.isTried n true :=
    edit_isTried_eq (known_of hinfo) (f := fun info => { info with fInTried := true }) fun _ => rfl
  refine ⟨hindex.of_eq rfl rfl rfl rfl, ?_, htimed, ?_⟩
  · exact h.placed.append hroom hrefs htried (am.edit_known n _) rfl rfl rfl
  · have := h.counted
    show ((am.vRandom.length : Nat) : Int) = (am.nTried + 1) + am.nNew + 0
    omega

theorem Inv.makeTried (h : Inv T am owedNone none 0) (hinfo : am.mapInfo n = some info)
    (htried : info.fInTried = false) (hsuccess : T → info.nLastSuccess ≠ 0) (horigin : n ∈ am.vvNew origin) :
    Settles Exhausted (fun am' => Inv T am' owedNone none 0) (am.makeTried env n origin rand) := by
  have hinv₁ := h.unlinkNew (known_of hinfo) ((isTried_of hinfo).trans htried)
  obtain ⟨-, -, hzero⟩ := hinv₁.placed.limboRefs n rfl
  have hmap₁ : (am.unlinkNew n).mapInfo n
      = some { info with nRefCount := info.nRefCount - am.newPlaces n } := edit_self _ hinfo
  rw [refs_of hmap₁] at hzero
  rw [CAddrMan.makeTried, if_neg (by simpa using horigin)]
  simp only [entry_of_some hmap₁, ok_bind]
  rw [if_neg (not_not.mpr hzero)]
  set am₁ := am.unlinkNew n with ham₁
  set k := info.toCService.getTriedBucket env
  refine Settles.ite (fun hroom => ?_) fun hroom => ?_
  · exact hinv₁.appendTried hmap₁ hsuccess hroom
  · have hne : am₁.vvTried k ≠ [] := by
      intro hnil
      rw [hnil] at hroom
      exact hroom (by decide)
    have hmembers : ∀ m ∈ am₁.vvTried k, am₁.known m = true :=
      fun m hm => Placed.known_of_isTried (hinv₁.placed.isTried_of_mem hm)
    refine (selectTried_settles hmembers hne).bind ?_
    rintro r ⟨xs, nPos, hperm, hlt, rfl⟩
    have hinv₂ : Inv T { am₁ with vvTried := update am₁.vvTried k xs } owedNone (some n) 1 :=
      { index := hinv₁.index.of_eq rfl rfl rfl rfl
        placed := hinv₁.placed.permute hperm
        timed := hinv₁.timed
        counted := hinv₁.counted }
    refine hinv₂.evictTried hmap₁ hsuccess ?_ ?_
    · have hcard := Finset.card_erase_lt_of_mem horigin
      have hsize := h.placed.newSize origin
      show ((am.vvNew origin).erase n).card < addrmanNewBucketSize
      omega
    · show nPos < (update am₁.vvTried k xs k).length
      rw [update_self]
      exact hlt

theorem Inv.good (h : Inv T am owedNone none 0) (htime : T → 0 < nTime) :
    Settles Exhausted (fun am' => Inv T am' owedNone none 0) (am.good env addr nTime rand) := by
  rw [CAddrMan.good]
  cases hfind : am.find addr.ip with
  | none => exact h
  | some found =>
    obtain ⟨nId, info⟩ := found
    obtain ⟨hinfo, -⟩ := h.index.find_some hfind
    simp only
    refine Settles.ite (fun _ => h) fun _ => ?_
    have hinv₁ : Inv T (am.edit nId fun info => { info with
        nLastSuccess := nTime, nLastTry := nTime, nTime := UInt32.ofInt nTime, nAttempts := 0 }) owedNone none 0 := by
      refine h.touch (fun _ => rfl) (fun _ => rfl) (fun _ => rfl) (fun _ => rfl) fun hT info' _ => ?_
      have hpos := htime hT
      exact ⟨le_of_lt hpos, le_of_lt hpos, fun _ => ne_of_gt hpos⟩
    set am₁ := am.edit nId fun info => { info with
      nLastSuccess := nTime, nLastTry := nTime, nTime := UInt32.ofInt nTime, nAttempts := 0 } with ham₁
    have hmap₁ := edit_self (fun info : CAddrInfo => { info with
      nLastSuccess := nTime, nLastTry := nTime, nTime := UInt32.ofInt nTime, nAttempts := 0 }) hinfo
    rw [← ham₁] at hmap₁
    refine Settles.ite (fun _ => hinv₁) fun htried => ?_
    cases hbucket : (List.finRange addrmanNewBucketCount).find? fun n => decide (nId ∈ am₁.vvNew
      (n + ⟨getRandInt (rand 0) addrmanNewBucketCount, Nat.mod_lt _ (by decide)⟩)) with
    | none => exact hinv₁
    | some b =>
      have horigin := List.find?_some hbucket
      refine hinv₁.makeTried hmap₁ (by simpa using htried) (fun hT => ?_) (of_decide_eq_true horigin)
      exact ne_of_gt (htime hT)

theorem Inv.attempt (h : Inv T am owedNone none 0) (htime : T → 0 < nTime) :
    Settles Exhausted (fun am' => Inv T am' owedNone none 0) (am.attempt addr nTime) := by
  rw [CAddrMan.attempt]
  cases hfind : am.find addr.ip with
  | none => exact h
  | some found =>
    obtain ⟨nId, info⟩ := found
    simp only
    refine Settles.ite (fun _ => h) fun _ => Settles.ite (fun _ => rfl) fun _ => ?_
    refine h.touch (fun _ => rfl) (fun _ => rfl) (fun _ => rfl) (fun _ => rfl) fun hT info' hok => ?_
    exact ⟨le_of_lt (htime hT), hok.2⟩

theorem Inv.connected (h : Inv T am owedNone none 0) : Inv T (am.connected addr nTime) owedNone none 0 := by
  rw [CAddrMan.connected]
  cases hfind : am.find addr.ip with
  | none => exact h
  | some found =>
    obtain ⟨nId, info⟩ := found
    simp only
    split_ifs
    · exact h
    · exact h.touch (fun _ => rfl) (fun _ => rfl) (fun _ => rfl) (fun _ => rfl) fun _ _ hok => hok
    · exact h

theorem Indexed.create (h : Indexed am) {addr : CAddress} (hip : info.ip = addr.ip)
    (hpos : info.nRandomPos = am.vRandom.length) (hfind : am.find addr.ip = none)
    (hid : am'.nIdCount = am.nIdCount + 1) (hmap : am'.mapInfo = update am.mapInfo am.nIdCount (some info))
    (haddr : am'.mapAddr = update am.mapAddr addr.ip (some am.nIdCount))
    (hrandom : am'.vRandom = am.vRandom ++ [am.nIdCount]) : Indexed am' := by
  have hnone : am.mapInfo am.nIdCount = none := h.fresh _ (le_refl _)
  refine ⟨?_, ?_, ?_⟩
  · intro m hm
    rw [hid] at hm
    rw [hmap, update_of_ne (by omega)]
    exact h.fresh m (by omega)
  · intro a m
    have haddrOf : am'.addrOf m = if m = am.nIdCount then some addr.ip else am.addrOf m := by
      rw [addrOf, hmap, update_apply]
      split_ifs with hm
      · rw [Option.map_some, hip]
      · rfl
    have hold := h.addressed a m
    rw [haddrOf, haddr, update_apply]
    by_cases ha : a = addr.ip
    · subst ha
      have hnotOld := h.find_none hfind m
      rw [if_pos rfl, Option.some.injEq]
      split_ifs with hm
      · exact ⟨fun _ => rfl, fun _ => hm.symm⟩
      · exact ⟨fun heq => absurd heq.symm hm, fun heq => absurd heq hnotOld⟩
    · rw [if_neg ha]
      split_ifs with hm
      · rw [hold, hm, addrOf, hnone, Option.map_none]
        exact ⟨fun heq => absurd heq (by simp), fun heq => absurd (Option.some.inj heq).symm ha⟩
      · exact hold
  · have hposOf : am'.posOf = update am.posOf am.nIdCount (some (am.vRandom.length : Int)) := by
      funext m
      rw [posOf, hmap, update_apply, update_apply]
      split_ifs with hm
      · rw [Option.map_some, hpos]
      · rfl
    rw [hposOf, hrandom]
    exact h.located.append (by rw [posOf, hnone, Option.map_none])

theorem Inv.create (h : Inv T am owedNone none 0) {addr : CAddress} (hfind : am.find addr.ip = none) :
    Settles Exhausted (fun r => Inv T r.1 owedNone (some r.2) 1) (am.create addr source) := by
  have hnone : am.mapInfo am.nIdCount = none := h.index.fresh _ (le_refl _)
  rw [CAddrMan.create]
  refine Settles.ite (fun _ => rfl) fun _ => ?_
  set info : CAddrInfo := { addr.toInfo source with nRandomPos := am.vRandom.length }
  set am' : CAddrMan := { am with
    nIdCount := am.nIdCount + 1
    mapInfo := update am.mapInfo am.nIdCount (some info)
    mapAddr := update am.mapAddr addr.ip (some am.nIdCount)
    vRandom := am.vRandom ++ [am.nIdCount] }
  have hmap : ∀ m, am'.mapInfo m = if m = am.nIdCount then some info else am.mapInfo m :=
    fun m => update_apply _ _ _ _
  have hrefs : am'.refs = am.refs := by
    funext m
    rw [refs, hmap]
    split_ifs with hm
    · rw [refs, hm, hnone]
      rfl
    · rfl
  have htried : am'.isTried = am.isTried := by
    funext m
    rw [isTried, hmap]
    split_ifs with hm
    · rw [isTried, hm, hnone]
      rfl
    · rfl
  have hknown : ∀ m, am'.known m = true → m = am.nIdCount ∨ am.known m = true := by
    intro m hm
    rw [known, hmap] at hm
    split_ifs at hm with hmn
    · exact Or.inl hmn
    · exact Or.inr hm
  refine ⟨h.index.create rfl rfl hfind rfl rfl rfl rfl, ⟨?_, ?_, ?_, ?_, ?_, ?_, ?_, ?_⟩, ?_, ?_⟩
  · rw [htried]
    exact h.placed.inTried
  · rw [hrefs]
    exact h.placed.inNew
  · rw [htried, hrefs]
    exact h.placed.triedRefs
  · intro m hkm htm hlimbo
    rw [htried] at htm
    rw [hrefs]
    rcases hknown m hkm with rfl | hk
    · exact absurd rfl hlimbo
    · exact h.placed.newRefs m hk htm (by simp)
  · rintro m ⟨⟩
    have hself : am'.mapInfo am.nIdCount = some info := by
      rw [hmap, if_pos rfl]
    exact ⟨known_of hself, isTried_of hself, refs_of hself⟩
  · exact h.placed.triedSize
  · exact h.placed.newSize
  · exact h.placed.triedCount
  · intro hT m info' hinfo'
    rw [hmap] at hinfo'
    split_ifs at hinfo' with hm
    · rw [← Option.some.inj hinfo']
      exact ⟨le_refl _, le_refl _, fun htrue => absurd htrue (by simp [info, CAddress.toInfo])⟩
    · exact h.timed hT m info' hinfo'
  · have := h.counted
    show (((am.vRandom ++ [am.nIdCount]).length : Nat) : Int) = am.nTried + am.nNew + 1
    rw [List.length_append, List.length_singleton]
    omega

theorem Inv.add (h : Inv T am owedNone none 0) {addr : CAddress} {nTimePenalty : Int} :
    Settles Exhausted (fun r => Inv T r.1 owedNone none 0) (am.add env addr source nTimePenalty nNow rand) := by
  rw [CAddrMan.add]
  refine Settles.ite (fun _ => h) fun _ => Settles.ite (fun _ => h) fun _ => ?_
  cases hfind : am.find addr.ip with
  | some found =>
    obtain ⟨nId, info⟩ := found
    obtain ⟨hinfo, -⟩ := h.index.find_some hfind
    simp only
    have hinv₁ : Inv T (am.edit nId fun info => info.refresh addr nTimePenalty nNow) owedNone none 0 :=
      h.touch (fun _ => rfl) (fun _ => rfl) (fun _ => rfl) (fun _ => rfl) fun _ _ hok => hok
    have hmap₁ := edit_self (fun info : CAddrInfo => info.refresh addr nTimePenalty nNow) hinfo
    refine Settles.ite (fun _ => hinv₁) fun hsettled => ?_
    simp only [CAddrInfo.isSettled, Bool.or_eq_true, decide_eq_true_eq, not_or] at hsettled
    obtain ⟨⟨⟨-, htried⟩, hmax⟩, -⟩ := hsettled
    have htried₁ := (isTried_of hmap₁).trans (Bool.not_eq_true _ ▸ htried)
    have hbounds := hinv₁.placed.newRefs nId (known_of hmap₁) htried₁ (by simp)
    rw [refs_of hmap₁] at hbounds
    refine (hinv₁.addToBucket (Or.inl rfl) (known_of hmap₁) htried₁ ?_).bind fun _ hinv => hinv
    rw [refs_of hmap₁]
    omega
  | none =>
    refine (h.create hfind).bind ?_
    rintro ⟨am₁, nId⟩ hinv₁
    have hinv₂ : Inv T (am₁.edit nId fun info =>
        { info with nTime := UInt32.ofInt (max 0 (info.nTime.toNat - nTimePenalty)) }) owedNone (some nId) 1 :=
      hinv₁.touch (fun _ => rfl) (fun _ => rfl) (fun _ => rfl) (fun _ => rfl) fun _ _ hok => hok
    obtain ⟨hknown, htried, hzero⟩ := hinv₂.placed.limboRefs nId rfl
    set am₂ := am₁.edit nId fun info =>
      { info with nTime := UInt32.ofInt (max 0 (info.nTime.toNat - nTimePenalty)) }
    have hinv₃ : Inv T { am₂ with nNew := am₂.nNew + 1 } owedNone (some nId) 0 :=
      { index := hinv₂.index.of_eq rfl rfl rfl rfl
        placed :=
          have hp := hinv₂.placed
          ⟨hp.inTried, hp.inNew, hp.triedRefs, hp.newRefs, hp.limboRefs, hp.triedSize, hp.newSize, hp.triedCount⟩
        timed := hinv₂.timed
        counted := by
          have := hinv₂.counted
          show ((am₂.vRandom.length : Nat) : Int) = am₂.nTried + (am₂.nNew + 1) + 0
          omega }
    refine (hinv₃.addToBucket (Or.inr rfl) hknown htried ?_).bind fun _ hinv => hinv
    show am₂.refs nId < addrmanNewBucketsPerAddress
    rw [hzero]
    decide

theorem Inv.select (h : Inv T am owedNone none 0) {fTried : Bool} {rounds : List SelectRound} :
    Settles Exhausted (fun _ => True) (am.select fTried rounds) := by
  have hmembers : ∀ nBucket, ∀ m ∈ am.selectBucket fTried nBucket, am.known m = true := by
    intro nBucket m hm
    rw [selectBucket] at hm
    split_ifs at hm
    · exact Placed.known_of_isTried (h.placed.isTried_of_mem hm)
    · exact (h.placed.of_mem_new ((Finset.mem_sort _).mp hm) (le_refl _)).1
  rw [CAddrMan.select]
  refine Settles.ite (fun _ => trivial) fun _ => ?_
  induction rounds with
  | nil => trivial
  | cons round rounds ih =>
    rw [selectLoop]
    refine Settles.ite (fun _ => ih) fun hne => ?_
    have hlt := getRandInt_lt round.nPos (Nat.pos_of_ne_zero hne)
    obtain ⟨info, hentry, -⟩ := entry_of_known (hmembers round.nBucket _ (List.getElem_mem hlt))
    simp only [List.getElem?_eq_getElem hlt, hentry, ok_bind]
    exact Settles.ite (fun _ => trivial) fun _ => ih

theorem Inv.getAddr (h : Inv T am owedNone none 0) :
    Settles Exhausted (fun r => Inv T r.1 owedNone none 0) (am.getAddr rand) := by
  let I : List Nat → CAddrMan × List CAddress → Prop := fun _ s =>
    Inv T s.1 owedNone none 0 ∧ s.1.vRandom.length = am.vRandom.length
  have hloop : Settles Exhausted
      (I ([] ++ List.range (min (addrmanGetaddrMaxPct * am.vRandom.length / 100) addrmanGetaddrMax)))
      (am.getAddr rand) := by
    refine Settles.foldlM ?_ ⟨h, rfl⟩
    rintro done ⟨am₁, vAddr⟩ k hk ⟨hinv₁, hlen⟩
    simp only at hinv₁ hlen
    have hklt : k < am₁.vRandom.length := by
      rw [List.mem_range, addrmanGetaddrMaxPct] at hk
      omega
    have hrest : 0 < am₁.vRandom.length - k := by omega
    have hrand := getRandInt_lt (rand k) hrest
    obtain ⟨am₂, hswap, hinv₂, hlen₂⟩ := hinv₁.swapRandom hklt
      (j := getRandInt (rand k) (am₁.vRandom.length - k) + k) (by omega)
    have hklt₂ : k < am₂.vRandom.length := by omega
    obtain ⟨info, hentry, -⟩ := entry_of_known (hinv₂.index.known_of_mem (List.getElem_mem hklt₂))
    simp only [getAddrStep, hswap, ok_bind, List.getElem?_eq_getElem hklt₂, hentry]
    exact ⟨hinv₂, hlen₂.trans hlen⟩
  exact hloop.mono fun _ hI => hI.1

end

end PupaCoin.CAddrMan
