import PupaCoin.Wallet.CreateTransaction
import Mathlib.Data.List.Nodup
import Mathlib.Algebra.BigOperators.Group.List.Lemmas

/-!
# What is selected adds up to the target

The subsets that the solver tries have the sums it keeps for them (`Subset.Inv`), and the best one never falls
below the target. The coins that are looked at are those of the wallet, each once.
-/

namespace PupaCoin

variable {i : Nat} {c : CoinRef} {nTotalLower : Int} {choices : SelectionChoices} {seen : List CoinRef}
  {nSpendTime : UInt32} {selection : Selection}

variable {nTargetValue : Int} {vValue : List CoinRef} {st : Subset}

/-- The sums are those of the subsets, and the best subset reaches the target. -/
structure Subset.Inv (nTargetValue : Int) (vValue : List CoinRef) (st : Subset) : Prop where
  size : st.vfIncluded.length = vValue.length
  total : st.nTotal = sumCoins (Flags.pick vValue st.vfIncluded)
  best : st.nBest = sumCoins (Flags.pick vValue st.vfBest)
  reached : nTargetValue ≤ st.nBest

/-- No coin from number `i` on is in the subset. -/
def Subset.freshFrom (st : Subset) (i : Nat) : Prop := ∀ j, i ≤ j → st.vfIncluded[j]? ≠ some true

theorem sumCoins_pick_set {flags : List Bool} (hc : vValue[i]? = some c) (hflag : flags[i]? = some false) :
    sumCoins (Flags.pick vValue (flags.set i true)) = sumCoins (Flags.pick vValue flags) + c.nValue :=
  Flags.sum_pick_set CoinRef.nValue hc hflag

theorem Subset.Inv.tryCoin (hst : st.Inv nTargetValue vValue) (hc : vValue[i]? = some c)
    (hflag : st.vfIncluded[i]? ≠ some true) : (st.tryCoin nTargetValue i c.nValue).Inv nTargetValue vValue
      ∧ ∀ j, j ≠ i → (st.tryCoin nTargetValue i c.nValue).vfIncluded[j]? = st.vfIncluded[j]? := by
  have hlt : i < vValue.length := (List.getElem?_eq_some_iff.mp hc).1
  have hfalse : st.vfIncluded[i]? = some false := by
    have hlt' : i < st.vfIncluded.length := by rw [hst.size]; exact hlt
    rw [List.getElem?_eq_getElem hlt'] at hflag ⊢
    cases hb : st.vfIncluded[i] with
    | false => rfl
    | true => exact absurd (congrArg some hb) hflag
  have hsum := sumCoins_pick_set hc hfalse
  have hback : (st.vfIncluded.set i true).set i false = st.vfIncluded := by
    rw [List.set_set]
    obtain ⟨hlt', hget⟩ := List.getElem?_eq_some_iff.mp hfalse
    rw [← hget, List.set_getElem_self]
  unfold Subset.tryCoin
  dsimp only
  by_cases hreach : st.nTotal + c.nValue ≥ nTargetValue
  · rw [if_pos hreach]
    constructor
    · by_cases hbetter : st.nTotal + c.nValue < st.nBest
      · simp only [if_pos hbetter, hback]
        refine ⟨hst.size, ?_, ?_, hreach⟩
        · rw [← hst.total, add_sub_cancel_right]
        · rw [hsum, ← hst.total]
      · simp only [if_neg hbetter, hback]
        refine ⟨hst.size, ?_, hst.best, hst.reached⟩
        rw [← hst.total, add_sub_cancel_right]
    · intro j _
      simp only [hback]
  · rw [if_neg hreach]
    constructor
    · refine ⟨?_, ?_, hst.best, hst.reached⟩
      · rw [List.length_set, hst.size]
      · rw [hsum, ← hst.total]
    · intro j hj
      exact List.getElem?_set_ne (Ne.symm hj)

theorem Subset.Inv.pass (hst : st.Inv nTargetValue vValue) (wanted : Nat → Subset → Bool) (done rest : List CoinRef)
    (hsplit : vValue = done ++ rest)
    (hfresh : (∀ i st, wanted i st = true → st.vfIncluded[i]? ≠ some true) ∨ st.freshFrom done.length) :
    (Subset.pass nTargetValue wanted done.length rest st).Inv nTargetValue vValue := by
  induction rest generalizing done st with
  | nil => exact hst
  | cons c rest ih =>
    have hsplit' : vValue = (done ++ [c]) ++ rest := by rw [hsplit, List.append_assoc, List.singleton_append]
    have hlength : (done ++ [c]).length = done.length + 1 := by
      rw [List.length_append, List.length_singleton]
    have hc : vValue[done.length]? = some c := by
      rw [hsplit, List.getElem?_append_right (le_refl _), Nat.sub_self, List.getElem?_cons_zero]
    unfold Subset.pass
    rw [← hlength]
    by_cases hwanted : wanted done.length st = true
    · rw [if_pos hwanted]
      have hflag : st.vfIncluded[done.length]? ≠ some true := by
        rcases hfresh with hchecked | hnew
        · exact hchecked _ _ hwanted
        · exact hnew _ (le_refl _)
      obtain ⟨hnext, hsame⟩ := hst.tryCoin hc hflag
      refine ih hnext _ hsplit' ?_
      rcases hfresh with hchecked | hnew
      · exact Or.inl hchecked
      · right
        intro j hj
        rw [hlength] at hj
        rw [hsame j (by omega)]
        exact hnew j (by omega)
    · rw [if_neg hwanted]
      refine ih hst _ hsplit' ?_
      rcases hfresh with hchecked | hnew
      · exact Or.inl hchecked
      · right
        intro j hj
        rw [hlength] at hj
        exact hnew j (by omega)

theorem Subset.Inv.repetition (hbest : st.nBest = sumCoins (Flags.pick vValue st.vfBest))
    (hreached : nTargetValue ≤ st.nBest) (insecureRand : Nat → Bool) :
    (Subset.repetition nTargetValue vValue insecureRand st).Inv nTargetValue vValue := by
  have hempty : Subset.Inv nTargetValue vValue
      { st with vfIncluded := List.replicate vValue.length false, nTotal := 0, fReachedTarget := false } := by
    refine ⟨List.length_replicate, ?_, hbest, hreached⟩
    rw [Flags.pick_none]
    rfl
  have hfresh : Subset.freshFrom
      { st with vfIncluded := List.replicate vValue.length false, nTotal := 0, fReachedTarget := false } 0 := by
    intro j _ hj
    cases List.eq_of_mem_replicate (List.mem_of_getElem? hj)
  have hfirst := hempty.pass (fun i _ => insecureRand i) [] vValue rfl (Or.inr hfresh)
  unfold Subset.repetition
  dsimp only
  split
  · exact hfirst
  · refine hfirst.pass _ [] vValue rfl (Or.inl ?_)
    intro i st hwanted
    rw [beq_iff_eq] at hwanted
    rw [hwanted]
    simp

theorem Subset.repeat_best (st : Subset) (hbest : st.nBest = sumCoins (Flags.pick vValue st.vfBest))
    (hreached : nTargetValue ≤ st.nBest) (insecureRand : Nat → Nat → Bool) (iterations nRep : Nat) :
    (Subset.repeat nTargetValue vValue insecureRand iterations nRep st).nBest
        = sumCoins (Flags.pick vValue (Subset.repeat nTargetValue vValue insecureRand iterations nRep st).vfBest)
      ∧ nTargetValue ≤ (Subset.repeat nTargetValue vValue insecureRand iterations nRep st).nBest := by
  induction iterations generalizing nRep st with
  | zero => exact ⟨hbest, hreached⟩
  | succ iterations ih =>
    unfold Subset.repeat
    by_cases hexact : st.nBest = nTargetValue
    · rw [if_pos hexact]
      exact ⟨hbest, hreached⟩
    · rw [if_neg hexact]
      have hnext := Subset.Inv.repetition hbest hreached (insecureRand nRep)
      exact ih _ hnext.best hnext.reached (nRep + 1)

theorem approximateBestSubset_best (htotal : nTotalLower = sumCoins vValue) (hreached : nTargetValue ≤ nTotalLower)
    (insecureRand : Nat → Nat → Bool) (iterations : Nat) :
    let best := approximateBestSubset nTargetValue insecureRand vValue nTotalLower iterations
    best.2 = sumCoins (Flags.pick vValue best.1) ∧ nTargetValue ≤ best.2 := by
  have hall : nTotalLower = sumCoins (Flags.pick vValue (List.replicate vValue.length true)) := by
    rw [Flags.pick_all, htotal]
  exact Subset.repeat_best ⟨[], 0, false, List.replicate vValue.length true, nTotalLower⟩ hall hreached insecureRand
    iterations 0

theorem solveSubset_spec {nBest : Int} {vfBest : List Bool} (htotal : nTotalLower = sumCoins vValue)
    (hreached : nTargetValue ≤ nTotalLower)
    (hr : solveSubset choices nTargetValue vValue nTotalLower = .ok (vfBest, nBest)) :
    nTargetValue ≤ sumCoins (Flags.pick vValue vfBest) := by
  obtain ⟨hsum, hle⟩ := approximateBestSubset_best htotal hreached choices.insecureRand 1000
  unfold solveSubset at hr
  dsimp only at hr
  split at hr
  · cases hr
    exact hle.trans_eq hsum
  · obtain ⟨nMore, hadd, hr⟩ := Guards.bind_eq_ok.mp hr
    have hmore := addI64_eq_ok hadd
    split at hr
    · next hle =>
      have hflags := congrArg Prod.fst (Except.ok.inj hr)
      have hreached' : nTargetValue + cent ≤ nTotalLower := by omega
      obtain ⟨hsum', hle'⟩ := approximateBestSubset_best htotal hreached' choices.insecureRand' 1000
      have hcent : 0 ≤ cent := by decide
      rw [← show _ = vfBest from hflags]
      omega
    · cases hr
      exact hle.trans_eq hsum

theorem sumCoins_append (xs ys : List CoinRef) : sumCoins (xs ++ ys) = sumCoins xs + sumCoins ys := by
  unfold sumCoins
  rw [List.map_append, List.sum_append]

/-- The coins that have been looked at are among the first ones, and have the sums that are kept for them. -/
structure LowerCoins.Inv (nTargetValue : Int) (seen : List CoinRef) (st : LowerCoins) : Prop where
  total : st.nTotalLower = sumCoins st.vValue
  lower : st.vValue.Sublist seen
  larger : ∀ c, st.coinLowestLarger = some c → c ∈ seen ∧ nTargetValue ≤ c.nValue

theorem LowerCoins.Inv.skip {st : LowerCoins} (hst : st.Inv nTargetValue seen) (c : CoinRef)
    : st.Inv nTargetValue (seen ++ [c]) where
  total := hst.total
  lower := hst.lower.trans (List.sublist_append_left _ _)
  larger d hd := ⟨List.mem_append_left _ (hst.larger d hd).1, (hst.larger d hd).2⟩

theorem scanCoins_spec {fits : COutput → Bool} {coins : List COutput} {st : LowerCoins}
    (hst : st.Inv nTargetValue seen) {found : CoinRef ⊕ LowerCoins}
    (hr : scanCoins nTargetValue fits coins st = .ok found) :
    (∃ c, found = .inl c ∧ c ∈ coins.map COutput.ref ∧ c.nValue = nTargetValue)
      ∨ ∃ st', found = .inr st' ∧ st'.Inv nTargetValue (seen ++ coins.map COutput.ref) := by
  induction coins generalizing seen st with
  | nil =>
    cases hr
    right
    rw [List.map_nil, List.append_nil]
    exact ⟨st, rfl, hst⟩
  | cons output rest ih =>
    have hseen : seen ++ (output :: rest).map COutput.ref
        = (seen ++ [output.ref]) ++ rest.map COutput.ref := by
      rw [List.map_cons, List.append_assoc, List.singleton_append]
    have hnext : ∀ {st : LowerCoins}, scanCoins nTargetValue fits rest st = .ok found →
        st.Inv nTargetValue (seen ++ [output.ref]) →
        (∃ c, found = .inl c ∧ c ∈ (output :: rest).map COutput.ref ∧ c.nValue = nTargetValue)
          ∨ ∃ st', found = .inr st' ∧ st'.Inv nTargetValue (seen ++ (output :: rest).map COutput.ref) := by
      intro st hr hst
      rw [hseen]
      rcases ih hst hr with ⟨c, hfound, hc, hvalue⟩ | hleft
      · exact Or.inl ⟨c, hfound, List.mem_cons_of_mem _ hc, hvalue⟩
      · exact Or.inr hleft
    unfold scanCoins at hr
    dsimp only at hr
    split at hr
    · exact hnext hr (hst.skip _)
    · split at hr
      · next hexact =>
        cases hr
        exact Or.inl ⟨output.ref, rfl, List.mem_cons_self, hexact⟩
      · obtain ⟨nMore, hadd, hr⟩ := Guards.bind_eq_ok.mp hr
        have hmore := addI64_eq_ok hadd
        split at hr
        · obtain ⟨nTotalLower, htotal, hr⟩ := Guards.bind_eq_ok.mp hr
          refine hnext hr ⟨?_, ?_, (hst.skip _).larger⟩
          · show nTotalLower = sumCoins (st.vValue ++ [output.ref])
            rw [addI64_eq_ok htotal, hst.total, sumCoins_append]
            simp [sumCoins]
          · exact hst.lower.append (List.Sublist.refl _)
        · next hlarge =>
          split at hr
          · refine hnext hr ⟨hst.total, (hst.skip _).lower, ?_⟩
            intro c hc
            cases hc
            have hcent : 0 ≤ cent := by decide
            exact ⟨List.mem_append_right _ List.mem_cons_self, by omega⟩
          · exact hnext hr (hst.skip _)

/-- Coins that are selected: each once, among those there are, with their sum, which reaches the target. -/
structure Selected (nTargetValue : Int) (refs : List CoinRef) (selection : Selection) : Prop where
  nodup : selection.1.Nodup
  mem : ∀ c ∈ selection.1, c ∈ refs
  total : selection.2 = sumCoins selection.1
  reached : nTargetValue ≤ selection.2

theorem Selected.single {refs : List CoinRef} (hc : c ∈ refs) (hle : nTargetValue ≤ c.nValue) :
    Selected nTargetValue refs ([c], c.nValue) where
  nodup := List.nodup_singleton _
  mem d hd := by
    rw [List.mem_singleton] at hd
    rw [hd]
    exact hc
  total := by simp [sumCoins]
  reached := hle

theorem selectCoinsMinConf_spec {nConfMine nConfTheirs : Int} {vCoins : List COutput}
    (hnodup : (vCoins.map COutput.ref).Nodup)
    (hr : selectCoinsMinConf choices nTargetValue nSpendTime nConfMine nConfTheirs vCoins
      = .ok (some selection)) :
    Selected nTargetValue (vCoins.map COutput.ref) selection := by
  have hperm : ((choices.shuffle vCoins).val.map COutput.ref).Perm (vCoins.map COutput.ref) :=
    (choices.shuffle vCoins).property.map _
  have hstart : LowerCoins.Inv nTargetValue [] ⟨[], 0, none⟩ :=
    ⟨rfl, List.Sublist.refl _, fun c hc => by cases hc⟩
  unfold selectCoinsMinConf at hr
  obtain ⟨found, hscan, hr⟩ := Guards.bind_eq_ok.mp hr
  rcases scanCoins_spec hstart hscan with ⟨c, rfl, hc, hvalue⟩ | ⟨st, rfl, hst⟩
  · cases hr
    exact Selected.single (hperm.subset hc) (le_of_eq hvalue.symm)
  · rw [List.nil_append] at hst
    have hlower : st.vValue.Nodup := (hperm.nodup_iff.mpr hnodup).sublist hst.lower
    have hmem : ∀ c ∈ st.vValue, c ∈ vCoins.map COutput.ref := fun c hc =>
      hperm.subset (hst.lower.subset hc)
    dsimp only at hr
    by_cases hexact : st.nTotalLower = nTargetValue
    · rw [if_pos hexact] at hr
      cases hr
      exact ⟨hlower, hmem, rfl, by rw [← hexact, hst.total]⟩
    · rw [if_neg hexact] at hr
      by_cases hless : st.nTotalLower < nTargetValue
      · rw [if_pos hless] at hr
        have hlarger : (st.coinLowestLarger.map fun larger => ([larger], larger.nValue)) = some selection :=
          Except.ok.inj hr
        obtain ⟨larger, heq, rfl⟩ := Option.map_eq_some_iff.mp hlarger
        obtain ⟨hin, hle⟩ := hst.larger larger heq
        exact Selected.single (hperm.subset hin) hle
      · rw [if_neg hless] at hr
        obtain ⟨best, hsolve, hr⟩ := Guards.bind_eq_ok.mp hr
        obtain ⟨hsorted, -⟩ := (choices.sort st.vValue).property
        have htotal : st.nTotalLower = sumCoins (choices.sort st.vValue).val := by
          rw [hst.total]
          exact ((hsorted.map CoinRef.nValue).sum_eq).symm
        have hreached := solveSubset_spec htotal (by omega) hsolve
        have hpick := Flags.pick_sublist (choices.sort st.vValue).val best.1
        have hpicked : Selected nTargetValue (vCoins.map COutput.ref)
            (Flags.pick (choices.sort st.vValue).val best.1,
              sumCoins (Flags.pick (choices.sort st.vValue).val best.1)) :=
          ⟨(hsorted.nodup_iff.mpr hlower).sublist hpick,
            fun c hc => hmem c (hsorted.subset (hpick.subset hc)), rfl, hreached⟩
        obtain ⟨takes, -, hr⟩ := Guards.bind_eq_ok.mp hr
        cases hlarger : st.coinLowestLarger with
        | none =>
          rw [hlarger] at hr
          cases hr
          exact hpicked
        | some larger =>
          rw [hlarger] at hr
          cases takes with
          | false =>
            cases hr
            exact hpicked
          | true =>
            cases hr
            obtain ⟨hin, hle⟩ := hst.larger larger hlarger
            exact Selected.single (hperm.subset hin) hle

section Available

variable {w : CWallet} {coinControl : Option CCoinControl} {coinType : AvailableCoinsType} {useIX : Bool}

theorem availableOutput_ref {hash : UInt256} {pcoin : CWalletTx} {txout : CTxOut} {output : COutput}
    (hr : availableOutput w coinControl coinType hash pcoin i txout = some output) :
    output.ref = ⟨hash, i, txout.nValue⟩ := by
  unfold availableOutput at hr
  dsimp only at hr
  split_ifs at hr
  cases hr
  rfl

theorem map_filterMap_sublist {α β γ : Type} {f : α → Option β} {g : α → γ} {k : β → γ}
    (hkey : ∀ a b, f a = some b → k b = g a) (xs : List α) : ((xs.filterMap f).map k).Sublist (xs.map g) := by
  induction xs with
  | nil => exact List.Sublist.refl _
  | cons x xs ih =>
    cases hx : f x with
    | none =>
      rw [List.filterMap_cons_none hx, List.map_cons]
      exact ih.cons _
    | some b =>
      rw [List.filterMap_cons_some hx, List.map_cons, List.map_cons, hkey x b hx]
      exact ih.cons_cons _

def outputsOf (w : CWallet) (coinControl : Option CCoinControl) (coinType : AvailableCoinsType) (useIX : Bool)
    (entry : Σ _ : UInt256, CWalletTx) : List COutput :=
  if entry.2.isAvailable useIX then
    entry.2.tx.vout.zipIdx.filterMap fun (txout, i) =>
      availableOutput w coinControl coinType entry.1 entry.2 i txout
  else []

theorem mem_outputsOf {entry : Σ _ : UInt256, CWalletTx}
    (hc : c ∈ (outputsOf w coinControl coinType useIX entry).map COutput.ref) :
    c.hash = entry.1 ∧ (entry.2.tx.vout[c.n]?).map CTxOut.nValue = some c.nValue := by
  obtain ⟨output, houtput, rfl⟩ := List.mem_map.mp hc
  unfold outputsOf at houtput
  split at houtput
  · obtain ⟨⟨txout, i⟩, hmem, hr⟩ := List.mem_filterMap.mp houtput
    rw [availableOutput_ref hr]
    have hget : entry.2.tx.vout[i]? = some txout := List.mem_zipIdx_iff_getElem?.mp hmem
    refine ⟨rfl, ?_⟩
    show (entry.2.tx.vout[i]?).map CTxOut.nValue = some txout.nValue
    rw [hget]
    rfl
  · cases houtput

theorem nodup_outputsOf (entry : Σ _ : UInt256, CWalletTx) :
    ((outputsOf w coinControl coinType useIX entry).map COutput.ref).Nodup := by
  unfold outputsOf
  split
  · have hnumbers : ((entry.2.tx.vout.zipIdx.filterMap fun (txout, i) =>
        availableOutput w coinControl coinType entry.1 entry.2 i txout).map fun output => output.ref.n).Nodup := by
      have hsub := map_filterMap_sublist (f := fun (txout, i) =>
        availableOutput w coinControl coinType entry.1 entry.2 i txout) (g := Prod.snd)
        (k := fun output => output.ref.n) (fun a b hab => by rw [availableOutput_ref hab])
        entry.2.tx.vout.zipIdx
      refine List.Nodup.sublist hsub ?_
      rw [List.zipIdx_map_snd]
      exact List.nodup_range'
    have hmap : (fun output : COutput => output.ref.n) = CoinRef.n ∘ COutput.ref := rfl
    rw [hmap, ← List.map_map] at hnumbers
    exact List.Nodup.of_map _ hnumbers
  · exact List.nodup_nil

theorem availableCoins_refs : (availableCoins w coinControl coinType useIX).map COutput.ref
      = w.mapWallet.entries.flatMap fun entry =>
        (outputsOf w coinControl coinType useIX entry).map COutput.ref := by
  unfold availableCoins
  rw [List.map_flatMap]
  rfl

theorem nodup_availableCoins : ((availableCoins w coinControl coinType useIX).map COutput.ref).Nodup := by
  rw [availableCoins_refs, List.nodup_flatMap]
  refine ⟨fun entry _ => nodup_outputsOf entry, ?_⟩
  have hkeys : (w.mapWallet.entries.map Sigma.fst).Nodup := w.mapWallet.nodupKeys
  refine (List.pairwise_map.mp hkeys).imp fun hne c hc hc' => ?_
  exact hne ((mem_outputsOf hc).1.symm.trans (mem_outputsOf hc').1)

theorem holds_of_available (hc : c ∈ (availableCoins w coinControl coinType useIX).map COutput.ref) : w.holds c := by
  rw [availableCoins_refs] at hc
  obtain ⟨entry, hentry, hmem⟩ := List.mem_flatMap.mp hc
  obtain ⟨hhash, hvalue⟩ := mem_outputsOf hmem
  refine ⟨entry.2, ?_, hvalue⟩
  rw [hhash]
  exact AList.mem_lookup_iff.mpr hentry

theorem foldlM_addI64 {coins : List CoinRef} {nStart nValueRet : Int}
    (hr : coins.foldlM (fun nValueRet c => addI64 nValueRet c.nValue) nStart = .ok nValueRet) :
    nValueRet = nStart + sumCoins coins := by
  induction coins generalizing nStart with
  | nil =>
    rw [Guards.foldlM_nil_eq_ok] at hr
    rw [← hr]
    exact (add_zero _).symm
  | cons c coins ih =>
    obtain ⟨next, hadd, hrest⟩ := Guards.foldlM_cons_eq_ok.mp hr
    rw [ih hrest, addI64_eq_ok hadd]
    unfold sumCoins
    rw [List.map_cons, List.sum_cons, add_assoc]

theorem selectCoins_spec {choices : Nat → SelectionChoices}
    (hr : selectCoins w choices coinControl coinType useIX nTargetValue nSpendTime = .ok (some selection)) :
    selection.1.Nodup ∧ (∀ c ∈ selection.1, w.holds c) ∧ selection.2 = sumCoins selection.1
      ∧ nTargetValue ≤ selection.2 := by
  have hnodup : ((availableCoins w coinControl coinType useIX).map COutput.ref).Nodup := nodup_availableCoins
  have hselected : Selected nTargetValue ((availableCoins w coinControl coinType useIX).map COutput.ref)
      selection := by
    unfold selectCoins at hr
    dsimp only at hr
    split at hr
    · obtain ⟨nValueRet, hsum, hr⟩ := Guards.bind_eq_ok.mp hr
      have hcoins := Except.ok.inj hr
      split at hcoins
      · next hreached =>
        cases hcoins
        have hsub : (((availableCoins w coinControl coinType useIX).filter COutput.fSpendable).map
            COutput.ref).Sublist ((availableCoins w coinControl coinType useIX).map COutput.ref) :=
          List.filter_sublist.map _
        refine ⟨hnodup.sublist hsub, fun c hc => hsub.subset hc, ?_, hreached⟩
        rw [foldlM_addI64 hsum, zero_add]
      · cases hcoins
    · obtain ⟨first, hfirst, hr⟩ := Guards.bind_eq_ok.mp hr
      cases first with
      | some found =>
        cases hr
        exact selectCoinsMinConf_spec hnodup hfirst
      | none =>
        obtain ⟨second, hsecond, hr⟩ := Guards.bind_eq_ok.mp hr
        cases second with
        | some found =>
          cases hr
          exact selectCoinsMinConf_spec hnodup hsecond
        | none => exact selectCoinsMinConf_spec hnodup hr
  exact ⟨hselected.nodup, fun c hc => holds_of_available (hselected.mem c hc), hselected.total, hselected.reached⟩

end Available

end PupaCoin
