import PupaCoin.Wallet.Proofs.CreateTransactionProofs
import Mathlib.Algebra.Order.BigOperators.Group.List

/-!
# The selection fails only where the coins do not reach the target

The scan over the coins splits the eligible ones into those below a cent more than the target, all of which are kept,
and the others, of which the lowest is kept (`LowerCoins.Splits`).
-/

namespace PupaCoin

variable {st : LowerCoins} {c : CoinRef} {selection : Selection}

theorem sumCoins_le_of_sublist {xs ys : List CoinRef} (h : xs.Sublist ys) (hpos : ∀ c ∈ ys, 0 < c.nValue) :
    sumCoins xs ≤ sumCoins ys := by
  refine (h.map CoinRef.nValue).sum_le_sum fun n hn => ?_
  obtain ⟨c, hc, rfl⟩ := List.mem_map.mp hn
  exact (hpos c hc).le

theorem nValue_le_sumCoins {xs : List CoinRef} (hc : c ∈ xs) (hpos : ∀ c ∈ xs, 0 < c.nValue) :
    c.nValue ≤ sumCoins xs := by
  have h := sumCoins_le_of_sublist (List.singleton_sublist.mpr hc) hpos
  rwa [sumCoins, List.map_singleton, List.sum_singleton] at h

theorem addI64_of_range {a b : Int} (hlow : -2 ^ 63 ≤ a + b) (hhigh : a + b < 2 ^ 63) : addI64 a b = .ok (a + b) :=
  if_pos ⟨hlow, hhigh⟩

/-- The eligible coins seen so far are those below a cent more than the target and others, which are not below the
lowest one that is kept of them. -/
structure LowerCoins.Splits (nTargetValue : Int) (seen : List CoinRef) (st : LowerCoins) : Prop where
  total : st.nTotalLower = sumCoins st.vValue
  lower : st.vValue.Sublist seen
  larger : ∀ c, st.coinLowestLarger = some c → c ∈ seen ∧ nTargetValue + cent ≤ c.nValue
  noLarger : st.coinLowestLarger = none → st.vValue = seen
  lowest : ∀ c ∈ seen, nTargetValue + cent ≤ c.nValue →
    ∃ larger, st.coinLowestLarger = some larger ∧ larger.nValue ≤ c.nValue

section Scan

variable {nTargetValue : Int} {seen : List CoinRef} {st : LowerCoins} {c : CoinRef}

theorem LowerCoins.Splits.empty : LowerCoins.Splits nTargetValue [] ⟨[], 0, none⟩ where
  total := rfl
  lower := List.Sublist.refl _
  larger _ h := nomatch h
  noLarger _ := rfl
  lowest _ h := nomatch h

theorem LowerCoins.Splits.keep (hst : st.Splits nTargetValue seen) (hlow : c.nValue < nTargetValue + cent) :
    LowerCoins.Splits nTargetValue (seen ++ [c])
      { st with vValue := st.vValue ++ [c], nTotalLower := st.nTotalLower + c.nValue } where
  total := by
    show st.nTotalLower + c.nValue = sumCoins (st.vValue ++ [c])
    rw [sumCoins_append, hst.total]
    simp [sumCoins]
  lower := hst.lower.append (List.Sublist.refl _)
  larger d hd := ⟨List.mem_append_left _ (hst.larger d hd).1, (hst.larger d hd).2⟩
  noLarger hnone := by
    show st.vValue ++ [c] = seen ++ [c]
    rw [hst.noLarger hnone]
  lowest d hd hle := by
    rcases List.mem_append.mp hd with hd | hd
    · exact hst.lowest d hd hle
    · rw [List.mem_singleton] at hd
      rw [hd] at hle
      omega

theorem LowerCoins.Splits.replace (hst : st.Splits nTargetValue seen) (hhigh : nTargetValue + cent ≤ c.nValue)
    (hlowest : ∀ larger, st.coinLowestLarger = some larger → c.nValue ≤ larger.nValue) :
    LowerCoins.Splits nTargetValue (seen ++ [c]) { st with coinLowestLarger := some c } where
  total := hst.total
  lower := hst.lower.trans (List.sublist_append_left _ _)
  larger d hd := by
    cases hd
    exact ⟨List.mem_append_right _ List.mem_cons_self, hhigh⟩
  noLarger hnone := nomatch hnone
  lowest d hd hle := by
    refine ⟨c, rfl, ?_⟩
    rcases List.mem_append.mp hd with hd | hd
    · obtain ⟨larger, hlarger, hle'⟩ := hst.lowest d hd hle
      exact (hlowest larger hlarger).trans hle'
    · rw [List.mem_singleton] at hd
      rw [hd]

theorem LowerCoins.Splits.skip (hst : st.Splits nTargetValue seen) {larger : CoinRef}
    (hlarger : st.coinLowestLarger = some larger) (hle : larger.nValue ≤ c.nValue) :
    st.Splits nTargetValue (seen ++ [c]) where
  total := hst.total
  lower := hst.lower.trans (List.sublist_append_left _ _)
  larger d hd := ⟨List.mem_append_left _ (hst.larger d hd).1, (hst.larger d hd).2⟩
  noLarger hnone := nomatch hnone.symm.trans hlarger
  lowest d hd hhigh := by
    rcases List.mem_append.mp hd with hd | hd
    · exact hst.lowest d hd hhigh
    · rw [List.mem_singleton] at hd
      rw [hd]
      exact ⟨larger, hlarger, hle⟩

theorem scanCoins_cons {fits : COutput → Bool} {output : COutput} {rest : List COutput} (hmin : -2 ^ 63 ≤ nTargetValue)
    (hmax : nTargetValue + cent < 2 ^ 63) (hst : st.Splits nTargetValue seen) (hfits : fits output = true)
    (hpos : ∀ c ∈ seen ++ [output.ref], 0 < c.nValue) (hsum : sumCoins (seen ++ [output.ref]) < 2 ^ 62) :
    (output.ref.nValue = nTargetValue ∧ scanCoins nTargetValue fits (output :: rest) st = .ok (.inl output.ref)) ∨
      ∃ st', scanCoins nTargetValue fits (output :: rest) st = scanCoins nTargetValue fits rest st' ∧
        st'.Splits nTargetValue (seen ++ [output.ref]) := by
  have hmem : output.ref ∈ seen ++ [output.ref] := List.mem_append_right _ (List.mem_singleton_self _)
  have hvalue := hpos _ hmem
  have hle := nValue_le_sumCoins hmem hpos
  have hcent : (0 : Int) < cent := by decide
  rw [scanCoins, if_neg (not_not.mpr hfits)]
  by_cases hexact : output.ref.nValue = nTargetValue
  · rw [if_pos hexact]
    exact .inl ⟨hexact, rfl⟩
  rw [if_neg hexact, addI64_of_range (by omega) hmax]
  right
  show ∃ st', (if output.ref.nValue < nTargetValue + cent then _ else _) = scanCoins nTargetValue fits rest st' ∧ _
  by_cases hlow : output.ref.nValue < nTargetValue + cent
  · have hlower : st.nTotalLower + output.ref.nValue ≤ sumCoins (seen ++ [output.ref]) := by
      have hkept := sumCoins_le_of_sublist (hst.keep hlow).lower hpos
      rw [← (hst.keep hlow).total] at hkept
      exact hkept
    have hzero : 0 ≤ st.nTotalLower := by
      rw [hst.total]
      exact sumCoins_le_of_sublist (List.nil_sublist _) fun c hc =>
        hpos c (List.mem_append_left _ (hst.lower.subset hc))
    rw [if_pos hlow, addI64_of_range (by omega) (by omega)]
    exact ⟨_, rfl, hst.keep hlow⟩
  · rw [if_neg hlow]
    cases hlarger : st.coinLowestLarger with
    | none =>
      have hless : output.ref.nValue < (Option.map CoinRef.nValue none).getD (2 ^ 63 - 1) := by
        show output.ref.nValue < 2 ^ 63 - 1
        omega
      rw [if_pos hless]
      exact ⟨_, rfl, hst.replace (not_lt.mp hlow) fun larger h => nomatch hlarger.symm.trans h⟩
    | some larger =>
      show ∃ st', (if output.ref.nValue < larger.nValue then _ else _) = scanCoins nTargetValue fits rest st' ∧ _
      by_cases hless : output.ref.nValue < larger.nValue
      · rw [if_pos hless]
        refine ⟨_, rfl, hst.replace (not_lt.mp hlow) fun d hd => ?_⟩
        rw [← Option.some.inj (hlarger.symm.trans hd)]
        exact hless.le
      · rw [if_neg hless]
        exact ⟨_, rfl, hst.skip hlarger (not_lt.mp hless)⟩

/-- The scan returns: it has found a coin that is the target itself, or it has split all the eligible coins. By
induction on the coins. -/
theorem scanCoins_returns {fits : COutput → Bool} {coins : List COutput} (hmin : -2 ^ 63 ≤ nTargetValue)
    (hmax : nTargetValue + cent < 2 ^ 63) (hst : st.Splits nTargetValue seen)
    (hpos : ∀ c ∈ seen ++ (coins.filter fits).map COutput.ref, 0 < c.nValue)
    (hsum : sumCoins (seen ++ (coins.filter fits).map COutput.ref) < 2 ^ 62) :
    ∃ found, scanCoins nTargetValue fits coins st = .ok found ∧
      ((∃ c, found = .inl c ∧ c ∈ (coins.filter fits).map COutput.ref ∧ c.nValue = nTargetValue) ∨
        ∃ st', found = .inr st' ∧ st'.Splits nTargetValue (seen ++ (coins.filter fits).map COutput.ref)) := by
  induction coins generalizing seen st with
  | nil =>
    refine ⟨.inr st, rfl, .inr ⟨st, rfl, ?_⟩⟩
    rw [List.filter_nil, List.map_nil, List.append_nil]
    exact hst
  | cons output rest ih =>
    by_cases hfits : fits output = true
    swap
    · rw [List.filter_cons_of_neg hfits] at hpos hsum ⊢
      rw [scanCoins, if_pos hfits]
      exact ih hst hpos hsum
    have hsplit : seen ++ output.ref :: (rest.filter fits).map COutput.ref
        = (seen ++ [output.ref]) ++ (rest.filter fits).map COutput.ref := by
      rw [List.append_assoc, List.singleton_append]
    rw [List.filter_cons_of_pos hfits, List.map_cons] at hpos hsum ⊢
    rw [hsplit] at hpos hsum ⊢
    have hstart := sumCoins_le_of_sublist (List.sublist_append_left _ _) hpos
    rcases @scanCoins_cons _ _ _ fits output rest hmin hmax hst hfits (fun c hc => hpos c (List.mem_append_left _ hc))
      (hstart.trans_lt hsum) with ⟨hexact, hscan⟩ | ⟨st', hscan, hst'⟩
    · exact ⟨_, hscan, .inl ⟨_, rfl, List.mem_cons_self, hexact⟩⟩
    · obtain ⟨found, hfound, hcases⟩ := ih hst' hpos hsum
      refine ⟨found, hscan.trans hfound, hcases.imp_left ?_⟩
      rintro ⟨c, hinl, hc, hexact⟩
      exact ⟨c, hinl, List.mem_cons_of_mem _ hc, hexact⟩

end Scan

section Solve

variable {nTargetValue nTotalLower nBest : Int} {vValue : List CoinRef}

theorem solveSubset_returns (choices : SelectionChoices) (htotal : nTotalLower = sumCoins vValue)
    (hreached : nTargetValue ≤ nTotalLower) (hmin : -2 ^ 63 ≤ nTargetValue) (hmax : nTargetValue + cent < 2 ^ 63) :
    ∃ best, solveSubset choices nTargetValue vValue nTotalLower = .ok best ∧
      best.2 = sumCoins (Flags.pick vValue best.1) ∧ nTargetValue ≤ best.2 := by
  have hcent : (0 : Int) < cent := by decide
  have hfirst := approximateBestSubset_best htotal hreached choices.insecureRand 1000
  unfold solveSubset
  dsimp only
  split
  · exact ⟨_, rfl, hfirst⟩
  · rw [addI64_of_range (by omega) hmax]
    show ∃ best, (if nTotalLower ≥ nTargetValue + cent then _ else _) = Except.ok best ∧ _
    split
    · next hmore =>
      obtain ⟨hsum, hle⟩ := approximateBestSubset_best htotal hmore choices.insecureRand' 1000
      exact ⟨_, rfl, hsum, by omega⟩
    · exact ⟨_, rfl, hfirst⟩

theorem takesLarger_some (hmin : -2 ^ 63 ≤ nTargetValue) (hmax : nTargetValue + cent < 2 ^ 63) (larger : CoinRef) :
    takesLarger nTargetValue nBest (some larger)
      = .ok (decide ((nBest ≠ nTargetValue ∧ nBest < nTargetValue + cent) ∨ larger.nValue ≤ nBest)) := by
  have hcent : (0 : Int) < cent := by decide
  rw [takesLarger]
  by_cases hexact : nBest = nTargetValue
  · simp [hexact]
    rfl
  · rw [if_pos hexact, addI64_of_range (by omega) hmax]
    by_cases hless : nBest < nTargetValue + cent
    · simp [hexact, hless]
      rfl
    · simp [hexact, hless]
      rfl

end Solve

section Select

variable {nTargetValue : Int} {eligible seen : List CoinRef}

theorem MinConfSelection.single (hc : c ∈ eligible) (hexact : c.nValue = nTargetValue) :
    MinConfSelection nTargetValue eligible ([c], c.nValue) where
  distinct := List.nodup_singleton _
  mem d hd := by
    rw [List.mem_singleton] at hd
    rw [hd]
    exact hc
  total := by simp [sumCoins]
  reached := hexact.symm.le
  change d _ hle := by
    have hcent : (0 : Int) < cent := by decide
    rw [hexact]
    exact ⟨by omega, .inl (sub_self _)⟩

theorem MinConfSelection.larger (hst : st.Splits nTargetValue eligible)
    (hc : st.coinLowestLarger = some c) : MinConfSelection nTargetValue eligible ([c], c.nValue) where
  distinct := List.nodup_singleton _
  mem d hd := by
    rw [List.mem_singleton] at hd
    rw [hd]
    exact (hst.larger c hc).1
  total := by simp [sumCoins]
  reached := by
    have hcent : (0 : Int) < cent := by decide
    have := (hst.larger c hc).2
    show nTargetValue ≤ c.nValue
    omega
  change d hd hle := by
    obtain ⟨larger, hlarger, hle'⟩ := hst.lowest d hd hle
    rw [← Option.some.inj (hc.symm.trans hlarger)] at hle'
    have := (hst.larger c hc).2
    refine ⟨hle', .inr ?_⟩
    show cent ≤ c.nValue - nTargetValue
    omega

theorem MinConfSelection.all (hst : st.Splits nTargetValue eligible)
    (hdistinct : (eligible.map fun c => (c.hash, c.n)).Nodup) (hexact : st.nTotalLower = nTargetValue) :
    MinConfSelection nTargetValue eligible (st.vValue, sumCoins st.vValue) where
  distinct := hdistinct.sublist (hst.lower.map _)
  mem _ hd := hst.lower.subset hd
  total := rfl
  reached := by rw [← hexact, hst.total]
  change d _ hle := by
    have hcent : (0 : Int) < cent := by decide
    rw [← hst.total, hexact]
    exact ⟨by omega, .inl (sub_self _)⟩

theorem MinConfSelection.best (hst : st.Splits nTargetValue eligible)
    (hdistinct : (eligible.map fun c => (c.hash, c.n)).Nodup) {sorted : List CoinRef} (hsorted : sorted.Perm st.vValue)
    {vfBest : List Bool} (hreached : nTargetValue ≤ sumCoins (Flags.pick sorted vfBest))
    (hbetter : ∀ larger, st.coinLowestLarger = some larger → sumCoins (Flags.pick sorted vfBest) < larger.nValue ∧
      (sumCoins (Flags.pick sorted vfBest) = nTargetValue ∨
        nTargetValue + cent ≤ sumCoins (Flags.pick sorted vfBest))) :
    MinConfSelection nTargetValue eligible (Flags.pick sorted vfBest, sumCoins (Flags.pick sorted vfBest)) where
  distinct := by
    have hkept : (st.vValue.map fun c => (c.hash, c.n)).Nodup := hdistinct.sublist (hst.lower.map _)
    exact ((hsorted.map _).nodup_iff.mpr hkept).sublist ((Flags.pick_sublist sorted vfBest).map _)
  mem _ hd := hst.lower.subset (hsorted.subset ((Flags.pick_sublist sorted vfBest).subset hd))
  total := rfl
  reached := hreached
  change d hd hle := by
    obtain ⟨larger, hlarger, hle'⟩ := hst.lowest d hd hle
    obtain ⟨hless, hchange⟩ := hbetter larger hlarger
    refine ⟨by omega, hchange.imp (fun heq => ?_) fun hmore => ?_⟩
    · rw [heq, sub_self]
    · show cent ≤ sumCoins (Flags.pick sorted vfBest) - nTargetValue
      omega

theorem MinConfSelection.perm {eligible' : List CoinRef} (hperm : eligible'.Perm eligible)
    (h : MinConfSelection nTargetValue eligible' selection) : MinConfSelection nTargetValue eligible selection where
  distinct := h.distinct
  mem c hc := hperm.subset (h.mem c hc)
  total := h.total
  reached := h.reached
  change c hc := h.change c (hperm.symm.subset hc)

theorem MinConfResult.of_selection (hpos : ∀ c ∈ eligible, 0 < c.nValue)
    (h : MinConfSelection nTargetValue eligible selection) : MinConfResult nTargetValue eligible (some selection) := by
  have hnodup : selection.1.Nodup := List.Nodup.of_map _ h.distinct
  obtain ⟨coins, hperm, hsub⟩ := hnodup.subperm h.mem
  have hsum : sumCoins coins = sumCoins selection.1 := (hperm.map CoinRef.nValue).sum_eq
  have hle := sumCoins_le_of_sublist hsub hpos
  have hreached := h.reached
  rw [hsum, ← h.total] at hle
  refine ⟨iff_of_false (Option.some_ne_none _) (by omega), fun found hfound => ?_⟩
  rw [← Option.some.inj hfound]
  exact h

theorem selectRest_returns (choices : SelectionChoices) (hst : st.Splits nTargetValue eligible)
    (hpos : ∀ c ∈ eligible, 0 < c.nValue) (hdistinct : (eligible.map fun c => (c.hash, c.n)).Nodup)
    (hmin : -2 ^ 63 ≤ nTargetValue) (hmax : nTargetValue + cent < 2 ^ 63) :
    ∃ result, (if st.nTotalLower = nTargetValue then Except.ok (some (st.vValue, sumCoins st.vValue))
      else if st.nTotalLower < nTargetValue then
        Except.ok (st.coinLowestLarger.map fun larger => ([larger], larger.nValue))
      else do
        let vValue := (choices.sort st.vValue).val
        let (vfBest, nBest) ← solveSubset choices nTargetValue vValue st.nTotalLower
        match st.coinLowestLarger, ← takesLarger nTargetValue nBest st.coinLowestLarger with
        | some larger, true => return some ([larger], larger.nValue)
        | _, _ => return some (Flags.pick vValue vfBest, sumCoins (Flags.pick vValue vfBest))) = Except.ok result ∧
      MinConfResult nTargetValue eligible result := by
  by_cases hexact : st.nTotalLower = nTargetValue
  · rw [if_pos hexact]
    exact ⟨_, rfl, .of_selection hpos (.all hst hdistinct hexact)⟩
  rw [if_neg hexact]
  by_cases hless : st.nTotalLower < nTargetValue
  · rw [if_pos hless]
    refine ⟨_, rfl, ?_⟩
    cases hlarger : st.coinLowestLarger with
    | none =>
      have hall : sumCoins eligible < nTargetValue := by
        rw [← hst.noLarger hlarger, ← hst.total]
        exact hless
      exact ⟨iff_of_true rfl hall, fun _ h => (nomatch h)⟩
    | some larger => exact .of_selection hpos (.larger hst hlarger)
  rw [if_neg hless]
  obtain ⟨hsorted, -⟩ := (choices.sort st.vValue).property
  have htotal : st.nTotalLower = sumCoins (choices.sort st.vValue).val := by
    rw [hst.total]
    exact ((hsorted.map CoinRef.nValue).sum_eq).symm
  obtain ⟨⟨vfBest, nBest⟩, hsolve, hsum, hreached⟩ := solveSubset_returns choices htotal (not_lt.mp hless) hmin hmax
  dsimp only at hsum hreached ⊢
  rw [hsolve, Guards.ok_bind]
  dsimp only
  rw [hsum] at hreached
  cases hlarger : st.coinLowestLarger with
  | none =>
    exact ⟨_, rfl, .of_selection hpos (.best hst hdistinct hsorted hreached fun _ h => nomatch hlarger.symm.trans h)⟩
  | some larger =>
    rw [takesLarger_some hmin hmax, Guards.ok_bind]
    by_cases htakes : (nBest ≠ nTargetValue ∧ nBest < nTargetValue + cent) ∨ larger.nValue ≤ nBest
    · rw [decide_eq_true htakes]
      exact ⟨_, rfl, .of_selection hpos (.larger hst hlarger)⟩
    · rw [decide_eq_false htakes]
      refine ⟨_, rfl, .of_selection hpos (.best hst hdistinct hsorted hreached fun d hd => ?_)⟩
      rw [← Option.some.inj (hlarger.symm.trans hd), ← hsum]
      omega

end Select

/-- Whatever is drawn, the selection fails if and only if the eligible coins do not reach the target together, and
selects otherwise distinct eligible coins that reach it, no more than the lowest one that is a cent above the target or
more, and then with a change of nothing or of a cent at least. -/
theorem selectCoinsMinConf_returns (choices : SelectionChoices) {nTargetValue : Int} (nSpendTime : UInt32)
    (nConfMine nConfTheirs : Int) {vCoins : List COutput} (hmin : -2 ^ 63 ≤ nTargetValue)
    (hmax : nTargetValue + cent < 2 ^ 63) (hdistinct : (vCoins.map fun output => (output.ref.hash, output.ref.n)).Nodup)
    (hpos : ∀ output ∈ vCoins, 0 < output.ref.nValue) (hsum : sumCoins (vCoins.map COutput.ref) < 2 ^ 62) :
    ∃ result, selectCoinsMinConf choices nTargetValue nSpendTime nConfMine nConfTheirs vCoins = .ok result ∧
      MinConfResult nTargetValue ((vCoins.filter (COutput.isEligible nSpendTime nConfMine nConfTheirs)).map COutput.ref)
        result := by
  have hsub : ((vCoins.filter (COutput.isEligible nSpendTime nConfMine nConfTheirs)).map COutput.ref).Sublist
      (vCoins.map COutput.ref) := List.filter_sublist.map _
  have hperm := ((choices.shuffle vCoins).property.filter
    (COutput.isEligible nSpendTime nConfMine nConfTheirs)).map COutput.ref
  have hposRefs : ∀ c ∈ vCoins.map COutput.ref, 0 < c.nValue := by
    intro c hc
    obtain ⟨output, houtput, rfl⟩ := List.mem_map.mp hc
    exact hpos output houtput
  have hposShuffled := fun c hc => hposRefs c (hsub.subset (hperm.subset hc))
  have hsumShuffled := (hperm.map CoinRef.nValue).sum_eq.trans_lt
    ((sumCoins_le_of_sublist hsub hposRefs).trans_lt hsum)
  have hdistinctRefs : ((vCoins.map COutput.ref).map fun c => (c.hash, c.n)).Nodup := by
    rw [List.map_map]
    exact hdistinct
  have hdistinctShuffled := (hperm.map fun c => (c.hash, c.n)).nodup_iff.mpr (hdistinctRefs.sublist (hsub.map _))
  have hback : ∀ result, MinConfResult nTargetValue (((choices.shuffle vCoins).val.filter
      (COutput.isEligible nSpendTime nConfMine nConfTheirs)).map COutput.ref) result → MinConfResult nTargetValue
        ((vCoins.filter (COutput.isEligible nSpendTime nConfMine nConfTheirs)).map COutput.ref) result := by
    rintro result ⟨hnone, hsome⟩
    refine ⟨hnone.trans ?_, fun selection h => (hsome selection h).perm hperm⟩
    rw [sumCoins, sumCoins, (hperm.map CoinRef.nValue).sum_eq]
  obtain ⟨found, hscan, hcases⟩ := scanCoins_returns hmin hmax LowerCoins.Splits.empty hposShuffled hsumShuffled
  have hrun : selectCoinsMinConf choices nTargetValue nSpendTime nConfMine nConfTheirs vCoins
      = scanCoins nTargetValue (COutput.isEligible nSpendTime nConfMine nConfTheirs) (choices.shuffle vCoins).val
          ⟨[], 0, none⟩ >>= _ := rfl
  rw [hrun, hscan, Guards.ok_bind]
  rcases hcases with ⟨c, rfl, hc, hexact⟩ | ⟨st, rfl, hst⟩
  · exact ⟨_, rfl, hback _ (.of_selection hposShuffled (.single hc hexact))⟩
  · obtain ⟨result, hresult, hfits⟩ := selectRest_returns choices hst hposShuffled hdistinctShuffled hmin hmax
    exact ⟨result, hresult, hback _ hfits⟩

namespace Sample

def twoOutputs : List COutput := [⟨walletTx, ⟨7, 0, 2 * coin⟩, 20, true⟩, ⟨walletTx, ⟨8, 0, 3 * coin⟩, 20, true⟩]

theorem selectCoinsMinConf_twoOutputs :
    ∃ result, selectCoinsMinConf selectionChoices (4 * coin) 200 1 10 twoOutputs = .ok result ∧
      MinConfResult (4 * coin) ((twoOutputs.filter (COutput.isEligible 200 1 10)).map COutput.ref) result :=
  selectCoinsMinConf_returns selectionChoices 200 1 10 (by decide) (by decide) (by decide) (by decide) (by decide)

/-- A cent more than the highest target is no `int64_t`. -/
theorem selectCoinsMinConf_overflow :
    selectCoinsMinConf selectionChoices (2 ^ 63 - 1) 200 1 10 [⟨walletTx, ⟨7, 0, 2 * coin⟩, 20, true⟩]
      = .error (.undefined "signed overflow") := by
  have hshuffle := List.perm_singleton.mp
    (selectionChoices.shuffle [⟨walletTx, ⟨7, 0, 2 * coin⟩, 20, true⟩]).property
  unfold selectCoinsMinConf
  rw [hshuffle]
  rfl

end Sample

end PupaCoin
