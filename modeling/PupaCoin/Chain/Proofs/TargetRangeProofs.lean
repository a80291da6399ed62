import PupaCoin.Chain.Proofs.SampleProofs

/-!
# The range of the retarget

The targets of a chain of accepted blocks are not negative, by induction along the chain; on top of such a
chain the retarget is computed in closed form.
-/

namespace PupaCoin

variable {chain : List CBlockIndex} {st : CurveState} {n : Int}

theorem compactWord_lt (m : Nat) :
    (if mpiSize m ≤ 3 then m * 256 ^ (3 - mpiSize m) else m / 256 ^ (mpiSize m - 3)) < 2 ^ 23 := by
  unfold mpiSize
  by_cases h0 : m = 0
  · simp [h0]
  · simp only [h0, if_false]
    have hlt : m < 2 ^ (m.log2 + 1) := Nat.lt_log2_self
    have hpow : ∀ k, (256 : Nat) ^ k = 2 ^ (8 * k) := fun k => by rw [pow_mul]; norm_num
    have hsize : m.log2 + 2 ≤ 8 * (m.log2 / 8 + 1 + if m.log2 % 8 = 7 then 1 else 0) := by
      split <;> omega
    generalize (m.log2 / 8 + 1 + if m.log2 % 8 = 7 then 1 else 0) = nSize at hsize ⊢
    split
    · next hle =>
      calc m * 256 ^ (3 - nSize) < 2 ^ (m.log2 + 1) * 2 ^ (8 * (3 - nSize)) := by
            rw [hpow]
            exact Nat.mul_lt_mul_of_pos_right hlt (Nat.two_pow_pos _)
        _ = 2 ^ (m.log2 + 1 + 8 * (3 - nSize)) := (pow_add _ _ _).symm
        _ ≤ 2 ^ 23 := Nat.pow_le_pow_right (by omega) (by omega)
    · next hgt =>
      rw [hpow, Nat.div_lt_iff_lt_mul (Nat.two_pow_pos _), ← pow_add]
      exact lt_of_lt_of_le hlt (Nat.pow_le_pow_right (by omega) (by omega))

theorem setCompact_getCompact_nonneg (hn : 0 ≤ n) : 0 ≤ setCompact (getCompact n) := by
  have hword := compactWord_lt n.natAbs
  unfold getCompact
  simp only [if_neg (not_lt.mpr hn), Nat.add_zero]
  generalize (if mpiSize n.natAbs ≤ 3 then _ else _) = nWord at hword ⊢
  generalize mpiSize n.natAbs = nSize
  unfold setCompact
  simp only [UInt32.toNat_ofNat']
  rw [if_neg (by omega)]
  exact Int.natCast_nonneg _

theorem eq_zero_of_getCompact (hn : 0 ≤ n) (hlt : n < 2 ^ 256) (h : getCompact n = 0) : n = 0 := by
  by_contra hne
  have hm : n.natAbs ≠ 0 := by omega
  have hlog : n.natAbs.log2 < 256 := (Nat.log2_lt hm).mpr (by omega)
  have hword := compactWord_lt n.natAbs
  unfold getCompact at h
  simp only [if_neg (not_lt.mpr hn), Nat.add_zero] at h
  generalize (if mpiSize n.natAbs ≤ 3 then _ else _) = nWord at hword h
  have hsize : 1 ≤ mpiSize n.natAbs ∧ mpiSize n.natAbs ≤ 33 := by
    unfold mpiSize
    rw [if_neg hm]
    split <;> omega
  have hnat := congrArg UInt32.toNat h
  simp only [UInt32.toNat_ofNat', UInt32.toNat_zero] at hnat
  omega

theorem spacingFactor_cases (spacing : Int) :
    ∃ k : ℕ, 2 ≤ k ∧ k ≤ 8 ∧ spacingFactor spacing = k / 4 ∧ (k = 2 ↔ frRateCLNG < spacing) := by
  unfold spacingFactor
  split_ifs with h1 h2 h3 h4 h5
  all_goals simp only [dsRateNRM, dsRateMAX, frRateDWN, frRateFLR, frRateCLNG, blockSpacing,
    blockSpacingMax, not_lt, not_le, ge_iff_le, gt_iff_lt] at *
  · exact ⟨2, by omega, by omega, by norm_num, by omega⟩
  · exact ⟨3, by omega, by omega, by norm_num, by omega⟩
  · exact ⟨4, by omega, by omega, by norm_num, by omega⟩
  · exact ⟨8, by omega, by omega, by norm_num, by omega⟩
  · exact ⟨6, by omega, by omega, by norm_num, by omega⟩
  · exact ⟨5, by omega, by omega, by norm_num, by omega⟩

theorem sum_spacingFactor (xs : List Int) :
    ∃ k : ℕ, 2 * xs.length ≤ k ∧ k ≤ 8 * xs.length ∧ (xs.map spacingFactor).sum = k / 4
      ∧ (k = 2 * xs.length ↔ ∀ spacing ∈ xs, frRateCLNG < spacing) := by
  induction xs with
  | nil => exact ⟨0, by simp, by simp, by simp, by simp⟩
  | cons x xs ih =>
    obtain ⟨k, hlow, hhigh, hsum, hslow⟩ := ih
    obtain ⟨j, hjlow, hjhigh, hfactor, hjslow⟩ := spacingFactor_cases x
    refine ⟨j + k, by rw [List.length_cons]; omega, by rw [List.length_cons]; omega, ?_, ?_⟩
    · rw [List.map_cons, List.sum_cons, hfactor, hsum]
      push_cast
      ring
    · rw [List.length_cons, List.forall_mem_cons, ← hjslow, ← hslow]
      omega

theorem meanFactor_eq (hlen : 6 ≤ chain.length) :
    ∃ k : ℕ, 10 ≤ k ∧ k ≤ 40 ∧ meanFactor chain = k / 20
      ∧ (k = 10 ↔ ∀ spacing ∈ lastSpacings chain, frRateCLNG < spacing) := by
  have hspacings : (lastSpacings chain).length = 5 := by
    simp only [lastSpacings, List.length_take, List.length_zipWith, List.length_tail]
    omega
  obtain ⟨k, hlow, hhigh, hsum, hslow⟩ := sum_spacingFactor (lastSpacings chain)
  rw [hspacings] at hlow hhigh hslow
  refine ⟨k, hlow, hhigh, ?_, hslow⟩
  rw [meanFactor, hsum]
  ring

theorem spacings_eq (rounds : Nat) (chain : List CBlockIndex) (hlen : rounds < chain.length) :
    ∃ xs, spacings rounds chain = .ok xs ∧ xs.length = rounds ∧ xs.map Prod.fst
      = (List.zipWith (fun pindex pprev => pindex.getBlockTime - pprev.getBlockTime) chain
        chain.tail).take rounds := by
  induction rounds generalizing chain with
  | zero => exact ⟨[], rfl, rfl, by simp⟩
  | succ rounds ih =>
    match chain with
    | [] => simp at hlen
    | [_] => simp at hlen
    | pindex :: pprev :: rest =>
      obtain ⟨xs, hxs, hxlen, hmap⟩ := ih (pprev :: rest) (by simpa using hlen)
      refine ⟨(pindex.getBlockTime - pprev.getBlockTime, pprev.isProofOfStake) :: xs, ?_, ?_, ?_⟩
      · simp [spacings, hxs, bind, Except.bind, pure, Except.pure]
      · simp [hxlen]
      · simp only [List.map_cons, hmap]
        rfl

theorem vrxBaseEngine_eq (hlen : 6 ≤ chain.length) (fProofOfStake : Bool) :
    ∃ prevPoW prevPoS, vrxBaseEngine id chain fProofOfStake = .ok (meanFactor chain, prevPoW, prevPoS)
      ∧ (fProofOfStake = true → prevPoW ≤ prevPoS) ∧ (fProofOfStake = false → prevPoS ≤ prevPoW) := by
  obtain ⟨xs, hxs, hxlen, hmap⟩ := spacings_eq 5 chain (by omega)
  have hmean : (xs.map fun round => spacingFactor round.1).sum / averageDivisor = meanFactor chain := by
    rw [meanFactor, lastSpacings, ← hmap, List.map_map]
    rfl
  have hPoS := List.length_filter_le (fun round : Int × Bool => round.2) xs
  have hPoW := List.length_filter_le (fun round : Int × Bool => !round.2) xs
  unfold vrxBaseEngine
  simp only [hxs, bind, Except.bind, id_eq, hmean, pure, Except.pure]
  cases fProofOfStake with
  | true => exact ⟨_, _, rfl, fun _ => by omega, fun h => nomatch h⟩
  | false => exact ⟨_, _, rfl, fun h => (nomatch h), fun _ => by omega⟩

theorem skewAverage_eq {fProofOfStake : Bool} {average : ℚ} {prevPoW prevPoS : Nat}
    (hhalf : 1 / 2 ≤ average) (hstake : fProofOfStake = true → prevPoW ≤ prevPoS)
    (hwork : fProofOfStake = false → prevPoS ≤ prevPoW) :
    skewAverage id fProofOfStake average prevPoW prevPoS = average := by
  have hnoWork : ¬ (prevPoW < prevPoS ∧ ¬ fProofOfStake = true) := by
    rintro ⟨hlt, hkind⟩
    have hle := hwork (by simpa using hkind)
    omega
  have hnoStake : ¬ (prevPoW > prevPoS ∧ fProofOfStake = true) := by
    rintro ⟨hlt, hkind⟩
    have hle := hstake hkind
    omega
  unfold skewAverage
  rw [if_neg hnoWork, if_neg hnoStake]
  exact if_neg (not_lt.mpr hhalf)

/-- What `BN_div` says of a zero divisor. -/
def divisionByZero : Stop := .exception "CBigNum::operator/ : BN_div failed"

theorem vrxSimulateRetarget_eq (average : ℚ) (nBits : UInt32) : vrxSimulateRetarget id average nBits
      = if ⌊10000 * average⌋ = 0 then .error divisionByZero
        else .ok ((setCompact nBits).tdiv ⌊10000 * average⌋ * 10000) := rfl

section Curve

variable {difTime : UInt64} {loopbrk step : Nat} {nBits : UInt32}

theorem div_ascFactorial (average : ℚ) (d r : Nat) :
    average / d / ((d + 1).ascFactorial r : ℕ) = average / (d.ascFactorial (r + 1) : ℕ) := by
  have hnat : d * (d + 1).ascFactorial r = d.ascFactorial (r + 1) := by
    rw [Nat.ascFactorial_succ]
    exact Nat.succ_ascFactorial d r
  rw [div_div, ← hnat, Nat.cast_mul]

theorem floor_div_le {average : ℚ} (haverage : 0 ≤ average) (d : Nat) :
    0 ≤ ⌊10000 * (average / d)⌋ ∧ ⌊10000 * (average / d)⌋ ≤ ⌊10000 * average⌋ := by
  constructor
  · rw [Int.floor_nonneg]
    positivity
  · refine Int.floor_le_floor (mul_le_mul_of_nonneg_left ?_ (by norm_num))
    rcases Nat.eq_zero_or_pos d with rfl | hd
    · simpa using haverage
    · exact div_le_self haverage (by exact_mod_cast hd)

theorem extendedCurve_rounds (r fuel : Nat) {m d : Nat} {average : ℚ} (haverage : 0 ≤ average)
    (hrounds : ∀ j < r, difTime.toNat > (m + j * step) * 60 ∧ m + j * step ≤ loopbrk) :
    extendedCurve id false difTime loopbrk step nBits (fuel + r) ⟨average, m, d⟩
      = if r ≠ 0 ∧ ⌊10000 * (average / (d.ascFactorial r : ℕ))⌋ = 0 then .error divisionByZero
        else extendedCurve id false difTime loopbrk step nBits fuel
          ⟨average / (d.ascFactorial r : ℕ), m + r * step, d + r⟩ := by
  induction r generalizing m d average with
  | zero => simp
  | succ r ih =>
    obtain ⟨hdue, hbreak⟩ := hrounds 0 (by omega)
    rw [Nat.zero_mul, Nat.add_zero] at hdue hbreak
    have hrest := @ih (m + step) (d + 1) (average / d) (div_nonneg haverage (Nat.cast_nonneg d))
      (fun j hj => by
        have := hrounds (j + 1) (by omega)
        rwa [show m + (j + 1) * step = m + step + j * step by ring] at this)
    rw [div_ascFactorial, show m + step + r * step = m + (r + 1) * step by ring,
      show d + 1 + r = d + (r + 1) by ring] at hrest
    obtain ⟨hpos, hmono⟩ := floor_div_le (div_nonneg haverage (Nat.cast_nonneg d)) ((d + 1).ascFactorial r)
    rw [div_ascFactorial] at hpos hmono
    rw [← Nat.add_assoc, extendedCurve, if_neg (by simpa using hdue), if_neg (by simp), if_neg (not_lt.mpr hbreak)]
    simp only [vrxSimulateRetarget_eq, id_eq]
    by_cases hzero : ⌊10000 * (average / d)⌋ = 0
    · rw [if_pos hzero, if_pos ⟨by omega, by omega⟩]
      rfl
    · rw [if_neg hzero]
      simp only [bind, Except.bind, hrest]
      by_cases hend : ⌊10000 * (average / (d.ascFactorial (r + 1) : ℕ))⌋ = 0
      · have hr : r ≠ 0 := by
          rintro rfl
          apply hzero
          simpa [Nat.ascFactorial_succ] using hend
        rw [if_pos ⟨hr, hend⟩, if_pos ⟨by omega, hend⟩]
      · rw [if_neg fun h => hend h.2, if_neg fun h => hend h.2]

theorem extendedCurve_stops (fuel : Nat) (hlast : ¬ difTime.toNat > st.minuteRounds * 60) :
    extendedCurve id false difTime loopbrk step nBits fuel st = .ok (some st.terminalAverage) := by
  cases fuel <;> simp [extendedCurve, hlast]

theorem extendedCurve_resets (fuel : Nat) (hdue : difTime.toNat > st.minuteRounds * 60)
    (hbreak : st.minuteRounds > loopbrk) :
    extendedCurve id false difTime loopbrk step nBits (fuel + 1) st = .ok none := by
  simp [extendedCurve, hdue, hbreak]

theorem extendedCurve_closed {average : ℚ} (haverage : 0 ≤ average) {m r resetTime : Nat} (hr : r ≤ 7)
    (hrounds : ∀ j < r, difTime.toNat > (m + j * step) * 60 ∧ m + j * step ≤ loopbrk)
    (hreset : resetTime < difTime.toNat → difTime.toNat > (m + r * step) * 60 ∧ m + r * step > loopbrk)
    (hstop : ¬ resetTime < difTime.toNat → ¬ difTime.toNat > (m + r * step) * 60) :
    extendedCurve id false difTime loopbrk step nBits 8 ⟨average, m, 2⟩
      = if r ≠ 0 ∧ ⌊10000 * (average / ((r + 1).factorial : ℕ))⌋ = 0 then .error divisionByZero
        else if resetTime < difTime.toNat then .ok none
        else .ok (some (average / ((r + 1).factorial : ℕ))) := by
  have hfactorial : (2 : Nat).ascFactorial r = (r + 1).factorial := by
    have h := Nat.factorial_mul_ascFactorial 1 r
    rw [Nat.factorial_one, Nat.one_mul, Nat.add_comm 1 r] at h
    exact h
  have hrun := @extendedCurve_rounds difTime loopbrk step nBits r (7 - r + 1) m 2 average haverage hrounds
  have hfuel : 7 - r + 1 + r = 8 := by omega
  rw [hfuel, hfactorial] at hrun
  have hleft : extendedCurve id false difTime loopbrk step nBits (7 - r + 1)
      ⟨average / ((r + 1).factorial : ℕ), m + r * step, 2 + r⟩
      = if resetTime < difTime.toNat then .ok none
        else .ok (some (average / ((r + 1).factorial : ℕ))) := by
    by_cases hend : resetTime < difTime.toNat
    · obtain ⟨hdue, hbreak⟩ := hreset hend
      rw [if_pos hend]
      exact extendedCurve_resets (7 - r) hdue hbreak
    · have hnotDue := hstop hend
      rw [if_neg hend]
      exact extendedCurve_stops (7 - r + 1) hnotDue
  rw [hrun, hleft]

theorem extendedCurve_eq {average : ℚ} (haverage : 0 ≤ average) (nHeight : Nat) :
    extendedCurve id false difTime (if nHeight > 63000 then 65 else 20) (if nHeight > 63000 then 5 else 1)
        nBits 8 ⟨average, if nHeight > 63000 then 45 else 15, 2⟩
      = if curveRounds nHeight difTime.toNat ≠ 0
          ∧ ⌊10000 * (average / ((curveRounds nHeight difTime.toNat + 1).factorial : ℕ))⌋ = 0
        then .error divisionByZero
        else if curveEnd nHeight < difTime.toNat then .ok none
        else .ok (some (average / ((curveRounds nHeight difTime.toNat + 1).factorial : ℕ))) := by
  unfold curveRounds curveEnd
  by_cases hhigh : nHeight > 63000
  · simp only [hhigh, if_true]
    refine extendedCurve_closed haverage (by omega) (fun j hj => by omega) (fun h => by omega)
      (fun h => by omega)
  · simp only [hhigh, if_false]
    refine extendedCurve_closed haverage (by omega) (fun j hj => by omega) (fun h => by omega)
      (fun h => by omega)

end Curve

theorem floor_curve {k r : Nat} (hk : 10 ≤ k) (hr : r ≤ 6) :
    ⌊10000 * ((k : ℚ) / 20 / ((r + 1).factorial : ℕ))⌋ = 0 ↔ r = 6 ∧ k = 10 := by
  rw [Int.floor_eq_zero_iff, Set.mem_Ico]
  have hk' : (10 : ℚ) ≤ k := by exact_mod_cast hk
  constructor
  · rintro ⟨-, hlt⟩
    have hr6 : r = 6 := by
      by_contra hne
      have hfac : ((r + 1).factorial : ℚ) ≤ 720 := by
        have hle : (r + 1).factorial ≤ Nat.factorial 6 := Nat.factorial_le (by omega)
        exact_mod_cast hle
      have hpos : (0 : ℚ) < (r + 1).factorial := by exact_mod_cast Nat.factorial_pos _
      rw [mul_div_assoc', div_lt_one hpos] at hlt
      linarith
    subst hr6
    refine ⟨rfl, ?_⟩
    by_contra hne
    have hk11 : (11 : ℚ) ≤ k := by exact_mod_cast (show 11 ≤ k by omega)
    rw [mul_div_assoc', div_lt_one (by positivity)] at hlt
    norm_num [Nat.factorial] at hlt
    linarith
  · rintro ⟨rfl, rfl⟩
    norm_num [Nat.factorial]

theorem standardCurve_eq (average : ℚ) (difTime : Nat) : [15, 16, 17, 18].foldl (fun (average : ℚ) hours =>
        if difTime > hours * 60 * 60 then id (average / 2) else average) average
      = average / ((2 ^ hoursPassed difTime : ℕ) : ℚ) := by
  simp only [List.foldl_cons, List.foldl_nil, id_eq]
  have hcases : hoursPassed difTime = 0 ∧ difTime ≤ 54000
      ∨ hoursPassed difTime = 1 ∧ 54000 < difTime ∧ difTime ≤ 57600
      ∨ hoursPassed difTime = 2 ∧ 57600 < difTime ∧ difTime ≤ 61200
      ∨ hoursPassed difTime = 3 ∧ 61200 < difTime ∧ difTime ≤ 64800
      ∨ hoursPassed difTime = 4 ∧ 64800 < difTime := by
    unfold hoursPassed
    omega
  rcases hcases with ⟨h, hd⟩ | ⟨h, hd⟩ | ⟨h, hd⟩ | ⟨h, hd⟩ | ⟨h, hd⟩ <;> rw [h] <;>
    (split_ifs <;> first | omega | (push_cast; ring))

section Retarget

variable {params : CChainParams} {n : Node} {chain rest : List CBlockIndex} {fProofOfStake : Bool}
  {pindexLast velocityType prevVelocityType best : CBlockIndex}

theorem vrxThreadCurve_eq (hlen : 6 ≤ chain.length) (hhead : chain.head? = some pindexLast) (fDiffTooLow : Bool) :
    let c : RetargetCase := ⟨pindexLast, velocityType, prevVelocityType, fDiffTooLow⟩
    let curve := vrxThreadCurve id fDiffTooLow chain (velocityType :: prevVelocityType :: rest) fProofOfStake
    (c.SixthRound chain → curve = .error divisionByZero)
      ∧ (¬ c.SixthRound chain → c.Resets → curve = .ok none)
      ∧ (¬ c.SixthRound chain → ¬ c.Resets → curve = .ok (some (meanFactor chain / c.divisor))) := by
  obtain ⟨k, hk10, hk40, hmean, hslow⟩ := meanFactor_eq hlen
  obtain ⟨prevPoW, prevPoS, hengine, hstake, hwork⟩ := vrxBaseEngine_eq hlen fProofOfStake
  have hk : (10 : ℚ) ≤ k := by exact_mod_cast hk10
  have hhalf : 1 / 2 ≤ meanFactor chain := by
    rw [hmean]
    linarith
  have hskew := skewAverage_eq hhalf hstake hwork
  intro c curve
  have hcurve : curve = if pindexLast.nHeight > 7500 then
      extendedCurve id fDiffTooLow (timeDifference pindexLast.getBlockTime velocityType.getBlockTime)
        (if pindexLast.nHeight > 63000 then 65 else 20) (if pindexLast.nHeight > 63000 then 5 else 1)
        velocityType.nBits 8 ⟨meanFactor chain, if pindexLast.nHeight > 63000 then 45 else 15, 2⟩
      else .ok (some (meanFactor chain / ((2 ^ hoursPassed c.kindSpacing : ℕ) : ℚ))) := by
    simp only [curve, vrxThreadCurve, hengine, hskew, hhead, orUndefined, bind, Except.bind, List.head?_cons,
      List.tail_cons]
    by_cases hheight : pindexLast.nHeight > 7500
    · simp only [hheight, if_true]
      by_cases hhigh : pindexLast.nHeight > 63000 <;> simp only [hhigh, if_true, if_false]
    · simp only [hheight, if_false, pure, Except.pure]
      rw [← standardCurve_eq]
      rfl
  rw [hcurve]
  by_cases hheight : pindexLast.nHeight > 7500
  · rw [if_pos hheight]
    cases hlow : fDiffTooLow with
    | true =>
      have hlowc : c.fDiffTooLow = true := hlow
      have hdivisor : c.divisor = 1 := by
        simp only [RetargetCase.divisor, hlowc, if_true]
        rw [if_pos hheight]
      refine ⟨fun h => ?_, fun _ h => ?_, fun _ _ => ?_⟩
      · rw [h.2.2.1] at hlowc
        cases hlowc
      · rw [h.2.1] at hlowc
        cases hlowc
      · rw [hdivisor, Nat.cast_one, div_one]
        simp [extendedCurve]
    | false =>
      have hlowc : c.fDiffTooLow = false := hlow
      have hrounds : curveRounds pindexLast.nHeight c.difTime ≤ 6 := by
        unfold curveRounds
        split <;> omega
      have hdivisor : c.divisor = (curveRounds pindexLast.nHeight c.difTime + 1).factorial := by
        simp only [RetargetCase.divisor, hlowc]
        rw [if_pos hheight]
        rfl
      have hsixth : c.SixthRound chain ↔ curveRounds pindexLast.nHeight c.difTime ≠ 0
          ∧ ⌊10000 * (meanFactor chain / ((curveRounds pindexLast.nHeight c.difTime + 1).factorial : ℕ))⌋
            = 0 := by
        rw [hmean, floor_curve hk10 hrounds]
        have hsix : curveRounds pindexLast.nHeight c.difTime = 6
            ↔ pindexLast.nHeight ≤ 63000 ∧ 20 * 60 < c.difTime := by
          unfold curveRounds
          split <;> omega
        constructor
        · rintro ⟨-, hle, -, hlong, hall⟩
          have h6 := hsix.mpr ⟨hle, hlong⟩
          exact ⟨by omega, h6, hslow.mpr hall⟩
        · rintro ⟨-, h6, h10⟩
          obtain ⟨hle, hlong⟩ := hsix.mp h6
          exact ⟨hheight, hle, hlowc, hlong, hslow.mp h10⟩
      rw [extendedCurve_eq (le_trans (by norm_num) hhalf)]
      refine ⟨fun h => ?_, fun hno h => ?_, fun hno h => ?_⟩
      · exact if_pos (hsixth.mp h)
      · exact (if_neg fun hz => hno (hsixth.mpr hz)).trans (if_pos h.2.2)
      · rw [hdivisor]
        exact (if_neg fun hz => hno (hsixth.mpr hz)).trans
          (if_neg fun hlt => h ⟨hheight, hlowc, hlt⟩)
  · rw [if_neg hheight]
    have hdivisor : c.divisor = 2 ^ hoursPassed c.kindSpacing := if_neg hheight
    refine ⟨fun h => absurd h.1 hheight, fun _ h => absurd h.1 hheight, fun _ _ => ?_⟩
    rw [hdivisor]

theorem floor_of_vrxThreadCurve (hlen : 6 ≤ chain.length) (hhead : chain.head? = some pindexLast)
    {fDiffTooLow : Bool} {average : ℚ}
    (hcurve : vrxThreadCurve id fDiffTooLow chain (velocityType :: prevVelocityType :: rest) fProofOfStake
      = .ok (some average)) :
    let c : RetargetCase := ⟨pindexLast, velocityType, prevVelocityType, fDiffTooLow⟩
    ¬ c.SixthRound chain ∧ ¬ c.Resets ∧ 0 ≤ ⌊10000 * average⌋ ∧ average = meanFactor chain / c.divisor := by
  intro c
  obtain ⟨hsixth, hresets, hdivides⟩ := @vrxThreadCurve_eq chain rest fProofOfStake pindexLast velocityType
    prevVelocityType hlen hhead fDiffTooLow
  have hnoSixth : ¬ c.SixthRound chain := by
    intro h
    rw [hsixth h] at hcurve
    cases hcurve
  have hnoReset : ¬ c.Resets := by
    intro h
    rw [hresets hnoSixth h] at hcurve
    cases hcurve
  obtain ⟨k, -, -, hmean, -⟩ := meanFactor_eq hlen
  rw [hdivides hnoSixth hnoReset] at hcurve
  have haverage : average = meanFactor chain / c.divisor :=
    (Option.some.inj (Except.ok.inj hcurve)).symm
  refine ⟨hnoSixth, hnoReset, ?_, haverage⟩
  rw [haverage, hmean, Int.floor_nonneg]
  positivity

theorem getNextTarget_dry (hhead : chain.head? = some pindexLast) (hdry : DryRun n pindexLast) :
    getNextTargetRequiredWith id params n chain fProofOfStake
      = .ok (getCompact (params.velocityLimit fProofOfStake)) := by
  have hrun : vrxDryRun n pindexLast = .ok true := by
    unfold vrxDryRun
    by_cases hshort : pindexLast.nHeight < 6 + 124
    · rw [if_pos hshort]
    · obtain ⟨best, hbest, hfork⟩ := hdry.resolve_left hshort
      rw [if_neg hshort, hbest]
      simp [orUndefined, bind, Except.bind, pure, Except.pure, hfork]
  unfold getNextTargetRequiredWith vrxRetarget
  simp only [hhead, orUndefined, hrun, bind, Except.bind, if_true]
  rfl

theorem getNextTarget_curve (hhead : chain.head? = some pindexLast) (hdry : ¬ DryRun n pindexLast)
    (hbest : n.pindexBest.bind n.mapBlockIndex.entries = some best) :
    getNextTargetRequiredWith id params n chain fProofOfStake
      = match vrxThreadCurve id (prevDiffBelowOneWith id n fProofOfStake) chain
          (getLastBlockIndex fProofOfStake chain) fProofOfStake with
        | .error e => .error e
        | .ok none => .ok (getCompact (params.velocityLimit fProofOfStake))
        | .ok (some average) =>
          match (getLastBlockIndex fProofOfStake chain).head? with
          | none => .error (.undefined "BlockVelocityType")
          | some velocityType =>
            if ⌊10000 * average⌋ = 0 then .error divisionByZero
            else .ok (getCompact (min (params.velocityLimit fProofOfStake)
              ((setCompact velocityType.nBits).tdiv ⌊10000 * average⌋ * 10000))) := by
  have hrun : vrxDryRun n pindexLast = .ok false := by
    unfold vrxDryRun
    rw [if_neg fun hshort => hdry (Or.inl hshort), hbest]
    have hfork : best.nHeight ≠ 725 := fun hfork => hdry (Or.inr ⟨best, hbest, hfork⟩)
    simp [orUndefined, bind, Except.bind, pure, Except.pure, hfork]
  unfold getNextTargetRequiredWith vrxRetarget
  simp only [hhead, orUndefined, hrun, bind, Except.bind, Bool.false_eq_true, if_false]
  cases vrxThreadCurve id (prevDiffBelowOneWith id n fProofOfStake) chain
    (getLastBlockIndex fProofOfStake chain) fProofOfStake with
  | error e => rfl
  | ok curve =>
    cases curve with
    | none => rfl
    | some average =>
      cases (getLastBlockIndex fProofOfStake chain).head? with
      | none => rfl
      | some velocityType =>
        simp only [vrxSimulateRetarget_eq]
        by_cases hzero : ⌊10000 * average⌋ = 0
        · simp only [hzero, if_true]
        · simp only [hzero, if_false, pure, Except.pure]
          congr 2
          change (if _ > params.velocityLimit fProofOfStake then params.velocityLimit fProofOfStake else _) = _
          split <;> omega

theorem getLastBlockIndex_suffix (fProofOfStake : Bool) (chain : List CBlockIndex) :
    getLastBlockIndex fProofOfStake chain <:+ chain
      ∧ (chain ≠ [] → getLastBlockIndex fProofOfStake chain ≠ []) := by
  induction chain with
  | nil => simp [getLastBlockIndex]
  | cons pindex rest ih =>
    cases rest with
    | nil => simp [getLastBlockIndex]
    | cons pprev rest =>
      unfold getLastBlockIndex
      split
      · exact ⟨ih.1.trans (List.suffix_cons _ _), fun _ => ih.2 (by simp)⟩
      · simp

theorem vrxThreadCurve_parentless (hlen : 6 ≤ chain.length) (hhead : chain.head? = some pindexLast)
    (fDiffTooLow : Bool) : vrxThreadCurve id fDiffTooLow chain [velocityType] fProofOfStake
      = .error (.undefined "BlockVelocityType->pprev") := by
  obtain ⟨prevPoW, prevPoS, hengine, -, -⟩ := vrxBaseEngine_eq hlen fProofOfStake
  simp only [vrxThreadCurve, hengine, hhead, orUndefined, bind, Except.bind, List.head?_cons,
    List.tail_cons, List.head?_nil]

theorem networks_limits (hparams : params ∈ networks) (fProofOfStake : Bool) :
    0 < params.velocityLimit fProofOfStake ∧ params.velocityLimit fProofOfStake < 2 ^ 256 := by
  simp only [networks, List.mem_cons, List.not_mem_nil, or_false] at hparams
  rcases hparams with rfl | rfl | rfl <;> cases fProofOfStake <;> decide

namespace AcceptedChain

theorem length (hchain : AcceptedChain params chain) (hhead : chain.head? = some pindexLast) :
    chain.length = pindexLast.nHeight + 1 := by
  induction hchain generalizing pindexLast with
  | genesis h0 _ =>
    obtain rfl := Option.some.inj hhead
    rw [h0]
    rfl
  | accept n _ hup _ _ _ ih =>
    obtain rfl := Option.some.inj hhead
    rw [List.length_cons, ih rfl, hup]

theorem nonneg_step (hparams : params ∈ networks) (hlength : chain.length = pindexLast.nHeight + 1)
    (hhead : chain.head? = some pindexLast) (hnonneg : ∀ pindex ∈ chain, 0 ≤ setCompact pindex.nBits)
    {nBits : UInt32} (htarget : getNextTargetRequiredWith id params n chain fProofOfStake = .ok nBits) :
    0 ≤ setCompact nBits := by
  obtain ⟨hpos, hlt⟩ := networks_limits hparams fProofOfStake
  by_cases hdry : DryRun n pindexLast
  · rw [getNextTarget_dry hhead hdry] at htarget
    obtain rfl := Except.ok.inj htarget
    exact setCompact_getCompact_nonneg hpos.le
  cases hbest : n.pindexBest.bind n.mapBlockIndex.entries with
  | none =>
    have hhigh : ¬ pindexLast.nHeight < 6 + 124 := fun hshort => hdry (Or.inl hshort)
    simp [getNextTargetRequiredWith, vrxRetarget, hhead, orUndefined, vrxDryRun, hhigh, hbest, bind,
      Except.bind] at htarget
  | some best =>
    have hlong : 6 ≤ chain.length := by
      have hhigh : ¬ pindexLast.nHeight < 130 := fun hshort => hdry (Or.inl hshort)
      omega
    obtain ⟨hsuffix, -⟩ := getLastBlockIndex_suffix fProofOfStake chain
    rw [getNextTarget_curve hhead hdry hbest] at htarget
    generalize getLastBlockIndex fProofOfStake chain = velocity at hsuffix htarget
    rcases velocity with _ | ⟨velocityType, _ | ⟨prevVelocityType, rest⟩⟩
    · split at htarget
      · cases htarget
      · obtain rfl := Except.ok.inj htarget
        exact setCompact_getCompact_nonneg hpos.le
      · cases htarget
    · rw [vrxThreadCurve_parentless hlong hhead] at htarget
      cases htarget
    · have hold := hnonneg velocityType (hsuffix.subset (by simp))
      split at htarget
      · cases htarget
      · obtain rfl := Except.ok.inj htarget
        exact setCompact_getCompact_nonneg hpos.le
      · next average haverage =>
        obtain ⟨-, -, hfloor, -⟩ := floor_of_vrxThreadCurve hlong hhead haverage
        simp only [List.head?_cons] at htarget
        split at htarget
        · cases htarget
        · obtain rfl := Except.ok.inj htarget
          have hdiv : 0 ≤ (setCompact velocityType.nBits).tdiv ⌊10000 * average⌋ :=
            Int.tdiv_nonneg hold hfloor
          exact setCompact_getCompact_nonneg (le_min hpos.le (by omega))

/-- Targets of accepted blocks are not negative. By induction along the chain. -/
theorem nonneg (hparams : params ∈ networks) (hchain : AcceptedChain params chain) :
    ∀ pindex ∈ chain, 0 ≤ setCompact pindex.nBits := by
  induction hchain with
  | genesis _ hbits =>
    intro pindex hpindex
    obtain rfl := List.mem_singleton.mp hpindex
    rw [hbits]
    exact setCompact_getCompact_nonneg (networks_limits hparams false).1.le
  | accept n hprev _ _ _ htarget ih =>
    have hlength := hprev.length rfl
    rw [List.forall_mem_cons]
    exact ⟨nonneg_step hparams hlength rfl ih htarget, ih⟩

end AcceptedChain

theorem floor_pos (c : RetargetCase) (hlen : 6 ≤ chain.length) (hsixth : ¬ c.SixthRound chain) :
    0 < ⌊10000 * (meanFactor chain / c.divisor)⌋ := by
  obtain ⟨k, hk10, -, hmean, hslow⟩ := meanFactor_eq hlen
  have hk : (10 : ℚ) ≤ k := by exact_mod_cast hk10
  have hsmall : ∀ d : ℕ, 1 ≤ d → d ≤ 16 → 0 < ⌊10000 * (meanFactor chain / d)⌋ := by
    intro d hd1 hd16
    have hd0 : (0 : ℚ) < d := by exact_mod_cast hd1
    have hd : (d : ℚ) ≤ 16 := by exact_mod_cast hd16
    rw [Int.floor_pos, hmean, mul_div_assoc', le_div_iff₀ hd0]
    linarith
  by_cases hheight : c.pindexLast.nHeight > 7500
  · cases hlow : c.fDiffTooLow with
    | true =>
      have hdivisor : c.divisor = 1 := by simp [RetargetCase.divisor, hheight, hlow]
      rw [hdivisor]
      exact hsmall 1 (by omega) (by omega)
    | false =>
      have hdivisor : c.divisor = (curveRounds c.pindexLast.nHeight c.difTime + 1).factorial := by
        simp [RetargetCase.divisor, hheight, hlow]
      have hrounds : curveRounds c.pindexLast.nHeight c.difTime ≤ 6 := by
        unfold curveRounds
        split <;> omega
      have hnonneg : 0 ≤ ⌊10000 * (meanFactor chain / c.divisor)⌋ := by
        rw [hmean, Int.floor_nonneg]
        positivity
      refine lt_of_le_of_ne hnonneg fun hzero => hsixth ?_
      rw [hdivisor, hmean] at hzero
      obtain ⟨h6, h10⟩ := (floor_curve hk10 hrounds).mp hzero.symm
      unfold curveRounds at h6
      refine ⟨hheight, ?_, hlow, ?_, hslow.mp h10⟩ <;> split at h6 <;> omega
  · have hdivisor : c.divisor = 2 ^ hoursPassed c.kindSpacing := by simp [RetargetCase.divisor, hheight]
    have hhours : hoursPassed c.kindSpacing ≤ 4 := Nat.min_le_left _ _
    have hle : 2 ^ hoursPassed c.kindSpacing ≤ 2 ^ 4 := Nat.pow_le_pow_right (by omega) hhours
    rw [hdivisor]
    exact hsmall _ Nat.one_le_two_pow (by omega)

theorem targetInRange_of_factor {limit old factor : Int} (hlimit : 0 < limit) (hlt : limit < 2 ^ 256)
    (hfactor : 0 < factor) (hold : 0 ≤ old) :
    (∃ target, getCompact (min limit (old.tdiv factor * 10000)) = getCompact target ∧ 0 < target
      ∧ target ≤ limit) ↔ factor ≤ old := by
  have hdiv : 0 ≤ old.tdiv factor := Int.tdiv_nonneg hold hfactor.le
  constructor
  · rintro ⟨target, hcompact, hpos, hle⟩
    by_contra hsmall
    have hzero : old.tdiv factor = 0 := Int.tdiv_eq_zero_of_lt hold (by omega)
    rw [hzero, zero_mul, min_eq_right hlimit.le] at hcompact
    have h0 : getCompact target = 0 := by
      rw [← hcompact]
      rfl
    have := eq_zero_of_getCompact hpos.le (by omega) h0
    omega
  · intro hle
    have hone : 1 ≤ old.tdiv factor := by
      rw [Int.tdiv_eq_ediv_of_nonneg hold]
      exact (Int.le_ediv_iff_mul_le hfactor).mpr (by omega)
    exact ⟨_, rfl, lt_min hlimit (by omega), min_le_left _ _⟩

/-- On top of a chain of accepted blocks the retarget is in range exactly where it is sound. -/
theorem targetInRange_iff (hparams : params ∈ networks) (hchain : AcceptedChain params chain)
    (hbest : n.pindexBest.bind n.mapBlockIndex.entries = some best) (fProofOfStake : Bool) :
    TargetInRange params n chain fProofOfStake ↔ RetargetSound n chain fProofOfStake := by
  obtain ⟨hpos, hlt⟩ := networks_limits hparams fProofOfStake
  have hnonneg := hchain.nonneg hparams
  have hnil : chain ≠ [] := by
    rintro rfl
    cases hchain
  obtain ⟨pindexLast, hhead⟩ := Option.ne_none_iff_exists'.mp (mt List.head?_eq_none_iff.mp hnil)
  have hlength := hchain.length hhead
  have hsound : RetargetSound n chain fProofOfStake ↔ (DryRun n pindexLast ∨ ∃ velocityType prevVelocityType rest,
        getLastBlockIndex fProofOfStake chain = velocityType :: prevVelocityType :: rest ∧
        let c : RetargetCase :=
          ⟨pindexLast, velocityType, prevVelocityType, prevDiffBelowOneWith id n fProofOfStake⟩
        ¬ c.SixthRound chain ∧
          (c.Resets ∨ ⌊10000 * (meanFactor chain / c.divisor)⌋ ≤ setCompact velocityType.nBits)) := by
    unfold RetargetSound
    rw [hhead]
    constructor
    · rintro ⟨pindex, heq, h⟩
      obtain rfl := Option.some.inj heq
      exact h
    · exact fun h => ⟨pindexLast, rfl, h⟩
  rw [hsound]
  unfold TargetInRange
  by_cases hdry : DryRun n pindexLast
  · rw [getNextTarget_dry hhead hdry]
    exact iff_of_true ⟨_, rfl, hpos, le_refl _⟩ (Or.inl hdry)
  have hlong : 6 ≤ chain.length := by
    have hhigh : ¬ pindexLast.nHeight < 130 := fun hshort => hdry (Or.inl hshort)
    omega
  obtain ⟨hsuffix, hvelocity⟩ := getLastBlockIndex_suffix fProofOfStake chain
  rw [getNextTarget_curve hhead hdry hbest]
  generalize hkind : getLastBlockIndex fProofOfStake chain = velocity at hsuffix hvelocity
  match velocity with
  | [] => exact absurd rfl (hvelocity hnil)
  | [velocityType] =>
    -- the null `pprev` of the first block
    rw [vrxThreadCurve_parentless hlong hhead]
    refine iff_of_false ?_ ?_
    · rintro ⟨target, htarget, -⟩
      cases htarget
    · rintro (h | ⟨_, _, _, heq, -⟩)
      · exact hdry h
      · simp at heq
  | velocityType :: prevVelocityType :: rest =>
    have hold := hnonneg velocityType (hsuffix.subset (by simp))
    obtain ⟨hsixth, hresets, hdivides⟩ := @vrxThreadCurve_eq chain rest fProofOfStake pindexLast
      velocityType prevVelocityType hlong hhead (prevDiffBelowOneWith id n fProofOfStake)
    have hcase : (DryRun n pindexLast ∨ ∃ v p r, velocityType :: prevVelocityType :: rest = v :: p :: r ∧
        let c : RetargetCase := ⟨pindexLast, v, p, prevDiffBelowOneWith id n fProofOfStake⟩
        ¬ c.SixthRound chain ∧ (c.Resets ∨ ⌊10000 * (meanFactor chain / c.divisor)⌋ ≤ setCompact v.nBits)) ↔
        let c : RetargetCase :=
          ⟨pindexLast, velocityType, prevVelocityType, prevDiffBelowOneWith id n fProofOfStake⟩
        ¬ c.SixthRound chain ∧
          (c.Resets ∨ ⌊10000 * (meanFactor chain / c.divisor)⌋ ≤ setCompact velocityType.nBits) := by
      constructor
      · rintro (h | ⟨v, p, r, heq, h⟩)
        · exact absurd h hdry
        · obtain ⟨rfl, rfl, rfl⟩ : velocityType = v ∧ prevVelocityType = p ∧ rest = r := by simpa using heq
          exact h
      · exact fun h => Or.inr ⟨_, _, _, rfl, h⟩
    rw [hcase]
    generalize hc : (⟨pindexLast, velocityType, prevVelocityType, prevDiffBelowOneWith id n fProofOfStake⟩
      : RetargetCase) = c at hsixth hresets hdivides ⊢
    by_cases hsix : c.SixthRound chain
    · rw [hsixth hsix]
      refine iff_of_false ?_ fun h => h.1 hsix
      rintro ⟨target, htarget, -⟩
      cases htarget
    have hfactor := floor_pos c hlong hsix
    by_cases hreset : c.Resets
    · rw [hresets hsix hreset]
      exact iff_of_true ⟨_, rfl, hpos, le_refl _⟩ ⟨hsix, Or.inl hreset⟩
    · rw [hdivides hsix hreset]
      simp only [List.head?_cons, if_neg hfactor.ne', Except.ok.injEq]
      rw [targetInRange_of_factor hpos hlt hfactor hold]
      exact ⟨fun h => ⟨hsix, Or.inr h⟩, fun h => h.2.resolve_left hreset⟩

end Retarget

namespace Sample

def workChain : Nat → List CBlockIndex
  | 0 => [chainEntry 130 0]
  | k + 1 => chainEntry 130 (k + 1) :: workChain k

theorem head?_workChain (k : Nat) : (workChain k).head? = some (chainEntry 130 k) := by
  cases k <;> rfl

theorem isProofOfStake_chainEntry (k : Nat) : (chainEntry 130 k).isProofOfStake = false := by
  have hflags : ∀ entropy, (indexFlags false entropy false &&& CBlockIndex.blockProofOfStake != 0) = false := by
    decide
  exact hflags ((blockHash k).getLsbD 0)

theorem getLastBlockIndex_workChain (k : Nat) : getLastBlockIndex true (workChain k) = [chainEntry 130 0]
      ∧ getLastBlockIndex false (workChain k) = workChain k := by
  induction k with
  | zero => exact ⟨rfl, rfl⟩
  | succ k ih =>
    have hwork := isProofOfStake_chainEntry (k + 1)
    obtain ⟨pprev, rest, hrest⟩ : ∃ pprev rest, workChain k = pprev :: rest := by
      cases k <;> exact ⟨_, _, rfl⟩
    rw [hrest] at ih
    rw [workChain, hrest]
    simp only [getLastBlockIndex, hwork, bne_self_eq_false, Bool.false_bne, if_true, Bool.false_eq_true, if_false]
    exact ⟨ih.1, trivial⟩

theorem acceptedChain_workChain {k : Nat} (hk : k ≤ 130) : AcceptedChain mainParams (workChain k) := by
  induction k with
  | zero => exact .genesis rfl (by decide)
  | succ k ih =>
    have hprev := ih (by omega)
    have htime : ∀ j ≤ 130, (chainEntry 130 j).getBlockTime = 1600000000 + 600 * j := by
      intro j hj
      simp only [CBlockIndex.getBlockTime, chainEntry, blockTime, UInt32.toNat_ofNat']
      omega
    obtain ⟨pprev, rest, hrest⟩ : ∃ pprev rest, workChain k = pprev :: rest := by
      cases k <;> exact ⟨_, _, rfl⟩
    obtain rfl : pprev = chainEntry 130 k := by
      have hhead := head?_workChain k
      rw [hrest] at hhead
      exact Option.some.inj hhead
    rw [workChain, hrest]
    rw [hrest] at hprev
    refine .accept (chainNode 130) hprev rfl ?_ ?_ ?_
    · rw [CBlockIndex.getPastTimeLimit, htime k (by omega), htime (k + 1) hk, nDrift]
      omega
    · rw [htime k (by omega), htime (k + 1) hk, futureDrift, nDrift]
      omega
    · have hdry : DryRun (chainNode 130) (chainEntry 130 k) := Or.inl (show k < 130 by omega)
      have hbits : getCompact (mainParams.velocityLimit false) = nBits := by decide
      rw [getNextTarget_dry rfl hdry, isProofOfStake_chainEntry, hbits]
      rfl

theorem pindexBest_chainNode :
    (chainNode 130).pindexBest.bind (chainNode 130).mapBlockIndex.entries = some (chainEntry 130 130) :=
  entry_chainNode (by unfold maxBest; omega) (le_refl 130)

/-- On 131 proof-of-work blocks the target of a proof-of-stake block follows a null pointer. -/
theorem targetInRange_parentless : ¬ ∀ params ∈ networks, ∀ chain, AcceptedChain params chain →
    ∀ (n : Node) (best : CBlockIndex), n.pindexBest.bind n.mapBlockIndex.entries = some best →
      ∀ fProofOfStake, TargetInRange params n chain fProofOfStake := by
  intro h
  obtain ⟨target, htarget, -⟩ := h mainParams (by simp [networks]) (workChain 130)
    (acceptedChain_workChain (le_refl 130)) (chainNode 130) _ pindexBest_chainNode true
  have hdry : ¬ DryRun (chainNode 130) (chainEntry 130 130) := by
    rintro (hshort | ⟨best, hbest, hfork⟩)
    · exact absurd hshort (by decide)
    · rw [pindexBest_chainNode] at hbest
      obtain rfl := Option.some.inj hbest
      exact absurd hfork (by decide)
  have hlength := (acceptedChain_workChain (le_refl 130)).length (head?_workChain 130)
  have hlong : 6 ≤ (workChain 130).length := hlength ▸ by decide
  rw [getNextTarget_curve (head?_workChain 130) hdry pindexBest_chainNode,
    (getLastBlockIndex_workChain 130).1, vrxThreadCurve_parentless hlong (head?_workChain 130)] at htarget
  cases htarget

theorem targetInRange_workChain : TargetInRange mainParams (chainNode 130) (workChain 130) false := by
  have hchain := acceptedChain_workChain (le_refl 130)
  have hlength := hchain.length (head?_workChain 130)
  have hlong : 6 ≤ (workChain 130).length := hlength ▸ by decide
  obtain ⟨k, -, hk40, hmean, -⟩ := meanFactor_eq hlong
  have hk : (k : ℚ) ≤ 40 := by exact_mod_cast hk40
  have hfactor : ⌊10000 * meanFactor (workChain 130)⌋ ≤ 20000 := by
    rw [Int.floor_le_iff, hmean]
    push_cast
    linarith
  have htarget : (20000 : Int) ≤ setCompact (chainEntry 130 130).nBits := by decide
  have hnonneg : 0 ≤ meanFactor (workChain 130) := by
    rw [hmean]
    positivity
  refine (targetInRange_iff (by simp [networks]) hchain pindexBest_chainNode false).mpr
    ⟨chainEntry 130 130, head?_workChain 130, Or.inr ⟨chainEntry 130 130, chainEntry 130 129, workChain 128,
      (getLastBlockIndex_workChain 130).2, fun h => absurd h.1 (by decide), Or.inr ?_⟩⟩
  exact ((floor_div_le hnonneg _).2.trans hfactor).trans htarget

end Sample

end PupaCoin
