import PupaCoin.Chain.Sample

/-!
# The elapsed time of the extended curve run

The run compares a `uint64_t` with its counter. As long as the last block of the kind is not later than `pindexLast`,
this is the signed time; else it is close to `2 ^ 64`, and the first round is due.
-/

namespace PupaCoin

variable {fuel : Nat} {st : CurveState} {a b : Int}

variable {round : ℚ → ℚ} {fDiffTooLow : Bool} {difTime : UInt64} {loopbrk step : Nat} {nBits : UInt32}
  {chain : List CBlockIndex} {fProofOfStake : Bool} {pindexLast blockVelocityType : CBlockIndex}

theorem curveActions_result (fuel : Nat) (st : CurveState) :
    (curveActions round fDiffTooLow difTime loopbrk step nBits fuel st).2
      = extendedCurve round fDiffTooLow difTime loopbrk step nBits fuel st := by
  induction fuel generalizing st with
  | zero => rfl
  | succ fuel ih =>
    unfold curveActions extendedCurve
    split
    · rfl
    · split
      · rfl
      · split
        · rfl
        · dsimp only
          cases vrxSimulateRetarget round (round (st.terminalAverage / st.difCurve)) nBits with
          | error e => rfl
          | ok bnNew => exact ih _

theorem vrxThreadCurve_eq_extended (fDiffTooLow : Bool) (velocityType : List CBlockIndex) (fProofOfStake : Bool)
    (hlast : chain.head? = some pindexLast) (hheight : 7500 < pindexLast.nHeight) :
    vrxThreadCurve round fDiffTooLow chain velocityType fProofOfStake
      = (extendedThreadCurve round fDiffTooLow chain velocityType fProofOfStake >>= Prod.snd) := by
  unfold vrxThreadCurve extendedThreadCurve
  cases vrxBaseEngine round chain fProofOfStake with
  | error e => rfl
  | ok engine =>
    obtain ⟨average, prevPoW, prevPoS⟩ := engine
    rw [hlast]
    cases velocityType.head? with
    | none => rfl
    | some blockVelocityType =>
      cases velocityType.tail.head? with
      | none => rfl
      | some prevVelocityType =>
        simp only [orUndefined, Guards.ok_bind, if_pos hheight]
        exact (curveActions_result 8 _).symm

theorem due_of_mem_curveActions {action : CurveAction}
    (h : action ∈ (curveActions round fDiffTooLow difTime loopbrk step nBits fuel st).1) :
    fDiffTooLow = false ∧ action.minuteRounds * 60 < difTime.toNat := by
  induction fuel generalizing st with
  | zero => cases h
  | succ fuel ih =>
    unfold curveActions at h
    split at h
    · cases h
    · rename_i hdue
      split at h
      · cases h
      · rename_i hlow
        have hnow : fDiffTooLow = false ∧ st.minuteRounds * 60 < difTime.toNat :=
          ⟨Bool.eq_false_iff.mpr hlow, not_not.mp hdue⟩
        split at h
        · rw [List.mem_singleton.mp h]
          exact hnow
        · dsimp only at h
          split at h
          · rw [List.mem_singleton.mp h]
            exact hnow
          · rcases List.mem_cons.mp h with rfl | hrest
            · exact hnow
            · exact ih hrest

theorem divide_mem_curveActions (hlow : fDiffTooLow = false) (hdue : st.minuteRounds * 60 < difTime.toNat)
    (hbreak : st.minuteRounds ≤ loopbrk) :
    .divide st.minuteRounds ∈ (curveActions round fDiffTooLow difTime loopbrk step nBits (fuel + 1) st).1 := by
  unfold curveActions
  rw [if_neg (not_not.mpr hdue), if_neg (by simp [hlow]), if_neg (not_lt.mpr hbreak)]
  dsimp only
  split
  · exact List.mem_singleton.mpr rfl
  · exact List.mem_cons_self

theorem toNat_timeDifference (a b : Int) : ((timeDifference a b).toNat : Int) = (a - b) % 2 ^ 64 := by
  unfold timeDifference UInt64.ofInt
  rw [UInt64.toNat_ofNat', Nat.mod_eq_of_lt (by omega)]
  omega

theorem timeDifference_of_le (h : b ≤ a) (hsize : a - b < 2 ^ 64) : ((timeDifference a b).toNat : Int) = a - b := by
  rw [toNat_timeDifference]
  omega

theorem timeDifference_of_lt (h : a < b) (hsize : b - a ≤ 2 ^ 63) : 2 ^ 63 ≤ (timeDifference a b).toNat := by
  have hwrap := toNat_timeDifference a b
  omega

theorem getBlockTime_range (pindex : CBlockIndex) : 0 ≤ pindex.getBlockTime ∧ pindex.getBlockTime < 2 ^ 32 := by
  have hsize := pindex.nTime.toNat_lt
  unfold CBlockIndex.getBlockTime
  omega

theorem spacings_returns_iff (rounds : Nat) (chain : List CBlockIndex) :
    (∃ xs, spacings rounds chain = .ok xs) ↔ rounds = 0 ∨ rounds < chain.length := by
  induction rounds generalizing chain with
  | zero => simp [spacings]
  | succ rounds ih =>
    match chain with
    | [] => simp [spacings]
    | [pindex] => simp [spacings]
    | pindex :: pprev :: rest =>
      have hrest := ih (pprev :: rest)
      rw [List.length_cons] at hrest
      simp only [spacings, Guards.bind_eq_ok, List.length_cons]
      constructor
      · rintro ⟨xs, older, holder, -⟩
        have := hrest.mp ⟨older, holder⟩
        omega
      · intro h
        obtain ⟨older, holder⟩ := hrest.mpr (by omega)
        exact ⟨_, older, holder, rfl⟩

theorem vrxBaseEngine_returns_iff : (∃ engine, vrxBaseEngine round chain fProofOfStake = .ok engine) ↔
    6 ≤ chain.length := by
  have hspacings := spacings_returns_iff 5 chain
  simp only [vrxBaseEngine, Guards.bind_eq_ok]
  constructor
  · rintro ⟨engine, xs, hxs, -⟩
    have := hspacings.mp ⟨xs, hxs⟩
    omega
  · intro h
    obtain ⟨xs, hxs⟩ := hspacings.mpr (by omega)
    exact ⟨_, xs, hxs, rfl⟩

theorem extendedThreadCurve_eq_ok {velocityType : List CBlockIndex} {run : List CurveAction × Except Stop (Option ℚ)}
    : extendedThreadCurve round fDiffTooLow chain velocityType fProofOfStake = .ok run ↔
      ∃ average prevPoW prevPoS pindexLast blockVelocityType prevVelocityType rest,
        vrxBaseEngine round chain fProofOfStake = .ok (average, prevPoW, prevPoS) ∧
        chain.head? = some pindexLast ∧ velocityType = blockVelocityType :: prevVelocityType :: rest ∧
        curveActions round fDiffTooLow (timeDifference pindexLast.getBlockTime blockVelocityType.getBlockTime)
          (if pindexLast.nHeight > 63000 then 65 else 20) (if pindexLast.nHeight > 63000 then 5 else 1)
          blockVelocityType.nBits 8
          ⟨skewAverage round fProofOfStake average prevPoW prevPoS,
            if pindexLast.nHeight > 63000 then 45 else 15, 2⟩ = run := by
  simp only [extendedThreadCurve, Guards.bind_eq_ok, orUndefined_eq_ok]
  constructor
  · rintro ⟨⟨average, prevPoW, prevPoS⟩, hengine, pindexLast, hlast, blockVelocityType, hkind, prevVelocityType,
      hprev, hrun⟩
    rcases velocityType with _ | ⟨a, _ | ⟨b, rest⟩⟩
    · cases hkind
    · cases hprev
    · obtain rfl := Option.some.inj hkind
      obtain rfl := Option.some.inj hprev
      refine ⟨average, prevPoW, prevPoS, pindexLast, _, _, rest, hengine, hlast, rfl, ?_⟩
      have hresult := Except.ok.inj hrun
      split at hresult <;> rename_i hheight <;> simpa [hheight] using hresult
  · rintro ⟨average, prevPoW, prevPoS, pindexLast, blockVelocityType, prevVelocityType, rest, hengine, hlast, rfl,
      hrun⟩
    refine ⟨_, hengine, pindexLast, hlast, _, rfl, _, rfl, ?_⟩
    refine congrArg Except.ok ?_
    split <;> rename_i hheight <;> simpa [hheight] using hrun

/-- **Easing for real delays.** Above height 7500, `VRX_ThreadCurve` eases the difficulty only when a round is due by
    the signed time, unless the last block of the kind is later than `pindexLast` and the run is not skipped. -/
theorem easesWhenDue_iff (round : ℚ → ℚ) (fDiffTooLow fProofOfStake : Bool) (hlast : chain.head? = some pindexLast)
    (hheight : 7500 < pindexLast.nHeight) :
    vrxThreadCurve round fDiffTooLow chain (getLastBlockIndex fProofOfStake chain) fProofOfStake
        = (extendedThreadCurve round fDiffTooLow chain (getLastBlockIndex fProofOfStake chain) fProofOfStake
            >>= Prod.snd) ∧
      (EasesWhenDue round fDiffTooLow chain fProofOfStake ↔ ¬ KindIsLater fDiffTooLow chain fProofOfStake) := by
  refine ⟨vrxThreadCurve_eq_extended _ _ _ hlast hheight, ?_, ?_⟩
  · rintro heases ⟨hlow, hlength, last, blockVelocityType, prevVelocityType, rest, hlast', hkind, hlater⟩
    obtain rfl : last = pindexLast := Option.some.inj (hlast'.symm.trans hlast)
    have hreturns : ∃ engine, vrxBaseEngine round chain fProofOfStake = .ok engine :=
      vrxBaseEngine_returns_iff.mpr hlength
    obtain ⟨⟨average, prevPoW, prevPoS⟩, hengine⟩ := hreturns
    have hrun := (@extendedThreadCurve_eq_ok round fDiffTooLow chain fProofOfStake _ _).mpr
      ⟨average, prevPoW, prevPoS, last, blockVelocityType, prevVelocityType, rest, hengine, hlast, hkind, rfl⟩
    have hlastTime := getBlockTime_range last
    have hkindTime := getBlockTime_range blockVelocityType
    have hwrap := timeDifference_of_lt hlater (by omega)
    -- the first round is due, whatever its counter
    have hfirst : ∀ minuteRounds loopbrk step : Nat, minuteRounds ≤ 45 → minuteRounds ≤ loopbrk →
        .divide minuteRounds ∈ (curveActions round fDiffTooLow
          (timeDifference last.getBlockTime blockVelocityType.getBlockTime) loopbrk step blockVelocityType.nBits 8
          ⟨skewAverage round fProofOfStake average prevPoW prevPoS, minuteRounds, 2⟩).1 := by
      intro minuteRounds loopbrk step hsmall hbreak
      refine divide_mem_curveActions hlow ?_ hbreak
      dsimp only
      omega
    have hdue := heases last blockVelocityType _ _ hlast (by rw [hkind]; rfl) hrun _
      (hfirst _ _ _ (by split <;> omega) (by split <;> omega))
    unfold elapsedTime at hdue
    omega
  · intro hnot last blockVelocityType actions result hlast' hkind hrun action haction
    obtain ⟨average, prevPoW, prevPoS, last', blockVelocityType', prevVelocityType, rest, hengine, hlast'', hvelocity,
      hactions⟩ := extendedThreadCurve_eq_ok.mp hrun
    obtain rfl : last' = last := Option.some.inj (hlast''.symm.trans hlast')
    obtain rfl : blockVelocityType' = blockVelocityType := by
      rw [hvelocity] at hkind
      exact Option.some.inj hkind
    have hrecord : _ = actions := congrArg Prod.fst hactions
    rw [← hrecord] at haction
    obtain ⟨hlow, hdue⟩ := due_of_mem_curveActions haction
    have hlength := vrxBaseEngine_returns_iff.mp ⟨_, hengine⟩
    have hnotLater : blockVelocityType'.getBlockTime ≤ last'.getBlockTime := by
      by_contra hlater
      exact hnot ⟨hlow, hlength, last', blockVelocityType', prevVelocityType, rest, hlast', hvelocity, by omega⟩
    have hlastTime := getBlockTime_range last'
    have hkindTime := getBlockTime_range blockVelocityType'
    have hsigned := timeDifference_of_le hnotLater (by omega)
    unfold elapsedTime
    omega

namespace LateKind

/-- A proof-of-work block at a height; they are ten minutes apart. -/
def entry (k : Nat) : CBlockIndex :=
  { Sample.chainEntry 0 0 with nHeight := k, nTime := UInt32.ofNat (1500000000 + 600 * k) }

/-- The proof-of-work blocks up to a height, the last one first. -/
def workChain : Nat → List CBlockIndex
  | 0 => [entry 0]
  | k + 1 => entry (k + 1) :: workChain k

/-- A proof-of-stake block at height 7502, a number of seconds after its parent or before it. -/
def stakeEntry (delay : Int) : CBlockIndex :=
  { entry 7502 with nFlags := CBlockIndex.blockProofOfStake, nTime := UInt32.ofNat (1504500600 + delay).toNat }

/-- A proof-of-stake block on top of them. -/
def chainWith (delay : Int) : List CBlockIndex := stakeEntry delay :: workChain 7501

theorem head_chainWith (delay : Int) : (chainWith delay).head? = some (stakeEntry delay) := rfl

theorem length_workChain (k : Nat) : (workChain k).length = k + 1 := by
  induction k with
  | zero => rfl
  | succ k ih => rw [workChain, List.length_cons, ih]

theorem getLastBlockIndex_chainWith {delay : Int} (hkind : (stakeEntry delay).isProofOfStake = true) :
    getLastBlockIndex false (chainWith delay) = entry 7501 :: entry 7500 :: workChain 7499 := by
  have hwork : (entry 7501).isProofOfStake = false := by decide
  change getLastBlockIndex false (stakeEntry delay :: entry 7501 :: entry 7500 :: workChain 7499) = _
  rw [getLastBlockIndex, hkind, if_pos (by decide), getLastBlockIndex, hwork, if_neg (by decide)]

theorem timesAdmitted_workChain {k : Nat} (hk : k ≤ 7501) : TimesAdmitted (workChain k) := by
  have htime : ∀ j ≤ 7501, (entry j).getBlockTime = 1500000000 + 600 * j := by
    intro j hj
    simp only [CBlockIndex.getBlockTime, entry, UInt32.toNat_ofNat']
    omega
  have hstep : ∀ j, j + 1 ≤ 7501 → (entry j).getPastTimeLimit < (entry (j + 1)).getBlockTime ∧
      (entry j).getBlockTime ≤ futureDrift (entry (j + 1)).getBlockTime := by
    intro j hj
    rw [CBlockIndex.getPastTimeLimit, futureDrift, htime j (by omega), htime (j + 1) hj, nDrift]
    push_cast
    omega
  induction k with
  | zero => exact .singleton _
  | succ k ih =>
    have hrest := ih (by omega)
    cases k with
    | zero => exact .cons_cons (hstep 0 hk) hrest
    | succ k => exact .cons_cons (hstep (k + 1) hk) hrest

end LateKind

open LateKind in
/-- A proof-of-stake block 299 seconds before its proof-of-work parent: the difficulty of proof of work is eased after
    no time at all. -/
theorem easesWhenDue_late : TimesAdmitted (chainWith (-299)) ∧ ¬ EasesWhenDue id false (chainWith (-299)) false := by
  have hkind : (stakeEntry (-299)).isProofOfStake = true := by decide
  constructor
  · refine .cons_cons ?_ (timesAdmitted_workChain le_rfl)
    decide
  · intro heases
    refine ((easesWhenDue_iff id false false (head_chainWith (-299)) (by decide)).2.mp heases)
      ⟨rfl, ?_, _, _, _, _, rfl, getLastBlockIndex_chainWith hkind, by decide⟩
    rw [chainWith, List.length_cons, length_workChain]
    omega

open LateKind in
theorem easesWhenDue_after : EasesWhenDue id false (chainWith 1000) false := by
  refine (easesWhenDue_iff id false false (head_chainWith 1000) (by decide)).2.mpr ?_
  rintro ⟨-, -, last, blockVelocityType, prevVelocityType, rest, hlast, hkind, hlater⟩
  obtain rfl := Option.some.inj hlast
  rw [getLastBlockIndex_chainWith (by decide)] at hkind
  obtain ⟨rfl, -⟩ := List.cons.inj hkind
  exact absurd hlater (by decide)

end PupaCoin
