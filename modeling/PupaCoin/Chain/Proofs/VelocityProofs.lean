import PupaCoin.Chain.Sample

/-!
# Velocity and its tables

Every table has one element, and every height but zero is beyond it. Where Velocity is active, it therefore decides by
what lies behind the tables; what it accepts keeps the spacing that it finds there, and has values that agree.
-/

namespace PupaCoin

variable {env : Env} {n n' : Node} {hprev : UInt256} {prevBlock : CBlockIndex} {block : CBlock}
  {fFactorTx : Bool}

theorem readTable_singleton_eq_ok {α : Type} {a b : α} {i : Int} {what : String} :
    readTable [a] i what = .ok b ↔ i = 0 ∧ b = a := by
  unfold readTable
  split
  · rename_i hneg
    constructor
    · intro h
      cases h
    · rintro ⟨rfl, -⟩
      exact absurd hneg (lt_irrefl 0)
  · rename_i hpos
    rw [orUndefined_eq_ok, List.getElem?_eq_some_iff]
    constructor
    · rintro ⟨hindex, hb⟩
      rw [List.length_singleton] at hindex
      rw [List.getElem_singleton] at hb
      exact ⟨by omega, hb.symm⟩
    · rintro ⟨rfl, rfl⟩
      exact ⟨Nat.one_pos, rfl⟩

theorem velocityCheckInBounds_eq_ok {nHeight : Int} {active : Bool} :
    velocityCheckInBounds nHeight = .ok active ↔ nHeight = 0 ∧ active = false := by
  unfold velocityCheckInBounds velocityHeightTable
  rw [Guards.bind_eq_ok]
  constructor
  · rintro ⟨height, hread, hactive⟩
    obtain ⟨rfl, rfl⟩ := readTable_singleton_eq_ok.mp hread
    exact ⟨rfl, (Except.ok.inj hactive).symm⟩
  · rintro ⟨rfl, rfl⟩
    exact ⟨175, readTable_singleton_eq_ok.mpr ⟨rfl, rfl⟩, rfl⟩

theorem spacing_of_velocityTimes {ext : Ext} {i prevTime : Int}
    (h : velocityTimes env ext i prevBlock prevTime block = .ok ()) :
    prevBlock.getBlockTime + env.velocity.minRate i ≤ block.getBlockTime := by
  simp only [velocityTimes, Guards.bind_eq_ok, rejectIf_eq_ok, Bool.and_eq_false_iff, Bool.or_eq_false_iff,
    decide_eq_false_iff_not, Bool.not_eq_false'] at h
  obtain ⟨_, hrate, _, hstamp, -⟩ := h
  rcases hrate with hrate | hspaced
  · rcases hstamp with hpositive | ⟨hcurrent, -⟩
    · exact absurd (of_decide_eq_true hpositive) hrate
    · omega
  · omega

theorem totalsAgree_of_txFactor (h : txFactor n prevBlock block = .ok ()) : TotalsAgree n prevBlock block := by
  have hparts : ∃ txThreshold, (if block.isProofOfStake then getProofOfStakeReward n prevBlock 0 0
      else getProofOfWorkReward n (prevBlock.nHeight + 1) 0) = .ok txThreshold ∧
      ∃ values, block.vtx.foldlM (txFactorStep n) (0, 0) = .ok values ∧ rejectIf (values.1 + txThreshold < values.2) 0
          "DENIED: block contains a tx input that is less that output" = .ok () := by
    unfold txFactor at h
    split at h
    · rename_i hstake
      rw [if_pos hstake]
      obtain ⟨txThreshold, hreward, hrest⟩ := Guards.bind_eq_ok.mp h
      obtain ⟨values, hvalues, hcheck⟩ := Guards.bind_eq_ok.mp hrest
      exact ⟨txThreshold, hreward, values, hvalues, hcheck⟩
    · rename_i hwork
      rw [if_neg hwork]
      obtain ⟨txThreshold, hreward, hrest⟩ := Guards.bind_eq_ok.mp h
      obtain ⟨values, hvalues, hcheck⟩ := Guards.bind_eq_ok.mp hrest
      exact ⟨txThreshold, hreward, values, hvalues, hcheck⟩
  obtain ⟨txThreshold, hreward, ⟨txInputs, txOutputs⟩, hvalues, hcheck⟩ := hparts
  have hcovered := of_decide_eq_false (rejectIf_eq_ok.mp hcheck)
  exact ⟨txInputs, txOutputs, txThreshold, hvalues, hreward, by omega⟩

theorem velocity_returns (h : velocity env hprev block fFactorTx n = (.ok (), n'))
    (hentry : n.mapBlockIndex.entries hprev = some prevBlock) :
    (n'.velocityFactor = true → fFactorTx = true → txFactor n' prevBlock block = .ok ()) ∧
      ∃ prevTime, velocityTimes env n'.ext (prevBlock.nHeight + 1) prevBlock prevTime block = .ok () := by
  unfold velocity at h
  simp only [Exec.bind_returns, deref_returns] at h
  obtain ⟨prev, _, ⟨hprev', rfl⟩, i, n₁, hindex, _, _, hread, prevprev, _, hparent, hrest⟩ := h
  obtain rfl : prev = prevBlock := Option.some.inj (hprev'.symm.trans hentry)
  obtain ⟨hvalue, rfl⟩ := Prod.mk.inj hread
  obtain rfl := Except.ok.inj hvalue
  obtain ⟨-, rfl⟩ := Prod.mk.inj hparent
  obtain rfl : i = prev.nHeight + 1 := by
    simp only [velocityI, Exec.bind_returns] at hindex
    obtain ⟨_, _, -, hi⟩ := hindex
    exact (Except.ok.inj (Prod.mk.inj hi).1).symm
  by_cases hfactor : (n₁.velocityFactor && fFactorTx) = true
  · rw [if_pos hfactor, Exec.bind_returns] at hrest
    obtain ⟨_, _, hfirst, hsecond⟩ := hrest
    obtain ⟨htotals, rfl⟩ := Prod.mk.inj hfirst
    obtain ⟨htimes, rfl⟩ := Prod.mk.inj hsecond
    exact ⟨fun _ _ => htotals, _, htimes⟩
  · rw [if_neg hfactor] at hrest
    obtain ⟨htimes, rfl⟩ := Prod.mk.inj hrest
    refine ⟨fun hswitch hasked => absurd ?_ hfactor, _, htimes⟩
    rw [hswitch, hasked]
    rfl

/-- **Velocity and its tables.** On top of any block, Velocity reads beyond its tables. What it accepts keeps the
    spacing that it finds there, and has values that agree where they are checked. -/
theorem velocity_never_keeps (env : Env) (n : Node) (hprev : UInt256) (prevBlock : CBlockIndex) (block : CBlock)
    (fFactorTx : Bool) : ¬ VelocityKeeps env n hprev prevBlock block fFactorTx ∧
      ∀ n', n.mapBlockIndex.entries hprev = some prevBlock → velocity env hprev block fFactorTx n = (.ok (), n') →
        prevBlock.getBlockTime + env.velocity.minRate (prevBlock.nHeight + 1) ≤ block.getBlockTime ∧
          (n'.velocityFactor = true → fFactorTx = true → TotalsAgree n' prevBlock block) := by
  have hbeyond : (prevBlock.nHeight + 1 : Int) ≠ 0 := by omega
  constructor
  · intro hkeeps
    obtain ⟨active, hactive⟩ := hkeeps.check
    exact hbeyond (velocityCheckInBounds_eq_ok.mp hactive).1
  · intro n' hentry haccepted
    obtain ⟨htotals, prevTime, htimes⟩ := velocity_returns haccepted hentry
    exact ⟨spacing_of_velocityTimes htimes, fun hswitch hasked => totalsAgree_of_txFactor (htotals hswitch hasked)⟩

namespace Sample

theorem zeroTables_minTx : (fun _ : Int => (0 : Int)) 0 = 0 := rfl

def zeroTables : VelocityTables where
  height i := if i = 0 then 175 else 0
  rate i := if i = 0 then blockSpacing else 0
  minRate i := if i = 0 then blockSpacingMin else 0
  minTx _ := 0
  minValue i := if i = 0 then coin / 100 else 0
  minFee i := if i = 0 then coin / 10000 else 0
  explicit _ := false
  height_zero := rfl
  rate_zero := rfl
  minRate_zero := rfl
  minTx_zero := zeroTables_minTx
  minValue_zero := rfl
  minFee_zero := rfl
  explicit_zero := rfl

def zeroEnv : Env := { Sample.env with velocity := zeroTables }

def hastyBlock : CBlock := { chainBlock 176 with nTime := blockTime 175 + 1 }

end Sample

open Sample in
/-- At height 176 Velocity is active, reads beyond its tables, and accepts a block one second after its parent. -/
theorem velocity_hasty : velocityCheckInBounds 176 = .error (.undefined "VELOCITY_HEIGHT[nHeight]") ∧
    (velocityCheck zeroEnv 176 (chainNode 175)).1 = .ok true ∧
    (velocity zeroEnv (blockHash 175) hastyBlock false (chainNode 175)).1 = .ok () ∧
    ¬ VelocityKeeps zeroEnv (chainNode 175) (blockHash 175) (chainEntry 175 175)
      hastyBlock false := by
  have haccepts : (velocity zeroEnv (blockHash 175) hastyBlock false
      (chainNode 175)).1 = .ok () := by
    decide
  refine ⟨by decide, by decide, haccepts, ?_⟩
  intro hkeeps
  exact absurd (hkeeps.spacing haccepts) (by decide)

end PupaCoin
