import PupaCoin.Chain.StandardInputs

/-!
# Standard inputs: which inputs are looked at

A round goes on exactly at an input that keeps the rule and has no redeem script of a non-standard type, and ends the
function with `true` exactly at one that keeps the rule and has one. What comes behind such an input is not looked at.
-/

namespace PupaCoin

variable {stack vSolutions : List (List UInt8)} {nArgs : Int} {script : CScript} {whichType : TxnOutType}
  {prev : CTxOut}

open CScript (solver scriptSigArgsExpected)

namespace CTransaction

variable {env : Nat → ScriptEnv} {mapInputs : MapPrevTx} {txin : CTxIn × Nat}

@[simp] theorem judgeArgs_ne_true : judgeArgs stack nArgs ≠ some true := by
  rw [judgeArgs]
  split <;> simp

@[simp] theorem judgeArgs_eq_none_iff : judgeArgs stack nArgs = none ↔ stack.length = nArgs.toNat := by
  rw [judgeArgs]
  split <;> simp_all

theorem takesArgs_iff (h : solver script = some (whichType, vSolutions)) (nArgs : Nat) :
    TakesArgs script nArgs ↔ scriptSigArgsExpected whichType vSolutions = nArgs := by
  constructor
  · rintro ⟨t, sols, hsolver, hargs⟩
    obtain ⟨rfl, rfl⟩ := Prod.mk.inj (Option.some.inj (h.symm.trans hsolver))
    exact hargs
  · exact fun hargs => ⟨whichType, vSolutions, h, hargs⟩

theorem isPayToScriptHash_iff (h : solver script = some (whichType, vSolutions))
    : script.isPayToScriptHash = true ↔ whichType = .scripthash := by
  rw [← CScript.solver_eq_scripthash_iff, h]
  constructor
  · rintro ⟨sols, heq⟩
    exact (Prod.mk.inj (Option.some.inj heq)).1
  · rintro rfl
    exact ⟨vSolutions, rfl⟩

theorem judgeRedeem_cons (subscript : CScript) (args : List (List UInt8)) :
    (judgeRedeem (subscript :: args) 1 = none ↔ RedeemStandard subscript args.length ∧ solver subscript ≠ none) ∧
    (judgeRedeem (subscript :: args) 1 = some true ↔
      RedeemStandard subscript args.length ∧ solver subscript = none) := by
  cases hsolver : solver subscript with
  | none => simp [judgeRedeem, RedeemStandard, hsolver]
  | some found =>
    obtain ⟨whichType2, vSolutions2⟩ := found
    have hhash := isPayToScriptHash_iff hsolver
    have hargs := takesArgs_iff hsolver args.length
    simp only [judgeRedeem, RedeemStandard, hsolver, Option.isSome_some, if_true, hargs, ne_eq, reduceCtorEq,
      not_false_eq_true, and_true, and_false, iff_false]
    by_cases htype : whichType2 = .scripthash
    · have hyes := hhash.mpr htype
      simp [htype, hyes]
    · have hno : subscript.isPayToScriptHash = false := Bool.eq_false_iff.mpr fun h => htype (hhash.mp h)
      by_cases hneg : scriptSigArgsExpected whichType2 vSolutions2 < 0
      · have hne : scriptSigArgsExpected whichType2 vSolutions2 ≠ args.length := by omega
        simp [htype, hneg, hne]
      · have hcount : args.length + 1 = (1 + scriptSigArgsExpected whichType2 vSolutions2).toNat ↔
            scriptSigArgsExpected whichType2 vSolutions2 = args.length := by omega
        simp [htype, hneg, hno, hcount]

theorem judgeInput_of_stack (hprev : getOutputFor mapInputs txin.1 = .ok prev)
    (hsolver : solver prev.scriptPubKey = some (whichType, vSolutions))
    (hargs : ¬ scriptSigArgsExpected whichType vSolutions < 0)
    (hstack : evalScriptSig (env txin.2) txin.1.scriptSig = some stack) :
    judgeInput env mapInputs txin = .ok (if whichType = .scripthash then judgeRedeem stack 1
      else judgeArgs stack (scriptSigArgsExpected whichType vSolutions)) := by
  simp only [judgeInput, hprev, Guards.ok_bind, hsolver, hargs, if_false, hstack]
  split
  next htype =>
    subst htype
    rfl
  next => rfl

theorem judgeInput_cases (verdict : Option Bool) (hverdict : verdict ≠ some false)
    (h : judgeInput env mapInputs txin = .ok verdict) :
    ∃ prev stack whichType vSolutions, getOutputFor mapInputs txin.1 = .ok prev ∧
      solver prev.scriptPubKey = some (whichType, vSolutions) ∧ ¬ scriptSigArgsExpected whichType vSolutions < 0 ∧
      evalScriptSig (env txin.2) txin.1.scriptSig = some stack := by
  rw [judgeInput, Guards.bind_eq_ok] at h
  obtain ⟨prev, hprev, h⟩ := h
  split at h
  next => exact absurd (Except.ok.inj h).symm hverdict
  next whichType vSolutions hsolver =>
    dsimp only at h
    split at h
    next => exact absurd (Except.ok.inj h).symm hverdict
    next hargs =>
      split at h
      next => exact absurd (Except.ok.inj h).symm hverdict
      next stack hstack => exact ⟨prev, stack, whichType, vSolutions, hprev, hsolver, hargs, hstack⟩

theorem InputStandard.cases (h : InputStandard env mapInputs txin) :
    ∃ prev stack whichType vSolutions, getOutputFor mapInputs txin.1 = .ok prev ∧
      solver prev.scriptPubKey = some (whichType, vSolutions) ∧ ¬ scriptSigArgsExpected whichType vSolutions < 0 ∧
      evalScriptSig (env txin.2) txin.1.scriptSig = some stack := by
  obtain ⟨prev, stack, hprev, hstack, hstandard⟩ := h
  rw [StackStandard] at hstandard
  split at hstandard
  next hhash =>
    obtain ⟨sols, hsolver⟩ := CScript.solver_eq_scripthash_iff.mpr hhash
    exact ⟨prev, stack, _, _, hprev, hsolver, by simp [scriptSigArgsExpected], hstack⟩
  next =>
    obtain ⟨whichType, vSolutions, hsolver, hargs⟩ := hstandard
    exact ⟨prev, stack, whichType, vSolutions, hprev, hsolver, by omega, hstack⟩

theorem inputStandard_of_stack (hprev : getOutputFor mapInputs txin.1 = .ok prev)
    (hstack : evalScriptSig (env txin.2) txin.1.scriptSig = some stack) :
    (InputStandard env mapInputs txin ↔ StackStandard prev.scriptPubKey stack) ∧
    (RedeemNonstandard env mapInputs txin ↔ prev.scriptPubKey.isPayToScriptHash = true ∧
      ∃ subscript args, stack = subscript :: args ∧ solver subscript = none) := by
  constructor
  · constructor
    · rintro ⟨prev', stack', hprev', hstack', h⟩
      obtain rfl := Except.ok.inj (hprev.symm.trans hprev')
      obtain rfl := Option.some.inj (hstack.symm.trans hstack')
      exact h
    · exact fun h => ⟨prev, stack, hprev, hstack, h⟩
  · constructor
    · rintro ⟨prev', subscript, args, hprev', hhash, hstack', h⟩
      obtain rfl := Except.ok.inj (hprev.symm.trans hprev')
      exact ⟨hhash, subscript, args, Option.some.inj (hstack.symm.trans hstack'), h⟩
    · rintro ⟨hhash, subscript, args, rfl, h⟩
      exact ⟨prev, subscript, args, hprev, hhash, hstack, h⟩

theorem judgeInput_verdicts (txin : CTxIn × Nat) : (judgeInput env mapInputs txin = .ok none ↔
      InputStandard env mapInputs txin ∧ ¬ RedeemNonstandard env mapInputs txin) ∧
    (judgeInput env mapInputs txin = .ok (some true) ↔
      InputStandard env mapInputs txin ∧ RedeemNonstandard env mapInputs txin) := by
  by_cases hlook : ∃ prev stack whichType vSolutions, getOutputFor mapInputs txin.1 = .ok prev ∧
      solver prev.scriptPubKey = some (whichType, vSolutions) ∧ ¬ scriptSigArgsExpected whichType vSolutions < 0 ∧
      evalScriptSig (env txin.2) txin.1.scriptSig = some stack
  · obtain ⟨prev, stack, whichType, vSolutions, hprev, hsolver, hargs, hstack⟩ := hlook
    obtain ⟨hrule, hredeem⟩ := inputStandard_of_stack hprev hstack
    rw [judgeInput_of_stack hprev hsolver hargs hstack, hrule, hredeem, StackStandard]
    have hhash := isPayToScriptHash_iff hsolver
    by_cases htype : whichType = .scripthash
    · have hyes : prev.scriptPubKey.isPayToScriptHash = true := hhash.mpr htype
      simp only [htype, hyes, if_true, true_and]
      cases stack with
      | nil => simp [judgeRedeem]
      | cons subscript args =>
        obtain ⟨hnone, htrue⟩ := judgeRedeem_cons subscript args
        simp [hnone, htrue]
    · have hno : prev.scriptPubKey.isPayToScriptHash = false := Bool.eq_false_iff.mpr fun h => htype (hhash.mp h)
      have hcount : stack.length = (scriptSigArgsExpected whichType vSolutions).toNat ↔
          scriptSigArgsExpected whichType vSolutions = stack.length := by omega
      simp [htype, hno, takesArgs_iff hsolver, hcount]
  · have hnone : judgeInput env mapInputs txin ≠ .ok none := fun h => hlook (judgeInput_cases none (by simp) h)
    have htrue : judgeInput env mapInputs txin ≠ .ok (some true) := fun h =>
      hlook (judgeInput_cases (some true) (by simp) h)
    have hrule : ¬ InputStandard env mapInputs txin := fun h => hlook h.cases
    simp [hnone, htrue, hrule]

/-- The function says whether all inputs keep the rule, unless it skips one that does not. -/
theorem areInputsStandard_iff (env : Nat → ScriptEnv) (mapInputs : MapPrevTx) (tx : CTransaction) :
    (areInputsStandard env mapInputs tx = .ok true ↔ ∀ txin ∈ tx.vin.zipIdx, InputStandard env mapInputs txin) ↔
      ¬ SkipsInput env mapInputs tx := by
  have hmisses : FirstVerdict.Misses (InputStandard env mapInputs) (RedeemNonstandard env mapInputs) tx.vin.zipIdx →
      ¬ ∀ txin ∈ tx.vin.zipIdx, InputStandard env mapInputs txin := FirstVerdict.Misses.not_good
  rw [SkipsInput, areInputsStandard]
  by_cases hbase : tx.isCoinBase = true
  · simp only [hbase, if_true, true_and, true_iff]
    tauto
  · rw [if_neg hbase, FirstVerdict.firstVerdict_eq_true_iff (fun x => (judgeInput_verdicts x).1)
      (fun x => (judgeInput_verdicts x).2)]
    simp only [hbase]
    tauto

/-- The redeem script of the first input ends the function, which does not look at the superfluous push of the second. -/
theorem areInputsStandard_stuffed :
    areInputsStandard (fun _ => Sample.scriptEnv []) Sample.standardInputs Sample.stuffedTx = .ok true ∧
    ¬ ∀ txin ∈ Sample.stuffedTx.vin.zipIdx, InputStandard (fun _ => Sample.scriptEnv []) Sample.standardInputs txin := by
  refine ⟨by decide, fun hall => ?_⟩
  have hsecond := hall (⟨⟨8, 1⟩, [0x51, 0x51, 0x51], 0xffffffff⟩, 1) (by decide)
  have hjudge : judgeInput (fun _ => Sample.scriptEnv []) Sample.standardInputs
      (⟨⟨8, 1⟩, [0x51, 0x51, 0x51], 0xffffffff⟩, 1) = .ok (some false) := by decide
  by_cases hredeem : RedeemNonstandard (fun _ => Sample.scriptEnv []) Sample.standardInputs
      (⟨⟨8, 1⟩, [0x51, 0x51, 0x51], 0xffffffff⟩, 1)
  · have htrue := (judgeInput_verdicts _).2.mpr ⟨hsecond, hredeem⟩
    rw [hjudge] at htrue
    exact nomatch htrue
  · have hnone := (judgeInput_verdicts _).1.mpr ⟨hsecond, hredeem⟩
    rw [hjudge] at hnone
    exact nomatch hnone

end CTransaction

end PupaCoin
