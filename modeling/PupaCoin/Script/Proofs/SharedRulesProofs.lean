import PupaCoin.Script.Interpreter

/-!
# The two copies of the script interpreter

An evaluation under one set of rules follows the evaluation under another one when every test of the rules
does. Both copies are followed by the shared rules, so their verdicts agree unless a step is disputed.
-/

namespace PupaCoin

open Exec ScriptM

def Disputed (s : ScriptStop) : Prop := s = .disputed

section Basic

variable {α : Type} {P : ScriptStop → Prop}

theorem follows_fail (e e' : ScriptError) : Follows P (fail e : ScriptM α) (fail e') :=
  Follows.stop _ _

theorem follows_failIf (c : Bool) (e e' : ScriptError) : Follows P (failIf c e) (failIf c e') :=
  Follows.ite (fun _ => follows_fail e e') fun _ => Follows.pure ()

theorem follows_ofExcept (r : Except ScriptError α) : Follows P (ofExcept r) (ofExcept r) :=
  Follows.lift _

theorem follows_dispute (m : ScriptM α) : Follows Disputed dispute m :=
  Follows.of_excused (show Disputed .disputed from rfl) m

theorem follows_disputeIf {c : Bool} {m : ScriptM Unit} (h : c = false → Follows Disputed (pure ()) m) :
    Follows Disputed (disputeIf c) m := by
  cases c with
  | true => exact follows_dispute m
  | false => exact h rfl

theorem follows_disputeIf_bind {β : Type} {c : Bool} {f : Unit → ScriptM β} {m : ScriptM β}
    (h : c = false → Follows Disputed (f ()) m) : Follows Disputed (disputeIf c >>= f) m := by
  cases c with
  | true => exact follows_dispute m
  | false => exact h rfl

end Basic

/-- Every test of the rules `R₀` goes as the one of `R` does, or stops for a reason in `P`. -/
structure RulesFollow (P : ScriptStop → Prop) (R₀ R : ScriptRules) : Prop where
  checkPush : ∀ vch opcode, Follows P (R₀.checkPush vch opcode) (R.checkPush vch opcode)
  number : ∀ vch, Follows P (R₀.number vch) (R.number vch)
  hash256 : ∀ vch, Follows P (R₀.hash256 vch) (R.hash256 vch)
  checkSig : ∀ vchSig vchPubKey scriptCode,
    Follows P (R₀.checkSig vchSig vchPubKey scriptCode) (R.checkSig vchSig vchPubKey scriptCode)
  fDiscourageNops : Follows P (failIf R₀.fDiscourageNops .discourageUpgradableNops)
    (failIf R.fDiscourageNops .discourageUpgradableNops)
  fNullDummy : ∀ c, Follows P (failIf (R₀.fNullDummy && c) .sigNullDummy) (failIf (R.fNullDummy && c) .sigNullDummy)
  checkScripts : ∀ scriptSig scriptPubKey,
    Follows P (R₀.checkScripts scriptSig scriptPubKey) (R.checkScripts scriptSig scriptPubKey)

namespace RulesFollow

variable {P : ScriptStop → Prop} {R₀ R : ScriptRules} (h : RulesFollow P R₀ R) {env : ScriptEnv}

include h

theorem multiSigLoop (scriptCode : CScript) (keys sigs : List (List UInt8)) :
    Follows P (multiSigLoop R₀ scriptCode keys sigs) (multiSigLoop R scriptCode keys sigs) := by
  induction keys generalizing sigs with
  | nil =>
    cases sigs with
    | nil => exact Follows.pure true
    | cons sig sigs => exact Follows.pure false
  | cons key keys ih =>
    cases sigs with
    | nil => exact Follows.pure true
    | cons sig sigs =>
      refine (h.checkSig sig key scriptCode).bind fun fOk => ?_
      exact Follows.ite (fun _ => Follows.pure false) fun _ => ih _

theorem execCheckSig (fVerify : Bool) (st : ScriptState) :
    Follows P (execCheckSig R₀ fVerify st) (execCheckSig R fVerify st) := by
  rw [PupaCoin.execCheckSig, PupaCoin.execCheckSig]
  split
  · exact (h.checkSig _ _ _).bind fun _ => follows_ofExcept _
  · exact follows_fail _ _

theorem execCheckMultiSig (fVerify : Bool) (st : ScriptState) :
    Follows P (execCheckMultiSig R₀ fVerify st) (execCheckMultiSig R fVerify st) := by
  rw [PupaCoin.execCheckMultiSig, PupaCoin.execCheckMultiSig]
  cases st.stack with
  | nil => exact follows_fail _ _
  | cons vchKeys stack =>
    refine (h.number vchKeys).bind fun nKeysCount => ?_
    refine (follows_failIf _ _ _).bind fun _ => (follows_failIf _ _ _).bind fun _ => ?_
    refine (follows_failIf _ _ _).bind fun _ => ?_
    cases stack.drop nKeysCount.toNat with
    | nil => exact follows_fail _ _
    | cons vchSigs rest =>
      refine (h.number vchSigs).bind fun nSigsCount => ?_
      refine (follows_failIf _ _ _).bind fun _ => (follows_failIf _ _ _).bind fun _ => ?_
      refine (h.multiSigLoop _ _ _).bind fun fSuccess => ?_
      cases rest.drop nSigsCount.toNat with
      | nil => exact follows_fail _ _
      | cons dummy rest => exact (h.fNullDummy _).bind fun _ => follows_ofExcept _

theorem execPick (fRoll : Bool) (st : ScriptState) : Follows P (execPick R₀ fRoll st) (execPick R fRoll st) := by
  rw [PupaCoin.execPick, PupaCoin.execPick]
  split
  · refine (h.number _).bind fun n => (follows_failIf _ _ _).bind fun _ => ?_
    split
    · exact follows_fail _ _
    · exact Follows.pure _
  · exact follows_fail _ _

theorem execUnary (op : UnaryOp) (st : ScriptState) : Follows P (execUnary R₀ op st) (execUnary R op st) := by
  rw [PupaCoin.execUnary, PupaCoin.execUnary]
  split
  · exact follows_fail _ _
  · exact (h.number _).bind fun bn => Follows.pure _

theorem execBinary (op : BinaryOp) (fVerify : Bool) (st : ScriptState) :
    Follows P (execBinary R₀ op fVerify st) (execBinary R op fVerify st) := by
  rw [PupaCoin.execBinary, PupaCoin.execBinary]
  split
  · refine (h.number _).bind fun bn1 => (h.number _).bind fun bn2 => ?_
    refine Follows.ite (fun _ => ?_) fun _ => Follows.pure _
    exact (follows_failIf _ _ _).bind fun _ => Follows.pure _
  · exact follows_fail _ _

theorem execWithin (st : ScriptState) : Follows P (execWithin R₀ st) (execWithin R st) := by
  rw [PupaCoin.execWithin, PupaCoin.execWithin]
  split
  · exact (h.number _).bind fun _ => (h.number _).bind fun _ => (h.number _).bind fun _ => Follows.pure _
  · exact follows_fail _ _

theorem execHash (op : HashOp) (st : ScriptState) : Follows P (execHash env R₀ op st) (execHash env R op st) := by
  rw [PupaCoin.execHash, PupaCoin.execHash]
  split
  · exact follows_fail _ _
  · refine Follows.bind ?_ fun _ => Follows.pure _
    cases op with
    | ripemd160 => exact Follows.pure _
    | sha1 => exact Follows.pure _
    | sha256 => exact Follows.pure _
    | hash160 => exact Follows.pure _
    | hash256 => exact h.hash256 _

theorem execOp (op : ScriptOp) (fExec : Bool) (rest : CScript) (st : ScriptState) :
    Follows P (execOp env R₀ op fExec rest st) (execOp env R op fExec rest st) := by
  cases op with
  | nopN =>
    exact h.fDiscourageNops.bind fun _ => Follows.pure _
  | pick fRoll => exact h.execPick fRoll st
  | unary op => exact h.execUnary op st
  | binary op fVerify => exact h.execBinary op fVerify st
  | within => exact h.execWithin st
  | hash op => exact h.execHash op st
  | checkSig fVerify => exact h.execCheckSig fVerify st
  | checkMultiSig fVerify => exact h.execCheckMultiSig fVerify st
  | _ => exact follows_ofExcept _

theorem execInstr (opcode : Nat) (vchPushValue rest : CScript) (st : ScriptState) :
    Follows P (execInstr env R₀ opcode vchPushValue rest st)
      (execInstr env R opcode vchPushValue rest st) := by
  have hend : ∀ st : ScriptState, Follows P
      (do failIf (decide (st.stack.length + st.altstack.length > 1000)) .stackSize; return st)
      (do failIf (decide (st.stack.length + st.altstack.length > 1000)) .stackSize; return st) :=
    fun st => (follows_failIf _ _ _).bind fun _ => Follows.pure st
  rw [PupaCoin.execInstr, PupaCoin.execInstr]
  refine (follows_failIf _ _ _).bind fun _ => (follows_failIf _ _ _).bind fun _ => ?_
  refine (follows_failIf _ _ _).bind fun _ => ?_
  refine Follows.ite (fun _ => ?_) fun _ => Follows.ite (fun _ => ?_) fun _ => hend _
  · exact (h.checkPush vchPushValue opcode).bind fun _ => (Follows.pure _).bind hend
  · exact (h.execOp _ _ _ _).bind hend

/-- The loop over the instructions, by induction on their number. -/
theorem evalLoop (fuel : Nat) (pc : CScript) (st : ScriptState) :
    Follows P (evalLoop env R₀ fuel pc st) (evalLoop env R fuel pc st) := by
  induction fuel generalizing pc st with
  | zero => exact Follows.pure st
  | succ fuel ih =>
    rw [PupaCoin.evalLoop, PupaCoin.evalLoop]
    refine Follows.ite (fun _ => Follows.pure st) fun _ => ?_
    cases CScript.getOp pc with
    | none => exact follows_fail _ _
    | some instr => exact (h.execInstr _ _ _ st).bind fun st' => ih _ st'

theorem evalScript (stack : List (List UInt8)) (script : CScript) :
    Follows P (evalScript env R₀ stack script) (evalScript env R stack script) := by
  rw [PupaCoin.evalScript, PupaCoin.evalScript]
  refine (follows_failIf _ _ _).bind fun _ => (h.evalLoop _ _ _).bind fun st => ?_
  exact (follows_failIf _ _ _).bind fun _ => Follows.pure _

omit h in
theorem checkTop (stack : List (List UInt8)) : Follows P (checkTop stack) (checkTop stack) := by
  cases stack with
  | nil => exact follows_fail _ _
  | cons vch stack => exact follows_failIf _ _ _

theorem checkRedeem (stackCopy : List (List UInt8)) :
    Follows P (checkRedeem env R₀ stackCopy) (checkRedeem env R stackCopy) := by
  cases stackCopy with
  | nil => exact follows_fail _ _
  | cons pubKeySerialized stackCopy => exact (h.evalScript _ _).bind fun stack => checkTop stack

/-- `VerifyScript` under `R`, and an evaluation that goes as under `R₀` up to the redeem script. -/
theorem verifyScript (scriptSig scriptPubKey : CScript) {redeem : List (List UInt8) → ScriptM Unit}
    (hredeem : ∀ stackCopy, Follows P (redeem stackCopy) (do
      if ← R.fP2SH then
        failIf (!scriptSig.isPushOnly) .sigPushOnly
        PupaCoin.checkRedeem env R stackCopy)) :
    Follows P (do
      R₀.checkScripts scriptSig scriptPubKey
      let stackCopy ← PupaCoin.evalScript env R₀ [] scriptSig
      let stack ← PupaCoin.evalScript env R₀ stackCopy scriptPubKey
      PupaCoin.checkTop stack
      if scriptPubKey.isPayToScriptHash then redeem stackCopy) (verifyScript env R scriptSig scriptPubKey) := by
  rw [PupaCoin.verifyScript]
  refine (h.checkScripts scriptSig scriptPubKey).bind fun _ => (h.evalScript _ _).bind fun stackCopy => ?_
  refine (h.evalScript _ _).bind fun stack => (checkTop stack).bind fun _ => ?_
  exact Follows.ite (fun _ => hredeem stackCopy) fun _ => Follows.pure ()

end RulesFollow

section Rules

variable (env : ScriptEnv) (flags : UInt32)

theorem checkEncodingsFlags_of_canonical {vchSig vchPubKey : List UInt8}
    (h : checkEncodings env vchSig vchPubKey = true) : checkEncodingsFlags env flags vchSig vchPubKey = .ok () := by
  rw [checkEncodings, Bool.and_eq_true, Bool.and_eq_true] at h
  obtain ⟨⟨hlow, hhash⟩, hkey⟩ := h
  have hder : isDERSignature vchSig true = true := by
    rw [isLowDERSignature, Bool.and_eq_true] at hlow
    exact hlow.1
  rw [checkEncodingsFlags, hlow, hhash, hkey, hder]
  simp

theorem sharedRules_tx_checkSig (vchSig vchPubKey : List UInt8) (scriptCode : CScript) :
    Follows Disputed ((sharedRules env flags).checkSig vchSig vchPubKey scriptCode)
      ((txRules env flags).checkSig vchSig vchPubKey scriptCode) := by
  simp only [sharedRules, txRules]
  cases hcanonical : checkEncodings env vchSig vchPubKey with
  | true =>
    have htx : (do failIf (hasFlag flags scriptVerifyStrictEnc && !true) .unknownError
                   if true then countedCheckSig env vchSig vchPubKey scriptCode else return false)
        = countedCheckSig env vchSig vchPubKey scriptCode := by
      rw [Bool.not_true, Bool.and_false]
      rfl
    rw [htx, if_pos rfl]
    exact fun s t => rfl
  | false =>
    rw [if_neg Bool.false_ne_true, if_neg Bool.false_ne_true]
    cases hstrict : hasFlag flags scriptVerifyStrictEnc with
    | true =>
      show Follows Disputed _ (fail .unknownError)
      simp only [Bool.true_and, Bool.not_true, Bool.false_and, Bool.false_eq_true, if_false]
      split_ifs
      · exact follows_fail _ _
      · exact follows_dispute _
    | false =>
      show Follows Disputed _ (pure false)
      rw [Bool.false_and, if_neg Bool.false_ne_true]
      split_ifs
      · exact Follows.pure false
      · exact follows_dispute _

theorem sharedRules_tx : RulesFollow Disputed (sharedRules env flags) (txRules env flags) where
  checkPush _ _ := follows_disputeIf fun _ => Follows.pure ()
  number vch := by
    refine (follows_failIf _ _ _).bind fun _ => Follows.bind ?_ fun _ => Follows.pure _
    exact follows_disputeIf fun _ => Follows.pure ()
  hash256 vch := follows_disputeIf_bind fun hsame => by
    rw [← not_not.mp (decide_eq_false_iff_not.mp hsame)]
    exact Follows.pure _
  checkSig vchSig vchPubKey scriptCode := sharedRules_tx_checkSig env flags vchSig vchPubKey scriptCode
  fDiscourageNops := follows_failIf _ _ _
  fNullDummy _ := follows_failIf _ _ _
  checkScripts _ _ := follows_disputeIf fun _ => Follows.pure ()

theorem follows_countedCheckSig {vchSig vchPubKey : List UInt8} {scriptCode : CScript} {fOk : Bool}
    (h : env.checkSig vchSig vchPubKey scriptCode = fOk) :
    Follows Disputed (pure fOk) (countedCheckSig env vchSig vchPubKey scriptCode) := by
  intro s t
  show fOk = env.checkSig vchSig vchPubKey scriptCode
  exact h.symm

/-- The second copy stops at an encoding that the flags forbid, and checks the signature otherwise. -/
theorem sharedRules_checker_checkSig (vchSig vchPubKey : List UInt8) (scriptCode : CScript) :
    Follows Disputed ((sharedRules env flags).checkSig vchSig vchPubKey scriptCode)
      ((checkerRules env flags).checkSig vchSig vchPubKey scriptCode) := by
  simp only [sharedRules, checkerRules]
  by_cases hcanonical : checkEncodings env vchSig vchPubKey = true
  · rw [if_pos hcanonical, checkEncodingsFlags_of_canonical env flags hcanonical]
    exact fun s t => rfl
  rw [if_neg hcanonical]
  cases hflags : checkEncodingsFlags env flags vchSig vchPubKey with
  | error err =>
    have hfails : encodingFails env flags vchSig vchPubKey = true := by rw [encodingFails, hflags]; rfl
    rw [hfails]
    simp only [Bool.and_true, Bool.not_true, Bool.and_false, Bool.false_and, Bool.false_eq_true, if_false]
    split_ifs
    · exact follows_fail _ _
    · exact follows_dispute _
  | ok u =>
    have hfails : encodingFails env flags vchSig vchPubKey = false := by rw [encodingFails, hflags]; rfl
    rw [hfails]
    simp only [Bool.and_false, Bool.false_eq_true, if_false, Bool.not_false, Bool.and_true]
    split_ifs with hcheck
    · rw [Bool.and_eq_true] at hcheck
      have hwrong : env.checkSig vchSig vchPubKey scriptCode = false := (Bool.not_eq_true' _).mp hcheck.2
      exact follows_countedCheckSig env hwrong
    · exact follows_dispute _

theorem sharedRules_checker : RulesFollow Disputed (sharedRules env flags) (checkerRules env flags) where
  checkPush vch opcode := by
    refine follows_disputeIf fun hminimal => ?_
    show Follows Disputed _ (failIf _ _)
    rw [hminimal]
    exact Follows.pure ()
  number vch := by
    refine (follows_failIf _ _ _).bind fun _ => Follows.bind ?_ fun _ => Follows.pure _
    refine follows_disputeIf fun hminimal => ?_
    rw [hminimal]
    exact Follows.pure ()
  hash256 vch := follows_disputeIf_bind fun _ => Follows.pure _
  checkSig := sharedRules_checker_checkSig env flags
  fDiscourageNops := follows_failIf _ _ _
  fNullDummy _ := follows_failIf _ _ _
  checkScripts scriptSig _ := by
    refine follows_disputeIf fun hpush => ?_
    show Follows Disputed _ (failIf _ _)
    rw [hpush]
    exact Follows.pure ()

end Rules

section Flags

variable {env : ScriptEnv} {flags flags' : UInt32}

theorem follows_failIf_of_imp {c₀ c : Bool} (h : c = true → c₀ = true) (e e' : ScriptError) :
    Follows (fun _ => True) (failIf c₀ e) (failIf c e') := by
  cases c₀ with
  | true => exact Follows.of_excused trivial _
  | false =>
    rw [Bool.eq_false_iff.mpr fun hc => Bool.false_ne_true (h hc)]
    exact Follows.pure ()

/-- `flags'` has the flags of `flags`, so that its tests forbid what those of `flags` do. -/
theorem hasFlag_and_imp (hsub : flags &&& flags' = flags) (flag : UInt32) (c : Bool)
    (h : (hasFlag flags flag && c) = true) : (hasFlag flags' flag && c) = true := by
  rw [Bool.and_eq_true] at h ⊢
  refine ⟨bne_iff_ne.mpr fun hnone => bne_iff_ne.mp h.1 ?_, h.2⟩
  rw [← hsub, UInt32.and_assoc, hnone, UInt32.and_zero]

theorem hasFlag_imp (hsub : flags &&& flags' = flags) (flag : UInt32) (h : hasFlag flags flag = true) :
    hasFlag flags' flag = true := by
  have hand := hasFlag_and_imp hsub flag true (by rw [Bool.and_true, h])
  rwa [Bool.and_true] at hand

theorem checkEncodingsFlags_of_more (hsub : flags &&& flags' = flags) {vchSig vchPubKey : List UInt8}
    (h : checkEncodingsFlags env flags' vchSig vchPubKey = .ok ()) :
    checkEncodingsFlags env flags vchSig vchPubKey = .ok () := by
  unfold checkEncodingsFlags at h ⊢
  split_ifs at h with hder hlow hhash hkey
  rw [if_neg (mt (hasFlag_and_imp hsub _ _) hder), if_neg (mt (hasFlag_and_imp hsub _ _) hlow),
    if_neg (mt (hasFlag_and_imp hsub _ _) hhash), if_neg (mt (hasFlag_and_imp hsub _ _) hkey)]

theorem txRules_follow (hsub : flags &&& flags' = flags) :
    RulesFollow (fun _ => True) (txRules env flags') (txRules env flags) where
  checkPush _ _ := Follows.pure ()
  number _ := (follows_failIf _ _ _).bind fun _ => (follows_failIf _ _ _).bind fun _ => Follows.pure _
  hash256 _ := Follows.pure _
  checkSig _ _ _ := (follows_failIf_of_imp (hasFlag_and_imp hsub _ _) _ _).bind fun _ =>
    Follows.ite (fun _ _ _ => rfl) fun _ => Follows.pure false
  fDiscourageNops := follows_failIf_of_imp (hasFlag_imp hsub _) _ _
  fNullDummy c := follows_failIf_of_imp (hasFlag_and_imp hsub _ c) _ _
  checkScripts _ _ := Follows.pure ()

theorem checkerRules_follow (hsub : flags &&& flags' = flags) :
    RulesFollow (fun _ => True) (checkerRules env flags') (checkerRules env flags) where
  checkPush _ _ := follows_failIf_of_imp (hasFlag_and_imp hsub _ _) _ _
  number _ := (follows_failIf _ _ _).bind fun _ =>
    (follows_failIf_of_imp (hasFlag_and_imp hsub _ _) _ _).bind fun _ => Follows.pure _
  hash256 _ := Follows.pure _
  checkSig vchSig vchPubKey scriptCode := by
    simp only [checkerRules]
    cases hflags : checkEncodingsFlags env flags' vchSig vchPubKey with
    | error err => exact Follows.of_excused trivial _
    | ok u =>
      rw [checkEncodingsFlags_of_more hsub hflags]
      exact fun s t => rfl
  fDiscourageNops := follows_failIf_of_imp (hasFlag_imp hsub _) _ _
  fNullDummy c := follows_failIf_of_imp (hasFlag_and_imp hsub _ c) _ _
  checkScripts _ _ := follows_failIf_of_imp (hasFlag_and_imp hsub _ _) _ _

theorem txRedeem_follow (hsub : flags &&& flags' = flags) (scriptSig : CScript) (stackCopy : List (List UInt8)) :
    Follows (fun _ => True) (do
      failIf (!scriptSig.isPushOnly) .sigPushOnly
      checkRedeem env (txRules env flags') stackCopy) (do
      failIf (!scriptSig.isPushOnly) .sigPushOnly
      checkRedeem env (txRules env flags) stackCopy) :=
  (follows_failIf _ _ _).bind fun _ => (txRules_follow hsub).checkRedeem stackCopy

theorem checkerRedeem_follow (hsub : flags &&& flags' = flags) (scriptSig : CScript) (stackCopy : List (List UInt8)) :
    Follows (fun _ => True) (do
      if ← (checkerRules env flags').fP2SH then
        failIf (!scriptSig.isPushOnly) .sigPushOnly
        checkRedeem env (checkerRules env flags') stackCopy) (do
      if ← (checkerRules env flags).fP2SH then
        failIf (!scriptSig.isPushOnly) .sigPushOnly
        checkRedeem env (checkerRules env flags) stackCopy) := by
  show Follows _ (if hasFlag flags' scriptVerifyP2SH then _ else pure ())
    (if hasFlag flags scriptVerifyP2SH then _ else pure ())
  by_cases hflag : hasFlag flags scriptVerifyP2SH = true
  · rw [if_pos hflag, if_pos (hasFlag_imp hsub _ hflag)]
    exact (follows_failIf _ _ _).bind fun _ => (checkerRules_follow hsub).checkRedeem stackCopy
  · rw [if_neg hflag]
    intro s t
    rcases ((if hasFlag flags' scriptVerifyP2SH then _ else pure () : ScriptM Unit) s).1 with e | u
    · exact trivial
    · exact (rfl : u = ())

/-- An evaluation that follows one which succeeds, succeeds. -/
theorem verdict_of_follows {R₀ R : ScriptRules} {scriptSig scriptPubKey : CScript}
    (h : Follows (fun _ => True) (verifyScript env R₀ scriptSig scriptPubKey) (verifyScript env R scriptSig scriptPubKey))
    (hverdict : verdict env R₀ scriptSig scriptPubKey = true) : verdict env R scriptSig scriptPubKey = true := by
  rw [verdict] at hverdict ⊢
  rw [h.isOk_eq (fun e he => ?_) 0, hverdict]
  rw [he] at hverdict
  cases hverdict

/-- **Flags only forbid.** What a copy accepts under some flags it accepts under fewer. -/
theorem verdict_of_more_flags (env : ScriptEnv) (hsub : flags &&& flags' = flags) (scriptSig scriptPubKey : CScript) :
    (verdict env (txRules env flags') scriptSig scriptPubKey = true →
      verdict env (txRules env flags) scriptSig scriptPubKey = true) ∧
    (verdict env (checkerRules env flags') scriptSig scriptPubKey = true →
      verdict env (checkerRules env flags) scriptSig scriptPubKey = true) := by
  refine ⟨verdict_of_follows ?_, verdict_of_follows ?_⟩
  · exact (txRules_follow hsub).verifyScript scriptSig scriptPubKey (txRedeem_follow hsub scriptSig)
  · exact (checkerRules_follow hsub).verifyScript scriptSig scriptPubKey (checkerRedeem_follow hsub scriptSig)

end Flags

section Agree

variable (env : ScriptEnv) (flags : UInt32)

/-- What succeeds from one number of signature checks does so from every other one. -/
theorem follows_of_isOk {m : ScriptM Unit} (h : Follows (fun _ => True) m m) (hok : (m 0).1.isOk = true) :
    Follows Disputed (pure ()) m := by
  intro s t
  have hrun := h.isOk_eq (fun e he => by rw [he] at hok; cases hok) t
  rw [hok] at hrun
  show Agree Disputed (.ok ()) (m t).1
  cases hm : (m t).1 with
  | ok u => exact (rfl : () = u)
  | error e =>
    rw [hm] at hrun
    cases hrun

theorem sharedRedeem_tx (scriptSig : CScript) (stackCopy : List (List UInt8)) :
    Follows Disputed (sharedRedeem env flags scriptSig stackCopy) (do
      failIf (!scriptSig.isPushOnly) .sigPushOnly
      checkRedeem env (txRules env flags) stackCopy) := by
  unfold sharedRedeem
  split_ifs
  · exact (follows_failIf _ _ _).bind fun _ => (sharedRules_tx env flags).checkRedeem stackCopy
  · exact follows_disputeIf fun hok => follows_of_isOk (txRedeem_follow UInt32.and_self scriptSig stackCopy)
      ((Bool.not_eq_false' _).mp hok)

theorem sharedRedeem_checker (scriptSig : CScript) (stackCopy : List (List UInt8)) :
    Follows Disputed (sharedRedeem env flags scriptSig stackCopy) (do
      if ← (checkerRules env flags).fP2SH then
        failIf (!scriptSig.isPushOnly) .sigPushOnly
        checkRedeem env (checkerRules env flags) stackCopy) := by
  show Follows _ _ (if hasFlag flags scriptVerifyP2SH then _ else pure ())
  unfold sharedRedeem
  split_ifs
  · exact (follows_failIf _ _ _).bind fun _ => (sharedRules_checker env flags).checkRedeem stackCopy
  · exact follows_disputeIf fun _ => Follows.pure ()

end Agree

/-- The two copies go on in different ways from a step that is disputed. -/
def Parts {α : Type} (m₀ m m' : ScriptM α) : Prop :=
  ∀ s, (m₀ s).1 = .error .disputed → (m s).1.toOption ≠ (m' s).1.toOption

theorem parts_failIf (c : Bool) (e : ScriptError) : Parts (disputeIf c) (pure ()) (failIf c e) := by
  intro s h
  cases c with
  | true => exact fun hsame => nomatch hsame
  | false => cases h

theorem sharedRules_checkSig_differ (env : ScriptEnv) (flags : UInt32) (vchSig vchPubKey : List UInt8)
    (code : CScript) : Parts ((sharedRules env flags).checkSig vchSig vchPubKey code)
      ((txRules env flags).checkSig vchSig vchPubKey code) ((checkerRules env flags).checkSig vchSig vchPubKey code) := by
  intro s h
  have hfails : encodingFails env flags vchSig vchPubKey = !(checkEncodingsFlags env flags vchSig vchPubKey).isOk := rfl
  simp only [sharedRules, txRules, checkerRules, hfails] at h ⊢
  cases hcanonical : checkEncodings env vchSig vchPubKey with
  | true =>
    rw [hcanonical] at h
    cases h
  | false =>
    rw [hcanonical] at h
    cases hflags : checkEncodingsFlags env flags vchSig vchPubKey with
    | error err =>
      cases hstrict : hasFlag flags scriptVerifyStrictEnc with
      | true =>
        rw [hflags, hstrict] at h
        cases h
      | false => exact fun hsame => nomatch hsame
    | ok u =>
      cases hstrict : hasFlag flags scriptVerifyStrictEnc with
      | true => exact fun hsame => nomatch hsame
      | false =>
        cases hcheck : env.checkSig vchSig vchPubKey code with
        | true =>
          intro hsame
          have hpair : some false = some (env.checkSig vchSig vchPubKey code) := hsame
          rw [hcheck] at hpair
          cases hpair
        | false =>
          rw [hflags, hstrict, hcheck] at h
          cases h

/-- No step is disputed on which the two copies agree. -/
theorem sharedRules_differ (env : ScriptEnv) (flags : UInt32) :
    (∀ vch opcode, Parts ((sharedRules env flags).checkPush vch opcode) ((txRules env flags).checkPush vch opcode)
      ((checkerRules env flags).checkPush vch opcode)) ∧
    (∀ vch, Parts ((sharedRules env flags).number vch) ((txRules env flags).number vch)
      ((checkerRules env flags).number vch)) ∧
    (∀ vch, Parts ((sharedRules env flags).hash256 vch) ((txRules env flags).hash256 vch)
      ((checkerRules env flags).hash256 vch)) ∧
    (∀ vchSig vchPubKey code, Parts ((sharedRules env flags).checkSig vchSig vchPubKey code)
      ((txRules env flags).checkSig vchSig vchPubKey code) ((checkerRules env flags).checkSig vchSig vchPubKey code)) ∧
    ∀ scriptSig scriptPubKey, Parts ((sharedRules env flags).checkScripts scriptSig scriptPubKey)
      ((txRules env flags).checkScripts scriptSig scriptPubKey)
      ((checkerRules env flags).checkScripts scriptSig scriptPubKey) := by
  refine ⟨fun vch opcode => parts_failIf _ _, fun vch s h => ?_, fun vch s h => ?_, sharedRules_checkSig_differ env flags,
    fun _ _ => parts_failIf _ _⟩
  · simp only [sharedRules, txRules, checkerRules, toNumber] at h ⊢
    cases hlength : decide (vch.length > maxNumSize) with
    | true =>
      rw [hlength] at h
      cases h
    | false =>
      cases hminimal : hasFlag flags scriptVerifyMinimalData && !isMinimalNum vch with
      | true => exact fun hsame => nomatch hsame
      | false =>
        rw [hlength, hminimal] at h
        cases h
  · by_cases hsame : env.hashBmw512 vch = env.hash256 vch
    · simp only [sharedRules, hsame, ne_eq, not_true_eq_false, decide_false] at h
      cases h
    · exact fun hopt => hsame (Option.some.inj hopt)

/-- Both copies come to the same verdict on two scripts, unless a step of the evaluation is disputed. -/
theorem verifyScripts_agree (env : ScriptEnv) (flags : UInt32) (scriptSig scriptPubKey : CScript)
    (h : (sharedVerify env flags scriptSig scriptPubKey 0).1 ≠ .error .disputed) :
    verdict env (txRules env flags) scriptSig scriptPubKey
      = verdict env (checkerRules env flags) scriptSig scriptPubKey := by
  have hstop : ∀ e, (sharedVerify env flags scriptSig scriptPubKey 0).1 = .error e → ¬Disputed e := by
    rintro e he hdisputed
    rw [hdisputed] at he
    exact h he
  have htx := ((sharedRules_tx env flags).verifyScript scriptSig scriptPubKey
    (sharedRedeem_tx env flags scriptSig)).isOk_eq hstop 0
  have hchecker := ((sharedRules_checker env flags).verifyScript scriptSig scriptPubKey
    (sharedRedeem_checker env flags scriptSig)).isOk_eq hstop 0
  rw [verdict, verdict, htx, hchecker]

namespace Sample

def keyHash : List UInt8 :=
  [0x75, 0x1e, 0x76, 0xe8, 0x19, 0x91, 0x96, 0xd4, 0x54, 0x94, 0x1c, 0x45, 0xd1, 0xb3, 0xa3, 0x23,
    0xf1, 0x43, 0x3b, 0xd6]

def keyHashScript : CScript := 0x76 :: 0xa9 :: (CScript.pushData keyHash ++ [0x88, 0xac])

/-- `<key> OP_CHECKSIG`, as a redeem script. -/
def redeemKey : CScript := CScript.pushData vchPubKey ++ [0xac]

def redeemKeyHash : List UInt8 :=
  [0x23, 0xb0, 0xad, 0x34, 0x77, 0xf2, 0x17, 0x8b, 0xc0, 0xb3, 0xee, 0xd2, 0x6e, 0x4e, 0x63, 0x16,
    0xf4, 0xe8, 0x3a, 0xa1]

theorem redeemKey_agree : (sharedVerify (scriptEnv redeemKeyHash) standardScriptVerifyFlags
        (CScript.pushData vchSig ++ CScript.pushData redeemKey) (0xa9 :: 0x14 :: (redeemKeyHash ++ [0x87])) 0).1
        = .ok () ∧
      verdict (scriptEnv redeemKeyHash) (txRules (scriptEnv redeemKeyHash) standardScriptVerifyFlags)
          (CScript.pushData vchSig ++ CScript.pushData redeemKey) (0xa9 :: 0x14 :: (redeemKeyHash ++ [0x87]))
        = verdict (scriptEnv redeemKeyHash) (checkerRules (scriptEnv redeemKeyHash) standardScriptVerifyFlags)
          (CScript.pushData vchSig ++ CScript.pushData redeemKey) (0xa9 :: 0x14 :: (redeemKeyHash ++ [0x87])) := by
  have hrun : (sharedVerify (scriptEnv redeemKeyHash) standardScriptVerifyFlags
      (CScript.pushData vchSig ++ CScript.pushData redeemKey) (0xa9 :: 0x14 :: (redeemKeyHash ++ [0x87])) 0).1
      = .ok () := by decide
  refine ⟨hrun, verifyScripts_agree _ _ _ _ ?_⟩
  rw [hrun]
  exact fun h => nomatch h

end Sample

namespace Sample

theorem keyHash_fewer_flags : (verdict (scriptEnv keyHash) (txRules (scriptEnv keyHash) 0)
        (CScript.pushData vchSig ++ CScript.pushData vchPubKey) keyHashScript = true) ∧
      verdict (scriptEnv keyHash) (checkerRules (scriptEnv keyHash) 0)
        (CScript.pushData vchSig ++ CScript.pushData vchPubKey) keyHashScript = true := by
  obtain ⟨htx, hchecker⟩ := verdict_of_more_flags (scriptEnv keyHash) (show 0 &&& standardScriptVerifyFlags = 0 from rfl)
    (CScript.pushData vchSig ++ CScript.pushData vchPubKey) keyHashScript
  exact ⟨htx (by decide), hchecker (by decide)⟩

def falseHash : List UInt8 :=
  [0x9f, 0x7f, 0xd0, 0x96, 0xd3, 0x7e, 0xd2, 0xc0, 0xe3, 0xf7, 0xf0, 0xcf, 0xc9, 0x24, 0xbe, 0xef,
    0x4f, 0xfc, 0xeb, 0x68]

/-- The redeem script `OP_0` fails; without `SCRIPT_VERIFY_P2SH`, the second copy does not evaluate it. -/
theorem redeem_not_evaluated : verdict (scriptEnv falseHash) (txRules (scriptEnv falseHash) standardScriptVerifyFlags)
        [1, 0] (0xa9 :: 0x14 :: (falseHash ++ [0x87])) = false ∧
      verdict (scriptEnv falseHash) (checkerRules (scriptEnv falseHash) standardScriptVerifyFlags)
        [1, 0] (0xa9 :: 0x14 :: (falseHash ++ [0x87])) = true := by
  decide

end Sample

end PupaCoin
