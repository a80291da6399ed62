import PupaCoin.Script.Interpreter

/-!
# Signature checks and the static counts

The count of `GetSigOpCount` is read off the script without evaluating it. An evaluation executes at most as
many signature checks: instruction by instruction, where the number of keys of an `OP_CHECKMULTISIG` is the
small number pushed right before it, or at most 20.
-/

namespace PupaCoin

variable {s t opcode lastOpcode : Nat} {script pc vch rest vchPushValue : CScript} {fVerify fExec : Bool}
  {st st' : ScriptState} {R : ScriptRules}

open Exec ScriptM

section Basic

variable {α : Type} {k : Nat}

theorem atMost_fail (e : ScriptError) : AtMost k (fail e : ScriptM α) := AtMost.stop _

theorem atMost_failIf (c : Bool) (e : ScriptError) : AtMost k (failIf c e) :=
  AtMost.ite (fun _ => atMost_fail e) fun _ => AtMost.pure ()

theorem atMost_ofExcept (r : Except ScriptError α) : AtMost k (ofExcept r) := AtMost.lift _

theorem failIf_returns {c : Bool} {e : ScriptError} {u : Unit} (h : failIf c e s = (.ok u, t)) :
    c = false ∧ s = t := by
  cases c with
  | true => exact absurd (congrArg Prod.fst h) (fun h => nomatch h)
  | false => exact ⟨rfl, congrArg Prod.snd h⟩

theorem ofExcept_returns {r : Except ScriptError α} {a : α} (h : ofExcept r s = (.ok a, t)) : r = .ok a := by
  have hr : r.mapError ScriptStop.error = .ok a := congrArg Prod.fst h
  cases r with
  | ok b => exact congrArg Except.ok (Except.ok.inj hr)
  | error e => exact nomatch hr

end Basic

/-- Only the check of a signature counts, as one, and a small number on the stack is read as what was
pushed. -/
structure CountedRules (R : ScriptRules) : Prop where
  checkPush : ∀ vch opcode, AtMost 0 (R.checkPush vch opcode)
  number : ∀ vch, AtMost 0 (R.number vch)
  number_small : ∀ n : Nat, 1 ≤ n → n ≤ 16 → ∀ s, R.number (getvch n) s = (.ok n, s)
  hash256 : ∀ vch, AtMost 0 (R.hash256 vch)
  checkSig : ∀ vchSig vchPubKey scriptCode, AtMost 1 (R.checkSig vchSig vchPubKey scriptCode)
  checkScripts : ∀ scriptSig scriptPubKey, AtMost 0 (R.checkScripts scriptSig scriptPubKey)
  fP2SH : AtMost 0 R.fP2SH

namespace CScript

theorem sigOpsOf_le (lastOpcode opcode : Nat) :
    sigOpsOf true lastOpcode opcode ≤ sigOpsOf false lastOpcode opcode := by
  rw [sigOpsOf, sigOpsOf]
  by_cases hsig : opcode = opCheckSig ∨ opcode = opCheckSigVerify
  · rw [if_pos hsig, if_pos hsig]
  rw [if_neg hsig, if_neg hsig]
  by_cases hmulti : opcode = opCheckMultiSig ∨ opcode = opCheckMultiSigVerify
  · have hfalse : ¬(false = true ∧ op1 ≤ lastOpcode ∧ lastOpcode ≤ op16) := fun h => Bool.false_ne_true h.1
    rw [if_pos hmulti, if_pos hmulti, if_neg hfalse]
    split_ifs with hsmall
    · have hle := hsmall.2.2
      rw [decodeOpN]
      rw [op16] at hle
      rw [op1]
      omega
    · exact le_rfl
  · rw [if_neg hmulti, if_neg hmulti]

theorem sigOpLoop_le (fuel lastOpcode : Nat) (pc : CScript) :
    sigOpLoop true fuel lastOpcode pc ≤ sigOpLoop false fuel lastOpcode pc := by
  induction fuel generalizing lastOpcode pc with
  | zero => exact le_rfl
  | succ fuel ih =>
    rw [sigOpLoop, sigOpLoop]
    cases getOp pc with
    | none => exact le_rfl
    | some instr => exact Nat.add_le_add (sigOpsOf_le lastOpcode instr.1) (ih instr.1 instr.2.2)

theorem getSigOpCount_le (script : CScript) : script.getSigOpCount true ≤ script.getSigOpCount false :=
  sigOpLoop_le script.length opInvalidOpcode script

theorem sigOpsOf_push (fAccurate : Bool) (lastOpcode : Nat) (h : opcode ≤ op16) :
    sigOpsOf fAccurate lastOpcode opcode = 0 := by
  rw [op16] at h
  have hsig : ¬(opcode = opCheckSig ∨ opcode = opCheckSigVerify) := by
    rw [opCheckSig, opCheckSigVerify]
    omega
  have hmulti : ¬(opcode = opCheckMultiSig ∨ opcode = opCheckMultiSigVerify) := by
    rw [opCheckMultiSig, opCheckMultiSigVerify]
    omega
  rw [sigOpsOf, if_neg hsig, if_neg hmulti]

theorem sigOpLoop_pushOnly (fAccurate : Bool) (fuel lastOpcode : Nat) (pc : CScript) (h : pushOnlyLoop fuel pc = true)
    : sigOpLoop fAccurate fuel lastOpcode pc = 0 := by
  induction fuel generalizing lastOpcode pc with
  | zero => rfl
  | succ fuel ih =>
    rw [pushOnlyLoop] at h
    rw [sigOpLoop]
    by_cases hnil : pc = []
    · rw [hnil]
      rfl
    rw [if_neg hnil] at h
    cases hop : getOp pc with
    | none => rfl
    | some instr =>
      rw [hop] at h
      by_cases hpush : instr.1 > op16
      · exact absurd h (by simp [hpush])
      have hrest : pushOnlyLoop fuel instr.2.2 = true := by simpa [hpush] using h
      simp only [sigOpsOf_push fAccurate lastOpcode (Nat.not_lt.mp hpush), ih instr.1 instr.2.2 hrest]

theorem getSigOpCount_pushOnly (fAccurate : Bool) (h : script.isPushOnly = true) :
    script.getSigOpCount fAccurate = 0 :=
  sigOpLoop_pushOnly fAccurate script.length opInvalidOpcode script h

theorem sigOpLoop_cons {fAccurate : Bool} {fuel : Nat} (h : getOp pc = some (opcode, vch, rest)) :
    sigOpLoop fAccurate (fuel + 1) lastOpcode pc
      = sigOpsOf fAccurate lastOpcode opcode + sigOpLoop fAccurate fuel opcode rest := by
  rw [sigOpLoop, h]

theorem isPayToScriptHash_eq (h : script.isPayToScriptHash = true) :
    ∃ hash : List UInt8, hash.length = 20 ∧ script = 0xa9 :: 0x14 :: (hash ++ [0x87]) := by
  simp only [isPayToScriptHash, Bool.and_eq_true, beq_iff_eq] at h
  obtain ⟨⟨⟨hlength, h0⟩, h1⟩, h22⟩ := h
  match script with
  | [] => exact nomatch h0
  | [_] => exact nomatch h1
  | a :: b :: rest =>
    have ha : a = 0xa9 := Option.some.inj h0
    have hb : b = 0x14 := Option.some.inj h1
    have hrest : rest.length = 21 := by
      simp only [List.length_cons] at hlength
      omega
    have hlast : rest[20]? = some 0x87 := h22
    obtain ⟨h20, hget⟩ := List.getElem?_eq_some_iff.mp hlast
    have hdrop : rest.drop 20 = [0x87] := by
      rw [List.drop_eq_getElem_cons h20, hget, List.drop_eq_nil_of_le (by omega)]
    refine ⟨rest.take 20, by rw [List.length_take, hrest]; rfl, ?_⟩
    rw [ha, hb, ← hdrop, List.take_append_drop]

theorem getSigOpCount_p2sh (fAccurate : Bool) (h : script.isPayToScriptHash = true) :
    script.getSigOpCount fAccurate = 0 := by
  obtain ⟨hash, hlength, rfl⟩ := isPayToScriptHash_eq h
  have hpush : getOp (0x14 :: (hash ++ [0x87])) = some (0x14, hash, [0x87]) := by
    have htake : (hash ++ [(0x87 : UInt8)]).take 20 = hash := by rw [← hlength, List.take_left]
    have hdrop : (hash ++ [(0x87 : UInt8)]).drop 20 = [0x87] := by rw [← hlength, List.drop_left]
    have hsize : ¬(hash ++ [(0x87 : UInt8)]).length % 2 ^ 32 < 20 := by
      rw [List.length_append, hlength]
      decide
    show (if (hash ++ [(0x87 : UInt8)]).length % 2 ^ 32 < 20 then none
      else some (0x14, (hash ++ [0x87]).take 20, (hash ++ [0x87]).drop 20)) = _
    rw [if_neg hsize, htake, hdrop]
  have hfuel : (0xa9 :: 0x14 :: (hash ++ [0x87]) : CScript).length = 20 + 1 + 1 + 1 := by
    simp [hlength]
  rw [getSigOpCount, hfuel, sigOpLoop_cons (rfl : getOp (0xa9 :: 0x14 :: (hash ++ [0x87])) = some (0xa9, [], _)),
    sigOpLoop_cons hpush, sigOpLoop_cons (rfl : getOp [0x87] = some (0x87, [], []))]
  rfl

end CScript

theorem decodeOp_checkSig (h : decodeOp opcode = .checkSig fVerify) :
    opcode = CScript.opCheckSig ∨ opcode = CScript.opCheckSigVerify := by
  unfold decodeOp at h
  split_ifs at h
  split at h
  all_goals first
    | exact Or.inl rfl
    | exact Or.inr rfl
    | cases h

theorem decodeOp_checkMultiSig (h : decodeOp opcode = .checkMultiSig fVerify) :
    opcode = CScript.opCheckMultiSig ∨ opcode = CScript.opCheckMultiSigVerify := by
  unfold decodeOp at h
  split_ifs at h
  split at h
  all_goals first
    | exact Or.inl rfl
    | exact Or.inr rfl
    | cases h

section Instr

variable {env : ScriptEnv} {R : ScriptRules}

theorem execOp_smallPush (hlow : CScript.opPushData4 < opcode) (hhigh : opcode ≤ CScript.op16)
    (h : execOp env R (decodeOp opcode) fExec rest st s = (.ok st', t)) :
    st' = { st with stack := getvch ((opcode : Int) - 0x50) :: st.stack } := by
  rw [CScript.opPushData4] at hlow
  rw [CScript.op16] at hhigh
  by_cases hreserved : opcode = 0x50
  · rw [hreserved] at h
    exact nomatch congrArg Prod.fst h
  · have hnumber : decodeOp opcode = .number ((opcode : Int) - 0x50) := by
      have hsmall : opcode = 0x4f ∨ (CScript.op1 ≤ opcode ∧ opcode ≤ CScript.op16) := by
        rw [CScript.op1, CScript.op16]
        omega
      unfold decodeOp
      rw [if_pos hsmall]
      rfl
    rw [hnumber] at h
    exact (Except.ok.inj (ofExcept_returns h)).symm

theorem execInstr_returns (h : execInstr env R opcode vchPushValue rest st s = (.ok st', t)) : ∃ nOpCount : Nat,
      (st.vfExec.all id = true ∧ opcode ≤ CScript.opPushData4 ∧
        st' = { st with nOpCount, stack := vchPushValue :: st.stack }) ∨
      (¬(st.vfExec.all id = true ∧ opcode ≤ CScript.opPushData4) ∧ ∃ s' t',
        execOp env R (decodeOp opcode) (st.vfExec.all id) rest { st with nOpCount } s' = (.ok st', t')) ∨
      (st.vfExec.all id = false ∧ st' = { st with nOpCount }) := by
  have hend : ∀ {u : ScriptState} {s s' : Nat},
      (do failIf (decide (u.stack.length + u.altstack.length > 1000)) .stackSize; return u : ScriptM ScriptState) s
        = (.ok st', s') → st' = u := by
    intro u s s' hu
    obtain ⟨_, _, -, hu⟩ := bind_returns.mp hu
    exact (Except.ok.inj (congrArg Prod.fst hu)).symm
  rw [execInstr] at h
  obtain ⟨_, _, -, h⟩ := bind_returns.mp h
  obtain ⟨_, _, -, h⟩ := bind_returns.mp h
  obtain ⟨_, _, -, h⟩ := bind_returns.mp h
  generalize (if opcode > CScript.op16 then st.nOpCount + 1 else st.nOpCount) = nOpCount at h
  refine ⟨nOpCount, ?_⟩
  split_ifs at h with hpush hexec
  · obtain ⟨_, _, -, h⟩ := bind_returns.mp h
    obtain ⟨_, _, hst, h⟩ := bind_returns.mp h
    have hst' := Except.ok.inj (congrArg Prod.fst hst)
    rw [← hst'] at h
    exact Or.inl ⟨hpush.1, hpush.2, hend h⟩
  · obtain ⟨u, s', hop, h⟩ := bind_returns.mp h
    rw [hend h]
    exact Or.inr (Or.inl ⟨hpush, _, _, hop⟩)
  · have hskip : st.vfExec.all id = false := by
      rw [← Bool.not_eq_true]
      exact fun hall => hexec (Or.inl hall)
    exact Or.inr (Or.inr ⟨hskip, hend h⟩)

end Instr

/-- A small number that was executed last is still on top of the stack. -/
def SmallOnTop (lastOpcode : Nat) (st : ScriptState) : Prop :=
  st.vfExec.all id = true → CScript.op1 ≤ lastOpcode → lastOpcode ≤ CScript.op16 →
    ∃ stack, st.stack = getvch (CScript.decodeOpN lastOpcode) :: stack

theorem smallOnTop_start (st : ScriptState) : SmallOnTop CScript.opInvalidOpcode st := by
  intro _ _ hle
  rw [CScript.opInvalidOpcode, CScript.op16] at hle
  omega

theorem smallOnTop_step {env : ScriptEnv} (h : execInstr env R opcode vchPushValue rest st s = (.ok st', t))
    : SmallOnTop opcode st' := by
  intro hall hlow hhigh
  have hlow' : CScript.opPushData4 < opcode := by
    rw [CScript.op1] at hlow
    rw [CScript.opPushData4]
    omega
  obtain ⟨nOpCount, ⟨-, hpush, -⟩ | ⟨-, s', t', hop⟩ | ⟨hskip, hst⟩⟩ := execInstr_returns h
  · omega
  · have hn : (opcode : Int) - 0x50 = (CScript.decodeOpN opcode : Nat) := by
      rw [CScript.op1] at hlow
      rw [CScript.decodeOpN, CScript.op1]
      omega
    refine ⟨st.stack, ?_⟩
    rw [execOp_smallPush hlow' hhigh hop, hn]
  · rw [hst] at hall
    exact absurd hall (by simp only [hskip, Bool.false_eq_true, not_false_eq_true])

namespace CountedRules

variable {R : ScriptRules} (h : CountedRules R) {env : ScriptEnv}

include h

theorem multiSigLoop (scriptCode : CScript) (keys sigs : List (List UInt8)) :
    AtMost keys.length (multiSigLoop R scriptCode keys sigs) := by
  induction keys generalizing sigs with
  | nil =>
    cases sigs with
    | nil => exact AtMost.pure true
    | cons sig sigs => exact AtMost.pure false
  | cons key keys ih =>
    cases sigs with
    | nil => exact AtMost.pure true
    | cons sig sigs =>
      rw [List.length_cons, Nat.add_comm]
      refine (h.checkSig sig key scriptCode).bind fun fOk => ?_
      exact AtMost.ite (fun _ => AtMost.pure false) fun _ => ih _

theorem execCheckSig (fVerify : Bool) (st : ScriptState) : AtMost 1 (execCheckSig R fVerify st) := by
  rw [PupaCoin.execCheckSig]
  split
  · exact (h.checkSig _ _ _).bind (l := 0) fun _ => atMost_ofExcept _
  · exact atMost_fail _

theorem execCheckMultiSig (fVerify : Bool) {k : Nat} (hk : ∀ vchKeys stack, st.stack = vchKeys :: stack →
      ∀ s n t, R.number vchKeys s = (.ok n, t) → n ≤ 20 → n.toNat ≤ k) :
    AtMost k (execCheckMultiSig R fVerify st) := by
  rw [PupaCoin.execCheckMultiSig]
  cases hstack : st.stack with
  | nil => exact atMost_fail _
  | cons vchKeys stack =>
    rw [← Nat.zero_add k]
    refine (h.number vchKeys).bind_of fun s nKeysCount t hnumber => ?_
    rw [← Nat.zero_add k]
    refine (atMost_failIf _ _).bind_of fun s' _ t' hrange => ?_
    have hkeys : nKeysCount.toNat ≤ k := by
      have hle : ¬(nKeysCount < 0 ∨ nKeysCount > 20) := of_decide_eq_false (failIf_returns hrange).1
      exact hk vchKeys stack hstack s nKeysCount t hnumber (by omega)
    refine (atMost_failIf _ _).bind_zero fun _ => (atMost_failIf _ _).bind_zero fun _ => ?_
    cases stack.drop nKeysCount.toNat with
    | nil => exact atMost_fail _
    | cons vchSigs rest =>
      refine (h.number vchSigs).bind_zero fun nSigsCount => ?_
      refine (atMost_failIf _ _).bind_zero fun _ => (atMost_failIf _ _).bind_zero fun _ => ?_
      have hloop := (h.multiSigLoop (List.foldl (fun code sig => code.findAndDelete (CScript.pushData sig))
        st.scriptCode (rest.take nSigsCount.toNat)) (stack.take nKeysCount.toNat)
        (rest.take nSigsCount.toNat)).mono ((List.length_take_le _ _).trans hkeys)
      refine hloop.bind (l := 0) fun fSuccess => ?_
      cases rest.drop nSigsCount.toNat with
      | nil => exact atMost_fail _
      | cons dummy rest => exact (atMost_failIf _ _).bind_zero fun _ => atMost_ofExcept _

theorem execPick (fRoll : Bool) (st : ScriptState) : AtMost 0 (execPick R fRoll st) := by
  rw [PupaCoin.execPick]
  split
  · refine (h.number _).bind_zero fun n => (atMost_failIf _ _).bind_zero fun _ => ?_
    split
    · exact atMost_fail _
    · exact AtMost.pure _
  · exact atMost_fail _

theorem execUnary (op : UnaryOp) (st : ScriptState) : AtMost 0 (execUnary R op st) := by
  rw [PupaCoin.execUnary]
  split
  · exact atMost_fail _
  · exact (h.number _).bind_zero fun bn => AtMost.pure _

theorem execBinary (op : BinaryOp) (fVerify : Bool) (st : ScriptState) : AtMost 0 (execBinary R op fVerify st) := by
  rw [PupaCoin.execBinary]
  split
  · refine (h.number _).bind_zero fun bn1 => (h.number _).bind_zero fun bn2 => ?_
    refine AtMost.ite (fun _ => ?_) fun _ => AtMost.pure _
    exact (atMost_failIf _ _).bind_zero fun _ => AtMost.pure _
  · exact atMost_fail _

theorem execWithin (st : ScriptState) : AtMost 0 (execWithin R st) := by
  rw [PupaCoin.execWithin]
  split
  · refine (h.number _).bind_zero fun bn1 => (h.number _).bind_zero fun bn2 => ?_
    exact (h.number _).bind_zero fun bn3 => AtMost.pure _
  · exact atMost_fail _

theorem execHash (op : HashOp) (st : ScriptState) : AtMost 0 (execHash env R op st) := by
  rw [PupaCoin.execHash]
  split
  · exact atMost_fail _
  · refine AtMost.bind_zero ?_ fun _ => AtMost.pure _
    cases op with
    | ripemd160 => exact AtMost.pure _
    | sha1 => exact AtMost.pure _
    | sha256 => exact AtMost.pure _
    | hash160 => exact AtMost.pure _
    | hash256 => exact h.hash256 _

theorem execOp {op : ScriptOp} {k : Nat} (hsig : ∀ fVerify, op = .checkSig fVerify → 1 ≤ k)
    (hmulti : ∀ fVerify, op = .checkMultiSig fVerify → AtMost k (PupaCoin.execCheckMultiSig R fVerify st)) :
    AtMost k (execOp env R op fExec rest st) := by
  cases op with
  | nopN => exact (atMost_failIf _ _).bind_zero fun _ => AtMost.pure _
  | pick fRoll => exact (h.execPick fRoll st).mono k.zero_le
  | unary op => exact (h.execUnary op st).mono k.zero_le
  | binary op fVerify => exact (h.execBinary op fVerify st).mono k.zero_le
  | within => exact (h.execWithin st).mono k.zero_le
  | hash op => exact (h.execHash op st).mono k.zero_le
  | checkSig fVerify => exact (h.execCheckSig fVerify st).mono (hsig fVerify rfl)
  | checkMultiSig fVerify => exact hmulti fVerify rfl
  | _ => exact atMost_ofExcept _

theorem execCheckMultiSig_counted (fVerify : Bool)
    (hopcode : opcode = CScript.opCheckMultiSig ∨ opcode = CScript.opCheckMultiSigVerify)
    (hexec : st.vfExec.all id = true) (hst : SmallOnTop lastOpcode st) :
    AtMost (CScript.sigOpsOf true lastOpcode opcode) (PupaCoin.execCheckMultiSig R fVerify st) := by
  have hsig : ¬(opcode = CScript.opCheckSig ∨ opcode = CScript.opCheckSigVerify) := by
    rw [CScript.opCheckMultiSig, CScript.opCheckMultiSigVerify] at hopcode
    rw [CScript.opCheckSig, CScript.opCheckSigVerify]
    omega
  rw [CScript.sigOpsOf, if_neg hsig, if_pos hopcode]
  split_ifs with hsmall
  · obtain ⟨stack, htop⟩ := hst hexec hsmall.2.1 hsmall.2.2
    have hn : 1 ≤ CScript.decodeOpN lastOpcode ∧ CScript.decodeOpN lastOpcode ≤ 16 := by
      have hrange := hsmall.2
      rw [CScript.op1, CScript.op16] at hrange
      rw [CScript.decodeOpN, CScript.op1]
      omega
    refine h.execCheckMultiSig fVerify fun vchKeys stack' hstack s n t hnumber _ => ?_
    rw [htop] at hstack
    rw [← (List.cons.inj hstack).1, h.number_small _ hn.1 hn.2 s] at hnumber
    have hn' : ((CScript.decodeOpN lastOpcode : Nat) : Int) = n := Except.ok.inj (congrArg Prod.fst hnumber)
    rw [← hn', Int.toNat_natCast]
  · exact h.execCheckMultiSig fVerify fun _ _ _ _ n _ _ hle => by omega

theorem execInstr (hst : SmallOnTop lastOpcode st) :
    AtMost (CScript.sigOpsOf true lastOpcode opcode) (execInstr env R opcode vchPushValue rest st) := by
  have hend : ∀ st : ScriptState, AtMost 0
      (do failIf (decide (st.stack.length + st.altstack.length > 1000)) .stackSize; return st) :=
    fun st => (atMost_failIf _ _).bind_zero fun _ => AtMost.pure st
  rw [PupaCoin.execInstr]
  refine (atMost_failIf _ _).bind_zero fun _ => (atMost_failIf _ _).bind_zero fun _ => ?_
  refine (atMost_failIf _ _).bind_zero fun _ => ?_
  refine AtMost.ite (fun _ => ?_) fun _ => AtMost.ite (fun hexec => ?_) fun _ => (hend _).mono (Nat.zero_le _)
  · refine (h.checkPush vchPushValue opcode).bind_zero fun _ => ?_
    exact ((AtMost.pure (k := 0) _).bind_zero hend).mono (Nat.zero_le _)
  · refine AtMost.bind (k := CScript.sigOpsOf true lastOpcode opcode) (l := 0)
      (h.execOp (fun fVerify hop => ?_) fun fVerify hop => ?_) hend
    · rw [CScript.sigOpsOf, if_pos (decodeOp_checkSig hop)]
    · have hopcode := decodeOp_checkMultiSig hop
      have hall : st.vfExec.all id = true := by
        refine hexec.resolve_right fun hcond => ?_
        rw [CScript.opCheckMultiSig, CScript.opCheckMultiSigVerify] at hopcode
        omega
      exact h.execCheckMultiSig_counted fVerify hopcode hall hst

/-- The loop over the instructions, by induction on their number. -/
theorem evalLoop (fuel : Nat) (pc : CScript) (hst : SmallOnTop lastOpcode st) :
    AtMost (CScript.sigOpLoop true fuel lastOpcode pc) (evalLoop env R fuel pc st) := by
  induction fuel generalizing lastOpcode pc st with
  | zero => exact AtMost.pure st
  | succ fuel ih =>
    rw [PupaCoin.evalLoop, CScript.sigOpLoop]
    refine AtMost.ite (fun _ => AtMost.pure st) fun _ => ?_
    cases CScript.getOp pc with
    | none => exact atMost_fail _
    | some instr => exact (h.execInstr hst).bind_of fun _ st' _ hrun => ih _ (smallOnTop_step hrun)

theorem evalScript (stack : List (List UInt8)) (script : CScript) :
    AtMost (script.getSigOpCount true) (evalScript env R stack script) := by
  rw [PupaCoin.evalScript]
  refine (atMost_failIf _ _).bind_zero fun _ => ?_
  refine (h.evalLoop _ _ (smallOnTop_start _)).bind (l := 0) fun st => ?_
  exact (atMost_failIf _ _).bind_zero fun _ => AtMost.pure _

omit h in
theorem checkTop (stack : List (List UInt8)) : AtMost 0 (checkTop stack) := by
  cases stack with
  | nil => exact atMost_fail _
  | cons vch stack => exact atMost_failIf _ _

end CountedRules

/-- The top of the stack has no more checks than the data of the last push. -/
def RedeemOf (data : CScript) (stack : List (List UInt8)) : Prop :=
  ∀ pubKeySerialized ∈ stack.head?, CScript.getSigOpCount pubKeySerialized true ≤ data.getSigOpCount true

theorem getSigOpCount_getvch (n : Int) (hlow : -1 ≤ n) (hhigh : n ≤ 16) :
    CScript.getSigOpCount (getvch n) true = 0 := by
  interval_cases n <;> decide

/-- The checks that are counted for a redeem script, where one is evaluated. -/
def redeemCount (scriptSig scriptPubKey : CScript) : Nat :=
  if scriptPubKey.isPayToScriptHash ∧ scriptSig.isPushOnly then scriptPubKey.getSigOpCountP2SH scriptSig else 0

section Redeem

variable {env : ScriptEnv} {R : ScriptRules}

theorem redeemOf_step (hpush : opcode ≤ CScript.op16) (hst : st.vfExec = [])
    (h : execInstr env R opcode vch rest st s = (.ok st', t)) : st'.vfExec = [] ∧ RedeemOf vch st'.stack := by
  have hall : st.vfExec.all id = true := by rw [hst]; rfl
  obtain ⟨nOpCount, ⟨-, -, hst'⟩ | ⟨hdata, s', t', hrun⟩ | ⟨hskip, -⟩⟩ := execInstr_returns h
  · rw [hst']
    refine ⟨hst, fun top htop => ?_⟩
    rw [← Option.some.inj htop]
  · have hlow : CScript.opPushData4 < opcode := Nat.lt_of_not_le fun hle => hdata ⟨hall, hle⟩
    rw [execOp_smallPush hlow hpush hrun]
    refine ⟨hst, fun top htop => ?_⟩
    rw [CScript.opPushData4] at hlow
    rw [CScript.op16] at hpush
    have hzero := getSigOpCount_getvch ((opcode : Int) - 0x50) (by omega) (by omega)
    rw [← Option.some.inj htop, hzero]
    exact Nat.zero_le _
  · rw [hall] at hskip
    exact absurd hskip.symm Bool.false_ne_true

theorem redeemOf_run (fuel : Nat) {data : CScript} (hpush : CScript.pushOnlyLoop fuel pc = true)
    (hst : st.vfExec = []) (hdata : RedeemOf data st.stack) (h : evalLoop env R fuel pc st s = (.ok st', t)) :
    ∃ subscript, CScript.lastPush fuel pc data = some subscript ∧ RedeemOf subscript st'.stack := by
  induction fuel generalizing pc data st s with
  | zero =>
    rw [evalLoop] at h
    rw [← Except.ok.inj (congrArg Prod.fst h)]
    exact ⟨data, rfl, hdata⟩
  | succ fuel ih =>
    rw [evalLoop] at h
    rw [CScript.pushOnlyLoop] at hpush
    rw [CScript.lastPush]
    by_cases hnil : pc = []
    · rw [if_pos hnil] at h
      rw [if_pos hnil, ← Except.ok.inj (congrArg Prod.fst h)]
      exact ⟨data, rfl, hdata⟩
    rw [if_neg hnil] at h hpush ⊢
    cases hop : CScript.getOp pc with
    | none =>
      rw [hop] at hpush
      exact nomatch hpush
    | some instr =>
      rw [hop] at h hpush
      obtain ⟨opcode, vch, rest⟩ := instr
      by_cases hlarge : opcode > CScript.op16
      · simp only [if_pos hlarge, Bool.false_eq_true] at hpush
      simp only [if_neg hlarge] at hpush ⊢
      obtain ⟨st₁, t₁, hstep, hrest⟩ := bind_returns.mp h
      obtain ⟨hst₁, hdata₁⟩ := redeemOf_step (Nat.le_of_not_lt hlarge) hst hstep
      exact ih hpush hst₁ hdata₁ hrest

end Redeem

namespace CountedRules

variable {R : ScriptRules} (h : CountedRules R) {env : ScriptEnv}

include h

theorem checkRedeem {scriptSig scriptPubKey : CScript} (hp2sh : scriptPubKey.isPayToScriptHash = true)
    (hpush : scriptSig.isPushOnly = true) {stackCopy : List (List UInt8)}
    (hrun : PupaCoin.evalScript env R [] scriptSig s = (.ok stackCopy, t)) :
    AtMost (scriptPubKey.getSigOpCountP2SH scriptSig) (checkRedeem env R stackCopy) := by
  rw [PupaCoin.evalScript] at hrun
  obtain ⟨_, _, -, hrun⟩ := bind_returns.mp hrun
  obtain ⟨st, _, hloop, hrun⟩ := bind_returns.mp hrun
  obtain ⟨_, _, -, hrun⟩ := bind_returns.mp hrun
  have hstack : st.stack = stackCopy := Except.ok.inj (congrArg Prod.fst hrun)
  have hstart : RedeemOf [] ([] : List (List UInt8)) := fun _ hmem => nomatch hmem
  obtain ⟨subscript, hlast, hredeem⟩ := redeemOf_run scriptSig.length hpush rfl hstart hloop
  rw [CScript.getSigOpCountP2SH, if_neg (not_not.mpr hp2sh), hlast]
  cases stackCopy with
  | nil => exact atMost_fail _
  | cons pubKeySerialized stackCopy =>
    have hle := hredeem pubKeySerialized (by rw [hstack]; rfl)
    exact ((h.evalScript _ _).bind (l := 0) fun stack => checkTop stack).mono hle

theorem verifyScript (scriptSig scriptPubKey : CScript) :
    AtMost (scriptSig.getSigOpCount true + (scriptPubKey.getSigOpCount true + redeemCount scriptSig scriptPubKey))
      (verifyScript env R scriptSig scriptPubKey) := by
  rw [PupaCoin.verifyScript]
  refine (h.checkScripts scriptSig scriptPubKey).bind_zero fun _ => ?_
  refine (h.evalScript [] scriptSig).bind_of fun s stackCopy t hrun => ?_
  refine (h.evalScript stackCopy scriptPubKey).bind fun stack => (checkTop stack).bind_zero fun _ => ?_
  refine AtMost.ite (fun hp2sh => ?_) fun _ => AtMost.pure ()
  refine h.fP2SH.bind_zero fun fP2SH => AtMost.ite (fun _ => ?_) fun _ => AtMost.pure ()
  rw [← Nat.zero_add (redeemCount scriptSig scriptPubKey)]
  refine (atMost_failIf _ _).bind_of fun s' _ t' hpush => ?_
  have hpush' : scriptSig.isPushOnly = true := by
    rw [← Bool.not_eq_false']
    exact (failIf_returns hpush).1
  rw [redeemCount, if_pos ⟨hp2sh, hpush'⟩]
  exact h.checkRedeem hp2sh hpush' hrun

end CountedRules

section Rules

variable (env : ScriptEnv) (flags : UInt32)

theorem toNumber_small (fRequireMinimal : Bool) (n : Nat) (hlow : 1 ≤ n) (hhigh : n ≤ 16) (s : Nat) :
    toNumber fRequireMinimal (getvch n) s = (.ok n, s) := by
  interval_cases n <;> cases fRequireMinimal <;> rfl

theorem toNumber_atMost (fRequireMinimal : Bool) (vch : List UInt8) : AtMost 0 (toNumber fRequireMinimal vch) :=
  (atMost_failIf _ _).bind_zero fun _ => (atMost_failIf _ _).bind_zero fun _ => AtMost.pure _

theorem countedCheckSig_atMost (vchSig vchPubKey : List UInt8) (scriptCode : CScript) :
    AtMost 1 (countedCheckSig env vchSig vchPubKey scriptCode) := fun _ => le_rfl

theorem countedRules_tx : CountedRules (txRules env flags) where
  checkPush _ _ := AtMost.pure ()
  number := toNumber_atMost false
  number_small := toNumber_small false
  hash256 _ := AtMost.pure _
  checkSig vchSig vchPubKey scriptCode := by
    refine (atMost_failIf _ _).bind_zero fun _ => AtMost.ite (fun _ => ?_) fun _ => AtMost.pure false
    exact countedCheckSig_atMost env vchSig vchPubKey scriptCode
  checkScripts _ _ := AtMost.pure ()
  fP2SH := AtMost.pure true

theorem countedRules_checker : CountedRules (checkerRules env flags) where
  checkPush _ _ := atMost_failIf _ _
  number := toNumber_atMost _
  number_small := toNumber_small _
  hash256 _ := AtMost.pure _
  checkSig vchSig vchPubKey scriptCode := by
    simp only [checkerRules]
    cases checkEncodingsFlags env flags vchSig vchPubKey with
    | error err => exact atMost_fail err
    | ok u => exact countedCheckSig_atMost env vchSig vchPubKey scriptCode
  checkScripts _ _ := atMost_failIf _ _
  fP2SH := AtMost.pure _

end Rules

theorem CountedRules.sigChecksBounded (h : CountedRules R) (env : ScriptEnv) (scriptSig scriptPubKey : CScript)
    : SigChecksBounded env R scriptSig scriptPubKey := by
  have hrun : sigChecks env R scriptSig scriptPubKey ≤ 0 + (scriptSig.getSigOpCount true
      + (scriptPubKey.getSigOpCount true + redeemCount scriptSig scriptPubKey)) :=
    h.verifyScript scriptSig scriptPubKey 0
  constructor
  · intro hplain
    rw [redeemCount, if_neg hplain] at hrun
    have hsig := scriptSig.getSigOpCount_le
    have hpub := scriptPubKey.getSigOpCount_le
    omega
  · intro hp2sh hpush
    rw [redeemCount, if_pos ⟨hp2sh, hpush⟩, CScript.getSigOpCount_pushOnly true hpush,
      CScript.getSigOpCount_p2sh true hp2sh] at hrun
    omega

/-- The static counts bound the signature checks of both copies of the interpreter, and the accurate count is
the smaller one. -/
theorem sigChecks_bounded (env : ScriptEnv) (flags : UInt32) (scriptSig scriptPubKey : CScript) :
    SigChecksBounded env (txRules env flags) scriptSig scriptPubKey ∧
      SigChecksBounded env (checkerRules env flags) scriptSig scriptPubKey ∧
      ∀ script : CScript, script.getSigOpCount true ≤ script.getSigOpCount false :=
  ⟨(countedRules_tx env flags).sigChecksBounded env scriptSig scriptPubKey,
    (countedRules_checker env flags).sigChecksBounded env scriptSig scriptPubKey, CScript.getSigOpCount_le⟩

namespace Sample

def redeemScript : CScript := CScript.pushData vchPubKey ++ [0xac]

def redeemHash : List UInt8 :=
  [0x23, 0xb0, 0xad, 0x34, 0x77, 0xf2, 0x17, 0x8b, 0xc0, 0xb3, 0xee, 0xd2, 0x6e, 0x4e, 0x63, 0x16,
    0xf4, 0xe8, 0x3a, 0xa1]

/-- The check of a redeem script is counted in neither of the two scripts. -/
theorem redeem_not_counted :
    ¬(sigChecks (scriptEnv redeemHash) (txRules (scriptEnv redeemHash) standardScriptVerifyFlags)
        (CScript.pushData vchSig ++ CScript.pushData redeemScript) (0xa9 :: 0x14 :: (redeemHash ++ [0x87]))
      ≤ (CScript.pushData vchSig ++ CScript.pushData redeemScript).getSigOpCount false
        + CScript.getSigOpCount (0xa9 :: 0x14 :: (redeemHash ++ [0x87])) false) := by
  decide

end Sample

end PupaCoin
