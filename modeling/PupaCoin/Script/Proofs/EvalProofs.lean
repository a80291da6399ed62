import PupaCoin.Script.Proofs.SolverProofs
import Mathlib.Data.List.Dedup
import Mathlib.Data.List.Sort

/-!
# Evaluation of the standard scripts

An instruction of a script is executed and the rest of it follows. A script of pushes leaves what it pushes, whatever
the transaction and the flags are; an output script with keys is true on signatures for some of them in their order.
-/

namespace PupaCoin

open Exec ScriptM CScript

variable {stack below items : List (List UInt8)} {b : List UInt8} {scriptSig scriptPubKey tail hash redeem : CScript}

section Eval

variable {env : ScriptEnv} {R : ScriptRules} {flags : UInt32} {pc rest vch : CScript} {opcode : Nat}
  {st st' : ScriptState} {s t : Nat}

theorem failIf_of_false {c : Bool} (h : c = false) (err : ScriptError) : failIf c err s = (.ok (), s) := by
  rw [h]
  rfl

/-- More fuel than the script is long makes no difference. By induction on the fuel. -/
theorem evalLoop_fuel {fuel fuel' : Nat} (h : pc.length ≤ fuel) (h' : pc.length ≤ fuel') :
    evalLoop env R fuel pc st = evalLoop env R fuel' pc st := by
  induction fuel generalizing fuel' pc st with
  | zero =>
    have hnil : pc = [] := List.eq_nil_of_length_eq_zero (Nat.le_zero.mp h)
    cases fuel' with
    | zero => rfl
    | succ fuel' =>
      rw [evalLoop, evalLoop, if_pos hnil]
  | succ fuel ih =>
    cases fuel' with
    | zero =>
      have hnil : pc = [] := List.eq_nil_of_length_eq_zero (Nat.le_zero.mp h')
      rw [evalLoop, evalLoop, if_pos hnil]
    | succ fuel' =>
      rw [evalLoop, evalLoop]
      by_cases hnil : pc = []
      · rw [if_pos hnil, if_pos hnil]
      · rw [if_neg hnil, if_neg hnil]
        cases hop : getOp pc with
        | none => rfl
        | some instr =>
          obtain ⟨opcode, vch, rest⟩ := instr
          have hlt := length_of_getOp hop
          have hsame : ∀ st, evalLoop env R fuel rest st = evalLoop env R fuel' rest st := fun st =>
            ih (by omega) (by omega)
          simp only [hsame]

variable (env R pc st) in
/-- The loop of `EvalScript` on a script. -/
def runScript : ScriptM ScriptState := evalLoop env R pc.length pc st

theorem runScript_nil : runScript env R [] st = pure st := rfl

theorem runScript_step (hop : getOp pc = some (opcode, vch, rest)) (hexec : execInstr env R opcode vch rest st s = (.ok st', t)) :
    runScript env R pc st s = runScript env R rest st' t := by
  have hlt := length_of_getOp hop
  obtain ⟨fuel, hfuel⟩ : ∃ fuel, pc.length = fuel + 1 := ⟨pc.length - 1, by omega⟩
  have hne : pc ≠ [] := by
    rintro rfl
    exact nomatch hop
  rw [runScript, hfuel, evalLoop, if_neg hne, hop]
  dsimp only
  rw [bind_of_ok hexec, runScript, evalLoop_fuel (le_refl rest.length) (by omega : rest.length ≤ fuel)]

/-- The variables of `EvalScript` at its start. -/
def startState (stack : List (List UInt8)) (script : CScript) : ScriptState :=
  { stack, altstack := [], vfExec := [], nOpCount := 0, scriptCode := script }

theorem evalScript_of_run (hsize : pc.length ≤ 10000)
    (hrun : runScript env R pc (startState stack pc) s = (.ok st', t)) (hbalanced : st'.vfExec = []) : evalScript env R stack pc s = (.ok st'.stack, t) := by
  rw [evalScript, bind_of_ok (failIf_of_false (by simpa using hsize) _)]
  refine (bind_of_ok hrun _).trans ?_
  rw [bind_of_ok (failIf_of_false (by rw [hbalanced]; rfl) _)]
  rfl

theorem execInstr_push (hpush : opcode ≤ opPushData4) (hsize : vch.length ≤ 520) (hexec : st.vfExec = [])
    (hroom : st.stack.length + st.altstack.length < 1000) :
    execInstr env (txRules env flags) opcode vch rest st s = (.ok { st with stack := vch :: st.stack }, s) := by
  have hlow : opcode ≤ 0x4e := hpush
  have hop16 : ¬opcode > op16 := by
    rw [op16]
    omega
  have hdisabled : isDisabled opcode = false := by
    rw [isDisabled, decide_eq_false_iff_not]
    omega
  rw [execInstr, bind_of_ok (failIf_of_false (by simpa using hsize) _), if_neg hop16,
    bind_of_ok (failIf_of_false (by simp [hop16]) _), bind_of_ok (failIf_of_false hdisabled _), hexec]
  simp only [List.all_nil]
  rw [if_pos ⟨trivial, hpush⟩]
  refine (bind_of_ok (a := ()) (t := s) rfl _).trans ?_
  refine (bind_of_ok (a := { st with stack := vch :: st.stack, vfExec := [] }) (t := s) rfl _).trans ?_
  rw [bind_of_ok (failIf_of_false (by simp; omega) _)]
  rfl

theorem execInstr_op (hop : op16 < opcode) (hdisabled : isDisabled opcode = false) (hexec : st.vfExec = [])
    (hcount : st.nOpCount + 1 ≤ 201)
    (hrun : execOp env R (decodeOp opcode) true rest { st with nOpCount := st.nOpCount + 1 } s = (.ok st', t))
    (hroom : st'.stack.length + st'.altstack.length ≤ 1000) :
    execInstr env R opcode [] rest st s = (.ok st', t) := by
  have hpush : ¬opcode ≤ opPushData4 := by
    rw [op16] at hop
    rw [opPushData4]
    omega
  rw [execInstr, bind_of_ok (failIf_of_false (by simp) _), if_pos hop,
    bind_of_ok (failIf_of_false (by simp; omega) _), bind_of_ok (failIf_of_false hdisabled _), hexec]
  simp only [List.all_nil]
  rw [if_neg fun h => hpush h.2, if_pos (.inl trivial)]
  rw [← hexec]
  refine (bind_of_ok hrun _).trans ?_
  rw [bind_of_ok (failIf_of_false (by simpa using hroom) _)]
  rfl

theorem execInstr_smallPush (hsmall : opcode = 0x4f ∨ (op1 ≤ opcode ∧ opcode ≤ op16)) (hexec : st.vfExec = [])
    (hroom : st.stack.length + st.altstack.length < 1000) : execInstr env R opcode [] rest st s
      = (.ok { st with stack := getvch ((opcode : Int) - 0x50) :: st.stack }, s) := by
  have hrange : 0x4f ≤ opcode ∧ opcode ≤ 0x60 := by
    rw [op1, op16] at hsmall
    omega
  have hop16 : ¬opcode > op16 := by
    rw [op16]
    omega
  have hpush : ¬opcode ≤ opPushData4 := by
    rw [opPushData4]
    omega
  have hdisabled : isDisabled opcode = false := by
    rw [isDisabled, decide_eq_false_iff_not]
    omega
  have hdecode : decodeOp opcode = .number ((opcode : Int) - 0x50) := by
    unfold decodeOp
    rw [if_pos hsmall]
    rfl
  rw [execInstr, bind_of_ok (failIf_of_false (by simp) _), if_neg hop16,
    bind_of_ok (failIf_of_false (by simp [hop16]) _), bind_of_ok (failIf_of_false hdisabled _), hexec]
  simp only [List.all_nil]
  rw [if_neg fun h => hpush h.2, if_pos (.inl trivial), hdecode]
  refine (bind_of_ok (a := { st with stack := getvch ((opcode : Int) - 0x50) :: st.stack, vfExec := [] }) (t := s) rfl
    _).trans ?_
  rw [bind_of_ok (failIf_of_false (by simp; omega) _)]
  rfl

theorem execInstr_number {n : Nat} (hlow : 1 ≤ n) (hhigh : n ≤ 16) (hexec : st.vfExec = [])
    (hroom : st.stack.length + st.altstack.length < 1000) :
    execInstr env R (smallIntegerByte n).toNat [] rest st s = (.ok { st with stack := getvch n :: st.stack }, s) := by
  obtain ⟨hvalue, -⟩ := smallInteger_spec ⟨n, by omega⟩
  rw [if_neg (show ¬n = 0 by omega)] at hvalue
  dsimp only at hvalue
  have hnumber : ((smallIntegerByte n).toNat : Int) - 0x50 = n := by
    rw [hvalue, op1]
    omega
  have hsmall : (smallIntegerByte n).toNat = 0x4f ∨ (op1 ≤ (smallIntegerByte n).toNat ∧ (smallIntegerByte n).toNat ≤ op16) := by
    rw [hvalue, op1, op16]
    omega
  rw [execInstr_smallPush hsmall hexec hroom, hnumber]

theorem runScript_push {data push : CScript} (h : IsPushOf data push) (hsize : data.length ≤ 520)
    (hlength : (push ++ tail).length < 2 ^ 32) (hexec : st.vfExec = [])
    (hroom : st.stack.length + st.altstack.length < 1000) : runScript env (txRules env flags) (push ++ tail) st s
      = runScript env (txRules env flags) tail { st with stack := data :: st.stack } s := by
  have hle := length_of_isPush h
  rw [List.length_append] at hlength
  have hleft : (data ++ tail).length < 2 ^ 32 := by
    rw [List.length_append]
    omega
  obtain ⟨c, -, hc, hop⟩ := getOp_of_isPush h hleft
  exact runScript_step hop (execInstr_push hc hsize hexec hroom)

/-- A run of pushes. By induction on these. -/
theorem runScript_pushes {pushes : List (List UInt8)} (h : List.Forall₂ IsPushOf items pushes)
    (hsize : ∀ item ∈ items, item.length ≤ 520) (hlength : (pushes.flatten ++ tail).length < 2 ^ 32)
    (hexec : st.vfExec = []) (hroom : st.stack.length + st.altstack.length + items.length ≤ 1000) :
    runScript env (txRules env flags) (pushes.flatten ++ tail) st s
      = runScript env (txRules env flags) tail { st with stack := items.reverse ++ st.stack } s := by
  induction h generalizing st with
  | nil => rfl
  | @cons data push items pushes hpush hpushes ih =>
    obtain ⟨hfirst, hrest⟩ := List.forall_mem_cons.mp hsize
    rw [List.length_cons] at hroom
    rw [List.flatten_cons, List.append_assoc] at hlength ⊢
    rw [runScript_push hpush hfirst hlength hexec (by omega), ih hrest ?_ ?_ ?_, List.reverse_cons, List.append_assoc]
    · rfl
    · rw [List.length_append] at hlength
      omega
    · exact hexec
    · show (data :: st.stack).length + st.altstack.length + items.length ≤ 1000
      rw [List.length_cons]
      omega

theorem isPushOf_pushData (h : b.length ≤ 520) : IsPushOf b (pushData b) := by
  unfold pushData
  dsimp only
  split_ifs with h0 h1 h2
  · exact ⟨_, mem_pushHeaders.mpr (.inl ⟨h0, rfl⟩), rfl⟩
  · refine ⟨_, mem_pushHeaders.mpr (.inr (.inl ⟨by omega, rfl⟩)), ?_⟩
    rw [LittleEndian.ofNat, LittleEndian.ofNat]
    rfl
  · refine ⟨_, mem_pushHeaders.mpr (.inr (.inr (.inl ⟨by omega, rfl⟩))), ?_⟩
    have hbyte : UInt8.ofNat (b.length % 256) = UInt8.ofNat b.length := UInt8.toNat_inj.mp (by simp)
    rw [LittleEndian.ofNat, LittleEndian.ofNat, LittleEndian.ofNat, hbyte]
    rfl
  · omega

theorem pushAll_cons {item : List UInt8} :
    pushAll (item :: stack) = pushAll stack ++ pushData item := by
  rw [pushAll, pushAll, List.reverse_cons, List.flatMap_append, List.flatMap_singleton]

theorem forall₂_isPushOf (h : ∀ item ∈ items, item.length ≤ 520) :
    List.Forall₂ IsPushOf items (items.map pushData) := by
  rw [List.forall₂_map_right_iff, List.forall₂_same]
  exact fun item hmem => isPushOf_pushData (h item hmem)

theorem length_pushAll_le (h : ∀ item ∈ stack, item.length ≤ 520) :
    (pushAll stack).length ≤ 525 * stack.length := by
  induction stack with
  | nil => exact Nat.le_refl 0
  | cons item stack ih =>
    obtain ⟨hitem, hrest⟩ := List.forall_mem_cons.mp h
    have hpush : (pushData item).length ≤ item.length + 5 := by
      unfold pushData
      dsimp only
      split_ifs <;> simp only [List.length_cons] <;> omega
    have htotal := ih hrest
    rw [pushAll_cons, List.length_append, List.length_cons]
    omega

theorem evalScript_pushAll (hsize : ∀ item ∈ stack, item.length ≤ 520)
    (hcount : stack.length ≤ 1000) (hlength : (pushAll stack).length ≤ 10000) :
    evalScript env (txRules env flags) [] (pushAll stack) s = (.ok stack, s) := by
  have hflat : pushAll stack = (stack.reverse.map pushData).flatten ++ [] := by
    rw [pushAll, List.flatMap_def, List.append_nil]
  have hpushes : List.Forall₂ IsPushOf stack.reverse (stack.reverse.map pushData) :=
    forall₂_isPushOf fun item hmem => hsize item (List.mem_reverse.mp hmem)
  have hrun : runScript env (txRules env flags) ((stack.reverse.map pushData).flatten ++ []) (startState [] (pushAll stack)) s
      = runScript env (txRules env flags) [] (startState (stack.reverse.reverse ++ []) (pushAll stack)) s :=
    runScript_pushes hpushes (fun item hmem => hsize item (List.mem_reverse.mp hmem)) (by rw [← hflat]; omega) rfl
      (by rw [List.length_reverse]; show 0 + 0 + stack.length ≤ 1000; omega)
  rw [← hflat, List.reverse_reverse, List.append_nil, runScript_nil] at hrun
  exact evalScript_of_run hlength hrun rfl

theorem evalScript_return {stack' : List (List UInt8)} :
    evalScript env R stack (0x6a :: rest) s ≠ (.ok stack', t) := by
  intro h
  rw [evalScript] at h
  obtain ⟨_, _, -, h⟩ := bind_returns.mp h
  obtain ⟨st', _, hloop, -⟩ := bind_returns.mp h
  have hop : getOp (0x6a :: rest) = some (0x6a, [], rest) := getOp_plain (by decide)
  rw [List.length_cons, evalLoop, if_neg (List.cons_ne_nil _ _), hop] at hloop
  obtain ⟨_, _, hinstr, -⟩ := bind_returns.mp hloop
  rw [execInstr] at hinstr
  obtain ⟨_, _, -, hinstr⟩ := bind_returns.mp hinstr
  obtain ⟨_, _, -, hinstr⟩ := bind_returns.mp hinstr
  obtain ⟨_, _, -, hinstr⟩ := bind_returns.mp hinstr
  obtain ⟨_, _, hexec, -⟩ := bind_returns.mp hinstr
  cases congrArg Prod.fst hexec

/-- No instruction of a script pushes these bytes. -/
inductive Avoids (b : List UInt8) : CScript → Prop where
  | nil : Avoids b []
  | cons {opcode : Nat} {data pc rest : CScript} :
      getOp pc = some (opcode, data, rest) → data ≠ b → rest.IsSuffix pc → Avoids b rest → Avoids b pc

/-- `FindAndDelete` does nothing where the push that it looks for is not an instruction. By induction on these. -/
theorem findAndDelete_of_avoids {script : List UInt8} (h : Avoids b script) (hlength : (b ++ script).length < 2 ^ 32) :
    findAndDelete script (pushData b) = script := by
  have hne : pushData b ≠ [] := fun hnil => by
    have := Element.length_lt_pushData b
    rw [hnil] at this
    exact absurd this (Nat.not_lt_zero _)
  have hloop : ∀ fuel, script.length < fuel → deleteLoop (pushData b) fuel script = script := by
    induction h with
    | nil =>
      intro fuel hfuel
      cases fuel with
      | zero => rfl
      | succ fuel => rfl
    | @cons opcode data pc rest hop hdata hsuffix _ ih =>
      intro fuel hfuel
      obtain ⟨fuel, rfl⟩ : ∃ k, fuel = k + 1 := ⟨fuel - 1, by omega⟩
      obtain ⟨n, hn⟩ : ∃ n, pc.length = n + 1 := ⟨pc.length - 1, by
        have := length_of_getOp hop
        omega⟩
      have hpushed : (pushData b).isPrefixOf pc = false := by
        by_contra hpre
        rw [Bool.not_eq_false, List.isPrefixOf_iff_prefix] at hpre
        obtain ⟨t, rfl⟩ := hpre
        have hleft : (b ++ t).length < 2 ^ 32 := by
          rw [List.length_append, List.length_append] at hlength
          rw [List.length_append]
          omega
        have hread := Element.getOp_pushData hleft
        rw [hop, Option.some.injEq, Prod.mk.injEq, Prod.mk.injEq] at hread
        exact hdata hread.2.1
      have hhere : deleteHere (pushData b) pc.length pc = pc := by
        rw [hn, deleteHere, if_neg (by rw [hpushed]; exact Bool.false_ne_true)]
      have hlt := length_of_getOp hop
      obtain ⟨instr, rfl⟩ := hsuffix
      rw [deleteLoop, hhere, hop]
      dsimp only
      rw [ih (by rw [List.length_append] at hlength ⊢; rw [List.length_append] at hlength; omega) fuel (by omega),
        List.length_append, Nat.add_sub_cancel, List.take_left]
  rw [findAndDelete, if_neg hne]
  exact hloop _ (Nat.lt_succ_self _)

theorem avoids_pushes {b : CScript} {keys pushes : List (List UInt8)} (h : List.Forall₂ IsPushOf keys pushes)
    (hkeys : b ∉ keys) (hlength : (pushes.flatten ++ tail).length < 2 ^ 32) (htail : Avoids b tail) :
    Avoids b (pushes.flatten ++ tail) := by
  induction h with
  | nil => exact htail
  | @cons key push keys pushes hpush hpushes ih =>
    rw [List.mem_cons, not_or] at hkeys
    rw [List.flatten_cons, List.append_assoc] at hlength ⊢
    rw [List.length_append] at hlength
    have hle := length_of_isPush hpush
    have hleft : (key ++ (pushes.flatten ++ tail)).length < 2 ^ 32 := by
      rw [List.length_append]
      omega
    obtain ⟨c, -, -, hop⟩ := getOp_of_isPush hpush hleft
    exact .cons hop (Ne.symm hkeys.1) (List.suffix_append _ _) (ih hkeys.2 (by omega))

theorem avoids_multisig {m n : Nat} {keys pushes : List (List UInt8)} (hb : b ≠ [])
    (hm : m ≤ 16) (hn : n ≤ 16) (h : List.Forall₂ IsPushOf keys pushes) (hkeys : b ∉ keys)
    (hlength : pushes.flatten.length ≤ 9000) :
    Avoids b (smallIntegerByte m :: (pushes.flatten ++ [smallIntegerByte n, 0xae])) := by
  refine .cons (getOp_smallInteger hm) (Ne.symm hb) (List.suffix_cons _ _) (avoids_pushes h hkeys ?_ ?_)
  · rw [List.length_append]
    simp only [List.length_cons, List.length_nil]
    omega
  · refine .cons (getOp_smallInteger hn) (Ne.symm hb) (List.suffix_cons _ _) ?_
    exact .cons (getOp_plain (by decide)) (Ne.symm hb) (List.suffix_cons _ _) .nil

end Eval

section InOrder

variable {α β : Type} {valid : α → β → Prop} {sig : α} {sigs : List α} {key : β} {keys : List β}

theorem InOrder.nil (valid : α → β → Prop) (keys : List β) : InOrder valid [] keys := ⟨[], List.nil_sublist _, .nil⟩

theorem InOrder.skip (h : InOrder valid sigs keys) : InOrder valid sigs (key :: keys) := by
  obtain ⟨used, hsub, hvalid⟩ := h
  exact ⟨used, hsub.cons key, hvalid⟩

theorem InOrder.take (h : InOrder valid sigs keys) (hkey : valid sig key) : InOrder valid (sig :: sigs) (key :: keys) := by
  obtain ⟨used, hsub, hvalid⟩ := h
  exact ⟨key :: used, hsub.cons_cons key, .cons hkey hvalid⟩

theorem InOrder.reverse (h : InOrder valid sigs keys) : InOrder valid sigs.reverse keys.reverse := by
  obtain ⟨used, hsub, hvalid⟩ := h
  exact ⟨used.reverse, hsub.reverse, List.forall₂_reverse_iff.mpr hvalid⟩

theorem InOrder.length_le (h : InOrder valid sigs keys) : sigs.length ≤ keys.length := by
  obtain ⟨used, hsub, hvalid⟩ := h
  exact hvalid.length_eq.le.trans hsub.length_le

theorem InOrder.mono {valid' : α → β → Prop} (h : InOrder valid sigs keys) (hvalid : ∀ sig key, valid sig key → valid' sig key) :
    InOrder valid' sigs keys := by
  obtain ⟨used, hsub, hall⟩ := h
  exact ⟨used, hsub, hall.imp hvalid⟩

/-- Each signature is valid for one of the keys. By induction on the signatures. -/
theorem InOrder.exists_key (h : InOrder valid sigs keys) (hsig : sig ∈ sigs) : ∃ key ∈ keys, valid sig key := by
  obtain ⟨used, hsub, hall⟩ := h
  have hused : ∃ key ∈ used, valid sig key := by
    clear hsub
    induction hall with
    | nil => exact absurd hsig List.not_mem_nil
    | @cons sig' key sigs used hkey _ ih =>
      rcases List.mem_cons.mp hsig with rfl | hsig
      · exact ⟨key, List.mem_cons_self, hkey⟩
      · obtain ⟨key', hmem, hvalid⟩ := ih hsig
        exact ⟨key', List.mem_cons_of_mem _ hmem, hvalid⟩
  obtain ⟨key, hmem, hvalid⟩ := hused
  exact ⟨key, hsub.subset hmem, hvalid⟩

theorem InOrder.cons_cases (h : InOrder valid (sig :: sigs) (key :: keys)) :
    InOrder valid sigs keys ∧ (valid sig key ∨ InOrder valid (sig :: sigs) keys) := by
  obtain ⟨used, hsub, hvalid⟩ := h
  cases hvalid with
  | @cons _ key' _ used hkey hrest =>
    cases hsub with
    | cons _ hsub => exact ⟨⟨used, (List.sublist_cons_self key' used).trans hsub, hrest⟩, .inr ⟨_, hsub, .cons hkey hrest⟩⟩
    | cons_cons _ hsub => exact ⟨⟨used, hsub, hrest⟩, .inl hkey⟩

end InOrder

section MultiSig

variable {env : ScriptEnv} {flags : UInt32} {scriptCode : CScript} {keys sigs : List (List UInt8)} {s : Nat}

theorem txRules_checkSig {sig key : List UInt8} (h : checkEncodings env sig key = true) :
    (txRules env flags).checkSig sig key scriptCode s = (.ok (env.checkSig sig key scriptCode), s + 1) := by
  show (do
    failIf (hasFlag flags scriptVerifyStrictEnc && !checkEncodings env sig key) .unknownError
    if checkEncodings env sig key then countedCheckSig env sig key scriptCode else return false : ScriptM Bool) s = _
  rw [bind_of_ok (failIf_of_false (by rw [h]; simp) _), if_pos h]
  rfl

/-- The loop over the keys finds signatures that are in their order. By induction on the keys. -/
theorem multiSigLoop_true (henc : ∀ sig ∈ sigs, ∀ key ∈ keys, checkEncodings env sig key = true)
    (h : InOrder (fun sig key => env.checkSig sig key scriptCode = true) sigs keys) :
    ∃ t, multiSigLoop (txRules env flags) scriptCode keys sigs s = (.ok true, t) := by
  induction keys generalizing sigs s with
  | nil =>
    have hnil : sigs = [] := List.eq_nil_of_length_eq_zero (Nat.le_zero.mp h.length_le)
    rw [hnil]
    exact ⟨s, by rw [multiSigLoop]; rfl⟩
  | cons key keys ih =>
    match sigs with
    | [] => exact ⟨s, by rw [multiSigLoop]; rfl⟩
    | sig :: sigs =>
      obtain ⟨hrest, hcases⟩ := h.cons_cases
      have hcheck : (txRules env flags).checkSig sig key scriptCode s = (.ok (env.checkSig sig key scriptCode), s + 1) :=
        txRules_checkSig (henc sig List.mem_cons_self key List.mem_cons_self)
      rw [multiSigLoop, bind_of_ok hcheck]
      cases hvalid : env.checkSig sig key scriptCode with
      | true =>
        have hlength : ¬sigs.length > keys.length := hrest.length_le.not_gt
        simp only [if_true, if_neg hlength]
        exact ih (fun sig' hsig' key' hkey' => henc sig' (List.mem_cons_of_mem _ hsig') key' (List.mem_cons_of_mem _ hkey'))
          hrest
      | false =>
        have hbehind : InOrder (fun sig key => env.checkSig sig key scriptCode = true) (sig :: sigs) keys :=
          hcases.resolve_left (by rw [hvalid]; exact Bool.false_ne_true)
        have hlength : ¬(sig :: sigs).length > keys.length := hbehind.length_le.not_gt
        simp only [Bool.false_eq_true, if_false, if_neg hlength]
        exact ih (fun sig' hsig' key' hkey' => henc sig' hsig' key' (List.mem_cons_of_mem _ hkey')) hbehind

theorem foldl_findAndDelete {code : CScript} (h : ∀ sig ∈ sigs, findAndDelete code (pushData sig) = code) :
    sigs.foldl (fun code sig => code.findAndDelete (CScript.pushData sig)) code = code := by
  induction sigs with
  | nil => rfl
  | cons sig sigs ih =>
    rw [List.foldl_cons, h sig List.mem_cons_self]
    exact ih fun sig' hmem => h sig' (List.mem_cons_of_mem _ hmem)

theorem execCheckMultiSig_true {m n : Nat} {st : ScriptState} (hm : 1 ≤ m) (hmn : m ≤ n)
    (hn : n ≤ 16) (hkeys : keys.length = n) (hsigs : sigs.length = m)
    (hstack : st.stack = getvch n :: (keys.reverse ++ getvch m :: (sigs.reverse ++ [] :: below)))
    (hcount : st.nOpCount + n ≤ 201)
    (hcode : ∀ sig ∈ sigs, findAndDelete st.scriptCode (pushData sig) = st.scriptCode)
    (henc : ∀ sig ∈ sigs, ∀ key ∈ keys, checkEncodings env sig key = true)
    (h : InOrder (fun sig key => env.checkSig sig key st.scriptCode = true) sigs keys) :
    ∃ t, execCheckMultiSig (txRules env flags) false st s
      = (.ok { st with nOpCount := st.nOpCount + n, stack := vchBool true :: below }, t) := by
  have hkeysLength : keys.reverse.length = n := by rw [List.length_reverse, hkeys]
  have hsigsLength : sigs.reverse.length = m := by rw [List.length_reverse, hsigs]
  have hfold : sigs.reverse.foldl (fun code sig => code.findAndDelete (CScript.pushData sig)) st.scriptCode
      = st.scriptCode := foldl_findAndDelete fun sig hmem => hcode sig (List.mem_reverse.mp hmem)
  obtain ⟨t, hloop⟩ : ∃ t, multiSigLoop (txRules env flags) st.scriptCode keys.reverse sigs.reverse s = (.ok true, t) :=
    multiSigLoop_true
      (fun sig hsig key hkey => henc sig (List.mem_reverse.mp hsig) key (List.mem_reverse.mp hkey)) h.reverse
  have hnumber : ∀ k : Nat, 1 ≤ k → k ≤ 16 → (txRules env flags).number (getvch k) s = (.ok (k : Int), s) :=
    fun k hlow hhigh => toNumber_small false k hlow hhigh s
  refine ⟨t, ?_⟩
  rw [execCheckMultiSig, hstack]
  dsimp only
  rw [bind_of_ok (hnumber n (hm.trans hmn) hn), bind_of_ok (failIf_of_false (by simp; omega) _), Int.toNat_natCast,
    bind_of_ok (failIf_of_false (by simp; omega) _), bind_of_ok (failIf_of_false (by simp; omega) _),
    List.drop_left' hkeysLength, List.take_left' hkeysLength]
  dsimp only
  rw [bind_of_ok (hnumber m hm (hmn.trans hn)), bind_of_ok (failIf_of_false (by simp; omega) _), Int.toNat_natCast,
    bind_of_ok (failIf_of_false (by simp; omega) _), List.drop_left' hsigsLength, List.take_left' hsigsLength, hfold,
    bind_of_ok hloop]
  dsimp only
  rw [bind_of_ok (failIf_of_false (by simp) _)]
  rfl

theorem runScript_multisig {m n : Nat} {pushes : List (List UInt8)} {st : ScriptState} (hm : 1 ≤ m) (hmn : m ≤ n)
    (hn : n ≤ 16) (hkeys : keys.length = n) (hsizes : ∀ key ∈ keys, 33 ≤ key.length ∧ key.length ≤ 120)
    (hpushes : List.Forall₂ IsPushOf keys pushes) (hexec : st.vfExec = [])
    (hroom : st.stack.length + st.altstack.length ≤ 950) :
    runScript env (txRules env flags) (smallIntegerByte m :: (pushes.flatten ++ [smallIntegerByte n, 0xae])) st s
      = runScript env (txRules env flags) [0xae]
        { st with stack := getvch n :: (keys.reverse ++ getvch m :: st.stack) } s := by
  have hflat := length_pushes_le hpushes hsizes
  have hnumber : runScript env (txRules env flags) (smallIntegerByte m :: (pushes.flatten ++ [smallIntegerByte n, 0xae])) st s
      = runScript env (txRules env flags) (pushes.flatten ++ [smallIntegerByte n, 0xae])
        { st with stack := getvch m :: st.stack } s :=
    runScript_step (getOp_smallInteger (hmn.trans hn)) (execInstr_number hm (hmn.trans hn) hexec (by omega))
  have hpushed : runScript env (txRules env flags) (pushes.flatten ++ [smallIntegerByte n, 0xae])
      { st with stack := getvch m :: st.stack } s
      = runScript env (txRules env flags) [smallIntegerByte n, 0xae]
        { st with stack := keys.reverse ++ getvch m :: st.stack } s := by
    refine runScript_pushes hpushes (fun key hkey => (hsizes key hkey).2.trans (by decide)) ?_ hexec ?_
    · rw [List.length_append, List.length_cons, List.length_singleton]
      omega
    · show (getvch m :: st.stack).length + st.altstack.length + keys.length ≤ 1000
      rw [List.length_cons]
      omega
  have hlast : runScript env (txRules env flags) [smallIntegerByte n, 0xae]
      { st with stack := keys.reverse ++ getvch m :: st.stack } s
      = runScript env (txRules env flags) [0xae]
        { st with stack := getvch n :: (keys.reverse ++ getvch m :: st.stack) } s := by
    refine runScript_step (getOp_smallInteger hn) (execInstr_number (hm.trans hmn) hn hexec ?_)
    show (keys.reverse ++ getvch m :: st.stack).length + st.altstack.length < 1000
    rw [List.length_append, List.length_reverse, List.length_cons]
    omega
  exact (hnumber.trans hpushed).trans hlast

theorem evalScript_multisig {m n : Nat} {pushes : List (List UInt8)} (hm : 1 ≤ m) (hmn : m ≤ n) (hn : n ≤ 16)
    (hkeys : keys.length = n) (hsizes : ∀ key ∈ keys, 33 ≤ key.length ∧ key.length ≤ 120)
    (hpushes : List.Forall₂ IsPushOf keys pushes) (hsigs : sigs.length = m) (hbelow : below.length ≤ 900)
    (hscript : scriptCode = smallIntegerByte m :: (pushes.flatten ++ [smallIntegerByte n, 0xae]))
    (hnew : ∀ sig ∈ sigs, sig ≠ [] ∧ sig ∉ keys ∧ sig.length ≤ 520)
    (henc : ∀ sig ∈ sigs, ∀ key ∈ keys, checkEncodings env sig key = true)
    (h : InOrder (fun sig key => env.checkSig sig key scriptCode = true) sigs keys) :
    ∃ t, evalScript env (txRules env flags) (sigs.reverse ++ [] :: below) scriptCode s
      = (.ok (vchBool true :: below), t) := by
  have hflat := length_pushes_le hpushes hsizes
  have hlength : scriptCode.length ≤ 2100 := by
    rw [hscript, List.length_cons, List.length_append]
    simp only [List.length_cons, List.length_nil]
    omega
  have hcode : ∀ sig ∈ sigs, findAndDelete scriptCode (pushData sig) = scriptCode := by
    intro sig hsig
    obtain ⟨hne, hnotKey, hsize⟩ := hnew sig hsig
    refine findAndDelete_of_avoids ?_ (by rw [List.length_append]; omega)
    rw [hscript]
    exact avoids_multisig hne (hmn.trans hn) hn hpushes hnotKey (by omega)
  have hdepth : (sigs.reverse ++ [] :: below).length ≤ 917 := by
    rw [List.length_append, List.length_reverse, List.length_cons]
    omega
  have hstart : runScript env (txRules env flags) scriptCode (startState (sigs.reverse ++ [] :: below) scriptCode) s
      = runScript env (txRules env flags) [0xae] (startState
        (getvch n :: (keys.reverse ++ getvch m :: (sigs.reverse ++ [] :: below))) scriptCode) s := by
    have hrun := @runScript_multisig env flags keys s m n pushes (startState (sigs.reverse ++ [] :: below) scriptCode) hm hmn
      hn hkeys hsizes hpushes rfl (by show (sigs.reverse ++ [] :: below).length + 0 ≤ 950; omega)
    rw [← hscript] at hrun
    exact hrun
  obtain ⟨top, htop⟩ : ∃ top, top = getvch n :: (keys.reverse ++ getvch m :: (sigs.reverse ++ [] :: below)) := ⟨_, rfl⟩
  rw [← htop] at hstart
  obtain ⟨t, hcheck⟩ : ∃ t, execCheckMultiSig (txRules env flags) false { startState top scriptCode with nOpCount := 1 } s
      = (.ok { startState (vchBool true :: below) scriptCode with nOpCount := 1 + n }, t) :=
    execCheckMultiSig_true hm hmn hn hkeys hsigs htop (by show 1 + n ≤ 201; omega) hcode henc h
  have hexec : execInstr env (txRules env flags) 0xae [] [] (startState top scriptCode) s
      = (.ok { startState (vchBool true :: below) scriptCode with nOpCount := 1 + n }, t) := by
    refine execInstr_op (by decide) (by decide) rfl (by show 0 + 1 ≤ 201; omega) hcheck ?_
    show (vchBool true :: below).length + 0 ≤ 1000
    rw [List.length_cons]
    omega
  exact ⟨t, evalScript_of_run (by omega) (hstart.trans (runScript_step rfl hexec)) rfl⟩

end MultiSig

section PushOnly

variable {env : ScriptEnv} {flags : UInt32} {opcode fuel : Nat} {vch rest pc script : CScript} {st st' : ScriptState}
  {s t : Nat} {stack : List (List UInt8)}

/-- What a push leaves. -/
structure Pushed (st st' : ScriptState) : Prop where
  stack : ∃ item, st'.stack = item :: st.stack ∧ item.length ≤ 520
  altstack : st'.altstack = st.altstack
  vfExec : st'.vfExec = []
  room : st'.stack.length + st'.altstack.length ≤ 1000

theorem execInstr_pushOnly (hop : opcode ≤ op16) (hdata : opPushData4 < opcode → vch = []) (hexec : st.vfExec = [])
    (h : execInstr env (txRules env flags) opcode vch rest st s = (.ok st', t)) :
    Pushed st st' ∧ ∀ env' flags' s', execInstr env' (txRules env' flags') opcode vch rest st s' = (.ok st', s') := by
  have h0 := h
  rw [execInstr] at h
  obtain ⟨_, _, hsize, h⟩ := bind_returns.mp h
  obtain ⟨_, _, -, h⟩ := bind_returns.mp h
  obtain ⟨_, _, -, h⟩ := bind_returns.mp h
  rw [if_neg (Nat.not_lt.mpr hop), hexec] at h
  simp only [List.all_nil] at h
  have hvch : vch.length ≤ 520 := by simpa using (failIf_returns hsize).1
  by_cases hpush : opcode ≤ opPushData4
  · rw [if_pos ⟨trivial, hpush⟩] at h
    obtain ⟨_, _, -, h⟩ := bind_returns.mp h
    obtain ⟨u, _, hu, h⟩ := bind_returns.mp h
    obtain ⟨_, _, hroom, h⟩ := bind_returns.mp h
    have hu' := Except.ok.inj (congrArg Prod.fst hu)
    have hst' := Except.ok.inj (congrArg Prod.fst h)
    have hlength := (failIf_returns hroom).1
    subst hu'
    subst hst'
    rw [decide_eq_false_iff_not, Nat.not_lt] at hlength
    refine ⟨⟨⟨vch, rfl, hvch⟩, rfl, rfl, hlength⟩, fun env' flags' s' => ?_⟩
    have hless : st.stack.length + st.altstack.length < 1000 := by
      have : st.stack.length + 1 + st.altstack.length ≤ 1000 := hlength
      omega
    rw [execInstr_push hpush hvch hexec hless, hexec]
  · have hlow : opPushData4 < opcode := Nat.not_le.mp hpush
    rw [if_neg fun hc => hpush hc.2, if_pos (.inl trivial)] at h
    obtain ⟨u, _, hu, h⟩ := bind_returns.mp h
    obtain ⟨_, _, hroom, h⟩ := bind_returns.mp h
    have hst' := Except.ok.inj (congrArg Prod.fst h)
    have hlength := (failIf_returns hroom).1
    subst hst'
    rw [decide_eq_false_iff_not, Nat.not_lt] at hlength
    have hsmall : opcode = 0x4f ∨ (op1 ≤ opcode ∧ opcode ≤ op16) := by
      by_contra hreserved
      have heq : opcode = 0x50 := by
        rw [opPushData4] at hlow
        rw [op1, op16] at hreserved
        rw [op16] at hop
        omega
      rw [heq] at hu
      cases congrArg Prod.fst hu
    have hu' := execOp_smallPush hlow hop hu
    subst hu'
    have hless : st.stack.length + st.altstack.length < 1000 := by
      have : st.stack.length + 1 + st.altstack.length ≤ 1000 := hlength
      omega
    refine ⟨⟨⟨_, rfl, ?_⟩, rfl, rfl, hlength⟩, fun env' flags' s' => ?_⟩
    · have hrange : 0x4f ≤ opcode ∧ opcode ≤ 0x60 := by
        rw [op1, op16] at hsmall
        omega
      obtain ⟨hfrom, hto⟩ := hrange
      clear * - hfrom hto
      interval_cases opcode <;> decide
    · rw [hdata hlow, execInstr_smallPush hsmall hexec hless, hexec]

/-- The elements of a stack and their number are as `EvalScript` allows. -/
def StackOk (stack : List (List UInt8)) : Prop := (∀ item ∈ stack, item.length ≤ 520) ∧ stack.length ≤ 1000

/-- A script of pushes leaves the same for every transaction and under all flags. By induction on the fuel. -/
theorem evalLoop_pushOnly (hpush : pushOnlyLoop fuel pc = true) (hexec : st.vfExec = []) (halt : st.altstack = [])
    (hstack : StackOk st.stack) (h : evalLoop env (txRules env flags) fuel pc st s = (.ok st', t)) :
    st'.vfExec = [] ∧ StackOk st'.stack ∧
      ∀ env' flags' s', evalLoop env' (txRules env' flags') fuel pc st s' = (.ok st', s') := by
  induction fuel generalizing pc st s with
  | zero =>
    have hst' := Except.ok.inj (congrArg Prod.fst h)
    subst hst'
    exact ⟨hexec, hstack, fun _ _ _ => rfl⟩
  | succ fuel ih =>
    rw [evalLoop] at h
    rw [pushOnlyLoop] at hpush
    by_cases hnil : pc = []
    · rw [if_pos hnil] at h
      have hst' := Except.ok.inj (congrArg Prod.fst h)
      subst hst'
      refine ⟨hexec, hstack, fun _ _ _ => ?_⟩
      rw [evalLoop, if_pos hnil]
      rfl
    · rw [if_neg hnil] at h hpush
      cases hop : getOp pc with
      | none =>
        rw [hop] at h
        cases congrArg Prod.fst h
      | some instr =>
        obtain ⟨opcode, vch, rest⟩ := instr
        rw [hop] at h hpush
        dsimp only at h hpush
        split_ifs at hpush with hop16
        obtain ⟨u, s', hinstr, h⟩ := bind_returns.mp h
        have hdata : opPushData4 < opcode → vch = [] := by
          intro hlow
          rcases getOp_cases hop with ⟨_, -, -, hle, -⟩ | ⟨b, -, -, -, hvch⟩
          · exact absurd hlow (Nat.not_lt.mpr hle)
          · exact hvch
        obtain ⟨hpushed, hsame⟩ := execInstr_pushOnly (Nat.not_lt.mp hop16) hdata hexec hinstr
        obtain ⟨item, hitem, hsize⟩ := hpushed.stack
        have hustack : StackOk u.stack := by
          refine ⟨fun item' hmem => ?_, ?_⟩
          · rw [hitem, List.mem_cons] at hmem
            rcases hmem with rfl | hmem
            · exact hsize
            · exact hstack.1 item' hmem
          · exact (Nat.le_add_right _ _).trans hpushed.room
        obtain ⟨hexec', hstack', hall⟩ := ih hpush hpushed.vfExec (hpushed.altstack.trans halt) hustack h
        refine ⟨hexec', hstack', fun env' flags' s'' => ?_⟩
        rw [evalLoop, if_neg hnil, hop]
        exact (bind_of_ok (hsame env' flags' s'') _).trans (hall env' flags' s'')

/-- A script of pushes and the stack that it leaves. -/
structure Leaves (script : CScript) (stack : List (List UInt8)) : Prop where
  pushOnly : script.isPushOnly = true
  stackOk : StackOk stack
  eval : ∀ env flags s, evalScript env (txRules env flags) [] script s = (.ok stack, s)

theorem leaves_of_eval (hpush : script.isPushOnly = true)
    (h : (evalScript env (txRules env flags) [] script s).1 = .ok stack) : Leaves script stack := by
  have hrun := eq_of_fst h
  rw [evalScript] at hrun
  obtain ⟨_, _, hsize, hrun⟩ := bind_returns.mp hrun
  obtain ⟨st', _, hloop, hrun⟩ := bind_returns.mp hrun
  obtain ⟨_, _, -, hrun⟩ := bind_returns.mp hrun
  have hstack : st'.stack = stack := Except.ok.inj (congrArg Prod.fst hrun)
  obtain ⟨hexec, hok, hall⟩ := evalLoop_pushOnly hpush rfl rfl ⟨fun _ hmem => absurd hmem List.not_mem_nil, Nat.zero_le _⟩ hloop
  rw [hstack] at hok
  refine ⟨hpush, hok, fun env' flags' s' => ?_⟩
  rw [← hstack]
  exact evalScript_of_run (by simpa using (failIf_returns hsize).1) (hall env' flags' s') hexec

/-- `PushAll` is a script of pushes. By induction on these. -/
theorem pushOnlyLoop_pushes {pushes : List (List UInt8)} (h : List.Forall₂ IsPushOf items pushes)
    (hlength : pushes.flatten.length < 2 ^ 32) : pushOnlyLoop fuel pushes.flatten = true := by
  induction h generalizing fuel with
  | nil =>
    cases fuel with
    | zero => rfl
    | succ fuel => rfl
  | @cons data push items pushes hpush hpushes ih =>
    cases fuel with
    | zero => rfl
    | succ fuel =>
      have hle := length_of_isPush hpush
      rw [List.flatten_cons] at hlength ⊢
      rw [List.length_append] at hlength
      have hleft : (data ++ pushes.flatten).length < 2 ^ 32 := by
        rw [List.length_append]
        omega
      obtain ⟨c, -, hc, hop⟩ := getOp_of_isPush hpush hleft
      rw [pushOnlyLoop, hop]
      dsimp only
      have hop16 : ¬c.toNat > op16 := by
        rw [opPushData4] at hc
        rw [op16]
        omega
      rw [if_neg hop16, ih (by omega)]
      simp

theorem leaves_pushAll (hstack : StackOk stack) (hlength : (pushAll stack).length ≤ 10000) :
    Leaves (pushAll stack) stack := by
  refine ⟨?_, hstack, fun env flags s => evalScript_pushAll hstack.1 hstack.2 hlength⟩
  have hflat : pushAll stack = (stack.reverse.map pushData).flatten := by rw [pushAll, List.flatMap_def]
  rw [isPushOnly, hflat]
  refine pushOnlyLoop_pushes (forall₂_isPushOf fun item hmem => hstack.1 item (List.mem_reverse.mp hmem)) ?_
  rw [← hflat]
  omega

theorem Leaves.verdict_congr {scriptSig' : CScript} (h : Leaves scriptSig stack)
    (h' : Leaves scriptSig' stack) :
    verdict env (txRules env flags) scriptSig scriptPubKey = verdict env (txRules env flags) scriptSig' scriptPubKey := by
  rw [verdict, verdict, verifyScript, verifyScript, h.pushOnly, h'.pushOnly]
  congr 2
  refine (bind_of_ok (a := ()) (t := 0) rfl _).trans ((bind_of_ok (h.eval env flags 0) _).trans ?_)
  exact ((bind_of_ok (a := ()) (t := 0) rfl _).trans (bind_of_ok (h'.eval env flags 0) _)).symm

theorem Leaves.eval_of_verdict (h : Leaves scriptSig stack)
    (htrue : verdict env (txRules env flags) scriptSig scriptPubKey = true) :
    ∃ stack' t', evalScript env (txRules env flags) stack scriptPubKey 0 = (.ok stack', t') ∧
      (scriptPubKey.isPayToScriptHash = true →
        ∃ t'', checkRedeem env (txRules env flags) stack t' = (.ok (), t'')) := by
  rw [verdict] at htrue
  obtain ⟨u, hu⟩ : ∃ u, (verifyScript env (txRules env flags) scriptSig scriptPubKey 0).1 = .ok u := by
    cases hresult : (verifyScript env (txRules env flags) scriptSig scriptPubKey 0).1 with
    | ok u => exact ⟨u, rfl⟩
    | error err =>
      rw [hresult] at htrue
      exact absurd htrue Bool.false_ne_true
  have hrun := eq_of_fst hu
  rw [verifyScript] at hrun
  obtain ⟨_, t0, hstart, hrun⟩ := bind_returns.mp hrun
  have ht0 : 0 = t0 := congrArg Prod.snd hstart
  subst ht0
  rw [bind_of_ok (h.eval env flags 0)] at hrun
  obtain ⟨stack', t', heval, hrun⟩ := bind_returns.mp hrun
  refine ⟨stack', t', heval, fun hscript => ?_⟩
  obtain ⟨_, t1, htop, hrun⟩ := bind_returns.mp hrun
  have ht1 : t' = t1 := by
    cases stack' with
    | nil => cases congrArg Prod.fst htop
    | cons vch stack' => exact (failIf_returns htop).2
  subst ht1
  rw [if_pos hscript] at hrun
  obtain ⟨c, t2, hflag, hrun⟩ := bind_returns.mp hrun
  have hc : true = c := Except.ok.inj (congrArg Prod.fst hflag)
  have ht2 : t' = t2 := congrArg Prod.snd hflag
  subst hc ht2
  obtain ⟨_, t3, hpush, hrun⟩ := bind_returns.mp hrun
  have ht3 := (failIf_returns hpush).2
  subst ht3
  exact ⟨_, hrun⟩

theorem checkTop_true (below : List (List UInt8)) : checkTop (vchBool true :: below) s = (.ok (), s) := rfl

theorem Leaves.verdict_of_eval (h : Leaves scriptSig stack)
    (hscript : scriptPubKey.isPayToScriptHash = false)
    (heval : evalScript env (txRules env flags) stack scriptPubKey 0 = (.ok (vchBool true :: below), t)) :
    verdict env (txRules env flags) scriptSig scriptPubKey = true := by
  have hverify : verifyScript env (txRules env flags) scriptSig scriptPubKey 0 = (.ok (), t) := by
    rw [verifyScript, hscript]
    refine (bind_of_ok (a := ()) (t := 0) rfl _).trans ?_
    rw [bind_of_ok (h.eval env flags 0), bind_of_ok heval, bind_of_ok (checkTop_true below)]
    rfl
  rw [verdict, hverify]
  rfl

theorem evalScript_scripthash (hlength : hash.length = 20)
    (hredeem : env.hash160 redeem = hash) (hbelow : below.length ≤ 900) :
    evalScript env (txRules env flags) (redeem :: below) (0xa9 :: 0x14 :: (hash ++ [0x87])) s
      = (.ok (vchBool true :: below), s) := by
  obtain ⟨script, hscript⟩ : ∃ script, script = 0xa9 :: 0x14 :: (hash ++ [0x87]) := ⟨_, rfl⟩
  have hpush : IsPushOf hash (0x14 :: hash) :=
    ⟨[0x14], mem_pushHeaders.mpr (.inl ⟨by rw [hlength]; decide, by rw [hlength]; rfl⟩), rfl⟩
  have hhash : runScript env (txRules env flags) script (startState (redeem :: below) script) s
      = runScript env (txRules env flags) (0x14 :: hash ++ [0x87])
        { startState (hash :: below) script with nOpCount := 1 } s := by
    have hrun : execOp env (txRules env flags) (decodeOp 0xa9) true (0x14 :: hash ++ [0x87])
        { startState (redeem :: below) script with nOpCount := 0 + 1 } s
        = (.ok { startState (hash :: below) script with nOpCount := 1 }, s) := by
      rw [← hredeem]
      rfl
    have hop : getOp script = some (0xa9, [], 0x14 :: hash ++ [0x87]) := by
      rw [hscript]
      exact getOp_plain (by decide)
    refine runScript_step hop (execInstr_op (by decide) (by decide) rfl (by show 0 + 1 ≤ 201; omega) hrun ?_)
    show (hash :: below).length + 0 ≤ 1000
    rw [List.length_cons]
    omega
  have hpushed : runScript env (txRules env flags) (0x14 :: hash ++ [0x87])
      { startState (hash :: below) script with nOpCount := 1 } s
      = runScript env (txRules env flags) [0x87] { startState (hash :: hash :: below) script with nOpCount := 1 } s := by
    refine runScript_push hpush (by omega) ?_ rfl ?_
    · rw [List.length_append, List.length_cons, hlength]
      decide
    · show (hash :: below).length + 0 < 1000
      rw [List.length_cons]
      omega
  have hequal : runScript env (txRules env flags) [0x87] { startState (hash :: hash :: below) script with nOpCount := 1 } s
      = (.ok { startState (vchBool true :: below) script with nOpCount := 2 }, s) := by
    have hrun : execOp env (txRules env flags) (decodeOp 0x87) true []
        { startState (hash :: hash :: below) script with nOpCount := 1 + 1 } s
        = (.ok { startState (vchBool true :: below) script with nOpCount := 2 }, s) := by
      have htrue : vchBool (hash == hash) = vchBool true := by rw [beq_self_eq_true]
      rw [← htrue]
      rfl
    have hop : getOp [0x87] = some (0x87, [], []) := rfl
    refine runScript_step hop (execInstr_op (by decide) (by decide) rfl (by show 1 + 1 ≤ 201; omega) hrun ?_)
    show (vchBool true :: below).length + 0 ≤ 1000
    rw [List.length_cons]
    omega
  have hsize : script.length ≤ 10000 := by
    rw [hscript, List.length_cons, List.length_cons, List.length_append, hlength]
    decide
  rw [← hscript]
  exact evalScript_of_run hsize ((hhash.trans hpushed).trans hequal) rfl

theorem isPayToScriptHash_of_length (hlength : hash.length = 20) :
    CScript.isPayToScriptHash (0xa9 :: 0x14 :: (hash ++ [0x87])) = true := by
  rw [CScript.isPayToScriptHash, List.length_cons, List.length_cons, List.length_append, hlength]
  have hlast : (0xa9 :: 0x14 :: (hash ++ [0x87]) : List UInt8)[22]? = some 0x87 := by
    rw [List.getElem?_cons_succ, List.getElem?_cons_succ, List.getElem?_append_right (by omega), hlength]
    rfl
  rw [hlast]
  rfl

theorem Leaves.verdict_scripthash
    (h : Leaves scriptSig (redeem :: stack)) (hlength : hash.length = 20) (hredeem : env.hash160 redeem = hash)
    (hstack : stack.length ≤ 900)
    (heval : evalScript env (txRules env flags) stack redeem 0 = (.ok (vchBool true :: below), t)) :
    verdict env (txRules env flags) scriptSig (0xa9 :: 0x14 :: (hash ++ [0x87])) = true := by
  have hverify : verifyScript env (txRules env flags) scriptSig (0xa9 :: 0x14 :: (hash ++ [0x87])) 0 = (.ok (), t) := by
    rw [verifyScript, isPayToScriptHash_of_length hlength, h.pushOnly]
    refine (bind_of_ok (a := ()) (t := 0) rfl _).trans ?_
    rw [bind_of_ok (h.eval env flags 0), bind_of_ok (evalScript_scripthash hlength hredeem hstack),
      bind_of_ok (checkTop_true _)]
    refine (bind_of_ok (a := true) (t := 0) rfl _).trans ?_
    refine (bind_of_ok (a := ()) (t := 0) rfl _).trans ?_
    rw [checkRedeem]
    exact (bind_of_ok heval _).trans rfl
  rw [verdict, hverify]
  rfl

end PushOnly

end PupaCoin
