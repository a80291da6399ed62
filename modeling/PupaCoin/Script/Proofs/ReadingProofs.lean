import PupaCoin.Script.Reading

/-!
# Reading a script in memory: proofs
-/

namespace PupaCoin

variable {script : CScript}

namespace CScript

open Memory

section GetOp2

variable {pc rest rest' vch : CScript} {opcode nSize : Nat} {b : UInt8}

theorem stepOp_of_some (h : getOp pc = some (opcode, vch, rest)) : stepOp pc = (opcode, rest) := by
  unfold stepOp
  rw [h]

theorem getOp_plain (hpush : opPushData4 < b.toNat) : getOp (b :: rest) = some (b.toNat, [], rest) := by
  rw [getOp, if_neg (Nat.not_le.mpr hpush)]

theorem stepOp_plain (hpush : opPushData4 < b.toNat) : stepOp (b :: rest) = (b.toNat, rest) :=
  stepOp_of_some (getOp_plain hpush)

theorem getOp_push_some (hpush : b.toNat ≤ opPushData4) (hsize : pushSize b.toNat rest = some (nSize, rest'))
    (hroom : ¬rest'.length % 2 ^ 32 < nSize) :
    getOp (b :: rest) = some (b.toNat, rest'.take nSize, rest'.drop nSize) := by
  simp only [getOp, if_pos hpush, hsize, if_neg hroom]

theorem getOp_push_short (hpush : b.toNat ≤ opPushData4) (hsize : pushSize b.toNat rest = some (nSize, rest'))
    (hshort : rest'.length % 2 ^ 32 < nSize) : getOp (b :: rest) = none ∧ stepOp (b :: rest) = (opInvalidOpcode, rest') := by
  have hop : getOp (b :: rest) = none := by
    simp only [getOp, if_pos hpush, hsize, if_pos hshort]
  refine ⟨hop, ?_⟩
  rw [stepOp, hop, hsize]
  rfl

theorem getOp_push_none (hpush : b.toNat ≤ opPushData4) (hsize : pushSize b.toNat rest = none) :
    getOp (b :: rest) = none ∧ stepOp (b :: rest) = (opInvalidOpcode, rest) := by
  have hop : getOp (b :: rest) = none := by rw [getOp, if_pos hpush, hsize]
  refine ⟨hop, ?_⟩
  rw [stepOp, hop, hsize]
  rfl

theorem readPushSize_of_some (pre : CScript) (h : pushSize opcode rest = some (nSize, rest')) :
    ∃ mid, rest = mid ++ rest' ∧
      readPushSize (pre ++ rest) opcode pre.length = .ok (some (nSize, (pre ++ mid).length)) := by
  unfold pushSize at h
  unfold readPushSize
  split_ifs at h with h0 h1 h2
  · obtain ⟨rfl, rfl⟩ := Prod.mk.inj (Option.some.inj h)
    refine ⟨[], rfl, ?_⟩
    rw [if_pos h0, List.append_nil]
    rfl
  · split at h <;> cases h
    rename_i a
    refine ⟨[a], rfl, ?_⟩
    rw [if_neg h0, if_pos h1, if_neg (by simp), read_of_drop List.drop_left]
    simp
  · split at h <;> cases h
    rename_i a b
    refine ⟨[a, b], rfl, ?_⟩
    rw [if_neg h0, if_neg h1, if_pos h2, if_neg (by simp), slice_of_le (by simp), List.drop_left]
    simp [LittleEndian.toNat]
  · split at h <;> cases h
    rename_i a b c d
    refine ⟨[a, b, c, d], rfl, ?_⟩
    rw [if_neg h0, if_neg h1, if_neg h2, if_neg (by simp), slice_of_le (by simp), List.drop_left]
    simp [LittleEndian.toNat]
    omega

theorem readPushSize_of_none (pre : CScript) (h : pushSize opcode rest = none) :
    readPushSize (pre ++ rest) opcode pre.length = .ok none := by
  have hleft : (pre ++ rest).length - pre.length = rest.length := by
    rw [List.length_append, Nat.add_sub_cancel_left]
  unfold pushSize at h
  unfold readPushSize
  rw [hleft]
  split_ifs at h with h0 h1 h2
  · match rest with
    | [] => rw [if_neg h0, if_pos h1, if_pos (by decide)]; rfl
  · match rest with
    | [] | [_] => rw [if_neg h0, if_neg h1, if_pos h2, if_pos (by simp)]; rfl
  · match rest with
    | [] | [_] | [_, _] | [_, _, _] => rw [if_neg h0, if_neg h1, if_neg h2, if_pos (by simp)]; rfl

theorem getOp2_append (pre rest : CScript) : ∃ mid, rest = mid ++ (stepOp rest).2 ∧ (rest ≠ [] → mid ≠ []) ∧
      getOp2 (pre ++ rest) pre.length
        = .ok { fRet := (getOp rest).isSome
                pc := (pre ++ mid).length
                opcodeRet := (stepOp rest).1
                vchRet := ((getOp rest).map fun instr => instr.2.1).getD [] } := by
  match rest with
  | [] =>
    refine ⟨[], rfl, fun h => absurd rfl h, ?_⟩
    rw [getOp2, if_pos (by simp), List.append_nil]
    rfl
  | b :: rest =>
    have hread : read (pre ++ b :: rest) pre.length = .ok b := read_of_drop List.drop_left
    have hshift : pre ++ b :: rest = (pre ++ [b]) ++ rest := by rw [List.append_assoc, List.singleton_append]
    have hpc : pre.length + 1 = (pre ++ [b]).length := by simp
    rw [getOp2, if_neg (by simp), hread]
    by_cases hpush : b.toNat ≤ opPushData4
    · show ∃ mid, _ ∧ _ ∧ (if b.toNat ≤ opPushData4 then _ else _) = _
      rw [if_pos hpush, hpc, hshift]
      cases hsize : pushSize b.toNat rest with
      | none =>
        obtain ⟨hop, hstep⟩ := getOp_push_none hpush hsize
        rw [readPushSize_of_none _ hsize, hop, hstep]
        exact ⟨[b], rfl, fun _ => by simp, rfl⟩
      | some found =>
        obtain ⟨nSize, rest'⟩ := found
        obtain ⟨mid, rfl, hfound⟩ := readPushSize_of_some (pre ++ [b]) hsize
        have hleft : (pre ++ [b] ++ (mid ++ rest')).length - (pre ++ [b] ++ mid).length = rest'.length := by
          simp only [List.length_append]
          omega
        have hbehind : (pre ++ [b] ++ (mid ++ rest')).drop (pre ++ [b] ++ mid).length = rest' := by
          rw [← List.append_assoc, List.drop_left]
        rw [hfound]
        show ∃ mid', _ ∧ _ ∧ (if _ % 2 ^ 32 < nSize then _ else _) = _
        rw [hleft]
        by_cases hshort : rest'.length % 2 ^ 32 < nSize
        · obtain ⟨hop, hstep⟩ := getOp_push_short hpush hsize hshort
          rw [if_pos hshort, hop, hstep]
          exact ⟨b :: mid, rfl, fun _ => List.cons_ne_nil _ _, by simp [OpRead.failed]; rfl⟩
        · have hop := getOp_push_some hpush hsize hshort
          have hle : nSize ≤ rest'.length := (Nat.not_lt.mp hshort).trans (Nat.mod_le _ _)
          have hinside : (pre ++ [b] ++ mid).length + nSize ≤ (pre ++ [b] ++ (mid ++ rest')).length := by
            simp only [List.length_append]
            omega
          rw [if_neg hshort, slice_of_le hinside, hbehind, hop, stepOp_of_some hop]
          refine ⟨b :: (mid ++ rest'.take nSize), ?_, fun _ => List.cons_ne_nil _ _, ?_⟩
          · simp [List.append_assoc]
          · have hpc' : (pre ++ [b] ++ mid).length + nSize = (pre ++ b :: (mid ++ rest'.take nSize)).length := by
              simp only [List.length_append, List.length_cons, List.length_nil, List.length_take, Nat.min_eq_left hle]
              omega
            rw [← hpc']
            rfl
    · rw [getOp_plain (Nat.not_le.mp hpush), stepOp_plain (Nat.not_le.mp hpush)]
      refine ⟨[b], rfl, fun _ => by simp, ?_⟩
      show (if b.toNat ≤ opPushData4 then _ else _) = _
      rw [if_neg hpush, hpc]
      rfl

theorem getOp2_inside {pc : Nat} (hpc : pc ≤ script.length) :
    ∃ instr, getOp2 script pc = .ok instr ∧ instr.pc ≤ script.length ∧ (pc < script.length → pc < instr.pc) ∧
      script.drop instr.pc = (stepOp (script.drop pc)).2 ∧ instr.opcodeRet = (stepOp (script.drop pc)).1 ∧
      instr.fRet = (getOp (script.drop pc)).isSome ∧
      instr.vchRet = ((getOp (script.drop pc)).map fun instr => instr.2.1).getD [] := by
  obtain ⟨mid, hmid, hne, hread⟩ := getOp2_append (script.take pc) (script.drop pc)
  have hpre : (script.take pc).length = pc := List.length_take_of_le hpc
  rw [List.take_append_drop, hpre] at hread
  have hsplit : script.take pc ++ mid ++ (stepOp (script.drop pc)).2 = script := by
    rw [List.append_assoc, ← hmid, List.take_append_drop]
  refine ⟨_, hread, ?_, fun hlt => ?_, ?_, rfl, rfl, rfl⟩
  · have := congrArg List.length hsplit
    rw [List.length_append] at this
    show (script.take pc ++ mid).length ≤ script.length
    omega
  · have hmidne : mid ≠ [] := hne fun hnil => by
      have := List.drop_eq_nil_iff.mp hnil
      omega
    have := List.length_pos_of_ne_nil hmidne
    show pc < (script.take pc ++ mid).length
    rw [List.length_append, hpre]
    omega
  · show script.drop (script.take pc ++ mid).length = _
    have := congrArg (List.drop (script.take pc ++ mid).length) hsplit
    rwa [List.drop_left, eq_comm] at this

end GetOp2

theorem normalPaymentScan_eq (script : CScript) (fuel i pc : Nat) (hpc : pc ≤ script.length) :
    normalPaymentScan script fuel i pc = .ok (normalPaymentLoop fuel i (script.drop pc)) := by
  induction fuel generalizing i pc with
  | zero => rfl
  | succ fuel ih =>
    rw [normalPaymentScan, normalPaymentLoop]
    by_cases hend : pc < script.length
    · have hne : script.drop pc ≠ [] := fun hnil => by
        have := List.drop_eq_nil_iff.mp hnil
        omega
      obtain ⟨instr, hread, hin, -, hrest, hopcode, -⟩ := getOp2_inside hpc
      have hloop := ih (i + 1) instr.pc hin
      rw [hrest] at hloop
      rw [if_pos hend, if_neg hne, hread]
      simp only [bind, Except.bind, hopcode, hloop]
      split_ifs <;> rfl
    · rw [if_neg hend, if_pos (List.drop_eq_nil_iff.mpr (Nat.not_lt.mp hend))]

theorem scanNormalPayment_eq (script : CScript) : scanNormalPayment script = .ok (isNormalPaymentScript script) := by
  rw [scanNormalPayment, isNormalPaymentScript]
  by_cases hsize : script.length = 25
  · rw [if_neg (not_not.mpr hsize), normalPaymentScan_eq script _ _ _ (Nat.zero_le _), List.drop_zero]
    simp [hsize]
  · rw [if_pos hsize]
    simp [hsize]

section NormalPayment

variable {fuel i : Nat} {pc rest : CScript} {b : UInt8}

theorem getOp_cons {c : UInt8} {tl vch : CScript} {opcode : Nat} (h : getOp (c :: tl) = some (opcode, vch, rest)) :
    opcode = c.toNat := by
  rw [getOp] at h
  split_ifs at h
  · split at h
    · exact nomatch h
    · split_ifs at h
      exact (Prod.mk.inj (Option.some.inj h)).1.symm
  · exact (Prod.mk.inj (Option.some.inj h)).1.symm

theorem stepOp_fst_eq_iff (hpush : opPushData4 < b.toNat) (hvalid : b ≠ 0xff) :
    (stepOp pc).1 = b.toNat ↔ ∃ tl, pc = b :: tl := by
  have hinvalid : opInvalidOpcode ≠ b.toNat := fun h => hvalid (UInt8.toNat_inj.mp h.symm)
  constructor
  · intro hstep
    cases pc with
    | nil => exact absurd hstep hinvalid
    | cons c tl =>
      rw [stepOp] at hstep
      cases hop : getOp (c :: tl) with
      | none =>
        rw [hop] at hstep
        exact absurd hstep hinvalid
      | some instr =>
        rw [hop] at hstep
        have hc : c = b := UInt8.toNat_inj.mp ((getOp_cons hop).symm.trans hstep)
        exact ⟨tl, by rw [hc]⟩
  · rintro ⟨tl, rfl⟩
    rw [stepOp, getOp_plain hpush]

/-- The opcodes that the loop asks for, with the rounds in which it does. -/
def askedFor : List (Nat × UInt8) := [(0, 0x76), (1, 0xa9), (3, 0x88), (4, 0xac)]

theorem normalPaymentLoop_asked (hi : (i, b) ∈ askedFor) : normalPaymentLoop (fuel + 1) i pc = true ↔
      pc = [] ∨ ∃ tl, pc = b :: tl ∧ normalPaymentLoop fuel (i + 1) tl = true := by
  have hplain : ∀ entry ∈ askedFor, opPushData4 < entry.2.toNat ∧ entry.2 ≠ 0xff := by decide
  obtain ⟨hpush, hvalid⟩ := hplain (i, b) hi
  rw [normalPaymentLoop]
  by_cases hnil : pc = []
  · simp [hnil]
  have hround : normalPaymentLoop (fuel + 1) i pc = true ↔
      (stepOp pc).1 = b.toNat ∧ normalPaymentLoop fuel (i + 1) (stepOp pc).2 = true := by
    rw [normalPaymentLoop, if_neg hnil]
    simp only [askedFor, List.mem_cons, Prod.mk.injEq, List.not_mem_nil, or_false] at hi
    rcases hi with ⟨rfl, rfl⟩ | ⟨rfl, rfl⟩ | ⟨rfl, rfl⟩ | ⟨rfl, rfl⟩ <;>
      simp [opDup, opHash160, opEqualVerify, opCheckSig]
  rw [normalPaymentLoop] at hround
  rw [hround, stepOp_fst_eq_iff hpush hvalid]
  constructor
  · rintro ⟨⟨tl, rfl⟩, hloop⟩
    rw [stepOp_plain hpush] at hloop
    exact .inr ⟨tl, rfl, hloop⟩
  · rintro (h | ⟨tl, rfl, hloop⟩)
    · exact absurd h hnil
    · rw [stepOp_plain hpush]
      exact ⟨⟨tl, rfl⟩, hloop⟩

theorem normalPaymentLoop_five : normalPaymentLoop (fuel + 1) 5 pc = true ↔ pc = [] := by
  rw [normalPaymentLoop]
  by_cases hnil : pc = [] <;> simp [hnil]

theorem normalPaymentLoop_two (hne : pc ≠ []) :
    normalPaymentLoop (fuel + 1) 2 pc = normalPaymentLoop fuel 3 (stepOp pc).2 := by
  rw [normalPaymentLoop, if_neg hne]
  simp

theorem normalPaymentLoop_three : normalPaymentLoop (fuel + 3) 3 pc = true ↔ pc <+: [0x88, 0xac] := by
  have hfour : ∀ tl, normalPaymentLoop (fuel + 2) 4 tl = true ↔ tl <+: [0xac] := by
    intro tl
    rw [normalPaymentLoop_asked (b := 0xac) (by decide), List.prefix_cons_iff]
    simp only [Nat.reduceAdd, normalPaymentLoop_five, List.prefix_nil]
  rw [normalPaymentLoop_asked (b := 0x88) (by decide), List.prefix_cons_iff]
  simp only [hfour]

theorem length_of_pushSize {opcode nSize : Nat} (h : pushSize opcode pc = some (nSize, rest)) :
    pc.length ≤ rest.length + 4 := by
  obtain ⟨mid, rfl, -⟩ := readPushSize_of_some [] h
  unfold pushSize at h
  split_ifs at h
  · simp_all
  all_goals
    split at h <;> cases h
    simp_all

theorem getOp_isSome_of_rest (hlength : pc.length = 23) (hrest : (stepOp pc).2.length ≤ 2) :
    (getOp pc).isSome = true := by
  by_contra hnone
  have hop : getOp pc = none := by simpa using hnone
  match pc with
  | [] => exact nomatch hlength
  | c :: tl =>
    have htl : tl.length = 22 := by simpa using hlength
    rw [stepOp, hop] at hrest
    cases hsize : pushSize c.toNat tl with
    | none =>
      rw [hsize] at hrest
      have : tl.length ≤ 2 := hrest
      omega
    | some found =>
      rw [hsize] at hrest
      have hleft : tl.length ≤ found.2.length + 4 := length_of_pushSize hsize
      have : found.2.length ≤ 2 := hrest
      omega

theorem isNormalPaymentScript_iff_push : isNormalPaymentScript script = true ↔
      script.length = 25 ∧ script.take 2 = [0x76, 0xa9] ∧
        ∃ opcode data rest, getOp (script.drop 2) = some (opcode, data, rest) ∧ rest <+: [0x88, 0xac] := by
  rw [isNormalPaymentScript, Bool.and_eq_true, beq_iff_eq]
  refine and_congr_right fun hlength => ?_
  match script with
  | [] | [_] => exact nomatch hlength
  | a :: b :: pc =>
    have hpc : pc.length = 23 := by simpa using hlength
    have hne : pc ≠ [] := fun h => by simp [h] at hpc
    have htake : (a :: b :: pc).take 2 = [a, b] := rfl
    have hdrop : (a :: b :: pc).drop 2 = pc := rfl
    have hloop : normalPaymentLoop 25 0 (a :: b :: pc) = true ↔
        a = 0x76 ∧ b = 0xa9 ∧ (stepOp pc).2 <+: [0x88, 0xac] := by
      rw [normalPaymentLoop_asked (b := 0x76) (by decide)]
      have hone : ∀ tl, normalPaymentLoop 24 1 tl = true ↔
          tl = [] ∨ ∃ tl', tl = 0xa9 :: tl' ∧ normalPaymentLoop 23 2 tl' = true :=
        fun tl => normalPaymentLoop_asked (by decide)
      simp only [Nat.reduceAdd, hone, List.cons_ne_nil, false_or, List.cons.injEq]
      constructor
      · rintro ⟨tl, ⟨rfl, rfl⟩, htl⟩
        rcases htl with htl | ⟨tl', htl', h⟩
        · exact absurd htl (List.cons_ne_nil _ _)
        · obtain ⟨rfl, rfl⟩ := List.cons.inj htl'
          rw [normalPaymentLoop_two hne, normalPaymentLoop_three] at h
          exact ⟨rfl, rfl, h⟩
      · rintro ⟨rfl, rfl, h⟩
        refine ⟨_, ⟨rfl, rfl⟩, .inr ⟨_, rfl, ?_⟩⟩
        rw [normalPaymentLoop_two hne, normalPaymentLoop_three]
        exact h
    rw [hlength, hloop, htake, hdrop]
    simp only [List.cons.injEq, and_true, and_assoc]
    refine and_congr_right fun _ => and_congr_right fun _ => ?_
    constructor
    · intro hrest
      obtain ⟨⟨opcode, data, rest⟩, hop⟩ :=
        Option.isSome_iff_exists.mp (getOp_isSome_of_rest hpc (hrest.length_le.trans (by decide)))
      rw [stepOp_of_some hop] at hrest
      exact ⟨opcode, data, rest, hop, hrest⟩
    · rintro ⟨opcode, data, rest, hop, hrest⟩
      rw [stepOp_of_some hop]
      exact hrest

theorem getOp_push20 {hash tail : CScript} (hlength : hash.length = 20) (hshort : tail.length ≤ 2) :
    getOp (0x14 :: (hash ++ tail)) = some (0x14, hash, tail) := by
  have hroom : ¬(hash ++ tail).length % 2 ^ 32 < 20 := by
    rw [List.length_append, hlength, Nat.mod_eq_of_lt (by omega)]
    omega
  have hop := @getOp_push_some (hash ++ tail) (hash ++ tail) 20 0x14 (by decide) rfl hroom
  rw [hop, List.take_left' hlength, List.drop_left' hlength]
  rfl

theorem isPayToPubKeyHash_iff : IsPayToPubKeyHash script ↔ script.length = 25 ∧ script.take 2 = [0x76, 0xa9] ∧
      ∃ data rest, getOp (script.drop 2) = some (0x14, data, rest) ∧ rest <+: [0x88, 0xac] := by
  constructor
  · rintro ⟨hash, hlength, rfl⟩
    refine ⟨by simp [hlength], rfl, hash, [0x88, 0xac], ?_, List.prefix_refl _⟩
    exact getOp_push20 hlength (by decide)
  · rintro ⟨hlength, htake, data, rest, hop, hrest⟩
    match script with
    | [] | [_] | [_, _] => exact nomatch hlength
    | a :: b :: c :: tl =>
      obtain ⟨rfl, hb⟩ := List.cons.inj htake
      obtain ⟨rfl, -⟩ := List.cons.inj hb
      have hc : c = 0x14 := UInt8.toNat_inj.mp (getOp_cons hop).symm
      have htl : tl.length = 22 := by simpa using hlength
      have hsplit : tl.take 20 ++ tl.drop 20 = tl := List.take_append_drop 20 tl
      have hread : getOp (0x14 :: (tl.take 20 ++ tl.drop 20)) = some (0x14, tl.take 20, tl.drop 20) :=
        getOp_push20 (by simp [htl]) (by simp [htl])
      rw [hsplit, ← hc] at hread
      have hrest' : tl.drop 20 = rest := by
        have := hread.symm.trans hop
        simpa using congrArg (fun instr => instr.map fun i => i.2.2) this
      have hend : rest = [0x88, 0xac] := hrest.eq_of_length (by rw [← hrest', List.length_drop, htl]; rfl)
      refine ⟨tl.take 20, by simp [htl], ?_⟩
      rw [hc, ← hend, ← hrest', List.cons_append, List.cons_append, List.cons_append, hsplit]

end NormalPayment

/-- The check reads inside every script, and takes exactly the payments to a key hash but for scripts that end
    in another push. -/
theorem isNormalPaymentScript_iff (script : CScript) :
    (∃ accepts, scanNormalPayment script = .ok accepts ∧ (accepts = true ↔ IsPayToPubKeyHash script)) ↔
      ¬EndsInOtherPush script := by
  have haccepts : isNormalPaymentScript script = true ↔ IsPayToPubKeyHash script ∨ EndsInOtherPush script := by
    rw [isNormalPaymentScript_iff_push, isPayToPubKeyHash_iff, EndsInOtherPush, ← and_or_left, ← and_or_left]
    refine and_congr_right fun _ => and_congr_right fun _ => ?_
    constructor
    · rintro ⟨opcode, data, rest, hop, hrest⟩
      by_cases h20 : opcode = 0x14
      · rw [h20] at hop
        exact .inl ⟨data, rest, hop, hrest⟩
      · exact .inr ⟨opcode, data, rest, hop, h20, hrest⟩
    · rintro (⟨data, rest, hop, hrest⟩ | ⟨opcode, data, rest, hop, -, hrest⟩)
      · exact ⟨0x14, data, rest, hop, hrest⟩
      · exact ⟨opcode, data, rest, hop, hrest⟩
  have hdisjoint : IsPayToPubKeyHash script → ¬EndsInOtherPush script := by
    rintro hhash ⟨-, -, opcode, data, rest, hop, h20, -⟩
    obtain ⟨-, -, data', rest', hop', -⟩ := isPayToPubKeyHash_iff.mp hhash
    rw [hop] at hop'
    exact h20 (Prod.mk.inj (Option.some.inj hop')).1
  simp only [scanNormalPayment_eq, Except.ok.injEq, exists_eq_left', haccepts]
  tauto

/-- A push of 22 bytes up to the end is taken for a payment to a key hash. -/
theorem isNormalPaymentScript_otherPush :
    ¬∃ accepts, scanNormalPayment (0x76 :: 0xa9 :: 0x16 :: List.replicate 22 0) = .ok accepts ∧
      (accepts = true ↔ IsPayToPubKeyHash (0x76 :: 0xa9 :: 0x16 :: List.replicate 22 0)) := by
  rintro ⟨accepts, hscan, haccepts⟩
  have htrue : accepts = true := by
    rw [show scanNormalPayment (0x76 :: 0xa9 :: 0x16 :: List.replicate 22 0) = .ok true by decide] at hscan
    exact (Except.ok.inj hscan).symm
  obtain ⟨hash, -, heq⟩ := haccepts.mp htrue
  exact absurd (congrArg (·[2]?) heq) (by simp)

namespace Element

section Push

variable {b rest : CScript}

theorem toNat_ofNat_of_lt {n : Nat} (h : n < 256) : (UInt8.ofNat n).toNat = n := by
  rw [UInt8.toNat_ofNat', Nat.mod_eq_of_lt h]

theorem pushData_eq (hlength : b.length < 2 ^ 32) :
    ∃ c size, pushData b = c :: (size ++ b) ∧ c.toNat = pushOpcode b.length ∧ c.toNat ≤ opPushData4 ∧
      ∀ pc, pushSize c.toNat (size ++ pc) = some (b.length, pc) := by
  by_cases h0 : b.length < opPushData1
  · have hc : (UInt8.ofNat b.length).toNat = b.length := toNat_ofNat_of_lt (by rw [opPushData1] at h0; omega)
    have hpush : b.length ≤ opPushData4 := by
      rw [opPushData1] at h0
      rw [opPushData4]
      omega
    simp only [pushData, pushOpcode, if_pos h0]
    refine ⟨UInt8.ofNat b.length, [], rfl, hc, by rw [hc]; exact hpush, fun pc => ?_⟩
    unfold pushSize
    rw [hc, if_pos h0, List.nil_append]
  by_cases h1 : b.length ≤ 0xff
  · simp only [pushData, pushOpcode, if_neg h0, if_pos h1]
    refine ⟨0x4c, [_], rfl, rfl, by decide, fun pc => ?_⟩
    simp [pushSize, opPushData1]
    omega
  by_cases h2 : b.length ≤ 0xffff
  · simp only [pushData, pushOpcode, if_neg h0, if_neg h1, if_pos h2]
    refine ⟨0x4d, [_, _], rfl, rfl, by decide, fun pc => ?_⟩
    simp [pushSize, opPushData1, opPushData2]
    omega
  · simp only [pushData, pushOpcode, if_neg h0, if_neg h1, if_neg h2]
    refine ⟨0x4e, [_, _, _, _], rfl, rfl, by decide, fun pc => ?_⟩
    simp [pushSize, opPushData1, opPushData2]
    omega

theorem getOp_pushData (hroom : (b ++ rest).length < 2 ^ 32) :
    getOp (pushData b ++ rest) = some (pushOpcode b.length, b, rest) := by
  rw [List.length_append] at hroom
  obtain ⟨c, size, hdata, hc, hpush, hsize⟩ := pushData_eq (b := b) (by omega)
  have hin : ¬(b ++ rest).length % 2 ^ 32 < b.length := by
    rw [List.length_append, Nat.mod_eq_of_lt hroom]
    omega
  rw [hdata, List.cons_append, List.append_assoc, getOp_push_some hpush (hsize _) hin, List.take_left, List.drop_left, hc]

theorem getOp_pushData_none (hlength : b.length < 2 ^ 32) (hwrap : (b ++ rest).length % 2 ^ 32 < b.length) :
    getOp (pushData b ++ rest) = none := by
  obtain ⟨c, size, hdata, -, hpush, hsize⟩ := pushData_eq hlength
  rw [hdata, List.cons_append, List.append_assoc, (getOp_push_short hpush (hsize _) hwrap).1]

theorem length_lt_pushData (b : List UInt8) : b.length < (pushData b).length := by
  simp only [pushData]
  split_ifs
  all_goals
    simp only [List.length_cons]
    omega

theorem getOp_pushInt64 {n : Int} (hroom : (pushInt64 n ++ rest).length < 2 ^ 32) :
    getOp (pushInt64 n ++ rest) = some ((instrOfInt n).1, (instrOfInt n).2, rest) := by
  unfold pushInt64 instrOfInt
  unfold pushInt64 at hroom
  by_cases hsmall : n = -1 ∨ (1 ≤ n ∧ n ≤ 16)
  · have hbyte : (UInt8.ofNat (n + 80).toNat).toNat = (n + 80).toNat := toNat_ofNat_of_lt (by omega)
    have hplain : opPushData4 < (UInt8.ofNat (n + 80).toNat).toNat := by
      rw [hbyte, opPushData4]
      omega
    simp only [if_pos hsmall, List.singleton_append, getOp_plain hplain, hbyte]
  · rw [if_neg hsmall] at hroom
    simp only [if_neg hsmall]
    refine getOp_pushData (lt_of_le_of_lt ?_ hroom)
    simp only [List.length_append]
    exact Nat.add_le_add_right (length_lt_pushData _).le _

theorem getOp_push {e : Element} (he : e.Whole) (hroom : (e.push ++ rest).length < 2 ^ 32) :
    getOp (e.push ++ rest) = some (e.instr.1, e.instr.2, rest) := by
  cases e with
  | opcode c =>
    rcases he with rfl | hplain
    · exact getOp_pushData (b := []) (lt_of_le_of_lt (Nat.le_succ _) hroom)
    · exact getOp_plain hplain
  | int n => exact getOp_pushInt64 hroom
  | uint n => exact getOp_pushInt64 hroom
  | bytes b =>
    refine getOp_pushData (lt_of_le_of_lt ?_ hroom)
    simp only [List.length_append]
    exact Nat.add_le_add_right (length_lt_pushData _).le _

end Push

theorem push_ne_nil (e : Element) : e.push ≠ [] := by
  have hdata : ∀ b, pushData b ≠ [] := fun b h => by
    have := length_lt_pushData b
    rw [h] at this
    exact absurd this (Nat.not_lt_zero _)
  have hint : ∀ n, pushInt64 n ≠ [] := fun n => by
    unfold pushInt64
    split_ifs
    · exact List.cons_ne_nil _ _
    · exact hdata _
  cases e with
  | opcode b => exact List.cons_ne_nil _ _
  | int n => exact hint _
  | uint n => exact hint _
  | bytes b => exact hdata b

/-- The loop reads the elements that are left. By induction on them. -/
theorem readRound_build (pre : CScript) (ops : List (Nat × List UInt8)) {elements : List Element}
    (hwhole : ∀ e ∈ elements, e.Whole) (hroom : (pre ++ build elements).length < 2 ^ 32) :
    While.Returns (readRound (pre ++ build elements)) (pre.length, ops)
      (.ok (true, (pre ++ build elements).length, ops ++ elements.map instr)) := by
  induction elements generalizing pre ops with
  | nil =>
    rw [build, List.flatMap_nil, List.append_nil, List.map_nil, List.append_nil]
    refine (While.returns_done_iff ?_).mpr rfl
    rw [readRound, if_neg (Nat.lt_irrefl _)]
  | cons e elements ih =>
    have hbuild : build (e :: elements) = e.push ++ build elements := List.flatMap_cons
    have hshift : pre ++ (e.push ++ build elements) = pre ++ e.push ++ build elements := (List.append_assoc _ _ _).symm
    have hpush := List.length_pos_of_ne_nil (push_ne_nil e)
    rw [hbuild] at hroom ⊢
    have hlt : pre.length < (pre ++ (e.push ++ build elements)).length := by
      simp only [List.length_append]
      omega
    have hread : getOp (e.push ++ build elements) = some (e.instr.1, e.instr.2, build elements) := by
      refine getOp_push (hwhole e List.mem_cons_self) (lt_of_le_of_lt ?_ hroom)
      simp only [List.length_append]
      omega
    obtain ⟨mid, hmid, -, hop⟩ := getOp2_append pre (e.push ++ build elements)
    rw [stepOp_of_some hread] at hmid hop
    have hmide : mid = e.push := (List.append_cancel_right hmid).symm
    rw [hread, hmide] at hop
    have hround : readRound (pre ++ (e.push ++ build elements)) (pre.length, ops)
        = .next ((pre ++ e.push).length, ops ++ [e.instr]) := by
      rw [readRound, if_pos hlt, hop]
      rfl
    rw [While.returns_next_iff hround, hshift]
    have hrest := ih (pre ++ e.push) (ops ++ [e.instr]) (fun e' he' => hwhole e' (List.mem_cons_of_mem e he'))
      (by rwa [← hshift])
    rwa [List.append_assoc ops, List.singleton_append, ← List.map_cons] at hrest

end Element

theorem readRound_returns (script : CScript) {pc : Nat} (hpc : pc ≤ script.length) (ops : List (Nat × List UInt8)) :
    ∃ r, While.Returns (readRound script) (pc, ops) (.ok r) := by
  induction hleft : script.length - pc using Nat.strongRecOn generalizing pc ops with
  | ind left ih =>
    by_cases hend : pc < script.length
    · obtain ⟨instr, hop, hin, hlt, -⟩ := getOp2_inside hpc
      have hforward := hlt hend
      by_cases hret : instr.fRet = true
      · have hround : readRound script (pc, ops) = .next (instr.pc, ops ++ [(instr.opcodeRet, instr.vchRet)]) := by
          rw [readRound, if_pos hend, hop]
          exact if_pos hret
        obtain ⟨r, hr⟩ := ih (script.length - instr.pc) (by omega) hin _ rfl
        exact ⟨r, (While.returns_next_iff hround).mpr hr⟩
      · have hround : readRound script (pc, ops) = .done (.ok (false, instr.pc, ops)) := by
          rw [readRound, if_pos hend, hop]
          exact if_neg hret
        exact ⟨_, (While.returns_done_iff hround).mpr rfl⟩
    · have hround : readRound script (pc, ops) = .done (.ok (true, pc, ops)) := by
        rw [readRound, if_neg hend]
      exact ⟨_, (While.returns_done_iff hround).mpr rfl⟩

theorem not_returns_of_none (hne : script ≠ []) (hop : getOp script = none) (r : Nat × List (Nat × List UInt8))
    : ¬While.Returns (readRound script) (0, []) (.ok (true, r)) := by
  obtain ⟨instr, hread, -, -, -, -, hret, -⟩ := getOp2_inside (Nat.zero_le script.length)
  rw [List.drop_zero, hop] at hret
  have hround : readRound script (0, []) = .done (.ok (false, instr.pc, [])) := by
    rw [readRound, if_pos (List.length_pos_of_ne_nil hne), hread]
    simp [hret]
  rw [While.returns_done_iff hround]
  exact fun h => Bool.noConfusion (Prod.mk.inj (Except.ok.inj h)).1

/-- **Scripts are read back as they are built.** The elements of a script, none of which announces bytes that it
    does not have, are what a loop over `GetOp` reads from it, up to its end. From every script `GetOp` reads inside
    it, and takes a byte at least where there is one, so that every such loop comes to an end. -/
theorem build_readBack :
    (∀ elements : List Element, (∀ e ∈ elements, e.Whole) → (Element.build elements).length < 2 ^ 32 →
      While.Returns (readRound (Element.build elements)) (0, [])
        (.ok (true, (Element.build elements).length, elements.map Element.instr))) ∧
    (∀ (script : CScript) (pc : Nat), pc ≤ script.length → ∃ instr, getOp2 script pc = .ok instr ∧
      instr.pc ≤ script.length ∧ (instr.fRet = true → pc < instr.pc)) ∧
    ∀ script : CScript, ∃ r, While.Returns (readRound script) (0, []) (.ok r) := by
  refine ⟨fun elements hwhole hroom => ?_, fun script pc hpc => ?_, fun script => ?_⟩
  · exact Element.readRound_build [] [] hwhole hroom
  · obtain ⟨instr, hop, hin, hlt, -, -, hret, -⟩ := getOp2_inside hpc
    refine ⟨instr, hop, hin, fun htrue => hlt ?_⟩
    by_contra hend
    rw [hret, List.drop_eq_nil_of_le (Nat.not_lt.mp hend)] at htrue
    exact nomatch htrue
  · exact readRound_returns script (Nat.zero_le _) []

theorem build_readBack_sample :
    While.Returns (readRound (Element.build [.opcode 0x76, .bytes (List.replicate 20 7), .int 1000])) (0, [])
      (.ok (true, 25, [(0x76, []), (20, List.replicate 20 7), (2, [0xe8, 0x03])])) :=
  build_readBack.1 [.opcode 0x76, .bytes (List.replicate 20 7), .int 1000] (by decide) (by decide)

/-- An opcode that announces bytes is not read back, and neither are four gigabytes. -/
theorem build_notReadBack : (¬While.Returns (readRound (Element.build [.opcode 0x4c])) (0, [])
      (.ok (true, 1, [.opcode 0x4c].map Element.instr))) ∧
    ¬While.Returns (readRound (Element.build [.bytes (List.replicate (2 ^ 32 - 1) 0), .opcode 0x61])) (0, [])
      (.ok (true, (Element.build [.bytes (List.replicate (2 ^ 32 - 1) 0), .opcode 0x61]).length,
        [.bytes (List.replicate (2 ^ 32 - 1) 0), .opcode 0x61].map Element.instr)) := by
  constructor
  · exact not_returns_of_none (by decide) (by decide) _
  · generalize hb : List.replicate (2 ^ 32 - 1) (0 : UInt8) = b
    have hlength : b.length = 2 ^ 32 - 1 := by rw [← hb, List.length_replicate]
    have hbuild : Element.build [.bytes b, .opcode 0x61] = pushData b ++ [0x61] := rfl
    rw [hbuild]
    refine not_returns_of_none (by simp) (Element.getOp_pushData_none ?_ ?_) _
    · rw [hlength]
      norm_num
    · rw [List.length_append, hlength]
      norm_num

end CScript

end PupaCoin
