import PupaCoin.Script.Destination
import PupaCoin.Script.Proofs.ReadingProofs
import PupaCoin.Script.Proofs.SigOpProofs
import PupaCoin.Smsg.Proofs.CryptProofs

/-!
# The types of output scripts and their destinations: proofs

What `GetOp` reads at the head of a script is either an opcode of its own or a push in one of its four forms. Each
opcode of a template is then one lemma, and each template the composition of these.
-/

namespace PupaCoin

variable {b : UInt8} {P : List UInt8 → Prop} {keys pushes : List (List UInt8)} {t : TxnOutType} {script : CScript}
  {tplate : TxnOutType × List Nat}

variable {data push : List UInt8}

namespace CScript

section Push

variable {n opcode : Nat} {data push pc rest tl header : List UInt8} {c : UInt8}

theorem mem_pushHeaders : header ∈ pushHeaders n ↔ (n < opPushData1 ∧ header = [UInt8.ofNat n])
    ∨ (n < 256 ^ 1 ∧ header = 0x4c :: LittleEndian.ofNat 1 n) ∨
      (n < 256 ^ 2 ∧ header = 0x4d :: LittleEndian.ofNat 2 n) ∨ (n < 256 ^ 4 ∧ header = 0x4e :: LittleEndian.ofNat 4 n) := by
  have hmem : ∀ {p : Prop} [Decidable p] {a : List UInt8}, header ∈ (if p then [a] else []) ↔ p ∧ header = a := by
    intro p _ a
    split_ifs with hp <;> simp [hp]
  unfold pushHeaders
  rw [List.mem_append, List.mem_append, List.mem_append, hmem, hmem, hmem, hmem, or_assoc, or_assoc]

theorem pushSize_of_header (h : header ∈ pushHeaders n) :
    ∃ c size, header = c :: size ∧ c.toNat ≤ opPushData4 ∧ ∀ pc, pushSize c.toNat (size ++ pc) = some (n, pc) := by
  rcases mem_pushHeaders.mp h with ⟨hn, rfl⟩ | ⟨hn, rfl⟩ | ⟨hn, rfl⟩ | ⟨hn, rfl⟩
  · rw [opPushData1] at hn
    have hc : (UInt8.ofNat n).toNat = n := Element.toNat_ofNat_of_lt (by omega)
    refine ⟨_, [], rfl, by rw [hc, opPushData4]; omega, fun pc => ?_⟩
    rw [hc, List.nil_append]
    exact if_pos hn
  · refine ⟨_, _, rfl, by decide, fun pc => ?_⟩
    simp [pushSize, opPushData1, LittleEndian.ofNat]
    omega
  · refine ⟨_, _, rfl, by decide, fun pc => ?_⟩
    simp [pushSize, opPushData1, opPushData2, LittleEndian.ofNat]
    omega
  · refine ⟨_, _, rfl, by decide, fun pc => ?_⟩
    simp [pushSize, opPushData1, opPushData2, LittleEndian.ofNat]
    omega

theorem length_of_isPush (h : IsPushOf data push) : data.length ≤ push.length := by
  obtain ⟨header, -, rfl⟩ := h
  rw [List.length_append]
  exact Nat.le_add_left _ _

theorem header_of_pushSize (hc : c.toNat ≤ opPushData4) (h : pushSize c.toNat pc = some (n, rest)) :
    ∃ size, pc = size ++ rest ∧ c :: size ∈ pushHeaders n := by
  unfold pushSize at h
  split_ifs at h with h0 h1 h2
  · obtain ⟨rfl, rfl⟩ := Prod.mk.inj (Option.some.inj h)
    refine ⟨[], rfl, mem_pushHeaders.mpr (.inl ⟨h0, ?_⟩)⟩
    rw [UInt8.ofNat_toNat]
  · split at h <;> cases h
    rename_i a
    have hc' : c = 0x4c := UInt8.toNat_inj.mp h1
    refine ⟨[a], rfl, mem_pushHeaders.mpr (.inr (.inl ⟨a.toNat_lt, ?_⟩))⟩
    rw [hc']
    simp [LittleEndian.ofNat]
  · split at h <;> cases h
    rename_i a b
    have hc' : c = 0x4d := UInt8.toNat_inj.mp h2
    have hvalue : a.toNat + 256 * b.toNat = LittleEndian.toNat [a, b] := by simp [LittleEndian.toNat]
    refine ⟨[a, b], rfl, mem_pushHeaders.mpr (.inr (.inr (.inl ?_)))⟩
    have hbytes : LittleEndian.ofNat 2 (LittleEndian.toNat [a, b]) = [a, b] := LittleEndian.ofNat_toNat rfl
    rw [hc', hvalue]
    exact ⟨LittleEndian.toNat_lt [a, b], by rw [hbytes]⟩
  · split at h <;> cases h
    rename_i a b c' d
    have hc' : c = 0x4e := by
      refine UInt8.toNat_inj.mp ?_
      rw [opPushData1] at h0 h1
      rw [opPushData2] at h2
      rw [opPushData4] at hc
      show c.toNat = 0x4e
      omega
    have hvalue : a.toNat + 256 * b.toNat + 65536 * c'.toNat + 16777216 * d.toNat = LittleEndian.toNat [a, b, c', d] := by
      simp [LittleEndian.toNat]
      omega
    refine ⟨[a, b, c', d], rfl, mem_pushHeaders.mpr (.inr (.inr (.inr ?_)))⟩
    have hbytes : LittleEndian.ofNat 4 (LittleEndian.toNat [a, b, c', d]) = [a, b, c', d] :=
      LittleEndian.ofNat_toNat rfl
    rw [hc', hvalue]
    exact ⟨LittleEndian.toNat_lt [a, b, c', d], by rw [hbytes]⟩

theorem getOp_of_isPush (h : IsPushOf data push) (hroom : (data ++ tl).length < 2 ^ 32) :
    ∃ c, push.head? = some c ∧ c.toNat ≤ opPushData4 ∧ getOp (push ++ tl) = some (c.toNat, data, tl) := by
  obtain ⟨header, hheader, rfl⟩ := h
  obtain ⟨c, size, rfl, hc, hsize⟩ := pushSize_of_header hheader
  have hin : ¬(data ++ tl).length % 2 ^ 32 < data.length := by
    rw [Nat.mod_eq_of_lt hroom, List.length_append]
    omega
  refine ⟨c, rfl, hc, ?_⟩
  rw [List.append_assoc, List.cons_append, getOp, if_pos hc, hsize]
  simp only [if_neg hin, List.take_left, List.drop_left]

theorem getOp_cases (h : getOp pc = some (opcode, data, tl)) :
    (∃ push, IsPushOf data push ∧ pc = push ++ tl ∧ opcode ≤ opPushData4 ∧ push.head?.map UInt8.toNat = some opcode) ∨
    (∃ b : UInt8, b.toNat = opcode ∧ opPushData4 < b.toNat ∧ pc = b :: tl ∧ data = []) := by
  cases pc with
  | nil => cases h
  | cons c pc =>
    have hop := getOp_cons h
    rw [getOp] at h
    split_ifs at h with hpush
    · cases hsize : pushSize c.toNat pc with
      | none =>
        rw [hsize] at h
        cases h
      | some found =>
        obtain ⟨nSize, rest⟩ := found
        rw [hsize] at h
        dsimp only at h
        split_ifs at h with hshort
        obtain ⟨-, hdata⟩ := Prod.mk.inj (Option.some.inj h)
        obtain ⟨rfl, rfl⟩ := Prod.mk.inj hdata
        obtain ⟨size, rfl, hheader⟩ := header_of_pushSize hpush hsize
        have hle : nSize ≤ rest.length := (Nat.not_lt.mp hshort).trans (Nat.mod_le _ _)
        refine .inl ⟨c :: size ++ rest.take nSize, ⟨c :: size, ?_, rfl⟩, ?_, hop ▸ hpush, by rw [hop]; rfl⟩
        · rw [List.length_take_of_le hle]
          exact hheader
        · rw [List.append_assoc, List.take_append_drop]
          rfl
    · obtain ⟨-, hdata⟩ := Prod.mk.inj (Option.some.inj h)
      obtain ⟨rfl, rfl⟩ := Prod.mk.inj hdata
      exact .inr ⟨c, hop.symm, Nat.not_le.mp hpush, rfl, rfl⟩

theorem length_of_getOp (h : getOp pc = some (opcode, data, tl)) : tl.length < pc.length := by
  rcases getOp_cases h with ⟨push, ⟨header, hheader, rfl⟩, rfl, -, -⟩ | ⟨b, -, -, rfl, -⟩
  · obtain ⟨c, size, rfl, -⟩ := pushSize_of_header hheader
    simp only [List.length_append, List.length_cons]
    omega
  · exact Nat.lt_succ_self _

end Push

section Template

variable {opcode opcode2 n : Nat} {pc2 : List Nat} {pc1 tl vch1 : CScript} {vSolutions sols s : List (List UInt8)}
  {st : TemplateState}

theorem matchTemplate_cons (h2 : opcode2 ≠ opPubKeys) : matchTemplate (opcode2 :: pc2) pc1 vSolutions = some s ↔
      ∃ opcode1 vch1 tl sols, getOp pc1 = some (opcode1, vch1, tl) ∧
        matchOpcode opcode2 ⟨opcode1, vch1, tl, vSolutions⟩ = some sols ∧ matchTemplate pc2 tl sols = some s := by
  rw [matchTemplate]
  cases hop : getOp pc1 with
  | none => simp
  | some instr =>
    obtain ⟨opcode1, vch1, tl⟩ := instr
    simp only [Option.bind_eq_bind, Option.bind_some, if_neg h2, Option.bind_eq_some_iff, Option.some.injEq,
      Prod.mk.injEq]
    constructor
    · rintro ⟨sols, hmatch, hrest⟩
      exact ⟨opcode1, vch1, tl, sols, ⟨rfl, rfl, rfl⟩, hmatch, hrest⟩
    · rintro ⟨_, _, _, sols, ⟨rfl, rfl, rfl⟩, hmatch, hrest⟩
      exact ⟨sols, hmatch, hrest⟩

theorem matchTemplate_nil : matchTemplate [] pc1 vSolutions = some s ↔ pc1 = [] ∧ vSolutions = s := by
  rw [matchTemplate]
  split_ifs with hnil <;> simp [hnil]

theorem matchOpcode_pubKey : matchOpcode opPubKey st = some s ↔
      (33 ≤ st.vch1.length ∧ st.vch1.length ≤ 120) ∧ st.vSolutions ++ [st.vch1] = s := by
  rw [matchOpcode, if_pos rfl, isPubKeySize]
  split_ifs with hsize
  · simpa using fun _ => of_decide_eq_true hsize
  · simpa using fun h1 h2 => absurd (decide_eq_true ⟨h1, h2⟩) hsize

theorem matchOpcode_pubKeyHash :
    matchOpcode opPubKeyHash st = some s ↔ st.vch1.length = 20 ∧ st.vSolutions ++ [st.vch1] = s := by
  rw [matchOpcode, if_neg (by decide), if_pos rfl]
  split_ifs with hsize <;> simp [hsize]

theorem matchOpcode_smallInteger :
    matchOpcode opSmallInteger st = some s ↔ (st.opcode1 = 0 ∨ (op1 ≤ st.opcode1 ∧ st.opcode1 ≤ op16)) ∧
      st.vSolutions ++ [[UInt8.ofNat (decodeOpN st.opcode1)]] = s := by
  rw [matchOpcode, if_neg (by decide), if_neg (by decide), if_pos rfl]
  split_ifs with hsmall <;> simp [hsmall]

theorem matchOpcode_smallData : matchOpcode opSmallData st = some s ↔ st.vch1.length ≤ 40 ∧ st.vSolutions = s := by
  rw [matchOpcode, if_neg (by decide), if_neg (by decide), if_neg (by decide), if_pos rfl, maxOpReturnRelay]
  split_ifs with hsize
  · simpa using fun h => absurd h (Nat.not_le.mpr hsize)
  · simpa using fun _ => Nat.not_lt.mp hsize

theorem matchTemplate_plain (hpush : opPushData4 < b.toNat) (hwild : b.toNat < opSmallData) :
    matchTemplate (b.toNat :: pc2) pc1 vSolutions = some s ↔
      ∃ tl, pc1 = b :: tl ∧ matchTemplate pc2 tl vSolutions = some s := by
  rw [opSmallData] at hwild
  have hmatch : ∀ st : TemplateState, matchOpcode b.toNat st
      = if st.opcode1 ≠ b.toNat ∨ st.vch1 ≠ [] then none else some st.vSolutions := by
    intro st
    unfold matchOpcode opPubKey opPubKeyHash opSmallInteger opSmallData
    rw [if_neg (by omega), if_neg (by omega), if_neg (by omega), if_neg (by omega)]
  rw [matchTemplate_cons (by rw [opPubKeys]; omega)]
  simp only [hmatch]
  constructor
  · rintro ⟨opcode1, vch1, tl, sols, hop, hself, hrest⟩
    split_ifs at hself with hdiffers
    rw [not_or, not_not, not_not] at hdiffers
    obtain ⟨rfl, rfl⟩ := hdiffers
    cases Option.some.inj hself
    rcases getOp_cases hop with ⟨push, -, -, hle, -⟩ | ⟨c, hc, -, rfl, -⟩
    · exact absurd hle (Nat.not_le.mpr hpush)
    · exact ⟨tl, by rw [UInt8.toNat_inj.mp hc], hrest⟩
  · rintro ⟨tl, rfl, hrest⟩
    exact ⟨b.toNat, [], tl, vSolutions, getOp_plain hpush, by simp, hrest⟩

theorem matchTemplate_push (h2 : opcode2 ≠ opPubKeys)
    (hmatch : ∀ st s, matchOpcode opcode2 st = some s ↔ P st.vch1 ∧ st.vSolutions ++ [st.vch1] = s) (hne : ¬P []) :
    matchTemplate (opcode2 :: pc2) pc1 vSolutions = some s → ∃ data push tl, P data ∧ IsPushOf data push ∧
      pc1 = push ++ tl ∧ matchTemplate pc2 tl (vSolutions ++ [data]) = some s := by
  rw [matchTemplate_cons h2]
  rintro ⟨opcode1, vch1, tl, sols, hop, hself, hrest⟩
  obtain ⟨hP, rfl⟩ := (hmatch _ _).mp hself
  rcases getOp_cases hop with ⟨push, hpush, rfl, -⟩ | ⟨_, _, _, _, hnil⟩
  · exact ⟨vch1, push, tl, hP, hpush, rfl, hrest⟩
  · rw [hnil] at hP
    exact absurd hP hne

theorem matchTemplate_of_push (h2 : opcode2 ≠ opPubKeys)
    (hmatch : ∀ st s, matchOpcode opcode2 st = some s ↔ P st.vch1 ∧ st.vSolutions ++ [st.vch1] = s)
    (hP : P data) (hpush : IsPushOf data push) (hroom : (data ++ tl).length < 2 ^ 32)
    (hrest : matchTemplate pc2 tl (vSolutions ++ [data]) = some s) :
    matchTemplate (opcode2 :: pc2) (push ++ tl) vSolutions = some s := by
  obtain ⟨c, -, -, hop⟩ := getOp_of_isPush hpush hroom
  rw [matchTemplate_cons h2]
  exact ⟨c.toNat, data, tl, _, hop, (hmatch _ _).mpr ⟨hP, rfl⟩, hrest⟩

theorem smallInteger_spec : ∀ n : Fin 17, (smallIntegerByte n).toNat = (if n.val = 0 then 0 else op1 + n - 1) ∧
    decodeOpN (smallIntegerByte n).toNat = n ∧ UInt8.ofNat n = UInt8.ofNat (decodeOpN (smallIntegerByte n).toNat) ∧
    ((smallIntegerByte n).toNat = 0 ∨ (op1 ≤ (smallIntegerByte n).toNat ∧ (smallIntegerByte n).toNat ≤ op16)) := by
  decide

theorem getOp_smallInteger (hn : n ≤ 16) : getOp (smallIntegerByte n :: tl) = some ((smallIntegerByte n).toNat, [], tl) := by
  obtain ⟨-, -, -, hsmall⟩ := smallInteger_spec ⟨n, by omega⟩
  rcases hsmall with hzero | ⟨hlow, -⟩
  · have hb : smallIntegerByte n = 0 := UInt8.toNat_inj.mp hzero
    rw [hb]
    rfl
  · exact getOp_plain (lt_of_lt_of_le (by decide) hlow)

theorem smallInteger_of_getOp (h : getOp pc1 = some (opcode, vch1, tl))
    (hsmall : opcode = 0 ∨ (op1 ≤ opcode ∧ opcode ≤ op16)) :
    decodeOpN opcode ≤ 16 ∧ vch1 = [] ∧ pc1 = smallIntegerByte (decodeOpN opcode) :: tl := by
  rw [op1, op16] at hsmall
  rcases getOp_cases h with ⟨push, ⟨header, hheader, rfl⟩, rfl, hle, hhead⟩ | ⟨b, rfl, hplain, rfl, rfl⟩
  · have h0 : opcode = 0 := by
      rw [opPushData4] at hle
      omega
    rw [h0] at hhead ⊢
    rcases mem_pushHeaders.mp hheader with ⟨hn, rfl⟩ | ⟨-, rfl⟩ | ⟨-, rfl⟩ | ⟨-, rfl⟩
    · rw [opPushData1] at hn
      have hlength : vch1.length = 0 := by
        have := Option.some.inj hhead
        rwa [Element.toNat_ofNat_of_lt (by omega)] at this
      have hnil : vch1 = [] := List.eq_nil_of_length_eq_zero hlength
      rw [hnil]
      exact ⟨by decide, rfl, rfl⟩
    all_goals exact absurd (Option.some.inj hhead) (by decide)
  · rw [opPushData4] at hplain
    refine ⟨by unfold decodeOpN op1; omega, rfl, ?_⟩
    have hb : smallIntegerByte (decodeOpN b.toNat) = b := by
      unfold smallIntegerByte decodeOpN op1
      rw [if_neg (by omega), show 0x51 + (b.toNat - (0x51 - 1)) - 1 = b.toNat by omega, UInt8.ofNat_toNat]
    rw [hb]

theorem matchTemplate_smallInteger :
    matchTemplate (opSmallInteger :: pc2) pc1 vSolutions = some s ↔ ∃ n ≤ 16, ∃ tl, pc1 = smallIntegerByte n :: tl ∧
      matchTemplate pc2 tl (vSolutions ++ [[UInt8.ofNat n]]) = some s := by
  rw [matchTemplate_cons (by decide)]
  simp only [matchOpcode_smallInteger]
  constructor
  · rintro ⟨opcode1, vch1, tl, sols, hop, ⟨hsmall, rfl⟩, hrest⟩
    obtain ⟨hn, -, hpc⟩ := smallInteger_of_getOp hop hsmall
    exact ⟨_, hn, tl, hpc, hrest⟩
  · rintro ⟨n, hn, tl, rfl, hrest⟩
    obtain ⟨-, -, hbyte, hsmall⟩ := smallInteger_spec ⟨n, by omega⟩
    refine ⟨_, [], tl, _, getOp_smallInteger hn, ⟨hsmall, rfl⟩, ?_⟩
    rw [← hbyte]
    exact hrest

theorem takePubKeys_stop (fuel : Nat) (h : isPubKeySize st.vch1 = false) : takePubKeys fuel st = st := by
  cases fuel with
  | zero => rfl
  | succ fuel => rw [takePubKeys, h]; rfl

/-- The keys that are taken before a small number are pushes. By induction on the rounds. -/
theorem takePubKeys_sound (fuel : Nat) (hfuel : tl.length < fuel) (hop : getOp pc1 = some (opcode, vch1, tl))
    (hmatch : matchOpcode opSmallInteger (takePubKeys fuel ⟨opcode, vch1, tl, vSolutions⟩) = some sols) :
    ∃ keys pushes n, n ≤ 16 ∧ (∀ key ∈ keys, 33 ≤ key.length ∧ key.length ≤ 120) ∧ List.Forall₂ IsPushOf keys pushes ∧
      pc1 = pushes.flatten ++ smallIntegerByte n :: (takePubKeys fuel ⟨opcode, vch1, tl, vSolutions⟩).pc1 ∧
      sols = vSolutions ++ (keys ++ [[UInt8.ofNat n]]) := by
  induction fuel generalizing pc1 opcode vch1 tl vSolutions with
  | zero => exact absurd hfuel (Nat.not_lt_zero _)
  | succ fuel ih =>
    by_cases hkey : isPubKeySize vch1 = true
    · have hsize := of_decide_eq_true hkey
      obtain ⟨push, hpush, rfl, -, -⟩ | ⟨-, -, -, -, hnil⟩ := getOp_cases hop
      swap
      · rw [hnil] at hsize
        exact absurd hsize.1 (by decide)
      rw [takePubKeys, if_pos hkey] at hmatch ⊢
      cases hnext : getOp tl with
      | none =>
        rw [hnext] at hmatch
        obtain ⟨hsmall, -⟩ := matchOpcode_smallInteger.mp hmatch
        exact absurd hsmall (by dsimp only; decide)
      | some instr =>
        obtain ⟨opcode', vch', tl'⟩ := instr
        rw [hnext] at hmatch
        have hlt := length_of_getOp hnext
        obtain ⟨keys, pushes, n, hn, hkeys, hpushes, hpc, hsols⟩ := ih (by omega) hnext hmatch
        refine ⟨vch1 :: keys, push :: pushes, n, hn, ?_, .cons hpush hpushes, ?_, ?_⟩
        · intro key hmem
          rcases List.mem_cons.mp hmem with rfl | hmem
          · exact hsize
          · exact hkeys key hmem
        · rw [List.flatten_cons, List.append_assoc]
          exact congrArg (push ++ ·) hpc
        · rw [hsols, List.append_assoc]
          rfl
    · rw [takePubKeys_stop _ (by simpa using hkey)] at hmatch ⊢
      obtain ⟨hsmall, rfl⟩ := matchOpcode_smallInteger.mp hmatch
      obtain ⟨hn, -, hpc⟩ := smallInteger_of_getOp hop hsmall
      exact ⟨[], [], _, hn, fun key hmem => (nomatch hmem), .nil, hpc, rfl⟩

theorem takePubKeys_complete (hn : n ≤ 16) (hkeys : ∀ key ∈ keys, 33 ≤ key.length ∧ key.length ≤ 120)
    (hpushes : List.Forall₂ IsPushOf keys pushes)
    (hroom : (pushes.flatten ++ smallIntegerByte n :: tl).length < 2 ^ 32) :
    ∃ opcode1 vch1 pc, getOp (pushes.flatten ++ smallIntegerByte n :: tl) = some (opcode1, vch1, pc) ∧
      keys.length + tl.length ≤ pc.length ∧ ∀ fuel vSolutions, keys.length < fuel →
        takePubKeys fuel ⟨opcode1, vch1, pc, vSolutions⟩ = ⟨(smallIntegerByte n).toNat, [], tl, vSolutions ++ keys⟩ := by
  induction hpushes with
  | nil =>
    refine ⟨_, [], tl, getOp_smallInteger hn, Nat.le_of_eq (Nat.zero_add _), fun fuel vSolutions _ => ?_⟩
    rw [takePubKeys_stop fuel (rfl : isPubKeySize [] = false), List.append_nil]
  | @cons key push keys pushes hpush hpushes ih =>
    obtain ⟨hsize, hrestKeys⟩ := List.forall_mem_cons.mp hkeys
    rw [List.flatten_cons, List.append_assoc, List.length_append] at hroom
    obtain ⟨opcode1, vch1, pc, hnext, hlow, htake⟩ := ih hrestKeys (by omega)
    obtain ⟨c, -, -, hop⟩ := getOp_of_isPush hpush
      (show (key ++ (pushes.flatten ++ smallIntegerByte n :: tl)).length < 2 ^ 32 by
        have := length_of_isPush hpush
        rw [List.length_append]
        omega)
    rw [List.flatten_cons, List.append_assoc]
    refine ⟨c.toNat, key, _, hop, ?_, fun fuel vSolutions hfuel => ?_⟩
    · have := length_of_getOp hnext
      rw [List.length_cons]
      omega
    · obtain ⟨fuel, rfl⟩ := Nat.exists_eq_succ_of_ne_zero (Nat.ne_zero_of_lt hfuel)
      rw [takePubKeys, if_pos (show isPubKeySize key = true from decide_eq_true hsize), hnext]
      dsimp only
      rw [htake fuel _ (Nat.lt_of_succ_lt_succ hfuel), List.append_assoc]
      rfl

def headType (b : UInt8) : TxnOutType :=
  if b = 0 ∨ (0x51 ≤ b ∧ b ≤ 0x60) then .multisig
  else if b ≤ 0x4e then .pubkey
  else if b = 0x76 then .pubkeyhash
  else if b = 0xa9 then .scripthash
  else if b = 0x6a then .nullData
  else .nonstandard

theorem matchTemplate_pubkey (h : matchTemplate [opPubKey, opCheckSig] pc1 [] = some s) :
    IsInstance .pubkey s pc1 := by
  obtain ⟨key, push, tl, hsize, hpush, rfl, hrest⟩ := matchTemplate_push
    (P := fun vch => 33 ≤ vch.length ∧ vch.length ≤ 120) (by decide) (fun st s => matchOpcode_pubKey) (by decide) h
  obtain ⟨tl', rfl, hend⟩ := (matchTemplate_plain (b := 0xac) (by decide) (by decide)).mp hrest
  obtain ⟨rfl, rfl⟩ := matchTemplate_nil.mp hend
  exact .pubkey hsize.1 hsize.2 hpush

theorem matchTemplate_pubkeyhash
    (h : matchTemplate [opDup, opHash160, opPubKeyHash, opEqualVerify, opCheckSig] pc1 [] = some s) :
    IsInstance .pubkeyhash s pc1 := by
  obtain ⟨tl, rfl, h⟩ := (matchTemplate_plain (b := 0x76) (by decide) (by decide)).mp h
  obtain ⟨tl, rfl, h⟩ := (matchTemplate_plain (b := 0xa9) (by decide) (by decide)).mp h
  obtain ⟨hash, push, tl, hsize, hpush, rfl, h⟩ := matchTemplate_push
    (P := fun vch => vch.length = 20) (by decide) (fun st s => matchOpcode_pubKeyHash) (by decide) h
  obtain ⟨tl, rfl, h⟩ := (matchTemplate_plain (b := 0x88) (by decide) (by decide)).mp h
  obtain ⟨tl, rfl, h⟩ := (matchTemplate_plain (b := 0xac) (by decide) (by decide)).mp h
  obtain ⟨rfl, rfl⟩ := matchTemplate_nil.mp h
  exact .pubkeyhash hsize hpush

theorem matchTemplate_nullData (h : matchTemplate [opReturn, opSmallData] pc1 [] = some s) :
    IsInstance .nullData s pc1 := by
  obtain ⟨tl, rfl, hdata⟩ := (matchTemplate_plain (b := 0x6a) (by decide) (by decide)).mp h
  obtain ⟨opcode1, vch1, tl', sols, hop, hself, hend⟩ := (matchTemplate_cons (by decide)).mp hdata
  obtain ⟨hsize, rfl⟩ := matchOpcode_smallData.mp hself
  obtain ⟨rfl, rfl⟩ := matchTemplate_nil.mp hend
  rcases getOp_cases hop with ⟨push, hpush, rfl, -, -⟩ | ⟨b, -, hb, rfl, -⟩
  · rw [List.append_nil]
    exact .nullDataPush hsize hpush
  · exact .nullDataOpcode hb

theorem matchTemplate_return (h : matchTemplate [opReturn] pc1 [] = some s) : IsInstance .nullData s pc1 := by
  obtain ⟨tl, rfl, hend⟩ := (matchTemplate_plain (b := 0x6a) (by decide) (by decide)).mp h
  obtain ⟨rfl, rfl⟩ := matchTemplate_nil.mp hend
  exact .nullData

theorem matchTemplate_pubKeys (h : matchTemplate [opPubKeys, opSmallInteger, opCheckMultiSig] pc1 vSolutions = some s) :
    ∃ keys pushes n, n ≤ 16 ∧ (∀ key ∈ keys, 33 ≤ key.length ∧ key.length ≤ 120) ∧ List.Forall₂ IsPushOf keys pushes ∧
      pc1 = pushes.flatten ++ [smallIntegerByte n, 0xae] ∧ s = vSolutions ++ (keys ++ [[UInt8.ofNat n]]) := by
  rw [matchTemplate] at h
  cases hop : getOp pc1 with
  | none =>
    rw [hop] at h
    exact nomatch h
  | some instr =>
    obtain ⟨opcode1, vch1, tl⟩ := instr
    rw [hop] at h
    obtain ⟨sols, hself, hrest⟩ := Option.bind_eq_some_iff.mp
      (show (matchOpcode opSmallInteger (takePubKeys (tl.length + 1) ⟨opcode1, vch1, tl, vSolutions⟩)).bind
        (matchTemplate [opCheckMultiSig] (takePubKeys (tl.length + 1) ⟨opcode1, vch1, tl, vSolutions⟩).pc1)
        = some s from h)
    obtain ⟨keys, pushes, n, hn, hkeys, hpushes, hpc, rfl⟩ := takePubKeys_sound _ (Nat.lt_succ_self _) hop hself
    obtain ⟨tl', htl, hend⟩ := (matchTemplate_plain (b := 0xae) (by decide) (by decide)).mp hrest
    obtain ⟨rfl, rfl⟩ := matchTemplate_nil.mp hend
    rw [htl] at hpc
    exact ⟨keys, pushes, n, hn, hkeys, hpushes, hpc, rfl⟩

theorem multisigNumbersOk_iff {m : Nat} (hm : m ≤ 16) (hn : n ≤ 16) :
    multisigNumbersOk ([UInt8.ofNat m] :: (keys ++ [[UInt8.ofNat n]])) = true ↔ 1 ≤ m ∧ m ≤ n ∧ keys.length = n := by
  have hmByte : (UInt8.ofNat m).toNat = m := Element.toNat_ofNat_of_lt (by omega)
  have hnByte : (UInt8.ofNat n).toNat = n := Element.toNat_ofNat_of_lt (by omega)
  have hlast : ([UInt8.ofNat m] :: (keys ++ [[UInt8.ofNat n]])).getLast? = some [UInt8.ofNat n] := by
    rw [← List.cons_append, List.getLast?_concat]
  unfold multisigNumbersOk
  rw [hlast]
  simp only [List.head?_cons, Option.bind_some, Option.getD_some, hmByte, hnByte, decide_eq_true_eq, List.length_cons,
    List.length_append, List.length_nil]
  omega

theorem matchTemplate_multisig
    (h : matchTemplate [opSmallInteger, opPubKeys, opSmallInteger, opCheckMultiSig] pc1 [] = some s)
    (hnumbers : multisigNumbersOk s = true) : IsInstance .multisig s pc1 := by
  obtain ⟨m, hm, tl, rfl, hrest⟩ := matchTemplate_smallInteger.mp h
  obtain ⟨keys, pushes, n, hn, hkeys, hpushes, rfl, rfl⟩ := matchTemplate_pubKeys hrest
  obtain ⟨hm1, hmn, hlength⟩ := (multisigNumbersOk_iff hm hn).mp hnumbers
  exact .multisig hm1 hmn hn hlength hkeys hpushes

theorem head_of_push (h : IsPushOf data push) :
    ∃ c size, push = c :: size ∧ c.toNat ≤ opPushData4 ∧ push.length ≤ data.length + 5 ∧ (data ≠ [] → c ≠ 0) := by
  obtain ⟨header, hheader, rfl⟩ := h
  rcases mem_pushHeaders.mp hheader with ⟨hn, rfl⟩ | ⟨-, rfl⟩ | ⟨-, rfl⟩ | ⟨-, rfl⟩
  · rw [opPushData1] at hn
    have hc : (UInt8.ofNat data.length).toNat = data.length := Element.toNat_ofNat_of_lt (by omega)
    refine ⟨_, _, rfl, by rw [hc, opPushData4]; omega, by simp, fun hne hzero => ?_⟩
    rw [hzero] at hc
    exact hne (List.eq_nil_of_length_eq_zero hc.symm)
  · exact ⟨_, _, rfl, by decide, by simp [LittleEndian.ofNat], fun _ => by decide⟩
  · exact ⟨_, _, rfl, by decide, by simp [LittleEndian.ofNat], fun _ => by decide⟩
  · exact ⟨_, _, rfl, by decide, by simp [LittleEndian.ofNat], fun _ => by decide⟩

theorem length_pushes_le (h : List.Forall₂ IsPushOf keys pushes)
    (hkeys : ∀ key ∈ keys, 33 ≤ key.length ∧ key.length ≤ 120) : pushes.flatten.length ≤ 125 * keys.length := by
  induction h with
  | nil => rfl
  | @cons key push keys pushes hpush hpushes ih =>
    obtain ⟨hsize, hrest⟩ := List.forall_mem_cons.mp hkeys
    obtain ⟨-, -, -, -, hlength, -⟩ := head_of_push hpush
    have := ih hrest
    rw [List.flatten_cons, List.length_append, List.length_cons]
    omega

theorem headType_push (hb : b.toNat ≤ opPushData4) (hne : b ≠ 0) : headType b = .pubkey := by
  have hle : b ≤ 0x4e := UInt8.le_iff_toNat_le.mpr hb
  have hlow : ¬(b = 0 ∨ (0x51 ≤ b ∧ b ≤ 0x60)) := by
    rintro (hzero | ⟨hge, -⟩)
    · exact hne hzero
    · exact absurd (UInt8.le_trans hge hle) (by decide)
  rw [headType, if_neg hlow, if_pos hle]

theorem headType_smallInteger : ∀ n : Fin 17, headType (smallIntegerByte n) = .multisig := by
  decide

theorem IsInstance.head (h : IsInstance t s script) : script.head?.map headType = some t := by
  cases h with
  | @pubkey key push hlow _ hpush =>
    obtain ⟨c, size, rfl, hc, -, hne⟩ := head_of_push hpush
    have hkey : key ≠ [] := by
      rintro rfl
      exact absurd hlow (by decide)
    exact congrArg some (headType_push hc (hne hkey))
  | @multisig m n _ _ _ hmn hn =>
    exact congrArg some (headType_smallInteger ⟨m, by omega⟩)
  | pubkeyhash => rfl
  | scripthash => rfl
  | nullData => rfl
  | nullDataPush => rfl
  | nullDataOpcode => rfl

theorem instance_of_match (hmem : tplate ∈ mTemplates) (h : matchTemplate tplate.2 script [] = some s)
    (hnumbers : tplate.1 = .multisig → multisigNumbersOk s = true) : IsInstance tplate.1 s script := by
  simp only [mTemplates, List.mem_cons, List.not_mem_nil, or_false] at hmem
  rcases hmem with rfl | rfl | rfl | rfl | rfl
  · exact matchTemplate_pubkey h
  · exact matchTemplate_pubkeyhash h
  · exact matchTemplate_multisig h (hnumbers rfl)
  · exact matchTemplate_nullData h
  · exact matchTemplate_return h

theorem head_of_match (hmem : tplate ∈ mTemplates) (h : matchTemplate tplate.2 script [] = some s)
    : script.head?.map headType = some tplate.1 := by
  by_cases hmultisig : tplate.1 = .multisig
  · simp only [mTemplates, List.mem_cons, List.not_mem_nil, or_false] at hmem
    rcases hmem with rfl | rfl | rfl | rfl | rfl
    case inr.inr.inl =>
      obtain ⟨m, hm, tl, rfl, -⟩ := matchTemplate_smallInteger.mp h
      exact congrArg some (headType_smallInteger ⟨m, by omega⟩)
    all_goals exact nomatch hmultisig
  · exact (instance_of_match hmem h fun heq => absurd heq hmultisig).head

theorem match_of_instance (h : IsInstance t s script) (ht : t ≠ .scripthash) :
    ∃ tplate ∈ mTemplates, tplate.1 = t ∧ matchTemplate tplate.2 script [] = some s := by
  cases h with
  | @pubkey key push hlow hhigh hpush =>
    refine ⟨(.pubkey, [opPubKey, opCheckSig]), by decide, rfl, ?_⟩
    refine matchTemplate_of_push (P := fun vch => 33 ≤ vch.length ∧ vch.length ≤ 120) (by decide)
      (fun st s => matchOpcode_pubKey) ⟨hlow, hhigh⟩ hpush (by rw [List.length_append, List.length_singleton]; omega) ?_
    exact (matchTemplate_plain (b := 0xac) (by decide) (by decide)).mpr ⟨[], rfl, rfl⟩
  | @pubkeyhash hash push hlength hpush =>
    refine ⟨(.pubkeyhash, [opDup, opHash160, opPubKeyHash, opEqualVerify, opCheckSig]), by decide, rfl, ?_⟩
    refine (matchTemplate_plain (b := 0x76) (by decide) (by decide)).mpr ⟨_, rfl, ?_⟩
    refine (matchTemplate_plain (b := 0xa9) (by decide) (by decide)).mpr ⟨_, rfl, ?_⟩
    refine matchTemplate_of_push (P := fun vch => vch.length = 20) (by decide) (fun st s => matchOpcode_pubKeyHash)
      hlength hpush (by rw [List.length_append, hlength]; decide) ?_
    refine (matchTemplate_plain (b := 0x88) (by decide) (by decide)).mpr ⟨_, rfl, ?_⟩
    exact (matchTemplate_plain (b := 0xac) (by decide) (by decide)).mpr ⟨[], rfl, rfl⟩
  | scripthash => exact absurd rfl ht
  | @multisig m n keys pushes hm hmn hn hlength hkeys hpushes =>
    refine ⟨(.multisig, [opSmallInteger, opPubKeys, opSmallInteger, opCheckMultiSig]), by decide, rfl, ?_⟩
    refine matchTemplate_smallInteger.mpr ⟨m, by omega, _, rfl, ?_⟩
    have hroom := length_pushes_le hpushes hkeys
    obtain ⟨opcode1, vch1, pc, hop, hlow, htake⟩ := takePubKeys_complete hn hkeys hpushes
      (show (pushes.flatten ++ smallIntegerByte n :: [0xae]).length < 2 ^ 32 by
        rw [List.length_append, List.length_cons, List.length_singleton]
        omega)
    rw [List.length_singleton] at hlow
    obtain ⟨-, -, hbyte, hsmall⟩ := smallInteger_spec ⟨n, by omega⟩
    rw [matchTemplate, hop]
    show (matchOpcode opSmallInteger (takePubKeys (pc.length + 1) ⟨opcode1, vch1, pc, [[UInt8.ofNat m]]⟩)).bind
      (matchTemplate [opCheckMultiSig] (takePubKeys (pc.length + 1) ⟨opcode1, vch1, pc, [[UInt8.ofNat m]]⟩).pc1) = _
    rw [htake _ _ (by omega), matchOpcode_smallInteger.mpr ⟨hsmall, rfl⟩]
    refine (matchTemplate_plain (b := 0xae) (by decide) (by decide)).mpr ⟨[], rfl, matchTemplate_nil.mpr ⟨rfl, ?_⟩⟩
    rw [← hbyte, List.append_assoc]
    rfl
  | nullData => exact ⟨(.nullData, [opReturn]), by decide, rfl, rfl⟩
  | @nullDataPush data push hsize hpush =>
    refine ⟨(.nullData, [opReturn, opSmallData]), by decide, rfl, ?_⟩
    refine (matchTemplate_plain (b := 0x6a) (by decide) (by decide)).mpr ⟨_, rfl, ?_⟩
    obtain ⟨c, -, -, hop⟩ := getOp_of_isPush hpush
      (show (data ++ []).length < 2 ^ 32 by
        rw [List.append_nil]
        omega)
    rw [List.append_nil] at hop
    exact (matchTemplate_cons (by decide)).mpr ⟨_, _, _, _, hop, matchOpcode_smallData.mpr ⟨hsize, rfl⟩, rfl⟩
  | @nullDataOpcode b hb =>
    refine ⟨(.nullData, [opReturn, opSmallData]), by decide, rfl, ?_⟩
    refine (matchTemplate_plain (b := 0x6a) (by decide) (by decide)).mpr ⟨_, rfl, ?_⟩
    exact (matchTemplate_cons (by decide)).mpr
      ⟨_, _, _, _, getOp_plain hb, matchOpcode_smallData.mpr ⟨Nat.zero_le _, rfl⟩, rfl⟩

theorem match_unique {tplate' : TxnOutType × List Nat} (hmem : tplate ∈ mTemplates) (hmem' : tplate' ∈ mTemplates)
    (htype : tplate.1 = tplate'.1) (h : matchTemplate tplate.2 script [] = some sols)
    (h' : matchTemplate tplate'.2 script [] = some s) : sols = s := by
  by_cases hnull : tplate.1 = .nullData
  · have hnil : ∀ {tplate : TxnOutType × List Nat} {sols : List (List UInt8)}, tplate ∈ mTemplates →
        tplate.1 = .nullData → matchTemplate tplate.2 script [] = some sols → sols = [] := by
      intro tplate sols hmem hnull h
      have hinst := instance_of_match hmem h fun hmultisig => nomatch hnull.symm.trans hmultisig
      rw [hnull] at hinst
      cases hinst <;> rfl
    rw [hnil hmem hnull h, hnil hmem' (htype ▸ hnull) h']
  · have hone : ∀ tplate ∈ mTemplates, ∀ tplate' ∈ mTemplates, tplate.1 ≠ .nullData → tplate.1 = tplate'.1 →
        tplate = tplate' := by decide
    obtain rfl := hone tplate hmem tplate' hmem' hnull htype
    exact Option.some.inj (h.symm.trans h')

theorem solver_scripthash {hash : List UInt8} (hlength : hash.length = 20) :
    solver (0xa9 :: 0x14 :: (hash ++ [0x87])) = some (.scripthash, [hash]) := by
  have htake : (hash ++ [(0x87 : UInt8)]).take 20 = hash := by rw [← hlength, List.take_left]
  have hlast : (hash ++ [(0x87 : UInt8)])[20]? = some 0x87 := by rw [← hlength, List.getElem?_concat_length]
  have hp2sh : isPayToScriptHash (0xa9 :: 0x14 :: (hash ++ [0x87])) = true := by
    unfold isPayToScriptHash
    have h22 : (0xa9 :: 0x14 :: (hash ++ [0x87]) : List UInt8)[22]? = some 0x87 := hlast
    rw [List.length_cons, List.length_cons, List.length_append, hlength, h22]
    rfl
  rw [solver, if_pos hp2sh]
  exact congrArg (fun data => some (TxnOutType.scripthash, [data])) htake

theorem instance_of_solver (h : solver script = some (t, s)) : IsInstance t s script := by
  by_cases hp2sh : script.isPayToScriptHash = true
  · obtain ⟨hash, hlength, rfl⟩ := isPayToScriptHash_eq hp2sh
    rw [solver_scripthash hlength] at h
    obtain ⟨rfl, rfl⟩ := Prod.mk.inj (Option.some.inj h)
    exact .scripthash hlength
  · rw [solver, if_neg hp2sh] at h
    cases hfound : mTemplates.findSome? fun tplate =>
        (matchTemplate tplate.2 script []).map fun vSolutions => (tplate.1, vSolutions) with
    | none => exact absurd h (by simp [hfound])
    | some found =>
      obtain ⟨tplate, hmem, hmap⟩ := List.exists_of_findSome?_eq_some hfound
      obtain ⟨vSolutions, hmatch, rfl⟩ := Option.map_eq_some_iff.mp hmap
      rw [hfound] at h
      dsimp only at h
      split_ifs at h with hnumbers
      obtain ⟨rfl, rfl⟩ := Prod.mk.inj (Option.some.inj h)
      exact instance_of_match hmem hmatch fun htype => not_not.mp fun hno => hnumbers ⟨htype, hno⟩

theorem solver_of_instance (h : IsInstance t s script) : solver script = some (t, s) := by
  by_cases ht : t = .scripthash
  · subst ht
    cases h with
    | scripthash hlength => exact solver_scripthash hlength
  · have hp2sh : ¬script.isPayToScriptHash = true := by
      intro hp2sh
      obtain ⟨hash, -, rfl⟩ := isPayToScriptHash_eq hp2sh
      exact ht (Option.some.inj (h.head.symm.trans (rfl : _ = some TxnOutType.scripthash)))
    obtain ⟨tplate, hmem, rfl, hmatch⟩ := match_of_instance h ht
    rw [solver, if_neg hp2sh]
    cases hfound : mTemplates.findSome? fun tplate =>
        (matchTemplate tplate.2 script []).map fun vSolutions => (tplate.1, vSolutions) with
    | none =>
      have hnone := List.findSome?_eq_none_iff.mp hfound tplate hmem
      rw [hmatch] at hnone
      cases hnone
    | some found =>
      obtain ⟨tplate', hmem', hmap⟩ := List.exists_of_findSome?_eq_some hfound
      obtain ⟨vSolutions, hmatch', rfl⟩ := Option.map_eq_some_iff.mp hmap
      have htype : tplate'.1 = tplate.1 := Option.some.inj ((head_of_match hmem' hmatch').symm.trans h.head)
      obtain rfl := match_unique hmem' hmem htype hmatch' hmatch
      dsimp only
      rw [htype, if_neg]
      rintro ⟨hmultisig, hnumbers⟩
      rw [hmultisig] at h
      cases h with
      | multisig hm hmn hn hlength =>
        exact hnumbers ((multisigNumbersOk_iff (by omega) hn).mpr ⟨hm, hmn, hlength⟩)

theorem solver_iff : solver script = some (t, s) ↔ IsInstance t s script :=
  ⟨instance_of_solver, solver_of_instance⟩

end Template

end CScript

open Smsg (CKeyID keyIDBytes keyIDOfBytes pubKeyOfBytes)

section Destination

variable {getID : CPubKey → CKeyID}

theorem isPushOf_keyIDBytes (id : CKeyID) : CScript.IsPushOf (keyIDBytes id) (CScript.pushUInt160 id) := by
  refine ⟨[20], CScript.mem_pushHeaders.mpr (.inl ?_), rfl⟩
  rw [Smsg.length_keyIDBytes]
  exact ⟨by decide, rfl⟩

theorem solver_keyID (id : CKeyID) :
    CScript.solver (CScript.getScriptForDestination (.keyID id)) = some (.pubkeyhash, [keyIDBytes id]) := by
  have h := CScript.IsInstance.pubkeyhash (Smsg.length_keyIDBytes id) (isPushOf_keyIDBytes id)
  exact CScript.solver_of_instance h

theorem solver_scriptID (id : CKeyID) :
    CScript.solver (CScript.getScriptForDestination (.scriptID id)) = some (.scripthash, [keyIDBytes id]) :=
  CScript.solver_of_instance (.scripthash (Smsg.length_keyIDBytes id))

theorem extractDestination_roundTrip (d : CTxDestination) :
    extractDestination getID (CScript.getScriptForDestination d) = some d ↔
      ∃ id, d = .keyID id ∨ d = .scriptID id := by
  cases d with
  | none => exact ⟨fun h => (nomatch h), fun ⟨_, h⟩ => (by rcases h with h | h <;> exact nomatch h)⟩
  | stealth addr => exact ⟨fun h => (nomatch h), fun ⟨_, h⟩ => (by rcases h with h | h <;> exact nomatch h)⟩
  | keyID id =>
    refine ⟨fun _ => ⟨id, .inl rfl⟩, fun _ => ?_⟩
    rw [extractDestination, solver_keyID]
    exact congrArg (some ∘ CTxDestination.keyID) (Smsg.keyIDOfBytes_keyIDBytes id)
  | scriptID id =>
    refine ⟨fun _ => ⟨id, .inr rfl⟩, fun _ => ?_⟩
    rw [extractDestination, solver_scriptID]
    exact congrArg (some ∘ CTxDestination.scriptID) (Smsg.keyIDOfBytes_keyIDBytes id)

variable {key : CPubKey} {keys : List CPubKey} {m : Nat}

theorem length_of_isValid (h : pubKeyOfBytes key = key) (hvalid : Smsg.pubKeyIsValid key = true) :
    key.length = 33 ∨ key.length = 65 := by
  have hpos : 0 < key.length := of_decide_eq_true hvalid
  cases key with
  | nil => exact absurd hpos (Nat.lt_irrefl 0)
  | cons chHeader rest =>
    have hlength : Smsg.getLen chHeader = (chHeader :: rest).length := by
      by_contra hne
      rw [pubKeyOfBytes, List.head?_cons] at h
      dsimp only at h
      rw [if_neg hne] at h
      cases h
    rw [Smsg.getLen] at hlength
    split_ifs at hlength with h2 h4
    · exact .inl hlength.symm
    · exact .inr hlength.symm

theorem pushPubKey_of_isValid (h : pubKeyOfBytes key = key) (hvalid : Smsg.pubKeyIsValid key = true) :
    CScript.pushPubKey key = some (CScript.pushData key) ∧ CScript.IsPushOf key (CScript.pushData key) := by
  have hlt : key.length < CScript.opPushData1 := by
    rw [CScript.opPushData1]
    rcases length_of_isValid h hvalid with h33 | h65 <;> omega
  have hpush : CScript.pushData key = UInt8.ofNat key.length :: key := if_pos hlt
  rw [hpush]
  exact ⟨if_pos hlt, [UInt8.ofNat key.length], CScript.mem_pushHeaders.mpr (.inl ⟨hlt, rfl⟩), rfl⟩

theorem encodeOpN_eq {n : Nat} (hn : n ≤ 16) : CScript.encodeOpN n = some (CScript.smallIntegerByte n) := if_pos hn

theorem setMultisig_of_isValid (hkeys : ∀ key ∈ keys, pubKeyOfBytes key = key ∧ Smsg.pubKeyIsValid key = true)
    (hm : m ≤ 16) (hn : keys.length ≤ 16) : CScript.setMultisig m keys = CScript.getScriptForMultisig m keys := by
  have hpushes : keys.mapM CScript.pushPubKey = some (keys.map CScript.pushData) := by
    induction keys with
    | nil => rfl
    | cons key keys ih =>
      obtain ⟨⟨hkey, hvalid⟩, hrest⟩ := List.forall_mem_cons.mp hkeys
      rw [List.mapM_cons, (pushPubKey_of_isValid hkey hvalid).1, ih hrest (by rw [List.length_cons] at hn; omega)]
      rfl
  rw [CScript.setMultisig, CScript.getScriptForMultisig, encodeOpN_eq hm, encodeOpN_eq hn, hpushes]
  rfl

theorem extractDestinations_multisig (hkeys : ∀ key ∈ keys, pubKeyOfBytes key = key ∧ Smsg.pubKeyIsValid key = true)
    (hm : 1 ≤ m) (hmn : m ≤ keys.length) (hn : keys.length ≤ 16) :
    (CScript.getScriptForMultisig m keys).bind (extractDestinations getID)
      = some (.multisig, keys.map fun key => .keyID (getID key), m) := by
  have hsize : ∀ key ∈ keys, 33 ≤ key.length ∧ key.length ≤ 120 := by
    intro key hkey
    rcases length_of_isValid (hkeys key hkey).1 (hkeys key hkey).2 with h33 | h65 <;> omega
  have hpushes : List.Forall₂ CScript.IsPushOf keys (keys.map CScript.pushData) := by
    rw [List.forall₂_map_right_iff, List.forall₂_same]
    exact fun key hkey => (pushPubKey_of_isValid (hkeys key hkey).1 (hkeys key hkey).2).2
  have hsolver := CScript.solver_of_instance (.multisig hm hmn hn rfl hsize hpushes)
  have hmByte : (UInt8.ofNat m).toNat = m := CScript.Element.toNat_ofNat_of_lt (by omega)
  have hids : keys.map (fun key => CTxDestination.keyID (getID (pubKeyOfBytes key)))
      = keys.map fun key => CTxDestination.keyID (getID key) := by
    refine List.map_congr_left fun key hkey => ?_
    rw [(hkeys key hkey).1]
  rw [CScript.getScriptForMultisig, encodeOpN_eq (hmn.trans hn), encodeOpN_eq hn]
  show extractDestinations getID (CScript.smallIntegerByte m :: _) = _
  rw [extractDestinations, hsolver]
  show some (TxnOutType.multisig, ((keys ++ [[UInt8.ofNat keys.length]]).dropLast).map _, (UInt8.ofNat m).toNat) = _
  rw [List.dropLast_concat, hids, hmByte]

end Destination

/-- `Solver` gives a script a type and solutions exactly where it is an instance of the template of the type; key ids
and script ids are the destinations that come back from their scripts; the script of `m` of up to sixteen valid keys,
however it is made, gives `m` and the ids of the keys in order. -/
theorem solver_destinations (getID : CPubKey → CKeyID) :
    (∀ t sols script, CScript.solver script = some (t, sols) ↔ CScript.IsInstance t sols script) ∧
    (∀ d, extractDestination getID (CScript.getScriptForDestination d) = some d ↔ ∃ id, d = .keyID id ∨ d = .scriptID id) ∧
    ∀ m keys, (∀ key ∈ keys, pubKeyOfBytes key = key ∧ Smsg.pubKeyIsValid key = true) → 1 ≤ m → m ≤ keys.length →
      keys.length ≤ 16 → CScript.setMultisig m keys = CScript.getScriptForMultisig m keys ∧
        (CScript.getScriptForMultisig m keys).bind (extractDestinations getID)
          = some (.multisig, keys.map fun key => .keyID (getID key), m) := by
  refine ⟨fun _ _ _ => CScript.solver_iff, extractDestination_roundTrip, fun m keys hkeys hm hmn hn => ⟨?_, ?_⟩⟩
  · exact setMultisig_of_isValid hkeys (hmn.trans hn) hn
  · exact extractDestinations_multisig hkeys hm hmn hn

theorem solver_destinations_multisig :
    ((CScript.getScriptForMultisig 1 [2 :: List.replicate 32 7, 3 :: List.replicate 32 9]).bind
        (extractDestinations fun key => BitVec.ofNat 160 key.length))
      = some (.multisig, [.keyID 33, .keyID 33], 1) :=
  ((solver_destinations fun key => BitVec.ofNat 160 key.length).2.2 1 [2 :: List.replicate 32 7, 3 :: List.replicate 32 9]
    (by decide) (by decide) (by decide) (by decide)).2

/-- A push of 66 bytes counts as a key; no destination and a list of no keys do not come back. -/
theorem solver_longKey :
    CScript.solver (66 :: (List.replicate 66 0 ++ [0xac])) = some (.pubkey, [List.replicate 66 0]) ∧
    (∀ getID, extractDestination getID (CScript.getScriptForDestination .none) = none) ∧
    ∀ getID, (CScript.getScriptForMultisig 1 []).bind (extractDestinations getID) = none := by
  refine ⟨?_, fun _ => rfl, fun _ => rfl⟩
  have hpush : CScript.IsPushOf (List.replicate 66 0) (66 :: List.replicate 66 0) :=
    ⟨[66], by decide, rfl⟩
  exact CScript.solver_of_instance (.pubkey (by decide) (by decide) hpush)

end PupaCoin
