import PupaCoin.Script.Encoding
import Mathlib.Tactic

/-!
# Encodings of keys and signatures: proofs
-/

namespace PupaCoin

open Memory

section Reads

variable {vchSig : List UInt8}

theorem getD_drop (pos i : Nat) : (vchSig.drop pos).getD i 0 = vchSig.getD (pos + i) 0 := by
  rw [List.getD_eq_getElem?_getD, List.getD_eq_getElem?_getD, List.getElem?_drop]

theorem readDERNumber_eq {pos nLen : Nat} (hin : pos + nLen ≤ vchSig.length) (htype : pos - 2 < vchSig.length) :
    readDERNumber vchSig pos nLen
      = .ok (isDERNumber (vchSig.getD (pos - 2) 0) nLen (vchSig.drop pos)) := by
  unfold readDERNumber isDERNumber
  rw [read_of_lt htype 0, getD_drop, getD_drop, Nat.add_zero]
  simp only [bind, Except.bind, pure, Except.pure]
  generalize vchSig.getD (pos - 2) 0 = type
  by_cases h2 : type = 0x02
  swap
  · simp [h2]
  by_cases h0 : nLen = 0
  · simp [h2, h0]
  rw [read_of_lt (show pos < vchSig.length by omega) 0]
  generalize vchSig.getD pos 0 = first
  by_cases hneg : 0x80 ≤ first
  · simp [h2, h0, hneg]
  by_cases hpad : 1 < nLen ∧ first = 0
  · rw [read_of_lt (show pos + 1 < vchSig.length by omega) 0]
    generalize vchSig.getD (pos + 1) 0 = second
    by_cases hsecond : second < 0x80
    · simp [h2, h0, hpad, hsecond, UInt8.not_le.mpr hsecond]
    · simp [h2, h0, hpad, hsecond, UInt8.not_lt.mp hsecond]
  · have hfine : (decide (1 < nLen) && first == 0) = false := by simpa using hpad
    simp [h2, h0, hneg, hpad, hfine, UInt8.not_le.mp hneg]

theorem readDERSignature_eq (vchSig : List UInt8) (haveHashType : Bool) :
    readDERSignature vchSig haveHashType = .ok (isDERSignature vchSig haveHashType) := by
  unfold readDERSignature isDERSignature
  simp only [bind, Except.bind, pure, Except.pure]
  by_cases h9 : vchSig.length < 9
  · simp [h9]
  by_cases h73 : vchSig.length > 73
  · simp [h73]
  have hread : ∀ i, i < 9 → read vchSig i = .ok (vchSig.getD i 0) := fun i hi => read_of_lt (by omega) 0
  rw [hread 0 (by decide), hread 1 (by decide), hread 3 (by decide), if_neg h9, if_neg h73]
  dsimp only
  generalize vchSig.getD 0 0 = type
  generalize (vchSig.getD 1 0).toNat = len
  generalize (vchSig.getD 3 0).toNat = nLenR
  generalize hwidth : (if haveHashType = true then 7 else 6) = width
  have hsix : 6 ≤ width := by
    rw [← hwidth]
    split_ifs <;> decide
  by_cases htype : type = 0x30
  swap
  · simp [htype]
  by_cases hlen : len = vchSig.length - if haveHashType = true then 3 else 2
  swap
  · simp [hlen]
  by_cases hS : vchSig.length ≤ 5 + nLenR
  · simp [htype, hlen, hS, Nat.not_lt.mpr hS]
  rw [read_of_lt (Nat.not_le.mp hS) 0]
  dsimp only
  generalize (vchSig.getD (5 + nLenR) 0).toNat = nLenS
  by_cases htotal : nLenR + nLenS + width = vchSig.length
  swap
  · simp [htype, hlen, hS, htotal]
  have hR := readDERNumber_eq (show 4 + nLenR ≤ vchSig.length by omega) (by omega)
  have hNumS := readDERNumber_eq (show 6 + nLenR + nLenS ≤ vchSig.length by omega) (by omega)
  have hpos : 6 + nLenR - 2 = 4 + nLenR := by omega
  rw [hpos] at hNumS
  rw [hR, hNumS]
  dsimp only
  generalize isDERNumber (vchSig.getD (4 - 2) 0) nLenR (vchSig.drop 4) = okR
  have hin : 9 ≤ vchSig.length ∧ vchSig.length ≤ 73 ∧ 5 + nLenR < vchSig.length := by omega
  cases okR <;> simp [htype, hlen, htotal, hin]

end Reads

theorem isDERNumber_iff {type : UInt8} {nLen : Nat} {number : List UInt8} (hle : nLen ≤ number.length) :
    isDERNumber type nLen number = true ↔ type = 0x02 ∧ IsDERInteger (number.take nLen) := by
  have hget : ∀ i, i < nLen → (number.take nLen).getD i 0 = number.getD i 0 := by
    intro i hi
    rw [List.getD_eq_getElem?_getD, List.getD_eq_getElem?_getD, List.getElem?_take_of_lt hi]
  have hlength : (number.take nLen).length = nLen := List.length_take_of_le hle
  unfold isDERNumber IsDERInteger
  rw [← List.length_pos_iff, hlength]
  by_cases h0 : nLen = 0
  · simp [h0]
  rw [hget 0 (by omega)]
  by_cases h1 : 1 < nLen
  · rw [hget 1 h1]
    generalize number.getD 0 0 = first
    generalize number.getD 1 0 = second
    by_cases hsecond : second < 0x80
    · simp [h0, h1, Nat.pos_of_ne_zero h0, and_assoc, hsecond, UInt8.not_le.mpr hsecond]
    · simp [h0, h1, Nat.pos_of_ne_zero h0, hsecond, UInt8.not_lt.mp hsecond]
  · generalize number.getD 0 0 = first
    simp [h0, h1, Nat.pos_of_ne_zero h0]

section Grammar

variable {vchSig : List UInt8} {haveHashType : Bool}

theorem isDERSignature_parts (a b c d lenR lenS : UInt8) (R rest : List UInt8) (hR : lenR.toNat = R.length)
    (h : vchSig = a :: b :: c :: lenR :: (R ++ d :: lenS :: rest)) : isDERSignature vchSig haveHashType = true ↔
      9 ≤ vchSig.length ∧ vchSig.length ≤ 73 ∧ a = 0x30 ∧ b.toNat = vchSig.length - (if haveHashType then 3 else 2) ∧
        R.length + lenS.toNat + (if haveHashType then 7 else 6) = vchSig.length ∧
        isDERNumber c R.length (R ++ d :: lenS :: rest) = true ∧ isDERNumber d lenS.toNat rest = true := by
  have hlength : vchSig.length = R.length + rest.length + 6 := by
    rw [h]
    simp only [List.length_cons, List.length_append]
    omega
  have h0 : vchSig.getD 0 0 = a := by rw [h]; rfl
  have h1 : vchSig.getD 1 0 = b := by rw [h]; rfl
  have h2 : vchSig.getD 2 0 = c := by rw [h]; rfl
  have h3 : vchSig.getD 3 0 = lenR := by rw [h]; rfl
  have hbehind : vchSig.drop (4 + R.length) = d :: lenS :: rest := by
    rw [h, ← List.drop_drop]
    exact List.drop_left
  have hd : vchSig.getD (4 + R.length) 0 = d := by
    rw [← Nat.add_zero (4 + R.length), ← getD_drop, hbehind]
    rfl
  have hlenS : vchSig.getD (5 + R.length) 0 = lenS := by
    rw [show 5 + R.length = 4 + R.length + 1 by omega, ← getD_drop, hbehind]
    rfl
  have hrest : vchSig.drop (6 + R.length) = rest := by
    rw [show 6 + R.length = 4 + R.length + 2 by omega, ← List.drop_drop, hbehind]
    rfl
  have hdrop : vchSig.drop 4 = R ++ d :: lenS :: rest := by rw [h]; rfl
  have hroom : 5 + R.length < vchSig.length := by omega
  simp only [isDERSignature]
  rw [h0, h1, h2, h3, hR, hlenS, hd, hrest, hdrop]
  simp [and_assoc, hroom]

theorem exists_parts (h : isDERSignature vchSig haveHashType = true) :
    ∃ (a b c d lenR lenS : UInt8) (R rest : List UInt8), lenR.toNat = R.length ∧
      vchSig = a :: b :: c :: lenR :: (R ++ d :: lenS :: rest) := by
  simp only [isDERSignature, Bool.and_eq_true, decide_eq_true_eq] at h
  obtain ⟨⟨⟨⟨⟨⟨⟨h9, -⟩, -⟩, -⟩, hroom⟩, -⟩, -⟩, -⟩ := h
  match vchSig with
  | [] | [_] | [_, _] | [_, _, _] =>
    simp only [List.length_cons, List.length_nil] at h9
    omega
  | a :: b :: c :: lenR :: body =>
    have hlenR : (a :: b :: c :: lenR :: body).getD 3 0 = lenR := rfl
    rw [hlenR] at hroom
    simp only [List.length_cons] at hroom
    match hrest : body.drop lenR.toNat with
    | [] | [_] =>
      have := congrArg List.length hrest
      rw [List.length_drop] at this
      simp only [List.length_cons, List.length_nil] at this
      omega
    | d :: lenS :: rest =>
      refine ⟨a, b, c, d, lenR, lenS, body.take lenR.toNat, rest, ?_, ?_⟩
      · rw [List.length_take]
        omega
      · rw [← hrest, List.take_append_drop]

theorem isDERSignature_iff_strict : isDERSignature vchSig haveHashType = true ↔
      9 ≤ vchSig.length ∧ vchSig.length ≤ 73 ∧
        ∃ tail : List UInt8, tail.length = (if haveHashType then 1 else 0) ∧ IsStrictDER vchSig tail := by
  have hwidth : (if haveHashType then 7 else 6) = 6 + if haveHashType then 1 else 0 := by
    cases haveHashType <;> rfl
  constructor
  · intro h
    obtain ⟨a, b, c, d, lenR, lenS, R, rest, hR, heq⟩ := exists_parts h
    obtain ⟨h9, h73, rfl, hb, htotal, hnumR, hnumS⟩ := (isDERSignature_parts a b c d lenR lenS R rest hR heq).mp h
    have hlength : vchSig.length = R.length + rest.length + 6 := by
      rw [heq]
      simp only [List.length_cons, List.length_append]
      omega
    obtain ⟨rfl, hintR⟩ := (isDERNumber_iff (by simp)).mp hnumR
    obtain ⟨rfl, hintS⟩ := (isDERNumber_iff (by omega)).mp hnumS
    rw [List.take_left] at hintR
    have hS : (rest.take lenS.toNat).length = lenS.toNat := List.length_take_of_le (by omega)
    refine ⟨h9, h73, rest.drop lenS.toNat, ?_, 
      b, lenR, lenS, R, rest.take lenS.toNat, ?_, ?_, hR, hS.symm, hintR, hintS⟩
    · rw [List.length_drop]
      omega
    · rw [List.take_append_drop]
      exact heq
    · rw [hb, hS]
      cases haveHashType <;> simp at htotal ⊢ <;> omega
  · rintro ⟨h9, h73, tail, htail, len, lenR, lenS, R, S, heq, hlen, hR, hS, hintR, hintS⟩
    have hlength : vchSig.length = R.length + S.length + 6 + tail.length := by
      rw [heq]
      simp only [List.length_cons, List.length_append]
      omega
    refine (isDERSignature_parts _ len _ _ lenR lenS R (S ++ tail) hR heq).mpr ⟨h9, h73, rfl, ?_, ?_, ?_, ?_⟩
    · rw [hlen, hlength, htail]
      cases haveHashType <;> simp
    · rw [hS, hwidth, hlength, htail]
      omega
    · refine (isDERNumber_iff (by simp)).mpr ⟨rfl, ?_⟩
      rwa [List.take_left]
    · refine (isDERNumber_iff (by rw [hS]; simp)).mpr ⟨rfl, ?_⟩
      rwa [hS, List.take_left]

theorem isStrictDER_append {hashType b : UInt8} :
    IsStrictDER (vchSig ++ [hashType]) [b] ↔ b = hashType ∧ IsStrictDER vchSig [] := by
  have hassoc : ∀ (len lenR lenS : UInt8) (R S : List UInt8) (b : UInt8),
      0x30 :: len :: 0x02 :: lenR :: (R ++ 0x02 :: lenS :: (S ++ [b]))
        = (0x30 :: len :: 0x02 :: lenR :: (R ++ 0x02 :: lenS :: (S ++ []))) ++ [b] := by
    intro len lenR lenS R S b
    simp
  constructor
  · rintro ⟨len, lenR, lenS, R, S, heq, hrest⟩
    rw [hassoc] at heq
    obtain ⟨hsig, hb⟩ := List.append_inj' heq rfl
    exact ⟨(List.singleton_injective hb).symm, len, lenR, lenS, R, S, hsig, hrest⟩
  · rintro ⟨rfl, len, lenR, lenS, R, S, heq, hrest⟩
    exact ⟨len, lenR, lenS, R, S, by rw [heq, hassoc], hrest⟩

/-- **The two modes.** With a hash type the accepted strings are the strict signatures of 9 to 73 bytes. Without one a
    signature is accepted when it is accepted with any hash type behind it, but for the signatures of 8 bytes, which
    get long enough with it, and those of 73, which get too long: the bounds are those of a signature with a hash
    type in both modes. -/
theorem isDERSignature_modes (vchSig : List UInt8) : ((readDERSignature vchSig true = .ok true ↔
        9 ≤ vchSig.length ∧ vchSig.length ≤ 73 ∧ ∃ hashType, IsStrictDER vchSig [hashType]) ∧
      (readDERSignature vchSig false = .ok true ↔
        ∀ hashType, readDERSignature (vchSig ++ [hashType]) true = .ok true)) ↔
      ¬(IsStrictDER vchSig [] ∧ (vchSig.length = 8 ∨ vchSig.length = 73)) := by
  have hwith : ∀ sig : List UInt8, readDERSignature sig true = .ok true ↔
      9 ≤ sig.length ∧ sig.length ≤ 73 ∧ ∃ hashType, IsStrictDER sig [hashType] := by
    intro sig
    rw [readDERSignature_eq, Except.ok.injEq, isDERSignature_iff_strict]
    refine and_congr_right fun _ => and_congr_right fun _ => ?_
    simp [List.length_eq_one_iff]
  have hwithout : readDERSignature vchSig false = .ok true ↔
      9 ≤ vchSig.length ∧ vchSig.length ≤ 73 ∧ IsStrictDER vchSig [] := by
    rw [readDERSignature_eq, Except.ok.injEq, isDERSignature_iff_strict]
    simp
  have hany : (∀ hashType, readDERSignature (vchSig ++ [hashType]) true = .ok true) ↔
      8 ≤ vchSig.length ∧ vchSig.length ≤ 72 ∧ IsStrictDER vchSig [] := by
    simp only [hwith, isStrictDER_append, List.length_append, List.length_singleton, exists_eq_left, forall_const]
    rw [← and_assoc, ← and_assoc]
    exact and_congr_left fun _ => by omega
  rw [iff_true_intro (hwith vchSig), true_and, hwithout, hany]
  by_cases hstrict : IsStrictDER vchSig []
  · simp only [hstrict, and_true, true_and]
    omega
  · simp [hstrict]

/-- A signature of 8 bytes is refused, and accepted with any hash type behind it. -/
theorem isDERSignature_short : ¬((readDERSignature [0x30, 0x06, 0x02, 0x01, 0x01, 0x02, 0x01, 0x01] true = .ok true ↔
        9 ≤ 8 ∧ 8 ≤ 73 ∧ ∃ hashType, IsStrictDER [0x30, 0x06, 0x02, 0x01, 0x01, 0x02, 0x01, 0x01] [hashType]) ∧
      (readDERSignature [0x30, 0x06, 0x02, 0x01, 0x01, 0x02, 0x01, 0x01] false = .ok true ↔
        ∀ hashType, readDERSignature ([0x30, 0x06, 0x02, 0x01, 0x01, 0x02, 0x01, 0x01] ++ [hashType]) true
          = .ok true)) := by
  rintro ⟨-, hmodes⟩
  have hrefused : readDERSignature [0x30, 0x06, 0x02, 0x01, 0x01, 0x02, 0x01, 0x01] false = .ok false := by decide
  rw [hmodes.mpr fun hashType => rfl] at hrefused
  exact nomatch hrefused

end Grammar

end PupaCoin
