import PupaCoin.Wallet.Proofs.Base58Proofs

/-!
# The strings of stealth addresses: proofs
-/

namespace PupaCoin

open Memory

section Address

variable {sha256 : List UInt8 → EcSecret}

theorem pupaCoinChecksum_lt (p : List UInt8) : pupaCoinChecksum sha256 p < 256 ^ 4 := by
  unfold pupaCoinChecksum
  split_ifs
  · norm_num
  · have hlt := LittleEndian.toNat_lt ((sha256 (sha256 p).e).e.take 4)
    rwa [List.length_take, (sha256 (sha256 p).e).size] at hlt

theorem verifyChecksum_returns (data : List UInt8) : ∃ ok, verifyChecksum sha256 data = .ok ok := by
  unfold verifyChecksum
  by_cases hshort : data.length < 4
  · exact ⟨false, if_pos hshort⟩
  · rw [if_neg hshort, slice_of_le (by omega), slice_of_le (by omega)]
    exact ⟨_, rfl⟩

theorem verifyChecksum_appendChecksum (data : List UInt8) :
    verifyChecksum sha256 (appendChecksum sha256 data) = .ok true := by
  have hlength : (appendChecksum sha256 data).length = data.length + 4 := by
    unfold appendChecksum
    rw [List.length_append, LittleEndian.length_ofNat]
  have hsum : ((appendChecksum sha256 data).drop data.length).take 4 = LittleEndian.ofNat 4 (pupaCoinChecksum sha256 data) := by
    unfold appendChecksum
    rw [List.drop_left, List.take_of_length_le (by rw [LittleEndian.length_ofNat])]
  have hbody : ((appendChecksum sha256 data).drop 0).take data.length = data := by
    unfold appendChecksum
    rw [List.drop_zero, List.take_left]
  unfold verifyChecksum
  rw [hlength, if_neg (by omega), Nat.add_sub_cancel, slice_of_le (by omega), slice_of_le (by omega), hsum, hbody]
  simp only [bind, Except.bind, pure, Except.pure]
  rw [LittleEndian.toNat_ofNat (pupaCoinChecksum_lt data), beq_self_eq_true]

/-- What both readers ask of the bytes of an address. -/
def WellFormed (sha256 : List UInt8 → EcSecret) (raw : List UInt8) : Prop :=
  verifyChecksum sha256 raw = .ok true ∧ 75 ≤ raw.length ∧ raw.head? = some stealthVersionByte

theorem setEncoded_cases (addr : EncodedAddress) (str : List Char) :
    (∃ raw, decodeBase58 str = some raw ∧ WellFormed sha256 raw ∧ isStealthAddress sha256 str = .ok true ∧
      addr.setEncoded sha256 str
        = .ok (true, { options := raw.getD 1 0
                       scanPubkey := (raw.drop 2).take 33
                       spendPubkey := (raw.drop 36).take 33 })) ∨
    ((∀ raw, decodeBase58 str = some raw → ¬WellFormed sha256 raw) ∧ isStealthAddress sha256 str = .ok false ∧
      addr.setEncoded sha256 str = .ok (false, addr)) := by
  unfold EncodedAddress.setEncoded isStealthAddress
  cases hdecode : decodeBase58 str with
  | none => exact .inr ⟨fun _ h => (by cases h), rfl, rfl⟩
  | some raw =>
    obtain ⟨ok, hok⟩ : ∃ ok, verifyChecksum sha256 raw = .ok ok := verifyChecksum_returns raw
    simp only [hok, bind, Except.bind, pure, Except.pure]
    cases ok with
    | false =>
      refine .inr ⟨fun raw' h hform => ?_, rfl, rfl⟩
      have hsum := hform.1
      rw [← Option.some.inj h, hok] at hsum
      cases hsum
    | true =>
      by_cases hshort : raw.length < 75
      · refine .inr ⟨fun raw' h hform => ?_, by simp [hshort], by simp [hshort]⟩
        rw [← Option.some.inj h] at hform
        exact absurd hform.2.1 (Nat.not_le.mpr hshort)
      rw [read_of_lt (show 0 < raw.length by omega) 0, read_of_lt (show 1 < raw.length by omega) 0,
        slice_of_le (by omega), slice_of_le (by omega)]
      have hhead : raw.head? = some (raw.getD 0 0) := by
        rw [List.head?_eq_getElem?, List.getD_eq_getElem?_getD, List.getElem?_eq_getElem (by omega)]
        rfl
      by_cases hversion : raw.getD 0 0 = stealthVersionByte
      · rw [hversion] at hhead
        refine .inl ⟨raw, rfl, ⟨hok, by omega, hhead⟩, ?_, ?_⟩
        · simp only [Bool.not_true, Bool.false_eq_true, if_false, if_neg hshort, hversion, ne_eq, not_true_eq_false]
        · simp only [Bool.not_true, Bool.false_eq_true, if_false, if_neg hshort, hversion, ne_eq, not_true_eq_false]
      · refine .inr ⟨fun raw' h hform => ?_, ?_, ?_⟩
        · rw [← Option.some.inj h, WellFormed, hhead] at hform
          exact hversion (Option.some.inj hform.2.2)
        · simp only [if_neg hshort, if_pos hversion, Bool.not_true, Bool.false_eq_true, if_false]
        · simp only [if_neg hshort, if_pos hversion, Bool.not_true, Bool.false_eq_true, if_false]

/-- **The strings of stealth addresses.** An address with two compressed keys is read back from its string, which
    says that there is one spend key. For every string `IsStealthAddress` says whether `SetEncoded` takes it, and both
    read inside its bytes. -/
theorem stealthAddress_codec (sha256 : List UInt8 → EcSecret) :
    (∀ addr : EncodedAddress, addr.scanPubkey.length = 33 → addr.spendPubkey.length = 33 →
      ∃ str raw, addr.encoded sha256 = some str ∧ decodeBase58 str = some raw ∧ raw[35]? = some 1 ∧
        ∀ old : EncodedAddress, old.setEncoded sha256 str = .ok (true, addr)) ∧
    ∀ (str : List Char) (old : EncodedAddress), ∃ ok addr,
      old.setEncoded sha256 str = .ok (ok, addr) ∧ isStealthAddress sha256 str = .ok ok := by
  constructor
  · intro addr hscan hspend
    have hlength : addr.raw.length = 71 := by
      simp [EncodedAddress.raw, hscan, hspend]
    obtain ⟨tail, htail⟩ : ∃ tail, appendChecksum sha256 addr.raw = stealthVersionByte :: tail := ⟨_, rfl⟩
    have hbytes : (appendChecksum sha256 addr.raw).length = 75 := by
      rw [appendChecksum, List.length_append, hlength, LittleEndian.length_ofNat]
    obtain ⟨str, hencode, hdecode⟩ := decodeBase58_encodeBase58 (appendChecksum sha256 addr.raw)
    have hwhole : (stealthVersionByte :: tail).dropWhile (· == 0) = stealthVersionByte :: tail := rfl
    rw [htail, hwhole, ← htail] at hdecode
    have hoptions : (appendChecksum sha256 addr.raw).getD 1 0 = addr.options := rfl
    have hbehind : (appendChecksum sha256 addr.raw).drop 2
        = addr.scanPubkey ++ (1 :: (addr.spendPubkey ++ ([0, 0] ++ LittleEndian.ofNat 4 (pupaCoinChecksum sha256 addr.raw)))) := by
      simp [appendChecksum, EncodedAddress.raw]
    have hcount : (appendChecksum sha256 addr.raw).drop 35
        = 1 :: (addr.spendPubkey ++ ([0, 0] ++ LittleEndian.ofNat 4 (pupaCoinChecksum sha256 addr.raw))) := by
      rw [show 35 = 2 + addr.scanPubkey.length by rw [hscan], ← List.drop_drop, hbehind, List.drop_left]
    have hscan' : ((appendChecksum sha256 addr.raw).drop 2).take 33 = addr.scanPubkey := by
      rw [hbehind, ← hscan, List.take_left]
    have hspend' : ((appendChecksum sha256 addr.raw).drop 36).take 33 = addr.spendPubkey := by
      rw [show 36 = 35 + 1 from rfl, ← List.drop_drop, hcount, List.drop_one, List.tail_cons, ← hspend, List.take_left]
    refine ⟨str, _, hencode, hdecode, ?_, fun old => ?_⟩
    · rw [← List.head?_drop, hcount]
      rfl
    · rcases setEncoded_cases old str with ⟨raw, hraw, -, -, hset⟩ | ⟨hno, -, -⟩
      · rw [hdecode] at hraw
        rw [hset, ← Option.some.inj hraw, hoptions, hscan', hspend']
      · exact absurd ⟨verifyChecksum_appendChecksum addr.raw, hbytes.ge, by rw [htail]; rfl⟩ (hno _ hdecode)
  · intro str old
    rcases setEncoded_cases old str with ⟨raw, -, -, his, hset⟩ | ⟨-, his, hset⟩
    · exact ⟨true, _, hset, his⟩
    · exact ⟨false, old, hset, his⟩

theorem stealthAddress_codec_sample :
    ∃ str raw, (⟨3, List.replicate 33 2, List.replicate 33 9⟩ : EncodedAddress).encoded
        (fun _ => ⟨List.replicate 32 7, rfl⟩) = some str ∧
      decodeBase58 str = some raw ∧ raw[35]? = some 1 ∧
        ∀ old : EncodedAddress, old.setEncoded (fun _ => ⟨List.replicate 32 7, rfl⟩) str
          = .ok (true, ⟨3, List.replicate 33 2, List.replicate 33 9⟩) :=
  (stealthAddress_codec fun _ => ⟨List.replicate 32 7, rfl⟩).1 ⟨3, List.replicate 33 2, List.replicate 33 9⟩ rfl rfl

end Address

end PupaCoin
