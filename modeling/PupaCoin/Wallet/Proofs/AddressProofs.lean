import PupaCoin.Smsg.Proofs.CryptProofs
import PupaCoin.Wallet.Proofs.Base58Proofs

/-!
# Addresses and secrets as strings: proofs

A version of one byte comes back from the string, so that both classes agree on key ids. The version that the Bitcoin
class writes for scripts has four bytes, of which the reader leaves three in the data.
-/

namespace PupaCoin

open Smsg (CBase58Data CKeyID keyIDBytes keyIDOfBytes pubkeyAddressPrefix scriptAddressPrefix)

section Address

variable {hashBmw512 : List UInt8 → Vector UInt8 32} {testNet : Bool} {data : CBase58Data} {cls : AddressClass}
  {str : List Char}

theorem setString_toString (hashBmw512 : List UInt8 → Vector UInt8 32) {b : UInt8} {rest : List UInt8} (hb : b ≠ 0)
    (hbytes : data.vchVersion ++ data.vchData = b :: rest) :
    ∃ str, CBase58Data.toString hashBmw512 data = some str ∧ decodeBase58Check hashBmw512 str = some (b :: rest) ∧
      CBase58Data.setString hashBmw512 str 1 = (true, ⟨[b], rest⟩) := by
  obtain ⟨str, hencode, hdecode⟩ := decodeBase58Check_encodeBase58Check hashBmw512 (b :: rest)
  have hread := hdecode.mpr fun h0 => hb (Option.some.inj h0)
  refine ⟨str, by rw [CBase58Data.toString, hbytes]; exact hencode, hread, ?_⟩
  rw [CBase58Data.setString, hread]
  exact if_neg (by rw [List.length_cons]; omega)

theorem get_version {b : UInt8} (id : CKeyID) (hb : [b] = base58Prefix testNet cls.pubkeyAddress ∨
      [b] = base58Prefix testNet cls.scriptAddress) :
    cls.isValid testNet ⟨[b], keyIDBytes id⟩ = true ∧ cls.get testNet ⟨[b], keyIDBytes id⟩ =
      if [b] = base58Prefix testNet cls.pubkeyAddress then .keyID id else .scriptID id := by
  have hvalid : cls.isValid testNet ⟨[b], keyIDBytes id⟩ = true := by
    rw [AddressClass.isValid, Bool.and_eq_true, Bool.or_eq_true, beq_iff_eq, beq_iff_eq, beq_iff_eq]
    exact ⟨Smsg.length_keyIDBytes id, hb⟩
  have hid : keyIDOfBytes ((keyIDBytes id).take 20) = id := by
    rw [List.take_of_length_le (Smsg.length_keyIDBytes id).le, Smsg.keyIDOfBytes_keyIDBytes]
  refine ⟨hvalid, ?_⟩
  rw [AddressClass.get, hvalid, Bool.not_true, if_neg Bool.false_ne_true]
  dsimp only
  rw [hid]
  split_ifs with hpubkey hscript
  · rfl
  · rfl
  · exact absurd (hb.resolve_left hpubkey) hscript

theorem keeps_of_version {dest : CTxDestination} {b : UInt8} (hb0 : b ≠ 0) (id : CKeyID)
    (hset : cls.set testNet dest = some ⟨[b], keyIDBytes id⟩)
    (hb : [b] = base58Prefix testNet cls.pubkeyAddress ∨ [b] = base58Prefix testNet cls.scriptAddress)
    (hdest : dest = if [b] = base58Prefix testNet cls.pubkeyAddress then .keyID id else .scriptID id) :
    cls.Keeps hashBmw512 testNet dest := by
  obtain ⟨str, hstr, -, hread⟩ := @setString_toString ⟨[b], keyIDBytes id⟩ hashBmw512 b (keyIDBytes id) hb0 rfl
  obtain ⟨hvalid, hget⟩ := get_version id hb
  refine ⟨_, str, hset, hstr, ?_, ?_⟩
  · rw [hread]
    exact hvalid
  · rw [hread, hget, hdest]

theorem cPupaCoinAddress_keeps (testNet : Bool) (id : CKeyID) :
    cPupaCoinAddress.Keeps hashBmw512 testNet (.keyID id) ∧ cPupaCoinAddress.Keeps hashBmw512 testNet (.scriptID id) := by
  cases testNet with
  | false =>
    exact ⟨keeps_of_version (b := 55) (by decide) id rfl (.inl rfl) rfl,
      keeps_of_version (b := 63) (by decide) id rfl (.inr rfl) rfl⟩
  | true =>
    exact ⟨keeps_of_version (b := 54) (by decide) id rfl (.inl rfl) rfl,
      keeps_of_version (b := 62) (by decide) id rfl (.inr rfl) rfl⟩

theorem cBitcoinAddress_keeps (testNet : Bool) (id : CKeyID) : cBitcoinAddress.Keeps hashBmw512 testNet (.keyID id) := by
  cases testNet with
  | false => exact keeps_of_version (b := 55) (by decide) id rfl (.inl rfl) rfl
  | true => exact keeps_of_version (b := 54) (by decide) id rfl (.inl rfl) rfl

theorem cBitcoinAddress_script (hashBmw512 : List UInt8 → Vector UInt8 32) (testNet : Bool) (id : CKeyID) :
    ∃ str rest, cBitcoinAddress.stringOf hashBmw512 testNet (.scriptID id) = some str ∧ rest.length = 23 ∧
      decodeBase58Check hashBmw512 str = some (0x04 :: rest) ∧
      CBase58Data.setString hashBmw512 str 1 = (true, ⟨[0x04], rest⟩) := by
  obtain ⟨rest, hrest⟩ : ∃ rest, base58Prefix testNet .extSecretKey ++ keyIDBytes id = 0x04 :: rest := by
    cases testNet <;> exact ⟨_, rfl⟩
  obtain ⟨str, hstr, hread, hset⟩ := @setString_toString ⟨base58Prefix testNet .extSecretKey, keyIDBytes id⟩ hashBmw512
    _ _ (by decide) hrest
  refine ⟨str, rest, hstr, ?_, hread, hset⟩
  have hlength := congrArg List.length hrest
  have hprefix : (base58Prefix testNet .extSecretKey).length = 4 := by cases testNet <;> rfl
  rw [List.length_append, hprefix, Smsg.length_keyIDBytes, List.length_cons] at hlength
  omega

theorem cBitcoinAddress_loses (testNet : Bool) (id : CKeyID) :
    ¬cBitcoinAddress.Keeps hashBmw512 testNet (.scriptID id) ∧
      cPupaCoinAddress.stringOf hashBmw512 testNet (.scriptID id) ≠
        cBitcoinAddress.stringOf hashBmw512 testNet (.scriptID id) := by
  obtain ⟨str, rest, hstr, hlength, hread, hset⟩ := cBitcoinAddress_script hashBmw512 testNet id
  constructor
  · rintro ⟨address, str', haddress, hstr', hvalid, -⟩
    have hsame : some str' = some str := by
      rw [← hstr, AddressClass.stringOf, haddress, Option.bind_some, hstr']
    rw [Option.some.inj hsame, hset, AddressClass.isValid, Bool.and_eq_true, beq_iff_eq] at hvalid
    have hsize : rest.length = 20 := hvalid.1
    omega
  · intro hsame
    obtain ⟨address, str', haddress, hstr', -, hget⟩ := (@cPupaCoinAddress_keeps hashBmw512 testNet id).2
    have heq : some str' = some str := by
      rw [← hstr, ← hsame, AddressClass.stringOf, haddress, Option.bind_some, hstr']
    have hnot : cPupaCoinAddress.get testNet (CBase58Data.setString hashBmw512 str 1).2 = .none := by
      rw [hset, AddressClass.get, AddressClass.isValid]
      show (if (!(rest.length == 20 && _)) = true then _ else _) = _
      rw [hlength]
      rfl
    rw [Option.some.inj heq, hnot] at hget
    cases hget

theorem accepts_iff : cls.Accepts hashBmw512 testNet str ↔ ∃ version rest, rest.length = 20 ∧
    decodeBase58Check hashBmw512 str = some (version :: rest) ∧
    ([version] = base58Prefix testNet cls.pubkeyAddress ∨ [version] = base58Prefix testNet cls.scriptAddress) := by
  unfold AddressClass.Accepts CBase58Data.setString
  cases hdecode : decodeBase58Check hashBmw512 str with
  | none => exact ⟨fun h => absurd h Bool.false_ne_true, fun ⟨_, _, _, h, _⟩ => by cases h⟩
  | some vchTemp =>
    cases vchTemp with
    | nil => exact ⟨fun h => absurd h Bool.false_ne_true, fun ⟨_, _, _, h, _⟩ => by cases h⟩
    | cons version rest =>
      have hone : ¬(version :: rest).length < 1 := by rw [List.length_cons]; omega
      dsimp only
      rw [if_neg hone, AddressClass.isValid, Bool.and_eq_true, Bool.or_eq_true, beq_iff_eq, beq_iff_eq, beq_iff_eq]
      constructor
      · exact fun h => ⟨version, rest, h.1, rfl, h.2⟩
      · rintro ⟨version', rest', hlength, heq, hversion⟩
        obtain ⟨rfl, rfl⟩ := List.cons.inj (Option.some.inj heq)
        exact ⟨hlength, hversion⟩

theorem accepts_alike_iff : (cPupaCoinAddress.Accepts hashBmw512 testNet str ↔
    cBitcoinAddress.Accepts hashBmw512 testNet str) ↔ ∀ rest : List UInt8, rest.length = 20 →
      decodeBase58Check hashBmw512 str ≠ some (scriptAddressPrefix testNet ++ rest) := by
  have hnot (version : UInt8) : [version] ≠ base58Prefix testNet .extSecretKey := by
    cases testNet <;> simp [base58Prefix]
  have hdiffer : base58Prefix testNet .scriptAddress ≠ base58Prefix testNet .pubkeyAddress := by
    cases testNet <;> decide
  rw [accepts_iff, accepts_iff]
  constructor
  · intro h rest hlength hread
    obtain ⟨version, rest', -, hread', hversion⟩ := h.mp ⟨_, rest, hlength, hread, .inr rfl⟩
    rw [hread, Option.some.injEq] at hread'
    have hsame := (List.cons.inj hread').1
    rcases hversion with hversion | hversion
    · exact hdiffer ((congrArg (fun b => [b]) hsame).trans hversion)
    · exact hnot version hversion
  · intro h
    constructor
    · rintro ⟨version, rest, hlength, hread, hversion | hversion⟩
      · exact ⟨version, rest, hlength, hread, .inl hversion⟩
      · refine absurd ?_ (h rest hlength)
        rw [hread]
        exact congrArg (fun v => some (v ++ rest)) hversion
    · rintro ⟨version, rest, hlength, hread, hversion | hversion⟩
      · exact ⟨version, rest, hlength, hread, .inl hversion⟩
      · exact absurd hversion (hnot version)

theorem keepsSecret {check : List UInt8 → Bool} {key : CKey} (hcheck : check key.vch = true) :
    KeepsSecret hashBmw512 testNet check key := by
  obtain ⟨b, hb, hprefix⟩ : ∃ b : UInt8, b ≠ 0 ∧ base58Prefix testNet .secretKey = [b] := by
    cases testNet <;> exact ⟨_, by decide, rfl⟩
  have hbytes : (CPupaCoinSecret.setKey testNet key).vchVersion ++ (CPupaCoinSecret.setKey testNet key).vchData
      = b :: (CPupaCoinSecret.setKey testNet key).vchData := by
    rw [CPupaCoinSecret.setKey, hprefix]
    rfl
  obtain ⟨str, hstr, -, hread⟩ := setString_toString hashBmw512 hb hbytes
  have htake : (CPupaCoinSecret.setKey testNet key).vchData.take 32 = key.vch := by
    rw [CPupaCoinSecret.setKey, ← key.size, List.take_left]
  have hflag : (decide ((CPupaCoinSecret.setKey testNet key).vchData.length > 32) &&
      (CPupaCoinSecret.setKey testNet key).vchData[32]? == some 1) = key.fCompressed ∧
      ((CPupaCoinSecret.setKey testNet key).vchData.length == 32 ||
        ((CPupaCoinSecret.setKey testNet key).vchData.length == 33 &&
          (CPupaCoinSecret.setKey testNet key).vchData[32]? == some 1)) = true := by
    rw [CPupaCoinSecret.setKey]
    dsimp only
    rw [List.length_append, key.size, List.getElem?_append_right key.size.le, key.size]
    cases key.fCompressed <;> exact ⟨rfl, rfl⟩
  refine ⟨str, hstr, ?_, ?_⟩
  · rw [CPupaCoinSecret.setString, hread]
    dsimp only
    rw [CPupaCoinSecret.isValid, hflag.2, hprefix, beq_self_eq_true]
    rfl
  · rw [CPupaCoinSecret.setString, hread]
    dsimp only
    rw [CPupaCoinSecret.getKey, htake, if_pos hcheck, hflag.1, CKey.set, dif_pos key.size]

theorem isValid_secretKey (testNet : Bool) (vchData : List UInt8) :
    cPupaCoinAddress.isValid testNet ⟨base58Prefix testNet .secretKey, vchData⟩ = false ∧
      cBitcoinAddress.isValid testNet ⟨base58Prefix testNet .secretKey, vchData⟩ = false := by
  cases testNet <;> exact ⟨Bool.and_false _, Bool.and_false _⟩

theorem secret_not_address (hsecret : (CPupaCoinSecret.setString hashBmw512 testNet str).1 = true) :
    ¬cPupaCoinAddress.Accepts hashBmw512 testNet str ∧ ¬cBitcoinAddress.Accepts hashBmw512 testNet str := by
  have hboth : ((CBase58Data.setString hashBmw512 str 1).1 &&
    CPupaCoinSecret.isValid testNet (CBase58Data.setString hashBmw512 str 1).2) = true := hsecret
  rw [Bool.and_eq_true, CPupaCoinSecret.isValid, Bool.and_eq_true, beq_iff_eq] at hboth
  have heq : (CBase58Data.setString hashBmw512 str 1).2 =
      ⟨base58Prefix testNet .secretKey, (CBase58Data.setString hashBmw512 str 1).2.vchData⟩ := by
    rw [← hboth.2.2]
  have hnot := isValid_secretKey testNet (CBase58Data.setString hashBmw512 str 1).2.vchData
  rw [← heq] at hnot
  exact ⟨Bool.eq_false_iff.mp hnot.1, Bool.eq_false_iff.mp hnot.2⟩

/-- Both classes keep the ids of keys and write the same string for them. Ids of scripts are kept by one class only,
and the two write different strings; so the classes accept alike exactly the strings that are not the address of a
script. Secrets are kept, and none is an address. -/
theorem addressCodecs_iff (hashBmw512 : List UInt8 → Vector UInt8 32) (testNet : Bool) (check : List UInt8 → Bool) :
    (∀ (dest : CTxDestination) (id : CKeyID), dest = .keyID id ∨ dest = .scriptID id →
      cPupaCoinAddress.Keeps hashBmw512 testNet dest ∧
      ((cBitcoinAddress.Keeps hashBmw512 testNet dest ∧ cPupaCoinAddress.stringOf hashBmw512 testNet dest =
        cBitcoinAddress.stringOf hashBmw512 testNet dest) ↔ dest = .keyID id)) ∧
    (∀ str, (cPupaCoinAddress.Accepts hashBmw512 testNet str ↔ cBitcoinAddress.Accepts hashBmw512 testNet str) ↔
      ∀ rest : List UInt8, rest.length = 20 →
        decodeBase58Check hashBmw512 str ≠ some (scriptAddressPrefix testNet ++ rest)) ∧
    (∀ key : CKey, check key.vch = true → KeepsSecret hashBmw512 testNet check key) ∧
    ∀ str, (CPupaCoinSecret.setString hashBmw512 testNet str).1 = true →
      ¬cPupaCoinAddress.Accepts hashBmw512 testNet str ∧ ¬cBitcoinAddress.Accepts hashBmw512 testNet str := by
  refine ⟨fun dest id hdest => ?_, fun str => accepts_alike_iff, fun key => keepsSecret, fun str => secret_not_address⟩
  have hpupa := @cPupaCoinAddress_keeps hashBmw512 testNet id
  rcases hdest with rfl | rfl
  · exact ⟨hpupa.1, iff_of_true ⟨cBitcoinAddress_keeps testNet id, rfl⟩ rfl⟩
  · exact ⟨hpupa.2, iff_of_false (fun h => (cBitcoinAddress_loses testNet id).1 h.1) nofun⟩

end Address

namespace Sample

/-- The Bitcoin address of a script is not read back. -/
theorem scriptAddress_lost : ∃ str, cBitcoinAddress.stringOf (fun _ => Vector.replicate 32 0) false (.scriptID 0) = some str ∧
    ¬cBitcoinAddress.Accepts (fun _ => Vector.replicate 32 0) false str ∧
    cPupaCoinAddress.stringOf (fun _ => Vector.replicate 32 0) false (.scriptID 0) ≠ some str := by
  refine ⟨_, rfl, ?_, ?_⟩
  · unfold AddressClass.Accepts
    decide +kernel
  · decide +kernel

end Sample

end PupaCoin
