import PupaCoin.Script.Compressor
import PupaCoin.Script.Proofs.ScriptNumProofs
import PupaCoin.Smsg.Proofs.CryptProofs

/-!
# Compressed scripts: proofs

The bytes of an integer of variable length are read back, the first of a special script is the integer below six that
is its code, and a script that is none of the special ones has a code from six on.
-/

namespace PupaCoin

variable {id : CKeyID} {vch : List UInt8} {chHeader : UInt8} {isFullyValid : CPubKey → Bool} {pubkey : CPubKey}
  {script : CScript}

open Codec
open Smsg (CKeyID keyIDBytes keyIDOfBytes pubKeyOfBytes)

section VarInt

variable {n : UInt32} {len : Nat} {rest : List UInt8}

theorem toNat_lowDigit (n : UInt32) : (n &&& 0x7f).toNat = n.toNat % 128 := by
  rw [UInt32.toNat_and]
  exact Nat.and_two_pow_sub_one_eq_mod n.toNat 7

theorem toNat_highDigits (n : UInt32) : (n >>> 7).toNat = n.toNat / 128 := by
  rw [UInt32.toNat_shiftRight]
  exact Nat.shiftRight_eq_div_pow _ 7

theorem join_digits (n : UInt32) : n >>> 7 <<< 7 ||| n &&& 0x7f = n := by
  have hlt := n.toNat_lt
  have hshift : (n >>> 7 <<< 7).toNat = n.toNat / 128 * 2 ^ 7 := by
    rw [UInt32.toNat_shiftLeft, toNat_highDigits, Nat.shiftLeft_eq]
    show n.toNat / 128 * 2 ^ 7 % 2 ^ 32 = _
    omega
  refine UInt32.toNat_inj.mp ?_
  rw [UInt32.toNat_or, hshift, toNat_lowDigit, or_eq_add (k := 7) (by omega) (by omega)]
  omega

theorem digitByte_spec (n : UInt32) (len : Nat) :
    (((n &&& 0x7f).toUInt8 ||| (if len ≠ 0 then 0x80 else 0x00)) &&& 0x80 ≠ 0 ↔ len ≠ 0) ∧
      (((n &&& 0x7f).toUInt8 ||| (if len ≠ 0 then 0x80 else 0x00)) &&& 0x7f).toUInt32 = n &&& 0x7f := by
  have hlow : (n &&& 0x7f).toUInt8 < 0x80 := by
    rw [UInt8.lt_iff_toNat_lt, UInt32.toNat_toUInt8, toNat_lowDigit]
    show n.toNat % 128 % 2 ^ 8 < 128
    omega
  have hback : (n &&& 0x7f).toUInt8.toUInt32 = n &&& 0x7f := by
    refine UInt32.toNat_inj.mp ?_
    rw [UInt8.toNat_toUInt32, UInt32.toNat_toUInt8, toNat_lowDigit]
    omega
  have hbits : ∀ d : UInt8, d < 0x80 → (d ||| 0x80) &&& 0x80 ≠ 0 ∧ (d ||| 0x80) &&& 0x7f = d ∧
      (d ||| 0x00) &&& 0x80 = 0 ∧ (d ||| 0x00) &&& 0x7f = d :=
    forall_byte (by decide +kernel)
  obtain ⟨htop, hdigit, hzero, hdigit'⟩ := hbits _ hlow
  by_cases hlen : len = 0
  · rw [if_neg (not_not.mpr hlen), hzero, hdigit', hback]
    exact ⟨iff_of_false (not_not.mpr rfl) (not_not.mpr hlen), rfl⟩
  · rw [if_pos hlen, hdigit, hback]
    exact ⟨iff_of_true htop hlen, rfl⟩

theorem readVarIntFrom_cons (n : UInt32) (chData : UInt8) (s : List UInt8) : readVarIntFrom n (chData :: s)
    = if chData &&& 0x80 ≠ 0 then readVarIntFrom ((n <<< 7 ||| (chData &&& 0x7f).toUInt32) + 1) s
      else (.ok (n <<< 7 ||| (chData &&& 0x7f).toUInt32), s) := rfl

theorem readVarIntFrom_digit (n : UInt32) (len : Nat) (rest : List UInt8) :
    readVarIntFrom (n >>> 7) (((n &&& 0x7f).toUInt8 ||| (if len ≠ 0 then 0x80 else 0x00)) :: rest)
      = if len = 0 then (.ok n, rest) else readVarIntFrom (n + 1) rest := by
  obtain ⟨htop, hdigit⟩ := digitByte_spec n len
  rw [readVarIntFrom_cons, hdigit, join_digits]
  by_cases hlen : len = 0
  · rw [if_neg fun hset => htop.mp hset hlen, if_pos hlen]
  · rw [if_pos (htop.mpr hlen), if_neg hlen]

/-- What is in `tmp` is read back, the last byte first. By induction on the digits. -/
theorem readVarIntFrom_tmp (n : UInt32) (len : Nat) (rest : List UInt8) :
    readVarIntFrom 0 ((varIntTmp n len).reverse ++ rest)
      = if len = 0 then (.ok n, rest) else readVarIntFrom (n + 1) rest := by
  induction n, len using varIntTmp.induct generalizing rest with
  | case1 n len hsmall =>
    have hzero : n >>> 7 = 0 := by
      refine UInt32.toNat_inj.mp ?_
      rw [toNat_highDigits]
      exact Nat.div_eq_of_lt (Nat.lt_succ_of_le (UInt32.le_iff_toNat_le.mp hsmall))
    rw [varIntTmp, if_pos hsmall, List.reverse_singleton, List.singleton_append, ← hzero]
    exact readVarIntFrom_digit n len rest
  | case2 n len hlarge ih =>
    rw [varIntTmp, if_neg hlarge, List.reverse_cons, List.append_assoc, List.singleton_append, ih,
      if_neg (Nat.succ_ne_zero len), UInt32.sub_add_cancel]
    exact readVarIntFrom_digit n len rest

theorem readVarInt_writeVarInt (n : UInt32) (rest : List UInt8) :
    readVarInt (writeVarInt n ++ rest) = (.ok n, rest) := readVarIntFrom_tmp n 0 rest

theorem readVarInt_small : ∀ {code : UInt8}, code < 6 → ∀ rest : List UInt8,
    readVarInt (code :: rest) = (.ok code.toUInt32, rest) := by
  intro code hcode rest
  have hbits : ∀ d : UInt8, d < 6 → d &&& 0x80 = 0 ∧ d &&& 0x7f = d := forall_byte (by decide +kernel)
  obtain ⟨htop, hdigit⟩ := hbits code hcode
  have hjoin : (0 : UInt32) <<< 7 ||| code.toUInt32 = code.toUInt32 := UInt32.zero_or
  rw [readVarInt, readVarIntFrom_cons, hdigit, if_neg (not_not.mpr htop), hjoin]

end VarInt

namespace CScriptCompressor

section Special

variable {script s : List UInt8} {k : Nat}

theorem keyIDBytes_keyIDOfBytes (hlength : s.length = 20) : keyIDBytes (keyIDOfBytes s) = s := by
  have hlt : LittleEndian.toNat s < 2 ^ 160 := lt_of_lt_of_le (LittleEndian.toNat_lt s) (by rw [hlength]; norm_num)
  unfold keyIDBytes keyIDOfBytes
  rw [BitVec.toNat_ofNat, Nat.mod_eq_of_lt hlt, LittleEndian.ofNat_toNat hlength]

theorem eq_frame (header : List UInt8) (k : Nat) (trailer : List UInt8)
    (hlength : s.length = header.length + k + trailer.length) (hheader : ∀ i < header.length, s[i]? = header[i]?)
    (htrailer : ∀ i < trailer.length, s[header.length + k + i]? = trailer[i]?) :
    ((s.drop header.length).take k).length = k ∧ s = header ++ (s.drop header.length).take k ++ trailer := by
  have hbody : ((s.drop header.length).take k).length = k := by
    rw [List.length_take, List.length_drop]
    omega
  refine ⟨hbody, List.ext_getElem? fun i => ?_⟩
  rcases Nat.lt_or_ge i header.length with hi | hi
  · rw [hheader i hi, List.append_assoc, List.getElem?_append_left hi]
  rw [List.append_assoc, List.getElem?_append_right hi]
  rcases Nat.lt_or_ge (i - header.length) k with hk | hk
  · rw [List.getElem?_append_left (by omega), List.getElem?_take_of_lt hk, List.getElem?_drop]
    congr 1
    omega
  · rw [List.getElem?_append_right (by omega), hbody]
    rcases Nat.lt_or_ge (i - header.length - k) trailer.length with ht | ht
    · rw [← htrailer _ ht]
      congr 1
      omega
    · rw [List.getElem?_eq_none ht, List.getElem?_eq_none (by omega)]

theorem isToKeyID_eq (h : isToKeyID script = some id) :
    ∃ hash : List UInt8, hash.length = 20 ∧ script = [0x76, 0xa9, 20] ++ hash ++ [0x88, 0xac] ∧ keyIDBytes id = hash := by
  unfold isToKeyID at h
  split_ifs at h with hform
  obtain ⟨hlength, h0, h1, h2, h23, h24⟩ := hform
  obtain ⟨hhash, heq⟩ := eq_frame [0x76, 0xa9, 20] 20 [0x88, 0xac] hlength
    (fun | 0, _ => h0 | 1, _ => h1 | 2, _ => h2)
    (fun | 0, _ => h23 | 1, _ => h24)
  refine ⟨_, hhash, heq, ?_⟩
  rw [← Option.some.inj h]
  exact keyIDBytes_keyIDOfBytes hhash

theorem isToScriptID_eq (h : isToScriptID script = some id) :
    ∃ hash : List UInt8, hash.length = 20 ∧ script = [0xa9, 20] ++ hash ++ [0x87] ∧ keyIDBytes id = hash := by
  unfold isToScriptID at h
  split_ifs at h with hform
  obtain ⟨hlength, h0, h1, h22⟩ := hform
  obtain ⟨hhash, heq⟩ := eq_frame [0xa9, 20] 20 [0x87] hlength
    (fun | 0, _ => h0 | 1, _ => h1) (fun | 0, _ => h22)
  refine ⟨_, hhash, heq, ?_⟩
  rw [← Option.some.inj h]
  exact keyIDBytes_keyIDOfBytes hhash

theorem pubKeyOfBytes_eq (hhead : vch[0]? = some chHeader) (hlength : Smsg.getLen chHeader = vch.length)
    : pubKeyOfBytes vch = vch := by
  rw [← List.head?_eq_getElem?] at hhead
  rw [pubKeyOfBytes, hhead]
  exact if_pos hlength

theorem key_of_frame {n : UInt8} (hlength : script.length = 1 + k + 1) (h0 : script[0]? = some n)
    (hlast : script[1 + k]? = some 0xac) (h1 : script[1]? = some chHeader) (hlen : Smsg.getLen chHeader = k)
    (hk : 0 < k) : let pubkey := pubKeyOfBytes ((script.drop 1).take k)
    pubkey.length = k ∧ pubkey[0]? = some chHeader ∧ script = [n] ++ pubkey ++ [0xac] := by
  obtain ⟨hkey, heq⟩ := eq_frame [n] k [0xac] hlength
    (fun | 0, _ => h0) (fun | 0, _ => hlast)
  have hhead : ((script.drop 1).take k)[0]? = some chHeader := by
    rw [List.getElem?_take_of_lt hk, List.getElem?_drop]
    exact h1
  have hpubkey : pubKeyOfBytes ((script.drop 1).take k) = (script.drop 1).take k :=
    pubKeyOfBytes_eq hhead (hlen.trans hkey.symm)
  dsimp only
  rw [hpubkey]
  exact ⟨hkey, hhead, heq⟩

theorem isToPubKey_eq (h : isToPubKey isFullyValid script = some pubkey) :
    (pubkey.length = 33 ∧ (pubkey[0]? = some 2 ∨ pubkey[0]? = some 3) ∧ script = [33] ++ pubkey ++ [0xac]) ∨
    (pubkey.length = 65 ∧ pubkey[0]? = some 4 ∧ script = [65] ++ pubkey ++ [0xac] ∧ isFullyValid pubkey = true) := by
  unfold isToPubKey at h
  split_ifs at h with hform hform'
  · obtain ⟨hlength, h0, h34, h1⟩ := hform
    rw [← Option.some.inj h]
    rcases h1 with h1 | h1
    · obtain ⟨hkey, hhead, heq⟩ := key_of_frame hlength h0 h34 h1 rfl (by decide)
      exact .inl ⟨hkey, .inl hhead, heq⟩
    · obtain ⟨hkey, hhead, heq⟩ := key_of_frame hlength h0 h34 h1 rfl (by decide)
      exact .inl ⟨hkey, .inr hhead, heq⟩
  · obtain ⟨hlength, h0, h66, h1⟩ := hform'
    obtain ⟨hkey, hhead, heq⟩ := key_of_frame hlength h0 h66 h1 rfl (by decide)
    dsimp only at h
    split_ifs at h with hvalid
    rw [← Option.some.inj h]
    exact .inr ⟨hkey, hhead, heq, hvalid⟩

end Special

section RoundTrip

variable {isFullyValid : CPubKey → Bool} {decompressKey : CPubKey → Option CPubKey} {script out : CScript}

section Keys

variable {c b : UInt8} {x : List UInt8}

theorem decompress_compressed (hc : c = 2 ∨ c = 3) (hx : x.length = 32) (old : CScript) :
    decompress decompressKey c.toUInt32 x old = some (true, [33] ++ c :: x ++ [0xac]) := by
  have htake : x.take 32 = x := List.take_of_length_le hx.le
  rcases hc with rfl | rfl
  · show some (true, [33, 2] ++ x.take 32 ++ [0xac]) = _
    rw [htake]
    rfl
  · show some (true, [33, 3] ++ x.take 32 ++ [0xac]) = _
    rw [htake]
    rfl

theorem decompress_uncompressed (hb : b = 0 ∨ b = 1) (hx : x.length = 32)
    (hkey : decompressKey ((2 ||| b) :: x) = some pubkey) (hlength : pubkey.length = 65) (old : CScript) :
    decompress decompressKey (4 ||| b).toUInt32 x old = some (true, [65] ++ pubkey ++ [0xac]) := by
  have htake : x.take 32 = x := List.take_of_length_le hx.le
  have hlen : Smsg.getLen (2 ||| b) = 33 := by
    rcases hb with rfl | rfl <;> rfl
  have hpubkey : pubKeyOfBytes ((2 ||| b) :: x) = (2 ||| b) :: x :=
    pubKeyOfBytes_eq rfl (by rw [hlen, List.length_cons, hx])
  have hread : decompressKey (pubKeyOfBytes (((4 ||| b).toUInt32 - 2).toUInt8 :: x.take 32)) = some pubkey := by
    have hcode : ((4 ||| b).toUInt32 - 2).toUInt8 = 2 ||| b := by
      rcases hb with rfl | rfl <;> rfl
    rw [hcode, htake, hpubkey, hkey]
  have hlarge : (4 ||| b).toUInt32 ≠ 0 ∧ (4 ||| b).toUInt32 ≠ 1 ∧ ¬((4 ||| b).toUInt32 = 2 ∨ (4 ||| b).toUInt32 = 3) ∧
      ((4 ||| b).toUInt32 = 4 ∨ (4 ||| b).toUInt32 = 5) := by
    rcases hb with rfl | rfl <;> decide
  rw [decompress, if_neg hlarge.1, if_neg hlarge.2.1, if_neg hlarge.2.2.1, if_pos hlarge.2.2.2, hread]
  exact if_pos hlength

end Keys

theorem compress_spec (hkeys : DecompressesValid isFullyValid decompressKey) (h : compress isFullyValid script = some out) :
    ∃ code vch, out = code :: vch ∧ code < 6 ∧ vch.length = getSpecialSize code.toUInt32 ∧
      ∀ old, decompress decompressKey code.toUInt32 vch old = some (true, script) := by
  unfold compress at h
  split at h
  · rename_i keyID hid
    obtain ⟨hash, hlength, rfl, hbytes⟩ := isToKeyID_eq hid
    rw [← Option.some.inj h, hbytes]
    refine ⟨0, hash, rfl, by decide, hlength, fun old => ?_⟩
    have htake : hash.take 20 = hash := List.take_of_length_le hlength.le
    show some (true, [0x76, 0xa9, 20] ++ hash.take 20 ++ [0x88, 0xac]) = _
    rw [htake]
  split at h
  · rename_i scriptID hid
    obtain ⟨hash, hlength, rfl, hbytes⟩ := isToScriptID_eq hid
    rw [← Option.some.inj h, hbytes]
    refine ⟨1, hash, rfl, by decide, hlength, fun old => ?_⟩
    have htake : hash.take 20 = hash := List.take_of_length_le hlength.le
    show some (true, [0xa9, 20] ++ hash.take 20 ++ [0x87]) = _
    rw [htake]
  split at h
  · rename_i pubkey hid
    rcases isToPubKey_eq hid with ⟨hlength, hhead, rfl⟩ | ⟨hlength, hhead, rfl, hvalid⟩
    · obtain ⟨c, x, rfl⟩ := List.exists_cons_of_length_eq_add_one hlength
      have hx : x.length = 32 := Nat.succ.inj hlength
      have hc : c = 2 ∨ c = 3 := hhead.imp Option.some.inj Option.some.inj
      have htake : (List.drop 1 (c :: x)).take 32 = x := List.take_of_length_le hx.le
      rw [if_pos hhead] at h
      rw [← Option.some.inj h, htake]
      refine ⟨c, x, rfl, ?_, ?_, fun old => decompress_compressed hc hx old⟩
      · rcases hc with rfl | rfl <;> decide
      · rcases hc with rfl | rfl <;> exact hx
    · have hcompressed : ¬(pubkey[0]? = some 2 ∨ pubkey[0]? = some 3) := by
        rw [hhead]
        decide
      have hx : ((pubkey.drop 1).take 32).length = 32 := by
        rw [List.length_take, List.length_drop, hlength]
        rfl
      have hparity : ∀ y : UInt8, y &&& 1 = 0 ∨ y &&& 1 = 1 := forall_byte (by decide +kernel)
      have hb := hparity (pubkey.getD 64 0)
      rw [if_neg hcompressed, if_pos hhead] at h
      rw [← Option.some.inj h]
      refine ⟨_, _, rfl, ?_, ?_, fun old => ?_⟩
      · rcases hb with hb | hb <;> rw [hb] <;> decide
      · rcases hb with hb | hb <;> rw [hb] <;> exact hx
      · exact decompress_uncompressed hb hx (hkeys pubkey hlength hhead hvalid) hlength old
  · exact nomatch h

theorem toNat_nSize (hsize : script.length < 2 ^ 32 - 6) :
    (UInt32.ofNat script.length + nSpecialScripts).toNat = script.length + 6 := by
  have hofNat : (UInt32.ofNat script.length).toNat = script.length := UInt32.toNat_ofNat_of_lt' (by
    show script.length < 2 ^ 32
    omega)
  rw [UInt32.toNat_add, hofNat]
  show (script.length + 6) % 2 ^ 32 = script.length + 6
  omega

theorem unserialize_special {code : UInt8} (hcode : code < 6) (hlength : vch.length = getSpecialSize code.toUInt32)
    {old : CScript}
    (hscript : decompress decompressKey code.toUInt32 vch old = some (true, script)) (rest : List UInt8) :
    unserialize decompressKey old (code :: vch ++ rest) = (.ok script, rest) := by
  have hlt : code.toUInt32 < nSpecialScripts := by
    rw [UInt32.lt_iff_toNat_lt, UInt8.toNat_toUInt32]
    exact UInt8.lt_iff_toNat_lt.mp hcode
  rw [unserialize, Exec.bind_apply, List.cons_append, readVarInt_small hcode]
  dsimp only
  rw [if_pos hlt, Exec.bind_apply, show readData (getSpecialSize code.toUInt32) (vch ++ rest) = (.ok vch, rest) from
    (faithful_readData _).reads hlength rest]
  dsimp only
  rw [hscript]
  rfl

theorem unserialize_raw (hsize : script.length < 2 ^ 32 - 6) (old : CScript) (rest : List UInt8) :
    unserialize decompressKey old
      (writeVarInt (UInt32.ofNat script.length + nSpecialScripts) ++ script ++ rest) = (.ok script, rest) := by
  have hnot : ¬UInt32.ofNat script.length + nSpecialScripts < nSpecialScripts := by
    rw [UInt32.lt_iff_toNat_lt, toNat_nSize hsize]
    show ¬script.length + 6 < 6
    omega
  have hback : (UInt32.ofNat script.length + nSpecialScripts - nSpecialScripts).toNat = script.length := by
    rw [UInt32.add_sub_cancel]
    exact UInt32.toNat_ofNat_of_lt' (by
      show script.length < 2 ^ 32
      omega)
  rw [unserialize, Exec.bind_apply, List.append_assoc, readVarInt_writeVarInt]
  dsimp only
  rw [if_neg hnot, hback]
  exact (faithful_readData _).reads rfl rest

end RoundTrip

end CScriptCompressor

open CScriptCompressor

/-- A script of less than `2 ^ 32 - 6` bytes is read back as it was, whatever follows it and whatever script it is read
into. One that is not special is stored as it is behind its size plus six, which is the integer that is read first;
one that is special begins with an integer below six. -/
theorem scriptCompressor_roundTrip {isFullyValid : CPubKey → Bool} {decompressKey : CPubKey → Option CPubKey}
    (hkeys : DecompressesValid isFullyValid decompressKey) {script : CScript} (hsize : script.length < 2 ^ 32 - 6)
    (rest : List UInt8) :
    (∀ old, unserialize decompressKey old (serialize isFullyValid script ++ rest) = (.ok script, rest)) ∧
    (compress isFullyValid script = none → ∃ nSize : UInt32, nSize.toNat = script.length + 6 ∧
      serialize isFullyValid script = writeVarInt nSize ++ script ∧
      readVarInt (serialize isFullyValid script ++ rest) = (.ok nSize, script ++ rest)) ∧
    ∀ out, compress isFullyValid script = some out → ∃ (code : UInt32) (vch : List UInt8), code < 6 ∧
      readVarInt (serialize isFullyValid script ++ rest) = (.ok code, vch ++ rest) := by
  cases hcompress : compress isFullyValid script with
  | none =>
    have hserialize : serialize isFullyValid script
        = writeVarInt (UInt32.ofNat script.length + nSpecialScripts) ++ script := by
      rw [serialize, hcompress]
    rw [hserialize]
    refine ⟨fun old => unserialize_raw hsize old rest, fun _ => ⟨_, toNat_nSize hsize, rfl, ?_⟩, fun _ h => (nomatch h)⟩
    rw [List.append_assoc, readVarInt_writeVarInt]
  | some out =>
    have hserialize : serialize isFullyValid script = out := by
      rw [serialize, hcompress]
    obtain ⟨code, vch, rfl, hcode, hlength, hscript⟩ := compress_spec hkeys hcompress
    rw [hserialize]
    refine ⟨fun old => unserialize_special hcode hlength (hscript old) rest, fun h => (nomatch h), fun _ _ => ?_⟩
    refine ⟨code.toUInt32, vch, ?_, readVarInt_small hcode (vch ++ rest)⟩
    rw [UInt32.lt_iff_toNat_lt, UInt8.toNat_toUInt32]
    exact UInt8.lt_iff_toNat_lt.mp hcode

def generatorKey : CPubKey :=
  [0x04, 0x79, 0xbe, 0x66, 0x7e, 0xf9, 0xdc, 0xbb, 0xac, 0x55, 0xa0, 0x62, 0x95, 0xce, 0x87, 0x0b, 0x07,
    0x02, 0x9b, 0xfc, 0xdb, 0x2d, 0xce, 0x28, 0xd9, 0x59, 0xf2, 0x81, 0x5b, 0x16, 0xf8, 0x17, 0x98,
    0x48, 0x3a, 0xda, 0x77, 0x26, 0xa3, 0xc4, 0x65, 0x5d, 0xa4, 0xfb, 0xfc, 0x0e, 0x11, 0x08, 0xa8,
    0xfd, 0x17, 0xb4, 0x48, 0xa6, 0x85, 0x54, 0x19, 0x9c, 0x47, 0xd0, 0x8f, 0xfb, 0x10, 0xd4, 0xb8]

theorem scriptCompressor_generatorKey :
    unserialize (fun key => if key = 2 :: (generatorKey.drop 1).take 32 then some generatorKey else none) []
      (serialize (fun key => decide (key = generatorKey)) (65 :: generatorKey ++ [0xac]) ++ [])
      = (.ok (65 :: generatorKey ++ [0xac]), []) :=
  (scriptCompressor_roundTrip
    (fun pubkey _ _ hvalid => by
      rw [of_decide_eq_true hvalid]
      rfl)
    (by decide : (65 :: generatorKey ++ [0xac]).length < 2 ^ 32 - 6) []).1 []

theorem serialize_wraps (hsize : script.length = 2 ^ 32 - 6) : serialize isFullyValid script = 0 :: script := by
  have hcompress : compress isFullyValid script = none := by
    unfold compress isToKeyID isToScriptID isToPubKey
    rw [hsize]
    rfl
  have hzero : writeVarInt 0 = [0] := by
    rw [writeVarInt, varIntTmp]
    rfl
  rw [serialize, hcompress, hsize]
  dsimp only
  rw [show UInt32.ofNat (2 ^ 32 - 6) + nSpecialScripts = 0 from by decide, hzero]
  rfl

theorem unserialize_zeros (decompressKey : CPubKey → Option CPubKey) (old : CScript) (rest : List UInt8) :
    unserialize decompressKey old (0 :: (List.replicate 20 0 ++ rest))
      = (.ok ([0x76, 0xa9, 20] ++ List.replicate 20 0 ++ [0x88, 0xac]), rest) := by
  have hhash : (List.replicate 20 (0 : UInt8)).length = getSpecialSize (0 : UInt8).toUInt32 := rfl
  exact unserialize_special (by decide) hhash rfl rest

/-- The code of a script of `2 ^ 32 - 6` bytes is that of a key hash. -/
theorem scriptCompressor_wraps :
    unserialize (fun _ => none) [] (serialize (fun _ => false) (List.replicate (2 ^ 32 - 6) 0))
      = (.ok ([0x76, 0xa9, 20] ++ List.replicate 20 0 ++ [0x88, 0xac]), List.replicate (2 ^ 32 - 26) 0) := by
  have hsplit : (List.replicate (2 ^ 32 - 6) 0 : List UInt8) = List.replicate 20 0 ++ List.replicate (2 ^ 32 - 26) 0 := by
    rw [List.replicate_append_replicate, show 20 + (2 ^ 32 - 26) = 2 ^ 32 - 6 from by norm_num]
  rw [serialize_wraps List.length_replicate, hsplit]
  exact unserialize_zeros _ _ _

end PupaCoin
