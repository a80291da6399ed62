import PupaCoin.Chain.Proofs.CompactProofs
import PupaCoin.Script.ScriptNum

/-!
# The two encodings of a number: proofs

Both encodings are the MPI string of the number, with the lowest byte first.
-/

namespace PupaCoin

open BigEndian

variable {vch : List UInt8} {x : UInt64}

theorem and_ff (n : UInt64) : (n &&& 0xff).toUInt8 = UInt8.ofNat n.toNat := by
  rw [← UInt8.toNat_inj, UInt64.toNat_toUInt8, UInt64.toNat_and, UInt8.toNat_ofNat']
  have hmask : (0xff : UInt64).toNat = 2 ^ 8 - 1 := rfl
  rw [hmask, Nat.and_two_pow_sub_one_eq_mod, Nat.mod_mod]

theorem toNat_shiftRight_eight (n : UInt64) : (n >>> 8).toNat = n.toNat / 256 := by
  rw [UInt64.toNat_shiftRight]
  simp [Nat.shiftRight_eq_div_pow]

theorem forall_byte {P : UInt8 → Prop} (h : ∀ i : Fin 256, P (UInt8.ofNat i)) (b : UInt8) : P b := by
  have := h ⟨b.toNat, b.toNat_lt⟩
  rwa [UInt8.ofNat_toNat] at this

theorem and_top_ne_zero (b : UInt8) : b &&& 0x80 ≠ 0 ↔ ¬b < 0x80 :=
  forall_byte (P := fun b => b &&& 0x80 ≠ 0 ↔ ¬b < 0x80) (by decide +kernel) b

theorem or_top {b : UInt8} (hb : b < 0x80) : b ||| 0x80 = b + 0x80 :=
  forall_byte (P := fun b => b < 0x80 → b ||| 0x80 = b + 0x80) (by decide +kernel) b hb

theorem reverse_ofNat (n : ℕ) : (ofNat n).reverse = (Nat.digits 256 n).map UInt8.ofNat := by
  rw [ofNat, List.reverse_reverse]

theorem bytesLE_eq (fuel n : ℕ) (h : n ≤ fuel) : bytesLE fuel n = (ofNat n).reverse := by
  rw [reverse_ofNat]
  induction fuel generalizing n with
  | zero =>
    rw [Nat.le_zero.mp h]
    rfl
  | succ fuel ih =>
    rw [bytesLE]
    by_cases h0 : n = 0
    · rw [if_pos h0, h0]
      rfl
    · rw [if_neg h0, Nat.digits_def' (by norm_num) (Nat.pos_of_ne_zero h0), List.map_cons, ih _ (by omega)]

theorem absBytes_eq (fuel : ℕ) (absvalue : UInt64) (h : absvalue.toNat < 256 ^ fuel) :
    CScriptNum.absBytes fuel absvalue = (ofNat absvalue.toNat).reverse := by
  rw [reverse_ofNat]
  induction fuel generalizing absvalue with
  | zero =>
    have h0 : absvalue.toNat = 0 := by simpa using h
    rw [h0]
    rfl
  | succ fuel ih =>
    rw [CScriptNum.absBytes]
    by_cases h0 : absvalue = 0
    · rw [if_pos h0, h0]
      rfl
    · have hpos : 0 < absvalue.toNat := Nat.pos_of_ne_zero fun h => h0 (UInt64.toNat_inj.mp h)
      have hbyte : UInt8.ofNat absvalue.toNat = UInt8.ofNat (absvalue.toNat % 256) := by
        rw [← UInt8.toNat_inj, UInt8.toNat_ofNat', UInt8.toNat_ofNat', Nat.mod_mod]
      rw [if_neg h0, Nat.digits_def' (by norm_num) hpos, List.map_cons, and_ff, hbyte,
        ih _ (by rw [toNat_shiftRight_eight]; omega), toNat_shiftRight_eight]

section Int64

variable (x : Int64)

theorem toInt_eq_cond : x.toInt = if 2 * x.toUInt64.toNat < 2 ^ 64 then (x.toUInt64.toNat : Int)
    else x.toUInt64.toNat - 2 ^ 64 := by
  have h := BitVec.toInt_eq_toNat_cond x.toBitVec
  exact_mod_cast h

theorem toNat_neg64 : (-x).toUInt64.toNat = (2 ^ 64 - x.toUInt64.toNat) % 2 ^ 64 :=
  BitVec.toNat_neg x.toBitVec

theorem toNat_succ64 : (x + 1).toUInt64.toNat = (x.toUInt64.toNat + 1) % 2 ^ 64 :=
  BitVec.toNat_add x.toBitVec 1

theorem decide_neg64 : decide (x < 0) = decide (x.toInt < 0) := by
  rw [decide_eq_decide, Int64.lt_iff_toInt_lt]
  rfl

theorem toNat_abs64 : (if decide (x < 0) = true then -x else x).toUInt64.toNat = x.toInt.natAbs := by
  have hneg := toNat_neg64 x
  have hcond := toInt_eq_cond x
  have hlt := x.toUInt64.toNat_lt
  rw [decide_neg64]
  by_cases hx : x.toInt < 0
  · rw [if_pos (decide_eq_true hx), hneg]
    split_ifs at hcond <;> omega
  · rw [if_neg (by simpa using hx)]
    split_ifs at hcond <;> omega

theorem toNat_abs64_succ :
    (if decide (x < 0) = true then (-(x + 1)).toUInt64 + 1 else x.toUInt64).toNat = x.toInt.natAbs := by
  have hneg := toNat_neg64 (x + 1)
  rw [toNat_succ64] at hneg
  have hcond := toInt_eq_cond x
  have hlt := x.toUInt64.toNat_lt
  rw [decide_neg64]
  by_cases hx : x.toInt < 0
  · have hone : (1 : UInt64).toNat = 1 := rfl
    rw [if_pos (decide_eq_true hx), UInt64.toNat_add, hneg, hone]
    split_ifs at hcond <;> omega
  · rw [if_neg (by simpa using hx)]
    split_ifs at hcond <;> omega

end Int64

theorem getvch_eq_encode (n : Int) : getvch n = (Mpi.encode n).reverse := by
  unfold getvch Mpi.encode
  rw [bytesLE_eq _ _ le_rfl]
  cases hbytes : ofNat n.natAbs with
  | nil => rfl
  | cons b rest =>
    simp only [List.reverse_cons, List.getLast?_append, List.getLast?_singleton, Option.some_or, List.dropLast_concat]
    by_cases hb : b < 0x80
    · rw [if_neg (UInt8.not_le.mpr hb), if_pos hb, List.reverse_cons]
      split_ifs
      · rw [or_top hb]
      · rw [UInt8.or_zero, UInt8.add_zero]
    · rw [if_pos (UInt8.not_lt.mp hb), if_neg hb, List.reverse_cons, List.reverse_cons]

theorem serialize_eq {value : Int64} (h : value ≠ Int64.minValue) :
    CScriptNum.serialize value = some (getvch value.toInt) := by
  by_cases h0 : value = 0
  · rw [h0]
    rfl
  have hbytes := absBytes_eq 8 _ (UInt64.toNat_lt (if decide (value < 0) = true then -value else value).toUInt64)
  rw [toNat_abs64] at hbytes
  unfold CScriptNum.serialize getvch
  rw [if_neg h0, if_neg h, bytesLE_eq _ _ le_rfl]
  dsimp only
  rw [hbytes, decide_neg64]
  cases hmag : ofNat value.toInt.natAbs with
  | nil =>
    have habs := toNat_ofNat value.toInt.natAbs
    rw [hmag] at habs
    have hzero : value.toInt = 0 := Int.natAbs_eq_zero.mp habs.symm
    exact absurd (Int64.toInt_inj.mp hzero) h0
  | cons b rest =>
    simp only [List.reverse_cons, List.getLast?_append, List.getLast?_singleton, Option.some_or, List.dropLast_concat,
      List.getLastD_concat, and_top_ne_zero]
    by_cases hb : b < 0x80
    · rw [if_neg (not_not.mpr hb), if_neg (UInt8.not_le.mpr hb)]
      by_cases hneg : value.toInt < 0
      · simp [hneg]
      · simp [hneg]
    · rw [if_pos hb, if_pos (UInt8.not_lt.mp hb)]
      simp

section BnMpi

variable (bn : BnMpi)

theorem BnMpi.getvch_eq (n : Int) : bn.getvch n = PupaCoin.getvch n := by
  simp only [BnMpi.getvch]
  rw [bn.bn2mpi_eq, Mpi.length_frame, Mpi.drop_frame, getvch_eq_encode]
  by_cases hnil : Mpi.encode n = []
  · simp [hnil]
  · have := List.length_pos_of_ne_nil hnil
    rw [if_neg (show ¬(Mpi.encode n).length + 4 ≤ 4 by omega)]

/-- The highest bytes of a 64-bit number. -/
def topBytes : Nat → UInt64 → List UInt8
  | 0, _ => []
  | k + 1, n => ((n >>> 56) &&& 0xff).toUInt8 :: topBytes k (n <<< 8)

theorem length_topBytes (k : Nat) (n : UInt64) : (topBytes k n).length = k := by
  induction k generalizing n with
  | zero => rfl
  | succ k ih => rw [topBytes, List.length_cons, ih]

theorem toNat_topBytes (k m : Nat) (h : 8 * k + m = 64) (n : UInt64) : toNat (topBytes k n) = n.toNat / 2 ^ m := by
  induction k generalizing m n with
  | zero =>
    have hm : m = 64 := by omega
    rw [hm, Nat.div_eq_of_lt n.toNat_lt]
    rfl
  | succ k ih =>
    have hlt := n.toNat_lt
    have hpow : 2 ^ 56 = 256 ^ k * 2 ^ m := by
      rw [show (256 : Nat) = 2 ^ 8 from rfl, ← Nat.pow_mul, ← Nat.pow_add]
      congr 1
      omega
    have htop : ((n >>> 56) &&& 0xff).toUInt8.toNat = n.toNat / 2 ^ 56 := by
      rw [and_ff, UInt8.toNat_ofNat', UInt64.toNat_shiftRight]
      simp [Nat.shiftRight_eq_div_pow]
      omega
    have hshift : (n <<< 8).toNat = n.toNat % 2 ^ 56 * 256 := by
      rw [UInt64.toNat_shiftLeft]
      simp [Nat.shiftLeft_eq]
      omega
    have hrest : n.toNat % 2 ^ 56 * 256 / 2 ^ (m + 8) = n.toNat % 2 ^ 56 / 2 ^ m := by
      rw [Nat.pow_add]
      exact Nat.mul_div_mul_right _ _ (by norm_num)
    rw [topBytes, toNat_cons, length_topBytes, ih (m + 8) (by omega), htop, hshift, hrest]
    have hsplit : n.toNat = n.toNat % 2 ^ 56 + 2 ^ m * (n.toNat / 2 ^ 56 * 256 ^ k) := by
      have := Nat.mod_add_div n.toNat (2 ^ 56)
      calc n.toNat = n.toNat % 2 ^ 56 + 2 ^ 56 * (n.toNat / 2 ^ 56) := this.symm
        _ = n.toNat % 2 ^ 56 + 2 ^ m * (n.toNat / 2 ^ 56 * 256 ^ k) := by rw [hpow]; ring
    conv_rhs => rw [hsplit, Nat.add_mul_div_left _ _ (Nat.two_pow_pos m)]
    exact Nat.add_comm _ _

/-- The sign goes into the first byte or in front of it. -/
def withSign (sign : UInt8) : List UInt8 → List UInt8
  | [] => []
  | b :: rest => if b < 0x80 then (b + sign) :: rest else sign :: b :: rest

theorem encode_eq_withSign (n : Int) : Mpi.encode n = withSign (if n < 0 then 0x80 else 0) (ofNat n.natAbs) := by
  unfold Mpi.encode withSign
  cases ofNat n.natAbs <;> rfl

theorem ofNat_toNat_dropWhile (bytes : List UInt8) : ofNat (toNat bytes) = bytes.dropWhile (· == 0) := by
  induction bytes with
  | nil => exact ofNat_zero
  | cons b rest ih =>
    by_cases hb : b = 0
    · rw [hb, Mpi.toNat_zero_cons, ih]
      rfl
    · rw [ofNat_toNat hb, List.dropWhile_cons_of_neg (by simpa using hb)]

theorem int64Bytes_false (fNegative : Bool) (k : Nat) (n : UInt64) (p : List UInt8) :
    BnMpi.int64Bytes fNegative k n false p = p ++ topBytes k n := by
  induction k generalizing n p with
  | zero => rw [BnMpi.int64Bytes, topBytes, List.append_nil]
  | succ k ih =>
    rw [BnMpi.int64Bytes]
    simp only [Bool.false_eq_true, if_false, ih]
    rw [topBytes, List.append_assoc, List.singleton_append]

theorem int64Bytes_true (fNegative : Bool) (k : Nat) (n : UInt64) (p : List UInt8) :
    BnMpi.int64Bytes fNegative k n true p
      = p ++ withSign (if fNegative then 0x80 else 0) ((topBytes k n).dropWhile (· == 0)) := by
  induction k generalizing n p with
  | zero => simp [BnMpi.int64Bytes, topBytes, withSign]
  | succ k ih =>
    rw [BnMpi.int64Bytes, topBytes]
    simp only [if_true]
    generalize ((n >>> 56) &&& 0xff).toUInt8 = c
    by_cases hc : c = 0
    · rw [if_pos hc, ih, hc]
      rfl
    rw [if_neg hc, List.dropWhile_cons_of_neg (by simpa using hc), int64Bytes_false, int64Bytes_false]
    simp only [and_top_ne_zero, withSign]
    by_cases htop : c < 0x80
    · cases fNegative <;> simp [htop, or_top]
    · simp [htop]

theorem BnMpi.setint64_eq (sn : Int64) : bn.setint64 sn = sn.toInt := by
  have hbytes := toNat_topBytes 8 0 rfl (if decide (sn < 0) = true then (-(sn + 1)).toUInt64 + 1 else sn.toUInt64)
  rw [toNat_abs64_succ, pow_zero, Nat.div_one] at hbytes
  have hbody : BnMpi.int64Bytes (decide (sn < 0)) 8
      (if decide (sn < 0) = true then (-(sn + 1)).toUInt64 + 1 else sn.toUInt64) true [] = Mpi.encode sn.toInt := by
    rw [int64Bytes_true, ← ofNat_toNat_dropWhile, hbytes, encode_eq_withSign, decide_neg64, List.nil_append]
    simp only [decide_eq_true_eq]
  have hlength : (Mpi.encode sn.toInt).length < 2 ^ 31 := by
    have hlow := sn.le_toInt
    have hhigh := sn.toInt_lt
    exact lt_of_le_of_lt (Mpi.length_encode_le_iff (k := 9).mpr (by norm_num; omega)) (by norm_num)
  rw [BnMpi.setint64, hbody, bn.mpi2bn_frame _ hlength, Mpi.decode_encode]

theorem BnMpi.ofLong_eq (n : Int64) : bn.ofLong n = n.toInt := by
  have hcond := toInt_eq_cond n
  have hlt := n.toUInt64.toNat_lt
  have hle : 0 ≤ n ↔ 0 ≤ n.toInt := Int64.le_iff_toInt_le
  unfold BnMpi.ofLong
  by_cases hn : 0 ≤ n
  · rw [if_pos hn]
    rw [hle] at hn
    split_ifs at hcond <;> omega
  · rw [if_neg hn, bn.setint64_eq]

theorem leBytes_eq (vch : List UInt8) : leBytes vch = toNat vch.reverse := by
  induction vch with
  | nil => rfl
  | cons b rest ih =>
    rw [leBytes, ih, List.reverse_cons, toNat_append, List.length_singleton]
    have hb : toNat [b] = b.toNat := by
      rw [toNat_cons]
      simp [BigEndian.toNat]
    rw [hb]
    omega

theorem setvch_eq_decode (vch : List UInt8) : setvch vch = Mpi.decode vch.reverse := by
  unfold setvch
  rw [leBytes_eq]
  cases hrev : vch.reverse with
  | nil =>
    have hnil : vch = [] := List.reverse_eq_nil_iff.mp hrev
    rw [hnil]
    rfl
  | cons top rest =>
    have hvch : vch = rest.reverse ++ [top] := by
      rw [← List.reverse_reverse vch, hrev, List.reverse_cons]
    have hlast : vch.getLast? = some top := by rw [hvch, List.getLast?_concat]
    have hlength : vch.length - 1 = rest.length := by rw [hvch]; simp
    rw [hlast, hlength]
    dsimp only
    by_cases htop : top < 0x80
    · rw [if_neg (UInt8.not_le.mpr htop), Mpi.decode_low htop]
    · rw [if_pos (UInt8.not_lt.mp htop), Mpi.decode_high htop, toNat_cons, toNat_cons]
      have hge : 0x80 ≤ top.toNat := UInt8.le_iff_toNat_le.mp (UInt8.not_lt.mp htop)
      have hle : 0x80 * 256 ^ rest.length ≤ top.toNat * 256 ^ rest.length := Nat.mul_le_mul_right _ hge
      have hsub : (top - 0x80).toNat = top.toNat - 0x80 := UInt8.toNat_sub_of_le _ _ (UInt8.not_lt.mp htop)
      rw [hsub, Nat.sub_mul]
      omega

theorem BnMpi.setvch_eq (h : vch.length < 2 ^ 31) : bn.setvch vch = PupaCoin.setvch vch := by
  rw [BnMpi.setvch, bn.mpi2bn_frame _ (by rwa [List.length_reverse]), setvch_eq_decode]

end BnMpi

theorem toNat_or_shift {i : Nat} (hi : i < 8) {result : UInt64} (hresult : result.toNat < 256 ^ i) (b : UInt8) :
    (result ||| (b.toUInt64 <<< UInt64.ofNat (8 * i))).toNat = result.toNat + 256 ^ i * b.toNat := by
  have hpow : (256 : Nat) ^ i = 2 ^ (8 * i) := by rw [Nat.pow_mul]
  have hamount : (UInt64.ofNat (8 * i)).toNat % 64 = 8 * i := by
    rw [UInt64.toNat_ofNat']
    omega
  have hfits : b.toNat * 2 ^ (8 * i) < 2 ^ 64 := by
    have hb := b.toNat_lt
    have hle : (2 : Nat) ^ (8 * i) ≤ 2 ^ 56 := Nat.pow_le_pow_right (by norm_num) (by omega)
    calc b.toNat * 2 ^ (8 * i) ≤ b.toNat * 2 ^ 56 := Nat.mul_le_mul_left _ hle
      _ < 2 ^ 64 := by omega
  rw [hpow] at hresult ⊢
  rw [UInt64.toNat_or, UInt64.toNat_shiftLeft, UInt8.toNat_toUInt64, hamount, Nat.shiftLeft_eq, Nat.mod_eq_of_lt hfits,
    Nat.mul_comm b.toNat, Nat.or_comm, ← Nat.two_pow_add_eq_or_of_lt hresult, Nat.add_comm]

theorem toNat_orBytes (i : Nat) (result : UInt64) (vch : List UInt8) (hlength : i + vch.length ≤ 8)
    (hresult : result.toNat < 256 ^ i) :
    (CScriptNum.orBytes i result vch).toNat = result.toNat + 256 ^ i * leBytes vch := by
  induction vch generalizing i result with
  | nil => rw [CScriptNum.orBytes, leBytes, Nat.mul_zero, Nat.add_zero]
  | cons b vch ih =>
    rw [List.length_cons] at hlength
    have hbyte := toNat_or_shift (i := i) (by omega) hresult b
    have hb := b.toNat_lt
    have hle : 256 ^ i * b.toNat ≤ 256 ^ i * 255 := Nat.mul_le_mul_left _ (by omega)
    have hnext : (result ||| (b.toUInt64 <<< UInt64.ofNat (8 * i))).toNat < 256 ^ (i + 1) := by
      rw [hbyte, pow_succ]
      omega
    rw [CScriptNum.orBytes, ih (i + 1) _ (by omega) hnext, hbyte, leBytes, pow_succ]
    ring

theorem toNat_and_not_bit {m : UInt64} {y k : Nat} (hk : k < 64) (hy : y < 2 ^ k) (hx : x.toNat = 2 ^ k + y)
    (hm : m.toNat = 2 ^ k) : (x &&& ~~~m).toNat = y := by
  have hnot : (~~~m).toNat = 2 ^ 64 - (2 ^ k + 1) := by
    have : (~~~m).toNat = 2 ^ 64 - 1 - m.toNat := UInt64.toNat_not m
    omega
  have hbit : 2 ^ k < 2 ^ 64 := Nat.pow_lt_pow_right (by norm_num) hk
  rw [UInt64.toNat_and, hx, hnot]
  refine Nat.eq_of_testBit_eq fun i => ?_
  rw [Nat.testBit_and, Nat.testBit_two_pow_sub_succ hbit, Nat.testBit_two_pow]
  rcases Nat.lt_trichotomy i k with hlt | rfl | hgt
  · rw [Nat.testBit_two_pow_add_gt hlt]
    simp [hlt.trans hk, hlt.ne']
  · rw [Nat.testBit_lt_two_pow hy]
    simp
  · have hsum : 2 ^ k + y < 2 ^ i := by
      have : 2 ^ (k + 1) ≤ 2 ^ i := Nat.pow_le_pow_right (by norm_num) hgt
      rw [pow_succ] at this
      omega
    rw [Nat.testBit_lt_two_pow hsum, Nat.testBit_lt_two_pow (hy.trans (Nat.pow_lt_pow_right (by norm_num) hgt))]
    rfl

theorem leBytes_append (init : List UInt8) (top : UInt8) :
    leBytes (init ++ [top]) = leBytes init + 256 ^ init.length * top.toNat := by
  rw [leBytes_eq, leBytes_eq, List.reverse_append, List.reverse_singleton, List.singleton_append, toNat_cons,
    List.length_reverse]
  ring

theorem leBytes_lt (vch : List UInt8) : leBytes vch < 256 ^ vch.length := by
  rw [leBytes_eq, ← List.length_reverse]
  exact toNat_lt _

theorem toInt_toInt64 (h : x.toNat < 2 ^ 63) : x.toInt64.toInt = x.toNat := by
  have hcond := toInt_eq_cond x.toInt64
  rw [UInt64.toUInt64_toInt64, if_pos (by omega)] at hcond
  exact hcond

theorem toInt_neg_toInt64 (h : x.toNat < 2 ^ 63) : (-x.toInt64).toInt = -x.toNat := by
  have hcond := toInt_eq_cond (-x.toInt64)
  rw [toNat_neg64, UInt64.toUInt64_toInt64] at hcond
  split_ifs at hcond <;> omega

theorem setVch_eq (h : vch.length ≤ 8) : (CScriptNum.setVch vch).map Int64.toInt = some (setvch vch) := by
  rcases List.eq_nil_or_concat' vch with rfl | ⟨init, top, rfl⟩
  · rfl
  have hinit : init.length < 8 := by simpa using h
  have hvalue : (CScriptNum.orBytes 0 0 (init ++ [top])).toNat = leBytes init + 256 ^ init.length * top.toNat := by
    rw [toNat_orBytes 0 0 _ (by omega) (by decide), leBytes_append]
    simp
  have hlow := leBytes_lt init
  have hpow : (256 : Nat) ^ init.length = 2 ^ (8 * init.length) := by rw [Nat.pow_mul]
  have hroom : 256 ^ init.length ≤ 2 ^ 56 := by
    rw [hpow]
    exact Nat.pow_le_pow_right (by norm_num) (by omega)
  have hlast : (init ++ [top]).length - 1 = init.length := by simp
  unfold CScriptNum.setVch setvch
  rw [if_neg (by simp), if_neg (Nat.not_lt.mpr h)]
  dsimp only
  rw [List.getLastD_concat, List.getLast?_concat, hlast]
  dsimp only
  rw [leBytes_append]
  by_cases htop : top < 0x80
  · have ht : top.toNat ≤ 127 := Nat.le_of_lt_succ (UInt8.lt_iff_toNat_lt.mp htop)
    have hle : 256 ^ init.length * top.toNat ≤ 256 ^ init.length * 127 := Nat.mul_le_mul_left _ ht
    rw [if_neg (mt (and_top_ne_zero top).mp (not_not.mpr htop)), if_neg (UInt8.not_le.mpr htop), Option.map_some,
      toInt_toInt64 (by omega), hvalue]
  · have ht : 128 ≤ top.toNat := UInt8.le_iff_toNat_le.mp (UInt8.not_lt.mp htop)
    have htlt := top.toNat_lt
    obtain ⟨t, ht'⟩ := Nat.exists_eq_add_of_le ht
    have hle : 256 ^ init.length * t ≤ 256 ^ init.length * 127 := Nat.mul_le_mul_left _ (by omega)
    have hmask : ((0x80 : UInt64) <<< UInt64.ofNat (8 * init.length)).toNat = 2 ^ (8 * init.length + 7) := by
      have := toNat_or_shift hinit (show (0 : UInt64).toNat < 256 ^ init.length by simp) 0x80
      rw [UInt64.zero_or, hpow] at this
      rw [pow_add, Nat.mul_comm]
      simpa [Nat.mul_comm] using this
    have hsign : (2 : Nat) ^ (8 * init.length + 7) = 256 ^ init.length * 128 := by
      rw [pow_add, hpow]
      norm_num
    have hclear := toNat_and_not_bit (x := CScriptNum.orBytes 0 0 (init ++ [top])) (y := leBytes init + 256 ^ init.length * t)
      (by omega) (by omega) (by rw [hvalue, ht', Nat.mul_add, hsign]; omega) hmask
    rw [if_pos ((and_top_ne_zero top).mpr htop), if_pos (UInt8.not_lt.mp htop), Option.map_some,
      toInt_neg_toInt64 (by omega), hclear, ht', Nat.mul_add]
    congr 2
    omega

/-- **The two encodings are one.** Every number but the least has the same string in both, which both read back, and
    strings of up to four bytes are the same number to both. `CBigNum` takes the least number, too; the other class
    has no defined result for it. -/
theorem scriptNum_agrees (bn : BnMpi) :
    (∀ n : Int64, n ≠ Int64.minValue → CScriptNum.serialize n = some (bn.getvch (bn.ofLong n)) ∧
      CScriptNum.setVch (bn.getvch (bn.ofLong n)) = some n) ∧
    (∀ n : Int64, bn.ofLong n = bn.setint64 n ∧ bn.setvch (bn.getvch (bn.ofLong n)) = n.toInt) ∧
    ∀ vch : List UInt8, vch.length ≤ 4 → (CScriptNum.setVch vch).map Int64.toInt = some (bn.setvch vch) := by
  have hlength : ∀ n : Int64, (getvch n.toInt).length ≤ 9 := by
    intro n
    have hlow := n.le_toInt
    have hhigh := n.toInt_lt
    rw [getvch_eq_encode, List.length_reverse]
    exact Mpi.length_encode_le_iff.mpr (by norm_num; omega)
  have hback : ∀ n : Int, setvch (getvch n) = n := by
    intro n
    rw [getvch_eq_encode, setvch_eq_decode, List.reverse_reverse, Mpi.decode_encode]
  refine ⟨fun n hn => ?_, fun n => ⟨?_, ?_⟩, fun vch hvch => ?_⟩
  · rw [bn.ofLong_eq, bn.getvch_eq]
    refine ⟨serialize_eq hn, ?_⟩
    have hshort : (getvch n.toInt).length ≤ 8 := by
      have hne : n.toInt ≠ -2 ^ 63 := fun h => hn (Int64.toInt_inj.mp h)
      have hlow := n.le_toInt
      have hhigh := n.toInt_lt
      rw [getvch_eq_encode, List.length_reverse]
      exact Mpi.length_encode_le_iff.mpr (by norm_num; omega)
    have hread := setVch_eq hshort
    rw [hback, Option.map_eq_some_iff] at hread
    obtain ⟨m, hm, heq⟩ := hread
    rw [hm, Int64.toInt_inj.mp heq]
  · rw [bn.ofLong_eq, bn.setint64_eq]
  · rw [bn.ofLong_eq, bn.getvch_eq, bn.setvch_eq (lt_of_le_of_lt (hlength n) (by norm_num)), hback]
  · rw [bn.setvch_eq (lt_of_le_of_lt hvch (by norm_num)), setVch_eq (by omega)]

theorem scriptNum_agrees_sample :
    (CScriptNum.serialize (-255) = some (Sample.bnMpi.getvch (Sample.bnMpi.ofLong (-255))) ∧
      CScriptNum.setVch (Sample.bnMpi.getvch (Sample.bnMpi.ofLong (-255))) = some (-255)) ∧
    (CScriptNum.setVch [0x00, 0x80]).map Int64.toInt = some (Sample.bnMpi.setvch [0x00, 0x80]) :=
  ⟨(scriptNum_agrees Sample.bnMpi).1 (-255) (by decide), (scriptNum_agrees Sample.bnMpi).2.2 [0x00, 0x80] (by decide)⟩

/-- The least number has a string of nine bytes that only `CBigNum` writes and reads. -/
theorem scriptNum_least :
    CScriptNum.serialize Int64.minValue ≠ some (Sample.bnMpi.getvch (Sample.bnMpi.ofLong Int64.minValue)) ∧
      CScriptNum.setVch (Sample.bnMpi.getvch (Sample.bnMpi.ofLong Int64.minValue)) ≠ some Int64.minValue := by
  have hstring : Sample.bnMpi.getvch (Sample.bnMpi.ofLong Int64.minValue) = [0, 0, 0, 0, 0, 0, 0, 0x80, 0x80] := by
    have hleast : Int64.minValue.toInt = Mpi.decode [0x80, 0x80, 0, 0, 0, 0, 0, 0, 0] := by decide
    rw [BnMpi.ofLong_eq, BnMpi.getvch_eq, getvch_eq_encode, hleast, Mpi.encode_decode (by decide)]
    rfl
  rw [hstring]
  exact ⟨by decide, by decide⟩

end PupaCoin
