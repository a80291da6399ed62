import PupaCoin.Chain.Serialize
import PupaCoin.Script.Proofs.ScriptNumProofs

/-!
# Integers of variable length (`serialize.h`)

A number is written as digits to the base 128, the highest first. Every byte but the last has its top bit set and
counts one more than its digit, so that no number has two encodings.
-/

namespace PupaCoin

open Codec

theorem toNat_shiftDigits {n : UInt64} (h : ¬n ≤ 0x7f) : ((n >>> 7) - 1).toNat = n.toNat / 128 - 1 := by
  have hn : 0x7f < n.toNat := Nat.not_le.mp fun hle => h (UInt64.le_iff_toNat_le.mpr hle)
  have hshift : (n >>> 7).toNat = n.toNat / 128 := by
    rw [UInt64.toNat_shiftRight]
    exact Nat.shiftRight_eq_div_pow _ 7
  have hle : (1 : UInt64) ≤ n >>> 7 := by
    refine UInt64.le_iff_toNat_le.mpr ?_
    rw [hshift]
    show 1 ≤ n.toNat / 128
    omega
  rw [UInt64.toNat_sub_of_le _ _ hle, hshift]
  rfl

theorem shiftDigits_lt {n : UInt64} (h : ¬n ≤ 0x7f) : ((n >>> 7) - 1).toNat < n.toNat := by
  have hn : 0x7f < n.toNat := Nat.not_le.mp fun hle => h (UInt64.le_iff_toNat_le.mpr hle)
  rw [toNat_shiftDigits h]
  omega

namespace VarInt

/-- `GetSizeOfVarInt`. -/
def getSize (n : UInt64) : Nat := if n ≤ 0x7f then 1 else getSize ((n >>> 7) - 1) + 1
termination_by n.toNat
decreasing_by exact shiftDigits_lt ‹_›

/-- What the loop of `WriteVarInt` puts in `tmp` from the place `len` on. -/
def tmpFrom (n : UInt64) (len : Nat) : List UInt8 :=
  let byte := (n &&& 0x7f).toUInt8 ||| (if len ≠ 0 then 0x80 else 0x00)
  if n ≤ 0x7f then [byte] else byte :: tmpFrom ((n >>> 7) - 1) (len + 1)
termination_by n.toNat
decreasing_by exact shiftDigits_lt ‹_›

/-- The size of `tmp`. -/
def tmpSize : Nat := (8 * 8 + 6) / 7

/-- `WriteVarInt`. -/
def write (n : UInt64) : List UInt8 := (tmpFrom n 0).reverse

/-- The loop of `ReadVarInt`, from what it has read so far. -/
def readFrom (n : UInt64) : ReadM UInt64
  | [] => (.error "CDataStream::read() : end of data", [])
  | chData :: s =>
    let n := n <<< 7 ||| (chData &&& 0x7f).toUInt64
    if chData &&& 0x80 ≠ 0 then readFrom (n + 1) s else (.ok n, s)

/-- `ReadVarInt`. -/
def read : ReadM UInt64 := readFrom 0

/-- The digits before the last, with one added for each, behind what stands before them. -/
def leadValue (n : Nat) (init : List UInt8) : Nat := init.foldl (fun n chData => n * 128 + chData.toNat % 128 + 1) n

/-- The number of a sequence of bytes, of which `last` is the first below 128. -/
def value (init : List UInt8) (last : UInt8) : Nat := leadValue 0 init * 128 + last.toNat

def Continued (init : List UInt8) : Prop := ∀ chData ∈ init, 128 ≤ chData.toNat

section Value

variable {n : Nat} {init : List UInt8} {chData last : UInt8}

theorem leadValue_concat (n : Nat) (init : List UInt8) (chData : UInt8) :
    leadValue n (init ++ [chData]) = leadValue n init * 128 + chData.toNat % 128 + 1 := by
  rw [leadValue, List.foldl_append]
  rfl

theorem Continued.nil : Continued [] := fun _ hb => nomatch hb

theorem Continued.tail (h : Continued (chData :: init)) : Continued init := fun b hb => h b (List.mem_cons_of_mem _ hb)

theorem le_leadValue (n : Nat) (init : List UInt8) : n * 128 ^ init.length ≤ leadValue n init := by
  induction init generalizing n with
  | nil => simp [leadValue]
  | cons chData init ih =>
    have hstep := ih (n * 128 + chData.toNat % 128 + 1)
    have hscale : n * 128 * 128 ^ init.length ≤ (n * 128 + chData.toNat % 128 + 1) * 128 ^ init.length :=
      Nat.mul_le_mul_right _ (by omega)
    rw [List.length_cons, Nat.pow_succ']
    calc n * (128 * 128 ^ init.length) = n * 128 * 128 ^ init.length := (Nat.mul_assoc _ _ _).symm
      _ ≤ (n * 128 + chData.toNat % 128 + 1) * 128 ^ init.length := hscale
      _ ≤ leadValue n (chData :: init) := hstep

theorem pow_le_value (init : List UInt8) (last : UInt8) (hne : init ≠ []) : 128 ^ init.length ≤ value init last := by
  obtain ⟨chData, init, rfl⟩ := List.exists_cons_of_ne_nil hne
  have hle := le_leadValue (0 * 128 + chData.toNat % 128 + 1) init
  have hpos : 1 * 128 ^ init.length ≤ (0 * 128 + chData.toNat % 128 + 1) * 128 ^ init.length :=
    Nat.mul_le_mul_right _ (by omega)
  have hvalue : leadValue 0 (chData :: init) = leadValue (0 * 128 + chData.toNat % 128 + 1) init := rfl
  rw [value, hvalue, List.length_cons, Nat.pow_succ]
  omega

theorem leadValue_injective {init init' : List UInt8} (h : Continued init) (h' : Continued init')
    (heq : leadValue 0 init = leadValue 0 init') : init = init' := by
  induction init using List.reverseRecOn generalizing init' with
  | nil =>
    rcases List.eq_nil_or_concat' init' with rfl | ⟨front, chData, rfl⟩
    · rfl
    · rw [leadValue_concat] at heq
      exact absurd heq (by simp [leadValue])
  | append_singleton init chData ih =>
    rcases List.eq_nil_or_concat' init' with rfl | ⟨front, chData', rfl⟩
    · rw [leadValue_concat] at heq
      exact absurd heq (by simp [leadValue])
    · rw [leadValue_concat, leadValue_concat] at heq
      have hbyte := h chData (by simp)
      have hbyte' := h' chData' (by simp)
      have hlt := chData.toNat_lt
      have hlt' := chData'.toNat_lt
      have hlast : chData = chData' := UInt8.toNat_inj.mp (by omega)
      rw [hlast, ih (fun b hb => h b (List.mem_append_left _ hb)) (fun b hb => h' b (List.mem_append_left _ hb)) (by omega)]

end Value

section Bytes

variable {n : UInt64} {len : Nat} {init rest s : List UInt8} {chData last : UInt8}

theorem toNat_digit (n : UInt64) : (n &&& 0x7f).toUInt8.toNat = n.toNat % 128 := by
  have hlow : n.toNat &&& 127 = n.toNat % 128 := Nat.and_two_pow_sub_one_eq_mod n.toNat 7
  rw [UInt64.toNat_toUInt8, UInt64.toNat_and]
  show (n.toNat &&& 127) % 256 = _
  omega

theorem toNat_tmpByte (n : UInt64) (len : Nat) :
    (len ≠ 0 → ((n &&& 0x7f).toUInt8 ||| (if len ≠ 0 then 0x80 else 0x00)).toNat = n.toNat % 128 + 128) ∧
    (len = 0 → ((n &&& 0x7f).toUInt8 ||| (if len ≠ 0 then 0x80 else 0x00)).toNat = n.toNat % 128) := by
  have hbits : ∀ d : UInt8, d.toNat < 128 → (d ||| 0x80).toNat = d.toNat + 128 ∧ (d ||| 0x00).toNat = d.toNat :=
    forall_byte (by decide +kernel)
  have hdigit := toNat_digit n
  obtain ⟨htop, hzero⟩ := hbits (n &&& 0x7f).toUInt8 (by omega)
  refine ⟨fun hlen => ?_, fun hlen => ?_⟩
  · rw [if_pos hlen, htop, hdigit]
  · rw [if_neg (not_not.mpr hlen), hzero, hdigit]

theorem toNat_le_iff : n ≤ 0x7f ↔ n.toNat < 128 := by
  rw [UInt64.le_iff_toNat_le]
  exact Nat.lt_succ_iff.symm

/-- The digits behind the last one stand for one more than the number that is left. By induction on the digits. -/
theorem tmpFrom_spec (n : UInt64) (len : Nat) (hlen : len ≠ 0) :
    Continued (tmpFrom n len).reverse ∧ leadValue 0 (tmpFrom n len).reverse = n.toNat + 1 := by
  induction n, len using tmpFrom.induct with
  | case1 n len hsmall =>
    have hbyte := (toNat_tmpByte n len).1 hlen
    have hn := toNat_le_iff.mp hsmall
    rw [tmpFrom, if_pos hsmall, List.reverse_singleton]
    refine ⟨fun b hb => ?_, ?_⟩
    · rw [List.mem_singleton.mp hb, hbyte]
      omega
    · rw [← List.nil_append [_], leadValue_concat, hbyte]
      show 0 * 128 + (n.toNat % 128 + 128) % 128 + 1 = n.toNat + 1
      omega
  | case2 n len hlarge ih =>
    have hbyte := (toNat_tmpByte n len).1 hlen
    have hn := mt toNat_le_iff.mpr hlarge
    obtain ⟨hcontinued, hvalue⟩ := ih (Nat.succ_ne_zero len)
    rw [tmpFrom, if_neg hlarge, List.reverse_cons]
    refine ⟨fun b hb => ?_, ?_⟩
    · rcases List.mem_append.mp hb with hb | hb
      · exact hcontinued b hb
      · rw [List.mem_singleton.mp hb, hbyte]
        omega
    · rw [leadValue_concat, hvalue, toNat_shiftDigits hlarge, hbyte]
      omega

theorem length_tmpFrom (n : UInt64) (len : Nat) : (tmpFrom n len).length = getSize n := by
  induction n, len using tmpFrom.induct with
  | case1 n len hsmall =>
    rw [tmpFrom, if_pos hsmall, getSize, if_pos hsmall]
    rfl
  | case2 n len hlarge ih =>
    rw [tmpFrom, if_neg hlarge, getSize, if_neg hlarge, List.length_cons, ih]

theorem write_spec (n : UInt64) :
    ∃ init last, write n = init ++ [last] ∧ Continued init ∧ last.toNat < 128 ∧ value init last = n.toNat := by
  have hbyte := (toNat_tmpByte n 0).2 rfl
  unfold write
  rw [tmpFrom]
  split
  · next hsmall =>
    have hn := toNat_le_iff.mp hsmall
    refine ⟨[], _, rfl, Continued.nil, ?_, ?_⟩
    · rw [hbyte]
      omega
    · rw [value, hbyte]
      show 0 * 128 + _ = _
      omega
  · next hlarge =>
    have hn := mt toNat_le_iff.mpr hlarge
    obtain ⟨hcontinued, hvalue⟩ := tmpFrom_spec ((n >>> 7) - 1) 1 one_ne_zero
    refine ⟨(tmpFrom ((n >>> 7) - 1) 1).reverse, _, List.reverse_cons, hcontinued, ?_, ?_⟩
    · rw [hbyte]
      omega
    · rw [value, hvalue, toNat_shiftDigits hlarge, hbyte]
      omega

theorem readFrom_cons (n : UInt64) (chData : UInt8) (s : List UInt8) : readFrom n (chData :: s)
    = if chData &&& 0x80 ≠ 0 then readFrom ((n <<< 7 ||| (chData &&& 0x7f).toUInt64) + 1) s
      else (.ok (n <<< 7 ||| (chData &&& 0x7f).toUInt64), s) := rfl

theorem topBit_iff : ∀ chData : UInt8, chData &&& 0x80 ≠ 0 ↔ 128 ≤ chData.toNat := forall_byte (by decide +kernel)

theorem toNat_appendDigit (hfits : n.toNat * 128 + chData.toNat % 128 < 2 ^ 64) :
    (n <<< 7 ||| (chData &&& 0x7f).toUInt64).toNat = n.toNat * 128 + chData.toNat % 128 := by
  have hlow : chData.toNat &&& 127 = chData.toNat % 128 := Nat.and_two_pow_sub_one_eq_mod chData.toNat 7
  have hdigit : (chData &&& 0x7f).toUInt64.toNat = chData.toNat % 128 := by
    rw [UInt8.toNat_toUInt64, UInt8.toNat_and]
    exact hlow
  have hshift : (n <<< 7).toNat = n.toNat * 2 ^ 7 := by
    rw [UInt64.toNat_shiftLeft, Nat.shiftLeft_eq]
    show n.toNat * 2 ^ 7 % 2 ^ 64 = _
    omega
  have hor : n.toNat * 2 ^ 7 ||| chData.toNat % 128 = n.toNat * 2 ^ 7 + chData.toNat % 128 :=
    or_eq_add (Nat.dvd_mul_left _ _) (Nat.mod_lt _ (by norm_num))
  rw [UInt64.toNat_or, hshift, hdigit, hor]
  omega

/-- The bytes up to the first one below 128 are read as their value, if that fits. By induction on the bytes. -/
theorem readFrom_eq (hcontinued : Continued init) (hlast : last.toNat < 128)
    (hfits : leadValue n.toNat init * 128 + last.toNat < 2 ^ 64) (rest : List UInt8) :
    readFrom n (init ++ last :: rest) = (.ok (UInt64.ofNat (leadValue n.toNat init * 128 + last.toNat)), rest) := by
  induction init generalizing n with
  | nil =>
    have htop : ¬last &&& 0x80 ≠ 0 := fun h => absurd ((topBit_iff last).mp h) (by omega)
    have hvalue : (n <<< 7 ||| (last &&& 0x7f).toUInt64).toNat = n.toNat * 128 + last.toNat := by
      rw [toNat_appendDigit] <;> rw [Nat.mod_eq_of_lt hlast]
      exact hfits
    rw [List.nil_append, readFrom_cons, if_neg htop, ← UInt64.ofNat_toNat (x := _ ||| _), hvalue]
    rfl
  | cons chData init ih =>
    have htop : chData &&& 0x80 ≠ 0 := (topBit_iff chData).mpr (hcontinued chData List.mem_cons_self)
    have hroom := le_leadValue (n.toNat * 128 + chData.toNat % 128 + 1) init
    have hpos : 0 < 128 ^ init.length := Nat.pow_pos (by norm_num)
    have hstep : n.toNat * 128 + chData.toNat % 128 + 1 ≤ leadValue (n.toNat * 128 + chData.toNat % 128 + 1) init :=
      (Nat.le_mul_of_pos_right _ hpos).trans hroom
    have hlead : leadValue n.toNat (chData :: init) = leadValue (n.toNat * 128 + chData.toNat % 128 + 1) init := rfl
    rw [hlead] at hfits ⊢
    have hnext : ((n <<< 7 ||| (chData &&& 0x7f).toUInt64) + 1).toNat = n.toNat * 128 + chData.toNat % 128 + 1 := by
      rw [UInt64.toNat_add, toNat_appendDigit (by omega)]
      show (_ + 1) % 2 ^ 64 = _
      omega
    rw [List.cons_append, readFrom_cons, if_pos htop, ih hcontinued.tail (by rwa [hnext]), hnext]

theorem read_eq (hcontinued : Continued init) (hlast : last.toNat < 128) (hfits : value init last < 2 ^ 64)
    (rest : List UInt8) : read (init ++ last :: rest) = (.ok (UInt64.ofNat (value init last)), rest) := by
  have hzero : (0 : UInt64).toNat = 0 := rfl
  have h := readFrom_eq (n := 0) hcontinued hlast (by rwa [hzero]) rest
  rwa [hzero] at h

theorem readFrom_total (n : UInt64) (s : List UInt8) :
    (Continued s ∧ readFrom n s = (.error "CDataStream::read() : end of data", [])) ∨
    (∃ init last rest m, s = init ++ last :: rest ∧ Continued init ∧ last.toNat < 128 ∧ readFrom n s = (.ok m, rest)) := by
  induction s generalizing n with
  | nil => exact .inl ⟨Continued.nil, rfl⟩
  | cons chData s ih =>
    rw [readFrom_cons]
    by_cases htop : 128 ≤ chData.toNat
    · rw [if_pos ((topBit_iff chData).mpr htop)]
      have hcons : ∀ {init : List UInt8}, Continued init → Continued (chData :: init) := by
        intro init h b hb
        rcases List.mem_cons.mp hb with rfl | hb
        · exact htop
        · exact h b hb
      rcases ih _ with ⟨hcontinued, hread⟩ | ⟨init, last, rest, m, rfl, hcontinued, hlast, hread⟩
      · exact .inl ⟨hcons hcontinued, hread⟩
      · exact .inr ⟨chData :: init, last, rest, m, rfl, hcons hcontinued, hlast, hread⟩
    · rw [if_neg fun h => htop ((topBit_iff chData).mp h)]
      exact .inr ⟨[], chData, s, _, rfl, Continued.nil, Nat.lt_of_not_le htop, rfl⟩

theorem getSize_le (n : UInt64) : getSize n ≤ tmpSize := by
  obtain ⟨init, last, hwrite, -, -, hvalue⟩ := write_spec n
  have hlength : (write n).length = init.length + 1 := by rw [hwrite, List.length_append, List.length_singleton]
  rw [write, List.length_reverse, length_tmpFrom] at hlength
  by_contra hlarge
  have hten : 10 ≤ init.length := by
    unfold tmpSize at hlarge
    omega
  have hpow := pow_le_value init last (List.ne_nil_of_length_pos (by omega))
  have hmono : 128 ^ 10 ≤ 128 ^ init.length := Nat.pow_le_pow_right (by norm_num) hten
  have hlt := n.toNat_lt
  omega

end Bytes

/-- The numbers of 64 bits and the sequences of bytes that end at their first byte below 128 with a value of 64 bits
stand for each other; every number is read back, from `getSize` bytes that fit `tmp`, and nothing behind the first
byte below 128 is read. -/
theorem bijective :
    (∀ (n : UInt64) (rest : List UInt8), read (write n ++ rest) = (.ok n, rest) ∧ (write n).length = getSize n ∧
      (write n).length ≤ tmpSize) ∧
    (∀ (init : List UInt8) (last : UInt8), Continued init → last.toNat < 128 → value init last < 2 ^ 64 →
      (∃! n, write n = init ++ [last]) ∧ write (UInt64.ofNat (value init last)) = init ++ [last]) ∧
    (∀ s, (Continued s ∧ read s = (.error "CDataStream::read() : end of data", [])) ∨
      ∃ init last rest n, s = init ++ last :: rest ∧ Continued init ∧ last.toNat < 128 ∧ read s = (.ok n, rest) ∧
        (value init last < 2 ^ 64 → n = UInt64.ofNat (value init last))) := by
  have hread : ∀ {init : List UInt8} {last : UInt8} (rest : List UInt8), Continued init → last.toNat < 128 →
      value init last < 2 ^ 64 → read (init ++ last :: rest) = (.ok (UInt64.ofNat (value init last)), rest) :=
    fun rest hcontinued hlast hfits => read_eq hcontinued hlast hfits rest
  have hback : ∀ (n : UInt64) (rest : List UInt8), read (write n ++ rest) = (.ok n, rest) := by
    intro n rest
    obtain ⟨init, last, hwrite, hcontinued, hlast, hvalue⟩ := write_spec n
    rw [hwrite, List.append_assoc, List.singleton_append, hread rest hcontinued hlast (hvalue ▸ n.toNat_lt), hvalue,
      UInt64.ofNat_toNat]
  have hlength : ∀ n, (write n).length = getSize n := fun n => by rw [write, List.length_reverse, length_tmpFrom]
  refine ⟨fun n rest => ⟨hback n rest, hlength n, ?_⟩, fun init last hcontinued hlast hfits => ?_, fun s => ?_⟩
  · rw [hlength]
    exact getSize_le n
  · have hwrite : write (UInt64.ofNat (value init last)) = init ++ [last] := by
      obtain ⟨init', last', hwrite, hcontinued', hlast', hvalue⟩ := write_spec (UInt64.ofNat (value init last))
      rw [UInt64.toNat_ofNat', Nat.mod_eq_of_lt hfits, value, value] at hvalue
      have hsame : last' = last := UInt8.toNat_inj.mp (by omega)
      rw [hwrite, hsame, leadValue_injective hcontinued' hcontinued (by omega)]
    refine ⟨⟨_, hwrite, fun n hn => ?_⟩, hwrite⟩
    have h := hback n []
    rw [hn, ← hwrite, hback, Prod.mk.injEq, Except.ok.injEq] at h
    exact h.1.symm
  · rcases readFrom_total 0 s with hend | ⟨init, last, rest, n, rfl, hcontinued, hlast, h⟩
    · exact .inl hend
    · refine .inr ⟨init, last, rest, n, rfl, hcontinued, hlast, h, fun hfits => ?_⟩
      have h' := hread rest hcontinued hlast hfits
      have hboth := h.symm.trans h'
      rw [Prod.mk.injEq, Except.ok.injEq] at hboth
      exact hboth.1

end VarInt

end PupaCoin
