import PupaCoin.Script.Proofs.ScriptNumProofs
import PupaCoin.Wallet.Address
import Mathlib.Data.List.TakeWhile

/-!
# Base 58: proofs

The digits of a number are its string, without any zero in front; bytes and strings with zeros in front are the same
numbers. The decoder skips these zeros, so that it takes what the encoder wrote for the bytes behind them.
-/

namespace PupaCoin

open Nat (ofDigits)

def base58Char (d : Nat) : Char := pszBase58.getD d '1'

theorem base58Char_digit : ∀ d : Fin 58, pszBase58.idxOf? (base58Char d) = some d.val ∧
    base58Char d ≠ Char.ofNat 0 ∧ isSpace (base58Char d) = false ∧ (base58Char d = '1' ↔ d.val = 0) := by
  decide +kernel

def base58Digits (n : Nat) : List Char := (Nat.digits 58 n).reverse.map base58Char

section Base58

variable {d n : Nat} {ds : List Nat}

theorem idxOf_base58Char (h : d < 58) : pszBase58.idxOf? (base58Char d) = some d := (base58Char_digit ⟨d, h⟩).1

theorem base58Number_map (hds : ∀ d ∈ ds, d < 58) (bn : Nat) :
    base58Number (ds.map base58Char) bn = some (bn * 58 ^ ds.length + ofDigits 58 ds.reverse) := by
  induction ds generalizing bn with
  | nil => simp [base58Number]
  | cons d ds ih =>
    rw [List.map_cons, base58Number, idxOf_base58Char (hds d List.mem_cons_self)]
    dsimp only
    rw [ih fun e he => hds e (List.mem_cons_of_mem d he), List.reverse_cons, Nat.ofDigits_append,
      Nat.ofDigits_singleton, List.length_reverse, List.length_cons]
    congr 1
    ring

theorem trim_getvch (n : Nat) :
    (if (getvch n).length ≥ 2 ∧ (getvch n).getLastD 0 = 0 ∧ (getvch n).dropLast.getLastD 0 ≥ 0x80 then
      (getvch n).dropLast else getvch n).reverse = BigEndian.ofNat n := by
  have hencode : Mpi.encode n = withSign 0 (BigEndian.ofNat n) := by
    rw [encode_eq_withSign, if_neg (not_lt.mpr (Int.natCast_nonneg n)), Int.natAbs_natCast]
  rw [getvch_eq_encode, hencode]
  cases hbytes : BigEndian.ofNat n with
  | nil => rfl
  | cons b rest =>
    have hne := BigEndian.ne_zero_of_ofNat_eq hbytes
    unfold withSign
    by_cases hb : b < 0x80
    · simp [hb, hne]
    · simp [hb, UInt8.not_lt.mp hb]

theorem digit_lt : ∀ d ∈ (Nat.digits 58 n).reverse, d < 58 := fun _ hd =>
  Nat.digits_lt_base (by norm_num) (List.mem_reverse.mp hd)

theorem digits_of_head (hds : ∀ d ∈ ds, d < 58) (hhead : ds.head? ≠ some 0) :
    Nat.digits 58 (ofDigits 58 ds.reverse) = ds.reverse := by
  refine Nat.digits_ofDigits 58 (by norm_num) _ (fun d hd => hds d (List.mem_reverse.mp hd)) fun hne => ?_
  rw [List.getLast_reverse]
  intro h0
  exact hhead (by rw [← h0, List.head?_eq_some_head])

theorem head_digits (n : Nat) : (Nat.digits 58 n).reverse.head? ≠ some 0 := by
  intro h
  rw [List.head?_reverse] at h
  have hne : Nat.digits 58 n ≠ [] := fun hnil => by rw [hnil] at h; cases h
  rw [List.getLast?_eq_some_getLast hne, Option.some.injEq] at h
  exact Nat.getLast_digit_ne_zero 58 (Nat.digits_ne_nil_iff_ne_zero.mp hne) h

theorem mem_base58Digits {c : Char} (hc : c ∈ base58Digits n) : c ≠ Char.ofNat 0 ∧ isSpace c = false := by
  obtain ⟨d, hd, rfl⟩ := List.mem_map.mp hc
  obtain ⟨-, hnull, hspace, -⟩ := base58Char_digit ⟨d, digit_lt d hd⟩
  exact ⟨hnull, hspace⟩

theorem head_base58Digits (n : Nat) : (base58Digits n).head? ≠ some '1' := by
  intro h
  rw [base58Digits, List.head?_map, Option.map_eq_some_iff] at h
  obtain ⟨d, hd, hone⟩ := h
  have hzero := (base58Char_digit ⟨d, digit_lt d (List.mem_of_head? hd)⟩).2.2.2.mp hone
  exact head_digits n (hd.trans (congrArg some hzero))

theorem base58Number_digits (n : Nat) : base58Number (base58Digits n) 0 = some n := by
  rw [base58Digits, base58Number_map digit_lt, List.reverse_reverse, Nat.ofDigits_digits, Nat.zero_mul, Nat.zero_add]

/-- Without spaces, only digits are read. By induction on the string. -/
theorem digits_of_base58Number {p : List Char} {bn : Nat} (hspaces : ∀ c ∈ p, isSpace c = false)
    (h : base58Number p bn = some n) : ∃ ds : List Nat, (∀ d ∈ ds, d < 58) ∧ p = ds.map base58Char := by
  induction p generalizing bn with
  | nil => exact ⟨[], nofun, rfl⟩
  | cons c p ih =>
    rw [base58Number] at h
    cases hindex : pszBase58.idxOf? c with
    | none =>
      rw [hindex] at h
      dsimp only at h
      rw [List.dropWhile_cons_of_neg (by rw [hspaces c List.mem_cons_self]; decide), if_neg (List.cons_ne_nil _ _)] at h
      cases h
    | some d =>
      rw [hindex] at h
      obtain ⟨ds, hds, hp⟩ := ih (fun e he => hspaces e (List.mem_cons_of_mem c he)) h
      obtain ⟨hlt, hc, -⟩ := List.idxOf?_eq_some_iff.mp hindex
      have hchar : c = base58Char d := by
        rw [base58Char, List.getD_eq_getElem _ _ hlt]
        exact hc.symm
      refine ⟨d :: ds, fun e he => ?_, by rw [List.map_cons, ← hp, ← hchar]⟩
      rcases List.mem_cons.mp he with rfl | he
      · exact hlt
      · exact hds e he

theorem dropWhile_of_head {α : Type} {p : α → Bool} {l : List α} (h : ∀ c, l.head? = some c → p c = false) :
    l.dropWhile p = l ∧ l.takeWhile p = [] := by
  cases l with
  | nil => exact ⟨rfl, rfl⟩
  | cons c l =>
    have hc : ¬p c = true := by rw [h c rfl]; decide
    exact ⟨List.dropWhile_cons_of_neg hc, List.takeWhile_cons_of_neg hc⟩

theorem head_dropWhile {α : Type} (p : α → Bool) (l : List α) (c : α) (h : (l.dropWhile p).head? = some c) :
    p c = false := by
  have hnot := List.head?_dropWhile_not p l
  rwa [h] at hnot

theorem decodeBase58_eq (str : List Char) : decodeBase58 str =
    (base58Number (((str.takeWhile (· != Char.ofNat 0)).dropWhile isSpace).dropWhile (· == '1')) 0).map
      BigEndian.ofNat := by
  have hzeros (psz : List Char) : (psz.dropWhile (· == '1')).takeWhile (· == '1') = [] :=
    (dropWhile_of_head (head_dropWhile _ psz)).2
  unfold decodeBase58
  simp only [hzeros, List.length_nil, List.replicate_zero, List.nil_append]
  cases base58Number (((str.takeWhile (· != Char.ofNat 0)).dropWhile isSpace).dropWhile (· == '1')) 0 with
  | none => rfl
  | some bn => exact congrArg some (trim_getvch bn)

theorem decodeBase58_digits (k n : Nat) :
    decodeBase58 (List.replicate k '1' ++ base58Digits n) = some (BigEndian.ofNat n) := by
  have hall : ∀ c ∈ List.replicate k '1' ++ base58Digits n, c ≠ Char.ofNat 0 ∧ isSpace c = false := by
    intro c hc
    rcases List.mem_append.mp hc with hc | hc
    · rw [List.eq_of_mem_replicate hc]
      decide
    · exact mem_base58Digits hc
  have hnull : (List.replicate k '1' ++ base58Digits n).takeWhile (· != Char.ofNat 0)
      = List.replicate k '1' ++ base58Digits n :=
    List.takeWhile_eq_self_iff.mpr fun c hc => bne_iff_ne.mpr (hall c hc).1
  have hspaces := (dropWhile_of_head fun c (hc : (List.replicate k '1' ++ base58Digits n).head? = some c) =>
    (hall c (List.mem_of_head? hc)).2).1
  have hones : (List.replicate k '1' ++ base58Digits n).dropWhile (· == '1') = base58Digits n := by
    rw [List.dropWhile_append_of_pos fun c hc => beq_iff_eq.mpr (List.eq_of_mem_replicate hc)]
    refine (dropWhile_of_head fun c hc => beq_eq_false_iff_ne.mpr ?_).1
    rintro rfl
    exact head_base58Digits n hc
  rw [decodeBase58_eq, hnull, hspaces, hones, base58Number_digits]
  rfl

theorem bytes_fit (n : Nat) : 256 ^ n < 58 ^ (n * 138 / 100 + 1) := by
  refine lt_of_pow_lt_pow_left₀ 100 (Nat.zero_le _) ?_
  calc (256 ^ n) ^ 100 = (256 ^ 100) ^ n := by rw [← pow_mul, ← pow_mul, Nat.mul_comm]
    _ ≤ (58 ^ 138) ^ n := Nat.pow_le_pow_left (by norm_num) n
    _ = 58 ^ (n * 138) := by rw [← pow_mul, Nat.mul_comm]
    _ < 58 ^ ((n * 138 / 100 + 1) * 100) := Nat.pow_lt_pow_right (by norm_num) (by omega)
    _ = (58 ^ (n * 138 / 100 + 1)) ^ 100 := pow_mul _ _ _

theorem encodeBase58_eq (v : List UInt8) : encodeBase58 v =
    some (List.replicate (v.takeWhile (· == 0)).length '1' ++ base58Digits (BigEndian.toNat (v.dropWhile (· == 0)))) := by
  unfold encodeBase58
  generalize v.dropWhile (· == 0) = bytes
  have hzero : ofDigits 58 (List.replicate (bytes.length * 138 / 100 + 1) 0) = 0 := Nat.ofDigits_replicate_zero
  have hvalue : ofDigits 256 (bytes.map UInt8.toNat).reverse = BigEndian.toNat bytes := rfl
  have hroom : 256 ^ (bytes.map UInt8.toNat).length * ofDigits 58 (List.replicate (bytes.length * 138 / 100 + 1) 0)
      + ofDigits 256 (bytes.map UInt8.toNat).reverse < 58 ^ (List.replicate (bytes.length * 138 / 100 + 1) 0).length := by
    rw [hzero, hvalue, List.length_replicate, Nat.mul_zero, Nat.zero_add]
    exact (BigEndian.toNat_lt bytes).trans (bytes_fit bytes.length)
  obtain ⟨b58, hconvert, -, hdigit, hnumber⟩ := Radix.convert_eq_some (by norm_num) (by norm_num) _ _ hroom
    fun d hd => by rw [List.eq_of_mem_replicate hd]; norm_num
  rw [hzero, hvalue, Nat.mul_zero, Nat.zero_add] at hnumber
  have hdigits : b58.reverse.dropWhile (· == 0) = (Nat.digits 58 (BigEndian.toNat bytes)).reverse := by
    rw [Radix.dropWhile_zero (by norm_num) fun d hd => hdigit d (List.mem_reverse.mp hd), List.reverse_reverse, hnumber]
  simp only [hconvert, hdigits, bind, Option.bind, pure]
  rfl

theorem ofNat_toNat_of_head {bytes : List UInt8} (h : ∀ b, bytes.head? = some b → b ≠ 0) :
    BigEndian.ofNat (BigEndian.toNat bytes) = bytes := by
  cases bytes with
  | nil => exact BigEndian.ofNat_zero
  | cons b rest => exact BigEndian.ofNat_toNat (h b rfl) rest

theorem decodeBase58_encodeBase58 (v : List UInt8) :
    ∃ str, encodeBase58 v = some str ∧ decodeBase58 str = some (v.dropWhile (· == 0)) := by
  refine ⟨_, encodeBase58_eq v, ?_⟩
  rw [decodeBase58_digits, ofNat_toNat_of_head fun b hb => beq_eq_false_iff_ne.mp (head_dropWhile _ v b hb)]

theorem encodeBase58_decodeBase58 {s : List Char} {v : List UInt8} (hspaces : ∀ c ∈ s, isSpace c = false)
    (h : decodeBase58 s = some v) :
    encodeBase58 v = some ((s.takeWhile (· != Char.ofNat 0)).dropWhile (· == '1')) := by
  rw [decodeBase58_eq, (dropWhile_of_head fun c hc => hspaces c ((List.takeWhile_prefix _).subset
    (List.mem_of_head? hc))).1] at h
  generalize hpsz : (s.takeWhile (· != Char.ofNat 0)).dropWhile (· == '1') = psz at h ⊢
  obtain ⟨n, hn, rfl⟩ := Option.map_eq_some_iff.mp h
  have hsub : ∀ c ∈ psz, isSpace c = false := fun c hc =>
    hspaces c ((List.takeWhile_prefix _).subset ((List.dropWhile_suffix _).subset (hpsz ▸ hc)))
  obtain ⟨ds, hds, hchars⟩ := digits_of_base58Number hsub hn
  have hhead : ds.head? ≠ some 0 := by
    intro h0
    have hone : psz.head? = some '1' := by rw [hchars, List.head?_map, h0]; rfl
    exact absurd (head_dropWhile _ _ _ (hpsz ▸ hone)) (by decide)
  rw [hchars, base58Number_map hds, Nat.zero_mul, Nat.zero_add, Option.some.injEq] at hn
  have hbytes : (BigEndian.ofNat n).dropWhile (· == 0) = BigEndian.ofNat n ∧ (BigEndian.ofNat n).takeWhile (· == 0) = [] := by
    refine dropWhile_of_head fun b hb => beq_eq_false_iff_ne.mpr ?_
    obtain ⟨rest, hrest⟩ := List.head?_eq_some_iff.mp hb
    exact BigEndian.ne_zero_of_ofNat_eq hrest
  rw [encodeBase58_eq, hbytes.1, hbytes.2, BigEndian.toNat_ofNat, List.length_nil, List.replicate_zero, List.nil_append,
    hchars, base58Digits, ← hn, digits_of_head hds hhead, List.reverse_reverse]

theorem dropWhile_eq_iff_head {α : Type} {p : α → Bool} {l : List α} :
    l.dropWhile p = l ↔ ∀ c, l.head? = some c → p c = false :=
  ⟨fun h c hc => head_dropWhile p l c (h.symm ▸ hc), fun h => (dropWhile_of_head h).1⟩

end Base58

section Check

variable (hashBmw512 : List UInt8 → Vector UInt8 32)

theorem length_base58Checksum (vch : List UInt8) : (base58Checksum hashBmw512 vch).length = 4 := by
  rw [base58Checksum, List.length_take, Vector.length_toList]
  rfl

theorem decodeBase58Check_encodeBase58Check (v : List UInt8) : ∃ str, encodeBase58Check hashBmw512 v = some str ∧
      (decodeBase58Check hashBmw512 str = some v ↔ (v ++ base58Checksum hashBmw512 v).head? ≠ some 0) := by
  obtain ⟨str, hencode, hdecode⟩ := decodeBase58_encodeBase58 (v ++ base58Checksum hashBmw512 v)
  have hsum := length_base58Checksum hashBmw512 v
  refine ⟨str, hencode, fun h hzero => ?_, fun h => ?_⟩
  · -- without its zeros it is too short
    obtain ⟨rest, hrest⟩ := List.head?_eq_some_iff.mp hzero
    have hlength := congrArg List.length hrest
    rw [List.length_append, hsum, List.length_cons] at hlength
    rw [hrest, List.dropWhile_cons_of_pos (by decide)] at hdecode
    have hshort := (List.dropWhile_suffix (l := rest) (· == 0)).length_le
    unfold decodeBase58Check at h
    rw [hdecode, Option.bind_eq_bind, Option.bind_some] at h
    dsimp only at h
    split_ifs at h
    have hv := congrArg List.length (Option.some.inj h)
    rw [List.length_take] at hv
    omega
  · have hwhole : (v ++ base58Checksum hashBmw512 v).dropWhile (· == 0) = v ++ base58Checksum hashBmw512 v :=
      dropWhile_eq_iff_head.mpr fun c hc => beq_eq_false_iff_ne.mpr fun h0 => h (h0 ▸ hc)
    rw [hwhole] at hdecode
    unfold decodeBase58Check
    rw [hdecode, Option.bind_eq_bind, Option.bind_some, List.length_append, hsum, if_neg (by omega), Nat.add_sub_cancel]
    dsimp only
    rw [List.take_left, List.drop_left, if_neg (not_not.mpr rfl)]
    rfl

/-- Encoding never fails. Bytes are read back exactly if they do not start with a zero, a string without spaces is
written again exactly if it does not start with a one and has no null character, and bytes with a checksum are read
back exactly if the two together do not start with a zero. -/
theorem base58_roundTrip_iff :
    (∀ v, ∃ str, encodeBase58 v = some str ∧ (decodeBase58 str = some v ↔ v.head? ≠ some 0)) ∧
    (∀ s v, (∀ c ∈ s, isSpace c = false) → decodeBase58 s = some v →
      (encodeBase58 v = some s ↔ s.head? ≠ some '1' ∧ Char.ofNat 0 ∉ s)) ∧
    ∀ v, ∃ str, encodeBase58Check hashBmw512 v = some str ∧
      (decodeBase58Check hashBmw512 str = some v ↔ (v ++ base58Checksum hashBmw512 v).head? ≠ some 0) := by
  refine ⟨fun v => ?_, fun s v hspaces h => ?_, decodeBase58Check_encodeBase58Check hashBmw512⟩
  · obtain ⟨str, hencode, hdecode⟩ := decodeBase58_encodeBase58 v
    refine ⟨str, hencode, ?_⟩
    rw [hdecode, Option.some.injEq, dropWhile_eq_iff_head]
    exact ⟨fun h h0 => absurd (h 0 h0) (by decide), fun h c hc => beq_eq_false_iff_ne.mpr fun h0 => h (h0 ▸ hc)⟩
  · rw [encodeBase58_decodeBase58 hspaces h, Option.some.injEq]
    constructor
    · intro hs
      have htake : s.takeWhile (· != Char.ofNat 0) = s :=
        (List.takeWhile_prefix _).eq_of_length_le ((congrArg List.length hs).ge.trans (List.dropWhile_suffix _).length_le)
      rw [htake] at hs
      refine ⟨fun h1 => absurd (dropWhile_eq_iff_head.mp hs _ h1) (by decide), fun hnull => ?_⟩
      exact absurd rfl (bne_iff_ne.mp (List.takeWhile_eq_self_iff.mp htake _ hnull))
    · rintro ⟨hone, hnull⟩
      have hall : s.takeWhile (· != Char.ofNat 0) = s := by
        refine List.takeWhile_eq_self_iff.mpr fun c hc => bne_iff_ne.mpr ?_
        rintro rfl
        exact hnull hc
      rw [hall]
      exact dropWhile_eq_iff_head.mpr fun c hc => beq_eq_false_iff_ne.mpr fun h1 => hone (hc.trans (congrArg some h1))

end Check

namespace Sample

/-- A zero byte is encoded and read back as no byte; the string with a one in front is not written again. -/
theorem zeroByte_lost : encodeBase58 [0] = some ['1'] ∧ decodeBase58 ['1'] = some [] ∧ encodeBase58 [] = some [] :=
  ⟨rfl, rfl, rfl⟩

end Sample

end PupaCoin
