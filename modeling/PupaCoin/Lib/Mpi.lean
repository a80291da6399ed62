import PupaCoin.Lib.Radix

/-!
# The MPI format

An integer as the big-endian bytes of its magnitude, with the sign in the top bit of the first byte. Where the
magnitude has that bit itself, a byte for the sign alone stands in front; 0 has no bytes. A framed string has
its length in four bytes before it.
-/

namespace Mpi

variable {bytes rest : List UInt8} {b : UInt8}

open BigEndian

def encode (n : ℤ) : List UInt8 :=
  let sign : UInt8 := if n < 0 then 0x80 else 0
  match ofNat n.natAbs with
  | [] => []
  | b :: rest => if b < 0x80 then (b + sign) :: rest else sign :: b :: rest

/-- The integer of any string, also of one with more bytes than needed. -/
def decode : List UInt8 → ℤ
  | [] => 0
  | b :: rest => if b < 0x80 then (toNat (b :: rest) : ℤ) else -(toNat ((b - 0x80) :: rest) : ℤ)

/-- A first byte that has no bit but the sign is there for the next byte's top bit. -/
def Minimal : List UInt8 → Prop
  | [] => True
  | [b] => b ≠ 0 ∧ b ≠ 0x80
  | b :: c :: _ => (b ≠ 0 ∧ b ≠ 0x80) ∨ 0x80 ≤ c

instance (bytes : List UInt8) : Decidable (Minimal bytes) :=
  match bytes with
  | [] => inferInstanceAs (Decidable True)
  | [b] => inferInstanceAs (Decidable (b ≠ 0 ∧ b ≠ 0x80))
  | b :: c :: _ => inferInstanceAs (Decidable ((b ≠ 0 ∧ b ≠ 0x80) ∨ 0x80 ≤ c))

/-- The string with zeros in the place of all but its first `k` bytes. -/
def truncate (k : ℕ) (bytes : List UInt8) : List UInt8 :=
  bytes.take k ++ List.replicate (bytes.length - k) 0

def frame (bytes : List UInt8) : List UInt8 :=
  [UInt8.ofNat (bytes.length / 2 ^ 24), UInt8.ofNat (bytes.length / 2 ^ 16),
    UInt8.ofNat (bytes.length / 2 ^ 8), UInt8.ofNat bytes.length] ++ bytes

theorem drop_frame (bytes : List UInt8) : (frame bytes).drop 4 = bytes := rfl

theorem length_frame (bytes : List UInt8) : (frame bytes).length = bytes.length + 4 := rfl

theorem frame_of_lt (h : bytes.length < 256) : frame bytes = [0, 0, 0, UInt8.ofNat bytes.length] ++ bytes := by
  have hzero : ∀ k, 8 ≤ k → bytes.length / 2 ^ k = 0 := fun k hk =>
    Nat.div_eq_of_lt (h.trans_le (Nat.pow_le_pow_right (by norm_num) hk : 2 ^ 8 ≤ 2 ^ k))
  unfold frame
  rw [hzero 24 (by norm_num), hzero 16 (by norm_num), hzero 8 (by norm_num)]
  rfl

theorem add_sub_top (b : UInt8) : b + 0x80 - 0x80 = b := by
  rw [← UInt8.toNat_inj, UInt8.toNat_sub, UInt8.toNat_add]
  have := b.toNat_lt
  simp only [UInt8.reduceToNat]
  omega

theorem sub_add_top (b : UInt8) : b - 0x80 + 0x80 = b := by
  rw [← UInt8.toNat_inj, UInt8.toNat_add, UInt8.toNat_sub]
  have := b.toNat_lt
  simp only [UInt8.reduceToNat]
  omega

theorem not_add_top_lt (hb : b < 0x80) : ¬ b + 0x80 < 0x80 := by
  rw [UInt8.lt_iff_toNat_lt] at hb ⊢
  rw [UInt8.toNat_add]
  simp only [UInt8.reduceToNat] at hb ⊢
  omega

theorem sub_top_lt (hb : ¬ b < 0x80) : b - 0x80 < 0x80 := by
  have := b.toNat_lt
  rw [UInt8.lt_iff_toNat_lt] at hb ⊢
  rw [UInt8.toNat_sub]
  simp only [UInt8.reduceToNat] at hb ⊢
  omega

theorem toNat_pos (hb : b ≠ 0) (rest : List UInt8) : 0 < toNat (b :: rest) := by
  have hpos : 0 < b.toNat := Nat.pos_of_ne_zero fun h => hb (UInt8.toNat_inj.mp h)
  rw [toNat_cons]
  positivity

theorem toNat_zero_cons (bytes : List UInt8) : toNat (0 :: bytes) = toNat bytes := by
  rw [toNat_cons]
  simp

theorem decode_low (hb : b < 0x80) (rest : List UInt8) : decode (b :: rest) = toNat (b :: rest) := if_pos hb

theorem decode_high (hb : ¬ b < 0x80) (rest : List UInt8) :
    decode (b :: rest) = -(toNat ((b - 0x80) :: rest) : ℤ) := if_neg hb

theorem encode_zero : encode 0 = [] := by
  unfold encode
  rw [Int.natAbs_zero, ofNat_zero]

theorem minimal_cons (h0 : b ≠ 0) (htop : b ≠ 0x80) (rest : List UInt8) : Minimal (b :: rest) := by
  cases rest with
  | nil => exact ⟨h0, htop⟩
  | cons c rest => exact .inl ⟨h0, htop⟩

theorem minimal_sign (h : Minimal (b :: rest)) (hb : b = 0 ∨ b = 0x80) : ∃ c rest', rest = c :: rest' ∧ 0x80 ≤ c := by
  cases rest with
  | nil => exact absurd hb (not_or.mpr h)
  | cons c rest => exact ⟨c, rest, rfl, h.resolve_left fun hne => absurd hb (not_or.mpr hne)⟩

theorem minimal_encode (n : ℤ) : Minimal (encode n) := by
  unfold encode
  cases hbytes : ofNat n.natAbs with
  | nil => trivial
  | cons b rest =>
    have h0 : b ≠ 0 := ne_zero_of_ofNat_eq hbytes
    simp only
    split_ifs with hb hn
    · refine minimal_cons (fun h => ?_) (fun h => ?_) rest
      · exact not_add_top_lt hb (h ▸ by decide)
      · rw [← add_sub_top b, h] at h0
        exact h0 rfl
    · rw [UInt8.add_zero]
      exact minimal_cons h0 (UInt8.ne_of_lt hb) rest
    all_goals exact .inr (UInt8.not_lt.mp hb)

theorem decode_encode (n : ℤ) : decode (encode n) = n := by
  have hvalue := toNat_ofNat n.natAbs
  unfold encode
  cases hbytes : ofNat n.natAbs with
  | nil =>
    rw [hbytes] at hvalue
    have h0 : n.natAbs = 0 := hvalue.symm
    show (0 : ℤ) = n
    omega
  | cons b rest =>
    rw [hbytes] at hvalue
    by_cases hb : b < 0x80 <;> by_cases hn : n < 0
    · simp only [if_pos hb, if_pos hn]
      rw [decode_high (not_add_top_lt hb), add_sub_top, hvalue]
      omega
    · simp only [if_pos hb, if_neg hn]
      rw [UInt8.add_zero, decode_low hb, hvalue]
      omega
    · simp only [if_neg hb, if_pos hn]
      rw [decode_high (UInt8.lt_irrefl _), UInt8.sub_self, toNat_zero_cons, hvalue]
      omega
    · simp only [if_neg hb, if_neg hn]
      rw [decode_low (by decide), toNat_zero_cons, hvalue]
      omega

theorem encode_natCast (hb : b ≠ 0) (rest : List UInt8) :
    encode (toNat (b :: rest)) = if b < 0x80 then b :: rest else 0 :: b :: rest := by
  have hsign : ¬ (toNat (b :: rest) : ℤ) < 0 := not_lt.mpr (Int.natCast_nonneg _)
  unfold encode
  simp only [if_neg hsign, Int.natAbs_natCast, ofNat_toNat hb, UInt8.add_zero]

theorem encode_neg (hb : b ≠ 0) (rest : List UInt8) :
    encode (-(toNat (b :: rest) : ℤ)) = if b < 0x80 then (b + 0x80) :: rest else 0x80 :: b :: rest := by
  have hpos := toNat_pos hb rest
  have hsign : -(toNat (b :: rest) : ℤ) < 0 := by omega
  unfold encode
  simp only [if_pos hsign, Int.natAbs_neg, Int.natAbs_natCast, ofNat_toNat hb]

theorem encode_decode (h : Minimal bytes) : encode (decode bytes) = bytes := by
  have hhigh : ∀ {c : UInt8}, 0x80 ≤ c → c ≠ 0 ∧ ¬ c < 0x80 := by
    intro c hc
    refine ⟨?_, UInt8.not_lt.mpr hc⟩
    rintro rfl
    exact absurd hc (by decide)
  cases bytes with
  | nil => rfl
  | cons b rest =>
    by_cases hb : b < 0x80
    · rw [decode_low hb]
      by_cases h0 : b = 0
      · obtain ⟨c, rest', rfl, hc⟩ := minimal_sign h (.inl h0)
        rw [h0, toNat_zero_cons, encode_natCast (hhigh hc).1, if_neg (hhigh hc).2]
      · rw [encode_natCast h0, if_pos hb]
    · rw [decode_high hb]
      by_cases htop : b = 0x80
      · obtain ⟨c, rest', rfl, hc⟩ := minimal_sign h (.inr htop)
        rw [htop, UInt8.sub_self, toNat_zero_cons, encode_neg (hhigh hc).1, if_neg (hhigh hc).2]
      · have h0 : b - 0x80 ≠ 0 := by
          intro h0
          rw [← sub_add_top b, h0] at htop
          exact htop rfl
        rw [encode_neg h0, if_pos (sub_top_lt hb), sub_add_top]

theorem exists_natAbs_decode (b : UInt8) : ∃ c < 0x80, ∀ rest, (decode (b :: rest)).natAbs = toNat (c :: rest) := by
  by_cases hb : b < 0x80
  · refine ⟨b, hb, fun rest => ?_⟩
    rw [decode_low hb, Int.natAbs_natCast]
  · refine ⟨b - 0x80, sub_top_lt hb, fun rest => ?_⟩
    rw [decode_high hb, Int.natAbs_neg, Int.natAbs_natCast]

theorem lt_top_iff (b : UInt8) (rest : List UInt8) : b < 0x80 ↔ 2 * toNat (b :: rest) < 256 ^ (rest.length + 1) := by
  have hrest := toNat_lt rest
  have hb : b < 0x80 ↔ b.toNat < 128 := UInt8.lt_iff_toNat_lt
  rw [hb, toNat_cons, pow_succ]
  constructor
  · intro hlt
    have hle : b.toNat * 256 ^ rest.length ≤ 127 * 256 ^ rest.length := Nat.mul_le_mul_right _ (by omega)
    omega
  · intro hlt
    by_contra hge
    have hle : 128 * 256 ^ rest.length ≤ b.toNat * 256 ^ rest.length := Nat.mul_le_mul_right _ (by omega)
    omega

theorem two_mul_natAbs_decode_lt (bytes : List UInt8) : 2 * (decode bytes).natAbs < 256 ^ bytes.length := by
  cases bytes with
  | nil => decide
  | cons b rest =>
    obtain ⟨c, hc, hdecode⟩ := exists_natAbs_decode b
    rw [hdecode, List.length_cons]
    exact (lt_top_iff c rest).mp hc

theorem length_encode_le_iff {n : ℤ} {k : ℕ} : (encode n).length ≤ k ↔ 2 * n.natAbs < 256 ^ k := by
  constructor
  · intro hle
    have hlt := two_mul_natAbs_decode_lt (encode n)
    rw [decode_encode] at hlt
    exact hlt.trans_le (Nat.pow_le_pow_right (by norm_num) hle)
  · intro hlt
    have hvalue := toNat_ofNat n.natAbs
    have hbytes : (ofNat n.natAbs).length ≤ k := by
      rw [length_ofNat, numBytes_le_iff]
      omega
    unfold encode
    cases h : ofNat n.natAbs with
    | nil => exact Nat.zero_le k
    | cons b rest =>
      rw [h] at hvalue hbytes
      simp only
      by_cases hb : b < 0x80
      · rw [if_pos hb]
        exact hbytes
      · -- Where the magnitude has the top bit, it fills its bytes and the sign takes one more.
        rw [if_neg hb]
        have hge : 256 ^ (rest.length + 1) ≤ 2 * n.natAbs := by
          rw [← hvalue]
          exact not_lt.mp (mt (lt_top_iff b rest).mpr hb)
        have hroom : rest.length + 1 < k := (Nat.pow_lt_pow_iff_right (by norm_num)).mp (hge.trans_lt hlt)
        exact hroom

theorem exists_of_encode_eq {n : ℤ} (h : encode n = b :: rest) :
    ∃ c < 0x80, b.toNat = c.toNat + (if n < 0 then 128 else 0) ∧ n.natAbs = toNat (c :: rest) := by
  have hn := decode_encode n
  rw [h] at hn
  by_cases hb : b < 0x80
  · rw [decode_low hb] at hn
    refine ⟨b, hb, ?_, by omega⟩
    rw [if_neg (by omega), Nat.add_zero]
  · rw [decode_high hb] at hn
    refine ⟨b - 0x80, sub_top_lt hb, ?_, by omega⟩
    have hneg : n < 0 := by
      rcases lt_trichotomy n 0 with hlt | h0 | hgt
      · exact hlt
      · rw [h0, encode_zero] at h
        cases h
      · omega
    have hbyte := congrArg UInt8.toNat (sub_add_top b)
    have hlt := UInt8.lt_iff_toNat_lt.mp (sub_top_lt hb)
    rw [UInt8.toNat_add] at hbyte
    simp only [UInt8.reduceToNat] at hbyte hlt
    rw [if_pos hneg]
    omega

theorem length_truncate (k : ℕ) (bytes : List UInt8) : (truncate k bytes).length = bytes.length := by
  unfold truncate
  rw [List.length_append, List.length_take, List.length_replicate]
  omega

theorem take_truncate (k : ℕ) (bytes : List UInt8) : (truncate k bytes).take k = bytes.take k := by
  unfold truncate
  rcases Nat.le_total k bytes.length with hle | hle
  · rw [List.take_append_of_le_length (by rw [List.length_take]; omega), List.take_take, Nat.min_self]
  · rw [Nat.sub_eq_zero_of_le hle, List.replicate_zero, List.append_nil, List.take_take, Nat.min_self]

theorem minimal_take_two (bytes : List UInt8) : Minimal (bytes.take 2) ↔ Minimal bytes := by
  match bytes with
  | [] => rfl
  | [_] => rfl
  | _ :: _ :: _ => rfl

theorem minimal_truncate {k : ℕ} (hk : 2 ≤ k) (h : Minimal bytes) : Minimal (truncate k bytes) := by
  have htake : (truncate k bytes).take 2 = bytes.take 2 := by
    have := congrArg (List.take 2) (take_truncate k bytes)
    rwa [List.take_take, List.take_take, Nat.min_eq_left hk] at this
  rw [← minimal_take_two, htake, minimal_take_two]
  exact h

theorem toNat_truncate_le (k : ℕ) (bytes : List UInt8) : toNat (truncate k bytes) ≤ toNat bytes := by
  have hsplit : toNat bytes = toNat (bytes.take k ++ bytes.drop k) := by rw [List.take_append_drop]
  unfold truncate
  rw [hsplit, toNat_append, toNat_append, toNat_zeros, List.length_replicate, List.length_drop]
  exact Nat.le_add_right _ _

theorem natAbs_decode_truncate_le (k : ℕ) (bytes : List UInt8) :
    (decode (truncate (k + 1) bytes)).natAbs ≤ (decode bytes).natAbs := by
  cases bytes with
  | nil => simp [truncate]
  | cons b rest =>
    obtain ⟨c, -, hdecode⟩ := exists_natAbs_decode b
    have hcons : ∀ a : UInt8, truncate (k + 1) (a :: rest) = a :: truncate k rest := by
      intro a
      simp [truncate]
    rw [hcons, hdecode, hdecode, ← hcons]
    exact toNat_truncate_le (k + 1) (c :: rest)

end Mpi
