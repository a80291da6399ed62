import Mathlib.Tactic

/-!
# Little-endian byte strings of a fixed length

A number below `256 ^ k` as the string of its `k` bytes, the lowest first. Signed numbers of `8 * k` bits are
written as the number that they are congruent to.
-/

namespace LittleEndian

variable {k : Nat} {bytes : List UInt8}

/-- The lowest `k` bytes of a number. -/
def ofNat : Nat → Nat → List UInt8
  | 0, _ => []
  | k + 1, n => UInt8.ofNat n :: ofNat k (n / 256)

/-- The number that a string of bytes stands for. -/
def toNat : List UInt8 → Nat
  | [] => 0
  | b :: bytes => b.toNat + 256 * toNat bytes

@[simp] theorem length_ofNat (k n : Nat) : (ofNat k n).length = k := by
  induction k generalizing n with
  | zero => rfl
  | succ k ih => rw [ofNat, List.length_cons, ih]

theorem toNat_lt (bytes : List UInt8) : toNat bytes < 256 ^ bytes.length := by
  induction bytes with
  | nil => exact Nat.one_pos
  | cons b bytes ih =>
    have hb : b.toNat < 256 := b.toNat_lt
    rw [toNat, List.length_cons, Nat.pow_succ]
    omega

theorem toNat_ofNat {n : Nat} (h : n < 256 ^ k) : toNat (ofNat k n) = n := by
  induction k generalizing n with
  | zero =>
    rw [Nat.pow_zero] at h
    rw [ofNat, toNat]
    omega
  | succ k ih =>
    have hdiv : n / 256 < 256 ^ k := by
      rw [Nat.pow_succ] at h
      exact Nat.div_lt_of_lt_mul (by omega)
    rw [ofNat, toNat, ih hdiv, UInt8.toNat_ofNat']
    omega

theorem ofNat_toNat (h : bytes.length = k) : ofNat k (toNat bytes) = bytes := by
  induction bytes generalizing k with
  | nil =>
    rw [List.length_nil] at h
    rw [← h, ofNat]
  | cons b bytes ih =>
    have hb : b.toNat < 256 := b.toNat_lt
    have hlow : UInt8.ofNat (b.toNat + 256 * toNat bytes) = b := by
      rw [← UInt8.toNat_inj, UInt8.toNat_ofNat']
      omega
    have hhigh : (b.toNat + 256 * toNat bytes) / 256 = toNat bytes := by omega
    rw [List.length_cons] at h
    rw [← h, toNat, ofNat, hlow, hhigh, ih rfl]

/-- The range of the signed numbers of `k` bytes. -/
def InRange (k : Nat) (z : Int) : Prop := -(256 ^ k : Int) ≤ 2 * z ∧ 2 * z < 256 ^ k

instance (k : Nat) (z : Int) : Decidable (InRange k z) := by unfold InRange; infer_instance

/-- The two's complement of `k` bytes. -/
def ofInt (k : Nat) (z : Int) : List UInt8 := ofNat k (z % 256 ^ k).toNat

/-- The signed number that a string of bytes stands for. -/
def toInt (bytes : List UInt8) : Int :=
  if 2 * toNat bytes < 256 ^ bytes.length then toNat bytes else toNat bytes - 256 ^ bytes.length

@[simp] theorem length_ofInt (k : Nat) (z : Int) : (ofInt k z).length = k := length_ofNat _ _

theorem toInt_ofInt {z : Int} (h : InRange k z) : toInt (ofInt k z) = z := by
  have hpow : (0 : Int) < 256 ^ k := by positivity
  have hmod : 0 ≤ z % 256 ^ k ∧ z % 256 ^ k < 256 ^ k :=
    ⟨Int.emod_nonneg z hpow.ne', Int.emod_lt_of_pos z hpow⟩
  have hcast : ((z % 256 ^ k).toNat : Int) = z % 256 ^ k := Int.toNat_of_nonneg hmod.1
  have hlt : (z % 256 ^ k).toNat < 256 ^ k := by
    have : ((z % 256 ^ k).toNat : Int) < (256 ^ k : Nat) := by
      rw [hcast]
      push_cast
      exact hmod.2
    exact_mod_cast this
  have hval : toNat (ofInt k z) = (z % 256 ^ k).toNat := toNat_ofNat hlt
  rw [toInt, length_ofInt, hval]
  obtain ⟨hlow, hhigh⟩ := h
  by_cases hneg : z < 0
  · have hz : z % 256 ^ k = z + 256 ^ k := by
      rw [← Int.add_emod_right, Int.emod_eq_of_lt (by omega) (by omega)]
    have hlarge : ¬2 * (z % 256 ^ k).toNat < 256 ^ k := by
      intro hsmall
      have : (2 * (z % 256 ^ k).toNat : Int) < (256 ^ k : Nat) := by exact_mod_cast hsmall
      rw [hcast, hz] at this
      push_cast at this
      omega
    rw [if_neg hlarge, hcast, hz]
    omega
  · have hz : z % 256 ^ k = z := Int.emod_eq_of_lt (by omega) (by omega)
    have hsmall : 2 * (z % 256 ^ k).toNat < 256 ^ k := by
      have : (2 * (z % 256 ^ k).toNat : Int) < (256 ^ k : Nat) := by
        rw [hcast, hz]
        push_cast
        exact hhigh
      exact_mod_cast this
    rw [if_pos hsmall, hcast, hz]

theorem inRange_toInt (bytes : List UInt8) : InRange bytes.length (toInt bytes) := by
  have hlt : (toNat bytes : Int) < 256 ^ bytes.length := by exact_mod_cast toNat_lt bytes
  rw [toInt]
  split_ifs with hsmall
  · have : (2 * toNat bytes : Int) < 256 ^ bytes.length := by exact_mod_cast hsmall
    constructor <;> omega
  · have : ¬(2 * toNat bytes : Int) < 256 ^ bytes.length := by exact_mod_cast hsmall
    constructor <;> omega

theorem ofInt_toInt (h : bytes.length = k) : ofInt k (toInt bytes) = bytes := by
  have hlt : (toNat bytes : Int) < 256 ^ k := by
    rw [← h]
    exact_mod_cast toNat_lt bytes
  have hmod : toInt bytes % 256 ^ k = toNat bytes := by
    rw [toInt, h]
    split_ifs with hsmall
    · exact Int.emod_eq_of_lt (Int.natCast_nonneg _) hlt
    · rw [Int.sub_emod_right]
      exact Int.emod_eq_of_lt (Int.natCast_nonneg _) hlt
  rw [ofInt, hmod, Int.toNat_natCast, ofNat_toNat h]

end LittleEndian
