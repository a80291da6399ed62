import Mathlib.Data.Nat.Digits.Lemmas
import Mathlib.Tactic.Ring

/-!
# Changing the base of a number

A fixed number of digits, the lowest first, is multiplied and added to in place with a carry. Taking the digits of
a number in one base from the highest to the lowest, this gives its digits in another base.
-/

namespace Radix

open Nat (ofDigits)

variable {base n : ℕ} {b : UInt8}

/-- The digits times `factor` plus `carry`, and the carry out of them. -/
def mulAdd (base factor : ℕ) : ℕ → List ℕ → List ℕ × ℕ
  | carry, [] => ([], carry)
  | carry, d :: ds =>
    let t := carry + factor * d
    let r := mulAdd base factor (t / base) ds
    (t % base :: r.1, r.2)

/-- The digits in `base` after taking in those of a number in base `factor`, the highest first. -/
def convert (base factor : ℕ) : List ℕ → List ℕ → Option (List ℕ)
  | ds, [] => some ds
  | ds, d :: input =>
    let r := mulAdd base factor d ds
    if r.2 = 0 then convert base factor r.1 input else none

theorem mulAdd_length (base factor carry : ℕ) (ds : List ℕ) : (mulAdd base factor carry ds).1.length = ds.length := by
  induction ds generalizing carry with
  | nil => rfl
  | cons d ds ih =>
    rw [mulAdd, List.length_cons, List.length_cons, ih]

theorem mulAdd_lt (hbase : 0 < base) (factor carry : ℕ) (ds : List ℕ) :
    ∀ d ∈ (mulAdd base factor carry ds).1, d < base := by
  induction ds generalizing carry with
  | nil => exact fun d hd => nomatch hd
  | cons d ds ih =>
    intro e he
    rw [mulAdd, List.mem_cons] at he
    rcases he with rfl | he
    · exact Nat.mod_lt _ hbase
    · exact ih _ e he

theorem ofDigits_mulAdd (base factor carry : ℕ) (ds : List ℕ) :
    ofDigits base (mulAdd base factor carry ds).1 + base ^ ds.length * (mulAdd base factor carry ds).2
      = carry + factor * ofDigits base ds := by
  induction ds generalizing carry with
  | nil => simp [mulAdd]
  | cons d ds ih =>
    have hrest := ih ((carry + factor * d) / base)
    have hsplit := Nat.mod_add_div (carry + factor * d) base
    rw [mulAdd, Nat.ofDigits_cons, Nat.ofDigits_cons, List.length_cons]
    calc (carry + factor * d) % base
          + base * ofDigits base (mulAdd base factor ((carry + factor * d) / base) ds).1
          + base ^ (ds.length + 1) * (mulAdd base factor ((carry + factor * d) / base) ds).2
        = (carry + factor * d) % base
          + base * (ofDigits base (mulAdd base factor ((carry + factor * d) / base) ds).1
            + base ^ ds.length * (mulAdd base factor ((carry + factor * d) / base) ds).2) := by ring
      _ = (carry + factor * d) % base + base * ((carry + factor * d) / base)
          + base * (factor * ofDigits base ds) := by rw [hrest]; ring
      _ = carry + factor * (d + base * ofDigits base ds) := by rw [hsplit]; ring

/-- Nothing is carried out of digits that the value fits. By induction on the digits that are taken in. -/
theorem convert_eq_some {factor : ℕ} (hbase : 0 < base) (hfactor : 0 < factor) (ds input : List ℕ)
    (hfits : factor ^ input.length * ofDigits base ds + ofDigits factor input.reverse < base ^ ds.length)
    (hds : ∀ d ∈ ds, d < base) :
    ∃ r, convert base factor ds input = some r ∧ r.length = ds.length ∧ (∀ d ∈ r, d < base) ∧
      ofDigits base r = factor ^ input.length * ofDigits base ds + ofDigits factor input.reverse := by
  induction input generalizing ds with
  | nil => exact ⟨ds, rfl, rfl, hds, by simp⟩
  | cons d input ih =>
    have hvalue := ofDigits_mulAdd base factor d ds
    have hlength := mulAdd_length base factor d ds
    rw [List.reverse_cons, Nat.ofDigits_append, Nat.ofDigits_singleton, List.length_reverse, List.length_cons] at hfits ⊢
    have hsum : factor ^ (input.length + 1) * ofDigits base ds
        + (ofDigits factor input.reverse + factor ^ input.length * d)
        = factor ^ input.length * (d + factor * ofDigits base ds) + ofDigits factor input.reverse := by ring
    rw [hsum] at hfits ⊢
    have hcarry : (mulAdd base factor d ds).2 = 0 := by
      by_contra hne
      have hover : base ^ ds.length ≤ d + factor * ofDigits base ds := by
        rw [← hvalue]
        exact (Nat.le_mul_of_pos_right _ (Nat.pos_of_ne_zero hne)).trans (Nat.le_add_left _ _)
      have hscaled : d + factor * ofDigits base ds ≤ factor ^ input.length * (d + factor * ofDigits base ds) :=
        Nat.le_mul_of_pos_left _ (Nat.pow_pos hfactor)
      omega
    rw [hcarry, Nat.mul_zero, Nat.add_zero] at hvalue
    rw [← hvalue, ← hlength] at hfits
    obtain ⟨r, hconvert, hrlength, hr, hrvalue⟩ := ih _ hfits (mulAdd_lt hbase factor d ds)
    refine ⟨r, ?_, hrlength.trans hlength, hr, ?_⟩
    · rw [convert, if_pos hcarry, hconvert]
    · rw [hrvalue, hvalue]

theorem dropWhile_zero (hbase : 1 < base) {ds : List ℕ} (hds : ∀ d ∈ ds, d < base) :
    ds.dropWhile (· == 0) = (Nat.digits base (ofDigits base ds.reverse)).reverse := by
  induction ds with
  | nil => simp
  | cons d ds ih =>
    by_cases h0 : d = 0
    · rw [h0, List.dropWhile_cons_of_pos rfl, ih fun e he => hds e (List.mem_cons_of_mem d he), List.reverse_cons,
        Nat.ofDigits_append, Nat.ofDigits_singleton, Nat.mul_zero, Nat.add_zero]
    · rw [List.dropWhile_cons_of_neg (by simpa using h0), Nat.digits_ofDigits base hbase, List.reverse_reverse]
      · exact fun e he => hds e (List.mem_reverse.mp he)
      · intro hne
        rw [List.getLast_reverse, List.head_cons]
        exact h0

end Radix

/-!
## Big-endian byte strings

A number as the string of its bytes, the highest first, without leading zeros, and as a string of a fixed
length with zeros in front.
-/

namespace BigEndian

/-- The number that a string of bytes stands for. -/
def toNat (bytes : List UInt8) : ℕ := Nat.ofDigits 256 (bytes.map UInt8.toNat).reverse

/-- How many bytes a number takes; none for 0. -/
def numBytes (n : ℕ) : ℕ := (Nat.digits 256 n).length

def ofNat (n : ℕ) : List UInt8 := ((Nat.digits 256 n).map UInt8.ofNat).reverse

def pad (length : ℕ) (bytes : List UInt8) : List UInt8 :=
  List.replicate (length - bytes.length) 0 ++ bytes

theorem length_ofNat (n : ℕ) : (ofNat n).length = numBytes n := by
  unfold ofNat numBytes
  rw [List.length_reverse, List.length_map]

theorem toNat_ofNat (n : ℕ) : toNat (ofNat n) = n := by
  unfold toNat ofNat
  have hdigits : ((Nat.digits 256 n).map UInt8.ofNat).map UInt8.toNat = Nat.digits 256 n := by
    rw [List.map_map]
    refine (List.map_congr_left fun d hd => ?_).trans (List.map_id _)
    have hlt : d < 256 := Nat.digits_lt_base (by norm_num) hd
    show (UInt8.ofNat d).toNat = d
    rw [UInt8.toNat_ofNat', Nat.mod_eq_of_lt hlt]
  rw [List.map_reverse, List.reverse_reverse, hdigits, Nat.ofDigits_digits]

theorem toNat_lt (bytes : List UInt8) : toNat bytes < 256 ^ bytes.length := by
  have hlt := Nat.ofDigits_lt_base_pow_length (b := 256) (l := (bytes.map UInt8.toNat).reverse) (by norm_num) (by
    intro d hd
    rw [List.mem_reverse, List.mem_map] at hd
    obtain ⟨b, -, rfl⟩ := hd
    exact b.toNat_lt)
  rw [List.length_reverse, List.length_map] at hlt
  exact hlt

theorem toNat_cons (b : UInt8) (bytes : List UInt8) :
    toNat (b :: bytes) = b.toNat * 256 ^ bytes.length + toNat bytes := by
  unfold toNat
  rw [List.map_cons, List.reverse_cons, Nat.ofDigits_append, Nat.ofDigits_singleton, List.length_reverse,
    List.length_map]
  ring

theorem toNat_append (front back : List UInt8) :
    toNat (front ++ back) = toNat front * 256 ^ back.length + toNat back := by
  unfold toNat
  rw [List.map_append, List.reverse_append, Nat.ofDigits_append, List.length_reverse, List.length_map]
  ring

theorem ofNat_toNat (hb : b ≠ 0) (rest : List UInt8) : ofNat (toNat (b :: rest)) = b :: rest := by
  have hdigits : Nat.digits 256 (toNat (b :: rest)) = ((b :: rest).map UInt8.toNat).reverse := by
    refine Nat.digits_ofDigits 256 (by norm_num) _ (fun d hd => ?_) fun hne => ?_
    · rw [List.mem_reverse, List.mem_map] at hd
      obtain ⟨c, -, rfl⟩ := hd
      exact c.toNat_lt
    · rw [List.getLast_reverse, List.head_map, List.head_cons]
      exact fun h => hb (UInt8.toNat_inj.mp h)
  have hbytes : ∀ bytes : List UInt8, (bytes.map UInt8.toNat).map UInt8.ofNat = bytes := by
    intro bytes
    rw [List.map_map]
    exact (List.map_congr_left fun c _ => UInt8.ofNat_toNat).trans (List.map_id _)
  unfold ofNat
  rw [hdigits, List.map_reverse, List.reverse_reverse, hbytes]

theorem ofNat_zero : ofNat 0 = [] := by
  unfold ofNat
  rw [Nat.digits_zero]
  rfl

theorem numBytes_le_iff {k : ℕ} : numBytes n ≤ k ↔ n < 256 ^ k :=
  Nat.digits_length_le_iff (by norm_num) n

theorem ne_zero_of_ofNat_eq {rest : List UInt8} (h : ofNat n = b :: rest) : b ≠ 0 := by
  intro hb
  have hn : n = toNat rest := by
    rw [← toNat_ofNat n, h, toNat_cons, hb]
    simp
  have hle : numBytes n ≤ rest.length := numBytes_le_iff.mpr (hn ▸ toNat_lt rest)
  rw [← length_ofNat, h, List.length_cons] at hle
  omega

theorem toNat_zeros (k : ℕ) : toNat (List.replicate k 0) = 0 := by
  induction k with
  | zero => rfl
  | succ k ih =>
    rw [List.replicate_succ, toNat_cons, ih]
    simp

theorem toNat_pad (length : ℕ) (bytes : List UInt8) : toNat (pad length bytes) = toNat bytes := by
  unfold pad
  rw [toNat_append, toNat_zeros, Nat.zero_mul, Nat.zero_add]

theorem length_pad {length : ℕ} {bytes : List UInt8} (hle : bytes.length ≤ length) :
    (pad length bytes).length = length := by
  unfold pad
  rw [List.length_append, List.length_replicate]
  omega

end BigEndian
