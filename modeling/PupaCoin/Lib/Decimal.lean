import Mathlib.Data.List.TakeWhile
import Mathlib.Tactic

/-!
# Numbers in decimal

A number is printed as its digits, with a sign in front of a negative one, and read by skipping white space and taking
the digits behind a sign; what is too large for 64 bits becomes the nearest number that is not. The strings are bytes.
-/

namespace Decimal

variable {d n k : Nat}

/-- The digits of a number in front of others; a number is longer than its digits, so it is enough fuel. -/
def digitsFrom : Nat → Nat → List UInt8 → List UInt8
  | 0, _, acc => acc
  | fuel + 1, n, acc =>
    let acc := UInt8.ofNat (48 + n % 10) :: acc
    if n / 10 = 0 then acc else digitsFrom fuel (n / 10) acc

/-- `%u`. -/
def ofNat (n : Nat) : List UInt8 := digitsFrom (n + 1) n []

/-- `%d`. -/
def ofInt (n : Int) : List UInt8 := if n < 0 then 0x2d :: ofNat n.natAbs else ofNat n.natAbs

def isDigit (c : UInt8) : Bool := decide (0x30 ≤ c) && decide (c ≤ 0x39)

def isSpace (c : UInt8) : Bool := decide (c = 0x20) || (decide (0x09 ≤ c) && decide (c ≤ 0x0d))

def valueFrom (n : Nat) (digits : List UInt8) : Nat := digits.foldl (fun n c => 10 * n + (c.toNat - 48)) n

/-- An `int64_t`. -/
def clamp (n : Int) : Int := max (-2 ^ 63) (min n (2 ^ 63 - 1))

/-- `strtoll(psz, NULL, 10)`; a NUL byte is not a digit, so that it ends the number as it ends the string. -/
def strtoll (psz : List UInt8) : Int :=
  match psz.dropWhile isSpace with
  | [] => 0
  | c :: rest =>
    if c = 0x2d then clamp (-(valueFrom 0 (rest.takeWhile isDigit) : Int))
    else if c = 0x2b then clamp (valueFrom 0 (rest.takeWhile isDigit))
    else clamp (valueFrom 0 ((c :: rest).takeWhile isDigit))

theorem toNat_digit (h : d < 10) : (UInt8.ofNat (48 + d)).toNat = 48 + d := by
  rw [UInt8.toNat_ofNat']
  omega

theorem isDigit_digit (h : d < 10) : isDigit (UInt8.ofNat (48 + d)) = true := by
  unfold isDigit
  rw [Bool.and_eq_true, decide_eq_true_iff, decide_eq_true_iff, UInt8.le_iff_toNat_le, UInt8.le_iff_toNat_le,
    toNat_digit h]
  exact ⟨Nat.le_add_right 48 d, by show 48 + d ≤ 57; omega⟩

theorem valueFrom_append (n : Nat) (ds es : List UInt8) : valueFrom n (ds ++ es) = valueFrom (valueFrom n ds) es :=
  List.foldl_append

/-- The digits that are put in front, and their value. By induction on the fuel. -/
theorem digitsFrom_eq {fuel : Nat} (h : n < fuel) (acc : List UInt8) :
    ∃ c ds, digitsFrom fuel n acc = c :: ds ++ acc ∧ (∀ d ∈ c :: ds, isDigit d = true) ∧ valueFrom 0 (c :: ds) = n := by
  induction fuel generalizing n acc with
  | zero => exact absurd h (Nat.not_lt_zero n)
  | succ fuel ih =>
    have hlast : n % 10 < 10 := Nat.mod_lt n (by decide)
    unfold digitsFrom
    split_ifs with hzero
    · refine ⟨UInt8.ofNat (48 + n % 10), [], rfl, ?_, ?_⟩
      · intro d hd
        rw [List.mem_singleton.mp hd]
        exact isDigit_digit hlast
      · show 10 * 0 + ((UInt8.ofNat (48 + n % 10)).toNat - 48) = n
        rw [toNat_digit hlast]
        omega
    · obtain ⟨c, ds, heq, hdigits, hvalue⟩ := ih (show n / 10 < fuel by omega) (UInt8.ofNat (48 + n % 10) :: acc)
      refine ⟨c, ds ++ [UInt8.ofNat (48 + n % 10)], ?_, ?_, ?_⟩
      · rw [heq]
        simp
      · intro d hd
        rw [← List.cons_append, List.mem_append, List.mem_singleton] at hd
        rcases hd with hd | rfl
        · exact hdigits d hd
        · exact isDigit_digit hlast
      · rw [← List.cons_append, valueFrom_append, hvalue]
        show 10 * (n / 10) + ((UInt8.ofNat (48 + n % 10)).toNat - 48) = n
        rw [toNat_digit hlast]
        omega

theorem ofNat_eq (n : Nat) : ∃ c ds, ofNat n = c :: ds ∧ (∀ d ∈ c :: ds, isDigit d = true) ∧ valueFrom 0 (c :: ds) = n := by
  obtain ⟨c, ds, heq, hdigits, hvalue⟩ := digitsFrom_eq (Nat.lt_succ_self n) []
  exact ⟨c, ds, by rw [ofNat, heq, List.append_nil], hdigits, hvalue⟩

theorem takeWhile_digits {ds : List UInt8} (h : ∀ d ∈ ds, isDigit d = true) : ds.takeWhile isDigit = ds :=
  List.takeWhile_eq_self_iff.mpr h

theorem clamp_eq {n : Int} (h : -2 ^ 63 ≤ n) (h' : n < 2 ^ 63) : clamp n = n := by
  unfold clamp
  omega

theorem of_isDigit {c : UInt8} (h : isDigit c = true) : isSpace c = false ∧ c ≠ 0x2d ∧ c ≠ 0x2b := by
  unfold isDigit at h
  rw [Bool.and_eq_true, decide_eq_true_iff, decide_eq_true_iff, UInt8.le_iff_toNat_le, UInt8.le_iff_toNat_le] at h
  have hlow : 48 ≤ c.toNat := h.1
  have hne : ∀ b : UInt8, b.toNat < 48 → c ≠ b := fun b hb heq => by
    rw [heq] at hlow
    omega
  refine ⟨?_, hne 0x2d (by decide), hne 0x2b (by decide)⟩
  unfold isSpace
  rw [decide_eq_false (hne 0x20 (by decide)), Bool.false_or, Bool.and_eq_false_iff]
  refine Or.inr (decide_eq_false ?_)
  rw [UInt8.le_iff_toNat_le]
  show ¬c.toNat ≤ 13
  omega

theorem strtoll_ofNat (h : n < 2 ^ 63) : strtoll (ofNat n) = n := by
  obtain ⟨c, ds, heq, hdigits, hvalue⟩ := ofNat_eq n
  obtain ⟨hspace, hminus, hplus⟩ := of_isDigit (hdigits c List.mem_cons_self)
  unfold strtoll
  rw [heq, List.dropWhile_cons_of_neg (by rw [hspace]; exact Bool.false_ne_true)]
  dsimp only
  rw [if_neg hminus, if_neg hplus, takeWhile_digits hdigits, hvalue, clamp_eq (by omega) (by omega)]

theorem strtoll_ofInt {n : Int} (h : -2 ^ 63 ≤ n) (h' : n < 2 ^ 63) : strtoll (ofInt n) = n := by
  unfold ofInt
  split_ifs with hneg
  · obtain ⟨c, ds, heq, hdigits, hvalue⟩ := ofNat_eq n.natAbs
    unfold strtoll
    rw [List.dropWhile_cons_of_neg (by decide)]
    dsimp only
    rw [if_pos rfl, heq, takeWhile_digits hdigits, hvalue, clamp_eq (by omega) (by omega)]
    omega
  · rw [strtoll_ofNat (by omega)]
    omega

theorem length_digitsFrom_le (fuel n : Nat) (acc : List UInt8) (hk : 0 < k) (h : n < 10 ^ k) :
    (digitsFrom fuel n acc).length ≤ acc.length + k := by
  induction fuel generalizing n acc k with
  | zero => exact Nat.le_add_right _ _
  | succ fuel ih =>
    unfold digitsFrom
    split_ifs with hzero
    · rw [List.length_cons]
      omega
    · obtain ⟨j, rfl⟩ : ∃ j, k = j + 1 := ⟨k - 1, by omega⟩
      have hj : 0 < j := by
        refine Nat.pos_of_ne_zero fun hj => hzero (Nat.div_eq_of_lt ?_)
        rwa [hj] at h
      have hdiv : n / 10 < 10 ^ j := Nat.div_lt_of_lt_mul (by rwa [Nat.pow_succ, Nat.mul_comm] at h)
      refine (ih (n / 10) _ hj hdiv).trans ?_
      rw [List.length_cons]
      omega

theorem length_ofNat_le (hk : 0 < k) (h : n < 10 ^ k) : (ofNat n).length ≤ k :=
  (length_digitsFrom_le _ n [] hk h).trans (Nat.le_of_eq (Nat.zero_add k))

theorem length_ofInt_le {n : Int} (hk : 0 < k) (h : n.natAbs < 10 ^ k) : (ofInt n).length ≤ k + 1 := by
  unfold ofInt
  split_ifs
  · exact Nat.succ_le_succ (length_ofNat_le hk h)
  · exact (length_ofNat_le hk h).trans (Nat.le_succ k)

end Decimal
