import PupaCoin.Chain.Params
import PupaCoin.Lib.Decimal

/-!
# Amounts as strings (`FormatMoney`, `ParseMoney`)

An amount is printed with eight digits behind the point, of which zeros at the end are trimmed down to two digits. It
is read with white space on both sides and with fewer digits, or none, on either side of the point. Strings are bytes.
-/

namespace PupaCoin.Money

variable {whole ds units back : List UInt8}

open Decimal

/-- `%08d`: the zeros are behind the sign. -/
def padded (n : Int) : List UInt8 :=
  if n < 0 then 0x2d :: (List.replicate (7 - (ofNat n.natAbs).length) 0x30 ++ ofNat n.natAbs)
  else List.replicate (8 - (ofNat n.natAbs).length) 0x30 ++ ofNat n.natAbs

/-- The loop that counts the excess zeros, with `i + 1` for `i`; `none` where it indexes outside of the string. -/
def trimLoop (str : List UInt8) : Nat → Nat → Option Nat
  | 0, _ => none
  | i + 1, nTrim => do
    let c ← str[i]?
    if c = 0x30 then
      if i < 2 then none
      else
        let d ← str[i - 2]?
        if isDigit d then trimLoop str i (nTrim + 1) else some nTrim
    else some nTrim

/-- `FormatMoney`; the lowest number is its own negative. -/
def formatMoney (n : Int) (fPlus : Bool) : Option (List UInt8) := do
  let nAbs := if n > 0 then n else (-n).bmod (2 ^ 64)
  let quotient := nAbs.tdiv coin
  let remainder := nAbs.tmod coin
  let str := ofInt quotient ++ 0x2e :: padded remainder
  let nTrim ← trimLoop str str.length 0
  let str := str.take (str.length - nTrim)
  if n < 0 then return 0x2d :: str
  else if fPlus && decide (n > 0) then return 0x2b :: str
  else return str

/-- The loop over the digits behind the point, and what it leaves. -/
def scanUnits : List UInt8 → Int → Int → Int × List UInt8
  | [], _, nUnits => (nUnits, [])
  | c :: p, nMult, nUnits =>
    if isDigit c ∧ nMult > 0 then scanUnits p (nMult / 10) (nUnits + nMult * ((c.toNat : Int) - 48))
    else (nUnits, c :: p)

/-- The loop over the whole number: its digits, the units and what is left of the string. -/
def scanWhole : List UInt8 → List UInt8 → Option (List UInt8 × Int × List UInt8)
  | [], strWhole => some (strWhole, 0, [])
  | c :: p, strWhole =>
    if c = 0x2e then some (strWhole, scanUnits p (cent * 10) 0)
    else if isSpace c then some (strWhole, 0, c :: p)
    else if !isDigit c then none
    else scanWhole p (strWhole ++ [c])

/-- `ParseMoney` takes the string up to its first null byte. -/
def parseMoney (str : List UInt8) : Option Int := do
  let p := (str.takeWhile (· != 0)).dropWhile isSpace
  let (strWhole, nUnits, rest) ← scanWhole p []
  if rest.any fun c => !isSpace c then none
  else if strWhole.length > 10 then none
  else if nUnits < 0 ∨ nUnits > coin then none
  else return strtoll strWhole * coin + nUnits

/-- White space, at most ten digits, maybe a point with at most eight digits, and white space. -/
structure IsMoney (psz whole units : List UInt8) : Prop where
  shape : ∃ front point back, psz = front ++ whole ++ point ++ units ++ back ∧ (∀ c ∈ front, isSpace c = true) ∧
    (∀ c ∈ back, isSpace c = true) ∧ (point = [0x2e] ∨ point = [] ∧ units = [])
  whole_digits : ∀ c ∈ whole, isDigit c = true
  whole_le : whole.length ≤ 10
  units_digits : ∀ c ∈ units, isDigit c = true
  units_le : units.length ≤ 8

/-- The digits behind the point in units of the eighth. -/
def unitsValue (units : List UInt8) : Nat := valueFrom 0 units * 10 ^ (8 - units.length)

def moneyValue (whole units : List UInt8) : Nat := valueFrom 0 whole * 10 ^ 8 + unitsValue units

section Digits

variable {ds units p : List UInt8} {c : UInt8} {k : Nat}

theorem digit_le (h : isDigit c = true) : 48 ≤ c.toNat ∧ c.toNat ≤ 57 := by
  unfold isDigit at h
  rw [Bool.and_eq_true, decide_eq_true_iff, decide_eq_true_iff, UInt8.le_iff_toNat_le, UInt8.le_iff_toNat_le] at h
  exact h

theorem valueFrom_eq (n : Nat) (ds : List UInt8) : valueFrom n ds = n * 10 ^ ds.length + valueFrom 0 ds := by
  induction ds generalizing n with
  | nil => simp [valueFrom]
  | cons d ds ih =>
    have hstep : ∀ m, valueFrom m (d :: ds) = valueFrom (10 * m + (d.toNat - 48)) ds := fun _ => rfl
    rw [hstep, hstep, ih, ih (10 * 0 + (d.toNat - 48)), List.length_cons]
    ring

theorem valueFrom_lt (h : ∀ d ∈ ds, isDigit d = true) : valueFrom 0 ds < 10 ^ ds.length := by
  induction ds with
  | nil => exact Nat.one_pos
  | cons d ds ih =>
    have hd := digit_le (h d List.mem_cons_self)
    have hrest := ih fun e he => h e (List.mem_cons_of_mem d he)
    have hdigit : (d.toNat - 48) * 10 ^ ds.length ≤ 9 * 10 ^ ds.length := Nat.mul_le_mul_right _ (by omega)
    rw [show valueFrom 0 (d :: ds) = valueFrom (10 * 0 + (d.toNat - 48)) ds from rfl, valueFrom_eq, List.length_cons,
      Nat.pow_succ, Nat.mul_zero, Nat.zero_add]
    omega

theorem valueFrom_zeros (k : Nat) : valueFrom 0 (List.replicate k 0x30) = 0 := by
  induction k with
  | zero => rfl
  | succ k ih => exact ih

theorem valueFrom_append_zeros (ds : List UInt8) (k : Nat) :
    valueFrom 0 (ds ++ List.replicate k 0x30) = valueFrom 0 ds * 10 ^ k := by
  rw [valueFrom_append, valueFrom_eq, valueFrom_zeros, List.length_replicate, Nat.add_zero]

theorem unitsValue_lt (hunits : ∀ d ∈ units, isDigit d = true) (hle : units.length ≤ 8) :
    unitsValue units < 10 ^ 8 := by
  calc unitsValue units
      < 10 ^ units.length * 10 ^ (8 - units.length) :=
        Nat.mul_lt_mul_of_pos_right (valueFrom_lt hunits) (Nat.pow_pos (by norm_num))
    _ = 10 ^ 8 := by rw [← Nat.pow_add, Nat.add_sub_cancel' hle]

theorem moneyValue_lt (hwhole : ∀ d ∈ whole, isDigit d = true) (hle : whole.length ≤ 10)
    (hunits : ∀ d ∈ units, isDigit d = true) (hle' : units.length ≤ 8) : moneyValue whole units < 10 ^ 18 := by
  have hw : valueFrom 0 whole < 10 ^ 10 := (valueFrom_lt hwhole).trans_le (Nat.pow_le_pow_right (by norm_num) hle)
  have hu := unitsValue_lt hunits hle'
  unfold moneyValue
  omega

end Digits

section Parse

variable {str p strWhole rest : List UInt8} {c : UInt8} {k : Nat}

theorem of_isSpace (h : isSpace c = true) : isDigit c = false ∧ c ≠ 0x2e ∧ c ≠ 0 := by
  have hall : ∀ b : Fin 256, isSpace (UInt8.ofNat b) = true →
      isDigit (UInt8.ofNat b) = false ∧ UInt8.ofNat b ≠ 0x2e ∧ UInt8.ofNat b ≠ 0 := by decide +kernel
  have hc := hall ⟨c.toNat, c.toNat_lt⟩
  rw [UInt8.ofNat_toNat] at hc
  exact hc h

theorem ne_of_isDigit (h : isDigit c = true) : c ≠ 0x2e ∧ c ≠ 0 := by
  have hc := digit_le h
  refine ⟨fun heq => ?_, fun heq => ?_⟩
  · rw [heq] at hc
    exact absurd hc (by decide)
  · rw [heq] at hc
    exact absurd hc (by decide)

/-- Behind the point at most `k` digits are taken when `10 ^ k / 10` is the weight of the first. By induction on `k`. -/
theorem scanUnits_eq (k : Nat) (p : List UInt8) (nUnits : Int) :
    ∃ ds rest, p = ds ++ rest ∧ (∀ d ∈ ds, isDigit d = true) ∧ ds.length ≤ k ∧
      (ds.length < k → ∀ c, rest.head? = some c → isDigit c = false) ∧
      scanUnits p (10 ^ k / 10 : Nat) nUnits = (nUnits + (valueFrom 0 ds * 10 ^ (k - ds.length) : Nat), rest) := by
  induction k generalizing p nUnits with
  | zero =>
    refine ⟨[], p, rfl, nofun, le_rfl, fun h => absurd h (Nat.lt_irrefl _), ?_⟩
    cases p with
    | nil => simp [scanUnits, valueFrom]
    | cons c p => simp [scanUnits, valueFrom]
  | succ k ih =>
    cases p with
    | nil =>
      refine ⟨[], [], rfl, nofun, Nat.zero_le _, fun _ c hc => ?_, ?_⟩
      · exact absurd hc (by rw [List.head?_nil]; exact nofun)
      · simp [scanUnits, valueFrom]
    | cons c p =>
      by_cases hc : isDigit c = true
      · have hweight : ((10 ^ (k + 1) / 10 : Nat) : Int) = (10 ^ k : Nat) := by
          rw [Nat.pow_succ, Nat.mul_div_cancel _ (by norm_num)]
        have hpos : (0 : Int) < (10 ^ k : Nat) := by exact_mod_cast Nat.pow_pos (by norm_num)
        have hnext : ((10 ^ k : Nat) : Int) / 10 = (10 ^ k / 10 : Nat) := by push_cast; rfl
        obtain ⟨ds, rest, hp, hdigits, hle, hend, hscan⟩ := ih p (nUnits + (10 ^ k : Nat) * ((c.toNat : Int) - 48))
        refine ⟨c :: ds, rest, by rw [hp]; rfl, ?_, Nat.succ_le_succ hle, fun h => hend (Nat.lt_of_succ_lt_succ h), ?_⟩
        · intro d hd
          rcases List.mem_cons.mp hd with rfl | hd
          · exact hc
          · exact hdigits d hd
        · have hdigit : ((c.toNat : Int) - 48) = (c.toNat - 48 : Nat) := by
            have := digit_le hc
            omega
          have hvalue : valueFrom 0 (c :: ds) = (c.toNat - 48) * 10 ^ ds.length + valueFrom 0 ds := by
            rw [show valueFrom 0 (c :: ds) = valueFrom (10 * 0 + (c.toNat - 48)) ds from rfl, valueFrom_eq, Nat.mul_zero,
              Nat.zero_add]
          have hsplit : 10 ^ ds.length * 10 ^ (k - ds.length) = 10 ^ k := by rw [← Nat.pow_add, Nat.add_sub_cancel' hle]
          rw [scanUnits, hweight, if_pos ⟨hc, hpos⟩, hnext, hscan, hdigit, hvalue, List.length_cons, Nat.add_sub_add_right,
            Nat.add_mul, Nat.mul_assoc, hsplit]
          push_cast
          ring_nf
      · refine ⟨[], c :: p, rfl, nofun, Nat.zero_le _, ?_, ?_⟩
        · intro _ d hd
          rw [List.head?_cons, Option.some.injEq] at hd
          exact hd ▸ Bool.not_eq_true _ ▸ hc
        · rw [scanUnits, if_neg fun h => hc h.1]
          simp [valueFrom]

/-- The whole number ends at the first character that is no digit. By induction on the string. -/
theorem scanWhole_digits (strWhole : List UInt8) (hds : ∀ d ∈ ds, isDigit d = true) (rest : List UInt8) :
    scanWhole (ds ++ rest) strWhole = scanWhole rest (strWhole ++ ds) := by
  induction ds generalizing strWhole with
  | nil => rw [List.nil_append, List.append_nil]
  | cons d ds ih =>
    have hd := hds d List.mem_cons_self
    obtain ⟨hspace, -, -⟩ := of_isDigit hd
    rw [List.cons_append, scanWhole, if_neg (ne_of_isDigit hd).1, if_neg (by rw [hspace]; exact Bool.false_ne_true),
      if_neg (by rw [hd]; exact Bool.false_ne_true), ih _ fun e he => hds e (List.mem_cons_of_mem d he), List.append_assoc]
    rfl

theorem units_eq {rest : List UInt8} (h : units ++ back = ds ++ rest) (hds : ∀ d ∈ ds, isDigit d = true)
    (hend : ds.length < k → ∀ c, rest.head? = some c → isDigit c = false) (hunits : ∀ d ∈ units, isDigit d = true)
    (hle : units.length ≤ k) (hback : ∀ d ∈ back, isSpace d = true) : ds = units ∧ rest = back := by
  rcases List.append_eq_append_iff.mp h with ⟨more, rfl, rfl⟩ | ⟨more, rfl, rfl⟩
  · cases more with
    | nil => exact ⟨List.append_nil _, rfl⟩
    | cons d more =>
      have hd := hds d (by simp)
      rw [(of_isSpace (hback d (by simp))).1] at hd
      exact absurd hd Bool.false_ne_true
  · cases more with
    | nil => exact ⟨(List.append_nil _).symm, rfl⟩
    | cons d more =>
      rw [List.length_append, List.length_cons] at hle
      have hd := hend (by omega) d rfl
      rw [hunits d (by simp)] at hd
      exact absurd hd.symm Bool.false_ne_true

theorem weight_eq : cent * 10 = (10 ^ 8 / 10 : Nat) := by decide

theorem strtoll_digits (hds : ∀ d ∈ strWhole, isDigit d = true) (hle : strWhole.length ≤ 10) :
    strtoll strWhole = valueFrom 0 strWhole := by
  have hlt : valueFrom 0 strWhole < 10 ^ 10 := (valueFrom_lt hds).trans_le (Nat.pow_le_pow_right (by norm_num) hle)
  cases strWhole with
  | nil => rfl
  | cons c ds =>
    obtain ⟨hspace, hminus, hplus⟩ := of_isDigit (hds c List.mem_cons_self)
    unfold strtoll
    rw [List.dropWhile_cons_of_neg (by rw [hspace]; exact Bool.false_ne_true)]
    dsimp only
    rw [if_neg hminus, if_neg hplus, takeWhile_digits hds, clamp_eq (by omega) (by omega)]

/-- The checks at the end of `ParseMoney`. -/
def parseChecks (scanned : List UInt8 × Int × List UInt8) : Option Int :=
  if scanned.2.2.any fun c => !isSpace c then none
  else if scanned.1.length > 10 then none
  else if scanned.2.1 < 0 ∨ scanned.2.1 > coin then none
  else some (strtoll scanned.1 * coin + scanned.2.1)

theorem parseMoney_eq (str : List UInt8) :
    parseMoney str = (scanWhole ((str.takeWhile (· != 0)).dropWhile isSpace) []).bind parseChecks := rfl

theorem parseChecks_iff (hwhole : ∀ d ∈ strWhole, isDigit d = true) (hunits : ∀ d ∈ units, isDigit d = true)
    (hle : units.length ≤ 8) (v : Int) : parseChecks (strWhole, (unitsValue units : Int), rest) = some v ↔
      (∀ c ∈ rest, isSpace c = true) ∧ strWhole.length ≤ 10 ∧ v = moneyValue strWhole units := by
  have hany : (rest.any fun c => !isSpace c) = true ↔ ¬∀ c ∈ rest, isSpace c = true := by simp
  have hsmall := unitsValue_lt hunits hle
  have hrange : ¬((unitsValue units : Int) < 0 ∨ (unitsValue units : Int) > coin) := by
    unfold coin
    omega
  unfold parseChecks
  dsimp only
  by_cases hrest : ∀ c ∈ rest, isSpace c = true
  · rw [if_neg fun h => hany.mp h hrest]
    by_cases hlong : strWhole.length > 10
    · rw [if_pos hlong]
      exact iff_of_false nofun fun h => Nat.not_le.mpr hlong h.2.1
    · have hle' := Nat.not_lt.mp hlong
      rw [if_neg hlong, if_neg hrange, strtoll_digits hwhole hle', Option.some.injEq]
      have hvalue : (valueFrom 0 strWhole : Int) * coin + unitsValue units = moneyValue strWhole units := by
        unfold moneyValue coin
        push_cast
        ring
      rw [hvalue]
      exact ⟨fun h => ⟨hrest, hle', h.symm⟩, fun h => h.2.2.symm⟩
  · rw [if_pos (hany.mpr hrest)]
    exact iff_of_false nofun fun h => hrest h.1

theorem dropWhile_front {front m : List UInt8} (hfront : ∀ c ∈ front, isSpace c = true)
    (hback : ∀ c ∈ back, isSpace c = true) (hm : ∀ c, m.head? = some c → isSpace c = false) :
    (front ++ m ++ back).dropWhile isSpace = if m = [] then [] else m ++ back := by
  rw [List.append_assoc, List.dropWhile_append_of_pos hfront]
  cases m with
  | nil => rw [if_pos rfl, List.nil_append, List.dropWhile_eq_nil_iff.mpr hback]
  | cons c m =>
    rw [if_neg (List.cons_ne_nil c m), List.cons_append, List.dropWhile_cons_of_neg (by rw [hm c rfl]; exact nofun)]

theorem parseMoney_of_isMoney (h : IsMoney (str.takeWhile (· != 0)) whole units) :
    parseMoney str = some (moneyValue whole units : Int) := by
  obtain ⟨⟨front, point, back, hpsz, hfront, hback, hpoint⟩, hwhole, hwholeLe, hunits, hunitsLe⟩ := h
  have hassoc : front ++ whole ++ point ++ units ++ back = front ++ (whole ++ (point ++ units)) ++ back := by simp
  have hhead : ∀ c, (whole ++ (point ++ units)).head? = some c → isSpace c = false := by
    intro c hc
    cases whole with
    | nil =>
      rcases hpoint with rfl | ⟨rfl, rfl⟩
      · rw [List.nil_append, List.singleton_append, List.head?_cons, Option.some.injEq] at hc
        rw [← hc]
        decide
      · exact absurd hc nofun
    | cons d whole =>
      rw [List.cons_append, List.head?_cons, Option.some.injEq] at hc
      rw [← hc]
      exact (of_isDigit (hwhole d List.mem_cons_self)).1
  have hscan : ∃ rest, (∀ c ∈ rest, isSpace c = true) ∧ scanWhole ((str.takeWhile (· != 0)).dropWhile isSpace) []
        = some (whole, (unitsValue units : Int), rest) := by
    rw [hpsz, hassoc, dropWhile_front hfront hback hhead]
    rcases hpoint with rfl | ⟨rfl, rfl⟩
    · refine ⟨back, hback, ?_⟩
      obtain ⟨ds, rest, hsplit, hds, hle, hend, hunitsScan⟩ := scanUnits_eq 8 (units ++ back) 0
      obtain ⟨rfl, rfl⟩ := units_eq hsplit hds hend hunits hunitsLe hback
      rw [← unitsValue] at hunitsScan
      rw [if_neg (by simp), List.append_assoc, scanWhole_digits [] hwhole]
      rw [List.nil_append, List.singleton_append, List.cons_append, scanWhole, if_pos rfl, weight_eq, hunitsScan, zero_add]
    · have hzero : (unitsValue [] : Int) = 0 := rfl
      rw [hzero, List.append_nil, List.append_nil]
      split_ifs with hnil
      · exact ⟨[], nofun, by rw [hnil]; rfl⟩
      · refine ⟨back, hback, ?_⟩
        rw [scanWhole_digits [] hwhole, List.nil_append]
        cases back with
        | nil => rfl
        | cons c back =>
          have hc := hback c List.mem_cons_self
          rw [scanWhole, if_neg (of_isSpace hc).2.1, if_pos hc]
  obtain ⟨rest, hrest, hscan⟩ := hscan
  rw [parseMoney_eq, hscan]
  exact (parseChecks_iff hwhole hunits hunitsLe _).mpr ⟨hrest, hwholeLe, rfl⟩

theorem scanWhole_end {q : List UInt8} (hq : ∀ c, q.head? = some c → isDigit c = false) {scanned}
    (h : scanWhole q strWhole = some scanned) :
    ∃ point units rest, q = point ++ units ++ rest ∧ (point = [0x2e] ∨ point = [] ∧ units = []) ∧
      (∀ d ∈ units, isDigit d = true) ∧ units.length ≤ 8 ∧
      scanned = (strWhole, (unitsValue units : Int), rest) := by
  have hnone : ∀ d ∈ ([] : List UInt8), isDigit d = true := nofun
  cases q with
  | nil =>
    rw [scanWhole, Option.some.injEq] at h
    exact ⟨[], [], [], rfl, .inr ⟨rfl, rfl⟩, hnone, Nat.zero_le _, h.symm⟩
  | cons c q =>
    rw [scanWhole] at h
    by_cases hpoint : c = 0x2e
    · obtain ⟨ds, rest, hsplit, hds, hle, -, hscan⟩ := scanUnits_eq 8 q 0
      rw [if_pos hpoint, weight_eq, hscan, zero_add, Option.some.injEq] at h
      exact ⟨[0x2e], ds, rest, by rw [hpoint, hsplit]; rfl, .inl rfl, hds, hle, h.symm⟩
    · rw [if_neg hpoint] at h
      by_cases hspace : isSpace c = true
      · rw [if_pos hspace, Option.some.injEq] at h
        exact ⟨[], [], c :: q, rfl, .inr ⟨rfl, rfl⟩, hnone, Nat.zero_le _, h.symm⟩
      · rw [if_neg hspace, hq c rfl] at h
        exact absurd h nofun

theorem parseMoney_iff (str : List UInt8) (v : Int) : parseMoney str = some v ↔
    ∃ whole units, IsMoney (str.takeWhile (· != 0)) whole units ∧ v = moneyValue whole units := by
  constructor
  · intro h
    rw [parseMoney_eq] at h
    obtain ⟨scanned, hscan, hchecks⟩ := Option.bind_eq_some_iff.mp h
    generalize hpsz : str.takeWhile (· != 0) = psz at hscan
    have hds : ∀ d ∈ (psz.dropWhile isSpace).takeWhile isDigit, isDigit d = true := fun d => List.mem_takeWhile_imp
    rw [← List.takeWhile_append_dropWhile (p := isDigit) (l := psz.dropWhile isSpace), scanWhole_digits [] hds,
      List.nil_append] at hscan
    have hq : ∀ c, ((psz.dropWhile isSpace).dropWhile isDigit).head? = some c → isDigit c = false := by
      intro c hc
      have hhead := List.head?_dropWhile_not isDigit (psz.dropWhile isSpace)
      rw [hc] at hhead
      exact hhead
    obtain ⟨point, units, rest, hsplit, hpoint, hunits, hunitsLe, rfl⟩ := scanWhole_end hq hscan
    obtain ⟨hrest, hwholeLe, hv⟩ := (parseChecks_iff hds hunits hunitsLe v).mp hchecks
    refine ⟨_, units, ⟨⟨psz.takeWhile isSpace, point, rest, ?_, fun c => List.mem_takeWhile_imp, hrest, hpoint⟩, hds,
      hwholeLe, hunits, hunitsLe⟩, hv⟩
    rw [List.append_assoc, List.append_assoc, List.append_assoc, ← List.append_assoc point, ← hsplit,
      List.takeWhile_append_dropWhile, List.takeWhile_append_dropWhile]
  · rintro ⟨whole, units, h, rfl⟩
    exact parseMoney_of_isMoney h

end Parse

section Format

variable {str whole units : List UInt8} {n : Int} {k : Nat}

theorem getElem?_units (whole units : List UInt8) (j : Nat) :
    (whole ++ 0x2e :: units)[whole.length + 1 + j]? = units[j]? := by
  rw [List.getElem?_append_right (by omega), show whole.length + 1 + j - whole.length = j + 1 by omega,
    List.getElem?_cons_succ]

/-- The loop ends two places behind the point at the latest. By induction on the place. -/
theorem trimLoop_spec (whole units : List UInt8) {j : Nat} (hpos : 1 ≤ j) (hj : j < units.length) (nTrim : Nat) :
    ∃ k, trimLoop (whole ++ 0x2e :: units) (whole.length + 1 + j + 1) nTrim = some (nTrim + k) ∧ k + 1 ≤ j ∧
      ∀ i, j < i + k → i ≤ j → units[i]? = some 0x30 := by
  induction j generalizing nTrim with
  | zero => exact absurd hpos (by omega)
  | succ j ih =>
    have hstay : ∃ k, some nTrim = some (nTrim + k) ∧ k + 1 ≤ j + 1 ∧
        ∀ i, j + 1 < i + k → i ≤ j + 1 → units[i]? = some 0x30 :=
      ⟨0, rfl, Nat.succ_le_succ (Nat.zero_le j), fun i h h' => absurd h (by omega)⟩
    have hget : (whole ++ 0x2e :: units)[whole.length + 1 + (j + 1)]? = some units[j + 1] := by
      rw [getElem?_units, List.getElem?_eq_getElem hj]
    rw [trimLoop, hget, Option.bind_eq_bind, Option.bind_some]
    by_cases hzero : units[j + 1] = 0x30
    · rw [if_pos hzero, if_neg (by omega)]
      rcases Nat.eq_zero_or_pos j with rfl | hjpos
      · have hpoint : (whole ++ 0x2e :: units)[whole.length + 1 + (0 + 1) - 2]? = some 0x2e := by
          rw [show whole.length + 1 + (0 + 1) - 2 = whole.length by omega, List.getElem?_append_right le_rfl, Nat.sub_self]
          rfl
        rw [hpoint, Option.bind_some, if_neg (by decide)]
        exact hstay
      · have hback : (whole ++ 0x2e :: units)[whole.length + 1 + (j + 1) - 2]? = some units[j - 1] := by
          rw [show whole.length + 1 + (j + 1) - 2 = whole.length + 1 + (j - 1) by omega, getElem?_units,
            List.getElem?_eq_getElem (by omega)]
        rw [hback, Option.bind_some]
        by_cases hdigit : isDigit units[j - 1] = true
        · obtain ⟨k, hloop, hk, hzeros⟩ := ih hjpos (by omega) (nTrim + 1)
          refine ⟨k + 1, ?_, Nat.succ_le_succ hk, fun i h h' => ?_⟩
          · rw [if_pos hdigit, ← Nat.add_assoc, hloop, Nat.add_assoc, Nat.add_comm 1]
          · rcases Nat.lt_or_eq_of_le h' with h' | rfl
            · exact hzeros i (by omega) (Nat.lt_succ_iff.mp h')
            · rw [List.getElem?_eq_getElem hj, hzero]
        · rw [if_neg hdigit]
          exact hstay
    · rw [if_neg hzero]
      exact hstay

theorem trim_spec (whole : List UInt8) (hunits : 2 ≤ units.length) :
    ∃ k, trimLoop (whole ++ 0x2e :: units) (whole ++ 0x2e :: units).length 0 = some k ∧ k ≤ units.length ∧
      (whole ++ 0x2e :: units).take ((whole ++ 0x2e :: units).length - k)
        = whole ++ 0x2e :: units.take (units.length - k) ∧
      units = units.take (units.length - k) ++ List.replicate k 0x30 := by
  obtain ⟨k, hloop, hk, hzeros⟩ := trimLoop_spec whole units (j := units.length - 1) (by omega) (by omega) 0
  have hlength : (whole ++ 0x2e :: units).length = whole.length + 1 + (units.length - 1) + 1 := by
    rw [List.length_append, List.length_cons]
    omega
  refine ⟨k, by rw [hlength, hloop, Nat.zero_add], by omega, ?_, ?_⟩
  · rw [hlength, show whole.length + 1 + (units.length - 1) + 1 - k = whole.length + (1 + (units.length - k)) by omega,
      List.take_length_add_append, Nat.add_comm 1, List.take_succ_cons]
  · have hdrop : units.drop (units.length - k) = List.replicate k 0x30 := by
      refine List.eq_replicate_iff.mpr ⟨by rw [List.length_drop]; omega, fun c hc => ?_⟩
      obtain ⟨i, hi, rfl⟩ := List.mem_iff_getElem.mp hc
      rw [List.length_drop] at hi
      rw [List.getElem_drop]
      have hzero := hzeros (units.length - k + i) (by omega) (by omega)
      rw [List.getElem?_eq_getElem (by omega), Option.some.injEq] at hzero
      exact hzero
    rw [← hdrop, List.take_append_drop]

theorem length_padded (n : Int) : 8 ≤ (padded n).length := by
  unfold padded
  split
  · rw [List.length_cons, List.length_append, List.length_replicate]
    omega
  · rw [List.length_append, List.length_replicate]
    omega

theorem padded_spec {m : Nat} (hm : m < 10 ^ 8) :
    (padded m).length = 8 ∧ (∀ d ∈ padded m, isDigit d = true) ∧ valueFrom 0 (padded m) = m := by
  obtain ⟨c, ds, hds, hdigits, hvalue⟩ := ofNat_eq m
  have hlength := length_ofNat_le (k := 8) (by norm_num) hm
  have hpadded : padded m = List.replicate (8 - (ofNat m).length) 0x30 ++ ofNat m := by
    rw [padded, if_neg (by omega), Int.natAbs_natCast]
  rw [← hds] at hdigits hvalue
  refine ⟨?_, ?_, ?_⟩
  · rw [hpadded, List.length_append, List.length_replicate]
    omega
  · intro d hd
    rw [hpadded] at hd
    rcases List.mem_append.mp hd with hd | hd
    · rw [List.eq_of_mem_replicate hd]
      decide
    · exact hdigits d hd
  · rw [hpadded, valueFrom_append, valueFrom_zeros, hvalue]

theorem formatMoney_isSome (n : Int) (fPlus : Bool) : (formatMoney n fPlus).isSome = true := by
  unfold formatMoney
  dsimp only
  obtain ⟨k, htrim, -⟩ := trim_spec (ofInt ((if n > 0 then n else (-n).bmod (2 ^ 64)).tdiv coin))
    ((show 2 ≤ 8 by norm_num).trans (length_padded ((if n > 0 then n else (-n).bmod (2 ^ 64)).tmod coin)))
  rw [htrim, Option.bind_eq_bind, Option.bind_some]
  split
  · rfl
  · split <;> rfl

theorem formatMoney_isMoney {n : Nat} (hn : n < 10 ^ 18) :
    ∃ whole units, formatMoney n false = some (whole ++ 0x2e :: units) ∧
      IsMoney (whole ++ 0x2e :: units) whole units ∧ moneyValue whole units = n := by
  have habs : (if (n : Int) > 0 then (n : Int) else (-(n : Int)).bmod (2 ^ 64)) = n := by
    split_ifs with hpos
    · rfl
    · obtain rfl : n = 0 := by omega
      rfl
  have hquotient : (n : Int).tdiv coin = (n / 10 ^ 8 : Nat) := by
    rw [show coin = ((10 ^ 8 : Nat) : Int) from rfl, Int.tdiv_eq_ediv_of_nonneg (by omega)]
    rfl
  have hremainder : (n : Int).tmod coin = (n % 10 ^ 8 : Nat) := by
    rw [show coin = ((10 ^ 8 : Nat) : Int) from rfl, Int.tmod_eq_emod_of_nonneg (by omega)]
    rfl
  have hprint : ofInt ((n / 10 ^ 8 : Nat) : Int) = ofNat (n / 10 ^ 8) := by
    rw [ofInt, if_neg (by omega), Int.natAbs_natCast]
  obtain ⟨c, ds, hds, hdigits, hvalue⟩ := ofNat_eq (n / 10 ^ 8)
  rw [← hds] at hdigits hvalue
  obtain ⟨hlength, hunits, hunitsValue⟩ := padded_spec (Nat.mod_lt n (show 0 < 10 ^ 8 by norm_num))
  obtain ⟨k, htrim, hk, htake, hzeros⟩ := trim_spec (ofNat (n / 10 ^ 8)) (length_padded (n % 10 ^ 8 : Nat) |> le_trans (by norm_num))
  rw [hlength] at htake hzeros hk
  generalize hkept : (padded (n % 10 ^ 8 : Nat)).take (8 - k) = kept at htake hzeros
  have hkeptLength : kept.length = 8 - k := by
    rw [← hkept, List.length_take]
    omega
  refine ⟨ofNat (n / 10 ^ 8), kept, ?_, ⟨⟨[], [0x2e], [], by simp, ?_, ?_, .inl rfl⟩, hdigits, ?_, ?_, ?_⟩, ?_⟩
  · unfold formatMoney
    dsimp only
    rw [habs, hquotient, hremainder, hprint, htrim, Option.bind_eq_bind, Option.bind_some, htake, if_neg (by omega)]
    rfl
  · exact nofun
  · exact nofun
  · exact length_ofNat_le (by norm_num) (Nat.div_lt_of_lt_mul (by rw [← Nat.pow_add]; exact hn))
  · exact fun d hd => hunits d (by rw [hzeros]; exact List.mem_append_left _ hd)
  · omega
  · have hback : 8 - (8 - k) = k := by omega
    rw [moneyValue, unitsValue, hvalue, hkeptLength, hback, ← valueFrom_append_zeros, ← hzeros, hunitsValue]
    exact Nat.div_add_mod' n (10 ^ 8)

end Format

/-- An amount below `10 ^ 18` is read back from what is printed of it; of all strings, those of amounts are read, as the
number of units that they stand for, which 64 bits hold; and the loop of `FormatMoney` stays inside of its string. -/
theorem money_roundTrip :
    (∀ n : Int, 0 ≤ n → n < 10 ^ 18 → ∃ str, formatMoney n false = some str ∧ parseMoney str = some n) ∧
    (∀ str v, parseMoney str = some v ↔
      ∃ whole units, IsMoney (str.takeWhile (· != 0)) whole units ∧ v = moneyValue whole units) ∧
    (∀ str v, parseMoney str = some v → 0 ≤ v ∧ v < 2 ^ 63) ∧
    (∀ n fPlus, (formatMoney n fPlus).isSome = true) := by
  refine ⟨fun n hn hlt => ?_, parseMoney_iff, fun str v h => ?_, formatMoney_isSome⟩
  · obtain ⟨n, rfl⟩ := Int.eq_ofNat_of_zero_le hn
    obtain ⟨whole, units, hformat, hmoney, hvalue⟩ := formatMoney_isMoney (n := n) (by omega)
    refine ⟨_, hformat, (parseMoney_iff _ _).mpr ⟨whole, units, ?_, by rw [hvalue]⟩⟩
    have hnull : (whole ++ 0x2e :: units).takeWhile (· != 0) = whole ++ 0x2e :: units := by
      refine List.takeWhile_eq_self_iff.mpr fun c hc => bne_iff_ne.mpr ?_
      rcases List.mem_append.mp hc with hc | hc
      · exact (ne_of_isDigit (hmoney.whole_digits c hc)).2
      · rcases List.mem_cons.mp hc with rfl | hc
        · decide
        · exact (ne_of_isDigit (hmoney.units_digits c hc)).2
    rwa [hnull]
  · obtain ⟨whole, units, hmoney, rfl⟩ := (parseMoney_iff str v).mp h
    have hlt := moneyValue_lt hmoney.whole_digits hmoney.whole_le hmoney.units_digits hmoney.units_le
    omega

end PupaCoin.Money
