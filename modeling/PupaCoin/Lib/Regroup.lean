import Mathlib.Data.Nat.Digits.Lemmas
import Mathlib.Tactic

/-!
# Regrouping bits

A stream of digits of one width is turned into digits of another width by an automaton that holds the bits that are
left over; its mode says how many they are. Going there with zeros put behind and coming back gives the stream again.
-/

namespace Regroup

/-- The number of digits of `width` bits, the highest first. -/
def value (width : ℕ) (ds : List ℕ) : ℕ := Nat.ofDigits (2 ^ width) ds.reverse

/-- An automaton: from its mode, what is left over and a digit to the digits out, the mode and what is left over. -/
abbrev Automaton := ℕ → ℕ → ℕ → List ℕ × ℕ × ℕ

/-- What comes out, and the mode and the left-over at the end. -/
def run (step : Automaton) : ℕ → ℕ → List ℕ → List ℕ × ℕ × ℕ
  | mode, left, [] => ([], mode, left)
  | mode, left, d :: ds =>
    let out := step mode left d
    let rest := run step out.2.1 out.2.2 ds
    (out.1 ++ rest.1, rest.2)

/-- `r` bits with the value `a` and digits `ds` of `win` bits become digits `es` of `wout` bits and `r'` bits with the
value `a'`. -/
structure Moves (win wout r a : ℕ) (ds es : List ℕ) (r' a' : ℕ) : Prop where
  digits : ∀ e ∈ es, e < 2 ^ wout
  value : a * 2 ^ (win * ds.length) + value win ds = value wout es * 2 ^ r' + a'
  count : r + win * ds.length = wout * es.length + r'
  rest : a' < 2 ^ r'

/-- A mode holds `rest` bits, which stand `scale` bits up; in mode 0 there are none. -/
structure Regroups (step : Automaton) (win wout modes : ℕ) (rest scale : ℕ → ℕ) : Prop where
  start : 0 < modes
  none : rest 0 = 0
  step : ∀ mode < modes, ∀ left a d, a < 2 ^ rest mode → d < 2 ^ win → (mode ≠ 0 → left = a * 2 ^ scale mode) →
    ∃ a', (step mode left d).2.1 < modes ∧
      Moves win wout (rest mode) a [d] (step mode left d).1 (rest (step mode left d).2.1) a' ∧
      ((step mode left d).2.1 ≠ 0 → (step mode left d).2.2 = a' * 2 ^ scale (step mode left d).2.1)

section Value

variable {width : ℕ} {ds es : List ℕ}

theorem value_append (width : ℕ) (ds es : List ℕ) :
    value width (ds ++ es) = value width ds * 2 ^ (width * es.length) + value width es := by
  rw [value, List.reverse_append, Nat.ofDigits_append, List.length_reverse, ← Nat.pow_mul, Nat.mul_comm, Nat.add_comm]
  rfl

theorem value_singleton (width d : ℕ) : value width [d] = d := by
  rw [value, List.reverse_singleton, Nat.ofDigits_singleton]

theorem value_nil (width : ℕ) : value width [] = 0 := rfl

theorem value_injective (hwidth : 0 < width) (hds : ∀ d ∈ ds, d < 2 ^ width) (hes : ∀ e ∈ es, e < 2 ^ width)
    (hlength : ds.length = es.length) (hvalue : value width ds = value width es) : ds = es :=
  List.reverse_injective (Nat.ofDigits_inj_of_len_eq (Nat.one_lt_two_pow hwidth.ne')
    (by rw [List.length_reverse, List.length_reverse, hlength]) (fun d hd => hds d (List.mem_reverse.mp hd))
    (fun e he => hes e (List.mem_reverse.mp he)) hvalue)

end Value

section Runs

variable {step back : Automaton} {win wout modes backModes : ℕ} {rest scale backRest backScale : ℕ → ℕ}

/-- By induction on the digits that are taken in. -/
theorem Regroups.run (h : Regroups step win wout modes rest scale) (ds : List ℕ) (hds : ∀ d ∈ ds, d < 2 ^ win)
    {mode left a : ℕ} (hmode : mode < modes) (ha : a < 2 ^ rest mode) (hleft : mode ≠ 0 → left = a * 2 ^ scale mode) :
    ∃ a', (run step mode left ds).2.1 < modes ∧
      Moves win wout (rest mode) a ds (run step mode left ds).1 (rest (run step mode left ds).2.1) a' ∧
      ((run step mode left ds).2.1 ≠ 0 →
        (run step mode left ds).2.2 = a' * 2 ^ scale (run step mode left ds).2.1) := by
  induction ds generalizing mode left a with
  | nil =>
    refine ⟨a, hmode, ⟨nofun, ?_, ?_, ha⟩, hleft⟩
    · simp [Regroup.run, value_nil]
    · simp [Regroup.run]
  | cons d ds ih =>
    obtain ⟨b, hmode', hmove, hleft'⟩ := h.step mode hmode left a d ha (hds d List.mem_cons_self) hleft
    obtain ⟨a', hmode'', hmoves, hleft''⟩ := ih (fun e he => hds e (List.mem_cons_of_mem d he)) hmode' hmove.rest hleft'
    refine ⟨a', hmode'', ⟨fun e he => ?_, ?_, ?_, hmoves.rest⟩, hleft''⟩
    · rcases List.mem_append.mp he with he | he
      · exact hmove.digits e he
      · exact hmoves.digits e he
    · have hone := hmove.value
      have hmore := hmoves.value
      have hcount := hmoves.count
      rw [value_singleton, List.length_singleton, Nat.mul_one] at hone
      simp only [Regroup.run]
      rw [value_append, ← List.singleton_append, value_append, value_singleton, List.length_append, List.length_singleton]
      generalize hout : (Regroup.run step (step mode left d).2.1 (step mode left d).2.2 ds) = out at hmore hcount ⊢
      have hpow : 2 ^ rest (step mode left d).2.1 * 2 ^ (win * ds.length)
          = 2 ^ (wout * out.1.length) * 2 ^ rest out.2.1 := by rw [← Nat.pow_add, ← Nat.pow_add, hcount]
      calc a * 2 ^ (win * (1 + ds.length)) + (d * 2 ^ (win * ds.length) + value win ds)
          = (a * 2 ^ win + d) * 2 ^ (win * ds.length) + value win ds := by ring
        _ = value wout (step mode left d).1 * (2 ^ rest (step mode left d).2.1 * 2 ^ (win * ds.length))
            + (b * 2 ^ (win * ds.length) + value win ds) := by rw [hone]; ring
        _ = (value wout (step mode left d).1 * 2 ^ (wout * out.1.length) + value wout out.1) * 2 ^ rest out.2.1 + a' := by
          rw [hpow, hmore]; ring
    · have hone := hmove.count
      have hmore := hmoves.count
      rw [List.length_singleton, Nat.mul_one] at hone
      simp only [Regroup.run]
      rw [List.length_append, List.length_cons, Nat.mul_add, Nat.mul_add]
      omega

theorem Regroups.run_start (h : Regroups step win wout modes rest scale) (ds : List ℕ) (hds : ∀ d ∈ ds, d < 2 ^ win)
    (left : ℕ) : ∃ a', (Regroup.run step 0 left ds).2.1 < modes ∧
      Moves win wout 0 0 ds (Regroup.run step 0 left ds).1 (rest (Regroup.run step 0 left ds).2.1) a' ∧
      ((Regroup.run step 0 left ds).2.1 ≠ 0 →
        (Regroup.run step 0 left ds).2.2 = a' * 2 ^ scale (Regroup.run step 0 left ds).2.1) := by
  have hrun := h.run ds hds h.start (a := 0) (Nat.two_pow_pos _)
    (show 0 ≠ 0 → left = 0 * 2 ^ scale 0 from fun h0 => absurd rfl h0)
  rwa [h.none] at hrun

/-- The digits out, and with bits left over one more, filled up with zeros. -/
def padded (step : Automaton) (ds : List ℕ) : List ℕ :=
  let out := Regroup.run step 0 0 ds
  if out.2.1 ≠ 0 then out.1 ++ [out.2.2] else out.1

/-- The bits of the zeros that are put behind. -/
def padding (wout : ℕ) (rest : ℕ → ℕ) (mode : ℕ) : ℕ := if mode ≠ 0 then wout - rest mode else 0

theorem padded_spec (h : Regroups step win wout modes rest scale) (hscale : ∀ mode < modes, mode ≠ 0 →
      rest mode + scale mode = wout) (ds : List ℕ) (hds : ∀ d ∈ ds, d < 2 ^ win) :
    (∀ e ∈ padded step ds, e < 2 ^ wout) ∧
    value wout (padded step ds) = value win ds * 2 ^ padding wout rest (Regroup.run step 0 0 ds).2.1 ∧
    wout * (padded step ds).length = win * ds.length + padding wout rest (Regroup.run step 0 0 ds).2.1 := by
  obtain ⟨a', hmode, hmoves, hleft⟩ := h.run_start ds hds 0
  have hvalue := hmoves.value
  have hcount := hmoves.count
  have hrest := hmoves.rest
  rw [Nat.zero_mul, Nat.zero_add] at hvalue
  rw [Nat.zero_add] at hcount
  unfold padded padding
  dsimp only
  split_ifs with hzero
  · have hsum := hscale _ hmode hzero
    have hscaleEq : wout - rest (Regroup.run step 0 0 ds).2.1 = scale (Regroup.run step 0 0 ds).2.1 := by omega
    have hpow : 2 ^ wout = 2 ^ rest (Regroup.run step 0 0 ds).2.1 * 2 ^ scale (Regroup.run step 0 0 ds).2.1 := by
      rw [← Nat.pow_add, hsum]
    refine ⟨fun e he => ?_, ?_, ?_⟩
    · rcases List.mem_append.mp he with he | he
      · exact hmoves.digits e he
      · rw [List.mem_singleton.mp he, hleft hzero, hpow]
        exact Nat.mul_lt_mul_of_pos_right hrest (Nat.two_pow_pos _)
    · rw [value_append, value_singleton, List.length_singleton, Nat.mul_one, hleft hzero, hscaleEq, hvalue, hpow]
      ring
    · rw [List.length_append, List.length_singleton, Nat.mul_add]
      omega
  · have hmode0 : (Regroup.run step 0 0 ds).2.1 = 0 := not_not.mp hzero
    rw [hmode0, h.none, Nat.pow_zero] at hrest
    rw [hmode0, h.none, Nat.lt_one_iff.mp hrest] at hvalue
    rw [hmode0, h.none] at hcount
    rw [Nat.pow_zero, Nat.mul_one, Nat.add_zero] at hvalue
    exact ⟨hmoves.digits, by rw [Nat.pow_zero, Nat.mul_one, hvalue], hcount.symm⟩

theorem quotient_unique {w x y p q : ℕ} (h : w * x + p = w * y + q) (hp : p < w) (hq : q < w) : x = y ∧ p = q := by
  have hquotient : x = y := by
    have hdiv := congrArg (· / w) h
    simpa only [Nat.mul_add_div (show 0 < w by omega), Nat.div_eq_of_lt hp, Nat.div_eq_of_lt hq, Nat.add_zero] using hdiv
  rw [hquotient] at h
  exact ⟨hquotient, Nat.add_left_cancel h⟩

theorem run_back_padded (h : Regroups step win wout modes rest scale) (hback : Regroups back wout win backModes backRest backScale)
    (hwin : 0 < win) (hscale : ∀ mode < modes, mode ≠ 0 → rest mode + scale mode = wout)
    (hpadding : ∀ mode < modes, padding wout rest mode < win) (hbackRest : ∀ mode < backModes, backRest mode < win)
    (ds : List ℕ) (hds : ∀ d ∈ ds, d < 2 ^ win) :
    (Regroup.run back 0 0 (padded step ds)).1 = ds ∧ (Regroup.run back 0 0 (padded step ds)).2.1 < backModes ∧
      backRest (Regroup.run back 0 0 (padded step ds)).2.1 = padding wout rest (Regroup.run step 0 0 ds).2.1 ∧
      ((Regroup.run back 0 0 (padded step ds)).2.1 ≠ 0 → (Regroup.run back 0 0 (padded step ds)).2.2 = 0) := by
  obtain ⟨-, hmode, -⟩ := h.run_start ds hds 0
  obtain ⟨hdigits, hvalue, hlength⟩ := padded_spec h hscale ds hds
  obtain ⟨a', hbackMode, hmoves, hleft⟩ := hback.run_start (padded step ds) hdigits 0
  have hbackValue := hmoves.value
  have hcount := hmoves.count
  have hrest := hmoves.rest
  rw [Nat.zero_mul, Nat.zero_add, hvalue] at hbackValue
  rw [Nat.zero_add, hlength] at hcount
  obtain ⟨hsame, hpad⟩ := quotient_unique hcount (hpadding _ hmode) (hbackRest _ hbackMode)
  rw [hpad] at hbackValue
  have hzero : a' = 0 := by
    have hmod := congrArg (· % 2 ^ backRest (Regroup.run back 0 0 (padded step ds)).2.1) hbackValue
    simp only [Nat.mul_mod_left, Nat.mul_add_mod_self_right, Nat.mod_eq_of_lt hrest] at hmod
    exact hmod.symm
  rw [hzero, Nat.add_zero] at hbackValue
  refine ⟨?_, hbackMode, hpad.symm, fun hne => by rw [hleft hne, hzero, Nat.zero_mul]⟩
  exact (value_injective hwin hds hmoves.digits hsame (Nat.eq_of_mul_eq_mul_right (Nat.two_pow_pos _) hbackValue)).symm

theorem padded_run_back (h : Regroups step win wout modes rest scale) (hback : Regroups back wout win backModes backRest backScale)
    (hwout : 0 < wout) (hscale : ∀ mode < modes, mode ≠ 0 → rest mode + scale mode = wout)
    (hpadding : ∀ mode < modes, padding wout rest mode < wout) (cs : List ℕ) (hcs : ∀ c ∈ cs, c < 2 ^ wout)
    (hfew : backRest (Regroup.run back 0 0 cs).2.1 < wout)
    (hzero : (Regroup.run back 0 0 cs).2.1 ≠ 0 → (Regroup.run back 0 0 cs).2.2 = 0) :
    padded step (Regroup.run back 0 0 cs).1 = cs ∧
      padding wout rest (Regroup.run step 0 0 (Regroup.run back 0 0 cs).1).2.1 = backRest (Regroup.run back 0 0 cs).2.1 := by
  obtain ⟨a', hbackMode, hmoves, hleft⟩ := hback.run_start cs hcs 0
  generalize hout : Regroup.run back 0 0 cs = out at hfew hzero hbackMode hmoves hleft ⊢
  obtain ⟨-, hmode, -⟩ := h.run_start out.1 hmoves.digits 0
  obtain ⟨hdigits, hvalue, hlength⟩ := padded_spec h hscale out.1 hmoves.digits
  have hbackValue := hmoves.value
  have hcount := hmoves.count
  have hrest := hmoves.rest
  rw [Nat.zero_mul, Nat.zero_add] at hbackValue
  rw [Nat.zero_add] at hcount
  have hpad : (padded step out.1).length = cs.length ∧
      padding wout rest (Regroup.run step 0 0 out.1).2.1 = backRest out.2.1 := by
    obtain ⟨hsame, hpad⟩ := quotient_unique (x := cs.length) (y := (padded step out.1).length)
      (p := padding wout rest (Regroup.run step 0 0 out.1).2.1) (q := backRest out.2.1) (by omega) (hpadding _ hmode) hfew
    exact ⟨hsame.symm, hpad⟩
  have ha' : a' = 0 := by
    by_cases hmode0 : out.2.1 = 0
    · rw [hmode0, hback.none, Nat.pow_zero] at hrest
      omega
    · have heq := hleft hmode0
      rw [hzero hmode0] at heq
      exact (Nat.mul_eq_zero.mp heq.symm).resolve_right (Nat.two_pow_pos _).ne'
  rw [ha', Nat.add_zero, ← hpad.2, ← hvalue] at hbackValue
  exact ⟨value_injective hwout hdigits hcs hpad.1 hbackValue.symm, hpad.2⟩

end Runs

end Regroup
