import PupaCoin.Net.MixingPool

/-!
# When a mixing client keeps its money

The check of the outputs compares a count of matching pairs and one sum. Where it passes for some outputs, it also
passes for outputs that lack an expected one: the value of that one is split over two outputs.
-/

namespace PupaCoin

variable {a b nValue1 nValue : Int} {m found : Nat} {r : Nat × Int} {expected vout : List CTxOut} {st st' : SignState}
  {prevout : COutPoint}

open CMNengineEntry CMNenginePool

variable {env : MixingEnv} {e : CMNengineEntry} {pool : CMNenginePool}

/-- An `int64_t`. -/
def InI64 (x : Int) : Prop := -2 ^ 63 ≤ x ∧ x < 2 ^ 63

theorem addI64_of_inI64 (h : InI64 (a + b)) : addI64 a b = .ok (a + b) := if_pos h

theorem inI64_of_addI64 {c : Int} (h : addI64 a b = .ok c) : c = a + b ∧ InI64 (a + b) := by
  refine ⟨addI64_eq_ok h, ?_⟩
  unfold addI64 at h
  split at h
  · rename_i hin
    exact hin
  · cases h

/-- How often the value of an output is added. -/
def copies (env : MixingEnv) (expected : List CTxOut) (out : CTxOut) : Nat :=
  expected.countP fun o => env.toString out.scriptPubKey = env.toString o.scriptPubKey

theorem inI64_first (hstart : InI64 nValue1) (hend : InI64 (nValue1 + (m + 1 : Nat) * nValue))
    : InI64 (nValue1 + nValue) := by
  unfold InI64 at *
  push_cast at hend
  rcases le_total 0 nValue with hpos | hneg
  · have hmul : 0 ≤ (m : Int) * nValue := mul_nonneg (Int.natCast_nonneg m) hpos
    constructor <;> nlinarith
  · have hmul : (m : Int) * nValue ≤ 0 := mul_nonpos_of_nonneg_of_nonpos (Int.natCast_nonneg m) hneg
    constructor <;> nlinarith

def addTimes (nValue : Int) : Nat → Nat × Int → Except Stop (Nat × Int)
  | 0, found => .ok found
  | m + 1, found => do
    let nValue1 ← addI64 found.2 nValue
    addTimes nValue m (found.1 + 1, nValue1)

theorem matchOutput_eq_addTimes (expected : List CTxOut) (out : CTxOut) (found : Nat × Int) :
    matchOutput env expected found out = addTimes out.nValue (copies env expected out) found := by
  unfold matchOutput copies
  induction expected generalizing found with
  | nil => rfl
  | cons o expected ih =>
    rw [List.foldlM_cons]
    by_cases hmatch : env.toString out.scriptPubKey = env.toString o.scriptPubKey
    · rw [List.countP_cons_of_pos (by simpa using hmatch), if_pos hmatch, addTimes]
      cases hsum : addI64 found.2 out.nValue with
      | error stop => rfl
      | ok sum => exact ih _
    · rw [List.countP_cons_of_neg (by simpa using hmatch), if_neg hmatch]
      exact ih found

theorem addTimes_eq_ok (hstart : InI64 nValue1) : addTimes nValue m (found, nValue1) = .ok r ↔
      r = (found + m, nValue1 + m * nValue) ∧ InI64 (nValue1 + m * nValue) := by
  induction m generalizing found nValue1 with
  | zero =>
    rw [addTimes, Nat.cast_zero, zero_mul, add_zero, add_zero, Except.ok.injEq]
    exact ⟨fun h => ⟨h.symm, hstart⟩, fun h => h.1.symm⟩
  | succ m ih =>
    have hcast : nValue1 + nValue + (m : Int) * nValue = nValue1 + ((m + 1 : Nat) : Int) * nValue := by
      push_cast
      ring
    have hcount : found + 1 + m = found + (m + 1) := by omega
    rw [addTimes, Guards.bind_eq_ok]
    constructor
    · rintro ⟨sum, hsum, hrest⟩
      obtain ⟨rfl, hin⟩ := inI64_of_addI64 hsum
      rw [ih hin, hcount, hcast] at hrest
      exact hrest
    · intro h
      have hin := inI64_first hstart h.2
      refine ⟨_, addI64_of_inI64 hin, ?_⟩
      rw [ih hin, hcount, hcast]
      exact h

theorem matchOutput_eq_ok {out : CTxOut} (hstart : InI64 nValue1) : matchOutput env expected (found, nValue1) out = .ok r ↔
      r = (found + copies env expected out, nValue1 + copies env expected out * out.nValue) ∧
        InI64 (nValue1 + copies env expected out * out.nValue) := by
  rw [matchOutput_eq_addTimes, addTimes_eq_ok hstart]

theorem exists_split (hm : m < 2 ^ 31) (hstart : InI64 nValue1) (hend : InI64 (nValue1 + m * nValue))
    (hvalue : InI64 nValue) :
    ∃ a b, a + b = nValue ∧ a ≠ nValue ∧ b ≠ nValue ∧ InI64 a ∧ InI64 b ∧ InI64 (nValue1 + m * a) := by
  have hm0 : (0 : Int) ≤ m := Int.natCast_nonneg m
  have hm1 : (m : Int) < 2 ^ 31 := by exact_mod_cast hm
  unfold InI64 at *
  rcases le_or_gt 2 nValue with hbig | hbig
  · have hle : (m : Int) * 1 ≤ m * nValue := mul_le_mul_of_nonneg_left (by omega) hm0
    exact ⟨1, nValue - 1, by omega, by omega, by omega, by omega, by omega, by omega⟩
  · rcases le_or_gt nValue (-2) with hsmall | hsmall
    · have hle : (m : Int) * nValue ≤ m * -1 := mul_le_mul_of_nonneg_left (by omega) hm0
      exact ⟨-1, nValue + 1, by omega, by omega, by omega, by omega, by omega, by omega⟩
    · have hvalues : nValue = -1 ∨ nValue = 0 ∨ nValue = 1 := by omega
      rcases le_or_gt 0 nValue1 with hpos | hneg
      · rcases hvalues with rfl | rfl | rfl
        · exact ⟨-2, 1, by omega, by omega, by omega, by omega, by omega, by omega⟩
        · exact ⟨-1, 1, by omega, by omega, by omega, by omega, by omega, by omega⟩
        · exact ⟨-1, 2, by omega, by omega, by omega, by omega, by omega, by omega⟩
      · rcases hvalues with rfl | rfl | rfl
        · exact ⟨1, -2, by omega, by omega, by omega, by omega, by omega, by omega⟩
        · exact ⟨1, -1, by omega, by omega, by omega, by omega, by omega, by omega⟩
        · exact ⟨2, -1, by omega, by omega, by omega, by omega, by omega, by omega⟩

/-- **Outputs without an expected one.** Outputs that are counted through have others without a given output, of which
    no fewer are counted, with the same sum. By induction on the outputs, splitting the value where the given one
    occurs. -/
theorem exists_without (hsize : expected.length < 2 ^ 31) (target : CTxOut) (hvalid : ValidOutputs vout) {found' total : Nat} {sum : Int}
    (hstart : InI64 nValue1) (hmore : found ≤ found')
    (hrun : vout.foldlM (matchOutput env expected) (found, nValue1) = .ok (total, sum)) :
    ∃ vout' total', ValidOutputs vout' ∧ target ∉ vout' ∧ total ≤ total' ∧
      vout'.foldlM (matchOutput env expected) (found', nValue1) = .ok (total', sum) := by
  induction vout generalizing found found' nValue1 with
  | nil =>
    obtain ⟨rfl, rfl⟩ := Prod.mk.inj (Guards.foldlM_nil_eq_ok.mp hrun)
    exact ⟨[], found', nofun, List.not_mem_nil, hmore, rfl⟩
  | cons out vout ih =>
    obtain ⟨s, hout, hrest⟩ := Guards.foldlM_cons_eq_ok.mp hrun
    obtain ⟨rfl, hend⟩ := (matchOutput_eq_ok hstart).mp hout
    obtain ⟨hvalue, hvalid'⟩ := List.forall_mem_cons.mp hvalid
    set m := copies env expected out with hm
    by_cases htarget : out = target
    · have hmsize : m < 2 ^ 31 := lt_of_le_of_lt List.countP_le_length hsize
      obtain ⟨a, b, hab, ha, hb, hain, hbin, hmid⟩ := exists_split hmsize hstart hend hvalue
      have hsum : nValue1 + m * a + m * b = nValue1 + m * out.nValue := by
        rw [← hab]
        ring
      have hend' : InI64 (nValue1 + m * a + m * b) := by rwa [hsum]
      have hmore' : found + m ≤ found' + m + m := by omega
      obtain ⟨vout', total', hvout', hnot, hle, hrun'⟩ := ih hvalid' hend hmore' hrest
      refine ⟨{ out with nValue := a } :: { out with nValue := b } :: vout', total', ?_, ?_, hle, ?_⟩
      · exact List.forall_mem_cons.mpr ⟨hain, List.forall_mem_cons.mpr ⟨hbin, hvout'⟩⟩
      · subst htarget
        simp only [List.mem_cons, not_or]
        exact ⟨fun h => ha (congrArg CTxOut.nValue h).symm, fun h => hb (congrArg CTxOut.nValue h).symm, hnot⟩
      · refine Guards.foldlM_cons_eq_ok.mpr ⟨_, (matchOutput_eq_ok hstart).mpr ⟨rfl, hmid⟩, ?_⟩
        refine Guards.foldlM_cons_eq_ok.mpr ⟨_, (matchOutput_eq_ok hmid).mpr ⟨rfl, hend'⟩, ?_⟩
        change vout'.foldlM _ (found' + m + m, nValue1 + m * a + m * b) = _
        rw [hsum]
        exact hrun'
    · have hmore' : found + m ≤ found' + m := by omega
      obtain ⟨vout', total', hvout', hnot, hle, hrun'⟩ := ih hvalid' hend hmore' hrest
      refine ⟨out :: vout', total', List.forall_mem_cons.mpr ⟨hvalue, hvout'⟩, ?_, hle, ?_⟩
      · exact List.not_mem_cons_of_ne_of_not_mem (fun h => htarget h.symm) hnot
      · exact Guards.foldlM_cons_eq_ok.mpr ⟨_, (matchOutput_eq_ok hstart).mpr ⟨rfl, hend⟩, hrun'⟩

theorem outputsCorrect_eq_true : e.outputsCorrect env vout = .ok true ↔
    ∃ total sum, vout.foldlM (matchOutput env e.vout) (0, 0) = .ok (total, sum) ∧ e.vout.length ≤ total ∧
      e.vout.foldlM (fun nValue2 o => addI64 nValue2 o.nValue) 0 = .ok sum := by
  simp only [outputsCorrect, Guards.bind_eq_ok]
  constructor
  · rintro ⟨⟨total, sum⟩, hcount, nValue2, hsum, hresult⟩
    have hpasses := Except.ok.inj hresult
    simp only [Bool.not_eq_true', Bool.or_eq_false_iff, decide_eq_false_iff_not, not_lt, not_not] at hpasses
    obtain ⟨hle, rfl⟩ := hpasses
    exact ⟨total, sum, hcount, hle, hsum⟩
  · rintro ⟨total, sum, hcount, hle, hsum⟩
    refine ⟨(total, sum), hcount, sum, hsum, ?_⟩
    have hnot : ¬ total < e.vout.length := not_lt.mpr hle
    simp only [hnot, decide_false, ne_eq, not_true_eq_false, Bool.or_self, Bool.not_false]
    rfl

theorem exists_correct_without (hsize : e.vout.length < 2 ^ 31) (hvalid : ValidOutputs vout)
    (hcorrect : e.outputsCorrect env vout = .ok true) (target : CTxOut) :
    ∃ vout', ValidOutputs vout' ∧ target ∉ vout' ∧ e.outputsCorrect env vout' = .ok true := by
  obtain ⟨total, sum, hcount, hle, hsum⟩ := outputsCorrect_eq_true.mp hcorrect
  have hzero : InI64 0 := by constructor <;> decide
  obtain ⟨vout', total', hvout', hnot, hmore, hcount'⟩ :=
    exists_without hsize target hvalid hzero le_rfl hcount
  exact ⟨vout', hvout', hnot, outputsCorrect_eq_true.mpr ⟨total', sum, hcount', hle.trans hmore, hsum⟩⟩

theorem signInput_cases {s : CTxDSIn} (h : signInput env e st s = .ok st') :
    st' = st ∨ e.outputsCorrect env st.1.vout = .ok true ∧ st'.1.vout = st.1.vout ∧
      ∃ signed, st'.2 = st.2 ++ [(e, signed)] := by
  unfold signInput at h
  split at h
  · exact Or.inl (Except.ok.inj h).symm
  · right
    simp only [Guards.bind_eq_ok, rejectIf_eq_ok, orUndefined_eq_ok, Bool.not_eq_false'] at h
    obtain ⟨correct, hcorrect, -, rfl, txin, -, hst'⟩ := h
    obtain rfl := Except.ok.inj hst'
    exact ⟨hcorrect, rfl, _, rfl⟩

/-- Every signature so far is for an entry with an input whose check passes. -/
def SignedCorrectly (env : MixingEnv) (entries : List CMNengineEntry) (vout : List CTxOut) (st : SignState) : Prop :=
  st.1.vout = vout ∧ ∀ sig ∈ st.2, sig.1 ∈ entries ∧ sig.1.sev ≠ [] ∧ sig.1.outputsCorrect env vout = .ok true

theorem signEntry_correct {entries : List CMNengineEntry} (hst : SignedCorrectly env entries vout st)
    (he : e ∈ entries) (h : signEntry env st e = .ok st') : SignedCorrectly env entries vout st' := by
  by_cases hsev : e.sev = []
  · rw [signEntry, hsev, Guards.foldlM_nil_eq_ok] at h
    exact h ▸ hst
  · refine Guards.foldlM_invariant (fun _ st => SignedCorrectly env entries vout st) ?_ e.sev [] st st' hst h
    intro _ st s st' hst hround
    rcases signInput_cases hround with rfl | ⟨hcorrect, hvout, signed, hsigs⟩
    · exact hst
    · refine ⟨hvout.trans hst.1, ?_⟩
      intro sig hsig
      rw [hsigs] at hsig
      rcases List.mem_append.mp hsig with hold | hnew
      · exact hst.2 sig hold
      · rw [List.mem_singleton.mp hnew]
        rw [hst.1] at hcorrect
        exact ⟨he, hsev, hcorrect⟩

theorem dss_correct {fMasterNode node : Bool} {finalTransactionNew : CTransaction} {outcome : SignOutcome}
    {sigs : List (CMNengineEntry × CTxIn)}
    (h : pool.signFinalTransaction env fMasterNode node finalTransactionNew = .ok outcome)
    (hdss : outcome.dss = some sigs) : ∀ sig ∈ sigs,
      sig.1 ∈ pool.entries ∧ sig.1.sev ≠ [] ∧ sig.1.outputsCorrect env finalTransactionNew.vout = .ok true := by
  unfold signFinalTransaction at h
  split at h
  · obtain rfl := Except.ok.inj h
    cases hdss
  · split at h
    · rename_i finalTransaction sent hloop
      obtain rfl := Except.ok.inj h
      have hall : SignedCorrectly env pool.entries finalTransactionNew.vout (finalTransaction, sent) := by
        refine Guards.foldlM_invariant (fun done st => SignedCorrectly env done finalTransactionNew.vout st) ?_
          pool.entries [] (finalTransactionNew, []) _ ⟨rfl, nofun⟩ hloop
        intro done st e st' hst hentry
        refine signEntry_correct ⟨hst.1, ?_⟩ (List.mem_append_right _ (List.mem_singleton.mpr rfl)) hentry
        intro sig hsig
        obtain ⟨hmem, hrest⟩ := hst.2 sig hsig
        exact ⟨List.mem_append_left _ hmem, hrest⟩
      dsimp only at hdss
      split at hdss
      · obtain rfl := Option.some.inj hdss
        exact hall.2
      · cases hdss
    · obtain rfl := Except.ok.inj h
      cases hdss
    · cases h

/-- The transaction has one input, which spends a given output, and some outputs. -/
def OneInput (prevout : COutPoint) (vout : List CTxOut) (tx : CTransaction) : Prop :=
  (∃ txin : CTxIn, tx.vin = [txin] ∧ txin.prevout = prevout) ∧ tx.vout = vout

theorem findMine_singleton (s : CTxDSIn) (txin : CTxIn) :
    findMine s [txin] = if txin = s.toCTxIn then some 0 else none := rfl

theorem signInput_one (s : CTxDSIn) (hcorrect : e.outputsCorrect env vout = .ok true)
    (hone : OneInput prevout vout st.1) :
    ∃ st', signInput env e st s = .ok st' ∧ OneInput prevout vout st'.1 ∧ (∀ sig ∈ st.2, sig ∈ st'.2) ∧
      (st.1.vin = [s.toCTxIn] → ∃ signed, (e, signed) ∈ st'.2) := by
  obtain ⟨⟨txin, hvin, hprevout⟩, hvout⟩ := hone
  unfold signInput
  rw [hvin, findMine_singleton]
  by_cases hmine : txin = s.toCTxIn
  · rw [if_pos hmine]
    simp only [hvout, hcorrect]
    refine ⟨_, rfl, ⟨⟨_, rfl, hprevout⟩, rfl⟩, ?_, ?_⟩
    · intro sig hsig
      exact List.mem_append_left _ hsig
    · intro _
      exact ⟨_, List.mem_append_right _ (List.mem_singleton.mpr rfl)⟩
  · rw [if_neg hmine]
    refine ⟨st, rfl, ⟨⟨txin, hvin, hprevout⟩, hvout⟩, fun _ h => h, ?_⟩
    intro heq
    exact absurd (List.singleton_inj.mp heq) hmine

theorem signInputs_one (sev : List CTxDSIn) (hcorrect : e.outputsCorrect env vout = .ok true)
    (hone : OneInput prevout vout st.1) :
    ∃ st', sev.foldlM (signInput env e) st = .ok st' ∧ OneInput prevout vout st'.1 ∧ ∀ sig ∈ st.2, sig ∈ st'.2 := by
  induction sev generalizing st with
  | nil => exact ⟨st, rfl, hone, fun _ h => h⟩
  | cons s sev ih =>
    obtain ⟨st₁, hround, hone₁, hmore₁, -⟩ := signInput_one s hcorrect hone
    obtain ⟨st', hrest, hone', hmore'⟩ := ih hone₁
    exact ⟨st', Guards.foldlM_cons_eq_ok.mpr ⟨st₁, hround, hrest⟩, hone', fun sig h => hmore' sig (hmore₁ sig h)⟩

theorem signEntry_apart (hone : OneInput prevout vout st.1) (hapart : ∀ s ∈ e.sev, s.prevout ≠ prevout) :
    signEntry env st e = .ok st := by
  obtain ⟨⟨txin, hvin, hprevout⟩, -⟩ := hone
  unfold signEntry
  generalize e.sev = sev at hapart
  induction sev with
  | nil => rfl
  | cons s sev ih =>
    obtain ⟨hs, hsev⟩ := List.forall_mem_cons.mp hapart
    refine Guards.foldlM_cons_eq_ok.mpr ⟨st, ?_, ih hsev⟩
    unfold signInput
    rw [hvin, findMine_singleton, if_neg]
    rintro rfl
    exact hs hprevout

theorem signEntries_apart (entries : List CMNengineEntry) (hone : OneInput prevout vout st.1)
    (hapart : ∀ e ∈ entries, ∀ s ∈ e.sev, s.prevout ≠ prevout) : entries.foldlM (signEntry env) st = .ok st := by
  induction entries with
  | nil => rfl
  | cons e entries ih =>
    obtain ⟨he, hentries⟩ := List.forall_mem_cons.mp hapart
    exact Guards.foldlM_cons_eq_ok.mpr ⟨st, signEntry_apart hone he, ih hentries⟩

theorem exists_signed (hapart : SpendApart pool.entries) (he : e ∈ pool.entries) (hsev : e.sev ≠ [])
    (hcorrect : e.outputsCorrect env vout = .ok true) :
    ∃ finalTransactionNew outcome sigs signed, finalTransactionNew.vout = vout ∧
      pool.signFinalTransaction env false true finalTransactionNew = .ok outcome ∧ outcome.dss = some sigs ∧
      (e, signed) ∈ sigs := by
  obtain ⟨s, sev, hs⟩ := List.exists_cons_of_ne_nil hsev
  obtain ⟨pre, post, hsplit⟩ := List.append_of_mem he
  have hs_mem : s ∈ e.sev := by
    rw [hs]
    exact List.mem_cons_self
  rw [SpendApart, hsplit, List.pairwise_append, List.pairwise_cons] at hapart
  obtain ⟨-, ⟨hpost, -⟩, hpre⟩ := hapart
  set tx : CTransaction := ⟨1, 0, [s.toCTxIn], vout, 0⟩ with htx
  have hone : OneInput s.prevout vout ((tx, []) : SignState).1 := ⟨⟨s.toCTxIn, rfl, rfl⟩, rfl⟩
  have hfirst : pre.foldlM (signEntry env) (tx, []) = .ok (tx, []) :=
    signEntries_apart pre hone fun e' he' s' hs' => hpre e' he' e List.mem_cons_self s' hs' s hs_mem
  obtain ⟨st₁, hround, hone₁, -, hsigned⟩ := signInput_one s hcorrect hone
  obtain ⟨st₂, hrounds, hone₂, hmore⟩ := signInputs_one sev hcorrect hone₁
  obtain ⟨signed, hmem⟩ := hsigned rfl
  have hentry : signEntry env (tx, []) e = .ok st₂ := by
    rw [signEntry, hs]
    exact Guards.foldlM_cons_eq_ok.mpr ⟨st₁, hround, hrounds⟩
  have hlast : post.foldlM (signEntry env) st₂ = .ok st₂ :=
    signEntries_apart post hone₂ fun e' he' s' hs' heq => hpost e' he' s hs_mem s' hs' heq.symm
  have hloop : pool.entries.foldlM (signEntry env) (tx, []) = .ok st₂ := by
    rw [hsplit, List.foldlM_append, hfirst]
    exact Guards.foldlM_cons_eq_ok.mpr ⟨st₂, hentry, hlast⟩
  have hmem₂ := hmore _ hmem
  have hnonempty : st₂.2.isEmpty = false := by
    rw [List.isEmpty_eq_false_iff]
    exact List.ne_nil_of_mem hmem₂
  refine ⟨tx, { result := true, pool := { pool with finalTransaction := st₂.1 }, dss := some st₂.2 }, st₂.2, signed,
    rfl, ?_, rfl, hmem₂⟩
  unfold signFinalTransaction
  rw [hloop]
  simp [hnonempty]

/-- **Mixing and money.** The client keeps its money if nothing passes the check of an entry that gives and expects
    something; and only if, for entries that spend different outputs and whose number of outputs is an `int`. -/
theorem keepsMoney_iff (env : MixingEnv) (pool : CMNenginePool) : (NothingPasses env pool → KeepsMoney env pool) ∧
      (SpendApart pool.entries → (∀ e ∈ pool.entries, e.vout.length < 2 ^ 31) →
        (KeepsMoney env pool → NothingPasses env pool)) := by
  constructor
  · intro hnothing fMasterNode node finalTransactionNew outcome sigs hvalid hsign hdss sig hsig
    obtain ⟨he, hsev, hcorrect⟩ := dss_correct hsign hdss sig hsig
    by_cases hvout : sig.1.vout = []
    · rw [hvout]
      exact List.nil_subperm
    · exact absurd hcorrect (hnothing sig.1 he hsev hvout _ hvalid)
  · intro hapart hsize hkeeps e he hsev hexpects vout hvalid hcorrect
    obtain ⟨target, expected, hvout⟩ := List.exists_cons_of_ne_nil hexpects
    obtain ⟨vout', hvalid', hnot, hcorrect'⟩ := exists_correct_without (hsize e he) hvalid hcorrect target
    obtain ⟨tx, outcome, sigs, signed, rfl, hsign, hdss, hmem⟩ := exists_signed hapart he hsev hcorrect'
    have hsub := hkeeps false true tx outcome sigs hvalid' hsign hdss _ hmem
    refine hnot (hsub.subset ?_)
    change target ∈ e.vout
    rw [hvout]
    exact List.mem_cons_self

namespace Swapped

/-- The text of a script is its first byte. -/
def mixingEnv : MixingEnv where
  toString script := if script = [0x51] then "1" else "2"
  signSignature _ _ _ := [0x01]

/-- The client gives one input and expects one coin and two coins at different scripts. -/
def entry : CMNengineEntry where
  sev := [⟨⟨⟨7, 0⟩, [], 0xffffffff⟩, []⟩]
  vout := [⟨1, [0x51]⟩, ⟨2, [0x52]⟩]

/-- The masternode proposes two coins and one. -/
def proposal : CTransaction where
  nVersion := 1
  nTime := 0
  vin := [⟨⟨7, 0⟩, [], 0xffffffff⟩]
  vout := [⟨2, [0x51]⟩, ⟨1, [0x52]⟩]
  nLockTime := 0

end Swapped

open Swapped in
/-- The client signs for outputs with swapped values. -/
theorem swapped_signed : ¬ KeepsMoney mixingEnv ⟨[entry], proposal⟩ := by
  intro hkeeps
  have hvalid : ValidOutputs proposal.vout := by
    intro out hout
    simp only [proposal, List.mem_cons, List.not_mem_nil, or_false] at hout
    rcases hout with rfl | rfl <;> decide
  have hsign : (CMNenginePool.mk [entry] proposal).signFinalTransaction mixingEnv false true proposal =
      .ok ⟨true, ⟨[entry], { proposal with vin := [⟨⟨7, 0⟩, [0x01], 0xffffffff⟩] }⟩,
        some [(entry, ⟨⟨7, 0⟩, [0x01], 0xffffffff⟩)]⟩ := by
    decide
  have hsub := hkeeps false true proposal _ _ hvalid hsign rfl _ (List.mem_singleton.mpr rfl)
  have hmem : (⟨1, [0x51]⟩ : CTxOut) ∈ proposal.vout := hsub.subset (by decide)
  exact absurd hmem (by decide)

end PupaCoin
