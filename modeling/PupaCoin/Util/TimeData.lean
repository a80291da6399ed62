import Mathlib.Data.List.Sort
import Mathlib.Tactic

/-!
# The time of the network (`AddTimeData`, `CMedianFilter`)

Every peer adds one sample of how far its clock is ahead. The last 200 samples are kept, the first of all being 0, and
whenever their number is odd their median becomes the offset, unless it is 70 minutes or more.
-/

namespace PupaCoin

/-- `CMedianFilter<int64_t>`. -/
structure CMedianFilter where
  vValues : List Int
  vSorted : List Int
  nSize : Nat

namespace CMedianFilter

def new (size : Nat) (initialValue : Int) : CMedianFilter := ⟨[initialValue], [initialValue], size⟩

def input (f : CMedianFilter) (value : Int) : CMedianFilter :=
  let vValues := (if f.vValues.length = f.nSize then f.vValues.drop 1 else f.vValues) ++ [value]
  ⟨vValues, vValues.insertionSort (· ≤ ·), f.nSize⟩

def median (f : CMedianFilter) : Int :=
  let size := f.vSorted.length
  if size % 2 = 1 then f.vSorted.getD (size / 2) 0
  else ((f.vSorted.getD (size / 2 - 1) 0 + f.vSorted.getD (size / 2) 0).bmod (2 ^ 64)).tdiv 2

end CMedianFilter

/-- `abs64`; the lowest number is its own negative. -/
def abs64 (n : Int) : Int := if n ≥ 0 then n else (-n).bmod (2 ^ 64)

def timeWarning : String :=
  "Warning: Please check that your computer's date and time are correct! If your clock is wrong PupaCoin will not " ++
    "work properly."

/-- What `AddTimeData` keeps; the addresses are of type `A`. -/
structure TimeData (A : Type) where
  setKnown : List A := []
  vTimeOffsets : CMedianFilter := .new 200 0
  nTimeOffset : Int := 0
  fDone : Bool := false
  strMiscWarning : String := ""

/-- A call of `AddTimeData`, with what `GetTime` returns in it. -/
structure TimeCall (A : Type) where
  ip : A
  nTime : Int
  getTime : Int

def TimeCall.nOffsetSample {A : Type} (call : TimeCall A) : Int := (call.nTime - call.getTime).bmod (2 ^ 64)

namespace TimeData

variable {A : Type} [DecidableEq A]

def addTimeData (s : TimeData A) (call : TimeCall A) : TimeData A :=
  if call.ip ∈ s.setKnown then s
  else
    let s := { s with
      setKnown := call.ip :: s.setKnown
      vTimeOffsets := s.vTimeOffsets.input call.nOffsetSample }
    if s.vTimeOffsets.vValues.length ≥ 5 ∧ s.vTimeOffsets.vValues.length % 2 = 1 then
      let nMedian := s.vTimeOffsets.median
      if abs64 nMedian < 70 * 60 then { s with nTimeOffset := nMedian }
      else
        let s := { s with nTimeOffset := 0 }
        let fMatch := s.vTimeOffsets.vSorted.any fun nOffset => decide (nOffset ≠ 0 ∧ abs64 nOffset < 5 * 60)
        if s.fDone || fMatch then s else { s with fDone := true, strMiscWarning := timeWarning }
    else s

def run (calls : List (TimeCall A)) : TimeData A := calls.foldl addTimeData {}

end TimeData

/-- Less than half of an odd number of samples are below the median, and less than half are above. -/
structure IsMedian (m : Int) (samples : List Int) : Prop where
  mem : m ∈ samples
  below : 2 * samples.countP (· < m) < samples.length
  above : 2 * samples.countP (m < ·) < samples.length

section Median

variable {m m' : Int} {samples sorted : List Int}

theorem IsMedian.perm (h : IsMedian m sorted) (hp : sorted.Perm samples) : IsMedian m samples where
  mem := hp.subset h.mem
  below := by
    rw [← hp.countP_eq, ← hp.length_eq]
    exact h.below
  above := by
    rw [← hp.countP_eq, ← hp.length_eq]
    exact h.above

theorem IsMedian.le (h : IsMedian m samples) (h' : IsMedian m' samples) : m' ≤ m := by
  by_contra hlt
  have hsplit := List.length_eq_countP_add_countP (m < ·) (l := samples)
  have hmono : samples.countP (fun x => ¬decide (m < x)) ≤ samples.countP (· < m') := by
    refine List.countP_mono_left fun x _ hx => ?_
    rw [decide_eq_true_iff] at hx ⊢
    have hle : ¬m < x := by simpa using hx
    omega
  have habove := h.above
  have hbelow := h'.below
  omega

theorem IsMedian.unique (h : IsMedian m samples) (h' : IsMedian m' samples) : m = m' :=
  le_antisymm (h'.le h) (h.le h')

theorem isMedian_sorted (hsorted : sorted.Pairwise (· ≤ ·)) {k : Nat} (hk : sorted.length = 2 * k + 1) :
    IsMedian (sorted.getD k 0) sorted := by
  have hlt : k < sorted.length := by omega
  have hsplit : ∀ (p : Int → Bool) n, sorted.countP p = (sorted.take n).countP p + (sorted.drop n).countP p := by
    intro p n
    rw [← List.countP_append, List.take_append_drop]
  have hle : ∀ i j (hi : i < sorted.length) (hj : j < sorted.length), i ≤ j → sorted[i] ≤ sorted[j] := by
    intro i j hi hj hij
    rcases Nat.lt_or_eq_of_le hij with hij | rfl
    · exact List.pairwise_iff_getElem.mp hsorted i j hi hj hij
    · exact le_rfl
  rw [List.getD_eq_getElem?_getD, List.getElem?_eq_getElem hlt, Option.getD_some]
  refine ⟨List.getElem_mem hlt, ?_, ?_⟩
  · have hback : (sorted.drop k).countP (· < sorted[k]) = 0 := by
      refine List.countP_eq_zero.mpr fun x hx => ?_
      obtain ⟨i, hi, rfl⟩ := List.mem_drop_iff_getElem.mp hx
      rw [decide_eq_true_iff]
      exact not_lt.mpr (hle _ _ _ _ (Nat.le_add_right k i))
    have hfront := List.countP_le_length (p := (· < sorted[k])) (l := sorted.take k)
    rw [List.length_take] at hfront
    rw [hsplit _ k, hback]
    omega
  · have hfront : (sorted.take (k + 1)).countP (sorted[k] < ·) = 0 := by
      refine List.countP_eq_zero.mpr fun x hx => ?_
      obtain ⟨i, hi, rfl⟩ := List.mem_take_iff_getElem.mp hx
      rw [decide_eq_true_iff]
      exact not_lt.mpr (hle _ _ _ _ (by omega))
    have hback := List.countP_le_length (p := (sorted[k] < ·)) (l := sorted.drop (k + 1))
    rw [List.length_drop] at hback
    rw [hsplit _ (k + 1), hfront]
    omega

end Median

/-- The difference of the two clocks is a number of 64 bits, and not the lowest one. -/
def TimeCall.InRange {A : Type} (call : TimeCall A) : Prop :=
  -2 ^ 63 < call.nTime - call.getTime ∧ call.nTime - call.getTime < 2 ^ 63

namespace TimeData

section Runs

variable {A : Type} {call : TimeCall A} {calls : List (TimeCall A)}

/-- All samples of a run, the initial one first. -/
def samples (calls : List (TimeCall A)) : List Int := 0 :: calls.map TimeCall.nOffsetSample

/-- The most recent samples, at most 200. -/
def window (calls : List (TimeCall A)) : List Int := (samples calls).drop (calls.length + 1 - 200)

theorem length_window (calls : List (TimeCall A)) : (window calls).length = min 200 (calls.length + 1) := by
  rw [window, samples, List.length_drop, List.length_cons, List.length_map]
  omega

theorem samples_concat (calls : List (TimeCall A)) (call : TimeCall A) :
    samples (calls ++ [call]) = samples calls ++ [call.nOffsetSample] := by
  rw [samples, List.map_append]
  rfl

theorem nOffsetSample_eq (h : call.InRange) : call.nOffsetSample = call.nTime - call.getTime := by
  obtain ⟨hlow, hhigh⟩ := h
  rw [TimeCall.nOffsetSample, Int.bmod_eq_of_le (by omega) (by omega)]

theorem window_concat (calls : List (TimeCall A)) (call : TimeCall A) : window (calls ++ [call]) =
      (if (window calls).length = 200 then (window calls).drop 1 else window calls) ++ [call.nOffsetSample] := by
  have hlength : (samples calls).length = calls.length + 1 := by rw [samples, List.length_cons, List.length_map]
  rw [length_window, window, window, samples_concat, List.length_append, List.length_singleton]
  split_ifs with hfull
  · have hstart : calls.length + 1 + 1 - 200 = calls.length + 1 - 200 + 1 := by omega
    rw [List.drop_drop, List.drop_append_of_le_length (by omega), hstart]
  · have hstart : calls.length + 1 + 1 - 200 = calls.length + 1 - 200 := by omega
    rw [List.drop_append_of_le_length (by omega), hstart]

theorem abs64_eq {n : Int} (hlow : -2 ^ 63 < n) (hhigh : n < 2 ^ 63) : abs64 n = |n| := by
  unfold abs64
  split_ifs with hn
  · exact (abs_of_nonneg hn).symm
  · rw [Int.bmod_eq_of_le (by omega) (by omega), abs_of_neg (by omega)]

/-- A median is one of the samples, so that its absolute value is what `abs64` gives. -/
theorem abs64_median {m : Int} (hrange : ∀ call ∈ calls, call.InRange) (h : IsMedian m (window calls)) :
    abs64 m = |m| := by
  rcases List.mem_cons.mp (List.mem_of_mem_drop h.mem) with rfl | hm
  · rfl
  · obtain ⟨call, hcall, rfl⟩ := List.mem_map.mp hm
    obtain ⟨hlow, hhigh⟩ := hrange call hcall
    rw [nOffsetSample_eq (hrange call hcall)]
    exact abs64_eq hlow hhigh

variable [DecidableEq A] {s : TimeData A}

theorem addTimeData_new (hnew : call.ip ∉ s.setKnown) : (addTimeData s call).setKnown = call.ip :: s.setKnown ∧
    (addTimeData s call).vTimeOffsets = s.vTimeOffsets.input call.nOffsetSample ∧ (addTimeData s call).nTimeOffset =
      if (s.vTimeOffsets.input call.nOffsetSample).vValues.length ≥ 5 ∧
          (s.vTimeOffsets.input call.nOffsetSample).vValues.length % 2 = 1 then
        if abs64 (s.vTimeOffsets.input call.nOffsetSample).median < 70 * 60 then
          (s.vTimeOffsets.input call.nOffsetSample).median
        else 0
      else s.nTimeOffset := by
  unfold addTimeData
  rw [if_neg hnew]
  dsimp only
  split_ifs <;> exact ⟨rfl, rfl, rfl⟩

theorem run_concat (calls : List (TimeCall A)) (call : TimeCall A) :
    run (calls ++ [call]) = addTimeData (run calls) call := by
  rw [run, List.foldl_append]
  rfl

/-- What is kept of a run of calls from distinct addresses. -/
structure Tracks (calls : List (TimeCall A)) (s : TimeData A) : Prop where
  known : ∀ ip, ip ∈ s.setKnown ↔ ip ∈ calls.map TimeCall.ip
  values : s.vTimeOffsets.vValues = window calls
  nSize : s.vTimeOffsets.nSize = 200

theorem tracks_run (hdistinct : (calls.map TimeCall.ip).Nodup) : Tracks calls (run calls) := by
  induction calls using List.reverseRecOn with
  | nil =>
    refine ⟨fun ip => Iff.rfl, ?_, rfl⟩
    rw [window, List.length_nil, Nat.zero_add, Nat.sub_eq_zero_of_le (by norm_num), List.drop_zero]
    rfl
  | append_singleton calls call ih =>
    rw [List.map_append, List.nodup_append] at hdistinct
    obtain ⟨hprevious, -, hfresh⟩ := hdistinct
    have htracks := ih hprevious
    have hnew : call.ip ∉ (run calls).setKnown := fun hmem =>
      hfresh call.ip ((htracks.known _).mp hmem) call.ip (List.mem_singleton_self _) rfl
    obtain ⟨hknown, hvalues, -⟩ := addTimeData_new hnew
    rw [run_concat]
    refine ⟨fun ip => ?_, ?_, ?_⟩
    · rw [hknown, List.mem_cons, htracks.known, List.map_append, List.mem_append, List.map_singleton, List.mem_singleton]
      exact or_comm
    · rw [hvalues, CMedianFilter.input, htracks.values, htracks.nSize, window_concat]
    · rw [hvalues]
      exact htracks.nSize

theorem mem_known (hdistinct : ((calls ++ [call]).map TimeCall.ip).Nodup) : call.ip ∉ (run calls).setKnown := by
  rw [List.map_append, List.nodup_append] at hdistinct
  obtain ⟨hprevious, -, hfresh⟩ := hdistinct
  exact fun hmem => hfresh call.ip (((tracks_run hprevious).known _).mp hmem) call.ip (List.mem_singleton_self _) rfl

theorem nTimeOffset_concat (hdistinct : ((calls ++ [call]).map TimeCall.ip).Nodup) :
    ∃ m, (2 * ((window (calls ++ [call])).length / 2) + 1 = (window (calls ++ [call])).length →
        IsMedian m (window (calls ++ [call]))) ∧
      (run (calls ++ [call])).nTimeOffset =
        if (window (calls ++ [call])).length ≥ 5 ∧ (window (calls ++ [call])).length % 2 = 1 then
          if abs64 m < 70 * 60 then m else 0
        else (run calls).nTimeOffset := by
  have htracks := tracks_run hdistinct
  obtain ⟨-, hinput, hoffset⟩ := addTimeData_new (mem_known hdistinct)
  rw [run_concat] at htracks ⊢
  have hvalues := htracks.values
  rw [hinput] at hvalues
  rw [hvalues] at hoffset
  refine ⟨_, fun hodd => ?_, hoffset⟩
  have hsorted : ((run calls).vTimeOffsets.input call.nOffsetSample).vSorted
      = (window (calls ++ [call])).insertionSort (· ≤ ·) := by
    rw [← hvalues]
    rfl
  have hperm := List.perm_insertionSort (· ≤ ·) (window (calls ++ [call]))
  unfold CMedianFilter.median
  dsimp only
  rw [hsorted, hperm.length_eq, if_pos (by omega)]
  exact (isMedian_sorted (List.pairwise_insertionSort (· ≤ ·) _) (by rw [hperm.length_eq]; omega)).perm hperm

theorem nTimeOffset_median (hdistinct : (calls.map TimeCall.ip).Nodup) (hlarge : 4 ≤ calls.length)
    (hodd : (calls.length + 1) % 2 = 1) (hroom : calls.length < 200) :
    ∃ m, IsMedian m (window calls) ∧ (run calls).nTimeOffset = if abs64 m < 70 * 60 then m else 0 := by
  obtain ⟨front, call, rfl⟩ := (List.eq_nil_or_concat' calls).resolve_left (List.ne_nil_of_length_pos (by omega))
  obtain ⟨m, hmedian, hoffset⟩ := nTimeOffset_concat hdistinct
  have hlength := length_window (front ++ [call])
  rw [if_pos (by omega)] at hoffset
  exact ⟨m, hmedian (by omega), hoffset⟩

theorem nTimeOffset_odd (hdistinct : (calls.map TimeCall.ip).Nodup) (hrange : ∀ call ∈ calls, call.InRange)
    (hlarge : 4 ≤ calls.length) (hodd : (calls.length + 1) % 2 = 1) (hroom : calls.length < 200) :
    ∃ m, IsMedian m (window calls) ∧ (run calls).nTimeOffset = if |m| < 70 * 60 then m else 0 := by
  obtain ⟨m, hm, hoffset⟩ := nTimeOffset_median hdistinct hlarge hodd hroom
  rw [abs64_median hrange hm] at hoffset
  exact ⟨m, hm, hoffset⟩

/-- The window of 200 samples has no odd size, so that the offset stays as it is from then on. -/
theorem nTimeOffset_full (hdistinct : (calls.map TimeCall.ip).Nodup) (hfull : 198 ≤ calls.length) :
    (run calls).nTimeOffset = (run (calls.take 198)).nTimeOffset := by
  induction calls using List.reverseRecOn with
  | nil => exact absurd hfull (by norm_num)
  | append_singleton calls call ih =>
    rw [List.length_append, List.length_singleton] at hfull
    rcases Nat.lt_or_eq_of_le hfull with hlt | heq
    · have hlength := length_window (calls ++ [call])
      rw [List.length_append, List.length_singleton] at hlength
      obtain ⟨m, -, hoffset⟩ := nTimeOffset_concat hdistinct
      rw [if_neg (by omega)] at hoffset
      rw [List.map_append, List.nodup_append] at hdistinct
      rw [hoffset, ih hdistinct.1 (by omega), List.take_append_of_le_length (by omega)]
    · rw [List.take_of_length_le]
      rw [List.length_append, List.length_singleton, ← heq]

/-- The offset stays within 70 minutes. By induction on the calls. -/
theorem nTimeOffset_bounded (hdistinct : (calls.map TimeCall.ip).Nodup) (hrange : ∀ call ∈ calls, call.InRange) :
    |(run calls).nTimeOffset| < 70 * 60 := by
  induction calls using List.reverseRecOn with
  | nil => exact (by decide : |(0 : Int)| < 70 * 60)
  | append_singleton calls call ih =>
    have hprevious := ih (by rw [List.map_append, List.nodup_append] at hdistinct; exact hdistinct.1)
      fun c hc => hrange c (List.mem_append_left _ hc)
    obtain ⟨m, hmedian, hoffset⟩ := nTimeOffset_concat hdistinct
    rw [hoffset]
    split_ifs with hodd hsmall
    · rwa [← abs64_median hrange (hmedian (by omega))]
    · decide
    · exact hprevious

/-- In runs of calls from distinct addresses the offset stays within 70 minutes; up to 200 samples it is their median,
or 0 where that is 70 minutes or more, after every call that makes their number odd; later calls leave it. -/
theorem nTimeOffset_tracks (hdistinct : (calls.map TimeCall.ip).Nodup) (hrange : ∀ call ∈ calls, call.InRange) :
    |(run calls).nTimeOffset| < 70 * 60 ∧
    (4 ≤ calls.length → (calls.length + 1) % 2 = 1 → calls.length < 200 →
      ∃ m, IsMedian m (window calls) ∧ (∀ m', IsMedian m' (window calls) → m' = m) ∧
        (run calls).nTimeOffset = if |m| < 70 * 60 then m else 0) ∧
    (198 ≤ calls.length → (run calls).nTimeOffset = (run (calls.take 198)).nTimeOffset) := by
  refine ⟨nTimeOffset_bounded hdistinct hrange, fun hlarge hodd hroom => ?_, nTimeOffset_full hdistinct⟩
  obtain ⟨m, hm, hoffset⟩ := nTimeOffset_odd hdistinct hrange hlarge hodd hroom
  exact ⟨m, hm, fun m' hm' => hm'.unique hm, hoffset⟩

def firstCalls (calls : List (TimeCall A)) : List (TimeCall A) :=
  calls.foldl (fun first call => if call.ip ∈ first.map TimeCall.ip then first else first ++ [call]) []

/-- The calls whose samples make the offset: the last ones that left an odd number of samples. -/
def counted (calls : List (TimeCall A)) : List (TimeCall A) :=
  (firstCalls calls).take (min 198 ((firstCalls calls).length / 2 * 2))

/-- Only the first call of an address counts. By induction on the calls. -/
theorem run_firstCalls (calls : List (TimeCall A)) :
    ((firstCalls calls).map TimeCall.ip).Nodup ∧ run (firstCalls calls) = run calls := by
  induction calls using List.reverseRecOn with
  | nil => exact ⟨List.nodup_nil, rfl⟩
  | append_singleton calls call ih =>
    obtain ⟨hdistinct, hrun⟩ := ih
    have hstep : firstCalls (calls ++ [call]) = if call.ip ∈ (firstCalls calls).map TimeCall.ip then firstCalls calls
        else firstCalls calls ++ [call] := by
      rw [firstCalls, List.foldl_append]
      rfl
    rw [hstep, run_concat, ← hrun]
    split_ifs with hknown
    · refine ⟨hdistinct, ?_⟩
      rw [addTimeData, if_pos (((tracks_run hdistinct).known _).mpr hknown)]
    · refine ⟨?_, run_concat _ _⟩
      rw [List.map_append, List.nodup_append]
      refine ⟨hdistinct, List.nodup_singleton _, fun ip hip ip' hip' => ?_⟩
      rintro rfl
      rw [List.map_singleton, List.mem_singleton] at hip'
      exact hknown (hip' ▸ hip)

theorem nTimeOffset_counted (calls : List (TimeCall A)) : (run calls).nTimeOffset = (run (counted calls)).nTimeOffset := by
  obtain ⟨hdistinct, hrun⟩ := run_firstCalls calls
  rw [← hrun, counted]
  generalize firstCalls calls = first at hdistinct
  rcases Nat.lt_or_ge first.length 198 with hroom | hfull
  · rw [min_eq_right (by omega)]
    rcases Nat.mod_two_eq_zero_or_one first.length with heven | hodd
    · rw [List.take_of_length_le (by omega)]
    · -- the last sample makes the number even
      obtain ⟨front, call, rfl⟩ := (List.eq_nil_or_concat' first).resolve_left (List.ne_nil_of_length_pos (by omega))
      have hlength := length_window (front ++ [call])
      rw [List.length_append, List.length_singleton] at hodd hlength hroom ⊢
      obtain ⟨m, -, hoffset⟩ := nTimeOffset_concat hdistinct
      rw [hoffset, if_neg (by omega), List.take_append_of_le_length (by omega), List.take_of_length_le (by omega)]
  · rw [min_eq_left (by omega)]
    exact nTimeOffset_full hdistinct hfull

theorem between_of_majority {m lo hi : Int} {samples : List Int} (hm : IsMedian m samples)
    (hmajority : samples.length < 2 * samples.countP (fun x => lo ≤ x ∧ x ≤ hi)) : lo ≤ m ∧ m ≤ hi := by
  by_contra hout
  have hbelow := hm.below
  have habove := hm.above
  rcases not_and_or.mp hout with hlow | hhigh
  · have hmono : samples.countP (fun x => lo ≤ x ∧ x ≤ hi) ≤ samples.countP (m < ·) := by
      refine List.countP_mono_left fun x _ hx => ?_
      rw [decide_eq_true_iff] at hx ⊢
      omega
    omega
  · have hmono : samples.countP (fun x => lo ≤ x ∧ x ≤ hi) ≤ samples.countP (· < m) := by
      refine List.countP_mono_left fun x _ hx => ?_
      rw [decide_eq_true_iff] at hx ⊢
      omega
    omega

/-- **A majority of clocks decides.** However often an address calls, only its first call counts. If most of the samples
that count lie between two bounds, the offset does so, or it is 0. -/
theorem nTimeOffset_majority (calls : List (TimeCall A)) : run (firstCalls calls) = run calls ∧
    ∀ lo hi : Int, 4 ≤ (firstCalls calls).length →
      (window (counted calls)).length < 2 * (window (counted calls)).countP (fun x => lo ≤ x ∧ x ≤ hi) →
      (run calls).nTimeOffset = 0 ∨ lo ≤ (run calls).nTimeOffset ∧ (run calls).nTimeOffset ≤ hi := by
  obtain ⟨hdistinct, hrun⟩ := run_firstCalls calls
  refine ⟨hrun, fun lo hi hpeers hmajority => ?_⟩
  have hlength : (counted calls).length = min 198 ((firstCalls calls).length / 2 * 2) := by
    rw [counted, List.length_take]
    omega
  have hcounted : ((counted calls).map TimeCall.ip).Nodup := by
    rw [counted, List.map_take]
    exact hdistinct.sublist (List.take_sublist _ _)
  obtain ⟨m, hm, hoffset⟩ := nTimeOffset_median hcounted (by omega) (by omega) (by omega)
  rw [nTimeOffset_counted, hoffset]
  split_ifs
  · exact Or.inr (between_of_majority hm hmajority)
  · exact Or.inl rfl

end Runs

end TimeData

namespace Sample

open TimeData

def callsOf (offsets : List Int) : List (TimeCall Nat) := (offsets.zipIdx).map fun p => ⟨p.2, p.1, 0⟩

def lateOffsets : List Int := List.replicate 99 0 ++ List.replicate 101 100

theorem nTimeOffset_tracks_four : (4 ≤ (callsOf [3, 1, 4, 1]).length) ∧
    |(run (callsOf [3, 1, 4, 1])).nTimeOffset| < 70 * 60 ∧ (run (callsOf [3, 1, 4, 1])).nTimeOffset = 1 :=
  ⟨by decide, (@nTimeOffset_tracks Nat (callsOf [3, 1, 4, 1]) _ (by decide) (by unfold TimeCall.InRange; decide)).1,
    by decide⟩

/-- The clocks that are ahead are the most of the last 200, but the last two of them come too late. -/
theorem lateSamples_ignored : ((callsOf lateOffsets).map TimeCall.ip).Nodup ∧ (callsOf lateOffsets).length + 1 = 201 ∧
    (∀ call ∈ callsOf lateOffsets, call.InRange) ∧ IsMedian 100 (window (callsOf lateOffsets)) ∧
    (run (callsOf lateOffsets)).nTimeOffset = 0 := by
  have hdistinct : ((callsOf lateOffsets).map TimeCall.ip).Nodup := by decide +kernel
  have hrange : ∀ call ∈ callsOf lateOffsets, call.InRange := by
    unfold TimeCall.InRange
    decide +kernel
  refine ⟨hdistinct, by decide +kernel, hrange, ⟨by decide +kernel, by decide +kernel, by decide +kernel⟩, ?_⟩
  have hfirst : ((callsOf lateOffsets).take 198).map TimeCall.ip |>.Nodup := by decide +kernel
  obtain ⟨m, hm, hoffset⟩ := nTimeOffset_odd hfirst (fun call hcall => hrange call (List.mem_of_mem_take hcall))
    (by decide +kernel) (by decide +kernel) (by decide +kernel)
  have hzero : IsMedian 0 (window ((callsOf lateOffsets).take 198)) :=
    ⟨by decide +kernel, by decide +kernel, by decide +kernel⟩
  rw [nTimeOffset_full hdistinct (by decide +kernel), hoffset, hm.unique hzero]
  rfl

/-- Two addresses call again, with a clock that is far ahead. -/
def repeatedCalls : List (TimeCall Nat) := callsOf [3, 1, 4, 1, 9000] ++ [⟨0, 9000, 0⟩, ⟨2, 9000, 0⟩, ⟨2, 9000, 0⟩]

theorem nTimeOffset_majority_five : run (firstCalls repeatedCalls) = run repeatedCalls ∧
    ((run repeatedCalls).nTimeOffset = 0 ∨
      1 ≤ (run repeatedCalls).nTimeOffset ∧ (run repeatedCalls).nTimeOffset ≤ 4) :=
  ⟨(nTimeOffset_majority repeatedCalls).1, (nTimeOffset_majority repeatedCalls).2 1 4 (by decide) (by decide)⟩

end Sample

end PupaCoin
