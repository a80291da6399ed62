import PupaCoin.Net.Spork
import Mathlib.Logic.Function.Basic
import Std.Data.String.ToInt

/-!
# Proofs: sporks

The value that a node keeps for a spork is the latest of those that it has taken (`Latest.IsLatest`), whatever their
order. What is signed does not say where one number ends and the next one begins.
-/

namespace PupaCoin

open Latest Regroup

section Delivery

variable {env : SporkEnv} {ext : SporkExt} {spork : CSporkMessage} {s : Sporks} {msgs : List CSporkMessage}

theorem processSpork_state (hlite : ext.fLiteMode = false) (hbest : ext.pindexBest ≠ none)
    (hsig : checkSporkSignature env spork = true) :
    (processSpork env ext (.spork spork) s).2 = if s.seen spork then s else s.record env spork := by
  unfold processSpork
  simp only [hlite, hbest, hsig, Bool.false_eq_true, if_false, Bool.not_true]
  split <;> rfl

theorem Sporks.seen_iff : s.seen spork = true ↔ ∃ active, s.mapSporksActive.find? spork.nSporkID = some active
    ∧ spork.nTimeSigned ≤ active.nTimeSigned := by
  unfold Sporks.seen
  cases s.mapSporksActive.find? spork.nSporkID with
  | none => simp
  | some active => simp

theorem Sporks.KeepsLatest.deliver (hs : s.KeepsLatest msgs) (hlite : ext.fLiteMode = false)
    (hbest : ext.pindexBest ≠ none) (hsig : checkSporkSignature env spork = true) :
    (processSpork env ext (.spork spork) s).2.KeepsLatest (msgs ++ [spork]) := by
  rw [processSpork_state hlite hbest hsig]
  intro nSporkID
  by_cases hid : spork.nSporkID = nSporkID
  · subst hid
    have hactive := hs spork.nSporkID
    by_cases hseen : s.seen spork = true
    · rw [if_pos hseen]
      obtain ⟨active, hfind, hold⟩ := Sporks.seen_iff.mp hseen
      rw [hfind] at hactive ⊢
      exact hactive.snoc_older hold
    · rw [if_neg hseen]
      have hset : (s.record env spork).mapSporksActive.find? spork.nSporkID = some spork :=
        OrderedMap.find?_set_self _ _ _
      rw [hset]
      refine hactive.snoc_newer fun active hmem => ?_
      by_contra hlater
      exact hseen (Sporks.seen_iff.mpr ⟨active, hmem, (not_le.mp hlater).le⟩)
  · have hsame : (if s.seen spork then s else s.record env spork).mapSporksActive.find? nSporkID
        = s.mapSporksActive.find? nSporkID := by
      split
      · rfl
      · exact OrderedMap.find?_set_of_ne _ _ (Ne.symm hid)
    rw [hsame]
    exact (hs nSporkID).snoc_other hid

/-- All messages. By induction on the deliveries, the last one first. -/
theorem deliverSporks_keepsLatest {deliveries : List (SporkExt × CSporkMessage)} (htakes : TakesSporks env deliveries) :
    (deliverSporks env deliveries).KeepsLatest (deliveries.map Prod.snd) := by
  induction deliveries using List.reverseRecOn with
  | nil => exact fun nSporkID => .nil _ _ nSporkID
  | append_singleton rest d ih =>
    obtain ⟨hlite, hbest, hsig⟩ := htakes d (List.mem_append_right _ List.mem_cons_self)
    have hrest := ih fun d' hd' => htakes d' (List.mem_append_left _ hd')
    unfold deliverSporks
    rw [List.foldl_append, List.map_append]
    exact hrest.deliver hlite hbest hsig

theorem getSporkValue_eq (s : Sporks) (nSporkID : Int) : getSporkValue s nSporkID =
    ((s.mapSporksActive.find? nSporkID).map CSporkMessage.nValue).getD (sporkDefault nSporkID) := by
  unfold getSporkValue
  cases s.mapSporksActive.find? nSporkID <;> rfl

/-- **Convergence.** A node that takes the sporks keeps the latest message of every spork, and two nodes that have been
delivered the same messages, in whatever order and however often, agree on every value. -/
theorem sporks_converge (env : SporkEnv) (one other : List (SporkExt × CSporkMessage)) (hone : TakesSporks env one)
    (hother : TakesSporks env other) (hsame : ∀ m, m ∈ one.map Prod.snd ↔ m ∈ other.map Prod.snd)
    (hties : ∀ m ∈ one.map Prod.snd, ∀ m' ∈ one.map Prod.snd, m.nSporkID = m'.nSporkID →
      m.nTimeSigned = m'.nTimeSigned → m.nValue = m'.nValue) :
    (deliverSporks env one).KeepsLatest (one.map Prod.snd)
      ∧ (∀ nSporkID, getSporkValue (deliverSporks env one) nSporkID
        = getSporkValue (deliverSporks env other) nSporkID)
      ∧ ∀ getTime nSporkID, isSporkActive (deliverSporks env one) getTime nSporkID
        = isSporkActive (deliverSporks env other) getTime nSporkID := by
  have hvalue : ∀ nSporkID, getSporkValue (deliverSporks env one) nSporkID
      = getSporkValue (deliverSporks env other) nSporkID := by
    intro nSporkID
    rw [getSporkValue_eq, getSporkValue_eq]
    have hagree := (deliverSporks_keepsLatest hone nSporkID).agree (deliverSporks_keepsLatest hother nSporkID) hsame hties
    rw [hagree]
  refine ⟨deliverSporks_keepsLatest hone, hvalue, fun getTime nSporkID => ?_⟩
  unfold isSporkActive
  rw [hvalue]

end Delivery

namespace Sample

def sporkEnv : SporkEnv := ⟨fun _ => 0, fun _ _ => true, fun _ => none⟩

def instantxSpork (nValue nTimeSigned : Int) : CSporkMessage := ⟨[], 10001, nValue, nTimeSigned⟩

/-- A node in lite mode keeps nothing. -/
theorem lite_node_ignores : ¬ ∀ (env : SporkEnv) (deliveries : List (SporkExt × CSporkMessage)),
    (∀ d ∈ deliveries, checkSporkSignature env d.2 = true) →
      (deliverSporks env deliveries).KeepsLatest (deliveries.map Prod.snd) := by
  intro hall
  have hkeeps := hall sporkEnv [(⟨true, some 100⟩, instantxSpork 5 7)] (fun _ _ => rfl) 10001
  exact hkeeps (instantxSpork 5 7) List.mem_cons_self rfl

theorem two_sporks_converge :
    getSporkValue (deliverSporks sporkEnv [(⟨false, some 100⟩, instantxSpork 5 7), (⟨false, some 100⟩, instantxSpork 6 8)])
        10001
      = getSporkValue (deliverSporks sporkEnv [(⟨false, some 90⟩, instantxSpork 6 8),
        (⟨false, some 91⟩, instantxSpork 5 7), (⟨false, some 91⟩, instantxSpork 6 8)]) 10001 := by
  refine (sporks_converge sporkEnv _ _ ?_ ?_ ?_ ?_).2.1 10001
  · intro d hd
    rcases List.mem_pair.mp hd with rfl | rfl
    · exact ⟨rfl, (fun hnone => nomatch hnone), rfl⟩
    · exact ⟨rfl, (fun hnone => nomatch hnone), rfl⟩
  · intro d hd
    rcases List.mem_cons.mp hd with rfl | hd
    · exact ⟨rfl, (fun hnone => nomatch hnone), rfl⟩
    rcases List.mem_pair.mp hd with rfl | rfl
    · exact ⟨rfl, (fun hnone => nomatch hnone), rfl⟩
    · exact ⟨rfl, (fun hnone => nomatch hnone), rfl⟩
  · intro m
    show m ∈ [instantxSpork 5 7, instantxSpork 6 8] ↔ m ∈ [instantxSpork 6 8, instantxSpork 5 7, instantxSpork 6 8]
    simp only [List.mem_cons, List.not_mem_nil, or_false]
    tauto
  · decide

end Sample

section Signatures

variable {a b : CSporkMessage}

theorem decimals_inj {m n : Int} : decimals m = decimals n ↔ m = n :=
  String.toList_inj.trans Int.repr_inj

theorem strMessage_eq_iff : a.strMessage = b.strMessage ↔ (∃ u w, a.ShiftsTo b u w) ∨ ∃ u w, b.ShiftsTo a u w := by
  unfold CSporkMessage.ShiftsTo
  rw [← append_eq_iff, ← String.toList_inj]
  unfold CSporkMessage.strMessage decimals
  simp only [String.toList_append]

theorem CSporkMessage.ShiftsTo.regroups {u w : List Char} (h : a.ShiftsTo b u w) (hdiff : a.triple ≠ b.triple) :
    a.Regroups b := by
  refine ⟨u, w, h, ?_⟩
  by_contra hnone
  obtain ⟨rfl, rfl⟩ : u = [] ∧ w = [] := by simpa using hnone
  obtain ⟨hid, hvalue, htime⟩ := h.nil
  refine hdiff ?_
  unfold CSporkMessage.triple
  rw [decimals_inj.mp hid, decimals_inj.mp hvalue, decimals_inj.mp htime]

theorem CSporkMessage.Regroups.triple_ne (h : a.Regroups b) : a.triple ≠ b.triple := by
  obtain ⟨u, w, hshifts, hsome⟩ := h
  intro heq
  obtain ⟨hid, hrest⟩ := Prod.mk.inj heq
  obtain ⟨hvalue, htime⟩ := Prod.mk.inj hrest
  unfold CSporkMessage.ShiftsTo at hshifts
  rw [hid, hvalue, htime] at hshifts
  obtain ⟨hu, hw⟩ := hshifts.eq_nil
  exact hsome.elim (fun hne => hne hu) fun hne => hne hw

/-- **Signed strings** of different numbers are different exactly when the numbers of one are not those of the other with
digits moved over the boundaries. -/
theorem strMessage_binds_iff (a b : CSporkMessage) :
    (a.triple ≠ b.triple → a.strMessage ≠ b.strMessage) ↔ ¬ (a.Regroups b ∨ b.Regroups a) := by
  constructor
  · rintro hbinds (h | h)
    · have hdiff := h.triple_ne
      obtain ⟨u, w, hshifts, -⟩ := h
      exact hbinds hdiff (strMessage_eq_iff.mpr (Or.inl ⟨u, w, hshifts⟩))
    · have hdiff := h.triple_ne.symm
      obtain ⟨u, w, hshifts, -⟩ := h
      exact hbinds hdiff (strMessage_eq_iff.mpr (Or.inr ⟨u, w, hshifts⟩))
  · intro hkept hdiff heq
    rcases strMessage_eq_iff.mp heq with ⟨u, w, hshifts⟩ | ⟨u, w, hshifts⟩
    · exact hkept (Or.inl (hshifts.regroups hdiff))
    · exact hkept (Or.inr (hshifts.regroups hdiff.symm))

end Signatures

namespace Sample

/-- The last digit of a number becomes the first one of the next number. -/
theorem digit_moves : ¬ ∀ a b : CSporkMessage, a.triple ≠ b.triple → a.strMessage ≠ b.strMessage := by
  intro hall
  exact hall ⟨[], 10001, 15, 1400000000⟩ ⟨[], 100011, 5, 1400000000⟩ (by decide) (by decide)

end Sample

end PupaCoin
