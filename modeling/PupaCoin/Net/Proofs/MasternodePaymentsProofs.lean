import PupaCoin.Net.MasternodePayments
import PupaCoin.Net.Proofs.InstantXProofs

/-!
# Proofs: the masternodes that are paid

What `AddWinningMasternode` does to the winner of a height is one of three things (`addWinningMasternode_cases`). A call
of `GetWinningMasternode` that elects a winner is not repeatable: the second time its winner is there already.
-/

namespace PupaCoin

open Latest

variable {env : PaymentsEnv} {ext : PaymentsExt} {s s' : MasternodePayments} {nBlockHeight : Int}
  {winner winnerIn old : CMasternodePaymentWinner} {winners xs : List CMasternodePaymentWinner}

theorem replaceWinner_eq_some {ys : List CMasternodePaymentWinner} (h : replaceWinner winnerIn xs = some ys) :
    ∃ front old back, xs = front ++ old :: back ∧ old.nBlockHeight = winnerIn.nBlockHeight
      ∧ old.score < winnerIn.score ∧ ys = front ++ winnerIn :: back := by
  induction xs generalizing ys with
  | nil => cases h
  | cons x rest ih =>
    rw [replaceWinner] at h
    split at h
    · next hreplace =>
      refine ⟨[], x, rest, rfl, hreplace.1, hreplace.2, ?_⟩
      rw [← Option.some.inj h, hreplace.1]
      rfl
    · obtain ⟨ys', hrest, rfl⟩ := Option.map_eq_some_iff.mp h
      obtain ⟨front, old, back, rfl, hheight, hscore, rfl⟩ := ih hrest
      exact ⟨x :: front, old, back, rfl, hheight, hscore, rfl⟩

theorem replaceWinner_eq_none : replaceWinner winnerIn xs = none ↔
    ∀ old ∈ xs, old.nBlockHeight = winnerIn.nBlockHeight → winnerIn.score ≤ old.score := by
  induction xs with
  | nil => simp [replaceWinner]
  | cons x rest ih =>
    rw [replaceWinner, List.forall_mem_cons]
    split
    · next hreplace =>
      refine iff_of_false (fun h => nomatch h) fun h => ?_
      exact absurd (h.1 hreplace.1) (not_le.mpr hreplace.2)
    · next hkeep =>
      rw [Option.map_eq_none_iff, ih]
      refine (and_iff_right fun hheight => ?_).symm
      exact not_lt.mp fun hlt => hkeep ⟨hheight, hlt⟩

theorem addWinningMasternode_cases (env : PaymentsEnv) (winner : CMasternodePaymentWinner) (s : MasternodePayments) :
    (∃ front old back seen, s.vWinning = front ++ old :: back ∧ old.nBlockHeight = winner.nBlockHeight
        ∧ old.score < (winner.scored env).score
        ∧ addWinningMasternode env winner s = (.ok true, ⟨front ++ winner.scored env :: back, seen⟩))
      ∨ (∃ old ∈ s.vWinning, old.nBlockHeight = winner.nBlockHeight ∧ (winner.scored env).score ≤ old.score
        ∧ addWinningMasternode env winner s = (.ok false, s))
      ∨ ∃ seen, (∀ old ∈ s.vWinning, old.nBlockHeight ≠ winner.nBlockHeight)
        ∧ addWinningMasternode env winner s = (.ok true, ⟨s.vWinning ++ [winner.scored env], seen⟩) := by
  unfold addWinningMasternode
  dsimp only
  cases hreplace : replaceWinner (winner.scored env) s.vWinning with
  | some ys =>
    obtain ⟨front, old, back, hxs, hheight, hscore, rfl⟩ := replaceWinner_eq_some hreplace
    exact Or.inl ⟨front, old, back, _, hxs, hheight, hscore, rfl⟩
  | none =>
    dsimp only
    split
    · next hfound =>
      obtain ⟨old, hold, hheight⟩ := List.any_eq_true.mp hfound
      have hsame : old.nBlockHeight = winner.nBlockHeight := eq_of_beq hheight
      exact Or.inr (Or.inl ⟨old, hold, hsame, replaceWinner_eq_none.mp hreplace old hold hsame, rfl⟩)
    · next hfound =>
      refine Or.inr (Or.inr ⟨_, fun old hold hsame => hfound ?_, rfl⟩)
      exact List.any_eq_true.mpr ⟨old, hold, beq_of_eq hsame⟩

def HeightsNodup (xs : List CMasternodePaymentWinner) : Prop :=
  (xs.map CMasternodePaymentWinner.nBlockHeight).Nodup

theorem entry_eq_some (hs : HeightsNodup s.vWinning) :
    s.entry nBlockHeight = some winner ↔ winner ∈ s.vWinning ∧ winner.nBlockHeight = nBlockHeight := by
  unfold MasternodePayments.entry
  constructor
  · intro h
    have hsame := List.find?_some h
    exact ⟨List.mem_of_find?_eq_some h, eq_of_beq hsame⟩
  · rintro ⟨hmem, rfl⟩
    cases hfind : s.vWinning.find? fun found => found.nBlockHeight == winner.nBlockHeight with
    | none =>
      have hnone := List.find?_eq_none.mp hfind winner hmem
      exact absurd (beq_self_eq_true winner.nBlockHeight) hnone
    | some found =>
      have hfound := List.find?_some hfind
      exact congrArg some (List.inj_on_of_nodup_map hs (List.mem_of_find?_eq_some hfind) hmem (eq_of_beq hfound))

theorem entry_eq_none : s.entry nBlockHeight = none ↔ ∀ old ∈ s.vWinning, old.nBlockHeight ≠ nBlockHeight := by
  unfold MasternodePayments.entry
  rw [List.find?_eq_none]
  exact forall₂_congr fun old _ => by rw [beq_iff_eq]

theorem entry_congr (hs : HeightsNodup s.vWinning) (hs' : HeightsNodup s'.vWinning)
    (hsame : ∀ w : CMasternodePaymentWinner, w.nBlockHeight = nBlockHeight → (w ∈ s'.vWinning ↔ w ∈ s.vWinning)) :
    s'.entry nBlockHeight = s.entry nBlockHeight := by
  refine Option.ext fun w => ?_
  rw [entry_eq_some hs, entry_eq_some hs']
  exact and_congr_left (hsame w)

theorem addWinningMasternode_entry (env : PaymentsEnv) (winner : CMasternodePaymentWinner)
    (hs : HeightsNodup s.vWinning) :
    (∃ old, s.entry winner.nBlockHeight = some old ∧ (winner.scored env).score ≤ old.score
        ∧ addWinningMasternode env winner s = (.ok false, s))
      ∨ ∃ s', addWinningMasternode env winner s = (.ok true, s') ∧ HeightsNodup s'.vWinning
        ∧ (∀ old ∈ s.entry winner.nBlockHeight, old.score < (winner.scored env).score)
        ∧ ∀ nBlockHeight, s'.entry nBlockHeight
          = if nBlockHeight = winner.nBlockHeight then some (winner.scored env) else s.entry nBlockHeight := by
  have hheight : (winner.scored env).nBlockHeight = winner.nBlockHeight := rfl
  rcases addWinningMasternode_cases env winner s with ⟨front, old, back, seen, hxs, hsame, hscore, hadd⟩
    | ⟨old, hold, hsame, hscore, hadd⟩ | ⟨seen, hnew, hadd⟩
  · have hs' : HeightsNodup (front ++ winner.scored env :: back) := by
      have hheights := hs
      unfold HeightsNodup at hheights ⊢
      rw [hxs, List.map_append, List.map_cons, hsame] at hheights
      rwa [List.map_append, List.map_cons]
    refine Or.inr ⟨_, hadd, hs', fun best hbest => ?_, fun nBlockHeight => ?_⟩
    · have hold : s.entry winner.nBlockHeight = some old := by
        refine (entry_eq_some hs).mpr ⟨?_, hsame⟩
        rw [hxs]
        exact List.mem_append_right _ List.mem_cons_self
      obtain rfl : old = best := Option.some.inj (hold.symm.trans hbest)
      exact hscore
    · split
      · next hh =>
        refine (entry_eq_some hs').mpr ⟨?_, hh ▸ hheight⟩
        exact List.mem_append_right _ List.mem_cons_self
      · next hh =>
        refine entry_congr hs hs' fun w hw => ?_
        have hne : ∀ v : CMasternodePaymentWinner, v.nBlockHeight = winner.nBlockHeight → w ≠ v := by
          rintro v hv rfl
          exact hh (hw.symm.trans hv)
        rw [hxs, List.mem_append, List.mem_append, List.mem_cons, List.mem_cons, or_iff_right (hne _ hheight),
          or_iff_right (hne _ hsame)]
  · exact Or.inl ⟨old, (entry_eq_some hs).mpr ⟨hold, hsame⟩, hscore, hadd⟩
  · have hs' : HeightsNodup (s.vWinning ++ [winner.scored env]) := by
      unfold HeightsNodup at hs ⊢
      rw [List.map_append, List.map_singleton]
      refine List.Nodup.append hs (List.nodup_singleton _) fun h hmem hh => ?_
      obtain ⟨old, hold, rfl⟩ := List.mem_map.mp hmem
      exact hnew old hold (List.mem_singleton.mp hh)
    refine Or.inr ⟨_, hadd, hs', fun best hbest => ?_, fun nBlockHeight => ?_⟩
    · rw [entry_eq_none.mpr hnew] at hbest
      cases hbest
    · split
      · next hh =>
        refine (entry_eq_some hs').mpr ⟨?_, hh ▸ hheight⟩
        exact List.mem_append_right _ List.mem_cons_self
      · next hh =>
        refine entry_congr hs hs' fun w hw => ?_
        have hne : w ≠ winner.scored env := by
          rintro rfl
          exact hh hw.symm
        rw [List.mem_append, List.mem_singleton, or_iff_left hne]

theorem MasternodePayments.KeepsBest.empty : MasternodePayments.empty.KeepsBest [] :=
  ⟨List.nodup_nil, fun nBlockHeight => .nil _ _ nBlockHeight⟩

theorem MasternodePayments.KeepsBest.add (hs : s.KeepsBest winners) (env : PaymentsEnv)
    (winner : CMasternodePaymentWinner) : ∃ added s', addWinningMasternode env winner s = (.ok added, s')
      ∧ s'.KeepsBest (winners ++ [winner.scored env]) := by
  have hother : ∀ nBlockHeight, nBlockHeight ≠ winner.nBlockHeight → (winner.scored env).nBlockHeight ≠ nBlockHeight :=
    fun _ hh => Ne.symm hh
  rcases addWinningMasternode_entry env winner hs.heights with ⟨old, hold, hscore, hadd⟩
    | ⟨s', hadd, hheights, hlower, hentry⟩
  · refine ⟨false, s, hadd, hs.heights, fun nBlockHeight => ?_⟩
    have hbest := hs.best nBlockHeight
    by_cases hh : nBlockHeight = winner.nBlockHeight
    · subst hh
      rw [hold] at hbest ⊢
      exact hbest.snoc_older hscore
    · exact hbest.snoc_other (hother nBlockHeight hh)
  · refine ⟨true, s', hadd, hheights, fun nBlockHeight => ?_⟩
    have hbest := hs.best nBlockHeight
    rw [hentry]
    split
    · next hh =>
      subst hh
      exact IsLatest.snoc_newer (x := winner.scored env) hbest fun old hold => (hlower old hold).le
    · next hh => exact hbest.snoc_other (hother nBlockHeight hh)

theorem MasternodePayments.KeepsBest.hidden (hs : s.KeepsBest winners) (hold : old ∈ winners)
    (hheight : old.nBlockHeight = winner.nBlockHeight) (hscore : winner.score ≤ old.score) :
    s.KeepsBest (winners ++ [winner]) := by
  refine ⟨hs.heights, fun nBlockHeight => ?_⟩
  have hbest := hs.best nBlockHeight
  by_cases hh : winner.nBlockHeight = nBlockHeight
  · cases hentry : s.entry nBlockHeight with
    | none =>
      rw [hentry] at hbest
      exact absurd (hheight.trans hh) (hbest old hold)
    | some kept =>
      rw [hentry] at hbest
      exact hbest.snoc_older (hscore.trans (hbest.2.2 old hold (hheight.trans hh)))
  · exact hbest.snoc_other hh

theorem winnerValid_iff : winnerValid env ext winner = true ↔ ext.fBlockchainSynced = true
    ∧ (∃ nBestHeight, ext.pindexBest = some nBestHeight ∧ inRange nBestHeight winner = true)
    ∧ winner.vin.nSequence = 0xffffffff ∧ ¬ ext.nVersion < minMasternodeBscRelay ∧ env.checkSignature winner = true := by
  unfold winnerValid
  rw [Bool.and_eq_true, Bool.and_eq_true, Bool.and_eq_true, Bool.and_eq_true, Option.any_eq_true, beq_iff_eq,
    decide_eq_true_eq, not_lt, and_assoc, and_assoc, and_assoc]

theorem processWinner_cases (env : PaymentsEnv) (ext : PaymentsExt) (winner : CMasternodePaymentWinner)
    (s : MasternodePayments) :
    (winnerValid env ext winner = true ∧ ¬ (s.mapSeenMasternodeVotes (winnerHash env winner)).isSome = true
        ∧ processWinner env ext winner s = (addWinningMasternode env winner >>= fun added =>
            if added then pure [.relay (winnerHash env winner)] else pure [])
          ⟨s.vWinning, mapInsert s.mapSeenMasternodeVotes (winnerHash env winner) winner⟩)
      ∨ (winnerValid env ext winner = true → (s.mapSeenMasternodeVotes (winnerHash env winner)).isSome = true)
        ∧ ∃ actions, processWinner env ext winner s = (.ok actions, s) := by
  rw [winnerValid_iff]
  unfold processWinner
  by_cases hsynced : ext.fBlockchainSynced = true
  swap
  · rw [if_pos (by simpa using hsynced)]
    exact Or.inr ⟨fun hvalid => absurd hvalid.1 hsynced, _, rfl⟩
  rw [if_neg (by simpa using hsynced)]
  cases hbest : ext.pindexBest with
  | none => exact Or.inr ⟨fun ⟨_, ⟨_, hsome, _⟩, _⟩ => (nomatch hsome), _, rfl⟩
  | some nBestHeight =>
    dsimp only
    rw [Exec.read_bind]
    by_cases hseen : (s.mapSeenMasternodeVotes (winnerHash env winner)).isSome = true
    · rw [if_pos hseen]
      exact Or.inr ⟨fun _ => hseen, _, rfl⟩
    rw [if_neg hseen]
    by_cases hrange : inRange nBestHeight winner = true
    swap
    · rw [if_pos (by simpa using hrange)]
      refine Or.inr ⟨fun ⟨_, ⟨_, hsome, hin⟩, _⟩ => ?_, _, rfl⟩
      exact absurd (Option.some.inj hsome ▸ hin) hrange
    rw [if_neg (by simpa using hrange)]
    by_cases hsequence : winner.vin.nSequence = 0xffffffff
    swap
    · rw [if_pos hsequence]
      exact Or.inr ⟨fun hvalid => absurd hvalid.2.2.1 hsequence, _, rfl⟩
    rw [if_neg (not_not.mpr hsequence)]
    by_cases hversion : ext.nVersion < minMasternodeBscRelay
    · rw [if_pos hversion]
      exact Or.inr ⟨fun hvalid => absurd hversion hvalid.2.2.2.1, _, rfl⟩
    rw [if_neg hversion]
    by_cases hsig : env.checkSignature winner = true
    swap
    · rw [if_pos (by simpa using hsig)]
      exact Or.inr ⟨fun hvalid => absurd hvalid.2.2.2.2 hsig, _, rfl⟩
    rw [if_neg (by simpa using hsig), Exec.update_bind]
    exact Or.inl ⟨⟨hsynced, ⟨nBestHeight, rfl, hrange⟩, hsequence, hversion, hsig⟩, hseen, rfl⟩

theorem MasternodePayments.KeepsBest.mnw (hs : s.KeepsBest winners)
    (hhides : HidesNoWinner env (.mnw ext winner) winners s) {actions : List PaymentsAction}
    (hr : processWinner env ext winner s = (.ok actions, s')) :
    s'.KeepsBest (winners ++ (PaymentsStep.mnw ext winner).winners env) := by
  show s'.KeepsBest (winners ++ if winnerValid env ext winner then [winner.scored env] else [])
  rcases processWinner_cases env ext winner s with ⟨hvalid, -, hrun⟩ | ⟨hseen, actions', hstays⟩
  · rw [hrun] at hr
    have hseen' : MasternodePayments.KeepsBest
        ⟨s.vWinning, mapInsert s.mapSeenMasternodeVotes (winnerHash env winner) winner⟩ winners :=
      ⟨hs.heights, hs.best⟩
    obtain ⟨added, t, hadd, ht⟩ := hseen'.add env winner
    rw [Exec.bind_of_ok hadd] at hr
    rw [if_pos hvalid]
    cases added with
    | true => exact (Prod.mk.inj hr).2 ▸ ht
    | false => exact (Prod.mk.inj hr).2 ▸ ht
  · obtain ⟨-, rfl⟩ := Prod.mk.inj (hstays.symm.trans hr)
    by_cases hvalid : winnerValid env ext winner = true
    · rw [if_pos hvalid]
      obtain ⟨old, hold, hheight, hscore⟩ := hhides hvalid (hseen hvalid)
      exact hs.hidden hold hheight hscore
    · rw [if_neg hvalid, List.append_nil]
      exact hs

theorem processBlock_of_none (hnone : electedWinner env ext nBlockHeight = none) :
    CMasternodePayments.processBlock env ext nBlockHeight s = (.ok false, s)
      ∨ ext.getCurrentMasterNode = none
        ∧ CMasternodePayments.processBlock env ext nBlockHeight s = (.error (.undefined "null pmn"), s) := by
  unfold electedWinner at hnone
  unfold CMasternodePayments.processBlock
  by_cases hlow : nBlockHeight ≤ 10
  · rw [if_pos hlow]
    exact Or.inl rfl
  by_cases hinitial : ext.fInitialBlockDownload = true
  · rw [if_neg hlow, if_pos hinitial]
    exact Or.inl rfl
  by_cases hhash : ext.getBlockHash nBlockHeight = none
  · rw [if_neg hlow, if_neg hinitial, if_pos hhash]
    exact Or.inl rfl
  rw [if_neg (not_or.mpr ⟨hlow, not_or.mpr ⟨hinitial, hhash⟩⟩), Option.map_eq_none_iff] at hnone
  rw [if_neg hlow, if_neg hinitial, if_neg hhash, hnone]
  exact Or.inr ⟨rfl, rfl⟩

theorem processBlock_of_some (hsome : electedWinner env ext nBlockHeight = some winner) :
    CMasternodePayments.processBlock env ext nBlockHeight s = addWinningMasternode env winner s := by
  unfold electedWinner at hsome
  split at hsome
  · cases hsome
  · next hopen =>
    obtain ⟨hlow, hrest⟩ := not_or.mp hopen
    obtain ⟨hinitial, hhash⟩ := not_or.mp hrest
    obtain ⟨mn, hcurrent, rfl⟩ := Option.map_eq_some_iff.mp hsome
    unfold CMasternodePayments.processBlock
    rw [if_neg hlow, if_neg hinitial, if_neg hhash, hcurrent]

theorem MasternodePayments.KeepsBest.block (hs : s.KeepsBest winners) {elected : Bool}
    (hr : CMasternodePayments.processBlock env ext nBlockHeight s = (.ok elected, s')) :
    s'.KeepsBest (winners ++ (PaymentsStep.block ext nBlockHeight).winners env) := by
  show s'.KeepsBest (winners ++ (electedWinner env ext nBlockHeight).toList.map (CMasternodePaymentWinner.scored env))
  cases helected : electedWinner env ext nBlockHeight with
  | none =>
    rw [Option.toList_none, List.map_nil, List.append_nil]
    rcases processBlock_of_none (s := s) helected with hrun | ⟨-, hrun⟩
    · exact (Prod.mk.inj (hrun.symm.trans hr)).2 ▸ hs
    · exact nomatch (Prod.mk.inj (hrun.symm.trans hr)).1
  | some winner =>
    obtain ⟨added, t, hadd, ht⟩ := hs.add env winner
    rw [processBlock_of_some helected] at hr
    rw [Option.toList_some, List.map_singleton]
    exact (Prod.mk.inj (hadd.symm.trans hr)).2 ▸ ht

theorem PaymentsRun.keepsBest (hrun : PaymentsRun env (HidesNoWinner env) winners s) : s.KeepsBest winners := by
  induction hrun with
  | start => exact .empty
  | step step _ hhides hreturns ih =>
    cases step with
    | mnw ext winner =>
      obtain ⟨actions, hr⟩ := hreturns
      exact ih.mnw hhides hr
    | block ext nBlockHeight =>
      obtain ⟨elected, hr⟩ := hreturns
      exact ih.block hr

theorem electedWinner_height (hsome : electedWinner env ext nBlockHeight = some winner) :
    winner.nBlockHeight = nBlockHeight := by
  unfold electedWinner at hsome
  split at hsome
  · cases hsome
  · obtain ⟨mn, -, rfl⟩ := Option.map_eq_some_iff.mp hsome
    rfl

theorem getWinningMasternode_of_none (hnone : electedWinner env ext nBlockHeight = none) :
    getWinningMasternode env ext nBlockHeight s = (.ok none, s) := by
  unfold getWinningMasternode
  by_cases hinitial : ext.fInitialBlockDownload = true
  · rw [if_pos hinitial]
    rfl
  by_cases hcurrent : ext.getCurrentMasterNode.isNone = true
  · rw [if_neg hinitial, if_pos hcurrent]
    rfl
  have hblock := (processBlock_of_none (s := s) hnone).resolve_right fun h =>
    hcurrent (Option.isNone_iff_eq_none.mpr h.1)
  rw [if_neg hinitial, if_neg hcurrent, Exec.bind_of_ok hblock]
  rfl

theorem getWinningMasternode_of_some (hsome : electedWinner env ext nBlockHeight = some winner) {added : Bool}
    (hadd : addWinningMasternode env winner s = (.ok added, s')) : getWinningMasternode env ext nBlockHeight s
      = (.ok (if added then s'.vWinning.getLast?.map fun winner => (winner.payee, winner.vin) else none), s') := by
  have hopen : ¬ ext.fInitialBlockDownload = true ∧ ¬ ext.getCurrentMasterNode.isNone = true := by
    unfold electedWinner at hsome
    split at hsome
    · cases hsome
    · next hopen =>
      obtain ⟨mn, hcurrent, -⟩ := Option.map_eq_some_iff.mp hsome
      refine ⟨fun h => hopen (Or.inr (Or.inl h)), ?_⟩
      rw [hcurrent]
      simp
  have hblock := (processBlock_of_some (s := s) hsome).trans hadd
  unfold getWinningMasternode
  rw [if_neg hopen.1, if_neg hopen.2, Exec.bind_of_ok hblock]
  cases added <;> rfl

theorem lookUpWinner_repeated (hs : HeightsNodup s.vWinning) (hsome : electedWinner env ext nBlockHeight = some winner)
    {kept : CMasternodePaymentWinner} (hentry : s.entry nBlockHeight = some kept)
    (hscore : (winner.scored env).score ≤ kept.score) : (getWinningMasternode env ext nBlockHeight s).1 = .ok none := by
  rcases addWinningMasternode_entry env winner hs with ⟨-, -, -, hadd⟩ | ⟨s', -, -, hlower, -⟩
  · rw [getWinningMasternode_of_some hsome hadd]
    rfl
  · rw [electedWinner_height hsome] at hlower
    exact absurd hscore (not_le.mpr (hlower kept hentry))

theorem looksUpWinner_iff (hs : HeightsNodup s.vWinning) :
    LooksUpWinner env ext s nBlockHeight ↔ s.entry nBlockHeight = none ∧ electedWinner env ext nBlockHeight = none := by
  cases helected : electedWinner env ext nBlockHeight with
  | none =>
    have hcall := getWinningMasternode_of_none (s := s) helected
    constructor
    · rintro ⟨result, s', hr, hentry, -⟩
      obtain ⟨hresult, rfl⟩ := Prod.mk.inj (hcall.symm.trans hr)
      rw [← Except.ok.inj hresult] at hentry
      exact ⟨Option.map_eq_none_iff.mp hentry.symm, rfl⟩
    · rintro ⟨hnone, -⟩
      refine ⟨none, s, hcall, ?_, ?_⟩
      · rw [hnone]
        rfl
      · rw [hcall]
  | some winner =>
    refine iff_of_false ?_ fun h => nomatch h.2
    rintro ⟨result, s', hr, hentry, hagain⟩
    have hheight := electedWinner_height helected
    rcases addWinningMasternode_entry env winner hs with ⟨old, hold, -, hadd⟩
      | ⟨t, hadd, ht, -, hentries⟩
    · -- the winner there is stays, and the call returns false
      rw [getWinningMasternode_of_some helected hadd] at hr
      obtain ⟨hresult, rfl⟩ := Prod.mk.inj hr
      rw [← Except.ok.inj hresult, ← hheight, hold] at hentry
      exact nomatch hentry
    · rw [getWinningMasternode_of_some helected hadd] at hr
      obtain ⟨-, rfl⟩ := Prod.mk.inj hr
      have hnew := hentries nBlockHeight
      rw [if_pos hheight.symm] at hnew
      rw [lookUpWinner_repeated ht helected hnew le_rfl] at hagain
      rw [← Except.ok.inj hagain, hnew] at hentry
      exact nomatch hentry

/-- **Winners.** Along every run in which no seen hash hides a better winner the node keeps the best winner of every height;
and the call for a height is right, and repeatable, exactly where there is no winner and none is elected. -/
theorem winners_kept_and_looked_up (env : PaymentsEnv) (winners : List CMasternodePaymentWinner) (s : MasternodePayments)
    (hrun : PaymentsRun env (HidesNoWinner env) winners s) :
    s.KeepsBest winners ∧ ∀ (ext : PaymentsExt) (nBlockHeight : Int),
      LooksUpWinner env ext s nBlockHeight ↔ s.entry nBlockHeight = none ∧ electedWinner env ext nBlockHeight = none :=
  ⟨hrun.keepsBest, fun _ _ => looksUpWinner_iff hrun.keepsBest.heights⟩

namespace Sample

def paymentsEnv : PaymentsEnv := ⟨fun _ => 0, fun n => n, fun _ => true, fun _ => []⟩

def paymentsExt : PaymentsExt where
  fBlockchainSynced := true
  fInitialBlockDownload := false
  pindexBest := some 100
  getBlockHash _ := some 7
  getCurrentMasterNode := some ⟨masternodeIn 21, [1]⟩
  nVersion := 62032

/-- The winner for the next height is elected once, and then there is none. -/
theorem second_call_fails : ¬ ∀ (env : PaymentsEnv) (winners : List CMasternodePaymentWinner) (s : MasternodePayments),
    PaymentsRun env (fun _ _ _ => True) winners s →
      s.KeepsBest winners ∧ ∀ (ext : PaymentsExt) (nBlockHeight : Int), LooksUpWinner env ext s nBlockHeight := by
  intro hall
  obtain ⟨-, hcalls⟩ := hall paymentsEnv [] .empty .start
  have hempty : HeightsNodup MasternodePayments.empty.vWinning := List.nodup_nil
  obtain ⟨-, hnone⟩ := (looksUpWinner_iff hempty).mp (hcalls paymentsExt 101)
  exact nomatch hnone

def sampleWinner (k : Nat) : CMasternodePaymentWinner := ⟨101, masternodeIn k, [2], [], 0⟩

def winnersState (k : Nat) : MasternodePayments :=
  ([20, 30].take k).foldl (fun s i => (processWinner paymentsEnv paymentsExt (sampleWinner i) s).2) .empty

theorem better_winner_kept : (winnersState 2).KeepsBest
      [(sampleWinner 20).scored paymentsEnv, (sampleWinner 30).scored paymentsEnv]
    ∧ LooksUpWinner paymentsEnv paymentsExt (winnersState 2) 5 := by
  have hfirst : processWinner paymentsEnv paymentsExt (sampleWinner 20) (winnersState 0)
      = (.ok [.relay 20], winnersState 1) := Exec.eq_of_fst (by decide)
  have hsecond : processWinner paymentsEnv paymentsExt (sampleWinner 30) (winnersState 1)
      = (.ok [.relay 30], winnersState 2) := Exec.eq_of_fst (by decide)
  have hrun₁ : PaymentsRun paymentsEnv (HidesNoWinner paymentsEnv) [(sampleWinner 20).scored paymentsEnv]
      (winnersState 1) :=
    .step (.mnw paymentsExt (sampleWinner 20)) .start (fun _ hseen => absurd hseen (by decide)) ⟨_, hfirst⟩
  have hrun₂ : PaymentsRun paymentsEnv (HidesNoWinner paymentsEnv)
      [(sampleWinner 20).scored paymentsEnv, (sampleWinner 30).scored paymentsEnv] (winnersState 2) :=
    .step (.mnw paymentsExt (sampleWinner 30)) hrun₁ (fun _ hseen => absurd hseen (by decide)) ⟨_, hsecond⟩
  obtain ⟨hkeeps, hcalls⟩ := winners_kept_and_looked_up paymentsEnv _ (winnersState 2) hrun₂
  exact ⟨hkeeps, (hcalls paymentsExt 5).mpr ⟨by decide, by decide⟩⟩

end Sample

end PupaCoin
