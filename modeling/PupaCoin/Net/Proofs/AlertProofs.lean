import PupaCoin.Net.Alert

/-!
# Alerts with the largest id

`ProcessAlert` either leaves the stored alerts alone or removes what the new alert cancels and what has expired, and
then stores the new one unless a stored one cancels it. No stored alert is therefore cancelled by another one.
-/

namespace PupaCoin

variable {r : Except String Bool} {P : MapAlerts → AlertCall → Prop} {calls : List (AlertCall × Bool)}

open CAlert

variable {env : AlertEnv} {now : Int} {alert stored : CAlert} {mapAlerts mapAlerts' : MapAlerts} {call : AlertCall}
  {h : UInt256}

theorem mem_entries_iff {item : Sigma fun _ : UInt256 => CAlert} :
    item ∈ mapAlerts.entries ↔ mapAlerts.lookup item.1 = some item.2 :=
  (AList.mem_lookup_iff (s := mapAlerts) (a := item.1) (b := item.2)).symm

theorem lookup_foldl_eraseIf (p : (Sigma fun _ : UInt256 => CAlert) → Bool) (items : List (Sigma fun _ => CAlert))
    (rest : MapAlerts) : (items.foldl (fun rest item => if p item then rest.erase item.1 else rest) rest).lookup h
      = some stored ↔ rest.lookup h = some stored ∧ ∀ item ∈ items, p item = true → item.1 ≠ h := by
  induction items generalizing rest with
  | nil => simp
  | cons item items ih =>
    rw [List.foldl_cons, ih, List.forall_mem_cons]
    cases hp : p item with
    | false =>
      rw [if_neg Bool.false_ne_true]
      exact ⟨fun ⟨hrest, hitems⟩ => ⟨hrest, nofun, hitems⟩, fun ⟨hrest, _, hitems⟩ => ⟨hrest, hitems⟩⟩
    | true =>
      rw [if_pos rfl]
      by_cases heq : h = item.1
      · rw [heq, AList.lookup_erase]
        constructor
        · rintro ⟨hnone, -⟩
          cases hnone
        · rintro ⟨-, hne, -⟩
          exact absurd rfl (hne rfl)
      · rw [AList.lookup_erase_ne heq]
        have hne : item.1 ≠ h := fun h' => heq h'.symm
        exact ⟨fun ⟨hrest, hitems⟩ => ⟨hrest, fun _ => hne, hitems⟩, fun ⟨hrest, _, hitems⟩ => ⟨hrest, hitems⟩⟩

theorem lookup_cancelPrevious : (cancelPrevious now alert mapAlerts).lookup h = some stored ↔
    mapAlerts.lookup h = some stored ∧ alert.cancels now stored = false ∧ stored.isInEffect now = true := by
  unfold cancelPrevious
  rw [lookup_foldl_eraseIf fun item => alert.cancels now item.2 || !item.2.isInEffect now]
  refine and_congr_right fun hlookup => ?_
  constructor
  · intro hkept
    have hpass := mt (hkept ⟨h, stored⟩ (mem_entries_iff.mpr hlookup)) (not_not.mpr rfl)
    simpa using hpass
  · rintro ⟨hcancels, heffect⟩ item hitem hp rfl
    have hsame : item.2 = stored := Option.some.inj ((mem_entries_iff.mp hitem).symm.trans hlookup)
    rw [hsame, hcancels, heffect] at hp
    cases hp

theorem lookup_insertAlert (hlookup : (insertAlert env alert mapAlerts).lookup h = some stored) :
    mapAlerts.lookup h = some stored ∨ h = alert.getHash env ∧ stored = alert := by
  unfold insertAlert at hlookup
  split at hlookup
  · exact Or.inl hlookup
  · by_cases heq : h = alert.getHash env
    · rw [heq, AList.lookup_insert, Option.some.injEq] at hlookup
      exact Or.inr ⟨heq, hlookup.symm⟩
    · rw [AList.lookup_insert_ne heq] at hlookup
      exact Or.inl hlookup

theorem lookup_insertAlert_of_some (hlookup : mapAlerts.lookup h = some stored) :
    (insertAlert env alert mapAlerts).lookup h = some stored := by
  unfold insertAlert
  split
  · exact hlookup
  · rename_i hnew
    have hne : h ≠ alert.getHash env := by
      rintro rfl
      exact hnew (AList.lookup_isSome.mp (by rw [hlookup]; rfl))
    rw [AList.lookup_insert_ne hne]
    exact hlookup

theorem lookup_insertAlert_self (hnone : mapAlerts.lookup (alert.getHash env) = none) :
    (insertAlert env alert mapAlerts).lookup (alert.getHash env) = some alert := by
  unfold insertAlert
  rw [if_neg (AList.lookup_eq_none.mp hnone), AList.lookup_insert]

theorem processAlert_of_refused (hsigned : checkSignature env call = .ok (some alert))
    (hrefused : ¬ call.Admits env alert) : processAlert env call mapAlerts = (.ok false, mapAlerts) := by
  unfold processAlert
  rw [hsigned, Exec.bind_of_ok (Exec.lift_apply _ _)]
  cases heffect : alert.isInEffect call.now with
  | false =>
    simp only [heffect, Bool.not_false, if_true]
    rfl
  | true =>
    have hpredefined : (alert.nID == maxInt && !alert.isPredefined) = true := by
      by_contra hpasses
      refine hrefused ⟨hsigned, heffect, ?_⟩
      intro hid
      simpa [hid] using hpasses
    simp only [heffect, hpredefined, Bool.not_true, Bool.false_eq_true, if_false, if_true]
    rfl

theorem processAlert_of_admits (hadmits : call.Admits env alert) : processAlert env call mapAlerts =
    if (cancelPrevious call.now alert mapAlerts).entries.any fun item => item.2.cancels call.now alert then
      (.ok false, cancelPrevious call.now alert mapAlerts)
    else (.ok true, insertAlert env alert (cancelPrevious call.now alert mapAlerts)) := by
  unfold processAlert
  rw [hadmits.signed, Exec.bind_of_ok (Exec.lift_apply _ _)]
  have hpredefined : (alert.nID == maxInt && !alert.isPredefined) = false := by
    by_contra hfails
    obtain ⟨hid, hnot⟩ := (Bool.and_eq_true _ _).mp (Bool.not_eq_false _ ▸ hfails)
    rw [hadmits.predefined (beq_iff_eq.mp hid)] at hnot
    cases hnot
  simp only [hadmits.inEffect, hpredefined, Bool.not_true, Bool.false_eq_true, if_false]
  rw [Exec.update_bind, Exec.read_bind]
  split
  · rfl
  · rfl

/-- What a call can do. -/
inductive AlertEffect (env : AlertEnv) (call : AlertCall) (mapAlerts : MapAlerts) :
    Except String Bool → MapAlerts → Prop
  | ignored {r : Except String Bool} : r.toOption ≠ some true → AlertEffect env call mapAlerts r mapAlerts
  | cancelled (alert : CAlert) : call.Admits env alert →
      (∃ h stored, (cancelPrevious call.now alert mapAlerts).lookup h = some stored ∧
        stored.cancels call.now alert = true) →
      AlertEffect env call mapAlerts (.ok false) (cancelPrevious call.now alert mapAlerts)
  | accepted (alert : CAlert) : call.Admits env alert →
      (∀ h stored, (cancelPrevious call.now alert mapAlerts).lookup h = some stored →
        stored.cancels call.now alert = false) →
      AlertEffect env call mapAlerts (.ok true)
        (insertAlert env alert (cancelPrevious call.now alert mapAlerts))

theorem processAlert_effect (hcall : processAlert env call mapAlerts = (r, mapAlerts')) :
    AlertEffect env call mapAlerts r mapAlerts' := by
  cases hsigned : checkSignature env call with
  | error e =>
    unfold processAlert at hcall
    rw [hsigned, Exec.bind_of_error (Exec.lift_apply _ _)] at hcall
    obtain ⟨rfl, rfl⟩ := Prod.mk.inj hcall
    exact .ignored nofun
  | ok result =>
    cases result with
    | none =>
      unfold processAlert at hcall
      rw [hsigned, Exec.bind_of_ok (Exec.lift_apply _ _)] at hcall
      obtain ⟨rfl, rfl⟩ := Prod.mk.inj hcall
      exact .ignored (by decide)
    | some alert =>
      by_cases hadmits : call.Admits env alert
      · rw [processAlert_of_admits hadmits] at hcall
        split at hcall
        · rename_i hany
          obtain ⟨rfl, rfl⟩ := Prod.mk.inj hcall
          obtain ⟨item, hitem, hcancels⟩ := List.any_eq_true.mp hany
          exact .cancelled alert hadmits ⟨item.1, item.2, mem_entries_iff.mp hitem, hcancels⟩
        · rename_i hnone
          obtain ⟨rfl, rfl⟩ := Prod.mk.inj hcall
          refine .accepted alert hadmits ?_
          intro h stored hstored
          by_contra hcancels
          refine hnone (List.any_eq_true.mpr ⟨⟨h, stored⟩, mem_entries_iff.mpr hstored, ?_⟩)
          exact Bool.not_eq_false _ ▸ hcancels
      · rw [processAlert_of_refused hsigned hadmits] at hcall
        obtain ⟨rfl, rfl⟩ := Prod.mk.inj hcall
        exact .ignored (by decide)

theorem noneCancelled_call (hnone : NoneCancelled mapAlerts)
    (hcall : processAlert env call mapAlerts = (r, mapAlerts')) : NoneCancelled mapAlerts' := by
  have hcleaned : ∀ alert, NoneCancelled (cancelPrevious call.now alert mapAlerts) := by
    intro alert h f h' g hf hg hne
    exact hnone h f h' g (lookup_cancelPrevious.mp hf).1 (lookup_cancelPrevious.mp hg).1 hne
  cases processAlert_effect hcall with
  | ignored _ => exact hnone
  | cancelled alert _ _ => exact hcleaned alert
  | accepted alert hadmits hspared =>
    intro h f h' g hf hg hne
    rcases lookup_insertAlert hf with hf | ⟨rfl, rfl⟩
    · rcases lookup_insertAlert hg with hg | ⟨rfl, rfl⟩
      · exact hcleaned alert h f h' g hf hg hne
      · have hcancels := (lookup_cancelPrevious.mp hf).2.1
        rw [cancels, hadmits.inEffect, Bool.true_and] at hcancels
        exact hcancels
    · rcases lookup_insertAlert hg with hg | ⟨rfl, rfl⟩
      · have hcancels := hspared h' g hg
        rw [cancels, (lookup_cancelPrevious.mp hg).2.2, Bool.true_and] at hcancels
        exact hcancels
      · exact absurd rfl hne

theorem noneCancelled_run (hrun : AlertRun env P calls mapAlerts) : NoneCancelled mapAlerts := by
  induction hrun with
  | start =>
    intro h f h' g hf
    cases hf
  | process call _ _ hcall ih => exact noneCancelled_call ih hcall

/-- A stored alert is what its message says, under the hash of the message, and is one of those that were sent. -/
structure AlertsFit (env : AlertEnv) (calls : List (AlertCall × Bool)) (mapAlerts : MapAlerts) : Prop where
  hash : ∀ h stored, mapAlerts.lookup h = some stored → h = stored.getHash env
  sent : ∀ h stored, mapAlerts.lookup h = some stored → stored.vchMsg ∈ alertMessages calls
  decoded : ∀ h stored, mapAlerts.lookup h = some stored →
    (CUnsignedAlert.unserialize stored.vchMsg).1 = .ok stored.toCUnsignedAlert
  predefined : ∀ h stored, mapAlerts.lookup h = some stored → stored.nID = maxInt → stored.isPredefined = true

theorem checkSignature_decoded (hsigned : checkSignature env call = .ok (some alert)) :
    alert.vchMsg = call.vchMsg ∧ (CUnsignedAlert.unserialize alert.vchMsg).1 = .ok alert.toCUnsignedAlert := by
  unfold checkSignature at hsigned
  split at hsigned
  · cases hsigned
  · cases hread : (CUnsignedAlert.unserialize call.vchMsg).1 with
    | error e =>
      rw [hread] at hsigned
      cases hsigned
    | ok fields =>
      rw [hread] at hsigned
      cases hsigned
      exact ⟨rfl, hread⟩

theorem isPredefined_fields (h : alert.isPredefined = true) :
    alert.nExpiration = maxInt ∧ alert.nCancel = maxInt - 1 := by
  simp only [isPredefined, Bool.and_eq_true, beq_iff_eq] at h
  exact ⟨h.1.1.1.1.1.1, h.1.1.1.1.1.2⟩

theorem AlertsFit.process {accepted : Bool} (hfit : AlertsFit env calls mapAlerts)
    (hcall : processAlert env call mapAlerts = (r, mapAlerts')) :
    AlertsFit env (calls ++ [(call, accepted)]) mapAlerts' := by
  have hsent : ∀ msg, msg ∈ alertMessages calls → msg ∈ alertMessages (calls ++ [(call, accepted)]) := by
    rintro msg ⟨c, hc, hmsg⟩
    exact ⟨c, List.mem_append_left _ hc, hmsg⟩
  have hentries : ∀ h stored, mapAlerts'.lookup h = some stored →
      mapAlerts.lookup h = some stored ∨ h = stored.getHash env ∧ call.Admits env stored := by
    intro h stored hstored
    cases processAlert_effect hcall with
    | ignored _ => exact Or.inl hstored
    | cancelled alert _ _ => exact Or.inl (lookup_cancelPrevious.mp hstored).1
    | accepted alert hadmits _ =>
      rcases lookup_insertAlert hstored with hold | ⟨rfl, rfl⟩
      · exact Or.inl (lookup_cancelPrevious.mp hold).1
      · exact Or.inr ⟨rfl, hadmits⟩
  constructor
  · intro h stored hstored
    rcases hentries h stored hstored with hold | ⟨hnew, -⟩
    · exact hfit.hash h stored hold
    · exact hnew
  · intro h stored hstored
    rcases hentries h stored hstored with hold | ⟨-, hadmits⟩
    · exact hsent _ (hfit.sent h stored hold)
    · rw [(checkSignature_decoded hadmits.signed).1]
      exact ⟨(call, accepted), by simp, rfl⟩
  · intro h stored hstored
    rcases hentries h stored hstored with hold | ⟨-, hadmits⟩
    · exact hfit.decoded h stored hold
    · exact (checkSignature_decoded hadmits.signed).2
  · intro h stored hstored
    rcases hentries h stored hstored with hold | ⟨-, hadmits⟩
    · exact hfit.predefined h stored hold
    · exact hadmits.predefined

theorem alertsFit_run (hrun : AlertRun env P calls mapAlerts) : AlertsFit env calls mapAlerts := by
  induction hrun with
  | start => constructor <;> (intro h stored hstored; cases hstored)
  | process call _ _ hcall ih => exact ih.process hcall

theorem AlertsFit.same (hfit : AlertsFit env calls mapAlerts)
    (hinj : Set.InjOn env.hash (insert call.vchMsg (alertMessages calls)))
    (hsigned : checkSignature env call = .ok (some alert))
    (hstored : mapAlerts.lookup (alert.getHash env) = some stored) :
    stored.toCUnsignedAlert = alert.toCUnsignedAlert := by
  obtain ⟨hmsg, hdecoded⟩ := checkSignature_decoded hsigned
  have hnew : alert.vchMsg ∈ insert call.vchMsg (alertMessages calls) := by
    rw [hmsg]
    exact Set.mem_insert _ _
  have hold : stored.vchMsg ∈ insert call.vchMsg (alertMessages calls) :=
    Set.mem_insert_of_mem _ (hfit.sent _ _ hstored)
  have hvch : alert.vchMsg = stored.vchMsg := hinj hnew hold (hfit.hash _ _ hstored)
  have hread := hfit.decoded _ _ hstored
  rw [← hvch, hdecoded] at hread
  exact (Except.ok.inj hread).symm

theorem final_stays (hfit : AlertsFit env calls mapAlerts) (hnone : NoneCancelled mapAlerts)
    (hinj : Set.InjOn env.hash (insert call.vchMsg (alertMessages calls))) (hspares : SparesFinal env mapAlerts call)
    (hcall : processAlert env call mapAlerts = (r, mapAlerts')) (hstored : mapAlerts.lookup h = some stored)
    (hid : stored.nID = maxInt) :
    (∃ kept, mapAlerts'.lookup h = some kept ∧ kept.toCUnsignedAlert = stored.toCUnsignedAlert) ∧
      ∀ other, call.Admits env other → r = .ok true → maxInt ≤ other.nID := by
  obtain ⟨hexpires, hcancel⟩ := isPredefined_fields (hfit.predefined h stored hstored hid)
  have hinEffect : stored.isInEffect call.now = true := by
    rw [isInEffect, hexpires]
    exact decide_eq_true hspares.before
  -- the new alert either spares the stored one or is another copy of it
  have hcases : ∀ alert, call.Admits env alert → (cancelPrevious call.now alert mapAlerts).lookup h = some stored ∨
        h = alert.getHash env ∧ stored.toCUnsignedAlert = alert.toCUnsignedAlert := by
    intro alert hadmits
    by_cases hh : h = alert.getHash env
    · subst hh
      exact Or.inr ⟨rfl, hfit.same hinj hadmits.signed hstored⟩
    · left
      refine lookup_cancelPrevious.mpr ⟨hstored, ?_, hinEffect⟩
      rw [cancels, hid, hspares.spares alert hadmits h stored hstored hid hh, Bool.and_false]
  cases processAlert_effect hcall with
  | ignored hr =>
    refine ⟨⟨stored, hstored, rfl⟩, ?_⟩
    rintro other - rfl
    exact absurd rfl hr
  | cancelled alert hadmits hcancelled =>
    refine ⟨?_, fun other _ hr => nomatch hr⟩
    rcases hcases alert hadmits with hkept | ⟨rfl, hsame⟩
    · exact ⟨stored, hkept, rfl⟩
    · -- a stored alert that cancels the copy would cancel the one that is stored
      obtain ⟨h', other, hother, hcancels⟩ := hcancelled
      by_cases hh : alert.getHash env = h'
      · subst hh
        have heq : other = stored := Option.some.inj ((lookup_cancelPrevious.mp hother).1.symm.trans hstored)
        rw [heq] at hother
        exact ⟨stored, hother, rfl⟩
      · have hspared := hnone _ _ _ _ hstored (lookup_cancelPrevious.mp hother).1 hh
        have hnID : alert.nID = stored.nID := by rw [hsame]
        rw [cancels, hnID, hspared, Bool.and_false] at hcancels
        cases hcancels
  | accepted alert hadmits hspared =>
    rcases hcases alert hadmits with hkept | ⟨rfl, hsame⟩
    · refine ⟨⟨stored, lookup_insertAlert_of_some hkept, rfl⟩, ?_⟩
      intro other hother _
      have heq : other = alert := Option.some.inj (Except.ok.inj (hother.signed.symm.trans hadmits.signed))
      have hcancels := hspared h stored hkept
      rw [cancels, hinEffect, Bool.true_and, cancelsId, hcancel, Bool.or_eq_false_iff,
        decide_eq_false_iff_not] at hcancels
      rw [heq]
      omega
    · have hnID : alert.nID = maxInt := by rw [← hid, hsame]
      constructor
      · cases hcopy : (cancelPrevious call.now alert mapAlerts).lookup (alert.getHash env) with
        | none => exact ⟨alert, lookup_insertAlert_self hcopy, hsame.symm⟩
        | some copy =>
          have heq : copy = stored := Option.some.inj ((lookup_cancelPrevious.mp hcopy).1.symm.trans hstored)
          exact ⟨copy, lookup_insertAlert_of_some hcopy, by rw [heq]⟩
      · intro other hother _
        have heq : other = alert := Option.some.inj (Except.ok.inj (hother.signed.symm.trans hadmits.signed))
        rw [heq, hnID]

theorem final_accepted (hfit : AlertsFit env calls mapAlerts)
    (hinj : Set.InjOn env.hash (insert call.vchMsg (alertMessages calls)))
    (hcall : processAlert env call mapAlerts = (.ok true, mapAlerts'))
    (hsigned : checkSignature env call = .ok (some alert)) (hid : alert.nID = maxInt) :
    HoldsAlert env mapAlerts' alert ∧ ∀ h stored, mapAlerts'.lookup h = some stored → maxInt ≤ stored.nID := by
  cases processAlert_effect hcall with
  | ignored hr => exact absurd rfl hr
  | accepted alert' hadmits _ =>
    obtain rfl : alert' = alert := Option.some.inj (Except.ok.inj (hadmits.signed.symm.trans hsigned))
    constructor
    · cases hcopy : (cancelPrevious call.now alert' mapAlerts).lookup (alert'.getHash env) with
      | none => exact ⟨alert', lookup_insertAlert_self hcopy, rfl⟩
      | some copy =>
        have hsame := hfit.same hinj hsigned (lookup_cancelPrevious.mp hcopy).1
        exact ⟨copy, lookup_insertAlert_of_some hcopy, hsame⟩
    · intro h stored hstored
      rcases lookup_insertAlert hstored with hold | ⟨-, rfl⟩
      · obtain ⟨-, hcancels, -⟩ := lookup_cancelPrevious.mp hold
        rw [cancels, hadmits.inEffect, Bool.true_and, cancelsId,
          (isPredefined_fields (hadmits.predefined hid)).2, Bool.or_eq_false_iff,
          decide_eq_false_iff_not] at hcancels
        omega
      · exact hid.ge

theorem eq_ok_of_accepted (haccepted : decide (r.toOption = some true) = true) : r = .ok true := by
  match r, of_decide_eq_true haccepted with
  | .ok true, _ => rfl

/-- **The alert with the largest id cannot be overridden** while no alert that cancels its id gets to it: it is kept
    from when it was accepted, with no smaller id beside it or accepted later; and no stored alert is cancelled by
    another one. -/
theorem finalKept_run {calls : List (AlertCall × Bool)} (hinj : Set.InjOn env.hash (alertMessages calls))
    (hrun : AlertRun env (SparesFinal env) calls mapAlerts) :
    FinalKept env calls mapAlerts ∧ NoneCancelled mapAlerts := by
  refine ⟨?_, noneCancelled_run hrun⟩
  induction hrun with
  | start =>
    intro pre call post alert hsplit
    exact absurd hsplit.symm (by simp)
  | @process calls mapAlerts mapAlerts' r call hrun hspares hcall ih =>
    have hinj' : Set.InjOn env.hash (insert call.vchMsg (alertMessages calls)) := by
      refine hinj.mono ?_
      rintro msg (rfl | ⟨c, hc, rfl⟩)
      · exact ⟨_, List.mem_append_right _ (List.mem_singleton.mpr rfl), rfl⟩
      · exact ⟨c, List.mem_append_left _ hc, rfl⟩
    have hkept := ih (hinj'.mono (Set.subset_insert _ _))
    have hfit := alertsFit_run hrun
    intro pre c post alert hsplit hsigned hid
    rcases List.eq_nil_or_concat post with rfl | ⟨post', last, rfl⟩
    · -- the alert was accepted by this call
      obtain ⟨-, hlast⟩ := List.append_inj' hsplit rfl
      obtain ⟨rfl, haccepted⟩ := Prod.mk.inj (List.singleton_inj.mp hlast)
      obtain rfl := eq_ok_of_accepted haccepted
      obtain ⟨hholds, hleast⟩ := final_accepted hfit hinj' hcall hsigned hid
      exact ⟨hholds, hleast, fun later other hlater => nomatch hlater⟩
    · have hsplit' : calls ++ [(call, decide (r.toOption = some true))]
          = (pre ++ (c, true) :: post') ++ [last] := by
        rw [hsplit]
        simp
      obtain ⟨hcalls, hlast⟩ := List.append_inj' hsplit' rfl
      obtain ⟨⟨stored, hstored, hsame⟩, hleast, hlater⟩ := hkept pre c post' alert hcalls hsigned hid
      have hstoredId : stored.nID = maxInt := by
        rw [← hid, hsame]
      obtain ⟨⟨kept, hkeptLookup, hkeptSame⟩, haccepts⟩ :=
        final_stays hfit (noneCancelled_run hrun) hinj' hspares hcall hstored hstoredId
      refine ⟨⟨kept, hkeptLookup, hkeptSame.trans hsame⟩, ?_, ?_⟩
      · intro h other hother
        cases processAlert_effect hcall with
        | ignored _ => exact hleast h other hother
        | cancelled _ _ _ => exact hleast h other (lookup_cancelPrevious.mp hother).1
        | accepted new hadmits _ =>
          rcases lookup_insertAlert hother with hold | ⟨-, rfl⟩
          · exact hleast h other (lookup_cancelPrevious.mp hold).1
          · exact haccepts other hadmits rfl
      · intro later other hmem hother
        rw [List.concat_eq_append] at hmem
        rcases List.mem_append.mp hmem with hmem | hmem
        · exact hlater later other hmem hother
        · rw [← List.singleton_inj.mp hlast] at hmem
          obtain ⟨rfl, haccepted⟩ := Prod.mk.inj (List.mem_singleton.mp hmem)
          obtain rfl := eq_ok_of_accepted haccepted.symm
          cases processAlert_effect hcall with
          | ignored hr => exact absurd rfl hr
          | accepted new hadmits _ =>
            obtain rfl : new = other := Option.some.inj (Except.ok.inj (hadmits.signed.symm.trans hother))
            exact haccepts new hadmits rfl

namespace CompromisedKey

def finalAlert : CUnsignedAlert where
  nVersion := 1
  nRelayUntil := 0
  nExpiration := maxInt
  nID := maxInt
  nCancel := maxInt - 1
  setCancel := []
  nMinVer := 0
  nMaxVer := maxInt
  setSubVer := []
  nPriority := maxInt
  strComment := []
  strStatusBar := compromisedText
  strReserved := []

/-- An ordinary alert that cancels all ids up to a bound. -/
def cancelling (nCancel : Int) : CUnsignedAlert :=
  { finalAlert with nID := 5, nCancel, strStatusBar := [] }

/-- Every signature is good, and messages of a different length have different hashes. -/
def lengthEnv : AlertEnv where
  verify _ _ := true
  hash msg := BitVec.ofNat 256 msg.length

def finalCall : AlertCall := ⟨1000, finalAlert.serialize, []⟩

def cancelCall : AlertCall := ⟨1000, (cancelling maxInt).serialize, []⟩

def laterCall : AlertCall := ⟨1000, (cancelling 4).serialize, []⟩

def sent (alert : CUnsignedAlert) : CAlert := { alert with vchMsg := alert.serialize, vchSig := [] }

def finalStored : MapAlerts := AList.insert ((sent finalAlert).getHash lengthEnv) (sent finalAlert) ∅

theorem finalCall_accepted : processAlert lengthEnv finalCall ∅ = (.ok true, finalStored) :=
  Prod.ext (by decide) (AList.ext (by decide))

theorem finalCall_signed : checkSignature lengthEnv finalCall = .ok (some (sent finalAlert)) := by
  decide

theorem laterCall_signed : checkSignature lengthEnv laterCall = .ok (some (sent (cancelling 4))) := by
  decide

theorem finalCall_spares : SparesFinal lengthEnv ∅ finalCall where
  before := by decide
  spares alert _ h stored hstored := by cases hstored

theorem laterCall_spares : SparesFinal lengthEnv finalStored laterCall where
  before := by decide
  spares alert hadmits _ _ _ _ _ := by
    obtain rfl := Option.some.inj (Except.ok.inj (laterCall_signed.symm.trans hadmits.signed))
    decide

end CompromisedKey

open CompromisedKey in
theorem finalKept_run_later : HoldsAlert lengthEnv finalStored (sent finalAlert) := by
  have hlater : processAlert lengthEnv laterCall finalStored = (.ok false, finalStored) :=
    Prod.ext (by decide) (AList.ext (by decide))
  have hrun : AlertRun lengthEnv (SparesFinal lengthEnv) [(finalCall, true), (laterCall, false)] finalStored :=
    .process laterCall (.process finalCall .start finalCall_spares finalCall_accepted) laterCall_spares hlater
  have hinj : Set.InjOn lengthEnv.hash (alertMessages [(finalCall, true), (laterCall, false)]) := by
    rintro a ⟨c, hc, rfl⟩ b ⟨d, hd, rfl⟩ hhash
    simp only [List.mem_cons, List.not_mem_nil, or_false] at hc hd
    rcases hc with rfl | rfl
    · rcases hd with rfl | rfl
      · rfl
      · exact absurd hhash (by decide)
    · rcases hd with rfl | rfl
      · exact absurd hhash (by decide)
      · rfl
  exact ((finalKept_run hinj hrun).1 [] finalCall [(laterCall, false)] _ rfl finalCall_signed rfl).1

open CompromisedKey in
/-- An alert that cancels the largest id takes the place of the alert for a compromised key. -/
theorem final_overridden : ∃ mapAlerts,
    AlertRun lengthEnv (fun _ call => call.now < maxInt) [(finalCall, true), (cancelCall, true)] mapAlerts ∧
      ¬ FinalKept lengthEnv [(finalCall, true), (cancelCall, true)] mapAlerts := by
  have hcancel : processAlert lengthEnv cancelCall finalStored =
      (.ok true, AList.insert ((sent (cancelling maxInt)).getHash lengthEnv) (sent (cancelling maxInt)) ∅) :=
    Prod.ext (by decide) (AList.ext (by decide))
  refine ⟨_, .process cancelCall (.process finalCall .start (by decide) finalCall_accepted) (by decide) hcancel, ?_⟩
  intro hkept
  obtain ⟨⟨stored, hstored, -⟩, -⟩ := hkept [] finalCall [(cancelCall, true)] _ rfl finalCall_signed rfl
  have hgone : AList.lookup ((sent finalAlert).getHash lengthEnv)
      (AList.insert ((sent (cancelling maxInt)).getHash lengthEnv) (sent (cancelling maxInt)) (∅ : MapAlerts))
        = none := by
    decide
  rw [hgone] at hstored
  cases hstored

end PupaCoin
