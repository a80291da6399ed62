import PupaCoin.Net.MasternodeList

/-!
# Who can write to the masternode list

Every handler changes one entry at most, and none for which the message does not pass the tests; whether the
message is signed is not among them. So the list is as authentic as the messages that pass.
-/

namespace PupaCoin

variable {s : CMasternodeMan} {vin : CTxIn} {mn : MasternodeEntry} {msg : Dsee}

namespace CMasternodeMan

theorem prevout_of_find {pmn : Fin s.vMasternodes.length} (h : s.find vin = some pmn)
    : (s.vMasternodes.get pmn).vin.prevout = vin.prevout := by
  have hfound := (List.findFinIdx?_eq_some_iff.mp h).1
  simpa using hfound

theorem exists_find_iff {pmn : Fin s.vMasternodes.length} (h : s.find vin = some pmn)
    {P : Fin s.vMasternodes.length → Prop} : (∃ p, s.find vin = some p ∧ P p) ↔ P pmn := by
  constructor
  · rintro ⟨p, hp, hP⟩
    rw [h] at hp
    cases hp
    exact hP
  · intro hP
    exact ⟨pmn, h, hP⟩

theorem add_of_find {pmn : Fin s.vMasternodes.length} (h : s.find mn.vin = some pmn) : s.add mn = s := by
  unfold add
  rw [h]
  simp

theorem vMasternodes_enableHotCold (s : CMasternodeMan) (ext : MasternodeExt) (newVin : CTxIn) (newService : CService)
    : (s.enableHotColdMasterNode ext newVin newService).vMasternodes = s.vMasternodes := by
  unfold enableHotColdMasterNode
  split <;> rfl

end CMasternodeMan

namespace Dsee

variable {env : MasternodeEnv} {ext : MasternodeExt} {msg : Dsee} {s : CMasternodeMan}

theorem vin_withoutScriptDonation (msg : Dsee) : msg.withoutScriptDonation.vin = msg.vin := by
  unfold withoutScriptDonation
  split <;> rfl

theorem announce_list (msg : Dsee) (s : CMasternodeMan) (h : msg.entryCheck ext = none) :
    (msg.announce env ext s).1.vMasternodes = (s.add (msg.withoutScriptDonation.entry.updateLastSeen ext
      msg.withoutScriptDonation.lastUpdated)).vMasternodes := by
  unfold announce
  rw [h]
  simp only
  split
  · exact CMasternodeMan.vMasternodes_enableHotCold ..
  · rfl

theorem announce_fails {effects : List MasternodeEffect} (h : msg.entryCheck ext = some effects) :
    msg.announce env ext s = (s, effects) := by
  unfold announce
  rw [h]

theorem announce_of_find {pmn : Fin s.vMasternodes.length} (h : s.find msg.vin = some pmn) :
    (msg.announce env ext s).1.vMasternodes = s.vMasternodes := by
  cases hcheck : msg.entryCheck ext with
  | some effects => rw [announce_fails hcheck]
  | none =>
    have hvin : (msg.withoutScriptDonation.entry.updateLastSeen ext
        msg.withoutScriptDonation.lastUpdated).vin = msg.vin := vin_withoutScriptDonation msg
    have hfound : s.find (msg.withoutScriptDonation.entry.updateLastSeen ext
        msg.withoutScriptDonation.lastUpdated).vin = some pmn := by
      rw [hvin, h]
    rw [announce_list msg s hcheck, CMasternodeMan.add_of_find hfound]

theorem vin_of_entryCheck (h : msg.entryCheck ext = none) :
    ext.isVinAssociatedWithPubkey msg.vin msg.pubkey = true := by
  by_contra hnot
  unfold entryCheck at h
  rw [if_pos (by simpa using hnot)] at h
  cases h

theorem isUpdate_iff : msg.isUpdate ext mn = true ↔
    msg.count = -1 ∧ mn.pubkey = msg.pubkey ∧ mn.updatedWithin ext masternodeMinDseeSeconds = false := by
  unfold isUpdate
  rw [Bool.and_eq_true, Bool.and_eq_true, decide_eq_true_iff, decide_eq_true_iff, Bool.not_eq_true', and_assoc]

end Dsee

/-- The list stays as it is, one entry changes, or one is added; the last two only when the message is taken,
    and then it is signed if and only if it vouches for that entry. -/
inductive ListChange (takes signed : Prop) (vouches : Option MasternodeEntry → Prop)
    (l : List MasternodeEntry) : List MasternodeEntry → Prop
  | kept {l' : List MasternodeEntry} : ¬ takes → l'.map MasternodeEntry.record = l.map MasternodeEntry.record →
      l'.map MasternodeEntry.sigTime = l.map MasternodeEntry.sigTime →
      ListChange takes signed vouches l l'
  | changed (pmn : Fin l.length) (mn : MasternodeEntry) : takes → mn.record ≠ (l.get pmn).record →
      (l.get pmn).sigTime ≤ mn.sigTime → (signed ↔ vouches (some (l.get pmn))) →
      ListChange takes signed vouches l (l.set pmn mn)
  | created (mn : MasternodeEntry) : takes → (signed ↔ vouches none) → ListChange takes signed vouches l (l ++ [mn])

namespace ListChange

variable {takes signed : Prop} {vouches : Option MasternodeEntry → Prop} {l l' : List MasternodeEntry}

theorem refl (h : ¬ takes) : ListChange takes signed vouches l l := .kept h rfl rfl

theorem kept_set (h : ¬ takes) (pmn : Fin l.length) (hrecord : mn.record = (l.get pmn).record)
    (htime : mn.sigTime = (l.get pmn).sigTime) : ListChange takes signed vouches l (l.set pmn mn) := by
  have hset : ∀ {β : Type} (f : MasternodeEntry → β), f mn = f (l.get pmn) → (l.set pmn mn).map f = l.map f := by
    intro β f hf
    rw [List.map_set, hf]
    refine List.ext_getElem? fun i => ?_
    by_cases hip : pmn.val = i
    · subst hip
      rw [List.getElem?_set_self (by simp), List.getElem?_map, List.getElem?_eq_getElem pmn.isLt]
      rfl
    · rw [List.getElem?_set_ne hip]
  exact .kept h (hset _ hrecord) (hset _ htime)

theorem vouched_iff (h : ListChange takes signed vouches l l') :
    (∀ i : Nat, (l'[i]?).map MasternodeEntry.record ≠ (l[i]?).map MasternodeEntry.record → vouches l[i]?) ↔
      (takes → signed) := by
  cases h with
  | kept hnot hrecord htime =>
    refine ⟨fun _ ht => absurd ht hnot, fun _ i hne => absurd ?_ hne⟩
    have hi := congrArg (fun m : List MasternodeRecord => m[i]?) hrecord
    simpa using hi
  | changed pmn mn ht hne htime hiff =>
    constructor
    · intro hall _
      have hpmn := hall pmn ?_
      · rw [List.getElem?_eq_getElem pmn.isLt] at hpmn
        exact hiff.mpr hpmn
      · rw [List.getElem?_set_self pmn.isLt, List.getElem?_eq_getElem pmn.isLt]
        intro heq
        exact hne (Option.some.inj heq)
    · intro hsigned i hi
      by_cases hip : pmn.val = i
      · subst hip
        rw [List.getElem?_eq_getElem pmn.isLt]
        exact hiff.mp (hsigned ht)
      · rw [List.getElem?_set_ne hip] at hi
        exact absurd rfl hi
  | created mn ht hiff =>
    constructor
    · intro hall _
      have hnew := hall l.length ?_
      · rw [List.getElem?_eq_none le_rfl] at hnew
        exact hiff.mpr hnew
      · rw [List.getElem?_concat_length, List.getElem?_eq_none le_rfl]
        intro heq
        cases heq
    · intro hsigned i hi
      by_cases hlt : i < l.length
      · rw [List.getElem?_append_left hlt] at hi
        exact absurd rfl hi
      · rw [List.getElem?_eq_none (by omega)]
        exact hiff.mp (hsigned ht)

theorem sigTime_le (h : ListChange takes signed vouches l l') (i : Nat) (mn : MasternodeEntry) (hi : l[i]? = some mn)
    : ∃ mn', l'[i]? = some mn' ∧ mn.sigTime ≤ mn'.sigTime := by
  cases h with
  | kept hnot hrecord htime =>
    have hti := congrArg (fun m : List Int => m[i]?) htime
    simp only [List.getElem?_map, hi, Option.map_some, Option.map_eq_some_iff] at hti
    obtain ⟨mn', hmn', heq⟩ := hti
    exact ⟨mn', hmn', heq.ge⟩
  | changed pmn mn' ht hne htime hiff =>
    by_cases hip : pmn.val = i
    · subst hip
      rw [List.getElem?_eq_getElem pmn.isLt] at hi
      have heq : l.get pmn = mn := Option.some.inj hi
      exact ⟨mn', List.getElem?_set_self pmn.isLt, heq ▸ htime⟩
    · exact ⟨mn, by rw [List.getElem?_set_ne hip, hi], le_rfl⟩
  | created mn' ht hiff =>
    have hlt := (List.getElem?_eq_some_iff.mp hi).1
    exact ⟨mn, by rw [List.getElem?_append_left hlt, hi], le_rfl⟩

end ListChange

section Handlers

variable {env : MasternodeEnv} {ext : MasternodeExt} {s : CMasternodeMan}

/-- The change that a message makes, on the list `l'`. -/
abbrev Changes (env : MasternodeEnv) (ext : MasternodeExt) (s : CMasternodeMan) (msg : MasternodeMessage)
    (l' : List MasternodeEntry) : Prop :=
  ListChange (msg.Takes env ext s) (msg.Signed env s) (fun mn => msg.Vouches env ext mn) s.vMasternodes l'

theorem lastTimeSeen_ne {seconds : Int} (hpos : 0 < seconds) (h : mn.updatedWithin ext seconds = false)
    : mn.lastTimeSeen ≠ ext.getAdjustedTime := by
  intro heq
  unfold MasternodeEntry.updatedWithin at h
  rw [heq, decide_eq_false_iff_not] at h
  omega

theorem announce_changes (hpre : msg.precheck env ext = none) (hfind : s.find msg.vin = none) :
    Changes env ext s (.dsee msg) (msg.announce env ext s).1.vMasternodes := by
  cases hcheck : msg.entryCheck ext with
  | some effects =>
    rw [Dsee.announce_fails hcheck]
    refine .refl ?_
    rintro ⟨-, ⟨pmn, hpmn, -⟩ | ⟨-, hnone⟩⟩
    · rw [hfind] at hpmn
      cases hpmn
    · rw [hcheck] at hnone
      cases hnone
  | none =>
    have hvin : (msg.withoutScriptDonation.entry.updateLastSeen ext
        msg.withoutScriptDonation.lastUpdated).vin = msg.vin := Dsee.vin_withoutScriptDonation msg
    have henabled : (msg.withoutScriptDonation.entry.updateLastSeen ext
        msg.withoutScriptDonation.lastUpdated).isEnabled = true := rfl
    rw [Dsee.announce_list msg s hcheck]
    unfold CMasternodeMan.add
    rw [hvin, hfind, henabled]
    refine .created _ ⟨hpre, Or.inr ⟨hfind, hcheck⟩⟩ ?_
    exact ⟨fun hsigned => ⟨hsigned, Dsee.vin_of_entryCheck hcheck⟩, fun hvouches => hvouches.1⟩

theorem update_changes {pmn : Fin s.vMasternodes.length} (hpre : msg.precheck env ext = none)
    (hfind : s.find msg.vin = some pmn) (hown : msg.isOwn ext s = false) :
    Changes env ext s (.dsee msg) (msg.update ext s pmn).1.vMasternodes := by
  unfold Dsee.update
  simp only
  by_cases hupdate : msg.isUpdate ext (s.vMasternodes.get pmn) = true
  · obtain ⟨-, hkey, hstale⟩ := Dsee.isUpdate_iff.mp hupdate
    have htakes : (MasternodeMessage.dsee msg).Takes env ext s :=
      ⟨hpre, Or.inl ⟨pmn, hfind, hown, hupdate⟩⟩
    have hseen : ∀ mn : MasternodeEntry, mn.lastTimeSeen = ext.getAdjustedTime →
        mn.record ≠ (s.vMasternodes.get pmn).record := by
      intro mn hmn heq
      have hlast : mn.lastTimeSeen = (s.vMasternodes.get pmn).lastTimeSeen :=
        congrArg MasternodeRecord.lastTimeSeen heq
      exact lastTimeSeen_ne (by decide) hstale (hlast.symm.trans hmn)
    have hiff : (MasternodeMessage.dsee msg).Signed env s ↔
        (MasternodeMessage.dsee msg).Vouches env ext (some (s.vMasternodes.get pmn)) :=
      ⟨fun hsigned => ⟨hsigned, CMasternodeMan.prevout_of_find hfind, hkey⟩, fun hvouches => hvouches.1⟩
    rw [if_pos hupdate]
    by_cases hnewer : (s.vMasternodes.get pmn).sigTime < msg.sigTime
    · rw [if_pos hnewer]
      exact .changed pmn _ htakes (hseen _ rfl) (le_of_lt hnewer) hiff
    · rw [if_neg hnewer]
      exact .changed pmn _ htakes (hseen _ rfl) le_rfl hiff
  · rw [if_neg hupdate]
    refine .refl ?_
    rintro ⟨-, ⟨pmn', hpmn', -, hupdate'⟩ | ⟨hnone, -⟩⟩
    · rw [hfind] at hpmn'
      cases hpmn'
      exact hupdate hupdate'
    · rw [hfind] at hnone
      cases hnone

theorem dsee_changes (msg : Dsee) : Changes env ext s (.dsee msg) (msg.process env ext s).1.vMasternodes := by
  unfold Dsee.process
  cases hpre : msg.precheck env ext with
  | some effects =>
    refine .refl fun ht => ?_
    have hnone : msg.precheck env ext = none := ht.1
    rw [hpre] at hnone
    cases hnone
  | none =>
    cases hfind : s.find msg.vin with
    | none => exact announce_changes hpre hfind
    | some pmn =>
      simp only
      cases hown : msg.isOwn ext s with
      | false => exact update_changes hpre hfind hown
      | true =>
        rw [if_pos rfl, Dsee.announce_of_find hfind]
        refine .refl ?_
        rintro ⟨-, ⟨pmn', hpmn', hother, -⟩ | ⟨hnone, -⟩⟩
        · rw [hown] at hother
          cases hother
        · rw [hfind] at hnone
          cases hnone

theorem ping_changes {msg : Dseep} {pmn : Fin s.vMasternodes.length} (hon : msg.isOffTime ext = false)
    (hfind : s.find msg.vin = some pmn)
    (hproto : minPoolPeerProtoVersion ≤ (s.vMasternodes.get pmn).protocolVersion) :
    Changes env ext s (.dseep msg) (msg.ping ext s pmn).1.vMasternodes := by
  have htakes : (MasternodeMessage.dseep msg).Takes env ext s ↔ (s.vMasternodes.get pmn).lastDseep < msg.sigTime ∧
      (s.vMasternodes.get pmn).updatedWithin ext masternodeMinDseepSeconds = false ∧
      (msg.stop = true → (s.vMasternodes.get pmn).lastTimeSeen ≠ 0) := by
    constructor
    · rintro ⟨-, htaken⟩
      exact ((CMasternodeMan.exists_find_iff hfind).mp htaken).2
    · intro h
      exact ⟨hon, pmn, hfind, hproto, h⟩
  have hiff : (MasternodeMessage.dseep msg).Signed env s ↔
      (MasternodeMessage.dseep msg).Vouches env ext (some (s.vMasternodes.get pmn)) := by
    constructor
    · intro hsigned
      exact ⟨_, rfl, CMasternodeMan.prevout_of_find hfind, (CMasternodeMan.exists_find_iff hfind).mp hsigned⟩
    · rintro ⟨mn, heq, -, hsigned⟩
      cases heq
      exact ⟨pmn, hfind, hsigned⟩
  unfold Dseep.ping
  simp only
  by_cases hnewer : (s.vMasternodes.get pmn).lastDseep < msg.sigTime
  · rw [if_pos hnewer]
    unfold Dseep.pinged
    simp only
    cases hstale : (s.vMasternodes.get pmn).updatedWithin ext masternodeMinDseepSeconds with
    | true =>
      have hfresh : ({ s.vMasternodes.get pmn with lastDseep := msg.sigTime } : MasternodeEntry).updatedWithin
          ext masternodeMinDseepSeconds = true := hstale
      rw [if_pos hfresh]
      refine .kept_set (fun ht => ?_) pmn rfl rfl
      have hfalse := (htakes.mp ht).2.1
      rw [hstale] at hfalse
      cases hfalse
    | false =>
      have hnotfresh : ({ s.vMasternodes.get pmn with lastDseep := msg.sigTime } : MasternodeEntry).updatedWithin
          ext masternodeMinDseepSeconds = false := hstale
      rw [hnotfresh, if_neg (by simp)]
      cases hstop : msg.stop with
      | true =>
        rw [if_pos rfl]
        by_cases hzero : (s.vMasternodes.get pmn).lastTimeSeen = 0
        · refine .kept_set (fun ht => (htakes.mp ht).2.2 hstop hzero) pmn ?_ rfl
          unfold MasternodeEntry.record MasternodeEntry.disable
          rw [hzero]
        · refine .changed pmn _ (htakes.mpr ⟨hnewer, hstale, fun _ => hzero⟩) (fun heq => hzero ?_) le_rfl hiff
          exact (congrArg MasternodeRecord.lastTimeSeen heq).symm
      | false =>
        rw [if_neg (by simp)]
        refine .changed pmn _ (htakes.mpr ⟨hnewer, hstale, fun h => ?_⟩) (fun heq => ?_) le_rfl hiff
        · rw [hstop] at h
          cases h
        · exact lastTimeSeen_ne (by decide) hstale (congrArg MasternodeRecord.lastTimeSeen heq).symm
  · rw [if_neg hnewer]
    exact .refl fun ht => hnewer (htakes.mp ht).1

theorem dseep_changes (msg : Dseep) : Changes env ext s (.dseep msg) (msg.process ext s).1.vMasternodes := by
  have hask : (msg.askForEntry ext s).1.vMasternodes = s.vMasternodes := by
    unfold Dseep.askForEntry
    simp only
    split <;> rfl
  unfold Dseep.process
  cases hoff : msg.isOffTime ext with
  | true =>
    refine .refl fun ht => ?_
    have hon : msg.isOffTime ext = false := ht.1
    rw [hoff] at hon
    cases hon
  | false =>
    rw [if_neg (by simp)]
    cases hfind : s.find msg.vin with
    | none =>
      simp only
      rw [hask]
      refine .refl ?_
      rintro ⟨-, pmn, hpmn, -⟩
      rw [hfind] at hpmn
      cases hpmn
    | some pmn =>
      simp only
      by_cases hproto : minPoolPeerProtoVersion ≤ (s.vMasternodes.get pmn).protocolVersion
      · rw [if_pos hproto]
        exact ping_changes hoff hfind hproto
      · rw [if_neg hproto, hask]
        refine .refl ?_
        rintro ⟨-, pmn', hpmn, hproto', -⟩
        rw [hfind] at hpmn
        cases hpmn
        exact hproto hproto'

theorem mvote_changes (msg : Mvote) : Changes env ext s (.mvote msg) (msg.process ext s).1.vMasternodes := by
  unfold Mvote.process
  cases hfind : s.find msg.vin with
  | none =>
    refine .refl ?_
    rintro ⟨pmn, hpmn, -⟩
    rw [hfind] at hpmn
    cases hpmn
  | some pmn =>
    have htakes : (MasternodeMessage.mvote msg).Takes env ext s ↔
        Mvote.isDue ext (s.vMasternodes.get pmn) = true ∧ (s.vMasternodes.get pmn).nVote ≠ msg.nVote :=
      CMasternodeMan.exists_find_iff hfind
    have hiff : (MasternodeMessage.mvote msg).Signed env s ↔
        (MasternodeMessage.mvote msg).Vouches env ext (some (s.vMasternodes.get pmn)) := by
      constructor
      · intro hsigned
        exact ⟨_, rfl, CMasternodeMan.prevout_of_find hfind, (CMasternodeMan.exists_find_iff hfind).mp hsigned⟩
      · rintro ⟨mn, heq, -, hsigned⟩
        cases heq
        exact ⟨pmn, hfind, hsigned⟩
    simp only
    by_cases hdue : Mvote.isDue ext (s.vMasternodes.get pmn) = true
    · rw [if_pos hdue]
      by_cases hvote : (s.vMasternodes.get pmn).nVote = msg.nVote
      · refine .kept_set (fun ht => (htakes.mp ht).2 hvote) pmn ?_ rfl
        unfold MasternodeEntry.record
        rw [hvote]
      · refine .changed pmn _ (htakes.mpr ⟨hdue, hvote⟩) (fun heq => hvote ?_) le_rfl hiff
        exact (congrArg MasternodeRecord.nVote heq).symm
    · rw [if_neg hdue]
      exact .refl fun ht => hdue (htakes.mp ht).1

end Handlers

namespace MasternodeDelivery

variable {env : MasternodeEnv} {s : CMasternodeMan} {d : MasternodeDelivery}

theorem after_changes (hsynced : d.ext.fBlockchainSynced = true) :
    Changes env d.ext s d.msg (d.after env s).vMasternodes := by
  unfold after MasternodeMessage.process
  rw [hsynced]
  cases d.msg with
  | dsee msg => exact dsee_changes msg
  | dseep msg => exact dseep_changes msg
  | mvote msg => exact mvote_changes msg

theorem after_of_not_synced (hsynced : d.ext.fBlockchainSynced = false) : d.after env s = s := by
  unfold after MasternodeMessage.process
  rw [hsynced]
  rfl

theorem after_sigTime_le (env : MasternodeEnv) (i : Nat) (mn : MasternodeEntry) (hi : s.vMasternodes[i]? = some mn) :
    ∃ mn', (d.after env s).vMasternodes[i]? = some mn' ∧ mn.sigTime ≤ mn'.sigTime := by
  cases hsynced : d.ext.fBlockchainSynced with
  | true => exact (after_changes hsynced).sigTime_le i mn hi
  | false => exact ⟨mn, by rw [after_of_not_synced hsynced, hi], le_rfl⟩

theorem authentic_iff_trusted : d.Authentic env s ↔ d.Trusted env s := by
  constructor
  · intro ha hsynced
    exact (after_changes hsynced).vouched_iff.mp ha.signed
  · intro ht
    refine ⟨?_, after_sigTime_le env⟩
    cases hsynced : d.ext.fBlockchainSynced with
    | true => exact (after_changes hsynced).vouched_iff.mpr (ht hsynced)
    | false =>
      intro i hi
      rw [after_of_not_synced hsynced] at hi
      exact absurd rfl hi

/-- Along a run of messages every change is signed for if and only if every message that is taken is signed. -/
theorem masternodeList_authentic_iff (env : MasternodeEnv) (s : CMasternodeMan) (ds : List MasternodeDelivery) :
    AlongRun env (fun s d => d.Authentic env s) s ds ↔ AlongRun env (fun s d => d.Trusted env s) s ds := by
  induction ds generalizing s with
  | nil => exact Iff.rfl
  | cons d ds ih =>
    unfold AlongRun
    rw [authentic_iff_trusted, ih]

end MasternodeDelivery

namespace Sample

def forgedEnv : MasternodeEnv where
  getID _ := 0
  addrToString _ := []
  vinToString _ := []
  scriptToString _ := []
  isLocal _ := false
  verifyMessage _ _ _ := false

def masternodeExt : MasternodeExt where
  fBlockchainSynced := true
  getTime := 1600000000
  getAdjustedTime := 1600000000
  fMasterNode := false
  fShutdownRequested := false
  fLockMain := true
  checkNode _ := true
  acceptableInputs _ := true
  isVinAssociatedWithPubkey _ _ := true
  getInputAge _ := 100
  collateralHeight _ := none
  blockTime _ := 0

def genuineDsee : Dsee where
  vin := ⟨⟨1, 0⟩, [], 0xffffffff⟩
  addr := ⟨1, 9999⟩
  vchSig := [1]
  sigTime := 1599990000
  pubkey := [2]
  pubkey2 := [3]
  count := -1
  current := -1
  lastUpdated := 1599999000
  protocolVersion := 62039
  donationAddress := []
  donationPercentage := 0

def genuineList : CMasternodeMan where
  vMasternodes := [{ genuineDsee.entry with lastTimeSeen := 1599999400 }]
  mWeAskedForMasternodeListEntry _ := none
  activeMasternode := ⟨[], ⟨.null, [], 0xffffffff⟩, ⟨0, 0⟩⟩

def forgedDsee : Dsee :=
  { genuineDsee with addr := ⟨7, 9999⟩, vchSig := [], sigTime := 1599999999, pubkey2 := [9] }

def forgedDelivery : MasternodeDelivery := ⟨masternodeExt, .dsee forgedDsee⟩

/-- Its signature verifies under no key, and still it moves the masternode to another address and to another
    operator. -/
theorem forgedDsee_taken :
    ((forgedDelivery.after forgedEnv genuineList).vMasternodes.map fun mn => (mn.pubkey2, mn.addr))
      = [([9], ⟨7, 9999⟩)] ∧
    ¬ MasternodeDelivery.AlongRun forgedEnv (fun s d => d.Authentic forgedEnv s) genuineList
      [forgedDelivery] := by
  refine ⟨by decide, fun hrun => ?_⟩
  have hchanged : ((forgedDelivery.after forgedEnv genuineList).vMasternodes[0]?).map MasternodeEntry.record
      ≠ (genuineList.vMasternodes[0]?).map MasternodeEntry.record := by decide
  have hsigned : forgedEnv.verifyMessage forgedDsee.pubkey [] (forgedDsee.strMessage forgedEnv) = true :=
    (hrun.1.signed 0 hchanged).1
  cases hsigned

end Sample

end PupaCoin
