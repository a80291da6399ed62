import PupaCoin.Net.MixingSession
import PupaCoin.Script.Proofs.SignatureHashProofs

/-!
# Proofs: the masternode of a mixing session

A session stays sound exactly as long as no entry is refused without a user that is counted and no entry is taken that has
no inputs or an outpoint twice. The signatures that the masternode takes are not checked, so the final transaction is
valid where the clients submit the right ones.
-/

namespace PupaCoin

variable {it : Nat} {txin txin' : CTxIn}

namespace MixingSession

section Erase

variable {σ α : Type} {items : σ → List α} {expired : α → Bool} {erase : Nat → σ → σ} {P : σ → Prop} {s : σ}

theorem eraseRound_of_some {a : α} (ha : (items s)[it]? = some a) : eraseRound items expired erase (it, s) =
    if expired a then .next (it, erase it s) else .next (it + 1, s) := by
  have hlt : it < (items s).length := (List.getElem?_eq_some_iff.mp ha).1
  rw [eraseRound, if_neg hlt.ne, ha]

/-- Every round passes an element or erases one, so the rounds suffice. By induction on them. -/
theorem run_eraseRound (hitems : ∀ it s, it < (items s).length → items (erase it s) = (items s).eraseIdx it)
    (hP : ∀ it s, it < (items s).length → P s → P (erase it s)) (hs : P s) {fuel : Nat}
    (hit : it ≤ (items s).length) (hfuel : (items s).length < it + fuel) :
    ∃ s', While.run (eraseRound items expired erase) fuel (it, s) = some (.ok s') ∧ P s' := by
  induction fuel generalizing it s with
  | zero => omega
  | succ fuel ih =>
    by_cases hend : it = (items s).length
    · rw [While.run, eraseRound, if_pos hend]
      exact ⟨s, rfl, hs⟩
    · have hlt : it < (items s).length := lt_of_le_of_ne hit hend
      obtain ⟨a, ha⟩ : ∃ a, (items s)[it]? = some a := ⟨_, List.getElem?_eq_getElem hlt⟩
      rw [While.run, eraseRound_of_some ha]
      by_cases hexpired : expired a
      · rw [if_pos hexpired]
        have hlength : (items (erase it s)).length = (items s).length - 1 := by
          rw [hitems it s hlt, List.length_eraseIdx_of_lt hlt]
        exact ih (hP it s hlt hs) (by omega) (by omega)
      · rw [if_neg hexpired]
        exact ih hs hlt (by omega)

theorem eraseExpired_ok (hitems : ∀ it s, it < (items s).length → items (erase it s) = (items s).eraseIdx it)
    (hP : ∀ it s, it < (items s).length → P s → P (erase it s)) (hs : P s) :
    ∃ s', eraseExpired items expired erase s = .ok s' ∧ P s' := by
  obtain ⟨s', hrun, hs'⟩ := run_eraseRound hitems hP hs (Nat.zero_le _) (by rw [Nat.zero_add]; exact Nat.lt_succ_self _)
  refine ⟨s', ?_, hs'⟩
  rw [eraseExpired, hrun]

end Erase

section Entries

variable {params : MixingParams} {now : Clock} {pool pool' : MixingSession} {newInput : List CTxDSIn} {nAmount : Int}
  {collateralValid : Bool} {newOutput : List CTxOut} {it : Nat}

theorem sound_setNull (now : Clock) (pool : MixingSession) : (pool.setNull now).Sound := ⟨le_rfl, List.nodup_nil⟩

theorem sound_updateState (newState : PoolStatus) (h : pool.Sound) : (pool.updateState params now newState).Sound := by
  unfold updateState
  by_cases hblocked : params.fMasterNode && (newState = .error || newState = .success)
  · rw [if_pos hblocked]
    exact h
  · rw [if_neg hblocked]
    exact ⟨h.sessionUsers, h.outpoints⟩

theorem sound_checkClient (h : pool.Sound) : (checkClient now pool).Sound := by
  unfold checkClient
  split_ifs
  · exact sound_setNull now pool
  · exact h

theorem entries_eraseEntry : (eraseEntry now it pool).entries = pool.entries.eraseIdx it := by
  unfold eraseEntry
  dsimp only
  split_ifs with hnone
  · exact (List.eq_nil_of_length_eq_zero hnone).symm
  · rfl

theorem sound_eraseEntry (h : pool.Sound) : (eraseEntry now it pool).Sound := by
  unfold eraseEntry
  dsimp only
  split_ifs
  · exact sound_setNull now _
  · refine ⟨h.sessionUsers, h.outpoints.sublist ?_⟩
    exact (List.eraseIdx_sublist pool.entries it).flatMap _

theorem sound_eraseQueue (h : pool.Sound) : (eraseQueue it pool).Sound := ⟨h.sessionUsers, h.outpoints⟩

theorem sound_fail (params : MixingParams) (now : Clock) (pool : MixingSession) : (fail params now pool).Sound :=
  sound_updateState .error (sound_setNull now pool)

theorem sound_checkHanging (h : pool.Sound) : (checkHanging params now pool).Sound := by
  unfold checkHanging
  split_ifs
  · exact sound_checkClient h
  · exact h

theorem checkEntries_ok (params : MixingParams) (now : Clock) (h : pool.Sound) :
    ∃ pool', checkEntries params now pool = .ok pool' ∧ pool'.Sound := by
  obtain ⟨pool₁, hrun, hsound⟩ := eraseExpired_ok (fun it s _ => entries_eraseEntry)
    (fun it s _ => sound_eraseEntry) h
  refine ⟨if pool₁.timedOut params now mnengineQueueTimeout then setNull now pool₁ else pool₁, ?_, ?_⟩
  · rw [checkEntries, hrun]
    rfl
  split_ifs
  · exact sound_setNull now pool₁
  · exact hsound

theorem checkWaiting_ok (params : MixingParams) (now : Clock) (h : pool.Sound) :
    ∃ pool', checkWaiting params now pool = .ok pool' ∧ pool'.Sound := by
  unfold checkWaiting
  split_ifs
  · exact checkEntries_ok params now h
  · exact ⟨_, rfl, sound_fail params now pool⟩
  · exact ⟨_, rfl, h⟩

theorem sound_checkSigning (h : pool.Sound) : (checkSigning params now pool).Sound := by
  unfold checkSigning
  split_ifs
  · exact sound_fail params now pool
  · exact h

theorem checkTimeout_ok (params : MixingParams) (now : Clock) (h : pool.Sound) :
    ∃ pool', pool.checkTimeout params now = .ok pool' ∧ pool'.Sound := by
  have hqueue : ∃ pool₁, eraseExpired queueTimes now.expired eraseQueue (checkHanging params now pool) = .ok pool₁ ∧
      pool₁.Sound := eraseExpired_ok (fun it s _ => rfl) (fun it s _ => sound_eraseQueue) (sound_checkHanging h)
  obtain ⟨pool₁, hqueue, hsound₁⟩ := hqueue
  obtain ⟨pool₂, hwaiting, hsound₂⟩ := checkWaiting_ok params now hsound₁
  refine ⟨checkSigning params now pool₂, ?_, sound_checkSigning hsound₂⟩
  rw [checkTimeout, hqueue]
  show (checkWaiting params now pool₁ >>= _) = _
  rw [hwaiting]
  rfl

/-! ### New entries -/

theorem outpoints_append (e : SessionEntry) :
    ({ pool with entries := pool.entries ++ [e] } : MixingSession).outpoints =
      pool.outpoints ++ e.sev.map fun s => s.prevout := by
  rw [outpoints, List.flatMap_append, List.flatMap_singleton]
  rfl

theorem map_prevout_newEntry (now : Clock) (newInput : List CTxDSIn) (newOutput : List CTxOut) :
    (newEntry now newInput newOutput).sev.map (fun s => s.prevout) = newInput.map fun txin => txin.prevout := by
  rw [newEntry, List.map_map]
  rfl

theorem step_addEntry_iff (h : pool.Sound) :
    (∃ pool', step params pool (.addEntry now newInput nAmount collateralValid newOutput) = .ok pool' ∧ pool'.Sound) ↔
      (Event.addEntry now newInput nAmount collateralValid newOutput).Harmless params pool := by
  show (∃ pool', (pool.addEntry params now newInput nAmount collateralValid newOutput).map (fun r => r.2.2) = .ok pool' ∧
    pool'.Sound) ↔ _
  simp only [addEntry, Event.Harmless]
  cases hmaster : params.fMasterNode with
  | false =>
    refine iff_of_true ⟨pool, rfl, h⟩ ?_
    intro hne
    cases hne
  | true =>
    rw [if_neg (by decide), eq_self_iff_true, true_imp_iff]
    cases hrefusal : pool.refusal params newInput nAmount collateralValid with
    | some error =>
      constructor
      · rintro ⟨pool', hrun, hsound⟩
        obtain rfl : { pool with sessionUsers := pool.sessionUsers - 1 } = pool' := Except.ok.inj hrun
        have husers : 0 ≤ pool.sessionUsers - 1 := hsound.sessionUsers
        show 1 ≤ pool.sessionUsers
        omega
      · intro husers
        refine ⟨_, rfl, ⟨?_, h.outpoints⟩⟩
        have husers' : 1 ≤ pool.sessionUsers := husers
        show 0 ≤ pool.sessionUsers - 1
        omega
    | none =>
      cases newInput with
      | nil =>
        refine iff_of_false ?_ fun hne => absurd rfl hne.1
        rintro ⟨pool', hrun, -⟩
        cases hrun
      | cons first rest =>
        have hnodup : (pool.outpoints ++ (first :: rest).map fun txin => txin.prevout).Nodup ↔
            ((first :: rest).map fun txin => txin.prevout).Nodup ∧ ∀ txin ∈ first :: rest, txin.prevout ∉ pool.outpoints := by
          rw [List.nodup_append']
          constructor
          · rintro ⟨-, hnew, hdisjoint⟩
            exact ⟨hnew, fun txin hmem hold => hdisjoint hold (List.mem_map_of_mem hmem)⟩
          · rintro ⟨hnew, hapart⟩
            refine ⟨h.outpoints, hnew, fun prevout hold hmem => ?_⟩
            obtain ⟨txin, htxin, rfl⟩ := List.mem_map.mp hmem
            exact hapart txin htxin hold
        constructor
        · rintro ⟨pool', hrun, hsound⟩
          obtain rfl : { pool with entries := pool.entries ++ [newEntry now (first :: rest) newOutput] } = pool' :=
            Except.ok.inj hrun
          have houtpoints := hsound.outpoints
          rw [outpoints_append, map_prevout_newEntry, hnodup] at houtpoints
          exact ⟨List.cons_ne_nil first rest, houtpoints⟩
        · rintro ⟨-, hapart⟩
          refine ⟨_, rfl, ⟨h.sessionUsers, ?_⟩⟩
          show ({ pool with entries := _ } : MixingSession).outpoints.Nodup
          rw [outpoints_append, map_prevout_newEntry, hnodup]
          exact hapart

theorem step_iff (event : Event) (h : pool.Sound) :
    (∃ pool', step params pool event = .ok pool' ∧ pool'.Sound) ↔ event.Harmless params pool := by
  cases event with
  | addEntry => exact step_addEntry_iff h
  | checkTimeout now => exact iff_of_true (checkTimeout_ok params now h) trivial
  | reset now => exact iff_of_true ⟨_, rfl, sound_setNull now pool⟩ trivial
  | updateState now newState => exact iff_of_true ⟨_, rfl, sound_updateState newState h⟩ trivial

theorem run_concat (params : MixingParams) (pool : MixingSession) (events : List Event) (event : Event) :
    run params pool (events ++ [event]) = run params pool events >>= fun pool => step params pool event := by
  rw [run, List.foldlM_append]
  refine bind_congr fun pool' => ?_
  rw [List.foldlM_cons]
  exact bind_pure _

/-- A pool that has been reset stays sound, and nothing in it is undefined, exactly as long as no event does harm. -/
theorem staysSound_iff (params : MixingParams) (now : Clock) (pool : MixingSession) (events : List Event) :
    StaysSound params (pool.setNull now) events ↔ ∀ before event, before ++ [event] <+: events →
      ∀ pool', run params (pool.setNull now) before = .ok pool' → event.Harmless params pool' := by
  constructor
  · intro hstays before event hprefix pool' hrun
    obtain ⟨pool₁, hrun₁, hsound⟩ := hstays before ((List.prefix_append before [event]).trans hprefix)
    obtain rfl : pool₁ = pool' := Except.ok.inj (hrun₁.symm.trans hrun)
    obtain ⟨pool₂, hrun₂, hsound₂⟩ := hstays (before ++ [event]) hprefix
    rw [run_concat, hrun] at hrun₂
    exact (step_iff event hsound).mp ⟨pool₂, hrun₂, hsound₂⟩
  · intro hharmless before
    induction before using List.reverseRecOn with
    | nil => exact fun _ => ⟨_, rfl, sound_setNull now pool⟩
    | append_singleton before event ih =>
      intro hprefix
      obtain ⟨pool', hrun, hsound⟩ := ih ((List.prefix_append before [event]).trans hprefix)
      obtain ⟨pool'', hstep, hsound'⟩ := (step_iff event hsound).mpr (hharmless before event hprefix pool' hrun)
      refine ⟨pool'', ?_, hsound'⟩
      rw [run_concat, hrun]
      exact hstep

end Entries

section Signatures

variable {env : SigningEnv} {spent : COutPoint → CScript} {nTime : UInt32} {pool pool' : MixingSession}
  {newVin vin : CTxDSIn} {sev sev' : List SessionInput} {entries entries' : List SessionEntry} {e e' : SessionEntry}

/-- An input with a script that the session does not have is none of its inputs, so its signature is not checked. -/
theorem signatureValid_of_new (h : pool.hasScriptSig newVin.scriptSig = false) :
    signatureValid env nTime pool newVin.scriptSig newVin = true := by
  have hne : ∀ s ∈ pool.inputs, s.toCTxIn ≠ newVin.toCTxIn := by
    intro s hs heq
    have hscript := List.any_eq_false.mp h s hs
    exact hscript (decide_eq_true (congrArg CTxIn.scriptSig heq))
  have hloop : ∀ (l : List (SessionInput × Nat)), (∀ p ∈ l, p.1.toCTxIn ≠ newVin.toCTxIn) →
      l.foldl (fun found p => if p.1.toCTxIn = newVin.toCTxIn then some (p.2, p.1.prevPubKey) else found) none =
        (none : Option (Nat × CScript)) := by
    intro l hl
    induction l with
    | nil => rfl
    | cons p l ih =>
      rw [List.foldl_cons, if_neg (hl p List.mem_cons_self)]
      exact ih fun q hq => hl q (List.mem_cons_of_mem p hq)
  have hnone : pool.findInput newVin = none := hloop _ fun p hp => hne p.1 (List.fst_mem_of_mem_zipIdx hp)
  rw [signatureValid, hnone]

/-! ### Where a signature is put -/

/-- An input, or the input with a signature. -/
def SignedAs (vin : CTxDSIn) (s s' : SessionInput) : Prop :=
  s' = s ∨ (sameInput s.toCTxIn vin.toCTxIn = true ∧ s.fHasSig = false ∧
    s' = { s with scriptSig := vin.scriptSig, prevPubKey := vin.prevPubKey, fHasSig := true })

theorem signedAs_refl (l : List SessionInput) : List.Forall₂ (SignedAs vin) l l :=
  List.forall₂_same.mpr fun _ _ => Or.inl rfl

theorem exists_signedAs {s : SessionInput} (h : List.Forall₂ (SignedAs vin) sev sev') (hs : s ∈ sev) :
    ∃ s' ∈ sev', SignedAs vin s s' := by
  obtain ⟨i, hi⟩ := List.getElem?_of_mem hs
  obtain ⟨s', hs'⟩ : ∃ s', sev'[i]? = some s' := by
    have hlt : i < sev'.length := h.length_eq ▸ (List.getElem?_eq_some_iff.mp hi).1
    exact ⟨_, List.getElem?_eq_getElem hlt⟩
  obtain ⟨hlt, rfl⟩ := List.getElem?_eq_some_iff.mp hi
  obtain ⟨hlt', rfl⟩ := List.getElem?_eq_some_iff.mp hs'
  exact ⟨_, List.mem_of_getElem? hs', h.get hlt hlt'⟩

/-- By induction on the inputs: the first one of the kind decides. -/
theorem addSigLoop_isSome_iff : (addSigLoop vin sev).isSome = true ↔
    ∃ s, sev.find? (fun s => sameInput s.toCTxIn vin.toCTxIn) = some s ∧ s.fHasSig = false := by
  induction sev with
  | nil =>
    refine iff_of_false Bool.false_ne_true ?_
    rintro ⟨s, hs, -⟩
    cases hs
  | cons s sev ih =>
    rw [addSigLoop, List.find?_cons]
    by_cases hsame : sameInput s.toCTxIn vin.toCTxIn = true
    · rw [if_pos hsame, hsame]
      cases hsig : s.fHasSig with
      | true =>
        refine iff_of_false Bool.false_ne_true ?_
        rintro ⟨s', hs', hnone⟩
        rw [← Option.some.inj hs', hsig] at hnone
        cases hnone
      | false => exact iff_of_true rfl ⟨s, rfl, hsig⟩
    · rw [if_neg hsame, Bool.eq_false_iff.mpr hsame, Option.isSome_map]
      exact ih

theorem addSigLoop_signedAs (h : addSigLoop vin sev = some sev') : List.Forall₂ (SignedAs vin) sev sev' := by
  induction sev generalizing sev' with
  | nil => cases h
  | cons s sev ih =>
    rw [addSigLoop] at h
    split_ifs at h with hsame hsig
    · obtain rfl := Option.some.inj h
      exact .cons (Or.inr ⟨hsame, Bool.eq_false_iff.mpr hsig, rfl⟩) (signedAs_refl sev)
    · obtain ⟨sev'', hloop, rfl⟩ := Option.map_eq_some_iff.mp h
      exact .cons (Or.inl rfl) (ih hloop)

theorem addSigs_isSome_iff : (addSigs vin entries).isSome = true ↔ ∃ e ∈ entries, (addSigLoop vin e.sev).isSome = true := by
  induction entries with
  | nil =>
    refine iff_of_false Bool.false_ne_true ?_
    rintro ⟨e, he, -⟩
    exact absurd he List.not_mem_nil
  | cons e entries ih =>
    rw [addSigs, addSig, List.exists_mem_cons_iff]
    cases hloop : addSigLoop vin e.sev with
    | some sev' => exact iff_of_true rfl (Or.inl rfl)
    | none =>
      show ((addSigs vin entries).map (e :: ·)).isSome = true ↔ _
      rw [Option.isSome_map, ih]
      exact (or_iff_right Bool.false_ne_true).symm

theorem addSigs_signedAs (h : addSigs vin entries = some entries') :
    List.Forall₂ (SignedAs vin) (entries.flatMap SessionEntry.sev) (entries'.flatMap SessionEntry.sev) := by
  induction entries generalizing entries' with
  | nil => cases h
  | cons e entries ih =>
    rw [addSigs, addSig] at h
    cases hloop : addSigLoop vin e.sev with
    | some sev' =>
      rw [hloop] at h
      obtain rfl := Option.some.inj h
      rw [List.flatMap_cons, List.flatMap_cons]
      exact List.rel_append (addSigLoop_signedAs hloop) (signedAs_refl _)
    | none =>
      rw [hloop] at h
      obtain ⟨entries'', hrest, rfl⟩ := Option.map_eq_some_iff.mp h
      rw [List.flatMap_cons, List.flatMap_cons]
      exact List.rel_append (signedAs_refl _) (ih hrest)

/-! ### What is accepted -/

theorem isOpen_iff : pool.IsOpen newVin ↔ (addSigs newVin pool.entries).isSome = true := by
  rw [addSigs_isSome_iff]
  exact exists_congr fun e => and_congr_right fun _ => addSigLoop_isSome_iff.symm

theorem addScriptSig_of_has (h : pool.hasScriptSig newVin.scriptSig = true) :
    addScriptSig env nTime pool newVin = (false, pool) := by
  rw [addScriptSig, if_pos h]

theorem addScriptSig_of_new (h : pool.hasScriptSig newVin.scriptSig = false) : addScriptSig env nTime pool newVin =
    match addSigs newVin pool.entries with
    | some entries =>
      (true, { pool with finalTransaction := putSignature newVin pool.finalTransaction, entries })
    | none => (false, { pool with finalTransaction := putSignature newVin pool.finalTransaction }) := by
  rw [addScriptSig, if_neg (Bool.eq_false_iff.mp h), signatureValid_of_new h]
  rfl

/-- A signature is accepted because it is new and there is a place for it. -/
theorem accepted_iff : (addScriptSig env nTime pool newVin).1 = true ↔
    pool.hasScriptSig newVin.scriptSig = false ∧ pool.IsOpen newVin := by
  rw [isOpen_iff]
  cases hhas : pool.hasScriptSig newVin.scriptSig with
  | true =>
    rw [addScriptSig_of_has hhas]
    exact iff_of_false Bool.false_ne_true fun h => nomatch h.1
  | false =>
    rw [addScriptSig_of_new hhas, and_iff_right rfl]
    cases addSigs newVin pool.entries with
    | none => exact Iff.rfl
    | some entries => exact iff_of_true rfl rfl

theorem isUnsigned_of_isOpen (h : pool.IsOpen newVin) : pool.IsUnsigned newVin := by
  obtain ⟨e, he, s, hs, hsig⟩ := h
  have hsame := List.find?_some (p := fun s : SessionInput => sameInput s.toCTxIn newVin.toCTxIn) hs
  exact ⟨s, List.mem_flatMap.mpr ⟨e, he, List.mem_of_find?_eq_some hs⟩, hsame, hsig⟩

theorem acceptsRightly_iff : AcceptsRightly env spent pool newVin nTime ↔ SubmitsRightly env spent pool newVin := by
  rw [AcceptsRightly, SubmitsRightly, accepted_iff]
  constructor
  · intro h hunsigned
    rw [h, and_iff_right hunsigned]
  · intro h
    constructor
    · intro hopen
      have hunsigned := isUnsigned_of_isOpen hopen.2
      exact ⟨hunsigned, (h hunsigned).mpr hopen⟩
    · rintro ⟨hunsigned, hvalid⟩
      exact (h hunsigned).mp hvalid

/-! ### The final transaction -/

theorem sameInput_iff :
    sameInput txin txin' = true ↔ txin.prevout = txin'.prevout ∧ txin.nSequence = txin'.nSequence := by
  rw [sameInput, Bool.and_eq_true, decide_eq_true_iff, decide_eq_true_iff]

theorem sameInput_symm (h : sameInput txin txin' = true) : sameInput txin' txin = true := by
  rw [sameInput_iff] at h ⊢
  exact ⟨h.1.symm, h.2.symm⟩

theorem sameInput_trans {txin'' : CTxIn} (h : sameInput txin txin' = true) (h' : sameInput txin' txin'' = true)
    : sameInput txin txin'' = true := by
  rw [sameInput_iff] at h h' ⊢
  exact ⟨h.1.trans h'.1, h.2.trans h'.2⟩

theorem sameInput_of_signedAs {s s' : SessionInput} (h : SignedAs vin s s') : sameInput s.toCTxIn s'.toCTxIn = true := by
  rw [sameInput_iff]
  rcases h with rfl | ⟨-, -, rfl⟩
  · exact ⟨rfl, rfl⟩
  · exact ⟨rfl, rfl⟩

theorem verifyInput_congr {scriptSig scriptPubKey : CScript} {tx tx' : CTransaction} {n : Nat}
    (h : SameButSignatures tx tx') :
    verifyInput env scriptSig scriptPubKey tx n = verifyInput env scriptSig scriptPubKey tx' n := by
  have hcheck : checkSig env tx n = checkSig env tx' n := by
    funext vchSig vchPubKey scriptCode
    simp only [checkSig, signatureHash, signaturePreimage, signatureTx_congr h]
  rw [verifyInput, verifyInput, hcheck]

theorem sameButSignatures_put (newVin : CTxDSIn) (tx : CTransaction) :
    SameButSignatures tx (putSignature newVin tx) where
  nVersion := rfl
  nTime := rfl
  vin := by
    rw [putSignature, List.map_map]
    refine List.map_congr_left fun txin _ => ?_
    rw [Function.comp_apply]
    split_ifs <;> rfl
  vout := rfl
  nLockTime := rfl

theorem sameInput_put (newVin : CTxDSIn) (txin : CTxIn) :
    sameInput txin (if sameInput txin newVin.toCTxIn then { txin with scriptSig := newVin.scriptSig } else txin) = true := by
  rw [sameInput_iff]
  split_ifs
  · exact ⟨rfl, rfl⟩
  · exact ⟨rfl, rfl⟩

/-- The inputs of the final transaction are those of the session, and one is valid when all inputs of its kind are
signed. -/
structure FinalValid (env : SigningEnv) (spent : COutPoint → CScript) (pool : MixingSession) : Prop where
  inputs : ∀ txin ∈ pool.finalTransaction.vin, ∃ s ∈ pool.inputs, sameInput s.toCTxIn txin = true
  valid : ∀ n txin, pool.finalTransaction.vin[n]? = some txin →
    (∀ s ∈ pool.inputs, sameInput s.toCTxIn txin = true → s.fHasSig = true) →
    verifyInput env txin.scriptSig (spent txin.prevout) pool.finalTransaction n = true

theorem FinalValid.complete (h : FinalValid env spent pool) : CompleteIsValid env spent pool := fun hcomplete n txin hn =>
  h.valid n txin hn fun s hs _ => List.all_eq_true.mp hcomplete s hs

theorem finalValid_finalize (vinOrder : Order CTxIn) (voutOrder : Order CTxOut)
    (h : ∀ s ∈ pool.inputs, s.fHasSig = false) : FinalValid env spent (finalize vinOrder voutOrder nTime pool) := by
  have hinputs : ∀ txin ∈ (finalize vinOrder voutOrder nTime pool).finalTransaction.vin,
      ∃ s ∈ pool.inputs, sameInput s.toCTxIn txin = true := by
    intro txin hmem
    obtain ⟨s, hs, rfl⟩ := List.mem_map.mp ((vinOrder.perm _).mem_iff.mp hmem)
    exact ⟨s, hs, sameInput_iff.mpr ⟨rfl, rfl⟩⟩
  refine ⟨hinputs, fun n txin hn hsigned => ?_⟩
  obtain ⟨s, hs, hsame⟩ := hinputs txin (List.mem_of_getElem? hn)
  have hsig := hsigned s hs hsame
  rw [h s hs] at hsig
  cases hsig

theorem FinalValid.put (h : FinalValid env spent pool) (hhas : pool.hasScriptSig newVin.scriptSig = false)
    (hkeeps : KeepsSigned pool newVin) (hrightly : SubmitsRightly env spent pool newVin)
    (hfinal : pool'.finalTransaction = putSignature newVin pool.finalTransaction)
    (hsigned : List.Forall₂ (SignedAs newVin) pool.inputs pool'.inputs)
    (hclosed : ¬ pool.IsOpen newVin → pool'.inputs = pool.inputs) : FinalValid env spent pool' := by
  have hsame := sameButSignatures_put newVin pool.finalTransaction
  constructor
  · intro txin' hmem
    rw [hfinal, putSignature] at hmem
    obtain ⟨txin, htxin, rfl⟩ := List.mem_map.mp hmem
    obtain ⟨s, hs, hs'⟩ := h.inputs txin htxin
    obtain ⟨s', hs'mem, hrel⟩ := exists_signedAs hsigned hs
    refine ⟨s', hs'mem, ?_⟩
    exact sameInput_trans (sameInput_symm (sameInput_of_signedAs hrel)) (sameInput_trans hs' (sameInput_put newVin txin))
  · intro n txin' hn hall
    rw [hfinal, putSignature, List.getElem?_map, Option.map_eq_some_iff] at hn
    obtain ⟨txin, hn, rfl⟩ := hn
    rw [hfinal, ← verifyInput_congr hsame]
    by_cases hput : sameInput txin newVin.toCTxIn = true
    · rw [if_pos hput] at hall ⊢
      obtain ⟨s, hs, hs'⟩ := h.inputs txin (List.mem_of_getElem? hn)
      have hunsigned : pool.IsUnsigned newVin := hkeeps ⟨s, hs, sameInput_trans hs' hput⟩ hhas
      have hprevout : txin.prevout = newVin.prevout := (sameInput_iff.mp hput).1
      show verifyInput env newVin.scriptSig (spent txin.prevout) pool.finalTransaction n = true
      rw [hprevout]
      by_cases hopen : pool.IsOpen newVin
      · exact (hrightly hunsigned).mpr ⟨hhas, hopen⟩ n txin hn hput
      · obtain ⟨t, ht, htsame, htsig⟩ := hunsigned
        have htall := hall t (hclosed hopen ▸ ht) (sameInput_trans htsame (sameInput_symm hput))
        rw [htsig] at htall
        cases htall
    · rw [if_neg hput] at hall ⊢
      refine h.valid n txin hn fun s hs hstxin => ?_
      obtain ⟨s', hs', hrel⟩ := exists_signedAs hsigned hs
      have hs'sig := hall s' hs' (sameInput_trans (sameInput_symm (sameInput_of_signedAs hrel)) hstxin)
      rcases hrel with rfl | ⟨hsnew, -, -⟩
      · exact hs'sig
      · exact absurd (sameInput_trans (sameInput_symm hstxin) hsnew) hput

theorem FinalValid.step (h : FinalValid env spent pool) (hrightly : SubmitsRightly env spent pool newVin)
    (hkeeps : KeepsSigned pool newVin) : FinalValid env spent (addScriptSig env nTime pool newVin).2 := by
  cases hhas : pool.hasScriptSig newVin.scriptSig with
  | true =>
    rw [addScriptSig_of_has hhas]
    exact h
  | false =>
    rw [addScriptSig_of_new hhas]
    cases hadd : addSigs newVin pool.entries with
    | none => exact h.put hhas hkeeps hrightly rfl (signedAs_refl _) fun _ => rfl
    | some entries =>
      refine h.put hhas hkeeps hrightly rfl (addSigs_signedAs hadd) fun hclosed => ?_
      rw [isOpen_iff, hadd] at hclosed
      exact absurd rfl hclosed

theorem sign_concat (env : SigningEnv) (nTime : UInt32) (pool : MixingSession) (submitted : List CTxDSIn)
    (newVin : CTxDSIn) :
    sign env nTime pool (submitted ++ [newVin]) = (addScriptSig env nTime (sign env nTime pool submitted) newVin).2 := by
  rw [sign, List.foldl_append]
  rfl

/-- The masternode does not check the signatures: it accepts the right ones, and ends with valid ones, where the clients
submit no others. -/
theorem signsRightly (env : SigningEnv) (spent : COutPoint → CScript) : SignsRightly env spent where
  accepts nTime pool newVin := acceptsRightly_iff
  complete nTime vinOrder voutOrder pool submitted hunsigned hsubmits before hbefore := by
    refine FinalValid.complete ?_
    induction before using List.reverseRecOn with
    | nil => exact finalValid_finalize vinOrder voutOrder hunsigned
    | append_singleton before newVin ih =>
      obtain ⟨hrightly, hkeeps⟩ := hsubmits before newVin hbefore
      rw [sign_concat]
      exact (ih ((List.prefix_append before [newVin]).trans hbefore)).step hrightly hkeeps

end Signatures

end MixingSession

namespace Sample

def nullEntry : MixingSession.Event :=
  .addEntry ⟨0, 0⟩ [{ prevout := COutPoint.null, scriptSig := [], nSequence := 0, prevPubKey := [] }] 0 true []

/-- The users are counted below zero when an entry is refused. -/
theorem nullEntry_uncounts : ¬ ∀ (params : MixingParams) (now : Clock) (pool : MixingSession)
    (events : List MixingSession.Event), MixingSession.StaysSound params (pool.setNull now) events := by
  intro h
  obtain ⟨pool', hrun, hsound⟩ := h ⟨true, 9⟩ ⟨0, 0⟩ ⟨.idle, [], ⟨1, 0, [], [], 0⟩, 0, 0, []⟩ [nullEntry] [nullEntry]
    List.prefix_rfl
  obtain rfl := Except.ok.inj hrun
  exact absurd hsound.sessionUsers (by decide)

def unverifiedEnv : MixingSession.SigningEnv where
  scripts := scriptEnv []
  hash _ := 0
  verify _ _ _ := false

def unsignedSession : MixingSession where
  state := .signing
  entries := [⟨[⟨⟨⟨⟨1, 0⟩, [], 0⟩, []⟩, false⟩], [], 0⟩]
  finalTransaction := ⟨1, 0, [⟨⟨1, 0⟩, [], 0⟩], [], 0⟩
  lastTimeChanged := 0
  sessionUsers := 0
  queueTimes := []

def forgedInput : CTxDSIn := ⟨⟨⟨1, 0⟩, [1, 1], 0⟩, []⟩

/-- The masternode accepts any signature for an input that has none. -/
theorem forgedInput_accepted :
    ¬ ∀ (env : MixingSession.SigningEnv) (spent : COutPoint → CScript) (nTime : UInt32) (pool : MixingSession)
      (newVin : CTxDSIn), MixingSession.AcceptsRightly env spent pool newVin nTime := by
  intro h
  have haccepts := h unverifiedEnv (fun _ => CScript.pushData vchPubKey ++ [0xac]) 0 unsignedSession forgedInput
  have hvalid := (haccepts.mp (by decide)).2 0 ⟨⟨1, 0⟩, [], 0⟩ rfl (by decide)
  exact absurd hvalid (by decide +kernel)

end Sample

end PupaCoin
