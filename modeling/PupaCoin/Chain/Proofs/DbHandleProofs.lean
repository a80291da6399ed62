import PupaCoin.Chain.DbHandle

/-!
# Proofs: a handle of the transaction database

What a scan of the batch leaves in the scanner is the last operation of the batch on the key. From this a call to
a handle is compared with a call to the map that the commit would leave, and then a sequence of calls.
-/

namespace PupaCoin

section Scanner

variable (batch : WriteBatch) (key value : List UInt8)

@[simp] theorem scanBatch_nil : scanBatch [] key value = ⟨false, value, false⟩ := rfl

theorem scanBatch_append_singleton (op : Overlay.Op (List UInt8) (List UInt8)) :
    scanBatch (batch ++ [op]) key value = (scanBatch batch key value).handle key op := by
  rw [scanBatch, List.foldl_append]
  rfl

theorem scanBatch_flags : (scanBatch batch key value).foundEntry = (Overlay.scan batch key).isSome
      ∧ (scanBatch batch key value).deleted = (Overlay.scan batch key == some none) := by
  induction batch using List.reverseRecOn with
  | nil => exact ⟨rfl, rfl⟩
  | append_singleton batch op ih =>
    rw [scanBatch_append_singleton, Overlay.scan_append_singleton]
    by_cases hkey : op.key = key
    · rw [if_pos hkey]
      cases op with
      | put k v =>
        have hk : k = key := hkey
        simp [CBatchScanner.handle, hk, Overlay.Op.value]
      | delete k =>
        have hk : k = key := hkey
        simp [CBatchScanner.handle, hk, Overlay.Op.value]
    · rw [if_neg hkey]
      cases op with
      | put k v =>
        have hk : ¬k = key := hkey
        simpa [CBatchScanner.handle, hk] using ih
      | delete k =>
        have hk : ¬k = key := hkey
        simpa [CBatchScanner.handle, hk] using ih

theorem scanBatch_foundValue {v : List UInt8} (h : Overlay.scan batch key = some (some v)) :
    (scanBatch batch key value).foundValue = v := by
  induction batch using List.reverseRecOn with
  | nil => cases h
  | append_singleton batch op ih =>
    rw [Overlay.scan_append_singleton] at h
    rw [scanBatch_append_singleton]
    by_cases hkey : op.key = key
    · rw [if_pos hkey] at h
      cases op with
      | put k w =>
        have hk : k = key := hkey
        have hw : w = v := Option.some.inj (Option.some.inj h)
        simp [CBatchScanner.handle, hk, hw]
      | delete k => simp [Overlay.Op.value] at h
    · rw [if_neg hkey] at h
      cases op with
      | put k w =>
        have hk : ¬k = key := hkey
        simpa [CBatchScanner.handle, hk] using ih h
      | delete k =>
        have hk : ¬k = key := hkey
        simpa [CBatchScanner.handle, hk] using ih h

end Scanner

section Call

variable {T : Type} {db : LevelDb} {batch : WriteBatch} {fReadOnly : Bool} {key : List UInt8}

theorem CTxDB.readString_eq :
    CTxDB.readString ⟨some db, some batch, fReadOnly⟩ key = .ok (Overlay.get db batch key) := by
  obtain ⟨hfound, hdeleted⟩ := scanBatch_flags batch key []
  unfold CTxDB.readString Overlay.get
  simp only [hfound, hdeleted]
  cases hscan : Overlay.scan batch key with
  | none => rfl
  | some last =>
    cases last with
    | none => rfl
    | some v =>
      rw [scanBatch_foundValue batch key [] hscan]
      rfl

theorem CTxDB.existsKey_eq : CTxDB.existsKey ⟨some db, some batch, fReadOnly⟩ key =
      .ok (if Overlay.scan batch key = some none then (db key).isSome else (Overlay.get db batch key).isSome) := by
  obtain ⟨hfound, hdeleted⟩ := scanBatch_flags batch key []
  unfold CTxDB.existsKey Overlay.get
  simp only [hfound, hdeleted]
  cases hscan : Overlay.scan batch key with
  | none => rfl
  | some last =>
    cases last with
    | none => rfl
    | some v => rfl

theorem DbCall.run_eq (db : LevelDb) (batch : WriteBatch) (status : Bool) (call : DbCall T)
    (hpermitted : fReadOnly = true → call.op? = none) :
    ∃ returned, call.run status ⟨some db, some batch, fReadOnly⟩
        = .ok (returned, ⟨some db, some (batch ++ call.op?.toList), fReadOnly⟩)
      ∧ (returned = call.answer (Overlay.commit db batch) ↔ ¬call.AsksErased db batch) := by
  have hwritable {op : Overlay.Op (List UInt8) (List UInt8)} (hop : call.op? = some op) : fReadOnly = false := by
    cases fReadOnly with
    | false => rfl
    | true => exact nomatch (hpermitted rfl).symm.trans hop
  cases call with
  | read key unserialize =>
    refine ⟨.value ((Overlay.commit db batch key).bind unserialize), ?_, ?_⟩
    · simp only [DbCall.run, CTxDB.read, CTxDB.readString_eq, Overlay.get_eq_commit, DbCall.op?,
        Option.toList_none, List.append_nil]
      rfl
    · exact iff_of_true rfl id
  | existsKey key =>
    refine ⟨.bool (if Overlay.scan batch key = some none then (db key).isSome
      else (Overlay.get db batch key).isSome), ?_, ?_⟩
    · simp only [DbCall.run, CTxDB.existsKey_eq, DbCall.op?, Option.toList_none, List.append_nil]
      rfl
    · simp only [DbCall.answer, DbCall.AsksErased, DbAnswer.bool.injEq, ← Overlay.get_eq_commit]
      by_cases hscan : Overlay.scan batch key = some none
      · have hget : Overlay.get db batch key = none := by rw [Overlay.get, hscan]
        rw [if_pos hscan, hget]
        simp [hscan]
      · rw [if_neg hscan]
        simp [hscan]
  | write key value =>
    obtain rfl := hwritable rfl
    exact ⟨.bool true, rfl, iff_of_true rfl id⟩
  | erase key =>
    obtain rfl := hwritable rfl
    exact ⟨.bool true, rfl, iff_of_true rfl id⟩

theorem DbCall.apply_commit (call : DbCall T) :
    call.apply (Overlay.commit db batch) = Overlay.commit db (batch ++ call.op?.toList) := by
  unfold DbCall.apply
  cases call.op? with
  | none => rw [Option.toList_none, List.append_nil]
  | some op => rw [Option.toList_some, Overlay.commit_append_singleton]

theorem DbCall.ops_cons (call : DbCall T) (calls : List (DbCall T)) :
    DbCall.ops (call :: calls) = call.op?.toList ++ DbCall.ops calls := by
  unfold DbCall.ops
  cases hop : call.op? with
  | none => rw [List.filterMap_cons_none hop, Option.toList_none, List.nil_append]
  | some op => rw [List.filterMap_cons_some hop, Option.toList_some, List.singleton_append]

end Call

namespace DbCall

variable {T : Type} {db : LevelDb} {batch : WriteBatch} {fReadOnly : Bool}

theorem forall_split_cons {α : Type} {P : List α → α → Prop} {a : α} {l : List α} :
    (∀ front b back, a :: l = front ++ b :: back → P front b) ↔
      P [] a ∧ ∀ front b back, l = front ++ b :: back → P (a :: front) b := by
  constructor
  · intro h
    refine ⟨h [] a l rfl, fun front b back heq => h (a :: front) b back ?_⟩
    rw [heq, List.cons_append]
  · rintro ⟨hfirst, hrest⟩ front b back heq
    cases front with
    | nil =>
      obtain ⟨rfl, rfl⟩ := List.cons.inj heq
      exact hfirst
    | cons c front =>
      obtain ⟨rfl, hl⟩ := List.cons.inj heq
      exact hrest front b back hl

/-- Calls return what they return on the map that the commit would leave, unless one of them asks for an erased key.
They add their operations to the batch. By induction on the calls. -/
theorem runAll_eq (db : LevelDb) (batch : WriteBatch) (calls : List (DbCall T)) (hpermitted : Permitted fReadOnly calls) :
    ∃ returned, runAll ⟨some db, some batch, fReadOnly⟩ calls
        = .ok (returned, ⟨some db, some (batch ++ ops calls), fReadOnly⟩)
      ∧ (returned = answers (Overlay.commit db batch) calls ↔
        ∀ front call back, calls = front ++ call :: back → ¬call.AsksErased db (batch ++ ops front)) := by
  induction calls generalizing batch with
  | nil =>
    refine ⟨[], ?_, iff_of_true rfl ?_⟩
    · rw [ops, List.filterMap_nil, List.append_nil]
      rfl
    · intro front call back h
      simp at h
  | cons call calls ih =>
    obtain ⟨first, hfirst, hfirstEq⟩ := call.run_eq db batch true
      fun hro => hpermitted hro call List.mem_cons_self
    obtain ⟨rest, hrest, hrestEq⟩ := ih (batch ++ call.op?.toList)
      fun hro c hc => hpermitted hro c (List.mem_cons_of_mem call hc)
    refine ⟨first :: rest, ?_, ?_⟩
    · rw [List.append_assoc, ← ops_cons] at hrest
      simp only [runAll, hfirst, bind, Except.bind, hrest]
      rfl
    · rw [answers, List.cons.injEq, hfirstEq, apply_commit, hrestEq, forall_split_cons]
      simp only [ops_cons, List.append_assoc]
      have hnil : batch ++ ops ([] : List (DbCall T)) = batch := List.append_nil batch
      rw [hnil]

theorem foldl_apply_eq (db : LevelDb) (batch : WriteBatch) (calls : List (DbCall T)) :
    calls.foldl apply (Overlay.commit db batch) = Overlay.commit db (batch ++ ops calls) := by
  induction calls generalizing batch with
  | nil => exact congrArg (Overlay.commit db) (List.append_nil batch).symm
  | cons call calls ih => rw [List.foldl_cons, apply_commit, ih, ops_cons, List.append_assoc]

/-- The calls of a transaction behave as calls to a map if and only if `Exists` is never asked for a key that the
database has and that the transaction erased last. -/
theorem behavesAsMap_iff {calls : List (DbCall T)} (hpermitted : Permitted fReadOnly calls) :
    BehavesAsMap db fReadOnly calls ↔
      ∀ front call back, calls = front ++ call :: back → ¬call.AsksErased db (ops front) := by
  obtain ⟨returned, hrun, hreturned⟩ := runAll_eq db [] calls hpermitted
  rw [List.nil_append] at hrun
  simp only [List.nil_append] at hreturned
  have hcommit := foldl_apply_eq db [] calls
  rw [List.nil_append] at hcommit
  rw [← hreturned]
  constructor
  · rintro ⟨begun, returned', ended, hbegin, hrun', hanswers, -⟩
    cases hbegin
    rw [hrun] at hrun'
    cases hrun'
    exact hanswers
  · intro hanswers
    refine ⟨_, returned, _, rfl, hrun, hanswers, ?_, rfl⟩
    have hmap : calls.foldl apply db = Overlay.commit db (ops calls) := hcommit
    rw [hmap]
    rfl

theorem permitted_of_writable (calls : List (DbCall T)) : Permitted false calls :=
  fun h => absurd h (by decide)

theorem behavesAsMap_rewritten : BehavesAsMap (Function.update (fun _ => none) [1] (some [7])) false
      ([.erase [1], .write [1] [8], .existsKey [1]] : List (DbCall Unit)) :=
  (behavesAsMap_iff (permitted_of_writable _)).mpr (by
    simp only [forall_split_cons]
    refine ⟨?_, ?_, ?_, ?_⟩
    · exact id
    · exact id
    · rintro ⟨-, hlast⟩
      exact absurd hlast (by decide)
    · intro front call back h
      simp at h)

/-- `Exists` answers that an erased key is there. -/
theorem not_behavesAsMap_erased : Permitted false ([.erase [1], .existsKey [1]] : List (DbCall Unit))
      ∧ ¬BehavesAsMap (Function.update (fun _ => none) [1] (some [7])) false
        ([.erase [1], .existsKey [1]] : List (DbCall Unit)) := by
  refine ⟨permitted_of_writable _, ?_⟩
  rintro ⟨begun, returned, ended, hbegin, hrun, hanswers, -⟩
  cases hbegin
  have htrue : (runAll ⟨some (Function.update (fun _ => none) [1] (some [7])), some [], false⟩
      ([.erase [1], .existsKey [1]] : List (DbCall Unit))).map Prod.fst = .ok [.bool true, .bool true] := rfl
  rw [hrun] at htrue
  have hreturned : returned = [.bool true, .bool true] := Except.ok.inj htrue
  rw [hreturned] at hanswers
  exact absurd hanswers (by decide)

end DbCall

section Sessions

variable {T : Type} {t t' : CTxDB} {m : MapStore} {a : Option (DbAnswer T)} {status : Bool}

theorem DbCall.permitted_of_returns {call : DbCall T} {answer : DbAnswer T} (h : call.run status t = .ok (answer, t')) :
    t.pdb.isSome → t.fReadOnly = true → call.op? = none := by
  obtain ⟨pdb, batch, fReadOnly⟩ := t
  rintro hdb rfl
  obtain ⟨db, rfl⟩ := Option.isSome_iff_exists.mp hdb
  cases call with
  | read => rfl
  | existsKey => rfl
  | write key value => cases h
  | erase key => cases h

/-- One step. A call without a transaction writes to the database at once, if the database takes it. -/
theorem CTxDB.Stands.step (hm : t.Stands m) {step : DbStep T} (h : step.run t = .ok (a, t')) :
    t'.Stands (step.apply m) ∧ (¬ step.AsksErased t → a = step.answer m) := by
  obtain ⟨pdb, batch, fReadOnly⟩ := t
  obtain ⟨disk, pending⟩ := m
  obtain ⟨hdb, hpending⟩ := hm
  dsimp only at hdb hpending
  subst hdb hpending
  cases batch with
  | none =>
    cases step with
    | txnBegin =>
      cases h
      exact ⟨⟨rfl, rfl⟩, fun _ => rfl⟩
    | txnCommit status => cases h
    | txnAbort =>
      cases h
      exact ⟨⟨rfl, rfl⟩, fun _ => rfl⟩
    | dbCall status call =>
      unfold DbStep.run at h
      obtain ⟨⟨answer, t1⟩, hcall, heq⟩ := Guards.bind_eq_ok.mp h
      cases heq
      cases call with
      | read key unserialize =>
        cases hcall
        exact ⟨by cases status <;> exact ⟨rfl, rfl⟩, fun _ => rfl⟩
      | existsKey key =>
        cases hcall
        exact ⟨by cases status <;> exact ⟨rfl, rfl⟩, fun _ => rfl⟩
      | write key value =>
        cases fReadOnly with
        | true => cases hcall
        | false =>
          cases hcall
          exact ⟨by cases status <;> exact ⟨rfl, rfl⟩, fun _ => rfl⟩
      | erase key =>
        cases fReadOnly with
        | true => cases hcall
        | false =>
          cases hcall
          exact ⟨by cases status <;> exact ⟨rfl, rfl⟩, fun _ => rfl⟩
  | some batch =>
    cases step with
    | txnBegin => cases h
    | txnCommit status =>
      cases h
      cases status with
      | true => exact ⟨⟨rfl, rfl⟩, fun _ => rfl⟩
      | false => exact ⟨⟨rfl, rfl⟩, fun _ => rfl⟩
    | txnAbort =>
      cases h
      exact ⟨⟨rfl, rfl⟩, fun _ => rfl⟩
    | dbCall status call =>
      unfold DbStep.run at h
      obtain ⟨⟨answer, t1⟩, hcall, heq⟩ := Guards.bind_eq_ok.mp h
      obtain ⟨returned, hreturns, hiff⟩ := call.run_eq disk batch status (call.permitted_of_returns hcall rfl)
      rw [hreturns] at hcall
      cases hcall
      cases heq
      refine ⟨⟨rfl, ?_⟩, fun hasks => ?_⟩
      · exact congrArg some call.apply_commit.symm
      · exact congrArg some (hiff.mpr fun herased => hasks ⟨disk, batch, rfl, rfl, herased⟩)

/-- **Sessions.** Whatever transactions are begun, committed, refused by the disk or aborted, a handle stands for the maps
that the steps leave, and the next step answers as they do, unless it is the `Exists` of an erased key. -/
theorem session_stands {db : LevelDb} {fReadOnly : Bool} {steps : List (DbStep T)} {step : DbStep T}
    (hrun : steps.foldlM (fun t step => Prod.snd <$> step.run t) (⟨some db, none, fReadOnly⟩ : CTxDB) = .ok t)
    (hstep : step.run t = .ok (a, t')) (hasks : ¬ step.AsksErased t) :
    t.Stands (steps.foldl DbStep.apply ⟨db, none⟩) ∧ a = step.answer (steps.foldl DbStep.apply ⟨db, none⟩) := by
  have hstands : t.Stands (steps.foldl DbStep.apply ⟨db, none⟩) := by
    refine Guards.foldlM_invariant (fun steps t => t.Stands (steps.foldl DbStep.apply ⟨db, none⟩)) ?_ steps [] _ t
      ⟨rfl, rfl⟩ hrun
    intro steps t step t' ht hround
    rw [List.foldl_append]
    cases hreturns : step.run t with
    | error e => rw [hreturns] at hround; cases hround
    | ok returned =>
      rw [hreturns] at hround
      cases hround
      exact (ht.step hreturns).1
  exact ⟨hstands, (hstands.step hstep).2 hasks⟩

/-- A value is refused, and the commit of the next one fails. -/
def retriedSteps : List (DbStep (List UInt8)) :=
  [.dbCall false (.write [1] [6]), .txnBegin, .dbCall true (.write [1] [7]), .txnCommit false, .txnBegin,
    .dbCall true (.write [1] [8])]

theorem session_stands_retried : (some (.value (some [8])) : Option (DbAnswer (List UInt8)))
    = (DbStep.dbCall true (.read [1] some)).answer (retriedSteps.foldl DbStep.apply ⟨fun _ => none, none⟩) := by
  have hrun : retriedSteps.foldlM (fun t step => Prod.snd <$> step.run t)
      (⟨some fun _ => none, none, false⟩ : CTxDB) = .ok ⟨some fun _ => none, some [.put [1] [8]], false⟩ := rfl
  have hread : (DbStep.dbCall true (.read [1] some)).run ⟨some fun _ => none, some [.put [1] [8]], false⟩
      = .ok (some (.value (some [8])), ⟨some fun _ => none, some [.put [1] [8]], false⟩) := rfl
  refine (session_stands hrun hread ?_).2
  rintro ⟨_, _, -, -, h⟩
  exact h

end Sessions

end PupaCoin
