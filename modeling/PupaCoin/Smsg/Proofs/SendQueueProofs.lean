import PupaCoin.Smsg.SendQueue
import PupaCoin.Smsg.Proofs.CryptProofs

/-!
# Proofs: what is sent is lost nowhere

The thread and the calls of `SecureMsgSend` take their steps in any order. A message is in the queue until it has been
worked for, unless another one is written under its key.
-/

namespace PupaCoin.Smsg

variable {sPrefix : Bytes} {e : Bytes × SecMsgStored} {smsgDB : OrderedMap Bytes SecMsgStored} {fOpens fErased : Bool}
  {rv : Int} {thread : PowThread}

open OrderedMap
open scoped List

theorem length_smesgKey (h : sPrefix.length = 2) (timestamp : Int) (pPayload : UInt64) :
    (smesgKey sPrefix timestamp pPayload).length = 18 := by
  rw [smesgKey, List.length_append, List.length_append, h, LittleEndian.length_ofInt, LittleEndian.length_ofNat]

theorem take_smesgKey (h : sPrefix.length = 2) (timestamp : Int) (pPayload : UInt64) :
    (smesgKey sPrefix timestamp pPayload).take 2 = sPrefix := by
  rw [smesgKey, List.append_assoc, ← h, List.take_left]

theorem isQueued_iff : isQueued e = true ↔ e.1.length = 18 ∧ queueMark <+: e.1 := by
  rw [isQueued, Bool.and_eq_true, decide_eq_true_iff, decide_eq_true_iff, List.prefix_iff_eq_take]
  exact and_congr_right fun _ => eq_comm

theorem isQueued_eq_false (h : e.1.take 2 = sentMark) : isQueued e = false := by
  rw [isQueued, h]
  exact Bool.and_false _

theorem takeWhile_isQueued (h : ∀ e ∈ smsgDB.entries, e.1.length = 18) :
    (smsgDB.entries.dropWhile fun e => decide (e.1 < queueMark)).takeWhile isQueued
      = smsgDB.entries.filter isQueued := by
  refine takeWhile_dropWhile_eq_filter smsgDB.sorted (fun e _ hlt => ?_) fun e he e' _ hle hq hlt => ?_
  · refine Bool.eq_false_iff.mpr fun hq => ?_
    exact absurd hlt (List.not_lt.mpr (List.IsPrefix.le (isQueued_iff.1 hq).2))
  · refine Bool.eq_false_iff.mpr fun hq' => Bool.eq_false_iff.mp hq ?_
    exact isQueued_iff.2 ⟨h e he, isPrefix_of_between hle hlt (isQueued_iff.1 hq').2⟩

section Steps

variable {env : SendEnv} {s s' s₀ t : QueueNode} {event : QueueEvent env} {events more : List (QueueEvent env)}

theorem Sent.writes_keys (sent : Sent env) :
    (∃ timestamp pPayload, sent.writes.queued.1 = smesgKey queueMark timestamp pPayload) ∧
      ∀ e, sent.writes.saved = some e → ∃ timestamp pPayload, e.1 = smesgKey sentMark timestamp pPayload := by
  obtain ⟨call, writes, returns⟩ := sent
  show (∃ timestamp pPayload, writes.queued.1 = smesgKey queueMark timestamp pPayload) ∧
    ∀ e, writes.saved = some e → ∃ timestamp pPayload, e.1 = smesgKey sentMark timestamp pPayload
  unfold secureMsgSend at returns
  simp only [bind, Except.bind, pure, Except.pure, throw, throwThe, MonadExceptOf.throw] at returns
  split at returns
  · cases returns
  split at returns
  · cases returns
  split at returns
  · cases returns
  · cases returns
  split at returns
  · cases returns
    exact ⟨⟨_, _, rfl⟩, fun e he => nomatch he⟩
  split at returns
  · cases returns
    exact ⟨⟨_, _, rfl⟩, fun e he => nomatch he⟩
  · cases returns
  · cases returns
    refine ⟨⟨_, _, rfl⟩, fun e he => ?_⟩
    rw [← Option.some.inj he]
    exact ⟨_, _, rfl⟩

theorem Sent.isQueued (sent : Sent env) : isQueued sent.writes.queued = true := by
  obtain ⟨timestamp, pPayload, hkey⟩ := sent.writes_keys.1
  rw [Smsg.isQueued, hkey, length_smesgKey rfl, take_smesgKey rfl]
  rfl

theorem Sent.saved_key (sent : Sent env) (h : sent.writes.saved = some e) :
    e.1.length = 18 ∧ Smsg.isQueued e = false := by
  obtain ⟨timestamp, pPayload, hkey⟩ := sent.writes_keys.2 e h
  refine ⟨hkey ▸ length_smesgKey rfl _ _, isQueued_eq_false ?_⟩
  rw [hkey, take_smesgKey rfl]

theorem isQueued_of_mem_savedBy (h : e ∈ savedBy events) : isQueued e = false := by
  obtain ⟨event, -, he⟩ := List.mem_filterMap.mp h
  cases event with
  | save sent fWritten => exact (sent.saved_key he).2
  | _ => exact nomatch he

theorem todo_of_sleeping (h : s.thread = .sleeping) : s.thread.todo = [] := by rw [h]; rfl

theorem sleeping_of_wake (h : s.step (.wake fOpens : QueueEvent env) = some s') : s.thread = .sleeping := by
  cases hthread : s.thread with
  | sleeping => rfl
  | scanning it =>
    simp only [QueueNode.step, hthread] at h
    exact nomatch h
  | hashing chKey smsgStored it =>
    simp only [QueueNode.step, hthread] at h
    exact nomatch h

theorem step_wake (h : s.step (.wake fOpens : QueueEvent env) = some s') :
    s.thread.todo = [] ∧ (s' = s ∨ ∃ thread : PowThread, s' = { s with thread } ∧ thread.todo
      = (s.smsgDB.entries.dropWhile fun e => decide (e.1 < queueMark)).takeWhile isQueued) := by
  have hthread := sleeping_of_wake h
  rw [hthread]
  simp only [QueueNode.step, hthread, Option.some.injEq] at h
  refine ⟨rfl, ?_⟩
  cases fOpens with
  | false => exact Or.inl h.symm
  | true => exact Or.inr ⟨_, h.symm, rfl⟩

theorem step_next (h : s.step (.next : QueueEvent env) = some s') :
    ∃ thread : PowThread, s' = { s with thread } ∧ thread.todo = s.thread.todo := by
  cases hthread : s.thread with
  | scanning it =>
    simp only [QueueNode.step, hthread, nextSmesg] at h
    cases hadvance : it.advance with
    | nil =>
      simp only [hadvance, Option.some.injEq] at h
      refine ⟨_, h.symm, ?_⟩
      rw [PowThread.todo, PowThread.todo, hadvance, List.takeWhile_nil]
    | cons e rest =>
      simp only [hadvance] at h
      by_cases hq : isQueued e = true
      · simp only [hq, if_true, Option.some.injEq] at h
        refine ⟨_, h.symm, ?_⟩
        rw [PowThread.todo, PowThread.todo, hadvance, List.takeWhile_cons_of_pos hq]
        rfl
      · simp only [hq, Bool.false_eq_true, if_false, Option.some.injEq] at h
        refine ⟨_, h.symm, ?_⟩
        rw [PowThread.todo, PowThread.todo, hadvance, List.takeWhile_cons_of_neg hq]
  | sleeping =>
    simp only [QueueNode.step, hthread] at h
    exact nomatch h
  | hashing chKey smsgStored it =>
    simp only [QueueNode.step, hthread] at h
    exact nomatch h

theorem step_hashed (h : s.step (.hashed rv fErased : QueueEvent env) = some s') :
    ∃ e rest, s.thread.todo = e :: rest ∧ (rv = 2 ∧ s' = { s with thread := .sleeping } ∨
        rv ≠ 2 ∧ ∃ thread : PowThread, thread.todo = rest ∧
          s' = { s.eraseSmesg fErased e.1 with thread, worked := s.worked ++ [e.2] }) := by
  cases hthread : s.thread with
  | hashing chKey smsgStored it =>
    refine ⟨_, _, rfl, ?_⟩
    simp only [QueueNode.step, hthread] at h
    split_ifs at h with hrv
    · exact Or.inl ⟨hrv, (Option.some.inj h).symm⟩
    · exact Or.inr ⟨hrv, .scanning it, rfl, (Option.some.inj h).symm⟩
  | sleeping =>
    simp only [QueueNode.step, hthread] at h
    exact nomatch h
  | scanning it =>
    simp only [QueueNode.step, hthread] at h
    exact nomatch h

/-- What the thread is yet to work for is in the queue. -/
structure QueueInv (s : QueueNode) : Prop where
  keys : ∀ e ∈ s.smsgDB.entries, e.1.length = 18
  sorted : s.thread.todo.Pairwise fun a b => a.1 < b.1
  present : ∀ e ∈ s.thread.todo, e ∈ s.smsgDB.entries ∧ isQueued e = true

theorem QueueInv.of_atStart (h : AtStart s) : QueueInv s := by
  have htodo : s.thread.todo = [] := todo_of_sleeping h.thread
  refine ⟨h.keys, htodo ▸ List.Pairwise.nil, fun e he => ?_⟩
  rw [htodo] at he
  exact absurd he List.not_mem_nil

theorem QueueInv.with_thread (h : QueueInv s) (htodo : thread.todo = s.thread.todo) : QueueInv { s with thread } :=
  ⟨h.keys, htodo ▸ h.sorted, htodo ▸ h.present⟩

theorem QueueInv.with_sleeping (h : QueueInv s) : QueueInv { s with thread := .sleeping } :=
  ⟨h.keys, List.Pairwise.nil, nofun⟩

theorem QueueInv.with_scan (h : QueueInv s)
    (htodo : thread.todo = (s.smsgDB.entries.dropWhile fun e => decide (e.1 < queueMark)).takeWhile isQueued) :
    QueueInv { s with thread } := by
  rw [takeWhile_isQueued h.keys] at htodo
  refine ⟨h.keys, htodo ▸ s.smsgDB.sorted.filter _, fun e he => ?_⟩
  rw [htodo] at he
  exact List.mem_filter.mp he

theorem QueueInv.write (h : QueueInv s) (hkey : e.1.length = 18) (hfree : s.smsgDB.find? e.1 = none)
    : QueueInv { s with smsgDB := s.smsgDB.set e.1 e.2 } := by
  refine ⟨fun e' he' => ?_, h.sorted, fun e' he' => ⟨mem_set.mpr (Or.inr ⟨(h.present e' he').1, ?_⟩),
    (h.present e' he').2⟩⟩
  · rcases mem_set.mp he' with rfl | ⟨he', -⟩
    · exact hkey
    · exact h.keys e' he'
  · intro heq
    exact find?_eq_none_iff.mp hfree e'.2 (heq ▸ (h.present e' he').1)

theorem QueueInv.erase (h : QueueInv s) {rest : List (Bytes × SecMsgStored)} {worked : List SecMsgStored} (htodo : s.thread.todo = e :: rest) (hrest : thread.todo = rest) :
    QueueInv { s with smsgDB := s.smsgDB.erase e.1, thread, worked } := by
  have hsorted := h.sorted
  rw [htodo] at hsorted
  obtain ⟨hhead, htail⟩ := List.pairwise_cons.mp hsorted
  refine ⟨fun e' he' => h.keys e' (mem_erase.mp he').1, hrest ▸ htail, fun e' he' => ?_⟩
  have hmem : e' ∈ rest := hrest ▸ he'
  have hpresent := h.present e' (htodo ▸ List.mem_cons_of_mem e hmem)
  exact ⟨mem_erase.mpr ⟨hpresent.1, (hhead e' hmem).ne'⟩, hpresent.2⟩

theorem QueueInv.step (h : QueueInv s) (hfresh : FreshEvent s event) (hstep : s.step event = some s') :
    QueueInv s' := by
  cases event with
  | queue sent fWritten =>
    obtain ⟨rfl, hfree⟩ := hfresh
    rw [← Option.some.inj hstep]
    exact h.write (isQueued_iff.1 sent.isQueued).1 hfree
  | save sent fWritten =>
    obtain ⟨rfl, hfree⟩ := hfresh
    cases hsaved : sent.writes.saved with
    | none =>
      simp only [QueueNode.step, hsaved, Option.some.injEq] at hstep
      exact hstep ▸ h
    | some e =>
      simp only [QueueNode.step, hsaved, Option.some.injEq] at hstep
      exact hstep ▸ h.write (sent.saved_key hsaved).1 (hfree e hsaved)
  | wake fOpens =>
    obtain ⟨-, rfl | ⟨thread, rfl, htodo⟩⟩ := step_wake hstep
    · exact h
    · exact h.with_scan htodo
  | next =>
    obtain ⟨thread, rfl, htodo⟩ := step_next hstep
    exact h.with_thread htodo
  | hashed rv fErased =>
    obtain ⟨e, rest, htodo, ⟨-, rfl⟩ | ⟨hrv, thread, hrest, rfl⟩⟩ := step_hashed hstep
    · exact h.with_sleeping
    · obtain rfl : fErased = true := hfresh.resolve_left hrv
      exact h.erase htodo hrest

theorem queueOf_set (hfree : smsgDB.find? e.1 = none) :
    (queueOf (smsgDB.set e.1 e.2)).Perm ((if isQueued e then [e.2] else []) ++ queueOf smsgDB) := by
  have hperm := ((set_perm_of_none (v := e.2) hfree).filter isQueued).map Prod.snd
  rw [List.filter_cons] at hperm
  split_ifs at hperm ⊢ with hq
  · exact hperm
  · exact hperm

theorem queueOf_erase (hmem : e ∈ smsgDB.entries) (hq : isQueued e = true) :
    (queueOf smsgDB).Perm (e.2 :: queueOf (smsgDB.erase e.1)) := by
  have hperm := ((erase_perm_of_some (find?_eq_some_iff.mpr hmem)).filter isQueued).map Prod.snd
  rw [List.filter_cons_of_pos hq] at hperm
  exact hperm

theorem queuedBy_append_singleton (events : List (QueueEvent env)) (event : QueueEvent env) :
    queuedBy (events ++ [event]) = queuedBy events ++ queuedBy [event] := List.filterMap_append

theorem savedBy_append_singleton (events : List (QueueEvent env)) (event : QueueEvent env) :
    savedBy (events ++ [event]) = savedBy events ++ savedBy [event] := List.filterMap_append

/-- What is written under a new key is there, and so is what was there. -/
theorem find?_set_of_fresh {e' : Bytes × SecMsgStored} (hfree : smsgDB.find? e.1 = none)
    (h : smsgDB.find? e'.1 = some e'.2) : (smsgDB.set e.1 e.2).find? e'.1 = some e'.2 := by
  rw [find?_set_of_ne, h]
  intro heq
  rw [heq, hfree] at h
  exact nomatch h

theorem Lossless.idle (h : Lossless s₀ events s) (hqueued : queuedBy [event] = []) (hsaved : savedBy [event] = [])
    : Lossless s₀ (events ++ [event]) { s with thread } := by
  refine ⟨?_, fun e he => h.saved e ?_⟩
  · rw [queuedBy_append_singleton, hqueued, List.append_nil]
    exact h.queued
  · rw [savedBy_append_singleton, hsaved, List.append_nil] at he
    exact he

theorem Lossless.queue (h : Lossless s₀ events s) (sent : Sent env) (fWritten : Bool)
    (hfree : s.smsgDB.find? sent.writes.queued.1 = none) : Lossless s₀ (events ++ [.queue sent fWritten])
      { s with smsgDB := s.smsgDB.set sent.writes.queued.1 sent.writes.queued.2 } := by
  refine ⟨?_, fun e he => find?_set_of_fresh hfree (h.saved e ?_)⟩
  · have hset := queueOf_set hfree
    rw [if_pos sent.isQueued] at hset
    rw [queuedBy_append_singleton, ← List.append_assoc]
    calc (queueOf s₀.smsgDB ++ queuedBy events) ++ [sent.writes.queued.2]
        ~ (s.worked ++ queueOf s.smsgDB) ++ [sent.writes.queued.2] := h.queued.append_right _
      _ = s.worked ++ (queueOf s.smsgDB ++ [sent.writes.queued.2]) := List.append_assoc _ _ _
      _ ~ s.worked ++ (sent.writes.queued.2 :: queueOf s.smsgDB) := (List.perm_append_singleton _ _).append_left _
      _ ~ s.worked ++ queueOf (s.smsgDB.set sent.writes.queued.1 sent.writes.queued.2) := hset.symm.append_left _
  · rw [savedBy_append_singleton] at he
    exact (List.mem_append.mp he).resolve_right List.not_mem_nil

theorem Lossless.save (h : Lossless s₀ events s) (sent : Sent env) (fWritten : Bool)
    (hsaved : sent.writes.saved = some e) (hfree : s.smsgDB.find? e.1 = none) :
    Lossless s₀ (events ++ [.save sent fWritten]) { s with smsgDB := s.smsgDB.set e.1 e.2 } := by
  have hsavedBy : savedBy [QueueEvent.save sent fWritten] = [e] := by simp [savedBy, hsaved]
  refine ⟨?_, fun e' he' => ?_⟩
  · have hset := queueOf_set hfree
    rw [(sent.saved_key hsaved).2] at hset
    rw [queuedBy_append_singleton]
    show queueOf s₀.smsgDB ++ (queuedBy events ++ []) ~ s.worked ++ queueOf (s.smsgDB.set e.1 e.2)
    rw [List.append_nil]
    exact h.queued.trans (hset.symm.append_left _)
  · rw [savedBy_append_singleton, hsavedBy] at he'
    rcases List.mem_append.mp he' with he' | he'
    · exact find?_set_of_fresh hfree (h.saved e' he')
    · rw [List.mem_singleton.mp he']
      exact find?_set_self _ _ _

theorem Lossless.work (h : Lossless s₀ events s) (hmem : e ∈ s.smsgDB.entries) (hq : isQueued e = true) :
    Lossless s₀ (events ++ [.hashed rv fErased])
      { s with smsgDB := s.smsgDB.erase e.1, thread, worked := s.worked ++ [e.2] } := by
  refine ⟨?_, fun e' he' => ?_⟩
  · rw [queuedBy_append_singleton]
    calc queueOf s₀.smsgDB ++ (queuedBy events ++ [])
        = queueOf s₀.smsgDB ++ queuedBy events := by rw [List.append_nil]
      _ ~ s.worked ++ queueOf s.smsgDB := h.queued
      _ ~ s.worked ++ (e.2 :: queueOf (s.smsgDB.erase e.1)) := (queueOf_erase hmem hq).append_left _
      _ = (s.worked ++ [e.2]) ++ queueOf (s.smsgDB.erase e.1) := List.append_cons _ _ _
  · rw [savedBy_append_singleton] at he'
    have hsaved := (List.mem_append.mp he').resolve_right List.not_mem_nil
    rw [find?_erase_of_ne, h.saved e' hsaved]
    intro heq
    have hne : e' = e := Prod.ext heq (value_unique (heq ▸ find?_eq_some_iff.mp (h.saved e' hsaved)) hmem)
    rw [← hne, isQueued_of_mem_savedBy hsaved] at hq
    exact nomatch hq

theorem Lossless.step (h : Lossless s₀ events s) (hinv : QueueInv s) (hfresh : FreshEvent s event)
    (hstep : s.step event = some s') : Lossless s₀ (events ++ [event]) s' := by
  cases event with
  | queue sent fWritten =>
    obtain ⟨rfl, hfree⟩ := hfresh
    rw [← Option.some.inj hstep]
    exact h.queue sent true hfree
  | save sent fWritten =>
    obtain ⟨rfl, hfree⟩ := hfresh
    cases hsaved : sent.writes.saved with
    | none =>
      simp only [QueueNode.step, hsaved, Option.some.injEq] at hstep
      exact hstep ▸ h.idle rfl (by simp [savedBy, hsaved])
    | some e =>
      simp only [QueueNode.step, hsaved, Option.some.injEq] at hstep
      exact hstep ▸ h.save sent true hsaved (hfree e hsaved)
  | wake fOpens =>
    obtain ⟨-, rfl | ⟨thread, rfl, -⟩⟩ := step_wake hstep
    · exact h.idle rfl rfl
    · exact h.idle rfl rfl
  | next =>
    obtain ⟨thread, rfl, -⟩ := step_next hstep
    exact h.idle rfl rfl
  | hashed rv fErased =>
    obtain ⟨e, rest, htodo, ⟨-, rfl⟩ | ⟨hrv, thread, hrest, rfl⟩⟩ := step_hashed hstep
    · exact h.idle rfl rfl
    · obtain rfl : fErased = true := hfresh.resolve_left hrv
      obtain ⟨hmem, hq⟩ := hinv.present e (htodo ▸ List.mem_cons_self)
      exact h.work hmem hq

theorem lossless_nil (h : AtStart s₀) : Lossless s₀ ([] : List (QueueEvent env)) s₀ :=
  ⟨by rw [h.worked]; exact List.append_nil _ ▸ List.Perm.refl _, nofun⟩

/-- By induction on the run. -/
theorem FreshRun.lossless (h₀ : AtStart s₀) (hrun : FreshRun s₀ events s) : QueueInv s ∧ Lossless s₀ events s := by
  induction hrun with
  | nil => exact ⟨.of_atStart h₀, lossless_nil h₀⟩
  | snoc _ hfresh hstep ih => exact ⟨ih.1.step hfresh hstep, ih.2.step ih.1 hfresh hstep⟩

/-- What has been worked for, with what the thread is yet to work for in this pass. -/
def QueueNode.plan (s : QueueNode) : List SecMsgStored := s.worked ++ s.thread.todo.map Prod.snd

theorem plan_step (hrunning : Running event) (hstep : s.step event = some s') : s.plan <+: s'.plan := by
  cases event with
  | queue sent fWritten =>
    rw [← Option.some.inj hstep, QueueNode.writeSmesg]
    split_ifs
    · exact List.prefix_rfl
    · exact List.prefix_rfl
  | save sent fWritten =>
    cases hsaved : sent.writes.saved with
    | none =>
      simp only [QueueNode.step, hsaved, Option.some.injEq] at hstep
      exact hstep ▸ List.prefix_rfl
    | some e =>
      simp only [QueueNode.step, hsaved, Option.some.injEq, QueueNode.writeSmesg] at hstep
      rw [← hstep]
      split_ifs
      · exact List.prefix_rfl
      · exact List.prefix_rfl
  | wake fOpens =>
    obtain ⟨htodo, rfl | ⟨thread, rfl, -⟩⟩ := step_wake hstep
    · exact List.prefix_rfl
    · rw [QueueNode.plan, htodo, List.map_nil, List.append_nil]
      exact List.prefix_append _ _
  | next =>
    obtain ⟨thread, rfl, htodo⟩ := step_next hstep
    rw [QueueNode.plan, QueueNode.plan, htodo]
  | hashed rv fErased =>
    obtain ⟨e, rest, htodo, ⟨hrv, -⟩ | ⟨-, thread, hrest, rfl⟩⟩ := step_hashed hstep
    · exact absurd hrv hrunning
    · rw [QueueNode.plan, QueueNode.plan, htodo, hrest, List.map_cons, List.append_cons]

theorem plan_wake (hinv : QueueInv s) (hstep : s.step (.wake true : QueueEvent env) = some s') :
    s'.plan = s.worked ++ queueOf s.smsgDB := by
  simp only [QueueNode.step, sleeping_of_wake hstep, if_true, Option.some.injEq] at hstep
  rw [← hstep]
  show s.worked ++ (((s.smsgDB.entries.dropWhile fun e => decide (e.1 < queueMark)).takeWhile isQueued).map Prod.snd)
    = s.worked ++ queueOf s.smsgDB
  rw [takeWhile_isQueued hinv.keys, queueOf]

theorem FreshRun.eq_of_nil (hrun : FreshRun s events t) (hnil : events = []) : t = s := by
  cases hrun with
  | nil => rfl
  | snoc => exact absurd hnil (List.append_ne_nil_of_right_ne_nil _ (List.cons_ne_nil _ _))

/-- By induction on the run. -/
theorem FreshRun.plan (hinv : QueueInv s) (hrun : FreshRun s events t) (hwake : events.head? = some (.wake true))
    (hrunning : ∀ event ∈ events, Running event) : s.worked ++ queueOf s.smsgDB <+: t.plan := by
  induction hrun with
  | nil => exact nomatch hwake
  | @snoc events event t t' hrun _ hstep ih =>
    have hstep' : t.plan <+: t'.plan :=
      plan_step (hrunning event (List.mem_append_right _ List.mem_cons_self)) hstep
    cases events with
    | nil =>
      obtain rfl : event = .wake true := Option.some.inj hwake
      rw [hrun.eq_of_nil rfl] at hstep
      rw [plan_wake hinv hstep]
    | cons first events =>
      exact (ih hwake fun e he => hrunning e (List.mem_append_left _ he)).trans hstep'

/-- What is sent is lost nowhere, as long as the database does not fail and no message is written under the key of one
that is still there; and a pass of the thread works for all that was in the queue when it began. -/
theorem sendQueue_lossless (h₀ : AtStart s₀) (hrun : FreshRun s₀ events s) : Lossless s₀ events s ∧
      ∀ (more : List (QueueEvent env)) (t : QueueNode), FreshRun s (.wake true :: more) t →
        (∀ event ∈ more, Running event) → t.thread = .sleeping → s.worked ++ queueOf s.smsgDB <+: t.worked := by
  obtain ⟨hinv, hlossless⟩ := hrun.lossless h₀
  refine ⟨hlossless, fun more t hpass hrunning hsleeping => ?_⟩
  have hplan := hpass.plan hinv rfl fun event he => by
    rcases List.mem_cons.mp he with rfl | he
    · exact trivial
    · exact hrunning event he
  rw [QueueNode.plan, todo_of_sleeping hsleeping, List.map_nil, List.append_nil] at hplan
  exact hplan

end Steps

namespace Sample

/-! Messages of one second, whose payloads were allocated at the same place or at different ones. -/

def outboxIv : Bytes := [16, 17, 18, 19, 20, 21, 22, 23, 24, 25, 26, 27, 28, 29, 30, 31]

def payloadOf (text : Bytes) : Bytes := [250, 0, 0, 0, 0, 2, 0, 0, 0] ++ text

def encryptions : List ((Bytes × Bytes) × Bytes × Bytes) :=
  [((greetingIv, payloadOf [104, 105]), greetingEncrypted, greetingMac), ((outboxIv, payloadOf [104, 105]),
      [0x78, 0xad, 0x52, 0x6f, 0x63, 0x3d, 0xcb, 0x51, 0xbe, 0x8c, 0xc9, 0xdf, 0xdc, 0x0a, 0xac, 0x97],
      [0x29, 0xd5, 0xcd, 0x12, 0xb6, 0x9e, 0x4f, 0x1c, 0x32, 0x32, 0xa5, 0x25, 0x91, 0x07, 0x52, 0xd6,
        0x86, 0x34, 0xe0, 0x34, 0x0d, 0x32, 0x19, 0x35, 0x2d, 0x51, 0x93, 0xb3, 0x21, 0xf9, 0x89, 0xf7]),
    ((greetingIv, payloadOf [121, 111]),
      [0xbe, 0xbf, 0xf2, 0xfe, 0x9d, 0xd2, 0xac, 0x2d, 0x6c, 0xb6, 0x11, 0x6d, 0xac, 0x14, 0x84, 0xfe],
      [0x30, 0x95, 0x01, 0x5a, 0x29, 0xd4, 0x5d, 0xf7, 0xa9, 0xa3, 0x65, 0x24, 0xdc, 0xf2, 0x39, 0x40,
        0x65, 0xa6, 0x4f, 0xdf, 0xf1, 0x5c, 0xb1, 0x0e, 0x95, 0x7e, 0x08, 0x67, 0x60, 0x43, 0x2a, 0xc9]),
    ((outboxIv, payloadOf [121, 111]),
      [0xdf, 0x6e, 0xe8, 0x95, 0x87, 0xba, 0x19, 0x5c, 0x3d, 0xe2, 0xcb, 0xfb, 0x94, 0xaf, 0xd2, 0x46],
      [0x67, 0xa5, 0x15, 0x4f, 0xd7, 0xa3, 0x90, 0xa2, 0xb4, 0x5e, 0x0e, 0x78, 0x32, 0x57, 0x21, 0x49,
        0x21, 0x11, 0x2e, 0x1a, 0x65, 0x8d, 0x2c, 0xe3, 0x4b, 0x70, 0xae, 0xf8, 0x84, 0xa0, 0xf2, 0x42])]

def sendEnv : SendEnv where
  toSmsgEnv := { messageEnv with
    aesEncrypt := fun key iv vchPlaintext =>
      if key = secretHash.take 32 then (encryptions.lookup (iv, vchPlaintext)).map Prod.fst else none
    hmacSha256 := fun key_m bytes =>
      if key_m = secretHash.drop 32 then
        ((encryptions.map Prod.snd).find? fun e => bytes = LittleEndian.ofInt 8 1700000000 ++ e.1).map Prod.snd
      else none }
  xxh32 _ := 0
  wallet := messageWallet
  fLocked := false
  smsgAddresses := []
  addrpkdb := messageDb
  mapAddressBook := [("PKGSi8HTQzLx89rkZrRrVkPFjrcSC55NP9", true)]

def callOf (text : Bytes) (pPayload : UInt64) : SendCall where
  addressFrom := "anon"
  addressTo := "PKGSi8HTQzLx89rkZrRrVkPFjrcSC55NP9"
  message := text
  draw := ⟨blankMessage, 1700000000, greetingIv, keyOf 2, pPayload⟩
  outboxDraw := ⟨blankMessage, 1700000000, outboxIv, keyOf 2, pPayload + 0x20⟩
  timeReceived := 1700000000
  timeSent := 1700000000
  status := 0

def storedOf (iv : Bytes) (sAddrOutbox : String) (vchCiphertext mac : Bytes) : SecMsgStored where
  timeReceived := 1700000000
  status := 0
  sAddrTo := "PKGSi8HTQzLx89rkZrRrVkPFjrcSC55NP9"
  sAddrOutbox := sAddrOutbox
  vchMessage := { greetingMessage with iv, mac }.toBytes ++ vchCiphertext

def writesOf (text : Bytes) (pPayload : UInt64) : SendWrites :=
  let queued := (encryptions.lookup (greetingIv, payloadOf text)).getD ([], [])
  let saved := (encryptions.lookup (outboxIv, payloadOf text)).getD ([], [])
  { queued := (smesgKey queueMark 1700000000 pPayload, storedOf greetingIv "" queued.1 queued.2)
    saved := some (smesgKey sentMark 1700000000 (pPayload + 0x20),
      storedOf outboxIv "PKGSi8HTQzLx89rkZrRrVkPFjrcSC55NP9" saved.1 saved.2) }

def hiSent : Sent sendEnv := ⟨callOf [104, 105] 0x55d0c8a1e2f0, writesOf [104, 105] 0x55d0c8a1e2f0, by rfl⟩

def yoSent : Sent sendEnv := ⟨callOf [121, 111] 0x55d0c8a1e2f0, writesOf [121, 111] 0x55d0c8a1e2f0, by rfl⟩

/-- The payload is at another place. -/
def apartSent : Sent sendEnv := ⟨callOf [121, 111] 0x55d0c8a1e330, writesOf [121, 111] 0x55d0c8a1e330, by rfl⟩

def emptyQueue : QueueNode := ⟨OrderedMap.empty, .sleeping, []⟩

/-- Both messages are sent, and the thread works for one after the other, in the order of the bytes of their keys. -/
def twoApart : List (QueueEvent sendEnv) :=
  [.queue hiSent true, .save hiSent true, .queue apartSent true, .save apartSent true,
    .wake true, .next, .hashed 0 true, .next, .hashed 0 true, .next]

theorem FreshRun.on {s₀ s s' : QueueNode} {events : List (QueueEvent sendEnv)} (event : QueueEvent sendEnv)
    (hrun : FreshRun s₀ events s) (hfresh : FreshEvent s event) (hstep : s.step event = some s') :
    FreshRun s₀ (events ++ [event]) s' := .snoc hrun hfresh hstep

theorem twoApart_run : ∃ s, FreshRun emptyQueue twoApart s ∧
    s.worked = [apartSent.writes.queued.2, hiSent.writes.queued.2] := by
  have hhi := FreshRun.on (.save hiSent true)
    (FreshRun.on (.queue hiSent true) (@FreshRun.nil _ emptyQueue) ⟨rfl, by rfl⟩ rfl)
    ⟨rfl, fun e he => by rw [← Option.some.inj he]; rfl⟩ rfl
  have hyo := FreshRun.on (.save apartSent true)
    (FreshRun.on (.queue apartSent true) hhi ⟨rfl, by rfl⟩ rfl)
    ⟨rfl, fun e he => by rw [← Option.some.inj he]; rfl⟩ rfl
  have hfirst := FreshRun.on (.hashed 0 true)
    (FreshRun.on .next (FreshRun.on (.wake true) hyo trivial rfl) trivial rfl) (Or.inr rfl) rfl
  have hsecond := FreshRun.on (.hashed 0 true) (FreshRun.on .next hfirst trivial rfl) (Or.inr rfl) rfl
  exact ⟨_, FreshRun.on .next hsecond trivial rfl, rfl⟩

theorem twoApart_lossless : ∃ s, s.worked = [apartSent.writes.queued.2, hiSent.writes.queued.2] ∧
    Lossless emptyQueue twoApart s := by
  obtain ⟨s, hrun, hworked⟩ := twoApart_run
  exact ⟨s, hworked, (sendQueue_lossless ⟨rfl, rfl, fun e he => absurd he List.not_mem_nil⟩ hrun).1⟩

def twoMessages : List (QueueEvent sendEnv) :=
  [.queue hiSent true, .save hiSent true, .queue yoSent true, .save yoSent true,
    .wake true, .next, .hashed 0 true, .next]

/-- The second one takes the place of the first one, in the queue and in the outbox. -/
theorem sendQueue_overwrites : ∃ s, twoMessages.foldlM QueueNode.step emptyQueue = some s ∧
    queuedBy twoMessages = [hiSent.writes.queued.2, yoSent.writes.queued.2] ∧
      s.worked = [yoSent.writes.queued.2] ∧ queueOf s.smsgDB = [] ∧
        savedBy twoMessages = hiSent.writes.saved.toList ++ yoSent.writes.saved.toList ∧
          s.smsgDB.entries = yoSent.writes.saved.toList ∧ ¬ Lossless emptyQueue twoMessages s := by
  refine ⟨_, rfl, rfl, rfl, by rfl, by rfl, by rfl, fun h => ?_⟩
  exact absurd h.queued.length_eq (by decide)

end Sample

end PupaCoin.Smsg
