import PupaCoin.Net.Proofs.InstantXProofs

/-!
# When a lock is completed whatever comes first

Between two messages the maps are known exactly (`Collecting`): the hashes that have been recorded, the votes of
the lock, and whether its inputs are locked. The votes of the lock are those that have been tried and accepted.
-/

namespace PupaCoin

variable {e : VoteEvent} {tried : List VoteEvent}

variable {env : InstantXEnv} {ext : InstantXExt} {tx : CTransaction} {h : UInt256} {nBlockHeight : Int}
  {seen : List UInt256} {votes : List CConsensusVote} {locked : Prop} {s s' : InstantX}
  {vote : CConsensusVote}

/-- The maps of a node that has been sent one request at most. The height is 0 until the request has come. -/
structure Collecting (h : UInt256) (tx : CTransaction) (nBlockHeight : Int) (seen : List UInt256)
    (votes : List CConsensusVote) (locked : Prop) (s : InstantX) : Prop where
  seen : ∀ k, (s.mapTxLockVote k).isSome = true ↔ k ∈ seen
  votes : ((s.mapTxLocks h).map CTransactionLock.vecConsensusVotes).getD [] = votes
  height : ((s.mapTxLocks h).map CTransactionLock.nBlockHeight).getD 0 = nBlockHeight
  others : ∀ k, k ≠ h → ((s.mapTxLocks k).map CTransactionLock.nBlockHeight).getD 0 = 0
  requests : ∀ k, s.mapTxLockReq k = if k = h ∧ nBlockHeight ≠ 0 then some tx else none
  rejected : ∀ k, s.mapTxLockReqRejected k = none
  mine : ∀ o k, s.mapLockedInputs o = some k → k = h
  inputs : locked → ∀ txin ∈ tx.vin, s.mapLockedInputs txin.prevout = some h
  unlocked : ¬ locked → ∀ o, s.mapLockedInputs o = none

theorem Collecting.empty (h : UInt256) (tx : CTransaction) : Collecting h tx 0 [] [] False .empty where
  seen := by simp [InstantX.empty]
  votes := rfl
  height := rfl
  others _ _ := rfl
  requests := by simp [InstantX.empty]
  rejected _ := rfl
  mine _ _ hk := by cases hk
  inputs hf := hf.elim
  unlocked _ _ := rfl

theorem Collecting.congr {locked' : Prop} (hs : Collecting h tx nBlockHeight seen votes locked s)
    (hiff : locked' ↔ locked) : Collecting h tx nBlockHeight seen votes locked' s :=
  propext hiff ▸ hs

theorem Collecting.congr_seen {seen' : List UInt256} (hs : Collecting h tx nBlockHeight seen votes locked s)
    (hiff : ∀ k, k ∈ seen' ↔ k ∈ seen) : Collecting h tx nBlockHeight seen' votes locked s :=
  { hs with seen := fun k => (hs.seen k).trans (hiff k).symm }

theorem Collecting.withUnknownVotes (hs : Collecting h tx nBlockHeight seen votes locked s)
    (unknown : AList fun _ : UInt256 => Int) :
    Collecting h tx nBlockHeight seen votes locked { s with mapUnknownVotes := unknown } :=
  ⟨hs.seen, hs.votes, hs.height, hs.others, hs.requests, hs.rejected, hs.mine, hs.inputs, hs.unlocked⟩

def InstantX.recordVote (s : InstantX) (vote : CConsensusVote) : InstantX :=
  { s with mapTxLockVote := mapInsert s.mapTxLockVote vote.getHash vote }

theorem Collecting.record (hs : Collecting h tx nBlockHeight seen votes locked s) (vote : CConsensusVote) :
    Collecting h tx nBlockHeight (vote.getHash :: seen) votes locked (s.recordVote vote) where
  seen k := by
    show (mapInsert s.mapTxLockVote vote.getHash vote k).isSome = true ↔ _
    rw [← not_iff_not, Bool.not_eq_true, Option.isSome_eq_false_iff, Option.isNone_iff_eq_none,
      mapInsert_eq_none, List.mem_cons, not_or, ← hs.seen k, Bool.not_eq_true, Option.isSome_eq_false_iff,
      Option.isNone_iff_eq_none, and_comm]
  votes := hs.votes
  height := hs.height
  others := hs.others
  requests := hs.requests
  rejected := hs.rejected
  mine := hs.mine
  inputs := hs.inputs
  unlocked := hs.unlocked

theorem Collecting.lockOf_nBlockHeight (hs : Collecting h tx nBlockHeight seen votes locked s) (now : Int)
    (k : UInt256) : (s.lockOf now k).nBlockHeight = if k = h then nBlockHeight else 0 := by
  have hof : (s.lockOf now k).nBlockHeight
      = ((s.mapTxLocks k).map CTransactionLock.nBlockHeight).getD 0 := by
    unfold InstantX.lockOf
    cases s.mapTxLocks k <;> rfl
  rw [hof]
  by_cases hk : k = h
  · rw [if_pos hk, hk, hs.height]
  · rw [if_neg hk, hs.others k hk]

theorem Collecting.addVote (hs : Collecting h tx nBlockHeight seen votes locked s) (now : Int) (vote : CConsensusVote)
    : Collecting h tx nBlockHeight seen (if vote.txHash = h then votes ++ [vote] else votes) locked
      (s.addVote now vote) where
  seen := hs.seen
  votes := by
    rw [InstantX.addVote_mapTxLocks]
    by_cases hv : vote.txHash = h
    · have hof : (s.lockOf now vote.txHash).vecConsensusVotes = votes := by
        rw [← hs.votes, hv]
        unfold InstantX.lockOf
        cases s.mapTxLocks h <;> rfl
      rw [if_pos hv, ← hv, Function.update_self, Option.map_some, Option.getD_some,
        CTransactionLock.addSignature, hof]
    · rw [if_neg hv, Function.update_of_ne (Ne.symm hv), hs.votes]
  height := by
    rw [InstantX.addVote_mapTxLocks]
    by_cases hv : vote.txHash = h
    · rw [← hv, Function.update_self, Option.map_some, Option.getD_some, CTransactionLock.addSignature,
        hs.lockOf_nBlockHeight, if_pos hv]
    · rw [Function.update_of_ne (Ne.symm hv), hs.height]
  others k hk := by
    rw [InstantX.addVote_mapTxLocks]
    by_cases hv : vote.txHash = k
    · rw [← hv, Function.update_self, Option.map_some, Option.getD_some, CTransactionLock.addSignature,
        hs.lockOf_nBlockHeight, if_neg (by rw [hv]; exact hk)]
    · rw [Function.update_of_ne (Ne.symm hv), hs.others k hk]
  requests := hs.requests
  rejected := hs.rejected
  mine := hs.mine
  inputs := hs.inputs
  unlocked := hs.unlocked

theorem Collecting.lockInputs (hs : Collecting h tx nBlockHeight seen votes locked s) :
    Collecting h tx nBlockHeight seen votes True (s.lockInputs h tx.vin) where
  seen := hs.seen
  votes := hs.votes
  height := hs.height
  others := hs.others
  requests := hs.requests
  rejected := hs.rejected
  mine o k hk := by
    rcases InstantX.lockInputs_eq_some.mp hk with hold | ⟨-, rfl, -⟩
    · exact hs.mine o k hold
    · rfl
  inputs _ txin htxin := by
    refine InstantX.lockInputs_eq_some.mpr ?_
    cases ho : s.mapLockedInputs txin.prevout with
    | none => exact Or.inr ⟨rfl, rfl, txin, htxin, rfl⟩
    | some k => exact Or.inl (by rw [hs.mine _ k ho])
  unlocked hf := absurd trivial hf

/-- There are no other locks, so that none conflicts. -/
theorem Collecting.conflictingLock (hs : Collecting h tx nBlockHeight seen votes locked s) (htx : env.getHash tx = h)
    : s.conflictingLock (env.getHash tx) tx = none := by
  unfold InstantX.conflictingLock
  rw [List.findSome?_eq_none_iff]
  intro txin _
  rw [Option.filter_eq_none_iff]
  intro k hk
  rw [hs.mine _ k hk, htx]
  simp

theorem Collecting.completeLock (hs : Collecting h tx nBlockHeight seen votes locked s) (htx : env.getHash tx = h)
    (hvote : vote.txHash = h) (hrequested : nBlockHeight ≠ 0) (ext : InstantXExt) (lock : CTransactionLock) :
    ∃ s', completeLock env ext vote lock s = (.ok (), s') ∧ Collecting h tx nBlockHeight seen votes True s' := by
  have hreq : s.mapTxLockReq vote.txHash = some tx := by
    rw [hs.requests, if_pos ⟨hvote, hrequested⟩]
  have hrequest : lockRequestAt ext vote.txHash s = (.ok tx, s) := by
    unfold lockRequestAt
    rw [hreq, Option.getD_some]
    have hsame : Function.update s.mapTxLockReq vote.txHash (some tx) = s.mapTxLockReq := by
      rw [← hreq, Function.update_eq_self]
    dsimp only
    rw [hsame]
  have hconflict : checkForConflictingLocks env ext tx s = (.ok false, s) := by
    unfold checkForConflictingLocks
    rw [hs.conflictingLock htx]
  have hlocked := hs.lockInputs
  refine ⟨s.lockInputs h tx.vin, ?_, hlocked⟩
  unfold PupaCoin.completeLock
  rw [Exec.bind_of_ok hrequest, Exec.bind_of_ok hconflict, if_neg (by simp), Exec.update_bind, Exec.read_bind, hreq]
  have hnot : ((s.lockInputs vote.txHash tx.vin).mapTxLockReqRejected lock.txHash).isSome = false := by
    have hnone : s.mapTxLockReqRejected lock.txHash = none := hs.rejected _
    show (s.mapTxLockReqRejected lock.txHash).isSome = false
    rw [hnone]
    rfl
  simp only [Option.isSome_some, if_true]
  rw [hnot, if_neg (by simp), hvote]
  rfl

/-- The votes at the height of the lock are enough, and the request is there. -/
def Enough (nBlockHeight : Int) (votes : List CConsensusVote) : Prop :=
  nBlockHeight ≠ 0 ∧ 2 ≤ votes.countP fun vote => vote.nBlockHeight == nBlockHeight

theorem countSignatures_iff {lock : CTransactionLock} :
    lock.countSignatures ≥ instantxSignaturesRequired ↔ Enough lock.nBlockHeight lock.vecConsensusVotes := by
  unfold CTransactionLock.countSignatures instantxSignaturesRequired Enough
  have hcounts : lock.counts = fun vote => vote.nBlockHeight == lock.nBlockHeight := rfl
  rw [hcounts]
  by_cases hzero : lock.nBlockHeight = 0
  · rw [if_pos hzero]
    constructor
    · intro hle
      omega
    · intro henough
      exact absurd hzero henough.1
  · rw [if_neg hzero]
    constructor
    · intro hle
      exact ⟨hzero, by omega⟩
    · intro henough
      have hle := henough.2
      omega

theorem Collecting.processConsensusVote (hs : Collecting h tx nBlockHeight seen votes locked s)
    (htx : env.getHash tx = h) (haccepted : voteAccepted env ext vote = true) :
    ∃ s', processConsensusVote env ext vote s = (.ok true, s') ∧
      Collecting h tx nBlockHeight seen (if vote.txHash = h then votes ++ [vote] else votes)
        (locked ∨ (vote.txHash = h ∧ Enough nBlockHeight (votes ++ [vote]))) s' := by
  have hadded := hs.addVote ext.getTime vote
  unfold PupaCoin.processConsensusVote
  rw [haccepted, if_neg (by simp), Exec.read_bind, Exec.update_bind]
  have hheight := hs.lockOf_nBlockHeight ext.getTime vote.txHash
  by_cases hv : vote.txHash = h
  · rw [if_pos hv] at hheight hadded ⊢
    have hlock : (((s.lockOf ext.getTime vote.txHash).addSignature vote).countSignatures
        ≥ instantxSignaturesRequired) ↔ Enough nBlockHeight (votes ++ [vote]) := by
      have hof : (s.lockOf ext.getTime vote.txHash).vecConsensusVotes = votes := by
        rw [← hs.votes, hv]
        unfold InstantX.lockOf
        cases s.mapTxLocks h <;> rfl
      rw [countSignatures_iff, CTransactionLock.addSignature, hheight, hof]
    by_cases henough : Enough nBlockHeight (votes ++ [vote])
    · obtain ⟨s', hcomplete, hlocked⟩ := hadded.completeLock htx hv henough.1 ext
        ((s.lockOf ext.getTime vote.txHash).addSignature vote)
      refine ⟨s', ?_, hlocked.congr ⟨fun _ => trivial, fun _ => Or.inr ⟨hv, henough⟩⟩⟩
      rw [if_pos (hlock.mpr henough), Exec.bind_of_ok hcomplete]
      rfl
    · refine ⟨s.addVote ext.getTime vote, ?_, hadded.congr ⟨fun hor => ?_, Or.inl⟩⟩
      · rw [if_neg (fun hc => henough (hlock.mp hc))]
        rfl
      · rcases hor with hl | ⟨-, hen⟩
        · exact hl
        · exact absurd hen henough
  · rw [if_neg hv] at hheight hadded ⊢
    have hnot : ¬ ((s.lockOf ext.getTime vote.txHash).addSignature vote).countSignatures
        ≥ instantxSignaturesRequired := by
      rw [countSignatures_iff, CTransactionLock.addSignature]
      rintro ⟨hne, -⟩
      exact hne hheight
    refine ⟨s.addVote ext.getTime vote, ?_, hadded.congr ⟨fun hor => ?_, Or.inl⟩⟩
    · rw [if_neg hnot]
      rfl
    · rcases hor with hl | ⟨hh, -⟩
      · exact hl
      · exact absurd hh hv

theorem Collecting.processVote (hs : Collecting h tx nBlockHeight seen votes locked s) (htx : env.getHash tx = h)
    (hactive : e.1.isActive = true) (hnew : e.2.getHash ∉ seen) :
    ∃ invs s', processMessageInstantX env e.1 (.txlvote e.2) s = (.ok invs, s') ∧
      Collecting h tx nBlockHeight (e.2.getHash :: seen) (if e.isFor env h then votes ++ [e.2] else votes)
        (locked ∨ (e.isFor env h = true ∧ Enough nBlockHeight (votes ++ [e.2]))) s' := by
  have hopen : ¬ (e.1.fLiteMode || !e.1.fInstantX || !e.1.fBlockchainSynced) = true := by
    unfold InstantXExt.isActive at hactive
    simpa using hactive
  have hrecord := hs.record e.2
  have hunseen : ¬ (s.mapTxLockVote e.2.getHash).isSome = true := fun hsome => hnew ((hs.seen _).mp hsome)
  unfold processMessageInstantX
  rw [if_neg hopen]
  dsimp only
  unfold processLockVote
  rw [Exec.read_bind, if_neg hunseen, Exec.bind_of_ok (t := s.recordVote e.2) (Exec.update_apply _ _)]
  cases haccepted : voteAccepted env e.1 e.2 with
  | false =>
    have hfor : e.isFor env h = false := by
      unfold VoteEvent.isFor
      rw [haccepted, Bool.false_and]
    have hrefused : PupaCoin.processConsensusVote env e.1 e.2 (s.recordVote e.2)
        = (.ok false, s.recordVote e.2) := by
      unfold PupaCoin.processConsensusVote
      rw [haccepted, if_pos (by simp)]
      rfl
    refine ⟨[], s.recordVote e.2, ?_, ?_⟩
    · rw [Exec.bind_of_ok hrefused]
      rfl
    · rw [hfor, if_neg (by simp)]
      exact hrecord.congr ⟨fun hor => hor.elim id (fun hc => absurd hc.1 (by simp)), Or.inl⟩
  | true =>
    have hfor : e.isFor env h = true ↔ e.2.txHash = h := by
      unfold VoteEvent.isFor
      rw [haccepted, Bool.true_and, beq_iff_eq]
    obtain ⟨s₁, hprocess, hs₁⟩ := hrecord.processConsensusVote htx haccepted
    obtain ⟨invs, unknown, hrelay⟩ := relayVote_returns e.1 e.2 s₁
    have hafter := hs₁.withUnknownVotes unknown
    refine ⟨invs, { s₁ with mapUnknownVotes := unknown }, ?_, ?_⟩
    · rw [Exec.bind_of_ok hprocess, if_pos rfl, hrelay]
    · have hif : (if e.isFor env h then votes ++ [e.2] else votes)
          = if e.2.txHash = h then votes ++ [e.2] else votes := by
        by_cases hv : e.2.txHash = h
        · rw [if_pos hv, if_pos (hfor.mpr hv)]
        · rw [if_neg hv, if_neg (fun hc => hv (hfor.mp hc))]
      rw [hif]
      exact hafter.congr (or_congr_right (and_congr_left' hfor))

theorem Collecting.skipVote (hs : Collecting h tx nBlockHeight seen votes locked s) (hactive : e.1.isActive = true)
    (hold : e.2.getHash ∈ seen) : processMessageInstantX env e.1 (.txlvote e.2) s = (.ok [], s) := by
  have hopen : ¬ (e.1.fLiteMode || !e.1.fInstantX || !e.1.fBlockchainSynced) = true := by
    unfold InstantXExt.isActive at hactive
    simpa using hactive
  unfold processMessageInstantX
  rw [if_neg hopen]
  dsimp only
  unfold processLockVote
  rw [Exec.read_bind, if_pos ((hs.seen _).mpr hold)]
  rfl

theorem Enough.append {more : List CConsensusVote} (henough : Enough nBlockHeight votes) :
    Enough nBlockHeight (votes ++ more) := by
  refine ⟨henough.1, le_trans henough.2 ?_⟩
  rw [List.countP_append]
  omega

/-- The votes for the transaction among those that are tried. -/
def votesFor (env : InstantXEnv) (h : UInt256) (tried : List VoteEvent) : List CConsensusVote :=
  (tried.filter fun e => e.isFor env h).map Prod.snd

theorem votesFor_cons_of_for (tried : List VoteEvent) (hfor : e.isFor env h = true) :
    votesFor env h (e :: tried) = e.2 :: votesFor env h tried := by
  simp [votesFor, hfor]

theorem votesFor_cons_of_not (tried : List VoteEvent) (hfor : ¬ e.isFor env h = true) :
    votesFor env h (e :: tried) = votesFor env h tried := by
  simp [votesFor, hfor]

theorem votesFor_eq_nil (hnone : ¬ ∃ e ∈ tried, e.isFor env h = true) : votesFor env h tried = [] := by
  have hfilter : (tried.filter fun e => e.isFor env h) = [] := by
    rw [List.filter_eq_nil_iff]
    intro e he hfor
    exact hnone ⟨e, he, hfor⟩
  rw [votesFor, hfilter, List.map_nil]

/-- Votes that are tried lock the inputs when one of them is on the transaction and they make enough. -/
def LocksBy (env : InstantXEnv) (h : UInt256) (nBlockHeight : Int) (votes : List CConsensusVote)
    (tried : List VoteEvent) : Prop :=
  (∃ e ∈ tried, e.isFor env h = true) ∧ Enough nBlockHeight (votes ++ votesFor env h tried)

theorem locksBy_cons_iff (tried : List VoteEvent) : LocksBy env h nBlockHeight votes (e :: tried) ↔
      (e.isFor env h = true ∧ Enough nBlockHeight (votes ++ [e.2])) ∨
        LocksBy env h nBlockHeight (if e.isFor env h then votes ++ [e.2] else votes) tried := by
  unfold LocksBy
  by_cases hfor : e.isFor env h = true
  · rw [votesFor_cons_of_for tried hfor, if_pos hfor]
    have hsplit : votes ++ e.2 :: votesFor env h tried = votes ++ [e.2] ++ votesFor env h tried := by simp
    rw [hsplit]
    constructor
    · rintro ⟨-, henough⟩
      by_cases hlater : ∃ e' ∈ tried, e'.isFor env h = true
      · exact Or.inr ⟨hlater, henough⟩
      · rw [votesFor_eq_nil hlater, List.append_nil] at henough
        exact Or.inl ⟨hfor, henough⟩
    · rintro (⟨-, henough⟩ | ⟨-, henough⟩)
      · exact ⟨⟨e, List.mem_cons_self, hfor⟩, henough.append⟩
      · exact ⟨⟨e, List.mem_cons_self, hfor⟩, henough⟩
  · rw [votesFor_cons_of_not tried hfor, if_neg hfor]
    constructor
    · rintro ⟨⟨e', he', hfor'⟩, henough⟩
      rcases List.mem_cons.mp he' with rfl | he'
      · exact absurd hfor' hfor
      · exact Or.inr ⟨⟨e', he', hfor'⟩, henough⟩
    · rintro (⟨hfor', -⟩ | ⟨⟨e', he', hfor'⟩, henough⟩)
      · exact absurd hfor' hfor
      · exact ⟨⟨e', List.mem_cons_of_mem e he', hfor'⟩, henough⟩

/-- **A run of votes.** By induction on it: the votes that are tried and accepted are added, and the inputs are
    locked when one of them finds votes enough. -/
theorem Collecting.votesRun {P : InstantXEvent → InstantX → Prop} (hP : ∀ event s, P event s)
    (htx : env.getHash tx = h) (events : List VoteEvent) (hactive : ∀ e ∈ events, e.1.isActive = true)
    {past : List InstantXEvent} (hrun : InstantXRun env P past s)
    (hs : Collecting h tx nBlockHeight seen votes locked s) :
    ∃ s', InstantXRun env P (past ++ events.map VoteEvent.toEvent) s' ∧
      Collecting h tx nBlockHeight ((events.map fun e => e.2.getHash) ++ seen)
        (votes ++ votesFor env h (Tally.firsts (fun e : VoteEvent => e.2.getHash) seen events))
        (locked ∨ LocksBy env h nBlockHeight votes
          (Tally.firsts (fun e : VoteEvent => e.2.getHash) seen events)) s' := by
  induction events generalizing past s seen votes locked with
  | nil =>
    refine ⟨s, by simpa using hrun, ?_⟩
    have hnot : ¬ LocksBy env h nBlockHeight votes [] := by
      rintro ⟨⟨e, he, -⟩, -⟩
      cases he
    have hnone : votes ++ votesFor env h [] = votes := by simp [votesFor]
    rw [Tally.firsts, hnone]
    exact hs.congr (or_iff_left hnot)
  | cons e events ih =>
    have hhead := hactive e List.mem_cons_self
    have htail : ∀ e ∈ events, e.1.isActive = true := fun e' he' => hactive e' (List.mem_cons_of_mem e he')
    have hpast : past ++ (e :: events).map VoteEvent.toEvent
        = past ++ [e.toEvent] ++ events.map VoteEvent.toEvent := by simp
    rw [hpast]
    by_cases hold : e.2.getHash ∈ seen
    · have hrun' : InstantXRun env P (past ++ [e.toEvent]) s :=
        .receive hrun (hP _ _) (hs.skipVote hhead hold)
      obtain ⟨s', hrun'', hs'⟩ := ih htail hrun' hs
      refine ⟨s', hrun'', ?_⟩
      have hfirst : Tally.firsts (fun e : VoteEvent => e.2.getHash) seen (e :: events)
          = Tally.firsts (fun e : VoteEvent => e.2.getHash) seen events := Tally.firsts_of_seen hold
      rw [hfirst]
      refine hs'.congr_seen fun k => ?_
      rw [List.map_cons, List.cons_append, List.mem_cons, or_iff_right_of_imp]
      rintro rfl
      exact List.mem_append_right _ hold
    · obtain ⟨invs, s₁, hprocess, hs₁⟩ := hs.processVote htx hhead hold
      have hrun' : InstantXRun env P (past ++ [e.toEvent]) s₁ := .receive hrun (hP _ _) hprocess
      obtain ⟨s', hrun'', hs'⟩ := ih htail hrun' hs₁
      refine ⟨s', hrun'', ?_⟩
      have hfirst : Tally.firsts (fun e : VoteEvent => e.2.getHash) seen (e :: events)
          = e :: Tally.firsts (fun e : VoteEvent => e.2.getHash) (e.2.getHash :: seen) events :=
        Tally.firsts_of_new hold
      have hvotes : ∀ tried, (if e.isFor env h then votes ++ [e.2] else votes) ++ votesFor env h tried
          = votes ++ votesFor env h (e :: tried) := by
        intro tried
        by_cases hfor : e.isFor env h = true
        · rw [if_pos hfor, votesFor_cons_of_for tried hfor, List.append_assoc, List.singleton_append]
        · rw [if_neg hfor, votesFor_cons_of_not tried hfor]
      rw [hfirst, ← hvotes]
      refine (hs'.congr_seen fun k => ?_).congr ?_
      · simp only [List.map_cons, List.cons_append, List.mem_cons, List.mem_append]
        tauto
      · rw [locksBy_cons_iff, or_assoc]

def requestedState (env : InstantXEnv) (ext : InstantXExt) (tx : CTransaction) (nBlockHeight : Int)
    (s : InstantX) : InstantX :=
  { s.setLockHeight ext.getTime (env.getHash tx) nBlockHeight with
    mapTxLockVote :=
      match consensusVote env ext (env.getHash tx) nBlockHeight with
      | none => s.mapTxLockVote
      | some vote => Function.update s.mapTxLockVote vote.getHash (some vote)
    mapTxLockReq := mapInsert s.mapTxLockReq (env.getHash tx) tx }

theorem processLockRequest_returns (hgood : GoodRequest ext tx nBlockHeight) (hnew : s.known (env.getHash tx) = false)
    : ∃ invs, processMessageInstantX env ext (.txlreq tx) s
      = (.ok invs, requestedState env ext tx nBlockHeight s) := by
  have hopen : ¬ (ext.fLiteMode || !ext.fInstantX || !ext.fBlockchainSynced) = true := by
    have hactive := hgood.active
    unfold InstantXExt.isActive at hactive
    simpa using hactive
  have hvalid : (liftM (requestValid ext tx) : InstantXM Bool) s = (.ok true, s) :=
    Exec.liftM_returns.mpr ⟨hgood.valid, rfl⟩
  have hlock : createNewLock env ext tx s
      = (.ok nBlockHeight, s.setLockHeight ext.getTime (env.getHash tx) nBlockHeight) := by
    unfold createNewLock
    have hheight : (liftM (newLockHeight ext tx) : InstantXM (Option Int)) s
        = (.ok (some nBlockHeight), s) := Exec.liftM_returns.mpr ⟨hgood.height, rfl⟩
    rw [Exec.bind_of_ok hheight]
    rfl
  unfold processMessageInstantX
  rw [if_neg hopen]
  dsimp only
  unfold processLockRequest
  rw [Exec.read_bind, hnew, if_neg (by simp), Exec.bind_of_ok hvalid, if_neg (by simp),
    Exec.bind_of_ok hlock, hgood.accepted, if_pos rfl]
  unfold acceptRequest doConsensusVote requestedState
  cases consensusVote env ext (env.getHash tx) nBlockHeight with
  | none => exact ⟨_, rfl⟩
  | some vote => exact ⟨_, rfl⟩

/-- The request gives the lock its height, and is remembered; so is the node's own vote. -/
theorem Collecting.request (hs : Collecting h tx 0 seen votes False s) (htx : env.getHash tx = h) (ext : InstantXExt)
    (hpos : 0 < nBlockHeight) : Collecting h tx nBlockHeight
      (((consensusVote env ext h nBlockHeight).map CConsensusVote.getHash).toList ++ seen) votes False
      (requestedState env ext tx nBlockHeight s) := by
  subst htx
  have hlocks : ∀ k, (requestedState env ext tx nBlockHeight s).mapTxLocks k
      = (s.setLockHeight ext.getTime (env.getHash tx) nBlockHeight).mapTxLocks k := fun _ => rfl
  have hother : ∀ k, k ≠ env.getHash tx →
      (s.setLockHeight ext.getTime (env.getHash tx) nBlockHeight).mapTxLocks k = s.mapTxLocks k := by
    intro k hk
    exact Function.update_of_ne hk _ _
  obtain ⟨lock, hlock, hheight, hvotes⟩ : ∃ lock,
      (s.setLockHeight ext.getTime (env.getHash tx) nBlockHeight).mapTxLocks (env.getHash tx) = some lock
        ∧ lock.nBlockHeight = nBlockHeight ∧ lock.vecConsensusVotes = votes := by
    rw [← hs.votes]
    unfold InstantX.setLockHeight
    dsimp only
    cases s.mapTxLocks (env.getHash tx) with
    | none => exact ⟨_, Function.update_self .., rfl, rfl⟩
    | some lock => exact ⟨_, Function.update_self .., rfl, rfl⟩
  refine ⟨fun k => ?_, ?_, ?_, fun k hk => ?_, fun k => ?_, hs.rejected, hs.mine, fun hf => hf.elim, hs.unlocked⟩
  · unfold requestedState
    cases consensusVote env ext (env.getHash tx) nBlockHeight with
    | none => simpa using hs.seen k
    | some vote =>
      simp only [Option.map_some, Option.toList_some, List.singleton_append, List.mem_cons]
      by_cases hk : k = vote.getHash
      · subst hk
        simp
      · rw [Function.update_of_ne hk, hs.seen k, or_iff_right hk]
  · rw [hlocks, hlock, Option.map_some, Option.getD_some, hvotes]
  · rw [hlocks, hlock, Option.map_some, Option.getD_some, hheight]
  · rw [hlocks, hother k hk, hs.others k hk]
  · show mapInsert s.mapTxLockReq (env.getHash tx) tx k = _
    have hnone : s.mapTxLockReq (env.getHash tx) = none := by
      rw [hs.requests, if_neg (by simp)]
    unfold mapInsert
    rw [hnone, if_neg (by simp)]
    by_cases hk : k = env.getHash tx
    · rw [if_pos ⟨hk, by omega⟩, hk]
      exact Function.update_self ..
    · rw [if_neg (fun hc => hk hc.1), Function.update_of_ne hk, hs.requests, if_neg (fun hc => hk hc.1)]

section Delivery

theorem mem_votesFor {vote : CConsensusVote} :
    vote ∈ votesFor env h tried ↔ ∃ e ∈ tried, e.isFor env h = true ∧ e.2 = vote := by
  unfold votesFor
  rw [List.mem_map]
  constructor
  · rintro ⟨e, he, rfl⟩
    obtain ⟨hmem, hfor⟩ := List.mem_filter.mp he
    exact ⟨e, hmem, hfor, rfl⟩
  · rintro ⟨e, hmem, hfor, rfl⟩
    exact ⟨e, List.mem_filter.mpr ⟨hmem, hfor⟩, rfl⟩

/-- The votes that are tried on both sides of the request. -/
def triedVotes (env : InstantXEnv) (before after : List VoteEvent) (ext : InstantXExt) (tx : CTransaction)
    (nBlockHeight : Int) : List VoteEvent :=
  triedBefore before ++ triedAfter env before after ext tx nBlockHeight

theorem nodup_votesFor (env : InstantXEnv) (before after : List VoteEvent) (ext : InstantXExt) (tx : CTransaction)
    (nBlockHeight : Int) (h : UInt256) : ((votesFor env h (triedVotes env before after ext tx nBlockHeight)).map
      fun vote => vote.vinMasternode.prevout).Nodup := by
  have hhashes : ((triedVotes env before after ext tx nBlockHeight).map fun e => e.2.getHash).Nodup := by
    unfold triedVotes triedBefore triedAfter
    rw [List.map_append, List.nodup_append]
    refine ⟨Tally.nodup_firsts _ _, Tally.nodup_firsts _ _, ?_⟩
    intro a ha b hb hab
    obtain ⟨e, he, rfl⟩ := List.mem_map.mp ha
    obtain ⟨e', he', rfl⟩ := List.mem_map.mp hb
    refine Tally.key_notMem_of_mem_firsts he' (List.mem_append_right _ ?_)
    exact List.mem_map.mpr ⟨e, Tally.mem_of_mem_firsts he, hab⟩
  unfold votesFor
  rw [List.map_map]
  have hdistinct : (((triedVotes env before after ext tx nBlockHeight).filter
      fun e => e.isFor env h).map fun e => e.2.getHash).Nodup :=
    hhashes.sublist (List.filter_sublist.map _)
  refine Tally.nodup_of_key hdistinct ?_
  intro e he e' he' hsame
  have htx : ∀ {e : VoteEvent}, e ∈ (triedVotes env before after ext tx nBlockHeight).filter
      (fun e => e.isFor env h) → e.2.txHash = h := by
    intro e he
    have hfor := (List.mem_filter.mp he).2
    unfold VoteEvent.isFor at hfor
    rw [Bool.and_eq_true, beq_iff_eq] at hfor
    exact hfor.2
  have hprevout : e.2.vinMasternode.prevout = e'.2.vinMasternode.prevout := hsame
  unfold CConsensusVote.getHash
  rw [hprevout, htx he, htx he']

theorem isGenuine_iff :
    e.isGenuine env nBlockHeight h = true ↔ e.isFor env h = true ∧ e.2.nBlockHeight = nBlockHeight := by
  unfold VoteEvent.isGenuine
  rw [Bool.and_eq_true, beq_iff_eq]

theorem lockEvents_run (env : InstantXEnv) (before after : List VoteEvent) (hgood : GoodRequest ext tx nBlockHeight)
    (hactive : ∀ e ∈ before ++ after, e.1.isActive = true) :
    ∃ s, InstantXRun env (fun _ _ => True) (lockEvents before ext tx after) s ∧
      ∃ seen, Collecting (env.getHash tx) tx nBlockHeight seen
        (votesFor env (env.getHash tx) (triedVotes env before after ext tx nBlockHeight))
        ((∃ e ∈ triedAfter env before after ext tx nBlockHeight, e.isFor env (env.getHash tx) = true) ∧
          Enough nBlockHeight
            (votesFor env (env.getHash tx) (triedVotes env before after ext tx nBlockHeight))) s := by
  obtain ⟨s₁, hrun₁, hs₁⟩ := (Collecting.empty (env.getHash tx) tx).votesRun (fun _ _ => trivial) rfl before
    (fun e he => hactive e (List.mem_append_left _ he)) .start
  have hunlocked : ¬ (False ∨ LocksBy env (env.getHash tx) 0 []
      (Tally.firsts (fun e : VoteEvent => e.2.getHash) [] before)) := by
    rintro (hf | ⟨-, henough⟩)
    · exact hf
    · exact henough.1 rfl
  have hs₁' := hs₁.congr (iff_of_false not_false hunlocked)
  have hknown : s₁.known (env.getHash tx) = false := by
    have hreq := hs₁'.requests (env.getHash tx)
    rw [if_neg (by simp)] at hreq
    unfold InstantX.known
    rw [hreq, hs₁'.rejected]
    rfl
  obtain ⟨invs, hrequest⟩ := processLockRequest_returns hgood hknown
  have hs₂ := hs₁'.request rfl ext hgood.pos
  have hrun₂ : InstantXRun env (fun _ _ => True)
      ([] ++ before.map VoteEvent.toEvent ++ [(ext, .txlreq tx)])
      (requestedState env ext tx nBlockHeight s₁) := .receive hrun₁ trivial hrequest
  have hs₂' : Collecting (env.getHash tx) tx nBlockHeight (recordedHashes env before ext tx nBlockHeight)
      (votesFor env (env.getHash tx) (triedBefore before)) False (requestedState env ext tx nBlockHeight s₁) := by
    refine hs₂.congr_seen fun k => ?_
    unfold recordedHashes
    rw [List.append_nil]
  obtain ⟨s₃, hrun₃, hs₃⟩ := hs₂'.votesRun (fun _ _ => trivial) rfl after
    (fun e he => hactive e (List.mem_append_right _ he)) hrun₂
  have hvotes : votesFor env (env.getHash tx) (triedBefore before) ++ votesFor env (env.getHash tx)
      (triedAfter env before after ext tx nBlockHeight)
      = votesFor env (env.getHash tx) (triedVotes env before after ext tx nBlockHeight) := by
    unfold votesFor triedVotes
    rw [List.filter_append, List.map_append]
  have hevents : [] ++ before.map VoteEvent.toEvent ++ [(ext, .txlreq tx)] ++ after.map VoteEvent.toEvent
      = lockEvents before ext tx after := by
    simp [lockEvents]
  rw [hevents] at hrun₃
  refine ⟨s₃, hrun₃, (after.map fun e => e.2.getHash) ++ recordedHashes env before ext tx nBlockHeight, ?_⟩
  rw [← hvotes]
  exact hs₃.congr ⟨Or.inr, fun hor => hor.resolve_left id⟩

/-- Whatever the order in which a good request, votes of enough masternodes and any other votes are delivered,
    the lock is completed and its inputs are locked, with every genuine vote counted and no masternode counted
    twice, if and only if no other vote shadows a genuine one and not all the votes come before the request. -/
theorem lockCollected_iff (env : InstantXEnv) (before after : List VoteEvent) (hgood : GoodRequest ext tx nBlockHeight)
    (hactive : ∀ e ∈ before ++ after, e.1.isActive = true) (henough : Tally.Quorum instantxSignaturesRequired.toNat
      (fun e : VoteEvent => e.2.vinMasternode.prevout)
      (fun e => e.isGenuine env nBlockHeight (env.getHash tx) = true) (before ++ after)) :
    ∃ s, InstantXRun env (fun _ _ => True) (lockEvents before ext tx after) s ∧
      (LockCollected env before after tx nBlockHeight s ↔ WellOrdered env before after ext tx nBlockHeight) := by
  obtain ⟨s, hrun, seen, hs⟩ := lockEvents_run env before after hgood hactive
  refine ⟨s, hrun, ?_⟩
  have hpos := hgood.pos
  obtain ⟨lock, hlock, hheight, hvotes⟩ : ∃ lock, s.mapTxLocks (env.getHash tx) = some lock ∧
      lock.nBlockHeight = nBlockHeight ∧ lock.vecConsensusVotes
        = votesFor env (env.getHash tx) (triedVotes env before after ext tx nBlockHeight) := by
    have hh := hs.height
    have hv := hs.votes
    cases hl : s.mapTxLocks (env.getHash tx) with
    | none =>
      rw [hl] at hh
      have hzero : (0 : Int) = nBlockHeight := hh
      omega
    | some lock =>
      rw [hl] at hh hv
      exact ⟨lock, rfl, hh, hv⟩
  constructor
  · rintro ⟨⟨lock', hlock', -, hcomplete, hcounted, -⟩, hlocked⟩
    rw [hlock] at hlock'
    cases hlock'
    constructor
    · intro e he hgenuine
      obtain ⟨vote, hvote, hprevout, hvoteHeight⟩ := hcounted e he hgenuine
      rw [hvotes] at hvote
      obtain ⟨e', he', hfor, rfl⟩ := mem_votesFor.mp hvote
      exact ⟨e', he', isGenuine_iff.mpr ⟨hfor, hvoteHeight⟩, hprevout⟩
    · by_contra hnot
      have hnone := hs.unlocked fun hl => hnot hl.1
      obtain ⟨txin, htxin⟩ := List.exists_mem_of_ne_nil _ hgood.inputs
      have hsome := hlocked txin htxin
      rw [hnone] at hsome
      cases hsome
  · rintro ⟨hunshadowed, hlate⟩
    have hcount : Enough nBlockHeight
        (votesFor env (env.getHash tx) (triedVotes env before after ext tx nBlockHeight)) := by
      refine ⟨by omega, ?_⟩
      have hle := henough.count_of_covered hunshadowed
      unfold votesFor
      rw [List.countP_map, List.countP_filter]
      refine le_trans hle (le_of_eq (List.countP_congr fun e _ => ?_))
      rw [isGenuine_iff, Bool.and_eq_true, Function.comp_apply, beq_iff_eq, and_comm]
    refine ⟨⟨lock, hlock, hheight, ?_, fun e he hgenuine => ?_, ?_⟩, hs.inputs ⟨hlate, hcount⟩⟩
    · have henough' : Enough lock.nBlockHeight lock.vecConsensusVotes := by
        rw [hheight, hvotes]
        exact hcount
      exact countSignatures_iff.mpr henough'
    · obtain ⟨e', he', hgenuine', hprevout⟩ := hunshadowed e he hgenuine
      obtain ⟨hfor, hvoteHeight⟩ := isGenuine_iff.mp hgenuine'
      refine ⟨e'.2, ?_, hprevout, hvoteHeight⟩
      rw [hvotes]
      exact mem_votesFor.mpr ⟨e', he', hfor, rfl⟩
    · rw [hvotes]
      exact nodup_votesFor env before after ext tx nBlockHeight _

end Delivery

namespace Sample

theorem lockTx_good : GoodRequest (lockExt true) lockTx 14 where
  active := rfl
  valid := by decide
  height := by decide
  pos := by decide
  accepted := rfl
  inputs := List.cons_ne_nil _ _

def lockVotes : List VoteEvent := [(lockExt true, lockVote 21), (lockExt true, lockVote 22)]

theorem lockVotes_active : ∀ e ∈ lockVotes, e.1.isActive = true := by decide

theorem lockVotes_quorum : Tally.Quorum instantxSignaturesRequired.toNat
    (fun e : VoteEvent => e.2.vinMasternode.prevout)
    (fun e => e.isGenuine lockEnv 14 (lockEnv.getHash lockTx) = true) lockVotes := by
  refine ⟨lockVotes, List.Sublist.refl _, ?_, ?_, ?_⟩
  · decide
  · decide
  · decide

theorem lockVotes_collected :
    ∃ s, InstantXRun lockEnv (fun _ _ => True) (lockEvents [] (lockExt true) lockTx lockVotes) s
      ∧ LockCollected lockEnv [] lockVotes lockTx 14 s := by
  obtain ⟨s, hrun, hiff⟩ := lockCollected_iff lockEnv [] lockVotes lockTx_good lockVotes_active
    lockVotes_quorum
  refine ⟨s, hrun, hiff.mpr ⟨?_, ?_⟩⟩
  · intro e he hgenuine
    refine ⟨e, ?_, hgenuine, rfl⟩
    have htried : triedAfter lockEnv [] lockVotes (lockExt true) lockTx 14 = lockVotes := rfl
    rw [htried]
    exact he
  · exact ⟨(lockExt true, lockVote 21), List.mem_cons_self, by decide⟩

def signedEnv : InstantXEnv :=
  { lockEnv with verifyMessage := fun _ signature _ _ => !signature.isEmpty }

def signedVote (k : Nat) : VoteEvent := (lockExt true, { lockVote k with vchMasterNodeSignature := [1] })

/-- The votes of both masternodes in front of the request, and one of them behind a vote under its hash that
    nobody has signed: the inputs are not locked. -/
theorem locks_not_collected :
    Tally.Quorum instantxSignaturesRequired.toNat (fun e : VoteEvent => e.2.vinMasternode.prevout)
      (fun e => e.isGenuine lockEnv 14 (lockEnv.getHash lockTx) = true) (lockVotes ++ [])
    ∧ (∃ s, InstantXRun lockEnv (fun _ _ => True) (lockEvents lockVotes (lockExt true) lockTx []) s
      ∧ ¬ LockCollected lockEnv lockVotes [] lockTx 14 s)
    ∧ Tally.Quorum instantxSignaturesRequired.toNat (fun e : VoteEvent => e.2.vinMasternode.prevout)
      (fun e => e.isGenuine signedEnv 14 (signedEnv.getHash lockTx) = true)
      ([(lockExt true, lockVote 21)] ++ [signedVote 21, signedVote 22])
    ∧ ∃ s, InstantXRun signedEnv (fun _ _ => True)
        (lockEvents [(lockExt true, lockVote 21)] (lockExt true) lockTx [signedVote 21, signedVote 22]) s
      ∧ ¬ LockCollected signedEnv [(lockExt true, lockVote 21)] [signedVote 21, signedVote 22] lockTx 14 s := by
  refine ⟨lockVotes_quorum, ?_, ⟨[signedVote 21, signedVote 22], List.sublist_cons_self _ _, ?_, ?_, ?_⟩, ?_⟩
  · obtain ⟨s, hrun, seen, hs⟩ := lockEvents_run lockEnv lockVotes [] lockTx_good lockVotes_active
    refine ⟨s, hrun, fun hcollected => ?_⟩
    have hnone := hs.unlocked (by rintro ⟨⟨e, he, -⟩, -⟩; cases he) ⟨5, 0⟩
    rw [hcollected.locked _ List.mem_cons_self] at hnone
    cases hnone
  · decide
  · decide
  · decide
  · obtain ⟨s, hrun, seen, hs⟩ := lockEvents_run signedEnv [(lockExt true, lockVote 21)]
      [signedVote 21, signedVote 22] lockTx_good (by decide)
    refine ⟨s, hrun, fun hcollected => ?_⟩
    have hfew : ¬ 2 ≤ (votesFor signedEnv (signedEnv.getHash lockTx) (triedVotes signedEnv
        [(lockExt true, lockVote 21)] [signedVote 21, signedVote 22] (lockExt true) lockTx 14)).countP
          fun vote => vote.nBlockHeight == 14 := by decide
    have hnone := hs.unlocked (fun hlocked => hfew hlocked.2.2) ⟨5, 0⟩
    rw [hcollected.locked _ List.mem_cons_self] at hnone
    cases hnone

end Sample

end PupaCoin
