import PupaCoin.Net.Proofs.LockUpkeepProofs

/-!
# Proofs: the steps of InstantX

`LocksInv` is what every step keeps. An entry that `mapTxLockReq[txHash]` makes is not kept by anything: it is only made
for a refused request, and then the step does not come to its end.
-/

namespace PupaCoin

variable {e : Stop} {lock : CTransactionLock}

variable {env : InstantXEnv} {ext : InstantXExt} {tx : CTransaction} {vote : CConsensusVote} {s s' t : InstantX}
  {now : Int} {h : UInt256} {pending : Set UInt256}

/-- Locks and requests are stored under their hashes; a lock that has been given a height is the lock of a request, of
one that has come before or of one that is `pending`; no request is both accepted and refused; and an input is locked
for a refused request or for an accepted one that it belongs to. -/
structure LocksInv (env : InstantXEnv) (pending : Set UInt256) (s : InstantX) : Prop where
  hash : s.LocksKeyed
  known : ∀ h lock, s.mapTxLocks h = some lock → lock.nBlockHeight ≠ 0 → s.known h = true ∨ h ∈ pending
  keyed : s.RequestsKeyed env
  disjoint : ∀ h, s.mapTxLockReq h = none ∨ s.mapTxLockReqRejected h = none
  locked : ∀ o h, s.mapLockedInputs o = some h → (s.mapTxLockReqRejected h).isSome = true
    ∨ ∃ tx, s.mapTxLockReq h = some tx ∧ ∃ txin ∈ tx.vin, txin.prevout = o

theorem LocksInv.empty : LocksInv env ∅ .empty where
  hash _ _ hlock := nomatch hlock
  known _ _ hlock := nomatch hlock
  keyed _ _ htx := nomatch htx
  disjoint _ := Or.inl rfl
  locked _ _ ho := nomatch ho

namespace LocksInv

theorem ofLocks (hs : LocksInv env pending s) {pending' : Set UInt256} {locks : UInt256 → Option CTransactionLock}
    (hlocks : ∀ k lock, locks k = some lock → lock.txHash = k
      ∧ (lock.nBlockHeight ≠ 0 → s.known k = true ∨ k ∈ pending')) :
    LocksInv env pending' { s with mapTxLocks := locks } where
  hash k lock hlock := (hlocks k lock hlock).1
  known k lock hlock := (hlocks k lock hlock).2
  keyed := hs.keyed
  disjoint := hs.disjoint
  locked := hs.locked

theorem ofVotes (hs : LocksInv env pending s) (votes : UInt256 → Option CConsensusVote)
    (unknown : AList fun _ : UInt256 => Int) :
    LocksInv env pending { s with mapTxLockVote := votes, mapUnknownVotes := unknown } :=
  ⟨hs.hash, hs.known, hs.keyed, hs.disjoint, hs.locked⟩

theorem setLockHeight (hs : LocksInv env ∅ s) (now : Int) (h : UInt256) (nBlockHeight : Int) :
    LocksInv env {h} (s.setLockHeight now h nBlockHeight) := by
  refine hs.ofLocks fun k lock hlock => ?_
  rw [Function.update_apply] at hlock
  split at hlock
  · next hk =>
    refine ⟨?_, fun _ => Or.inr hk⟩
    obtain rfl := Option.some.inj hlock
    cases hold : s.mapTxLocks h with
    | none => exact hk.symm
    | some lock => exact hk ▸ hs.hash h lock hold
  · refine ⟨hs.hash k lock hlock, fun hheight => ?_⟩
    exact (hs.known k lock hlock hheight).imp_right fun hk => hk.elim

theorem expireLock (hs : LocksInv env pending s) (now : Int) (h : UInt256) :
    LocksInv env pending (s.expireLock now h) := by
  refine hs.ofLocks fun k lock hlock => ?_
  rw [Function.update_apply] at hlock
  split at hlock
  · next hk =>
    obtain ⟨old, hold, rfl⟩ := Option.map_eq_some_iff.mp hlock
    rw [hk]
    exact ⟨hs.hash h old hold, hs.known h old hold⟩
  · exact ⟨hs.hash k lock hlock, hs.known k lock hlock⟩

theorem lockOf_txHash (hs : LocksInv env pending s) (now : Int) (h : UInt256) : (s.lockOf now h).txHash = h := by
  unfold InstantX.lockOf
  cases hlock : s.mapTxLocks h with
  | none => rfl
  | some lock => exact hs.hash h lock hlock

theorem lockOf_known (hs : LocksInv env ∅ s) (hheight : (s.lockOf now h).nBlockHeight ≠ 0) : s.known h = true := by
  unfold InstantX.lockOf at hheight
  cases hlock : s.mapTxLocks h with
  | none =>
    rw [hlock] at hheight
    exact absurd rfl hheight
  | some lock =>
    rw [hlock] at hheight
    exact (hs.known h lock hlock hheight).resolve_right fun hk => hk

theorem addVote (hs : LocksInv env ∅ s) (now : Int) (vote : CConsensusVote) :
    LocksInv env ∅ (s.addVote now vote) := by
  refine hs.ofLocks fun k lock hlock => ?_
  rw [Function.update_apply] at hlock
  split at hlock
  · next hk =>
    obtain rfl := Option.some.inj hlock
    rw [hk]
    exact ⟨hs.lockOf_txHash now vote.txHash, fun hheight => Or.inl (hs.lockOf_known hheight)⟩
  · exact ⟨hs.hash k lock hlock, hs.known k lock hlock⟩

theorem lockInputs (hs : LocksInv env pending s) {vin : List CTxIn}
    (hvin : (s.mapTxLockReqRejected h).isSome = true ∨ ∃ tx, s.mapTxLockReq h = some tx ∧ tx.vin = vin) :
    LocksInv env pending (s.lockInputs h vin) where
  hash := hs.hash
  known := hs.known
  keyed := hs.keyed
  disjoint := hs.disjoint
  locked o k ho := by
    rcases InstantX.lockInputs_eq_some.mp ho with hold | ⟨-, rfl, txin, htxin, rfl⟩
    · exact hs.locked o k hold
    · refine hvin.imp_right ?_
      rintro ⟨tx, htx, rfl⟩
      exact ⟨tx, htx, txin, htxin, rfl⟩

theorem insertRequest (hs : LocksInv env {env.getHash tx} s) (hnew : s.known (env.getHash tx) = false) :
    LocksInv env ∅ { s with mapTxLockReq := mapInsert s.mapTxLockReq (env.getHash tx) tx } := by
  obtain ⟨hreq, hrej⟩ := InstantX.known_eq_false.mp hnew
  have hinsert : mapInsert s.mapTxLockReq (env.getHash tx) tx (env.getHash tx) = some tx :=
    mapInsert_eq_some.mpr (Or.inr ⟨hreq, rfl, rfl⟩)
  constructor
  · exact hs.hash
  · intro k lock hlock hheight
    refine Or.inl (InstantX.known_eq_true.mpr ?_)
    rcases hs.known k lock hlock hheight with hk | rfl
    · exact (InstantX.known_eq_true.mp hk).imp_left (isSome_mapInsert tx)
    · exact Or.inl (Option.isSome_of_eq_some hinsert)
  · intro k tx' htx'
    rcases mapInsert_eq_some.mp htx' with hold | ⟨-, rfl, rfl⟩
    · exact hs.keyed k tx' hold
    · rfl
  · intro k
    by_cases hk : k = env.getHash tx
    · exact Or.inr (hk ▸ hrej)
    · exact (hs.disjoint k).imp_left fun hnone => mapInsert_eq_none.mpr ⟨hnone, hk⟩
  · intro o k ho
    refine (hs.locked o k ho).imp_right ?_
    rintro ⟨tx', htx', hin⟩
    exact ⟨tx', mapInsert_eq_some.mpr (Or.inl htx'), hin⟩

theorem insertRejected (hs : LocksInv env {env.getHash tx} s) (hnew : s.known (env.getHash tx) = false) :
    LocksInv env ∅ { s with mapTxLockReqRejected := mapInsert s.mapTxLockReqRejected (env.getHash tx) tx } := by
  obtain ⟨hreq, hrej⟩ := InstantX.known_eq_false.mp hnew
  have hinsert : mapInsert s.mapTxLockReqRejected (env.getHash tx) tx (env.getHash tx) = some tx :=
    mapInsert_eq_some.mpr (Or.inr ⟨hrej, rfl, rfl⟩)
  constructor
  · exact hs.hash
  · intro k lock hlock hheight
    refine Or.inl (InstantX.known_eq_true.mpr ?_)
    rcases hs.known k lock hlock hheight with hk | rfl
    · exact (InstantX.known_eq_true.mp hk).imp_right (isSome_mapInsert tx)
    · exact Or.inr (Option.isSome_of_eq_some hinsert)
  · exact hs.keyed
  · intro k
    by_cases hk : k = env.getHash tx
    · exact Or.inl (hk ▸ hreq)
    · exact (hs.disjoint k).imp_right fun hnone => mapInsert_eq_none.mpr ⟨hnone, hk⟩
  · intro o k ho
    exact (hs.locked o k ho).imp_left (isSome_mapInsert tx)

theorem cleansLocks (hs : LocksInv env ∅ s) (hclean : CleansLocks ext s s') : LocksInv env ∅ s' := by
  by_cases hbest : ext.pindexBest = none
  · unfold CleansLocks at hclean
    rw [if_pos hbest] at hclean
    rwa [hclean]
  · obtain ⟨keys, hkeys, hcleaned⟩ := hclean.cleaned hbest hs.hash
    constructor
    · exact hs.hash.of_cleaned hcleaned
    · intro k lock hlock hheight
      obtain ⟨hold, hkept⟩ := (hcleaned.locks k lock).mp hlock
      refine Or.inl (InstantX.known_eq_true.mpr ?_)
      have hk := (hs.known k lock hold hheight).resolve_right fun hk => hk
      rcases InstantX.known_eq_true.mp hk with hreq | hrej
      · obtain ⟨tx, htx⟩ := Option.isSome_iff_exists.mp hreq
        exact Or.inl (Option.isSome_of_eq_some ((hcleaned.requests k tx).mpr ⟨htx, hkept⟩))
      · obtain ⟨tx, htx⟩ := Option.isSome_iff_exists.mp hrej
        refine Or.inr (Option.isSome_of_eq_some ((hcleaned.rejected k tx).mpr ⟨htx, ?_⟩))
        exact fun hgone => hkept ⟨hgone.1, hgone.2.1⟩
    · exact fun k tx htx => hs.keyed k tx ((hcleaned.requests k tx).mp htx).1
    · intro k
      refine (hs.disjoint k).imp (fun hnone => ?_) fun hnone => ?_
      · refine Option.eq_none_iff_forall_ne_some.mpr fun tx htx => ?_
        rw [((hcleaned.requests k tx).mp htx).1] at hnone
        cases hnone
      · refine Option.eq_none_iff_forall_ne_some.mpr fun tx htx => ?_
        rw [((hcleaned.rejected k tx).mp htx).1] at hnone
        cases hnone
    · intro o k ho
      obtain ⟨hold, hothers⟩ := (hcleaned.inputs o k).mp ho
      rcases hs.locked o k hold with hrej | ⟨tx, htx, txin, htxin, rfl⟩
      · obtain ⟨tx, htx⟩ := Option.isSome_iff_exists.mp hrej
        refine Or.inl (Option.isSome_of_eq_some ((hcleaned.rejected k tx).mpr ⟨htx, ?_⟩))
        rintro ⟨-, -, hreq⟩
        rcases hs.disjoint k with hnone | hnone
        · rw [hnone] at hreq
          cases hreq
        · rw [hnone] at hrej
          cases hrej
      · refine Or.inr ⟨tx, (hcleaned.requests k tx).mpr ⟨htx, ?_⟩, txin, htxin, rfl⟩
        exact fun hgone => hothers k hgone.1 hgone.2 tx htx txin htxin rfl

end LocksInv

/-- How a step ends: it uses the uninitialized block exactly under the given condition, and where it comes to its end the
invariant is kept. -/
structure StepOutcome {α : Type} (env : InstantXEnv) (refused : Prop) (r : Except Stop α × InstantX) : Prop where
  uninitialized : r.1 = .error uninitializedBlock ↔ refused
  inv : ∀ a, r.1 = .ok a → LocksInv env ∅ r.2

variable {α : Type} {refused : Prop}

theorem StepOutcome.returns {a : α} (hs : LocksInv env ∅ s) (hrefused : ¬ refused) :
    StepOutcome env refused (Except.ok a, s) :=
  ⟨iff_of_false (fun hstop => nomatch hstop) hrefused, fun _ _ => hs⟩

theorem StepOutcome.undone (hrefused : refused) {r : Except Stop α × InstantX}
    (hstop : r.1 = .error uninitializedBlock) : StepOutcome env refused r :=
  ⟨iff_of_true hstop hrefused, fun _ ha => nomatch hstop.symm.trans ha⟩

theorem StepOutcome.stops (he : e ≠ uninitializedBlock) (hrefused : ¬ refused) :
    StepOutcome env refused ((Except.error e : Except Stop α), s) :=
  ⟨iff_of_false (fun hstop => he (Except.error.inj hstop)) hrefused, fun _ ha => nomatch ha⟩

theorem StepOutcome.congr {refused' : Prop} {r : Except Stop α × InstantX} (hr : StepOutcome env refused r)
    (hiff : refused ↔ refused') : StepOutcome env refused' r :=
  ⟨hr.uninitialized.trans hiff, hr.inv⟩

theorem StepOutcome.bind {β : Type} {m : InstantXM α} {f : α → InstantXM β} (hm : StepOutcome env refused (m s))
    (hf : ∀ a t, LocksInv env ∅ t → StepOutcome env False (f a t)) : StepOutcome env refused ((m >>= f) s) := by
  rcases hrun : m s with ⟨r, t⟩
  rw [hrun] at hm
  cases r with
  | ok a =>
    have hrefused : ¬ refused := fun hrefused => nomatch hm.uninitialized.mpr hrefused
    rw [Exec.bind_of_ok hrun]
    exact (hf a t (hm.inv a rfl)).congr (iff_of_false id hrefused)
  | error e =>
    rw [Exec.bind_of_error hrun]
    exact ⟨⟨fun he => hm.uninitialized.mp (congrArg Except.error (Except.error.inj he)),
      fun hrefused => congrArg Except.error (Except.error.inj (hm.uninitialized.mpr hrefused))⟩, fun _ hb => nomatch hb⟩

theorem conflictingLock_lockInputs (hash : UInt256) (tx : CTransaction) (s : InstantX) :
    (s.lockInputs hash tx.vin).conflictingLock hash tx = s.conflictingLock hash tx := by
  unfold InstantX.conflictingLock
  congr 1
  funext txin
  refine Option.ext fun k => ?_
  rw [Option.filter_eq_some_iff, Option.filter_eq_some_iff, InstantX.lockInputs_eq_some]
  refine and_congr_left fun hk => or_iff_left ?_
  rintro ⟨-, rfl, -⟩
  simp at hk

theorem checkForConflictingLocks_of_none (hnone : s.conflictingLock (env.getHash tx) tx = none) :
    checkForConflictingLocks env ext tx s = (.ok false, s) := by
  unfold checkForConflictingLocks
  rw [hnone]

theorem checkForConflictingLocks_of_some {locked : UInt256}
    (hsome : s.conflictingLock (env.getHash tx) tx = some locked) : checkForConflictingLocks env ext tx s
      = (.ok true, (s.expireLock ext.getTime (env.getHash tx)).expireLock ext.getTime locked) := by
  unfold checkForConflictingLocks
  rw [hsome]

theorem checkForConflictingLocks_outcome (hs : LocksInv env ∅ s) (ext : InstantXExt) (tx : CTransaction) :
    StepOutcome env False (checkForConflictingLocks env ext tx s) := by
  cases hconflict : s.conflictingLock (env.getHash tx) tx with
  | none =>
    rw [checkForConflictingLocks_of_none hconflict]
    exact .returns hs id
  | some locked =>
    rw [checkForConflictingLocks_of_some hconflict]
    exact .returns ((hs.expireLock _ _).expireLock _ _) id

theorem completeLock_of_refused (hs : LocksInv env ∅ s) (hlock : lock.txHash = vote.txHash)
    (hrej : s.mapTxLockReqRejected vote.txHash ≠ none) :
    (completeLock env ext vote lock s).1 = .error uninitializedBlock := by
  have hreq : s.mapTxLockReq vote.txHash = none := (hs.disjoint vote.txHash).resolve_right hrej
  have hsome : (s.mapTxLockReqRejected lock.txHash).isSome = true := by
    rw [hlock]
    exact Option.isSome_iff_ne_none.mpr hrej
  obtain ⟨empty, hempty⟩ : ∃ empty : CTransaction, empty = ⟨1, UInt32.ofInt ext.getAdjustedTime, [], [], 0⟩ := ⟨_, rfl⟩
  have hvin : empty.vin = [] := by rw [hempty]
  have hat : lockRequestAt ext vote.txHash s
      = (.ok empty, { s with mapTxLockReq := Function.update s.mapTxLockReq vote.txHash (some empty) }) := by
    unfold lockRequestAt
    rw [hreq, hempty]
    rfl
  have hconflict (u : InstantX) : u.conflictingLock (env.getHash empty) empty = none := by
    unfold InstantX.conflictingLock
    rw [hvin]
    rfl
  unfold completeLock
  rw [Exec.bind_of_ok hat, Exec.bind_of_ok (checkForConflictingLocks_of_none (hconflict _)), if_neg (by simp),
    Exec.update_bind, Exec.read_bind]
  refine congrArg (fun m : InstantXM Unit => (m _).1) (if_pos ?_)
  -- whether the inputs are locked or not
  split
  · exact hsome
  · exact hsome

theorem completeLock_of_accepted (ext : InstantXExt) (hs : LocksInv env ∅ s) (hlock : lock.txHash = vote.txHash)
    (hreq : s.mapTxLockReq vote.txHash = some tx) (hrej : s.mapTxLockReqRejected vote.txHash = none) :
    ∃ s', completeLock env ext vote lock s = (.ok (), s') ∧ LocksInv env ∅ s' := by
  have hat : lockRequestAt ext vote.txHash s = (.ok tx, s) := by
    unfold lockRequestAt
    simp only [hreq, Option.getD_some]
    rw [← hreq, Function.update_eq_self]
  unfold completeLock
  rw [Exec.bind_of_ok hat]
  cases hconflict : s.conflictingLock (env.getHash tx) tx with
  | some locked =>
    rw [Exec.bind_of_ok (checkForConflictingLocks_of_some hconflict)]
    exact ⟨_, rfl, (hs.expireLock _ _).expireLock _ _⟩
  | none =>
    have hsome : (s.mapTxLockReq vote.txHash).isSome = true := Option.isSome_of_eq_some hreq
    have hnone : ¬ (s.mapTxLockReqRejected lock.txHash).isSome = true := by
      rw [hlock, hrej]
      simp
    rw [Exec.bind_of_ok (checkForConflictingLocks_of_none hconflict), if_neg (by simp),
      Exec.update_bind, Exec.read_bind, if_pos hsome]
    refine ⟨s.lockInputs vote.txHash tx.vin, ?_, hs.lockInputs (Or.inr ⟨tx, hreq, rfl⟩)⟩
    exact congrFun (if_neg hnone) _

theorem nBlockHeight_ne_zero (hcomplete : lock.IsComplete) : lock.nBlockHeight ≠ 0 := by
  intro hzero
  unfold CTransactionLock.IsComplete CTransactionLock.countSignatures at hcomplete
  rw [if_pos hzero] at hcomplete
  exact absurd hcomplete (by decide)

theorem relayVote_outcome (hs : LocksInv env ∅ s) : StepOutcome env False (relayVote ext vote s) := by
  obtain ⟨invs, unknown, hrelay⟩ := relayVote_returns ext vote s
  rw [hrelay]
  exact .returns (hs.ofVotes s.mapTxLockVote unknown) id

theorem processConsensusVote_outcome (hs : LocksInv env ∅ s) :
    StepOutcome env (voteAccepted env ext vote = true ∧ s.mapTxLockReqRejected vote.txHash ≠ none
        ∧ ((s.lockOf ext.getTime vote.txHash).addSignature vote).IsComplete)
      (processConsensusVote env ext vote s) := by
  unfold processConsensusVote
  by_cases haccepted : voteAccepted env ext vote = true
  · rw [if_neg (not_not.mpr haccepted), Exec.read_bind, Exec.update_bind]
    have hvote := hs.addVote ext.getTime vote
    have hlock : ((s.lockOf ext.getTime vote.txHash).addSignature vote).txHash = vote.txHash :=
      hs.lockOf_txHash ext.getTime vote.txHash
    by_cases hcomplete : ((s.lockOf ext.getTime vote.txHash).addSignature vote).countSignatures
        ≥ instantxSignaturesRequired
    · rw [if_pos hcomplete]
      by_cases hrej : s.mapTxLockReqRejected vote.txHash = none
      · have hpositive := nBlockHeight_ne_zero hcomplete
        have hheight : (s.lockOf ext.getTime vote.txHash).nBlockHeight ≠ 0 := hpositive
        obtain ⟨tx, hreq⟩ : ∃ tx, s.mapTxLockReq vote.txHash = some tx := by
          refine Option.isSome_iff_exists.mp ((InstantX.known_eq_true.mp (hs.lockOf_known hheight)).resolve_right ?_)
          rw [hrej]
          simp
        obtain ⟨t, ht, htinv⟩ := completeLock_of_accepted ext hvote hlock hreq hrej
        rw [Exec.bind_of_ok ht]
        exact .returns htinv fun hrefused => hrefused.2.1 hrej
      · refine .undone ⟨haccepted, hrej, hcomplete⟩ ?_
        rw [Exec.bind_of_error (Exec.eq_of_fst (completeLock_of_refused hvote hlock hrej))]
    · rw [if_neg hcomplete]
      exact .returns hvote fun hrefused => hcomplete hrefused.2.2
  · rw [if_pos haccepted]
    exact .returns hs fun hrefused => haccepted hrefused.1

theorem processLockVote_outcome (hs : LocksInv env ∅ s) :
    StepOutcome env (CompletesRefusedLock env ext vote s) (processLockVote env ext vote s) := by
  unfold processLockVote
  rw [Exec.read_bind]
  cases hseen : s.mapTxLockVote vote.getHash with
  | some old =>
    rw [if_pos Option.isSome_some]
    refine .returns hs fun hrefused => ?_
    rw [hrefused.1] at hseen
    cases hseen
  | none =>
    rw [if_neg (by simp), Exec.update_bind]
    have hrecorded : LocksInv env ∅ { s with mapTxLockVote := mapInsert s.mapTxLockVote vote.getHash vote } :=
      hs.ofVotes _ s.mapUnknownVotes
    refine .bind ((processConsensusVote_outcome hrecorded).congr (and_iff_right hseen).symm) ?_
    rintro accepted t ht
    cases accepted with
    | true => exact relayVote_outcome ht
    | false => exact .returns ht id

theorem bind_ne_error {β : Type} {x : Except Stop α} {f : α → Except Stop β} (hx : x ≠ .error e)
    (hf : ∀ a, f a ≠ .error e) : (x >>= f) ≠ .error e := by
  cases x with
  | ok a => exact hf a
  | error e' => exact fun heq => hx (congrArg Except.error (Except.error.inj heq))

theorem foldlM_ne_error {β : Type} {f : β → α → Except Stop β} (hf : ∀ b a, f b a ≠ .error e) (xs : List α) (b : β)
    : xs.foldlM f b ≠ .error e := by
  induction xs generalizing b with
  | nil => exact fun heq => nomatch heq
  | cons x rest ih =>
    rw [List.foldlM_cons]
    exact bind_ne_error (hf b x) ih

theorem addI64_ne (a b : Int) : addI64 a b ≠ .error uninitializedBlock := by
  unfold addI64
  split
  · exact fun heq => nomatch heq
  · exact fun heq => absurd (Except.error.inj heq) (by decide)

theorem nullBest_ne (ext : InstantXExt) : orUndefined ext.pindexBest "null pindexBest" ≠ .error uninitializedBlock := by
  unfold orUndefined
  split
  · exact fun heq => nomatch heq
  · exact fun heq => absurd (Except.error.inj heq) (by decide)

theorem isIXTXValid_ne (ext : InstantXExt) (tx : CTransaction) : isIXTXValid ext tx ≠ .error uninitializedBlock := by
  unfold isIXTXValid
  split
  · exact fun heq => nomatch heq
  split
  · exact fun heq => nomatch heq
  refine bind_ne_error (foldlM_ne_error (fun b (o : CTxOut) => addI64_ne b o.nValue) _ _) fun nValueOut => ?_
  refine bind_ne_error (foldlM_ne_error (fun acc i => ?_) _ _) fun acc => ?_
  · unfold addInputValue
    split
    · exact fun heq => nomatch heq
    · split
      · exact fun heq => nomatch heq
      · exact bind_ne_error (addI64_ne _ _) fun _ heq => nomatch heq
  · dsimp only
    split
    · exact fun heq => nomatch heq
    split
    · exact fun heq => nomatch heq
    exact bind_ne_error (addI64_ne _ _) fun _ heq => nomatch heq

theorem requestValid_ne (ext : InstantXExt) (tx : CTransaction) : requestValid ext tx ≠ .error uninitializedBlock := by
  unfold requestValid
  refine bind_ne_error (isIXTXValid_ne ext tx) fun valid => ?_
  split
  · exact fun heq => nomatch heq
  · exact fun heq => nomatch heq

theorem lastInputAge_ne (ext : InstantXExt) (vin : List CTxIn) (nTxAge : Int) :
    lastInputAge ext vin nTxAge ≠ .error uninitializedBlock := by
  induction vin generalizing nTxAge with
  | nil => exact fun heq => by cases heq
  | cons i rest ih =>
    rw [lastInputAge]
    refine bind_ne_error ?_ fun nAge => ?_
    · unfold getInputAge
      split
      · exact fun heq => by cases heq
      · split
        · exact fun heq => by cases heq
        · exact bind_ne_error (nullBest_ne ext) fun _ heq => by cases heq
    · split
      · exact fun heq => by cases heq
      · exact ih nAge

theorem newLockHeight_ne (ext : InstantXExt) (tx : CTransaction) :
    newLockHeight ext tx ≠ .error uninitializedBlock := by
  unfold newLockHeight
  refine bind_ne_error (lastInputAge_ne ext _ 0) fun nTxAge => ?_
  split
  · exact fun heq => nomatch heq
  · exact bind_ne_error (nullBest_ne ext) fun _ heq => nomatch heq

theorem createNewLock_of_ok {height : Option Int} (hheight : newLockHeight ext tx = .ok height) (hs : LocksInv env ∅ s) :
    ∃ n t, createNewLock env ext tx s = (.ok n, t) ∧ LocksInv env {env.getHash tx} t
      ∧ t.mapTxLocks (env.getHash tx) = s.lockAt ext.getTime (env.getHash tx) height
      ∧ t.mapTxLockReq = s.mapTxLockReq ∧ t.mapTxLockReqRejected = s.mapTxLockReqRejected
      ∧ t.mapLockedInputs = s.mapLockedInputs := by
  unfold createNewLock
  rw [hheight]
  cases height with
  | none =>
    refine ⟨0, s, rfl, ?_, rfl, rfl, rfl, rfl⟩
    exact ⟨hs.hash, fun k lock hlock hk => (hs.known k lock hlock hk).imp_right fun hpending => hpending.elim, hs.keyed,
      hs.disjoint, hs.locked⟩
  | some n => exact ⟨n, _, rfl, hs.setLockHeight ext.getTime _ n, rfl, rfl, rfl, rfl⟩

theorem acceptRequest_outcome (hs : LocksInv env {env.getHash tx} s) (hnew : s.known (env.getHash tx) = false)
    (nBlockHeight : Int) : StepOutcome env False (acceptRequest env ext tx nBlockHeight s) := by
  unfold acceptRequest doConsensusVote
  cases consensusVote env ext (env.getHash tx) nBlockHeight with
  | none => exact .returns (hs.insertRequest hnew) id
  | some own =>
    have hvotes : LocksInv env {env.getHash tx}
        { s with mapTxLockVote := Function.update s.mapTxLockVote own.getHash (some own) } :=
      hs.ofVotes _ s.mapUnknownVotes
    exact .returns (hvotes.insertRequest hnew) id

theorem resolveConflicts_outcome (hs : LocksInv env ∅ s) :
    StepOutcome env (s.conflictingLock (env.getHash tx) tx = none
      ∧ ∃ lock, s.mapTxLocks (env.getHash tx) = some lock ∧ lock.IsComplete) (resolveConflicts env ext tx s) := by
  unfold resolveConflicts
  rw [Exec.read_bind]
  cases hlock : s.mapTxLocks (env.getHash tx) with
  | none =>
    refine .returns hs ?_
    rintro ⟨-, lock, hsome, -⟩
    cases hsome
  | some lock =>
    dsimp only
    by_cases hcomplete : lock.countSignatures ≥ instantxSignaturesRequired
    · rw [if_pos hcomplete]
      cases hconflict : s.conflictingLock (env.getHash tx) tx with
      | none =>
        rw [Exec.bind_of_ok (checkForConflictingLocks_of_none hconflict)]
        exact .undone ⟨rfl, lock, rfl, hcomplete⟩ rfl
      | some locked =>
        rw [Exec.bind_of_ok (checkForConflictingLocks_of_some hconflict)]
        exact .returns ((hs.expireLock _ _).expireLock _ _) fun hrefused => nomatch hrefused.1
    · rw [if_neg hcomplete]
      refine .returns hs ?_
      rintro ⟨-, lock', hsome, hcomplete'⟩
      rw [Option.some.inj hsome] at hcomplete
      exact hcomplete hcomplete'

theorem rejectRequest_outcome (hs : LocksInv env {env.getHash tx} s) (hnew : s.known (env.getHash tx) = false) :
    StepOutcome env (s.conflictingLock (env.getHash tx) tx = none
      ∧ ∃ lock, s.mapTxLocks (env.getHash tx) = some lock ∧ lock.IsComplete) (rejectRequest env ext tx s) := by
  unfold rejectRequest
  rw [Exec.update_bind, Exec.update_bind]
  have hrejected := hs.insertRejected hnew
  have hsome : (mapInsert s.mapTxLockReqRejected (env.getHash tx) tx (env.getHash tx)).isSome = true := by
    have hnone := (InstantX.known_eq_false.mp hnew).2
    exact Option.isSome_of_eq_some (mapInsert_eq_some.mpr (Or.inr ⟨hnone, rfl, rfl⟩))
  have hlocked : LocksInv env ∅ (InstantX.lockInputs _ (env.getHash tx) tx.vin) := hrejected.lockInputs (Or.inl hsome)
  refine .bind ((resolveConflicts_outcome hlocked).congr ?_) fun _ t ht => .returns ht id
  rw [conflictingLock_lockInputs]
  rfl

theorem processLockRequest_outcome (hs : LocksInv env ∅ s) :
    StepOutcome env (RefusesCompleteLock env ext tx s) (processLockRequest env ext tx s) := by
  unfold processLockRequest
  rw [Exec.read_bind]
  cases hknown : s.known (env.getHash tx) with
  | true =>
    rw [if_pos rfl]
    refine .returns hs fun hrefused => ?_
    rw [hrefused.1] at hknown
    cases hknown
  | false =>
    rw [if_neg (by simp)]
    cases hvalid : requestValid ext tx with
    | error e =>
      refine .stops (fun he => requestValid_ne ext tx (hvalid.trans (congrArg Except.error he))) fun hrefused => ?_
      rw [hrefused.2.1] at hvalid
      cases hvalid
    | ok valid =>
      cases valid with
      | false =>
        refine .returns hs fun hrefused => ?_
        rw [hrefused.2.1] at hvalid
        cases hvalid
      | true =>
        have hlift : (liftM (Except.ok true : Except Stop Bool) : InstantXM Bool) s = (.ok true, s) := rfl
        rw [Exec.bind_of_ok hlift, if_neg (by simp)]
        cases hheight : newLockHeight ext tx with
        | error e =>
          have hstop : createNewLock env ext tx s = (.error e, s) := by
            unfold createNewLock
            rw [hheight]
            rfl
          rw [Exec.bind_of_error hstop]
          refine .stops (fun he => newLockHeight_ne ext tx (hheight.trans (congrArg Except.error he))) ?_
          rintro ⟨-, -, -, -, height, lock, hok, -⟩
          rw [hok] at hheight
          cases hheight
        | ok height =>
          obtain ⟨n, t, ht, htinv, hlock, hreq, hrej, hinputs⟩ := createNewLock_of_ok hheight hs
          have htknown : t.known (env.getHash tx) = false := by
            rw [← hknown, InstantX.known, InstantX.known, hreq, hrej]
          have hconflict : t.conflictingLock (env.getHash tx) tx = s.conflictingLock (env.getHash tx) tx := by
            unfold InstantX.conflictingLock
            rw [hinputs]
          rw [Exec.bind_of_ok ht]
          by_cases haccept : ext.acceptToMemoryPool tx = true
          · rw [if_pos haccept]
            refine (acceptRequest_outcome htinv htknown n).congr (iff_of_false id fun hrefused => ?_)
            rw [hrefused.2.2.1] at haccept
            cases haccept
          · rw [if_neg haccept]
            refine (rejectRequest_outcome htinv htknown).congr ?_
            rw [hconflict, hlock]
            constructor
            · rintro ⟨hnone, lock, hat, hcomplete⟩
              exact ⟨hknown, hvalid, by simpa using haccept, hnone, height, lock, hheight, hat, hcomplete⟩
            · rintro ⟨-, -, -, hnone, height', lock, hheight', hat, hcomplete⟩
              obtain rfl : height = height' := Except.ok.inj (hheight.symm.trans hheight')
              exact ⟨hnone, lock, hat, hcomplete⟩

theorem processMessageInstantX_outcome (hs : LocksInv env ∅ s) (ext : InstantXExt) (m : InstantXMessage) :
    StepOutcome env ((InstantXStep.message ext m).FindsRefusedLock env s) (processMessageInstantX env ext m s) := by
  unfold processMessageInstantX
  by_cases hopen : (ext.fLiteMode || !ext.fInstantX || !ext.fBlockchainSynced) = true
  · rw [if_pos hopen]
    refine .returns hs ?_
    cases m with
    | txlreq tx =>
      rintro ⟨hclosed, -⟩
      rw [hopen] at hclosed
      cases hclosed
    | txlvote vote =>
      rintro ⟨hclosed, -⟩
      rw [hopen] at hclosed
      cases hclosed
  · rw [if_neg hopen]
    rw [Bool.not_eq_true] at hopen
    cases m with
    | txlreq tx => exact (processLockRequest_outcome hs).congr (and_iff_right hopen).symm
    | txlvote vote => exact (processLockVote_outcome hs).congr (and_iff_right hopen).symm

theorem LocksInv.step {step : InstantXStep} (hs : LocksInv env ∅ s) (hstep : step.Returns env s s') :
    LocksInv env ∅ s' := by
  cases step with
  | message ext m =>
    obtain ⟨invs, hreturns⟩ := hstep
    have houtcome := processMessageInstantX_outcome hs ext m
    rw [hreturns] at houtcome
    exact houtcome.inv invs rfl
  | checkConflicts ext tx =>
    obtain ⟨conflict, hreturns⟩ := hstep
    have houtcome := checkForConflictingLocks_outcome hs ext tx
    rw [hreturns] at houtcome
    exact houtcome.inv conflict rfl
  | cleanLocks ext => exact hs.cleansLocks hstep

theorem InstantXReachable.inv (hrun : InstantXReachable env s) : LocksInv env ∅ s := by
  induction hrun with
  | start => exact .empty
  | step _ _ hstep ih => exact ih.step hstep

theorem InstantXRun.reachable {P : InstantXEvent → InstantX → Prop} {events : List InstantXEvent}
    (hrun : InstantXRun env P events s) : InstantXReachable env s := by
  induction hrun with
  | start => exact .start
  | receive _ _ hr ih => exact .step (.message _ _) ih ⟨_, hr⟩

/-- **Requests and blocks.** In every state that is reached the requests are stored under their hashes, and a step uses an
uninitialized block exactly when it finds that a refused request has a complete lock. -/
theorem requestsKeyed_and_usesUninitializedBlock_iff (env : InstantXEnv) (s : InstantX)
    (hrun : InstantXReachable env s) : s.RequestsKeyed env ∧ ∀ step : InstantXStep,
      ¬ step.UsesUninitializedBlock env s ↔ ¬ step.FindsRefusedLock env s := by
  refine ⟨hrun.inv.keyed, fun step => not_congr ?_⟩
  cases step with
  | message ext m => exact (processMessageInstantX_outcome hrun.inv ext m).uninitialized
  | checkConflicts ext tx => exact (checkForConflictingLocks_outcome hrun.inv ext tx).uninitialized
  | cleanLocks ext => exact Iff.rfl

namespace Sample

theorem refusedState_reachable : InstantXReachable lockEnv refusedState :=
  .step (.message (lockExt false) (.txlreq lockTx)) .start ⟨[], refused_returns⟩

def refusedVoteState : InstantX :=
  (processMessageInstantX lockEnv (lockExt false) (.txlvote (lockVote 21)) refusedState).2

theorem refusedVoteState_reachable : InstantXReachable lockEnv refusedVoteState := by
  refine .step (.message (lockExt false) (.txlvote (lockVote 21))) refusedState_reachable ⟨[.txLockVote 30], ?_⟩
  exact Exec.eq_of_fst (by decide)

/-- The second vote completes the lock of the refused request. -/
theorem second_vote_uses_block : ¬ ∀ (env : InstantXEnv) (s : InstantX), InstantXReachable env s →
    s.RequestsKeyed env ∧ ∀ step : InstantXStep, ¬ step.UsesUninitializedBlock env s := by
  intro hall
  obtain ⟨-, hsafe⟩ := hall lockEnv refusedVoteState refusedVoteState_reachable
  refine hsafe (.message (lockExt false) (.txlvote (lockVote 22))) ?_
  show (processMessageInstantX lockEnv (lockExt false) (.txlvote (lockVote 22)) refusedVoteState).1 = _
  decide

theorem first_vote_safe : refusedState.RequestsKeyed lockEnv
    ∧ ¬ (InstantXStep.message (lockExt false) (.txlvote (lockVote 21))).UsesUninitializedBlock lockEnv refusedState := by
  obtain ⟨hkeyed, hsafe⟩ := requestsKeyed_and_usesUninitializedBlock_iff lockEnv refusedState refusedState_reachable
  refine ⟨hkeyed, (hsafe _).mpr ?_⟩
  rintro ⟨-, -, -, -, hcomplete⟩
  have hcount : ((refusedState.lockOf (lockExt false).getTime (lockVote 21).txHash).addSignature (lockVote 21)).countSignatures
      = 1 := by decide
  unfold CTransactionLock.IsComplete at hcomplete
  rw [hcount] at hcomplete
  exact absurd hcomplete (by decide)

end Sample

/-- **The maps agree** in every state that is reached: a lock stands under the hash of its transaction, and one with a
height belongs to a request; no request is accepted and refused; and an input is locked for a refused request or for an
accepted one that spends it. -/
theorem locks_consistent (hrun : InstantXReachable env s) : s.LocksKeyed
    ∧ (∀ h lock, s.mapTxLocks h = some lock → lock.nBlockHeight ≠ 0 → s.known h = true)
    ∧ (∀ h, s.mapTxLockReq h = none ∨ s.mapTxLockReqRejected h = none)
    ∧ ∀ o h, s.mapLockedInputs o = some h → (s.mapTxLockReqRejected h).isSome = true
      ∨ ∃ tx, s.mapTxLockReq h = some tx ∧ ∃ txin ∈ tx.vin, txin.prevout = o := by
  have hinv := hrun.inv
  refine ⟨hinv.hash, fun h lock hlock hheight => ?_, hinv.disjoint, hinv.locked⟩
  exact (hinv.known h lock hlock hheight).resolve_right (Set.notMem_empty h)

theorem Sample.locks_consistent_refused : (refusedState.mapTxLockReqRejected 9).isSome = true
    ∨ ∃ tx, refusedState.mapTxLockReq 9 = some tx ∧ ∃ txin ∈ tx.vin, txin.prevout = ⟨5, 0⟩ :=
  (locks_consistent refusedState_reachable).2.2.2 ⟨5, 0⟩ 9 (by decide)

end PupaCoin

/-!
## Proofs: the expiry of locks

The cleaning erases the inputs of the accepted requests whose locks expire, for whomever they are locked.
-/

namespace PupaCoin

variable {env : InstantXEnv} {ext : InstantXExt} {s s' : InstantX} {o : COutPoint} {h : UInt256}

theorem CleansLocks.locks_iff (hclean : CleansLocks ext s s') (hbest : ext.pindexBest ≠ none) (hkeyed : s.LocksKeyed)
    (lock : CTransactionLock) :
    s'.mapTxLocks h = some lock ↔ s.mapTxLocks h = some lock ∧ ¬ s.Expired ext.getTime h := by
  obtain ⟨keys, hkeys, hcleaned⟩ := hclean.cleaned hbest hkeyed
  rw [hcleaned.locks, and_iff_right_of_imp (hkeys h)]

theorem CleansLocks.inputs_iff (hclean : CleansLocks ext s s') (hbest : ext.pindexBest ≠ none) (hkeyed : s.LocksKeyed) :
    s'.mapLockedInputs o = some h ↔ s.mapLockedInputs o = some h ∧ ¬ s.ReleasedBy ext.getTime o := by
  obtain ⟨keys, hkeys, hcleaned⟩ := hclean.cleaned hbest hkeyed
  rw [hcleaned.inputs]
  refine and_congr_right fun _ => ?_
  constructor
  · rintro hothers ⟨k, tx, hreq, hexpired, txin, htxin, ho⟩
    exact hothers k (hkeys k hexpired) hexpired tx hreq txin htxin ho
  · intro hkept k _ hexpired tx hreq txin htxin ho
    exact hkept ⟨k, tx, hreq, hexpired, txin, htxin, ho⟩

theorem CleansLocks.eq_of_best (hclean : CleansLocks ext s s') (hbest : ext.pindexBest = none) : s' = s := by
  unfold CleansLocks at hclean
  rwa [if_pos hbest] at hclean

theorem CleansExpired.not_expired (hcleans : CleansExpired ext s) (hbest : ext.pindexBest = none) (h : UInt256) :
    ¬ s.Expired ext.getTime h := by
  intro hexpired
  obtain ⟨s', hclean⟩ := hcleans.returns
  obtain ⟨lock, hlock, hlate⟩ := hexpired
  have hgone := hcleans.locks s' hclean h lock
  rw [hclean.eq_of_best hbest] at hgone
  exact (hgone.mp hlock).2 ⟨lock, hlock, hlate⟩

theorem ownInputs_of_cleansExpired (hkeyed : s.LocksKeyed) (hcleans : CleansExpired ext s) : OwnInputs ext s := by
  obtain ⟨s', hclean⟩ := hcleans.returns
  refine ⟨hcleans.not_expired, fun o h ho _ hexpired => ?_, fun o h ho hreleased hlock => ?_⟩
  · by_contra hkept
    have hbest : ext.pindexBest ≠ none := fun hbest => hcleans.not_expired hbest h hexpired
    have hgone := hcleans.inputs s' hclean o h ho hexpired
    rw [(hclean.inputs_iff hbest hkeyed).mpr ⟨ho, hkept⟩] at hgone
    cases hgone
  · by_contra hremains
    have hbest : ext.pindexBest ≠ none := by
      obtain ⟨k, -, -, hexpired, -⟩ := hreleased
      exact fun hbest => hcleans.not_expired hbest k hexpired
    obtain ⟨lock, hlock⟩ := Option.isSome_iff_exists.mp hlock
    have hlock' := (hclean.locks_iff hbest hkeyed lock).mpr ⟨hlock, hremains⟩
    have hstays := hcleans.kept s' hclean o h ho (Option.isSome_of_eq_some hlock')
    exact ((hclean.inputs_iff hbest hkeyed).mp hstays).2 hreleased

theorem cleansExpired_of_ownInputs (hs : LocksInv env ∅ s) (hown : OwnInputs ext s) : CleansExpired ext s := by
  by_cases hbest : ext.pindexBest = none
  · have hnever := hown.best hbest
    refine ⟨exists_cleansLocks ext s, fun s' hclean h lock => ?_, fun s' hclean o h ho hexpired => ?_,
      fun s' hclean o h ho _ => ?_⟩
    · rw [hclean.eq_of_best hbest]
      exact (and_iff_left (hnever h)).symm
    · exact absurd hexpired (hnever h)
    · rw [hclean.eq_of_best hbest]
      exact ho
  · refine ⟨exists_cleansLocks ext s, fun s' hclean h lock => hclean.locks_iff hbest hs.hash lock,
      fun s' hclean o h ho hexpired => ?_, fun s' hclean o h ho hlock => ?_⟩
    · refine Option.eq_none_iff_forall_ne_some.mpr fun k hk => ?_
      refine ((hclean.inputs_iff hbest hs.hash).mp hk).2 ?_
      rcases hs.locked o h ho with hrefused | ⟨tx, hreq, hin⟩
      · exact hown.refused o h ho hrefused hexpired
      · exact ⟨h, tx, hreq, hexpired, hin⟩
    · obtain ⟨lock, hlock⟩ := Option.isSome_iff_exists.mp hlock
      obtain ⟨hold, hremains⟩ := (hclean.locks_iff hbest hs.hash lock).mp hlock
      refine (hclean.inputs_iff hbest hs.hash).mpr ⟨ho, fun hreleased => hremains ?_⟩
      exact hown.shared o h ho hreleased (Option.isSome_of_eq_some hold)

/-- **`CleanTransactionLocksList`** removes the expired locks and the inputs locked for their transactions, and no others,
exactly when no input of an expired lock is left to a refused request or taken from a lock that remains. -/
theorem cleansExpired_iff (env : InstantXEnv) (ext : InstantXExt) (s : InstantX) (hrun : InstantXReachable env s) :
    CleansExpired ext s ↔ OwnInputs ext s :=
  ⟨ownInputs_of_cleansExpired hrun.inv.hash, cleansExpired_of_ownInputs hrun.inv⟩

namespace Sample

def lateExt : InstantXExt := { lockExt false with getTime := 5000 }

/-- The refused request keeps its input locked. -/
theorem refused_request_stays : ¬ ∀ (env : InstantXEnv) (ext : InstantXExt) (s : InstantX), InstantXReachable env s →
    CleansExpired ext s := by
  intro hall
  have hcleans := hall lockEnv lateExt refusedState refusedState_reachable
  have hlocked : refusedState.mapLockedInputs ⟨5, 0⟩ = some 9 := by decide
  have hexpiration : (refusedState.mapTxLocks 9).map CTransactionLock.nExpiration = some 2200 := by decide
  obtain ⟨lock, hlock, hlate⟩ := Option.map_eq_some_iff.mp hexpiration
  have hexpired : refusedState.Expired lateExt.getTime 9 := ⟨lock, hlock, by rw [hlate]; decide⟩
  obtain ⟨s', hclean⟩ := hcleans.returns
  have hgone := hcleans.inputs s' hclean ⟨5, 0⟩ 9 hlocked hexpired
  -- no request has been accepted
  have hkept : ¬ refusedState.ReleasedBy lateExt.getTime ⟨5, 0⟩ := by
    rintro ⟨h, tx, hreq, -⟩
    exact nomatch (show refusedState.mapTxLockReq h = none from rfl).symm.trans hreq
  rw [(hclean.inputs_iff (fun hbest => nomatch hbest) refusedState_reachable.inv.hash).mpr ⟨hlocked, hkept⟩] at hgone
  cases hgone

theorem accepted_request_expires : CleansExpired lateExt (lockState 3) := by
  have hrun : InstantXReachable lockEnv (lockState 3) := lockState_run.reachable
  have hrequests : (lockState 3).mapTxLockReq
      = Function.update (Function.update (fun _ => none) 9 (some lockTx)) 9 (some lockTx) := rfl
  have hexpiration : ((lockState 3).mapTxLocks 9).map CTransactionLock.nExpiration = some 2200 := by decide
  obtain ⟨lock, hlock, hlate⟩ := Option.map_eq_some_iff.mp hexpiration
  have hexpired : (lockState 3).Expired lateExt.getTime 9 := ⟨lock, hlock, by rw [hlate]; decide⟩
  refine (cleansExpired_iff lockEnv lateExt (lockState 3) hrun).mpr ⟨(fun hbest => nomatch hbest), ?_, ?_⟩
  · rintro o h - hrefused
    exact nomatch hrefused
  · rintro o h ho - -
    -- there is one request
    rcases hrun.inv.locked o h ho with hrefused | ⟨tx, hreq, -⟩
    · exact nomatch hrefused
    · rw [hrequests, Function.update_apply, Function.update_apply] at hreq
      split at hreq
      · next hh => exact hh ▸ hexpired
      · cases hreq

end Sample

end PupaCoin
