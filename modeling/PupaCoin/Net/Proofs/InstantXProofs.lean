import PupaCoin.Chain.Sample
import PupaCoin.Net.InstantX

/-!
# Which inputs are locked

`LockInv` is what every message keeps. The only message that can break it is a request that the memory pool
refuses; it does not where the votes for the request came first.
-/

namespace PupaCoin

variable {lock : CTransactionLock} {invs : List CInv} {n : Int} {event : InstantXEvent} {vin : List CTxIn}

theorem mapInsert_eq_some {K V : Type} [DecidableEq K] {m : K → Option V} {key k : K} {value v : V} :
    mapInsert m key value k = some v ↔ m k = some v ∨ (m key = none ∧ k = key ∧ value = v) := by
  unfold mapInsert
  cases hm : m key with
  | some w =>
    simp
  | none =>
    by_cases hk : k = key
    · subst hk
      simp [hm]
    · simp [hk]

theorem mapInsert_eq_none {K V : Type} [DecidableEq K] {m : K → Option V} {key k : K} {value : V} :
    mapInsert m key value k = none ↔ m k = none ∧ k ≠ key := by
  unfold mapInsert
  cases hm : m key with
  | some w =>
    simp only [Option.isSome_some, if_true]
    constructor
    · intro hk
      refine ⟨hk, fun heq => ?_⟩
      rw [heq, hm] at hk
      cases hk
    · exact fun hk => hk.1
  | none =>
    by_cases hk : k = key
    · subst hk
      simp
    · simp [hk]

theorem isSome_mapInsert {K V : Type} [DecidableEq K] {m : K → Option V} {key k : K} (value : V)
    (h : (m k).isSome = true) : (mapInsert m key value k).isSome = true := by
  obtain ⟨v, hv⟩ := Option.isSome_iff_exists.mp h
  rw [mapInsert_eq_some.mpr (Or.inl hv)]
  rfl

section Messages

variable {env : InstantXEnv} {ext : InstantXExt} {events : List InstantXEvent} {s s' : InstantX}
  {vote : CConsensusVote} {tx : CTransaction} {h : UInt256} {now : Int}

theorem getMasternodeRank_pos (vin : CTxIn) (nBlockHeight minProtocol : Int)
    (h : getMasternodeRank env ext vin nBlockHeight minProtocol ≠ -1) :
    1 ≤ getMasternodeRank env ext vin nBlockHeight minProtocol := by
  unfold getMasternodeRank at h ⊢
  cases hhash : ext.getBlockHash nBlockHeight with
  | none =>
    rw [hhash] at h
    exact absurd rfl h
  | some hash =>
    simp only [hhash] at h ⊢
    split
    · next hfind =>
      rw [hfind] at h
      exact absurd rfl h
    · omega

theorem validVote_of_accepted (hv : voteAccepted env ext vote = true) :
    ValidVote env (events ++ [(ext, .txlvote vote)]) vote := by
  unfold voteAccepted at hv
  simp only at hv
  split at hv
  · cases hv
  · next hrank =>
    split at hv
    · cases hv
    · next htop =>
      exact ⟨ext, by simp, hv, getMasternodeRank_pos _ _ _ hrank, by omega⟩

theorem ValidVote.mono (hv : ValidVote env events vote) (event : InstantXEvent) :
    ValidVote env (events ++ [event]) vote := by
  obtain ⟨ext, hmem, hrest⟩ := hv
  exact ⟨ext, List.mem_append_left _ hmem, hrest⟩

namespace InstantX

theorem known_eq_true : s.known h = true ↔
    (s.mapTxLockReq h).isSome = true ∨ (s.mapTxLockReqRejected h).isSome = true := by
  simp [known]

theorem known_eq_false : s.known h = false ↔ s.mapTxLockReq h = none ∧ s.mapTxLockReqRejected h = none := by
  simp [known]

@[simp] theorem addVote_mapTxLocks : (s.addVote now vote).mapTxLocks = Function.update s.mapTxLocks vote.txHash
      (some ((s.lockOf now vote.txHash).addSignature vote)) := rfl

theorem lockInputs_eq_some {o : COutPoint} {k : UInt256} :
    (s.lockInputs h vin).mapLockedInputs o = some k ↔ s.mapLockedInputs o = some k
      ∨ (s.mapLockedInputs o = none ∧ k = h ∧ ∃ txin ∈ vin, txin.prevout = o) := by
  unfold lockInputs
  simp only
  induction vin generalizing s with
  | nil => simp
  | cons txin rest ih =>
    have hrest := @ih { s with mapLockedInputs := mapInsert s.mapLockedInputs txin.prevout h }
    simp only at hrest
    rw [List.foldl_cons, hrest, mapInsert_eq_some, mapInsert_eq_none]
    constructor
    · rintro ((hold | ⟨hnone, rfl, rfl⟩) | ⟨⟨hnone, -⟩, rfl, i, hi, ho⟩)
      · exact Or.inl hold
      · exact Or.inr ⟨hnone, rfl, txin, by simp, rfl⟩
      · exact Or.inr ⟨hnone, rfl, i, List.mem_cons_of_mem _ hi, ho⟩
    · rintro (hold | ⟨hnone, rfl, i, hi, rfl⟩)
      · exact Or.inl (Or.inl hold)
      · by_cases hsame : i.prevout = txin.prevout
        · exact Or.inl (Or.inr ⟨hsame ▸ hnone, hsame, rfl⟩)
        · refine Or.inr ⟨⟨hnone, hsame⟩, rfl, i, ?_, rfl⟩
          rcases List.mem_cons.mp hi with rfl | hi
          · exact absurd rfl hsame
          · exact hi

end InstantX

/-- What every message keeps: a request is stored under its hash, the votes of a lock are valid and of
different masternodes, and a locked input belongs to a known transaction with a complete lock. -/
structure LockInv (env : InstantXEnv) (events : List InstantXEvent) (s : InstantX) : Prop where
  requests : ∀ h tx, s.mapTxLockReq h = some tx → env.getHash tx = h ∨ tx.vin = []
  cast : ∀ h lock, s.mapTxLocks h = some lock → ∀ vote ∈ lock.vecConsensusVotes,
    vote.txHash = h ∧ ValidVote env events vote ∧ (s.mapTxLockVote vote.getHash).isSome = true
  distinct : ∀ h lock, s.mapTxLocks h = some lock → (lock.vecConsensusVotes.map CConsensusVote.getHash).Nodup
  locked : ∀ o h, s.mapLockedInputs o = some h → s.known h = true
    ∧ (∃ tx : CTransaction, env.getHash tx = h ∧ ∃ txin ∈ tx.vin, txin.prevout = o)
    ∧ ∃ lock, s.mapTxLocks h = some lock ∧ 2 ≤ lock.vecConsensusVotes.countP lock.counts

theorem LockInv.empty : LockInv env events .empty where
  requests := by simp [InstantX.empty]
  cast := by simp [InstantX.empty]
  distinct := by simp [InstantX.empty]
  locked := by simp [InstantX.empty]

theorem LockInv.mono (hs : LockInv env events s) (event : InstantXEvent) : LockInv env (events ++ [event]) s where
  requests := hs.requests
  cast h lock hlock vote hvote := by
    obtain ⟨htx, hvalid, hseen⟩ := hs.cast h lock hlock vote hvote
    exact ⟨htx, hvalid.mono event, hseen⟩
  distinct := hs.distinct
  locked := hs.locked

/-- The votes that count are of different masternodes, because the hash of a vote is made of the
    masternode and the transaction. -/
theorem LockInv.completeLock (hs : LockInv env events s)
    (hlock : s.mapTxLocks h = some lock) (hcount : 2 ≤ lock.vecConsensusVotes.countP lock.counts) :
    CompleteLock env events s h := by
  refine ⟨lock, hlock, ?_⟩
  have hvoters : (lock.vecConsensusVotes.map fun vote => vote.vinMasternode.prevout).Nodup := by
    refine Tally.nodup_of_key (hs.distinct h lock hlock) ?_
    intro v hv w hw hvw
    simp only [CConsensusVote.getHash, hvw, (hs.cast h lock hlock v hv).1, (hs.cast h lock hlock w hw).1]
  refine Tally.quorum_of_count hvoters hcount ?_
  intro v hv hcounts
  obtain ⟨htx, hvalid, -⟩ := hs.cast h lock hlock v hv
  exact ⟨htx, by simpa [CTransactionLock.counts] using hcounts, hvalid⟩

theorem LockInv.locksComplete (hs : LockInv env events s) : LocksComplete env events s := by
  intro o h ho
  obtain ⟨-, hspends, lock, hlock, hcount⟩ := hs.locked o h ho
  exact ⟨hspends, hs.completeLock hlock hcount⟩

/-- The height and the votes of a lock. -/
def CTransactionLock.tally (lock : CTransactionLock) : Int × List CConsensusVote :=
  (lock.nBlockHeight, lock.vecConsensusVotes)

/-- Nothing is locked, no vote is added and no request is forgotten. -/
structure LocksSame (env : InstantXEnv) (s s' : InstantX) : Prop where
  requests : ∀ h tx, s'.mapTxLockReq h = some tx → s.mapTxLockReq h = some tx
    ∨ env.getHash tx = h ∨ tx.vin = []
  known : ∀ h, s.known h = true → s'.known h = true
  seen : ∀ k, (s.mapTxLockVote k).isSome = true → (s'.mapTxLockVote k).isSome = true
  tally : ∀ h, (s'.mapTxLocks h).map CTransactionLock.tally = (s.mapTxLocks h).map CTransactionLock.tally
  locked : s'.mapLockedInputs = s.mapLockedInputs

namespace LocksSame

theorem refl (s : InstantX) : LocksSame env s s := ⟨fun _ _ h => Or.inl h, fun _ h => h, fun _ h => h,
  fun _ => rfl, rfl⟩

theorem trans {a b c : InstantX} (hab : LocksSame env a b) (hbc : LocksSame env b c) : LocksSame env a c where
  requests h tx htx := by
    rcases hbc.requests h tx htx with hb | hother
    · exact hab.requests h tx hb
    · exact Or.inr hother
  known h hk := hbc.known h (hab.known h hk)
  seen k hk := hbc.seen k (hab.seen k hk)
  tally h := (hbc.tally h).trans (hab.tally h)
  locked := hbc.locked.trans hab.locked

theorem bind {α β : Type} {m : InstantXM α} {f : α → InstantXM β} (hm : Exec.Frame (LocksSame env) m)
    (hf : ∀ a, Exec.Frame (LocksSame env) (f a)) : Exec.Frame (LocksSame env) (m >>= f) :=
  Exec.Frame.bind (fun _ _ _ hab hbc => hab.trans hbc) hm hf

theorem pure {α : Type} (a : α) : Exec.Frame (LocksSame env) (Pure.pure a : InstantXM α) :=
  Exec.Frame.pure refl a

theorem lock_back (hq : LocksSame env s s') {lock' : CTransactionLock} (hlock : s'.mapTxLocks h = some lock') :
    ∃ lock, s.mapTxLocks h = some lock ∧ lock.nBlockHeight = lock'.nBlockHeight
      ∧ lock.vecConsensusVotes = lock'.vecConsensusVotes := by
  have htally := hq.tally h
  rw [hlock, Option.map_some, eq_comm, Option.map_eq_some_iff] at htally
  obtain ⟨lock, hold, heq⟩ := htally
  obtain ⟨hheight, hvotes⟩ := Prod.mk.inj heq
  exact ⟨lock, hold, hheight, hvotes⟩

theorem lock_forth (hq : LocksSame env s s') (hlock : s.mapTxLocks h = some lock) :
    ∃ lock', s'.mapTxLocks h = some lock' ∧ lock'.nBlockHeight = lock.nBlockHeight
      ∧ lock'.vecConsensusVotes = lock.vecConsensusVotes := by
  have htally := hq.tally h
  rw [hlock, Option.map_some, Option.map_eq_some_iff] at htally
  obtain ⟨lock', hnew, heq⟩ := htally
  obtain ⟨hheight, hvotes⟩ := Prod.mk.inj heq
  exact ⟨lock', hnew, hheight, hvotes⟩

theorem count_forth (hq : LocksSame env s s')
    (hcount : ∃ lock, s.mapTxLocks h = some lock ∧ 2 ≤ lock.vecConsensusVotes.countP lock.counts) :
    ∃ lock, s'.mapTxLocks h = some lock ∧ 2 ≤ lock.vecConsensusVotes.countP lock.counts := by
  obtain ⟨lock, hlock, hle⟩ := hcount
  obtain ⟨lock', hlock', hheight, hvotes⟩ := hq.lock_forth hlock
  refine ⟨lock', hlock', ?_⟩
  have hcounts : lock'.counts = lock.counts := by
    funext v
    simp [CTransactionLock.counts, hheight]
  rw [hvotes, hcounts]
  exact hle

theorem inv (hq : LocksSame env s s') (hs : LockInv env events s) : LockInv env events s' where
  requests h tx htx := by
    rcases hq.requests h tx htx with hold | hnew
    · exact hs.requests h tx hold
    · exact hnew
  cast h lock' hlock' vote hvote := by
    obtain ⟨lock, hlock, -, hvotes⟩ := hq.lock_back hlock'
    obtain ⟨htx, hvalid, hseen⟩ := hs.cast h lock hlock vote (hvotes ▸ hvote)
    exact ⟨htx, hvalid, hq.seen _ hseen⟩
  distinct h lock' hlock' := by
    obtain ⟨lock, hlock, -, hvotes⟩ := hq.lock_back hlock'
    rw [← hvotes]
    exact hs.distinct h lock hlock
  locked o h ho := by
    rw [hq.locked] at ho
    obtain ⟨hknown, hspends, hcount⟩ := hs.locked o h ho
    exact ⟨hq.known h hknown, hspends, hq.count_forth hcount⟩

theorem request (htx : env.getHash tx = h ∨ tx.vin = []) :
    LocksSame env s { s with mapTxLockReq := Function.update s.mapTxLockReq h (some tx) } where
  requests k tx' hk := by
    simp only [Function.update_apply] at hk
    split at hk
    · next heq =>
      cases hk
      exact Or.inr (heq ▸ htx)
    · exact Or.inl hk
  known k hk := by
    rw [InstantX.known_eq_true] at hk ⊢
    simp only [Function.update_apply]
    split
    · exact Or.inl rfl
    · exact hk
  seen _ hk := hk
  tally _ := rfl
  locked := rfl

theorem insertRequest : LocksSame env s { s with mapTxLockReq := mapInsert s.mapTxLockReq (env.getHash tx) tx } := by
  unfold mapInsert
  split
  · exact refl s
  · exact request (Or.inl rfl)

theorem insertRejected :
    LocksSame env s { s with mapTxLockReqRejected := mapInsert s.mapTxLockReqRejected h tx } where
  requests _ _ hk := Or.inl hk
  known k hk := by
    rw [InstantX.known_eq_true] at hk ⊢
    exact hk.imp id fun hr => isSome_mapInsert tx hr
  seen _ hk := hk
  tally _ := rfl
  locked := rfl

theorem votes {votes : UInt256 → Option CConsensusVote}
    (hkeep : ∀ k, (s.mapTxLockVote k).isSome = true → (votes k).isSome = true) :
    LocksSame env s { s with mapTxLockVote := votes } where
  requests _ _ hk := Or.inl hk
  known _ hk := hk
  seen := hkeep
  tally _ := rfl
  locked := rfl

theorem expireLock : LocksSame env s (s.expireLock now h) where
  requests _ _ hk := Or.inl hk
  known _ hk := hk
  seen _ hk := hk
  tally k := by
    simp only [InstantX.expireLock, Function.update_apply]
    split
    · next heq =>
      subst heq
      rw [Option.map_map]
      rfl
    · rfl
  locked := rfl

theorem allowUnknownVote (masternode : UInt256) : LocksSame env s (s.allowUnknownVote now masternode).2 := by
  have hvotes : ∀ votes, LocksSame env s { s with mapUnknownVotes := votes } := fun _ =>
    ⟨fun _ _ hk => Or.inl hk, fun _ hk => hk, fun _ hk => hk, fun _ => rfl, rfl⟩
  unfold InstantX.allowUnknownVote
  dsimp only
  split_ifs <;> exact hvotes _

end LocksSame

theorem InstantX.setLockHeight_votes {nBlockHeight : Int} {k : UInt256}
    (hlock : (s.setLockHeight now h nBlockHeight).mapTxLocks k = some lock) :
    lock.vecConsensusVotes = [] ∨ ∃ old, s.mapTxLocks k = some old ∧ lock.vecConsensusVotes = old.vecConsensusVotes := by
  simp only [InstantX.setLockHeight, Function.update_apply] at hlock
  split at hlock
  · next hk =>
    subst hk
    rw [Option.some.injEq] at hlock
    subst hlock
    split
    · exact Or.inl rfl
    · next old hold => exact Or.inr ⟨old, hold, rfl⟩
  · exact Or.inr ⟨lock, hlock, rfl⟩

theorem LockInv.setLockHeight (hs : LockInv env events s) (hnew : s.known h = false) (nBlockHeight : Int) :
    LockInv env events (s.setLockHeight now h nBlockHeight) where
  requests := hs.requests
  cast k lock hlock vote hvote := by
    rcases InstantX.setLockHeight_votes hlock with hnil | ⟨old, hold, hvotes⟩
    · rw [hnil] at hvote
      cases hvote
    · rw [hvotes] at hvote
      exact hs.cast k old hold vote hvote
  distinct k lock hlock := by
    rcases InstantX.setLockHeight_votes hlock with hnil | ⟨old, hold, hvotes⟩
    · rw [hnil]
      exact List.nodup_nil
    · rw [hvotes]
      exact hs.distinct k old hold
  locked o k ho := by
    obtain ⟨hknown, hspends, lock, hlock, hcount⟩ := hs.locked o k ho
    have hk : k ≠ h := by
      rintro rfl
      rw [hnew] at hknown
      cases hknown
    refine ⟨hknown, hspends, lock, ?_, hcount⟩
    simp only [InstantX.setLockHeight, Function.update_of_ne hk]
    exact hlock

theorem LockInv.lockOf_votes (hs : LockInv env events s) {w : CConsensusVote}
    (hw : w ∈ (s.lockOf now h).vecConsensusVotes) :
    w.txHash = h ∧ ValidVote env events w ∧ (s.mapTxLockVote w.getHash).isSome = true := by
  unfold InstantX.lockOf at hw
  cases hlock : s.mapTxLocks h with
  | none =>
    rw [hlock] at hw
    cases hw
  | some lock =>
    rw [hlock] at hw
    exact hs.cast h lock hlock w hw

theorem LockInv.lockOf_distinct (hs : LockInv env events s) :
    ((s.lockOf now h).vecConsensusVotes.map CConsensusVote.getHash).Nodup := by
  unfold InstantX.lockOf
  cases hlock : s.mapTxLocks h with
  | none => exact List.nodup_nil
  | some lock => exact hs.distinct h lock hlock

theorem LockInv.addVote (hs : LockInv env events s) (hvalid : ValidVote env events vote)
    (hseen : (s.mapTxLockVote vote.getHash).isSome = true)
    (hfresh : ∀ w ∈ (s.lockOf now vote.txHash).vecConsensusVotes, w.getHash ≠ vote.getHash) :
    LockInv env events (s.addVote now vote) where
  requests := hs.requests
  cast k lock hlock w hw := by
    rw [InstantX.addVote_mapTxLocks, Function.update_apply] at hlock
    split at hlock
    · next hk =>
      subst hk
      rw [Option.some.injEq] at hlock
      subst hlock
      rcases List.mem_append.mp hw with hold | hnew
      · exact hs.lockOf_votes hold
      · rw [List.mem_singleton] at hnew
        subst hnew
        exact ⟨rfl, hvalid, hseen⟩
    · exact hs.cast k lock hlock w hw
  distinct k lock hlock := by
    rw [InstantX.addVote_mapTxLocks, Function.update_apply] at hlock
    split at hlock
    · next hk =>
      rw [Option.some.injEq] at hlock
      subst hlock
      exact Tally.nodup_append_vote hs.lockOf_distinct hfresh
    · exact hs.distinct k lock hlock
  locked o k ho := by
    obtain ⟨hknown, hspends, lock, hlock, hcount⟩ := hs.locked o k ho
    refine ⟨hknown, hspends, ?_⟩
    rw [InstantX.addVote_mapTxLocks, Function.update_apply]
    split
    · next hk =>
      subst hk
      have hof : s.lockOf now vote.txHash = lock := by
        unfold InstantX.lockOf
        rw [hlock]
        rfl
      refine ⟨_, rfl, ?_⟩
      rw [hof]
      unfold CTransactionLock.addSignature
      have hmono := (List.sublist_append_left lock.vecConsensusVotes [vote]).countP_le (p := lock.counts)
      exact le_trans hcount hmono
    · exact ⟨lock, hlock, hcount⟩

theorem LockInv.lockInputs (hs : LockInv env events s)
    (hlock : ∀ txin ∈ vin, s.mapLockedInputs txin.prevout = none → s.known h = true
      ∧ (∃ tx : CTransaction, env.getHash tx = h ∧ txin ∈ tx.vin)
      ∧ ∃ lock, s.mapTxLocks h = some lock ∧ 2 ≤ lock.vecConsensusVotes.countP lock.counts) :
    LockInv env events (s.lockInputs h vin) where
  requests := hs.requests
  cast := hs.cast
  distinct := hs.distinct
  locked o k ho := by
    rcases InstantX.lockInputs_eq_some.mp ho with hold | ⟨hnone, rfl, txin, htxin, rfl⟩
    · exact hs.locked o k hold
    · obtain ⟨hknown, ⟨tx, htx, hin⟩, hcount⟩ := hlock txin htxin hnone
      exact ⟨hknown, ⟨tx, htx, txin, hin, rfl⟩, hcount⟩

/-! ## The functions -/

theorem createNewLock_returns (hr : createNewLock env ext tx s = (.ok n, s')) :
    (newLockHeight ext tx = .ok none ∧ s' = s) ∨ ∃ nBlockHeight, newLockHeight ext tx = .ok (some nBlockHeight)
        ∧ s' = s.setLockHeight ext.getTime (env.getHash tx) nBlockHeight := by
  unfold createNewLock at hr
  obtain ⟨height, t, hheight, hr⟩ := Exec.bind_returns.mp hr
  obtain ⟨hnew, rfl⟩ := Exec.liftM_returns.mp hheight
  cases height with
  | none => exact Or.inl ⟨hnew, (Prod.mk.inj hr).2.symm⟩
  | some nBlockHeight => exact Or.inr ⟨nBlockHeight, hnew, (Prod.mk.inj hr).2.symm⟩

theorem createNewLock_count (hr : createNewLock env ext tx s = (.ok n, s')) :
    (∃ lock, s'.mapTxLocks (env.getHash tx) = some lock ∧ 2 ≤ lock.vecConsensusVotes.countP lock.counts)
      ↔ instantxSignaturesRequired ≤ s.votesAt (env.getHash tx) (heightAfter env ext tx s) := by
  unfold InstantX.votesAt heightAfter instantxSignaturesRequired
  rcases createNewLock_returns hr with ⟨hheight, rfl⟩ | ⟨nBlockHeight, hheight, rfl⟩
  · cases hlock : s'.mapTxLocks (env.getHash tx) with
    | none => simp [hheight]
    | some lock =>
      simp only [hheight, Option.map_some, Option.getD_some, Option.some.injEq, exists_eq_left']
      exact Nat.ofNat_le_cast.symm
  · simp only [hheight, InstantX.setLockHeight, Function.update_self, Option.some.injEq, exists_eq_left']
    cases hlock : s.mapTxLocks (env.getHash tx) with
    | none => simp
    | some lock =>
      simp only [Option.map_some, Option.getD_some]
      exact Nat.ofNat_le_cast.symm

theorem createNewLock_inv (hs : LockInv env events s) (hnew : s.known (env.getHash tx) = false)
    (hr : createNewLock env ext tx s = (.ok n, s')) : LockInv env events s' := by
  rcases createNewLock_returns hr with ⟨-, rfl⟩ | ⟨nBlockHeight, -, rfl⟩
  · exact hs
  · exact hs.setLockHeight hnew nBlockHeight

theorem createNewLock_locked (hr : createNewLock env ext tx s = (.ok n, s')) :
    s'.mapLockedInputs = s.mapLockedInputs := by
  rcases createNewLock_returns hr with ⟨-, rfl⟩ | ⟨nBlockHeight, -, rfl⟩ <;> rfl

theorem checkForConflictingLocks_same (tx : CTransaction) :
    Exec.Frame (LocksSame env) (checkForConflictingLocks env ext tx) := by
  intro s
  unfold checkForConflictingLocks
  split
  · exact LocksSame.refl s
  · exact LocksSame.expireLock.trans LocksSame.expireLock

theorem doConsensusVote_same (tx : CTransaction) (nBlockHeight : Int) :
    Exec.Frame (LocksSame env) (doConsensusVote env ext tx nBlockHeight) := by
  intro s
  unfold doConsensusVote
  cases consensusVote env ext (env.getHash tx) nBlockHeight with
  | none => exact LocksSame.refl s
  | some vote =>
    refine LocksSame.votes fun k hk => ?_
    rw [Function.update_apply]
    split
    · rfl
    · exact hk

theorem acceptRequest_same (tx : CTransaction) (nBlockHeight : Int) :
    Exec.Frame (LocksSame env) (acceptRequest env ext tx nBlockHeight) :=
  LocksSame.bind (doConsensusVote_same tx nBlockHeight) fun _ =>
    LocksSame.bind (Exec.Frame.update fun _ => LocksSame.insertRequest) fun _ => LocksSame.pure _

theorem resolveConflicts_same (tx : CTransaction) : Exec.Frame (LocksSame env) (resolveConflicts env ext tx) := by
  unfold resolveConflicts
  refine LocksSame.bind (Exec.Frame.read LocksSame.refl) fun s => ?_
  cases s.mapTxLocks (env.getHash tx) with
  | none => exact LocksSame.pure _
  | some lock =>
    dsimp only
    split
    · refine LocksSame.bind (checkForConflictingLocks_same tx) fun c => ?_
      split
      · exact Exec.Frame.stop LocksSame.refl _
      · exact LocksSame.pure _
    · exact LocksSame.pure _

theorem rejectRequest_returns (hr : rejectRequest env ext tx s = (.ok invs, s')) :
    ∃ t, LocksSame env s t ∧ t.known (env.getHash tx) = true
      ∧ LocksSame env (t.lockInputs (env.getHash tx) tx.vin) s' := by
  refine ⟨{ s with
    mapTxLockReqRejected := mapInsert s.mapTxLockReqRejected (env.getHash tx) tx },
    LocksSame.insertRejected, ?_, ?_⟩
  · rw [InstantX.known_eq_true]
    right
    unfold mapInsert
    split
    · assumption
    · simp
  · unfold rejectRequest at hr
    obtain ⟨_, t₁, h₁, hr⟩ := Exec.bind_returns.mp hr
    obtain ⟨-, rfl⟩ := Prod.mk.inj h₁
    obtain ⟨_, t₂, h₂, hr⟩ := Exec.bind_returns.mp hr
    obtain ⟨-, rfl⟩ := Prod.mk.inj h₂
    obtain ⟨_, t₃, h₃, hr⟩ := Exec.bind_returns.mp hr
    obtain ⟨-, rfl⟩ := Prod.mk.inj hr
    exact (resolveConflicts_same tx).apply h₃

/-- A request keeps the invariant unless it is refused and locks an input without votes. -/
theorem processLockRequest_inv (hs : LockInv env events s)
    (hvoted : s.known (env.getHash tx) = false → requestValid ext tx = .ok true →
      ext.acceptToMemoryPool tx = false → (∀ txin ∈ tx.vin, s.mapLockedInputs txin.prevout ≠ none)
        ∨ instantxSignaturesRequired ≤ s.votesAt (env.getHash tx) (heightAfter env ext tx s))
    (hr : processLockRequest env ext tx s = (.ok invs, s')) : LockInv env events s' := by
  unfold processLockRequest at hr
  rw [Exec.read_bind] at hr
  cases hknown : s.known (env.getHash tx) with
  | true =>
    rw [hknown, if_pos rfl] at hr
    obtain ⟨-, rfl⟩ := Prod.mk.inj hr
    exact hs
  | false =>
    rw [hknown, if_neg (by simp)] at hr
    obtain ⟨valid, _, hlift, hr⟩ := Exec.bind_returns.mp hr
    obtain ⟨hvalid, rfl⟩ := Exec.liftM_returns.mp hlift
    cases valid with
    | false =>
      rw [if_pos (by simp)] at hr
      obtain ⟨-, rfl⟩ := Prod.mk.inj hr
      exact hs
    | true =>
      rw [if_neg (by simp)] at hr
      obtain ⟨nBlockHeight, t, hlock, hr⟩ := Exec.bind_returns.mp hr
      have ht : LockInv env events t := createNewLock_inv hs hknown hlock
      cases haccept : ext.acceptToMemoryPool tx with
      | true =>
        rw [haccept, if_pos rfl] at hr
        exact ((acceptRequest_same tx nBlockHeight).apply hr).inv ht
      | false =>
        rw [haccept, if_neg (by simp)] at hr
        obtain ⟨u, htu, huknown, hu⟩ := rejectRequest_returns hr
        refine hu.inv ((htu.inv ht).lockInputs ?_)
        intro txin htxin hnone
        refine ⟨huknown, ⟨tx, rfl, htxin⟩, htu.count_forth ?_⟩
        rw [htu.locked, createNewLock_locked hlock] at hnone
        rcases hvoted hknown hvalid haccept with hall | hvotes
        · exact absurd hnone (hall txin htxin)
        · exact (createNewLock_count hlock).mpr hvotes

theorem lockRequestAt_same (h : UInt256) : Exec.Frame (LocksSame env) (lockRequestAt ext h) := by
  intro s
  unfold lockRequestAt
  cases hreq : s.mapTxLockReq h with
  | none => exact LocksSame.request (Or.inr rfl)
  | some tx =>
    dsimp only [Option.getD_some]
    rw [← hreq, Function.update_eq_self]
    exact LocksSame.refl s

theorem lockRequestAt_returns (hs : LockInv env events s) (hr : lockRequestAt ext h s = (.ok tx, s')) :
    s'.known h = true ∧ (env.getHash tx = h ∨ tx.vin = []) := by
  unfold lockRequestAt at hr
  obtain ⟨htx, rfl⟩ := Prod.mk.inj hr
  constructor
  · rw [InstantX.known_eq_true]
    left
    simp
  · cases hreq : s.mapTxLockReq h with
    | none =>
      rw [hreq] at htx
      cases htx
      exact Or.inr rfl
    | some tx' =>
      rw [hreq] at htx
      cases htx
      exact hs.requests h _ hreq

theorem completeLock_inv (hs : LockInv env events s) {u : Unit}
    (hcount : ∃ lock, s.mapTxLocks vote.txHash = some lock ∧ 2 ≤ lock.vecConsensusVotes.countP lock.counts)
    (hr : completeLock env ext vote lock s = (.ok u, s')) : LockInv env events s' := by
  unfold completeLock at hr
  obtain ⟨tx, t, htx, hr⟩ := Exec.bind_returns.mp hr
  have hst : LocksSame env s t := (lockRequestAt_same _).apply htx
  obtain ⟨hknown, htxHash⟩ := lockRequestAt_returns hs htx
  obtain ⟨conflict, t₁, hconflict, hr⟩ := Exec.bind_returns.mp hr
  have htt₁ : LocksSame env t t₁ := (checkForConflictingLocks_same tx).apply hconflict
  have ht₁ : LockInv env events t₁ := htt₁.inv (hst.inv hs)
  cases conflict with
  | true =>
    rw [if_pos rfl] at hr
    obtain ⟨-, rfl⟩ := Prod.mk.inj hr
    exact ht₁
  | false =>
    rw [if_neg (by simp)] at hr
    obtain ⟨_, t₂, hupdate, hr⟩ := Exec.bind_returns.mp hr
    obtain ⟨-, rfl⟩ := Prod.mk.inj hupdate
    have hlocked : LockInv env events (t₁.lockInputs vote.txHash tx.vin) := by
      refine ht₁.lockInputs ?_
      intro txin htxin _
      refine ⟨htt₁.known _ hknown, ⟨tx, ?_, htxin⟩, htt₁.count_forth (hst.count_forth hcount)⟩
      rcases htxHash with hhash | hempty
      · exact hhash
      · rw [hempty] at htxin
        cases htxin
    obtain ⟨_, _, hread, hr⟩ := Exec.bind_returns.mp hr
    obtain ⟨-, rfl⟩ := Prod.mk.inj hread
    split at hr
    · cases hr
    · obtain ⟨-, rfl⟩ := Prod.mk.inj hr
      dsimp only
      split
      · exact hlocked
      · exact ht₁

theorem two_le_count (h : lock.countSignatures ≥ instantxSignaturesRequired) :
    2 ≤ lock.vecConsensusVotes.countP lock.counts := by
  unfold CTransactionLock.countSignatures instantxSignaturesRequired at h
  split at h <;> omega

/-- A vote whose hash is new and recorded keeps the invariant. -/
theorem processConsensusVote_inv (hs : LockInv env events s) {b : Bool}
    (hvalid : voteAccepted env ext vote = true → ValidVote env events vote)
    (hseen : (s.mapTxLockVote vote.getHash).isSome = true)
    (hfresh : ∀ w ∈ (s.lockOf ext.getTime vote.txHash).vecConsensusVotes, w.getHash ≠ vote.getHash)
    (hr : processConsensusVote env ext vote s = (.ok b, s')) : LockInv env events s' := by
  unfold processConsensusVote at hr
  cases haccepted : voteAccepted env ext vote with
  | false =>
    rw [haccepted, if_pos (by simp)] at hr
    obtain ⟨-, rfl⟩ := Prod.mk.inj hr
    exact hs
  | true =>
    rw [haccepted, if_neg (by simp)] at hr
    rw [Exec.read_bind, Exec.update_bind] at hr
    have ht := hs.addVote (hvalid haccepted) hseen hfresh
    split at hr
    · next hcount =>
      obtain ⟨_, t₁, hcomplete, hr⟩ := Exec.bind_returns.mp hr
      obtain ⟨-, rfl⟩ := Prod.mk.inj hr
      refine completeLock_inv ht ⟨_, ?_, two_le_count hcount⟩ hcomplete
      rw [InstantX.addVote_mapTxLocks, Function.update_self]
    · obtain ⟨-, rfl⟩ := Prod.mk.inj hr
      exact ht

theorem allowUnknownVote_eq (now : Int) (masternode : UInt256) (s : InstantX) :
    ∃ allowed unknown, s.allowUnknownVote now masternode = (allowed, { s with mapUnknownVotes := unknown }) := by
  unfold InstantX.allowUnknownVote
  dsimp only
  generalize (if masternode ∈ s.mapUnknownVotes then s.mapUnknownVotes else _) = asked
  split
  · exact ⟨_, _, rfl⟩
  · exact ⟨_, _, rfl⟩

theorem relayVote_returns (ext : InstantXExt) (vote : CConsensusVote) (s : InstantX) :
    ∃ invs unknown, relayVote ext vote s = (.ok invs, { s with mapUnknownVotes := unknown }) := by
  unfold relayVote
  by_cases hknown : s.known vote.txHash = true
  · rw [if_pos hknown]
    exact ⟨_, s.mapUnknownVotes, rfl⟩
  · obtain ⟨allowed, unknown, hallow⟩ :=
      allowUnknownVote_eq ext.getTime vote.vinMasternode.prevout.hash s
    rw [if_neg hknown, hallow]
    cases allowed with
    | true => exact ⟨_, unknown, rfl⟩
    | false => exact ⟨_, unknown, rfl⟩

theorem relayVote_same (vote : CConsensusVote) : Exec.Frame (LocksSame env) (relayVote ext vote) := by
  intro s
  unfold relayVote
  split
  · exact LocksSame.refl s
  · have hallow : LocksSame env s
        (s.allowUnknownVote ext.getTime vote.vinMasternode.prevout.hash).2 :=
      LocksSame.allowUnknownVote _
    split
    · next h =>
      rw [h] at hallow
      exact hallow
    · next h =>
      rw [h] at hallow
      exact hallow

theorem processLockVote_inv (hs : LockInv env events s)
    (hvalid : voteAccepted env ext vote = true → ValidVote env events vote)
    (hr : processLockVote env ext vote s = (.ok invs, s')) : LockInv env events s' := by
  unfold processLockVote at hr
  rw [Exec.read_bind] at hr
  cases hold : s.mapTxLockVote vote.getHash with
  | some w =>
    rw [hold, if_pos (by simp)] at hr
    obtain ⟨-, rfl⟩ := Prod.mk.inj hr
    exact hs
  | none =>
    rw [hold, if_neg (by simp)] at hr
    rw [Exec.update_bind] at hr
    obtain ⟨b, t₁, hvote, hr⟩ := Exec.bind_returns.mp hr
    have hrecord : LocksSame env s
        { s with mapTxLockVote := mapInsert s.mapTxLockVote vote.getHash vote } :=
      LocksSame.votes fun k hk => isSome_mapInsert vote hk
    have ht₁ : LockInv env events t₁ := by
      refine processConsensusVote_inv (hrecord.inv hs) hvalid ?_ ?_ hvote
      · have hrecorded : mapInsert s.mapTxLockVote vote.getHash vote vote.getHash = some vote :=
          mapInsert_eq_some.mpr (Or.inr ⟨hold, rfl, rfl⟩)
        exact Option.isSome_of_eq_some hrecorded
      · -- a vote with this hash would have been recorded before
        intro w hw heq
        have hseen := (hs.lockOf_votes hw).2.2
        rw [heq, hold] at hseen
        cases hseen
    cases b with
    | true =>
      rw [if_pos rfl] at hr
      exact ((relayVote_same vote).apply hr).inv ht₁
    | false =>
      rw [if_neg (by simp)] at hr
      obtain ⟨-, rfl⟩ := Prod.mk.inj hr
      exact ht₁

/-- A message that meets the condition keeps the invariant. -/
theorem processMessageInstantX_inv (hs : LockInv env events s)
    (hvoted : RefusedWithVotes env event s) (hr : processMessageInstantX env event.1 event.2 s = (.ok invs, s')) :
    LockInv env (events ++ [event]) s' := by
  obtain ⟨ext, message⟩ := event
  unfold processMessageInstantX at hr
  split at hr
  · obtain ⟨-, rfl⟩ := Prod.mk.inj hr
    exact hs.mono _
  · next hopen =>
    cases message with
    | txlreq tx => exact processLockRequest_inv (hs.mono _) (hvoted (by simpa using hopen)) hr
    | txlvote vote => exact processLockVote_inv (hs.mono _) validVote_of_accepted hr

theorem InstantXRun.inv (hrun : InstantXRun env (RefusedWithVotes env) events s) : LockInv env events s := by
  induction hrun with
  | start => exact LockInv.empty
  | receive _ hvoted hr ih => exact processMessageInstantX_inv ih hvoted hr

/-- A refused request locks its unlocked inputs, so that they are only complete when the votes came first. -/
theorem refusedWithVotes_of_locksComplete
    (hr : processMessageInstantX env event.1 event.2 s = (.ok invs, s'))
    (hlocks : LocksComplete env (events ++ [event]) s') : RefusedWithVotes env event s := by
  obtain ⟨ext, message⟩ := event
  cases message with
  | txlvote vote => trivial
  | txlreq tx =>
    intro hopen hknown hvalid haccept
    unfold processMessageInstantX at hr
    rw [if_neg (by simpa using hopen)] at hr
    change processLockRequest env ext tx s = _ at hr
    unfold processLockRequest at hr
    rw [Exec.read_bind, hknown, if_neg (by simp)] at hr
    obtain ⟨valid, _, hlift, hr⟩ := Exec.bind_returns.mp hr
    obtain ⟨hvalid', rfl⟩ := Exec.liftM_returns.mp hlift
    rw [hvalid] at hvalid'
    cases hvalid'
    rw [if_neg (by simp)] at hr
    obtain ⟨nBlockHeight, t, hlock, hr⟩ := Exec.bind_returns.mp hr
    rw [haccept, if_neg (by simp)] at hr
    obtain ⟨u, htu, -, hu⟩ := rejectRequest_returns hr
    rw [or_iff_not_imp_left]
    intro hunlocked
    push Not at hunlocked
    obtain ⟨txin, htxin, hnone⟩ := hunlocked
    rw [← createNewLock_locked hlock, ← htu.locked] at hnone
    have hnow : s'.mapLockedInputs txin.prevout = some (env.getHash tx) := by
      rw [hu.locked]
      exact InstantX.lockInputs_eq_some.mpr (Or.inr ⟨hnone, rfl, txin, htxin, rfl⟩)
    obtain ⟨-, lock', hlock', hquorum⟩ := hlocks _ _ hnow
    have hcount : 2 ≤ lock'.vecConsensusVotes.countP lock'.counts := by
      refine hquorum.count ?_
      rintro v - ⟨-, hheight, -⟩
      simpa [CTransactionLock.counts] using hheight
    obtain ⟨lock₁, hlock₁, hheight₁, hvotes₁⟩ := hu.lock_back hlock'
    obtain ⟨lock, hlock₀, hheight, hvotes⟩ := htu.lock_back hlock₁
    refine (createNewLock_count hlock).mp ⟨lock, hlock₀, ?_⟩
    have hcounts : lock.counts = lock'.counts := by
      funext v
      simp [CTransactionLock.counts, hheight, hheight₁]
    rw [hvotes, hvotes₁, hcounts]
    exact hcount

/-- As long as no request is refused by the memory pool without votes enough for it, every locked input
belongs to a transaction that spends it and that has enough valid votes; the first request that is refused
without them ends this. -/
theorem instantXRun_locksComplete (hrun : InstantXRun env (RefusedWithVotes env) events s) :
    LocksComplete env events s ∧ ∀ event invs s', processMessageInstantX env event.1 event.2 s = (.ok invs, s') →
        (LocksComplete env (events ++ [event]) s' ↔ RefusedWithVotes env event s) := by
  refine ⟨hrun.inv.locksComplete, ?_⟩
  intro event invs s' hr
  constructor
  · exact refusedWithVotes_of_locksComplete hr
  · intro hvoted
    exact (processMessageInstantX_inv hrun.inv hvoted hr).locksComplete

end Messages

namespace Sample

def lockEnv : InstantXEnv where
  toEnv := { env with getHash := fun tx => BitVec.ofNat 256 tx.nTime.toNat }
  hashOne h := h
  hashTwo a b := a + b
  verifyMessage _ _ _ _ := true

def masternodeIn (k : Nat) : CTxIn := ⟨⟨BitVec.ofNat 256 k, 0⟩, [], 0xffffffff⟩

def lockTx : CTransaction where
  nVersion := 1
  nTime := 9
  vin := [⟨⟨5, 0⟩, [], 0xffffffff⟩]
  vout := [⟨coin - cent, [0x76, 0xa9, 0x14] ++ List.replicate 20 0 ++ [0x88, 0xac]⟩]
  nLockTime := 0

def lockExt (fAccepted : Bool) : InstantXExt where
  fLiteMode := false
  fInstantX := true
  fBlockchainSynced := true
  getTime := 1000
  getAdjustedTime := 1000
  pindexBest := some 100
  getTransaction h := if h = 5 then some (⟨1, 0, [], [⟨coin, []⟩], 0⟩, 1) else none
  blockHeight h := if h = 1 then some 10 else none
  sporkMaxValue := 1000
  getBlockHash _ := some 7
  vMasternodes := [⟨masternodeIn 21, [], 62032, true⟩, ⟨masternodeIn 22, [], 62032, true⟩]
  fMasterNode := false
  activeMasternode := masternodeIn 21
  sign _ _ := none
  acceptToMemoryPool _ := fAccepted

def refusedState : InstantX :=
  (processMessageInstantX lockEnv (lockExt false) (.txlreq lockTx) .empty).2

theorem refused_returns :
    processMessageInstantX lockEnv (lockExt false) (.txlreq lockTx) .empty = (.ok [], refusedState) :=
  Exec.eq_of_fst (by decide)

/-- The refused request has locked its input. -/
theorem refused_request_locks : ¬ ∀ events s, InstantXRun lockEnv (fun _ _ => True) events s →
    LocksComplete lockEnv events s := by
  intro hall
  have hrun : InstantXRun lockEnv (fun _ _ => True) ([] ++ [(lockExt false, .txlreq lockTx)])
      refusedState := .receive .start trivial refused_returns
  have hlocked : refusedState.mapLockedInputs ⟨5, 0⟩ = some 9 := by decide
  obtain ⟨-, lock, hlock, chosen, hsub, hlen, -⟩ := hall _ _ hrun _ _ hlocked
  have hvotes : (refusedState.mapTxLocks 9).map CTransactionLock.vecConsensusVotes = some [] := by
    decide
  rw [hlock, Option.map_some, Option.some.injEq] at hvotes
  rw [hvotes, List.sublist_nil] at hsub
  rw [hsub] at hlen
  exact absurd hlen (by decide)

def lockVote (k : Nat) : CConsensusVote := ⟨masternodeIn k, 9, 14, []⟩

def lockMessages : List InstantXMessage :=
  [.txlreq lockTx, .txlvote (lockVote 21), .txlvote (lockVote 22)]

def lockState (k : Nat) : InstantX :=
  (lockMessages.take k).foldl (fun s message =>
    (processMessageInstantX lockEnv (lockExt true) message s).2) .empty

theorem lockState_run : InstantXRun lockEnv (RefusedWithVotes lockEnv)
    (lockMessages.map fun message => (lockExt true, message)) (lockState 3) := by
  have hrequest : processMessageInstantX lockEnv (lockExt true) (.txlreq lockTx) (lockState 0)
      = (.ok [.txLockRequest 9], lockState 1) := Exec.eq_of_fst (by decide)
  have hfirst : processMessageInstantX lockEnv (lockExt true) (.txlvote (lockVote 21)) (lockState 1)
      = (.ok [.txLockVote 30], lockState 2) := Exec.eq_of_fst (by decide)
  have hsecond : processMessageInstantX lockEnv (lockExt true) (.txlvote (lockVote 22)) (lockState 2)
      = (.ok [.txLockVote 31], lockState 3) := Exec.eq_of_fst (by decide)
  have haccepted : RefusedWithVotes lockEnv (lockExt true, .txlreq lockTx) (lockState 0) :=
    fun _ _ _ hrefused => nomatch hrefused
  have hrun₁ : InstantXRun lockEnv (RefusedWithVotes lockEnv) ([] ++ [(lockExt true, .txlreq lockTx)])
      (lockState 1) := .receive .start haccepted hrequest
  have hrun₂ : InstantXRun lockEnv (RefusedWithVotes lockEnv)
      ([(lockExt true, .txlreq lockTx)] ++ [(lockExt true, .txlvote (lockVote 21))]) (lockState 2) :=
    .receive hrun₁ (by exact trivial) hfirst
  exact .receive hrun₂ (by exact trivial) hsecond

theorem lockState_locks : (lockState 3).mapLockedInputs ⟨5, 0⟩ = some 9
    ∧ CompleteLock lockEnv (lockMessages.map fun message => (lockExt true, message)) (lockState 3) 9 := by
  have hlocked : (lockState 3).mapLockedInputs ⟨5, 0⟩ = some 9 := by decide
  exact ⟨hlocked, ((instantXRun_locksComplete lockState_run).1 _ _ hlocked).2⟩

end Sample

end PupaCoin

/-! ## The height of a lock -/

namespace PupaCoin

variable {env : InstantXEnv} {ext : InstantXExt} {tx : CTransaction} {s : InstantX} {nBestHeight nHeight : Int}
  {vin : List CTxIn} {txin : CTxIn}

theorem getInputAge_eq (hbest : ext.pindexBest = some nBestHeight) (hheight : inputHeight ext txin = some nHeight) :
    getInputAge ext txin = .ok (nBestHeight - nHeight) := by
  obtain ⟨⟨txPrev, hashBlock⟩, htx, hblock⟩ := Option.bind_eq_some_iff.mp hheight
  unfold getInputAge
  simp only [htx, hblock, hbest]
  rfl

/-- Inputs that are deep do not matter for what follows them. By induction on them. -/
theorem lastInputAge_append (hbest : ext.pindexBest = some nBestHeight) (hdeep : InputsDeep ext nBestHeight vin)
    (hheight : inputHeight ext txin = some nHeight) (hage : 9 ≤ nBestHeight - nHeight) (nTxAge : Int) :
    lastInputAge ext (vin ++ [txin]) nTxAge = .ok (some (nBestHeight - nHeight)) := by
  induction vin generalizing nTxAge with
  | nil =>
    rw [List.nil_append, lastInputAge, getInputAge_eq hbest hheight]
    show (if nBestHeight - nHeight < 9 then _ else _) = _
    rw [if_neg (by omega)]
    rfl
  | cons i rest ih =>
    obtain ⟨hi, hrest⟩ := List.forall_mem_cons.mp hdeep
    obtain ⟨nInput, hinput, hold⟩ := hi
    rw [List.cons_append, lastInputAge, getInputAge_eq hbest hinput]
    show (if nBestHeight - nInput < 9 then _ else _) = _
    rw [if_neg (by omega), ih hrest]

theorem newLockHeight_eq (hbest : ext.pindexBest = some nBestHeight) (hvin : tx.vin = txin :: vin)
    (hdeep : InputsDeep ext nBestHeight tx.vin) (hheight : inputHeight ext txin = some nHeight) :
    newLockHeight ext tx = .ok (some (nHeight + 4)) := by
  rw [hvin] at hdeep
  obtain ⟨⟨nFirst, hfirst, hage⟩, hrest⟩ := List.forall_mem_cons.mp hdeep
  obtain rfl : nFirst = nHeight := Option.some.inj (hfirst.symm.trans hheight)
  have hreverse : InputsDeep ext nBestHeight vin.reverse := fun i hi => hrest i (List.mem_reverse.mp hi)
  unfold newLockHeight
  rw [hvin, List.reverse_cons, lastInputAge_append hbest hreverse hheight hage, hbest]
  show Except.ok (some (nBestHeight - (nBestHeight - nFirst) + 4)) = _
  rw [show nBestHeight - (nBestHeight - nFirst) + 4 = nFirst + 4 by omega]

theorem createNewLock_eq (hheight : newLockHeight ext tx = .ok (some n)) :
    createNewLock env ext tx s = (.ok n, s.setLockHeight ext.getTime (env.getHash tx) n) := by
  unfold createNewLock
  rw [hheight]
  rfl

/-- **`CreateNewLock`** returns a height above the blocks of all inputs exactly when none of them is four or more above
the block of the first one. -/
theorem newerThanInputs_iff (env : InstantXEnv) (ext : InstantXExt) (tx : CTransaction) (s : InstantX)
    (nBestHeight : Int) (hbest : ext.pindexBest = some nBestHeight) (hdeep : InputsDeep ext nBestHeight tx.vin) :
    NewerThanInputs env ext tx s ↔ NearFirstInput ext tx.vin := by
  cases hvin : tx.vin with
  | nil =>
    -- a transaction without inputs
    have hheight : newLockHeight ext tx = .ok (some (nBestHeight - 0 + 4)) := by
      unfold newLockHeight
      rw [hvin, hbest]
      rfl
    refine iff_of_true ⟨_, _, createNewLock_eq hheight, ?_⟩ ?_
    · rw [hvin]
      exact nofun
    · exact fun first hfirst => nomatch hfirst
  | cons first rest =>
    obtain ⟨nFirst, hfirst, -⟩ := hdeep first (by rw [hvin]; exact List.mem_cons_self)
    have hlock : createNewLock env ext tx s = (.ok (nFirst + 4), s.setLockHeight ext.getTime (env.getHash tx) (nFirst + 4)) :=
      createNewLock_eq (newLockHeight_eq hbest hvin hdeep hfirst)
    constructor
    · rintro ⟨n, s', hreturns, hnewer⟩ _ ⟨⟩ i hi nFirst' nHeight hfirst' hheight
      have hn : n = nFirst + 4 := by
        rw [hlock] at hreturns
        exact (Except.ok.inj (congrArg Prod.fst hreturns)).symm
      obtain rfl : nFirst' = nFirst := Option.some.inj (hfirst'.symm.trans hfirst)
      rw [← hn]
      exact hnewer i (hvin ▸ hi) nHeight hheight
    · intro hnear
      refine ⟨_, _, hlock, fun i hi nHeight hheight => ?_⟩
      exact hnear first rfl i (hvin ▸ hi) nFirst nHeight hfirst hheight

namespace Sample

def pairTx : CTransaction := { lockTx with vin := [⟨⟨5, 0⟩, [], 0xffffffff⟩, ⟨⟨6, 0⟩, [], 0xffffffff⟩] }

def pairExt (nHeight : Int) : InstantXExt :=
  { lockExt true with
    getTransaction := fun h =>
      if h = 5 then some (⟨1, 0, [], [⟨coin, []⟩], 0⟩, 1)
      else if h = 6 then some (⟨1, 0, [], [⟨coin, []⟩], 0⟩, 2)
      else none
    blockHeight := fun h => if h = 1 then some 10 else if h = 2 then some nHeight else none }

theorem pairTx_deep (hage : nHeight ≤ 91) : InputsDeep (pairExt nHeight) 100 pairTx.vin := by
  intro txin htxin
  rcases List.mem_pair.mp htxin with rfl | rfl
  · exact ⟨10, rfl, by omega⟩
  · exact ⟨nHeight, rfl, by omega⟩

/-- The second input is in block 91, and the height of the lock is 14. -/
theorem second_input_newer : ¬ ∀ (env : InstantXEnv) (ext : InstantXExt) (tx : CTransaction) (s : InstantX)
    (nBestHeight : Int), ext.pindexBest = some nBestHeight → InputsDeep ext nBestHeight tx.vin →
      NewerThanInputs env ext tx s := by
  intro hall
  obtain ⟨n, s', hreturns, hnewer⟩ := hall lockEnv (pairExt 91) pairTx .empty 100 rfl (pairTx_deep (by omega))
  have hn : (createNewLock lockEnv (pairExt 91) pairTx .empty).1 = .ok 14 := by decide
  rw [hreturns] at hn
  obtain rfl := Except.ok.inj hn
  exact absurd (hnewer ⟨⟨6, 0⟩, [], 0xffffffff⟩ (by decide) 91 rfl) (by decide)

theorem second_input_near : NewerThanInputs lockEnv (pairExt 12) pairTx .empty := by
  refine (newerThanInputs_iff lockEnv (pairExt 12) pairTx .empty 100 rfl (pairTx_deep (by omega))).mpr ?_
  rintro _ ⟨⟩ txin htxin nFirst nHeight ⟨⟩ hheight
  rcases List.mem_pair.mp htxin with rfl | rfl
  · obtain rfl : 10 = nHeight := Option.some.inj hheight
    decide
  · obtain rfl : 12 = nHeight := Option.some.inj hheight
    decide

end Sample

end PupaCoin
