import PupaCoin.Net.Proofs.InstantXProofs

/-!
# Conflicting locks have different voters

One message changes the maps of one node (`MessageStep`); what is voted and accepted across the nodes is an
invariant of the network (`LockNetworkInv`).
-/

namespace PupaCoin

variable {nBlockHeight : Int} {cast : List CConsensusVote}

variable {env : InstantXEnv} {ext : InstantXExt} {event : InstantXEvent} {s s' : InstantX}
  {vote : CConsensusVote} {tx tx' : CTransaction} {h : UInt256} {now : Int} {invs : List CInv}

theorem CTransaction.sharesInput_symm (hshare : tx.sharesInput tx') : tx'.sharesInput tx := by
  obtain ⟨txin, hin, txin', hin', heq⟩ := hshare
  exact ⟨txin', hin', txin, hin, heq.symm⟩

theorem CTransaction.not_sharesInput_of_nil (htx : tx.vin = []) : ¬ tx.sharesInput tx' := by
  rintro ⟨txin, hin, -⟩
  rw [htx] at hin
  cases hin

/-- The votes that are recorded in the lock of a transaction. -/
def InstantX.votesOf (s : InstantX) (h : UInt256) : List CConsensusVote :=
  ((s.mapTxLocks h).map CTransactionLock.vecConsensusVotes).getD []

theorem InstantX.lockOf_votes (s : InstantX) (now : Int) (h : UInt256) :
    (s.lockOf now h).vecConsensusVotes = s.votesOf h := by
  unfold InstantX.lockOf InstantX.votesOf
  cases s.mapTxLocks h <;> rfl

theorem InstantX.addVote_votesOf (s : InstantX) (now : Int) (vote : CConsensusVote) (h : UInt256) :
    (s.addVote now vote).votesOf h = if h = vote.txHash then s.votesOf h ++ [vote] else s.votesOf h := by
  unfold InstantX.votesOf
  rw [InstantX.addVote_mapTxLocks]
  by_cases hh : h = vote.txHash
  · rw [if_pos hh, hh, Function.update_self, Option.map_some, Option.getD_some, CTransactionLock.addSignature,
      InstantX.lockOf_votes]
    rfl
  · rw [if_neg hh, Function.update_of_ne hh]

/-- No request is accepted and no vote is counted. -/
structure Quiet (s s' : InstantX) : Prop where
  kept : ∀ h tx, s.mapTxLockReq h = some tx → s'.mapTxLockReq h = some tx
  fresh : ∀ h tx, s'.mapTxLockReq h = some tx → s.mapTxLockReq h = some tx ∨ tx.vin = []
  seen : ∀ k, (s.mapTxLockVote k).isSome = true → (s'.mapTxLockVote k).isSome = true
  votes : ∀ h, s'.votesOf h = s.votesOf h

namespace Quiet

theorem refl (s : InstantX) : Quiet s s where
  kept _ _ hreq := hreq
  fresh _ _ hreq := Or.inl hreq
  seen _ hk := hk
  votes _ := rfl

theorem trans {a b c : InstantX} (hab : Quiet a b) (hbc : Quiet b c) : Quiet a c where
  kept h tx hreq := hbc.kept h tx (hab.kept h tx hreq)
  fresh h tx hreq := by
    rcases hbc.fresh h tx hreq with hb | hempty
    · exact hab.fresh h tx hb
    · exact Or.inr hempty
  seen k hk := hbc.seen k (hab.seen k hk)
  votes h := (hbc.votes h).trans (hab.votes h)

theorem bind {α β : Type} {m : InstantXM α} {f : α → InstantXM β} (hm : Exec.Frame Quiet m)
    (hf : ∀ a, Exec.Frame Quiet (f a)) : Exec.Frame Quiet (m >>= f) :=
  Exec.Frame.bind (fun _ _ _ hab hbc => hab.trans hbc) hm hf

theorem pure {α : Type} (a : α) : Exec.Frame Quiet (Pure.pure a : InstantXM α) :=
  Exec.Frame.pure refl a

/-- Requests and locks are as they were, and what was recorded remains so. -/
theorem of_maps (hreq : s'.mapTxLockReq = s.mapTxLockReq)
    (hseen : ∀ k, (s.mapTxLockVote k).isSome = true → (s'.mapTxLockVote k).isSome = true)
    (hlocks : ∀ h, s'.votesOf h = s.votesOf h) : Quiet s s' where
  kept h tx hh := by rw [hreq, hh]
  fresh h tx hh := by
    rw [hreq] at hh
    exact Or.inl hh
  seen := hseen
  votes := hlocks

theorem setLockHeight (nBlockHeight : Int) : Quiet s (s.setLockHeight now h nBlockHeight) := by
  refine of_maps rfl (fun _ hk => hk) fun k => ?_
  unfold InstantX.votesOf InstantX.setLockHeight
  dsimp only
  by_cases hk : k = h
  · rw [hk, Function.update_self]
    cases s.mapTxLocks h <;> rfl
  · rw [Function.update_of_ne hk]

theorem expireLock : Quiet s (s.expireLock now h) := by
  refine of_maps rfl (fun _ hk => hk) fun k => ?_
  unfold InstantX.votesOf InstantX.expireLock
  dsimp only
  by_cases hk : k = h
  · rw [hk, Function.update_self]
    cases s.mapTxLocks h <;> rfl
  · rw [Function.update_of_ne hk]

theorem allowUnknownVote (masternode : UInt256) : Quiet s (s.allowUnknownVote now masternode).2 := by
  unfold InstantX.allowUnknownVote
  dsimp only
  split_ifs
  · exact of_maps rfl (fun _ hk => hk) fun _ => rfl
  · exact of_maps rfl (fun _ hk => hk) fun _ => rfl
  · exact of_maps rfl (fun _ hk => hk) fun _ => rfl
  · exact of_maps rfl (fun _ hk => hk) fun _ => rfl

end Quiet

theorem createNewLock_quiet (tx : CTransaction) : Exec.Frame Quiet (createNewLock env ext tx) := by
  unfold createNewLock
  refine Quiet.bind (Exec.Frame.lift Quiet.refl _) fun height => ?_
  cases height with
  | none => exact Quiet.pure _
  | some nBlockHeight =>
    exact Quiet.bind (Exec.Frame.update fun _ => Quiet.setLockHeight nBlockHeight) fun _ => Quiet.pure _

theorem checkForConflictingLocks_quiet (tx : CTransaction) :
    Exec.Frame Quiet (checkForConflictingLocks env ext tx) := by
  intro s
  unfold checkForConflictingLocks
  split
  · exact Quiet.refl s
  · exact Quiet.expireLock.trans Quiet.expireLock

theorem resolveConflicts_quiet (tx : CTransaction) : Exec.Frame Quiet (resolveConflicts env ext tx) := by
  unfold resolveConflicts
  refine Quiet.bind (Exec.Frame.read Quiet.refl) fun s => ?_
  cases s.mapTxLocks (env.getHash tx) with
  | none => exact Quiet.pure _
  | some lock =>
    dsimp only
    split
    · refine Quiet.bind (checkForConflictingLocks_quiet tx) fun conflict => ?_
      split
      · exact Exec.Frame.stop Quiet.refl _
      · exact Quiet.pure _
    · exact Quiet.pure _

theorem rejectRequest_quiet (tx : CTransaction) : Exec.Frame Quiet (rejectRequest env ext tx) := by
  unfold rejectRequest
  refine Quiet.bind (Exec.Frame.update fun _ => ?_) fun _ => ?_
  · exact Quiet.of_maps rfl (fun _ hk => hk) fun _ => rfl
  · refine Quiet.bind (Exec.Frame.update fun _ => ?_) fun _ => ?_
    · exact Quiet.of_maps rfl (fun _ hk => hk) fun _ => rfl
    · exact Quiet.bind (resolveConflicts_quiet tx) fun _ => Quiet.pure _

theorem lockRequestAt_quiet (h : UInt256) : Exec.Frame Quiet (lockRequestAt ext h) := by
  intro s
  unfold lockRequestAt
  cases hreq : s.mapTxLockReq h with
  | some tx =>
    dsimp only [Option.getD_some]
    rw [← hreq, Function.update_eq_self]
    exact Quiet.refl s
  | none =>
    refine ⟨fun k tx hk => ?_, fun k tx hk => ?_, fun _ hk => hk, fun _ => rfl⟩
    · have hne : k ≠ h := by
        rintro rfl
        rw [hreq] at hk
        cases hk
      show Function.update s.mapTxLockReq h _ k = some tx
      rw [Function.update_of_ne hne, hk]
    · by_cases hkh : k = h
      · right
        rw [hkh] at hk
        dsimp only at hk
        rw [Function.update_self, Option.getD_none, Option.some.injEq] at hk
        rw [← hk]
      · left
        dsimp only at hk
        rw [Function.update_of_ne hkh] at hk
        exact hk

theorem completeLock_quiet (vote : CConsensusVote) (lock : CTransactionLock) :
    Exec.Frame Quiet (completeLock env ext vote lock) := by
  unfold completeLock
  refine Quiet.bind (lockRequestAt_quiet _) fun tx => Quiet.bind (checkForConflictingLocks_quiet tx) fun c => ?_
  split
  · exact Quiet.pure _
  · refine Quiet.bind (Exec.Frame.update fun s => ?_) fun _ => Quiet.bind (Exec.Frame.read Quiet.refl) fun s => ?_
    · split
      · exact Quiet.of_maps rfl (fun _ hk => hk) fun _ => rfl
      · exact Quiet.refl s
    · split
      · exact Exec.Frame.stop Quiet.refl _
      · exact Quiet.pure _

theorem relayVote_quiet (vote : CConsensusVote) : Exec.Frame Quiet (relayVote ext vote) := by
  intro s
  unfold relayVote
  split
  · exact Quiet.refl s
  · have hallow : Quiet s (s.allowUnknownVote ext.getTime vote.vinMasternode.prevout.hash).2 :=
      Quiet.allowUnknownVote _
    split
    · next heq =>
      rw [heq] at hallow
      exact hallow
    · next heq =>
      rw [heq] at hallow
      exact hallow

/-! ## One message -/

/-- What a message does to the maps of a node, with the votes the node casts. -/
structure MessageStep (env : InstantXEnv) (event : InstantXEvent) (s s' : InstantX)
    (cast : List CConsensusVote) : Prop where
  kept : ∀ h tx, s.mapTxLockReq h = some tx → s'.mapTxLockReq h = some tx
  fresh : ∀ h tx, s'.mapTxLockReq h = some tx → s.mapTxLockReq h = some tx ∨ tx.vin = []
    ∨ (event.2 = .txlreq tx ∧ event.1.acceptToMemoryPool tx = true ∧ h = env.getHash tx)
  seen : ∀ k, (s.mapTxLockVote k).isSome = true → (s'.mapTxLockVote k).isSome = true
  votes : ∀ h, s'.votesOf h = s.votesOf h ∨ ∃ vote, event.2 = .txlvote vote
    ∧ voteAccepted env event.1 vote = true ∧ vote.txHash = h ∧ s'.votesOf h = s.votesOf h ++ [vote]
    ∧ s.mapTxLockVote vote.getHash = none ∧ (s'.mapTxLockVote vote.getHash).isSome = true
  cast : ∀ vote ∈ cast, event.1.fMasterNode = true ∧ vote.vinMasternode = event.1.activeMasternode
    ∧ ∃ tx, s'.mapTxLockReq vote.txHash = some tx ∧ env.getHash tx = vote.txHash

theorem Quiet.step (hq : Quiet s s') : MessageStep env event s s' [] where
  kept := hq.kept
  fresh h tx hreq := by
    rcases hq.fresh h tx hreq with hold | hempty
    · exact Or.inl hold
    · exact Or.inr (Or.inl hempty)
  seen := hq.seen
  votes h := Or.inl (hq.votes h)
  cast vote hvote := by cases hvote

theorem consensusVote_eq (hvote : consensusVote env ext h nBlockHeight = some vote) :
    ext.fMasterNode = true ∧ vote.vinMasternode = ext.activeMasternode ∧ vote.txHash = h := by
  unfold consensusVote at hvote
  by_cases hmn : ext.fMasterNode = true
  · rw [if_neg (not_not.mpr hmn)] at hvote
    dsimp only at hvote
    split_ifs at hvote
    obtain ⟨signature, -, hsigned⟩ := Option.bind_eq_some_iff.mp hvote
    split_ifs at hsigned
    cases hsigned
    exact ⟨hmn, rfl, rfl⟩
  · rw [if_pos hmn] at hvote
    cases hvote

theorem acceptRequest_step (hnew : s.mapTxLockReq (env.getHash tx) = none)
    (haccept : ext.acceptToMemoryPool tx = true) (hr : acceptRequest env ext tx nBlockHeight s = (.ok invs, s')) :
    MessageStep env (ext, .txlreq tx) s s' (castVotes (.txlreq tx) invs s') := by
  have hinsert : mapInsert s.mapTxLockReq (env.getHash tx) tx
      = Function.update s.mapTxLockReq (env.getHash tx) (some tx) := by
    unfold mapInsert
    rw [hnew, if_neg (by simp)]
  have hkept : ∀ k t, s.mapTxLockReq k = some t → mapInsert s.mapTxLockReq (env.getHash tx) tx k = some t := by
    intro k t hk
    exact mapInsert_eq_some.mpr (Or.inl hk)
  have hfresh : ∀ k t, mapInsert s.mapTxLockReq (env.getHash tx) tx k = some t →
      s.mapTxLockReq k = some t ∨ t.vin = [] ∨ ((InstantXMessage.txlreq tx = .txlreq t)
        ∧ ext.acceptToMemoryPool t = true ∧ k = env.getHash t) := by
    intro k t hk
    rcases mapInsert_eq_some.mp hk with hold | ⟨-, rfl, rfl⟩
    · exact Or.inl hold
    · exact Or.inr (Or.inr ⟨rfl, haccept, rfl⟩)
  have hstored : mapInsert s.mapTxLockReq (env.getHash tx) tx (env.getHash tx) = some tx := by
    rw [hinsert, Function.update_self]
  unfold acceptRequest doConsensusVote at hr
  cases hvote : consensusVote env ext (env.getHash tx) nBlockHeight with
  | none =>
    rw [hvote] at hr
    obtain ⟨hinvs, rfl⟩ := Prod.mk.inj hr
    cases hinvs
    exact ⟨hkept, hfresh, fun _ hk => hk, fun _ => Or.inl rfl, fun vote hv => by cases hv⟩
  | some own =>
    rw [hvote] at hr
    obtain ⟨hinvs, rfl⟩ := Prod.mk.inj hr
    cases hinvs
    refine ⟨hkept, hfresh, fun k hk => ?_, fun _ => Or.inl rfl, fun vote hv => ?_⟩
    · show (Function.update s.mapTxLockVote own.getHash (some own) k).isSome = true
      by_cases hkh : k = own.getHash
      · rw [hkh, Function.update_self]
        rfl
      · rw [Function.update_of_ne hkh]
        exact hk
    · have hcast : castVotes (.txlreq tx) [.txLockRequest (env.getHash tx), .txLockVote own.getHash]
          { s with
            mapTxLockVote := Function.update s.mapTxLockVote own.getHash (some own)
            mapTxLockReq := mapInsert s.mapTxLockReq (env.getHash tx) tx } = [own] := by
        simp [castVotes]
      have hmem : vote ∈ [own] := hcast ▸ hv
      rw [List.mem_singleton] at hmem
      subst hmem
      obtain ⟨hmn, hvin, htx⟩ := consensusVote_eq hvote
      refine ⟨hmn, hvin, tx, ?_, htx.symm⟩
      rw [htx]
      exact hstored

theorem processLockRequest_step (hr : processLockRequest env ext tx s = (.ok invs, s')) :
    MessageStep env (ext, .txlreq tx) s s' (castVotes (.txlreq tx) invs s') := by
  unfold processLockRequest at hr
  rw [Exec.read_bind] at hr
  cases hknown : s.known (env.getHash tx) with
  | true =>
    rw [hknown, if_pos rfl] at hr
    obtain ⟨hinvs, rfl⟩ := Prod.mk.inj hr
    cases hinvs
    exact (Quiet.refl s).step
  | false =>
    rw [hknown, if_neg (by simp)] at hr
    obtain ⟨valid, _, hlift, hr⟩ := Exec.bind_returns.mp hr
    obtain ⟨-, rfl⟩ := Exec.liftM_returns.mp hlift
    cases valid with
    | false =>
      rw [if_pos (by simp)] at hr
      obtain ⟨hinvs, rfl⟩ := Prod.mk.inj hr
      cases hinvs
      exact (Quiet.refl s).step
    | true =>
      rw [if_neg (by simp)] at hr
      obtain ⟨nBlockHeight, t, hlock, hr⟩ := Exec.bind_returns.mp hr
      have ht : Quiet s t := (createNewLock_quiet tx).apply hlock
      cases haccept : ext.acceptToMemoryPool tx with
      | true =>
        rw [haccept, if_pos rfl] at hr
        have hreq : t.mapTxLockReq = s.mapTxLockReq := by
          rcases createNewLock_returns hlock with ⟨-, rfl⟩ | ⟨_, -, rfl⟩ <;> rfl
        have hnone : t.mapTxLockReq (env.getHash tx) = none := by
          rw [hreq]
          unfold InstantX.known at hknown
          rw [Bool.or_eq_false_iff] at hknown
          exact Option.isNone_iff_eq_none.mp (by simpa using hknown.1)
        have hstep := acceptRequest_step hnone haccept hr
        refine ⟨fun k t' hk => hstep.kept k t' (ht.kept k t' hk), fun k t' hk => ?_,
          fun k hk => hstep.seen k (ht.seen k hk), fun k => ?_, hstep.cast⟩
        · have hfresh := hstep.fresh k t' hk
          rw [hreq] at hfresh
          exact hfresh
        · rcases hstep.votes k with hsame | ⟨vote, hmessage, -⟩
          · exact Or.inl (hsame.trans (ht.votes k))
          · cases hmessage
      | false =>
        rw [haccept, if_neg (by simp)] at hr
        have hnothing : invs = [] := by
          unfold rejectRequest at hr
          obtain ⟨_, _, -, hr⟩ := Exec.bind_returns.mp hr
          obtain ⟨_, _, -, hr⟩ := Exec.bind_returns.mp hr
          obtain ⟨_, _, -, hr⟩ := Exec.bind_returns.mp hr
          obtain ⟨hinvs, -⟩ := Prod.mk.inj hr
          cases hinvs
          rfl
        subst hnothing
        exact (ht.trans ((rejectRequest_quiet tx).apply hr)).step

theorem processConsensusVote_votes {b : Bool} (hr : processConsensusVote env ext vote s = (.ok b, s')) :
    Quiet s s' ∨ (voteAccepted env ext vote = true ∧ Quiet (s.addVote ext.getTime vote) s') := by
  unfold processConsensusVote at hr
  cases haccepted : voteAccepted env ext vote with
  | false =>
    rw [haccepted, if_pos (by simp)] at hr
    obtain ⟨-, rfl⟩ := Prod.mk.inj hr
    exact Or.inl (Quiet.refl s)
  | true =>
    right
    refine ⟨rfl, ?_⟩
    rw [haccepted, if_neg (by simp)] at hr
    rw [Exec.read_bind, Exec.update_bind] at hr
    split at hr
    · obtain ⟨_, t₁, hcomplete, hr⟩ := Exec.bind_returns.mp hr
      obtain ⟨-, rfl⟩ := Prod.mk.inj hr
      exact (completeLock_quiet vote _).apply hcomplete
    · obtain ⟨-, rfl⟩ := Prod.mk.inj hr
      exact Quiet.refl _

theorem processLockVote_step (hr : processLockVote env ext vote s = (.ok invs, s')) :
    MessageStep env (ext, .txlvote vote) s s' [] := by
  unfold processLockVote at hr
  rw [Exec.read_bind] at hr
  cases hold : s.mapTxLockVote vote.getHash with
  | some w =>
    rw [hold, if_pos (by simp)] at hr
    obtain ⟨-, rfl⟩ := Prod.mk.inj hr
    exact (Quiet.refl s).step
  | none =>
    rw [hold, if_neg (by simp)] at hr
    rw [Exec.update_bind] at hr
    obtain ⟨b, t₁, hvote, hr⟩ := Exec.bind_returns.mp hr
    have hrecord : Quiet s { s with mapTxLockVote := mapInsert s.mapTxLockVote vote.getHash vote } :=
      Quiet.of_maps rfl (fun _ hk => isSome_mapInsert vote hk) fun _ => rfl
    have hrelay : Quiet t₁ s' := by
      split at hr
      · exact (relayVote_quiet vote).apply hr
      · obtain ⟨-, rfl⟩ := Prod.mk.inj hr
        exact Quiet.refl _
    rcases processConsensusVote_votes hvote with hq | ⟨haccepted, hq⟩
    · exact ((hrecord.trans hq).trans hrelay).step
    · have hrest := hq.trans hrelay
      have hseen : (s'.mapTxLockVote vote.getHash).isSome = true := by
        refine hrest.seen _ (Option.isSome_of_eq_some (?_ : _ = some vote))
        exact mapInsert_eq_some.mpr (Or.inr ⟨hold, rfl, rfl⟩)
      refine ⟨fun k t hk => hrest.kept k t hk, fun k t hk => ?_, fun k hk => ?_, fun k => ?_, fun v hv => by cases hv⟩
      · rcases hrest.fresh k t hk with hk' | hempty
        · exact Or.inl hk'
        · exact Or.inr (Or.inl hempty)
      · exact hrest.seen k (hrecord.seen k hk)
      · have hvotes := hrest.votes k
        rw [InstantX.addVote_votesOf] at hvotes
        by_cases hk : k = vote.txHash
        · rw [if_pos hk] at hvotes
          exact Or.inr ⟨vote, rfl, haccepted, hk.symm, hvotes, hold, hseen⟩
        · rw [if_neg hk] at hvotes
          exact Or.inl hvotes

theorem processMessageInstantX_step (hr : processMessageInstantX env event.1 event.2 s = (.ok invs, s')) :
    MessageStep env event s s' (castVotes event.2 invs s') := by
  obtain ⟨ext, message⟩ := event
  unfold processMessageInstantX at hr
  split at hr
  · obtain ⟨hinvs, rfl⟩ := Prod.mk.inj hr
    cases hinvs
    cases message <;> exact (Quiet.refl s).step
  · cases message with
    | txlreq tx => exact processLockRequest_step hr
    | txlvote vote => exact processLockVote_step hr

section Nodes

variable {N : Type} {owner : COutPoint → N} {net : LockNetwork N} {i : N}

/-- Votes are cast for transactions that the voter's node has taken, a node takes no two transactions that spend
    the same output, and the votes of a lock have been cast by different masternodes. -/
structure LockNetworkInv (env : InstantXEnv) (owner : COutPoint → N) (net : LockNetwork N) : Prop where
  accepted : ∀ vote ∈ net.cast, ∃ tx, env.getHash tx = vote.txHash
    ∧ (net.node (owner vote.vinMasternode.prevout)).mapTxLockReq vote.txHash = some tx
  compatible : ∀ i h tx h' tx', (net.node i).mapTxLockReq h = some tx →
    (net.node i).mapTxLockReq h' = some tx' → h ≠ h' → ¬ tx.sharesInput tx'
  counted : ∀ i h, ∀ vote ∈ (net.node i).votesOf h, vote.txHash = h ∧ (∃ cast ∈ net.cast, cast.sameVote vote)
    ∧ ((net.node i).mapTxLockVote vote.getHash).isSome = true
  distinct : ∀ i h, (((net.node i).votesOf h).map CConsensusVote.getHash).Nodup

theorem LockNetworkInv.start : LockNetworkInv env owner ⟨fun _ => .empty, []⟩ where
  accepted vote hvote := by cases hvote
  compatible i h tx h' tx' hreq := by cases hreq
  counted i h vote hvote := by cases hvote
  distinct i h := List.nodup_nil

theorem LockNetworkInv.step_compatible (hinv : LockNetworkInv env owner net)
    (hhonest : HonestEvent env owner net i event)
    (hstep : MessageStep env event (net.node i) s cast) {h' : UInt256} (hreq : s.mapTxLockReq h = some tx)
    (hreq' : s.mapTxLockReq h' = some tx') (hne : h ≠ h') : ¬ tx.sharesInput tx' := by
  rcases hstep.fresh h tx hreq with hold | hempty | ⟨hmessage, haccept, hhash⟩
  · rcases hstep.fresh h' tx' hreq' with hold' | hempty' | ⟨hmessage', haccept', -⟩
    · exact hinv.compatible i h tx h' tx' hold hold' hne
    · intro hshare
      exact CTransaction.not_sharesInput_of_nil hempty' (CTransaction.sharesInput_symm hshare)
    · intro hshare
      exact hhonest.mempool tx' hmessage' haccept' h tx hold (CTransaction.sharesInput_symm hshare)
  · exact CTransaction.not_sharesInput_of_nil hempty
  · rcases hstep.fresh h' tx' hreq' with hold' | hempty' | ⟨hmessage', -, hhash'⟩
    · exact hhonest.mempool tx hmessage haccept h' tx' hold'
    · intro hshare
      exact CTransaction.not_sharesInput_of_nil hempty' (CTransaction.sharesInput_symm hshare)
    · rw [hmessage] at hmessage'
      cases hmessage'
      exact absurd (hhash.trans hhash'.symm) hne

theorem LockNetworkInv.step_counted (hinv : LockNetworkInv env owner net)
    (hhonest : HonestEvent env owner net i event) (hstep : MessageStep env event (net.node i) s cast) (h : UInt256) :
    (∀ vote ∈ s.votesOf h, vote.txHash = h ∧ (∃ cast ∈ net.cast, cast.sameVote vote)
      ∧ (s.mapTxLockVote vote.getHash).isSome = true) ∧ ((s.votesOf h).map CConsensusVote.getHash).Nodup := by
  have hold : ∀ vote ∈ (net.node i).votesOf h, vote.txHash = h ∧ (∃ cast ∈ net.cast, cast.sameVote vote)
      ∧ (s.mapTxLockVote vote.getHash).isSome = true := by
    intro vote hvote
    obtain ⟨htx, hcast, hseen⟩ := hinv.counted i h vote hvote
    exact ⟨htx, hcast, hstep.seen _ hseen⟩
  rcases hstep.votes h with hsame | ⟨vote, hmessage, haccepted, htx, hvotes, hnew, hseen⟩
  · rw [hsame]
    exact ⟨hold, hinv.distinct i h⟩
  · rw [hvotes]
    constructor
    · intro w hw
      rcases List.mem_append.mp hw with hw | hw
      · exact hold w hw
      · rw [List.mem_singleton] at hw
        subst hw
        exact ⟨htx, hhonest.genuine w hmessage haccepted, hseen⟩
    · refine Tally.nodup_append_vote (hinv.distinct i h) fun w hw heq => ?_
      -- a vote with this hash would have been recorded before
      have hrecorded := (hinv.counted i h w hw).2.2
      rw [heq, hnew] at hrecorded
      cases hrecorded

theorem LockNetworkInv.receive [DecidableEq N] (hinv : LockNetworkInv env owner net)
    (hhonest : HonestEvent env owner net i event) (hstep : MessageStep env event (net.node i) s cast) :
    LockNetworkInv env owner ⟨Function.update net.node i s, net.cast ++ cast⟩ where
  accepted vote hvote := by
    rcases List.mem_append.mp hvote with hold | hnew
    · obtain ⟨tx, hhash, hreq⟩ := hinv.accepted vote hold
      refine ⟨tx, hhash, ?_⟩
      dsimp only
      by_cases hi : owner vote.vinMasternode.prevout = i
      · rw [hi, Function.update_self]
        rw [hi] at hreq
        exact hstep.kept _ _ hreq
      · rw [Function.update_of_ne hi]
        exact hreq
    · obtain ⟨hmn, hvin, tx, hreq, hhash⟩ := hstep.cast vote hnew
      refine ⟨tx, hhash, ?_⟩
      dsimp only
      rw [hvin, hhonest.active hmn, Function.update_self]
      exact hreq
  compatible j h tx h' tx' hreq hreq' hne := by
    dsimp only at hreq hreq'
    by_cases hj : j = i
    · rw [hj, Function.update_self] at hreq hreq'
      exact hinv.step_compatible hhonest hstep hreq hreq' hne
    · rw [Function.update_of_ne hj] at hreq hreq'
      exact hinv.compatible j h tx h' tx' hreq hreq' hne
  counted j h vote hvote := by
    have hsome : (∃ cast ∈ net.cast, cast.sameVote vote) → ∃ c ∈ net.cast ++ cast, c.sameVote vote := by
      rintro ⟨c, hc, hsame⟩
      exact ⟨c, List.mem_append_left _ hc, hsame⟩
    dsimp only at hvote ⊢
    by_cases hj : j = i
    · rw [hj, Function.update_self] at hvote ⊢
      obtain ⟨htx, hcast, hseen⟩ := (hinv.step_counted hhonest hstep h).1 vote hvote
      exact ⟨htx, hsome hcast, hseen⟩
    · rw [Function.update_of_ne hj] at hvote ⊢
      obtain ⟨htx, hcast, hseen⟩ := hinv.counted j h vote hvote
      exact ⟨htx, hsome hcast, hseen⟩
  distinct j h := by
    dsimp only
    by_cases hj : j = i
    · rw [hj, Function.update_self]
      exact (hinv.step_counted hhonest hstep h).2
    · rw [Function.update_of_ne hj]
      exact hinv.distinct j h

theorem LockNetworkRun.inv [DecidableEq N] (hrun : LockNetworkRun env owner net) : LockNetworkInv env owner net := by
  induction hrun with
  | start => exact LockNetworkInv.start
  | receive _ hhonest hr ih => exact ih.receive hhonest (processMessageInstantX_step hr)

theorem LockNetworkInv.quorum (hinv : LockNetworkInv env owner net) (hlock : (net.node i).lockComplete h) :
    Tally.Quorum instantxSignaturesRequired.toNat (fun vote : CConsensusVote => vote.vinMasternode.prevout)
      (fun vote => vote.txHash = h ∧ ∃ cast ∈ net.cast, cast.sameVote vote) ((net.node i).votesOf h) := by
  obtain ⟨lock, hlock, hcount⟩ := hlock
  have hvotes : (net.node i).votesOf h = lock.vecConsensusVotes := by
    unfold InstantX.votesOf
    rw [hlock]
    rfl
  have hnodup : (((net.node i).votesOf h).map fun vote => vote.vinMasternode.prevout).Nodup := by
    refine Tally.nodup_of_key (hinv.distinct i h) fun v hv w hw hvw => ?_
    have hprevout : v.vinMasternode.prevout = w.vinMasternode.prevout := hvw
    unfold CConsensusVote.getHash
    rw [hprevout, (hinv.counted i h v hv).1, (hinv.counted i h w hw).1]
  have hcounted : instantxSignaturesRequired.toNat ≤ ((net.node i).votesOf h).countP lock.counts := by
    rw [hvotes]
    exact two_le_count hcount
  refine Tally.quorum_of_count hnodup hcounted fun v hv _ => ?_
  obtain ⟨htx, hcast, -⟩ := hinv.counted i h v hv
  exact ⟨htx, hcast⟩

theorem LockNetworkInv.votedFor (hinv : LockNetworkInv env owner net)
    (hhash : ∀ t, env.getHash t = env.getHash tx → t = tx)
    (hvote : vote.txHash = env.getHash tx ∧ ∃ cast ∈ net.cast, cast.sameVote vote) :
    net.votedFor env owner tx vote.vinMasternode.prevout := by
  obtain ⟨htx, cast, hcast, hprevout, hcastTx, -⟩ := hvote
  obtain ⟨t, ht, hreq⟩ := hinv.accepted cast hcast
  rw [hcastTx, htx] at ht hreq
  rw [hhash t ht, hprevout] at hreq
  exact ⟨⟨cast, hcast, hprevout, hcastTx.trans htx⟩, hreq⟩

/-- When two nodes hold complete locks on transactions that spend a common output, masternodes enough for a lock
    have voted for the one, whose own memory pools have taken it, and as many others for the other one: no
    masternode counts in both. -/
theorem conflictingLocks_split [DecidableEq N] (hrun : LockNetworkRun env owner net) (hne : tx ≠ tx')
    (hshare : tx.sharesInput tx') (hhash : ∀ t, env.getHash t = env.getHash tx → t = tx)
    (hhash' : ∀ t, env.getHash t = env.getHash tx' → t = tx') {a b : N}
    (hlock : (net.node a).lockComplete (env.getHash tx))
    (hlock' : (net.node b).lockComplete (env.getHash tx')) : net.split env owner tx tx' := by
  have hinv := hrun.inv
  have hhashes : env.getHash tx ≠ env.getHash tx' := fun heq => hne (hhash tx' heq.symm).symm
  obtain ⟨voters, voters', hnodup, hle, hle', hvoters, hvoters'⟩ :=
    (hinv.quorum hlock).disjoint (hinv.quorum hlock') (by
      intro v _ w _ hv hw hsame
      have hvoted := (hinv.votedFor hhash hv).2
      have hvoted' := (hinv.votedFor hhash' hw).2
      rw [hsame] at hvoted
      exact hinv.compatible _ _ _ _ _ hvoted hvoted' hhashes hshare)
  have hrequired : instantxSignaturesRequired.toNat = 2 := rfl
  refine ⟨voters, voters', hnodup, ?_, ?_, fun m hm => ?_, fun m hm => ?_⟩
  · rw [hrequired] at hle
    unfold instantxSignaturesRequired
    omega
  · rw [hrequired] at hle'
    unfold instantxSignaturesRequired
    omega
  · obtain ⟨v, -, hv, rfl⟩ := hvoters m hm
    exact hinv.votedFor hhash hv
  · obtain ⟨v, -, hv, rfl⟩ := hvoters' m hm
    exact hinv.votedFor hhash' hv

end Nodes

namespace Sample

def rivalTx : CTransaction := { lockTx with nTime := 8 }

def splitEnv : InstantXEnv :=
  { lockEnv with
    toEnv := { lockEnv.toEnv with getHash := fun tx => if tx = lockTx then 9 else if tx = rivalTx then 8 else 0 } }

def splitOwner (o : COutPoint) : ℕ := o.hash.toNat

def splitExt (k : ℕ) : InstantXExt :=
  { lockExt true with
    vMasternodes := [21, 22, 23, 24].map fun k => ⟨masternodeIn k, [], 62032, true⟩
    fMasterNode := decide (20 < k ∧ k < 25)
    activeMasternode := masternodeIn k
    sign := fun _ _ => some [] }

def deliver (net : LockNetwork ℕ) (d : ℕ × InstantXMessage) : LockNetwork ℕ :=
  match processMessageInstantX splitEnv (splitExt d.1) d.2 (net.node d.1) with
  | (.ok invs, s) => ⟨Function.update net.node d.1 s, net.cast ++ castVotes d.2 invs s⟩
  | (.error _, _) => net

variable {net : LockNetwork ℕ} {d : ℕ × InstantXMessage}

theorem deliver_run (hrun : LockNetworkRun splitEnv splitOwner net)
    (hhonest : HonestEvent splitEnv splitOwner net d.1 (splitExt d.1, d.2)) :
    LockNetworkRun splitEnv splitOwner (deliver net d) := by
  unfold deliver
  split
  · next hr => exact .receive hrun hhonest hr
  · exact hrun

theorem deliver_node {k : ℕ} (hk : k ≠ d.1) : (deliver net d).node k = net.node k := by
  unfold deliver
  split
  · exact Function.update_of_ne hk _ _
  · rfl

theorem splitExt_active (k : ℕ) (hmn : (splitExt k).fMasterNode = true) :
    splitOwner (splitExt k).activeMasternode.prevout = k := by
  have hk : 20 < k ∧ k < 25 := of_decide_eq_true hmn
  show (BitVec.ofNat 256 k).toNat = k
  rw [BitVec.toNat_ofNat, Nat.mod_eq_of_lt (by omega)]

theorem request_run (hrun : LockNetworkRun splitEnv splitOwner net) (k : ℕ) (tx : CTransaction)
    (hempty : net.node k = .empty) : LockNetworkRun splitEnv splitOwner (deliver net (k, .txlreq tx)) := by
  refine deliver_run hrun ⟨splitExt_active k, fun _ _ _ h tx' hreq => ?_, fun _ hmessage => ?_⟩
  · rw [hempty] at hreq
    cases hreq
  · cases hmessage

theorem vote_run (hrun : LockNetworkRun splitEnv splitOwner net) (k : ℕ) (vote : CConsensusVote)
    (hcast : vote ∈ net.cast) : LockNetworkRun splitEnv splitOwner (deliver net (k, .txlvote vote)) := by
  refine deliver_run hrun ⟨splitExt_active k, fun _ hmessage => ?_, fun v hmessage _ => ?_⟩
  · cases hmessage
  · cases hmessage
    exact ⟨vote, hcast, rfl, rfl, rfl⟩

def splitVote (k : ℕ) (hash : UInt256) : CConsensusVote := ⟨masternodeIn k, hash, 14, []⟩

def castNet : LockNetwork ℕ :=
  [(21, InstantXMessage.txlreq lockTx), (22, .txlreq lockTx), (23, .txlreq rivalTx), (24, .txlreq rivalTx),
    (1, .txlreq lockTx), (2, .txlreq rivalTx)].foldl deliver ⟨fun _ => .empty, []⟩

theorem castNet_run : LockNetworkRun splitEnv splitOwner castNet := by
  have hrun₁ := request_run .start 21 lockTx rfl
  have hrun₂ := request_run hrun₁ 22 lockTx (deliver_node (by decide))
  have hrun₃ := request_run hrun₂ 23 rivalTx (by rw [deliver_node (by decide), deliver_node (by decide)])
  have hrun₄ := request_run hrun₃ 24 rivalTx (by
    rw [deliver_node (by decide), deliver_node (by decide), deliver_node (by decide)])
  have hrun₅ := request_run hrun₄ 1 lockTx (by
    rw [deliver_node (by decide), deliver_node (by decide), deliver_node (by decide), deliver_node (by decide)])
  exact request_run hrun₅ 2 rivalTx (by
    rw [deliver_node (by decide), deliver_node (by decide), deliver_node (by decide),
      deliver_node (by decide), deliver_node (by decide)])

theorem castNet_cast : castNet.cast = [splitVote 21 9, splitVote 22 9, splitVote 23 8, splitVote 24 8] := by
  decide

def splitNet : LockNetwork ℕ :=
  [(1, InstantXMessage.txlvote (splitVote 21 9)), (1, .txlvote (splitVote 22 9)),
    (2, .txlvote (splitVote 23 8)), (2, .txlvote (splitVote 24 8))].foldl deliver castNet

theorem deliver_vote_cast (net : LockNetwork ℕ) (k : ℕ) (vote : CConsensusVote) :
    (deliver net (k, .txlvote vote)).cast = net.cast := by
  unfold deliver
  split
  · exact List.append_nil _
  · rfl

theorem splitNet_run : LockNetworkRun splitEnv splitOwner splitNet := by
  have hrun₁ := vote_run castNet_run 1 (splitVote 21 9) (by rw [castNet_cast]; simp)
  have hrun₂ := vote_run hrun₁ 1 (splitVote 22 9) (by
    rw [deliver_vote_cast, castNet_cast]
    simp)
  have hrun₃ := vote_run hrun₂ 2 (splitVote 23 8) (by
    rw [deliver_vote_cast, deliver_vote_cast, castNet_cast]
    simp)
  exact vote_run hrun₃ 2 (splitVote 24 8) (by
    rw [deliver_vote_cast, deliver_vote_cast, deliver_vote_cast, castNet_cast]
    simp)

theorem lockTx_sharesInput : lockTx.sharesInput rivalTx :=
  ⟨_, List.mem_cons_self, _, List.mem_cons_self, rfl⟩

theorem lockComplete_of_count {s : InstantX} {h : UInt256}
    (hcount : (s.mapTxLocks h).map CTransactionLock.countSignatures = some 2) : s.lockComplete h := by
  obtain ⟨lock, hlock, heq⟩ := Option.map_eq_some_iff.mp hcount
  exact ⟨lock, hlock, heq.ge⟩

theorem splitNet_first : (splitNet.node 1).lockComplete (splitEnv.getHash lockTx) :=
  lockComplete_of_count (by decide)

theorem splitNet_second : (splitNet.node 2).lockComplete (splitEnv.getHash rivalTx) :=
  lockComplete_of_count (by decide)

/-- Four honest masternodes, two of which have taken the one transaction and two the other one. -/
theorem conflictingLocks_complete : LockNetworkRun splitEnv splitOwner splitNet ∧ lockTx ≠ rivalTx
    ∧ lockTx.sharesInput rivalTx ∧ (splitNet.node 1).lockComplete (splitEnv.getHash lockTx)
    ∧ (splitNet.node 2).lockComplete (splitEnv.getHash rivalTx) :=
  ⟨splitNet_run, by decide, lockTx_sharesInput, splitNet_first, splitNet_second⟩

theorem splitEnv_getHash_lockTx (t : CTransaction) (ht : splitEnv.getHash t = splitEnv.getHash lockTx) :
    t = lockTx := by
  by_contra hne
  have hself : splitEnv.getHash lockTx = 9 := by decide
  have hother : splitEnv.getHash t = if t = rivalTx then 8 else 0 := if_neg hne
  rw [hself, hother] at ht
  split_ifs at ht <;> exact absurd ht (by decide)

theorem splitEnv_getHash_rivalTx (t : CTransaction) (ht : splitEnv.getHash t = splitEnv.getHash rivalTx) :
    t = rivalTx := by
  by_contra hne
  have hself : splitEnv.getHash rivalTx = 8 := by decide
  have hother : splitEnv.getHash t = if t = lockTx then 9 else 0 := by
    show (if t = lockTx then (9 : UInt256) else if t = rivalTx then 8 else 0) = _
    rw [if_neg hne]
  rw [hself, hother] at ht
  split_ifs at ht <;> exact absurd ht (by decide)

theorem splitNet_split : splitNet.split splitEnv splitOwner lockTx rivalTx :=
  conflictingLocks_split splitNet_run (by decide) lockTx_sharesInput splitEnv_getHash_lockTx
    splitEnv_getHash_rivalTx splitNet_first splitNet_second

end Sample

end PupaCoin
