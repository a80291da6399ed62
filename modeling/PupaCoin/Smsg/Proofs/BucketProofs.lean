import PupaCoin.Smsg.Proofs.ParserProofs

/-!
# What is kept of the buckets in every run, and where it is lost

A bucket begins at a multiple of ten minutes, has the tokens of its own time, and has the hash of these tokens unless it
is locked for a peer.
-/

namespace PupaCoin.Smsg

variable {b' : SecMsgBucket} {key : TokenKey} {ofs : Int}

open Exec

/-- The invariant except for the hash of one bucket, as it holds while a bunch for this bucket is received. -/
def ConsistentBut (env : StoreEnv) (bktTime : Int) (m : OrderedMap Int SecMsgBucket) : Prop :=
  m.All fun time b => BucketWell time b ∧ (time ≠ bktTime → b.nLockCount = 0 → HashCurrent env b)

section Buckets

variable {env : StoreEnv} {m m' : OrderedMap Int SecMsgBucket} {s : SmsgNode} {time bktTime : Int} {b : SecMsgBucket}

theorem dvd_bucketOf (timestamp : Int) : smsgBucketLen ∣ bucketOf timestamp := by
  have hsplit := Int.mul_tdiv_add_tmod timestamp smsgBucketLen
  refine ⟨timestamp.tdiv smsgBucketLen, ?_⟩
  unfold bucketOf
  omega

theorem BucketWell.fresh (h : smsgBucketLen ∣ time) : BucketWell time {} := ⟨h, fun _ _ hfound => nomatch hfound⟩

theorem BucketWell.of_tokens (h : BucketWell time b) (htokens : b'.setTokens = b.setTokens) :
    BucketWell time b' := ⟨h.aligned, by rw [htokens]; exact h.owned⟩

theorem BucketWell.insert (h : BucketWell (bucketOf (ofLex key).1) b)
    (htokens : b'.setTokens = b.setTokens.insert key ofs) : BucketWell (bucketOf (ofLex key).1) b' := by
  refine ⟨h.aligned, fun key' ofs' hfound => ?_⟩
  rw [htokens] at hfound
  by_cases hkey : key' = key
  · rw [hkey]
  · rw [TokenSet.find?_insert_of_ne hkey] at hfound
    exact h.owned key' ofs' hfound

theorem BucketsConsistent.but (h : BucketsConsistent env m) (bktTime : Int) : ConsistentBut env bktTime m :=
  h.mono fun _ _ hb => ⟨hb.1, fun _ => hb.2⟩

theorem all_updateBucket {P P' : Int → SecMsgBucket → Prop} {f : SecMsgBucket → SecMsgBucket} (h : s.smsgBuckets.All P)
    (hother : ∀ t b, t ≠ time → P t b → P' t b) (hhere : ∀ b, P time b → P' time (f b)) :
    (s.updateBucket time f).smsgBuckets.All P' := by
  refine h.update (fun t => updateBucket_find? f) hother fun b hb => ?_
  obtain ⟨b₀, hfound, rfl⟩ := Option.map_eq_some_iff.mp hb
  exact hhere b₀ (h time b₀ hfound)

end Buckets

section Steps

variable {env : StoreEnv} {pfrom : NodeId} {vchData : Bytes} {s : SmsgNode} {m : OrderedMap Int SecMsgBucket}

theorem foldl_subscripted {times : List Int} (h : ∀ time ∈ times, (m.find? time).isSome = true) :
    times.foldl subscripted m = m := by
  induction times with
  | nil => rfl
  | cons time times ih =>
    obtain ⟨b, hb⟩ := Option.isSome_iff_exists.mp (h time List.mem_cons_self)
    rw [List.foldl_cons, subscripted_of_some hb]
    exact ih fun t ht => h t (List.mem_cons_of_mem _ ht)

theorem smsgInv_keeps (hs : BucketsConsistent env s.smsgBuckets) (hcareful : Careful env s (.smsgInv pfrom vchData)) :
    Ends (fun s' => s' = s) (smsgInv pfrom vchData) (fun _ s' => BucketsConsistent env s'.smsgBuckets)
      fun e s' => e.IsReturn ∧ BucketsConsistent env s'.smsgBuckets := by
  refine (smsgInv_ends pfrom vchData s).mono (fun _ h => h) (fun _ s' h => ?_) fun e s' h => ⟨h.1, h.2 ▸ hs⟩
  obtain ⟨hheeded, times, hs', htimes⟩ := h
  have hthere : ∀ time ∈ times, (s.smsgBuckets.find? time).isSome = true := by
    intro time htime
    obtain ⟨i, hi, rfl, haccepts⟩ := htimes time htime
    exact hcareful hheeded i hi haccepts
  rw [hs', foldl_subscripted hthere]
  exact hs

theorem smsgHave_keeps (hs : BucketsConsistent env s.smsgBuckets) (hcareful : Careful env s (.smsgHave pfrom vchData))
    : Ends (fun s' => s' = s) (smsgHave pfrom vchData) (fun _ s' => BucketsConsistent env s'.smsgBuckets)
      fun e s' => e.IsReturn ∧ BucketsConsistent env s'.smsgBuckets := by
  have hkeeps : ∀ m, HaveOutcome pfrom vchData (s.clock 0) s.smsgBuckets m → BucketsConsistent env m := by
    rintro m (rfl | ⟨hin, hold, hnew, rfl, hwhy⟩ | ⟨hin, hold, hnew, rfl⟩)
    · exact hs
    · cases hfound : s.smsgBuckets.find? (haveTime vchData) with
      | some b =>
        rw [subscripted_of_some hfound]
        exact hs
      | none =>
        -- a bucket that comes to be has no tokens, so that the peer is asked for one
        obtain ⟨-, hsome⟩ := hcareful hin hold hnew hfound
        rw [hfound] at hwhy
        rcases hwhy with hlocked | hfew
        · exact absurd hlocked (Nat.lt_irrefl 0)
        · exact absurd (hfew rfl) (Nat.not_lt.mpr hsome)
    · let locked : SecMsgBucket :=
        { (s.smsgBuckets.find? (haveTime vchData)).getD {} with nLockCount := 3, nLockPeerId := pfrom }
      refine OrderedMap.All.update (k := haveTime vchData) (o := some locked) hs (fun t => ?_) (fun t b _ hb => hb)
        fun b hb => ?_
      · by_cases ht : t = haveTime vchData
        · rw [if_pos ht, ht, OrderedMap.find?_set_self]
        · rw [if_neg ht, OrderedMap.find?_set_of_ne _ _ ht, find?_subscripted_of_ne ht]
      · obtain rfl := Option.some.inj hb
        refine ⟨BucketWell.of_tokens (b := (s.smsgBuckets.find? (haveTime vchData)).getD {}) ?_ rfl,
          fun hunlocked => nomatch hunlocked⟩
        cases hfound : s.smsgBuckets.find? (haveTime vchData) with
        | some b₀ => exact (hs _ _ hfound).1
        | none => exact BucketWell.fresh (hcareful hin hold hnew hfound).1
  exact (smsgHave_ends pfrom vchData s).mono (fun _ h => h) (fun _ s' h => hkeeps _ h) fun e s' h =>
    ⟨h.1, hkeeps _ h.2⟩

theorem BucketWell.added {b : SecMsgBucket}
    (hs : ∀ b, m.find? (bucketOf (ofLex key).1) = some b → BucketWell (bucketOf (ofLex key).1) b)
    (htokens : b.setTokens = (bucketFor m key).setTokens.insert key ofs) : BucketWell (bucketOf (ofLex key).1) b := by
  refine BucketWell.insert ?_ htokens
  unfold bucketFor
  cases hfound : m.find? (bucketOf (ofLex key).1) with
  | none => exact BucketWell.fresh (dvd_bucketOf _)
  | some b₀ => exact hs b₀ hfound

theorem store_keeps (hs : BucketsConsistent env s.smsgBuckets) {message : OwnMessage}
    (hcareful : Careful env s (.store message)) :
    Ends (fun s' => s' = s) (SmsgEvent.handle env (.store message)) (fun _ s' => BucketsConsistent env s'.smsgBuckets)
      fun e s' => e.IsReturn ∧ BucketsConsistent env s'.smsgBuckets := by
  let nPayload := (SecureMessage.ofBytes (message.val.take smsgHdrLen)).nPayload
  have hin : 0 + smsgHdrLen + nPayload.toNat ≤ message.val.length := by
    rw [Nat.zero_add]
    exact message.property
  have hkeeps : ∀ m, StoreOutcome env (tokenAt message.val 0 nPayload) true s m → BucketsConsistent env m := by
    rintro m (rfl | ⟨hcomes, rfl, hwhy⟩ | ⟨b, ofs, hcomes, hdisk, hnew, htokens, hlock, hhash, hm⟩)
    · exact hs
    · cases hfound : s.smsgBuckets.find? (bucketOf (timeAt message.val 0)) with
      | some b =>
        rw [show subscripted s.smsgBuckets (bucketOf (ofLex (tokenAt message.val 0 nPayload)).1) = s.smsgBuckets from
          subscripted_of_some hfound]
        exact hs
      | none =>
        rcases hwhy with hknown | hdisk
        · have habsent : s.smsgBuckets.find? (bucketOf (ofLex (tokenAt message.val 0 nPayload)).1) = none := hfound
          rw [bucketFor, habsent] at hknown
          cases hknown
        · exact absurd (hcareful hcomes hfound) hdisk
    · refine hs.update hm (fun t b _ hb => hb) fun b' hb' => ?_
      obtain rfl := Option.some.inj hb'
      exact ⟨BucketWell.added (fun b₀ hb₀ => (hs _ b₀ hb₀).1) htokens, fun _ => hhash rfl⟩
  exact (secureMsgStore_ends hin env true s).mono (fun _ h => h) (fun _ s' h => hkeeps _ h) fun e s' h =>
    ⟨h.1, hkeeps _ h.2⟩

theorem place_keeps {bktTime : Int} {n : Nat} (hs : ConsistentBut env bktTime s.smsgBuckets)
    (hcareful : PlaceCareful vchData bktTime n s)
    (hstored : StoreOutcome env (tokenAt vchData n (headerAt vchData n).nPayload) false s m) :
    ConsistentBut env bktTime m := by
  let key := tokenAt vchData n (headerAt vchData n).nPayload
  rcases hstored with rfl | ⟨hcomes, rfl, hwhy⟩ | ⟨b, ofs, hcomes, hdisk, hnew, htokens, hlock, -, hm⟩
  · exact hs
  · rcases hcareful hcomes with hown | ⟨b, hfound, -⟩
    · refine OrderedMap.All.update (k := bktTime) (o := some ((s.smsgBuckets.find? bktTime).getD {})) hs (fun t => ?_)
        (fun t b _ hb => hb) fun b hb => ⟨?_, fun hne => absurd rfl hne⟩
      · rw [hown]
        by_cases ht : t = bktTime
        · rw [if_pos ht, ht, find?_subscripted]
        · rw [if_neg ht, find?_subscripted_of_ne ht]
      · obtain rfl := Option.some.inj hb
        cases hfound : s.smsgBuckets.find? bktTime with
        | some b₀ => exact (hs _ _ hfound).1
        | none => exact BucketWell.fresh (hown ▸ dvd_bucketOf _)
    · rw [subscripted_of_some hfound]
      exact hs
  · refine hs.update hm (fun t b _ hb => hb) fun b' hb' => ?_
    obtain rfl := Option.some.inj hb'
    refine ⟨BucketWell.added (fun b₀ hb₀ => (hs _ b₀ hb₀).1) htokens, fun hother hunlocked => ?_⟩
    rcases hcareful hcomes with hown | ⟨b₀, hfound, hwhy⟩
    · exact absurd hown hother
    · rw [bucketFor, hfound] at hlock hnew
      rcases hwhy with hlocked | hfails | hknown
      · exact absurd (hlock.symm.trans hunlocked) hlocked.ne'
      · exact absurd hdisk hfails
      · rw [show b₀.setTokens.find? key = none from hnew] at hknown
        cases hknown

theorem releaseBucket_keeps (bktTime : Int) :
    Ends (fun s => ConsistentBut env bktTime s.smsgBuckets) (releaseBucket env bktTime)
      (fun _ s => BucketsConsistent env s.smsgBuckets)
      fun e s => e.IsReturn ∧ BucketsConsistent env s.smsgBuckets := by
  refine Ends.bind_read fun w hw => ?_
  cases hfound : w.smsgBuckets.find? bktTime with
  | none =>
    refine Ends.stop fun s hs => ⟨trivial, fun time b hb => ?_⟩
    subst hs
    have hother : time ≠ bktTime := fun ht => by
      rw [ht, hfound] at hb
      cases hb
    exact ⟨(hw time b hb).1, (hw time b hb).2 hother⟩
  | some b =>
    change Ends _ (Exec.update (fun s => s.updateBucket bktTime fun b => { b with nLockCount := 0, nLockPeerId := 0 })
      >>= fun _ => hashBucket env bktTime) _ _
    refine Ends.bind (Q := fun _ s => ConsistentBut env bktTime s.smsgBuckets) (Ends.update fun s hs => ?_) fun _ => ?_
    · subst hs
      exact all_updateBucket hw (fun t b _ hb => hb) fun b hb => ⟨hb.1.of_tokens rfl, fun hne => absurd rfl hne⟩
    · refine Ends.of_returns fun s hs => ?_
      obtain ⟨t, hrun, -, hfind⟩ := hashBucket_apply env s bktTime
      refine ⟨(), t, hrun, hs.update hfind (fun t b ht hb => ⟨hb.1, hb.2 ht⟩) fun b hb => ?_⟩
      obtain ⟨b₀, hfound₀, rfl⟩ := Option.map_eq_some_iff.mp hb
      exact ⟨(hs _ _ hfound₀).1.of_tokens rfl, fun _ => rfl⟩

theorem smsgMsg_keeps (hlz4 : env.Lz4Safe) (hs : BucketsConsistent env s.smsgBuckets)
    (hcareful : Careful env s (.smsgMsg pfrom vchData)) :
    Ends (fun s' => s' = s) (secureMsgReceive env pfrom vchData) (fun _ s' => BucketsConsistent env s'.smsgBuckets)
      fun e s' => e.IsReturn ∧ BucketsConsistent env s'.smsgBuckets := by
  rintro _ rfl
  rename_i s
  by_cases haccepted : BunchAccepted vchData (s.clock 0)
  · rw [secureMsgReceive_accepted haccepted]
    have hbunch := hcareful haccepted
    by_cases hcount : bunchSize vchData = 0 ∨ bunchSize vchData > 500
    · rw [if_pos hcount] at hbunch ⊢
      have hrefuse : Ends (α := Unit) (fun s' => s' = s.ticked) (do
          misbehaving pfrom 1
          Exec.update fun s => s.updateBucket (bunchTime vchData) fun b => { b with nLockCount := 0 }
          Exec.stop (.rv 1)) (fun _ s' => BucketsConsistent env s'.smsgBuckets)
          fun e s' => e.IsReturn ∧ BucketsConsistent env s'.smsgBuckets := by
        refine Ends.bind (Q := fun _ s' => s'.smsgBuckets = s.smsgBuckets) (Ends.update fun s' hs' => hs' ▸ rfl)
          fun _ => Ends.bind (Q := fun _ s' => BucketsConsistent env s'.smsgBuckets) (Ends.update fun s' hs' => ?_)
            fun _ => Ends.stop fun s' hs' => ⟨trivial, hs'⟩
        have hbucket : s'.smsgBuckets.All fun time b => (BucketWell time b ∧ (b.nLockCount = 0 → HashCurrent env b))
            ∧ (time = bunchTime vchData → HashCurrent env b) := by
          intro time b hb
          rw [hs'] at hb
          exact ⟨hs time b hb, fun ht => hbunch b (ht ▸ hb)⟩
        exact all_updateBucket hbucket (fun t b _ hb => hb.1) fun b hb => ⟨hb.1.1.of_tokens rfl, fun _ => hb.2 rfl⟩
      exact hrefuse s.ticked rfl
    · rw [if_neg hcount] at hbunch ⊢
      obtain ⟨hinside, hplaces⟩ := hbunch
      obtain ⟨t, hrun, ht⟩ := receiveBunch_run hlz4 pfrom (ConsistentBut env (bunchTime vchData)) _ hinside
        (hs.but (bunchTime vchData)) fun place hmem hI hvalid m hstored =>
          place_keeps hI (hplaces place hmem hvalid) hstored
      rw [Exec.bind_of_ok hrun]
      exact releaseBucket_keeps (bunchTime vchData) t ht
  · obtain ⟨t, hrun, ht⟩ := secureMsgReceive_refused env pfrom haccepted
    rw [hrun]
    refine ⟨fun a s' ha => (nomatch (Prod.mk.inj ha).1), fun e s' he => ?_⟩
    obtain ⟨hrv, rfl⟩ := Prod.mk.inj he
    exact ⟨Except.error.inj hrv ▸ trivial, ht ▸ hs⟩

theorem expireBucket_run {cutoffTime : Int} {entry : Int × SecMsgBucket} (hyoung : cutoffTime ≤ entry.1)
    (hcurrent : entry.2.nLockCount = 1 → HashCurrent env entry.2) (hfound : s.smsgBuckets.find? entry.1 = some entry.2)
    (hs : BucketsConsistent env s.smsgBuckets) (vTimedOutLocks : List (Int × NodeId)) :
    ∃ locks b t, expireBucket cutoffTime vTimedOutLocks entry s = (.ok locks, t) ∧ BucketsConsistent env t.smsgBuckets
      ∧ ∀ time, t.smsgBuckets.find? time = if time = entry.1 then some b else s.smsgBuckets.find? time := by
  have hupdate : ∀ f : SecMsgBucket → SecMsgBucket, (f entry.2).setTokens = entry.2.setTokens →
      ((f entry.2).nLockCount = 0 → HashCurrent env (f entry.2)) →
        BucketsConsistent env (s.updateBucket entry.1 f).smsgBuckets
        ∧ ∀ time, (s.updateBucket entry.1 f).smsgBuckets.find? time
          = if time = entry.1 then some (f entry.2) else s.smsgBuckets.find? time := by
    intro f htokens hhash
    have hfind : ∀ time, (s.updateBucket entry.1 f).smsgBuckets.find? time
        = if time = entry.1 then some (f entry.2) else s.smsgBuckets.find? time := by
      intro time
      rw [updateBucket_find?, hfound]
      rfl
    refine ⟨hs.update hfind (fun t b _ hb => hb) fun b hb => ?_, hfind⟩
    obtain rfl := Option.some.inj hb
    exact ⟨(hs _ _ hfound).1.of_tokens htokens, hhash⟩
  unfold expireBucket
  rw [if_neg (not_lt.mpr hyoung)]
  by_cases hlast : entry.2.nLockCount = 1
  · rw [if_pos hlast]
    exact ⟨_, _, _, rfl, hupdate (fun b => { b with nLockCount := 0, nLockPeerId := 0 }) rfl fun _ => hcurrent hlast⟩
  · rw [if_neg hlast]
    refine ⟨_, _, _, rfl, hupdate (fun b => { b with nLockCount := b.nLockCount - 1 }) rfl fun hunlocked => ?_⟩
    have hzero : entry.2.nLockCount = 0 := by
      change entry.2.nLockCount - 1 = 0 at hunlocked
      omega
    exact (hs _ _ hfound).2 hzero

theorem expireBuckets_run (cutoffTime : Int) (rest : List (Int × SecMsgBucket)) (hnodup : (rest.map Prod.fst).Nodup)
    (hyoung : ∀ entry ∈ rest, cutoffTime ≤ entry.1)
    (hcurrent : ∀ entry ∈ rest, entry.2.nLockCount = 1 → HashCurrent env entry.2)
    (hrest : ∀ entry ∈ rest, s.smsgBuckets.find? entry.1 = some entry.2) (hs : BucketsConsistent env s.smsgBuckets)
    (vTimedOutLocks : List (Int × NodeId)) :
    ∃ locks t, rest.foldlM (expireBucket cutoffTime) vTimedOutLocks s = (.ok locks, t)
      ∧ BucketsConsistent env t.smsgBuckets
      ∧ ∀ time, (t.smsgBuckets.find? time).isSome = (s.smsgBuckets.find? time).isSome := by
  induction rest generalizing s vTimedOutLocks with
  | nil => exact ⟨vTimedOutLocks, s, rfl, hs, fun _ => rfl⟩
  | cons entry rest ih =>
    obtain ⟨hfresh, hnodup⟩ := List.nodup_cons.mp hnodup
    have hfound := hrest entry List.mem_cons_self
    obtain ⟨locks, b, t, hstep, ht, hfind⟩ := expireBucket_run (hyoung entry List.mem_cons_self)
      (hcurrent entry List.mem_cons_self) hfound hs vTimedOutLocks
    have hlater : ∀ entry' ∈ rest, t.smsgBuckets.find? entry'.1 = some entry'.2 := by
      intro entry' hmem
      have hne : entry'.1 ≠ entry.1 := fun heq => hfresh (heq ▸ List.mem_map_of_mem hmem)
      rw [hfind, if_neg hne]
      exact hrest entry' (List.mem_cons_of_mem _ hmem)
    obtain ⟨locks', t', hrun, ht', hkeys⟩ := ih hnodup (fun e h => hyoung e (List.mem_cons_of_mem _ h))
      (fun e h => hcurrent e (List.mem_cons_of_mem _ h)) hlater ht locks
    refine ⟨locks', t', ?_, ht', fun time => ?_⟩
    · rw [List.foldlM_cons, Exec.bind_of_ok hstep]
      exact hrun
    · rw [hkeys, hfind]
      split_ifs with htime
      · rw [htime, hfound]
        rfl
      · rfl

theorem ignorePeer_ends (nPeerId : NodeId) {R : Stop → SmsgNode → Prop} :
    Ends (fun s => s.smsgBuckets = m) (ignorePeer nPeerId) (fun _ s => s.smsgBuckets = m) R := by
  unfold ignorePeer
  refine Ends.bind (Q := fun _ s => s.smsgBuckets = m) (Ends.of_returns fun s hs => ⟨s.clock 0, _, rfl, hs⟩)
    fun now => ?_
  refine Ends.bind_read fun w hw => Ends.pre ?_ fun s' hs' => hs' ▸ hw
  refine Ends.ite (fun _ => ?_) fun _ => Ends.pure fun _ hs => hs
  exact Ends.bind (Q := fun _ s => s.smsgBuckets = m) (Ends.update fun _ hs => hs) fun _ => Ends.update fun _ hs => hs

theorem threadSecureMsg_keeps (hs : BucketsConsistent env s.smsgBuckets) (hcareful : Careful env s .pass) :
    ∃ t, threadSecureMsg s = (.ok (), t) ∧ BucketsConsistent env t.smsgBuckets
      ∧ ∀ time, (t.smsgBuckets.find? time).isSome = (s.smsgBuckets.find? time).isSome := by
  have hentry : ∀ entry ∈ s.smsgBuckets.entries, s.smsgBuckets.find? entry.1 = some entry.2 := fun entry hmem =>
    OrderedMap.find?_eq_some_iff.mpr hmem
  obtain ⟨locks, t, hloop, ht, hkeys⟩ := expireBuckets_run (s := s.ticked) (s.clock 0 - smsgRetention)
    s.smsgBuckets.entries s.smsgBuckets.keys_nodup (fun entry hmem => (hcareful _ _ (hentry entry hmem)).1)
    (fun entry hmem => (hcareful _ _ (hentry entry hmem)).2) hentry hs []
  have hignore : Ends (fun s => s.smsgBuckets = t.smsgBuckets) (locks.forM fun lock => ignorePeer lock.2)
      (fun _ s => s.smsgBuckets = t.smsgBuckets) fun _ _ => False :=
    Ends.forM_mem fun lock _ => ignorePeer_ends lock.2
  obtain ⟨_, t', hpeers, ht'⟩ := hignore.returns rfl
  refine ⟨t', ?_, ht' ▸ ht, fun time => ?_⟩
  · change (s.smsgBuckets.entries.foldlM (expireBucket (s.clock 0 - smsgRetention)) [] >>= _) s.ticked = _
    rw [Exec.bind_of_ok hloop]
    exact hpeers
  · rw [ht', hkeys]
    rfl

/-- **One event.** It returns, and keeps the invariant. -/
theorem handle_keeps (hlz4 : env.Lz4Safe) (hs : BucketsConsistent env s.smsgBuckets) {event : SmsgEvent}
    (hcareful : Careful env s event) :
    Ends (fun s' => s' = s) (event.handle env) (fun _ s' => BucketsConsistent env s'.smsgBuckets)
      fun e s' => e.IsReturn ∧ BucketsConsistent env s'.smsgBuckets := by
  cases event with
  | smsgInv pfrom vchData => exact smsgInv_keeps hs hcareful
  | smsgShow pfrom vchData =>
    exact (smsgShow_ends pfrom s hcareful).mono (fun _ h => h) (fun _ s' h => h ▸ hs) fun e s' h => ⟨h.1, h.2 ▸ hs⟩
  | smsgHave pfrom vchData => exact smsgHave_keeps hs hcareful
  | smsgMsg pfrom vchData => exact smsgMsg_keeps hlz4 hs hcareful
  | store message => exact store_keeps hs hcareful
  | pass =>
    obtain ⟨t, hrun, ht, -⟩ := threadSecureMsg_keeps hs hcareful
    refine Ends.of_returns fun s' hs' => ⟨(), t, ?_, ht⟩
    rw [hs']
    exact hrun

end Steps

section Runs

variable {env : StoreEnv} {s : SmsgNode}

/-- **A run.** The first events of it come to their end, keep the invariant, and leave a careful run. -/
theorem runEvents_keeps (hlz4 : env.Lz4Safe) (pre post : List SmsgEvent) (hs : BucketsConsistent env s.smsgBuckets)
    (hcareful : CarefulRun env (pre ++ post) s) : ∃ t, runEvents env pre s = (.ok (), t)
      ∧ BucketsConsistent env t.smsgBuckets ∧ CarefulRun env post t := by
  induction pre generalizing s with
  | nil => exact ⟨s, rfl, hs, hcareful⟩
  | cons event pre ih =>
    obtain ⟨hfirst, hrest⟩ := hcareful
    obtain ⟨o, hrun, ht⟩ := attempt_run (handle_keeps hlz4 hs hfirst) rfl
    obtain ⟨t, hlater, hkept⟩ := ih ht hrest
    refine ⟨t, ?_, hkept⟩
    change ((attempt (event.handle env) >>= fun _ => pure ()) >>= fun _ => runEvents env pre) s = _
    have hstep : (attempt (event.handle env) >>= fun _ => (pure () : Exec SmsgNode Stop Unit)) s
        = (.ok (), (attempt (event.handle env) s).2) := by
      rw [Exec.bind_of_ok hrun]
      rfl
    rw [Exec.bind_of_ok hstep]
    exact hlater

/-- **The buckets in every run of careful events**, from buckets for which the invariant holds, such as none. In every
    state that is reached the invariant holds, and a pass of the thread from there removes exactly the buckets that are
    older than messages are kept. -/
theorem buckets_stay_consistent (hlz4 : env.Lz4Safe) (hs : BucketsConsistent env s.smsgBuckets)
    {events : List SmsgEvent} (hcareful : CarefulRun env events s) {pre : List SmsgEvent} (hpre : pre <+: events) :
    ∃ t, runEvents env pre s = (.ok (), t) ∧ BucketsConsistent env t.smsgBuckets
      ∧ (pre ++ [.pass] <+: events → ∃ t', threadSecureMsg t = (.ok (), t')
        ∧ ∀ time, (t'.smsgBuckets.find? time).isSome = true ↔
          (t.smsgBuckets.find? time).isSome = true ∧ t.clock 0 - smsgRetention ≤ time) := by
  obtain ⟨post, rfl⟩ := hpre
  obtain ⟨t, hrun, ht, hlater⟩ := runEvents_keeps hlz4 pre post hs hcareful
  refine ⟨t, hrun, ht, fun hpass => ?_⟩
  obtain ⟨post', hpost⟩ := hpass
  rw [List.append_assoc] at hpost
  obtain rfl : [SmsgEvent.pass] ++ post' = post := List.append_cancel_left hpost
  obtain ⟨t', hthread, -, hkeys⟩ := threadSecureMsg_keeps ht hlater.1
  refine ⟨t', hthread, fun time => ?_⟩
  rw [hkeys]
  refine ⟨fun hthere => ⟨hthere, ?_⟩, fun h => h.1⟩
  obtain ⟨b, hb⟩ := Option.isSome_iff_exists.mp hthere
  exact (hlater.1 time b hb).1

end Runs

namespace Sample

def ownGreeting : OwnMessage := ⟨greetingBytes, by decide⟩

def announced (time : Int) : SmsgEvent :=
  .smsgInv 7 (ofUInt32 1 ++ LittleEndian.ofInt 8 time ++ ofUInt32 1 ++ ofUInt32 0)

def greetingRun : List SmsgEvent := [.store ownGreeting, announced 1699999800, .pass]

theorem greetingRun_careful : CarefulRun storeEnv greetingRun emptyNode := by
  refine ⟨fun _ _ => rfl, fun _ i hi _ => ?_, fun time b hb => ?_, trivial⟩
  · have hone : (toUInt32 ((ofUInt32 1 ++ LittleEndian.ofInt 8 1699999800 ++ ofUInt32 1 ++ ofUInt32 0).take 4)).toNat
        = 1 := by decide
    obtain rfl : i = 0 := Nat.lt_one_iff.mp (hi.trans_eq hone)
    decide +kernel
  · have hentries : ∀ entry ∈ (attempt ((announced 1699999800).handle storeEnv)
          (attempt ((SmsgEvent.store ownGreeting).handle storeEnv) emptyNode).2).2.smsgBuckets.entries,
        (attempt ((announced 1699999800).handle storeEnv)
          (attempt ((SmsgEvent.store ownGreeting).handle storeEnv) emptyNode).2).2.clock 0 - smsgRetention ≤ entry.1
        ∧ entry.2.nLockCount ≠ 1 := by decide +kernel
    obtain ⟨hyoung, hlock⟩ := hentries (time, b) (OrderedMap.find?_eq_some_iff.mp hb)
    exact ⟨hyoung, fun h => absurd h hlock⟩

theorem greetingRun_consistent : ∃ t, runEvents storeEnv greetingRun emptyNode = (.ok (), t)
    ∧ BucketsConsistent storeEnv t.smsgBuckets := by
  have hempty : BucketsConsistent storeEnv emptyNode.smsgBuckets := OrderedMap.all_empty _
  obtain ⟨t, hrun, ht, -⟩ := buckets_stay_consistent storeEnv_lz4Safe hempty greetingRun_careful
    (List.prefix_refl greetingRun)
  exact ⟨t, hrun, ht⟩

def agingNode : SmsgNode := { emptyNode with clock := fun i => if i < 2 then 1700000000 else 1700200000 }

/-- An announced time that is not a multiple of ten minutes becomes a bucket, which has no hash. A message of a bunch
    for another bucket leaves its bucket without a hash. A pass that removes a bucket advances an erased iterator. -/
theorem buckets_lost : ((runEvents storeEnv [announced 1700000001] emptyNode).2.smsgBuckets.find? 1700000001).map
        (fun b => (b.nLockCount, b.hash, storeEnv.xxh32 b.setTokens.samples)) = some (0, 0, 0x0b2cb792)
    ∧ ¬smsgBucketLen ∣ 1700000001
    ∧ ((runEvents storeEnv
        [.smsgMsg 7 (ofUInt32 1 ++ LittleEndian.ofInt 8 1699999200 ++ greetingBytes)] emptyNode).2.smsgBuckets.find?
          1699999800).map
        (fun b => (b.nLockCount, b.hash, storeEnv.xxh32 b.setTokens.samples)) = some (0, 0, 0xcb653f61)
    ∧ (runEvents storeEnv [.store ownGreeting, .pass] agingNode).1 = .error (.undefined "it++") :=
  ⟨by decide, by decide, by decide +kernel, by decide +kernel⟩

end Sample

end PupaCoin.Smsg
