import PupaCoin.Smsg.Proofs.ParserProofs

/-!
# What a bunch leaves in the store

The loop of `SecureMsgReceive` stores the first messages of a bunch as long as each of them is valid and is taken by
`SecureMsgStore`.
-/

namespace PupaCoin.Smsg

variable {ofs n : Nat} {cs pre : List StoreCall}

/-- `SecureMsgStore` takes a message. -/
structure Accepts (s : SmsgNode) (c : StoreCall) : Prop where
  disk : s.disk 0 = .ok
  window : InWindow (s.clock 0) c
  new : (tokensOf s c.bucket).find? c.key = none

/-- The tokens are what they were; there may be more behind what was in a file. -/
structure Torn (s s' : SmsgNode) : Prop where
  tokens : ∀ t, tokensOf s' t = tokensOf s t
  files : ∀ t, ∃ extra, fileAt s' t = fileAt s t ++ extra

section Store

variable {env : StoreEnv} {s s' : SmsgNode} {c : StoreCall}

theorem Torn.of_eq (htokens : ∀ t, tokensOf s' t = tokensOf s t) (hfiles : s'.files = s.files) : Torn s s' :=
  ⟨htokens, fun t => ⟨[], by rw [fileAt, fileAt, hfiles, List.append_nil]⟩⟩

theorem tokensOf_subscripted (s : SmsgNode) (time t : Int) :
    tokensOf { s with smsgBuckets := subscripted s.smsgBuckets time } t = tokensOf s t := by
  unfold tokensOf
  by_cases ht : t = time
  · rw [ht]
    show ((subscripted s.smsgBuckets time).find? time |>.getD {}).setTokens = _
    rw [find?_subscripted]
    rfl
  · show ((subscripted s.smsgBuckets time).find? t |>.getD {}).setTokens = _
    rw [find?_subscripted_of_ne ht]

theorem appendRecord_torn {outcome : DiskOutcome} (bucket : Int) (bytes : Bytes) (h : outcome ≠ .ok) (s : SmsgNode) :
    ∃ t, appendRecord outcome bucket (.ok bytes) s = (.error (.rv 1), t) ∧ t.smsgBuckets = s.smsgBuckets
      ∧ ∀ time, ∃ extra, fileAt t time = fileAt s time ++ extra := by
  have hset : ∀ extra time, ∃ extra', fileAt { s with
      files := s.files.set bucket ((s.files.find? bucket).getD [] ++ extra) } time = fileAt s time ++ extra' := by
    intro extra time
    unfold fileAt
    by_cases ht : time = bucket
    · rw [ht]
      exact ⟨extra, by rw [OrderedMap.find?_set_self]; rfl⟩
    · exact ⟨[], by rw [OrderedMap.find?_set_of_ne _ _ ht, List.append_nil]⟩
  have hsame : ∀ time, ∃ extra, fileAt s time = fileAt s time ++ extra := fun time => ⟨[], (List.append_nil _).symm⟩
  cases outcome with
  | ok => exact absurd rfl h
  | noDirectory => exact ⟨s, rfl, rfl, hsame⟩
  | noFile => exact ⟨s, rfl, rfl, hsame⟩
  | noSeek =>
    refine ⟨_, rfl, rfl, fun time => ?_⟩
    have hfile := hset [] time
    rwa [List.append_nil] at hfile
  | torn k => exact ⟨_, rfl, rfl, hset (bytes.take k)⟩

/-- What `SecureMsgStore` comes to: it takes the message, or it fails and no token comes to be. -/
inductive StoreAnswer (s : SmsgNode) (c : StoreCall) : Except Stop Unit × SmsgNode → Prop
  | taken {t : SmsgNode} (h : Accepts s c) : StoreAnswer s c (.ok (), t)
  | refused {t : SmsgNode} (h : ¬Accepts s c) (htorn : Torn s t) : StoreAnswer s c (.error (.rv 1), t)

theorem store_answer (hvalid : c.Valid env.toSmsgEnv) (s : SmsgNode) : StoreAnswer s c (c.store env s) := by
  let s₁ : SmsgNode := { s with disk := fun i => s.disk (i + 1) }
  let s₂ : SmsgNode := { s₁ with clock := fun i => s.clock (i + 1) }
  let s₃ : SmsgNode := { s₂ with smsgBuckets := subscripted s.smsgBuckets c.bucket }
  have hsame₂ : Torn s s₂ := .of_eq (fun _ => rfl) rfl
  have hsame₃ : Torn s s₃ := .of_eq (tokensOf_subscripted s c.bucket) rfl
  unfold StoreCall.store secureMsgStore
  rw [hvalid.readHeader, Exec.lift_ok_bind, Exec.bind_of_ok (show nextOutcome s = (.ok (s.disk 0), s₁) from rfl)]
  by_cases hdirectory : s.disk 0 = .noDirectory
  · rw [hdirectory]
    exact .refused (fun h => absurd (hdirectory.symm.trans h.disk) (by decide)) (.of_eq (fun _ => rfl) rfl)
  rw [show (s.disk 0 == DiskOutcome.noDirectory) = false from beq_false_of_ne hdirectory, returnIf_false,
    Exec.lift_ok_bind, Exec.bind_of_ok (show getTime s₁ = (.ok (s.clock 0), s₂) from rfl)]
  show StoreAnswer s c
    ((Exec.lift (returnIf (decide (c.psmsg.timestamp > s.clock 0 + smsgTimeLeeway)) 1) >>= fun _ => _) s₂)
  by_cases hnew : c.psmsg.timestamp > s.clock 0 + smsgTimeLeeway
  · rw [decide_eq_true hnew]
    exact .refused (fun h => absurd h.window.1 (not_le.mpr hnew)) hsame₂
  rw [decide_eq_false hnew, returnIf_false, Exec.lift_ok_bind]
  show StoreAnswer s c
    ((Exec.lift (returnIf (decide (c.psmsg.timestamp < s.clock 0 - smsgRetention)) 1) >>= fun _ => _) s₂)
  by_cases hold : c.psmsg.timestamp < s.clock 0 - smsgRetention
  · rw [decide_eq_true hold]
    exact .refused (fun h => absurd h.window.2 (not_le.mpr hold)) hsame₂
  rw [decide_eq_false hold, returnIf_false, Exec.lift_ok_bind, hvalid.tokenSample, Exec.lift_ok_bind,
    Exec.bind_of_ok (subscript_eq s₂ _)]
  show StoreAnswer s c ((Exec.lift (returnIf ((tokensOf s c.bucket).find? c.key).isSome 1) >>= fun _ => _) s₃)
  by_cases hknown : (tokensOf s c.bucket).find? c.key = none
  · rw [hknown, Option.isSome_none, returnIf_false, Exec.lift_ok_bind, hvalid.readPayload, Guards.ok_bind]
    show StoreAnswer s c
      ((appendRecord (s.disk 0) c.bucket (.ok (c.header ++ c.payload)) >>= fun _ => _) s₃)
    by_cases hdisk : s.disk 0 = .ok
    · have haccepts : Accepts s c := ⟨hdisk, ⟨not_lt.mp hnew, not_lt.mp hold⟩, hknown⟩
      rw [hdisk]
      cases c.fUpdateBucket with
      | false => exact .taken haccepts
      | true => exact .taken haccepts
    · obtain ⟨t, hrun, hbuckets, hfiles⟩ := appendRecord_torn c.bucket (c.header ++ c.payload) hdisk s₃
      rw [Exec.bind_of_error hrun]
      refine .refused (fun h => hdisk h.disk) ⟨fun time => ?_, hfiles⟩
      rw [← hsame₃.tokens time, tokensOf, tokensOf, hbuckets]
  · rw [Option.isSome_iff_ne_none.mpr hknown]
    exact .refused (fun h => hknown h.new) hsame₃

end Store

/-! ## The readings of the clock and the answers of the file system -/

/-- No answer of the file system is taken, and the clock goes on. -/
structure Onward (s s' : SmsgNode) : Prop where
  disk : s'.disk = s.disk
  clock : ∃ j, ∀ i, s'.clock i = s.clock (i + j)

/-- The store is not touched either. -/
structure Quiet (s s' : SmsgNode) : Prop extends Onward s s' where
  files : s'.files = s.files
  buckets : s'.smsgBuckets = s.smsgBuckets

section Frames

variable {α : Type} {env : StoreEnv} {s : SmsgNode} {c : StoreCall}

theorem Onward.refl (s : SmsgNode) : Onward s s := ⟨rfl, 0, fun _ => rfl⟩

theorem Onward.trans (a b c : SmsgNode) (h : Onward a b) (h' : Onward b c) : Onward a c := by
  obtain ⟨j, hj⟩ := h.clock
  obtain ⟨k, hk⟩ := h'.clock
  refine ⟨h'.disk.trans h.disk, k + j, fun i => ?_⟩
  rw [hk, hj, Nat.add_assoc]

theorem Quiet.refl (s : SmsgNode) : Quiet s s := ⟨.refl s, rfl, rfl⟩

theorem Quiet.trans (a b c : SmsgNode) (h : Quiet a b) (h' : Quiet b c) : Quiet a c :=
  ⟨.trans a b c h.toOnward h'.toOnward, h'.files.trans h.files, h'.buckets.trans h.buckets⟩

theorem frame_getTime : Exec.Frame Quiet getTime := fun _ => ⟨⟨rfl, 1, fun _ => rfl⟩, rfl, rfl⟩

theorem frame_subscript (time : Int) : Exec.Frame Onward (subscript time) := fun s => by
  unfold subscript
  split
  · exact ⟨rfl, 0, fun _ => rfl⟩
  · exact .refl s

theorem onward_updateBucket (s : SmsgNode) (time : Int) (f : SecMsgBucket → SecMsgBucket) :
    Onward s (s.updateBucket time f) := by
  unfold SmsgNode.updateBucket
  split
  · exact .refl s
  · exact ⟨rfl, 0, fun _ => rfl⟩

theorem frame_appendRecord (outcome : DiskOutcome) (bucket : Int) (record : Except Stop Bytes) :
    Exec.Frame Onward (appendRecord outcome bucket record) := fun s => by
  cases outcome <;> cases record <;> exact ⟨rfl, 0, fun _ => rfl⟩

theorem frame_hashBucket (env : StoreEnv) (time : Int) : Exec.Frame Onward (hashBucket env time) :=
  Exec.Frame.bind .trans (frame_getTime.mono fun _ _ h => h.toOnward) fun _ =>
    Exec.Frame.update fun s => onward_updateBucket s time _

theorem store_onward (hvalid : c.Valid env.toSmsgEnv) (s : SmsgNode) :
    Onward { s with disk := fun i => s.disk (i + 1) } (c.store env s).2 := by
  have hlift : ∀ r : Except Stop Unit, Exec.Frame Onward (Exec.lift r) := fun r => Exec.Frame.lift .refl r
  unfold StoreCall.store secureMsgStore
  rw [hvalid.readHeader, Exec.lift_ok_bind,
    Exec.bind_of_ok (show nextOutcome s = (.ok (s.disk 0), { s with disk := fun i => s.disk (i + 1) }) from rfl)]
  refine Exec.Frame.bind .trans (hlift _) (fun _ => ?_) _
  refine Exec.Frame.bind .trans (frame_getTime.mono fun _ _ h => h.toOnward) fun now => ?_
  refine Exec.Frame.bind .trans (hlift _) fun _ => ?_
  refine Exec.Frame.bind .trans (hlift _) fun _ => ?_
  refine Exec.Frame.bind .trans (Exec.Frame.lift .refl _) fun sample => ?_
  refine Exec.Frame.bind .trans (frame_subscript _) fun bucket => ?_
  refine Exec.Frame.bind .trans (hlift _) fun _ => ?_
  refine Exec.Frame.bind .trans (frame_appendRecord _ _ _) fun ofs => ?_
  refine Exec.Frame.bind .trans (Exec.Frame.update fun s => onward_updateBucket s _ _) fun _ => ?_
  split_ifs
  · exact frame_hashBucket env _
  · exact Exec.Frame.pure .refl _

theorem frame_attempt {R : SmsgNode → SmsgNode → Prop} {m : Exec SmsgNode Stop α} (h : Exec.Frame R m) :
    Exec.Frame R (attempt m) := fun s => by
  have hm := h s
  unfold attempt
  split <;> rename_i hrun <;> rwa [hrun] at hm

theorem frame_onAddrpkdb (m : Exec SecMsgDB Stop α) : Exec.Frame Quiet (onAddrpkdb m) := fun _ =>
  ⟨⟨rfl, 0, fun _ => rfl⟩, rfl, rfl⟩

theorem frame_findOwner (psmsg : SecureMessage) (payload : Bytes) (smsgAddresses : List (String × Bool × Bool)) :
    Exec.Frame Quiet (findOwner env psmsg payload smsgAddresses) := by
  induction smsgAddresses with
  | nil => exact Exec.Frame.pure .refl _
  | cons address smsgAddresses ih =>
    obtain ⟨sAddress, fReceiveEnabled, fReceiveAnon⟩ := address
    unfold findOwner
    split_ifs
    · exact ih
    · refine Exec.Frame.bind .trans (frame_attempt (frame_onAddrpkdb _)) fun o => ?_
      cases o with
      | none => exact ih
      | some msg => exact Exec.Frame.pure .refl _

theorem frame_saveToInbox (buf : Bytes) (p : Nat) (nPayload : UInt32) (addressTo : String) :
    Exec.Frame Quiet (saveToInbox buf p nPayload addressTo) := by
  have hlift : ∀ r : Except Stop Bytes, Exec.Frame Quiet (Exec.lift r) := fun r => Exec.Frame.lift .refl r
  refine Exec.Frame.bind .trans (hlift _) fun _ => Exec.Frame.bind .trans (hlift _) fun _ => ?_
  refine Exec.Frame.bind .trans frame_getTime fun _ => Exec.Frame.bind .trans (hlift _) fun _ => ?_
  refine Exec.Frame.bind .trans (hlift _) fun _ => Exec.Frame.bind .trans (hlift _) fun _ => ?_
  refine Exec.Frame.update fun s => ?_
  split_ifs
  · exact ⟨⟨rfl, 0, fun _ => rfl⟩, rfl, rfl⟩
  · exact .refl s

theorem scan_quiet (env : StoreEnv) (hin : c.p + smsgHdrLen + c.psmsg.nPayload.toNat ≤ c.buf.length) (s : SmsgNode) :
    Quiet { s with disk := fun i => s.disk (i + if env.fLocked then 1 else 0) }
      (secureMsgScanMessage env c.buf c.p c.psmsg.nPayload s).2 := by
  have hlift : ∀ r : Except Stop Unit, Exec.Frame Quiet (Exec.lift r) := fun r => Exec.Frame.lift .refl r
  unfold secureMsgScanMessage
  rw [readAt_inside (show c.p + smsgHdrLen ≤ c.buf.length by omega)]
  cases hlocked : env.fLocked with
  | true =>
    rw [if_pos rfl, if_pos rfl]
    unfold secureMsgStoreUnscanned
    rw [readAt_inside (show c.p + smsgHdrLen ≤ c.buf.length by omega), Exec.lift_ok_bind,
      Exec.bind_of_ok (show nextOutcome s = (.ok (s.disk 0), { s with disk := fun i => s.disk (i + 1) }) from rfl)]
    refine Exec.Frame.bind .trans (hlift _) (fun _ => ?_) _
    refine Exec.Frame.bind .trans frame_getTime fun now => ?_
    refine Exec.Frame.bind .trans (hlift _) fun _ => Exec.Frame.bind .trans (hlift _) fun _ => ?_
    refine Exec.Frame.bind .trans (hlift _) fun _ => Exec.Frame.bind .trans (Exec.Frame.lift .refl _) fun record => ?_
    refine Exec.Frame.bind .trans (Exec.Frame.update fun s => ⟨⟨rfl, 0, fun _ => rfl⟩, rfl, rfl⟩) fun _ => hlift _
  | false =>
    rw [if_neg Bool.false_ne_true, if_neg Bool.false_ne_true, Exec.lift_ok_bind]
    refine Exec.Frame.bind .trans (Exec.Frame.lift .refl _) (fun payload => ?_) s
    refine Exec.Frame.bind .trans (frame_findOwner _ _ _) fun owner => ?_
    cases owner with
    | none => exact Exec.Frame.pure .refl _
    | some addressTo => exact frame_saveToInbox _ _ _ _

end Frames

section Retrieve

variable {env : StoreEnv} {s s' : SmsgNode} {c d : StoreCall}

theorem holds_iff : Holds s c ↔ ∃ ofs, (tokensOf s c.bucket).find? c.key = some ofs
    ∧ secureMsgRetrieve s (c.key, ofs) [] = .ok c.bytes := by
  constructor
  · rintro ⟨ofs, ⟨hmem, hread⟩, -⟩
    exact ⟨ofs, OrderedMap.find?_eq_some_iff.mpr hmem, hread⟩
  · rintro ⟨ofs, hfound, hread⟩
    have hmem := OrderedMap.find?_eq_some_iff.mp hfound
    exact ⟨ofs, ⟨hmem, hread⟩, fun ofs' h => OrderedMap.value_unique h.1 hmem⟩

theorem take_drop_append {file : Bytes} {k : Nat} (h : ((file.drop ofs).take k).length = k) (extra : Bytes) :
    ((file ++ extra).drop ofs).take k = (file.drop ofs).take k := by
  rw [List.length_take, List.length_drop] at h
  by_cases hk : k = 0
  · rw [hk, List.take_zero, List.take_zero]
  · rw [List.drop_append_of_le_length (by omega), List.take_append_of_le_length (by rw [List.length_drop]; omega)]

theorem retrieve_append {token : TokenKey × Int} {extra vchData record : Bytes}
    (hfile : fileAt s' (bucketOf (ofLex token.1).1) = fileAt s (bucketOf (ofLex token.1).1) ++ extra)
    (h : secureMsgRetrieve s token vchData = .ok record) : secureMsgRetrieve s' token vchData = .ok record := by
  unfold secureMsgRetrieve at h
  simp only [Guards.bind_eq_ok, orReturn_eq_ok, returnIf_eq_ok] at h
  obtain ⟨file, hfound, _, hsign, _, hheader, buf, hwrite, buf', hwrite', _, hpayload, hbuf⟩ := h
  have hheader := bne_eq_false_iff_eq.mp hheader
  have hpayload := bne_eq_false_iff_eq.mp hpayload
  have hfound' : s'.files.find? (bucketOf (ofLex token.1).1) = some (file ++ extra) := by
    rw [fileAt, fileAt, hfound, Option.getD_some] at hfile
    cases hnone : s'.files.find? (bucketOf (ofLex token.1).1) with
    | some file' =>
      rw [hnone] at hfile
      exact congrArg some hfile
    | none =>
      -- an empty file has no header
      rw [hnone, Option.getD_none] at hfile
      have hnil : file = [] := (List.append_eq_nil_iff.mp hfile.symm).1
      rw [hnil, List.drop_nil, List.take_nil] at hheader
      exact absurd hheader (by decide)
  unfold secureMsgRetrieve
  simp only [Guards.bind_eq_ok, orReturn_eq_ok, returnIf_eq_ok]
  refine ⟨file ++ extra, hfound', (), hsign, (), ?_, buf, ?_, buf', ?_, (), ?_, hbuf⟩
  · rw [take_drop_append hheader, hheader]
    exact bne_self_eq_false _
  · rw [take_drop_append hheader]
    exact hwrite
  · rw [take_drop_append hheader, take_drop_append hpayload]
    exact hwrite'
  · rw [take_drop_append hheader, take_drop_append hpayload]
    exact bne_eq_false_iff_eq.mpr hpayload

theorem key_eq_of_bytes (hc : c.Valid env.toSmsgEnv) (hd : d.Valid env.toSmsgEnv) (h : d.bytes = c.bytes) :
    d.key = c.key := by
  have hheader : d.header = c.header := by
    have := congrArg (List.take smsgHdrLen) h
    rwa [StoreCall.bytes, StoreCall.bytes, ← hd.length_header, List.take_left, hd.length_header, ← hc.length_header,
      List.take_left] at this
  have hpayload : d.payload = c.payload := by
    rw [StoreCall.bytes, StoreCall.bytes, hheader] at h
    exact List.append_cancel_left h
  rw [StoreCall.key, StoreCall.key, StoreCall.psmsg, StoreCall.psmsg, hheader, hpayload]

end Retrieve

/-- The node after more messages have been stored: their records are behind what was in the files, and they have tokens
that nothing had before. -/
structure Grown (s₀ : SmsgNode) (pre : List StoreCall) (s : SmsgNode) : Prop where
  files : ∀ t, fileAt s t = fileAt s₀ t ++ fileOf (inBucket t pre)
  tokens : ∀ t, tokensOf s t = tokensFrom (fileAt s₀ t).length (inBucket t pre) (tokensOf s₀ t)
  keys : (pre.map StoreCall.key).Nodup
  new : ∀ c ∈ pre, (tokensOf s₀ c.bucket).find? c.key = none

section Grown

variable {env : StoreEnv} {s₀ s s' t : SmsgNode} {pre : List StoreCall} {c : StoreCall}

theorem tokensFrom_keeps {tokenSet : TokenSet} {key : TokenKey} {offset : Int} (h : tokenSet.find? key = some offset)
    : (tokensFrom ofs cs tokenSet).find? key = some offset := by
  induction cs generalizing ofs tokenSet with
  | nil => exact h
  | cons c cs ih =>
    refine ih ?_
    by_cases hkey : key = c.key
    · rw [TokenSet.insert, if_pos (by rw [← hkey, h]; rfl)]
      exact h
    · rw [TokenSet.find?_insert_of_ne hkey]
      exact h

theorem Grown.nil (s₀ : SmsgNode) : Grown s₀ [] s₀ where
  files _ := (List.append_nil _).symm
  tokens _ := rfl
  keys := List.nodup_nil
  new _ hc := nomatch hc

theorem bucket_eq_of_key {c d : StoreCall} (h : d.key = c.key) : d.bucket = c.bucket :=
  congrArg (fun key : TokenKey => bucketOf (ofLex key).1) h

theorem Grown.find?_eq_none_iff (h : Grown s₀ pre s) : (tokensOf s c.bucket).find? c.key = none
      ↔ (tokensOf s₀ c.bucket).find? c.key = none ∧ ∀ d ∈ pre, d.key ≠ c.key := by
  rw [h.tokens]
  constructor
  · intro hnone
    have hsome : ∀ {o : Option Int}, o.isSome = true → o ≠ none := Option.isSome_iff_ne_none.mp
    refine ⟨?_, fun d hd hkey => ?_⟩
    · by_contra hfound
      exact hsome (isSome_find?_tokensFrom (Option.isSome_iff_ne_none.mpr hfound)) hnone
    · have hmem : d ∈ inBucket c.bucket pre := List.mem_filter.mpr ⟨hd, decide_eq_true (bucket_eq_of_key hkey)⟩
      rw [← hkey] at hnone
      exact hsome (isSome_find?_tokensFrom_of_mem hmem _ _) hnone
  · rintro ⟨hnone, hother⟩
    refine Option.eq_none_iff_forall_ne_some.mpr fun ofs hfound => ?_
    rcases find?_tokensFrom hfound with hbefore | ⟨before, d, after, hsplit, hkey, -⟩
    · exact nomatch hbefore.symm.trans hnone
    · have hd : d ∈ inBucket c.bucket pre := by rw [hsplit]; simp
      exact hother d (List.mem_filter.mp hd).1 hkey.symm

theorem Grown.store (h : Grown s₀ pre s) (hvalid : c.Valid env.toSmsgEnv) (hstore : c.store env s = (.ok (), s')) :
    Grown s₀ (pre ++ [c]) s' := by
  obtain ⟨b, b', rfl, hnone, htokens, -, hfiles, hbuckets⟩ := store_returns hvalid hstore
  obtain ⟨hnew, hother⟩ := h.find?_eq_none_iff.mp (show (tokensOf s c.bucket).find? c.key = none from hnone)
  refine ⟨fun t => ?_, fun t => ?_, ?_, fun d hd => ?_⟩
  · rw [inBucket_concat, fileAt, hfiles]
    by_cases ht : c.bucket = t
    · subst ht
      rw [OrderedMap.find?_set_self, if_pos rfl, fileOf_append, ← List.append_assoc, ← h.files]
      simp [fileOf, fileAt]
    · rw [OrderedMap.find?_set_of_ne _ _ (Ne.symm ht), if_neg ht]
      exact h.files t
  · rw [inBucket_concat, tokensOf, hbuckets]
    by_cases ht : c.bucket = t
    · subst ht
      rw [if_pos rfl, if_pos rfl, Option.getD_some, htokens, tokensFrom_concat, ← List.length_append, ← h.files,
        ← h.tokens]
      rfl
    · rw [if_neg (Ne.symm ht), if_neg ht]
      exact h.tokens t
  · rw [List.map_append, List.map_singleton, List.nodup_append]
    refine ⟨h.keys, List.nodup_singleton _, ?_⟩
    rintro key hkey _ hc rfl
    obtain rfl := List.mem_singleton.mp hc
    obtain ⟨d, hd, hdkey⟩ := List.mem_map.mp hkey
    exact hother d hd hdkey
  · rcases List.mem_append.mp hd with hd | hd
    · exact h.new d hd
    · rw [List.mem_singleton.mp hd]
      exact hnew

theorem find?_of_fileAt {time : Int} (h : fileAt s time ≠ []) : s.files.find? time = some (fileAt s time) := by
  unfold fileAt at h ⊢
  cases hfound : s.files.find? time with
  | some file => rfl
  | none =>
    rw [hfound] at h
    exact absurd rfl h

theorem Grown.token_cases (h : Grown s₀ pre s) (htorn : Torn s t) (hvalid : ∀ d ∈ pre, d.Valid env.toSmsgEnv)
    {ofs : Int} (hfound : (tokensOf t c.bucket).find? c.key = some ofs) :
    (tokensOf s₀ c.bucket).find? c.key = some ofs ∨
      ∃ d ∈ pre, d.key = c.key ∧ secureMsgRetrieve t (c.key, ofs) [] = .ok d.bytes := by
  rw [htorn.tokens, h.tokens] at hfound
  rcases find?_tokensFrom hfound with hbefore | ⟨before, d, after, hsplit, hkey, rfl⟩
  · exact Or.inl hbefore
  · have hd : d ∈ inBucket c.bucket pre := by rw [hsplit]; simp
    have hmem : d ∈ pre := (List.mem_filter.mp hd).1
    obtain ⟨extra, hextra⟩ := htorn.files d.bucket
    have hfile : fileAt t d.bucket
        = (fileAt s₀ c.bucket ++ fileOf before) ++ (d.bytes ++ (fileOf after ++ extra)) := by
      rw [hextra, bucket_eq_of_key hkey.symm, h.files, hsplit, fileOf_append]
      simp [fileOf]
    have hheader : d.header ≠ [] := List.ne_nil_of_length_pos (by rw [(hvalid d hmem).length_header]; decide)
    have hsome : t.files.find? d.bucket = some (fileAt t d.bucket) :=
      find?_of_fileAt (by rw [hfile]; simp [StoreCall.bytes, hheader])
    rw [hfile] at hsome
    have hread := secureMsgRetrieve_eq (hvalid d hmem) hsome []
    rw [List.length_append] at hread
    exact Or.inr ⟨d, hmem, hkey.symm, hkey ▸ hread⟩

/-- What was there is there, and so is what has been stored. -/
theorem Grown.holds (h : Grown s₀ pre s) (htorn : Torn s t) (hvalid : ∀ d ∈ pre, d.Valid env.toSmsgEnv)
    (hc : c.Valid env.toSmsgEnv) (hkept : Holds s₀ c ∨ ∃ d ∈ pre, d.bytes = c.bytes) : Holds t c := by
  rw [holds_iff]
  rcases hkept with hbefore | ⟨d, hd, hbytes⟩
  · obtain ⟨ofs, hfound, hread⟩ := holds_iff.1 hbefore
    obtain ⟨extra, hextra⟩ := htorn.files c.bucket
    rw [h.files, List.append_assoc] at hextra
    refine ⟨ofs, ?_, retrieve_append (s := s₀) hextra hread⟩
    rw [htorn.tokens, h.tokens]
    exact tokensFrom_keeps hfound
  · have hkey := key_eq_of_bytes hc (hvalid d hd) hbytes
    have hbucket := bucket_eq_of_key hkey
    have hmem : d ∈ inBucket c.bucket pre := List.mem_filter.mpr ⟨hd, decide_eq_true hbucket⟩
    obtain ⟨ofs, hfound⟩ := Option.isSome_iff_exists.mp
      (isSome_find?_tokensFrom_of_mem hmem (fileAt s₀ c.bucket).length (tokensOf s₀ c.bucket))
    have hnew := h.new d hd
    rw [← h.tokens, ← htorn.tokens, hkey] at hfound
    rw [hkey, hbucket] at hnew
    refine ⟨ofs, hfound, ?_⟩
    rcases h.token_cases htorn hvalid hfound with hold | ⟨d', hd', hkey', hread⟩
    · exact nomatch hold.symm.trans hnew
    · have hsame : d' = d := List.inj_on_of_nodup_map h.keys hd' hd (hkey'.trans hkey.symm)
      rw [hread, hsame, hbytes]

theorem Grown.of_holds (h : Grown s₀ pre s) (htorn : Torn s t) (hvalid : ∀ d ∈ pre, d.Valid env.toSmsgEnv)
    (hwhole : Whole s₀) (hholds : Holds t c) : Holds s₀ c ∨ ∃ d ∈ pre, d.bytes = c.bytes := by
  obtain ⟨ofs, hfound, hread⟩ := holds_iff.1 hholds
  rcases h.token_cases htorn hvalid hfound with hbefore | ⟨d, hd, -, hread'⟩
  · obtain ⟨record, hrecord⟩ := hwhole c.key ofs hbefore
    obtain ⟨extra, hextra⟩ := htorn.files c.bucket
    rw [h.files, List.append_assoc] at hextra
    have hafter : secureMsgRetrieve t (c.key, ofs) [] = .ok record := retrieve_append (s := s₀) hextra hrecord
    rw [Except.ok.inj (hafter.symm.trans hread)] at hrecord
    exact Or.inl (holds_iff.2 ⟨ofs, hbefore, hrecord⟩)
  · exact Or.inr ⟨d, hd, Except.ok.inj (hread'.symm.trans hread)⟩

end Grown

/-- The node at the head of the loop, after the messages `pre` have gone in. -/
structure Reached (env : StoreEnv) (s₀ : SmsgNode) (pre : List StoreCall) (s : SmsgNode) : Prop extends
    Grown s₀ pre s where
  disk : ∀ i, s.disk i = s₀.disk (i + answersFor env pre.length)
  clock : ∃ j, ∀ i, s.clock i = s₀.clock (i + j)

section Loop

variable {env : StoreEnv} {pfrom : NodeId} {vchData : Bytes} {s₀ s t : SmsgNode} {pre cs : List StoreCall}
  {c : StoreCall}

theorem Reached.nil (env : StoreEnv) (s₀ : SmsgNode) : Reached env s₀ [] s₀ where
  toGrown := .nil s₀
  disk i := by
    have hnone : answersFor env 0 = 0 := by unfold answersFor; split_ifs <;> rfl
    rw [List.length_nil, hnone, Nat.add_zero]
  clock := ⟨0, fun _ => rfl⟩

theorem Reached.accepts_iff (h : Reached env s₀ pre s) (hvalid : c.Valid env.toSmsgEnv)
    (hsteady : ∀ i, InWindow (s₀.clock i) c ↔ InWindow (s₀.clock 0) c) : Accepts s c ↔ GoesIn env s₀ pre c := by
  obtain ⟨j, hclock⟩ := h.clock
  have hdisk : s.disk 0 = s₀.disk (answersFor env pre.length) := by rw [h.disk, Nat.zero_add]
  have hwindow : InWindow (s.clock 0) c ↔ InWindow (s₀.clock 0) c := by rw [hclock]; exact hsteady _
  constructor
  · intro haccepts
    obtain ⟨hnew, hother⟩ := h.find?_eq_none_iff.mp haccepts.new
    exact ⟨hvalid, hwindow.mp haccepts.window, hnew, hother, hdisk ▸ haccepts.disk⟩
  · intro hgoes
    exact ⟨hdisk.trans hgoes.disk, hwindow.mpr hgoes.window, h.find?_eq_none_iff.mpr ⟨hgoes.new, hgoes.other⟩⟩

theorem attempt_snd {α : Type} (m : Exec SmsgNode Stop α) (s : SmsgNode) : (attempt m s).2 = (m s).2 := by
  unfold attempt
  split <;> rename_i hrun <;> rw [hrun]

theorem Reached.next (h : Reached env s₀ pre s) (hvalid : c.Valid env.toSmsgEnv)
    (hstore : c.store env s = (.ok (), t)) :
    Reached env s₀ (pre ++ [c]) (attempt (secureMsgScanMessage env c.buf c.p c.psmsg.nPayload) t).2 := by
  have hgrown := h.toGrown.store hvalid hstore
  have honward := store_onward hvalid s
  have hquiet := scan_quiet env hvalid.bounds.1 t
  rw [hstore] at honward
  rw [attempt_snd]
  obtain ⟨i, hi⟩ := h.clock
  obtain ⟨j, hj⟩ := honward.clock
  obtain ⟨k, hk⟩ := hquiet.clock
  refine ⟨⟨fun time => ?_, fun time => ?_, hgrown.keys, hgrown.new⟩, fun l => ?_, k + j + i, fun l => ?_⟩
  · rw [fileAt, hquiet.files]
    exact hgrown.files time
  · rw [tokensOf, hquiet.buckets]
    exact hgrown.tokens time
  · have hcount : answersFor env (pre ++ [c]).length
        = (if env.fLocked then 1 else 0) + 1 + answersFor env pre.length := by
      rw [List.length_append, List.length_singleton]
      unfold answersFor
      split_ifs <;> omega
    rw [hquiet.disk, hcount]
    show t.disk (l + if env.fLocked then 1 else 0) = _
    rw [honward.disk]
    show s.disk (l + (if env.fLocked then 1 else 0) + 1) = _
    rw [h.disk]
    exact congrArg s₀.disk (by omega)
  · rw [hk]
    show t.clock (l + k) = _
    rw [hj]
    show s.clock (l + k + j) = _
    rw [hi]
    exact congrArg s₀.clock (by omega)

theorem receiveBunch_goesIn (h : Reached env s₀ pre s) (hgoes : GoesIn env s₀ pre ⟨vchData, n, false⟩)
    (hsteady : ∀ i, InWindow (s₀.clock i) ⟨vchData, n, false⟩ ↔ InWindow (s₀.clock 0) ⟨vchData, n, false⟩)
    (count : Nat) : ∃ t, Reached env s₀ (pre ++ [⟨vchData, n, false⟩])
        (attempt (secureMsgScanMessage env vchData n (headerAt vchData n).nPayload) t).2
      ∧ receiveBunch env pfrom vchData (count + 1) n s
        = (attempt (secureMsgScanMessage env vchData n (headerAt vchData n).nPayload) >>= fun _ =>
            receiveBunch env pfrom vchData count (n + smsgHdrLen + (headerAt vchData n).nPayload.toNat)) t := by
  have hvalid := hgoes.valid
  have hhdr : n + smsgHdrLen ≤ vchData.length := le_trans (Nat.le_add_right _ _) hvalid.bounds.1
  have hanswer := store_answer hvalid s
  cases hstore : StoreCall.store env ⟨vchData, n, false⟩ s with
  | mk r t =>
    rw [hstore] at hanswer
    cases hanswer with
    | refused hnot => exact absurd ((h.accepts_iff hvalid hsteady).mpr hgoes) hnot
    | taken =>
      refine ⟨t, h.next hvalid hstore, ?_⟩
      have hok : secureMsgValidate env.toSmsgEnv vchData n (headerAt vchData n).nPayload = .ok () := hvalid
      have hrun : secureMsgStore env vchData n (headerAt vchData n).nPayload false s = (.ok (), t) := hstore
      rw [receiveBunch_succ env pfrom hhdr, hok, hrun]

theorem receiveBunch_stops (h : Reached env s₀ pre s)
    (hin : n + smsgHdrLen + (headerAt vchData n).nPayload.toNat ≤ vchData.length)
    (hgoes : ¬GoesIn env s₀ pre ⟨vchData, n, false⟩)
    (hsteady : ∀ i, InWindow (s₀.clock i) ⟨vchData, n, false⟩ ↔ InWindow (s₀.clock 0) ⟨vchData, n, false⟩)
    (count : Nat) : ∃ t, receiveBunch env pfrom vchData (count + 1) n s = (.ok (), t) ∧ Torn s t := by
  have hhdr : n + smsgHdrLen ≤ vchData.length := le_trans (Nat.le_add_right _ _) hin
  have hvalidate := secureMsgValidate_inside env hhdr fun _ => hin
  cases hvalid : secureMsgValidate env.toSmsgEnv vchData n (headerAt vchData n).nPayload with
  | error e =>
    rw [hvalid] at hvalidate
    cases e with
    | rv rv =>
      obtain ⟨t, hrun, hbuckets, hfiles⟩ := receiveBunch_of_invalid env pfrom hhdr hvalid (count + 1) s
      exact ⟨t, hrun, .of_eq (fun time => by rw [tokensOf, tokensOf, hbuckets]) hfiles⟩
    | outOfBounds => exact hvalidate.elim
    | undefined what => exact hvalidate.elim
  | ok _ =>
    have hcall : StoreCall.Valid env.toSmsgEnv ⟨vchData, n, false⟩ := hvalid
    have hanswer := store_answer hcall s
    cases hstore : StoreCall.store env ⟨vchData, n, false⟩ s with
    | mk r t =>
      rw [hstore] at hanswer
      cases hanswer with
      | taken haccepts => exact absurd ((h.accepts_iff hcall hsteady).mp haccepts) hgoes
      | refused _ htorn =>
        have hrun : secureMsgStore env vchData n (headerAt vchData n).nPayload false s = (.error (.rv 1), t) := hstore
        refine ⟨t, ?_, htorn⟩
        rw [receiveBunch_succ env pfrom hhdr, hvalid, hrun]

theorem Torn.refl (s : SmsgNode) : Torn s s := .of_eq (fun _ => rfl) rfl

/-- **The loop** where the messages that go in can be scanned: it stores these. By induction on the rounds. -/
theorem receiveBunch_stores (hlz4 : env.Lz4Safe) (pfrom : NodeId) (count : Nat) (h : Reached env s₀ pre s)
    (hin : ∀ c ∈ bunchCalls vchData count n, c.p + smsgHdrLen + c.psmsg.nPayload.toNat ≤ c.buf.length)
    (hsteady : Steady s₀ (bunchCalls vchData count n))
    (hscan : ∀ c ∈ firstIn env s₀ pre (bunchCalls vchData count n), ScanInside env c.buf c.p) :
    ∃ u t, receiveBunch env pfrom vchData count n s = (.ok (), t)
      ∧ Grown s₀ (pre ++ firstIn env s₀ pre (bunchCalls vchData count n)) u ∧ Torn u t := by
  induction count generalizing n pre s with
  | zero =>
    refine ⟨s, s, rfl, ?_, .refl s⟩
    rw [bunchCalls, firstIn, List.append_nil]
    exact h.toGrown
  | succ count ih =>
    have hfirst := hin _ List.mem_cons_self
    have hwindow := hsteady _ List.mem_cons_self
    rw [bunchCalls, firstIn] at hscan ⊢
    by_cases hgoes : GoesIn env s₀ pre ⟨vchData, n, false⟩
    · rw [if_pos hgoes] at hscan ⊢
      obtain ⟨t, hnext, hrun⟩ := receiveBunch_goesIn h hgoes hwindow count
      obtain ⟨o, hscanned, -⟩ := attempt_run (secureMsgScanMessage_ends (m := t.smsgBuckets) hlz4 hgoes.valid.bounds.1
        hgoes.valid.bounds.2 (hscan _ List.mem_cons_self)) rfl
      obtain ⟨u, t', hrest, hgrown, htorn⟩ := ih hnext (fun c hc => hin c (List.mem_cons_of_mem _ hc))
        (fun c hc => hsteady c (List.mem_cons_of_mem _ hc)) fun c hc => hscan c (List.mem_cons_of_mem _ hc)
      refine ⟨u, t', ?_, ?_, htorn⟩
      · rw [hrun]
        exact (Exec.bind_of_ok hscanned _).trans hrest
      · rw [List.append_assoc] at hgrown
        exact hgrown
    · rw [if_neg hgoes] at hscan ⊢
      obtain ⟨t, hrun, htorn⟩ := receiveBunch_stops h hfirst hgoes hwindow count
      rw [List.append_nil]
      exact ⟨s, t, hrun, h.toGrown, htorn⟩

theorem receiveBunch_leaves (hlz4 : env.Lz4Safe) (pfrom : NodeId) (count : Nat) (h : Reached env s₀ pre s)
    (hsteady : Steady s₀ (bunchCalls vchData count n))
    (hscan : ¬∀ c ∈ firstIn env s₀ pre (bunchCalls vchData count n), ScanInside env c.buf c.p) :
    (receiveBunch env pfrom vchData count n s).1 = .error .outOfBounds := by
  induction count generalizing n pre s with
  | zero => exact absurd (fun _ hc => nomatch hc) hscan
  | succ count ih =>
    have hwindow := hsteady _ List.mem_cons_self
    rw [bunchCalls, firstIn] at hscan
    by_cases hgoes : GoesIn env s₀ pre ⟨vchData, n, false⟩
    · rw [if_pos hgoes] at hscan
      obtain ⟨t, hnext, hrun⟩ := receiveBunch_goesIn h hgoes hwindow count
      rw [hrun]
      by_cases hfirst : ScanInside env vchData n
      · obtain ⟨o, hscanned, -⟩ := attempt_run (secureMsgScanMessage_ends (m := t.smsgBuckets) hlz4
          hgoes.valid.bounds.1 hgoes.valid.bounds.2 hfirst) rfl
        refine (congrArg Prod.fst (Exec.bind_of_ok hscanned _)).trans ?_
        refine ih hnext (fun c hc => hsteady c (List.mem_cons_of_mem _ hc)) fun hrest => hscan fun c hc => ?_
        rcases List.mem_cons.mp hc with rfl | hc
        · exact hfirst
        · exact hrest c hc
      · have hfault := secureMsgScanMessage_outside hlz4 hgoes.valid.bounds.1 hfirst t
        exact congrArg Prod.fst (Exec.bind_of_error (attempt_of_fault (Exec.eq_of_fst hfault)) _)
    · rw [if_neg hgoes] at hscan
      exact absurd (fun _ hc => nomatch hc) hscan

end Loop

section Whole

variable {env : StoreEnv} {pfrom : NodeId} {vchData : Bytes} {s t : SmsgNode}

theorem Torn.trans {u : SmsgNode} (h : Torn s t) (h' : Torn t u) : Torn s u := by
  refine ⟨fun time => (h'.tokens time).trans (h.tokens time), fun time => ?_⟩
  obtain ⟨extra, hextra⟩ := h.files time
  obtain ⟨extra', hextra'⟩ := h'.files time
  exact ⟨extra ++ extra', by rw [hextra', hextra, List.append_assoc]⟩

theorem tokensOf_updateBucket {f : SecMsgBucket → SecMsgBucket} (hf : ∀ b, (f b).setTokens = b.setTokens)
    (s : SmsgNode) (bktTime time : Int) : tokensOf (s.updateBucket bktTime f) time = tokensOf s time := by
  rw [tokensOf, tokensOf, updateBucket_find?]
  split_ifs with ht
  · rw [ht]
    cases s.smsgBuckets.find? bktTime with
    | none => rfl
    | some b => exact hf b
  · rfl

theorem frame_releaseBucket (env : StoreEnv) (bktTime : Int) : Exec.Frame Torn (releaseBucket env bktTime) := by
  have htrans : ∀ a b c, Torn a b → Torn b c → Torn a c := fun _ _ _ => .trans
  refine Exec.Frame.bind htrans (Exec.Frame.read .refl) fun s => ?_
  refine Exec.Frame.bind htrans (Exec.Frame.lift .refl _) fun _ => ?_
  refine Exec.Frame.bind htrans (Exec.Frame.update fun s => ?_) fun _ => ?_
  · refine .of_eq (fun time => ?_) (updateBucket_files _)
    exact tokensOf_updateBucket (by exact fun _ => rfl) s bktTime time
  · refine Exec.Frame.bind htrans (fun s => .of_eq (fun _ => rfl) rfl) fun now => Exec.Frame.update fun s => ?_
    refine .of_eq (fun time => ?_) (updateBucket_files _)
    exact tokensOf_updateBucket (by exact fun _ => rfl) s bktTime time

theorem firstIn_valid : ∀ c ∈ firstIn env s pre cs, c.Valid env.toSmsgEnv := by
  induction cs generalizing pre with
  | nil => exact fun _ hc => nomatch hc
  | cons d cs ih =>
    intro c hc
    rw [firstIn] at hc
    split_ifs at hc with hgoes
    · rcases List.mem_cons.mp hc with rfl | hc
      · exact hgoes.valid
      · exact ih c hc
    · exact nomatch hc

theorem firstIn_ticked (hsteady : Steady s cs) : firstIn env s.ticked pre cs = firstIn env s pre cs := by
  induction cs generalizing pre with
  | nil => rfl
  | cons c cs ih =>
    have hwindow : InWindow (s.ticked.clock 0) c ↔ InWindow (s.clock 0) c := hsteady c List.mem_cons_self 1
    have hgoes : GoesIn env s.ticked pre c ↔ GoesIn env s pre c :=
      ⟨fun h => ⟨h.valid, hwindow.mp h.window, h.new, h.other, h.disk⟩,
        fun h => ⟨h.valid, hwindow.mpr h.window, h.new, h.other, h.disk⟩⟩
    rw [firstIn, firstIn, ih fun d hd => hsteady d (List.mem_cons_of_mem c hd)]
    by_cases hin : GoesIn env s pre c
    · rw [if_pos hin, if_pos (hgoes.mpr hin)]
    · rw [if_neg hin, if_neg fun h => hin (hgoes.mp h)]

/-- **Bunches.** Where the file system and the clock are what they may be: every valid message of a bunch that is in the
window is in the store after the call, if nothing but messages that are there already stand behind the first ones that
go in; and only then, if every token of the store led to a record. -/
theorem secureMsgReceive_stores_iff (hlz4 : env.Lz4Safe) (pfrom : NodeId) (h : BunchLaidOut vchData (s.clock 0))
    (hsteady : Steady s (bunchMessages vchData)) : (NothingBehind env vchData s → BunchStored env pfrom vchData s) ∧
    (Whole s → BunchStored env pfrom vchData s → NothingBehind env vchData s) := by
  have hcount : ¬(bunchSize vchData = 0 ∨ bunchSize vchData > 500) := fun hbad =>
    hbad.elim h.some (UInt32.not_lt.mpr h.few)
  have hreceive : secureMsgReceive env pfrom vchData s = (do
      receiveBunch env pfrom vchData (bunchSize vchData).toNat 12
      releaseBucket env (bunchTime vchData)) s.ticked := by
    rw [secureMsgReceive_accepted h.toBunchAccepted, if_neg hcount]
  have hsteady' : Steady s.ticked (bunchMessages vchData) := fun c hc i =>
    (hsteady c hc (i + 1)).trans (hsteady c hc 1).symm
  have hfirst : firstIn env s.ticked [] (bunchMessages vchData) = firstIn env s [] (bunchMessages vchData) :=
    firstIn_ticked hsteady
  by_cases hscan : ∀ c ∈ firstIn env s [] (bunchMessages vchData), ScanInside env c.buf c.p
  · obtain ⟨u, t, hrun, hgrown, htorn⟩ := receiveBunch_stores hlz4 pfrom _ (Reached.nil env s.ticked) h.inside hsteady'
      (by rw [← hfirst] at hscan; exact hscan)
    have hgrown : Grown s.ticked (firstIn env s [] (bunchMessages vchData)) u := hfirst ▸ hgrown
    have hend : Torn u (releaseBucket env (bunchTime vchData) t).2 := htorn.trans (frame_releaseBucket env _ t)
    rw [Exec.bind_of_ok hrun] at hreceive
    constructor
    · intro hnothing
      refine ⟨_, _, hreceive, releaseBucket_ends env _ t, fun c hc hvalid hwindow => ?_⟩
      exact hgrown.holds hend firstIn_valid hvalid (hnothing.behind c hc hvalid hwindow)
    · rintro hwhole ⟨r, t', hrun', -, hstored⟩
      have ht' : (releaseBucket env (bunchTime vchData) t).2 = t' := congrArg Prod.snd (hreceive.symm.trans hrun')
      refine ⟨hscan, fun c hc hvalid hwindow => ?_⟩
      exact hgrown.of_holds (ht' ▸ hend) firstIn_valid hwhole (hstored c hc hvalid hwindow)
  · have hfault := receiveBunch_leaves hlz4 pfrom (bunchSize vchData).toNat (n := 12) (Reached.nil env s.ticked)
      hsteady' (by rw [← hfirst] at hscan; exact hscan)
    rw [Exec.bind_of_error (Exec.eq_of_fst hfault)] at hreceive
    constructor
    · exact fun hnothing => absurd hnothing.scan hscan
    · rintro - ⟨r, t, hrun, hreturn, -⟩
      exact absurd (congrArg Prod.fst (hrun.symm.trans hreceive)) hreturn

end Whole

namespace Sample

def spoiledBunch : Bytes := ofUInt32 2 ++ LittleEndian.ofInt 8 1699999800 ++ (List.replicate 104 0 ++ greetingBytes)

theorem bunchMessages_two {vchData : Bytes} {ofs : Nat} (hsize : (bunchSize vchData).toNat = 2)
    (hsecond : 12 + smsgHdrLen + (headerAt vchData 12).nPayload.toNat = ofs) :
    bunchMessages vchData = [⟨vchData, 12, false⟩, ⟨vchData, ofs, false⟩] := by
  rw [bunchMessages, hsize, bunchCalls, hsecond]
  rfl

/-- The greeting is valid and in the window, and it is not in the store after the call. -/
theorem secureMsgReceive_skips : BunchLaidOut spoiledBunch (emptyNode.clock 0) ∧
    StoreCall.Valid storeEnv.toSmsgEnv ⟨spoiledBunch, 116, false⟩ ∧
    ⟨spoiledBunch, 116, false⟩ ∈ bunchMessages spoiledBunch ∧
    InWindow (emptyNode.clock 0) ⟨spoiledBunch, 116, false⟩ ∧ ¬BunchStored storeEnv 7 spoiledBunch emptyNode := by
  have hvalid : StoreCall.Valid storeEnv.toSmsgEnv ⟨spoiledBunch, 116, false⟩ := by
    unfold StoreCall.Valid
    decide +kernel
  have hwindow : InWindow (emptyNode.clock 0) ⟨spoiledBunch, 116, false⟩ := by
    unfold InWindow
    decide +kernel
  have hmessages : bunchMessages spoiledBunch = [⟨spoiledBunch, 12, false⟩, ⟨spoiledBunch, 116, false⟩] :=
    bunchMessages_two (by decide +kernel) (by decide +kernel)
  have hmem : ⟨spoiledBunch, 116, false⟩ ∈ bunchMessages spoiledBunch := by rw [hmessages]; simp
  have hnone : (secureMsgReceive storeEnv 7 spoiledBunch emptyNode).2.smsgBuckets.entries = [] := by decide +kernel
  refine ⟨⟨⟨by decide +kernel, by decide +kernel, by decide +kernel⟩, by decide +kernel, by decide +kernel, ?_⟩, hvalid,
    hmem, hwindow, ?_⟩
  · rw [hmessages]
    intro c hc
    rcases List.mem_cons.mp hc with rfl | hc
    · decide +kernel
    · rw [List.mem_singleton.mp hc]
      exact hvalid.bounds.1
  · rintro ⟨r, t, hrun, -, hstored⟩
    obtain ⟨ofs, hfound, -⟩ := holds_iff.1 (hstored _ hmem hvalid hwindow)
    have hentries : t.smsgBuckets.entries = [] := by rw [hrun] at hnone; exact hnone
    have hbucket : ∀ time, t.smsgBuckets.find? time = none := fun time =>
      OrderedMap.find?_eq_none_iff.mpr fun b hb => by rw [hentries] at hb; exact nomatch hb
    rw [tokensOf, hbucket] at hfound
    exact nomatch hfound

theorem greetingBunch_messages :
    bunchMessages greetingBunch = [⟨greetingBunch, 12, false⟩, ⟨greetingBunch, 132, false⟩] :=
  bunchMessages_two (by decide +kernel) (by decide +kernel)

theorem greetingBunch_goesIn : GoesIn storeEnv emptyNode [] ⟨greetingBunch, 12, false⟩ ∧
    GoesIn storeEnv emptyNode [⟨greetingBunch, 12, false⟩] ⟨greetingBunch, 132, false⟩ := by
  have hvalid : ∀ p ∈ [12, 132], StoreCall.Valid storeEnv.toSmsgEnv ⟨greetingBunch, p, false⟩ := by
    unfold StoreCall.Valid
    decide +kernel
  have hwindow : ∀ p ∈ [12, 132], InWindow (emptyNode.clock 0) ⟨greetingBunch, p, false⟩ := by
    unfold InWindow
    decide +kernel
  refine ⟨⟨hvalid 12 (by decide), hwindow 12 (by decide), rfl, fun _ hd => (nomatch hd), rfl⟩,
    ⟨hvalid 132 (by decide), hwindow 132 (by decide), rfl, fun d hd => ?_, rfl⟩⟩
  rw [List.mem_singleton.mp hd]
  decide +kernel

/-- Two messages, one behind the other. -/
theorem greetingBunch_stored : BunchStored storeEnv 7 greetingBunch emptyNode ∧
    NothingBehind storeEnv greetingBunch emptyNode := by
  obtain ⟨hgreeting, hletter⟩ := greetingBunch_goesIn
  have hlaid : BunchLaidOut greetingBunch (emptyNode.clock 0) := by
    refine ⟨⟨by decide +kernel, by decide +kernel, by decide +kernel⟩, by decide +kernel, by decide +kernel, ?_⟩
    rw [greetingBunch_messages]
    intro c hc
    rcases List.mem_pair.mp hc with rfl | rfl
    · exact hgreeting.valid.bounds.1
    · exact hletter.valid.bounds.1
  have hfirst : firstIn storeEnv emptyNode [] (bunchMessages greetingBunch) = bunchMessages greetingBunch := by
    rw [greetingBunch_messages, firstIn, if_pos hgreeting, List.nil_append, firstIn, if_pos hletter]
    rfl
  have hnothing : NothingBehind storeEnv greetingBunch emptyNode := by
    refine ⟨fun c hc _ => ⟨trivial, fun s addressTo hfound => (nomatch hfound)⟩, fun c hc _ _ => Or.inr ?_⟩
    rw [hfirst]
    exact ⟨c, hc, rfl⟩
  have hwhole : Whole emptyNode := fun key ofs hfound => nomatch hfound
  obtain ⟨henough, hneeded⟩ := secureMsgReceive_stores_iff storeEnv_lz4Safe 7 hlaid fun _ _ _ => Iff.rfl
  exact ⟨henough hnothing, hneeded hwhole (henough hnothing)⟩

end Sample

end PupaCoin.Smsg
