import PupaCoin.Smsg.Store
import PupaCoin.Smsg.Proofs.CryptProofs

/-!
# The message store keeps what is put into it

`Kept` says what the files and the buckets are after a sequence of messages has been stored: a file is the messages of
its bucket one behind the other, and the tokens of the bucket say where each of them begins.
-/

namespace PupaCoin.Smsg

variable {ofs : Int} {cs : List StoreCall}

namespace TokenSet

variable {tokenSet : TokenSet} {key key' : TokenKey} {offset : Int}

theorem isSome_find?_insert_self : ((tokenSet.insert key offset).find? key).isSome = true := by
  unfold TokenSet.insert
  split_ifs with h
  · exact h
  · rw [OrderedMap.find?_set_self]
    rfl

theorem find?_insert_of_ne (h : key' ≠ key) : (tokenSet.insert key offset).find? key' = tokenSet.find? key' := by
  unfold TokenSet.insert
  split_ifs
  · rfl
  · exact OrderedMap.find?_set_of_ne _ _ h

theorem find?_insert {offset' : Int} (h : (tokenSet.insert key offset).find? key' = some offset') :
    tokenSet.find? key' = some offset' ∨ key' = key ∧ offset' = offset := by
  by_cases heq : key' = key
  · subst heq
    unfold TokenSet.insert at h
    split_ifs at h
    · exact Or.inl h
    · rw [OrderedMap.find?_set_self] at h
      exact Or.inr ⟨rfl, (Option.some.inj h).symm⟩
  · rw [find?_insert_of_ne heq] at h
    exact Or.inl h

theorem isSome_find?_insert (h : (tokenSet.find? key').isSome = true) :
    ((tokenSet.insert key offset).find? key').isSome = true := by
  by_cases heq : key' = key
  · rw [heq]
    exact isSome_find?_insert_self
  · rwa [find?_insert_of_ne heq]

end TokenSet

section Buckets

variable {s s' : SmsgNode} {time t : Int}

@[simp] theorem updateBucket_files (f : SecMsgBucket → SecMsgBucket) : (s.updateBucket time f).files = s.files := by
  unfold SmsgNode.updateBucket
  split <;> rfl

theorem updateBucket_find? (f : SecMsgBucket → SecMsgBucket) : (s.updateBucket time f).smsgBuckets.find? t
    = if t = time then (s.smsgBuckets.find? time).map f else s.smsgBuckets.find? t := by
  unfold SmsgNode.updateBucket
  cases h : s.smsgBuckets.find? time with
  | none =>
    split_ifs with ht
    · rw [ht]
      exact h
    · rfl
  | some bucket =>
    split_ifs with ht
    · rw [ht]
      exact OrderedMap.find?_set_self ..
    · exact OrderedMap.find?_set_of_ne _ _ ht

theorem subscript_apply (s : SmsgNode) (time : Int) :
    ∃ s', subscript time s = (.ok ((s.smsgBuckets.find? time).getD {}), s')
    ∧ s'.files = s.files ∧ s'.clock = s.clock ∧ s'.smsgBuckets.find? time = some ((s.smsgBuckets.find? time).getD {})
    ∧ ∀ t, t ≠ time → s'.smsgBuckets.find? t = s.smsgBuckets.find? t := by
  unfold subscript
  cases h : s.smsgBuckets.find? time with
  | none =>
    exact ⟨_, rfl, rfl, rfl, OrderedMap.find?_set_self .., fun t ht => OrderedMap.find?_set_of_ne _ _ ht⟩
  | some bucket => exact ⟨s, rfl, rfl, rfl, h, fun t _ => rfl⟩

end Buckets

namespace StoreCall

variable {env : StoreEnv} {c : StoreCall}

theorem Valid.bounds (h : c.Valid env.toSmsgEnv) : c.p + smsgHdrLen + c.psmsg.nPayload.toNat ≤ c.buf.length
    ∧ c.psmsg.nPayload.toNat ≤ smsgMaxMsgWorst := by
  unfold Valid secureMsgValidate at h
  simp only [Guards.bind_eq_ok, readAt_eq_ok, returnIf_eq_ok] at h
  obtain ⟨pHeader, -, -, -, -, hsize, pPayload, ⟨hin, -⟩, -⟩ := h
  exact ⟨hin, by simpa using hsize⟩

theorem Valid.length_header (h : c.Valid env.toSmsgEnv) : c.header.length = smsgHdrLen := by
  have := h.bounds.1
  simp only [header, List.length_take, List.length_drop]
  omega

theorem Valid.length_payload (h : c.Valid env.toSmsgEnv) : c.payload.length = c.psmsg.nPayload.toNat := by
  have := h.bounds.1
  simp only [payload, List.length_take, List.length_drop]
  omega

theorem Valid.readHeader (h : c.Valid env.toSmsgEnv) : readAt c.buf c.p smsgHdrLen = .ok c.header := by
  have := h.bounds.1
  exact readAt_eq_ok.mpr ⟨by omega, rfl⟩

theorem Valid.readPayload (h : c.Valid env.toSmsgEnv) :
    readAt c.buf (c.p + smsgHdrLen) c.psmsg.nPayload.toNat = .ok c.payload :=
  readAt_eq_ok.mpr ⟨h.bounds.1, rfl⟩

theorem Valid.tokenSample (h : c.Valid env.toSmsgEnv) :
    tokenSample c.buf (c.p + smsgHdrLen) (asInt c.psmsg.nPayload) = .ok (ofLex c.key).2 := by
  obtain ⟨hin, hmax⟩ := h.bounds
  have hsize := h.length_payload
  have hworst : smsgMaxMsgWorst = 4218 := rfl
  unfold Smsg.tokenSample
  rw [asInt_eq (by omega)]
  change _ = Except.ok (Sample.ofBytes (if c.payload.length < 8 then List.replicate 8 0 else c.payload.take 8))
  by_cases hshort : c.psmsg.nPayload.toNat < 8
  · rw [if_pos (by omega), if_pos (by omega)]
    rfl
  · have hread : readAt c.buf (c.p + smsgHdrLen) 8 = .ok (c.payload.take 8) := by
      rw [readAt_eq_ok]
      refine ⟨by omega, ?_⟩
      rw [payload, List.take_take, min_eq_left (by omega)]
    rw [if_neg (by omega), if_neg (by omega), hread]
    rfl

end StoreCall

section Store

variable {env : StoreEnv} {s s' : SmsgNode} {c : StoreCall}

theorem hashBucket_apply (env : StoreEnv) (s : SmsgNode) (time : Int) :
    ∃ s', hashBucket env time s = (.ok (), s') ∧ s'.files = s.files
    ∧ ∀ t, s'.smsgBuckets.find? t = if t = time then (s.smsgBuckets.find? time).map fun bucket =>
        { bucket with timeChanged := s.clock 0, hash := env.xxh32 bucket.setTokens.samples }
      else s.smsgBuckets.find? t :=
  ⟨_, rfl, updateBucket_files _, fun _ => updateBucket_find? _⟩

theorem appendRecord_returns {outcome : DiskOutcome} {bucket : Int} {record : Except Stop Bytes}
    (h : appendRecord outcome bucket record s = (.ok ofs, s')) :
    ∃ bytes, record = .ok bytes ∧ ofs = ((s.files.find? bucket).getD []).length
      ∧ s' = { s with files := s.files.set bucket ((s.files.find? bucket).getD [] ++ bytes) } := by
  cases outcome with
  | ok =>
    cases record with
    | error e => exact nomatch (Prod.mk.inj h).1
    | ok bytes =>
      obtain ⟨hofs, hs⟩ := Prod.mk.inj h
      exact ⟨bytes, rfl, (Except.ok.inj hofs).symm, hs.symm⟩
  | torn k => cases record <;> exact nomatch (Prod.mk.inj h).1
  | noDirectory => exact nomatch (Prod.mk.inj h).1
  | noFile => exact nomatch (Prod.mk.inj h).1
  | noSeek => exact nomatch (Prod.mk.inj h).1

theorem store_returns (hvalid : c.Valid env.toSmsgEnv) (h : c.store env s = (.ok (), s')) :
    ∃ b b', b = (s.smsgBuckets.find? c.bucket).getD {} ∧ b.setTokens.find? c.key = none
      ∧ b'.setTokens = TokenSet.insert b.setTokens c.key ((s.files.find? c.bucket).getD []).length
      ∧ b'.hash = (if c.fUpdateBucket then env.xxh32 b'.setTokens.samples else b.hash)
      ∧ s'.files = s.files.set c.bucket ((s.files.find? c.bucket).getD [] ++ c.bytes)
      ∧ ∀ t, s'.smsgBuckets.find? t = if t = c.bucket then some b' else s.smsgBuckets.find? t := by
  unfold StoreCall.store secureMsgStore at h
  rw [hvalid.readHeader] at h
  obtain ⟨_, _, hheader, h⟩ := Exec.bind_returns.mp h
  obtain ⟨hread, rfl⟩ := Exec.liftM_returns.mp hheader
  obtain rfl := Except.ok.inj hread
  obtain ⟨outcome, s1, houtcome, h⟩ := Exec.bind_returns.mp h
  obtain ⟨-, rfl⟩ := Prod.mk.inj houtcome
  obtain ⟨_, _, hdirectory, h⟩ := Exec.bind_returns.mp h
  obtain ⟨-, rfl⟩ := Exec.liftM_returns.mp hdirectory
  obtain ⟨now, s2, hnow, h⟩ := Exec.bind_returns.mp h
  obtain ⟨-, rfl⟩ := Prod.mk.inj hnow
  obtain ⟨_, _, hfuture, h⟩ := Exec.bind_returns.mp h
  obtain ⟨-, rfl⟩ := Exec.liftM_returns.mp hfuture
  obtain ⟨_, _, hpast, h⟩ := Exec.bind_returns.mp h
  obtain ⟨-, rfl⟩ := Exec.liftM_returns.mp hpast
  obtain ⟨_, _, hsample, h⟩ := Exec.bind_returns.mp h
  obtain ⟨hread, rfl⟩ := Exec.liftM_returns.mp hsample
  obtain rfl := Except.ok.inj (hvalid.tokenSample.symm.trans hread)
  -- the bucket and its new token
  obtain ⟨b, s3, hbucket, h⟩ := Exec.bind_returns.mp h
  obtain ⟨s3', hsubscript, hfiles, -, hfound, hothers⟩ := subscript_apply
    { s with disk := fun i => s.disk (i + 1), clock := fun i => s.clock (i + 1) } c.bucket
  obtain ⟨hb, rfl⟩ := Prod.mk.inj (hsubscript.symm.trans hbucket)
  obtain rfl := Except.ok.inj hb
  obtain ⟨_, _, hnew, h⟩ := Exec.bind_returns.mp h
  obtain ⟨hunknown, rfl⟩ := Exec.liftM_returns.mp hnew
  have habsent : (((s.smsgBuckets.find? c.bucket).getD {}).setTokens.find? c.key).isSome = false :=
    returnIf_eq_ok.mp hunknown
  have hnone : ((s.smsgBuckets.find? c.bucket).getD {}).setTokens.find? c.key = none := by simpa using habsent
  obtain ⟨ofs, s4, happend, h⟩ := Exec.bind_returns.mp h
  obtain ⟨bytes, hbytes, hofs, hs4⟩ := appendRecord_returns happend
  rw [hvalid.readPayload, Guards.ok_bind] at hbytes
  obtain rfl := Except.ok.inj hbytes
  obtain ⟨_, s5, hinsert, h⟩ := Exec.bind_returns.mp h
  obtain ⟨-, hs5⟩ := Prod.mk.inj hinsert
  have hfiles5 : s5.files = s.files.set c.bucket ((s.files.find? c.bucket).getD [] ++ c.bytes) := by
    rw [← hs5, updateBucket_files, hs4]
    change s3'.files.set c.bucket ((s3'.files.find? c.bucket).getD [] ++ c.bytes) = _
    rw [hfiles]
  let inserted : SecMsgBucket :=
    { (s.smsgBuckets.find? c.bucket).getD {} with
      setTokens := ((s.smsgBuckets.find? c.bucket).getD {}).setTokens.insert c.key
        ((s.files.find? c.bucket).getD []).length }
  have hbuckets5 : ∀ t, s5.smsgBuckets.find? t
      = if t = c.bucket then some inserted else s.smsgBuckets.find? t := by
    intro t
    rw [← hs5, updateBucket_find?, hs4, hofs]
    change (if t = c.bucket then (s3'.smsgBuckets.find? c.bucket).map _ else s3'.smsgBuckets.find? t) = _
    rw [hfound, hfiles]
    split_ifs with ht
    · rfl
    · exact hothers t ht
  cases hupdate : c.fUpdateBucket with
  | false =>
    rw [hupdate] at h
    obtain ⟨-, rfl⟩ := Prod.mk.inj h
    exact ⟨_, inserted, rfl, hnone, rfl, rfl, hfiles5, hbuckets5⟩
  | true =>
    rw [hupdate] at h
    obtain ⟨s6, hhash, hfiles6, hbuckets6⟩ := hashBucket_apply env s5 c.bucket
    obtain ⟨-, rfl⟩ := Prod.mk.inj (hhash.symm.trans h)
    refine ⟨_, { inserted with timeChanged := s5.clock 0, hash := env.xxh32 inserted.setTokens.samples }, rfl,
      hnone, rfl, rfl, hfiles6.trans hfiles5, fun t => ?_⟩
    rw [hbuckets6, hbuckets5, if_pos rfl]
    split_ifs with ht
    · rfl
    · rw [hbuckets5, if_neg ht]

end Store

def fileOf (cs : List StoreCall) : Bytes := cs.flatMap StoreCall.bytes

/-- The tokens of messages that stand one behind the other from `ofs` on. -/
def tokensFrom : Nat → List StoreCall → TokenSet → TokenSet
  | _, [], tokenSet => tokenSet
  | ofs, c :: cs, tokenSet => tokensFrom (ofs + c.bytes.length) cs (tokenSet.insert c.key ofs)

section Sequences

variable {cs pre post : List StoreCall} {c : StoreCall} {tokenSet : TokenSet} {ofs : Nat} {key : TokenKey} {t : Int}

theorem inBucket_concat : inBucket t (cs ++ [c]) = if c.bucket = t then inBucket t cs ++ [c] else inBucket t cs := by
  unfold inBucket
  rw [List.filter_append]
  split_ifs with h <;> simp [h]

theorem fileOf_append : fileOf (pre ++ post) = fileOf pre ++ fileOf post := List.flatMap_append

theorem tokensFrom_concat : tokensFrom ofs (cs ++ [c]) tokenSet
    = (tokensFrom ofs cs tokenSet).insert c.key (ofs + (fileOf cs).length : Nat) := by
  induction cs generalizing ofs tokenSet with
  | nil => rfl
  | cons d cs ih =>
    have hlength : ofs + d.bytes.length + (fileOf cs).length = ofs + (fileOf (d :: cs)).length := by
      rw [show fileOf (d :: cs) = d.bytes ++ fileOf cs from rfl, List.length_append]
      omega
    rw [List.cons_append, tokensFrom, tokensFrom, ih, hlength]

theorem isSome_find?_tokensFrom (h : (tokenSet.find? key).isSome = true) :
    ((tokensFrom ofs cs tokenSet).find? key).isSome = true := by
  induction cs generalizing ofs tokenSet with
  | nil => exact h
  | cons d cs ih => exact ih (TokenSet.isSome_find?_insert h)

theorem isSome_find?_tokensFrom_of_mem (h : c ∈ cs) (ofs : Nat) (tokenSet : TokenSet) :
    ((tokensFrom ofs cs tokenSet).find? c.key).isSome = true := by
  induction cs generalizing ofs tokenSet with
  | nil => exact absurd h List.not_mem_nil
  | cons d cs ih =>
    rcases List.mem_cons.mp h with rfl | hmem
    · rw [tokensFrom]
      exact isSome_find?_tokensFrom TokenSet.isSome_find?_insert_self
    · exact ih hmem _ _

theorem find?_tokensFrom {offset : Int} (h : (tokensFrom ofs cs tokenSet).find? key = some offset) :
    tokenSet.find? key = some offset ∨
      ∃ pre c post, cs = pre ++ c :: post ∧ key = c.key ∧ offset = (ofs + (fileOf pre).length : Nat) := by
  induction cs generalizing ofs tokenSet with
  | nil => exact Or.inl h
  | cons d cs ih =>
    rcases ih h with hbefore | ⟨pre, c, post, rfl, hkey, hofs⟩
    · rcases TokenSet.find?_insert hbefore with hold | ⟨hkey, hofs⟩
      · exact Or.inl hold
      · exact Or.inr ⟨[], d, cs, rfl, hkey, hofs⟩
    · refine Or.inr ⟨d :: pre, c, post, rfl, hkey, ?_⟩
      rw [hofs, show fileOf (d :: pre) = d.bytes ++ fileOf pre from rfl, List.length_append, Nat.add_assoc]

end Sequences

/-- What the files and the buckets are after the messages `cs` have been stored. -/
structure Kept (env : StoreEnv) (cs : List StoreCall) (s : SmsgNode) : Prop where
  file : ∀ t, s.files.find? t = if inBucket t cs = [] then none else some (fileOf (inBucket t cs))
  tokens : ∀ t, (s.smsgBuckets.find? t).map SecMsgBucket.setTokens
    = if inBucket t cs = [] then none else some (tokensFrom 0 (inBucket t cs) OrderedMap.empty)
  hash : ∀ t b c, s.smsgBuckets.find? t = some b → (inBucket t cs).getLast? = some c → c.fUpdateBucket = true →
    b.hash = env.xxh32 b.setTokens.samples
  keys : (cs.map StoreCall.key).Nodup

namespace Kept

variable {env : StoreEnv} {s s' : SmsgNode} {cs : List StoreCall} {c : StoreCall}

/-- What has been written to a file so far. -/
theorem file_getD (h : Kept env cs s) (t : Int) : (s.files.find? t).getD [] = fileOf (inBucket t cs) := by
  rw [h.file t]
  split_ifs with hnil
  · rw [hnil]
    rfl
  · rfl

/-- The tokens that a bucket has so far. -/
theorem tokens_getD (h : Kept env cs s) (t : Int) :
    ((s.smsgBuckets.find? t).getD {}).setTokens = tokensFrom 0 (inBucket t cs) OrderedMap.empty := by
  have htokens := h.tokens t
  by_cases hnil : inBucket t cs = []
  · rw [if_pos hnil] at htokens
    rw [Option.map_eq_none_iff.mp htokens, hnil]
    rfl
  · rw [if_neg hnil] at htokens
    obtain ⟨b, hfound, hset⟩ := Option.map_eq_some_iff.mp htokens
    rw [hfound]
    exact hset

theorem store (h : Kept env cs s) (hvalid : c.Valid env.toSmsgEnv) (hstore : c.store env s = (.ok (), s')) :
    Kept env (cs ++ [c]) s' := by
  obtain ⟨b, b', hb, hnew, htokens, hhash, hfiles, hbuckets⟩ := store_returns hvalid hstore
  have hset : b.setTokens = tokensFrom 0 (inBucket c.bucket cs) OrderedMap.empty := by rw [hb, h.tokens_getD]
  have hset' : b'.setTokens = tokensFrom 0 (inBucket c.bucket cs ++ [c]) OrderedMap.empty := by
    rw [htokens, hset, h.file_getD, tokensFrom_concat, Nat.zero_add]
  refine ⟨fun t => ?_, fun t => ?_, fun t b₁ d hfound hlast hupdate => ?_, ?_⟩
  · rw [hfiles, inBucket_concat, h.file_getD]
    by_cases ht : c.bucket = t
    · subst ht
      rw [OrderedMap.find?_set_self, if_pos rfl, if_neg (by simp), fileOf_append]
      simp [fileOf]
    · rw [OrderedMap.find?_set_of_ne _ _ (Ne.symm ht), if_neg ht]
      exact h.file t
  · rw [hbuckets, inBucket_concat]
    by_cases ht : c.bucket = t
    · subst ht
      rw [if_pos rfl, if_pos rfl, if_neg (by simp), Option.map_some, hset']
    · rw [if_neg (Ne.symm ht), if_neg ht]
      exact h.tokens t
  · rw [hbuckets] at hfound
    rw [inBucket_concat] at hlast
    by_cases ht : c.bucket = t
    · rw [if_pos ht, List.getLast?_concat] at hlast
      rw [if_pos ht.symm] at hfound
      obtain rfl := Option.some.inj hlast
      obtain rfl := Option.some.inj hfound
      rw [hhash, if_pos hupdate]
    · rw [if_neg ht] at hlast
      rw [if_neg (Ne.symm ht)] at hfound
      exact h.hash t b₁ d hfound hlast hupdate
  · rw [List.map_append, List.map_singleton, List.nodup_append]
    refine ⟨h.keys, List.nodup_singleton _, ?_⟩
    rintro key hkey _ hc rfl
    obtain rfl := List.mem_singleton.mp hc
    obtain ⟨d, hd, hdkey⟩ := List.mem_map.mp hkey
    have hbucket : d.bucket = c.bucket := congrArg (fun k : TokenKey => bucketOf (ofLex k).1) hdkey
    have hmem : d ∈ inBucket c.bucket cs := List.mem_filter.mpr ⟨hd, by simpa using hbucket⟩
    have hknown := isSome_find?_tokensFrom_of_mem hmem 0 OrderedMap.empty
    rw [hdkey, ← hset, hnew] at hknown
    cases hknown

theorem run (cs' : List StoreCall) (h : Kept env cs s) (hvalid : ∀ c ∈ cs', c.Valid env.toSmsgEnv)
    (hrun : cs'.forM (StoreCall.store env) s = (.ok (), s')) : Kept env (cs ++ cs') s' := by
  induction cs' generalizing cs s with
  | nil =>
    obtain ⟨-, rfl⟩ := Prod.mk.inj hrun
    rwa [List.append_nil]
  | cons c cs' ih =>
    obtain ⟨_, t, hstore, hrest⟩ := Exec.bind_returns.mp hrun
    have := ih (h.store (hvalid c List.mem_cons_self) hstore) (fun d hd => hvalid d (List.mem_cons_of_mem c hd)) hrest
    rwa [List.append_assoc] at this

end Kept

section Files

variable {env : StoreEnv} {s : SmsgNode} {c : StoreCall} {front rest : Bytes}

theorem StoreCall.Valid.header_at (h : c.Valid env.toSmsgEnv) (front rest : Bytes) :
    ((front ++ (c.bytes ++ rest)).drop front.length).take smsgHdrLen = c.header := by
  rw [List.drop_left, StoreCall.bytes, List.append_assoc, ← h.length_header, List.take_left]

theorem StoreCall.Valid.behind_header (h : c.Valid env.toSmsgEnv) :
    (front ++ (c.bytes ++ rest)).drop (front.length + smsgHdrLen) = c.payload ++ rest := by
  rw [← List.drop_drop, List.drop_left, StoreCall.bytes, List.append_assoc, ← h.length_header, List.drop_left]

theorem secureMsgRetrieve_eq (h : c.Valid env.toSmsgEnv)
    (hfile : s.files.find? c.bucket = some (front ++ (c.bytes ++ rest))) (vchData : Bytes) :
    secureMsgRetrieve s (c.key, front.length) vchData = .ok c.bytes := by
  have hheader := h.header_at front rest
  have hpayload : ((front ++ (c.bytes ++ rest)).drop (front.length + smsgHdrLen)).take c.psmsg.nPayload.toNat
      = c.payload := by rw [h.behind_header, ← h.length_payload, List.take_left]
  have hworst : smsgMaxMsgWorst = 4218 := rfl
  have hmax := h.bounds.2
  have hsize : (UInt32.ofNat smsgHdrLen + c.psmsg.nPayload).toNat = smsgHdrLen + c.psmsg.nPayload.toNat := by
    have hhdr : smsgHdrLen = 104 := rfl
    rw [UInt32.toNat_add, hhdr]
    simp only [UInt32.reduceOfNat, UInt32.reduceToNat]
    omega
  let buf := resize vchData (smsgHdrLen + c.psmsg.nPayload.toNat)
  have hbuf : buf.length = smsgHdrLen + c.psmsg.nPayload.toNat := by
    simp [buf, resize]
    omega
  have hparts : buf = [] ++ (buf.take smsgHdrLen ++ (buf.drop smsgHdrLen ++ [])) := by simp
  have hcopied : writeAt buf 0 c.header = .ok ([] ++ (c.header ++ (buf.drop smsgHdrLen ++ []))) := by
    rw [hparts]
    exact (writeAt_parts rfl (by simp [h.length_header, hbuf])).trans (by simp)
  have hread : writeAt (c.header ++ (buf.drop smsgHdrLen ++ [])) smsgHdrLen c.payload
      = .ok (c.header ++ (c.payload ++ [])) :=
    writeAt_parts h.length_header.symm (by simp [h.length_payload, hbuf])
  have hbucket : bucketOf (ofLex c.key).1 = c.bucket := rfl
  have hoffset : ((front.length : Int) < 0) = False := by simp
  unfold secureMsgRetrieve
  simp only [hbucket, hfile, orReturn_some, Guards.ok_bind, hoffset, decide_false, returnIf_false, Int.toNat_natCast,
    hheader, h.length_header, bne_self_eq_false]
  change (writeAt (resize vchData (UInt32.ofNat smsgHdrLen + c.psmsg.nPayload).toNat) 0 c.header >>= _) = _
  rw [hsize]
  change (writeAt buf 0 c.header >>= _) = _
  rw [hcopied, Guards.ok_bind, List.nil_append]
  change (writeAt _ _ (((front ++ (c.bytes ++ rest)).drop (front.length + smsgHdrLen)).take c.psmsg.nPayload.toNat)
    >>= fun vchData => (returnIf ((((front ++ (c.bytes ++ rest)).drop (front.length + smsgHdrLen)).take
      c.psmsg.nPayload.toNat).length != c.psmsg.nPayload.toNat) 1 >>= fun _ => Except.ok vchData)) = _
  rw [hpayload, hread, Guards.ok_bind, h.length_payload, bne_self_eq_false, returnIf_false, Guards.ok_bind,
    List.append_nil]
  rfl

theorem scanFile_eq (hvalid : ∀ c ∈ cs, c.Valid env.toSmsgEnv)
    (hlong : ∀ c ∈ cs, 8 ≤ c.psmsg.nPayload.toNat) (front : Bytes) {fuel : Nat} (hfuel : cs.length ≤ fuel)
    (tokenSet : TokenSet) :
    scanFile (front ++ fileOf cs) fuel front.length tokenSet = tokensFrom front.length cs tokenSet := by
  induction cs generalizing front fuel tokenSet with
  | nil =>
    cases fuel with
    | zero => rfl
    | succ fuel =>
      unfold scanFile
      rw [show fileOf [] = [] from rfl, List.append_nil, List.drop_length]
      rfl
  | cons c cs ih =>
    obtain ⟨fuel, rfl⟩ : ∃ k, fuel = k + 1 := ⟨fuel - 1, by simp at hfuel; omega⟩
    have hc := hvalid c List.mem_cons_self
    have hlongc := hlong c List.mem_cons_self
    have hfile : front ++ fileOf (c :: cs) = front ++ (c.bytes ++ fileOf cs) := rfl
    have hsample : ((front ++ (c.bytes ++ fileOf cs)).drop (front.length + smsgHdrLen)).take 8 = c.payload.take 8 := by
      rw [hc.behind_header, List.take_append_of_le_length (by rw [hc.length_payload]; omega)]
    have hsize : (c.payload.take 8).length = 8 := by
      rw [List.length_take, hc.length_payload]
      omega
    have hkey : (toLex (c.psmsg.timestamp, Sample.ofBytes (c.payload.take 8)) : TokenKey) = c.key := by
      unfold StoreCall.key
      rw [if_neg (by rw [hc.length_payload]; omega)]
    have hnext : front.length + smsgHdrLen + c.psmsg.nPayload.toNat = (front ++ c.bytes).length := by
      rw [List.length_append, StoreCall.bytes, List.length_append, hc.length_header, hc.length_payload]
      omega
    have hnot : ¬c.psmsg.nPayload < 8 := by
      rw [UInt32.lt_iff_toNat_lt]
      exact Nat.not_lt.mpr hlongc
    have hrest : scanFile (front ++ c.bytes ++ fileOf cs) fuel (front ++ c.bytes).length
        (tokenSet.insert c.key front.length)
        = tokensFrom (front ++ c.bytes).length cs (tokenSet.insert c.key front.length) :=
      ih (fun d hd => hvalid d (List.mem_cons_of_mem c hd)) (fun d hd => hlong d (List.mem_cons_of_mem c hd))
        _ (by simpa using hfuel) _
    rw [hfile]
    unfold scanFile
    simp only [hc.header_at, hc.length_header, ne_eq, not_true_eq_false, if_false]
    change (if c.psmsg.nPayload < 8 then _ else if ¬_ = 8 then tokenSet else scanFile _ fuel
      (front.length + smsgHdrLen + c.psmsg.nPayload.toNat)
      (tokenSet.insert (toLex (c.psmsg.timestamp, Sample.ofBytes _)) _)) = _
    rw [if_neg hnot, hsample, if_neg (by simp [hsize]), hkey, hnext, ← List.append_assoc, hrest]
    rw [tokensFrom, List.length_append]

theorem length_le_fileOf (hvalid : ∀ c ∈ cs, c.Valid env.toSmsgEnv) : cs.length ≤ (fileOf cs).length := by
  induction cs with
  | nil => exact Nat.zero_le _
  | cons c cs ih =>
    have hrest := ih fun d hd => hvalid d (List.mem_cons_of_mem c hd)
    have hheader := (hvalid c List.mem_cons_self).length_header
    have hhdr : smsgHdrLen = 104 := rfl
    rw [show fileOf (c :: cs) = c.bytes ++ fileOf cs from rfl, List.length_append, StoreCall.bytes, List.length_append,
      List.length_cons]
    omega

end Files

section Start

variable {env : StoreEnv} {s s' : SmsgNode} {cs : List StoreCall} {now : Int}

theorem buildBucket_apply (env : StoreEnv) {fileTime : Int} (file : Bytes) (hage : now - smsgRetention ≤ fileTime)
    (hnone : s.smsgBuckets.find? fileTime = none) : ∃ s' b, buildBucket env now fileTime file s = (.ok (), s')
      ∧ b.setTokens = scanFile file file.length 0 OrderedMap.empty
      ∧ b.hash = env.xxh32 b.setTokens.samples
      ∧ ∀ t, s'.smsgBuckets.find? t = if t = fileTime then some b else s.smsgBuckets.find? t := by
  obtain ⟨s1, hsubscript, -, -, hfound, hothers⟩ := subscript_apply s fileTime
  rw [hnone] at hsubscript hfound
  let scanned : SecMsgBucket := { setTokens := scanFile file file.length 0 OrderedMap.empty }
  let s2 := s1.updateBucket fileTime fun b => { b with setTokens := scanFile file file.length 0 OrderedMap.empty }
  have hs2 : ∀ t, s2.smsgBuckets.find? t = if t = fileTime then some scanned else s.smsgBuckets.find? t := by
    intro t
    rw [updateBucket_find?, hfound]
    split_ifs with ht
    · rfl
    · exact hothers t ht
  obtain ⟨s3, hhash, -, hs3⟩ := hashBucket_apply env s2 fileTime
  refine ⟨s3, { scanned with timeChanged := s2.clock 0, hash := env.xxh32 scanned.setTokens.samples }, ?_, rfl, rfl,
    fun t => ?_⟩
  · unfold buildBucket
    rw [if_neg (not_lt.mpr hage), Exec.bind_of_ok hsubscript]
    exact hhash
  · rw [hs3, hs2, if_pos rfl]
    split_ifs with ht
    · rfl
    · rw [hs2, if_neg ht]

theorem buildBuckets_apply (env : StoreEnv) (s : SmsgNode) (now : Int) (files : List (Int × Bytes))
    (hkeys : (files.map Prod.fst).Nodup) (hage : ∀ file ∈ files, now - smsgRetention ≤ file.1)
    (hnone : ∀ file ∈ files, s.smsgBuckets.find? file.1 = none) :
    ∃ s', files.forM (fun file => buildBucket env now file.1 file.2) s = (.ok (), s')
      ∧ (∀ t, (∀ file ∈ files, file.1 ≠ t) → s'.smsgBuckets.find? t = s.smsgBuckets.find? t)
      ∧ ∀ file ∈ files, ∃ b, s'.smsgBuckets.find? file.1 = some b
        ∧ b.setTokens = scanFile file.2 file.2.length 0 OrderedMap.empty ∧ b.hash = env.xxh32 b.setTokens.samples := by
  induction files generalizing s with
  | nil => exact ⟨s, rfl, fun _ _ => rfl, nofun⟩
  | cons file files ih =>
    rw [List.map_cons, List.nodup_cons] at hkeys
    obtain ⟨s1, b, hbuild, htokens, hhash, hbuckets⟩ := buildBucket_apply env file.2
      (hage file List.mem_cons_self) (hnone file List.mem_cons_self)
    have hfresh : ∀ other ∈ files, other.1 ≠ file.1 := fun other hother heq =>
      hkeys.1 (heq ▸ List.mem_map_of_mem hother)
    obtain ⟨s', hrun, hothers, hfiles⟩ := ih s1 hkeys.2
      (fun other hother => hage other (List.mem_cons_of_mem _ hother)) fun other hother => by
        rw [hbuckets, if_neg (hfresh other hother)]
        exact hnone other (List.mem_cons_of_mem _ hother)
    refine ⟨s', ?_, fun t ht => ?_, fun other hother => ?_⟩
    · change (buildBucket env now file.1 file.2 >>= fun _ => files.forM _) s = _
      rw [Exec.bind_of_ok hbuild]
      exact hrun
    · rw [hothers t fun other hother => ht other (List.mem_cons_of_mem _ hother), hbuckets,
        if_neg (ht file List.mem_cons_self).symm]
    · rcases List.mem_cons.mp hother with rfl | hother
      · refine ⟨b, ?_, htokens, hhash⟩
        rw [hothers _ hfresh, hbuckets, if_pos rfl]
      · exact hfiles other hother

theorem buildBucketSet_of_kept (h : Kept env cs s) (hvalid : ∀ c ∈ cs, c.Valid env.toSmsgEnv)
    (hlong : ∀ c ∈ cs, 8 ≤ c.psmsg.nPayload.toNat) (clock : Nat → Int)
    (hage : ∀ c ∈ cs, clock 0 - smsgRetention ≤ c.bucket) :
    ∃ s', secureMsgBuildBucketSet env (s.restarted clock) = (.ok (), s')
      ∧ (∀ t, (s'.smsgBuckets.find? t).map SecMsgBucket.setTokens = (s.smsgBuckets.find? t).map SecMsgBucket.setTokens)
      ∧ ∀ t b, s'.smsgBuckets.find? t = some b → b.hash = env.xxh32 b.setTokens.samples := by
  have hentry : ∀ file ∈ s.files.entries, inBucket file.1 cs ≠ [] ∧ file.2 = fileOf (inBucket file.1 cs) := by
    intro file hfile
    have hfound := OrderedMap.find?_eq_some_iff.mpr hfile
    rw [h.file] at hfound
    split_ifs at hfound with hnil
    exact ⟨hnil, (Option.some.inj hfound).symm⟩
  have hmem : ∀ t, ∀ c ∈ inBucket t cs, c ∈ cs ∧ c.bucket = t := fun t c hc => by
    simpa using List.mem_filter.mp hc
  obtain ⟨s1, hrun, hothers, hbuilt⟩ := buildBuckets_apply env
    { s.restarted clock with clock := fun i => clock (i + 1) } (clock 0) s.files.entries s.files.keys_nodup
    (fun file hfile => by
      obtain ⟨c, hc⟩ := List.exists_mem_of_ne_nil _ (hentry file hfile).1
      obtain ⟨hcs, hbucket⟩ := hmem _ c hc
      rw [← hbucket]
      exact hage c hcs)
    (fun file _ => rfl)
  have hscan : ∀ t, scanFile (fileOf (inBucket t cs)) (fileOf (inBucket t cs)).length 0 OrderedMap.empty
      = tokensFrom 0 (inBucket t cs) OrderedMap.empty := fun t =>
    scanFile_eq (fun c hc => hvalid c (hmem t c hc).1) (fun c hc => hlong c (hmem t c hc).1) []
      (length_le_fileOf fun c hc => hvalid c (hmem t c hc).1) _
  have hbucket : ∀ t, s1.smsgBuckets.find? t = none ∧ inBucket t cs = [] ∨
      ∃ b, s1.smsgBuckets.find? t = some b ∧ inBucket t cs ≠ []
        ∧ b.setTokens = tokensFrom 0 (inBucket t cs) OrderedMap.empty ∧ b.hash = env.xxh32 b.setTokens.samples := by
    intro t
    cases hfile : s.files.find? t with
    | none =>
      have hnofile := OrderedMap.find?_eq_none_iff.mp hfile
      rw [h.file] at hfile
      refine Or.inl ⟨?_, by_contra fun hnil => by simp [hnil] at hfile⟩
      rw [hothers t fun file hmem heq => hnofile file.2 (heq ▸ hmem)]
      rfl
    | some file =>
      have hentries := OrderedMap.find?_eq_some_iff.mp hfile
      obtain ⟨b, hfound, htokens, hhash⟩ := hbuilt _ hentries
      obtain ⟨hnil, heq⟩ := hentry _ hentries
      rw [heq, hscan] at htokens
      exact Or.inr ⟨b, hfound, hnil, htokens, hhash⟩
  refine ⟨{ s1 with filesWl := ⟨s1.filesWl.entries.filter fun file => !(file.1 < clock 0 - smsgRetention),
    s1.filesWl.sorted.filter _⟩ }, ?_, fun t => ?_, fun t b hb => ?_⟩
  · unfold secureMsgBuildBucketSet
    change (s.files.entries.forM (fun file => buildBucket env (clock 0) file.1 file.2) >>= _)
      { s.restarted clock with clock := fun i => clock (i + 1) } = _
    rw [Exec.bind_of_ok hrun]
    rfl
  · rw [h.tokens]
    rcases hbucket t with ⟨hnone, hnil⟩ | ⟨b, hfound, hnil, htokens, -⟩
    · rw [if_pos hnil]
      exact congrArg (Option.map SecMsgBucket.setTokens) hnone
    · rw [if_neg hnil, ← htokens]
      exact congrArg (Option.map SecMsgBucket.setTokens) hfound
  · rcases hbucket t with ⟨hnone, -⟩ | ⟨b', hfound, -, -, hhash⟩
    · exact nomatch hnone.symm.trans hb
    · obtain rfl := Option.some.inj (hfound.symm.trans hb)
      exact hhash

end Start

section RoundTrip

variable {env : StoreEnv} {s s' : SmsgNode} {cs : List StoreCall}

theorem Kept.nil (hbuckets : s.smsgBuckets = OrderedMap.empty) (hfiles : s.files = OrderedMap.empty) :
    Kept env [] s where
  file t := by
    rw [hfiles]
    rfl
  tokens t := by
    rw [hbuckets]
    rfl
  hash t b c hfound := by
    rw [hbuckets] at hfound
    cases hfound
  keys := List.nodup_nil

theorem Kept.retrieve (h : Kept env cs s) (hvalid : ∀ c ∈ cs, c.Valid env.toSmsgEnv) {t : Int} {b : SecMsgBucket}
    (hfound : s.smsgBuckets.find? t = some b) {key : TokenKey} (htoken : b.setTokens.find? key = some ofs) :
    ∃ c ∈ cs, c.bucket = t ∧ c.key = key ∧ ∀ vchData, secureMsgRetrieve s (key, ofs) vchData = .ok c.bytes := by
  have htokens := h.tokens_getD t
  rw [hfound] at htokens
  change b.setTokens = _ at htokens
  rw [htokens] at htoken
  rcases find?_tokensFrom htoken with hempty | ⟨pre, c, post, hsplit, rfl, rfl⟩
  · cases hempty
  have hmem : c ∈ inBucket t cs := by
    rw [hsplit]
    simp
  obtain ⟨hc, hbucket⟩ : c ∈ cs ∧ c.bucket = t := by simpa using List.mem_filter.mp hmem
  have hfile : s.files.find? c.bucket = some (fileOf pre ++ (c.bytes ++ fileOf post)) := by
    rw [hbucket, h.file, if_neg (List.ne_nil_of_mem hmem), hsplit, fileOf_append]
    rfl
  refine ⟨c, hc, hbucket, rfl, fun vchData => ?_⟩
  rw [Nat.zero_add]
  exact secureMsgRetrieve_eq (hvalid c hc) hfile vchData

theorem Kept.eq_of_key (h : Kept env cs s) {c d : StoreCall} (hc : c ∈ cs) (hd : d ∈ cs) (hkey : c.key = d.key) :
    c = d := List.inj_on_of_nodup_map h.keys hc hd hkey

/-- **The store over restarts.** After validated messages have been stored in an empty store, each of them has its
    token in its bucket, and `SecureMsgRetrieve` returns exactly its header and its payload there; there are no other
    tokens. A node that starts with the files while none of the buckets is past its time has the same buckets with the
    same tokens and offsets and the hashes of these tokens, provided that no payload is shorter than a sample; where the
    last message of a bucket was stored with an update of the bucket, its hash is the same as before. -/
theorem messageStore_roundTrip (hbuckets : s.smsgBuckets = OrderedMap.empty) (hfiles : s.files = OrderedMap.empty)
    (hvalid : ∀ c ∈ cs, c.Valid env.toSmsgEnv) (hrun : cs.forM (StoreCall.store env) s = (.ok (), s')) :
    (∀ c ∈ cs, ∃ b ofs, s'.smsgBuckets.find? c.bucket = some b ∧ b.setTokens.find? c.key = some ofs
      ∧ ∀ vchData, secureMsgRetrieve s' (c.key, ofs) vchData = .ok (c.header ++ c.payload))
    ∧ (∀ t b key ofs, s'.smsgBuckets.find? t = some b → b.setTokens.find? key = some ofs →
      ∃ c ∈ cs, c.bucket = t ∧ c.key = key)
    ∧ ((∀ c ∈ cs, 8 ≤ c.psmsg.nPayload.toNat) → ∀ clock, (∀ c ∈ cs, clock 0 - smsgRetention ≤ c.bucket) →
      ∃ s'', secureMsgBuildBucketSet env (s'.restarted clock) = (.ok (), s'')
        ∧ (∀ t, (s''.smsgBuckets.find? t).map SecMsgBucket.setTokens
          = (s'.smsgBuckets.find? t).map SecMsgBucket.setTokens)
        ∧ (∀ t b, s''.smsgBuckets.find? t = some b → b.hash = env.xxh32 b.setTokens.samples)
        ∧ ∀ t b b' c, s'.smsgBuckets.find? t = some b → s''.smsgBuckets.find? t = some b' →
          (inBucket t cs).getLast? = some c → c.fUpdateBucket = true → b'.hash = b.hash) := by
  have hkept : Kept env cs s' := (Kept.nil hbuckets hfiles).run cs hvalid hrun
  refine ⟨fun c hc => ?_, fun t b key ofs hfound htoken => ?_, fun hlong clock hage => ?_⟩
  · have hmem : c ∈ inBucket c.bucket cs := List.mem_filter.mpr ⟨hc, by simp⟩
    have htokens := hkept.tokens c.bucket
    rw [if_neg (List.ne_nil_of_mem hmem)] at htokens
    obtain ⟨b, hfound, hset⟩ := Option.map_eq_some_iff.mp htokens
    obtain ⟨ofs, hofs⟩ := Option.isSome_iff_exists.mp
      (isSome_find?_tokensFrom_of_mem hmem 0 OrderedMap.empty)
    rw [← hset] at hofs
    obtain ⟨d, hd, -, hkey, hread⟩ := hkept.retrieve hvalid hfound hofs
    obtain rfl := hkept.eq_of_key hd hc hkey
    exact ⟨b, ofs, hfound, hofs, hread⟩
  · obtain ⟨c, hc, hbucket, hkey, -⟩ := hkept.retrieve hvalid hfound htoken
    exact ⟨c, hc, hbucket, hkey⟩
  · obtain ⟨s'', hbuild, hsame, hhash⟩ := buildBucketSet_of_kept hkept hvalid hlong clock hage
    refine ⟨s'', hbuild, hsame, hhash, fun t b b' c hb hb' hlast hupdate => ?_⟩
    have hset := hsame t
    rw [hb, hb'] at hset
    rw [hhash t b' hb', hkept.hash t b c hb hlast hupdate]
    exact congrArg (fun tokens => env.xxh32 (TokenSet.samples tokens)) (Option.some.inj hset)

end RoundTrip

namespace Sample

def greetingPow : Bytes :=
  [0x3f, 0xdb, 0x04, 0x59, 0xaf, 0x03, 0x32, 0x7c, 0xd9, 0xd6, 0x95, 0xb2, 0xfa, 0x17, 0x72, 0x63,
    0x54, 0x70, 0x65, 0xf0, 0x24, 0x96, 0xbb, 0x7e, 0xd4, 0xc2, 0x0b, 0x3f, 0x42, 0x3c, 0x00, 0x00]

def greetingNonse : Bytes := [0xcc, 0x2a, 0x00, 0x00]

def greetingBytes : Bytes :=
  greetingPow.take 4 ++ [1, 1, 0] ++ LittleEndian.ofInt 8 1700000000 ++ greetingIv ++ pubKeyR ++ greetingMac
    ++ greetingNonse ++ ofUInt32 16 ++ greetingEncrypted

def letterPow : Bytes :=
  LittleEndian.ofNat 32 0x28a1b6b552a690d1874dcaa7e59051fc3d135bd5b7763933b6adb113c230

def letterNonse : Bytes := [0x92, 0x73, 0x00, 0x00]

def letterBytes : Bytes :=
  letterPow.take 4 ++ [1, 1, 0] ++ LittleEndian.ofInt 8 1700000000 ++ greetingIv ++ pubKeyR ++ letterMac
    ++ letterNonse ++ ofUInt32 112 ++ letterEncrypted

def storeEnv : StoreEnv :=
  { messageEnv with
    hmacSha256 := fun key bytes =>
      if key = (List.replicate 8 greetingNonse).flatten then some greetingPow
      else if key = (List.replicate 8 letterNonse).flatten then some letterPow
      else messageEnv.hmacSha256 key bytes
    xxh32 := fun samples =>
      if samples = greetingEncrypted.take 8 then 0xcb653f61
      else if samples = greetingEncrypted.take 8 ++ letterEncrypted.take 8 then 0x509bf750
      else 0x0b2cb792
    wallet := messageWallet
    fLocked := false
    smsgAddresses := [] }

def emptyNode : SmsgNode where
  clock _ := 1700000000
  disk _ := .ok
  smsgBuckets := OrderedMap.empty
  files := OrderedMap.empty
  filesWl := OrderedMap.empty
  addrpkdb := messageDb
  inbox _ := none
  vNodes := []
  ignoreUntil _ := 0
  nMisbehavior _ := 0
  sent := []

def greetingCall (fUpdateBucket : Bool) : StoreCall := ⟨greetingBytes, 0, fUpdateBucket⟩

theorem greetingCall_valid (fUpdateBucket : Bool) : (greetingCall fUpdateBucket).Valid storeEnv.toSmsgEnv := by
  unfold StoreCall.Valid
  cases fUpdateBucket <;> decide +kernel

def letterCall : StoreCall := ⟨letterBytes, 0, true⟩

def twoCalls : List StoreCall := [greetingCall true, letterCall]

def twoKept : SmsgNode := (twoCalls.forM (StoreCall.store storeEnv) emptyNode).2

/-- Two messages of one bucket are stored, retrieved, and found again after a restart. -/
theorem twoCalls_kept : (twoCalls.forM (StoreCall.store storeEnv) emptyNode).1 = .ok ()
    ∧ (∀ c ∈ twoCalls, ∃ b ofs, twoKept.smsgBuckets.find? c.bucket = some b ∧ b.setTokens.find? c.key = some ofs
      ∧ secureMsgRetrieve twoKept (c.key, ofs) [] = .ok (c.header ++ c.payload))
    ∧ ∃ s', secureMsgBuildBucketSet storeEnv (twoKept.restarted fun _ => 1700000000) = (.ok (), s')
      ∧ (∀ t, (s'.smsgBuckets.find? t).map SecMsgBucket.setTokens
        = (twoKept.smsgBuckets.find? t).map SecMsgBucket.setTokens)
      ∧ ∀ b b', twoKept.smsgBuckets.find? 1699999800 = some b → s'.smsgBuckets.find? 1699999800 = some b' →
        b'.hash = b.hash := by
  have hrun : (twoCalls.forM (StoreCall.store storeEnv) emptyNode).1 = .ok () := by decide +kernel
  have hvalid : ∀ c ∈ twoCalls, c.Valid storeEnv.toSmsgEnv := by
    intro c hc
    rcases List.mem_pair.mp hc with rfl | rfl
    · exact greetingCall_valid true
    · unfold StoreCall.Valid
      decide +kernel
  have hstored : twoCalls.forM (StoreCall.store storeEnv) emptyNode = (.ok (), twoKept) := by
    rw [twoKept]
    exact Exec.eq_of_fst hrun
  obtain ⟨hread, -, hrebuild⟩ := messageStore_roundTrip rfl rfl hvalid hstored
  have hlong : ∀ c ∈ twoCalls, 8 ≤ c.psmsg.nPayload.toNat := by decide +kernel
  have hbucket : ∀ c ∈ twoCalls, c.bucket = 1699999800 := by decide +kernel
  have hall : inBucket 1699999800 twoCalls = twoCalls :=
    List.filter_eq_self.mpr fun c hc => decide_eq_true (hbucket c hc)
  have hage : ∀ c ∈ twoCalls, 1700000000 - smsgRetention ≤ c.bucket := fun c hc => hbucket c hc ▸ by decide
  obtain ⟨s', hbuild, htokens, -, hhash⟩ := hrebuild hlong (fun _ => 1700000000) hage
  refine ⟨hrun, fun c hc => ?_, s', hbuild, htokens, fun b b' hb hb' => ?_⟩
  · obtain ⟨b, ofs, hfound, hofs, hretrieve⟩ := hread c hc
    exact ⟨b, ofs, hfound, hofs, hretrieve []⟩
  · exact hhash _ b b' letterCall hb hb' (by rw [hall]; rfl) rfl

/-- A message of a bunch is stored without a hash of its bucket: the bucket has another hash when the node starts, and
    it is not there when the node starts after the time that messages are kept. -/
theorem unhashed_bucket : (greetingCall false).Valid storeEnv.toSmsgEnv
    ∧ ((greetingCall false).store storeEnv emptyNode).1 = .ok ()
    ∧ (((greetingCall false).store storeEnv emptyNode).2.smsgBuckets.find? 1699999800).map SecMsgBucket.hash = some 0
    ∧ (secureMsgBuildBucketSet storeEnv
        (((greetingCall false).store storeEnv emptyNode).2.restarted fun _ => 1700000000)).1 = .ok ()
    ∧ ((secureMsgBuildBucketSet storeEnv
        (((greetingCall false).store storeEnv emptyNode).2.restarted fun _ => 1700000000)).2.smsgBuckets.find?
          1699999800).map SecMsgBucket.hash = some 0xcb653f61
    ∧ ((secureMsgBuildBucketSet storeEnv
        (((greetingCall false).store storeEnv emptyNode).2.restarted fun _ => 1700172800)).2.smsgBuckets.find?
          1699999800).map SecMsgBucket.hash = none :=
  ⟨greetingCall_valid false, by decide, by decide, by decide, by decide +kernel, by decide +kernel⟩

end Sample

end PupaCoin.Smsg
