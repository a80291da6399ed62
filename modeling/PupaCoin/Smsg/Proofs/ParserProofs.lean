import PupaCoin.Smsg.Proofs.ReceiveProofs

/-!
# The parsers stay inside their buffers, and where they do not

`smsgInv` and `smsgHave` never leave the data. `smsgShow` does where its count wraps.
-/

namespace PupaCoin.Smsg

variable {nHdr p : Nat} {fFromAnonymous : Bool} {len nPayload : UInt32} {rv : Int} {R : Stop → SmsgNode → Prop}
  {buf : Bytes} {s : SmsgNode}

open Exec

/-! ## Checks that return -/

theorem orReturn_settles {α : Type} (o : Option α) (n : Int) :
    Guards.Settles Stop.IsReturn (fun _ => True) (orReturn o n) := by
  cases o <;> trivial

theorem returnIf_settles (c : Bool) (n : Int) : Guards.Settles Stop.IsReturn (fun _ => True) (returnIf c n) := by
  cases c <;> trivial

section Payload

variable {env : SmsgEnv} {vchPayload : Bytes}

theorem four_lt_plHdrLen (fFromAnonymous : Bool) : 4 < plHdrLen fFromAnonymous := by cases fFromAnonymous <;> decide

theorem lenData_le {n : Nat} (h : nHdr ≤ n) : (asInt (UInt32.ofNat n - UInt32.ofNat nHdr)).toNat ≤ n - nHdr := by
  have hsub : UInt32.ofNat n - UInt32.ofNat nHdr = UInt32.ofNat (n - nHdr) := by
    obtain ⟨k, rfl⟩ := Nat.exists_eq_add_of_le h
    rw [Nat.add_sub_cancel_left, UInt32.ofNat_add, UInt32.add_comm, UInt32.add_sub_cancel]
  have hle := asInt_le (UInt32.ofNat (n - nHdr))
  have hmod : (UInt32.ofNat (n - nHdr)).toNat ≤ n - nHdr := by
    rw [UInt32.toNat_ofNat']
    exact Nat.mod_le _ _
  rw [hsub]
  omega

theorem readText_eq (hhdr : plHdrLen fFromAnonymous ≤ vchPayload.length) (vchMessage : Bytes) :
    readText env vchPayload fFromAnonymous vchMessage = unpackText env vchPayload (plHdrLen fFromAnonymous)
      (lenPlain vchPayload fFromAnonymous) vchMessage := by
  have h4 := four_lt_plHdrLen fFromAnonymous
  have hread : readAt vchPayload (plHdrLen fFromAnonymous - 4) 4
      = .ok ((vchPayload.drop (plHdrLen fFromAnonymous - 4)).take 4) := readAt_inside (by omega)
  unfold readText
  simp only [hread, Guards.ok_bind]
  rfl

theorem unpackText_short (hshort : ¬len > 128) (vchMessage : Bytes) :
    unpackText env vchPayload nHdr len vchMessage = (readAt vchPayload nHdr len.toNat).map (· ++ [0]) := by
  have hsmall : len.toNat ≤ 128 := UInt32.le_iff_toNat_le.mp (UInt32.not_lt.mp hshort)
  have hroom : (len + 1).toNat = len.toNat + 1 := by
    rw [UInt32.toNat_add]
    simp only [UInt32.reduceToNat]
    omega
  unfold unpackText
  rw [if_neg hshort]
  cases hread : readAt vchPayload nHdr len.toNat with
  | error e => rfl
  | ok text =>
    have hlength := length_of_readAt hread
    rw [Guards.ok_bind, ← hlength]
    refine writeText text ?_
    rw [length_resize, hroom, hlength]

theorem toNat_add_one (h : len ≠ 0xFFFFFFFF) : (len + 1).toNat = len.toNat + 1 := by
  have hne : len.toNat ≠ 4294967295 := fun hlast => h (UInt32.toNat_inj.mp hlast)
  have hlt := len.toNat_lt
  rw [UInt32.toNat_add]
  simp only [UInt32.reduceToNat]
  omega

theorem storeText_settles {text : Bytes} (hlast : len ≠ 0xFFFFFFFF) (hsize : text.length ≤ (asInt len).toNat)
    (vchMessage : Bytes) : Guards.Settles Stop.IsReturn (fun _ => True) (do
      let vchMessage ← writeAt (resize vchMessage (len + 1).toNat) 0 text
      returnIf (rv != asInt len) 1
      writeAt vchMessage len.toNat [0]) := by
  have hle := asInt_le len
  have hroom := toNat_add_one hlast
  obtain ⟨buf, hwrite⟩ : ∃ buf, writeAt (resize vchMessage (len + 1).toNat) 0 text = .ok buf :=
    ⟨_, if_pos (by rw [length_resize, hroom]; omega)⟩
  have hbuf := length_of_writeAt hwrite
  rw [length_resize, hroom] at hbuf
  obtain ⟨buf', hnul⟩ : ∃ buf', writeAt buf len.toNat [0] = .ok buf' :=
    ⟨_, if_pos (by rw [hbuf, List.length_singleton])⟩
  rw [hwrite, Guards.ok_bind, hnul]
  cases hrv : rv != asInt len with
  | true => trivial
  | false => trivial

theorem unpackText_long (hlz4 : env.Lz4Safe) (hlong : len > 128) (hin : nHdr < vchPayload.length)
    (hlast : len ≠ 0xFFFFFFFF) (vchMessage : Bytes) :
    Guards.Settles Stop.IsReturn (fun _ => True) (unpackText env vchPayload nHdr len vchMessage) := by
  have hdata := lenData_le hin.le
  have hroom := toNat_add_one hlast
  have hsize : asInt len ≠ -1 := by
    have hbits : len.toInt32.toBitVec.toNat = len.toNat := rfl
    have hlt := (len + 1).toNat_lt
    rw [asInt, Int32.toInt, BitVec.toInt_eq_toNat_cond, hbits]
    split_ifs <;> omega
  unfold unpackText
  rw [if_pos hlong, readAt_inside (by rw [length_resize, hroom]; omega), Guards.ok_bind]
  unfold lz4DecompressSafe
  rw [readAt_inside (by omega), Guards.ok_bind]
  exact storeText_settles hlast (hlz4.size _ _ hsize) vchMessage

theorem unpackText_outside (hlong : len > 128) (hout : ¬(nHdr < vchPayload.length ∧ len ≠ 0xFFFFFFFF))
    (vchMessage : Bytes) : unpackText env vchPayload nHdr len vchMessage = .error .outOfBounds := by
  unfold unpackText
  rw [if_pos hlong]
  by_cases hlast : len = 0xFFFFFFFF
  · rw [readAt_outside (by rw [length_resize, hlast]; decide)]
    rfl
  · have hroom := toNat_add_one hlast
    have hend : vchPayload.length ≤ nHdr := Nat.not_lt.mp fun h => hout ⟨h, hlast⟩
    rw [readAt_inside (by rw [length_resize, hroom]; omega), Guards.ok_bind]
    unfold lz4DecompressSafe
    rw [readAt_outside (by omega)]
    rfl

theorem readText_settles (hlz4 : env.Lz4Safe) (hin : TextInside vchPayload fFromAnonymous) (vchMessage : Bytes) :
    Guards.Settles Stop.IsReturn (fun _ => True) (readText env vchPayload fFromAnonymous vchMessage) := by
  obtain ⟨hhdr, htext⟩ := hin
  rw [readText_eq hhdr]
  split_ifs at htext with hlong
  · exact unpackText_long hlz4 hlong htext.1 htext.2 vchMessage
  · rw [unpackText_short hlong, readAt_inside htext]
    trivial

theorem readText_outside (hout : ¬TextInside vchPayload fFromAnonymous) (vchMessage : Bytes) :
    readText env vchPayload fFromAnonymous vchMessage = .error .outOfBounds := by
  by_cases hhdr : plHdrLen fFromAnonymous ≤ vchPayload.length
  · have htext := fun h => hout ⟨hhdr, h⟩
    rw [readText_eq hhdr]
    split_ifs at htext with hlong
    · exact unpackText_outside hlong htext vchMessage
    · rw [unpackText_short hlong, readAt_outside (Nat.not_le.mp htext)]
      rfl
  · have h4 := four_lt_plHdrLen fFromAnonymous
    have hread : readAt vchPayload (plHdrLen fFromAnonymous - 4) 4 = .error .outOfBounds :=
      readAt_outside (by omega)
    unfold readText
    simp only [hread]
    rfl

theorem readSender_settles (env : SmsgEnv) (hin : smsgPlHdrLen ≤ vchPayload.length) (vchMessage : Bytes) :
    Guards.Settles Stop.IsReturn (fun _ => True) (readSender env vchPayload vchMessage) := by
  have hhdr : smsgPlHdrLen = 90 := rfl
  unfold readSender
  rw [readAt_inside (by omega), Guards.ok_bind]
  refine (returnIf_settles _ 1).bind fun _ _ => ?_
  rw [readAt_inside (by omega), Guards.ok_bind]
  exact (returnIf_settles _ 1).bind fun _ _ => (returnIf_settles _ 1).bind fun _ _ => trivial

theorem readPayload_inside (hlz4 : env.Lz4Safe) (hin : PayloadInside vchPayload) (timestamp : Int) (msg : MessageData)
    (db : SecMsgDB) :
    Guards.Settles Stop.IsReturn (fun _ => True) (readPayload env vchPayload timestamp msg db).1 := by
  obtain ⟨hfirst, hin⟩ := hin
  have hread := readText_settles hlz4 hin msg.vchMessage
  unfold readPayload
  rw [readAt_inside (by omega), lift_ok_bind, List.drop_zero]
  cases htext : readText env vchPayload (vchPayload.take 1 == [250]) msg.vchMessage with
  | error e =>
    rw [htext] at hread
    exact hread
  | ok vchMessage =>
    rw [lift_ok_bind]
    cases hanon : vchPayload.take 1 == [250] with
    | true => trivial
    | false =>
      have hhdr : smsgPlHdrLen ≤ vchPayload.length := by
        have := hin.1
        rwa [hanon] at this
      have hsender := readSender_settles env hhdr vchMessage
      simp only [Bool.false_eq_true, if_false]
      cases hrun : readSender env vchPayload vchMessage with
      | error e =>
        rw [hrun] at hsender
        exact hsender
      | ok sender => trivial

theorem readPayload_outside (hout : ¬PayloadInside vchPayload) (timestamp : Int) (msg : MessageData) (db : SecMsgDB) :
    (readPayload env vchPayload timestamp msg db).1 = .error .outOfBounds := by
  unfold readPayload
  by_cases hfirst : 1 ≤ vchPayload.length
  · have htext : ¬TextInside vchPayload (vchPayload.take 1 == [250]) := fun h => hout ⟨hfirst, h⟩
    rw [readAt_inside (by omega), lift_ok_bind, List.drop_zero, readText_outside htext]
    rfl
  · rw [readAt_outside (by omega)]
    rfl

end Payload

section Decrypt

variable {env : SmsgEnv} {wallet : SmsgWallet} {fTestOnly : Bool} {address : String} {psmsg : SecureMessage}
  {payload : Bytes} {msg : MessageData} {db db' : SecMsgDB}

theorem secretOf_settles (env : SmsgEnv) (wallet : SmsgWallet) (address : String) (psmsg : SecureMessage) :
    Guards.Settles Stop.IsReturn (fun _ => True) (secretOf env wallet address psmsg) := by
  have hdest : ∀ rv, Guards.Settles Stop.IsReturn (fun _ => True) (parseDestination env address rv) := fun rv =>
    (orReturn_settles _ rv).bind fun _ _ => orReturn_settles _ rv
  exact (returnIf_settles _ 2).bind fun _ _ => (hdest 3).bind fun _ _ => (orReturn_settles _ 3).bind fun _ _ =>
    (returnIf_settles _ 1).bind fun _ _ => (returnIf_settles _ 1).bind fun _ _ =>
      (orReturn_settles _ 1).bind fun _ _ => trivial

theorem checkMac_settles (env : SmsgEnv) (key_m : Bytes) (psmsg : SecureMessage) (payload : Bytes) :
    Guards.Settles Stop.IsReturn (fun _ => True) (checkMac env key_m psmsg payload) :=
  (orReturn_settles _ 1).bind fun _ _ => returnIf_settles _ 1

theorem readPayload_fst (vchPayload : Bytes) (timestamp : Int) (db db' : SecMsgDB) :
    (readPayload env vchPayload timestamp msg db).1 = (readPayload env vchPayload timestamp msg db').1 := by
  unfold readPayload
  cases readAt vchPayload 0 1 with
  | error e => rfl
  | ok first =>
    rw [lift_ok_bind]
    cases readText env vchPayload (first == [250]) msg.vchMessage with
    | error e => rfl
    | ok vchMessage =>
      rw [lift_ok_bind]
      cases first == [250] with
      | true => rfl
      | false =>
        simp only [Bool.false_eq_true, if_false]
        cases readSender env vchPayload vchMessage with
        | error e => rfl
        | ok sender => rfl

theorem secureMsgDecrypt_cases (env : SmsgEnv) (wallet : SmsgWallet) (fTestOnly : Bool) (address : String)
    (psmsg : SecureMessage) (payload : Bytes) (msg : MessageData) :
    (∃ r : Except Stop MessageData, Guards.Settles Stop.IsReturn (fun _ => True) r
      ∧ (∀ vchPayload, plaintext env wallet address psmsg payload = .ok vchPayload → fTestOnly = true)
      ∧ ∀ db, (secureMsgDecrypt env wallet fTestOnly address psmsg payload msg db).1 = r)
    ∨ fTestOnly = false ∧ ∃ vchPayload, plaintext env wallet address psmsg payload = .ok vchPayload
      ∧ ∀ db, (secureMsgDecrypt env wallet fTestOnly address psmsg payload msg db).1
        = (readPayload env vchPayload psmsg.timestamp msg db).1 := by
  have hsecret := secretOf_settles env wallet address psmsg
  unfold secureMsgDecrypt plaintext
  cases hkeys : secretOf env wallet address psmsg with
  | error e =>
    rw [hkeys] at hsecret
    exact Or.inl ⟨.error e, hsecret, fun _ h => (nomatch h), fun _ => rfl⟩
  | ok keys =>
    have hchecked := checkMac_settles env keys.2 psmsg payload
    cases hmac : checkMac env keys.2 psmsg payload with
    | error e =>
      rw [hmac] at hchecked
      refine Or.inl ⟨.error e, hchecked, fun _ h => ?_, fun db => ?_⟩
      · rw [Guards.ok_bind, hmac] at h
        cases h
      · rw [lift_ok_bind, hmac]
        rfl
    | ok _ =>
      cases fTestOnly with
      | true =>
        refine Or.inl ⟨.ok msg, trivial, fun _ _ => rfl, fun db => ?_⟩
        rw [lift_ok_bind, hmac]
        rfl
      | false =>
        cases haes : env.aesDecrypt keys.1 psmsg.iv payload with
        | none =>
          refine Or.inl ⟨.error (.rv 1), trivial, fun _ h => ?_, fun db => ?_⟩
          · rw [Guards.ok_bind, hmac, Guards.ok_bind, haes] at h
            cases h
          · rw [lift_ok_bind, hmac, haes]
            rfl
        | some vchPayload =>
          refine Or.inr ⟨rfl, vchPayload, ?_, fun db => ?_⟩
          · rw [Guards.ok_bind, hmac, Guards.ok_bind, haes]
            rfl
          · rw [lift_ok_bind, hmac, haes]
            rfl

theorem secureMsgDecrypt_fst (db db' : SecMsgDB) :
    (secureMsgDecrypt env wallet fTestOnly address psmsg payload msg db).1
      = (secureMsgDecrypt env wallet fTestOnly address psmsg payload msg db').1 := by
  rcases secureMsgDecrypt_cases env wallet fTestOnly address psmsg payload msg
    with ⟨r, -, -, hr⟩ | ⟨-, vchPayload, -, hread⟩
  · rw [hr, hr]
  · rw [hread, hread, readPayload_fst]

theorem secureMsgDecrypt_inside (hlz4 : env.Lz4Safe) (msg : MessageData) (db : SecMsgDB)
    (hin : fTestOnly = false → ∀ vchPayload, plaintext env wallet address psmsg payload = .ok vchPayload →
      PayloadInside vchPayload) :
    Guards.Settles Stop.IsReturn (fun _ => True)
      (secureMsgDecrypt env wallet fTestOnly address psmsg payload msg db).1 := by
  rcases secureMsgDecrypt_cases env wallet fTestOnly address psmsg payload msg
    with ⟨r, hreturns, -, hr⟩ | ⟨hfull, vchPayload, hplain, hread⟩
  · rw [hr]
    exact hreturns
  · rw [hread]
    exact readPayload_inside hlz4 (hin hfull vchPayload hplain) _ _ _

theorem secureMsgDecrypt_outside {vchPayload : Bytes} (hfull : fTestOnly = false)
    (hplain : plaintext env wallet address psmsg payload = .ok vchPayload) (hout : ¬PayloadInside vchPayload) :
    (secureMsgDecrypt env wallet fTestOnly address psmsg payload msg db).1 = .error .outOfBounds := by
  rcases secureMsgDecrypt_cases env wallet fTestOnly address psmsg payload msg
    with ⟨r, -, htest, -⟩ | ⟨-, vchPayload', hplain', hread⟩
  · exact absurd (htest _ hplain) (by simp [hfull])
  · obtain rfl := Except.ok.inj (hplain.symm.trans hplain')
    rw [hread]
    exact readPayload_outside hout _ _ _

end Decrypt

section Attempt

variable {α : Type} {m : Exec SmsgNode Stop α} {s t : SmsgNode}

theorem attempt_of_ok {a : α} (h : m s = (.ok a, t)) : attempt m s = (.ok (some a), t) := by
  unfold attempt
  rw [h]

theorem attempt_of_rv {n : Int} (h : m s = (.error (.rv n), t)) : attempt m s = (.ok none, t) := by
  unfold attempt
  rw [h]

theorem attempt_of_fault (h : m s = (.error .outOfBounds, t)) : attempt m s = (.error .outOfBounds, t) := by
  unfold attempt
  rw [h]

theorem attempt_run {P : SmsgNode → Prop} {Q : SmsgNode → Prop} (h : Ends P m (fun _ => Q) fun e s => e.IsReturn ∧ Q s)
    (hs : P s) : ∃ o, attempt m s = (.ok o, (attempt m s).2) ∧ Q (attempt m s).2 := by
  cases hrun : m s with
  | mk r t =>
    cases r with
    | ok a =>
      rw [attempt_of_ok hrun]
      exact ⟨some a, rfl, (h s hs).1 a t hrun⟩
    | error e =>
      obtain ⟨hreturn, ht⟩ := (h s hs).2 e t hrun
      cases e with
      | rv n =>
        rw [attempt_of_rv hrun]
        exact ⟨none, rfl, ht⟩
      | outOfBounds => exact hreturn.elim
      | undefined what => exact hreturn.elim

end Attempt

section Scan

variable {env : StoreEnv} {psmsg : SecureMessage} {payload : Bytes} {m : OrderedMap Int SecMsgBucket}

theorem scanDecrypt_run (hlz4 : env.Lz4Safe) {sAddress : String} {fReceiveAnon : Bool}
    (hin : fReceiveAnon = false → ∀ vchPayload,
      plaintext env.toSmsgEnv env.wallet (addressText env sAddress) psmsg payload = .ok vchPayload →
        PayloadInside vchPayload) (s : SmsgNode) :
    ∃ t, t.smsgBuckets = s.smsgBuckets ∧
      ((∃ msg, attempt (onAddrpkdb (scanDecrypt env psmsg payload sAddress fReceiveAnon)) s = (.ok (some msg), t)
        ∧ ∃ db, (scanDecrypt env psmsg payload sAddress fReceiveAnon db).1 = .ok msg)
      ∨ attempt (onAddrpkdb (scanDecrypt env psmsg payload sAddress fReceiveAnon)) s = (.ok none, t)
        ∧ ∀ db msg, (scanDecrypt env psmsg payload sAddress fReceiveAnon db).1 ≠ .ok msg) := by
  have hsettles := secureMsgDecrypt_inside hlz4 ⟨0, "", []⟩ s.addrpkdb hin
  refine ⟨{ s with addrpkdb := (scanDecrypt env psmsg payload sAddress fReceiveAnon s.addrpkdb).2 }, rfl, ?_⟩
  cases hr : (scanDecrypt env psmsg payload sAddress fReceiveAnon s.addrpkdb).1 with
  | ok msg =>
    refine Or.inl ⟨msg, attempt_of_ok ?_, s.addrpkdb, hr⟩
    unfold onAddrpkdb
    rw [hr]
  | error e =>
    unfold scanDecrypt at hr
    rw [hr] at hsettles
    cases e with
    | rv n =>
      refine Or.inr ⟨attempt_of_rv (n := n) ?_, fun db msg h => ?_⟩
      · unfold onAddrpkdb scanDecrypt
        rw [hr]
      · unfold scanDecrypt at h
        rw [secureMsgDecrypt_fst db s.addrpkdb, hr] at h
        cases h
    | outOfBounds => exact hsettles.elim
    | undefined what => exact hsettles.elim

theorem findOwner_ends (hlz4 : env.Lz4Safe) (smsgAddresses : List (String × Bool × Bool))
    (hin : OwnerInside env psmsg payload smsgAddresses) :
    Ends (fun s => s.smsgBuckets = m) (findOwner env psmsg payload smsgAddresses) (fun _ s => s.smsgBuckets = m) R := by
  induction smsgAddresses with
  | nil => exact Ends.pure fun _ hs => hs
  | cons entry smsgAddresses ih =>
    obtain ⟨sAddress, fReceiveEnabled, fReceiveAnon⟩ := entry
    unfold OwnerInside at hin
    unfold findOwner
    cases fReceiveEnabled with
    | false => exact ih hin
    | true =>
      obtain ⟨hfirst, hrest⟩ := hin
      intro s hs
      change (∀ a s', (attempt (onAddrpkdb (scanDecrypt env psmsg payload sAddress fReceiveAnon)) >>= _) s = _ → _)
        ∧ ∀ e s', (attempt (onAddrpkdb (scanDecrypt env psmsg payload sAddress fReceiveAnon)) >>= _) s = _ → _
      obtain ⟨t, ht, ⟨msg, hrun, -⟩ | ⟨hrun, hfails⟩⟩ := scanDecrypt_run hlz4 hfirst s
      · rw [Exec.bind_of_ok hrun]
        exact (Ends.pure (P := fun s => s.smsgBuckets = m) fun _ h => h) t (ht.trans hs)
      · rw [Exec.bind_of_ok hrun]
        exact ih (hrest hfails) t (ht.trans hs)

theorem findOwner_outside (hlz4 : env.Lz4Safe) (smsgAddresses : List (String × Bool × Bool))
    (hout : ¬OwnerInside env psmsg payload smsgAddresses) (s : SmsgNode) :
    (findOwner env psmsg payload smsgAddresses s).1 = .error .outOfBounds := by
  induction smsgAddresses generalizing s with
  | nil => exact absurd trivial hout
  | cons entry smsgAddresses ih =>
    obtain ⟨sAddress, fReceiveEnabled, fReceiveAnon⟩ := entry
    unfold OwnerInside at hout
    unfold findOwner
    cases fReceiveEnabled with
    | false => exact ih hout s
    | true =>
      change ((attempt (onAddrpkdb (scanDecrypt env psmsg payload sAddress fReceiveAnon)) >>= _) s).1 = _
      by_cases hfirst : fReceiveAnon = false → ∀ vchPayload,
          plaintext env.toSmsgEnv env.wallet (addressText env sAddress) psmsg payload = .ok vchPayload →
            PayloadInside vchPayload
      · obtain ⟨t, -, ⟨msg, -, db, hok⟩ | ⟨hrun, -⟩⟩ := scanDecrypt_run hlz4 hfirst s
        · exact absurd ⟨hfirst, fun hfails => absurd hok (hfails db msg)⟩ hout
        · rw [Exec.bind_of_ok hrun]
          exact ih (fun hrest => hout ⟨hfirst, fun _ => hrest⟩) t
      · push Not at hfirst
        obtain ⟨hfull, vchPayload, hplain, hbeyond⟩ := hfirst
        have hfault : onAddrpkdb (scanDecrypt env psmsg payload sAddress fReceiveAnon) s = (.error .outOfBounds,
            { s with addrpkdb := (scanDecrypt env psmsg payload sAddress fReceiveAnon s.addrpkdb).2 }) := by
          unfold onAddrpkdb scanDecrypt
          rw [secureMsgDecrypt_outside hfull hplain hbeyond]
        rw [Exec.bind_of_error (attempt_of_fault hfault)]

theorem findOwner_fst (smsgAddresses : List (String × Bool × Bool)) (s s' : SmsgNode) :
    (findOwner env psmsg payload smsgAddresses s).1 = (findOwner env psmsg payload smsgAddresses s').1 := by
  induction smsgAddresses generalizing s s' with
  | nil => rfl
  | cons entry smsgAddresses ih =>
    obtain ⟨sAddress, fReceiveEnabled, fReceiveAnon⟩ := entry
    unfold findOwner
    cases fReceiveEnabled with
    | false => exact ih s s'
    | true =>
      have hsame : ∀ s s' : SmsgNode, (attempt (onAddrpkdb (scanDecrypt env psmsg payload sAddress fReceiveAnon)) s).1
          = (attempt (onAddrpkdb (scanDecrypt env psmsg payload sAddress fReceiveAnon)) s').1 := by
        intro s s'
        unfold attempt onAddrpkdb scanDecrypt
        rw [secureMsgDecrypt_fst s.addrpkdb s'.addrpkdb]
        cases (secureMsgDecrypt env.toSmsgEnv env.wallet fReceiveAnon (addressText env sAddress) psmsg payload
          ⟨0, "", []⟩ s'.addrpkdb).1 with
        | ok msg => rfl
        | error e => cases e <;> rfl
      have hs := hsame s s'
      change ((attempt (onAddrpkdb (scanDecrypt env psmsg payload sAddress fReceiveAnon)) >>= _) s).1
        = ((attempt (onAddrpkdb (scanDecrypt env psmsg payload sAddress fReceiveAnon)) >>= _) s').1
      rw [Exec.bind_apply, Exec.bind_apply]
      generalize attempt (onAddrpkdb (scanDecrypt env psmsg payload sAddress fReceiveAnon)) s = r at hs
      generalize attempt (onAddrpkdb (scanDecrypt env psmsg payload sAddress fReceiveAnon)) s' = r' at hs
      obtain ⟨r, t⟩ := r
      obtain ⟨r', t'⟩ := r'
      obtain rfl : r = r' := hs
      cases r with
      | error e => rfl
      | ok o =>
        cases o with
        | none => exact ih t t'
        | some msg => rfl

theorem secureMsgStoreUnscanned_ends (hin : p + smsgHdrLen + nPayload.toNat ≤ buf.length) :
    Ends (fun s => s.smsgBuckets = m) (secureMsgStoreUnscanned buf p nPayload) (fun _ s => s.smsgBuckets = m)
      fun e s => e.IsReturn ∧ s.smsgBuckets = m := by
  have hclock : Ends (fun s => s.smsgBuckets = m) getTime (fun _ s => s.smsgBuckets = m)
      fun e s => e.IsReturn ∧ s.smsgBuckets = m := Ends.of_returns fun s hs => ⟨s.clock 0, _, rfl, hs⟩
  have houtcome : Ends (fun s => s.smsgBuckets = m) nextOutcome (fun _ s => s.smsgBuckets = m)
      fun e s => e.IsReturn ∧ s.smsgBuckets = m := Ends.of_returns fun s hs => ⟨s.disk 0, _, rfl, hs⟩
  have hcheck : ∀ c n, Ends (fun s : SmsgNode => s.smsgBuckets = m) (Exec.lift (returnIf c n))
      (fun _ s => s.smsgBuckets = m) fun e s => e.IsReturn ∧ s.smsgBuckets = m := fun c n =>
    ends_returnIf (fun _ _ hs => hs) fun _ _ hs => ⟨trivial, hs⟩
  unfold secureMsgStoreUnscanned
  rw [readAt_inside (by omega), lift_ok_bind]
  refine Ends.bind houtcome fun outcome => Ends.bind (hcheck _ 1) fun _ => Ends.bind hclock fun now => ?_
  refine Ends.bind (hcheck _ 1) fun _ => Ends.bind (hcheck _ 1) fun _ => Ends.bind (hcheck _ 1) fun _ => ?_
  rw [readAt_inside hin, lift_ok_bind]
  exact Ends.bind (Q := fun _ s => s.smsgBuckets = m) (Ends.update fun _ hs => hs) fun _ => hcheck _ 1

theorem saveToInbox_ends (hin : p + smsgHdrLen + nPayload.toNat ≤ buf.length)
    (hmax : nPayload.toNat ≤ smsgMaxMsgWorst) (hsample : p + smsgHdrLen + 8 ≤ buf.length) (addressTo : String) :
    Ends (fun s => s.smsgBuckets = m) (saveToInbox buf p nPayload addressTo) (fun _ s => s.smsgBuckets = m) R := by
  have hhdr : smsgHdrLen = 104 := rfl
  have hworst : smsgMaxMsgWorst = 4218 := rfl
  have hroom : (UInt32.ofNat smsgHdrLen + nPayload).toNat = smsgHdrLen + nPayload.toNat := by
    have hwraps : (UInt32.ofNat smsgHdrLen).toNat = 104 := rfl
    rw [UInt32.toNat_add, hwraps]
    omega
  have hheader : ((buf.drop p).take smsgHdrLen).length = smsgHdrLen := by
    rw [List.length_take, List.length_drop]
    omega
  have hpayload : ((buf.drop (p + smsgHdrLen)).take nPayload.toNat).length = nPayload.toNat := by
    rw [List.length_take, List.length_drop]
    omega
  unfold saveToInbox
  rw [readAt_inside (by omega), lift_ok_bind, readAt_inside hsample, lift_ok_bind]
  refine Ends.bind (Q := fun _ s => s.smsgBuckets = m) (Ends.of_returns fun s hs => ⟨s.clock 0, _, rfl, hs⟩)
    fun timeReceived => ?_
  refine Ends.bind (Q := fun buf' s => s.smsgBuckets = m ∧ buf'.length = smsgHdrLen + nPayload.toNat)
    (ends_writeAt (by rw [List.length_replicate, hroom, hheader]; omega) fun buf' s hbuf hs =>
      ⟨hs, by rw [hbuf, List.length_replicate, hroom]⟩) fun buf' => Ends.of_fact fun hbuf => ?_
  rw [readAt_inside hin, lift_ok_bind]
  refine Ends.bind (Q := fun _ s => s.smsgBuckets = m)
    (ends_writeAt (by rw [hbuf, hpayload]) fun _ _ _ hs => hs) fun _ => Ends.update fun s hs => ?_
  split_ifs
  · exact hs
  · exact hs

theorem secureMsgScanMessage_ends (hlz4 : env.Lz4Safe)
    (hin : p + smsgHdrLen + (headerAt buf p).nPayload.toNat ≤ buf.length)
    (hmax : (headerAt buf p).nPayload.toNat ≤ smsgMaxMsgWorst) (hscan : ScanInside env buf p) :
    Ends (fun s => s.smsgBuckets = m) (secureMsgScanMessage env buf p (headerAt buf p).nPayload)
      (fun _ s => s.smsgBuckets = m) fun e s => e.IsReturn ∧ s.smsgBuckets = m := by
  unfold secureMsgScanMessage
  refine Ends.ite (fun _ => secureMsgStoreUnscanned_ends hin) fun hopen => ?_
  obtain ⟨howner, hsample⟩ := hscan (by simpa using hopen)
  rw [readAt_inside (by omega), lift_ok_bind, readAt_inside hin, lift_ok_bind]
  change Ends _ (findOwner env (headerAt buf p) _ env.smsgAddresses >>= _) _ _
  intro s hs
  cases hrun : findOwner env (headerAt buf p)
      ((buf.drop (p + smsgHdrLen)).take (headerAt buf p).nPayload.toNat) env.smsgAddresses s with
  | mk r t =>
    have hfind := findOwner_ends (m := m) (R := fun _ _ => False) hlz4 _ howner s hs
    cases r with
    | error e => exact (hfind.2 e t hrun).elim
    | ok owner =>
      have ht := hfind.1 owner t hrun
      rw [Exec.bind_of_ok hrun]
      cases owner with
      | none => exact Ends.pure (P := fun s => s.smsgBuckets = m) (fun _ h => h) t ht
      | some addressTo => exact saveToInbox_ends hin hmax (hsample s addressTo (by rw [hrun])) addressTo t ht

theorem secureMsgScanMessage_outside (hlz4 : env.Lz4Safe)
    (hin : p + smsgHdrLen + (headerAt buf p).nPayload.toNat ≤ buf.length) (hscan : ¬ScanInside env buf p)
    (s : SmsgNode) : (secureMsgScanMessage env buf p (headerAt buf p).nPayload s).1 = .error .outOfBounds := by
  unfold ScanInside at hscan
  push Not at hscan
  obtain ⟨hopen, hscan⟩ := hscan
  unfold secureMsgScanMessage
  rw [if_neg (by simp [hopen]), readAt_inside (by omega), lift_ok_bind, readAt_inside hin, lift_ok_bind]
  change ((findOwner env (headerAt buf p) _ env.smsgAddresses >>= _) s).1 = _
  by_cases howner : OwnerInside env (headerAt buf p)
      ((buf.drop (p + smsgHdrLen)).take (headerAt buf p).nPayload.toNat) env.smsgAddresses
  · obtain ⟨s', addressTo, hfound, hshort⟩ := hscan howner
    rw [findOwner_fst env.smsgAddresses s' s] at hfound
    rw [Exec.bind_of_ok (Exec.eq_of_fst hfound)]
    change (saveToInbox _ _ _ _ _).1 = _
    unfold saveToInbox
    rw [readAt_inside (by omega), lift_ok_bind, readAt_outside hshort]
    rfl
  · rw [Exec.bind_of_error (Exec.eq_of_fst (findOwner_outside hlz4 _ howner s))]

end Scan

section Receive

variable {env : StoreEnv} {pfrom : NodeId} {vchData : Bytes} {n : Nat}

theorem secureMsgValidate_inside (env : StoreEnv) (hhdr : n + smsgHdrLen ≤ vchData.length)
    (hin : MessageInside vchData n) : Guards.Settles Stop.IsReturn (fun _ => Sized vchData n)
      (secureMsgValidate env.toSmsgEnv vchData n (headerAt vchData n).nPayload) := by
  unfold secureMsgValidate
  rw [readAt_inside hhdr, Guards.ok_bind]
  change Guards.Settles _ _ (returnIf ((headerAt vchData n).version.head? != some 1) 4 >>= _)
  cases hversion : (headerAt vchData n).version.head? != some 1 with
  | true => trivial
  | false =>
    rw [returnIf_false, Guards.ok_bind]
    by_cases hmax : (headerAt vchData n).nPayload.toNat ≤ smsgMaxMsgWorst
    · have hsized : Sized vchData n := ⟨by simpa using hversion, hmax⟩
      rw [show decide ((headerAt vchData n).nPayload.toNat > smsgMaxMsgWorst) = false by simpa using hmax,
        returnIf_false, Guards.ok_bind, readAt_inside (hin hsized), Guards.ok_bind]
      split
      · trivial
      · exact (returnIf_settles _ 3).bind fun _ _ =>
          (returnIf_settles _ 2).mono fun _ _ => hsized
    · rw [show decide ((headerAt vchData n).nPayload.toNat > smsgMaxMsgWorst) = true by simpa using hmax]
      trivial

theorem secureMsgValidate_outside (hhdr : n + smsgHdrLen ≤ vchData.length) (hout : ¬MessageInside vchData n) :
    secureMsgValidate env.toSmsgEnv vchData n (headerAt vchData n).nPayload = .error .outOfBounds := by
  unfold MessageInside at hout
  push Not at hout
  obtain ⟨⟨hversion, hmax⟩, hbeyond⟩ := hout
  unfold secureMsgValidate
  rw [readAt_inside hhdr, Guards.ok_bind]
  change (returnIf ((headerAt vchData n).version.head? != some 1) 4 >>= _) = _
  rw [show ((headerAt vchData n).version.head? != some 1) = false by simpa using hversion, returnIf_false,
    Guards.ok_bind, show decide ((headerAt vchData n).nPayload.toNat > smsgMaxMsgWorst) = false by simpa using hmax,
    returnIf_false, Guards.ok_bind, readAt_outside hbeyond]
  rfl

theorem receiveBunch_succ (env : StoreEnv) (pfrom : NodeId) (hhdr : n + smsgHdrLen ≤ vchData.length) (count : Nat)
    (s : SmsgNode) : receiveBunch env pfrom vchData (count + 1) n s =
      match secureMsgValidate env.toSmsgEnv vchData n (headerAt vchData n).nPayload with
      | .error (.rv _) => (misbehaving pfrom 1 >>= fun _ => receiveBunch env pfrom vchData count n) s
      | .error e => (.error e, s)
      | .ok _ => match secureMsgStore env vchData n (headerAt vchData n).nPayload false s with
        | (.error (.rv _), t) => (.ok (), t)
        | (.error e, t) => (.error e, t)
        | (.ok _, t) => (attempt (secureMsgScanMessage env vchData n (headerAt vchData n).nPayload) >>= fun _ =>
            receiveBunch env pfrom vchData count (n + smsgHdrLen + (headerAt vchData n).nPayload.toNat)) t := by
  rw [receiveBunch, if_neg (by omega), readAt_inside hhdr, lift_ok_bind]
  change (attempt (Exec.lift (secureMsgValidate env.toSmsgEnv vchData n (headerAt vchData n).nPayload)) >>= _) s = _
  rw [Exec.bind_apply, attempt, Exec.lift_apply]
  cases secureMsgValidate env.toSmsgEnv vchData n (headerAt vchData n).nPayload with
  | error e => cases e <;> rfl
  | ok _ =>
    change (attempt (secureMsgStore env vchData n (headerAt vchData n).nPayload false) >>= _) s = _
    rw [Exec.bind_apply, attempt]
    cases secureMsgStore env vchData n (headerAt vchData n).nPayload false s with
    | mk r t =>
      cases r with
      | error e => cases e <;> rfl
      | ok _ => rfl

theorem receiveBunch_of_invalid (env : StoreEnv) (pfrom : NodeId) (hhdr : n + smsgHdrLen ≤ vchData.length)
    (hinvalid : secureMsgValidate env.toSmsgEnv vchData n (headerAt vchData n).nPayload = .error (.rv rv))
    (count : Nat) (s : SmsgNode) :
    ∃ t, receiveBunch env pfrom vchData count n s = (.ok (), t) ∧ t.smsgBuckets = s.smsgBuckets
      ∧ t.files = s.files := by
  induction count generalizing s with
  | zero => exact ⟨s, rfl, rfl, rfl⟩
  | succ count ih =>
    rw [receiveBunch_succ env pfrom hhdr count s, hinvalid]
    exact ih _

theorem bunchPlaces_stored (count : Nat) {t : SmsgNode} (hhdr : n + smsgHdrLen ≤ vchData.length)
    (hvalid : ValidAt env vchData n)
    (hstore : secureMsgStore env vchData n (headerAt vchData n).nPayload false s = (.ok (), t)) :
    bunchPlaces env vchData (count + 1) n s
      = (n, s) :: bunchPlaces env vchData count (n + smsgHdrLen + (headerAt vchData n).nPayload.toNat)
          (attempt (secureMsgScanMessage env vchData n (headerAt vchData n).nPayload) t).2 := by
  unfold ValidAt at hvalid
  rw [bunchPlaces, if_neg (by omega), hvalid, hstore]

theorem mem_bunchPlaces_first (env : StoreEnv) (count : Nat) (s : SmsgNode) (hhdr : n + smsgHdrLen ≤ vchData.length) :
    (n, s) ∈ bunchPlaces env vchData (count + 1) n s := by
  rw [bunchPlaces, if_neg (by omega)]
  exact List.mem_cons_self

theorem receiveBunch_run (hlz4 : env.Lz4Safe) (pfrom : NodeId) (I : OrderedMap Int SecMsgBucket → Prop) (count : Nat) (hinside : BunchInside env vchData count n s) (hI : I s.smsgBuckets)
    (hstep : ∀ place ∈ bunchPlaces env vchData count n s, I place.2.smsgBuckets → ValidAt env vchData place.1 →
      ∀ m, StoreOutcome env (tokenAt vchData place.1 (headerAt vchData place.1).nPayload) false place.2 m → I m) :
    ∃ t, receiveBunch env pfrom vchData count n s = (.ok (), t) ∧ I t.smsgBuckets := by
  induction count generalizing n s with
  | zero => exact ⟨s, rfl, hI⟩
  | succ count ih =>
    by_cases hhdr : n + smsgHdrLen ≤ vchData.length
    · have hfirst := mem_bunchPlaces_first env count s hhdr
      obtain ⟨hmessage, hscan⟩ := hinside _ hfirst
      have hvalidate := secureMsgValidate_inside env hhdr hmessage
      rw [receiveBunch_succ env pfrom hhdr count s]
      cases hvalid : secureMsgValidate env.toSmsgEnv vchData n (headerAt vchData n).nPayload with
      | error e =>
        rw [hvalid] at hvalidate
        cases e with
        | rv rv =>
          obtain ⟨t, hrun, ht, -⟩ := receiveBunch_of_invalid env pfrom hhdr hvalid count
            { s with nMisbehavior := Function.update s.nMisbehavior pfrom (s.nMisbehavior pfrom + 1) }
          exact ⟨t, hrun, ht ▸ hI⟩
        | outOfBounds => exact hvalidate.elim
        | undefined what => exact hvalidate.elim
      | ok _ =>
        rw [hvalid] at hvalidate
        have hplace := hmessage hvalidate
        have hstored := secureMsgStore_ends hplace env false s s rfl
        cases hstore : secureMsgStore env vchData n (headerAt vchData n).nPayload false s with
        | mk r t =>
          cases r with
          | error e =>
            obtain ⟨hreturn, hlooks⟩ := hstored.2 e t hstore
            cases e with
            | rv rv => exact ⟨t, rfl, hstep _ hfirst hI hvalid _ hlooks⟩
            | outOfBounds => exact hreturn.elim
            | undefined what => exact hreturn.elim
          | ok _ =>
            have ht : I t.smsgBuckets := hstep _ hfirst hI hvalid _ (hstored.1 () t hstore)
            have hrest := bunchPlaces_stored count hhdr hvalid hstore
            obtain ⟨o, hscanned⟩ := attempt_run (secureMsgScanMessage_ends (m := t.smsgBuckets) hlz4 hplace hvalidate.2
              (hscan hvalid (by rw [hstore]))) rfl
            change ∃ t', (attempt (secureMsgScanMessage env vchData n _) >>= _) t = _ ∧ _
            rw [Exec.bind_of_ok hscanned.1]
            refine ih (fun place hmem => hinside place ?_) (hscanned.2 ▸ ht) fun place hmem => hstep place ?_
            · rw [hrest]
              exact List.mem_cons_of_mem _ hmem
            · rw [hrest]
              exact List.mem_cons_of_mem _ hmem
    · have hlength : smsgHdrLen = 104 := rfl
      rw [receiveBunch, if_pos (by omega)]
      exact ⟨s, rfl, hI⟩

theorem receiveBunch_outside (hlz4 : env.Lz4Safe) (pfrom : NodeId) (count : Nat)
    (hout : ¬BunchInside env vchData count n s) :
    (receiveBunch env pfrom vchData count n s).1 = .error .outOfBounds := by
  induction count generalizing n s with
  | zero => exact absurd nofun hout
  | succ count ih =>
    have hlength : smsgHdrLen = 104 := rfl
    have hhdr : n + smsgHdrLen ≤ vchData.length := by
      by_contra hshort
      refine hout fun place hmem => ?_
      rw [bunchPlaces, if_pos (by omega)] at hmem
      exact absurd hmem List.not_mem_nil
    rw [receiveBunch_succ env pfrom hhdr count s]
    by_cases hmessage : MessageInside vchData n
    · cases hvalid : secureMsgValidate env.toSmsgEnv vchData n (headerAt vchData n).nPayload with
      | error e =>
        refine absurd (fun place hmem => ?_) hout
        rw [bunchPlaces, if_neg (by omega), hvalid] at hmem
        obtain rfl := List.mem_singleton.mp hmem
        exact ⟨hmessage, fun hok => (nomatch hok.symm.trans hvalid)⟩
      | ok _ =>
        cases hstore : secureMsgStore env vchData n (headerAt vchData n).nPayload false s with
        | mk r t =>
          cases r with
          | error e =>
            refine absurd (fun place hmem => ?_) hout
            rw [bunchPlaces, if_neg (by omega), hvalid, hstore] at hmem
            obtain rfl := List.mem_singleton.mp hmem
            exact ⟨hmessage, fun _ hok => (nomatch (congrArg Prod.fst hstore).symm.trans hok)⟩
          | ok _ =>
            have hvalidate := secureMsgValidate_inside env hhdr hmessage
            rw [hvalid] at hvalidate
            change ((attempt (secureMsgScanMessage env vchData n _) >>= _) t).1 = _
            by_cases hscan : ScanInside env vchData n
            · obtain ⟨o, hscanned, -⟩ := attempt_run (secureMsgScanMessage_ends (m := t.smsgBuckets) hlz4
                (hmessage hvalidate) hvalidate.2 hscan) rfl
              rw [Exec.bind_of_ok hscanned]
              refine ih fun hrest => hout fun place hmem => ?_
              rw [bunchPlaces_stored count hhdr hvalid hstore] at hmem
              rcases List.mem_cons.mp hmem with rfl | hmem
              · exact ⟨hmessage, fun _ _ => hscan⟩
              · exact hrest place hmem
            · have hfault := secureMsgScanMessage_outside hlz4 (hmessage hvalidate) hscan t
              rw [Exec.bind_of_error (attempt_of_fault (Exec.eq_of_fst hfault))]
    · rw [secureMsgValidate_outside hhdr hmessage]

def releaseBucket (env : StoreEnv) (bktTime : Int) : Exec SmsgNode Stop Unit := do
  let s ← Exec.read
  Exec.lift (returnIf (s.smsgBuckets.find? bktTime).isNone 1)
  Exec.update fun s => s.updateBucket bktTime fun b => { b with nLockCount := 0, nLockPeerId := 0 }
  hashBucket env bktTime

theorem secureMsgReceive_refused (env : StoreEnv) (pfrom : NodeId) (h : ¬BunchAccepted vchData (s.clock 0)) :
    ∃ t, secureMsgReceive env pfrom vchData s = (.error (.rv 1), t) ∧ t.smsgBuckets = s.smsgBuckets := by
  unfold secureMsgReceive
  by_cases hsize : 12 ≤ vchData.length
  · rw [show decide (vchData.length < 12) = false by simpa using hsize, returnIf_false, lift_ok_bind,
      readAt_inside (by omega), lift_ok_bind, readAt_inside (by omega), lift_ok_bind]
    change ∃ t, (Exec.lift (returnIf (decide (bunchTime vchData > s.clock 0 + smsgTimeLeeway)) 1) >>= _) s.ticked = _
      ∧ _
    by_cases hnew : bunchTime vchData ≤ s.clock 0 + smsgTimeLeeway
    · rw [show decide (bunchTime vchData > s.clock 0 + smsgTimeLeeway) = false by simpa using hnew, returnIf_false,
        lift_ok_bind]
      change ∃ t, (Exec.lift (returnIf (decide (bunchTime vchData < s.clock 0 - smsgRetention)) 1) >>= _) s.ticked = _
        ∧ _
      have hold : bunchTime vchData < s.clock 0 - smsgRetention := by
        by_contra hnot
        exact h ⟨hsize, hnew, not_lt.mp hnot⟩
      rw [decide_eq_true hold]
      exact ⟨s.ticked, rfl, rfl⟩
    · rw [decide_eq_true (not_le.mp hnew)]
      exact ⟨s.ticked, rfl, rfl⟩
  · rw [decide_eq_true (not_le.mp hsize)]
    exact ⟨s, rfl, rfl⟩

theorem secureMsgReceive_accepted (h : BunchAccepted vchData (s.clock 0)) : secureMsgReceive env pfrom vchData s
      = (if bunchSize vchData = 0 ∨ bunchSize vchData > 500 then do
          misbehaving pfrom 1
          Exec.update fun s => s.updateBucket (bunchTime vchData) fun b => { b with nLockCount := 0 }
          Exec.stop (.rv 1)
        else do
          receiveBunch env pfrom vchData (bunchSize vchData).toNat 12
          releaseBucket env (bunchTime vchData)) s.ticked := by
  have hsize := h.size
  unfold secureMsgReceive
  rw [show decide (vchData.length < 12) = false by simpa using hsize, returnIf_false, lift_ok_bind,
    readAt_inside (by omega), lift_ok_bind, readAt_inside (by omega), lift_ok_bind]
  change ((Exec.lift (returnIf (decide (bunchTime vchData > s.clock 0 + smsgTimeLeeway)) 1) >>= _) s.ticked) = _
  rw [show decide (bunchTime vchData > s.clock 0 + smsgTimeLeeway) = false by simpa using h.new, returnIf_false,
    lift_ok_bind]
  change ((Exec.lift (returnIf (decide (bunchTime vchData < s.clock 0 - smsgRetention)) 1) >>= _) s.ticked) = _
  rw [show decide (bunchTime vchData < s.clock 0 - smsgRetention) = false by simpa using h.old, returnIf_false,
    lift_ok_bind]
  rfl

theorem releaseBucket_ends (env : StoreEnv) (bktTime : Int) (s : SmsgNode) :
    (releaseBucket env bktTime s).1 ≠ .error .outOfBounds := by
  unfold releaseBucket
  rw [Exec.read_bind]
  cases (s.smsgBuckets.find? bktTime).isNone with
  | true => exact fun h => nomatch h
  | false => exact fun h => nomatch h

theorem secureMsgReceive_outOfBounds_iff (hlz4 : env.Lz4Safe) (pfrom : NodeId) (vchData : Bytes) (s : SmsgNode) :
    (secureMsgReceive env pfrom vchData s).1 = .error .outOfBounds ↔ BunchAccepted vchData (s.clock 0)
      ∧ bunchSize vchData ≠ 0 ∧ bunchSize vchData ≤ 500
      ∧ ¬BunchInside env vchData (bunchSize vchData).toNat 12 s.ticked := by
  by_cases haccepted : BunchAccepted vchData (s.clock 0)
  · rw [secureMsgReceive_accepted haccepted]
    by_cases hcount : bunchSize vchData = 0 ∨ bunchSize vchData > 500
    · rw [if_pos hcount]
      refine ⟨fun h => (nomatch h), fun ⟨_, hsome, hfew, _⟩ => ?_⟩
      rcases hcount with hnone | hmany
      · exact absurd hnone hsome
      · exact absurd hfew (UInt32.not_le.mpr hmany)
    · rw [if_neg hcount]
      obtain ⟨hsome, hfew⟩ := not_or.mp hcount
      by_cases hinside : BunchInside env vchData (bunchSize vchData).toNat 12 s.ticked
      · obtain ⟨t, hrun, -⟩ := receiveBunch_run hlz4 pfrom (fun _ => True) _ hinside trivial fun _ _ _ _ _ _ => trivial
        rw [Exec.bind_of_ok hrun]
        exact ⟨fun h => absurd h (releaseBucket_ends env _ t), fun h => absurd hinside h.2.2.2⟩
      · have hfault := receiveBunch_outside hlz4 pfrom _ hinside
        rw [Exec.bind_of_error (Exec.eq_of_fst hfault)]
        exact ⟨fun _ => ⟨haccepted, hsome, UInt32.not_lt.mp hfew, hinside⟩, fun _ => rfl⟩
  · obtain ⟨t, hrun, -⟩ := secureMsgReceive_refused env pfrom haccepted
    rw [hrun]
    exact ⟨fun h => (nomatch h), fun h => absurd h.1 haccepted⟩

end Receive

/-- **Where the parsers stay inside their buffers.** `smsgInv` and `smsgHave` always do; `smsgShow` where its count does
    not wrap; `smsgMsg` where each message that it comes to lies inside the data; `SecureMsgDecrypt` where the payload
    that it obtains has the header and the text that it names. -/
theorem parsers_stay_inside {env : StoreEnv} (hlz4 : env.Lz4Safe) :
    (∀ pfrom vchData s, (smsgInv pfrom vchData s).1 ≠ .error .outOfBounds)
    ∧ (∀ pfrom vchData s, (smsgHave pfrom vchData s).1 ≠ .error .outOfBounds)
    ∧ (∀ pfrom vchData s, (smsgShow pfrom vchData s).1 ≠ .error .outOfBounds ↔ ShowInside vchData)
    ∧ (∀ pfrom vchData s, (secureMsgReceive env pfrom vchData s).1 ≠ .error .outOfBounds ↔ ReceiveInside env vchData s)
    ∧ ∀ wallet fTestOnly address psmsg payload msg db,
      (secureMsgDecrypt env.toSmsgEnv wallet fTestOnly address psmsg payload msg db).1 ≠ .error .outOfBounds ↔
        (fTestOnly = false → ∀ vchPayload, plaintext env.toSmsgEnv wallet address psmsg payload = .ok vchPayload →
          PayloadInside vchPayload) := by
  refine ⟨fun pfrom vchData s hfault => ?_, fun pfrom vchData s hfault => ?_, fun pfrom vchData s => ?_,
    fun pfrom vchData s => ?_, fun wallet fTestOnly address psmsg payload msg db =>
      ⟨fun h hfull vchPayload hplain => ?_, fun hin hfault => ?_⟩⟩
  · exact ((smsgInv_ends pfrom vchData s s rfl).2 _ _ (Exec.eq_of_fst hfault)).1
  · exact ((smsgHave_ends pfrom vchData s s rfl).2 _ _ (Exec.eq_of_fst hfault)).1
  · rw [Ne, smsgShow_outOfBounds_iff]
    unfold ShowInside
    push Not
    rfl
  · rw [Ne, secureMsgReceive_outOfBounds_iff hlz4]
    unfold ReceiveInside
    push Not
    rfl
  · by_contra hout
    exact h (secureMsgDecrypt_outside hfull hplain hout)
  · have hsettles := secureMsgDecrypt_inside hlz4 msg db hin
    rw [hfault] at hsettles
    exact hsettles

namespace Sample

theorem storeEnv_lz4Safe : storeEnv.Lz4Safe := by
  refine ⟨fun input maxOutputSize _ => ?_⟩
  simp only [storeEnv, messageEnv]
  split_ifs with htext
  · rw [htext.2]
    exact List.length_replicate.le
  · exact Nat.zero_le _

def greetingBunch : Bytes := ofUInt32 2 ++ LittleEndian.ofInt 8 1699999800 ++ (greetingBytes ++ letterBytes)

theorem greetingBunch_inside : (secureMsgReceive storeEnv 7 greetingBunch emptyNode).1 = .ok ()
    ∧ ReceiveInside storeEnv greetingBunch emptyNode := by
  have hreceived : (secureMsgReceive storeEnv 7 greetingBunch emptyNode).1 = .ok () := by decide +kernel
  obtain ⟨-, -, -, hreceive, -⟩ := parsers_stay_inside storeEnv_lz4Safe
  refine ⟨hreceived, (hreceive 7 greetingBunch emptyNode).mp ?_⟩
  rw [hreceived]
  exact fun h => nomatch h

def cutMessage : Bytes := List.replicate 4 0 ++ [1, 1] ++ List.replicate 94 0 ++ ofUInt32 1

/-- The request for `2 ^ 29` buckets has the length of its count, and the bunch ends before the payload of its message.
    Both are read beyond their end. -/
theorem parsers_leave_data : (smsgShow 7 (ofUInt32 0x20000000) emptyNode).1 = .error .outOfBounds
    ∧ (secureMsgReceive storeEnv 7 (ofUInt32 1 ++ LittleEndian.ofInt 8 1699999800 ++ cutMessage) emptyNode).1
      = .error .outOfBounds := by
  constructor
  · exact (smsgShow_outOfBounds_iff 7 _ _).mpr ⟨by decide, by decide, by decide⟩
  · decide

end Sample

end PupaCoin.Smsg
