import PupaCoin.Net.Proofs.MessageProofs
import PupaCoin.Smsg.Crypt

/-!
# Decryption gives back what has been encrypted

The two payloads are written part by part (`anonymousPayload_eq`, `signedPayload_eq`) and read part by part. Their
headers name the length of the text, which says on both sides whether it is compressed.
-/

namespace PupaCoin.Smsg

variable {a b c message : Bytes} {p : Nat} {ckid ckidDest : CKeyID} {key keyDest : CKey} {coinAddrDest : CBase58Data}

theorem writeAt_part (a b c bytes : Bytes) (h : bytes.length = b.length) :
    writeAt (a ++ (b ++ c)) a.length bytes = .ok (a ++ (bytes ++ c)) := by
  rw [writeAt_eq_ok]
  refine ⟨by simp [h], ?_⟩
  rw [List.take_left, ← List.drop_drop, List.drop_left, h, List.drop_left, List.append_assoc]

theorem readAt_part (a b c : Bytes) : readAt (a ++ (b ++ c)) a.length b.length = .ok b := by
  rw [readAt_eq_ok]
  refine ⟨by simp, ?_⟩
  rw [List.drop_left, List.take_left]

theorem writeAt_parts {d : Bytes} (hpos : p = a.length) (h : d.length = b.length) :
    writeAt (a ++ (b ++ c)) p d = .ok (a ++ (d ++ c)) := by
  rw [hpos]
  exact writeAt_part a b c d h

theorem readAt_parts {n : Nat} (hpos : p = a.length) (hlen : n = b.length) : readAt (a ++ (b ++ c)) p n = .ok b := by
  rw [hpos, hlen]
  exact readAt_part a b c

theorem anonymousPayload_eq (lenMsg : UInt32) (data : Bytes) :
    anonymousPayload lenMsg data = .ok ([250, 0, 0, 0, 0] ++ (ofUInt32 lenMsg ++ data)) := by
  have hzero : List.replicate (9 + data.length) (0 : UInt8)
      = List.replicate 9 0 ++ (List.replicate data.length 0 ++ []) := by
    rw [List.append_nil, ← List.replicate_add]
  have hdata := writeAt_parts (a := List.replicate 9 0) (b := List.replicate data.length 0) (c := [])
    (d := data) (p := 9) (by simp) (by simp)
  have hmark := writeAt_parts (a := []) (b := [0]) (c := List.replicate 8 0 ++ data) (d := [250]) (p := 0)
    rfl rfl
  have hlen := writeAt_parts (a := [250, 0, 0, 0, 0]) (b := List.replicate 4 0) (c := data)
    (d := ofUInt32 lenMsg) (p := 5) rfl (by simp)
  unfold anonymousPayload
  rw [hzero, hdata, Guards.ok_bind, List.append_nil]
  exact (congrArg (· >>= fun vchPayload => writeAt vchPayload 5 (ofUInt32 lenMsg)) hmark).trans hlen

theorem signedPayload_eq {version : UInt8} {ppn vchSignature : Bytes} (lenMsg : UInt32) (data : Bytes)
    (hppn : ppn.length = 20) (hsig : vchSignature.length = 65) : signedPayload version ppn vchSignature lenMsg data
      = .ok ([version] ++ (ppn ++ (vchSignature ++ (ofUInt32 lenMsg ++ data)))) := by
  let zeros (k : Nat) : Bytes := List.replicate k 0
  have hzero : List.replicate (smsgPlHdrLen + data.length) (0 : UInt8)
      = zeros smsgPlHdrLen ++ (zeros data.length ++ []) := by
    rw [List.append_nil]
    exact List.replicate_add ..
  have hdata : writeAt (zeros smsgPlHdrLen ++ (zeros data.length ++ [])) smsgPlHdrLen data
      = .ok (zeros smsgPlHdrLen ++ (data ++ [])) :=
    writeAt_parts (by simp [zeros]) (by simp [zeros])
  have hheader : zeros smsgPlHdrLen ++ (data ++ [])
      = [] ++ ([0] ++ (zeros 20 ++ (zeros 65 ++ (zeros 4 ++ data)))) := by
    simp only [List.append_nil, List.nil_append, ← List.append_assoc]
    rfl
  have hversion : writeAt ([] ++ ([0] ++ (zeros 20 ++ (zeros 65 ++ (zeros 4 ++ data))))) 0 [version]
      = .ok ([] ++ ([version] ++ (zeros 20 ++ (zeros 65 ++ (zeros 4 ++ data))))) := writeAt_parts rfl rfl
  have hname : writeAt ([version] ++ (zeros 20 ++ (zeros 65 ++ (zeros 4 ++ data)))) 1 ppn
      = .ok ([version] ++ (ppn ++ (zeros 65 ++ (zeros 4 ++ data)))) :=
    writeAt_parts rfl (by simp [zeros, hppn])
  have hsigned : writeAt ([version] ++ (ppn ++ (zeros 65 ++ (zeros 4 ++ data)))) (1 + 20) vchSignature
      = .ok ([version] ++ (ppn ++ (vchSignature ++ (zeros 4 ++ data)))) := by
    have h := writeAt_parts (a := [version] ++ ppn) (b := zeros 65) (c := zeros 4 ++ data)
      (d := vchSignature) (p := 1 + 20) (by simp [hppn]) (by simp [zeros, hsig])
    rwa [List.append_assoc, List.append_assoc] at h
  have hlength : writeAt ([version] ++ (ppn ++ (vchSignature ++ (zeros 4 ++ data)))) (1 + 20 + 65)
      (ofUInt32 lenMsg) = .ok ([version] ++ (ppn ++ (vchSignature ++ (ofUInt32 lenMsg ++ data)))) := by
    have h := writeAt_parts (a := [version] ++ (ppn ++ vchSignature)) (b := zeros 4) (c := data)
      (d := ofUInt32 lenMsg) (p := 1 + 20 + 65) (by simp [hppn, hsig]) (by simp [zeros])
    rwa [List.append_assoc, List.append_assoc, List.append_assoc, List.append_assoc] at h
  unfold signedPayload
  rw [hzero, hdata, Guards.ok_bind, hheader, hversion, Guards.ok_bind, List.nil_append, hname, Guards.ok_bind,
    hsigned, Guards.ok_bind, hlength]

section Text

variable {env : SmsgEnv}

theorem toNat_lenMsg (h : message.length ≤ smsgMaxMsgBytes) :
    (UInt32.ofNat message.length).toNat = message.length := by
  unfold smsgMaxMsgBytes at h
  rw [UInt32.toNat_ofNat', Nat.mod_eq_of_lt (by omega)]

theorem writeText {buf : Bytes} (text : Bytes) (hbuf : buf.length = text.length + 1) :
    (writeAt buf 0 text >>= fun vchMessage => writeAt vchMessage text.length [0]) = .ok (text ++ [0]) := by
  have hparts : buf = [] ++ (buf.take text.length ++ buf.drop text.length) := by simp
  have hlast : (buf.drop text.length).length = 1 := by simp [hbuf]
  have htext : writeAt buf 0 text = .ok ([] ++ (text ++ buf.drop text.length)) := by
    rw [hparts]
    exact (writeAt_parts rfl (by simp [hbuf])).trans (by simp)
  have hnul : writeAt (text ++ (buf.drop text.length ++ [])) text.length [0] = .ok (text ++ ([0] ++ [])) :=
    writeAt_parts rfl (by simp [hlast])
  rw [htext, Guards.ok_bind, List.nil_append]
  rwa [List.append_nil, List.append_nil] at hnul

theorem readText_packText (hc : env.Correct) {data : Bytes} (front : Bytes) (fFromAnonymous : Bool)
    (hsize : message.length ≤ smsgMaxMsgBytes) (hpack : packText env message = .ok data)
    (hfront : front.length + 4 = plHdrLen fFromAnonymous) (vchMessage : Bytes) :
    readText env (front ++ (ofUInt32 (UInt32.ofNat message.length) ++ data)) fFromAnonymous vchMessage
      = .ok (message ++ [0]) := by
  have hlen := toNat_lenMsg hsize
  have hmax : message.length ≤ 4096 := hsize
  have hlenPlain : toUInt32 (ofUInt32 (UInt32.ofNat message.length)) = UInt32.ofNat message.length :=
    toUInt32_ofUInt32 _
  have hread : readAt (front ++ (ofUInt32 (UInt32.ofNat message.length) ++ data)) (plHdrLen fFromAnonymous - 4) 4
      = .ok (ofUInt32 (UInt32.ofNat message.length)) := readAt_parts (by omega) (by simp)
  have hroom : (UInt32.ofNat message.length + 1).toNat = message.length + 1 := by
    rw [UInt32.toNat_add, hlen]
    simp only [UInt32.reduceToNat]
    omega
  have hlong : UInt32.ofNat message.length > 128 ↔ message.length > 128 := by
    rw [gt_iff_lt, UInt32.lt_iff_toNat_lt, hlen]
    rfl
  have hbuf : (resize vchMessage (message.length + 1)).length = message.length + 1 := by
    simp [resize]
    omega
  unfold readText
  simp only [hread, Guards.ok_bind, hlenPlain]
  unfold unpackText
  simp only [hroom, hlen, hlong]
  unfold packText at hpack
  split_ifs at hpack with hcompress
  · -- the text is compressed
    have hfirst : readAt (resize vchMessage (message.length + 1)) 0 1 = .ok _ := if_pos (by omega)
    rw [if_pos hcompress, hfirst, Guards.ok_bind]
    cases hcomp : env.lz4Compress message with
    | none =>
      rw [hcomp] at hpack
      cases hpack
    | some vchCompressed =>
      rw [hcomp] at hpack
      obtain rfl := Except.ok.inj hpack
      obtain ⟨hpos, hbound⟩ := hc.lz4_size _ _ hcomp
      have hsmall : vchCompressed.length < 2 ^ 31 := by
        unfold lz4CompressBound at hbound
        split_ifs at hbound <;> omega
      have hlenData : asInt (UInt32.ofNat (front ++ (ofUInt32 (UInt32.ofNat message.length) ++ vchCompressed)).length
          - UInt32.ofNat (plHdrLen fFromAnonymous)) = vchCompressed.length := by
        have htotal : (front ++ (ofUInt32 (UInt32.ofNat message.length) ++ vchCompressed)).length
            = vchCompressed.length + plHdrLen fFromAnonymous := by
          simp [← hfront]
          omega
        have htoNat : (UInt32.ofNat vchCompressed.length).toNat = vchCompressed.length := by
          rw [UInt32.toNat_ofNat', Nat.mod_eq_of_lt (by omega)]
        rw [htotal, UInt32.ofNat_add, UInt32.add_sub_cancel, asInt_eq (by omega), htoNat]
      have hlenInt : asInt (UInt32.ofNat message.length) = message.length := by
        rw [asInt_eq (by omega), hlen]
      have hinput : lz4DecompressSafe env (front ++ (ofUInt32 (UInt32.ofNat message.length) ++ vchCompressed))
          (plHdrLen fFromAnonymous) vchCompressed.length message.length = .ok ((message.length : Int), message) := by
        have h := readAt_parts (a := front ++ ofUInt32 (UInt32.ofNat message.length)) (b := vchCompressed) (c := [])
          (p := plHdrLen fFromAnonymous) (n := max vchCompressed.length 1) (by simp [← hfront]) (by omega)
        rw [List.append_nil, List.append_assoc] at h
        unfold lz4DecompressSafe
        rw [Int.toNat_natCast, h, Guards.ok_bind, List.take_length, hc.lz4 _ _ hcomp]
        rfl
      rw [hlenData, hlenInt, hinput, Guards.ok_bind]
      obtain ⟨vchMessage', hwrite, hnul⟩ := Guards.bind_eq_ok.mp (writeText message hbuf)
      simp only [hwrite, Guards.ok_bind, bne_self_eq_false, returnIf_false]
      exact hnul
  · -- the text is copied
    rw [if_neg hcompress]
    obtain rfl := Except.ok.inj hpack
    have htext : readAt (front ++ (ofUInt32 (UInt32.ofNat message.length) ++ message)) (plHdrLen fFromAnonymous)
        message.length = .ok message := by
      have h := readAt_parts (a := front ++ ofUInt32 (UInt32.ofNat message.length)) (b := message) (c := [])
        (p := plHdrLen fFromAnonymous) (n := message.length) (by simp [← hfront]) rfl
      rwa [List.append_nil, List.append_assoc] at h
    rw [htext, Guards.ok_bind]
    exact writeText message hbuf

end Text

theorem length_keyIDBytes (id : CKeyID) : (keyIDBytes id).length = 20 := LittleEndian.length_ofNat _ _

theorem keyIDOfBytes_keyIDBytes (id : CKeyID) : keyIDOfBytes (keyIDBytes id) = id := by
  have hlt : id.toNat < 256 ^ 20 := by
    have := id.isLt
    omega
  unfold keyIDOfBytes keyIDBytes
  rw [LittleEndian.toNat_ofNat hlt, BitVec.ofNat_toNat, BitVec.setWidth_eq]

theorem isValid_setKeyID (testNet : Bool) (id : CKeyID) :
    (CBase58Data.setKeyID testNet id).isValid testNet = true := by
  simp [CBase58Data.isValid, CBase58Data.setKeyID, keyIDBytes]

theorem eq_setKeyID {testNet : Bool} {address : CBase58Data} {id : CKeyID} (h : address.getKeyID testNet = some id)
    : address = CBase58Data.setKeyID testNet id := by
  unfold CBase58Data.getKeyID CBase58Data.isValid at h
  split_ifs at h with hbad
  simp only [Bool.or_eq_true, Bool.not_eq_true', bne_iff_ne, not_or, Bool.not_eq_false, ne_eq, not_not,
    Bool.and_eq_true, beq_iff_eq] at hbad
  obtain ⟨⟨hsize, -⟩, hversion⟩ := hbad
  have hbytes : keyIDBytes id = address.vchData := by
    have htake : address.vchData.take 20 = address.vchData := List.take_of_length_le (by omega)
    have hlt : LittleEndian.toNat address.vchData < 2 ^ 160 := by
      have := LittleEndian.toNat_lt address.vchData
      rw [hsize] at this
      omega
    rw [← Option.some.inj h, htake]
    unfold keyIDBytes keyIDOfBytes
    rw [BitVec.toNat_ofNat, Nat.mod_eq_of_lt hlt]
    exact LittleEndian.ofNat_toNat hsize
  unfold CBase58Data.setKeyID
  rw [hbytes, ← hversion]

theorem getVersion_ne (testNet : Bool) (id : CKeyID) : (CBase58Data.setKeyID testNet id).getVersion ≠ 250 := by
  cases testNet <;> simp [CBase58Data.getVersion, CBase58Data.setKeyID, pubkeyAddressPrefix]

/-- **The sender.** The name and the signature that a payload carries are those of its sender. -/
theorem readSender_signedPayload {env : SmsgEnv} (hc : env.Correct) {keyFrom : CKey} {ckidFrom : CKeyID}
    (hid : env.getID (env.getPubKey keyFrom) = ckidFrom) (hcompressed : keyFrom.fCompressed = true)
    (version : UInt8) (message rest : Bytes) :
    readSender env ([version] ++ (keyIDBytes ckidFrom ++ (env.signCompact keyFrom (env.hash message) ++ rest)))
      (message ++ [0]) = .ok (CBase58Data.setKeyID env.testNet ckidFrom, ckidFrom, env.getPubKey keyFrom) := by
  have hname : readAt ([version] ++ (keyIDBytes ckidFrom ++ (env.signCompact keyFrom (env.hash message) ++ rest)))
      1 20 = .ok (keyIDBytes ckidFrom) := readAt_parts rfl (by simp [keyIDBytes])
  have hsig : readAt ([version] ++ (keyIDBytes ckidFrom ++ (env.signCompact keyFrom (env.hash message) ++ rest)))
      (1 + 20) 65 = .ok (env.signCompact keyFrom (env.hash message)) := by
    have h := readAt_parts (a := [version] ++ keyIDBytes ckidFrom)
      (b := env.signCompact keyFrom (env.hash message)) (c := rest) (p := 1 + 20) (n := 65)
      (by simp [keyIDBytes]) (hc.signature_size _ _).symm
    rwa [List.append_assoc] at h
  unfold readSender
  simp only [hname, hsig, Guards.ok_bind, keyIDOfBytes_keyIDBytes, isValid_setKeyID, List.dropLast_concat,
    hc.recover _ _ hcompressed, hc.pubKey_valid, hid, Bool.not_true, bne_self_eq_false, returnIf_false]
  rfl

section RoundTrip

variable {env : SmsgEnv} {wallet : SmsgWallet} {db : SecMsgDB} {now : Int} {iv message payload : Bytes} {keyR : CKey}
  {smsg smsg' : SecureMessage} {addressFrom addressTo sFromAddress : String}

theorem OwnedAddress.parseDestination {address : String} {coinAddr : CBase58Data}
    (h : OwnedAddress env wallet address coinAddr ckid key) (rv : Int) :
    parseDestination env address rv = .ok ckid := by
  unfold Smsg.parseDestination
  rw [h.parsed, orReturn_some, Guards.ok_bind, h.keyID, orReturn_some]

theorem KnowsKeys.destination (hknows : KnowsKeys env wallet db) {cpk : CPubKey}
    (howned : wallet.getKey ckid = some key)
    (h : (secureMsgGetStoredKey db ckid).or (secureMsgGetLocalKey wallet ckid) = some cpk) :
    cpk = env.getPubKey key := by
  rcases Option.or_eq_some_iff.mp h with hstored | ⟨-, hlocal⟩
  · unfold secureMsgGetStoredKey at hstored
    split_ifs at hstored
    exact hknows.stored_key ckid key cpk howned hstored
  · unfold secureMsgGetLocalKey at hlocal
    obtain ⟨cpk', hcpk', hchecked⟩ := Option.bind_eq_some_iff.mp hlocal
    split_ifs at hchecked
    rw [← Option.some.inj hchecked]
    exact hknows.local_key ckid key cpk' howned hcpk'

theorem readPayload_buildPayload (hc : env.Correct) (hknows : KnowsKeys env wallet db)
    {sender : Option (CBase58Data × CKeyID)} {vchPayload : Bytes}
    (hsize : message.length ≤ smsgMaxMsgBytes) (hsender : OwnedSender env wallet addressFrom sFromAddress)
    (hparse : parseSender env addressFrom = .ok sender)
    (hbuild : buildPayload env wallet sender message = .ok vchPayload) (timestamp : Int) (msg : MessageData)
    (db' : SecMsgDB) : (readPayload env vchPayload timestamp msg db').1
      = .ok { timestamp, sFromAddress, vchMessage := message ++ [0] } := by
  unfold buildPayload at hbuild
  obtain ⟨data, hpack, hbuild⟩ := Guards.bind_eq_ok.mp hbuild
  unfold parseSender at hparse
  cases hsender with
  | anon =>
    rw [if_pos rfl] at hparse
    obtain rfl := Except.ok.inj hparse
    simp only [anonymousPayload_eq, Except.ok.injEq] at hbuild
    subst hbuild
    have htext := readText_packText hc [250, 0, 0, 0, 0] true hsize hpack rfl msg.vchMessage
    have hfirst : readAt ([250, 0, 0, 0, 0] ++ (ofUInt32 (UInt32.ofNat message.length) ++ data)) 0 1 = .ok [250] :=
      readAt_parts (a := []) (b := [250]) rfl rfl
    unfold readPayload
    rw [Exec.bind_of_ok (t := db') (by rw [Exec.lift_apply, hfirst])]
    simp only [beq_self_eq_true]
    rw [Exec.bind_of_ok (t := db') (by rw [Exec.lift_apply, htext])]
    rfl
  | @address _ coinAddrFrom ckidFrom keyFrom named parsed keyID owned compressed =>
    rw [if_neg named] at hparse
    rw [parsed, orReturn_some, Guards.ok_bind, keyID, orReturn_some, Guards.ok_bind] at hparse
    obtain rfl := Except.ok.inj hparse
    have haddress := eq_setKeyID keyID
    simp only [owned] at hbuild
    have hsigned : signedPayload coinAddrFrom.getVersion (keyIDBytes ckidFrom)
        (env.signCompact keyFrom (env.hash message)) (UInt32.ofNat message.length) data = _ :=
      signedPayload_eq _ _ (LittleEndian.length_ofNat _ _) (hc.signature_size _ _)
    rw [orReturn_some, Guards.ok_bind, hsigned] at hbuild
    obtain rfl := Except.ok.inj hbuild
    have htext := readText_packText hc
      ([coinAddrFrom.getVersion] ++ (keyIDBytes ckidFrom ++ env.signCompact keyFrom (env.hash message))) false
      hsize hpack (by simp [keyIDBytes, hc.signature_size, plHdrLen, smsgPlHdrLen]) msg.vchMessage
    simp only [List.append_assoc] at htext
    have hfirst : readAt ([coinAddrFrom.getVersion] ++ (keyIDBytes ckidFrom
        ++ (env.signCompact keyFrom (env.hash message) ++ (ofUInt32 (UInt32.ofNat message.length) ++ data)))) 0 1
        = .ok [coinAddrFrom.getVersion] := readAt_parts (a := []) (b := [coinAddrFrom.getVersion]) rfl rfl
    have hversion : ([coinAddrFrom.getVersion] == ([250] : Bytes)) = false := by
      rw [beq_eq_false_iff_ne, haddress]
      simpa using getVersion_ne env.testNet ckidFrom
    have hread := readSender_signedPayload hc (hknows.key_id _ _ owned) compressed coinAddrFrom.getVersion message
      (ofUInt32 (UInt32.ofNat message.length) ++ data)
    unfold readPayload
    rw [Exec.bind_of_ok (t := db') (by rw [Exec.lift_apply, hfirst])]
    simp only [hversion]
    rw [Exec.bind_of_ok (t := db') (by rw [Exec.lift_apply, htext])]
    simp only [Bool.false_eq_true, if_false]
    rw [Exec.bind_of_ok (t := db') (by rw [Exec.lift_apply, hread]), haddress]
    rfl

theorem secretOf_encrypted (hc : env.Correct) (smsg' : SecureMessage) {vchP : Bytes} (hdest : OwnedAddress env wallet addressTo coinAddrDest ckidDest keyDest)
    (hversion : smsg'.version = [1, 1]) (hcpkR : smsg'.cpkR = env.getPubKey keyR)
    (hsecret : env.ecdhComputeKey (env.getPubKey keyDest) keyR = some vchP) :
    secretOf env wallet addressTo smsg' = .ok (deriveKeys env vchP) := by
  have hshared : env.ecdhComputeKey (env.getPubKey keyR) keyDest = some vchP := by
    rw [hc.agree]
    exact hsecret
  unfold secretOf
  simp only [hversion, List.head?_cons, bne_self_eq_false, returnIf_false, hdest.parseDestination, hdest.owned,
    orReturn_some, hcpkR, hc.pubKey_size, hc.pubKey_valid, hc.ecSetPubKey, Bool.not_true, hshared, Guards.ok_bind]
  rfl

/-- **The round trip.** What `SecureMsgEncrypt` makes of a message to an address of the wallet is decrypted with that
    address to the message and a NUL, its sender and the time at which it was encrypted. -/
theorem secureMsgDecrypt_secureMsgEncrypt (hc : env.Correct) (hknows : KnowsKeys env wallet db)
    (hsender : OwnedSender env wallet addressFrom sFromAddress) {coinAddrDest : CBase58Data} {ckidDest : CKeyID}
    {keyDest : CKey} (hdest : OwnedAddress env wallet addressTo coinAddrDest ckidDest keyDest)
    (h : secureMsgEncrypt env wallet db now iv keyR smsg addressFrom addressTo message = .ok (smsg', payload))
    (msg : MessageData) (db' : SecMsgDB) : (secureMsgDecrypt env wallet false addressTo smsg' payload msg db').1
      = .ok { timestamp := now, sFromAddress, vchMessage := message ++ [0] } := by
  unfold secureMsgEncrypt at h
  simp only [Guards.bind_eq_ok, hdest.parseDestination, orReturn_eq_ok, returnIf_eq_ok, Except.ok.injEq,
    decide_eq_false_iff_not, Nat.not_lt, gt_iff_lt] at h
  obtain ⟨_, hsize, sender, hparse, _, rfl, cpkDestK, hknown, _, -, vchP, hsecret, _, -, vchPayload, hbuild,
    vchCiphertext, hcipher, mac, hmac, hresult⟩ := h
  obtain ⟨rfl, rfl⟩ := Prod.mk.inj (Except.ok.inj hresult)
  rw [hknows.destination hdest.owned hknown] at hsecret
  have hsecretOf := secretOf_encrypted hc { smsg with
    version := [1, 1], timestamp := now, iv, cpkR := env.getPubKey keyR, mac
    nPayload := UInt32.ofNat vchCiphertext.length } hdest rfl rfl hsecret
  have hplain : env.aesDecrypt (deriveKeys env vchP).1 iv vchCiphertext = some vchPayload := hc.aes _ _ _ _ hcipher
  unfold secureMsgDecrypt
  rw [Exec.bind_of_ok (t := db') (by rw [Exec.lift_apply, hsecretOf])]
  rw [Exec.bind_of_ok (t := db') (a := ()) (by
    unfold checkMac
    rw [Exec.lift_apply, hmac]
    simp)]
  simp only [Bool.false_eq_true, if_false]
  rw [Exec.bind_of_ok (t := db') (by rw [Exec.lift_apply, hplain, orReturn_some])]
  exact readPayload_buildPayload hc hknows hsize hsender hparse hbuild now msg db'

end RoundTrip

namespace Sample

/-! A greeting from nobody to the owner of the secret 1, encrypted with the secret 2. -/

def keyOf (secret : UInt8) : CKey := ⟨List.replicate 31 0 ++ [secret], true, by simp⟩

def pubKeyDest : CPubKey :=
  [0x02, 0x79, 0xbe, 0x66, 0x7e, 0xf9, 0xdc, 0xbb, 0xac, 0x55, 0xa0, 0x62, 0x95, 0xce, 0x87, 0x0b, 0x07,
    0x02, 0x9b, 0xfc, 0xdb, 0x2d, 0xce, 0x28, 0xd9, 0x59, 0xf2, 0x81, 0x5b, 0x16, 0xf8, 0x17, 0x98]

def pubKeyR : CPubKey :=
  [0x02, 0xc6, 0x04, 0x7f, 0x94, 0x41, 0xed, 0x7d, 0x6d, 0x30, 0x45, 0x40, 0x6e, 0x95, 0xc0, 0x7c, 0xd8,
    0x5c, 0x77, 0x8e, 0x4b, 0x8c, 0xef, 0x3c, 0xa7, 0xab, 0xac, 0x09, 0xb9, 0x5c, 0x70, 0x9e, 0xe5]

def secretHash : Bytes :=
  [0x11, 0xa1, 0xad, 0xf9, 0x35, 0xed, 0x58, 0x5e, 0xc6, 0x73, 0xa7, 0x66, 0x90, 0x31, 0x00, 0x81,
    0x68, 0x89, 0x0c, 0x01, 0xad, 0xb0, 0xa7, 0xe4, 0xbd, 0xc5, 0x41, 0x5f, 0x76, 0x18, 0x6e, 0x02,
    0x71, 0x62, 0xdc, 0x96, 0x1d, 0x2d, 0xc6, 0x76, 0xa3, 0x1c, 0xaa, 0x14, 0xe0, 0x71, 0x20, 0xff,
    0x4f, 0x7b, 0x44, 0xda, 0x25, 0xe6, 0x4a, 0x93, 0x4f, 0xc8, 0xcd, 0x81, 0x5a, 0xdc, 0x9a, 0xe5]

def greeting : Bytes := [250, 0, 0, 0, 0, 2, 0, 0, 0, 104, 105]

def greetingEncrypted : Bytes :=
  [0x56, 0x53, 0x7f, 0x65, 0x0a, 0xc8, 0x37, 0xef, 0x3f, 0xeb, 0xa2, 0x8e, 0x72, 0x5a, 0x1c, 0x95]

def greetingMac : Bytes :=
  [0xf1, 0x0c, 0x8c, 0x7f, 0x34, 0x16, 0xcc, 0x31, 0xb5, 0xfd, 0x0b, 0x0f, 0x00, 0x13, 0x28, 0xcb,
    0xe8, 0xcd, 0x04, 0x1e, 0xb6, 0xbf, 0x17, 0x78, 0xb1, 0x74, 0xba, 0x79, 0x09, 0x26, 0x0f, 0x8f]

def greetingIv : Bytes := [0, 1, 2, 3, 4, 5, 6, 7, 8, 9, 10, 11, 12, 13, 14, 15]

/-! A long letter from the owner of the secret 1 to himself: it is signed and compressed. -/

def letter : Bytes := List.replicate 200 0x61

def letterCompressed : Bytes := [0x1f, 0x61, 1, 0, 0xaf, 0x50] ++ List.replicate 5 0x61

def letterHash : UInt256 := 0xdf616a893259ed0711dc343e9ca170397a7e48d025b8e1faffe8da3cc689f6f4

def letterSig : Bytes :=
  LittleEndian.ofNat 65 0x28a52dca84603430d25b778bd755890cbaa66bc51766d8f3f092b6c8639bc71f4ddacf3de7aa6e3cf04a0150065ca2ca4a50bcf820442875c7c64acf63504fb020

def letterEncrypted : Bytes :=
  LittleEndian.ofNat 112 0xb61eeaa449bfcd5ae4f33e1bd78b720b46ce0906e4926fbd842f3f4273c4d0120c1ec3b4f783e5d6b685eae312db346b768b55767621b17b00dbfe692bc0bfe5139ab03f582c371f4abe387d4ba9c1a2218e717d900d3678b25dab3f7183e845142d8c5026434394d38bf4c3b0d170a6

def letterMac : Bytes :=
  LittleEndian.ofNat 32 0x95cc89b7b524a67cf9c353f9dc35749f06d834bd494c6593ae0db176d2b0ef90

def destID : CKeyID := 0xd63b43f123a3b3d1451c9454d4969119e8761e75

def destAddress : CBase58Data := CBase58Data.setKeyID false destID

def letterPayload : Bytes := 55 :: (keyIDBytes destID ++ (letterSig ++ (ofUInt32 200 ++ letterCompressed)))

def pubKeyOf (key : CKey) : CPubKey :=
  if key = keyOf 1 then pubKeyDest else if key = keyOf 2 then pubKeyR else 2 :: key.vch

def messageEnv : SmsgEnv where
  testNet := false
  setString s := if s = "PKGSi8HTQzLx89rkZrRrVkPFjrcSC55NP9" then some destAddress else none
  toString _ := "PKGSi8HTQzLx89rkZrRrVkPFjrcSC55NP9"
  getPubKey := pubKeyOf
  getID pubKey := if pubKey = pubKeyDest then destID else 0
  ecSetPubKey _ := true
  ecdhComputeKey pubKey key :=
    if (pubKey = pubKeyDest ∧ pubKeyOf key = pubKeyR) ∨ (pubKey = pubKeyR ∧ pubKeyOf key = pubKeyDest) then
      some (pubKeyR.drop 1)
    else none
  sha512 vchP := if vchP = pubKeyR.drop 1 then secretHash else []
  aesEncrypt key iv vchPlaintext :=
    if key = secretHash.take 32 ∧ iv = greetingIv ∧ vchPlaintext = greeting then some greetingEncrypted
    else if key = secretHash.take 32 ∧ iv = greetingIv ∧ vchPlaintext = letterPayload then some letterEncrypted
    else none
  aesDecrypt key iv vchCiphertext :=
    if key = secretHash.take 32 ∧ iv = greetingIv ∧ vchCiphertext = greetingEncrypted then some greeting
    else if key = secretHash.take 32 ∧ iv = greetingIv ∧ vchCiphertext = letterEncrypted then some letterPayload
    else none
  hmacSha256 key_m bytes :=
    if key_m = secretHash.drop 32 ∧ bytes = LittleEndian.ofInt 8 1700000000 ++ greetingEncrypted then
      some greetingMac
    else if key_m = secretHash.drop 32 ∧ bytes = LittleEndian.ofInt 8 1700000000 ++ letterEncrypted then some letterMac
    else none
  hash text := if text = letter then letterHash else 0
  signCompact key hash :=
    if key = keyOf 1 ∧ hash = letterHash then letterSig else 31 :: key.vch ++ List.replicate 32 0
  recoverCompact hash vchSig :=
    if vchSig = letterSig then if hash = letterHash then pubKeyDest else []
    else if h : ((vchSig.drop 1).take 32).length = 32 then pubKeyOf ⟨(vchSig.drop 1).take 32, true, h⟩
    else []
  lz4Compress text := if text = letter then some letterCompressed else none
  lz4Decompress input maxOutputSize :=
    if input = letterCompressed ∧ maxOutputSize = 200 then (200, letter) else (-2, [])

def messageWallet : SmsgWallet where
  getKey ckid := if ckid = destID then some (keyOf 1) else none
  getPubKey ckid := if ckid = destID then some pubKeyDest else none

def messageDb : SecMsgDB := ⟨true, true, fun _ => none⟩

theorem length_pubKeyOf (key : CKey) : (pubKeyOf key).length = 33 ∧ (pubKeyOf key).head? = some 2 := by
  unfold pubKeyOf
  split_ifs
  · exact ⟨rfl, rfl⟩
  · exact ⟨rfl, rfl⟩
  · exact ⟨by simp [key.size], rfl⟩

theorem messageEnv_correct : messageEnv.Correct where
  pubKey_size key := by
    show pubKeyOfBytes (pubKeyOf key) = pubKeyOf key
    rw [pubKeyOfBytes, (length_pubKeyOf key).1, (length_pubKeyOf key).2]
    rfl
  pubKey_valid key := by
    have h := (length_pubKeyOf key).1
    change decide ((pubKeyOf key).length > 0) = true
    rw [h]
    rfl
  ecSetPubKey _ := rfl
  agree key key' := by
    simp only [messageEnv]
    exact if_congr (by tauto) rfl rfl
  aes key iv vchPlaintext vchCiphertext h := by
    have hne : letterEncrypted ≠ greetingEncrypted := by decide
    simp only [messageEnv] at h ⊢
    split_ifs at h with hgreeting hletter
    · obtain rfl := Option.some.inj h
      rw [if_pos ⟨hgreeting.1, hgreeting.2.1, rfl⟩, hgreeting.2.2]
    · obtain rfl := Option.some.inj h
      rw [if_neg fun heq => hne heq.2.2, if_pos ⟨hletter.1, hletter.2.1, rfl⟩, hletter.2.2]
  signature_size key hash := by
    simp only [messageEnv]
    split_ifs
    · rfl
    · simp [key.size]
  recover key hash hcompressed := by
    have htake : ((31 :: key.vch ++ List.replicate 32 0).drop 1).take 32 = key.vch := by
      rw [List.cons_append, List.drop_one, List.tail_cons, ← key.size, List.take_left]
    have hsize : (((31 :: key.vch ++ List.replicate 32 0).drop 1).take 32).length = 32 := by
      rw [htake]
      exact key.size
    have hkey : (⟨((31 :: key.vch ++ List.replicate 32 0).drop 1).take 32, true, hsize⟩ : CKey) = key := by
      obtain ⟨vch, fCompressed, size⟩ := key
      rw [CKey.mk.injEq]
      exact ⟨htake, hcompressed.symm⟩
    have hother : 31 :: key.vch ++ List.replicate 32 0 ≠ letterSig := fun heq =>
      absurd (congrArg List.head? heq) (show some 31 ≠ letterSig.head? by decide)
    simp only [messageEnv]
    by_cases hletter : key = keyOf 1 ∧ hash = letterHash
    · rw [if_pos hletter, if_pos rfl, if_pos hletter.2, hletter.1]
      rfl
    · rw [if_neg hletter, if_neg hother, dif_pos hsize, hkey]
  lz4_size text vchCompressed h := by
    simp only [messageEnv] at h
    split_ifs at h with htext
    rw [← Option.some.inj h, htext]
    decide +kernel
  lz4 text vchCompressed h := by
    simp only [messageEnv] at h
    split_ifs at h with htext
    rw [← Option.some.inj h, htext, show letter.length = 200 from List.length_replicate]
    rfl

theorem messageWallet_knowsKeys : KnowsKeys messageEnv messageWallet messageDb where
  key_id ckid key h := by
    simp only [messageWallet] at h
    split_ifs at h with hid
    obtain rfl := Option.some.inj h
    rw [hid]
    rfl
  local_key ckid key cpk h hpub := by
    simp only [messageWallet] at h hpub
    split_ifs at h hpub with hid
    obtain rfl := Option.some.inj h
    obtain rfl := Option.some.inj hpub
    rfl
  stored_key ckid key cpk _ h := by simp [messageDb] at h

def blankMessage : SecureMessage where
  hash := List.replicate 4 0
  version := [0, 0]
  flags := [0]
  timestamp := 0
  iv := List.replicate 16 0
  cpkR := List.replicate 33 0
  mac := List.replicate 32 0
  nonse := List.replicate 4 0
  nPayload := 0

def greetingMessage : SecureMessage :=
  { blankMessage with
    version := [1, 1], timestamp := 1700000000, iv := greetingIv, cpkR := pubKeyR, mac := greetingMac, nPayload := 16 }

def letterMessage : SecureMessage := { greetingMessage with mac := letterMac, nPayload := 112 }

theorem destAddress_owned : OwnedAddress messageEnv messageWallet "PKGSi8HTQzLx89rkZrRrVkPFjrcSC55NP9" destAddress
    destID (keyOf 1) := ⟨rfl, by rfl, rfl⟩

/-- The greeting is anonymous and short, the letter is signed and compressed. -/
theorem greeting_decrypted :
    secureMsgEncrypt messageEnv messageWallet messageDb 1700000000 greetingIv (keyOf 2) blankMessage "anon"
        "PKGSi8HTQzLx89rkZrRrVkPFjrcSC55NP9" [104, 105] = .ok (greetingMessage, greetingEncrypted)
    ∧ (secureMsgDecrypt messageEnv messageWallet false "PKGSi8HTQzLx89rkZrRrVkPFjrcSC55NP9" greetingMessage
        greetingEncrypted ⟨0, "", []⟩ messageDb).1
      = .ok { timestamp := 1700000000, sFromAddress := "anon", vchMessage := [104, 105, 0] }
    ∧ secureMsgEncrypt messageEnv messageWallet messageDb 1700000000 greetingIv (keyOf 2) blankMessage
        "PKGSi8HTQzLx89rkZrRrVkPFjrcSC55NP9" "PKGSi8HTQzLx89rkZrRrVkPFjrcSC55NP9" letter
      = .ok (letterMessage, letterEncrypted)
    ∧ (secureMsgDecrypt messageEnv messageWallet false "PKGSi8HTQzLx89rkZrRrVkPFjrcSC55NP9" letterMessage
        letterEncrypted ⟨0, "", []⟩ messageDb).1
      = .ok { timestamp := 1700000000, sFromAddress := "PKGSi8HTQzLx89rkZrRrVkPFjrcSC55NP9"
              vchMessage := letter ++ [0] } := by
  have hencrypt : secureMsgEncrypt messageEnv messageWallet messageDb 1700000000 greetingIv (keyOf 2) blankMessage
      "anon" "PKGSi8HTQzLx89rkZrRrVkPFjrcSC55NP9" [104, 105] = .ok (greetingMessage, greetingEncrypted) := by rfl
  have hletter : secureMsgEncrypt messageEnv messageWallet messageDb 1700000000 greetingIv (keyOf 2) blankMessage
      "PKGSi8HTQzLx89rkZrRrVkPFjrcSC55NP9" "PKGSi8HTQzLx89rkZrRrVkPFjrcSC55NP9" letter
      = .ok (letterMessage, letterEncrypted) := by decide +kernel
  have hsender := OwnedSender.address (by decide) destAddress_owned.parsed destAddress_owned.keyID
    destAddress_owned.owned rfl
  exact ⟨hencrypt, secureMsgDecrypt_secureMsgEncrypt messageEnv_correct messageWallet_knowsKeys .anon
      destAddress_owned hencrypt ⟨0, "", []⟩ messageDb,
    hletter, secureMsgDecrypt_secureMsgEncrypt messageEnv_correct messageWallet_knowsKeys hsender
      destAddress_owned hletter ⟨0, "", []⟩ messageDb⟩

end Sample

end PupaCoin.Smsg
