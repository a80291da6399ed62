import PupaCoin.Smsg.Store

/-!
# Exchanging messages with peers (`SecureMsgReceiveData`, `SecureMsgReceive`, `ThreadSecureMsg`)

A peer announces its buckets, is asked what is in them, is asked for the messages that are missing here, and sends these
in a bunch. A bucket is locked for the peer that has been asked for messages; a thread unlocks it after a while and
removes old buckets. A function that returns `false` stops with 0.
-/

namespace PupaCoin.Smsg

def misbehaving (pfrom : NodeId) (howmuch : Nat) : Exec SmsgNode Stop Unit :=
  Exec.update fun s => { s with
    nMisbehavior := Function.update s.nMisbehavior pfrom (s.nMisbehavior pfrom + howmuch) }

def pushMessage (pto : NodeId) (strCommand : String) (vchData : Bytes) : Exec SmsgNode Stop Unit :=
  Exec.update fun s => { s with sent := s.sent ++ [(pto, strCommand, vchData)] }

/-- A call whose caller goes on whatever it returns: `none` where it is not 0. -/
def attempt {α : Type} (m : Exec SmsgNode Stop α) : Exec SmsgNode Stop (Option α) := fun s =>
  match m s with
  | (.ok a, s') => (.ok (some a), s')
  | (.error (.rv _), s') => (.ok none, s')
  | (.error e, s') => (.error e, s')

/-- A call of a function that works on the database of public keys. -/
def onAddrpkdb {α : Type} (m : Exec SecMsgDB Stop α) : Exec SmsgNode Stop α := fun s =>
  ((m s.addrpkdb).1, { s with addrpkdb := (m s.addrpkdb).2 })

/-- What becomes of a bucket that a peer announces. -/
inductive InvAnswer where
  | ignored
  | locked
  | matched
  | wanted
deriving DecidableEq, Repr

/-- The loop of `smsgInv` at one bucket. -/
def invBucket (now : Int) (pfrom : NodeId) (time : Int) (ncontent hash : UInt32) : Exec SmsgNode Stop InvAnswer := do
  if time < now - smsgRetention then
    if time < now - smsgRetention - smsgTimeLeeway then misbehaving pfrom 1
    return .ignored
  else if time > now + smsgTimeLeeway then
    misbehaving pfrom 1
    return .ignored
  else if ncontent < 1 then return .ignored
  else
    let bucket ← subscript time
    let size := bucket.setTokens.entries.length
    if bucket.nLockCount > 0 then return .locked
    else if size < ncontent.toNat ∨ (size = ncontent.toNat ∧ bucket.hash ≠ hash) then return .wanted
    else return .matched

/-- The loop of `smsgInv` over as many buckets from `&vchData[p]` on: how many are locked, `vchDataOut` and
    `nShowBuckets`. -/
def invBuckets (now : Int) (pfrom : NodeId) (vchData : Bytes) :
    Nat → Nat → Nat → Bytes → UInt32 → Exec SmsgNode Stop (Nat × Bytes × UInt32)
  | 0, _, nLocked, vchDataOut, nShowBuckets => return (nLocked, vchDataOut, nShowBuckets)
  | count + 1, p, nLocked, vchDataOut, nShowBuckets => do
    let time ← Exec.lift (readAt vchData p 8)
    let ncontent ← Exec.lift (readAt vchData (p + 8) 4)
    let hash ← Exec.lift (readAt vchData (p + 12) 4)
    match ← invBucket now pfrom (LittleEndian.toInt time) (toUInt32 ncontent) (toUInt32 hash) with
    | .ignored => invBuckets now pfrom vchData count (p + 16) nLocked vchDataOut nShowBuckets
    | .matched => invBuckets now pfrom vchData count (p + 16) nLocked vchDataOut nShowBuckets
    | .locked => invBuckets now pfrom vchData count (p + 16) (nLocked + 1) vchDataOut nShowBuckets
    | .wanted =>
      let sz := vchDataOut.length
      let vchDataOut ← Exec.lift (writeAt (resize vchDataOut (sz + 8)) sz time)
      invBuckets now pfrom vchData count (p + 16) nLocked vchDataOut (nShowBuckets + 1)

def smsgInv (pfrom : NodeId) (vchData : Bytes) : Exec SmsgNode Stop Unit := do
  if vchData.length < 4 then
    misbehaving pfrom 1
    Exec.stop (.rv 0)
  else
    let now ← getTime
    let s ← Exec.read
    Exec.lift (returnIf (now < s.ignoreUntil pfrom) 0)
    let nInvBuckets := toUInt32 (← Exec.lift (readAt vchData 0 4))
    if nInvBuckets > 288 + 1 then
      misbehaving pfrom 1
      Exec.stop (.rv 0)
    else if vchData.length < (4 + nInvBuckets * 16).toNat then
      misbehaving pfrom 1
      Exec.stop (.rv 0)
    else
      let (nLocked, vchDataOut, nShowBuckets) ←
        invBuckets now pfrom vchData nInvBuckets.toNat 4 0 (List.replicate 4 0) 0
      let vchDataOut ← Exec.lift (writeAt vchDataOut 0 (ofUInt32 nShowBuckets))
      if vchDataOut.length > 4 then pushMessage pfrom "smsgShow" vchDataOut
      else if nLocked < 1 then
        let vchDataOut ← Exec.lift (writeAt (resize vchDataOut 8) 0 (LittleEndian.ofInt 8 now))
        pushMessage pfrom "smsgMatch" vchDataOut

/-- The tokens of a bucket copied to `&vchDataOut[p]` and behind it. -/
def writeTokens (vchDataOut : Bytes) : Nat → List (TokenKey × Int) → Except Stop Bytes
  | _, [] => .ok vchDataOut
  | p, token :: tokens => do
    let vchDataOut ← writeAt vchDataOut p (LittleEndian.ofInt 8 (ofLex token.1).1)
    let vchDataOut ← writeAt vchDataOut (p + 8) (ofLex token.1).2.val
    writeTokens vchDataOut (p + 16) tokens

def showBucket (pfrom : NodeId) (time : Bytes) (bucket : SecMsgBucket) (vchDataOut : Bytes) :
    Exec SmsgNode Stop Bytes := do
  let tokens := bucket.setTokens.entries
  let vchDataOut ← Exec.lift (writeAt (resize vchDataOut (8 + 16 * tokens.length)) 0 time)
  let vchDataOut ← Exec.lift (writeTokens vchDataOut 8 tokens)
  pushMessage pfrom "smsgHave" vchDataOut
  return vchDataOut

/-- The loop of `smsgShow` over as many buckets from `&vchData[pIn]` on. -/
def showBuckets (pfrom : NodeId) (vchData : Bytes) : Nat → Nat → Bytes → Exec SmsgNode Stop Unit
  | 0, _, _ => return ()
  | count + 1, pIn, vchDataOut => do
    let time ← Exec.lift (readAt vchData pIn 8)
    let s ← Exec.read
    match s.smsgBuckets.find? (LittleEndian.toInt time) with
    | none => showBuckets pfrom vchData count (pIn + 8) vchDataOut
    | some bucket =>
      let vchDataOut ← showBucket pfrom time bucket vchDataOut
      showBuckets pfrom vchData count (pIn + 8) vchDataOut

def smsgShow (pfrom : NodeId) (vchData : Bytes) : Exec SmsgNode Stop Unit := do
  Exec.lift (returnIf (vchData.length < 4) 0)
  let nBuckets := toUInt32 (← Exec.lift (readAt vchData 0 4))
  Exec.lift (returnIf (vchData.length < (4 + nBuckets * 8).toNat) 0)
  showBuckets pfrom vchData nBuckets.toNat 4 []

/-- The loop of `smsgHave` over as many tokens from `&vchData[p]` on: those that are not known. -/
def siftTokens (tokenSet : TokenSet) (vchData : Bytes) : Nat → Nat → Bytes → Except Stop Bytes
  | 0, _, vchDataOut => .ok vchDataOut
  | n + 1, p, vchDataOut => do
    let timestamp ← readAt vchData p 8
    let sample ← readAt vchData (p + 8) 8
    if (tokenSet.find? (toLex (LittleEndian.toInt timestamp, Sample.ofBytes sample))).isSome then
      siftTokens tokenSet vchData n (p + 16) vchDataOut
    else
      let nd := vchDataOut.length
      let vchDataOut ← writeAt (resize vchDataOut (nd + 16)) nd (← readAt vchData p 16)
      siftTokens tokenSet vchData n (p + 16) vchDataOut

/-- `smsgHave`. What is received has at most `MAX_SIZE` bytes, so that `n` is an `int`. -/
def smsgHave (pfrom : NodeId) (vchData : Bytes) : Exec SmsgNode Stop Unit := do
  Exec.lift (returnIf (vchData.length < 8) 0)
  let n := (vchData.length - 8) / 16
  let time := LittleEndian.toInt (← Exec.lift (readAt vchData 0 8))
  let now ← getTime
  Exec.lift (returnIf (time < now - smsgRetention) 0)
  if time > now + smsgTimeLeeway then
    misbehaving pfrom 1
    Exec.stop (.rv 0)
  else
    let bucket ← subscript time
    Exec.lift (returnIf (bucket.nLockCount > 0) 0)
    let vchDataOut ← Exec.lift (writeAt (resize [] 8) 0 (← Exec.lift (readAt vchData 0 8)))
    let vchDataOut ← Exec.lift (siftTokens bucket.setTokens vchData n 8 vchDataOut)
    if vchDataOut.length > 8 then
      Exec.update fun s => s.updateBucket time fun b => { b with nLockCount := 3, nLockPeerId := pfrom }
      pushMessage pfrom "smsgWant" vchDataOut

/-- `SecureMsgStoreUnscanned` of the message at `&buf[p]`. -/
def secureMsgStoreUnscanned (buf : Bytes) (p : Nat) (nPayload : UInt32) : Exec SmsgNode Stop Unit := do
  let pHeader ← Exec.lift (readAt buf p smsgHdrLen)
  let timestamp := (SecureMessage.ofBytes pHeader).timestamp
  let outcome ← nextOutcome
  Exec.lift (returnIf (outcome == .noDirectory) 1)
  let now ← getTime
  Exec.lift (returnIf (timestamp > now + smsgTimeLeeway) 1)
  Exec.lift (returnIf (timestamp < now - smsgRetention) 1)
  Exec.lift (returnIf (outcome == .noFile) 1)
  let record := pHeader ++ (← Exec.lift (readAt buf (p + smsgHdrLen) nPayload.toNat))
  let written := match outcome with
    | .torn k => record.take k
    | _ => record
  Exec.update fun s => { s with
    filesWl := s.filesWl.set (bucketOf timestamp) ((s.filesWl.find? (bucketOf timestamp)).getD [] ++ written) }
  Exec.lift (returnIf (written.length != record.length) 1)

/-- The loop of `SecureMsgScanMessage`: the address that owns the message. A full decryption tells who it is from. -/
def findOwner (env : StoreEnv) (psmsg : SecureMessage) (payload : Bytes) :
    List (String × Bool × Bool) → Exec SmsgNode Stop (Option String)
  | [] => return none
  | (sAddress, fReceiveEnabled, fReceiveAnon) :: smsgAddresses =>
    if !fReceiveEnabled then findOwner env psmsg payload smsgAddresses
    else do
      let addressTo := env.toString ((env.setString sAddress).getD ⟨[], []⟩)
      match ← attempt (onAddrpkdb
        (secureMsgDecrypt env.toSmsgEnv env.wallet fReceiveAnon addressTo psmsg payload ⟨0, "", []⟩)) with
      | none => findOwner env psmsg payload smsgAddresses
      | some msg => return if fReceiveAnon ∨ msg.sFromAddress ≠ "anon" then some addressTo else none

/-- The message at `&buf[p]` is put into the inbox. -/
def saveToInbox (buf : Bytes) (p : Nat) (nPayload : UInt32) (addressTo : String) : Exec SmsgNode Stop Unit := do
  let pHeader ← Exec.lift (readAt buf p smsgHdrLen)
  let sample ← Exec.lift (readAt buf (p + smsgHdrLen) 8)
  let chKey := [0x69, 0x6d] ++ (pHeader.drop 7).take 8 ++ sample
  let timeReceived ← getTime
  let vchMessage := List.replicate (UInt32.ofNat smsgHdrLen + nPayload).toNat 0
  let vchMessage ← Exec.lift (writeAt vchMessage 0 pHeader)
  let vchMessage ← Exec.lift
    (writeAt vchMessage smsgHdrLen (← Exec.lift (readAt buf (p + smsgHdrLen) nPayload.toNat)))
  Exec.update fun s =>
    if s.addrpkdb.fOpens && (s.inbox chKey).isNone && s.addrpkdb.fWrites then
      { s with inbox := Function.update s.inbox chKey (some ⟨timeReceived, 1, addressTo, "", vchMessage⟩) }
    else s

/-- `SecureMsgScanMessage` of the message at `&buf[p]`. -/
def secureMsgScanMessage (env : StoreEnv) (buf : Bytes) (p : Nat) (nPayload : UInt32) : Exec SmsgNode Stop Unit := do
  if env.fLocked then secureMsgStoreUnscanned buf p nPayload
  else
    let pHeader ← Exec.lift (readAt buf p smsgHdrLen)
    let payload ← Exec.lift (readAt buf (p + smsgHdrLen) nPayload.toNat)
    match ← findOwner env (SecureMessage.ofBytes pHeader) payload env.smsgAddresses with
    | none => return ()
    | some addressTo => saveToInbox buf p nPayload addressTo

/-- The loop of `SecureMsgReceive` over as many messages from `&vchData[n]` on. A message that is not valid is tried
    again, one that cannot be stored is the last. There are at most 500 messages, so that `n` does not overflow. -/
def receiveBunch (env : StoreEnv) (pfrom : NodeId) (vchData : Bytes) : Nat → Nat → Exec SmsgNode Stop Unit
  | 0, _ => return ()
  | count + 1, n =>
    if vchData.length - n < smsgHdrLen then return ()
    else do
      let nPayload := (SecureMessage.ofBytes (← Exec.lift (readAt vchData n smsgHdrLen))).nPayload
      match ← attempt (Exec.lift (secureMsgValidate env.toSmsgEnv vchData n nPayload)) with
      | none =>
        misbehaving pfrom 1
        receiveBunch env pfrom vchData count n
      | some _ =>
        match ← attempt (secureMsgStore env vchData n nPayload false) with
        | none => return ()
        | some _ =>
          let _ ← attempt (secureMsgScanMessage env vchData n nPayload)
          receiveBunch env pfrom vchData count (n + smsgHdrLen + nPayload.toNat)

/-- `SecureMsgReceive`, which `smsgMsg` is handled with. -/
def secureMsgReceive (env : StoreEnv) (pfrom : NodeId) (vchData : Bytes) : Exec SmsgNode Stop Unit := do
  Exec.lift (returnIf (vchData.length < 12) 1)
  let nBunch := toUInt32 (← Exec.lift (readAt vchData 0 4))
  let bktTime := LittleEndian.toInt (← Exec.lift (readAt vchData 4 8))
  let now ← getTime
  Exec.lift (returnIf (bktTime > now + smsgTimeLeeway) 1)
  Exec.lift (returnIf (bktTime < now - smsgRetention) 1)
  if nBunch = 0 ∨ nBunch > 500 then
    misbehaving pfrom 1
    Exec.update fun s => s.updateBucket bktTime fun b => { b with nLockCount := 0 }
    Exec.stop (.rv 1)
  else
    receiveBunch env pfrom vchData nBunch.toNat 12
    let s ← Exec.read
    Exec.lift (returnIf (s.smsgBuckets.find? bktTime).isNone 1)
    Exec.update fun s => s.updateBucket bktTime fun b => { b with nLockCount := 0, nLockPeerId := 0 }
    hashBucket env bktTime

/-- The loop of `ThreadSecureMsg` at one bucket: the locks that have timed out. -/
def expireBucket (cutoffTime : Int) (vTimedOutLocks : List (Int × NodeId)) (entry : Int × SecMsgBucket) :
    Exec SmsgNode Stop (List (Int × NodeId)) := do
  if entry.1 < cutoffTime then
    Exec.update fun s => { s with
      files := s.files.erase entry.1, filesWl := s.filesWl.erase entry.1, smsgBuckets := s.smsgBuckets.erase entry.1 }
    -- the iterator is advanced after its element has been erased
    Exec.stop (.undefined "it++")
  else if entry.2.nLockCount = 1 then
    Exec.update fun s => s.updateBucket entry.1 fun b => { b with nLockCount := 0, nLockPeerId := 0 }
    return vTimedOutLocks ++ [(entry.1, entry.2.nLockPeerId)]
  else
    Exec.update fun s => s.updateBucket entry.1 fun b => { b with nLockCount := b.nLockCount - 1 }
    return vTimedOutLocks

/-- The peer that a bucket was locked for is ignored for a while. -/
def ignorePeer (nPeerId : NodeId) : Exec SmsgNode Stop Unit := do
  let ignoreUntil := (← getTime) + smsgTimeIgnore
  let s ← Exec.read
  if nPeerId ∈ s.vNodes then
    Exec.update fun s => { s with ignoreUntil := Function.update s.ignoreUntil nPeerId ignoreUntil }
    pushMessage nPeerId "smsgIgnore" (LittleEndian.ofInt 8 ignoreUntil)

/-- One pass of `ThreadSecureMsg`. -/
def threadSecureMsg : Exec SmsgNode Stop Unit := do
  let now ← getTime
  let s ← Exec.read
  let vTimedOutLocks ← s.smsgBuckets.entries.foldlM (expireBucket (now - smsgRetention)) []
  vTimedOutLocks.forM fun lock => ignorePeer lock.2

/-- A message of this node in its outbox: a header, and the payload of the length that it names. -/
abbrev OwnMessage :=
  { vchMessage : Bytes //
    smsgHdrLen + (SecureMessage.ofBytes (vchMessage.take smsgHdrLen)).nPayload.toNat ≤ vchMessage.length }

/-- What happens to the buckets: a command of a peer, a message of this node that has its proof of work, or a pass of
    the thread. -/
inductive SmsgEvent where
  | smsgInv (pfrom : NodeId) (vchData : Bytes)
  | smsgShow (pfrom : NodeId) (vchData : Bytes)
  | smsgHave (pfrom : NodeId) (vchData : Bytes)
  | smsgMsg (pfrom : NodeId) (vchData : Bytes)
  | store (message : OwnMessage)
  | pass

def SmsgEvent.handle (env : StoreEnv) : SmsgEvent → Exec SmsgNode Stop Unit
  | .smsgInv pfrom vchData => Smsg.smsgInv pfrom vchData
  | .smsgShow pfrom vchData => Smsg.smsgShow pfrom vchData
  | .smsgHave pfrom vchData => Smsg.smsgHave pfrom vchData
  | .smsgMsg pfrom vchData => secureMsgReceive env pfrom vchData
  | .store message =>
    secureMsgStore env message.val 0 (SecureMessage.ofBytes (message.val.take smsgHdrLen)).nPayload true
  | .pass => threadSecureMsg

/-- Events one after the other, whatever the calls return. -/
def runEvents (env : StoreEnv) (events : List SmsgEvent) : Exec SmsgNode Stop Unit :=
  events.forM fun event => do
    let _ ← attempt (event.handle env)

def SmsgNode.ticked (s : SmsgNode) : SmsgNode := { s with clock := fun i => s.clock (i + 1) }

/-- The text of an address that messages are received with. -/
def addressText (env : StoreEnv) (sAddress : String) : String :=
  env.toString ((env.setString sAddress).getD ⟨[], []⟩)

/-- `SecureMsgDecrypt` with an address, as `SecureMsgScanMessage` calls it. -/
def scanDecrypt (env : StoreEnv) (psmsg : SecureMessage) (payload : Bytes) (sAddress : String)
    (fReceiveAnon : Bool) : Exec SecMsgDB Stop MessageData :=
  secureMsgDecrypt env.toSmsgEnv env.wallet fReceiveAnon (addressText env sAddress) psmsg payload ⟨0, "", []⟩

/-- The payloads that are decrypted lie inside, up to the first address that decrypts the message. -/
def OwnerInside (env : StoreEnv) (psmsg : SecureMessage) (payload : Bytes) : List (String × Bool × Bool) → Prop
  | [] => True
  | (sAddress, fReceiveEnabled, fReceiveAnon) :: smsgAddresses =>
    if fReceiveEnabled = false then OwnerInside env psmsg payload smsgAddresses
    else (fReceiveAnon = false → ∀ vchPayload,
        plaintext env.toSmsgEnv env.wallet (addressText env sAddress) psmsg payload = .ok vchPayload →
          PayloadInside vchPayload)
      ∧ ((∀ db msg, (scanDecrypt env psmsg payload sAddress fReceiveAnon db).1 ≠ .ok msg) →
        OwnerInside env psmsg payload smsgAddresses)

/-- The header of the message at `&buf[p]`. -/
def headerAt (buf : Bytes) (p : Nat) : SecureMessage := SecureMessage.ofBytes ((buf.drop p).take smsgHdrLen)

/-- The message at `&buf[p]` is of a version that is read and no longer than the longest payload. -/
def Sized (buf : Bytes) (p : Nat) : Prop :=
  (headerAt buf p).version.head? = some 1 ∧ (headerAt buf p).nPayload.toNat ≤ smsgMaxMsgWorst

/-- The message at `&buf[p]` lies in its buffer, if it is one that is read. -/
def MessageInside (buf : Bytes) (p : Nat) : Prop :=
  Sized buf p → p + smsgHdrLen + (headerAt buf p).nPayload.toNat ≤ buf.length

/-- What `SecureMsgScanMessage` reads of the message at `&buf[p]` lies inside: the payloads that it decrypts, and eight
    bytes behind the header if the message has an owner here. -/
def ScanInside (env : StoreEnv) (buf : Bytes) (p : Nat) : Prop :=
  env.fLocked = false →
    OwnerInside env (headerAt buf p) ((buf.drop (p + smsgHdrLen)).take (headerAt buf p).nPayload.toNat)
      env.smsgAddresses
    ∧ ∀ s addressTo, (findOwner env (headerAt buf p)
          ((buf.drop (p + smsgHdrLen)).take (headerAt buf p).nPayload.toNat) env.smsgAddresses s).1
        = .ok (some addressTo) →
      p + smsgHdrLen + 8 ≤ buf.length

/-- The messages that the loop of `SecureMsgReceive` comes to: the place of each, and the node there. -/
def bunchPlaces (env : StoreEnv) (vchData : Bytes) : Nat → Nat → SmsgNode → List (Nat × SmsgNode)
  | 0, _, _ => []
  | count + 1, n, s =>
    if vchData.length - n < smsgHdrLen then []
    else
      (n, s) :: match secureMsgValidate env.toSmsgEnv vchData n (headerAt vchData n).nPayload,
          secureMsgStore env vchData n (headerAt vchData n).nPayload false s with
        | .ok _, (.ok _, t) => bunchPlaces env vchData count (n + smsgHdrLen + (headerAt vchData n).nPayload.toNat)
            (attempt (secureMsgScanMessage env vchData n (headerAt vchData n).nPayload) t).2
        | _, _ => []

/-- A message is come to that is valid. -/
def ValidAt (env : StoreEnv) (vchData : Bytes) (n : Nat) : Prop :=
  secureMsgValidate env.toSmsgEnv vchData n (headerAt vchData n).nPayload = .ok ()

/-- Every message that the loop comes to lies inside the data, and so does what is read to scan those it stores. -/
def BunchInside (env : StoreEnv) (vchData : Bytes) (count n : Nat) (s : SmsgNode) : Prop :=
  ∀ place ∈ bunchPlaces env vchData count n s, MessageInside vchData place.1
    ∧ (ValidAt env vchData place.1 →
      (secureMsgStore env vchData place.1 (headerAt vchData place.1).nPayload false place.2).1 = .ok () →
        ScanInside env vchData place.1)

/-- The number of messages in a bunch, and the time of the bucket that it is for. -/
def bunchSize (vchData : Bytes) : UInt32 := toUInt32 (vchData.take 4)

def bunchTime (vchData : Bytes) : Int := LittleEndian.toInt ((vchData.drop 4).take 8)

/-- `SecureMsgReceive` goes on to its loop. -/
structure BunchAccepted (vchData : Bytes) (now : Int) : Prop where
  size : 12 ≤ vchData.length
  new : bunchTime vchData ≤ now + smsgTimeLeeway
  old : now - smsgRetention ≤ bunchTime vchData

/-- The buckets that `smsgShow` reads lie inside the data if the check of their number lets them pass. -/
def ShowInside (vchData : Bytes) : Prop :=
  4 ≤ vchData.length → (4 + toUInt32 (vchData.take 4) * 8).toNat ≤ vchData.length →
    4 + 8 * (toUInt32 (vchData.take 4)).toNat ≤ vchData.length

/-- The messages of a bunch that is looked at lie inside the data. -/
def ReceiveInside (env : StoreEnv) (vchData : Bytes) (s : SmsgNode) : Prop :=
  BunchAccepted vchData (s.clock 0) → bunchSize vchData ≠ 0 → bunchSize vchData ≤ 500 →
    BunchInside env vchData (bunchSize vchData).toNat 12 s.ticked

/-- How many answers of the file system it takes to store and to scan as many messages. -/
def answersFor (env : StoreEnv) (k : Nat) : Nat := if env.fLocked then 2 * k else k

/-- As many messages from `&vchData[n]` on, one behind the other. -/
def bunchCalls (vchData : Bytes) : Nat → Nat → List StoreCall
  | 0, _ => []
  | count + 1, n =>
    ⟨vchData, n, false⟩ :: bunchCalls vchData count (n + smsgHdrLen + (headerAt vchData n).nPayload.toNat)

/-- A message goes into the store behind the messages `pre`: it is valid and in the window, nothing has its token, and
the file system answers. -/
structure GoesIn (env : StoreEnv) (s : SmsgNode) (pre : List StoreCall) (c : StoreCall) : Prop where
  valid : c.Valid env.toSmsgEnv
  window : InWindow (s.clock 0) c
  new : (tokensOf s c.bucket).find? c.key = none
  other : ∀ d ∈ pre, d.key ≠ c.key
  disk : s.disk (answersFor env pre.length) = .ok

open Classical in
/-- The first messages, as long as they go in. -/
noncomputable def firstIn (env : StoreEnv) (s : SmsgNode) : List StoreCall → List StoreCall → List StoreCall
  | _, [] => []
  | pre, c :: cs => if GoesIn env s pre c then c :: firstIn env s (pre ++ [c]) cs else []

/-- No message comes into the window or leaves it while the clock is read. -/
def Steady (s : SmsgNode) (cs : List StoreCall) : Prop :=
  ∀ c ∈ cs, ∀ i, InWindow (s.clock i) c ↔ InWindow (s.clock 0) c

def bunchMessages (vchData : Bytes) : List StoreCall := bunchCalls vchData (bunchSize vchData).toNat 12

/-- A bunch that passes the checks of its size, and whose messages lie in it back to back. -/
structure BunchLaidOut (vchData : Bytes) (now : Int) : Prop extends BunchAccepted vchData now where
  some : bunchSize vchData ≠ 0
  few : bunchSize vchData ≤ 500
  inside : ∀ c ∈ bunchMessages vchData, c.p + smsgHdrLen + c.psmsg.nPayload.toNat ≤ c.buf.length

/-- The call returns, and every valid message of the bunch that is in the window is in the store once. -/
def BunchStored (env : StoreEnv) (pfrom : NodeId) (vchData : Bytes) (s : SmsgNode) : Prop :=
  ∃ r t, secureMsgReceive env pfrom vchData s = (r, t) ∧ r ≠ .error .outOfBounds ∧
    ∀ c ∈ bunchMessages vchData, c.Valid env.toSmsgEnv → InWindow (s.clock 0) c → Holds t c

/-- Of the messages that are valid and in the window, each one behind the first messages that go in is in the store
already, or is a copy of one of these; and these can be scanned. -/
structure NothingBehind (env : StoreEnv) (vchData : Bytes) (s : SmsgNode) : Prop where
  scan : ∀ c ∈ firstIn env s [] (bunchMessages vchData), ScanInside env c.buf c.p
  behind : ∀ c ∈ bunchMessages vchData, c.Valid env.toSmsgEnv → InWindow (s.clock 0) c →
    Holds s c ∨ ∃ d ∈ firstIn env s [] (bunchMessages vchData), d.bytes = c.bytes

/-- The loop of `smsgInv` goes on with a bucket of this time and number of messages. -/
def InvAccepts (now time : Int) (ncontent : UInt32) : Prop :=
  now - smsgRetention ≤ time ∧ time ≤ now + smsgTimeLeeway ∧ 1 ≤ ncontent

/-- The time and the number of messages of a bucket that is announced at `&vchData[p]`. -/
def announcedTime (vchData : Bytes) (p : Nat) : Int := LittleEndian.toInt ((vchData.drop p).take 8)

def announcedCount (vchData : Bytes) (p : Nat) : UInt32 := toUInt32 ((vchData.drop (p + 8)).take 4)

/-- `smsgInv` goes on to its loop. -/
structure InvHeeded (pfrom : NodeId) (vchData : Bytes) (s : SmsgNode) : Prop where
  size : 4 ≤ vchData.length
  heeded : s.ignoreUntil pfrom ≤ s.clock 0
  count : toUInt32 (vchData.take 4) ≤ 289
  data : 4 + 16 * (toUInt32 (vchData.take 4)).toNat ≤ vchData.length

/-- The time of the bucket whose tokens are offered. -/
def haveTime (vchData : Bytes) : Int := LittleEndian.toInt (vchData.take 8)

/-- The time in the header at `&buf[p]`. -/
def timeAt (buf : Bytes) (p : Nat) : Int := (SecureMessage.ofBytes ((buf.drop p).take smsgHdrLen)).timestamp

/-- The token of the message at `&buf[p]`. -/
def tokenAt (buf : Bytes) (p : Nat) (nPayload : UInt32) : TokenKey :=
  toLex (timeAt buf p,
    Sample.ofBytes (if asInt nPayload < 8 then List.replicate 8 0 else (buf.drop (p + smsgHdrLen)).take 8))

/-- `SecureMsgStore` comes to the bucket of a message of this time. -/
structure StoreComes (s : SmsgNode) (time : Int) : Prop where
  directory : s.disk 0 ≠ .noDirectory
  new : time ≤ s.clock 0 + smsgTimeLeeway
  old : s.clock 0 - smsgRetention ≤ time

def HashCurrent (env : StoreEnv) (b : SecMsgBucket) : Prop := b.hash = env.xxh32 b.setTokens.samples

/-- The bucket of a time begins at a multiple of ten minutes, and its tokens belong to it. -/
structure BucketWell (time : Int) (b : SecMsgBucket) : Prop where
  aligned : smsgBucketLen ∣ time
  owned : ∀ key ofs, b.setTokens.find? key = some ofs → bucketOf (ofLex key).1 = time

def BucketsConsistent (env : StoreEnv) (m : OrderedMap Int SecMsgBucket) : Prop :=
  m.All fun time b => BucketWell time b ∧ (b.nLockCount = 0 → HashCurrent env b)

/-- A message of a bunch leaves no other bucket without its hash: it is for the bucket of the bunch, or its bucket is
    there and is locked or does not get the message. -/
def PlaceCareful (vchData : Bytes) (bktTime : Int) (n : Nat) (s : SmsgNode) : Prop :=
  let key := tokenAt vchData n (headerAt vchData n).nPayload
  StoreComes s (ofLex key).1 → bucketOf (ofLex key).1 = bktTime ∨
    ∃ b, s.smsgBuckets.find? (bucketOf (ofLex key).1) = some b
      ∧ (0 < b.nLockCount ∨ s.disk 0 ≠ .ok ∨ (b.setTokens.find? key).isSome = true)

/-- What an event has to be for the invariant to be kept. -/
def Careful (env : StoreEnv) (s : SmsgNode) : SmsgEvent → Prop
  -- the buckets that are announced and looked up are there
  | .smsgInv pfrom vchData => InvHeeded pfrom vchData s → ∀ i < (toUInt32 (vchData.take 4)).toNat,
      InvAccepts (s.clock 0) (announcedTime vchData (4 + 16 * i)) (announcedCount vchData (4 + 16 * i)) →
        (s.smsgBuckets.find? (announcedTime vchData (4 + 16 * i))).isSome = true
  | .smsgShow _ vchData => ShowInside vchData
  -- a bucket that comes to be is one of those that there can be, and it is locked
  | .smsgHave _ vchData => 8 ≤ vchData.length → s.clock 0 - smsgRetention ≤ haveTime vchData →
      haveTime vchData ≤ s.clock 0 + smsgTimeLeeway → s.smsgBuckets.find? (haveTime vchData) = none →
        smsgBucketLen ∣ haveTime vchData ∧ 24 ≤ vchData.length
  -- a bunch that is not read only unlocks its bucket
  | .smsgMsg _ vchData => BunchAccepted vchData (s.clock 0) → if bunchSize vchData = 0 ∨ bunchSize vchData > 500 then
        ∀ b, s.smsgBuckets.find? (bunchTime vchData) = some b → HashCurrent env b
      else BunchInside env vchData (bunchSize vchData).toNat 12 s.ticked
        ∧ ∀ place ∈ bunchPlaces env vchData (bunchSize vchData).toNat 12 s.ticked,
          ValidAt env vchData place.1 → PlaceCareful vchData (bunchTime vchData) place.1 place.2
  -- a bucket that comes to be gets its token
  | .store message =>
      StoreComes s (timeAt message.val 0) → s.smsgBuckets.find? (bucketOf (timeAt message.val 0)) = none →
        s.disk 0 = .ok
  -- no bucket is removed, and none is unlocked without its hash
  | .pass => ∀ time b, s.smsgBuckets.find? time = some b →
      s.clock 0 - smsgRetention ≤ time ∧ (b.nLockCount = 1 → HashCurrent env b)

def CarefulRun (env : StoreEnv) : List SmsgEvent → SmsgNode → Prop
  | [], _ => True
  | event :: events, s => Careful env s event ∧ CarefulRun env events (attempt (event.handle env) s).2

end PupaCoin.Smsg
