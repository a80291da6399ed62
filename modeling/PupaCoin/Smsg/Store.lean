import PupaCoin.Smsg.Crypt

/-!
# The message store (`SecureMsgStore`, `SecureMsgRetrieve`, `SecureMsgBuildBucketSet`)

Messages are kept in files, one for each ten minutes, to which they are appended. In memory there is a bucket for each
file with a token for each message: its time, the first bytes of its payload and its place in the file.
-/

namespace PupaCoin.Smsg

/-- `uint8_t sample[8]`. -/
abbrev Sample := { bytes : Bytes // bytes.length = 8 }

def Sample.ofBytes (bytes : Bytes) : Sample := ⟨resize bytes 8, by simp [resize]; omega⟩

/-- What `SecMsgToken` is ordered by: its time, then its sample. -/
abbrev TokenKey := Int ×ₗ Sample

/-- `std::set<SecMsgToken>`, with the offset of each token. -/
abbrev TokenSet := OrderedMap TokenKey Int

/-- `std::set::insert`, which keeps a token that is there. -/
def TokenSet.insert (tokenSet : TokenSet) (key : TokenKey) (offset : Int) : TokenSet :=
  if (tokenSet.find? key).isSome then tokenSet else tokenSet.set key offset

def TokenSet.samples (tokenSet : TokenSet) : Bytes := tokenSet.entries.flatMap fun token => (ofLex token.1).2.val

structure SecMsgBucket where
  timeChanged : Int := 0
  hash : UInt32 := 0
  nLockCount : Nat := 0
  nLockPeerId : Int := 0
  setTokens : TokenSet := OrderedMap.empty

/-- The bucket of a time. The remainder has the sign of the time. -/
def bucketOf (timestamp : Int) : Int := timestamp - timestamp.tmod smsgBucketLen

/-- `SecMsgStored`, an entry of the inbox, of the outbox or of the send queue. -/
structure SecMsgStored where
  timeReceived : Int
  status : UInt8
  sAddrTo : String
  sAddrOutbox : String
  vchMessage : Bytes
deriving DecidableEq, Repr

abbrev NodeId := Int

/-- How the file system answers a call that appends to a file. -/
inductive DiskOutcome where
  | ok
  | noDirectory
  | noFile
  | noSeek
  /-- Only this many bytes are written. -/
  | torn (k : Nat)
deriving DecidableEq, Repr

/-- What the functions of the message store read and write. -/
structure SmsgNode where
  /-- The readings of the clock to come. -/
  clock : Nat → Int
  /-- The answers of the file system to come. -/
  disk : Nat → DiskOutcome
  smsgBuckets : OrderedMap Int SecMsgBucket
  /-- The files `<time>_01.dat`. -/
  files : OrderedMap Int Bytes
  /-- The files `<time>_01_wl.dat` of messages that came while the wallet was locked. -/
  filesWl : OrderedMap Int Bytes
  addrpkdb : SecMsgDB
  inbox : Bytes → Option SecMsgStored
  vNodes : List NodeId
  ignoreUntil : NodeId → Int
  nMisbehavior : NodeId → Nat
  /-- The messages that have been pushed. -/
  sent : List (NodeId × String × Bytes)

/-- The functions that the store is built on besides those of `SmsgEnv`. -/
structure StoreEnv extends SmsgEnv where
  /-- `XXH32` with the seed 1. -/
  xxh32 : Bytes → UInt32
  /-- `pwalletMain`, whether it is locked, and the addresses that messages are received with. -/
  wallet : SmsgWallet
  fLocked : Bool
  smsgAddresses : List (String × Bool × Bool)

def getTime : Exec SmsgNode Stop Int := fun s => (.ok (s.clock 0), { s with clock := fun i => s.clock (i + 1) })

def nextOutcome : Exec SmsgNode Stop DiskOutcome :=
  fun s => (.ok (s.disk 0), { s with disk := fun i => s.disk (i + 1) })

def SmsgNode.updateBucket (s : SmsgNode) (time : Int) (f : SecMsgBucket → SecMsgBucket) : SmsgNode :=
  match s.smsgBuckets.find? time with
  | none => s
  | some bucket => { s with smsgBuckets := s.smsgBuckets.set time (f bucket) }

/-- `smsgBuckets[time]`: a bucket that does not exist comes to be. -/
def subscript (time : Int) : Exec SmsgNode Stop SecMsgBucket := fun s =>
  match s.smsgBuckets.find? time with
  | none => (.ok {}, { s with smsgBuckets := s.smsgBuckets.set time {} })
  | some bucket => (.ok bucket, s)

def hashBucket (env : StoreEnv) (time : Int) : Exec SmsgNode Stop Unit := do
  let now ← getTime
  Exec.update fun s => s.updateBucket time fun bucket =>
    { bucket with timeChanged := now, hash := env.xxh32 bucket.setTokens.samples }

/-- `SecureMsgValidate` of the message at `&buf[p]`. -/
def secureMsgValidate (env : SmsgEnv) (buf : Bytes) (p : Nat) (nPayload : UInt32) : Except Stop Unit := do
  let pHeader ← readAt buf p smsgHdrLen
  let psmsg := SecureMessage.ofBytes pHeader
  returnIf (psmsg.version.head? != some 1) 4
  returnIf (nPayload.toNat > smsgMaxMsgWorst) 5
  let civ := (List.replicate 8 psmsg.nonse).flatten
  let pPayload ← readAt buf (p + smsgHdrLen) nPayload.toNat
  match env.hmacSha256 civ (pHeader.drop 4 ++ pPayload ++ pPayload) with
  | none => .error (.rv 1)
  | some sha256Hash => do
    returnIf (psmsg.hash != sha256Hash.take 4) 3
    returnIf (!(sha256Hash.getD 31 0 == 0 && sha256Hash.getD 30 0 == 0 && (~~~sha256Hash.getD 29 0) &&& 1 != 0)) 2

/-- The sample of a payload of `np` bytes at `&buf[p]`. -/
def tokenSample (buf : Bytes) (p : Nat) (np : Int) : Except Stop Sample :=
  Sample.ofBytes <$> if np < 8 then .ok (List.replicate 8 0) else readAt buf p 8

/-- A record is appended to the file of a bucket. Returned is where it begins. -/
def appendRecord (outcome : DiskOutcome) (bucket : Int) (record : Except Stop Bytes) : Exec SmsgNode Stop Int := do
  let s ← Exec.read
  let file := (s.files.find? bucket).getD []
  match outcome with
  | .noDirectory => Exec.stop (.rv 1)
  | .noFile => Exec.stop (.rv 1)
  | .noSeek =>
    Exec.update fun s => { s with files := s.files.set bucket file }
    Exec.stop (.rv 1)
  | .torn k =>
    let bytes ← Exec.lift record
    Exec.update fun s => { s with files := s.files.set bucket (file ++ bytes.take k) }
    Exec.stop (.rv 1)
  | .ok =>
    let bytes ← Exec.lift record
    Exec.update fun s => { s with files := s.files.set bucket (file ++ bytes) }
    return file.length

/-- `SecureMsgStore` of the message at `&buf[p]`. -/
def secureMsgStore (env : StoreEnv) (buf : Bytes) (p : Nat) (nPayload : UInt32) (fUpdateBucket : Bool) :
    Exec SmsgNode Stop Unit := do
  let pHeader ← Exec.lift (readAt buf p smsgHdrLen)
  let timestamp := (SecureMessage.ofBytes pHeader).timestamp
  let outcome ← nextOutcome
  Exec.lift (returnIf (outcome == .noDirectory) 1)
  let now ← getTime
  Exec.lift (returnIf (timestamp > now + smsgTimeLeeway) 1)
  Exec.lift (returnIf (timestamp < now - smsgRetention) 1)
  let bucket := bucketOf timestamp
  let sample ← Exec.lift (tokenSample buf (p + smsgHdrLen) (asInt nPayload))
  let key : TokenKey := toLex (timestamp, sample)
  let tokenSet := (← subscript bucket).setTokens
  Exec.lift (returnIf (tokenSet.find? key).isSome 1)
  let ofs ← appendRecord outcome bucket do
    return pHeader ++ (← readAt buf (p + smsgHdrLen) nPayload.toNat)
  Exec.update fun s => s.updateBucket bucket fun b => { b with setTokens := TokenSet.insert b.setTokens key ofs }
  if fUpdateBucket then hashBucket env bucket

/-- `SecureMsgRetrieve` of a token into `vchData`. -/
def secureMsgRetrieve (s : SmsgNode) (token : TokenKey × Int) (vchData : Bytes) : Except Stop Bytes := do
  let file ← orReturn (s.files.find? (bucketOf (ofLex token.1).1)) 1
  returnIf (token.2 < 0) 1
  let offset := token.2.toNat
  let header := (file.drop offset).take smsgHdrLen
  returnIf (header.length != smsgHdrLen) 1
  let nPayload := (SecureMessage.ofBytes header).nPayload
  let vchData := resize vchData (UInt32.ofNat smsgHdrLen + nPayload).toNat
  let vchData ← writeAt vchData 0 header
  let payload := (file.drop (offset + smsgHdrLen)).take nPayload.toNat
  let vchData ← writeAt vchData smsgHdrLen payload
  returnIf (payload.length != nPayload.toNat) 1
  return vchData

/-- The tokens of the messages in a file from `ofs` on, in as many steps as there are bytes. -/
def scanFile (file : Bytes) : Nat → Nat → TokenSet → TokenSet
  | 0, _, tokenSet => tokenSet
  | fuel + 1, ofs, tokenSet =>
    let header := (file.drop ofs).take smsgHdrLen
    if header.length ≠ smsgHdrLen then tokenSet
    else
      let smsg := SecureMessage.ofBytes header
      if smsg.nPayload < 8 then scanFile file fuel (ofs + smsgHdrLen) tokenSet
      else
        let sample := (file.drop (ofs + smsgHdrLen)).take 8
        if sample.length ≠ 8 then tokenSet
        else
          scanFile file fuel (ofs + smsgHdrLen + smsg.nPayload.toNat)
            (TokenSet.insert tokenSet (toLex (smsg.timestamp, Sample.ofBytes sample)) ofs)

/-- `SecureMsgBuildBucketSet` at a file `<time>_01.dat`. -/
def buildBucket (env : StoreEnv) (now : Int) (fileTime : Int) (file : Bytes) : Exec SmsgNode Stop Unit := do
  if fileTime < now - smsgRetention then Exec.update fun s => { s with files := s.files.erase fileTime }
  else
    let tokenSet := (← subscript fileTime).setTokens
    Exec.update fun s => s.updateBucket fileTime fun b =>
      { b with setTokens := scanFile file file.length 0 tokenSet }
    hashBucket env fileTime

def secureMsgBuildBucketSet (env : StoreEnv) : Exec SmsgNode Stop Unit := do
  let now ← getTime
  let s ← Exec.read
  s.files.entries.forM fun file => buildBucket env now file.1 file.2
  Exec.update fun s => { s with filesWl := ⟨s.filesWl.entries.filter fun file => !(file.1 < now - smsgRetention),
    s.filesWl.sorted.filter _⟩ }

def SmsgNode.restarted (s : SmsgNode) (clock : Nat → Int) : SmsgNode :=
  { s with clock, smsgBuckets := OrderedMap.empty, sent := [] }

/-- A message at `&buf[p]` that `SecureMsgStore` is called with. -/
structure StoreCall where
  buf : Bytes
  p : Nat
  fUpdateBucket : Bool

namespace StoreCall

def header (c : StoreCall) : Bytes := (c.buf.drop c.p).take smsgHdrLen

def psmsg (c : StoreCall) : SecureMessage := SecureMessage.ofBytes c.header

def payload (c : StoreCall) : Bytes := (c.buf.drop (c.p + smsgHdrLen)).take c.psmsg.nPayload.toNat

def bytes (c : StoreCall) : Bytes := c.header ++ c.payload

def bucket (c : StoreCall) : Int := bucketOf c.psmsg.timestamp

def key (c : StoreCall) : TokenKey :=
  toLex (c.psmsg.timestamp, Sample.ofBytes (if c.payload.length < 8 then List.replicate 8 0 else c.payload.take 8))

/-- The message passes `SecureMsgValidate`. -/
def Valid (env : SmsgEnv) (c : StoreCall) : Prop := secureMsgValidate env c.buf c.p c.psmsg.nPayload = .ok ()

def store (env : StoreEnv) (c : StoreCall) : Exec SmsgNode Stop Unit :=
  secureMsgStore env c.buf c.p c.psmsg.nPayload c.fUpdateBucket

end StoreCall

def inBucket (t : Int) (cs : List StoreCall) : List StoreCall := cs.filter fun c => c.bucket = t

def tokensOf (s : SmsgNode) (t : Int) : TokenSet := ((s.smsgBuckets.find? t).getD {}).setTokens

def fileAt (s : SmsgNode) (t : Int) : Bytes := (s.files.find? t).getD []

/-- The store has the message once: there is one token with its time and its sample, and it is retrieved there. -/
def Holds (s : SmsgNode) (c : StoreCall) : Prop :=
  ∃! ofs, (c.key, ofs) ∈ (tokensOf s c.bucket).entries ∧ secureMsgRetrieve s (c.key, ofs) [] = .ok c.bytes

/-- A message of this time is kept at `now`. -/
def InWindow (now : Int) (c : StoreCall) : Prop :=
  c.psmsg.timestamp ≤ now + smsgTimeLeeway ∧ now - smsgRetention ≤ c.psmsg.timestamp

def Whole (s : SmsgNode) : Prop :=
  ∀ key ofs, (tokensOf s (bucketOf (ofLex key).1)).find? key = some ofs →
    ∃ record, secureMsgRetrieve s (key, ofs) [] = .ok record

end PupaCoin.Smsg
