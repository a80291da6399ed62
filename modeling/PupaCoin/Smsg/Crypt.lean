import PupaCoin.Smsg.SecureMessage
import PupaCoin.Wallet.KeyStore

/-!
# Encrypting and decrypting secure messages (`SecureMsgEncrypt`, `SecureMsgDecrypt`)

The text of a message is put behind a header, which names its length and, unless the sender is anonymous, the
sender with a signature; header and text are encrypted for the destination. A text of more than 128 bytes is
compressed.
-/

namespace PupaCoin.Smsg

abbrev CKeyID := BitVec 160

def getLen (chHeader : UInt8) : Nat :=
  if chHeader = 2 ∨ chHeader = 3 then 33
  else if chHeader = 4 ∨ chHeader = 6 ∨ chHeader = 7 then 65
  else 0

/-- `CPubKey(pbegin, pend)`; a key that is not valid has no bytes. -/
def pubKeyOfBytes (vch : Bytes) : CPubKey :=
  match vch.head? with
  | none => []
  | some chHeader => if getLen chHeader = vch.length then vch else []

/-- `CPubKey::IsValid`. -/
def pubKeyIsValid (pubKey : CPubKey) : Bool := pubKey.length > 0

/-- `CPubKey::IsCompressed`. -/
def pubKeyIsCompressed (pubKey : CPubKey) : Bool := pubKey.length == 33

structure CBase58Data where
  vchVersion : Bytes
  vchData : Bytes
deriving DecidableEq, Repr

/-- `Base58Prefix(PUBKEY_ADDRESS)`. -/
def pubkeyAddressPrefix (testNet : Bool) : Bytes := [if testNet then 54 else 55]

/-- `Base58Prefix(SCRIPT_ADDRESS)`. -/
def scriptAddressPrefix (testNet : Bool) : Bytes := [if testNet then 62 else 63]

def keyIDBytes (id : CKeyID) : Bytes := LittleEndian.ofNat 20 id.toNat

def keyIDOfBytes (vch : Bytes) : CKeyID := BitVec.ofNat 160 (LittleEndian.toNat vch)

namespace CBase58Data

/-- `CPupaCoinAddress::Set` of a key id. -/
def setKeyID (testNet : Bool) (id : CKeyID) : CBase58Data := ⟨pubkeyAddressPrefix testNet, keyIDBytes id⟩

def isValid (testNet : Bool) (address : CBase58Data) : Bool :=
  address.vchData.length == 20 &&
    (address.vchVersion == pubkeyAddressPrefix testNet || address.vchVersion == scriptAddressPrefix testNet)

def getKeyID (testNet : Bool) (address : CBase58Data) : Option CKeyID :=
  if !address.isValid testNet || address.vchVersion != pubkeyAddressPrefix testNet then none
  else some (keyIDOfBytes (address.vchData.take 20))

def getVersion (address : CBase58Data) : UInt8 := address.vchVersion.headD 0

end CBase58Data

/-- The functions that secure messages are built on. -/
structure SmsgEnv where
  testNet : Bool
  /-- `CBase58Data::SetString`. -/
  setString : String → Option CBase58Data
  /-- `CBase58Data::ToString`. -/
  toString : CBase58Data → String
  getPubKey : CKey → CPubKey
  getID : CPubKey → CKeyID
  /-- `CECKey::SetPubKey`. -/
  ecSetPubKey : CPubKey → Bool
  /-- `ECDH_compute_key` of a public and a private key, where it computes 32 bytes. -/
  ecdhComputeKey : CPubKey → CKey → Option Bytes
  sha512 : Bytes → Bytes
  /-- `SecMsgCrypter::Encrypt` and `Decrypt` with a key and an initialisation vector. -/
  aesEncrypt : Bytes → Bytes → Bytes → Option Bytes
  aesDecrypt : Bytes → Bytes → Bytes → Option Bytes
  /-- `HMAC` with `EVP_sha256`, where it computes 32 bytes. -/
  hmacSha256 : Bytes → Bytes → Option Bytes
  /-- `Hash` of a string. -/
  hash : Bytes → UInt256
  signCompact : CKey → UInt256 → Bytes
  /-- The key that `RecoverCompact` leaves. -/
  recoverCompact : UInt256 → Bytes → CPubKey
  /-- `LZ4_compress`, where it returns at least 1. -/
  lz4Compress : Bytes → Option Bytes
  /-- `LZ4_decompress_safe`: what it returns for an input and a size of the output, and what it has written. -/
  lz4Decompress : Bytes → Int → Int × Bytes

/-- `pwalletMain`. -/
structure SmsgWallet where
  getKey : CKeyID → Option CKey
  getPubKey : CKeyID → Option CPubKey

/-- The database of the public keys of addresses. -/
structure SecMsgDB where
  /-- Whether it can be opened, and whether a write goes through. -/
  fOpens : Bool
  fWrites : Bool
  readPK : CKeyID → Option CPubKey

def secureMsgGetStoredKey (db : SecMsgDB) (ckid : CKeyID) : Option CPubKey :=
  if db.fOpens then db.readPK ckid else none

def secureMsgGetLocalKey (wallet : SmsgWallet) (ckid : CKeyID) : Option CPubKey := do
  let cpk ← wallet.getPubKey ckid
  if !pubKeyIsValid cpk || !pubKeyIsCompressed cpk then none else some cpk

def secureMsgInsertAddress (hashKey : CKeyID) (pubKey : CPubKey) (db : SecMsgDB) : Int × SecMsgDB :=
  if !db.fOpens then (1, db)
  else if (db.readPK hashKey).isSome then (4, db)
  else if !db.fWrites then (1, db)
  else (0, { db with readPK := Function.update db.readPK hashKey (some pubKey) })

/-- The first 32 bytes of the hash of the shared secret, and the last ones. -/
def deriveKeys (env : SmsgEnv) (vchP : Bytes) : Bytes × Bytes :=
  let vchHashed := env.sha512 vchP
  (vchHashed.take 32, (vchHashed.drop 32).take 32)

/-- The message authentication code of a time and an encrypted payload. -/
def computeMac (env : SmsgEnv) (key_m : Bytes) (timestamp : Int) (vchCiphertext : Bytes) : Option Bytes :=
  env.hmacSha256 key_m (LittleEndian.ofInt 8 timestamp ++ vchCiphertext)

/-- `pMsgData`: the text, compressed if it is long. -/
def packText (env : SmsgEnv) (message : Bytes) : Except Stop Bytes :=
  if message.length > 128 then orReturn (env.lz4Compress message) 9 else .ok message

def anonymousPayload (lenMsg : UInt32) (data : Bytes) : Except Stop Bytes := do
  let vchPayload ← writeAt (List.replicate (9 + data.length) 0) 9 data
  let vchPayload ← writeAt vchPayload 0 [250]
  writeAt vchPayload 5 (ofUInt32 lenMsg)

/-- The payload of a message with its sender and the signature of its text. -/
def signedPayload (version : UInt8) (ppn vchSignature : Bytes) (lenMsg : UInt32) (data : Bytes) :
    Except Stop Bytes := do
  let vchPayload ← writeAt (List.replicate (smsgPlHdrLen + data.length) 0) smsgPlHdrLen data
  let vchPayload ← writeAt vchPayload 0 [version]
  let vchPayload ← writeAt vchPayload 1 ppn
  let vchPayload ← writeAt vchPayload (1 + 20) vchSignature
  writeAt vchPayload (1 + 20 + 65) (ofUInt32 lenMsg)

/-- Where a message comes from: `none` for an anonymous one, else the address and its key id. -/
def parseSender (env : SmsgEnv) (addressFrom : String) : Except Stop (Option (CBase58Data × CKeyID)) :=
  if addressFrom = "anon" then .ok none
  else do
    let coinAddrFrom ← orReturn (env.setString addressFrom) 3
    let ckidFrom ← orReturn (coinAddrFrom.getKeyID env.testNet) 4
    return some (coinAddrFrom, ckidFrom)

/-- The key id of an address that a message is sent to, or decrypted with. -/
def parseDestination (env : SmsgEnv) (address : String) (rv : Int) : Except Stop CKeyID := do
  let coinAddrDest ← orReturn (env.setString address) rv
  orReturn (coinAddrDest.getKeyID env.testNet) rv

/-- `vchPayload` of a message. -/
def buildPayload (env : SmsgEnv) (wallet : SmsgWallet) (sender : Option (CBase58Data × CKeyID))
    (message : Bytes) : Except Stop Bytes := do
  let data ← packText env message
  let lenMsg := UInt32.ofNat message.length
  match sender with
  | none => anonymousPayload lenMsg data
  | some (coinAddrFrom, ckidFrom) => do
    let keyFrom ← orReturn (wallet.getKey ckidFrom) 7
    signedPayload coinAddrFrom.getVersion (keyIDBytes ckidFrom)
      (env.signCompact keyFrom (env.hash message)) lenMsg data

/-- `SecureMsgEncrypt` at the time `now` with the random `iv` and the new key `keyR`: the header and the
    payload. The fields that it does not assign are those of `smsg`. -/
def secureMsgEncrypt (env : SmsgEnv) (wallet : SmsgWallet) (db : SecMsgDB) (now : Int) (iv : Bytes)
    (keyR : CKey) (smsg : SecureMessage) (addressFrom addressTo : String) (message : Bytes) :
    Except Stop (SecureMessage × Bytes) := do
  returnIf (message.length > smsgMaxMsgBytes) 2
  let sender ← parseSender env addressFrom
  let ckidDest ← parseDestination env addressTo 4
  let cpkDestK ← orReturn ((secureMsgGetStoredKey db ckidDest).or (secureMsgGetLocalKey wallet ckidDest)) 5
  returnIf (!env.ecSetPubKey cpkDestK) 4
  let vchP ← orReturn (env.ecdhComputeKey cpkDestK keyR) 6
  let cpkR := env.getPubKey keyR
  returnIf (!pubKeyIsValid cpkR || !pubKeyIsCompressed cpkR) 1
  let keys := deriveKeys env vchP
  let vchPayload ← buildPayload env wallet sender message
  let vchCiphertext ← orReturn (env.aesEncrypt keys.1 iv vchPayload) 11
  let mac ← orReturn (computeMac env keys.2 now vchCiphertext) 10
  return ({ smsg with
    version := [1, 1], timestamp := now, iv, cpkR, mac
    nPayload := UInt32.ofNat vchCiphertext.length }, vchCiphertext)

/-- `MessageData`, what is read of a message. -/
structure MessageData where
  timestamp : Int
  sFromAddress : String
  vchMessage : Bytes
deriving DecidableEq, Repr

/-- `LZ4_decompress_safe` on the input at `&buf[pos]`. It reads a byte even of an empty input. -/
def lz4DecompressSafe (env : SmsgEnv) (buf : Bytes) (pos : Nat) (inputSize maxOutputSize : Int) :
    Except Stop (Int × Bytes) := do
  let input ← readAt buf pos (max inputSize.toNat 1)
  return env.lz4Decompress (input.take inputSize.toNat) maxOutputSize

/-- The length of what stands in front of the text. -/
def plHdrLen (fFromAnonymous : Bool) : Nat := if fFromAnonymous then 9 else smsgPlHdrLen

/-- The text behind a header of `nHdr` bytes, copied or decompressed into `vchMessage`. -/
def unpackText (env : SmsgEnv) (vchPayload : Bytes) (nHdr : Nat) (lenPlain : UInt32) (vchMessage : Bytes) :
    Except Stop Bytes := do
  let lenData := UInt32.ofNat vchPayload.length - UInt32.ofNat nHdr
  let vchMessage := resize vchMessage (lenPlain + 1).toNat
  if lenPlain > 128 then
    -- `lenPlain + 1` can wrap to 0, and then there is no `&vchMessage[0]` to decompress to
    let _ ← readAt vchMessage 0 1
    let (rv, text) ← lz4DecompressSafe env vchPayload nHdr (asInt lenData) (asInt lenPlain)
    let vchMessage ← writeAt vchMessage 0 text
    returnIf (rv != asInt lenPlain) 1
    writeAt vchMessage lenPlain.toNat [0]
  else
    let vchMessage ← writeAt vchMessage 0 (← readAt vchPayload nHdr lenPlain.toNat)
    writeAt vchMessage lenPlain.toNat [0]

def readText (env : SmsgEnv) (vchPayload : Bytes) (fFromAnonymous : Bool) (vchMessage : Bytes) :
    Except Stop Bytes := do
  let nHdr := plHdrLen fFromAnonymous
  let lenPlain := toUInt32 (← readAt vchPayload (nHdr - 4) 4)
  unpackText env vchPayload nHdr lenPlain vchMessage

/-- The sender that a payload names, once the signature has been checked, and the sender's public key. -/
def readSender (env : SmsgEnv) (vchPayload vchMessage : Bytes) : Except Stop (CBase58Data × CKeyID × CPubKey) := do
  let ckidFrom := keyIDOfBytes (← readAt vchPayload 1 20)
  let coinAddrFrom := CBase58Data.setKeyID env.testNet ckidFrom
  returnIf (!coinAddrFrom.isValid env.testNet) 1
  let vchSig ← readAt vchPayload (1 + 20) 65
  let cpkFromSig := env.recoverCompact (env.hash vchMessage.dropLast) vchSig
  returnIf (!pubKeyIsValid cpkFromSig) 1
  returnIf (coinAddrFrom != CBase58Data.setKeyID env.testNet (env.getID cpkFromSig)) 1
  return (coinAddrFrom, ckidFrom, cpkFromSig)

/-- `SecureMsgDecrypt` behind the check of the code: what it reads from the decrypted payload. -/
def readPayload (env : SmsgEnv) (vchPayload : Bytes) (timestamp : Int) (msg : MessageData) :
    Exec SecMsgDB Stop MessageData := do
  let first ← Exec.lift (readAt vchPayload 0 1)
  let fFromAnonymous := first == [250]
  let vchMessage ← Exec.lift (readText env vchPayload fFromAnonymous msg.vchMessage)
  if fFromAnonymous then return { timestamp, sFromAddress := "anon", vchMessage }
  else
    let (coinAddrFrom, ckidFrom, cpkFromSig) ← Exec.lift (readSender env vchPayload vchMessage)
    Exec.update fun db => (secureMsgInsertAddress ckidFrom cpkFromSig db).2
    return { timestamp, sFromAddress := env.toString coinAddrFrom, vchMessage }

/-- The two keys for a message to an owned address. -/
def secretOf (env : SmsgEnv) (wallet : SmsgWallet) (address : String) (psmsg : SecureMessage) :
    Except Stop (Bytes × Bytes) := do
  returnIf (psmsg.version.head? != some 1) 2
  let ckidDest ← parseDestination env address 3
  let keyDest ← orReturn (wallet.getKey ckidDest) 3
  let cpkR := pubKeyOfBytes psmsg.cpkR
  returnIf (!pubKeyIsValid cpkR) 1
  returnIf (!env.ecSetPubKey cpkR) 1
  let vchP ← orReturn (env.ecdhComputeKey cpkR keyDest) 1
  return deriveKeys env vchP

def checkMac (env : SmsgEnv) (key_m : Bytes) (psmsg : SecureMessage) (payload : Bytes) : Except Stop Unit := do
  let mac ← orReturn (computeMac env key_m psmsg.timestamp payload) 1
  returnIf (mac != psmsg.mac) 1

/-- `SecureMsgDecrypt` of a header and its payload. -/
def secureMsgDecrypt (env : SmsgEnv) (wallet : SmsgWallet) (fTestOnly : Bool) (address : String)
    (psmsg : SecureMessage) (payload : Bytes) (msg : MessageData) : Exec SecMsgDB Stop MessageData := do
  let keys ← Exec.lift (secretOf env wallet address psmsg)
  Exec.lift (checkMac env keys.2 psmsg payload)
  if fTestOnly then return msg
  else
    let vchPayload ← Exec.lift (orReturn (env.aesDecrypt keys.1 psmsg.iv payload) 1)
    readPayload env vchPayload psmsg.timestamp msg

/-- Key agreement, encryption, signatures and compression work as their documentation says. -/
structure SmsgEnv.Correct (env : SmsgEnv) : Prop where
  pubKey_size : ∀ key, pubKeyOfBytes (env.getPubKey key) = env.getPubKey key
  pubKey_valid : ∀ key, pubKeyIsValid (env.getPubKey key) = true
  ecSetPubKey : ∀ key, env.ecSetPubKey (env.getPubKey key) = true
  /-- Both sides compute the same secret. -/
  agree : ∀ key key', env.ecdhComputeKey (env.getPubKey key) key' = env.ecdhComputeKey (env.getPubKey key') key
  aes : ∀ key iv vchPlaintext vchCiphertext, env.aesEncrypt key iv vchPlaintext = some vchCiphertext →
    env.aesDecrypt key iv vchCiphertext = some vchPlaintext
  signature_size : ∀ key hash, (env.signCompact key hash).length = 65
  recover : ∀ key hash, key.fCompressed = true →
    env.recoverCompact hash (env.signCompact key hash) = env.getPubKey key
  lz4_size : ∀ text vchCompressed, env.lz4Compress text = some vchCompressed →
    0 < vchCompressed.length ∧ vchCompressed.length ≤ lz4CompressBound text.length
  lz4 : ∀ text vchCompressed, env.lz4Compress text = some vchCompressed →
    env.lz4Decompress vchCompressed text.length = ((text.length : Int), text)

/-- The wallet keeps its keys under their ids, and what it and the database know as the public key of an owned key
    is its public key. -/
structure KnowsKeys (env : SmsgEnv) (wallet : SmsgWallet) (db : SecMsgDB) : Prop where
  key_id : ∀ ckid key, wallet.getKey ckid = some key → env.getID (env.getPubKey key) = ckid
  local_key : ∀ ckid key cpk, wallet.getKey ckid = some key → wallet.getPubKey ckid = some cpk →
    cpk = env.getPubKey key
  stored_key : ∀ ckid key cpk, wallet.getKey ckid = some key → db.readPK ckid = some cpk → cpk = env.getPubKey key

/-- A sender who can sign, or nobody; and the name that the receiver gets to see. -/
inductive OwnedSender (env : SmsgEnv) (wallet : SmsgWallet) : String → String → Prop
  | anon : OwnedSender env wallet "anon" "anon"
  | address {addressFrom : String} {coinAddrFrom : CBase58Data} {ckidFrom : CKeyID} {keyFrom : CKey}
      (named : addressFrom ≠ "anon") (parsed : env.setString addressFrom = some coinAddrFrom)
      (keyID : coinAddrFrom.getKeyID env.testNet = some ckidFrom) (owned : wallet.getKey ckidFrom = some keyFrom)
      (compressed : keyFrom.fCompressed = true) : OwnedSender env wallet addressFrom (env.toString coinAddrFrom)

/-- An address of the wallet. -/
structure OwnedAddress (env : SmsgEnv) (wallet : SmsgWallet) (address : String) (coinAddr : CBase58Data)
    (ckid : CKeyID) (key : CKey) : Prop where
  parsed : env.setString address = some coinAddr
  keyID : coinAddr.getKeyID env.testNet = some ckid
  owned : wallet.getKey ckid = some key

/-- What `LZ4_decompress_safe` is relied on for besides `SmsgEnv.Correct`: it writes no more than it is given room for.
    Of the size -1, which only comes with an empty destination, nothing is said. -/
structure SmsgEnv.Lz4Safe (env : SmsgEnv) : Prop where
  size : ∀ input maxOutputSize, maxOutputSize ≠ -1 → (env.lz4Decompress input maxOutputSize).2.length ≤ maxOutputSize.toNat

/-- The length of the text that a payload names. -/
def lenPlain (vchPayload : Bytes) (fFromAnonymous : Bool) : UInt32 :=
  toUInt32 ((vchPayload.drop (plHdrLen fFromAnonymous - 4)).take 4)

/-- A payload has its header, and a text of the length that this names; where it is longer than 128, a byte to
    decompress, and room to decompress to. -/
def TextInside (vchPayload : Bytes) (fFromAnonymous : Bool) : Prop :=
  plHdrLen fFromAnonymous ≤ vchPayload.length ∧ if lenPlain vchPayload fFromAnonymous > 128 then
      plHdrLen fFromAnonymous < vchPayload.length ∧ lenPlain vchPayload fFromAnonymous ≠ 0xFFFFFFFF
    else plHdrLen fFromAnonymous + (lenPlain vchPayload fFromAnonymous).toNat ≤ vchPayload.length

/-- What a decrypted payload has to be for the reads of `SecureMsgDecrypt` to lie inside it: there is a first byte, and
    the header that this stands for with the text that the header names. -/
def PayloadInside (vchPayload : Bytes) : Prop :=
  1 ≤ vchPayload.length ∧ TextInside vchPayload (vchPayload.take 1 == [250])

/-- `vchPayload`, what `SecureMsgDecrypt` obtains behind the check of the code. -/
def plaintext (env : SmsgEnv) (wallet : SmsgWallet) (address : String) (psmsg : SecureMessage) (payload : Bytes) :
    Except Stop Bytes := do
  let keys ← secretOf env wallet address psmsg
  checkMac env keys.2 psmsg payload
  orReturn (env.aesDecrypt keys.1 psmsg.iv payload) 1

end PupaCoin.Smsg
