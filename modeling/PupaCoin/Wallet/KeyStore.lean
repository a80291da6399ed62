import PupaCoin.Chain.Params
import PupaCoin.Lib.OrderedMap

/-!
# The encrypted key store (`crypter.cpp`, `keystore.h`, `wallet.cpp`)

The store has a map of plain keys and a map of encrypted secrets, of which one is in use; the mode flag says which.
It is locked while it has no master key.
-/

namespace PupaCoin

abbrev CKeyingMaterial := List UInt8

abbrev CPubKey := List UInt8

def walletCryptoKeySize : Nat := 32

/-- A valid `CKey`. -/
structure CKey where
  vch : List UInt8
  fCompressed : Bool
  size : vch.length = 32
deriving DecidableEq

/-- `CKey::Set`; a key of the wrong size is not valid. -/
def CKey.set (vchSecret : List UInt8) (fCompressedIn : Bool) : Option CKey :=
  if h : vchSecret.length = 32 then some ⟨vchSecret, fCompressedIn, h⟩ else none

/-- `EncryptSecret` and `DecryptSecret`. Only the key that has encrypted a secret decrypts it, and there is nothing to
decrypt in an empty string. -/
structure SecretCrypter where
  encryptSecret : CKeyingMaterial → CKeyingMaterial → UInt256 → Option (List UInt8)
  decryptSecret : CKeyingMaterial → List UInt8 → UInt256 → Option CKeyingMaterial
  encrypts : ∀ vMasterKey vchPlaintext nIV, vMasterKey.length = walletCryptoKeySize →
    ∃ vchCiphertext, encryptSecret vMasterKey vchPlaintext nIV = some vchCiphertext
  decrypts : ∀ vMasterKey vchPlaintext nIV vchCiphertext,
    encryptSecret vMasterKey vchPlaintext nIV = some vchCiphertext →
    decryptSecret vMasterKey vchCiphertext nIV = some vchPlaintext
  rightKey : ∀ vMasterKey vchPlaintext nIV vchCiphertext, encryptSecret vMasterKey vchPlaintext nIV = some vchCiphertext →
    ∀ vOtherKey, vOtherKey ≠ vMasterKey → decryptSecret vOtherKey vchCiphertext nIV = none
  decrypts_nil : ∀ vMasterKey nIV, decryptSecret vMasterKey [] nIV = none

/-- Public keys: how they are made of keys, what they are known by, and the hash that `EncryptSecret` starts with. -/
structure PubKeys (K : Type) where
  getPubKey : CKey → CPubKey
  isCompressed : CPubKey → Bool
  getID : CPubKey → K
  getHash : CPubKey → UInt256
  isCompressed_getPubKey : ∀ key, isCompressed (getPubKey key) = key.fCompressed

structure CStealthKeyMetadata where
  pkEphem : CPubKey
  pkScan : CPubKey
deriving DecidableEq, Repr

/-- `CCryptoKeyStore`, with what the wallet knows about the stealth keys in it. -/
structure CCryptoKeyStore (K : Type) [LinearOrder K] where
  fUseCrypto : Bool
  mapKeys : OrderedMap K CKey
  mapCryptedKeys : OrderedMap K (CPubKey × List UInt8)
  vMasterKey : CKeyingMaterial
  mapStealthKeyMeta : OrderedMap K CStealthKeyMetadata
  /-- The secret that was added last for each key; nothing reads it. -/
  added : K → Option CKey

/-- A payment to a stealth address of the wallet, as its `OP_RETURN` output and the scan secret tell it. -/
structure StealthPayment where
  cpkE : CPubKey
  skMeta : CStealthKeyMetadata
deriving DecidableEq, Repr

namespace CCryptoKeyStore

variable {K : Type} [LinearOrder K]

/-- `CCryptoKeyStore()`. -/
def initial : CCryptoKeyStore K := ⟨false, .empty, .empty, [], .empty, fun _ => none⟩

def isCrypted (s : CCryptoKeyStore K) : Bool := s.fUseCrypto

def isLocked (s : CCryptoKeyStore K) : Bool := if !s.isCrypted then false else s.vMasterKey.isEmpty

def haveKey (s : CCryptoKeyStore K) (address : K) : Bool :=
  if !s.isCrypted then (s.mapKeys.find? address).isSome else (s.mapCryptedKeys.find? address).isSome

def note (s : CCryptoKeyStore K) (address : K) (key : Option CKey) : CCryptoKeyStore K :=
  { s with added := Function.update s.added address key }

def setCrypted (s : CCryptoKeyStore K) : Bool × CCryptoKeyStore K :=
  if s.fUseCrypto then (true, s)
  else if !s.mapKeys.entries.isEmpty then (false, s)
  else (true, { s with fUseCrypto := true })

def lockKeyStore (s : CCryptoKeyStore K) : Bool × CCryptoKeyStore K :=
  match s.setCrypted with
  | (false, s) => (false, s)
  | (true, s) => (true, { s with vMasterKey := [] })

section Store

variable (crypter : SecretCrypter) (pubKeys : PubKeys K)

/-- The secret of an entry under a key, if it is one. -/
def decryptKey (vMasterKey : CKeyingMaterial) (vchPubKey : CPubKey) (vchCryptedSecret : List UInt8) : Option CKey := do
  let vchSecret ← crypter.decryptSecret vMasterKey vchCryptedSecret (pubKeys.getHash vchPubKey)
  CKey.set vchSecret (pubKeys.isCompressed vchPubKey)

/-- `CCryptoKeyStore::Unlock`: the loop over the entries ends in its first pass. -/
def unlock (vMasterKeyIn : CKeyingMaterial) (s : CCryptoKeyStore K) : Bool × CCryptoKeyStore K :=
  match s.setCrypted with
  | (false, s) => (false, s)
  | (true, s) =>
    match s.mapCryptedKeys.begin? with
    | none => (true, { s with vMasterKey := vMasterKeyIn })
    | some (_, vchPubKey, vchCryptedSecret) =>
      match decryptKey crypter pubKeys vMasterKeyIn vchPubKey vchCryptedSecret with
      | none => (false, s)
      | some key =>
        if pubKeys.getPubKey key = vchPubKey then (true, { s with vMasterKey := vMasterKeyIn }) else (false, s)

def addCryptedKey (vchPubKey : CPubKey) (vchCryptedSecret : List UInt8) (s : CCryptoKeyStore K) :
    Bool × CCryptoKeyStore K :=
  match s.setCrypted with
  | (false, s) => (false, s)
  | (true, s) => (true,
      { s with mapCryptedKeys := s.mapCryptedKeys.set (pubKeys.getID vchPubKey) (vchPubKey, vchCryptedSecret) })

def addKeyPubKey (key : CKey) (pubkey : CPubKey) (s : CCryptoKeyStore K) : Bool × CCryptoKeyStore K :=
  if !s.isCrypted then
    (true, { s with mapKeys := s.mapKeys.set (pubKeys.getID pubkey) key }.note (pubKeys.getID pubkey) (some key))
  else if s.isLocked then (false, s)
  else
    match crypter.encryptSecret s.vMasterKey key.vch (pubKeys.getHash pubkey) with
    | none => (false, s)
    | some vchCryptedSecret =>
      match s.addCryptedKey pubKeys pubkey vchCryptedSecret with
      | (false, s) => (false, s)
      | (true, s) => (true, s.note (pubKeys.getID pubkey) (some key))

def getKey (address : K) (s : CCryptoKeyStore K) : Option CKey :=
  if !s.isCrypted then s.mapKeys.find? address
  else
    match s.mapCryptedKeys.find? address with
    | none => none
    | some (vchPubKey, vchCryptedSecret) => decryptKey crypter pubKeys s.vMasterKey vchPubKey vchCryptedSecret

/-- The loop of `EncryptKeys`. -/
def encryptLoop (vMasterKeyIn : CKeyingMaterial) : List (K × CKey) → CCryptoKeyStore K → Bool × CCryptoKeyStore K
  | [], s => (true, s)
  | (_, key) :: mapKeys, s =>
    let vchPubKey := pubKeys.getPubKey key
    match crypter.encryptSecret vMasterKeyIn key.vch (pubKeys.getHash vchPubKey) with
    | none => (false, s)
    | some vchCryptedSecret =>
      encryptLoop vMasterKeyIn mapKeys
        { s with mapCryptedKeys := s.mapCryptedKeys.set (pubKeys.getID vchPubKey) (vchPubKey, vchCryptedSecret) }

/-- `EncryptKeys`; the flag is set before its loop, so that `AddCryptedKey` cannot fail there. -/
def encryptKeys (vMasterKeyIn : CKeyingMaterial) (s : CCryptoKeyStore K) : Bool × CCryptoKeyStore K :=
  if !s.mapCryptedKeys.entries.isEmpty || s.isCrypted then (false, s)
  else
    match encryptLoop crypter pubKeys vMasterKeyIn s.mapKeys.entries { s with fUseCrypto := true } with
    | (false, s) => (false, s)
    | (true, s) => (true, { s with mapKeys := .empty })

variable (spendKey : CStealthKeyMetadata → Option CKey)

/-- A match of `FindStealthTransactions`. `spendKey` is the key that the secrets of the stealth address give for the
payment, if they do. -/
def receiveStealth (payment : StealthPayment) (s : CCryptoKeyStore K) : CCryptoKeyStore K :=
  let keyId := pubKeys.getID payment.cpkE
  if s.haveKey keyId then s
  else if s.isLocked then
    -- add key without secret
    let s := (s.addCryptedKey pubKeys payment.cpkE []).2
    { s with mapStealthKeyMeta := s.mapStealthKeyMeta.set keyId payment.skMeta }
  else
    match spendKey payment.skMeta with
    | none => s
    | some ckey => (s.addKeyPubKey crypter pubKeys ckey (pubKeys.getPubKey ckey)).2

/-- The loop of `UnlockStealthAddresses`: entries without a secret get theirs. -/
def expandLoop : List (K × CPubKey × List UInt8) → CCryptoKeyStore K → CCryptoKeyStore K
  | [], s => s
  | (_, pubKey, vchCryptedSecret) :: entries, s =>
    let s :=
      if vchCryptedSecret.length ≠ 0 then s
      else
        match (s.mapStealthKeyMeta.find? (pubKeys.getID pubKey)).bind spendKey with
        | none => s
        | some ckey =>
          if pubKeys.getPubKey ckey ≠ pubKey then s
          else (s.addKeyPubKey crypter pubKeys ckey (pubKeys.getPubKey ckey)).2
    expandLoop entries s

def unlockStealthAddresses (s : CCryptoKeyStore K) : CCryptoKeyStore K :=
  expandLoop crypter pubKeys spendKey s.mapCryptedKeys.entries s

/-- `CWallet::Unlock` with the key that the passphrase gives. -/
def walletUnlock (fWalletUnlockStakingOnly : Bool) (vMasterKey : CKeyingMaterial) (s : CCryptoKeyStore K) :
    Bool × CCryptoKeyStore K :=
  if !s.isLocked && !fWalletUnlockStakingOnly then (true, s)
  else
    match s.unlock crypter pubKeys vMasterKey with
    | (false, s) => (false, s)
    | (true, s) => (true, s.unlockStealthAddresses crypter pubKeys spendKey)

/-- `CWallet::Lock`. -/
def walletLock (s : CCryptoKeyStore K) : Bool × CCryptoKeyStore K := if s.isLocked then (true, s) else s.lockKeyStore

end Store

end CCryptoKeyStore

/-- What is done to the key store. -/
inductive KeyStoreOp
  | addKeyPubKey (key : CKey) (pubkey : CPubKey)
  | addCryptedKey (vchPubKey : CPubKey) (vchCryptedSecret : List UInt8)
  | encryptKeys (vMasterKeyIn : CKeyingMaterial)
  | lockKeyStore
  | walletLock
  | unlock (vMasterKeyIn : CKeyingMaterial)
  | walletUnlock (fWalletUnlockStakingOnly : Bool) (vMasterKey : CKeyingMaterial)
  | receiveStealth (payment : StealthPayment)
deriving DecidableEq

section Runs

variable {K : Type} [LinearOrder K] (crypter : SecretCrypter) (pubKeys : PubKeys K)
  (spendKey : CStealthKeyMetadata → Option CKey) (masterKey : CKeyingMaterial)

/-- The store behind an operation. The secret that `AddCryptedKey` adds is the one under the master key. -/
def keyStoreStep (s : CCryptoKeyStore K) : KeyStoreOp → CCryptoKeyStore K
  | .addKeyPubKey key pubkey => (s.addKeyPubKey crypter pubKeys key pubkey).2
  | .addCryptedKey vchPubKey vchCryptedSecret =>
    match s.addCryptedKey pubKeys vchPubKey vchCryptedSecret with
    | (false, s) => s
    | (true, s) => s.note (pubKeys.getID vchPubKey)
        (CCryptoKeyStore.decryptKey crypter pubKeys masterKey vchPubKey vchCryptedSecret)
  | .encryptKeys vMasterKeyIn => (s.encryptKeys crypter pubKeys vMasterKeyIn).2
  | .lockKeyStore => s.lockKeyStore.2
  | .walletLock => s.walletLock.2
  | .unlock vMasterKeyIn => (s.unlock crypter pubKeys vMasterKeyIn).2
  | .walletUnlock fWalletUnlockStakingOnly vMasterKey =>
    (s.walletUnlock crypter pubKeys spendKey fWalletUnlockStakingOnly vMasterKey).2
  | .receiveStealth payment => s.receiveStealth crypter pubKeys spendKey payment

/-- Every secret that was added is there. -/
def CCryptoKeyStore.Open (s : CCryptoKeyStore K) : Prop :=
  s.isLocked = false ∧ ∀ address key, s.added address = some key → s.getKey crypter pubKeys address = some key

/-- The master key opens the store, no other key does, and no plain key is left. -/
structure CCryptoKeyStore.Unlockable (s : CCryptoKeyStore K) : Prop where
  unlock_master : (s.unlock crypter pubKeys masterKey).1 = true ∧ (s.unlock crypter pubKeys masterKey).2.Open crypter pubKeys
  unlock_other : ∀ vMasterKeyIn, vMasterKeyIn ≠ masterKey → s.isLocked = true →
    (s.unlock crypter pubKeys vMasterKeyIn).1 = false ∧ (s.unlock crypter pubKeys vMasterKeyIn).2.isLocked = true
  walletUnlock_master : ∀ fWalletUnlockStakingOnly,
    (s.walletUnlock crypter pubKeys spendKey fWalletUnlockStakingOnly masterKey).1 = true ∧
    (s.walletUnlock crypter pubKeys spendKey fWalletUnlockStakingOnly masterKey).2.Open crypter pubKeys
  walletUnlock_other : ∀ fWalletUnlockStakingOnly vMasterKey, vMasterKey ≠ masterKey → s.isLocked = true →
    (s.walletUnlock crypter pubKeys spendKey fWalletUnlockStakingOnly vMasterKey).1 = false ∧
    (s.walletUnlock crypter pubKeys spendKey fWalletUnlockStakingOnly vMasterKey).2.isLocked = true
  no_plain : s.mapKeys.entries = []

def CCryptoKeyStore.HasKey (s : CCryptoKeyStore K) : Prop := s.mapKeys.entries ≠ [] ∨ s.mapCryptedKeys.entries ≠ []

/-- Keys come with their own public keys, encrypted ones under the master key; a store without keys is neither
encrypted nor locked nor unlocked with another key; and a stealth payment that arrives while the store is locked is
not to the least of the identifiers. -/
def KeyStoreSafe (s : CCryptoKeyStore K) : KeyStoreOp → Prop
  | .addKeyPubKey key pubkey => pubkey = pubKeys.getPubKey key
  | .addCryptedKey vchPubKey vchCryptedSecret => ∃ key, pubKeys.getPubKey key = vchPubKey ∧
      crypter.encryptSecret masterKey key.vch (pubKeys.getHash vchPubKey) = some vchCryptedSecret
  | .encryptKeys vMasterKeyIn => s.isCrypted = false → vMasterKeyIn = masterKey ∧ s.HasKey
  | .lockKeyStore => s.HasKey
  | .walletLock => s.isLocked = false → s.HasKey
  | .unlock vMasterKeyIn => s.HasKey ∨ vMasterKeyIn = masterKey
  | .walletUnlock fWalletUnlockStakingOnly vMasterKey =>
      (s.isLocked = true ∨ fWalletUnlockStakingOnly = true) → s.HasKey ∨ vMasterKey = masterKey
  | .receiveStealth payment => s.isLocked = true → s.haveKey (pubKeys.getID payment.cpkE) = false →
      ∃ e ∈ s.mapCryptedKeys.entries, e.1 < pubKeys.getID payment.cpkE

/-- The states of a key store that begins empty, every operation being safe where it begins. -/
inductive SafeKeyStoreRun : CCryptoKeyStore K → Prop
  | start : SafeKeyStoreRun .initial
  | step {s : CCryptoKeyStore K} (op : KeyStoreOp) : SafeKeyStoreRun s → KeyStoreSafe crypter pubKeys masterKey s op →
      SafeKeyStoreRun (keyStoreStep crypter pubKeys spendKey masterKey s op)

end Runs

end PupaCoin
