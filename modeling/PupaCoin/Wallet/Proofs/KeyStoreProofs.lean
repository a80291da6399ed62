import PupaCoin.Wallet.KeyStore

/-!
# An encrypted key store opens with its master key

Every entry has the secret that was added for its key, encrypted under the master key, or has none yet; the first
entry, which `Unlock` tries, is never one of these.
-/

namespace PupaCoin

variable {key : CKey} {vchCryptedSecret : List UInt8} {vMasterKeyIn vMasterKey : CKeyingMaterial}
  {payment : StealthPayment} {fWalletUnlockStakingOnly : Bool}

namespace CCryptoKeyStore

variable {K : Type} [LinearOrder K] {crypter : SecretCrypter} {pubKeys : PubKeys K}
  {spendKey : CStealthKeyMetadata → Option CKey} {masterKey : CKeyingMaterial} {s : CCryptoKeyStore K}

/-- An entry holds the secret that was added, or waits for one. -/
def EntryOk (crypter : SecretCrypter) (pubKeys : PubKeys K) (masterKey : CKeyingMaterial) (secret : Option CKey)
    (entry : CPubKey × List UInt8) : Prop :=
  (entry.2 = [] ∧ secret = none) ∨ ∃ key, secret = some key ∧ pubKeys.getPubKey key = entry.1 ∧
    crypter.encryptSecret masterKey key.vch (pubKeys.getHash entry.1) = some entry.2

/-- A store that is not encrypted. -/
structure PlainInv (pubKeys : PubKeys K) (s : CCryptoKeyStore K) : Prop where
  isCrypted : s.isCrypted = false
  mapCryptedKeys : s.mapCryptedKeys.entries = []
  vMasterKey : s.vMasterKey = []
  address : ∀ address key, s.mapKeys.find? address = some key → pubKeys.getID (pubKeys.getPubKey key) = address
  added : ∀ address, s.added address = s.mapKeys.find? address

/-- An encrypted store. -/
structure CryptedInv (crypter : SecretCrypter) (pubKeys : PubKeys K) (masterKey : CKeyingMaterial)
    (s : CCryptoKeyStore K) : Prop where
  isCrypted : s.isCrypted = true
  mapKeys : s.mapKeys.entries = []
  vMasterKey : s.vMasterKey = masterKey ∨ (s.vMasterKey = [] ∧ s.mapCryptedKeys.entries ≠ [])
  /-- `Unlock` tries the first entry. -/
  first : ∀ e, s.mapCryptedKeys.begin? = some e → e.2.2 ≠ []
  entries : ∀ address entry, s.mapCryptedKeys.find? address = some entry →
    EntryOk crypter pubKeys masterKey (s.added address) entry
  added : ∀ address, s.mapCryptedKeys.find? address = none → s.added address = none

def Inv (crypter : SecretCrypter) (pubKeys : PubKeys K) (masterKey : CKeyingMaterial) (s : CCryptoKeyStore K) : Prop :=
  s.PlainInv pubKeys ∨ s.CryptedInv crypter pubKeys masterKey

theorem plainInv_initial : (initial : CCryptoKeyStore K).PlainInv pubKeys :=
  ⟨rfl, rfl, rfl, fun _ _ h => absurd h.symm (Option.some_ne_none _), fun _ => rfl⟩

theorem set_vch (key : CKey) : CKey.set key.vch key.fCompressed = some key := by
  rw [CKey.set, dif_pos key.size]

omit [LinearOrder K] in
theorem decryptKey_encrypted
    (h : crypter.encryptSecret masterKey key.vch (pubKeys.getHash (pubKeys.getPubKey key)) = some vchCryptedSecret) :
    decryptKey crypter pubKeys masterKey (pubKeys.getPubKey key) vchCryptedSecret = some key ∧
      ∀ vOtherKey, vOtherKey ≠ masterKey →
        decryptKey crypter pubKeys vOtherKey (pubKeys.getPubKey key) vchCryptedSecret = none := by
  constructor
  · rw [decryptKey, crypter.decrypts _ _ _ _ h]
    show CKey.set key.vch (pubKeys.isCompressed (pubKeys.getPubKey key)) = some key
    rw [pubKeys.isCompressed_getPubKey, set_vch]
  · intro vOtherKey hother
    rw [decryptKey, crypter.rightKey _ _ _ _ h vOtherKey hother]
    rfl

theorem encrypted_ne_nil {nIV : UInt256} (h : crypter.encryptSecret masterKey key.vch nIV = some vchCryptedSecret)
    : vchCryptedSecret ≠ [] := by
  intro hnil
  have hdecrypt := crypter.decrypts _ _ _ _ h
  rw [hnil, crypter.decrypts_nil] at hdecrypt
  exact nomatch hdecrypt

omit [LinearOrder K] in
theorem EntryOk.decryptKey {secret : Option CKey} {entry : CPubKey × List UInt8}
    (h : EntryOk crypter pubKeys masterKey secret entry) (hne : entry.2 ≠ []) :
    ∃ key, secret = some key ∧ pubKeys.getPubKey key = entry.1 ∧
      CCryptoKeyStore.decryptKey crypter pubKeys masterKey entry.1 entry.2 = some key ∧
      ∀ vOtherKey, vOtherKey ≠ masterKey →
        CCryptoKeyStore.decryptKey crypter pubKeys vOtherKey entry.1 entry.2 = none := by
  rcases h with ⟨hnil, -⟩ | ⟨key, hsecret, hpub, hencrypt⟩
  · exact absurd hnil hne
  · rw [← hpub] at hencrypt
    obtain ⟨hright, hother⟩ := decryptKey_encrypted hencrypt
    rw [hpub] at hright hother
    exact ⟨key, hsecret, hpub, hright, hother⟩

/-! ## Locking -/

theorem setCrypted_of_crypted (h : s.isCrypted = true) : s.setCrypted = (true, s) := if_pos h

theorem isLocked_of_crypted (h : s.isCrypted = true) : s.isLocked = s.vMasterKey.isEmpty := by
  rw [isLocked, h, Bool.not_true, if_neg Bool.false_ne_true]

theorem isLocked_of_plain (h : s.isCrypted = false) : s.isLocked = false := by
  rw [isLocked, h, Bool.not_false, if_pos rfl]

theorem PlainInv.setCrypted (h : s.PlainInv pubKeys) :
    s.setCrypted = (if s.mapKeys.entries = [] then (true, { s with fUseCrypto := true }) else (false, s)) := by
  have hplain : s.fUseCrypto = false := h.isCrypted
  rw [CCryptoKeyStore.setCrypted, hplain, if_neg Bool.false_ne_true]
  cases hentries : s.mapKeys.entries with
  | nil => rfl
  | cons e l => rfl

theorem PlainInv.hasKey_iff (h : s.PlainInv pubKeys) : s.HasKey ↔ s.mapKeys.entries ≠ [] :=
  ⟨fun hkey => hkey.resolve_right fun hne => hne h.mapCryptedKeys, Or.inl⟩

theorem CryptedInv.hasKey_iff (h : s.CryptedInv crypter pubKeys masterKey) :
    s.HasKey ↔ s.mapCryptedKeys.entries ≠ [] :=
  ⟨fun hkey => hkey.resolve_left fun hne => hne h.mapKeys, Or.inr⟩

theorem PlainInv.crypted (h : s.PlainInv pubKeys) (hempty : s.mapKeys.entries = []) :
    CryptedInv crypter pubKeys masterKey { s with fUseCrypto := true, vMasterKey := masterKey } where
  isCrypted := rfl
  mapKeys := hempty
  vMasterKey := Or.inl rfl
  first := fun e he => by
    have hnone := OrderedMap.begin?_eq_none_iff.mpr h.mapCryptedKeys
    exact absurd (hnone.symm.trans he) (Option.some_ne_none e).symm
  entries := fun address entry he => by
    have hmem := OrderedMap.find?_eq_some_iff.mp he
    have hentries : s.mapCryptedKeys.entries = [] := h.mapCryptedKeys
    rw [show ({ s with fUseCrypto := true, vMasterKey := masterKey } : CCryptoKeyStore K).mapCryptedKeys.entries = []
      from hentries] at hmem
    exact absurd hmem List.not_mem_nil
  added := fun address _ => by
    show s.added address = none
    rw [h.added, OrderedMap.find?_eq_none_iff]
    intro key hmem
    rw [hempty] at hmem
    exact absurd hmem List.not_mem_nil

theorem CryptedInv.unlocked (h : s.CryptedInv crypter pubKeys masterKey) :
    CryptedInv crypter pubKeys masterKey { s with vMasterKey := masterKey } :=
  { h with vMasterKey := Or.inl rfl }

theorem CryptedInv.locked (h : s.CryptedInv crypter pubKeys masterKey) (hkey : s.mapCryptedKeys.entries ≠ []) :
    CryptedInv crypter pubKeys masterKey { s with vMasterKey := [] } :=
  { h with vMasterKey := Or.inr ⟨rfl, hkey⟩ }

theorem CryptedInv.lockKeyStore (h : s.CryptedInv crypter pubKeys masterKey) (hkey : s.HasKey) :
    s.lockKeyStore.2.CryptedInv crypter pubKeys masterKey := by
  rw [CCryptoKeyStore.lockKeyStore, setCrypted_of_crypted h.isCrypted]
  exact h.locked (h.hasKey_iff.mp hkey)

theorem PlainInv.lockKeyStore (h : s.PlainInv pubKeys) (hkey : s.HasKey) : s.lockKeyStore.2.PlainInv pubKeys := by
  rw [CCryptoKeyStore.lockKeyStore, h.setCrypted, if_neg (h.hasKey_iff.mp hkey)]
  exact h

theorem CryptedInv.unlock_eq (h : s.CryptedInv crypter pubKeys masterKey) (vMasterKeyIn : CKeyingMaterial) :
    s.unlock crypter pubKeys vMasterKeyIn =
      if vMasterKeyIn = masterKey ∨ s.mapCryptedKeys.entries = [] then (true, { s with vMasterKey := vMasterKeyIn })
      else (false, s) := by
  rw [unlock, setCrypted_of_crypted h.isCrypted]
  cases hbegin : s.mapCryptedKeys.begin? with
  | none =>
    rw [if_pos (Or.inr (OrderedMap.begin?_eq_none_iff.mp hbegin))]
    simp only [hbegin]
  | some e =>
    obtain ⟨address, vchPubKey, vchCryptedSecret⟩ := e
    have hmem := OrderedMap.begin?_mem hbegin
    have hne : s.mapCryptedKeys.entries ≠ [] := List.ne_nil_of_mem hmem
    have hentry := h.entries address _ (OrderedMap.find?_eq_some_iff.mpr hmem)
    obtain ⟨key, -, hpub, hright, hother⟩ := hentry.decryptKey (h.first _ hbegin)
    by_cases hkey : vMasterKeyIn = masterKey
    · rw [if_pos (Or.inl hkey), hkey]
      simp only [hbegin, hright]
      exact if_pos hpub
    · rw [if_neg (not_or.mpr ⟨hkey, hne⟩)]
      simp only [hbegin, hother vMasterKeyIn hkey]

theorem CryptedInv.unlock_master (h : s.CryptedInv crypter pubKeys masterKey) :
    s.unlock crypter pubKeys masterKey = (true, { s with vMasterKey := masterKey }) := by
  rw [h.unlock_eq, if_pos (Or.inl rfl)]

theorem CryptedInv.unlock_other (h : s.CryptedInv crypter pubKeys masterKey) (hother : vMasterKeyIn ≠ masterKey)
    (hkey : s.mapCryptedKeys.entries ≠ []) : s.unlock crypter pubKeys vMasterKeyIn = (false, s) := by
  rw [h.unlock_eq, if_neg (not_or.mpr ⟨hother, hkey⟩)]

theorem CryptedInv.entries_ne_nil (h : s.CryptedInv crypter pubKeys masterKey)
    (hM : masterKey.length = walletCryptoKeySize) (hlocked : s.isLocked = true) : s.mapCryptedKeys.entries ≠ [] := by
  rw [isLocked_of_crypted h.isCrypted, List.isEmpty_iff] at hlocked
  rcases h.vMasterKey with hkey | ⟨-, hentries⟩
  · rw [← hkey, hlocked] at hM
    exact nomatch hM
  · exact hentries

theorem CryptedInv.vMasterKey_eq (h : s.CryptedInv crypter pubKeys masterKey) (hunlocked : s.isLocked = false) :
    s.vMasterKey = masterKey := by
  rcases h.vMasterKey with hkey | ⟨hnil, -⟩
  · exact hkey
  · rw [isLocked_of_crypted h.isCrypted, hnil] at hunlocked
    exact nomatch hunlocked

theorem CryptedInv.open (h : s.CryptedInv crypter pubKeys masterKey) (hM : masterKey.length = walletCryptoKeySize)
    (hkey : s.vMasterKey = masterKey) : s.Open crypter pubKeys := by
  constructor
  · rw [isLocked_of_crypted h.isCrypted, hkey, List.isEmpty_eq_false_iff]
    intro hnil
    rw [hnil] at hM
    exact nomatch hM
  · intro address key hadded
    rw [getKey, h.isCrypted, Bool.not_true, if_neg Bool.false_ne_true]
    cases hfind : s.mapCryptedKeys.find? address with
    | none => exact absurd ((h.added address hfind).symm.trans hadded) (Option.some_ne_none key).symm
    | some entry =>
      have hentry := h.entries address entry hfind
      have hne : entry.2 ≠ [] := by
        rcases hentry with ⟨-, hnone⟩ | ⟨key', -, -, hencrypt⟩
        · exact absurd (hnone.symm.trans hadded) (Option.some_ne_none key).symm
        · exact encrypted_ne_nil hencrypt
      obtain ⟨key', hsecret, -, hright, -⟩ := hentry.decryptKey hne
      show decryptKey crypter pubKeys s.vMasterKey entry.1 entry.2 = some key
      rw [hkey, hright, ← hsecret, hadded]

theorem CryptedInv.setEntry (h : s.CryptedInv crypter pubKeys masterKey)
    (hencrypt : crypter.encryptSecret masterKey key.vch (pubKeys.getHash (pubKeys.getPubKey key))
      = some vchCryptedSecret) :
    CryptedInv crypter pubKeys masterKey ({ s with
      mapCryptedKeys := s.mapCryptedKeys.set (pubKeys.getID (pubKeys.getPubKey key))
        (pubKeys.getPubKey key, vchCryptedSecret) }.note (pubKeys.getID (pubKeys.getPubKey key)) (some key)) := by
  set address := pubKeys.getID (pubKeys.getPubKey key) with haddress
  have hself : Function.update s.added address (some key) address = some key := Function.update_self ..
  exact
    { isCrypted := h.isCrypted
      mapKeys := h.mapKeys
      vMasterKey := by
        rcases h.vMasterKey with hkey | ⟨hnil, -⟩
        · exact Or.inl hkey
        · exact Or.inr ⟨hnil, OrderedMap.set_ne_nil _ _ _⟩
      first := fun e he => by
        rcases OrderedMap.begin?_set s.mapCryptedKeys address (pubKeys.getPubKey key, vchCryptedSecret) with
          hnew | ⟨e', hold, -, hfirst⟩
        · rw [← Option.some.inj (hnew.symm.trans he)]
          exact encrypted_ne_nil hencrypt
        · rw [← Option.some.inj (hfirst.symm.trans he)]
          exact h.first e' hold
      entries := fun address' entry hentry => by
        show EntryOk crypter pubKeys masterKey (Function.update s.added address (some key) address') entry
        rcases OrderedMap.find?_set_cases hentry with ⟨hsame, rfl⟩ | ⟨hsame, hold⟩
        · rw [hsame, hself]
          exact Or.inr ⟨key, rfl, rfl, hencrypt⟩
        · rw [Function.update_of_ne hsame]
          exact h.entries address' entry hold
      added := fun address' hnone => by
        show Function.update s.added address (some key) address' = none
        obtain ⟨hsame, hold⟩ := OrderedMap.find?_set_eq_none hnone
        rw [Function.update_of_ne hsame]
        exact h.added address' hold }

theorem addCryptedKey_of_crypted (h : s.isCrypted = true) (vchPubKey : CPubKey) (vchCryptedSecret : List UInt8) :
    s.addCryptedKey pubKeys vchPubKey vchCryptedSecret = (true,
      { s with mapCryptedKeys := s.mapCryptedKeys.set (pubKeys.getID vchPubKey) (vchPubKey, vchCryptedSecret) }) := by
  rw [addCryptedKey, setCrypted_of_crypted h]

theorem CryptedInv.addKeyPubKey (h : s.CryptedInv crypter pubKeys masterKey)
    (hM : masterKey.length = walletCryptoKeySize) (key : CKey) :
    (s.addKeyPubKey crypter pubKeys key (pubKeys.getPubKey key)).2.CryptedInv crypter pubKeys masterKey ∧
      (s.addKeyPubKey crypter pubKeys key (pubKeys.getPubKey key)).2.vMasterKey = s.vMasterKey := by
  rw [CCryptoKeyStore.addKeyPubKey, h.isCrypted, Bool.not_true, if_neg Bool.false_ne_true]
  cases hlocked : s.isLocked with
  | true => exact ⟨h, rfl⟩
  | false =>
    rw [if_neg Bool.false_ne_true, h.vMasterKey_eq hlocked]
    obtain ⟨vchCryptedSecret, hencrypt⟩ :=
      crypter.encrypts masterKey key.vch (pubKeys.getHash (pubKeys.getPubKey key)) hM
    simp only [hencrypt, addCryptedKey_of_crypted h.isCrypted]
    exact ⟨h.setEntry hencrypt, h.vMasterKey_eq hlocked⟩

theorem PlainInv.addKeyPubKey (h : s.PlainInv pubKeys) (key : CKey) :
    (s.addKeyPubKey crypter pubKeys key (pubKeys.getPubKey key)).2.PlainInv pubKeys := by
  rw [CCryptoKeyStore.addKeyPubKey, h.isCrypted, Bool.not_false, if_pos rfl]
  exact
    { isCrypted := h.isCrypted
      mapCryptedKeys := h.mapCryptedKeys
      vMasterKey := h.vMasterKey
      address := fun address key' hfind => by
        rcases OrderedMap.find?_set_cases hfind with ⟨hsame, rfl⟩ | ⟨-, hold⟩
        · exact hsame.symm
        · exact h.address address key' hold
      added := fun address => by
        show Function.update s.added (pubKeys.getID (pubKeys.getPubKey key)) (some key) address
          = (s.mapKeys.set (pubKeys.getID (pubKeys.getPubKey key)) key).find? address
        by_cases hsame : address = pubKeys.getID (pubKeys.getPubKey key)
        · rw [hsame, Function.update_self, OrderedMap.find?_set_self]
        · rw [Function.update_of_ne hsame, OrderedMap.find?_set_of_ne _ _ hsame, h.added] }

theorem Inv.addKeyPubKey (h : s.Inv crypter pubKeys masterKey) (hM : masterKey.length = walletCryptoKeySize)
    (key : CKey) : (s.addKeyPubKey crypter pubKeys key (pubKeys.getPubKey key)).2.Inv crypter pubKeys masterKey := by
  rcases h with h | h
  · exact Or.inl (h.addKeyPubKey key)
  · exact Or.inr (h.addKeyPubKey hM key).1

theorem Inv.addCryptedKey (h : s.Inv crypter pubKeys masterKey)
    (hencrypt : crypter.encryptSecret masterKey key.vch (pubKeys.getHash (pubKeys.getPubKey key))
      = some vchCryptedSecret) :
    (keyStoreStep crypter pubKeys spendKey masterKey s
      (.addCryptedKey (pubKeys.getPubKey key) vchCryptedSecret)).Inv crypter pubKeys masterKey := by
  have hdecrypt := (decryptKey_encrypted hencrypt).1
  rcases h with h | h
  · by_cases hempty : s.mapKeys.entries = []
    · have hset := (h.crypted hempty).setEntry hencrypt
      have hlocked := hset.locked (OrderedMap.set_ne_nil _ _ _)
      simp only [keyStoreStep, CCryptoKeyStore.addCryptedKey, h.setCrypted, if_pos hempty, hdecrypt]
      have hvMasterKey := h.vMasterKey
      cases s with
      | mk fUseCrypto mapKeys mapCryptedKeys vMasterKey mapStealthKeyMeta added =>
        simp only at hvMasterKey
        rw [hvMasterKey]
        exact Or.inr hlocked
    · simp only [keyStoreStep, CCryptoKeyStore.addCryptedKey, h.setCrypted, if_neg hempty]
      exact Or.inl h
  · simp only [keyStoreStep, addCryptedKey_of_crypted h.isCrypted, hdecrypt]
    exact Or.inr (h.setEntry hencrypt)

/-- Half of the keys are encrypted: an entry has the secret that was added, and a key without one is still to come. -/
structure EncryptInv (crypter : SecretCrypter) (pubKeys : PubKeys K) (masterKey : CKeyingMaterial)
    (rest : List (K × CKey)) (s : CCryptoKeyStore K) : Prop where
  entries : ∀ address entry, s.mapCryptedKeys.find? address = some entry →
    ∃ key, s.added address = some key ∧ pubKeys.getPubKey key = entry.1 ∧
      crypter.encryptSecret masterKey key.vch (pubKeys.getHash entry.1) = some entry.2
  added : ∀ address, s.mapCryptedKeys.find? address = none → ∀ key, s.added address = some key → (address, key) ∈ rest
  rest : ∀ e ∈ rest, pubKeys.getID (pubKeys.getPubKey e.2) = e.1 ∧ s.added e.1 = some e.2

theorem EncryptInv.encryptLoop (hM : masterKey.length = walletCryptoKeySize) {rest : List (K × CKey)}
    (h : s.EncryptInv crypter pubKeys masterKey rest) :
    ∃ mapCryptedKeys, encryptLoop crypter pubKeys masterKey rest s = (true, { s with mapCryptedKeys }) ∧
      EncryptInv crypter pubKeys masterKey [] { s with mapCryptedKeys } := by
  induction rest generalizing s with
  | nil => exact ⟨s.mapCryptedKeys, rfl, h⟩
  | cons e rest ih =>
    obtain ⟨address, key⟩ := e
    obtain ⟨haddress, hadded⟩ := h.rest _ List.mem_cons_self
    have haddress : pubKeys.getID (pubKeys.getPubKey key) = address := haddress
    have hadded : s.added address = some key := hadded
    obtain ⟨vchCryptedSecret, hencrypt⟩ :=
      crypter.encrypts masterKey key.vch (pubKeys.getHash (pubKeys.getPubKey key)) hM
    have hnext : EncryptInv crypter pubKeys masterKey rest { s with
        mapCryptedKeys := s.mapCryptedKeys.set (pubKeys.getID (pubKeys.getPubKey key))
          (pubKeys.getPubKey key, vchCryptedSecret) } :=
      { entries := fun address' entry hfind => by
          rw [haddress] at hfind
          rcases OrderedMap.find?_set_cases hfind with ⟨rfl, rfl⟩ | ⟨-, hold⟩
          · exact ⟨key, hadded, rfl, hencrypt⟩
          · exact h.entries address' entry hold
        added := fun address' hnone key' hkey' => by
          rw [haddress] at hnone
          obtain ⟨hsame, hold⟩ := OrderedMap.find?_set_eq_none hnone
          rcases List.mem_cons.mp (h.added address' hold key' hkey') with heq | hmem
          · exact absurd (Prod.mk.inj heq).1 hsame
          · exact hmem
        rest := fun e he => h.rest e (List.mem_cons_of_mem _ he) }
    obtain ⟨mapCryptedKeys, hloop, hend⟩ := ih hnext
    refine ⟨mapCryptedKeys, ?_, hend⟩
    rw [CCryptoKeyStore.encryptLoop]
    simp only [hencrypt]
    exact hloop

theorem PlainInv.encryptKeys (h : s.PlainInv pubKeys) (hM : masterKey.length = walletCryptoKeySize) (hkey : s.HasKey)
    : (s.encryptKeys crypter pubKeys masterKey).2.CryptedInv crypter pubKeys masterKey := by
  have hstart : EncryptInv crypter pubKeys masterKey s.mapKeys.entries { s with fUseCrypto := true } :=
    { entries := fun address entry hfind => by
        have hmem : (address, entry) ∈ s.mapCryptedKeys.entries := OrderedMap.find?_eq_some_iff.mp hfind
        rw [h.mapCryptedKeys] at hmem
        exact absurd hmem List.not_mem_nil
      added := fun address _ key hkey => OrderedMap.find?_eq_some_iff.mp ((h.added address).symm.trans hkey)
      rest := fun e he => by
        have hfind : s.mapKeys.find? e.1 = some e.2 := OrderedMap.find?_eq_some_iff.mpr he
        exact ⟨h.address e.1 e.2 hfind, (h.added e.1).trans hfind⟩ }
  obtain ⟨mapCryptedKeys, hloop, hend⟩ := hstart.encryptLoop hM
  have hrun : s.encryptKeys crypter pubKeys masterKey = (true,
      { s with fUseCrypto := true, mapCryptedKeys, mapKeys := .empty }) := by
    rw [CCryptoKeyStore.encryptKeys, h.mapCryptedKeys, h.isCrypted]
    simp only [hloop]
    rfl
  have hsecret : ∀ address entry, mapCryptedKeys.find? address = some entry →
      ∃ key, s.added address = some key ∧ pubKeys.getPubKey key = entry.1 ∧
        crypter.encryptSecret masterKey key.vch (pubKeys.getHash entry.1) = some entry.2 := hend.entries
  have hnone : ∀ address, mapCryptedKeys.find? address = none → s.added address = none := by
    intro address hfind
    cases hadded : s.added address with
    | none => rfl
    | some key => exact absurd (hend.added address hfind key hadded) List.not_mem_nil
  rw [hrun]
  exact
    { isCrypted := rfl
      mapKeys := rfl
      vMasterKey := by
        refine Or.inr ⟨h.vMasterKey, fun hentries => ?_⟩
        obtain ⟨e, l, he⟩ := List.exists_cons_of_ne_nil (h.hasKey_iff.mp hkey)
        have hadded : s.added e.1 = some e.2 := (hstart.rest e (he ▸ List.mem_cons_self)).2
        have hentries : mapCryptedKeys.entries = [] := hentries
        have hfind : mapCryptedKeys.find? e.1 = none := by
          rw [OrderedMap.find?_eq_none_iff, hentries]
          exact fun v hv => List.not_mem_nil hv
        exact absurd ((hnone e.1 hfind).symm.trans hadded) (Option.some_ne_none _).symm
      first := fun e he => by
        have hmem : e ∈ mapCryptedKeys.entries := OrderedMap.begin?_mem he
        obtain ⟨key, -, -, hencrypt⟩ := hsecret e.1 e.2 (OrderedMap.find?_eq_some_iff.mpr hmem)
        exact encrypted_ne_nil hencrypt
      entries := fun address entry hfind => Or.inr (hsecret address entry hfind)
      added := hnone }

theorem CryptedInv.addLocked (h : s.CryptedInv crypter pubKeys masterKey)
    (hnone : s.mapCryptedKeys.find? (pubKeys.getID payment.cpkE) = none)
    (hless : ∃ e ∈ s.mapCryptedKeys.entries, e.1 < pubKeys.getID payment.cpkE) :
    CryptedInv crypter pubKeys masterKey { s with
      mapCryptedKeys := s.mapCryptedKeys.set (pubKeys.getID payment.cpkE) (payment.cpkE, [])
      mapStealthKeyMeta := s.mapStealthKeyMeta.set (pubKeys.getID payment.cpkE) payment.skMeta } where
  isCrypted := h.isCrypted
  mapKeys := h.mapKeys
  vMasterKey := by
    rcases h.vMasterKey with hkey | ⟨hnil, -⟩
    · exact Or.inl hkey
    · exact Or.inr ⟨hnil, OrderedMap.set_ne_nil _ _ _⟩
  first := fun e he => by
    obtain ⟨e', hmem, hlt⟩ := hless
    cases hbegin : s.mapCryptedKeys.begin? with
    | none =>
      rw [OrderedMap.begin?_eq_none_iff.mp hbegin] at hmem
      exact absurd hmem List.not_mem_nil
    | some e₀ =>
      have hfirst := OrderedMap.begin?_set_of_lt (v := (payment.cpkE, [])) hbegin
        ((OrderedMap.begin?_le hbegin hmem).trans_lt hlt)
      rw [← Option.some.inj (hfirst.symm.trans he)]
      exact h.first e₀ hbegin
  entries := fun address entry hentry => by
    rcases OrderedMap.find?_set_cases hentry with ⟨rfl, rfl⟩ | ⟨-, hold⟩
    · exact Or.inl ⟨rfl, h.added _ hnone⟩
    · exact h.entries address entry hold
  added := fun address hfind => h.added address (OrderedMap.find?_set_eq_none hfind).2

theorem Inv.receiveStealth (h : s.Inv crypter pubKeys masterKey) (hM : masterKey.length = walletCryptoKeySize) (hsafe : KeyStoreSafe crypter pubKeys masterKey s (.receiveStealth payment)) :
    (s.receiveStealth crypter pubKeys spendKey payment).Inv crypter pubKeys masterKey := by
  rw [CCryptoKeyStore.receiveStealth]
  cases hhave : s.haveKey (pubKeys.getID payment.cpkE) with
  | true => exact h
  | false =>
    rw [if_neg Bool.false_ne_true]
    cases hlocked : s.isLocked with
    | true =>
      rw [if_pos rfl]
      rcases h with h | h
      · rw [isLocked_of_plain h.isCrypted] at hlocked
        exact nomatch hlocked
      · have hnone : s.mapCryptedKeys.find? (pubKeys.getID payment.cpkE) = none := by
          rw [haveKey, h.isCrypted, Bool.not_true, if_neg Bool.false_ne_true] at hhave
          exact Option.isSome_eq_false_iff.mp hhave |> Option.isNone_iff_eq_none.mp
        rw [addCryptedKey_of_crypted h.isCrypted]
        exact Or.inr (h.addLocked hnone (hsafe hlocked hhave))
    | false =>
      rw [if_neg Bool.false_ne_true]
      cases spendKey payment.skMeta with
      | none => exact h
      | some ckey => exact h.addKeyPubKey hM ckey

theorem CryptedInv.expandLoop (hM : masterKey.length = walletCryptoKeySize)
    (entries : List (K × CPubKey × List UInt8)) (h : s.CryptedInv crypter pubKeys masterKey)
    (hkey : s.vMasterKey = masterKey) :
    (expandLoop crypter pubKeys spendKey entries s).CryptedInv crypter pubKeys masterKey ∧
      (expandLoop crypter pubKeys spendKey entries s).vMasterKey = masterKey := by
  induction entries generalizing s with
  | nil => exact ⟨h, hkey⟩
  | cons e entries ih =>
    obtain ⟨address, pubKey, vchCryptedSecret⟩ := e
    rw [CCryptoKeyStore.expandLoop]
    by_cases hsecret : vchCryptedSecret.length ≠ 0
    · rw [if_pos hsecret]
      exact ih h hkey
    · rw [if_neg hsecret]
      cases (s.mapStealthKeyMeta.find? (pubKeys.getID pubKey)).bind spendKey with
      | none => exact ih h hkey
      | some ckey =>
        by_cases hpub : pubKeys.getPubKey ckey ≠ pubKey
        · simp only [if_pos hpub]
          exact ih h hkey
        · simp only [if_neg hpub]
          obtain ⟨hadd, hsame⟩ := h.addKeyPubKey hM ckey
          exact ih hadd (hsame.trans hkey)

theorem CryptedInv.walletUnlock_master (h : s.CryptedInv crypter pubKeys masterKey)
    (hM : masterKey.length = walletCryptoKeySize) (fWalletUnlockStakingOnly : Bool) :
    (s.walletUnlock crypter pubKeys spendKey fWalletUnlockStakingOnly masterKey).1 = true ∧
      (s.walletUnlock crypter pubKeys spendKey fWalletUnlockStakingOnly masterKey).2.CryptedInv crypter pubKeys
        masterKey ∧
      (s.walletUnlock crypter pubKeys spendKey fWalletUnlockStakingOnly masterKey).2.vMasterKey = masterKey := by
  rw [walletUnlock]
  by_cases hearly : (!s.isLocked && !fWalletUnlockStakingOnly) = true
  · rw [if_pos hearly]
    have hunlocked : s.isLocked = false := by
      rw [Bool.and_eq_true, Bool.not_eq_true'] at hearly
      exact hearly.1
    exact ⟨rfl, h, h.vMasterKey_eq hunlocked⟩
  · rw [if_neg hearly, h.unlock_master]
    exact ⟨rfl, h.unlocked.expandLoop hM _ rfl⟩

theorem CryptedInv.walletUnlock_other (h : s.CryptedInv crypter pubKeys masterKey) (hother : vMasterKey ≠ masterKey)
    (hkey : s.mapCryptedKeys.entries ≠ []) (hlate : s.isLocked = true ∨ fWalletUnlockStakingOnly = true) :
    s.walletUnlock crypter pubKeys spendKey fWalletUnlockStakingOnly vMasterKey = (false, s) := by
  have hearly : ¬(!s.isLocked && !fWalletUnlockStakingOnly) = true := by
    rcases hlate with hlate | hlate
    · rw [hlate]
      exact Bool.false_ne_true
    · rw [hlate, Bool.not_true, Bool.and_false]
      exact Bool.false_ne_true
  rw [walletUnlock, if_neg hearly, h.unlock_other hother hkey]

theorem Inv.unlock (h : s.Inv crypter pubKeys masterKey) (hsafe : s.HasKey ∨ vMasterKeyIn = masterKey) :
    (s.unlock crypter pubKeys vMasterKeyIn).2.Inv crypter pubKeys masterKey := by
  rcases h with h | h
  · by_cases hempty : s.mapKeys.entries = []
    · have hkey : vMasterKeyIn = masterKey := hsafe.resolve_left fun hhas => h.hasKey_iff.mp hhas hempty
      have hbegin : s.mapCryptedKeys.begin? = none := OrderedMap.begin?_eq_none_iff.mpr h.mapCryptedKeys
      rw [CCryptoKeyStore.unlock, h.setCrypted, if_pos hempty, hkey]
      simp only [hbegin]
      exact Or.inr (h.crypted hempty)
    · rw [CCryptoKeyStore.unlock, h.setCrypted, if_neg hempty]
      exact Or.inl h
  · by_cases hkey : vMasterKeyIn = masterKey
    · rw [hkey, h.unlock_master]
      exact Or.inr h.unlocked
    · rw [h.unlock_other hkey (h.hasKey_iff.mp (hsafe.resolve_right hkey))]
      exact Or.inr h

theorem Inv.walletUnlock (h : s.Inv crypter pubKeys masterKey) (hM : masterKey.length = walletCryptoKeySize)
    (hsafe : s.isLocked = true ∨ fWalletUnlockStakingOnly = true → s.HasKey ∨ vMasterKey = masterKey) :
    (s.walletUnlock crypter pubKeys spendKey fWalletUnlockStakingOnly vMasterKey).2.Inv crypter pubKeys
      masterKey := by
  by_cases hlate : s.isLocked = true ∨ fWalletUnlockStakingOnly = true
  · rcases h with h | h
    · have hlocked := isLocked_of_plain h.isCrypted
      have hstaking : fWalletUnlockStakingOnly = true := by
        rcases hlate with hlate | hlate
        · exact absurd (hlocked.symm.trans hlate) Bool.false_ne_true
        · exact hlate
      rw [CCryptoKeyStore.walletUnlock, hlocked, hstaking, Bool.not_true, Bool.and_false, if_neg Bool.false_ne_true]
      by_cases hempty : s.mapKeys.entries = []
      · have hkey : vMasterKey = masterKey := (hsafe hlate).resolve_left fun hhas => h.hasKey_iff.mp hhas hempty
        have hbegin : s.mapCryptedKeys.begin? = none := OrderedMap.begin?_eq_none_iff.mpr h.mapCryptedKeys
        rw [CCryptoKeyStore.unlock, h.setCrypted, if_pos hempty, hkey]
        simp only [hbegin]
        exact Or.inr ((h.crypted hempty).expandLoop hM _ rfl).1
      · rw [CCryptoKeyStore.unlock, h.setCrypted, if_neg hempty]
        exact Or.inl h
    · by_cases hkey : vMasterKey = masterKey
      · rw [hkey]
        exact Or.inr (h.walletUnlock_master hM _).2.1
      · rw [h.walletUnlock_other hkey (h.hasKey_iff.mp ((hsafe hlate).resolve_right hkey)) hlate]
        exact Or.inr h
  · have hearly : (!s.isLocked && !fWalletUnlockStakingOnly) = true := by
      rw [not_or, Bool.not_eq_true, Bool.not_eq_true] at hlate
      rw [hlate.1, hlate.2]
      rfl
    rw [CCryptoKeyStore.walletUnlock, if_pos hearly]
    exact h

theorem Inv.lockKeyStore (h : s.Inv crypter pubKeys masterKey) (hkey : s.HasKey) :
    s.lockKeyStore.2.Inv crypter pubKeys masterKey := by
  rcases h with h | h
  · exact Or.inl (h.lockKeyStore hkey)
  · exact Or.inr (h.lockKeyStore hkey)

theorem Inv.step (h : s.Inv crypter pubKeys masterKey) (hM : masterKey.length = walletCryptoKeySize) {op : KeyStoreOp}
    (hsafe : KeyStoreSafe crypter pubKeys masterKey s op) :
    (keyStoreStep crypter pubKeys spendKey masterKey s op).Inv crypter pubKeys masterKey := by
  cases op with
  | addKeyPubKey key pubkey =>
    have hpub : pubkey = pubKeys.getPubKey key := hsafe
    rw [hpub]
    exact h.addKeyPubKey hM key
  | addCryptedKey vchPubKey vchCryptedSecret =>
    obtain ⟨key, rfl, hencrypt⟩ := hsafe
    exact h.addCryptedKey hencrypt
  | encryptKeys vMasterKeyIn =>
    rcases h with h | h
    · obtain ⟨hkey, hhas⟩ := hsafe h.isCrypted
      rw [hkey]
      exact Or.inr (h.encryptKeys hM hhas)
    · have hrun : s.encryptKeys crypter pubKeys vMasterKeyIn = (false, s) := by
        rw [encryptKeys, h.isCrypted, Bool.or_true, if_pos rfl]
      rw [keyStoreStep, hrun]
      exact Or.inr h
  | lockKeyStore => exact h.lockKeyStore hsafe
  | walletLock =>
    rw [keyStoreStep, walletLock]
    cases hlocked : s.isLocked with
    | true => exact h
    | false => exact h.lockKeyStore (hsafe hlocked)
  | unlock vMasterKeyIn => exact h.unlock hsafe
  | walletUnlock fWalletUnlockStakingOnly vMasterKey => exact h.walletUnlock hM hsafe
  | receiveStealth payment => exact h.receiveStealth hM hsafe

theorem CryptedInv.unlockable (h : s.CryptedInv crypter pubKeys masterKey)
    (hM : masterKey.length = walletCryptoKeySize) : s.Unlockable crypter pubKeys spendKey masterKey where
  unlock_master := by
    rw [h.unlock_master]
    exact ⟨rfl, h.unlocked.open hM rfl⟩
  unlock_other := fun vMasterKeyIn hother hlocked => by
    rw [h.unlock_other hother (h.entries_ne_nil hM hlocked)]
    exact ⟨rfl, hlocked⟩
  walletUnlock_master := fun fWalletUnlockStakingOnly => by
    obtain ⟨htrue, hinv, hkey⟩ := h.walletUnlock_master hM fWalletUnlockStakingOnly
    exact ⟨htrue, hinv.open hM hkey⟩
  walletUnlock_other := fun fWalletUnlockStakingOnly vMasterKey hother hlocked => by
    rw [h.walletUnlock_other hother (h.entries_ne_nil hM hlocked) (Or.inl hlocked)]
    exact ⟨rfl, hlocked⟩
  no_plain := h.mapKeys

end CCryptoKeyStore

section Runs

variable {K : Type} [LinearOrder K] {crypter : SecretCrypter} {pubKeys : PubKeys K}
  {spendKey : CStealthKeyMetadata → Option CKey} {masterKey : CKeyingMaterial} {s : CCryptoKeyStore K}

theorem SafeKeyStoreRun.inv (h : SafeKeyStoreRun crypter pubKeys spendKey masterKey s)
    (hM : masterKey.length = walletCryptoKeySize) : s.Inv crypter pubKeys masterKey := by
  induction h with
  | start => exact Or.inl CCryptoKeyStore.plainInv_initial
  | step op hrun hsafe ih => exact ih.step hM hsafe

/-- In every run of safe operations an encrypted store opens with its master key alone. -/
theorem keyStore_unlockable (hM : masterKey.length = walletCryptoKeySize)
    (h : SafeKeyStoreRun crypter pubKeys spendKey masterKey s) (hcrypted : s.isCrypted = true) :
    s.Unlockable crypter pubKeys spendKey masterKey := by
  rcases h.inv hM with hplain | hinv
  · exact absurd (hplain.isCrypted.symm.trans hcrypted) Bool.false_ne_true
  · exact hinv.unlockable hM

end Runs

namespace Sample

def prefixCrypter : SecretCrypter where
  encryptSecret vMasterKey vchPlaintext _ :=
    if vMasterKey.length = walletCryptoKeySize then some (vMasterKey ++ vchPlaintext) else none
  decryptSecret vMasterKey vchCiphertext _ :=
    if vMasterKey.length = walletCryptoKeySize ∧ vchCiphertext.take walletCryptoKeySize = vMasterKey then
      some (vchCiphertext.drop walletCryptoKeySize)
    else none
  encrypts := fun vMasterKey vchPlaintext _ h => ⟨vMasterKey ++ vchPlaintext, if_pos h⟩
  decrypts := fun vMasterKey vchPlaintext _ vchCiphertext h => by
    by_cases hM : vMasterKey.length = walletCryptoKeySize
    · rw [if_pos hM] at h
      rw [← Option.some.inj h, ← hM, if_pos ⟨rfl, List.take_left⟩, List.drop_left]
    · rw [if_neg hM] at h
      exact nomatch h
  rightKey := fun vMasterKey vchPlaintext _ vchCiphertext h vOtherKey hother => by
    by_cases hM : vMasterKey.length = walletCryptoKeySize
    · rw [if_pos hM] at h
      refine if_neg fun hright => hother ?_
      rw [← hright.2, ← Option.some.inj h, ← hM, List.take_left]
    · rw [if_neg hM] at h
      exact nomatch h
  decrypts_nil := fun vMasterKey _ => by
    refine if_neg fun hright => ?_
    rw [List.take_nil] at hright
    rw [← hright.2] at hright
    exact nomatch hright.1

def plainPubKeys : PubKeys Nat where
  getPubKey key := (if key.fCompressed then 1 else 0) :: key.vch
  isCompressed pubkey := pubkey.head? == some 1
  getID pubkey := (pubkey.map UInt8.toNat).sum
  getHash _ := 0
  isCompressed_getPubKey := fun key => by
    cases hcompressed : key.fCompressed with
    | true => simp
    | false => simp

def keyOf (b : UInt8) : CKey := ⟨List.replicate 32 b, true, List.length_replicate⟩

def storeMasterKey : CKeyingMaterial := List.replicate 32 9

def paymentTo (b : UInt8) : StealthPayment := ⟨plainPubKeys.getPubKey (keyOf b), ⟨[], []⟩⟩

def runKeyStore (ops : List KeyStoreOp) : CCryptoKeyStore Nat :=
  ops.foldl (keyStoreStep prefixCrypter plainPubKeys (fun _ => none) storeMasterKey) .initial

def encryptOne (b : UInt8) : List KeyStoreOp :=
  [.addKeyPubKey (keyOf b) (plainPubKeys.getPubKey (keyOf b)), .encryptKeys storeMasterKey]

theorem safe_encryptOne (b : UInt8) : SafeKeyStoreRun prefixCrypter plainPubKeys (fun _ => none) storeMasterKey
    (runKeyStore (encryptOne b)) := by
  have hadd : SafeKeyStoreRun prefixCrypter plainPubKeys (fun _ => none) storeMasterKey
      (runKeyStore [.addKeyPubKey (keyOf b) (plainPubKeys.getPubKey (keyOf b))]) :=
    .step (.addKeyPubKey (keyOf b) (plainPubKeys.getPubKey (keyOf b))) .start
      (rfl : plainPubKeys.getPubKey (keyOf b) = plainPubKeys.getPubKey (keyOf b))
  exact .step (.encryptKeys storeMasterKey) hadd fun _ => ⟨rfl, Or.inl (List.cons_ne_nil _ _)⟩

theorem keyStore_unlockable_locked : (runKeyStore (encryptOne 3 ++ [.receiveStealth (paymentTo 5)])).Unlockable
    prefixCrypter plainPubKeys (fun _ => none) storeMasterKey := by
  have hless : ∃ e ∈ (runKeyStore (encryptOne 3)).mapCryptedKeys.entries,
      e.1 < plainPubKeys.getID (paymentTo 5).cpkE := ⟨_, List.mem_cons_self, by decide⟩
  exact keyStore_unlockable rfl (.step (.receiveStealth (paymentTo 5)) (safe_encryptOne 3) fun _ _ => hless) rfl

/-- A payment arrives at a locked store, to a key in front of the one that the store has; the master key, which would
have opened the store before, does not open it any more. -/
theorem lockedStealth_shuts :
    ((runKeyStore (encryptOne 5)).unlock prefixCrypter plainPubKeys storeMasterKey).1 = true ∧
    (runKeyStore (encryptOne 5)).isLocked = true ∧
    (runKeyStore (encryptOne 5 ++ [.receiveStealth (paymentTo 3)])).isCrypted = true ∧
    ((runKeyStore (encryptOne 5 ++ [.receiveStealth (paymentTo 3)])).unlock prefixCrypter plainPubKeys
      storeMasterKey).1 = false := ⟨rfl, rfl, rfl, rfl⟩

end Sample

end PupaCoin
