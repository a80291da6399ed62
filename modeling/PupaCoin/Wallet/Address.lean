import PupaCoin.Script.Destination

/-!
# Addresses and secrets as strings (`base58.cpp`, `chainparams.cpp`)

The string of an address is its version and its data with a checksum, in base 58. The versions are looked up by the
type of what is encoded; a reader takes the first byte for the version.
-/

namespace PupaCoin

open Smsg (CBase58Data CKeyID keyIDBytes keyIDOfBytes pubkeyAddressPrefix scriptAddressPrefix)

section Check

variable (hashBmw512 : List UInt8 → Vector UInt8 32)

def base58Checksum (vch : List UInt8) : List UInt8 := (hashBmw512 vch).toList.take 4

def encodeBase58Check (vchIn : List UInt8) : Option (List Char) :=
  encodeBase58 (vchIn ++ base58Checksum hashBmw512 vchIn)

def decodeBase58Check (psz : List Char) : Option (List UInt8) := do
  let vchRet ← decodeBase58 psz
  if vchRet.length < 4 then none
  else
    let vch := vchRet.take (vchRet.length - 4)
    if base58Checksum hashBmw512 vch ≠ vchRet.drop (vchRet.length - 4) then none else return vch

namespace CBase58Data

/-- `SetString`: what it returns and leaves. -/
def setString (psz : List Char) (nVersionBytes : Nat) : Bool × CBase58Data :=
  match decodeBase58Check hashBmw512 psz with
  | none => (false, ⟨[], []⟩)
  | some vchTemp =>
    if vchTemp.length < nVersionBytes then (false, ⟨[], []⟩)
    else (true, ⟨vchTemp.take nVersionBytes, vchTemp.drop nVersionBytes⟩)

def toString (data : CBase58Data) : Option (List Char) :=
  encodeBase58Check hashBmw512 (data.vchVersion ++ data.vchData)

end CBase58Data

end Check

inductive Base58Type where
  | pubkeyAddress
  | scriptAddress
  | secretKey
  | stealthAddress
  | extPublicKey
  | extSecretKey
deriving DecidableEq

/-- `Base58Prefix` of the main network, or of the test network and the regression tests. -/
def base58Prefix (testNet : Bool) : Base58Type → List UInt8
  | .pubkeyAddress => pubkeyAddressPrefix testNet
  | .scriptAddress => scriptAddressPrefix testNet
  | .secretKey => [if testNet then 68 else 56]
  | .stealthAddress => [if testNet then 23 else 64]
  | .extPublicKey => if testNet then [0x04, 0x35, 0x87, 0xcf] else [0x04, 0x88, 0xb2, 0x1e]
  | .extSecretKey => if testNet then [0x04, 0x35, 0x83, 0x94] else [0x04, 0x88, 0xad, 0xe4]

/-- The types that an address class looks its versions up by. -/
structure AddressClass where
  pubkeyAddress : Base58Type
  scriptAddress : Base58Type

def cPupaCoinAddress : AddressClass := ⟨.pubkeyAddress, .scriptAddress⟩

def cBitcoinAddress : AddressClass := ⟨.ofNat 0, .ofNat 5⟩

namespace AddressClass

variable (cls : AddressClass) (testNet : Bool)

/-- `Set`; `none` where it returns false. -/
def set : CTxDestination → Option CBase58Data
  | .keyID id => some ⟨base58Prefix testNet cls.pubkeyAddress, keyIDBytes id⟩
  | .scriptID id => some ⟨base58Prefix testNet cls.scriptAddress, keyIDBytes id⟩
  | .none | .stealth _ => none

def isValid (address : CBase58Data) : Bool :=
  address.vchData.length == 20 && (address.vchVersion == base58Prefix testNet cls.pubkeyAddress ||
    address.vchVersion == base58Prefix testNet cls.scriptAddress)

def get (address : CBase58Data) : CTxDestination :=
  if !cls.isValid testNet address then .none
  else if address.vchVersion = base58Prefix testNet cls.pubkeyAddress then .keyID (keyIDOfBytes (address.vchData.take 20))
  else if address.vchVersion = base58Prefix testNet cls.scriptAddress then
    .scriptID (keyIDOfBytes (address.vchData.take 20))
  else .none

end AddressClass

namespace CPupaCoinSecret

def setKey (testNet : Bool) (vchSecret : CKey) : CBase58Data :=
  ⟨base58Prefix testNet .secretKey, vchSecret.vch ++ if vchSecret.fCompressed then [1] else []⟩

/-- `GetKey`; `check` is `CKey::Check`, and `none` a key that is not valid. -/
def getKey (check : List UInt8 → Bool) (secret : CBase58Data) : Option CKey :=
  if check (secret.vchData.take 32) then
    CKey.set (secret.vchData.take 32) (decide (secret.vchData.length > 32) && secret.vchData[32]? == some 1)
  else none

def isValid (testNet : Bool) (secret : CBase58Data) : Bool :=
  (secret.vchData.length == 32 || (secret.vchData.length == 33 && secret.vchData[32]? == some 1)) &&
    secret.vchVersion == base58Prefix testNet .secretKey

/-- `SetString`: what it returns and leaves. -/
def setString (hashBmw512 : List UInt8 → Vector UInt8 32) (testNet : Bool) (pszSecret : List Char) :
    Bool × CBase58Data :=
  let (ok, secret) := CBase58Data.setString hashBmw512 pszSecret 1
  (ok && isValid testNet secret, secret)

end CPupaCoinSecret

section Promises

variable (hashBmw512 : List UInt8 → Vector UInt8 32) (testNet : Bool)

/-- A destination comes back from the string of its address. -/
def AddressClass.Keeps (cls : AddressClass) (dest : CTxDestination) : Prop :=
  ∃ address str, cls.set testNet dest = some address ∧ CBase58Data.toString hashBmw512 address = some str ∧
    cls.isValid testNet (CBase58Data.setString hashBmw512 str 1).2 = true ∧
    cls.get testNet (CBase58Data.setString hashBmw512 str 1).2 = dest

def AddressClass.Accepts (cls : AddressClass) (str : List Char) : Prop :=
  cls.isValid testNet (CBase58Data.setString hashBmw512 str 1).2 = true

def AddressClass.stringOf (cls : AddressClass) (dest : CTxDestination) : Option (List Char) :=
  (cls.set testNet dest).bind (CBase58Data.toString hashBmw512)

/-- The secret comes back from its string. -/
def KeepsSecret (check : List UInt8 → Bool) (key : CKey) : Prop :=
  ∃ str, CBase58Data.toString hashBmw512 (CPupaCoinSecret.setKey testNet key) = some str ∧
    (CPupaCoinSecret.setString hashBmw512 testNet str).1 = true ∧
    CPupaCoinSecret.getKey check (CPupaCoinSecret.setString hashBmw512 testNet str).2 = some key

end Promises

end PupaCoin
