import PupaCoin.Lib.LittleEndian
import PupaCoin.Lib.Memory
import PupaCoin.Script.Script
import PupaCoin.Wallet.Stealth

/-!
# The strings of stealth addresses (`base58.cpp`, `stealth.cpp`)

A stealth address is a byte string with a version, the two keys and a checksum, in base 58. `SetEncoded` and
`IsStealthAddress` read it each with checks of its own. A string is the list of its characters.
-/

namespace PupaCoin

def pszBase58 : List Char :=
  ['1', '2', '3', '4', '5', '6', '7', '8', '9', 'A', 'B', 'C', 'D', 'E', 'F', 'G', 'H', 'J', 'K', 'L', 'M', 'N', 'P',
    'Q', 'R', 'S', 'T', 'U', 'V', 'W', 'X', 'Y', 'Z', 'a', 'b', 'c', 'd', 'e', 'f', 'g', 'h', 'i', 'j', 'k', 'm', 'n',
    'o', 'p', 'q', 'r', 's', 't', 'u', 'v', 'w', 'x', 'y', 'z']

def isSpace (c : Char) : Bool := c == ' ' || (9 ≤ c.toNat && c.toNat ≤ 13)

/-- `EncodeBase58`; `none` where an assertion fails. The digits in the order of the reverse iterators. -/
def encodeBase58 (vch : List UInt8) : Option (List Char) := do
  let zeroes := (vch.takeWhile (· == 0)).length
  let bytes := vch.dropWhile (· == 0)
  let b58 ← Radix.convert 58 256 (List.replicate (bytes.length * 138 / 100 + 1) 0) (bytes.map UInt8.toNat)
  let digits := b58.reverse.dropWhile (· == 0)
  return List.replicate zeroes '1' ++ digits.map fun d => pszBase58.getD d '1'

/-- The loop of `DecodeBase58` over the digits; only spaces may follow them. -/
def base58Number : List Char → Nat → Option Nat
  | [], bn => some bn
  | c :: p, bn =>
    match pszBase58.idxOf? c with
    | some bnChar => base58Number p (bn * 58 + bnChar)
    | none => if (c :: p).dropWhile isSpace = [] then some bn else none

/-- `DecodeBase58` takes the string up to its first null character. -/
def decodeBase58 (str : List Char) : Option (List UInt8) := do
  let psz := str.takeWhile (· != Char.ofNat 0)
  let psz := psz.dropWhile isSpace
  let psz := psz.dropWhile (· == '1')
  let bn ← base58Number psz 0
  let vchTmp := getvch bn
  let vchTmp :=
    if vchTmp.length ≥ 2 ∧ vchTmp.getLastD 0 = 0 ∧ vchTmp.dropLast.getLastD 0 ≥ 0x80 then vchTmp.dropLast else vchTmp
  -- the leading zeros have been skipped already
  let nLeadingZeros := (psz.takeWhile (· == '1')).length
  return List.replicate nLeadingZeros 0 ++ vchTmp.reverse

open Memory

section Checksum

variable (sha256 : List UInt8 → EcSecret)

def pupaCoinChecksum (p : List UInt8) : Nat :=
  if p = [] then 0 else LittleEndian.toNat ((sha256 (sha256 p).e).e.take 4)

def appendChecksum (data : List UInt8) : List UInt8 :=
  data ++ LittleEndian.ofNat 4 (pupaCoinChecksum sha256 data)

def verifyChecksum (data : List UInt8) : Except Fault Bool :=
  if data.length < 4 then return false
  else do
    let checksum ← slice data (data.length - 4) 4
    let p ← slice data 0 (data.length - 4)
    return pupaCoinChecksum sha256 p == LittleEndian.toNat checksum

def stealthVersionByte : UInt8 := 0x28

/-- What the string of a `CStealthAddress` has of it. -/
structure EncodedAddress where
  options : UInt8
  scanPubkey : EcPoint
  spendPubkey : EcPoint
deriving DecidableEq, Repr

/-- The bytes that `Encoded` appends the checksum to. -/
def EncodedAddress.raw (addr : EncodedAddress) : List UInt8 :=
  stealthVersionByte :: addr.options :: (addr.scanPubkey ++ 1 :: (addr.spendPubkey ++ [0, 0]))

def EncodedAddress.encoded (addr : EncodedAddress) : Option (List Char) :=
  encodeBase58 (appendChecksum sha256 addr.raw)

/-- `CStealthAddress::SetEncoded`: what it returns and leaves in the address. -/
def EncodedAddress.setEncoded (addr : EncodedAddress) (encodedAddress : List Char) :
    Except Fault (Bool × EncodedAddress) :=
  match decodeBase58 encodedAddress with
  | none => return (false, addr)
  | some raw => do
    let ok ← verifyChecksum sha256 raw
    if !ok then return (false, addr)
    else if raw.length < 1 + 1 + 33 + 1 + 33 + 1 + 1 + 4 then return (false, addr)
    else
      let version ← read raw 0
      if version ≠ stealthVersionByte then return (false, addr)
      else
        let options ← read raw 1
        let scanPubkey ← slice raw 2 33
        -- the number of spend keys is passed over
        let spendPubkey ← slice raw (2 + 33 + 1) 33
        return (true, { options, scanPubkey, spendPubkey })

def isStealthAddress (encodedAddress : List Char) : Except Fault Bool :=
  match decodeBase58 encodedAddress with
  | none => return false
  | some raw => do
    let ok ← verifyChecksum sha256 raw
    if !ok then return false
    else if raw.length < 1 + 1 + 33 + 1 + 33 + 1 + 1 + 4 then return false
    else
      let version ← read raw 0
      if version ≠ stealthVersionByte then return false
      else return true

end Checksum

end PupaCoin
