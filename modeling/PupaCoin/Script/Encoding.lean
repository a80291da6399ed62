import PupaCoin.Lib.Memory

/-!
# Encodings of keys and signatures (`script.cpp`)

The tests that a signature is canonical: a DER sequence of two positive numbers without padding, and a hash
type that is defined; and that a key is a compressed or an uncompressed one.
-/

namespace PupaCoin

/-- The part of a DER signature for one number: its first byte in front of it, its length and its
    bytes. -/
def isDERNumber (type : UInt8) (nLen : Nat) (number : List UInt8) : Bool :=
  type == 0x02 && nLen != 0 && number.getD 0 0 < 0x80
    && !(decide (nLen > 1) && number.getD 0 0 == 0 && decide (number.getD 1 0 < 0x80))

def isDERSignature (vchSig : List UInt8) (haveHashType : Bool) : Bool :=
  let nLenR := (vchSig.getD 3 0).toNat
  let nLenS := (vchSig.getD (5 + nLenR) 0).toNat
  decide (9 ≤ vchSig.length) && decide (vchSig.length ≤ 73) && vchSig.getD 0 0 == 0x30
    && decide ((vchSig.getD 1 0).toNat = vchSig.length - if haveHashType then 3 else 2)
    && decide (5 + nLenR < vchSig.length)
    && decide ((nLenR + nLenS + if haveHashType then 7 else 6) = vchSig.length)
    && isDERNumber (vchSig.getD 2 0) nLenR (vchSig.drop 4)
    && isDERNumber (vchSig.getD (4 + nLenR) 0) nLenS (vchSig.drop (6 + nLenR))

open Memory in
/-- The checks of the number at `&vchSig[pos]`, in memory. -/
def readDERNumber (vchSig : List UInt8) (pos nLen : Nat) : Except Fault Bool := do
  if (← read vchSig (pos - 2)) ≠ 0x02 then return false
  if nLen = 0 then return false
  let first ← read vchSig pos
  if first ≥ 0x80 then return false
  if nLen > 1 ∧ first = 0x00 then
    let second ← read vchSig (pos + 1)
    return decide (second ≥ 0x80)
  return true

open Memory in
/-- `IsDERSignature` in memory. -/
def readDERSignature (vchSig : List UInt8) (haveHashType : Bool) : Except Fault Bool := do
  if vchSig.length < 9 then return false
  if vchSig.length > 73 then return false
  if (← read vchSig 0) ≠ 0x30 then return false
  if (← read vchSig 1).toNat ≠ vchSig.length - (if haveHashType then 3 else 2) then return false
  let nLenR := (← read vchSig 3).toNat
  if 5 + nLenR ≥ vchSig.length then return false
  let nLenS := (← read vchSig (5 + nLenR)).toNat
  if nLenR + nLenS + (if haveHashType then 7 else 6) ≠ vchSig.length then return false
  if !(← readDERNumber vchSig 4 nLenR) then return false
  readDERNumber vchSig (6 + nLenR) nLenS

/-- A number that is not empty, not negative, and has no leading zero but before a byte with the top bit. -/
def IsDERInteger (number : List UInt8) : Prop :=
  number ≠ [] ∧ number.getD 0 0 < 0x80 ∧ (1 < number.length → number.getD 0 0 = 0 → 0x80 ≤ number.getD 1 0)

/-- `0x30 len 0x02 lenR R 0x02 lenS S` with `tail` behind it, and consistent lengths. -/
def IsStrictDER (vchSig tail : List UInt8) : Prop :=
  ∃ (len lenR lenS : UInt8) (R S : List UInt8),
    vchSig = 0x30 :: len :: 0x02 :: lenR :: (R ++ 0x02 :: lenS :: (S ++ tail)) ∧
      len.toNat = R.length + S.length + 4 ∧ lenR.toNat = R.length ∧ lenS.toNat = S.length ∧
      IsDERInteger R ∧ IsDERInteger S

def isCompressedOrUncompressedPubKey (vchPubKey : List UInt8) : Bool :=
  if vchPubKey.length < 33 then false
  else if vchPubKey[0]? = some 0x04 then vchPubKey.length == 65
  else if vchPubKey[0]? = some 0x02 ∨ vchPubKey[0]? = some 0x03 then vchPubKey.length == 33
  else false

def isDefinedHashtypeSignature (vchSig : List UInt8) : Bool :=
  match vchSig.getLast? with
  | none => false
  | some b =>
    let nHashType := b &&& ~~~0x80
    decide (1 ≤ nHashType ∧ nHashType ≤ 3)

end PupaCoin
