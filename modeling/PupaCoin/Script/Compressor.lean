import PupaCoin.Smsg.Crypt

/-!
# Compressed scripts (`CScriptCompressor`, `serialize.h`)

A script that pays to a key hash, to a script hash or to a key is stored as its hash or the x coordinate of its key,
behind one of six codes. Every other script is stored as it is, behind its size plus six.
-/

namespace PupaCoin

open Codec
open Smsg (CKeyID keyIDBytes keyIDOfBytes pubKeyOfBytes)

theorem toNat_nextDigits {n : UInt32} (h : ¬n ≤ 0x7f) : ((n >>> 7) - 1).toNat = n.toNat / 128 - 1 := by
  have hn : 0x7f < n.toNat := Nat.not_le.mp fun hle => h (UInt32.le_iff_toNat_le.mpr hle)
  have hshift : (n >>> 7).toNat = n.toNat / 128 := by
    rw [UInt32.toNat_shiftRight]
    exact Nat.shiftRight_eq_div_pow _ 7
  have hle : (1 : UInt32) ≤ n >>> 7 := by
    refine UInt32.le_iff_toNat_le.mpr ?_
    rw [hshift]
    show 1 ≤ n.toNat / 128
    omega
  rw [UInt32.toNat_sub_of_le _ _ hle, hshift]
  rfl

/-- What the loop of `WriteVarInt` puts in `tmp`; `len` counts the bytes before. -/
def varIntTmp (n : UInt32) (len : Nat) : List UInt8 :=
  let byte := (n &&& 0x7f).toUInt8 ||| (if len ≠ 0 then 0x80 else 0x00)
  if n ≤ 0x7f then [byte] else byte :: varIntTmp ((n >>> 7) - 1) (len + 1)
termination_by n.toNat
decreasing_by
  rename_i hlarge
  have hn : 0x7f < n.toNat := Nat.not_le.mp fun hle => hlarge (UInt32.le_iff_toNat_le.mpr hle)
  rw [toNat_nextDigits hlarge]
  omega

def writeVarInt (n : UInt32) : List UInt8 := (varIntTmp n 0).reverse

/-- The loop of `ReadVarInt`, from what it has read so far. -/
def readVarIntFrom (n : UInt32) : ReadM UInt32
  | [] => (.error "CDataStream::read() : end of data", [])
  | chData :: s =>
    let n := n <<< 7 ||| (chData &&& 0x7f).toUInt32
    if chData &&& 0x80 ≠ 0 then readVarIntFrom (n + 1) s else (.ok n, s)

def readVarInt : ReadM UInt32 := readVarIntFrom 0

namespace CScriptCompressor

def nSpecialScripts : UInt32 := 6

def isToKeyID (script : CScript) : Option CKeyID :=
  if script.length = 25 ∧ script[0]? = some 0x76 ∧ script[1]? = some 0xa9 ∧ script[2]? = some 20
      ∧ script[23]? = some 0x88 ∧ script[24]? = some 0xac then
    some (keyIDOfBytes ((script.drop 3).take 20))
  else none

def isToScriptID (script : CScript) : Option CKeyID :=
  if script.length = 23 ∧ script[0]? = some 0xa9 ∧ script[1]? = some 20 ∧ script[22]? = some 0x87 then
    some (keyIDOfBytes ((script.drop 2).take 20))
  else none

section PubKey

-- `CPubKey::IsFullyValid`, and `CPubKey::Decompress`: the key as a point, `none` where it returns `false`.
variable (isFullyValid : CPubKey → Bool) (decompressKey : CPubKey → Option CPubKey)

def isToPubKey (script : CScript) : Option CPubKey :=
  if script.length = 35 ∧ script[0]? = some 33 ∧ script[34]? = some 0xac
      ∧ (script[1]? = some 0x02 ∨ script[1]? = some 0x03) then
    some (pubKeyOfBytes ((script.drop 1).take 33))
  else if script.length = 67 ∧ script[0]? = some 65 ∧ script[66]? = some 0xac ∧ script[1]? = some 0x04 then
    let pubkey := pubKeyOfBytes ((script.drop 1).take 65)
    if isFullyValid pubkey then some pubkey else none
  else none

def compress (script : CScript) : Option (List UInt8) :=
  match isToKeyID script with
  | some keyID => some (0x00 :: keyIDBytes keyID)
  | none =>
    match isToScriptID script with
    | some scriptID => some (0x01 :: keyIDBytes scriptID)
    | none =>
      match isToPubKey isFullyValid script with
      | some pubkey =>
        let x := (pubkey.drop 1).take 32
        if pubkey[0]? = some 0x02 ∨ pubkey[0]? = some 0x03 then some (pubkey.headD 0 :: x)
        else if pubkey[0]? = some 0x04 then some ((0x04 ||| (pubkey.getD 64 0 &&& 0x01)) :: x)
        else none
      | none => none

def getSpecialSize (nSize : UInt32) : Nat :=
  if nSize = 0 ∨ nSize = 1 then 20
  else if nSize = 2 ∨ nSize = 3 ∨ nSize = 4 ∨ nSize = 5 then 32
  else 0

/-- `Decompress`: what it returns and the script that it leaves; `none` where its assertion fails. -/
def decompress (nSize : UInt32) (vch : List UInt8) (script : CScript) : Option (Bool × CScript) :=
  if nSize = 0x00 then some (true, [0x76, 0xa9, 20] ++ vch.take 20 ++ [0x88, 0xac])
  else if nSize = 0x01 then some (true, [0xa9, 20] ++ vch.take 20 ++ [0x87])
  else if nSize = 0x02 ∨ nSize = 0x03 then some (true, [33, nSize.toUInt8] ++ vch.take 32 ++ [0xac])
  else if nSize = 0x04 ∨ nSize = 0x05 then
    match decompressKey (pubKeyOfBytes ((nSize - 2).toUInt8 :: vch.take 32)) with
    | none => some (false, script)
    | some pubkey => if pubkey.length = 65 then some (true, [65] ++ pubkey ++ [0xac]) else none
  else some (false, script)

def serialize (script : CScript) : List UInt8 :=
  match compress isFullyValid script with
  | some compr => compr
  | none =>
    let nSize := UInt32.ofNat script.length + nSpecialScripts
    writeVarInt nSize ++ script

/-- `Unserialize`, into the script that is there. -/
def unserialize (script : CScript) : ReadM CScript := do
  let nSize ← readVarInt
  if nSize < nSpecialScripts then
    let vch ← readData (getSpecialSize nSize)
    match decompress decompressKey nSize vch script with
    | some (_, script) => return script
    | none => Exec.stop "Assertion failed: pubkey.size() == 65"
  else readData (nSize - nSpecialScripts).toNat

end PubKey

/-- A key on the curve is found again by its x coordinate and whether the last byte of y is odd. -/
def DecompressesValid (isFullyValid : CPubKey → Bool) (decompressKey : CPubKey → Option CPubKey) : Prop :=
  ∀ pubkey : CPubKey, pubkey.length = 65 → pubkey[0]? = some 4 → isFullyValid pubkey = true →
    decompressKey ((2 ||| (pubkey.getD 64 0 &&& 1)) :: (pubkey.drop 1).take 32) = some pubkey

end CScriptCompressor

end PupaCoin
