import PupaCoin.Script.Solver
import PupaCoin.Smsg.Crypt
import PupaCoin.Wallet.StealthAddress

/-!
# Destinations of output scripts (`script.cpp`)

What the scripts are that `Solver` gives a type to, how a script is made of a destination or of a list of keys, and
how these are taken from a script.
-/

namespace PupaCoin

open Smsg (CKeyID keyIDBytes keyIDOfBytes pubKeyOfBytes)

namespace CScript

/-- The bytes in front of a push of `n` bytes: each of the four push opcodes that can announce so many. -/
def pushHeaders (n : Nat) : List (List UInt8) :=
  (if n < opPushData1 then [[UInt8.ofNat n]] else [])
    ++ (if n < 256 ^ 1 then [0x4c :: LittleEndian.ofNat 1 n] else [])
    ++ (if n < 256 ^ 2 then [0x4d :: LittleEndian.ofNat 2 n] else [])
    ++ (if n < 256 ^ 4 then [0x4e :: LittleEndian.ofNat 4 n] else [])

/-- An instruction that pushes `data`. -/
def IsPushOf (data instr : List UInt8) : Prop := ∃ header ∈ pushHeaders data.length, instr = header ++ data

def smallIntegerByte (n : Nat) : UInt8 := if n = 0 then 0 else UInt8.ofNat (op1 + n - 1)

/-- An output script of a type that `Solver` finds, with its solutions. -/
inductive IsInstance : TxnOutType → List (List UInt8) → CScript → Prop where
  | pubkey {key push : List UInt8} : 33 ≤ key.length → key.length ≤ 120 → IsPushOf key push →
      IsInstance .pubkey [key] (push ++ [0xac])
  | pubkeyhash {hash push : List UInt8} : hash.length = 20 → IsPushOf hash push →
      IsInstance .pubkeyhash [hash] (0x76 :: 0xa9 :: (push ++ [0x88, 0xac]))
  | scripthash {hash : List UInt8} : hash.length = 20 →
      IsInstance .scripthash [hash] (0xa9 :: 0x14 :: (hash ++ [0x87]))
  | multisig {m n : Nat} {keys pushes : List (List UInt8)} : 1 ≤ m → m ≤ n → n ≤ 16 → keys.length = n →
      (∀ key ∈ keys, 33 ≤ key.length ∧ key.length ≤ 120) → List.Forall₂ IsPushOf keys pushes →
      IsInstance .multisig ([UInt8.ofNat m] :: (keys ++ [[UInt8.ofNat n]]))
        (smallIntegerByte m :: (pushes.flatten ++ [smallIntegerByte n, 0xae]))
  | nullData : IsInstance .nullData [] [0x6a]
  | nullDataPush {data push : List UInt8} : data.length ≤ 40 → IsPushOf data push →
      IsInstance .nullData [] (0x6a :: push)
  | nullDataOpcode {b : UInt8} : opPushData4 < b.toNat → IsInstance .nullData [] [0x6a, b]

end CScript

inductive CTxDestination where
  | none
  | keyID (id : CKeyID)
  | scriptID (id : CKeyID)
  | stealth (addr : EncodedAddress)
deriving DecidableEq

section Destination

variable (getID : CPubKey → CKeyID)

def extractDestination (scriptPubKey : CScript) : Option CTxDestination := do
  let (whichType, vSolutions) ← CScript.solver scriptPubKey
  match whichType with
  | .pubkey => some (.keyID (getID (pubKeyOfBytes (vSolutions.headD []))))
  | .pubkeyhash => some (.keyID (keyIDOfBytes (vSolutions.headD [])))
  | .scripthash => some (.scriptID (keyIDOfBytes (vSolutions.headD [])))
  | _ => none

/-- `ExtractDestinations`: the type, the destinations and how many signatures they take. -/
def extractDestinations (scriptPubKey : CScript) : Option (TxnOutType × List CTxDestination × Nat) := do
  let (typeRet, vSolutions) ← CScript.solver scriptPubKey
  if typeRet = .nullData then none
  else if typeRet = .multisig then
    let nRequiredRet := ((vSolutions.headD []).headD 0).toNat
    let keys := (vSolutions.drop 1).dropLast
    return (typeRet, keys.map fun key => .keyID (getID (pubKeyOfBytes key)), nRequiredRet)
  else
    let address ← extractDestination getID scriptPubKey
    return (typeRet, [address], 1)

end Destination

namespace CScript

/-- `EncodeOP_N`; `none` where its assertion fails. -/
def encodeOpN (n : Nat) : Option UInt8 :=
  if n ≤ 16 then some (if n = 0 then 0 else UInt8.ofNat (op1 + n - 1)) else none

/-- `operator<<(const uint160&)`. -/
def pushUInt160 (b : CKeyID) : CScript := 20 :: keyIDBytes b

/-- `operator<<(const CPubKey&)`; `none` where its assertion fails. -/
def pushPubKey (key : CPubKey) : Option CScript :=
  if key.length < opPushData1 then some (UInt8.ofNat key.length :: key) else none

/-- `SetDestination`, `GetScriptForDestination`. -/
def getScriptForDestination : CTxDestination → CScript
  | .none => []
  | .keyID id => [0x76, 0xa9] ++ pushUInt160 id ++ [0x88, 0xac]
  | .scriptID id => [0xa9] ++ pushUInt160 id ++ [0x87]
  | .stealth _ => []

def setMultisig (nRequired : Nat) (keys : List CPubKey) : Option CScript := do
  let m ← encodeOpN nRequired
  let pushes ← keys.mapM pushPubKey
  let n ← encodeOpN keys.length
  return m :: (pushes.flatten ++ [n, 0xae])

def getScriptForMultisig (nRequired : Nat) (keys : List CPubKey) : Option CScript := do
  let m ← encodeOpN nRequired
  let n ← encodeOpN keys.length
  return m :: ((keys.map pushData).flatten ++ [n, 0xae])

end CScript

end PupaCoin
