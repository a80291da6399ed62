import PupaCoin.Lib.LittleEndian
import PupaCoin.Lib.Memory
import PupaCoin.Lib.While
import PupaCoin.Script.Script

/-!
# Reading a script in memory (`script.h`, `script.cpp`)

`GetOp2` reads the bytes of a script from an iterator on. An iterator is a position here, and every byte is read
with a check that it is one of the script. Elements are written with `operator<<`, and a loop over `GetOp` reads
them back.
-/

namespace PupaCoin

namespace CScript

open Memory

/-- What `GetOp2` returns and leaves in its arguments. -/
structure OpRead where
  fRet : Bool
  pc : Nat
  opcodeRet : Nat
  vchRet : List UInt8
deriving DecidableEq, Repr

/-- The size of a push and the position behind it, `none` where the size is cut off. -/
def readPushSize (script : CScript) (opcode pc : Nat) : Except Fault (Option (Nat × Nat)) :=
  if opcode < opPushData1 then return some (opcode, pc)
  else if opcode = opPushData1 then
    if script.length - pc < 1 then return none
    else do
      let nSize ← read script pc
      return some (nSize.toNat, pc + 1)
  else if opcode = opPushData2 then
    if script.length - pc < 2 then return none
    else do
      let nSize ← slice script pc 2
      return some (LittleEndian.toNat nSize, pc + 2)
  else
    if script.length - pc < 4 then return none
    else do
      let nSize ← slice script pc 4
      return some (LittleEndian.toNat nSize, pc + 4)

/-- `GetOp2` returns `false` at `pc`. -/
def OpRead.failed (pc : Nat) : OpRead := { fRet := false, pc, opcodeRet := opInvalidOpcode, vchRet := [] }

def getOp2 (script : CScript) (pc : Nat) : Except Fault OpRead :=
  if pc ≥ script.length then return .failed pc
  else do
    let b ← read script pc
    let opcode := b.toNat
    let pc := pc + 1
    if opcode ≤ opPushData4 then
      let operand ← readPushSize script opcode pc
      match operand with
      | none => return .failed pc
      | some (nSize, pc) =>
        if (script.length - pc) % 2 ^ 32 < nSize then return .failed pc
        else do
          let vch ← slice script pc nSize
          return { fRet := true, pc := pc + nSize, opcodeRet := opcode, vchRet := vch }
    else return { fRet := true, pc, opcodeRet := opcode, vchRet := [] }

/-- A round of `while (pc < end()) if (!GetOp(pc, opcode, vch)) return false;`, with what it has read so far. The
    loop returns whether it has come to the end, where it stands, and the instructions. -/
def readRound (script : CScript) : Nat × List (Nat × List UInt8) →
      While.Round (Nat × List (Nat × List UInt8)) (Except Fault (Bool × Nat × List (Nat × List UInt8)))
  | (pc, ops) =>
    if pc < script.length then
      match getOp2 script pc with
      | .error fault => .done (.error fault)
      | .ok instr =>
        if instr.fRet then .next (instr.pc, ops ++ [(instr.opcodeRet, instr.vchRet)])
        else .done (.ok (false, instr.pc, ops))
    else .done (.ok (true, pc, ops))

/-- The loop of `IsNormalPaymentScript` in memory; every round takes a byte, so the length of the script is enough
    fuel. -/
def normalPaymentScan (script : CScript) : Nat → Nat → Nat → Except Fault Bool
  | 0, _, _ => .ok true
  | fuel + 1, i, pc =>
    if pc < script.length then do
      let instr ← getOp2 script pc
      let opcode := instr.opcodeRet
      if i = 0 ∧ opcode ≠ opDup then return false
      else if i = 1 ∧ opcode ≠ opHash160 then return false
      else if i = 3 ∧ opcode ≠ opEqualVerify then return false
      else if i = 4 ∧ opcode ≠ opCheckSig then return false
      else if i = 5 then return false
      else normalPaymentScan script fuel (i + 1) instr.pc
    else .ok true

/-- `IsNormalPaymentScript` in memory. -/
def scanNormalPayment (script : CScript) : Except Fault Bool :=
  if script.length ≠ 25 then .ok false else normalPaymentScan script script.length 0 0

/-- `OP_DUP OP_HASH160 <20 bytes> OP_EQUALVERIFY OP_CHECKSIG`. -/
def IsPayToPubKeyHash (script : CScript) : Prop :=
  ∃ hash : List UInt8, hash.length = 20 ∧ script = 0x76 :: 0xa9 :: 0x14 :: hash ++ [0x88, 0xac]

/-- 25 bytes that begin with `OP_DUP OP_HASH160` and another push than that of 20 bytes, behind which the script is
    over or ends within `OP_EQUALVERIFY OP_CHECKSIG`. -/
def EndsInOtherPush (script : CScript) : Prop :=
  script.length = 25 ∧ script.take 2 = [0x76, 0xa9] ∧
    ∃ opcode data rest, getOp (script.drop 2) = some (opcode, data, rest) ∧ opcode ≠ 0x14 ∧ rest <+: [0x88, 0xac]

/-- What `operator<<` takes. -/
inductive Element where
  | opcode (b : UInt8)
  | int (n : Int64)
  | uint (n : UInt64)
  | bytes (b : List UInt8)
deriving DecidableEq, Repr

namespace Element

/-- What `operator<<` appends. -/
def push : Element → CScript
  | .opcode b => [b]
  | .int n => pushInt64 n.toInt
  | .uint n => pushInt64 n.toNat
  | .bytes b => pushData b

def build (elements : List Element) : CScript := elements.flatMap push

def pushOpcode (size : Nat) : Nat :=
  if size < opPushData1 then size
  else if size ≤ 0xff then opPushData1
  else if size ≤ 0xffff then opPushData2
  else opPushData4

/-- A number is an opcode of its own, or else a string of bytes. -/
def instrOfInt (n : Int) : Nat × List UInt8 :=
  if n = -1 ∨ (1 ≤ n ∧ n ≤ 16) then ((n + 80).toNat, []) else (pushOpcode (getvch n).length, getvch n)

/-- The instruction that an element is. -/
def instr : Element → Nat × List UInt8
  | .opcode b => (b.toNat, [])
  | .int n => instrOfInt n.toInt
  | .uint n => instrOfInt n.toNat
  | .bytes b => (pushOpcode b.length, b)

/-- An opcode that announces bytes is no element of its own: the elements behind it are read as these bytes. -/
def Whole : Element → Prop
  | .opcode b => b = 0 ∨ opPushData4 < b.toNat
  | _ => True

instance : DecidablePred Whole
  | .opcode b => inferInstanceAs (Decidable (b = 0 ∨ opPushData4 < b.toNat))
  | .int _ | .uint _ | .bytes _ => inferInstanceAs (Decidable True)

end Element

end CScript

end PupaCoin
