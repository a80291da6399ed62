import Mathlib.Tactic

/-!
# Scripts (`script.h`, `script.cpp`)

A script is a byte vector. This module has the part of `CScript` that block validation uses: reading
one instruction (`GetOp2`), pushing numbers and byte vectors, the pay-to-script-hash test and the
static signature-operation counts.
-/

namespace PupaCoin

/-- A serialized script (`CScript`). -/
abbrev CScript := List UInt8

namespace CScript

def opPushData1 : Nat := 0x4c
def opPushData2 : Nat := 0x4d
def opPushData4 : Nat := 0x4e
def op1 : Nat := 0x51
def op16 : Nat := 0x60
def opReturn : Nat := 0x6a
def opDup : Nat := 0x76
def opEqual : Nat := 0x87
def opEqualVerify : Nat := 0x88
def opHash160 : Nat := 0xa9
def opCheckSig : Nat := 0xac
def opCheckSigVerify : Nat := 0xad
def opCheckMultiSig : Nat := 0xae
def opCheckMultiSigVerify : Nat := 0xaf
def opInvalidOpcode : Nat := 0xff

/-- The number of immediate bytes announced after a push opcode, and the script behind the length
    field; `none` where the length field is cut off. -/
def pushSize (opcode : Nat) (pc : CScript) : Option (Nat × CScript) :=
  if opcode < opPushData1 then some (opcode, pc)
  else if opcode = opPushData1 then
    match pc with
    | a :: pc => some (a.toNat, pc)
    | _ => none
  else if opcode = opPushData2 then
    match pc with
    | a :: b :: pc => some (a.toNat + 256 * b.toNat, pc)
    | _ => none
  else
    match pc with
    | a :: b :: c :: d :: pc =>
      some (a.toNat + 256 * b.toNat + 65536 * c.toNat + 16777216 * d.toNat, pc)
    | _ => none

/-- `GetOp2`: the opcode at the head of the script, its immediate data and the remaining script;
    `none` where the source returns `false`. What is left of the script is counted in an `unsigned int`. -/
def getOp : CScript → Option (Nat × CScript × CScript)
  | [] => none
  | b :: pc =>
    if b.toNat ≤ opPushData4 then
      match pushSize b.toNat pc with
      | none => none
      | some (nSize, pc) =>
        if pc.length % 2 ^ 32 < nSize then none else some (b.toNat, pc.take nSize, pc.drop nSize)
    else some (b.toNat, [], pc)

/-- `DecodeOP_N` on `OP_1 .. OP_16`. -/
def decodeOpN (opcode : Nat) : Nat := opcode - (op1 - 1)

/-- What one instruction adds to the signature-operation count. -/
def sigOpsOf (fAccurate : Bool) (lastOpcode opcode : Nat) : Nat :=
  if opcode = opCheckSig ∨ opcode = opCheckSigVerify then 1
  else if opcode = opCheckMultiSig ∨ opcode = opCheckMultiSigVerify then
    if fAccurate ∧ op1 ≤ lastOpcode ∧ lastOpcode ≤ op16 then decodeOpN lastOpcode else 20
  else 0

/-- The loop of `GetSigOpCount(bool)`. Every instruction takes at least one byte, so the length of
    the script is enough fuel. -/
def sigOpLoop (fAccurate : Bool) : Nat → Nat → CScript → Nat
  | 0, _, _ => 0
  | fuel + 1, lastOpcode, pc =>
    match getOp pc with
    | none => 0
    | some (opcode, _, pc) => sigOpsOf fAccurate lastOpcode opcode + sigOpLoop fAccurate fuel opcode pc

def getSigOpCount (script : CScript) (fAccurate : Bool) : Nat :=
  sigOpLoop fAccurate script.length opInvalidOpcode script

def isPayToScriptHash (script : CScript) : Bool :=
  script.length == 23 && script[0]? == some 0xa9 && script[1]? == some 0x14
    && script[22]? == some 0x87

/-- What `GetOp` leaves in `opcode` and `pc`: where it returns `false` the opcode is invalid, and `pc`
    stands behind what it has read of the instruction. -/
def stepOp (pc : CScript) : Nat × CScript :=
  match getOp pc with
  | some (opcode, _, pc) => (opcode, pc)
  | none =>
    match pc with
    | [] => (opInvalidOpcode, [])
    | b :: pc => (opInvalidOpcode, ((pushSize b.toNat pc).map Prod.snd).getD pc)

/-- The loop of `IsNormalPaymentScript`; every round takes a byte, so the length of the script is enough
    fuel. -/
def normalPaymentLoop : Nat → Nat → CScript → Bool
  | 0, _, _ => true
  | fuel + 1, i, pc =>
    if pc = [] then true
    else
      let (opcode, pc) := stepOp pc
      if i = 0 ∧ opcode ≠ opDup then false
      else if i = 1 ∧ opcode ≠ opHash160 then false
      else if i = 3 ∧ opcode ≠ opEqualVerify then false
      else if i = 4 ∧ opcode ≠ opCheckSig then false
      else if i = 5 then false
      else normalPaymentLoop fuel (i + 1) pc

/-- `IsNormalPaymentScript`. The pushed bytes are not counted: any push that ends where the script does
    or two instructions before it will do. -/
def isNormalPaymentScript (script : CScript) : Bool :=
  script.length == 25 && normalPaymentLoop script.length 0 script

def isUnspendable (script : CScript) : Bool := script.head?.map UInt8.toNat == some opReturn

/-- The data of the last push of a script of pushes; `none` where the source gives up (a malformed
    push, or an opcode above `OP_16`). -/
def lastPush : Nat → CScript → CScript → Option CScript
  | 0, _, data => some data
  | fuel + 1, pc, data =>
    if pc = [] then some data
    else
      match getOp pc with
      | none => none
      | some (opcode, vch, pc) => if opcode > op16 then none else lastPush fuel pc vch

/-- `GetSigOpCount(const CScript& scriptSig)`: the operations of the redeem script that `scriptSig`
    pushes last, for a script-hash output. -/
def getSigOpCountP2SH (script scriptSig : CScript) : Nat :=
  if ¬ script.isPayToScriptHash then script.getSigOpCount true
  else
    match lastPush scriptSig.length scriptSig [] with
    | none => 0
    | some subscript => CScript.getSigOpCount subscript true

end CScript

/-- The magnitude of a big number as bytes, least significant first and without trailing zeros. The
    number itself is enough fuel. -/
def bytesLE : Nat → Nat → List UInt8
  | 0, _ => []
  | fuel + 1, n => if n = 0 then [] else UInt8.ofNat (n % 256) :: bytesLE fuel (n / 256)

/-- `CBigNum::getvch`: little endian, with the sign in the top bit of the last byte and a byte of its
    own for the sign where that bit is taken. -/
def getvch (n : Int) : List UInt8 :=
  let mag := bytesLE n.natAbs n.natAbs
  let sign : UInt8 := if n < 0 then 0x80 else 0
  match mag.getLast? with
  | none => []
  | some top => if top ≥ 0x80 then mag ++ [sign] else mag.dropLast ++ [top ||| sign]

namespace CScript

/-- `operator<<(const std::vector<unsigned char>&)`: the bytes one push instruction is made of. -/
def pushData (b : List UInt8) : CScript :=
  let n := b.length
  if n < opPushData1 then UInt8.ofNat n :: b
  else if n ≤ 0xff then 0x4c :: UInt8.ofNat n :: b
  else if n ≤ 0xffff then 0x4d :: UInt8.ofNat (n % 256) :: UInt8.ofNat (n / 256) :: b
  else 0x4e :: UInt8.ofNat (n % 256) :: UInt8.ofNat (n / 256 % 256) :: UInt8.ofNat (n / 65536 % 256)
    :: UInt8.ofNat (n / 16777216) :: b

/-- `push_int64`: what `CScript() << n` appends for an integer. -/
def pushInt64 (n : Int) : CScript :=
  if n = -1 ∨ (1 ≤ n ∧ n ≤ 16) then [UInt8.ofNat (n + 80).toNat] else pushData (getvch n)

end CScript

end PupaCoin
