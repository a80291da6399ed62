import PupaCoin.Lib.Exec
import PupaCoin.Script.Encoding
import PupaCoin.Script.Script

/-!
# The script interpreter (`script.cpp`)

There are two copies of `EvalScript` and of `VerifyScript`. The one is given the transaction, and accepts the
inputs of blocks and of transactions; the other is given a signature checker, and tests what `SignSignature`
has made. They differ in the rules for pushes, numbers, encodings of signatures and keys, `OP_HASH256` and
script-hash outputs, which are a parameter here.
-/

namespace PupaCoin

/-- `ScriptError_t`: what an evaluation can fail with. -/
inductive ScriptError where
  | unknownError
  | evalFalse
  | opReturn
  | scriptSize
  | pushSize
  | opCount
  | stackSize
  | sigCount
  | pubkeyCount
  | verify
  | equalVerify
  | checkMultiSigVerify
  | checkSigVerify
  | numEqualVerify
  | badOpcode
  | disabledOpcode
  | invalidStackOperation
  | invalidAltstackOperation
  | unbalancedConditional
  | sigHashtype
  | sigDer
  | minimalData
  | sigPushOnly
  | sigNullDummy
  | pubkeyType
  | discourageUpgradableNops
deriving DecidableEq, Repr

/-- Why an evaluation stops: with an error, or at a step on which two sets of rules differ. -/
inductive ScriptStop where
  | error (err : ScriptError)
  | disputed
deriving DecidableEq, Repr

/-- An evaluation counts the signature checks that it executes. -/
abbrev ScriptM := Exec Nat ScriptStop

namespace ScriptM

/-- `set_error`. -/
def fail {α : Type} (err : ScriptError) : ScriptM α := Exec.stop (.error err)

/-- A result that does not depend on the checks. -/
def ofExcept {α : Type} (r : Except ScriptError α) : ScriptM α := Exec.lift (r.mapError .error)

/-- A test of the evaluation: where `c` holds it fails with the error. -/
def failIf (c : Bool) (err : ScriptError) : ScriptM Unit := if c then fail err else pure ()

end ScriptM

def scriptVerifyP2SH : UInt32 := 1
def scriptVerifyStrictEnc : UInt32 := 2
def scriptVerifyDerSig : UInt32 := 4
def scriptVerifyLowS : UInt32 := 8
def scriptVerifyNullDummy : UInt32 := 16
def scriptVerifySigPushOnly : UInt32 := 32
def scriptVerifyMinimalData : UInt32 := 64
def scriptVerifyDiscourageUpgradableNops : UInt32 := 128

/-- `STANDARD_SCRIPT_VERIFY_FLAGS`, the flags that `SignSignature` verifies with. -/
def standardScriptVerifyFlags : UInt32 :=
  scriptVerifyStrictEnc ||| scriptVerifyNullDummy ||| scriptVerifyDiscourageUpgradableNops

/-- `(flags & flag) != 0`. -/
def hasFlag (flags flag : UInt32) : Bool := flags &&& flag != 0

/-- `CastToBool`: false for zero and for negative zero. -/
def castToBool : List UInt8 → Bool
  | [] => false
  | [b] => b != 0 && b != 0x80
  | b :: rest => b != 0 || castToBool rest

/-- The bytes as a number, least significant first. -/
def leBytes : List UInt8 → Nat
  | [] => 0
  | b :: rest => b.toNat + 256 * leBytes rest

/-- The value of a byte vector as a number: little endian, and negative where the top bit is set. `CBigNum`
and `CScriptNum` read it alike. -/
def setvch (vch : List UInt8) : Int :=
  match vch.getLast? with
  | none => 0
  | some top =>
    if top ≥ 0x80 then -((leBytes vch - 0x80 * 256 ^ (vch.length - 1) : Nat) : Int) else leBytes vch

/-- `nDefaultMaxNumSize`, `CScriptNum::nMaxNumSize`. -/
def maxNumSize : Nat := 4

/-- `CScriptNum`'s test that a number takes as few bytes as it can. -/
def isMinimalNum (vch : List UInt8) : Bool :=
  match vch.reverse with
  | [] => true
  | [top] => top &&& 0x7f != 0
  | top :: next :: _ => top &&& 0x7f != 0 || next &&& 0x80 != 0

/-- `CheckMinimalPush`: no shorter opcode pushes the data. -/
def checkMinimalPush (data : List UInt8) (opcode : Nat) : Bool :=
  match data with
  | [] => opcode == 0
  | [b] =>
    if 1 ≤ b ∧ b ≤ 16 then opcode == CScript.op1 + (b.toNat - 1)
    else if b = 0x81 then opcode == 0x4f
    else opcode == 1
  | _ =>
    if data.length ≤ 75 then opcode == data.length
    else if data.length ≤ 255 then opcode == CScript.opPushData1
    else if data.length ≤ 65535 then opcode == CScript.opPushData2
    else true

namespace CScript

/-- `IsPushOnly`; every round takes a byte, so the length of the script is enough fuel. -/
def pushOnlyLoop : Nat → CScript → Bool
  | 0, _ => true
  | fuel + 1, pc =>
    if pc = [] then true
    else
      match getOp pc with
      | none => false
      | some (opcode, _, rest) => if opcode > op16 then false else pushOnlyLoop fuel rest

/-- `IsPushOnly`. -/
def isPushOnly (script : CScript) : Bool := pushOnlyLoop script.length script

/-- The inner loop of `FindAndDelete`, at one position. -/
def deleteHere (b : CScript) : Nat → CScript → CScript
  | 0, pc => pc
  | fuel + 1, pc => if b.isPrefixOf pc then deleteHere b fuel (pc.drop b.length) else pc

/-- The outer loop of `FindAndDelete`, which goes on behind each instruction. -/
def deleteLoop (b : CScript) : Nat → CScript → CScript
  | 0, pc => pc
  | fuel + 1, pc =>
    let pc := deleteHere b pc.length pc
    match getOp pc with
    | none => pc
    | some (_, _, rest) => pc.take (pc.length - rest.length) ++ deleteLoop b fuel rest

/-- `FindAndDelete` of `b`: the script without it. -/
def findAndDelete (script b : CScript) : CScript :=
  if b = [] then script else deleteLoop b (script.length + 1) script

end CScript

/-- The operations on the stack alone. -/
inductive StackOp where
  | drop2 | dup2 | dup3 | over2 | rot2 | swap2 | ifDup | depth | drop | dup | nip | over | rot | swap | tuck | size
deriving DecidableEq, Repr

/-- The operations on one number. -/
inductive UnaryOp where
  | add1 | sub1 | negate | abs | not | notEqual0
deriving DecidableEq, Repr

/-- The operations on two numbers. -/
inductive BinaryOp where
  | add | sub | boolAnd | boolOr | numEqual | numNotEqual | lessThan | greaterThan | lessThanOrEqual
  | greaterThanOrEqual | min | max
deriving DecidableEq, Repr

/-- The hash functions that a script can call. -/
inductive HashOp where
  | ripemd160 | sha1 | sha256 | hash160 | hash256
deriving DecidableEq, Repr

/-- The cases of the `switch`. -/
inductive ScriptOp where
  | number (n : Int)
  | nop
  | nopN
  | opIf (fNot : Bool)
  | opElse
  | opEndIf
  | verify
  | opReturn
  | toAltStack
  | fromAltStack
  | stack (op : StackOp)
  | pick (fRoll : Bool)
  | equal (fVerify : Bool)
  | unary (op : UnaryOp)
  | binary (op : BinaryOp) (fVerify : Bool)
  | within
  | hash (op : HashOp)
  | codeSeparator
  | checkSig (fVerify : Bool)
  | checkMultiSig (fVerify : Bool)
  | unknown
deriving DecidableEq, Repr

/-- The case of an opcode that is no push. -/
def decodeOp (opcode : Nat) : ScriptOp :=
  if opcode = 0x4f ∨ (CScript.op1 ≤ opcode ∧ opcode ≤ CScript.op16) then .number (opcode - (CScript.op1 - 1))
  else if 0xb0 ≤ opcode ∧ opcode ≤ 0xb9 then .nopN
  else
    match opcode with
    | 0x61 => .nop
    | 0x63 => .opIf false
    | 0x64 => .opIf true
    | 0x67 => .opElse
    | 0x68 => .opEndIf
    | 0x69 => .verify
    | 0x6a => .opReturn
    | 0x6b => .toAltStack
    | 0x6c => .fromAltStack
    | 0x6d => .stack .drop2
    | 0x6e => .stack .dup2
    | 0x6f => .stack .dup3
    | 0x70 => .stack .over2
    | 0x71 => .stack .rot2
    | 0x72 => .stack .swap2
    | 0x73 => .stack .ifDup
    | 0x74 => .stack .depth
    | 0x75 => .stack .drop
    | 0x76 => .stack .dup
    | 0x77 => .stack .nip
    | 0x78 => .stack .over
    | 0x79 => .pick false
    | 0x7a => .pick true
    | 0x7b => .stack .rot
    | 0x7c => .stack .swap
    | 0x7d => .stack .tuck
    | 0x82 => .stack .size
    | 0x87 => .equal false
    | 0x88 => .equal true
    | 0x8b => .unary .add1
    | 0x8c => .unary .sub1
    | 0x8f => .unary .negate
    | 0x90 => .unary .abs
    | 0x91 => .unary .not
    | 0x92 => .unary .notEqual0
    | 0x93 => .binary .add false
    | 0x94 => .binary .sub false
    | 0x9a => .binary .boolAnd false
    | 0x9b => .binary .boolOr false
    | 0x9c => .binary .numEqual false
    | 0x9d => .binary .numEqual true
    | 0x9e => .binary .numNotEqual false
    | 0x9f => .binary .lessThan false
    | 0xa0 => .binary .greaterThan false
    | 0xa1 => .binary .lessThanOrEqual false
    | 0xa2 => .binary .greaterThanOrEqual false
    | 0xa3 => .binary .min false
    | 0xa4 => .binary .max false
    | 0xa5 => .within
    | 0xa6 => .hash .ripemd160
    | 0xa7 => .hash .sha1
    | 0xa8 => .hash .sha256
    | 0xa9 => .hash .hash160
    | 0xaa => .hash .hash256
    | 0xab => .codeSeparator
    | 0xac => .checkSig false
    | 0xad => .checkSig true
    | 0xae => .checkMultiSig false
    | 0xaf => .checkMultiSig true
    | _ => .unknown

/-- The opcodes that fail wherever they stand: `OP_CAT` to `OP_RIGHT`, `OP_INVERT` to `OP_XOR`, `OP_2MUL`,
`OP_2DIV` and `OP_MUL` to `OP_RSHIFT`. -/
def isDisabled (opcode : Nat) : Bool :=
  decide ((0x7e ≤ opcode ∧ opcode ≤ 0x81) ∨ (0x83 ≤ opcode ∧ opcode ≤ 0x86) ∨ opcode = 0x8d ∨ opcode = 0x8e
    ∨ (0x95 ≤ opcode ∧ opcode ≤ 0x99))

/-- An operation on the stack; the top comes first. -/
def StackOp.apply (op : StackOp) (stack : List (List UInt8)) : Option (List (List UInt8)) :=
  match op, stack with
  | .drop2, _ :: _ :: s => some s
  | .dup2, x2 :: x1 :: s => some (x2 :: x1 :: x2 :: x1 :: s)
  | .dup3, x3 :: x2 :: x1 :: s => some (x3 :: x2 :: x1 :: x3 :: x2 :: x1 :: s)
  | .over2, x4 :: x3 :: x2 :: x1 :: s => some (x2 :: x1 :: x4 :: x3 :: x2 :: x1 :: s)
  | .rot2, x6 :: x5 :: x4 :: x3 :: x2 :: x1 :: s => some (x2 :: x1 :: x6 :: x5 :: x4 :: x3 :: s)
  | .swap2, x4 :: x3 :: x2 :: x1 :: s => some (x2 :: x1 :: x4 :: x3 :: s)
  | .ifDup, x :: s => some (if castToBool x then x :: x :: s else x :: s)
  | .depth, s => some (getvch s.length :: s)
  | .drop, _ :: s => some s
  | .dup, x :: s => some (x :: x :: s)
  | .nip, x2 :: _ :: s => some (x2 :: s)
  | .over, x2 :: x1 :: s => some (x1 :: x2 :: x1 :: s)
  | .rot, x3 :: x2 :: x1 :: s => some (x1 :: x3 :: x2 :: s)
  | .swap, x2 :: x1 :: s => some (x1 :: x2 :: s)
  | .tuck, x2 :: x1 :: s => some (x2 :: x1 :: x2 :: s)
  | .size, x :: s => some (getvch x.length :: x :: s)
  | _, _ => none

/-- `bnOne` or `bnZero`. -/
def bnBool (b : Bool) : Int := if b then 1 else 0

/-- The number that an operation on one number leaves. -/
def UnaryOp.apply (op : UnaryOp) (bn : Int) : Int :=
  match op with
  | .add1 => bn + 1
  | .sub1 => bn - 1
  | .negate => -bn
  | .abs => if bn < 0 then -bn else bn
  | .not => bnBool (bn == 0)
  | .notEqual0 => bnBool (bn != 0)

/-- The number that an operation on two numbers leaves. -/
def BinaryOp.apply (op : BinaryOp) (bn1 bn2 : Int) : Int :=
  match op with
  | .add => bn1 + bn2
  | .sub => bn1 - bn2
  | .boolAnd => bnBool (bn1 != 0 && bn2 != 0)
  | .boolOr => bnBool (bn1 != 0 || bn2 != 0)
  | .numEqual => bnBool (bn1 == bn2)
  | .numNotEqual => bnBool (bn1 != bn2)
  | .lessThan => bnBool (decide (bn1 < bn2))
  | .greaterThan => bnBool (decide (bn1 > bn2))
  | .lessThanOrEqual => bnBool (decide (bn1 ≤ bn2))
  | .greaterThanOrEqual => bnBool (decide (bn1 ≥ bn2))
  | .min => if bn1 < bn2 then bn1 else bn2
  | .max => if bn1 > bn2 then bn1 else bn2

/-- The functions that an evaluation calls. The two copies use different implementations of the first four
hash functions, which compute the same. -/
structure ScriptEnv where
  ripemd160 : List UInt8 → List UInt8
  sha1 : List UInt8 → List UInt8
  sha256 : List UInt8 → List UInt8
  hash160 : List UInt8 → List UInt8
  hashBmw512 : List UInt8 → List UInt8
  /-- `CHash256`: SHA-256 twice. -/
  hash256 : List UInt8 → List UInt8
  /-- `CPubKey::CheckLowS`. -/
  checkLowS : List UInt8 → Bool
  /-- `CheckSig` of a signature, a key and a script code, for the input that is verified. -/
  checkSig : List UInt8 → List UInt8 → CScript → Bool

/-- What the two copies of the interpreter differ in. -/
structure ScriptRules where
  /-- The test of an executed push and its opcode. -/
  checkPush : List UInt8 → Nat → ScriptM Unit
  /-- A stack element as a number. -/
  number : List UInt8 → ScriptM Int
  hash256 : List UInt8 → ScriptM (List UInt8)
  /-- The encodings of a signature and a key, and the check with the script code. -/
  checkSig : List UInt8 → List UInt8 → CScript → ScriptM Bool
  fDiscourageNops : Bool
  fNullDummy : Bool
  /-- The test of `VerifyScript` before it evaluates the two scripts. -/
  checkScripts : CScript → CScript → ScriptM Unit
  /-- Whether `VerifyScript` evaluates the redeem script of a script-hash output. -/
  fP2SH : ScriptM Bool

/-- The variables of `EvalScript`. The top of a stack and the innermost condition come first; `scriptCode` is
the script from `pbegincodehash` on. -/
structure ScriptState where
  stack : List (List UInt8)
  altstack : List (List UInt8)
  vfExec : List Bool
  nOpCount : Nat
  scriptCode : CScript
deriving DecidableEq, Repr

section Eval

variable (env : ScriptEnv) (R : ScriptRules)

open ScriptM

/-- The hash of an element; that of `OP_HASH256` is up to the rules. -/
def HashOp.apply (op : HashOp) (vch : List UInt8) : ScriptM (List UInt8) :=
  match op with
  | .ripemd160 => pure (env.ripemd160 vch)
  | .sha1 => pure (env.sha1 vch)
  | .sha256 => pure (env.sha256 vch)
  | .hash160 => pure (env.hash160 vch)
  | .hash256 => R.hash256 vch

/-- `vchTrue` or `vchFalse`. -/
def vchBool (b : Bool) : List UInt8 := if b then [1] else []

/-- The result of an operation on the stack, which its `VERIFY` form takes off again. -/
def pushResult (st : ScriptState) (stack : List (List UInt8)) (fResult fVerify : Bool) (err : ScriptError) :
    Except ScriptError ScriptState :=
  if fVerify then
    if fResult then .ok { st with stack } else .error err
  else .ok { st with stack := vchBool fResult :: stack }

/-- The loop of `OP_CHECKMULTISIG` over the keys, on the remaining signatures. -/
def multiSigLoop (scriptCode : CScript) : List (List UInt8) → List (List UInt8) → ScriptM Bool
  | _, [] => pure true
  | [], _ :: _ => pure false
  | key :: keys, sig :: sigs => do
    let fOk ← R.checkSig sig key scriptCode
    let sigs := if fOk then sigs else sig :: sigs
    if sigs.length > keys.length then return false
    multiSigLoop scriptCode keys sigs

/-- `OP_CHECKMULTISIG`. -/
def execCheckMultiSig (fVerify : Bool) (st : ScriptState) : ScriptM ScriptState :=
  match st.stack with
  | [] => fail .invalidStackOperation
  | vchKeys :: stack => do
    let nKeysCount ← R.number vchKeys
    failIf (decide (nKeysCount < 0 ∨ nKeysCount > 20)) .pubkeyCount
    let nKeys := nKeysCount.toNat
    let st := { st with nOpCount := st.nOpCount + nKeys }
    failIf (decide (st.nOpCount > 201)) .opCount
    failIf (decide (stack.length < nKeys + 1)) .invalidStackOperation
    let keys := stack.take nKeys
    match stack.drop nKeys with
    | [] => fail .invalidStackOperation
    | vchSigs :: stack => do
      let nSigsCount ← R.number vchSigs
      failIf (decide (nSigsCount < 0 ∨ nSigsCount > nKeysCount)) .sigCount
      let nSigs := nSigsCount.toNat
      failIf (decide (stack.length < nSigs + 1)) .invalidStackOperation
      let sigs := stack.take nSigs
      let scriptCode := sigs.foldl (fun code sig => code.findAndDelete (CScript.pushData sig)) st.scriptCode
      let fSuccess ← multiSigLoop R scriptCode keys sigs
      match stack.drop nSigs with
      | [] => fail .invalidStackOperation
      | dummy :: stack => do
        failIf (R.fNullDummy && decide (dummy ≠ [])) .sigNullDummy
        ofExcept (pushResult st stack fSuccess fVerify .checkMultiSigVerify)

/-- `OP_CHECKSIG`. -/
def execCheckSig (fVerify : Bool) (st : ScriptState) : ScriptM ScriptState :=
  match st.stack with
  | vchPubKey :: vchSig :: stack => do
    let scriptCode := st.scriptCode.findAndDelete (CScript.pushData vchSig)
    let fSuccess ← R.checkSig vchSig vchPubKey scriptCode
    ofExcept (pushResult st stack fSuccess fVerify .checkSigVerify)
  | _ => fail .invalidStackOperation

/-- The cases of the `switch` that are the same in both copies, on an instruction with the script behind
it. -/
def execBasic (op : ScriptOp) (fExec : Bool) (rest : CScript) (st : ScriptState) : Except ScriptError ScriptState :=
  match op with
  | .number n => .ok { st with stack := getvch n :: st.stack }
  | .nop => .ok st
  | .opIf fNot =>
    if fExec then
      match st.stack with
      | [] => .error .unbalancedConditional
      | vch :: stack => .ok { st with stack, vfExec := (castToBool vch != fNot) :: st.vfExec }
    else .ok { st with vfExec := false :: st.vfExec }
  | .opElse =>
    match st.vfExec with
    | [] => .error .unbalancedConditional
    | b :: vfExec => .ok { st with vfExec := (!b) :: vfExec }
  | .opEndIf =>
    match st.vfExec with
    | [] => .error .unbalancedConditional
    | _ :: vfExec => .ok { st with vfExec }
  | .verify =>
    match st.stack with
    | [] => .error .invalidStackOperation
    | vch :: stack => if castToBool vch then .ok { st with stack } else .error .verify
  | .opReturn => .error .opReturn
  | .toAltStack =>
    match st.stack with
    | [] => .error .invalidStackOperation
    | vch :: stack => .ok { st with stack, altstack := vch :: st.altstack }
  | .fromAltStack =>
    match st.altstack with
    | [] => .error .invalidAltstackOperation
    | vch :: altstack => .ok { st with stack := vch :: st.stack, altstack }
  | .stack op =>
    match op.apply st.stack with
    | none => .error .invalidStackOperation
    | some stack => .ok { st with stack }
  | .equal fVerify =>
    match st.stack with
    | vch2 :: vch1 :: stack => pushResult st stack (vch1 == vch2) fVerify .equalVerify
    | _ => .error .invalidStackOperation
  | .codeSeparator => .ok { st with scriptCode := rest }
  | _ => .error .badOpcode

/-- `OP_PICK` and `OP_ROLL`. -/
def execPick (fRoll : Bool) (st : ScriptState) : ScriptM ScriptState :=
  match st.stack with
  | vchN :: x :: xs => do
    let stack := x :: xs
    let n ← R.number vchN
    failIf (decide (n < 0 ∨ n ≥ stack.length)) .invalidStackOperation
    match stack[n.toNat]? with
    | none => fail .invalidStackOperation
    | some vch => pure { st with stack := vch :: (if fRoll then stack.eraseIdx n.toNat else stack) }
  | _ => fail .invalidStackOperation

/-- `OP_1ADD` to `OP_0NOTEQUAL`. -/
def execUnary (op : UnaryOp) (st : ScriptState) : ScriptM ScriptState :=
  match st.stack with
  | [] => fail .invalidStackOperation
  | vch :: stack => do
    let bn ← R.number vch
    return { st with stack := getvch (op.apply bn) :: stack }

/-- `OP_ADD` to `OP_MAX`; `fVerify` for `OP_NUMEQUALVERIFY`. -/
def execBinary (op : BinaryOp) (fVerify : Bool) (st : ScriptState) : ScriptM ScriptState :=
  match st.stack with
  | vch2 :: vch1 :: stack => do
    let bn1 ← R.number vch1
    let bn2 ← R.number vch2
    let bn := op.apply bn1 bn2
    if fVerify then
      failIf (!castToBool (getvch bn)) .numEqualVerify
      return { st with stack }
    return { st with stack := getvch bn :: stack }
  | _ => fail .invalidStackOperation

/-- `OP_WITHIN`: the lower bound belongs to the range, the upper one does not. -/
def execWithin (st : ScriptState) : ScriptM ScriptState :=
  match st.stack with
  | vch3 :: vch2 :: vch1 :: stack => do
    let bn1 ← R.number vch1
    let bn2 ← R.number vch2
    let bn3 ← R.number vch3
    return { st with stack := vchBool (decide (bn2 ≤ bn1 ∧ bn1 < bn3)) :: stack }
  | _ => fail .invalidStackOperation

/-- `OP_RIPEMD160` to `OP_HASH256`. -/
def execHash (op : HashOp) (st : ScriptState) : ScriptM ScriptState :=
  match st.stack with
  | [] => fail .invalidStackOperation
  | vch :: stack => do
    let vchHash ← op.apply env R vch
    return { st with stack := vchHash :: stack }

/-- The `switch`. -/
def execOp (op : ScriptOp) (fExec : Bool) (rest : CScript) (st : ScriptState) : ScriptM ScriptState :=
  match op with
  | .nopN => do
    failIf R.fDiscourageNops .discourageUpgradableNops
    return st
  | .pick fRoll => execPick R fRoll st
  | .unary op => execUnary R op st
  | .binary op fVerify => execBinary R op fVerify st
  | .within => execWithin R st
  | .hash op => execHash env R op st
  | .checkSig fVerify => execCheckSig R fVerify st
  | .checkMultiSig fVerify => execCheckMultiSig R fVerify st
  | op => ofExcept (execBasic op fExec rest st)

/-- One instruction, with its immediate data and the script behind it. -/
def execInstr (opcode : Nat) (vchPushValue rest : CScript) (st : ScriptState) : ScriptM ScriptState := do
  let fExec := st.vfExec.all id
  failIf (decide (vchPushValue.length > 520)) .pushSize
  let nOpCount := if opcode > CScript.op16 then st.nOpCount + 1 else st.nOpCount
  let st := { st with nOpCount }
  failIf (decide (opcode > CScript.op16 ∧ nOpCount > 201)) .opCount
  failIf (isDisabled opcode) .disabledOpcode
  let st ←
    if fExec ∧ opcode ≤ CScript.opPushData4 then do
      R.checkPush vchPushValue opcode
      pure { st with stack := vchPushValue :: st.stack }
    else if fExec ∨ (0x63 ≤ opcode ∧ opcode ≤ 0x68) then execOp env R (decodeOp opcode) fExec rest st
    else pure st
  failIf (decide (st.stack.length + st.altstack.length > 1000)) .stackSize
  return st

/-- The loop of `EvalScript`; every instruction takes a byte, so the length of the script is enough fuel. -/
def evalLoop : Nat → CScript → ScriptState → ScriptM ScriptState
  | 0, _, st => pure st
  | fuel + 1, pc, st =>
    if pc = [] then pure st
    else
      match CScript.getOp pc with
      | none => fail .badOpcode
      | some (opcode, vchPushValue, rest) => do
        let st ← execInstr env R opcode vchPushValue rest st
        evalLoop fuel rest st

/-- `EvalScript`: the stack that it leaves. -/
def evalScript (stack : List (List UInt8)) (script : CScript) : ScriptM (List (List UInt8)) := do
  failIf (decide (script.length > 10000)) .scriptSize
  let st ← evalLoop env R script.length script
    { stack, altstack := [], vfExec := [], nOpCount := 0, scriptCode := script }
  failIf (!st.vfExec.isEmpty) .unbalancedConditional
  return st.stack

/-- The stack has an element, and the top one is true. -/
def checkTop (stack : List (List UInt8)) : ScriptM Unit :=
  match stack with
  | [] => fail .evalFalse
  | vch :: _ => failIf (!castToBool vch) .evalFalse

/-- The end of `VerifyScript` for a script-hash output, on the stack that `scriptSig` leaves. -/
def checkRedeem (stackCopy : List (List UInt8)) : ScriptM Unit :=
  match stackCopy with
  | [] => fail .unknownError
  | pubKeySerialized :: stackCopy => do
    let stack ← evalScript env R stackCopy pubKeySerialized
    checkTop stack

/-- `VerifyScript`: it returns `true` where this does not stop. -/
def verifyScript (scriptSig scriptPubKey : CScript) : ScriptM Unit := do
  R.checkScripts scriptSig scriptPubKey
  let stackCopy ← evalScript env R [] scriptSig
  let stack ← evalScript env R stackCopy scriptPubKey
  checkTop stack
  if scriptPubKey.isPayToScriptHash then
    if ← R.fP2SH then
      failIf (!scriptSig.isPushOnly) .sigPushOnly
      checkRedeem env R stackCopy

/-- The value that `VerifyScript` returns. -/
def verdict (scriptSig scriptPubKey : CScript) : Bool := (verifyScript env R scriptSig scriptPubKey 0).1.isOk

/-- The number of signature checks that `VerifyScript` executes. -/
def sigChecks (scriptSig scriptPubKey : CScript) : Nat := (verifyScript env R scriptSig scriptPubKey 0).2

end Eval

section Rules

variable (env : ScriptEnv) (flags : UInt32)

open ScriptM

/-- `CastToBigNum(vch).getint()`, or `CScriptNum(vch, fRequireMinimal).getint()`. -/
def toNumber (fRequireMinimal : Bool) (vch : List UInt8) : ScriptM Int := do
  failIf (decide (vch.length > maxNumSize)) .unknownError
  failIf (fRequireMinimal && !isMinimalNum vch) .unknownError
  return setvch vch

/-- `CheckSig`: a signature check is executed. -/
def countedCheckSig (vchSig vchPubKey : List UInt8) (scriptCode : CScript) : ScriptM Bool := do
  Exec.update (· + 1)
  return env.checkSig vchSig vchPubKey scriptCode

/-- `IsLowDERSignature`, on the signature without its hash type. -/
def isLowDERSignature (vchSig : List UInt8) : Bool :=
  isDERSignature vchSig true && env.checkLowS vchSig.dropLast

/-- `CheckSignatureEncoding(vchSig) && CheckPubKeyEncoding(vchPubKey)`, which do not depend on the flags. -/
def checkEncodings (vchSig vchPubKey : List UInt8) : Bool :=
  isLowDERSignature env vchSig && isDefinedHashtypeSignature vchSig
    && isCompressedOrUncompressedPubKey vchPubKey

/-- `CheckSignatureEncoding` and `CheckPubKeyEncoding` as the flags want them. -/
def checkEncodingsFlags (vchSig vchPubKey : List UInt8) : Except ScriptError Unit :=
  if (hasFlag flags (scriptVerifyDerSig ||| scriptVerifyLowS ||| scriptVerifyStrictEnc))
      && !isDERSignature vchSig true then .error .sigDer
  else if hasFlag flags scriptVerifyLowS && !isLowDERSignature env vchSig then
    .error (if isDERSignature vchSig true then .unknownError else .sigDer)
  else if hasFlag flags scriptVerifyStrictEnc && !isDefinedHashtypeSignature vchSig then .error .sigHashtype
  else if hasFlag flags scriptVerifyStrictEnc && !isCompressedOrUncompressedPubKey vchPubKey then
    .error .pubkeyType
  else .ok ()

/-- The copy that is given the transaction. -/
def txRules : ScriptRules where
  checkPush _ _ := pure ()
  number := toNumber false
  hash256 vch := pure (env.hashBmw512 vch)
  checkSig vchSig vchPubKey scriptCode := do
    failIf (hasFlag flags scriptVerifyStrictEnc && !checkEncodings env vchSig vchPubKey) .unknownError
    if checkEncodings env vchSig vchPubKey then countedCheckSig env vchSig vchPubKey scriptCode
    else return false
  fDiscourageNops := hasFlag flags scriptVerifyDiscourageUpgradableNops
  fNullDummy := hasFlag flags scriptVerifyNullDummy
  checkScripts _ _ := pure ()
  fP2SH := pure true

/-- The copy that is given a signature checker. -/
def checkerRules : ScriptRules where
  checkPush vch opcode :=
    failIf (hasFlag flags scriptVerifyMinimalData && !checkMinimalPush vch opcode) .minimalData
  number := toNumber (hasFlag flags scriptVerifyMinimalData)
  hash256 vch := pure (env.hash256 vch)
  checkSig vchSig vchPubKey scriptCode :=
    match checkEncodingsFlags env flags vchSig vchPubKey with
    | .error err => fail err
    | .ok () => countedCheckSig env vchSig vchPubKey scriptCode
  fDiscourageNops := hasFlag flags scriptVerifyDiscourageUpgradableNops
  fNullDummy := hasFlag flags scriptVerifyNullDummy
  checkScripts scriptSig _ :=
    failIf (hasFlag flags scriptVerifySigPushOnly && !scriptSig.isPushOnly) .sigPushOnly
  fP2SH := pure (hasFlag flags scriptVerifyP2SH)

end Rules

namespace Sample

def scriptEnv (hash : List UInt8) : ScriptEnv where
  ripemd160 _ := hash
  sha1 _ := hash
  sha256 _ := hash
  hash160 _ := hash
  hashBmw512 _ := hash
  hash256 _ := hash
  checkLowS _ := true
  checkSig _ _ _ := true

def vchSig : List UInt8 := [0x30, 6, 2, 1, 1, 2, 1, 1, 1]

def vchPubKey : List UInt8 :=
  [0x02, 0x79, 0xbe, 0x66, 0x7e, 0xf9, 0xdc, 0xbb, 0xac, 0x55, 0xa0, 0x62, 0x95, 0xce, 0x87, 0x0b, 0x07, 0x02, 0x9b,
    0xfc, 0xdb, 0x2d, 0xce, 0x28, 0xd9, 0x59, 0xf2, 0x81, 0x5b, 0x16, 0xf8, 0x17, 0x98]

end Sample

/-!
## The rules that both copies of the interpreter follow

Under these rules an evaluation goes on as in either copy wherever the two go on in the same way, and stops with
a dispute at a step that they take differently.
-/

namespace ScriptM

/-- The two copies go on differently. -/
def dispute {α : Type} : ScriptM α := Exec.stop .disputed

def disputeIf (c : Bool) : ScriptM Unit := if c then dispute else pure ()

end ScriptM

section Rules

variable (env : ScriptEnv) (flags : UInt32)

open ScriptM

/-- The encodings of a signature and a key make the second copy fail. -/
def encodingFails (vchSig vchPubKey : List UInt8) : Bool :=
  !(checkEncodingsFlags env flags vchSig vchPubKey).isOk

/-- The rules of both copies, where they agree. -/
def sharedRules : ScriptRules where
  -- only the second copy wants pushes and numbers to be minimal
  checkPush vch opcode :=
    disputeIf (hasFlag flags scriptVerifyMinimalData && !checkMinimalPush vch opcode)
  number vch := do
    failIf (decide (vch.length > maxNumSize)) .unknownError
    disputeIf (hasFlag flags scriptVerifyMinimalData && !isMinimalNum vch)
    return setvch vch
  -- the hash functions are not the same
  hash256 vch := do
    disputeIf (decide (env.hashBmw512 vch ≠ env.hash256 vch))
    return env.hash256 vch
  checkSig vchSig vchPubKey scriptCode :=
    if checkEncodings env vchSig vchPubKey then countedCheckSig env vchSig vchPubKey scriptCode
    else if hasFlag flags scriptVerifyStrictEnc && encodingFails env flags vchSig vchPubKey then
      fail .unknownError
    -- the first copy does not check the signature, and the second one finds it wrong
    else if !hasFlag flags scriptVerifyStrictEnc && !encodingFails env flags vchSig vchPubKey
        && !env.checkSig vchSig vchPubKey scriptCode then
      return false
    else dispute
  fDiscourageNops := hasFlag flags scriptVerifyDiscourageUpgradableNops
  fNullDummy := hasFlag flags scriptVerifyNullDummy
  checkScripts scriptSig _ := disputeIf (hasFlag flags scriptVerifySigPushOnly && !scriptSig.isPushOnly)
  fP2SH := pure (hasFlag flags scriptVerifyP2SH)

/-- Both copies on a script-hash output. Without the flag only the first one evaluates the redeem script, and
the two go on in the same way where that succeeds. -/
def sharedRedeem (scriptSig : CScript) (stackCopy : List (List UInt8)) : ScriptM Unit :=
  if hasFlag flags scriptVerifyP2SH then do
    failIf (!scriptSig.isPushOnly) .sigPushOnly
    checkRedeem env (sharedRules env flags) stackCopy
  else
    let redeem : ScriptM Unit := do
      failIf (!scriptSig.isPushOnly) .sigPushOnly
      checkRedeem env (txRules env flags) stackCopy
    disputeIf (!(redeem 0).1.isOk)

/-- `VerifyScript` as both copies evaluate it. -/
def sharedVerify (scriptSig scriptPubKey : CScript) : ScriptM Unit := do
  (sharedRules env flags).checkScripts scriptSig scriptPubKey
  let stackCopy ← evalScript env (sharedRules env flags) [] scriptSig
  let stack ← evalScript env (sharedRules env flags) stackCopy scriptPubKey
  checkTop stack
  if scriptPubKey.isPayToScriptHash then sharedRedeem env flags scriptSig stackCopy

end Rules

/-- The bounds on the checks that `VerifyScript` executes. -/
structure SigChecksBounded (env : ScriptEnv) (R : ScriptRules) (scriptSig scriptPubKey : CScript) : Prop where
  /-- No redeem script is evaluated. -/
  plain : ¬(scriptPubKey.isPayToScriptHash = true ∧ scriptSig.isPushOnly = true) →
    sigChecks env R scriptSig scriptPubKey
      ≤ scriptSig.getSigOpCount false + scriptPubKey.getSigOpCount false
  /-- The redeem script of a script-hash output is evaluated. -/
  redeem : scriptPubKey.isPayToScriptHash = true → scriptSig.isPushOnly = true →
    sigChecks env R scriptSig scriptPubKey ≤ scriptPubKey.getSigOpCountP2SH scriptSig

end PupaCoin
