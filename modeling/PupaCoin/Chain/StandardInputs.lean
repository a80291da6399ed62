import PupaCoin.Chain.Inputs
import PupaCoin.Lib.FirstVerdict
import PupaCoin.Script.Solver

/-!
# Standard transactions and inputs (`main.cpp`)

`IsStandardTx` looks at a transaction alone. `AreInputsStandard` looks at one input after the other: at the type of the output that it spends, and at the arguments
that its `scriptSig` leaves on the stack. `InputStandard` is the rule for one input.
-/

namespace PupaCoin

def maxP2SHSigOps : Nat := 15

namespace CTransaction

/-- One round of the loop of `IsStandardTx` over the inputs. -/
def checkStandardTxIn (txin : CTxIn) : Except String Unit :=
  if txin.scriptSig.length > 1650 then .error "scriptsig-size"
  else if !txin.scriptSig.isPushOnly then .error "scriptsig-not-pushonly"
  else if !txin.scriptSig.hasCanonicalPushes then .error "scriptsig-non-canonical-push"
  else .ok ()

/-- One round of the loop of `IsStandardTx` over the outputs, which counts those with data. -/
def checkStandardTxOut (nDataOut : Nat) (txout : CTxOut) : Except String Nat :=
  match txout.scriptPubKey.isStandard with
  | none => .error "scriptpubkey"
  | some whichType =>
    if whichType ≠ .nullData ∧ txout.nValue = 0 then .error "dust"
    else if !txout.scriptPubKey.hasCanonicalPushes then .error "scriptpubkey-non-canonical-push"
    else .ok (if whichType = .nullData then nDataOut + 1 else nDataOut)

/-- `IsStandardTx`: the reason where it returns `false`. -/
def isStandardTx (nBestHeight adjustedTime : Int) (tx : CTransaction) : Except String Unit := do
  if tx.nVersion > 1 ∨ tx.nVersion < 1 then .error "version"
  else if !tx.isFinalTx nBestHeight adjustedTime (nBestHeight + 1) 0 then .error "non-final"
  else if (tx.nTime.toNat : Int) > futureDrift adjustedTime then .error "time-too-new"
  else if tx.serializeSize ≥ maxStandardTxSize then .error "tx-size"
  else
    tx.vin.forM checkStandardTxIn
    let nDataOut ← tx.vout.foldlM checkStandardTxOut 0
    if nDataOut > 1 ∧ nDataOut > tx.vout.length / 2 then .error "multi-op-return" else .ok ()

/-- `EvalScript(stack, scriptSig, tx, i, SCRIPT_VERIFY_NONE, 0)`: the stack, `none` where it returns `false`. -/
def evalScriptSig (env : ScriptEnv) (scriptSig : CScript) : Option (List (List UInt8)) :=
  match (evalScript env (txRules env 0) [] scriptSig 0).1 with
  | .ok stack => some stack
  | .error _ => none

/-- The end of a round: the number of arguments. -/
def judgeArgs (stack : List (List UInt8)) (nArgsExpected : Int) : Option Bool :=
  if stack.length ≠ nArgsExpected.toNat then some false else none

/-- The rest of the round of a script-hash input. -/
def judgeRedeem (stack : List (List UInt8)) (nArgsExpected : Int) : Option Bool :=
  match stack with
  | [] => some false
  | subscript :: _ =>
    match CScript.solver subscript with
    | some (whichType2, vSolutions2) =>
      let tmpExpected := CScript.scriptSigArgsExpected whichType2 vSolutions2
      if whichType2 = .scripthash then some false
      else if tmpExpected < 0 then some false
      else judgeArgs stack (nArgsExpected + tmpExpected)
    | none =>
      -- the round of the first such input ends the function, whatever inputs are left
      some (decide (CScript.getSigOpCount subscript true ≤ maxP2SHSigOps))

/-- One round of the loop of `AreInputsStandard`: the value that the function returns there, `none` where it goes on
    with the next input. `env i` is the transaction as the signature check of its input `i` sees it. -/
def judgeInput (env : Nat → ScriptEnv) (mapInputs : MapPrevTx) (txin : CTxIn × Nat) : Except Stop (Option Bool) := do
  let prev ← getOutputFor mapInputs txin.1
  match CScript.solver prev.scriptPubKey with
  | none => return some false
  | some (whichType, vSolutions) =>
    let nArgsExpected := CScript.scriptSigArgsExpected whichType vSolutions
    if nArgsExpected < 0 then return some false
    else
      match evalScriptSig (env txin.2) txin.1.scriptSig with
      | none => return some false
      | some stack =>
        if whichType = .scripthash then return judgeRedeem stack nArgsExpected
        else return judgeArgs stack nArgsExpected

def areInputsStandard (env : Nat → ScriptEnv) (mapInputs : MapPrevTx) (tx : CTransaction) : Except Stop Bool :=
  if tx.isCoinBase then .ok true
  else FirstVerdict.firstVerdict (judgeInput env mapInputs) tx.vin.zipIdx

/-- A script of a standard type, which is given `nArgs` arguments. -/
def TakesArgs (script : CScript) (nArgs : Nat) : Prop :=
  ∃ whichType vSolutions, CScript.solver script = some (whichType, vSolutions) ∧
    CScript.scriptSigArgsExpected whichType vSolutions = nArgs

/-- The redeem script of a script-hash input is standard and is given its arguments, or has few enough signature
    operations. `nArgs` counts what lies on the stack below it. -/
def RedeemStandard (subscript : CScript) (nArgs : Nat) : Prop :=
  if (CScript.solver subscript).isSome then subscript.isPayToScriptHash = false ∧ TakesArgs subscript nArgs
  else CScript.getSigOpCount subscript true ≤ maxP2SHSigOps

/-- The rule for one input, on the script of the output that it spends and the stack that its `scriptSig` leaves. -/
def StackStandard (scriptPubKey : CScript) (stack : List (List UInt8)) : Prop :=
  if scriptPubKey.isPayToScriptHash then
    ∃ subscript args, stack = subscript :: args ∧ RedeemStandard subscript args.length
  else TakesArgs scriptPubKey stack.length

variable (env : Nat → ScriptEnv) (mapInputs : MapPrevTx) (txin : CTxIn × Nat)

def InputStandard : Prop :=
  ∃ prev stack, getOutputFor mapInputs txin.1 = .ok prev ∧ evalScriptSig (env txin.2) txin.1.scriptSig = some stack ∧
    StackStandard prev.scriptPubKey stack

/-- The input spends a script-hash output, and its redeem script is of no standard type. -/
def RedeemNonstandard : Prop :=
  ∃ prev subscript args, getOutputFor mapInputs txin.1 = .ok prev ∧ prev.scriptPubKey.isPayToScriptHash = true ∧
    evalScriptSig (env txin.2) txin.1.scriptSig = some (subscript :: args) ∧ CScript.solver subscript = none

/-- The first input against the rule belongs to a coinbase, or comes after one whose redeem script is of no standard
    type. -/
def SkipsInput (tx : CTransaction) : Prop :=
  (tx.isCoinBase = true ∧ ¬ ∀ txin ∈ tx.vin.zipIdx, InputStandard env mapInputs txin)
    ∨ FirstVerdict.Misses (InputStandard env mapInputs) (RedeemNonstandard env mapInputs) tx.vin.zipIdx

end CTransaction

namespace Sample

def standardPrev : CTransaction where
  nVersion := 1
  nTime := 0
  vin := []
  vout := [⟨5, [0xa9, 0x14] ++ List.replicate 20 7 ++ [0x87]⟩,
    ⟨5, [0x76, 0xa9, 0x14] ++ List.replicate 20 7 ++ [0x88, 0xac]⟩]
  nLockTime := 0

def standardInputs : MapPrevTx := AList.singleton 8 (.new .null 2, standardPrev)

def stuffedTx : CTransaction where
  nVersion := 1
  nTime := 0
  vin := [⟨⟨8, 0⟩, [1, 0x51], 0xffffffff⟩, ⟨⟨8, 1⟩, [0x51, 0x51, 0x51], 0xffffffff⟩]
  vout := [⟨9, []⟩]
  nLockTime := 0

end Sample

end PupaCoin
