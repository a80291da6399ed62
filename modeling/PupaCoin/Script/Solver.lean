import Mathlib.Data.List.Dedup
import Mathlib.Data.List.Sort
import PupaCoin.Lib.OrderedMap
import PupaCoin.Script.Interpreter

/-!
# The types of output scripts (`script.cpp`)

`Solver` compares a script with the templates of the standard output types. A template is a script of opcodes without
immediate data, some of which stand for a key, a hash or a number, so it is the list of its opcodes here.
-/

namespace PupaCoin

inductive TxnOutType where
  | nonstandard
  | pubkey
  | pubkeyhash
  | scripthash
  | multisig
  | nullData
deriving DecidableEq, Repr

namespace CScript

def opSmallData : Nat := 0xf9
def opSmallInteger : Nat := 0xfa
def opPubKeys : Nat := 0xfb
def opPubKeyHash : Nat := 0xfd
def opPubKey : Nat := 0xfe

def maxOpReturnRelay : Nat := 40

/-- `mTemplates`, in the order of the map. -/
def mTemplates : List (TxnOutType × List Nat) :=
  [(.pubkey, [opPubKey, opCheckSig]), (.pubkeyhash, [opDup, opHash160, opPubKeyHash, opEqualVerify, opCheckSig]),
    (.multisig, [opSmallInteger, opPubKeys, opSmallInteger, opCheckMultiSig]),
    (.nullData, [opReturn, opSmallData]),
    (.nullData, [opReturn])]

def isPubKeySize (vch : List UInt8) : Bool := decide (33 ≤ vch.length ∧ vch.length ≤ 120)

/-- What the loop over a template has read last of the script, and what it has found so far. -/
structure TemplateState where
  opcode1 : Nat
  vch1 : List UInt8
  pc1 : CScript
  vSolutions : List (List UInt8)
deriving DecidableEq, Repr

/-- The loop at `OP_PUBKEYS`: it leaves behind the first instruction that is no key. A key takes bytes of the
    script, so the length of the script is enough fuel. -/
def takePubKeys : Nat → TemplateState → TemplateState
  | 0, st => st
  | fuel + 1, st =>
    if isPubKeySize st.vch1 then
      let vSolutions := st.vSolutions ++ [st.vch1]
      match getOp st.pc1 with
      | some (opcode1, vch1, pc1) => takePubKeys fuel { opcode1, vch1, pc1, vSolutions }
      | none => { opcode1 := opInvalidOpcode, vch1 := [], pc1 := (stepOp st.pc1).2, vSolutions }
    else st

/-- Whether an instruction of the script is what the opcode of the template stands for: the solutions afterwards,
    `none` where the loop breaks. -/
def matchOpcode (opcode2 : Nat) (st : TemplateState) : Option (List (List UInt8)) :=
  if opcode2 = opPubKey then
    if isPubKeySize st.vch1 then some (st.vSolutions ++ [st.vch1]) else none
  else if opcode2 = opPubKeyHash then
    if st.vch1.length = 20 then some (st.vSolutions ++ [st.vch1]) else none
  else if opcode2 = opSmallInteger then
    if st.opcode1 = 0 ∨ (op1 ≤ st.opcode1 ∧ st.opcode1 ≤ op16) then
      some (st.vSolutions ++ [[UInt8.ofNat (decodeOpN st.opcode1)]])
    else none
  else if opcode2 = opSmallData then
    if st.vch1.length > maxOpReturnRelay then none else some st.vSolutions
  else if st.opcode1 ≠ opcode2 ∨ st.vch1 ≠ [] then none
  else some st.vSolutions

/-- The loop of `Solver` over one template: the solutions, `none` where the script does not match. -/
def matchTemplate : List Nat → CScript → List (List UInt8) → Option (List (List UInt8))
  | [], pc1, vSolutions => if pc1 = [] then some vSolutions else none
  | opcode2 :: pc2, pc1, vSolutions => do
    let (opcode1, vch1, pc1) ← getOp pc1
    if opcode2 = opPubKeys then
      match pc2 with
      | [] => none
      | opcode2 :: pc2 =>
        let st := takePubKeys (pc1.length + 1) { opcode1, vch1, pc1, vSolutions }
        let vSolutions ← matchOpcode opcode2 st
        matchTemplate pc2 st.pc1 vSolutions
    else
      let vSolutions ← matchOpcode opcode2 { opcode1, vch1, pc1, vSolutions }
      matchTemplate pc2 pc1 vSolutions

/-- The additional checks for `TX_MULTISIG`, on the numbers at the two ends of the solutions. -/
def multisigNumbersOk (vSolutions : List (List UInt8)) : Bool :=
  let m := ((vSolutions.head?.bind List.head?).getD 0).toNat
  let n := ((vSolutions.getLast?.bind List.head?).getD 0).toNat
  decide (¬ (m < 1 ∨ n < 1 ∨ m > n ∨ vSolutions.length - 2 ≠ n))

/-- `Solver`: the type of an output script and its solutions, `none` where it returns `false`. -/
def solver (scriptPubKey : CScript) : Option (TxnOutType × List (List UInt8)) :=
  if scriptPubKey.isPayToScriptHash then some (.scripthash, [(scriptPubKey.drop 2).take 20])
  else
    match mTemplates.findSome? fun tplate =>
        (matchTemplate tplate.2 scriptPubKey []).map fun vSolutions => (tplate.1, vSolutions) with
    | none => none
    | some (typeRet, vSolutions) =>
      if typeRet = .multisig ∧ ¬ multisigNumbersOk vSolutions then none else some (typeRet, vSolutions)

def scriptSigArgsExpected (t : TxnOutType) (vSolutions : List (List UInt8)) : Int :=
  match t with
  | .nonstandard | .nullData => -1
  | .pubkey => 1
  | .pubkeyhash => 2
  | .multisig =>
    match vSolutions with
    | (m :: _) :: _ => m.toNat + 1
    | _ => -1
  | .scripthash => 1

/-- `IsStandard`: the type of a standard output script. -/
def isStandard (scriptPubKey : CScript) : Option TxnOutType := do
  let (whichType, vSolutions) ← solver scriptPubKey
  if whichType = .multisig then
    let m := ((vSolutions.head?.bind List.head?).getD 0).toNat
    let n := ((vSolutions.getLast?.bind List.head?).getD 0).toNat
    if n < 1 ∨ n > 3 then none
    else if m < 1 ∨ m > n then none
    else some whichType
  else if whichType = .nonstandard then none
  else some whichType

/-- The push could not have been made with a shorter opcode. -/
def isCanonicalPush (opcode : Nat) (data : List UInt8) : Bool :=
  if opcode > op16 then true
  else if opcode < opPushData1 ∧ 0 < opcode ∧ data.length = 1 ∧ (data.head?.getD 0).toNat ≤ 16 then false
  else if opcode = opPushData1 ∧ data.length < opPushData1 then false
  else if opcode = opPushData2 ∧ data.length ≤ 0xff then false
  else if opcode = opPushData4 ∧ data.length ≤ 0xffff then false
  else true

/-- The loop of `HasCanonicalPushes`; every round takes a byte, so the length of the script is enough fuel. -/
def canonicalPushesLoop : Nat → CScript → Bool
  | 0, _ => true
  | fuel + 1, pc =>
    if pc = [] then true
    else
      match getOp pc with
      | none => false
      | some (opcode, data, pc) => isCanonicalPush opcode data && canonicalPushesLoop fuel pc

def hasCanonicalPushes (script : CScript) : Bool := canonicalPushesLoop script.length script

/-- A template is never one of a script hash, so only the shortcut finds them. -/
theorem solver_eq_scripthash_iff {scriptPubKey : CScript} :
    (∃ vSolutions, solver scriptPubKey = some (.scripthash, vSolutions)) ↔ scriptPubKey.isPayToScriptHash = true := by
  constructor
  · rintro ⟨vSolutions, h⟩
    by_contra hno
    rw [solver, if_neg hno] at h
    cases hfound : mTemplates.findSome? fun tplate =>
        (matchTemplate tplate.2 scriptPubKey []).map fun vSolutions => (tplate.1, vSolutions) with
    | none => simp [hfound] at h
    | some found =>
      obtain ⟨tplate, hmem, hmap⟩ := List.exists_of_findSome?_eq_some hfound
      obtain ⟨sols, -, rfl⟩ := Option.map_eq_some_iff.mp hmap
      have htype : tplate.1 = .scripthash := by
        simp only [hfound] at h
        split at h
        · exact nomatch h
        · exact (Prod.mk.inj (Option.some.inj h)).1
      have hnone : ∀ t ∈ mTemplates, t.1 ≠ .scripthash := by decide
      exact hnone tplate hmem htype
  · intro h
    exact ⟨_, if_pos h⟩

end CScript

/-!
## Merging of signatures (`script.cpp`)

`CombineSignatures` makes one input script of two that different parties have signed. What the two leave on the stack
is compared with the type of the output script. A stack has its top first here.
-/

open Function

/-- The signatures are valid for some of the keys, in their order. -/
def InOrder {α β : Type} (valid : α → β → Prop) (sigs : List α) (keys : List β) : Prop :=
  ∃ used, used.Sublist keys ∧ List.Forall₂ valid sigs used

namespace CScript

def pushAll (values : List (List UInt8)) : CScript := values.reverse.flatMap pushData

/-- What `Solver` leaves in `typeRet` and `vSolutionsRet`, also where it returns `false`: for the sake of the numbers of
`TX_MULTISIG` it does so without clearing them. -/
def solverRet (scriptPubKey : CScript) : TxnOutType × List (List UInt8) :=
  if scriptPubKey.isPayToScriptHash then (.scripthash, [(scriptPubKey.drop 2).take 20])
  else
    (mTemplates.findSome? fun tplate =>
      (matchTemplate tplate.2 scriptPubKey []).map fun vSolutions => (tplate.1, vSolutions)).getD (.nonstandard, [])

section Combine

variable (checkSig : List UInt8 → List UInt8 → CScript → Bool)

/-- The elements of `allsigs`, in the order of the set. -/
def allSigs (sigs1 sigs2 : List (List UInt8)) : List (List UInt8) :=
  ((sigs1 ++ sigs2).filter (· ≠ [])).dedup.insertionSort (· ≤ ·)

/-- The loop over the keys for one signature: it goes to the first key that it is valid for and that has none. -/
def matchKey (scriptPubKey : CScript) (sig : List UInt8) (sigs : List UInt8 → Option (List UInt8)) :
    List (List UInt8) → (List UInt8 → Option (List UInt8))
  | [] => sigs
  | pubkey :: rest =>
    if (sigs pubkey).isSome then matchKey scriptPubKey sig sigs rest
    else if checkSig sig pubkey scriptPubKey then update sigs pubkey (some sig)
    else matchKey scriptPubKey sig sigs rest

/-- The loop that builds the merged script: the signatures that it pushes. -/
def mergeSigs (sigs : List UInt8 → Option (List UInt8)) (nSigsRequired : Nat) :
    List (List UInt8) → Nat → List (List UInt8)
  | [], _ => []
  | pubkey :: rest, nSigsHave =>
    if nSigsHave < nSigsRequired then
      match sigs pubkey with
      | some sig => sig :: mergeSigs sigs nSigsRequired rest (nSigsHave + 1)
      | none => mergeSigs sigs nSigsRequired rest nSigsHave
    else []

/-- `CombineMultisig`; `none` where its assertion fails. -/
def combineMultisig (scriptPubKey : CScript) (vSolutions sigs1 sigs2 : List (List UInt8)) : Option CScript :=
  if vSolutions.length ≤ 1 then none
  else
    let nSigsRequired := ((vSolutions.headD []).headD 0).toNat
    let pubkeys := (vSolutions.drop 1).take (vSolutions.length - 2)
    let sigs := (allSigs sigs1 sigs2).foldl (fun sigs sig => matchKey checkSig scriptPubKey sig sigs pubkeys)
      fun _ => none
    let merged := mergeSigs sigs nSigsRequired pubkeys 0
    some (0 :: (merged.flatMap pushData ++ List.replicate (nSigsRequired - merged.length) 0))

/-- `CombineSignatures` on the stacks. -/
def combineStacks : List (List UInt8) → List (List UInt8) → CScript → TxnOutType → List (List UInt8) → Option CScript
  | sigs1, sigs2, _, .nonstandard, _ => some (if sigs1.length ≥ sigs2.length then pushAll sigs1 else pushAll sigs2)
  | sigs1, sigs2, _, .nullData, _ => some (if sigs1.length ≥ sigs2.length then pushAll sigs1 else pushAll sigs2)
  | sigs1, sigs2, _, .pubkey, _ => some (if sigs1.getLast?.getD [] = [] then pushAll sigs2 else pushAll sigs1)
  | sigs1, sigs2, _, .pubkeyhash, _ => some (if sigs1.getLast?.getD [] = [] then pushAll sigs2 else pushAll sigs1)
  | sigs1, sigs2, scriptPubKey, .multisig, vSolutions => combineMultisig checkSig scriptPubKey vSolutions sigs1 sigs2
  | [], sigs2, _, .scripthash, _ => some (pushAll sigs2)
  | sigs1, [], _, .scripthash, _ => some (if sigs1.headD [] = [] then pushAll [] else pushAll sigs1)
  | spk :: sigs1, spk2 :: sigs2, _, .scripthash, _ =>
    if spk = [] then some (pushAll (spk2 :: sigs2))
    else if spk2 = [] then some (pushAll (spk :: sigs1))
    else do
      let result ← combineStacks sigs1 sigs2 spk (solverRet spk).1 (solverRet spk).2
      return result ++ pushData spk

/-- The stack that `EvalScript` leaves; what it leaves where it fails is `failed`. -/
def evalStack (env : ScriptEnv) (failed : CScript → List (List UInt8)) (scriptSig : CScript) : List (List UInt8) :=
  match (evalScript env (txRules env 0) [] scriptSig 0).1 with
  | .ok stack => stack
  | .error _ => failed scriptSig

/-- `CombineSignatures`; `emptyEnv` belongs to the empty transaction that the two input scripts are evaluated with. -/
def combineSignatures (emptyEnv : ScriptEnv) (failed : CScript → List (List UInt8))
    (scriptPubKey scriptSig1 scriptSig2 : CScript) : Option CScript :=
  combineStacks checkSig (evalStack emptyEnv failed scriptSig1) (evalStack emptyEnv failed scriptSig2) scriptPubKey
    (solverRet scriptPubKey).1 (solverRet scriptPubKey).2

end Combine

section Kept

variable (env : ScriptEnv) (scriptPubKey : CScript) (vSolutions stack1 stack2 : List (List UInt8))

/-- The keys of an output script of the type `TX_MULTISIG`, and how many signatures it takes. -/
def keysOf : List (List UInt8) := (vSolutions.drop 1).take (vSolutions.length - 2)

def requiredOf : Nat := ((vSolutions.headD []).headD 0).toNat

/-- A key has a valid signature on one of the two stacks. -/
def isSigned (key : List UInt8) : Bool :=
  (stack1 ++ stack2).any fun sig => decide (sig ≠ []) && env.checkSig sig key scriptPubKey

/-- No signature is valid for two of the keys. -/
def Unambiguous : Prop := ∀ sig ∈ stack1 ++ stack2, ∀ key ∈ keysOf vSolutions, ∀ key' ∈ keysOf vSolutions,
  env.checkSig sig key scriptPubKey = true → env.checkSig sig key' scriptPubKey = true → key = key'

/-- The keys and the valid signatures are encoded as the interpreter wants them. -/
structure Encoded : Prop where
  keys : ∀ key ∈ keysOf vSolutions, isCompressedOrUncompressedPubKey key = true
  sigs : ∀ sig ∈ stack1 ++ stack2, sig ≠ [] → ∀ key ∈ keysOf vSolutions, env.checkSig sig key scriptPubKey = true →
    isLowDERSignature env sig = true ∧ isDefinedHashtypeSignature sig = true

/-- The stack with the signatures that have been found, and placeholders for those that are missing. -/
def mergedStack (found : List (List UInt8)) : List (List UInt8) :=
  List.replicate (requiredOf vSolutions - found.length) [] ++ (found.reverse ++ [[]])

/-- The merged signatures are valid ones of the two stacks, in the order of the keys, and no more than are required:
as many as there are keys with a valid signature, where that is not more. -/
def MultisigKept (inner : List (List UInt8)) : Prop :=
  ∃ found, inner = mergedStack vSolutions found ∧
    InOrder (fun sig key => env.checkSig sig key scriptPubKey = true) found (keysOf vSolutions) ∧
    (∀ sig ∈ found, sig ∈ stack1 ++ stack2 ∧ sig ≠ []) ∧ found.length ≤ requiredOf vSolutions ∧
    (Unambiguous env scriptPubKey vSolutions stack1 stack2 →
      found.length = min (requiredOf vSolutions) ((keysOf vSolutions).countP (isSigned env scriptPubKey stack1 stack2)))

/-- The signatures of both stacks suffice. -/
structure Suffices : Prop where
  unambiguous : Unambiguous env scriptPubKey vSolutions stack1 stack2
  encoded : Encoded env scriptPubKey vSolutions stack1 stack2
  enough : requiredOf vSolutions ≤ (keysOf vSolutions).countP (isSigned env scriptPubKey stack1 stack2)

/-- What is kept on the stack `inner`, where `fTrue` says whether an input script is accepted, and `combined` is the one
that is returned. -/
def Kept (whichType : TxnOutType) (inner : List (List UInt8)) (fTrue : CScript → Prop)
    (scriptSig1 scriptSig2 combined : CScript) : Prop :=
  match whichType with
  | .multisig => MultisigKept env scriptPubKey vSolutions stack1 stack2 inner ∧
      (Suffices env scriptPubKey vSolutions stack1 stack2 → fTrue combined)
  | .pubkey | .pubkeyhash =>
    if stack1.getLast?.getD [] = [] then inner = stack2 ∧ (combined.length ≤ 10000 → (fTrue combined ↔ fTrue scriptSig2))
    else inner = stack1 ∧ (combined.length ≤ 10000 → (fTrue combined ↔ fTrue scriptSig1))
  | .nullData => ¬fTrue scriptSig1 ∧ ¬fTrue scriptSig2
  | .nonstandard | .scripthash => True

end Kept

end CScript

end PupaCoin
