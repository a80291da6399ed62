import PupaCoin.Chain.Transaction
import Mathlib.Data.List.Perm.Subperm

/-!
# Signing the final transaction of a mixing session (`mnengine.cpp`, `mnengine.h`)

A client of a mixing session has entries: inputs that it gives and outputs that it expects. The masternode of the
session proposes a final transaction, and the client signs its inputs in it when the check of its outputs passes.
-/

namespace PupaCoin

structure CTxDSIn extends CTxIn where
  prevPubKey : CScript
deriving DecidableEq

structure CMNengineEntry where
  sev : List CTxDSIn
  vout : List CTxOut
deriving DecidableEq

/-- `CScript::ToString` and the signature script that `SignSignature(keystore, prevPubKey, tx, nIn, ...)` leaves in
    input `nIn`. -/
structure MixingEnv where
  toString : CScript → String
  signSignature : CScript → CTransaction → Nat → CScript

structure CMNenginePool where
  entries : List CMNengineEntry
  finalTransaction : CTransaction
deriving DecidableEq

/-- What the signing loop has so far: the transaction, and its signed inputs with the entries that they were signed
    for. -/
abbrev SignState := CTransaction × List (CMNengineEntry × CTxIn)

/-- What a call of `SignFinalTransaction` returns, leaves and sends: the signed inputs of a `dss` message. -/
structure SignOutcome where
  result : Bool
  pool : CMNenginePool
  dss : Option (List (CMNengineEntry × CTxIn))
deriving DecidableEq

namespace CMNengineEntry

/-- `finalTransaction.vout[i]` against the expected outputs: those with a script of the same text are counted, and the
    value is added for each. -/
def matchOutput (env : MixingEnv) (vout : List CTxOut) (found : Nat × Int) (out : CTxOut) : Except Stop (Nat × Int) :=
  vout.foldlM (fun found o =>
    if env.toString out.scriptPubKey = env.toString o.scriptPubKey then do
      let nValue1 ← addI64 found.2 out.nValue
      return (found.1 + 1, nValue1)
    else return found) found

/-- The outputs of the final transaction are what the entry wants. -/
def outputsCorrect (env : MixingEnv) (e : CMNengineEntry) (vout : List CTxOut) : Except Stop Bool := do
  let (foundOutputs, nValue1) ← vout.foldlM (matchOutput env e.vout) (0, 0)
  let nValue2 ← e.vout.foldlM (fun nValue2 o => addI64 nValue2 o.nValue) 0
  return !(decide (foundOutputs < e.vout.length) || decide (nValue1 ≠ nValue2))

end CMNengineEntry

/-- The last input of the final transaction that is the client's. -/
def findMine (s : CTxDSIn) (vin : List CTxIn) : Option Nat :=
  vin.zipIdx.foldl (fun mine (txin, i) => if txin = s.toCTxIn then some i else mine) none

namespace CMNenginePool

def signInput (env : MixingEnv) (e : CMNengineEntry) (st : SignState) (s : CTxDSIn) : Except Stop SignState :=
  match findMine s st.1.vin with
  | none => .ok st
  | some mine => do
    rejectIf (!(← e.outputsCorrect env st.1.vout)) 0
      "CMNenginePool::Sign - My entries are not correct! Refusing to sign."
    let txin ← orUndefined st.1.vin[mine]? "finalTransaction.vin[mine]"
    let signed := { txin with scriptSig := env.signSignature s.prevPubKey st.1 mine }
    return ({ st.1 with vin := st.1.vin.set mine signed }, st.2 ++ [(e, signed)])

def signEntry (env : MixingEnv) (st : SignState) (e : CMNengineEntry) : Except Stop SignState :=
  e.sev.foldlM (signInput env e) st

def setNull (pool : CMNenginePool) : CMNenginePool where
  entries := []
  finalTransaction := { pool.finalTransaction with vin := [], vout := [] }

/-- `SignFinalTransaction`; `node` says whether there is one to send to. -/
def signFinalTransaction (env : MixingEnv) (fMasterNode node : Bool) (pool : CMNenginePool)
    (finalTransactionNew : CTransaction) : Except Stop SignOutcome :=
  if fMasterNode then .ok { result := false, pool, dss := none }
  else
    match pool.entries.foldlM (signEntry env) (finalTransactionNew, []) with
    | .ok (finalTransaction, sigs) =>
      .ok { result := true, pool := { pool with finalTransaction }
            dss := if !sigs.isEmpty && node then some sigs else none }
    | .error (.reject _ _) =>
      .ok { result := false, pool := setNull { pool with finalTransaction := finalTransactionNew }, dss := none }
    | .error e => .error e

end CMNenginePool

/-- The values are `int64_t`. -/
def ValidOutputs (vout : List CTxOut) : Prop := ∀ out ∈ vout, -2 ^ 63 ≤ out.nValue ∧ out.nValue < 2 ^ 63

/-- Whatever final transaction is proposed, it has the expected outputs of every entry for which a signature is
    sent. -/
def KeepsMoney (env : MixingEnv) (pool : CMNenginePool) : Prop :=
  ∀ fMasterNode node finalTransactionNew outcome sigs, ValidOutputs finalTransactionNew.vout →
    pool.signFinalTransaction env fMasterNode node finalTransactionNew = .ok outcome → outcome.dss = some sigs →
    ∀ sig ∈ sigs, sig.1.vout.Subperm finalTransactionNew.vout

/-- No entry that gives and expects something has outputs for which its check passes. -/
def NothingPasses (env : MixingEnv) (pool : CMNenginePool) : Prop :=
  ∀ e ∈ pool.entries, e.sev ≠ [] → e.vout ≠ [] → ∀ vout, ValidOutputs vout → e.outputsCorrect env vout ≠ .ok true

def SpendApart (entries : List CMNengineEntry) : Prop :=
  entries.Pairwise fun e e' => ∀ s ∈ e.sev, ∀ s' ∈ e'.sev, s.prevout ≠ s'.prevout

end PupaCoin
