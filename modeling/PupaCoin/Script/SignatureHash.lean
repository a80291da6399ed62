import PupaCoin.Chain.Serialize
import PupaCoin.Script.Interpreter

/-!
# The hash that a signature signs (`script.cpp`)

`SignatureHash` edits a copy of the transaction as the hash type tells and hashes its serialization with the type.
-/

namespace PupaCoin

def sighashAll : UInt32 := 1
def sighashNone : UInt32 := 2
def sighashSingle : UInt32 := 3
def sighashAnyoneCanPay : UInt32 := 0x80

/-- `nHashType & 0x1f`. -/
def sighashBase (nHashType : UInt32) : UInt32 := nHashType &&& 0x1f

/-- `nHashType & SIGHASH_ANYONECANPAY`. -/
def isAnyoneCanPay (nHashType : UInt32) : Bool := nHashType &&& sighashAnyoneCanPay != 0

/-- `CTxOut::SetNull`. -/
def CTxOut.null : CTxOut := ⟨-1, []⟩

/-- The script codes are compared without this opcode. -/
def opCodeSeparator : CScript := [0xab]

section Edits

variable (nIn : Nat)

/-- The signatures of the inputs are blanked out, and the script code takes the place of the signed one. -/
def blankSignatures (scriptCode : CScript) (vin : List CTxIn) : List CTxIn :=
  (vin.map fun txin => { txin with scriptSig := [] }).modify nIn fun txin => { txin with scriptSig := scriptCode }

def clearSequences (vin : List CTxIn) : List CTxIn :=
  vin.mapIdx fun i txin => if i ≠ nIn then { txin with nSequence := 0 } else txin

/-- Only the output at the same index is locked in. -/
def lockInOutput (vout : List CTxOut) : List CTxOut :=
  (vout.take (nIn + 1)).mapIdx fun i txout => if i < nIn then CTxOut.null else txout

/-- `txTmp.vin[0] = txTmp.vin[nIn]; txTmp.vin.resize(1)`. -/
def keepInput (vin : List CTxIn) : List CTxIn :=
  match vin[nIn]? with
  | some txin => (vin.set 0 txin).take 1
  | none => vin

end Edits

/-- The transaction that is serialized; there is none where an index is out of range. -/
def signatureTx (scriptCode : CScript) (txTo : CTransaction) (nIn : Nat) (nHashType : UInt32) : Option CTransaction :=
  if nIn ≥ txTo.vin.length then none
  else
    let txTmp := { txTo with vin := blankSignatures nIn (scriptCode.findAndDelete opCodeSeparator) txTo.vin }
    let edited :=
      if sighashBase nHashType = sighashNone then
        some { txTmp with vout := [], vin := clearSequences nIn txTmp.vin }
      else if sighashBase nHashType = sighashSingle then
        if nIn ≥ txTmp.vout.length then none
        else some { txTmp with vout := lockInOutput nIn txTmp.vout, vin := clearSequences nIn txTmp.vin }
      else some txTmp
    edited.map fun txTmp =>
      if isAnyoneCanPay nHashType then { txTmp with vin := keepInput nIn txTmp.vin } else txTmp

def signaturePreimage (scriptCode : CScript) (txTo : CTransaction) (nIn : Nat) (nHashType : UInt32) :
    Option (List UInt8) :=
  (signatureTx scriptCode txTo nIn nHashType).map fun txTmp => txTmp.serialize ++ writeUInt32 nHashType

def signatureHash (hash : List UInt8 → UInt256) (scriptCode : CScript) (txTo : CTransaction) (nIn : Nat)
    (nHashType : UInt32) : UInt256 :=
  match signaturePreimage scriptCode txTo nIn nHashType with
  | none => 1
  | some preimage => hash preimage

/-- The values are of the types of the fields, and the loops over inputs and outputs count with `unsigned int`. -/
structure CTransaction.Representable (tx : CTransaction) : Prop where
  nVersion : LittleEndian.InRange 4 tx.nVersion
  vin : tx.vin.length < 2 ^ 32
  vout : tx.vout.length < 2 ^ 32
  txouts : ∀ txout ∈ tx.vout, LittleEndian.InRange 8 txout.nValue ∧ txout.scriptPubKey.length < 2 ^ 64

/-- The transactions of two calls agree on what the hash type says. -/
structure Commitment (nHashType : UInt32) (nIn : Nat) (scriptCode scriptCode' : CScript) (tx tx' : CTransaction) :
    Prop where
  nVersion : tx.nVersion = tx'.nVersion
  nTime : tx.nTime = tx'.nTime
  nLockTime : tx.nLockTime = tx'.nLockTime
  input : ∃ txin txin', tx.vin[nIn]? = some txin ∧ tx'.vin[nIn]? = some txin' ∧
    txin.prevout = txin'.prevout ∧ txin.nSequence = txin'.nSequence
  scriptCode : scriptCode.findAndDelete opCodeSeparator = scriptCode'.findAndDelete opCodeSeparator
  outpoints : isAnyoneCanPay nHashType = false → tx.vin.map CTxIn.prevout = tx'.vin.map CTxIn.prevout
  sequences : isAnyoneCanPay nHashType = false → sighashBase nHashType ≠ sighashNone →
    sighashBase nHashType ≠ sighashSingle → tx.vin.map CTxIn.nSequence = tx'.vin.map CTxIn.nSequence
  outputs : sighashBase nHashType ≠ sighashNone → sighashBase nHashType ≠ sighashSingle → tx.vout = tx'.vout
  output : sighashBase nHashType = sighashSingle → ∃ txout, tx.vout[nIn]? = some txout ∧ tx'.vout[nIn]? = some txout

/-- Two transactions that differ in nothing but the signature scripts. -/
structure SameButSignatures (tx tx' : CTransaction) : Prop where
  nVersion : tx.nVersion = tx'.nVersion
  nTime : tx.nTime = tx'.nTime
  vin : tx.vin.map (fun txin => (txin.prevout, txin.nSequence)) =
    tx'.vin.map (fun txin => (txin.prevout, txin.nSequence))
  vout : tx.vout = tx'.vout
  nLockTime : tx.nLockTime = tx'.nLockTime

/-- Equal preimages commit to equal parts, and the hash does not depend on the signature scripts. -/
structure SignatureHashCommits (hash : List UInt8 → UInt256) : Prop where
  commits : ∀ (nHashType : UInt32) (nIn : Nat) (scriptCode scriptCode' : CScript) (tx tx' : CTransaction)
    (preimage : List UInt8), tx.Representable → tx'.Representable → scriptCode.length < 2 ^ 64 →
    scriptCode'.length < 2 ^ 64 → signaturePreimage scriptCode tx nIn nHashType = some preimage →
    signaturePreimage scriptCode' tx' nIn nHashType = some preimage →
    Commitment nHashType nIn scriptCode scriptCode' tx tx'
  signatures : ∀ (nHashType : UInt32) (nIn : Nat) (scriptCode : CScript) (tx tx' : CTransaction),
    SameButSignatures tx tx' →
    signatureHash hash scriptCode tx nIn nHashType = signatureHash hash scriptCode tx' nIn nHashType

end PupaCoin
