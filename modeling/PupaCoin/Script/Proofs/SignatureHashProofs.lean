import PupaCoin.Script.Proofs.SolverProofs
import PupaCoin.Script.SignatureHash

/-!
# Proofs: what a signature commits to

The serialization of a transaction is read back in one way, so equal preimages come from equal edited transactions. The
edits keep the parts that the hash type is about.
-/

namespace PupaCoin

open Codec LittleEndian

theorem prefixFree_compactSize : PrefixFree (· < 2 ^ 64) writeCompactSize := by
  intro n n' rest rest' hn hn' heq
  rw [writeCompactSize_eq, writeCompactSize_eq, List.append_assoc, List.append_assoc] at heq
  have hhead : LittleEndian.ofNat 1 (sizeMark n) = LittleEndian.ofNat 1 (sizeMark n') :=
    List.append_inj_left heq (by rw [length_ofNat, length_ofNat])
  have hmark : sizeMark n = sizeMark n' := by
    rw [← toNat_ofNat (sizeMark_lt n), hhead, toNat_ofNat (sizeMark_lt n')]
  have hbyte : sizeMark n < 256 := by
    have hlt := sizeMark_lt n
    omega
  refine (faithful_sizeBehind hbyte).prefixFree n n' rest rest' ⟨rfl, by omega⟩ ⟨hmark.symm, by omega⟩ ?_
  exact List.append_inj_right heq (by rw [length_ofNat, length_ofNat])

theorem prefixFree_bytes : PrefixFree (fun v : List UInt8 => v.length < 2 ^ 64) writeBytes := by
  intro v v' rest rest' hv hv' heq
  rw [writeBytes, writeBytes, List.append_assoc, List.append_assoc] at heq
  obtain ⟨hlength, htail⟩ := prefixFree_compactSize _ _ _ _ hv hv' heq
  exact List.append_inj htail hlength

theorem prefixFree_vector {α : Type} {valid : α → Prop} {write : α → List UInt8} (h : PrefixFree valid write) :
    PrefixFree (fun v : List α => v.length < 2 ^ 64 ∧ ∀ x ∈ v, valid x) (writeVector write) := by
  intro v v' rest rest' hv hv' heq
  rw [writeVector, writeVector, List.append_assoc, List.append_assoc] at heq
  obtain ⟨hlength, htail⟩ := prefixFree_compactSize _ _ _ _ hv.1 hv'.1 heq
  exact h.flatMap hlength hv.2 hv'.2 htail

theorem prefixFree_txIn : PrefixFree (fun txin : CTxIn => txin.scriptSig.length < 2 ^ 64) CTxIn.serialize := by
  intro txin txin' rest rest' h h' heq
  rw [CTxIn.serialize, CTxIn.serialize, List.append_assoc, List.append_assoc, List.append_assoc,
    List.append_assoc] at heq
  obtain ⟨hprevout, heq⟩ := COutPoint.faithful.prefixFree _ _ _ _ trivial trivial heq
  obtain ⟨hsig, heq⟩ := prefixFree_bytes _ _ _ _ h h' heq
  obtain ⟨hsequence, hrest⟩ := faithful_uint32.prefixFree _ _ _ _ trivial trivial heq
  cases txin
  cases txin'
  dsimp only at hprevout hsig hsequence
  rw [hprevout, hsig, hsequence]
  exact ⟨rfl, hrest⟩

theorem prefixFree_txOut : PrefixFree (fun txout : CTxOut => InRange 8 txout.nValue ∧
    txout.scriptPubKey.length < 2 ^ 64) CTxOut.serialize := by
  intro txout txout' rest rest' h h' heq
  rw [CTxOut.serialize, CTxOut.serialize, List.append_assoc, List.append_assoc] at heq
  obtain ⟨hvalue, heq⟩ := (faithful_signed 8).prefixFree _ _ _ _ h.1 h'.1 heq
  obtain ⟨hscript, hrest⟩ := prefixFree_bytes _ _ _ _ h.2 h'.2 heq
  cases txout
  cases txout'
  dsimp only at hvalue hscript
  rw [hvalue, hscript]
  exact ⟨rfl, hrest⟩

/-- A transaction whose signature scripts have a size that is written. -/
def CTransaction.Writable (tx : CTransaction) : Prop :=
  tx.Representable ∧ ∀ txin ∈ tx.vin, txin.scriptSig.length < 2 ^ 64

theorem prefixFree_transaction : PrefixFree CTransaction.Writable CTransaction.serialize := by
  intro tx tx' rest rest' h h' heq
  have hsize : ∀ {n : Nat}, n < 2 ^ 32 → n < 2 ^ 64 := fun hn => by omega
  simp only [CTransaction.serialize, List.append_assoc] at heq
  obtain ⟨hversion, heq⟩ := (faithful_signed 4).prefixFree _ _ _ _ h.1.nVersion h'.1.nVersion heq
  obtain ⟨htime, heq⟩ := faithful_uint32.prefixFree _ _ _ _ trivial trivial heq
  obtain ⟨hvin, heq⟩ := prefixFree_vector prefixFree_txIn _ _ _ _ ⟨hsize h.1.vin, h.2⟩ ⟨hsize h'.1.vin, h'.2⟩ heq
  obtain ⟨hvout, heq⟩ := prefixFree_vector prefixFree_txOut _ _ _ _ ⟨hsize h.1.vout, h.1.txouts⟩
    ⟨hsize h'.1.vout, h'.1.txouts⟩ heq
  obtain ⟨hlock, hrest⟩ := faithful_uint32.prefixFree _ _ _ _ trivial trivial heq
  cases tx
  cases tx'
  dsimp only at hversion htime hvin hvout hlock
  rw [hversion, htime, hvin, hvout, hlock]
  exact ⟨rfl, hrest⟩

section Delete

variable {b pc script : CScript}

theorem length_deleteHere (fuel : Nat) : (CScript.deleteHere b fuel pc).length ≤ pc.length := by
  induction fuel generalizing pc with
  | zero => exact le_rfl
  | succ fuel ih =>
    rw [CScript.deleteHere]
    split_ifs
    · refine ih.trans ?_
      rw [List.length_drop]
      exact Nat.sub_le _ _
    · exact le_rfl

theorem length_deleteLoop (fuel : Nat) : (CScript.deleteLoop b fuel pc).length ≤ pc.length := by
  induction fuel generalizing pc with
  | zero => exact le_rfl
  | succ fuel ih =>
    rw [CScript.deleteLoop]
    have hhere : (CScript.deleteHere b pc.length pc).length ≤ pc.length := length_deleteHere pc.length
    split
    · exact hhere
    case h_2 hop =>
      rename_i rest
      have hrest := CScript.length_of_getOp hop
      have hloop : (CScript.deleteLoop b fuel rest).length ≤ rest.length := ih
      rw [List.length_append, List.length_take]
      omega

theorem length_findAndDelete : (script.findAndDelete b).length ≤ script.length := by
  rw [CScript.findAndDelete]
  split_ifs
  · exact le_rfl
  · exact length_deleteLoop _

end Delete

section Edits

variable {nIn : Nat} {code : CScript} {vin : List CTxIn} {vout : List CTxOut}

theorem getElem?_blankSignatures (i : Nat) : (blankSignatures nIn code vin)[i]? =
    vin[i]?.map fun txin => { txin with scriptSig := if nIn = i then code else [] } := by
  rw [blankSignatures, List.getElem?_modify, List.getElem?_map]
  cases vin[i]? with
  | none => rfl
  | some txin =>
    by_cases hi : nIn = i
    · simp only [hi, if_true, Option.map_some, Option.map_eq_map]
    · simp only [hi, if_false, Option.map_some, Option.map_eq_map]

theorem map_blankSignatures {β : Type} {f : CTxIn → β} (hf : ∀ txin sig, f { txin with scriptSig := sig } = f txin) :
    (blankSignatures nIn code vin).map f = vin.map f := by
  refine List.ext_getElem? fun i => ?_
  rw [List.getElem?_map, getElem?_blankSignatures, List.getElem?_map, Option.map_map]
  exact congrArg (fun g => vin[i]?.map g) (funext fun txin => hf txin _)

theorem getElem?_clearSequences (i : Nat) : (clearSequences nIn vin)[i]? =
    vin[i]?.map fun txin => if i ≠ nIn then { txin with nSequence := 0 } else txin := List.getElem?_mapIdx

theorem map_clearSequences {β : Type} {f : CTxIn → β} (hf : ∀ txin n, f { txin with nSequence := n } = f txin) :
    (clearSequences nIn vin).map f = vin.map f := by
  refine List.ext_getElem? fun i => ?_
  rw [List.getElem?_map, getElem?_clearSequences, List.getElem?_map, Option.map_map]
  refine congrArg (fun g => vin[i]?.map g) (funext fun txin => ?_)
  rw [Function.comp_apply]
  split_ifs
  · exact hf txin 0
  · rfl

theorem getElem?_lockInOutput : (lockInOutput nIn vout)[nIn]? = vout[nIn]? := by
  rw [lockInOutput, List.getElem?_mapIdx, List.getElem?_take_of_lt (Nat.lt_succ_self nIn)]
  simp

theorem keepInput_of_some {txin : CTxIn} (h : vin[nIn]? = some txin) : keepInput nIn vin = [txin] := by
  rw [keepInput, h]
  cases vin with
  | nil => cases h
  | cons first vin => rfl

end Edits

section SignatureTx

variable {scriptCode scriptCode' : CScript} {tx tx' txTmp : CTransaction} {nIn : Nat} {nHashType : UInt32}

/-- What the edits make of the inputs and of the outputs. -/
structure Edited (scriptCode : CScript) (tx : CTransaction) (nIn : Nat) (nHashType : UInt32) (txTmp : CTransaction)
    (vin : List CTxIn) : Prop where
  lt : nIn < tx.vin.length
  nVersion : txTmp.nVersion = tx.nVersion
  nTime : txTmp.nTime = tx.nTime
  nLockTime : txTmp.nLockTime = tx.nLockTime
  inputs : vin = (if sighashBase nHashType = sighashNone ∨ sighashBase nHashType = sighashSingle then
    clearSequences nIn (blankSignatures nIn (scriptCode.findAndDelete opCodeSeparator) tx.vin)
    else blankSignatures nIn (scriptCode.findAndDelete opCodeSeparator) tx.vin)
  vin : txTmp.vin = if isAnyoneCanPay nHashType then keepInput nIn vin else vin
  vout : sighashBase nHashType ≠ sighashNone → sighashBase nHashType ≠ sighashSingle → txTmp.vout = tx.vout
  none : sighashBase nHashType = sighashNone → txTmp.vout = []
  single : sighashBase nHashType = sighashSingle → nIn < tx.vout.length ∧ txTmp.vout = lockInOutput nIn tx.vout

/-- The cases are those of the hash type. -/
theorem signatureTx_edited (h : signatureTx scriptCode tx nIn nHashType = some txTmp) :
    ∃ vin, Edited scriptCode tx nIn nHashType txTmp vin := by
  have hne : sighashNone ≠ sighashSingle := by decide
  unfold signatureTx at h
  by_cases hin : nIn ≥ tx.vin.length
  · rw [if_pos hin] at h
    cases h
  rw [if_neg hin] at h
  have hlt : nIn < tx.vin.length := Nat.lt_of_not_le hin
  dsimp only at h
  by_cases hnone : sighashBase nHashType = sighashNone
  · rw [if_pos hnone, Option.map_some, Option.some.injEq] at h
    refine ⟨_, hlt, ?_, ?_, ?_, (if_pos (Or.inl hnone)).symm, ?_, fun h => absurd hnone h, fun _ => ?_,
      fun h => absurd (hnone.symm.trans h) hne⟩ <;> rw [← h] <;> split_ifs <;> rfl
  · by_cases hsingle : sighashBase nHashType = sighashSingle
    · rw [if_neg hnone, if_pos hsingle] at h
      by_cases hout : nIn ≥ tx.vout.length
      · rw [if_pos hout] at h
        cases h
      · rw [if_neg hout, Option.map_some, Option.some.injEq] at h
        refine ⟨_, hlt, ?_, ?_, ?_, (if_pos (Or.inr hsingle)).symm, ?_, fun _ h => absurd hsingle h,
          fun h => absurd h hnone, fun _ => ⟨Nat.lt_of_not_le hout, ?_⟩⟩ <;> rw [← h] <;> split_ifs <;> rfl
    · rw [if_neg hnone, if_neg hsingle, Option.map_some, Option.some.injEq] at h
      refine ⟨_, hlt, ?_, ?_, ?_, (if_neg (not_or.mpr ⟨hnone, hsingle⟩)).symm, ?_, fun _ _ => ?_,
        fun h => absurd h hnone, fun h => absurd h hsingle⟩ <;> rw [← h] <;> split_ifs <;> rfl

namespace Edited

variable {vin vin' : List CTxIn}

theorem signed (h : Edited scriptCode tx nIn nHashType txTmp vin) : ∃ txin, tx.vin[nIn]? = some txin ∧
    vin[nIn]? = some { txin with scriptSig := scriptCode.findAndDelete opCodeSeparator } := by
  obtain ⟨txin, htxin⟩ : ∃ txin, tx.vin[nIn]? = some txin := ⟨_, List.getElem?_eq_getElem h.lt⟩
  have hblank : (blankSignatures nIn (scriptCode.findAndDelete opCodeSeparator) tx.vin)[nIn]? =
      some { txin with scriptSig := scriptCode.findAndDelete opCodeSeparator } := by
    rw [getElem?_blankSignatures, htxin, Option.map_some, if_pos rfl]
  refine ⟨txin, htxin, ?_⟩
  rw [h.inputs]
  split_ifs
  · rw [getElem?_clearSequences, hblank, Option.map_some, if_neg (not_not.mpr rfl)]
  · exact hblank

theorem signed_serialized (h : Edited scriptCode tx nIn nHashType txTmp vin) : ∃ txin, tx.vin[nIn]? = some txin ∧
    txTmp.vin[if isAnyoneCanPay nHashType then 0 else nIn]? =
      some { txin with scriptSig := scriptCode.findAndDelete opCodeSeparator } := by
  obtain ⟨txin, htxin, hsigned⟩ := h.signed
  refine ⟨txin, htxin, ?_⟩
  rw [h.vin]
  split_ifs
  · rw [keepInput_of_some hsigned]
    rfl
  · exact hsigned

theorem map_prevout (h : Edited scriptCode tx nIn nHashType txTmp vin) (hall : isAnyoneCanPay nHashType = false) :
    txTmp.vin.map CTxIn.prevout = tx.vin.map CTxIn.prevout := by
  rw [h.vin, if_neg (Bool.not_eq_true _ ▸ hall), h.inputs]
  split_ifs
  · rw [map_clearSequences fun _ _ => rfl, map_blankSignatures fun _ _ => rfl]
  · exact map_blankSignatures fun _ _ => rfl

theorem map_nSequence (h : Edited scriptCode tx nIn nHashType txTmp vin) (hall : isAnyoneCanPay nHashType = false)
    (hnone : sighashBase nHashType ≠ sighashNone) (hsingle : sighashBase nHashType ≠ sighashSingle) :
    txTmp.vin.map CTxIn.nSequence = tx.vin.map CTxIn.nSequence := by
  rw [h.vin, if_neg (Bool.not_eq_true _ ▸ hall), h.inputs, if_neg (not_or.mpr ⟨hnone, hsingle⟩)]
  exact map_blankSignatures fun _ _ => rfl

theorem commitment (h : Edited scriptCode tx nIn nHashType txTmp vin)
    (h' : Edited scriptCode' tx' nIn nHashType txTmp vin') :
    Commitment nHashType nIn scriptCode scriptCode' tx tx' where
  nVersion := h.nVersion.symm.trans h'.nVersion
  nTime := h.nTime.symm.trans h'.nTime
  nLockTime := h.nLockTime.symm.trans h'.nLockTime
  input := by
    obtain ⟨txin, htxin, hsigned⟩ := h.signed_serialized
    obtain ⟨txin', htxin', hsigned'⟩ := h'.signed_serialized
    rw [hsigned, Option.some.injEq, CTxIn.mk.injEq] at hsigned'
    exact ⟨txin, txin', htxin, htxin', hsigned'.1, hsigned'.2.2⟩
  scriptCode := by
    obtain ⟨txin, -, hsigned⟩ := h.signed_serialized
    obtain ⟨txin', -, hsigned'⟩ := h'.signed_serialized
    rw [hsigned, Option.some.injEq, CTxIn.mk.injEq] at hsigned'
    exact hsigned'.2.1
  outpoints hall := (h.map_prevout hall).symm.trans (h'.map_prevout hall)
  sequences hall hnone hsingle :=
    (h.map_nSequence hall hnone hsingle).symm.trans (h'.map_nSequence hall hnone hsingle)
  outputs hnone hsingle := (h.vout hnone hsingle).symm.trans (h'.vout hnone hsingle)
  output hsingle := by
    obtain ⟨hlt, hvout⟩ := h.single hsingle
    obtain ⟨-, hvout'⟩ := h'.single hsingle
    obtain ⟨txout, htxout⟩ : ∃ txout, tx.vout[nIn]? = some txout := ⟨_, List.getElem?_eq_getElem hlt⟩
    refine ⟨txout, htxout, ?_⟩
    rw [← getElem?_lockInOutput, ← hvout', hvout, getElem?_lockInOutput]
    exact htxout

theorem scriptSig_mem (h : Edited scriptCode tx nIn nHashType txTmp vin) {txin : CTxIn} (hmem : txin ∈ vin) :
    txin.scriptSig = scriptCode.findAndDelete opCodeSeparator ∨ txin.scriptSig = [] := by
  have hblank : ∀ txin ∈ blankSignatures nIn (scriptCode.findAndDelete opCodeSeparator) tx.vin,
      txin.scriptSig = scriptCode.findAndDelete opCodeSeparator ∨ txin.scriptSig = [] := by
    intro txin hmem
    obtain ⟨i, hi⟩ := List.getElem?_of_mem hmem
    rw [getElem?_blankSignatures, Option.map_eq_some_iff] at hi
    obtain ⟨_, -, rfl⟩ := hi
    by_cases heq : nIn = i
    · exact Or.inl (if_pos heq)
    · exact Or.inr (if_neg heq)
  rw [h.inputs] at hmem
  split_ifs at hmem
  · obtain ⟨i, hi⟩ := List.getElem?_of_mem hmem
    rw [getElem?_clearSequences, Option.map_eq_some_iff] at hi
    obtain ⟨txin', htxin', rfl⟩ := hi
    have hsig := hblank txin' (List.mem_of_getElem? htxin')
    split_ifs
    · exact hsig
    · exact hsig
  · exact hblank txin hmem

theorem length_vin (h : Edited scriptCode tx nIn nHashType txTmp vin) : vin.length = tx.vin.length := by
  rw [h.inputs]
  split_ifs
  · rw [clearSequences, List.length_mapIdx, blankSignatures, List.length_modify, List.length_map]
  · rw [blankSignatures, List.length_modify, List.length_map]

theorem writable (h : Edited scriptCode tx nIn nHashType txTmp vin) (htx : tx.Representable)
    (hcode : scriptCode.length < 2 ^ 64) : txTmp.Writable := by
  have hcode' : (scriptCode.findAndDelete opCodeSeparator).length < 2 ^ 64 := lt_of_le_of_lt length_findAndDelete hcode
  have hsig : ∀ txin ∈ vin, txin.scriptSig.length < 2 ^ 64 := by
    intro txin hmem
    rcases h.scriptSig_mem hmem with heq | heq
    · rw [heq]
      exact hcode'
    · rw [heq]
      exact Nat.two_pow_pos 64
  have hvin : txTmp.vin.length < 2 ^ 32 ∧ ∀ txin ∈ txTmp.vin, txin.scriptSig.length < 2 ^ 64 := by
    obtain ⟨txin, -, hsigned⟩ := h.signed
    rw [h.vin]
    split_ifs
    · rw [keepInput_of_some hsigned]
      refine ⟨by norm_num, fun txin' hmem => ?_⟩
      rw [List.mem_singleton.mp hmem]
      exact hcode'
    · exact ⟨h.length_vin ▸ htx.vin, hsig⟩
  have hvout : txTmp.vout.length < 2 ^ 32 ∧ ∀ txout ∈ txTmp.vout,
      InRange 8 txout.nValue ∧ txout.scriptPubKey.length < 2 ^ 64 := by
    by_cases hnone : sighashBase nHashType = sighashNone
    · rw [h.none hnone]
      exact ⟨Nat.two_pow_pos 32, nofun⟩
    · by_cases hsingle : sighashBase nHashType = sighashSingle
      · obtain ⟨hlt, hlock⟩ := h.single hsingle
        have hlength := htx.vout
        rw [hlock, lockInOutput]
        refine ⟨?_, fun txout hmem => ?_⟩
        · rw [List.length_mapIdx, List.length_take]
          omega
        · obtain ⟨i, hi⟩ := List.getElem?_of_mem hmem
          rw [List.getElem?_mapIdx, Option.map_eq_some_iff] at hi
          obtain ⟨txout', htxout', rfl⟩ := hi
          split_ifs
          · exact ⟨by decide, Nat.two_pow_pos 64⟩
          · exact htx.txouts txout' (List.mem_of_mem_take (List.mem_of_getElem? htxout'))
      · rw [h.vout hnone hsingle]
        exact ⟨htx.vout, htx.txouts⟩
  exact ⟨⟨h.nVersion ▸ htx.nVersion, hvin.1, hvout.1, hvout.2⟩, hvin.2⟩

end Edited

theorem blankSignatures_congr {vin vin' : List CTxIn} {code : CScript}
    (h : vin.map (fun txin => (txin.prevout, txin.nSequence)) = vin'.map fun txin => (txin.prevout, txin.nSequence)) :
    blankSignatures nIn code vin = blankSignatures nIn code vin' := by
  have hblank : ∀ vin : List CTxIn, vin.map (fun txin => { txin with scriptSig := [] }) =
      (vin.map fun txin => (txin.prevout, txin.nSequence)).map fun p => (⟨p.1, [], p.2⟩ : CTxIn) := by
    intro vin
    rw [List.map_map]
    rfl
  rw [blankSignatures, blankSignatures, hblank vin, hblank vin', h]

theorem signatureTx_congr (h : SameButSignatures tx tx') :
    signatureTx scriptCode tx nIn nHashType = signatureTx scriptCode tx' nIn nHashType := by
  have hlength : tx.vin.length = tx'.vin.length := by
    have := congrArg List.length h.vin
    rwa [List.length_map, List.length_map] at this
  have htx : ∀ vin, ({ tx with vin } : CTransaction) = { tx' with vin } := by
    intro vin
    rw [CTransaction.mk.injEq]
    exact ⟨h.nVersion, h.nTime, rfl, h.vout, h.nLockTime⟩
  rw [signatureTx, signatureTx, hlength, htx, blankSignatures_congr h.vin]

/-- Equal preimages commit to the parts that the hash type is about, and the hash does not depend on any signature
script. -/
theorem signatureHash_commits (hash : List UInt8 → UInt256) : SignatureHashCommits hash where
  commits nHashType nIn scriptCode scriptCode' tx tx' preimage htx htx' hcode hcode' hpre hpre' := by
    obtain ⟨txTmp, hedit, hbytes⟩ := Option.map_eq_some_iff.mp hpre
    obtain ⟨txTmp', hedit', hbytes'⟩ := Option.map_eq_some_iff.mp hpre'
    obtain ⟨vin, h⟩ := signatureTx_edited hedit
    obtain ⟨vin', h'⟩ := signatureTx_edited hedit'
    obtain ⟨rfl, -⟩ := prefixFree_transaction _ _ _ _ (h.writable htx hcode) (h'.writable htx' hcode')
      (hbytes.trans hbytes'.symm)
    exact h.commitment h'
  signatures nHashType nIn scriptCode tx tx' h := by
    rw [signatureHash, signatureHash, signaturePreimage, signaturePreimage, signatureTx_congr h]

end SignatureTx

end PupaCoin
