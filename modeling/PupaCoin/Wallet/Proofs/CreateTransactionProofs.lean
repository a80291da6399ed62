import Mathlib
import PupaCoin.Script.Proofs.ReadingProofs
import PupaCoin.Wallet.Proofs.SelectCoinsProofs

/-!
# A transaction that is created balances

A round that is paid for leaves a balanced transaction, and one that is not raises the fee, which stays below
`feeBound`: there are no more rounds than fees below the bound.
-/

namespace PupaCoin

variable {s : CScript × Int} {txout change : CTxOut} {nFee nPayFee nMinFee : Int} {fuel round : Nat}
  {created : Created} {sNarr : List UInt8}

variable {w : CWallet} {solver : CScript → Option TxnOutType} {request : SendRequest} {choices : RoundChoices}
  {nValue nFeeRet nChange : Int} {vout vout' : List CTxOut} {tx tx' : CTransaction}

theorem mulI64_eq_ok {a b c : Int} (h : mulI64 a b = .ok c) : c = a * b := by
  unfold mulI64 at h
  split at h
  · exact (Except.ok.inj h).symm
  · cases h

theorem payeeOut_eq (hr : payeeOut solver s = .ok txout) : txout = ⟨s.2, s.1⟩ := by
  unfold payeeOut at hr
  obtain ⟨fOpReturn, -, hr⟩ := Guards.bind_eq_ok.mp hr
  cases fOpReturn with
  | true =>
    cases hr
    rfl
  | false =>
    obtain ⟨fDust, -, hr⟩ := Guards.bind_eq_ok.mp hr
    obtain ⟨_, -, hr⟩ := Guards.bind_eq_ok.mp hr
    cases hr
    rfl

theorem payees_eq {vecSend : List (CScript × Int)} (hr : vecSend.mapM (payeeOut solver) = .ok vout) :
    vout = vecSend.map fun s => ⟨s.2, s.1⟩ := by
  induction vecSend generalizing vout with
  | nil =>
    cases hr
    rfl
  | cons s vecSend ih =>
    rw [List.mapM_cons] at hr
    obtain ⟨txout, hout, hr⟩ := Guards.bind_eq_ok.mp hr
    obtain ⟨rest, hrest, hr⟩ := Guards.bind_eq_ok.mp hr
    cases hr
    rw [payeeOut_eq hout, ih hrest, List.map_cons]

def sumOut (vout : List CTxOut) : Int := (vout.map CTxOut.nValue).sum

theorem insertIdx_split (vout : List CTxOut) {i : Nat} (hi : i ≤ vout.length) (txout : CTxOut) :
    ∃ before after, vout = before ++ after ∧ vout.insertIdx i txout = before ++ txout :: after := by
  obtain ⟨before, after, hsplit, -, hinsert⟩ := List.exists_of_modifyTailIdx (List.cons txout) hi
  exact ⟨before, after, hsplit, hinsert⟩

theorem sumOut_split (before after : List CTxOut) (txout : CTxOut) :
    sumOut (before ++ txout :: after) = sumOut (before ++ after) + txout.nValue := by
  unfold sumOut
  rw [List.map_append, List.map_append, List.map_cons, List.sum_append, List.sum_append, List.sum_cons]
  omega

theorem addChange_spec (hchange : 0 ≤ nChange)
    (hr : addChange request choices vout nChange nFeeRet = .ok (vout', nFee)) :
    sumOut vout' + nFee = sumOut vout + nChange + nFeeRet ∧ nFeeRet ≤ nFee
      ∧ (vout' = vout ∨ ∃ before after change, vout = before ++ after ∧ vout' = before ++ change :: after
        ∧ 0 < change.nValue ∧ change.isDust minRelayTxFee = .ok false) := by
  unfold addChange at hr
  split at hr
  · next hpos =>
    obtain ⟨script, -, hr⟩ := Guards.bind_eq_ok.mp hr
    obtain ⟨fDust, hdust, hr⟩ := Guards.bind_eq_ok.mp hr
    cases fDust with
    | true =>
      obtain ⟨nMore, hadd, hr⟩ := Guards.bind_eq_ok.mp hr
      cases hr
      have hmore := addI64_eq_ok hadd
      exact ⟨by omega, by omega, Or.inl rfl⟩
    | false =>
      cases hr
      have hplace : (choices.getRandInt vout.length).val ≤ vout.length :=
        Nat.lt_succ_iff.mp (choices.getRandInt vout.length).isLt
      obtain ⟨before, after, hsplit, hinsert⟩ := insertIdx_split vout hplace ⟨nChange, script⟩
      refine ⟨?_, le_refl _, Or.inr ⟨before, after, ⟨nChange, script⟩, hsplit, hinsert, hpos, hdust⟩⟩
      rw [hinsert, sumOut_split, ← hsplit]
  · next hnone =>
    cases hr
    exact ⟨by omega, le_refl _, Or.inl rfl⟩

theorem signInput_keeps {input : CoinRef × Nat} (hr : signInput choices tx input = .ok tx') :
    tx'.vout = tx.vout ∧ tx'.vin.map CTxIn.prevout = tx.vin.map CTxIn.prevout := by
  unfold signInput at hr
  cases hsign : choices.signSignature input.1 tx input.2 with
  | none =>
    rw [hsign] at hr
    cases hr
  | some scriptSig =>
    rw [hsign] at hr
    cases hr
    refine ⟨rfl, List.ext_getElem? fun k => ?_⟩
    rw [List.getElem?_map, List.getElem?_map, List.getElem?_modify]
    cases tx.vin[k]? with
    | none => rfl
    | some txin =>
      show some (CTxIn.prevout (if input.2 = k then { txin with scriptSig := scriptSig } else txin)) = _
      split <;> rfl

theorem signInputs_keep {inputs : List (CoinRef × Nat)} (hr : inputs.foldlM (signInput choices) tx = .ok tx') :
    tx'.vout = tx.vout ∧ tx'.vin.map CTxIn.prevout = tx.vin.map CTxIn.prevout := by
  induction inputs generalizing tx with
  | nil =>
    rw [Guards.foldlM_nil_eq_ok] at hr
    rw [hr]
    exact ⟨rfl, rfl⟩
  | cons input inputs ih =>
    obtain ⟨next, hsign, hrest⟩ := Guards.foldlM_cons_eq_ok.mp hr
    obtain ⟨hvout, hvin⟩ := signInput_keeps hsign
    obtain ⟨hvout', hvin'⟩ := ih hrest
    exact ⟨hvout'.trans hvout, hvin'.trans hvin⟩

/-- No fee that is asked for is larger. -/
def feeBound (w : CWallet) : Int := max maxSingleTx (1526 * max w.nTransactionFee 0)

theorem getMinFee_le (tx : CTransaction) (nBytes : Nat) (fAllowFree : Bool) (mode : GetMinFeeMode) :
    getMinFee tx nBytes fAllowFree mode ≤ maxSingleTx := by
  have hcap : ∀ nMinFee : Int, (if moneyRange nMinFee then nMinFee else maxSingleTx) ≤ maxSingleTx := by
    intro nMinFee
    split
    · next hrange =>
      unfold moneyRange at hrange
      rw [Bool.and_eq_true, decide_eq_true_iff, decide_eq_true_iff] at hrange
      exact hrange.2
    · exact le_refl _
  unfold getMinFee
  exact hcap _

theorem requiredFee_le (hpay : nPayFee ≤ feeBound w) (hmin : nMinFee ≤ maxSingleTx) :
    requiredFee request nPayFee nMinFee ≤ feeBound w := by
  have hsingle : maxSingleTx ≤ feeBound w := le_max_left _ _
  have hcent : cent ≤ maxSingleTx := by decide
  unfold requiredFee
  split
  · exact max_le (hcent.trans hsingle) (max_le hpay (hmin.trans hsingle))
  · exact max_le hpay (hmin.trans hsingle)

theorem lt_requiredFee (hlow : nFeeRet < max nPayFee nMinFee) : nFeeRet < requiredFee request nPayFee nMinFee := by
  unfold requiredFee
  split
  · exact lt_of_lt_of_le hlow (le_max_right _ _)
  · exact hlow

theorem payFee_le (w : CWallet) {nBytes : Nat} (hsize : nBytes < maxStandardTxSize) :
    w.nTransactionFee * (1 + nBytes / 1000 : Nat) ≤ feeBound w := by
  have hrounds : 1 + nBytes / 1000 ≤ 1526 := by
    unfold maxStandardTxSize at hsize
    omega
  have hcast : ((1 + nBytes / 1000 : Nat) : Int) ≤ 1526 := by exact_mod_cast hrounds
  have hle : w.nTransactionFee ≤ max w.nTransactionFee 0 := le_max_left _ _
  have hpos : 0 ≤ max w.nTransactionFee 0 := le_max_right _ _
  calc w.nTransactionFee * (1 + nBytes / 1000 : Nat)
      ≤ max w.nTransactionFee 0 * (1 + nBytes / 1000 : Nat) :=
        mul_le_mul_of_nonneg_right hle (Int.natCast_nonneg _)
    _ ≤ max w.nTransactionFee 0 * 1526 := mul_le_mul_of_nonneg_left hcast hpos
    _ = 1526 * max w.nTransactionFee 0 := mul_comm _ _
    _ ≤ feeBound w := le_max_right _ _

theorem createRound_spec (hinstant : request.useIX = true → cent ≤ nFeeRet) {result : RoundResult}
    (hr : createRound w solver request choices nValue nFeeRet = .ok result) (hsum : sumOut request.payees = nValue) :
    (∃ nFee, result = .again nFee ∧ nFeeRet < nFee ∧ nFee ≤ feeBound w
      ∧ (request.useIX = true → cent ≤ nFee))
    ∨ ∃ created, result = .done created ∧ created.Balanced w request := by
  unfold createRound at hr
  obtain ⟨nTotalValue, htotal, hr⟩ := Guards.bind_eq_ok.mp hr
  obtain ⟨payees, hpayees, hr⟩ := Guards.bind_eq_ok.mp hr
  obtain ⟨selected, hselect, hr⟩ := Guards.bind_eq_ok.mp hr
  cases selected with
  | none => cases hr
  | some selection =>
    obtain ⟨coins, nValueIn⟩ := selection
    obtain ⟨hnodup, hholds, hcoins, hreached⟩ := selectCoins_spec hselect
    dsimp only at hr hcoins hreached hnodup hholds
    obtain ⟨nLeft, hleft, hr⟩ := Guards.bind_eq_ok.mp hr
    obtain ⟨nChange, hchange, hr⟩ := Guards.bind_eq_ok.mp hr
    obtain ⟨⟨vout, nFee⟩, hadd, hr⟩ := Guards.bind_eq_ok.mp hr
    dsimp only at hr
    obtain ⟨wtxNew, hsign, hr⟩ := Guards.bind_eq_ok.mp hr
    obtain ⟨_, hsize, hr⟩ := Guards.bind_eq_ok.mp hr
    obtain ⟨nPayFee, hpay, hr⟩ := Guards.bind_eq_ok.mp hr
    have htotal' := addI64_eq_ok htotal
    have hleft' := addI64_eq_ok hleft
    have hchange' := addI64_eq_ok hchange
    have hpay' := mulI64_eq_ok hpay
    rw [payees_eq hpayees] at hadd
    obtain ⟨hbalance, hmore, houtputs⟩ := addChange_spec (by omega) hadd
    obtain ⟨hvout, hvin⟩ := signInputs_keep hsign
    have hperm := (choices.setOrder coins).property
    rw [rejectIf_eq_ok, decide_eq_false_iff_not, not_le] at hsize
    split at hr
    · next hlow =>
      cases hr
      left
      have hfee : nFee < requiredFee request nPayFee
          (getMinFee wtxNew wtxNew.serializeSize choices.fAllowFree .send) := lt_requiredFee hlow
      refine ⟨_, rfl, lt_of_le_of_lt hmore hfee, ?_, fun hix => ?_⟩
      · refine requiredFee_le ?_ (getMinFee_le _ _ _ _)
        rw [hpay']
        exact payFee_le w hsize
      · have hcent := hinstant hix
        omega
    · next hhigh =>
      cases hr
      right
      refine ⟨_, rfl, ?_⟩
      rw [not_lt, max_le_iff] at hhigh
      constructor
      · exact ⟨hperm.nodup_iff.mpr hnodup, fun c hc => hholds c (hperm.subset hc)⟩
      · rw [hvin, List.map_map]
        rfl
      · have hcoins' : sumCoins (choices.setOrder coins).val = nValueIn := by
          rw [hcoins]
          exact (hperm.map CoinRef.nValue).sum_eq
        show sumCoins (choices.setOrder coins).val = sumOut wtxNew.vout + nFee
        have hpaid : sumOut (request.vecSend.map fun s => ⟨s.2, s.1⟩) = nValue := hsum
        rw [hvout, hcoins']
        show nValueIn = sumOut vout + nFee
        omega
      · rw [← hpay']
        exact hhigh.1
      · exact hhigh.2
      · intro hix
        exact le_trans (hinstant hix) hmore
      · rw [hvout]
        exact houtputs

theorem paymentSum_eq (hr : paymentSum request = .ok nValue) : sumOut request.payees = nValue := by
  have hloop : ∀ {vecSend : List (CScript × Int)} {nStart nEnd : Int}, vecSend.foldlM addPayment nStart = .ok nEnd →
        nEnd = nStart + sumOut (vecSend.map fun s => ⟨s.2, s.1⟩) := by
    intro vecSend
    induction vecSend with
    | nil =>
      intro nStart nEnd hr
      rw [Guards.foldlM_nil_eq_ok] at hr
      rw [← hr]
      exact (add_zero _).symm
    | cons s vecSend ih =>
      intro nStart nEnd hr
      obtain ⟨next, hadd, hrest⟩ := Guards.foldlM_cons_eq_ok.mp hr
      unfold addPayment at hadd
      obtain ⟨_, -, hadd⟩ := Guards.bind_eq_ok.mp hadd
      rw [ih hrest, addI64_eq_ok hadd]
      unfold sumOut
      rw [List.map_cons, List.map_cons, List.sum_cons, add_assoc]
  unfold paymentSum at hr
  obtain ⟨nSum, hsum, hr⟩ := Guards.bind_eq_ok.mp hr
  obtain ⟨_, -, hr⟩ := Guards.bind_eq_ok.mp hr
  cases hr
  rw [hloop hsum, zero_add]
  rfl

theorem createLoop_mono {choices : Nat → RoundChoices} {more : Nat} (hle : fuel ≤ more) {result : Except Stop Created}
    (hr : createLoop w solver request choices nValue fuel round nFeeRet = some result) :
    createLoop w solver request choices nValue more round nFeeRet = some result := by
  induction fuel generalizing more round nFeeRet with
  | zero => cases hr
  | succ fuel ih =>
    obtain ⟨more, rfl⟩ : ∃ rest, more = rest + 1 := ⟨more - 1, by omega⟩
    unfold createLoop at hr ⊢
    cases hround : createRound w solver request (choices round) nValue nFeeRet with
    | error e =>
      rw [hround] at hr
      exact hr
    | ok outcome =>
      rw [hround] at hr
      cases outcome with
      | done created => exact hr
      | again nFee => exact ih (Nat.le_of_succ_le_succ hle) hr

theorem createLoop_ends (choices : Nat → RoundChoices) (hsum : sumOut request.payees = nValue) (nFeeRet : Int)
    (fuel : Nat) (hfuel : (feeBound w - nFeeRet).toNat < fuel) (round : Nat)
    (hinstant : request.useIX = true → cent ≤ nFeeRet) :
    ∃ result, createLoop w solver request choices nValue fuel round nFeeRet = some result := by
  induction fuel generalizing round nFeeRet with
  | zero => exact absurd hfuel (Nat.not_lt_zero _)
  | succ fuel ih =>
    unfold createLoop
    cases hround : createRound w solver request (choices round) nValue nFeeRet with
    | error e => exact ⟨.error e, rfl⟩
    | ok outcome =>
      rcases createRound_spec hinstant hround hsum with ⟨nFee, rfl, hlt, hle, hinstant'⟩ | ⟨created, rfl, -⟩
      · exact ih nFee (by omega) (round + 1) hinstant'
      · exact ⟨.ok created, rfl⟩

theorem createLoop_balances {choices : Nat → RoundChoices} (hsum : sumOut request.payees = nValue)
    (hinstant : request.useIX = true → cent ≤ nFeeRet)
    (hr : createLoop w solver request choices nValue fuel round nFeeRet = some (.ok created)) :
    created.Balanced w request := by
  induction fuel generalizing round nFeeRet with
  | zero => cases hr
  | succ fuel ih =>
    unfold createLoop at hr
    cases hround : createRound w solver request (choices round) nValue nFeeRet with
    | error e =>
      rw [hround] at hr
      cases hr
    | ok outcome =>
      rw [hround] at hr
      rcases createRound_spec hinstant hround hsum with ⟨nFee, rfl, -, -, hinstant'⟩ | ⟨created', rfl, hbal⟩
      · exact ih hinstant' hr
      · cases hr
        exact hbal

theorem cent_le_firstFee (hix : request.useIX = true) : cent ≤ firstFee w request := by
  unfold firstFee
  rw [if_pos hix]
  exact le_max_left _ _

/-- For every wallet, request and sequence of choices `CreateTransaction` ends, and when it returns true the
    transaction balances. -/
theorem createTransaction_balances (w : CWallet) (solver : CScript → Option TxnOutType) (request : SendRequest)
    (choices : Nat → RoundChoices) :
    (∃ fuel result, ∀ more, fuel ≤ more → createTransaction w solver request choices more = some result)
      ∧ ∀ fuel created, createTransaction w solver request choices fuel = some (.ok created) →
        created.Balanced w request := by
  unfold createTransaction
  cases hsum : paymentSum request with
  | error e => exact ⟨⟨0, .error e, fun _ _ => rfl⟩, fun _ _ hr => by cases hr⟩
  | ok nValue =>
    constructor
    · obtain ⟨result, hloop⟩ := createLoop_ends choices (paymentSum_eq hsum) (firstFee w request) _
        (Nat.lt_succ_self _) 0 cent_le_firstFee
      exact ⟨_, result, fun more hmore => createLoop_mono hmore hloop⟩
    · intro fuel created hr
      exact createLoop_balances (paymentSum_eq hsum) cent_le_firstFee hr

namespace Sample

def walletTx : CWalletTx where
  tx := ⟨1, 100, [⟨⟨7, 0⟩, [], 0xffffffff⟩], [⟨2 * coin, [0x51]⟩], 0⟩
  fFinal := true
  fTrusted := true
  nBlocksToMaturity := 0
  nDepth := 20
  fFromMe := true
  fSpent _ := false

def wallet : CWallet where
  mapWallet := AList.singleton 7 walletTx
  isMine _ := .spendable
  fLockedCoin _ _ := false
  fMasterNode := false
  masternodeCollateral := 1000
  nTransactionFee := 0

def selectionChoices : SelectionChoices where
  shuffle coins := ⟨coins, List.Perm.refl _⟩
  sort coins :=
    ⟨coins.insertionSort fun c d => d.nValue ≤ c.nValue, List.perm_insertionSort _ _, by
      have htotal : Std.Total fun c d : CoinRef => d.nValue ≤ c.nValue := ⟨fun c d => le_total d.nValue c.nValue⟩
      have htrans : IsTrans CoinRef fun c d => d.nValue ≤ c.nValue := ⟨fun _ _ _ hcd hde => le_trans hde hcd⟩
      exact List.pairwise_insertionSort _ coins⟩
  insecureRand _ _ := true
  insecureRand' _ _ := true

def roundChoices : RoundChoices where
  selection _ := selectionChoices
  setOrder coins := ⟨coins, List.Perm.refl _⟩
  reservedKey := some [0x52]
  getRandInt _ := 0
  signSignature _ _ _ := some [0x53]
  fAllowFree := false

def sendCoin : SendRequest := ⟨[([0x54], coin)], 1, 200, 0, none, .allCoins, false⟩

theorem sendCoin_created : ∃ created, createTransaction wallet (fun _ => none) sendCoin (fun _ => roundChoices) 2
    = some (.ok created) ∧ created.Balanced wallet sendCoin ∧ created.nFeeRet = minTxFee
      ∧ created.wtxNew.vout = [⟨coin - minTxFee, [0x52]⟩, ⟨coin, [0x54]⟩] := by
  have hsummary : (createTransaction wallet (fun _ => none) sendCoin (fun _ => roundChoices) 2).map
      (fun result => result.map fun created => (created.nFeeRet, created.wtxNew.vout))
      = some (.ok (minTxFee, [⟨coin - minTxFee, [0x52]⟩, ⟨coin, [0x54]⟩])) := by decide
  obtain ⟨result, hresult, hmap⟩ := Option.map_eq_some_iff.mp hsummary
  cases result with
  | error e => cases hmap
  | ok created =>
    have hboth := Prod.mk.inj (Except.ok.inj hmap)
    exact ⟨created, hresult, (createTransaction_balances wallet _ sendCoin _).2 2 created hresult, hboth.1, hboth.2⟩

end Sample

theorem narrationScript_eq (sNarr : List UInt8) : narrationScript sNarr =
    0x6a :: (CScript.pushData narrationMark ++ 0x6a :: (CScript.pushData sNarr ++ [])) := rfl

theorem getOp_opReturn (rest : CScript) : CScript.getOp (0x6a :: rest) = some (CScript.opReturn, [], rest) :=
  CScript.getOp_plain (by decide)

theorem plaintextNarration_narrationScript (hne : sNarr ≠ []) (hlength : (narrationScript sNarr).length < 2 ^ 32)
    : plaintextNarration (narrationScript sNarr) = some sNarr := by
  rw [narrationScript_eq] at hlength ⊢
  have hnarr := CScript.Element.length_lt_pushData sNarr
  have hmark : CScript.pushData narrationMark = [0x02, 0x6e, 0x70] := by decide
  rw [hmark] at hlength ⊢
  simp only [List.length_cons, List.length_append, List.length_nil] at hlength
  have hfirst : CScript.getOp ([0x02, 0x6e, 0x70] ++ 0x6a :: (CScript.pushData sNarr ++ [])) =
      some (2, narrationMark, 0x6a :: (CScript.pushData sNarr ++ [])) := by
    rw [← hmark]
    refine CScript.Element.getOp_pushData ?_
    simp only [narrationMark, List.length_cons, List.length_append, List.length_nil]
    omega
  have hlast : CScript.getOp (CScript.pushData sNarr ++ []) = some (CScript.Element.pushOpcode sNarr.length, sNarr, []) := by
    refine CScript.Element.getOp_pushData ?_
    simp only [List.length_append, List.length_nil]
    omega
  unfold plaintextNarration
  rw [getOp_opReturn]
  simp only [Option.bind_eq_bind, Option.bind_some, hfirst, getOp_opReturn, hlast]
  simp [narrationMark, List.length_pos_iff, hne]

theorem solver_narrationScript (sNarr : List UInt8) : CScript.solver (narrationScript sNarr) = none := by
  rw [narrationScript_eq]
  have hmark : CScript.pushData narrationMark = [0x02, 0x6e, 0x70] := by decide
  rw [hmark]
  generalize hrest : (0x6a :: (CScript.pushData sNarr ++ []) : CScript) = rest
  have hne : rest ≠ [] := hrest ▸ List.cons_ne_nil _ _
  have hhash : CScript.isPayToScriptHash (0x6a :: ([0x02, 0x6e, 0x70] ++ rest)) = false := by
    unfold CScript.isPayToScriptHash
    simp
  have hget : CScript.getOp ([0x02, 0x6e, 0x70] ++ rest) = none ∨
      CScript.getOp ([0x02, 0x6e, 0x70] ++ rest) = some (2, narrationMark, rest) := by
    have hunfold : CScript.getOp ([0x02, 0x6e, 0x70] ++ rest) =
        if (0x6e :: 0x70 :: rest).length % 2 ^ 32 < 2 then none else some (2, narrationMark, rest) := rfl
    rw [hunfold]
    split_ifs
    · exact Or.inl rfl
    · exact Or.inr rfl
  have hdata : CScript.matchTemplate [CScript.opSmallData] ([0x02, 0x6e, 0x70] ++ rest) [] = none := by
    rcases hget with hget | hget
    · rw [CScript.matchTemplate, hget]
      rfl
    · rw [CScript.matchTemplate, hget]
      show CScript.matchTemplate [] rest [] = none
      rw [CScript.matchTemplate, if_neg hne]
  have hmatch : ∀ tplate ∈ CScript.mTemplates,
      CScript.matchTemplate tplate.2 (0x6a :: ([0x02, 0x6e, 0x70] ++ rest)) [] = none := by
    intro tplate hmem
    simp only [CScript.mTemplates, List.mem_cons, List.not_mem_nil, or_false] at hmem
    rcases hmem with rfl | rfl | rfl | rfl | rfl
    all_goals rw [CScript.matchTemplate, getOp_opReturn]
    · rfl
    · rfl
    · rfl
    · exact hdata
    · rfl
  unfold CScript.solver
  rw [hhash, if_neg Bool.false_ne_true, List.findSome?_eq_none_iff.mpr fun tplate hmem => by rw [hmatch tplate hmem]; rfl]

section Narrated

variable {w : CWallet} {solver : CScript → Option TxnOutType} {request : SendRequest} {choices : RoundChoices}
  {nValue nFeeRet nChange : Int} {vout vout' : List CTxOut}

theorem payeeOut_refused (hvalue : s.2 = 0) (hne : s.1 ≠ []) (hsolver : solver s.1 = none) (txout : CTxOut)
    : payeeOut solver s ≠ .ok txout := by
  intro hr
  obtain ⟨fOpReturn, hcarries, -⟩ := Guards.bind_eq_ok.mp hr
  have hempty : (⟨s.2, s.1⟩ : CTxOut).isEmpty = false := by
    unfold CTxOut.isEmpty
    rw [List.isEmpty_eq_false_iff.mpr hne, Bool.and_false]
  unfold carriesData at hcarries
  have hasks : ((⟨s.2, s.1⟩ : CTxOut).isNull || (!(⟨s.2, s.1⟩ : CTxOut).isEmpty && s.2 == 0)) = true := by
    rw [hempty, hvalue]
    rfl
  dsimp only at hcarries
  rw [if_pos hasks, hsolver] at hcarries
  cases hcarries

theorem addChange_changeOutput (hr : addChange request choices vout nChange nFeeRet = .ok (vout', nFee)) :
    vout' = match changeOutput request choices nChange with
      | none => vout
      | some change => vout.insertIdx (choices.getRandInt vout.length).val change := by
  unfold addChange at hr
  unfold changeOutput
  split_ifs at hr ⊢ with hpos
  · obtain ⟨script, hscript, hr⟩ := Guards.bind_eq_ok.mp hr
    obtain ⟨fDust, hdust, hr⟩ := Guards.bind_eq_ok.mp hr
    rw [hscript]
    dsimp only
    cases fDust with
    | true =>
      obtain ⟨nMore, -, hr⟩ := Guards.bind_eq_ok.mp hr
      cases hr
      rw [if_neg (by rw [hdust]; exact fun h => Bool.noConfusion (Except.ok.inj h))]
    | false =>
      cases hr
      rw [if_pos hdust]
  · cases hr
    rfl

theorem createRound_done (hr : createRound w solver request choices nValue nFeeRet = .ok (.done created)) :
    ∃ coins nValueIn, selectCoins w choices.selection request.coinControl request.coinType request.useIX
        (nValue + nFeeRet) request.nTime = .ok (some (coins, nValueIn)) ∧
      created.wtxNew.serializeSize < maxStandardTxSize ∧
      created.wtxNew.vout = match changeOutput request choices (nValueIn - nValue - nFeeRet) with
        | none => request.payees
        | some change => request.payees.insertIdx (choices.getRandInt request.payees.length).val change := by
  unfold createRound at hr
  obtain ⟨nTotalValue, htotal, hr⟩ := Guards.bind_eq_ok.mp hr
  obtain ⟨payees, hpayees, hr⟩ := Guards.bind_eq_ok.mp hr
  obtain ⟨selected, hselect, hr⟩ := Guards.bind_eq_ok.mp hr
  rw [addI64_eq_ok htotal] at hselect
  cases selected with
  | none => cases hr
  | some selection =>
    obtain ⟨coins, nValueIn⟩ := selection
    obtain ⟨nLeft, hleft, hr⟩ := Guards.bind_eq_ok.mp hr
    obtain ⟨nChange, hchange, hr⟩ := Guards.bind_eq_ok.mp hr
    obtain ⟨⟨vout, nFee⟩, hadd, hr⟩ := Guards.bind_eq_ok.mp hr
    obtain ⟨wtxNew, hsign, hr⟩ := Guards.bind_eq_ok.mp hr
    obtain ⟨_, hsize, hr⟩ := Guards.bind_eq_ok.mp hr
    obtain ⟨nPayFee, -, hr⟩ := Guards.bind_eq_ok.mp hr
    have hnChange : nChange = nValueIn - nValue - nFeeRet := by
      rw [addI64_eq_ok hchange, addI64_eq_ok hleft]
      ring
    rw [payees_eq hpayees, hnChange] at hadd
    rw [rejectIf_eq_ok, decide_eq_false_iff_not, not_le] at hsize
    dsimp only at hr
    split_ifs at hr
    · cases hr
    · cases hr
      refine ⟨coins, nValueIn, hselect, hsize, ?_⟩
      rw [(signInputs_keep hsign).1]
      exact addChange_changeOutput hadd

theorem createLoop_done {choices : Nat → RoundChoices}
    (hbegins : RoundBegins w solver request choices nValue round nFeeRet)
    (hr : createLoop w solver request choices nValue fuel round nFeeRet = some (.ok created)) :
    ∃ round nFeeRet, RoundBegins w solver request choices nValue round nFeeRet ∧
      createRound w solver request (choices round) nValue nFeeRet = .ok (.done created) := by
  induction fuel generalizing round nFeeRet with
  | zero => cases hr
  | succ fuel ih =>
    unfold createLoop at hr
    cases hround : createRound w solver request (choices round) nValue nFeeRet with
    | error e =>
      rw [hround] at hr
      cases hr
    | ok outcome =>
      rw [hround] at hr
      cases outcome with
      | done created' =>
        cases hr
        exact ⟨round, nFeeRet, hbegins, hround⟩
      | again nFee => exact ih (hbegins.again hround) hr

/-- A round cannot make the outputs, so none ends the loop. -/
theorem createTransaction_refused {choices : Nat → RoundChoices} (hmem : s ∈ request.vecSend) (hvalue : s.2 = 0)
    (hne : s.1 ≠ []) (hsolver : solver s.1 = none) (fuel : Nat) (created : Created) :
    createTransaction w solver request choices fuel ≠ some (.ok created) := by
  intro hr
  unfold createTransaction at hr
  cases hsum : paymentSum request with
  | error e =>
    rw [hsum] at hr
    cases hr
  | ok nValue =>
    rw [hsum] at hr
    obtain ⟨round, nFeeRet, -, hround⟩ := createLoop_done .first hr
    obtain ⟨nTotalValue, -, hround⟩ := Guards.bind_eq_ok.mp hround
    obtain ⟨payees, hpayees, -⟩ := Guards.bind_eq_ok.mp hround
    obtain ⟨txout, hout⟩ := Guards.mapM_ok_of_mem hpayees hmem
    exact payeeOut_refused hvalue hne hsolver txout hout

theorem narrationKey_injective {m n : Int} (h : narrationKey m = narrationKey n) : m = n :=
  Int.repr_injective (String.append_right_inj _ |>.mp h)

theorem lookup_narrationsFrom (vout : List CTxOut) (n i : Nat) :
    ((vout.zipIdx n).filterMap fun output => (plaintextNarration output.1.scriptPubKey).map fun sNarr =>
        (narrationKey (output.2 - 1), sNarr)).lookup (narrationKey i) =
      if n ≤ i + 1 then vout[i + 1 - n]?.bind fun txout => plaintextNarration txout.scriptPubKey else none := by
  induction vout generalizing n with
  | nil =>
    split_ifs <;> rfl
  | cons txout vout ih =>
    rw [List.zipIdx_cons, List.filterMap_cons]
    by_cases hn : n = i + 1
    · have hkey : narrationKey ((n : Int) - 1) = narrationKey i := by
        rw [hn]
        congr 1
        omega
      have hrest := ih (n + 1)
      rw [if_neg (by omega)] at hrest
      rw [if_pos hn.le, hn, Nat.sub_self, List.getElem?_cons_zero, Option.bind_some]
      cases hnarr : plaintextNarration txout.scriptPubKey with
      | none => exact hn ▸ hrest
      | some sNarr =>
        show List.lookup _ ((narrationKey (((i + 1 : Nat) : Int) - 1), sNarr) :: _) = _
        rw [← hn, hkey, List.lookup_cons_self]
    · have hkey : narrationKey i ≠ narrationKey ((n : Int) - 1) := fun h => hn (by have := narrationKey_injective h; omega)
      have hskip : ((vout.zipIdx (n + 1)).filterMap fun output => (plaintextNarration output.1.scriptPubKey).map
          fun sNarr => (narrationKey (output.2 - 1), sNarr)).lookup (narrationKey i) =
          if n ≤ i + 1 then (txout :: vout)[i + 1 - n]?.bind fun txout => plaintextNarration txout.scriptPubKey
          else none := by
        rw [ih (n + 1)]
        by_cases hle : n + 1 ≤ i + 1
        · rw [if_pos hle, if_pos (by omega), show i + 1 - n = i + 1 - (n + 1) + 1 by omega, List.getElem?_cons_succ]
        · rw [if_neg hle, if_neg (by omega)]
      cases hnarr : plaintextNarration txout.scriptPubKey with
      | none => exact hskip
      | some sNarr =>
        show List.lookup _ ((narrationKey ((n : Int) - 1), sNarr) :: _) = _
        rw [List.lookup_cons, beq_eq_false_iff_ne.mpr hkey]
        exact hskip

theorem lookup_findNarrations (vout : List CTxOut) (i : Nat) : (findNarrations vout).lookup (narrationKey i) =
      vout[i + 1]?.bind fun txout => plaintextNarration txout.scriptPubKey := by
  have h := lookup_narrationsFrom vout 0 i
  rw [if_pos (Nat.zero_le _), Nat.sub_zero] at h
  exact h

variable {scriptPubKey : CScript} {sNarr : List UInt8}

theorem narrationFollows_iff (hfound : plaintextNarration (narrationScript sNarr) = some sNarr) :
    NarrationFollows vout scriptPubKey nValue sNarr ↔
      ∃ i : Nat, vout[i]? = some ⟨nValue, scriptPubKey⟩ ∧ vout[i + 1]? = some ⟨0, narrationScript sNarr⟩ := by
  constructor
  · rintro ⟨i, hpaid, hnarr, -⟩
    exact ⟨i, hpaid, hnarr⟩
  · rintro ⟨i, hpaid, hnarr⟩
    refine ⟨i, hpaid, hnarr, ?_⟩
    rw [lookup_findNarrations, hnarr]
    exact hfound

theorem insertIdx_follows {paid narr : CTxOut} (hchange : change ≠ narr) {place : Nat} (hplace : place ≤ 2) :
    (∃ i : Nat, ([paid, narr].insertIdx place change)[i]? = some paid ∧
      ([paid, narr].insertIdx place change)[i + 1]? = some narr) ↔ (place = 1 → change = paid) := by
  obtain rfl | rfl | rfl : place = 0 ∨ place = 1 ∨ place = 2 := by omega
  · exact ⟨fun _ h => absurd h Nat.zero_ne_one, fun _ => ⟨1, rfl, rfl⟩⟩
  · constructor
    · rintro ⟨i, hpaid, hnarr⟩ -
      match i with
      | 0 => exact absurd (Option.some.inj hnarr) hchange
      | 1 => exact Option.some.inj hpaid
      | _ + 2 => exact absurd hnarr.symm (Option.some_ne_none _)
    · intro h
      exact ⟨1, congrArg some (h rfl), rfl⟩
  · exact ⟨fun _ h => absurd h (by decide), fun _ => ⟨0, rfl, rfl⟩⟩

theorem changeOutput_pos (h : changeOutput request choices nChange = some change) : 0 < change.nValue := by
  unfold changeOutput at h
  split_ifs at h with hpos
  cases hscript : scriptChange request choices with
  | error e =>
    rw [hscript] at h
    cases h
  | ok script =>
    rw [hscript] at h
    dsimp only at h
    split_ifs at h
    rw [← Option.some.inj h]
    exact hpos

theorem script_length_lt {tx : CTransaction} (hmem : txout ∈ tx.vout) (hsize : tx.serializeSize < maxStandardTxSize)
    : txout.scriptPubKey.length < 2 ^ 32 := by
  have hle : 8 + CTransaction.bytesSize txout.scriptPubKey ≤
      (tx.vout.map fun txout => 8 + CTransaction.bytesSize txout.scriptPubKey).sum :=
    List.le_sum_of_mem (List.mem_map_of_mem hmem)
  unfold CTransaction.serializeSize at hsize
  unfold CTransaction.bytesSize at hle hsize
  have hmax : maxStandardTxSize < 2 ^ 32 := by decide
  omega

end Narrated

section Narrated

variable {w : CWallet} {solver : CScript → Option TxnOutType} {request : SendRequest} {nValue : Int}
  {scriptPubKey : CScript} {sNarr : List UInt8}

theorem createRound_follows {choices : RoundChoices} {nFeeRet nValueIn : Int} {coins : List CoinRef}
    (hnarr : sNarr ≠ []) (hpayees : request.payees = [⟨nValue, scriptPubKey⟩, ⟨0, narrationScript sNarr⟩])
    (hround : createRound w solver request choices nValue nFeeRet = .ok (.done created))
    (hselect : selectCoins w choices.selection request.coinControl request.coinType request.useIX (nValue + nFeeRet)
      request.nTime = .ok (some (coins, nValueIn))) :
    NarrationFollows created.wtxNew.vout scriptPubKey nValue sNarr ↔
      ∀ change, changeOutput request choices (nValueIn - nValue - nFeeRet) = some change →
        (choices.getRandInt 2).val = 1 → change = ⟨nValue, scriptPubKey⟩ := by
  obtain ⟨coins', nValueIn', hselect', hsize, hvout⟩ := createRound_done hround
  obtain ⟨-, rfl⟩ := Prod.mk.inj (Option.some.inj (Except.ok.inj (hselect.symm.trans hselect')))
  rw [hpayees] at hvout
  have hplace : (choices.getRandInt 2).val ≤ 2 := Nat.lt_succ_iff.mp (choices.getRandInt 2).isLt
  have hmem : (⟨0, narrationScript sNarr⟩ : CTxOut) ∈ created.wtxNew.vout := by
    have hpayee : (⟨0, narrationScript sNarr⟩ : CTxOut) ∈ [⟨nValue, scriptPubKey⟩, ⟨0, narrationScript sNarr⟩] :=
      List.mem_cons_of_mem _ List.mem_cons_self
    rw [hvout]
    cases changeOutput request choices (nValueIn - nValue - nFeeRet) with
    | none => exact hpayee
    | some change => exact (List.mem_insertIdx hplace).mpr (Or.inr hpayee)
  rw [narrationFollows_iff (plaintextNarration_narrationScript hnarr (script_length_lt hmem hsize)), hvout]
  cases hchange : changeOutput request choices (nValueIn - nValue - nFeeRet) with
  | none => exact ⟨fun _ _ h => (nomatch h), fun _ => ⟨0, rfl, rfl⟩⟩
  | some change =>
    have hne : change ≠ ⟨0, narrationScript sNarr⟩ := fun heq => by
      have hpos := changeOutput_pos hchange
      rw [heq] at hpos
      exact lt_irrefl _ hpos
    refine (insertIdx_follows hne hplace).trans ⟨fun h change' hsame hone => ?_, fun h hone => h change rfl hone⟩
    rw [← Option.some.inj hsame]
    exact h hone

theorem createTransaction_follows {choices : Nat → RoundChoices} (hnarr : sNarr ≠ [])
    (hpayees : request.payees = [⟨nValue, scriptPubKey⟩, ⟨0, narrationScript sNarr⟩])
    (hcreated : createTransaction w solver request choices fuel = some (.ok created)) :
    NarrationFollows created.wtxNew.vout scriptPubKey nValue sNarr ↔
      ChangeStaysOut w solver request choices nValue created scriptPubKey := by
  constructor
  · intro hfollows
    unfold createTransaction at hcreated
    cases hsum : paymentSum request with
    | error e =>
      rw [hsum] at hcreated
      cases hcreated
    | ok nSum =>
      have hnSum : nSum = nValue := by
        have hpaid := paymentSum_eq hsum
        rw [hpayees] at hpaid
        unfold sumOut at hpaid
        simp only [List.map_cons, List.map_nil, List.sum_cons, List.sum_nil] at hpaid
        omega
      rw [hsum, hnSum] at hcreated
      obtain ⟨round, nFeeRet, hbegins, hround⟩ := createLoop_done .first hcreated
      obtain ⟨coins, nValueIn, hselect, -, -⟩ := createRound_done hround
      exact ⟨round, nFeeRet, coins, nValueIn, hbegins, hround, hselect,
        (createRound_follows hnarr hpayees hround hselect).mp hfollows⟩
  · rintro ⟨round, nFeeRet, coins, nValueIn, -, hround, hselect, hout⟩
    exact (createRound_follows hnarr hpayees hround hselect).mpr hout

end Narrated

/-- No payment with a narration is made, as the script of the narration matches none of the templates that an output
without value has to match. Were another `Solver` to let it pass, the change would come between the two wherever it is
put at the place in the middle and does not itself pay the same. -/
theorem narration_strays (w : CWallet) (scriptPubKey : CScript) (nValue : Int) {sNarr : List UInt8} (hnarr : sNarr ≠ [])
    (nVersion : Int) (nTime nLockTime : UInt32) (coinControl : Option CCoinControl) (choices : Nat → RoundChoices)
    {request : SendRequest}
    (hrequest : request = .narrated scriptPubKey nValue sNarr nVersion nTime nLockTime coinControl) :
    (∀ fuel, ¬NarrationStays w (fun script => (CScript.solver script).map Prod.fst) request choices fuel
      scriptPubKey nValue sNarr) ∧
    ∀ solver fuel created, createTransaction w solver request choices fuel = some (.ok created) →
      (NarrationFollows created.wtxNew.vout scriptPubKey nValue sNarr ↔
        ChangeStaysOut w solver request choices nValue created scriptPubKey) := by
  have hsend : request.vecSend = [(scriptPubKey, nValue), (narrationScript sNarr, 0)] := by
    rw [hrequest]
    unfold SendRequest.narrated
    rw [if_pos (List.length_pos_iff.mpr hnarr)]
  have hpayees : request.payees = [⟨nValue, scriptPubKey⟩, ⟨0, narrationScript sNarr⟩] := by
    unfold SendRequest.payees
    rw [hsend]
    rfl
  constructor
  · rintro fuel ⟨created, hcreated, -⟩
    have hmem : (narrationScript sNarr, 0) ∈ request.vecSend := by
      rw [hsend]
      exact List.mem_cons_of_mem _ List.mem_cons_self
    refine createTransaction_refused hmem rfl ?_ ?_ fuel created hcreated
    · rw [narrationScript_eq]
      exact List.cons_ne_nil _ _
    · show (CScript.solver (narrationScript sNarr)).map Prod.fst = none
      rw [solver_narrationScript]
      rfl
  · intro solver fuel created hcreated
    exact createTransaction_follows hnarr hpayees hcreated

namespace Sample

def sendNarrated : SendRequest := .narrated [0x54] coin [0x68, 0x69] 1 200 0 none

/-- The payment is refused for the script of its narration; a `Solver` that took it for data would have the change
inserted before the narration, which the receiver then takes for that of the change. -/
theorem sendNarrated_strays :
    createTransaction wallet (fun script => (CScript.solver script).map Prod.fst) sendNarrated (fun _ => roundChoices) 2 =
        some (.error (.reject 0 "Invalid scriptPubKey")) ∧
      ¬NarrationStays wallet (fun script => (CScript.solver script).map Prod.fst) sendNarrated (fun _ => roundChoices) 2
        [0x54] coin [0x68, 0x69] := by
  have hrefused : createTransaction wallet (fun script => (CScript.solver script).map Prod.fst) sendNarrated
      (fun _ => roundChoices) 2 = some (.error (.reject 0 "Invalid scriptPubKey")) := by rfl
  refine ⟨hrefused, fun h => ?_⟩
  obtain ⟨created, hcreated, -⟩ := h
  exact nomatch hrefused.symm.trans hcreated

theorem narration_strays_hi :
    (∀ fuel, ¬NarrationStays wallet (fun script => (CScript.solver script).map Prod.fst) sendNarrated
      (fun _ => roundChoices) fuel [0x54] coin [0x68, 0x69]) ∧
    ∀ solver fuel created, createTransaction wallet solver sendNarrated (fun _ => roundChoices) fuel = some (.ok created) →
      (NarrationFollows created.wtxNew.vout [0x54] coin [0x68, 0x69] ↔
        ChangeStaysOut wallet solver sendNarrated (fun _ => roundChoices) coin created [0x54]) :=
  narration_strays wallet [0x54] coin (List.cons_ne_nil _ _) 1 200 0 none (fun _ => roundChoices) rfl

end Sample

end PupaCoin
