import PupaCoin.Chain.Proofs.SampleProofs

/-!
# The payment checks

`CheckBlock` reads the two payments of a block at fixed indexes, also when it has already found that the
number of outputs is wrong; everything else in it returns a verdict for every block. What it compares
are whole coins.
-/

namespace PupaCoin

variable {fCheckPOW fCheckSig : Bool} {ext : Ext} {c : PaymentCheck} {pindexBest : CBlockIndex} {hBest : UInt256}
  {a b : Int}

section Verdict

variable {α β : Type} {x : Except Stop α} {f : α → Except Stop β}

theorem isVerdict_bind (hx : IsVerdict x) (hf : ∀ a, x = .ok a → IsVerdict (f a)) : IsVerdict (x >>= f) := by
  cases x with
  | ok a => exact hf a rfl
  | error e => cases e <;> exact hx

theorem isVerdict_bind_iff (hx : IsVerdict x) : IsVerdict (x >>= f) ↔ ∀ a, x = .ok a → IsVerdict (f a) := by
  refine ⟨fun h a ha => ?_, isVerdict_bind hx⟩
  rw [ha] at h
  exact h

theorem IsVerdict.of_bind (h : IsVerdict (x >>= f)) : IsVerdict x := by
  cases x with
  | ok a => trivial
  | error e => cases e <;> exact h

theorem isVerdict_rejectIf (c : Bool) (nDoS : Nat) (message : String) : IsVerdict (rejectIf c nDoS message) := by
  cases c <;> trivial

theorem isVerdict_forM {g : α → Except Stop Unit} (hg : ∀ a, IsVerdict (g a)) (xs : List α) :
    IsVerdict (xs.forM g) := by
  induction xs with
  | nil => trivial
  | cons a xs ih => exact isVerdict_bind (hg a) fun _ _ => ih

/-- A loop whose step keeps an invariant and returns a verdict under it. -/
theorem isVerdict_foldlM {σ : Type} {g : σ → α → Except Stop σ} (I : σ → Prop) {xs : List α}
    (hstep : ∀ s, ∀ a ∈ xs, I s → IsVerdict (g s a) ∧ ∀ s', g s a = .ok s' → I s') {s : σ}
    (hI : I s) : IsVerdict (xs.foldlM g s) := by
  induction xs generalizing s with
  | nil => trivial
  | cons a xs ih =>
    rw [List.foldlM_cons]
    obtain ⟨hverdict, hkeeps⟩ := hstep s a List.mem_cons_self hI
    exact isVerdict_bind hverdict fun s' hs' =>
      ih (fun t b hb => hstep t b (List.mem_cons_of_mem a hb)) (hkeeps s' hs')

end Verdict

/-- The running total of the outputs stays in the range of amounts, so the additions are defined. -/
theorem checkTransaction_isVerdict (maxBlockSize : Nat) (tx : CTransaction) :
    IsVerdict (tx.checkTransaction maxBlockSize) := by
  have hout : ∀ nValueOut : Int, ∀ txout ∈ tx.vout, (0 ≤ nValueOut ∧ nValueOut ≤ maxSingleTx) →
      IsVerdict (tx.checkTxOut nValueOut txout) ∧
        ∀ sum, tx.checkTxOut nValueOut txout = .ok sum → 0 ≤ sum ∧ sum ≤ maxSingleTx := by
    intro nValueOut txout _ hrange
    have hcap : maxSingleTx = 2100000000000000 := by decide
    unfold CTransaction.checkTxOut
    constructor
    · refine isVerdict_bind (isVerdict_rejectIf _ _ _) fun _ _ =>
        isVerdict_bind (isVerdict_rejectIf _ _ _) fun _ hneg =>
          isVerdict_bind (isVerdict_rejectIf _ _ _) fun _ hhigh => ?_
      have hneg' : ¬ txout.nValue < 0 := by simpa using hneg
      have hhigh' : ¬ txout.nValue > maxSingleTx := by simpa using hhigh
      have hsum : addI64 nValueOut txout.nValue = .ok (nValueOut + txout.nValue) := by
        unfold addI64
        rw [if_pos (by omega)]
      rw [hsum, Guards.ok_bind]
      exact isVerdict_bind (isVerdict_rejectIf _ _ _) fun _ _ => trivial
    · intro sum hsum
      simp only [Guards.bind_eq_ok, rejectIf_eq_ok] at hsum
      obtain ⟨_, _, _, _, _, _, total, _, _, hmoney, heq⟩ := hsum
      cases heq
      simpa [moneyRange] using hmoney
  unfold CTransaction.checkTransaction
  refine isVerdict_bind (isVerdict_rejectIf _ _ _) fun _ _ =>
    isVerdict_bind (isVerdict_rejectIf _ _ _) fun _ _ =>
      isVerdict_bind (isVerdict_rejectIf _ _ _) fun _ _ =>
        isVerdict_bind (isVerdict_foldlM _ hout (by decide)) fun _ _ =>
          isVerdict_bind (isVerdict_rejectIf _ _ _) fun _ _ => ?_
  unfold CTransaction.checkTxIns
  split
  · exact isVerdict_forM (fun _ => isVerdict_rejectIf _ _ _) _
  · exact isVerdict_forM (fun _ => isVerdict_rejectIf _ _ _) _

namespace CBlock

variable {env : Env} {block : CBlock} {n : Node}

theorem checkStructure_isVerdict (fCheckPOW fCheckSig : Bool) :
    IsVerdict (block.checkStructure env n fCheckPOW fCheckSig) := by
  unfold checkStructure
  exact isVerdict_bind (isVerdict_rejectIf _ _ _) fun _ _ =>
    isVerdict_bind (isVerdict_rejectIf _ _ _) fun _ _ =>
      isVerdict_bind (isVerdict_rejectIf _ _ _) fun _ _ =>
        isVerdict_bind (isVerdict_rejectIf _ _ _) fun _ _ =>
          isVerdict_bind (isVerdict_rejectIf _ _ _) fun _ _ =>
            isVerdict_bind (isVerdict_rejectIf _ _ _) fun _ _ =>
              isVerdict_bind (isVerdict_rejectIf _ _ _) fun _ _ => isVerdict_rejectIf _ _ _

theorem checkTransactionLocks_isVerdict (ext : Ext) : IsVerdict (block.checkTransactionLocks env ext) := by
  unfold checkTransactionLocks
  split
  · refine isVerdict_forM (fun tx => ?_) _
    split
    · trivial
    · exact isVerdict_forM (fun _ => isVerdict_rejectIf _ _ _) _
  · trivial

theorem checkTransactions_isVerdict (fCheckMerkleRoot : Bool) :
    IsVerdict (block.checkTransactions env n fCheckMerkleRoot) := by
  unfold checkTransactions
  refine isVerdict_bind (isVerdict_forM (fun tx => ?_) _) fun _ _ =>
    isVerdict_bind (isVerdict_rejectIf _ _ _) fun _ _ =>
      isVerdict_bind (isVerdict_rejectIf _ _ _) fun _ _ => isVerdict_rejectIf _ _ _
  unfold checkBlockTx
  refine isVerdict_bind ?_ fun _ _ => isVerdict_rejectIf _ _ _
  have hverdict := checkTransaction_isVerdict n.maxBlockSize tx
  cases hr : tx.checkTransaction n.maxBlockSize with
  | ok _ => trivial
  | error e =>
    rw [hr] at hverdict
    cases e with
    | reject d m => trivial
    | exception w => exact hverdict
    | undefined w => exact hverdict

theorem paymentOutputs_of_checkStructure (h : block.checkStructure env n fCheckPOW fCheckSig = .ok ()) :
    block.paymentOutputs block.isProofOfStake = .ok block.paidOutputs ∧ block.paidOutputs ≠ [] := by
  obtain ⟨coinbase, rest, hvtx, hcb⟩ := (checkStructure_wellPlaced h).coinbase_head
  unfold paymentOutputs paidOutputs
  cases hpos : block.isProofOfStake with
  | false =>
    have hout : coinbase.vout ≠ [] := by
      unfold CTransaction.isCoinBase at hcb
      split at hcb
      · intro hnil
        simp [hnil] at hcb
      · cases hcb
    simpa [hvtx, orUndefined, pure, Except.pure] using hout
  | true =>
    unfold isProofOfStake at hpos
    cases rest with
    | nil => simp [hvtx] at hpos
    | cons coinstake rest =>
      simp only [hvtx] at hpos
      have hout : coinstake.vout ≠ [] := by
        unfold CTransaction.isCoinStake at hpos
        split at hpos
        · rename_i heq
          simp [heq]
        · cases hpos
      simpa [hvtx, orUndefined, pure, Except.pure] using hout

theorem checkPaymentOut_isVerdict (hm : c.nProofOfIndexMasternode < c.vout.length)
    (hd : c.nProofOfIndexDevops < c.vout.length) (fBlockHasPayments : Bool) (out : CTxOut × Nat) :
    IsVerdict (checkPaymentOut env ext c fBlockHasPayments out) := by
  unfold checkPaymentOut
  rw [List.getElem?_eq_getElem hm, List.getElem?_eq_getElem hd]
  trivial

theorem checkPaymentOut_undefined
    (h : c.vout.length ≤ c.nProofOfIndexMasternode ∨ c.vout.length ≤ c.nProofOfIndexDevops)
    (fBlockHasPayments : Bool) (out : CTxOut × Nat) :
    ¬ IsVerdict (checkPaymentOut env ext c fBlockHasPayments out) := by
  unfold checkPaymentOut
  cases hm : c.vout[c.nProofOfIndexMasternode]? with
  | none => exact id
  | some masternode =>
    have hlt := (List.getElem?_eq_some_iff.mp hm).1
    rw [List.getElem?_eq_none (h.resolve_left (by omega))]
    exact id

theorem paymentIndexes_lt_iff (isProofOfStake : Bool) (nOutputs : Nat) :
    ((paymentIndexes isProofOfStake nOutputs).1 < nOutputs ∧
      (paymentIndexes isProofOfStake nOutputs).2.1 < nOutputs) ↔ outputsIndexed isProofOfStake ≤ nOutputs := by
  unfold paymentIndexes outputsIndexed
  split_ifs <;> simp only <;> omega

theorem standardPayment_ok (hbest : n.pindexBest = some hBest)
    (hentry : n.mapBlockIndex.entries hBest = some pindexBest)
    (hheight : 0 < pindexBest.nHeight) (isProofOfStake : Bool) :
    ∃ nStandardPayment, standardPayment n isProofOfStake = .ok nStandardPayment := by
  unfold standardPayment getProofOfStakeReward getProofOfWorkReward bestMoneySupply
  simp only [hbest, Option.bind_some, hentry, Option.map_some, orUndefined, Guards.ok_bind]
  cases isProofOfStake with
  | false => exact ⟨_, rfl⟩
  | true =>
    cases hpp : pindexBest.pprev with
    | none =>
      have := n.mapBlockIndex.root_height hentry hpp
      omega
    | some p =>
      obtain ⟨f, hf, _⟩ := n.mapBlockIndex.prev_height hentry hpp
      simp only [if_true, Option.bind_some, hf, Guards.ok_bind]
      exact ⟨_, rfl⟩

theorem checkPayments_isVerdict_iff (hbest : n.pindexBest = some hBest)
    (hentry : n.mapBlockIndex.entries hBest = some pindexBest) (hheight : 0 < pindexBest.nHeight)
    (hstructure : block.checkStructure env n fCheckPOW fCheckSig = .ok ()) : IsVerdict (block.checkPayments env n) ↔
      outputsIndexed block.isProofOfStake ≤ block.paidOutputs.length := by
  obtain ⟨houtputs, hnonempty⟩ := paymentOutputs_of_checkStructure hstructure
  obtain ⟨nStandardPayment, hstandard⟩ :=
    standardPayment_ok hbest hentry hheight block.isProofOfStake
  unfold checkPayments isProofOfWork
  simp only [hbest, Option.bind_some, hentry, orUndefined, Guards.ok_bind, Bool.not_not, houtputs, hstandard]
  rw [← paymentIndexes_lt_iff]
  constructor
  · intro hverdict
    by_contra hshort
    cases hout : block.paidOutputs with
    | nil => exact hnonempty hout
    | cons txout rest =>
      have hloop := hverdict.of_bind
      conv at hloop => arg 1; arg 3; rw [hout]
      rw [List.zipIdx_cons, List.foldlM_cons] at hloop
      exact checkPaymentOut_undefined
        ((not_and_or.mp hshort).imp Nat.le_of_not_lt Nat.le_of_not_lt) _ _ hloop.of_bind
  · rintro ⟨hm, hd⟩
    refine isVerdict_bind (isVerdict_foldlM (fun _ => True) (fun s out _ _ =>
      ⟨checkPaymentOut_isVerdict hm hd s out, fun _ _ => trivial⟩) trivial) fun _ _ =>
        isVerdict_rejectIf _ _ _

/-- **CheckBlock and its indexes.** On a node whose best block is known and at the best height, it returns
    a verdict exactly when it does not come to the payments of a block with too few outputs: it is
    rejected before, the payments are not verified, or the outputs are as many as the indexes reach
    into. -/
theorem checkBlock_isVerdict_iff {pindexBest : CBlockIndex} {hBest : UInt256}
    (fCheckPOW fCheckMerkleRoot fCheckSig : Bool) (hbest : n.pindexBest = some hBest)
    (hentry : n.mapBlockIndex.entries hBest = some pindexBest) (hheight : n.nBestHeight = pindexBest.nHeight) :
    IsVerdict (block.checkBlock env fCheckPOW fCheckMerkleRoot fCheckSig n).1 ↔
      ¬ (block.checkStructure env n fCheckPOW fCheckSig = .ok () ∧
        block.checkTransactionLocks env n.ext = .ok () ∧ checksPayments n = true ∧
        block.paidOutputs.length < outputsIndexed block.isProofOfStake) := by
  have hbestOk : n.pindexBest.bind n.mapBlockIndex.entries = some pindexBest := by
    rw [hbest, Option.bind_some, hentry]
  have hresult : (block.checkBlock env fCheckPOW fCheckMerkleRoot fCheckSig n).1 = (do
        block.checkStructure env n fCheckPOW fCheckSig
        block.checkTransactionLocks env n.ext
        (paymentStep env block n).1
        block.checkTransactions env n fCheckMerkleRoot) := by
    rw [checkBlock_apply, hbestOk]
    cases block.checkStructure env n fCheckPOW fCheckSig <;>
      cases block.checkTransactionLocks env n.ext <;> cases (paymentStep env block n).1 <;> rfl
  have htail : ∀ {x : Except Stop Unit}, IsVerdict (x >>= fun _ =>
      block.checkTransactions env n fCheckMerkleRoot) ↔ IsVerdict x :=
    fun {x} => ⟨IsVerdict.of_bind, fun h => isVerdict_bind h fun _ _ =>
      checkTransactions_isVerdict fCheckMerkleRoot⟩
  rw [hresult, isVerdict_bind_iff (checkStructure_isVerdict fCheckPOW fCheckSig)]
  simp only [isVerdict_bind_iff (checkTransactionLocks_isVerdict n.ext), htail]
  unfold paymentStep
  cases hgate : checksPayments n with
  | false => simp [IsVerdict]
  | true =>
    have hheight0 : 0 < pindexBest.nHeight := by
      simp only [checksPayments, Bool.and_eq_true, decide_eq_true_eq] at hgate
      omega
    simp only [if_true, true_and]
    constructor
    · rintro hall ⟨hstructure, hlocks, hshort⟩
      have hverdict := hall () hstructure () hlocks
      rw [checkPayments_isVerdict_iff hbest hentry hheight0 hstructure] at hverdict
      omega
    · intro hnot _ hstructure _ hlocks
      rw [checkPayments_isVerdict_iff hbest hentry hheight0 hstructure]
      by_contra hshort
      exact hnot ⟨hstructure, hlocks, by omega⟩

/-- A loop that ends with the payments in place started with them and found them in every round. By
    induction on the outputs: a round never restores the flag. -/
theorem checkPaymentOut_foldlM_true {outs : List (CTxOut × Nat)} {fBlockHasPayments : Bool}
    (h : outs.foldlM (checkPaymentOut env ext c) fBlockHasPayments = .ok true) :
    fBlockHasPayments = true ∧ ∀ out ∈ outs, checkPaymentOut env ext c true out = .ok true := by
  induction outs generalizing fBlockHasPayments with
  | nil => exact ⟨Guards.foldlM_nil_eq_ok.mp h, by simp⟩
  | cons out outs ih =>
    obtain ⟨flag, hround, hrest⟩ := Guards.foldlM_cons_eq_ok.mp h
    obtain ⟨rfl, hall⟩ := ih hrest
    have hflag : fBlockHasPayments = true := by
      unfold checkPaymentOut at hround
      simp only [Guards.bind_eq_ok, orUndefined_eq_ok] at hround
      obtain ⟨_, _, _, _, hround⟩ := hround
      have hand := Except.ok.inj hround
      simp only [Bool.and_eq_true] at hand
      exact hand.1.1
    subst hflag
    refine ⟨rfl, fun out' hout' => ?_⟩
    rcases List.mem_cons.mp hout' with rfl | hmem
    · exact hround
    · exact hall out' hmem

theorem paymentIndexes_expected {isProofOfStake : Bool} {nOutputs : Nat}
    (h : (paymentIndexes isProofOfStake nOutputs).2.2 = true) :
    (paymentIndexes isProofOfStake nOutputs).1 < nOutputs ∧
      (paymentIndexes isProofOfStake nOutputs).2.1 < nOutputs := by
  unfold paymentIndexes at h ⊢
  split_ifs at h ⊢ <;> simp_all

theorem checkPaymentOut_true {masternode devops : CTxOut} (hm : c.vout[c.nProofOfIndexMasternode]? = some masternode)
    (hd : c.vout[c.nProofOfIndexDevops]? = some devops)
    (hround : ∀ out ∈ c.vout.zipIdx, checkPaymentOut env ext c true out = .ok true) :
    masternode.nValue.tdiv coin = c.nMasternodePayment ∧
      env.addressOf devops.scriptPubKey = env.params.strDevOpsAddress ∧
      c.nDevopsPayment ≤ devops.nValue.tdiv coin := by
  have hm' := hround (masternode, c.nProofOfIndexMasternode) (List.mem_zipIdx_iff_getElem?.mpr hm)
  have hd' := hround (devops, c.nProofOfIndexDevops) (List.mem_zipIdx_iff_getElem?.mpr hd)
  unfold checkPaymentOut at hm' hd'
  simp only [hm, hd, orUndefined, Guards.ok_bind] at hm' hd'
  have hm'' := Except.ok.inj hm'
  have hd'' := Except.ok.inj hd'
  simp only [bne_self_eq_false, Bool.false_or, Bool.true_and, Bool.and_eq_true, Bool.or_eq_true,
    ite_self, beq_iff_eq, decide_eq_true_eq, ge_iff_le] at hm'' hd''
  refine ⟨hm''.1.2, hd''.2.1, ?_⟩
  rcases hd''.2.2 with heq | hle
  · omega
  · exact hle

theorem checkPayments_pays (hbest : n.pindexBest.bind n.mapBlockIndex.entries = some pindexBest)
    (hstructure : block.checkStructure env n fCheckPOW fCheckSig = .ok ()) (h : block.checkPayments env n = .ok ()) :
    ∃ nStandardPayment masternode devops, Pays env n block pindexBest nStandardPayment masternode devops := by
  obtain ⟨houtputs, -⟩ := paymentOutputs_of_checkStructure hstructure
  unfold checkPayments isProofOfWork at h
  simp only [hbest, orUndefined, Guards.ok_bind, Bool.not_not, houtputs, Guards.bind_eq_ok,
    rejectIf_eq_ok, Bool.not_eq_false'] at h
  obtain ⟨nStandardPayment, hstandard, flag, hloop, hflag⟩ := h
  subst hflag
  generalize hdueM : (getMasternodePayment pindexBest.nHeight nStandardPayment).tdiv coin = dueM at hloop
  generalize hdueD : (getDevOpsPayment pindexBest.nHeight nStandardPayment).tdiv coin = dueD at hloop
  obtain ⟨hexpected, hround⟩ := checkPaymentOut_foldlM_true hloop
  obtain ⟨hm, hd⟩ := paymentIndexes_expected hexpected
  have hmasternode := List.getElem?_eq_getElem hm
  have hdevops := List.getElem?_eq_getElem hd
  obtain ⟨hamount, haddress, hleast⟩ := checkPaymentOut_true
    (c := ⟨block.isProofOfStake, block.paidOutputs, _, _, dueM, dueD⟩) hmasternode hdevops hround
  refine ⟨nStandardPayment, _, _, hstandard, hexpected, hmasternode, hdevops, ?_, haddress, ?_⟩
  · rw [hdueM]
    exact hamount
  · rw [hdueD]
    exact hleast

theorem eq_iff_tmod_of_tdiv (h : a.tdiv coin = b.tdiv coin) : a = b ↔ a.tmod coin = b.tmod coin := by
  have ha := Int.mul_tdiv_add_tmod a coin
  have hb := Int.mul_tdiv_add_tmod b coin
  rw [h] at ha
  omega

theorem le_iff_tmod_of_tdiv (hb0 : 0 ≤ b) (h : b.tdiv coin ≤ a.tdiv coin) :
    b ≤ a ↔ b.tdiv coin < a.tdiv coin ∨ b.tmod coin ≤ a.tmod coin := by
  have ha := Int.mul_tdiv_add_tmod a coin
  have hb := Int.mul_tdiv_add_tmod b coin
  have hbmod := Int.tmod_lt_of_pos b (by decide : 0 < coin)
  have hamod := Int.lt_tmod_of_pos a (by decide : 0 < coin)
  have hbdiv : 0 ≤ b.tdiv coin := Int.tdiv_nonneg hb0 (by decide)
  have hsign : 0 ≤ a → 0 ≤ a.tmod coin := Int.tmod_nonneg coin
  generalize a.tdiv coin = wholeA at *
  generalize b.tdiv coin = wholeB at *
  have hcoin : coin = 100000000 := rfl
  simp only [hcoin] at *
  omega

/-- **Whole coins.** In an accepted block whose payments were verified, the masternode gets as many whole
    coins as are due and the developers at least as many. The amounts are the ones due exactly when the
    parts below a coin, which the comparisons drop, agree as well. -/
theorem checkBlock_pays_iff {n' : Node} {pindexBest : CBlockIndex} {hBest : UInt256}
    {fCheckPOW fCheckMerkleRoot fCheckSig : Bool} (hbest : n.pindexBest = some hBest)
    (hentry : n.mapBlockIndex.entries hBest = some pindexBest)
    (hheight : n.nBestHeight = pindexBest.nHeight) (hgate : checksPayments n = true)
    (h : block.checkBlock env fCheckPOW fCheckMerkleRoot fCheckSig n = (.ok (), n')) :
    ∃ nStandardPayment masternode devops, Pays env n block pindexBest nStandardPayment masternode devops ∧
      ((masternode.nValue = getMasternodePayment pindexBest.nHeight nStandardPayment ∧
          getDevOpsPayment pindexBest.nHeight nStandardPayment ≤ devops.nValue) ↔
        (masternode.nValue.tmod coin
            = (getMasternodePayment pindexBest.nHeight nStandardPayment).tmod coin ∧
          ((getDevOpsPayment pindexBest.nHeight nStandardPayment).tdiv coin < devops.nValue.tdiv coin ∨
            (getDevOpsPayment pindexBest.nHeight nStandardPayment).tmod coin
              ≤ devops.nValue.tmod coin))) := by
  obtain ⟨hchecked, -⟩ := checkBlock_returns.mp h
  have hbestOk : n.pindexBest.bind n.mapBlockIndex.entries = some pindexBest := by
    rw [hbest, Option.bind_some, hentry]
  obtain ⟨nStandardPayment, masternode, devops, hpays⟩ :=
    checkPayments_pays hbestOk hchecked.structureOk (hchecked.paymentsOk hgate)
  have hdue : 0 ≤ getDevOpsPayment pindexBest.nHeight nStandardPayment := by
    simp only [checksPayments, Bool.and_eq_true, decide_eq_true_eq] at hgate
    unfold getDevOpsPayment
    rw [if_neg (by omega)]
    decide
  refine ⟨nStandardPayment, masternode, devops, hpays, ?_⟩
  rw [eq_iff_tmod_of_tdiv hpays.masternodeAmount, le_iff_tmod_of_tdiv hdue hpays.devopsAmount]

end CBlock

namespace Sample

def payingNode : Node := { chainNode 726 with nMasterNodeChecksDelayBaseTime := 0 }

theorem chainBlock_isVerdict_iff : IsVerdict ((chainBlock 727).checkBlock env true true true payingNode).1 ↔
      ¬ ((chainBlock 727).checkStructure env payingNode true true = .ok () ∧
        (chainBlock 727).checkTransactionLocks env payingNode.ext = .ok () ∧
        CBlock.checksPayments payingNode = true ∧
        (chainBlock 727).paidOutputs.length
          < CBlock.outputsIndexed (chainBlock 727).isProofOfStake) :=
  CBlock.checkBlock_isVerdict_iff true true true rfl
    (entry_chainNode (by decide) le_rfl : payingNode.mapBlockIndex.entries (blockHash 726) = _) rfl

/-- `CheckBlock` reads the second output of a coinbase that has one. -/
theorem chainBlock_reads_beyond :
    ¬ ∀ (env : Env) (block : CBlock) (n : Node) (hBest : UInt256) (pindexBest : CBlockIndex),
      n.pindexBest = some hBest → n.mapBlockIndex.entries hBest = some pindexBest →
      n.nBestHeight = pindexBest.nHeight → IsVerdict (block.checkBlock env true true true n).1 := by
  intro hall
  have hverdict := hall env (chainBlock 727) payingNode (blockHash 726) (chainEntry 726 726) rfl
    (entry_chainNode (by decide) le_rfl) rfl
  have hundefined : ((chainBlock 727).checkBlock env true true true payingNode).1
      = .error (.undefined "vout[nProofOfIndexMasternode]") := by decide
  rw [hundefined] at hverdict
  exact hverdict

def devOpsEnv : Env := { env with addressOf := fun _ => env.params.strDevOpsAddress }

/-- The next block of the chain with a coinbase of three outputs: three coins for the masternode and a
    hundredth of a coin for the developers. -/
def frugalBlock : CBlock :=
  { chainBlock 727 with
    vtx := [{ coinbaseTx 727 with vout := [⟨coin, [0x51]⟩, ⟨3 * coin, [0x51]⟩, ⟨cent, [0x51]⟩] }] }

theorem frugalBlock_accepted : (frugalBlock.checkBlock devOpsEnv true true true payingNode).1 = .ok () := by
  decide

theorem frugalBlock_pays_iff : ∃ nStandardPayment masternode devops,
      CBlock.Pays devOpsEnv payingNode frugalBlock (chainEntry 726 726) nStandardPayment masternode
        devops ∧
      ((masternode.nValue = getMasternodePayment (chainEntry 726 726).nHeight nStandardPayment ∧
          getDevOpsPayment (chainEntry 726 726).nHeight nStandardPayment ≤ devops.nValue) ↔
        (masternode.nValue.tmod coin
            = (getMasternodePayment (chainEntry 726 726).nHeight nStandardPayment).tmod coin ∧
          ((getDevOpsPayment (chainEntry 726 726).nHeight nStandardPayment).tdiv coin
              < devops.nValue.tdiv coin ∨
            (getDevOpsPayment (chainEntry 726 726).nHeight nStandardPayment).tmod coin
              ≤ devops.nValue.tmod coin))) :=
  CBlock.checkBlock_pays_iff rfl
    (entry_chainNode (by decide) le_rfl : payingNode.mapBlockIndex.entries (blockHash 726) = _) rfl
    (by decide) (Exec.eq_of_fst frugalBlock_accepted)

/-- The block is accepted although it pays half a coin less to the masternode than is due, and less than
    is due to the developers. -/
theorem frugalBlock_underpays : (frugalBlock.checkBlock devOpsEnv true true true payingNode).1 = .ok () ∧
    CBlock.checksPayments payingNode = true ∧ ∃ masternode devops, frugalBlock.paidOutputs[1]? = some masternode ∧
      frugalBlock.paidOutputs[2]? = some devops ∧
      (∀ nStandardPayment, masternode.nValue < getMasternodePayment 726 nStandardPayment) ∧
      ∀ nStandardPayment, devops.nValue < getDevOpsPayment 726 nStandardPayment :=
  ⟨frugalBlock_accepted, by decide, ⟨3 * coin, [0x51]⟩, ⟨cent, [0x51]⟩, rfl, rfl,
    fun _ => by unfold getMasternodePayment; decide,
    fun _ => by unfold getDevOpsPayment; rw [if_neg (by decide)]; decide⟩

end Sample

end PupaCoin
