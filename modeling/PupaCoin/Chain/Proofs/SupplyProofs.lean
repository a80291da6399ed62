import PupaCoin.Chain.Supply
import PupaCoin.Chain.Sample
import PupaCoin.Chain.Proofs.ConnectBlockProofs

/-!
# Supply conservation

The accumulators of `ConnectBlock` are sums over the ledger of the block (`loop_totals`). A
proof-of-stake block therefore creates at most the subsidy.
-/

namespace PupaCoin

variable {a b v nMoneySupply : Int} {tx coinbase : CTransaction} {inputs : MapPrevTx} {st st' : ConnectState}
  {rest : List CTransaction} {ledger : List LedgerEntry} {n1 : Node}

namespace CTransaction

theorem foldlM_addValueOut {vout : List CTxOut} (h : vout.foldlM addValueOut a = .ok b) :
    b = a + (vout.map CTxOut.nValue).sum := by
  induction vout generalizing a with
  | nil =>
    rw [Guards.foldlM_nil_eq_ok] at h
    simp [h]
  | cons txout vout ih =>
    obtain ⟨c, hc, hrest⟩ := Guards.foldlM_cons_eq_ok.mp h
    have hstep : c = a + txout.nValue := by
      unfold addValueOut at hc
      simp only [Guards.bind_eq_ok] at hc
      obtain ⟨sum, hsum, hc⟩ := hc
      split at hc
      · simp [bind, Except.bind, throw, throwThe, MonadExceptOf.throw] at hc
      · rw [← addI64_eq_ok hsum]
        exact (Except.ok.inj hc).symm
    rw [ih hrest, hstep, List.map_cons, List.sum_cons]
    ring

theorem getValueOut_eq_ok (h : tx.getValueOut = .ok v) : v = tx.valueOut := by
  have := foldlM_addValueOut h
  simpa [valueOut] using this

theorem prevValue_of_lookup {prevout : COutPoint} {prev : CTxIndex × CTransaction} {txout : CTxOut}
    (hlookup : inputs.lookup prevout.hash = some prev)
    (hout : prev.2.vout[prevout.n.toNat]? = some txout) : prevValue inputs prevout = txout.nValue := by
  unfold prevValue
  rw [hlookup, Option.bind_some, hout]
  rfl

theorem addValueIn_eq_ok {txin : CTxIn} (h : addValueIn inputs a txin = .ok b)
    : b = a + prevValue inputs txin.prevout := by
  unfold addValueIn at h
  rw [Guards.bind_eq_ok] at h
  obtain ⟨txout, hout, hsum⟩ := h
  have hval : prevValue inputs txin.prevout = txout.nValue := by
    unfold getOutputFor at hout
    split at hout
    · cases hout
    · rename_i txindex txPrev hlook
      split at hout
      · cases hout
      · rename_i txout' hout'
        cases hout
        exact prevValue_of_lookup hlook hout'
  rw [addI64_eq_ok hsum, hval]

theorem getValueMapIn_eq_ok (hcb : tx.isCoinBase = false) (h : tx.getValueMapIn inputs = .ok v)
    : v = tx.spentValue inputs := by
  have hfold : ∀ (vin : List CTxIn) (a b : Int), vin.foldlM (addValueIn inputs) a = .ok b →
      b = a + (vin.map fun txin => prevValue inputs txin.prevout).sum := by
    intro vin
    induction vin with
    | nil =>
      intro a b h
      rw [Guards.foldlM_nil_eq_ok] at h
      simp [h]
    | cons txin vin ih =>
      intro a b h
      obtain ⟨c, hc, hrest⟩ := Guards.foldlM_cons_eq_ok.mp h
      rw [ih c b hrest, addValueIn_eq_ok hc, List.map_cons, List.sum_cons]
      ring
  unfold getValueMapIn at h
  rw [hcb] at h
  simpa [spentValue] using hfold tx.vin 0 v h

theorem isCoinStake_of_isCoinBase (h : tx.isCoinBase = true) : tx.isCoinStake = false := by
  unfold isCoinBase at h
  unfold isCoinStake
  split at h
  · rename_i txin hvin
    rw [hvin]
    cases hv : tx.vout with
    | nil => rfl
    | cons a rest =>
      cases rest with
      | nil => rfl
      | cons b rest => simp_all
  · cases h

end CTransaction

@[simp] theorem ledgerSum_nil (f : LedgerEntry → Int) : ledgerSum f [] = 0 := rfl

@[simp] theorem ledgerSum_cons (f : LedgerEntry → Int) (entry : LedgerEntry) (ledger : List LedgerEntry)
    : ledgerSum f (entry :: ledger) = f entry + ledgerSum f ledger := by
  simp [ledgerSum]

namespace CBlock

variable {env : Env} {block : CBlock} {n n' : Node} {h : UInt256} {fJustCheck : Bool}
  {pindex : CBlockIndex}

theorem connectTx_totals (hround : connectTx env n pindex fJustCheck st tx = .ok st') :
    ∃ inputs, (tx.fetchInputs n n.view.readTxIndex st.mapQueuedChanges true false) = .ok inputs ∧
      st'.nValueOut - st'.nValueIn = st.nValueOut - st.nValueIn + LedgerEntry.issue ⟨tx, inputs⟩ ∧
      st'.nFees = st.nFees + LedgerEntry.fee ⟨tx, inputs⟩ ∧
      st'.nStakeReward = if tx.isCoinStake then LedgerEntry.issue ⟨tx, inputs⟩ else st.nStakeReward := by
  cases hcb : tx.isCoinBase with
  | true =>
    obtain ⟨out, hout, rfl⟩ := connectTx_of_coinbase hcb hround
    have hv := CTransaction.getValueOut_eq_ok hout
    have hcs := CTransaction.isCoinStake_of_isCoinBase hcb
    refine ⟨∅, by simp [CTransaction.fetchInputs, hcb], ?_, ?_, ?_⟩
    · simp only [LedgerEntry.issue, LedgerEntry.spent, hcb, if_true, hv]
      ring
    · simp [LedgerEntry.fee, hcb]
    · simp [hcs]
  | false =>
    obtain ⟨inputs, nIn, nOut, queued, _, hspend, rfl⟩ := connectTx_of_spending hcb hround
    have hin := CTransaction.getValueMapIn_eq_ok hcb hspend.valueIn
    have hout := CTransaction.getValueOut_eq_ok hspend.valueOut
    have hissue : LedgerEntry.issue ⟨tx, inputs⟩ = nOut - nIn := by
      simp [LedgerEntry.issue, LedgerEntry.spent, hcb, hin, hout]
    refine ⟨inputs, hspend.fetched, ?_, ?_, ?_⟩
    · rw [hissue]
      ring
    · cases hcs : tx.isCoinStake with
      | true => simp [LedgerEntry.fee, hcs]
      | false =>
        simp only [LedgerEntry.fee, hcb, hcs, hissue]
        simp
    · simp only [hissue]

theorem netIssue_eq_sum (ledger : List LedgerEntry) : netIssue ledger = ledgerSum LedgerEntry.issue ledger := by
  induction ledger with
  | nil => rfl
  | cons entry ledger ih =>
    simp only [netIssue, ledgerSum_cons, LedgerEntry.issue] at ih ⊢
    rw [← ih]
    ring

theorem loop_totals (vtx : List CTransaction) (hloop : vtx.foldlM (connectTx env n pindex fJustCheck) st = .ok st') :
    (ledgerFrom env n pindex fJustCheck st vtx).map LedgerEntry.tx = vtx ∧ st'.nValueOut - st'.nValueIn
        = st.nValueOut - st.nValueIn + netIssue (ledgerFrom env n pindex fJustCheck st vtx) ∧
      st'.nFees
        = st.nFees + ledgerSum LedgerEntry.fee (ledgerFrom env n pindex fJustCheck st vtx) := by
  induction vtx generalizing st with
  | nil =>
    rw [Guards.foldlM_nil_eq_ok] at hloop
    subst hloop
    simp [ledgerFrom, netIssue_eq_sum]
  | cons tx vtx ih =>
    obtain ⟨st1, hround, hrest⟩ := Guards.foldlM_cons_eq_ok.mp hloop
    obtain ⟨inputs, hfetch, hissue, hfee, _⟩ := connectTx_totals hround
    obtain ⟨htxs, hissues, hfees⟩ := ih hrest
    simp only [ledgerFrom, hround, hfetch, Except.toOption, Option.getD_some, List.map_cons,
      netIssue_eq_sum, ledgerSum_cons] at hissues ⊢
    exact ⟨by rw [htxs], by rw [hissues, hissue]; ring, by rw [hfees, hfee]; ring⟩

theorem loop_stakeReward_of_none (vtx : List CTransaction) (hnone : ∀ tx ∈ vtx, tx.isCoinStake = false)
    (hloop : vtx.foldlM (connectTx env n pindex fJustCheck) st = .ok st') : st'.nStakeReward = st.nStakeReward ∧
      ledgerSum LedgerEntry.stakeIssue (ledgerFrom env n pindex fJustCheck st vtx) = 0 := by
  induction vtx generalizing st with
  | nil =>
    rw [Guards.foldlM_nil_eq_ok] at hloop
    simp [ledgerFrom, hloop]
  | cons tx vtx ih =>
    obtain ⟨st1, hround, hrest⟩ := Guards.foldlM_cons_eq_ok.mp hloop
    obtain ⟨inputs, hfetch, _, _, hstake⟩ := connectTx_totals hround
    have hcs := hnone tx List.mem_cons_self
    obtain ⟨hreward, hsum⟩ := ih (fun t ht => hnone t (List.mem_cons_of_mem _ ht)) hrest
    simp only [ledgerFrom, hround, ledgerSum_cons, hsum, LedgerEntry.stakeIssue, hcs]
    rw [hreward, hstake, hcs]
    simp

theorem loop_stakeReward_of_second {coinstake : CTransaction} (hcb : coinbase.isCoinBase = true) (hcs : coinstake.isCoinStake = true)
    (hrest : ∀ tx ∈ rest, tx.isCoinStake = false)
    (hloop : (coinbase :: coinstake :: rest).foldlM (connectTx env n pindex fJustCheck) st = .ok st') :
    st'.nStakeReward = ledgerSum LedgerEntry.stakeIssue
      (ledgerFrom env n pindex fJustCheck st (coinbase :: coinstake :: rest)) := by
  obtain ⟨st1, hround1, hloop1⟩ := Guards.foldlM_cons_eq_ok.mp hloop
  obtain ⟨st2, hround2, hloop2⟩ := Guards.foldlM_cons_eq_ok.mp hloop1
  obtain ⟨inputs, hfetch, _, _, hstake⟩ := connectTx_totals hround2
  obtain ⟨hreward, hsum⟩ := loop_stakeReward_of_none rest hrest hloop2
  simp only [ledgerFrom, hround1, hround2, ledgerSum_cons, hsum, LedgerEntry.stakeIssue,
    CTransaction.isCoinStake_of_isCoinBase hcb, hcs, hfetch, Except.toOption, Option.getD_some]
  rw [hreward, hstake, hcs]
  simp

theorem issue_eq (entry : LedgerEntry) :
    entry.issue = (if entry.tx.isCoinBase then entry.tx.valueOut else 0) + entry.stakeIssue
      - entry.fee := by
  unfold LedgerEntry.stakeIssue LedgerEntry.fee
  cases hcb : entry.tx.isCoinBase with
  | true =>
    simp [CTransaction.isCoinStake_of_isCoinBase hcb, LedgerEntry.issue, LedgerEntry.spent, hcb]
  | false => cases hcs : entry.tx.isCoinStake <;> simp

theorem netIssue_eq (htxs : ledger.map LedgerEntry.tx = coinbase :: rest) (hcb : coinbase.isCoinBase = true)
    (hrest : ∀ tx ∈ rest, tx.isCoinBase = false) :
    netIssue ledger = coinbase.valueOut + ledgerSum LedgerEntry.stakeIssue ledger
      - ledgerSum LedgerEntry.fee ledger := by
  have htail : ∀ tail : List LedgerEntry, (∀ entry ∈ tail, entry.tx.isCoinBase = false) →
      ledgerSum LedgerEntry.issue tail
        = ledgerSum LedgerEntry.stakeIssue tail - ledgerSum LedgerEntry.fee tail := by
    intro tail
    induction tail with
    | nil => simp
    | cons entry tail ih =>
      intro hall
      have hentry := issue_eq entry
      rw [hall entry List.mem_cons_self] at hentry
      rw [ledgerSum_cons, ledgerSum_cons, ledgerSum_cons, ih fun e he => hall e (List.mem_cons_of_mem _ he), hentry]
      simp only [Bool.false_eq_true, if_false]
      ring
  cases ledger with
  | nil => simp at htxs
  | cons entry tail =>
    simp only [List.map_cons, List.cons.injEq] at htxs
    obtain ⟨rfl, htail'⟩ := htxs
    have hentry := issue_eq entry
    rw [hcb] at hentry
    have hsum := htail tail fun e he => hrest e.tx (htail' ▸ List.mem_map_of_mem he)
    simp only [netIssue_eq_sum, ledgerSum_cons, hsum, hentry, if_true]
    ring

theorem bestMoneySupply_of_limitsOnly {n n' : Node} (h : LimitsOnly n n') :
    bestMoneySupply n' = bestMoneySupply n := by
  obtain ⟨_, _, _, _, _, _, _, rfl⟩ := h
  rfl

theorem blockReward_eq (nMoneySupply nHeight nFees : Int) :
    blockReward nMoneySupply nHeight nFees = blockReward nMoneySupply nHeight 0 + nFees := by
  unfold blockReward
  split_ifs <;> ring

theorem bareSubsidy_eq {pindex : CBlockIndex} (hp : n.mapBlockIndex.entries h = some pindex) (hs : bestMoneySupply n = .ok nMoneySupply)
    (hprev : block.isProofOfStake = true → pindex.pprev ≠ none) (nCoinAge : Nat) :
    bareSubsidy n block pindex nCoinAge = .ok (blockReward nMoneySupply pindex.nHeight 0) := by
  unfold bareSubsidy isProofOfWork
  cases hpos : block.isProofOfStake with
  | false => simp [getProofOfWorkReward, hs, bind, Except.bind, pure, Except.pure]
  | true =>
    cases hpp : pindex.pprev with
    | none => exact absurd hpp (hprev hpos)
    | some p =>
      obtain ⟨f, hf, hh⟩ := n.mapBlockIndex.prev_height hp hpp
      simp [getProofOfStakeReward, hs, hf, hh, orUndefined, bind, Except.bind, pure, Except.pure]

theorem Approves.totals (hc : Approves env block h fJustCheck n pindex n1 st) :
    (block.ledger env pindex fJustCheck n).map LedgerEntry.tx = block.vtx ∧
      st.nValueOut - st.nValueIn = netIssue (block.ledger env pindex fJustCheck n) ∧
      st.nFees = ledgerSum LedgerEntry.fee (block.ledger env pindex fJustCheck n) ∧
      (block.isProofOfStake = true → st.nStakeReward
        = ledgerSum LedgerEntry.stakeIssue (block.ledger env pindex fJustCheck n)) := by
  have hnode : block.loopNode env pindex fJustCheck n = n1 := by
    unfold loopNode
    rw [checkBlock_returns.mpr ⟨hc.checked, rfl⟩, hc.limits]
  have hledger : block.ledger env pindex fJustCheck n
      = ledgerFrom env n1 pindex fJustCheck (connectInit pindex block fJustCheck) block.vtx := by
    rw [ledger, hnode]
  obtain ⟨htxs, hissue, hfee⟩ := loop_totals block.vtx hc.loop
  rw [hledger]
  refine ⟨htxs, by simpa [connectInit] using hissue, by simpa [connectInit] using hfee, fun hpos => ?_⟩
  have hplaced := checkStructure_wellPlaced hc.checked.structureOk
  obtain ⟨coinbase, rest, hvtx, hcb⟩ := hplaced.coinbase_head
  have hstake := hplaced.coinstake_tail hpos
  unfold isProofOfStake at hpos
  cases rest with
  | nil => simp [hvtx] at hpos
  | cons coinstake rest =>
    simp only [hvtx] at hpos
    have hloop := hc.loop
    rw [hvtx] at hloop hstake ⊢
    exact loop_stakeReward_of_second hcb hpos hstake hloop

theorem Approves.supply (hc : Approves env block h fJustCheck n pindex n1 st) :
    ∃ nMoneySupply, bestMoneySupply n = .ok nMoneySupply ∧ bestMoneySupply n1 = .ok nMoneySupply := by
  obtain ⟨pindexBest, hbest⟩ := hc.checked.bestOk
  refine ⟨pindexBest.nMoneySupply, by simp [bestMoneySupply, hbest, orUndefined], ?_⟩
  rw [bestMoneySupply_of_limitsOnly hc.limitsOnly]
  simp [bestMoneySupply, hbest, orUndefined]

theorem Approves.stakeReward (hc : Approves env block h fJustCheck n pindex n1 st)
    (hpos : block.isProofOfStake = true) (hs : bestMoneySupply n1 = .ok nMoneySupply) :
    pindex.pprev ≠ none ∧ st.nStakeReward ≤ blockReward nMoneySupply pindex.nHeight st.nFees := by
  have hreward := hc.reward
  unfold checkReward isProofOfWork at hreward
  rw [hpos] at hreward
  simp only [Bool.not_true, Bool.false_eq_true, if_false, checkStakeReward, Guards.bind_eq_ok,
    rejectIf_eq_ok, orUndefined_eq_ok, decide_eq_false_iff_not] at hreward
  obtain ⟨_, _, _, _, pprev, hpprev, nReward, hcalc, hle⟩ := hreward
  obtain ⟨p, hpp, hpe⟩ := Option.bind_eq_some_iff.mp hpprev
  obtain ⟨f, hf, hh⟩ := n.mapBlockIndex.prev_height hc.entry hpp
  obtain ⟨_, _, _, _, _, _, _, hn1⟩ := hc.limitsOnly
  rw [hn1] at hpe
  have hfp : f = pprev := Option.some.inj (hf.symm.trans hpe)
  have hnr : nReward = blockReward nMoneySupply pindex.nHeight st.nFees := by
    rw [hh, hfp]
    simpa [getProofOfStakeReward, hs, bind, Except.bind, pure, Except.pure] using hcalc.symm
  rw [hpp, ← hnr]
  exact ⟨by simp, by omega⟩

theorem Approves.workReward (hc : Approves env block h fJustCheck n pindex n1 st)
    (hpow : block.isProofOfStake = false)
    (hvtx : block.vtx = coinbase :: rest) (hs : bestMoneySupply n1 = .ok nMoneySupply) :
    coinbase.valueOut ≤ blockReward nMoneySupply pindex.nHeight st.nFees := by
  have hreward := hc.reward
  unfold checkReward isProofOfWork at hreward
  rw [hpow] at hreward
  simp only [Bool.not_false, if_true, checkWorkReward, Guards.bind_eq_ok, rejectIf_eq_ok,
    orUndefined_eq_ok, decide_eq_false_iff_not, hvtx, List.getElem?_cons_zero,
    Option.some.injEq] at hreward
  obtain ⟨nReward, hcalc, _, rfl, nActual, hactual, hle⟩ := hreward
  have hnr : nReward = blockReward nMoneySupply pindex.nHeight st.nFees := by
    simpa [getProofOfWorkReward, hs, bind, Except.bind, pure, Except.pure] using hcalc.symm
  rw [← CTransaction.getValueOut_eq_ok hactual, ← hnr]
  omega

theorem WellPlaced.coinbase_valueOut (hplaced : block.WellPlaced) (hpos : block.isProofOfStake = true)
    (hvtx : block.vtx = coinbase :: rest) : coinbase.valueOut = 0 := by
  have hempty := hplaced.coinbase_empty hpos
  unfold hasEmptyCoinbase at hempty
  rw [hvtx] at hempty
  simp only at hempty
  split at hempty
  · rename_i txout hvout
    simp only [CTxOut.isEmpty, Bool.and_eq_true, beq_iff_eq] at hempty
    simp [CTransaction.valueOut, hvout, hempty.1]
  · cases hempty

theorem stakeIssue_of_work (hplaced : block.WellPlaced) (htxs : ledger.map LedgerEntry.tx = block.vtx)
    (hpow : block.isProofOfStake = false) :
    ledgerSum LedgerEntry.stakeIssue ledger = ledgerSum LedgerEntry.stakeIssue (ledger.drop 2) := by
  obtain ⟨coinbase, rest, hvtx, hcb⟩ := hplaced.coinbase_head
  have hzero : ∀ entry : LedgerEntry, entry.tx.isCoinStake = false → entry.stakeIssue = 0 := by
    intro entry hcs
    simp [LedgerEntry.stakeIssue, hcs]
  cases ledger with
  | nil => rfl
  | cons first tail =>
    rw [hvtx, List.map_cons, List.cons.injEq] at htxs
    obtain ⟨rfl, htail⟩ := htxs
    have hfirst := hzero first (CTransaction.isCoinStake_of_isCoinBase hcb)
    cases tail with
    | nil => simp [hfirst]
    | cons second tail =>
      have hcs : second.tx.isCoinStake = false := by
        simpa [isProofOfStake, hvtx, ← htail] using hpow
      simp [hfirst, hzero second hcs]

theorem stakeIssue_of_none (htxs : ledger.map LedgerEntry.tx = block.vtx)
    (hnone : ∀ tx ∈ block.vtx.drop 2, tx.isCoinStake = false) :
    ledgerSum LedgerEntry.stakeIssue (ledger.drop 2) = 0 := by
  refine List.sum_eq_zero fun x hx => ?_
  obtain ⟨entry, hentry, rfl⟩ := List.mem_map.mp hx
  have hcs : entry.tx.isCoinStake = false :=
    hnone entry.tx (by rw [← htxs, ← List.map_drop]; exact List.mem_map_of_mem hentry)
  simp [LedgerEntry.stakeIssue, hcs]

/-- The three bounds put together: the coinbase of a proof-of-work block, the coinstake of a proof-of-stake
    block, and no fee below zero. What is left are the coinstakes behind the second transaction. -/
theorem Approves.netIssue_le (hc : Approves env block h fJustCheck n pindex n1 st)
    (hs1 : bestMoneySupply n1 = .ok nMoneySupply)
    (hstray : ledgerSum LedgerEntry.stakeIssue ((block.ledger env pindex fJustCheck n).drop 2) ≤ 0) :
    netIssue (block.ledger env pindex fJustCheck n) ≤ blockReward nMoneySupply pindex.nHeight 0 := by
  obtain ⟨htxs, _, hfee, hstake⟩ := hc.totals
  have hplaced := checkStructure_wellPlaced hc.checked.structureOk
  obtain ⟨coinbase, rest, hvtx, hcb⟩ := hplaced.coinbase_head
  have hnet := netIssue_eq (htxs.trans hvtx) hcb fun tx htx =>
    hplaced.coinbase_tail tx (by rw [hvtx]; exact htx)
  cases hpos : block.isProofOfStake with
  | true =>
    have hzero := hplaced.coinbase_valueOut hpos hvtx
    have hle := (hc.stakeReward hpos hs1).2
    rw [blockReward_eq, hstake hpos, hfee] at hle
    rw [hnet, hzero]
    omega
  | false =>
    have hle := hc.workReward hpos hvtx hs1
    rw [blockReward_eq, hfee] at hle
    rw [hnet, stakeIssue_of_work hplaced htxs hpos]
    omega

/-- **Supply conservation.** A block that `ConnectBlock` accepts creates at most its subsidy when there is no
    coinstake behind its second transaction, or those that are there pay no more than they spend. -/
theorem connectBlock_netIssue_le (hret : block.connectBlock env h fJustCheck n = (.ok (), n'))
    (hp : n.mapBlockIndex.entries h = some pindex)
    (hstray : (∀ tx ∈ block.vtx.drop 2, tx.isCoinStake = false) ∨
      ledgerSum LedgerEntry.stakeIssue ((block.ledger env pindex fJustCheck n).drop 2) ≤ 0) :
    ∃ subsidy, (∀ nCoinAge, bareSubsidy n block pindex nCoinAge = .ok subsidy) ∧
      netIssue (block.ledger env pindex fJustCheck n) ≤ subsidy := by
  obtain ⟨pindex', n1, st, hc⟩ := connectBlock_returns.mp hret
  obtain rfl : pindex' = pindex := Option.some.inj (hc.entry.symm.trans hp)
  obtain ⟨nMoneySupply, hs, hs1⟩ := hc.supply
  have hprev : block.isProofOfStake = true → pindex'.pprev ≠ none :=
    fun hpos => (hc.stakeReward hpos hs1).1
  refine ⟨_, bareSubsidy_eq hp hs hprev, hc.netIssue_le hs1 ?_⟩
  exact hstray.elim (fun hnone => (stakeIssue_of_none hc.totals.1 hnone).le) id

end CBlock

namespace Sample

def movingTx : CTransaction where
  nVersion := 1
  nTime := blockTime 12
  vin := [⟨⟨2, 0⟩, [], 0xffffffff⟩]
  vout := [⟨5 * coin, [0x51]⟩]
  nLockTime := 1001

def strayCoinstake : CTransaction where
  nVersion := 1
  nTime := blockTime 12
  vin := [⟨⟨3, 0⟩, [], 0xffffffff⟩]
  vout := [⟨0, []⟩, ⟨21000000 * coin, [0x51]⟩]
  nLockTime := 1002

def strayBlock : CBlock where
  nVersion := 7
  hashPrevBlock := blockHash 11
  hashMerkleRoot := 3018
  nTime := blockTime 12
  nBits := nBits
  nNonce := 1000
  vtx := [coinbaseTx 12, movingTx, strayCoinstake]
  vchBlockSig := []

def strayNode : Node :=
  { chainNode 11 with
    mapBlockIndex := (chainTree 11).addBlock env 1 (blockPos 12) strayBlock 1000 (0, false) rfl }

def strayEntry : CBlockIndex :=
  newBlockIndex env (some (chainEntry 11 11)) 1 (blockPos 12) strayBlock 1000 (0, false)

def strayConnected : Node := (strayBlock.connectBlock env 1000 false strayNode).2

theorem strayBlock_connected : strayBlock.connectBlock env 1000 false strayNode = (.ok (), strayConnected) := by
  unfold strayConnected
  exact Exec.eq_of_fst (by decide +kernel)

/-- A proof-of-work block that passes `CheckBlock` and `ConnectBlock` creates 21 million coins against
    a subsidy of 140000. -/
theorem strayBlock_exceeds_subsidy : ¬ ∀ (env : Env) (block : CBlock) (h : UInt256) (fJustCheck : Bool) (n n' : Node)
      (pindex : CBlockIndex) (nCoinAge : Nat) (subsidy : Int),
      (block.checkBlock env true true true n).1 = .ok () →
      block.connectBlock env h fJustCheck n = (.ok (), n') →
      n.mapBlockIndex.entries h = some pindex →
      CBlock.bareSubsidy n block pindex nCoinAge = .ok subsidy →
      CBlock.netIssue (block.ledger env pindex fJustCheck n) ≤ subsidy := by
  intro hall
  have hle := hall env strayBlock 1000 false strayNode strayConnected strayEntry 0 (140000 * coin)
    (by decide) strayBlock_connected (by decide) (by decide)
  exact absurd hle (by decide)

/-- A coinstake at position 2 that pays the 5 coins that it spends. -/
def modestBlock : CBlock :=
  { strayBlock with vtx := [coinbaseTx 12, movingTx, { strayCoinstake with vout := [⟨0, []⟩, ⟨5 * coin, [0x51]⟩] }] }

theorem modestBlock_netIssue_le :
    ∃ subsidy, (∀ nCoinAge, CBlock.bareSubsidy strayNode modestBlock strayEntry nCoinAge = .ok subsidy) ∧
      CBlock.netIssue (modestBlock.ledger env strayEntry false strayNode) ≤ subsidy := by
  have hconnect : modestBlock.connectBlock env 1000 false strayNode =
      (.ok (), (modestBlock.connectBlock env 1000 false strayNode).2) := Exec.eq_of_fst (by decide +kernel)
  exact CBlock.connectBlock_netIssue_le hconnect (by decide) (Or.inr (by decide))

end Sample

end PupaCoin
