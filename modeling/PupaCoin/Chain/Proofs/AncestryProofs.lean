import PupaCoin.Chain.Proofs.SupplyCapProofs

/-!
# Which checks of a block depend on its branch alone

The walks of the retarget and of the coin age do not look at what the best chain writes into the entries
(`core`). What is left of the best chain are the reads named in `Ancestry`.
-/

namespace PupaCoin

variable {fProofOfStake : Bool} {n1 n2 : Node} {chain1 chain2 : List CBlockIndex} {block : CBlock} {h hprev : UInt256}
  {pindex1 pindex2 : CBlockIndex} {nMoneySupply1 nMoneySupply2 : Int}

theorem getLastBlockIndex_map_core (fProofOfStake : Bool) (chain : List CBlockIndex) :
    getLastBlockIndex fProofOfStake (chain.map CBlockIndex.core)
      = (getLastBlockIndex fProofOfStake chain).map CBlockIndex.core := by
  induction chain with
  | nil => rfl
  | cons pindex chain ih =>
    cases chain with
    | nil => rfl
    | cons pprev rest =>
      have hkind : pindex.core.isProofOfStake = pindex.isProofOfStake := rfl
      simp only [List.map_cons, getLastBlockIndex, hkind] at ih ⊢
      split
      · exact ih
      · rfl

theorem spacings_map_core (rounds : Nat) (chain : List CBlockIndex) :
    spacings rounds (chain.map CBlockIndex.core) = spacings rounds chain := by
  induction rounds generalizing chain with
  | zero => cases chain <;> rfl
  | succ rounds ih =>
    match chain with
    | [] => rfl
    | [_] => rfl
    | pindex :: pprev :: rest =>
      have hrest := ih (pprev :: rest)
      simp only [List.map_cons] at hrest
      simp only [List.map_cons, spacings, hrest]
      rfl

theorem isConfirmedFrom_map_core (txindex : CTxIndex) (nFromHeight nMaxDepth : Int) (chain : List CBlockIndex) :
    isConfirmedFrom txindex nFromHeight nMaxDepth (chain.map CBlockIndex.core)
      = isConfirmedFrom txindex nFromHeight nMaxDepth chain := by
  induction chain with
  | nil => rfl
  | cons pindex chain ih =>
    simp only [List.map_cons, isConfirmedFrom, ih]
    rfl

theorem isConfirmedInNPrevBlocks_map_core (txindex : CTxIndex) (chain : List CBlockIndex) (nMaxDepth : Int) :
    isConfirmedInNPrevBlocks txindex (chain.map CBlockIndex.core) nMaxDepth
      = isConfirmedInNPrevBlocks txindex chain nMaxDepth := by
  cases chain with
  | nil => rfl
  | cons pindex chain =>
    have hfrom := isConfirmedFrom_map_core txindex pindex.nHeight nMaxDepth (pindex :: chain)
    exact hfrom

theorem vrxThreadCurve_map_core (round : ℚ → ℚ) (fDiffTooLow : Bool) (chain velocityType : List CBlockIndex)
    (fProofOfStake : Bool) :
    vrxThreadCurve round fDiffTooLow (chain.map CBlockIndex.core) (velocityType.map CBlockIndex.core)
        fProofOfStake
      = vrxThreadCurve round fDiffTooLow chain velocityType fProofOfStake := by
  unfold vrxThreadCurve vrxBaseEngine
  rw [spacings_map_core]
  match chain, velocityType with
  | [], [] => rfl
  | [], _ :: _ => rfl
  | _ :: _, [] => rfl
  | _ :: _, [_] => rfl
  | _ :: _, _ :: _ :: _ => rfl

theorem getNextTargetRequired_map_core (params : CChainParams) (n : Node) (chain : List CBlockIndex)
    (fProofOfStake : Bool) : getNextTargetRequired params n (chain.map CBlockIndex.core) fProofOfStake
      = getNextTargetRequired params n chain fProofOfStake := by
  unfold getNextTargetRequired getNextTargetRequiredWith vrxRetarget
  simp only [getLastBlockIndex_map_core, vrxThreadCurve_map_core]
  cases chain with
  | nil => rfl
  | cons pindex rest =>
    cases getLastBlockIndex fProofOfStake (pindex :: rest) <;> rfl

theorem extendedCurve_of_not_due {round : ℚ → ℚ} {difTime : UInt64} {loopbrk step : Nat} {nBits : UInt32} {st : CurveState}
    (h : ¬ difTime.toNat > st.minuteRounds * 60) (fDiffTooLow : Bool) :
    extendedCurve round fDiffTooLow difTime loopbrk step nBits 8 st = .ok (some st.terminalAverage) := by
  simp [extendedCurve, h]

theorem vrxThreadCurve_of_not_reads {round : ℚ → ℚ} {chain : List CBlockIndex}
    (h : readsPrevDiff chain fProofOfStake = false) (a b : Bool) :
    vrxThreadCurve round a chain (getLastBlockIndex fProofOfStake chain) fProofOfStake
      = vrxThreadCurve round b chain (getLastBlockIndex fProofOfStake chain) fProofOfStake := by
  unfold vrxThreadCurve
  unfold readsPrevDiff at h
  cases vrxBaseEngine round chain fProofOfStake with
  | error e => rfl
  | ok base =>
    obtain ⟨average, prevPoW, prevPoS⟩ := base
    simp only [Guards.ok_bind]
    cases hlast : chain.head? with
    | none => rfl
    | some pindexLast =>
      cases hkind : (getLastBlockIndex fProofOfStake chain).head? with
      | none => rfl
      | some blockVelocityType =>
        simp only [hlast, hkind, Bool.and_eq_false_iff, decide_eq_false_iff_not] at h
        cases (getLastBlockIndex fProofOfStake chain).tail.head? with
        | none => rfl
        | some prevVelocityType =>
          simp only [orUndefined, Guards.ok_bind]
          by_cases hheight : pindexLast.nHeight > 7500
          · have hdue := h.resolve_left (not_not_intro hheight)
            simp only [hheight, if_true]
            split at hdue
            · rename_i hhigh
              simp only [hhigh, if_true]
              rw [extendedCurve_of_not_due hdue a, extendedCurve_of_not_due hdue b]
            · rename_i hhigh
              simp only [hhigh, if_false]
              rw [extendedCurve_of_not_due hdue a, extendedCurve_of_not_due hdue b]
          · simp only [hheight, if_false]

theorem getNextTargetRequired_of_sameReads {params : CChainParams}
    (hchain : chain1.map CBlockIndex.core = chain2.map CBlockIndex.core)
    (hreads : SameRetargetReads n1 n2 chain1 fProofOfStake) : getNextTargetRequired params n1 chain1 fProofOfStake
      = getNextTargetRequired params n2 chain2 fProofOfStake := by
  rw [← getNextTargetRequired_map_core params n2, ← hchain, getNextTargetRequired_map_core]
  unfold getNextTargetRequired getNextTargetRequiredWith vrxRetarget
  cases hlast : chain1.head? with
  | none => rfl
  | some pindexLast =>
    simp only [orUndefined, Guards.ok_bind, hreads.dryRun pindexLast hlast]
    cases hreads' : readsPrevDiff chain1 fProofOfStake with
    | true =>
      have hdiff := hreads.prevDiff hreads'
      unfold prevDiffBelowOne at hdiff
      rw [hdiff]
    | false =>
      rw [vrxThreadCurve_of_not_reads hreads' (prevDiffBelowOneWith roundDouble n1 fProofOfStake)
        (prevDiffBelowOneWith roundDouble n2 fProofOfStake)]

theorem blockReward_eq_iff (nHeight nMoneySupply1 nMoneySupply2 nFees : Int) :
    blockReward nMoneySupply1 nHeight nFees = blockReward nMoneySupply2 nHeight nFees ↔
      rewardClass nHeight nMoneySupply1 = rewardClass nHeight nMoneySupply2 := by
  have hreserve : nBlockRewardReserve ≠ nBlockStandardReward := by decide
  have hstandard : nBlockStandardReward ≠ 0 := by decide
  unfold blockReward rewardClass
  by_cases hheight : nHeight > nReservePhaseStart
  · simp only [hheight, if_true, decide_eq_decide]
    constructor
    · intro h
      split_ifs at h <;> omega
    · intro hiff
      rw [if_congr hiff rfl rfl]
  · simp only [hheight, if_false, decide_eq_decide]
    constructor
    · intro h
      split_ifs at h <;> omega
    · intro hiff
      rw [if_congr hiff rfl rfl]

theorem connectReward_eq {n : Node} {pindex : CBlockIndex} (hentry : n.mapBlockIndex.entries h = some pindex)
    (hpp : pindex.pprev = some hprev)
    {nMoneySupply : Int} (hs : bestMoneySupply n = .ok nMoneySupply) (nCoinAge : Nat) (nFees : Int) :
    block.connectReward n pindex nCoinAge nFees
      = .ok (blockReward nMoneySupply pindex.nHeight nFees) := by
  obtain ⟨f, hf, hh⟩ := n.mapBlockIndex.prev_height hentry hpp
  unfold CBlock.connectReward
  cases block.isProofOfWork with
  | true => simp [getProofOfWorkReward, hs, pure, Except.pure]
  | false => simp [getProofOfStakeReward, hpp, hf, hh, hs, orUndefined, pure, Except.pure]

theorem getCoinAge_of_sameBranch {tx : CTransaction}
    (hchain : chain1.map CBlockIndex.core = chain2.map CBlockIndex.core)
    (hinputs : ∀ txin ∈ tx.vin, CTransaction.readFromDisk n1 n1.view.readTxIndex txin.prevout
      = CTransaction.readFromDisk n2 n2.view.readTxIndex txin.prevout) :
    tx.getCoinAge n1 n1.view.readTxIndex chain1 = tx.getCoinAge n2 n2.view.readTxIndex chain2 := by
  have hconfirmed : ∀ txindex nMaxDepth, isConfirmedInNPrevBlocks txindex chain1 nMaxDepth
      = isConfirmedInNPrevBlocks txindex chain2 nMaxDepth := by
    intro txindex nMaxDepth
    rw [← isConfirmedInNPrevBlocks_map_core txindex chain2, ← hchain, isConfirmedInNPrevBlocks_map_core]
  unfold CTransaction.getCoinAge
  split
  · rfl
  · rw [Guards.foldlM_congr fun bnCentSecond txin htxin => ?_]
    unfold CTransaction.addCoinAge
    rw [hinputs txin htxin]
    simp only [hconfirmed]

theorem SameBranch.parts (hsame : SameBranch block h n1 n2) (he1 : n1.mapBlockIndex.entries h = some pindex1)
    (he2 : n2.mapBlockIndex.entries h = some pindex2) (hpp : pindex1.pprev = some hprev) :
    pindex1.nHeight = pindex2.nHeight ∧ pindex2.pprev = some hprev ∧
      (n1.mapBlockIndex.chain hprev).map CBlockIndex.core
        = (n2.mapBlockIndex.chain hprev).map CBlockIndex.core := by
  have hchain := hsame.chain
  have hcore : pindex1.core = pindex2.core := by
    have hhead := congrArg List.head? hchain
    simpa [List.head?_map, BlockTree.head?_chain, he1, he2] using hhead
  have hheight : pindex1.nHeight = pindex2.nHeight := by
    have := congrArg CBlockIndex.nHeight hcore
    simpa [CBlockIndex.core] using this
  have hpp2 : pindex2.pprev = some hprev := by
    have := congrArg CBlockIndex.pprev hcore
    rw [← hpp]
    simpa [CBlockIndex.core] using this.symm
  refine ⟨hheight, hpp2, ?_⟩
  rw [BlockTree.chain_of_pprev he1 hpp, BlockTree.chain_of_pprev he2 hpp2] at hchain
  exact (List.cons.inj hchain).2

theorem checkReward_of_sameClass (hsame : SameBranch block h n1 n2) (he1 : n1.mapBlockIndex.entries h = some pindex1)
    (he2 : n2.mapBlockIndex.entries h = some pindex2) (hpp : pindex1.pprev = some hprev)
    (hs1 : bestMoneySupply n1 = .ok nMoneySupply1) (hs2 : bestMoneySupply n2 = .ok nMoneySupply2)
    (hclass : rewardClass pindex1.nHeight nMoneySupply1 = rewardClass pindex1.nHeight nMoneySupply2)
    (st : ConnectState) : CBlock.checkReward n1 pindex1 block st = CBlock.checkReward n2 pindex2 block st := by
  obtain ⟨hheight, hpp2, hchain⟩ := hsame.parts he1 he2 hpp
  have hreward : ∀ nFees, blockReward nMoneySupply1 pindex1.nHeight nFees
      = blockReward nMoneySupply2 pindex1.nHeight nFees :=
    fun nFees => (blockReward_eq_iff _ _ _ nFees).mpr hclass
  unfold CBlock.checkReward
  split
  · unfold CBlock.checkWorkReward getProofOfWorkReward
    rw [hs1, hs2, ← hheight]
    simp only [Guards.ok_bind, hreward]
  · obtain ⟨f1, hf1, hh1⟩ := n1.mapBlockIndex.prev_height he1 hpp
    obtain ⟨f2, hf2, hh2⟩ := n2.mapBlockIndex.prev_height he2 hpp2
    have hparent : ((f1.nHeight : Int) + 1 = pindex1.nHeight) ∧ ((f2.nHeight : Int) + 1 = pindex1.nHeight) := by
      omega
    unfold CBlock.checkStakeReward getProofOfStakeReward
    rw [hpp, hpp2, hs1, hs2]
    simp only [BlockTree.chain?, Option.bind_some, hf1, hf2, orUndefined, Guards.ok_bind, hparent.1,
      hparent.2, hreward]
    cases hstake : block.vtx[1]? with
    | none => rfl
    | some coinstake =>
      have hmem := List.mem_of_getElem? hstake
      simp only [Guards.ok_bind]
      rw [getCoinAge_of_sameBranch hchain (hsame.inputs coinstake hmem)]

/-- **Which checks look beyond the branch.** For a block that two nodes contain: the rewards agree
    exactly when the supplies at the two best blocks are of the same class, and then the check of the
    reward agrees as well; the required targets and the check of the target agree when the retarget
    reads the same of the two best chains. -/
theorem checks_ancestry_only_iff (env : Env) {block : CBlock} {h hprev : UInt256} {n1 n2 : Node}
    {pindex1 pindex2 : CBlockIndex} {nMoneySupply1 nMoneySupply2 : Int}
    (hsame : SameBranch block h n1 n2) (he1 : n1.mapBlockIndex.entries h = some pindex1)
    (he2 : n2.mapBlockIndex.entries h = some pindex2) (hpp : pindex1.pprev = some hprev)
    (hs1 : bestMoneySupply n1 = .ok nMoneySupply1) (hs2 : bestMoneySupply n2 = .ok nMoneySupply2) :
    (∀ nCoinAge nFees, block.connectReward n1 pindex1 nCoinAge nFees
        = block.connectReward n2 pindex2 nCoinAge nFees ↔
      rewardClass pindex1.nHeight nMoneySupply1 = rewardClass pindex1.nHeight nMoneySupply2) ∧
    (rewardClass pindex1.nHeight nMoneySupply1 = rewardClass pindex1.nHeight nMoneySupply2 →
      ∀ st, CBlock.checkReward n1 pindex1 block st = CBlock.checkReward n2 pindex2 block st) ∧
    (∀ fProofOfStake, SameRetargetReads n1 n2 (n1.mapBlockIndex.chain hprev) fProofOfStake →
      getNextTargetRequired env.params n1 (n1.mapBlockIndex.chain hprev) fProofOfStake
        = getNextTargetRequired env.params n2 (n2.mapBlockIndex.chain hprev) fProofOfStake) ∧
    (SameRetargetReads n1 n2 (n1.mapBlockIndex.chain hprev) block.isProofOfStake →
      block.checkTarget env n1 (n1.mapBlockIndex.chain hprev)
        = block.checkTarget env n2 (n2.mapBlockIndex.chain hprev)) := by
  obtain ⟨hheight, hpp2, hchain⟩ := hsame.parts he1 he2 hpp
  refine ⟨fun nCoinAge nFees => ?_, fun hclass st =>
    checkReward_of_sameClass hsame he1 he2 hpp hs1 hs2 hclass st, fun fProofOfStake hreads =>
    getNextTargetRequired_of_sameReads hchain hreads, fun hreads => ?_⟩
  · rw [connectReward_eq he1 hpp hs1, connectReward_eq he2 hpp2 hs2, Except.ok.injEq, ← hheight]
    exact blockReward_eq_iff _ _ _ nFees
  · unfold CBlock.checkTarget
    rw [getNextTargetRequired_of_sameReads hchain hreads]

namespace Sample

def reserveBlock : CBlock :=
  { chainBlock 12 with
    nNonce := 2000
    vtx := [{ coinbaseTx 12 with vout := [⟨140000 * coin, [0x51]⟩] }] }

def reserveEntry : CBlockIndex :=
  newBlockIndex env (some (chainEntry 11 11)) 1 (blockPos 13) reserveBlock 2000 (0, false)

def parentNode : Node :=
  { chainNode 11 with
    mapBlockIndex := (chainTree 11).addBlock env 1 (blockPos 13) reserveBlock 2000 (0, false) rfl }

def siblingNode : Node :=
  { strayAccepted with
    mapBlockIndex := strayAccepted.mapBlockIndex.addBlock env 1 (blockPos 13) reserveBlock 2000
      (0, false) (by decide +kernel) }

theorem reserveBlock_sameBranch : SameBranch reserveBlock 2000 parentNode siblingNode :=
  ⟨by decide +kernel, by decide +kernel⟩

theorem reserveBlock_entries : parentNode.mapBlockIndex.entries 2000 = some reserveEntry ∧
    siblingNode.mapBlockIndex.entries 2000 = some reserveEntry := by decide +kernel

theorem reserveBlock_supplies : bestMoneySupply parentNode = .ok (55 * coin) ∧
    bestMoneySupply siblingNode = .ok (21000055 * coin) := by decide +kernel

theorem reserveBlock_rewards : reserveBlock.connectReward parentNode reserveEntry 0 0
        = reserveBlock.connectReward siblingNode reserveEntry 0 0 ↔
      rewardClass 12 (55 * coin) = rewardClass 12 (21000055 * coin) :=
  (checks_ancestry_only_iff env reserveBlock_sameBranch reserveBlock_entries.1
    reserveBlock_entries.2 rfl reserveBlock_supplies.1 reserveBlock_supplies.2).1 0 0

/-- The check of the reward passes in one of two nodes with the same branch and fails in the other. -/
theorem reserveBlock_verdict_differs :
    ¬ ∀ (env : Env) (block : CBlock) (h hprev : UInt256) (n1 n2 : Node) (pindex1 pindex2 : CBlockIndex),
      SameBranch block h n1 n2 → n1.mapBlockIndex.entries h = some pindex1 →
      n2.mapBlockIndex.entries h = some pindex2 → pindex1.pprev = some hprev →
      (∃ s, bestMoneySupply n1 = .ok s) → (∃ s, bestMoneySupply n2 = .ok s) →
        (∀ fProofOfStake, getNextTargetRequired env.params n1 (n1.mapBlockIndex.chain hprev) fProofOfStake
          = getNextTargetRequired env.params n2 (n2.mapBlockIndex.chain hprev) fProofOfStake) ∧
        (∀ nCoinAge nFees, block.connectReward n1 pindex1 nCoinAge nFees
          = block.connectReward n2 pindex2 nCoinAge nFees) ∧
        ∀ st, CBlock.checkReward n1 pindex1 block st = .ok () ↔ CBlock.checkReward n2 pindex2 block st = .ok () := by
  intro hall
  have hverdict := (hall env reserveBlock 2000 (blockHash 11) parentNode siblingNode reserveEntry
    reserveEntry reserveBlock_sameBranch reserveBlock_entries.1 reserveBlock_entries.2 rfl
    ⟨_, reserveBlock_supplies.1⟩ ⟨_, reserveBlock_supplies.2⟩).2.2
      (CBlock.connectInit reserveEntry reserveBlock false)
  have hpass : CBlock.checkReward parentNode reserveEntry reserveBlock
      (CBlock.connectInit reserveEntry reserveBlock false) = .ok () := by decide
  exact absurd (hverdict.mp hpass) (by decide +kernel)

end Sample

end PupaCoin
