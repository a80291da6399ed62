import PupaCoin.Chain.Proofs.AtomicityProofs

/-!
# The transactions that a reorganisation resurrects

While a reorganisation disconnects its blocks it collects their ordinary transactions, but only those of
blocks above `preorgmax`, which lies `BLOCK_REORG_MAX_DEPTH` below the old best block. After the commit
each of them is offered to the memory pool; those of the other blocks are lost.
-/

namespace PupaCoin

variable {pindex pfork : CBlockIndex} {branch : List CBlockIndex} {preorgmax : Int} {n2 : Node}
  {txs : List CTransaction} {hBest : UInt256}

section Resurrect

variable {env : Env} {n n' : Node} {hNew : UInt256}

theorem readBlockFromDisk_congr {n n' : Node} (h : n'.files = n.files) (pindex : CBlockIndex) :
    readBlockFromDisk env n' pindex = readBlockFromDisk env n pindex := by
  unfold readBlockFromDisk
  rw [h]

theorem blockTxs_of_read {block : CBlock} (h : readBlockFromDisk env n pindex = some block) :
    blockTxs env n pindex = block.vtx := by
  rw [blockTxs, h]
  rfl

theorem blockTxs_congr (h : n'.files = n.files) : blockTxs env n' = blockTxs env n := by
  funext pindex
  rw [blockTxs, readBlockFromDisk_congr h, blockTxs]

theorem txsAbove_congr (h : n'.files = n.files) (preorgmax : Int) (branch : List CBlockIndex) :
    txsAbove env n' preorgmax branch = txsAbove env n preorgmax branch := by
  unfold txsAbove ordinaryTxs
  rw [blockTxs_congr h]

/-- The list that the loop of the disconnects collects. By induction on the blocks; a disconnect leaves
    the block files as they are. -/
theorem disconnectBranch_collects {vResurrect : List CTransaction}
    (h : branch.foldlM (disconnectBranchStep env preorgmax) vResurrect n = (.ok txs, n2)) :
    txs = txsAbove env n preorgmax branch ++ vResurrect := by
  induction branch generalizing n vResurrect with
  | nil =>
    rw [List.foldlM_nil, Exec.pure_apply, Prod.mk.injEq, Except.ok.injEq] at h
    exact h.1.symm
  | cons pindex branch ih =>
    rw [List.foldlM_cons, Exec.bind_returns] at h
    obtain ⟨collected, n1, hstep, hrest⟩ := h
    have hfiles : n1.files = n.files :=
      (disconnectBranchStep_writes env _ _ _).apply hstep .files (by decide)
    obtain ⟨block, hread, -, rfl⟩ := disconnectBranchStep_returns hstep
    have htxs : (block.vtx.filter fun tx => !(tx.isCoinBase || tx.isCoinStake) && decide ((pindex.nHeight : Int) > preorgmax))
        = if (pindex.nHeight : Int) > preorgmax then ordinaryTxs env n pindex else [] := by
      rw [ordinaryTxs, blockTxs_of_read hread]
      split_ifs with habove <;> simp [habove]
    rw [ih hrest, txsAbove_congr hfiles, htxs]
    simp [txsAbove]

/-- The list that the loop of the connects collects. -/
theorem connectBranch_collects {vDelete : List CTransaction}
    (h : branch.foldlM (connectBranchStep env) vDelete n = (.ok txs, n2)) :
    txs = vDelete ++ branch.flatMap (blockTxs env n) := by
  induction branch generalizing n vDelete with
  | nil =>
    rw [List.foldlM_nil, Exec.pure_apply, Prod.mk.injEq, Except.ok.injEq] at h
    simpa using h.1.symm
  | cons pindex branch ih =>
    rw [List.foldlM_cons, Exec.bind_returns] at h
    obtain ⟨collected, n1, hstep, hrest⟩ := h
    have hfiles : n1.files = n.files := (connectBranchStep_writes env _ _).apply hstep .files (by decide)
    obtain ⟨block, _, hread, -, -, rfl⟩ := connectBranchStep_returns hstep
    rw [ih hrest, blockTxs_congr hfiles, List.flatMap_cons, blockTxs_of_read hread, List.append_assoc]

theorem mem_txsAbove {tx : CTransaction} : tx ∈ txsAbove env n preorgmax branch ↔
      ∃ pindex ∈ branch, (pindex.nHeight : Int) > preorgmax ∧ tx ∈ ordinaryTxs env n pindex := by
  simp only [txsAbove, List.mem_flatMap, List.mem_reverse]
  refine exists_congr fun pindex => and_congr_right fun _ => ?_
  split_ifs with habove <;> simp [habove]

theorem offers_foldl (txs : List CTransaction) (n : Node) : Offers env n txs (txs.foldl (resurrect env) n) := by
  induction txs generalizing n with
  | nil => exact .nil n
  | cons tx txs ih => exact .cons (ih _)

/-- There is no override: its depth is 0. -/
theorem checkReorganizeDepth_ok {ext : Ext} {nHeightBest nHeightNew : Int}
    (h : checkReorganizeDepth ext nHeightBest nHeightNew = .ok preorgmax) :
    preorgmax = nHeightBest - blockReorgMaxDepth := by
  unfold checkReorganizeDepth blockReorgOverrideDepth at h
  simp only [sub_zero] at h
  split_ifs at h <;> exact (Except.ok.inj h).symm

theorem branchAbove_eq {h : UInt256} (he : n.mapBlockIndex.entries h = some pindex) :
    branchAbove pfork (n.mapBlockIndex.chain h) = branchBlocks n.mapBlockIndex pfork.phashBlock h := by
  have hentry : ∀ e ∈ branchAbove pfork (n.mapBlockIndex.chain h), n.mapBlockIndex.entries e.phashBlock = some e :=
    fun e he => (BlockTree.mem_chain.mp (List.takeWhile_subset _ he)).2
  rw [branchBlocks, ← BlockTree.takeWhile_chain he, List.filterMap_map]
  exact ((List.filterMap_congr hentry).trans List.filterMap_some).symm

theorem reorganize_returns (h : reorganize env hNew n = (.ok (), n')) :
    ∃ plan n1 vResurrect n2 vDelete n3 n4, prepareReorganize hNew n = (.ok plan, n1) ∧
      plan.vDisconnect.foldlM (disconnectBranchStep env plan.preorgmax) [] n1 = (.ok vResurrect, n2) ∧
      plan.vConnect.foldlM (connectBranchStep env) [] n2 = (.ok vDelete, n3) ∧
      txnCommit "Reorganize() : TxnCommit failed" (n3.dbApply (.put .hashBestChain (.hash hNew)))
        = (.ok (), n4) ∧
      n' = reorganizeMemory env plan vResurrect vDelete n4 := by
  unfold reorganize at h
  simp only [Exec.bind_returns, writeHashBestChain_apply, Exec.update_apply, Prod.mk.injEq] at h
  obtain ⟨plan, n1, hplan, vResurrect, n2, hdisconnect, vDelete, n3, hconnect, _, _, ⟨-, rfl⟩, _, n4,
    hcommit, -, rfl⟩ := h
  exact ⟨plan, n1, vResurrect, n2, vDelete, n3, n4, hplan, hdisconnect, hconnect, hcommit, rfl⟩

theorem Planned.branches {plan : ReorganizePlan} {pindexBest pindexNew past : CBlockIndex}
    (hp : Planned n hNew plan hBest pindexBest pindexNew past pfork) :
    plan.vDisconnect = branchBlocks n.mapBlockIndex pfork.phashBlock hBest ∧
      plan.vConnect = (branchBlocks n.mapBlockIndex pfork.phashBlock hNew).reverse := by
  rw [hp.vDisconnect, hp.vConnect, branchAbove_eq hp.bestEntry, branchAbove_eq hp.newEntry]
  exact ⟨rfl, rfl⟩

/-- **Resurrection.** After the commit a reorganisation offers to the memory pool the ordinary transactions
    of the disconnected blocks above `preorgmax`, and then deletes those of the new branch from it. So the
    ordinary transactions of the old branch all survive exactly when those of its lower blocks are in the
    new branch, or in a higher block as well. -/
theorem reorganize_resurrects_iff {fork : UInt256} (h : reorganize env hNew n = (.ok (), n'))
    (hbest : n.pindexBest = some hBest) (hfork : n.mapBlockIndex.toParentTree.IsFork hBest hNew fork) :
    ∃ offered n4 n5, n4.mempool = n.mempool ∧ Offers env n4 offered n5 ∧
      n' = ((branchBlocks n.mapBlockIndex fork hNew).reverse.flatMap (blockTxs env n)).foldl (deleteFromPool env) n5 ∧
      offered = txsAbove env n (n.preorgmax hBest) (branchBlocks n.mapBlockIndex fork hBest) ∧
      ((∀ pindex ∈ branchBlocks n.mapBlockIndex fork hBest, ∀ tx ∈ ordinaryTxs env n pindex,
          (∃ e ∈ branchBlocks n.mapBlockIndex fork hNew, tx ∈ blockTxs env n e) ∨ tx ∈ offered) ↔
        ∀ pindex ∈ branchBlocks n.mapBlockIndex fork hBest, (pindex.nHeight : Int) ≤ n.preorgmax hBest →
          ∀ tx ∈ ordinaryTxs env n pindex, (∃ e ∈ branchBlocks n.mapBlockIndex fork hNew, tx ∈ blockTxs env n e) ∨
              ∃ e ∈ branchBlocks n.mapBlockIndex fork hBest, (e.nHeight : Int) > n.preorgmax hBest ∧
                tx ∈ ordinaryTxs env n e) := by
  obtain ⟨plan, n1, vResurrect, n2, vDelete, n3, n4, hplan, hdisconnect, hconnect, hcommit, rfl⟩ :=
    reorganize_returns h
  obtain ⟨⟨hBest', pindexBest, pindexNew, past, pfork, hp⟩, -⟩ := prepareReorganize_returns hplan
  obtain rfl : hBest' = hBest := Option.some.inj (hp.best.symm.trans hbest)
  obtain ⟨hold, hnew⟩ := hp.branches
  rw [hp.fork.eq hfork] at hold hnew
  have hfloor : plan.preorgmax = n.preorgmax hBest' := by
    rw [checkReorganizeDepth_ok hp.depth, Node.preorgmax, BlockTree.nHeight_of_entry hp.bestEntry]
  have hfiles : n1.files = n.files := (prepareReorganize_writes hNew).apply hplan .files (by decide)
  have hfiles2 : n2.files = n1.files := (disconnectBranch_writes _ _).apply hdisconnect .files (by decide)
  have hoffered := disconnectBranch_collects hdisconnect
  rw [List.append_nil, txsAbove_congr hfiles, hfloor, hold] at hoffered
  have hdeleted := connectBranch_collects hconnect
  rw [List.nil_append, hnew, blockTxs_congr (hfiles2.trans hfiles)] at hdeleted
  have hpool : n4.mempool = n.mempool := by
    have h1 : n1.mempool = n.mempool := (prepareReorganize_writes hNew).apply hplan .mempool (by decide)
    have h2 : n2.mempool = n1.mempool := (disconnectBranch_writes _ _).apply hdisconnect .mempool (by decide)
    have h3 : n3.mempool = n2.mempool := (connectBranch_writes _ _).apply hconnect .mempool (by decide)
    have hput : (n3.dbApply (.put .hashBestChain (.hash hNew))).mempool = n3.mempool :=
      dbApply_writes (by simp [Overlay.Op.key]) n3 .mempool (by decide)
    have h4 : n4.mempool = (n3.dbApply (.put .hashBestChain (.hash hNew))).mempool :=
      (txnCommit_writes _).apply hcommit .mempool (by decide)
    exact h4.trans (hput.trans (h3.trans (h2.trans h1)))
  refine ⟨_, { n4 with
    mapBlockIndex := linkBranch (unlinkBranch n4.mapBlockIndex plan.vDisconnect) plan.vConnect }, _, hpool,
    offers_foldl _ _, ?_, rfl, ?_⟩
  · rw [reorganizeMemory, hoffered, hdeleted]
  · simp only [mem_txsAbove]
    refine ⟨fun hall pindex hpindex _ => hall pindex hpindex, fun hlow pindex hpindex tx htx => ?_⟩
    by_cases habove : (pindex.nHeight : Int) > n.preorgmax hBest'
    · exact Or.inr ⟨pindex, hpindex, habove, htx⟩
    · exact hlow pindex hpindex (not_lt.mp habove) tx htx

end Resurrect

namespace Sample

/-- The sample environment with a memory pool that shows to the wallets what it is offered. -/
def offerEnv : Env :=
  { env with acceptToMemoryPool := fun n tx => (n.mempool, [⟨tx, chainBlock 0, true⟩]) }

/-- The ordinary transactions of the disconnected blocks, and whether `payTx` is in the new branch. -/
def payPlaces (n : Node) (plan : ReorganizePlan) : List (Nat × List CTransaction) × Bool :=
  (plan.vDisconnect.map fun pindex => (pindex.nHeight, ordinaryTxs offerEnv n pindex),
    plan.vConnect.any fun pindex => decide (payTx ∈ blockTxs offerEnv n pindex))

theorem payNode_planned (k : Nat) {places : List (Nat × List CTransaction) × Bool}
    (h : (prepareReorganize (forkHash 501) (payNode k)).1.map (payPlaces (payNode k)) = .ok places) :
    ∃ plan fork, (payNode k).mapBlockIndex.toParentTree.IsFork (blockHash 500) (forkHash 501) fork ∧
      plan.vDisconnect = branchBlocks (payNode k).mapBlockIndex fork (blockHash 500) ∧
      plan.vConnect = (branchBlocks (payNode k).mapBlockIndex fork (forkHash 501)).reverse ∧
      payPlaces (payNode k) plan = places := by
  rcases hplan : prepareReorganize (forkHash 501) (payNode k) with ⟨r, n1⟩
  rw [hplan] at h
  cases r with
  | error e => cases h
  | ok plan =>
    obtain ⟨⟨hBest, pindexBest, pindexNew, past, pfork, hp⟩, -⟩ := prepareReorganize_returns hplan
    obtain rfl : blockHash 500 = hBest := Option.some.inj hp.best
    exact ⟨plan, pfork.phashBlock, hp.fork, hp.branches.1, hp.branches.2, Except.ok.inj h⟩

/-- The ordinary transaction of block 499, the second one to be disconnected, is neither in the new branch
    nor offered to the memory pool. -/
theorem payNode_forgets : (reorganize offerEnv (forkHash 501) (payNode 499)).1 = .ok () ∧
    ∃ fork, (payNode 499).mapBlockIndex.toParentTree.IsFork (blockHash 500) (forkHash 501) fork ∧
      (∃ pindex ∈ branchBlocks (payNode 499).mapBlockIndex fork (blockHash 500),
        payTx ∈ ordinaryTxs offerEnv (payNode 499) pindex) ∧
      (∀ pindex ∈ branchBlocks (payNode 499).mapBlockIndex fork (forkHash 501),
        payTx ∉ blockTxs offerEnv (payNode 499) pindex) ∧
      ∀ signal ∈ (reorganize offerEnv (forkHash 501) (payNode 499)).2.walletSignals,
        signal.tx = payTx → signal.fConnect = false := by
  obtain ⟨plan, fork, hfork, hold, hnew, hplaces⟩ := @payNode_planned 499 ([(500, []), (499, [payTx])], false) (by decide)
  obtain ⟨htxs, hnone⟩ := Prod.mk.inj hplaces
  refine ⟨by decide +kernel, fork, hfork, ?_, fun pindex hpindex hpay => ?_, by decide +kernel⟩
  · have hlow : (499, [payTx]) ∈ plan.vDisconnect.map fun pindex =>
        (pindex.nHeight, ordinaryTxs offerEnv (payNode 499) pindex) := by
      rw [htxs]
      simp
    obtain ⟨pindex, hpindex, hpay⟩ := List.mem_map.mp hlow
    exact ⟨pindex, hold ▸ hpindex, by rw [(Prod.mk.inj hpay).2]; simp⟩
  · have hout := List.any_eq_false.mp hnone pindex (by rwa [hnew, List.mem_reverse])
    exact hout (decide_eq_true hpay)

theorem payNode_resurrects :
    ∃ fork offered n4 n5, Offers offerEnv n4 offered n5 ∧ n4.mempool = (payNode 500).mempool ∧ payTx ∈ offered ∧
      ∀ pindex ∈ branchBlocks (payNode 500).mapBlockIndex fork (blockHash 500),
        ∀ tx ∈ ordinaryTxs offerEnv (payNode 500) pindex,
          (∃ e ∈ branchBlocks (payNode 500).mapBlockIndex fork (forkHash 501), tx ∈ blockTxs offerEnv (payNode 500) e) ∨
            tx ∈ offered := by
  obtain ⟨plan, fork, hfork, hold, -, hplaces⟩ := @payNode_planned 500 ([(500, [payTx]), (499, [])], false) (by decide)
  have hreorganized : (reorganize offerEnv (forkHash 501) (payNode 500)).1 = .ok () := by decide +kernel
  have hfloor : (payNode 500).preorgmax (blockHash 500) = 499 := by decide
  obtain ⟨offered, n4, n5, hpool, hoffers, -, rfl, hiff⟩ :=
    reorganize_resurrects_iff (Exec.eq_of_fst hreorganized) rfl hfork
  have htxs := (Prod.mk.inj hplaces).1
  refine ⟨fork, _, n4, n5, hoffers, hpool, mem_txsAbove.mpr ?_, hiff.mpr fun pindex hpindex hlow tx htx => ?_⟩
  · have htip : (500, [payTx]) ∈ plan.vDisconnect.map fun pindex =>
        (pindex.nHeight, ordinaryTxs offerEnv (payNode 500) pindex) := by
      rw [htxs]
      simp
    obtain ⟨pindex, hpindex, hpay⟩ := List.mem_map.mp htip
    obtain ⟨hheight, hpay⟩ := Prod.mk.inj hpay
    exact ⟨pindex, hold ▸ hpindex, by rw [hheight, hfloor]; decide, by rw [hpay]; simp⟩
  · have hmem := List.mem_map_of_mem (f := fun pindex => (pindex.nHeight, ordinaryTxs offerEnv (payNode 500) pindex))
      (hold ▸ hpindex : pindex ∈ plan.vDisconnect)
    rw [htxs, List.mem_cons, List.mem_singleton, Prod.mk.injEq, Prod.mk.injEq] at hmem
    rcases hmem with ⟨hheight, -⟩ | ⟨-, hnone⟩
    · omega
    · rw [hnone] at htx
      cases htx

end Sample

end PupaCoin
