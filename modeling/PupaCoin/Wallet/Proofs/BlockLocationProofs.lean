import PupaCoin.Chain.Proofs.LocatorProofs
import PupaCoin.Wallet.WalletTx

/-!
# Proofs: the block that a wallet transaction is in

Given the block, `SetMerkleBranch` finds the place of the transaction in it and the depth of the block. Without
the block it reads the block but leaves the fields as they are, so that it finds the place only where the fields
named it before.
-/

namespace PupaCoin

section MainChain

variable {env : Env} {n : Node} {tip : UInt256} {pindex pindexBest : CBlockIndex}

theorem readBlockAt_of_readBlockFromDisk {block : CBlock} (h : readBlockFromDisk env n pindex = some block) :
    readBlockAt env n pindex.nFile pindex.nBlockPos = some block := by
  obtain ⟨hread, hwork, -⟩ := readBlockFromDisk_eq_some.mp h
  unfold readBlockAt
  rw [hread, Option.bind_eq_bind, Option.bind_some, if_neg (Bool.eq_false_iff.mp hwork)]

theorem depthInMainChain_eq {h : UInt256} (hentry : n.mapBlockIndex.entries h = some pindex)
    (hactive : n.isInMainChain pindex = true) (hbest : BestAt n tip)
    (htip : n.mapBlockIndex.entries tip = some pindexBest) :
    n.depthInMainChain h = .ok (n.nBestHeight - pindex.nHeight + 1) := by
  have hheight : n.nBestHeight = pindexBest.nHeight := by
    rw [hbest.nBestHeight, BlockTree.nHeight_of_entry htip]
  simp only [Node.depthInMainChain, hentry, hactive, if_true, hbest.pindexBest, Option.bind_some, htip, orUndefined,
    hheight]
  rfl

end MainChain

namespace CMerkleTx

section Locate

variable {env : Env} {n : Node} {tip : UInt256} {pindex pindexBest : CBlockIndex} {block : CBlock} {mtx : CMerkleTx}

theorem setMerkleBranch_of_mem (env : Env) (hmem : mtx.tx ∈ block.vtx) : mtx.setMerkleBranch env block = { mtx with
        hashBlock := block.getHash env
        vMerkleBranch := block.getMerkleBranch env.getHash env.hashPair (block.vtx.idxOf mtx.tx)
        nIndex := block.vtx.idxOf mtx.tx } := by
  have hindex : block.vtx.idxOf? mtx.tx = some (block.vtx.idxOf mtx.tx) := by
    unfold List.idxOf? List.idxOf
    rw [List.findIdx?_eq_some_iff_findIdx_eq]
    exact ⟨List.idxOf_lt_length_iff.mpr hmem, rfl⟩
  simp only [setMerkleBranch, hindex, CBlock.getHash]

theorem setMerkleBranchIn_block (hbest : BestAt n tip) (htip : n.mapBlockIndex.entries tip = some pindexBest)
    (hloc : mtx.LocatedIn env n block pindex) : mtx.setMerkleBranchIn env n (some block) =
      .ok (mtx.setMerkleBranch env block, n.nBestHeight - pindex.nHeight + 1) := by
  have hset := setMerkleBranch_of_mem env hloc.mem
  have hfound : (mtx.setMerkleBranch env block).nIndex ≠ -1 := by
    rw [hset]
    change ((block.vtx.idxOf mtx.tx : Nat) : Int) ≠ -1
    omega
  have hhash : (mtx.setMerkleBranch env block).hashBlock = block.getHash env := by rw [hset]
  have hdepth := depthInMainChain_eq hloc.entry hloc.active hbest htip
  simp only [setMerkleBranchIn, if_neg hfound, hhash, hdepth]
  rfl

theorem setMerkleBranchIn_null (hloc : mtx.LocatedIn env n block pindex) :
    mtx.setMerkleBranchIn env n none = (n.depthInMainChain mtx.hashBlock).map fun depth => (mtx, depth) := by
  obtain ⟨txindex, hread, pindex', hentry, hfile, hpos⟩ := hloc.indexed
  rw [hloc.entry] at hentry
  cases hentry
  have hblock := readBlockAt_of_readBlockFromDisk hloc.stored
  rw [hfile, hpos] at hblock
  simp only [setMerkleBranchIn, hread, hblock]
  cases n.depthInMainChain mtx.hashBlock <;> rfl

theorem setMerkleBranch_eq_self_iff (hmem : mtx.tx ∈ block.vtx) :
    mtx.setMerkleBranch env block = mtx ↔ mtx.Names env block := by
  rw [setMerkleBranch_of_mem env hmem]
  cases mtx with
  | mk tx hashBlock vMerkleBranch nIndex =>
    rw [CMerkleTx.mk.injEq]
    constructor
    · rintro ⟨-, hhash, hbranch, hindex⟩
      exact ⟨hhash.symm, hindex.symm, hbranch.symm⟩
    · rintro ⟨hhash, hindex, hbranch⟩
      exact ⟨rfl, hhash.symm, hbranch.symm, hindex.symm⟩

/-- Without the block, `SetMerkleBranch` does the same where the transaction names its place in the block already,
and only there. -/
theorem findsBlock_iff (hbest : BestAt n tip) (htip : n.mapBlockIndex.entries tip = some pindexBest)
    (hloc : mtx.LocatedIn env n block pindex) : mtx.FindsBlock env n block pindex ↔ mtx.Names env block := by
  have hdirect := setMerkleBranchIn_block hbest htip hloc
  have hnull := setMerkleBranchIn_null hloc
  constructor
  · rintro ⟨hsame, -⟩
    rw [hdirect, hnull] at hsame
    rw [← setMerkleBranch_eq_self_iff hloc.mem]
    cases hdepth : n.depthInMainChain mtx.hashBlock with
    | error stop => simp [hdepth, Except.map] at hsame
    | ok depth =>
      simp only [hdepth, Except.map, Except.ok.injEq, Prod.mk.injEq] at hsame
      exact hsame.1.symm
  · intro hnames
    have hself := (setMerkleBranch_eq_self_iff hloc.mem).mpr hnames
    have hdepth := depthInMainChain_eq hloc.entry hloc.active hbest htip
    rw [← hnames.hashBlock] at hdepth
    refine ⟨?_, mtx, ?_⟩
    · rw [hdirect, hnull, hdepth, hself]
      rfl
    · rw [hnull, hdepth]
      rfl

end Locate

section Sample

open Sample

/-- A chain of three blocks, the second with a coinbase and an ordinary transaction. -/
def pairNode : Node :=
  { chainNode 3 with
    pdb := Function.update (chainNode 3).pdb (.tx (env.getHash payTx)) (some (.txIndex ⟨payTxPos 2, [.null]⟩))
    files := CBlock.writeFiles (chainNode 3).files (payBlock 2) 1 (blockPos 2) }

/-- The ordinary transaction, with fields. -/
def sampleTx (hashBlock : UInt256) (vMerkleBranch : List UInt256) (nIndex : Int) : CMerkleTx :=
  ⟨payTx, hashBlock, vMerkleBranch, nIndex⟩

theorem entry_sample : pairNode.mapBlockIndex.entries (blockHash 2) = some (chainEntry 3 2) :=
  entry_chainNode (by decide) (by decide)

theorem bestAt_sample : BestAt pairNode (blockHash 3) where
  pindexBest := rfl
  hashBestChain := rfl
  nBestHeight := by
    show _ = ((chainNode 3).mapBlockIndex.nHeight (blockHash 3) : Int)
    rw [BlockTree.nHeight_of_entry (entry_chainNode (by decide) (le_refl 3))]
    rfl
  nBestChainTrust e he := by
    cases (entry_chainNode (by decide) (le_refl 3)).symm.trans he
    rfl

theorem locatedIn_sample (hashBlock : UInt256) (vMerkleBranch : List UInt256) (nIndex : Int) :
    (sampleTx hashBlock vMerkleBranch nIndex).LocatedIn env pairNode (payBlock 2) (chainEntry 3 2) where
  mem := List.mem_cons_of_mem _ (List.mem_singleton_self payTx)
  entry := entry_sample
  active := by decide
  indexed := ⟨⟨payTxPos 2, [.null]⟩, rfl, chainEntry 3 2, entry_sample, rfl, rfl⟩
  stored := by decide

theorem findsBlock_named :
    (sampleTx (blockHash 2) [blockHash 2] 1).FindsBlock env pairNode (payBlock 2) (chainEntry 3 2) :=
  (findsBlock_iff bestAt_sample (entry_chainNode (by decide) (le_refl 3)) (locatedIn_sample _ _ _)).mpr
    ⟨by decide, by decide, by decide⟩

/-- A transaction that does not know its block is in block 2, and `SetMerkleBranch` does not find it. -/
theorem not_findsBlock_unnamed : BestAt pairNode (blockHash 3)
      ∧ (sampleTx 0 [] (-1)).LocatedIn env pairNode (payBlock 2) (chainEntry 3 2)
      ∧ (sampleTx 0 [] (-1)).setMerkleBranchIn env pairNode none = .ok (sampleTx 0 [] (-1), 0)
      ∧ (sampleTx 0 [] (-1)).setMerkleBranchIn env pairNode (some (payBlock 2))
        = .ok (sampleTx (blockHash 2) [blockHash 2] 1, 2)
      ∧ ¬(sampleTx 0 [] (-1)).FindsBlock env pairNode (payBlock 2) (chainEntry 3 2) := by
  have hnull : (sampleTx 0 [] (-1)).setMerkleBranchIn env pairNode none = .ok (sampleTx 0 [] (-1), 0) := by
    decide
  have hblock : (sampleTx 0 [] (-1)).setMerkleBranchIn env pairNode (some (payBlock 2))
      = .ok (sampleTx (blockHash 2) [blockHash 2] 1, 2) := by
    decide
  refine ⟨bestAt_sample, locatedIn_sample 0 [] (-1), hnull, hblock, ?_⟩
  rintro ⟨hsame, -⟩
  rw [hnull, hblock] at hsame
  have hdepth : (0 : Int) = 2 := congrArg Prod.snd (Except.ok.inj hsame)
  exact absurd hdepth (by decide)

end Sample

end CMerkleTx

end PupaCoin
