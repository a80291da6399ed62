import PupaCoin.Chain.Proofs.AcceptBlockProofs
import PupaCoin.Chain.Proofs.SampleProofs

/-!
# The branch a stake is judged on

`CheckProofOfStake` finds the kernel transaction through the index of the active chain and counts its age
along the ancestors of the block. The two agree where the block that the index leads to is one of these
ancestors; where it is not, the age is never judged.
-/

namespace PupaCoin

variable {pindexPrev : List CBlockIndex} {tx : CTransaction} {txindex : CTxIndex} {nBits : UInt32} {block : CBlock}
  {n n' : Node} {nMaxDepth : Int} {h : UInt256}

/-- An entry that the walk does not find is at least `nMaxDepth` blocks down wherever it lies on the
    chain. By induction on the chain. -/
theorem isConfirmedFrom_none {nFromHeight : Int}
    {chain : List CBlockIndex} (hsorted : chain.Pairwise fun a b => b.nHeight ≤ a.nHeight)
    (h : isConfirmedFrom txindex nFromHeight nMaxDepth chain = none) :
    ∀ c ∈ chain, c.nFile = txindex.pos.nFile → c.nBlockPos = txindex.pos.nBlockPos →
      nMaxDepth ≤ nFromHeight - c.nHeight := by
  induction chain with
  | nil => simp
  | cons pindex rest ih =>
    rw [List.pairwise_cons] at hsorted
    unfold isConfirmedFrom at h
    intro c hc hfile hpos
    split at h
    · rename_i hdepth
      split at h
      · cases h
      · rename_i hother
        rcases List.mem_cons.mp hc with rfl | hc
        · simp [hfile, hpos] at hother
        · exact ih hsorted.2 h c hc hfile hpos
    · rename_i hdepth
      rcases List.mem_cons.mp hc with rfl | hc
      · omega
      · have := hsorted.1 c hc
        omega

theorem isConfirmedInNPrevBlocks_none {t : BlockTree} {pindexFrom c : CBlockIndex} (hfrom : t.entries h = some pindexFrom)
    (hnone : isConfirmedInNPrevBlocks txindex (t.chain h) nMaxDepth = none) (hc : c ∈ t.chain h)
    (hfile : c.nFile = txindex.pos.nFile) (hpos : c.nBlockPos = txindex.pos.nBlockPos) :
    nMaxDepth ≤ (pindexFrom.nHeight : Int) - c.nHeight := by
  have hhead := t.head?_chain h
  rw [hfrom] at hhead
  have hsorted := t.pairwise_chain h
  unfold isConfirmedInNPrevBlocks at hnone
  cases hchain : t.chain h with
  | nil => simp [hchain] at hhead
  | cons pindex rest =>
    rw [hchain] at hhead hsorted hnone hc
    obtain rfl : pindex = pindexFrom := by simpa using hhead
    exact isConfirmedFrom_none hsorted hnone c hc hfile hpos

theorem checkProofOfStake_returns {env : Env} {hashProof : UInt256}
    (h : checkProofOfStake env n pindexPrev tx nBits = .ok hashProof) :
    ∃ txin txPrev txindex, tx.vin.head? = some txin ∧
      CTransaction.readFromDisk n n.pdb.readTxIndex txin.prevout = some (txPrev, txindex) ∧
      isConfirmedInNPrevBlocks txindex pindexPrev (nStakeMinConfirmations - 1) = none := by
  unfold checkProofOfStake at h
  simp only [Guards.bind_eq_ok, orUndefined_eq_ok] at h
  obtain ⟨_, _, txin, hhead, h⟩ := h
  cases hread : CTransaction.readFromDisk n n.pdb.readTxIndex txin.prevout with
  | none => simp [hread, throw, throwThe, MonadExceptOf.throw] at h
  | some found =>
    obtain ⟨txPrev, txindex⟩ := found
    simp only [hread, Guards.bind_eq_ok, rejectIf_eq_ok] at h
    obtain ⟨_, _, _, _, _, hage, _⟩ := h
    exact ⟨txin, txPrev, txindex, hhead, hread, by simpa using hage⟩

theorem checkKernel_eq_ok_iff {env : Env} {nTime : Int} {prevout : COutPoint} (hstake : tx.isCoinStake = true)
    (hkernel : (tx.vin.head?.map CTxIn.prevout) = some prevout) (htime : tx.nTime = UInt32.ofInt nTime)
    (hsigned : ∀ txPrev txindex, CTransaction.readFromDisk n n.pdb.readTxIndex prevout = some (txPrev, txindex) →
        env.verifySignature txPrev tx 0 scriptVerifyNone = true) (hashProof : UInt256) :
    checkKernel env n pindexPrev nBits nTime prevout = .ok hashProof ↔
      checkProofOfStake env n pindexPrev tx nBits = .ok hashProof := by
  obtain ⟨txin, hhead, rfl⟩ := Option.map_eq_some_iff.mp hkernel
  unfold checkKernel checkProofOfStake
  simp only [hstake, hhead, orUndefined, Bool.not_true, rejectIf, Guards.stopIf_false, Guards.ok_bind, htime]
  cases hread : CTransaction.readFromDisk n n.pdb.readTxIndex txin.prevout with
  | none => simp [throw, throwThe, MonadExceptOf.throw]
  | some found =>
    obtain ⟨txPrev, txindex⟩ := found
    simp only [hsigned txPrev txindex hread, Bool.not_true, Guards.stopIf_false, Guards.ok_bind]
    simp only [Guards.bind_eq_ok, Guards.stopIf_eq_ok]

theorem acceptBlock_kernel {env : Env}
    (hpos : block.isProofOfStake = true) (hret : block.acceptBlock env n = (.ok (), n')) :
    ∃ prev txindex, n.mapBlockIndex.entries block.hashPrevBlock = some prev ∧
      n.pdb.readTxIndex (kernelHash block) = some txindex ∧
      isConfirmedInNPrevBlocks txindex (n.mapBlockIndex.chain block.hashPrevBlock)
        (nStakeMinConfirmations - 1) = none := by
  obtain ⟨prev, n1, hashProof, hprev, _, ⟨_, rfl⟩, hcontext, _⟩ := CBlock.acceptBlock_returns hret
  have hproof := CBlock.checkContext_proofHash hcontext
  unfold CBlock.proofHash at hproof
  simp only [hpos, if_true, Guards.bind_eq_ok, orUndefined_eq_ok] at hproof
  obtain ⟨coinstake, hstake, hproof⟩ := hproof
  obtain ⟨txin, txPrev, txindex, hhead, hread, hage⟩ := checkProofOfStake_returns hproof
  have hkernel : kernelHash block = txin.prevout.hash := by
    simp [kernelHash, getProofOfStake, hpos, hstake, hhead]
  unfold CTransaction.readFromDisk at hread
  obtain ⟨found, hindex, hread⟩ := Option.bind_eq_some_iff.mp hread
  obtain ⟨_, _, hread⟩ := Option.bind_eq_some_iff.mp hread
  have hfound : found = txindex := by
    split at hread
    · cases hread
    · cases hread
      rfl
  rw [hfound] at hindex
  exact ⟨prev, txindex, hprev, hkernel ▸ hindex, hage⟩

theorem stakeable_of_active {env : Env} (hindex : ActiveIndex env n)
    (hpos : block.isProofOfStake = true) (hret : block.acceptBlock env n = (.ok (), n'))
    (hactive : h ∈ activePath n) (hpath : h ∈ n.mapBlockIndex.path block.hashPrevBlock)
    (hcontains : ContainsTx env n h (kernelHash block)) :
    StakeableAncestor env n block.hashPrevBlock h (kernelHash block) := by
  obtain ⟨prev, txindex, hprev, hread, hage⟩ := acceptBlock_kernel hpos hret
  obtain ⟨k, hk, ⟨pindex, hentry, hfile, hblockpos⟩, hcontainsK⟩ := hindex.located _ _ hread
  have hkh : k = h := hindex.once k hk h hactive _ hcontainsK hcontains
  subst hkh
  have hhash := n.mapBlockIndex.hash_eq hentry
  have hmem : pindex ∈ n.mapBlockIndex.chain block.hashPrevBlock :=
    BlockTree.mem_chain.mpr ⟨hhash ▸ hpath, hhash ▸ hentry⟩
  have hdeep := isConfirmedInNPrevBlocks_none hprev hage hmem hfile hblockpos
  refine ⟨hpath, hcontains, ?_⟩
  rw [BlockTree.nHeight_of_entry hentry, BlockTree.nHeight_of_entry hprev]
  omega

/-- **Where a stake is judged.** An accepted proof-of-stake block stakes a transaction of one of its own
    ancestors that is old enough exactly when the block that contains the transaction on the active chain
    is one of its ancestors, or a block off the active chain is one that is old enough and contains it as
    well. Independently of that, the two kernel checks accept the same. -/
theorem acceptBlock_stake_iff {env : Env} {block : CBlock} {n n' : Node} (hindex : ActiveIndex env n)
    (hpos : block.isProofOfStake = true) (hret : block.acceptBlock env n = (.ok (), n')) :
    ((∃ h, StakeableAncestor env n block.hashPrevBlock h (kernelHash block)) ↔
      (∃ h ∈ activePath n, h ∈ n.mapBlockIndex.path block.hashPrevBlock ∧ ContainsTx env n h (kernelHash block)) ∨
      ∃ h, h ∉ activePath n ∧ StakeableAncestor env n block.hashPrevBlock h (kernelHash block)) ∧
    ∀ (m : Node) (pindexPrev : List CBlockIndex) (tx : CTransaction) (nBits : UInt32) (nTime : Int)
      (prevout : COutPoint) (hashProof : UInt256), tx.isCoinStake = true →
      (tx.vin.head?.map CTxIn.prevout) = some prevout → tx.nTime = UInt32.ofInt nTime →
      (∀ txPrev txindex, CTransaction.readFromDisk m m.pdb.readTxIndex prevout = some (txPrev, txindex) →
          env.verifySignature txPrev tx 0 scriptVerifyNone = true) →
      (checkKernel env m pindexPrev nBits nTime prevout = .ok hashProof ↔
        checkProofOfStake env m pindexPrev tx nBits = .ok hashProof) := by
  refine ⟨⟨?_, ?_⟩, fun m pindexPrev tx nBits nTime prevout hashProof hstake hkernel htime hsigned =>
    checkKernel_eq_ok_iff hstake hkernel htime hsigned hashProof⟩
  · rintro ⟨h, hstakeable⟩
    by_cases hactive : h ∈ activePath n
    · exact Or.inl ⟨h, hactive, hstakeable.1, hstakeable.2.1⟩
    · exact Or.inr ⟨h, hactive, hstakeable⟩
  · rintro (⟨h, hactive, hpath, hcontains⟩ | ⟨h, _, hstakeable⟩)
    · exact ⟨h, stakeable_of_active hindex hpos hret hactive hpath hcontains⟩
    · exact ⟨h, hstakeable⟩

namespace Sample

def sideCoinstake : CTransaction where
  nVersion := 1
  nTime := 1600006400
  vin := [⟨⟨blockHash 8, 0⟩, [], 0xffffffff⟩]
  vout := [⟨0, []⟩, ⟨5 * coin, [0x51]⟩]
  nLockTime := 3002

def sideBlock : CBlock where
  nVersion := 7
  hashPrevBlock := blockHash 3
  hashMerkleRoot := 6003
  nTime := 1600006400
  nBits := getCompact mainParams.bnProofOfStakeLimit
  nNonce := 3000
  vtx := [{ coinbaseTx 4 with nTime := 1600006400, vout := [⟨0, []⟩], nLockTime := 3001 }, sideCoinstake]
  vchBlockSig := [0]

def sideAccepted : Node := (sideBlock.acceptBlock env (chainNode 500)).2

theorem sideBlock_accepted : sideBlock.acceptBlock env (chainNode 500) = (.ok (), sideAccepted) := by
  unfold sideAccepted
  exact Exec.eq_of_fst (by decide +kernel)

theorem sideBlock_not_stakeable (h : UInt256) :
    ¬ StakeableAncestor env (chainNode 500) sideBlock.hashPrevBlock h (kernelHash sideBlock) := by
  rintro ⟨hpath, hcontains, _⟩
  have hbest : 500 ≤ maxBest := by decide
  obtain ⟨k, hk, rfl, hkernel⟩ := (containsTx_chainNode hbest).mp hcontains
  have hpath3 : blockHash k ∈ (chainNode 500).mapBlockIndex.path (blockHash 3) := hpath
  obtain ⟨j, hj, heq⟩ := (mem_path_chainNode hbest (by omega) _).mp hpath3
  have h8 : kernelHash sideBlock = blockHash 8 := by decide
  rw [h8, heq] at hkernel
  have hnat := congrArg BitVec.toNat hkernel
  unfold maxBest at hbest
  rw [blockHash_toNat (by unfold maxBest; omega), blockHash_toNat (by unfold maxBest; omega)] at hnat
  omega

theorem sideBlock_stake_iff :
    (∃ h, StakeableAncestor env (chainNode 500) sideBlock.hashPrevBlock h (kernelHash sideBlock)) ↔
      (∃ h ∈ activePath (chainNode 500), h ∈ (chainNode 500).mapBlockIndex.path sideBlock.hashPrevBlock ∧
          ContainsTx env (chainNode 500) h (kernelHash sideBlock)) ∨
      ∃ h, h ∉ activePath (chainNode 500) ∧
        StakeableAncestor env (chainNode 500) sideBlock.hashPrevBlock h (kernelHash sideBlock) :=
  (acceptBlock_stake_iff (activeIndex_chainNode (by decide)) (by decide) sideBlock_accepted).1

/-- A block that passes `CheckBlock` and `AcceptBlock` stakes a transaction of no ancestor. -/
theorem sideBlock_stakes_elsewhere :
    ¬ ∀ (env : Env) (block : CBlock) (n n' : Node), ActiveIndex env n → block.isProofOfStake = true →
      (block.checkBlock env true true true n).1 = .ok () → block.acceptBlock env n = (.ok (), n') →
      ∃ h, StakeableAncestor env n block.hashPrevBlock h (kernelHash block) := by
  intro hall
  obtain ⟨h, hstakeable⟩ := hall env sideBlock (chainNode 500) sideAccepted
    (activeIndex_chainNode (by decide)) (by decide) (by decide) sideBlock_accepted
  exact sideBlock_not_stakeable h hstakeable

end Sample

end PupaCoin
