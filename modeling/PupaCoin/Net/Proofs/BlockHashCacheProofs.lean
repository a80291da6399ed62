import PupaCoin.Net.BlockHashCache
import PupaCoin.Chain.Proofs.BestTrustProofs

/-!
# When the cached block hashes are those of the active chain

What `GetBlockHash` reads it reads correctly, and what it has read once it answers for ever. So the answers are
right for as long as no block is exchanged that was asked for.
-/

namespace PupaCoin

variable {n n' : Node} {nBlockHeight : Int} {hash : UInt256}

open Exec (Frame)

theorem hashAt_cons_self (pindex : CBlockIndex) (chain : List CBlockIndex) :
    hashAt (pindex :: chain) pindex.nHeight = some pindex.phashBlock := by
  simp [hashAt]

theorem hashAt_cons_of_ne {pindex : CBlockIndex} {nHeight : Int} (chain : List CBlockIndex)
    (hne : (pindex.nHeight : Int) ≠ nHeight) : hashAt (pindex :: chain) nHeight = hashAt chain nHeight := by
  simp [hashAt, hne]

/-- **The loop.** From a block with `ago` blocks still to go it finds the block that much lower, unless that
    is the genesis block. By induction along the path: every round is one block lower. -/
theorem readBlockHash_chain {t : BlockTree} {h : UInt256} {e : CBlockIndex} (he : t.entries h = some e)
    {nBlocksAgo n : Int} (hn : n ≤ nBlocksAgo) : readBlockHash nBlocksAgo n (t.chain h) =
      if 0 < (e.nHeight : Int) - (nBlocksAgo - n) then hashAt (t.chain h) (e.nHeight - (nBlocksAgo - n))
      else none := by
  induction h using t.toParentTree.path_induction generalizing e n with
  | root h hroot =>
    rw [BlockTree.parent_of_entry he] at hroot
    have hzero : e.nHeight = 0 := t.root_height he hroot
    rw [BlockTree.chain_of_root he hroot, if_neg (by omega), readBlockHash, if_neg (by omega)]
  | child h p hparent ih =>
    have hprev : e.pprev = some p := by rw [← BlockTree.parent_of_entry he, hparent]
    obtain ⟨f, hf, hheight⟩ := t.prev_height he hprev
    rw [BlockTree.chain_of_pprev he hprev, readBlockHash, if_pos (by omega)]
    by_cases hlast : nBlocksAgo ≤ n
    · have hsame : (e.nHeight : Int) - (nBlocksAgo - n) = e.nHeight := by omega
      rw [if_pos hlast, hsame, if_pos (by omega), hashAt_cons_self]
    · have hlower : (f.nHeight : Int) - (nBlocksAgo - (n + 1)) = e.nHeight - (nBlocksAgo - n) := by omega
      rw [if_neg hlast, ih hf (by omega), hlower, hashAt_cons_of_ne _ (by omega)]

theorem activeChain_cons {pindexBest : CBlockIndex} {pprev : List CBlockIndex}
    (h : activeChain n = pindexBest :: pprev) :
    ∃ hBest, n.pindexBest = some hBest ∧ n.mapBlockIndex.entries hBest = some pindexBest
      ∧ n.mapBlockIndex.chain hBest = pindexBest :: pprev := by
  unfold activeChain at h
  cases hbest : n.pindexBest with
  | none =>
    rw [hbest] at h
    cases h
  | some hBest =>
    rw [hbest] at h
    have hchain : n.mapBlockIndex.chain hBest = pindexBest :: pprev := h
    refine ⟨hBest, rfl, ?_, hchain⟩
    rw [← BlockTree.head?_chain, hchain]
    rfl

theorem getBlockHash_cases (n : Node) (nBlockHeight : Int) (cache : BlockHashCache) :
    getBlockHash n nBlockHeight cache = (none, cache) ∨
    ∃ key hash, (key ≠ 0 → blockUsed n key = blockUsed n nBlockHeight) ∧
      ((cache key = some hash ∧ getBlockHash n nBlockHeight cache = (some hash, cache)) ∨
        (key ≠ 0 ∧ blockUsed n key = some hash ∧
          getBlockHash n nBlockHeight cache = (some hash, Function.update cache key (some hash)))) := by
  unfold getBlockHash
  rcases hchain : activeChain n with _ | ⟨pindexBest, pprev⟩
  · exact Or.inl rfl
  · obtain ⟨hBest, -, hentry, hread⟩ := activeChain_cons hchain
    have hused : ∀ k, blockUsed n k = hashAt (pindexBest :: pprev) (usedHeight pindexBest.nHeight k) := by
      intro k
      unfold blockUsed
      rw [hchain]
      rfl
    simp only
    generalize hkey : (if nBlockHeight = 0 then (pindexBest.nHeight : Int) else nBlockHeight) = key
    have hsame : key ≠ 0 → blockUsed n key = blockUsed n nBlockHeight := by
      intro hne
      rw [hused, hused]
      congr 1
      unfold usedHeight
      split_ifs at hkey ⊢ <;> omega
    cases hcache : cache key with
    | some hash => exact Or.inr ⟨key, hash, hsame, Or.inl ⟨hcache, rfl⟩⟩
    | none =>
      simp only
      by_cases hlow : pindexBest.nHeight = 0 ∨ (pindexBest.nHeight : Int) + 1 < key
      · exact Or.inl (by rw [if_pos hlow])
      · rw [if_neg hlow]
        have hne : key ≠ 0 := by
          rintro rfl
          split_ifs at hkey <;> omega
        generalize hago : (if 0 < key then (pindexBest.nHeight : Int) + 1 - key else 0) = nBlocksAgo
        have hnonneg : 0 ≤ nBlocksAgo := by
          split_ifs at hago <;> omega
        have hheight : (pindexBest.nHeight : Int) - (nBlocksAgo - 0) = usedHeight pindexBest.nHeight key := by
          unfold usedHeight
          split_ifs at hago ⊢ <;> omega
        cases hloop : readBlockHash nBlocksAgo 0 (pindexBest :: pprev) with
        | none => exact Or.inl rfl
        | some hash =>
          refine Or.inr ⟨key, hash, hsame, Or.inr ⟨hne, ?_, rfl⟩⟩
          rw [← hread, readBlockHash_chain hentry hnonneg, hheight] at hloop
          split at hloop
          · rw [hused, ← hread, hloop]
          · cases hloop

theorem getBlockHash_cached {cache : BlockHashCache} (hchain : activeChain n ≠ []) (hne : nBlockHeight ≠ 0)
    (hcache : cache nBlockHeight = some hash) : getBlockHash n nBlockHeight cache = (some hash, cache) := by
  unfold getBlockHash
  rcases hc : activeChain n with _ | ⟨pindexBest, pprev⟩
  · exact absurd hc hchain
  · simp only [if_neg hne, hcache]

/-- The pointer to the best block leads to an entry. -/
def BestKnown (n : Node) : Prop := (n.pindexBest.bind n.mapBlockIndex.entries).isSome

theorem bestKnown_iff : BestKnown n ↔ activeChain n ≠ [] := by
  unfold BestKnown activeChain
  cases n.pindexBest with
  | none => simp [BlockTree.chain?]
  | some hBest =>
    rw [Option.bind_some, BlockTree.chain?, ← BlockTree.head?_chain, List.isSome_head?]

theorem BestKnown.of_core (hbest : n'.pindexBest = n.pindexBest) (hcore : CoreKept n n') (hn : BestKnown n)
    : BestKnown n' := by
  unfold BestKnown at hn ⊢
  rw [hbest]
  obtain ⟨e, he⟩ := Option.isSome_iff_exists.mp hn
  obtain ⟨hBest, hsome, hentry⟩ := Option.bind_eq_some_iff.mp he
  obtain ⟨e', he', -⟩ := hcore hBest e hentry
  rw [hsome, Option.bind_some, he']
  rfl

theorem acceptBlock_keepsBest (env : Env) (block : CBlock) (n : Node) (hn : BestKnown n) :
    BestKnown (block.acceptBlock env n).2 := by
  have hrises := (acceptBlock_lifts env block n).1
  rcases hrises.tip with hsame | ⟨-, tip, htip⟩
  · exact hn.of_core hsame.1 hrises.core
  · obtain ⟨e, he⟩ := htip.known
    unfold BestKnown
    rw [htip.pindexBest, Option.bind_some, he]
    rfl

namespace CachedNode

variable {env : Env} {s s' : CachedNode}

/-- Every cached hash is the one of the block on the active chain that was asked for. -/
def Faithful (s : CachedNode) : Prop := ∀ nBlockHeight hash, s.mapCacheBlockHashes nBlockHeight = some hash →
    nBlockHeight ≠ 0 ∧ blockUsed s.node nBlockHeight = some hash

theorem Faithful.coherent (hs : s.Faithful) : s.Coherent := by
  intro nBlockHeight hash hanswer
  rcases getBlockHash_cases s.node nBlockHeight s.mapCacheBlockHashes with
    hnone | ⟨key, hash', hsame, ⟨hcache, hget⟩ | ⟨hne, hused, hget⟩⟩
  · rw [hnone] at hanswer
    cases hanswer
  · obtain ⟨hne, hused⟩ := hs key hash' hcache
    rw [hget] at hanswer
    cases hanswer
    rw [← hsame hne, hused]
  · rw [hget] at hanswer
    cases hanswer
    rw [← hsame hne, hused]

theorem Faithful.lookup (hs : s.Faithful) (nBlockHeight : Int) : (s.lookup nBlockHeight).Faithful := by
  unfold CachedNode.lookup
  rcases getBlockHash_cases s.node nBlockHeight s.mapCacheBlockHashes with
    hnone | ⟨key, hash', hsame, ⟨hcache, hget⟩ | ⟨hne, hused, hget⟩⟩
  · rw [hnone]
    exact hs
  · rw [hget]
    exact hs
  · rw [hget]
    intro k hash hk
    by_cases hkey : k = key
    · subst hkey
      have hsome : some hash' = some hash := by simpa using hk
      cases hsome
      exact ⟨hne, hused⟩
    · exact hs k hash (by simpa [hkey] using hk)

theorem Faithful.keepsAnswered (hs : s.Faithful) (hk : s.KeepsAnswered s')
    (hcache : s'.mapCacheBlockHashes = s.mapCacheBlockHashes) : s'.Faithful := by
  intro nBlockHeight hash hsome
  rw [hcache] at hsome
  obtain ⟨hne, hused⟩ := hs nBlockHeight hash hsome
  exact ⟨hne, by rw [hk nBlockHeight (by rw [hsome]; rfl), hused]⟩

theorem activeChain_of_blockUsed (h : blockUsed n nBlockHeight = some hash) : activeChain n ≠ [] := by
  intro hnil
  unfold blockUsed at h
  rw [hnil] at h
  cases h

theorem Faithful.answered_kept (hs : s.Faithful) (hc : s'.Coherent)
    (hcache : s'.mapCacheBlockHashes = s.mapCacheBlockHashes)
    (hbest : BestKnown s.node → BestKnown s'.node) : s.KeepsAnswered s' := by
  intro nBlockHeight hsome
  obtain ⟨hash, hhash⟩ := Option.isSome_iff_exists.mp hsome
  obtain ⟨hne, hused⟩ := hs nBlockHeight hash hhash
  have hchain : activeChain s'.node ≠ [] :=
    bestKnown_iff.mp (hbest (bestKnown_iff.mpr (activeChain_of_blockUsed hused)))
  rw [hused]
  refine hc nBlockHeight hash ?_
  rw [getBlockHash_cached hchain hne (hcache ▸ hhash)]

end CachedNode

section Runs

variable {env : Env} {n : Node} {s s' : CachedNode} {states : List CachedNode}

theorem blockUsed_of_idle (hw : Writes idleParts n n') (nBlockHeight : Int) :
    blockUsed n' nBlockHeight = blockUsed n nBlockHeight := by
  have htree : n'.mapBlockIndex = n.mapBlockIndex := (IndexKept.of_writes hw (by decide)).mapBlockIndex
  have hbest : n'.pindexBest = n.pindexBest := (hw .tip (by decide)).1
  unfold blockUsed activeChain
  rw [htree, hbest]

theorem CacheStep.coherent_iff (h : CacheStep env s s') (hs : s.Faithful) :
    (s'.Coherent ↔ s.KeepsAnswered s') ∧ (s.KeepsAnswered s' → s'.Faithful) := by
  cases h with
  | lookup nBlockHeight =>
    have hf := hs.lookup nBlockHeight
    exact ⟨⟨fun _ _ _ => rfl, fun _ => hf.coherent⟩, fun _ => hf⟩
  | idle hw =>
    have hk : s.KeepsAnswered { s with node := _ } := fun nBlockHeight _ => blockUsed_of_idle hw nBlockHeight
    have hf := hs.keepsAnswered hk rfl
    exact ⟨⟨fun _ => hk, fun _ => hf.coherent⟩, fun _ => hf⟩
  | accept block =>
    refine ⟨⟨fun hc => ?_, fun hk => (hs.keepsAnswered hk rfl).coherent⟩, fun hk => hs.keepsAnswered hk rfl⟩
    exact hs.answered_kept hc rfl (acceptBlock_keepsBest env block s.node)

theorem faithful_start (n : Node) : (CachedNode.mk n fun _ => none).Faithful := by
  intro nBlockHeight hash h
  cases h

/-- **Runs, one way.** By induction on the run: the last state is faithful. -/
theorem CacheRun.faithful (h : CacheRun env n states) (hkept : states.IsChain fun s' s => s.KeepsAnswered s')
    : ∀ s ∈ states, s.Faithful := by
  induction h with
  | start =>
    intro s hs
    rw [List.mem_singleton.mp hs]
    exact faithful_start n
  | step _ hstep ih =>
    obtain ⟨hk, hpast⟩ := List.isChain_cons_cons.mp hkept
    have hfaithful := ih hpast
    intro s hs
    rcases List.mem_cons.mp hs with rfl | hs
    · exact (hstep.coherent_iff (hfaithful _ (List.mem_cons_self ..))).2 hk
    · exact hfaithful s hs

theorem CacheRun.kept (h : CacheRun env n states) (hc : ∀ s ∈ states, s.Coherent) :
    states.IsChain fun s' s => s.KeepsAnswered s' := by
  induction h with
  | start => exact List.isChain_singleton _
  | step hrun hstep ih =>
    have hpast := ih fun s hs => hc s (List.mem_cons_of_mem _ hs)
    have hs := hrun.faithful hpast _ (List.mem_cons_self ..)
    exact List.isChain_cons_cons.mpr ⟨(hstep.coherent_iff hs).1.mp (hc _ (List.mem_cons_self ..)), hpast⟩

/-- In every state of a run the answers are right if and only if no step of the run exchanges a block that
    was asked for before. -/
theorem blockHashes_coherent_iff (h : CacheRun env n states) :
    (∀ s ∈ states, s.Coherent) ↔ states.IsChain fun s' s => s.KeepsAnswered s' :=
  ⟨h.kept, fun hkept s hs => (h.faithful hkept s hs).coherent⟩

end Runs

namespace Sample

def forkedAt (k : Nat) (n : Node) : Node := { n with ext := { ext 500 with appendPos := some (2, blockPos k) } }

def askedNode : CachedNode := (CachedNode.mk (forkedAt 500 (chainNode 500)) fun _ => none).lookup 501

def besideNode : Node := ((forkBlock 499 500).acceptBlock env askedNode.node).2

def movedNode : Node := ((forkBlock 499 501).acceptBlock env (forkedAt 501 besideNode)).2

def staleRun : List CachedNode :=
  [⟨movedNode, askedNode.mapCacheBlockHashes⟩, ⟨forkedAt 501 besideNode, askedNode.mapCacheBlockHashes⟩,
    ⟨besideNode, askedNode.mapCacheBlockHashes⟩, askedNode, ⟨forkedAt 500 (chainNode 500), fun _ => none⟩]

theorem staleRun_run : CacheRun env (forkedAt 500 (chainNode 500)) staleRun := by
  have haccepted : ((forkBlock 499 500).acceptBlock env askedNode.node).1 = .ok () := by decide +kernel
  have hmoved : ((forkBlock 499 501).acceptBlock env (forkedAt 501 besideNode)).1 = .ok () := by
    decide +kernel
  have hidle : Writes idleParts besideNode (forkedAt 501 besideNode) := by
    intro p hp
    cases p <;> simp [Part.Same, idleParts, forkedAt] at hp ⊢
  refine .step (.step (.step (.step .start (.lookup 501)) (.accept (forkBlock 499 500) ?_)) (.idle hidle))
    (.accept (forkBlock 499 501) ?_)
  · rw [haccepted]
    trivial
  · show Survives ((forkBlock 499 501).acceptBlock env (forkedAt 501 besideNode)).1
    rw [hmoved]
    trivial

theorem staleRun_coherent_iff : (∀ s ∈ staleRun, s.Coherent) ↔ staleRun.IsChain fun s' s => s.KeepsAnswered s' :=
  blockHashes_coherent_iff staleRun_run

/-- Behind the reorganisation the call for height 501 still answers with the hash of block 500, which is not
    on the active chain any more. -/
theorem staleRun_incoherent : CacheRun env (forkedAt 500 (chainNode 500)) staleRun ∧
    (getBlockHash movedNode 501 askedNode.mapCacheBlockHashes).1 = some (blockHash 500) ∧
    blockHash 500 ∉ activePath movedNode ∧ ¬ (∀ s ∈ staleRun, s.Coherent) := by
  have hanswer : (getBlockHash movedNode 501 askedNode.mapCacheBlockHashes).1 = some (blockHash 500) := by
    decide +kernel
  have hused : blockUsed movedNode 501 = some (forkHash 500) := by decide +kernel
  refine ⟨staleRun_run, hanswer, by decide +kernel, fun hcoherent => ?_⟩
  have hsame := hcoherent _ (List.mem_cons_self ..) 501 (blockHash 500) hanswer
  have hne : forkHash 500 ≠ blockHash 500 := by decide
  exact hne (Option.some.inj (hused.symm.trans hsame))

end Sample

end PupaCoin
