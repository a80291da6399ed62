import PupaCoin.Chain.Locator
import PupaCoin.Chain.Proofs.BlockSizeProofs
import PupaCoin.Chain.Proofs.StoredProofs
import PupaCoin.Chain.Proofs.SupplyCapProofs

/-!
# Proofs: blocks of the active chain by their height

What stops before the commit of a reorganisation leaves the pointers along the old chain, and the calls of
`FindBlockByHeight` on the way find blocks of this chain. What returns has moved the pointers to the new chain, where the
cache is emptied.
-/

namespace PupaCoin

open Exec BlockTree BlockSizeCalculator

variable {nHeight : Int} {e : CBlockIndex} {r : Except Stop (List CBlockIndex)} {block : CBlock} {t : BlockTree}

section Search

variable {n n' : Node} {tip : UInt256}

theorem TipLinked.activeLinked (h : TipLinked n tip) : ActiveLinked n tip where
  pindexBest := h.pindexBest
  known := Option.isSome_iff_exists.mp h.known
  genesis := by
    obtain ⟨g, hg, -, hgenesis⟩ := h.genesis
    exact ⟨g, hg, hgenesis⟩
  pnext a ha p hp := by
    have hchild : n.mapBlockIndex.toParentTree.parent a = some p := hp
    obtain ⟨e, he⟩ := Option.isSome_iff_exists.mp h.known
    have hpath : p ∈ n.mapBlockIndex.path tip := by
      refine ParentTree.mem_path_trans ?_ ha
      rw [ParentTree.path_of_parent hchild]
      exact List.mem_cons_of_mem _ (ParentTree.mem_path_self p)
    obtain ⟨f, hf⟩ := entry_of_mem_path he hpath
    have hnext : n.mapBlockIndex.toParentTree.next tip p = some a := ParentTree.next_eq_some_iff.mpr ⟨ha, hchild⟩
    simp only [BlockTree.pnext, hf, Option.bind_some]
    exact (h.linked p f hf).trans hnext
  cache := h.cache

theorem walkUp_mem (h : TipLinked n tip) (nHeight : Int) (fuel : Nat) {a b : UInt256}
    (ha : a ∈ n.mapBlockIndex.path tip) (hwalk : walkUp n.mapBlockIndex nHeight fuel a = .ok b) :
    b ∈ n.mapBlockIndex.path tip := by
  induction fuel generalizing a with
  | zero =>
    unfold walkUp at hwalk
    obtain ⟨pindex, -, hwalk⟩ := Guards.bind_eq_ok.mp hwalk
    split at hwalk
    · cases hwalk
    · cases hwalk
      exact ha
  | succ fuel ih =>
    unfold walkUp at hwalk
    obtain ⟨pindex, hentry, hwalk⟩ := Guards.bind_eq_ok.mp hwalk
    rw [orUndefined_eq_ok] at hentry
    split at hwalk
    · split at hwalk
      · next next hnext =>
        refine ih ?_ hwalk
        have hchild : n.mapBlockIndex.toParentTree.next tip a = some next := (h.linked a pindex hentry).symm.trans hnext
        exact (ParentTree.next_eq_some_iff.mp hchild).1
      · cases hwalk
    · cases hwalk
      exact ha

theorem findBlockByHeight_mem (h : TipLinked n tip) {pindex : CBlockIndex}
    (hfind : findBlockByHeight n nHeight = .ok pindex) : pindex.phashBlock ∈ n.mapBlockIndex.path tip := by
  obtain ⟨s, es, hstart, hs, hes⟩ := h.activeLinked.start nHeight
  unfold findBlockByHeight at hfind
  rw [hstart] at hfind
  obtain ⟨_, hok, hfind⟩ := Guards.bind_eq_ok.mp hfind
  cases hok
  have hhash := n.mapBlockIndex.hash_eq hes
  rw [hhash] at hfind
  cases hdown : walkDown nHeight (n.mapBlockIndex.chain s) with
  | nil =>
    rw [hdown] at hfind
    cases hfind
  | cons low rest =>
    rw [hdown] at hfind
    obtain ⟨b, hup, hentry⟩ := Guards.bind_eq_ok.mp hfind
    rw [orUndefined_eq_ok] at hentry
    have hlow : low ∈ n.mapBlockIndex.chain s := by
      refine (List.dropWhile_suffix fun pindex : CBlockIndex => decide ((pindex.nHeight : Int) > nHeight)).subset ?_
      unfold walkDown at hdown
      rw [hdown]
      exact List.mem_cons_self
    have hb := walkUp_mem h nHeight _ (ParentTree.mem_path_trans (mem_chain.mp hlow).1 hs) hup
    rwa [n.mapBlockIndex.hash_eq hentry]

theorem findBlock_returns {pindex : CBlockIndex} :
    findBlock nHeight n = (.ok pindex, n') ↔ findBlockByHeight n nHeight = .ok pindex ∧
      n' = { n with pblockindexFBBHLast := some pindex.phashBlock } := by
  unfold findBlock
  simp only [Exec.bind_apply, Exec.read_apply, Exec.lift_apply]
  cases findBlockByHeight n nHeight with
  | error e => simp
  | ok found =>
    simp only [Exec.update_apply, Exec.pure_apply, Prod.mk.injEq, Except.ok.injEq]
    constructor
    · rintro ⟨rfl, rfl⟩
      exact ⟨rfl, rfl⟩
    · rintro ⟨rfl, rfl⟩
      exact ⟨rfl, rfl⟩

theorem TipLinked.findsBlock (h : TipLinked n tip) (hlow : 0 ≤ nHeight) (hhigh : nHeight ≤ n.nBestHeight) :
    FindsBlock n nHeight := by
  obtain ⟨k, rfl⟩ := Int.eq_ofNat_of_zero_le hlow
  have hk : k ≤ n.mapBlockIndex.nHeight tip := by
    rw [h.nBestHeight] at hhigh
    omega
  obtain ⟨b, hb, hheight⟩ : ∃ b ∈ n.mapBlockIndex.path tip, n.mapBlockIndex.nHeight b = k :=
    n.mapBlockIndex.toParentTree.exists_mem_of_height_le hk
  obtain ⟨etip, hetip⟩ := Option.isSome_iff_exists.mp h.known
  obtain ⟨e, he⟩ := entry_of_mem_path hetip hb
  have hek : e.nHeight = k := (nHeight_of_entry he).symm.trans hheight
  have hhash := n.mapBlockIndex.hash_eq he
  have hfind := h.activeLinked.findBlockByHeight_eq hb he
  rw [hek] at hfind
  unfold FindsBlock
  rw [h.pindexBest]
  refine ⟨e, _, findBlock_returns.mpr ⟨hfind, rfl⟩, mem_chain.mpr ⟨hhash.symm ▸ hb, hhash.symm ▸ he⟩, by omega, ?_⟩
  intro e' he' hheight'
  obtain ⟨hmem, hentry⟩ := mem_chain.mp he'
  have hsame : e'.phashBlock = b := by
    refine ParentTree.eq_of_mem_of_height hmem hb ?_
    have hk' := nHeight_of_entry hentry
    have hkb := nHeight_of_entry he
    show n.mapBlockIndex.nHeight e'.phashBlock = n.mapBlockIndex.nHeight b
    omega
  rw [hsame] at hentry
  exact Option.some.inj (hentry.symm.trans he)

theorem TipLinked.find (h : TipLinked n tip) {pindex : CBlockIndex}
    (hfind : findBlock nHeight n = (.ok pindex, n')) : TipLinked n' tip := by
  obtain ⟨hfound, rfl⟩ := findBlock_returns.mp hfind
  refine ⟨⟨h.known, h.linked, h.genesis⟩, h.pindexBest, h.hashBestChain, h.nBestHeight, ?_⟩
  intro c hc
  obtain rfl := Option.some.inj hc
  exact findBlockByHeight_mem h hfound

end Search

/-! ## What keeps the active chain -/

/-- The active chain remains, and the cache is still on it. -/
def Steady (n n' : Node) : Prop :=
  ∀ tip, TipLinked n tip → TipLinked n' tip ∧ SameCore n.mapBlockIndex n'.mapBlockIndex

section Steady

variable {env : Env} {n n' : Node} {tip : UInt256} {ps : List Part}

theorem Steady.refl (n : Node) : Steady n n := fun _ h => ⟨h, fun _ => rfl⟩

theorem Steady.trans (a b c : Node) (hab : Steady a b) (hbc : Steady b c) : Steady a c := by
  intro tip ha
  obtain ⟨hb, hcore⟩ := hab tip ha
  obtain ⟨hc, hcore'⟩ := hbc tip hb
  exact ⟨hc, hcore.trans hcore'⟩

theorem ChainLinked.of_same (h : ChainLinked n tip) (hsame : ∀ p ∈ [Part.index, .pnext, .genesis], p.Same n n') :
    ChainLinked n' tip := by
  have hcore : SameCore n.mapBlockIndex n'.mapBlockIndex := hsame .index (by decide)
  refine ⟨?_, fun k e' he' => ?_, ?_⟩
  · obtain ⟨e, he⟩ := Option.isSome_iff_exists.mp h.known
    obtain ⟨e', he', -⟩ := hcore.symm.entry he
    exact Option.isSome_iff_exists.mpr ⟨e', he'⟩
  · obtain ⟨e, he, -⟩ := hcore.entry he'
    have hpnext := hsame .pnext (by decide) k
    unfold BlockTree.pnext at hpnext
    rw [he, he', Option.bind_some, Option.bind_some] at hpnext
    rw [hpnext, hcore.next]
    exact h.linked k e he
  · obtain ⟨g, hg, hroot, hgenesis⟩ := h.genesis
    have hpointer : n'.pindexGenesisBlock = n.pindexGenesisBlock := hsame .genesis (by decide)
    refine ⟨g, ?_, ?_, hpointer.trans hgenesis⟩
    · rwa [hcore.path]
    · rwa [hcore.pprev]

theorem Steady.of_same (hsame : ∀ p ∈ [Part.index, .pnext, .genesis, .tip], p.Same n n')
    (hcache : ∀ tip, TipLinked n tip → ∀ c, n'.pblockindexFBBHLast = some c → c ∈ n.mapBlockIndex.path tip) :
    Steady n n' := by
  intro tip h
  have hcore : SameCore n.mapBlockIndex n'.mapBlockIndex := hsame .index (by decide)
  obtain ⟨hbest, hhash, hheight, -⟩ := hsame .tip (by decide)
  refine ⟨⟨h.toChainLinked.of_same fun p hp => hsame p (by revert p; decide), hbest.trans h.pindexBest,
    hhash.trans h.hashBestChain, ?_, fun c hc => ?_⟩, hcore⟩
  · rw [hheight, h.nBestHeight, hcore.nHeight]
  · rw [hcore.path]
    exact hcache tip h c hc

theorem Steady.of_parts (hsame : ∀ p ∈ findParts, p.Same n n') : Steady n n' := by
  refine Steady.of_same (fun p hp => hsame p (by revert p; decide)) fun tip h c hc => ?_
  have hcache : n'.pblockindexFBBHLast = n.pblockindexFBBHLast := hsame .cache (by decide)
  exact h.cache c (hcache.symm.trans hc)

theorem Steady.of_writes (hw : Writes ps n n') (h : ∀ p ∈ findParts, p ∉ ps) : Steady n n' :=
  Steady.of_parts fun p hp => hw p (h p hp)

theorem Steady.frame {α : Type} {m : NodeM α} (hm : Frame (Writes ps) m) (h : ∀ p ∈ findParts, p ∉ ps) :
    Frame Steady m := Frame.mono (fun _ _ hw => Steady.of_writes hw h) hm

theorem getBlockSizes_cache {pindex : CBlockIndex} {k : Nat} {sizes : List Nat} {cache : Option UInt256}
    (h : getBlockSizes n pindex k = .ok (sizes, cache)) : cache = n.pblockindexFBBHLast ∨
      ∃ nHeight e, findBlockByHeight n nHeight = .ok e ∧ cache = some e.phashBlock := by
  unfold getBlockSizes at h
  split at h
  · cases h
    exact Or.inl rfl
  · split at h
    · obtain ⟨filled, -, h⟩ := Guards.bind_eq_ok.mp h
      cases h
      exact Or.inl rfl
    · obtain ⟨latest, -, h⟩ := Guards.bind_eq_ok.mp h
      split at h
      · cases h
        exact Or.inl rfl
      · obtain ⟨e, hfind, h⟩ := Guards.bind_eq_ok.mp h
        obtain ⟨oldest, -, h⟩ := Guards.bind_eq_ok.mp h
        refine Or.inr ⟨_, e, hfind, ?_⟩
        split at h
        · cases h
          rfl
        · cases h
          rfl

theorem computeBlockSizeOf_cache (pindex : CBlockIndex) (k : Nat) (n : Node) :
    (computeBlockSizeOf pindex k n).2.pblockindexFBBHLast = n.pblockindexFBBHLast ∨
      ∃ nHeight e, findBlockByHeight n nHeight = .ok e ∧
        (computeBlockSizeOf pindex k n).2.pblockindexFBBHLast = some e.phashBlock := by
  rw [computeBlockSizeOf_apply]
  split
  · exact Or.inl rfl
  · next sizes cache hsizes =>
    split
    · exact Or.inl rfl
    · exact getBlockSizes_cache hsizes

theorem setLimits_steady (pindex : CBlockIndex) : Frame Steady (CBlock.setLimits pindex) := by
  have hlimits : ∀ size : Nat, Frame (Writes [.limits]) (.update fun n : Node =>
      { n with maxBlockSize := size, maxBlockSigops := size / 50, maxTxSigops := size / 50 / 5 } : NodeM Unit) :=
    fun size => Frame.update fun n p hp => by cases p <;> simp [Part.Same] at hp ⊢
  refine Frame.bind Steady.trans (fun n => ?_) fun size => Steady.frame (hlimits size) (by decide)
  obtain ⟨sizes, sorted, cache, hstate⟩ := computeBlockSizeOf_state pindex numBlocksForMedianBlock n
  have hcache := computeBlockSizeOf_cache pindex numBlocksForMedianBlock n
  unfold computeBlockSize
  rw [hstate] at hcache ⊢
  refine Steady.of_same (fun p hp => ?_) fun tip h c hc => ?_
  · cases p <;> simp [Part.Same] at hp ⊢
  · rcases hcache with hold | ⟨nHeight, e, hfind, hnew⟩
    · exact h.cache c (hold.symm.trans hc)
    · obtain rfl := Option.some.inj (hnew.symm.trans hc)
      exact findBlockByHeight_mem h hfind

theorem connectBlock_steady (block : CBlock) (h : UInt256) (fJustCheck : Bool) :
    Frame Steady (block.connectBlock env h fJustCheck) := by
  unfold CBlock.connectBlock
  refine Frame.bind Steady.trans (Steady.frame (CBlock.checkBlock_writes env block _ _ _) (by decide)) fun _ =>
    Frame.bind Steady.trans (fun n => Steady.refl n) fun pindex =>
      Frame.bind Steady.trans (setLimits_steady pindex) fun _ =>
        Frame.bind Steady.trans (Frame.read Steady.refl) fun n => Frame.bind Steady.trans (Frame.lift Steady.refl _)
          fun st => Frame.bind Steady.trans (Frame.lift Steady.refl _) fun _ => Frame.bind Steady.trans
            (Steady.frame (CBlock.recordSupply_writes env h st) (by decide)) fun _ => ?_
  split
  · exact Frame.pure Steady.refl _
  · exact Steady.frame (CBlock.connectWrites_writes env block pindex st) (by decide)

theorem connectBranchStep_steady (vDelete : List CTransaction) (pindex : CBlockIndex) :
    Frame Steady (connectBranchStep env vDelete pindex) := by
  unfold connectBranchStep
  refine Frame.bind Steady.trans (Frame.read Steady.refl) fun n => ?_
  split
  · exact Frame.stop Steady.refl _
  · refine Frame.bind Steady.trans (onReject_frame Steady.trans (connectBlock_steady _ _ _) (Frame.stop Steady.refl _))
      fun _ => Frame.bind Steady.trans (Steady.frame (velocityCheck_writes env _) (by decide)) fun limited => ?_
    split
    · exact Frame.bind Steady.trans (Frame.lift Steady.refl _) fun hprev => Frame.bind Steady.trans
        (onReject_frame Steady.trans (Steady.frame (velocity_writes env _ _ _) (by decide)) (Frame.stop Steady.refl _))
        fun _ => Frame.pure Steady.refl _
    · exact Frame.pure Steady.refl _

theorem reorganize_steady {hNew : UInt256} {e : Stop} (hstop : reorganize env hNew n = (.error e, n')) : Steady n n' := by
  have hconnect : ∀ plan : ReorganizePlan, Frame Steady (plan.vConnect.foldlM (connectBranchStep env) []) :=
    fun plan => Frame.foldlM Steady.refl Steady.trans connectBranchStep_steady _ _
  have hdisconnect : ∀ plan : ReorganizePlan,
      Frame Steady (plan.vDisconnect.foldlM (disconnectBranchStep env plan.preorgmax) []) :=
    fun plan => Steady.frame (disconnectBranch_writes _ _) (by decide)
  rcases reorganize_stops hstop with hplan | ⟨plan, n₁, hplan, hbranch⟩
  · exact (Steady.frame (prepareReorganize_writes hNew) (by decide)).apply hplan
  · refine Steady.trans _ _ _ ((Steady.frame (prepareReorganize_writes hNew) (by decide)).apply hplan) ?_
    cases hbranch with
    | disconnecting stops => exact (hdisconnect plan).apply stops
    | connecting disconnected stops =>
      exact Steady.trans _ _ _ ((hdisconnect plan).apply disconnected) ((hconnect plan).apply stops)
    | committing disconnected connected stops =>
      refine Steady.trans _ _ _ ((hdisconnect plan).apply disconnected)
        (Steady.trans _ _ _ ((hconnect plan).apply connected) (Steady.trans _ _ _ ?_
          (Steady.of_writes (txnCommit_fails stops) (by decide))))
      exact Steady.of_writes (dbApply_writes (by simp [Overlay.Op.key]) _) (by decide)

theorem setBestChainInner_steady {h : UInt256} {e : Stop}
    (hstop : setBestChainInner env block h n = (.error e, n')) : Steady n n' ∨ ∃ what, e = .undefined what := by
  have hframe : Frame Steady
      (do block.connectBlock env h false; writeHashBestChain (block.getHash env) : NodeM Unit) :=
    Frame.bind Steady.trans (connectBlock_steady block h false) fun _ =>
      Steady.frame (writeHashBestChain_writes _) (by decide)
  rcases setBestChainInner_stops hstop with hconnect | ⟨n₁, hconnect, hcommit⟩ | hundefined
  · exact Or.inl ((onReject_frame Steady.trans hframe (Steady.frame (giveUp_writes h _) (by decide))).apply hconnect)
  · exact Or.inl ((hframe.apply hconnect).trans _ _ _ (Steady.of_writes (txnCommit_fails hcommit) (by decide)))
  · exact Or.inr hundefined

end Steady

section Moves

variable {env : Env} {block : CBlock} {n n' : Node} {tip h : UInt256}

theorem ChainLinked.of_writes {ps : List Part} (hl : ChainLinked n tip) (hw : Writes ps n n')
    (hps : ∀ p ∈ [Part.index, .pnext, .genesis], p ∉ ps) :
    ChainLinked n' tip ∧ SameCore n.mapBlockIndex n'.mapBlockIndex :=
  ⟨hl.of_same fun p hp => hw p (hps p hp), hw .index (hps _ (by simp))⟩

theorem ChainLinked.move (hl : ChainLinked n tip) (fork : UInt256)
    (hcore : SameCore n.mapBlockIndex n'.mapBlockIndex) (hgenesis : n'.pindexGenesisBlock = n.pindexGenesisBlock)
    (hold : fork ∈ n.mapBlockIndex.path tip) (hnew : fork ∈ n.mapBlockIndex.path h)
    (hknown : (n.mapBlockIndex.entries h).isSome) (hlinked : Linked n'.mapBlockIndex h) : ChainLinked n' h := by
  refine ⟨?_, hlinked, ?_⟩
  · obtain ⟨e, he⟩ := Option.isSome_iff_exists.mp hknown
    obtain ⟨e', he', -⟩ := hcore.symm.entry he
    exact Option.isSome_iff_exists.mpr ⟨e', he'⟩
  · obtain ⟨g, hg, hroot, hpointer⟩ := hl.genesis
    have hlow : n.mapBlockIndex.toParentTree.height g ≤ n.mapBlockIndex.toParentTree.height fork := by
      rw [n.mapBlockIndex.toParentTree.height_of_root hroot]
      exact Nat.zero_le _
    have hfork : g ∈ n.mapBlockIndex.path fork := ParentTree.mem_path_of_height_le hg hold hlow
    refine ⟨g, ?_, ?_, hgenesis.trans hpointer⟩
    · rw [hcore.path]
      exact ParentTree.mem_path_trans hfork hnew
    · rwa [hcore.pprev]

theorem reorganize_linked (hl : ChainLinked n tip) (hbest : n.pindexBest = some tip)
    (hret : reorganize env h n = (.ok (), n')) : ChainLinked n' h ∧ SameCore n.mapBlockIndex n'.mapBlockIndex := by
  unfold reorganize at hret
  obtain ⟨plan, n₁, hplan, hret⟩ := bind_returns.mp hret
  obtain ⟨hl₁, hcore₁⟩ := hl.of_writes ((prepareReorganize_writes h).apply hplan) (by decide)
  obtain ⟨⟨hBest, pindexBest, pindexNew, past, pfork, hplanned⟩, -⟩ := prepareReorganize_returns hplan
  obtain rfl : hBest = tip := Option.some.inj (hplanned.best.symm.trans hbest)
  obtain ⟨hdown, -, -⟩ := branchAbove_descends hplanned.bestEntry hplanned.fork.left
  obtain ⟨-, hup, -⟩ := branchAbove_descends hplanned.newEntry hplanned.fork.right
  rw [← hplanned.vDisconnect] at hdown
  rw [← hplanned.vConnect] at hup
  obtain ⟨vResurrect, n₂, hdisconnect, hret⟩ := bind_returns.mp hret
  obtain ⟨hl₂, hcore₂⟩ := hl₁.of_writes ((disconnectBranch_writes _ _).apply hdisconnect) (by decide)
  obtain ⟨vDelete, n₃, hconnect, hret⟩ := bind_returns.mp hret
  obtain ⟨hl₃, hcore₃⟩ := hl₂.of_writes ((connectBranch_writes _ _).apply hconnect) (by decide)
  obtain ⟨_, n₄, hwrite, hret⟩ := bind_returns.mp hret
  obtain ⟨hl₄, hcore₄⟩ := hl₃.of_writes ((writeHashBestChain_writes _).apply hwrite) (by decide)
  obtain ⟨_, n₅, hcommit, hmemory⟩ := bind_returns.mp hret
  obtain ⟨hl₅, hcore₅⟩ := hl₄.of_writes ((txnCommit_writes _).apply hcommit) (by decide)
  have hcore : SameCore n.mapBlockIndex n₅.mapBlockIndex :=
    (((hcore₁.trans hcore₂).trans hcore₃).trans hcore₄).trans hcore₅
  obtain ⟨mempool, walletSignals, heq⟩ := reorganizeMemory_eq env plan vResurrect vDelete n₅
  rw [update_apply, Prod.mk.injEq, heq] at hmemory
  obtain ⟨-, rfl⟩ := hmemory
  rw [← hcore.toParentTree] at hdown
  obtain ⟨hunlinked, hcore'⟩ := hl₅.linked.unlinkBranch hdown
  rw [← hcore.toParentTree, ← hcore'.toParentTree] at hup
  obtain ⟨hlinked, hcore''⟩ := hunlinked.linkBranch hup
  have hmoved : SameCore n₅.mapBlockIndex (linkBranch (unlinkBranch n₅.mapBlockIndex plan.vDisconnect) plan.vConnect) :=
    hcore'.trans hcore''
  refine ⟨hl₅.move pfork.phashBlock hmoved rfl ?_ ?_ ?_ hlinked, hcore.trans hmoved⟩
  · rw [hcore.path]
    exact hplanned.fork.left
  · rw [hcore.path]
    exact hplanned.fork.right
  · obtain ⟨e, he, -⟩ := hcore.symm.entry hplanned.newEntry
    exact Option.isSome_iff_exists.mpr ⟨e, he⟩

theorem setBestChainInner_linked (hl : ChainLinked n tip) (hp : n.mapBlockIndex.toParentTree.parent h = some tip)
    (hret : setBestChainInner env block h n = (.ok (), n')) :
    ChainLinked n' h ∧ SameCore n.mapBlockIndex n'.mapBlockIndex := by
  obtain ⟨n₁, n₂, pindexNew, hprev, hconnect, hcommit, hentry, hprev', rfl⟩ := setBestChainInner_returns hret
  obtain ⟨hl₁, hcore₁⟩ := hl.of_writes ((CBlock.connectBlock_writes env block h false).apply hconnect) (by decide)
  obtain ⟨hl₂, hcore₂⟩ := hl₁.of_writes (writeHashBestChain_writes (block.getHash env) n₁) (by decide)
  obtain ⟨hl₃, hcore₃⟩ := hl₂.of_writes ((txnCommit_writes _).apply hcommit) (by decide)
  have hcore := (hcore₁.trans hcore₂).trans hcore₃
  have hp₂ : n₂.mapBlockIndex.toParentTree.parent h = some tip := by
    rw [hcore.toParentTree]
    exact hp
  obtain rfl : hprev = tip := by
    rw [parent_of_entry hentry, hprev'] at hp₂
    exact Option.some.inj hp₂
  have hlinked : SameCore n₂.mapBlockIndex (n₂.mapBlockIndex.setPnext hprev (some h)) := sameCore_setPnext (some h)
  refine ⟨hl₃.move hprev hlinked rfl (ParentTree.mem_path_self _) ?_ ?_ (hl₃.linked.link hp₂), hcore.trans hlinked⟩
  · unfold BlockTree.path
    rw [ParentTree.path_of_parent hp₂]
    exact List.mem_cons_of_mem _ (ParentTree.mem_path_self hprev)
  · exact Option.isSome_iff_exists.mpr ⟨_, hentry⟩

/-- When the loop over the postponed blocks gives up none, they are all on the chain. By induction on them. -/
theorem connectSecondary_linked {secondary : List CBlockIndex} (hl : ChainLinked n tip)
    (hup : Climbs n.mapBlockIndex.toParentTree secondary tip h)
    (hret : connectSecondary env secondary n = (.ok [], n')) :
    ChainLinked n' h ∧ SameCore n.mapBlockIndex n'.mapBlockIndex := by
  induction secondary generalizing n tip with
  | nil =>
    obtain rfl : tip = h := hup
    unfold connectSecondary at hret
    rw [pure_apply, Prod.mk.injEq] at hret
    obtain ⟨-, rfl⟩ := hret
    exact ⟨hl, fun _ => rfl⟩
  | cons pindex rest ih =>
    obtain ⟨hp, -, hrest⟩ := hup
    obtain ⟨block, n₁, n₂, -, hbegin, hone, hret⟩ := connectSecondary_returns hret
    obtain ⟨hl₁, hcore₁⟩ := hl.of_writes (txnBegin_writes.apply hbegin) (by decide)
    rw [← hcore₁.toParentTree] at hp hrest
    obtain ⟨hl₂, hcore₂⟩ := setBestChainInner_linked hl₁ hp hone
    rw [← hcore₂.toParentTree] at hrest
    obtain ⟨hl₃, hcore₃⟩ := ih hl₂ hrest hret
    exact ⟨hl₃, (hcore₁.trans hcore₂).trans hcore₃⟩

theorem exists_intermediate (nBestTrust : UInt256) (he : t.entries h = some e) :
    ∃ pindex, (postponed nBestTrust (t.chain h)).2.head? = some pindex := by
  induction h using t.toParentTree.path_induction generalizing e with
  | root h hroot =>
    rw [parent_of_entry he] at hroot
    rw [chain_of_root he hroot]
    exact ⟨e, rfl⟩
  | child h p hparent ih =>
    have hpp : e.pprev = some p := by rw [← parent_of_entry he, hparent]
    obtain ⟨f, hf, -⟩ := t.prev_height he hpp
    obtain ⟨pindex, hhead⟩ := ih hf
    rw [chain_of_entry hf] at hhead
    rw [chain_of_pprev he hpp, chain_of_entry hf]
    unfold postponed
    by_cases htrust : f.nChainTrust > nBestTrust
    · rw [if_pos htrust]
      exact ⟨pindex, hhead⟩
    · rw [if_neg htrust]
      exact ⟨e, rfl⟩

theorem postponed_climbs {nBestTrust : UInt256} {pindex : CBlockIndex} (he : t.entries h = some e)
    (hhead : (postponed nBestTrust (t.chain h)).2.head? = some pindex) :
    Climbs t.toParentTree (postponed nBestTrust (t.chain h)).1.reverse pindex.phashBlock h := by
  induction h using t.toParentTree.path_induction generalizing e with
  | root h hroot =>
    rw [parent_of_entry he] at hroot
    rw [chain_of_root he hroot] at hhead ⊢
    unfold postponed at hhead ⊢
    obtain rfl := Option.some.inj hhead
    exact t.hash_eq he
  | child h p hparent ih =>
    have hpp : e.pprev = some p := by rw [← parent_of_entry he, hparent]
    obtain ⟨f, hf, -⟩ := t.prev_height he hpp
    have hchain := chain_of_entry hf
    rw [chain_of_pprev he hpp, hchain] at hhead ⊢
    rw [hchain] at ih
    unfold postponed at hhead ⊢
    by_cases htrust : f.nChainTrust > nBestTrust
    · rw [if_pos htrust] at hhead ⊢
      have hup := ih hf hhead
      rw [List.reverse_cons]
      have hhash := t.hash_eq he
      exact hup.append ⟨hhash ▸ hparent, hpp, hhash⟩
    · rw [if_neg htrust] at hhead ⊢
      obtain rfl := Option.some.inj hhead
      exact t.hash_eq he

end Moves

section SetBestChain

variable {env : Env} {block : CBlock} {n n' : Node} {tip hNew : UInt256} {e : CBlockIndex} {left : List CBlockIndex}
  {stop : Stop}

theorem setBestChainExtend_linked (h : TipLinked n tip) (hparent : n.mapBlockIndex.toParentTree.parent hNew = some tip)
    (hret : setBestChainExtend env block hNew n = (.ok left, n')) :
    ChainLinked n' hNew ∧ SameCore n.mapBlockIndex n'.mapBlockIndex := by
  unfold setBestChainExtend at hret
  obtain ⟨_, n₁, hinner, hpure⟩ := bind_returns.mp hret
  rw [pure_apply, Prod.mk.injEq] at hpure
  obtain ⟨-, rfl⟩ := hpure
  exact setBestChainInner_linked h.toChainLinked hparent (onReject_stop_returns.mp hinner)

theorem setBestChainExtend_steady (hstop : setBestChainExtend env block hNew n = (.error stop, n')) :
    Steady n n' ∨ ∃ what, stop = .undefined what := by
  unfold setBestChainExtend at hstop
  rcases bind_stops.mp hstop with hhandled | ⟨_, _, -, hpure⟩
  · rcases onReject_stops hhandled with hinner | ⟨d, msg, n₁, hinner, hhandler⟩
    · exact setBestChainInner_steady hinner
    · rw [stop_apply, Prod.mk.injEq] at hhandler
      obtain ⟨-, rfl⟩ := hhandler
      rcases setBestChainInner_steady hinner with hsteady | ⟨what, hundefined⟩
      · exact Or.inl hsteady
      · cases hundefined
  · cases hpure

theorem setBestChainReorganize_start (env : Env) (h : TipLinked n tip) (hentry : n.mapBlockIndex.entries hNew = some e) :
    ∃ hInter, pindexIntermediate n hNew = some hInter ∧
      Climbs n.mapBlockIndex.toParentTree (postponedBlocks n hNew) hInter hNew ∧
      setBestChainReorganize env hNew n = (do
        onReject (reorganize env hInter) (do
          txnAbort
          invalidChainFound hNew
          Exec.stop (.reject 0 "SetBestChain() : Reorganize failed"))
        connectSecondary env (postponedBlocks n hNew) : NodeM (List CBlockIndex)) n := by
  obtain ⟨pindexBest, hknown⟩ := Option.isSome_iff_exists.mp h.known
  have hbest : n.pindexBest.bind n.mapBlockIndex.entries = some pindexBest := by
    rw [h.pindexBest]
    exact hknown
  obtain ⟨pindex, hhead⟩ := exists_intermediate pindexBest.nChainTrust hentry
  have hblocks : postponedBlocks n hNew =
      (postponed pindexBest.nChainTrust (n.mapBlockIndex.chain hNew)).1.reverse := by
    unfold postponedBlocks
    rw [hbest]
  refine ⟨pindex.phashBlock, ?_, ?_, ?_⟩
  · unfold pindexIntermediate
    simp [hbest, hhead]
  · rw [hblocks]
    exact postponed_climbs hentry hhead
  · unfold setBestChainReorganize
    rw [hblocks, bind_of_ok (read_apply n), bind_of_ok (t := n) (a := pindexBest) (by simp [hbest, orUndefined])]
    exact bind_of_ok (by simp [hhead, orUndefined]) _

theorem connectSecondary_of_not_givesUp {hInter : UInt256} {n₁ : Node} (hconnects : ¬ GivesUp env hNew n)
    (hinter : pindexIntermediate n hNew = some hInter) (hreorganize : reorganize env hInter n = (.ok (), n₁)) :
    ∃ n₂, connectSecondary env (postponedBlocks n hNew) n₁ = (.ok [], n₂) := by
  by_contra hnone
  push Not at hnone
  exact hconnects ⟨hInter, n₁, hinter, hreorganize, hnone⟩

theorem setBestChainReorganize_linked (h : TipLinked n tip) (hentry : n.mapBlockIndex.entries hNew = some e)
    (hconnects : ¬ GivesUp env hNew n) (hret : setBestChainReorganize env hNew n = (.ok left, n')) :
    ChainLinked n' hNew ∧ SameCore n.mapBlockIndex n'.mapBlockIndex := by
  obtain ⟨hInter, hinter, hup, heq⟩ := setBestChainReorganize_start env h hentry
  rw [heq] at hret
  obtain ⟨_, n₁, hhandled, hsecondary⟩ := bind_returns.mp hret
  have hreorganize := onReject_giveUp_returns hhandled
  obtain ⟨n₂, hall⟩ := connectSecondary_of_not_givesUp hconnects hinter hreorganize
  rw [hall, Prod.mk.injEq] at hsecondary
  obtain ⟨-, rfl⟩ := hsecondary
  obtain ⟨hl₁, hcore₁⟩ := reorganize_linked h.toChainLinked h.pindexBest hreorganize
  rw [← hcore₁.toParentTree] at hup
  obtain ⟨hl₂, hcore₂⟩ := connectSecondary_linked hl₁ hup hall
  exact ⟨hl₂, hcore₁.trans hcore₂⟩

theorem setBestChainReorganize_steady (h : TipLinked n tip) (hentry : n.mapBlockIndex.entries hNew = some e)
    (hconnects : ¬ GivesUp env hNew n) (hstop : setBestChainReorganize env hNew n = (.error stop, n')) :
    Steady n n' := by
  obtain ⟨hInter, hinter, -, heq⟩ := setBestChainReorganize_start env h hentry
  rw [heq] at hstop
  rcases bind_stops.mp hstop with hhandled | ⟨_, n₁, hhandled, hsecondary⟩
  · rcases onReject_stops hhandled with hreorganize | ⟨d, msg, n₁, hreorganize, hhandler⟩
    · exact reorganize_steady hreorganize
    · have hgiveUp := (Steady.frame (giveUp_writes hNew _) (by decide)).apply hhandler
      exact (reorganize_steady hreorganize).trans _ _ _ hgiveUp
  · obtain ⟨n₂, hall⟩ := connectSecondary_of_not_givesUp hconnects hinter (onReject_giveUp_returns hhandled)
    rw [hall, Prod.mk.injEq] at hsecondary
    exact nomatch hsecondary.1

theorem setBestChainBranch_linked (h : TipLinked n tip) (hentry : n.mapBlockIndex.entries hNew = some e)
    (hprev : e.pprev = some block.hashPrevBlock) (hconnects : ¬ GivesUp env hNew n)
    (hret : setBestChainBranch env block hNew n = (.ok left, n')) :
    ChainLinked n' hNew ∧ SameCore n.mapBlockIndex n'.mapBlockIndex := by
  obtain ⟨g, -, -, hgenesis⟩ := h.genesis
  unfold setBestChainBranch at hret
  rw [bind_of_ok (read_apply n), if_neg (by simp [hgenesis])] at hret
  split at hret
  · next htip =>
    rw [h.hashBestChain] at htip
    refine setBestChainExtend_linked h ?_ hret
    rw [parent_of_entry hentry, hprev, htip]
  · exact setBestChainReorganize_linked h hentry hconnects hret

theorem setBestChainBranch_steady (h : TipLinked n tip) (hentry : n.mapBlockIndex.entries hNew = some e)
    (hconnects : ¬ GivesUp env hNew n) (hstop : setBestChainBranch env block hNew n = (.error stop, n')) :
    Steady n n' ∨ ∃ what, stop = .undefined what := by
  obtain ⟨g, -, -, hgenesis⟩ := h.genesis
  unfold setBestChainBranch at hstop
  rw [bind_of_ok (read_apply n), if_neg (by simp [hgenesis])] at hstop
  split at hstop
  · exact setBestChainExtend_steady hstop
  · exact Or.inl (setBestChainReorganize_steady h hentry hconnects hstop)

theorem setBestChain_tipLinked (h : TipLinked n tip)
    (hentry : n.mapBlockIndex.entries hNew = some e) (hprev : e.pprev = some block.hashPrevBlock)
    (hhash : block.getHash env = hNew) (hconnects : ¬ GivesUp env hNew (opened n))
    (hcall : setBestChain env block hNew n = (r, n')) (hsurvives : Survives r) : ∃ tip', TipLinked n' tip' := by
  have hbegin : Frame Steady txnBegin := Steady.frame txnBegin_writes (by decide)
  unfold setBestChain at hcall
  cases r with
  | error stop =>
    rcases bind_stops.mp hcall with hstop | ⟨_, n₁, hopen, hcall⟩
    · exact ⟨tip, (hbegin.apply hstop tip h).1⟩
    · have h₁ := (hbegin.apply hopen tip h).1
      obtain ⟨-, rfl⟩ := txnBegin_returns.mp hopen
      rcases bind_stops.mp hcall with hstop | ⟨left, n₂, -, hcall⟩
      · rcases setBestChainBranch_steady h₁ hentry hconnects hstop with hsteady | ⟨what, rfl⟩
        · exact ⟨tip, (hsteady tip h₁).1⟩
        · exact absurd hsurvives id
      · rcases bind_stops.mp hcall with hstop | ⟨_, _, -, hpure⟩
        · unfold setBest at hstop
          rcases bind_stops.mp hstop with hderef | ⟨_, _, -, hupdate⟩
          · rw [deref_apply, Prod.mk.injEq, orUndefined_eq_error] at hderef
            rw [← hderef.1.2] at hsurvives
            exact absurd hsurvives id
          · cases hupdate
        · cases hpure
  | ok left =>
    obtain ⟨_, n₁, hopen, hcall⟩ := bind_returns.mp hcall
    have h₁ := (hbegin.apply hopen tip h).1
    obtain ⟨-, rfl⟩ := txnBegin_returns.mp hopen
    obtain ⟨given, n₂, hbranch, hcall⟩ := bind_returns.mp hcall
    obtain ⟨hl₂, hcore₂⟩ := setBestChainBranch_linked h₁ hentry hprev hconnects hbranch
    obtain ⟨_, n₃, hset, hpure⟩ := bind_returns.mp hcall
    rw [pure_apply, Prod.mk.injEq] at hpure
    obtain ⟨-, rfl⟩ := hpure
    unfold setBest at hset
    obtain ⟨pindexNew, _, hderef, hupdate⟩ := bind_returns.mp hset
    obtain ⟨hnew, rfl⟩ := deref_returns.mp hderef
    rw [update_apply, Prod.mk.injEq] at hupdate
    obtain ⟨-, rfl⟩ := hupdate
    exact ⟨hNew, ⟨hl₂.known, hl₂.linked, hl₂.genesis⟩, rfl, hhash, congrArg _ (nHeight_of_entry hnew).symm,
      fun c hc => nomatch hc⟩

end SetBestChain

section AcceptBlock

variable {env : Env} {block : CBlock} {n n' : Node} {tip : UInt256}

theorem TipLinked.addBlock (h : TipLinked n tip) (nFile nBlockPos : UInt32) (hashProof : UInt256)
    (modifier : UInt64 × Bool) (hnew : n.mapBlockIndex.entries (block.getHash env) = none) : TipLinked { n with
      mapBlockIndex := n.mapBlockIndex.addBlock env nFile nBlockPos block hashProof modifier hnew } tip := by
  obtain ⟨etip, hetip⟩ := Option.isSome_iff_exists.mp h.known
  have hentries := addBlock_entries n nFile nBlockPos hashProof modifier hnew
  set t := n.mapBlockIndex.addBlock env nFile nBlockPos block hashProof modifier hnew with ht
  have hold : ∀ a ∈ n.mapBlockIndex.path tip, t.entries a = n.mapBlockIndex.entries a := by
    intro a ha
    obtain ⟨f, hf⟩ := entry_of_mem_path hetip ha
    rw [hentries, if_neg]
    rintro rfl
    rw [hnew] at hf
    cases hf
  have hparent : ∀ a ∈ n.mapBlockIndex.toParentTree.path tip,
      t.toParentTree.parent a = n.mapBlockIndex.toParentTree.parent a := by
    intro a ha
    show (t.entries a).bind CBlockIndex.pprev = (n.mapBlockIndex.entries a).bind CBlockIndex.pprev
    rw [hold a ha]
  have hpath : t.path tip = n.mapBlockIndex.path tip := ParentTree.path_congr hparent
  have htip := hold tip (ParentTree.mem_path_self tip)
  refine ⟨⟨?_, fun k e he => ?_, ?_⟩, h.pindexBest, h.hashBestChain, ?_, fun c hc => ?_⟩
  · show (t.entries tip).isSome
    rw [htip]
    exact h.known
  · have hnext : t.next tip k = n.mapBlockIndex.next tip k := ParentTree.next_congr hparent k
    have hek : t.entries k = some e := he
    show e.pnext = t.next tip k
    rw [hnext]
    rw [hentries] at hek
    split at hek
    · next hk =>
      cases hek
      have hoff : k ∉ n.mapBlockIndex.path tip := by
        intro hmem
        obtain ⟨f, hf⟩ := entry_of_mem_path hetip hmem
        rw [hk, hnew] at hf
        cases hf
      exact (ParentTree.next_eq_none_of_not_mem hoff).symm
    · exact h.linked k e hek
  · obtain ⟨g, hg, hroot, hgenesis⟩ := h.genesis
    refine ⟨g, ?_, ?_, hgenesis⟩
    · show g ∈ t.path tip
      rwa [hpath]
    · show (t.entries g).bind CBlockIndex.pprev = none
      rw [hold g hg]
      exact hroot
  · show n.nBestHeight = ((t.entries tip).map CBlockIndex.nHeight).getD 0
    rw [htip]
    exact h.nBestHeight
  · show c ∈ t.path tip
    rw [hpath]
    exact h.cache c hc

theorem activateBlock_tipLinked (h : TipLinked n tip)
    (hentry : n.mapBlockIndex.entries (block.getHash env) = some e) (hprev : e.pprev = some block.hashPrevBlock)
    (hconnects : ∀ n₂, storeBlockIndex env (block.getHash env) n = (.ok (), n₂) →
      ¬ GivesUp env (block.getHash env) (opened n₂))
    (hcall : activateBlock env block n = (r, n')) (hsurvives : Survives r) : ∃ tip', TipLinked n' tip' := by
  have hstore : Frame Steady (storeBlockIndex env (block.getHash env)) :=
    Steady.frame (storeBlockIndex_writes env _) (by decide)
  unfold activateBlock at hcall
  rcases hstored : storeBlockIndex env (block.getHash env) n with ⟨_ | _, n₁⟩
  · rw [bind_of_error hstored, Prod.mk.injEq] at hcall
    obtain ⟨-, rfl⟩ := hcall
    exact ⟨tip, (hstore.apply hstored tip h).1⟩
  · obtain ⟨h₁, hcore⟩ := hstore.apply hstored tip h
    obtain ⟨e₁, hentry₁, hcore₁⟩ := hcore.symm.entry hentry
    have hprev₁ : e₁.pprev = some block.hashPrevBlock :=
      (congrArg CBlockIndex.pprev hcore₁).symm.trans hprev
    rw [bind_of_ok hstored, bind_of_ok (deref_returns.mpr ⟨hentry₁, rfl⟩), bind_of_ok (read_apply n₁)] at hcall
    split at hcall
    · exact setBestChain_tipLinked h₁ hentry₁ hprev₁ rfl (hconnects n₁ hstored) hcall hsurvives
    · rw [pure_apply, Prod.mk.injEq] at hcall
      obtain ⟨-, rfl⟩ := hcall
      exact ⟨tip, h₁⟩

theorem afterEntered_tipLinked (h : TipLinked n tip)
    (hentry : n.mapBlockIndex.entries (block.getHash env) = some e) (hprev : e.pprev = some block.hashPrevBlock)
    (hconnects : ∀ n₂, storeBlockIndex env (block.getHash env) n = (.ok (), n₂) →
      ¬ GivesUp env (block.getHash env) (opened n₂)) (nHeight : Int)
    (hsurvives : Survives (block.afterEntered env nHeight n).1) :
    ∃ tip', TipLinked (block.afterEntered env nHeight n).2 tip' := by
  rcases hactivate : activateBlock env block n with ⟨r, m⟩
  have htx : withTxDB (activateBlock env block) n = (r, { m with activeBatch := none }) := by
    unfold withTxDB
    rw [hactivate]
  have hclosed : Steady m { m with activeBatch := none } :=
    Steady.of_parts fun p hp => by cases p <;> simp [findParts, Part.Same] at hp ⊢
  have hrolling : Frame Steady (do
      let fRollingCheckpoint ← rollingCheckpoints nHeight
      Exec.update fun n => { n with fRollingCheckpoint } : NodeM Unit) :=
    Frame.bind Steady.trans (Steady.frame (rollingCheckpoints_writes nHeight) (by decide)) fun f =>
      Steady.frame (Frame.update (setRolling_writes f)) (by decide)
  have hmoved : Survives r → ∃ tip', TipLinked { m with activeBatch := none } tip' := by
    intro hr
    obtain ⟨tip', hm⟩ := activateBlock_tipLinked h hentry hprev hconnects hactivate hr
    exact ⟨tip', (hclosed tip' hm).1⟩
  unfold CBlock.afterEntered at hsurvives ⊢
  cases r with
  | ok left =>
    obtain ⟨tip', hm⟩ := hmoved trivial
    have hreturns : onReject (withTxDB (activateBlock env block))
        (Exec.stop (.reject 0 "AcceptBlock() : AddToBlockIndex failed")) n = (.ok left, { m with activeBatch := none }) := by
      unfold onReject
      rw [htx]
    rw [bind_of_ok hreturns]
    exact ⟨tip', (hrolling _ tip' hm).1⟩
  | error stop =>
    have hstops : ∃ stop', onReject (withTxDB (activateBlock env block))
        (Exec.stop (.reject 0 "AcceptBlock() : AddToBlockIndex failed")) n =
          (.error stop', { m with activeBatch := none }) ∧
        (Survives (.error stop' : Except Stop Unit) → Survives (.error stop : Except Stop (List CBlockIndex))) := by
      unfold onReject
      rw [htx]
      cases stop with
      | reject d msg => exact ⟨_, rfl, id⟩
      | exception what => exact ⟨_, rfl, id⟩
      | undefined what => exact ⟨_, rfl, id⟩
    obtain ⟨stop', hstops, hsame⟩ := hstops
    rw [bind_of_error hstops] at hsurvives ⊢
    exact hmoved (hsame hsurvives)

theorem TipLinked.entered (h : TipLinked n tip) (hentered : Entered env block n n') : TipLinked n' tip ∧
      ∃ e, n'.mapBlockIndex.entries (block.getHash env) = some e ∧ e.pprev = some block.hashPrevBlock := by
  obtain ⟨prev, n₀, hashProof, pos, n₂, modifier, -, hprev, -, hvelocity, -, hdisk, -, hnew, rfl⟩ := hentered
  have hbefore : Steady n n₂ := Steady.trans _ _ _
    (Steady.of_writes ((CBlock.limitVelocity_toggleOnly env block _).apply hvelocity).writes (by decide))
    ((Steady.frame (CBlock.writeToDisk_writes block) (by decide)).apply hdisk)
  obtain ⟨h₂, hcore⟩ := hbefore tip h
  obtain ⟨prev₂, hprev₂, -⟩ := hcore.symm.entry hprev
  have hentry := addBlock_entries n₂ pos.1 pos.2 hashProof modifier hnew (block.getHash env)
  rw [if_pos rfl] at hentry
  have hparent : (newBlockIndex env (n₂.mapBlockIndex.entries block.hashPrevBlock) pos.1 pos.2 block hashProof
      modifier).pprev = some block.hashPrevBlock := by
    rw [hprev₂]
    exact congrArg some (n₂.mapBlockIndex.hash_eq hprev₂)
  exact ⟨h₂.addBlock pos.1 pos.2 hashProof modifier hnew, _, hentry, hparent⟩

theorem acceptBlock_tipLinked (h : TipLinked n tip) (hconnects : ConnectsPostponed env block n)
    (hsurvives : Survives (block.acceptBlock env n).1) : ∃ tip', TipLinked (block.acceptBlock env n).2 tip' := by
  rcases acceptBlock_cases env block n with ⟨n₁, hentered⟩ | ⟨stop, n', hcall, hw⟩
  · obtain ⟨nHeight, heq⟩ := acceptBlock_entered hentered
    obtain ⟨h₁, e, hentry, hprev⟩ := h.entered hentered
    rw [heq] at hsurvives ⊢
    exact afterEntered_tipLinked h₁ hentry hprev (fun n₃ hn₃ => hconnects n₁ n₃ hentered hn₃) nHeight hsurvives
  · rw [hcall]
    exact ⟨tip, (Steady.of_writes hw (by decide) tip h).1⟩

/-- Nothing is postponed for a block on top of the best block. -/
theorem connectsPostponed_of_extends (h : TipLinked n block.hashPrevBlock) : ConnectsPostponed env block n := by
  rintro n₁ n₂ hentered hstored ⟨hInter, m, -, -, hnever⟩
  obtain ⟨h₁, e, hentry, hprev⟩ := h.entered hentered
  obtain ⟨h₂, hcore⟩ := (Steady.frame (storeBlockIndex_writes env _) (by decide)).apply hstored _ h₁
  obtain ⟨e₂, hentry₂, hcore₂⟩ := hcore.symm.entry hentry
  have hprev₂ : e₂.pprev = some block.hashPrevBlock := (congrArg CBlockIndex.pprev hcore₂).symm.trans hprev
  obtain ⟨etip, hetip⟩ := Option.isSome_iff_exists.mp h₂.known
  have hbest : n₂.pindexBest.bind n₂.mapBlockIndex.entries = some etip := by
    rw [h₂.pindexBest]
    exact hetip
  have hnil : postponedBlocks (opened n₂) (block.getHash env) = [] := by
    unfold postponedBlocks opened
    dsimp only
    rw [hbest, chain_of_pprev hentry₂ hprev₂, chain_of_entry hetip]
    dsimp only
    rw [postponed, if_neg (lt_irrefl etip.nChainTrust)]
    rfl
  refine hnever m ?_
  rw [hnil]
  rfl

end AcceptBlock

theorem FindRun.tipLinked {env : Env} {n n' : Node} (hrun : FindRun env (ConnectsPostponed env) n n')
    (hstart : ∃ tip, TipLinked n tip) : ∃ tip, TipLinked n' tip := by
  induction hrun with
  | start => exact hstart
  | idle _ hsame ih =>
    obtain ⟨tip, h⟩ := ih
    exact ⟨tip, (Steady.of_parts hsame tip h).1⟩
  | find _ hfind ih =>
    obtain ⟨tip, h⟩ := ih
    exact ⟨tip, h.find hfind⟩
  | accept block _ hconnects hsurvives ih =>
    obtain ⟨tip, h⟩ := ih
    exact acceptBlock_tipLinked h hconnects hsurvives

/-- In every state of such a run, `FindBlockByHeight` returns the one block of the height on the active chain. -/
theorem findBlock_of_run {env : Env} {n n' : Node} (hstart : ∃ tip, TipLinked n tip)
    (hrun : FindRun env (ConnectsPostponed env) n n') {nHeight : Int} (hlow : 0 ≤ nHeight)
    (hhigh : nHeight ≤ n'.nBestHeight) : FindsBlock n' nHeight := by
  obtain ⟨tip, h⟩ := hrun.tipLinked hstart
  exact h.findsBlock hlow hhigh

/-- A block accepted on top of the best block, and then a search. -/
theorem FindRun.extend {env : Env} {n : Node} {pindex : CBlockIndex}
    (h : TipLinked n block.hashPrevBlock) (haccepted : (block.acceptBlock env n).1 = .ok ())
    (hfound : (findBlock nHeight (block.acceptBlock env n).2).1 = .ok pindex) :
    FindRun env (ConnectsPostponed env) n (findBlock nHeight (block.acceptBlock env n).2).2 := by
  have hsurvives : Survives (block.acceptBlock env n).1 := by
    rw [haccepted]
    trivial
  exact .find (.accept block .start (connectsPostponed_of_extends h) hsurvives) (Exec.eq_of_fst hfound)

namespace Sample

theorem tipLinked_chainNode {best : Nat} (hbest : best ≤ maxBest) : TipLinked (chainNode best) (blockHash best) := by
  have hself : blockHash best ∈ (chainNode best).mapBlockIndex.path (blockHash best) := ParentTree.mem_path_self _
  refine ⟨⟨?_, fun h e he => ?_, ?_⟩, rfl, rfl, ?_, fun c hc => nomatch hc⟩
  · rw [entry_chainNode hbest le_rfl]
    rfl
  · obtain ⟨k, hk, rfl, rfl⟩ := (entries_chainNode hbest).mp he
    rcases Nat.lt_or_ge k best with hlt | hge
    · have hparent : (chainNode best).mapBlockIndex.toParentTree.parent (blockHash (k + 1)) = some (blockHash k) := by
        rw [parent_of_entry (entry_chainNode hbest hlt)]
        rfl
      have hmem := (mem_path_chainNode hbest le_rfl (blockHash (k + 1))).mpr ⟨k + 1, hlt, rfl⟩
      have hnext : (chainNode best).mapBlockIndex.next (blockHash best) (blockHash k) = some (blockHash (k + 1)) :=
        ParentTree.next_eq_some_iff.mpr ⟨hmem, hparent⟩
      rw [hnext]
      exact if_pos hlt
    · obtain rfl : k = best := by omega
      have hnext : (chainNode k).mapBlockIndex.next (blockHash k) (blockHash k) = none := ParentTree.next_self _
      rw [hnext]
      exact if_neg (lt_irrefl k)
  · refine ⟨blockHash 0, (mem_path_chainNode hbest le_rfl _).mpr ⟨0, Nat.zero_le _, rfl⟩, ?_, rfl⟩
    unfold BlockTree.pprev
    rw [entry_chainNode hbest (Nat.zero_le _)]
    rfl
  · rw [nHeight_of_entry (entry_chainNode hbest le_rfl)]
    rfl

/-- A block extends the chain, and after one search another one finds it. -/
theorem chainNode_finds : FindsBlock (findBlock 3 ((chainBlock 13).acceptBlock env (chainNode 12)).2).2 13 := by
  have haccepted : ((chainBlock 13).acceptBlock env (chainNode 12)).1 = .ok () := by decide +kernel
  have hfound : (findBlock 3 ((chainBlock 13).acceptBlock env (chainNode 12)).2).1 = .ok (chainEntry 12 3) := by
    decide +kernel
  have hlinked : TipLinked (chainNode 12) (chainBlock 13).hashPrevBlock := tipLinked_chainNode (by decide)
  exact findBlock_of_run ⟨_, hlinked⟩ (FindRun.extend hlinked haccepted hfound) (by decide) (by decide +kernel)

def branchBlock (k : Nat) : CBlock :=
  if k = 502 then
    { forkBlock 498 k with
      vtx := [{ coinbaseTx k with nLockTime := UInt32.ofNat (k + 100000), vout := [⟨1000000 * coin, [0x51]⟩] }] }
  else forkBlock 498 k

def offer (n : Node) (block : UInt32 × Nat × CBlock) : Except Stop Unit × Node :=
  block.2.2.acceptBlock env { n with ext := { n.ext with appendPos := some (block.1, blockPos block.2.1) } }

/-- The side branch reaches height 503 before the main chain reaches height 500: until then no reorganisation is
    possible, as there is no rolling checkpoint. Its next block has three blocks of its branch postponed. -/
def offered : List (UInt32 × Nat × CBlock) :=
  [499, 500, 501, 502, 503].map (fun k => (2, k, branchBlock k)) ++ [(1, 500, chainBlock 500), (2, 504, branchBlock 504)]

def results : Node → List (UInt32 × Nat × CBlock) → List (Except Stop Unit)
  | _, [] => []
  | n, block :: rest => (offer n block).1 :: results (offer n block).2 rest

def afterOffers (n : Node) (blocks : List (UInt32 × Nat × CBlock)) : Node :=
  blocks.foldl (fun n block => (offer n block).2) n

theorem findRun_offers {n m : Node} {blocks : List (UInt32 × Nat × CBlock)}
    (hrun : FindRun env (fun _ _ => True) n m) (hsurvive : ∀ r ∈ results m blocks, Survives r) :
    FindRun env (fun _ _ => True) n (afterOffers m blocks) := by
  induction blocks generalizing m with
  | nil => exact hrun
  | cons block rest ih =>
    have hplaced : FindRun env (fun _ _ => True) n
        { m with ext := { m.ext with appendPos := some (block.1, blockPos block.2.1) } } :=
      .idle hrun fun p hp => by cases p <;> simp [findParts, Part.Same] at hp ⊢
    refine ih (.accept block.2.2 hplaced trivial (hsurvive _ List.mem_cons_self)) fun r hr => ?_
    exact hsurvive r (List.mem_cons_of_mem _ hr)

theorem results_offered : results (chainNode 499) offered =
    [.ok ()] ++ List.replicate 4 (.error (.reject 0 "AcceptBlock() : AddToBlockIndex failed")) ++ [.ok (), .ok ()] := by
  decide +kernel

/-- The block at height 502 is given up, so the block at height 501 has no successor. A search for height 501 leaves it
    in the cache, and the next search starts from it. -/
theorem offered_not_found : ¬ ∀ n n', (∃ tip, TipLinked n tip) → FindRun env (fun _ _ => True) n n' →
    ∀ nHeight, 0 ≤ nHeight → nHeight ≤ n'.nBestHeight → FindsBlock n' nHeight := by
  intro hall
  have hrun : FindRun env (fun _ _ => True) (chainNode 499) (afterOffers (chainNode 499) offered) := by
    refine findRun_offers .start fun r hr => ?_
    rw [results_offered] at hr
    simp only [List.cons_append, List.nil_append, List.replicate, List.mem_cons, List.not_mem_nil, or_false] at hr
    rcases hr with rfl | rfl | rfl | rfl | rfl | rfl | rfl <;> trivial
  have hcached : (findBlock 501 (afterOffers (chainNode 499) offered)).1.isOk = true := by decide +kernel
  have hmissed : (findBlock 502 (findBlock 501 (afterOffers (chainNode 499) offered)).2).1.isOk = false := by
    decide +kernel
  have hheight : (502 : Int) ≤ (findBlock 501 (afterOffers (chainNode 499) offered)).2.nBestHeight := by decide +kernel
  cases hfound : (findBlock 501 (afterOffers (chainNode 499) offered)).1 with
  | error stop =>
    rw [hfound] at hcached
    cases hcached
  | ok pindex =>
    obtain ⟨missed, n', hfind, -⟩ := hall _ _ ⟨_, tipLinked_chainNode (by decide)⟩
      (.find hrun (Exec.eq_of_fst hfound)) 502 (by decide) hheight
    rw [hfind] at hmissed
    cases hmissed

end Sample

end PupaCoin
