import PupaCoin.Chain.Proofs.AcceptBlockProofs
import PupaCoin.Chain.Proofs.SampleProofs

/-!
# The depth of a reorganisation

`Reorganize` bounds the difference of the heights of the two tips. What it disconnects is the part of the
old chain above the fork, which that difference says nothing about; the rolling checkpoint bounds it.
-/

/-!
## The fork that a reorganisation finds

The search walks down the two chains in turn; it ends at their highest common ancestor. The entries of
a chain above the fork are those of the path above it, so that the number of blocks to disconnect is
the difference of the heights.
-/

namespace PupaCoin

variable {a b : UInt256} {diffFactor k : Nat} {pfork : CBlockIndex}

namespace BlockTree

variable {t : BlockTree} {h p : UInt256} {e : CBlockIndex}

theorem chain_of_entry (he : t.entries h = some e) : t.chain h = e :: t.chain? e.pprev := by
  cases hp : e.pprev with
  | none => rw [chain_of_root he hp, chain?]
  | some p => rw [chain_of_pprev he hp, chain?]

theorem parent_of_entry (he : t.entries h = some e) : t.toParentTree.parent h = e.pprev := by
  change t.pprev h = e.pprev
  simp [pprev, he]

theorem chain_of_unknown (he : t.entries h = none) : t.chain h = [] := by
  have hhead := t.head?_chain h
  rw [he] at hhead
  cases hc : t.chain h with
  | nil => rfl
  | cons e rest => simp [hc] at hhead

theorem entry_of_mem_path (he : t.entries h = some e) (ha : a ∈ t.path h) : ∃ f, t.entries a = some f := by
  unfold path at ha
  induction h using t.toParentTree.path_induction generalizing e with
  | root h hroot =>
    rw [ParentTree.path_of_root hroot, List.mem_singleton] at ha
    exact ⟨e, ha ▸ he⟩
  | child h p hparent ih =>
    rw [ParentTree.path_of_parent hparent, List.mem_cons] at ha
    rcases ha with rfl | ha
    · exact ⟨e, he⟩
    · rw [parent_of_entry he] at hparent
      obtain ⟨f, hf, _⟩ := t.prev_height he hparent
      exact ih hf ha

theorem dropWhile_chain (H : Nat) (he : t.entries h = some e) :
    ((t.chain h).dropWhile fun pindex => decide (pindex.nHeight > H)) = [] ∨
      ∃ c f, t.entries c = some f ∧ c ∈ t.path h ∧ f.nHeight ≤ H ∧
        ((t.chain h).dropWhile fun pindex => decide (pindex.nHeight > H)) = t.chain c ∧
        ∀ d ∈ t.path h, t.nHeight d ≤ H → d ∈ t.path c := by
  induction h using t.toParentTree.path_induction generalizing e with
  | root h hroot =>
    rw [parent_of_entry he] at hroot
    rw [chain_of_root he hroot]
    by_cases hH : e.nHeight > H
    · exact Or.inl (by simp [hH])
    · refine Or.inr ⟨h, e, he, t.toParentTree.mem_path_self h, by omega, ?_, fun d hd _ => hd⟩
      rw [chain_of_root he hroot]
      simp [hH]
  | child h p hparent ih =>
    have hpp : e.pprev = some p := by rw [← parent_of_entry he, hparent]
    obtain ⟨f, hf, hheight⟩ := t.prev_height he hpp
    have hpath : t.path h = h :: t.path p := ParentTree.path_of_parent hparent
    rw [chain_of_pprev he hpp]
    by_cases hH : e.nHeight > H
    · rw [List.dropWhile_cons_of_pos (by simpa using hH)]
      rcases ih hf with hnil | ⟨c, g, hg, hc, hle, hdrop, hall⟩
      · exact Or.inl hnil
      · refine Or.inr ⟨c, g, hg, by rw [hpath]; exact List.mem_cons_of_mem h hc, hle, hdrop, fun d hd hdH => ?_⟩
        rw [hpath, List.mem_cons] at hd
        rcases hd with rfl | hd
        · rw [nHeight_of_entry he] at hdH
          omega
        · exact hall d hd hdH
    · refine Or.inr ⟨h, e, he, t.toParentTree.mem_path_self h, by omega, ?_, fun d hd _ => hd⟩
      rw [chain_of_pprev he hpp, List.dropWhile_cons_of_neg (by simpa using hH)]

theorem map_phashBlock_chain (he : t.entries h = some e) : (t.chain h).map CBlockIndex.phashBlock = t.path h := by
  induction h using t.toParentTree.path_induction generalizing e with
  | root h hroot =>
    have hroot' := hroot
    rw [parent_of_entry he] at hroot'
    rw [chain_of_root he hroot', path, ParentTree.path_of_root hroot, List.map_singleton, t.hash_eq he]
  | child h p hparent ih =>
    have hpp : e.pprev = some p := by rw [← parent_of_entry he, hparent]
    obtain ⟨f, hf, _⟩ := t.prev_height he hpp
    have hrest : (t.chain p).map CBlockIndex.phashBlock = t.toParentTree.path p := ih hf
    rw [chain_of_pprev he hpp, path, ParentTree.path_of_parent hparent, List.map_cons, hrest, t.hash_eq he]

theorem takeWhile_chain (he : t.entries h = some e) :
    ((t.chain h).takeWhile fun pindex => decide (pindex.phashBlock ≠ a)).map CBlockIndex.phashBlock
      = t.toParentTree.above a h := by
  induction h using t.toParentTree.path_induction generalizing e with
  | root h hroot =>
    have hhash := t.hash_eq he
    rw [parent_of_entry he] at hroot
    rw [chain_of_root he hroot, ParentTree.above, ParentTree.path_of_root (by rw [parent_of_entry he, hroot])]
    by_cases ha : h = a <;> simp [hhash, ha]
  | child h p hparent ih =>
    have hhash := t.hash_eq he
    have hpp : e.pprev = some p := by rw [← parent_of_entry he, hparent]
    obtain ⟨f, hf, _⟩ := t.prev_height he hpp
    rw [chain_of_pprev he hpp]
    by_cases ha : h = a
    · subst ha
      rw [ParentTree.above_self, List.takeWhile_cons_of_neg (by simp [hhash]), List.map_nil]
    · rw [ParentTree.above_of_parent hparent ha, List.takeWhile_cons_of_pos (by simp [hhash, ha]),
        List.map_cons, hhash, ih hf]

end BlockTree

theorem findFork_round {t : BlockTree} (h : findFork (t.chain a) (t.chain b) diffFactor = .ok (pfork, k)) :
    (t.entries a = some pfork ∧ a ∈ t.path b) ∨
      ∃ p c, t.toParentTree.parent a = some p ∧ c ∈ t.path b ∧ c ≠ a ∧ t.nHeight c ≤ t.nHeight a ∧
        (∀ d ∈ t.path b, t.nHeight d ≤ t.nHeight a → d ∈ t.path c) ∧
        findFork (t.chain p) (t.chain c) (diffFactor + 1) = .ok (pfork, k) := by
  cases hea : t.entries a with
  | none => simp [BlockTree.chain_of_unknown hea, findFork] at h
  | some ea =>
    cases heb : t.entries b with
    | none => simp [BlockTree.chain_of_unknown heb, BlockTree.chain_of_entry hea, findFork] at h
    | some eb =>
      have hdown := BlockTree.dropWhile_chain ea.nHeight heb
      rw [BlockTree.chain_of_entry hea, BlockTree.chain_of_entry heb] at h
      rw [BlockTree.chain_of_entry heb] at hdown
      simp only [findFork, t.hash_eq hea, t.hash_eq heb] at h
      split at h
      · rename_i hab
        cases h
        exact Or.inl ⟨rfl, hab ▸ t.toParentTree.mem_path_self a⟩
      · rcases hdown with hnil | ⟨c, ec, hec, hcb, hle, hdrop, hall⟩
        · simp [hnil] at h
        · rw [hdrop, BlockTree.chain_of_entry hec] at h
          simp only [t.hash_eq hec] at h
          split at h
          · rename_i hac
            cases h
            exact Or.inl ⟨rfl, hac ▸ hcb⟩
          · rename_i hac
            cases hpp : ea.pprev with
            | none => simp [hpp, BlockTree.chain?, findFork] at h
            | some p =>
              rw [hpp, BlockTree.chain?, ← BlockTree.chain_of_entry hec] at h
              refine Or.inr ⟨p, c, by rw [BlockTree.parent_of_entry hea, hpp], hcb, Ne.symm hac, ?_, ?_, h⟩
              · rw [BlockTree.nHeight_of_entry hec, BlockTree.nHeight_of_entry hea]
                exact hle
              · intro d hd hdH
                rw [BlockTree.nHeight_of_entry hea] at hdH
                exact hall d hd hdH

/-- **The fork.** The search ends at the highest common ancestor of the two blocks. By induction along
    the chain of the first; a round keeps the common ancestors of the two blocks it goes on with. -/
theorem findFork_isFork {t : BlockTree} (h : findFork (t.chain a) (t.chain b) diffFactor = .ok (pfork, k)) :
    t.entries pfork.phashBlock = some pfork ∧ t.toParentTree.IsFork a b pfork.phashBlock := by
  induction a using t.toParentTree.path_induction generalizing b diffFactor with
  | root a hroot =>
    rcases findFork_round h with ⟨hea, hab⟩ | ⟨p, _, hparent, _⟩
    · rw [t.hash_eq hea]
      exact ⟨hea, ParentTree.isFork_of_mem hab⟩
    · rw [hroot] at hparent
      cases hparent
  | child a p hparent ih =>
    rcases findFork_round h with ⟨hea, hab⟩ | ⟨q, c, hq, hcb, hca, hle, hall, hnext⟩
    · rw [t.hash_eq hea]
      exact ⟨hea, ParentTree.isFork_of_mem hab⟩
    · obtain rfl : p = q := Option.some.inj (hparent.symm.trans hq)
      obtain ⟨hentry, hfork⟩ := ih hnext
      have hpath : t.path a = a :: t.path p := ParentTree.path_of_parent hparent
      refine ⟨hentry, ⟨?_, ParentTree.mem_path_trans hfork.right hcb, fun d hda hdb => ?_⟩⟩
      · change _ ∈ t.path a
        rw [hpath]
        exact List.mem_cons_of_mem a hfork.left
      · have hdc : d ∈ t.path c := hall d hdb (ParentTree.height_le_of_mem hda)
        change d ∈ t.path a at hda
        rw [hpath, List.mem_cons] at hda
        rcases hda with rfl | hda
        · -- the first block itself is not above the second, so it would have been met as `c`
          have hheight : t.nHeight d ≤ t.nHeight c := ParentTree.height_le_of_mem hdc
          exact absurd (ParentTree.eq_of_mem_of_height (t.toParentTree.mem_path_self c) hdc
            (Nat.le_antisymm hle hheight)) hca
        · exact hfork.highest d hda hdc

end PupaCoin

namespace PupaCoin

variable {n n1 : Node} {hNew : UInt256} {plan : ReorganizePlan}

/-- What the preparation of a reorganisation to `hNew` found when it returned `plan`: the best block,
    the rolling checkpoint `past` on both chains, and the fork. -/
structure Planned (n : Node) (hNew : UInt256) (plan : ReorganizePlan) (hBest : UInt256)
    (pindexBest pindexNew past pfork : CBlockIndex) : Prop where
  best : n.pindexBest = some hBest
  bestEntry : n.mapBlockIndex.entries hBest = some pindexBest
  newEntry : n.mapBlockIndex.entries hNew = some pindexNew
  depth : checkReorganizeDepth n.ext pindexBest.nHeight pindexNew.nHeight = .ok plan.preorgmax
  checkpoint : (n.mapBlockIndex.chain hBest)[(blockTempCheckpointDepth + blockReorgThreshold).toNat]?
    = some past
  quality : past.phashBlock ∈ n.mapBlockIndex.path hNew
  forkEntry : n.mapBlockIndex.entries pfork.phashBlock = some pfork
  fork : n.mapBlockIndex.toParentTree.IsFork hBest hNew pfork.phashBlock
  vDisconnect : plan.vDisconnect = branchAbove pfork (n.mapBlockIndex.chain hBest)
  vConnect : plan.vConnect = (branchAbove pfork (n.mapBlockIndex.chain hNew)).reverse

theorem walkToCheckpoint_suffix (rollingBlock : UInt256) (rollingHeight : Int) (pheightlonger : Int)
    (chain : List CBlockIndex) : walkToCheckpoint rollingBlock rollingHeight pheightlonger chain <:+ chain := by
  fun_induction walkToCheckpoint rollingBlock rollingHeight pheightlonger chain with
  | case1 => exact List.suffix_refl _
  | case2 pheightlonger plongerindex pprev hgo ih => exact ih.trans (List.suffix_cons _ _)
  | case3 => exact List.suffix_refl _

theorem checkChainQuality_ok {nHeightNew : Int}
    (h : checkChainQuality n (n.mapBlockIndex.chain hNew) nHeightNew = .ok ()) :
    n.rollingBlock ∈ n.mapBlockIndex.path hNew := by
  unfold checkChainQuality at h
  obtain ⟨plongerindex, hhead, hreject⟩ := Guards.bind_eq_ok.mp h
  have hmem := (walkToCheckpoint_suffix n.rollingBlock n.rollingHeight nHeightNew _).subset
    (List.mem_of_mem_head? (orUndefined_eq_ok.mp hhead))
  have hhash : plongerindex.phashBlock = n.rollingBlock := by simpa [rejectIf] using hreject
  rw [← hhash]
  exact (BlockTree.mem_chain.mp hmem).1

theorem rollingCheckpoints_true {nHeight : Int} (h : rollingCheckpoints nHeight n = (.ok true, n1)) :
    ∃ past, (n.mapBlockIndex.chain? n.pindexBest)[(blockTempCheckpointDepth
        + blockReorgThreshold).toNat]? = some past ∧
      n1 = { n with rollingBlock := past.phashBlock, rollingHeight := past.nHeight } := by
  unfold rollingCheckpoints at h
  split at h
  · simp at h
  · simp only [Exec.bind_returns, Exec.read_apply, Exec.lift_apply, Exec.update_apply,
      Exec.pure_apply, Prod.mk.injEq, Except.ok.injEq] at h
    obtain ⟨m, _, ⟨rfl, rfl⟩, past, _, ⟨hpast, rfl⟩, _, _, ⟨-, rfl⟩, -, rfl⟩ := h
    rw [orUndefined_eq_ok, List.head?_drop] at hpast
    exact ⟨past, hpast, rfl⟩

theorem prepareReorganize_inv (h : prepareReorganize hNew n = (.ok plan, n1)) :
    ∃ hBest pindexBest pindexNew preorgmax fRollingCheckpoint t,
      n.pindexBest = some hBest ∧ n.mapBlockIndex.entries hBest = some pindexBest ∧
      n.mapBlockIndex.entries hNew = some pindexNew ∧
      checkReorganizeDepth n.ext pindexBest.nHeight pindexNew.nHeight = .ok preorgmax ∧
      rollingCheckpoints pindexBest.nHeight n = (.ok fRollingCheckpoint, t) ∧
      n1 = { t with fRollingCheckpoint } ∧ reorganizePlan n1 hNew preorgmax = .ok plan := by
  unfold prepareReorganize at h
  simp only [Exec.bind_returns, Exec.read_apply, Exec.lift_apply, Exec.update_apply, deref_apply,
    Prod.mk.injEq, Except.ok.injEq] at h
  obtain ⟨m, _, ⟨rfl, rfl⟩, pindexBest, _, ⟨hbest, rfl⟩, pindexNew, _, ⟨hnew, rfl⟩, preorgmax, _,
    ⟨hdepth, rfl⟩, fRolling, t, hrolling, _, _, ⟨-, rfl⟩, m, _, ⟨rfl, rfl⟩, hplan, rfl⟩ := h
  rw [orUndefined_eq_ok] at hbest hnew
  obtain ⟨hBest, hptr, hentry⟩ := Option.bind_eq_some_iff.mp hbest
  exact ⟨hBest, pindexBest, pindexNew, preorgmax, fRolling, t, hptr, hentry, hnew, hdepth, hrolling, rfl, hplan⟩

theorem prepareReorganize_returns (h : prepareReorganize hNew n = (.ok plan, n1)) :
    (∃ hBest pindexBest pindexNew past pfork, Planned n hNew plan hBest pindexBest pindexNew past pfork) ∧
    ∃ fRollingCheckpoint rollingBlock rollingHeight,
      n1 = { n with fRollingCheckpoint, rollingBlock, rollingHeight } := by
  obtain ⟨hBest, pindexBest, pindexNew, preorgmax, fRolling, t, hbestPtr, hbestEntry, hnew, hdepth, hrolling, rfl,
    hplan⟩ := prepareReorganize_inv h
  unfold reorganizePlan at hplan
  simp only [Guards.bind_eq_ok, rejectIf_eq_ok, Bool.not_eq_false', orUndefined_eq_ok] at hplan
  obtain ⟨e, he, _, hroll, _, hquality, ⟨pfork, k⟩, hfork, _, -, hres⟩ := hplan
  have hF : fRolling = true := hroll
  subst hF
  obtain ⟨past, hpast, rfl⟩ := rollingCheckpoints_true hrolling
  rw [hbestPtr, BlockTree.chain?] at hpast
  simp only [hbestPtr, BlockTree.chain?] at hfork hres
  obtain ⟨hforkEntry, hisFork⟩ := findFork_isFork hfork
  cases hres
  exact ⟨⟨hBest, pindexBest, pindexNew, past, pfork,
    { best := hbestPtr
      bestEntry := hbestEntry
      newEntry := hnew
      depth := hdepth
      checkpoint := hpast
      quality := checkChainQuality_ok hquality
      forkEntry := hforkEntry
      fork := hisFork
      vDisconnect := rfl
      vConnect := rfl }⟩, true, past.phashBlock, past.nHeight, rfl⟩

namespace Planned

variable {n : Node} {hNew hBest : UInt256} {plan : ReorganizePlan}
  {pindexBest pindexNew past pfork : CBlockIndex}

theorem disconnects (h : Planned n hNew plan hBest pindexBest pindexNew past pfork) :
    plan.vDisconnect.map CBlockIndex.phashBlock
      = n.mapBlockIndex.toParentTree.above pfork.phashBlock hBest := by
  rw [h.vDisconnect, branchAbove]
  exact BlockTree.takeWhile_chain h.bestEntry

theorem length_disconnects (h : Planned n hNew plan hBest pindexBest pindexNew past pfork) :
    plan.vDisconnect.length + n.mapBlockIndex.nHeight pfork.phashBlock
      = n.mapBlockIndex.nHeight hBest := by
  have hlen := ParentTree.length_above h.fork.left
  rw [← h.disconnects, List.length_map] at hlen
  exact hlen

/-- **The rolling checkpoint bounds the depth.** It is on both chains, so the fork is not below it. -/
theorem length_disconnects_le (h : Planned n hNew plan hBest pindexBest pindexNew past pfork) :
    plan.vDisconnect.length ≤ (blockTempCheckpointDepth + blockReorgThreshold).toNat := by
  have hget := congrArg (Option.map CBlockIndex.phashBlock) h.checkpoint
  rw [← List.getElem?_map, BlockTree.map_phashBlock_chain h.bestEntry, Option.map_some] at hget
  have hheight := ParentTree.height_of_getElem? hget
  have hpast : past.phashBlock ∈ n.mapBlockIndex.toParentTree.path hBest :=
    List.mem_of_getElem? hget
  have hle := ParentTree.height_le_of_mem (h.fork.highest _ hpast h.quality)
  have hlen := ParentTree.length_above h.fork.left
  rw [← h.disconnects, List.length_map] at hlen
  omega

end Planned

/-- **The depth of a reorganisation.** The blocks that a successful `Reorganize` disconnects are those of
    the best chain above the fork, at most as many as the rolling checkpoint lies deep. They are within
    the permitted depth exactly when the new branch grows out of the best chain at one of its last
    blocks. -/
theorem reorganize_depth_iff {env : Env} {n n' : Node} {hNew : UInt256} (h : reorganize env hNew n = (.ok (), n')) :
    ∃ plan n1 hBest fork, prepareReorganize hNew n = (.ok plan, n1) ∧ n.pindexBest = some hBest ∧
      n.mapBlockIndex.toParentTree.IsFork hBest hNew fork ∧
      plan.vDisconnect.map CBlockIndex.phashBlock = n.mapBlockIndex.toParentTree.above fork hBest ∧
      plan.vDisconnect.length + n.mapBlockIndex.nHeight fork = n.mapBlockIndex.nHeight hBest ∧
      plan.vDisconnect.length ≤ (blockTempCheckpointDepth + blockReorgThreshold).toNat ∧
      (plan.vDisconnect.length ≤ reorgLimit n.ext ↔ ∃ a ∈ (n.mapBlockIndex.path hBest).take (reorgLimit n.ext + 1),
          a ∈ n.mapBlockIndex.path hNew) := by
  unfold reorganize at h
  obtain ⟨plan, n1, hplan, -⟩ := Exec.bind_returns.mp h
  obtain ⟨⟨hBest, pindexBest, pindexNew, past, pfork, hp⟩, -⟩ := prepareReorganize_returns hplan
  refine ⟨plan, n1, hBest, pfork.phashBlock, hplan, hp.best, hp.fork, hp.disconnects,
    hp.length_disconnects, hp.length_disconnects_le, ?_⟩
  have hiff := hp.fork.length_above_le_iff (m := reorgLimit n.ext)
  rw [← hp.disconnects, List.length_map] at hiff
  exact hiff

namespace Sample

theorem forkNode_reorganizes : (reorganize env (forkHash 501) forkNode).1 = .ok () := by
  decide +kernel

theorem forkNode_depth_iff : ∃ plan n1 hBest fork, prepareReorganize (forkHash 501) forkNode = (.ok plan, n1) ∧
      forkNode.pindexBest = some hBest ∧
      forkNode.mapBlockIndex.toParentTree.IsFork hBest (forkHash 501) fork ∧
      plan.vDisconnect.map CBlockIndex.phashBlock
        = forkNode.mapBlockIndex.toParentTree.above fork hBest ∧
      plan.vDisconnect.length + forkNode.mapBlockIndex.nHeight fork
        = forkNode.mapBlockIndex.nHeight hBest ∧
      plan.vDisconnect.length ≤ (blockTempCheckpointDepth + blockReorgThreshold).toNat ∧
      (plan.vDisconnect.length ≤ reorgLimit forkNode.ext ↔
        ∃ a ∈ (forkNode.mapBlockIndex.path hBest).take (reorgLimit forkNode.ext + 1),
          a ∈ forkNode.mapBlockIndex.path (forkHash 501)) :=
  reorganize_depth_iff (Exec.eq_of_fst forkNode_reorganizes)

/-- The two tips are one block apart in height, so the depth check passes; two blocks are
    disconnected. -/
theorem forkNode_disconnects_two : (reorganize env (forkHash 501) forkNode).1 = .ok () ∧
    ∃ plan n1, prepareReorganize (forkHash 501) forkNode = (.ok plan, n1) ∧
      plan.vDisconnect.length = 2 ∧ reorgLimit forkNode.ext = 1 := by
  have hlength : (prepareReorganize (forkHash 501) forkNode).1.map (fun plan => plan.vDisconnect.length)
      = .ok 2 := by decide
  refine ⟨forkNode_reorganizes, ?_⟩
  rcases hplan : prepareReorganize (forkHash 501) forkNode with ⟨r, n1⟩
  rw [hplan] at hlength
  cases r with
  | error e => cases hlength
  | ok plan => exact ⟨plan, n1, rfl, by simpa [Except.map] using hlength, by decide⟩

end Sample

end PupaCoin
