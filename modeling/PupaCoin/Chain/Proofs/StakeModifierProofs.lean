import PupaCoin.Chain.Sample
import PupaCoin.Chain.StakeModifier

/-!
# Proofs: the stake modifier

The pairs that are sorted stand for blocks, so `SelectBlockFromCandidates` is a scan of blocks in the order of their
times, for the least selection hash.
-/

namespace PupaCoin.StakeModifier

variable {b a pindex : CBlockIndex} {st : RoundState}

theorem map_filterMap {α β : Type} {f : α → Option β} {g : β → α} {l : List α}
    (h : ∀ a ∈ l, ∃ b, f a = some b ∧ g b = a) : (l.filterMap f).map g = l := by
  induction l with
  | nil => rfl
  | cons a l ih =>
    obtain ⟨b, hb, hg⟩ := h a List.mem_cons_self
    rw [List.filterMap_cons_some hb, List.map_cons, hg, ih fun c hc => h c (List.mem_cons_of_mem a hc)]

section Candidates

variable {t : BlockTree} {h : UInt256} {start : Int}

def sortedBlocks (t : BlockTree) (start : Int) (pindexPrev : List CBlockIndex) : List CBlockIndex :=
  (sortedByTimestamp start pindexPrev).filterMap fun item => t.entries item.2

theorem entry_of_mem_candidates (hb : b ∈ candidates start (t.chain h)) : t.entries b.phashBlock = some b :=
  (BlockTree.mem_chain.mp ((List.takeWhile_prefix _).subset hb)).2

theorem sortedByTimestamp_perm (start : Int) (l : List CBlockIndex) :
    (sortedByTimestamp start l).Perm ((candidates start l).map candidateOf) :=
  (List.perm_insertionSort _ _).trans (List.reverse_perm _)

theorem sortedBlocks_perm : (sortedBlocks t start (t.chain h)).Perm (candidates start (t.chain h)) := by
  have hback : ((candidates start (t.chain h)).map candidateOf).filterMap (fun item => t.entries item.2) =
      candidates start (t.chain h) := by
    rw [List.filterMap_map]
    calc (candidates start (t.chain h)).filterMap ((fun item : Candidate => t.entries item.2) ∘ candidateOf)
        = (candidates start (t.chain h)).filterMap some :=
          List.filterMap_congr fun b hb => entry_of_mem_candidates hb
      _ = candidates start (t.chain h) := List.filterMap_some
  have hperm := (sortedByTimestamp_perm start (t.chain h)).filterMap fun item => t.entries item.2
  rwa [hback] at hperm

theorem map_sortedBlocks :
    (sortedBlocks t start (t.chain h)).map candidateOf = sortedByTimestamp start (t.chain h) := by
  refine map_filterMap fun item hitem => ?_
  obtain ⟨b, hb, rfl⟩ := List.mem_map.mp ((sortedByTimestamp_perm start (t.chain h)).subset hitem)
  exact ⟨b, entry_of_mem_candidates hb, rfl⟩

theorem entry_of_mem_sortedBlocks (hb : b ∈ sortedBlocks t start (t.chain h)) : t.entries b.phashBlock = some b :=
  entry_of_mem_candidates (sortedBlocks_perm.subset hb)

theorem pairwise_sortedBlocks :
    (sortedBlocks t start (t.chain h)).Pairwise fun a b => Candidate.Le (candidateOf a) (candidateOf b) := by
  have htotal : Std.Total Candidate.Le := ⟨fun a b => le_total (toLex a) (toLex b)⟩
  have htrans : IsTrans Candidate Candidate.Le := ⟨fun a b c (hab : toLex a ≤ toLex b) (hbc : toLex b ≤ toLex c) =>
    le_trans hab hbc⟩
  have hsorted : (sortedByTimestamp start (t.chain h)).Pairwise Candidate.Le := List.pairwise_insertionSort _ _
  rw [← map_sortedBlocks] at hsorted
  exact List.pairwise_map.mp hsorted

theorem time_le_of_le (hle : Candidate.Le (candidateOf a) (candidateOf b)) : a.getBlockTime ≤ b.getBlockTime := by
  rcases Prod.Lex.toLex_le_toLex.mp hle with hlt | ⟨heq, -⟩
  · exact hlt.le
  · exact heq.le

theorem nodup_sortedBlocks : (sortedBlocks t start (t.chain h)).Nodup := by
  refine sortedBlocks_perm.nodup_iff.mpr ?_
  refine List.Nodup.sublist (List.takeWhile_sublist _) ?_
  refine List.Nodup.filterMap (fun k l e hk hl => ?_) (t.toParentTree.nodup_path h)
  exact (t.hash_eq hk).symm.trans (t.hash_eq hl)

theorem eq_of_phashBlock_eq (ha : t.entries a.phashBlock = some a) (hb : t.entries b.phashBlock = some b)
    (heq : a.phashBlock = b.phashBlock) : a = b := by
  rw [heq] at ha
  exact Option.some.inj (ha.symm.trans hb)

end Candidates

section Round

variable {E : SelectionEnv} {m : UInt64} {sorted selected : List CBlockIndex} {start : Int}

/-- The source compares the hashes of blocks. -/
def isSelected (selected : List CBlockIndex) (b : CBlockIndex) : Bool :=
  selected.any fun a => a.phashBlock == b.phashBlock

theorem isSelected_eq (hentry : ∀ b ∈ sorted, E.mapBlockIndex.entries b.phashBlock = some b)
    (hsubset : ∀ b ∈ selected, b ∈ sorted) (hb : b ∈ sorted) : isSelected selected b = decide (b ∈ selected) := by
  rw [Bool.eq_iff_iff, decide_eq_true_iff, isSelected, List.any_eq_true]
  constructor
  · rintro ⟨a, ha, heq⟩
    have hab : a = b := eq_of_phashBlock_eq (hentry a (hsubset a ha)) (hentry b hb) (beq_iff_eq.mp heq)
    rwa [← hab]
  · intro hmem
    exact ⟨b, hmem, beq_self_eq_true _⟩

theorem selectLoop_eq_scan (hentry : ∀ b ∈ sorted, E.mapBlockIndex.entries b.phashBlock = some b) (stop : Int)
    (best : Option CBlockIndex) :
    selectLoop E m selected stop (sorted.map candidateOf) (best.map fun b => (hashSelection E m b, b)) =
      some ((scan (fun b => decide (b.getBlockTime > stop)) (isSelected selected) (hashSelection E m) sorted best).map
        fun b => (hashSelection E m b, b)) := by
  induction sorted generalizing best with
  | nil => rfl
  | cons a l ih =>
    have hl : ∀ b ∈ l, E.mapBlockIndex.entries b.phashBlock = some b := fun b hb => hentry b (List.mem_cons_of_mem a hb)
    have ha : E.mapBlockIndex.entries (candidateOf a).2 = some a := hentry a List.mem_cons_self
    rw [List.map_cons]
    unfold selectLoop scan
    rw [ha]
    simp only [Option.isSome_map]
    by_cases hlate : (best.isSome && decide (a.getBlockTime > stop)) = true
    · rw [if_pos hlate, if_pos hlate]
    · rw [if_neg hlate, if_neg hlate]
      by_cases htaken : isSelected selected a = true
      · rw [if_pos htaken, ← ih hl best]
        exact if_pos htaken
      · rw [if_neg htaken]
        refine (if_neg htaken).trans ?_
        cases best with
        | none => exact ih hl (some a)
        | some b =>
          have hbest := ih hl (if hashSelection E m a < hashSelection E m b then some a else some b)
          rw [← hbest]
          by_cases hless : hashSelection E m a < hashSelection E m b
          · simp [hless]
          · simp [hless]

theorem selectBlockFromCandidates_eq_choice (hentry : ∀ b ∈ sorted, E.mapBlockIndex.entries b.phashBlock = some b)
    (htimes : sorted.Pairwise fun a b => a.getBlockTime ≤ b.getBlockTime) (hsubset : ∀ b ∈ selected, b ∈ sorted) :
    selectBlockFromCandidates E m (sorted.map candidateOf) selected (stopTime start selected.length) =
      choice E m sorted start selected := by
  have hlate : sorted.Pairwise fun a b => decide (a.getBlockTime > stopTime start selected.length) = true →
      decide (b.getBlockTime > stopTime start selected.length) = true := by
    refine htimes.imp fun {a b} hle ha => ?_
    exact decide_eq_true ((of_decide_eq_true ha).trans_le hle)
  have hloop : selectLoop E m selected (stopTime start selected.length) (sorted.map candidateOf) none = _ :=
    selectLoop_eq_scan hentry (stopTime start selected.length) none
  have hleft : (sorted.filter fun b => !isSelected selected b) = sorted.filter fun b => decide (b ∉ selected) := by
    refine List.filter_congr fun b hb => ?_
    rw [isSelected_eq hentry hsubset hb, decide_not]
  rw [selectBlockFromCandidates]
  rw [hloop, scan_eq_argmin hlate, hleft]
  exact Option.map_map _ _ _ |>.trans Option.map_id'

theorem exists_choice (hnodup : sorted.Nodup) (hlt : selected.length < sorted.length) :
    ∃ b ∈ sorted, b ∉ selected ∧ choice E m sorted start selected = some b := by
  obtain ⟨a, ha, hleft⟩ := Drawn.exists_left hnodup hlt
  have hmem : a ∈ sorted.filter fun b => decide (b ∉ selected) := List.mem_filter.mpr ⟨ha, decide_eq_true hleft⟩
  have hsome : ∃ b ∈ sorted.filter fun b => decide (b ∉ selected), choice E m sorted start selected = some b :=
    exists_argmin_eligible hmem
  obtain ⟨b, hb, hchoice⟩ := hsome
  rw [List.mem_filter, decide_eq_true_eq] at hb
  exact ⟨b, hb.1, hb.2, hchoice⟩

theorem entropyBits_concat (selected : List CBlockIndex) (b : CBlockIndex) : entropyBits (selected ++ [b]) =
      entropyBits selected ||| (b.getStakeEntropyBit.toUInt64 <<< UInt64.ofNat selected.length) := by
  unfold entropyBits
  rw [List.zipIdx_append, List.map_append, List.foldl_append]
  simp

theorem stopTime_succ (start : Int) (r : Nat) :
    start + ((List.range (r + 1)).map getStakeModifierSelectionIntervalSection).sum =
      start + ((List.range r).map getStakeModifierSelectionIntervalSection).sum +
        getStakeModifierSelectionIntervalSection r := by
  rw [List.range_succ, List.map_append, List.sum_append]
  simp [add_assoc]

end Round

section Rounds

variable {E : SelectionEnv} {m : UInt64} {sorted : List CBlockIndex} {start : Int}

def stateOf (start : Int) (selected : List CBlockIndex) : RoundState where
  nSelectionIntervalStop :=
    start + ((List.range selected.length).map getStakeModifierSelectionIntervalSection).sum
  mapSelectedBlocks := selected
  nStakeModifierNew := entropyBits selected

theorem stateOf_concat (selected : List CBlockIndex) (b : CBlockIndex) : stateOf start (selected ++ [b]) =
      { nSelectionIntervalStop := stopTime start selected.length
        mapSelectedBlocks := selected ++ [b]
        nStakeModifierNew :=
          entropyBits selected ||| (b.getStakeEntropyBit.toUInt64 <<< UInt64.ofNat selected.length) } := by
  have hlength : (selected ++ [b]).length = selected.length + 1 := by simp
  rw [stateOf, hlength, entropyBits_concat]
  rfl

theorem selectionRound_drawn (hentry : ∀ b ∈ sorted, E.mapBlockIndex.entries b.phashBlock = some b)
    (htimes : sorted.Pairwise fun a b => a.getBlockTime ≤ b.getBlockTime) (hnodup : sorted.Nodup)
    {selected : List CBlockIndex} (hdrawn : Drawn (choice E m sorted start) sorted selected)
    (hlt : selected.length < sorted.length) :
    ∃ b, selectionRound E m (sorted.map candidateOf) (stateOf start selected) selected.length =
        some (stateOf start (selected ++ [b])) ∧
      Drawn (choice E m sorted start) sorted (selected ++ [b]) := by
  obtain ⟨b, hb, hnew, hchoice⟩ : ∃ b ∈ sorted, b ∉ selected ∧ choice E m sorted start selected = some b :=
    exists_choice hnodup hlt
  refine ⟨b, ?_, hdrawn.snoc hchoice hb hnew⟩
  have hselect : selectBlockFromCandidates E m (sorted.map candidateOf) selected (stopTime start selected.length) =
      some b := (selectBlockFromCandidates_eq_choice hentry htimes hdrawn.subset).trans hchoice
  have hstop : stopTime start selected.length = (stateOf start selected).nSelectionIntervalStop +
      getStakeModifierSelectionIntervalSection selected.length := stopTime_succ start selected.length
  unfold selectionRound
  rw [← hstop, stateOf_concat]
  exact congrArg (Option.bind · _) hselect

theorem foldlM_selectionRound (m : UInt64) (start : Int)
    (hentry : ∀ b ∈ sorted, E.mapBlockIndex.entries b.phashBlock = some b)
    (htimes : sorted.Pairwise fun a b => a.getBlockTime ≤ b.getBlockTime) (hnodup : sorted.Nodup) (k : Nat)
    (hk : k ≤ sorted.length) :
    ∃ selected, (List.range k).foldlM (selectionRound E m (sorted.map candidateOf)) (stateOf start []) =
        some (stateOf start selected) ∧
      selected.length = k ∧ Drawn (choice E m sorted start) sorted selected := by
  induction k with
  | zero => exact ⟨[], rfl, rfl, Drawn.nil⟩
  | succ k ih =>
    obtain ⟨selected, hrun, hlength, hdrawn⟩ := ih (by omega)
    obtain ⟨b, hround, hnext⟩ := selectionRound_drawn hentry htimes hnodup hdrawn (by omega)
    refine ⟨selected ++ [b], ?_, by simp [hlength], hnext⟩
    rw [hlength] at hround
    rw [List.range_succ, List.foldlM_append, hrun]
    show List.foldlM (selectionRound E m (sorted.map candidateOf)) (stateOf start selected) [k] = _
    rw [List.foldlM_cons, hround]
    rfl

end Rounds

variable (E : SelectionEnv) (m : UInt64) (start : Int) (h : UInt256)

theorem selectBlocks_selection :
    ∃ st, selectBlocks E m start (sortedByTimestamp start (E.mapBlockIndex.chain h)) = some st ∧
      Selection E m start (E.mapBlockIndex.chain h) st := by
  have hperm : (sortedBlocks E.mapBlockIndex start (E.mapBlockIndex.chain h)).Perm
      (candidates start (E.mapBlockIndex.chain h)) := sortedBlocks_perm
  have horder : (sortedBlocks E.mapBlockIndex start (E.mapBlockIndex.chain h)).Pairwise fun a b =>
      Candidate.Le (candidateOf a) (candidateOf b) := pairwise_sortedBlocks
  have hcount := hperm.length_eq
  have hentry : ∀ b ∈ sortedBlocks E.mapBlockIndex start (E.mapBlockIndex.chain h),
      E.mapBlockIndex.entries b.phashBlock = some b := fun b hb => entry_of_mem_sortedBlocks hb
  have htimes := horder.imp fun {a b} hle => time_le_of_le hle
  obtain ⟨selected, hrun, hlength, hdrawn⟩ := foldlM_selectionRound m start hentry htimes
    nodup_sortedBlocks (min 64 (sortedBlocks E.mapBlockIndex start (E.mapBlockIndex.chain h)).length)
    (Nat.min_le_right _ _)
  refine ⟨stateOf start selected, ?_, ?_⟩
  · unfold selectBlocks
    rw [← map_sortedBlocks, List.length_map]
    have hinit : stateOf start [] = { nSelectionIntervalStop := start, mapSelectedBlocks := [], nStakeModifierNew := 0 } := by
      simp [stateOf, entropyBits]
    rw [← hinit]
    exact hrun
  · refine ⟨hlength.trans (by rw [hcount]), ?_, fun b hb => hperm.subset (hdrawn.subset b hb), ?_, rfl, rfl⟩
    · refine hdrawn.nodup.map_on fun a ha b hb heq => ?_
      exact eq_of_phashBlock_eq (hentry a (hdrawn.subset a ha)) (hentry b (hdrawn.subset b hb)) heq
    · exact ⟨_, hperm, horder, hdrawn.picked⟩

theorem Selection.stop_of_full {l : List CBlockIndex} (hst : Selection E m (selectionIntervalStart pindex) l st)
    (hfull : st.mapSelectedBlocks.length = 64) :
    st.nSelectionIntervalStop = pindex.getBlockTime / nModifierInterval * nModifierInterval := by
  have hstop := hst.stop
  rw [hfull] at hstop
  exact hstop.trans (Int.sub_add_cancel _ _)

section Steps

variable {pindex : CBlockIndex} {rest : List CBlockIndex}

theorem computeNextStakeModifier_of_none (hlast : getLastStakeModifier (pindex :: rest) = none) :
    computeNextStakeModifier E (pindex :: rest) = none := by
  simp [computeNextStakeModifier, hlast]

variable {nModifierTime : Int} (hlast : getLastStakeModifier (pindex :: rest) = some (m, nModifierTime))

include hlast

theorem computeNextStakeModifier_of_recent
    (hrecent : nModifierTime / nModifierInterval ≥ pindex.getBlockTime / nModifierInterval) :
    computeNextStakeModifier E (pindex :: rest) = some (m, false) := by
  unfold computeNextStakeModifier
  simp [hlast, if_pos hrecent]

theorem computeNextStakeModifier_of_old
    (hold : nModifierTime / nModifierInterval < pindex.getBlockTime / nModifierInterval)
    (hst : selectBlocks E m (selectionIntervalStart pindex)
      (sortedByTimestamp (selectionIntervalStart pindex) (pindex :: rest)) = some st) :
    computeNextStakeModifier E (pindex :: rest) = some (st.nStakeModifierNew, true) := by
  unfold computeNextStakeModifier
  simp [hlast, not_le.mpr hold, hst]

end Steps

/-- The computation fails only where no block of the chain has generated a modifier. Where the last one is old enough, it
    generates the modifier of a selection. -/
theorem computeNextStakeModifier_selection {pindex : CBlockIndex} (hknown : E.mapBlockIndex.entries h = some pindex) :
    (computeNextStakeModifier E (E.mapBlockIndex.chain h) = none ↔
      getLastStakeModifier (E.mapBlockIndex.chain h) = none) ∧
    ∀ nStakeModifier nModifierTime,
      getLastStakeModifier (E.mapBlockIndex.chain h) = some (nStakeModifier, nModifierTime) →
      nModifierTime / nModifierInterval < pindex.getBlockTime / nModifierInterval →
      ∃ st, computeNextStakeModifier E (E.mapBlockIndex.chain h) = some (st.nStakeModifierNew, true) ∧
        Selection E nStakeModifier (selectionIntervalStart pindex) (E.mapBlockIndex.chain h) st ∧
        (st.mapSelectedBlocks.length = 64 →
          st.nSelectionIntervalStop = pindex.getBlockTime / nModifierInterval * nModifierInterval) := by
  have hhead := BlockTree.head?_chain E.mapBlockIndex h
  rw [hknown] at hhead
  obtain ⟨rest, hchain⟩ : ∃ rest, E.mapBlockIndex.chain h = pindex :: rest := List.head?_eq_some_iff.mp hhead
  have hselect := fun m => selectBlocks_selection E m (selectionIntervalStart pindex) h
  rw [hchain] at hselect ⊢
  constructor
  · cases hlast : getLastStakeModifier (pindex :: rest) with
    | none => exact iff_of_true (computeNextStakeModifier_of_none E hlast) rfl
    | some last =>
      refine iff_of_false (fun hnone => ?_) (fun hnone => nomatch hnone)
      obtain ⟨nStakeModifier, nModifierTime⟩ := last
      rcases le_or_gt (pindex.getBlockTime / nModifierInterval) (nModifierTime / nModifierInterval) with hrecent | hold
      · exact nomatch hnone.symm.trans (computeNextStakeModifier_of_recent E nStakeModifier hlast hrecent)
      · obtain ⟨st, hst, -⟩ := hselect nStakeModifier
        exact nomatch hnone.symm.trans (computeNextStakeModifier_of_old E nStakeModifier hlast hold hst)
  · intro nStakeModifier nModifierTime hlast hold
    obtain ⟨st, hst, hselection⟩ := hselect nStakeModifier
    refine ⟨st, ?_, hselection, fun hfull => Selection.stop_of_full E nStakeModifier hselection hfull⟩
    exact computeNextStakeModifier_of_old E nStakeModifier hlast hold hst

/-- Two blocks ten minutes apart, of which the genesis block has generated a modifier. -/
def sampleEnv : SelectionEnv where
  mapBlockIndex := (Sample.chainTree 1).modify (Sample.blockHash 0)
    (fun e => { e with nFlags := e.nFlags ||| CBlockIndex.blockStakeModifier }) (fun _ => rfl) (fun _ => rfl) (fun _ => rfl)
  hashEcho512 hashProof _ := hashProof

theorem computeNextStakeModifier_selection_sample :
    ∃ st, computeNextStakeModifier sampleEnv (sampleEnv.mapBlockIndex.chain (Sample.blockHash 1)) =
        some (st.nStakeModifierNew, true) ∧
      Selection sampleEnv 0 (selectionIntervalStart (Sample.chainEntry 1 1))
        (sampleEnv.mapBlockIndex.chain (Sample.blockHash 1)) st ∧
      (st.mapSelectedBlocks.length = 64 → st.nSelectionIntervalStop =
        (Sample.chainEntry 1 1).getBlockTime / nModifierInterval * nModifierInterval) :=
  (computeNextStakeModifier_selection sampleEnv (Sample.blockHash 1) (by decide)).2 0 1600000000
    (by decide) (by decide)

end PupaCoin.StakeModifier
