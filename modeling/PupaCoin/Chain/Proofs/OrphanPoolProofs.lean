import PupaCoin.Chain.Proofs.VerdictProofs

/-!
# The orphan pool over runs of `ProcessBlock`

Three changes make up everything that happens to the pool: orphans are removed from all three containers
(`PoolFits.remove`, for pruning and for the loop over `vWorkQueue`), one is added, or nothing happens.
-/

namespace PupaCoin

variable {block : CBlock} {gone : List (UInt256 × COrphanBlock)} {rand : Nat} {settings : IntakeSettings}
  {r : Except Stop Unit} {offers offers' : List (CBlock × Bool)} {queue queue' : List UInt256} {t : Intake}
  {pfrom : Option NodeId} {P : Intake → Prop}

section Pool

variable {env : Env} {s s' : Intake}

theorem PoolSame.fits (h : PoolSame s s') (hs : PoolFits env s) : PoolFits env s' := by
  obtain ⟨hmap, hbyPrev, hset⟩ := h
  refine ⟨?_, ?_, ?_, ?_⟩
  · rw [hbyPrev]
    exact hs.made
  · rw [hbyPrev, hmap]
    exact hs.listed
  · rw [hbyPrev]
    exact hs.once
  · rw [hbyPrev, hset]
    exact hs.stakes

theorem PoolSame.stakesSeen (h : PoolSame s s') (hs : StakesSeen s) : StakesSeen s' := by
  obtain ⟨-, hbyPrev, hset⟩ := h
  unfold StakesSeen
  rw [hbyPrev, hset]
  exact hs

theorem PoolSame.distinct (h : PoolSame s s') (hs : DistinctStakes s) : DistinctStakes s' := by
  unfold DistinctStakes
  rw [h.2.1]
  exact hs

theorem getProofOfStake_ne_null (h : block.isProofOfStake = true) : getProofOfStake block ≠ (.null, 0) := by
  unfold getProofOfStake
  rw [if_pos h]
  unfold CBlock.isProofOfStake at h
  rcases hvtx : block.vtx with _ | ⟨coinbase, _ | ⟨coinstake, rest⟩⟩
  · simp [hvtx] at h
  · simp [hvtx] at h
  · rw [hvtx] at h
    simp only [CTransaction.isCoinStake] at h
    rcases hvin : coinstake.vin with _ | ⟨txin, vin⟩
    · simp [hvin] at h
    · rcases hvout : coinstake.vout with _ | ⟨out0, _ | ⟨out1, vout⟩⟩
      · simp [hvin, hvout] at h
      · simp [hvin, hvout] at h
      · simp only [hvin, hvout, Bool.and_eq_true, Bool.not_eq_true', COutPoint.isNull, beq_eq_false_iff_ne] at h
        intro hnull
        simp only [List.getElem?_cons_succ, List.getElem?_cons_zero, hvin, List.head?_cons,
          Option.map_some, Option.getD_some, Prod.mk.injEq] at hnull
        exact h.1 hnull.1

/-- `s'` is `s` without some orphans: they are gone from all three containers. -/
structure Removes (s : Intake) (gone : List (UInt256 × COrphanBlock)) (s' : Intake) : Prop where
  sub : ∀ entry ∈ gone, entry ∈ s.mapOrphanBlocksByPrev
  byPrev : s'.mapOrphanBlocksByPrev.Sublist s.mapOrphanBlocksByPrev
  mem : ∀ entry, entry ∈ s'.mapOrphanBlocksByPrev ↔ entry ∈ s.mapOrphanBlocksByPrev ∧ entry ∉ gone
  map : ∀ hash, s'.mapOrphanBlocks hash
    = if hash ∈ gone.map (fun entry => entry.2.hashBlock) then none else s.mapOrphanBlocks hash
  set : ∀ stake, stake ∈ s'.setStakeSeenOrphan ↔ stake ∈ s.setStakeSeenOrphan
    ∧ stake ∉ gone.map fun entry => entry.2.stake

theorem PoolFits.entry_unique (hs : PoolFits env s) {a b : UInt256 × COrphanBlock} (ha : a ∈ s.mapOrphanBlocksByPrev)
    (hb : b ∈ s.mapOrphanBlocksByPrev)
    (h : a.2.hashBlock = b.2.hashBlock) : a = b := List.inj_on_of_nodup_map hs.once ha hb h

theorem Removes.fits (h : Removes s gone s') (hs : PoolFits env s) : PoolFits env s' where
  made := fun entry he => hs.made entry (h.byPrev.subset he)
  once := hs.once.sublist (h.byPrev.map _)
  listed := by
    intro hash o
    rw [h.map, h.mem]
    constructor
    · intro ho
      split at ho
      · cases ho
      · rename_i hkeep
        obtain ⟨hmem, rfl⟩ := (hs.listed hash o).mp ho
        exact ⟨⟨hmem, fun hgone => hkeep (List.mem_map_of_mem hgone)⟩, rfl⟩
    · rintro ⟨⟨hmem, hkeep⟩, rfl⟩
      rw [if_neg]
      · exact (hs.listed _ o).mpr ⟨hmem, rfl⟩
      · intro hgone
        obtain ⟨entry, hentry, heq⟩ := List.mem_map.mp hgone
        rw [hs.entry_unique (h.sub entry hentry) hmem heq] at hentry
        exact hkeep hentry
  stakes := by
    intro stake hstake
    obtain ⟨hold, hkeep⟩ := (h.set stake).mp hstake
    obtain ⟨entry, hentry, hpos, rfl⟩ := hs.stakes stake hold
    exact ⟨entry, (h.mem entry).mpr ⟨hentry, fun hgone => hkeep (List.mem_map_of_mem hgone)⟩, hpos, rfl⟩

theorem Removes.distinct (h : Removes s gone s') (hs : DistinctStakes s) : DistinctStakes s' :=
  fun a ha b hb => hs a (h.byPrev.subset ha) b (h.byPrev.subset hb)

theorem Removes.stakesSeen (h : Removes s gone s') (hs : PoolFits env s) (hdistinct : DistinctStakes s)
    (hseen : StakesSeen s) : StakesSeen s' := by
  intro entry hentry hpos
  obtain ⟨hold, hkeep⟩ := (h.mem entry).mp hentry
  refine (h.set _).mpr ⟨hseen entry hold hpos, fun hgone => ?_⟩
  obtain ⟨other, hother, heq⟩ := List.mem_map.mp hgone
  have hmem := h.sub other hother
  by_cases hposOther : other.2.vchBlock.isProofOfStake = true
  · rw [hdistinct other hmem entry hold hposOther hpos heq] at hother
    exact hkeep hother
  · have hstake : other.2.stake = (.null, 0) := by
      rw [(hs.made other hmem).2]
      unfold COrphanBlock.ofBlock getProofOfStake
      rw [if_neg hposOther]
    have hstakeEntry : entry.2.stake = getProofOfStake entry.2.vchBlock :=
      congrArg COrphanBlock.stake (hs.made entry hold).2
    rw [hstake, hstakeEntry] at heq
    exact getProofOfStake_ne_null hpos heq.symm

theorem PoolFits.addOrphan (hs : PoolFits env s) (hnew : s.mapOrphanBlocks (block.getHash env) = none)
    : PoolFits env (s.addOrphan env block) := by
  have hmem : ∀ entry, entry ∈ (s.addOrphan env block).mapOrphanBlocksByPrev
      ↔ entry = (block.hashPrevBlock, .ofBlock env block) ∨ entry ∈ s.mapOrphanBlocksByPrev :=
    fun entry => List.mem_orderedInsert _
  have hfresh : ∀ entry ∈ s.mapOrphanBlocksByPrev, entry.2.hashBlock ≠ block.getHash env := by
    rintro ⟨key, o⟩ hentry heq
    have hkey := (hs.made _ hentry).1
    simp only at hkey heq
    rw [hkey] at hentry
    rw [(hs.listed _ o).mpr ⟨hentry, heq⟩] at hnew
    cases hnew
  refine ⟨fun entry hentry => ?_, fun hash o => ?_, ?_, fun stake hstake => ?_⟩
  · rcases (hmem entry).mp hentry with rfl | hold
    · exact ⟨rfl, rfl⟩
    · exact hs.made entry hold
  · rw [hmem]
    show Function.update s.mapOrphanBlocks (block.getHash env) (some (.ofBlock env block)) hash = some o ↔ _
    by_cases hhash : hash = block.getHash env
    · subst hhash
      rw [Function.update_self, Option.some.injEq]
      constructor
      · rintro rfl
        exact ⟨Or.inl rfl, rfl⟩
      · rintro ⟨heq | hold, heqHash⟩
        · exact (Prod.mk.inj heq).2.symm
        · exact absurd heqHash (hfresh _ hold)
    · rw [Function.update_of_ne hhash, hs.listed hash o]
      constructor
      · rintro ⟨hold, heq⟩
        exact ⟨Or.inr hold, heq⟩
      · rintro ⟨heq | hold, heqHash⟩
        · rw [(Prod.mk.inj heq).2] at heqHash
          exact absurd heqHash.symm hhash
        · exact ⟨hold, heqHash⟩
  · have hperm := (List.perm_orderedInsert (fun a b : UInt256 × COrphanBlock => a.1 < b.1)
      (block.hashPrevBlock, .ofBlock env block) s.mapOrphanBlocksByPrev).map
        fun entry => entry.2.hashBlock
    refine hperm.nodup_iff.mpr (List.nodup_cons.mpr ⟨fun hin => ?_, hs.once⟩)
    obtain ⟨entry, hentry, heq⟩ := List.mem_map.mp hin
    exact hfresh entry hentry heq
  · have hset : stake ∈ (s.addOrphan env block).setStakeSeenOrphan ↔
        (block.isProofOfStake = true ∧ stake = getProofOfStake block) ∨ stake ∈ s.setStakeSeenOrphan := by
      show stake ∈ (if block.isProofOfStake then insert (getProofOfStake block) s.setStakeSeenOrphan
        else s.setStakeSeenOrphan) ↔ _
      split
      · rename_i hpos
        rw [Finset.mem_insert]
        simp [hpos]
      · rename_i hpos
        simp [hpos]
    rcases hset.mp hstake with ⟨hpos, rfl⟩ | hold
    · exact ⟨(block.hashPrevBlock, .ofBlock env block), (hmem _).mpr (Or.inl rfl), hpos, rfl⟩
    · obtain ⟨entry, hentry, hrest⟩ := hs.stakes stake hold
      exact ⟨entry, (hmem entry).mpr (Or.inr hentry), hrest⟩

theorem StakesSeen.addOrphan (hs : StakesSeen s) (block : CBlock) : StakesSeen (s.addOrphan env block) := by
  intro entry hentry hpos
  show entry.2.stake ∈ (if block.isProofOfStake then insert (getProofOfStake block) s.setStakeSeenOrphan
    else s.setStakeSeenOrphan)
  rcases (List.mem_orderedInsert _).mp hentry with rfl | hold
  · have hpos : block.isProofOfStake = true := hpos
    rw [if_pos hpos]
    exact Finset.mem_insert_self _ _
  · split
    · exact Finset.mem_insert_of_mem (hs entry hold hpos)
    · exact hs entry hold hpos

theorem lastSuccessor_mem {byPrev : List (UInt256 × COrphanBlock)} :
    ∀ {fuel : Nat} {it last : UInt256 × COrphanBlock}, it ∈ byPrev →
      Intake.lastSuccessor byPrev fuel it = some last → last ∈ byPrev := by
  intro fuel
  induction fuel with
  | zero =>
    intro it last _ h
    cases h
  | succ fuel ih =>
    intro it last hit h
    unfold Intake.lastSuccessor at h
    split at h
    · cases h
      exact hit
    · rename_i it2 hfind
      exact ih (List.mem_of_find?_eq_some hfind) h

theorem dropOrphan_removes (hs : PoolFits env s) {it : UInt256 × COrphanBlock} (hit : it ∈ s.mapOrphanBlocksByPrev)
    : Removes s [it] (s.dropOrphan it) where
  sub := by simpa using hit
  byPrev := List.erase_sublist
  mem := by
    intro entry
    show entry ∈ s.mapOrphanBlocksByPrev.erase it ↔ _
    rw [(List.Nodup.of_map _ hs.once).mem_erase_iff, List.mem_singleton, and_comm]
  map := by
    intro hash
    show Function.update s.mapOrphanBlocks it.2.hashBlock none hash = _
    rw [Function.update_apply]
    simp
  set := by
    intro stake
    show stake ∈ s.setStakeSeenOrphan.erase it.2.stake ↔ _
    rw [Finset.mem_erase, and_comm]
    simp

theorem pruneOrphanBlocks_removes (hs : PoolFits env s) {nMaxOrphanBlocks : Nat}
    (h : pruneOrphanBlocks nMaxOrphanBlocks rand s = (.ok (), s')) : ∃ gone, Removes s gone s' := by
  unfold pruneOrphanBlocks at h
  rw [Exec.read_bind] at h
  split at h
  · cases h
    exact ⟨[], by simp, List.Sublist.refl _, by simp, by simp, by simp⟩
  · obtain ⟨it, t, hit, hdrop⟩ := Exec.bind_returns.mp h
    cases hdrop
    rw [Exec.lift_apply, Prod.mk.injEq, orUndefined_eq_ok, Option.bind_eq_some_iff] at hit
    obtain ⟨⟨first, hfirst, hlast⟩, rfl⟩ := hit
    exact ⟨[it], dropOrphan_removes hs (lastSuccessor_mem (List.mem_of_getElem? hfirst) hlast)⟩

theorem holdOrphan_fits_pool (hs : PoolFits env s) (hr : ∀ what, r ≠ .error (.undefined what))
    (hr' : ∀ what, r ≠ .error (.exception what)) (hnew : s.mapOrphanBlocks (block.getHash env) = none)
    (h : holdOrphan env settings rand block s = (r, s')) :
    PoolFits env s' ∧ (DistinctStakes s → StakesSeen s → StakesSeen s') := by
  rcases holdOrphan_cases h with ⟨e, rfl, rfl⟩ | ⟨e, rfl, hprune⟩ | ⟨u, t, hprune, rfl, rfl⟩
  · exact ⟨hs, fun _ hseen => hseen⟩
  · cases e with
    | reject d msg => exact absurd hprune (pruneOrphanBlocks_neverRejects _ _ s d msg _)
    | exception what => exact absurd rfl (hr' what)
    | undefined what => exact absurd rfl (hr what)
  · obtain ⟨gone, hremoves⟩ := pruneOrphanBlocks_removes hs hprune
    have hnone : t.mapOrphanBlocks (block.getHash env) = none := by
      rw [hremoves.map, hnew]
      split <;> rfl
    exact ⟨(hremoves.fits hs).addOrphan hnone, fun hdistinct hseen =>
      (hremoves.stakesSeen hs hdistinct hseen).addOrphan block⟩

theorem OfferRun.append {n n₁ n₂ : Node} (h : OfferRun env n offers n₁) (h' : OfferRun env n₁ offers' n₂) :
    OfferRun env n (offers ++ offers') n₂ := by
  induction h with
  | nil n => exact h'
  | accept haccept _ ih => exact .accept haccept (ih h')
  | reject hreject _ ih => exact .reject hreject (ih h')

theorem acceptedHashes_append (offers offers' : List (CBlock × Bool)) :
    acceptedHashes env (offers ++ offers') = acceptedHashes env offers ++ acceptedHashes env offers' := by
  simp [acceptedHashes]

theorem length_acceptedHashes_le (offers : List (CBlock × Bool)) :
    (acceptedHashes env offers).length ≤ offers.length := by
  rw [acceptedHashes, List.length_map]
  exact List.length_filter_le _ _

/-- What the processing of waiting orphans `gone` does: to two of the containers, to the node and to the
    queue. -/
structure Processed (env : Env) (s : Intake) (queue : List UInt256)
    (gone : List (UInt256 × COrphanBlock)) (offers : List (CBlock × Bool)) (s' : Intake)
    (queue' : List UInt256) : Prop where
  byPrev : s'.mapOrphanBlocksByPrev = s.mapOrphanBlocksByPrev
  map : ∀ hash, s'.mapOrphanBlocks hash
    = if hash ∈ gone.map (fun entry => entry.2.hashBlock) then none else s.mapOrphanBlocks hash
  set : ∀ stake, stake ∈ s'.setStakeSeenOrphan ↔ stake ∈ s.setStakeSeenOrphan
    ∧ stake ∉ gone.map fun entry => entry.2.stake
  run : OfferRun env s.node offers s'.node
  offered : offers.map Prod.fst = gone.map fun entry => entry.2.vchBlock
  queue : queue' = queue ++ acceptedHashes env offers

theorem acceptInto_pool (h : acceptInto env block s = (r, s')) : PoolSame s s' := by
  have : (acceptInto env block s).2 = s' := by rw [h]
  rw [← this]
  exact ⟨rfl, rfl, rfl⟩

theorem connectOrphan_processed {mi : UInt256 × COrphanBlock} (hmade : mi.2 = .ofBlock env mi.2.vchBlock)
    (h : connectOrphan env queue mi s = (.ok queue', s')) :
    ∃ offers, Processed env s queue [mi] offers s' queue' := by
  unfold connectOrphan at h
  rcases hacc : acceptInto env mi.2.vchBlock s with ⟨r, t⟩
  have hpool := acceptInto_pool hacc
  have hblock := acceptInto_eq hacc
  have hstake : getProofOfStake mi.2.vchBlock = mi.2.stake := (congrArg COrphanBlock.stake hmade).symm
  have hhash : mi.2.vchBlock.getHash env = mi.2.hashBlock := (congrArg COrphanBlock.hashBlock hmade).symm
  rw [hacc] at h
  have hprocessed : ∀ {accepted : Bool}, OfferRun env s.node [(mi.2.vchBlock, accepted)] t.node →
      queue' = queue ++ acceptedHashes env [(mi.2.vchBlock, accepted)] →
      s' = { t with
        mapOrphanBlocks := Function.update t.mapOrphanBlocks mi.2.hashBlock none
        setStakeSeenOrphan := t.setStakeSeenOrphan.erase (getProofOfStake mi.2.vchBlock) } →
      ∃ offers, Processed env s queue [mi] offers s' queue' := by
    intro accepted hrun hqueue hs'
    subst hs'
    refine ⟨_, hpool.2.1, fun hash => ?_, fun stake => ?_, hrun, rfl, hqueue⟩
    · show Function.update t.mapOrphanBlocks mi.2.hashBlock none hash = _
      rw [Function.update_apply, hpool.1]
      simp
    · show stake ∈ t.setStakeSeenOrphan.erase (getProofOfStake mi.2.vchBlock) ↔ _
      rw [Finset.mem_erase, hpool.2.2, hstake, and_comm]
      simp
  cases r with
  | ok u =>
    simp only [if_true, Prod.mk.injEq, Except.ok.injEq] at h
    refine @hprocessed true (.accept hblock (.nil _)) ?_ h.2.symm
    rw [← h.1, ← hhash]
    rfl
  | error e =>
    cases e with
    | reject d msg =>
      simp only [Prod.mk.injEq, Except.ok.injEq, reduceCtorEq, if_false] at h
      refine @hprocessed false (.reject hblock (.nil _)) ?_ h.2.symm
      rw [← h.1]
      exact (List.append_nil _).symm
    | exception what => cases h
    | undefined what => cases h

theorem Processed.append {queue₁ queue₂ : List UInt256} {s₁ s₂ : Intake} {gone' : List (UInt256 × COrphanBlock)}
    (h : Processed env s queue gone offers s₁ queue₁) (h' : Processed env s₁ queue₁ gone' offers' s₂ queue₂) :
    Processed env s queue (gone ++ gone') (offers ++ offers') s₂ queue₂ := by
  refine ⟨h'.byPrev.trans h.byPrev, fun hash => ?_, fun stake => ?_, h.run.append h'.run, ?_, ?_⟩
  · rw [h'.map, h.map]
    simp only [List.map_append, List.mem_append]
    by_cases h1 : hash ∈ gone.map fun entry => entry.2.hashBlock
    · simp [h1]
    · by_cases h2 : hash ∈ gone'.map fun entry => entry.2.hashBlock
      · simp [h2]
      · simp [h1, h2]
  · rw [h'.set, h.set, List.map_append, List.mem_append, not_or, and_assoc]
  · rw [List.map_append, List.map_append, h.offered, h'.offered]
  · rw [h'.queue, h.queue, acceptedHashes_append, List.append_assoc]

/-- The inner loop, by induction on the orphans that wait. -/
theorem foldlM_connectOrphan_processed : ∀ {s s' : Intake} {queue queue' : List UInt256},
      (∀ entry ∈ gone, entry.2 = .ofBlock env entry.2.vchBlock) →
      gone.foldlM (connectOrphan env) queue s = (.ok queue', s') →
      ∃ offers, Processed env s queue gone offers s' queue' := by
  induction gone with
  | nil =>
    intro s s' queue queue' _ h
    cases h
    exact ⟨[], rfl, by simp, by simp, .nil _, rfl, (List.append_nil _).symm⟩
  | cons mi gone ih =>
    intro s s' queue queue' hmade h
    obtain ⟨queue₁, s₁, hfirst, hrest⟩ := Exec.bind_returns.mp
      (show (connectOrphan env queue mi >>= fun q => gone.foldlM (connectOrphan env) q) s = _ from h)
    obtain ⟨offers, hp⟩ := connectOrphan_processed (hmade mi (List.mem_cons_self ..)) hfirst
    obtain ⟨offers', hp'⟩ := ih (fun entry hentry => hmade entry (List.mem_cons_of_mem _ hentry)) hrest
    exact ⟨offers ++ offers', hp.append hp'⟩

theorem connectWaiting_removes (hs : PoolFits env s) {hashPrev : UInt256}
    (h : connectWaiting env hashPrev queue s = (.ok queue', s')) :
    ∃ gone offers, Removes s gone s' ∧ (∀ entry, entry ∈ gone ↔ entry ∈ s.mapOrphanBlocksByPrev
        ∧ entry.2.hashPrev = hashPrev)
      ∧ gone.length + s'.mapOrphanBlocksByPrev.length = s.mapOrphanBlocksByPrev.length
      ∧ OfferRun env s.node offers s'.node
      ∧ offers.map Prod.fst = gone.map (fun entry => entry.2.vchBlock)
      ∧ queue' = queue ++ acceptedHashes env offers := by
  unfold connectWaiting at h
  rw [Exec.read_bind] at h
  obtain ⟨queue₁, s₁, hfold, hend⟩ := Exec.bind_returns.mp h
  cases hend
  set gone := s.mapOrphanBlocksByPrev.filter fun entry => entry.1 == hashPrev with hgone
  have hmem : ∀ entry, entry ∈ gone ↔ entry ∈ s.mapOrphanBlocksByPrev ∧ entry.2.hashPrev = hashPrev := by
    intro entry
    rw [hgone, List.mem_filter, beq_iff_eq]
    refine and_congr_right fun hentry => ?_
    rw [(hs.made entry hentry).1]
  obtain ⟨offers, hp⟩ := foldlM_connectOrphan_processed
    (fun entry hentry => (hs.made entry ((hmem entry).mp hentry).1).2) hfold
  refine ⟨gone, offers, ⟨fun entry hentry => ((hmem entry).mp hentry).1, ?_, fun entry => ?_, hp.map,
    hp.set⟩, hmem, ?_, hp.run, hp.offered, hp.queue⟩
  · show (s₁.mapOrphanBlocksByPrev.filter _).Sublist _
    rw [hp.byPrev]
    exact List.filter_sublist
  · show entry ∈ s₁.mapOrphanBlocksByPrev.filter _ ↔ _
    rw [hp.byPrev, List.mem_filter, hgone, List.mem_filter]
    simp only [bne_iff_ne, beq_iff_eq, ne_eq, not_and]
    exact ⟨fun ⟨hin, hne⟩ => ⟨hin, fun _ => hne⟩, fun ⟨hin, hne⟩ => ⟨hin, hne hin⟩⟩
  · show gone.length + (s₁.mapOrphanBlocksByPrev.filter fun entry => entry.1 != hashPrev).length = _
    rw [hp.byPrev, hgone]
    exact (List.length_eq_length_filter_add _).symm

def PoolKept (env : Env) (s s' : Intake) : Prop :=
  PoolFits env s' ∧ (DistinctStakes s → StakesSeen s → DistinctStakes s' ∧ StakesSeen s')

theorem Connected.done {i : Nat} (hi : queue.length ≤ i)
    (hdone : ∀ entry ∈ s.mapOrphanBlocksByPrev, entry.2.hashPrev ∉ queue.take i) : Connected env s [] queue s := by
  rw [List.take_of_length_le hi] at hdone
  refine ⟨.nil _, fun block => ?_, fun entry => ⟨fun h => ⟨h, hdone entry h⟩, And.left⟩⟩
  constructor
  · intro h
    cases h
  · rintro ⟨entry, hentry, -, hin⟩
    exact absurd hin (hdone entry hentry)

/-- The loop ends: by induction on the rounds, each of which takes a hash of the queue and adds at most as
    many as there are orphans that it removes. -/
theorem connectOrphans_ends {fuel : Nat} :
    ∀ {i : Nat} {queue : List UInt256} {s s' : Intake} {r : Bool × List UInt256}, PoolFits env s →
      i ≤ queue.length → queue.length - i + s.mapOrphanBlocksByPrev.length ≤ fuel →
      (∀ entry ∈ s.mapOrphanBlocksByPrev, entry.2.hashPrev ∉ queue.take i) →
      connectOrphans env fuel i queue s = (.ok r, s') →
      ∃ offers, r = (true, queue ++ acceptedHashes env offers) ∧ PoolKept env s s'
        ∧ Connected env s offers (queue ++ acceptedHashes env offers) s' := by
  induction fuel with
  | zero =>
    intro i queue s s' r hs hi hfuel hdone h
    cases h
    have hthrough : queue.length ≤ i := by omega
    exact ⟨[], by simp [hthrough, acceptedHashes], ⟨hs, fun hd hseen => ⟨hd, hseen⟩⟩, by
      simpa [acceptedHashes] using Connected.done hthrough hdone⟩
  | succ fuel ih =>
    intro i queue s s' r hs hi hfuel hdone h
    unfold connectOrphans at h
    cases hnext : queue[i]? with
    | none =>
      rw [hnext] at h
      cases h
      exact ⟨[], by simp [acceptedHashes], ⟨hs, fun hd hseen => ⟨hd, hseen⟩⟩, by
        simpa [acceptedHashes] using Connected.done (List.getElem?_eq_none_iff.mp hnext) hdone⟩
    | some hashPrev =>
      rw [hnext] at h
      obtain ⟨queue₁, s₁, hround, hrest⟩ := Exec.bind_returns.mp h
      obtain ⟨gone, offers, hremoves, hgone, hlen, hrun, hoffered, rfl⟩ :=
        connectWaiting_removes hs hround
      obtain ⟨hlt, -⟩ := List.getElem?_eq_some_iff.mp hnext
      have hin : hashPrev ∈ queue := List.mem_of_getElem? hnext
      have hmore : (acceptedHashes env offers).length ≤ gone.length := by
        have := congrArg List.length hoffered
        rw [List.length_map, List.length_map] at this
        rw [← this]
        exact length_acceptedHashes_le offers
      obtain ⟨offers', hr, hkept, hconnected⟩ := ih (hremoves.fits hs)
        (by rw [List.length_append]; omega) (by rw [List.length_append]; omega)
        (fun entry hentry => by
          obtain ⟨hold, hkeep⟩ := (hremoves.mem entry).mp hentry
          rw [List.take_append_of_le_length (by omega), List.take_add_one, hnext]
          simp only [Option.toList_some, List.mem_append, List.mem_singleton, not_or]
          exact ⟨hdone entry hold, fun heq => hkeep ((hgone entry).mpr ⟨hold, heq⟩)⟩) hrest
      have hqueue : queue ++ acceptedHashes env offers ++ acceptedHashes env offers'
          = queue ++ acceptedHashes env (offers ++ offers') := by
        rw [acceptedHashes_append, List.append_assoc]
      rw [hqueue] at hr hconnected
      have hinAll : hashPrev ∈ queue ++ acceptedHashes env (offers ++ offers') :=
        List.mem_append_left _ hin
      refine ⟨offers ++ offers', hr, ⟨hkept.1, fun hd hseen =>
        hkept.2 (hremoves.distinct hd) (hremoves.stakesSeen hs hd hseen)⟩,
        ⟨hrun.append hconnected.run, fun block => ?_, fun entry => ?_⟩⟩
      · rw [List.map_append, List.mem_append, hoffered, hconnected.offered]
        constructor
        · rintro (hfirst | ⟨entry, hentry, hblock, hwaits⟩)
          · obtain ⟨entry, hentry, rfl⟩ := List.mem_map.mp hfirst
            obtain ⟨hold, hwaits⟩ := (hgone entry).mp hentry
            exact ⟨entry, hold, rfl, by rw [hwaits]; exact hinAll⟩
          · exact ⟨entry, ((hremoves.mem entry).mp hentry).1, hblock, hwaits⟩
        · rintro ⟨entry, hentry, rfl, hwaits⟩
          by_cases hfirst : entry ∈ gone
          · exact Or.inl (List.mem_map.mpr ⟨entry, hfirst, rfl⟩)
          · exact Or.inr ⟨entry, (hremoves.mem entry).mpr ⟨hentry, hfirst⟩, rfl, hwaits⟩
      · rw [hconnected.left, hremoves.mem, hgone]
        constructor
        · rintro ⟨⟨hold, -⟩, hnot⟩
          exact ⟨hold, hnot⟩
        · rintro ⟨hold, hnot⟩
          refine ⟨⟨hold, fun hboth => hnot ?_⟩, hnot⟩
          rw [hboth.2]
          exact hinAll

theorem acceptWithOrphans_connected (hs : PoolFits env s) {vWorkQueue : List UInt256}
    (h : acceptWithOrphans env block s = (.ok vWorkQueue, s')) :
    PoolKept env s s' ∧ ∃ offers t, acceptInto env block s = (.ok (), t)
      ∧ vWorkQueue = block.getHash env :: acceptedHashes env offers
      ∧ Connected env t offers vWorkQueue s' := by
  unfold acceptWithOrphans at h
  obtain ⟨u, t, haccept, h⟩ := Exec.bind_returns.mp h
  have hpool := acceptInto_pool haccept
  rw [Exec.read_bind] at h
  obtain ⟨r, t', hloop, hend⟩ := Exec.bind_returns.mp h
  obtain ⟨offers, rfl, hkept, hconnected⟩ := connectOrphans_ends (hpool.fits hs) (by simp)
    (by simp [Nat.add_comm]) (by simp) hloop
  cases hend
  exact ⟨⟨hkept.1, fun hd hseen => hkept.2 (hpool.distinct hd) (hpool.stakesSeen hseen)⟩, offers, t,
    haccept, rfl, hconnected⟩

/-- What a call of `ProcessBlock` keeps: the pool, and, from distinct stakes on, that every stake is seen. -/
def PoolStep (env : Env) (s s' : Intake) : Prop :=
  PoolFits env s → PoolFits env s' ∧ (DistinctStakes s → StakesSeen s → StakesSeen s')

theorem PoolSame.step (h : PoolSame s s') : PoolStep env s s' :=
  fun hs => ⟨h.fits hs, fun _ hseen => h.stakesSeen hseen⟩

theorem PoolStep.of_same (h : PoolSame s t) (h' : PoolStep env t s') : PoolStep env s s' :=
  fun hs => ⟨(h' (h.fits hs)).1, fun hd hseen => (h' (h.fits hs)).2 (h.distinct hd) (h.stakesSeen hseen)⟩

theorem PoolStep.same (h : PoolStep env s t) (h' : PoolSame t s') : PoolStep env s s' :=
  fun hs => ⟨h'.fits (h hs).1, fun hd hseen => h'.stakesSeen ((h hs).2 hd hseen)⟩

theorem processAccepted_step {r : Except ProcessStop Unit} (hret : Returns r)
    (h : processAccepted env settings pfrom block s = (r, s')) : PoolStep env s s' := by
  unfold processAccepted at h
  rcases haccept : acceptWithOrphans env block s with ⟨r₁, s₁⟩
  cases r₁ with
  | error e =>
    rw [Exec.bind_of_error (e := .stop e) (t := s₁) (by simp only [ofIntake, haccept]; rfl)] at h
    cases h
    cases e with
    | reject d msg =>
      exact (acceptInto_pool (acceptWithOrphans_rejects.mp haccept)).step
    | exception what => exact hret.elim
    | undefined what => exact hret.elim
  | ok vWorkQueue =>
    have hkept : PoolStep env s s₁ := fun hs => by
      obtain ⟨hkept, -⟩ := acceptWithOrphans_connected hs haccept
      exact ⟨hkept.1, fun hd hseen => (hkept.2 hd hseen).2⟩
    rw [Exec.bind_of_ok (a := vWorkQueue) (t := s₁) (by simp only [ofIntake, haccept]; rfl)] at h
    rcases hvelocity : onNode (velocityAccepted env block) s₁ with ⟨r₂, s₂⟩
    have hsame : PoolSame s₁ s₂ :=
      ((onNode_frame (velocityAccepted_keeps env block)).apply hvelocity).2
    cases r₂ with
    | error e =>
      rw [Exec.bind_of_error (e := .stop e) (t := s₂) (by simp only [ofIntake, hvelocity]; rfl)] at h
      cases h
      exact hkept.same hsame
    | ok passed =>
      rw [Exec.bind_of_ok (a := passed) (t := s₂) (by simp only [ofIntake, hvelocity]; rfl)] at h
      cases passed with
      | true =>
        cases h
        exact hkept.same hsame
      | false =>
        cases pfrom with
        | none =>
          cases h
          exact hret.elim
        | some peer =>
          cases h
          exact (hkept.same hsame).same ⟨rfl, rfl, rfl⟩

theorem processBlock_step {r : Except ProcessStop Unit} (hret : Returns r)
    (h : processBlock env settings rand pfrom block s = (r, s')) : PoolStep env s s' := by
  unfold processBlock at h
  rcases hpre : precheckBlock env settings pfrom block s with ⟨r₁, s₁⟩
  have hsame : PoolSame s s₁ := ((precheckBlock_frame env settings pfrom block).apply hpre).2
  cases r₁ with
  | error e =>
    rw [Exec.bind_of_error (e := .stop e) (t := s₁) (by simp only [ofIntake, hpre]; rfl)] at h
    cases h
    exact hsame.step
  | ok u =>
    obtain ⟨-, -, hnew⟩ := prechecked hpre
    rw [Exec.bind_of_ok (a := ()) (t := s₁) (by simp only [ofIntake, hpre]; rfl), Exec.read_bind] at h
    split at h
    · cases pfrom with
      | none =>
        cases h
        exact hsame.step
      | some peer =>
        rcases hhold : holdOrphan env settings rand block s₁ with ⟨r₂, s₂⟩
        simp only [ofIntake, hhold, Prod.mk.injEq] at h
        obtain ⟨rfl, rfl⟩ := h
        refine PoolStep.of_same hsame fun hs => holdOrphan_fits_pool hs ?_ ?_ hnew hhold
        · rintro what rfl
          exact hret
        · rintro what rfl
          exact hret
    · exact PoolStep.of_same hsame (processAccepted_step hret h)

/-- In every state reached by calls of `ProcessBlock` from an empty pool: the two maps hold the same orphans,
    each once and under its `hashPrev`; the set holds stakes of proof-of-stake orphans only, and all of them
    where no two had the same; and once a block is accepted, the loop over `vWorkQueue` ends and takes out of
    the pool exactly the orphans whose parent is the block or an orphan that was accepted after it. -/
theorem intakeRun_pool {P : Intake → Prop} (hrun : IntakeRun env P s) :
    PoolFits env s ∧ ((∀ t, P t → DistinctStakes t) → StakesSeen s) ∧
      ∀ block t, acceptInto env block s = (.ok (), t) →
        ∀ r s', connectOrphans env (t.mapOrphanBlocksByPrev.length + 1) 0 [block.getHash env] t
            = (.ok r, s') →
          ∃ offers, r = (true, block.getHash env :: acceptedHashes env offers)
            ∧ Connected env t offers (block.getHash env :: acceptedHashes env offers) s' := by
  have hpool : PoolFits env s ∧ ((∀ t, P t → DistinctStakes t) → StakesSeen s) := by
    induction hrun with
    | start hmap hbyPrev hset =>
      refine ⟨⟨by simp [hbyPrev], by simp [hmap, hbyPrev], by simp [hbyPrev], by simp [hset]⟩, ?_⟩
      intro _ entry hentry
      simp [hbyPrev] at hentry
    | idle _ hsame ih => exact ⟨hsame.fits ih.1, fun hP => hsame.stakesSeen (ih.2 hP)⟩
    | process settings rand pfrom block _ hP hret ih =>
      have hstep := processBlock_step hret
        (Prod.mk.eta (p := processBlock env settings rand pfrom block _)).symm
      exact ⟨(hstep ih.1).1, fun hdistinct => (hstep ih.1).2 (hdistinct _ hP) (ih.2 hdistinct)⟩
  refine ⟨hpool.1, hpool.2, fun block t haccept r s' hloop => ?_⟩
  obtain ⟨offers, hr, -, hconnected⟩ := connectOrphans_ends ((acceptInto_pool haccept).fits hpool.1)
    (by simp) (by simp [Nat.add_comm]) (by simp) hloop
  exact ⟨offers, hr, hconnected⟩

end Pool

namespace Sample

def lowIntake : Intake := ⟨chainNode 12, .empty, ∅, fun _ => none, [], ∅⟩

def receive (s : Intake) (block : CBlock) : Intake :=
  (processBlock env intakeSettings 0 (some 7) block s).2

theorem lowIntake_run (P : Intake → Prop) : IntakeRun env P lowIntake := .start rfl rfl rfl

theorem receive_run {s : Intake} (hrun : IntakeRun env P s) (hP : P s) (block : CBlock)
    (hok : (processBlock env intakeSettings 0 (some 7) block s).1 = .ok ()) : IntakeRun env P (receive s block) := by
  refine .process intakeSettings 0 (some 7) block hrun hP ?_
  rw [hok]
  trivial

def forsaken : Intake := [chainBlock 15, misplacedBlock, chainBlock 13].foldl receive lowIntake

theorem forsaken_run (h0 : P lowIntake) (h1 : P (receive lowIntake (chainBlock 15)))
    (h2 : P (receive (receive lowIntake (chainBlock 15)) misplacedBlock)) : IntakeRun env P forsaken := by
  have hrun1 := receive_run (lowIntake_run P) h0 (chainBlock 15) (by decide)
  have hrun2 := receive_run hrun1 h1 misplacedBlock (by decide +kernel)
  exact receive_run hrun2 h2 (chainBlock 13) (by decide +kernel)

/-- An orphan that waits for a block with the same stake as another orphan, that orphan, that block, and
    block 13, for which the other orphan waits. -/
def unseen : Intake :=
  [{ chainBlock 15 with hashPrevBlock := 800002 }, stakeBlock 800001 (blockHash 13),
    stakeBlock 800002 0xabc, chainBlock 13].foldl receive lowIntake

theorem unseen_run : IntakeRun env (fun _ => True) unseen := by
  have h1 := receive_run (lowIntake_run fun _ => True) trivial
    { chainBlock 15 with hashPrevBlock := 800002 } (by decide)
  have h2 := receive_run h1 trivial (stakeBlock 800001 (blockHash 13)) (by decide)
  have h3 := receive_run h2 trivial (stakeBlock 800002 0xabc) (by decide)
  exact receive_run h3 trivial (chainBlock 13) (by decide +kernel)

/-- Block 15 stays in the pool though block 13 was accepted and the block between them has been processed;
    and a proof-of-stake orphan stays without its stake in the set. -/
theorem orphans_left_behind : (IntakeRun env (fun _ => True) forsaken
      ∧ (blockHash 14, .ofBlock env (chainBlock 15)) ∈ forsaken.mapOrphanBlocksByPrev
      ∧ misplacedBlock.getHash env = blockHash 14 ∧ misplacedBlock.hashPrevBlock = blockHash 13
      ∧ forsaken.mapOrphanBlocks (blockHash 14) = none
      ∧ (forsaken.node.mapBlockIndex.entries (blockHash 13)).isSome)
    ∧ IntakeRun env (fun _ => True) unseen
      ∧ (0xabc, .ofBlock env (stakeBlock 800002 0xabc)) ∈ unseen.mapOrphanBlocksByPrev
      ∧ (stakeBlock 800002 0xabc).isProofOfStake = true
      ∧ getProofOfStake (stakeBlock 800002 0xabc) ∉ unseen.setStakeSeenOrphan :=
  ⟨⟨forsaken_run trivial trivial trivial, by decide +kernel, by decide, rfl, by decide +kernel, by decide +kernel⟩, unseen_run,
    by decide +kernel, by decide, by decide +kernel⟩

theorem distinctStakes_of_work {s : Intake}
    (h : ∀ entry ∈ s.mapOrphanBlocksByPrev, entry.2.vchBlock.isProofOfStake = false) : DistinctStakes s := by
  intro a ha b _ hpos
  rw [h a ha] at hpos
  cases hpos

theorem forsaken_pool : PoolFits env forsaken ∧ StakesSeen forsaken ∧
    ∃ offers, Connected env (acceptInto env (chainBlock 14) forsaken).2 offers
      (blockHash 14 :: acceptedHashes env offers)
      (connectOrphans env 2 0 [blockHash 14] (acceptInto env (chainBlock 14) forsaken).2).2 := by
  have h0 : DistinctStakes lowIntake := distinctStakes_of_work (by decide)
  have h1 : DistinctStakes (receive lowIntake (chainBlock 15)) :=
    distinctStakes_of_work (by decide)
  have h2 : DistinctStakes (receive (receive lowIntake (chainBlock 15)) misplacedBlock) :=
    distinctStakes_of_work (by decide)
  have haccept : (acceptInto env (chainBlock 14) forsaken).1 = .ok () := by decide +kernel
  have hends : (connectOrphans env 2 0 [blockHash 14] (acceptInto env (chainBlock 14) forsaken).2).1
      = .ok (true, [blockHash 14, blockHash 15]) := by
    decide +kernel
  have hlength : (acceptInto env (chainBlock 14) forsaken).2.mapOrphanBlocksByPrev.length + 1 = 2 := by
    decide +kernel
  have hhash : (chainBlock 14).getHash env = blockHash 14 := by decide
  -- Stated for a variable state, so that the sample is not unfolded.
  have hpool : ∀ s t r s', IntakeRun env DistinctStakes s → acceptInto env (chainBlock 14) s = (.ok (), t) →
      t.mapOrphanBlocksByPrev.length + 1 = 2 → connectOrphans env 2 0 [blockHash 14] t = (.ok r, s') →
      PoolFits env s ∧ StakesSeen s
        ∧ ∃ offers, Connected env t offers (blockHash 14 :: acceptedHashes env offers) s' := by
    intro s t r s' hs hok hlen hrounds
    obtain ⟨hfits, hseen, hloop⟩ := intakeRun_pool hs
    have h := hloop (chainBlock 14) t hok r s'
    rw [hhash, hlen] at h
    obtain ⟨offers, -, hconnected⟩ := h hrounds
    exact ⟨hfits, hseen fun t ht => ht, offers, hconnected⟩
  exact hpool forsaken _ _ _ (forsaken_run (P := DistinctStakes) h0 h1 h2) (Exec.eq_of_fst haccept)
    hlength (Exec.eq_of_fst hends)

end Sample

end PupaCoin
