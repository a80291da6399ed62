import PupaCoin.Chain.Proofs.StoredProofs
import PupaCoin.Chain.Proofs.SupplyCapProofs

/-!
# The best chain is the one of most trust

`AddToBlockIndex` gives `SetBestChain` only a block of more trust than the best one, and nothing else moves the
best block. So over every run its trust only grows, and no block that was accepted has more.
-/

namespace PupaCoin

open Exec (Frame bind_of_ok bind_of_error)

variable {ps : List Part} {n n' : Node}

/-! ## A step up -/

/-- An entry keeps everything but its `pnext` pointer and its supply. -/
def CoreKept (n n' : Node) : Prop := ∀ h e, n.mapBlockIndex.entries h = some e →
  ∃ e', n'.mapBlockIndex.entries h = some e' ∧ e'.core = e.core

theorem CoreKept.of_writes (hw : Writes ps n n') (hp : Part.index ∉ ps) : CoreKept n n' := by
  intro h e he
  have hcore := hw .index hp h
  rw [he, Option.map_some, Option.map_eq_some_iff] at hcore
  exact hcore

theorem inserts_coreKept (env : Env) (block : CBlock) : AcceptFrame.Inserts env CoreKept block := by
  intro n nFile nBlockPos hashProof modifier hnew h e he
  have hne : h ≠ block.getHash env := by
    rintro rfl
    rw [hnew] at he
    cases he
  refine ⟨e, ?_, rfl⟩
  show (n.mapBlockIndex.addBlock env nFile nBlockPos block hashProof modifier hnew).entries h = some e
  rw [addBlock_entries, if_neg hne, he]

theorem TipRecorded.kept {tip : UInt256} (h : TipRecorded n tip) (hcore : CoreKept n n')
    (hsame : Part.tip.Same n n') : TipRecorded n' tip := by
  obtain ⟨e, he⟩ := h.known
  obtain ⟨e', he', hentry⟩ := hcore tip e he
  obtain ⟨hbest, hhash, hheight, htrust⟩ := hsame
  refine ⟨⟨hbest.trans h.pindexBest, hhash.trans h.hashBestChain, ?_, fun f hf => ?_⟩, e', he'⟩
  · have heights : e'.nHeight = e.nHeight := (congrArg CBlockIndex.nHeight hentry :)
    rw [hheight, h.nBestHeight]
    simp only [BlockTree.nHeight, he, he', Option.map_some, heights]
  · rw [he', Option.some.injEq] at hf
    subst hf
    rw [htrust, h.nBestChainTrust e he]
    exact (congrArg CBlockIndex.nChainTrust hentry).symm

/-- The best block of `n'` is that of `n`, or one of more trust. -/
structure Rises (n n' : Node) : Prop where
  core : CoreKept n n'
  tip : Part.tip.Same n n' ∨ n.nBestChainTrust < n'.nBestChainTrust ∧ ∃ tip, TipRecorded n' tip

/-- The index holds the block, and the best chain has no less trust. -/
def Outweighed (n : Node) (h : UInt256) : Prop :=
  ∃ e, n.mapBlockIndex.entries h = some e ∧ e.nChainTrust ≤ n.nBestChainTrust

namespace Rises

variable {n n' : Node}

theorem refl (n : Node) : Rises n n := ⟨fun _ e he => ⟨e, he, rfl⟩, .inl (Part.Same.refl n .tip)⟩

theorem trans {n'' : Node} (h : Rises n n') (h' : Rises n' n'') : Rises n n'' := by
  refine ⟨fun k e he => ?_, ?_⟩
  · obtain ⟨e', he', hcore⟩ := h.core k e he
    obtain ⟨e'', he'', hcore'⟩ := h'.core k e' he'
    exact ⟨e'', he'', hcore'.trans hcore⟩
  · rcases h.tip, h'.tip with ⟨hsame | ⟨hlt, tip, htip⟩, hsame' | ⟨hlt', hnew⟩⟩
    · exact .inl (hsame.trans hsame')
    · exact .inr ⟨hsame.2.2.2 ▸ hlt', hnew⟩
    · exact .inr ⟨hsame'.2.2.2.symm ▸ hlt, tip, htip.kept h'.core hsame'⟩
    · exact .inr ⟨BitVec.lt_trans hlt hlt', hnew⟩

theorem of_writes (hw : Writes ps n n') (h : ∀ p ∈ [Part.index, .tip], p ∉ ps) : Rises n n' :=
  ⟨.of_writes hw (h _ (by simp)), .inl (hw .tip (h _ (by simp)))⟩

theorem nBestChainTrust_le (h : Rises n n') : n.nBestChainTrust ≤ n'.nBestChainTrust := by
  rcases h.tip with hsame | ⟨hlt, -⟩
  · rw [hsame.2.2.2]
  · exact BitVec.le_of_lt hlt

theorem recorded (h : Rises n n') (hn : ∃ tip, TipRecorded n tip) : ∃ tip, TipRecorded n' tip := by
  obtain ⟨tip, htip⟩ := hn
  rcases h.tip with hsame | ⟨-, hnew⟩
  · exact ⟨tip, htip.kept h.core hsame⟩
  · exact hnew

theorem outweighed (h : Rises n n') {k : UInt256} (hk : Outweighed n k) : Outweighed n' k := by
  obtain ⟨e, he, hle⟩ := hk
  obtain ⟨e', he', hcore⟩ := h.core k e he
  have htrust : e'.nChainTrust = e.nChainTrust := (congrArg CBlockIndex.nChainTrust hcore :)
  exact ⟨e', he', htrust ▸ BitVec.le_trans hle h.nBestChainTrust_le⟩

end Rises

/-! ## The acceptance of a block -/

theorem setBestChainBranch_writes (env : Env) (block : CBlock) (hNew : UInt256) :
    Frame (Writes bestChainParts) (setBestChainBranch env block hNew) := by
  unfold setBestChainBranch setBestChainGenesis setBestChainExtend setBestChainReorganize
  refine Writes.frame_bind Writes.frame_read fun n => ?_
  split
  · exact Writes.frame_bind (Writes.frame_mono (writeHashBestChain_writes _) (by decide)) fun _ =>
      Writes.frame_bind (Writes.frame_mono (txnCommit_writes _) (by decide)) fun _ =>
        Writes.frame_bind (Writes.frame_mono (Frame.update (setGenesis_writes hNew)) (by decide)) fun _ =>
          Writes.frame_pure _
  · split
    · exact Writes.frame_bind (Writes.frame_onReject
        (Writes.frame_mono (setBestChainInner_writes env block hNew) (by decide)) (Writes.frame_stop _))
        fun _ => Writes.frame_pure _
    · exact Writes.frame_bind Writes.frame_read fun n => Writes.frame_bind (Writes.frame_lift _)
        fun pindexBest => Writes.frame_bind (Writes.frame_lift _) fun pindexIntermediate =>
          Writes.frame_bind (Writes.frame_onReject
            (Writes.frame_mono (reorganize_writes env _) (by decide))
            (Writes.frame_mono (giveUp_writes hNew _) (by decide))) fun _ =>
              Writes.frame_mono (connectSecondary_writes env _) (by decide)

/-- The best block rises or stays, and after a call that returns it outweighs the block `h`. -/
def Lifts {α : Type} (h : UInt256) (m : NodeM α) (n : Node) : Prop :=
  Rises n (m n).2 ∧ ∀ a, (m n).1 = .ok a → Outweighed (m n).2 h

namespace Lifts

variable {α β : Type} {h : UInt256} {n : Node} {ps : List Part}

theorem before {m : NodeM β} {f : β → NodeM α} (hm : Frame (Writes ps) m)
    (hps : ∀ p ∈ [Part.index, .tip], p ∉ ps) (hf : ∀ b n₁, m n = (.ok b, n₁) → Lifts h (f b) n₁) :
    Lifts h (m >>= f) n := by
  rcases hr : m n with ⟨r, n₁⟩
  have h₁ : Rises n n₁ := .of_writes (hm.apply hr) hps
  unfold Lifts
  cases r with
  | error stop =>
    rw [bind_of_error hr]
    exact ⟨h₁, by simp⟩
  | ok b =>
    rw [bind_of_ok hr]
    exact ⟨h₁.trans (hf b n₁ hr).1, (hf b n₁ hr).2⟩

theorem after {m : NodeM β} {f : β → NodeM α} (hm : Lifts h m n) (hf : ∀ b, Frame (Writes ps) (f b))
    (hps : ∀ p ∈ [Part.index, .tip], p ∉ ps) : Lifts h (m >>= f) n := by
  obtain ⟨h₁, hout⟩ := hm
  rcases hr : m n with ⟨r, n₁⟩
  rw [hr] at h₁ hout
  unfold Lifts
  cases r with
  | error stop =>
    rw [bind_of_error hr]
    exact ⟨h₁, by simp⟩
  | ok b =>
    have hrest : Rises n₁ (f b n₁).2 := .of_writes (hf b n₁) hps
    rw [bind_of_ok hr]
    exact ⟨h₁.trans hrest, fun _ _ => hrest.outweighed (hout b rfl)⟩

theorem onReject {m : NodeM α} (hm : Lifts h m n) (e : Stop) : Lifts h (onReject m (Exec.stop e)) n := by
  unfold Lifts PupaCoin.onReject
  rcases hr : m n with ⟨r, n₁⟩
  unfold Lifts at hm
  rw [hr] at hm
  cases r with
  | ok a => exact hm
  | error stop => cases stop <;> exact ⟨hm.1, by simp⟩

theorem withTxDB {m : NodeM α} (hm : Lifts h m n) : Lifts h (withTxDB m) n := by
  have hclosed : Writes [.committed, .batch] (m n).2 { (m n).2 with activeBatch := none } := by
    intro p hp
    cases p <;> simp [Part.Same] at hp ⊢
  exact ⟨hm.1.trans (.of_writes hclosed (by decide)), hm.2⟩

end Lifts

section Accept

variable {env : Env} {block : CBlock} {n : Node} {pindexNew : CBlockIndex}

theorem setBest_lifts (hentry : n.mapBlockIndex.entries (block.getHash env) = some pindexNew)
    (hmore : n.nBestChainTrust < pindexNew.nChainTrust) :
    Lifts (block.getHash env) (setBest block env (block.getHash env)) n := by
  unfold setBest Lifts
  rw [bind_of_ok (deref_returns.mpr ⟨hentry, rfl⟩)]
  refine ⟨⟨fun _ e he => ⟨e, he, rfl⟩, .inr ⟨hmore, _, ⟨rfl, rfl, ?_, fun f hf => ?_⟩, _, hentry⟩⟩,
    fun _ _ => ⟨_, hentry, BitVec.le_refl _⟩⟩
  · show (pindexNew.nHeight : Int) = n.mapBlockIndex.nHeight _
    rw [BlockTree.nHeight, hentry]
    rfl
  · cases hentry.symm.trans hf
    rfl

/-- A move that the trust of the block calls for. -/
theorem setBestChain_lifts (hentry : n.mapBlockIndex.entries (block.getHash env) = some pindexNew)
    (hmore : n.nBestChainTrust < pindexNew.nChainTrust) :
    Lifts (block.getHash env) (setBestChain env block (block.getHash env)) n := by
  unfold setBestChain
  refine .before txnBegin_writes (by decide) fun _ n₀ hbegin =>
    .before (setBestChainBranch_writes env block _) (by decide) fun left n₁ hbranch => ?_
  have hw : Writes bestChainParts n n₁ := Writes.trans _ _ _ _
    ((txnBegin_writes.apply hbegin).mono (by decide)) ((setBestChainBranch_writes env block _).apply hbranch)
  obtain ⟨e, he, hcore⟩ := CoreKept.of_writes hw (by decide) _ _ hentry
  have htrust : e.nChainTrust = pindexNew.nChainTrust := (congrArg CBlockIndex.nChainTrust hcore :)
  have hold : n₁.nBestChainTrust = n.nBestChainTrust := (hw .tip (by decide)).2.2.2
  exact (setBest_lifts he (by rwa [htrust, hold])).after (fun _ => @Writes.frame_pure _ [] left) (by decide)

theorem activateBlock_lifts (env : Env) (block : CBlock) (n : Node) :
    Lifts (block.getHash env) (activateBlock env block) n := by
  unfold activateBlock
  refine .before (storeBlockIndex_writes env _) (by decide) fun _ n₁ _ =>
    .before (@Writes.frame_deref [] _) (by decide) fun pindexNew n₂ hderef => ?_
  obtain ⟨hentry, rfl⟩ := deref_returns.mp hderef
  show Lifts _ (if pindexNew.nChainTrust > n₁.nBestChainTrust then _ else _) n₁
  split
  · rename_i hmore
    exact setBestChain_lifts hentry hmore
  · rename_i hless
    exact ⟨.refl _, fun _ _ => ⟨pindexNew, hentry, BitVec.not_lt.mp hless⟩⟩

/-- **One block.** -/
theorem acceptBlock_lifts (env : Env) (block : CBlock) (n : Node) :
    Lifts (block.getHash env) (block.acceptBlock env) n := by
  unfold Lifts
  rcases acceptBlock_cases env block n with ⟨n₁, hentered⟩ | ⟨stop, n', heq, hw⟩
  · obtain ⟨nHeight, hrest⟩ := acceptBlock_entered hentered
    have hlifts : Lifts (block.getHash env) (block.afterEntered env nHeight) n₁ := by
      unfold CBlock.afterEntered
      exact ((activateBlock_lifts env block n₁).withTxDB.onReject _).after (fun _ => Writes.frame_bind
        (rollingCheckpoints_writes nHeight) fun f => Frame.update (setRolling_writes f)) (by decide)
    obtain ⟨prev, n₀, hashProof, pos, n₂, modifier, -, -, -, hvelocity, -, hdisk, -, hnew, rfl⟩ := hentered
    have h₂ : Rises n n₂ := Rises.trans
      (.of_writes ((CBlock.limitVelocity_toggleOnly env block _).apply hvelocity).writes (by decide))
      (.of_writes ((CBlock.writeToDisk_writes block).apply hdisk) (by decide))
    have hinserted := inserts_coreKept env block n₂ pos.1 pos.2 hashProof modifier hnew
    rw [hrest]
    exact ⟨(h₂.trans ⟨hinserted, .inl ⟨rfl, rfl, rfl, rfl⟩⟩).trans hlifts.1, hlifts.2⟩
  · rw [heq]
    exact ⟨.of_writes hw (by decide), by simp⟩

end Accept

/-! ## Runs -/

theorem AcceptRun.rises {env : Env} (hrun : AcceptRun env n n') : Rises n n' := by
  induction hrun with
  | start => exact .refl n
  | idle _ hidle ih => exact ih.trans (.of_writes hidle (by decide))
  | accept block _ _ ih => exact ih.trans (acceptBlock_lifts env block _).1

/-- **The best block over a run.** It stays, or gives way to one of more trust; a tie does not move it. -/
theorem best_rises {env : Env} {n n' : Node} {tip : UInt256} (hbest : TipRecorded n tip) (hrun : AcceptRun env n n') :
    ∃ tip', TipRecorded n' tip' ∧ (tip' = tip ∧ n'.nBestChainTrust = n.nBestChainTrust
      ∨ n.nBestChainTrust < n'.nBestChainTrust) := by
  rcases hrun.rises with ⟨hcore, hsame | ⟨hlt, tip', htip⟩⟩
  · exact ⟨tip, hbest.kept hcore hsame, .inl ⟨rfl, hsame.2.2.2⟩⟩
  · exact ⟨tip', htip, .inr hlt⟩

/-- **The most trust.** Whatever else a run accepts before and after a block, the best block at its end has no less
    trust than the accepted one. -/
theorem best_outweighs {env : Env} {n m n' : Node} {tip : UInt256} {block : CBlock} (hbest : TipRecorded n tip)
    (hbefore : AcceptRun env n m) (haccepted : (block.acceptBlock env m).1 = .ok ())
    (hafter : AcceptRun env (block.acceptBlock env m).2 n') :
    ∃ tip' pindexBest pindex, n'.pindexBest = some tip' ∧ n'.mapBlockIndex.entries tip' = some pindexBest ∧
      n'.mapBlockIndex.entries (block.getHash env) = some pindex ∧ pindex.nChainTrust ≤ pindexBest.nChainTrust := by
  obtain ⟨hone, hout⟩ := acceptBlock_lifts env block m
  obtain ⟨tip', htip⟩ := ((hbefore.rises.trans hone).trans hafter.rises).recorded ⟨tip, hbest⟩
  obtain ⟨pindexBest, hentry⟩ := htip.known
  obtain ⟨pindex, hpindex, hle⟩ := hafter.rises.outweighed (hout () haccepted)
  rw [htip.nBestChainTrust pindexBest hentry] at hle
  exact ⟨tip', pindexBest, pindex, htip.pindexBest, hentry, hpindex, hle⟩

namespace Sample

theorem tipRecorded_chainNode : TipRecorded (chainNode 0) (blockHash 0) where
  pindexBest := rfl
  hashBestChain := rfl
  nBestHeight := by decide +kernel
  nBestChainTrust := by
    intro e he
    cases (show (chainNode 0).mapBlockIndex.entries (blockHash 0) = some (chainEntry 0 0) by decide).symm.trans he
    decide +kernel
  known := ⟨chainEntry 0 0, by decide⟩

theorem best_rises_sample : ∃ tip', TipRecorded strayAccepted tip' ∧
      (tip' = blockHash 0 ∧ strayAccepted.nBestChainTrust = (chainNode 0).nBestChainTrust
        ∨ (chainNode 0).nBestChainTrust < strayAccepted.nBestChainTrust) :=
  best_rises tipRecorded_chainNode strayAccepted_run

/-- The block at height 11 is accepted, and then another one on top of it. -/
theorem best_outweighs_sample : ∃ tip' pindexBest pindex, strayAccepted.pindexBest = some tip' ∧
      strayAccepted.mapBlockIndex.entries tip' = some pindexBest ∧
      strayAccepted.mapBlockIndex.entries ((chainBlock 11).getHash env) = some pindex ∧
      pindex.nChainTrust ≤ pindexBest.nChainTrust := by
  refine best_outweighs tipRecorded_chainNode (runNode_run 10 (by decide)) (by decide +kernel)
    (.accept strayBlock (.idle .start (runNode_idle 10)) ?_)
  rw [strayBlock_accepted]
  trivial

end Sample

end PupaCoin
