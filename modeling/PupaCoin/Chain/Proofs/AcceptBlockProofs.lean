import PupaCoin.Chain.Proofs.EffectsProofs

/-!
# What a successful `AcceptBlock` did

Velocity writes nothing but `VELOCITY_FACTOR`, so the checks of `AcceptBlock` run on the node it was
called on but for that toggle. `acceptBlock_returns` takes a call that returns apart.
-/

namespace PupaCoin

open Exec (Frame)

variable {env : Env} {block : CBlock} {n : Node}

/-- `n'` differs from `n` at most in the toggle of the transaction factor. -/
def ToggleOnly (n n' : Node) : Prop := ∃ velocityFactor, n' = { n with velocityFactor }

theorem ToggleOnly.refl (n : Node) : ToggleOnly n n := ⟨_, rfl⟩

theorem ToggleOnly.trans (a b c : Node) (hab : ToggleOnly a b) (hbc : ToggleOnly b c) : ToggleOnly a c := by
  obtain ⟨_, rfl⟩ := hab
  obtain ⟨_, rfl⟩ := hbc
  exact ⟨_, rfl⟩

theorem velocityI_toggleOnly (env : Env) (nHeight : Int) : Frame ToggleOnly (velocityI env nHeight) :=
  Frame.bind ToggleOnly.trans (Frame.update fun _ => ⟨_, rfl⟩) fun _ => Frame.pure ToggleOnly.refl _

theorem velocityCheck_toggleOnly (env : Env) (nHeight : Int) : Frame ToggleOnly (velocityCheck env nHeight) :=
  Frame.bind ToggleOnly.trans (velocityI_toggleOnly env nHeight) fun _ =>
    Frame.pure ToggleOnly.refl _

theorem velocity_toggleOnly (env : Env) (hprev : UInt256) (block : CBlock) (fFactorTx : Bool) :
    Frame ToggleOnly (velocity env hprev block fFactorTx) := by
  unfold velocity
  refine Frame.bind ToggleOnly.trans (fun n => ToggleOnly.refl n) fun prevBlock =>
    Frame.bind ToggleOnly.trans (velocityI_toggleOnly env _) fun i =>
      Frame.bind ToggleOnly.trans (Frame.read ToggleOnly.refl) fun n =>
        Frame.bind ToggleOnly.trans (Frame.lift ToggleOnly.refl _) fun prevprev => ?_
  split
  · exact Frame.bind ToggleOnly.trans (Frame.lift ToggleOnly.refl _) fun _ =>
      Frame.lift ToggleOnly.refl _
  · exact Frame.lift ToggleOnly.refl _

theorem CBlock.limitVelocity_toggleOnly (env : Env) (block : CBlock) (nHeight : Int) :
    Frame ToggleOnly (block.limitVelocity env nHeight) := by
  unfold limitVelocity
  refine Frame.bind ToggleOnly.trans (velocityCheck_toggleOnly env nHeight) fun limited => ?_
  split
  · exact onReject_frame ToggleOnly.trans (velocity_toggleOnly env _ _ _)
      (Frame.stop ToggleOnly.refl _)
  · exact Frame.pure ToggleOnly.refl _

theorem CBlock.acceptBlock_returns {n' : Node}
    (h : block.acceptBlock env n = (.ok (), n')) :
    ∃ prev n1 hashProof, n.mapBlockIndex.entries block.hashPrevBlock = some prev ∧
      n.mapBlockIndex.entries (block.getHash env) = none ∧ ToggleOnly n n1 ∧
      block.checkContext env n1 (n1.mapBlockIndex.chain block.hashPrevBlock) = .ok hashProof ∧
      block.storeBlock env (prev.nHeight + 1) hashProof n1 = (.ok (), n') := by
  unfold acceptBlock at h
  obtain ⟨_, _, hread, h⟩ := Exec.bind_returns.mp h
  cases hread
  obtain ⟨_, _, hnew, h⟩ := Exec.bind_returns.mp h
  simp only [Exec.lift_apply, Prod.mk.injEq, rejectIf_eq_ok, Option.isSome_eq_false_iff,
    Option.isNone_iff_eq_none] at hnew
  obtain ⟨hnew, rfl⟩ := hnew
  rw [BlockTree.head?_chain] at h
  cases hprev : n.mapBlockIndex.entries block.hashPrevBlock with
  | none => simp [hprev] at h
  | some prev =>
    simp only [hprev, Exec.bind_returns, Exec.lift_apply, Exec.read_apply, Prod.mk.injEq, Except.ok.injEq] at h
    obtain ⟨_, _, ⟨_, rfl⟩, _, _, ⟨_, rfl⟩, _, n1, hlimit, _, _, ⟨rfl, rfl⟩, hashProof, _,
      ⟨hcontext, rfl⟩, hstore⟩ := h
    exact ⟨prev, _, hashProof, rfl, hnew, (limitVelocity_toggleOnly env block _).apply hlimit, hcontext, hstore⟩

theorem CBlock.checkContext_proofHash {pindexPrev : List CBlockIndex}
    {hashProof : UInt256} (h : block.checkContext env n pindexPrev = .ok hashProof) :
    block.proofHash env n pindexPrev = .ok hashProof := by
  unfold checkContext at h
  simp only [Guards.bind_eq_ok] at h
  obtain ⟨_, _, _, _, _, _, _, _, _, _, _, _, _, _, hash, hproof, _, _, _, _, _, _, heq⟩ := h
  cases heq
  exact hproof

end PupaCoin
