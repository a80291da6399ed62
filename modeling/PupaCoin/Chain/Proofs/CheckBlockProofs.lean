import PupaCoin.Chain.CheckBlock

/-!
# What a successful `CheckBlock` establishes

`checkBlock_returns` takes a call that returns apart into its parts; the other theorems read single
facts off these parts. The only thing `CheckBlock` writes is the delay of the payment checks.
-/

namespace PupaCoin

variable {fCheckPOW fCheckMerkleRoot fCheckSig : Bool}

namespace CBlock

variable {env : Env} {block : CBlock} {n n' : Node}

theorem checkBlock_apply (fCheckPOW fCheckMerkleRoot fCheckSig : Bool) :
    block.checkBlock env fCheckPOW fCheckMerkleRoot fCheckSig n =
      match block.checkStructure env n fCheckPOW fCheckSig, block.checkTransactionLocks env n.ext,
        orUndefined (n.pindexBest.bind n.mapBlockIndex.entries) "pindexBest",
        (paymentStep env block n).1 with
      | .error e, _, _, _ => (.error e, n)
      | _, .error e, _, _ => (.error e, n)
      | _, _, .error e, _ => (.error e, n)
      | _, _, _, .error e => (.error e, (paymentStep env block n).2)
      | .ok _, .ok _, .ok _, .ok _ =>
        (block.checkTransactions env n fCheckMerkleRoot, (paymentStep env block n).2) := by
  unfold checkBlock paymentStep
  simp only [Exec.bind_apply, Exec.read_apply, Exec.lift_apply]
  cases block.checkStructure env n fCheckPOW fCheckSig <;> simp only
  cases block.checkTransactionLocks env n.ext <;> simp only
  cases orUndefined (n.pindexBest.bind n.mapBlockIndex.entries) "pindexBest" <;> simp only
  by_cases hp : checksPayments n
  · simp only [hp, if_true, Exec.bind_apply, Exec.update_apply, Exec.lift_apply]
    cases block.checkPayments env n <;> rfl
  · simp only [hp, Bool.false_eq_true, if_false]
    rfl

theorem checkBlock_returns : block.checkBlock env fCheckPOW fCheckMerkleRoot fCheckSig n = (.ok (), n') ↔
      Checked env block n fCheckPOW fCheckMerkleRoot fCheckSig ∧ n' = (paymentStep env block n).2 := by
  rw [checkBlock_apply]
  constructor
  · intro h
    split at h
    · cases h
    · cases h
    · cases h
    · cases h
    · rename_i h1 h2 h3 h4
      simp only [Prod.mk.injEq] at h
      refine ⟨⟨h1, h2, ⟨_, orUndefined_eq_ok.mp h3⟩, fun hp => ?_, h.1⟩, h.2.symm⟩
      simpa [paymentStep, hp] using h4
  · rintro ⟨⟨h1, h2, ⟨pindexBest, h3⟩, h4, h5⟩, rfl⟩
    have hpay : (paymentStep env block n).1 = .ok () := by
      unfold paymentStep
      by_cases hp : checksPayments n
      · simp [hp, h4 hp]
      · simp [hp]
    rw [h1, h2, h3, hpay, h5]
    rfl

theorem checkBlock_state (env : Env) (block : CBlock) (n : Node) (fCheckPOW fCheckMerkleRoot fCheckSig : Bool) :
    (block.checkBlock env fCheckPOW fCheckMerkleRoot fCheckSig n).2 = n ∨
      (block.checkBlock env fCheckPOW fCheckMerkleRoot fCheckSig n).2 = restartDelay n := by
  have hstep : (paymentStep env block n).2 = n ∨ (paymentStep env block n).2 = restartDelay n := by
    unfold paymentStep
    split
    · exact Or.inr rfl
    · exact Or.inl rfl
  rw [checkBlock_apply]
  split
  · exact Or.inl rfl
  · exact Or.inl rfl
  · exact Or.inl rfl
  · exact hstep
  · exact hstep

/-- What `checkStructure` says about the transactions: one coinbase in front, and in a proof-of-stake
    block an empty coinbase and no coinstake behind the second transaction. -/
structure WellPlaced (block : CBlock) : Prop where
  coinbase_head : ∃ coinbase rest, block.vtx = coinbase :: rest ∧ coinbase.isCoinBase = true
  coinbase_tail : ∀ tx ∈ block.vtx.tail, tx.isCoinBase = false
  coinbase_empty : block.isProofOfStake = true → block.hasEmptyCoinbase = true
  coinstake_tail : block.isProofOfStake = true → ∀ tx ∈ block.vtx.drop 2, tx.isCoinStake = false

theorem checkStructure_wellPlaced (h : block.checkStructure env n fCheckPOW fCheckSig = .ok ())
    : block.WellPlaced := by
  unfold checkStructure at h
  simp only [Guards.bind_eq_ok, rejectIf_eq_ok] at h
  obtain ⟨_, hsize, _, _, _, _, _, hhead, _, htail, _, hempty, _, hstake, _⟩ := h
  refine ⟨?_, ?_, ?_, ?_⟩
  · cases hv : block.vtx with
    | nil => simp [hv] at hsize
    | cons coinbase rest => exact ⟨coinbase, rest, rfl, by simpa [hv] using hhead⟩
  · intro tx htx
    have := List.any_eq_false.mp htail tx htx
    simpa using this
  · intro hpos
    simpa [hpos] using hempty
  · intro hpos tx htx
    rw [hpos, Bool.true_and] at hstake
    have := List.any_eq_false.mp hstake tx htx
    simpa using this

theorem checkTransactions_nodup (h : block.checkTransactions env n fCheckMerkleRoot = .ok ()) :
    (block.vtx.map env.getHash).Nodup := by
  unfold checkTransactions at h
  simp only [Guards.bind_eq_ok, rejectIf_eq_ok] at h
  obtain ⟨_, _, _, hnodup, _⟩ := h
  simpa using hnodup

end CBlock

end PupaCoin
