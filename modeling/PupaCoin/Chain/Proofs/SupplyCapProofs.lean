import PupaCoin.Chain.Proofs.EffectsProofs
import PupaCoin.Chain.Proofs.SupplyProofs

/-!
# The cap on the money supply

Every run of accepted blocks is a run of calls of `ConnectBlock` and of steps that assign no supply.
What one sound call records is at most the cap plus a subsidy, and so is what a run of sound calls
records.
-/

namespace PupaCoin

open Exec (Frame)

variable {n n' : Node} {calls : List ConnectCall}

theorem Writes.quiet {ps : List Part} (hw : Writes ps n n')
    (hps : Part.index ∉ ps ∧ Part.supply ∉ ps) : QuietStep n n' := by
  intro h e' he'
  have hindex := hw .index hps.1 h
  have hsupply := hw .supply hps.2 h
  rw [he'] at hindex hsupply
  cases he : n.mapBlockIndex.entries h with
  | none => simp [he] at hindex
  | some e =>
    simp only [he, Option.map_some, Option.some.injEq, CBlockIndex.supply, Prod.mk.injEq] at hsupply
    exact Or.inl ⟨e, rfl, hsupply.2⟩

theorem addBlock_quiet (env : Env) (n : Node) (nFile nBlockPos : UInt32) (block : CBlock)
    (hashProof : UInt256) (modifier : UInt64 × Bool) (hnew : n.mapBlockIndex.entries (block.getHash env) = none) :
    QuietStep n { n with mapBlockIndex :=
      n.mapBlockIndex.addBlock env nFile nBlockPos block hashProof modifier hnew } := by
  intro h e' he'
  by_cases hh : h = block.getHash env
  · subst hh
    refine Or.inr ?_
    have : newBlockIndex env (n.mapBlockIndex.entries block.hashPrevBlock) nFile nBlockPos block
        hashProof modifier = e' := by
      simpa [BlockTree.addBlock, BlockTree.insert, newBlockIndex] using he'
    rw [← this]
    rfl
  · refine Or.inl ⟨e', ?_, rfl⟩
    simpa [BlockTree.addBlock, BlockTree.insert, newBlockIndex, hh] using he'

/-- Some run of the supply leads from `n` to `n'`. -/
def Supplies (env : Env) (n n' : Node) : Prop := ∃ calls, SupplyRun env n calls n'

theorem SupplyRun.append {env : Env} {a b c : Node} {more : List ConnectCall}
    (hab : SupplyRun env a calls b) (hbc : SupplyRun env b more c) : SupplyRun env a (calls ++ more) c := by
  induction hbc with
  | start => rwa [List.append_nil]
  | quiet _ hq ih => exact ih.quiet hq
  | connect call _ ih =>
    rw [← List.append_assoc]
    exact ih.connect call

namespace Supplies

variable {env : Env} {α β : Type} {m : NodeM α} {f : α → NodeM β}

theorem refl (env : Env) (n : Node) : Supplies env n n := ⟨[], .start⟩

theorem trans (env : Env) (a b c : Node) (hab : Supplies env a b) (hbc : Supplies env b c) : Supplies env a c := by
  obtain ⟨calls, hab⟩ := hab
  obtain ⟨more, hbc⟩ := hbc
  exact ⟨calls ++ more, hab.append hbc⟩

theorem of_quiet (h : QuietStep n n') : Supplies env n n' := ⟨[], .quiet .start h⟩

theorem acceptFrame (env : Env) : AcceptFrame env (Supplies env) where
  refl := refl env
  trans := trans env
  quiet := fun _ _ hw => of_quiet (hw.quiet (by decide))
  connect := fun block h fJustCheck n => ⟨_, SupplyRun.connect ⟨n, block, h, fJustCheck⟩ .start⟩

theorem acceptBlock (env : Env) (block : CBlock) : Frame (Supplies env) (block.acceptBlock env) :=
  (acceptFrame env).acceptBlock fun n nFile nBlockPos hashProof modifier hnew =>
    of_quiet (addBlock_quiet env n nFile nBlockPos block hashProof modifier hnew)

end Supplies

theorem AcceptRun.supplies {env : Env} (hrun : AcceptRun env n n') : Supplies env n n' := by
  induction hrun with
  | start => exact Supplies.refl env n
  | idle _ hidle ih =>
    exact Supplies.trans env _ _ _ ih (Supplies.of_quiet (hidle.quiet (by decide)))
  | accept block _ _ ih => exact Supplies.trans env _ _ _ ih (Supplies.acceptBlock env block _)

/-- What `ConnectBlock` writes besides the supply. -/
def unsupplied : List Part := [.delay, .limits, .sizes, .cache, .records, .batch, .wallet]

theorem connectBlock_supply (env : Env) (block : CBlock) (h : UInt256) (fJustCheck : Bool) (n : Node) :
    Writes unsupplied n (block.connectBlock env h fJustCheck n).2 ∨
      ∃ pindex n1 st, CBlock.Approves env block h fJustCheck n pindex n1 st ∧
        Writes unsupplied (CBlock.supplyRecorded env n1 h pindex st)
          (block.connectBlock env h fJustCheck n).2 := by
  have hpay : Writes unsupplied n (CBlock.paymentStep env block n).2 := by
    unfold CBlock.paymentStep
    split
    · intro p hp
      cases p <;> simp [Part.Same, CBlock.restartDelay, unsupplied] at hp ⊢
    · exact Writes.refl _ n
  have hlimits : ∀ {pindex : CBlockIndex} {r : Except Stop Unit} {t : Node},
      CBlock.setLimits pindex (CBlock.paymentStep env block n).2 = (r, t) → Writes unsupplied n t :=
    fun hl => Writes.trans _ _ _ _ hpay
      (((CBlock.setLimits_writes _).apply hl).mono (by decide))
  rcases hr : block.connectBlock env h fJustCheck n with ⟨r, t⟩
  have houtcome := CBlock.connectBlock_outcome env block h fJustCheck n
  rw [hr] at houtcome
  cases houtcome with
  | unchecked check =>
    exact Or.inl (((CBlock.checkBlock_writes env block _ _ _).apply check).mono (by decide))
  | noEntry => exact Or.inl hpay
  | noLimits _ _ limits => exact Or.inl (hlimits limits)
  | refused _ _ limits => exact Or.inl (hlimits limits)
  | @approved pindex n1 st _ approves writes =>
    refine Or.inr ⟨pindex, n1, st, approves, ?_⟩
    have hframe : Frame (Writes unsupplied)
        (if fJustCheck then pure () else CBlock.connectWrites env block pindex st : NodeM Unit) := by
      split
      · exact Writes.frame_pure _
      · exact Writes.frame_mono (CBlock.connectWrites_writes env block pindex st) (by decide)
    exact hframe.apply writes

theorem blockReward_le (nMoneySupply nHeight : Int) : blockReward nMoneySupply nHeight 0 ≤ nBlockRewardReserve := by
  unfold blockReward
  have hstandard : nBlockStandardReward ≤ nBlockRewardReserve := by decide
  have hreserve : 0 ≤ nBlockRewardReserve := by decide
  split_ifs <;> omega

/-- What a run keeps: no entry records more than the cap and one subsidy. -/
def Capped (n : Node) : Prop := ∀ h e, n.mapBlockIndex.entries h = some e →
  e.nMoneySupply ≤ maxSingleTx + nBlockRewardReserve

theorem QuietStep.capped (hq : QuietStep n n') (hcap : Capped n) : Capped n' := by
  intro h e' he'
  rcases hq h e' he' with ⟨e, he, heq⟩ | hzero
  · rw [heq]
    exact hcap h e he
  · rw [hzero]
    decide

theorem ConnectCall.after_capped {env : Env} {call : ConnectCall} (hsound : call.Sound)
    (hcap : Capped call.node) : Capped (call.after env) := by
  obtain ⟨n, block, h, fJustCheck⟩ := call
  rcases connectBlock_supply env block h fJustCheck n with hquiet | ⟨pindex, n1, st, hc, hrec⟩
  · exact (hquiet.quiet (by decide)).capped hcap
  · obtain ⟨nMoneySupply, _, hs1⟩ := hc.supply
    have hissue := hc.netIssue_le hs1 (CBlock.stakeIssue_of_none hc.totals.1 hsound.2).le
    have hsubsidy := blockReward_le nMoneySupply pindex.nHeight
    have htotals := hc.totals.2.1
    have hprev : CBlock.prevMoneySupply n pindex ≤ maxSingleTx := hsound.1 pindex hc.entry
    obtain ⟨_, _, _, _, _, _, _, hn1⟩ := hc.limitsOnly
    have htree : n1.mapBlockIndex = n.mapBlockIndex := by rw [hn1]
    have hrecorded : Capped (CBlock.supplyRecorded env n1 h pindex st) := by
      intro k e he
      simp only [CBlock.supplyRecorded, Node.mapBlockIndex_dbApply, BlockTree.entries_setSupply] at he
      split at he
      · rw [htree, hc.entry, Option.map_some, Option.some.injEq] at he
        have hprev1 : CBlock.prevMoneySupply n1 pindex = CBlock.prevMoneySupply n pindex := by
          rw [CBlock.prevMoneySupply, CBlock.prevMoneySupply, htree]
        rw [← he]
        simp only [hprev1]
        omega
      · rw [htree] at he
        exact hcap k e he
    exact (hrec.quiet (by decide)).capped hrecorded

/-- **A run of sound calls.** By induction on the run. -/
theorem SupplyRun.capped {env : Env}
    (hrun : SupplyRun env n calls n') (hsound : ∀ call ∈ calls, call.Sound) (hcap : Capped n) : Capped n' := by
  induction hrun with
  | start => exact hcap
  | quiet _ hq ih => exact hq.capped (ih hsound)
  | connect call _ ih =>
    exact ConnectCall.after_capped (hsound call (by simp))
      (ih fun c hc => hsound c (List.mem_append_left _ hc))

theorem GenesisState.capped {env : Env} (hgen : GenesisState env n) : Capped n := by
  intro h e he
  obtain ⟨g, hg, _, _, hzero, _⟩ := hgen.entry
  rw [hgen.only h e he, hg] at he
  cases he
  rw [hzero]
  decide

theorem blockReward_eq_fees_iff {nMoneySupply : Int} (hcap : nMoneySupply > maxSingleTx) (nHeight nFees : Int) :
    blockReward nMoneySupply nHeight nFees = nFees ↔ nHeight ≤ nReservePhaseStart := by
  unfold blockReward
  have hstandard : 0 < nBlockStandardReward := by decide
  have hreserve : 0 < nBlockRewardReserve := by decide
  split_ifs <;> constructor <;> intro h <;> omega

/-- **The cap.** Above the cap both rewards are the fees alone exactly at the first height. A run of
    sound calls of `ConnectBlock` from the genesis block records no more than the cap and one subsidy,
    and every run of accepted blocks is a run of such calls, sound or not. -/
theorem moneySupply_cap (env : Env) : (∀ (n : Node) (nMoneySupply : Int), bestMoneySupply n = .ok nMoneySupply →
      nMoneySupply > maxSingleTx → ∀ nFees : Int,
        (∀ nHeight, getProofOfWorkReward n nHeight nFees = .ok nFees ↔ nHeight ≤ nReservePhaseStart) ∧
        ∀ (pindexPrev : CBlockIndex) (nCoinAge : Nat), getProofOfStakeReward n pindexPrev nCoinAge nFees = .ok nFees ↔
            (pindexPrev.nHeight : Int) + 1 ≤ nReservePhaseStart) ∧
    (∀ (n0 n : Node) (calls : List ConnectCall), GenesisState env n0 → SupplyRun env n0 calls n →
      (∀ call ∈ calls, call.Sound) → ∀ h e, n.mapBlockIndex.entries h = some e →
        e.nMoneySupply ≤ maxSingleTx + nBlockRewardReserve) ∧
    ∀ n0 n : Node, AcceptRun env n0 n → ∃ calls, SupplyRun env n0 calls n := by
  refine ⟨fun n nMoneySupply hs hcap nFees => ⟨fun nHeight => ?_, fun pindexPrev nCoinAge => ?_⟩,
    fun n0 n calls hgen hrun hsound => hrun.capped hsound hgen.capped,
    fun n0 n hrun => hrun.supplies⟩
  · rw [← blockReward_eq_fees_iff hcap nHeight nFees]
    simp [getProofOfWorkReward, hs, bind, Except.bind, pure, Except.pure]
  · rw [← blockReward_eq_fees_iff hcap _ nFees]
    simp [getProofOfStakeReward, hs, bind, Except.bind, pure, Except.pure]

namespace Sample

theorem chainNode_genesis : GenesisState env (chainNode 0) where
  pindexGenesisBlock := by decide
  pindexBest := by decide +kernel
  hashBestChain := by decide
  nBestHeight := by decide
  only := by
    intro h e he
    change chainEntries 0 h = some e at he
    unfold chainEntries at he
    split at he
    · apply BitVec.eq_of_toNat_eq
      change h.toNat = 1
      omega
    · cases he
  entry := ⟨chainEntry 0 0, by decide⟩
  activeBatch := by decide
  committedBest := by decide
  committedTx := by
    intro h
    unfold chainNode chainDb
    simp only
    rw [if_neg (by omega)]

theorem runNode_idle (k : Nat) :
    Writes idleParts ((chainBlock (k + 1)).acceptBlock env (runNode k)).2 (runNode (k + 1)) := by
  intro p hp
  cases p <;> simp [Part.Same, idleParts, runNode] at hp ⊢

theorem runNode_run (k : Nat) (hk : k ≤ 11) : AcceptRun env (chainNode 0) (runNode k) := by
  have haccepted : ∀ k < 11, ((chainBlock (k + 1)).acceptBlock env (runNode k)).1 = .ok () := by
    decide +kernel
  induction k with
  | zero => exact .start
  | succ k ih =>
    refine .idle (.accept (chainBlock (k + 1)) (ih (by omega)) ?_) (runNode_idle k)
    rw [haccepted k (by omega)]
    trivial

theorem strayBlock_accepted : (strayBlock.acceptBlock env (runNode 11)).1 = .ok () := by decide +kernel

def strayAccepted : Node := (strayBlock.acceptBlock env (runNode 11)).2

theorem strayAccepted_run : AcceptRun env (chainNode 0) strayAccepted := by
  refine .accept strayBlock (runNode_run 11 le_rfl) ?_
  rw [strayBlock_accepted]
  trivial

/-- The supply at the best block passes the cap, and the next block is still owed five coins. -/
theorem strayAccepted_passes_cap : ¬ ∀ (env : Env) (n0 n : Node), GenesisState env n0 → AcceptRun env n0 n →
      ∀ nMoneySupply, bestMoneySupply n = .ok nMoneySupply → nMoneySupply > maxSingleTx →
        ∀ nHeight nFees, getProofOfWorkReward n nHeight nFees = .ok nFees := by
  intro hall
  have hreward := hall env (chainNode 0) strayAccepted chainNode_genesis strayAccepted_run
    (21000055 * coin) (by decide +kernel) (by decide) 13 0
  have hfive : getProofOfWorkReward strayAccepted 13 0 = .ok (5 * coin) := by decide +kernel
  rw [hfive] at hreward
  exact absurd hreward (by decide)

def firstNode : Node :=
  { chainNode 0 with
    mapBlockIndex := (chainTree 0).addBlock env 1 (blockPos 1) (chainBlock 1) 2 (0, false) rfl }

def firstCall : ConnectCall := ⟨firstNode, chainBlock 1, blockHash 1, false⟩

theorem moneySupply_cap_sample : (getProofOfWorkReward strayAccepted 13 0 = .ok 0 ↔ (13 : Int) ≤ nReservePhaseStart) ∧
    (∀ h e, (firstCall.after env).mapBlockIndex.entries h = some e →
      e.nMoneySupply ≤ maxSingleTx + nBlockRewardReserve) ∧
    ∃ calls, SupplyRun env (chainNode 0) calls strayAccepted := by
  obtain ⟨hreward, hcap, hrun⟩ := moneySupply_cap env
  refine ⟨(hreward strayAccepted (21000055 * coin) (by decide +kernel) (by decide) 0).1 13,
    hcap (chainNode 0) _ [firstCall] chainNode_genesis ?_ ?_, hrun _ _ strayAccepted_run⟩
  · exact SupplyRun.connect firstCall
      (.quiet .start (addBlock_quiet env (chainNode 0) 1 (blockPos 1) (chainBlock 1) 2 (0, false) rfl))
  · intro call hcall
    rw [List.mem_singleton.mp hcall]
    refine ⟨fun pindex hp => ?_, by simp [firstCall, chainBlock]⟩
    have hentry : firstNode.mapBlockIndex.entries (blockHash 1)
        = some (newBlockIndex env (some (chainEntry 0 0)) 1 (blockPos 1) (chainBlock 1) 2 (0, false)) := by
      decide
    have heq := Option.some.inj (hentry.symm.trans hp)
    rw [← heq]
    decide

end Sample

end PupaCoin
