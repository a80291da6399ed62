import PupaCoin.Chain.ConnectBlock
import PupaCoin.Chain.Proofs.CheckBlockProofs

/-!
# What a successful `ConnectBlock` did

`connectBlock_returns` takes a call that returns apart into its phases, `connectTx_of_coinbase` and
`connectTx_of_spending` take one round of its loop apart. The checks in front of the loop write nothing
but limits and statistics (`LimitsOnly`).
-/

namespace PupaCoin

variable {pindex : CBlockIndex} {nIn nOut : Int}

/-- `n'` differs from `n` at most in the block limits, the statistics behind them and the delay of the
    payment checks. -/
def LimitsOnly (n n' : Node) : Prop :=
  ∃ delay sizes sorted cache size blockSigops txSigops, n' = { n with
    nMasterNodeChecksDelayBaseTime := delay
    blocksizes := sizes, sorted := sorted, pblockindexFBBHLast := cache
    maxBlockSize := size, maxBlockSigops := blockSigops, maxTxSigops := txSigops }

theorem LimitsOnly.refl (n : Node) : LimitsOnly n n := ⟨_, _, _, _, _, _, _, rfl⟩

theorem LimitsOnly.trans (a b c : Node) (hab : LimitsOnly a b) (hbc : LimitsOnly b c) : LimitsOnly a c := by
  obtain ⟨_, _, _, _, _, _, _, rfl⟩ := hab
  obtain ⟨_, _, _, _, _, _, _, rfl⟩ := hbc
  exact ⟨_, _, _, _, _, _, _, rfl⟩

namespace CBlock

variable {env : Env} {block : CBlock} {n n' : Node} {h : UInt256} {fJustCheck : Bool}

theorem setLimits_limitsOnly (pindex : CBlockIndex) : Exec.Frame LimitsOnly (setLimits pindex) := by
  unfold setLimits BlockSizeCalculator.computeBlockSize
    BlockSizeCalculator.computeBlockSizeOf
  refine Exec.Frame.bind LimitsOnly.trans (Exec.Frame.bind LimitsOnly.trans
    (Exec.Frame.read LimitsOnly.refl) fun n => Exec.Frame.bind LimitsOnly.trans
      (Exec.Frame.lift LimitsOnly.refl _) fun sizes => ?_) fun size => ?_
  · exact Exec.Frame.bind LimitsOnly.trans (Exec.Frame.lift LimitsOnly.refl _) fun _ =>
      Exec.Frame.bind LimitsOnly.trans (Exec.Frame.update fun _ => ⟨_, _, _, _, _, _, _, rfl⟩) fun _ =>
        Exec.Frame.pure LimitsOnly.refl _
  · exact Exec.Frame.update fun _ => ⟨_, _, _, _, _, _, _, rfl⟩

theorem recordSupply_apply (hp : n.mapBlockIndex.entries h = some pindex) (st : ConnectState)
    : recordSupply env h st n = (.ok (), supplyRecorded env n h pindex st) := by
  unfold recordSupply supplyRecorded
  simp [Exec.bind_apply, hp, orUndefined]

/-- The phases of a call of `ConnectBlock` that returns. -/
structure Connects (env : Env) (block : CBlock) (h : UInt256) (fJustCheck : Bool) (n n' : Node)
    (pindex : CBlockIndex) (n1 : Node) (st : ConnectState) : Prop
    extends Approves env block h fJustCheck n pindex n1 st where
  writes : (if fJustCheck then pure () else connectWrites env block pindex st : NodeM Unit)
    (supplyRecorded env n1 h pindex st) = (.ok (), n')

theorem paymentStep_limitsOnly (env : Env) (block : CBlock) (n : Node) :
    LimitsOnly n (paymentStep env block n).2 := by
  unfold paymentStep
  split
  · exact ⟨_, _, _, _, _, _, _, rfl⟩
  · exact LimitsOnly.refl n

@[simp] theorem paymentStep_mapBlockIndex (env : Env) (block : CBlock) (n : Node) :
    (paymentStep env block n).2.mapBlockIndex = n.mapBlockIndex := by
  obtain ⟨_, _, _, _, _, _, _, hn⟩ := paymentStep_limitsOnly env block n
  rw [hn]

theorem Approves.limitsOnly {n1 : Node} {st : ConnectState}
    (hc : Approves env block h fJustCheck n pindex n1 st) : LimitsOnly n n1 :=
  LimitsOnly.trans _ _ _ (paymentStep_limitsOnly env block n)
    ((setLimits_limitsOnly pindex).apply hc.limits)

theorem connectBlock_returns : block.connectBlock env h fJustCheck n = (.ok (), n') ↔
      ∃ pindex n1 st, Connects env block h fJustCheck n n' pindex n1 st := by
  have hentry := paymentStep_mapBlockIndex env block n
  constructor
  · intro hret
    unfold connectBlock at hret
    simp only [Exec.bind_returns] at hret
    obtain ⟨_, _, hcheck, pindex, _, hderef, _, n1, hlim, _, _, hread, st, _, hloop, _, _, hrew,
      _, n2, hrec, hwrites⟩ := hret
    obtain ⟨hchecked, rfl⟩ := checkBlock_returns.mp hcheck
    obtain ⟨hpin, rfl⟩ := deref_returns.mp hderef
    simp only [Exec.read_apply, Prod.mk.injEq, Except.ok.injEq] at hread
    obtain ⟨rfl, rfl⟩ := hread
    simp only [Exec.lift_apply, Prod.mk.injEq] at hloop hrew
    obtain ⟨hloop, rfl⟩ := hloop
    obtain ⟨hrew, rfl⟩ := hrew
    obtain ⟨_, _, _, _, _, _, _, hn1⟩ := (setLimits_limitsOnly pindex).apply hlim
    have hpin1 : n1.mapBlockIndex.entries h = some pindex := by
      rw [hn1]
      exact hpin
    rw [recordSupply_apply hpin1] at hrec
    simp only [Prod.mk.injEq, true_and] at hrec
    subst hrec
    exact ⟨pindex, n1, st, ⟨hchecked, hentry ▸ hpin, hlim, hloop, hrew⟩, hwrites⟩
  · rintro ⟨pindex, n1, st, hc⟩
    have hpin1 : n1.mapBlockIndex.entries h = some pindex := by
      obtain ⟨_, _, _, _, _, _, _, hn1⟩ := hc.limitsOnly
      rw [hn1]
      exact hc.entry
    unfold connectBlock
    simp only [Exec.bind_returns]
    refine ⟨(), _, checkBlock_returns.mpr ⟨hc.checked, rfl⟩, pindex, _, ?_, (), n1, hc.limits, n1, n1,
      rfl, st, n1, ?_, (), n1, ?_, (), _, recordSupply_apply hpin1 st, hc.writes⟩
    · exact deref_returns.mpr ⟨hentry ▸ hc.entry, rfl⟩
    · simp only [Exec.lift_apply, hc.loop]
    · simp only [Exec.lift_apply, hc.reward]

/-- The ways in which a call of `ConnectBlock` ends: its result and the node it leaves. -/
inductive ConnectOutcome (env : Env) (block : CBlock) (h : UInt256) (fJustCheck : Bool) (n : Node) :
    Except Stop Unit × Node → Prop
  /-- `CheckBlock` fails. -/
  | unchecked {e : Stop} {t : Node}
      (check : block.checkBlock env (!fJustCheck) (!fJustCheck) false n = (.error e, t)) :
      ConnectOutcome env block h fJustCheck n (.error e, t)
  /-- The block has no entry. -/
  | noEntry {e : Stop} (checked : Checked env block n (!fJustCheck) (!fJustCheck) false)
      (entry : n.mapBlockIndex.entries h = none) (undef : ∃ what, e = .undefined what) :
      ConnectOutcome env block h fJustCheck n (.error e, (paymentStep env block n).2)
  /-- The limits cannot be computed. -/
  | noLimits {pindex : CBlockIndex} {e : Stop} {t : Node}
      (checked : Checked env block n (!fJustCheck) (!fJustCheck) false)
      (entry : n.mapBlockIndex.entries h = some pindex)
      (limits : setLimits pindex (paymentStep env block n).2 = (.error e, t)) :
      ConnectOutcome env block h fJustCheck n (.error e, t)
  /-- The loop or the check of the reward fails. -/
  | refused {pindex : CBlockIndex} {n1 : Node} {e : Stop}
      (checked : Checked env block n (!fJustCheck) (!fJustCheck) false)
      (entry : n.mapBlockIndex.entries h = some pindex)
      (limits : setLimits pindex (paymentStep env block n).2 = (.ok (), n1))
      (refusal : (block.vtx.foldlM (connectTx env n1 pindex fJustCheck)
        (connectInit pindex block fJustCheck) >>= checkReward n1 pindex block) = .error e) :
      ConnectOutcome env block h fJustCheck n (.error e, n1)
  /-- Everything is checked, and the writes follow. -/
  | approved {pindex : CBlockIndex} {n1 : Node} {st : ConnectState} {r : Except Stop Unit × Node}
      (approves : Approves env block h fJustCheck n pindex n1 st)
      (writes : (if fJustCheck then pure () else connectWrites env block pindex st : NodeM Unit)
        (supplyRecorded env n1 h pindex st) = r) : ConnectOutcome env block h fJustCheck n r

theorem connectBlock_outcome (env : Env) (block : CBlock) (h : UInt256) (fJustCheck : Bool) (n : Node) :
    ConnectOutcome env block h fJustCheck n (block.connectBlock env h fJustCheck n) := by
  unfold connectBlock
  rcases h1 : block.checkBlock env (!fJustCheck) (!fJustCheck) false n with ⟨r1, t1⟩
  cases r1 with
  | error e =>
    rw [Exec.bind_of_error h1]
    exact .unchecked h1
  | ok _ =>
    obtain ⟨hchecked, rfl⟩ := checkBlock_returns.mp h1
    rw [Exec.bind_of_ok h1, Exec.bind_apply, deref_apply, paymentStep_mapBlockIndex]
    cases hentry : n.mapBlockIndex.entries h with
    | none => exact .noEntry hchecked hentry ⟨_, rfl⟩
    | some pindex =>
      simp only [orUndefined]
      rcases h2 : setLimits pindex (paymentStep env block n).2 with ⟨r2, n1⟩
      cases r2 with
      | error e =>
        rw [Exec.bind_of_error h2]
        exact .noLimits hchecked hentry h2
      | ok _ =>
        rw [Exec.bind_of_ok h2, Exec.read_bind]
        cases h3 : block.vtx.foldlM (connectTx env n1 pindex fJustCheck)
            (connectInit pindex block fJustCheck) with
        | error e => exact .refused hchecked hentry h2 (by rw [h3]; rfl)
        | ok st =>
          rw [Exec.bind_apply, Exec.lift_apply]
          simp only
          cases h4 : checkReward n1 pindex block st with
          | error e => exact .refused hchecked hentry h2 (by rw [h3]; exact h4)
          | ok _ =>
            have happroves : Approves env block h fJustCheck n pindex n1 st :=
              ⟨hchecked, hentry, h2, h3, h4⟩
            have hentry1 : n1.mapBlockIndex.entries h = some pindex := by
              obtain ⟨_, _, _, _, _, _, _, hn1⟩ := happroves.limitsOnly
              rw [hn1]
              exact hentry
            rw [Exec.bind_apply, Exec.lift_apply]
            simp only
            rw [Exec.bind_of_ok (recordSupply_apply hentry1 st)]
            exact .approved happroves rfl

section Round

variable {pindex : CBlockIndex} {st st' : ConnectState} {tx : CTransaction}

def txPos (pindex : CBlockIndex) (st : ConnectState) : CDiskTxPos :=
  ⟨pindex.nFile, pindex.nBlockPos, st.nTxPos⟩

def nextTxPos (fJustCheck : Bool) (st : ConnectState) (tx : CTransaction) : UInt32 :=
  if fJustCheck then st.nTxPos else st.nTxPos + UInt32.ofNat tx.serializeSize

theorem connectTx_of_coinbase (hcb : tx.isCoinBase = true) (h : connectTx env n pindex fJustCheck st tx = .ok st') :
    ∃ nValueOut, tx.getValueOut = .ok nValueOut ∧ st' = {
      mapQueuedChanges := st.mapQueuedChanges.insert (env.getHash tx)
        (.new (txPos pindex st) tx.vout.length)
      nTxPos := nextTxPos fJustCheck st tx
      nSigOps := (st.nSigOps + tx.getLegacySigOpCount) % 2 ^ 32
      nFees := st.nFees
      nValueIn := st.nValueIn
      nValueOut := st.nValueOut + nValueOut
      nStakeReward := st.nStakeReward } := by
  unfold connectTx connectTxValues connectCoinbase at h
  simp only [hcb, if_true, Guards.bind_eq_ok] at h
  obtain ⟨_, _, st1, ⟨out, hout, sum, hsum, hst1⟩, hst'⟩ := h
  have := addI64_eq_ok hsum
  cases hst1
  cases hst'
  exact ⟨out, hout, by rw [this]; rfl⟩

/-- What a round for a transaction that spends inputs found and did: the inputs it fetched, their
    value, and the queue after its inputs were connected. -/
structure SpendRound (env : Env) (n : Node) (pindex : CBlockIndex) (st : ConnectState)
    (tx : CTransaction) (inputs : MapPrevTx) (nTxValueIn nTxValueOut : Int) (queued : QueuedChanges) :
    Prop where
  fetched : tx.fetchInputs n n.view.readTxIndex st.mapQueuedChanges true false = .ok inputs
  valueIn : tx.getValueMapIn inputs = .ok nTxValueIn
  valueOut : tx.getValueOut = .ok nTxValueOut
  connected : tx.connectInputs env n inputs st.mapQueuedChanges (txPos pindex st)
    (n.mapBlockIndex.chain pindex.phashBlock) true false scriptVerifyNoCache true = .ok queued

theorem addTxFee_eq_ok {nFees fees : Int} (h : addTxFee tx nFees nIn nOut = .ok fees) :
    fees = if tx.isCoinStake then nFees else nFees + (nIn - nOut) := by
  unfold addTxFee at h
  by_cases hcs : tx.isCoinStake
  · simp only [hcs, if_true] at h ⊢
    exact (Except.ok.inj h).symm
  · simp only [hcs, Bool.false_eq_true, if_false, Guards.bind_eq_ok] at h ⊢
    obtain ⟨fee, hfee, hsum⟩ := h
    rw [addI64_eq_ok hsum, addI64_eq_ok hfee, Int.sub_eq_add_neg]

theorem setStakeReward_eq_ok {nReward reward : Int} (h : setStakeReward tx nReward nIn nOut = .ok reward) :
    reward = if tx.isCoinStake then nOut - nIn else nReward := by
  unfold setStakeReward at h
  by_cases hcs : tx.isCoinStake
  · simp only [hcs, if_true] at h ⊢
    rw [addI64_eq_ok h, Int.sub_eq_add_neg]
  · simp only [hcs, Bool.false_eq_true, if_false] at h ⊢
    exact (Except.ok.inj h).symm

theorem connectTx_of_spending (hcb : tx.isCoinBase = false) (h : connectTx env n pindex fJustCheck st tx = .ok st') :
    ∃ inputs nTxValueIn nTxValueOut queued nSigOps,
      SpendRound env n pindex st tx inputs nTxValueIn nTxValueOut queued ∧ st' = {
        mapQueuedChanges := queued.insert (env.getHash tx) (.new (txPos pindex st) tx.vout.length)
        nTxPos := nextTxPos fJustCheck st tx
        nSigOps := nSigOps
        nFees := if tx.isCoinStake then st.nFees else st.nFees + (nTxValueIn - nTxValueOut)
        nValueIn := st.nValueIn + nTxValueIn
        nValueOut := st.nValueOut + nTxValueOut
        nStakeReward := if tx.isCoinStake then nTxValueOut - nTxValueIn else st.nStakeReward } := by
  unfold connectTx connectTxValues connectTxInputs at h
  simp only [hcb, Bool.false_eq_true, if_false, Guards.bind_eq_ok] at h
  obtain ⟨_, _, st1, ⟨inputs, hfetch, nP2SH, _, _, _, nIn, hin, out, hout, sumIn, hsumIn, sumOut,
    hsumOut, fees, hfees, stake, hstake, queued, hconn, hst1⟩, hst'⟩ := h
  cases hst1
  cases hst'
  refine ⟨inputs, nIn, out, queued, ((st.nSigOps + tx.getLegacySigOpCount) % 2 ^ 32 + nP2SH) % 2 ^ 32,
    ⟨hfetch, hin, hout, hconn⟩, ?_⟩
  rw [addI64_eq_ok hsumIn, addI64_eq_ok hsumOut, addTxFee_eq_ok hfees, setStakeReward_eq_ok hstake]
  rfl

end Round

end CBlock

end PupaCoin
