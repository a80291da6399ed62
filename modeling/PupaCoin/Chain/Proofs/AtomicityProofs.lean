import PupaCoin.Chain.Stored
import PupaCoin.Chain.Proofs.ReorganizeProofs

/-!
# When a failed reorganisation leaves everything as before

The aborted transaction takes every write to the database back (`Part.committed`), and the best block, the
`pnext` pointers and the memory pool are changed behind the commit only.
-/

namespace PupaCoin

variable {d : Nat} {msg message : String} {pindex : CBlockIndex} {st : ConnectState} {rest : List CBlockIndex}

open Exec (Frame)

variable {n t : Node} {e : Stop}

section Handlers

variable {α : Type} {m : NodeM α} {n t : Node} {e e' : Stop}

theorem onReject_stop_returns {a : α} : onReject m (Exec.stop e') n = (.ok a, t) ↔ m n = (.ok a, t) := by
  rw [onReject_returns]
  simp

theorem onReject_stop_stops (h : onReject m (Exec.stop e') n = (.error e, t)) : ∃ e'', m n = (.error e'', t) := by
  unfold onReject at h
  rcases hm : m n with ⟨r, s⟩
  rw [hm] at h
  cases r with
  | ok a => cases h
  | error e'' =>
    have hs : s = t := by
      cases e'' <;> exact congrArg Prod.snd h
    exact ⟨e'', by rw [hs]⟩

theorem onReject_rejects {handler : NodeM α} (h : onReject m handler n = (.error (.reject d msg), t)) :
    ∃ d' msg' s, m n = (.error (.reject d' msg'), s) ∧ handler s = (.error (.reject d msg), t) := by
  unfold onReject at h
  rcases hm : m n with ⟨r, s⟩
  rw [hm] at h
  cases r with
  | ok a => cases h
  | error e =>
    cases e with
    | reject d' msg' => exact ⟨d', msg', s, rfl, h⟩
    | exception w => cases h
    | undefined w => cases h

end Handlers

section Wallet

variable {env : Env} {block : CBlock} {h : UInt256} {n t : Node} {e : Stop}

theorem disconnectBlock_reports (hd : block.disconnectBlock env h n = (.ok (), t)) :
    t.walletSignals = n.walletSignals ++ block.vtx.map fun tx => ⟨tx, block, false⟩ := by
  unfold CBlock.disconnectBlock at hd
  simp only [Exec.bind_returns] at hd
  obtain ⟨_, n1, hinputs, pindex, n2, hderef, _, n3, hprev, hsync⟩ := hd
  have hw1 : n1.walletSignals = n.walletSignals :=
    (Writes.frame_forM (CTransaction.disconnectInputs_writes env) _).apply hinputs .wallet (by decide)
  obtain ⟨-, rfl⟩ := deref_returns.mp hderef
  have hw3 : n3.walletSignals = n1.walletSignals :=
    (CBlock.writePrevBlockIndex_writes env pindex 0).apply hprev .wallet (by decide)
  rw [syncWithWallets_apply] at hsync
  cases hsync
  rw [← hw1, ← hw3]

theorem disconnectBlock_fails (hd : block.disconnectBlock env h n = (.error e, t)) :
    Writes [.records, .batch] n t := by
  unfold CBlock.disconnectBlock at hd
  rcases Exec.bind_stops.mp hd with hinputs | ⟨_, n1, hinputs, hd⟩
  · exact (Writes.frame_forM (CTransaction.disconnectInputs_writes env) _).apply hinputs
  · have hw1 := (Writes.frame_forM (CTransaction.disconnectInputs_writes env) _).apply hinputs
    rcases Exec.bind_stops.mp hd with hderef | ⟨pindex, n2, hderef, hd⟩
    · rw [deref_apply, Prod.mk.injEq] at hderef
      rw [← hderef.2]
      exact hw1
    · obtain ⟨-, rfl⟩ := deref_returns.mp hderef
      rcases Exec.bind_stops.mp hd with hprev | ⟨_, n3, _, hsync⟩
      · exact Writes.trans _ _ _ _ hw1 ((CBlock.writePrevBlockIndex_writes env pindex 0).apply hprev)
      · rw [syncWithWallets_apply] at hsync
        cases hsync

theorem connectWrites_reports (hc : CBlock.connectWrites env block pindex st n = (.ok (), t)) :
    t.walletSignals = n.walletSignals ++ block.vtx.map fun tx => ⟨tx, block, true⟩ := by
  unfold CBlock.connectWrites at hc
  simp only [Exec.bind_returns] at hc
  obtain ⟨_, n1, hqueue, _, n2, haddr, _, n3, hprev, hsync⟩ := hc
  have hw1 : n1.walletSignals = n.walletSignals :=
    (Writes.frame_forM (fun entry => updateTxIndex_writes _ _) _).apply hqueue .wallet (by decide)
  have hw2 : n2.walletSignals = n1.walletSignals :=
    (CBlock.writeAddrIndexes_writes env block).apply haddr .wallet (by decide)
  have hw3 : n3.walletSignals = n2.walletSignals :=
    (CBlock.writePrevBlockIndex_writes env pindex _).apply hprev .wallet (by decide)
  rw [syncWithWallets_apply] at hsync
  cases hsync
  rw [← hw1, ← hw2, ← hw3]

theorem connectWrites_fails (hc : CBlock.connectWrites env block pindex st n = (.error e, t)) :
    Writes [.records, .batch] n t := by
  have hqueueFrame : Frame (Writes [.records, .batch])
      (st.mapQueuedChanges.entries.forM fun entry => updateTxIndex entry.1 entry.2) :=
    Writes.frame_forM (fun entry => updateTxIndex_writes _ _) _
  unfold CBlock.connectWrites at hc
  rcases Exec.bind_stops.mp hc with hqueue | ⟨_, n1, hqueue, hc⟩
  · exact hqueueFrame.apply hqueue
  · have hw1 := hqueueFrame.apply hqueue
    rcases Exec.bind_stops.mp hc with haddr | ⟨_, n2, haddr, hc⟩
    · exact Writes.trans _ _ _ _ hw1 ((CBlock.writeAddrIndexes_writes env block).apply haddr)
    · have hw2 := Writes.trans _ _ _ _ hw1 ((CBlock.writeAddrIndexes_writes env block).apply haddr)
      rcases Exec.bind_stops.mp hc with hprev | ⟨_, n3, _, hsync⟩
      · exact Writes.trans _ _ _ _ hw2 ((CBlock.writePrevBlockIndex_writes env pindex _).apply hprev)
      · rw [syncWithWallets_apply] at hsync
        cases hsync

end Wallet

namespace CBlock

variable {env : Env} {block : CBlock} {h : UInt256} {n n1 t : Node} {pindex : CBlockIndex} {e : Stop}
  {st : ConnectState}

theorem setLimits_fails (hl : setLimits pindex n = (.error e, t)) : t = n := by
  unfold setLimits BlockSizeCalculator.computeBlockSize
    BlockSizeCalculator.computeBlockSizeOf at hl
  simp only [Exec.bind_stops, Exec.bind_returns, Exec.read_apply, Exec.lift_apply, Exec.update_apply,
    Exec.pure_apply, Prod.mk.injEq, reduceCtorEq, false_and, and_false, exists_false, or_false,
    false_or, Except.ok.injEq] at hl
  obtain ⟨m, _, ⟨rfl, rfl⟩, ⟨_, rfl⟩ | ⟨_, _, ⟨_, rfl⟩, _, rfl⟩⟩ := hl
  · rfl
  · rfl

theorem connectChecks_returns :
    connectChecks env block h n = (.ok (), n1) ↔ ∃ pindex, Checked env block n true true false ∧
      n.mapBlockIndex.entries h = some pindex ∧
      setLimits pindex (paymentStep env block n).2 = (.ok (), n1) := by
  have htree := paymentStep_mapBlockIndex env block n
  unfold connectChecks
  simp only [Exec.bind_returns]
  constructor
  · rintro ⟨_, _, hcheck, pindex, _, hderef, hlimits⟩
    obtain ⟨hchecked, rfl⟩ := checkBlock_returns.mp hcheck
    obtain ⟨hentry, rfl⟩ := deref_returns.mp hderef
    exact ⟨pindex, hchecked, htree ▸ hentry, hlimits⟩
  · rintro ⟨pindex, hchecked, hentry, hlimits⟩
    exact ⟨(), _, checkBlock_returns.mpr ⟨hchecked, rfl⟩, pindex, _,
      deref_returns.mpr ⟨htree.symm ▸ hentry, rfl⟩, hlimits⟩

theorem connectChecks_fails (hc : connectChecks env block h n = (.error e, t)) : Writes [.delay] n t := by
  unfold connectChecks at hc
  rcases Exec.bind_stops.mp hc with hcheck | ⟨_, n1, hcheck, hc⟩
  · exact (checkBlock_writes env block _ _ _).apply hcheck
  · have hw1 := (checkBlock_writes env block _ _ _).apply hcheck
    rcases Exec.bind_stops.mp hc with hderef | ⟨pindex, n2, hderef, hlimits⟩
    · rw [deref_apply, Prod.mk.injEq] at hderef
      rw [← hderef.2]
      exact hw1
    · obtain ⟨-, rfl⟩ := deref_returns.mp hderef
      rw [setLimits_fails hlimits]
      exact hw1

theorem Approves.connectChecks (ha : Approves env block h false n pindex n1 st) :
    connectChecks env block h n = (.ok (), n1) :=
  connectChecks_returns.mpr ⟨pindex, ha.checked, ha.entry, ha.limits⟩

theorem failsQuietly_iff (hentry : n.mapBlockIndex.entries h = some pindex)
    (hchecks : connectChecks env block h n = (.ok (), n1)) : FailsQuietly env block h n ↔ Part.limits.Same n n1 ∧
      ((∃ e, (block.vtx.foldlM (connectTx env n1 pindex false) (connectInit pindex block false)
          >>= checkReward n1 pindex block) = .error e) ∨
        ∃ st e t, Approves env block h false n pindex n1 st ∧ Part.supply.Same n (supplyRecorded env n1 h pindex st) ∧
          connectWrites env block pindex st (supplyRecorded env n1 h pindex st) = (.error e, t)) := by
  constructor
  · intro hquiet
    cases hquiet with
    | unchecked check =>
      rw [hchecks] at check
      cases check
    | refused entry checks inForce refusal =>
      obtain rfl := Option.some.inj (hentry.symm.trans entry)
      obtain rfl := congrArg Prod.snd (hchecks.symm.trans checks)
      exact ⟨inForce, Or.inl ⟨_, refusal⟩⟩
    | unindexed approves inForce recorded unwritten =>
      obtain rfl := Option.some.inj (hentry.symm.trans approves.entry)
      obtain rfl := congrArg Prod.snd (hchecks.symm.trans approves.connectChecks)
      exact ⟨inForce, Or.inr ⟨_, _, _, approves, recorded, unwritten⟩⟩
  · rintro ⟨inForce, ⟨e, refusal⟩ | ⟨st, e, t, approves, recorded, unwritten⟩⟩
    · exact .refused hentry hchecks inForce refusal
    · exact .unindexed approves inForce recorded unwritten

theorem connectBlock_reports (hc : block.connectBlock env h false n = (.ok (), t)) :
    n.walletSignals.length < t.walletSignals.length ∧ ¬ FailsQuietly env block h n := by
  obtain ⟨pindex, n1, st, hconnects⟩ := connectBlock_returns.mp hc
  have hwrites := hconnects.writes
  simp only [Bool.false_eq_true, if_false] at hwrites
  constructor
  · have hw1 : n1.walletSignals = n.walletSignals := by
      obtain ⟨_, _, _, _, _, _, _, hn1⟩ := hconnects.limitsOnly
      rw [hn1]
    have hw2 : (supplyRecorded env n1 h pindex st).walletSignals = n1.walletSignals := by
      unfold supplyRecorded Node.dbApply
      cases n1.activeBatch <;> rfl
    obtain ⟨coinbase, rest, hvtx, -⟩ :=
      (checkStructure_wellPlaced hconnects.checked.structureOk).coinbase_head
    rw [connectWrites_reports hwrites, hw2, hw1, hvtx, List.length_append, List.length_map, List.length_cons]
    omega
  · rw [failsQuietly_iff hconnects.entry hconnects.toApproves.connectChecks]
    rintro ⟨-, ⟨e, hrefusal⟩ | ⟨st', e, t', happroves, -, hunwritten⟩⟩
    · rw [hconnects.loop] at hrefusal
      exact absurd (hrefusal.symm.trans hconnects.reward) (by simp)
    · obtain rfl : st = st' := Except.ok.inj (hconnects.loop.symm.trans happroves.loop)
      rw [hwrites] at hunwritten
      cases hunwritten

theorem connectBlock_fails (hc : block.connectBlock env h false n = (.error e, t)) : Part.wallet.Same n t ∧
      (FailsQuietly env block h n ↔ Part.limits.Same n t ∧ Part.supply.Same n t) := by
  have hearly : ∀ {e' : Stop} {t' : Node}, connectChecks env block h n = (.error e', t') → Writes [.delay] n t' →
      Part.wallet.Same n t' ∧ (FailsQuietly env block h n ↔ Part.limits.Same n t' ∧ Part.supply.Same n t') :=
    fun hfail hw => ⟨hw .wallet (by decide), fun _ => ⟨hw .limits (by decide), hw .supply (by decide)⟩,
      fun _ => .unchecked hfail⟩
  have houtcome := connectBlock_outcome env block h false n
  rw [hc] at houtcome
  cases houtcome with
  | unchecked check =>
    have hfail : connectChecks env block h n = (.error e, t) := Exec.bind_of_error check _
    exact hearly hfail (connectChecks_fails hfail)
  | noEntry checked entry undef =>
    have hcheck : block.checkBlock env true true false n = (.ok (), (paymentStep env block n).2) :=
      checkBlock_returns.mpr ⟨checked, rfl⟩
    have hfail : connectChecks env block h n
        = (.error (.undefined "null block index"), (paymentStep env block n).2) := by
      unfold connectChecks
      rw [Exec.bind_of_ok hcheck, Exec.bind_apply, deref_apply, paymentStep_mapBlockIndex, entry]
      rfl
    exact hearly hfail (connectChecks_fails hfail)
  | @noLimits pindex _ _ checked entry limits =>
    have hcheck : block.checkBlock env true true false n = (.ok (), (paymentStep env block n).2) :=
      checkBlock_returns.mpr ⟨checked, rfl⟩
    have hfail : connectChecks env block h n = (.error e, t) := by
      unfold connectChecks
      rw [Exec.bind_of_ok hcheck, Exec.bind_apply, deref_apply, paymentStep_mapBlockIndex, entry]
      exact limits
    exact hearly hfail (connectChecks_fails hfail)
  | @refused pindex _ _ checked entry limits refusal =>
    have hchecks := connectChecks_returns.mpr ⟨pindex, checked, entry, limits⟩
    have hsupply : Part.supply.Same n t ∧ Part.wallet.Same n t := by
      obtain ⟨_, _, _, _, _, _, _, rfl⟩ := LimitsOnly.trans _ _ _
        (paymentStep_limitsOnly env block n) ((setLimits_limitsOnly pindex).apply limits)
      exact ⟨fun _ => rfl, rfl⟩
    rw [failsQuietly_iff entry hchecks]
    exact ⟨hsupply.2, fun hq => ⟨hq.1, hsupply.1⟩, fun hsame => ⟨hsame.1, Or.inl ⟨e, refusal⟩⟩⟩
  | @approved pindex n1 st _ approves writes =>
    simp only [Bool.false_eq_true, if_false] at writes
    have hentry1 : n1.mapBlockIndex.entries h = some pindex := by
      obtain ⟨_, _, _, _, _, _, _, hn1⟩ := approves.limitsOnly
      rw [hn1]
      exact approves.entry
    have hrecord := (recordSupply_writes env h st).apply (recordSupply_apply hentry1 st)
    have hwrites := connectWrites_fails writes
    have hafter : Writes [.supply, .records, .batch] n1 t :=
      Writes.trans _ _ _ _ hrecord (hwrites.mono (by decide))
    have hbefore : Part.supply.Same n n1 ∧ Part.wallet.Same n n1 := by
      obtain ⟨_, _, _, _, _, _, _, rfl⟩ := approves.limitsOnly
      exact ⟨fun _ => rfl, rfl⟩
    have hlimits : Part.limits.Same n n1 ↔ Part.limits.Same n t := by
      obtain ⟨h1, h2, h3⟩ := hafter .limits (by decide)
      simp only [Part.Same, h1, h2, h3]
    have hsupply : Part.supply.Same n (supplyRecorded env n1 h pindex st) ↔ Part.supply.Same n t := by
      have hsame := hwrites .supply (by decide)
      simp only [Part.Same] at hsame ⊢
      simp only [hsame]
    refine ⟨hbefore.2.trans (hafter .wallet (by decide)), ?_⟩
    rw [failsQuietly_iff approves.entry approves.connectChecks, hlimits, ← hsupply]
    constructor
    · rintro ⟨hlim, ⟨e', hrefusal⟩ | ⟨st', e', t', happroves, hrecorded, -⟩⟩
      · rw [approves.loop] at hrefusal
        exact absurd (hrefusal.symm.trans approves.reward) (by simp)
      · obtain rfl : st = st' := Except.ok.inj (approves.loop.symm.trans happroves.loop)
        exact ⟨hlim, hrecorded⟩
    · rintro ⟨hlim, hrecorded⟩
      exact ⟨hlim, Or.inr ⟨st, e, t, approves, hrecorded, writes⟩⟩

end CBlock

section Rounds

variable {env : Env} {n t : Node} {e : Stop} {pindex : CBlockIndex} {preorgmax : Int}
  {vResurrect vDelete txs : List CTransaction}

theorem disconnectBranchStep_returns (h : disconnectBranchStep env preorgmax vResurrect pindex n = (.ok txs, t)) :
    ∃ block, readBlockFromDisk env n pindex = some block ∧
      block.disconnectBlock env pindex.phashBlock n = (.ok (), t) ∧
      txs = (block.vtx.filter fun tx =>
        !(tx.isCoinBase || tx.isCoinStake) && decide ((pindex.nHeight : Int) > preorgmax))
          ++ vResurrect := by
  unfold disconnectBranchStep at h
  rw [Exec.read_bind] at h
  cases hread : readBlockFromDisk env n pindex with
  | none => simp [hread] at h
  | some block =>
    simp only [hread, Exec.bind_returns, onReject_stop_returns, Exec.pure_apply, Prod.mk.injEq, Except.ok.injEq] at h
    obtain ⟨_, t', hdisconnect, rfl, rfl⟩ := h
    exact ⟨block, rfl, hdisconnect, rfl⟩

theorem disconnectBranchStep_stops (h : disconnectBranchStep env preorgmax vResurrect pindex n = (.error e, t)) :
    (readBlockFromDisk env n pindex = none ∧ t = n) ∨ ∃ block e', readBlockFromDisk env n pindex = some block ∧
        block.disconnectBlock env pindex.phashBlock n = (.error e', t) := by
  unfold disconnectBranchStep at h
  rw [Exec.read_bind] at h
  cases hread : readBlockFromDisk env n pindex with
  | none =>
    simp only [hread, Exec.stop_apply, Prod.mk.injEq] at h
    exact Or.inl ⟨rfl, h.2.symm⟩
  | some block =>
    simp only [hread] at h
    rcases Exec.bind_stops.mp h with hd | ⟨_, _, _, hpure⟩
    · obtain ⟨e', he'⟩ := onReject_stop_stops hd
      exact Or.inr ⟨block, e', rfl, he'⟩
    · cases hpure

theorem connectBranchStep_returns (h : connectBranchStep env vDelete pindex n = (.ok txs, t)) :
    ∃ block n2, readBlockFromDisk env n pindex = some block ∧
      block.connectBlock env pindex.phashBlock false n = (.ok (), n2) ∧ Writes [.velocity] n2 t ∧
      txs = vDelete ++ block.vtx := by
  unfold connectBranchStep at h
  rw [Exec.read_bind] at h
  cases hread : readBlockFromDisk env n pindex with
  | none => simp [hread] at h
  | some block =>
    simp only [hread] at h
    obtain ⟨_, n2, hconnect, h⟩ := Exec.bind_returns.mp h
    rw [onReject_stop_returns] at hconnect
    obtain ⟨limited, n3, hcheck, h⟩ := Exec.bind_returns.mp h
    have hw3 := (velocityCheck_writes env _).apply hcheck
    cases limited with
    | false =>
      simp only [Bool.false_eq_true, if_false, Exec.pure_apply, Prod.mk.injEq, Except.ok.injEq] at h
      exact ⟨block, n2, rfl, hconnect, h.2 ▸ hw3, h.1.symm⟩
    | true =>
      simp only [if_true, Exec.bind_returns, Exec.lift_apply, Prod.mk.injEq, onReject_stop_returns,
        Exec.pure_apply, Except.ok.injEq] at h
      obtain ⟨hprev, n4, ⟨-, rfl⟩, _, n5, hvelocity, rfl, rfl⟩ := h
      exact ⟨block, n2, rfl, hconnect, Writes.trans _ _ _ _ hw3 ((velocity_writes env _ _ _).apply hvelocity), rfl⟩

theorem connectBranchStep_stops (h : connectBranchStep env vDelete pindex n = (.error e, t)) :
    (readBlockFromDisk env n pindex = none ∧ t = n) ∨ ∃ block, readBlockFromDisk env n pindex = some block ∧
        ((∃ e', block.connectBlock env pindex.phashBlock false n = (.error e', t)) ∨
          ∃ n2, block.connectBlock env pindex.phashBlock false n = (.ok (), n2) ∧ Writes [.velocity] n2 t) := by
  unfold connectBranchStep at h
  rw [Exec.read_bind] at h
  cases hread : readBlockFromDisk env n pindex with
  | none =>
    simp only [hread, Exec.stop_apply, Prod.mk.injEq] at h
    exact Or.inl ⟨rfl, h.2.symm⟩
  | some block =>
    simp only [hread] at h
    refine Or.inr ⟨block, rfl, ?_⟩
    rcases Exec.bind_stops.mp h with hconnect | ⟨_, n2, hconnect, h⟩
    · exact Or.inl (onReject_stop_stops hconnect)
    · rw [onReject_stop_returns] at hconnect
      refine Or.inr ⟨n2, hconnect, ?_⟩
      rcases Exec.bind_stops.mp h with hcheck | ⟨limited, n3, hcheck, h⟩
      · exact (velocityCheck_writes env _).apply hcheck
      · have hw3 := (velocityCheck_writes env _).apply hcheck
        cases limited with
        | false => simp at h
        | true =>
          simp only [if_true] at h
          rcases Exec.bind_stops.mp h with hprev | ⟨hprev, n4, hlift, h⟩
          · rw [Exec.lift_apply, Prod.mk.injEq] at hprev
            exact hprev.2 ▸ hw3
          · rw [Exec.lift_apply, Prod.mk.injEq] at hlift
            obtain ⟨-, rfl⟩ := hlift
            rcases Exec.bind_stops.mp h with hvelocity | ⟨_, _, _, hpure⟩
            · obtain ⟨e', he'⟩ := onReject_stop_stops hvelocity
              exact Writes.trans _ _ _ _ hw3 ((velocity_writes env _ _ _).apply he')
            · cases hpure

end Rounds

theorem txnCommit_fails (h : txnCommit message n = (.error e, t))
    : Writes [.committed, .batch, .faults] n t := by
  intro p hp
  unfold txnCommit at h
  cases hbatch : n.activeBatch with
  | none =>
    rw [hbatch] at h
    simp only [Prod.mk.injEq] at h
    rw [← h.2]
    exact Part.Same.refl n p
  | some batch =>
    rw [hbatch] at h
    simp only at h
    split at h
    · simp only [Prod.mk.injEq] at h
      rw [← h.2]
      cases p <;> simp [Part.Same] at hp ⊢
    · cases h

/-- Where a reorganisation stops after its preparation. -/
inductive BranchStops (env : Env) (hNew : UInt256) (plan : ReorganizePlan) (n1 : Node) (e : Stop)
    (t : Node) : Prop
  | disconnecting
      (stops : plan.vDisconnect.foldlM (disconnectBranchStep env plan.preorgmax) [] n1 = (.error e, t))
  | connecting {vResurrect : List CTransaction} {n2 : Node}
      (disconnected : plan.vDisconnect.foldlM (disconnectBranchStep env plan.preorgmax) [] n1
        = (.ok vResurrect, n2))
      (stops : plan.vConnect.foldlM (connectBranchStep env) [] n2 = (.error e, t))
  | committing {vResurrect vDelete : List CTransaction} {n2 n3 : Node}
      (disconnected : plan.vDisconnect.foldlM (disconnectBranchStep env plan.preorgmax) [] n1
        = (.ok vResurrect, n2))
      (connected : plan.vConnect.foldlM (connectBranchStep env) [] n2 = (.ok vDelete, n3))
      (stops : txnCommit "Reorganize() : TxnCommit failed"
        (n3.dbApply (.put .hashBestChain (.hash hNew))) = (.error e, t))

theorem reorganize_stops {env : Env} {hNew : UInt256}
    (h : reorganize env hNew n = (.error e, t)) : prepareReorganize hNew n = (.error e, t) ∨ ∃ plan n1,
      prepareReorganize hNew n = (.ok plan, n1) ∧ BranchStops env hNew plan n1 e t := by
  unfold reorganize at h
  rcases Exec.bind_stops.mp h with hplan | ⟨plan, n1, hplan, h⟩
  · exact Or.inl hplan
  · refine Or.inr ⟨plan, n1, hplan, ?_⟩
    rcases Exec.bind_stops.mp h with hstops | ⟨vResurrect, n2, hdisconnect, h⟩
    · exact .disconnecting hstops
    · rcases Exec.bind_stops.mp h with hstops | ⟨vDelete, n3, hconnect, h⟩
      · exact .connecting hdisconnect hstops
      · rcases Exec.bind_stops.mp h with hwrite | ⟨_, n4, hwrite, h⟩
        · cases hwrite
        · rw [writeHashBestChain_apply, Prod.mk.injEq] at hwrite
          rcases Exec.bind_stops.mp h with hstops | ⟨_, n5, _, hupdate⟩
          · exact .committing hdisconnect hconnect (hwrite.2 ▸ hstops)
          · cases hupdate

section BranchStops

variable {env : Env} {hNew : UInt256} {plan : ReorganizePlan} {n t : Node} {e : Stop}

theorem disconnectBranch_writes (vResurrect : List CTransaction) (branch : List CBlockIndex) :
    Frame (Writes [.records, .batch, .wallet])
      (branch.foldlM (disconnectBranchStep env plan.preorgmax) vResurrect) :=
  Writes.frame_foldlM (fun txs pindex => disconnectBranchStep_writes env _ txs pindex) _ _

theorem connectBranch_writes (vDelete : List CTransaction) (branch : List CBlockIndex) :
    Frame (Writes (.velocity :: connectParts)) (branch.foldlM (connectBranchStep env) vDelete) :=
  Writes.frame_foldlM (fun txs pindex => connectBranchStep_writes env txs pindex) _ _

theorem BranchStops.writes (h : BranchStops env hNew plan n e t) :
    Writes ([.committed, .faults, .velocity] ++ connectParts) n t := by
  cases h with
  | disconnecting stops => exact ((disconnectBranch_writes _ _).apply stops).mono (by decide)
  | connecting disconnected stops =>
    exact Writes.trans _ _ _ _ (((disconnectBranch_writes _ _).apply disconnected).mono (by decide))
      (((connectBranch_writes _ _).apply stops).mono (by decide))
  | committing disconnected connected stops =>
    refine Writes.trans _ _ _ _ (((disconnectBranch_writes _ _).apply disconnected).mono (by decide))
      (Writes.trans _ _ _ _ (((connectBranch_writes _ _).apply connected).mono (by decide))
        (Writes.trans _ _ _ _ ?_ ((txnCommit_fails stops).mono (by decide))))
    exact (dbApply_writes (by simp [Overlay.Op.key]) _).mono (by decide)

theorem BranchStops.records (h : BranchStops env hNew plan n e t) (hopen : n.activeBatch ≠ none) :
    Part.records.Same n t := by
  cases h with
  | disconnecting stops =>
    exact ((disconnectBranch_writes _ _).apply stops .committed (by decide) hopen).2
  | connecting disconnected stops =>
    obtain ⟨hopen2, hrecords2⟩ :=
      (disconnectBranch_writes _ _).apply disconnected .committed (by decide) hopen
    obtain ⟨-, hrecords⟩ := (connectBranch_writes _ _).apply stops .committed (by decide) hopen2
    exact fun key hkey => (hrecords key hkey).trans (hrecords2 key hkey)
  | @committing _ _ n2 n3 disconnected connected stops =>
    obtain ⟨hopen2, hrecords2⟩ :=
      (disconnectBranch_writes _ _).apply disconnected .committed (by decide) hopen
    obtain ⟨hopen3, hrecords3⟩ :=
      (connectBranch_writes _ _).apply connected .committed (by decide) hopen2
    have hput : Overlay.Op.key (.put .hashBestChain (.hash hNew) : Overlay.Op DbKey DbVal)
        ≠ .bnBestInvalidTrust := by simp [Overlay.Op.key]
    obtain ⟨-, hrecords4⟩ := dbApply_writes hput n3 .committed (by decide) hopen3
    have hcommit := txnCommit_fails stops .records (by decide)
    exact fun key hkey => ((hcommit key hkey).trans (hrecords4 key hkey)).trans
      ((hrecords3 key hkey).trans (hrecords2 key hkey))

theorem BranchStops.asBefore (h : BranchStops env hNew plan n e t) (hopen : n.activeBatch ≠ none) :
    AsBefore n t ↔ Part.supply.Same n t ∧ Part.limits.Same n t ∧ Part.wallet.Same n t := by
  constructor
  · intro hsame
    exact ⟨hsame .supply (by decide), hsame .limits (by decide), hsame .wallet (by decide)⟩
  · rintro ⟨hsupply, hlimits, hwallet⟩ p hp
    have hw := h.writes
    simp only [observedParts, List.mem_cons, List.not_mem_nil, or_false] at hp
    rcases hp with rfl | rfl | rfl | rfl | rfl | rfl | rfl
    · exact h.records hopen
    · exact hw .tip (by decide)
    · exact hw .pnext (by decide)
    · exact hsupply
    · exact hlimits
    · exact hw .mempool (by decide)
    · exact hwallet

theorem txnCommit_sent (stops : txnCommit message (n.dbApply (.put .hashBestChain (.hash hNew)))
    = (.error e, t)) : Part.sent.Same n t := by
  have hput : Overlay.Op.key (.put .hashBestChain (.hash hNew) : Overlay.Op DbKey DbVal) ≠ .bnBestInvalidTrust := by
    simp [Overlay.Op.key]
  exact Part.Same.trans (p := .sent) (dbApply_writes hput n .sent (by decide)) (txnCommit_fails stops .sent (by decide))

theorem BranchStops.first_disconnect (h : BranchStops env hNew plan n e t) (hplan : plan.vDisconnect = pindex :: rest)
    : disconnectBranchStep env plan.preorgmax [] pindex n = (.error e, t) ∨
      ∃ txs n', disconnectBranchStep env plan.preorgmax [] pindex n = (.ok txs, n') ∧ Part.sent.Same n' t := by
  have hgoes : ∀ {txs n2}, plan.vDisconnect.foldlM (disconnectBranchStep env plan.preorgmax) [] n
      = (.ok txs, n2) → Part.sent.Same n2 t → ∃ txs n',
        disconnectBranchStep env plan.preorgmax [] pindex n = (.ok txs, n') ∧ Part.sent.Same n' t := by
    intro txs n2 hloop hsent
    rw [hplan, List.foldlM_cons, Exec.bind_returns] at hloop
    obtain ⟨txs', n', hstep, hrest⟩ := hloop
    exact ⟨txs', n', hstep, ((disconnectBranch_writes _ _).apply hrest .sent (by decide)).trans hsent⟩
  cases h with
  | disconnecting stops =>
    rw [hplan, List.foldlM_cons] at stops
    rcases Exec.bind_stops.mp stops with hstep | ⟨txs, n', hstep, hrest⟩
    · exact Or.inl hstep
    · exact Or.inr ⟨txs, n', hstep, (disconnectBranch_writes _ _).apply hrest .sent (by decide)⟩
  | connecting disconnected stops =>
    exact Or.inr (hgoes disconnected ((connectBranch_writes _ _).apply stops .sent (by decide)))
  | @committing _ _ n2 n3 disconnected connected stops =>
    have hcommit := txnCommit_sent stops
    exact Or.inr (hgoes disconnected
      (((connectBranch_writes _ _).apply connected .sent (by decide)).trans hcommit))

theorem BranchStops.first_connect (h : BranchStops env hNew plan n e t) (hnone : plan.vDisconnect = [])
    (hplan : plan.vConnect = pindex :: rest) : connectBranchStep env [] pindex n = (.error e, t) ∨
      ∃ txs n', connectBranchStep env [] pindex n = (.ok txs, n') ∧ Part.sent.Same n' t := by
  cases h with
  | disconnecting stops =>
    rw [hnone] at stops
    cases stops
  | connecting disconnected stops =>
    rw [hnone, List.foldlM_nil, Exec.pure_apply, Prod.mk.injEq] at disconnected
    rw [← disconnected.2, hplan, List.foldlM_cons] at stops
    rcases Exec.bind_stops.mp stops with hstep | ⟨txs, n', hstep, hrest⟩
    · exact Or.inl hstep
    · exact Or.inr ⟨txs, n', hstep, (connectBranch_writes _ _).apply hrest .sent (by decide)⟩
  | @committing _ _ n2 n3 disconnected connected stops =>
    have hcommit := txnCommit_sent stops
    rw [hnone, List.foldlM_nil, Exec.pure_apply, Prod.mk.injEq] at disconnected
    rw [← disconnected.2, hplan, List.foldlM_cons, Exec.bind_returns] at connected
    obtain ⟨txs', n', hstep, hrest⟩ := connected
    exact Or.inr ⟨txs', n', hstep, ((connectBranch_writes _ _).apply hrest .sent (by decide)).trans hcommit⟩

theorem not_wallet_of_lt {n' : Node} (hlt : n.walletSignals.length < n'.walletSignals.length)
    (hsent : Part.sent.Same n' t) : ¬ Part.wallet.Same n t := by
  intro hwallet
  have hle := List.IsPrefix.length_le hsent
  simp only [Part.Same] at hwallet
  rw [hwallet] at hle
  omega

theorem BranchStops.asBefore_iff (h : BranchStops env hNew plan n e t) (hopen : n.activeBatch ≠ none)
    (hfiles : ∀ nFile nBlockPos block, n.files.readBlock nFile nBlockPos = some block → block.vtx ≠ []) :
    AsBefore n t ↔ FailsFirst env n plan := by
  rw [h.asBefore hopen]
  unfold FailsFirst
  cases hdisconnect : plan.vDisconnect with
  | cons pindex rest =>
    simp only
    rcases h.first_disconnect hdisconnect with hstops | ⟨txs, n', hreturns, hsent⟩
    · have hquiet : Writes [.records, .batch] n t ∧ ∀ block, readBlockFromDisk env n pindex = some block →
            ∃ e', block.disconnectBlock env pindex.phashBlock n = (.error e', t) := by
        rcases disconnectBranchStep_stops hstops with ⟨hnone, rfl⟩ | ⟨block, e', hread, hfails⟩
        · exact ⟨Writes.refl _ _, fun block hread => by rw [hnone] at hread; cases hread⟩
        · refine ⟨disconnectBlock_fails hfails, fun block' hread' => ?_⟩
          obtain rfl := Option.some.inj (hread.symm.trans hread')
          exact ⟨e', hfails⟩
      obtain ⟨hw, hfails⟩ := hquiet
      refine ⟨fun _ block hread n' hok => ?_, fun _ =>
        ⟨hw .supply (by decide), hw .limits (by decide), hw .wallet (by decide)⟩⟩
      obtain ⟨e', he'⟩ := hfails block hread
      rw [he'] at hok
      cases hok
    · obtain ⟨block, hread, hok, -⟩ := disconnectBranchStep_returns hreturns
      have hlt : n.walletSignals.length < n'.walletSignals.length := by
        have hpos := List.length_pos_iff.mpr (hfiles _ _ _ (readBlockFromDisk_eq_some.mp hread).1)
        rw [disconnectBlock_reports hok, List.length_append, List.length_map]
        omega
      exact ⟨fun hsame => absurd hsame.2.2 (not_wallet_of_lt hlt hsent),
        fun hfirst => absurd hok (hfirst block hread n')⟩
  | nil =>
    cases hconnect : plan.vConnect with
    | nil =>
      refine ⟨fun _ => trivial, fun _ => ?_⟩
      cases h with
      | disconnecting stops =>
        rw [hdisconnect] at stops
        cases stops
      | connecting _ stops =>
        rw [hconnect] at stops
        cases stops
      | @committing _ _ n2 n3 disconnected connected stops =>
        rw [hdisconnect, List.foldlM_nil, Exec.pure_apply, Prod.mk.injEq] at disconnected
        rw [hconnect, List.foldlM_nil, Exec.pure_apply, Prod.mk.injEq] at connected
        obtain ⟨-, rfl⟩ := disconnected
        obtain ⟨-, rfl⟩ := connected
        have hw : Writes [.committed, .records, .batch, .faults] n t := Writes.trans _ _ _ _
          ((dbApply_writes (by simp [Overlay.Op.key]) n).mono (by decide))
          ((txnCommit_fails stops).mono (by decide))
        exact ⟨hw .supply (by decide), hw .limits (by decide), hw .wallet (by decide)⟩
    | cons pindex rest =>
      simp only
      rcases h.first_connect hdisconnect hconnect with hstops | ⟨txs, n', hreturns, hsent⟩
      · rcases connectBranchStep_stops hstops with ⟨hnone, rfl⟩ | ⟨block, hread, hblock⟩
        · exact ⟨fun _ block hread => (by rw [hnone] at hread; cases hread),
            fun _ => ⟨fun _ => rfl, ⟨rfl, rfl, rfl⟩, rfl⟩⟩
        · have honly : (∀ block', readBlockFromDisk env n pindex = some block' →
              block'.FailsQuietly env pindex.phashBlock n)
                ↔ block.FailsQuietly env pindex.phashBlock n := by
            simp only [hread, Option.some.injEq, forall_eq']
          rw [honly]
          rcases hblock with ⟨e', hfails⟩ | ⟨n2, hok, hw⟩
          · obtain ⟨hwallet, hiff⟩ := CBlock.connectBlock_fails hfails
            rw [hiff]
            exact ⟨fun hsame => ⟨hsame.2.1, hsame.1⟩, fun hsame => ⟨hsame.2, hsame.1, hwallet⟩⟩
          · obtain ⟨hlt, hloud⟩ := CBlock.connectBlock_reports hok
            exact ⟨fun hsame => absurd hsame.2.2 (not_wallet_of_lt hlt (hw .sent (by decide))),
              fun hquiet => absurd hquiet hloud⟩
      · obtain ⟨block, n2, hread, hok, hw, -⟩ := connectBranchStep_returns hreturns
        obtain ⟨hlt, hloud⟩ := CBlock.connectBlock_reports hok
        have hsent2 : Part.sent.Same n2 t := (hw .sent (by decide)).trans hsent
        exact ⟨fun hsame => absurd hsame.2.2 (not_wallet_of_lt hlt hsent2),
          fun hfirst => absurd (hfirst block hread) hloud⟩

end BranchStops

theorem Part.Same.symm {a b : Node} {p : Part} (h : p.Same a b) (hp : p ∈ observedParts) : p.Same b a := by
  simp only [observedParts, List.mem_cons, List.not_mem_nil, or_false] at hp
  rcases hp with rfl | rfl | rfl | rfl | rfl | rfl | rfl <;> simp_all [Part.Same]

section SetBestChain

variable {env : Env} {block : CBlock} {hNew : UInt256} {n n' t : Node} {e : Stop}

/-- The loop over the postponed blocks is never rejected. By induction on them: a block that is
    rejected ends the loop. -/
theorem connectSecondary_not_rejected (vpindexSecondary : List CBlockIndex) :
    connectSecondary env vpindexSecondary n ≠ (.error (.reject d msg), t) := by
  induction vpindexSecondary generalizing n with
  | nil =>
    unfold connectSecondary
    simp
  | cons pindex rest ih =>
    unfold connectSecondary
    intro h
    rw [Exec.read_bind] at h
    cases hread : readBlockFromDisk env n pindex with
    | none => simp [hread] at h
    | some block =>
      simp only [hread] at h
      rcases Exec.bind_stops.mp h with hbegin | ⟨_, n1, _, h⟩
      · unfold txnBegin at hbegin
        cases hbatch : n.activeBatch <;> simp [hbatch] at hbegin
      · rcases Exec.bind_stops.mp h with hinner | ⟨connected, n2, _, h⟩
        · obtain ⟨_, _, _, _, hhandler⟩ := onReject_rejects hinner
          simp at hhandler
        · cases connected with
          | false => simp at h
          | true => exact ih h

theorem txnBegin_returns : txnBegin n = (.ok (), t) ↔ n.activeBatch = none ∧ t = opened n := by
  unfold txnBegin opened
  cases n.activeBatch with
  | none => simp [eq_comm]
  | some batch => simp

theorem giveUp_rejects {α : Type} {e' : Stop} (h : (do txnAbort; invalidChainFound hNew; Exec.stop e' : NodeM α) n
      = (.error (.reject d msg), t)) :
    e' = .reject d msg ∧ Writes [.committed, .batch, .invalidTrust, .trustRecord] n t := by
  have habort := txnAbort_writes.apply (txnAbort_apply n)
  rcases Exec.bind_stops.mp h with hstops | ⟨_, n1, hreturns, h⟩
  · cases hstops
  · rw [txnAbort_apply, Prod.mk.injEq] at hreturns
    obtain ⟨-, rfl⟩ := hreturns
    rcases Exec.bind_stops.mp h with hstops | ⟨_, n2, hreturns, h⟩
    · unfold invalidChainFound at hstops
      simp only [Exec.bind_stops, deref_apply, Exec.update_apply, Exec.read_apply, Exec.lift_apply,
        Exec.pure_apply, Prod.mk.injEq, orUndefined_eq_error, reduceCtorEq, false_and, and_false,
        exists_false, or_false] at hstops
    · rw [Exec.stop_apply, Prod.mk.injEq] at h
      obtain ⟨he, rfl⟩ := h
      exact ⟨Except.error.inj he, Writes.trans _ _ _ _ (habort.mono (by decide))
        (((invalidChainFound_writes hNew).apply hreturns).mono (by decide))⟩

theorem setBestChain_reorganize_failed (h : setBestChain env block hNew n
    = (.error (.reject 0 "SetBestChain() : Reorganize failed"), n')) :
    n.activeBatch = none ∧ ∃ hInter d msg t, pindexIntermediate n hNew = some hInter ∧
      reorganize env hInter (opened n) = (.error (.reject d msg), t) ∧
      Writes [.committed, .batch, .invalidTrust, .trustRecord] t n' := by
  unfold setBestChain at h
  rcases Exec.bind_stops.mp h with hbegin | ⟨_, n1, hbegin, h⟩
  · unfold txnBegin at hbegin
    cases hbatch : n.activeBatch <;> simp [hbatch] at hbegin
  · obtain ⟨hclosed, rfl⟩ := txnBegin_returns.mp hbegin
    refine ⟨hclosed, ?_⟩
    rcases Exec.bind_stops.mp h with hbranch | ⟨_, n2, _, h⟩
    · unfold setBestChainBranch at hbranch
      rw [Exec.read_bind] at hbranch
      split at hbranch
      · -- the genesis block: only the commit can be rejected, with a message of its own
        unfold setBestChainGenesis at hbranch
        simp only [Exec.bind_stops, writeHashBestChain_apply, Prod.mk.injEq, reduceCtorEq, false_and,
          Exec.update_apply, Exec.pure_apply, and_false, exists_false, or_false, false_or] at hbranch
        obtain ⟨_, _, -, hcommit⟩ := hbranch
        unfold txnCommit at hcommit
        split at hcommit
        · simp at hcommit
        · split at hcommit <;> simp at hcommit
      · split at hbranch
        · -- a block on top of the best one has a message of its own
          unfold setBestChainExtend at hbranch
          rcases Exec.bind_stops.mp hbranch with hinner | ⟨_, _, _, hpure⟩
          · obtain ⟨_, _, _, _, hstop⟩ := onReject_rejects hinner
            simp at hstop
          · cases hpure
        · unfold setBestChainReorganize at hbranch
          rw [Exec.read_bind] at hbranch
          rcases Exec.bind_stops.mp hbranch with hbest | ⟨pindexBest, n2, hbest, hbranch⟩
          · rw [Exec.lift_apply, Prod.mk.injEq, orUndefined_eq_error] at hbest
            cases hbest.1.2
          · rw [Exec.lift_apply, Prod.mk.injEq, orUndefined_eq_ok] at hbest
            obtain ⟨hbest, rfl⟩ := hbest
            rcases Exec.bind_stops.mp hbranch with hhead | ⟨pindex, n3, hhead, hbranch⟩
            · rw [Exec.lift_apply, Prod.mk.injEq, orUndefined_eq_error] at hhead
              cases hhead.1.2
            · rw [Exec.lift_apply, Prod.mk.injEq, orUndefined_eq_ok] at hhead
              obtain ⟨hhead, rfl⟩ := hhead
              rcases Exec.bind_stops.mp hbranch with hreorganize | ⟨_, n4, _, hsecondary⟩
              · obtain ⟨d, msg, t, hreorganize, hhandler⟩ := onReject_rejects hreorganize
                refine ⟨pindex.phashBlock, d, msg, t, ?_, hreorganize, (giveUp_rejects hhandler).2⟩
                unfold pindexIntermediate
                have hbest' : n.pindexBest.bind n.mapBlockIndex.entries = some pindexBest := hbest
                have hhead' : (postponed pindexBest.nChainTrust
                    (n.mapBlockIndex.chain hNew)).2.head? = some pindex := hhead
                simp [hbest', hhead']
              · exact absurd hsecondary (connectSecondary_not_rejected _)
    · rcases Exec.bind_stops.mp h with hbest | ⟨_, _, _, hpure⟩
      · unfold setBest at hbest
        simp [Exec.bind_stops] at hbest
      · cases hpure

/-- **A failed reorganisation.** The database, the best block, the `pnext` pointers and the memory pool
    are always as before the call. Everything observable is as before exactly when the preparation
    failed, or the reorganisation it planned failed before its first lasting effect. -/
theorem setBestChain_atomic_iff
    (hfiles : ∀ nFile nBlockPos block, n.files.readBlock nFile nBlockPos = some block → block.vtx ≠ [])
    (h : setBestChain env block hNew n
      = (.error (.reject 0 "SetBestChain() : Reorganize failed"), n')) :
    (∀ p ∈ [Part.records, .tip, .pnext, .mempool], p.Same n n') ∧
    (AsBefore n n' ↔ ∀ hInter plan n1, pindexIntermediate n hNew = some hInter →
      prepareReorganize hInter (opened n) = (.ok plan, n1) → FailsFirst env n1 plan) := by
  obtain ⟨hclosed, hInter, d, msg, t, hinter, hreorganize, hgiveUp⟩ := setBestChain_reorganize_failed h
  have hopened : Writes [.batch] n (opened n) := txnBegin_writes.apply (txnBegin_returns.mpr ⟨hclosed, rfl⟩)
  have hend : ∀ p ∈ observedParts, p.Same t n' := fun p hp => hgiveUp p (by revert p; decide)
  have hstart : ∀ p ∈ observedParts, p.Same n (opened n) := fun p hp => hopened p (by revert p; decide)
  rcases reorganize_stops hreorganize with hplan | ⟨plan, n1, hplan, hstops⟩
  · -- the preparation failed, and has set nothing but the rolling checkpoint
    have hw := (prepareReorganize_writes hInter).apply hplan
    have hsame : AsBefore n n' := fun p hp =>
      (hstart p hp).trans ((hw p (by revert p; decide)).trans (hend p hp))
    refine ⟨fun p hp => hsame p (by revert p; decide), fun _ hInter' plan n1 hinter' hplan' => ?_, fun _ => hsame⟩
    obtain rfl := Option.some.inj (hinter.symm.trans hinter')
    rw [hplan] at hplan'
    cases hplan'
  · have hw := (prepareReorganize_writes hInter).apply hplan
    have hbefore : ∀ p ∈ observedParts, p.Same n n1 := fun p hp =>
      (hstart p hp).trans (hw p (by revert p; decide))
    have hopen : n1.activeBatch ≠ none := by
      rw [hw .batch (by decide)]
      simp [opened]
    have hfiles1 : ∀ nFile nBlockPos block, n1.files.readBlock nFile nBlockPos = some block → block.vtx ≠ [] := by
      have hsame : n1.files = n.files := hw .files (by decide)
      rw [hsame]
      exact hfiles
    have hall : AsBefore n n' ↔ AsBefore n1 t := by
      constructor
      · exact fun hsame p hp =>
          ((hbefore p hp).symm hp).trans ((hsame p hp).trans ((hend p hp).symm hp))
      · exact fun hsame p hp => (hbefore p hp).trans ((hsame p hp).trans (hend p hp))
    have hkept : ∀ p ∈ [Part.records, .tip, .pnext, .mempool], p.Same n1 t := by
      intro p hp
      by_cases hrecords : p = .records
      · exact hrecords ▸ hstops.records hopen
      · exact hstops.writes p (by revert p; decide)
    refine ⟨fun p hp => ?_, ?_⟩
    · have hobserved : p ∈ observedParts := by revert p; decide
      exact (hbefore p hobserved).trans ((hkept p hp).trans (hend p hobserved))
    · rw [hall, hstops.asBefore_iff hopen hfiles1]
      refine ⟨fun hfirst hInter' plan' n1' hinter' hplan' => ?_, fun hfirst => hfirst hInter plan n1 hinter hplan⟩
      obtain rfl := Option.some.inj (hinter.symm.trans hinter')
      rw [hplan] at hplan'
      cases hplan'
      exact hfirst

end SetBestChain

namespace Sample

def FilesFilled (n : Node) : Prop :=
  ∀ nFile nBlockPos block, n.files.readBlock nFile nBlockPos = some block → block.vtx ≠ []

theorem filesFilled_chainNode (best : Nat) : FilesFilled (chainNode best) := by
  intro nFile nBlockPos block hread
  have hread' : (if nFile = 1 ∧ nBlockPos.toNat % 1000 = 8
      then some (chainBlock (nBlockPos.toNat / 1000)) else none) = some block := hread
  split at hread'
  · cases hread'
    simp [chainBlock]
  · cases hread'

theorem FilesFilled.withBlock (h : FilesFilled n) (nFile nBlockPos : UInt32) {block : CBlock}
    (hblock : block.vtx ≠ []) : FilesFilled (withBlock n nFile nBlockPos block) := by
  unfold Sample.withBlock
  split
  · intro nFile' nBlockPos' block' hread
    have hread' : (if nFile' = nFile ∧ nBlockPos' = nBlockPos then some block
        else n.files.readBlock nFile' nBlockPos') = some block' := hread
    split at hread'
    · cases hread'
      exact hblock
    · exact h _ _ _ hread'
  · exact h

theorem filesFilled_greedyNode : FilesFilled greedyNode := by
  unfold greedyNode
  rw [List.foldl_cons, List.foldl_cons, List.foldl_nil]
  refine FilesFilled.withBlock ?_ _ _ (by simp [greedyBlock])
  refine FilesFilled.withBlock ?_ _ _ (by simp [forkBlock])
  exact FilesFilled.withBlock (filesFilled_chainNode 500) _ _ (by simp [forkBlock])

theorem greedyNode_fails : (setBestChain env greedyBlock (forkHash 501) greedyNode).1
    = .error (.reject 0 "SetBestChain() : Reorganize failed") := by
  decide +kernel

theorem greedyNode_atomic_iff : (∀ p ∈ [Part.records, .tip, .pnext, .mempool],
      p.Same greedyNode (setBestChain env greedyBlock (forkHash 501) greedyNode).2) ∧
    (AsBefore greedyNode (setBestChain env greedyBlock (forkHash 501) greedyNode).2 ↔
      ∀ hInter plan n1, pindexIntermediate greedyNode (forkHash 501) = some hInter →
        prepareReorganize hInter (opened greedyNode) = (.ok plan, n1) → FailsFirst env n1 plan) :=
  setBestChain_atomic_iff filesFilled_greedyNode (Exec.eq_of_fst greedyNode_fails)

/-- The failed call has sent notifications to the wallets, and has recorded the supply of the blocks it
    had connected. -/
theorem greedyNode_leaves_traces : (setBestChain env greedyBlock (forkHash 501) greedyNode).1
      = .error (.reject 0 "SetBestChain() : Reorganize failed") ∧
    ¬ Part.wallet.Same greedyNode (setBestChain env greedyBlock (forkHash 501) greedyNode).2 ∧
    ¬ Part.supply.Same greedyNode (setBestChain env greedyBlock (forkHash 501) greedyNode).2 := by
  refine ⟨greedyNode_fails, fun hwallet => ?_, fun hsupply => ?_⟩
  · have hlength := congrArg List.length hwallet
    exact absurd hlength (by decide +kernel)
  · exact absurd (hsupply (forkHash 499)) (by decide +kernel)

end Sample

end PupaCoin
