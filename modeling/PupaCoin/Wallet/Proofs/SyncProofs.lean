import PupaCoin.Lib.Ends
import PupaCoin.Wallet.Proofs.SpentFlagsProofs

/-!
# What `SyncTransaction` does to the entries of a wallet

`AddToWallet` inserts the transaction or merges it into its entry, and none of the loops of `SyncTransaction` changes a
transaction. The loop that marks coins as spent is the one that inserts others: it asks the wallet for the parent of
each input by subscript.
-/

namespace PupaCoin

section Sync

variable {env : Env} {call : WalletCall} {tx : CTransaction} {pblock : Option CBlock} {fConnect fFixSpentCoins : Bool}
  {w w' : WalletState} {hash : UInt256} {wtx wtxIn : WalletTx}

theorem txs_of_find (hfind : w.mapWallet.find? hash = some wtx) : w.txs hash = some wtx.tx := by
  unfold WalletState.txs
  rw [hfind, Option.map_some]

theorem txs_setTx (w : WalletState) (hash : UInt256) (wtx : WalletTx) :
    (w.setTx hash wtx).txs = Function.update w.txs hash (some wtx.tx) := by
  funext hash'
  show ((w.mapWallet.set hash wtx).find? hash').map _ = _
  by_cases heq : hash' = hash
  · rw [heq, OrderedMap.find?_set_self, Function.update_self]
    rfl
  · rw [OrderedMap.find?_set_of_ne _ _ heq, Function.update_of_ne heq]
    rfl

theorem txs_setTx_same (h : w.txs hash = some wtx.tx) : (w.setTx hash wtx).txs = w.txs := by
  rw [txs_setTx]
  exact Function.update_eq_self_iff.mpr h.symm

theorem Refreshed.txs_eq (h : Refreshed w w') : w'.txs = w.txs := by
  funext hash
  have hview := congrArg (Option.map fun view : CMerkleTx × Int × Bool => view.1.tx) (h.mapWallet hash)
  rwa [Option.map_map, Option.map_map] at hview

theorem AddsAtMost.keyed (h : w.AddsAtMost env tx w') (hkeyed : w.Keyed env) : w'.Keyed env := by
  intro hash tx' htx'
  rcases h hash with hsame | ⟨hhash, -, hnew⟩
  · exact hkeyed hash tx' (hsame ▸ htx')
  · rw [hnew] at htx'
    rw [← Option.some.inj htx', hhash]

theorem storeTx_txs (hash : UInt256) (wtx : WalletTx) (fChanged : Bool) (w : WalletState) :
    ∃ w', storeTx env call hash wtx fChanged w = (.ok (!fChanged || call.writeTx wtx.toTxRecord), w') ∧
      w'.txs = w.txs := by
  unfold storeTx writeToDisk
  cases fChanged with
  | false => exact ⟨_, rfl, (Refreshed.markDirty w hash).txs_eq⟩
  | true =>
    cases hwrite : call.writeTx wtx.toTxRecord with
    | false => exact ⟨w, rfl, rfl⟩
    | true => exact ⟨_, rfl, (Refreshed.markDirty _ hash).txs_eq⟩

theorem insertNew_eq (call : WalletCall) (hash : UInt256) (wtxIn : WalletTx) (w : WalletState) :
    insertNew call hash wtxIn w =
      match (w.inserted hash (w.newEntry call wtxIn)).nTimeSmart call hash (w.newEntry call wtxIn) with
      | .error e => (.error e, w.inserted hash (w.newEntry call wtxIn))
      | .ok nTimeSmart => (.ok { w.newEntry call wtxIn with nTimeSmart },
          (w.inserted hash (w.newEntry call wtxIn)).setTx hash { w.newEntry call wtxIn with nTimeSmart }) := by
  have hrun : insertNew call hash wtxIn w = (do
      let nTimeSmart ← Exec.lift ((w.inserted hash (w.newEntry call wtxIn)).nTimeSmart call hash (w.newEntry call wtxIn))
      Exec.update (WalletState.setTx hash { w.newEntry call wtxIn with nTimeSmart })
      return { w.newEntry call wtxIn with nTimeSmart } : WalletM WalletTx) (w.inserted hash (w.newEntry call wtxIn)) :=
    rfl
  rw [hrun]
  cases (w.inserted hash (w.newEntry call wtxIn)).nTimeSmart call hash (w.newEntry call wtxIn) <;> rfl

theorem txs_inserted (w : WalletState) (hash : UInt256) (wtx : WalletTx) :
    (w.inserted hash wtx).txs = Function.update w.txs hash (some wtx.tx) :=
  txs_setTx { w with nOrderPosNext := w.nOrderPosNext + 1 } hash wtx

/-- `AddToWallet` of a transaction: it stops where the smart time does, and otherwise its entry is there. -/
theorem addToWallet_entered (wtxIn : WalletTx) (w : WalletState) :
    (∀ e, w.entered env call wtxIn = .error e → ∃ w', addToWallet env call wtxIn false w = (.error e, w')) ∧
    (∀ wtx fChanged, w.entered env call wtxIn = .ok (wtx, fChanged) →
      ∃ w', addToWallet env call wtxIn false w = (.ok (!fChanged || call.writeTx wtx.toTxRecord), w') ∧
        w'.txs = (w.setTx (env.getHash wtxIn.tx) wtx).txs) := by
  unfold addToWallet
  rw [if_neg Bool.false_ne_true, Exec.read_bind]
  cases hfind : w.mapWallet.find? (env.getHash wtxIn.tx) with
  | some wtx =>
    have hentered : w.entered env call wtxIn = .ok (wtx.markDirty.merge wtxIn) := by
      unfold WalletState.entered
      rw [hfind]
    rw [hentered]
    refine ⟨fun e he => (by cases he), fun wtx' fChanged hmerge => ?_⟩
    have hstored : mergeToWallet env call wtx wtxIn w = storeTx env call (env.getHash wtxIn.tx)
        (wtx.markDirty.merge wtxIn).1 (wtx.markDirty.merge wtxIn).2
        (w.setTx (env.getHash wtxIn.tx) (wtx.markDirty.merge wtxIn).1) := rfl
    rw [Except.ok.inj hmerge] at hstored
    obtain ⟨w', hstore, htxs⟩ := @storeTx_txs env call (env.getHash wtxIn.tx) wtx' fChanged
      (w.setTx (env.getHash wtxIn.tx) wtx')
    exact ⟨w', hstored.trans hstore, htxs⟩
  | none =>
    have hentered : w.entered env call wtxIn = (do
        let nTimeSmart ← (w.inserted (env.getHash wtxIn.tx) (w.newEntry call wtxIn)).nTimeSmart call
          (env.getHash wtxIn.tx) (w.newEntry call wtxIn)
        return ({ w.newEntry call wtxIn with nTimeSmart }, true)) := by
      unfold WalletState.entered
      rw [hfind]
    rw [hentered]
    cases hsmart : (w.inserted (env.getHash wtxIn.tx) (w.newEntry call wtxIn)).nTimeSmart call
        (env.getHash wtxIn.tx) (w.newEntry call wtxIn) with
    | error e =>
      refine ⟨fun e' he => ?_, fun wtx fChanged hwtx => (by cases hwtx)⟩
      rw [← Except.error.inj he]
      exact ⟨_, Exec.bind_of_error ((insertNew_eq ..).trans (by rw [hsmart])) _⟩
    | ok nTimeSmart =>
      refine ⟨fun e he => (by cases he), fun wtx fChanged hwtx => ?_⟩
      obtain ⟨rfl, rfl⟩ := Prod.mk.inj (Except.ok.inj hwtx)
      obtain ⟨w', hstore, htxs⟩ := @storeTx_txs env call (env.getHash wtxIn.tx)
        { w.newEntry call wtxIn with nTimeSmart } true
        ((w.inserted (env.getHash wtxIn.tx) (w.newEntry call wtxIn)).setTx (env.getHash wtxIn.tx)
          { w.newEntry call wtxIn with nTimeSmart })
      refine ⟨w', (Exec.bind_of_ok ((insertNew_eq ..).trans (by rw [hsmart])) _).trans hstore, htxs.trans ?_⟩
      rw [txs_setTx, txs_setTx, txs_inserted, Function.update_idem]

theorem walletTxOf_tx (tx : CTransaction) (pblock : Option CBlock) : (walletTxOf env call tx pblock).tx = tx := by
  cases pblock with
  | none => rfl
  | some block =>
    show (CMerkleTx.setMerkleBranch env block (CMerkleTx.ofTx tx)).tx = tx
    unfold CMerkleTx.setMerkleBranch
    split <;> rfl

theorem isFromMe_of_txs (h : w'.txs = w.txs) (tx : CTransaction) : w'.isFromMe call tx = w.isFromMe call tx := by
  have hdebit : w'.addDebit call = w.addDebit call := by
    funext nDebit txin
    have hin : w'.getDebitIn call txin = w.getDebitIn call txin := by
      have hprev := congrFun h txin.prevout.hash
      unfold WalletState.txs at hprev
      unfold WalletState.getDebitIn
      cases hfind : w.mapWallet.find? txin.prevout.hash with
      | none =>
        rw [hfind, Option.map_none, Option.map_eq_none_iff] at hprev
        rw [hprev]
      | some prev =>
        rw [hfind, Option.map_some] at hprev
        obtain ⟨prev', hprev', htx⟩ := Option.map_eq_some_iff.mp hprev
        rw [hprev']
        dsimp only
        rw [htx]
    unfold WalletState.addDebit
    rw [hin]
  unfold WalletState.isFromMe
  rw [hdebit]

theorem involvesMe_of_known {tx' : CTransaction} (h : w.txs (env.getHash tx) = some tx') :
    w.involvesMe env call tx = .ok true := by
  obtain ⟨wtx, hfind, -⟩ := Option.map_eq_some_iff.mp h
  unfold WalletState.involvesMe
  rw [hfind]
  rfl

theorem addToWalletIfInvolvingMe_eq : addToWalletIfInvolvingMe env call tx pblock w =
    ((liftM (w.involvesMe env call tx) : WalletM Bool) >>= fun involved =>
      if involved then addToWallet env call (walletTxOf env call tx pblock) false else pure false) w := rfl

theorem addToWalletIfInvolvingMe_of_error {e : Stop} (h : w.involvesMe env call tx = .error e) :
    addToWalletIfInvolvingMe env call tx pblock w = (.error e, w) := by
  rw [addToWalletIfInvolvingMe_eq, h]
  rfl

theorem addToWalletIfInvolvingMe_of_ok {involved : Bool} (h : w.involvesMe env call tx = .ok involved) :
    addToWalletIfInvolvingMe env call tx pblock w =
      if involved then addToWallet env call (walletTxOf env call tx pblock) false w else (.ok false, w) := by
  rw [addToWalletIfInvolvingMe_eq, h]
  cases involved <;> rfl

/-- The computation returns, and leaves the transactions of the wallet as they are. -/
def KeepsTxs {α : Type} (txs : UInt256 → Option CTransaction) (m : WalletM α) : Prop :=
  Exec.Ends (fun w => w.txs = txs) m (fun _ w => w.txs = txs) fun _ _ => False

variable {txs : UInt256 → Option CTransaction}

theorem writeToDisk_keeps (env : Env) (call : WalletCall) (wtx : WalletTx) : KeepsTxs txs (writeToDisk env call wtx) := by
  refine Exec.Ends.ite (fun _ => ?_) fun _ => Exec.Ends.pure fun w hw => hw
  exact Exec.Ends.bind (Exec.Ends.update fun w hw => hw) fun _ => Exec.Ends.pure fun w hw => hw

theorem markDirty_keeps (tx : CTransaction) : KeepsTxs txs (tx.vin.forM fun txin =>
    Exec.update (WalletState.modifyTx txin.prevout.hash WalletTx.markDirty) : WalletM Unit) :=
  Exec.Ends.forM_mem fun txin _ => Exec.Ends.update fun w hw => (Refreshed.markDirty w txin.prevout.hash).txs_eq.trans hw

theorem replaced_keeps (env : Env) (call : WalletCall) (h : txs hash = some wtx.tx) : KeepsTxs txs (do
    Exec.update (WalletState.setTx hash wtx) let _ ← writeToDisk env call wtx return () : WalletM Unit) := by
  refine Exec.Ends.bind (Exec.Ends.update fun w hw => ?_) fun _ =>
    Exec.Ends.bind (writeToDisk_keeps env call wtx) fun _ => Exec.Ends.pure fun w hw => hw
  rw [txs_setTx_same (hw ▸ h), hw]

theorem refundInput_keeps (env : Env) (call : WalletCall) (txin : CTxIn) : KeepsTxs txs (refundInput env call txin) := by
  refine Exec.Ends.bind_read fun w hw => ?_
  cases hfind : w.mapWallet.find? txin.prevout.hash with
  | none => exact Exec.Ends.pure fun w' hw' => hw' ▸ hw
  | some prev =>
    dsimp only
    cases hout : prev.tx.vout[txin.prevout.n.toNat]? with
    | none => exact Exec.Ends.pure fun w' hw' => hw' ▸ hw
    | some txout =>
      refine Exec.Ends.ite (fun _ => ?_) fun _ => Exec.Ends.pure fun w' hw' => hw' ▸ hw
      have hlt : txin.prevout.n.toNat < prev.tx.vout.length := (List.getElem?_eq_some_iff.mp hout).1
      have hmark : prev.markUnspent txin.prevout.n.toNat = .ok (prev.setSpent false txin.prevout.n.toNat) :=
        if_neg (not_le.mpr hlt)
      rw [hmark]
      refine (@replaced_keeps txin.prevout.hash _ _ env call ?_).pre fun w' hw' => hw' ▸ hw
      rw [WalletTx.setSpent_tx, ← hw]
      exact txs_of_find hfind

theorem fixSpentCoin_keeps (env : Env) (call : WalletCall) {txin : CTxIn} {coin : CTransaction}
    (hcoin : txs txin.prevout.hash = some coin) (hlt : txin.prevout.n.toNat < coin.vout.length) :
    KeepsTxs txs (fixSpentCoin env call txin) := by
  refine Exec.Ends.of_start fun w hw => ?_
  have hcoin' : w.txs txin.prevout.hash = some coin := by rw [hw, hcoin]
  obtain ⟨wtx, hfind, htx⟩ := Option.map_eq_some_iff.mp hcoin'
  have hmark : wtx.markDirty.markSpent txin.prevout.n.toNat = .ok (wtx.markDirty.setSpent true txin.prevout.n.toNat) :=
    if_neg (by show ¬wtx.tx.vout.length ≤ _; rw [htx]; omega)
  have hrun : fixSpentCoin env call txin w = (do
      let coin' ← Exec.lift (wtx.markDirty.markSpent txin.prevout.n.toNat)
      Exec.update (WalletState.setTx txin.prevout.hash coin')
      let _ ← writeToDisk env call coin'
      return () : WalletM Unit) (w.setTx txin.prevout.hash wtx.markDirty) :=
    Exec.bind_of_ok (entryOf_of_some hfind) _
  rw [hmark, Exec.lift_ok_bind] at hrun
  refine Exec.Ends.of_returns fun w' hw' => ?_
  rw [hw', hrun]
  refine (replaced_keeps env call ?_).returns ?_
  · rw [WalletTx.setSpent_tx]
    exact hcoin.trans (congrArg some htx.symm)
  · have hsame : w.txs txin.prevout.hash = some wtx.markDirty.tx := hcoin'.trans (congrArg some htx.symm)
    rw [txs_setTx_same hsame, hw]

theorem fixSpentCoin_stops {txin : CTxIn} (h : ∀ coin, w.txs txin.prevout.hash = some coin →
      coin.vout.length ≤ txin.prevout.n.toNat) : ∃ e w', fixSpentCoin env call txin w = (.error e, w') := by
  have hentry : ∃ wtx w₁, entryOf call txin.prevout.hash w = (.ok wtx, w₁) ∧
      wtx.tx.vout.length ≤ txin.prevout.n.toNat := by
    cases hfind : w.mapWallet.find? txin.prevout.hash with
    | some wtx => exact ⟨wtx, w, entryOf_of_some hfind, h wtx.tx (txs_of_find hfind)⟩
    | none =>
      refine ⟨.ofTx call.uninitialized (WalletTx.emptyTx call.nAdjustedTime),
        w.setTx txin.prevout.hash (.ofTx call.uninitialized (WalletTx.emptyTx call.nAdjustedTime)), ?_, ?_⟩
      · unfold entryOf
        rw [Exec.read_bind, hfind]
        rfl
      · exact Nat.zero_le txin.prevout.n.toNat
  obtain ⟨wtx, w₁, hentry, hge⟩ := hentry
  have hmark : wtx.markDirty.markSpent txin.prevout.n.toNat =
      .error (.exception "CWalletTx::MarkSpent() : nOut out of range") := if_pos hge
  have hrun : fixSpentCoin env call txin w = (do
      let coin' ← Exec.lift (wtx.markDirty.markSpent txin.prevout.n.toNat)
      Exec.update (WalletState.setTx txin.prevout.hash coin')
      let _ ← writeToDisk env call coin'
      return () : WalletM Unit) (w₁.setTx txin.prevout.hash wtx.markDirty) :=
    Exec.bind_of_ok hentry _
  rw [hmark] at hrun
  exact ⟨_, _, hrun⟩

theorem fixSpentCoins_keeps (env : Env) (call : WalletCall) {tx : CTransaction} (h : ∀ txin ∈ tx.vin, ∃ coin,
      txs txin.prevout.hash = some coin ∧ txin.prevout.n.toNat < coin.vout.length) :
    KeepsTxs txs (tx.vin.forM (fixSpentCoin env call) : WalletM Unit) :=
  Exec.Ends.forM_mem fun txin hmem => by
    obtain ⟨coin, hcoin, hlt⟩ := h txin hmem
    exact fixSpentCoin_keeps env call hcoin hlt

theorem coins_of_fixSpentCoins {vin : List CTxIn} (hrun : vin.forM (fixSpentCoin env call) w = (.ok (), w'))
    (htxs : w.txs = txs) : ∀ txin ∈ vin, ∃ coin, txs txin.prevout.hash = some coin ∧
      txin.prevout.n.toNat < coin.vout.length := by
  induction vin generalizing w with
  | nil => exact nofun
  | cons txin vin ih =>
    obtain ⟨_, w₁, hfirst, hrest⟩ := Exec.bind_returns.mp hrun
    by_cases hthere : ∃ coin, txs txin.prevout.hash = some coin ∧ txin.prevout.n.toNat < coin.vout.length
    · obtain ⟨coin, hcoin, hlt⟩ := hthere
      have hw₁ : w₁.txs = txs := (fixSpentCoin_keeps env call hcoin hlt w htxs).1 _ _ hfirst
      exact List.forall_mem_cons.mpr ⟨⟨coin, hcoin, hlt⟩, ih hrest hw₁⟩
    · obtain ⟨e, w₂, hstop⟩ := @fixSpentCoin_stops env call w txin fun coin hcoin =>
        not_lt.mp fun hlt => hthere ⟨coin, htxs ▸ hcoin, hlt⟩
      rw [hstop] at hfirst
      cases hfirst

theorem entered_tx {fChanged : Bool} (h : w.entered env call wtxIn = .ok (wtx, fChanged)) :
    w.txs (env.getHash wtxIn.tx) = some wtx.tx ∨ (w.txs (env.getHash wtxIn.tx) = none ∧ wtx.tx = wtxIn.tx) := by
  unfold WalletState.entered at h
  cases hfind : w.mapWallet.find? (env.getHash wtxIn.tx) with
  | some wtx' =>
    rw [hfind] at h
    have hmerged : wtx = (wtx'.markDirty.merge wtxIn).1 := (congrArg Prod.fst (Except.ok.inj h)).symm
    refine Or.inl ?_
    rw [txs_of_find hfind, hmerged]
    exact congrArg some (congrArg (fun view => view.1.tx) (WalletTx.merge_historyView wtx'.markDirty wtxIn) |>.trans
      (CMerkleTx.merge_tx wtx'.toCMerkleTx wtxIn.toCMerkleTx)).symm
  | none =>
    rw [hfind] at h
    obtain ⟨nTimeSmart, -, hwtx⟩ := Guards.bind_eq_ok.mp h
    have hnew : wtx = { w.newEntry call wtxIn with nTimeSmart } := (congrArg Prod.fst (Except.ok.inj hwtx)).symm
    refine Or.inr ⟨Option.map_eq_none_iff.mpr hfind, ?_⟩
    rw [hnew]
    rfl

theorem entered_addsAtMost {fChanged : Bool}
    (hentered : w.entered env call (walletTxOf env call tx pblock) = .ok (wtx, fChanged))
    (hw' : w'.txs = (w.setTx (env.getHash tx) wtx).txs) : w.AddsAtMost env tx w' := by
  have htx := entered_tx hentered
  rw [walletTxOf_tx] at htx
  intro hash
  rw [hw', txs_setTx]
  by_cases heq : hash = env.getHash tx
  · rw [heq, Function.update_self]
    rcases htx with hold | ⟨hnone, hnew⟩
    · exact Or.inl hold.symm
    · exact Or.inr ⟨rfl, hnone, congrArg some hnew⟩
  · exact Or.inl (Function.update_of_ne heq _ _)

theorem addAgain_keeps (env : Env) (call : WalletCall) (tx : CTransaction) (pblock : Option CBlock)
    {tx' : CTransaction} (hknown : txs (env.getHash tx) = some tx') :
    KeepsTxs txs (addToWalletIfInvolvingMe env call tx pblock) := by
  refine Exec.Ends.of_returns fun w hw => ?_
  have hknown' : w.txs (env.getHash tx) = some tx' := by rw [hw, hknown]
  obtain ⟨wtx, hfind, -⟩ := Option.map_eq_some_iff.mp hknown'
  have hentered : ∃ wtx' fChanged, w.entered env call (walletTxOf env call tx pblock) = .ok (wtx', fChanged) := by
    unfold WalletState.entered
    rw [walletTxOf_tx, hfind]
    exact ⟨_, _, rfl⟩
  obtain ⟨wtx', fChanged, hentered⟩ := hentered
  obtain ⟨w', hadd, htxs⟩ := (addToWallet_entered (walletTxOf env call tx pblock) w).2 wtx' fChanged hentered
  have hsame : w.txs (env.getHash tx) = some wtx'.tx := by
    have htx := entered_tx hentered
    rw [walletTxOf_tx] at htx
    rcases htx with hold | ⟨hnone, -⟩
    · exact hold
    · exact absurd (hknown'.symm.trans hnone) (Option.some_ne_none _)
  rw [walletTxOf_tx, txs_setTx_same hsame] at htxs
  refine ⟨!fChanged || call.writeTx wtx'.toTxRecord, w', ?_, htxs.trans hw⟩
  rw [addToWalletIfInvolvingMe_of_ok (involvesMe_of_known hknown'), if_pos rfl, hadd]

theorem syncDisconnected_keeps_txs (env : Env) (call : WalletCall) (tx : CTransaction)
    (h : tx.isCoinStake = true → ∀ w : WalletState, w.txs = txs → ∃ fFromMe, w.isFromMe call tx = .ok fFromMe) :
    KeepsTxs txs (syncDisconnected env call tx) := by
  have hloop : KeepsTxs txs (tx.vin.forM (refundInput env call) : WalletM Unit) :=
    Exec.Ends.forM_mem fun txin _ => refundInput_keeps env call txin
  have hskip : KeepsTxs txs (pure () : WalletM Unit) := Exec.Ends.pure fun w hw => hw
  have hfromMe : ∀ (m : WalletM Unit), KeepsTxs txs m → tx.isCoinStake = true → ∀ w : WalletState, w.txs = txs →
      KeepsTxs txs (do
        let fFromMe ← Exec.lift (w.isFromMe call tx)
        if fFromMe then m else return () : WalletM Unit) := by
    intro m hm hstake w hw
    obtain ⟨fFromMe, hfrom⟩ := h hstake w hw
    rw [hfrom, Exec.lift_ok_bind]
    exact Exec.Ends.ite (fun _ => hm) fun _ => hskip
  have hdisable : KeepsTxs txs (disableTransaction env call tx) := by
    refine Exec.Ends.bind_read fun w hw => Exec.Ends.ite (fun hstake => ?_) fun _ => ?_
    · exact (hfromMe _ hloop hstake w hw).pre fun w' hw' => hw' ▸ hw
    · exact hskip.pre fun w' hw' => hw' ▸ hw
  refine Exec.Ends.bind_read fun w hw => Exec.Ends.ite (fun hstake => ?_) fun _ => ?_
  · exact (hfromMe _ hdisable hstake w hw).pre fun w' hw' => hw' ▸ hw
  · exact hskip.pre fun w' hw' => hw' ▸ hw

theorem syncTransaction_of_enters (h : w.Enters env call tx pblock wtx) (fConnect fFixSpentCoins : Bool) :
    ∃ w₂, w₂.txs = (w.setTx (env.getHash tx) wtx).txs ∧ syncTransaction env call tx pblock fConnect fFixSpentCoins w =
        (if fConnect then syncConnected env call tx pblock fFixSpentCoins else syncDisconnected env call tx) w₂ := by
  obtain ⟨hinvolved, fChanged, hentered, hwrite⟩ := h
  obtain ⟨w₁, hadd, htxs⟩ := (addToWallet_entered (walletTxOf env call tx pblock) w).2 wtx fChanged hentered
  have hadded : (!fChanged || call.writeTx wtx.toTxRecord) = true := by
    cases fChanged with
    | false => rfl
    | true => exact hwrite rfl
  rw [hadded] at hadd
  rw [walletTxOf_tx] at htxs
  have hfirst : addToWalletIfInvolvingMe env call tx pblock w = (.ok true, w₁) := by
    rw [addToWalletIfInvolvingMe_of_ok hinvolved, if_pos rfl, hadd]
  obtain ⟨_, w₂, hdirty, hw₂⟩ := (@markDirty_keeps w₁.txs tx).returns rfl
  refine ⟨w₂, hw₂.trans htxs, ?_⟩
  unfold syncTransaction
  rw [Exec.bind_of_ok hfirst, if_pos rfl, Exec.bind_of_ok hdirty]

/-- Nothing that is looked at is out of range or missing, so `SyncTransaction` returns. -/
theorem SyncSafe.addsNothingForeign (h : SyncSafe env call tx pblock fConnect fFixSpentCoins w) :
    SyncAddsNothingForeign env call tx pblock fConnect fFixSpentCoins w := by
  have hdone : ∀ w', syncTransaction env call tx pblock fConnect fFixSpentCoins w = (.ok (), w') →
      w.AddsAtMost env tx w' → SyncAddsNothingForeign env call tx pblock fConnect fFixSpentCoins w :=
    fun w' hrun hadds => ⟨w', hrun, hadds, AddsAtMost.keyed hadds⟩
  obtain ⟨involved, hinvolved⟩ := h.involvesMe
  cases involved with
  | false =>
    refine hdone w ?_ fun hash => Or.inl rfl
    unfold syncTransaction
    rw [Exec.bind_of_ok (addToWalletIfInvolvingMe_of_ok hinvolved)]
    rfl
  | true =>
    obtain ⟨⟨wtx, fChanged⟩, hentered⟩ := h.entered hinvolved
    by_cases hwrite : fChanged = true → call.writeTx wtx.toTxRecord = true
    · have henters : w.Enters env call tx pblock wtx := ⟨hinvolved, fChanged, hentered, hwrite⟩
      obtain ⟨w₂, hw₂, hrun⟩ := syncTransaction_of_enters henters fConnect fFixSpentCoins
      have hknown : (w.setTx (env.getHash tx) wtx).txs (env.getHash tx) = some wtx.tx := by
        rw [txs_setTx, Function.update_self]
      have hkeeps : KeepsTxs (w.setTx (env.getHash tx) wtx).txs
          (if fConnect then syncConnected env call tx pblock fFixSpentCoins else syncDisconnected env call tx) := by
        refine Exec.Ends.ite (fun hconnect => ?_) fun hconnect => ?_
        · refine Exec.Ends.bind (addAgain_keeps env call tx pblock hknown) fun _ => Exec.Ends.ite (fun hfix => ?_) fun _ =>
            Exec.Ends.pure fun w hw => hw
          exact fixSpentCoins_keeps env call (h.coins hconnect hfix wtx henters)
        · refine syncDisconnected_keeps_txs env call tx fun hstake w' hw' => ?_
          rw [isFromMe_of_txs hw']
          exact h.isFromMe (Bool.eq_false_iff.mpr hconnect) hstake wtx henters
      obtain ⟨_, w', hbranch, hw'⟩ := hkeeps.returns hw₂
      exact hdone w' (hrun.trans hbranch) (entered_addsAtMost hentered hw')
    · obtain ⟨hfresh, hfails⟩ := Classical.not_imp.mp hwrite
      obtain ⟨w', hadd, htxs⟩ := (addToWallet_entered (walletTxOf env call tx pblock) w).2 wtx fChanged hentered
      rw [hfresh, Bool.eq_false_iff.mpr hfails] at hadd
      rw [walletTxOf_tx] at htxs
      refine hdone w' ?_ (entered_addsAtMost hentered htxs)
      unfold syncTransaction
      have hfirst : addToWalletIfInvolvingMe env call tx pblock w = (.ok false, w') := by
        rw [addToWalletIfInvolvingMe_of_ok hinvolved, if_pos rfl, hadd]
        rfl
      rw [Exec.bind_of_ok hfirst]
      rfl

theorem SyncAddsNothingForeign.safe (h : SyncAddsNothingForeign env call tx pblock fConnect fFixSpentCoins w) :
    SyncSafe env call tx pblock fConnect fFixSpentCoins w := by
  obtain ⟨w', hrun, -, -⟩ := h
  have hfirst : ∃ added w₁, addToWalletIfInvolvingMe env call tx pblock w = (.ok added, w₁) := by
    obtain ⟨added, w₁, hfirst, -⟩ := Exec.bind_returns.mp hrun
    exact ⟨added, w₁, hfirst⟩
  obtain ⟨added, w₁, hfirst⟩ := hfirst
  refine ⟨?_, fun hinvolved => ?_, fun hconnect hstake wtx henters => ?_, fun hconnect hfix wtx henters => ?_⟩
  · cases hinvolved : w.involvesMe env call tx with
    | ok involved => exact ⟨involved, rfl⟩
    | error e =>
      rw [addToWalletIfInvolvingMe_of_error hinvolved] at hfirst
      cases hfirst
  · rw [addToWalletIfInvolvingMe_of_ok hinvolved, if_pos rfl] at hfirst
    cases hentered : w.entered env call (walletTxOf env call tx pblock) with
    | ok r => exact ⟨r, rfl⟩
    | error e =>
      obtain ⟨w₂, hstop⟩ := (addToWallet_entered (walletTxOf env call tx pblock) w).1 e hentered
      rw [hstop] at hfirst
      cases hfirst
  · obtain ⟨w₂, hw₂, hsync⟩ := syncTransaction_of_enters henters fConnect fFixSpentCoins
    rw [hrun, hconnect, if_neg Bool.false_ne_true] at hsync
    unfold syncDisconnected at hsync
    rw [Exec.read_bind, if_pos hstake] at hsync
    obtain ⟨fFromMe, w₃, hfrom, -⟩ := Exec.bind_returns.mp hsync.symm
    refine ⟨fFromMe, ?_⟩
    rw [← isFromMe_of_txs hw₂]
    exact (Exec.liftM_returns.mp hfrom).1
  · obtain ⟨w₂, hw₂, hsync⟩ := syncTransaction_of_enters henters fConnect fFixSpentCoins
    rw [hrun, hconnect, if_pos rfl] at hsync
    obtain ⟨_, w₃, hagain, hloop⟩ := Exec.bind_returns.mp hsync.symm
    rw [if_pos hfix] at hloop
    have hknown : (w.setTx (env.getHash tx) wtx).txs (env.getHash tx) = some wtx.tx := by
      rw [txs_setTx, Function.update_self]
    exact coins_of_fixSpentCoins hloop ((addAgain_keeps env call tx pblock hknown w₂ hw₂).1 _ _ hagain)

/-- `SyncTransaction` throws nothing and adds nothing foreign exactly where nothing that it looks at is out of range
or missing. -/
theorem syncTransaction_addsNothingForeign (env : Env) (call : WalletCall) (tx : CTransaction) (pblock : Option CBlock)
    (fConnect fFixSpentCoins : Bool) (w : WalletState) :
    SyncAddsNothingForeign env call tx pblock fConnect fFixSpentCoins w ↔
      SyncSafe env call tx pblock fConnect fFixSpentCoins w :=
  ⟨SyncAddsNothingForeign.safe, SyncSafe.addsNothingForeign⟩

end Sync

namespace Sample

/-- A payment to the wallet from an output that is not one of its own: an empty transaction is inserted under the hash
of the parent, and its output cannot be marked. -/
theorem syncTransaction_insertsForeign : ∃ w', syncTransaction env walletCall paymentTx none true true emptyHistory =
        (.error (.exception "CWalletTx::MarkSpent() : nOut out of range"), w') ∧
      w'.txs 5 = some (WalletTx.emptyTx 0) ∧ env.getHash (WalletTx.emptyTx 0) ≠ 5 ∧
      ¬SyncAddsNothingForeign env walletCall paymentTx none true true emptyHistory := by
  refine ⟨_, rfl, rfl, by decide, fun h => ?_⟩
  obtain ⟨w', hrun, -⟩ := h
  exact nomatch congrArg Prod.fst hrun

end Sample

end PupaCoin
