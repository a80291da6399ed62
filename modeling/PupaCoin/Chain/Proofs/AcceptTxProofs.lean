import PupaCoin.Chain.AcceptTx
import PupaCoin.Chain.Sample
import PupaCoin.Lib.Ends

/-!
# Loose transactions: parents in the memory pool

The scan for missing inputs only looks into the index. So a transaction one of whose parents is in the pool alone is
reported to have missing inputs, and an accepted transaction, which is in the pool alone, does not help its orphans:
when they are tried again nothing changes but the flag.
-/

namespace PupaCoin

variable {t : TxNode} {hash h : UInt256} {ignoreFees : Bool}

open Exec (Ends Frame)

variable {s : TxNode}

namespace TxEnv

variable {E : TxEnv} {rules : FeeRules} {tx : CTransaction} {s s' : TxNode}

/-- The checks of the inputs leave the node, the orphans and the flag as they are. -/
def KeepsNode (s s' : TxNode) : Prop :=
  s'.node = s.node ∧ s'.orphans = s.orphans ∧ s'.fMissingInputs = s.fMissingInputs

theorem KeepsNode.refl (s : TxNode) : KeepsNode s s := ⟨rfl, rfl, rfl⟩

theorem KeepsNode.trans (a b c : TxNode) (hab : KeepsNode a b) (hbc : KeepsNode b c) : KeepsNode a c :=
  ⟨hbc.1.trans hab.1, hbc.2.1.trans hab.2.1, hbc.2.2.trans hab.2.2⟩

theorem limitFreeTx_keepsNode (nSize : Nat) : Frame KeepsNode (limitFreeTx E nSize) := by
  refine Frame.bind KeepsNode.trans (Frame.read KeepsNode.refl) fun s => ?_
  refine Frame.bind KeepsNode.trans (Frame.update fun _ => ⟨rfl, rfl, rfl⟩) fun _ => ?_
  split
  · exact Frame.stop KeepsNode.refl _
  · exact Frame.update fun _ => ⟨rfl, rfl, rfl⟩

theorem checkFeeRules_keepsNode (nFees : Int) : Frame KeepsNode (checkFeeRules E rules tx nFees) := by
  have hrelay : Frame KeepsNode (checkRelayFee E rules tx nFees) := by
    unfold checkRelayFee
    split
    · exact Frame.pure KeepsNode.refl _
    · refine Frame.bind KeepsNode.trans (Frame.lift KeepsNode.refl _) fun _ => ?_
      split
      · exact limitFreeTx_keepsNode _
      · exact Frame.pure KeepsNode.refl _
  exact Frame.bind KeepsNode.trans hrelay fun _ => Frame.lift KeepsNode.refl _

theorem checkInputs_keepsNode (E : TxEnv) (rules : FeeRules) (tx : CTransaction) :
    Frame KeepsNode (checkInputs E rules tx) := by
  refine Frame.bind KeepsNode.trans (Frame.read KeepsNode.refl) fun s => ?_
  refine Frame.bind KeepsNode.trans (Frame.lift KeepsNode.refl _) fun fetched => ?_
  exact Frame.bind KeepsNode.trans (checkFeeRules_keepsNode _) fun _ => Frame.lift KeepsNode.refl _

theorem checkLoose_new (h : checkLoose E s tx = .ok ()) :
    s.inPool (E.env.getHash tx) = false ∧ s.containsTx (E.env.getHash tx) = false := by
  unfold checkLoose at h
  obtain ⟨_, -, h⟩ := Guards.bind_eq_ok.mp h
  obtain ⟨_, -, h⟩ := Guards.bind_eq_ok.mp h
  obtain ⟨_, -, h⟩ := Guards.bind_eq_ok.mp h
  obtain ⟨_, -, h⟩ := Guards.bind_eq_ok.mp h
  obtain ⟨_, hpool, h⟩ := Guards.bind_eq_ok.mp h
  obtain ⟨_, -, h⟩ := Guards.bind_eq_ok.mp h
  obtain ⟨_, -, h⟩ := Guards.bind_eq_ok.mp h
  exact ⟨rejectIf_eq_ok.mp hpool, rejectIf_eq_ok.mp h⟩

theorem acceptToMemoryPool_eq (E : TxEnv) (rules : FeeRules) (tx : CTransaction) (s : TxNode) :
    acceptToMemoryPool E rules tx s = ((Exec.lift (checkLoose E s tx) : TxM Unit) >>= fun _ =>
        if lacksInputs s tx then
          Exec.update (fun s => { s with fMissingInputs := true }) >>= fun _ => Exec.stop (.reject 0 "")
        else checkInputs E rules tx >>= fun _ => Exec.update (TxNode.store E tx)) s.clearFlag := rfl

theorem acceptToMemoryPool_of_loose {stop : Stop} (h : checkLoose E s tx = .error stop) :
    acceptToMemoryPool E rules tx s = (.error stop, s.clearFlag) := by
  rw [acceptToMemoryPool_eq, h, Exec.lift_error_bind, Exec.stop_apply]

theorem acceptToMemoryPool_of_lacks (h : checkLoose E s tx = .ok ()) (hlacks : lacksInputs s tx = true) :
    acceptToMemoryPool E rules tx s = (.error (.reject 0 ""), { s with fMissingInputs := true }) := by
  rw [acceptToMemoryPool_eq, h, Exec.lift_ok_bind, if_pos hlacks]
  rfl

theorem acceptToMemoryPool_of_inputs (h : checkLoose E s tx = .ok ()) (hlacks : lacksInputs s tx = false) :
    acceptToMemoryPool E rules tx s =
      (checkInputs E rules tx >>= fun _ => Exec.update (TxNode.store E tx)) s.clearFlag := by
  rw [acceptToMemoryPool_eq, h, Exec.lift_ok_bind, hlacks]
  rfl

theorem reportsMissing_iff (h : checkLoose E s tx = .ok ()) :
    ReportsMissing E rules tx s ↔ ∃ txin ∈ tx.vin, s.containsTx txin.prevout.hash = false := by
  have hscan : lacksInputs s tx = true ↔ ∃ txin ∈ tx.vin, s.containsTx txin.prevout.hash = false := by
    simp [lacksInputs]
  rw [← hscan]
  constructor
  · rintro ⟨-, hflag⟩
    by_contra hno
    rw [acceptToMemoryPool_of_inputs h (Bool.eq_false_iff.mpr hno)] at hflag
    have hkeep : ∀ r : TxNode, r.fMissingInputs = s.clearFlag.fMissingInputs → r.fMissingInputs = true → False := by
      intro r hr htrue
      exact nomatch htrue.symm.trans hr
    rcases hrun : checkInputs E rules tx s.clearFlag with ⟨result, t⟩
    have ht : t.fMissingInputs = s.clearFlag.fMissingInputs :=
      ((checkInputs_keepsNode E rules tx).apply hrun).2.2
    cases result with
    | ok _ =>
      rw [Exec.bind_of_ok hrun] at hflag
      exact hkeep _ ht hflag
    | error _ =>
      rw [Exec.bind_of_error hrun] at hflag
      exact hkeep _ ht hflag
  · intro hlacks
    rw [ReportsMissing, acceptToMemoryPool_of_lacks h hlacks]
    exact ⟨⟨0, "", rfl⟩, rfl⟩

theorem Accepts.inv (h : Accepts E rules tx s) : s.containsTx (E.env.getHash tx) = false ∧
    (acceptToMemoryPool E rules tx s).2.orphans = s.orphans ∧ (acceptToMemoryPool E rules tx s).2.node =
      { s.node with mempool := s.node.mempool.addUnchecked (E.env.getHash tx) tx } := by
  have hloose : checkLoose E s tx = .ok () := by
    rcases hloose : checkLoose E s tx with stop | ⟨⟩
    · rw [Accepts, acceptToMemoryPool_of_loose hloose] at h
      exact nomatch h
    · rfl
  have hscan : lacksInputs s tx = false := by
    by_contra hyes
    rw [Accepts, acceptToMemoryPool_of_lacks hloose (Bool.eq_true_of_not_eq_false hyes)] at h
    exact nomatch h
  rw [Accepts, acceptToMemoryPool_of_inputs hloose hscan] at h
  rw [acceptToMemoryPool_of_inputs hloose hscan]
  rcases hrun : checkInputs E rules tx s.clearFlag with ⟨result, t⟩
  obtain ⟨hnode, horphans, -⟩ := (checkInputs_keepsNode E rules tx).apply hrun
  have hnew : s.containsTx (E.env.getHash tx) = false := (checkLoose_new hloose).2
  cases result with
  | error _ =>
    rw [Exec.bind_of_error hrun] at h
    exact nomatch h
  | ok _ =>
    rw [Exec.bind_of_ok hrun]
    refine ⟨hnew, horphans, ?_⟩
    change { t.node with mempool := t.node.mempool.addUnchecked (E.env.getHash tx) tx } = _
    rw [hnode]
    rfl

def Quiet (s t : TxNode) : Prop := t = { s with fMissingInputs := t.fMissingInputs }

theorem Quiet.refl (s : TxNode) : Quiet s s := rfl

theorem Quiet.setFlag (h : Quiet s t) (b : Bool) : Quiet s { t with fMissingInputs := b } := by
  rw [Quiet, h]

theorem Quiet.orphans (h : Quiet s t) : t.orphans = s.orphans := by
  rw [h]

theorem Quiet.node (h : Quiet s t) : t.node = s.node := by
  rw [h]

theorem Quiet.lacksInputs (h : Quiet s t) (tx : CTransaction) : lacksInputs t tx = lacksInputs s tx := by
  rw [h]
  rfl

theorem verdict_of_lacks (hlacks : lacksInputs s tx = true) :
    Ends (Quiet s) (TxM.verdict (acceptToMemoryPool E rules tx)) (fun b t => Quiet s t ∧ b = false)
      fun _ => Quiet s := by
  intro t ht
  have hlacks' : lacksInputs t tx = true := (ht.lacksInputs tx).trans hlacks
  have hrun : ∃ stop b, acceptToMemoryPool E rules tx t = (.error stop, { t with fMissingInputs := b }) := by
    rcases hloose : checkLoose E t tx with stop | ⟨⟩
    · exact ⟨stop, false, acceptToMemoryPool_of_loose hloose⟩
    · exact ⟨_, true, acceptToMemoryPool_of_lacks hloose hlacks'⟩
  obtain ⟨stop, b, hrun⟩ := hrun
  unfold TxM.verdict
  rw [hrun]
  cases stop with
  | reject nDoS message =>
    refine ⟨fun a s' h => ?_, fun e s' h => nomatch (Prod.mk.inj h).1⟩
    obtain ⟨ha, rfl⟩ := Prod.mk.inj h
    exact ⟨ht.setFlag b, (Except.ok.inj ha).symm⟩
  | exception what =>
    refine ⟨fun a s' h => (nomatch (Prod.mk.inj h).1), fun e s' h => ?_⟩
    rw [← (Prod.mk.inj h).2]
    exact ht.setFlag b
  | undefined what =>
    refine ⟨fun a s' h => (nomatch (Prod.mk.inj h).1), fun e s' h => ?_⟩
    rw [← (Prod.mk.inj h).2]
    exact ht.setFlag b

theorem orphanAt_of_find (h : s.orphans.mapOrphanTransactions.find? hash = some tx) :
    Ends (Quiet s) (orphanAt hash) (fun a t => Quiet s t ∧ a = tx) fun _ => Quiet s := by
  refine Ends.of_returns fun t ht => ⟨tx, t, ?_, ht, rfl⟩
  have hfind : t.orphans.mapOrphanTransactions.find? hash = some tx := by rw [ht.orphans, h]
  rw [orphanAt, Exec.read_bind]
  rw [hfind]
  rfl

/-- An orphan that spends an output of a transaction that is not in the index is not accepted, so nothing is queued
    after it. -/
theorem tryOrphan_quiet (hnew : s.containsTx h = false) (hspends : s.orphans.Spends h hash)
    (vWorkQueue : List UInt256) (queues : List UInt256 × List UInt256) :
    Ends (fun t => Quiet s t ∧ queues.1 = vWorkQueue) (tryOrphan E queues hash)
      (fun queues t => Quiet s t ∧ queues.1 = vWorkQueue) fun _ => Quiet s := by
  obtain ⟨orphanTx, hfind, txin, hmem, hprev⟩ := hspends
  have hlacks : lacksInputs s orphanTx = true := by
    refine List.any_eq_true.mpr ⟨txin, hmem, ?_⟩
    rw [hprev, hnew]
    rfl
  refine Ends.of_fact fun hqueues => ?_
  refine Ends.bind (orphanAt_of_find hfind) fun a => Ends.of_fact fun ha => ?_
  subst ha
  refine Ends.bind (verdict_of_lacks hlacks) fun b => Ends.of_fact fun hb => ?_
  subst hb
  refine Ends.bind_read fun w hw => ?_
  refine Ends.ite (fun _ => Ends.pure fun t ht => ?_) fun _ => Ends.pure fun t ht => ?_
  · exact ⟨ht ▸ hw, hqueues⟩
  · exact ⟨ht ▸ hw, hqueues⟩

theorem workLoop_nil (fuel : Nat) (vEraseQueue : List UInt256) :
    workLoop E fuel [] vEraseQueue = (pure vEraseQueue : TxM (List UInt256)) := by
  cases fuel <;> rfl

theorem workLoop_quiet (hindexed : s.orphans.Indexed) (hnew : s.containsTx h = false) (fuel : Nat)
    (vEraseQueue : List UInt256) :
    Ends (Quiet s) (workLoop E fuel [h] vEraseQueue) (fun _ => Quiet s) fun _ => Quiet s := by
  cases fuel with
  | zero => exact Ends.pure fun t ht => ht
  | succ fuel =>
    refine Ends.bind_read fun w hw => ?_
    have hsame : w.orphans = s.orphans := hw.orphans
    split
    · rw [workLoop_nil]
      exact Ends.pure fun t ht => ht ▸ hw
    · rename_i hashes hfind
      have hspends : ∀ hash ∈ hashes.sort (· ≤ ·), s.orphans.Spends h hash := by
        intro hash hmem
        refine (hindexed.listed h hash).mp ⟨hashes, ?_, (Finset.mem_sort _).mp hmem⟩
        rw [← hsame, hfind]
      have hround : ∀ hash ∈ hashes.sort (· ≤ ·), ∀ queues,
          Ends (fun t => Quiet s t ∧ queues.1 = []) (tryOrphan E queues hash) (fun queues t => Quiet s t ∧ queues.1 = [])
            fun _ => Quiet s := fun hash hmem queues => tryOrphan_quiet hnew (hspends hash hmem) [] queues
      have hloop := Ends.foldlM_mem (J := fun queues t => Quiet s t ∧ queues.1 = []) hround ([], vEraseQueue)
      refine Ends.bind (hloop.pre fun t ht => ⟨ht ▸ hw, rfl⟩) fun queues => Ends.of_fact fun hqueues => ?_
      rw [hqueues, workLoop_nil]
      exact Ends.pure fun t ht => ht

theorem processOrphans_node (hindexed : s.orphans.Indexed) (hnew : s.containsTx h = false) :
    (processOrphans E h s).2.node = s.node := by
  have hends : Ends (Quiet s) (processOrphans E h) (fun _ t => t.node = s.node) fun _ t => t.node = s.node := by
    refine Ends.bind_read fun w hw => ?_
    have hloop := workLoop_quiet (E := E) hindexed hnew (w.orphans.mapOrphanTransactions.size + 1) []
    refine Ends.bind ?_ fun vEraseQueue => Ends.update fun t ht => ht
    exact hloop.mono (fun t ht => ht ▸ hw) (fun _ t ht => ht.node) fun _ t ht => ht.node
  exact hends.leaves (Quiet.refl s)

theorem processTx_node (hindexed : s.orphans.Indexed) (haccepts : Accepts E ⟨true, false, ignoreFees⟩ tx s) :
    (processTx E ignoreFees tx s).2.node = (acceptToMemoryPool E ⟨true, false, ignoreFees⟩ tx s).2.node := by
  obtain ⟨hnew, horphans, hnode⟩ := haccepts.inv
  rcases hrun : acceptToMemoryPool E ⟨true, false, ignoreFees⟩ tx s with ⟨result, t⟩
  obtain rfl : result = .ok () := by
    have h := haccepts
    rw [Accepts, hrun] at h
    exact h
  rw [hrun] at horphans hnode
  have hverdict : TxM.verdict (acceptToMemoryPool E ⟨true, false, ignoreFees⟩ tx) s = (.ok true, t) := by
    rw [TxM.verdict, hrun]
  rw [processTx, Exec.bind_of_ok hverdict]
  have hnew' : t.containsTx (E.env.getHash tx) = false := by
    rw [TxNode.containsTx, hnode]
    exact hnew
  have hindexed' : t.orphans.Indexed := by rwa [horphans]
  exact processOrphans_node (s := { t with relayed := t.relayed ++ [tx] }) hindexed' hnew'

theorem moved_iff {children : List CTransaction} (hindexed : s.orphans.Indexed)
    (haccepts : Accepts E ⟨true, false, ignoreFees⟩ tx s)
    (hvalid : ValidDescendants E (acceptToMemoryPool E ⟨true, false, ignoreFees⟩ tx s).2 [tx] children) :
    (∀ child ∈ children, Moved E child (processTx E ignoreFees tx s).2) ↔ children = [] := by
  cases hvalid with
  | nil => simp
  | @cons _ _ rest child hfind hspends hchild _ =>
    refine iff_of_false (fun hall => ?_) (by simp)
    have hpool : (processTx E ignoreFees tx s).2.inPool (E.env.getHash child) = true := (hall child (by simp)).1
    have hnot := (checkLoose_new hchild.1).1
    rw [TxNode.inPool, processTx_node hindexed haccepts] at hpool
    exact nomatch hnot.symm.trans hpool

/-- Missing inputs are reported rightly unless a parent is in the pool alone, and for that reason no orphan, of all the
    valid descendants of an accepted transaction, is moved into the pool. The orphans are those of any calls. -/
theorem missingInputs_iff (E : TxEnv) :
    (∀ (rules : FeeRules) (tx : CTransaction) (s : TxNode), checkLoose E s tx = .ok () →
      ((ReportsMissing E rules tx s ↔ LacksParent tx s) ↔ ¬ HasPoolParent tx s)) ∧
    ∀ (ignoreFees : Bool) (tx : CTransaction) (s : TxNode) (cs : List OrphanTxs.Call) (children : List CTransaction),
      OrphanTxs.empty.calls E.env.getHash cs = some s.orphans →
      Accepts E ⟨true, false, ignoreFees⟩ tx s →
      ValidDescendants E (acceptToMemoryPool E ⟨true, false, ignoreFees⟩ tx s).2 [tx] children →
      ((∀ child ∈ children, Moved E child (processTx E ignoreFees tx s).2) ↔ children = []) := by
  constructor
  · intro rules tx s hloose
    rw [reportsMissing_iff hloose]
    constructor
    · rintro hright ⟨hall, hone⟩
      obtain ⟨txin, hmem, hindex, hpool⟩ := hright.mp hone
      rcases hall txin hmem with h | h
      · exact nomatch hindex.symm.trans h
      · exact nomatch hpool.symm.trans h
    · intro hno
      constructor
      · intro hone
        by_contra hlacks
        refine hno ⟨fun txin hmem => ?_, hone⟩
        by_contra hneither
        rw [not_or, Bool.not_eq_true, Bool.not_eq_true] at hneither
        exact hlacks ⟨txin, hmem, hneither⟩
      · rintro ⟨txin, hmem, hindex, -⟩
        exact ⟨txin, hmem, hindex⟩
  · intro ignoreFees tx s cs children hcalls haccepts hvalid
    obtain ⟨s', hs', hindexed⟩ := OrphanTxs.indexed_empty.calls E.env.getHash cs
    obtain rfl : s' = s.orphans := Option.some.inj (hs'.symm.trans hcalls)
    exact moved_iff hindexed haccepts hvalid

end TxEnv

namespace Sample

def spendTx (k : Nat) (prev : UInt256) (nValue : Int) : CTransaction where
  nVersion := 1
  nTime := blockTime k
  vin := [⟨⟨prev, 0⟩, [2, 1, 1, 2, 1, 1], 0xffffffff⟩]
  vout := [⟨nValue, [0x76, 0xa9, 0x14] ++ List.replicate 20 7 ++ [0x88, 0xac]⟩]
  nLockTime := UInt32.ofNat k

def storedTx : CTransaction := spendTx 10 0xdead (5 * coin)
def parentTx : CTransaction := spendTx 20 10 (5 * coin - 20000)
def childTx : CTransaction := spendTx 30 20 (5 * coin - 40000)

def txEnv : TxEnv where
  env := env
  scriptEnv _ _ := scriptEnv []
  mapMNengineBroadcastTxes _ := false
  nLimitFreeRelay := 15
  getRandHash _ := 0

def txNode : TxNode where
  node :=
    { chainNode 0 with
      pdb := Function.update (chainDb 0) (.tx 10) (some (.txIndex ⟨⟨1, 8, 89⟩, [.null]⟩))
      files := { chainFiles with readTx := fun _ p => if p = 89 then some storedTx else none } }
  orphans := (OrphanTxs.empty.addOrphanTx env.getHash childTx).2
  dFreeCount := 0
  nLastTime := 0
  fMissingInputs := false
  synced := []
  relayed := []

def acceptedNode : TxNode := (TxEnv.acceptToMemoryPool txEnv TxEnv.orphanRules parentTx txNode).2

end Sample

namespace TxEnv

open Sample in
theorem validDescendants_child : ValidDescendants txEnv acceptedNode [parentTx] [childTx] := by
  refine .cons ?_ ⟨⟨⟨20, 0⟩, [2, 1, 1, 2, 1, 1], 0xffffffff⟩, by decide, parentTx, by simp, by decide⟩ ⟨?_, ?_⟩
    (.nil _ _)
  · decide
  · decide
  · decide

theorem accepts_parent : Accepts Sample.txEnv orphanRules Sample.parentTx Sample.txNode := by
  unfold Accepts
  decide

open Sample in
theorem missingInputs_iff_child :
    ((ReportsMissing txEnv orphanRules childTx acceptedNode ↔ LacksParent childTx acceptedNode)
      ↔ ¬ HasPoolParent childTx acceptedNode) ∧
    ((∀ child ∈ [childTx], Moved txEnv child (processTx txEnv false parentTx txNode).2) ↔ [childTx] = []) :=
  ⟨(missingInputs_iff txEnv).1 orphanRules childTx acceptedNode (by decide),
    (missingInputs_iff txEnv).2 false parentTx txNode [.add childTx] [childTx] rfl accepts_parent
      validDescendants_child⟩

open Sample in
/-- The parent is in the pool and yet reported missing, and its orphan stays where it is. -/
theorem poolParent_missing : checkLoose txEnv acceptedNode childTx = .ok () ∧
    ¬ (ReportsMissing txEnv orphanRules childTx acceptedNode ↔ LacksParent childTx acceptedNode) ∧
    Accepts txEnv orphanRules parentTx txNode ∧ ValidDescendants txEnv acceptedNode [parentTx] [childTx] ∧
    ¬ Moved txEnv childTx (processTx txEnv false parentTx txNode).2 := by
  have hloose : checkLoose txEnv acceptedNode childTx = .ok () := by decide
  refine ⟨hloose, ?_, accepts_parent, validDescendants_child, ?_⟩
  · rw [reportsMissing_iff hloose]
    intro hright
    have hindex : ∃ txin ∈ childTx.vin, acceptedNode.containsTx txin.prevout.hash = false := by
      refine ⟨⟨⟨20, 0⟩, [2, 1, 1, 2, 1, 1], 0xffffffff⟩, by decide, ?_⟩
      decide
    obtain ⟨txin, hmem, -, hpool⟩ := hright.mp hindex
    obtain rfl : txin = ⟨⟨20, 0⟩, [2, 1, 1, 2, 1, 1], 0xffffffff⟩ := List.mem_singleton.mp hmem
    have hin : acceptedNode.inPool 20 = true := by decide
    exact nomatch hpool.symm.trans hin
  · have hindexed : txNode.orphans.Indexed := OrphanTxs.indexed_empty.addOrphanTx childTx
    intro hmoved
    have hall : ∀ child ∈ [childTx], Moved txEnv child (processTx txEnv false parentTx txNode).2 := by
      intro child hchild
      rw [List.mem_singleton.mp hchild]
      exact hmoved
    exact List.cons_ne_nil _ _ ((moved_iff hindexed accepts_parent validDescendants_child).mp hall)

end TxEnv

end PupaCoin
