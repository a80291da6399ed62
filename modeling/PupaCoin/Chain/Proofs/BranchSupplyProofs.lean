import PupaCoin.Chain.Proofs.InputsProofs
import PupaCoin.Chain.Proofs.ResurrectProofs
import PupaCoin.Chain.Proofs.SupplyProofs

/-!
# The supply check of a reorganisation

`bIndexFactor` reads the supply that the index holds for the new tip before the branch is connected.
`ConnectBlock` writes it: behind the loop that connects, every entry of the branch holds the supply at the
fork and what the branch has created up to it (`connectBranch_counted`).
-/

namespace PupaCoin

open Exec (Frame)

variable {n n' n1 : Node} {st st' : ConnectState} {hash b hNew : UInt256} {posThisTx : CDiskTxPos}
  {pindexBlock : List CBlockIndex} {flags : Nat} {fValidateSig : Bool} {queue' : QueuedChanges}
  {txs vDelete : List CTransaction} {t : BlockTree} {pfork : CBlockIndex}

/-! ## The transaction index -/

/-- What is found in the transaction index was there, at the same position. -/
def Unmoved (n n' : Node) : Prop :=
  ∀ hash txindex, n'.view.readTxIndex hash = some txindex →
    ∃ txindex₀, n.view.readTxIndex hash = some txindex₀ ∧ txindex₀.pos = txindex.pos

theorem SameTxIndex.unmoved (h : SameTxIndex n n') : Unmoved n n' := by
  intro hash txindex hread
  rw [h] at hread
  exact ⟨txindex, hread, rfl⟩

namespace Unmoved

theorem refl (n : Node) : Unmoved n n := fun _ txindex h => ⟨txindex, h, rfl⟩

theorem trans (a b c : Node) (hab : Unmoved a b) (hbc : Unmoved b c) : Unmoved a c := by
  intro hash txindex hread
  obtain ⟨txindex₁, hread₁, hpos₁⟩ := hbc hash txindex hread
  obtain ⟨txindex₀, hread₀, hpos₀⟩ := hab hash txindex₁ hread₁
  exact ⟨txindex₀, hread₀, hpos₀.trans hpos₁⟩

end Unmoved

namespace SameTxIndex

variable {α β : Type} {env : Env} {m : NodeM α} {f : α → NodeM β}

theorem refl (n : Node) : SameTxIndex n n := rfl

theorem trans (a b c : Node) (hab : SameTxIndex a b) (hbc : SameTxIndex b c) : SameTxIndex a c :=
  Eq.trans hbc hab

theorem frame_bind (hm : Frame SameTxIndex m) (hf : ∀ a, Frame SameTxIndex (f a)) :
    Frame SameTxIndex (m >>= f) := Frame.bind trans hm hf

theorem of_dbApply {op : Overlay.Op DbKey DbVal} (hop : ∀ hash, op.key ≠ .tx hash) (n : Node) :
    SameTxIndex n (n.dbApply op) := by
  unfold SameTxIndex
  funext hash
  rw [Node.view_dbApply]
  unfold Db.readTxIndex Overlay.Op.apply
  rw [Function.update_of_ne (hop hash).symm]

theorem of_writes {ps : List Part} (h : Writes ps n n') (hrecords : .records ∉ ps)
    (hbatch : .batch ∉ ps) : SameTxIndex n n' := by
  have hpdb : ∀ hash, n'.pdb (.tx hash) = n.pdb (.tx hash) := fun hash => h .records hrecords _ (by simp)
  have hopen : n'.activeBatch = n.activeBatch := h .batch hbatch
  unfold SameTxIndex
  funext hash
  unfold Db.readTxIndex Node.view
  rw [hopen]
  cases n.activeBatch with
  | none => simp only [hpdb]
  | some batch => simp only [Overlay.get, hpdb]

theorem writeBlockIndex (blockindex : CDiskBlockIndex) : Frame SameTxIndex (writeBlockIndex env blockindex) :=
  Frame.update fun n => of_dbApply (by simp [Overlay.Op.key]) n

theorem writeAddrIndex (addrHash : BitVec 160) (txHash : UInt256) :
    Frame SameTxIndex (writeAddrIndex addrHash txHash) := by
  refine Frame.update fun n => ?_
  cases n.view.readAddrIndex addrHash with
  | none => exact of_dbApply (by simp [Overlay.Op.key]) n
  | some txHashes =>
    simp only
    split
    · exact refl n
    · exact of_dbApply (by simp [Overlay.Op.key]) n

theorem writeAddrIndexes (block : CBlock) : Frame SameTxIndex (block.writeAddrIndexes env) := by
  unfold CBlock.writeAddrIndexes
  split
  · refine Frame.forM refl trans (fun tx => ?_) _
    exact frame_bind (Frame.read refl) fun n => frame_bind (Frame.lift refl _) fun addrIds =>
      Frame.forM refl trans (fun addrId => writeAddrIndex addrId _) addrIds
  · exact Frame.pure refl _

theorem writePrevBlockIndex (pindex : CBlockIndex) (hashNext : UInt256) :
    Frame SameTxIndex (CBlock.writePrevBlockIndex env pindex hashNext) := by
  unfold CBlock.writePrevBlockIndex
  split
  · exact Frame.pure refl _
  · exact frame_bind (fun n => refl n) fun pprev => writeBlockIndex _

theorem syncWithWallets (block : CBlock) (fConnect : Bool) :
    Frame SameTxIndex (syncWithWallets block fConnect) := fun n => refl n

end SameTxIndex

theorem readTxIndex_put (hash key : UInt256) (txindex : CTxIndex) :
    (n.dbApply (.put (.tx key) (.txIndex txindex))).view.readTxIndex hash
      = if hash = key then some txindex else n.view.readTxIndex hash := by
  rw [Node.view_dbApply]
  unfold Db.readTxIndex Overlay.Op.apply
  by_cases heq : hash = key
  · subst heq
    simp [Overlay.Op.key, Overlay.Op.value]
  · rw [Function.update_of_ne (by simpa [Overlay.Op.key] using heq), if_neg heq]

theorem readTxIndex_delete (hash key : UInt256) :
    (n.dbApply (.delete (.tx key))).view.readTxIndex hash = if hash = key then none else n.view.readTxIndex hash := by
  rw [Node.view_dbApply]
  unfold Db.readTxIndex Overlay.Op.apply
  by_cases heq : hash = key
  · subst heq
    simp [Overlay.Op.key, Overlay.Op.value]
  · rw [Function.update_of_ne (by simpa [Overlay.Op.key] using heq), if_neg heq]

/-- Writing entries to the transaction index one after the other. By induction on the entries; a later one
    is under another hash. -/
theorem forM_updateTxIndex_reads {entries : List (Sigma fun _ : UInt256 => CTxIndex)}
    (hnodup : entries.NodupKeys)
    (h : (entries.forM fun entry => updateTxIndex entry.1 entry.2 : NodeM Unit) n = (.ok (), n')) (hash : UInt256) :
    n'.view.readTxIndex hash = (entries.dlookup hash).or (n.view.readTxIndex hash) := by
  induction entries generalizing n with
  | nil =>
    obtain rfl : n = n' := congrArg Prod.snd h
    rfl
  | cons entry entries ih =>
    change (updateTxIndex entry.1 entry.2 >>= fun _ => entries.forM _) n = _ at h
    obtain ⟨_, n1, hput, hrest⟩ := Exec.bind_returns.mp h
    rw [updateTxIndex_apply, Prod.mk.injEq] at hput
    rw [List.nodupKeys_cons] at hnodup
    rw [ih hnodup.2 hrest, ← hput.2, readTxIndex_put]
    by_cases heq : hash = entry.1
    · have hnone : entries.dlookup hash = none := by
        rw [List.dlookup_eq_none, heq]
        exact hnodup.1
      rw [if_pos heq, hnone, heq, List.dlookup_cons_eq]
      rfl
    · rw [if_neg heq, List.dlookup_cons_ne _ _ heq]

namespace CBlock

variable {env : Env} {block : CBlock} {n n' : Node} {pindex : CBlockIndex}

theorem connectWrites_reads
    (h : connectWrites env block pindex st n = (.ok (), n')) (hash : UInt256) : n'.view.readTxIndex hash
      = CTransaction.foundEntry n.view.readTxIndex st.mapQueuedChanges hash := by
  unfold connectWrites at h
  obtain ⟨_, n1, hqueue, hrest⟩ := Exec.bind_returns.mp h
  have hframe : SameTxIndex n1 n' := by
    refine Exec.Frame.apply (SameTxIndex.frame_bind (SameTxIndex.writeAddrIndexes block) fun _ => ?_) hrest
    exact SameTxIndex.frame_bind (SameTxIndex.writePrevBlockIndex pindex _) fun _ =>
      SameTxIndex.syncWithWallets block true
  rw [hframe, forM_updateTxIndex_reads st.mapQueuedChanges.nodupKeys hqueue]
  change (st.mapQueuedChanges.lookup hash).or _ = _
  unfold CTransaction.foundEntry
  split
  · rename_i hmem
    obtain ⟨txindex, hlookup⟩ := Option.isSome_iff_exists.mp (AList.lookup_isSome.mpr hmem)
    rw [hlookup]
    rfl
  · rename_i hmem
    rw [AList.lookup_eq_none.mpr hmem]
    rfl

end CBlock

namespace CTransaction

variable {env : Env} {n m : Node} {readTxIndex : UInt256 → Option CTxIndex} {queue : QueuedChanges}
  {inputs : MapPrevTx} {tx : CTransaction} {positions : TxPositions}

theorem foundEntry_insert (hash key : UInt256) (txindex : CTxIndex) :
    foundEntry readTxIndex (queue.insert key txindex) hash
      = if hash = key then some txindex else foundEntry readTxIndex queue hash := by
  unfold foundEntry
  by_cases h : hash = key
  · subst h
    rw [if_pos (AList.mem_insert _ |>.mpr (Or.inl rfl)), AList.lookup_insert, if_pos rfl]
  · rw [if_neg h, AList.lookup_insert_ne h]
    simp [AList.mem_insert, h]

theorem readPrev_congr (hfiles : m.files = n.files) (hpool : m.mempool = n.mempool)
    {txindex txindex' : CTxIndex} (hpos : txindex'.pos = txindex.pos) :
    readPrev m hash txindex' = readPrev n hash txindex := by
  unfold readPrev
  rw [hfiles, hpool, hpos]

theorem connectInputs_keys (hmem : hash ∈ queue)
    (h : tx.connectInputs env n inputs queue posThisTx pindexBlock true false flags fValidateSig = .ok queue') :
    hash ∈ queue' := by
  unfold connectInputs at h
  split at h
  · obtain rfl := Except.ok.inj h
    exact hmem
  · simp only [Guards.bind_eq_ok] at h
    obtain ⟨_, _, maps, hloop, _, _, heq⟩ := h
    obtain rfl := Except.ok.inj heq
    refine Guards.foldlM_invariant (fun _ (maps : MapPrevTx × QueuedChanges) => hash ∈ maps.2) ?_
      tx.vin.zipIdx [] (inputs, queue) maps hmem hloop
    intro _ s txin s' hs hround
    obtain ⟨prev, spent, -, -, -, rfl⟩ := spendInput_spec hround
    exact AList.mem_insert _ |>.mpr (Or.inr hs)

/-- The positions say where what is found was stored. -/
def Locates (positions : TxPositions) (readTxIndex : UInt256 → Option CTxIndex) (queue : QueuedChanges) : Prop :=
  ∀ hash txindex, foundEntry readTxIndex queue hash = some txindex → positions hash = some txindex.pos

theorem takes_eq_spentValue (hfiles : m.files = n.files) (hpool : m.mempool = n.mempool)
    (hlocates : Locates positions readTxIndex queue) (hcb : tx.isCoinBase = false)
    (hfetch : tx.fetchInputs m readTxIndex queue true false = .ok inputs) :
    tx.takes n positions = tx.spentValue inputs := by
  obtain ⟨hfetched, hinputs⟩ := fetchInputs_spec hcb hfetch
  unfold takes spentValue
  rw [hcb, if_neg (by simp)]
  refine congrArg List.sum (List.map_congr_left fun txin htxin => ?_)
  obtain ⟨prev, hlookup, -, -⟩ := hinputs txin htxin
  obtain ⟨hfound, hread⟩ := hfetched _ prev hlookup
  have hstored : readPrev n txin.prevout.hash ⟨prev.1.pos, []⟩ = .ok prev.2 :=
    (readPrev_congr hfiles.symm hpool.symm rfl).trans hread
  unfold storedValue prevValue
  rw [hlocates _ _ hfound, hlookup, Option.bind_some, hstored]
  rfl

theorem Locates.connectInputs (hlocates : Locates positions readTxIndex queue)
    (hcb : tx.isCoinBase = false) (hfetch : tx.fetchInputs m readTxIndex queue true false = .ok inputs)
    (h : tx.connectInputs env n inputs queue posThisTx pindexBlock true false flags fValidateSig = .ok queue') :
    Locates positions readTxIndex queue' := by
  have hfetched := (fetchInputs_spec hcb hfetch).1
  have hqueue : ∀ hash txindex, queue.lookup hash = some txindex → positions hash = some txindex.pos := by
    intro hash txindex hlookup
    refine hlocates hash txindex ?_
    unfold foundEntry
    rw [if_pos (AList.lookup_isSome.mp (by rw [hlookup]; rfl)), hlookup]
  intro hash txindex hfound
  unfold foundEntry at hfound
  split at hfound
  · exact connectInputs_queued (K := fun hash txindex => positions hash = some txindex.pos)
      (fun _ _ _ _ _ hK _ _ => hK) (fun hash prev hlookup => hlocates hash _ (hfetched hash prev hlookup).1)
      hqueue h hash txindex hfound
  · rename_i hnot
    refine hlocates hash txindex ?_
    unfold foundEntry
    rw [if_neg fun hmem => hnot (connectInputs_keys hmem h)]
    exact hfound

theorem Locates.insert (hlocates : Locates positions readTxIndex queue) (key : UInt256) (pos : CDiskTxPos)
    (nOutputs : Nat) :
    Locates (Function.update positions key (some pos)) readTxIndex (queue.insert key (.new pos nOutputs)) := by
  intro hash txindex hfound
  rw [foundEntry_insert] at hfound
  split at hfound
  · rename_i heq
    rw [heq, Function.update_self, ← Option.some.inj hfound]
    rfl
  · rename_i hne
    rw [Function.update_of_ne hne]
    exact hlocates hash txindex hfound

end CTransaction

namespace CBlock

variable {env : Env} {block : CBlock} {n m : Node} {pindex pindexM : CBlockIndex} {c : BranchCount}
  {created : Int}

/-- The loop of `ConnectBlock` and the count agree. -/
structure Counted (m : Node) (st : ConnectState) (c : BranchCount) (created : Int) : Prop where
  locates : CTransaction.Locates c.positions m.view.readTxIndex st.mapQueuedChanges
  nTxPos : c.nTxPos = st.nTxPos
  created_eq : c.created = created + (st.nValueOut - st.nValueIn)

theorem connectTx_counted {tx : CTransaction} (hfiles : m.files = n.files)
    (hpool : m.mempool = n.mempool) (hfile : pindexM.nFile = pindex.nFile)
    (hblockPos : pindexM.nBlockPos = pindex.nBlockPos) (hc : Counted m st c created)
    (hround : connectTx env m pindexM false st tx = .ok st') : Counted m st' (countTx env n pindex c tx) created := by
  have hpos : txPos pindexM st = ⟨pindex.nFile, pindex.nBlockPos, c.nTxPos⟩ := by
    rw [txPos, hfile, hblockPos, hc.nTxPos]
  cases hcb : tx.isCoinBase with
  | true =>
    obtain ⟨out, hout, rfl⟩ := connectTx_of_coinbase hcb hround
    have hvalue := CTransaction.getValueOut_eq_ok hout
    refine ⟨?_, ?_, ?_⟩
    · rw [hpos]
      exact hc.locates.insert _ _ _
    · simp [countTx, nextTxPos, hc.nTxPos]
    · simp only [countTx, CTransaction.takes, hcb, if_true, hc.created_eq, hvalue]
      ring
  | false =>
    obtain ⟨inputs, nIn, nOut, queued, _, hspend, rfl⟩ := connectTx_of_spending hcb hround
    have hin := CTransaction.getValueMapIn_eq_ok hcb hspend.valueIn
    have hout := CTransaction.getValueOut_eq_ok hspend.valueOut
    have htakes := CTransaction.takes_eq_spentValue hfiles hpool hc.locates hcb hspend.fetched
    refine ⟨?_, ?_, ?_⟩
    · rw [hpos]
      exact (hc.locates.connectInputs hcb hspend.fetched hspend.connected).insert _ _ _
    · simp [countTx, nextTxPos, hc.nTxPos]
    · simp only [countTx, htakes, hc.created_eq, hin, hout]
      ring

theorem loop_counted {vtx : List CTransaction} (hfiles : m.files = n.files)
    (hpool : m.mempool = n.mempool) (hfile : pindexM.nFile = pindex.nFile)
    (hblockPos : pindexM.nBlockPos = pindex.nBlockPos) (hc : Counted m st c created)
    (hloop : vtx.foldlM (connectTx env m pindexM false) st = .ok st') :
    Counted m st' (vtx.foldl (countTx env n pindex) c) created := by
  induction vtx generalizing st c with
  | nil =>
    rw [Guards.foldlM_nil_eq_ok] at hloop
    rw [← hloop]
    exact hc
  | cons tx vtx ih =>
    obtain ⟨st1, hround, hrest⟩ := Guards.foldlM_cons_eq_ok.mp hloop
    rw [List.foldl_cons]
    exact ih (connectTx_counted hfiles hpool hfile hblockPos hc hround) hrest

end CBlock

section Branch

variable {env : Env} {n m m' : Node} {c : BranchCount} {pindex : CBlockIndex}

def Node.moneySupply (n : Node) (h : UInt256) : Option Int :=
  (n.mapBlockIndex.entries h).map CBlockIndex.nMoneySupply

theorem Node.moneySupply_of_same (h : Part.supply.Same m m') (hash : UInt256) :
    m'.moneySupply hash = m.moneySupply hash := by
  have hpair := congrArg (Option.map Prod.snd) (h hash)
  rw [Option.map_map, Option.map_map] at hpair
  exact hpair

/-- A node on the way of a reorganisation of `n` before its commit: the count knows where the transactions
    are. -/
structure Tracks (n m : Node) (c : BranchCount) : Prop where
  kept : Writes branchParts n m
  positions : ∀ hash txindex, m.view.readTxIndex hash = some txindex → c.positions hash = some txindex.pos

theorem Tracks.entry (ht : Tracks n m c) {h : UInt256} (he : n.mapBlockIndex.entries h = some pindex) :
    ∃ pindexM, m.mapBlockIndex.entries h = some pindexM ∧ pindexM.nFile = pindex.nFile ∧
      pindexM.nBlockPos = pindex.nBlockPos ∧ pindexM.pprev = pindex.pprev := by
  have hcore := ht.kept .index (by decide) h
  rw [he, Option.map_some] at hcore
  obtain ⟨pindexM, hM, hsame⟩ := Option.map_eq_some_iff.mp hcore
  simp only [CBlockIndex.core, CBlockIndex.mk.injEq] at hsame
  obtain ⟨-, hprev, -, hfile, hblockPos, -⟩ := hsame
  exact ⟨pindexM, hM, hfile, hblockPos, hprev⟩

theorem CTransaction.disconnectInputs_unmoved (tx : CTransaction) : Frame Unmoved (tx.disconnectInputs env) := by
  have herase : ∀ hash, Frame Unmoved (eraseTxIndex hash) := by
    intro hash
    refine Frame.update fun n key txindex hread => ⟨txindex, ?_, rfl⟩
    rw [readTxIndex_delete] at hread
    split_ifs at hread
    exact hread
  have hinput : ∀ txin, Frame Unmoved (disconnectInput txin) := by
    intro txin n
    unfold disconnectInput
    rw [Exec.read_bind]
    cases hfound : n.view.readTxIndex txin.prevout.hash with
    | none => exact Unmoved.refl n
    | some found =>
      simp only
      split
      · exact Unmoved.refl n
      · intro key txindex hread
        rw [updateTxIndex_apply, readTxIndex_put] at hread
        split_ifs at hread with heq
        · rw [heq, ← Option.some.inj hread]
          exact ⟨found, hfound, rfl⟩
        · exact ⟨txindex, hread, rfl⟩
  unfold disconnectInputs
  split
  · exact Frame.bind Unmoved.trans (Frame.forM Unmoved.refl Unmoved.trans hinput _) fun _ => herase _
  · exact herase _

theorem CBlock.disconnectBlock_unmoved (block : CBlock) (h : UInt256) :
    Frame Unmoved (block.disconnectBlock env h) := by
  unfold disconnectBlock
  refine Frame.bind Unmoved.trans (Frame.forM Unmoved.refl Unmoved.trans
    CTransaction.disconnectInputs_unmoved _) fun _ => Frame.bind Unmoved.trans (fun n => Unmoved.refl n)
      fun pindex => ?_
  exact Frame.bind Unmoved.trans
    (Frame.mono (fun _ _ => SameTxIndex.unmoved) (SameTxIndex.writePrevBlockIndex pindex 0)) fun _ =>
      Frame.mono (fun _ _ => SameTxIndex.unmoved) (SameTxIndex.syncWithWallets block false)

theorem disconnectBranchStep_unmoved (preorgmax : Int) (vResurrect : List CTransaction)
    (pindex : CBlockIndex) : Frame Unmoved (disconnectBranchStep env preorgmax vResurrect pindex) := by
  unfold disconnectBranchStep
  refine Frame.bind Unmoved.trans (Frame.read Unmoved.refl) fun n => ?_
  split
  · exact Frame.stop Unmoved.refl _
  · exact Frame.bind Unmoved.trans (onReject_frame Unmoved.trans (CBlock.disconnectBlock_unmoved _ _)
      (Frame.stop Unmoved.refl _)) fun _ => Frame.pure Unmoved.refl _

theorem disconnectBranch_tracks {branch : List CBlockIndex} {preorgmax : Int}
    {vResurrect : List CTransaction} (ht : Tracks n m c)
    (h : branch.foldlM (disconnectBranchStep env preorgmax) vResurrect m = (.ok txs, m')) :
    Tracks n m' c ∧ Part.supply.Same m m' := by
  have hwrites : Writes [.records, .batch, .wallet] m m' :=
    (Writes.frame_foldlM (fun txs pindex => disconnectBranchStep_writes env _ txs pindex) _ _).apply h
  have hunmoved : Unmoved m m' := (Frame.foldlM Unmoved.refl Unmoved.trans
    (fun txs pindex => disconnectBranchStep_unmoved preorgmax txs pindex) _ _).apply h
  refine ⟨⟨Writes.trans _ _ _ _ ht.kept (hwrites.mono (by decide)), ?_⟩, hwrites .supply (by decide)⟩
  intro hash txindex hread
  obtain ⟨txindex₀, hread₀, hpos⟩ := hunmoved hash txindex hread
  rw [← hpos]
  exact ht.positions hash txindex₀ hread₀

theorem connectBranchStep_counted (ht : Tracks n m c)
    (he : n.mapBlockIndex.entries pindex.phashBlock = some pindex)
    (h : connectBranchStep env vDelete pindex m = (.ok txs, m')) :
    Tracks n m' (countBlock env n c pindex) ∧ m'.moneySupply pindex.phashBlock
      = some ((pindex.pprev.bind m.moneySupply).getD 0 + ((countBlock env n c pindex).created - c.created)) := by
  have hwrites := (connectBranchStep_writes env vDelete pindex).apply h
  obtain ⟨block, n2, hread, hconnect, hvelocity, -⟩ := connectBranchStep_returns h
  obtain ⟨pindexC, n1, st, hconnects⟩ := CBlock.connectBlock_returns.mp hconnect
  obtain ⟨pindexM, hM, hfile, hblockPos, hprev⟩ := ht.entry he
  obtain rfl : pindexM = pindexC := Option.some.inj (hM.symm.trans hconnects.entry)
  obtain ⟨_, _, _, _, _, _, _, hn1⟩ := hconnects.limitsOnly
  have hview : n1.view = m.view := by rw [hn1]; rfl
  -- the count starts where the loop starts
  have hinit : CBlock.Counted n1 (CBlock.connectInit pindexM block false)
      { c with nTxPos := CBlock.firstTxPos pindex block false } c.created := by
    refine ⟨?_, ?_, ?_⟩
    · intro hash txindex hfound
      rw [hview] at hfound
      exact ht.positions hash txindex hfound
    · simp [CBlock.connectInit, CBlock.firstTxPos, hblockPos]
    · simp [CBlock.connectInit]
  have hfiles : m.files = n.files := ht.kept .files (by decide)
  have hpool : m.mempool = n.mempool := ht.kept .mempool (by decide)
  have hfiles1 : n1.files = n.files := by rw [hn1]; exact hfiles
  have hpool1 : n1.mempool = n.mempool := by rw [hn1]; exact hpool
  have hcounted := CBlock.loop_counted hfiles1 hpool1 hfile hblockPos hinit hconnects.loop
  have hcount : countBlock env n c pindex = block.vtx.foldl (countTx env n pindex)
      { c with nTxPos := CBlock.firstTxPos pindex block false } := by
    unfold countBlock
    rw [← readBlockFromDisk_congr hfiles, hread]
  rw [← hcount] at hcounted
  have hwritten := hconnects.writes
  rw [if_neg (by simp)] at hwritten
  refine ⟨⟨Writes.trans _ _ _ _ ht.kept (hwrites.mono (by decide)), ?_⟩, ?_⟩
  · intro hash txindex hfound
    have hrecorded : SameTxIndex n1 (CBlock.supplyRecorded env n1 pindex.phashBlock pindexM st) := by
      unfold CBlock.supplyRecorded
      exact SameTxIndex.of_dbApply (by simp [Overlay.Op.key])
        { n1 with mapBlockIndex := n1.mapBlockIndex.setSupply pindex.phashBlock _ _ }
    rw [SameTxIndex.of_writes hvelocity (by decide) (by decide), CBlock.connectWrites_reads hwritten,
      hrecorded] at hfound
    exact hcounted.locates hash txindex hfound
  · have hsupply : Part.supply.Same (CBlock.supplyRecorded env n1 pindex.phashBlock pindexM st) m' :=
      ((CBlock.connectWrites_writes env block pindexM st).apply hwritten .supply (by decide)).trans
        (hvelocity .supply (by decide))
    have hindex : n1.mapBlockIndex = m.mapBlockIndex := by rw [hn1]
    have hprevSupply : CBlock.prevMoneySupply n1 pindexM = (pindex.pprev.bind m.moneySupply).getD 0 := by
      unfold CBlock.prevMoneySupply Node.moneySupply
      rw [hindex, hprev, Option.map_bind]
      rfl
    rw [Node.moneySupply_of_same hsupply, hcounted.created_eq, ← hprevSupply]
    unfold Node.moneySupply CBlock.supplyRecorded
    simp only [Node.mapBlockIndex_dbApply, BlockTree.entries_setSupply, if_true, hindex, hM, Option.map_some,
      Option.some.injEq]
    ring

theorem branchAbove_fork (he : t.entries b = some pindex)
    (hb : b = pfork.phashBlock) : branchAbove pfork (t.chain b) = [] := by
  unfold branchAbove
  rw [BlockTree.chain_of_entry he, List.takeWhile_cons_of_neg]
  simp [t.hash_eq he, hb]

theorem branchAbove_child {p : UInt256}
    (he : t.entries b = some pindex) (hp : pindex.pprev = some p) (hb : b ≠ pfork.phashBlock) :
    branchAbove pfork (t.chain b) = pindex :: branchAbove pfork (t.chain p) := by
  unfold branchAbove
  rw [BlockTree.chain_of_pprev he hp, List.takeWhile_cons_of_pos]
  simp [t.hash_eq he, hb]

/-- What the count of the blocks above the fork says of the node behind the loop that connects them. -/
structure BranchCounted (env : Env) (n m' : Node) (c : BranchCount) (pfork : CBlockIndex) (b : UInt256)
    (supply : Int) : Prop where
  tracks : Tracks n m'
    ((branchAbove pfork (n.mapBlockIndex.chain b)).reverse.foldl (countBlock env n) c)
  supply_eq : m'.moneySupply b = some (supply
    + (((branchAbove pfork (n.mapBlockIndex.chain b)).reverse.foldl (countBlock env n) c).created - c.created))

/-- **The branch.** Behind the loop that connects, the end of the branch holds the supply of the fork and
    what the branch has created. By induction along the chain of the end of the branch, from the fork on. -/
theorem connectBranch_counted
    {supply : Int} (ht : Tracks n m c) (he : n.mapBlockIndex.entries b = some pindex)
    (hfork : pfork.phashBlock ∈ n.mapBlockIndex.path b) (hsupply : m.moneySupply pfork.phashBlock = some supply)
    (h : (branchAbove pfork (n.mapBlockIndex.chain b)).reverse.foldlM (connectBranchStep env) vDelete m
      = (.ok txs, m')) : BranchCounted env n m' c pfork b supply := by
  have hstart : ∀ {b pindex txs m'}, n.mapBlockIndex.entries b = some pindex → b = pfork.phashBlock →
      (branchAbove pfork (n.mapBlockIndex.chain b)).reverse.foldlM (connectBranchStep env) vDelete m
        = (.ok txs, m') → BranchCounted env n m' c pfork b supply := by
    intro b pindex txs m' he hb h
    have hnone := branchAbove_fork he hb
    rw [hnone, List.reverse_nil, List.foldlM_nil, Exec.pure_apply, Prod.mk.injEq] at h
    obtain ⟨-, rfl⟩ := h
    refine ⟨?_, ?_⟩
    · rw [hnone]
      exact ht
    · rw [hnone, hb, hsupply]
      simp
  induction b using n.mapBlockIndex.toParentTree.path_induction generalizing pindex m' txs with
  | root b hroot =>
    unfold BlockTree.path at hfork
    rw [ParentTree.path_of_root hroot, List.mem_singleton] at hfork
    exact hstart he hfork.symm h
  | child b p hparent ih =>
    by_cases hb : b = pfork.phashBlock
    · exact hstart he hb h
    · have hp : pindex.pprev = some p := by rw [← BlockTree.parent_of_entry he, hparent]
      obtain ⟨f, hf, -⟩ := n.mapBlockIndex.prev_height he hp
      have hforkp : pfork.phashBlock ∈ n.mapBlockIndex.path p := by
        unfold BlockTree.path at hfork
        rw [ParentTree.path_of_parent hparent, List.mem_cons] at hfork
        exact hfork.resolve_left (Ne.symm hb)
      have hcons := branchAbove_child he hp hb
      rw [hcons, List.reverse_cons, Exec.foldlM_concat_returns] at h
      obtain ⟨vDelete', m1, hbranch, hstep⟩ := h
      obtain ⟨htracks, hparentSupply⟩ := ih hf hforkp hbranch
      have hhash := n.mapBlockIndex.hash_eq he
      obtain ⟨htracks', hsupply'⟩ := connectBranchStep_counted htracks (by rw [hhash]; exact he) hstep
      refine ⟨?_, ?_⟩
      · rw [hcons, List.reverse_cons, List.foldl_append]
        exact htracks'
      · rw [hcons, List.reverse_cons, List.foldl_append, List.foldl_cons, List.foldl_nil, ← hhash, hsupply', hp,
          Option.bind_some, hparentSupply, Option.getD_some, Option.some.injEq]
        ring

end Branch

theorem tdiv_coin_le_iff (x q : Int) : x.tdiv coin ≤ q ↔ x ≤ if 0 ≤ q then q * coin + (coin - 1) else q * coin := by
  unfold coin
  rcases Int.le_total 0 x with hx | hx
  · rw [Int.tdiv_eq_ediv_of_nonneg hx]
    split_ifs <;> omega
  · obtain ⟨y, rfl⟩ : ∃ y, x = -y := ⟨-x, (Int.neg_neg x).symm⟩
    rw [Int.neg_tdiv, Int.tdiv_eq_ediv_of_nonneg (by omega)]
    split_ifs <;> omega

/-- The check of the supply, on a supply that has grown since the fork. -/
theorem bIndexFactor_iff {pindex : CBlockIndex} {diffFactor : Nat} {created : Int}
    (h : pindex.nMoneySupply = pfork.nMoneySupply + created) :
    bIndexFactor pfork pindex diffFactor = true ↔ created ≤ supplyRoom pfork.nMoneySupply diffFactor := by
  unfold bIndexFactor supplyRoom
  rw [Bool.not_eq_true', decide_eq_false_iff_not, Int.not_lt, tdiv_coin_le_iff, h]
  simp only
  split_ifs <;> omega

theorem rollingCheckpoints_state {nHeight : Int} {found : Bool}
    (h : rollingCheckpoints nHeight n = (.ok found, n1)) :
    ∃ rollingBlock rollingHeight, n1 = { n with rollingBlock, rollingHeight } := by
  cases found with
  | true =>
    obtain ⟨past, -, rfl⟩ := rollingCheckpoints_true h
    exact ⟨past.phashBlock, past.nHeight, rfl⟩
  | false =>
    unfold rollingCheckpoints at h
    split at h
    · exact ⟨n.rollingBlock, n.rollingHeight, (congrArg Prod.snd h).symm⟩
    · simp [Exec.bind_returns] at h

theorem prepareReorganize_fork {plan : ReorganizePlan}
    (h : prepareReorganize hNew n = (.ok plan, n1)) : ∃ hBest pfork diffFactor pindexNew, n.pindexBest = some hBest ∧
      findFork (n.mapBlockIndex.chain hBest) (n.mapBlockIndex.chain hNew) 0 = .ok (pfork, diffFactor) ∧
      n.mapBlockIndex.entries hNew = some pindexNew ∧
      plan.vConnect = (branchAbove pfork (n.mapBlockIndex.chain hNew)).reverse := by
  obtain ⟨hBest, pindexBest, pindexNew, preorgmax, fRolling, t, hptr, -, hnew, -, hrolling, rfl, hplan⟩ :=
    prepareReorganize_inv h
  obtain ⟨rollingBlock, rollingHeight, rfl⟩ := rollingCheckpoints_state hrolling
  unfold reorganizePlan at hplan
  simp only [Guards.bind_eq_ok, hptr, BlockTree.chain?] at hplan
  obtain ⟨_, -, _, -, _, -, ⟨pfork, diffFactor⟩, hfork, _, -, hres⟩ := hplan
  obtain rfl := Except.ok.inj hres
  exact ⟨hBest, pfork, diffFactor, pindexNew, hptr, hfork, hnew, rfl⟩

theorem reorganize_supply {env : Env}
    (h : reorganize env hNew n = (.ok (), n')) : ∃ hBest pfork diffFactor pindexNew, n.pindexBest = some hBest ∧
      findFork (n.mapBlockIndex.chain hBest) (n.mapBlockIndex.chain hNew) 0 = .ok (pfork, diffFactor) ∧
      n'.mapBlockIndex.entries hNew = some pindexNew ∧
      pindexNew.nMoneySupply = pfork.nMoneySupply
        + branchCreates env n (branchAbove pfork (n.mapBlockIndex.chain hNew)).reverse := by
  unfold reorganize at h
  obtain ⟨plan, n1, hplan, h⟩ := Exec.bind_returns.mp h
  obtain ⟨vResurrect, n2, hdisconnect, h⟩ := Exec.bind_returns.mp h
  obtain ⟨vDelete, n3, hconnect, h⟩ := Exec.bind_returns.mp h
  obtain ⟨_, n4, hwrite, h⟩ := Exec.bind_returns.mp h
  obtain ⟨_, n5, hcommit, h⟩ := Exec.bind_returns.mp h
  rw [Exec.update_apply, Prod.mk.injEq] at h
  obtain ⟨-, rfl⟩ := h
  obtain ⟨hBest, pfork, diffFactor, pindex, hptr, hfork, hnew, hvConnect⟩ := prepareReorganize_fork hplan
  obtain ⟨hforkEntry, hisFork⟩ := findFork_isFork hfork
  have hprepared := (prepareReorganize_writes hNew).apply hplan
  have hstart : Tracks n n1 ⟨n.txPositions, 0, 0⟩ := by
    refine ⟨hprepared.mono (by decide), fun hash txindex hread => ?_⟩
    rw [SameTxIndex.of_writes hprepared (by decide) (by decide)] at hread
    simp only [Node.txPositions, hread, Option.map_some]
  obtain ⟨htracks, hdisconnected⟩ := disconnectBranch_tracks hstart hdisconnect
  have hforkSupply : n2.moneySupply pfork.phashBlock = some pfork.nMoneySupply := by
    rw [Node.moneySupply_of_same hdisconnected, Node.moneySupply_of_same (hprepared .supply (by decide)),
      Node.moneySupply, hforkEntry]
    rfl
  rw [hvConnect] at hconnect
  obtain ⟨-, hsupply⟩ := connectBranch_counted htracks hnew hisFork.right hforkSupply hconnect
  have hafter : Part.supply.Same n3 (reorganizeMemory env plan vResurrect vDelete n5) :=
    (((writeHashBestChain_writes hNew).apply hwrite .supply (by decide)).trans
      ((txnCommit_writes _).apply hcommit .supply (by decide))).trans
      (reorganizeMemory_writes env plan vResurrect vDelete n5 .supply (by decide))
  rw [← Node.moneySupply_of_same hafter] at hsupply
  obtain ⟨pindexNew, hentry, heq⟩ := Option.map_eq_some_iff.mp hsupply
  refine ⟨hBest, pfork, diffFactor, pindexNew, hptr, hfork, hentry, ?_⟩
  rw [heq, branchCreates]
  simp

/-- **The supply check.** The supply that the new best block has after a reorganisation is within the bound
    of the check exactly when the blocks of the branch create no more than one coin for every round of the
    search for the fork, up to the end of the last whole coin. -/
theorem reorganize_withinBound_iff {env : Env} {n n' : Node} {hNew : UInt256}
    (h : reorganize env hNew n = (.ok (), n')) : ∃ hBest pfork diffFactor pindexNew, n.pindexBest = some hBest ∧
      findFork (n.mapBlockIndex.chain hBest) (n.mapBlockIndex.chain hNew) 0 = .ok (pfork, diffFactor) ∧
      n'.mapBlockIndex.entries hNew = some pindexNew ∧
      (bIndexFactor pfork pindexNew diffFactor = true ↔
        branchCreates env n (branchAbove pfork (n.mapBlockIndex.chain hNew)).reverse
          ≤ supplyRoom pfork.nMoneySupply diffFactor) := by
  obtain ⟨hBest, pfork, diffFactor, pindexNew, hptr, hfork, hentry, hsupply⟩ := reorganize_supply h
  exact ⟨hBest, pfork, diffFactor, pindexNew, hptr, hfork, hentry, bIndexFactor_iff hsupply⟩

namespace Sample

def forkReorganized : Node := (reorganize env (forkHash 501) forkNode).2

theorem forkNode_returns : reorganize env (forkHash 501) forkNode = (.ok (), forkReorganized) :=
  Exec.eq_of_fst (by decide +kernel)

theorem forkNode_withinBound_iff : ∃ hBest pfork diffFactor pindexNew, forkNode.pindexBest = some hBest ∧
    findFork (forkNode.mapBlockIndex.chain hBest) (forkNode.mapBlockIndex.chain (forkHash 501)) 0
      = .ok (pfork, diffFactor) ∧
    forkReorganized.mapBlockIndex.entries (forkHash 501) = some pindexNew ∧
    (bIndexFactor pfork pindexNew diffFactor = true ↔
      branchCreates env forkNode (branchAbove pfork (forkNode.mapBlockIndex.chain (forkHash 501))).reverse
        ≤ supplyRoom pfork.nMoneySupply diffFactor) :=
  reorganize_withinBound_iff forkNode_returns

/-- Three blocks that have never been connected create fifteen coins where the check allows three: the
    index still says that their end has no supply at all. -/
theorem forkNode_passes_bound : ¬ ∀ (env : Env) (n n' : Node) (hNew hBest : UInt256)
    (pfork pindexNew : CBlockIndex) (diffFactor : Nat), reorganize env hNew n = (.ok (), n') →
      n.pindexBest = some hBest →
      findFork (n.mapBlockIndex.chain hBest) (n.mapBlockIndex.chain hNew) 0 = .ok (pfork, diffFactor) →
      n'.mapBlockIndex.entries hNew = some pindexNew → bIndexFactor pfork pindexNew diffFactor = true := by
  intro hall
  obtain ⟨hBest, pfork, diffFactor, pindexNew, hptr, hfork, hentry, hsupply⟩ :=
    reorganize_supply forkNode_returns
  have hwithin := (bIndexFactor_iff hsupply).mp (hall _ _ _ _ _ _ _ _ forkNode_returns hptr hfork hentry)
  obtain rfl : blockHash 500 = hBest := Option.some.inj hptr
  have hbeyond : (findFork (forkNode.mapBlockIndex.chain (blockHash 500))
      (forkNode.mapBlockIndex.chain (forkHash 501)) 0).map (fun fork => decide
        (branchCreates env forkNode (branchAbove fork.1 (forkNode.mapBlockIndex.chain (forkHash 501))).reverse
          ≤ supplyRoom fork.1.nMoneySupply fork.2)) = .ok false := by
    decide
  rw [hfork] at hbeyond
  exact of_decide_eq_false (Except.ok.inj hbeyond) hwithin

end Sample

end PupaCoin
