import PupaCoin.Chain.Effects
import PupaCoin.Chain.Proofs.ConnectBlockProofs

/-!
# The frames of the functions of the node

One lemma for every function: which groups of globals it writes. They compose along the sequences and
loops of the functions, whether a call returns or stops.
-/

namespace PupaCoin

open Exec (Frame)

/-! ## The relation -/

theorem Part.Same.refl (n : Node) (p : Part) : p.Same n n := by
  cases p <;> simp [Part.Same]

theorem Part.Same.trans {a b c : Node} {p : Part} (hab : p.Same a b) (hbc : p.Same b c) : p.Same a c := by
  cases p with
  | sent => exact List.IsPrefix.trans hab hbc
  | _ => simp_all [Part.Same]

theorem onReject_frame {α : Type} {R : Node → Node → Prop} (htrans : ∀ a b c, R a b → R b c → R a c)
    {m handler : NodeM α} (hm : Frame R m) (hh : Frame R handler) : Frame R (onReject m handler) := by
  intro n
  unfold onReject
  rcases h : m n with ⟨r, t⟩
  have h1 : R n t := hm.apply h
  cases r with
  | ok a => exact h1
  | error e =>
    cases e with
    | reject d msg => exact htrans n t _ h1 (hh t)
    | exception w => exact h1
    | undefined w => exact h1

namespace Writes

variable {α β : Type} {ps qs : List Part} {m : NodeM α} {f : α → NodeM β}

theorem refl (ps : List Part) (n : Node) : Writes ps n n := fun p _ => Part.Same.refl n p

theorem trans (ps : List Part) (a b c : Node) (hab : Writes ps a b) (hbc : Writes ps b c) :
    Writes ps a c := fun p hp => (hab p hp).trans (hbc p hp)

theorem mono (h : ∀ p ∈ ps, p ∈ qs) {n n' : Node} (hw : Writes ps n n') : Writes qs n n' :=
  fun p hp => hw p fun hmem => hp (h p hmem)

theorem frame_mono (hm : Frame (Writes ps) m) (h : ∀ p ∈ ps, p ∈ qs) : Frame (Writes qs) m :=
  Frame.mono (fun _ _ hw => hw.mono h) hm

theorem frame_bind (hm : Frame (Writes ps) m) (hf : ∀ a, Frame (Writes ps) (f a)) :
    Frame (Writes ps) (m >>= f) := Frame.bind (trans ps) hm hf

theorem frame_pure (a : α) : Frame (Writes ps) (pure a : NodeM α) := Frame.pure (refl ps) a

theorem frame_stop (e : Stop) : Frame (Writes ps) (Exec.stop e : NodeM α) := Frame.stop (refl ps) e

theorem frame_read : Frame (Writes ps) (Exec.read : NodeM Node) := Frame.read (refl ps)

theorem frame_lift (r : Except Stop α) : Frame (Writes ps) (Exec.lift r : NodeM α) :=
  Frame.lift (refl ps) r

theorem frame_deref (h : UInt256) : Frame (Writes ps) (deref h) := fun n => refl ps n

theorem frame_forM {g : α → NodeM Unit} (hg : ∀ a, Frame (Writes ps) (g a)) (xs : List α) :
    Frame (Writes ps) (xs.forM g : NodeM Unit) := Frame.forM (refl ps) (trans ps) hg xs

theorem frame_foldlM {g : β → α → NodeM β} (hg : ∀ b a, Frame (Writes ps) (g b a)) (xs : List α) (b : β)
    : Frame (Writes ps) (xs.foldlM g b : NodeM β) :=
  Frame.foldlM (refl ps) (trans ps) hg xs b

theorem frame_onReject {handler : NodeM α} (hm : Frame (Writes ps) m) (hh : Frame (Writes ps) handler)
    : Frame (Writes ps) (onReject m handler) :=
  onReject_frame (trans ps) hm hh

end Writes

open Writes

theorem dbApply_writes {op : Overlay.Op DbKey DbVal} (hop : op.key ≠ .bnBestInvalidTrust) (n : Node) :
    Writes [.records, .batch] n (n.dbApply op) := by
  intro p hp
  unfold Node.dbApply
  cases hbatch : n.activeBatch with
  | none =>
    cases p <;> simp [Part.Same, hbatch] at hp ⊢
    simp [Overlay.Op.apply, Function.update_of_ne hop.symm]
  | some batch => cases p <;> simp [Part.Same] at hp ⊢

theorem writeBlockIndex_writes (env : Env) (blockindex : CDiskBlockIndex) :
    Frame (Writes [.records, .batch]) (writeBlockIndex env blockindex) :=
  Frame.update fun n => dbApply_writes (by simp [Overlay.Op.key]) n

theorem updateTxIndex_writes (hash : UInt256) (txindex : CTxIndex) :
    Frame (Writes [.records, .batch]) (updateTxIndex hash txindex) :=
  Frame.update fun n => dbApply_writes (by simp [Overlay.Op.key]) n

theorem eraseTxIndex_writes (hash : UInt256) : Frame (Writes [.records, .batch]) (eraseTxIndex hash) :=
  Frame.update fun n => dbApply_writes (by simp [Overlay.Op.key]) n

theorem writeHashBestChain_writes (hash : UInt256) : Frame (Writes [.records, .batch]) (writeHashBestChain hash) :=
  Frame.update fun n => dbApply_writes (by simp [Overlay.Op.key]) n

theorem writeAddrIndex_writes (addrHash : BitVec 160) (txHash : UInt256) :
    Frame (Writes [.records, .batch]) (writeAddrIndex addrHash txHash) := by
  refine Frame.update fun n => ?_
  cases n.view.readAddrIndex addrHash with
  | none => exact dbApply_writes (by simp [Overlay.Op.key]) n
  | some txHashes =>
    simp only
    split
    · exact Writes.refl _ n
    · exact dbApply_writes (by simp [Overlay.Op.key]) n

theorem txnBegin_writes : Frame (Writes [.batch]) txnBegin := by
  intro n p hp
  unfold txnBegin
  cases n.activeBatch <;> cases p <;> simp [Part.Same] at hp ⊢

theorem txnCommit_writes (message : String) :
    Frame (Writes [.records, .trustRecord, .committed, .batch, .faults]) (txnCommit message) := by
  intro n p hp
  unfold txnCommit
  cases n.activeBatch with
  | none => exact Part.Same.refl n p
  | some batch =>
    simp only
    split <;> cases p <;> simp [Part.Same] at hp ⊢

theorem txnAbort_writes : Frame (Writes [.committed, .batch]) txnAbort := by
  refine Frame.update fun n p hp => ?_
  cases p <;> simp [Part.Same] at hp ⊢

theorem syncWithWallets_writes (block : CBlock) (fConnect : Bool) :
    Frame (Writes [.wallet]) (syncWithWallets block fConnect) := by
  refine Frame.update fun n p hp => ?_
  cases p <;> simp [Part.Same] at hp ⊢

namespace CBlock

variable (env : Env) (block : CBlock)

theorem checkBlock_writes (fCheckPOW fCheckMerkleRoot fCheckSig : Bool) :
    Frame (Writes [.delay]) (block.checkBlock env fCheckPOW fCheckMerkleRoot fCheckSig) := by
  intro n
  rcases checkBlock_state env block n fCheckPOW fCheckMerkleRoot fCheckSig
    with h | h
  · rw [h]
    exact Writes.refl _ n
  · rw [h]
    intro p hp
    cases p <;> simp [Part.Same, restartDelay] at hp ⊢

theorem setLimits_writes (pindex : CBlockIndex) : Frame (Writes [.limits, .sizes, .cache]) (setLimits pindex) := by
  unfold setLimits BlockSizeCalculator.computeBlockSize
    BlockSizeCalculator.computeBlockSizeOf
  refine frame_bind (frame_bind frame_read fun n => frame_bind (frame_lift _) fun sizes =>
    frame_bind (frame_lift _) fun _ => frame_bind (Frame.update fun n p hp => ?_) fun _ => frame_pure _) fun size =>
    Frame.update fun n p hp => ?_
  · cases p <;> simp [Part.Same] at hp ⊢
  · cases p <;> simp [Part.Same] at hp ⊢

theorem setSupply_writes (h : UInt256) (nMint nMoneySupply : Int) (n : Node) :
    Writes [.supply] n { n with mapBlockIndex := n.mapBlockIndex.setSupply h nMint nMoneySupply } := by
  intro p hp
  cases p <;> simp [Part.Same, -BlockTree.entries_setSupply] at hp ⊢
  · exact fun k => BlockTree.map_entries_setSupply _ h k nMint nMoneySupply fun _ => rfl
  · intro k
    by_cases hk : k = h
    · subst hk
      cases he : n.mapBlockIndex.entries k <;> simp [BlockTree.pnext, he]
    · simp [BlockTree.pnext, hk]

theorem recordSupply_writes (h : UInt256) (st : ConnectState) :
    Frame (Writes [.supply, .records, .batch]) (recordSupply env h st) := by
  unfold recordSupply
  exact frame_bind frame_read fun n => frame_bind (frame_deref h) fun pindex =>
    frame_bind (frame_mono (Frame.update fun n => setSupply_writes h _ _ n) (by decide)) fun _ =>
      frame_mono (writeBlockIndex_writes env _) (by decide)

theorem writeAddrIndexes_writes : Frame (Writes [.records, .batch]) (writeAddrIndexes env block) := by
  unfold writeAddrIndexes
  split
  · exact frame_forM (fun tx => frame_bind frame_read fun n => frame_bind (frame_lift _) fun addrIds =>
      frame_forM (fun addrId => writeAddrIndex_writes addrId _) addrIds) _
  · exact frame_pure _

theorem writePrevBlockIndex_writes (pindex : CBlockIndex) (hashNext : UInt256) :
    Frame (Writes [.records, .batch]) (writePrevBlockIndex env pindex hashNext) := by
  unfold writePrevBlockIndex
  split
  · exact frame_pure _
  · exact frame_bind (frame_deref _) fun pprev => writeBlockIndex_writes env _

theorem connectWrites_writes (pindex : CBlockIndex) (st : ConnectState) :
    Frame (Writes [.records, .batch, .wallet]) (connectWrites env block pindex st) := by
  unfold connectWrites
  exact frame_bind (frame_mono (frame_forM (fun entry => updateTxIndex_writes _ _) _) (by decide))
    fun _ => frame_bind (frame_mono (writeAddrIndexes_writes env block) (by decide)) fun _ =>
      frame_bind (frame_mono (writePrevBlockIndex_writes env pindex _) (by decide)) fun _ =>
        frame_mono (syncWithWallets_writes block true) (by decide)

theorem connectBlock_writes (h : UInt256) (fJustCheck : Bool) :
    Frame (Writes connectParts) (block.connectBlock env h fJustCheck) := by
  unfold connectBlock
  refine frame_bind (frame_mono (checkBlock_writes env block _ _ _) (by decide)) fun _ =>
    frame_bind (frame_deref h) fun pindex =>
      frame_bind (frame_mono (setLimits_writes pindex) (by decide)) fun _ =>
        frame_bind frame_read fun n => frame_bind (frame_lift _) fun st =>
          frame_bind (frame_lift _) fun _ =>
            frame_bind (frame_mono (recordSupply_writes env h st) (by decide)) fun _ => ?_
  split
  · exact frame_pure _
  · exact frame_mono (connectWrites_writes env block pindex st) (by decide)

end CBlock

theorem CTransaction.disconnectInputs_writes (env : Env) (tx : CTransaction) :
    Frame (Writes [.records, .batch]) (tx.disconnectInputs env) := by
  have hinput : ∀ txin, Frame (Writes [.records, .batch]) (disconnectInput txin) := by
    intro txin
    unfold disconnectInput
    refine frame_bind frame_read fun n => ?_
    split
    · exact frame_stop _
    · split
      · exact frame_stop _
      · exact updateTxIndex_writes _ _
  unfold disconnectInputs
  split
  · exact frame_bind (frame_forM hinput _) fun _ => eraseTxIndex_writes _
  · exact eraseTxIndex_writes _

theorem CBlock.disconnectBlock_writes (env : Env) (block : CBlock) (h : UInt256) :
    Frame (Writes [.records, .batch, .wallet]) (block.disconnectBlock env h) := by
  unfold disconnectBlock
  exact frame_bind (frame_mono (frame_forM (CTransaction.disconnectInputs_writes env) _) (by decide))
    fun _ => frame_bind (frame_deref h) fun pindex =>
      frame_bind (frame_mono (writePrevBlockIndex_writes env pindex _) (by decide)) fun _ =>
        frame_mono (syncWithWallets_writes block false) (by decide)

theorem velocityI_writes (env : Env) (nHeight : Int) : Frame (Writes [.velocity]) (velocityI env nHeight) := by
  unfold velocityI
  refine frame_bind (Frame.update fun n p hp => ?_) fun _ => frame_pure _
  cases p <;> simp [Part.Same] at hp ⊢

theorem velocityCheck_writes (env : Env) (nHeight : Int) :
    Frame (Writes [.velocity]) (velocityCheck env nHeight) := by
  unfold velocityCheck
  exact frame_bind (velocityI_writes env nHeight) fun i => frame_pure _

theorem velocity_writes (env : Env) (hprev : UInt256) (block : CBlock) (fFactorTx : Bool) :
    Frame (Writes [.velocity]) (velocity env hprev block fFactorTx) := by
  unfold velocity
  refine frame_bind (frame_deref hprev) fun prevBlock =>
    frame_bind (velocityI_writes env _) fun i => frame_bind frame_read fun n =>
      frame_bind (frame_lift _) fun prevprev => ?_
  split
  · exact frame_bind (frame_lift _) fun _ => frame_lift _
  · exact frame_lift _

theorem rollingCheckpoints_writes (nHeight : Int) : Frame (Writes [.rolling]) (rollingCheckpoints nHeight) := by
  unfold rollingCheckpoints
  split
  · exact frame_pure _
  · refine frame_bind frame_read fun n => frame_bind (frame_lift _) fun past =>
      frame_bind (Frame.update fun n p hp => ?_) fun _ => frame_pure _
    cases p <;> simp [Part.Same] at hp ⊢

theorem setRolling_writes (fRollingCheckpoint : Bool) (n : Node) :
    Writes [.rolling] n { n with fRollingCheckpoint } := by
  intro p hp
  cases p <;> simp [Part.Same] at hp ⊢

theorem prepareReorganize_writes (hNew : UInt256) : Frame (Writes [.rolling]) (prepareReorganize hNew) := by
  unfold prepareReorganize
  exact frame_bind frame_read fun n => frame_bind (frame_lift _) fun pindexBest =>
    frame_bind (frame_deref hNew) fun pindexNew => frame_bind (frame_lift _) fun preorgmax =>
      frame_bind (rollingCheckpoints_writes _) fun f =>
        frame_bind (Frame.update (setRolling_writes f)) fun _ =>
          frame_bind frame_read fun n => frame_lift _

theorem disconnectBranchStep_writes (env : Env) (preorgmax : Int) (vResurrect : List CTransaction)
    (pindex : CBlockIndex) : Frame (Writes [.records, .batch, .wallet])
      (disconnectBranchStep env preorgmax vResurrect pindex) := by
  unfold disconnectBranchStep
  refine frame_bind frame_read fun n => ?_
  split
  · exact frame_stop _
  · exact frame_bind (frame_onReject (CBlock.disconnectBlock_writes env _ _) (frame_stop _))
      fun _ => frame_pure _

theorem connectBranchStep_writes (env : Env) (vDelete : List CTransaction) (pindex : CBlockIndex) :
    Frame (Writes (.velocity :: connectParts)) (connectBranchStep env vDelete pindex) := by
  unfold connectBranchStep
  refine frame_bind frame_read fun n => ?_
  split
  · exact frame_stop _
  · refine frame_bind (frame_mono (frame_onReject (CBlock.connectBlock_writes env _ _ _)
      (frame_stop _)) (by decide)) fun _ =>
        frame_bind (frame_mono (velocityCheck_writes env _) (by decide)) fun limited => ?_
    split
    · exact frame_bind (frame_lift _) fun hprev => frame_bind (frame_mono (frame_onReject
        (velocity_writes env _ _ _) (frame_stop _)) (by decide)) fun _ => frame_pure _
    · exact frame_pure _

theorem setPnext_writes (h : UInt256) (next : Option UInt256) (n : Node) :
    Writes [.pnext] n { n with mapBlockIndex := n.mapBlockIndex.setPnext h next } := by
  intro p hp
  cases p <;> simp [Part.Same, -BlockTree.entries_setPnext] at hp ⊢
  · exact fun k => BlockTree.map_entries_setPnext _ h k next fun _ => rfl
  · exact fun k => BlockTree.map_entries_setPnext _ h k next fun _ => rfl

theorem foldl_setPnext_writes (next : CBlockIndex → Option UInt256) (branch : List CBlockIndex) (n : Node)
    : Writes [.pnext] n { n with
      mapBlockIndex := branch.foldl (fun t pindex =>
        match pindex.pprev with
        | none => t
        | some hprev => t.setPnext hprev (next pindex)) n.mapBlockIndex } := by
  induction branch generalizing n with
  | nil => exact Writes.refl _ n
  | cons pindex branch ih =>
    rw [List.foldl_cons]
    cases pindex.pprev with
    | none => exact ih n
    | some hprev =>
      exact Writes.trans _ _ _ _ (setPnext_writes hprev (next pindex) n)
        (ih { n with mapBlockIndex := n.mapBlockIndex.setPnext hprev (next pindex) })

theorem setPool_writes (mempool : CTxMemPool) {walletSignals : List WalletSignal} {n : Node}
    (hsent : n.walletSignals <+: walletSignals) : Writes [.mempool, .wallet] n { n with mempool, walletSignals } := by
  intro p hp
  cases p <;> simp [Part.Same] at hp ⊢
  exact hsent

theorem reorganizeMemory_writes (env : Env) (plan : ReorganizePlan) (vResurrect vDelete : List CTransaction)
    (n : Node) : Writes [.pnext, .mempool, .wallet] n (reorganizeMemory env plan vResurrect vDelete n) := by
  have hpool : ∀ (step : Node → CTransaction → Node)
      (_ : ∀ n tx, Writes [.mempool, .wallet] n (step n tx)) (txs : List CTransaction) (n : Node),
      Writes [.mempool, .wallet] n (txs.foldl step n) := by
    intro step hstep txs
    induction txs with
    | nil => exact fun n => Writes.refl _ n
    | cons tx txs ih => exact fun n => Writes.trans _ _ _ _ (hstep n tx) (ih _)
  have hmempool : ∀ m, Writes [.mempool, .wallet] m
      (vDelete.foldl (deleteFromPool env) (vResurrect.foldl (resurrect env) m)) := fun m =>
    Writes.trans _ _ _ _
      (hpool (resurrect env) (fun n tx => setPool_writes _ (List.prefix_append _ _)) vResurrect m)
      (hpool (deleteFromPool env) (fun n tx => setPool_writes _ (List.prefix_refl _)) vDelete _)
  have hunlink := foldl_setPnext_writes (fun _ => none) plan.vDisconnect n
  have hlink := foldl_setPnext_writes (fun pindex => some pindex.phashBlock) plan.vConnect
    { n with mapBlockIndex := unlinkBranch n.mapBlockIndex plan.vDisconnect }
  exact Writes.trans _ _ _ _ ((Writes.trans _ _ _ _ hunlink hlink).mono (by decide))
    ((hmempool _).mono (by decide))

theorem invalidChainFound_writes (hNew : UInt256) :
    Frame (Writes [.invalidTrust, .trustRecord]) (invalidChainFound hNew) := by
  unfold invalidChainFound
  refine frame_bind (frame_deref hNew) fun pindexNew =>
    frame_bind (Frame.update fun n p hp => ?_) fun _ => frame_bind frame_read fun n =>
      frame_bind (frame_lift _) fun _ => frame_bind (frame_lift _) fun _ => frame_pure _
  split
  · cases p <;> simp [Part.Same] at hp ⊢
    · intro key hkey
      exact Function.update_of_ne hkey _ _
    · exact fun hopen => ⟨hopen, fun key hkey => Function.update_of_ne hkey _ _⟩
  · exact Part.Same.refl n p

theorem removeFromPool_writes (env : Env) (block : CBlock) (n : Node) :
    Writes [.mempool] n (removeFromPool env block n) := by
  intro p hp
  unfold removeFromPool
  cases p <;> simp [Part.Same] at hp ⊢

theorem setBest_writes (block : CBlock) (env : Env) (hNew : UInt256) :
    Frame (Writes [.tip, .cache]) (setBest block env hNew) := by
  unfold setBest
  refine frame_bind (frame_deref hNew) fun pindexNew => Frame.update fun n p hp => ?_
  cases p <;> simp [Part.Same] at hp ⊢

theorem setGenesis_writes (hNew : UInt256) (n : Node) :
    Writes [.genesis] n { n with pindexGenesisBlock := some hNew } := by
  intro p hp
  cases p <;> simp [Part.Same] at hp ⊢

theorem storeBlockIndex_writes (env : Env) (h : UInt256) :
    Frame (Writes [.records, .trustRecord, .committed, .batch, .faults]) (storeBlockIndex env h) := by
  unfold storeBlockIndex
  exact frame_bind (frame_deref h) fun pindexNew =>
    frame_bind (frame_mono txnBegin_writes (by decide)) fun _ =>
      frame_bind (frame_mono (writeBlockIndex_writes env _) (by decide)) fun _ => txnCommit_writes _

theorem CBlock.writeToDisk_writes (block : CBlock) : Frame (Writes [.files]) (writeToDisk block) := by
  unfold writeToDisk
  refine frame_bind frame_read fun n => frame_bind (frame_lift _) fun _ => ?_
  split
  · exact frame_stop _
  · refine frame_bind (Frame.update fun n p hp => ?_) fun _ => frame_pure _
    cases p <;> simp [Part.Same] at hp ⊢

/-! ## Relations that the acceptance of a block keeps

Whatever `SetBestChain` and `AcceptBlock` do is a sequence of calls of `ConnectBlock`, of one insertion into
the block index and of steps that write neither its entries nor their supplies.
-/

/-- Every group but the block index, the supplies and the surroundings. -/
def quietParts : List Part :=
  [.genesis, .tip, .invalidTrust, .records, .trustRecord, .committed, .batch, .faults, .files, .mempool,
    .pnext, .limits, .sizes, .cache, .delay, .rolling, .velocity, .wallet]

/-- A relation that composes, and that the quiet steps and `ConnectBlock` keep. -/
structure AcceptFrame (env : Env) (R : Node → Node → Prop) : Prop where
  refl : ∀ n, R n n
  trans : ∀ a b c, R a b → R b c → R a c
  quiet : ∀ n n', Writes quietParts n n' → R n n'
  connect : ∀ (block : CBlock) (h : UInt256) (fJustCheck : Bool), Frame R (block.connectBlock env h fJustCheck)

namespace AcceptFrame

variable {α β : Type} {env : Env} {R : Node → Node → Prop} (hR : AcceptFrame env R)
include hR

theorem bind {m : NodeM α} {f : α → NodeM β} (hm : Frame R m) (hf : ∀ a, Frame R (f a)) :
    Frame R (m >>= f) := Frame.bind hR.trans hm hf

theorem pure (a : α) : Frame R (Pure.pure a : NodeM α) := Frame.pure hR.refl a

theorem stop (e : Stop) : Frame R (Exec.stop e : NodeM α) := Frame.stop hR.refl e

theorem read : Frame R (Exec.read : NodeM Node) := Frame.read hR.refl

theorem lift (r : Except Stop α) : Frame R (Exec.lift r : NodeM α) := Frame.lift hR.refl r

theorem deref (h : UInt256) : Frame R (PupaCoin.deref h) := fun n => hR.refl n

theorem writes {ps : List Part} {m : NodeM α} (hm : Frame (Writes ps) m) (h : ∀ p ∈ ps, p ∈ quietParts) :
    Frame R m := fun n => hR.quiet _ _ ((hm n).mono h)

theorem reject {m handler : NodeM α} (hm : Frame R m) (hh : Frame R handler) :
    Frame R (onReject m handler) := onReject_frame hR.trans hm hh

theorem giveUp (hNew : UInt256) (e : Stop) : Frame R (do txnAbort; invalidChainFound hNew; Exec.stop e : NodeM α) :=
  hR.bind (hR.writes txnAbort_writes (by decide)) fun _ =>
    hR.bind (hR.writes (invalidChainFound_writes hNew) (by decide)) fun _ => hR.stop e

theorem connectBranchStep (vDelete : List CTransaction) (pindex : CBlockIndex) :
    Frame R (connectBranchStep env vDelete pindex) := by
  unfold PupaCoin.connectBranchStep
  refine hR.bind hR.read fun n => ?_
  split
  · exact hR.stop _
  · refine hR.bind (hR.reject (hR.connect _ _ _) (hR.stop _)) fun _ =>
      hR.bind (hR.writes (velocityCheck_writes env _) (by decide)) fun limited => ?_
    split
    · exact hR.bind (hR.lift _) fun hprev => hR.bind (hR.reject
        (hR.writes (velocity_writes env _ _ _) (by decide)) (hR.stop _)) fun _ => hR.pure _
    · exact hR.pure _

theorem setBestChainInner (block : CBlock) (hNew : UInt256) : Frame R (setBestChainInner env block hNew) := by
  unfold PupaCoin.setBestChainInner
  refine hR.bind (hR.reject (hR.bind (hR.connect block hNew false)
    fun _ => hR.writes (writeHashBestChain_writes _) (by decide)) (hR.giveUp hNew _))
    fun _ => hR.bind (hR.writes (txnCommit_writes _) (by decide)) fun _ => ?_
  exact hR.bind (hR.deref hNew) fun e => hR.bind (hR.lift _) fun hprev =>
    hR.bind (hR.writes (Frame.update (setPnext_writes hprev (some hNew))) (by decide))
      fun _ => hR.writes (Frame.update (removeFromPool_writes env block)) (by decide)

/-- The loop over the postponed blocks, by induction on them. -/
theorem connectSecondary (vpindexSecondary : List CBlockIndex) : Frame R (connectSecondary env vpindexSecondary) := by
  induction vpindexSecondary with
  | nil => exact hR.pure _
  | cons pindex rest ih =>
    unfold PupaCoin.connectSecondary
    refine hR.bind hR.read fun n => ?_
    split
    · exact hR.pure _
    · refine hR.bind (hR.writes txnBegin_writes (by decide)) fun _ => hR.bind (hR.reject
        (hR.bind (hR.setBestChainInner _ _) fun _ => hR.pure _) (hR.pure _)) fun connected => ?_
      split
      · exact ih
      · exact hR.pure _

theorem reorganize (hNew : UInt256) : Frame R (reorganize env hNew) := by
  unfold PupaCoin.reorganize
  refine hR.bind (hR.writes (prepareReorganize_writes hNew) (by decide)) fun plan =>
    hR.bind (hR.writes (Writes.frame_foldlM
      (fun vResurrect pindex => disconnectBranchStep_writes env _ vResurrect pindex) _ _) (by decide))
      fun vResurrect => ?_
  exact hR.bind (Frame.foldlM hR.refl hR.trans
      (fun vDelete pindex => hR.connectBranchStep vDelete pindex) _ _) fun vDelete =>
    hR.bind (hR.writes (writeHashBestChain_writes _) (by decide)) fun _ =>
      hR.bind (hR.writes (txnCommit_writes _) (by decide)) fun _ =>
        hR.writes (Frame.update (reorganizeMemory_writes env plan vResurrect vDelete)) (by decide)

theorem setBestChainReorganize (hNew : UInt256) : Frame R (setBestChainReorganize env hNew) := by
  unfold PupaCoin.setBestChainReorganize
  exact hR.bind hR.read fun n => hR.bind (hR.lift _) fun pindexBest =>
    hR.bind (hR.lift _) fun pindexIntermediate => hR.bind (hR.reject
      (hR.reorganize _) (hR.giveUp hNew _)) fun _ => hR.connectSecondary _

theorem setBestChain (block : CBlock) (hNew : UInt256) : Frame R (setBestChain env block hNew) := by
  have hbranch : Frame R (setBestChainBranch env block hNew) := by
    unfold setBestChainBranch setBestChainGenesis setBestChainExtend
    refine hR.bind hR.read fun n => ?_
    split
    · exact hR.bind (hR.writes (writeHashBestChain_writes _) (by decide)) fun _ =>
        hR.bind (hR.writes (txnCommit_writes _) (by decide)) fun _ =>
          hR.bind (hR.writes (Frame.update (setGenesis_writes hNew)) (by decide)) fun _ => hR.pure _
    · split
      · exact hR.bind (hR.reject (hR.setBestChainInner block hNew) (hR.stop _)) fun _ => hR.pure _
      · exact hR.setBestChainReorganize hNew
  unfold PupaCoin.setBestChain
  exact hR.bind (hR.writes txnBegin_writes (by decide)) fun _ => hR.bind hbranch fun left =>
    hR.bind (hR.writes (setBest_writes block env _) (by decide)) fun _ => hR.pure _

theorem activateBlock (block : CBlock) : Frame R (activateBlock env block) := by
  unfold PupaCoin.activateBlock
  refine hR.bind (hR.writes (storeBlockIndex_writes env _) (by decide)) fun _ =>
    hR.bind (hR.deref _) fun pindexNew => hR.bind hR.read fun n => ?_
  split
  · exact hR.setBestChain block _
  · exact hR.pure _

theorem withTxDB {m : NodeM α} (hm : Frame R m) : Frame R (withTxDB m) := by
  intro n
  refine hR.trans _ _ _ (hm n) (hR.quiet _ _ fun p hp => ?_)
  cases p <;> simp [quietParts] at hp <;> simp [PupaCoin.withTxDB, Part.Same]

/-- The relation holds across the insertion of a block into the index. -/
def Inserts (env : Env) (R : Node → Node → Prop) (block : CBlock) : Prop :=
  ∀ n nFile nBlockPos hashProof modifier (hnew : n.mapBlockIndex.entries (block.getHash env) = none),
    R n { n with mapBlockIndex :=
      n.mapBlockIndex.addBlock env nFile nBlockPos block hashProof modifier hnew }

theorem addToBlockIndex {block : CBlock} (hinsert : Inserts env R block) (nFile nBlockPos : UInt32)
    (hashProof : UInt256) : Frame R (addToBlockIndex env block nFile nBlockPos hashProof) := by
  intro n
  unfold PupaCoin.addToBlockIndex
  split
  · rename_i hnew
    split
    · exact hR.refl n
    · rename_i modifier _
      exact hR.trans _ _ _ (hinsert n nFile nBlockPos hashProof modifier hnew)
        (hR.withTxDB (hR.activateBlock block) _)
  · exact hR.refl n

theorem acceptBlock {block : CBlock} (hinsert : Inserts env R block) : Frame R (block.acceptBlock env) := by
  have hvelocity : ∀ nHeight, Frame R (block.limitVelocity env nHeight) := by
    intro nHeight
    unfold CBlock.limitVelocity
    refine hR.bind (hR.writes (velocityCheck_writes env _) (by decide)) fun limited => ?_
    split
    · exact hR.reject (hR.writes (velocity_writes env _ _ _) (by decide)) (hR.stop _)
    · exact hR.pure _
  have hstore : ∀ nHeight hashProof, Frame R (block.storeBlock env nHeight hashProof) := by
    intro nHeight hashProof
    unfold CBlock.storeBlock
    exact hR.bind (hR.writes (CBlock.writeToDisk_writes block) (by decide)) fun pos => hR.bind
      (hR.reject (hR.addToBlockIndex hinsert _ _ _) (hR.stop _)) fun _ => hR.bind
        (hR.writes (rollingCheckpoints_writes nHeight) (by decide)) fun f =>
          hR.writes (Frame.update (setRolling_writes f)) (by decide)
  unfold CBlock.acceptBlock
  refine hR.bind hR.read fun n => hR.bind (hR.lift _) fun _ => ?_
  split
  · exact hR.stop _
  · exact hR.bind (hR.lift _) fun _ => hR.bind (hR.lift _) fun _ =>
      hR.bind (hvelocity _) fun _ => hR.bind hR.read fun n =>
        hR.bind (hR.lift _) fun hashProof => hstore _ hashProof

end AcceptFrame

end PupaCoin
