import PupaCoin.Chain.Sample
import PupaCoin.Wallet.History

/-!
# A restart leaves the history of a wallet as it is

As long as nothing that spends is added outside of loading, and nothing is erased, memory and database tell the
same history: a transaction is in the one exactly when it is in the other, in the same block and at the same
position, and the indices are those of the records.
-/

namespace PupaCoin

variable {w : WalletState} {hash : UInt256} {wtx wtx' : WalletTx} {chain : ChainView} {range : List UInt256}
  {laccentries : List (Int × Int)} {records : List TxRecord} {txRecords : OrderedMap UInt256 TxRecord}

section Restart

variable {env : Env} {hashMerkleRoot : UInt256 → UInt256} {call : WalletCall}

/-- What the history is made of, in a transaction of the wallet. -/
def WalletTx.historyView (wtx : WalletTx) : CMerkleTx × Int × Bool :=
  (wtx.toCMerkleTx, wtx.nOrderPos, wtx.fMerkleVerified)

/-- Only what does not belong to the history has changed, in some transactions. -/
structure Refreshed (w w' : WalletState) : Prop where
  mapWallet : ∀ hash, (w'.mapWallet.find? hash).map WalletTx.historyView =
    (w.mapWallet.find? hash).map WalletTx.historyView
  mapTxSpends : w'.mapTxSpends = w.mapTxSpends
  wtxOrdered : w'.wtxOrdered = w.wtxOrdered
  txRecords : w'.txRecords = w.txRecords
  fFileBacked : w'.fFileBacked = w.fFileBacked

namespace Refreshed

theorem refl (w : WalletState) : Refreshed w w := ⟨fun _ => rfl, rfl, rfl, rfl, rfl⟩

theorem trans {w₁ w₂ w₃ : WalletState} (h : Refreshed w₁ w₂) (h' : Refreshed w₂ w₃) : Refreshed w₁ w₃ where
  mapWallet hash := (h'.mapWallet hash).trans (h.mapWallet hash)
  mapTxSpends := h'.mapTxSpends.trans h.mapTxSpends
  wtxOrdered := h'.wtxOrdered.trans h.wtxOrdered
  txRecords := h'.txRecords.trans h.txRecords
  fFileBacked := h'.fFileBacked.trans h.fFileBacked

theorem setTx (hfind : w.mapWallet.find? hash = some wtx) (hview : wtx'.historyView = wtx.historyView)
    : Refreshed w (w.setTx hash wtx') where
  mapWallet hash' := by
    show ((w.mapWallet.set hash wtx').find? hash').map _ = _
    by_cases heq : hash' = hash
    · rw [heq, OrderedMap.find?_set_self, hfind, Option.map_some, Option.map_some, hview]
    · rw [OrderedMap.find?_set_of_ne _ _ heq]
  mapTxSpends := rfl
  wtxOrdered := rfl
  txRecords := rfl
  fFileBacked := rfl

theorem modifyTx (w : WalletState) (hash : UInt256) {f : WalletTx → WalletTx}
    (hf : ∀ wtx, (f wtx).historyView = wtx.historyView) : Refreshed w (w.modifyTx hash f) := by
  unfold WalletState.modifyTx
  cases hfind : w.mapWallet.find? hash with
  | none => exact refl w
  | some wtx => exact setTx hfind (hf wtx)

theorem markDirty (w : WalletState) (hash : UInt256) : Refreshed w (w.modifyTx hash WalletTx.markDirty) :=
  modifyTx w hash fun _ => rfl

section Find

variable {w w' : WalletState} {hash : UInt256} {wtx wtx' : WalletTx}

theorem exists_before (h : Refreshed w w') (hfind : w'.mapWallet.find? hash = some wtx') :
    ∃ wtx, w.mapWallet.find? hash = some wtx ∧ wtx'.historyView = wtx.historyView := by
  have hmap := h.mapWallet hash
  rw [hfind, Option.map_some] at hmap
  obtain ⟨wtx, hwtx, hview⟩ := Option.map_eq_some_iff.mp hmap.symm
  exact ⟨wtx, hwtx, hview.symm⟩

theorem exists_after (h : Refreshed w w') (hfind : w.mapWallet.find? hash = some wtx) :
    ∃ wtx', w'.mapWallet.find? hash = some wtx' ∧ wtx'.historyView = wtx.historyView := by
  have hmap := h.mapWallet hash
  rw [hfind, Option.map_some] at hmap
  exact Option.map_eq_some_iff.mp hmap

theorem isSome_find? (h : Refreshed w w') (hash : UInt256) :
    (w'.mapWallet.find? hash).isSome = (w.mapWallet.find? hash).isSome := by
  have hmap := congrArg Option.isSome (h.mapWallet hash)
  rwa [Option.isSome_map, Option.isSome_map] at hmap

end Find

end Refreshed

/-- The entries of `mapTxSpends` that belong to records. -/
def spendsOf (records : List (UInt256 × TxRecord)) : List (COutPoint × UInt256) :=
  (records.map fun r => (spentBy r.2.tx).map fun outpoint => (outpoint, r.1)).flatten

/-- The entries of `wtxOrdered` that belong to records. -/
def orderedOf (records : List (UInt256 × TxRecord)) : List (Int × TxPair) :=
  records.map fun r => (r.2.nOrderPos, .tx (some r.1))

/-- The transactions of the wallet are those of the records. -/
structure Reflects (env : Env) (hashMerkleRoot : UInt256 → UInt256) (records : List (UInt256 × TxRecord))
    (w : WalletState) : Prop where
  hashed : ∀ hash record, (hash, record) ∈ records → env.getHash record.tx = hash
  recorded : ∀ hash wtx, w.mapWallet.find? hash = some wtx →
    ∃ record, (hash, record) ∈ records ∧ wtx.toCMerkleTx = record.toCMerkleTx ∧ wtx.nOrderPos = record.nOrderPos
  present : ∀ hash record, (hash, record) ∈ records → (w.mapWallet.find? hash).isSome
  connects : ∀ hash wtx, w.mapWallet.find? hash = some wtx → wtx.fMerkleVerified = true →
    wtx.Connects env hashMerkleRoot

namespace Reflects

variable {records records' : List (UInt256 × TxRecord)} {w w' : WalletState} {hash : UInt256} {wtx : WalletTx}

theorem refreshed (h : Reflects env hashMerkleRoot records w) (hw : Refreshed w w') :
    Reflects env hashMerkleRoot records w' where
  hashed := h.hashed
  recorded hash wtx' hfind := by
    obtain ⟨wtx, hwtx, hview⟩ := hw.exists_before hfind
    obtain ⟨record, hmem, hmtx, hpos⟩ := h.recorded hash wtx hwtx
    obtain ⟨hmtx', hrest⟩ := Prod.mk.inj hview
    exact ⟨record, hmem, hmtx'.trans hmtx, (Prod.mk.inj hrest).1.trans hpos⟩
  present hash record hmem := by
    rw [hw.isSome_find?]
    exact h.present hash record hmem
  connects hash wtx' hfind hflag := by
    obtain ⟨wtx, hwtx, hview⟩ := hw.exists_before hfind
    obtain ⟨hmtx, hrest⟩ := Prod.mk.inj hview
    have hconnects := h.connects hash wtx hwtx ((Prod.mk.inj hrest).2.symm.trans hflag)
    rw [← hmtx] at hconnects
    exact hconnects

theorem congr (h : Reflects env hashMerkleRoot records w) (hmem : ∀ r, r ∈ records' ↔ r ∈ records) :
    Reflects env hashMerkleRoot records' w where
  hashed hash record hr := h.hashed hash record ((hmem _).mp hr)
  recorded hash wtx hfind := by
    obtain ⟨record, hr, hview⟩ := h.recorded hash wtx hfind
    exact ⟨record, (hmem _).mpr hr, hview⟩
  present hash record hr := h.present hash record ((hmem _).mp hr)
  connects := h.connects

theorem getHash_eq (h : Reflects env hashMerkleRoot records w) (hfind : w.mapWallet.find? hash = some wtx) :
    env.getHash wtx.tx = hash := by
  obtain ⟨record, hmem, hmtx, -⟩ := h.recorded hash wtx hfind
  have htx : wtx.tx = record.tx := congrArg CMerkleTx.tx hmtx
  rw [htx]
  exact h.hashed hash record hmem

theorem cons (h : Reflects env hashMerkleRoot records w) (hhash : env.getHash wtx.tx = hash)
    (hconnects : wtx.fMerkleVerified = true → wtx.Connects env hashMerkleRoot)
    (hfind' : w'.mapWallet.find? hash = some wtx)
    (hother : ∀ hash', hash' ≠ hash → w'.mapWallet.find? hash' = w.mapWallet.find? hash') :
    Reflects env hashMerkleRoot ((hash, wtx.toTxRecord) :: records) w' where
  hashed hash' record hmem := by
    rcases List.mem_cons.mp hmem with heq | hmem
    · obtain ⟨rfl, rfl⟩ := Prod.mk.inj heq
      exact hhash
    · exact h.hashed hash' record hmem
  recorded hash' wtx' hfind := by
    by_cases heq : hash' = hash
    · rw [heq, hfind'] at hfind
      rw [heq, ← Option.some.inj hfind]
      exact ⟨wtx.toTxRecord, List.mem_cons_self, rfl, rfl⟩
    · rw [hother hash' heq] at hfind
      obtain ⟨record, hmem, hview⟩ := h.recorded hash' wtx' hfind
      exact ⟨record, List.mem_cons_of_mem _ hmem, hview⟩
  present hash' record hmem := by
    by_cases heq : hash' = hash
    · rw [heq, hfind']
      rfl
    · rw [hother hash' heq]
      rcases List.mem_cons.mp hmem with hnew | hmem
      · exact absurd (Prod.mk.inj hnew).1 heq
      · exact h.present hash' record hmem
  connects hash' wtx' hfind hflag := by
    by_cases heq : hash' = hash
    · rw [heq, hfind'] at hfind
      rw [← Option.some.inj hfind] at hflag ⊢
      exact hconnects hflag
    · rw [hother hash' heq] at hfind
      exact h.connects hash' wtx' hfind hflag

end Reflects

/-- Transactions and indices are those of the records, beside the accounting entries. -/
structure Tells (env : Env) (hashMerkleRoot : UInt256 → UInt256) (laccentries : List (Int × Int))
    (records : List (UInt256 × TxRecord)) (w : WalletState) : Prop where
  reflects : Reflects env hashMerkleRoot records w
  spends : w.mapTxSpends.entries.Perm (spendsOf records)
  ordered : w.wtxOrdered.entries.Perm (orderedOf records ++ laccentries.map fun e => (e.1, .acentry e.2))
  positions : ∀ hash record, (hash, record) ∈ records → spentBy record.tx ≠ [] →
    toInt32 record.nOrderPos < maxOrderPos

namespace Tells

variable {laccentries : List (Int × Int)} {records records' : List (UInt256 × TxRecord)} {w w' : WalletState}

theorem refreshed (h : Tells env hashMerkleRoot laccentries records w) (hw : Refreshed w w') :
    Tells env hashMerkleRoot laccentries records w' where
  reflects := h.reflects.refreshed hw
  spends := by
    rw [hw.mapTxSpends]
    exact h.spends
  ordered := by
    rw [hw.wtxOrdered]
    exact h.ordered
  positions := h.positions

theorem perm (h : Tells env hashMerkleRoot laccentries records w) (hperm : records.Perm records') :
    Tells env hashMerkleRoot laccentries records' w where
  reflects := h.reflects.congr fun _ => hperm.mem_iff.symm
  spends := h.spends.trans (hperm.map _).flatten
  ordered := h.ordered.trans ((hperm.map _).append_right _)
  positions hash record hmem := h.positions hash record (hperm.mem_iff.mpr hmem)

theorem refersToPresent (h : Tells env hashMerkleRoot laccentries records w) : RefersToPresent w where
  mapTxSpends outpoint wtxid hmem := by
    obtain ⟨l, hl, hmem⟩ := List.mem_flatten.mp (h.spends.mem_iff.mp hmem)
    obtain ⟨⟨hash, record⟩, hr, rfl⟩ := List.mem_map.mp hl
    obtain ⟨o, -, heq⟩ := List.mem_map.mp hmem
    rw [← (Prod.mk.inj heq).2]
    exact h.reflects.present hash record hr
  wtxOrdered nOrderPos pwtx hmem := by
    rcases List.mem_append.mp (h.ordered.mem_iff.mp hmem) with hmem | hmem
    · obtain ⟨⟨hash, record⟩, hr, heq⟩ := List.mem_map.mp hmem
      exact ⟨hash, (TxPair.tx.inj (Prod.mk.inj heq).2).symm, h.reflects.present hash record hr⟩
    · obtain ⟨entry, -, heq⟩ := List.mem_map.mp hmem
      exact absurd (Prod.mk.inj heq).2 TxPair.noConfusion

end Tells

namespace CMerkleTx

variable {mtx : CMerkleTx}

theorem getDepthInMainChainInternal_of_connects (h : mtx.Connects env hashMerkleRoot) (chain : ChainView)
    (fMerkleVerified : Bool) : (mtx.getDepthInMainChainInternal env hashMerkleRoot chain fMerkleVerified).1 =
      (mtx.getDepthInMainChainInternal env hashMerkleRoot chain true).1 := by
  unfold getDepthInMainChainInternal
  by_cases hblock : mtx.hashBlock = 0 ∨ mtx.nIndex = -1
  · rw [if_pos hblock, if_pos hblock]
  · rw [if_neg hblock, if_neg hblock]
    cases chain.mainHeight mtx.hashBlock with
    | none => rfl
    | some nHeight =>
      have hknown : ¬(fMerkleVerified = false ∧ ¬mtx.Connects env hashMerkleRoot) := fun hnot => hnot.2 h
      have hverified : ¬(true = false ∧ ¬mtx.Connects env hashMerkleRoot) := fun hnot => hnot.2 h
      show (if fMerkleVerified = false ∧ _ then _ else _ : Int × Bool).1 =
        (if true = false ∧ _ then _ else _ : Int × Bool).1
      rw [if_neg hknown, if_neg hverified]

theorem connects_of_verified {fMerkleVerified : Bool}
    (h : (mtx.getDepthInMainChainInternal env hashMerkleRoot chain fMerkleVerified).2 = true) :
    fMerkleVerified = true ∨ mtx.Connects env hashMerkleRoot := by
  unfold getDepthInMainChainInternal at h
  by_cases hblock : mtx.hashBlock = 0 ∨ mtx.nIndex = -1
  · rw [if_pos hblock] at h
    exact Or.inl h
  · rw [if_neg hblock] at h
    cases hheight : chain.mainHeight mtx.hashBlock with
    | none =>
      rw [hheight] at h
      exact Or.inl h
    | some nHeight =>
      rw [hheight] at h
      have h : (if fMerkleVerified = false ∧ ¬mtx.Connects env hashMerkleRoot then ((0 : Int), fMerkleVerified)
        else (chain.nBestHeight - nHeight + 1, true)).2 = true := h
      by_cases hfails : fMerkleVerified = false ∧ ¬mtx.Connects env hashMerkleRoot
      · rw [if_pos hfails] at h
        exact Or.inl h
      · cases hold : fMerkleVerified with
        | true => exact Or.inl rfl
        | false => exact Or.inr (not_not.mp fun hnot => hfails ⟨hold, hnot⟩)

theorem getDepthInMainChain_eq {fVerified fVerified' : Bool} (h : fVerified = true → mtx.Connects env hashMerkleRoot)
    (h' : fVerified' = true → mtx.Connects env hashMerkleRoot) (chain : ChainView) :
    mtx.getDepthInMainChain env hashMerkleRoot chain fVerified =
      mtx.getDepthInMainChain env hashMerkleRoot chain fVerified' := by
  have hinternal : (mtx.getDepthInMainChainInternal env hashMerkleRoot chain fVerified).1 =
      (mtx.getDepthInMainChainInternal env hashMerkleRoot chain fVerified').1 := by
    by_cases hconnects : mtx.Connects env hashMerkleRoot
    · exact (getDepthInMainChainInternal_of_connects hconnects chain fVerified).trans
        (getDepthInMainChainInternal_of_connects hconnects chain fVerified').symm
    · have hf : fVerified = false := Bool.eq_false_iff.mpr fun ht => hconnects (h ht)
      have hf' : fVerified' = false := Bool.eq_false_iff.mpr fun ht => hconnects (h' ht)
      rw [hf, hf']
  unfold getDepthInMainChain
  rw [hinternal]

end CMerkleTx

section SameRecords

variable {laccentries : List (Int × Int)} {records : List (UInt256 × TxRecord)} {w w' : WalletState}

theorem Tells.isSpent_of_isSpent (h : Tells env hashMerkleRoot laccentries records w)
    (h' : Tells env hashMerkleRoot laccentries records w')
    (hunique : ∀ hash record record', (hash, record) ∈ records → (hash, record') ∈ records → record = record') {outpoint : COutPoint}
    (hspent : w.isSpent env hashMerkleRoot chain outpoint = true) :
    w'.isSpent env hashMerkleRoot chain outpoint = true := by
  obtain ⟨wtxid, hmem, hdepth⟩ := List.any_eq_true.mp hspent
  have hmem' : wtxid ∈ w'.mapTxSpends.equalRange outpoint := by
    rw [OrderedMultimap.mem_equalRange] at hmem ⊢
    exact h'.spends.mem_iff.mpr (h.spends.mem_iff.mp hmem)
  refine List.any_eq_true.mpr ⟨wtxid, hmem', ?_⟩
  obtain ⟨wtx', hwtx'⟩ :=
    Option.isSome_iff_exists.mp (h'.refersToPresent.mapTxSpends outpoint wtxid (OrderedMultimap.mem_equalRange.mp hmem'))
  cases hwtx : w.mapWallet.find? wtxid with
  | none =>
    rw [hwtx] at hdepth
    exact absurd hdepth Bool.false_ne_true
  | some wtx =>
    rw [hwtx] at hdepth
    rw [hwtx']
    obtain ⟨record, hr, hmtx, -⟩ := h.reflects.recorded wtxid wtx hwtx
    obtain ⟨record', hr', hmtx', -⟩ := h'.reflects.recorded wtxid wtx' hwtx'
    have hsame : wtx'.toCMerkleTx = wtx.toCMerkleTx := by
      rw [hmtx, hmtx', hunique wtxid record' record hr' hr]
    have hflag := h.reflects.connects wtxid wtx hwtx
    have hflag' := h'.reflects.connects wtxid wtx' hwtx'
    rw [hsame] at hflag'
    show decide (wtx'.getDepthInMainChain env hashMerkleRoot chain wtx'.fMerkleVerified ≥ 0) = true
    rw [hsame, CMerkleTx.getDepthInMainChain_eq hflag' hflag chain]
    exact hdepth

theorem Tells.sameHistory (h : Tells env hashMerkleRoot laccentries records w)
    (h' : Tells env hashMerkleRoot laccentries records w')
    (hunique : ∀ hash record record', (hash, record) ∈ records → (hash, record') ∈ records → record = record') :
    SameHistory env hashMerkleRoot w w' where
  isSpent _ _ :=
    Bool.eq_iff_iff.mpr ⟨h.isSpent_of_isSpent h' hunique, h'.isSpent_of_isSpent h hunique⟩
  mapTxSpends := h.spends.trans h'.spends.symm
  wtxOrdered := h.ordered.trans h'.ordered.symm

end SameRecords

section Load

variable {w : WalletState} {hash wtxid : UInt256} {wtx : WalletTx}

theorem entryOf_of_some (hfind : w.mapWallet.find? hash = some wtx) : entryOf call hash w = (.ok wtx, w) := by
  unfold entryOf
  rw [Exec.read_bind, hfind]
  rfl

variable (call) in
theorem findCopyFrom_loop (hpresent : ∀ hash ∈ range, (w.mapWallet.find? hash).isSome) (best : Int × Option UInt256) :
    ∃ best', range.foldlM (findCopyFrom call) best w = (.ok best', w) ∧
      (∀ hash, best'.2 = some hash → best.2 = some hash ∨ hash ∈ range) ∧
      (best'.2 = none → best.2 = none ∧ ∀ hash ∈ range, ∀ wtx, w.mapWallet.find? hash = some wtx →
        best.1 ≤ toInt32 wtx.nOrderPos) := by
  induction range generalizing best with
  | nil => exact ⟨best, rfl, fun hash h => Or.inl h, fun h => ⟨h, nofun⟩⟩
  | cons hash range ih =>
    obtain ⟨wtx, hwtx⟩ := Option.isSome_iff_exists.mp (hpresent hash List.mem_cons_self)
    have hfirst : findCopyFrom call best hash w =
        (.ok (if toInt32 wtx.nOrderPos < best.1 then (toInt32 wtx.nOrderPos, some hash) else best), w) :=
      Exec.bind_of_ok (entryOf_of_some hwtx) _
    obtain ⟨best', hrun, hsome, hnone⟩ := ih (fun h hmem => hpresent h (List.mem_cons_of_mem _ hmem))
      (if toInt32 wtx.nOrderPos < best.1 then (toInt32 wtx.nOrderPos, some hash) else best)
    refine ⟨best', ?_, fun hash' h => ?_, fun h => ?_⟩
    · rw [List.foldlM_cons, Exec.bind_of_ok hfirst, hrun]
    · rcases hsome hash' h with h | h
      · split_ifs at h with hlt
        · exact Or.inr (Option.some.inj h ▸ List.mem_cons_self)
        · exact Or.inl h
      · exact Or.inr (List.mem_cons_of_mem _ h)
    · obtain ⟨hbest, hrest⟩ := hnone h
      have hge : ¬toInt32 wtx.nOrderPos < best.1 := fun hlt => by
        rw [if_pos hlt] at hbest
        exact Option.some_ne_none _ hbest
      rw [if_neg hge] at hbest hrest
      refine ⟨hbest, fun hash' hmem wtx' hwtx' => ?_⟩
      rcases List.mem_cons.mp hmem with rfl | hmem
      · rw [← Option.some.inj (hwtx.symm.trans hwtx')]
        exact not_lt.mp hge
      · exact hrest hash' hmem wtx' hwtx'

variable (call) in
theorem copyMetaData_loop {copyFrom : UInt256} (hpresent : ∀ hash ∈ range, (w.mapWallet.find? hash).isSome)
    (hfrom : (w.mapWallet.find? copyFrom).isSome) :
    ∃ w', range.forM (copyMetaDataTo call (some copyFrom)) w = (.ok (), w') ∧ Refreshed w w' := by
  induction range generalizing w with
  | nil => exact ⟨w, rfl, Refreshed.refl w⟩
  | cons hash range ih =>
    have hstep : ∃ w₁, copyMetaDataTo call (some copyFrom) hash w = (.ok (), w₁) ∧ Refreshed w w₁ := by
      obtain ⟨copyTo, hto⟩ := Option.isSome_iff_exists.mp (hpresent hash List.mem_cons_self)
      obtain ⟨wtx, hwtx⟩ := Option.isSome_iff_exists.mp hfrom
      unfold copyMetaDataTo
      rw [Exec.bind_of_ok (entryOf_of_some hto)]
      by_cases heq : some copyFrom = some hash
      · rw [if_pos heq]
        exact ⟨w, rfl, Refreshed.refl w⟩
      · rw [if_neg heq]
        refine ⟨_, Exec.bind_of_ok (entryOf_of_some hwtx) _, ?_⟩
        exact Refreshed.setTx hto rfl
    obtain ⟨w₁, hrun, hw₁⟩ := hstep
    obtain ⟨w', hrest, hw'⟩ := ih
      (fun h hmem => by rw [hw₁.isSome_find?]; exact hpresent h (List.mem_cons_of_mem _ hmem))
      (by rw [hw₁.isSome_find?]; exact hfrom)
    exact ⟨w', (Exec.bind_of_ok hrun _).trans hrest, hw₁.trans hw'⟩

variable (call) in
theorem syncMetaData_spec (hpresent : ∀ hash ∈ range, (w.mapWallet.find? hash).isSome) (hmem : hash ∈ range)
    (hfind : w.mapWallet.find? hash = some wtx) (hpos : toInt32 wtx.nOrderPos < maxOrderPos) :
    ∃ w', syncMetaData call range w = (.ok (), w') ∧ Refreshed w w' := by
  obtain ⟨best, hbest, hsome, hnone⟩ := findCopyFrom_loop call hpresent (maxOrderPos, none)
  unfold syncMetaData
  rw [Exec.bind_of_ok hbest]
  cases hcopy : best.2 with
  | none => exact absurd ((hnone hcopy).2 hash hmem wtx hfind) (not_le.mpr hpos)
  | some copyFrom =>
    rcases hsome copyFrom hcopy with hfrom | hfrom
    · exact absurd hfrom.symm (Option.some_ne_none _)
    · exact copyMetaData_loop call hpresent (hpresent copyFrom hfrom)

def WalletState.withSpends (mapTxSpends : OrderedMultimap COutPoint UInt256) (w : WalletState) : WalletState :=
  { w with mapTxSpends }

theorem Refreshed.withSpends {w' : WalletState} (h : Refreshed w w') (mapTxSpends : OrderedMultimap COutPoint UInt256)
    : Refreshed (w.withSpends mapTxSpends) (w'.withSpends mapTxSpends) where
  mapWallet := h.mapWallet
  mapTxSpends := rfl
  wtxOrdered := h.wtxOrdered
  txRecords := h.txRecords
  fFileBacked := h.fFileBacked

variable (call) in
theorem addToSpends_loop {outpoints : List COutPoint} (hfind : w.mapWallet.find? wtxid = some wtx)
    (hpos : outpoints ≠ [] → toInt32 wtx.nOrderPos < maxOrderPos)
    (hspends : ∀ e ∈ w.mapTxSpends.entries, (w.mapWallet.find? e.2).isSome) :
    ∃ m w', outpoints.forM (addToSpends call wtxid) w = (.ok (), w') ∧ Refreshed (w.withSpends m) w' ∧
      m.entries.Perm ((outpoints.map fun outpoint => (outpoint, wtxid)) ++ w.mapTxSpends.entries) := by
  induction outpoints generalizing w wtx with
  | nil => exact ⟨w.mapTxSpends, w, rfl, Refreshed.refl w, List.Perm.refl _⟩
  | cons outpoint outpoints ih =>
    have hlt : toInt32 wtx.nOrderPos < maxOrderPos := hpos (List.cons_ne_nil _ _)
    have hinsert := w.mapTxSpends.insert_perm outpoint wtxid
    have hpresent : ∀ e ∈ (w.mapTxSpends.insert outpoint wtxid).entries, (w.mapWallet.find? e.2).isSome := by
      intro e he
      rcases List.mem_cons.mp (hinsert.mem_iff.mp he) with rfl | he
      · rw [hfind]
        rfl
      · exact hspends e he
    have hrange : ∀ hash ∈ (w.mapTxSpends.insert outpoint wtxid).equalRange outpoint,
        ((w.withSpends (w.mapTxSpends.insert outpoint wtxid)).mapWallet.find? hash).isSome := fun hash hmem =>
      hpresent (outpoint, hash) (OrderedMultimap.mem_equalRange.mp hmem)
    obtain ⟨w₁, hsync, hw₁⟩ := syncMetaData_spec call hrange
      (OrderedMultimap.mem_equalRange.mpr (hinsert.mem_iff.mpr List.mem_cons_self)) hfind hlt
    have hfirst : addToSpends call wtxid outpoint w = (.ok (), w₁) := hsync
    obtain ⟨wtx₁, hfind₁, hview⟩ := hw₁.exists_after hfind
    have hpos₁ : wtx₁.nOrderPos = wtx.nOrderPos := (Prod.mk.inj (Prod.mk.inj hview).2).1
    obtain ⟨m, w', hrest, hw', hperm⟩ := ih hfind₁ (fun _ => by rw [hpos₁]; exact hlt) fun e he => by
      rw [hw₁.mapTxSpends] at he
      rw [hw₁.isSome_find?]
      exact hpresent e he
    refine ⟨m, w', (Exec.bind_of_ok hfirst _).trans hrest, (hw₁.withSpends m).trans hw', hperm.trans ?_⟩
    rw [hw₁.mapTxSpends]
    exact (hinsert.append_left _).trans List.perm_middle

variable (call) in
theorem loadToWallet_spec {records : List (UInt256 × TxRecord)} {record : TxRecord}
    (h : Tells env hashMerkleRoot laccentries records w) (hhash : env.getHash record.tx = hash)
    (hpos : spentBy record.tx ≠ [] → toInt32 record.nOrderPos < maxOrderPos) :
    ∃ w', loadToWallet env call (record.load call.uninitialized) w = (.ok true, w') ∧
      Tells env hashMerkleRoot laccentries ((hash, record) :: records) w' ∧ w'.txRecords = w.txRecords ∧
      w'.fFileBacked = w.fFileBacked := by
  have hset : ((w.setTx hash (record.load call.uninitialized).markDirty).insertOrdered record.nOrderPos
      hash).mapWallet.find? hash = some (record.load call.uninitialized).markDirty :=
    OrderedMap.find?_set_self _ _ _
  have hpresent : ∀ e ∈ w.mapTxSpends.entries,
      ((w.mapWallet.set hash (record.load call.uninitialized).markDirty).find? e.2).isSome := by
    intro e he
    exact OrderedMap.isSome_find?_set _ _ (h.refersToPresent.mapTxSpends e.1 e.2 he)
  obtain ⟨m, w', hrun, hw', hperm⟩ := addToSpends_loop call hset hpos hpresent
  have hadd : addTxToSpends call hash
      ((w.setTx hash (record.load call.uninitialized).markDirty).insertOrdered record.nOrderPos hash) =
      (.ok (), w') := by
    unfold addTxToSpends
    rw [Exec.read_bind, hset]
    exact hrun
  refine ⟨w', ?_, ?_, hw'.txRecords, hw'.fFileBacked⟩
  · unfold loadToWallet
    have hhash' : env.getHash (record.load call.uninitialized).tx = hash := hhash
    rw [hhash']
    exact Exec.bind_of_ok hadd _
  · refine Tells.refreshed (w := ((w.setTx hash (record.load call.uninitialized).markDirty).insertOrdered
      record.nOrderPos hash).withSpends m) ⟨?_, ?_, ?_, fun hash' record' hmem => ?_⟩ hw'
    · exact h.reflects.cons
        (show env.getHash (record.load call.uninitialized).markDirty.tx = hash from hhash)
        (fun hflag => absurd hflag Bool.false_ne_true) (OrderedMap.find?_set_self _ _ _)
        fun _ hne => OrderedMap.find?_set_of_ne _ _ hne
    · exact hperm.trans (h.spends.append_left _)
    · exact (OrderedMultimap.insert_perm _ _ _).trans (h.ordered.cons _)
    · rcases List.mem_cons.mp hmem with heq | hmem
      · rw [(Prod.mk.inj heq).2]
        exact hpos
      · exact h.positions hash' record' hmem

def keyedRecord (env : Env) (record : TxRecord) : UInt256 × TxRecord := (env.getHash record.tx, record)

variable (call) in
theorem loadRecords_loop {loaded : List (UInt256 × TxRecord)} (h : Tells env hashMerkleRoot laccentries loaded w)
    (hpos : ∀ record ∈ records, spentBy record.tx ≠ [] → toInt32 record.nOrderPos < maxOrderPos) :
    ∃ w', (records.forM fun record => do
        let _ ← addToWallet env call (record.load call.uninitialized) true
        return () : WalletM Unit) w = (.ok (), w') ∧
      Tells env hashMerkleRoot laccentries (records.map (keyedRecord env) ++ loaded) w' ∧
      w'.txRecords = w.txRecords ∧ w'.fFileBacked = w.fFileBacked := by
  induction records generalizing w loaded with
  | nil => exact ⟨w, rfl, h, rfl, rfl⟩
  | cons record records ih =>
    obtain ⟨w₁, hrun, h₁, hrecords₁, hbacked₁⟩ :=
      loadToWallet_spec call h rfl (hpos record List.mem_cons_self)
    have hmiddle : (records.map (keyedRecord env) ++ keyedRecord env record :: loaded).Perm
        ((record :: records).map (keyedRecord env) ++ loaded) := List.perm_middle
    obtain ⟨w', hrest, h', hrecords', hbacked'⟩ := ih h₁ fun r hr => hpos r (List.mem_cons_of_mem _ hr)
    refine ⟨w', ?_, h'.perm hmiddle, hrecords'.trans hrecords₁, hbacked'.trans hbacked₁⟩
    exact (Exec.bind_of_ok (Exec.bind_of_ok hrun _) _).trans hrest

end Load

theorem tells_closed (fFileBacked : Bool) (nOrderPosNext : Int) (txRecords : OrderedMap UInt256 TxRecord) :
    Tells env hashMerkleRoot [] [] (.closed fFileBacked nOrderPosNext txRecords) where
  reflects :=
    { hashed := fun _ _ hmem => absurd hmem List.not_mem_nil
      recorded := fun _ _ hfind => absurd hfind.symm (Option.some_ne_none _)
      present := fun _ _ hmem => absurd hmem List.not_mem_nil
      connects := fun _ _ hfind => absurd hfind.symm (Option.some_ne_none _) }
  spends := List.Perm.refl _
  ordered := List.Perm.refl _
  positions := fun _ _ hmem => absurd hmem List.not_mem_nil

variable (hashMerkleRoot call) in
theorem loadWallet_spec (hload : Loadable env txRecords) (hperm : records.Perm (txRecords.entries.map Prod.snd))
    (laccentries : List (Int × Int)) (fFileBacked : Bool) (nOrderPosNext : Int) :
    ∃ w, loadWallet env call records laccentries (.closed fFileBacked nOrderPosNext txRecords) = (.ok (), w) ∧
      Tells env hashMerkleRoot laccentries txRecords.entries w ∧ w.txRecords = txRecords ∧
      w.fFileBacked = fFileBacked := by
  have hkeyed : (records.map (keyedRecord env)).Perm txRecords.entries := by
    have hentries : (txRecords.entries.map Prod.snd).map (keyedRecord env) = txRecords.entries := by
      rw [List.map_map]
      refine (List.map_congr_left fun e he => ?_).trans (List.map_id _)
      exact Prod.ext (hload e.1 e.2 he).1 rfl
    have hmap := hperm.map (keyedRecord env)
    rwa [hentries] at hmap
  obtain ⟨w, hrun, h, hrecords, hbacked⟩ := loadRecords_loop call
      (tells_closed fFileBacked nOrderPosNext txRecords : Tells env hashMerkleRoot [] [] _) fun record hmem => by
    obtain ⟨⟨hash, record'⟩, he, rfl⟩ := List.mem_map.mp (hperm.mem_iff.mp hmem)
    exact (hload hash record' he).2
  rw [List.append_nil] at h
  have h' := h.perm hkeyed
  refine ⟨_, Exec.bind_of_ok hrun _, ⟨?_, h'.spends, ?_, h'.positions⟩, hrecords, hbacked⟩
  · exact ⟨h'.reflects.hashed, h'.reflects.recorded, h'.reflects.present, h'.reflects.connects⟩
  · refine (OrderedMultimap.foldl_insert_perm Prod.fst (fun e => TxPair.acentry e.2) laccentries _).trans ((h'.ordered.append_right _).trans ?_)
    rw [List.map_nil, List.append_nil]

/-! ## What operations keep -/

/-- The wallet tells what its own records tell. -/
def Told (env : Env) (hashMerkleRoot : UInt256 → UInt256) (laccentries : List (Int × Int)) (w : WalletState) : Prop :=
  Tells env hashMerkleRoot laccentries w.txRecords.entries w

/-- The transactions that are remembered to be verified were so before. -/
def VerifiedBefore (w w' : WalletState) : Prop :=
  ∀ hash wtx', w'.mapWallet.find? hash = some wtx' → wtx'.fMerkleVerified = true →
    ∃ wtx, w.mapWallet.find? hash = some wtx ∧ wtx.fMerkleVerified = true

/-- What an operation keeps of a wallet that tells what its records tell. -/
structure Kept (env : Env) (hashMerkleRoot : UInt256 → UInt256) (laccentries : List (Int × Int))
    (w w' : WalletState) : Prop where
  told : Told env hashMerkleRoot laccentries w'
  present : ∀ hash, (w.mapWallet.find? hash).isSome → (w'.mapWallet.find? hash).isSome
  verified : VerifiedBefore w w'

section Kept

variable {laccentries : List (Int × Int)} {w w' w₁ w₂ w₃ : WalletState} {hash : UInt256} {wtx wtx' : WalletTx}

theorem VerifiedBefore.trans (h : VerifiedBefore w₁ w₂) (h' : VerifiedBefore w₂ w₃) : VerifiedBefore w₁ w₃ := by
  intro hash wtx' hfind hflag
  obtain ⟨wtx₂, hfind₂, hflag₂⟩ := h' hash wtx' hfind hflag
  exact h hash wtx₂ hfind₂ hflag₂

theorem Kept.refl (h : Told env hashMerkleRoot laccentries w) : Kept env hashMerkleRoot laccentries w w :=
  ⟨h, fun _ hsome => hsome, fun _ wtx hfind hflag => ⟨wtx, hfind, hflag⟩⟩

theorem Kept.trans (h : Kept env hashMerkleRoot laccentries w₁ w₂) (h' : Kept env hashMerkleRoot laccentries w₂ w₃) :
    Kept env hashMerkleRoot laccentries w₁ w₃ :=
  ⟨h'.told, fun hash hsome => h'.present hash (h.present hash hsome), h.verified.trans h'.verified⟩

theorem Refreshed.verifiedBefore (h : Refreshed w w') : VerifiedBefore w w' := by
  intro hash wtx' hfind hflag
  obtain ⟨wtx, hwtx, hview⟩ := h.exists_before hfind
  exact ⟨wtx, hwtx, (Prod.mk.inj (Prod.mk.inj hview).2).2.symm.trans hflag⟩

theorem Refreshed.kept (h : Refreshed w w') (htold : Told env hashMerkleRoot laccentries w) :
    Kept env hashMerkleRoot laccentries w w' where
  told := by
    unfold Told
    rw [h.txRecords]
    exact Tells.refreshed htold h
  present hash hsome := by
    rw [h.isSome_find?]
    exact hsome
  verified := h.verifiedBefore

theorem Told.store (h : Told env hashMerkleRoot laccentries w) (hfind : w.mapWallet.find? hash = some wtx)
    (hfind' : w'.mapWallet.find? hash = some wtx')
    (hother : ∀ hash', hash' ≠ hash → w'.mapWallet.find? hash' = w.mapWallet.find? hash')
    (hrecords : w'.txRecords = w.txRecords.set hash wtx'.toTxRecord) (hspends : w'.mapTxSpends = w.mapTxSpends)
    (hordered : w'.wtxOrdered = w.wtxOrdered) (htx : wtx'.tx = wtx.tx) (hpos : wtx'.nOrderPos = wtx.nOrderPos)
    (hconnects : wtx'.fMerkleVerified = true → wtx'.Connects env hashMerkleRoot) :
    Told env hashMerkleRoot laccentries w' := by
  obtain ⟨record, hmem, hmtx, hpos'⟩ := h.reflects.recorded hash wtx hfind
  have hrecord : w.txRecords.find? hash = some record := OrderedMap.find?_eq_some_iff.mpr hmem
  have htx' : wtx'.tx = record.tx := htx.trans (congrArg CMerkleTx.tx hmtx)
  have hspendsOf : spendsOf w'.txRecords.entries = spendsOf w.txRecords.entries := by
    unfold spendsOf
    rw [hrecords, OrderedMap.map_set_of_some hrecord]
    rw [htx']
  have horderedOf : orderedOf w'.txRecords.entries = orderedOf w.txRecords.entries := by
    unfold orderedOf
    rw [hrecords, OrderedMap.map_set_of_some hrecord]
    rw [hpos.trans hpos']
  refine ⟨⟨fun hash' record' hmem' => ?_, fun hash' wtx'' hfind'' => ?_, fun hash' record' hmem' => ?_,
    fun hash' wtx'' hfind'' hflag => ?_⟩, ?_, ?_, fun hash' record' hmem' hspent => ?_⟩
  · rw [hrecords] at hmem'
    rcases OrderedMap.mem_set.mp hmem' with heq | ⟨hmem', -⟩
    · obtain ⟨rfl, rfl⟩ := Prod.mk.inj heq
      rw [htx']
      exact h.reflects.hashed _ record hmem
    · exact h.reflects.hashed hash' record' hmem'
  · rw [hrecords]
    by_cases heq : hash' = hash
    · rw [heq, hfind'] at hfind''
      rw [heq, ← Option.some.inj hfind'']
      exact ⟨wtx'.toTxRecord, OrderedMap.mem_set.mpr (Or.inl rfl), rfl, rfl⟩
    · rw [hother hash' heq] at hfind''
      obtain ⟨record', hmem', hview⟩ := h.reflects.recorded hash' wtx'' hfind''
      exact ⟨record', OrderedMap.mem_set.mpr (Or.inr ⟨hmem', heq⟩), hview⟩
  · by_cases heq : hash' = hash
    · rw [heq, hfind']
      rfl
    · rw [hother hash' heq]
      rw [hrecords] at hmem'
      rcases OrderedMap.mem_set.mp hmem' with hnew | ⟨hmem', -⟩
      · exact absurd (Prod.mk.inj hnew).1 heq
      · exact h.reflects.present hash' record' hmem'
  · by_cases heq : hash' = hash
    · rw [heq, hfind'] at hfind''
      rw [← Option.some.inj hfind''] at hflag ⊢
      exact hconnects hflag
    · rw [hother hash' heq] at hfind''
      exact h.reflects.connects hash' wtx'' hfind'' hflag
  · rw [hspends, hspendsOf]
    exact h.spends
  · rw [hordered, horderedOf]
    exact h.ordered
  · rw [hrecords] at hmem'
    rcases OrderedMap.mem_set.mp hmem' with heq | ⟨hmem', -⟩
    · rw [(Prod.mk.inj heq).2] at hspent ⊢
      rw [htx'] at hspent
      rw [hpos.trans hpos']
      exact h.positions hash record hmem hspent
    · exact h.positions hash' record' hmem' hspent

def WalletState.withRecord (hash : UInt256) (record : TxRecord) (w : WalletState) : WalletState :=
  { w with txRecords := w.txRecords.set hash record }

variable (call) in
theorem writeToDisk_kept (h : Told env hashMerkleRoot laccentries w) (hfind : w.mapWallet.find? hash = some wtx) :
    ∃ written w', writeToDisk env call wtx w = (.ok written, w') ∧ Kept env hashMerkleRoot laccentries w w' := by
  by_cases hwrite : call.writeTx wtx.toTxRecord = true
  · have hfind' : (w.withRecord (env.getHash wtx.tx) wtx.toTxRecord).mapWallet.find? hash = some wtx := hfind
    refine ⟨true, w.withRecord (env.getHash wtx.tx) wtx.toTxRecord, ?_, ?_,
      fun _ hsome => hsome, fun _ wtx hfind hflag => ⟨wtx, hfind, hflag⟩⟩
    · unfold writeToDisk
      rw [if_pos hwrite]
      rfl
    · have hhash : env.getHash wtx.tx = hash := h.reflects.getHash_eq hfind
      refine h.store hfind hfind' (fun _ _ => rfl) ?_ rfl rfl rfl rfl (h.reflects.connects hash wtx hfind)
      show w.txRecords.set (env.getHash wtx.tx) wtx.toTxRecord = _
      rw [hhash]
  · refine ⟨false, w, ?_, Kept.refl h⟩
    unfold writeToDisk
    rw [if_neg hwrite]
    rfl

end Kept

section Merge

variable {wtx wtxIn : WalletTx}

theorem CMerkleTx.merge_tx (mtx mtxIn : CMerkleTx) : (mtx.merge mtxIn).tx = mtx.tx := by
  unfold CMerkleTx.merge
  split_ifs <;> rfl

theorem CMerkleTx.merge_connects {mtx mtxIn : CMerkleTx} (hhash : env.getHash mtx.tx = env.getHash mtxIn.tx)
    (hconnects : mtx.Connects env hashMerkleRoot) (hattached : mtxIn.Attached env hashMerkleRoot) :
    (mtx.merge mtxIn).Connects env hashMerkleRoot := by
  rcases hattached with ⟨hblock, hindex⟩ | ⟨hblock, hindex, hin⟩
  · have hsame : mtx.merge mtxIn = mtx := by
      unfold CMerkleTx.merge
      rw [if_neg fun hnot => hnot.1 hindex, if_neg fun hnot => hnot.1 hblock]
    rw [hsame]
    exact hconnects
  · have hmerged : mtx.merge mtxIn = { mtxIn with tx := mtx.tx } := by
      unfold CMerkleTx.merge
      by_cases heq : mtxIn.hashBlock = mtx.hashBlock
      · rw [if_neg fun hnot : mtxIn.hashBlock ≠ 0 ∧ mtxIn.hashBlock ≠ mtx.hashBlock => hnot.2 heq]
        by_cases hdiff : mtxIn.vMerkleBranch ≠ mtx.vMerkleBranch ∨ mtxIn.nIndex ≠ mtx.nIndex
        · rw [if_pos ⟨hindex, hdiff⟩, heq]
        · rw [if_neg fun hnot : mtxIn.nIndex ≠ -1 ∧ _ => hdiff hnot.2, heq]
          obtain ⟨hbranch, hsame⟩ := not_or.mp hdiff
          rw [not_not.mp hbranch, not_not.mp hsame]
      · rw [if_pos (show mtxIn.hashBlock ≠ 0 ∧ mtxIn.hashBlock ≠ mtx.hashBlock from ⟨hblock, heq⟩)]
        by_cases hdiff : mtxIn.vMerkleBranch ≠ mtx.vMerkleBranch ∨ mtxIn.nIndex ≠ mtx.nIndex
        · rw [if_pos ⟨hindex, hdiff⟩]
        · rw [if_neg fun hnot : mtxIn.nIndex ≠ -1 ∧ _ => hdiff hnot.2]
          obtain ⟨hbranch, hsame⟩ := not_or.mp hdiff
          rw [not_not.mp hbranch, not_not.mp hsame]
    rw [hmerged]
    unfold CMerkleTx.Connects at hin ⊢
    show CBlock.checkMerkleBranch env.hashPair (env.getHash mtx.tx) mtxIn.vMerkleBranch mtxIn.nIndex = _
    rw [hhash]
    exact hin

theorem WalletTx.updateSpent_historyView (vfNewSpent : List Bool) (wtx : WalletTx) :
    (wtx.updateSpent vfNewSpent).1.historyView = wtx.historyView := by
  unfold WalletTx.updateSpent
  rcases WalletTx.updateFlags vfNewSpent wtx.vfSpent with ⟨vfSpent, fReturn⟩
  cases fReturn <;> rfl

theorem WalletTx.merge_historyView (wtx wtxIn : WalletTx) : (wtx.merge wtxIn).1.historyView =
      (wtx.toCMerkleTx.merge wtxIn.toCMerkleTx, wtx.nOrderPos, wtx.fMerkleVerified) :=
  WalletTx.updateSpent_historyView _ _

theorem WalletTx.historyView_of_not_updated (wtx wtxIn : WalletTx) (h : (wtx.merge wtxIn).2 = false) :
    (wtx.merge wtxIn).1.historyView = wtx.historyView := by
  have hflags : (decide (wtx.toCMerkleTx.merge wtxIn.toCMerkleTx ≠ wtx.toCMerkleTx) || _ || _) = false := h
  have hmtx := (Bool.or_eq_false_iff.mp (Bool.or_eq_false_iff.mp hflags).1).1
  rw [WalletTx.merge_historyView, not_not.mp (of_decide_eq_false hmtx)]
  rfl

end Merge

section Add

variable {laccentries : List (Int × Int)} {w w' : WalletState} {hash : UInt256} {wtx wtxIn : WalletTx}

theorem storeTx_unchanged : storeTx env call hash wtx false w = (.ok true, w.modifyTx hash WalletTx.markDirty) := rfl

theorem storeTx_changed (hwrite : ∀ record, call.writeTx record = true) : storeTx env call hash wtx true w =
      (.ok true, (w.withRecord (env.getHash wtx.tx) wtx.toTxRecord).modifyTx hash WalletTx.markDirty) := by
  have hwritten : writeToDisk env call wtx w = (.ok true, w.withRecord (env.getHash wtx.tx) wtx.toTxRecord) := by
    unfold writeToDisk
    rw [if_pos (hwrite _)]
    rfl
  exact Exec.bind_of_ok hwritten _

theorem mergeToWallet_spec (h : Told env hashMerkleRoot laccentries w)
    (hfind : w.mapWallet.find? (env.getHash wtxIn.tx) = some wtx) (hwrite : ∀ record, call.writeTx record = true)
    (hattached : wtx.fMerkleVerified = true → wtxIn.Attached env hashMerkleRoot) :
    ∃ w', mergeToWallet env call wtx wtxIn w = (.ok true, w') ∧ Kept env hashMerkleRoot laccentries w w' := by
  have hview := WalletTx.merge_historyView wtx.markDirty wtxIn
  have hunchanged := WalletTx.historyView_of_not_updated wtx.markDirty wtxIn
  have hrun : mergeToWallet env call wtx wtxIn w =
      storeTx env call (env.getHash wtxIn.tx) (wtx.markDirty.merge wtxIn).1 (wtx.markDirty.merge wtxIn).2
        (w.setTx (env.getHash wtxIn.tx) (wtx.markDirty.merge wtxIn).1) := rfl
  rw [hrun]
  generalize wtx.markDirty.merge wtxIn = merged at hview hunchanged ⊢
  obtain ⟨wtx', fUpdated⟩ := merged
  obtain ⟨hmtx, hrest⟩ := Prod.mk.inj hview
  obtain ⟨hpos, hflag⟩ := Prod.mk.inj hrest
  have htx : wtx'.tx = wtx.tx := (congrArg CMerkleTx.tx hmtx).trans (CMerkleTx.merge_tx _ _)
  have hhash : env.getHash wtx.tx = env.getHash wtxIn.tx := h.reflects.getHash_eq hfind
  cases fUpdated with
  | false =>
    have hset : Refreshed w (w.setTx (env.getHash wtxIn.tx) wtx') := Refreshed.setTx hfind (hunchanged rfl)
    exact ⟨_, storeTx_unchanged, (hset.trans (Refreshed.markDirty _ _)).kept h⟩
  | true =>
    have hstored : Told env hashMerkleRoot laccentries
        ((w.setTx (env.getHash wtxIn.tx) wtx').withRecord (env.getHash wtx'.tx) wtx'.toTxRecord) := by
      refine h.store hfind (OrderedMap.find?_set_self _ _ _) (fun _ hne => OrderedMap.find?_set_of_ne _ _ hne) ?_
        rfl rfl htx hpos fun hverified => ?_
      · rw [htx, hhash]
        rfl
      · have hold : wtx.fMerkleVerified = true := hflag.symm.trans hverified
        have hconnects := CMerkleTx.merge_connects hhash (h.reflects.connects _ wtx hfind hold) (hattached hold)
        have hmtx' : wtx'.toCMerkleTx = wtx.toCMerkleTx.merge wtxIn.toCMerkleTx := hmtx
        rwa [← hmtx'] at hconnects
    refine ⟨_, storeTx_changed hwrite, Kept.trans ⟨hstored, fun hash hsome => ?_,
      fun hash wtx'' hfind' hverified => ?_⟩ ((Refreshed.markDirty _ _).kept hstored)⟩
    · show ((w.mapWallet.set (env.getHash wtxIn.tx) wtx').find? hash).isSome
      exact OrderedMap.isSome_find?_set _ _ hsome
    · have hfind' : (w.mapWallet.set (env.getHash wtxIn.tx) wtx').find? hash = some wtx'' := hfind'
      rcases OrderedMap.find?_set_cases hfind' with ⟨heq, rfl⟩ | ⟨-, hold⟩
      · exact ⟨wtx, heq ▸ hfind, hflag.symm.trans hverified⟩
      · exact ⟨wtx'', hold, hverified⟩

theorem latestEntry_spec (hash : UInt256) {entries : List (Int × TxPair)} (latestNow : UInt32)
    (hpresent : ∀ nOrderPos pwtx, (nOrderPos, .tx pwtx) ∈ entries →
      ∃ hash', pwtx = some hash' ∧ (w.mapWallet.find? hash').isSome) :
    ∃ r, w.latestEntry hash latestNow entries = .ok r := by
  induction entries with
  | nil => exact ⟨_, rfl⟩
  | cons entry entries ih =>
    obtain ⟨nOrderPos, pair⟩ := entry
    have hrest := ih fun n pwtx hmem => hpresent n pwtx (List.mem_cons_of_mem _ hmem)
    have hsmart : ∃ nSmartTime, w.smartTime pair = .ok nSmartTime := by
      cases pair with
      | acentry nTime => exact ⟨nTime, rfl⟩
      | tx pwtx =>
        obtain ⟨hash', rfl, hsome⟩ := hpresent nOrderPos pwtx List.mem_cons_self
        obtain ⟨wtx, hwtx⟩ := Option.isSome_iff_exists.mp hsome
        refine ⟨if wtx.nTimeSmart = 0 then wtx.nTimeReceived.toNat else wtx.nTimeSmart.toNat, ?_⟩
        unfold WalletState.smartTime
        dsimp only
        rw [Option.bind_some, hwtx]
    obtain ⟨nSmartTime, hsmart⟩ := hsmart
    unfold WalletState.latestEntry
    by_cases hself : pair = .tx (some hash)
    · rw [if_pos hself]
      exact hrest
    · rw [if_neg hself, hsmart]
      show ∃ r, (if nSmartTime ≤ ((latestNow + 300).toNat : Int) then _ else _ : Except Stop (UInt32 × UInt32)) = .ok r
      by_cases hlate : nSmartTime ≤ ((latestNow + 300).toNat : Int)
      · rw [if_pos hlate]
        exact ⟨_, rfl⟩
      · rw [if_neg hlate]
        exact hrest

variable (call) in
theorem insertNew_spec (h : RefersToPresent w) (hash : UInt256) (wtxIn : WalletTx) :
    ∃ nTimeSmart w', insertNew call hash wtxIn w = (.ok { wtxIn.markDirty with
        nTimeReceived := call.nAdjustedTime, nOrderPos := w.nOrderPosNext, nTimeSmart }, w') ∧
      w'.mapWallet.find? hash = some { wtxIn.markDirty with
        nTimeReceived := call.nAdjustedTime, nOrderPos := w.nOrderPosNext, nTimeSmart } ∧
      (∀ hash', hash' ≠ hash → w'.mapWallet.find? hash' = w.mapWallet.find? hash') ∧
      w'.mapTxSpends = w.mapTxSpends ∧ w'.wtxOrdered = w.wtxOrdered.insert w.nOrderPosNext (.tx (some hash)) ∧
      w'.txRecords = w.txRecords := by
  let wtx : WalletTx := { wtxIn.markDirty with
    nTimeReceived := call.nAdjustedTime, nOrderPos := w.nOrderPosNext, nTimeSmart := call.nAdjustedTime }
  let w₁ : WalletState :=
    (WalletState.setTx hash wtx { w with nOrderPosNext := w.nOrderPosNext + 1 }).insertOrdered w.nOrderPosNext hash
  have hpresent : ∀ nOrderPos pwtx, (nOrderPos, .tx pwtx) ∈ w₁.wtxOrdered.entries.reverse →
      ∃ hash', pwtx = some hash' ∧ (w₁.mapWallet.find? hash').isSome := by
    intro nOrderPos pwtx hmem
    have hmem := (OrderedMultimap.insert_perm _ _ _).mem_iff.mp (List.mem_reverse.mp hmem)
    rcases List.mem_cons.mp hmem with heq | hmem
    · refine ⟨hash, TxPair.tx.inj (Prod.mk.inj heq).2, ?_⟩
      exact Option.isSome_of_eq_some (OrderedMap.find?_set_self _ _ _)
    · obtain ⟨hash', rfl, hsome⟩ := h.wtxOrdered nOrderPos pwtx hmem
      refine ⟨hash', rfl, ?_⟩
      exact OrderedMap.isSome_find?_set _ _ hsome
  have hsmart : ∃ nTimeSmart, w₁.nTimeSmart call hash wtx = .ok nTimeSmart := by
    unfold WalletState.nTimeSmart
    by_cases hblock : wtx.hashBlock = 0
    · rw [if_pos hblock]
      exact ⟨_, rfl⟩
    · rw [if_neg hblock]
      cases call.blockTime wtx.hashBlock with
      | none => exact ⟨_, rfl⟩
      | some blocktime =>
        obtain ⟨latest, hlatest⟩ := latestEntry_spec hash wtx.nTimeReceived hpresent
        refine ⟨max latest.1 (min blocktime latest.2), ?_⟩
        show (w₁.latestEntry hash wtx.nTimeReceived w₁.wtxOrdered.entries.reverse >>= _) = _
        rw [hlatest]
        rfl
  obtain ⟨nTimeSmart, hsmart⟩ := hsmart
  refine ⟨nTimeSmart, w₁.setTx hash { wtx with nTimeSmart }, ?_, OrderedMap.find?_set_self _ _ _,
    fun hash' hne => ?_, rfl, rfl, rfl⟩
  · show (liftM (w₁.nTimeSmart call hash wtx) >>= _ : WalletM WalletTx) w₁ = _
    rw [hsmart]
    rfl
  · show ((w.mapWallet.set hash wtx).set hash _).find? hash' = _
    rw [OrderedMap.find?_set_of_ne _ _ hne, OrderedMap.find?_set_of_ne _ _ hne]

theorem addNewToWallet_spec (h : Told env hashMerkleRoot laccentries w)
    (hnone : w.mapWallet.find? (env.getHash wtxIn.tx) = none) (hsafe : AddSafe env hashMerkleRoot call w wtxIn) :
    ∃ w', addNewToWallet env call wtxIn w = (.ok true, w') ∧ Told env hashMerkleRoot laccentries w' ∧
      (∀ hash, (w.mapWallet.find? hash).isSome → (w'.mapWallet.find? hash).isSome) ∧
      (wtxIn.fMerkleVerified = false → VerifiedBefore w w') := by
  obtain ⟨nTimeSmart, w₁, hrun, hfind, hother, hspends, hordered, hrecords⟩ :=
    insertNew_spec call h.refersToPresent (env.getHash wtxIn.tx) wtxIn
  generalize hwtx : ({ wtxIn.markDirty with
    nTimeReceived := call.nAdjustedTime, nOrderPos := w.nOrderPosNext, nTimeSmart } : WalletTx) = wtx at hrun hfind
  have hmtx : wtx.toCMerkleTx = wtxIn.toCMerkleTx := by rw [← hwtx]; rfl
  have htx : wtx.tx = wtxIn.tx := congrArg CMerkleTx.tx hmtx
  have hflag : wtx.fMerkleVerified = wtxIn.fMerkleVerified := by rw [← hwtx]; rfl
  have hpos : wtx.nOrderPos = w.nOrderPosNext := by rw [← hwtx]
  have hfresh : w.txRecords.find? (env.getHash wtxIn.tx) = none := by
    refine Option.eq_none_iff_forall_ne_some.mpr fun record hrecord => ?_
    have hsome := h.reflects.present _ record (OrderedMap.find?_eq_some_iff.mp hrecord)
    rw [hnone] at hsome
    exact Bool.false_ne_true hsome
  have hperm : (w.txRecords.set (env.getHash wtxIn.tx) wtx.toTxRecord).entries.Perm
      ((env.getHash wtxIn.tx, wtx.toTxRecord) :: w.txRecords.entries) := OrderedMap.set_perm_of_none hfresh
  have htells : Tells env hashMerkleRoot laccentries ((env.getHash wtxIn.tx, wtx.toTxRecord) :: w.txRecords.entries)
      (w₁.withRecord (env.getHash wtx.tx) wtx.toTxRecord) := by
    refine ⟨h.reflects.cons (by rw [htx]) (fun hverified => ?_) hfind hother, ?_, ?_, fun hash record hmem hspent => ?_⟩
    · rw [hmtx]
      exact hsafe.connects hnone (hflag.symm.trans hverified)
    · have hnothing : spendsOf ((env.getHash wtxIn.tx, wtx.toTxRecord) :: w.txRecords.entries) =
          spendsOf w.txRecords.entries := by
        show (spentBy wtx.tx).map _ ++ spendsOf w.txRecords.entries = _
        rw [htx, hsafe.spentBy hnone]
        rfl
      rw [hnothing]
      show w₁.mapTxSpends.entries.Perm _
      rw [hspends]
      exact h.spends
    · show w₁.wtxOrdered.entries.Perm ((wtx.nOrderPos, TxPair.tx (some (env.getHash wtxIn.tx))) :: _)
      rw [hordered, hpos]
      exact (OrderedMultimap.insert_perm _ _ _).trans (h.ordered.cons _)
    · rcases List.mem_cons.mp hmem with heq | hmem
      · have hrecord : record = wtx.toTxRecord := (Prod.mk.inj heq).2
        rw [hrecord, htx] at hspent
        exact absurd (hsafe.spentBy hnone) hspent
      · exact h.positions hash record hmem hspent
  have htold : Told env hashMerkleRoot laccentries (w₁.withRecord (env.getHash wtx.tx) wtx.toTxRecord) := by
    show Tells env hashMerkleRoot laccentries (w₁.txRecords.set (env.getHash wtx.tx) wtx.toTxRecord).entries _
    rw [hrecords, htx]
    rw [htx] at htells
    exact htells.perm hperm.symm
  have hdirty := Refreshed.markDirty (w₁.withRecord (env.getHash wtx.tx) wtx.toTxRecord) (env.getHash wtxIn.tx)
  refine ⟨_, (Exec.bind_of_ok hrun _).trans (storeTx_changed hsafe.writeTx), (hdirty.kept htold).told,
    fun hash hsome => (hdirty.kept htold).present hash ?_, fun hunverified => ?_⟩
  · show (w₁.mapWallet.find? hash).isSome
    by_cases heq : hash = env.getHash wtxIn.tx
    · rw [heq, hfind]
      rfl
    · rw [hother hash heq]
      exact hsome
  · refine VerifiedBefore.trans (fun hash wtx' hfind' hverified => ?_) hdirty.verifiedBefore
    have hfind' : w₁.mapWallet.find? hash = some wtx' := hfind'
    by_cases heq : hash = env.getHash wtxIn.tx
    · rw [heq, hfind] at hfind'
      rw [← Option.some.inj hfind', hflag, hunverified] at hverified
      exact absurd hverified Bool.false_ne_true
    · rw [hother hash heq] at hfind'
      exact ⟨wtx', hfind', hverified⟩

variable (call) in
theorem addToWallet_spec (h : Told env hashMerkleRoot laccentries w) (hsafe : AddSafe env hashMerkleRoot call w wtxIn)
    : ∃ w', addToWallet env call wtxIn false w = (.ok true, w') ∧ Told env hashMerkleRoot laccentries w' ∧
      (wtxIn.fMerkleVerified = false → Kept env hashMerkleRoot laccentries w w') := by
  unfold addToWallet
  rw [if_neg Bool.false_ne_true, Exec.read_bind]
  cases hfind : w.mapWallet.find? (env.getHash wtxIn.tx) with
  | none =>
    obtain ⟨w', hrun', htold, hpresent, hverified⟩ := addNewToWallet_spec h hfind hsafe
    exact ⟨w', hrun', htold, fun hflag => ⟨htold, hpresent, hverified hflag⟩⟩
  | some wtx =>
    obtain ⟨w', hrun', hkept⟩ := mergeToWallet_spec h hfind hsafe.writeTx (hsafe.attached wtx hfind)
    exact ⟨w', hrun', hkept.told, fun _ => hkept⟩

end Add

section Sync

variable {laccentries : List (Int × Int)} {w w' : WalletState} {tx : CTransaction} {pblock : Option CBlock}
variable {fFixSpentCoins : Bool}

theorem WalletTx.setSpent_historyView (fSpent : Bool) (nOut : Nat) (wtx : WalletTx) :
    (wtx.setSpent fSpent nOut).historyView = wtx.historyView := by
  unfold WalletTx.setSpent
  split_ifs <;> rfl

theorem AddSafe.kept {wtxIn : WalletTx} (h : AddSafe env hashMerkleRoot call w wtxIn)
    (hflag : wtxIn.fMerkleVerified = false) (hkept : Kept env hashMerkleRoot laccentries w w') :
    AddSafe env hashMerkleRoot call w' wtxIn where
  writeTx := h.writeTx
  spentBy hnone := by
    refine h.spentBy (Option.not_isSome_iff_eq_none.mp fun hsome => ?_)
    have hsome' := hkept.present _ hsome
    rw [hnone] at hsome'
    exact Bool.false_ne_true hsome'
  connects _ hverified := by
    rw [hflag] at hverified
    exact absurd hverified Bool.false_ne_true
  attached wtx' hfind hverified := by
    obtain ⟨wtx, hwtx, hold⟩ := hkept.verified _ wtx' hfind hverified
    exact h.attached wtx hwtx hold

theorem walletTxOf_fMerkleVerified (tx : CTransaction) (pblock : Option CBlock) :
    (walletTxOf env call tx pblock).fMerkleVerified = false := by
  cases pblock <;> rfl

/-- What `SyncTransaction` relies on, once it has added the transaction. -/
structure SyncReady (env : Env) (hashMerkleRoot : UInt256 → UInt256) (call : WalletCall)
    (laccentries : List (Int × Int)) (tx : CTransaction) (pblock : Option CBlock) (fFixSpentCoins : Bool)
    (w : WalletState) : Prop where
  told : Told env hashMerkleRoot laccentries w
  safe : AddSafe env hashMerkleRoot call w (walletTxOf env call tx pblock)
  present : fFixSpentCoins = true → ∀ txin ∈ tx.vin, (w.mapWallet.find? txin.prevout.hash).isSome

theorem SyncReady.kept (h : SyncReady env hashMerkleRoot call laccentries tx pblock fFixSpentCoins w)
    (hkept : Kept env hashMerkleRoot laccentries w w') :
    SyncReady env hashMerkleRoot call laccentries tx pblock fFixSpentCoins w' where
  told := hkept.told
  safe := h.safe.kept (walletTxOf_fMerkleVerified tx pblock) hkept
  present hfix txin hmem := hkept.present _ (h.present hfix txin hmem)

/-- The computation keeps what `Kept` says, where `SyncReady` holds. -/
def SyncKeeps (env : Env) (hashMerkleRoot : UInt256 → UInt256) (call : WalletCall) (laccentries : List (Int × Int))
    (tx : CTransaction) (pblock : Option CBlock) (fFixSpentCoins : Bool) (w w' : WalletState) : Prop :=
  SyncReady env hashMerkleRoot call laccentries tx pblock fFixSpentCoins w → Kept env hashMerkleRoot laccentries w w'

theorem SyncKeeps.refl (w : WalletState) :
    SyncKeeps env hashMerkleRoot call laccentries tx pblock fFixSpentCoins w w := fun h => Kept.refl h.told

theorem SyncKeeps.trans (w₁ w₂ w₃ : WalletState)
    (h : SyncKeeps env hashMerkleRoot call laccentries tx pblock fFixSpentCoins w₁ w₂)
    (h' : SyncKeeps env hashMerkleRoot call laccentries tx pblock fFixSpentCoins w₂ w₃) :
    SyncKeeps env hashMerkleRoot call laccentries tx pblock fFixSpentCoins w₁ w₃ := fun hready =>
  (h hready).trans (h' (hready.kept (h hready)))

variable (call) in
theorem setAndWrite_kept (h : Told env hashMerkleRoot laccentries w) (hfind : w.mapWallet.find? hash = some wtx)
    (hview : wtx'.historyView = wtx.historyView) : Kept env hashMerkleRoot laccentries w ((do
      Exec.update (WalletState.setTx hash wtx')
      let _ ← writeToDisk env call wtx'
      return () : WalletM Unit) w).2 := by
  have hset : Kept env hashMerkleRoot laccentries w (w.setTx hash wtx') := (Refreshed.setTx hfind hview).kept h
  have hfind' : (w.setTx hash wtx').mapWallet.find? hash = some wtx' := OrderedMap.find?_set_self _ _ _
  obtain ⟨written, w', hwrite, hkept⟩ := writeToDisk_kept call hset.told hfind'
  have hrun : ((do
      Exec.update (WalletState.setTx hash wtx')
      let _ ← writeToDisk env call wtx'
      return () : WalletM Unit) w) = (.ok (), w') := Exec.bind_of_ok hwrite _
  rw [hrun]
  exact hset.trans hkept

theorem refundInput_kept (h : Told env hashMerkleRoot laccentries w) (txin : CTxIn) :
    Kept env hashMerkleRoot laccentries w (refundInput env call txin w).2 := by
  unfold refundInput
  rw [Exec.read_bind]
  cases hfind : w.mapWallet.find? txin.prevout.hash with
  | none => exact Kept.refl h
  | some prev =>
    dsimp only
    cases prev.tx.vout[txin.prevout.n.toNat]? with
    | none => exact Kept.refl h
    | some txout =>
      show Kept env hashMerkleRoot laccentries w
        ((if (call.isMine txout.scriptPubKey).isAny then _ else _ : WalletM Unit) w).2
      by_cases hmine : (call.isMine txout.scriptPubKey).isAny
      · rw [if_pos hmine]
        by_cases hrange : txin.prevout.n.toNat ≥ prev.tx.vout.length
        · have hmark : prev.markUnspent txin.prevout.n.toNat =
              .error (.exception "CWalletTx::MarkUnspent() : nOut out of range") := if_pos hrange
          rw [hmark]
          exact Kept.refl h
        · have hmark : prev.markUnspent txin.prevout.n.toNat = .ok (prev.setSpent false txin.prevout.n.toNat) :=
            if_neg hrange
          rw [hmark]
          exact setAndWrite_kept call h hfind (WalletTx.setSpent_historyView false txin.prevout.n.toNat prev)
      · rw [if_neg hmine]
        exact Kept.refl h

theorem fixSpentCoin_kept (h : Told env hashMerkleRoot laccentries w) {txin : CTxIn}
    (hpresent : (w.mapWallet.find? txin.prevout.hash).isSome) :
    Kept env hashMerkleRoot laccentries w (fixSpentCoin env call txin w).2 := by
  obtain ⟨coin, hcoin⟩ := Option.isSome_iff_exists.mp hpresent
  have hdirty : Refreshed w (w.setTx txin.prevout.hash coin.markDirty) := Refreshed.setTx hcoin rfl
  have hfind : (w.setTx txin.prevout.hash coin.markDirty).mapWallet.find? txin.prevout.hash = some coin.markDirty :=
    OrderedMap.find?_set_self _ _ _
  have hrun : fixSpentCoin env call txin w = (do
      let coin' ← coin.markDirty.markSpent txin.prevout.n.toNat
      Exec.update (WalletState.setTx txin.prevout.hash coin')
      let _ ← writeToDisk env call coin'
      return () : WalletM Unit) (w.setTx txin.prevout.hash coin.markDirty) := by
    unfold fixSpentCoin
    rw [Exec.bind_of_ok (entryOf_of_some hcoin)]
    rfl
  rw [hrun]
  refine (hdirty.kept h).trans ?_
  by_cases hrange : txin.prevout.n.toNat ≥ coin.markDirty.tx.vout.length
  · have hmark : coin.markDirty.markSpent txin.prevout.n.toNat =
        .error (.exception "CWalletTx::MarkSpent() : nOut out of range") := if_pos hrange
    rw [hmark]
    exact Kept.refl (hdirty.kept h).told
  · have hmark : coin.markDirty.markSpent txin.prevout.n.toNat =
        .ok (coin.markDirty.setSpent true txin.prevout.n.toNat) := if_neg hrange
    rw [hmark]
    exact setAndWrite_kept call (hdirty.kept h).told hfind
      (WalletTx.setSpent_historyView true txin.prevout.n.toNat coin.markDirty)

theorem addToWalletIfInvolvingMe_kept (h : Told env hashMerkleRoot laccentries w)
    (hsafe : w.involvesMe env call tx = .ok true → AddSafe env hashMerkleRoot call w (walletTxOf env call tx pblock)) :
    Kept env hashMerkleRoot laccentries w (addToWalletIfInvolvingMe env call tx pblock w).2 := by
  have hrun : addToWalletIfInvolvingMe env call tx pblock w = ((liftM (w.involvesMe env call tx) : WalletM Bool) >>=
      fun involved => if involved then addToWallet env call (walletTxOf env call tx pblock) false
        else pure false) w := rfl
  rw [hrun]
  cases hinvolved : w.involvesMe env call tx with
  | error e => exact Kept.refl h
  | ok involved =>
    cases involved with
    | false => exact Kept.refl h
    | true =>
      obtain ⟨w', hadd, -, hkept⟩ := addToWallet_spec call h (hsafe hinvolved)
      show Kept env hashMerkleRoot laccentries w (addToWallet env call (walletTxOf env call tx pblock) false w).2
      rw [hadd]
      exact hkept (walletTxOf_fMerkleVerified tx pblock)

theorem syncDisconnected_keeps : Exec.Frame (SyncKeeps env hashMerkleRoot call laccentries tx pblock fFixSpentCoins)
      (syncDisconnected env call tx) := by
  have hloop : Exec.Frame (SyncKeeps env hashMerkleRoot call laccentries tx pblock fFixSpentCoins)
      (tx.vin.forM (refundInput env call) : WalletM Unit) :=
    Exec.Frame.forM SyncKeeps.refl SyncKeeps.trans (fun txin w h => refundInput_kept h.told txin) tx.vin
  have hread : Exec.Frame (SyncKeeps env hashMerkleRoot call laccentries tx pblock fFixSpentCoins)
      (Exec.read : WalletM WalletState) := Exec.Frame.read SyncKeeps.refl
  have hskip : Exec.Frame (SyncKeeps env hashMerkleRoot call laccentries tx pblock fFixSpentCoins)
      (pure () : WalletM Unit) := Exec.Frame.pure SyncKeeps.refl ()
  have hdisable : Exec.Frame (SyncKeeps env hashMerkleRoot call laccentries tx pblock fFixSpentCoins)
      (disableTransaction env call tx) := by
    refine Exec.Frame.bind SyncKeeps.trans hread fun w => ?_
    split_ifs
    · refine Exec.Frame.bind SyncKeeps.trans (Exec.Frame.lift SyncKeeps.refl _) fun fFromMe => ?_
      split_ifs
      · exact hloop
      · exact hskip
    · exact hskip
  refine Exec.Frame.bind SyncKeeps.trans hread fun w => ?_
  split_ifs
  · refine Exec.Frame.bind SyncKeeps.trans (Exec.Frame.lift SyncKeeps.refl _) fun fFromMe => ?_
    split_ifs
    · exact hdisable
    · exact hskip
  · exact hskip

theorem syncConnected_keeps : Exec.Frame (SyncKeeps env hashMerkleRoot call laccentries tx pblock fFixSpentCoins)
      (syncConnected env call tx pblock fFixSpentCoins) := by
  refine Exec.Frame.bind SyncKeeps.trans
    (fun w h => addToWalletIfInvolvingMe_kept h.told fun _ => h.safe) fun _ => ?_
  cases hfix : fFixSpentCoins with
  | false => exact Exec.Frame.pure SyncKeeps.refl ()
  | true =>
    exact Exec.Frame.forM_mem SyncKeeps.refl SyncKeeps.trans fun txin hmem w h =>
      fixSpentCoin_kept h.told (h.present rfl txin hmem)

theorem syncTransaction_kept {fConnect : Bool} (h : Told env hashMerkleRoot laccentries w)
    (hsafe : HistorySafe env hashMerkleRoot call w (.syncTransaction tx pblock fConnect fFixSpentCoins)) :
    Kept env hashMerkleRoot laccentries w (syncTransaction env call tx pblock fConnect fFixSpentCoins w).2 := by
  have hadd : Kept env hashMerkleRoot laccentries w (addToWalletIfInvolvingMe env call tx pblock w).2 :=
    addToWalletIfInvolvingMe_kept h fun hinvolved => (hsafe hinvolved).1
  have hreturns : ∀ w', addToWalletIfInvolvingMe env call tx pblock w = (.ok true, w') →
      w.involvesMe env call tx = .ok true := by
    intro w' hrun
    have hrun' : ((liftM (w.involvesMe env call tx) : WalletM Bool) >>= fun involved =>
        if involved then addToWallet env call (walletTxOf env call tx pblock) false else pure false) w =
          (.ok true, w') := hrun
    obtain ⟨involved, t, hinvolved, hrest⟩ := Exec.bind_returns.mp hrun'
    obtain ⟨hinvolved, -⟩ := Exec.liftM_returns.mp hinvolved
    cases involved with
    | true => exact hinvolved
    | false => exact absurd (Except.ok.inj (Prod.mk.inj hrest).1) Bool.false_ne_true
  unfold syncTransaction
  rcases hrun : addToWalletIfInvolvingMe env call tx pblock w with ⟨r, w₁⟩
  rw [hrun] at hadd
  cases r with
  | error e =>
    rw [Exec.bind_of_error hrun]
    exact hadd
  | ok added =>
    rw [Exec.bind_of_ok hrun]
    cases added with
    | false => exact hadd
    | true =>
      obtain ⟨hsafe', hpresent⟩ := hsafe (hreturns w₁ hrun)
      have hready : SyncReady env hashMerkleRoot call laccentries tx pblock (fConnect && fFixSpentCoins) w :=
        ⟨h, hsafe', fun hfix => hpresent (Bool.and_eq_true_iff.mp hfix).1 (Bool.and_eq_true_iff.mp hfix).2⟩
      refine hadd.trans (Exec.Frame.bind (R := SyncKeeps env hashMerkleRoot call laccentries tx pblock
        (fConnect && fFixSpentCoins)) SyncKeeps.trans ?_ (fun _ => ?_) w₁ (hready.kept hadd))
      · exact Exec.Frame.forM SyncKeeps.refl SyncKeeps.trans
          (fun txin w h => (Refreshed.markDirty w txin.prevout.hash).kept h.told) tx.vin
      · cases fConnect with
        | true => exact syncConnected_keeps
        | false => exact syncDisconnected_keeps

end Sync

section Run

variable {laccentries : List (Int × Int)} {w₀ w : WalletState}

theorem getDepthInMainChain_told (h : Told env hashMerkleRoot laccentries w) (chain : ChainView) (hash : UInt256) :
    Told env hashMerkleRoot laccentries (w.modifyTx hash fun wtx => { wtx with
      fMerkleVerified :=
        (wtx.getDepthInMainChainInternal env hashMerkleRoot chain wtx.fMerkleVerified).2 }) := by
  unfold WalletState.modifyTx
  cases hfind : w.mapWallet.find? hash with
  | none => exact h
  | some wtx =>
    have hflag : (wtx.getDepthInMainChainInternal env hashMerkleRoot chain wtx.fMerkleVerified).2 = true →
        wtx.Connects env hashMerkleRoot := by
      intro hverified
      rcases CMerkleTx.connects_of_verified hverified with hold | hconnects
      · exact h.reflects.connects hash wtx hfind hold
      · exact hconnects
    refine ⟨⟨h.reflects.hashed, fun hash' wtx' hfind' => ?_, fun hash' record hmem => ?_,
      fun hash' wtx' hfind' hverified => ?_⟩, h.spends, h.ordered, h.positions⟩
    · have hfind' : (w.mapWallet.set hash _).find? hash' = some wtx' := hfind'
      rcases OrderedMap.find?_set_cases hfind' with ⟨rfl, rfl⟩ | ⟨-, hold⟩
      · exact h.reflects.recorded hash' wtx hfind
      · exact h.reflects.recorded hash' wtx' hold
    · show ((w.mapWallet.set hash _).find? hash').isSome
      exact OrderedMap.isSome_find?_set _ _ (h.reflects.present hash' record hmem)
    · have hfind' : (w.mapWallet.set hash _).find? hash' = some wtx' := hfind'
      rcases OrderedMap.find?_set_cases hfind' with ⟨-, rfl⟩ | ⟨-, hold⟩
      · exact hflag hverified
      · exact h.reflects.connects hash' wtx' hold hverified

theorem historyStep_told (h : Told env hashMerkleRoot laccentries w) {op : HistoryOp}
    (hsafe : HistorySafe env hashMerkleRoot call w op) :
    Told env hashMerkleRoot laccentries (historyStep env hashMerkleRoot call op w).2 := by
  cases op with
  | addToWallet wtxIn fFromLoadWallet =>
    obtain ⟨rfl, hadd⟩ := hsafe
    obtain ⟨w', hrun, htold, -⟩ := addToWallet_spec call h hadd
    have hstep : historyStep env hashMerkleRoot call (.addToWallet wtxIn false) w = (.ok (), w') :=
      Exec.bind_of_ok hrun _
    rw [hstep]
    exact htold
  | eraseFromWallet hash =>
    show Told env hashMerkleRoot laccentries
      ((if w.fFileBacked = true ∧ (w.mapWallet.find? hash).isSome then _ else _ : WalletM Unit) w).2
    rw [if_neg fun hnot => by
      rw [hsafe hnot.1] at hnot
      exact Bool.false_ne_true hnot.2]
    exact h
  | syncTransaction tx pblock fConnect fFixSpentCoins => exact (syncTransaction_kept h hsafe).told
  | getDepthInMainChain chain hash => exact getDepthInMainChain_told h chain hash

theorem SafeHistoryRun.told (hrun : SafeHistoryRun env hashMerkleRoot w₀ w)
    (h : Told env hashMerkleRoot laccentries w₀) : Told env hashMerkleRoot laccentries w := by
  induction hrun with
  | start => exact h
  | step call op _ hsafe ih => exact historyStep_told ih hsafe

/-- In every run of safe operations on a wallet that was loaded, a wallet that is loaded from the records, in whatever
order, has the same history; and the indices of both refer to transactions that they have. -/
theorem restart_sameHistory {txRecords : OrderedMap UInt256 TxRecord} (hload : Loadable env txRecords)
    {records : List TxRecord} (hperm : records.Perm (txRecords.entries.map Prod.snd))
    {laccentries : List (Int × Int)} {fFileBacked : Bool} {nOrderPosNext : Int}
    (hrun : SafeHistoryRun env hashMerkleRoot
      (loadWallet env call records laccentries (.closed fFileBacked nOrderPosNext txRecords)).2 w)
    {records' : List TxRecord} (hperm' : records'.Perm (w.txRecords.entries.map Prod.snd)) :
    ∃ w', loadWallet env call records' laccentries (.closed w.fFileBacked w.nOrderPosNext w.txRecords) = (.ok (), w') ∧
      SameHistory env hashMerkleRoot w w' ∧ RefersToPresent w ∧ RefersToPresent w' := by
  obtain ⟨w₀, hstart, htells, hrecords, -⟩ :=
    loadWallet_spec hashMerkleRoot call hload hperm laccentries fFileBacked nOrderPosNext
  rw [hstart] at hrun
  have htold₀ : Told env hashMerkleRoot laccentries w₀ := by
    unfold Told
    rw [hrecords]
    exact htells
  have htold : Tells env hashMerkleRoot laccentries w.txRecords.entries w := hrun.told htold₀
  have hload' : Loadable env w.txRecords := fun hash record hmem =>
    ⟨htold.reflects.hashed hash record hmem, htold.positions hash record hmem⟩
  obtain ⟨w', hrestart, htells', -⟩ :=
    loadWallet_spec hashMerkleRoot call hload' hperm' laccentries w.fFileBacked w.nOrderPosNext
  refine ⟨w', hrestart, htold.sameHistory htells' fun hash record record' hmem hmem' => ?_, htold.refersToPresent,
    htells'.refersToPresent⟩
  exact OrderedMap.value_unique hmem hmem'

end Run

end Restart

namespace Sample

def walletCall : WalletCall where
  isMine _ := .spendable
  findStealthTransactions _ := []
  nMinimumInputValue := 0
  nAdjustedTime := 0
  blockTime _ := none
  writeTx _ := true
  uninitialized := (none, none)

def emptyHistory : WalletState :=
  (loadWallet env walletCall [] [] (.closed true 0 .empty)).2

def addTx (tx : CTransaction) : WalletState :=
  (historyStep env (fun _ => 0) walletCall (.addToWallet (.ofTx (none, none) tx) false) emptyHistory).2

def firstRecord (tx : CTransaction) : TxRecord :=
  { (WalletTx.ofTx (none, none) tx).toTxRecord with nOrderPos := 0 }

def paymentTx : CTransaction where
  nVersion := 1
  nTime := 0
  vin := [⟨⟨5, 0⟩, [], 0xffffffff⟩]
  vout := [⟨1, []⟩]
  nLockTime := 7

def mempoolView : ChainView where
  mainHeight _ := none
  nBestHeight := 0
  inMempool _ := true
  lockSignatures _ := -1
  nInstantXDepth := 0

/-- A wallet with the payment is loaded, and then a reward is added. -/
def paidRecords : OrderedMap UInt256 TxRecord :=
  OrderedMap.empty.set (env.getHash paymentTx) (firstRecord paymentTx)

def paidHistory : WalletState := (loadWallet env walletCall [firstRecord paymentTx] [] (.closed true 1 paidRecords)).2

def minedHistory : WalletState :=
  (historyStep env (fun _ => 0) walletCall (.addToWallet (.ofTx (none, none) (coinbaseTx 1)) false) paidHistory).2

/-- The records are read in the other order. -/
theorem restart_sameHistory_mined : minedHistory.isSpent env (fun _ => 0) mempoolView ⟨5, 0⟩ = true ∧ ∃ w',
    loadWallet env walletCall (minedHistory.txRecords.entries.map Prod.snd).reverse [] (.closed minedHistory.fFileBacked
      minedHistory.nOrderPosNext minedHistory.txRecords) = (.ok (), w') ∧
    SameHistory env (fun _ => 0) minedHistory w' ∧ RefersToPresent minedHistory ∧ RefersToPresent w' := by
  have hload : Loadable env paidRecords := by
    intro hash record hmem
    obtain ⟨rfl, rfl⟩ := Prod.mk.inj (List.mem_singleton.mp hmem)
    exact ⟨rfl, by decide⟩
  have hsafe : AddSafe env (fun _ => 0) walletCall paidHistory (.ofTx (none, none) (coinbaseTx 1)) :=
    ⟨fun _ => rfl, fun _ => rfl, fun _ hflag => absurd hflag Bool.false_ne_true,
      fun _ hfind => absurd hfind.symm (Option.some_ne_none _)⟩
  have hrun : SafeHistoryRun env (fun _ => 0)
      (loadWallet env walletCall [firstRecord paymentTx] [] (.closed true 1 paidRecords)).2 minedHistory :=
    .step walletCall (.addToWallet (.ofTx (none, none) (coinbaseTx 1)) false) (.start _) ⟨rfl, hsafe⟩
  exact ⟨rfl, restart_sameHistory hload (List.Perm.refl _) hrun (List.reverse_perm _)⟩

/-- A payment is added. Its input is not spent for the wallet until it is loaded again. -/
theorem addToWallet_forgets_spends : ∃ w',
    loadWallet env walletCall [firstRecord paymentTx] [] (.closed (addTx paymentTx).fFileBacked
      (addTx paymentTx).nOrderPosNext (addTx paymentTx).txRecords) = (.ok (), w') ∧
    (addTx paymentTx).isSpent env (fun _ => 0) mempoolView ⟨5, 0⟩ = false ∧
    w'.isSpent env (fun _ => 0) mempoolView ⟨5, 0⟩ = true ∧
    ¬(addTx paymentTx).mapTxSpends.entries.Perm w'.mapTxSpends.entries :=
  ⟨_, rfl, rfl, rfl, fun h => absurd h.length_eq Nat.zero_ne_one⟩

end Sample

end PupaCoin
