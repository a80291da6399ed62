import Mathlib.Data.Option.Basic
import PupaCoin.Chain.Proofs.BranchSupplyProofs

/-!
# Proofs: what `DisconnectBlock` takes back

`ConnectBlock` marks the outputs that a block spends and enters its transactions; `DisconnectBlock` clears the marks and
erases the entries. Both are followed on the transaction index alone.
-/

namespace PupaCoin

open CTransaction

/-- The outputs that the transactions spend. -/
def spentOutputs (txs : List CTransaction) : List COutPoint :=
  txs.flatMap fun tx => if tx.isCoinBase then [] else tx.vin.map CTxIn.prevout

/-- The positions of those of one transaction. -/
def spentOf (outs : List COutPoint) (hash : UInt256) : Set Nat := {i | ∃ o ∈ outs, o.hash = hash ∧ o.n.toNat = i}

/-- An entry is changed at some outputs. -/
structure Touched (spent : Set Nat) (a b : CTxIndex) : Prop where
  pos : b.pos = a.pos
  length : b.vSpent.length = a.vSpent.length
  others : ∀ i ∉ spent, b.vSpent[i]? = a.vSpent[i]?

/-- Outputs that were not spent are marked. -/
structure Marked (spent : Set Nat) (a b : CTxIndex) : Prop extends Touched spent a b where
  fresh : ∀ i ∈ spent, ∃ pos, a.vSpent[i]? = some pos ∧ pos.isNull = true

/-- Outputs are cleared. -/
structure Cleared (spent : Set Nat) (a b : CTxIndex) : Prop extends Touched spent a b where
  null : ∀ i ∈ spent, i < a.vSpent.length → b.vSpent[i]? = some .null

section Entries

variable {outs : List COutPoint} {o : COutPoint} {hash : UInt256} {spent : Set Nat} {a b b' c : CTxIndex} {i : Nat}

theorem spentOf_concat_self (outs : List COutPoint) (o : COutPoint) :
    spentOf (outs ++ [o]) o.hash = insert o.n.toNat (spentOf outs o.hash) := by
  ext i
  simp only [spentOf, List.mem_append, List.mem_singleton, Set.mem_ofPred_eq, Set.mem_insert_iff]
  aesop

theorem spentOf_concat_of_ne (h : hash ≠ o.hash) : spentOf (outs ++ [o]) hash = spentOf outs hash := by
  ext i
  simp only [spentOf, List.mem_append, List.mem_singleton, Set.mem_ofPred_eq]
  aesop

theorem spentOf_reverse (txs : List CTransaction) (hash : UInt256) :
    spentOf (spentOutputs txs.reverse) hash = spentOf (spentOutputs txs) hash := by
  ext i
  simp only [spentOf, spentOutputs, List.mem_flatMap, List.mem_reverse]

theorem spentOutputs_concat (txs : List CTransaction) (tx : CTransaction) : spentOutputs (txs ++ [tx])
    = spentOutputs txs ++ if tx.isCoinBase then [] else tx.vin.map CTxIn.prevout := by
  rw [spentOutputs, List.flatMap_append, List.flatMap_singleton]
  rfl

theorem Touched.refl (txindex : CTxIndex) : Touched (spentOf [] hash) txindex txindex := ⟨rfl, rfl, fun _ _ => rfl⟩

theorem Marked.refl (txindex : CTxIndex) : Marked (spentOf [] hash) txindex txindex :=
  ⟨.refl txindex, by simp [spentOf]⟩

theorem Cleared.refl (txindex : CTxIndex) : Cleared (spentOf [] hash) txindex txindex :=
  ⟨.refl txindex, by simp [spentOf]⟩

theorem Touched.insert (h : Touched spent a b) (pos : CDiskTxPos) : Touched (insert i spent) a (b.setSpent i pos) where
  pos := h.pos
  length := List.length_set.trans h.length
  others j hj := by
    rw [Set.mem_insert_iff, not_or] at hj
    exact (List.getElem?_set_ne (Ne.symm hj.1)).trans (h.others j hj.2)

theorem Marked.insert (h : Marked spent a b) {old : CDiskTxPos} (hold : b.vSpent[i]? = some old) (hnull : old.isNull = true)
    (pos : CDiskTxPos) : Marked (insert i spent) a (b.setSpent i pos) where
  toTouched := h.toTouched.insert pos
  fresh j hj := by
    by_cases hspent : j ∈ spent
    · exact h.fresh j hspent
    · obtain rfl : j = i := hj.resolve_right hspent
      exact ⟨old, (h.others j hspent).symm.trans hold, hnull⟩

theorem Cleared.insert (h : Cleared spent a b) : Cleared (insert i spent) a (b.setSpent i .null) where
  toTouched := h.toTouched.insert .null
  null j hj hlt := by
    show (b.vSpent.set i .null)[j]? = some .null
    by_cases heq : i = j
    · subst heq
      exact List.getElem?_set_self (by rwa [h.length])
    · rw [List.getElem?_set_ne heq]
      exact h.null j (hj.resolve_left (Ne.symm heq)) hlt

/-- Spent and then unspent again, a record is as before. -/
theorem Marked.normal_eq (hmarked : Marked spent a b) (hb : b'.normal = b.normal) (hcleared : Cleared spent b' c) :
    c.normal = a.normal := by
  have hlength : b'.vSpent.length = b.vSpent.length := by
    simpa [CTxIndex.normal] using congrArg (fun txindex => txindex.vSpent.length) hb
  have hvSpent : c.normal.vSpent = a.normal.vSpent := by
    refine List.ext_getElem? fun i => ?_
    by_cases hi : i ∈ spent
    · obtain ⟨pos, hpos, hnull⟩ := hmarked.fresh i hi
      have hlt : i < b'.vSpent.length := by
        rw [hlength, hmarked.length]
        exact (List.getElem?_eq_some_iff.mp hpos).1
      simp only [CTxIndex.normal, List.getElem?_map]
      rw [hcleared.null i hi hlt, hpos, Option.map_some, Option.map_some, if_pos hnull]
      rfl
    · have hold : b'.normal.vSpent[i]? = b.normal.vSpent[i]? := by rw [hb]
      simp only [CTxIndex.normal, List.getElem?_map] at hold ⊢
      rw [hcleared.others i hi, hold, hmarked.others i hi]
  have hpos : b'.pos = b.pos := by simpa [CTxIndex.normal] using congrArg (fun txindex => txindex.pos) hb
  show (⟨c.pos, c.normal.vSpent⟩ : CTxIndex) = _
  rw [hvSpent, hcleared.pos, hpos, hmarked.pos]
  rfl

end Entries

section Connect

variable {env : Env} {block : CBlock} {n n' : Node} {pindex : CBlockIndex} {old : UInt256 → Option CTxIndex}
variable {outs : List COutPoint} {done : List UInt256} {tx : CTransaction}

/-- The index `now` is the index `old`, apart from some transactions, with outputs marked. -/
def MarkedOutside (outs : List COutPoint) (done : List UInt256) (old now : UInt256 → Option CTxIndex) : Prop :=
  ∀ hash ∉ done, Option.Rel (Marked (spentOf outs hash)) (old hash) (now hash)

theorem MarkedOutside.connectInputs {inputs : MapPrevTx} {queue queue' : QueuedChanges} {posThisTx : CDiskTxPos}
    {pindexBlock : List CBlockIndex} {flags : Nat} {fValidateSig : Bool} (hcb : tx.isCoinBase = false)
    (hfetched : Fetched n old queue inputs) (hq : MarkedOutside outs done old (foundEntry old queue))
    (h : tx.connectInputs env n inputs queue posThisTx pindexBlock true false flags fValidateSig = .ok queue') :
    MarkedOutside (outs ++ tx.vin.map CTxIn.prevout) done old (foundEntry old queue') := by
  unfold CTransaction.connectInputs at h
  simp only [hcb, Bool.false_eq_true, if_false, Guards.bind_eq_ok] at h
  obtain ⟨_, _, maps, hloop, _, _, heq⟩ := h
  obtain rfl := Except.ok.inj heq
  -- a spent output is marked in the map of inputs and in the queue alike
  have hrun := Guards.foldlM_invariant (fun spent (maps : MapPrevTx × QueuedChanges) =>
    (∀ hash prev, maps.1.lookup hash = some prev → foundEntry old maps.2 hash = some prev.1) ∧
      MarkedOutside (outs ++ spent.map fun txin => txin.1.prevout) done old (foundEntry old maps.2)) ?_ tx.vin.zipIdx []
    (inputs, queue) maps ⟨fun hash prev hprev => (hfetched hash prev hprev).1, by rwa [List.map_nil, List.append_nil]⟩ hloop
  · have hvin : tx.vin.zipIdx.map (fun txin => txin.1.prevout) = tx.vin.map CTxIn.prevout := by
      have hfst := congrArg (List.map CTxIn.prevout) (List.zipIdx_map_fst 0 tx.vin)
      rwa [List.map_map] at hfst
    rw [List.nil_append, hvin] at hrun
    exact hrun.2
  · rintro spent maps txin maps' ⟨hinputs, hmarked⟩ hround
    obtain ⟨prev, pos, hlookup, hpos, hnull, rfl⟩ := spendInput_spec hround
    refine ⟨fun hash prev' hprev' => ?_, fun hash hhash => ?_⟩
    · rw [foundEntry_insert]
      rcases lookup_insert_cases hprev' with ⟨rfl, rfl⟩ | ⟨hne, hold⟩
      · exact if_pos rfl
      · rw [if_neg hne]
        exact hinputs hash prev' hold
    · rw [foundEntry_insert, List.map_append, List.map_singleton, ← List.append_assoc]
      split_ifs with heq
      · subst heq
        have hrel := hmarked _ hhash
        rw [hinputs _ prev hlookup] at hrel
        rw [spentOf_concat_self]
        cases hold : old txin.1.prevout.hash with
        | none => rw [hold] at hrel; cases hrel
        | some entry =>
          rw [hold, Option.rel_some_some] at hrel
          exact Option.Rel.some (hrel.insert hpos hnull posThisTx)
      · rw [spentOf_concat_of_ne heq]
        exact hmarked hash hhash

/-- `ConnectBlock` adds the records of the block's transactions, and marks what they spend. -/
theorem connectBlock_marks {h : UInt256} (hret : block.connectBlock env h false n = (.ok (), n')) :
    MarkedOutside (spentOutputs block.vtx) (block.vtx.map env.getHash) n.view.readTxIndex n'.view.readTxIndex := by
  obtain ⟨pindex, n1, st, hconnects⟩ := CBlock.connectBlock_returns.mp hret
  obtain ⟨_, _, _, _, _, _, _, hn1⟩ := hconnects.limitsOnly
  have hview : n1.view = n.view := by rw [hn1]; rfl
  have hwritten := hconnects.writes
  rw [if_neg Bool.false_ne_true] at hwritten
  have hrecorded : SameTxIndex n1 (CBlock.supplyRecorded env n1 h pindex st) := by
    unfold CBlock.supplyRecorded
    exact SameTxIndex.of_dbApply (by simp [Overlay.Op.key])
      { n1 with mapBlockIndex := n1.mapBlockIndex.setSupply h _ _ }
  intro hash hhash
  rw [CBlock.connectWrites_reads hwritten, hrecorded, hview]
  have hloop := hconnects.loop
  refine Guards.foldlM_invariant (fun txs (st : ConnectState) => MarkedOutside (spentOutputs txs) (txs.map env.getHash)
    n.view.readTxIndex (foundEntry n.view.readTxIndex st.mapQueuedChanges)) ?_ block.vtx [] _ st ?_ hloop hash hhash
  · intro txs st tx st' hst hround hash hhash
    rw [List.map_append, List.map_singleton, List.mem_append, List.mem_singleton, not_or] at hhash
    rw [spentOutputs_concat]
    cases hcb : tx.isCoinBase with
    | true =>
      obtain ⟨out, -, rfl⟩ := CBlock.connectTx_of_coinbase hcb hround
      rw [if_pos rfl, List.append_nil, foundEntry_insert, if_neg hhash.2]
      exact hst hash hhash.1
    | false =>
      obtain ⟨inputs, nIn, nOut, queued, _, hspend, rfl⟩ := CBlock.connectTx_of_spending hcb hround
      have hfetched := (fetchInputs_spec hcb hspend.fetched).1
      rw [hview] at hfetched
      rw [if_neg Bool.false_ne_true, foundEntry_insert, if_neg hhash.2]
      exact MarkedOutside.connectInputs hcb hfetched hst hspend.connected hash hhash.1
  · intro hash _
    have hempty : foundEntry n.view.readTxIndex (CBlock.connectInit pindex block false).mapQueuedChanges hash
        = n.view.readTxIndex hash := if_neg (AList.notMem_empty hash)
    rw [hempty]
    cases n.view.readTxIndex hash with
    | none => exact Option.Rel.none
    | some txindex => exact Option.Rel.some (Marked.refl txindex)

end Connect

section Disconnect

variable {env : Env} {block : CBlock} {n m m' : Node} {outs : List COutPoint} {erased : List UInt256}

/-- On the way of `DisconnectBlock` from `n`: the entries of some transactions are gone, outputs are cleared in the
others. -/
def ClearedOutside (outs : List COutPoint) (erased : List UInt256) (n m : Node) : Prop :=
  (∀ hash ∈ erased, m.view.readTxIndex hash = none) ∧
    ∀ hash ∉ erased, Option.Rel (Cleared (spentOf outs hash)) (n.view.readTxIndex hash) (m.view.readTxIndex hash)

namespace ClearedOutside

theorem disconnectInput {txin : CTxIn} (hm : ClearedOutside outs erased n m)
    (h : disconnectInput txin m = (.ok (), m')) : ClearedOutside (outs ++ [txin.prevout]) erased n m' := by
  unfold CTransaction.disconnectInput at h
  rw [Exec.read_bind] at h
  cases hread : m.view.readTxIndex txin.prevout.hash with
  | none =>
    rw [hread] at h
    cases h
  | some txindex =>
    simp only [hread] at h
    split_ifs at h with hrange
    · cases h
    obtain rfl := congrArg Prod.snd h
    rw [updateTxIndex_apply]
    have hin : txin.prevout.hash ∉ erased := by
      intro hmem
      rw [hm.1 _ hmem] at hread
      cases hread
    constructor
    · intro hash hhash
      rw [readTxIndex_put, if_neg (ne_of_mem_of_not_mem hhash hin)]
      exact hm.1 hash hhash
    · intro hash hhash
      rw [readTxIndex_put]
      have hrel := hm.2 hash hhash
      split_ifs with heq
      · subst heq
        rw [hread] at hrel
        rw [spentOf_concat_self]
        cases hold : n.view.readTxIndex txin.prevout.hash with
        | none => rw [hold] at hrel; cases hrel
        | some entry =>
          rw [hold, Option.rel_some_some] at hrel
          exact Option.Rel.some hrel.insert
      · rw [spentOf_concat_of_ne heq]
        exact hrel

theorem eraseTxIndex (hm : ClearedOutside outs erased n m) (hash : UInt256) :
    ClearedOutside outs (erased ++ [hash]) n (m.dbApply (.delete (.tx hash))) := by
  constructor
  · intro key hkey
    rw [readTxIndex_delete]
    split_ifs with heq
    · rfl
    · exact hm.1 key ((List.mem_append.mp hkey).resolve_right fun hmem => heq (List.mem_singleton.mp hmem))
  · intro key hkey
    rw [List.mem_append, List.mem_singleton, not_or] at hkey
    rw [readTxIndex_delete, if_neg hkey.2]
    exact hm.2 key hkey.1

theorem disconnectInputs {tx : CTransaction} (hm : ClearedOutside outs erased n m)
    (h : tx.disconnectInputs env m = (.ok (), m')) :
    ClearedOutside (outs ++ if tx.isCoinBase then [] else tx.vin.map CTxIn.prevout) (erased ++ [env.getHash tx]) n m' := by
  unfold CTransaction.disconnectInputs at h
  cases hcb : tx.isCoinBase with
  | true =>
    simp only [hcb, Bool.not_true, Bool.false_eq_true, if_false] at h
    obtain rfl := congrArg Prod.snd h
    rw [if_pos rfl, List.append_nil]
    exact hm.eraseTxIndex _
  | false =>
    simp only [hcb, Bool.not_false, if_true] at h
    obtain ⟨_, m1, hinputs, herase⟩ := Exec.bind_returns.mp h
    obtain rfl := congrArg Prod.snd herase
    rw [if_neg Bool.false_ne_true]
    refine ClearedOutside.eraseTxIndex ?_ _
    exact Exec.forM_invariant (fun txins m => ClearedOutside (outs ++ txins.map CTxIn.prevout) erased n m)
      (fun txins m txin m' hm hround => by
        rw [List.map_append, List.map_singleton, ← List.append_assoc]
        exact hm.disconnectInput hround) tx.vin [] m m1 (by rwa [List.map_nil, List.append_nil]) hinputs

end ClearedOutside

/-- `DisconnectBlock` erases these records, and clears these marks. -/
theorem disconnectBlock_clears {h : UInt256} (hret : block.disconnectBlock env h n = (.ok (), m')) :
    ClearedOutside (spentOutputs block.vtx.reverse) (block.vtx.reverse.map env.getHash) n m' := by
  unfold CBlock.disconnectBlock at hret
  obtain ⟨_, m, hinputs, hrest⟩ := Exec.bind_returns.mp hret
  have hsame : SameTxIndex m m' := by
    refine Exec.Frame.apply (SameTxIndex.frame_bind (fun n => SameTxIndex.refl n) fun pindex => ?_) hrest
    exact SameTxIndex.frame_bind (SameTxIndex.writePrevBlockIndex pindex 0) fun _ =>
      SameTxIndex.syncWithWallets block false
  have hcleared := Exec.forM_invariant (fun txs m => ClearedOutside (spentOutputs txs) (txs.map env.getHash) n m)
    (fun txs m tx m' hm hround => by
      rw [spentOutputs_concat, List.map_append, List.map_singleton]
      exact hm.disconnectInputs hround) block.vtx.reverse [] n m ?_ hinputs
  · unfold ClearedOutside at hcleared ⊢
    rwa [hsame]
  · refine ⟨fun hash hhash => absurd hhash List.not_mem_nil, fun hash _ => ?_⟩
    cases n.view.readTxIndex hash with
    | none => exact Option.Rel.none
    | some txindex => exact Option.Rel.some (Cleared.refl txindex)

end Disconnect

/-- **Undoing.** After blocks have been connected and disconnected again, however nested, the index has none of their
transactions and is otherwise as before. By induction on the history. -/
theorem takenBack_txIndex {env : Env} {hashes : List UInt256} {n n' : Node} (h : TakenBack env hashes n n')
    (hash : UInt256) : if hash ∈ hashes then n'.view.readTxIndex hash = none
      else (n'.view.readTxIndex hash).map CTxIndex.normal = (n.view.readTxIndex hash).map CTxIndex.normal := by
  induction h with
  | same hsame => rw [if_neg List.not_mem_nil, hsame]
  | @next hashes hashes' n m n' _ _ ih ih' =>
    by_cases hin' : hash ∈ hashes'
    · rw [if_pos hin'] at ih'
      rwa [if_pos (List.mem_append_right _ hin')]
    · rw [if_neg hin'] at ih'
      by_cases hin : hash ∈ hashes
      · rw [if_pos hin] at ih
        rw [ih, Option.map_none, Option.map_eq_none_iff] at ih'
        rwa [if_pos (List.mem_append_left _ hin)]
      · rw [if_neg hin] at ih
        rw [if_neg fun hmem => (List.mem_append.mp hmem).elim hin hin', ih', ih]
  | @undo block hashes h h' n n1 n2 n' hconnect _ hdisconnect ih =>
    obtain ⟨hgone, hothers⟩ := disconnectBlock_clears hdisconnect
    rw [List.map_reverse] at hgone hothers
    by_cases hin : hash ∈ block.vtx.map env.getHash
    · rw [if_pos (List.mem_append_left _ hin)]
      exact hgone hash (List.mem_reverse.mpr hin)
    have hmarked := connectBlock_marks hconnect hash hin
    have hcleared := hothers hash fun hmem => hin (List.mem_reverse.mp hmem)
    rw [spentOf_reverse] at hcleared
    by_cases hin' : hash ∈ hashes
    · rw [if_pos hin'] at ih
      rw [ih] at hcleared
      rw [if_pos (List.mem_append_right _ hin')]
      cases hread : n'.view.readTxIndex hash with
      | none => rfl
      | some c => rw [hread] at hcleared; cases hcleared
    · rw [if_neg hin'] at ih
      rw [if_neg fun hmem => (List.mem_append.mp hmem).elim hin hin']
      generalize n.view.readTxIndex hash = a at hmarked ⊢
      generalize n1.view.readTxIndex hash = b at hmarked ih
      generalize n2.view.readTxIndex hash = b' at hcleared ih
      generalize n'.view.readTxIndex hash = c at hcleared ⊢
      cases hmarked with
      | none =>
        obtain rfl := Option.map_eq_none_iff.mp ih
        cases hcleared
        rfl
      | some hmarked =>
        cases hcleared with
        | none => cases ih
        | some hcleared => rw [Option.map_some, Option.map_some, hmarked.normal_eq (Option.some.inj ih) hcleared]

namespace Sample

theorem strayBlock_takenBack :
    ((strayBlock.disconnectBlock env 1000 strayConnected).2.view.readTxIndex 2).map CTxIndex.normal
      = (strayNode.view.readTxIndex 2).map CTxIndex.normal := by
  have hdisconnect : strayBlock.disconnectBlock env 1000 strayConnected
      = (.ok (), (strayBlock.disconnectBlock env 1000 strayConnected).2) := Exec.eq_of_fst (by decide +kernel)
  have hindex := takenBack_txIndex (.undo strayBlock_connected (.same (SameTxIndex.refl _)) hdisconnect) 2
  rwa [if_neg (by decide)] at hindex

end Sample

end PupaCoin
