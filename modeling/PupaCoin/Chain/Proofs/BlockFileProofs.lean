import PupaCoin.Chain.Proofs.BranchSupplyProofs
import PupaCoin.Chain.Proofs.SerializeProofs

/-!
# Proofs: the positions of the transactions in the block files

The positions that `ConnectBlock` stores are those of the count of the block, and the count adds up the sizes of the
transactions. These are the offsets at which the serializer has written them.
-/

namespace PupaCoin

variable {vtx : List CTransaction} {i : Nat} {tx : CTransaction} {fJustCheck : Bool}

open Codec

section Count

variable {env : Env} {n : Node} {pindex : CBlockIndex} {c : BranchCount}

theorem foldl_countTx_positions_of_not_mem {hash : UInt256} (h : hash ∉ vtx.map env.getHash) :
    (vtx.foldl (countTx env n pindex) c).positions hash = c.positions hash := by
  induction vtx generalizing c with
  | nil => rfl
  | cons tx vtx ih =>
    rw [List.map_cons, List.mem_cons, not_or] at h
    rw [List.foldl_cons, ih h.2]
    exact Function.update_of_ne h.1 _ _

theorem foldl_countTx_positions (hnodup : (vtx.map env.getHash).Nodup) (htx : vtx[i]? = some tx) :
    (vtx.foldl (countTx env n pindex) c).positions (env.getHash tx) = some ⟨pindex.nFile, pindex.nBlockPos,
        c.nTxPos + UInt32.ofNat ((vtx.take i).map CTransaction.serializeSize).sum⟩ := by
  induction vtx generalizing c i with
  | nil => cases htx
  | cons first vtx ih =>
    rw [List.map_cons, List.nodup_cons] at hnodup
    rw [List.foldl_cons]
    cases i with
    | zero =>
      rw [List.getElem?_cons_zero, Option.some.injEq] at htx
      subst htx
      have hhead : (countTx env n pindex c first).positions (env.getHash first) =
          some ⟨pindex.nFile, pindex.nBlockPos, c.nTxPos⟩ := Function.update_self _ _ _
      have hzero : UInt32.ofNat 0 = 0 := rfl
      rw [foldl_countTx_positions_of_not_mem hnodup.1, hhead, List.take_zero, List.map_nil, List.sum_nil, hzero,
        UInt32.add_zero]
    | succ i =>
      rw [List.getElem?_cons_succ] at htx
      rw [ih hnodup.2 htx, countTx, List.take_succ_cons, List.map_cons, List.sum_cons, UInt32.ofNat_add,
        UInt32.add_assoc]

end Count

namespace CBlock

section Stored

variable {env : Env} {n : Node} {pindex : CBlockIndex} {st st' : ConnectState} {tx : CTransaction}

theorem connectTx_queued (h : connectTx env n pindex fJustCheck st tx = .ok st') :
    env.getHash tx ∈ st'.mapQueuedChanges ∧ ∀ hash ∈ st.mapQueuedChanges, hash ∈ st'.mapQueuedChanges := by
  cases hcb : tx.isCoinBase with
  | true =>
    obtain ⟨out, -, rfl⟩ := connectTx_of_coinbase hcb h
    exact ⟨(AList.mem_insert _).mpr (Or.inl rfl), fun hash hmem => (AList.mem_insert _).mpr (Or.inr hmem)⟩
  | false =>
    obtain ⟨inputs, nIn, nOut, queued, _, hspend, rfl⟩ := connectTx_of_spending hcb h
    refine ⟨(AList.mem_insert _).mpr (Or.inl rfl), fun hash hmem => (AList.mem_insert _).mpr (Or.inr ?_)⟩
    exact CTransaction.connectInputs_keys hmem hspend.connected

theorem loop_queued (hloop : vtx.foldlM (connectTx env n pindex fJustCheck) st = .ok st') :
    (∀ tx ∈ vtx, env.getHash tx ∈ st'.mapQueuedChanges)
      ∧ ∀ hash ∈ st.mapQueuedChanges, hash ∈ st'.mapQueuedChanges := by
  induction vtx generalizing st with
  | nil =>
    rw [Guards.foldlM_nil_eq_ok] at hloop
    subst hloop
    exact ⟨nofun, fun hash hmem => hmem⟩
  | cons first vtx ih =>
    obtain ⟨st1, hround, hrest⟩ := Guards.foldlM_cons_eq_ok.mp hloop
    obtain ⟨hfirst, hkeep⟩ := connectTx_queued hround
    obtain ⟨hall, hkeepAll⟩ := ih hrest
    refine ⟨fun tx htx => ?_, fun hash hmem => hkeepAll hash (hkeep hash hmem)⟩
    rcases List.mem_cons.mp htx with rfl | htx
    · exact hkeepAll _ hfirst
    · exact hall tx htx

theorem connectBlock_stores {block : CBlock} {h : UInt256} {n' : Node}
    (hconnect : block.connectBlock env h false n = (.ok (), n'))
    (hentry : n.mapBlockIndex.entries h = some pindex) (htx : block.vtx[i]? = some tx) :
    ∃ txindex, n'.view.readTxIndex (env.getHash tx) = some txindex
      ∧ txindex.pos = ⟨pindex.nFile, pindex.nBlockPos,
        firstTxPos pindex block false + UInt32.ofNat ((block.vtx.take i).map CTransaction.serializeSize).sum⟩ := by
  obtain ⟨pindex', n1, st, hc⟩ := connectBlock_returns.mp hconnect
  have hsame : pindex' = pindex := Option.some.inj (hc.entry.symm.trans hentry)
  subst hsame
  have hstart : Counted n1 (connectInit pindex' block false)
      ⟨n1.txPositions, firstTxPos pindex' block false, 0⟩ 0 := by
    refine ⟨fun hash txindex hfound => ?_, rfl, rfl⟩
    have hread : n1.view.readTxIndex hash = some txindex := hfound
    simp only [Node.txPositions, hread, Option.map_some]
  have hcounted := loop_counted rfl rfl rfl rfl hstart hc.loop
  have hqueued := (loop_queued hc.loop).1 tx (List.mem_of_getElem? htx)
  obtain ⟨txindex, hlookup⟩ := Option.isSome_iff_exists.mp (AList.lookup_isSome.mpr hqueued)
  have hfound : ∀ readTxIndex, CTransaction.foundEntry readTxIndex st.mapQueuedChanges (env.getHash tx) =
      some txindex := by
    intro readTxIndex
    unfold CTransaction.foundEntry
    rw [if_pos hqueued, hlookup]
  have hwrites : connectWrites env block pindex' st (supplyRecorded env n1 h pindex' st) = (.ok (), n') := hc.writes
  refine ⟨txindex, ?_, ?_⟩
  · rw [connectWrites_reads hwrites, hfound]
  · have hpos := hcounted.locates _ txindex (hfound n1.view.readTxIndex)
    rw [foldl_countTx_positions (checkTransactions_nodup hc.checked.transactionsOk) htx] at hpos
    exact (Option.some.inj hpos).symm

end Stored

section Offset

variable {block : CBlock} {i : Nat} {tx : CTransaction}

theorem length_serialize_header (header : CBlockHeader) : header.serialize.length = 80 := by
  simp only [CBlockHeader.serialize, List.length_append, LittleEndian.length_ofInt, writeUInt32, writeUInt256,
    LittleEndian.length_ofNat]

theorem txOffset_eq (block : CBlock) (i : Nat) : block.txOffset i =
      80 + getSizeOfCompactSize block.vtx.length + ((block.vtx.take i).map CTransaction.serializeSize).sum := by
  have hsizes : (block.vtx.take i).map (fun tx => tx.serialize.length)
      = (block.vtx.take i).map CTransaction.serializeSize :=
    List.map_congr_left fun tx _ => tx.length_serialize
  rw [txOffset, List.length_append, List.length_append, length_serialize_header, length_writeCompactSize,
    List.length_flatMap, hsizes]

theorem exists_serialize_eq (htx : block.vtx[i]? = some tx) :
    ∃ front rest, block.serialize serDisk = front ++ (tx.serialize ++ rest) ∧ front.length = block.txOffset i := by
  obtain ⟨hlt, hget⟩ := List.getElem?_eq_some_iff.mp htx
  have hsplit : block.vtx.flatMap CTransaction.serialize =
      (block.vtx.take i).flatMap CTransaction.serialize ++ (tx.serialize
        ++ (block.vtx.drop (i + 1)).flatMap CTransaction.serialize) := by
    conv_lhs => rw [← List.take_append_drop i block.vtx, List.drop_eq_getElem_cons hlt, hget]
    rw [List.flatMap_append, List.flatMap_cons]
  have hdisk : withTransactions serDisk = true := by decide
  refine ⟨_, (block.vtx.drop (i + 1)).flatMap CTransaction.serialize ++ writeBytes block.vchBlockSig, ?_, rfl⟩
  rw [serialize, hdisk, if_pos rfl, writeVector, hsplit]
  simp only [List.append_assoc]

end Offset

section ReadBack

variable {messageStart : MessageStart} {files files' : FileBytes} {fuel : Nat} {nCurrentBlockFile nFile nBlockPos : UInt32}
  {block : CBlock}

theorem appendBlockFile_spec (h : appendBlockFile files fuel nCurrentBlockFile = some nFile) :
    opensBlockFile nFile = true ∧ (files nFile).length < 0x7F000000 - maxSize := by
  induction fuel generalizing nCurrentBlockFile with
  | zero => cases h
  | succ fuel ih =>
    rw [appendBlockFile] at h
    split at h
    · cases h
    · rename_i hopens
      split at h
      · rename_i hroom
        cases h
        exact ⟨by simpa using hopens, hroom⟩
      · exact ih h

theorem writeToFile_spec
    (h : block.writeToFile messageStart files fuel nCurrentBlockFile = some (files', nFile, nBlockPos)) :
    opensBlockFile nFile = true ∧ nBlockPos.toNat < 0x7F000000
      ∧ ∃ front, files' nFile = front ++ block.serialize serDisk ∧ front.length = nBlockPos.toNat := by
  unfold writeToFile at h
  simp only [Option.bind_eq_bind, Option.bind_eq_some_iff, Option.pure_def, Option.some.injEq, Prod.mk.injEq] at h
  obtain ⟨nFileRet, happend, rfl, rfl, rfl⟩ := h
  obtain ⟨hopens, hroom⟩ := appendBlockFile_spec happend
  have hlength : (files nFileRet ++ messageStart.bytes
      ++ writeUInt32 (block.getSerializeSize serDisk)).length = (files nFileRet).length + 8 := by
    rw [List.length_append, List.length_append, messageStart.length_eq, writeUInt32, LittleEndian.length_ofNat]
  have hmax : maxSize = 0x02000000 := rfl
  have hpos : (UInt32.ofNat ((files nFileRet).length + 8)).toNat = (files nFileRet).length + 8 := by
    rw [UInt32.toNat_ofNat']
    exact Nat.mod_eq_of_lt (by omega)
  rw [hlength, hpos]
  exact ⟨hopens, by omega, _, Function.update_self _ _ _, hlength⟩

end ReadBack

section Positions

variable {layout : Layout} {messageStart : MessageStart} {files files' : FileBytes} {fuel : Nat}
  {nCurrentBlockFile nFile nBlockPos : UInt32} {env : Env} {block : CBlock} {h : UInt256} {n n' : Node}
  {pindex : CBlockIndex}

/-- The position that `ConnectBlock` stores for a transaction is where it begins in the file that `WriteToDisk` wrote,
and reading there yields the transaction, also after more has been appended. -/
theorem connectBlock_txPos
    (hwrite : block.writeToFile messageStart files fuel nCurrentBlockFile = some (files', nFile, nBlockPos))
    (hentry : n.mapBlockIndex.entries h = some pindex) (hfile : pindex.nFile = nFile)
    (hpos : pindex.nBlockPos = nBlockPos) (hconnect : block.connectBlock env h false n = (.ok (), n'))
    (hfits : block.Fits) (hsize : (block.serialize serDisk).length ≤ 2 ^ 31) {i : Nat} {tx : CTransaction}
    (htx : block.vtx[i]? = some tx) : ∃ txindex, n'.view.readTxIndex (env.getHash tx) = some txindex
      ∧ txindex.pos.nFile = nFile ∧ txindex.pos.nBlockPos = nBlockPos
      ∧ txindex.pos.nTxPos.toNat = nBlockPos.toNat + block.txOffset i
      ∧ (∃ front rest, block.serialize serDisk = front ++ (tx.serialize ++ rest) ∧ front.length = block.txOffset i)
      ∧ ∀ later, readTxAt layout (Function.update files' nFile (files' nFile ++ later)) txindex.pos = some tx := by
  obtain ⟨hopens, hroom, before, hbytes, hbefore⟩ := writeToFile_spec hwrite
  obtain ⟨front, rest, hserialize, hfront⟩ := exists_serialize_eq htx
  obtain ⟨txindex, hread, hstored⟩ := connectBlock_stores hconnect hentry htx
  have hwhole := congrArg List.length hserialize
  rw [List.length_append, hfront] at hwhole
  have hoffset : txindex.pos.nTxPos = UInt32.ofNat (nBlockPos.toNat + block.txOffset i) := by
    rw [hstored, txOffset_eq, UInt32.ofNat_add, UInt32.ofNat_add, UInt32.ofNat_add, UInt32.ofNat_toNat, ← hpos]
    simp only [firstTxPos, Bool.false_eq_true, if_false, UInt32.add_assoc]
    rfl
  have hnat : txindex.pos.nTxPos.toNat = nBlockPos.toNat + block.txOffset i := by
    rw [hoffset, UInt32.toNat_ofNat']
    exact Nat.mod_eq_of_lt (by omega)
  refine ⟨txindex, hread, ?_, ?_, hnat, ⟨front, rest, hserialize, hfront⟩, fun later => ?_⟩
  · rw [hstored, hfile]
  · rw [hstored, hpos]
  · have hnFile : txindex.pos.nFile = nFile := by rw [hstored, hfile]
    have hdrop : (before ++ (front ++ (tx.serialize ++ rest)) ++ later).drop (nBlockPos.toNat + block.txOffset i) =
        tx.serialize ++ (rest ++ later) := by
      rw [← hbefore, ← hfront, ← List.length_append, List.append_assoc, List.append_assoc, ← List.append_assoc before,
        List.drop_left, List.append_assoc]
    have hunserialize := (CTransaction.faithful layout).reads (hfits.txs tx (List.mem_of_getElem? htx)) (rest ++ later)
    unfold readTxAt
    rw [hnFile, hopens, Function.update_self, hbytes, hserialize, hnat, hdrop, hunserialize]
    rfl

end Positions

end CBlock

namespace Sample

def messageStart : MessageStart := ⟨[0xb5, 0x5f, 0x1a, 0xa3], rfl⟩

def fileBytes : FileBytes := fun nFile => if nFile = 1 then List.replicate 12000 0 else []

theorem strayBlock_fits : strayBlock.Fits where
  nVersion := by decide
  vtx := by decide
  txs tx htx := by
    have hmem : tx = coinbaseTx 12 ∨ tx = movingTx ∨ tx = strayCoinstake := by
      simpa [strayBlock] using htx
    rcases hmem with rfl | rfl | rfl
    · exact ⟨by decide, by decide, by decide, by decide, by decide⟩
    · exact ⟨by decide, by decide, by decide, by decide, by decide⟩
    · exact ⟨by decide, by decide, by decide, by decide, by decide⟩
  vchBlockSig := by decide

theorem strayBlock_written : ∃ files', strayBlock.writeToFile messageStart fileBytes 1 1 =
    some (files', 1, blockPos 12) := by
  have hroom : appendBlockFile fileBytes 1 1 = some 1 := by
    have hlength : (fileBytes 1).length = 12000 := List.length_replicate
    have hopens : opensBlockFile 1 = true := by decide
    simp [appendBlockFile, hlength, hopens, maxSize]
  have hpos : UInt32.ofNat (fileBytes 1 ++ messageStart.bytes
      ++ writeUInt32 (strayBlock.getSerializeSize serDisk)).length = blockPos 12 := by
    rw [List.length_append, List.length_append, messageStart.length_eq, writeUInt32, LittleEndian.length_ofNat]
    have hlength : (fileBytes 1).length = 12000 := List.length_replicate
    rw [hlength]
    rfl
  unfold CBlock.writeToFile
  simp only [hroom, Option.bind_eq_bind, Option.bind_some, hpos]
  exact ⟨_, rfl⟩

theorem strayBlock_txPos :
    ∃ files' txindex, strayBlock.writeToFile messageStart fileBytes 1 1 = some (files', 1, blockPos 12)
      ∧ strayConnected.view.readTxIndex (env.getHash movingTx) = some txindex
      ∧ readTxAt layout (Function.update files' 1 (files' 1 ++ [])) txindex.pos = some movingTx := by
  obtain ⟨files', hwritten⟩ := strayBlock_written
  have hlength : (strayBlock.serialize serDisk).length = strayBlock.serializeSize :=
    CBlock.length_serialize (by decide) strayBlock
  have hsize : (strayBlock.serialize serDisk).length ≤ 2 ^ 31 := by
    rw [hlength]
    decide
  have hentry : strayNode.mapBlockIndex.entries 1000 = some strayEntry := by decide
  have htx : strayBlock.vtx[1]? = some movingTx := rfl
  obtain ⟨txindex, hread, -, -, -, -, hback⟩ := CBlock.connectBlock_txPos hwritten hentry (by decide) (by decide)
    strayBlock_connected strayBlock_fits hsize htx
  exact ⟨files', txindex, hwritten, hread, hback []⟩

end Sample

end PupaCoin
