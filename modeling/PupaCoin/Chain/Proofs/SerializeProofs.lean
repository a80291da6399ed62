import PupaCoin.Chain.Serialize

/-!
# The wire format

What `Serialize` writes of an object that fits the format is what `Unserialize` reads as that object, and
nothing else is; `GetSerializeSize` is the number of bytes modulo `2 ^ 32`.
-/

namespace PupaCoin

open Codec LittleEndian

theorem pure_iff {α : Type} {a b : α} {bytes rest : List UInt8} :
    (pure a : ReadM α) bytes = (.ok b, rest) ↔ a = b ∧ bytes = rest := by
  show (Except.ok a, bytes) = (Except.ok b, rest) ↔ _
  rw [Prod.mk.injEq, Except.ok.injEq]

theorem faithful_readData (k : Nat) : Faithful (fun b : List UInt8 => b.length = k) id (readData k) :=
  faithful_takeBytes _ k

theorem writeUInt32_ofNat {b : List UInt8} (hb : b.length = 4) : writeUInt32 (UInt32.ofNat (toNat b)) = b := by
  have hlt : toNat b < 2 ^ 32 := lt_of_lt_of_eq (hb ▸ toNat_lt b) (by norm_num)
  rw [writeUInt32, UInt32.toNat_ofNat', Nat.mod_eq_of_lt hlt, ofNat_toNat hb]

theorem faithful_uint32 : Faithful (fun _ => True) writeUInt32 readUInt32 := by
  refine (faithful_readData 4).map (g := writeUInt32) (fun b hb => ?_) fun x _ => ?_
  · exact ⟨trivial, writeUInt32_ofNat hb⟩
  · have hlt : x.toNat < 256 ^ 4 := x.toNat_lt
    refine ⟨length_ofNat 4 _, ?_⟩
    rw [writeUInt32, toNat_ofNat hlt, UInt32.ofNat_toNat]

theorem faithful_signed (k : Nat) : Faithful (InRange k) (ofInt k) (readSigned k) := by
  refine (faithful_readData k).map (g := ofInt k) (fun b hb => ?_) fun z hz => ?_
  · exact ⟨hb ▸ inRange_toInt b, ofInt_toInt hb⟩
  · exact ⟨length_ofInt k z, toInt_ofInt hz⟩

theorem faithful_uint256 : Faithful (fun _ => True) writeUInt256 readUInt256 := by
  refine (faithful_readData 32).map (g := fun x : UInt256 => LittleEndian.ofNat 32 x.toNat) (fun b hb => ?_)
    fun x _ => ?_
  · have hlt : toNat b < 2 ^ 256 := lt_of_lt_of_eq (hb ▸ toNat_lt b) (by norm_num)
    refine ⟨trivial, ?_⟩
    show LittleEndian.ofNat 32 (BitVec.ofNat 256 (toNat b)).toNat = b
    rw [BitVec.toNat_ofNat, Nat.mod_eq_of_lt hlt, ofNat_toNat hb]
  · have hlt : x.toNat < 256 ^ 32 := x.isLt
    refine ⟨length_ofNat 32 _, ?_⟩
    rw [toNat_ofNat hlt, BitVec.ofNat_toNat, BitVec.setWidth_eq]

theorem faithful_wideSize (k least : Nat) :
    Faithful (fun n => least ≤ n ∧ n < 256 ^ k) (LittleEndian.ofNat k) (readWideSize k least) := by
  intro bytes n rest
  rw [readWideSize, (faithful_readData k).bind_iff]
  constructor
  · rintro ⟨b, t, hb, rfl, hread⟩
    by_cases hsmall : toNat b < least
    · rw [if_pos hsmall] at hread
      exact nomatch congrArg Prod.fst hread
    rw [if_neg hsmall] at hread
    obtain ⟨hn, ht⟩ := pure_iff.mp hread
    rw [← hn, ← ht, ofNat_toNat hb]
    exact ⟨⟨Nat.le_of_not_lt hsmall, hb ▸ toNat_lt b⟩, rfl⟩
  · rintro ⟨⟨hleast, hlt⟩, rfl⟩
    refine ⟨LittleEndian.ofNat k n, rest, length_ofNat k n, rfl, ?_⟩
    rw [toNat_ofNat hlt, if_neg (Nat.not_lt.mpr hleast)]
    rfl

def sizeMark (nSize : Nat) : Nat :=
  if nSize < 253 then nSize else if nSize ≤ 0xffff then 253 else if nSize ≤ 0xffffffff then 254 else 255

def sizeTail (nSize : Nat) : List UInt8 :=
  if nSize < 253 then []
  else if nSize ≤ 0xffff then LittleEndian.ofNat 2 nSize
  else if nSize ≤ 0xffffffff then LittleEndian.ofNat 4 nSize
  else LittleEndian.ofNat 8 nSize

theorem writeCompactSize_eq (nSize : Nat) :
    writeCompactSize nSize = LittleEndian.ofNat 1 (sizeMark nSize) ++ sizeTail nSize := by
  rw [writeCompactSize, sizeMark, sizeTail]
  split_ifs <;> rfl

theorem sizeMark_lt (nSize : Nat) : sizeMark nSize < 256 ^ 1 := by
  rw [sizeMark]
  split_ifs <;> omega

theorem faithful_sizeBehind {chSize : Nat} (hbyte : chSize < 256) :
    Faithful (fun n => sizeMark n = chSize ∧ n < 256 ^ 8) sizeTail (readSizeBehind chSize) := by
  rw [readSizeBehind]
  split_ifs with hsmall h253 h254
  · refine (faithful_pure chSize).congr (fun n => ?_) fun n hn => ?_
    · rw [sizeMark]
      split_ifs <;> omega
    · rw [sizeTail, if_pos (by omega)]
  · refine (faithful_wideSize 2 253).congr (fun n => ?_) fun n hn => ?_
    · rw [sizeMark]
      split_ifs <;> omega
    · rw [sizeTail, if_neg (by omega), if_pos (by omega)]
  · refine (faithful_wideSize 4 0x10000).congr (fun n => ?_) fun n hn => ?_
    · rw [sizeMark]
      split_ifs <;> omega
    · rw [sizeTail, if_neg (by omega), if_neg (by omega), if_pos (by omega)]
  · refine (faithful_wideSize 8 0x100000000).congr (fun n => ?_) fun n hn => ?_
    · rw [sizeMark]
      split_ifs <;> omega
    · rw [sizeTail, if_neg (by omega), if_neg (by omega), if_neg (by omega)]

theorem faithful_compactSize : Faithful (· ≤ maxSize) writeCompactSize readCompactSize := by
  have hbehind : ∀ b : List UInt8, b.length = 1 →
      Faithful (fun n => LittleEndian.ofNat 1 (sizeMark n) = b ∧ n ≤ maxSize) sizeTail (do
        let nSizeRet ← readSizeBehind (toNat b)
        if nSizeRet > maxSize then Exec.stop "ReadCompactSize() : size too large"
        return nSizeRet) := by
    intro b hb
    have hbyte : toNat b < 256 ^ 1 := hb ▸ toNat_lt b
    refine ((faithful_sizeBehind hbyte).check (· > maxSize) _).congr (fun n => ?_) fun n _ => rfl
    rw [Nat.not_lt]
    constructor
    · rintro ⟨hmark, hn⟩
      have hsize : n ≤ 0x02000000 := hn
      rw [← hmark, toNat_ofNat (sizeMark_lt n)]
      exact ⟨⟨rfl, by omega⟩, hn⟩
    · rintro ⟨⟨hmark, -⟩, hn⟩
      rw [hmark, ofNat_toNat hb]
      exact ⟨rfl, hn⟩
  refine ((faithful_readData 1).prefixed hbehind).congr (fun n => ?_) fun n _ => writeCompactSize_eq n
  exact ⟨fun hn => ⟨length_ofNat 1 _, hn⟩, fun hn => hn.2⟩

theorem flatMap_singleton (v : List UInt8) : v.flatMap (fun b => [b]) = v := by
  induction v with
  | nil => rfl
  | cons b v ih => rw [List.flatMap_cons, ih]; rfl

theorem faithful_bytes : Faithful FitsSize writeBytes readBytes := by
  have hblock : ∀ k, Faithful (ValidList (fun _ : UInt8 => True) k) (List.flatMap fun b => [b]) (readData k) := by
    intro k
    refine (faithful_readData k).congr (fun b => ?_) fun b _ => flatMap_singleton b
    exact ⟨fun hb => hb.1, fun hb => ⟨hb, fun _ _ => trivial⟩⟩
  have hblocks : ∀ n, n ≤ maxSize → Faithful (fun v : List UInt8 => v.length = n ∧ True) id
      (inBlocks readData (1 + 4999999 / 1) n n) := by
    intro n _
    refine (faithful_inBlocks hblock (by norm_num) le_rfl).congr (fun v => ?_) fun v _ => (flatMap_singleton v).symm
    exact ⟨fun hv => ⟨hv.1, fun _ _ => trivial⟩, fun hv => ⟨hv.1, trivial⟩⟩
  refine (Faithful.prefixed faithful_compactSize hblocks).congr (fun v => ?_) fun v _ => rfl
  exact ⟨fun hv => ⟨hv, trivial⟩, fun hv => hv.1⟩

theorem faithful_vector {α : Type} {valid : α → Prop} {write : α → List UInt8} {read : ReadM α} {sizeOf : Nat}
    (h : Faithful valid write read) (hrange : 0 < sizeOf ∧ sizeOf ≤ 5000000) :
    Faithful (fun v => FitsSize v ∧ ∀ x ∈ v, valid x) (writeVector write) (readVector sizeOf read) := by
  have hblock : 0 < 5000000 / sizeOf := Nat.div_pos hrange.2 hrange.1
  exact Faithful.prefixed faithful_compactSize fun n _ => faithful_inBlocks h.readMany hblock le_rfl

theorem COutPoint.faithful : Faithful (fun _ => True) COutPoint.serialize COutPoint.unserialize := by
  intro bytes o rest
  simp only [COutPoint.unserialize, Faithful.bind_iff faithful_uint256, Faithful.bind_iff faithful_uint32, pure_iff]
  constructor
  · rintro ⟨hash, -, -, rfl, n, -, -, rfl, rfl, rfl⟩
    exact ⟨trivial, (List.append_assoc _ _ _).symm⟩
  · rintro ⟨-, rfl⟩
    exact ⟨o.hash, _, trivial, List.append_assoc _ _ _, o.n, rest, trivial, rfl, rfl, rfl⟩

theorem CTxIn.faithful : Faithful CTxIn.Fits CTxIn.serialize CTxIn.unserialize := by
  intro bytes txin rest
  simp only [CTxIn.unserialize, Faithful.bind_iff COutPoint.faithful, Faithful.bind_iff faithful_bytes,
    Faithful.bind_iff faithful_uint32, pure_iff]
  constructor
  · rintro ⟨prevout, -, -, rfl, scriptSig, -, hscript, rfl, nSequence, -, -, rfl, rfl, rfl⟩
    exact ⟨hscript, by simp only [CTxIn.serialize, List.append_assoc]⟩
  · rintro ⟨hscript, rfl⟩
    refine ⟨txin.prevout, _, trivial, ?_, txin.scriptSig, _, hscript, rfl, txin.nSequence, rest, trivial, rfl, rfl,
      rfl⟩
    simp only [CTxIn.serialize, List.append_assoc]

theorem CTxOut.faithful : Faithful CTxOut.Fits CTxOut.serialize CTxOut.unserialize := by
  intro bytes txout rest
  simp only [CTxOut.unserialize, (faithful_signed 8).bind_iff, Faithful.bind_iff faithful_bytes, pure_iff]
  constructor
  · rintro ⟨nValue, -, hvalue, rfl, scriptPubKey, -, hscript, rfl, rfl, rfl⟩
    exact ⟨⟨hvalue, hscript⟩, (List.append_assoc _ _ _).symm⟩
  · rintro ⟨⟨hvalue, hscript⟩, rfl⟩
    exact ⟨txout.nValue, _, hvalue, List.append_assoc _ _ _, txout.scriptPubKey, rest, hscript, rfl, rfl, rfl⟩

theorem CTransaction.faithful (layout : Layout) :
    Faithful CTransaction.Fits CTransaction.serialize (CTransaction.unserialize layout) := by
  intro bytes tx rest
  simp only [CTransaction.unserialize, (faithful_signed 4).bind_iff, Faithful.bind_iff faithful_uint32,
    (faithful_vector CTxIn.faithful layout.txIn_range).bind_iff,
    (faithful_vector CTxOut.faithful layout.txOut_range).bind_iff, pure_iff]
  constructor
  · rintro ⟨nVersion, -, hversion, rfl, nTime, -, -, rfl, vin, -, ⟨hvin, htxins⟩, rfl, vout, -, ⟨hvout, htxouts⟩,
      rfl, nLockTime, -, -, rfl, rfl, rfl⟩
    exact ⟨⟨hversion, hvin, htxins, hvout, htxouts⟩, by simp only [CTransaction.serialize, List.append_assoc]⟩
  · rintro ⟨hfits, rfl⟩
    refine ⟨tx.nVersion, _, hfits.nVersion, ?_, tx.nTime, _, trivial, rfl, tx.vin, _, ⟨hfits.vin, hfits.txins⟩, rfl,
      tx.vout, _, ⟨hfits.vout, hfits.txouts⟩, rfl, tx.nLockTime, rest, trivial, rfl, rfl, rfl⟩
    simp only [CTransaction.serialize, List.append_assoc]

theorem CBlockHeader.faithful :
    Faithful (fun header => InRange 4 header.nVersion) CBlockHeader.serialize CBlockHeader.unserialize := by
  intro bytes header rest
  simp only [CBlockHeader.unserialize, (faithful_signed 4).bind_iff, Faithful.bind_iff faithful_uint256,
    Faithful.bind_iff faithful_uint32, pure_iff]
  constructor
  · rintro ⟨nVersion, -, hversion, rfl, hashPrevBlock, -, -, rfl, hashMerkleRoot, -, -, rfl, nTime, -, -, rfl, nBits,
      -, -, rfl, nNonce, -, -, rfl, rfl, rfl⟩
    exact ⟨hversion, by simp only [CBlockHeader.serialize, List.append_assoc]⟩
  · rintro ⟨hversion, rfl⟩
    refine ⟨header.nVersion, _, hversion, ?_, header.hashPrevBlock, _, trivial, rfl, header.hashMerkleRoot, _, trivial,
      rfl, header.nTime, _, trivial, rfl, header.nBits, _, trivial, rfl, header.nNonce, rest, trivial, rfl, rfl, rfl⟩
    simp only [CBlockHeader.serialize, List.append_assoc]

theorem CBlock.faithful (layout : Layout) (nType : UInt32) :
    Faithful (fun block => block.Fits ∧ block.Written nType) (CBlock.serialize nType)
      (CBlock.unserialize layout nType) := by
  intro bytes block rest
  rw [CBlock.unserialize, Faithful.bind_iff CBlockHeader.faithful, CBlock.serialize]
  cases hnType : CBlock.withTransactions nType with
  | true =>
    simp only [if_true, (faithful_vector (CTransaction.faithful layout) layout.transaction_range).bind_iff,
      Faithful.bind_iff faithful_bytes, pure_iff]
    constructor
    · rintro ⟨header, -, hversion, rfl, vtx, -, ⟨hvtx, htxs⟩, rfl, vchBlockSig, -, hsig, rfl, rfl, rfl⟩
      refine ⟨⟨⟨hversion, hvtx, htxs, hsig⟩, fun hfalse => ?_⟩, by simp only [List.append_assoc]⟩
      exact absurd (hnType.symm.trans hfalse) (by decide)
    · rintro ⟨⟨hfits, -⟩, rfl⟩
      exact ⟨block.toCBlockHeader, _, hfits.nVersion, by simp only [List.append_assoc], block.vtx, _,
        ⟨hfits.vtx, hfits.txs⟩, rfl, block.vchBlockSig, rest, hfits.vchBlockSig, rfl, rfl, rfl⟩
  | false =>
    simp only [Bool.false_eq_true, if_false, pure_iff]
    constructor
    · rintro ⟨header, -, hversion, rfl, rfl, rfl⟩
      refine ⟨⟨⟨hversion, Nat.zero_le _, fun _ hmem => (nomatch hmem), Nat.zero_le _⟩, fun _ => ⟨rfl, rfl⟩⟩, ?_⟩
      rw [List.append_nil]
    · rintro ⟨⟨hfits, hwritten⟩, rfl⟩
      obtain ⟨hvtx, hsig⟩ := hwritten hnType
      refine ⟨block.toCBlockHeader, rest, hfits.nVersion, by rw [List.append_nil], ?_, rfl⟩
      cases block with
      | mk header vtx vchBlockSig =>
        simp only at hvtx hsig
        rw [hvtx, hsig]

theorem length_writeCompactSize (n : Nat) : (writeCompactSize n).length = getSizeOfCompactSize n := by
  rw [writeCompactSize, getSizeOfCompactSize]
  split_ifs <;> simp

theorem length_writeBytes (v : List UInt8) : (writeBytes v).length = CTransaction.bytesSize v := by
  rw [writeBytes, List.length_append, length_writeCompactSize, CTransaction.bytesSize]

theorem bytesSerializeSize_eq (v : List UInt8) : bytesSerializeSize v = UInt32.ofNat (writeBytes v).length := by
  rw [bytesSerializeSize, Nat.mul_one, length_writeBytes, CTransaction.bytesSize]

theorem length_writeVector {α : Type} (write : α → List UInt8) (v : List α) :
    (writeVector write v).length = getSizeOfCompactSize v.length + (v.map fun x => (write x).length).sum := by
  rw [writeVector, List.length_append, length_writeCompactSize, List.length_flatMap]

theorem vectorSize_eq {α : Type} {size : α → UInt32} {write : α → List UInt8}
    (h : ∀ x, size x = UInt32.ofNat (write x).length) (v : List α) :
    vectorSize size v = UInt32.ofNat (writeVector write v).length := by
  have hfold : ∀ (v : List α) (n : Nat), v.foldl (fun nSize x => nSize + size x) (UInt32.ofNat n)
      = UInt32.ofNat (n + (v.map fun x => (write x).length).sum) := by
    intro v
    induction v with
    | nil => exact fun n => rfl
    | cons x v ih =>
      intro n
      rw [List.foldl_cons, h x, ← UInt32.ofNat_add, ih, List.map_cons, List.sum_cons, Nat.add_assoc]
  rw [vectorSize, hfold, length_writeVector]

theorem CTxIn.length_serialize (txin : CTxIn) :
    txin.serialize.length = 36 + CTransaction.bytesSize txin.scriptSig + 4 := by
  rw [CTxIn.serialize, List.length_append, List.length_append, length_writeBytes, COutPoint.serialize,
    List.length_append]
  rfl

theorem CTxIn.getSerializeSize_eq (txin : CTxIn) : txin.getSerializeSize = UInt32.ofNat txin.serialize.length := by
  rw [CTxIn.length_serialize, CTxIn.getSerializeSize, bytesSerializeSize_eq, length_writeBytes, UInt32.ofNat_add,
    UInt32.ofNat_add]
  rfl

theorem CTxOut.length_serialize (txout : CTxOut) :
    txout.serialize.length = 8 + CTransaction.bytesSize txout.scriptPubKey := by
  rw [CTxOut.serialize, List.length_append, length_writeBytes]
  rfl

theorem CTxOut.getSerializeSize_eq (txout : CTxOut) :
    txout.getSerializeSize = UInt32.ofNat txout.serialize.length := by
  rw [CTxOut.length_serialize, CTxOut.getSerializeSize, bytesSerializeSize_eq, length_writeBytes, UInt32.ofNat_add]
  rfl

theorem CTransaction.length_serialize (tx : CTransaction) : tx.serialize.length = tx.serializeSize := by
  simp only [CTransaction.serialize, CTransaction.serializeSize, List.length_append, length_ofInt, length_writeVector,
    CTxIn.length_serialize, CTxOut.length_serialize, writeUInt32, LittleEndian.length_ofNat]
  omega

theorem CTransaction.getSerializeSize_eq (tx : CTransaction) :
    tx.getSerializeSize = UInt32.ofNat tx.serialize.length := by
  simp only [CTransaction.getSerializeSize, CTransaction.serialize, List.length_append, length_ofInt, writeUInt32,
    LittleEndian.length_ofNat, UInt32.ofNat_add, vectorSize_eq CTxIn.getSerializeSize_eq,
    vectorSize_eq CTxOut.getSerializeSize_eq]
  rfl

theorem CBlock.length_serialize {nType : UInt32} (hnType : withTransactions nType = true) (block : CBlock) :
    (block.serialize nType).length = block.serializeSize := by
  have hvtx : (block.vtx.map fun tx => tx.serialize.length) = block.vtx.map CTransaction.serializeSize :=
    List.map_congr_left fun tx _ => tx.length_serialize
  simp only [CBlock.serialize, CBlockHeader.serialize, CBlock.serializeSize, hnType, if_true, List.length_append,
    length_ofInt, length_writeVector, length_writeBytes, hvtx, writeUInt32, writeUInt256, LittleEndian.length_ofNat]
  omega

theorem CBlock.getSerializeSize_eq (nType : UInt32) (block : CBlock) :
    block.getSerializeSize nType = UInt32.ofNat (block.serialize nType).length := by
  rw [CBlock.getSerializeSize, CBlock.serialize, List.length_append, UInt32.ofNat_add]
  cases hnType : CBlock.withTransactions nType with
  | true =>
    rw [if_pos rfl, if_pos rfl, List.length_append, UInt32.ofNat_add, vectorSize_eq CTransaction.getSerializeSize_eq,
      bytesSerializeSize_eq]
    rfl
  | false => rfl

theorem wireFormat_of_faithful {α : Type} {valid : α → Prop} {write : α → List UInt8} {read : ReadM α}
    {size : α → UInt32} (h : Faithful valid write read) (hsize : ∀ a, size a = UInt32.ofNat (write a).length) :
    WireFormat valid write read size where
  reads a rest ha := h.reads ha rest
  rewrites bytes a rest hread := h.eq_of_read hread
  size_eq a := by rw [hsize, UInt32.toNat_ofNat']

/-- Transactions and blocks are read back as they were written, and nothing else is read as them. The size is
that of what is written, modulo `2 ^ 32`; different encodings have different transactions and hashes. -/
theorem wireFormat_canonical (layout : Layout) :
    WireFormat CTransaction.Fits CTransaction.serialize (CTransaction.unserialize layout)
        CTransaction.getSerializeSize ∧
      (∀ nType, WireFormat (fun block => block.Fits ∧ block.Written nType) (CBlock.serialize nType)
        (CBlock.unserialize layout nType) (CBlock.getSerializeSize nType)) ∧
      ∀ (Hash : Type) (hash : List UInt8 → Hash), Function.Injective hash → ∀ bytes bytes' rest rest' tx tx',
          CTransaction.unserialize layout (bytes ++ rest) = (.ok tx, rest) →
          CTransaction.unserialize layout (bytes' ++ rest') = (.ok tx', rest') →
          hash tx.serialize = hash tx'.serialize → bytes = bytes' ∧ tx = tx' := by
  refine ⟨wireFormat_of_faithful (CTransaction.faithful layout) CTransaction.getSerializeSize_eq,
    fun nType => wireFormat_of_faithful (CBlock.faithful layout nType) (CBlock.getSerializeSize_eq nType), ?_⟩
  intro Hash hash hinjective bytes bytes' rest rest' tx tx' hread hread' hhash
  have hwritten : tx.serialize = tx'.serialize := hinjective hhash
  have hbytes := (CTransaction.faithful layout).canonical hread hread' hwritten
  have htx := (CTransaction.faithful layout).reads ((CTransaction.faithful layout).valid_of_read hread) []
  have htx' := (CTransaction.faithful layout).reads ((CTransaction.faithful layout).valid_of_read hread') []
  rw [hwritten, htx'] at htx
  exact ⟨hbytes, (Except.ok.inj (Prod.mk.inj htx).1).symm⟩

namespace Sample

def largeInput : CTxIn := ⟨.null, List.replicate maxSize 0, 0⟩

def largeTx : CTransaction := ⟨1, 0, List.replicate 128 largeInput, [], 0⟩

theorem largeInput_fits : largeInput.Fits := le_of_eq List.length_replicate

theorem largeTx_fits : largeTx.Fits where
  nVersion := by decide
  vin := (le_of_eq List.length_replicate).trans (by norm_num [maxSize])
  txins txin hmem := by
    have htxin : txin = largeInput := List.eq_of_mem_replicate hmem
    rw [htxin]
    exact largeInput_fits
  vout := Nat.zero_le _
  txouts _ hmem := nomatch hmem

theorem largeInput_size : CTransaction.bytesSize largeInput.scriptSig = getSizeOfCompactSize maxSize + maxSize := by
  have hlength : largeInput.scriptSig.length = maxSize := List.length_replicate
  rw [CTransaction.bytesSize, hlength]

theorem largeTx_size_wraps : largeTx.Fits ∧ largeTx.getSerializeSize.toNat ≠ largeTx.serialize.length := by
  refine ⟨largeTx_fits, fun heq => ?_⟩
  have hlength : largeTx.serialize.length = largeTx.serializeSize := largeTx.length_serialize
  have hvin : largeTx.vin = List.replicate 128 largeInput := rfl
  have hsum : (largeTx.vin.map fun txin => 36 + CTransaction.bytesSize txin.scriptSig + 4).sum
      = 128 * (36 + (getSizeOfCompactSize maxSize + maxSize) + 4) := by
    rw [hvin, List.map_replicate, List.sum_replicate, largeInput_size, smul_eq_mul]
  have hlt : largeTx.getSerializeSize.toNat < 2 ^ 32 := largeTx.getSerializeSize.toNat_lt
  have hmax : 128 * maxSize = 2 ^ 32 := by norm_num [maxSize]
  rw [CTransaction.serializeSize, hsum] at hlength
  omega

end Sample

end PupaCoin
