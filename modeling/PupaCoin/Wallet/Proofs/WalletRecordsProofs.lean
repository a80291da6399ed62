import PupaCoin.Wallet.WalletRecords
import PupaCoin.Chain.Proofs.SerializeProofs
import PupaCoin.Chain.Sample

/-!
# Wallet records

An object that fits its record is read back from it, and is not changed by being written or measured: the fields that
travel in `mapValue` are found there under their keys, and the keys are gone afterwards. An accounting entry has no
such place for a value that `mapValue` holds under `n` itself.
-/

namespace PupaCoin

variable {m mapValue : MapValue} {nOrderPos nVersion : Int}

open Codec LittleEndian

theorem faithful_string : Faithful FitsSize writeString readString := by
  have hblock : ∀ n, n ≤ maxSize → Faithful (fun v : List UInt8 => v.length = n ∧ True) id (readData n) := fun n _ =>
    (faithful_readData n).congr (fun v => and_iff_left trivial) fun v _ => rfl
  refine (faithful_compactSize.prefixed hblock).congr (fun v => ?_) fun v _ => rfl
  exact ⟨fun hv => ⟨hv, trivial⟩, fun hv => hv.1⟩

theorem readCompactSize_large {n : Nat} (h : maxSize < n) (h' : n < 256 ^ 8) (rest : List UInt8) :
    readCompactSize (writeCompactSize n ++ rest) = (.error "ReadCompactSize() : size too large", rest) := by
  have hmark := (faithful_readData 1).reads (length_ofNat 1 (sizeMark n)) (sizeTail n ++ rest)
  have hbehind := (faithful_sizeBehind (lt_of_lt_of_eq (sizeMark_lt n) (pow_one 256))).reads ⟨rfl, h'⟩ rest
  rw [id] at hmark
  rw [readCompactSize, writeCompactSize_eq, List.append_assoc, Exec.bind_of_ok hmark, toNat_ofNat (sizeMark_lt n),
    Exec.bind_of_ok hbehind, if_pos h]
  rfl

/-- The strings of a pair are not too long. -/
def PairFits (item : StdString × StdString) : Prop := FitsSize item.1 ∧ FitsSize item.2

theorem faithful_pair : Faithful PairFits writePair readPair := by
  intro bytes item rest
  simp only [readPair, faithful_string.bind_iff, pure_iff]
  constructor
  · rintro ⟨first, -, hfirst, rfl, second, -, hsecond, rfl, rfl, rfl⟩
    exact ⟨⟨hfirst, hsecond⟩, (List.append_assoc _ _ _).symm⟩
  · rintro ⟨⟨hfirst, hsecond⟩, rfl⟩
    exact ⟨item.1, _, hfirst, List.append_assoc _ _ _, item.2, rest, hsecond, rfl, rfl, rfl⟩

theorem readMap_writeMap (h : m.Fits) (rest : List UInt8) : readMap (writeMap m ++ rest) = (.ok m, rest) := by
  have hitems : (readMany readPair m.entries.length) (m.entries.flatMap writePair ++ rest) = (.ok m.entries, rest) :=
    (faithful_pair.readMany _).reads ⟨rfl, h.2⟩ rest
  rw [readMap, writeMap, writeVector, List.append_assoc, Exec.bind_of_ok (faithful_compactSize.reads h.1 _),
    Exec.bind_of_ok hitems]
  show (Except.ok (m.entries.foldl OrderedMap.insert .empty), rest) = (Except.ok m, rest)
  rw [m.foldl_insert_entries]

theorem find?_writeOrderPos (nOrderPos : Int) (mapValue : MapValue) (key : StdString) :
    (writeOrderPos nOrderPos mapValue).find? key
      = if key = keyN ∧ nOrderPos ≠ -1 then some (Decimal.ofInt nOrderPos) else mapValue.find? key := by
  rw [writeOrderPos]
  by_cases hunset : nOrderPos = -1
  · rw [if_pos hunset, if_neg fun h => h.2 hunset]
  · rw [if_neg hunset, OrderedMap.find?_set]
    exact if_congr (and_iff_left hunset).symm rfl rfl

theorem readOrderPos_of_find? (hrange : InRange 8 nOrderPos)
    (h : mapValue.find? keyN = if nOrderPos = -1 then none else some (Decimal.ofInt nOrderPos)) :
    readOrderPos mapValue = nOrderPos := by
  obtain ⟨hlow, hhigh⟩ := hrange
  norm_num at hlow hhigh
  rw [readOrderPos, h]
  split_ifs with hunset
  · exact hunset.symm
  · exact Decimal.strtoll_ofInt (by norm_num; omega) (by norm_num; omega)

namespace StoredTx

variable (wtx : StoredTx)

theorem find?_eraseReserved (mapValue : MapValue) (key : StdString) :
    (eraseReserved mapValue).find? key = if key ∈ reservedKeys then none else mapValue.find? key := by
  by_cases hmem : key ∈ reservedKeys
  · rw [if_pos hmem]
    simp only [reservedKeys, List.mem_cons, List.not_mem_nil, or_false] at hmem
    simp only [eraseReserved, OrderedMap.find?_erase]
    rcases hmem with rfl | rfl | rfl | rfl | rfl <;> simp
  · rw [if_neg hmem]
    simp only [reservedKeys, List.mem_cons, List.not_mem_nil, or_false, not_or] at hmem
    obtain ⟨hfrom, hversion, hspent, hn, htime⟩ := hmem
    simp only [eraseReserved, OrderedMap.find?_erase, if_neg hfrom, if_neg hversion, if_neg hspent, if_neg hn,
      if_neg htime]

theorem find?_reservedMap (key : StdString) : wtx.reservedMap.find? key
      = if key = keyTimeSmart ∧ wtx.nTimeSmart ≠ 0 then some (Decimal.ofNat wtx.nTimeSmart.toNat)
        else if key = keyN ∧ wtx.nOrderPos ≠ -1 then some (Decimal.ofInt wtx.nOrderPos)
        else if key = keySpent then some wtx.spentString
        else if key = keyFromAccount then some wtx.strFromAccount
        else wtx.mapValue.find? key := by
  rw [reservedMap]
  by_cases htime : wtx.nTimeSmart = 0
  · rw [if_neg (not_not.mpr htime), if_neg fun h => h.2 htime, find?_writeOrderPos, OrderedMap.find?_set,
      OrderedMap.find?_set]
  · rw [if_pos htime, OrderedMap.find?_set, find?_writeOrderPos, OrderedMap.find?_set, OrderedMap.find?_set]
    exact if_congr (and_iff_left htime).symm rfl rfl

variable {wtx}

theorem restored_eq (h : wtx.KeysFree) : wtx.restored = wtx := by
  have hmap : eraseReserved wtx.reservedMap = wtx.mapValue := by
    refine OrderedMap.ext_find? fun key => ?_
    rw [find?_eraseReserved]
    split_ifs with hmem
    · exact (h key hmem).symm
    · have hne : ∀ k ∈ reservedKeys, key ≠ k := fun k hk heq => hmem (heq ▸ hk)
      rw [find?_reservedMap, if_neg fun hk => hne _ (by decide) hk.1, if_neg fun hk => hne _ (by decide) hk.1,
        if_neg (hne _ (by decide)), if_neg (hne _ (by decide))]
  rw [restored, hmap]

theorem spentFlags_reservedMap (nOutputs : Nat) (fSpent : UInt8) :
    spentFlags wtx.reservedMap nOutputs fSpent = wtx.vfSpent := by
  have hspent : wtx.reservedMap.find? keySpent = some wtx.spentString := by
    rw [find?_reservedMap, if_neg fun h => absurd h.1 (by decide), if_neg fun h => absurd h.1 (by decide), if_pos rfl]
  have hflag : ∀ f : Bool, decide ((if f then (0x31 : UInt8) else 0x30) ≠ 0x30) = f := by decide
  rw [spentFlags, hspent]
  show (wtx.vfSpent.map _).map _ = wtx.vfSpent
  rw [List.map_map]
  exact (List.map_congr_left fun f _ => hflag f).trans (List.map_id _)

theorem strFromAccount_reservedMap : (wtx.reservedMap.find? keyFromAccount).getD [] = wtx.strFromAccount := by
  rw [find?_reservedMap, if_neg fun h => absurd h.1 (by decide), if_neg fun h => absurd h.1 (by decide),
    if_neg (by decide), if_pos rfl]
  rfl

theorem readOrderPos_reservedMap (h : wtx.KeysFree) (hrange : InRange 8 wtx.nOrderPos) :
    readOrderPos wtx.reservedMap = wtx.nOrderPos := by
  refine readOrderPos_of_find? hrange ?_
  rw [find?_reservedMap, if_neg fun h => absurd h.1 (by decide)]
  by_cases hunset : wtx.nOrderPos = -1
  · rw [if_neg fun h => h.2 hunset, if_neg (by decide), if_neg (by decide), h _ (by decide), if_pos hunset]
  · rw [if_pos ⟨rfl, hunset⟩, if_neg hunset]

theorem readTimeSmart_reservedMap (h : wtx.KeysFree) : readTimeSmart wtx.reservedMap = wtx.nTimeSmart := by
  rw [readTimeSmart, find?_reservedMap]
  by_cases hzero : wtx.nTimeSmart = 0
  · rw [if_neg fun h => h.2 hzero, if_neg fun h => absurd h.1 (by decide), if_neg (by decide), if_neg (by decide),
      h _ (by decide)]
    exact hzero.symm
  · have hlt : wtx.nTimeSmart.toNat < 2 ^ 32 := wtx.nTimeSmart.toNat_lt
    rw [if_pos ⟨rfl, hzero⟩]
    show UInt32.ofInt (Decimal.strtoll (Decimal.ofNat wtx.nTimeSmart.toNat)) = wtx.nTimeSmart
    rw [Decimal.strtoll_ofNat (by omega)]
    show UInt32.ofNat ((wtx.nTimeSmart.toNat : Int) % 2 ^ 32).toNat = wtx.nTimeSmart
    rw [Int.emod_eq_of_lt (by omega) (by omega), Int.toNat_natCast, UInt32.ofNat_toNat]

end StoredTx

theorem CMerkleTx.faithful (layout : Layout) :
    Faithful CMerkleTx.Fits CMerkleTx.serialize (CMerkleTx.unserialize layout) := by
  have hbranch := faithful_vector faithful_uint256 (by decide : 0 < 32 ∧ 32 ≤ 5000000)
  intro bytes mtx rest
  simp only [CMerkleTx.unserialize, (CTransaction.faithful layout).bind_iff, faithful_uint256.bind_iff,
    hbranch.bind_iff, (faithful_signed 4).bind_iff, pure_iff]
  constructor
  · rintro ⟨tx, -, htx, rfl, hashBlock, -, -, rfl, vMerkleBranch, -, ⟨hvector, -⟩, rfl, nIndex, -, hindex, rfl, rfl, rfl⟩
    exact ⟨⟨htx, hvector, hindex⟩, by simp only [CMerkleTx.serialize, List.append_assoc]⟩
  · rintro ⟨hfits, rfl⟩
    refine ⟨mtx.tx, _, hfits.tx, ?_, mtx.hashBlock, _, trivial, rfl, mtx.vMerkleBranch, _,
      ⟨hfits.vMerkleBranch, fun _ _ => trivial⟩, rfl, mtx.nIndex, rest, hfits.nIndex, rfl, rfl, rfl⟩
    simp only [CMerkleTx.serialize, List.append_assoc]

theorem faithful_char : Faithful (fun _ => True) (fun c : UInt8 => [c]) readChar := by
  have hbyte : ∀ c : UInt8, UInt8.ofNat (toNat [c]) = c := fun c => by
    show UInt8.ofNat (c.toNat + 256 * 0) = c
    rw [Nat.mul_zero, Nat.add_zero, UInt8.ofNat_toNat]
  refine (faithful_readData 1).map (g := fun c => [c]) (fun b hb => ?_) fun c _ => ⟨rfl, hbyte c⟩
  obtain ⟨c, rfl⟩ := List.length_eq_one_iff.mp hb
  exact ⟨trivial, congrArg (fun c => [c]) (hbyte c)⟩

theorem MapValue.mem_writeOrderPos {item : StdString × StdString}
    (h : item ∈ (writeOrderPos nOrderPos mapValue).entries) :
    item = (keyN, Decimal.ofInt nOrderPos) ∨ item ∈ mapValue.entries := by
  rw [writeOrderPos] at h
  split_ifs at h
  · exact Or.inr h
  · exact (OrderedMap.mem_set.mp h).imp_right And.left

theorem fitsSize_ofInt (h : InRange 8 nOrderPos) : FitsSize (Decimal.ofInt nOrderPos) := by
  obtain ⟨hlow, hhigh⟩ := h
  norm_num at hlow hhigh
  have hlength : (Decimal.ofInt nOrderPos).length ≤ 19 + 1 := Decimal.length_ofInt_le (by decide) (by norm_num; omega)
  exact hlength.trans (by decide)

namespace StoredTx

variable {wtx : StoredTx}

theorem reservedMap_fits (h : wtx.Fits) : wtx.reservedMap.Fits := by
  have hmarked : ∀ v, FitsSize v → ∀ key ∈ reservedKeys, PairFits (key, v) := by
    intro v hv key hkey
    have hkeys : ∀ key ∈ reservedKeys, FitsSize key := by decide
    exact ⟨hkeys key hkey, hv⟩
  have hspent : FitsSize wtx.spentString := by
    rw [FitsSize, spentString, List.length_map]
    exact h.vfSpent
  have hlength : (writeOrderPos wtx.nOrderPos
      ((wtx.mapValue.set keyFromAccount wtx.strFromAccount).set keySpent wtx.spentString)).entries.length
        ≤ wtx.mapValue.entries.length + 3 := by
    have hspent := (wtx.mapValue.set keyFromAccount wtx.strFromAccount).length_set_le keySpent wtx.spentString
    have hfrom := wtx.mapValue.length_set_le keyFromAccount wtx.strFromAccount
    rw [writeOrderPos]
    split_ifs
    · omega
    · refine (OrderedMap.length_set_le _ _ _).trans ?_
      omega
  have hitems : ∀ item ∈ (writeOrderPos wtx.nOrderPos
      ((wtx.mapValue.set keyFromAccount wtx.strFromAccount).set keySpent wtx.spentString)).entries, PairFits item := by
    intro item hitem
    rcases MapValue.mem_writeOrderPos hitem with rfl | hitem
    · exact hmarked _ (fitsSize_ofInt h.nOrderPos) _ (by decide)
    rcases OrderedMap.mem_set.mp hitem with rfl | ⟨hitem, -⟩
    · exact hmarked _ hspent _ (by decide)
    rcases OrderedMap.mem_set.mp hitem with rfl | ⟨hitem, -⟩
    · exact hmarked _ h.strFromAccount _ (by decide)
    · exact h.items item hitem
  have hcount := h.mapValue
  rw [reservedMap]
  split_ifs
  · refine ⟨(OrderedMap.length_set_le _ _ _).trans (by omega), fun item hitem => ?_⟩
    rcases OrderedMap.mem_set.mp hitem with rfl | ⟨hitem, -⟩
    · have hlt : wtx.nTimeSmart.toNat < 10 ^ 10 := lt_trans wtx.nTimeSmart.toNat_lt (by norm_num)
      exact hmarked _ ((Decimal.length_ofNat_le (by decide) hlt).trans (by decide)) _ (by decide)
    · exact hitems item hitem
  · exact ⟨hlength.trans (by omega), hitems⟩

theorem unserialize_serialize (layout : RecordLayout) (h : wtx.Fits) (hfree : wtx.KeysFree) (rest : List UInt8) :
    StoredTx.unserialize layout (wtx.serialize.1 ++ rest) = (.ok wtx, rest) := by
  have hprevs := faithful_vector (CMerkleTx.faithful layout.toLayout) layout.merkleTx_range
  have hforms := faithful_vector faithful_pair layout.pair_range
  simp only [serialize, List.append_assoc]
  rw [unserialize, Exec.bind_of_ok ((CMerkleTx.faithful layout.toLayout).reads h.merkleTx _),
    Exec.bind_of_ok (hprevs.reads ⟨h.vtxPrev, h.prevs⟩ _), Exec.bind_of_ok (readMap_writeMap (reservedMap_fits h) _),
    Exec.bind_of_ok (hforms.reads ⟨h.vOrderForm, h.forms⟩ _), Exec.bind_of_ok (faithful_uint32.reads trivial _),
    Exec.bind_of_ok (faithful_uint32.reads trivial _), Exec.bind_of_ok (faithful_char.reads trivial _),
    Exec.bind_of_ok (faithful_char.reads trivial _)]
  refine pure_iff.mpr ⟨?_, rfl⟩
  have hrestored : eraseReserved wtx.reservedMap = wtx.mapValue := congrArg StoredTx.mapValue (restored_eq hfree)
  rw [hrestored, strFromAccount_reservedMap, spentFlags_reservedMap, readOrderPos_reservedMap hfree h.nOrderPos,
    readTimeSmart_reservedMap hfree]

end StoredTx

theorem length_le_writeString (str : StdString) : str.length ≤ (writeString str).length := by
  rw [writeString, List.length_append]
  exact Nat.le_add_left _ _

theorem MapValue.fits_of_length (h : (writeMap m).length ≤ maxSize) : m.Fits := by
  have hpair : ∀ item : StdString × StdString, item.1.length ≤ (writePair item).length
      ∧ item.2.length ≤ (writePair item).length ∧ 1 ≤ (writePair item).length := by
    intro item
    have hfirst := length_le_writeString item.1
    have hsecond := length_le_writeString item.2
    have hsize : 1 ≤ (writeString item.1).length := by
      rw [writeString, List.length_append, writeCompactSize_eq, List.length_append, LittleEndian.length_ofNat]
      omega
    rw [writePair, List.length_append]
    omega
  have hflat : (m.entries.flatMap writePair).length ≤ maxSize := by
    rw [writeMap, writeVector, List.length_append] at h
    omega
  rw [List.length_flatMap] at hflat
  refine ⟨?_, fun item hitem => ?_⟩
  · have hcount : m.entries.length ≤ (m.entries.map fun item => (writePair item).length).sum := by
      have := List.length_le_sum_of_one_le (m.entries.map fun item => (writePair item).length) fun n hn => by
        obtain ⟨item, -, rfl⟩ := List.mem_map.mp hn
        exact (hpair item).2.2
      rwa [List.length_map] at this
    exact hcount.trans hflat
  · have hle : (writePair item).length ≤ maxSize :=
      (List.single_le_sum (fun _ _ => Nat.zero_le _) _ (List.mem_map_of_mem hitem)).trans hflat
    exact ⟨(hpair item).1.trans hle, (hpair item).2.1.trans hle⟩

namespace CAccountingEntry

variable {acentry : CAccountingEntry}

theorem takeWhile_extendedComment (h : 0 ∉ acentry.strComment) :
    (acentry.extendedComment.takeWhile fun c => decide (c ≠ 0)) = acentry.strComment := by
  have hall : ∀ c ∈ acentry.strComment, decide (c ≠ 0) = true := fun c hc =>
    decide_eq_true fun hzero => h (hzero ▸ hc)
  rw [extendedComment]
  split_ifs
  · exact List.takeWhile_eq_self_iff.mpr hall
  · rw [List.takeWhile_append_of_pos hall, List.takeWhile_cons_of_neg (by decide), List.append_nil]

theorem restored_eq (h : 0 ∉ acentry.strComment) (hfree : acentry.mapValue.find? keyN = none) :
    acentry.restored = acentry := by
  have hmap : acentry.orderedMap.erase keyN = acentry.mapValue := by
    refine OrderedMap.ext_find? fun key => ?_
    rw [OrderedMap.find?_erase]
    split_ifs with hkey
    · rw [hkey, hfree]
    · rw [orderedMap, find?_writeOrderPos, if_neg fun h => hkey h.1]
  rw [restored, hmap, takeWhile_extendedComment h]

theorem readBehindComment_extendedComment (hfits : FitsSize acentry.extendedComment) (h : 0 ∉ acentry.strComment)
    (rest : List UInt8) :
    ∃ ssExtra, readBehindComment acentry.extendedComment rest = (.ok (acentry.orderedMap, ssExtra), rest)
      ∧ ssExtra.getD [] = acentry.ssExtra := by
  have hall : ∀ c ∈ acentry.strComment, decide (c ≠ 0) = true := fun c hc =>
    decide_eq_true fun hzero => h (hzero ▸ hc)
  rw [extendedComment] at hfits ⊢
  split_ifs at hfits ⊢ with hnone
  · have hdrop : (acentry.strComment.dropWhile fun c => decide (c ≠ 0)) = [] := List.dropWhile_eq_nil_iff.mpr hall
    have hempty : acentry.orderedMap = .empty := OrderedMap.ext_find? fun key => by
      rw [OrderedMap.find?, hnone.1]
      rfl
    refine ⟨none, ?_, hnone.2.symm⟩
    rw [readBehindComment, hdrop, hempty]
    rfl
  · have hdrop : ((acentry.strComment ++ 0 :: (writeMap acentry.orderedMap ++ acentry.ssExtra)).dropWhile
        fun c => decide (c ≠ 0)) = 0 :: (writeMap acentry.orderedMap ++ acentry.ssExtra) := by
      rw [List.dropWhile_append_of_pos hall, List.dropWhile_cons_of_neg (by decide)]
    have hmap : acentry.orderedMap.Fits := by
      refine MapValue.fits_of_length (le_trans ?_ hfits)
      simp only [List.length_append, List.length_cons]
      omega
    refine ⟨some acentry.ssExtra, ?_, rfl⟩
    rw [readBehindComment, hdrop]
    dsimp only
    rw [readMap_writeMap hmap]
    rfl

theorem readOrderPos_orderedMap (hrange : InRange 8 acentry.nOrderPos) (hfree : acentry.mapValue.find? keyN = none) :
    readOrderPos acentry.orderedMap = acentry.nOrderPos := by
  refine readOrderPos_of_find? hrange ?_
  rw [orderedMap, find?_writeOrderPos, hfree]
  by_cases hunset : acentry.nOrderPos = -1
  · rw [if_neg fun h => h.2 hunset, if_pos hunset]
  · rw [if_pos ⟨rfl, hunset⟩, if_neg hunset]

theorem readVersion_written (nType : UInt32) (hversion : InRange 4 nVersion) (bytes : List UInt8) :
    readVersion nType ((if withVersion nType then ofInt 4 nVersion else []) ++ bytes) = (.ok (), bytes) := by
  rw [readVersion]
  cases withVersion nType with
  | false => rfl
  | true =>
    rw [if_pos rfl, if_pos rfl, Exec.bind_of_ok ((faithful_signed 4).reads hversion bytes)]
    rfl

theorem unserialize_serialize (nType : UInt32) (hversion : InRange 4 nVersion) (h : acentry.Fits)
    (hcomment : 0 ∉ acentry.strComment) (hfree : acentry.mapValue.find? keyN = none) {target : CAccountingEntry}
    (htarget : target.ssExtra = []) (rest : List UInt8) :
    unserialize nType target ((acentry.serialize nType nVersion).1 ++ rest)
      = (.ok { acentry with strAccount := target.strAccount, nEntryNo := target.nEntryNo }, rest) := by
  obtain ⟨ssExtra, hbehind, hextra⟩ := readBehindComment_extendedComment h.strComment hcomment rest
  have hmap : acentry.orderedMap.erase keyN = acentry.mapValue :=
    congrArg CAccountingEntry.mapValue (restored_eq hcomment hfree)
  simp only [serialize, List.append_assoc]
  rw [unserialize, Exec.bind_of_ok (readVersion_written nType hversion _), Exec.bind_of_ok ((faithful_signed 8).reads h.nCreditDebit _),
    Exec.bind_of_ok ((faithful_signed 8).reads h.nTime _), Exec.bind_of_ok (faithful_string.reads h.strOtherAccount _),
    Exec.bind_of_ok (faithful_string.reads h.strComment _), Exec.bind_of_ok hbehind]
  refine pure_iff.mpr ⟨?_, rfl⟩
  rw [takeWhile_extendedComment hcomment, hmap, readOrderPos_orderedMap h.nOrderPos hfree, htarget, hextra]

end CAccountingEntry

theorem readAccountingEntry_written {acentry : CAccountingEntry} (hversion : InRange 4 nVersion) (h : acentry.Fits)
    (hcomment : 0 ∉ acentry.strComment) (hfree : acentry.mapValue.find? keyN = none) (uninitialized : UInt64) :
    readAccountingEntry uninitialized (accountingKey acentry.strAccount acentry.nEntryNo)
      (acentry.serialize serDisk nVersion).1 = .ok (some acentry) := by
  have hvalue := CAccountingEntry.unserialize_serialize serDisk hversion h hcomment hfree
    (show { newAccountingEntry uninitialized with strAccount := acentry.strAccount }.ssExtra = [] from rfl) []
  have hlt : acentry.nEntryNo.toNat < 256 ^ 8 := acentry.nEntryNo.toNat_lt
  have hnumber := (faithful_readData 8).reads (length_ofNat 8 acentry.nEntryNo.toNat) []
  rw [List.append_nil] at hvalue
  rw [id, List.append_nil] at hnumber
  simp only [readAccountingEntry, accountingKey, List.append_assoc]
  rw [Exec.bind_of_ok (faithful_string.reads (by decide) _), if_neg (not_not.mpr rfl),
    Exec.bind_of_ok (faithful_string.reads h.strAccount _), hvalue]
  dsimp only
  rw [Exec.bind_of_ok hnumber, toNat_ofNat hlt, UInt64.ofNat_toNat]
  rfl

/-- Transactions and accounting entries are read back as they were written, and are the same after they have been written
or measured; where nothing is longer than `MAX_SIZE`, and `mapValue` does not use the keys of the fields. -/
theorem walletRecords_roundTrip (layout : RecordLayout) : (∀ wtx : StoredTx, wtx.Fits → wtx.KeysFree →
      (∀ rest, StoredTx.unserialize layout (wtx.serialize.1 ++ rest) = (.ok wtx, rest)) ∧
      wtx.serialize.2 = wtx ∧ wtx.getSerializeSize.2 = wtx) ∧
    ∀ (acentry : CAccountingEntry) (nType : UInt32) (nVersion : Int) (uninitialized : UInt64), InRange 4 nVersion →
      acentry.Fits → 0 ∉ acentry.strComment → acentry.mapValue.find? keyN = none →
      readAccountingEntry uninitialized (accountingKey acentry.strAccount acentry.nEntryNo)
        (acentry.serialize serDisk nVersion).1 = .ok (some acentry) ∧
      (acentry.serialize nType nVersion).2 = acentry ∧ (acentry.getSerializeSize nType).2 = acentry := by
  refine ⟨fun wtx hfits hfree => ?_, fun acentry nType nVersion uninitialized hversion hfits hcomment hfree => ?_⟩
  · have hrestored : wtx.restored = wtx := StoredTx.restored_eq hfree
    exact ⟨StoredTx.unserialize_serialize layout hfits hfree, hrestored, hrestored⟩
  · have hrestored : acentry.restored = acentry := CAccountingEntry.restored_eq hcomment hfree
    exact ⟨readAccountingEntry_written hversion hfits hcomment hfree uninitialized, hrestored, hrestored⟩

namespace Sample

def recordLayout : RecordLayout := ⟨layout, 200, 64, by decide, layout.txIn_range⟩

def recordTx : StoredTx where
  merkleTx := ⟨coinbaseTx 2, 9, [7], 0⟩
  vtxPrev := []
  mapValue := OrderedMap.empty.set (stdString "to") (stdString "rent")
  vOrderForm := [(stdString "message", [])]
  fTimeReceivedIsTxTime := 1
  nTimeReceived := 1500000000
  nTimeSmart := 4294967295
  fFromMe := 1
  strFromAccount := stdString "savings"
  vfSpent := [true, false]
  nOrderPos := -2

def movedEntry : CAccountingEntry where
  strAccount := stdString "savings"
  nCreditDebit := -5
  nTime := 1500000000
  strOtherAccount := []
  strComment := stdString "rent"
  mapValue := OrderedMap.empty.set (stdString "to") []
  nOrderPos := 12
  nEntryNo := 3
  ssExtra := [0, 1]

def numberedEntry : CAccountingEntry := { newAccountingEntry 0 with mapValue := OrderedMap.empty.set keyN (stdString "7") }

def wordyEntry : CAccountingEntry := { newAccountingEntry 0 with strComment := List.replicate (maxSize + 1) 1 }

def branchyTx : StoredTx :=
  { recordTx with merkleTx := { recordTx.merkleTx with vMerkleBranch := List.replicate (maxSize + 1) 0 } }

theorem recordTx_fits : recordTx.Fits where
  merkleTx := ⟨⟨by decide, by decide, by decide, by decide, by decide⟩, by decide, by decide⟩
  vtxPrev := by decide
  prevs _ hmem := nomatch hmem
  mapValue := by decide
  items := by decide
  vOrderForm := by decide
  forms := by decide
  strFromAccount := by decide
  vfSpent := by decide
  nOrderPos := by decide

theorem movedEntry_fits : movedEntry.Fits := ⟨by decide, by decide, by decide, by decide, by decide, by decide⟩

theorem walletRecords_roundTrip_moved :
    (StoredTx.unserialize recordLayout (recordTx.serialize.1 ++ []) = (.ok recordTx, []) ∧
      recordTx.serialize.2 = recordTx ∧ recordTx.getSerializeSize.2 = recordTx) ∧
    readAccountingEntry 8 (accountingKey movedEntry.strAccount movedEntry.nEntryNo)
        (movedEntry.serialize serDisk 60000).1 = .ok (some movedEntry) ∧
      (movedEntry.serialize serDisk 60000).2 = movedEntry ∧ (movedEntry.getSerializeSize serDisk).2 = movedEntry := by
  have hfree : recordTx.KeysFree := by
    show ∀ key ∈ reservedKeys, recordTx.mapValue.find? key = none
    decide
  obtain ⟨htxs, hentries⟩ := walletRecords_roundTrip recordLayout
  obtain ⟨hread, hwritten, hmeasured⟩ := htxs recordTx recordTx_fits hfree
  exact ⟨⟨hread [], hwritten, hmeasured⟩,
    hentries movedEntry serDisk 60000 8 (by decide) movedEntry_fits (by decide) (by decide)⟩

/-- Writing an entry takes its value under `n` away, and reading makes a position of it. A comment that is too long is
written, and so are too many hashes, and neither is read back. -/
theorem walletRecords_altered : (numberedEntry.Fits ∧ 0 ∉ numberedEntry.strComment ∧
      (numberedEntry.serialize serDisk 60000).2.mapValue ≠ numberedEntry.mapValue ∧
      (numberedEntry.getSerializeSize serDisk).2.mapValue ≠ numberedEntry.mapValue ∧
      ∃ acentry, readAccountingEntry 0 (accountingKey numberedEntry.strAccount numberedEntry.nEntryNo)
          (numberedEntry.serialize serDisk 60000).1 = .ok (some acentry) ∧ acentry.nOrderPos = 7 ∧
        numberedEntry.nOrderPos = -1) ∧
    (0 ∉ wordyEntry.strComment ∧ wordyEntry.mapValue.entries = [] ∧
      (CAccountingEntry.unserialize serDisk (newAccountingEntry 0) (wordyEntry.serialize serDisk 60000).1).1
        = .error "ReadCompactSize() : size too large") ∧
    branchyTx.KeysFree ∧
      (StoredTx.unserialize recordLayout branchyTx.serialize.1).1 = .error "ReadCompactSize() : size too large" := by
  have hlarge : maxSize < maxSize + 1 := Nat.lt_succ_self maxSize
  have hrange : maxSize + 1 < 256 ^ 8 := by norm_num [maxSize]
  refine ⟨⟨⟨by decide, by decide, by decide, by decide, by decide, by decide⟩, by decide, ?_, ?_, ?_⟩,
    ⟨?_, rfl, ?_⟩, ?_, ?_⟩
  · exact fun h => absurd (congrArg OrderedMap.entries h) (by decide)
  · exact fun h => absurd (congrArg OrderedMap.entries h) (by decide)
  · exact ⟨_, rfl, by decide, rfl⟩
  · exact fun hzero => absurd (List.eq_of_mem_replicate hzero) (by decide)
  · have hcomment : wordyEntry.extendedComment = wordyEntry.strComment := if_pos ⟨rfl, rfl⟩
    have hlength : wordyEntry.strComment.length = maxSize + 1 := List.length_replicate
    have hstring : readString (writeString wordyEntry.strComment)
        = (.error "ReadCompactSize() : size too large", wordyEntry.strComment) := by
      rw [readString, writeString, hlength, Exec.bind_of_error (readCompactSize_large hlarge hrange _)]
    simp only [CAccountingEntry.serialize, List.append_assoc, hcomment]
    rw [CAccountingEntry.unserialize, Exec.bind_of_ok (CAccountingEntry.readVersion_written serDisk (by decide) _),
      Exec.bind_of_ok ((faithful_signed 8).reads (by decide) _),
      Exec.bind_of_ok ((faithful_signed 8).reads (by decide) _),
      Exec.bind_of_ok (faithful_string.reads (by decide) _), Exec.bind_of_error hstring]
  · show ∀ key ∈ reservedKeys, branchyTx.mapValue.find? key = none
    decide
  · have hlength : branchyTx.merkleTx.vMerkleBranch.length = maxSize + 1 := List.length_replicate
    have htx : branchyTx.merkleTx.tx.Fits := recordTx_fits.merkleTx.tx
    have hmerkle : ∀ rest, ∃ bytes, CMerkleTx.unserialize recordLayout.toLayout (branchyTx.merkleTx.serialize ++ rest)
        = (.error "ReadCompactSize() : size too large", bytes) := fun rest => by
      have hvector : ∀ rest, ∃ bytes, readVector 32 readUInt256
          (writeVector writeUInt256 branchyTx.merkleTx.vMerkleBranch ++ rest)
            = (.error "ReadCompactSize() : size too large", bytes) := fun rest => by
        rw [readVector, writeVector, hlength, List.append_assoc,
          Exec.bind_of_error (readCompactSize_large hlarge hrange _)]
        exact ⟨_, rfl⟩
      obtain ⟨bytes, hread⟩ := hvector (ofInt 4 branchyTx.merkleTx.nIndex ++ rest)
      simp only [CMerkleTx.serialize, List.append_assoc]
      rw [CMerkleTx.unserialize, Exec.bind_of_ok ((CTransaction.faithful recordLayout.toLayout).reads htx _),
        Exec.bind_of_ok (faithful_uint256.reads trivial _), Exec.bind_of_error hread]
      exact ⟨_, rfl⟩
    simp only [StoredTx.serialize, List.append_assoc]
    obtain ⟨bytes, hread⟩ := hmerkle _
    rw [StoredTx.unserialize, Exec.bind_of_error hread]

end Sample

end PupaCoin
