import PupaCoin.Chain.Proofs.SerializeProofs
import PupaCoin.Net.AddrManStore
import PupaCoin.Net.Proofs.AddrManCheckProofs

/-!
# The address manager on disk: proofs

An entry is read as it was written but for the fields that are only in memory. What `Check_` asks of a manager is put
as statements on its containers (`Checked`); the numbering of the entries on disk carries each of them from the manager
that is written to the one that is read.
-/

namespace PupaCoin

open Codec LittleEndian Function

variable {e : Nat × CAddrInfo} {b : Fin addrmanNewBucketCount} {es : List (Nat × CAddrInfo)} {info : CAddrInfo}
  {n j k : Nat} {infos : List CAddrInfo}

/-! ## Entries -/

def CAddrInfo.stored (info : CAddrInfo) : CAddrInfo :=
  { info with nLastTry := 0, nRefCount := 0, fInTried := false, nRandomPos := -1 }

theorem readNetAddr_writeNetAddr (ip : CNetAddr) (rest : List UInt8) :
    readNetAddr (writeNetAddr ip ++ rest) = (.ok ip, rest) := by
  have hlt : ip.toNat < 256 ^ 16 := by
    have := ip.isLt
    omega
  have hlength : (writeNetAddr ip).length = 16 := (List.length_reverse).trans (length_ofNat _ _)
  have hread : readData 16 (writeNetAddr ip ++ rest) = (.ok (writeNetAddr ip), rest) :=
    (faithful_readData 16).reads hlength rest
  rw [readNetAddr, Exec.bind_of_ok hread, writeNetAddr, List.reverse_reverse, toNat_ofNat hlt, BitVec.ofNat_toNat,
    BitVec.setWidth_eq]
  rfl

theorem CService.unserialize_serialize (addr : CService) (rest : List UInt8) :
    CService.unserialize (addr.serialize ++ rest) = (.ok addr, rest) := by
  have hlt : addr.port.toNat < 256 ^ 2 := addr.port.toNat_lt
  have hlength : (LittleEndian.ofNat 2 addr.port.toNat).reverse.length = 2 :=
    (List.length_reverse).trans (length_ofNat _ _)
  have hport : readData 2 ((LittleEndian.ofNat 2 addr.port.toNat).reverse ++ rest)
      = (.ok (LittleEndian.ofNat 2 addr.port.toNat).reverse, rest) := (faithful_readData 2).reads hlength rest
  rw [CService.unserialize, CService.serialize, List.append_assoc, Exec.bind_of_ok (readNetAddr_writeNetAddr _ _),
    Exec.bind_of_ok hport, List.reverse_reverse, toNat_ofNat hlt, UInt16.ofNat_toNat]
  rfl

theorem CAddress.unserialize_serialize (addr : CAddress) (rest : List UInt8) :
    CAddress.unserialize (addr.serialize 0 ++ rest) = (.ok { addr with nLastTry := 0 }, rest) := by
  have hlt : addr.nServices.toNat < 256 ^ 8 := addr.nServices.toNat_lt
  have hlength : (LittleEndian.ofNat 8 addr.nServices.toNat).length = 8 := length_ofNat _ _
  have hservices : ∀ rest, readData 8 (LittleEndian.ofNat 8 addr.nServices.toNat ++ rest)
      = (.ok (LittleEndian.ofNat 8 addr.nServices.toNat), rest) := (faithful_readData 8).reads hlength
  have hversion : ∀ rest, readSigned 4 (ofInt 4 0 ++ rest) = (.ok 0, rest) :=
    (faithful_signed 4).reads (by decide)
  have htime : ∀ rest, readUInt32 (writeUInt32 addr.nTime ++ rest) = (.ok addr.nTime, rest) :=
    faithful_uint32.reads trivial
  rw [CAddress.unserialize, CAddress.serialize, List.append_assoc, List.append_assoc, List.append_assoc,
    Exec.bind_of_ok (hversion _), Exec.bind_of_ok (htime _), Exec.bind_of_ok (hservices _),
    Exec.bind_of_ok (CService.unserialize_serialize _ _), toNat_ofNat hlt, UInt64.ofNat_toNat]
  rfl

theorem CAddrInfo.unserialize_serialize (h : info.InTypes) (rest : List UInt8) :
    CAddrInfo.unserialize (info.serialize ++ rest) = (.ok info.stored, rest) := by
  obtain ⟨hlastSuccess, hattempts⟩ := h
  rw [CAddrInfo.unserialize, CAddrInfo.serialize, List.append_assoc, List.append_assoc, List.append_assoc,
    Exec.bind_of_ok (CAddress.unserialize_serialize _ _), Exec.bind_of_ok (readNetAddr_writeNetAddr _ _),
    Exec.bind_of_ok ((faithful_signed 8).reads hlastSuccess _), Exec.bind_of_ok ((faithful_signed 4).reads hattempts _)]
  rfl

namespace CAddrMan

section Write

variable {am : CAddrMan} {es : List (Nat × CAddrInfo)} {n : Nat} {info : CAddrInfo}

/-- The loop over the new entries numbers them. By induction on the entries. -/
theorem writeNewEntries_spec {nNew : Int} {nIds : Nat} {mapUnkIds : Nat → Nat} (hnodup : (es.map Prod.fst).Nodup)
    (hcount : ((nIds + (es.filter fun e => decide (e.2.nRefCount ≠ 0)).length : Nat) : Int) = nNew) :
    (writeNewEntries nNew es nIds mapUnkIds).1
        = (es.filter fun e => decide (e.2.nRefCount ≠ 0)).flatMap (fun e => e.2.serialize) ∧
      (∀ (k : Nat) e, (es.filter fun e => decide (e.2.nRefCount ≠ 0))[k]? = some e →
        (writeNewEntries nNew es nIds mapUnkIds).2 e.1 = nIds + k) ∧
      ∀ n, n ∉ es.map Prod.fst → (writeNewEntries nNew es nIds mapUnkIds).2 n = mapUnkIds n := by
  induction es generalizing nIds mapUnkIds with
  | nil => exact ⟨rfl, fun k e h => (nomatch h), fun n _ => rfl⟩
  | cons e es ih =>
    obtain ⟨m, info⟩ := e
    rw [List.map_cons, List.nodup_cons] at hnodup
    rw [writeNewEntries]
    by_cases hnew : info.nRefCount ≠ 0
    · have hfilter : ((m, info) :: es).filter (fun e => decide (e.2.nRefCount ≠ 0))
          = (m, info) :: es.filter fun e => decide (e.2.nRefCount ≠ 0) := List.filter_cons_of_pos (decide_eq_true hnew)
      rw [hfilter, List.length_cons] at hcount
      have hmore : ¬(nIds : Int) = nNew := by omega
      obtain ⟨hbytes, hids, hother⟩ := @ih (nIds + 1) (update mapUnkIds m nIds) hnodup.2 (by omega)
      rw [hfilter, if_neg hmore]
      dsimp only
      rw [if_pos hnew]
      refine ⟨?_, fun k e hk => ?_, fun n hn => ?_⟩
      · rw [List.flatMap_cons, ← hbytes]
      · cases k with
        | zero =>
          cases hk
          dsimp only
          rw [hother m hnodup.1, update_self, Nat.add_zero]
        | succ k =>
          rw [List.getElem?_cons_succ] at hk
          dsimp only
          rw [hids k e hk]
          omega
      · rw [List.map_cons, List.mem_cons, not_or] at hn
        dsimp only
        rw [hother n hn.2, update_of_ne hn.1]
    · have hfilter : ((m, info) :: es).filter (fun e => decide (e.2.nRefCount ≠ 0))
          = es.filter fun e => decide (e.2.nRefCount ≠ 0) := List.filter_cons_of_neg (by simpa using hnew)
      rw [hfilter] at hcount ⊢
      split_ifs with hdone
      · have hnil : es.filter (fun e => decide (e.2.nRefCount ≠ 0)) = [] := List.eq_nil_of_length_eq_zero (by omega)
        rw [hnil]
        exact ⟨rfl, fun k e h => (nomatch h), fun n _ => rfl⟩
      · obtain ⟨hbytes, hids, hother⟩ := @ih nIds (update mapUnkIds m nIds) hnodup.2 hcount
        refine ⟨hbytes, hids, fun n hn => ?_⟩
        rw [List.map_cons, List.mem_cons, not_or] at hn
        rw [hother n hn.2, update_of_ne hn.1]

theorem writeTriedEntries_spec {nTried : Int} {nIds : Nat}
    (hcount : ((nIds + (es.filter fun e => e.2.fInTried).length : Nat) : Int) = nTried) :
    writeTriedEntries nTried es nIds = (es.filter fun e => e.2.fInTried).flatMap fun e => e.2.serialize := by
  induction es generalizing nIds with
  | nil => rfl
  | cons e es ih =>
    obtain ⟨m, info⟩ := e
    rw [writeTriedEntries]
    by_cases htried : info.fInTried = true
    · have hfilter : ((m, info) :: es).filter (fun e => e.2.fInTried) = (m, info) :: es.filter fun e => e.2.fInTried :=
        List.filter_cons_of_pos htried
      rw [hfilter, List.length_cons] at hcount
      rw [hfilter, if_neg (by omega), if_pos htried, List.flatMap_cons, ih (by omega)]
    · have hfilter : ((m, info) :: es).filter (fun e => e.2.fInTried) = es.filter fun e => e.2.fInTried :=
        List.filter_cons_of_neg htried
      rw [hfilter] at hcount ⊢
      split_ifs with hdone
      · have hnil : es.filter (fun e => e.2.fInTried) = [] := List.eq_nil_of_length_eq_zero (by omega)
        rw [hnil]
        rfl
      · exact ih hcount

theorem mem_entries (hfresh : ∀ n, am.nIdCount ≤ n → am.mapInfo n = none) :
    (n, info) ∈ am.entries ↔ am.mapInfo n = some info := by
  rw [entries, List.mem_filterMap]
  constructor
  · rintro ⟨m, -, hm⟩
    obtain ⟨info', hinfo, heq⟩ := Option.map_eq_some_iff.mp hm
    obtain ⟨rfl, rfl⟩ := Prod.mk.inj heq
    exact hinfo
  · intro hinfo
    exact ⟨n, (mem_ids_iff hfresh).mpr ⟨info, hinfo, rfl⟩, by rw [hinfo]; rfl⟩

theorem map_entries_filter (p : CAddrInfo → Bool) : (am.entries.filter fun e => p e.2).map Prod.fst = am.ids p := by
  unfold entries ids
  induction List.range am.nIdCount with
  | nil => rfl
  | cons n ns ih =>
    cases hinfo : am.mapInfo n with
    | none =>
      rw [List.filter_cons_of_neg (by simp [hinfo]), List.filter_cons_of_neg (by simp [hinfo])]
      exact ih
    | some info =>
      rw [List.filter_cons_of_pos (by simp [hinfo]), List.filterMap_cons, hinfo, Option.map_some]
      dsimp only
      rw [List.filter_cons, List.filter_cons, hinfo, Option.any_some]
      cases p info with
      | true => exact congrArg (n :: ·) ih
      | false => exact ih

end Write

def placed (n : Nat) (info : CAddrInfo) : CAddrInfo := { info.stored with nRandomPos := n, fInTried := info.fInTried }

/-- The numbers of the tried entries that belong into a bucket. -/
def homes (env : AddrManEnv) (infos : List CAddrInfo) (b : Fin addrmanTriedBucketCount) : List Nat :=
  (List.range infos.length).filter fun n => (infos[n]?).any (isAtHome env b)

/-- The manager holds the entries of a list, whose numbers are their ids; no entry is in a new bucket yet. -/
structure Holds (env : AddrManEnv) (infos : List CAddrInfo) (am : CAddrMan) : Prop where
  info : ∀ n, am.mapInfo n = (infos[n]?).map (placed n)
  addr : ∀ a n, am.mapAddr a = some n ↔ ∃ info, infos[n]? = some info ∧ info.ip = a
  random : am.vRandom = List.range infos.length
  tried : ∀ b, am.vvTried b = homes env infos b
  new : ∀ b, am.vvNew b = ∅

section Rebuild

variable {env : AddrManEnv} {infos : List CAddrInfo} {am : CAddrMan} {info : CAddrInfo}

/-- The numbers of the elements with a property are as many as the elements. By induction from the right. -/
theorem length_filter_range {α : Type} (p : α → Bool) (xs : List α) :
    ((List.range xs.length).filter fun n => (xs[n]?).any p).length = xs.countP p := by
  induction xs using List.reverseRecOn with
  | nil => rfl
  | append_singleton xs x ih =>
    have hleft : (List.range xs.length).filter (fun n => ((xs ++ [x])[n]?).any p)
        = (List.range xs.length).filter fun n => (xs[n]?).any p := by
      refine List.filter_congr fun n hn => ?_
      rw [List.getElem?_append_left (List.mem_range.mp hn)]
    rw [List.length_append, List.length_singleton, List.range_succ, List.filter_append, List.length_append, hleft, ih,
      List.countP_append, List.filter_singleton, List.getElem?_concat_length, Option.any_some, List.countP_singleton]
    cases p x <;> rfl

theorem length_homes (b : Fin addrmanTriedBucketCount) : (homes env infos b).length = infos.countP (isAtHome env b) :=
  length_filter_range _ _

theorem mem_homes {b : Fin addrmanTriedBucketCount} :
    n ∈ homes env infos b ↔ ∃ info, infos[n]? = some info ∧ isAtHome env b info = true := by
  rw [homes, List.mem_filter, Option.any_eq_true, List.mem_range]
  constructor
  · exact fun h => h.2
  · rintro ⟨info, hinfo, hhome⟩
    exact ⟨(List.getElem?_eq_some_iff.mp hinfo).1, info, hinfo, hhome⟩

theorem homes_append (b : Fin addrmanTriedBucketCount) : homes env (infos ++ [info]) b
    = homes env infos b ++ if isAtHome env b info = true then [infos.length] else [] := by
  unfold homes
  rw [List.length_append, List.length_singleton, List.range_succ, List.filter_append]
  congr 1
  · refine List.filter_congr fun n hn => ?_
    rw [List.getElem?_append_left (List.mem_range.mp hn)]
  · rw [List.filter_singleton, List.getElem?_concat_length, Option.any_some]
    cases isAtHome env b info <;> rfl

theorem Holds.append (h : Holds env infos am) (hnew : info.ip ∉ infos.map fun info => info.ip) {am' : CAddrMan}
    (hinfo : am'.mapInfo = update am.mapInfo infos.length (some (placed infos.length info)))
    (haddr : am'.mapAddr = update am.mapAddr info.ip (some infos.length))
    (hrandom : am'.vRandom = am.vRandom ++ [infos.length])
    (htried : ∀ b, am'.vvTried b = homes env (infos ++ [info]) b) (hnone : am'.vvNew = am.vvNew) :
    Holds env (infos ++ [info]) am' where
  info n := by
    rw [hinfo, update_apply]
    split_ifs with hn
    · rw [hn, List.getElem?_concat_length]
      rfl
    · rw [h.info n]
      rcases Nat.lt_or_gt_of_ne hn with hlt | hgt
      · rw [List.getElem?_append_left hlt]
      · rw [List.getElem?_eq_none hgt.le, List.getElem?_eq_none (by rw [List.length_append]; exact hgt)]
  addr a n := by
    have hother : ∀ {info'}, infos[n]? = some info' → info'.ip ≠ info.ip := fun hget heq =>
      hnew (List.mem_map.mpr ⟨_, List.mem_of_getElem? hget, heq⟩)
    rw [haddr, update_apply]
    constructor
    · intro hn
      split_ifs at hn with ha
      · rw [← Option.some.inj hn]
        exact ⟨info, List.getElem?_concat_length, ha.symm⟩
      · obtain ⟨info', hget, hip⟩ := (h.addr a n).mp hn
        exact ⟨info', by rw [List.getElem?_append_left (List.getElem?_eq_some_iff.mp hget).1, hget], hip⟩
    · rintro ⟨info', hget, rfl⟩
      rcases Nat.lt_or_ge n infos.length with hlt | hge
      · rw [List.getElem?_append_left hlt] at hget
        rw [if_neg (hother hget)]
        exact (h.addr _ n).mpr ⟨info', hget, rfl⟩
      · have hn : n = infos.length := by
          have := (List.getElem?_eq_some_iff.mp hget).1
          rw [List.length_append, List.length_singleton] at this
          omega
        rw [hn, List.getElem?_concat_length] at hget
        rw [← Option.some.inj hget, if_pos rfl, hn]
  random := by rw [hrandom, h.random, List.length_append, List.length_singleton, List.range_succ]
  tried := htried
  new b := by rw [hnone, h.new b]

theorem Holds.length_random (h : Holds env infos am) : am.vRandom.length = infos.length := by
  rw [h.random, List.length_range]

theorem Holds.addNew (h : Holds env infos am) (hnew : info.ip ∉ infos.map fun info => info.ip)
    (htried : info.fInTried = false) :
    Holds env (infos ++ [info]) (addStoredNew env addrmanNewBucketCount am infos.length info.stored) := by
  have hsame : addStoredNew env addrmanNewBucketCount am infos.length info.stored = { am with
        mapInfo := update am.mapInfo infos.length (some (placed infos.length info))
        mapAddr := update am.mapAddr info.ip (some infos.length)
        vRandom := am.vRandom ++ [infos.length] } := by
    rw [addStoredNew, if_neg (not_not.mpr rfl), h.length_random, placed, htried]
    rfl
  rw [hsame]
  refine h.append hnew rfl rfl rfl (fun b => ?_) rfl
  rw [homes_append, if_neg (by simp [isAtHome, htried]), List.append_nil]
  exact h.tried b

theorem Holds.addTried (h : Holds env infos am) (hnew : info.ip ∉ infos.map fun info => info.ip)
    (htried : info.fInTried = true) (hcount : am.nIdCount = infos.length)
    (hroom : infos.countP (isAtHome env (info.toCService.getTriedBucket env)) < addrmanTriedBucketSize) (nLost : Int) :
    ∃ am', addStoredTried env (am, nLost) info.stored = (am', nLost) ∧ Holds env (infos ++ [info]) am' ∧
      am'.nIdCount = (infos ++ [info]).length ∧ am'.nNew = am.nNew ∧ am'.nTried = am.nTried := by
  have hlength : (am.vvTried (info.toCService.getTriedBucket env)).length < addrmanTriedBucketSize := by
    rwa [h.tried, length_homes]
  refine ⟨_, if_pos hlength, h.append hnew ?_ ?_ ?_ (fun b => ?_) rfl, ?_, rfl, rfl⟩
  · rw [hcount, h.length_random, placed, htried]
  · rw [hcount]
    rfl
  · rw [hcount]
  · show update am.vvTried (info.toCService.getTriedBucket env)
      (am.vvTried (info.toCService.getTriedBucket env) ++ [am.nIdCount]) b = _
    rw [homes_append, update_apply, hcount, ← h.tried b]
    by_cases hb : b = info.toCService.getTriedBucket env
    · rw [if_pos hb, if_pos (by simp [isAtHome, htried, hb]), hb]
    · rw [if_neg hb, if_neg (by simp [isAtHome, Ne.symm hb]), List.append_nil]
  · rw [List.length_append, List.length_singleton]
    exact congrArg (· + 1) hcount

theorem Holds.addTried_full (h : Holds env infos am)
    (hfull : ¬infos.countP (isAtHome env (info.toCService.getTriedBucket env)) < addrmanTriedBucketSize) (nLost : Int) :
    addStoredTried env (am, nLost) info.stored = (am, nLost + 1) := by
  refine if_neg ?_
  show ¬(am.vvTried (info.toCService.getTriedBucket env)).length < addrmanTriedBucketSize
  rwa [h.tried, length_homes]

/-- The loop over the new entries. By induction from the right. -/
theorem Holds.foldl_new (h : Holds env [] am) (hips : (infos.map fun info => info.ip).Nodup)
    (hnew : ∀ info ∈ infos, info.fInTried = false) : ∃ am', ((List.range infos.length).zip infos).foldl
        (fun am p => addStoredNew env addrmanNewBucketCount am p.1 p.2.stored) am = am' ∧
      Holds env infos am' ∧ am'.nNew = am.nNew ∧ am'.nTried = am.nTried := by
  refine ⟨_, rfl, ?_⟩
  induction infos using List.reverseRecOn with
  | nil => exact ⟨h, rfl, rfl⟩
  | append_singleton infos info ih =>
    rw [List.map_append, List.map_singleton, List.nodup_append] at hips
    have hfresh : info.ip ∉ infos.map fun info => info.ip := fun hmem =>
      hips.2.2 _ hmem _ (List.mem_singleton_self _) rfl
    obtain ⟨hheld, hnNew, hnTried⟩ := ih hips.1 fun info' hmem => hnew info' (List.mem_append_left _ hmem)
    rw [List.length_append, List.length_singleton, List.range_succ, List.zip_append (List.length_range),
      List.foldl_append]
    have hflag : info.fInTried = false := hnew info (List.mem_append_right _ (List.mem_singleton_self _))
    refine ⟨hheld.addNew hfresh hflag, ?_, ?_⟩
    · rw [← hnNew]
      rfl
    · rw [← hnTried]
      rfl

/-- The loop over the tried entries, from the front: an entry is kept where fewer than a bucketful of those before it
belong into its bucket. By induction from the right. -/
theorem Holds.foldl_tried (h : Holds env infos am) (hnone : ∀ info ∈ infos, info.fInTried = false)
    (hcount : am.nIdCount = infos.length) {kept : Nat × CAddrInfo → Bool}
    (hips : ((infos ++ es.map Prod.snd).map fun info => info.ip).Nodup) (htried : ∀ e ∈ es, e.2.fInTried = true)
    (hkept : ∀ pre e post, es = pre ++ e :: post → (kept e = true ↔
      pre.countP (fun x => isAtHome env (e.2.toCService.getTriedBucket env) x.2) < addrmanTriedBucketSize)) :
    ∃ am', (es.map Prod.snd).foldl (fun st info => addStoredTried env st info.stored) (am, 0)
        = (am', ((es.length - (es.filter kept).length : Nat) : Int)) ∧
      Holds env (infos ++ (es.filter kept).map Prod.snd) am' ∧
      am'.nIdCount = (infos ++ (es.filter kept).map Prod.snd).length ∧ am'.nNew = am.nNew ∧ am'.nTried = am.nTried ∧
      ∀ b, (es.filter kept).countP (fun x => isAtHome env b x.2)
        = min addrmanTriedBucketSize (es.countP fun x => isAtHome env b x.2) := by
  induction es using List.reverseRecOn with
  | nil =>
    refine ⟨am, rfl, ?_, ?_, rfl, rfl, fun b => rfl⟩
    · rwa [List.filter_nil, List.map_nil, List.append_nil]
    · rwa [List.filter_nil, List.map_nil, List.append_nil]
  | append_singleton es e ih =>
    have hsplit : infos ++ (es ++ [e]).map Prod.snd = (infos ++ es.map Prod.snd) ++ [e.2] := by
      rw [List.map_append, List.map_singleton, List.append_assoc]
    rw [hsplit, List.map_append, List.map_singleton, List.nodup_append] at hips
    obtain ⟨am', hfold, hheld, hids, hnNew, hnTried, hroom⟩ := ih hips.1
      (fun e' hmem => htried e' (List.mem_append_left _ hmem))
      (fun pre e' post heq => hkept pre e' (post ++ [e]) (by rw [heq, List.append_assoc, List.cons_append]))
    have hflag : e.2.fInTried = true := htried e (List.mem_append_right _ (List.mem_singleton_self _))
    have hfresh : e.2.ip ∉ (infos ++ (es.filter kept).map Prod.snd).map fun info => info.ip := by
      intro hmem
      refine hips.2.2 _ ?_ _ (List.mem_singleton_self _) rfl
      exact ((List.Sublist.refl infos).append ((List.filter_sublist).map _)).map _ |>.subset hmem
    have hplaces : (infos ++ (es.filter kept).map Prod.snd).countP (isAtHome env (e.2.toCService.getTriedBucket env))
        = min addrmanTriedBucketSize (es.countP fun x => isAtHome env (e.2.toCService.getTriedBucket env) x.2) := by
      have hzero : infos.countP (isAtHome env (e.2.toCService.getTriedBucket env)) = 0 :=
        List.countP_eq_zero.mpr fun info hmem => by simp [isAtHome, hnone info hmem]
      rw [List.countP_append, hzero, List.countP_map, zero_add]
      exact hroom _
    have hlast := hkept es e [] rfl
    have hshorter := (List.filter_sublist (p := kept) (l := es)).length_le
    rw [List.map_append, List.map_singleton, List.foldl_append, List.foldl_cons, List.foldl_nil, hfold,
      List.filter_append, List.filter_singleton, List.length_append, List.length_append, List.length_singleton]
    cases hkeep : kept e with
    | true =>
      have hbefore := hlast.mp hkeep
      obtain ⟨am'', hstep, hheld', hids', hnNew', hnTried'⟩ := hheld.addTried hfresh hflag hids
        (by rw [hplaces]; omega) ((es.length - (es.filter kept).length : Nat) : Int)
      rw [cond_true, List.map_append, List.map_singleton, ← List.append_assoc, List.length_singleton]
      refine ⟨am'', ?_, hheld', hids', hnNew'.trans hnNew, hnTried'.trans hnTried, fun b => ?_⟩
      · rw [hstep, Nat.add_sub_add_right]
      · rw [List.countP_append, List.countP_append, hroom b, List.countP_singleton]
        by_cases hb : e.2.toCService.getTriedBucket env = b
        · rw [hb] at hbefore
          rw [if_pos (by simp [isAtHome, hflag, hb])]
          omega
        · rw [if_neg (by simp [isAtHome, hb])]
          rfl
    | false =>
      have hfull : ¬es.countP (fun x => isAtHome env (e.2.toCService.getTriedBucket env) x.2) < addrmanTriedBucketSize :=
        fun hlt => by simp [hlast.mpr hlt] at hkeep
      rw [cond_false, List.append_nil, List.length_nil, Nat.add_zero]
      refine ⟨am', ?_, hheld, hids, hnNew, hnTried, fun b => ?_⟩
      · rw [hheld.addTried_full (by rw [hplaces]; omega)]
        congr 1
        omega
      · rw [hroom b, List.countP_append, List.countP_singleton]
        by_cases hb : e.2.toCService.getTriedBucket env = b
        · rw [hb] at hfull
          omega
        · rw [if_neg (by simp [isAtHome, hb])]
          rfl

end Rebuild

/-- The manager with these pairs of a bucket and an id in its new buckets. -/
def linked (am : CAddrMan) (places : List (Fin addrmanNewBucketCount × Nat)) : CAddrMan :=
  { am with
    mapInfo := fun n => (am.mapInfo n).map fun info => { info with nRefCount := (places.map Prod.snd).count n }
    vvNew := fun b => ((places.filter fun p => decide (p.1 = b)).map Prod.snd).toFinset }

section Link

variable {am : CAddrMan} {places : List (Fin addrmanNewBucketCount × Nat)}

theorem mem_linked : n ∈ (am.linked places).vvNew b ↔ (b, n) ∈ places := by
  show n ∈ ((places.filter fun p => decide (p.1 = b)).map Prod.snd).toFinset ↔ _
  rw [List.mem_toFinset, List.mem_map]
  constructor
  · rintro ⟨⟨b', n'⟩, hmem, rfl⟩
    obtain ⟨hplace, hb⟩ := List.mem_filter.mp hmem
    rwa [← of_decide_eq_true hb]
  · intro hplace
    exact ⟨(b, n), List.mem_filter.mpr ⟨hplace, decide_eq_true rfl⟩, rfl⟩

theorem addStoredIndex_linked (hknown : (am.mapInfo n).isSome)
    (hcount : ((places.map Prod.snd).count n : Int) < addrmanNewBucketsPerAddress) :
    addStoredIndex addrmanNewBucketCount b (am.linked places) n = am.linked (places ++ [(b, n)]) := by
  obtain ⟨info, hinfo⟩ := Option.isSome_iff_exists.mp hknown
  have hget : (am.linked places).mapInfo n = some { info with nRefCount := (places.map Prod.snd).count n } := by
    show (am.mapInfo n).map _ = _
    rw [hinfo, Option.map_some]
  rw [addStoredIndex, hget, Option.getD_some, if_pos ⟨rfl, hcount⟩, linked, linked, CAddrMan.mk.injEq]
  refine ⟨rfl, funext fun m => ?_, rfl, rfl, rfl, rfl, rfl, funext fun b' => ?_⟩
  · dsimp only
    rw [List.map_append, List.count_append, List.map_singleton, update_apply]
    split_ifs with hm
    · rw [hm, hinfo, Option.map_some, List.count_singleton_self]
      rfl
    · rw [List.count_singleton, if_neg (by simpa using Ne.symm hm), Nat.add_zero]
  · dsimp only
    rw [List.filter_append, List.map_append, List.toFinset_append, update_apply]
    split_ifs with hb
    · rw [List.filter_singleton, decide_eq_true hb.symm, hb, Finset.insert_eq, Finset.union_comm]
      rfl
    · rw [List.filter_singleton, decide_eq_false (Ne.symm hb)]
      exact (Finset.union_empty _).symm

/-- The loops over the new buckets. By induction from the right. -/
theorem foldl_addStoredIndex (hnone : ∀ b, am.vvNew b = ∅)
    (hrefs : ∀ n info, am.mapInfo n = some info → info.nRefCount = 0) (hknown : ∀ p ∈ places, (am.mapInfo p.2).isSome)
    (hcount : ∀ n, ((places.map Prod.snd).count n : Int) ≤ addrmanNewBucketsPerAddress) :
    places.foldl (fun am p => addStoredIndex addrmanNewBucketCount p.1 am p.2) am = am.linked places := by
  induction places using List.reverseRecOn with
  | nil =>
    rw [List.foldl_nil, linked]
    have hmap : (fun n => (am.mapInfo n).map fun info => { info with nRefCount := 0 }) = am.mapInfo := by
      funext n
      cases hinfo : am.mapInfo n with
      | none => rfl
      | some info => rw [Option.map_some, ← hrefs n info hinfo]
    have hnew : (fun _ => ∅) = am.vvNew := funext fun b => (hnone b).symm
    show am = { am with
      mapInfo := fun n => (am.mapInfo n).map fun info => { info with nRefCount := 0 }
      vvNew := fun _ => ∅ }
    rw [hmap, hnew]
  | append_singleton places p ih =>
    obtain ⟨b, n⟩ := p
    have hbound : ∀ m, ((places.map Prod.snd).count m : Int) ≤ addrmanNewBucketsPerAddress := by
      intro m
      have := hcount m
      rw [List.map_append, List.count_append] at this
      omega
    have hroom := hcount n
    rw [List.map_append, List.count_append, List.map_singleton, List.count_singleton_self] at hroom
    rw [List.foldl_append, ih (fun p hp => hknown p (List.mem_append_left _ hp)) hbound]
    have hless : ((places.map Prod.snd).count n : Int) < addrmanNewBucketsPerAddress := by omega
    exact addStoredIndex_linked (hknown (b, n) (List.mem_append_right _ (List.mem_singleton_self _))) hless

end Link

section Buckets

variable {mapUnkIds : Nat → Nat} {am : CAddrMan}

theorem foldl_zip_snd {α β σ : Type} (g : σ → β → σ) {is : List α} {items : List β} (h : is.length = items.length)
    (s : σ) : (is.zip items).foldl (fun s p => g s p.2) s = items.foldl g s := by
  rw [← List.foldl_map (f := Prod.snd) (g := g), List.map_snd_zip h.ge]

theorem readBucket_writeBucket (b : Fin addrmanNewBucketCount) {vNew : Finset Nat} (hsize : vNew.card < 2 ^ 31)
    (hids : ∀ n ∈ vNew, mapUnkIds n < 2 ^ 31) (rest : List UInt8) :
    readBucket addrmanNewBucketCount am b (writeBucket mapUnkIds vNew ++ rest)
      = (.ok ((vNew.sort (· ≤ ·)).foldl (fun am n => addStoredIndex addrmanNewBucketCount b am (mapUnkIds n)) am),
        rest) := by
  have hread : ∀ n : Nat, n < 2 ^ 31 → ∀ rest, readSigned 4 (ofInt 4 n ++ rest) = (.ok (n : Int), rest) := by
    intro n hn
    exact (faithful_signed 4).reads ⟨by omega, by omega⟩
  have hlength : (List.range vNew.card).length = (vNew.sort (· ≤ ·)).length := by
    rw [List.length_range, Finset.length_sort]
  have hstep : ∀ (i n : Nat), (i, n) ∈ (List.range vNew.card).zip (vNew.sort (· ≤ ·)) → ∀ (am : CAddrMan) rest, (do
        let nIndex ← readSigned 4
        if nIndex < 0 then Exec.stop "an id below zero"
        else return addStoredIndex addrmanNewBucketCount b am nIndex.toNat) (ofInt 4 (mapUnkIds n) ++ rest)
        = (.ok (addStoredIndex addrmanNewBucketCount b am (mapUnkIds n)), rest) := by
    intro i n hmem am rest
    have hn : n ∈ vNew := (Finset.mem_sort _).mp (List.of_mem_zip hmem).2
    rw [Exec.bind_of_ok (hread _ (hids n hn) _), if_neg (by omega), Int.toNat_natCast]
    rfl
  rw [readBucket, dif_pos b.isLt, writeBucket, List.append_assoc, Exec.bind_of_ok (hread _ hsize _), Int.toNat_natCast]
  refine (foldlM_reads hlength hstep am rest).trans ?_
  rw [foldl_zip_snd (fun am n => addStoredIndex addrmanNewBucketCount b am (mapUnkIds n)) hlength]

end Buckets

section Entries

variable {env : AddrManEnv} {am : CAddrMan} {n : Nat} {info : CAddrInfo}

theorem ids_true : am.entries.map Prod.fst = am.ids fun _ => true := by
  rw [← map_entries_filter, List.filter_true]

theorem pairwise_entries : am.entries.Pairwise fun e e' => e.1 < e'.1 := by
  rw [← List.pairwise_map, ids_true]
  exact List.pairwise_lt_range.filter _

theorem Checked.newEntries_eq (h : am.Checked) (hfresh : ∀ n, am.nIdCount ≤ n → am.mapInfo n = none) :
    am.newEntries = am.entries.filter fun e => !e.2.fInTried := by
  refine List.filter_congr fun e hmem => ?_
  have hentry := h.entry e.1 e.2 ((mem_entries hfresh).mp hmem)
  cases htried : e.2.fInTried with
  | true => simp [hentry.triedRefs htried]
  | false =>
    have := hentry.newRefs htried
    simp only [Bool.not_false, decide_eq_true_eq]
    omega

theorem Checked.length_newEntries (h : am.Checked) (hfresh : ∀ n, am.nIdCount ≤ n → am.mapInfo n = none) :
    (am.newEntries.length : Int) = am.nNew := by
  rw [h.newEntries_eq hfresh, ← h.newCount, ← map_entries_filter, List.length_map]

theorem Checked.length_triedEntries (h : am.Checked) : (am.triedEntries.length : Int) = am.nTried := by
  rw [← h.triedCount, ← map_entries_filter, List.length_map]
  rfl

theorem length_entries_le : am.entries.length ≤ am.nIdCount := by
  have hids : (am.ids fun _ => true).length ≤ am.nIdCount :=
    (List.length_filter_le _ _).trans (List.length_range (n := am.nIdCount)).le
  rwa [← ids_true, List.length_map] at hids

theorem isKept_iff {pre post : List (Nat × CAddrInfo)} (h : am.triedEntries = pre ++ e :: post) :
    am.isKept env e = true ↔
      pre.countP (fun x => isAtHome env (e.2.toCService.getTriedBucket env) x.2) < addrmanTriedBucketSize := by
  have hmem : e ∈ am.triedEntries := by
    rw [h]
    exact List.mem_append_right _ List.mem_cons_self
  have htried : e.2.fInTried = true := (List.mem_filter.mp hmem).2
  have hsorted : (pre ++ e :: post).Pairwise fun e e' => e.1 < e'.1 := h ▸ pairwise_entries.filter _
  rw [List.pairwise_append, List.pairwise_cons] at hsorted
  have hcount : am.triedBefore env e.1 (e.2.toCService.getTriedBucket env)
      = pre.countP fun x => isAtHome env (e.2.toCService.getTriedBucket env) x.2 := by
    have hall : am.triedBefore env e.1 (e.2.toCService.getTriedBucket env) = am.triedEntries.countP fun x =>
        decide (x.1 < e.1) && isAtHome env (e.2.toCService.getTriedBucket env) x.2 := by
      rw [triedBefore, triedEntries, List.countP_filter]
      refine List.countP_congr fun x _ => ?_
      simp only [isAtHome, Bool.and_eq_true, decide_eq_true_eq]
      constructor
      · exact fun ⟨hlt, hflag, hhome⟩ => ⟨⟨hlt, hflag, hhome⟩, hflag⟩
      · exact fun ⟨hleft, _⟩ => hleft
    have hpost : (e :: post).countP (fun x =>
        decide (x.1 < e.1) && isAtHome env (e.2.toCService.getTriedBucket env) x.2) = 0 := by
      refine List.countP_eq_zero.mpr fun x hx => ?_
      have hge : ¬x.1 < e.1 := by
        rcases List.mem_cons.mp hx with rfl | hx
        · exact lt_irrefl _
        · exact (hsorted.2.1.1 x hx).not_gt
      simp [hge]
    rw [hall, h, List.countP_append, hpost, Nat.add_zero]
    refine List.countP_congr fun x hx => ?_
    have hlt := hsorted.2.2 x hx e List.mem_cons_self
    simp [hlt]
  rw [isKept, htried, hcount]
  simp

theorem storedEntries_sublist : (am.storedEntries env).Sublist (am.newEntries ++ am.triedEntries) :=
  (List.Sublist.refl _).append List.filter_sublist

theorem mem_of_mem_stored (h : e ∈ am.newEntries ++ am.triedEntries) : e ∈ am.entries :=
  (List.mem_append.mp h).elim List.mem_of_mem_filter List.mem_of_mem_filter

section Numbers

variable (h : am.Checked) (hfresh : ∀ n, am.nIdCount ≤ n → am.mapInfo n = none)
include h hfresh

theorem Checked.new_of_mem_newEntries (hmem : e ∈ am.newEntries) : e.2.fInTried = false := by
  rw [h.newEntries_eq hfresh] at hmem
  simpa using (List.mem_filter.mp hmem).2

theorem Checked.nodup_ids : ((am.newEntries ++ am.triedEntries).map Prod.fst).Nodup := by
  have hnodup : (am.entries.map Prod.fst).Nodup := by
    rw [ids_true]
    exact List.nodup_range.filter _
  rw [List.map_append, List.nodup_append]
  refine ⟨hnodup.sublist (List.filter_sublist.map _), hnodup.sublist (List.filter_sublist.map _), ?_⟩
  intro n hnew m htried
  rintro rfl
  obtain ⟨⟨_, info⟩, hmem, rfl⟩ := List.mem_map.mp hnew
  obtain ⟨⟨_, info'⟩, hmem', hid⟩ := List.mem_map.mp htried
  have hflag := h.new_of_mem_newEntries hfresh hmem
  obtain ⟨hentry', hflag'⟩ := List.mem_filter.mp hmem'
  have hinfo := (mem_entries hfresh).mp (List.mem_of_mem_filter hmem)
  have hinfo' := (mem_entries hfresh).mp hentry'
  dsimp only at hid hflag hflag' hinfo
  rw [hid, hinfo] at hinfo'
  rw [← Option.some.inj hinfo', hflag] at hflag'
  exact nomatch hflag'

theorem Checked.nodup_ips : ((am.newEntries ++ am.triedEntries).map fun e => e.2.ip).Nodup := by
  refine (List.Nodup.of_map _ (h.nodup_ids hfresh)).map_on fun e he e' he' hip => ?_
  have hinfo := (mem_entries hfresh).mp (mem_of_mem_stored he)
  have hinfo' := (mem_entries hfresh).mp (mem_of_mem_stored he')
  have hid : e.1 = e'.1 := by
    rw [← (h.entry _ _ hinfo).addressed, ← (h.entry _ _ hinfo').addressed, hip]
  refine Prod.ext hid ?_
  rw [hid, hinfo'] at hinfo
  exact (Option.some.inj hinfo).symm

theorem Checked.exists_newEntry (hn : n ∈ am.vvNew b) :
    ∃ (k : Nat) (info : CAddrInfo), am.newEntries[k]? = some (n, info) := by
  have hplaces : 0 < am.newPlaces n := Buckets.places_pos hn
  have hnew := h.inNew n
  split_ifs at hnew with htried
  · omega
  · cases hinfo : am.mapInfo n with
    | none =>
      rw [refs, hinfo, Option.elim_none] at hnew
      omega
    | some info =>
      rw [refs_of hinfo] at hnew
      have hmem : (n, info) ∈ am.newEntries := by
        refine List.mem_filter.mpr ⟨(mem_entries hfresh).mpr hinfo, decide_eq_true ?_⟩
        dsimp only
        omega
      obtain ⟨k, hk⟩ := List.mem_iff_getElem?.mp hmem
      exact ⟨k, info, hk⟩

theorem Checked.newPlaces_eq (hmem : e ∈ am.newEntries) :
    (am.newPlaces e.1 : Int) = e.2.nRefCount := by
  have hinfo := (mem_entries hfresh).mp (List.mem_of_mem_filter hmem)
  rw [h.inNew, isTried_of hinfo, h.new_of_mem_newEntries hfresh hmem, if_neg (by simp), refs_of hinfo]

theorem Checked.number_inj {e' : Nat × CAddrInfo} (he : (am.storedEntries env)[j]? = some e)
    (he' : (am.storedEntries env)[k]? = some e') (hid : e.1 = e'.1) : j = k := by
  have hnodup : ((am.storedEntries env).map Prod.fst).Nodup :=
    (h.nodup_ids hfresh).sublist (storedEntries_sublist.map _)
  refine (List.getElem?_inj ?_ hnodup).mp ?_
  · rw [List.length_map]
    exact (List.getElem?_eq_some_iff.mp he).1
  · rw [List.getElem?_map, List.getElem?_map, he, he', Option.map_some, Option.map_some, hid]

end Numbers

end Entries

/-- The new buckets as they are stored: the pairs of a bucket and the number of an entry in it. -/
def storedPlaces (am : CAddrMan) (mapUnkIds : Nat → Nat) : List (Fin addrmanNewBucketCount × Nat) :=
  (List.finRange addrmanNewBucketCount).flatMap fun b => ((am.vvNew b).sort (· ≤ ·)).map fun n => (b, mapUnkIds n)

section Places

variable {am : CAddrMan} {mapUnkIds : Nat → Nat}

theorem mem_storedPlaces :
    (b, j) ∈ am.storedPlaces mapUnkIds ↔ ∃ n ∈ am.vvNew b, mapUnkIds n = j := by
  simp only [storedPlaces, List.mem_flatMap, List.mem_map, List.mem_finRange, true_and, Finset.mem_sort, Prod.mk.injEq]
  constructor
  · rintro ⟨b', n, hn, rfl, hj⟩
    exact ⟨n, hn, hj⟩
  · rintro ⟨n, hn, hj⟩
    exact ⟨b, n, hn, rfl, hj⟩

variable (h : am.Checked) (hfresh : ∀ n, am.nIdCount ≤ n → am.mapInfo n = none)
  (hids : ∀ (k : Nat) e, am.newEntries[k]? = some e → mapUnkIds e.1 = k)
include h hfresh hids

theorem Checked.count_storedPlaces (j : Nat) : (((am.storedPlaces mapUnkIds).map Prod.snd).count j : Int)
    = (am.newEntries[j]?).elim 0 fun e => e.2.nRefCount := by
  have hmap : (am.storedPlaces mapUnkIds).map Prod.snd = ((List.finRange addrmanNewBucketCount).flatMap fun b =>
      (am.vvNew b).sort (· ≤ ·)).map mapUnkIds := by
    rw [storedPlaces, List.map_flatMap, List.map_flatMap]
    refine List.flatMap_congr fun b _ => ?_
    rw [List.map_map]
    rfl
  have hnumber : ∀ n ∈ (List.finRange addrmanNewBucketCount).flatMap fun b => (am.vvNew b).sort (· ≤ ·),
      ∃ (k : Nat) (info : CAddrInfo), am.newEntries[k]? = some (n, info) ∧ mapUnkIds n = k := by
    intro n hn
    obtain ⟨b, -, hb⟩ := List.mem_flatMap.mp hn
    obtain ⟨k, info, hk⟩ := h.exists_newEntry hfresh ((Finset.mem_sort _).mp hb)
    exact ⟨k, info, hk, hids k _ hk⟩
  rw [hmap, List.count, List.countP_map]
  cases hj : am.newEntries[j]? with
  | none =>
    rw [Option.elim_none, Int.natCast_eq_zero, List.countP_eq_zero]
    intro n hn
    obtain ⟨k, info, hk, hnk⟩ := hnumber n hn
    have hne : ¬mapUnkIds n = j := by
      rintro heq
      rw [← heq, hnk, hk] at hj
      exact nomatch hj
    simpa using hne
  | some e =>
    rw [Option.elim_some, ← h.newPlaces_eq hfresh (List.mem_of_getElem? hj), ← count_flatMap_new, List.count]
    refine congrArg Nat.cast (List.countP_congr fun n hn => ?_)
    obtain ⟨k, info, hk, hnk⟩ := hnumber n hn
    rw [Function.comp_apply, beq_iff_eq, beq_iff_eq]
    constructor
    · intro heq
      rw [← heq, hnk, hk] at hj
      rw [← Option.some.inj hj]
    · rintro rfl
      exact hids j e hj

end Places

/-- The manager that is read: it has the entries of a list, with their numbers as ids. -/
structure Rebuilt (env : AddrManEnv) (es : List (Nat × CAddrInfo)) (am am' : CAddrMan) : Prop where
  nIdCount : am'.nIdCount = es.length
  info : ∀ j, am'.mapInfo j = (es[j]?).map fun e => { e.2 with nLastTry := 0, nRandomPos := j }
  addr : ∀ a j, am'.mapAddr a = some j ↔ ∃ e, es[j]? = some e ∧ e.2.ip = a
  random : am'.vRandom = List.range es.length
  tried : ∀ b, am'.vvTried b = homes env (es.map Prod.snd) b
  new : ∀ b j, j ∈ am'.vvNew b ↔ ∃ e, es[j]? = some e ∧ e.1 ∈ am.vvNew b
  nTried : am'.nTried = es.countP fun e => e.2.fInTried
  nNew : am'.nNew = es.countP fun e => !e.2.fInTried

section Read

variable {env : AddrManEnv} {am am' : CAddrMan}

theorem foldlM_newEntries (htypes : ∀ info ∈ infos, info.InTypes) (nUBuckets : Int)
    (rest : List UInt8) : ((List.range infos.length).foldlM (fun am n => do
        let info ← CAddrInfo.unserialize
        return addStoredNew env nUBuckets am n info) am : ReadM CAddrMan) (infos.flatMap CAddrInfo.serialize ++ rest)
      = (.ok (((List.range infos.length).zip infos).foldl
          (fun am p => addStoredNew env nUBuckets am p.1 p.2.stored) am), rest) := by
  have hstep : ∀ n info, (n, info) ∈ (List.range infos.length).zip infos → ∀ (am : CAddrMan) rest, (do
        let info ← CAddrInfo.unserialize
        return addStoredNew env nUBuckets am n info : ReadM CAddrMan) (info.serialize ++ rest)
        = (.ok (addStoredNew env nUBuckets am n info.stored), rest) := by
    intro n info hmem am rest
    rw [Exec.bind_of_ok (CAddrInfo.unserialize_serialize (htypes info (List.of_mem_zip hmem).2) rest)]
    rfl
  exact foldlM_reads List.length_range hstep am rest

theorem foldlM_triedEntries (htypes : ∀ info ∈ infos, info.InTypes) (st : CAddrMan × Int)
    (rest : List UInt8) : ((List.range infos.length).foldlM (fun st _ => do
        let info ← CAddrInfo.unserialize
        return addStoredTried env st info) st : ReadM (CAddrMan × Int)) (infos.flatMap CAddrInfo.serialize ++ rest)
      = (.ok (infos.foldl (fun st info => addStoredTried env st info.stored) st), rest) := by
  have hlength : (List.range infos.length).length = infos.length := List.length_range
  have hstep : ∀ (n : Nat) info, (n, info) ∈ (List.range infos.length).zip infos → ∀ (st : CAddrMan × Int) rest, (do
        let info ← CAddrInfo.unserialize
        return addStoredTried env st info : ReadM (CAddrMan × Int)) (info.serialize ++ rest)
        = (.ok (addStoredTried env st info.stored), rest) := by
    intro n info hmem st rest
    rw [Exec.bind_of_ok (CAddrInfo.unserialize_serialize (htypes info (List.of_mem_zip hmem).2) rest)]
    rfl
  rw [← foldl_zip_snd (fun st (info : CAddrInfo) => addStoredTried env st info.stored) hlength st]
  exact foldlM_reads hlength hstep st rest

theorem foldlM_buckets {mapUnkIds : Nat → Nat} {vvNew : Fin addrmanNewBucketCount → Finset Nat}
    (hsize : ∀ b, (vvNew b).card < 2 ^ 31) (hids : ∀ b, ∀ n ∈ vvNew b, mapUnkIds n < 2 ^ 31) (rest : List UInt8) :
    ((List.range addrmanNewBucketCount).foldlM (readBucket addrmanNewBucketCount) am : ReadM CAddrMan)
        (((List.finRange addrmanNewBucketCount).flatMap fun b => writeBucket mapUnkIds (vvNew b)) ++ rest)
      = (.ok ((List.finRange addrmanNewBucketCount).foldl (fun am b => ((vvNew b).sort (· ≤ ·)).foldl
          (fun am n => addStoredIndex addrmanNewBucketCount b am (mapUnkIds n)) am) am), rest) := by
  have hlength : (List.range addrmanNewBucketCount).length = (List.finRange addrmanNewBucketCount).length := by
    rw [List.length_range, List.length_finRange]
  have hstep : ∀ (i : Nat) b, (i, b) ∈ (List.range addrmanNewBucketCount).zip (List.finRange addrmanNewBucketCount) →
      ∀ (am : CAddrMan) rest,
      readBucket addrmanNewBucketCount am i (writeBucket mapUnkIds (vvNew b) ++ rest)
        = (.ok (((vvNew b).sort (· ≤ ·)).foldl
            (fun am n => addStoredIndex addrmanNewBucketCount b am (mapUnkIds n)) am), rest) := by
    intro i b hmem am rest
    have hi : i = b := by
      obtain ⟨k, hk⟩ := List.mem_iff_getElem?.mp hmem
      obtain ⟨hrange, hfin⟩ := List.getElem?_zip_eq_some.mp hk
      have hlt : k < addrmanNewBucketCount := by
        simpa using (List.getElem?_eq_some_iff.mp hrange).1
      rw [List.getElem?_range hlt] at hrange
      rw [List.getElem?_eq_getElem (by rwa [List.length_finRange]), List.getElem_finRange] at hfin
      exact (Option.some.inj hrange).symm.trans (congrArg Fin.val (Option.some.inj hfin))
    rw [hi]
    exact readBucket_writeBucket b (hsize b) (hids b) rest
  rw [← foldl_zip_snd (fun am (b : Fin addrmanNewBucketCount) => ((vvNew b).sort (· ≤ ·)).foldl
    (fun am n => addStoredIndex addrmanNewBucketCount b am (mapUnkIds n)) am) hlength am]
  exact foldlM_reads hlength hstep am rest

theorem Holds.empty (env : AddrManEnv) (nNew nTried : Int) : Holds env [] { empty with nNew, nTried } where
  info _ := rfl
  addr _ _ := ⟨fun h => (nomatch h), fun ⟨_, hget, _⟩ => (nomatch hget)⟩
  random := rfl
  tried _ := rfl
  new _ := rfl

theorem getElem?_storedEntries (h : am.newEntries[k]? = some e) :
    (am.storedEntries env)[k]? = some e := by
  rw [storedEntries, List.getElem?_append_left (List.getElem?_eq_some_iff.mp h).1, h]

theorem Checked.storedRefs (hchecked : am.Checked) (hfresh : ∀ n, am.nIdCount ≤ n → am.mapInfo n = none) (h : (am.storedEntries env)[j]? = some e) :
    ((am.newEntries[j]?).elim 0 fun e => e.2.nRefCount) = e.2.nRefCount := by
  rw [storedEntries] at h
  cases hnew : am.newEntries[j]? with
  | some e' =>
    rw [List.getElem?_append_left (List.getElem?_eq_some_iff.mp hnew).1, hnew] at h
    rw [Option.elim_some, Option.some.inj h]
  | none =>
    rw [List.getElem?_append_right (List.getElem?_eq_none_iff.mp hnew)] at h
    obtain ⟨hentry, htried⟩ := List.mem_filter.mp (List.mem_of_mem_filter (List.mem_of_getElem? h))
    exact ((hchecked.entry _ _ ((mem_entries hfresh).mp hentry)).triedRefs htried).symm

theorem Checked.countP_storedEntries (hchecked : am.Checked) (hfresh : ∀ n, am.nIdCount ≤ n → am.mapInfo n = none) :
    (am.storedEntries env).countP (fun e => e.2.fInTried) = (am.triedEntries.filter (am.isKept env)).length ∧
      (am.storedEntries env).countP (fun e => !e.2.fInTried) = am.newEntries.length := by
  have hnew : ∀ e ∈ am.newEntries, e.2.fInTried = false := fun e hmem => hchecked.new_of_mem_newEntries hfresh hmem
  have htried : ∀ e ∈ am.triedEntries.filter (am.isKept env), e.2.fInTried = true := fun e hmem =>
    (List.mem_filter.mp (List.mem_of_mem_filter hmem)).2
  rw [storedEntries, List.countP_append, List.countP_append]
  constructor
  · rw [List.countP_eq_zero.mpr fun e hmem => by simp [hnew e hmem], List.countP_eq_length.mpr htried, zero_add]
  · rw [List.countP_eq_length.mpr fun e hmem => by simp [hnew e hmem],
      List.countP_eq_zero.mpr fun e hmem => by simp [htried e hmem], add_zero]

theorem Holds.rebuilt (h : Holds env ((am.storedEntries env).map Prod.snd) am') (hchecked : am.Checked)
    (hfresh : ∀ n, am.nIdCount ≤ n → am.mapInfo n = none) {mapUnkIds : Nat → Nat}
    (hids : ∀ (k : Nat) e, am.newEntries[k]? = some e → mapUnkIds e.1 = k)
    (hcount : am'.nIdCount = (am.storedEntries env).length)
    (hnTried : am'.nTried = ((am.triedEntries.filter (am.isKept env)).length : Int))
    (hnNew : am'.nNew = am.newEntries.length) :
    (am.storedPlaces mapUnkIds).foldl (fun am p => addStoredIndex addrmanNewBucketCount p.1 am p.2) am'
        = am'.linked (am.storedPlaces mapUnkIds) ∧
      Rebuilt env (am.storedEntries env) am (am'.linked (am.storedPlaces mapUnkIds)) := by
  have hcounts := hchecked.count_storedPlaces hfresh hids
  have hinfo : ∀ j, am'.mapInfo j = ((am.storedEntries env)[j]?).map fun e => placed j e.2 := by
    intro j
    rw [h.info, List.getElem?_map, Option.map_map]
    rfl
  refine ⟨foldl_addStoredIndex h.new ?_ ?_ ?_, ⟨hcount, ?_, ?_, ?_, h.tried, ?_, ?_, ?_⟩⟩
  · intro n info hn
    rw [hinfo] at hn
    obtain ⟨e, -, rfl⟩ := Option.map_eq_some_iff.mp hn
    rfl
  · rintro ⟨b, j⟩ hmem
    obtain ⟨n, hn, rfl⟩ := mem_storedPlaces.mp hmem
    obtain ⟨k, info, hk⟩ := hchecked.exists_newEntry hfresh hn
    rw [hids k _ hk, hinfo, getElem?_storedEntries hk]
    rfl
  · intro j
    rw [hcounts]
    cases hj : am.newEntries[j]? with
    | none => decide
    | some e =>
      have hmem := List.mem_of_getElem? hj
      have hentry := hchecked.entry _ _ ((mem_entries hfresh).mp (List.mem_of_mem_filter hmem))
      exact (hentry.newRefs (hchecked.new_of_mem_newEntries hfresh hmem)).2
  · intro j
    show (am'.mapInfo j).map (fun info =>
      { info with nRefCount := (((am.storedPlaces mapUnkIds).map Prod.snd).count j : Int) }) = _
    rw [hinfo, Option.map_map, hcounts]
    cases hj : (am.storedEntries env)[j]? with
    | none => rfl
    | some e =>
      rw [Option.map_some, Option.map_some]
      rw [hchecked.storedRefs hfresh hj]
      rfl
  · intro a j
    show am'.mapAddr a = some j ↔ _
    rw [h.addr, List.getElem?_map]
    simp only [Option.map_eq_some_iff]
    constructor
    · rintro ⟨_, ⟨e, he, rfl⟩, hip⟩
      exact ⟨e, he, hip⟩
    · rintro ⟨e, he, hip⟩
      exact ⟨e.2, ⟨e, he, rfl⟩, hip⟩
  · show am'.vRandom = _
    rw [h.random, List.length_map]
  · intro b j
    rw [mem_linked, mem_storedPlaces]
    constructor
    · rintro ⟨n, hn, rfl⟩
      obtain ⟨k, info, hk⟩ := hchecked.exists_newEntry hfresh hn
      rw [hids k _ hk]
      exact ⟨(n, info), getElem?_storedEntries hk, hn⟩
    · rintro ⟨e, he, hn⟩
      obtain ⟨k, info, hk⟩ := hchecked.exists_newEntry hfresh hn
      refine ⟨e.1, hn, ?_⟩
      rw [hids k _ hk]
      exact hchecked.number_inj hfresh (getElem?_storedEntries hk) he rfl
  · show am'.nTried = _
    rw [hnTried, (hchecked.countP_storedEntries hfresh).1]
  · show am'.nNew = _
    rw [hnNew, (hchecked.countP_storedEntries hfresh).2]

theorem Representable.inTypes (hrep : am.Representable env) (hsub : ∀ e ∈ es, e ∈ am.entries) :
    ∀ info ∈ es.map Prod.snd, info.InTypes := by
  intro info hmem
  obtain ⟨e, he, rfl⟩ := List.mem_map.mp hmem
  exact hrep.entry e.1 e.2 ((mem_entries hrep.fresh).mp (hsub e he))

theorem Representable.nIdCount_lt (hrep : am.Representable env) : am.nIdCount < 2 ^ 31 := by
  have := hrep.nIdCount
  rw [intMax] at this
  omega

theorem Representable.length_lt (hrep : am.Representable env) :
    am.newEntries.length < 2 ^ 31 ∧ am.triedEntries.length < 2 ^ 31 := by
  have hentries : am.entries.length ≤ am.nIdCount := length_entries_le
  have hlt := hrep.nIdCount_lt
  exact ⟨((List.length_filter_le _ _).trans hentries).trans_lt hlt,
    ((List.length_filter_le _ _).trans hentries).trans_lt hlt⟩

section Stored

variable (h : am.Checked) (hrep : am.Representable env)
include h hrep

theorem Checked.written : (writeNewEntries am.nNew am.entries 0 fun _ => 0).1
      = (am.newEntries.map Prod.snd).flatMap CAddrInfo.serialize ∧
    (∀ (k : Nat) e, am.newEntries[k]? = some e → (writeNewEntries am.nNew am.entries 0 fun _ => 0).2 e.1 = k) ∧
    writeTriedEntries am.nTried am.entries 0 = (am.triedEntries.map Prod.snd).flatMap CAddrInfo.serialize := by
  have hnodup : (am.entries.map Prod.fst).Nodup := by
    rw [ids_true]
    exact List.nodup_range.filter _
  obtain ⟨hbytes, hids, -⟩ := @writeNewEntries_spec am.entries am.nNew 0 (fun _ => 0) hnodup
    (by rw [zero_add]; exact h.length_newEntries hrep.fresh)
  refine ⟨?_, fun k e hk => ?_, ?_⟩
  · rw [hbytes, List.flatMap_map]
    rfl
  · rw [hids k e hk, zero_add]
  · rw [writeTriedEntries_spec (by rw [zero_add]; exact h.length_triedEntries), List.flatMap_map]
    rfl

theorem Checked.new_infos : ∀ info ∈ am.newEntries.map Prod.snd, info.fInTried = false := by
  intro info hmem
  obtain ⟨e, he, rfl⟩ := List.mem_map.mp hmem
  exact h.new_of_mem_newEntries hrep.fresh he

theorem Checked.nodup_infos :
    ((am.newEntries.map Prod.snd ++ am.triedEntries.map Prod.snd).map fun info => info.ip).Nodup := by
  rw [List.map_append, List.map_map, List.map_map, ← List.map_append]
  exact h.nodup_ips hrep.fresh

theorem Checked.exists_readNew : ∃ am₁,
    (∀ rest, ((List.range (am.newEntries.map Prod.snd).length).foldlM (fun am n => do
        let info ← CAddrInfo.unserialize
        return addStoredNew env addrmanNewBucketCount am n info) { empty with nNew := am.nNew, nTried := am.nTried } :
          ReadM CAddrMan) ((am.newEntries.map Prod.snd).flatMap CAddrInfo.serialize ++ rest) = (.ok am₁, rest)) ∧
      Holds env (am.newEntries.map Prod.snd) am₁ ∧ am₁.nNew = am.nNew ∧ am₁.nTried = am.nTried := by
  have hips := h.nodup_infos hrep
  rw [List.map_append] at hips
  obtain ⟨am₁, hfold, hheld, hnNew, hnTried⟩ := (Holds.empty env am.nNew am.nTried).foldl_new
    (List.nodup_append.mp hips).1 (h.new_infos hrep)
  have htypes : ∀ info ∈ am.newEntries.map Prod.snd, info.InTypes := hrep.inTypes fun _ => List.mem_of_mem_filter
  refine ⟨am₁, fun rest => ?_, hheld, hnNew, hnTried⟩
  rw [foldlM_newEntries htypes, ← hfold]

theorem Checked.exists_readTried {am₁ : CAddrMan} (hheld : Holds env (am.newEntries.map Prod.snd) am₁)
    (hids : am₁.nIdCount = (am.newEntries.map Prod.snd).length) : ∃ am₂,
    (∀ rest, ((List.range (am.triedEntries.map Prod.snd).length).foldlM (fun st _ => do
        let info ← CAddrInfo.unserialize
        return addStoredTried env st info) (am₁, 0) : ReadM (CAddrMan × Int))
          ((am.triedEntries.map Prod.snd).flatMap CAddrInfo.serialize ++ rest)
        = (.ok (am₂, ((am.triedEntries.length - (am.triedEntries.filter (am.isKept env)).length : Nat) : Int)), rest)) ∧
      Holds env ((am.storedEntries env).map Prod.snd) am₂ ∧ am₂.nIdCount = (am.storedEntries env).length ∧
      am₂.nNew = am₁.nNew ∧ am₂.nTried = am₁.nTried := by
  have hkept : ∀ pre e post, am.triedEntries = pre ++ e :: post → (am.isKept env e = true ↔
      pre.countP (fun x => isAtHome env (e.2.toCService.getTriedBucket env) x.2) < addrmanTriedBucketSize) :=
    fun pre e post heq => isKept_iff heq
  obtain ⟨am₂, hfold, hheld₂, hids₂, hnNew, hnTried, -⟩ := hheld.foldl_tried (h.new_infos hrep) hids
    (h.nodup_infos hrep) (fun e he => (List.mem_filter.mp he).2) hkept
  rw [← List.map_append] at hheld₂ hids₂
  have htypes : ∀ info ∈ am.triedEntries.map Prod.snd, info.InTypes := hrep.inTypes fun _ => List.mem_of_mem_filter
  refine ⟨am₂, fun rest => ?_, hheld₂, hids₂.trans (List.length_map _), hnNew, hnTried⟩
  rw [foldlM_triedEntries htypes, hfold]

theorem Checked.card_vvNew_lt (b : Fin addrmanNewBucketCount) : (am.vvNew b).card < 2 ^ 31 := by
  have hsub : am.vvNew b ⊆ Finset.range am.nIdCount := by
    intro n hn
    obtain ⟨k, info, hk⟩ := h.exists_newEntry hrep.fresh hn
    have hinfo := (mem_entries hrep.fresh).mp (List.mem_of_mem_filter (List.mem_of_getElem? hk))
    rw [Finset.mem_range]
    by_contra hge
    rw [hrep.fresh n (Nat.le_of_not_lt hge)] at hinfo
    exact nomatch hinfo
  have hle := Finset.card_le_card hsub
  rw [Finset.card_range] at hle
  exact hle.trans_lt (hrep.nIdCount_lt)

theorem Checked.exists_rebuilt (rest : List UInt8) :
    ∃ am', unserialize env (am.serialize env ++ rest) = (.ok (env.nKey, am'), rest) ∧
      Rebuilt env (am.storedEntries env) am am' := by
  have hnNew := h.length_newEntries hrep.fresh
  have hnTried := h.length_triedEntries
  obtain ⟨hnewLt, htriedLt⟩ := hrep.length_lt
  obtain ⟨hnewBytes, hnumbers, htriedBytes⟩ := h.written hrep
  generalize hmap : (writeNewEntries am.nNew am.entries 0 fun _ => 0).2 = mapUnkIds at hnumbers
  have hcountNew : am.nNew.toNat = (am.newEntries.map Prod.snd).length := by
    rw [List.length_map]
    omega
  have hcountTried : am.nTried.toNat = (am.triedEntries.map Prod.snd).length := by
    rw [List.length_map]
    omega
  -- each loop goes on from the manager that the one before it has left
  obtain ⟨am₁, hread₁, hheld₁, hnNew₁, hnTried₁⟩ := h.exists_readNew hrep
  have hheld₁' : Holds env (am.newEntries.map Prod.snd) { am₁ with nIdCount := am.nNew.toNat } :=
    ⟨hheld₁.info, hheld₁.addr, hheld₁.random, hheld₁.tried, hheld₁.new⟩
  obtain ⟨am₂, hread₂, hheld₂, hids₂, hnNew₂, hnTried₂⟩ := h.exists_readTried hrep hheld₁' hcountNew
  have hkeptLe : (am.triedEntries.filter (am.isKept env)).length ≤ am.triedEntries.length := List.length_filter_le _ _
  have hheld₂' : Holds env ((am.storedEntries env).map Prod.snd) { am₂ with
      nTried := am₂.nTried
        - ((am.triedEntries.length - (am.triedEntries.filter (am.isKept env)).length : Nat) : Int) } :=
    ⟨hheld₂.info, hheld₂.addr, hheld₂.random, hheld₂.tried, hheld₂.new⟩
  have hleft : am₂.nTried - ((am.triedEntries.length - (am.triedEntries.filter (am.isKept env)).length : Nat) : Int)
      = ((am.triedEntries.filter (am.isKept env)).length : Int) := by
    rw [hnTried₂, hnTried₁]
    omega
  obtain ⟨hfold, hrebuilt⟩ := hheld₂'.rebuilt h hrep.fresh hnumbers hids₂ hleft
    ((hnNew₂.trans hnNew₁).trans hnNew.symm)
  have hnumberLt : ∀ b, ∀ n ∈ am.vvNew b, mapUnkIds n < 2 ^ 31 := by
    intro b n hn
    obtain ⟨k, info, hk⟩ := h.exists_newEntry hrep.fresh hn
    rw [hnumbers k _ hk]
    exact (List.getElem?_eq_some_iff.mp hk).1.trans hnewLt
  refine ⟨_, ?_, hrebuilt⟩
  have hint : ∀ {z : Int}, InRange 4 z → ∀ rest, readSigned 4 (ofInt 4 z ++ rest) = (.ok z, rest) :=
    fun hz => (faithful_signed 4).reads hz
  have hversion : ∀ rest, readData 1 ([0] ++ rest) = (.ok [0], rest) := (faithful_readData 1).reads rfl
  have hkey : ∀ rest, readBytes (writeBytes env.nKey ++ rest) = (.ok env.nKey, rest) := faithful_bytes.reads hrep.nKey
  rw [unserialize, serialize]
  simp only [List.append_assoc]
  rw [Exec.bind_of_ok (hversion _), Exec.bind_of_ok (hkey _), Exec.bind_of_ok (hint ⟨by omega, by omega⟩ _),
    Exec.bind_of_ok (hint ⟨by omega, by omega⟩ _), Exec.bind_of_ok (hint (by decide) _), hnewBytes, htriedBytes, hmap,
    hcountTried, congrArg List.range hcountNew, Int.toNat_natCast]
  refine (Exec.bind_of_ok (hread₁ _) _).trans ?_
  refine (Exec.bind_of_ok (hread₂ _) _).trans ?_
  refine (Exec.bind_of_ok (foldlM_buckets (h.card_vvNew_lt hrep) hnumberLt _) _).trans ?_
  rw [← hfold, storedPlaces, List.foldl_flatMap]
  simp only [List.foldl_map]
  rfl

end Stored

end Read

section Relocate

variable {env : AddrManEnv} {am am' : CAddrMan}

theorem Rebuilt.fresh (hr : Rebuilt env es am am') :
    ∀ n, am'.nIdCount ≤ n → am'.mapInfo n = none := by
  intro n hn
  rw [hr.nIdCount] at hn
  rw [hr.info, List.getElem?_eq_none hn, Option.map_none]

theorem Rebuilt.length_ids (hr : Rebuilt env es am am') {p : CAddrInfo → Bool}
    (hp : ∀ (n : Nat) (info : CAddrInfo), p { info with nLastTry := 0, nRandomPos := n } = p info) :
    (am'.ids p).length = es.countP fun e => p e.2 := by
  rw [← length_filter_range, ids, hr.nIdCount]
  refine congrArg List.length (List.filter_congr fun n _ => ?_)
  rw [hr.info, Option.any_map]
  congr 1
  funext e
  exact hp n e.2

theorem mem_entries_of_get (hfresh : ∀ n, am.nIdCount ≤ n → am.mapInfo n = none)
    (hj : (am.storedEntries env)[j]? = some e) : am.mapInfo e.1 = some e.2 :=
  (mem_entries hfresh).mp (mem_of_mem_stored (storedEntries_sublist.subset (List.mem_of_getElem? hj)))

theorem total_homes (j : Nat) :
    Buckets.total (List.count j) (homes env infos) = if (infos[j]?).any CAddrInfo.fInTried = true then 1 else 0 := by
  have hcount : ∀ b, (homes env infos b).count j = if (infos[j]?).any (isAtHome env b) = true then 1 else 0 := by
    intro b
    rw [(show (homes env infos b).Nodup from List.nodup_range.filter _).count, if_congr mem_homes rfl rfl]
    simp only [Option.any_eq_true]
  rw [Buckets.total]
  simp only [hcount]
  cases infos[j]? with
  | none => simp
  | some info =>
    simp only [Option.any_some, isAtHome, Bool.and_eq_true, decide_eq_true_eq]
    by_cases htried : info.fInTried = true
    · simp [htried]
    · simp [htried]

theorem Rebuilt.checked (hr : Rebuilt env (am.storedEntries env) am am') (h : am.Checked)
    (hfresh : ∀ n, am.nIdCount ≤ n → am.mapInfo n = none) : am'.Checked where
  counted := by
    have hsplit := List.length_eq_countP_add_countP (fun e : Nat × CAddrInfo => e.2.fInTried) (l := am.storedEntries env)
    rw [hr.random, List.length_range, hr.nTried, hr.nNew, hsplit]
    push_cast
    simp
  entry j info' hinfo' := by
    rw [hr.info, Option.map_eq_some_iff] at hinfo'
    obtain ⟨e, he, rfl⟩ := hinfo'
    have hentry := h.entry _ _ (mem_entries_of_get hfresh he)
    refine ⟨hentry.success, hentry.triedRefs, hentry.newRefs, ?_, ⟨j, rfl, ?_⟩, le_refl _, hentry.lastSuccess⟩
    · rw [(hr.addr e.2.ip j).mpr ⟨e, he, rfl⟩, Option.getD_some]
    · rw [hr.random, List.getElem?_range (List.getElem?_eq_some_iff.mp he).1]
  triedCount := by rw [hr.length_ids fun _ _ => rfl, hr.nTried]
  newCount := by rw [hr.length_ids fun _ _ => rfl, hr.nNew]
  inTried j := by
    have hflag : am'.isTried j = (((am.storedEntries env).map Prod.snd)[j]?).any CAddrInfo.fInTried := by
      rw [isTried, hr.info, List.getElem?_map, Option.any_map, Option.any_map]
    rw [Buckets.total_congr (fun b => by rw [hr.tried b]), total_homes, hflag]
  inNew j := by
    rw [isTried, refs, hr.info]
    cases hj : (am.storedEntries env)[j]? with
    | none =>
      have hplaces : am'.newPlaces j = 0 := by
        rw [newPlaces, Buckets.places_eq_zero]
        intro b hmem
        obtain ⟨e, he, -⟩ := (hr.new b j).mp hmem
        rw [hj] at he
        cases he
      rw [hplaces]
      rfl
    | some e =>
      have hplaces : am'.newPlaces j = am.newPlaces e.1 := by
        rw [newPlaces, newPlaces, Buckets.places, Buckets.places]
        refine Buckets.total_congr fun b => ?_
        have hiff : j ∈ am'.vvNew b ↔ e.1 ∈ am.vvNew b := by
          rw [hr.new, hj]
          simp
        rw [if_congr hiff rfl rfl]
      have hnew := h.inNew e.1
      have hinfo := mem_entries_of_get hfresh hj
      rw [isTried_of hinfo, refs_of hinfo] at hnew
      rw [hplaces, hnew]
      rfl

theorem exists_number (hfresh : ∀ n, am.nIdCount ≤ n → am.mapInfo n = none)
    (h : am.Checked) (hinfo : am.mapInfo n = some info)
    (hkept : am.isKept env (n, info) = true) : ∃ k : Nat, (am.storedEntries env)[k]? = some (n, info) := by
  rw [← List.mem_iff_getElem?, storedEntries, List.mem_append]
  have hmem : (n, info) ∈ am.entries := (mem_entries hfresh).mpr hinfo
  cases htried : info.fInTried with
  | true => exact .inr (List.mem_filter.mpr ⟨List.mem_filter.mpr ⟨hmem, htried⟩, hkept⟩)
  | false =>
    rw [h.newEntries_eq hfresh]
    exact .inl (List.mem_filter.mpr ⟨hmem, by simp [htried]⟩)

theorem Rebuilt.relocated (hr : Rebuilt env (am.storedEntries env) am am') (h : am.Checked)
    (hfresh : ∀ n, am.nIdCount ≤ n → am.mapInfo n = none) :
    Relocated env am am' fun n => ((am.storedEntries env).map Prod.fst).idxOf n := by
  have hnumber : ∀ {n info}, am.mapInfo n = some info → am.isKept env (n, info) = true →
      (am.storedEntries env)[((am.storedEntries env).map Prod.fst).idxOf n]? = some (n, info) := by
    intro n info hinfo hkept
    obtain ⟨k, hk⟩ := exists_number hfresh h hinfo hkept
    have hmem : n ∈ (am.storedEntries env).map Prod.fst := List.mem_map.mpr ⟨_, List.mem_of_getElem? hk, rfl⟩
    have hget := List.getElem?_idxOf hmem
    rw [List.getElem?_map, Option.map_eq_some_iff] at hget
    obtain ⟨e, he, hid⟩ := hget
    rw [he, ← hk, ← he, h.number_inj hfresh he hk hid]
  refine ⟨?_, ?_, ?_, ?_, ?_⟩
  · intro n info hinfo hkept
    rw [hr.info, hnumber hinfo hkept]
    rfl
  · intro m info' hinfo'
    rw [hr.info, Option.map_eq_some_iff] at hinfo'
    obtain ⟨⟨n, info⟩, he, -⟩ := hinfo'
    have hinfo := mem_entries_of_get hfresh he
    have hkept : am.isKept env (n, info) = true := by
      have hmem := List.mem_of_getElem? he
      rw [storedEntries, List.mem_append] at hmem
      rcases hmem with hnew | htried
      · rw [isKept, h.new_of_mem_newEntries hfresh hnew]
        rfl
      · exact (List.mem_filter.mp htried).2
    exact ⟨n, info, hinfo, hkept, h.number_inj hfresh (hnumber hinfo hkept) he rfl⟩
  · intro n n' info info' hinfo hkept hinfo' hkept' heq
    have hn := hnumber hinfo hkept
    rw [heq, hnumber hinfo' hkept'] at hn
    exact (congrArg Prod.fst (Option.some.inj hn)).symm
  · intro n info b hinfo hkept
    rw [hr.new, hnumber hinfo hkept]
    simp
  · intro n info b hinfo hkept
    rw [hr.tried, mem_homes, List.getElem?_map, hnumber hinfo hkept]
    simp

theorem Checked.exists_tried (h : am.Checked) (hinfo : am.mapInfo n = some info) :
    info.fInTried = true ↔ ∃ b, n ∈ am.vvTried b := by
  have htotal := h.inTried n
  rw [isTried_of hinfo] at htotal
  constructor
  · intro htried
    rw [if_pos htried] at htotal
    by_contra hnone
    rw [not_exists] at hnone
    have hzero : Buckets.total (List.count n) am.vvTried = 0 :=
      Buckets.total_eq_zero.mpr fun b => List.count_eq_zero.mpr (hnone b)
    omega
  · rintro ⟨b, hmem⟩
    have hpos : 0 < (am.vvTried b).count n := List.count_pos_iff.mpr hmem
    have hle := Buckets.le_total (List.count n) am.vvTried b
    by_contra hnot
    rw [if_neg hnot] at htotal
    omega

theorem Housed.isAtHome_iff (hh : Housed env am) (h : am.Checked)
    (hinfo : am.mapInfo n = some info) (b : Fin addrmanTriedBucketCount) :
    isAtHome env b info = true ↔ n ∈ am.vvTried b := by
  rw [isAtHome, Bool.and_eq_true, decide_eq_true_eq, h.exists_tried hinfo]
  constructor
  · rintro ⟨⟨b', hmem⟩, hhome⟩
    rwa [← hhome, hh.home b' n info hmem hinfo]
  · intro hmem
    exact ⟨⟨b, hmem⟩, hh.home b n info hmem hinfo⟩

theorem Housed.isKept (hh : Housed env am) (h : am.Checked) (hfresh : ∀ n, am.nIdCount ≤ n → am.mapInfo n = none) (hinfo : am.mapInfo n = some info) : am.isKept env (n, info) = true := by
  cases htried : info.fInTried with
  | false => rw [CAddrMan.isKept, htried, Bool.not_false, Bool.true_or]
  | true =>
    rw [CAddrMan.isKept, htried, Bool.not_true, Bool.false_or, decide_eq_true_eq]
    have hself : isAtHome env (info.toCService.getTriedBucket env) info = true := by simp [isAtHome, htried]
    generalize info.toCService.getTriedBucket env = b at hself
    have hhome : (am.entries.filter fun e => isAtHome env b e.2).length ≤ (am.vvTried b).length := by
      rw [← List.length_map (f := Prod.fst)]
      have hnodup : ((am.entries.filter fun e => isAtHome env b e.2).map Prod.fst).Nodup := by
        rw [map_entries_filter]
        exact List.nodup_range.filter _
      refine (hnodup.subperm fun m hm => ?_).length_le
      obtain ⟨e, he, rfl⟩ := List.mem_map.mp hm
      obtain ⟨hentry, hhome⟩ := List.mem_filter.mp he
      exact (hh.isAtHome_iff h ((mem_entries hfresh).mp hentry) b).mp hhome
    have hless : am.triedBefore env n b < (am.entries.filter fun e => isAtHome env b e.2).length := by
      rw [triedBefore, List.countP_eq_length_filter, ← List.filter_filter, List.length_filter_lt_length_iff_exists]
      exact ⟨(n, info), List.mem_filter.mpr ⟨(mem_entries hfresh).mpr hinfo, hself⟩, by simp⟩
    exact hless.trans_le (hhome.trans (hh.size b))

end Relocate

end CAddrMan

/-- **The address manager is read back from what it has written**: the key, the addresses with what is stored of them,
and the new buckets of each. The tried entries come back in the buckets that they belong into, as many as there is room
for in the order of their ids: all of them, and in the same buckets, where they are housed so. -/
theorem addrMan_roundTrip (env : AddrManEnv) (am : CAddrMan) (rest : List UInt8) (hrep : am.Representable env)
    (hcheck : am.check = 0) :
    ∃ am' newId, CAddrMan.unserialize env (am.serialize env ++ rest) = (.ok (env.nKey, am'), rest) ∧
      am'.check = 0 ∧ CAddrMan.Relocated env am am' newId ∧
      (CAddrMan.Housed env am → ∀ n info, am.mapInfo n = some info →
        am.isKept env (n, info) = true ∧ ∀ b, newId n ∈ am'.vvTried b ↔ n ∈ am.vvTried b) := by
  have h := (CAddrMan.check_eq_zero_iff hrep.fresh).mp hcheck
  obtain ⟨am', hread, hr⟩ := h.exists_rebuilt hrep rest
  have hrelocated := hr.relocated h hrep.fresh
  refine ⟨am', _, hread, (CAddrMan.check_eq_zero_iff hr.fresh).mpr (hr.checked h hrep.fresh), hrelocated, ?_⟩
  intro hh n info hinfo
  have hkept := hh.isKept h hrep.fresh hinfo
  refine ⟨hkept, fun b => ?_⟩
  rw [hrelocated.tried n info b hinfo hkept, hh.isAtHome_iff h hinfo b]

namespace Sample

def triedPeer (nKBucket : Nat) : CAddrMan where
  nIdCount := 1
  mapInfo := fun n => if n = 0 then
      some { (peer 1).toInfo 5 with nLastSuccess := 1000100, nLastTry := 1000100, fInTried := true, nRandomPos := 0 }
    else none
  mapAddr := fun a => if a = 1 then some 0 else none
  vRandom := [0]
  nTried := 1
  vvTried := fun b => if b = nKBucket then [0] else []
  nNew := 0
  vvNew := fun _ => ∅

theorem triedPeer_representable (nKBucket : Nat) : (triedPeer nKBucket).Representable peerEnv where
  fresh n hn := if_neg (Nat.ne_of_gt hn)
  nIdCount := show (1 : Int) ≤ intMax by decide
  nKey := by decide
  entry n info hinfo := by
    obtain ⟨-, heq⟩ := Option.ite_none_right_eq_some.mp hinfo
    rw [← Option.some.inj heq]
    exact ⟨by decide, by decide⟩

/-- A tried entry and a new one with two references; the id between theirs is free. -/
def twoPeers : CAddrMan where
  nIdCount := 3
  mapInfo := fun n =>
    if n = 0 then
      some { (peer 1).toInfo 5 with nLastSuccess := 1000100, nLastTry := 1000100, fInTried := true, nRandomPos := 1 }
    else if n = 2 then some { (peer 2).toInfo 6 with nRefCount := 2, nRandomPos := 0 }
    else none
  mapAddr := fun a => if a = 1 then some 0 else if a = 2 then some 2 else none
  vRandom := [2, 0]
  nTried := 1
  vvTried := fun b => if b.val = 7 then [0] else []
  nNew := 1
  vvNew := fun b => if b.val = 4 ∨ b.val = 9 then {2} else ∅

theorem twoPeers_representable : twoPeers.Representable peerEnv where
  fresh n hn := by
    have hn' : 3 ≤ n := hn
    exact (if_neg (by omega)).trans (if_neg (by omega))
  nIdCount := show (3 : Int) ≤ intMax by decide
  nKey := by decide
  entry n info hinfo := by
    dsimp only [twoPeers] at hinfo
    split_ifs at hinfo
    · rw [← Option.some.inj hinfo]
      exact ⟨by decide, by decide⟩
    · rw [← Option.some.inj hinfo]
      exact ⟨by decide, by decide⟩

theorem addrMan_roundTrip_twoPeers : ∃ am' newId,
    CAddrMan.unserialize peerEnv (twoPeers.serialize peerEnv ++ [1, 2]) = (.ok ([], am'), [1, 2]) ∧
      am'.check = 0 ∧ CAddrMan.Relocated peerEnv twoPeers am' newId ∧
      (CAddrMan.Housed peerEnv twoPeers → ∀ n info, twoPeers.mapInfo n = some info →
        twoPeers.isKept peerEnv (n, info) = true ∧ ∀ b, newId n ∈ am'.vvTried b ↔ n ∈ twoPeers.vvTried b) :=
  addrMan_roundTrip peerEnv twoPeers [1, 2] twoPeers_representable (by decide +kernel)

/-- `Check_` does not look where a tried entry belongs. Elsewhere it is moved on reading; and the time of the last
attempt to connect is not stored. -/
theorem triedPeer_moves : (triedPeer 3).check = 0 ∧ 0 ∈ (triedPeer 3).vvTried ⟨3, by decide⟩ ∧
    ((triedPeer 3).mapInfo 0).map (fun info => info.nLastTry) = some 1000100 ∧
    ∃ am', CAddrMan.unserialize peerEnv ((triedPeer 3).serialize peerEnv ++ []) = (.ok ([], am'), []) ∧
      (∀ n, n ∉ am'.vvTried ⟨3, by decide⟩) ∧ ∀ n info, am'.mapInfo n = some info → info.nLastTry = 0 := by
  have hcheck : (triedPeer 3).check = 0 := by decide +kernel
  have hrep := triedPeer_representable 3
  obtain ⟨am', hread, hr⟩ := ((CAddrMan.check_eq_zero_iff hrep.fresh).mp hcheck).exists_rebuilt hrep []
  refine ⟨hcheck, by decide, rfl, am', hread, fun n => ?_, fun n info hinfo => ?_⟩
  · have hhomes : CAddrMan.homes peerEnv (((triedPeer 3).storedEntries peerEnv).map Prod.snd) ⟨3, by decide⟩ = [] := by
      decide +kernel
    rw [hr.tried, hhomes]
    exact List.not_mem_nil
  · rw [hr.info, Option.map_eq_some_iff] at hinfo
    obtain ⟨e, -, rfl⟩ := hinfo
    rfl

end Sample

end PupaCoin
