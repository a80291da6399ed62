import PupaCoin.Wallet.Proofs.WalletRecordsProofs
import PupaCoin.Wallet.ReorderTransactions

/-!
# Proofs: the order that `ReorderTransactions` makes

The positions that the loop gives are the numbers of `Renumber`, for the listed items in the order of their times. They
make a strict order where the positions are spaced and the entries that are not listed fit in.
-/

namespace PupaCoin

variable {strAccount : StdString} {n : UInt64} {l : List Int} {acentry : CAccountingEntry} {a : OrderedItem} {p : Int}
  {wtxs : List StoredTx}

open Renumber

/-- What the keys of the entries without an account begin with. -/
def noAccountPrefix : List UInt8 := writeString (stdString "acentry") ++ [0]

theorem head_writeCompactSize (n : Nat) : ∃ b, (writeCompactSize (n + 1)).head? = some b ∧ b ≠ 0 := by
  unfold writeCompactSize
  split_ifs with h
  · refine ⟨_, rfl, fun hzero => ?_⟩
    have hbyte := congrArg UInt8.toNat hzero
    rw [UInt8.toNat_ofNat', Nat.mod_eq_of_lt (by omega)] at hbyte
    exact absurd hbyte (Nat.succ_ne_zero n)
  · exact ⟨253, rfl, by decide⟩
  · exact ⟨254, rfl, by decide⟩
  · exact ⟨255, rfl, by decide⟩

theorem noAccountPrefix_prefix_iff : noAccountPrefix <+: accountingKey strAccount n ↔ strAccount = [] := by
  rw [noAccountPrefix, accountingKey, List.append_assoc, List.prefix_append_right_inj]
  constructor
  · intro h
    cases strAccount with
    | nil => rfl
    | cons c strAccount =>
      obtain ⟨rest, hrest⟩ := h
      obtain ⟨b, hb, hne⟩ := head_writeCompactSize strAccount.length
      have hhead := congrArg List.head? hrest.symm
      rw [writeString, List.length_cons, List.append_assoc, List.head?_append, hb] at hhead
      exact absurd (Option.some.inj hhead) hne
  · rintro rfl
    exact ⟨_, rfl⟩

theorem not_lt_zeros {l : List UInt8} {k : Nat} (h : l.length = k) : ¬ l < List.replicate k 0 := by
  induction l generalizing k with
  | nil =>
    rw [← h]
    exact List.not_lt_nil []
  | cons b l ih =>
    rw [← h, List.length_cons, List.replicate_succ, List.cons_lt_cons_iff]
    rintro (hlt | ⟨-, hlt⟩)
    · exact absurd hlt (not_lt.mpr (UInt8.zero_le))
    · exact ih rfl hlt

theorem accountingKey_noAccount (n : UInt64) :
    accountingKey [] n = noAccountPrefix ++ LittleEndian.ofNat 8 n.toNat := rfl

theorem listAccountCreditDebit_noAccount (db : OrderDB) : listAccountCreditDebit [] db
      = (db.acentries.records.entries.filter fun e => decide (e.2.strAccount = [])).map Prod.snd := by
  have hstart : accountingKey [] 0 = noAccountPrefix ++ List.replicate 8 0 := rfl
  show ((db.acentries.records.entries.dropWhile fun e => decide (e.1 < accountingKey [] 0)).takeWhile fun e =>
    decide (e.2.strAccount = [])).map Prod.snd = _
  rw [OrderedMap.takeWhile_dropWhile_eq_filter db.acentries.records.sorted]
  · intro e he hlt
    refine decide_eq_false fun haccount => ?_
    rw [db.acentries.keyed e he, haccount, accountingKey_noAccount, hstart] at hlt
    have hzeros := not_lt_zeros (LittleEndian.length_ofNat 8 e.2.nEntryNo.toNat)
    rcases lt_trichotomy (LittleEndian.ofNat 8 e.2.nEntryNo.toNat) (List.replicate 8 0) with hbelow | heq | habove
    · exact hzeros hbelow
    · exact lt_irrefl _ (heq ▸ hlt)
    · exact lt_asymm hlt (List.append_left_lt habove)
  · intro e he e' he' hle hq hlt
    refine decide_eq_false fun haccount => of_decide_eq_false hq ?_
    have hprefix : noAccountPrefix <+: e'.1 := by
      rw [db.acentries.keyed e' he']
      exact noAccountPrefix_prefix_iff.mpr haccount
    have hbetween : noAccountPrefix <+: e.1 := by
      refine OrderedMap.isPrefix_of_between (fun hbefore => hle ?_) hlt hprefix
      have hlonger : ¬ accountingKey [] 0 < noAccountPrefix := List.not_lt.mpr (List.IsPrefix.le ⟨_, hstart.symm⟩)
      exact hbefore.trans_le (not_lt.mp hlonger)
    rw [db.acentries.keyed e he] at hbetween
    exact noAccountPrefix_prefix_iff.mp hbetween

theorem account_of_key_eq {m : UInt64} (h : accountingKey [] n = accountingKey strAccount m) : strAccount = [] := by
  have hprefix : noAccountPrefix <+: accountingKey [] n := noAccountPrefix_prefix_iff.mpr rfl
  rw [h] at hprefix
  exact noAccountPrefix_prefix_iff.mp hprefix

section Reorder

variable {getHash : CTransaction → UInt256} {mapWallet : OrderedMap UInt256 StoredTx} {db : OrderDB}
  {s s' : ReorderState} {item : TimedItem} {items : List TimedItem} {n : Int}

namespace ReorderState

def position (s : ReorderState) : OrderedItem → Option Int := positionOf s.mapWallet s.db

def progress (s : ReorderState) : Progress := ⟨s.nOrderPosNext, s.nOrderPosOffsets⟩

/-- An item is where it points to. -/
def Present (s : ReorderState) (item : TimedItem) : Prop := s.position item.item = some (s.nOrderPos item)

/-- The transactions are under their hashes, and a record with a position holds the one of the transaction. -/
structure Recorded (getHash : CTransaction → UInt256) (s : ReorderState) : Prop where
  hash : ∀ hash wtx, s.mapWallet.find? hash = some wtx → getHash wtx.merkleTx.tx = hash
  records : ∀ hash wtx, s.mapWallet.find? hash = some wtx → wtx.nOrderPos ≠ -1 →
    (s.db.txs.find? hash).map StoredTx.nOrderPos = some wtx.nOrderPos

/-- An item has a new position, and the other ones are as they were. -/
structure Moved (s s' : ReorderState) (a : OrderedItem) (n : Int) : Prop where
  here : s'.position a = some n
  others : ∀ b, b ≠ a → s'.position b = s.position b
  progress : s'.progress = s.progress

theorem write_moved (hrecorded : s.Recorded getHash) (hpresent : s.Present item)
    (h : s.write getHash n item = (true, s')) : s.Moved s' item.item n ∧ s'.Recorded getHash := by
  cases item with
  | pwtx hash =>
    cases hfind : s.mapWallet.find? hash with
    | none =>
      rw [Present, position, TimedItem.item, positionOf, hfind] at hpresent
      exact nomatch hpresent
    | some wtx =>
      have hhash := hrecorded.hash hash wtx hfind
      simp only [write, hfind, hhash] at h
      split at h
      case isFalse => exact nomatch (Prod.mk.inj h).1
      obtain rfl := (Prod.mk.inj h).2
      refine ⟨⟨?_, fun b hb => ?_, rfl⟩, fun hash' wtx' hfind' => ?_, fun hash' wtx' hfind' hsome => ?_⟩
      · show ((s.mapWallet.set hash _).find? hash).map StoredTx.nOrderPos = some n
        rw [OrderedMap.find?_set_self]
        rfl
      · cases b with
        | inl hash' =>
          show ((s.mapWallet.set hash _).find? hash').map StoredTx.nOrderPos = _
          rw [OrderedMap.find?_set_of_ne _ _ fun heq => hb (by rw [heq]; rfl)]
          rfl
        | inr key => rfl
      · rcases OrderedMap.find?_set_cases hfind' with ⟨rfl, rfl⟩ | ⟨-, hfind'⟩
        · exact hhash
        · exact hrecorded.hash hash' wtx' hfind'
      · rcases OrderedMap.find?_set_cases hfind' with ⟨rfl, rfl⟩ | ⟨hne, hfind'⟩
        · show ((s.db.txs.set hash' _).find? hash').map StoredTx.nOrderPos = some _
          rw [OrderedMap.find?_set_self]
          rfl
        · show ((s.db.txs.set hash _).find? hash').map StoredTx.nOrderPos = some _
          rw [OrderedMap.find?_set_of_ne _ _ hne]
          exact hrecorded.records hash' wtx' hfind' hsome
  | pacentry acentry =>
    simp only [write] at h
    split at h
    case isFalse => exact nomatch (Prod.mk.inj h).1
    obtain rfl := (Prod.mk.inj h).2
    refine ⟨⟨?_, fun b hb => ?_, rfl⟩, hrecorded.hash, hrecorded.records⟩
    · show ((s.db.acentries.records.set _ _).find? _).map CAccountingEntry.nOrderPos = some n
      rw [OrderedMap.find?_set_self]
      rfl
    · cases b with
      | inl hash => rfl
      | inr key =>
        show ((s.db.acentries.records.set _ _).find? key).map CAccountingEntry.nOrderPos = _
        rw [OrderedMap.find?_set_of_ne _ _ fun heq => hb (by rw [heq]; rfl)]
        rfl

theorem Present.of_position (h : s.Present item) (heq : s'.position item.item = s.position item.item) :
    s'.Present item ∧ s'.nOrderPos item = s.nOrderPos item := by
  have hsame : s'.nOrderPos item = s.nOrderPos item := by
    cases item with
    | pwtx hash =>
      show ((s'.mapWallet.find? hash).map StoredTx.nOrderPos).getD (-1) = _
      rw [show (s'.mapWallet.find? hash).map StoredTx.nOrderPos = (s.mapWallet.find? hash).map StoredTx.nOrderPos from heq]
      rfl
    | pacentry acentry => rfl
  refine ⟨?_, hsame⟩
  rw [Present, heq, hsame]
  exact h

theorem reorderItem_loadOk (hrecorded : s.Recorded getHash) (hpresent : s.Present item)
    (h : s.reorderItem getHash item = (.loadOk, s')) :
    (s'.position item.item = some (s.progress.number (s.nOrderPos item)) ∧
      ∀ b, b ≠ item.item → s'.position b = s.position b) ∧
      s'.progress = s.progress.advance (s.nOrderPos item) ∧ s'.Recorded getHash := by
  unfold reorderItem at h
  by_cases hnone : s.nOrderPos item = -1
  · simp only [hnone, if_true] at h
    split at h
    case isTrue => exact nomatch (Prod.mk.inj h).1
    split at h
    case h_2 => exact nomatch (Prod.mk.inj h).1
    next s'' hwrite =>
    obtain rfl := (Prod.mk.inj h).2
    obtain ⟨hmoved, hrecorded'⟩ := write_moved (by exact ⟨hrecorded.hash, hrecorded.records⟩) (by exact hpresent) hwrite
    refine ⟨⟨?_, hmoved.others⟩, ?_, hrecorded'⟩
    · rw [hnone, Progress.number_of_none]
      exact hmoved.here
    · rw [hnone, Progress.advance_of_none]
      exact hmoved.progress
  · simp only [hnone, if_false] at h
    split at h
    case isTrue => exact nomatch (Prod.mk.inj h).1
    have hnumber := s.progress.number_of_some hnone
    split at h
    · next hzero =>
      -- an item that is not shifted is not written
      obtain rfl := (Prod.mk.inj h).2
      have hshift : s.progress.number (s.nOrderPos item) = s.nOrderPos item := by
        rw [hnumber]
        show s.nOrderPos item + ((s.nOrderPosOffsets.countP fun o => decide (o ≤ s.nOrderPos item) : Nat) : Int) = _
        rw [hzero]
        exact Int.add_zero _
      refine ⟨⟨?_, fun _ _ => rfl⟩, ?_, hrecorded.hash, hrecorded.records⟩
      · rw [hshift]
        exact hpresent
      · rw [Progress.advance_of_some _ hnone, hnumber]
        rfl
    · split at h
      case h_2 => exact nomatch (Prod.mk.inj h).1
      next s'' hwrite =>
      obtain rfl := (Prod.mk.inj h).2
      obtain ⟨hmoved, hrecorded'⟩ := write_moved (by exact ⟨hrecorded.hash, hrecorded.records⟩) (by exact hpresent) hwrite
      refine ⟨⟨?_, hmoved.others⟩, ?_, hrecorded'⟩
      · rw [hnumber]
        exact hmoved.here
      · rw [Progress.advance_of_some _ hnone, hnumber]
        exact hmoved.progress

def numbered (s : ReorderState) (items : List TimedItem) : List (OrderedItem × Int) :=
  items.map fun item => (item.item, s.nOrderPos item)

/-- The loop gives every item its number, and leaves the others. By induction on the items. -/
theorem reorderLoop_loadOk (hrecorded : s.Recorded getHash) (hpresent : ∀ item ∈ items, s.Present item)
    (hnodup : (items.map TimedItem.item).Nodup) (hprogress : s.progress = Renumber.progress l)
    (h : s.reorderLoop getHash items = (.loadOk, s')) :
    ((∀ a n, (a, n) ∈ along (fun k => (Renumber.progress k).number) l (s.numbered items) → s'.position a = some n) ∧
      ∀ b, b ∉ items.map TimedItem.item → s'.position b = s.position b) ∧
      s'.progress = Renumber.progress (l ++ (s.numbered items).map Prod.snd) ∧ s'.Recorded getHash := by
  induction items generalizing s l with
  | nil =>
    obtain rfl := (Prod.mk.inj h).2
    refine ⟨⟨fun a n hmem => absurd hmem List.not_mem_nil, fun _ _ => rfl⟩, ?_, hrecorded⟩
    rw [hprogress, numbered, List.map_nil, List.map_nil, List.append_nil]
  | cons item items ih =>
    rw [List.map_cons, List.nodup_cons] at hnodup
    rw [reorderLoop] at h
    split at h
    case h_2 hne _ => exact (hne (Prod.mk.inj h).1).elim
    next s₁ hitem =>
    obtain ⟨⟨hhere, hothers⟩, hadvance, hrecorded₁⟩ :=
      reorderItem_loadOk hrecorded (hpresent item List.mem_cons_self) hitem
    have hne : ∀ item' ∈ items, item'.item ≠ item.item := fun item' hmem heq =>
      hnodup.1 (heq ▸ List.mem_map_of_mem hmem)
    have hsame : ∀ item' ∈ items, s₁.Present item' ∧ s₁.nOrderPos item' = s.nOrderPos item' := fun item' hmem =>
      (hpresent item' (List.mem_cons_of_mem item hmem)).of_position (hothers _ (hne item' hmem))
    have hnumbered : s₁.numbered items = s.numbered items :=
      List.map_congr_left fun item' hmem => by rw [(hsame item' hmem).2]
    have hprogress₁ : s₁.progress = Renumber.progress (l ++ [s.nOrderPos item]) := by
      rw [hadvance, hprogress, progress_append_singleton]
    obtain ⟨⟨hnew, hold⟩, hend, hrecorded'⟩ :=
      ih hrecorded₁ (fun item' hmem => (hsame item' hmem).1) hnodup.2 hprogress₁ h
    rw [hnumbered] at hnew hend
    refine ⟨⟨fun a n hmem => ?_, fun b hb => ?_⟩, ?_, hrecorded'⟩
    · rw [numbered, List.map_cons, along] at hmem
      rcases List.mem_cons.mp hmem with heq | hmem
      · obtain ⟨rfl, rfl⟩ := Prod.mk.inj heq
        rw [hold _ hnodup.1, hhere, hprogress]
      · exact hnew a n hmem
    · rw [List.map_cons, List.mem_cons, not_or] at hb
      rw [hold b hb.2, hothers b hb.1]
    · rw [hend, List.append_assoc]
      rfl

theorem write_writable (getHash : CTransaction → UInt256) (s : ReorderState) (hwritable : s.db.Writable)
    (item : TimedItem) (n : Int) : ∃ s', s.write getHash n item = (true, s') ∧ s'.db.Writable := by
  refine ⟨(s.write getHash n item).2, Prod.ext ?_ rfl, ?_⟩
  · cases item with
    | pwtx hash =>
      cases hfind : s.mapWallet.find? hash with
      | none => simp only [write, hfind]
      | some wtx => simp only [write, hfind, hwritable.txs, if_true]
    | pacentry acentry => simp only [write, hwritable.acentries, if_true]
  · cases item with
    | pwtx hash =>
      cases hfind : s.mapWallet.find? hash with
      | none =>
        simp only [write, hfind]
        exact hwritable
      | some wtx =>
        simp only [write, hfind, hwritable.txs, if_true]
        exact ⟨hwritable.txs, hwritable.acentries⟩
    | pacentry acentry =>
      simp only [write, hwritable.acentries, if_true]
      exact ⟨hwritable.txs, hwritable.acentries⟩

theorem reorderItem_writable (getHash : CTransaction → UInt256) (hwritable : s.db.Writable)
    (hnext : (s.progress.advance (s.nOrderPos item)).next ≤ maxInt64) :
    ∃ s', s.reorderItem getHash item = (.loadOk, s') ∧ s'.db.Writable := by
  unfold reorderItem
  by_cases hnone : s.nOrderPos item = -1
  · rw [hnone, Progress.advance_of_none] at hnext
    have hfits : ¬ s.nOrderPosNext + 1 > maxInt64 := not_lt.mpr hnext
    simp only [hnone, if_true]
    rw [if_neg hfits]
    obtain ⟨s', hwrite, hwritable'⟩ := write_writable getHash { s with
      nOrderPosNext := s.nOrderPosNext + 1, nOrderPosOffsets := s.nOrderPosOffsets ++ [s.nOrderPosNext] }
      ⟨hwritable.txs, hwritable.acentries⟩ item s.nOrderPosNext
    exact ⟨s', by rw [hwrite], hwritable'⟩
  · rw [Progress.advance_of_some _ hnone, Progress.number_of_some _ hnone] at hnext
    have hfits : ¬ s.nOrderPos item
        + (s.nOrderPosOffsets.countP fun o => decide (s.nOrderPos item ≥ o)) + 1 > maxInt64 :=
      not_lt.mpr ((le_max_right _ _).trans hnext)
    simp only [hnone, if_false]
    rw [if_neg hfits]
    split_ifs with hzero
    · exact ⟨_, rfl, hwritable.txs, hwritable.acentries⟩
    · obtain ⟨s', hwrite, hwritable'⟩ := write_writable getHash { s with
        nOrderPosNext := max s.nOrderPosNext (s.nOrderPos item
          + (s.nOrderPosOffsets.countP fun o => decide (s.nOrderPos item ≥ o)) + 1) }
        ⟨hwritable.txs, hwritable.acentries⟩ item
        (s.nOrderPos item + (s.nOrderPosOffsets.countP fun o => decide (s.nOrderPos item ≥ o)))
      exact ⟨s', by rw [hwrite], hwritable'⟩

/-- By induction on the items. -/
theorem reorderLoop_writable (hrecorded : s.Recorded getHash) (hpresent : ∀ item ∈ items, s.Present item)
    (hnodup : (items.map TimedItem.item).Nodup)
    (hprogress : s.progress = Renumber.progress l) (hwritable : s.db.Writable)
    (hslot : slot (l ++ (s.numbered items).map Prod.snd) ≤ maxInt64) :
    ∃ s', s.reorderLoop getHash items = (.loadOk, s') := by
  induction items generalizing s l with
  | nil => exact ⟨s, rfl⟩
  | cons item items ih =>
    rw [List.map_cons, List.nodup_cons] at hnodup
    have hsplit : l ++ (s.numbered (item :: items)).map Prod.snd
        = l ++ [s.nOrderPos item] ++ (s.numbered items).map Prod.snd := by
      rw [List.append_assoc]
      rfl
    rw [hsplit] at hslot
    have hnext : (s.progress.advance (s.nOrderPos item)).next ≤ maxInt64 := by
      rw [hprogress, ← progress_append_singleton]
      exact ((progress_bounds _).1.2.trans (slot_le_append _ _)).trans hslot
    obtain ⟨s₁, hitem, hwritable₁⟩ := reorderItem_writable getHash hwritable hnext
    obtain ⟨⟨-, hothers⟩, hadvance, hrecorded₁⟩ :=
      reorderItem_loadOk hrecorded (hpresent item List.mem_cons_self) hitem
    have hsame : ∀ item' ∈ items, s₁.Present item' ∧ s₁.nOrderPos item' = s.nOrderPos item' := fun item' hmem =>
      (hpresent item' (List.mem_cons_of_mem item hmem)).of_position
        (hothers _ fun heq => hnodup.1 (heq ▸ List.mem_map_of_mem hmem))
    have hnumbered : s₁.numbered items = s.numbered items :=
      List.map_congr_left fun item' hmem => by rw [(hsame item' hmem).2]
    rw [reorderLoop, hitem]
    refine ih hrecorded₁ (fun item' hmem => (hsame item' hmem).1) hnodup.2 ?_ hwritable₁ (hnumbered ▸ hslot)
    rw [hadvance, hprogress, progress_append_singleton]

end ReorderState

def reorderStart (mapWallet : OrderedMap UInt256 StoredTx) (db : OrderDB) : ReorderState := ⟨mapWallet, db, 0, []⟩

def timedItems (mapWallet : OrderedMap UInt256 StoredTx) (db : OrderDB) : List TimedItem :=
  (ReorderState.txByTime mapWallet db).entries.map Prod.snd

def listedItems (mapWallet : OrderedMap UInt256 StoredTx) (db : OrderDB) : List (OrderedItem × Int) :=
  (reorderStart mapWallet db).numbered (timedItems mapWallet db)

theorem timedItems_perm (mapWallet : OrderedMap UInt256 StoredTx) (db : OrderDB) : (timedItems mapWallet db).Perm
      (mapWallet.entries.map (fun e => .pwtx e.1) ++ (listAccountCreditDebit [] db).map .pacentry) := by
  have htxs := OrderedMultimap.foldl_insert_perm (fun e : UInt256 × StoredTx => (e.2.nTimeReceived.toNat : Int))
    (fun e => TimedItem.pwtx e.1) mapWallet.entries .empty
  have hall := (OrderedMultimap.foldl_insert_perm CAccountingEntry.nTime TimedItem.pacentry
    (listAccountCreditDebit [] db) _).trans (htxs.append_right _)
  have hitems := hall.map Prod.snd
  rw [List.map_append, List.map_append, List.map_map, List.map_map] at hitems
  exact hitems

theorem mem_timedItems {item : TimedItem} : item ∈ timedItems mapWallet db ↔
    (∃ e ∈ mapWallet.entries, TimedItem.pwtx e.1 = item) ∨
      ∃ acentry ∈ listAccountCreditDebit [] db, TimedItem.pacentry acentry = item := by
  rw [(timedItems_perm mapWallet db).mem_iff, List.mem_append, List.mem_map, List.mem_map]

theorem mem_listAccountCreditDebit : acentry ∈ listAccountCreditDebit [] db ↔ acentry.strAccount = [] ∧
      db.acentries.records.find? (accountingKey acentry.strAccount acentry.nEntryNo) = some acentry := by
  rw [listAccountCreditDebit_noAccount, List.mem_map]
  constructor
  · rintro ⟨e, he, rfl⟩
    obtain ⟨hmem, haccount⟩ := List.mem_filter.mp he
    refine ⟨of_decide_eq_true haccount, OrderedMap.find?_eq_some_iff.mpr ?_⟩
    rw [← db.acentries.keyed e hmem]
    exact hmem
  · rintro ⟨haccount, hfind⟩
    exact ⟨_, List.mem_filter.mpr ⟨OrderedMap.find?_eq_some_iff.mp hfind, decide_eq_true haccount⟩, rfl⟩

theorem present_of_mem (h : item ∈ timedItems mapWallet db) : (reorderStart mapWallet db).Present item := by
  rcases mem_timedItems.mp h with ⟨e, he, rfl⟩ | ⟨acentry, hacentry, rfl⟩
  · have hfind := OrderedMap.find?_eq_some_iff.mpr (show (e.1, e.2) ∈ mapWallet.entries from he)
    show (mapWallet.find? e.1).map StoredTx.nOrderPos = some (((mapWallet.find? e.1).map StoredTx.nOrderPos).getD (-1))
    rw [hfind]
    rfl
  · show (db.acentries.records.find? _).map CAccountingEntry.nOrderPos = some acentry.nOrderPos
    rw [(mem_listAccountCreditDebit.mp hacentry).2]
    rfl

theorem nodup_items (mapWallet : OrderedMap UInt256 StoredTx) (db : OrderDB) :
    ((timedItems mapWallet db).map TimedItem.item).Nodup := by
  refine (((timedItems_perm mapWallet db).map TimedItem.item).nodup_iff).mpr ?_
  rw [List.map_append, List.map_map, List.map_map]
  refine List.nodup_append.mpr ⟨?_, ?_, fun a ha b hb => ?_⟩
  · have hkeys := mapWallet.keys_nodup.map (f := Sum.inl (β := List UInt8)) fun _ _ => Sum.inl.inj
    rw [List.map_map] at hkeys
    exact hkeys
  · rw [listAccountCreditDebit_noAccount, List.map_map]
    have hkeys := (db.acentries.records.keys_nodup).map (f := Sum.inr (α := UInt256)) fun _ _ => Sum.inr.inj
    rw [List.map_map] at hkeys
    have hsame : (db.acentries.records.entries.filter fun e => decide (e.2.strAccount = [])).map
        ((TimedItem.item ∘ TimedItem.pacentry) ∘ Prod.snd)
        = (db.acentries.records.entries.filter fun e => decide (e.2.strAccount = [])).map (Sum.inr ∘ Prod.fst) :=
      List.map_congr_left fun e he => congrArg Sum.inr (db.acentries.keyed e (List.mem_of_mem_filter he)).symm
    rw [hsame]
    exact (List.filter_sublist.map _).nodup hkeys
  · obtain ⟨e, -, rfl⟩ := List.mem_map.mp ha
    obtain ⟨acentry, -, rfl⟩ := List.mem_map.mp hb
    exact Sum.inl_ne_inr

theorem map_fst_listedItems (mapWallet : OrderedMap UInt256 StoredTx) (db : OrderDB) :
    (listedItems mapWallet db).map Prod.fst = (timedItems mapWallet db).map TimedItem.item := by
  rw [listedItems, ReorderState.numbered, List.map_map]
  rfl

theorem map_snd_listedItems (mapWallet : OrderedMap UInt256 StoredTx) (db : OrderDB) :
    (listedItems mapWallet db).map Prod.snd = listedPositions mapWallet db := by
  rw [listedItems, ReorderState.numbered, timedItems, List.map_map, List.map_map]
  rfl

theorem positionOf_of_listed (h : (a, p) ∈ listedItems mapWallet db) : positionOf mapWallet db a = some p := by
  obtain ⟨item, hitem, heq⟩ := List.mem_map.mp h
  obtain ⟨rfl, rfl⟩ := Prod.mk.inj heq
  exact present_of_mem hitem

theorem not_mem_items_of_account (h : acentry.strAccount ≠ []) :
    (TimedItem.pacentry acentry).item ∉ (timedItems mapWallet db).map TimedItem.item := by
  intro hmem
  obtain ⟨item, hitem, heq⟩ := List.mem_map.mp hmem
  rcases mem_timedItems.mp hitem with ⟨e, -, rfl⟩ | ⟨acentry', hacentry', rfl⟩
  · exact absurd heq Sum.inl_ne_inr
  · refine h (account_of_key_eq (n := acentry'.nEntryNo) (m := acentry.nEntryNo) ?_)
    rw [← (mem_listAccountCreditDebit.mp hacentry').1]
    exact Sum.inr.inj heq

theorem not_listed_of_account (h : acentry.strAccount ≠ []) :
    ((TimedItem.pacentry acentry).item, p) ∉ listedItems mapWallet db := fun hmem =>
  not_mem_items_of_account h (map_fst_listedItems mapWallet db ▸ List.mem_map_of_mem (f := Prod.fst) hmem)

theorem listed_or_other (h : positionOf mapWallet db a = some p) : (a, p) ∈ listedItems mapWallet db ∨
      a ∉ (timedItems mapWallet db).map TimedItem.item ∧
        ∃ acentry : CAccountingEntry, acentry.strAccount ≠ [] ∧ a = (TimedItem.pacentry acentry).item := by
  have hlisted (item : TimedItem) (hitem : item ∈ timedItems mapWallet db) (ha : item.item = a) :
      (a, p) ∈ listedItems mapWallet db := by
    refine List.mem_map.mpr ⟨item, hitem, Prod.ext ha ?_⟩
    have hpresent := present_of_mem hitem
    rw [ReorderState.Present, ha] at hpresent
    exact Option.some.inj (hpresent.symm.trans h)
  cases a with
  | inl hash =>
    obtain ⟨wtx, hfind, -⟩ := Option.map_eq_some_iff.mp h
    exact Or.inl (hlisted (.pwtx hash)
      (mem_timedItems.mpr (Or.inl ⟨(hash, wtx), OrderedMap.find?_eq_some_iff.mp hfind, rfl⟩)) rfl)
  | inr key =>
    obtain ⟨acentry, hfind, -⟩ := Option.map_eq_some_iff.mp h
    have hkey := db.acentries.keyed (key, acentry) (OrderedMap.find?_eq_some_iff.mp hfind)
    have hitem : Sum.inr key = (TimedItem.pacentry acentry).item := congrArg Sum.inr hkey
    by_cases haccount : acentry.strAccount = []
    · have hmem : acentry ∈ listAccountCreditDebit [] db := by
        refine mem_listAccountCreditDebit.mpr ⟨haccount, ?_⟩
        rw [← hfind]
        exact congrArg _ hkey.symm
      exact Or.inl (hlisted (.pacentry acentry) (mem_timedItems.mpr (Or.inr ⟨acentry, hmem, rfl⟩)) hitem.symm)
    · exact Or.inr ⟨hitem ▸ not_mem_items_of_account haccount, acentry, haccount, hitem⟩

/-- The listed items have their numbers, the other entries what they had. -/
structure Reordered (getHash : CTransaction → UInt256) (mapWallet : OrderedMap UInt256 StoredTx) (db : OrderDB)
    (s : ReorderState) : Prop where
  numbers : ∀ l₁ a p l₂, listedItems mapWallet db = l₁ ++ (a, p) :: l₂ →
    s.position a = some ((progress (l₁.map Prod.snd)).number p)
  others : ∀ b, b ∉ (timedItems mapWallet db).map TimedItem.item → s.position b = positionOf mapWallet db b
  next : s.nOrderPosNext = (progress (listedPositions mapWallet db)).next
  recorded : s.Recorded getHash
  orderposnext : s.db.writesNext = true → s.db.orderposnext = some s.nOrderPosNext

theorem reorderTransactions_reordered (h : Loaded getHash mapWallet db)
    (hrun : reorderTransactions getHash mapWallet db = (.loadOk, s)) : Reordered getHash mapWallet db s := by
  rw [reorderTransactions] at hrun
  split at hrun
  case h_2 hne _ => exact (hne (Prod.mk.inj hrun).1).elim
  next s₁ hloop =>
  obtain rfl := (Prod.mk.inj hrun).2
  obtain ⟨⟨hnew, hold⟩, hend, hrecorded⟩ := ReorderState.reorderLoop_loadOk (s := reorderStart mapWallet db) (l := [])
    ⟨h.hash, h.records⟩ (fun item => present_of_mem) (nodup_items mapWallet db) rfl hloop
  have hwrite : s₁.writeOrderPosNext.position = s₁.position ∧ s₁.writeOrderPosNext.nOrderPosNext = s₁.nOrderPosNext ∧
      s₁.writeOrderPosNext.Recorded getHash ∧ (s₁.writeOrderPosNext.db.writesNext = true →
          s₁.writeOrderPosNext.db.orderposnext = some s₁.writeOrderPosNext.nOrderPosNext) := by
    unfold ReorderState.writeOrderPosNext
    split_ifs with hwrites
    · exact ⟨rfl, rfl, ⟨hrecorded.hash, hrecorded.records⟩, fun _ => rfl⟩
    · exact ⟨rfl, rfl, hrecorded, fun hwrites' => absurd hwrites' hwrites⟩
  refine ⟨fun l₁ a p l₂ hl => ?_, fun b hb => ?_, ?_, hwrite.2.2.1, hwrite.2.2.2⟩
  · rw [hwrite.1]
    exact hnew a _ (mem_along.mpr ⟨l₁, p, l₂, hl, rfl⟩)
  · rw [hwrite.1]
    exact hold b hb
  · rw [hwrite.2.1, ← map_snd_listedItems]
    exact congrArg Progress.next hend

theorem numbered_listed (h : Loaded getHash mapWallet db) : Numbered (listedPositions mapWallet db) := by
  rw [← map_snd_listedItems]
  refine ⟨fun p hp => ?_, ?_⟩
  · obtain ⟨⟨a, p⟩, hmem, rfl⟩ := List.mem_map.mp hp
    exact h.range a p (positionOf_of_listed hmem)
  · rw [List.filter_map]
    have hnodup : (listedItems mapWallet db).Nodup :=
      List.Nodup.of_map Prod.fst (map_fst_listedItems mapWallet db ▸ nodup_items mapWallet db)
    refine List.Nodup.map_on ?_ (hnodup.filter _)
    rintro ⟨a, p⟩ ha ⟨b, q⟩ hb (rfl : p = q)
    obtain ⟨ha, hsome⟩ := List.mem_filter.mp ha
    have hitem := h.distinct a b p (of_decide_eq_true hsome) (positionOf_of_listed ha)
      (positionOf_of_listed (List.mem_filter.mp hb).1)
    rw [hitem]

theorem mem_listedItems_iff :
    (a, p) ∈ listedItems mapWallet db ↔ ∃ l₁ l₂, listedItems mapWallet db = l₁ ++ (a, p) :: l₂ :=
  List.mem_iff_append

theorem listedPositions_split {l₁ l₂ : List (OrderedItem × Int)} (h : listedItems mapWallet db = l₁ ++ (a, p) :: l₂) :
    listedPositions mapWallet db = l₁.map Prod.snd ++ p :: l₂.map Prod.snd := by
  rw [← map_snd_listedItems, h, List.map_append, List.map_cons]

theorem listedItems_split {l₁ l₂ : List Int} (h : listedPositions mapWallet db = l₁ ++ p :: l₂) :
    ∃ k₁ a k₂, listedItems mapWallet db = k₁ ++ (a, p) :: k₂ ∧ k₁.map Prod.snd = l₁ := by
  rw [← map_snd_listedItems] at h
  obtain ⟨k₁, k, hk, rfl, hk'⟩ := List.map_eq_append_iff.mp h
  obtain ⟨⟨a, q⟩, k₂, rfl, rfl, -⟩ := List.map_eq_cons_iff.mp hk'
  exact ⟨k₁, a, k₂, hk, rfl⟩

section Spaced

variable {a b : OrderedItem} {p q : Int} {l₁ l₂ : List (OrderedItem × Int)}

theorem Reordered.ideal (h : Reordered getHash mapWallet db s) (hspaced : Spaced (listedPositions mapWallet db))
    (hl : listedItems mapWallet db = l₁ ++ (a, p) :: l₂) : s.position a = some (ideal (l₁.map Prod.snd) p) := by
  rw [h.numbers l₁ a p l₂ hl, Spaced.number_eq (k := l₂.map Prod.snd)]
  rw [← listedPositions_split hl]
  exact hspaced

theorem Reordered.next_eq (h : Reordered getHash mapWallet db s) (hspaced : Spaced (listedPositions mapWallet db)) :
    s.nOrderPosNext = slot (listedPositions mapWallet db) := h.next.trans hspaced.progress_eq.1

theorem ideal_of_listed (h : Loaded getHash mapWallet db) {k₁ k₂ : List (OrderedItem × Int)}
    (ha : listedItems mapWallet db = l₁ ++ (a, p) :: l₂) (hb : listedItems mapWallet db = k₁ ++ (b, q) :: k₂)
    (hne : a ≠ b) : Renumber.ideal (l₁.map Prod.snd) p ≠ Renumber.ideal (k₁.map Prod.snd) q ∧
      (p ≠ -1 → p < q → Renumber.ideal (l₁.map Prod.snd) p < Renumber.ideal (k₁.map Prod.snd) q) := by
  have hnumbered := numbered_listed h
  have hsome (hp : p ≠ -1) (hlt : p < q) : q ≠ -1 := by
    have := hnumbered.range p (listedPositions_split ha ▸ List.mem_append_right _ List.mem_cons_self)
    omega
  rcases earlier_of_ne ha hb fun heq => hne (Prod.mk.inj heq).1 with ⟨mid, rfl⟩ | ⟨mid, rfl⟩
  · have hsplit := listedPositions_split hb
    rw [hsplit] at hnumbered
    rw [List.map_append, List.map_cons] at hnumbered ⊢
    refine ⟨ideal_ne_ideal ?_ hnumbered.not_mem, fun hp hlt => ideal_lt_of_lt hp (hsome hp hlt) hlt⟩
    exact hnumbered.range q (List.mem_append_right _ List.mem_cons_self)
  · have hsplit := listedPositions_split ha
    rw [hsplit] at hnumbered
    rw [List.map_append, List.map_cons] at hnumbered ⊢
    refine ⟨(ideal_ne_ideal ?_ hnumbered.not_mem).symm, fun hp hlt => ideal_lt_of_gt (hsome hp hlt) hp hlt⟩
    exact hnumbered.range p (List.mem_append_right _ List.mem_cons_self)

theorem ideal_lt_slot_listed (hl : listedItems mapWallet db = l₁ ++ (a, p) :: l₂) :
    Renumber.ideal (l₁.map Prod.snd) p < slot (listedPositions mapWallet db) := by
  rw [listedPositions_split hl]
  exact ideal_lt_slot _ _ p

theorem ideal_eq_shift (hl : listedItems mapWallet db = l₁ ++ (a, p) :: l₂) (hp : p ≠ -1) :
    Renumber.ideal (l₁.map Prod.snd) p = p + shift (listedPositions mapWallet db) p := by
  rw [ideal_of_some _ hp, listedPositions_split hl, shift_of_le hp le_rfl]

theorem Reordered.othersFit (h : Loaded getHash mapWallet db) (hr : Reordered getHash mapWallet db s)
    (hspaced : Spaced (listedPositions mapWallet db))
    (hordered : StrictlyOrdered (positionOf mapWallet db) s) : OthersFit mapWallet db := by
  have hother (acentry : CAccountingEntry) (q : Int) (haccount : acentry.strAccount ≠ [])
      (hq : positionOf mapWallet db (TimedItem.pacentry acentry).item = some q) :
      s.position (TimedItem.pacentry acentry).item = some q :=
    (hr.others _ (not_mem_items_of_account haccount)).trans hq
  refine ⟨fun acentry q haccount hq => ⟨?_, fun l₁ l₂ hl hslot => ?_, fun p hp hsome hlt => ?_⟩,
    fun acentry acentry' haccount haccount' hq hq' => ?_⟩
  · rw [← hr.next_eq hspaced]
    exact hordered.below _ q (hother acentry q haccount hq)
  · obtain ⟨k₁, a, k₂, hk, rfl⟩ := listedItems_split hl
    have ha := hr.ideal hspaced hk
    rw [ideal_of_none, ← hslot] at ha
    have hitem := hordered.distinct a _ q ha (hother acentry q haccount hq)
    exact not_listed_of_account haccount (hitem ▸ mem_listedItems_iff.mpr ⟨k₁, k₂, hk⟩)
  · obtain ⟨l₁, l₂, hl⟩ := List.append_of_mem hp
    obtain ⟨k₁, a, k₂, hk, -⟩ := listedItems_split hl
    have ha := hr.ideal hspaced hk
    rw [ideal_eq_shift hk hsome] at ha
    have hbefore := positionOf_of_listed (mem_listedItems_iff.mpr ⟨k₁, k₂, hk⟩)
    have hrange := (numbered_listed h).range p hp
    exact hordered.kept a _ p q _ q hbefore hq (by omega) hlt ha (hother acentry q haccount hq)
  · exact hordered.distinct _ _ (-1) (hother acentry _ haccount hq) (hother acentry' _ haccount' hq')

theorem Reordered.cases (hr : Reordered getHash mapWallet db s) (hspaced : Spaced (listedPositions mapWallet db))
    {n : Int} (ha : s.position a = some n) :
    (∃ l₁ p l₂, listedItems mapWallet db = l₁ ++ (a, p) :: l₂ ∧ n = Renumber.ideal (l₁.map Prod.snd) p) ∨
      positionOf mapWallet db a = some n ∧
        ∃ acentry : CAccountingEntry, acentry.strAccount ≠ [] ∧ a = (TimedItem.pacentry acentry).item := by
  by_cases hitem : a ∈ (timedItems mapWallet db).map TimedItem.item
  · rw [← map_fst_listedItems] at hitem
    obtain ⟨⟨a, p⟩, hmem, rfl⟩ := List.mem_map.mp hitem
    obtain ⟨l₁, l₂, hl⟩ := mem_listedItems_iff.mp hmem
    refine Or.inl ⟨l₁, p, l₂, hl, ?_⟩
    exact Option.some.inj (ha.symm.trans (hr.ideal hspaced hl))
  · rw [hr.others a hitem] at ha
    refine Or.inr ⟨ha, ?_⟩
    rcases listed_or_other ha with hmem | ⟨-, hother⟩
    · exact absurd (map_fst_listedItems mapWallet db ▸ List.mem_map_of_mem (f := Prod.fst) hmem) hitem
    · exact hother

theorem ideal_nonneg (hp : -1 ≤ p) : 0 ≤ Renumber.ideal l p :=
  (number_nonneg hp).trans (number_le_ideal l p)

theorem FitsIn.ideal (h : Loaded getHash mapWallet db) (hl : listedItems mapWallet db = l₁ ++ (a, p) :: l₂)
    (hb : positionOf mapWallet db b = some q) (hne : a ≠ b) (hfits : FitsIn (listedPositions mapWallet db) q) :
    Renumber.ideal (l₁.map Prod.snd) p ≠ q ∧ (p ≠ -1 → p < q → Renumber.ideal (l₁.map Prod.snd) p < q) := by
  have hmem : p ∈ listedPositions mapWallet db :=
    listedPositions_split hl ▸ List.mem_append_right _ List.mem_cons_self
  have ha := positionOf_of_listed (mem_listedItems_iff.mpr ⟨l₁, l₂, hl⟩)
  have hbelow (hp : p ≠ -1) (hlt : p < q) : Renumber.ideal (l₁.map Prod.snd) p < q := by
    rw [ideal_eq_shift hl hp]
    exact hfits.above p hmem hp hlt
  refine ⟨fun heq => ?_, hbelow⟩
  by_cases hp : p = -1
  · rw [hp, ideal_of_none] at heq
    exact hfits.slots _ _ (hp ▸ listedPositions_split hl) heq.symm
  · rcases lt_trichotomy p q with hlt | rfl | hgt
    · exact absurd heq (hbelow hp hlt).ne
    · exact hne (h.distinct a b p hp ha hb)
    · rw [ideal_eq_shift hl hp] at heq
      omega

theorem Reordered.strictlyOrdered (h : Loaded getHash mapWallet db) (hr : Reordered getHash mapWallet db s)
    (hspaced : Spaced (listedPositions mapWallet db)) (hothers : OthersFit mapWallet db) :
    StrictlyOrdered (positionOf mapWallet db) s where
  distinct a b n ha hb := by
    by_contra hne
    rcases hr.cases hspaced ha with ⟨l₁, p, l₂, hl, rfl⟩ | ⟨ha, acentry, haccount, rfl⟩
    · rcases hr.cases hspaced hb with ⟨k₁, q, k₂, hk, heq⟩ | ⟨hb, acentry, haccount, rfl⟩
      · exact (ideal_of_listed h hl hk hne).1 heq
      · exact (FitsIn.ideal h hl hb hne (hothers.fits acentry _ haccount hb)).1 rfl
    · rcases hr.cases hspaced hb with ⟨k₁, q, k₂, hk, rfl⟩ | ⟨hb, acentry', haccount', rfl⟩
      · exact (FitsIn.ideal h hk ha (Ne.symm hne) (hothers.fits acentry _ haccount ha)).1 rfl
      · by_cases hn : n = -1
        · rw [hn] at ha hb
          exact hne (hothers.unplaced acentry acentry' haccount haccount' ha hb)
        · exact hne (h.distinct _ _ n hn ha hb)
  below a n ha := by
    rw [hr.next_eq hspaced]
    rcases hr.cases hspaced ha with ⟨l₁, p, l₂, hl, rfl⟩ | ⟨ha, acentry, haccount, rfl⟩
    · exact ideal_lt_slot_listed hl
    · exact (hothers.fits acentry n haccount ha).below
  kept a b m n m' n' hm hn hm0 hlt ha hb := by
    have hne : a ≠ b := fun heq => by
      rw [heq, hn] at hm
      exact hlt.ne (Option.some.inj hm).symm
    have hlisted {a : OrderedItem} {p m : Int} {l₁ l₂ : List (OrderedItem × Int)}
        (hl : listedItems mapWallet db = l₁ ++ (a, p) :: l₂) (hm : positionOf mapWallet db a = some m) : p = m :=
      Option.some.inj ((positionOf_of_listed (mem_listedItems_iff.mpr ⟨l₁, l₂, hl⟩)).symm.trans hm)
    rcases hr.cases hspaced ha with ⟨l₁, p, l₂, hl, rfl⟩ | ⟨ha, acentry, haccount, rfl⟩
    · obtain rfl := hlisted hl hm
      rcases hr.cases hspaced hb with ⟨k₁, q, k₂, hk, rfl⟩ | ⟨hb, acentry, haccount, rfl⟩
      · obtain rfl := hlisted hk hn
        exact (ideal_of_listed h hl hk hne).2 (by omega) hlt
      · obtain rfl := Option.some.inj (hn.symm.trans hb)
        exact (FitsIn.ideal h hl hb hne (hothers.fits acentry _ haccount hb)).2 (by omega) hlt
    · obtain rfl := Option.some.inj (hm.symm.trans ha)
      rcases hr.cases hspaced hb with ⟨k₁, q, k₂, hk, rfl⟩ | ⟨hb, -⟩
      · obtain rfl := hlisted hk hn
        rw [ideal_eq_shift hk (by omega)]
        omega
      · obtain rfl := Option.some.inj (hn.symm.trans hb)
        exact hlt
  written hash wtx hfind := by
    refine hr.recorded.records hash wtx hfind fun hnone => ?_
    have hposition : s.position (.inl hash) = some (-1) := by
      rw [← hnone]
      show (s.mapWallet.find? hash).map StoredTx.nOrderPos = some wtx.nOrderPos
      rw [hfind]
      rfl
    rcases hr.cases hspaced hposition with ⟨l₁, p, l₂, hl, heq⟩ | ⟨-, acentry, -, hitem⟩
    · have hp := (numbered_listed h).range p (listedPositions_split hl ▸ List.mem_append_right _ List.mem_cons_self)
      have hnonneg := ideal_nonneg (l := l₁.map Prod.snd) hp
      omega
    · exact absurd hitem Sum.inl_ne_inr
  next := hr.orderposnext

end Spaced

theorem Reordered.spaced (h : Loaded getHash mapWallet db) (hr : Reordered getHash mapWallet db s)
    (hgap : GapFree (listedPositions mapWallet db)) (hordered : StrictlyOrdered (positionOf mapWallet db) s) :
    Spaced (listedPositions mapWallet db) := by
  rw [← map_snd_listedItems] at hgap ⊢
  refine spaced_of_gapFree (map_snd_listedItems mapWallet db ▸ numbered_listed h) hgap ?_
  have hnumber : ∀ e ∈ along (fun pre => (progress pre).number) [] (listedItems mapWallet db), s.position e.1 = some e.2 := by
    rintro ⟨a, n⟩ he
    obtain ⟨l₁, p, l₂, hl, rfl⟩ := mem_along.mp he
    exact hr.numbers l₁ a p l₂ hl
  refine List.Nodup.map_on (fun e he e' he' heq => ?_) ?_
  · have ha := hnumber e he
    have hb := hnumber e' he'
    rw [← heq] at hb
    exact Prod.ext (hordered.distinct e.1 e'.1 e.2 ha hb) heq
  · refine List.Nodup.of_map Prod.fst ?_
    rw [map_fst_along, map_fst_listedItems]
    exact nodup_items mapWallet db

/-- The function comes to its end where the records can be written and the positions fit into an `int64_t`; and what it
leaves is a strict order, where the positions are spaced, if and only if the entries of other accounts fit in. Where the
positions have no gaps, it is one only if they are spaced. -/
theorem reorderTransactions_strictlyOrdered (h : Loaded getHash mapWallet db) :
    (db.Writable → slot (listedPositions mapWallet db) ≤ ReorderState.maxInt64 →
      ∃ s, reorderTransactions getHash mapWallet db = (.loadOk, s)) ∧
    ∀ s, reorderTransactions getHash mapWallet db = (.loadOk, s) → (Spaced (listedPositions mapWallet db) →
        (StrictlyOrdered (positionOf mapWallet db) s ↔ OthersFit mapWallet db)) ∧
      (GapFree (listedPositions mapWallet db) → StrictlyOrdered (positionOf mapWallet db) s →
        Spaced (listedPositions mapWallet db)) := by
  refine ⟨fun hwritable hslot => ?_, fun s hrun => ?_⟩
  · obtain ⟨s, hloop⟩ := ReorderState.reorderLoop_writable (s := reorderStart mapWallet db) (l := [])
      ⟨h.hash, h.records⟩ (fun item => present_of_mem) (nodup_items mapWallet db) rfl hwritable
      (by rw [List.nil_append]; exact map_snd_listedItems mapWallet db ▸ hslot)
    refine ⟨s.writeOrderPosNext, ?_⟩
    have hloop' : ReorderState.reorderLoop getHash ⟨mapWallet, db, 0, []⟩
      ((ReorderState.txByTime mapWallet db).entries.map Prod.snd) = (.loadOk, s) := hloop
    rw [reorderTransactions, hloop']
  · have hr := reorderTransactions_reordered h hrun
    exact ⟨fun hspaced => ⟨hr.othersFit h hspaced, hr.strictlyOrdered h hspaced⟩, fun hgap => hr.spaced h hgap⟩

end Reorder

namespace Sample

/-! Two transactions without a position, and a later one with the first position. -/

def emptyTx (nLockTime : UInt32) : CTransaction := ⟨1, 1333333333, [], [], nLockTime⟩

def emptyTxHash (tx : CTransaction) : UInt256 :=
  if tx = emptyTx 0 then 0x3c57a4fb5af8dadabbd34e6e3be6b2e06da1cf7a3591bf684a3d72414382e8a3
  else if tx = emptyTx 1 then 0x56019a18505a1a5b6e19502cab409bef1ec0ff4513af7a223c5ba02ae428edb6
  else if tx = emptyTx 2 then 0x7856a58134629aae5f9f8f730e391cfe7939ce475dc9dc3795987fe926bf40a1
  else 0

def storedTxOf (nLockTime nTimeReceived : UInt32) (nOrderPos : Int) : StoredTx where
  merkleTx := ⟨emptyTx nLockTime, 0, [], -1⟩
  vtxPrev := []
  mapValue := OrderedMap.empty
  vOrderForm := []
  fTimeReceivedIsTxTime := 1
  nTimeReceived := nTimeReceived
  nTimeSmart := nTimeReceived
  fFromMe := 0
  strFromAccount := []
  vfSpent := []
  nOrderPos := nOrderPos

def walletOf (wtxs : List StoredTx) : OrderedMap UInt256 StoredTx :=
  wtxs.foldl (fun m wtx => m.set (emptyTxHash wtx.merkleTx.tx) wtx) .empty

def orderDbOf (wtxs : List StoredTx) : OrderDB where
  txs := walletOf wtxs
  acentries := ⟨OrderedMap.empty, fun _ he => absurd he List.not_mem_nil⟩
  orderposnext := none
  writesTx _ := true
  writesAcentry _ := true
  writesNext := true

def crowdedTxs : List StoredTx := [storedTxOf 0 1333333330 0, storedTxOf 1 1333333310 (-1), storedTxOf 2 1333333320 (-1)]

theorem positionOf_orderDbOf {n : Int} (h : positionOf (walletOf wtxs) (orderDbOf wtxs) a = some n) :
    ∃ e ∈ (walletOf wtxs).entries, a = .inl e.1 ∧ e.2.nOrderPos = n := by
  cases a with
  | inl hash =>
    obtain ⟨wtx, hfind, hn⟩ := Option.map_eq_some_iff.mp h
    exact ⟨(hash, wtx), OrderedMap.find?_eq_some_iff.mp hfind, rfl, hn⟩
  | inr key => exact nomatch h

theorem loaded_orderDbOf (hhash : ∀ e ∈ (walletOf wtxs).entries, emptyTxHash e.2.merkleTx.tx = e.1)
    (hrange : ∀ e ∈ (walletOf wtxs).entries, -1 ≤ e.2.nOrderPos)
    (hdistinct : ∀ e ∈ (walletOf wtxs).entries, ∀ e' ∈ (walletOf wtxs).entries,
      e.2.nOrderPos ≠ -1 → e'.2.nOrderPos = e.2.nOrderPos → e.1 = e'.1) :
    Loaded emptyTxHash (walletOf wtxs) (orderDbOf wtxs) where
  range a n h := by
    obtain ⟨e, he, -, rfl⟩ := positionOf_orderDbOf h
    exact hrange e he
  distinct a b n hn ha hb := by
    obtain ⟨e, he, rfl, rfl⟩ := positionOf_orderDbOf ha
    obtain ⟨e', he', rfl, heq⟩ := positionOf_orderDbOf hb
    rw [hdistinct e he e' he' hn heq]
  hash hash wtx hfind := hhash _ (OrderedMap.find?_eq_some_iff.mp hfind)
  records hash wtx hfind _ := by
    show ((walletOf wtxs).find? hash).map StoredTx.nOrderPos = some wtx.nOrderPos
    rw [hfind]
    rfl

/-- The second new position is the first old one, shifted by the first new one. -/
theorem reorderTransactions_collide : Loaded emptyTxHash (walletOf crowdedTxs) (orderDbOf crowdedTxs) ∧ ∃ s,
    reorderTransactions emptyTxHash (walletOf crowdedTxs) (orderDbOf crowdedTxs) = (.loadOk, s) ∧
      s.mapWallet.entries.map (fun e => (e.2.merkleTx.tx.nLockTime, e.2.nOrderPos)) = [(0, 1), (1, 0), (2, 1)] ∧
        ¬ StrictlyOrdered (positionOf (walletOf crowdedTxs) (orderDbOf crowdedTxs)) s := by
  refine ⟨loaded_orderDbOf (by decide +kernel) (by decide +kernel) (by decide +kernel), _, rfl, by decide +kernel, ?_⟩
  intro hordered
  have hitems := hordered.distinct (.inl (emptyTxHash (emptyTx 0))) (.inl (emptyTxHash (emptyTx 2))) 1
    (by decide +kernel) (by decide +kernel)
  exact absurd (Sum.inl.inj hitems) (by decide +kernel)

def roomyTxs : List StoredTx := [storedTxOf 0 1333333330 0, storedTxOf 1 1333333310 (-1)]

theorem reorderTransactions_roomy : ∃ s,
    reorderTransactions emptyTxHash (walletOf roomyTxs) (orderDbOf roomyTxs) = (.loadOk, s) ∧
      StrictlyOrdered (positionOf (walletOf roomyTxs) (orderDbOf roomyTxs)) s := by
  have hloaded : Loaded emptyTxHash (walletOf roomyTxs) (orderDbOf roomyTxs) :=
    loaded_orderDbOf (by decide +kernel) (by decide +kernel) (by decide +kernel)
  have hlisted : listedPositions (walletOf roomyTxs) (orderDbOf roomyTxs) = [-1, 0] := by decide +kernel
  have hspaced : Spaced (listedPositions (walletOf roomyTxs) (orderDbOf roomyTxs)) :=
    spaced_of_count_le_one (by rw [hlisted]; decide)
  obtain ⟨hends, hleaves⟩ := reorderTransactions_strictlyOrdered hloaded
  obtain ⟨s, hrun⟩ := hends ⟨fun _ => rfl, fun _ => rfl⟩ (by rw [hlisted]; decide)
  refine ⟨s, hrun, ((hleaves s hrun).1 hspaced).mpr ⟨fun acentry q _ hq => ?_, fun acentry _ _ _ hq => ?_⟩⟩
  · exact nomatch hq
  · exact nomatch hq

end Sample

end PupaCoin
