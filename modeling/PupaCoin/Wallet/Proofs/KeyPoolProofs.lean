import PupaCoin.Wallet.KeyPool

/-!
# The key pool accounts for its keys

As long as no operation writes an index that is reserved, the records, the set and the reservations fit together:
every record has one key of its own, which nobody has kept. Each primitive change of the wallet is shown to keep
this; an operation is a sequence of them.
-/

namespace PupaCoin

variable {n : Int} {i : Nat}

variable {κ : Type} {newKey : Nat → κ} {args : KeyPoolArgs}

namespace KeyWallet

/-- The records, the set, the reservations and the history fit together. -/
structure Inv (newKey : Nat → κ) (w : KeyWallet κ) : Prop where
  records : ∀ n keypool, w.pool n = some keypool → 1 ≤ n ∧ ∃ key ∈ w.mapKeys, keypool = ⟨some key⟩
  recorded : ∀ n ∈ w.setKeyPool, w.pool n ≠ none
  owned : ∀ n, w.pool n ≠ none → n ∈ w.setKeyPool ∨ ∃ i, w.Reserved i n
  assigned : ∀ i n, w.Reserved i n → n ∉ w.setKeyPool ∧ w.pool n = some ⟨(w.reserveKeys i).vchPubKey⟩
  exclusive : ∀ i j n, w.Reserved i n → w.Reserved j n → j = i
  distinct : ∀ m n keypool, w.pool m = some keypool → w.pool n = some keypool → m = n
  /-- What a reservation holds without an index is the default key. -/
  idle : ∀ i, (w.reserveKeys i).nIndex = -1 → ∀ key, (w.reserveKeys i).vchPubKey = some key →
    w.vchDefaultKey = some key
  vchDefaultKey : ∀ key, w.vchDefaultKey = some key → key ∈ w.mapKeys ∧ ∀ n, w.pool n ≠ some ⟨some key⟩
  fresh : ∀ m, w.nGenerated ≤ m → newKey m ∉ w.mapKeys
  kept : ∀ key, .kept key ∈ w.history → key ∈ w.mapKeys ∧ ∀ n, w.pool n ≠ some ⟨some key⟩
  neverAgain : NeverAgain w.history

theorem NeverAgain.cons {history : List (KeyEvent κ)} (h : NeverAgain history) {event : KeyEvent κ}
    (hevent : ∀ key, event = .handedOut key → .kept key ∉ history) : NeverAgain (event :: history) := by
  intro later key earlier heq
  match later with
  | [] =>
    obtain ⟨hhead, htail⟩ := List.cons.inj heq
    rw [← htail]
    exact hevent key hhead
  | event' :: later => exact h later key earlier (List.cons.inj heq).2

section Inv

variable {w : KeyWallet κ} {i : Nat} {n : Int} {key : κ}

theorem Loaded.inv (h : w.Loaded newKey) : w.Inv newKey where
  records := h.records
  recorded := fun n hn => (h.setKeyPool n).mp hn
  owned := fun n hn => Or.inl ((h.setKeyPool n).mpr hn)
  assigned := fun i n hi => by
    have hindex : (w.reserveKeys i).nIndex = -1 := congrArg CReserveKey.nIndex (h.reserveKeys i)
    exact absurd (hi.1.symm.trans hindex) hi.2
  exclusive := fun i j n hi => by
    have hindex : (w.reserveKeys i).nIndex = -1 := congrArg CReserveKey.nIndex (h.reserveKeys i)
    exact absurd (hi.1.symm.trans hindex) hi.2
  distinct := h.distinct
  idle := fun i _ key hkey => by
    have hnone : (w.reserveKeys i).vchPubKey = none := congrArg CReserveKey.vchPubKey (h.reserveKeys i)
    exact absurd (hnone.symm.trans hkey) (Option.some_ne_none key).symm
  vchDefaultKey := h.vchDefaultKey
  fresh := h.fresh
  kept := fun key hkey => by
    rw [h.history] at hkey
    exact absurd hkey List.not_mem_nil
  neverAgain := fun later key earlier heq => by
    rw [h.history] at heq
    exact absurd heq.symm (List.append_ne_nil_of_right_ne_nil later (List.cons_ne_nil _ _))

theorem Inv.accounted (h : w.Inv newKey) : w.Accounted where
  recorded := fun n hn => by
    obtain ⟨keypool, hpool⟩ := Option.ne_none_iff_exists'.mp (h.recorded n hn)
    obtain ⟨-, key, hkey, rfl⟩ := h.records n keypool hpool
    exact ⟨key, hkey, hpool⟩
  owned := h.owned
  assigned := fun i n hi => ⟨(h.assigned i n hi).1, (h.assigned i n hi).2, fun j hj => h.exclusive i j n hi hj⟩
  neverAgain := h.neverAgain

theorem Inv.exists_key (h : w.Inv newKey) (hn : n ∈ w.setKeyPool) :
    1 ≤ n ∧ ∃ key ∈ w.mapKeys, w.pool n = some ⟨some key⟩ ∧ .kept key ∉ w.history := by
  obtain ⟨keypool, hpool⟩ := Option.ne_none_iff_exists'.mp (h.recorded n hn)
  obtain ⟨hpos, key, hkey, rfl⟩ := h.records n keypool hpool
  exact ⟨hpos, key, hkey, hpool, fun hkept => (h.kept key hkept).2 n hpool⟩

theorem Inv.exists_reserved_key (h : w.Inv newKey) (hi : w.Reserved i n) :
    1 ≤ n ∧ ∃ key ∈ w.mapKeys, w.pool n = some ⟨some key⟩ ∧ (w.reserveKeys i).vchPubKey = some key ∧
      .kept key ∉ w.history := by
  have hpool := (h.assigned i n hi).2
  obtain ⟨hpos, key, hkey, heq⟩ := h.records n _ hpool
  rw [heq] at hpool
  exact ⟨hpos, key, hkey, hpool, CKeyPool.mk.inj heq, fun hkept => (h.kept key hkept).2 n hpool⟩

theorem Inv.record_handedOut (h : w.Inv newKey) (hkey : .kept key ∉ w.history) :
    (w.record [.handedOut key]).Inv newKey :=
  { h with
    kept := fun key' hkept => by
      rcases List.mem_cons.mp hkept with heq | hkept
      · exact nomatch heq
      · exact h.kept key' hkept
    neverAgain := h.neverAgain.cons fun key' heq => by rwa [← KeyEvent.handedOut.inj heq] }

theorem Inv.record_kept (h : w.Inv newKey) (hkey : key ∈ w.mapKeys) (hpool : ∀ n, w.pool n ≠ some ⟨some key⟩) :
    (w.record [.kept key]).Inv newKey :=
  { h with
    kept := fun key' hkept => by
      rcases List.mem_cons.mp hkept with heq | hkept
      · rw [KeyEvent.kept.inj heq]
        exact ⟨hkey, hpool⟩
      · exact h.kept key' hkept
    neverAgain := h.neverAgain.cons fun key' heq => nomatch heq }

theorem Inv.discard (h : w.Inv newKey) {gone : Finset Int} (hgone : gone ⊆ w.setKeyPool) : Inv newKey { w with
      pool := fun n => if n ∈ gone then none else w.pool n
      setKeyPool := w.setKeyPool \ gone } := by
  have hsome : ∀ n keypool, (if n ∈ gone then none else w.pool n) = some keypool →
      n ∉ gone ∧ w.pool n = some keypool := by
    intro n keypool hn
    by_cases hmem : n ∈ gone
    · rw [if_pos hmem] at hn
      exact absurd hn.symm (Option.some_ne_none keypool)
    · rw [if_neg hmem] at hn
      exact ⟨hmem, hn⟩
  exact
    { records := fun n keypool hn => h.records n keypool (hsome n keypool hn).2
      recorded := fun n hn => by
        obtain ⟨hold, hnot⟩ := Finset.mem_sdiff.mp hn
        show (if n ∈ gone then none else w.pool n) ≠ none
        rw [if_neg hnot]
        exact h.recorded n hold
      owned := fun n hn => by
        obtain ⟨keypool, hkeypool⟩ := Option.ne_none_iff_exists'.mp hn
        obtain ⟨hnot, hold⟩ := hsome n keypool hkeypool
        rcases h.owned n (by rw [hold]; exact Option.some_ne_none keypool) with hset | hreserved
        · exact Or.inl (Finset.mem_sdiff.mpr ⟨hset, hnot⟩)
        · exact Or.inr hreserved
      assigned := fun i n hi => by
        obtain ⟨hnot, hrecord⟩ := h.assigned i n hi
        refine ⟨fun hn => hnot (Finset.mem_sdiff.mp hn).1, ?_⟩
        show (if n ∈ gone then none else w.pool n) = _
        rw [if_neg fun hmem => hnot (hgone hmem)]
        exact hrecord
      exclusive := h.exclusive
      distinct := fun m n keypool hm hn => h.distinct m n keypool (hsome m keypool hm).2 (hsome n keypool hn).2
      idle := h.idle
      vchDefaultKey := fun key hkey =>
        ⟨(h.vchDefaultKey key hkey).1, fun n hn => (h.vchDefaultKey key hkey).2 n (hsome n _ hn).2⟩
      fresh := h.fresh
      kept := fun key hkey => ⟨(h.kept key hkey).1, fun n hn => (h.kept key hkey).2 n (hsome n _ hn).2⟩
      neverAgain := h.neverAgain }

theorem Inv.discard_index (h : w.Inv newKey) (hn : n ∈ w.setKeyPool) : ((w.eraseIndex n).erasePool n).Inv newKey := by
  have hpool : Function.update w.pool n none = fun m => if m ∈ ({n} : Finset Int) then none else w.pool m := by
    funext m
    rw [Function.update_apply]
    exact if_congr Finset.mem_singleton.symm rfl rfl
  have hdiscard := h.discard (Finset.singleton_subset_iff.mpr hn)
  rw [Finset.sdiff_singleton_eq_erase, ← hpool] at hdiscard
  exact hdiscard

theorem Inv.addRecord (h : w.Inv newKey) (hpos : 1 ≤ n) (hset : n ∉ w.setKeyPool) (hfree : ∀ i, ¬w.Reserved i n)
    (hkey : key ∈ w.mapKeys) (hpool : ∀ m, w.pool m ≠ some ⟨some key⟩) (hkept : .kept key ∉ w.history)
    (hdefault : w.vchDefaultKey ≠ some key) : ((w.writePool n ⟨some key⟩).insertIndex n).Inv newKey := by
  have hself : ((w.writePool n ⟨some key⟩).insertIndex n).pool n = some ⟨some key⟩ := Function.update_self ..
  have hother : ∀ m, m ≠ n → ((w.writePool n ⟨some key⟩).insertIndex n).pool m = w.pool m := fun m hm =>
    Function.update_of_ne hm ..
  have hsplit : ∀ m keypool, ((w.writePool n ⟨some key⟩).insertIndex n).pool m = some keypool →
      (m = n ∧ keypool = ⟨some key⟩) ∨ (m ≠ n ∧ w.pool m = some keypool) := by
    intro m keypool hm
    by_cases hmn : m = n
    · rw [hmn, hself] at hm
      exact Or.inl ⟨hmn, (Option.some.inj hm).symm⟩
    · rw [hother m hmn] at hm
      exact Or.inr ⟨hmn, hm⟩
  -- Another key has its records where it had them.
  have hrecords : ∀ key', key' ≠ key → (∀ m, w.pool m ≠ some ⟨some key'⟩) →
      ∀ m, ((w.writePool n ⟨some key⟩).insertIndex n).pool m ≠ some ⟨some key'⟩ := by
    intro key' hne hold m hm
    rcases hsplit m _ hm with ⟨-, heq⟩ | ⟨-, hm⟩
    · exact hne (Option.some.inj (CKeyPool.mk.inj heq))
    · exact hold m hm
  exact
    { records := fun m keypool hm => by
        rcases hsplit m keypool hm with ⟨rfl, rfl⟩ | ⟨-, hm⟩
        · exact ⟨hpos, key, hkey, rfl⟩
        · exact h.records m keypool hm
      recorded := fun m hm => by
        by_cases hmn : m = n
        · rw [hmn, hself]
          exact Option.some_ne_none _
        · rw [hother m hmn]
          exact h.recorded m (Finset.mem_of_mem_insert_of_ne hm hmn)
      owned := fun m hm => by
        by_cases hmn : m = n
        · rw [hmn]
          exact Or.inl (Finset.mem_insert_self n _)
        · rw [hother m hmn] at hm
          rcases h.owned m hm with hold | hreserved
          · exact Or.inl (Finset.mem_insert_of_mem hold)
          · exact Or.inr hreserved
      assigned := fun i m hi => by
        have hmn : m ≠ n := fun heq => hfree i (heq ▸ hi)
        obtain ⟨hnot, hrecord⟩ := h.assigned i m hi
        exact ⟨fun hm => hnot (Finset.mem_of_mem_insert_of_ne hm hmn), (hother m hmn).trans hrecord⟩
      exclusive := h.exclusive
      distinct := fun m m' keypool hm hm' => by
        rcases hsplit m keypool hm with ⟨rfl, rfl⟩ | ⟨-, hold⟩
        · rcases hsplit m' _ hm' with ⟨rfl, -⟩ | ⟨-, hold'⟩
          · rfl
          · exact absurd hold' (hpool m')
        · rcases hsplit m' keypool hm' with ⟨-, rfl⟩ | ⟨-, hold'⟩
          · exact absurd hold (hpool m)
          · exact h.distinct m m' keypool hold hold'
      idle := h.idle
      vchDefaultKey := fun key' hkey' =>
        ⟨(h.vchDefaultKey key' hkey').1, hrecords key' (fun heq => hdefault (heq ▸ hkey')) (h.vchDefaultKey key' hkey').2⟩
      fresh := h.fresh
      kept := fun key' hkey' =>
        ⟨(h.kept key' hkey').1, hrecords key' (fun heq => hkept (heq ▸ hkey')) (h.kept key' hkey').2⟩
      neverAgain := h.neverAgain }

theorem Inv.generate [DecidableEq κ] (hnew : Function.Injective newKey) (h : w.Inv newKey) : Inv newKey { w with
      nGenerated := w.nGenerated + 1
      mapKeys := insert (newKey w.nGenerated) w.mapKeys } where
  records := fun n keypool hn => by
    obtain ⟨hpos, key, hkey, heq⟩ := h.records n keypool hn
    exact ⟨hpos, key, Finset.mem_insert_of_mem hkey, heq⟩
  recorded := h.recorded
  owned := h.owned
  assigned := h.assigned
  exclusive := h.exclusive
  distinct := h.distinct
  idle := h.idle
  vchDefaultKey := fun key hkey => ⟨Finset.mem_insert_of_mem (h.vchDefaultKey key hkey).1, (h.vchDefaultKey key hkey).2⟩
  fresh := fun m hm hmem => by
    rcases Finset.mem_insert.mp hmem with heq | hold
    · have hle : w.nGenerated + 1 ≤ m := hm
      have hsame := hnew heq
      omega
    · exact h.fresh m (Nat.le_of_succ_le hm) hold
  kept := fun key hkey => ⟨Finset.mem_insert_of_mem (h.kept key hkey).1, (h.kept key hkey).2⟩
  neverAgain := h.neverAgain

theorem Inv.no_record (h : w.Inv newKey) (hkey : key ∉ w.mapKeys) : ∀ n, w.pool n ≠ some ⟨some key⟩ := by
  intro n hn
  obtain ⟨-, key', hkey', heq⟩ := h.records n _ hn
  rw [Option.some.inj (CKeyPool.mk.inj heq)] at hkey
  exact hkey hkey'

theorem Inv.take (h : w.Inv newKey) (hidle : (w.reserveKeys i).nIndex = -1) (hn : n ∈ w.setKeyPool)
    (hpool : w.pool n = some ⟨some key⟩) : ((w.eraseIndex n).setReserveKey i ⟨n, some key⟩).Inv newKey := by
  have hpos := (h.exists_key hn).1
  have hself : Function.update w.reserveKeys i ⟨n, some key⟩ i = ⟨n, some key⟩ := Function.update_self ..
  have hreserved : ∀ j m, ((w.eraseIndex n).setReserveKey i ⟨n, some key⟩).Reserved j m →
      (j = i ∧ m = n) ∨ (j ≠ i ∧ w.Reserved j m) := by
    rintro j m ⟨hindex, hm⟩
    by_cases hji : j = i
    · have hnm : (Function.update w.reserveKeys i ⟨n, some key⟩ j).nIndex = m := hindex
      rw [hji, hself] at hnm
      exact Or.inl ⟨hji, hnm.symm⟩
    · have hold : (Function.update w.reserveKeys i ⟨n, some key⟩ j).nIndex = m := hindex
      rw [Function.update_of_ne hji] at hold
      exact Or.inr ⟨hji, hold, hm⟩
  have hkept : ∀ j m, w.Reserved j m → j ≠ i ∧ ((w.eraseIndex n).setReserveKey i ⟨n, some key⟩).Reserved j m := by
    rintro j m ⟨hindex, hm⟩
    have hji : j ≠ i := by
      intro heq
      rw [heq, hidle] at hindex
      exact hm hindex.symm
    refine ⟨hji, ?_, hm⟩
    show (Function.update w.reserveKeys i ⟨n, some key⟩ j).nIndex = m
    rw [Function.update_of_ne hji, hindex]
  exact
    { records := h.records
      recorded := fun m hm => h.recorded m (Finset.mem_of_mem_erase hm)
      owned := fun m hm => by
        by_cases hmn : m = n
        · refine Or.inr ⟨i, ?_, by omega⟩
          show (Function.update w.reserveKeys i ⟨n, some key⟩ i).nIndex = m
          rw [hself, hmn]
        · rcases h.owned m hm with hset | ⟨j, hj⟩
          · exact Or.inl (Finset.mem_erase.mpr ⟨hmn, hset⟩)
          · exact Or.inr ⟨j, (hkept j m hj).2⟩
      assigned := fun j m hj => by
        rcases hreserved j m hj with ⟨rfl, rfl⟩ | ⟨hji, hj⟩
        · refine ⟨Finset.notMem_erase m _, ?_⟩
          show w.pool m = some ⟨(Function.update w.reserveKeys j ⟨m, some key⟩ j).vchPubKey⟩
          rw [hself, hpool]
        · obtain ⟨hnot, hrecord⟩ := h.assigned j m hj
          refine ⟨fun hm => hnot (Finset.mem_of_mem_erase hm), ?_⟩
          show w.pool m = some ⟨(Function.update w.reserveKeys i ⟨n, some key⟩ j).vchPubKey⟩
          rw [Function.update_of_ne hji, hrecord]
      exclusive := fun j j' m hj hj' => by
        rcases hreserved j m hj with ⟨hji, hmn⟩ | ⟨-, hj⟩
        · rcases hreserved j' m hj' with ⟨hji', -⟩ | ⟨-, hj'⟩
          · rw [hji, hji']
          · exact absurd (hmn ▸ hn) (h.assigned j' m hj').1
        · rcases hreserved j' m hj' with ⟨-, hmn⟩ | ⟨-, hj'⟩
          · exact absurd (hmn ▸ hn) (h.assigned j m hj).1
          · exact h.exclusive j j' m hj hj'
      distinct := h.distinct
      idle := fun j hj key' hkey' => by
        have hj : (Function.update w.reserveKeys i ⟨n, some key⟩ j).nIndex = -1 := hj
        have hkey' : (Function.update w.reserveKeys i ⟨n, some key⟩ j).vchPubKey = some key' := hkey'
        by_cases hji : j = i
        · rw [hji, hself] at hj
          have hn1 : n = -1 := hj
          omega
        · rw [Function.update_of_ne hji] at hj hkey'
          exact h.idle j hj key' hkey'
      vchDefaultKey := h.vchDefaultKey
      fresh := h.fresh
      kept := h.kept
      neverAgain := h.neverAgain }

theorem setReserveKey_self (w : KeyWallet κ) (i : Nat) (reservekey : CReserveKey κ) :
    (w.setReserveKey i reservekey).reserveKeys i = reservekey := Function.update_self ..

theorem reserved_setIdle {vchPubKey : Option κ} {j : Nat} {m : Int} :
    (w.setReserveKey i ⟨-1, vchPubKey⟩).Reserved j m ↔ j ≠ i ∧ w.Reserved j m := by
  show (Function.update w.reserveKeys i ⟨-1, vchPubKey⟩ j).nIndex = m ∧ m ≠ -1 ↔ _
  by_cases hji : j = i
  · rw [hji, Function.update_self]
    constructor
    · rintro ⟨hindex, hm⟩
      exact absurd hindex.symm hm
    · rintro ⟨hne, -⟩
      exact absurd rfl hne
  · rw [Function.update_of_ne hji]
    exact ⟨fun hj => ⟨hji, hj⟩, fun hj => hj.2⟩

theorem Inv.setIdle (h : w.Inv newKey) {vchPubKey : Option κ} (hkey : vchPubKey = none ∨ vchPubKey = w.vchDefaultKey)
    {pool : Int → Option (CKeyPool κ)} {setKeyPool : Finset Int}
    (hpool : ∀ n keypool, pool n = some keypool → w.pool n = some keypool)
    (hset : ∀ n, n ∈ setKeyPool ↔ n ∈ w.setKeyPool ∨ (w.Reserved i n ∧ pool n ≠ none))
    (hsame : ∀ n, ¬w.Reserved i n → pool n = w.pool n) :
    Inv newKey { w.setReserveKey i ⟨-1, vchPubKey⟩ with pool, setKeyPool } := by
  have hreserved : ∀ j m, KeyWallet.Reserved { w.setReserveKey i ⟨-1, vchPubKey⟩ with pool, setKeyPool } j m ↔
      j ≠ i ∧ w.Reserved j m := fun j m => reserved_setIdle
  have hfree : ∀ n ∈ w.setKeyPool, ¬w.Reserved i n := fun n hn hi => (h.assigned i n hi).1 hn
  exact
    { records := fun n keypool hn => h.records n keypool (hpool n keypool hn)
      recorded := fun n hn => by
        rcases (hset n).mp hn with hold | ⟨-, hrecord⟩
        · show pool n ≠ none
          rw [hsame n (hfree n hold)]
          exact h.recorded n hold
        · exact hrecord
      owned := fun n hn => by
        obtain ⟨keypool, hkeypool⟩ := Option.ne_none_iff_exists'.mp hn
        rcases h.owned n (by rw [hpool n keypool hkeypool]; exact Option.some_ne_none keypool) with hold | ⟨j, hj⟩
        · exact Or.inl ((hset n).mpr (Or.inl hold))
        · by_cases hji : j = i
          · exact Or.inl ((hset n).mpr (Or.inr ⟨hji ▸ hj, hn⟩))
          · exact Or.inr ⟨j, (hreserved j n).mpr ⟨hji, hj⟩⟩
      assigned := fun j n hj => by
        obtain ⟨hji, hj⟩ := (hreserved j n).mp hj
        have hi : ¬w.Reserved i n := fun hi => hji (h.exclusive i j n hi hj)
        obtain ⟨hnot, hrecord⟩ := h.assigned j n hj
        refine ⟨fun hn => ?_, ?_⟩
        · rcases (hset n).mp hn with hold | ⟨hi', -⟩
          · exact hnot hold
          · exact hi hi'
        · show pool n = some ⟨(Function.update w.reserveKeys i ⟨-1, vchPubKey⟩ j).vchPubKey⟩
          rw [Function.update_of_ne hji, hsame n hi, hrecord]
      exclusive := fun j j' n hj hj' => h.exclusive j j' n ((hreserved j n).mp hj).2 ((hreserved j' n).mp hj').2
      distinct := fun m n keypool hm hn => h.distinct m n keypool (hpool m keypool hm) (hpool n keypool hn)
      idle := fun j hj key' hkey' => by
        have hj : (Function.update w.reserveKeys i ⟨-1, vchPubKey⟩ j).nIndex = -1 := hj
        have hkey' : (Function.update w.reserveKeys i ⟨-1, vchPubKey⟩ j).vchPubKey = some key' := hkey'
        by_cases hji : j = i
        · rw [hji, Function.update_self] at hkey'
          rcases hkey with hnone | hdefault
          · exact absurd (hnone.symm.trans hkey') (Option.some_ne_none key').symm
          · exact hdefault.symm.trans hkey'
        · rw [Function.update_of_ne hji] at hj hkey'
          exact h.idle j hj key' hkey'
      vchDefaultKey := fun key hkey =>
        ⟨(h.vchDefaultKey key hkey).1, fun n hn => (h.vchDefaultKey key hkey).2 n (hpool n _ hn)⟩
      fresh := h.fresh
      kept := fun key hkey => ⟨(h.kept key hkey).1, fun n hn => (h.kept key hkey).2 n (hpool n _ hn)⟩
      neverAgain := h.neverAgain }

theorem Inv.setIdle_of_idle (h : w.Inv newKey) (hidle : (w.reserveKeys i).nIndex = -1) {vchPubKey : Option κ}
    (hkey : vchPubKey = none ∨ vchPubKey = w.vchDefaultKey) : (w.setReserveKey i ⟨-1, vchPubKey⟩).Inv newKey := by
  have hfree : ∀ n, ¬w.Reserved i n := fun n hi => hi.2 (hi.1.symm.trans hidle)
  refine h.setIdle hkey (fun n keypool hn => hn) (fun n => ?_) fun n _ => rfl
  exact ⟨Or.inl, fun hn => hn.resolve_right fun hi => hfree n hi.1⟩

theorem Inv.giveBack (h : w.Inv newKey) (hi : w.Reserved i n) :
    ((w.insertIndex n).setReserveKey i .initial).Inv newKey := by
  refine h.setIdle (Or.inl rfl) (fun n keypool hn => hn) (fun m => ?_) fun n _ => rfl
  show m ∈ insert n w.setKeyPool ↔ _
  rw [Finset.mem_insert]
  constructor
  · rintro (rfl | hm)
    · refine Or.inr ⟨hi, ?_⟩
      show w.pool m ≠ none
      rw [(h.assigned i m hi).2]
      exact Option.some_ne_none _
    · exact Or.inl hm
  · rintro (hm | ⟨hm, -⟩)
    · exact Or.inr hm
    · exact Or.inl (hm.1.symm.trans hi.1)

theorem Inv.release (h : w.Inv newKey) (hi : w.Reserved i n) :
    ((w.erasePool n).setReserveKey i .initial).Inv newKey := by
  have hself : Function.update w.pool n none n = none := Function.update_self ..
  refine h.setIdle (Or.inl rfl) (fun m keypool hm => ?_) (fun m => ?_) fun m hm => ?_
  · have hm : Function.update w.pool n none m = some keypool := hm
    by_cases hmn : m = n
    · rw [hmn, hself] at hm
      exact absurd hm.symm (Option.some_ne_none keypool)
    · rwa [Function.update_of_ne hmn] at hm
  · refine ⟨Or.inl, fun hm => hm.resolve_right ?_⟩
    rintro ⟨hm, hrecord⟩
    have hmn : m = n := hm.1.symm.trans hi.1
    rw [hmn] at hrecord
    exact hrecord hself
  · have hmn : m ≠ n := fun heq => hm (heq ▸ hi)
    exact Function.update_of_ne hmn _ _

end Inv

theorem lt_nextIndex {w : KeyWallet κ} (hn : n ∈ w.setKeyPool) : n < w.nextIndex := by
  rw [nextIndex, dif_pos ⟨n, hn⟩]
  exact Int.lt_add_one_of_le (Finset.le_max' _ n hn)

theorem nextIndex_insertIndex {w w' : KeyWallet κ} (h : w'.setKeyPool = insert w.nextIndex w.setKeyPool) :
    w'.nextIndex = w.nextIndex + 1 := by
  have hnonempty : w'.setKeyPool.Nonempty := ⟨w.nextIndex, by rw [h]; exact Finset.mem_insert_self _ _⟩
  have hmax : w'.setKeyPool.max' hnonempty = w.nextIndex := by
    refine (Finset.max'_eq_iff _ _ _).mpr ⟨by rw [h]; exact Finset.mem_insert_self _ _, fun m hm => ?_⟩
    rw [h] at hm
    rcases Finset.mem_insert.mp hm with rfl | hm
    · exact le_rfl
    · exact (lt_nextIndex hm).le
  rw [nextIndex, dif_pos hnonempty, hmax]

theorem Inv.nextIndex_pos {w : KeyWallet κ} (h : w.Inv newKey) : 1 ≤ w.nextIndex := by
  rw [nextIndex]
  split_ifs with hset
  · have := (h.exists_key (Finset.max'_mem _ hset)).1
    omega
  · exact le_rfl

/-- Keys have been added to the pool. -/
structure Grown (w w' : KeyWallet κ) : Prop where
  fLocked : w'.fLocked = w.fLocked
  vchDefaultKey : w'.vchDefaultKey = w.vchDefaultKey
  reserveKeys : w'.reserveKeys = w.reserveKeys
  history : w'.history = w.history
  setKeyPool : w.setKeyPool ⊆ w'.setKeyPool

theorem Grown.refl (w : KeyWallet κ) : Grown w w := ⟨rfl, rfl, rfl, rfl, Finset.Subset.refl _⟩

theorem Grown.trans {w w' w'' : KeyWallet κ} (h : Grown w w') (h' : Grown w' w'') : Grown w w'' :=
  ⟨h'.fLocked.trans h.fLocked, h'.vchDefaultKey.trans h.vchDefaultKey, h'.reserveKeys.trans h.reserveKeys,
    h'.history.trans h.history, h.setKeyPool.trans h'.setKeyPool⟩

theorem Grown.reserved_iff {w w' : KeyWallet κ} (h : Grown w w') : w'.Reserved i n ↔ w.Reserved i n := by
  rw [Reserved, Reserved, h.reserveKeys]

end KeyWallet

open KeyWallet

section Operations

variable [DecidableEq κ] {w : KeyWallet κ}

theorem addPoolKey_spec (hnew : Function.Injective newKey) (h : w.Inv newKey) (hunlocked : w.fLocked = false)
    (hpos : 1 ≤ n) (hset : n ∉ w.setKeyPool) (hfree : ∀ i, ¬w.Reserved i n) :
    ∃ w', addPoolKey newKey n w = (.ok (), w') ∧ w'.Inv newKey ∧ Grown w w' ∧
      w'.setKeyPool = insert n w.setKeyPool := by
  have hfresh := h.fresh w.nGenerated le_rfl
  have hadd := (h.generate hnew).addRecord hpos hset hfree (Finset.mem_insert_self _ _) (h.no_record hfresh)
    (fun hkept => hfresh (h.kept _ hkept).1) fun hdefault => hfresh (h.vchDefaultKey _ hdefault).1
  refine ⟨_, ?_, hadd, ⟨rfl, rfl, rfl, rfl, Finset.subset_insert _ _⟩, rfl⟩
  have hgenerate : generateNewKey newKey w = (.ok (newKey w.nGenerated), { w with
      nGenerated := w.nGenerated + 1
      mapKeys := insert (newKey w.nGenerated) w.mapKeys }) := if_neg (by rw [hunlocked]; exact Bool.false_ne_true)
  rw [addPoolKey, Exec.bind_of_ok hgenerate]
  rfl

theorem topUpLoop_spec (hnew : Function.Injective newKey) {size fuel : Nat} (h : w.Inv newKey)
    (hunlocked : w.fLocked = false) (hfuel : size ≤ w.setKeyPool.card + fuel)
    (hfree : ∀ i n, w.Reserved i n → ¬(w.nextIndex ≤ n ∧ n < w.nextIndex + size - w.setKeyPool.card)) :
    ∃ w', topUpLoop newKey size fuel w = (.ok (), w') ∧ w'.Inv newKey ∧ Grown w w' ∧ size ≤ w'.setKeyPool.card := by
  induction fuel generalizing w with
  | zero => exact ⟨w, rfl, h, Grown.refl w, hfuel⟩
  | succ fuel ih =>
    by_cases hsmall : w.setKeyPool.card < size
    · have hnot : w.nextIndex ∉ w.setKeyPool := fun hmem => lt_irrefl _ (lt_nextIndex hmem)
      obtain ⟨w₁, hadd, h₁, hgrown, hset⟩ := addPoolKey_spec hnew h hunlocked h.nextIndex_pos hnot
        fun i hi => hfree i _ hi ⟨le_rfl, by omega⟩
      have hcard : w₁.setKeyPool.card = w.setKeyPool.card + 1 := by
        rw [hset, Finset.card_insert_of_notMem hnot]
      have hnext := nextIndex_insertIndex hset
      obtain ⟨w', hloop, h', hgrown', hsize⟩ := ih h₁ (hgrown.fLocked.trans hunlocked) (by omega) (by
        intro i n hi hrange
        refine hfree i n (hgrown.reserved_iff.mp hi) ?_
        rw [hnext, hcard] at hrange
        push_cast at hrange
        omega)
      refine ⟨w', ?_, h', hgrown.trans hgrown', hsize⟩
      rw [topUpLoop]
      show (if w.setKeyPool.card < size then _ else _ : KeyWalletM κ Unit) w = _
      rw [if_pos hsmall, Exec.bind_of_ok hadd, hloop]
    · refine ⟨w, ?_, h, Grown.refl w, Nat.le_of_not_lt hsmall⟩
      rw [topUpLoop]
      show (if w.setKeyPool.card < size then _ else _ : KeyWalletM κ Unit) w = _
      rw [if_neg hsmall]
      rfl

theorem topUpKeyPool_spec (hnew : Function.Injective newKey) (h : w.Inv newKey) {nSize : UInt32}
    (hsafe : TopUpSafe args nSize w) :
    ∃ r w', topUpKeyPool newKey args nSize w = (.ok r, w') ∧ w'.Inv newKey ∧ Grown w w' ∧
      (w.fLocked = false → topUpSize args nSize ≤ w'.setKeyPool.card) := by
  cases hlocked : w.fLocked with
  | true =>
    refine ⟨false, w, ?_, h, Grown.refl w, fun hfalse => nomatch hfalse⟩
    rw [topUpKeyPool]
    show (if w.fLocked = true then _ else _ : KeyWalletM κ Bool) w = _
    rw [if_pos hlocked]
    rfl
  | false =>
    obtain ⟨w', hloop, h', hgrown, hsize⟩ := topUpLoop_spec hnew h hlocked (Nat.le_add_left _ _) (hsafe hlocked)
    refine ⟨true, w', ?_, h', hgrown, fun _ => hsize⟩
    rw [topUpKeyPool]
    show (if w.fLocked = true then _ else _ : KeyWalletM κ Bool) w = _
    rw [if_neg (by rw [hlocked]; exact Bool.false_ne_true), Exec.bind_of_ok hloop]
    rfl

theorem addPoolKeys_spec (hnew : Function.Injective newKey) (h : w.Inv newKey) (indices : List Nat)
    (hunlocked : w.fLocked = false) (hnodup : indices.Nodup) (hset : ∀ i ∈ indices, ((i : Int) + 1) ∉ w.setKeyPool)
    (hfree : ∀ i ∈ indices, ∀ j, ¬w.Reserved j ((i : Int) + 1)) :
    ∃ w', (indices.forM fun i => addPoolKey newKey ((i : Int) + 1)) w = (.ok (), w') ∧ w'.Inv newKey := by
  induction indices generalizing w with
  | nil => exact ⟨w, rfl, h⟩
  | cons i indices ih =>
    obtain ⟨hi, hrest⟩ := List.nodup_cons.mp hnodup
    obtain ⟨w₁, hadd, h₁, hgrown, hset₁⟩ := addPoolKey_spec hnew h hunlocked (by omega)
      (hset i List.mem_cons_self) (hfree i List.mem_cons_self)
    obtain ⟨w', hloop, h'⟩ := ih h₁ (hgrown.fLocked.trans hunlocked) hrest (by
      intro j hj hmem
      rw [hset₁] at hmem
      rcases Finset.mem_insert.mp hmem with heq | hmem
      · have hij : j = i := by omega
        exact hi (hij ▸ hj)
      · exact hset j (List.mem_cons_of_mem i hj) hmem) (by
      intro j hj k hk
      exact hfree j (List.mem_cons_of_mem i hj) k (hgrown.reserved_iff.mp hk))
    refine ⟨w', ?_, h'⟩
    show (addPoolKey newKey ((i : Int) + 1) >>= fun _ => indices.forM fun i => addPoolKey newKey ((i : Int) + 1)) w = _
    rw [Exec.bind_of_ok hadd, hloop]

theorem newKeyPool_spec (hnew : Function.Injective newKey) (h : w.Inv newKey) (hsafe : KeyPoolSafe args w .newKeyPool)
    : ∃ r w', newKeyPool newKey args w = (.ok r, w') ∧ w'.Inv newKey := by
  have hclear := h.discard (Finset.Subset.refl w.setKeyPool)
  rw [Finset.sdiff_self] at hclear
  set w₁ : KeyWallet κ := { w with
    pool := fun n => if n ∈ w.setKeyPool then none else w.pool n
    setKeyPool := ∅ } with hw₁
  cases hlocked : w.fLocked with
  | true =>
    refine ⟨false, w₁, ?_, hclear⟩
    rw [newKeyPool]
    show (if w.fLocked = true then _ else _ : KeyWalletM κ Bool) w₁ = _
    rw [if_pos hlocked]
    rfl
  | false =>
    obtain ⟨w', hloop, h'⟩ := addPoolKeys_spec hnew hclear (List.range args.nKeys.toNat) hlocked
      List.nodup_range (fun i _ => Finset.notMem_empty _) (by
        intro i hi j hj
        have hrange := List.mem_range.mp hi
        exact hsafe hlocked j _ hj ⟨by omega, by omega⟩)
    refine ⟨true, w', ?_, h'⟩
    rw [newKeyPool]
    show (if w.fLocked = true then _ else _ : KeyWalletM κ Bool) w₁ = _
    rw [if_neg (by rw [hlocked]; exact Bool.false_ne_true), Exec.bind_of_ok hloop]
    rfl

theorem takeOldestKey_spec (h : w.Inv newKey) (assign : Int → KeyWallet κ → KeyWallet κ) :
    (∃ n key, n ∈ w.setKeyPool ∧ w.pool n = some ⟨some key⟩ ∧
      takeOldestKey assign w = (.ok (n, ⟨some key⟩), (assign n w).eraseIndex n)) ∨
    (w.setKeyPool = ∅ ∧ takeOldestKey assign w = (.ok (-1, ⟨none⟩), w)) := by
  by_cases hset : w.setKeyPool.Nonempty
  · have hmem := Finset.min'_mem _ hset
    obtain ⟨-, key, hkey, hpool, -⟩ := h.exists_key hmem
    have hhave : w.haveKey (some key) = true := decide_eq_true hkey
    refine Or.inl ⟨_, key, hmem, hpool, ?_⟩
    show (if hset : w.setKeyPool.Nonempty then _ else _ : KeyWalletM κ (Int × CKeyPool κ)) w = _
    rw [dif_pos hset]
    rw [Exec.update_bind, Exec.update_bind, hpool]
    show (if w.haveKey (some key) = true then _ else _ : KeyWalletM κ (Int × CKeyPool κ)) _ = _
    rw [if_pos hhave]
    rfl
  · refine Or.inr ⟨Finset.not_nonempty_iff_eq_empty.mp hset, ?_⟩
    show (if hset : w.setKeyPool.Nonempty then _ else _ : KeyWalletM κ (Int × CKeyPool κ)) w = _
    rw [dif_neg hset]
    rfl

theorem reserveKeyFromKeyPool_spec (hnew : Function.Injective newKey) (h : w.Inv newKey) (hsafe : TopUpSafe args 0 w)
    (assign : Int → KeyWallet κ → KeyWallet κ) (hassign : assign (-1) w = w) : ∃ w', w'.Inv newKey ∧ Grown w w' ∧
      ((∃ n key, n ∈ w'.setKeyPool ∧ w'.pool n = some ⟨some key⟩ ∧
          reserveKeyFromKeyPool newKey args assign w = (.ok (n, ⟨some key⟩), (assign n w').eraseIndex n)) ∨
        (w.setKeyPool = ∅ ∧ (w.fLocked = true ∨ topUpSize args 0 = 0) ∧
          reserveKeyFromKeyPool newKey args assign w = (.ok (-1, ⟨none⟩), w'))) := by
  have hrun : reserveKeyFromKeyPool newKey args assign w = (if w.fLocked then takeOldestKey assign
        else topUpKeyPool newKey args 0 >>= fun _ => takeOldestKey assign) w := by
    show (if (assign (-1) w).fLocked then takeOldestKey assign
      else topUpKeyPool newKey args 0 >>= fun _ => takeOldestKey assign) (assign (-1) w) = _
    rw [hassign]
  rw [hrun]
  cases hlocked : w.fLocked with
  | true =>
    refine ⟨w, h, Grown.refl w, ?_⟩
    rw [if_pos rfl]
    rcases takeOldestKey_spec h assign with htake | ⟨hempty, htake⟩
    · exact Or.inl htake
    · exact Or.inr ⟨hempty, Or.inl rfl, htake⟩
  | false =>
    obtain ⟨r, w', htop, h', hgrown, hsize⟩ := topUpKeyPool_spec hnew h hsafe
    refine ⟨w', h', hgrown, ?_⟩
    rw [if_neg Bool.false_ne_true, Exec.bind_of_ok htop]
    rcases takeOldestKey_spec h' assign with htake | ⟨hempty, htake⟩
    · exact Or.inl htake
    · have hcard := hsize hlocked
      rw [hempty, Finset.card_empty] at hcard
      exact Or.inr ⟨Finset.subset_empty.mp (hempty ▸ hgrown.setKeyPool), Or.inr (Nat.le_zero.mp hcard), htake⟩

theorem getKeyFromPool_spec (hnew : Function.Injective newKey) (h : w.Inv newKey) (hsafe : TopUpSafe args 0 w) :
    ∃ w', w'.Inv newKey ∧ (getKeyFromPool newKey args w = (.ok none, w') ∨
      ∃ key ∈ w'.mapKeys, (∀ n, w'.pool n ≠ some ⟨some key⟩) ∧ .kept key ∉ w'.history ∧
        getKeyFromPool newKey args w = (.ok (some key), w')) := by
  obtain ⟨w₁, h₁, hgrown, ⟨n, key, hmem, hpool, hreserve⟩ | ⟨-, hnone, hreserve⟩⟩ :=
    reserveKeyFromKeyPool_spec hnew h hsafe (fun _ w => w) rfl
  · obtain ⟨hpos, key', hkey, hpool', hkept⟩ := h₁.exists_key hmem
    have hsame : key' = key := Option.some.inj (CKeyPool.mk.inj (Option.some.inj (hpool'.symm.trans hpool)))
    rw [hsame] at hkey hkept
    refine ⟨(w₁.eraseIndex n).erasePool n, h₁.discard_index hmem, Or.inr ⟨key, hkey, fun m hm => ?_, hkept, ?_⟩⟩
    · have hm : Function.update w₁.pool n none m = some ⟨some key⟩ := hm
      by_cases hmn : m = n
      · rw [hmn, Function.update_self] at hm
        exact absurd hm.symm (Option.some_ne_none _)
      · rw [Function.update_of_ne hmn] at hm
        exact hmn (h₁.distinct m n _ hm hpool)
    · have hindex : ¬n = -1 := by omega
      rw [getKeyFromPool, Exec.bind_of_ok hreserve]
      show (if n = -1 then _ else _ : KeyWalletM κ (Option κ)) _ = _
      rw [if_neg hindex]
      rfl
  · have hrun : getKeyFromPool newKey args w = (if w₁.fLocked then pure none else
        generateNewKey newKey >>= fun result => pure (some result) : KeyWalletM κ (Option κ)) w₁ := by
      rw [getKeyFromPool, Exec.bind_of_ok hreserve]
      rfl
    rw [hrun]
    cases hlocked : w₁.fLocked with
    | true => exact ⟨w₁, h₁, Or.inl rfl⟩
    | false =>
      have hfresh := h₁.fresh w₁.nGenerated le_rfl
      refine ⟨_, h₁.generate hnew, Or.inr ⟨newKey w₁.nGenerated, Finset.mem_insert_self _ _, h₁.no_record hfresh,
        fun hkept => hfresh (h₁.kept _ hkept).1, ?_⟩⟩
      have hgenerate : generateNewKey newKey w₁ = (.ok (newKey w₁.nGenerated), { w₁ with
          nGenerated := w₁.nGenerated + 1
          mapKeys := insert (newKey w₁.nGenerated) w₁.mapKeys }) :=
        if_neg (by rw [hlocked]; exact Bool.false_ne_true)
      rw [if_neg Bool.false_ne_true, Exec.bind_of_ok hgenerate]
      rfl

omit [DecidableEq κ] in
theorem heldKey_eq {key : κ} (hkey : (w.reserveKeys i).vchPubKey = some key) :
    CReserveKey.heldKey i w = (.ok (some key), w) := by
  show (if (w.reserveKeys i).vchPubKey.isSome then pure (w.reserveKeys i).vchPubKey else _ : KeyWalletM κ _) w = _
  rw [hkey]
  rfl

theorem fillReservation_spec (hnew : Function.Injective newKey) (h : w.Inv newKey)
    (hidle : (w.reserveKeys i).nIndex = -1) (hsafe : KeyPoolSafe args w (.getReservedKey i)) :
    ∃ w', w'.Inv newKey ∧ (CReserveKey.fillReservation newKey args i w = (.ok false, w') ∨
      ∃ key, (w'.reserveKeys i).vchPubKey = some key ∧ .kept key ∉ w'.history ∧
        CReserveKey.fillReservation newKey args i w = (.ok true, w')) := by
  obtain ⟨htop, hdefault⟩ := hsafe hidle
  have hassign : w.setReserveKey i { w.reserveKeys i with nIndex := -1 } = w := by
    have hself : ({ w.reserveKeys i with nIndex := -1 } : CReserveKey κ) = w.reserveKeys i := by
      rw [← hidle]
    rw [hself, setReserveKey, Function.update_eq_self]
  obtain ⟨w₁, h₁, hgrown, ⟨n, key, hmem, hpool, hreserve⟩ | ⟨hempty, hnone, hreserve⟩⟩ :=
    reserveKeyFromKeyPool_spec hnew h htop (fun nIndex w => w.setReserveKey i { w.reserveKeys i with nIndex }) hassign
  · obtain ⟨hpos, key', -, hpool', hkept⟩ := h₁.exists_key hmem
    have hsame : key' = key := Option.some.inj (CKeyPool.mk.inj (Option.some.inj (hpool'.symm.trans hpool)))
    rw [hsame] at hkept
    have hidle₁ : (w₁.reserveKeys i).nIndex = -1 := by rw [hgrown.reserveKeys, hidle]
    have hindex : n ≠ -1 := by omega
    refine ⟨(w₁.eraseIndex n).setReserveKey i ⟨n, some key⟩, h₁.take hidle₁ hmem hpool,
      Or.inr ⟨key, by rw [setReserveKey_self], hkept, ?_⟩⟩
    rw [CReserveKey.fillReservation, Exec.bind_of_ok hreserve]
    show (if n ≠ -1 then _ else _ : KeyWalletM κ Bool) _ = _
    rw [if_pos hindex]
    show (Except.ok true, KeyWallet.mk _ _ _ _ _ _ (Function.update (Function.update w₁.reserveKeys i _) i
      { Function.update w₁.reserveKeys i _ i with vchPubKey := some key }) _) = _
    rw [Function.update_idem, Function.update_self]
    rfl
  · have hrun : CReserveKey.fillReservation newKey args i w = (if w₁.vchDefaultKey.isSome then do
        Exec.update fun w => w.setReserveKey i { w.reserveKeys i with vchPubKey := w.vchDefaultKey }
        return true
      else return false : KeyWalletM κ Bool) w₁ := by
      rw [CReserveKey.fillReservation, Exec.bind_of_ok hreserve]
      rfl
    rw [hrun]
    cases hkey : w₁.vchDefaultKey with
    | none => exact ⟨w₁, h₁, Or.inl rfl⟩
    | some key =>
      have hidle₁ : (w₁.reserveKeys i).nIndex = -1 := by rw [hgrown.reserveKeys, hidle]
      have hkept : .kept key ∉ w₁.history := by
        rw [hgrown.history]
        exact hdefault hempty hnone key (by rw [← hgrown.vchDefaultKey, hkey])
      refine ⟨w₁.setReserveKey i ⟨-1, some key⟩, h₁.setIdle_of_idle hidle₁ (Or.inr hkey.symm),
        Or.inr ⟨key, by rw [setReserveKey_self], hkept, ?_⟩⟩
      show (Except.ok true, w₁.setReserveKey i ⟨(w₁.reserveKeys i).nIndex, w₁.vchDefaultKey⟩) = _
      rw [hidle₁, hkey]

theorem getReservedKey_spec (hnew : Function.Injective newKey) (h : w.Inv newKey)
    (hsafe : KeyPoolSafe args w (.getReservedKey i)) :
    ∃ w', w'.Inv newKey ∧ (CReserveKey.getReservedKey newKey args i w = (.ok none, w') ∨
      ∃ key, .kept key ∉ w'.history ∧ CReserveKey.getReservedKey newKey args i w = (.ok (some key), w')) := by
  have hrun : CReserveKey.getReservedKey newKey args i w = (if (w.reserveKeys i).nIndex = -1 then do
      let filled ← CReserveKey.fillReservation newKey args i
      if filled then CReserveKey.heldKey i else return none
    else CReserveKey.heldKey i) w := rfl
  rw [hrun]
  by_cases hidle : (w.reserveKeys i).nIndex = -1
  · rw [if_pos hidle]
    obtain ⟨w', h', hfill | ⟨key, hkey, hkept, hfill⟩⟩ := fillReservation_spec hnew h hidle hsafe
    · rw [Exec.bind_of_ok hfill]
      exact ⟨w', h', Or.inl rfl⟩
    · rw [Exec.bind_of_ok hfill]
      exact ⟨w', h', Or.inr ⟨key, hkept, heldKey_eq hkey⟩⟩
  · rw [if_neg hidle]
    obtain ⟨-, key, -, -, hkey, hkept⟩ := h.exists_reserved_key ⟨rfl, hidle⟩
    exact ⟨w, h, Or.inr ⟨key, hkept, heldKey_eq hkey⟩⟩

omit [DecidableEq κ] in
theorem keepKey_spec (h : w.Inv newKey) (i : Nat) :
    ∃ w', CReserveKey.keepKey i w = (.ok (), w') ∧ w'.Inv newKey ∧ ∀ key, (w.reserveKeys i).vchPubKey = some key →
      key ∈ w'.mapKeys ∧ ∀ n, w'.pool n ≠ some ⟨some key⟩ := by
  have hrun : CReserveKey.keepKey i w = ((if (w.reserveKeys i).nIndex ≠ -1 then keepKey (w.reserveKeys i).nIndex
      else pure ()) >>= fun _ => Exec.update (KeyWallet.setReserveKey i .initial) : KeyWalletM κ Unit) w := rfl
  rw [hrun]
  by_cases hidle : (w.reserveKeys i).nIndex = -1
  · rw [if_neg (fun hne => hne hidle)]
    refine ⟨_, rfl, h.setIdle_of_idle hidle (Or.inl rfl), fun key hkey => ?_⟩
    exact h.vchDefaultKey key (h.idle i hidle key hkey)
  · rw [if_pos hidle]
    have hi : w.Reserved i (w.reserveKeys i).nIndex := ⟨rfl, hidle⟩
    obtain ⟨-, key, hkey, hpool, hheld, -⟩ := h.exists_reserved_key hi
    refine ⟨_, rfl, h.release hi, fun key' hkey' => ?_⟩
    rw [← Option.some.inj (hheld.symm.trans hkey')]
    refine ⟨hkey, fun m hm => ?_⟩
    have hm : Function.update w.pool (w.reserveKeys i).nIndex none m = some ⟨some key⟩ := hm
    by_cases hmn : m = (w.reserveKeys i).nIndex
    · rw [hmn, Function.update_self] at hm
      exact absurd hm.symm (Option.some_ne_none _)
    · rw [Function.update_of_ne hmn] at hm
      exact hmn (h.distinct m _ _ hm hpool)

omit [DecidableEq κ] in
theorem returnKey_spec (h : w.Inv newKey) (i : Nat) :
    ∃ w', CReserveKey.returnKey i w = (.ok (), w') ∧ w'.Inv newKey := by
  have hrun : CReserveKey.returnKey i w = ((if (w.reserveKeys i).nIndex ≠ -1 then returnKey (w.reserveKeys i).nIndex
      else pure ()) >>= fun _ => Exec.update (KeyWallet.setReserveKey i .initial) : KeyWalletM κ Unit) w := rfl
  rw [hrun]
  by_cases hidle : (w.reserveKeys i).nIndex = -1
  · rw [if_neg (fun hne => hne hidle)]
    exact ⟨_, rfl, h.setIdle_of_idle hidle (Or.inl rfl)⟩
  · rw [if_pos hidle]
    exact ⟨_, rfl, h.giveBack ⟨rfl, hidle⟩⟩

omit [DecidableEq κ] in
theorem addReserveKey_spec (h : w.Inv newKey) {keypool : CKeyPool κ}
    (hsafe : KeyPoolSafe args w (.addReserveKey keypool)) :
    ∃ r w', addReserveKey keypool w = (.ok r, w') ∧ w'.Inv newKey := by
  obtain ⟨hset, hfree, key, hkey, rfl, hpool, hkept, hdefault⟩ := hsafe
  have hnext : 1 + w.setKeyPool.max' hset = w.nextIndex := by
    rw [nextIndex, dif_pos hset]
    omega
  have hnot : w.nextIndex ∉ w.setKeyPool := fun hmem => lt_irrefl _ (lt_nextIndex hmem)
  refine ⟨w.nextIndex, _, ?_, h.addRecord h.nextIndex_pos hnot hfree hkey hpool hkept hdefault⟩
  show (if hset : w.setKeyPool.Nonempty then _ else _ : KeyWalletM κ Int) w = _
  rw [dif_pos hset]
  show (Except.ok (1 + w.setKeyPool.max' hset),
    (w.writePool (1 + w.setKeyPool.max' hset) ⟨some key⟩).insertIndex (1 + w.setKeyPool.max' hset)) = _
  rw [hnext]

/-- Every operation that is safe where it begins returns, and keeps the invariant. -/
theorem keyPoolStep_spec (hnew : Function.Injective newKey) (h : w.Inv newKey) {op : KeyPoolOp κ}
    (hsafe : KeyPoolSafe args w op) : ∃ w', keyPoolStep newKey args op w = (.ok (), w') ∧ w'.Inv newKey := by
  cases op with
  | newKeyPool =>
    obtain ⟨r, w', hrun, h'⟩ := newKeyPool_spec hnew h hsafe
    refine ⟨w', ?_, h'⟩
    rw [keyPoolStep, Exec.bind_of_ok hrun]
    rfl
  | topUpKeyPool nSize =>
    obtain ⟨r, w', hrun, h', -, -⟩ := topUpKeyPool_spec hnew h hsafe
    refine ⟨w', ?_, h'⟩
    rw [keyPoolStep, Exec.bind_of_ok hrun]
    rfl
  | addReserveKey keypool =>
    obtain ⟨r, w', hrun, h'⟩ := addReserveKey_spec h hsafe
    refine ⟨w', ?_, h'⟩
    rw [keyPoolStep, Exec.bind_of_ok hrun]
    rfl
  | getKeyFromPool =>
    obtain ⟨w', h', hrun | ⟨key, hkey, hpool, hkept, hrun⟩⟩ := getKeyFromPool_spec hnew h hsafe
    · refine ⟨w', ?_, h'⟩
      rw [keyPoolStep, Exec.bind_of_ok hrun]
      rfl
    · refine ⟨_, ?_, (h'.record_handedOut hkept).record_kept hkey hpool⟩
      rw [keyPoolStep, Exec.bind_of_ok hrun]
      rfl
  | getReservedKey i =>
    obtain ⟨w', h', hrun | ⟨key, hkept, hrun⟩⟩ := getReservedKey_spec hnew h hsafe
    · refine ⟨w', ?_, h'⟩
      rw [keyPoolStep, Exec.bind_of_ok hrun]
      rfl
    · refine ⟨_, ?_, h'.record_handedOut hkept⟩
      rw [keyPoolStep, Exec.bind_of_ok hrun]
      rfl
  | keepKey i =>
    obtain ⟨w', hrun, h', hkept⟩ := keepKey_spec h i
    have hstep : keyPoolStep newKey args (.keepKey i) w =
        (.ok (), w'.record ((w.reserveKeys i).vchPubKey.toList.map .kept)) := by
      show (CReserveKey.keepKey i >>= fun _ => Exec.update _) w = _
      rw [Exec.bind_of_ok hrun]
      rfl
    rw [hstep]
    cases hkey : (w.reserveKeys i).vchPubKey with
    | none => exact ⟨w', rfl, h'⟩
    | some key => exact ⟨_, rfl, h'.record_kept (hkept key hkey).1 (hkept key hkey).2⟩
  | returnKey i => exact returnKey_spec h i
  | lock => exact ⟨_, rfl, { h with }⟩
  | unlock => exact ⟨_, rfl, { h with }⟩

end Operations

theorem SafeKeyPoolRun.inv [DecidableEq κ] (hnew : Function.Injective newKey) {w₀ w : KeyWallet κ}
    (hrun : SafeKeyPoolRun newKey args w₀ w) (h₀ : w₀.Inv newKey) : w.Inv newKey := by
  induction hrun with
  | start => exact h₀
  | step op hrun hsafe ih =>
    obtain ⟨w', hstep, h'⟩ := keyPoolStep_spec hnew ih hsafe
    rw [hstep]
    exact h'

/-- In every run of safe operations the pool accounts for its keys, and no safe operation throws. -/
theorem keyPool_accounted [DecidableEq κ] (hnew : Function.Injective newKey) {w₀ w : KeyWallet κ}
    (hloaded : w₀.Loaded newKey) (hrun : SafeKeyPoolRun newKey args w₀ w) :
    w.Accounted ∧ ∀ op, KeyPoolSafe args w op → (keyPoolStep newKey args op w).1 = .ok () := by
  have h := hrun.inv hnew hloaded.inv
  refine ⟨h.accounted, fun op hsafe => ?_⟩
  obtain ⟨w', hstep, -⟩ := keyPoolStep_spec hnew h hsafe
  rw [hstep]

namespace Sample

def newWallet : KeyWallet Nat := ⟨∅, false, none, ∅, fun _ => none, 0, fun _ => .initial, []⟩

def smallPool : KeyPoolArgs := ⟨false, some 1⟩

def runKeyPool (ops : List (KeyPoolOp Nat)) : KeyWallet Nat :=
  ops.foldl (fun w op => (keyPoolStep id smallPool op w).2) newWallet

theorem newWallet_loaded : newWallet.Loaded id where
  setKeyPool := fun n => ⟨fun hn => absurd hn (Finset.notMem_empty n), fun hn => absurd rfl hn⟩
  records := fun _ _ hn => nomatch hn
  distinct := fun _ _ _ hn => nomatch hn
  vchDefaultKey := fun _ hkey => nomatch hkey
  fresh := fun m _ => Finset.notMem_empty m
  reserveKeys := fun _ => rfl
  history := rfl

theorem newWallet_reserved {w : KeyWallet Nat} (h : w.reserveKeys = newWallet.reserveKeys) (i : Nat) (n : Int) :
    ¬w.Reserved i n := by
  rintro ⟨hindex, hn⟩
  rw [h] at hindex
  exact hn hindex.symm

theorem keyPool_accounted_kept : (runKeyPool [.newKeyPool, .getReservedKey 0, .keepKey 0]).Accounted := by
  have h₁ : SafeKeyPoolRun id smallPool newWallet (runKeyPool [.newKeyPool]) :=
    .step .newKeyPool (.start newWallet) fun _ i n hi => absurd hi (newWallet_reserved rfl i n)
  have hfree : ∀ i n, ¬(runKeyPool [.newKeyPool]).Reserved i n := newWallet_reserved rfl
  have h₂ : SafeKeyPoolRun id smallPool newWallet (runKeyPool [.newKeyPool, .getReservedKey 0]) :=
    .step (.getReservedKey 0) h₁ fun _ =>
      ⟨fun _ i n hi => absurd hi (hfree i n), fun _ _ key hkey => (Option.some_ne_none key hkey.symm).elim⟩
  have h₃ : SafeKeyPoolRun id smallPool newWallet (runKeyPool [.newKeyPool, .getReservedKey 0, .keepKey 0]) :=
    .step (.keepKey 0) h₂ trivial
  exact (keyPool_accounted Function.injective_id newWallet_loaded h₃).1

/-- `NewKeyPool` writes the index that is reserved; the key is kept, the new record is erased for it, and the next
key is not found. The wallet is never locked. -/
theorem newKeyPool_overwrites : newWallet.Loaded id ∧
    ¬(runKeyPool [.newKeyPool, .getReservedKey 0, .newKeyPool]).Accounted ∧
    (runKeyPool [.newKeyPool, .getReservedKey 0, .newKeyPool, .keepKey 0]).fLocked = false ∧
    (keyPoolStep id smallPool .getKeyFromPool
        (runKeyPool [.newKeyPool, .getReservedKey 0, .newKeyPool, .keepKey 0])).1
      = .error "ReserveKeyFromKeyPool() : read failed" := by
  refine ⟨newWallet_loaded, fun h => ?_, rfl, rfl⟩
  have hreserved : (runKeyPool [.newKeyPool, .getReservedKey 0, .newKeyPool]).Reserved 0 1 := ⟨rfl, by decide⟩
  exact (h.assigned 0 1 hreserved).1 (by decide)

end Sample

end PupaCoin
