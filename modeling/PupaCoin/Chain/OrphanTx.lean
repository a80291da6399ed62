import PupaCoin.Chain.Serialize
import PupaCoin.Lib.SetIndex

/-!
# Orphan transactions (`main.cpp`)

Transactions whose inputs are missing, by their hashes, and the hashes of those that spend an output of a
transaction, by the hash of that transaction.
-/

namespace PupaCoin

def maxOrphanTxSize : Nat := 5000

/-- `mapOrphanTransactions` and `mapOrphanTransactionsByPrev`. -/
structure OrphanTxs where
  mapOrphanTransactions : OrderedMap UInt256 CTransaction
  mapOrphanTransactionsByPrev : SetIndex UInt256 UInt256

namespace OrphanTxs

def empty : OrphanTxs := ⟨.empty, .empty⟩

def addOrphanTx (getHash : CTransaction → UInt256) (tx : CTransaction) (s : OrphanTxs) : Bool × OrphanTxs :=
  let hash := getHash tx
  if (s.mapOrphanTransactions.find? hash).isSome then (false, s)
  else
    let nSize := tx.getSerializeSize.toNat
    if nSize > maxOrphanTxSize then (false, s)
    else
      (true, {
        mapOrphanTransactions := s.mapOrphanTransactions.set hash tx
        mapOrphanTransactionsByPrev :=
          tx.vin.foldl (fun byPrev txin => byPrev.put txin.prevout.hash hash) s.mapOrphanTransactionsByPrev })

def eraseOrphanTx (hash : UInt256) (s : OrphanTxs) : OrphanTxs :=
  match s.mapOrphanTransactions.find? hash with
  | none => s
  | some tx =>
    { mapOrphanTransactions := s.mapOrphanTransactions.erase hash
      mapOrphanTransactionsByPrev :=
        tx.vin.foldl (fun byPrev txin => byPrev.take txin.prevout.hash hash) s.mapOrphanTransactionsByPrev }

/-- The orphan that `LimitOrphanTxSize` evicts for a random hash. -/
def victim? (randomhash : UInt256) (s : OrphanTxs) : Option UInt256 :=
  ((s.mapOrphanTransactions.lowerBound? randomhash).or s.mapOrphanTransactions.begin?).map Prod.fst

/-- The loop of `LimitOrphanTxSize`: `nEvicted` and the orphans afterwards. It is `none` where the fuel does not
suffice, and where the end of the map would be dereferenced. -/
def limitLoop (getRandHash : Nat → UInt256) (nMaxOrphans : Nat) : Nat → Nat → OrphanTxs → Option (Nat × OrphanTxs)
  | 0, nEvicted, s => if s.mapOrphanTransactions.size > nMaxOrphans then none else some (nEvicted, s)
  | fuel + 1, nEvicted, s =>
    if s.mapOrphanTransactions.size > nMaxOrphans then
      (s.victim? (getRandHash nEvicted)).bind fun hash =>
        limitLoop getRandHash nMaxOrphans fuel (nEvicted + 1) (s.eraseOrphanTx hash)
    else some (nEvicted, s)

/-- `LimitOrphanTxSize`, with the hashes that `GetRandHash` returns. Every round evicts an orphan, so that their
number is enough fuel. -/
def limitOrphanTxSize (getRandHash : Nat → UInt256) (nMaxOrphans : Nat) (s : OrphanTxs) : Option (Nat × OrphanTxs) :=
  limitLoop getRandHash nMaxOrphans s.mapOrphanTransactions.size 0 s

/-- A call of one of the three functions. -/
inductive Call where
  | add (tx : CTransaction)
  | erase (hash : UInt256)
  | limit (getRandHash : Nat → UInt256) (nMaxOrphans : Nat)

def call (getHash : CTransaction → UInt256) (s : OrphanTxs) : Call → Option OrphanTxs
  | .add tx => some (s.addOrphanTx getHash tx).2
  | .erase hash => some (s.eraseOrphanTx hash)
  | .limit getRandHash nMaxOrphans => (s.limitOrphanTxSize getRandHash nMaxOrphans).map Prod.snd

def calls (getHash : CTransaction → UInt256) (cs : List Call) (s : OrphanTxs) : Option OrphanTxs :=
  cs.foldlM (call getHash) s

/-- The orphan spends an output of the transaction `h`. -/
def Spends (s : OrphanTxs) (h hash : UInt256) : Prop :=
  ∃ tx, s.mapOrphanTransactions.find? hash = some tx ∧ ∃ txin ∈ tx.vin, txin.prevout.hash = h

/-- The second map lists the orphans that spend, and no empty sets. -/
structure Indexed (s : OrphanTxs) : Prop where
  listed : ∀ h hash, s.mapOrphanTransactionsByPrev.Holds h hash ↔ s.Spends h hash
  noEmpty : s.mapOrphanTransactionsByPrev.NoEmpty

end OrphanTxs

end PupaCoin

/-!
## Proofs: orphan transactions

Every function keeps the two maps in step. The loop of `LimitOrphanTxSize` has an orphan less after every round.
-/

namespace PupaCoin

namespace OrphanTxs

variable {getHash : CTransaction → UInt256} {s s' : OrphanTxs}

theorem indexed_empty : empty.Indexed where
  listed h hash := by
    refine iff_of_false (SetIndex.not_holds_empty h hash) ?_
    rintro ⟨tx, hfind, -⟩
    rw [empty, OrderedMap.find?_empty] at hfind
    cases hfind
  noEmpty := SetIndex.noEmpty_empty

theorem Indexed.addOrphanTx (hs : s.Indexed) (tx : CTransaction) : (s.addOrphanTx getHash tx).2.Indexed := by
  unfold OrphanTxs.addOrphanTx
  simp only
  split
  · exact hs
  · rename_i hnew
    split
    · exact hs
    · refine ⟨fun h hash => ?_, hs.noEmpty.foldl_put (getHash tx) tx.vin⟩
      have hlisted := hs.listed h hash
      change SetIndex.Holds (tx.vin.foldl _ _) h hash ↔ _
      rw [SetIndex.holds_foldl_put, hlisted]
      unfold Spends
      by_cases hhash : hash = getHash tx
      · subst hhash
        have hnone : s.mapOrphanTransactions.find? (getHash tx) = none := by
          simpa using hnew
        rw [OrderedMap.find?_set_self, hnone]
        simp
      · rw [OrderedMap.find?_set_of_ne _ _ hhash]
        simp [hhash]

theorem Indexed.eraseOrphanTx (hs : s.Indexed) (hash : UInt256) : (s.eraseOrphanTx hash).Indexed := by
  unfold OrphanTxs.eraseOrphanTx
  cases hfind : s.mapOrphanTransactions.find? hash with
  | none => exact hs
  | some tx =>
    refine ⟨fun h hash' => ?_, hs.noEmpty.foldl_take hash tx.vin⟩
    have hlisted := hs.listed h hash'
    change SetIndex.Holds (tx.vin.foldl _ _) h hash' ↔ _
    rw [SetIndex.holds_foldl_take, hlisted]
    unfold Spends
    by_cases hhash : hash' = hash
    · subst hhash
      rw [OrderedMap.find?_erase_self, hfind]
      simp
    · rw [OrderedMap.find?_erase_of_ne _ hhash]
      simp [hhash]

theorem exists_victim (randomhash : UInt256) (h : 0 < s.mapOrphanTransactions.size) :
    ∃ e ∈ s.mapOrphanTransactions.entries, s.victim? randomhash = some e.1 := by
  unfold victim?
  cases hlower : s.mapOrphanTransactions.lowerBound? randomhash with
  | some e => exact ⟨e, OrderedMap.lowerBound?_mem hlower, rfl⟩
  | none =>
    cases hbegin : s.mapOrphanTransactions.begin? with
    | some e => exact ⟨e, OrderedMap.begin?_mem hbegin, rfl⟩
    | none =>
      rw [OrderedMap.begin?_eq_none_iff] at hbegin
      rw [OrderedMap.size, hbegin] at h
      exact absurd h (lt_irrefl 0)

theorem size_eraseOrphanTx_lt {e : UInt256 × CTransaction} (h : e ∈ s.mapOrphanTransactions.entries) :
    (s.eraseOrphanTx e.1).mapOrphanTransactions.size < s.mapOrphanTransactions.size := by
  have hfind : s.mapOrphanTransactions.find? e.1 = some e.2 := OrderedMap.find?_eq_some_iff.mpr h
  unfold eraseOrphanTx
  rw [hfind]
  exact OrderedMap.size_erase_lt h

/-- The loop ends with few enough orphans. By induction on the fuel, which covers their number. -/
theorem limitLoop_spec (getRandHash : Nat → UInt256) (nMaxOrphans : Nat) {fuel : Nat} (nEvicted : Nat)
    (hs : s.Indexed) (hfuel : s.mapOrphanTransactions.size ≤ fuel) :
    ∃ n s', limitLoop getRandHash nMaxOrphans fuel nEvicted s = some (n, s') ∧ s'.Indexed
      ∧ s'.mapOrphanTransactions.size ≤ nMaxOrphans := by
  induction fuel generalizing s nEvicted with
  | zero =>
    rw [limitLoop, if_neg (by omega)]
    exact ⟨nEvicted, s, rfl, hs, by omega⟩
  | succ fuel ih =>
    rw [limitLoop]
    by_cases hmany : s.mapOrphanTransactions.size > nMaxOrphans
    · obtain ⟨e, he, hvictim⟩ := exists_victim (s := s) (getRandHash nEvicted) (by omega)
      have hless := size_eraseOrphanTx_lt he
      rw [if_pos hmany, hvictim]
      exact ih (nEvicted + 1) (hs.eraseOrphanTx e.1) (by omega)
    · rw [if_neg hmany]
      exact ⟨nEvicted, s, rfl, hs, by omega⟩

theorem limitOrphanTxSize_spec (getRandHash : Nat → UInt256) (nMaxOrphans : Nat) (hs : s.Indexed) :
    ∃ nEvicted s', s.limitOrphanTxSize getRandHash nMaxOrphans = some (nEvicted, s') ∧ s'.Indexed
      ∧ s'.mapOrphanTransactions.size ≤ nMaxOrphans :=
  limitLoop_spec getRandHash nMaxOrphans 0 hs (le_refl _)

theorem Indexed.call (getHash : CTransaction → UInt256) (hs : s.Indexed) (c : Call) : ∃ s', s.call getHash c = some s' ∧ s'.Indexed := by
  cases c with
  | add tx => exact ⟨_, rfl, hs.addOrphanTx tx⟩
  | erase hash => exact ⟨_, rfl, hs.eraseOrphanTx hash⟩
  | limit getRandHash nMaxOrphans =>
    obtain ⟨nEvicted, s', hlimit, hs', -⟩ := limitOrphanTxSize_spec getRandHash nMaxOrphans hs
    exact ⟨s', by rw [OrphanTxs.call, hlimit]; rfl, hs'⟩

theorem Indexed.calls (getHash : CTransaction → UInt256) (hs : s.Indexed) (cs : List Call) : ∃ s', s.calls getHash cs = some s' ∧ s'.Indexed := by
  induction cs generalizing s with
  | nil => exact ⟨s, rfl, hs⟩
  | cons c cs ih =>
    obtain ⟨s₁, hcall, hs₁⟩ := hs.call getHash c
    obtain ⟨s', hcalls, hs'⟩ := ih hs₁
    refine ⟨s', ?_, hs'⟩
    unfold OrphanTxs.calls at hcalls ⊢
    rw [List.foldlM_cons, hcall]
    exact hcalls

/-- After any calls, the second map lists the orphans that spend an output of a transaction, and `LimitOrphanTxSize`
ends with as few orphans as it is asked for. -/
theorem calls_indexed (getHash : CTransaction → UInt256) (cs : List Call) : ∃ s, empty.calls getHash cs = some s
      ∧ (∀ h hash, (∃ hashes, s.mapOrphanTransactionsByPrev.find? h = some hashes ∧ hash ∈ hashes) ↔
        ∃ tx, s.mapOrphanTransactions.find? hash = some tx ∧ ∃ txin ∈ tx.vin, txin.prevout.hash = h)
      ∧ (∀ h hashes, s.mapOrphanTransactionsByPrev.find? h = some hashes → hashes ≠ ∅)
      ∧ ∀ getRandHash nMaxOrphans, ∃ nEvicted s', s.limitOrphanTxSize getRandHash nMaxOrphans = some (nEvicted, s')
        ∧ s'.mapOrphanTransactions.size ≤ nMaxOrphans := by
  obtain ⟨s, hcalls, hs⟩ := indexed_empty.calls getHash cs
  refine ⟨s, hcalls, hs.listed, hs.noEmpty, fun getRandHash nMaxOrphans => ?_⟩
  obtain ⟨nEvicted, s', hlimit, -, hsize⟩ := limitOrphanTxSize_spec getRandHash nMaxOrphans hs
  exact ⟨nEvicted, s', hlimit, hsize⟩

end OrphanTxs

end PupaCoin
