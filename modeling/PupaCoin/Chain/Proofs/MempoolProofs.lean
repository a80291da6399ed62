import PupaCoin.Chain.Mempool

/-!
# The two maps of the memory pool

Adding and removing a transaction keeps `Represents`. `remove(tx, true)` is a removal of `tx` with all that depend on
it: by induction on the fuel, the loop over the outputs removes the spenders, each with its dependents, and `tx` comes
last.
-/

namespace PupaCoin.CTxMemPool

variable {prevout : COutPoint} {i : Nat} {roots : CTransaction → Prop} {given : Set CTransaction} {ops : List PoolOp}

open Cascade

variable {getHash : CTransaction → UInt256} {pool pool' : CTxMemPool} {tx : CTransaction}

theorem lookup_foldl_insert {hash hash' : UInt256} (inputs : List (CTxIn × Nat))
    (hnodup : (inputs.map fun input => input.1.prevout).Nodup) (next : AList fun _ : COutPoint => UInt256 × Nat) :
    (inputs.foldl (fun next (txin, i) => next.insert txin.prevout (hash, i)) next).lookup prevout = some (hash', i) ↔
      (hash' = hash ∧ ∃ txin, (txin, i) ∈ inputs ∧ txin.prevout = prevout) ∨
        (∀ input ∈ inputs, input.1.prevout ≠ prevout) ∧ next.lookup prevout = some (hash', i) := by
  induction inputs generalizing next with
  | nil => simp
  | cons input inputs ih =>
    obtain ⟨txin, k⟩ := input
    rw [List.map_cons, List.nodup_cons] at hnodup
    obtain ⟨hfresh, hrest⟩ := hnodup
    rw [List.foldl_cons, ih hrest]
    by_cases heq : prevout = txin.prevout
    · subst heq
      have hothers : ∀ input ∈ inputs, input.1.prevout ≠ txin.prevout := by
        intro input hinput hsame
        exact hfresh (List.mem_map.mpr ⟨input, hinput, hsame⟩)
      rw [AList.lookup_insert, Option.some.injEq, Prod.mk.injEq]
      constructor
      · rintro (⟨rfl, other, hother, hsame⟩ | ⟨-, rfl, rfl⟩)
        · exact absurd hsame (hothers _ hother)
        · exact Or.inl ⟨rfl, txin, List.mem_cons_self, rfl⟩
      · rintro (⟨rfl, other, hother, hsame⟩ | ⟨hnone, -⟩)
        · rcases List.mem_cons.mp hother with heq | hmem
          · obtain ⟨rfl, rfl⟩ := Prod.mk.inj heq
            exact Or.inr ⟨hothers, rfl, rfl⟩
          · exact absurd hsame (hothers _ hmem)
        · exact absurd rfl (hnone _ List.mem_cons_self)
    · rw [AList.lookup_insert_ne heq]
      have hhead : txin.prevout ≠ prevout := fun hsame => heq hsame.symm
      constructor
      · rintro (⟨rfl, other, hother, hsame⟩ | ⟨hnone, hnext⟩)
        · exact Or.inl ⟨rfl, other, List.mem_cons_of_mem _ hother, hsame⟩
        · exact Or.inr ⟨List.forall_mem_cons.mpr ⟨hhead, hnone⟩, hnext⟩
      · rintro (⟨rfl, other, hother, hsame⟩ | ⟨hnone, hnext⟩)
        · rcases List.mem_cons.mp hother with hfirst | hmem
          · obtain ⟨rfl, rfl⟩ := Prod.mk.inj hfirst
            exact absurd hsame hhead
          · exact Or.inl ⟨rfl, other, hmem, hsame⟩
        · exact Or.inr ⟨(List.forall_mem_cons.mp hnone).2, hnext⟩

theorem lookup_foldl_erase {point : UInt256 × Nat} (inputs : List CTxIn)
    (next : AList fun _ : COutPoint => UInt256 × Nat) :
    (inputs.foldl (fun next txin => next.erase txin.prevout) next).lookup prevout = some point ↔
      (∀ txin ∈ inputs, txin.prevout ≠ prevout) ∧ next.lookup prevout = some point := by
  induction inputs generalizing next with
  | nil => simp
  | cons txin inputs ih =>
    rw [List.foldl_cons, ih, List.forall_mem_cons]
    by_cases heq : prevout = txin.prevout
    · subst heq
      rw [AList.lookup_erase]
      simp
    · have hhead : txin.prevout ≠ prevout := fun hsame => heq hsame.symm
      rw [AList.lookup_erase_ne heq]
      exact ⟨fun ⟨hnone, hnext⟩ => ⟨⟨hhead, hnone⟩, hnext⟩, fun ⟨⟨_, hnone⟩, hnext⟩ => ⟨hnone, hnext⟩⟩

theorem represents_empty : Represents getHash .empty where
  hash_eq hash tx h := by cases h
  spender prevout hash i := by
    constructor
    · intro h
      cases h
    · rintro ⟨tx, h, -⟩
      cases h

theorem Represents.addUnchecked (hpool : Represents getHash pool)
    (hsame : ∀ tx', pool.mapTx.lookup (getHash tx) = some tx' → tx' = tx) (hdistinct : tx.DistinctInputs)
    (hunspent : ∀ txin ∈ tx.vin, txin.prevout ∉ pool.mapNextTx) :
    Represents getHash (pool.addUnchecked (getHash tx) tx) where
  hash_eq hash tx' h := by
    rcases lookup_insert_cases h with ⟨rfl, rfl⟩ | ⟨-, hold⟩
    · rfl
    · exact hpool.hash_eq hash tx' hold
  spender prevout hash i := by
    have hnodup : (tx.vin.zipIdx.map fun input => input.1.prevout).Nodup := by
      have hvin : (tx.vin.zipIdx.map Prod.fst).map CTxIn.prevout = tx.vin.map CTxIn.prevout := by
        rw [List.zipIdx_map_fst]
      rw [List.map_map] at hvin
      exact hvin ▸ hdistinct
    rw [CTxMemPool.addUnchecked, lookup_foldl_insert _ hnodup]
    simp only [List.mem_zipIdx_iff_getElem?]
    constructor
    · rintro (⟨rfl, txin, htxin, hprevout⟩ | ⟨-, hnext⟩)
      · exact ⟨tx, AList.lookup_insert _, txin, htxin, hprevout⟩
      · obtain ⟨tx', htx', hinput⟩ := (hpool.spender prevout hash i).mp hnext
        refine ⟨tx', ?_, hinput⟩
        by_cases hhash : hash = getHash tx
        · subst hhash
          rw [hsame tx' htx', AList.lookup_insert]
        · rw [AList.lookup_insert_ne hhash, htx']
    · rintro ⟨tx', htx', txin, htxin, hprevout⟩
      rcases lookup_insert_cases htx' with ⟨rfl, rfl⟩ | ⟨-, htx'⟩
      · exact Or.inl ⟨rfl, txin, htxin, hprevout⟩
      · have hnext := (hpool.spender prevout hash i).mpr ⟨tx', htx', txin, htxin, hprevout⟩
        refine Or.inr ⟨?_, hnext⟩
        rintro ⟨other, j⟩ hother hspent
        have hother' : tx.vin[j]? = some other := hother
        apply hunspent other (List.mem_of_getElem? hother')
        rw [← AList.lookup_isSome, hspent, hnext]
        rfl

theorem Represents.eraseTx (hpool : Represents getHash pool) (htx : tx ∈ pool.txs getHash) :
    Represents getHash (pool.eraseTx (getHash tx) tx) where
  hash_eq hash tx' h := by
    by_cases hhash : hash = getHash tx
    · subst hhash
      rw [CTxMemPool.eraseTx, AList.lookup_erase] at h
      cases h
    · rw [CTxMemPool.eraseTx, AList.lookup_erase_ne hhash] at h
      exact hpool.hash_eq hash tx' h
  spender prevout hash i := by
    rw [CTxMemPool.eraseTx, lookup_foldl_erase]
    constructor
    · rintro ⟨hothers, hnext⟩
      obtain ⟨tx', htx', txin, htxin, hprevout⟩ := (hpool.spender prevout hash i).mp hnext
      have hhash : hash ≠ getHash tx := by
        rintro rfl
        obtain rfl : tx' = tx := Option.some.inj (htx'.symm.trans htx)
        exact hothers txin (List.mem_of_getElem? htxin) hprevout
      refine ⟨tx', ?_, txin, htxin, hprevout⟩
      rw [AList.lookup_erase_ne hhash, htx']
    · rintro ⟨tx', htx', hinput⟩
      have hhash : hash ≠ getHash tx := by
        rintro rfl
        rw [AList.lookup_erase] at htx'
        cases htx'
      rw [AList.lookup_erase_ne hhash] at htx'
      have hnext := (hpool.spender prevout hash i).mpr ⟨tx', htx', hinput⟩
      refine ⟨?_, hnext⟩
      intro other hother hspent
      obtain ⟨j, hj⟩ := List.mem_iff_getElem?.mp hother
      have hown := (hpool.spender prevout (getHash tx) j).mpr ⟨tx, htx, other, hj, hspent⟩
      exact hhash (Prod.mk.inj (Option.some.inj (hnext.symm.trans hown))).1

theorem txs_eraseTx (htx : tx ∈ pool.txs getHash) :
    (pool.eraseTx (getHash tx) tx).txs getHash = pool.txs getHash \ {tx} := by
  apply Set.ext
  intro b
  have hb : b ∈ (pool.eraseTx (getHash tx) tx).txs getHash ↔
    (pool.mapTx.erase (getHash tx)).lookup (getHash b) = some b := Iff.rfl
  rw [hb, Set.mem_sdiff, Set.mem_singleton_iff]
  by_cases hhash : getHash b = getHash tx
  · rw [hhash, AList.lookup_erase]
    constructor
    · intro h
      cases h
    · rintro ⟨hmem, hne⟩
      have hlookup : pool.mapTx.lookup (getHash b) = some b := hmem
      rw [hhash] at hlookup
      exact absurd (Option.some.inj (hlookup.symm.trans htx)) hne
  · rw [AList.lookup_erase_ne hhash]
    constructor
    · intro hmem
      refine ⟨hmem, ?_⟩
      rintro rfl
      exact hhash rfl
    · intro hmem
      exact hmem.1

theorem txs_finite (getHash : CTransaction → UInt256) (pool : CTxMemPool) :
    (pool.txs getHash).Finite ∧ (pool.txs getHash).ncard ≤ pool.mapTx.entries.length := by
  have hsub : pool.txs getHash ⊆ (pool.mapTx.entries.map Sigma.snd).toFinset := by
    intro tx htx
    have hentry := AList.mem_lookup_iff.mp (Option.mem_def.mpr htx)
    simp only [List.coe_toFinset, Set.mem_ofPred_eq, List.mem_map]
    exact ⟨_, hentry, rfl⟩
  refine ⟨(Finset.finite_toSet _).subset hsub, ?_⟩
  calc (pool.txs getHash).ncard
      ≤ (pool.mapTx.entries.map Sigma.snd).toFinset.card := by
        rw [← Set.ncard_coe_finset]
        exact Set.ncard_le_ncard hsub (Finset.finite_toSet _)
    _ ≤ (pool.mapTx.entries.map Sigma.snd).length := List.toFinset_card_le _
    _ = pool.mapTx.entries.length := List.length_map _

/-- What a removal leaves: a pool that is still represented, without some transactions and their dependents. -/
structure Leaves (getHash : CTransaction → UInt256) (roots : CTransaction → Prop) (pool pool' : CTxMemPool) :
    Prop where
  represents : Represents getHash pool'
  removal : Removal (SpendsOutputOf getHash) roots (pool.txs getHash) (pool'.txs getHash)

theorem Leaves.refl (hpool : Represents getHash pool) : Leaves getHash roots pool pool := ⟨hpool, .refl _⟩

theorem Leaves.trans {pool₁ pool₂ pool₃ : CTxMemPool} (h₁ : Leaves getHash roots pool₁ pool₂)
    (h₂ : Leaves getHash roots pool₂ pool₃) :
    Leaves getHash roots pool₁ pool₃ := ⟨h₂.represents, h₁.removal.trans h₂.removal⟩

theorem Represents.spender_of_input (hpool : Represents getHash pool) {child : CTransaction} {txin : CTxIn}
    (hchild : child ∈ pool.txs getHash) (htxin : txin ∈ child.vin) :
    ∃ i, pool.mapNextTx.lookup txin.prevout = some (getHash child, i) := by
  obtain ⟨i, hi⟩ := List.mem_iff_getElem?.mp htxin
  exact ⟨i, (hpool.spender _ _ _).mpr ⟨child, hchild, txin, hi, rfl⟩⟩

/-- One round of the loop over the outputs: the spender of output `i` of the transaction `hash` is removed. -/
def removeSpender (getHash : CTransaction → UInt256) (fuel : Nat) (hash : UInt256) (pool : CTxMemPool) (i : Nat) :
    CTxMemPool :=
  match pool.mapNextTx.lookup ⟨hash, UInt32.ofNat i⟩ with
  | none => pool
  | some (spender, _) =>
    match pool.mapTx.lookup spender with
    | none => pool
    | some ptx => removeRecursive getHash fuel pool ptx

theorem removeRecursive_succ (fuel : Nat) (pool : CTxMemPool) (tx : CTransaction) :
    removeRecursive getHash (fuel + 1) pool tx = if getHash tx ∈ pool.mapTx then
      ((List.range tx.vout.length).foldl (removeSpender getHash fuel (getHash tx)) pool).eraseTx (getHash tx) tx
    else pool := rfl

theorem removeSpender_leaves {fuel : Nat} (hpool : Represents getHash pool)
    (hacyclic : Acyclic (SpendsOutputOf getHash) (pool'.txs getHash)) (htx : tx ∈ pool'.txs getHash)
    (hsub : pool.txs getHash ⊆ pool'.txs getHash) (hi : i < tx.vout.length)
    (hfuel : {c | Depends (SpendsOutputOf getHash) (pool'.txs getHash) tx c}.ncard ≤ fuel + 1)
    (ih : ∀ child, child ∈ pool.txs getHash →
      {c | Depends (SpendsOutputOf getHash) (pool.txs getHash) child c}.ncard ≤ fuel →
      Leaves getHash (· = child) pool (removeRecursive getHash fuel pool child) ∧
        child ∉ (removeRecursive getHash fuel pool child).txs getHash) :
    Leaves getHash (Within (SpendsOutputOf getHash) (pool'.txs getHash) tx) pool
        (removeSpender getHash fuel (getHash tx) pool i) ∧
      ∀ child ∈ (removeSpender getHash fuel (getHash tx) pool i).txs getHash, ∀ txin ∈ child.vin,
        txin.prevout ≠ ⟨getHash tx, UInt32.ofNat i⟩ := by
  cases hspender : pool.mapNextTx.lookup ⟨getHash tx, UInt32.ofNat i⟩ with
  | none =>
    have hnext : removeSpender getHash fuel (getHash tx) pool i = pool := by simp only [removeSpender, hspender]
    rw [hnext]
    refine ⟨.refl hpool, ?_⟩
    intro child hchild txin htxin hprevout
    obtain ⟨j, hj⟩ := hpool.spender_of_input hchild htxin
    rw [hprevout, hspender] at hj
    cases hj
  | some point =>
    obtain ⟨spender, j⟩ := point
    obtain ⟨ptx, hlookup, txin, htxin, hprevout⟩ := (hpool.spender _ _ _).mp hspender
    obtain rfl := hpool.hash_eq spender ptx hlookup
    have hnext : removeSpender getHash fuel (getHash tx) pool i = removeRecursive getHash fuel pool ptx := by
      simp only [removeSpender, hspender, hlookup]
    have hptx : ptx ∈ pool.txs getHash := hlookup
    have hn : txin.prevout.n.toNat < tx.vout.length := by
      rw [hprevout]
      exact (UInt32.toNat_ofNat' ▸ Nat.mod_le _ _).trans_lt hi
    have hspends : Within (SpendsOutputOf getHash) (pool'.txs getHash) tx ptx :=
      ⟨htx, hsub hptx, txin, List.mem_of_getElem? htxin, by rw [hprevout], hn⟩
    have hfewer := ncard_depends_lt (txs_finite getHash pool').1 hacyclic hsub hspends
    obtain ⟨hleaves, hgone⟩ := ih ptx hptx (by omega)
    rw [hnext]
    refine ⟨⟨hleaves.represents, hleaves.removal.mono ?_⟩, ?_⟩
    · rintro _ rfl
      exact hspends
    · intro child hchild txin' htxin' hprevout'
      have hchild' := hleaves.removal.subset hchild
      obtain ⟨k, hk⟩ := hpool.spender_of_input hchild' htxin'
      rw [hprevout', hspender] at hk
      have hhash := (Prod.mk.inj (Option.some.inj hk)).1
      obtain rfl : ptx = child := by
        have hlookup' : pool.mapTx.lookup (getHash child) = some child := hchild'
        rw [← hhash, hlookup] at hlookup'
        exact Option.some.inj hlookup'
      exact hgone hchild

theorem foldl_leaves (roots : CTransaction → Prop) (hash : UInt256) {round : CTxMemPool → Nat → CTxMemPool}
    (is : List Nat) (hpool : Represents getHash pool)
    (hround : ∀ q, Represents getHash q → q.txs getHash ⊆ pool.txs getHash → ∀ i ∈ is,
      Leaves getHash roots q (round q i) ∧
        ∀ child ∈ (round q i).txs getHash, ∀ txin ∈ child.vin, txin.prevout ≠ ⟨hash, UInt32.ofNat i⟩) :
    Leaves getHash roots pool (is.foldl round pool) ∧ ∀ i ∈ is, ∀ child ∈ (is.foldl round pool).txs getHash,
      ∀ txin ∈ child.vin, txin.prevout ≠ ⟨hash, UInt32.ofNat i⟩ := by
  induction is generalizing pool with
  | nil =>
    refine ⟨.refl hpool, ?_⟩
    intro i hi
    cases hi
  | cons i is ih =>
    rw [List.foldl_cons]
    obtain ⟨hfirst, hgone⟩ := hround pool hpool le_rfl i List.mem_cons_self
    obtain ⟨hrest, hrestGone⟩ := ih hfirst.represents fun q hq hsub j hj =>
      hround q hq (hsub.trans hfirst.removal.subset) j (List.mem_cons_of_mem _ hj)
    refine ⟨hfirst.trans hrest, ?_⟩
    intro j hj child hchild
    rcases List.mem_cons.mp hj with rfl | hj
    · exact hgone child (hrest.removal.subset hchild)
    · exact hrestGone j hj child hchild

theorem removeRecursive_leaves (fuel : Nat) (hpool : Represents getHash pool)
    (hacyclic : Acyclic (SpendsOutputOf getHash) (pool.txs getHash)) (htx : tx ∈ pool.txs getHash)
    (hfuel : {c | Depends (SpendsOutputOf getHash) (pool.txs getHash) tx c}.ncard ≤ fuel) :
    Leaves getHash (· = tx) pool (removeRecursive getHash fuel pool tx) ∧
      tx ∉ (removeRecursive getHash fuel pool tx).txs getHash := by
  induction fuel generalizing pool tx with
  | zero =>
    have hfinite : {c | Depends (SpendsOutputOf getHash) (pool.txs getHash) tx c}.Finite :=
      (txs_finite getHash pool).1.subset fun c hc => hc.mem htx
    have hempty := (Set.ncard_eq_zero hfinite).mp (Nat.le_zero.mp hfuel)
    have hself : tx ∈ {c | Depends (SpendsOutputOf getHash) (pool.txs getHash) tx c} :=
      Relation.ReflTransGen.refl
    rw [hempty] at hself
    cases hself
  | succ fuel ih =>
    have hin : getHash tx ∈ pool.mapTx := by
      rw [← AList.lookup_isSome, show pool.mapTx.lookup (getHash tx) = some tx from htx]
      rfl
    rw [removeRecursive_succ, if_pos hin]
    obtain ⟨hloop, hgone⟩ := foldl_leaves (Within (SpendsOutputOf getHash) (pool.txs getHash) tx) (getHash tx)
      (List.range tx.vout.length) hpool fun q hq hsub i hi => removeSpender_leaves hq hacyclic htx hsub (List.mem_range.mp hi) hfuel
        fun child hchild hless => ih hq (hacyclic.mono hsub) hchild hless
    have hkept := hloop.removal.root_kept hacyclic htx
    refine ⟨⟨hloop.represents.eraseTx hkept, ?_⟩, ?_⟩
    · rw [txs_eraseTx hkept]
      apply hloop.removal.remove_root htx
      rintro child hchild ⟨txin, htxin, hhash, hn⟩
      refine hgone _ (List.mem_range.mpr hn) child hchild txin htxin ?_
      rw [UInt32.ofNat_toNat, ← hhash]
    · rw [txs_eraseTx hkept]
      exact fun hmem => hmem.2 rfl

theorem removeAll_leaves (hpool : Represents getHash pool)
    (hacyclic : Acyclic (SpendsOutputOf getHash) (pool.txs getHash)) (htx : tx ∈ pool.txs getHash) :
    Leaves getHash (· = tx) pool (pool.removeAll getHash tx) ∧ tx ∉ (pool.removeAll getHash tx).txs getHash := by
  apply removeRecursive_leaves _ hpool hacyclic htx
  obtain ⟨hfinite, hcard⟩ := txs_finite getHash pool
  have hle := Set.ncard_le_ncard
    (show {c | Depends (SpendsOutputOf getHash) (pool.txs getHash) tx c} ⊆ pool.txs getHash from
      fun c hc => hc.mem htx) hfinite
  omega

theorem removeAll_of_notMem (hnot : getHash tx ∉ pool.mapTx) : pool.removeAll getHash tx = pool := by
  simp only [removeAll, removeRecursive, if_neg hnot]

theorem removeConflicts_leaves (hpool : Represents getHash pool)
    (hacyclic : Acyclic (SpendsOutputOf getHash) (pool.txs getHash)) :
    Leaves getHash (fun _ => True) pool (pool.removeConflicts getHash tx) := by
  unfold removeConflicts
  generalize tx.vin = inputs
  induction inputs generalizing pool with
  | nil => exact .refl hpool
  | cons txin inputs ih =>
    rw [List.foldl_cons]
    have hround : Leaves getHash (fun _ => True) pool (removeConflict getHash tx pool txin) := by
      unfold removeConflict
      split
      · exact .refl hpool
      · rename_i txConflict hconflict
        split
        · obtain ⟨⟨spender, i⟩, -, hlookup⟩ := Option.bind_eq_some_iff.mp hconflict
          obtain rfl := hpool.hash_eq spender txConflict hlookup
          obtain ⟨hleaves, -⟩ := removeAll_leaves hpool hacyclic hlookup
          exact ⟨hleaves.represents, hleaves.removal.mono fun _ _ => trivial⟩
        · exact .refl hpool
    exact hround.trans (ih hround.represents (hacyclic.mono hround.removal.subset))

/-- What the pool has to do with the transactions that it was given. -/
structure PoolOf (getHash : CTransaction → UInt256) (given : Set CTransaction) (pool : CTxMemPool) : Prop where
  represents : Represents getHash pool
  subset : pool.txs getHash ⊆ given

theorem PoolOf.lookup_eq {tx' : CTransaction} (hpool : PoolOf getHash given pool) (hfits : HashFits getHash given)
    (htx : tx ∈ given) (h : pool.mapTx.lookup (getHash tx) = some tx') : tx' = tx := by
  have hhash := hpool.represents.hash_eq _ _ h
  have hmem : tx' ∈ pool.txs getHash := by
    change pool.mapTx.lookup (getHash tx') = some tx'
    rw [hhash, h]
  exact hfits.injective (hpool.subset hmem) htx hhash

theorem PoolOf.leaves (hpool : PoolOf getHash given pool) (h : Leaves getHash roots pool pool')
    : PoolOf getHash given pool' :=
  ⟨h.represents, h.removal.subset.trans hpool.subset⟩

theorem PoolOf.mem_iff (hpool : PoolOf getHash given pool) (hfits : HashFits getHash given) (htx : tx ∈ given)
    : getHash tx ∈ pool.mapTx ↔ tx ∈ pool.txs getHash := by
  rw [← AList.lookup_isSome, Option.isSome_iff_exists]
  constructor
  · rintro ⟨tx', h⟩
    obtain rfl := hpool.lookup_eq hfits htx h
    exact h
  · intro h
    exact ⟨tx, h⟩

theorem PoolOf.apply (hpool : PoolOf getHash given pool) (hfits : HashFits getHash given) (op : PoolOp)
    (hop : op.tx ∈ given) (hadmitted : op.Admitted pool) : PoolOf getHash given (op.apply getHash pool) := by
  have hacyclic := hfits.acyclic.mono hpool.subset
  cases op with
  | addUnchecked tx =>
    obtain ⟨hdistinct, hunspent⟩ := hadmitted
    refine ⟨hpool.represents.addUnchecked (fun tx' h => hpool.lookup_eq hfits hop h) hdistinct hunspent, ?_⟩
    intro b hb
    have hlookup : (pool.mapTx.insert (getHash tx) tx).lookup (getHash b) = some b := hb
    rcases lookup_insert_cases hlookup with ⟨-, rfl⟩ | ⟨-, hold⟩
    · exact hop
    · exact hpool.subset hold
  | remove tx fRecursive =>
    by_cases hin : getHash tx ∈ pool.mapTx
    · have htx : tx ∈ pool.txs getHash := (hpool.mem_iff hfits hop).mp hin
      cases fRecursive with
      | true => exact hpool.leaves (removeAll_leaves hpool.represents hacyclic htx).1
      | false =>
        simp only [PoolOp.apply, CTxMemPool.remove, if_pos hin]
        refine ⟨hpool.represents.eraseTx htx, ?_⟩
        rw [txs_eraseTx htx]
        exact Set.sdiff_subset.trans hpool.subset
    · cases fRecursive with
      | true =>
        simp only [PoolOp.apply, removeAll_of_notMem hin]
        exact hpool
      | false =>
        simp only [PoolOp.apply, CTxMemPool.remove, if_neg hin]
        exact hpool
  | removeConflicts tx => exact hpool.leaves (removeConflicts_leaves hpool.represents hacyclic)

theorem poolOf_run (hfits : HashFits getHash given) (hrun : PoolRun getHash ops pool)
    (hops : ∀ op ∈ ops, op.tx ∈ given) : PoolOf getHash given pool := by
  induction hrun with
  | start =>
    refine ⟨represents_empty, ?_⟩
    intro tx htx
    cases htx
  | step op _ hadmitted ih =>
    have hbefore := ih fun op' hop' => hops op' (List.mem_append_left _ hop')
    exact hbefore.apply hfits op (hops op (by simp)) hadmitted

/-- **The memory pool.** After any operations, `mapNextTx` has an entry for each input of each transaction in `mapTx`
    and no other. `remove(tx, true)` for a transaction in the pool removes exactly it and those that depend on it;
    where no transaction with its hash is in the pool, nothing changes. -/
theorem pool_represents_removes {ops : List PoolOp} (hfits : HashFits getHash (PoolOp.txs ops))
    (hrun : PoolRun getHash ops pool) : Represents getHash pool ∧
      (∀ tx ∈ pool.txs getHash, Represents getHash (pool.removeAll getHash tx) ∧
        (pool.removeAll getHash tx).txs getHash =
          {b ∈ pool.txs getHash | ¬ Depends (SpendsOutputOf getHash) (pool.txs getHash) tx b}) ∧
      ∀ tx, getHash tx ∉ pool.mapTx → pool.removeAll getHash tx = pool := by
  have hpool := poolOf_run hfits hrun fun op hop => List.mem_map.mpr ⟨op, hop, rfl⟩
  refine ⟨hpool.represents, ?_, ?_⟩
  · intro tx htx
    obtain ⟨hleaves, hgone⟩ := removeAll_leaves hpool.represents (hfits.acyclic.mono hpool.subset) htx
    exact ⟨hleaves.represents, hleaves.removal.eq_of_root hgone⟩
  · intro tx hnot
    exact removeAll_of_notMem hnot

namespace Family

def lockTimeHash (tx : CTransaction) : UInt256 := BitVec.ofNat 256 tx.nLockTime.toNat

def parentTx : CTransaction := ⟨1, 0, [⟨⟨9, 0⟩, [], 0⟩], [⟨5, []⟩], 1⟩

def childTx : CTransaction := ⟨1, 0, [⟨⟨1, 0⟩, [], 0⟩], [⟨4, []⟩], 2⟩

theorem childTx_spends : SpendsOutputOf lockTimeHash parentTx childTx := by
  refine ⟨⟨⟨1, 0⟩, [], 0⟩, List.mem_singleton.mpr rfl, ?_, ?_⟩ <;> decide

theorem hashFits : HashFits lockTimeHash {parentTx, childTx} where
  injective := by
    rintro a (rfl | rfl) b (rfl | rfl) h
    · rfl
    · exact absurd h (by decide)
    · exact absurd h (by decide)
    · rfl
  acyclic := by
    apply Acyclic.of_rank fun tx => tx.nLockTime.toNat
    have hnone : ∀ a : CTransaction, lockTimeHash a ≠ 9 → ¬ SpendsOutputOf lockTimeHash a parentTx := by
      rintro a ha ⟨txin, htxin, hhash, -⟩
      obtain rfl := List.mem_singleton.mp htxin
      exact ha hhash.symm
    rintro a ha b (rfl | rfl) hab
    · rcases ha with rfl | rfl
      · exact absurd hab (hnone _ (by decide))
      · exact absurd hab (hnone _ (by decide))
    · rcases ha with rfl | rfl
      · decide
      · obtain ⟨txin, htxin, hhash, -⟩ := hab
        obtain rfl := List.mem_singleton.mp htxin
        exact absurd hhash (by decide)

theorem bothRun : PoolRun lockTimeHash [.addUnchecked parentTx, .addUnchecked childTx]
    ((CTxMemPool.empty.addUnchecked 1 parentTx).addUnchecked 2 childTx) :=
  .step (.addUnchecked childTx) (.step (.addUnchecked parentTx) .start (by decide)) (by decide)

end Family

open Family in
theorem pool_represents_removes_family : childTx ∉ (removeAll lockTimeHash
      ((CTxMemPool.empty.addUnchecked 1 parentTx).addUnchecked 2 childTx) parentTx).txs lockTimeHash := by
  have hfits : HashFits lockTimeHash (PoolOp.txs [.addUnchecked parentTx, .addUnchecked childTx]) := by
    have htxs : PoolOp.txs [.addUnchecked parentTx, .addUnchecked childTx] = {parentTx, childTx} := by
      apply Set.ext
      intro tx
      simp [PoolOp.txs, PoolOp.tx]
    rw [htxs]
    exact Family.hashFits
  have hparent : parentTx ∈ ((CTxMemPool.empty.addUnchecked 1 parentTx).addUnchecked 2 childTx).txs
    lockTimeHash := by rfl
  have hchild : childTx ∈ ((CTxMemPool.empty.addUnchecked 1 parentTx).addUnchecked 2 childTx).txs
    lockTimeHash := by rfl
  rw [((pool_represents_removes hfits bothRun).2.1 parentTx hparent).2]
  rintro ⟨-, hnot⟩
  exact hnot (Relation.ReflTransGen.single ⟨hparent, hchild, childTx_spends⟩)

open Family in
/-- A recursive removal of a transaction that is not in the pool leaves a transaction that depends on it. -/
theorem removeAll_absent_keeps_child : HashFits lockTimeHash {parentTx, childTx} ∧
      PoolRun lockTimeHash [.addUnchecked childTx] (CTxMemPool.empty.addUnchecked 2 childTx) ∧
      SpendsOutputOf lockTimeHash parentTx childTx ∧
      childTx ∈ (removeAll lockTimeHash (CTxMemPool.empty.addUnchecked 2 childTx) parentTx).txs
        lockTimeHash := by
  refine ⟨Family.hashFits, ?_, childTx_spends, ?_⟩
  · exact .step (.addUnchecked childTx) .start (by decide)
  · rw [removeAll_of_notMem (by decide)]
    rfl

end PupaCoin.CTxMemPool
