import PupaCoin.Net.LockUpkeep
import PupaCoin.Net.Proofs.InstantXProofs
import Mathlib.Data.Finset.Sort

/-!
# Proofs: what the cleaning of the locks leaves

`Cleaned` says what is in the maps once the loop of `CleanTransactionLocksList` has passed some of the entries, for
locks that are stored under the hashes of their transactions.
-/

namespace PupaCoin

open While

variable {ext : InstantXExt} {s s' t : InstantX} {now : Int} {keys done : List UInt256}

theorem mapErase_eq_some {K V : Type} [DecidableEq K] {m : K → Option V} {key k : K} {v : V} :
    mapErase m key k = some v ↔ m k = some v ∧ key ≠ k := by
  unfold mapErase
  by_cases hk : key = k
  · subst hk
    simp
  · rw [Function.update_of_ne (Ne.symm hk)]
    exact (and_iff_left hk).symm

theorem foldl_mapErase_eq_some {K V α : Type} [DecidableEq K] {f : α → K} {xs : List α} {m : K → Option V} {k : K}
    {v : V} : xs.foldl (fun m x => mapErase m (f x)) m k = some v ↔ m k = some v ∧ ∀ x ∈ xs, f x ≠ k := by
  induction xs generalizing m with
  | nil => simp
  | cons x rest ih => rw [List.foldl_cons, ih, mapErase_eq_some, List.forall_mem_cons, and_assoc]

theorem exists_isKeys {V : Type} (m : UInt256 → Option V) : ∃ keys, IsKeys m keys := by
  classical
  let indices := (Finset.univ.filter fun i : Fin (2 ^ 256) => (m (BitVec.ofFin i)).isSome = true).sort (· ≤ ·)
  refine ⟨indices.map BitVec.ofFin, ?_, fun k => ?_⟩
  · rw [List.pairwise_map]
    exact (Finset.sortedLT_sort _).pairwise.imp fun hlt => hlt
  · simp only [indices, List.mem_map, Finset.mem_sort, Finset.mem_filter, Finset.mem_univ, true_and]
    constructor
    · rintro ⟨i, hi, rfl⟩
      exact hi
    · intro hk
      exact ⟨k.toFin, hk, rfl⟩

theorem returns_cleanRound :
    While.Returns (cleanRound now) (keys, s) s' ↔ s' = keys.foldl (fun s => s.cleanEntry now) s := by
  induction keys generalizing s with
  | nil => exact returns_done_iff rfl
  | cons key it ih =>
    rw [returns_next_iff (rfl : cleanRound now (key :: it, s) = .next (it, s.cleanEntry now key)), ih, List.foldl_cons]

/-- The maps after the entries `done`. -/
structure Cleaned (now : Int) (s : InstantX) (done : List UInt256) (t : InstantX) : Prop where
  locks : ∀ k lock, t.mapTxLocks k = some lock ↔ s.mapTxLocks k = some lock ∧ ¬ (k ∈ done ∧ s.Expired now k)
  requests : ∀ k tx, t.mapTxLockReq k = some tx ↔ s.mapTxLockReq k = some tx ∧ ¬ (k ∈ done ∧ s.Expired now k)
  rejected : ∀ k tx, t.mapTxLockReqRejected k = some tx ↔ s.mapTxLockReqRejected k = some tx
    ∧ ¬ (k ∈ done ∧ s.Expired now k ∧ (s.mapTxLockReq k).isSome = true)
  inputs : ∀ o h, t.mapLockedInputs o = some h ↔ s.mapLockedInputs o = some h
    ∧ ∀ k ∈ done, s.Expired now k → ∀ tx, s.mapTxLockReq k = some tx → ∀ txin ∈ tx.vin, txin.prevout ≠ o

theorem Cleaned.nil (now : Int) (s : InstantX) : Cleaned now s [] s := by
  constructor <;> simp

theorem InstantX.cleanEntry_of_not_expired {key : UInt256} (hexpired : ¬ s.Expired now key) :
    s.cleanEntry now key = s := by
  unfold InstantX.cleanEntry
  cases hlock : s.mapTxLocks key with
  | none => rfl
  | some lock => exact if_neg fun hlate => hexpired ⟨lock, hlock, hlate⟩

theorem cleaned_cleanEntry (hkeyed : s.LocksKeyed) (key : UInt256) : Cleaned now s [key] (s.cleanEntry now key) := by
  by_cases hexpired : s.Expired now key
  · obtain ⟨lock, hlock, hlate⟩ := hexpired
    have hhash : lock.txHash = key := hkeyed key lock hlock
    have hentry : s.cleanEntry now key =
        { s.eraseRequest lock with mapTxLocks := mapErase (s.eraseRequest lock).mapTxLocks key } := by
      unfold InstantX.cleanEntry
      simp only [hlock, if_pos hlate]
    have hexp : ∀ k, (k ∈ [key] ∧ s.Expired now k) ↔ key = k := by
      intro k
      rw [List.mem_singleton]
      exact ⟨fun hk => hk.1.symm, fun hk => ⟨hk.symm, lock, hk ▸ hlock, hlate⟩⟩
    rw [hentry]
    unfold InstantX.eraseRequest
    rw [hhash]
    cases hreq : s.mapTxLockReq key with
    | none =>
      constructor
      · intro k l
        rw [hexp]
        exact mapErase_eq_some
      · intro k tx
        rw [hexp]
        refine (and_iff_left_of_imp fun hk hkey => ?_).symm
        rw [← hkey, hreq] at hk
        cases hk
      · intro k tx
        rw [← and_assoc, hexp]
        refine (and_iff_left ?_).symm
        rintro ⟨rfl, hsome⟩
        rw [hreq] at hsome
        cases hsome
      · intro o h
        refine (and_iff_left fun k hk _ tx htx => ?_).symm
        rw [List.mem_singleton.mp hk, hreq] at htx
        cases htx
    | some tx =>
      constructor
      · intro k l
        rw [hexp]
        exact mapErase_eq_some
      · intro k tx'
        rw [hexp]
        exact mapErase_eq_some
      · intro k tx'
        rw [← and_assoc, hexp]
        refine mapErase_eq_some.trans (and_congr_right fun _ => not_congr ?_)
        refine (and_iff_left_of_imp fun hkey => ?_).symm
        rw [← hkey, hreq]
        rfl
      · intro o h
        refine foldl_mapErase_eq_some.trans (and_congr_right fun _ => ?_)
        constructor
        · intro hothers k hk _ tx' htx'
          rw [List.mem_singleton.mp hk, hreq] at htx'
          obtain rfl := Option.some.inj htx'
          exact hothers
        · intro hothers
          exact hothers key List.mem_cons_self ⟨lock, hlock, hlate⟩ tx hreq
  · rw [InstantX.cleanEntry_of_not_expired hexpired]
    have hexp : ∀ k ∈ [key], ¬ s.Expired now k := by
      intro k hk
      rwa [List.mem_singleton.mp hk]
    constructor
    · exact fun k l => (and_iff_left fun hk => hexp k hk.1 hk.2).symm
    · exact fun k tx => (and_iff_left fun hk => hexp k hk.1 hk.2).symm
    · exact fun k tx => (and_iff_left fun hk => hexp k hk.1 hk.2.1).symm
    · exact fun o h => (and_iff_left fun k hk hlate => absurd hlate (hexp k hk)).symm

theorem not_mem_cons_and {P P' : UInt256 → Prop} {key : UInt256} (hP : ∀ k ∈ done, (P' k ↔ P k)) (k : UInt256) :
    (¬ (k ∈ [key] ∧ P k) ∧ ¬ (k ∈ done ∧ P' k)) ↔ ¬ (k ∈ key :: done ∧ P k) := by
  rw [← not_or, List.mem_singleton, List.mem_cons, or_and_right, and_congr_right fun hk => hP k hk]

theorem Cleaned.cons {key : UInt256} (hkey : key ∉ done) (hs : Cleaned now s [key] s') (ht : Cleaned now s' done t) :
    Cleaned now s (key :: done) t := by
  have hne : ∀ k ∈ done, ¬ (k ∈ [key] ∧ s.Expired now k) := by
    rintro k hk ⟨hmem, -⟩
    exact hkey (List.mem_singleton.mp hmem ▸ hk)
  -- the entry changes nothing for the others
  have hexp : ∀ k ∈ done, (s'.Expired now k ↔ s.Expired now k) := by
    intro k hk
    unfold InstantX.Expired
    simp only [hs.locks, hne k hk, not_false_eq_true, and_true]
  have hreq : ∀ k ∈ done, ∀ tx, s'.mapTxLockReq k = some tx ↔ s.mapTxLockReq k = some tx := by
    intro k hk tx
    rw [hs.requests]
    exact and_iff_left (hne k hk)
  have hsome : ∀ k ∈ done, ((s'.mapTxLockReq k).isSome = true ↔ (s.mapTxLockReq k).isSome = true) := by
    intro k hk
    simp only [Option.isSome_iff_exists, hreq k hk]
  constructor
  · intro k l
    rw [ht.locks, hs.locks, and_assoc, not_mem_cons_and hexp]
  · intro k tx
    rw [ht.requests, hs.requests, and_assoc, not_mem_cons_and hexp]
  · intro k tx
    rw [ht.rejected, hs.rejected, and_assoc,
      not_mem_cons_and (P := fun k => s.Expired now k ∧ (s.mapTxLockReq k).isSome = true)
        fun k hk => and_congr (hexp k hk) (hsome k hk)]
  · intro o h
    rw [ht.inputs, hs.inputs, and_assoc, List.forall_mem_singleton, List.forall_mem_cons]
    refine and_congr_right fun _ => and_congr_right fun _ => forall₂_congr fun k hk => ?_
    simp only [hexp k hk, hreq k hk]

theorem InstantX.LocksKeyed.of_cleaned (hkeyed : s.LocksKeyed) (ht : Cleaned now s done t) : t.LocksKeyed :=
  fun k lock hlock => hkeyed k lock ((ht.locks k lock).mp hlock).1

/-- All entries. By induction on the keys that the iterator has still to come to. -/
theorem cleaned_foldl (hkeyed : s.LocksKeyed) (hkeys : keys.Nodup) :
    Cleaned now s keys (keys.foldl (fun s => s.cleanEntry now) s) := by
  induction keys generalizing s with
  | nil => exact .nil now s
  | cons key it ih =>
    obtain ⟨hkey, hit⟩ := List.nodup_cons.mp hkeys
    have hentry : Cleaned now s [key] (s.cleanEntry now key) := cleaned_cleanEntry hkeyed key
    exact .cons hkey hentry (ih (hkeyed.of_cleaned hentry) hit)

theorem IsKeys.nodup {V : Type} {m : UInt256 → Option V} (hkeys : IsKeys m keys) : keys.Nodup := by
  refine hkeys.sorted.imp ?_
  rintro a _ hlt rfl
  exact BitVec.lt_irrefl a hlt

theorem exists_cleansLocks (ext : InstantXExt) (s : InstantX) : ∃ s', CleansLocks ext s s' := by
  unfold CleansLocks
  split
  · exact ⟨s, rfl⟩
  · obtain ⟨keys, hkeys⟩ := exists_isKeys s.mapTxLocks
    exact ⟨_, keys, hkeys, returns_cleanRound.mpr rfl⟩

theorem CleansLocks.cleaned (hclean : CleansLocks ext s s') (hbest : ext.pindexBest ≠ none) (hkeyed : s.LocksKeyed) :
    ∃ keys, (∀ k, s.Expired ext.getTime k → k ∈ keys) ∧ Cleaned ext.getTime s keys s' := by
  unfold CleansLocks at hclean
  rw [if_neg hbest] at hclean
  obtain ⟨keys, hkeys, hreturns⟩ := hclean
  refine ⟨keys, fun k hk => ?_, ?_⟩
  · obtain ⟨lock, hlock, -⟩ := hk
    exact (hkeys.mem_iff k).mpr (Option.isSome_of_eq_some hlock)
  · rw [returns_cleanRound.mp hreturns]
    exact cleaned_foldl hkeyed hkeys.nodup

end PupaCoin
