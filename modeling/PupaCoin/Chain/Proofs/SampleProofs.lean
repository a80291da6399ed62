import PupaCoin.Chain.Proofs.EffectsProofs
import PupaCoin.Chain.Sample

/-!
# The sample chain at every height

Facts about `chainNode best` for every best height that the positions in the block files leave room
for: what its index holds, which blocks are ancestors of which, and where its transactions are.
-/

namespace PupaCoin.Sample

variable {best k : Nat}

def maxBest : Nat := 4000000

theorem blockHash_toNat (hk : k ≤ maxBest) : (blockHash k).toNat = k + 1 := by
  unfold maxBest at hk
  rw [blockHash, BitVec.toNat_ofNat, Nat.mod_eq_of_lt (by omega)]

theorem blockPos_toNat (hk : k ≤ maxBest) : (blockPos k).toNat = 1000 * k + 8 := by
  unfold maxBest at hk
  rw [blockPos, UInt32.toNat_ofNat', Nat.mod_eq_of_lt (by omega)]

theorem eq_blockHash {h : UInt256} (h1 : 1 ≤ h.toNat) (h2 : h.toNat ≤ maxBest + 1) : h = blockHash (h.toNat - 1) := by
  apply BitVec.eq_of_toNat_eq
  rw [blockHash_toNat (by omega)]
  omega

theorem entries_chainNode {h : UInt256} {e : CBlockIndex} (hbest : best ≤ maxBest) :
    (chainNode best).mapBlockIndex.entries h = some e ↔ ∃ k ≤ best, h = blockHash k ∧ e = chainEntry best k := by
  change chainEntries best h = some e ↔ _
  unfold chainEntries
  constructor
  · intro he
    split at he
    · rename_i hh
      cases he
      exact ⟨h.toNat - 1, by omega, eq_blockHash hh.1 (by omega), rfl⟩
    · cases he
  · rintro ⟨k, hk, rfl, rfl⟩
    rw [blockHash_toNat (by omega), if_pos (by omega)]
    rfl

theorem entry_chainNode (hbest : best ≤ maxBest) (hk : k ≤ best) :
    (chainNode best).mapBlockIndex.entries (blockHash k) = some (chainEntry best k) :=
  (entries_chainNode hbest).mpr ⟨k, hk, rfl, rfl⟩

/-- The ancestors of a block are the blocks below it. By induction on its height. -/
theorem mem_path_chainNode (hbest : best ≤ maxBest) (hk : k ≤ best) (h : UInt256) :
    h ∈ (chainNode best).mapBlockIndex.path (blockHash k) ↔ ∃ j ≤ k, h = blockHash j := by
  have hparent : (chainNode best).mapBlockIndex.toParentTree.parent (blockHash k)
      = (chainEntry best k).pprev := by
    change (chainNode best).mapBlockIndex.pprev (blockHash k) = _
    simp [BlockTree.pprev, entry_chainNode hbest hk]
  unfold BlockTree.path
  induction k with
  | zero =>
    rw [ParentTree.path_of_root hparent, List.mem_singleton]
    constructor
    · rintro rfl
      exact ⟨0, le_rfl, rfl⟩
    · rintro ⟨j, hj, rfl⟩
      rw [Nat.le_zero.mp hj]
  | succ k ih =>
    have hparentK : (chainNode best).mapBlockIndex.toParentTree.parent (blockHash k)
        = (chainEntry best k).pprev := by
      change (chainNode best).mapBlockIndex.pprev (blockHash k) = _
      simp [BlockTree.pprev, entry_chainNode hbest (by omega : k ≤ best)]
    have hlower : h ∈ (chainNode best).mapBlockIndex.toParentTree.path (blockHash k) ↔
        ∃ j ≤ k, h = blockHash j := ih (by omega) hparentK
    rw [ParentTree.path_of_parent (p := blockHash k) (by rw [hparent]; simp [chainEntry]), List.mem_cons, hlower]
    constructor
    · rintro (rfl | ⟨j, hj, rfl⟩)
      · exact ⟨k + 1, le_rfl, rfl⟩
      · exact ⟨j, by omega, rfl⟩
    · rintro ⟨j, hj, rfl⟩
      rcases Nat.lt_or_ge k j with hlt | hge
      · exact Or.inl (by rw [show j = k + 1 by omega])
      · exact Or.inr ⟨j, hge, rfl⟩

theorem mem_activePath (hbest : best ≤ maxBest) (h : UInt256) :
    h ∈ activePath (chainNode best) ↔ ∃ j ≤ best, h = blockHash j :=
  mem_path_chainNode hbest le_rfl h

theorem containsTx_chainNode (hbest : best ≤ maxBest) {h txHash : UInt256} :
    ContainsTx env (chainNode best) h txHash ↔ ∃ k ≤ best, h = blockHash k ∧ txHash = blockHash k := by
  have hread : ∀ k ≤ best, (chainNode best).files.readBlock 1 (blockPos k) = some (chainBlock k) := by
    intro k hk
    change (if (1 : UInt32) = 1 ∧ (blockPos k).toNat % 1000 = 8
      then some (chainBlock ((blockPos k).toNat / 1000)) else none) = _
    rw [blockPos_toNat (by omega), if_pos ⟨rfl, by omega⟩, show (1000 * k + 8) / 1000 = k by omega]
  have hhash : ∀ k ≤ best, env.getHash (coinbaseTx k) = blockHash k := by
    intro k hk
    unfold maxBest at hbest
    change BitVec.ofNat 256 (UInt32.ofNat (k + 1)).toNat = _
    rw [UInt32.toNat_ofNat', Nat.mod_eq_of_lt (by omega)]
    rfl
  constructor
  · rintro ⟨pindex, block, hentry, hblock, tx, htx, rfl⟩
    obtain ⟨k, hk, rfl, rfl⟩ := (entries_chainNode hbest).mp hentry
    have hsome := hblock.symm.trans (hread k hk)
    cases hsome
    rw [List.mem_singleton.mp htx, hhash k hk]
    exact ⟨k, hk, rfl, rfl⟩
  · rintro ⟨k, hk, rfl, rfl⟩
    exact ⟨_, _, entry_chainNode hbest hk, hread k hk, coinbaseTx k, List.mem_singleton.mpr rfl, hhash k hk⟩

theorem activeIndex_chainNode (hbest : best ≤ maxBest) : ActiveIndex env (chainNode best) where
  located := by
    intro txHash txindex hread
    change (chainDb best).readTxIndex txHash = some txindex at hread
    unfold Db.readTxIndex chainDb at hread
    simp only at hread
    have hrange : 2 ≤ txHash.toNat ∧ txHash.toNat ≤ best + 1 := by
      by_contra hnot
      rw [if_neg hnot] at hread
      cases hread
    rw [if_pos hrange] at hread
    have hpos : txindex.pos
        = ⟨1, blockPos (txHash.toNat - 1), blockPos (txHash.toNat - 1) + 81⟩ := by
      cases hread
      rfl
    obtain ⟨h1, h2⟩ := hrange
    have hhash := eq_blockHash (h := txHash) (by omega) (by omega)
    have hk : txHash.toNat - 1 ≤ best := by omega
    refine ⟨txHash, (mem_activePath hbest _).mpr ⟨_, hk, hhash⟩, ⟨chainEntry best (txHash.toNat - 1),
      ?_, ?_, ?_⟩, (containsTx_chainNode hbest).mpr ⟨_, hk, hhash, hhash⟩⟩
    · exact (entries_chainNode hbest).mpr ⟨_, hk, hhash, rfl⟩
    · rw [hpos]
      rfl
    · rw [hpos]
      rfl
  once := by
    intro h hh k hk txHash hcontains hcontainsK
    obtain ⟨i, _, rfl, rfl⟩ := (containsTx_chainNode hbest).mp hcontains
    obtain ⟨j, _, rfl, heq⟩ := (containsTx_chainNode hbest).mp hcontainsK
    exact heq
  placed := by
    rintro txindex h k ⟨e, he, _, hpos⟩ ⟨f, hf, _, hpos'⟩
    obtain ⟨i, hi, rfl, rfl⟩ := (entries_chainNode hbest).mp he
    obtain ⟨j, hj, rfl, rfl⟩ := (entries_chainNode hbest).mp hf
    have heq : blockPos i = blockPos j := hpos.trans hpos'.symm
    have hnat := congrArg UInt32.toNat heq
    rw [blockPos_toNat (by omega), blockPos_toNat (by omega)] at hnat
    rw [show i = j by omega]

end PupaCoin.Sample
