import Mathlib.Data.List.Nodup
import Mathlib.Data.List.Count
import Mathlib.Data.List.Perm.Subperm

/-!
# Votes of enough different voters

Votes are collected in a list; every vote has a voter. `Quorum k voter good votes` says that among the
votes there are `k` good ones of different voters. A collector that takes one vote of each voter only has
to count.
-/

namespace Tally

variable {V M N : Type} {k : ℕ} {voter : V → M} {good better : V → Prop} {votes more : List V}

variable {counted : V → Bool} {key : V → N} {v : V}

/-- Among the votes are `k` good ones of different voters. -/
def Quorum (k : ℕ) (voter : V → M) (good : V → Prop) (votes : List V) : Prop :=
  ∃ chosen : List V, chosen.Sublist votes ∧ k ≤ chosen.length ∧ (chosen.map voter).Nodup
    ∧ ∀ v ∈ chosen, good v

theorem quorum_of_count (hnd : (votes.map voter).Nodup)
    (hk : k ≤ votes.countP counted) (hgood : ∀ v ∈ votes, counted v = true → good v) : Quorum k voter good votes := by
  refine ⟨votes.filter counted, List.filter_sublist, ?_, hnd.sublist (List.filter_sublist.map voter), ?_⟩
  · rw [← List.countP_eq_length_filter]
    exact hk
  · intro v hv
    rw [List.mem_filter] at hv
    exact hgood v hv.1 hv.2

theorem Quorum.count (hq : Quorum k voter good votes)
    (hgood : ∀ v ∈ votes, good v → counted v = true) : k ≤ votes.countP counted := by
  obtain ⟨chosen, hsub, hk, -, hall⟩ := hq
  have hcount : chosen.countP counted = chosen.length := by
    rw [List.countP_eq_length]
    exact fun v hv => hgood v (hsub.subset hv) (hall v hv)
  have hle : chosen.countP counted ≤ votes.countP counted := hsub.countP_le
  omega

theorem nodup_of_key (hnd : (votes.map key).Nodup)
    (hkey : ∀ v ∈ votes, ∀ w ∈ votes, voter v = voter w → key v = key w) : (votes.map voter).Nodup := by
  rw [List.nodup_map_iff_inj_on (List.Nodup.of_map key hnd)]
  intro v hv w hw hvw
  exact List.inj_on_of_nodup_map hnd hv hw (hkey v hv w hw hvw)

theorem nodup_append_vote (hnd : (votes.map key).Nodup)
    (hnew : ∀ w ∈ votes, key w ≠ key v) : ((votes ++ [v]).map key).Nodup := by
  rw [List.map_append, List.nodup_append]
  refine ⟨hnd, List.nodup_singleton _, ?_⟩
  intro a ha b hb hab
  obtain ⟨w, hw, rfl⟩ := List.mem_map.mp ha
  rw [List.map_singleton, List.mem_singleton] at hb
  exact hnew w hw (hab.trans hb)

theorem Quorum.count_of_covered (hq : Quorum k voter good votes)
    (hcover : ∀ v ∈ votes, good v → ∃ w ∈ more, counted w = true ∧ voter w = voter v) : k ≤ more.countP counted := by
  obtain ⟨chosen, hsub, hk, hnd, hall⟩ := hq
  have hsubset : chosen.map voter ⊆ (more.filter counted).map voter := by
    intro m hm
    obtain ⟨v, hv, rfl⟩ := List.mem_map.mp hm
    obtain ⟨w, hw, hcounted, heq⟩ := hcover v (hsub.subset hv) (hall v hv)
    exact List.mem_map.mpr ⟨w, List.mem_filter.mpr ⟨hw, hcounted⟩, heq⟩
  have hle := (List.subperm_of_subset hnd hsubset).length_le
  rw [List.length_map, List.length_map, ← List.countP_eq_length_filter] at hle
  omega

theorem Quorum.voters (hq : Quorum k voter good votes) :
    ∃ voters : List M, voters.Nodup ∧ k ≤ voters.length ∧ ∀ m ∈ voters, ∃ v ∈ votes, good v ∧ voter v = m := by
  obtain ⟨chosen, hsub, hk, hnd, hall⟩ := hq
  refine ⟨chosen.map voter, hnd, ?_, ?_⟩
  · rw [List.length_map]
    exact hk
  · intro m hm
    obtain ⟨v, hv, rfl⟩ := List.mem_map.mp hm
    exact ⟨v, hsub.subset hv, hall v hv, rfl⟩

theorem Quorum.disjoint {l : ℕ} (hq : Quorum k voter good votes) (hq' : Quorum l voter better more)
    (hone : ∀ v ∈ votes, ∀ w ∈ more, good v → better w → voter v ≠ voter w) :
    ∃ voters voters' : List M, (voters ++ voters').Nodup ∧ k ≤ voters.length ∧ l ≤ voters'.length
      ∧ (∀ m ∈ voters, ∃ v ∈ votes, good v ∧ voter v = m)
      ∧ ∀ m ∈ voters', ∃ v ∈ more, better v ∧ voter v = m := by
  obtain ⟨voters, hnd, hk, hvoters⟩ := hq.voters
  obtain ⟨voters', hnd', hl, hvoters'⟩ := hq'.voters
  refine ⟨voters, voters', List.nodup_append.mpr ⟨hnd, hnd', ?_⟩, hk, hl, hvoters, hvoters'⟩
  intro m hm m' hm' hsame
  obtain ⟨v, hv, hgood, rfl⟩ := hvoters m hm
  obtain ⟨w, hw, hbetter, rfl⟩ := hvoters' m' hm'
  exact hone v hv w hw hgood hbetter hsame

/-! ## Votes that are tried once

A collector that records the key of every vote tries the first vote with a key only.
-/

section Firsts

variable [DecidableEq N] (key : V → N)

/-- The first votes with their keys, without the keys that have been seen. -/
def firsts : List N → List V → List V
  | _, [] => []
  | seen, v :: votes =>
    if key v ∈ seen then firsts seen votes else v :: firsts (key v :: seen) votes

variable {key} {seen seen' : List N}

theorem firsts_of_seen (h : key v ∈ seen) : firsts key seen (v :: votes) = firsts key seen votes := by
  rw [firsts, if_pos h]

theorem firsts_of_new (h : key v ∉ seen) : firsts key seen (v :: votes) = v :: firsts key (key v :: seen) votes := by
  rw [firsts, if_neg h]

theorem mem_of_mem_firsts (h : v ∈ firsts key seen votes) : v ∈ votes := by
  induction votes generalizing seen with
  | nil => cases h
  | cons w votes ih =>
    by_cases hw : key w ∈ seen
    · rw [firsts_of_seen hw] at h
      exact List.mem_cons_of_mem w (ih h)
    · rw [firsts_of_new hw, List.mem_cons] at h
      rcases h with rfl | h
      · exact List.mem_cons_self
      · exact List.mem_cons_of_mem w (ih h)

theorem key_notMem_of_mem_firsts (h : v ∈ firsts key seen votes) : key v ∉ seen := by
  induction votes generalizing seen with
  | nil => cases h
  | cons w votes ih =>
    by_cases hw : key w ∈ seen
    · rw [firsts_of_seen hw] at h
      exact ih h
    · rw [firsts_of_new hw, List.mem_cons] at h
      rcases h with rfl | h
      · exact hw
      · exact fun hv => ih h (List.mem_cons_of_mem _ hv)

theorem nodup_firsts (seen : List N) (votes : List V) : ((firsts key seen votes).map key).Nodup := by
  induction votes generalizing seen with
  | nil => exact List.nodup_nil
  | cons w votes ih =>
    by_cases hw : key w ∈ seen
    · rw [firsts_of_seen hw]
      exact ih seen
    · rw [firsts_of_new hw, List.map_cons, List.nodup_cons]
      refine ⟨fun hmem => ?_, ih _⟩
      obtain ⟨v, hv, hkey⟩ := List.mem_map.mp hmem
      exact key_notMem_of_mem_firsts hv (hkey ▸ List.mem_cons_self)

end Firsts

end Tally
