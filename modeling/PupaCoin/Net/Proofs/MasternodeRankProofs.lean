import PupaCoin.Net.MasternodeMan
import PupaCoin.Net.Proofs.InstantXProofs

/-!
# When the ranks are consistent

Both functions read the list of masternodes that `Ranking.ranking` makes of the scores. A rank is a place
in this list, so that everything follows from the places being determined by the scores.
-/

namespace PupaCoin

open Ranking

variable {vMasternodes : List CMasternode}

section Ranks

variable {env : InstantXEnv} {ext : InstantXExt} {nBlockHeight minProtocol nRank : Int} {mn : CMasternode}
  {vin : CTxIn}

variable (env nBlockHeight) in
theorem masternodeScores_snd : (masternodeScores env ext nBlockHeight minProtocol).map Prod.snd
    = (rankedMasternodes ext minProtocol).map CMasternode.vin := by
  unfold masternodeScores
  rw [List.map_map]
  rfl

theorem mem_ranking : vin ∈ ranking (masternodeScores env ext nBlockHeight minProtocol)
    ↔ ∃ mn ∈ rankedMasternodes ext minProtocol, mn.vin = vin := by
  rw [(ranking_perm _).mem_iff, masternodeScores_snd, List.mem_map]

/-- Masternodes of different scores have different inputs, because the score is computed from the input. -/
theorem nodup_vins (hnd : ((masternodeScores env ext nBlockHeight minProtocol).map Prod.fst).Nodup) :
    ((masternodeScores env ext nBlockHeight minProtocol).map Prod.snd).Nodup := by
  rw [masternodeScores_snd]
  unfold masternodeScores at hnd
  rw [List.map_map] at hnd
  have hmap : (rankedMasternodes ext minProtocol).map
      (Prod.fst ∘ fun mn => ((masternodeScore env ext nBlockHeight mn.vin).toNat % 2 ^ 32, mn.vin))
      = ((rankedMasternodes ext minProtocol).map CMasternode.vin).map fun vin =>
        (masternodeScore env ext nBlockHeight vin).toNat % 2 ^ 32 := by
    rw [List.map_map]
    rfl
  rw [hmap] at hnd
  exact List.Nodup.of_map _ hnd

theorem getMasternodeRank_unknown (hunknown : ext.getBlockHash nBlockHeight = none) :
    getMasternodeRank env ext vin nBlockHeight minProtocol = -1 := by
  unfold getMasternodeRank
  rw [hunknown]

variable (vin) in
theorem getMasternodeRank_eq (hknown : (ext.getBlockHash nBlockHeight).isSome) :
    getMasternodeRank env ext vin nBlockHeight minProtocol
      = ((place (ranking (masternodeScores env ext nBlockHeight minProtocol)) vin).map
        fun i : Nat => (i : Int) + 1).getD (-1) := by
  obtain ⟨hash, hhash⟩ := Option.isSome_iff_exists.mp hknown
  unfold getMasternodeRank place ranking byScore masternodeScores masternodeScore rankedMasternodes
  rw [hhash, List.findIdx?_map]
  simp only [Function.comp_def]
  split
  · next h => rw [h]; rfl
  · next i h => rw [h]; rfl

theorem getMasternodeByRank_eq : getMasternodeByRank env ext nRank nBlockHeight minProtocol = if 1 ≤ nRank then
        ((ranking (masternodeScores env ext nBlockHeight minProtocol))[(nRank - 1).toNat]?).bind
          (findMasternode ext)
      else none := by
  unfold getMasternodeByRank ranking
  rw [List.getElem?_map, Option.bind_map]
  rfl

theorem getMasternodeRank_eq_iff (hknown : (ext.getBlockHash nBlockHeight).isSome)
    (hnd : ((masternodeScores env ext nBlockHeight minProtocol).map Prod.snd).Nodup) {i : Nat}
    (hmem : ∃ mn ∈ rankedMasternodes ext minProtocol, mn.vin = vin) :
    getMasternodeRank env ext vin nBlockHeight minProtocol = (i : Int) + 1
      ↔ (ranking (masternodeScores env ext nBlockHeight minProtocol))[i]? = some vin := by
  have hnd' := (ranking_perm (masternodeScores env ext nBlockHeight minProtocol)).nodup_iff.mpr hnd
  rw [getMasternodeRank_eq _ hknown, ← place_eq_some hnd']
  cases hplace : place (ranking (masternodeScores env ext nBlockHeight minProtocol)) vin with
  | none => exact absurd (mem_ranking.mpr hmem) (place_eq_none.mp hplace)
  | some j =>
    rw [Option.map_some, Option.getD_some, Option.some.injEq]
    constructor <;> intro h <;> omega

variable (env nBlockHeight) in
theorem exists_place (hmn : mn ∈ rankedMasternodes ext minProtocol) :
    ∃ i : Nat, (ranking (masternodeScores env ext nBlockHeight minProtocol))[i]? = some mn.vin :=
  List.mem_iff_getElem?.mp (mem_ranking.mpr ⟨mn, hmn, rfl⟩)

theorem masternodeScores_perm (hp : vMasternodes.Perm ext.vMasternodes) :
    (masternodeScores env { ext with vMasternodes } nBlockHeight minProtocol).Perm
      (masternodeScores env ext nBlockHeight minProtocol) :=
  (hp.filter _).map _

section Rankable

variable (hr : Rankable env ext nBlockHeight minProtocol)

include hr

theorem Rankable.known_of_mem (hmn : mn ∈ rankedMasternodes ext minProtocol) :
    (ext.getBlockHash nBlockHeight).isSome := by
  rcases hr.known with hnil | hknown
  · rw [hnil] at hmn
    cases hmn
  · exact hknown

theorem Rankable.byRank_eq_iff : getMasternodeByRank env ext nRank nBlockHeight minProtocol = some mn
    ↔ mn ∈ rankedMasternodes ext minProtocol ∧ ∃ i : Nat, nRank = (i : Int) + 1
      ∧ (ranking (masternodeScores env ext nBlockHeight minProtocol))[i]? = some mn.vin := by
  rw [getMasternodeByRank_eq]
  constructor
  · intro h
    split at h
    · next hpos =>
      obtain ⟨vin, hvin, hfind⟩ := Option.bind_eq_some_iff.mp h
      obtain ⟨mn', hmn', rfl⟩ := mem_ranking.mp (List.mem_of_getElem? hvin)
      rw [hr.own mn' hmn', Option.some.injEq] at hfind
      subst hfind
      exact ⟨hmn', _, by omega, hvin⟩
    · cases h
  · rintro ⟨hmn, i, rfl, hplace⟩
    rw [if_pos (by omega), Int.add_sub_cancel, Int.toNat_natCast, hplace, Option.bind_some]
    exact hr.own mn hmn

theorem Rankable.ranks : ((rankedMasternodes ext minProtocol).map fun mn =>
      getMasternodeRank env ext mn.vin nBlockHeight minProtocol).Perm
    ((List.range (rankedMasternodes ext minProtocol).length).map fun i : Nat => (i : Int) + 1) := by
  have hnd := nodup_vins hr.distinct
  have hrank : ∀ mn ∈ rankedMasternodes ext minProtocol, ∀ i : Nat,
      getMasternodeRank env ext mn.vin nBlockHeight minProtocol = (i : Int) + 1
        ↔ (ranking (masternodeScores env ext nBlockHeight minProtocol))[i]? = some mn.vin :=
    fun mn hmn i => getMasternodeRank_eq_iff (hr.known_of_mem hmn) hnd ⟨mn, hmn, rfl⟩
  have hvins : ((rankedMasternodes ext minProtocol).map CMasternode.vin).Nodup := by
    rw [← masternodeScores_snd env nBlockHeight]
    exact hnd
  have hlen : (ranking (masternodeScores env ext nBlockHeight minProtocol)).length
      = (rankedMasternodes ext minProtocol).length := by
    rw [(ranking_perm _).length_eq, masternodeScores_snd, List.length_map]
  refine (List.perm_ext_iff_of_nodup ?_ ?_).mpr fun n => ?_
  · rw [List.nodup_map_iff_inj_on (List.Nodup.of_map _ hvins)]
    intro a ha b hb hab
    obtain ⟨i, hi⟩ := exists_place env nBlockHeight ha
    rw [(hrank a ha i).mpr hi, eq_comm, hrank b hb, hi, Option.some.injEq] at hab
    exact List.inj_on_of_nodup_map hvins ha hb hab
  · refine List.nodup_range.map fun i j hij => ?_
    simpa using hij
  · simp only [List.mem_map, List.mem_range]
    constructor
    · rintro ⟨mn, hmn, rfl⟩
      obtain ⟨i, hi⟩ := exists_place env nBlockHeight hmn
      obtain ⟨hlt, -⟩ := List.getElem?_eq_some_iff.mp hi
      exact ⟨i, hlen ▸ hlt, ((hrank mn hmn i).mpr hi).symm⟩
    · rintro ⟨i, hi, rfl⟩
      obtain ⟨mn, hmn, hvin⟩ := mem_ranking.mp (List.getElem_mem (hlen.symm ▸ hi :
        i < (ranking (masternodeScores env ext nBlockHeight minProtocol)).length))
      refine ⟨mn, hmn, (hrank mn hmn i).mpr ?_⟩
      rw [List.getElem?_eq_getElem (hlen.symm ▸ hi), hvin]

theorem Rankable.agree (hp : vMasternodes.Perm ext.vMasternodes)
    (hmn : mn ∈ rankedMasternodes ext minProtocol) :
    getMasternodeRank env { ext with vMasternodes } mn.vin nBlockHeight minProtocol
      = getMasternodeRank env ext mn.vin nBlockHeight minProtocol := by
  have hknown := hr.known_of_mem hmn
  have hknown' : (({ ext with vMasternodes } : InstantXExt).getBlockHash nBlockHeight).isSome := hknown
  rw [getMasternodeRank_eq _ hknown, getMasternodeRank_eq _ hknown',
    ranking_congr hr.distinct (masternodeScores_perm hp)]

end Rankable

theorem exists_masternodes_of_scores {ys : List (Nat × CTxIn)}
    (hp : ys.Perm (masternodeScores env ext nBlockHeight minProtocol)) :
    ∃ vMasternodes : List CMasternode, vMasternodes.Perm ext.vMasternodes
      ∧ masternodeScores env { ext with vMasternodes } nBlockHeight minProtocol = ys := by
  obtain ⟨ranked, hranked, rfl⟩ := exists_perm_of_map hp
  refine ⟨ranked ++ ext.vMasternodes.filter fun mn =>
    !(decide (minProtocol ≤ mn.protocolVersion) && mn.fEnabled), ?_, ?_⟩
  · exact (hranked.append_right _).trans (List.filter_append_perm _ _)
  · have hkept : ∀ mn ∈ ranked, (decide (minProtocol ≤ mn.protocolVersion) && mn.fEnabled) = true :=
      fun mn hmn => (List.mem_filter.mp (hranked.subset hmn)).2
    unfold masternodeScores rankedMasternodes
    rw [List.filter_append, List.filter_eq_self.mpr hkept, List.filter_filter]
    simp only [Bool.and_not_self, List.filter_false, List.append_nil]
    rfl

section RankConsistent

variable (hr : RankConsistent env ext nBlockHeight minProtocol)

include hr

theorem RankConsistent.rank_pos (hmn : mn ∈ rankedMasternodes ext minProtocol) :
    1 ≤ getMasternodeRank env ext mn.vin nBlockHeight minProtocol := by
  have hmem := hr.ranks.subset (List.mem_map_of_mem hmn)
  obtain ⟨i, -, hi⟩ := List.mem_map.mp hmem
  omega

theorem RankConsistent.known_of_mem (hmn : mn ∈ rankedMasternodes ext minProtocol) :
    (ext.getBlockHash nBlockHeight).isSome := by
  have hpos := hr.rank_pos hmn
  by_contra hunknown
  rw [getMasternodeRank_unknown (by simpa using hunknown)] at hpos
  omega

/-- No input occurs twice, because no rank does. -/
theorem RankConsistent.nodup_vins : ((masternodeScores env ext nBlockHeight minProtocol).map Prod.snd).Nodup := by
  rw [masternodeScores_snd]
  have hranks : ((rankedMasternodes ext minProtocol).map fun mn =>
      getMasternodeRank env ext mn.vin nBlockHeight minProtocol).Nodup := by
    rw [hr.ranks.nodup_iff]
    refine List.nodup_range.map fun i j hij => ?_
    simpa using hij
  have hmap : ((rankedMasternodes ext minProtocol).map fun mn =>
      getMasternodeRank env ext mn.vin nBlockHeight minProtocol)
      = ((rankedMasternodes ext minProtocol).map CMasternode.vin).map fun vin =>
        getMasternodeRank env ext vin nBlockHeight minProtocol := by
    rw [List.map_map]
    rfl
  rw [hmap] at hranks
  exact List.Nodup.of_map _ hranks

theorem RankConsistent.distinct : ((masternodeScores env ext nBlockHeight minProtocol).map Prod.fst).Nodup := by
  refine scores_nodup_of_places hr.nodup_vins ?_
  intro ys hys vin hvin
  rw [masternodeScores_snd] at hvin
  obtain ⟨mn, hmn, rfl⟩ := List.mem_map.mp hvin
  have hknown := hr.known_of_mem hmn
  obtain ⟨vMasternodes, hp, rfl⟩ := exists_masternodes_of_scores hys
  have hknown' : (({ ext with vMasternodes } : InstantXExt).getBlockHash nBlockHeight).isSome := hknown
  have hagree := hr.agree vMasternodes hp mn hmn
  rw [getMasternodeRank_eq _ hknown, getMasternodeRank_eq _ hknown'] at hagree
  revert hagree
  cases place (ranking (masternodeScores env { ext with vMasternodes } nBlockHeight minProtocol)) mn.vin <;>
    cases place (ranking (masternodeScores env ext nBlockHeight minProtocol)) mn.vin <;>
    simp <;> omega

end RankConsistent

/-- **The ranks are consistent** exactly when the block is known, no two masternodes have the same score and
`Find` leads to each of them. -/
theorem masternodeRank_iff :
    RankConsistent env ext nBlockHeight minProtocol ↔ Rankable env ext nBlockHeight minProtocol := by
  constructor
  · intro hr
    refine ⟨?_, hr.distinct, fun mn hmn => ?_⟩
    · rcases hranked : rankedMasternodes ext minProtocol with _ | ⟨mn, rest⟩
      · exact Or.inl rfl
      · have hmn : mn ∈ rankedMasternodes ext minProtocol := by simp [hranked]
        exact Or.inr (hr.known_of_mem hmn)
    · have hfound := hr.byRank_of_rank mn hmn
      obtain ⟨i, hi⟩ := exists_place env nBlockHeight hmn
      rw [(getMasternodeRank_eq_iff (hr.known_of_mem hmn) hr.nodup_vins ⟨mn, hmn, rfl⟩).mpr hi,
        getMasternodeByRank_eq, if_pos (by omega), Int.add_sub_cancel, Int.toNat_natCast, hi,
        Option.bind_some] at hfound
      exact hfound
  · intro hr
    have hrank : ∀ mn ∈ rankedMasternodes ext minProtocol, ∀ i : Nat,
        getMasternodeRank env ext mn.vin nBlockHeight minProtocol = (i : Int) + 1
          ↔ (ranking (masternodeScores env ext nBlockHeight minProtocol))[i]? = some mn.vin :=
      fun mn hmn i => getMasternodeRank_eq_iff (hr.known_of_mem hmn) (nodup_vins hr.distinct) ⟨mn, hmn, rfl⟩
    refine ⟨fun nRank mn h => ?_, fun mn hmn => ?_, hr.ranks, fun _ hp mn hmn => hr.agree hp hmn,
      fun _ hsorted => hsorted.unique hr.distinct (byScore_arranges _)⟩
    · obtain ⟨hmn, i, rfl, hi⟩ := hr.byRank_eq_iff.mp h
      exact ⟨hmn, (hrank mn hmn i).mpr hi⟩
    · obtain ⟨i, hi⟩ := exists_place env nBlockHeight hmn
      exact hr.byRank_eq_iff.mpr ⟨hmn, i, (hrank mn hmn i).mpr hi, hi⟩

end Ranks

namespace Sample

def tiedExt : InstantXExt :=
  { lockExt true with
    vMasternodes :=
      [⟨masternodeIn 21, [], 62032, true⟩, ⟨masternodeIn (21 + 2 ^ 32), [], 62032, true⟩] }

def blindExt : InstantXExt := { lockExt true with getBlockHash := fun _ => none }

/-- In either order the tied masternode in front is the first one; and where the block is not known,
    `GetMasternodeByRank` leads to a masternode that has no rank. -/
theorem ranks_inconsistent : ¬ RankConsistent lockEnv tiedExt 14 62032
    ∧ ¬ RankConsistent lockEnv blindExt 14 62032 := by
  constructor
  · intro htied
    have hagree := htied.agree tiedExt.vMasternodes.reverse (List.reverse_perm _)
      ⟨masternodeIn 21, [], 62032, true⟩ (List.mem_filter.mpr ⟨by simp [tiedExt], by decide⟩)
    exact absurd hagree (by decide)
  · intro hblind
    have hfirst : getMasternodeByRank lockEnv blindExt 1 14 62032
        = some ⟨masternodeIn 21, [], 62032, true⟩ := rfl
    obtain ⟨-, hrank⟩ := hblind.rank_of_byRank _ _ hfirst
    exact absurd hrank (by decide)

end Sample

end PupaCoin

/-!
## Proofs: removing and drawing masternodes

`Remove` returns only where the first entry is the one that it looks for, and `FindRandomNotInVec` counts one entry too
few.
-/

namespace PupaCoin

open While

section Remove

variable {vin : CTxIn} {mn : CMasternode} {rest vMasternodes' : List CMasternode}

theorem not_removes (h : mn.vin ≠ vin) : ¬ RemovesMasternode vin (mn :: rest) vMasternodes' := by
  refine not_returns (I := fun s => s = (mn :: rest, 0)) ?_ rfl
  rintro s rfl
  refine ⟨_, ?_, rfl⟩
  unfold removeRound
  simp only [List.getElem?_cons_zero, if_neg h]

theorem removes_cons (h : mn.vin = vin) : RemovesMasternode vin (mn :: rest) vMasternodes' ↔ vMasternodes' = rest := by
  refine returns_done_iff ?_
  unfold removeRound
  simp only [List.getElem?_cons_zero, if_pos h, List.eraseIdx_cons_zero]

theorem removes_nil : RemovesMasternode vin [] vMasternodes' ↔ vMasternodes' = [] := returns_done_iff rfl

/-- **`Remove`** returns with the first entry of its `vin` removed exactly when the list is empty or this entry comes
first. -/
theorem removesFirst_iff (vin : CTxIn) (vMasternodes : List CMasternode) :
    (∃ vMasternodes', RemovesFirst vin vMasternodes vMasternodes') ↔
      vMasternodes = [] ∨ ∃ mn rest, vMasternodes = mn :: rest ∧ mn.vin = vin := by
  cases vMasternodes with
  | nil =>
    refine iff_of_true ⟨[], removes_nil.mpr rfl, rfl, rfl, fun _ => rfl⟩ (Or.inl rfl)
  | cons mn rest =>
    constructor
    · rintro ⟨vMasternodes', hremoved⟩
      by_cases h : mn.vin = vin
      · exact Or.inr ⟨mn, rest, rfl, h⟩
      · exact absurd hremoved.returns (not_removes h)
    · rintro (hnil | ⟨_, _, hcons, h⟩)
      · cases hnil
      · obtain ⟨rfl, rfl⟩ := List.cons.inj hcons
        refine ⟨rest, (removes_cons h).mpr rfl, ?_, ?_, fun hnodup => ?_⟩
        · rw [List.filter_cons_of_neg (by simp [h])]
        · rw [List.eraseP_cons_of_pos (by simp [h])]
        · rw [List.filter_cons_of_neg (by simp [h])]
          -- no other entry has this `vin`
          refine (List.filter_eq_self.mpr fun mn' hmn' => ?_).symm
          have hne := (List.nodup_cons.mp hnodup).1
          rw [h] at hne
          refine decide_eq_true fun heq => hne ?_
          rw [← heq]
          exact List.mem_map_of_mem hmn'

/-- A list of one masternode, and the `vin` of another one. -/
theorem not_removesFirst : ¬ ∀ (vin : CTxIn) (vMasternodes : List CMasternode),
    ∃ vMasternodes', RemovesFirst vin vMasternodes vMasternodes' := by
  intro hall
  obtain ⟨vMasternodes', hremoved⟩ := hall ⟨⟨1, 0⟩, [], 0xffffffff⟩ [⟨⟨⟨2, 0⟩, [], 0xffffffff⟩, [], 62032, true⟩]
  exact not_removes (by decide) hremoved.returns

end Remove

section Find

theorem countDown_eq (eligible : CMasternode → Bool) (xs : List (CMasternode × Nat)) (rand : Int) :
    countDown eligible xs rand = ((xs.filter fun s => eligible s.1).map Prod.snd)[(rand - 1).toNat]? := by
  induction xs generalizing rand with
  | nil => rfl
  | cons s rest ih =>
    obtain ⟨mn, i⟩ := s
    unfold countDown
    rw [List.filter_cons]
    by_cases heligible : eligible mn = true
    · rw [if_neg (by simp [heligible]), if_pos heligible, List.map_cons]
      by_cases hlast : rand - 1 < 1
      · have hzero : (rand - 1).toNat = 0 := by omega
        rw [if_pos hlast, hzero, List.getElem?_cons_zero]
      · have hsucc : (rand - 1).toNat = (rand - 1 - 1).toNat + 1 := by omega
        rw [if_neg hlast, ih, hsucc, List.getElem?_cons_succ]
    · rw [if_pos (by simpa using heligible), if_neg heligible, ih]

variable {minPaymentsProto : Int} {vMasternodes : List CMasternode} {vecToExclude : List CTxIn} {protocolVersion : Int}

theorem nodup_eligiblePositions :
    (eligiblePositions minPaymentsProto vMasternodes vecToExclude protocolVersion).Nodup := by
  have hpositions : (vMasternodes.zipIdx.map Prod.snd).Nodup := by
    rw [List.zipIdx_map_snd]
    exact List.nodup_range'
  exact hpositions.sublist (List.filter_sublist.map Prod.snd)

theorem findRandomNotInVec_eq (hleft : sizeLeft minPaymentsProto vMasternodes vecToExclude protocolVersion ≠ 0)
    (r : Nat) : findRandomNotInVec minPaymentsProto vMasternodes vecToExclude protocolVersion r =
      (eligiblePositions minPaymentsProto vMasternodes vecToExclude protocolVersion)[r - 1]? := by
  have hindex : ((r : Int) - 1).toNat = r - 1 := by omega
  unfold findRandomNotInVec
  rw [if_neg (by omega), countDown_eq, hindex]
  rfl

/-- **`FindRandomNotInVec`** finds the entry with a random number among the eligible ones, and none where nothing is
eligible, exactly for the first number of those. -/
theorem findsEligible_iff (minPaymentsProto : Int) (vMasternodes : List CMasternode) (vecToExclude : List CTxIn)
    (protocolVersion : Int) (r : Nat)
    (hr : eligiblePositions minPaymentsProto vMasternodes vecToExclude protocolVersion ≠ [] →
      r < (eligiblePositions minPaymentsProto vMasternodes vecToExclude protocolVersion).length) :
    FindsEligible minPaymentsProto vMasternodes vecToExclude protocolVersion r ↔
      FindsFirst minPaymentsProto vMasternodes vecToExclude protocolVersion r := by
  have hnodup : (eligiblePositions minPaymentsProto vMasternodes vecToExclude protocolVersion).Nodup :=
    nodup_eligiblePositions
  unfold FindsEligible FindsFirst
  refine and_congr_right fun _ => ?_
  by_cases hleft : sizeLeft minPaymentsProto vMasternodes vecToExclude protocolVersion = 0
  · have hnone : findRandomNotInVec minPaymentsProto vMasternodes vecToExclude protocolVersion r = none := by
      unfold findRandomNotInVec
      rw [if_pos (by omega)]
    rw [hnone]
    constructor
    · intro hfound
      by_contra hsome
      have hlt := hr fun hnil => hsome (Or.inl hnil)
      rw [List.getElem?_eq_getElem hlt] at hfound
      cases hfound
    · rintro (hnil | ⟨-, hne⟩)
      · rw [hnil, List.getElem?_nil]
      · exact absurd hleft hne
  · rw [findRandomNotInVec_eq hleft]
    constructor
    · intro hfound
      by_cases hnil : eligiblePositions minPaymentsProto vMasternodes vecToExclude protocolVersion = []
      · exact Or.inl hnil
      · -- the positions are different, so the numbers are the same
        refine Or.inr ⟨?_, hleft⟩
        have hlt := hr hnil
        by_contra hzero
        exact List.nodup_iff_getElem?_ne_getElem?.mp hnodup (r - 1) r (by omega) hlt hfound
    · rintro (hnil | ⟨rfl, -⟩)
      · rw [hnil, List.getElem?_nil, List.getElem?_nil]
      · rfl

namespace Sample

def enabledNode (hash : UInt256) : CMasternode := ⟨⟨⟨hash, 0⟩, [], 0xffffffff⟩, [], 62032, true⟩

/-- The second of two masternodes is meant, and the first one is found. -/
theorem second_not_found : ¬ ∀ (minPaymentsProto : Int) (vMasternodes : List CMasternode) (vecToExclude : List CTxIn)
    (protocolVersion : Int) (r : Nat),
    r < (eligiblePositions minPaymentsProto vMasternodes vecToExclude protocolVersion).length →
      FindsEligible minPaymentsProto vMasternodes vecToExclude protocolVersion r := by
  intro hall
  have hfinds := hall 62032 [enabledNode 1, enabledNode 2] [] (-1) 1 (by decide)
  have hfound : findRandomNotInVec 62032 [enabledNode 1, enabledNode 2] [] (-1) 1 = some 0 := by decide
  have heligible : eligiblePositions 62032 [enabledNode 1, enabledNode 2] [] (-1) = [0, 1] := by decide
  have hsame := hfinds.2
  rw [heligible] at hsame
  exact absurd (hfound.symm.trans hsame) (by decide)

theorem other_found : FindsEligible 62032 [enabledNode 1, enabledNode 2] [⟨⟨1, 0⟩, [], 0xffffffff⟩] (-1) 0 :=
  (findsEligible_iff 62032 [enabledNode 1, enabledNode 2] [⟨⟨1, 0⟩, [], 0xffffffff⟩] (-1) 0
    (fun _ => by decide)).mpr ⟨by decide, Or.inr ⟨rfl, by decide⟩⟩

end Sample

end Find

end PupaCoin
