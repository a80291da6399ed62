import PupaCoin.Chain.Locator
import PupaCoin.Chain.Proofs.ReorganizeProofs
import PupaCoin.Lib.Samples

/-!
# Proofs: block locators

Both loops go through the same distances, `stepDistance`: the element number `k` of a locator is the block at the
position `stepDistance k` of the branch, and the distance when the other loop comes to it is `stepDistance k`.
-/

namespace PupaCoin

variable {k : Nat}

section MainChain

variable {n : Node} {tip : UInt256} {pindex : CBlockIndex}

theorem isInMainChain_iff (hlinked : Linked n.mapBlockIndex tip) (htip : n.pindexBest = some tip)
    (hentry : n.mapBlockIndex.entries pindex.phashBlock = some pindex) :
    n.isInMainChain pindex = true ↔ pindex.phashBlock ∈ n.mapBlockIndex.path tip := by
  have hnext : pindex.pnext = n.mapBlockIndex.toParentTree.next tip pindex.phashBlock := hlinked _ _ hentry
  unfold Node.isInMainChain
  rw [Bool.or_eq_true, htip, beq_iff_eq, Option.some.injEq, hnext]
  constructor
  · rintro (hsome | rfl)
    · by_contra hmem
      have hnone := ParentTree.next_eq_none_of_not_mem hmem
      rw [hnone] at hsome
      cases hsome
    · exact ParentTree.mem_path_self _
  · intro hmem
    by_cases heq : tip = pindex.phashBlock
    · exact Or.inr heq
    · obtain ⟨c, hc⟩ := ParentTree.exists_next hmem (Ne.symm heq)
      exact Or.inl (by rw [hc]; rfl)

theorem inMainChain_iff (hlinked : Linked n.mapBlockIndex tip) (htip : n.pindexBest = some tip)
    (hknown : (n.mapBlockIndex.entries tip).isSome) (h : UInt256) :
    n.inMainChain h = true ↔ h ∈ n.mapBlockIndex.path tip := by
  unfold Node.inMainChain
  cases hentry : n.mapBlockIndex.entries h with
  | none =>
    refine iff_of_false (by simp) fun hmem => ?_
    obtain ⟨e, he⟩ := Option.isSome_iff_exists.mp hknown
    obtain ⟨f, hf⟩ := BlockTree.entry_of_mem_path he hmem
    exact nomatch hentry.symm.trans hf
  | some pindex =>
    have hhash := n.mapBlockIndex.hash_eq hentry
    subst hhash
    exact isInMainChain_iff hlinked htip hentry

end MainChain

namespace BlockTree

variable {t t' : BlockTree}

theorem stepBack_path (h : UInt256) (i j : Nat) : t.stepBack i ((t.path h)[j]?) = (t.path h)[j + i]? := by
  induction i generalizing j with
  | zero => rfl
  | succ i ih =>
    have hnext : (t.path h)[j + 1]? = ((t.path h)[j]?).bind t.pprev := ParentTree.getElem?_succ_path h j
    have hshift : j + (i + 1) = j + 1 + i := by omega
    rw [hshift, ← ih (j + 1), hnext]
    cases hj : (t.path h)[j]? with
    | some a => rfl
    | none =>
      rw [Option.bind_none]
      cases i <;> rfl

theorem path_eq_of_agrees (hagrees : ∀ h, (t.entries h).isSome → (t'.entries h).isSome → t.pprev h = t'.pprev h)
    {h : UInt256} (hknown : (t.entries h).isSome) (hknown' : (t'.entries h).isSome) : t.path h = t'.path h := by
  unfold path
  induction h using t.toParentTree.path_induction with
  | root h hroot =>
    have hroot' : t'.toParentTree.parent h = none := (hagrees h hknown hknown').symm.trans hroot
    rw [ParentTree.path_of_root hroot, ParentTree.path_of_root hroot']
  | child h p hparent ih =>
    have hparent' : t'.toParentTree.parent h = some p := (hagrees h hknown hknown').symm.trans hparent
    obtain ⟨e, he, hep⟩ := Option.bind_eq_some_iff.mp hparent
    obtain ⟨e', he', hep'⟩ := Option.bind_eq_some_iff.mp hparent'
    obtain ⟨f, hf, -⟩ := t.prev_height he hep
    obtain ⟨f', hf', -⟩ := t'.prev_height he' hep'
    rw [ParentTree.path_of_parent hparent, ParentTree.path_of_parent hparent', ih (by simp [hf]) (by simp [hf'])]

end BlockTree

namespace CBlockLocator

/-- The step after the element number `k`. -/
def stepAt (k : Nat) : Nat := 2 ^ (k - 10)

theorem stepDistance_succ (k : Nat) : stepDistance (k + 1) = stepDistance k + stepAt k := by
  unfold stepDistance stepAt
  rcases Nat.lt_trichotomy k 10 with h | rfl | h
  · have hk : k - 10 = 0 := by omega
    rw [if_pos (by omega), if_pos (by omega), hk, pow_zero]
  · rfl
  · have hk : k + 1 - 10 = k - 10 + 1 := by omega
    rw [if_neg (by omega), if_neg (by omega), hk, pow_succ]
    omega

theorem stepAt_succ (k : Nat) : stepAt (k + 1) = if k + 1 > 10 then stepAt k + stepAt k else stepAt k := by
  unfold stepAt
  split
  · have hk : k + 1 - 10 = k - 10 + 1 := by omega
    rw [hk, pow_succ]
    omega
  · have hk : k - 10 = 0 := by omega
    have hk' : k + 1 - 10 = 0 := by omega
    rw [hk, hk']

theorem stepAt_pos (k : Nat) : 0 < stepAt k := Nat.two_pow_pos _

theorem strictMono_stepDistance : StrictMono stepDistance := by
  refine strictMono_nat_of_lt_succ fun k => ?_
  have := stepAt_pos k
  rw [stepDistance_succ]
  omega

theorem stepDistance_of_le (h : k ≤ 11) : stepDistance k = k := by
  unfold stepDistance
  rcases Nat.lt_or_ge k 11 with h' | h'
  · rw [if_pos (by omega)]
  · obtain rfl : k = 11 := by omega
    rfl

theorem stepDistance_gt_ten (k : Nat) : stepDistance k > 10 ↔ k > 10 := by
  have hten : stepDistance 10 = 10 := rfl
  rw [← hten]
  exact strictMono_stepDistance.lt_iff_lt.trans (by rw [hten])

theorem stepDistance_succ_le (k : Nat) : stepDistance (k + 1) ≤ 2 * stepDistance k + 1 := by
  rw [stepDistance_succ]
  unfold stepDistance stepAt
  split
  · have hk : k - 10 = 0 := by omega
    rw [hk, pow_zero]
    omega
  · omega

theorem stepAt_lt_iff (k : Nat) : stepAt k < 2 ^ 31 ↔ k ≤ 40 := by
  unfold stepAt
  rw [Nat.pow_lt_pow_iff_right (by decide)]
  omega

theorem stepDistance_lt (h : k ≤ 40) : stepDistance k < 2 ^ 31 := by
  have hle : stepDistance k ≤ stepDistance 40 := strictMono_stepDistance.monotone h
  have h40 : stepDistance 40 = 9 + 2 ^ 30 := rfl
  omega

theorem nextStep_stepAt {nCount : Nat} (hcount : nCount > 10 ↔ k + 1 > 10) (hk : k + 1 ≤ 40) :
    nextStep nCount (stepAt k) = .ok (stepAt (k + 1)) := by
  have hlt := (stepAt_lt_iff (k + 1)).mpr hk
  unfold nextStep
  rw [stepAt_succ] at hlt ⊢
  by_cases h : k + 1 > 10
  · rw [if_pos h] at hlt
    rw [if_pos h, if_pos (hcount.mpr h)]
    exact if_pos hlt
  · rw [if_neg h, if_neg fun hc => h (hcount.mp hc)]

variable {t : BlockTree} {n : Node} {hashGenesisBlock pindex tip fork : UInt256}

theorem samples_nil {p : List UInt256} (h : p.length ≤ stepDistance k) :
    Samples (fun i => stepDistance (k + i)) p [] := by
  intro i
  have hki : stepDistance k ≤ stepDistance (k + i) := strictMono_stepDistance.monotone (by omega)
  rw [List.getElem?_nil]
  exact (List.getElem?_eq_none (h.trans hki)).symm

theorem setLoop_of_fits (hfits : (t.path pindex).length ≤ stepDistance 40) (fuel : Nat)
    (hfuel : (t.path pindex).length ≤ stepDistance k + fuel) (vHave : List UInt256) (hlength : vHave.length = k) :
    ∃ l, setLoop t fuel ((t.path pindex)[stepDistance k]?) (stepAt k) vHave = .ok (vHave ++ l) ∧
      Samples (fun i => stepDistance (k + i)) (t.path pindex) l := by
  induction fuel generalizing k vHave with
  | zero => exact ⟨[], by simp [setLoop], samples_nil hfuel⟩
  | succ fuel ih =>
    cases hget : (t.path pindex)[stepDistance k]? with
    | none => exact ⟨[], by simp [setLoop], samples_nil (List.getElem?_eq_none_iff.mp hget)⟩
    | some hash =>
      have hback : t.stepBack (stepAt k) (some hash) = (t.path pindex)[stepDistance (k + 1)]? := by
        rw [← hget, BlockTree.stepBack_path, stepDistance_succ]
      have hsize : (vHave ++ [hash]).length = k + 1 := by simp [hlength]
      have hnext : stepDistance k < stepDistance (k + 1) := strictMono_stepDistance (by omega)
      have hk : k + 1 ≤ 40 := by
        have hlt : stepDistance k < stepDistance 40 :=
          (List.getElem?_eq_some_iff.mp hget).1.trans_le hfits
        have := strictMono_stepDistance.lt_iff_lt.mp hlt
        omega
      obtain ⟨l, hl, hsamples⟩ := ih (by omega) (vHave ++ [hash]) hsize
      refine ⟨hash :: l, ?_, fun i => ?_⟩
      · simp only [setLoop, hsize, hback]
        rw [nextStep_stepAt Iff.rfl hk, Guards.ok_bind, hl, List.append_assoc, List.singleton_append]
      · cases i with
        | zero => exact hget.symm
        | succ i =>
          have hshift : k + 1 + i = k + (i + 1) := by omega
          have hi : l[i]? = (t.path pindex)[stepDistance (k + 1 + i)]? := hsamples i
          rw [List.getElem?_cons_succ, hi, hshift]

theorem setLoop_of_overflow (hlong : stepDistance 40 < (t.path pindex).length) (fuel : Nat) (hk : k ≤ 40)
    (hfuel : (t.path pindex).length ≤ stepDistance k + fuel) (vHave : List UInt256) (hlength : vHave.length = k)
    (l : List UInt256) : setLoop t fuel ((t.path pindex)[stepDistance k]?) (stepAt k) vHave ≠ .ok l := by
  induction fuel generalizing k vHave with
  | zero =>
    have h40 : stepDistance k ≤ stepDistance 40 := strictMono_stepDistance.monotone hk
    omega
  | succ fuel ih =>
    have h40 : stepDistance k ≤ stepDistance 40 := strictMono_stepDistance.monotone hk
    have hget := List.getElem?_eq_getElem (h40.trans_lt hlong)
    generalize (t.path pindex)[stepDistance k] = hash at hget
    have hback : t.stepBack (stepAt k) (some hash) = (t.path pindex)[stepDistance (k + 1)]? := by
      rw [← hget, BlockTree.stepBack_path, stepDistance_succ]
    have hsize : (vHave ++ [hash]).length = k + 1 := by simp [hlength]
    have hnext : stepDistance k < stepDistance (k + 1) := strictMono_stepDistance (by omega)
    rw [hget]
    simp only [setLoop, hsize, hback]
    by_cases hk' : k + 1 ≤ 40
    · rw [nextStep_stepAt Iff.rfl hk', Guards.ok_bind]
      exact ih hk' (by omega) (vHave ++ [hash]) hsize
    · obtain rfl : k = 40 := by omega
      have hdouble : nextStep (40 + 1) (stepAt 40) = .error (.undefined "signed overflow") := by decide
      rw [hdouble, Guards.error_bind]
      exact nofun

theorem set_spec (t : BlockTree) (pindex hgenesis : UInt256) :
    ((t.nHeight pindex < stepDistance 40 → ∃ l, set t hgenesis (some pindex) = .ok ⟨l ++ [hgenesis]⟩ ∧
      Samples stepDistance (t.path pindex) l)) ∧
    (¬ t.nHeight pindex < stepDistance 40 → ∀ locator, set t hgenesis (some pindex) ≠ .ok locator) := by
  have hlength : (t.path pindex).length = t.nHeight pindex + 1 := t.toParentTree.length_path pindex
  have hfirst : (t.path pindex)[stepDistance 0]? = some pindex := by
    obtain ⟨rest, hrest⟩ := t.toParentTree.path_eq_cons pindex
    unfold BlockTree.path
    rw [hrest]
    rfl
  constructor
  · intro hshort
    have hfits : (t.path pindex).length ≤ stepDistance 40 := by omega
    have hfuel : (t.path pindex).length ≤ stepDistance 0 + (t.nHeight pindex + 1) := by
      rw [hlength]
      exact Nat.le_add_left _ _
    obtain ⟨l, hl, hsamples⟩ := setLoop_of_fits hfits (t.nHeight pindex + 1) hfuel [] rfl
    rw [hfirst] at hl
    refine ⟨l, ?_, fun i => ?_⟩
    · change (setLoop t (t.nHeight pindex + 1) (some pindex) (stepAt 0) [] >>= _) = _
      rw [hl, Guards.ok_bind]
      rfl
    · have hi : l[i]? = (t.path pindex)[stepDistance (0 + i)]? := hsamples i
      rwa [Nat.zero_add] at hi
  · intro hlong locator hset
    have hlong' : stepDistance 40 < (t.path pindex).length := by omega
    have hfuel : (t.path pindex).length ≤ stepDistance 0 + (t.nHeight pindex + 1) := by
      rw [hlength]
      exact Nat.le_add_left _ _
    obtain ⟨l, hl, -⟩ := Guards.bind_eq_ok.mp hset
    have hloop := setLoop_of_overflow hlong' (t.nHeight pindex + 1) (by omega) hfuel [] rfl l
    rw [hfirst] at hloop
    exact hloop hl

theorem distanceLoop_eq (vHave : List UInt256) (hk : k + vHave.findIdx n.inMainChain ≤ 40) :
    distanceLoop n vHave (stepDistance k) (stepAt k) = .ok (stepDistance (k + vHave.findIdx n.inMainChain)) := by
  induction vHave generalizing k with
  | nil => rfl
  | cons hash vHave ih =>
    unfold distanceLoop
    rw [List.findIdx_cons] at hk ⊢
    cases hmain : n.inMainChain hash with
    | true => rfl
    | false =>
      simp only [hmain, cond_false] at hk ⊢
      have hfits : stepDistance k + stepAt k < 2 ^ 31 := by
        rw [← stepDistance_succ]
        exact stepDistance_lt (by omega)
      have hadd : addInt (stepDistance k) (stepAt k) = .ok (stepDistance (k + 1)) := by
        rw [stepDistance_succ]
        exact if_pos hfits
      have hshift : k + (vHave.findIdx n.inMainChain + 1) = k + 1 + vHave.findIdx n.inMainChain := by omega
      rw [if_neg (by simp), hadd, Guards.ok_bind, nextStep_stepAt (stepDistance_gt_ten (k + 1)) (by omega),
        Guards.ok_bind, hshift]
      exact ih (by omega)

theorem falling_of_samples {l : List UInt256} (hl : Samples stepDistance (t.path pindex) l) :
    l.Pairwise fun a b => t.nHeight b < t.nHeight a := by
  have hpath : (t.path pindex).Pairwise fun a b => t.nHeight b < t.nHeight a := by
    rw [List.pairwise_iff_getElem]
    intro i j hi hj hij
    have hgeti : t.nHeight pindex = t.nHeight (t.path pindex)[i] + i :=
      ParentTree.height_of_getElem? (List.getElem?_eq_getElem hi)
    have hgetj : t.nHeight pindex = t.nHeight (t.path pindex)[j] + j :=
      ParentTree.height_of_getElem? (List.getElem?_eq_getElem hj)
    omega
  exact hl.pairwise strictMono_stepDistance hpath

namespace SharesBranch

def depth (t : BlockTree) (pindex fork : UInt256) : Nat := t.nHeight pindex - t.nHeight fork

variable (h : SharesBranch t n hashGenesisBlock pindex tip fork)
include h

theorem fromFork : Samples.From n.inMainChain (t.path pindex) (depth t pindex fork) := by
  intro i a hget
  have hmem : a ∈ t.path pindex := List.mem_of_getElem? hget
  have hheight : t.nHeight pindex = t.nHeight a + i := ParentTree.height_of_getElem? hget
  have hfork : t.nHeight fork ≤ t.nHeight pindex := ParentTree.height_le_of_mem h.forkBranch
  rw [inMainChain_iff h.linked h.best h.tipKnown]
  unfold depth
  constructor
  · intro hmain
    have := h.highest a hmem hmain
    omega
  · intro hle
    have hbelow : a ∈ t.path fork := ParentTree.mem_path_of_height_le hmem h.forkBranch (by
      change t.nHeight a ≤ t.nHeight fork
      omega)
    obtain ⟨e, he⟩ := Option.isSome_iff_exists.mp h.known
    obtain ⟨e', he'⟩ := Option.isSome_iff_exists.mp h.tipKnown
    obtain ⟨f, hf⟩ := BlockTree.entry_of_mem_path he h.forkBranch
    obtain ⟨f', hf'⟩ := BlockTree.entry_of_mem_path he' h.forkMain
    rw [BlockTree.path_eq_of_agrees h.agrees (by simp [hf]) (by simp [hf'])] at hbelow
    exact ParentTree.mem_path_trans hbelow h.forkMain

theorem nHeight_genesis : t.nHeight hashGenesisBlock = 0 := t.toParentTree.height_of_root h.root

theorem genesis_main : n.inMainChain hashGenesisBlock = true := by
  obtain ⟨i, hi⟩ := List.mem_iff_getElem?.mp h.genesis
  have hheight : t.nHeight pindex = t.nHeight hashGenesisBlock + i := ParentTree.height_of_getElem? hi
  refine (h.fromFork i hashGenesisBlock hi).mpr ?_
  rw [h.nHeight_genesis] at hheight
  unfold depth
  omega

variable {l : List UInt256}

theorem found (hl : Samples stepDistance (t.path pindex) l) (hshort : t.nHeight pindex < stepDistance 40) :
    ∃ a, (l ++ [hashGenesisBlock]).find? n.inMainChain = some a ∧ a ∈ t.path pindex ∧
      t.nHeight pindex - t.nHeight a ≤ stepDistance (l.findIdx n.inMainChain) ∧
      distanceLoop n (l ++ [hashGenesisBlock]) 0 1 = .ok (stepDistance (l.findIdx n.inMainChain)) ∧
      (t.nHeight pindex - t.nHeight a = stepDistance (l.findIdx n.inMainChain) ↔
        ∃ k, depth t pindex fork ≤ stepDistance k ∧ stepDistance k ≤ t.nHeight pindex) := by
  have hlength : (t.path pindex).length = t.nHeight pindex + 1 := t.toParentTree.length_path pindex
  have hidx : (l ++ [hashGenesisBlock]).findIdx n.inMainChain = l.findIdx n.inMainChain := by
    rw [List.findIdx_append]
    split
    · rfl
    · rename_i hge
      have hle : l.findIdx n.inMainChain ≤ l.length := List.findIdx_le_length
      simp only [List.findIdx_cons, h.genesis_main, cond_true]
      omega
  have hle : l.findIdx n.inMainChain ≤ l.length := List.findIdx_le_length
  have h40 : l.length ≤ 40 := by
    by_contra hgt
    have := (hl.lt_length_iff 40).mp (by omega)
    omega
  have hdistance : distanceLoop n (l ++ [hashGenesisBlock]) 0 1 = .ok (stepDistance (l.findIdx n.inMainChain)) := by
    have := distanceLoop_eq (n := n) (l ++ [hashGenesisBlock]) (k := 0) (by rw [hidx]; omega)
    rw [hidx, Nat.zero_add] at this
    exact this
  have hsome : (∃ k, depth t pindex fork ≤ stepDistance k ∧ stepDistance k ≤ t.nHeight pindex) ↔
      l.findIdx n.inMainChain < l.length := by
    rw [hl.findIdx_lt_iff h.fromFork, hlength]
    simp only [Nat.lt_succ_iff]
  rcases Nat.lt_or_ge (l.findIdx n.inMainChain) l.length with hlt | hge
  · -- a block at one of the distances
    have hget := hl.find?_eq n.inMainChain
    rw [List.find?_eq_getElem?_findIdx, List.getElem?_eq_getElem hlt] at hget
    have hheight : t.nHeight pindex = t.nHeight l[l.findIdx n.inMainChain] + stepDistance (l.findIdx n.inMainChain) :=
      ParentTree.height_of_getElem? hget.symm
    refine ⟨l[l.findIdx n.inMainChain], ?_, hl.mem (List.getElem_mem hlt), by omega, hdistance, ?_⟩
    · rw [List.find?_append, List.find?_eq_getElem?_findIdx, List.getElem?_eq_getElem hlt, Option.some_or]
    · rw [hsome]
      exact iff_of_true (by omega) hlt
  · -- the genesis block at the end
    have hlast : t.nHeight pindex < stepDistance (l.findIdx n.inMainChain) := by
      have := (hl.lt_length_iff (l.findIdx n.inMainChain)).not.mp (by omega)
      omega
    refine ⟨hashGenesisBlock, ?_, h.genesis, by omega, hdistance, ?_⟩
    · have hnone : l.find? n.inMainChain = none := by
        rw [List.find?_eq_getElem?_findIdx, List.getElem?_eq_none hge]
      rw [List.find?_append, hnone, Option.none_or, List.find?_cons_of_pos h.genesis_main]
    · rw [hsome, h.nHeight_genesis]
      exact iff_of_false (by omega) (by omega)

theorem found_near (hl : Samples stepDistance (t.path pindex) l) {a : UInt256}
    (hfind : (l ++ [hashGenesisBlock]).find? n.inMainChain = some a) (hmem : a ∈ t.path pindex)
    (hdepth : t.nHeight pindex - t.nHeight a ≤ stepDistance (l.findIdx n.inMainChain)) :
    (t.nHeight pindex - t.nHeight fork ≤ 11 → a = fork) ∧
      t.nHeight pindex - t.nHeight a ≤ 2 * (t.nHeight pindex - t.nHeight fork) := by
  have hlength : (t.path pindex).length = t.nHeight pindex + 1 := t.toParentTree.length_path pindex
  have hbefore : ∀ j, j < l.findIdx n.inMainChain → stepDistance j < depth t pindex fork := by
    intro j hj
    have hle : l.findIdx n.inMainChain ≤ l.length := List.findIdx_le_length
    exact (hl.findIdx_spec h.fromFork (by omega)).1 hj
  have hmain : a ∈ n.mapBlockIndex.path tip :=
    (inMainChain_iff h.linked h.best h.tipKnown a).mp (List.find?_some hfind)
  have hlow : t.nHeight a ≤ t.nHeight fork := h.highest a hmem hmain
  have hforkle : t.nHeight fork ≤ t.nHeight pindex := ParentTree.height_le_of_mem h.forkBranch
  constructor
  · intro hdense
    have hsteps : stepDistance (depth t pindex fork) = depth t pindex fork := stepDistance_of_le hdense
    have hidx : l.findIdx n.inMainChain ≤ depth t pindex fork := by
      by_contra hgt
      have := hbefore (depth t pindex fork) (by omega)
      omega
    have hmono : stepDistance (l.findIdx n.inMainChain) ≤ stepDistance (depth t pindex fork) :=
      strictMono_stepDistance.monotone hidx
    rw [hsteps] at hmono
    refine ParentTree.eq_of_mem_of_height hmem h.forkBranch ?_
    change t.nHeight a = t.nHeight fork
    unfold depth at hmono
    omega
  · unfold depth at hbefore
    cases hidx : l.findIdx n.inMainChain with
    | zero =>
      rw [hidx] at hdepth
      have hzero : stepDistance 0 = 0 := rfl
      omega
    | succ j =>
      have hj := hbefore j (by omega)
      have hnext := stepDistance_succ_le j
      rw [hidx] at hdepth
      omega

end SharesBranch

/-- A locator is what is expected of it exactly where the branch is short enough for the steps to fit into an `int`, and
    one of the distances lies between the depth of the fork and that of the genesis block. -/
theorem locates_iff (h : SharesBranch t n hashGenesisBlock pindex tip fork) :
    (∃ locator, set t hashGenesisBlock (some pindex) = .ok locator ∧
      Locates t n hashGenesisBlock pindex tip fork locator) ↔
    t.nHeight pindex < stepDistance 40 ∧
      ∃ k, t.nHeight pindex - t.nHeight fork ≤ stepDistance k ∧ stepDistance k ≤ t.nHeight pindex := by
  obtain ⟨hshort, hlong⟩ := set_spec t pindex hashGenesisBlock
  by_cases hheight : t.nHeight pindex < stepDistance 40
  · obtain ⟨l, hset, hl⟩ := hshort hheight
    obtain ⟨a, hfind, hmem, hdepth, hdistance, hexact⟩ := h.found hl hheight
    have hindex : getBlockIndex n ⟨l ++ [hashGenesisBlock]⟩ = some a := by
      rw [getBlockIndex, hfind, Option.some_or]
    have hback : getDistanceBack n ⟨l ++ [hashGenesisBlock]⟩ = .ok (stepDistance (l.findIdx n.inMainChain)) := hdistance
    constructor
    · rintro ⟨locator, hset', hlocates⟩
      obtain rfl : locator = ⟨l ++ [hashGenesisBlock]⟩ := Except.ok.inj (hset'.symm.trans hset)
      obtain ⟨b, hb, -, -, -, -, -, hexactly⟩ := hlocates.index
      obtain rfl : a = b := Option.some.inj (hindex.symm.trans hb)
      exact ⟨hheight, hexact.mp (Except.ok.inj (hexactly.symm.trans hback))⟩
    · rintro ⟨-, hsome⟩
      obtain ⟨hdense, htwice⟩ := h.found_near hl hfind hmem hdepth
      have hmain : a ∈ n.mapBlockIndex.path tip :=
        (inMainChain_iff h.linked h.best h.tipKnown a).mp (List.find?_some hfind)
      refine ⟨_, hset, ?_, by simp, ?_, ?_, a, hindex, List.mem_of_find?_eq_some hfind, hmain, ?_, hdense, htwice, ?_⟩
      · have hzero := hl 0
        obtain ⟨rest, hrest⟩ := t.toParentTree.path_eq_cons pindex
        unfold BlockTree.path at hzero
        rw [hrest] at hzero
        cases l with
        | nil => exact nomatch hzero
        | cons b l => exact hzero
      · intro b hb
        rcases List.mem_append.mp hb with hb | hb
        · exact hl.mem hb
        · rw [List.mem_singleton.mp hb]
          exact h.genesis
      · rw [List.dropLast_concat]
        exact falling_of_samples hl
      · intro b hb hbmain
        have hfalling : (l ++ [hashGenesisBlock]).Pairwise fun a b => t.nHeight b ≤ t.nHeight a := by
          rw [List.pairwise_append]
          refine ⟨(falling_of_samples hl).imp fun hlt => hlt.le, List.pairwise_singleton _ _, fun a _ b hb => ?_⟩
          rw [List.mem_singleton.mp hb, h.nHeight_genesis]
          exact Nat.zero_le _
        have hbtest : n.inMainChain b = true := (inMainChain_iff h.linked h.best h.tipKnown b).mpr hbmain
        rcases hfalling.of_find? hfind hb hbtest with rfl | hle
        · exact le_rfl
        · exact hle
      · rw [hback, hexact.mpr hsome]
  · refine iff_of_false ?_ fun hc => hheight hc.1
    rintro ⟨locator, hset, -⟩
    exact hlong hheight locator hset

theorem sharesBranch_genesis {best : Nat} (hbest : best ≤ Sample.maxBest) :
    SharesBranch (Sample.chainNode best).mapBlockIndex (Sample.chainNode 0) (Sample.blockHash 0) (Sample.blockHash best)
      (Sample.blockHash 0) (Sample.blockHash 0) where
  known := by rw [Sample.entry_chainNode hbest le_rfl]; rfl
  tipKnown := by rw [Sample.entry_chainNode (Nat.zero_le _) le_rfl]; rfl
  root := by simp [BlockTree.pprev, Sample.entry_chainNode hbest (Nat.zero_le _), Sample.chainEntry]
  genesis := (Sample.mem_path_chainNode hbest le_rfl _).mpr ⟨0, Nat.zero_le _, rfl⟩
  linked := by
    intro h e he
    obtain ⟨k, hk, rfl, rfl⟩ := (Sample.entries_chainNode (Nat.zero_le _)).mp he
    obtain rfl : k = 0 := Nat.le_zero.mp hk
    exact (ParentTree.next_self _).symm
  best := rfl
  agrees := by
    intro h _ hknown
    obtain ⟨e, he⟩ := Option.isSome_iff_exists.mp hknown
    obtain ⟨k, hk, rfl, rfl⟩ := (Sample.entries_chainNode (Nat.zero_le _)).mp he
    obtain rfl : k = 0 := Nat.le_zero.mp hk
    simp [BlockTree.pprev, Sample.entry_chainNode hbest (Nat.zero_le _), Sample.entry_chainNode (Nat.zero_le _) le_rfl,
      Sample.chainEntry]
  forkBranch := (Sample.mem_path_chainNode hbest le_rfl _).mpr ⟨0, Nat.zero_le _, rfl⟩
  forkMain := ParentTree.mem_path_self _
  highest := by
    intro h _ hmain
    obtain ⟨j, hj, rfl⟩ := (Sample.mem_path_chainNode (Nat.zero_le _) le_rfl h).mp hmain
    rw [Nat.le_zero.mp hj]

theorem locates_iff_genesis :
    (∃ locator, set (Sample.chainNode 11).mapBlockIndex (Sample.blockHash 0) (some (Sample.blockHash 11)) = .ok locator ∧
      Locates (Sample.chainNode 11).mapBlockIndex (Sample.chainNode 0) (Sample.blockHash 0) (Sample.blockHash 11)
        (Sample.blockHash 0) (Sample.blockHash 0) locator) ↔
    (Sample.chainNode 11).mapBlockIndex.nHeight (Sample.blockHash 11) < stepDistance 40 ∧
      ∃ k, (Sample.chainNode 11).mapBlockIndex.nHeight (Sample.blockHash 11)
          - (Sample.chainNode 11).mapBlockIndex.nHeight (Sample.blockHash 0) ≤ stepDistance k ∧
        stepDistance k ≤ (Sample.chainNode 11).mapBlockIndex.nHeight (Sample.blockHash 11) :=
  locates_iff (sharesBranch_genesis (by decide))

/-- At height 12 there is no distance for the genesis block, and 13 is counted up to it. -/
theorem not_locates_genesis :
    ¬ ∃ locator, set (Sample.chainNode 12).mapBlockIndex (Sample.blockHash 0) (some (Sample.blockHash 12)) = .ok locator ∧
      Locates (Sample.chainNode 12).mapBlockIndex (Sample.chainNode 0) (Sample.blockHash 0) (Sample.blockHash 12)
        (Sample.blockHash 0) (Sample.blockHash 0) locator := by
  rintro ⟨locator, hset, hlocates⟩
  have hrun : set (Sample.chainNode 12).mapBlockIndex (Sample.blockHash 0) (some (Sample.blockHash 12)) =
      .ok ⟨[13, 12, 11, 10, 9, 8, 7, 6, 5, 4, 3, 2, 1]⟩ := by decide
  obtain rfl := Except.ok.inj (hset.symm.trans hrun)
  obtain ⟨a, hindex, -, -, -, -, -, hback⟩ := hlocates.index
  have hfirst : getBlockIndex (Sample.chainNode 0) ⟨[13, 12, 11, 10, 9, 8, 7, 6, 5, 4, 3, 2, 1]⟩ = some 1 := by
    decide
  obtain rfl := Option.some.inj (hindex.symm.trans hfirst)
  have hthirteen : getDistanceBack (Sample.chainNode 0) ⟨[13, 12, 11, 10, 9, 8, 7, 6, 5, 4, 3, 2, 1]⟩ = .ok 13 := by
    decide
  have htwelve : (Sample.chainNode 12).mapBlockIndex.nHeight (Sample.blockHash 12)
      - (Sample.chainNode 12).mapBlockIndex.nHeight 1 = 12 := by decide
  rw [htwelve] at hback
  exact absurd (Except.ok.inj (hback.symm.trans hthirteen)) (by decide)

/-- As long as the steps fit, the locator has logarithmically many hashes; and whatever `GetDistanceBack` makes of it, the
    other node finds with it a common block that is near the fork. -/
theorem set_finds_common (h : SharesBranch t n hashGenesisBlock pindex tip fork)
    (hshort : t.nHeight pindex < stepDistance 40) : ∃ locator a, set t hashGenesisBlock (some pindex) = .ok locator ∧
      locator.vHave.length ≤ Nat.log 2 (t.nHeight pindex) + 12 ∧ locator.getBlockIndex n = some a ∧
      a ∈ t.path pindex ∧ a ∈ n.mapBlockIndex.path tip ∧ (t.nHeight pindex - t.nHeight fork ≤ 11 → a = fork) ∧
      t.nHeight pindex - t.nHeight a ≤ 2 * (t.nHeight pindex - t.nHeight fork) := by
  obtain ⟨l, hset, hl⟩ := (set_spec t pindex hashGenesisBlock).1 hshort
  obtain ⟨a, hfind, hmem, hdepth, -, -⟩ := h.found hl hshort
  obtain ⟨hnear, htwice⟩ := h.found_near hl hfind hmem hdepth
  have hmain := (inMainChain_iff h.linked h.best h.tipKnown a).mp (List.find?_some hfind)
  refine ⟨⟨l ++ [hashGenesisBlock]⟩, a, hset, ?_, ?_, hmem, hmain, hnear, htwice⟩
  · -- the last of the steps is a power of two that is not above the height
    have hlength : (t.path pindex).length = t.nHeight pindex + 1 := t.toParentTree.length_path pindex
    have hlast := hl.lt_length_iff (l.length - 1)
    rw [List.length_append, List.length_singleton]
    rcases Nat.lt_or_ge 11 l.length with hlong | hfew
    · have hpow : 2 ^ (l.length - 1 - 10) ≤ t.nHeight pindex := by
        have hlt := hlast.mp (by omega)
        rw [hlength, stepDistance, if_neg (by omega)] at hlt
        omega
      have := Nat.le_log_of_pow_le Nat.one_lt_two hpow
      omega
    · omega
  · unfold getBlockIndex
    rw [hfind]
    rfl

theorem set_finds_common_genesis :
    ∃ locator a, set (Sample.chainNode 12).mapBlockIndex (Sample.blockHash 0) (some (Sample.blockHash 12)) = .ok locator ∧
      locator.vHave.length ≤ Nat.log 2 12 + 12 ∧ locator.getBlockIndex (Sample.chainNode 0) = some a := by
  obtain ⟨locator, a, hset, hlength, hindex, -⟩ :=
    set_finds_common (sharesBranch_genesis (show 12 ≤ Sample.maxBest by decide)) (by decide)
  exact ⟨locator, a, hset, hlength, hindex⟩

end CBlockLocator

end PupaCoin
