import PupaCoin.Chain.Proofs.ReorganizeProofs

/-!
# The adaptive block size over a history of calls

The blocks are appended to the files `blkNNNN.dat` of the data directory, but their sizes are read from
`blocks/blkNNNNN.dat`, where nothing is ever written. So the static vector holds zeros only in every state,
and a call returns the least block size whatever the sizes of the blocks are.
-/

namespace PupaCoin

variable {a best b : UInt256} {ea : CBlockIndex} {nHeight : Int}

namespace BlockSizeCalculator

section Walk

variable {n : Node} {h : UInt256} {e : CBlockIndex}

theorem chain_cases (he : n.mapBlockIndex.entries h = some e) :
    (e.nHeight = 0 ∧ n.mapBlockIndex.chain h = [e]) ∨ ∃ p f, e.pprev = some p
      ∧ n.mapBlockIndex.entries p = some f ∧ e.nHeight = f.nHeight + 1
      ∧ n.mapBlockIndex.chain h = e :: n.mapBlockIndex.chain p := by
  cases hp : e.pprev with
  | none => exact Or.inl ⟨n.mapBlockIndex.root_height he hp, BlockTree.chain_of_root he hp⟩
  | some p =>
    obtain ⟨f, hf, hheight⟩ := n.mapBlockIndex.prev_height he hp
    exact Or.inr ⟨p, f, rfl, hf, hheight, BlockTree.chain_of_pprev he hp⟩

theorem walkDown_eq {s : UInt256} {es : CBlockIndex} (hs : n.mapBlockIndex.entries s = some es)
    (ha : n.mapBlockIndex.entries a = some ea) (hmem : a ∈ n.mapBlockIndex.path s) :
    walkDown (ea.nHeight : Int) (n.mapBlockIndex.chain s) = n.mapBlockIndex.chain a := by
  have hstay : walkDown (ea.nHeight : Int) (n.mapBlockIndex.chain a) = n.mapBlockIndex.chain a := by
    unfold walkDown
    rcases chain_cases ha with ⟨-, hchain⟩ | ⟨p, f, -, -, -, hchain⟩ <;>
      rw [hchain, List.dropWhile_cons_of_neg (by simp)]
  induction s using n.mapBlockIndex.toParentTree.path_induction generalizing es with
  | root k hk =>
    have hroot : a ∈ n.mapBlockIndex.toParentTree.path k := hmem
    rw [ParentTree.path_of_root hk, List.mem_singleton] at hroot
    exact hroot ▸ hstay
  | child k p hp ih =>
    have hcons : a ∈ n.mapBlockIndex.toParentTree.path k := hmem
    rw [ParentTree.path_of_parent hp, List.mem_cons] at hcons
    rcases hcons with rfl | hcons
    · exact hstay
    · have hprev : es.pprev = some p := by
        have hpk : n.mapBlockIndex.pprev k = some p := hp
        simpa [BlockTree.pprev, hs] using hpk
      obtain ⟨f, hf, hup⟩ := n.mapBlockIndex.prev_height hs hprev
      have hle := ParentTree.height_le_of_mem hcons
      change n.mapBlockIndex.nHeight a ≤ n.mapBlockIndex.nHeight p at hle
      rw [BlockTree.nHeight_of_entry ha, BlockTree.nHeight_of_entry hf] at hle
      have hdrop : walkDown (ea.nHeight : Int) (n.mapBlockIndex.chain k)
          = walkDown (ea.nHeight : Int) (n.mapBlockIndex.chain p) := by
        unfold walkDown
        rw [BlockTree.chain_of_pprev hs hprev, List.dropWhile_cons_of_pos (by simp; omega)]
      rw [hdrop]
      exact ih hf hcons

theorem ActiveLinked.entry (hl : ActiveLinked n best) (ha : a ∈ n.mapBlockIndex.path best)
    : ∃ e, n.mapBlockIndex.entries a = some e := by
  obtain ⟨e, he⟩ := hl.known
  exact BlockTree.entry_of_mem_path he ha

theorem ActiveLinked.pnext_of_lt (hl : ActiveLinked n best) (ha : a ∈ n.mapBlockIndex.path best)
    (hb : b ∈ n.mapBlockIndex.path best) (hlt : n.mapBlockIndex.nHeight a < n.mapBlockIndex.nHeight b) :
    ∃ c ∈ n.mapBlockIndex.path best, n.mapBlockIndex.pnext a = some c
      ∧ n.mapBlockIndex.nHeight c = n.mapBlockIndex.nHeight a + 1 := by
  have hle := ParentTree.height_le_of_mem hb
  change n.mapBlockIndex.nHeight b ≤ n.mapBlockIndex.nHeight best at hle
  obtain ⟨c, hc, hheight⟩ := ParentTree.exists_mem_of_height_le (t := n.mapBlockIndex.toParentTree)
    (k := best) (show n.mapBlockIndex.nHeight a + 1 ≤ n.mapBlockIndex.nHeight best by omega)
  change n.mapBlockIndex.nHeight c = n.mapBlockIndex.nHeight a + 1 at hheight
  refine ⟨c, hc, ?_, hheight⟩
  cases hp : n.mapBlockIndex.pprev c with
  | none =>
    have hroot := n.mapBlockIndex.toParentTree.height_of_root hp
    change n.mapBlockIndex.nHeight c = 0 at hroot
    omega
  | some p =>
    have hup := n.mapBlockIndex.toParentTree.height_of_parent hp
    change n.mapBlockIndex.nHeight c = n.mapBlockIndex.nHeight p + 1 at hup
    have hpmem : p ∈ n.mapBlockIndex.toParentTree.path best := by
      refine ParentTree.mem_path_trans ?_ hc
      rw [ParentTree.path_of_parent hp]
      exact List.mem_cons_of_mem _ (ParentTree.mem_path_self p)
    have hpa : p = a := ParentTree.eq_of_mem_of_height hpmem ha
      (show n.mapBlockIndex.nHeight p = n.mapBlockIndex.nHeight a by omega)
    exact hpa ▸ hl.pnext c hc p hp

theorem walkUp_of_le (fuel : Nat) (ha : n.mapBlockIndex.entries a = some ea) (hle : nHeight ≤ ea.nHeight) :
    walkUp n.mapBlockIndex nHeight fuel a = .ok a := by
  cases fuel <;> simp [walkUp, ha, orUndefined, bind, Except.bind, pure, Except.pure, hle]

theorem walkUp_of_lt (fuel : Nat) {c : UInt256} (ha : n.mapBlockIndex.entries a = some ea)
    (hlt : (ea.nHeight : Int) < nHeight) (hnext : ea.pnext = some c) :
    walkUp n.mapBlockIndex nHeight (fuel + 1) a = walkUp n.mapBlockIndex nHeight fuel c := by
  simp [walkUp, ha, orUndefined, bind, Except.bind, hlt, hnext]

theorem ActiveLinked.walkUp_eq (hl : ActiveLinked n best) (ha : a ∈ n.mapBlockIndex.path best)
    (hb : b ∈ n.mapBlockIndex.path best) (hle : n.mapBlockIndex.nHeight a ≤ n.mapBlockIndex.nHeight b) (fuel : Nat)
    (hfuel : n.mapBlockIndex.nHeight b ≤ n.mapBlockIndex.nHeight a + fuel) :
    walkUp n.mapBlockIndex (n.mapBlockIndex.nHeight b) fuel a = .ok b := by
  induction fuel generalizing a with
  | zero =>
    obtain ⟨ea, hea⟩ := hl.entry ha
    have hheight := BlockTree.nHeight_of_entry hea
    have hsame : a = b := ParentTree.eq_of_mem_of_height ha hb
      (show n.mapBlockIndex.nHeight a = n.mapBlockIndex.nHeight b by omega)
    rw [walkUp_of_le 0 hea (by omega), hsame]
  | succ fuel ih =>
    obtain ⟨ea, hea⟩ := hl.entry ha
    have hheight := BlockTree.nHeight_of_entry hea
    by_cases hlt : n.mapBlockIndex.nHeight a < n.mapBlockIndex.nHeight b
    · obtain ⟨c, hc, hnext, hup⟩ := hl.pnext_of_lt ha hb hlt
      have hpnext : ea.pnext = some c := by simpa [BlockTree.pnext, hea] using hnext
      rw [walkUp_of_lt fuel hea (by omega) hpnext]
      exact ih hc (by omega) (by omega)
    · have hsame : a = b := ParentTree.eq_of_mem_of_height ha hb
        (show n.mapBlockIndex.nHeight a = n.mapBlockIndex.nHeight b by omega)
      rw [walkUp_of_le _ hea (by omega), hsame]

theorem ActiveLinked.start (hl : ActiveLinked n best) (nHeight : Int) :
    ∃ s es, findBlockStart n nHeight = .ok es ∧ s ∈ n.mapBlockIndex.path best
      ∧ n.mapBlockIndex.entries s = some es := by
  obtain ⟨g, hg, hgenesis⟩ := hl.genesis
  obtain ⟨eg, heg⟩ := hl.entry hg
  obtain ⟨eb, heb⟩ := hl.known
  have hstart : ∃ s es, s ∈ n.mapBlockIndex.path best ∧ n.mapBlockIndex.entries s = some es
      ∧ (if nHeight < n.nBestHeight.tdiv 2 then n.pindexGenesisBlock else n.pindexBest) = some s := by
    split
    · exact ⟨g, eg, hg, heg, hgenesis⟩
    · exact ⟨best, eb, ParentTree.mem_path_self best, heb, hl.pindexBest⟩
  obtain ⟨s, es, hs, hes, hfrom⟩ := hstart
  unfold findBlockStart
  simp only [hfrom, Option.bind_some, hes, orUndefined, bind, Except.bind]
  cases hcache : n.pblockindexFBBHLast with
  | none => exact ⟨s, es, rfl, hs, hes⟩
  | some c =>
    obtain ⟨ec, hec⟩ := hl.entry (hl.cache c hcache)
    simp only [hec]
    split
    · exact ⟨c, ec, rfl, hl.cache c hcache, hec⟩
    · exact ⟨s, es, rfl, hs, hes⟩

theorem ActiveLinked.findBlockByHeight_eq {eb : CBlockIndex} (hl : ActiveLinked n best)
    (hb : b ∈ n.mapBlockIndex.path best) (heb : n.mapBlockIndex.entries b = some eb) :
    findBlockByHeight n eb.nHeight = .ok eb := by
  obtain ⟨s, es, hstart, hs, hes⟩ := hl.start eb.nHeight
  have hheight := BlockTree.nHeight_of_entry heb
  have hhash := n.mapBlockIndex.hash_eq hes
  -- where the walk down ends, on the best chain and not above the height
  obtain ⟨a, ea, ha, hea, hle, hdown⟩ : ∃ a ea, a ∈ n.mapBlockIndex.path best
      ∧ n.mapBlockIndex.entries a = some ea ∧ ea.nHeight ≤ eb.nHeight
      ∧ walkDown (eb.nHeight : Int) (n.mapBlockIndex.chain s) = n.mapBlockIndex.chain a := by
    have hsheight := BlockTree.nHeight_of_entry hes
    by_cases hlt : es.nHeight < eb.nHeight
    · refine ⟨s, es, hs, hes, hlt.le, ?_⟩
      unfold walkDown
      rcases chain_cases hes with ⟨-, hchain⟩ | ⟨p, f, -, -, -, hchain⟩ <;>
        rw [hchain, List.dropWhile_cons_of_neg (by simp; omega)]
    · refine ⟨b, eb, hb, heb, le_rfl, walkDown_eq hes heb ?_⟩
      exact ParentTree.mem_path_of_height_le hb hs
        (show n.mapBlockIndex.nHeight b ≤ n.mapBlockIndex.nHeight s by omega)
  have haheight := BlockTree.nHeight_of_entry hea
  have hup : walkUp n.mapBlockIndex eb.nHeight eb.nHeight a = .ok b := by
    rw [← hheight]
    exact hl.walkUp_eq ha hb (by omega) _ (by omega)
  have hahash := n.mapBlockIndex.hash_eq hea
  unfold findBlockByHeight
  simp only [hstart, bind, Except.bind, hhash, hdown]
  rcases chain_cases hea with ⟨-, hchain⟩ | ⟨p, f, -, -, -, hchain⟩ <;>
    simp only [hchain, Int.natAbs_natCast, hahash, hup, heb, orUndefined]

end Walk

section Sizes

variable {n n' : Node} {h : UInt256} {pindex e : CBlockIndex} {ext : Ext} {sizes : List Nat}
  {cache : Option UInt256} {k size : Nat}

theorem getBlockSize_eq_ok (hdir : BlocksDirEmpty ext) {blocksize : Int} :
    getBlockSize ext pindex = .ok blocksize ↔ Opens ext pindex ∧ blocksize = 0 := by
  unfold getBlockSize Opens
  cases hfile : openBlockFile ext pindex.nFile with
  | none => simp [orUndefined, bind, Except.bind]
  | some bytes =>
    have hempty : bytes = [] := by
      unfold openBlockFile at hfile
      split at hfile
      · cases hfile
      · exact hdir _ _ hfile
    subst hempty
    simp [orUndefined, bind, Except.bind, pure, Except.pure, LittleEndian.toNat, eq_comm]

theorem collectBlockSizes_eq_ok (hdir : BlocksDirEmpty ext) (firstBlock : Int) (chain : List CBlockIndex) :
    collectBlockSizes ext firstBlock chain = .ok sizes ↔
      (∀ e ∈ chain.takeWhile fun e => (e.nHeight : Int) > firstBlock, Opens ext e) ∧
        sizes = List.replicate (chain.takeWhile fun e => (e.nHeight : Int) > firstBlock).length 0 := by
  induction chain generalizing sizes with
  | nil => simp [collectBlockSizes, eq_comm]
  | cons pindex pprev ih =>
    rw [collectBlockSizes]
    by_cases habove : (pindex.nHeight : Int) > firstBlock
    · rw [if_pos habove, List.takeWhile_cons_of_pos (by simpa using habove), Guards.bind_eq_ok]
      constructor
      · rintro ⟨blocksize, hsize, hrest⟩
        obtain ⟨hopens, rfl⟩ := (getBlockSize_eq_ok hdir).mp hsize
        obtain ⟨rest, hrest, hret⟩ := Guards.bind_eq_ok.mp hrest
        obtain ⟨hall, rfl⟩ := ih.mp hrest
        cases hret
        exact ⟨List.forall_mem_cons.mpr ⟨hopens, hall⟩, rfl⟩
      · rintro ⟨hall, rfl⟩
        obtain ⟨hopens, hall⟩ := List.forall_mem_cons.mp hall
        exact ⟨0, (getBlockSize_eq_ok hdir).mpr ⟨hopens, rfl⟩, Guards.bind_eq_ok.mpr ⟨_, ih.mpr ⟨hall, rfl⟩, rfl⟩⟩
    · rw [if_neg habove, List.takeWhile_cons_of_neg (by simpa using habove)]
      simp [eq_comm]

theorem mem_insertSorted {s : Nat} : s ∈ insertSorted size sizes ↔ s = size ∨ s ∈ sizes := by
  unfold insertSorted
  rw [List.mem_append, List.mem_cons, or_left_comm, ← List.mem_append, List.take_append_drop]

theorem takeWhile_above (chain : List CBlockIndex) :
    (chain.takeWhile fun e => (e.nHeight : Int) > (pindex.nHeight : Int) - k) =
      chain.takeWhile fun e => pindex.nHeight < e.nHeight + k := by
  congr 1
  funext e
  exact decide_eq_decide.mpr (by omega)

theorem getBlockSizes_of_answers (hdir : BlocksDirEmpty n.ext) (h : Answers n pindex k) :
    ∃ r, getBlockSizes n pindex k = .ok r := by
  unfold getBlockSizes
  by_cases hlow : pindex.nHeight < k
  · exact ⟨_, if_pos hlow⟩
  · have hreads := h (by omega)
    simp only [if_neg hlow, List.isEmpty_iff]
    by_cases hempty : n.blocksizes = []
    · rw [if_pos hempty] at hreads ⊢
      rw [← takeWhile_above] at hreads
      have hfill := (collectBlockSizes_eq_ok hdir _ _).mpr ⟨hreads, rfl⟩
      exact ⟨_, Guards.bind_eq_ok.mpr ⟨_, hfill, rfl⟩⟩
    · rw [if_neg hempty] at hreads ⊢
      obtain ⟨hlatest, e, hfind, holdest⟩ := hreads
      rw [(getBlockSize_eq_ok hdir).mpr ⟨hlatest, rfl⟩, hfind]
      simp only [Guards.ok_bind, (getBlockSize_eq_ok hdir).mpr ⟨holdest, rfl⟩]
      rw [if_neg (by decide)]
      split
      · exact ⟨_, rfl⟩
      · exact ⟨_, rfl⟩

theorem getBlockSizes_zeros (hdir : BlocksDirEmpty n.ext) (hzeros : ∀ s ∈ n.blocksizes, s = 0)
    (h : getBlockSizes n pindex k = .ok (sizes, cache)) : Answers n pindex k ∧ ∀ s ∈ sizes, s = 0 := by
  unfold getBlockSizes at h
  split at h
  · next hlow =>
    cases h
    exact ⟨fun hk => by omega, hzeros⟩
  · simp only [List.isEmpty_iff] at h
    split at h
    · next hempty =>
      obtain ⟨filled, hfill, h⟩ := Guards.bind_eq_ok.mp h
      obtain ⟨hopens, rfl⟩ := (collectBlockSizes_eq_ok hdir _ _).mp hfill
      cases h
      refine ⟨fun _ => ?_, fun s hs => List.eq_of_mem_replicate hs⟩
      rw [if_pos hempty, ← takeWhile_above]
      exact hopens
    · next hempty =>
      obtain ⟨latest, hlatest, h⟩ := Guards.bind_eq_ok.mp h
      obtain ⟨hopens, rfl⟩ := (getBlockSize_eq_ok hdir).mp hlatest
      rw [if_neg (by decide)] at h
      obtain ⟨e, hfind, h⟩ := Guards.bind_eq_ok.mp h
      obtain ⟨oldest, holdest, h⟩ := Guards.bind_eq_ok.mp h
      obtain ⟨hopensOldest, rfl⟩ := (getBlockSize_eq_ok hdir).mp holdest
      refine ⟨fun _ => ?_, ?_⟩
      · rw [if_neg hempty]
        exact ⟨hopens, e, hfind, hopensOldest⟩
      · split at h
        · cases h
          intro s hs
          rcases mem_insertSorted.mp hs with rfl | hs
          · rfl
          · exact hzeros s (List.mem_of_mem_erase hs)
        · cases h
          exact hzeros

theorem getD_zeros (hzeros : ∀ s ∈ sizes, s = 0) (i : Nat) : sizes.getD i 0 = 0 := by
  rw [List.getD_eq_getElem?_getD]
  cases hi : sizes[i]? with
  | none => rfl
  | some s => exact hzeros s (List.mem_of_getElem? hi)

theorem median_zeros (hzeros : ∀ s ∈ sizes, s = 0) (hk : 0 < k) : median sizes k = .ok 0 := by
  unfold median
  simp only [getD_zeros hzeros]
  split
  · rw [if_neg (by omega)]
    split
    · rfl
    · rfl
  · rfl

theorem computeBlockSizeOf_apply (pindex : CBlockIndex) (k : Nat) (n : Node) : computeBlockSizeOf pindex k n =
    match getBlockSizes n pindex k with
    | .error e => (.error e, n)
    | .ok (sizes, cache) =>
      match median (sortOnce n sizes) k with
      | .error e => (.error e, n)
      | .ok m => (.ok (sizeLimit m),
          { n with blocksizes := sortOnce n sizes, sorted := true, pblockindexFBBHLast := cache }) := by
  unfold computeBlockSizeOf
  simp only [Exec.bind_apply, Exec.read_apply, Exec.lift_apply]
  cases getBlockSizes n pindex k with
  | error e => rfl
  | ok r => cases hmedian : median (sortOnce n r.1) k <;> simp [hmedian]

theorem computeBlockSizeOf_returns (hcall : computeBlockSizeOf pindex k n = (.ok size, n')) :
    ∃ sizes cache m, getBlockSizes n pindex k = .ok (sizes, cache) ∧ median (sortOnce n sizes) k = .ok m ∧
      size = sizeLimit m ∧
      n' = { n with blocksizes := sortOnce n sizes, sorted := true, pblockindexFBBHLast := cache } := by
  rw [computeBlockSizeOf_apply] at hcall
  split at hcall
  · cases hcall
  · next sizes cache hsizes =>
    split at hcall
    · cases hcall
    · next m hmedian =>
      cases hcall
      exact ⟨sizes, cache, m, hsizes, hmedian, rfl, rfl⟩

theorem sortOnce_zeros (hzeros : ∀ s ∈ sizes, s = 0) : ∀ s ∈ sortOnce n sizes, s = 0 := by
  unfold sortOnce
  split
  · exact hzeros
  · exact fun s hs => hzeros s ((List.mem_insertionSort _).mp hs)

/-- With a vector of zeros, a call returns the least block size, whatever the blocks are. -/
theorem computeBlockSizeOf_eq_ok (hdir : BlocksDirEmpty n.ext) (hzeros : ∀ s ∈ n.blocksizes, s = 0) (hk : 0 < k) :
    (∃ n', computeBlockSizeOf pindex k n = (.ok size, n')) ↔ Answers n pindex k ∧ size = minBlockSize := by
  constructor
  · rintro ⟨n', hcall⟩
    obtain ⟨sizes, cache, m, hsizes, hmedian, rfl, -⟩ := computeBlockSizeOf_returns hcall
    obtain ⟨hanswers, hzeros'⟩ := getBlockSizes_zeros hdir hzeros hsizes
    rw [median_zeros (sortOnce_zeros hzeros') hk] at hmedian
    cases hmedian
    exact ⟨hanswers, rfl⟩
  · rintro ⟨hanswers, rfl⟩
    obtain ⟨⟨sizes, cache⟩, hsizes⟩ := getBlockSizes_of_answers hdir hanswers
    obtain ⟨-, hzeros'⟩ := getBlockSizes_zeros hdir hzeros hsizes
    have hmedian := median_zeros (sortOnce_zeros (n := n) hzeros') hk
    rw [computeBlockSizeOf_apply]
    simp only [hsizes, hmedian]
    exact ⟨_, rfl⟩

theorem computeBlockSizeOf_state (pindex : CBlockIndex) (k : Nat) (n : Node) :
    ∃ sizes sorted cache, (computeBlockSizeOf pindex k n).2
      = { n with blocksizes := sizes, sorted := sorted, pblockindexFBBHLast := cache } := by
  rw [computeBlockSizeOf_apply]
  split
  · exact ⟨_, _, _, rfl⟩
  · split
    · exact ⟨_, _, _, rfl⟩
    · exact ⟨_, _, _, rfl⟩

/-- In every state of the program the static vector is one of zeros. -/
theorem SizeRun.zeros (hrun : SizeRun n) : BlocksDirEmpty n.ext ∧ ∀ s ∈ n.blocksizes, s = 0 := by
  induction hrun with
  | start hempty hdir => exact ⟨hdir, by simp [hempty]⟩
  | idle _ hsame hdir ih => exact ⟨hdir, hsame ▸ ih.2⟩
  | call _ hcall ih =>
    obtain ⟨sizes, cache, m, hsizes, -, -, rfl⟩ := computeBlockSizeOf_returns hcall
    exact ⟨ih.1, sortOnce_zeros (getBlockSizes_zeros ih.1 ih.2 hsizes).2⟩

/-- In every state of the program, a call returns the block size of its branch just when the files open and
    the block size of the branch is the least one. -/
theorem sizeRun_branchBlockSize_iff (hrun : SizeRun n) (hk : 0 < k) :
    (∃ n', computeBlockSizeOf pindex k n = (.ok (branchBlockSize n pindex.phashBlock k), n')) ↔
      Answers n pindex k ∧ 2 * medianSize (branchSizes n pindex.phashBlock k) ≤ minBlockSize := by
  obtain ⟨hdir, hzeros⟩ := hrun.zeros
  rw [computeBlockSizeOf_eq_ok hdir hzeros hk, branchBlockSize, max_eq_left_iff]

end Sizes

theorem le_medianSize {m : Nat} (hne : sizes ≠ []) (hle : ∀ s ∈ sizes, m ≤ s) : m ≤ medianSize sizes := by
  have hlen : (sizes.insertionSort (· ≤ ·)).length = sizes.length := List.length_insertionSort _ sizes
  have hpos : 0 < sizes.length := List.length_pos_iff.mpr hne
  have hget : ∀ i < sizes.length, m ≤ (sizes.insertionSort (· ≤ ·)).getD i 0 := by
    intro i hi
    rw [List.getD_eq_getElem?_getD, List.getElem?_eq_getElem (by omega), Option.getD_some]
    exact hle _ ((List.mem_insertionSort _).mp (List.getElem_mem _))
  unfold medianSize
  dsimp only
  have hmid := hget (sizes.length / 2) (by omega)
  split
  · have hbelow := hget (sizes.length / 2 - 1) (by omega)
    omega
  · exact hmid

end BlockSizeCalculator

namespace Sample

open BlockSizeCalculator

def wideScript : CScript := List.replicate 1000000 0x51

def wideBlock (k : Nat) : CBlock :=
  { chainBlock k with vtx := [{ coinbaseTx k with vout := [⟨5 * coin, wideScript⟩] }] }

def widePos (k : Nat) : UInt32 := UInt32.ofNat (2000000 * k + 8)

def wideTree (best : Nat) : BlockTree where
  entries h := (chainEntries best h).map fun e => { e with nBlockPos := widePos e.nHeight }
  hash_eq := by
    rintro h e he
    obtain ⟨f, hf, rfl⟩ := Option.map_eq_some_iff.mp he
    exact (chainTree best).hash_eq (e := f) hf
  root_height := by
    rintro h e he hp
    obtain ⟨f, hf, rfl⟩ := Option.map_eq_some_iff.mp he
    exact (chainTree best).root_height (e := f) hf hp
  prev_height := by
    rintro h e p he hp
    obtain ⟨f, hf, rfl⟩ := Option.map_eq_some_iff.mp he
    obtain ⟨g, hg, hheight⟩ := (chainTree best).prev_height (e := f) hf hp
    exact ⟨_, Option.map_eq_some_iff.mpr ⟨g, hg, rfl⟩, hheight⟩

def wideEntry (k : Nat) : CBlockIndex := { chainEntry 25 k with nBlockPos := widePos k }

/-- A fresh node whose blocks have a million bytes each, in the file `blk0001.dat`. -/
def wideNode (best : Nat) : Node :=
  { chainNode best with
    mapBlockIndex := wideTree best
    blocksizes := []
    sorted := false
    files := { chainFiles with
      readBlock := fun nFile nBlockPos => if nFile = 1 ∧ nBlockPos.toNat % 2000000 = 8 then
        some (wideBlock (nBlockPos.toNat / 2000000)) else none } }

theorem million_le_wideBlock (k : Nat) : 1000000 ≤ (wideBlock k).serializeSize := by
  have hlen : wideScript.length = 1000000 := List.length_replicate
  simp only [CBlock.serializeSize, wideBlock, List.map_cons, List.map_nil, List.sum_cons, CTransaction.serializeSize,
    CTransaction.bytesSize, hlen]
  omega

theorem million_le_sizeOfBlock {h : UInt256} {e : CBlockIndex} (he : (wideTree 25).entries h = some e) :
    1000000 ≤ sizeOfBlock (wideNode 25) e := by
  obtain ⟨f, hf, rfl⟩ := Option.map_eq_some_iff.mp he
  unfold chainEntries at hf
  split at hf
  · next hh =>
    cases hf
    have hpos : (widePos (h.toNat - 1)).toNat = 2000000 * (h.toNat - 1) + 8 := by
      unfold widePos
      rw [UInt32.toNat_ofNat']
      omega
    have hread : (wideNode 25).files.readBlock 1 (widePos (h.toNat - 1)) =
        some (wideBlock ((widePos (h.toNat - 1)).toNat / 2000000)) := if_pos ⟨rfl, by omega⟩
    change 1000000 ≤ (((wideNode 25).files.readBlock 1 (widePos (h.toNat - 1))).map CBlock.serializeSize).getD 0
    rw [hread]
    exact million_le_wideBlock _
  · cases hf

theorem million_le_median : 1000000 ≤ medianSize (branchSizes (wideNode 25) (blockHash 25) 25) := by
  have hentry : (wideNode 25).mapBlockIndex.entries (blockHash 25) = some (wideEntry 25) := by decide
  refine le_medianSize ?_ fun s hs => ?_
  · rw [branchSizes, BlockTree.chain_of_entry hentry]
    exact List.cons_ne_nil _ _
  · obtain ⟨e, he, rfl⟩ := List.mem_map.mp hs
    obtain ⟨-, he⟩ := BlockTree.mem_chain.mp (List.mem_of_mem_take he)
    exact million_le_sizeOfBlock he

/-- Of 25 blocks of a million bytes each, the limit is the least block size. -/
theorem wide_block_size : ¬ ∀ (n : Node) (pindex : CBlockIndex) size n', SizeRun n →
    n.mapBlockIndex.entries pindex.phashBlock = some pindex → computeBlockSize pindex n = (.ok size, n') →
    size = branchBlockSize n pindex.phashBlock 25 := by
  intro hall
  have hcall : computeBlockSize (wideEntry 25) (wideNode 25) =
      (.ok minBlockSize, (computeBlockSize (wideEntry 25) (wideNode 25)).2) := Exec.eq_of_fst (by decide)
  have hrun : SizeRun (wideNode 25) := .start rfl fun _ _ h => (Option.some.inj h).symm
  have hentry : (wideNode 25).mapBlockIndex.entries (blockHash 25) = some (wideEntry 25) := by decide
  have hhash : (wideEntry 25).phashBlock = blockHash 25 := rfl
  have hsize := hall (wideNode 25) (wideEntry 25) minBlockSize _ hrun (hhash ▸ hentry) hcall
  rw [hhash] at hsize
  have hmedian := million_le_median
  unfold branchBlockSize minBlockSize at hsize
  omega

def sizeNode : Node := { chainNode 30 with blocksizes := [], sorted := false }

def sizeNodeAfter : Node := (computeBlockSize (chainEntry 30 25) sizeNode).2

theorem sizeNode_second_call : ∃ n', computeBlockSizeOf (chainEntry 30 26) 25 sizeNodeAfter =
    (.ok (branchBlockSize sizeNodeAfter (blockHash 26) 25), n') := by
  have hfirst : computeBlockSizeOf (chainEntry 30 25) 25 sizeNode = (.ok minBlockSize, sizeNodeAfter) :=
    Exec.eq_of_fst (by decide)
  have hrun : SizeRun sizeNodeAfter := .call (.start rfl fun _ _ h => (Option.some.inj h).symm) hfirst
  refine (sizeRun_branchBlockSize_iff hrun (by decide)).mpr ⟨fun _ => ?_, by decide⟩
  rw [if_neg (by decide)]
  exact ⟨rfl, chainEntry 30 1, by decide, rfl⟩

end Sample

end PupaCoin
