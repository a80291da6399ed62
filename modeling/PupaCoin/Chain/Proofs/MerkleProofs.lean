import PupaCoin.Chain.Merkle
import PupaCoin.Chain.Proofs.CheckBlockProofs
import PupaCoin.Chain.Sample

/-!
# Proofs: the merkle tree in one array

The array is the list of the levels one after the other, so that its branches and its root are those of the levels.
Two trees with the same root agree from the root downwards, until one of them has reached its transactions.
-/

namespace PupaCoin

variable {level hashes vMerkleTree left right : List UInt256} {fuel nIndex : Nat} {hash hash' : UInt256} {env : Env}
  {n : Node}

namespace CBlock

section Array

variable {hashPair : UInt256 → UInt256 → UInt256}

theorem pushNode_eq {front : List UInt256} {k : Nat} (hk : 2 * k < level.length) :
    pushNode hashPair front.length level.length (front ++ level ++ (merkleLevel hashPair level).take k) (2 * k) =
      some (front ++ level ++ (merkleLevel hashPair level).take (k + 1)) := by
  have hread : ∀ i < level.length, (front ++ level ++ (merkleLevel hashPair level).take k)[front.length + i]? =
      some (level.getD i 0) := by
    intro i hi
    rw [List.append_assoc, List.getElem?_append_right (Nat.le_add_right _ _), Nat.add_sub_cancel_left,
      List.getElem?_append_left hi, List.getD_eq_getElem?_getD, List.getElem?_eq_getElem hi]
    rfl
  have hup : (merkleLevel hashPair level).length = (level.length + 1) / 2 := length_merkleLevel level
  have hlt : k < (merkleLevel hashPair level).length := by omega
  have hnode : (merkleLevel hashPair level).getD k 0 = _ := getD_merkleLevel level hk
  rw [List.getD_eq_getElem?_getD, List.getElem?_eq_getElem hlt, Option.getD_some] at hnode
  have hmin : min (2 * k + 1) (level.length - 1) < level.length := by omega
  simp only [pushNode, hread _ hk, hread _ hmin, Option.bind_eq_bind, Option.bind_some, Option.pure_def]
  rw [List.take_add_one, List.getElem?_eq_getElem hlt, Option.toList_some, hnode, List.append_assoc]

/-- The inner loop adds the level above. By induction on the rounds. -/
theorem pushLevel_eq (front level : List UInt256) : pushLevel hashPair front.length level.length (front ++ level) =
      some (front ++ level ++ merkleLevel hashPair level) := by
  have hup : (merkleLevel hashPair level).length = (level.length + 1) / 2 := length_merkleLevel level
  have hrounds : ∀ k ≤ (level.length + 1) / 2,
      ((List.range k).map (2 * ·)).foldlM (pushNode hashPair front.length level.length) (front ++ level) =
        some (front ++ level ++ (merkleLevel hashPair level).take k) := by
    intro k hk
    induction k with
    | zero => rw [List.take_zero, List.append_nil]; rfl
    | succ k ih =>
      have hlast : 2 * k < level.length := by omega
      rw [List.range_succ, List.map_append, List.foldlM_append, ih (by omega)]
      simp only [Option.bind_eq_bind, Option.bind_some, List.map_cons, List.map_nil, List.foldlM_cons,
        List.foldlM_nil, pushNode_eq hlast]
      rfl
  have hall := hrounds _ (le_refl _)
  rw [← hup, List.take_length] at hall
  rw [pushLevel, ← hup]
  exact hall

theorem pushLevels_eq (front level : List UInt256) :
    pushLevels hashPair fuel front.length level.length (front ++ level) =
      some (front ++ (merkleLevels hashPair fuel level).flatten) := by
  induction fuel generalizing front level with
  | zero => simp [pushLevels, merkleLevels]
  | succ fuel ih =>
    rw [pushLevels, merkleLevels]
    by_cases hlong : level.length > 1
    · have hoffset : front.length + level.length = (front ++ level).length := List.length_append.symm
      have hsize : (level.length + 1) / 2 = (merkleLevel hashPair level).length := (length_merkleLevel level).symm
      rw [if_pos hlong, if_pos hlong, pushLevel_eq, hoffset, hsize]
      simp only [Option.bind_eq_bind, Option.bind_some]
      rw [ih, List.flatten_cons, List.append_assoc]
    · rw [if_neg hlong, if_neg hlong, List.flatten_singleton]

theorem buildMerkleArray_eq (hashes : List UInt256) :
    buildMerkleArray hashPair hashes = some (merkleNodes hashPair hashes) :=
  pushLevels_eq [] hashes

variable (hashPair) in
theorem exists_merkleLevels (fuel : Nat) (level : List UInt256) :
    ∃ above, merkleLevels hashPair fuel level = level :: above := by
  cases fuel with
  | zero => exact ⟨[], rfl⟩
  | succ fuel =>
    rw [merkleLevels]
    split
    · exact ⟨_, rfl⟩
    · exact ⟨[], rfl⟩

theorem merkleLevels_of_long (hlong : level.length > 1) :
    merkleLevels hashPair (fuel + 1) level = level :: merkleLevels hashPair fuel (merkleLevel hashPair level) := by
  rw [merkleLevels, if_pos hlong]

theorem merkleRoot_of_long (hlong : level.length > 1) :
    merkleRoot hashPair (fuel + 1) level = merkleRoot hashPair fuel (merkleLevel hashPair level) := by
  match level, hlong with
  | a :: b :: rest, _ => rfl

theorem merkleBack_flatten (hfuel : level.length ≤ fuel) :
    merkleBack (merkleLevels hashPair fuel level).flatten = merkleRoot hashPair fuel level := by
  induction fuel generalizing level with
  | zero =>
    have hnil : level = [] := List.length_eq_zero_iff.mp (by omega)
    subst hnil
    rfl
  | succ fuel ih =>
    by_cases hlong : level.length > 1
    · have hup : (merkleLevel hashPair level).length = _ := length_merkleLevel level
      have hshort : (merkleLevel hashPair level).length ≤ fuel := by omega
      have hback := ih hshort
      obtain ⟨above, habove⟩ := exists_merkleLevels hashPair fuel (merkleLevel hashPair level)
      have hne : (merkleLevels hashPair fuel (merkleLevel hashPair level)).flatten ≠ [] := by
        rw [habove, List.flatten_cons]
        exact List.append_ne_nil_of_left_ne_nil (List.ne_nil_of_length_pos (by omega)) _
      rw [merkleLevels_of_long hlong, merkleRoot_of_long hlong, ← hback, List.flatten_cons, merkleBack, merkleBack,
        List.getLast?_append_of_ne_nil _ hne]
    · match level, hlong with
      | [], _ => rfl
      | [root], _ => rfl
      | a :: b :: rest, hlong => simp at hlong

theorem readBranch_eq (front level : List UInt256) (nIndex : Nat) :
    readBranch (front ++ (merkleLevels hashPair fuel level).flatten) fuel front.length level.length nIndex =
      some (merkleBranch hashPair fuel level nIndex) := by
  induction fuel generalizing front level nIndex with
  | zero => rfl
  | succ fuel ih =>
    rw [readBranch, merkleBranch]
    by_cases hlong : level.length > 1
    · have hmin : min (nIndex ^^^ 1) (level.length - 1) < level.length := by omega
      have hread : (front ++ (level ++ (merkleLevels hashPair fuel (merkleLevel hashPair level)).flatten))[
          front.length + min (nIndex ^^^ 1) (level.length - 1)]? =
          some (level.getD (min (nIndex ^^^ 1) (level.length - 1)) 0) := by
        rw [List.getElem?_append_right (Nat.le_add_right _ _), Nat.add_sub_cancel_left, List.getElem?_append_left hmin,
          List.getD_eq_getElem?_getD, List.getElem?_eq_getElem hmin]
        rfl
      have hrest := ih (front ++ level) (merkleLevel hashPair level) (nIndex / 2)
      rw [List.length_append, length_merkleLevel, List.append_assoc] at hrest
      rw [if_pos hlong, if_pos hlong, merkleLevels_of_long hlong, List.flatten_cons]
      simp only [hread, hrest, Option.bind_eq_bind, Option.bind_some, Option.pure_def]
    · rw [if_neg hlong, if_neg hlong]

theorem getMerkleArrayBranch_eq (nIndex : Nat) (htree : vMerkleTree = [] ∨ vMerkleTree = merkleNodes hashPair hashes)
    : getMerkleArrayBranch hashPair hashes vMerkleTree nIndex =
      some (merkleBranch hashPair hashes.length hashes nIndex) := by
  have hread : readBranch (merkleNodes hashPair hashes) hashes.length 0 hashes.length nIndex =
      some (merkleBranch hashPair hashes.length hashes nIndex) := readBranch_eq [] hashes nIndex
  have hbuilt : (if vMerkleTree.isEmpty then buildMerkleArray hashPair hashes else some vMerkleTree) =
      some (merkleNodes hashPair hashes) := by
    rcases htree with rfl | rfl
    · exact buildMerkleArray_eq hashes
    · split
      · exact buildMerkleArray_eq hashes
      · rfl
  unfold getMerkleArrayBranch
  simp only [hbuilt, Option.bind_some]
  exact hread

theorem checkMerkleBranch_array (hhash : hashes[nIndex]? = some hash) :
    checkMerkleBranch hashPair hash (merkleBranch hashPair hashes.length hashes nIndex) nIndex =
      merkleBack (merkleNodes hashPair hashes) := by
  have hlt : nIndex < hashes.length := (List.getElem?_eq_some_iff.mp hhash).1
  have hgetD : hashes.getD nIndex 0 = hash := by rw [List.getD_eq_getElem?_getD, hhash, Option.getD_some]
  have hpos : ¬(nIndex : Int) = -1 := by omega
  rw [checkMerkleBranch, if_neg hpos, ← hgetD, merkleNodes, merkleBack_flatten (le_refl _)]
  exact foldMerkleBranch_merkleBranch hlt (le_refl _)

end Array

section Binding

variable {hashPair : UInt256 → UInt256 → UInt256} {nodes : List UInt256}

theorem mem_merkleLevel {node : UInt256} (h : node ∈ merkleLevel hashPair level) :
    ∃ a ∈ level, ∃ b ∈ level, node = hashPair a b := by
  induction level using merkleLevel.induct with
  | case1 a b rest ih =>
    rw [merkleLevel, List.mem_cons] at h
    rcases h with rfl | h
    · exact ⟨a, by simp, b, by simp, rfl⟩
    · obtain ⟨c, hc, d, hd, rfl⟩ := ih h
      exact ⟨c, by simp [hc], d, by simp [hd], rfl⟩
  | case2 a =>
    rw [merkleLevel, List.mem_singleton] at h
    exact ⟨a, by simp, a, by simp, h⟩
  | case3 => cases h

theorem nodup_merkleLevel (hinj : InjectiveOn hashPair nodes) (hnodup : level.Nodup) (hsub : level ⊆ nodes)
    : (merkleLevel hashPair level).Nodup := by
  induction level using merkleLevel.induct with
  | case1 a b rest ih =>
    rw [List.nodup_cons, List.nodup_cons, List.mem_cons] at hnodup
    obtain ⟨ha, hb, hrest⟩ := hnodup
    have hrestSub : rest ⊆ nodes := fun x hx => hsub (by simp [hx])
    rw [merkleLevel, List.nodup_cons]
    refine ⟨fun hmem => ?_, ih hrest hrestSub⟩
    obtain ⟨c, hc, d, hd, heq⟩ := mem_merkleLevel hmem
    have hac := (hinj a (hsub (by simp)) b (hsub (by simp)) c (hrestSub hc) d (hrestSub hd) heq).1
    exact ha (Or.inr (hac ▸ hc))
  | case2 a => exact List.nodup_singleton _
  | case3 => exact List.nodup_nil

theorem merkleLevel_injOn (hinj : InjectiveOn hashPair nodes) (hleft : left.Nodup) (hright : right.Nodup)
    (hleftSub : left ⊆ nodes) (hrightSub : right ⊆ nodes)
    (h : merkleLevel hashPair left = merkleLevel hashPair right) : left = right := by
  induction left using merkleLevel.induct generalizing right with
  | case1 a b rest ih =>
    rcases right with _ | ⟨c, _ | ⟨d, rest'⟩⟩
    · cases h
    · have hpair := (List.cons.inj h).1
      have hboth := hinj a (hleftSub (by simp)) b (hleftSub (by simp)) c (hrightSub (by simp)) c
        (hrightSub (by simp)) hpair
      have hab : a = b := hboth.1.trans hboth.2.symm
      rw [hab] at hleft
      simp at hleft
    · obtain ⟨hpair, hrest⟩ := List.cons.inj h
      obtain ⟨rfl, rfl⟩ := hinj a (hleftSub (by simp)) b (hleftSub (by simp)) c (hrightSub (by simp)) d
        (hrightSub (by simp)) hpair
      have hrestNodup : rest'.Nodup := hright.tail.tail
      have hrestSub : rest' ⊆ nodes := fun x hx => hrightSub (by simp [hx])
      rw [ih hleft.tail.tail hrestNodup (fun x hx => hleftSub (by simp [hx])) hrestSub hrest]
  | case2 a =>
    rcases right with _ | ⟨c, _ | ⟨d, rest'⟩⟩
    · cases h
    · have hpair := (List.cons.inj h).1
      rw [(hinj a (hleftSub (by simp)) a (hleftSub (by simp)) c (hrightSub (by simp)) c (hrightSub (by simp)) hpair).1]
    · have hpair := (List.cons.inj h).1
      have hboth := hinj a (hleftSub (by simp)) a (hleftSub (by simp)) c (hrightSub (by simp)) d
        (hrightSub (by simp)) hpair
      have hcd : c = d := hboth.1.symm.trans hboth.2
      rw [hcd] at hright
      simp at hright
  | case3 =>
    rcases right with _ | ⟨c, _ | ⟨d, rest'⟩⟩
    · rfl
    · cases h
    · cases h

theorem nodup_of_mem_merkleLevels (hinj : InjectiveOn hashPair nodes) (hnodup : level.Nodup)
    (hsub : ∀ above ∈ merkleLevels hashPair fuel level, above ⊆ nodes) :
    ∀ above ∈ merkleLevels hashPair fuel level, above.Nodup := by
  induction fuel generalizing level with
  | zero =>
    intro above habove
    rw [merkleLevels, List.mem_singleton] at habove
    rw [habove]
    exact hnodup
  | succ fuel ih =>
    by_cases hlong : level.length > 1
    · rw [merkleLevels_of_long hlong] at hsub ⊢
      have hup := nodup_merkleLevel hinj hnodup (hsub level List.mem_cons_self)
      rw [List.forall_mem_cons]
      exact ⟨hnodup, ih hup fun above habove => hsub above (List.mem_cons_of_mem _ habove)⟩
    · rw [merkleLevels, if_neg hlong]
      intro above habove
      rw [List.mem_singleton.mp habove]
      exact hnodup

theorem exists_merkleLevel_eq {above : List UInt256} (hlong : level.length > 1)
    (h : above ∈ merkleLevels hashPair fuel (merkleLevel hashPair level)) :
    ∃ below ∈ merkleLevels hashPair (fuel + 1) level, above = merkleLevel hashPair below := by
  induction fuel generalizing level with
  | zero =>
    rw [merkleLevels, List.mem_singleton] at h
    rw [merkleLevels_of_long hlong]
    exact ⟨level, List.mem_cons_self, h⟩
  | succ fuel ih =>
    rw [merkleLevels_of_long hlong]
    by_cases hup : (merkleLevel hashPair level).length > 1
    · rw [merkleLevels_of_long hup, List.mem_cons] at h
      rcases h with rfl | h
      · exact ⟨level, List.mem_cons_self, rfl⟩
      · obtain ⟨below, hbelow, heq⟩ := ih hup h
        exact ⟨below, List.mem_cons_of_mem _ hbelow, heq⟩
    · rw [merkleLevels, if_neg hup, List.mem_singleton] at h
      exact ⟨level, List.mem_cons_self, h⟩

theorem merkleRoot_mem_merkleLevels (hne : level ≠ []) (hfuel : level.length ≤ fuel)
    : [merkleRoot hashPair fuel level] ∈ merkleLevels hashPair fuel level := by
  induction fuel generalizing level with
  | zero => exact absurd (List.length_eq_zero_iff.mp (by omega)) hne
  | succ fuel ih =>
    by_cases hlong : level.length > 1
    · have hup : (merkleLevel hashPair level).length = _ := length_merkleLevel level
      rw [merkleLevels_of_long hlong, merkleRoot_of_long hlong]
      exact List.mem_cons_of_mem _ (ih (List.ne_nil_of_length_pos (by omega)) (by omega))
    · match level, hne, hlong with
      | [root], _, _ => exact List.mem_singleton_self _
      | a :: b :: rest, _, hlong => simp at hlong

/-- Of two levels with the same root above them, one is a level above the other. By induction on the levels of the
first one. -/
theorem mem_merkleLevels_of_root_eq (hinj : InjectiveOn hashPair nodes) {fuel' : Nat} (hleftNe : left ≠ []) (hrightNe : right ≠ []) (hfuel : left.length ≤ fuel)
    (hfuel' : right.length ≤ fuel') (hleft : left.Nodup) (hright : right.Nodup)
    (hleftSub : ∀ level ∈ merkleLevels hashPair fuel left, level ⊆ nodes)
    (hrightSub : ∀ level ∈ merkleLevels hashPair fuel' right, level ⊆ nodes)
    (hroot : merkleRoot hashPair fuel left = merkleRoot hashPair fuel' right) :
    left ∈ merkleLevels hashPair fuel' right ∨ right ∈ merkleLevels hashPair fuel left := by
  have hsingle : ∀ (fuel : Nat) {level : List UInt256}, level ≠ [] → ¬level.length > 1 →
      level = [merkleRoot hashPair fuel level] := by
    intro fuel level hne hshort
    match level, hne, hshort with
    | [root], _, _ => cases fuel <;> rfl
    | a :: b :: rest, _, hshort => simp at hshort
  induction fuel generalizing fuel' left right with
  | zero => exact absurd (List.length_eq_zero_iff.mp (by omega)) hleftNe
  | succ fuel ih =>
    by_cases hlong : left.length > 1
    · by_cases hlong' : right.length > 1
      · cases fuel' with
        | zero => omega
        | succ fuel' =>
          have hup : (merkleLevel hashPair left).length = _ := length_merkleLevel left
          have hup' : (merkleLevel hashPair right).length = _ := length_merkleLevel right
          have hleftAll := nodup_of_mem_merkleLevels hinj hleft hleftSub
          have hrightAll := nodup_of_mem_merkleLevels hinj hright hrightSub
          have hleftSelf : left ⊆ nodes := hleftSub left (by rw [merkleLevels_of_long hlong]; simp)
          have hrightSelf : right ⊆ nodes := hrightSub right (by rw [merkleLevels_of_long hlong']; simp)
          rw [merkleRoot_of_long hlong, merkleRoot_of_long hlong'] at hroot
          have hmeet := ih (List.ne_nil_of_length_pos (by omega)) (List.ne_nil_of_length_pos (by omega)) (by omega)
            (by omega) (nodup_merkleLevel hinj hleft hleftSelf) (nodup_merkleLevel hinj hright hrightSelf)
            (fun level hlevel => hleftSub level (by rw [merkleLevels_of_long hlong]; simp [hlevel]))
            (fun level hlevel => hrightSub level (by rw [merkleLevels_of_long hlong']; simp [hlevel])) hroot
          rcases hmeet with hmem | hmem
          · obtain ⟨below, hbelow, heq⟩ := exists_merkleLevel_eq hlong' hmem
            rw [merkleLevel_injOn hinj hleft (hrightAll below hbelow) hleftSelf (hrightSub below hbelow) heq]
            exact Or.inl hbelow
          · obtain ⟨below, hbelow, heq⟩ := exists_merkleLevel_eq hlong hmem
            rw [merkleLevel_injOn hinj hright (hleftAll below hbelow) hrightSelf (hleftSub below hbelow) heq]
            exact Or.inr hbelow
      · right
        rw [hsingle fuel' hrightNe hlong', ← hroot]
        exact merkleRoot_mem_merkleLevels hleftNe hfuel
    · left
      rw [hsingle (fuel + 1) hleftNe hlong, hroot]
      exact merkleRoot_mem_merkleLevels hrightNe hfuel'

theorem eq_of_mem_merkleLevels (hne : left ≠ []) (hapart : ∀ leaf ∈ left, leaf ∉ innerNodes hashPair right)
    (hmem : left ∈ merkleLevels hashPair right.length right) : left = right := by
  obtain ⟨above, habove⟩ := exists_merkleLevels hashPair right.length right
  rw [habove, List.mem_cons] at hmem
  rcases hmem with heq | hmem
  · exact heq
  · obtain ⟨leaf, hleaf⟩ := List.exists_mem_of_ne_nil left hne
    refine absurd ?_ (hapart leaf hleaf)
    rw [innerNodes, habove, List.tail_cons]
    exact List.mem_flatten_of_mem hmem hleaf

theorem eq_of_merkleBack_eq (hleftNe : left ≠ []) (hrightNe : right ≠ []) (hleft : left.Nodup) (hright : right.Nodup)
    (hinj : InjectiveOn hashPair (merkleNodes hashPair left ++ merkleNodes hashPair right))
    (hapart : LeavesApart hashPair left right)
    (hroot : merkleBack (merkleNodes hashPair left) = merkleBack (merkleNodes hashPair right)) : left = right := by
  rw [merkleNodes, merkleNodes, merkleBack_flatten (le_refl _), merkleBack_flatten (le_refl _)] at hroot
  have hmeet := mem_merkleLevels_of_root_eq hinj hleftNe hrightNe (le_refl _) (le_refl _) hleft hright
    (fun level hlevel x hx => List.mem_append_left _ (List.mem_flatten_of_mem hlevel hx))
    (fun level hlevel x hx => List.mem_append_right _ (List.mem_flatten_of_mem hlevel hx)) hroot
  rcases hmeet with hmem | hmem
  · refine eq_of_mem_merkleLevels hleftNe (fun leaf hleaf hinner => ?_) hmem
    exact hapart leaf (List.mem_append_left _ hleaf) (List.mem_append_right _ hinner)
  · refine (eq_of_mem_merkleLevels hrightNe (fun leaf hleaf hinner => ?_) hmem).symm
    exact hapart leaf (List.mem_append_right _ hleaf) (List.mem_append_left _ hinner)

theorem checkTransactions_merkleBack {block : CBlock} (h : block.checkTransactions env n true = .ok ()) :
    block.hashMerkleRoot = merkleBack (merkleNodes env.hashPair (block.vtx.map env.getHash)) := by
  unfold checkTransactions at h
  simp only [Guards.bind_eq_ok, rejectIf_eq_ok] at h
  obtain ⟨_, _, _, _, _, _, hroot⟩ := h
  have hlength : (block.vtx.map env.getHash).length = block.vtx.length := List.length_map _
  rw [merkleNodes, merkleBack_flatten (le_refl _), hlength]
  simpa [buildMerkleTree] using hroot

theorem checkBlock_binds {left right : CBlock} {n' m m' : Node} {leftPOW leftSig rightPOW rightSig : Bool}
    (hleft : left.checkBlock env leftPOW true leftSig n = (.ok (), n'))
    (hright : right.checkBlock env rightPOW true rightSig m = (.ok (), m'))
    (hinj : InjectiveOn env.hashPair (merkleNodes env.hashPair (left.vtx.map env.getHash)
      ++ merkleNodes env.hashPair (right.vtx.map env.getHash)))
    (hapart : LeavesApart env.hashPair (left.vtx.map env.getHash) (right.vtx.map env.getHash))
    (hroot : left.hashMerkleRoot = right.hashMerkleRoot) :
    left.vtx.map env.getHash = right.vtx.map env.getHash := by
  have hne : ∀ {block : CBlock} {n n' : Node} {fCheckPOW fCheckSig : Bool},
      block.checkBlock env fCheckPOW true fCheckSig n = (.ok (), n') → block.vtx.map env.getHash ≠ [] := by
    intro block n n' fCheckPOW fCheckSig h
    obtain ⟨coinbase, rest, hvtx, -⟩ := (checkStructure_wellPlaced (checkBlock_returns.mp h).1.structureOk).coinbase_head
    rw [hvtx, List.map_cons]
    exact List.cons_ne_nil _ _
  have hleftOk := (checkBlock_returns.mp hleft).1.transactionsOk
  have hrightOk := (checkBlock_returns.mp hright).1.transactionsOk
  rw [checkTransactions_merkleBack hleftOk, checkTransactions_merkleBack hrightOk] at hroot
  exact eq_of_merkleBack_eq (hne hleft) (hne hright) (checkTransactions_nodup hleftOk)
    (checkTransactions_nodup hrightOk) hinj hapart hroot

/-- The branch of every transaction leads to the root. The root binds a nonempty list of different hashes, and so it
binds the transactions of the blocks that `CheckBlock` accepts. -/
theorem merkle_roundTrip_and_binding (hashPair : UInt256 → UInt256 → UInt256) :
    (∀ (hashes : List UInt256) (nIndex : Nat) (hash : UInt256), hashes[nIndex]? = some hash →
      ∃ vMerkleTree, buildMerkleArray hashPair hashes = some vMerkleTree
        ∧ ∀ cached, cached = [] ∨ cached = vMerkleTree →
          ∃ vMerkleBranch, getMerkleArrayBranch hashPair hashes cached nIndex = some vMerkleBranch
            ∧ checkMerkleBranch hashPair hash vMerkleBranch nIndex = merkleBack vMerkleTree)
    ∧ (∀ left right leftTree rightTree : List UInt256, buildMerkleArray hashPair left = some leftTree →
      buildMerkleArray hashPair right = some rightTree → left ≠ [] → right ≠ [] → left.Nodup → right.Nodup →
      InjectiveOn hashPair (leftTree ++ rightTree) → LeavesApart hashPair left right →
      merkleBack leftTree = merkleBack rightTree → left = right)
    ∧ (∀ (env : Env) (left right : CBlock) (n n' m m' : Node) (leftPOW leftSig rightPOW rightSig : Bool),
      env.hashPair = hashPair → left.checkBlock env leftPOW true leftSig n = (.ok (), n') →
      right.checkBlock env rightPOW true rightSig m = (.ok (), m') →
      InjectiveOn hashPair (merkleNodes hashPair (left.vtx.map env.getHash)
        ++ merkleNodes hashPair (right.vtx.map env.getHash)) →
      LeavesApart hashPair (left.vtx.map env.getHash) (right.vtx.map env.getHash) →
      left.hashMerkleRoot = right.hashMerkleRoot → left.vtx.map env.getHash = right.vtx.map env.getHash) := by
  refine ⟨?_, ?_, ?_⟩
  · intro hashes nIndex hash hhash
    refine ⟨_, buildMerkleArray_eq hashes, fun cached hcached => ?_⟩
    exact ⟨_, getMerkleArrayBranch_eq nIndex hcached, checkMerkleBranch_array hhash⟩
  · intro left right leftTree rightTree hleftTree hrightTree hleftNe hrightNe hleft hright hinj hapart hroot
    rw [buildMerkleArray_eq] at hleftTree hrightTree
    cases hleftTree
    cases hrightTree
    exact eq_of_merkleBack_eq hleftNe hrightNe hleft hright hinj hapart hroot
  · intro env left right n n' m m' leftPOW leftSig rightPOW rightSig henv hleft hright hinj hapart hroot
    subst henv
    exact checkBlock_binds hleft hright hinj hapart hroot

def sampleHashPair (a b : UInt256) : UInt256 := 1000 + 10 * a + b

def pairEnv : Env := { Sample.env with hashPair := sampleHashPair }

/-- A block of two transactions, of which the second has the hash `n`. -/
def pairBlock (n : UInt32) : CBlock :=
  { Sample.besideBlock with
    hashMerkleRoot := sampleHashPair (Sample.forkHash 502) (BitVec.ofNat 256 n.toNat)
    vtx := (Sample.forkBlock 501 502).vtx ++ [{ Sample.orphanTx with nLockTime := n }] }

theorem merkle_roundTrip_and_binding_sample :
    (∃ vMerkleTree, buildMerkleArray sampleHashPair [1, 2, 3] = some vMerkleTree
      ∧ ∃ vMerkleBranch, getMerkleArrayBranch sampleHashPair [1, 2, 3] [] 2 = some vMerkleBranch
        ∧ checkMerkleBranch sampleHashPair 3 vMerkleBranch 2 = merkleBack vMerkleTree)
    ∧ merkleBack (merkleNodes sampleHashPair [1, 2]) ≠ merkleBack (merkleNodes sampleHashPair [2, 1])
    ∧ (pairBlock 900001).hashMerkleRoot ≠ (pairBlock 900002).hashMerkleRoot := by
  obtain ⟨hbranch, hbinds, hblocks⟩ := merkle_roundTrip_and_binding sampleHashPair
  refine ⟨?_, fun hroot => ?_, fun hroot => ?_⟩
  · obtain ⟨vMerkleTree, htree, hcached⟩ := hbranch [1, 2, 3] 2 3 rfl
    exact ⟨vMerkleTree, htree, hcached [] (Or.inl rfl)⟩
  · have heq := hbinds [1, 2] [2, 1] _ _ (buildMerkleArray_eq _) (buildMerkleArray_eq _) (by decide) (by decide)
      (by decide) (by decide) (by decide) (by decide) hroot
    exact absurd heq (by decide)
  · have hleft : ((pairBlock 900001).checkBlock pairEnv true true true (Sample.chainNode 501)).1 = .ok () := by
      decide +kernel
    have hright : ((pairBlock 900002).checkBlock pairEnv true true true (Sample.chainNode 501)).1 = .ok () := by
      decide +kernel
    have heq := hblocks pairEnv (pairBlock 900001) (pairBlock 900002) _ _ _ _ true true true true rfl
      (Prod.ext hleft rfl) (Prod.ext hright rfl) (by decide) (by decide) hroot
    exact absurd heq (by decide)

/-- No transaction, and one transaction with the hash 0, have the same root. -/
theorem merkleBack_nil_eq_zero :
    buildMerkleArray sampleHashPair [] = some [] ∧ buildMerkleArray sampleHashPair [0] = some [0]
      ∧ ([] : List UInt256).Nodup ∧ ([0] : List UInt256).Nodup ∧ InjectiveOn sampleHashPair ([] ++ [0])
      ∧ LeavesApart sampleHashPair [] [0] ∧ merkleBack [] = merkleBack [0] ∧ ([] : List UInt256) ≠ [0] := by
  refine ⟨rfl, rfl, by decide, by decide, by decide, by decide, rfl, by decide⟩

end Binding

section Forgery

variable {hashPair : UInt256 → UInt256 → UInt256}

theorem branchPair_inj {nIndex : Int} {a b : UInt256} (h : branchPair nIndex a hash = branchPair nIndex b hash') :
    hash = hash' ∧ a = b := by
  unfold branchPair at h
  split_ifs at h
  · exact ⟨congrArg Prod.snd h, congrArg Prod.fst h⟩
  · exact ⟨congrArg Prod.fst h, congrArg Prod.snd h⟩

theorem foldMerkleBranch_cons (hash otherside : UInt256) (vMerkleBranch : List UInt256) (nIndex : Int) :
    foldMerkleBranch hashPair hash (otherside :: vMerkleBranch) nIndex = foldMerkleBranch hashPair
      (hashPair (branchPair nIndex otherside hash).1 (branchPair nIndex otherside hash).2) vMerkleBranch (nIndex / 2) := by
  rw [foldMerkleBranch, branchPair]
  split_ifs <;> rfl

/-- The loop binds the hash and the branch, unless two pairs collide. By induction on the branch. -/
theorem foldMerkleBranch_binds {nIndex : Int} (hlength : left.length = right.length)
    (hroot : foldMerkleBranch hashPair hash left nIndex = foldMerkleBranch hashPair hash' right nIndex) :
    (hash = hash' ∧ left = right) ∨
      BranchesCollide hashPair (branchPairs hashPair hash left nIndex) (branchPairs hashPair hash' right nIndex) := by
  induction left generalizing right hash hash' nIndex with
  | nil =>
    rw [List.eq_nil_of_length_eq_zero hlength.symm] at hroot ⊢
    exact Or.inl ⟨hroot, rfl⟩
  | cons a left ih =>
    cases right with
    | nil => exact absurd hlength (Nat.succ_ne_zero _)
    | cons b right =>
      rw [foldMerkleBranch_cons, foldMerkleBranch_cons] at hroot
      rcases ih (Nat.succ.inj hlength) hroot with ⟨hpair, rfl⟩ | ⟨k, p, q, hp, hq, hne, heq⟩
      · by_cases hsame : branchPair nIndex a hash = branchPair nIndex b hash'
        · obtain ⟨rfl, rfl⟩ := branchPair_inj hsame
          exact Or.inl ⟨rfl, rfl⟩
        · exact Or.inr ⟨0, _, _, rfl, rfl, hsame, hpair⟩
      · exact Or.inr ⟨k + 1, p, q, hp, hq, hne, heq⟩

/-- **Branches bind.** A branch of the right length that leads to the root of a tree is that of the transaction in its
place, or it exhibits a collision with the true branch. -/
theorem checkMerkleBranch_binds {hashes vMerkleTree vMerkleBranch forged : List UInt256} {nIndex : Nat}
    {leaf hash : UInt256} (hleaf : hashes[nIndex]? = some leaf) (htree : buildMerkleArray hashPair hashes = some vMerkleTree)
    (hbranch : getMerkleArrayBranch hashPair hashes vMerkleTree nIndex = some vMerkleBranch)
    (hlength : forged.length = vMerkleBranch.length)
    (hroot : checkMerkleBranch hashPair hash forged nIndex = merkleBack vMerkleTree) :
    (hash = leaf ∧ forged = vMerkleBranch) ∨
      BranchesCollide hashPair (branchPairs hashPair hash forged nIndex) (branchPairs hashPair leaf vMerkleBranch nIndex) := by
  rw [buildMerkleArray_eq, Option.some.injEq] at htree
  subst htree
  rw [getMerkleArrayBranch_eq nIndex (Or.inr rfl), Option.some.injEq] at hbranch
  subst hbranch
  have hindex : (nIndex : Int) ≠ -1 := by omega
  rw [← checkMerkleBranch_array hleaf, checkMerkleBranch, if_neg hindex, checkMerkleBranch, if_neg hindex] at hroot
  exact foldMerkleBranch_binds hlength hroot

/-- In the place of the first of three transactions another one leads to the root. -/
theorem checkMerkleBranch_binds_sample : BranchesCollide sampleHashPair
    (branchPairs sampleHashPair 2 [-8, sampleHashPair 3 3] (0 : Nat))
    (branchPairs sampleHashPair 1 [2, sampleHashPair 3 3] (0 : Nat)) := by
  have hleaf : ([1, 2, 3] : List UInt256)[0]? = some 1 := rfl
  have hroot : checkMerkleBranch sampleHashPair 2 [-8, sampleHashPair 3 3] (0 : Nat)
      = merkleBack (merkleNodes sampleHashPair [1, 2, 3]) := by decide
  have hbranch : getMerkleArrayBranch sampleHashPair [1, 2, 3] (merkleNodes sampleHashPair [1, 2, 3]) 0
      = some [2, sampleHashPair 3 3] := by decide
  have hlength : [-8, sampleHashPair 3 3].length = [2, sampleHashPair 3 3].length := rfl
  have hbinds := checkMerkleBranch_binds hleaf (buildMerkleArray_eq [1, 2, 3]) hbranch hlength hroot
  exact hbinds.resolve_left (by decide)

end Forgery

end CBlock

end PupaCoin
