import PupaCoin.Chain.Compact
import PupaCoin.Chain.Block
import PupaCoin.Lib.ParentTree

/-!
# The block index (`main.h`, `main.cpp`)

`mapBlockIndex` holds one `CBlockIndex` for every known block. Its entries point at each other; a
pointer is modelled by the hash of the block it leads to, and a null pointer by `none`. `BlockTree`
carries what every insertion establishes: an entry is stored under its own hash, and the entry that
`pprev` leads to exists and is one block lower.
-/

namespace PupaCoin

variable {t : BlockTree} {h : UInt256} {e : CBlockIndex}

structure CBlockIndex where
  phashBlock : UInt256
  pprev : Option UInt256
  pnext : Option UInt256
  nFile : UInt32
  nBlockPos : UInt32
  /-- Trust score of the chain up to this block. -/
  nChainTrust : UInt256
  nHeight : Nat
  nMint : Int
  nMoneySupply : Int
  nFlags : UInt32
  nStakeModifier : UInt64
  bnStakeModifierV2 : UInt256
  prevoutStake : COutPoint
  nStakeTime : UInt32
  hashProof : UInt256
  nVersion : Int
  hashMerkleRoot : UInt256
  nTime : UInt32
  nBits : UInt32
  nNonce : UInt32
deriving DecidableEq, Repr

namespace CBlockIndex

/-- Bits of `nFlags`. -/
def blockProofOfStake : UInt32 := 1
def blockStakeEntropy : UInt32 := 2
def blockStakeModifier : UInt32 := 4

def getBlockTime (pindex : CBlockIndex) : Int := pindex.nTime.toNat

def getPastTimeLimit (pindex : CBlockIndex) : Int := pindex.getBlockTime - nDrift

def isProofOfStake (pindex : CBlockIndex) : Bool := pindex.nFlags &&& blockProofOfStake != 0

/-- The trust of one block, from its compact target (`GetBlockTrust`). -/
def blockTrust (nBits : UInt32) : UInt256 :=
  let bnTarget := setCompact nBits
  if bnTarget ≤ 0 then 0 else getUInt256 (2 ^ 256 / (bnTarget + 1))

def getBlockTrust (pindex : CBlockIndex) : UInt256 := blockTrust pindex.nBits

end CBlockIndex

/-- `mapBlockIndex`, with what every insertion establishes. -/
structure BlockTree where
  entries : UInt256 → Option CBlockIndex
  hash_eq : ∀ {h e}, entries h = some e → e.phashBlock = h
  root_height : ∀ {h e}, entries h = some e → e.pprev = none → e.nHeight = 0
  prev_height : ∀ {h e p}, entries h = some e → e.pprev = some p → ∃ f, entries p = some f ∧ e.nHeight = f.nHeight + 1

namespace BlockTree

def empty : BlockTree where
  entries _ := none
  hash_eq h := by cases h
  root_height h := by cases h
  prev_height h := by cases h

/-- The `pprev` pointer of a block. -/
def pprev (t : BlockTree) (h : UInt256) : Option UInt256 := (t.entries h).bind CBlockIndex.pprev

/-- The `pnext` pointer of a block. -/
def pnext (t : BlockTree) (h : UInt256) : Option UInt256 := (t.entries h).bind CBlockIndex.pnext

/-- The height of a block, 0 for an unknown one. -/
def nHeight (t : BlockTree) (h : UInt256) : Nat := ((t.entries h).map CBlockIndex.nHeight).getD 0

/-- The tree of the `pprev` pointers. -/
def toParentTree (t : BlockTree) : ParentTree UInt256 where
  parent := t.pprev
  height := t.nHeight
  height_of_parent := by
    intro k p h
    obtain ⟨e, he, hp⟩ := Option.bind_eq_some_iff.mp h
    obtain ⟨f, hf, hh⟩ := t.prev_height he hp
    simp [nHeight, he, hf, hh]
  height_of_root := by
    intro k h
    cases he : t.entries k with
    | none => simp [nHeight, he]
    | some e =>
      have hp : e.pprev = none := by simpa [pprev, he] using h
      simp [nHeight, he, t.root_height he hp]

/-- The hashes of a block and its ancestors, genesis last. -/
def path (t : BlockTree) (h : UInt256) : List UInt256 := t.toParentTree.path h

/-- The entries of a block and its ancestors, genesis last: what a pointer to the block reaches. -/
def chain (t : BlockTree) (h : UInt256) : List CBlockIndex := (t.path h).filterMap t.entries

/-- The entries that an optional pointer reaches. -/
def chain? (t : BlockTree) : Option UInt256 → List CBlockIndex
  | none => []
  | some h => t.chain h

theorem chain_of_root (he : t.entries h = some e) (hp : e.pprev = none) : t.chain h = [e] := by
  have hroot : t.toParentTree.parent h = none := by
    change t.pprev h = none
    simp [pprev, he, hp]
  simp [chain, path, ParentTree.path_of_root hroot, he]

theorem chain_of_pprev {p : UInt256} (he : t.entries h = some e) (hp : e.pprev = some p)
    : t.chain h = e :: t.chain p := by
  have hparent : t.toParentTree.parent h = some p := by
    change t.pprev h = some p
    simp [pprev, he, hp]
  simp [chain, path, ParentTree.path_of_parent hparent, he]

theorem head?_chain (t : BlockTree) (h : UInt256) : (t.chain h).head? = t.entries h := by
  cases he : t.entries h with
  | none =>
    have hroot : t.toParentTree.parent h = none := by
      change t.pprev h = none
      simp [pprev, he]
    simp [chain, path, ParentTree.path_of_root hroot, he]
  | some e =>
    cases hp : e.pprev with
    | none => rw [chain_of_root he hp, List.head?_cons]
    | some p => rw [chain_of_pprev he hp, List.head?_cons]

theorem mem_chain : e ∈ t.chain h ↔ e.phashBlock ∈ t.path h ∧ t.entries e.phashBlock = some e := by
  unfold chain
  rw [List.mem_filterMap]
  constructor
  · rintro ⟨k, hk, he⟩
    have hhash := t.hash_eq he
    rw [hhash]
    exact ⟨hk, he⟩
  · rintro ⟨hmem, he⟩
    exact ⟨e.phashBlock, hmem, he⟩

theorem nHeight_of_entry (he : t.entries h = some e) : t.nHeight h = e.nHeight := by
  simp [nHeight, he]

theorem pairwise_chain (t : BlockTree) (h : UInt256) : (t.chain h).Pairwise fun a b => b.nHeight ≤ a.nHeight := by
  unfold chain
  rw [List.pairwise_filterMap]
  refine List.Pairwise.imp (fun {k l} hle a ha b hb => ?_) (t.toParentTree.pairwise_path h)
  change t.nHeight l ≤ t.nHeight k at hle
  rwa [nHeight_of_entry ha, nHeight_of_entry hb] at hle

/-- An assignment to fields of an entry other than the ones the tree is made of. -/
def modify (t : BlockTree) (h : UInt256) (f : CBlockIndex → CBlockIndex)
    (hhash : ∀ e, (f e).phashBlock = e.phashBlock) (hprev : ∀ e, (f e).pprev = e.pprev)
    (hheight : ∀ e, (f e).nHeight = e.nHeight) : BlockTree where
  entries := Function.update t.entries h ((t.entries h).map f)
  hash_eq := by
    intro k e he
    by_cases hk : k = h
    · subst hk
      obtain ⟨e', he', rfl⟩ : ∃ e', t.entries k = some e' ∧ f e' = e := by simpa using he
      rw [hhash, t.hash_eq he']
    · exact t.hash_eq (by simpa [hk] using he)
  root_height := by
    intro k e he hroot
    by_cases hk : k = h
    · subst hk
      obtain ⟨e', he', rfl⟩ : ∃ e', t.entries k = some e' ∧ f e' = e := by simpa using he
      rw [hheight]
      exact t.root_height he' (by rw [← hprev, hroot])
    · exact t.root_height (by simpa [hk] using he) hroot
  prev_height := by
    intro k e p he hp
    have hprevAt : ∀ g, t.entries p = some g → ∃ g', Function.update t.entries h ((t.entries h).map f) p = some g' ∧
          g'.nHeight = g.nHeight := by
      intro g hg
      by_cases hph : p = h
      · subst hph
        exact ⟨f g, by simp [hg], hheight g⟩
      · exact ⟨g, by simp [hph, hg], rfl⟩
    by_cases hk : k = h
    · subst hk
      obtain ⟨e', he', rfl⟩ : ∃ e', t.entries k = some e' ∧ f e' = e := by simpa using he
      obtain ⟨g, hg, hh⟩ := t.prev_height he' (by rw [← hprev, hp])
      obtain ⟨g', hg', hgg⟩ := hprevAt g hg
      exact ⟨g', hg', by rw [hheight, hh, hgg]⟩
    · obtain ⟨g, hg, hh⟩ := t.prev_height (h := k) (by simpa [hk] using he) hp
      obtain ⟨g', hg', hgg⟩ := hprevAt g hg
      exact ⟨g', hg', by rw [hh, hgg]⟩

/-- `pindex->pnext = next`. -/
def setPnext (t : BlockTree) (h : UInt256) (next : Option UInt256) : BlockTree :=
  t.modify h (fun e => { e with pnext := next }) (fun _ => rfl) (fun _ => rfl) (fun _ => rfl)

/-- `pindex->nMint = nMint; pindex->nMoneySupply = nMoneySupply`. -/
def setSupply (t : BlockTree) (h : UInt256) (nMint nMoneySupply : Int) : BlockTree :=
  t.modify h (fun e => { e with nMint := nMint, nMoneySupply := nMoneySupply })
    (fun _ => rfl) (fun _ => rfl) (fun _ => rfl)

section Entries

variable (t : BlockTree) (h k : UInt256)

@[simp] theorem entries_modify (f : CBlockIndex → CBlockIndex) (hhash : ∀ e, (f e).phashBlock = e.phashBlock)
    (hprev : ∀ e, (f e).pprev = e.pprev) (hheight : ∀ e, (f e).nHeight = e.nHeight) :
    (t.modify h f hhash hprev hheight).entries k = if k = h then (t.entries h).map f else t.entries k := by
  simp [modify, Function.update_apply]

theorem map_entries_modify {α : Type*} {f : CBlockIndex → CBlockIndex} {g : CBlockIndex → α} (hg : ∀ e, g (f e) = g e)
    (hhash : ∀ e, (f e).phashBlock = e.phashBlock) (hprev : ∀ e, (f e).pprev = e.pprev)
    (hheight : ∀ e, (f e).nHeight = e.nHeight) :
    ((t.modify h f hhash hprev hheight).entries k).map g = (t.entries k).map g := by
  rw [entries_modify]
  split_ifs with hk
  · rw [hk, Option.map_map]
    exact congrArg (Option.map · (t.entries h)) (funext hg)
  · rfl

theorem map_entries_setPnext {α : Type*} {g : CBlockIndex → α} (next : Option UInt256)
    (hg : ∀ e, g { e with pnext := next } = g e) :
    ((t.setPnext h next).entries k).map g = (t.entries k).map g := map_entries_modify t h k hg _ _ _

theorem map_entries_setSupply {α : Type*} {g : CBlockIndex → α} (nMint nMoneySupply : Int)
    (hg : ∀ e, g { e with nMint := nMint, nMoneySupply := nMoneySupply } = g e) :
    ((t.setSupply h nMint nMoneySupply).entries k).map g = (t.entries k).map g := map_entries_modify t h k hg _ _ _

@[simp] theorem entries_setPnext (next : Option UInt256) : (t.setPnext h next).entries k
      = if k = h then (t.entries h).map fun e => { e with pnext := next } else t.entries k := by
  simp [setPnext]

@[simp] theorem entries_setSupply (nMint nMoneySupply : Int) : (t.setSupply h nMint nMoneySupply).entries k
      = if k = h then (t.entries h).map fun e => { e with nMint := nMint, nMoneySupply := nMoneySupply }
        else t.entries k := by
  simp [setSupply]

end Entries

end BlockTree

/-- The loop of `GetLastBlockIndex`: back to the last block of the kind, or to the root. -/
def getLastBlockIndex (fProofOfStake : Bool) : List CBlockIndex → List CBlockIndex
  | pindex :: pprev :: rest =>
    if pindex.isProofOfStake != fProofOfStake then getLastBlockIndex fProofOfStake (pprev :: rest)
    else pindex :: pprev :: rest
  | chain => chain

/-- The loop of `IsConfirmedInNPrevBlocks` from the entry at height `nFromHeight`: the depth of the
    block that the index entry lies in, `none` when it is not among the last `nMaxDepth` ones. -/
def isConfirmedFrom (txindex : CTxIndex) (nFromHeight nMaxDepth : Int) : List CBlockIndex → Option Int
  | [] => none
  | pindex :: pprev =>
    if nFromHeight - pindex.nHeight < nMaxDepth then
      if pindex.nBlockPos == txindex.pos.nBlockPos && pindex.nFile == txindex.pos.nFile then
        some (nFromHeight - pindex.nHeight)
      else isConfirmedFrom txindex nFromHeight nMaxDepth pprev
    else none

def isConfirmedInNPrevBlocks (txindex : CTxIndex) (pindexFrom : List CBlockIndex) (nMaxDepth : Int) : Option Int :=
  match pindexFrom with
  | [] => none
  | pindex :: _ => isConfirmedFrom txindex pindex.nHeight nMaxDepth pindexFrom

end PupaCoin
