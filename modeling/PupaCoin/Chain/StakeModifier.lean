import Mathlib.Data.Prod.Lex
import PupaCoin.Chain.BlockIndex
import PupaCoin.Lib.Shuffle

/-!
# The stake modifier (`kernel.cpp`)

`ComputeNextStakeModifier` makes the next modifier of the entropy bits of up to 64 blocks. The candidates are the blocks
of the selection interval; every round adds a section to the interval of the blocks that it prefers, and selects one of
them that has not been selected before, by a hash. A pointer to a block is the chain that it reaches.
-/

namespace PupaCoin

/-- `nModifierInterval`: time to elapse before a new modifier is computed. -/
def nModifierInterval : Int := 2 * 60

/-- `MODIFIER_INTERVAL_RATIO`: of the interval lengths of the last and the first group. -/
def modifierIntervalRatio : Int := 3

namespace CBlockIndex

def generatedStakeModifier (pindex : CBlockIndex) : Bool := pindex.nFlags &&& blockStakeModifier != 0

def getStakeEntropyBit (pindex : CBlockIndex) : UInt32 := (pindex.nFlags &&& blockStakeEntropy) >>> 1

end CBlockIndex

namespace StakeModifier

/-- `GetLastStakeModifier`: the modifier and the time of the last block that has generated one. -/
def getLastStakeModifier : List CBlockIndex → Option (UInt64 × Int)
  | [] => none
  | [pindex] => if pindex.generatedStakeModifier then some (pindex.nStakeModifier, pindex.getBlockTime) else none
  | pindex :: pprev :: rest =>
    if pindex.generatedStakeModifier then some (pindex.nStakeModifier, pindex.getBlockTime)
    else getLastStakeModifier (pprev :: rest)

def getStakeModifierSelectionIntervalSection (nSection : Nat) : Int :=
  nModifierInterval * 63 / (63 + (63 - nSection) * (modifierIntervalRatio - 1))

def getStakeModifierSelectionInterval : Int :=
  ((List.range 64).map getStakeModifierSelectionIntervalSection).sum

/-- An element of `vSortedByTimestamp`: the time of a block and its hash. -/
abbrev Candidate := Int × UInt256

def candidateOf (pindex : CBlockIndex) : Candidate := (pindex.getBlockTime, pindex.phashBlock)

def Candidate.Le (a b : Candidate) : Prop := toLex a ≤ toLex b

instance : DecidableRel Candidate.Le := fun a b => inferInstanceAs (Decidable (toLex a ≤ toLex b))

/-- The candidates: the blocks of a chain down to the first that is older than the interval. -/
def candidates (nSelectionIntervalStart : Int) (pindexPrev : List CBlockIndex) : List CBlockIndex :=
  pindexPrev.takeWhile fun pindex => decide (pindex.getBlockTime ≥ nSelectionIntervalStart)

/-- `vSortedByTimestamp`. -/
def sortedByTimestamp (nSelectionIntervalStart : Int) (pindexPrev : List CBlockIndex) : List Candidate :=
  ((candidates nSelectionIntervalStart pindexPrev).map candidateOf).reverse.insertionSort Candidate.Le

/-- What the selection is parametric in: `mapBlockIndex`, and `Hash_echo512` of the proof hash of a block and the
previous modifier. -/
structure SelectionEnv where
  mapBlockIndex : BlockTree
  hashEcho512 : UInt256 → UInt64 → UInt256

variable (E : SelectionEnv) (nStakeModifierPrev : UInt64)

/-- The selection hash of a block, which favours proof-of-stake blocks. -/
def hashSelection (pindex : CBlockIndex) : UInt256 :=
  let hashSelection := E.hashEcho512 pindex.hashProof nStakeModifierPrev
  if pindex.isProofOfStake then hashSelection >>> 32 else hashSelection

/-- The loop of `SelectBlockFromCandidates`: `hashBest` and the block, `none` inside where `fSelected` is false, and
`none` outside where it fails. -/
def selectLoop (mapSelectedBlocks : List CBlockIndex) (nSelectionIntervalStop : Int) :
    List Candidate → Option (UInt256 × CBlockIndex) → Option (Option (UInt256 × CBlockIndex))
  | [], best => some best
  | item :: vSortedByTimestamp, best =>
    match E.mapBlockIndex.entries item.2 with
    | none => none
    | some pindex =>
      if best.isSome && decide (pindex.getBlockTime > nSelectionIntervalStop) then some best
      else if mapSelectedBlocks.any fun selected => selected.phashBlock == pindex.phashBlock then
        selectLoop mapSelectedBlocks nSelectionIntervalStop vSortedByTimestamp best
      else
        let hash := hashSelection E nStakeModifierPrev pindex
        match best with
        | none => selectLoop mapSelectedBlocks nSelectionIntervalStop vSortedByTimestamp (some (hash, pindex))
        | some (hashBest, pindexSelected) =>
          selectLoop mapSelectedBlocks nSelectionIntervalStop vSortedByTimestamp
            (some (if hash < hashBest then (hash, pindex) else (hashBest, pindexSelected)))

/-- `SelectBlockFromCandidates`: the block, `none` where it returns `false`. -/
def selectBlockFromCandidates (vSortedByTimestamp : List Candidate) (mapSelectedBlocks : List CBlockIndex)
    (nSelectionIntervalStop : Int) : Option CBlockIndex := do
  let best ← selectLoop E nStakeModifierPrev mapSelectedBlocks nSelectionIntervalStop vSortedByTimestamp none
  best.map Prod.snd

/-- The variables of the loop over the rounds. `mapSelectedBlocks` lists the blocks in the order of their selection. -/
structure RoundState where
  nSelectionIntervalStop : Int
  mapSelectedBlocks : List CBlockIndex
  nStakeModifierNew : UInt64

/-- One round: `none` where no block is selected. -/
def selectionRound (vSortedByTimestamp : List Candidate) (st : RoundState) (nRound : Nat) : Option RoundState := do
  let nSelectionIntervalStop := st.nSelectionIntervalStop + getStakeModifierSelectionIntervalSection nRound
  let pindex ← selectBlockFromCandidates E nStakeModifierPrev vSortedByTimestamp st.mapSelectedBlocks
    nSelectionIntervalStop
  return {
    nSelectionIntervalStop
    mapSelectedBlocks := st.mapSelectedBlocks ++ [pindex]
    nStakeModifierNew := st.nStakeModifierNew ||| (pindex.getStakeEntropyBit.toUInt64 <<< UInt64.ofNat nRound) }

/-- The beginning of the selection interval, for the time of the previous block. -/
def selectionIntervalStart (pindexPrev : CBlockIndex) : Int :=
  pindexPrev.getBlockTime / nModifierInterval * nModifierInterval - getStakeModifierSelectionInterval

def selectBlocks (nSelectionIntervalStart : Int) (vSortedByTimestamp : List Candidate) : Option RoundState :=
  (List.range (min 64 vSortedByTimestamp.length)).foldlM (selectionRound E nStakeModifierPrev vSortedByTimestamp)
    { nSelectionIntervalStop := nSelectionIntervalStart, mapSelectedBlocks := [], nStakeModifierNew := 0 }

/-- `ComputeNextStakeModifier`: the modifier and whether it has been generated, `none` where it returns `false`. -/
def computeNextStakeModifier (pindexPrev : List CBlockIndex) : Option (UInt64 × Bool) :=
  match pindexPrev with
  | [] => some (0, true)
  | pindex :: rest => do
    let (nStakeModifier, nModifierTime) ← getLastStakeModifier (pindex :: rest)
    if nModifierTime / nModifierInterval ≥ pindex.getBlockTime / nModifierInterval then
      return (nStakeModifier, false)
    else
      let nSelectionIntervalStart := selectionIntervalStart pindex
      let st ← selectBlocks E nStakeModifier nSelectionIntervalStart
        (sortedByTimestamp nSelectionIntervalStart (pindex :: rest))
      return (st.nStakeModifierNew, true)

/-- The end of the interval of round `r`. -/
def stopTime (nSelectionIntervalStart : Int) (r : Nat) : Int :=
  nSelectionIntervalStart + ((List.range (r + 1)).map getStakeModifierSelectionIntervalSection).sum

/-- The choice of the round after `selected`, among candidates in the order of their times: the least selection hash of
the first candidate that is left and of those left that are not after the end of the interval. -/
def choice (sorted : List CBlockIndex) (nSelectionIntervalStart : Int) (selected : List CBlockIndex) :
    Option CBlockIndex :=
  (eligible (fun b => decide (b.getBlockTime > stopTime nSelectionIntervalStart selected.length))
    (sorted.filter fun b => decide (b ∉ selected))).argmin (hashSelection E nStakeModifierPrev)

/-- The entropy bits of the selected blocks, the first one lowest. -/
def entropyBits (selected : List CBlockIndex) : UInt64 :=
  (selected.zipIdx.map fun b => b.1.getStakeEntropyBit.toUInt64 <<< UInt64.ofNat b.2).foldl (· ||| ·) 0

/-- What a selection among the candidates of a chain leaves: as many of them as there are, but not more than 64, none of
them twice, each by the choice of its round, and the modifier of their entropy bits. -/
structure Selection (nSelectionIntervalStart : Int) (pindexPrev : List CBlockIndex) (st : RoundState) : Prop where
  length : st.mapSelectedBlocks.length = min 64 (candidates nSelectionIntervalStart pindexPrev).length
  distinct : (st.mapSelectedBlocks.map CBlockIndex.phashBlock).Nodup
  candidate : ∀ b ∈ st.mapSelectedBlocks, b ∈ candidates nSelectionIntervalStart pindexPrev
  chosen : ∃ sorted : List CBlockIndex, sorted.Perm (candidates nSelectionIntervalStart pindexPrev) ∧
    (sorted.Pairwise fun a b => Candidate.Le (candidateOf a) (candidateOf b)) ∧
    ∀ r b, st.mapSelectedBlocks[r]? = some b →
      choice E nStakeModifierPrev sorted nSelectionIntervalStart (st.mapSelectedBlocks.take r) = some b
  stop : st.nSelectionIntervalStop =
    nSelectionIntervalStart + ((List.range st.mapSelectedBlocks.length).map getStakeModifierSelectionIntervalSection).sum
  modifier : st.nStakeModifierNew = entropyBits st.mapSelectedBlocks

end StakeModifier

end PupaCoin
