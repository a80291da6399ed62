import PupaCoin.Lib.Ranking
import PupaCoin.Lib.While
import PupaCoin.Net.InstantX

/-!
# Removing and drawing masternodes (`masternodeman.cpp`)

`Remove` looks for an entry with an iterator over `vMasternodes`, and `FindRandomNotInVec` counts a random number down
over the entries that it may choose.
-/

namespace PupaCoin

open While

/-- A round of the loop of `Remove`, at the iterator `it`: nothing advances it. -/
def removeRound (vin : CTxIn) (s : List CMasternode × Nat) : Round (List CMasternode × Nat) (List CMasternode) :=
  match s.1[s.2]? with
  | none => .done s.1
  | some mn => if mn.vin = vin then .done (s.1.eraseIdx s.2) else .next s

/-- `CMasternodeMan::Remove` returns and leaves the list `vMasternodes'`. -/
def RemovesMasternode (vin : CTxIn) (vMasternodes vMasternodes' : List CMasternode) : Prop :=
  While.Returns (removeRound vin) (vMasternodes, 0) vMasternodes'

/-- `Remove` returns, leaves the entries with another `vin` in their order, and removes the first one with this `vin`
and nothing else: all of them, where no two entries have the same `vin`. -/
structure RemovesFirst (vin : CTxIn) (vMasternodes vMasternodes' : List CMasternode) : Prop where
  returns : RemovesMasternode vin vMasternodes vMasternodes'
  others : (vMasternodes'.filter fun mn => mn.vin ≠ vin) = vMasternodes.filter fun mn => mn.vin ≠ vin
  first : vMasternodes' = vMasternodes.eraseP fun mn => mn.vin = vin
  all : (vMasternodes.map CMasternode.vin).Nodup → vMasternodes' = vMasternodes.filter fun mn => mn.vin ≠ vin

/-- `GetMinMasternodePaymentsProto` stands for `-1`. -/
def protocolOrDefault (minPaymentsProto protocolVersion : Int) : Int :=
  if protocolVersion = -1 then minPaymentsProto else protocolVersion

def CMasternode.isCandidate (protocolVersion : Int) (mn : CMasternode) : Bool :=
  decide (protocolVersion ≤ mn.protocolVersion) && mn.fEnabled

def CMasternode.isExcluded (vecToExclude : List CTxIn) (mn : CMasternode) : Bool :=
  vecToExclude.any fun usedVin => mn.vin.prevout == usedVin.prevout

/-- The loop of `FindRandomNotInVec`: `--rand < 1` at an entry that is not skipped. The result is the position of an
entry. -/
def countDown (eligible : CMasternode → Bool) : List (CMasternode × Nat) → Int → Option Nat
  | [], _ => none
  | (mn, i) :: rest, rand =>
    if !eligible mn then countDown eligible rest rand
    else if rand - 1 < 1 then some i
    else countDown eligible rest (rand - 1)

section Find

variable (minPaymentsProto : Int) (vMasternodes : List CMasternode) (vecToExclude : List CTxIn) (protocolVersion : Int)

def countEnabled : Nat :=
  (vMasternodes.filter (CMasternode.isCandidate (protocolOrDefault minPaymentsProto protocolVersion))).length

/-- `nCountEnabled - vecToExclude.size()`, a `size_t`. -/
def sizeLeft : Nat :=
  (((countEnabled minPaymentsProto vMasternodes protocolVersion : Int) - vecToExclude.length) % 2 ^ 64).toNat

/-- The entries that the loop does not skip. -/
def isEligible (mn : CMasternode) : Bool :=
  mn.isCandidate (protocolOrDefault minPaymentsProto protocolVersion) && !mn.isExcluded vecToExclude

/-- `FindRandomNotInVec`, for a value `rand` of `GetRandInt`. -/
def findRandomNotInVec (rand : Int) : Option Nat :=
  if sizeLeft minPaymentsProto vMasternodes vecToExclude protocolVersion < 1 then none
  else countDown (isEligible minPaymentsProto vecToExclude protocolVersion) vMasternodes.zipIdx rand

/-- The positions of the entries that are not skipped. -/
def eligiblePositions : List Nat :=
  (vMasternodes.zipIdx.filter fun s => isEligible minPaymentsProto vecToExclude protocolVersion s.1).map Prod.snd

/-- The subtraction does not wrap, and `FindRandomNotInVec` returns the eligible entry with the number `r`; none, where
there is none. -/
def FindsEligible (r : Nat) : Prop :=
  vecToExclude.length ≤ countEnabled minPaymentsProto vMasternodes protocolVersion
    ∧ findRandomNotInVec minPaymentsProto vMasternodes vecToExclude protocolVersion r
      = (eligiblePositions minPaymentsProto vMasternodes vecToExclude protocolVersion)[r]?

/-- The exclusions are no more than the enabled masternodes; and nothing is eligible, or the first of the eligible
entries is meant and the subtraction leaves something. -/
def FindsFirst (r : Nat) : Prop :=
  vecToExclude.length ≤ countEnabled minPaymentsProto vMasternodes protocolVersion
    ∧ (eligiblePositions minPaymentsProto vMasternodes vecToExclude protocolVersion = []
      ∨ r = 0 ∧ sizeLeft minPaymentsProto vMasternodes vecToExclude protocolVersion ≠ 0)

end Find

/-!
## The ranking of the masternodes (`masternodeman.cpp`)

`GetMasternodeRank` and `GetMasternodeByRank` sort the same scores. The first one asks for the block hash
before, the second one does not.
-/

section Masternodes

variable (env : InstantXEnv) (ext : InstantXExt)

/-- `CMasternode::CalculateScore(1, nBlockHeight)`, 0 where the block is not known. -/
def masternodeScore (nBlockHeight : Int) (vin : CTxIn) : UInt256 :=
  match ext.getBlockHash nBlockHeight with
  | none => 0
  | some hash => calculateScore env hash vin

/-- The masternodes that the loops over `vMasternodes` do not skip. -/
def rankedMasternodes (minProtocol : Int) : List CMasternode :=
  ext.vMasternodes.filter fun mn => decide (minProtocol ≤ mn.protocolVersion) && mn.fEnabled

/-- `vecMasternodeScores`: `memcpy` takes the low 32 bits of a score. -/
def masternodeScores (nBlockHeight minProtocol : Int) : List (Nat × CTxIn) :=
  (rankedMasternodes ext minProtocol).map fun mn =>
    ((masternodeScore env ext nBlockHeight mn.vin).toNat % 2 ^ 32, mn.vin)

/-- `GetMasternodeByRank` with `fOnlyActive`. -/
def getMasternodeByRank (nRank nBlockHeight minProtocol : Int) : Option CMasternode :=
  if 1 ≤ nRank then
    ((Ranking.byScore (masternodeScores env ext nBlockHeight minProtocol))[(nRank - 1).toNat]?).bind
      fun s => findMasternode ext s.2
  else none

/-- The ranks of the masternodes at a height are `1..k`, lead back to the masternodes, and do not depend on
    the order in which the list holds them, nor on the order in which the sort leaves equal scores. -/
structure RankConsistent (nBlockHeight minProtocol : Int) : Prop where
  rank_of_byRank : ∀ nRank mn, getMasternodeByRank env ext nRank nBlockHeight minProtocol = some mn →
    mn ∈ rankedMasternodes ext minProtocol
      ∧ getMasternodeRank env ext mn.vin nBlockHeight minProtocol = nRank
  byRank_of_rank : ∀ mn ∈ rankedMasternodes ext minProtocol,
    getMasternodeByRank env ext (getMasternodeRank env ext mn.vin nBlockHeight minProtocol) nBlockHeight
      minProtocol = some mn
  ranks : ((rankedMasternodes ext minProtocol).map fun mn =>
      getMasternodeRank env ext mn.vin nBlockHeight minProtocol).Perm
    ((List.range (rankedMasternodes ext minProtocol).length).map fun i : Nat => (i : Int) + 1)
  agree : ∀ vMasternodes, vMasternodes.Perm ext.vMasternodes → ∀ mn ∈ rankedMasternodes ext minProtocol,
      getMasternodeRank env { ext with vMasternodes } mn.vin nBlockHeight minProtocol
        = getMasternodeRank env ext mn.vin nBlockHeight minProtocol
  arranged : ∀ sorted, Ranking.Arranges (masternodeScores env ext nBlockHeight minProtocol) sorted →
    sorted = Ranking.byScore (masternodeScores env ext nBlockHeight minProtocol)

/-- The block is known, no two of the masternodes have the same score, and `Find` leads to each of them. -/
structure Rankable (nBlockHeight minProtocol : Int) : Prop where
  known : rankedMasternodes ext minProtocol = [] ∨ (ext.getBlockHash nBlockHeight).isSome
  distinct : ((masternodeScores env ext nBlockHeight minProtocol).map Prod.fst).Nodup
  own : ∀ mn ∈ rankedMasternodes ext minProtocol, findMasternode ext mn.vin = some mn

end Masternodes

end PupaCoin
