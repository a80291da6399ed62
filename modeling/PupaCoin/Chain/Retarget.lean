import PupaCoin.Chain.Node
import Mathlib.Data.Nat.Factorial.Basic
import Mathlib.Data.Rat.Floor

/-!
# The difficulty retarget (`blockparams.cpp`)

VRX multiplies the target of the last block of the same kind with a factor that it derives from the
spacing of the last five blocks.
-/

namespace PupaCoin

/-- Round to the nearest integer, ties to even. -/
def roundHalfEven (q : ℚ) : Int :=
  let below := ⌊q⌋
  if q - below < 1 / 2 then below
  else if 1 / 2 < q - below then below + 1
  else if below % 2 = 0 then below else below + 1

/-- The double nearest to a rational in the normal range. -/
def roundDouble (q : ℚ) : ℚ :=
  if q = 0 then 0
  else
    let guess : Int := (q.num.natAbs.log2 : Int) - q.den.log2
    let exponent := if (2 : ℚ) ^ guess ≤ |q| then guess else guess - 1
    let ulp : ℚ := (2 : ℚ) ^ (exponent - 52)
    roundHalfEven (q / ulp) * ulp

/-! ## The engine -/

/-- The state of the loop of the extended curve run. -/
structure CurveState where
  terminalAverage : ℚ
  minuteRounds : Nat
  difCurve : Nat

def dsRateNRM : Int := blockSpacing
def dsRateMAX : Int := blockSpacingMax
def frRateDWN : Int := dsRateNRM - 60
def frRateFLR : Int := dsRateNRM - 90
def frRateCLNG : Int := dsRateMAX + 180
def averageDivisor : ℚ := 5

def spacingFactor (rate : Int) : ℚ :=
  if rate ≥ dsRateNRM then
    if rate > dsRateMAX then if rate > frRateCLNG then 1 / 2 else 3 / 4
    else 1
  else if rate < frRateDWN then if rate < frRateFLR then 2 else 3 / 2
  else 5 / 4

/-- A difference of block times in `uint64_t`. -/
def timeDifference (a b : Int) : UInt64 := UInt64.ofInt (a - b)

/-- The five newest spacings, and the kinds of the five blocks before the newest one. -/
def spacings : Nat → List CBlockIndex → Except Stop (List (Int × Bool))
  | 0, _ => .ok []
  | rounds + 1, pindex :: pprev :: rest => do
    let older ← spacings rounds (pprev :: rest)
    return (pindex.getBlockTime - pprev.getBlockTime, pprev.isProofOfStake) :: older
  | _, _ => .error (.undefined "pindexPrev->pprev")

section Rounding

variable (round : ℚ → ℚ)

/-- `VRX_BaseEngine`: `TerminalAverage`, and the counters `prevPoW` and `prevPoS`. Every round counts
    the kind that is asked for and the kind of the block. -/
def vrxBaseEngine (chain : List CBlockIndex) (fProofOfStake : Bool) : Except Stop (ℚ × Nat × Nat) := do
  let rounds ← spacings 5 chain
  let terminalAverage :=
    round ((rounds.map fun round => spacingFactor round.1).sum / averageDivisor)
  let nPoS := (rounds.filter fun round => round.2).length
  let nPoW := (rounds.filter fun round => !round.2).length
  return (terminalAverage, if fProofOfStake then (nPoW, nPoS + 5) else (nPoW + 5, nPoS))

/-- `VRX_Simulate_Retarget`: the new target. A factor that truncates to zero divides by zero. -/
def vrxSimulateRetarget (terminalAverage : ℚ) (nBits : UInt32) : Except Stop Int := do
  let difficultyfactor : Int := ⌊round (10000 * terminalAverage)⌋
  if difficultyfactor = 0 then throw (.exception "CBigNum::operator/ : BN_div failed")
  else return (setCompact nBits).tdiv difficultyfactor * 10000

/-- `VRX_GetPrevDiff(fPoS) < 1`, for the last block of the kind on the *best* chain. A zero mantissa
    makes the difficulty infinite. -/
def prevDiffBelowOneWith (n : Node) (fPoS : Bool) : Bool :=
  match getLastBlockIndex fPoS (n.mapBlockIndex.chain? n.pindexBest) with
  | [] => false
  | blockindex :: _ =>
    let nShift : Nat := blockindex.nBits.toNat / 2 ^ 24
    let nMantissa : Nat := blockindex.nBits.toNat % 2 ^ 24
    if nMantissa = 0 then false
    else decide (round ((0xffff : ℚ) / nMantissa) * (256 : ℚ) ^ (29 - (nShift : Int)) < 1)

/-- The extended curve run: `none` when it resets the difficulty. `minuteRounds` passes `loopbrk` after
    at most seven rounds, which bounds the fuel. -/
def extendedCurve (fDiffTooLow : Bool) (difTime : UInt64) (loopbrk step : Nat) (nBits : UInt32) :
    Nat → CurveState → Except Stop (Option ℚ)
  | 0, st => .ok (some st.terminalAverage)
  | fuel + 1, st =>
    if ¬ difTime.toNat > st.minuteRounds * 60 then .ok (some st.terminalAverage)
    else if fDiffTooLow then .ok (some st.terminalAverage)
    else if st.minuteRounds > loopbrk then .ok none
    else do
      let terminalAverage := round (st.terminalAverage / st.difCurve)
      let _ ← vrxSimulateRetarget round terminalAverage nBits
      extendedCurve fDiffTooLow difTime loopbrk step nBits fuel
        ⟨terminalAverage, st.minuteRounds + step, st.difCurve + 1⟩

/-- The skew of `TerminalAverage` towards the kind that was selected less often. -/
def skewAverage (fProofOfStake : Bool) (terminalAverage : ℚ) (prevPoW prevPoS : Nat) : ℚ :=
  let skewed :=
    if prevPoW < prevPoS ∧ ¬ fProofOfStake then
      if prevPoS - prevPoW > 3 then round (terminalAverage / 3) else terminalAverage
    else if prevPoW > prevPoS ∧ fProofOfStake then
      if prevPoW - prevPoS > 3 then round (terminalAverage / 3) else terminalAverage
    else terminalAverage
  if skewed < 1 / 2 then 1 / 2 else skewed

/-- `VRX_ThreadCurve`: `TerminalAverage`, or `none` when `fCRVreset` is set. `velocityType` is the chain
    of the last block of the kind. -/
def vrxThreadCurve (fDiffTooLow : Bool) (chain velocityType : List CBlockIndex) (fProofOfStake : Bool) :
    Except Stop (Option ℚ) := do
  let (average, prevPoW, prevPoS) ← vrxBaseEngine round chain fProofOfStake
  let average := skewAverage round fProofOfStake average prevPoW prevPoS
  let pindexLast ← orUndefined chain.head? "pindexLast"
  let blockVelocityType ← orUndefined velocityType.head? "BlockVelocityType"
  let prevVelocityType ← orUndefined velocityType.tail.head? "BlockVelocityType->pprev"
  if pindexLast.nHeight > 7500 then
    let difTime := timeDifference pindexLast.getBlockTime blockVelocityType.getBlockTime
    let (minuteRounds, loopbrk, step) :=
      if pindexLast.nHeight > 63000 then (45, 65, 5) else (15, 20, 1)
    extendedCurve round fDiffTooLow difTime loopbrk step blockVelocityType.nBits 8 ⟨average, minuteRounds, 2⟩
  else
    let difTime := timeDifference blockVelocityType.getBlockTime prevVelocityType.getBlockTime
    let halve (average : ℚ) (hours : Nat) : ℚ :=
      if difTime.toNat > hours * 60 * 60 then round (average / 2) else average
    return some ([15, 16, 17, 18].foldl halve average)

/-- `VRX_Dry_Run`: the chain is too short, or the *best* block is at the height of a fork. -/
def vrxDryRun (n : Node) (pindexLast : CBlockIndex) : Except Stop Bool :=
  if pindexLast.nHeight < 6 + 124 then .ok true
  else do
    let pindexBest ← orUndefined (n.pindexBest.bind n.mapBlockIndex.entries) "pindexBest"
    return decide (pindexBest.nHeight = 725)

/-- `VRX_Retarget`, on the chain of the previous block. -/
def vrxRetarget (params : CChainParams) (n : Node) (chain : List CBlockIndex) (fProofOfStake : Bool) :
    Except Stop UInt32 := do
  let bnVelocity := if fProofOfStake then params.bnProofOfStakeLimit else params.bnProofOfWorkLimit
  let velocityType := getLastBlockIndex fProofOfStake chain
  let pindexLast ← orUndefined chain.head? "pindexLast"
  if ← vrxDryRun n pindexLast then return getCompact bnVelocity
  else
    match ← vrxThreadCurve round (prevDiffBelowOneWith round n fProofOfStake) chain velocityType
        fProofOfStake with
    | none => return getCompact bnVelocity
    | some average =>
      let blockVelocityType ← orUndefined velocityType.head? "BlockVelocityType"
      let bnNew ← vrxSimulateRetarget round average blockVelocityType.nBits
      return getCompact (if bnNew > bnVelocity then bnVelocity else bnNew)

/-- `GetNextTargetRequired`, on the chain of the previous block. -/
def getNextTargetRequiredWith (params : CChainParams) (n : Node) (chain : List CBlockIndex)
    (fProofOfStake : Bool) : Except Stop UInt32 := vrxRetarget round params n chain fProofOfStake

end Rounding

/-- `VRX_GetPrevDiff(fPoS) < 1` in doubles. -/
def prevDiffBelowOne (n : Node) (fPoS : Bool) : Bool := prevDiffBelowOneWith roundDouble n fPoS

/-- `GetNextTargetRequired` in doubles. -/
def getNextTargetRequired (params : CChainParams) (n : Node) (chain : List CBlockIndex)
    (fProofOfStake : Bool) : Except Stop UInt32 :=
  getNextTargetRequiredWith roundDouble params n chain fProofOfStake

end PupaCoin

/-!
## What the extended curve run does (`blockparams.cpp`)

The extended curve run with a record of its rounds that divide `TerminalAverage` or set `fCRVreset`, each with the
`minuteRounds` at which it was due.
-/

namespace PupaCoin

/-- A round that changes something. -/
inductive CurveAction where
  | divide (minuteRounds : Nat)
  | reset (minuteRounds : Nat)
deriving DecidableEq

/-- The counter at which the round was due. -/
def CurveAction.minuteRounds : CurveAction → Nat
  | divide minuteRounds => minuteRounds
  | reset minuteRounds => minuteRounds

section Rounding

variable (round : ℚ → ℚ)

/-- `extendedCurve` with the record of its rounds. -/
def curveActions (fDiffTooLow : Bool) (difTime : UInt64) (loopbrk step : Nat) (nBits : UInt32) :
    Nat → CurveState → List CurveAction × Except Stop (Option ℚ)
  | 0, st => ([], .ok (some st.terminalAverage))
  | fuel + 1, st =>
    if ¬ difTime.toNat > st.minuteRounds * 60 then ([], .ok (some st.terminalAverage))
    else if fDiffTooLow then ([], .ok (some st.terminalAverage))
    else if st.minuteRounds > loopbrk then ([.reset st.minuteRounds], .ok none)
    else
      let terminalAverage := round (st.terminalAverage / st.difCurve)
      match vrxSimulateRetarget round terminalAverage nBits with
      | .error e => ([.divide st.minuteRounds], .error e)
      | .ok _ =>
        let (actions, result) := curveActions fDiffTooLow difTime loopbrk step nBits fuel
          ⟨terminalAverage, st.minuteRounds + step, st.difCurve + 1⟩
        (.divide st.minuteRounds :: actions, result)

/-- `vrxThreadCurve` above height 7500 with the record of the rounds. -/
def extendedThreadCurve (fDiffTooLow : Bool) (chain velocityType : List CBlockIndex) (fProofOfStake : Bool) :
    Except Stop (List CurveAction × Except Stop (Option ℚ)) := do
  let (average, prevPoW, prevPoS) ← vrxBaseEngine round chain fProofOfStake
  let average := skewAverage round fProofOfStake average prevPoW prevPoS
  let pindexLast ← orUndefined chain.head? "pindexLast"
  let blockVelocityType ← orUndefined velocityType.head? "BlockVelocityType"
  let _ ← orUndefined velocityType.tail.head? "BlockVelocityType->pprev"
  let difTime := timeDifference pindexLast.getBlockTime blockVelocityType.getBlockTime
  let (minuteRounds, loopbrk, step) :=
    if pindexLast.nHeight > 63000 then (45, 65, 5) else (15, 20, 1)
  return curveActions round fDiffTooLow difTime loopbrk step blockVelocityType.nBits 8 ⟨average, minuteRounds, 2⟩

end Rounding

/-- The signed time from the last block of the kind to `pindexLast`. -/
def elapsedTime (pindexLast blockVelocityType : CBlockIndex) : Int :=
  pindexLast.getBlockTime - blockVelocityType.getBlockTime

/-- The curve run only eases the difficulty when a round is due by the signed time. -/
def EasesWhenDue (round : ℚ → ℚ) (fDiffTooLow : Bool) (chain : List CBlockIndex) (fProofOfStake : Bool) : Prop :=
  ∀ pindexLast blockVelocityType actions result, chain.head? = some pindexLast →
    (getLastBlockIndex fProofOfStake chain).head? = some blockVelocityType →
    extendedThreadCurve round fDiffTooLow chain (getLastBlockIndex fProofOfStake chain) fProofOfStake
      = .ok (actions, result) →
    ∀ action ∈ actions, (action.minuteRounds * 60 : Int) < elapsedTime pindexLast blockVelocityType

/-- The chain is long enough for the engine, its last block of the kind has a parent and is later than `pindexLast`,
    and the curve run is not skipped. -/
def KindIsLater (fDiffTooLow : Bool) (chain : List CBlockIndex) (fProofOfStake : Bool) : Prop :=
  fDiffTooLow = false ∧ 6 ≤ chain.length ∧ ∃ pindexLast blockVelocityType prevVelocityType rest,
    chain.head? = some pindexLast ∧
    getLastBlockIndex fProofOfStake chain = blockVelocityType :: prevVelocityType :: rest ∧
    pindexLast.getBlockTime < blockVelocityType.getBlockTime

/-- Every block has a time that `AcceptBlock` admits on its parent. -/
def TimesAdmitted (chain : List CBlockIndex) : Prop :=
  chain.IsChain fun pindex pprev =>
    pprev.getPastTimeLimit < pindex.getBlockTime ∧ pprev.getBlockTime ≤ futureDrift pindex.getBlockTime

end PupaCoin

/-!
## Where the retarget stays in range

The chains of accepted blocks, and the condition under which the retarget on top of one returns a target
between 1 and the limit of the block kind. The factor is read as an exact rational.
-/

namespace PupaCoin

def networks : List CChainParams := [mainParams, testNetParams, regTestParams]

def CChainParams.velocityLimit (params : CChainParams) (fProofOfStake : Bool) : Int :=
  if fProofOfStake then params.bnProofOfStakeLimit else params.bnProofOfWorkLimit

/-- The chains that `AcceptBlock` lets come into being, as far as times and targets go; the newest block
    first. The node may be a different one for every block. -/
inductive AcceptedChain (params : CChainParams) : List CBlockIndex → Prop
  | genesis {pindex : CBlockIndex} : pindex.nHeight = 0 →
      pindex.nBits = getCompact params.bnProofOfWorkLimit → AcceptedChain params [pindex]
  | accept {pindex prev : CBlockIndex} {rest : List CBlockIndex} (n : Node) :
      AcceptedChain params (prev :: rest) → pindex.nHeight = prev.nHeight + 1 →
      prev.getPastTimeLimit < pindex.getBlockTime → prev.getBlockTime ≤ futureDrift pindex.getBlockTime →
      getNextTargetRequiredWith id params n (prev :: rest) pindex.isProofOfStake = .ok pindex.nBits →
      AcceptedChain params (pindex :: prev :: rest)

/-- The retarget returns the compact form of a positive target within the limit of the kind. -/
def TargetInRange (params : CChainParams) (n : Node) (chain : List CBlockIndex) (fProofOfStake : Bool) : Prop :=
  ∃ target, getNextTargetRequiredWith id params n chain fProofOfStake = .ok (getCompact target)
    ∧ 0 < target ∧ target ≤ params.velocityLimit fProofOfStake

def lastSpacings (chain : List CBlockIndex) : List Int :=
  (List.zipWith (fun pindex pprev => pindex.getBlockTime - pprev.getBlockTime) chain chain.tail).take 5

def meanFactor (chain : List CBlockIndex) : ℚ := ((lastSpacings chain).map spacingFactor).sum / 5

/-- Too few blocks for a retarget, or the best block at the height of a fork. -/
def DryRun (n : Node) (pindexLast : CBlockIndex) : Prop :=
  pindexLast.nHeight < 130
    ∨ ∃ best, n.pindexBest.bind n.mapBlockIndex.entries = some best ∧ best.nHeight = 725

/-- The rounds of the extended curve run: one for every minute that has begun after the first 15, and six
    at most; from height 63001 on one for every five minutes after the first 45, and five at most. -/
def curveRounds (nHeight difTime : Nat) : Nat :=
  if nHeight > 63000 then min 5 ((difTime - 45 * 60 + 299) / 300) else min 6 ((difTime - 15 * 60 + 59) / 60)

/-- The time after which the extended curve run resets the difficulty. -/
def curveEnd (nHeight : Nat) : Nat := if nHeight > 63000 then 70 * 60 else 21 * 60

/-- The hours from 15 to 18 that the time has passed. -/
def hoursPassed (difTime : Nat) : Nat := min 4 ((difTime - 15 * 60 * 60 + 3599) / 3600)

/-- The branch of the retarget that depends on the curve: the last block of the kind, and its parent. -/
structure RetargetCase where
  pindexLast : CBlockIndex
  velocityType : CBlockIndex
  prevVelocityType : CBlockIndex
  /-- `VRX_GetPrevDiff` is below 1. -/
  fDiffTooLow : Bool

namespace RetargetCase

variable (c : RetargetCase)

/-- The time since the last block of the kind. -/
def difTime : Nat :=
  (timeDifference c.pindexLast.getBlockTime c.velocityType.getBlockTime).toNat

/-- The time between the last two blocks of the standard curve. -/
def kindSpacing : Nat :=
  (timeDifference c.velocityType.getBlockTime c.prevVelocityType.getBlockTime).toNat

/-- What the mean factor is divided by. -/
def divisor : Nat :=
  if c.pindexLast.nHeight > 7500 then
    if c.fDiffTooLow then 1 else (curveRounds c.pindexLast.nHeight c.difTime + 1).factorial
  else 2 ^ hoursPassed c.kindSpacing

/-- The extended curve run resets the difficulty. -/
def Resets : Prop :=
  c.pindexLast.nHeight > 7500 ∧ c.fDiffTooLow = false ∧ curveEnd c.pindexLast.nHeight < c.difTime

/-- The sixth round of the extended curve run after five slow blocks. -/
def SixthRound (chain : List CBlockIndex) : Prop :=
  c.pindexLast.nHeight > 7500 ∧ c.pindexLast.nHeight ≤ 63000 ∧ c.fDiffTooLow = false ∧ 20 * 60 < c.difTime
    ∧ ∀ spacing ∈ lastSpacings chain, frRateCLNG < spacing

end RetargetCase

/-- There is a last block of the kind with a parent, no sixth round after five slow blocks, and no target
    below the factor. -/
def RetargetSound (n : Node) (chain : List CBlockIndex) (fProofOfStake : Bool) : Prop :=
  ∃ pindexLast, chain.head? = some pindexLast ∧ (DryRun n pindexLast ∨ ∃ velocityType prevVelocityType rest,
      getLastBlockIndex fProofOfStake chain = velocityType :: prevVelocityType :: rest ∧
      let c : RetargetCase :=
        ⟨pindexLast, velocityType, prevVelocityType, prevDiffBelowOneWith id n fProofOfStake⟩
      ¬ c.SixthRound chain ∧ (c.Resets ∨ ⌊10000 * (meanFactor chain / c.divisor)⌋ ≤ setCompact velocityType.nBits))

end PupaCoin
