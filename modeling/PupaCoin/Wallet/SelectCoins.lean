import PupaCoin.Chain.Transaction
import PupaCoin.Lib.Flags
import Mathlib.Data.List.AList

/-!
# The coins of a wallet (`wallet.cpp`, `coincontrol.h`)

The outputs that a payment may spend, and the selection among them: the coins that the user has chosen, or a
subset that a randomized solver finds.
-/

namespace PupaCoin

inductive IsMineType where
  | no
  | watchOnly
  | spendable
deriving DecidableEq, Repr

inductive AvailableCoinsType where
  | allCoins
  | onlyNot10000IfMN
  | onlyNondenominatedNot10000IfMN
deriving DecidableEq, Repr

/-- What the selection reads of a `CWalletTx`. -/
structure CWalletTx where
  tx : CTransaction
  fFinal : Bool
  fTrusted : Bool
  nBlocksToMaturity : Int
  nDepth : Int
  fFromMe : Bool
  fSpent : Nat → Bool

/-- What the creation of a transaction reads of the wallet and of the node it belongs to. -/
structure CWallet where
  mapWallet : AList fun _ : UInt256 => CWalletTx
  isMine : CTxOut → IsMineType
  fLockedCoin : UInt256 → Nat → Bool
  fMasterNode : Bool
  /-- `MasternodeCollateral(pindexBest->nHeight)`. -/
  masternodeCollateral : Int
  nTransactionFee : Int

/-- `CCoinControl`; `destChange` is the script of the destination, where there is one. -/
structure CCoinControl where
  setSelected : List COutPoint
  destChange : Option CScript

def CCoinControl.hasSelected (coinControl : CCoinControl) : Bool := !coinControl.setSelected.isEmpty

/-- An output of a transaction of the wallet: what stands behind a pointer to it and an index. -/
structure CoinRef where
  hash : UInt256
  n : Nat
  nValue : Int
deriving DecidableEq, Repr

def CoinRef.outPoint (coin : CoinRef) : COutPoint := ⟨coin.hash, UInt32.ofNat coin.n⟩

structure COutput where
  tx : CWalletTx
  ref : CoinRef
  nDepth : Int
  fSpendable : Bool

section Available

variable (w : CWallet) (coinControl : Option CCoinControl) (coinType : AvailableCoinsType) (useIX : Bool)

def isCollateralAmount (nInputAmount : Int) : Bool :=
  nInputAmount != 0 && nInputAmount.tmod coin == 0 && decide (nInputAmount < coin * 5)
    && decide (nInputAmount > coin)

/-- The checks of `AvailableCoins` on a transaction. -/
def CWalletTx.isAvailable (pcoin : CWalletTx) : Bool :=
  pcoin.fFinal && pcoin.fTrusted
    && !((pcoin.tx.isCoinBase || pcoin.tx.isCoinStake) && decide (pcoin.nBlocksToMaturity > 0))
    && decide (0 < pcoin.nDepth) && !(useIX && decide (pcoin.nDepth < 10))

/-- The amount is of the type that is looked for. -/
def amountFits (nValue : Int) : Bool :=
  match coinType with
  | .onlyNot10000IfMN => !(w.fMasterNode || nValue == w.masternodeCollateral * coin)
  | .onlyNondenominatedNot10000IfMN =>
    !isCollateralAmount nValue && nValue != w.masternodeCollateral * coin && nValue != 0
  | .allCoins => true

/-- The output with number `i` of a transaction, if it may be spent. -/
def availableOutput (hash : UInt256) (pcoin : CWalletTx) (i : Nat) (txout : CTxOut) : Option COutput :=
  let mine := w.isMine txout
  let fSelected :=
    match coinControl with
    | none => true
    | some control => !control.hasSelected || control.setSelected.contains ⟨hash, UInt32.ofNat i⟩
  if amountFits w coinType txout.nValue && !pcoin.fSpent i && mine != .no && !w.fLockedCoin hash i
      && decide (txout.nValue > 0) && fSelected then
    some ⟨pcoin, ⟨hash, i, txout.nValue⟩, pcoin.nDepth, mine == .spendable⟩
  else none

/-- `AvailableCoins`, of the confirmed transactions. -/
def availableCoins : List COutput :=
  w.mapWallet.entries.flatMap fun entry =>
    if entry.2.isAvailable useIX then
      entry.2.tx.vout.zipIdx.filterMap fun (txout, i) =>
        availableOutput w coinControl coinType entry.1 entry.2 i txout
    else []

end Available

/-- What `ApproximateBestSubset` keeps: the subset it tries with its sum, and the best one so far. -/
structure Subset where
  vfIncluded : List Bool
  nTotal : Int
  fReachedTarget : Bool
  vfBest : List Bool
  nBest : Int

section Solver

variable (nTargetValue : Int)

/-- A coin is tried: it stays in the subset unless the target is reached with it. The sums are those of
    subsets, no larger than `nTotalLower`. -/
def Subset.tryCoin (st : Subset) (i : Nat) (nValue : Int) : Subset :=
  let nTotal := st.nTotal + nValue
  let vfIncluded := st.vfIncluded.set i true
  if nTotal ≥ nTargetValue then
    { vfIncluded := vfIncluded.set i false
      nTotal := nTotal - nValue
      fReachedTarget := true
      vfBest := if nTotal < st.nBest then vfIncluded else st.vfBest
      nBest := if nTotal < st.nBest then nTotal else st.nBest }
  else { st with vfIncluded := vfIncluded, nTotal := nTotal }

/-- One pass over the coins, from number `i` on. -/
def Subset.pass (wanted : Nat → Subset → Bool) : Nat → List CoinRef → Subset → Subset
  | _, [], st => st
  | i, c :: rest, st =>
    Subset.pass wanted (i + 1) rest (if wanted i st then st.tryCoin nTargetValue i c.nValue else st)

/-- One repetition: a random pass, and a second one over the coins that are left. -/
def Subset.repetition (vValue : List CoinRef) (insecureRand : Nat → Bool) (st : Subset) : Subset :=
  let st : Subset :=
    { st with vfIncluded := List.replicate vValue.length false, nTotal := 0, fReachedTarget := false }
  let st := Subset.pass nTargetValue (fun i _ => insecureRand i) 0 vValue st
  if st.fReachedTarget then st
  else Subset.pass nTargetValue (fun i st => st.vfIncluded[i]? == some false) 0 vValue st

def Subset.repeat (vValue : List CoinRef) (insecureRand : Nat → Nat → Bool) : Nat → Nat → Subset → Subset
  | 0, _, st => st
  | iterations + 1, nRep, st =>
    if st.nBest = nTargetValue then st
    else Subset.repeat vValue insecureRand iterations (nRep + 1)
      (Subset.repetition nTargetValue vValue (insecureRand nRep) st)

/-- `ApproximateBestSubset`: the best subset and its sum. -/
def approximateBestSubset (insecureRand : Nat → Nat → Bool) (vValue : List CoinRef) (nTotalLower : Int)
    (iterations : Nat) : List Bool × Int :=
  let st := Subset.repeat nTargetValue vValue insecureRand iterations 0
    ⟨[], 0, false, List.replicate vValue.length true, nTotalLower⟩
  (st.vfBest, st.nBest)

end Solver

/-- The random choices of one `SelectCoinsMinConf`: `random_shuffle`, the order in which `sort` leaves the
    coins, and the bits for the two calls of the solver. -/
structure SelectionChoices where
  shuffle : (coins : List COutput) → { shuffled : List COutput // shuffled.Perm coins }
  sort : (coins : List CoinRef) →
    { sorted : List CoinRef // sorted.Perm coins ∧ sorted.Pairwise fun c d => d.nValue ≤ c.nValue }
  insecureRand : Nat → Nat → Bool
  insecureRand' : Nat → Nat → Bool

/-- The coins that have been looked at: those below the target or little above it, with their sum, and the
    lowest of the others. -/
structure LowerCoins where
  vValue : List CoinRef
  nTotalLower : Int
  coinLowestLarger : Option CoinRef

/-- The loop of `SelectCoinsMinConf` over the coins: a coin that is the target itself, or all of them. -/
def scanCoins (nTargetValue : Int) (fits : COutput → Bool) : List COutput → LowerCoins →
    Except Stop (CoinRef ⊕ LowerCoins)
  | [], st => .ok (.inr st)
  | output :: rest, st =>
    let n := output.ref.nValue
    if ¬ fits output then scanCoins nTargetValue fits rest st
    else if n = nTargetValue then .ok (.inl output.ref)
    else do
      if n < (← addI64 nTargetValue cent) then
        let nTotalLower ← addI64 st.nTotalLower n
        scanCoins nTargetValue fits rest
          { st with vValue := st.vValue ++ [output.ref], nTotalLower := nTotalLower }
      else if n < (st.coinLowestLarger.map CoinRef.nValue).getD (2 ^ 63 - 1) then
        scanCoins nTargetValue fits rest { st with coinLowestLarger := some output.ref }
      else scanCoins nTargetValue fits rest st

/-- The coin that is larger is taken, where there is one and the solver has found nothing better. -/
def takesLarger (nTargetValue nBest : Int) (coinLowestLarger : Option CoinRef) : Except Stop Bool :=
  match coinLowestLarger with
  | none => .ok false
  | some larger => do
    if nBest ≠ nTargetValue then
      if nBest < (← addI64 nTargetValue cent) then return true
    return decide (larger.nValue ≤ nBest)

/-- The subset that the solver finds, for the target and then for a cent more. -/
def solveSubset (choices : SelectionChoices) (nTargetValue : Int) (vValue : List CoinRef)
    (nTotalLower : Int) : Except Stop (List Bool × Int) := do
  let best := approximateBestSubset nTargetValue choices.insecureRand vValue nTotalLower 1000
  if best.2 = nTargetValue then return best
  else if nTotalLower ≥ (← addI64 nTargetValue cent) then
    return approximateBestSubset (nTargetValue + cent) choices.insecureRand' vValue nTotalLower 1000
  else return best

abbrev Selection := List CoinRef × Int

def sumCoins (coins : List CoinRef) : Int := (coins.map CoinRef.nValue).sum

/-- `SelectCoinsMinConf`; `none` where it returns false. The sums are no larger than `nTotalLower`. -/
def selectCoinsMinConf (choices : SelectionChoices) (nTargetValue : Int) (nSpendTime : UInt32)
    (nConfMine nConfTheirs : Int) (vCoins : List COutput) : Except Stop (Option Selection) := do
  let fits (output : COutput) : Bool :=
    output.fSpendable && !decide (output.nDepth < if output.tx.fFromMe then nConfMine else nConfTheirs)
      && !decide (output.tx.tx.nTime > nSpendTime)
  match ← scanCoins nTargetValue fits (choices.shuffle vCoins).val ⟨[], 0, none⟩ with
  | .inl c => return some ([c], c.nValue)
  | .inr st =>
    if st.nTotalLower = nTargetValue then return some (st.vValue, sumCoins st.vValue)
    else if st.nTotalLower < nTargetValue then
      return st.coinLowestLarger.map fun larger => ([larger], larger.nValue)
    else
      let vValue := (choices.sort st.vValue).val
      let (vfBest, nBest) ← solveSubset choices nTargetValue vValue st.nTotalLower
      match st.coinLowestLarger, ← takesLarger nTargetValue nBest st.coinLowestLarger with
      | some larger, true => return some ([larger], larger.nValue)
      | _, _ => return some (Flags.pick vValue vfBest, sumCoins (Flags.pick vValue vfBest))

/-- `SelectCoins`; the choices are those of its three attempts. -/
def selectCoins (w : CWallet) (choices : Nat → SelectionChoices) (coinControl : Option CCoinControl)
    (coinType : AvailableCoinsType) (useIX : Bool) (nTargetValue : Int) (nSpendTime : UInt32) :
    Except Stop (Option Selection) := do
  let vCoins := availableCoins w coinControl coinType useIX
  if (coinControl.map CCoinControl.hasSelected).getD false then
    let coins := (vCoins.filter COutput.fSpendable).map COutput.ref
    let nValueRet ← coins.foldlM (fun nValueRet c => addI64 nValueRet c.nValue) 0
    return if nValueRet ≥ nTargetValue then some (coins, nValueRet) else none
  else
    match ← selectCoinsMinConf (choices 0) nTargetValue nSpendTime 1 10 vCoins with
    | some selection => return some selection
    | none =>
      match ← selectCoinsMinConf (choices 1) nTargetValue nSpendTime 1 1 vCoins with
      | some selection => return some selection
      | none => selectCoinsMinConf (choices 2) nTargetValue nSpendTime 0 1 vCoins

/-- The outputs that `SelectCoinsMinConf` looks at. -/
def COutput.isEligible (nSpendTime : UInt32) (nConfMine nConfTheirs : Int) (output : COutput) : Bool :=
  output.fSpendable && !decide (output.nDepth < if output.tx.fFromMe then nConfMine else nConfTheirs)
    && !decide (output.tx.tx.nTime > nSpendTime)

/-- Distinct coins, among those that are eligible, with their sum, which reaches the target. Where a coin of a cent more
than the target or above is eligible, the sum is no more than it, and the change is nothing or a cent at least. -/
structure MinConfSelection (nTargetValue : Int) (eligible : List CoinRef) (selection : Selection) : Prop where
  distinct : (selection.1.map fun c => (c.hash, c.n)).Nodup
  mem : ∀ c ∈ selection.1, c ∈ eligible
  total : selection.2 = sumCoins selection.1
  reached : nTargetValue ≤ selection.2
  change : ∀ c ∈ eligible, nTargetValue + cent ≤ c.nValue →
    selection.2 ≤ c.nValue ∧ (selection.2 - nTargetValue = 0 ∨ cent ≤ selection.2 - nTargetValue)

/-- What a function has returned with the coins that are eligible. -/
def MinConfResult (nTargetValue : Int) (eligible : List CoinRef) (result : Option Selection) : Prop :=
  (result = none ↔ sumCoins eligible < nTargetValue) ∧
    ∀ selection, result = some selection → MinConfSelection nTargetValue eligible selection

end PupaCoin
