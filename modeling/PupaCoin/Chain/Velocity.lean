import PupaCoin.Chain.Inputs

/-!
# Velocity and rolling checkpoints (`velocity.cpp`)

Velocity limits the rate of blocks and, from a height on, re-checks the values of a block's
transactions against the index in a database handle of its own.
-/

namespace PupaCoin

def factorToggle (params : CChainParams) (nHeight : Int) : Bool :=
  params.testNet || decide (nHeight > 500)

/-- `VelocityI`: the height itself; `VELOCITY_FACTOR` is switched on and never off again. -/
def velocityI (env : Env) (nHeight : Int) : NodeM Int := do
  Exec.update fun n => { n with velocityFactor := n.velocityFactor || factorToggle env.params nHeight }
  return nHeight

def velocityCheck (env : Env) (nHeight : Int) : NodeM Bool := do
  let i ← velocityI env nHeight
  return decide (i ≥ env.velocity.height nHeight)

/-- One round of `tx_Factor`: the inputs are fetched from the committed index, through a handle that
    does not see the batch in progress. -/
def txFactorStep (n : Node) (values : Int × Int) (tx : CTransaction) : Except Stop (Int × Int) := do
  let mapInputs ← tx.fetchInputs n n.pdb.readTxIndex ∅ true false
  let txMapIn ← tx.getValueMapIn mapInputs
  let txMapOut ← tx.getValueOut
  let txInputs ← addI64 values.1 txMapIn
  rejectIf (txInputs < 0) 0
    "DENIED: overflow detected tx_inputs_values + tx.GetValueMapIn(mapInputs)"
  let txOutputs ← addI64 values.2 txMapOut
  rejectIf (txOutputs < 0) 0 "DENIED: overflow detected tx_outputs_values + tx.GetValueOut()"
  return (txInputs, txOutputs)

def txFactor (n : Node) (prevBlock : CBlockIndex) (block : CBlock) : Except Stop Unit := do
  let txThreshold ← if block.isProofOfStake then getProofOfStakeReward n prevBlock 0 0
    else getProofOfWorkReward n (prevBlock.nHeight + 1) 0
  let values ← block.vtx.foldlM (txFactorStep n) (0, 0)
  rejectIf (values.1 + txThreshold < values.2) 0
    "DENIED: block contains a tx input that is less that output"

/-- The checks of `Velocity` on the spacing of the blocks and on their times. `i` indexes the
    tables; `prevTime` is the time of the block before `prevBlock`. -/
def velocityTimes (env : Env) (ext : Ext) (i : Int) (prevBlock : CBlockIndex) (prevTime : Int)
    (block : CBlock) : Except Stop Unit := do
  let minRate := env.velocity.minRate i
  let txRate := block.getBlockTime - prevBlock.getBlockTime
  let curValStamp := prevBlock.getBlockTime + minRate
  let oldValStamp := prevTime + minRate
  rejectIf (decide (env.velocity.rate i > 0) && decide (txRate < minRate)) 0
    "DENIED: Minimum block spacing not met for Velocity"
  rejectIf (!decide (env.velocity.rate i > 0) && (decide (block.getBlockTime < curValStamp)
    || decide (prevBlock.getBlockTime < oldValStamp))) 0 "DENIED: Block timestamp is not logical"
  rejectIf (decide (block.getBlockTime > ext.getTime + minRate)
    || decide (block.getBlockTime > ext.getAdjustedTime + minRate)) 0
    "DENIED: Block timestamp is not logical"
  rejectIf (env.velocity.explicit i && (decide (env.velocity.minTx i > 0)
    || decide (env.velocity.minValue i > 0) || decide (env.velocity.minFee i > 0))) 0 ""

/-- `Velocity` for a block on top of `hprev`. -/
def velocity (env : Env) (hprev : UInt256) (block : CBlock) (fFactorTx : Bool) : NodeM Unit := do
  let prevBlock ← deref hprev
  let i ← velocityI env (prevBlock.nHeight + 1)
  let n ← Exec.read
  let prevprev ← Exec.lift
    (orUndefined (prevBlock.pprev.bind n.mapBlockIndex.entries) "prevBlock->pprev")
  if n.velocityFactor && fFactorTx then Exec.lift (txFactor n prevBlock block)
  Exec.lift (velocityTimes env n.ext i prevBlock prevprev.getBlockTime block)

/-- `RollingCheckpoints`: the block 121 below the best one becomes the rolling checkpoint. -/
def rollingCheckpoints (nHeight : Int) : NodeM Bool := do
  if nHeight < 500 then return false
  else
    let n ← Exec.read
    let past ← Exec.lift (orUndefined ((n.mapBlockIndex.chain? n.pindexBest).drop
      (blockTempCheckpointDepth + blockReorgThreshold).toNat).head? "pindexPastBlock")
    Exec.update fun n => { n with rollingBlock := past.phashBlock, rollingHeight := past.nHeight }
    return true

/-- `bIndex_Factor`: the supply recorded at the end of the branch against that at the fork. -/
def bIndexFactor (inSplitPoint inSplitEnd : CBlockIndex) (inFactor : Nat) : Bool :=
  !decide ((inSplitPoint.nMoneySupply + coin * inFactor).tdiv coin < inSplitEnd.nMoneySupply.tdiv coin)

/-!
## The tables of Velocity and their bounds (`velocity.h`, `velocity.cpp`)

The `VELOCITY_*` tables as they are declared, and what Velocity promises: that it stays in them, that blocks are apart,
and that their values agree.
-/

def velocityHeightTable : List Int := [175]
def velocityRateTable : List Int := [blockSpacing]
def velocityMinRateTable : List Int := [blockSpacingMin]
def velocityMinTxTable : List Int := [0]
def velocityMinValueTable : List Int := [coin / 100]
def velocityMinFeeTable : List Int := [coin / 10000]
def velocityExplicitTable : List Bool := [false]

def readTable {α : Type} (table : List α) (i : Int) (what : String) : Except Stop α :=
  if i < 0 then .error (.undefined what) else orUndefined table[i.toNat]? what

/-- `Velocity_check`, where reading beyond the table is undefined. -/
def velocityCheckInBounds (nHeight : Int) : Except Stop Bool := do
  let height ← readTable velocityHeightTable nHeight "VELOCITY_HEIGHT[nHeight]"
  return decide (nHeight ≥ height)

/-- `velocityTimes`, where reading beyond the tables is undefined. -/
def velocityTimesInBounds (ext : Ext) (i : Int) (prevBlock : CBlockIndex) (prevTime : Int) (block : CBlock) :
    Except Stop Unit := do
  let minRate ← readTable velocityMinRateTable i "VELOCITY_MIN_RATE[i]"
  let txRate := block.getBlockTime - prevBlock.getBlockTime
  let curValStamp := prevBlock.getBlockTime + minRate
  let oldValStamp := prevTime + minRate
  let rate ← readTable velocityRateTable i "VELOCITY_RATE[i]"
  rejectIf (decide (rate > 0) && decide (txRate < minRate)) 0
    "DENIED: Minimum block spacing not met for Velocity"
  rejectIf (!decide (rate > 0) && (decide (block.getBlockTime < curValStamp)
    || decide (prevBlock.getBlockTime < oldValStamp))) 0 "DENIED: Block timestamp is not logical"
  rejectIf (decide (block.getBlockTime > ext.getTime + minRate)
    || decide (block.getBlockTime > ext.getAdjustedTime + minRate)) 0
    "DENIED: Block timestamp is not logical"
  if ← readTable velocityExplicitTable i "VELOCITY_EXPLICIT[i]" then
    let minTx ← readTable velocityMinTxTable i "VELOCITY_MIN_TX[i]"
    rejectIf (minTx > 0) 0 ""
    let minValue ← readTable velocityMinValueTable i "VELOCITY_MIN_VALUE[i]"
    rejectIf (minValue > 0) 0 ""
    let minFee ← readTable velocityMinFeeTable i "VELOCITY_MIN_FEE[i]"
    rejectIf (minFee > 0) 0 ""

/-- The inputs and outputs of the transactions add up, and with the reward the outputs are covered. -/
def TotalsAgree (n : Node) (prevBlock : CBlockIndex) (block : CBlock) : Prop :=
  ∃ txInputs txOutputs txThreshold, block.vtx.foldlM (txFactorStep n) (0, 0) = .ok (txInputs, txOutputs) ∧
    (if block.isProofOfStake then getProofOfStakeReward n prevBlock 0 0
      else getProofOfWorkReward n (prevBlock.nHeight + 1) 0) = .ok txThreshold ∧
    txOutputs ≤ txInputs + txThreshold

/-- What is promised of `Velocity` for a block on top of `prevBlock`: the tables are read within their bounds, and an
    accepted block keeps the minimum spacing and has values that agree. -/
structure VelocityKeeps (env : Env) (n : Node) (hprev : UInt256) (prevBlock : CBlockIndex) (block : CBlock)
    (fFactorTx : Bool) : Prop where
  check : ∃ active, velocityCheckInBounds (prevBlock.nHeight + 1) = .ok active
  times : ∀ ext prevTime what, velocityTimesInBounds ext (prevBlock.nHeight + 1) prevBlock prevTime block
    ≠ .error (.undefined what)
  spacing : (velocity env hprev block fFactorTx n).1 = .ok () →
    prevBlock.getBlockTime + blockSpacingMin ≤ block.getBlockTime
  totals : (velocity env hprev block fFactorTx n).1 = .ok () → fFactorTx = true →
    (velocity env hprev block fFactorTx n).2.velocityFactor = true →
    TotalsAgree (velocity env hprev block fFactorTx n).2 prevBlock block

end PupaCoin
