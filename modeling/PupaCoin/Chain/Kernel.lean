import PupaCoin.Chain.Inputs

/-!
# The proof-of-stake kernel (`kernel.cpp`)

A coinstake proves its stake by the hash of its first input under the stake modifier of the previous
block. The transaction of that input is looked up in the committed index, which is the index of the
active chain; its age is judged on the chain of the previous block.
-/

namespace PupaCoin

def stakeTimestampMask : Nat := 15

def checkCoinStakeTimestamp (nTimeBlock nTimeTx : Int) : Bool :=
  decide (nTimeBlock = nTimeTx) && decide (nTimeTx % (stakeTimestampMask + 1) = 0)

/-- `CheckStakeKernelHash`: the proof hash, where it meets the target weighted with the value staked. -/
def checkStakeKernelHash (env : Env) (pindexPrev : CBlockIndex) (nBits : UInt32) (txPrev : CTransaction)
    (prevout : COutPoint) (nTimeTx : UInt32) : Except Stop UInt256 := do
  rejectIf (decide (nTimeTx < txPrev.nTime)) 1 "CheckStakeKernelHash() : nTime violation"
  let txout ← orUndefined txPrev.vout[prevout.n.toNat]? "txPrev.vout[prevout.n]"
  let bnTarget := setCompact nBits * txout.nValue
  let hashProofOfStake := env.hashKernel pindexPrev.bnStakeModifierV2 txPrev.nTime prevout nTimeTx
  rejectIf (decide ((hashProofOfStake.toNat : Int) > bnTarget)) 1
    "CheckProofOfStake() : INFO: check kernel failed on coinstake"
  return hashProofOfStake

/-- `CheckProofOfStake` on the chain of the previous block: the proof hash. -/
def checkProofOfStake (env : Env) (n : Node) (pindexPrev : List CBlockIndex) (tx : CTransaction)
    (nBits : UInt32) : Except Stop UInt256 := do
  rejectIf (!tx.isCoinStake) 0 "CheckProofOfStake() : called on non-coinstake"
  let txin ← orUndefined tx.vin.head? "vin[0]"
  match CTransaction.readFromDisk n n.pdb.readTxIndex txin.prevout with
  | none => throw (.reject 1 "CheckProofOfStake() : INFO: read txPrev failed")
  | some (txPrev, txindex) =>
    rejectIf (!env.verifySignature txPrev tx 0 scriptVerifyNone) 100
      "CheckProofOfStake() : VerifySignature failed on coinstake"
    rejectIf (n.files.readHeader txindex.pos.nFile txindex.pos.nBlockPos).isNone 0
      "CheckProofOfStake() : read block failed"
    rejectIf (isConfirmedInNPrevBlocks txindex pindexPrev (nStakeMinConfirmations - 1)).isSome 100
      "CheckProofOfStake() : tried to stake at depth"
    let prev ← orUndefined pindexPrev.head? "pindexPrev"
    checkStakeKernelHash env prev nBits txPrev txin.prevout tx.nTime

/-- `CheckKernel` on the chain of the previous block. The time is cut to the 32 bits of a transaction
    time. -/
def checkKernel (env : Env) (n : Node) (pindexPrev : List CBlockIndex) (nBits : UInt32) (nTime : Int)
    (prevout : COutPoint) : Except Stop UInt256 := do
  match CTransaction.readFromDisk n n.pdb.readTxIndex prevout with
  | none => throw (.reject 0 "")
  | some (txPrev, txindex) =>
    rejectIf (n.files.readHeader txindex.pos.nFile txindex.pos.nBlockPos).isNone 0 ""
    rejectIf (isConfirmedInNPrevBlocks txindex pindexPrev (nStakeMinConfirmations - 1)).isSome 0 ""
    let prev ← orUndefined pindexPrev.head? "pindexPrev"
    checkStakeKernelHash env prev nBits txPrev prevout (UInt32.ofInt nTime)

end PupaCoin
