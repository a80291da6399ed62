import PupaCoin.Chain.Kernel
import PupaCoin.Chain.Supply
import PupaCoin.Lib.DependencyOrder
import PupaCoin.Wallet.CreateTransaction
import PupaCoin.Wallet.KeyStore

/-!
# Staking (`wallet.cpp`, `main.cpp`)

`CreateCoinStake` looks for a kernel among the coins of the wallet, merges further coins with it, and pays the
reward to the stake, to a masternode and to the developers. `SignBlock` turns a block template into a
proof-of-stake block with the coinstake.
-/

namespace PupaCoin

/-- `nStakeMinAge`, which is written as the integer division of 2 by 60. -/
def nStakeMinAge : Int := 2 / 60

def getWeight (nIntervalBeginning nIntervalEnd : Int) : Int := nIntervalEnd - nIntervalBeginning - nStakeMinAge

def nMaxStakeSearchInterval : Int := 60

def startMasternodePayments : Int := 1554494400
def stopMasternodePayments : Int := 9993058800
def startMasternodePaymentsTestnet : Int := 9993058800
def stopMasternodePaymentsTestnet : Int := 9993058800

/-- The time of the best block from which on `CreateCoinStake` pays the developers. -/
def devOpsActivation : Int := 1546123500

/-- An output of a transaction of the wallet: what stands behind a pointer to it and an index. -/
structure StakeCoin where
  tx : CTransaction
  n : UInt32
  n_lt : n.toNat < tx.vout.length
  size_lt : tx.vout.length < 2 ^ 32
deriving DecidableEq

namespace StakeCoin

def txout (c : StakeCoin) : CTxOut := c.tx.vout.get ⟨c.n.toNat, c.n_lt⟩

def outPoint (env : Env) (c : StakeCoin) : COutPoint := ⟨env.getHash c.tx, c.n⟩

/-- The input that spends the coin, before it is signed. -/
def txin (env : Env) (c : StakeCoin) : CTxIn := ⟨c.outPoint env, [], 0xffffffff⟩

end StakeCoin

/-- The wallet as `CreateCoinStake` and `SignBlock` see it, and its settings. -/
structure StakeWallet where
  nReserveBalance : Int
  /-- `GetArg("-stakethreshold", 1000)`. -/
  nStakeThreshold : Int
  getBalance : Int
  /-- `SelectCoinsForStaking`: the coins in the order of the set. -/
  selectCoinsForStaking : Int → UInt32 → Option (List StakeCoin)
  solver : CScript → Option (TxnOutType × List (List UInt8))
  toKeyID : List UInt8 → BitVec 160
  hash160 : List UInt8 → BitVec 160
  getKey : BitVec 160 → Option CKey
  getPubKey : CKey → CPubKey
  /-- `SignSignature(*this, txFrom, txTo, nIn)`: the script it puts into the input. -/
  signSignature : CTransaction → CTransaction → Nat → Option CScript
  /-- `CKey::Sign`. -/
  sign : CKey → UInt256 → Option (List UInt8)

/-- What `CreateCoinStake` reads to find the payees. -/
structure Payees where
  /-- `mnodeman.GetCurrentMasterNode(1)` finds one. -/
  fCurrentMasterNode : Bool
  fInitialBlockDownload : Bool
  /-- `CMasternodePayments::ProcessBlock`: the payees of `vWinning` afterwards, `none` where it fails. -/
  processBlock : Int → Option (List CScript)
  /-- `CBitcoinAddress(address).IsValid()`. -/
  isValidAddress : String → Bool
  /-- `GetScriptForDestination(CBitcoinAddress(address).Get())`. -/
  getScriptForAddress : String → CScript

namespace Payees

/-- `GetWinningMasternode`: the payee of the last winner. `payee` comes as an empty script, and stays one where
    there is no winner. -/
def getWinningMasternode (p : Payees) (nBlockHeight : Int) : Option CScript :=
  if p.fInitialBlockDownload || !p.fCurrentMasterNode then none
  else (p.processBlock nBlockHeight).map fun vWinning => vWinning.foldl (fun _ payee => payee) []

/-- The address of the developers that `CreateCoinStake` has for a network. -/
def devopAddress (params : CChainParams) : String :=
  match params.networkID with
  | .main => "PTUzfmVxBk6eZFa3J3JJeCyru8oCbZJuPx"
  | .testnet => ""
  | .regtest => ""

/-- The script of the masternode payment: that of the winner, else that of the developers. -/
def payee (params : CChainParams) (p : Payees) (nBlockHeight : Int) : CScript :=
  if p.fCurrentMasterNode then
    match p.getWinningMasternode nBlockHeight with
    | some payee => payee
    | none => p.getScriptForAddress (devopAddress params)
  else p.getScriptForAddress (devopAddress params)

end Payees

/-- Whether payments are made at a time, of those that start and stop at the times for the network. -/
def paymentsDue (params : CChainParams) (startTestnet stopTestnet start stop getTime : Int) : Bool :=
  if params.testNet then decide (getTime > startTestnet) && !decide (getTime > stopTestnet)
  else decide (getTime > start) && !decide (getTime > stop)

def bMasterNodePayment (params : CChainParams) (getTime : Int) : Bool :=
  paymentsDue params startMasternodePaymentsTestnet stopMasternodePaymentsTestnet startMasternodePayments
    stopMasternodePayments getTime

def bDevOpsPayment (params : CChainParams) (getTime : Int) : Bool :=
  paymentsDue params startDevopsPaymentsTestnet stopDevopsPaymentsTestnet startDevopsPayments
    stopDevopsPayments getTime

/-- The script of the payment to the developers, where there is one. -/
def devpayee? (params : CChainParams) (p : Payees) (getTime nBestTime : Int) : Except Stop (Option CScript) :=
  if bDevOpsPayment params getTime then
    if p.isValidAddress (Payees.devopAddress params) then
      .ok (if nBestTime > devOpsActivation then some (p.getScriptForAddress (Payees.devopAddress params)) else none)
    else .error (.reject 0 "CreateCoinStake: Failed to detect dev address to pay\n")
  else .ok none

/-- The script of the masternode payment, where there is one. -/
def payee? (params : CChainParams) (p : Payees) (getTime nBlockHeight : Int) : Option CScript :=
  if bMasterNodePayment params getTime then some (p.payee params nBlockHeight) else none

/-- A kernel that was found: its coin, the script of the outputs for it, the key, and the time. -/
structure StakeKernel where
  coin : StakeCoin
  scriptPubKeyOut : CScript
  key : CKey
  nTime : UInt32

/-- What `CreateCoinStake` has made when it returns true; `coins` are those behind `vwtxPrev`. -/
structure CoinStake where
  txNew : CTransaction
  key : CKey
  coins : List StakeCoin
deriving DecidableEq

section Create

variable (env : Env) (n : Node) (w : StakeWallet)

def StakeWallet.getStakeCombineThreshold : Except Stop Int := mulI64 w.nStakeThreshold coin

def StakeWallet.getStakeSplitThreshold : Except Stop Int := do
  let nCombine ← w.getStakeCombineThreshold
  mulI64 2 nCombine

/-- The outputs for a kernel are paid to its public key, for which the wallet has the key. -/
def StakeWallet.kernelOutput (scriptPubKeyKernel : CScript) : Except Stop (Option (CScript × CKey)) :=
  match w.solver scriptPubKeyKernel with
  | some (.pubkeyhash, vSolutions) => do
    let solution ← orUndefined vSolutions.head? "vSolutions[0]"
    return (w.getKey (w.toKeyID solution)).map fun key =>
      (CScript.pushData (w.getPubKey key) ++ [UInt8.ofNat CScript.opCheckSig], key)
  | some (.pubkey, vSolutions) => do
    let vchPubKey ← orUndefined vSolutions.head? "vSolutions[0]"
    return (w.getKey (w.hash160 vchPubKey)).bind fun key =>
      if w.getPubKey key != vchPubKey then none else some (scriptPubKeyKernel, key)
  | _ => .ok none

/-- The search of the times back from that of the transaction: the first one for which the coin is a kernel. A
    kernel that cannot be used ends the search for its coin. -/
def searchTimes (pindexPrev : List CBlockIndex) (nBits nTime : UInt32) (c : StakeCoin) :
    List Nat → Except Stop (Option StakeKernel)
  | [] => .ok none
  | k :: ks =>
    let nTimeTx := nTime - UInt32.ofNat k
    match checkKernel env n pindexPrev nBits nTimeTx.toNat (c.outPoint env) with
    | .ok _ => do
      let out ← w.kernelOutput c.txout.scriptPubKey
      return out.map fun out => ⟨c, out.1, out.2, nTimeTx⟩
    | .error (.reject _ _) => searchTimes pindexPrev nBits nTime c ks
    | .error e => .error e

def searchCoins (pindexPrev : List CBlockIndex) (nBits nTime : UInt32) (times : List Nat) :
    List StakeCoin → Except Stop (Option StakeKernel)
  | [] => .ok none
  | c :: coins => do
    match ← searchTimes env n w pindexPrev nBits nTime c times with
    | some kernel => return some kernel
    | none => searchCoins pindexPrev nBits nTime times coins

/-- The coin has the script of the kernel or of the outputs for it, and is of another transaction. -/
def mayMerge (kernel : StakeKernel) (c : StakeCoin) : Bool :=
  (c.txout.scriptPubKey == kernel.coin.txout.scriptPubKey || c.txout.scriptPubKey == kernel.scriptPubKeyOut)
    && env.getHash c.tx != env.getHash kernel.coin.tx

/-- The loop that adds inputs: the coins and their value. -/
def mergeCoins (kernel : StakeKernel) (nLimit : Int) :
    List StakeCoin → List StakeCoin × Int → Except Stop (List StakeCoin × Int)
  | [], merged => .ok merged
  | c :: rest, merged =>
    if mayMerge env kernel c then
      if merged.1.length ≥ 100 then .ok merged
      else do
        let nCombine ← w.getStakeCombineThreshold
        if merged.2 ≥ nCombine then return merged
        else
          let nCredit ← addI64 merged.2 c.txout.nValue
          if nCredit > nLimit then return merged
          else if c.txout.nValue ≥ nCombine then mergeCoins kernel nLimit rest merged
          else if getWeight c.tx.nTime.toNat kernel.nTime.toNat < nStakeMinAge then
            mergeCoins kernel nLimit rest merged
          else mergeCoins kernel nLimit rest (merged.1 ++ [c], nCredit)
    else mergeCoins kernel nLimit rest merged

end Create

def setValue (i : Nat) (nValue : Int) (vout : List CTxOut) : List CTxOut :=
  vout.modify i fun txout => { txout with nValue }

/-- The value that is left for the stake, in one output or, where the stake was split, in two. -/
def setStakeValues (fSplit : Bool) (blockValue : Int) (vout : List CTxOut) : List CTxOut :=
  if fSplit then
    let half := (blockValue.tdiv 2).tdiv cent * cent
    setValue 2 (blockValue - half) (setValue 1 half vout)
  else setValue 1 blockValue vout

/-- The values of the outputs. `payments` and `devoppay` are the numbers of outputs up to the two payments. By
    the number of outputs the code tells whether the stake was split. -/
def setAmounts (hasPayment hasdevopsPay : Bool) (payments devoppay : Nat)
    (blockValue masternodePayment devopsPayment : Int) (vout : List CTxOut) : List CTxOut :=
  let nUnsplit := 2 + hasPayment.toNat + hasdevopsPay.toNat
  if vout.length = nUnsplit + 1 ∨ vout.length = nUnsplit then
    let paid := if hasPayment then setValue (payments - 1) masternodePayment vout else vout
    let blockValue := if hasPayment then blockValue - masternodePayment else blockValue
    let paid := if hasdevopsPay then setValue (devoppay - 1) devopsPayment paid else paid
    let blockValue := if hasdevopsPay then blockValue - devopsPayment else blockValue
    setStakeValues (vout.length == nUnsplit + 1) blockValue paid
  else vout

/-- The outputs: those for the stake, then the payments, and their values. -/
def stakeOutputs (scriptPubKeyOut : CScript) (fSplit : Bool) (payee devpayee : Option CScript)
    (blockValue masternodePayment devopsPayment : Int) : List CTxOut :=
  let stake : List CTxOut := [⟨0, []⟩, ⟨0, scriptPubKeyOut⟩] ++ if fSplit then [⟨0, scriptPubKeyOut⟩] else []
  let withPayment := stake ++ payee.toList.map fun script => ⟨0, script⟩
  let withDevops := withPayment ++ devpayee.toList.map fun script => ⟨0, script⟩
  setAmounts payee.isSome devpayee.isSome withPayment.length withDevops.length blockValue masternodePayment
    devopsPayment withDevops

section CoinStake

variable (env : Env) (n : Node) (w : StakeWallet) (p : Payees)

def signStakeInput (tx : CTransaction) (input : StakeCoin × Nat) : Except Stop CTransaction :=
  match w.signSignature input.1.tx tx input.2 with
  | none => .error (.reject 0 "CreateCoinStake : failed to sign coinstake")
  | some scriptSig =>
    .ok { tx with vin := tx.vin.modify input.2 fun txin => { txin with scriptSig := scriptSig } }

/-- The kernel among the coins for staking, and the coins that are merged with it. -/
def selectStake (hBest : UInt256) (nBits nTime : UInt32) (nSearchInterval nLimit : Int) :
    Except Stop (StakeKernel × Bool × List StakeCoin × Int) := do
  match w.selectCoinsForStaking nLimit nTime with
  | none => throw (.reject 0 "")
  | some setCoins =>
    rejectIf setCoins.isEmpty 0 ""
    let times := List.range (min nSearchInterval nMaxStakeSearchInterval).toNat
    match ← searchCoins env n w (n.mapBlockIndex.chain hBest) nBits nTime times setCoins with
    | none => throw (.reject 0 "")
    | some kernel =>
      let nCredit := kernel.coin.txout.nValue
      let nSplit ← w.getStakeSplitThreshold
      rejectIf (nCredit == 0 || decide (nCredit > nLimit)) 0 ""
      if nCredit > nSplit then return (kernel, true, [kernel.coin], nCredit)
      else
        let merged ← mergeCoins env w kernel nLimit setCoins ([kernel.coin], nCredit)
        return (kernel, false, merged)

def stakeReward (hBest : UInt256) (pindexPrev : CBlockIndex) (nFees : Int) (txNew : CTransaction) :
    Except Stop Int := do
  let nCoinAge ← txNew.getCoinAge n n.pdb.readTxIndex (n.mapBlockIndex.chain hBest)
  let nReward ← getProofOfStakeReward n pindexPrev nCoinAge nFees
  rejectIf (nReward ≤ 0) 0 ""
  return nReward

/-- `CreateCoinStake`. Of `txNew` only the version, the time and the lock time are read. -/
def createCoinStake (nBits : UInt32) (nSearchInterval nFees : Int) (txNew : CTransaction) :
    Except Stop CoinStake := do
  let hBest ← orUndefined n.pindexBest "pindexBest"
  let pindexPrev ← orUndefined (n.mapBlockIndex.entries hBest) "pindexBest"
  rejectIf (w.getBalance ≤ w.nReserveBalance) 0 ""
  let nLimit ← addI64 w.getBalance (-w.nReserveBalance)
  let (kernel, fSplit, coins, nCredit) ← selectStake env n w hBest nBits txNew.nTime nSearchInterval nLimit
  let vout : List CTxOut :=
    [⟨0, []⟩, ⟨0, kernel.scriptPubKeyOut⟩] ++ if fSplit then [⟨0, kernel.scriptPubKeyOut⟩] else []
  let txNew := { txNew with nTime := kernel.nTime, vin := coins.map (StakeCoin.txin env), vout }
  let nReward ← stakeReward n hBest pindexPrev nFees txNew
  let blockValue ← addI64 nCredit nReward
  let payee := payee? env.params p n.ext.getTime (pindexPrev.nHeight + 1)
  let devpayee ← devpayee? env.params p n.ext.getTime pindexPrev.getBlockTime
  let vout := stakeOutputs kernel.scriptPubKeyOut fSplit payee devpayee blockValue
    (getMasternodePayment (pindexPrev.nHeight + 1) nReward) (getDevOpsPayment (pindexPrev.nHeight + 1) nReward)
  let txNew ← coins.zipIdx.foldlM (signStakeInput w) { txNew with vout }
  rejectIf (txNew.serializeSize ≥ maxStandardTxSize) 0 "CreateCoinStake : exceeded coinstake size limit"
  return ⟨txNew, kernel.key, coins⟩

end CoinStake

/-- The transaction that `SignBlock` starts from. -/
def newCoinStake (n : Node) : CTransaction where
  nVersion := 1
  nTime := UInt32.ofInt n.ext.getAdjustedTime &&& ~~~(UInt32.ofNat stakeTimestampMask)
  vin := []
  vout := []
  nLockTime := 0

namespace CBlock

/-- The block with the coinstake in the second place, without the transactions that are later than it. -/
def insertCoinStake (env : Env) (block : CBlock) (coinbase txCoinStake : CTransaction) : CBlock :=
  let vtx := { coinbase with nTime := txCoinStake.nTime } :: block.vtx.tail
  let vtx := (vtx.filter fun tx => !decide (tx.nTime > txCoinStake.nTime)).insertIdx 1 txCoinStake
  let block := { block with nTime := txCoinStake.nTime, vtx }
  { block with hashMerkleRoot := block.buildMerkleTree env.getHash env.hashPair }

/-- What `SignBlock` returns, and what it leaves of the block and of its static variable. -/
structure Signing where
  fSigned : Bool
  block : CBlock
  nLastCoinStakeSearchTime : Int

/-- The end of `SignBlock`, with the coinstake in hand. -/
def signWith (env : Env) (w : StakeWallet) (block : CBlock) (coinbase : CTransaction) (stake : CoinStake)
    (nLastCoinStakeSearchTime : Int) : Signing :=
  let staked := block.insertCoinStake env coinbase stake.txNew
  match w.sign stake.key (staked.getHash env) with
  | some vchBlockSig => ⟨true, { staked with vchBlockSig }, nLastCoinStakeSearchTime⟩
  | none => ⟨false, staked, nLastCoinStakeSearchTime⟩

def signBlock (env : Env) (n : Node) (w : StakeWallet) (p : Payees) (block : CBlock) (nFees : Int)
    (nLastCoinStakeSearchTime : Int) : Except Stop Signing := do
  let coinbase ← orUndefined block.vtx[0]? "vtx[0]"
  let txout ← orUndefined coinbase.vout[0]? "vtx[0].vout[0]"
  if !txout.isEmpty then return ⟨false, block, nLastCoinStakeSearchTime⟩
  else if block.isProofOfStake then return ⟨true, block, nLastCoinStakeSearchTime⟩
  else
    let nSearchTime : Int := (newCoinStake n).nTime.toNat
    if nSearchTime > nLastCoinStakeSearchTime then
      match createCoinStake env n w p block.nBits 1 nFees (newCoinStake n) with
      | .ok stake =>
        let pindexBest ← orUndefined (n.pindexBest.bind n.mapBlockIndex.entries) "pindexBest"
        if (stake.txNew.nTime.toNat : Int) ≥ pindexBest.getPastTimeLimit + 1 then
          return block.signWith env w coinbase stake nLastCoinStakeSearchTime
        else return ⟨false, block, nSearchTime⟩
      | .error (.reject _ _) => return ⟨false, block, nSearchTime⟩
      | .error e => throw e
    else return ⟨false, block, nLastCoinStakeSearchTime⟩

end CBlock

/-- Both payments are in force on the tip: `CreateCoinStake` makes them and `CheckBlock` verifies them. -/
structure PaymentsInForce (env : Env) (n : Node) (pindexBest : CBlockIndex) : Prop where
  masternode : bMasterNodePayment env.params n.ext.getTime = true
  devops : bDevOpsPayment env.params n.ext.getTime = true
  active : pindexBest.getBlockTime > devOpsActivation
  verified : CBlock.checksPayments n = true
  height : n.nBestHeight = pindexBest.nHeight

/-- How addresses are read and written. The developers have one address on every network, the empty string is none,
    and the script for their address is written as this address. -/
structure Addresses (env : Env) (p : Payees) : Prop where
  params : env.params.strDevOpsAddress = mainParams.strDevOpsAddress
  empty : p.isValidAddress "" = false
  devops : env.addressOf (p.getScriptForAddress mainParams.strDevOpsAddress) = mainParams.strDevOpsAddress

/-- The database leads from the hashes of the transactions of the coins to these transactions, and no record of a
    transaction waits in a batch. -/
structure OnTip (env : Env) (n : Node) (coins : List StakeCoin) : Prop where
  committed : n.view.readTxIndex = n.pdb.readTxIndex
  coins : ∀ c ∈ coins, ∀ txindex txPrev, n.view.readTxIndex (env.getHash c.tx) = some txindex →
    CTransaction.readPrev n (env.getHash c.tx) txindex = .ok txPrev → txPrev = c.tx

def coinsValue (coins : List StakeCoin) : Int := (coins.map fun c => c.txout.nValue).sum

/-- The block has the coinstake in the second place and no other one, behind a coinbase that is no transaction of
    a coin. -/
structure CoinStake.CarriedBy (env : Env) (created : CoinStake) (block : CBlock) : Prop where
  coinstake : block.vtx[1]? = some created.txNew
  coinbase : ∃ coinbase, block.vtx[0]? = some coinbase ∧ coinbase.isCoinBase = true ∧
    ∀ c ∈ created.coins, env.getHash c.tx ≠ env.getHash coinbase
  rest : ∀ tx ∈ block.vtx.drop 2, tx.isCoinStake = false

/-- The coinstake creates the reward for the fees, and a block that carries it on the tip `hBest` passes, with the
    fees, the check of its reward. -/
structure CoinStake.Rewarded (env : Env) (n : Node) (nFees : Int) (hBest : UInt256) (created : CoinStake) : Prop where
  reward : ∃ pindexPrev nCoinAge nReward, n.mapBlockIndex.entries hBest = some pindexPrev ∧
    created.txNew.getCoinAge n n.pdb.readTxIndex (n.mapBlockIndex.chain hBest) = .ok nCoinAge ∧
    getProofOfStakeReward n pindexPrev nCoinAge nFees = .ok nReward ∧
    (created.txNew.vout.map CTxOut.nValue).sum - coinsValue created.coins = nReward
  stake : ∀ (block : CBlock) (pindex : CBlockIndex) (fJustCheck : Bool) (st : ConnectState),
    created.CarriedBy env block → pindex.pprev = some hBest →
    block.vtx.foldlM (CBlock.connectTx env n pindex fJustCheck) (CBlock.connectInit pindex block fJustCheck) = .ok st →
    st.nFees = nFees → CBlock.checkStakeReward n pindex block st = .ok ()

/-- The block passes the checks of its payments as well. -/
structure CoinStake.Agreed (env : Env) (n : Node) (nFees : Int) (hBest : UInt256) (created : CoinStake) : Prop
    extends created.Rewarded env n nFees hBest where
  payments : ∀ block : CBlock, block.vtx[1]? = some created.txNew → block.checkPayments env n = .ok ()

/-- A block template as `CreateNewBlock` makes it, and what its transactions leave of the accumulators of
    `ConnectBlock`: behind the coinbase it has ordinary transactions of the memory pool, and they connect in order
    on the tip. The index entry is the one of a block that is only checked. -/
structure CBlock.Template (env : Env) (n : Node) (block : CBlock) (pindex : CBlockIndex) (st : ConnectState) :
    Prop where
  coinbase : ∃ coinbase, block.vtx[0]? = some coinbase ∧ coinbase.isCoinBase = true ∧
    n.mempool.lookup (env.getHash coinbase) = none
  ordinary : ∀ tx ∈ block.vtx.tail, tx.isCoinBase = false ∧ tx.isCoinStake = false
  pool : ∀ tx ∈ block.vtx.tail, n.mempool.lookup (env.getHash tx) = some tx
  position : pindex.nFile = 1 ∧ pindex.nBlockPos = 1
  connects : block.vtx.foldlM (CBlock.connectTx env n pindex true) (CBlock.connectInit pindex block true) = .ok st

/-- The database leads from the coins for staking to their transactions, and no record of a transaction waits in a
    batch. -/
structure StakeWallet.OnChain (env : Env) (n : Node) (w : StakeWallet) : Prop where
  committed : n.view.readTxIndex = n.pdb.readTxIndex
  coins : ∀ nTargetValue nSpendTime setCoins, w.selectCoinsForStaking nTargetValue nSpendTime = some setCoins →
    ∀ c ∈ setCoins, ∃ txindex, CTransaction.readFromDisk n n.view.readTxIndex (c.outPoint env) = some (c.tx, txindex)

/-- The output is on the chain, and not spent. -/
def Node.OnChain (n : Node) (prevout : COutPoint) : Prop :=
  ∃ txindex spent, n.view.readTxIndex prevout.hash = some txindex ∧
    txindex.vSpent[prevout.n.toNat]? = some spent ∧ spent.isNull = true

/-- What the outputs of a transaction have beyond the outputs on the chain that it spends. -/
def CTransaction.created (n : Node) (tx : CTransaction) : Int :=
  (tx.vout.map CTxOut.nValue).sum - (tx.vin.map fun txin =>
    (((readFromDisk n n.view.readTxIndex txin.prevout).bind fun prev => prev.1.vout[txin.prevout.n.toNat]?).map
      CTxOut.nValue).getD 0).sum

/-- The block with a coinstake stays connectable: every input of the transactions behind the coinstake is on the
    chain or an output of an earlier one of them, and the coinstake creates no more than the subsidy and the fees. -/
structure CBlock.Connectable (env : Env) (n : Node) (hBest : UInt256) (nFees : Int) (block : CBlock) : Prop where
  inputs : DependencyOrder.Resolves n.OnChain
    (fun (prev _ : CTransaction) (prevout : COutPoint) =>
      env.getHash prev = prevout.hash ∧ prevout.n.toNat < prev.vout.length)
    (fun tx => tx.vin.map CTxIn.prevout) (block.vtx.drop 2)
  reward : ∃ coinstake pindexPrev nCoinAge nReward, block.vtx[1]? = some coinstake ∧
    n.mapBlockIndex.entries hBest = some pindexPrev ∧
    coinstake.getCoinAge n n.view.readTxIndex (n.mapBlockIndex.chain hBest) = .ok nCoinAge ∧
    getProofOfStakeReward n pindexPrev nCoinAge nFees = .ok nReward ∧ coinstake.created n ≤ nReward

/-- The fees of the transactions of a template that are not later than a time. -/
def CBlock.feesUntil (env : Env) (n : Node) (block : CBlock) (pindex : CBlockIndex) (nTime : UInt32) : Int :=
  ledgerSum LedgerEntry.fee ((CBlock.ledgerFrom env n pindex true (CBlock.connectInit pindex block true)
    block.vtx).filter fun entry => !decide (entry.tx.nTime > nTime))

end PupaCoin
