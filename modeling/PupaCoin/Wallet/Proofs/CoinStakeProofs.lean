import PupaCoin.Chain.Proofs.InputsProofs
import PupaCoin.Chain.Proofs.PaymentProofs
import PupaCoin.Chain.Proofs.SupplyProofs
import PupaCoin.Wallet.CoinStake

/-!
# Stakers and validators

A coinstake creates exactly the reward: what its outputs have beyond the coins it spends does not depend on how
many outputs there are (`stakeOutputs_sum`).
-/

namespace PupaCoin

variable {kernel : StakeKernel} {coins rest : List StakeCoin} {tx tx' : CTransaction}
  {readTxIndex : UInt256 → Option CTxIndex} {pindexPrev : List CBlockIndex} {times : List Nat}
  {nLimit nSearchInterval : Int} {hBest : UInt256} {block : CBlock}

/-! ## The outputs -/

def stakeValues (scriptPubKeyOut : CScript) (fSplit : Bool) (blockValue : Int) : List CTxOut :=
  if fSplit then
    let half := (blockValue.tdiv 2).tdiv cent * cent
    [⟨half, scriptPubKeyOut⟩, ⟨blockValue - half, scriptPubKeyOut⟩]
  else [⟨blockValue, scriptPubKeyOut⟩]

def stakeValue (payee devpayee : Option CScript) (blockValue masternodePayment devopsPayment : Int) : Int :=
  blockValue - (if payee.isSome then masternodePayment else 0) - if devpayee.isSome then devopsPayment else 0

theorem stakeOutputs_eq (scriptPubKeyOut : CScript) (fSplit : Bool) (payee devpayee : Option CScript)
    (blockValue masternodePayment devopsPayment : Int) :
    stakeOutputs scriptPubKeyOut fSplit payee devpayee blockValue masternodePayment devopsPayment
      = ⟨0, []⟩ :: stakeValues scriptPubKeyOut fSplit
          (stakeValue payee devpayee blockValue masternodePayment devopsPayment)
        ++ payee.toList.map (fun script => ⟨masternodePayment, script⟩)
        ++ devpayee.toList.map fun script => ⟨devopsPayment, script⟩ := by
  cases fSplit <;> cases payee <;> cases devpayee <;>
    simp [stakeOutputs, setAmounts, setStakeValues, setValue, stakeValues, stakeValue]

theorem stakeOutputs_sum (scriptPubKeyOut : CScript) (fSplit : Bool) (payee devpayee : Option CScript)
    (blockValue masternodePayment devopsPayment : Int) :
    ((stakeOutputs scriptPubKeyOut fSplit payee devpayee blockValue masternodePayment devopsPayment).map
      CTxOut.nValue).sum = blockValue := by
  have hstake : ∀ v, ((stakeValues scriptPubKeyOut fSplit v).map CTxOut.nValue).sum = v := by
    intro v
    cases fSplit with
    | false => simp [stakeValues]
    | true => simp [stakeValues]
  rw [stakeOutputs_eq]
  simp only [List.map_append, List.map_cons, List.sum_append, List.sum_cons, hstake, stakeValue]
  cases payee <;> cases devpayee <;> (simp; try ring)

section Inputs

variable {env : Env} {n : Node} {w : StakeWallet} {p : Payees}

theorem mergeCoins_invariant {I : List StakeCoin × Int → Prop} {merged result : List StakeCoin × Int}
    (hstep : ∀ merged nCredit, ∀ c ∈ rest, I merged → addI64 merged.2 c.txout.nValue = .ok nCredit →
      I (merged.1 ++ [c], nCredit)) (hI : I merged)
    (h : mergeCoins env w kernel nLimit rest merged = .ok result) : I result := by
  have hdone : ∀ {merged : List StakeCoin × Int}, I merged →
      (.ok merged : Except Stop (List StakeCoin × Int)) = .ok result → I result := by
    intro merged hI heq
    obtain rfl := Except.ok.inj heq
    exact hI
  induction rest generalizing merged with
  | nil => exact hdone hI h
  | cons c rest ih =>
    have hrest : ∀ merged nCredit, ∀ c ∈ rest, I merged → addI64 merged.2 c.txout.nValue = .ok nCredit →
        I (merged.1 ++ [c], nCredit) := fun merged nCredit d hd => hstep merged nCredit d (List.mem_cons_of_mem c hd)
    unfold mergeCoins at h
    split at h
    · split at h
      · exact hdone hI h
      · obtain ⟨nCombine, _, h⟩ := Guards.bind_eq_ok.mp h
        split at h
        · exact hdone hI h
        · obtain ⟨nCredit, hsum, h⟩ := Guards.bind_eq_ok.mp h
          split at h
          · exact hdone hI h
          · split at h
            · exact ih hrest hI h
            · split at h
              · exact ih hrest hI h
              · exact ih hrest (hstep merged nCredit c List.mem_cons_self hI hsum) h
    · exact ih hrest hI h

theorem mergeCoins_spec
    {merged result : List StakeCoin × Int} (hvalue : merged.2 = coinsValue merged.1)
    (h : mergeCoins env w kernel nLimit rest merged = .ok result) :
    result.2 = coinsValue result.1 ∧ merged.1 <+: result.1 ∧ ∀ c ∈ result.1, c ∈ merged.1 ∨ c ∈ rest := by
  refine mergeCoins_invariant (I := fun result => result.2 = coinsValue result.1 ∧ merged.1 <+: result.1 ∧
    ∀ c ∈ result.1, c ∈ merged.1 ∨ c ∈ rest) ?_ ⟨hvalue, List.prefix_rfl, fun c hc => Or.inl hc⟩ h
  rintro merged' nCredit c hc ⟨hvalue, hprefix, hfrom⟩ hsum
  refine ⟨?_, hprefix.trans (List.prefix_append merged'.1 [c]), ?_⟩
  · simp only
    rw [addI64_eq_ok hsum, hvalue]
    simp [coinsValue]
  · intro d hd
    rcases List.mem_append.mp hd with hd | hd
    · exact hfrom d hd
    · obtain rfl := List.mem_singleton.mp hd
      exact Or.inr hc

theorem searchTimes_spec {nBits nTime : UInt32} {c : StakeCoin} (h : searchTimes env n w pindexPrev nBits nTime c times = .ok (some kernel)) :
    kernel.coin = c ∧ ∃ k ∈ times, kernel.nTime = nTime - UInt32.ofNat k := by
  induction times with
  | nil => cases h
  | cons k ks ih =>
    simp only [searchTimes] at h
    split at h
    · obtain ⟨out, _, hkernel⟩ := Guards.bind_eq_ok.mp h
      cases out with
      | none => cases hkernel
      | some out =>
        obtain rfl := Option.some.inj (Except.ok.inj hkernel)
        exact ⟨rfl, k, List.mem_cons_self, rfl⟩
    · obtain ⟨hcoin, k', hk', htime⟩ := ih h
      exact ⟨hcoin, k', List.mem_cons_of_mem k hk', htime⟩
    · cases h

theorem searchCoins_spec {nBits nTime : UInt32}
    (h : searchCoins env n w pindexPrev nBits nTime times coins = .ok (some kernel)) :
    kernel.coin ∈ coins ∧ ∃ k ∈ times, kernel.nTime = nTime - UInt32.ofNat k := by
  induction coins with
  | nil => cases h
  | cons c coins ih =>
    unfold searchCoins at h
    obtain ⟨found, hfound, h⟩ := Guards.bind_eq_ok.mp h
    cases found with
    | some found =>
      obtain rfl := Option.some.inj (Except.ok.inj h)
      obtain ⟨hcoin, htime⟩ := searchTimes_spec hfound
      exact ⟨by rw [hcoin]; exact List.mem_cons_self, htime⟩
    | none =>
      obtain ⟨hcoin, htime⟩ := ih h
      exact ⟨List.mem_cons_of_mem c hcoin, htime⟩

/-- How a stake was selected: of which coins, and when its kernel is. -/
structure Selects (w : StakeWallet) (nTime : UInt32) (nSearchInterval nLimit : Int) (kernel : StakeKernel)
    (coins : List StakeCoin) (nCredit : Int) : Prop where
  value : nCredit = coinsValue coins
  first : [kernel.coin] <+: coins
  time : ∃ k ∈ List.range (min nSearchInterval nMaxStakeSearchInterval).toNat, kernel.nTime = nTime - UInt32.ofNat k
  coins : ∃ setCoins, w.selectCoinsForStaking nLimit nTime = some setCoins ∧ ∀ c ∈ coins, c ∈ setCoins

theorem selectStake_spec {nBits nTime : UInt32} {nCredit : Int} {fSplit : Bool}
    (h : selectStake env n w hBest nBits nTime nSearchInterval nLimit = .ok (kernel, fSplit, coins, nCredit)) :
    Selects w nTime nSearchInterval nLimit kernel coins nCredit := by
  have hone : ∀ c : StakeCoin, c.txout.nValue = coinsValue [c] := by
    intro c
    simp [coinsValue]
  unfold selectStake at h
  split at h
  · cases h
  · rename_i setCoins hset
    simp only [Guards.bind_eq_ok] at h
    obtain ⟨_, _, found, hsearch, h⟩ := h
    cases found with
    | none => cases h
    | some found =>
      obtain ⟨hmem, htime⟩ := searchCoins_spec hsearch
      simp only [Guards.bind_eq_ok] at h
      obtain ⟨nSplit, _, _, _, h⟩ := h
      split at h
      · obtain ⟨rfl, rfl, rfl, rfl⟩ := by simpa using Except.ok.inj h
        refine ⟨hone _, List.prefix_rfl, htime, setCoins, hset, ?_⟩
        intro c hc
        rw [List.mem_singleton.mp hc]
        exact hmem
      · obtain ⟨merged, hmerge, h⟩ := Guards.bind_eq_ok.mp h
        obtain ⟨rfl, rfl, rfl⟩ := by simpa using Except.ok.inj h
        obtain ⟨hvalue, hprefix, hfrom⟩ := mergeCoins_spec (hone _) hmerge
        refine ⟨hvalue, hprefix, htime, setCoins, hset, ?_⟩
        intro c hc
        rcases hfrom c hc with hkernel | hset
        · rw [List.mem_singleton.mp hkernel]
          exact hmem
        · exact hset

theorem signStakeInputs_spec {inputs : List (StakeCoin × Nat)}
    (h : inputs.foldlM (signStakeInput w) tx = .ok tx') :
    tx'.vout = tx.vout ∧ tx'.nTime = tx.nTime ∧ tx'.vin.map CTxIn.prevout = tx.vin.map CTxIn.prevout := by
  refine Guards.foldlM_invariant (fun _ (tx' : CTransaction) => tx'.vout = tx.vout ∧ tx'.nTime = tx.nTime ∧
    tx'.vin.map CTxIn.prevout = tx.vin.map CTxIn.prevout) ?_ inputs [] tx tx' ⟨rfl, rfl, rfl⟩ h
  rintro _ s input s' ⟨hvout, htime, hprevouts⟩ hround
  unfold signStakeInput at hround
  split at hround
  · cases hround
  · obtain rfl := Except.ok.inj hround
    refine ⟨hvout, htime, ?_⟩
    rw [← hprevouts]
    apply List.ext_getElem?
    intro i
    simp only [List.getElem?_map, List.getElem?_modify]
    split <;> cases s.vin[i]? <;> rfl

theorem StakeCoin.isNull_outPoint (c : StakeCoin) : (c.outPoint env).isNull = false := by
  have hn := c.n_lt
  have hsize := c.size_lt
  have hne : c.n ≠ 0xffffffff := by
    intro heq
    rw [heq] at hn
    have : (0xffffffff : UInt32).toNat = 2 ^ 32 - 1 := rfl
    omega
  unfold COutPoint.isNull COutPoint.null StakeCoin.outPoint
  rw [beq_eq_false_iff_ne]
  intro heq
  exact hne (COutPoint.mk.inj heq).2

theorem prevouts_txin (coins : List StakeCoin) :
    (coins.map (StakeCoin.txin env)).map CTxIn.prevout = coins.map (StakeCoin.outPoint env) := by
  rw [List.map_map]
  rfl

theorem getCoinAge_congr {chain : List CBlockIndex} (hcb : tx.isCoinBase = tx'.isCoinBase) (htime : tx.nTime = tx'.nTime)
    (hprevouts : tx.vin.map CTxIn.prevout = tx'.vin.map CTxIn.prevout) :
    tx.getCoinAge n readTxIndex chain = tx'.getCoinAge n readTxIndex chain := by
  have hround : ∀ (tx : CTransaction) (a : Int), tx.vin.foldlM (CTransaction.addCoinAge n readTxIndex chain tx) a
      = (tx.vin.map CTxIn.prevout).foldlM (fun a prevout =>
        CTransaction.addCoinAge n readTxIndex chain { CTransaction.mk 0 tx.nTime [] [] 0 with } a ⟨prevout, [], 0⟩) a := by
    intro tx a
    rw [List.foldlM_map]
    exact Guards.foldlM_congr fun _ _ _ => rfl
  unfold CTransaction.getCoinAge
  rw [hcb, hround, hround, htime, hprevouts]

/-- How a coinstake was built: the tip, the script and whether the stake was split, the payee of the developers, the
    age of the coins and the reward. -/
structure Builds (env : Env) (n : Node) (w : StakeWallet) (p : Payees) (nSearchInterval nFees : Int)
    (txNew : CTransaction) (created : CoinStake) where
  hBest : UInt256
  pindexPrev : CBlockIndex
  scriptPubKeyOut : CScript
  fSplit : Bool
  devpayee : Option CScript
  nCoinAge : Nat
  nReward : Int
  best : n.pindexBest = some hBest
  entry : n.mapBlockIndex.entries hBest = some pindexPrev
  coins : created.coins ≠ []
  selected : ∃ nTargetValue nSpendTime setCoins, w.selectCoinsForStaking nTargetValue nSpendTime = some setCoins ∧
    ∀ c ∈ created.coins, c ∈ setCoins
  time : ∃ k ∈ List.range (min nSearchInterval nMaxStakeSearchInterval).toNat,
    created.txNew.nTime = txNew.nTime - UInt32.ofNat k
  prevouts : created.txNew.vin.map CTxIn.prevout = created.coins.map (StakeCoin.outPoint env)
  coinAge : created.txNew.getCoinAge n n.pdb.readTxIndex (n.mapBlockIndex.chain hBest) = .ok nCoinAge
  reward : getProofOfStakeReward n pindexPrev nCoinAge nFees = .ok nReward
  devops : devpayee? env.params p n.ext.getTime pindexPrev.getBlockTime = .ok devpayee
  vout : created.txNew.vout = stakeOutputs scriptPubKeyOut fSplit
    (payee? env.params p n.ext.getTime (pindexPrev.nHeight + 1)) devpayee (coinsValue created.coins + nReward)
    (getMasternodePayment (pindexPrev.nHeight + 1) nReward) (getDevOpsPayment (pindexPrev.nHeight + 1) nReward)

theorem isCoinBase_of_coins (hcoins : coins ≠ [])
    (hprevouts : tx.vin.map CTxIn.prevout = coins.map (StakeCoin.outPoint env)) : tx.isCoinBase = false := by
  unfold CTransaction.isCoinBase
  split
  · rename_i txin hvin
    cases coins with
    | nil => exact absurd rfl hcoins
    | cons c rest =>
      rw [hvin] at hprevouts
      have hhead : txin.prevout = c.outPoint env := (List.cons.inj hprevouts).1
      rw [hhead, c.isNull_outPoint, Bool.false_and]
  · rfl

theorem createCoinStake_builds {nBits : UInt32} {nFees : Int} {txNew : CTransaction}
    {created : CoinStake} (h : createCoinStake env n w p nBits nSearchInterval nFees txNew = .ok created) :
    Nonempty (Builds env n w p nSearchInterval nFees txNew created) := by
  unfold createCoinStake at h
  simp only [Guards.bind_eq_ok, orUndefined_eq_ok] at h
  obtain ⟨hBest, hbest, pindexPrev, hentry, _, _, nLimit, _, ⟨kernel, fSplit, coins, nCredit⟩, hselect, nReward,
    hreward, blockValue, hvalue, devpayee, hdevpayee, signed, hsigned, _, _, hcreated⟩ := h
  obtain rfl := Except.ok.inj hcreated
  obtain ⟨rfl, hprefix, ⟨k, hk, hkernelTime⟩, setCoins, hset, hsub⟩ := selectStake_spec hselect
  have hcoins : coins ≠ [] := by
    rintro rfl
    exact absurd (List.prefix_nil.mp hprefix) (by simp)
  obtain ⟨hvout, htime, hprevouts⟩ := signStakeInputs_spec hsigned
  have hspent : signed.vin.map CTxIn.prevout = coins.map (StakeCoin.outPoint env) := by
    rw [hprevouts]
    exact prevouts_txin coins
  unfold stakeReward at hreward
  simp only [Guards.bind_eq_ok] at hreward
  obtain ⟨nCoinAge, hcoinAge, nReward', hreward, _, _, heq⟩ := hreward
  obtain rfl := Except.ok.inj heq
  refine ⟨⟨hBest, pindexPrev, kernel.scriptPubKeyOut, fSplit, devpayee, nCoinAge, nReward', hbest, hentry, hcoins,
    ⟨nLimit, txNew.nTime, setCoins, hset, hsub⟩, ⟨k, hk, ?_⟩, hspent, ?_, hreward, hdevpayee, ?_⟩⟩
  · rw [htime]
    exact hkernelTime
  · rw [← hcoinAge]
    refine getCoinAge_congr ?_ htime hprevouts
    rw [isCoinBase_of_coins hcoins hspent]
    exact (isCoinBase_of_coins hcoins (prevouts_txin coins)).symm
  · rw [hvout, ← addI64_eq_ok hvalue]

namespace Builds

variable {nSearchInterval nFees : Int} {txNew : CTransaction} {created : CoinStake}

theorem value (b : Builds env n w p nSearchInterval nFees txNew created) :
    (created.txNew.vout.map CTxOut.nValue).sum = coinsValue created.coins + b.nReward := by
  rw [b.vout, stakeOutputs_sum]

theorem isCoinBase (b : Builds env n w p nSearchInterval nFees txNew created) :
    created.txNew.isCoinBase = false := isCoinBase_of_coins b.coins b.prevouts

theorem isCoinStake (b : Builds env n w p nSearchInterval nFees txNew created) :
    created.txNew.isCoinStake = true := by
  have hprevouts := b.prevouts
  have hvout := b.vout
  rw [stakeOutputs_eq] at hvout
  unfold CTransaction.isCoinStake
  cases hcoins : created.coins with
  | nil => exact absurd hcoins b.coins
  | cons c rest =>
    rw [hcoins] at hprevouts
    cases hvin : created.txNew.vin with
    | nil => simp [hvin] at hprevouts
    | cons txin vin =>
      rw [hvin] at hprevouts
      have hhead : txin.prevout = c.outPoint env := (List.cons.inj hprevouts).1
      rw [hvout]
      cases b.fSplit with
      | false => simp [stakeValues, hhead, c.isNull_outPoint, CTxOut.isEmpty]
      | true => simp [stakeValues, hhead, c.isNull_outPoint, CTxOut.isEmpty]

end Builds

end Inputs

namespace CBlock

variable {env : Env} {ext : Ext} {c : PaymentCheck} {masternode devops : CTxOut}

/-- What a round of the loop asks of an output. -/
def paymentOutOk (env : Env) (ext : Ext) (c : PaymentCheck) (masternode devops : CTxOut) (out : CTxOut × Nat) : Bool :=
  (out.2 != c.nProofOfIndexMasternode || (masternodePayeeOk env ext out.1.scriptPubKey &&
    (if c.isProofOfStake then masternode.nValue.tdiv coin else out.1.nValue.tdiv coin) == c.nMasternodePayment)) &&
  (out.2 != c.nProofOfIndexDevops || (env.addressOf out.1.scriptPubKey == env.params.strDevOpsAddress &&
    ((if c.isProofOfStake then devops.nValue.tdiv coin else out.1.nValue.tdiv coin) == c.nDevopsPayment
      || decide (devops.nValue.tdiv coin ≥ c.nDevopsPayment))))

variable (masternode devops) in
theorem foldlM_checkPaymentOut (hm : c.vout[c.nProofOfIndexMasternode]? = some masternode)
    (hd : c.vout[c.nProofOfIndexDevops]? = some devops) (outs : List (CTxOut × Nat)) (fBlockHasPayments : Bool) :
    outs.foldlM (checkPaymentOut env ext c) fBlockHasPayments
      = .ok (fBlockHasPayments && outs.all (paymentOutOk env ext c masternode devops)) := by
  induction outs generalizing fBlockHasPayments with
  | nil => simp [pure, Except.pure]
  | cons out outs ih =>
    have hround : checkPaymentOut env ext c fBlockHasPayments out
        = .ok (fBlockHasPayments && paymentOutOk env ext c masternode devops out) := by
      unfold checkPaymentOut paymentOutOk
      rw [hm, hd]
      simp only [orUndefined, Guards.ok_bind, pure, Except.pure, Bool.and_assoc]
    rw [List.foldlM_cons, hround, Guards.ok_bind, ih, List.all_cons, Bool.and_assoc]

theorem checkPayments_stake_iff {n : Node} {pindexBest : CBlockIndex} {pre : List CTxOut} (hbest : n.pindexBest = some hBest)
    (hentry : n.mapBlockIndex.entries hBest = some pindexBest) (hheight : 200 ≤ pindexBest.nHeight)
    (htx : block.vtx[1]? = some tx) (hstake : tx.isCoinStake = true) (hpre : pre.length = 2 ∨ pre.length = 3)
    (hvout : tx.vout = pre ++ [masternode, devops]) : block.checkPayments env n = .ok () ↔
      masternodePayeeOk env n.ext masternode.scriptPubKey = true ∧ masternode.nValue.tdiv coin = 3 ∧
      env.addressOf devops.scriptPubKey = env.params.strDevOpsAddress ∧ 0 ≤ devops.nValue.tdiv coin := by
  obtain ⟨nStandardPayment, hstandard⟩ := standardPayment_ok hbest hentry (by omega) true
  have hwork : block.isProofOfWork = false := by
    unfold isProofOfWork isProofOfStake
    cases hvtx : block.vtx with
    | nil => simp [hvtx] at htx
    | cons coinbase rest =>
      cases rest with
      | nil => simp [hvtx] at htx
      | cons second rest =>
        have hsecond : second = tx := by simpa [hvtx] using htx
        simp [hsecond, hstake]
  have houtputs : block.paymentOutputs true = .ok tx.vout := by
    unfold paymentOutputs
    rw [Bool.toNat_true, htx]
    rfl
  have hmasternodeDue : (getMasternodePayment pindexBest.nHeight nStandardPayment).tdiv coin = 3 := by
    unfold getMasternodePayment
    rw [if_neg (by omega)]
    rfl
  have hdevopsDue : (getDevOpsPayment pindexBest.nHeight nStandardPayment).tdiv coin = 0 := by
    unfold getDevOpsPayment
    rw [if_neg (by omega)]
    rfl
  have hindexes : paymentIndexes true tx.vout.length = (pre.length, pre.length + 1, true) := by
    rw [hvout]
    rcases hpre with h | h <;> simp [paymentIndexes, h]
  have hleast : ∀ v : Int, v = 0 ∨ 0 ≤ v ↔ 0 ≤ v := by
    intro v
    omega
  unfold checkPayments
  simp only [hbest, Option.bind_some, hentry, orUndefined, Guards.ok_bind, hwork, Bool.not_false, houtputs,
    hstandard, hindexes, hmasternodeDue, hdevopsDue]
  rw [foldlM_checkPaymentOut masternode devops (by simp [hvout]) (by simp [hvout])]
  simp only [Guards.ok_bind, Bool.true_and, rejectIf_eq_ok, Bool.not_eq_false', hvout]
  rcases hpre with h | h
  · obtain ⟨marker, stake, rfl⟩ := List.length_eq_two.mp h
    simp [paymentOutOk, hleast, and_assoc]
  · obtain ⟨marker, stake, rest, rfl⟩ := List.length_eq_three.mp h
    simp [paymentOutOk, hleast, and_assoc]

end CBlock

section Agreement

variable {env : Env} {n : Node} {w : StakeWallet} {p : Payees} {nSearchInterval nFees : Int}
  {txNew : CTransaction} {hBest : UInt256} {pindexPrev : CBlockIndex} {created : CoinStake}

theorem devpayee_of_inForce {devpayee : Option CScript} (hforce : PaymentsInForce env n pindexPrev) (haddresses : Addresses env p)
    (h : devpayee? env.params p n.ext.getTime pindexPrev.getBlockTime = .ok devpayee) :
    devpayee = some (p.getScriptForAddress mainParams.strDevOpsAddress) := by
  unfold devpayee? at h
  rw [if_pos hforce.devops] at h
  split at h
  · rename_i hvalid
    rw [if_pos hforce.active] at h
    obtain rfl := Except.ok.inj h
    unfold Payees.devopAddress at hvalid ⊢
    split at hvalid
    · rfl
    · rw [haddresses.empty] at hvalid
      cases hvalid
    · rw [haddresses.empty] at hvalid
      cases hvalid
  · cases h

theorem Builds.outputs (b : Builds env n w p nSearchInterval nFees txNew created)
    (hforce : PaymentsInForce env n b.pindexPrev) (haddresses : Addresses env p) :
    ∃ pre : List CTxOut, (pre.length = 2 ∨ pre.length = 3) ∧ created.txNew.vout = pre ++
      [⟨getMasternodePayment (b.pindexPrev.nHeight + 1) b.nReward, p.payee env.params (b.pindexPrev.nHeight + 1)⟩,
        ⟨getDevOpsPayment (b.pindexPrev.nHeight + 1) b.nReward,
          p.getScriptForAddress mainParams.strDevOpsAddress⟩] := by
  have hvout := b.vout
  rw [stakeOutputs_eq, devpayee_of_inForce hforce haddresses b.devops] at hvout
  unfold payee? at hvout
  rw [if_pos hforce.masternode] at hvout
  generalize stakeValue _ _ _ _ _ = left at hvout
  refine ⟨⟨0, []⟩ :: stakeValues b.scriptPubKeyOut b.fSplit left, ?_, ?_⟩
  · cases b.fSplit with
    | false => exact Or.inl rfl
    | true => exact Or.inr rfl
  · rw [hvout]
    simp only [Option.toList_some, List.map_cons, List.map_nil, List.append_assoc, List.cons_append, List.nil_append]

theorem spentValue_of_coins {queue : QueuedChanges}
    {inputs : MapPrevTx} (hcb : tx.isCoinBase = false)
    (hprevouts : tx.vin.map CTxIn.prevout = coins.map (StakeCoin.outPoint env))
    (hfetch : tx.fetchInputs n readTxIndex queue true false = .ok inputs)
    (hcoins : ∀ c ∈ coins, ∀ txindex txPrev, CTransaction.foundEntry readTxIndex queue (env.getHash c.tx) = some txindex →
      CTransaction.readPrev n (env.getHash c.tx) txindex = .ok txPrev → txPrev = c.tx) :
    tx.spentValue inputs = coinsValue coins := by
  obtain ⟨hfetched, hfound⟩ := CTransaction.fetchInputs_spec hcb hfetch
  have hvalue : ∀ c ∈ coins, CTransaction.prevValue inputs (c.outPoint env) = c.txout.nValue := by
    intro c hc
    have hmem : c.outPoint env ∈ tx.vin.map CTxIn.prevout := by
      rw [hprevouts]
      exact List.mem_map_of_mem hc
    obtain ⟨txin, htxin, hprevout⟩ := List.mem_map.mp hmem
    obtain ⟨prev, hlookup, _, _⟩ := hfound txin htxin
    rw [hprevout] at hlookup
    obtain ⟨hentry, hread⟩ := hfetched _ prev hlookup
    have hprev : prev.2 = c.tx := hcoins c hc prev.1 prev.2 hentry hread
    have hout : c.tx.vout[(c.outPoint env).n.toNat]? = some c.txout := List.getElem?_eq_getElem c.n_lt
    exact CTransaction.prevValue_of_lookup hlookup (hprev ▸ hout)
  have hsum : tx.spentValue inputs = ((tx.vin.map CTxIn.prevout).map (CTransaction.prevValue inputs)).sum := by
    rw [List.map_map]
    rfl
  rw [hsum, hprevouts, List.map_map, coinsValue]
  exact congrArg List.sum (List.map_congr_left hvalue)

theorem Builds.nStakeReward (b : Builds env n w p nSearchInterval nFees txNew created)
    (htip : OnTip env n created.coins) {pindex : CBlockIndex} {fJustCheck : Bool}
    {st : ConnectState} (hcarried : created.CarriedBy env block)
    (hloop : block.vtx.foldlM (CBlock.connectTx env n pindex fJustCheck) (CBlock.connectInit pindex block fJustCheck)
      = .ok st) : st.nStakeReward = b.nReward := by
  obtain ⟨coinbase, hfirst, hcb, hfresh⟩ := hcarried.coinbase
  have hsecond := hcarried.coinstake
  have hrest := hcarried.rest
  obtain ⟨rest, hvtx⟩ : ∃ rest, block.vtx = coinbase :: created.txNew :: rest := by
    cases hv : block.vtx with
    | nil => simp [hv] at hfirst
    | cons a tail =>
      cases tail with
      | nil => simp [hv] at hsecond
      | cons second rest =>
        have ha : a = coinbase := by simpa [hv] using hfirst
        have hsecond' : second = created.txNew := by simpa [hv] using hsecond
        exact ⟨rest, by rw [ha, hsecond']⟩
  rw [hvtx] at hloop hrest
  obtain ⟨st1, hround1, hloop1⟩ := Guards.foldlM_cons_eq_ok.mp hloop
  obtain ⟨st2, hround2, hloop2⟩ := Guards.foldlM_cons_eq_ok.mp hloop1
  obtain ⟨inputs, hfetch, _, _, hstake⟩ := CBlock.connectTx_totals hround2
  obtain ⟨hkept, -⟩ := CBlock.loop_stakeReward_of_none rest hrest hloop2
  obtain ⟨_, _, rfl⟩ := CBlock.connectTx_of_coinbase hcb hround1
  have hspent : created.txNew.spentValue inputs = coinsValue created.coins := by
    refine spentValue_of_coins b.isCoinBase b.prevouts hfetch ?_
    intro c hc txindex txPrev hentry hread
    refine htip.coins c hc txindex txPrev ?_ hread
    have hnot : ¬ env.getHash c.tx ∈ ((∅ : QueuedChanges).insert (env.getHash coinbase)
        (CTxIndex.new (CBlock.txPos pindex (CBlock.connectInit pindex block fJustCheck)) coinbase.vout.length)) := by
      rw [AList.mem_insert]
      rintro (heq | hempty)
      · exact hfresh c hc heq
      · exact AList.notMem_empty _ hempty
    rw [← hentry]
    exact (if_neg hnot).symm
  rw [hkept, hstake, if_pos b.isCoinStake]
  unfold LedgerEntry.issue LedgerEntry.spent CTransaction.valueOut
  rw [b.isCoinBase, b.value, hspent]
  simp

/-- **Staker and validator.** A coinstake that was made with both payments in force creates the reward, and a block
    that carries it passes the check of its reward on the same tip. It passes the checks of its payments, which are
    where they should be and as high, exactly when `CheckBlock` accepts the payee of the masternode payment. -/
theorem createCoinStake_agreed_iff {nBits : UInt32} {pindexBest : CBlockIndex} (hbest : n.pindexBest = some hBest)
    (hentry : n.mapBlockIndex.entries hBest = some pindexBest)
    (hforce : PaymentsInForce env n pindexBest) (haddresses : Addresses env p) (htip : OnTip env n created.coins)
    (h : createCoinStake env n w p nBits nSearchInterval nFees txNew = .ok created) :
    created.Rewarded env n nFees hBest ∧
    (∀ block : CBlock, block.vtx[1]? = some created.txNew → (block.checkPayments env n = .ok () ↔
      CBlock.masternodePayeeOk env n.ext (p.payee env.params (pindexBest.nHeight + 1)) = true)) ∧
    (created.Agreed env n nFees hBest ↔
      CBlock.masternodePayeeOk env n.ext (p.payee env.params (pindexBest.nHeight + 1)) = true) := by
  obtain ⟨b⟩ := createCoinStake_builds h
  obtain rfl : hBest = b.hBest := by simpa [hbest] using b.best
  obtain rfl : pindexBest = b.pindexPrev := by simpa [hentry] using b.entry
  have hverified := hforce.verified
  simp only [CBlock.checksPayments, Bool.and_eq_true, decide_eq_true_eq] at hverified
  have hheight : 725 < (b.pindexPrev.nHeight : Int) := by
    rw [← hforce.height]
    exact hverified.1
  obtain ⟨pre, hpre, hvout⟩ := b.outputs hforce haddresses
  have hpayments : ∀ block : CBlock, block.vtx[1]? = some created.txNew → (block.checkPayments env n = .ok () ↔
      CBlock.masternodePayeeOk env n.ext (p.payee env.params (b.pindexPrev.nHeight + 1)) = true) := by
    intro block hblock
    rw [CBlock.checkPayments_stake_iff hbest hentry (by omega) hblock b.isCoinStake hpre hvout]
    have hmasternode : (getMasternodePayment (b.pindexPrev.nHeight + 1) b.nReward).tdiv coin = 3 := by
      unfold getMasternodePayment
      rw [if_neg (by omega)]
      rfl
    have hdevops : 0 ≤ (getDevOpsPayment (b.pindexPrev.nHeight + 1) b.nReward).tdiv coin := by
      unfold getDevOpsPayment
      rw [if_neg (by omega)]
      decide
    have haddress : env.addressOf (p.getScriptForAddress mainParams.strDevOpsAddress)
        = env.params.strDevOpsAddress := by
      rw [haddresses.devops, haddresses.params]
    simp only [hmasternode, hdevops, haddress, and_true]
  have hrewarded : created.Rewarded env n nFees b.hBest := by
    refine ⟨⟨b.pindexPrev, b.nCoinAge, b.nReward, hentry, b.coinAge, b.reward, ?_⟩, ?_⟩
    · rw [b.value]
      ring
    · intro block pindex fJustCheck st hcarried hprev hloop hfees
      have hreward := b.nStakeReward htip hcarried hloop
      unfold CBlock.checkStakeReward
      simp only [hcarried.coinstake, hprev, BlockTree.chain?, htip.committed, b.coinAge, Option.bind_some,
        hentry, orUndefined, Guards.ok_bind, hfees, b.reward, rejectIf_eq_ok, hreward, gt_iff_lt, lt_self_iff_false,
        decide_false]
  refine ⟨hrewarded, hpayments, fun hagreed => ?_, fun hpayee => ⟨hrewarded, fun block hblock => ?_⟩⟩
  · refine (hpayments ⟨⟨0, 0, 0, 0, 0, 0⟩, [created.txNew, created.txNew], []⟩ rfl).mp ?_
    exact hagreed.payments _ rfl
  · exact (hpayments block hblock).mpr hpayee

end Agreement

namespace Sample

def stakedCoin : StakeCoin := ⟨coinbaseTx 1, 0, by decide, by decide⟩

def stakerKey : CKey := ⟨List.replicate 32 1, true, by decide⟩

def staker : StakeWallet where
  nReserveBalance := 0
  nStakeThreshold := 1000
  getBalance := 5 * coin
  selectCoinsForStaking _ _ := some [stakedCoin]
  solver _ := some (.pubkey, [[2]])
  toKeyID _ := 0
  hash160 _ := 0
  getKey _ := some stakerKey
  getPubKey _ := [2]
  signSignature _ _ _ := some []
  sign _ _ := some [0x30]

def stakeEnv : Env :=
  { env with addressOf := fun script => if script = [0x52] then env.params.strDevOpsAddress else "" }

def paying (winner : CScript) : Payees where
  fCurrentMasterNode := true
  fInitialBlockDownload := false
  processBlock _ := some [winner]
  isValidAddress address := address != ""
  getScriptForAddress _ := [0x52]

def stakingNode : Node :=
  { payingNode with
    ext := { ext 726 with fMnAdvRelay := true, isPayeeAValidMasternode := fun script => script == [0x53] } }

/-- The coinstake for a winner: the reward of 140000 coins, of which the masternode gets 3.5 and the developers
    0.25, behind the five coins of the stake. -/
def stakeFor (winner : CScript) : CoinStake where
  txNew :=
    { newCoinStake stakingNode with
      vin := [⟨⟨blockHash 1, 0⟩, [], 0xffffffff⟩]
      vout := [⟨0, []⟩, ⟨140001 * coin + coin / 4, [0x51]⟩, ⟨35 * coin / 10, winner⟩, ⟨coin / 4, [0x52]⟩] }
  key := stakerKey
  coins := [stakedCoin]

theorem stakeFor_created : createCoinStake stakeEnv stakingNode staker (paying [0x53]) nBits 1 0
    (newCoinStake stakingNode) = .ok (stakeFor [0x53]) := by decide +kernel

theorem stakingNode_entry : stakingNode.mapBlockIndex.entries (blockHash 726) = some (chainEntry 726 726) :=
  entry_chainNode (by decide) le_rfl

theorem stakingNode_inForce : PaymentsInForce stakeEnv stakingNode (chainEntry 726 726) :=
  ⟨by decide, by decide, by decide, by decide, rfl⟩

theorem paying_addresses (winner : CScript) : Addresses stakeEnv (paying winner) := ⟨rfl, rfl, rfl⟩

theorem stakingNode_onTip : OnTip stakeEnv stakingNode [stakedCoin] := by
  refine ⟨rfl, ?_⟩
  intro c hc txindex txPrev hindex hread
  obtain rfl := List.mem_singleton.mp hc
  have hentry : stakingNode.view.readTxIndex (stakeEnv.getHash stakedCoin.tx)
      = some ⟨⟨1, blockPos 1, blockPos 1 + 81⟩, [.null]⟩ := by decide
  rw [hentry, Option.some.injEq] at hindex
  subst hindex
  have hcoin : CTransaction.readPrev stakingNode (stakeEnv.getHash stakedCoin.tx)
      ⟨⟨1, blockPos 1, blockPos 1 + 81⟩, [.null]⟩ = .ok (coinbaseTx 1) := by decide
  rw [hcoin] at hread
  exact (Except.ok.inj hread).symm

def payeeAccepted : Bool := CBlock.masternodePayeeOk stakeEnv stakingNode.ext
  ((paying [0x53]).payee stakeEnv.params ((chainEntry 726 726).nHeight + 1))

theorem stakeFor_agreed_iff : (stakeFor [0x53]).Rewarded stakeEnv stakingNode 0 (blockHash 726) ∧
    (∀ block : CBlock, block.vtx[1]? = some (stakeFor [0x53]).txNew →
      (block.checkPayments stakeEnv stakingNode = .ok () ↔ payeeAccepted = true)) ∧
    ((stakeFor [0x53]).Agreed stakeEnv stakingNode 0 (blockHash 726) ↔ payeeAccepted = true) :=
  createCoinStake_agreed_iff rfl stakingNode_entry stakingNode_inForce (paying_addresses [0x53]) stakingNode_onTip
    stakeFor_created

/-- The last winner may be a masternode that is no longer enabled, or not in the list of the validator. `CheckBlock`
    rejects the block with the coinstake that pays it. -/
theorem staleWinner_rejected :
    ¬ ∀ (env : Env) (n : Node) (w : StakeWallet) (p : Payees) (nBits : UInt32) (nSearchInterval nFees : Int)
      (txNew : CTransaction) (created : CoinStake) (hBest : UInt256) (pindexBest : CBlockIndex),
      n.pindexBest = some hBest → n.mapBlockIndex.entries hBest = some pindexBest →
      PaymentsInForce env n pindexBest → Addresses env p → OnTip env n created.coins →
      createCoinStake env n w p nBits nSearchInterval nFees txNew = .ok created →
      created.Agreed env n nFees hBest := by
  intro hall
  have hcreated : createCoinStake stakeEnv stakingNode staker (paying [0x54]) nBits 1 0 (newCoinStake stakingNode)
      = .ok (stakeFor [0x54]) := by decide +kernel
  have hagreed := hall stakeEnv stakingNode staker (paying [0x54]) nBits 1 0 (newCoinStake stakingNode)
    (stakeFor [0x54]) (blockHash 726) (chainEntry 726 726) rfl stakingNode_entry stakingNode_inForce
    (paying_addresses [0x54]) stakingNode_onTip hcreated
  have hpassed := hagreed.payments { chainBlock 727 with vtx := [coinbaseTx 727, (stakeFor [0x54]).txNew] } rfl
  exact absurd hpassed (by decide)

end Sample

end PupaCoin
