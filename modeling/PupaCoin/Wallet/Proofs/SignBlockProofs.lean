import PupaCoin.Wallet.Proofs.CoinStakeProofs

/-!
# Blocks that are made of templates

A transaction only connects when the transactions it spends are not later than it (`connectInputs_inputs`), so
leaving out the transactions that are later than the coinstake leaves nothing without its inputs. The coinstake
however was given the fees of all of them.
-/

namespace PupaCoin

variable {coinbase tx : CTransaction} {done : List CTransaction} {st st' : ConnectState} {inputs : MapPrevTx}
  {fJustCheck : Bool} {nLastCoinStakeSearchTime : Int} {signed : Signing}

open DependencyOrder

variable {pindex : CBlockIndex}

namespace CBlock

variable {env : Env} {n : Node} {block : CBlock} {pindex : CBlockIndex}

/-- What is known of a queued entry while the transactions of a template are connected: it belongs to the coinbase or
    to one of the transactions connected so far, or it comes from the chain. -/
def Queued (env : Env) (n : Node) (coinbase : CTransaction) (done : List CTransaction) (hash : UInt256)
    (txindex : CTxIndex) : Prop :=
  (txindex.pos = .mempool ∧ (hash = env.getHash coinbase ∨ ∃ tx ∈ done, env.getHash tx = hash)) ∨
    ∃ txindex₀, n.view.readTxIndex hash = some txindex₀ ∧ CTransaction.Outspends txindex txindex₀

/-- An output of a transaction in front is provided to a transaction that is not earlier. -/
def Provides (env : Env) (prev tx : CTransaction) (prevout : COutPoint) : Prop :=
  env.getHash prev = prevout.hash ∧ prevout.n.toNat < prev.vout.length ∧ prev.nTime ≤ tx.nTime

/-- What holds while the transactions of a template are connected. -/
structure Connected (env : Env) (n : Node) (coinbase : CTransaction) (done : List CTransaction)
    (st : ConnectState) : Prop where
  nTxPos : st.nTxPos = 1
  queue : ∀ hash txindex, st.mapQueuedChanges.lookup hash = some txindex → Queued env n coinbase done hash txindex
  order : Resolves n.OnChain (Provides env) (fun tx => tx.vin.map CTxIn.prevout) done

theorem Queued.mono {done' : List CTransaction} {hash : UInt256} {txindex : CTxIndex} (hsub : ∀ tx ∈ done, tx ∈ done')
    (h : Queued env n coinbase done hash txindex) : Queued env n coinbase done' hash txindex := by
  rcases h with ⟨hpos, hown⟩ | hchain
  · refine Or.inl ⟨hpos, ?_⟩
    rcases hown with hcoinbase | ⟨tx, htx, hhash⟩
    · exact Or.inl hcoinbase
    · exact Or.inr ⟨tx, hsub tx htx, hhash⟩
  · exact Or.inr hchain

theorem Connected.step (hposition : pindex.nFile = 1 ∧ pindex.nBlockPos = 1)
    (hcoinbase : n.mempool.lookup (env.getHash coinbase) = none)
    (hpool : ∀ tx ∈ done, n.mempool.lookup (env.getHash tx) = some tx) (hordinary : tx.isCoinBase = false)
    (h : Connected env n coinbase done st) (hround : connectTx env n pindex true st tx = .ok st') :
    Connected env n coinbase (done ++ [tx]) st' := by
  obtain ⟨inputs, _, _, queued, _, hspend, rfl⟩ := connectTx_of_spending hordinary hround
  have hpos : txPos pindex st = .mempool := by
    unfold txPos CDiskTxPos.mempool
    rw [hposition.1, hposition.2, h.nTxPos]
  obtain ⟨hfetched, hfound⟩ := CTransaction.fetchInputs_spec hordinary hspend.fetched
  have hinputs : ∀ hash prev, inputs.lookup hash = some prev → Queued env n coinbase done hash prev.1 := by
    intro hash prev hlookup
    obtain ⟨hentry, _⟩ := hfetched hash prev hlookup
    unfold CTransaction.foundEntry at hentry
    split at hentry
    · exact h.queue hash prev.1 hentry
    · exact Or.inr ⟨prev.1, hentry, CTransaction.Outspends.refl prev.1⟩
  refine ⟨h.nTxPos, ?_, ?_⟩
  · intro hash txindex hlookup
    rcases lookup_insert_cases hlookup with ⟨rfl, rfl⟩ | ⟨-, hlookup⟩
    · exact Or.inl ⟨hpos, Or.inr ⟨tx, by simp, rfl⟩⟩
    · refine Queued.mono (fun tx htx => List.mem_append_left [_] htx) ?_
      refine CTransaction.connectInputs_queued ?_ hinputs h.queue hspend.connected hash txindex hlookup
      rintro hash txindex i spent pos (⟨hmempool, hown⟩ | ⟨txindex₀, hchain, houtspends⟩) hspent hnull
      · exact Or.inl ⟨hmempool, hown⟩
      · exact Or.inr ⟨txindex₀, hchain, houtspends.setSpent hspent hnull pos⟩
  · refine resolves_concat.mpr ⟨h.order, ?_⟩
    intro prevout hprevout
    obtain ⟨txin, htxin, rfl⟩ := List.mem_map.mp hprevout
    obtain ⟨prev, hlookup, hvout, _⟩ := hfound txin htxin
    obtain ⟨prev', hlookup', htime, spent, hspent, hnull⟩ :=
      CTransaction.connectInputs_inputs hordinary hspend.connected txin htxin
    rw [hlookup, Option.some.injEq] at hlookup'
    subst hlookup'
    rcases hinputs _ prev hlookup with ⟨hmempool, hown⟩ | ⟨txindex₀, hchain, houtspends⟩
    · -- The entry stands for the memory pool, which has the transaction that was connected.
      have hread := (hfetched _ prev hlookup).2
      unfold CTransaction.readPrev at hread
      rw [hmempool] at hread
      simp only [beq_self_eq_true, if_true] at hread
      rcases hown with hhash | ⟨tx', htx', hhash⟩
      · rw [hhash, hcoinbase] at hread
        cases hread
      · rw [← hhash, hpool tx' htx'] at hread
        have heq : tx' = prev.2 := Except.ok.inj hread
        exact Or.inr ⟨tx', htx', hhash, by rw [heq]; exact hvout, by rw [heq]; exact htime⟩
    · obtain ⟨spent₀, hspent₀, hnull₀⟩ := houtspends.unspent _ spent hspent hnull
      exact Or.inl ⟨txindex₀, spent₀, hchain, hspent₀, hnull₀⟩

/-- The transactions of a template are connected one after the other. By induction on those that are left. -/
theorem Connected.run {rest : List CTransaction} (hposition : pindex.nFile = 1 ∧ pindex.nBlockPos = 1)
    (hcoinbase : n.mempool.lookup (env.getHash coinbase) = none)
    (hpool : ∀ tx ∈ done ++ rest, n.mempool.lookup (env.getHash tx) = some tx)
    (hordinary : ∀ tx ∈ rest, tx.isCoinBase = false) (h : Connected env n coinbase done st)
    (hloop : rest.foldlM (connectTx env n pindex true) st = .ok st') :
    Connected env n coinbase (done ++ rest) st' := by
  induction rest generalizing done st with
  | nil =>
    rw [Guards.foldlM_nil_eq_ok] at hloop
    rw [List.append_nil, ← hloop]
    exact h
  | cons tx rest ih =>
    obtain ⟨st1, hround, hrest⟩ := Guards.foldlM_cons_eq_ok.mp hloop
    have hsplit : done ++ tx :: rest = (done ++ [tx]) ++ rest := by simp
    rw [hsplit] at hpool ⊢
    refine ih hpool (fun t ht => hordinary t (List.mem_cons_of_mem tx ht)) ?_ hrest
    exact h.step hposition hcoinbase (fun t ht => hpool t (by simp [ht])) (hordinary tx List.mem_cons_self) hround

theorem vtx_of_head (h : block.vtx[0]? = some coinbase) : block.vtx = coinbase :: block.vtx.tail := by
  cases hvtx : block.vtx with
  | nil => simp [hvtx] at h
  | cons tx rest =>
    obtain rfl : tx = coinbase := by simpa [hvtx] using h
    rfl

theorem Template.order (h : Template env n block pindex st) :
    Resolves n.OnChain (Provides env) (fun tx => tx.vin.map CTxIn.prevout) block.vtx.tail := by
  obtain ⟨coinbase, hhead, hcb, hpooled⟩ := h.coinbase
  have hloop := h.connects
  rw [vtx_of_head hhead] at hloop
  obtain ⟨st1, hround, hrest⟩ := Guards.foldlM_cons_eq_ok.mp hloop
  obtain ⟨_, _, rfl⟩ := connectTx_of_coinbase hcb hround
  have hpos : txPos pindex (connectInit pindex block true) = .mempool := by
    unfold txPos CDiskTxPos.mempool
    rw [h.position.1, h.position.2]
    rfl
  refine (Connected.run h.position hpooled (by simpa using h.pool) (fun tx htx => (h.ordinary tx htx).1)
    ⟨rfl, ?_, resolves_nil⟩ hrest).order
  intro hash txindex hlookup
  rcases lookup_insert_cases hlookup with ⟨rfl, rfl⟩ | ⟨-, hold⟩
  · exact Or.inl ⟨hpos, Or.inl rfl⟩
  · cases hold

theorem checkInputs_sum {pindexBlock : List CBlockIndex} {nValueIn : Int}
    (h : tx.vin.foldlM (CTransaction.checkInput pindexBlock tx inputs) 0 = .ok nValueIn) :
    nValueIn = tx.spentValue inputs := by
  refine Guards.foldlM_invariant (fun done (nValueIn : Int) => nValueIn =
    (done.map fun txin => CTransaction.prevValue inputs txin.prevout).sum) ?_ tx.vin [] 0 nValueIn rfl h
  intro done s txin s' hs hround
  unfold CTransaction.checkInput at hround
  simp only [Guards.bind_eq_ok, orUndefined_eq_ok] at hround
  obtain ⟨prev, hlookup, _, _, _, _, _, _, txout, hout, _, _, sum, hsum, _, _, heq⟩ := hround
  obtain rfl := Except.ok.inj heq
  have hvalue := CTransaction.prevValue_of_lookup hlookup hout
  rw [addI64_eq_ok hsum, hs, List.map_append, List.sum_append, List.map_singleton, List.sum_singleton, hvalue]

theorem fee_nonneg (hround : connectTx env n pindex fJustCheck st tx = .ok st')
    (hfetch : tx.fetchInputs n n.view.readTxIndex st.mapQueuedChanges true false = .ok inputs) :
    0 ≤ LedgerEntry.fee ⟨tx, inputs⟩ := by
  unfold LedgerEntry.fee
  split
  · exact le_rfl
  · rename_i hkind
    simp only [Bool.or_eq_true, not_or, Bool.not_eq_true] at hkind
    obtain ⟨inputs', _, _, _, _, hspend, _⟩ := connectTx_of_spending hkind.1 hround
    obtain rfl : inputs' = inputs := Except.ok.inj (hspend.fetched.symm.trans hfetch)
    have hconnected := hspend.connected
    unfold CTransaction.connectInputs at hconnected
    simp only [hkind.1, Bool.false_eq_true, if_false, Guards.bind_eq_ok] at hconnected
    obtain ⟨nValueIn, hsum, _, _, _, hfees, _⟩ := hconnected
    unfold CTransaction.checkFees at hfees
    simp only [hkind.2, Bool.false_eq_true, if_false, Guards.bind_eq_ok, rejectIf_eq_ok,
      decide_eq_false_iff_not] at hfees
    obtain ⟨nValueOut, hout, _, hless, _⟩ := hfees
    have hspent := checkInputs_sum hsum
    have hvalue := CTransaction.getValueOut_eq_ok hout
    unfold LedgerEntry.issue LedgerEntry.spent
    rw [hkind.1]
    simp only [Bool.false_eq_true, if_false]
    omega

theorem ledgerFrom_fee_nonneg (vtx : List CTransaction) (st : ConnectState) :
    ∀ entry ∈ ledgerFrom env n pindex fJustCheck st vtx, 0 ≤ entry.fee := by
  induction vtx generalizing st with
  | nil => simp [ledgerFrom]
  | cons tx vtx ih =>
    unfold ledgerFrom
    split
    · simp
    · rename_i st' hround
      obtain ⟨inputs, hfetch, _⟩ := connectTx_totals hround
      simp only [hfetch, Except.toOption, Option.getD_some, List.mem_cons]
      rintro entry (rfl | hentry)
      · exact fee_nonneg hround hfetch
      · exact ih st' entry hentry

end CBlock

theorem ledgerSum_le_filter_iff {f : LedgerEntry → Int} {p : LedgerEntry → Bool} {ledger : List LedgerEntry}
    (hnonneg : ∀ entry ∈ ledger, 0 ≤ f entry) :
    ledgerSum f ledger ≤ ledgerSum f (ledger.filter p) ↔ ∀ entry ∈ ledger, p entry = false → f entry = 0 := by
  have hle : ∀ ledger : List LedgerEntry, (∀ entry ∈ ledger, 0 ≤ f entry) →
      ledgerSum f (ledger.filter p) ≤ ledgerSum f ledger := by
    intro ledger
    induction ledger with
    | nil => simp
    | cons entry ledger ih =>
      intro hall
      have hrest := ih fun e he => hall e (List.mem_cons_of_mem entry he)
      have hfirst := hall entry List.mem_cons_self
      rw [List.filter_cons]
      split
      · simp only [ledgerSum_cons]
        omega
      · rw [ledgerSum_cons]
        omega
  induction ledger with
  | nil => simp
  | cons entry ledger ih =>
    have hall : ∀ e ∈ ledger, 0 ≤ f e := fun e he => hnonneg e (List.mem_cons_of_mem entry he)
    have hfirst := hnonneg entry List.mem_cons_self
    have hrest := hle ledger hall
    refine Iff.trans ?_ ((and_congr Iff.rfl (ih hall)).trans List.forall_mem_cons.symm)
    rw [List.filter_cons]
    cases hp : p entry with
    | true =>
      simp only [if_true, ledgerSum_cons, Bool.true_eq_false, false_implies, true_and]
      omega
    | false =>
      simp only [Bool.false_eq_true, if_false, ledgerSum_cons, true_implies]
      omega

namespace CBlock

variable {env : Env} {n : Node} {w : StakeWallet} {p : Payees} {block : CBlock} {nFees : Int}

theorem insertCoinStake_vtx {txCoinStake : CTransaction} :
    (block.insertCoinStake env coinbase txCoinStake).vtx = { coinbase with nTime := txCoinStake.nTime } ::
      txCoinStake :: block.vtx.tail.filter fun tx => !decide (tx.nTime > txCoinStake.nTime) := by
  unfold insertCoinStake
  simp

theorem signBlock_signed (hwork : block.isProofOfStake = false)
    (h : block.signBlock env n w p nFees nLastCoinStakeSearchTime = .ok signed) (hsigned : signed.fSigned = true) :
    ∃ coinbase stake, createCoinStake env n w p block.nBits 1 nFees (newCoinStake n) = .ok stake ∧
      signed.block.vtx = (block.insertCoinStake env coinbase stake.txNew).vtx := by
  have hfalse : ∀ b nLast, (pure ⟨false, b, nLast⟩ : Except Stop Signing) ≠ .ok signed := by
    intro b nLast heq
    rw [← Except.ok.inj heq] at hsigned
    cases hsigned
  unfold signBlock at h
  simp only [Guards.bind_eq_ok, hwork, Bool.false_eq_true, if_false] at h
  obtain ⟨coinbase, _, txout, _, h⟩ := h
  split at h
  · exact absurd h (hfalse _ _)
  · split at h
    · split at h
      · rename_i stake hstake
        obtain ⟨pindexBest, _, h⟩ := Guards.bind_eq_ok.mp h
        split at h
        · obtain rfl := Except.ok.inj h
          refine ⟨coinbase, stake, hstake, ?_⟩
          simp only [signWith]
          split <;> rfl
        · exact absurd h (hfalse _ _)
      · exact absurd h (hfalse _ _)
      · cases h
    · exact absurd h (hfalse _ _)

theorem created_of_builds {nSearchInterval : Int} {txNew : CTransaction} {created : CoinStake}
    (b : Builds env n w p nSearchInterval nFees txNew created) (hchain : w.OnChain env n) :
    created.txNew.created n = b.nReward := by
  obtain ⟨nTargetValue, nSpendTime, setCoins, hset, hsub⟩ := b.selected
  have hvalue : ∀ c ∈ created.coins, (((CTransaction.readFromDisk n n.view.readTxIndex (c.outPoint env)).bind
      fun prev => prev.1.vout[(c.outPoint env).n.toNat]?).map CTxOut.nValue).getD 0 = c.txout.nValue := by
    intro c hc
    obtain ⟨txindex, hread⟩ := hchain.coins nTargetValue nSpendTime setCoins hset c (hsub c hc)
    have hout : c.tx.vout[(c.outPoint env).n.toNat]? = some c.txout := List.getElem?_eq_getElem c.n_lt
    rw [hread, Option.bind_some, hout]
    rfl
  have hspent : (created.txNew.vin.map fun txin =>
      (((CTransaction.readFromDisk n n.view.readTxIndex txin.prevout).bind fun prev =>
        prev.1.vout[txin.prevout.n.toNat]?).map CTxOut.nValue).getD 0) = created.coins.map fun c => c.txout.nValue := by
    have hprevouts : (created.txNew.vin.map fun txin =>
        (((CTransaction.readFromDisk n n.view.readTxIndex txin.prevout).bind fun prev =>
          prev.1.vout[txin.prevout.n.toNat]?).map CTxOut.nValue).getD 0)
        = (created.txNew.vin.map CTxIn.prevout).map fun prevout =>
          (((CTransaction.readFromDisk n n.view.readTxIndex prevout).bind fun prev =>
            prev.1.vout[prevout.n.toNat]?).map CTxOut.nValue).getD 0 := by
      rw [List.map_map]
      rfl
    rw [hprevouts, b.prevouts, List.map_map]
    exact List.map_congr_left hvalue
  unfold CTransaction.created
  rw [b.value, hspent, coinsValue]
  ring

theorem Template.isProofOfStake (htemplate : block.Template env n pindex st) : block.isProofOfStake = false := by
  have hordinary := htemplate.ordinary
  unfold CBlock.isProofOfStake
  split
  · rename_i hvtx
    rw [hvtx] at hordinary
    exact (hordinary _ (by simp)).2
  · rfl

theorem Template.fees_eq (htemplate : block.Template env n pindex st) : st.nFees = ledgerSum LedgerEntry.fee
      (ledgerFrom env n pindex true (connectInit pindex block true) block.vtx) := by
  obtain ⟨_, _, hsum⟩ := loop_totals block.vtx htemplate.connects
  rw [hsum]
  simp [connectInit]

theorem Template.resolves_filter (htemplate : block.Template env n pindex st) (nTime : UInt32)
    : Resolves n.OnChain (fun (prev _ : CTransaction) (prevout : COutPoint) =>
      env.getHash prev = prevout.hash ∧ prevout.n.toNat < prev.vout.length)
      (fun tx => tx.vin.map CTxIn.prevout) (block.vtx.tail.filter fun tx => !decide (tx.nTime > nTime)) := by
  have hkept : Resolves n.OnChain (Provides env) (fun tx => tx.vin.map CTxIn.prevout)
      (block.vtx.tail.filter fun tx => !decide (tx.nTime > nTime)) := by
    refine htemplate.order.filter ?_
    intro prev tx prevout hprovides hstays
    have hle := hprovides.2.2
    simp only [Bool.not_eq_true', decide_eq_false_iff_not, gt_iff_lt, UInt32.not_lt] at hstays ⊢
    exact UInt32.le_trans hle hstays
  exact hkept.mono (fun _ h => h) fun _ _ _ h => ⟨h.1, h.2.1⟩

theorem blockReward_le_iff (nMoneySupply nHeight : Int) (nTime : UInt32) :
    blockReward nMoneySupply nHeight (ledgerSum LedgerEntry.fee
        (ledgerFrom env n pindex true (connectInit pindex block true) block.vtx))
      ≤ blockReward nMoneySupply nHeight (block.feesUntil env n pindex nTime) ↔
      ∀ entry ∈ ledgerFrom env n pindex true (connectInit pindex block true) block.vtx,
        entry.tx.nTime > nTime → entry.fee = 0 := by
  have hnonneg : ∀ entry ∈ ledgerFrom env n pindex true (connectInit pindex block true) block.vtx,
      0 ≤ entry.fee := ledgerFrom_fee_nonneg block.vtx _
  have hsum := ledgerSum_le_filter_iff (p := fun entry => !decide (entry.tx.nTime > nTime)) hnonneg
  simp only [Bool.not_eq_false', decide_eq_true_eq] at hsum
  rw [← hsum, blockReward_eq, blockReward_eq _ _ (block.feesUntil _ _ _ _)]
  unfold feesUntil
  omega

/-- **Staked blocks.** A template whose transactions connect becomes a block that stays connectable exactly when the
    transactions that are left out pay no fee: those that are later than the time from which `SignBlock` starts. -/
theorem signBlock_connectable_iff {nLastCoinStakeSearchTime : Int} {signed : Signing} {pindex : CBlockIndex}
    {st : ConnectState} {hBest : UInt256} (hbest : n.pindexBest = some hBest)
    (htemplate : block.Template env n pindex st) (hfees : nFees = st.nFees) (hchain : w.OnChain env n)
    (h : block.signBlock env n w p nFees nLastCoinStakeSearchTime = .ok signed) (hsigned : signed.fSigned = true) :
    signed.block.Connectable env n hBest (block.feesUntil env n pindex (newCoinStake n).nTime) ↔
      ∀ entry ∈ ledgerFrom env n pindex true (connectInit pindex block true) block.vtx,
        entry.tx.nTime > (newCoinStake n).nTime → entry.fee = 0 := by
  obtain ⟨coinbase, stake, hstake, hvtx⟩ := signBlock_signed htemplate.isProofOfStake h hsigned
  rw [insertCoinStake_vtx] at hvtx
  obtain ⟨b⟩ := createCoinStake_builds hstake
  obtain rfl : hBest = b.hBest := by simpa [hbest] using b.best
  have htime : stake.txNew.nTime = (newCoinStake n).nTime := by
    obtain ⟨k, hk, htime⟩ := b.time
    have hone : (min 1 nMaxStakeSearchInterval).toNat = 1 := by decide
    rw [hone, List.mem_range, Nat.lt_one_iff] at hk
    subst hk
    rw [htime]
    exact UInt32.sub_zero _
  have htotal := hfees.trans htemplate.fees_eq
  have hinputs : Resolves n.OnChain (fun (prev _ : CTransaction) (prevout : COutPoint) =>
      env.getHash prev = prevout.hash ∧ prevout.n.toNat < prev.vout.length)
      (fun tx => tx.vin.map CTxIn.prevout) (signed.block.vtx.drop 2) := by
    rw [hvtx]
    exact htemplate.resolves_filter stake.txNew.nTime
  obtain ⟨nMoneySupply, hsupply, hreward⟩ := Guards.bind_eq_ok.mp b.reward
  have hreward := Except.ok.inj hreward
  have hcovered : b.nReward ≤ blockReward nMoneySupply (b.pindexPrev.nHeight + 1)
      (block.feesUntil env n pindex (newCoinStake n).nTime) ↔
      ∀ entry ∈ ledgerFrom env n pindex true (connectInit pindex block true) block.vtx,
        entry.tx.nTime > (newCoinStake n).nTime → entry.fee = 0 := by
    rw [← hreward]
    simp only [htotal]
    exact blockReward_le_iff nMoneySupply _ _
  rw [← hcovered]
  constructor
  · intro hconnectable
    obtain ⟨coinstake, pindexPrev, nCoinAge, nReward, hsecond, hentry, _, hrewarded, hle⟩ := hconnectable.reward
    rw [hvtx] at hsecond
    obtain rfl : stake.txNew = coinstake := by simpa using hsecond
    obtain rfl : b.pindexPrev = pindexPrev := by simpa [b.entry] using hentry
    obtain ⟨nMoneySupply', hsupply', hrewarded⟩ := Guards.bind_eq_ok.mp hrewarded
    obtain rfl : nMoneySupply = nMoneySupply' := Except.ok.inj (hsupply.symm.trans hsupply')
    rw [created_of_builds b hchain] at hle
    rw [← Except.ok.inj hrewarded] at hle
    exact hle
  · intro hle
    refine ⟨hinputs, stake.txNew, b.pindexPrev, b.nCoinAge, blockReward nMoneySupply (b.pindexPrev.nHeight + 1)
      (block.feesUntil env n pindex (newCoinStake n).nTime), ?_, b.entry, ?_, ?_, ?_⟩
    · rw [hvtx]
      rfl
    · rw [hchain.committed]
      exact b.coinAge
    · unfold getProofOfStakeReward
      rw [hsupply]
      rfl
    · rw [created_of_builds b hchain]
      exact hle

end CBlock

namespace Sample

def lateTx : CTransaction where
  nVersion := 1
  nTime := 1700000005
  vin := [⟨⟨blockHash 2, 0⟩, [], 0xffffffff⟩]
  vout := [⟨4 * coin, [0x51]⟩]
  nLockTime := 900100

def templateNode : Node := { stakingNode with mempool := CTxMemPool.empty.addUnchecked (env.getHash lateTx) lateTx }

def lateTemplate : CBlock :=
  { chainBlock 727 with vtx := [{ coinbaseTx 727 with vout := [⟨0, []⟩] }, lateTx] }

def dummyIndex : CBlockIndex := { chainEntry 726 726 with nFile := 1, nBlockPos := 1 }

theorem eq_ok_get {α : Type} {x : Except Stop α} (h : x.toOption.isSome = true) : x = .ok (x.toOption.get h) := by
  cases x with
  | error e => cases h
  | ok a => rfl

theorem lateTemplate_connects : (lateTemplate.vtx.foldlM (CBlock.connectTx stakeEnv templateNode dummyIndex true)
    (CBlock.connectInit dummyIndex lateTemplate true)).toOption.isSome = true := by decide

def lateState : ConnectState := Option.get _ lateTemplate_connects

theorem lateTemplate_template : CBlock.Template stakeEnv templateNode lateTemplate dummyIndex lateState where
  coinbase := ⟨_, rfl, by decide, by decide⟩
  ordinary := by
    intro tx htx
    obtain rfl := List.mem_singleton.mp htx
    exact ⟨by decide, by decide⟩
  pool := by
    intro tx htx
    obtain rfl := List.mem_singleton.mp htx
    decide
  position := ⟨rfl, rfl⟩
  connects := eq_ok_get lateTemplate_connects

theorem staker_onChain : staker.OnChain stakeEnv templateNode where
  committed := rfl
  coins := by
    intro nTargetValue nSpendTime setCoins hset c hc
    obtain rfl := Option.some.inj hset
    obtain rfl := List.mem_singleton.mp hc
    exact ⟨⟨⟨1, blockPos 1, blockPos 1 + 81⟩, [.null]⟩, by decide⟩

theorem lateTemplate_signs : (lateTemplate.signBlock stakeEnv templateNode staker (paying [0x53]) coin 0).toOption.isSome
    = true := by decide

def lateSigned : CBlock.Signing := Option.get _ lateTemplate_signs

theorem lateSigned_connectable_iff : lateSigned.block.Connectable stakeEnv templateNode (blockHash 726)
        (lateTemplate.feesUntil stakeEnv templateNode dummyIndex (newCoinStake templateNode).nTime) ↔
      ∀ entry ∈ CBlock.ledgerFrom stakeEnv templateNode dummyIndex true
        (CBlock.connectInit dummyIndex lateTemplate true) lateTemplate.vtx,
        entry.tx.nTime > (newCoinStake templateNode).nTime → entry.fee = 0 :=
  CBlock.signBlock_connectable_iff rfl lateTemplate_template (by decide : coin = lateState.nFees) staker_onChain
    (eq_ok_get lateTemplate_signs) (by decide : lateSigned.fSigned = true)

/-- The late transaction is left out, but the coinstake has its fee. -/
theorem lateSigned_takes_fee :
    ¬ ∀ (env : Env) (n : Node) (w : StakeWallet) (p : Payees) (block : CBlock) (nFees nLastCoinStakeSearchTime : Int)
      (signed : CBlock.Signing) (pindex : CBlockIndex) (st : ConnectState) (hBest : UInt256),
      n.pindexBest = some hBest → block.Template env n pindex st → nFees = st.nFees → w.OnChain env n →
      block.signBlock env n w p nFees nLastCoinStakeSearchTime = .ok signed → signed.fSigned = true →
      signed.block.Connectable env n hBest (block.feesUntil env n pindex (newCoinStake n).nTime) := by
  intro hall
  have hconnectable := hall stakeEnv templateNode staker (paying [0x53]) lateTemplate coin 0 lateSigned dummyIndex
    lateState (blockHash 726) rfl lateTemplate_template (by decide) staker_onChain
    (eq_ok_get lateTemplate_signs) (by decide)
  obtain ⟨coinstake, pindexPrev, nCoinAge, nReward, hsecond, hentry, _, hreward, hle⟩ := hconnectable.reward
  have hcoinstake : lateSigned.block.vtx[1]?.map (CTransaction.created templateNode) = some (140001 * coin) := by
    decide
  rw [hsecond, Option.map_some, Option.some.injEq] at hcoinstake
  obtain rfl : chainEntry 726 726 = pindexPrev := Option.some.inj (stakingNode_entry.symm.trans hentry)
  unfold getProofOfStakeReward at hreward
  have hvalue : (do
      let nMoneySupply ← bestMoneySupply templateNode
      return blockReward nMoneySupply ((chainEntry 726 726).nHeight + 1)
        (lateTemplate.feesUntil stakeEnv templateNode dummyIndex (newCoinStake templateNode).nTime) :
          Except Stop Int) = .ok (140000 * coin) := by decide
  rw [hvalue] at hreward
  rw [hcoinstake, ← Except.ok.inj hreward] at hle
  exact absurd hle (by decide)

end Sample

end PupaCoin
