import PupaCoin.Chain.Proofs.ConnectBlockProofs

/-!
# What connecting inputs says about previous transactions

`FetchInputs` for a block reads the index entry of every previous transaction from the queue, else from the
database.
-/

namespace PupaCoin.CTransaction

variable {txin : CTxIn} {pindexBlock : List CBlockIndex} {posThisTx : CDiskTxPos} {flags : Nat} {fValidateSig : Bool}
  {queue' : QueuedChanges}

variable {env : Env} {n : Node} {readTxIndex : UInt256 → Option CTxIndex} {queue : QueuedChanges}
  {inputs : MapPrevTx} {tx : CTransaction}

/-- The index entry that `FetchInputs` finds for a block. -/
def foundEntry (readTxIndex : UInt256 → Option CTxIndex) (queue : QueuedChanges) (hash : UInt256) : Option CTxIndex :=
  if hash ∈ queue then queue.lookup hash else readTxIndex hash

/-- Every fetched transaction was read from where its entry was found to lead. -/
def Fetched (n : Node) (readTxIndex : UInt256 → Option CTxIndex) (queue : QueuedChanges) (inputs : MapPrevTx) :
    Prop :=
  ∀ hash prev, inputs.lookup hash = some prev →
    foundEntry readTxIndex queue hash = some prev.1 ∧ readPrev n hash prev.1 = .ok prev.2

theorem fetchInput_fetched {inputs' : MapPrevTx} (h : Fetched n readTxIndex queue inputs)
    (hround : fetchInput n readTxIndex queue true false inputs txin = .ok inputs') :
    Fetched n readTxIndex queue inputs' := by
  simp only [fetchInput, Bool.true_or, Bool.true_and, decide_eq_true_eq, Bool.false_eq_true, if_false,
    if_true] at hround
  split at hround
  · obtain rfl := Except.ok.inj hround
    exact h
  · split at hround
    · rename_i txindex hfound
      obtain ⟨txPrev, hread, hinputs'⟩ := Guards.bind_eq_ok.mp hround
      obtain rfl := Except.ok.inj hinputs'
      intro hash prev hlookup
      rcases lookup_insert_cases hlookup with ⟨rfl, rfl⟩ | ⟨-, hold⟩
      · exact ⟨hfound, hread⟩
      · exact h hash prev hold
    · cases hround

theorem fetchInputs_spec (hcb : tx.isCoinBase = false)
    (h : tx.fetchInputs n readTxIndex queue true false = .ok inputs) :
    Fetched n readTxIndex queue inputs ∧ ∀ txin ∈ tx.vin, ∃ prev, inputs.lookup txin.prevout.hash = some prev ∧
      txin.prevout.n.toNat < prev.2.vout.length ∧ txin.prevout.n.toNat < prev.1.vSpent.length := by
  unfold fetchInputs at h
  simp only [hcb, Bool.false_eq_true, if_false, Guards.bind_eq_ok] at h
  obtain ⟨fetched, hloop, _, hcheck, heq⟩ := h
  obtain rfl := Except.ok.inj heq
  constructor
  · refine Guards.foldlM_invariant (fun _ inputs => Fetched n readTxIndex queue inputs) ?_ tx.vin [] ∅ fetched
      ?_ hloop
    · intro _ s txin s' hs hround
      exact fetchInput_fetched hs hround
    · intro hash prev hlookup
      cases hlookup
  · intro txin htxin
    have hround := Guards.forM_eq_ok.mp hcheck txin htxin
    unfold checkPrevout at hround
    simp only [Guards.bind_eq_ok, orUndefined_eq_ok, rejectIf_eq_ok, Bool.or_eq_false_iff,
      decide_eq_false_iff_not, Nat.not_le, ge_iff_le] at hround
    obtain ⟨prev, hlookup, hvout, hspent⟩ := hround
    exact ⟨prev, hlookup, hvout, hspent⟩

theorem checkInput_time {a b : Int} (h : checkInput pindexBlock tx inputs a txin = .ok b) :
    ∃ prev, inputs.lookup txin.prevout.hash = some prev ∧ prev.2.nTime ≤ tx.nTime := by
  unfold checkInput at h
  simp only [Guards.bind_eq_ok, orUndefined_eq_ok, rejectIf_eq_ok, decide_eq_false_iff_not] at h
  obtain ⟨prev, hlookup, _, _, _, _, _, htime, _⟩ := h
  exact ⟨prev, hlookup, UInt32.not_lt.mp htime⟩

/-- What an entry has of the one it comes from: its place, its number of outputs, and no output unspent that was
    spent there. -/
structure Outspends (txindex txindex₀ : CTxIndex) : Prop where
  pos : txindex.pos = txindex₀.pos
  length : txindex.vSpent.length = txindex₀.vSpent.length
  unspent : ∀ (i : Nat) spent, txindex.vSpent[i]? = some spent → spent.isNull = true →
    ∃ spent₀, txindex₀.vSpent[i]? = some spent₀ ∧ spent₀.isNull = true

theorem Outspends.refl (txindex : CTxIndex) : Outspends txindex txindex :=
  ⟨rfl, rfl, fun _ spent h hnull => ⟨spent, h, hnull⟩⟩

theorem Outspends.setSpent {txindex txindex₀ : CTxIndex} (h : Outspends txindex txindex₀) {i : Nat}
    {spent : CDiskTxPos} (hspent : txindex.vSpent[i]? = some spent) (hnull : spent.isNull = true)
    (pos : CDiskTxPos) : Outspends (txindex.setSpent i pos) txindex₀ := by
  refine ⟨h.pos, by simp [CTxIndex.setSpent, h.length], ?_⟩
  intro j spentj hj hnullj
  by_cases hij : i = j
  · subst hij
    exact h.unspent i spent hspent hnull
  · refine h.unspent j spentj ?_ hnullj
    simpa [CTxIndex.setSpent, List.getElem?_set, hij] using hj

theorem spendInput_spec {maps maps' : MapPrevTx × QueuedChanges} {txin : CTxIn × Nat}
    (h : spendInput env n tx posThisTx true false flags fValidateSig maps txin = .ok maps') :
    ∃ prev spent, maps.1.lookup txin.1.prevout.hash = some prev ∧
      prev.1.vSpent[txin.1.prevout.n.toNat]? = some spent ∧ spent.isNull = true ∧
      maps' = (maps.1.insert txin.1.prevout.hash (prev.1.setSpent txin.1.prevout.n.toNat posThisTx, prev.2),
        maps.2.insert txin.1.prevout.hash (prev.1.setSpent txin.1.prevout.n.toNat posThisTx)) := by
  unfold spendInput at h
  simp only [Guards.bind_eq_ok, orUndefined_eq_ok, rejectIf_eq_ok, Bool.not_eq_false'] at h
  obtain ⟨prev, hlookup, spent, hspent, _, hnull, hrest⟩ := h
  refine ⟨prev, spent, hlookup, hspent, hnull, ?_⟩
  split at hrest
  · obtain ⟨_, _, hmaps⟩ := Guards.bind_eq_ok.mp hrest
    exact (Except.ok.inj hmaps).symm
  · exact (Except.ok.inj hrest).symm

theorem connectInputs_queued {K : UInt256 → CTxIndex → Prop}
    (hK : ∀ hash (txindex : CTxIndex) (i : Nat) spent pos, K hash txindex → txindex.vSpent[i]? = some spent →
      spent.isNull = true → K hash (txindex.setSpent i pos))
    (hinputs : ∀ hash prev, inputs.lookup hash = some prev → K hash prev.1)
    (hqueue : ∀ hash txindex, queue.lookup hash = some txindex → K hash txindex)
    (h : tx.connectInputs env n inputs queue posThisTx pindexBlock true false flags fValidateSig = .ok queue') :
    ∀ hash txindex, queue'.lookup hash = some txindex → K hash txindex := by
  unfold connectInputs at h
  split at h
  · obtain rfl := Except.ok.inj h
    exact hqueue
  · simp only [Guards.bind_eq_ok] at h
    obtain ⟨_, _, maps, hloop, _, _, heq⟩ := h
    obtain rfl := Except.ok.inj heq
    refine (Guards.foldlM_invariant (fun _ (maps : MapPrevTx × QueuedChanges) =>
      (∀ hash prev, maps.1.lookup hash = some prev → K hash prev.1) ∧
        ∀ hash txindex, maps.2.lookup hash = some txindex → K hash txindex) ?_ tx.vin.zipIdx [] (inputs, queue)
      maps ⟨hinputs, hqueue⟩ hloop).2
    intro _ s txin s' hs hround
    obtain ⟨hsInputs, hsQueue⟩ := hs
    obtain ⟨prev, spent, hlookup, hspent, hnull, rfl⟩ := spendInput_spec hround
    have hset := hK _ _ _ _ posThisTx (hsInputs _ prev hlookup) hspent hnull
    constructor
    · intro hash prev' hprev'
      rcases lookup_insert_cases hprev' with ⟨rfl, rfl⟩ | ⟨-, hold⟩
      · exact hset
      · exact hsInputs hash prev' hold
    · intro hash txindex htxindex
      rcases lookup_insert_cases htxindex with ⟨rfl, rfl⟩ | ⟨-, hold⟩
      · exact hset
      · exact hsQueue hash txindex hold

theorem connectInputs_inputs (hcb : tx.isCoinBase = false)
    (h : tx.connectInputs env n inputs queue posThisTx pindexBlock true false flags fValidateSig = .ok queue') :
    ∀ txin ∈ tx.vin, ∃ prev, inputs.lookup txin.prevout.hash = some prev ∧ prev.2.nTime ≤ tx.nTime ∧
      ∃ spent, prev.1.vSpent[txin.prevout.n.toNat]? = some spent ∧ spent.isNull = true := by
  unfold connectInputs at h
  simp only [hcb, Bool.false_eq_true, if_false, Guards.bind_eq_ok] at h
  obtain ⟨_, hchecks, maps, hloop, _, _, _⟩ := h
  have htime := (Guards.foldlM_invariant (fun (done : List CTxIn) (_ : Int) => ∀ txin ∈ done,
    ∃ prev, inputs.lookup txin.prevout.hash = some prev ∧ prev.2.nTime ≤ tx.nTime) (by
      intro done s x s' hdone hround txin htxin
      rcases List.mem_append.mp htxin with hmem | hlast
      · exact hdone txin hmem
      · obtain rfl := List.mem_singleton.mp hlast
        exact checkInput_time hround)) tx.vin [] 0 _ (by simp) hchecks
  have hunspent := (Guards.foldlM_invariant (fun (done : List (CTxIn × Nat)) (maps : MapPrevTx × QueuedChanges) =>
    (∀ hash prev, maps.1.lookup hash = some prev →
      ∃ prev₀, inputs.lookup hash = some prev₀ ∧ Outspends prev.1 prev₀.1) ∧
    ∀ txin ∈ done, ∃ prev, inputs.lookup txin.1.prevout.hash = some prev ∧
      ∃ spent, prev.1.vSpent[txin.1.prevout.n.toNat]? = some spent ∧ spent.isNull = true) (by
      rintro done s x s' ⟨hs, hdone⟩ hround
      obtain ⟨prev, spent, hlookup, hspent, hnull, rfl⟩ := spendInput_spec hround
      obtain ⟨prev₀, hlookup₀, houtspends⟩ := hs _ prev hlookup
      constructor
      · intro hash prev' hprev'
        rcases lookup_insert_cases hprev' with ⟨rfl, rfl⟩ | ⟨-, hold⟩
        · exact ⟨prev₀, hlookup₀, houtspends.setSpent hspent hnull posThisTx⟩
        · exact hs hash prev' hold
      · intro txin htxin
        rcases List.mem_append.mp htxin with hmem | hlast
        · exact hdone txin hmem
        · obtain rfl := List.mem_singleton.mp hlast
          exact ⟨prev₀, hlookup₀, houtspends.unspent _ spent hspent hnull⟩)) tx.vin.zipIdx [] (inputs, queue) maps
      ⟨fun hash prev h => ⟨prev, h, Outspends.refl prev.1⟩, by simp⟩ hloop
  intro txin htxin
  obtain ⟨prev, hlookup, hle⟩ := htime txin (by simpa using htxin)
  obtain ⟨i, hi⟩ := List.mem_iff_getElem?.mp htxin
  obtain ⟨prev', hlookup', hspent⟩ := hunspent.2 (txin, i)
    (by simpa using List.mem_zipIdx_iff_getElem?.mpr hi)
  rw [hlookup, Option.some.injEq] at hlookup'
  subst hlookup'
  exact ⟨prev, hlookup, hle, hspent⟩

end PupaCoin.CTransaction
