import PupaCoin.Wallet.Proofs.HistoryProofs

/-!
# The flags of a transaction: proofs

A transaction of the wallet has a flag for each of its outputs that says whether it is spent. The flags of a record are
merged with those of another one, flag by flag.
-/

namespace PupaCoin

variable {wtx : WalletTx} {vfNewSpent : List Bool}

namespace WalletTx

theorem setSpent_tx (fSpent : Bool) (nOut : Nat) (wtx : WalletTx) : (wtx.setSpent fSpent nOut).tx = wtx.tx := by
  unfold setSpent
  split_ifs <;> rfl

theorem length_updateFlags (vfNewSpent vfSpent : List Bool) :
    (updateFlags vfNewSpent vfSpent).1.length = vfSpent.length := by
  induction vfNewSpent generalizing vfSpent with
  | nil => rfl
  | cons fNew vfNewSpent ih =>
    cases vfSpent with
    | nil => rfl
    | cons fSpent vfSpent =>
      show (updateFlags vfNewSpent vfSpent).1.length + 1 = vfSpent.length + 1
      rw [ih]

theorem getD_eq_false {flags : List Bool} {n : Nat} (h : flags.length ≤ n) : flags.getD n false = false := by
  rw [List.getD_eq_getElem?_getD, List.getElem?_eq_none h]
  rfl

theorem getD_updateFlags (vfNewSpent vfSpent : List Bool) (n : Nat) :
    (updateFlags vfNewSpent vfSpent).1.getD n false =
      (vfSpent.getD n false || (decide (n < vfSpent.length) && vfNewSpent.getD n false)) := by
  induction vfNewSpent generalizing vfSpent n with
  | nil => simp [updateFlags]
  | cons fNew vfNewSpent ih =>
    cases vfSpent with
    | nil => simp [updateFlags]
    | cons fSpent vfSpent =>
      cases n with
      | zero => simp [updateFlags, Bool.or_comm]
      | succ n => simpa [updateFlags] using ih vfSpent n

theorem updateFlags_snd_iff (vfNewSpent vfSpent : List Bool) : (updateFlags vfNewSpent vfSpent).2 = true ↔
      ∃ n < vfSpent.length, vfNewSpent.getD n false = true ∧ vfSpent.getD n false = false := by
  induction vfNewSpent generalizing vfSpent with
  | nil => simp [updateFlags]
  | cons fNew vfNewSpent ih =>
    cases vfSpent with
    | nil => simp [updateFlags]
    | cons fSpent vfSpent =>
      show ((fNew && !fSpent) || (updateFlags vfNewSpent vfSpent).2) = true ↔ _
      rw [Bool.or_eq_true, ih vfSpent]
      constructor
      · rintro (hhead | ⟨n, hn, hnew, hold⟩)
        · exact ⟨0, Nat.succ_pos _, by simpa using hhead⟩
        · exact ⟨n + 1, Nat.succ_lt_succ hn, hnew, hold⟩
      · rintro ⟨n, hn, hnew, hold⟩
        cases n with
        | zero => exact .inl (by simpa using And.intro hnew hold)
        | succ n => exact .inr ⟨n, Nat.lt_of_succ_lt_succ hn, hnew, hold⟩

theorem updateSpent_tx (vfNewSpent : List Bool) (wtx : WalletTx) : (wtx.updateSpent vfNewSpent).1.tx = wtx.tx := by
  unfold updateSpent
  rcases updateFlags vfNewSpent wtx.vfSpent with ⟨vfSpent, _ | _⟩ <;> rfl

theorem updateSpent_snd (vfNewSpent : List Bool) (wtx : WalletTx) :
    (wtx.updateSpent vfNewSpent).2 = (updateFlags vfNewSpent wtx.vfSpent).2 := by
  unfold updateSpent
  rcases updateFlags vfNewSpent wtx.vfSpent with ⟨vfSpent, _ | _⟩ <;> rfl

theorem length_updateSpent (vfNewSpent : List Bool) (wtx : WalletTx) :
    (wtx.updateSpent vfNewSpent).1.vfSpent.length = wtx.vfSpent.length := by
  have hlength := length_updateFlags vfNewSpent wtx.vfSpent
  unfold updateSpent
  rcases hflags : updateFlags vfNewSpent wtx.vfSpent with ⟨vfSpent, _ | _⟩
  · rfl
  · rw [hflags] at hlength
    exact hlength

theorem vfSpent_of_updated
    (h : (updateFlags vfNewSpent wtx.vfSpent).2 = true) :
    (wtx.updateSpent vfNewSpent).1.vfSpent = (updateFlags vfNewSpent wtx.vfSpent).1 := by
  unfold updateSpent
  rcases hflags : updateFlags vfNewSpent wtx.vfSpent with ⟨vfSpent, _ | _⟩
  · rw [hflags] at h
    cases h
  · rfl

theorem updateSpent_of_not_updated
    (h : (updateFlags vfNewSpent wtx.vfSpent).2 = false) : wtx.updateSpent vfNewSpent = (wtx, false) := by
  unfold updateSpent
  rcases hflags : updateFlags vfNewSpent wtx.vfSpent with ⟨vfSpent, _ | _⟩
  · rfl
  · rw [hflags] at h
    cases h

theorem getD_updateSpent (vfNewSpent : List Bool) (wtx : WalletTx) (n : Nat) :
    (wtx.updateSpent vfNewSpent).1.vfSpent.getD n false =
      (wtx.vfSpent.getD n false || (decide (n < wtx.vfSpent.length) && vfNewSpent.getD n false)) := by
  by_cases hany : (updateFlags vfNewSpent wtx.vfSpent).2 = true
  · rw [vfSpent_of_updated hany, getD_updateFlags]
  · rw [updateSpent_of_not_updated (Bool.eq_false_iff.mpr hany)]
    show wtx.vfSpent.getD n false = _
    cases hold : wtx.vfSpent.getD n false with
    | true => rfl
    | false =>
      by_cases hn : n < wtx.vfSpent.length
      · have hnew : vfNewSpent.getD n false ≠ true := fun hnew =>
          hany ((updateFlags_snd_iff _ _).mpr ⟨n, hn, hnew, hold⟩)
        rw [Bool.eq_false_iff.mpr hnew, Bool.and_false, Bool.or_false]
      · rw [decide_eq_false hn, Bool.false_and, Bool.or_false]

theorem isSpent_of_lt {n : Nat} (h : n < wtx.tx.vout.length) :
    wtx.isSpent n = .ok (wtx.vfSpent.getD n false) :=
  if_neg (Nat.not_le.mpr h)

theorem isSpent_of_ge {n : Nat} (h : wtx.tx.vout.length ≤ n) :
    wtx.isSpent n = .error (.exception "CWalletTx::IsSpent() : nOut out of range") :=
  if_pos h

theorem lt_of_isSpent {n : Nat} {fSpent : Bool} (h : wtx.isSpent n = .ok fSpent) :
    n < wtx.tx.vout.length := by
  by_contra hge
  rw [isSpent_of_ge (Nat.not_lt.mp hge)] at h
  cases h

theorem isSpent_congr {wtx' : WalletTx} (htx : wtx.tx = wtx'.tx)
    (hflags : ∀ n, wtx.vfSpent.getD n false = wtx'.vfSpent.getD n false) (n : Nat) :
    wtx.isSpent n = wtx'.isSpent n := by
  unfold isSpent
  rw [htx, hflags]

theorem isSpent_updateSpent (vfNewSpent : List Bool) {n : Nat} (h : n < wtx.tx.vout.length) :
    (wtx.updateSpent vfNewSpent).1.isSpent n =
      .ok (wtx.vfSpent.getD n false || (decide (n < wtx.vfSpent.length) && vfNewSpent.getD n false)) := by
  rw [isSpent_of_lt (by rw [updateSpent_tx]; exact h), getD_updateSpent]

theorem isSpent_updateSpent_of_covers (h : Covers vfNewSpent wtx.vfSpent)
    {n : Nat} {fSpent : Bool} (hspent : wtx.isSpent n = .ok fSpent) :
    (wtx.updateSpent vfNewSpent).1.isSpent n = .ok (fSpent || vfNewSpent.getD n false) := by
  have hlt := lt_of_isSpent hspent
  rw [isSpent_of_lt hlt] at hspent
  rw [isSpent_updateSpent _ hlt, Except.ok.inj hspent]
  by_cases hn : n < wtx.vfSpent.length
  · rw [decide_eq_true hn, Bool.true_and]
  · rw [h n (Nat.not_lt.mp hn), Bool.and_false]

theorem updateSpent_comm (vfNewSpent vfOther : List Bool) (wtx : WalletTx) (n : Nat) :
    ((wtx.updateSpent vfNewSpent).1.updateSpent vfOther).1.isSpent n =
      ((wtx.updateSpent vfOther).1.updateSpent vfNewSpent).1.isSpent n := by
  refine isSpent_congr (by rw [updateSpent_tx, updateSpent_tx, updateSpent_tx, updateSpent_tx]) (fun m => ?_) n
  rw [getD_updateSpent, getD_updateSpent, getD_updateSpent, getD_updateSpent, length_updateSpent, length_updateSpent,
    Bool.or_right_comm]

theorem updateSpent_idem (vfNewSpent : List Bool) (wtx : WalletTx) :
    (wtx.updateSpent vfNewSpent).1.updateSpent vfNewSpent = ((wtx.updateSpent vfNewSpent).1, false) := by
  have hnone : (updateFlags vfNewSpent (wtx.updateSpent vfNewSpent).1.vfSpent).2 = false := by
    refine Bool.eq_false_iff.mpr fun hany => ?_
    obtain ⟨n, hn, hnew, hold⟩ := (updateFlags_snd_iff _ _).mp hany
    rw [length_updateSpent] at hn
    rw [getD_updateSpent, decide_eq_true hn, hnew, Bool.true_and, Bool.or_true] at hold
    cases hold
  exact updateSpent_of_not_updated hnone

theorem updateSpent_returned (vfNewSpent : List Bool)
    (hstored : wtx.vfSpent.length ≤ wtx.tx.vout.length) :
    (wtx.updateSpent vfNewSpent).2 = true ↔ ∃ n, (wtx.updateSpent vfNewSpent).1.isSpent n ≠ wtx.isSpent n := by
  rw [updateSpent_snd, updateFlags_snd_iff]
  constructor
  · rintro ⟨n, hn, hnew, hold⟩
    refine ⟨n, fun hsame => ?_⟩
    rw [isSpent_updateSpent _ (by omega), isSpent_of_lt (by omega), hold, hnew, decide_eq_true hn] at hsame
    cases hsame
  · rintro ⟨n, hchanged⟩
    have hlt : n < wtx.tx.vout.length := by
      by_contra hge
      exact hchanged ((isSpent_of_ge (by rw [updateSpent_tx]; omega)).trans (isSpent_of_ge (by omega)).symm)
    rw [isSpent_updateSpent _ hlt, isSpent_of_lt hlt] at hchanged
    cases hold : wtx.vfSpent.getD n false with
    | true => exact absurd (by rw [hold]; rfl) hchanged
    | false =>
      rw [hold, Bool.false_or] at hchanged
      have hboth := Bool.eq_true_of_not_eq_false fun heq => hchanged (congrArg Except.ok heq)
      rw [Bool.and_eq_true, decide_eq_true_iff] at hboth
      exact ⟨n, hboth.1, hboth.2, hold⟩

theorem covers_of_exchange {vfSpent : List Bool} {nOutputs : Nat} (hnew : vfNewSpent.length ≤ nOutputs)
    (h : ∀ n < nOutputs, (vfSpent.getD n false || (decide (n < vfSpent.length) && vfNewSpent.getD n false)) =
      (vfNewSpent.getD n false || (decide (n < vfNewSpent.length) && vfSpent.getD n false))) :
    Covers vfNewSpent vfSpent := by
  intro n hn
  by_cases hlt : n < nOutputs
  · have hboth := h n hlt
    rw [getD_eq_false hn, decide_eq_false (Nat.not_lt.mpr hn), Bool.false_and, Bool.or_false, Bool.and_false,
      Bool.or_false] at hboth
    exact hboth.symm
  · exact getD_eq_false (by omega)

/-- `UpdateSpent` merges without loss exactly where the flags that are new lie within the stored ones; so the two may
be exchanged exactly where each of them lies within the other. -/
theorem updateSpent_merges (wtx : WalletTx) (vfNewSpent : List Bool)
    (hstored : wtx.vfSpent.length ≤ wtx.tx.vout.length) (hnew : vfNewSpent.length ≤ wtx.tx.vout.length) :
    (wtx.Merges vfNewSpent ↔ Covers vfNewSpent wtx.vfSpent) ∧ ((∀ n, (wtx.updateSpent vfNewSpent).1.isSpent n =
          ((wtx.withFlags vfNewSpent).updateSpent wtx.vfSpent).1.isSpent n) ↔
        Covers vfNewSpent wtx.vfSpent ∧ Covers wtx.vfSpent vfNewSpent) := by
  refine ⟨⟨fun h n hn => ?_, fun h => ?_⟩, ⟨fun h => ?_, fun h n => ?_⟩⟩
  · by_cases hlt : n < wtx.tx.vout.length
    · have hmerged := h.flags n _ (isSpent_of_lt hlt)
      rw [isSpent_updateSpent _ hlt, decide_eq_false (Nat.not_lt.mpr hn), Bool.false_and, Bool.or_false,
        getD_eq_false hn] at hmerged
      exact (Except.ok.inj hmerged).symm
    · exact getD_eq_false (by omega)
  · exact
      { flags := fun n fSpent hspent => isSpent_updateSpent_of_covers h hspent
        returned := updateSpent_returned vfNewSpent hstored
        commutes := fun vfOther _ n => updateSpent_comm vfNewSpent vfOther wtx n
        idempotent := updateSpent_idem vfNewSpent wtx }
  · have hpoint : ∀ n < wtx.tx.vout.length,
        (wtx.vfSpent.getD n false || (decide (n < wtx.vfSpent.length) && vfNewSpent.getD n false)) =
          (vfNewSpent.getD n false || (decide (n < vfNewSpent.length) && wtx.vfSpent.getD n false)) := by
      intro n hlt
      have hboth := h n
      rw [isSpent_updateSpent _ hlt, @isSpent_updateSpent (wtx.withFlags vfNewSpent) _ _ hlt] at hboth
      exact Except.ok.inj hboth
    constructor
    · exact covers_of_exchange hnew fun n hlt => hpoint n hlt
    · exact covers_of_exchange hstored fun n hlt => (hpoint n hlt).symm
  · by_cases hlt : n < wtx.tx.vout.length
    · rw [isSpent_updateSpent_of_covers h.1 (isSpent_of_lt hlt), Bool.or_comm]
      exact (@isSpent_updateSpent_of_covers (wtx.withFlags vfNewSpent) _ h.2 _ _ (isSpent_of_lt hlt)).symm
    · rw [isSpent_of_ge (by rw [updateSpent_tx]; omega), isSpent_of_ge (by rw [updateSpent_tx]; exact Nat.not_lt.mp hlt)]

end WalletTx

namespace Sample

def flaglessTx : WalletTx := .ofTx (none, none) paymentTx

/-- The flag that is set lies beyond the end of those that are stored, and is lost. -/
theorem updateSpent_loses :
    flaglessTx.vfSpent.length ≤ flaglessTx.tx.vout.length ∧ [true].length ≤ flaglessTx.tx.vout.length ∧
      flaglessTx.updateSpent [true] = (flaglessTx, false) ∧ flaglessTx.isSpent 0 = .ok false ∧
      ¬flaglessTx.Merges [true] := by
  refine ⟨Nat.zero_le 1, le_refl 1, rfl, rfl, fun h => ?_⟩
  exact absurd (Except.ok.inj (h.flags 0 false rfl)) Bool.false_ne_true

def flaggedTx : WalletTx := (WalletTx.ofTx (none, none) { paymentTx with vout := paymentTx.vout ++ paymentTx.vout }).withFlags
  [false, true]

/-- A shorter vector is merged into the stored one, which could not be merged into it. -/
theorem updateSpent_merges_shorter : flaggedTx.Merges [true] ∧ ¬∀ n, (flaggedTx.updateSpent [true]).1.isSpent n =
      ((flaggedTx.withFlags [true]).updateSpent flaggedTx.vfSpent).1.isSpent n := by
  obtain ⟨hmerges, hexchange⟩ := WalletTx.updateSpent_merges flaggedTx [true] (by decide) (by decide)
  refine ⟨hmerges.mpr fun n hn => List.getD_eq_default _ _ (Nat.le_of_succ_le hn), fun h => ?_⟩
  exact absurd ((hexchange.mp h).2 1 (le_refl 1)) (by decide)

end Sample

end PupaCoin
