import PupaCoin.Script.Proofs.EvalProofs

/-!
# Merging of signatures: proofs

A signature goes to a key that it is valid for, so what is pushed for the keys in their order is valid in this order, and
`OP_CHECKMULTISIG` accepts it. Which key a signature goes to is its own business only where it is valid for one key.
-/

namespace PupaCoin

open Function CScript

namespace CScript

section Match

variable {checkSig : List UInt8 → List UInt8 → CScript → Bool} {scriptPubKey : CScript} {sig key : List UInt8}
  {sigs1 sigs2 allsigs keys : List (List UInt8)} {sigs : List UInt8 → Option (List UInt8)}

theorem solverRet_of_solver {t : TxnOutType} {vSolutions : List (List UInt8)}
    (h : solver scriptPubKey = some (t, vSolutions)) : solverRet scriptPubKey = (t, vSolutions) := by
  rw [solver] at h
  rw [solverRet]
  split_ifs at h ⊢ with hscript
  · exact Option.some.inj h
  · cases hfound : mTemplates.findSome? fun tplate =>
        (matchTemplate tplate.2 scriptPubKey []).map fun vSolutions => (tplate.1, vSolutions) with
    | none =>
      rw [hfound] at h
      cases h
    | some found =>
      rw [hfound] at h
      dsimp only at h
      split_ifs at h
      exact Option.some.inj h

theorem mem_allSigs : sig ∈ allSigs sigs1 sigs2 ↔ (sig ∈ sigs1 ∨ sig ∈ sigs2) ∧ sig ≠ [] := by
  rw [allSigs, List.mem_insertionSort, List.mem_dedup, List.mem_filter, List.mem_append]
  simp

/-- A signature goes to a key without one that it is valid for, unless there is none. By induction on the keys. -/
theorem matchKey_cases (sigs : List UInt8 → Option (List UInt8)) :
    (matchKey checkSig scriptPubKey sig sigs keys = sigs ∧
        ∀ key ∈ keys, checkSig sig key scriptPubKey = true → (sigs key).isSome = true) ∨
      ∃ key ∈ keys, sigs key = none ∧ checkSig sig key scriptPubKey = true ∧
        matchKey checkSig scriptPubKey sig sigs keys = update sigs key (some sig) := by
  induction keys with
  | nil => exact .inl ⟨rfl, nofun⟩
  | cons key keys ih =>
    rw [matchKey]
    by_cases htaken : (sigs key).isSome = true
    · rw [if_pos htaken]
      rcases ih with ⟨hsame, hall⟩ | ⟨key', hmem, hrest⟩
      · refine .inl ⟨hsame, fun key' hmem hvalid => ?_⟩
        rcases List.mem_cons.mp hmem with rfl | hmem
        · exact htaken
        · exact hall key' hmem hvalid
      · exact .inr ⟨key', List.mem_cons_of_mem _ hmem, hrest⟩
    · rw [if_neg htaken]
      by_cases hvalid : checkSig sig key scriptPubKey = true
      · rw [if_pos hvalid]
        exact .inr ⟨key, List.mem_cons_self, Option.not_isSome_iff_eq_none.mp htaken, hvalid, rfl⟩
      · rw [if_neg hvalid]
        rcases ih with ⟨hsame, hall⟩ | ⟨key', hmem, hrest⟩
        · refine .inl ⟨hsame, fun key' hmem hvalid' => ?_⟩
          rcases List.mem_cons.mp hmem with rfl | hmem
          · exact absurd hvalid' hvalid
          · exact hall key' hmem hvalid'
        · exact .inr ⟨key', List.mem_cons_of_mem _ hmem, hrest⟩

/-- The signatures of the map are valid for their keys and among those that have been looked at; a key has one if there
is a valid one for it that is not valid for another key. -/
structure Matched (checkSig : List UInt8 → List UInt8 → CScript → Bool) (scriptPubKey : CScript)
    (keys allsigs : List (List UInt8)) (sigs : List UInt8 → Option (List UInt8)) : Prop where
  valid : ∀ key sig, sigs key = some sig → sig ∈ allsigs ∧ checkSig sig key scriptPubKey = true
  found : ∀ key ∈ keys, ∀ sig ∈ allsigs, checkSig sig key scriptPubKey = true →
    (∀ key' ∈ keys, checkSig sig key' scriptPubKey = true → key' = key) → (sigs key).isSome = true

/-- The loop over the signatures. By induction from the right. -/
theorem matched_foldl : Matched checkSig scriptPubKey keys allsigs
    (allsigs.foldl (fun sigs sig => matchKey checkSig scriptPubKey sig sigs keys) fun _ => none) := by
  induction allsigs using List.reverseRecOn with
  | nil => exact ⟨fun _ _ h => (nomatch h), fun _ _ _ hmem => absurd hmem List.not_mem_nil⟩
  | append_singleton allsigs sig ih =>
    rw [List.foldl_append, List.foldl_cons, List.foldl_nil]
    generalize allsigs.foldl (fun sigs sig => matchKey checkSig scriptPubKey sig sigs keys) (fun _ => none) = sigs at ih
    rcases @matchKey_cases checkSig scriptPubKey sig keys sigs with
      ⟨hsame, hall⟩ | ⟨key, hkey, hnone, hvalid, hupdate⟩
    · rw [hsame]
      refine ⟨fun key' sig' hsig' => ?_, fun key' hkey' sig' hmem hvalid' hunique => ?_⟩
      · exact ⟨List.mem_append_left _ (ih.valid key' sig' hsig').1, (ih.valid key' sig' hsig').2⟩
      · rcases List.mem_append.mp hmem with hmem | hmem
        · exact ih.found key' hkey' sig' hmem hvalid' hunique
        · rw [List.mem_singleton] at hmem
          exact hall key' hkey' (hmem ▸ hvalid')
    · rw [hupdate]
      refine ⟨fun key' sig' hsig' => ?_, fun key' hkey' sig' hmem hvalid' hunique => ?_⟩
      · rw [update_apply] at hsig'
        split_ifs at hsig' with heq
        · rw [← Option.some.inj hsig', heq]
          exact ⟨List.mem_append_right _ (List.mem_singleton_self _), hvalid⟩
        · exact ⟨List.mem_append_left _ (ih.valid key' sig' hsig').1, (ih.valid key' sig' hsig').2⟩
      · rw [update_apply]
        split_ifs with heq
        · rfl
        · rcases List.mem_append.mp hmem with hmem | hmem
          · exact ih.found key' hkey' sig' hmem hvalid' hunique
          · rw [List.mem_singleton] at hmem
            rw [hmem] at hunique
            exact absurd (hunique key hkey hvalid).symm heq

/-- The signatures that are pushed belong to the keys in their order. By induction on the keys. -/
theorem mergeSigs_inOrder (nSigsRequired nSigsHave : Nat) :
    InOrder (fun sig key => sigs key = some sig) (mergeSigs sigs nSigsRequired keys nSigsHave) keys := by
  induction keys generalizing nSigsHave with
  | nil => exact .nil _ _
  | cons key keys ih =>
    rw [mergeSigs]
    split_ifs
    · cases hsig : sigs key with
      | some sig => exact (ih (nSigsHave + 1)).take hsig
      | none => exact (ih nSigsHave).skip
    · exact .nil _ _

/-- They are as many as are required, or as there are keys with one. By induction on the keys. -/
theorem length_mergeSigs {nSigsRequired nSigsHave : Nat} : (mergeSigs sigs nSigsRequired keys nSigsHave).length
    = min (nSigsRequired - nSigsHave) (keys.countP fun key => (sigs key).isSome) := by
  induction keys generalizing nSigsHave with
  | nil =>
    rw [mergeSigs, List.countP_nil, Nat.min_zero]
    rfl
  | cons key keys ih =>
    rw [mergeSigs, List.countP_cons]
    split_ifs with hmore hsome hsome
    · obtain ⟨sig, hsig⟩ := Option.isSome_iff_exists.mp hsome
      rw [hsig]
      dsimp only
      rw [List.length_cons, ih]
      omega
    · rw [Option.not_isSome_iff_eq_none.mp hsome]
      dsimp only
      rw [ih]
      omega
    · rw [List.length_nil]
      omega
    · rw [List.length_nil]
      omega

end Match

section Multisig

variable {env : ScriptEnv} {flags : UInt32} {scriptPubKey : CScript} {vSolutions stack1 stack2 found : List (List UInt8)}

theorem pushAll_mergedStack : pushAll (mergedStack vSolutions found)
    = 0 :: (found.flatMap pushData ++ List.replicate (requiredOf vSolutions - found.length) 0) := by
  have hplaceholders : ∀ n : Nat, (List.replicate n ([] : List UInt8)).flatMap pushData = List.replicate n 0 := by
    intro n
    induction n with
    | zero => rfl
    | succ n ih =>
      rw [List.replicate_succ, List.flatMap_cons, ih]
      rfl
  rw [pushAll, mergedStack, List.reverse_append, List.reverse_append, List.reverse_reverse, List.reverse_replicate,
    List.flatMap_append, List.flatMap_append, hplaceholders]
  rfl

theorem combineMultisig_kept (hsolutions : 1 < vSolutions.length) : ∃ inner,
    combineMultisig env.checkSig scriptPubKey vSolutions stack1 stack2 = some (pushAll inner) ∧
      MultisigKept env scriptPubKey vSolutions stack1 stack2 inner := by
  obtain ⟨sigs, hsigs⟩ : ∃ sigs, sigs = (allSigs stack1 stack2).foldl (fun sigs sig =>
      matchKey env.checkSig scriptPubKey sig sigs (keysOf vSolutions)) fun _ => none := ⟨_, rfl⟩
  have hmatched : Matched env.checkSig scriptPubKey (keysOf vSolutions) (allSigs stack1 stack2) sigs :=
    hsigs ▸ matched_foldl
  have horder := @mergeSigs_inOrder (keysOf vSolutions) sigs (requiredOf vSolutions) 0
  have hlength := @length_mergeSigs (keysOf vSolutions) sigs (requiredOf vSolutions) 0
  rw [Nat.sub_zero] at hlength
  refine ⟨mergedStack vSolutions (mergeSigs sigs (requiredOf vSolutions) (keysOf vSolutions) 0), ?_, _, rfl,
    horder.mono fun sig key hsig => (hmatched.valid key sig hsig).2, fun sig hmem => ?_, ?_, fun hunique => ?_⟩
  · rw [combineMultisig, if_neg (Nat.not_le.mpr hsolutions), pushAll_mergedStack, hsigs]
    rfl
  · obtain ⟨key, -, hsig⟩ := horder.exists_key hmem
    obtain ⟨hstack, hne⟩ := mem_allSigs.1 (hmatched.valid key sig hsig).1
    exact ⟨List.mem_append.mpr hstack, hne⟩
  · rw [hlength]
    exact Nat.min_le_left _ _
  · rw [hlength]
    congr 1
    refine List.countP_congr fun key hkey => ?_
    rw [isSigned, List.any_eq_true]
    constructor
    · intro hsome
      obtain ⟨sig, hsig⟩ := Option.isSome_iff_exists.mp hsome
      obtain ⟨hmem, hvalid⟩ := hmatched.valid key sig hsig
      obtain ⟨hstack, hne⟩ := mem_allSigs.1 hmem
      exact ⟨sig, List.mem_append.mpr hstack, by simp [hne, hvalid]⟩
    · rintro ⟨sig, hmem, hsig⟩
      rw [Bool.and_eq_true, decide_eq_true_eq] at hsig
      have hall : sig ∈ allSigs stack1 stack2 := mem_allSigs.2 ⟨List.mem_append.mp hmem, hsig.1⟩
      exact hmatched.found key hkey sig hall hsig.2 fun key' hkey' hvalid' =>
        hunique sig hmem key' hkey' key hkey hvalid' hsig.2

theorem not_key_of_encoded {sig key : List UInt8} (hsig : isLowDERSignature env sig = true)
    (hkey : isCompressedOrUncompressedPubKey key = true) : sig ≠ key ∧ sig.length ≤ 73 := by
  rw [isLowDERSignature, Bool.and_eq_true] at hsig
  have hder := hsig.1
  simp only [isDERSignature, Bool.and_eq_true, decide_eq_true_eq, beq_iff_eq] at hder
  obtain ⟨⟨⟨⟨⟨⟨⟨hlow, hhigh⟩, hfirst⟩, -⟩, -⟩, -⟩, -⟩, -⟩ := hder
  refine ⟨?_, hhigh⟩
  rintro rfl
  rw [isCompressedOrUncompressedPubKey] at hkey
  have hget : sig[0]? = some 0x30 := by
    rw [List.getD_eq_getElem?_getD] at hfirst
    cases hzero : sig[0]? with
    | none =>
      rw [List.getElem?_eq_none_iff] at hzero
      omega
    | some b =>
      rw [hzero, Option.getD_some] at hfirst
      rw [hfirst]
  rw [hget] at hkey
  split_ifs at hkey with h1 h2 h3
  · exact absurd (Option.some.inj h2) (by decide)
  · rcases h3 with h3 | h3
    · exact absurd (Option.some.inj h3) (by decide)
    · exact absurd (Option.some.inj h3) (by decide)

theorem keysOf_multisig {m n : Nat} {keys : List (List UInt8)} :
    keysOf ([UInt8.ofNat m] :: (keys ++ [[UInt8.ofNat n]])) = keys := by
  rw [keysOf, List.drop_one, List.tail_cons, List.length_cons, List.length_append, List.length_singleton]
  exact List.take_left' (by omega)

theorem requiredOf_multisig {m : Nat} {rest : List (List UInt8)} (h : m ≤ 16) : requiredOf ([UInt8.ofNat m] :: rest) = m := by
  show (UInt8.ofNat m).toNat = m
  rw [UInt8.toNat_ofNat']
  omega

theorem evalScript_merged (hscript : IsInstance .multisig vSolutions scriptPubKey)
    (hsuffices : Suffices env scriptPubKey vSolutions stack1 stack2) {inner : List (List UInt8)}
    (hkept : MultisigKept env scriptPubKey vSolutions stack1 stack2 inner) :
    inner.length ≤ 17 ∧ (∀ item ∈ inner, item.length ≤ 520) ∧
      ∃ t, evalScript env (txRules env flags) inner scriptPubKey 0 = (.ok [vchBool true], t) := by
  obtain ⟨found, rfl, horder, hmem, -, hcount⟩ := hkept
  have hlength := hcount hsuffices.unambiguous
  rw [Nat.min_eq_left hsuffices.enough] at hlength
  have hinner : mergedStack vSolutions found = found.reverse ++ [[]] := by
    rw [mergedStack, hlength, Nat.sub_self]
    rfl
  have hencoded : ∀ sig ∈ found, isLowDERSignature env sig = true ∧ isDefinedHashtypeSignature sig = true := by
    intro sig hsig
    obtain ⟨key, hkey, hvalid⟩ := horder.exists_key hsig
    exact hsuffices.encoded.sigs sig (hmem sig hsig).1 (hmem sig hsig).2 key hkey hvalid
  have hkeysOk := hsuffices.encoded.keys
  rw [hinner]
  cases hscript with
  | @multisig m n keys pushes hm hmn hn hkeys hsizes hpushes =>
    rw [requiredOf_multisig (hmn.trans hn)] at hlength
    rw [keysOf_multisig] at horder hkeysOk
    have hsize : ∀ sig ∈ found, ∀ key ∈ keys, sig ≠ key ∧ sig.length ≤ 73 := fun sig hsig key hkey =>
      not_key_of_encoded (hencoded sig hsig).1 (hkeysOk key hkey)
    have hsmall : ∀ sig ∈ found, sig.length ≤ 520 := by
      intro sig hsig
      obtain ⟨key, hkey, -⟩ := horder.exists_key hsig
      exact (hsize sig hsig key hkey).2.trans (by decide)
    have hnew : ∀ sig ∈ found, sig ≠ [] ∧ sig ∉ keys ∧ sig.length ≤ 520 := fun sig hsig =>
      ⟨(hmem sig hsig).2, fun hkey => (hsize sig hsig sig hkey).1 rfl, hsmall sig hsig⟩
    have hboth : ∀ sig ∈ found, ∀ key ∈ keys, checkEncodings env sig key = true := by
      intro sig hsig key hkey
      rw [checkEncodings, (hencoded sig hsig).1, (hencoded sig hsig).2, hkeysOk key hkey]
      rfl
    refine ⟨?_, fun item hitem => ?_, ?_⟩
    · rw [List.length_append, List.length_reverse, List.length_singleton]
      omega
    · rcases List.mem_append.mp hitem with hitem | hitem
      · exact hsmall item (List.mem_reverse.mp hitem)
      · rw [List.mem_singleton] at hitem
        rw [hitem]
        exact Nat.zero_le _
    · exact evalScript_multisig hm hmn hn hkeys hsizes hpushes hlength (Nat.zero_le _) rfl hnew hboth horder

end Multisig

/-- How an output script accepts what is left on a stack: as it is, or below the redeem script `scriptPubKey`. -/
structure Accepts (env : ScriptEnv) (flags : UInt32) (scriptPubKey : CScript)
    (wrap : List (List UInt8) → List (List UInt8)) (fTrue : CScript → Prop) : Prop where
  fits : ∀ stack : List (List UInt8), (∀ item ∈ stack, item.length ≤ 520) → stack.length ≤ 17 →
    Leaves (pushAll (wrap stack)) (wrap stack)
  congr : ∀ scriptSig scriptSig' stack, Leaves scriptSig stack → Leaves scriptSig' stack → (fTrue scriptSig ↔ fTrue scriptSig')
  eval : ∀ scriptSig stack, Leaves scriptSig (wrap stack) → fTrue scriptSig →
    ∃ s stack' t, evalScript env (txRules env flags) stack scriptPubKey s = (.ok stack', t)
  of_eval : ∀ scriptSig stack t, Leaves scriptSig (wrap stack) → stack.length ≤ 17 →
    evalScript env (txRules env flags) stack scriptPubKey 0 = (.ok [vchBool true], t) → fTrue scriptSig

section Accepts

variable {env : ScriptEnv} {flags : UInt32} {scriptPubKey scriptSig1 scriptSig2 hash redeem : CScript}
  {vSolutions stack1 stack2 : List (List UInt8)} {whichType : TxnOutType}

theorem accepts_self (hscript : scriptPubKey.isPayToScriptHash = false) : Accepts env flags scriptPubKey id
    fun scriptSig => verdict env (txRules env flags) scriptSig scriptPubKey = true where
  fits stack hitems hlength := by
    have hsize := length_pushAll_le hitems
    exact leaves_pushAll ⟨hitems, hlength.trans (by decide)⟩ (by rw [id]; omega)
  congr scriptSig scriptSig' stack h h' := by rw [h.verdict_congr h']
  eval scriptSig stack h htrue := by
    obtain ⟨stack', t, heval, -⟩ := h.eval_of_verdict htrue
    exact ⟨0, stack', t, heval⟩
  of_eval scriptSig stack t h _ heval := h.verdict_of_eval hscript heval

theorem accepts_redeem (hlength : hash.length = 20) (hredeem : env.hash160 redeem = hash) (hsize : redeem.length ≤ 520) :
    Accepts env flags redeem (fun stack => redeem :: stack)
      fun scriptSig => verdict env (txRules env flags) scriptSig (0xa9 :: 0x14 :: (hash ++ [0x87])) = true where
  fits stack hitems hstack := by
    have hall : ∀ item ∈ redeem :: stack, item.length ≤ 520 := List.forall_mem_cons.mpr ⟨hsize, hitems⟩
    have htotal := length_pushAll_le hall
    rw [List.length_cons] at htotal
    refine leaves_pushAll ⟨hall, ?_⟩ (by omega)
    rw [List.length_cons]
    omega
  congr scriptSig scriptSig' stack h h' := by rw [h.verdict_congr h']
  eval scriptSig stack h htrue := by
    obtain ⟨_, t, -, hcheck⟩ := h.eval_of_verdict htrue
    obtain ⟨t', hcheck⟩ := hcheck (isPayToScriptHash_of_length hlength)
    rw [checkRedeem] at hcheck
    obtain ⟨stack', t'', heval, -⟩ := Exec.bind_returns.mp hcheck
    exact ⟨t, stack', t'', heval⟩
  of_eval scriptSig stack t h hstack heval := h.verdict_scripthash hlength hredeem (hstack.trans (by decide)) heval

theorem combineStacks_kept {wrap : List (List UInt8) → List (List UInt8)} {fTrue : CScript → Prop}
    (haccepts : Accepts env flags scriptPubKey wrap fTrue) (hscript : IsInstance whichType vSolutions scriptPubKey)
    (htype : whichType ≠ .scripthash) (hsig1 : Leaves scriptSig1 (wrap stack1)) (hsig2 : Leaves scriptSig2 (wrap stack2)) :
    ∃ inner, combineStacks env.checkSig stack1 stack2 scriptPubKey whichType vSolutions = some (pushAll inner) ∧
      Kept env scriptPubKey vSolutions stack1 stack2 whichType inner fTrue scriptSig1 scriptSig2 (pushAll (wrap inner)) := by
  have hsingle : whichType = .pubkey ∨ whichType = .pubkeyhash → ∃ inner,
      combineStacks env.checkSig stack1 stack2 scriptPubKey whichType vSolutions = some (pushAll inner) ∧
      Kept env scriptPubKey vSolutions stack1 stack2 whichType inner fTrue scriptSig1 scriptSig2
        (pushAll (wrap inner)) := by
    intro h
    have hkept : ∀ scriptSig stack, Leaves scriptSig (wrap stack) → (pushAll (wrap stack)).length ≤ 10000 →
        (fTrue (pushAll (wrap stack)) ↔ fTrue scriptSig) := fun scriptSig stack hleaves hlength =>
      haccepts.congr _ _ _ (leaves_pushAll hleaves.stackOk hlength) hleaves
    by_cases hempty : stack1.getLast?.getD [] = []
    · refine ⟨stack2, ?_, ?_⟩
      · rcases h with rfl | rfl <;> rw [combineStacks, if_pos hempty]
      · rcases h with rfl | rfl <;> rw [Kept, if_pos hempty] <;> exact ⟨rfl, hkept scriptSig2 stack2 hsig2⟩
    · refine ⟨stack1, ?_, ?_⟩
      · rcases h with rfl | rfl <;> rw [combineStacks, if_neg hempty]
      · rcases h with rfl | rfl <;> rw [Kept, if_neg hempty] <;> exact ⟨rfl, hkept scriptSig1 stack1 hsig1⟩
  cases whichType with
  | nonstandard => exact nomatch hscript
  | pubkey => exact hsingle (.inl rfl)
  | pubkeyhash => exact hsingle (.inr rfl)
  | scripthash => exact absurd rfl htype
  | multisig =>
    have hsolutions : 1 < vSolutions.length := by
      cases hscript with
      | multisig =>
        rw [List.length_cons, List.length_append, List.length_singleton]
        omega
    obtain ⟨inner, hcombine, hkept⟩ := @combineMultisig_kept env scriptPubKey vSolutions stack1 stack2 hsolutions
    refine ⟨inner, by rw [combineStacks, hcombine], ?_⟩
    rw [Kept]
    refine ⟨hkept, fun hsuffices => ?_⟩
    obtain ⟨hlength, hitems, t, heval⟩ := @evalScript_merged env flags _ _ _ _ hscript hsuffices inner hkept
    exact haccepts.of_eval _ inner t (haccepts.fits inner hitems hlength) hlength heval
  | nullData =>
    have hfalse : ∀ scriptSig stack, Leaves scriptSig (wrap stack) → ¬fTrue scriptSig := by
      intro scriptSig stack hleaves htrue
      obtain ⟨s, stack', t, heval⟩ := haccepts.eval scriptSig stack hleaves htrue
      cases hscript with
      | nullData => exact evalScript_return heval
      | nullDataPush => exact evalScript_return heval
      | nullDataOpcode => exact evalScript_return heval
    refine ⟨if stack1.length ≥ stack2.length then stack1 else stack2, ?_, ?_⟩
    · rw [combineStacks]
      split_ifs <;> rfl
    · rw [Kept]
      exact ⟨hfalse scriptSig1 stack1 hsig1, hfalse scriptSig2 stack2 hsig2⟩

end Accepts

end CScript

section Main

variable {env emptyEnv : ScriptEnv} {flags : UInt32} {failed : CScript → List (List UInt8)}
  {scriptPubKey scriptSig1 scriptSig2 : CScript} {whichType : TxnOutType} {vSolutions stack1 stack2 : List (List UInt8)}

theorem combineStacks_noRedeem (h : stack1.headD [] = []) :
    combineStacks env.checkSig stack1 stack2 scriptPubKey .scripthash vSolutions = some (pushAll stack2) := by
  match stack1, stack2 with
  | [], _ => rw [combineStacks]
  | spk :: rest, [] =>
    rw [combineStacks]
    · exact congrArg some (if_pos h)
    · exact List.cons_ne_nil spk rest
  | spk :: _, _ :: _ =>
    have hspk : spk = [] := h
    rw [combineStacks, if_pos hspk]

theorem combineStacks_oneRedeem (h1 : stack1.headD [] ≠ []) (h2 : stack2.headD [] = []) :
    combineStacks env.checkSig stack1 stack2 scriptPubKey .scripthash vSolutions = some (pushAll stack1) := by
  match stack1, stack2 with
  | [], _ => exact absurd rfl h1
  | spk :: rest, [] =>
    rw [combineStacks]
    · exact congrArg some (if_neg h1)
    · exact List.cons_ne_nil spk rest
  | spk :: _, spk2 :: _ =>
    have hspk : ¬spk = [] := h1
    have hspk2 : spk2 = [] := h2
    rw [combineStacks, if_neg hspk, if_pos hspk2]

theorem evalStack_of_eval {scriptSig : CScript} {stack : List (List UInt8)}
    (h : (evalScript emptyEnv (txRules emptyEnv 0) [] scriptSig 0).1 = .ok stack) :
    evalStack emptyEnv failed scriptSig = stack := by
  rw [evalStack, h]

/-- Two input scripts that push what they hold are merged into one that keeps it. With a script hash this holds through
one level, where both end with the redeem script; otherwise the other input script is kept as it is. -/
theorem combineSignatures_keeps (hsolver : solver scriptPubKey = some (whichType, vSolutions))
    (hpush1 : scriptSig1.isPushOnly = true) (hpush2 : scriptSig2.isPushOnly = true)
    (heval1 : (evalScript emptyEnv (txRules emptyEnv 0) [] scriptSig1 0).1 = .ok stack1)
    (heval2 : (evalScript emptyEnv (txRules emptyEnv 0) [] scriptSig2 0).1 = .ok stack2) :
    (whichType ≠ .scripthash → ∃ inner,
      combineSignatures env.checkSig emptyEnv failed scriptPubKey scriptSig1 scriptSig2 = some (pushAll inner) ∧
      Kept env scriptPubKey vSolutions stack1 stack2 whichType inner
        (fun scriptSig => verdict env (txRules env flags) scriptSig scriptPubKey = true)
        scriptSig1 scriptSig2 (pushAll inner)) ∧
    (whichType = .scripthash → (stack1.headD [] = [] →
        combineSignatures env.checkSig emptyEnv failed scriptPubKey scriptSig1 scriptSig2 = some (pushAll stack2) ∧
        ((pushAll stack2).length ≤ 10000 → verdict env (txRules env flags) (pushAll stack2) scriptPubKey
          = verdict env (txRules env flags) scriptSig2 scriptPubKey)) ∧
      (stack1.headD [] ≠ [] → stack2.headD [] = [] →
        combineSignatures env.checkSig emptyEnv failed scriptPubKey scriptSig1 scriptSig2 = some (pushAll stack1) ∧
        ((pushAll stack1).length ≤ 10000 → verdict env (txRules env flags) (pushAll stack1) scriptPubKey
          = verdict env (txRules env flags) scriptSig1 scriptPubKey)) ∧
      ∀ redeem rest1 rest2 whichType2 vSolutions2, redeem ≠ [] → stack1 = redeem :: rest1 → stack2 = redeem :: rest2 →
        vSolutions = [env.hash160 redeem] → solver redeem = some (whichType2, vSolutions2) → whichType2 ≠ .scripthash →
        ∃ inner, combineSignatures env.checkSig emptyEnv failed scriptPubKey scriptSig1 scriptSig2
            = some (pushAll (redeem :: inner)) ∧
          Kept env redeem vSolutions2 rest1 rest2 whichType2 inner
            (fun scriptSig => verdict env (txRules env flags) scriptSig scriptPubKey = true)
            scriptSig1 scriptSig2 (pushAll (redeem :: inner))) := by
  have hleaves1 := leaves_of_eval hpush1 heval1
  have hleaves2 := leaves_of_eval hpush2 heval2
  have hcombine : combineSignatures env.checkSig emptyEnv failed scriptPubKey scriptSig1 scriptSig2
      = combineStacks env.checkSig stack1 stack2 scriptPubKey whichType vSolutions := by
    rw [combineSignatures, evalStack_of_eval heval1, evalStack_of_eval heval2, solverRet_of_solver hsolver]
  have hsame : ∀ scriptSig stack, Leaves scriptSig stack → (pushAll stack).length ≤ 10000 →
      verdict env (txRules env flags) (pushAll stack) scriptPubKey
        = verdict env (txRules env flags) scriptSig scriptPubKey := fun scriptSig stack hleaves hlength =>
    (leaves_pushAll hleaves.stackOk hlength).verdict_congr hleaves
  rw [hcombine]
  refine ⟨fun htype => ?_, fun htype => ⟨fun hempty => ?_, fun hfirst hempty => ?_, ?_⟩⟩
  · have hself : scriptPubKey.isPayToScriptHash = false := by
      rw [Bool.eq_false_iff]
      intro hscript
      obtain ⟨sols, hsols⟩ := solver_eq_scripthash_iff.mpr hscript
      rw [hsolver] at hsols
      exact htype (Prod.mk.inj (Option.some.inj hsols)).1
    exact combineStacks_kept (accepts_self hself) (instance_of_solver hsolver) htype hleaves1 hleaves2
  · rw [htype, combineStacks_noRedeem hempty]
    exact ⟨rfl, hsame scriptSig2 stack2 hleaves2⟩
  · rw [htype, combineStacks_oneRedeem hfirst hempty]
    exact ⟨rfl, hsame scriptSig1 stack1 hleaves1⟩
  · rintro redeem rest1 rest2 whichType2 vSolutions2 hne rfl rfl hhash hsolver2 htype2
    have hinstance := instance_of_solver hsolver
    rw [htype] at hinstance ⊢
    cases hinstance with
    | @scripthash hash hlength =>
      have hredeem : env.hash160 redeem = hash := (List.cons.inj hhash).1.symm
      have hsize : redeem.length ≤ 520 := hleaves1.stackOk.1 redeem List.mem_cons_self
      obtain ⟨inner, hinner, hkept⟩ := combineStacks_kept (accepts_redeem hlength hredeem hsize)
        (instance_of_solver hsolver2) htype2 hleaves1 hleaves2
      refine ⟨inner, ?_, hkept⟩
      rw [combineStacks, if_neg hne, if_neg hne, solverRet_of_solver hsolver2, hinner, pushAll_cons]
      rfl

end Main

namespace Sample

def listedEnv (valid : List (List UInt8 × List UInt8)) : ScriptEnv :=
  { scriptEnv (List.replicate 20 0) with checkSig := fun sig key _ => decide ((sig, key) ∈ valid) }

def vchPubKey2 : List UInt8 := 0x03 :: vchPubKey.tail

def vchSig2 : List UInt8 := [0x30, 6, 2, 1, 1, 2, 1, 2, 1]

def bothKeys (key1 key2 : List UInt8) : CScript := 0x52 :: (pushData key1 ++ pushData key2 ++ [0x52, 0xae])

def eachKey : ScriptEnv := listedEnv [(vchSig, vchPubKey), (vchSig2, vchPubKey2)]

end Sample

open Sample in
theorem Sample.combineSignatures_keeps_bothKeys : ∃ inner,
    combineSignatures eachKey.checkSig eachKey (fun _ => []) (bothKeys vchPubKey vchPubKey2)
      (0 :: pushData vchSig2) (0 :: pushData vchSig) = some (pushAll inner) ∧
    verdict eachKey (txRules eachKey 0) (pushAll inner) (bothKeys vchPubKey vchPubKey2) = true := by
  have hkeeps := @combineSignatures_keeps eachKey eachKey 0 (fun _ => []) (bothKeys vchPubKey vchPubKey2)
    (0 :: pushData vchSig2) (0 :: pushData vchSig) .multisig [[2], vchPubKey, vchPubKey2, [2]] [vchSig2, []] [vchSig, []]
    (by decide +kernel) (by decide +kernel) (by decide +kernel) rfl rfl
  obtain ⟨inner, hcombine, hkept⟩ := hkeeps.1 (by decide)
  rw [Kept] at hkept
  refine ⟨inner, hcombine, hkept.2 ⟨?_, ⟨?_, ?_⟩, ?_⟩⟩
  · unfold Unambiguous
    decide +kernel
  · decide +kernel
  · decide +kernel
  · decide +kernel

open Sample in
/-- Something is lost where a signature stands behind a placeholder, where an input script checks a signature itself,
where a signature is valid for two keys, and where a redeem script is missing; a key that is listed twice has its
signature pushed twice. -/
theorem Sample.combineSignatures_loses :
    -- for one key, `OP_0` comes first
    (verdict eachKey (txRules eachKey 0) (0 :: pushData vchSig) (pushData vchPubKey ++ [0xac]) = true ∧
      combineSignatures eachKey.checkSig eachKey (fun _ => []) (pushData vchPubKey ++ [0xac])
        (0 :: pushData vchSig) (pushData vchSig ++ [0]) = some (pushData vchSig ++ [0]) ∧
      verdict eachKey (txRules eachKey 0) (pushData vchSig ++ [0]) (pushData vchPubKey ++ [0xac]) = false) ∧
    -- the signature that is checked is not valid for an empty transaction
    (verdict eachKey (txRules eachKey 0) (pushData vchSig ++ pushData vchSig ++ pushData vchPubKey ++ [0xac, 0x69])
        (pushData vchPubKey ++ [0xac]) = true ∧
      combineSignatures eachKey.checkSig (listedEnv []) (fun _ => [[], vchSig]) (pushData vchPubKey ++ [0xac])
        (pushData vchSig ++ pushData vchSig ++ pushData vchPubKey ++ [0xac, 0x69]) (pushData vchSig ++ [0])
        = some (pushData vchSig ++ [0])) ∧
    -- the first signature is valid for both keys, the second for one of them
    (∃ env, env = listedEnv [(vchSig, vchPubKey), (vchSig, vchPubKey2), (vchSig2, vchPubKey)] ∧
      verdict env (txRules env 0) (0 :: (pushData vchSig2 ++ pushData vchSig)) (bothKeys vchPubKey vchPubKey2) = true ∧
      combineSignatures env.checkSig env (fun _ => []) (bothKeys vchPubKey vchPubKey2) (0 :: pushData vchSig2)
        (0 :: pushData vchSig) = some (0 :: (pushData vchSig ++ [0]))) ∧
    -- one key twice
    combineSignatures eachKey.checkSig eachKey (fun _ => []) (bothKeys vchPubKey vchPubKey) (0 :: pushData vchSig) [0]
      = some (0 :: (pushData vchSig ++ pushData vchSig)) ∧
    -- through a script hash, the signatures are in the wrong order on the one side, and the redeem script is missing on
    -- the other
    (∃ scriptPubKey, scriptPubKey = 0xa9 :: 0x14 :: (List.replicate 20 0 ++ [0x87]) ∧
      verdict eachKey (txRules eachKey 0)
        (0 :: (pushData vchSig ++ pushData vchSig2 ++ pushData (bothKeys vchPubKey vchPubKey2))) scriptPubKey = true ∧
      combineSignatures eachKey.checkSig eachKey (fun _ => []) scriptPubKey (pushData vchSig ++ [0])
        (0 :: (pushData vchSig2 ++ pushData vchSig ++ pushData (bothKeys vchPubKey vchPubKey2)))
        = some (0 :: (pushData vchSig2 ++ pushData vchSig ++ pushData (bothKeys vchPubKey vchPubKey2))) ∧
      verdict eachKey (txRules eachKey 0)
        (0 :: (pushData vchSig2 ++ pushData vchSig ++ pushData (bothKeys vchPubKey vchPubKey2))) scriptPubKey = false) := by
  refine ⟨⟨?_, rfl, ?_⟩, ⟨?_, rfl⟩, ⟨_, rfl, ?_, ?_⟩, ?_, ⟨_, rfl, ?_, rfl, ?_⟩⟩
  all_goals decide +kernel

end PupaCoin
