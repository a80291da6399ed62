import PupaCoin.Chain.Proofs.AcceptBlockProofs
import PupaCoin.Chain.Sample
import PupaCoin.Chain.Verdict

/-!
# Where the verdict of `ProcessBlock` fits its effect

`AcceptBlock` is split at the insertion into the block index: what stops in front of it leaves the chain
alone, and what stops behind it leaves the block in the index.
-/

namespace PupaCoin

variable {n n₁ n' : Node} {ps : List Part} {d rand : Nat} {msg : String} {R : Node → Node → Prop}
  {settings : IntakeSettings} {pfrom : Option NodeId} {s s₁ s' s₂ : Intake} {r : Except Stop Unit}
  {vWorkQueue : List UInt256} {e : Stop}

open Exec (Frame)
open Writes

section Verdict

variable {env : Env} {block : CBlock}

/-- However it ends, the computation is not rejected. -/
def NeverRejects {σ α : Type} (m : Exec σ Stop α) : Prop :=
  ∀ s d msg s', m s ≠ (.error (.reject d msg), s')

namespace NeverRejects

variable {σ α β : Type}

theorem pure (a : α) : NeverRejects (Pure.pure a : Exec σ Stop α) := by
  intro s d msg s' h
  cases h

theorem read : NeverRejects (Exec.read : Exec σ Stop σ) := by
  intro s d msg s' h
  cases h

theorem update (f : σ → σ) : NeverRejects (Exec.update f : Exec σ Stop Unit) := by
  intro s d msg s' h
  cases h

theorem undefined (what : String) : NeverRejects (Exec.stop (.undefined what) : Exec σ Stop α) := by
  intro s d msg s' h
  cases h

theorem lift_orUndefined (x : Option α) (what : String) :
    NeverRejects (Exec.lift (orUndefined x what) : Exec σ Stop α) := by
  intro s d msg s' h
  cases x <;> cases h

theorem bind {m : Exec σ Stop α} {f : α → Exec σ Stop β} (hm : NeverRejects m) (hf : ∀ a, NeverRejects (f a))
    : NeverRejects (m >>= f) := by
  intro s d msg s' h
  rcases Exec.bind_stops.mp h with h | ⟨a, t, -, h⟩
  · exact hm s d msg s' h
  · exact hf a t d msg s' h

theorem foldlM {f : β → α → Exec σ Stop β} (hf : ∀ b a, NeverRejects (f b a)) (xs : List α) (b : β) :
    NeverRejects (xs.foldlM f b) := by
  induction xs generalizing b with
  | nil => exact NeverRejects.pure b
  | cons x xs ih => exact NeverRejects.bind (hf b x) fun b' => ih b'

theorem deref (h : UInt256) : NeverRejects (deref h) := by
  intro n d msg n' heq
  rw [deref_apply, Prod.mk.injEq, orUndefined_eq_error] at heq
  cases heq.1.2

theorem onReject {m handler : NodeM α} (hh : NeverRejects handler) : NeverRejects (onReject m handler) := by
  intro n d msg n' h
  unfold PupaCoin.onReject at h
  rcases hm : m n with ⟨r, t⟩
  rw [hm] at h
  cases r with
  | ok a => cases h
  | error e =>
    cases e with
    | reject d' msg' => exact hh t d msg n' h
    | exception what => cases h
    | undefined what => cases h

theorem onNode {m : NodeM α} (hm : NeverRejects m) : NeverRejects (onNode m) := by
  intro s d msg s' h
  rw [Prod.ext_iff] at h
  exact hm s.node d msg _ (Prod.ext h.1 rfl)

end NeverRejects

theorem rollingCheckpoints_neverRejects (nHeight : Int) : NeverRejects (rollingCheckpoints nHeight) := by
  unfold rollingCheckpoints
  split
  · exact NeverRejects.pure _
  · exact NeverRejects.bind NeverRejects.read fun n =>
      NeverRejects.bind (NeverRejects.lift_orUndefined _ _) fun past =>
        NeverRejects.bind (NeverRejects.update _) fun _ => NeverRejects.pure _

/-- What `AcceptBlock` still does once the block has been inserted. -/
def CBlock.afterEntered (env : Env) (block : CBlock) (nHeight : Int) : NodeM Unit := do
  let _ ← onReject (withTxDB (activateBlock env block))
    (Exec.stop (.reject 0 "AcceptBlock() : AddToBlockIndex failed"))
  let fRollingCheckpoint ← rollingCheckpoints nHeight
  Exec.update fun n => { n with fRollingCheckpoint }

theorem addToBlockIndex_inserted {pos : UInt32 × UInt32} {hashProof : UInt256} {modifier : UInt64 × Bool}
    (hnew : n.mapBlockIndex.entries (block.getHash env) = none)
    (hmodifier : env.computeNextStakeModifier (n.mapBlockIndex.chain block.hashPrevBlock)
      = some modifier) :
    addToBlockIndex env block pos.1 pos.2 hashProof n
      = withTxDB (activateBlock env block) { n with
        mapBlockIndex := n.mapBlockIndex.addBlock env pos.1 pos.2 block hashProof modifier hnew } := by
  unfold addToBlockIndex
  rw [dif_pos hnew]
  simp only [hmodifier]

theorem acceptBlock_entered (h : Entered env block n n₁) :
    ∃ nHeight, block.acceptBlock env n = block.afterEntered env nHeight n₁ := by
  obtain ⟨prev, n₀, hashProof, pos, n₂, modifier, hnone, hprev, hversion, hvelocity, hcontext, hdisk,
    hmodifier, hnew, rfl⟩ := h
  refine ⟨prev.nHeight + 1, ?_⟩
  unfold CBlock.acceptBlock
  rw [Exec.read_bind, Exec.bind_of_ok (t := n) (a := ()) (by simp [hnone]), BlockTree.head?_chain, hprev]
  simp only
  rw [Exec.bind_of_ok (t := n) (a := ()) (by simp [hversion]),
    Exec.bind_of_ok (t := n) (a := ()) (by simp [hversion]), Exec.bind_of_ok hvelocity,
    Exec.read_bind, Exec.bind_of_ok (t := n₀) (a := hashProof) (by simp [hcontext])]
  unfold CBlock.storeBlock CBlock.afterEntered
  rw [Exec.bind_of_ok hdisk]
  simp only [Exec.bind_apply, onReject, addToBlockIndex_inserted hnew hmodifier]

theorem ToggleOnly.writes (h : ToggleOnly n n') : Writes [.velocity] n n' := by
  obtain ⟨_, rfl⟩ := h
  intro p hp
  cases p <;> simp [Part.Same] at hp ⊢

theorem acceptBlock_cases (env : Env) (block : CBlock) (n : Node) : (∃ n₁, Entered env block n n₁) ∨
      ∃ e n', block.acceptBlock env n = (.error e, n') ∧ Writes [.velocity, .files] n n' := by
  unfold CBlock.acceptBlock
  rw [Exec.read_bind]
  cases hnone : n.mapBlockIndex.entries (block.getHash env) with
  | some pindex =>
    right
    exact ⟨_, n, Exec.bind_of_error (e := .reject 0 "AcceptBlock() : block already in mapBlockIndex")
      (by simp [rejectIf]) _, Writes.refl _ n⟩
  | none =>
    rw [Exec.bind_of_ok (t := n) (a := ()) (by simp), BlockTree.head?_chain]
    cases hprev : n.mapBlockIndex.entries block.hashPrevBlock with
    | none => exact Or.inr ⟨_, n, rfl, Writes.refl _ n⟩
    | some prev =>
      simp only
      by_cases hlow : block.nVersion < 7
      · exact Or.inr ⟨.reject 100 "AcceptBlock() : reject too old nVersion", n,
          Exec.bind_of_error (by simp [rejectIf, hlow]) _, Writes.refl _ n⟩
      by_cases hhigh : block.nVersion > 7
      · refine Or.inr ⟨.reject 100 "AcceptBlock() : reject too new nVersion", n, ?_, Writes.refl _ n⟩
        rw [Exec.bind_of_ok (t := n) (a := ()) (by simp [hlow])]
        exact Exec.bind_of_error (by simp [rejectIf, hhigh]) _
      rw [Exec.bind_of_ok (t := n) (a := ()) (by simp [hlow]), Exec.bind_of_ok (t := n) (a := ()) (by simp [hhigh])]
      have hversion : block.nVersion = 7 := by omega
      rcases hvelocity : block.limitVelocity env (prev.nHeight + 1) n with ⟨r, n₀⟩
      have hw₀ : Writes [.velocity, .files] n n₀ :=
        ((CBlock.limitVelocity_toggleOnly env block _).apply hvelocity).writes.mono (by decide)
      cases r with
      | error e => exact Or.inr ⟨e, n₀, Exec.bind_of_error hvelocity _, hw₀⟩
      | ok u =>
        rw [Exec.bind_of_ok hvelocity, Exec.read_bind]
        cases hcontext : block.checkContext env n₀ (n₀.mapBlockIndex.chain block.hashPrevBlock) with
        | error e => exact Or.inr ⟨e, n₀, Exec.bind_of_error (by simp) _, hw₀⟩
        | ok hashProof =>
          rw [Exec.bind_of_ok (Exec.lift_apply _ n₀)]
          unfold CBlock.storeBlock
          rcases hdisk : block.writeToDisk n₀ with ⟨r, n₂⟩
          have hw₂ : Writes [.velocity, .files] n n₂ := Writes.trans _ _ _ _ hw₀
            (((CBlock.writeToDisk_writes block).apply hdisk).mono (by decide))
          cases r with
          | error e => exact Or.inr ⟨e, n₂, Exec.bind_of_error hdisk _, hw₂⟩
          | ok pos =>
            rw [Exec.bind_of_ok hdisk]
            by_cases hnew : n₂.mapBlockIndex.entries (block.getHash env) = none
            · cases hmodifier : env.computeNextStakeModifier
                (n₂.mapBlockIndex.chain block.hashPrevBlock) with
              | none =>
                refine Or.inr ⟨.reject 0 "AcceptBlock() : AddToBlockIndex failed", n₂, Exec.bind_of_error ?_ _, hw₂⟩
                simp only [onReject, addToBlockIndex, dif_pos hnew, hmodifier]
                rfl
              | some modifier =>
                exact Or.inl ⟨_, prev, n₀, hashProof, pos, n₂, modifier, hnone, hprev, hversion,
                  hvelocity, hcontext, hdisk, hmodifier, hnew, rfl⟩
            · refine Or.inr ⟨.reject 0 "AcceptBlock() : AddToBlockIndex failed", n₂, Exec.bind_of_error ?_ _, hw₂⟩
              simp only [onReject, addToBlockIndex, dif_neg hnew]
              rfl

/-- What is in the block index stays there. -/
def Keeps (n n' : Node) : Prop := ∀ h, (n.mapBlockIndex.entries h).isSome → (n'.mapBlockIndex.entries h).isSome

theorem Keeps.refl (n : Node) : Keeps n n := fun _ h => h

theorem Keeps.trans (a b c : Node) (hab : Keeps a b) (hbc : Keeps b c) : Keeps a c :=
  fun h ha => hbc h (hab h ha)

theorem Writes.keeps (h : Writes ps n n') (hp : Part.index ∉ ps) : Keeps n n' := by
  intro hash hn
  have hcore := congrArg Option.isSome (h .index hp hash)
  rw [Option.isSome_map, Option.isSome_map] at hcore
  rw [hcore]
  exact hn

theorem Keeps.acceptFrame (env : Env) : AcceptFrame env Keeps where
  refl := Keeps.refl
  trans := Keeps.trans
  quiet := fun _ _ hw => hw.keeps (by decide)
  connect := fun block h fJustCheck n =>
    (CBlock.connectBlock_writes env block h fJustCheck n).keeps (by decide)

/-- The new entry is in the index, and so is what was there. -/
theorem addBlock_entries (n : Node) (nFile nBlockPos : UInt32) (hashProof : UInt256) (modifier : UInt64 × Bool)
    (hnew : n.mapBlockIndex.entries (block.getHash env) = none) (h : UInt256) :
    (n.mapBlockIndex.addBlock env nFile nBlockPos block hashProof modifier hnew).entries h
      = if h = block.getHash env then some (newBlockIndex env
          (n.mapBlockIndex.entries block.hashPrevBlock) nFile nBlockPos block hashProof modifier)
        else n.mapBlockIndex.entries h := by
  unfold BlockTree.addBlock BlockTree.insert
  by_cases hh : h = block.getHash env
  · subst hh
    rw [if_pos rfl]
    exact Function.update_self ..
  · rw [if_neg hh]
    exact Function.update_of_ne hh ..

theorem inserts_keeps (env : Env) (block : CBlock) : AcceptFrame.Inserts env Keeps block := by
  intro n nFile nBlockPos hashProof modifier hnew h hn
  show ((n.mapBlockIndex.addBlock env nFile nBlockPos block hashProof modifier hnew).entries h).isSome
  rw [addBlock_entries]
  split
  · rfl
  · exact hn

theorem acceptBlock_keeps (env : Env) (block : CBlock) : Frame Keeps (block.acceptBlock env) :=
  (Keeps.acceptFrame env).acceptBlock (inserts_keeps env block)

theorem Entered.isSome (h : Entered env block n n₁) :
    ((block.acceptBlock env n).2.mapBlockIndex.entries (block.getHash env)).isSome := by
  obtain ⟨nHeight, hrest⟩ := acceptBlock_entered h
  have hframe : Frame Keeps (block.afterEntered env nHeight) := by
    have hR := Keeps.acceptFrame env
    exact hR.bind (hR.reject (hR.withTxDB (hR.activateBlock block)) (hR.stop _)) fun _ =>
      hR.bind (hR.writes (rollingCheckpoints_writes nHeight) (by decide)) fun f =>
        hR.writes (Frame.update (setRolling_writes f)) (by decide)
  rw [hrest]
  refine hframe n₁ _ ?_
  obtain ⟨prev, n₀, hashProof, pos, n₂, modifier, -, -, -, -, -, -, -, hnew, rfl⟩ := h
  show ((n₂.mapBlockIndex.addBlock env pos.1 pos.2 block hashProof modifier hnew).entries _).isSome
  rw [addBlock_entries, if_pos rfl]
  rfl

theorem acceptBlock_isSome (h : block.acceptBlock env n = (.ok (), n')) :
    (n'.mapBlockIndex.entries (block.getHash env)).isSome := by
  rcases acceptBlock_cases env block n with ⟨n₁, hentered⟩ | ⟨e, m, herror, -⟩
  · have := hentered.isSome
    rw [h] at this
    exact this
  · rw [h] at herror
    cases herror

theorem afterEntered_rejects_iff (n₁ : Node) (nHeight : Int) :
    Rejects (block.afterEntered env nHeight) n₁ ↔ Rejects (activateBlock env block) n₁ := by
  unfold CBlock.afterEntered
  rcases hact : activateBlock env block n₁ with ⟨r, n'⟩
  have htx : withTxDB (activateBlock env block) n₁ = (r, { n' with activeBatch := none }) := by
    simp only [withTxDB, hact]
  cases r with
  | error e =>
    cases e with
    | reject d msg =>
      refine ⟨fun _ => ⟨d, msg, n', hact⟩, fun _ => ⟨0, "AcceptBlock() : AddToBlockIndex failed",
        { n' with activeBatch := none }, Exec.bind_of_error ?_ _⟩⟩
      simp only [onReject, htx]
      rfl
    | exception what =>
      constructor
      · rintro ⟨d, msg, m, hm⟩
        simp only [Exec.bind_apply, onReject, htx] at hm
        cases hm
      · rintro ⟨d, msg, m, hm⟩
        rw [hact] at hm
        cases hm
    | undefined what =>
      constructor
      · rintro ⟨d, msg, m, hm⟩
        simp only [Exec.bind_apply, onReject, htx] at hm
        cases hm
      · rintro ⟨d, msg, m, hm⟩
        rw [hact] at hm
        cases hm
  | ok left =>
    constructor
    · rintro ⟨d, msg, m, hm⟩
      rw [Exec.bind_of_ok (t := { n' with activeBatch := none }) (a := left)
        (by simp only [onReject, htx])] at hm
      rcases hroll : rollingCheckpoints nHeight { n' with activeBatch := none } with ⟨r, t⟩
      cases r with
      | ok f =>
        rw [Exec.bind_of_ok hroll] at hm
        cases hm
      | error e =>
        rw [Exec.bind_of_error hroll, Prod.mk.injEq] at hm
        cases hm.1
        exact absurd hroll (rollingCheckpoints_neverRejects nHeight _ d msg t)
    · rintro ⟨d, msg, m, hm⟩
      rw [hact] at hm
      cases hm

theorem acceptBlock_rejects (h : block.acceptBlock env n = (.error (.reject d msg), n')) :
    Writes [.velocity, .files] n n' ∨ ∃ n₁, Entered env block n n₁ ∧ Rejects (activateBlock env block) n₁ := by
  rcases acceptBlock_cases env block n with ⟨n₁, hentered⟩ | ⟨e, m, herror, hw⟩
  · obtain ⟨nHeight, hrest⟩ := acceptBlock_entered hentered
    exact Or.inr ⟨n₁, hentered, (afterEntered_rejects_iff n₁ nHeight).mp ⟨d, msg, n', hrest ▸ h⟩⟩
  · rw [h] at herror
    cases herror
    exact Or.inl hw

theorem Entered.rejects (h : Entered env block n n₁) (hrej : Rejects (activateBlock env block) n₁)
    : Rejects (block.acceptBlock env) n := by
  obtain ⟨nHeight, hrest⟩ := acceptBlock_entered h
  obtain ⟨d, msg, n', heq⟩ := (afterEntered_rejects_iff n₁ nHeight).mpr hrej
  exact ⟨d, msg, n', hrest.trans heq⟩

def OnNode (R : Node → Node → Prop) (s s' : Intake) : Prop := R s.node s'.node ∧ PoolSame s s'

theorem OnNode.refl (hR : ∀ n, R n n) (s : Intake) : OnNode R s s :=
  ⟨hR _, rfl, rfl, rfl⟩

theorem OnNode.trans (hR : ∀ a b c, R a b → R b c → R a c) (a b c : Intake) (hab : OnNode R a b) (hbc : OnNode R b c)
    : OnNode R a c :=
  ⟨hR _ _ _ hab.1 hbc.1, hbc.2.1.trans hab.2.1, hbc.2.2.1.trans hab.2.2.1, hbc.2.2.2.trans hab.2.2.2⟩

theorem onNode_frame {α : Type} {m : NodeM α} (hm : Frame R m) :
    Frame (OnNode R) (onNode m) := fun s => ⟨hm s.node, rfl, rfl, rfl⟩

section Precheck

variable (env : Env) (settings : IntakeSettings) (pfrom : Option NodeId) (block : CBlock)

/-- What `ProcessBlock` writes in front of the test for orphans. -/
def precheckParts : List Part := [.delay, .ext]

theorem checkAgainstCheckpoint_frame :
    Frame (OnNode (Writes precheckParts)) (checkAgainstCheckpoint settings pfrom block) := by
  have hrefl := OnNode.refl (Writes.refl precheckParts)
  have htrans := OnNode.trans (Writes.trans precheckParts)
  unfold checkAgainstCheckpoint
  refine Frame.bind htrans (Frame.read hrefl) fun s => ?_
  split
  · refine Frame.bind htrans (Frame.lift hrefl _) fun pcheckpoint => ?_
    split
    · refine Frame.bind htrans ?_ fun _ => Frame.stop hrefl _
      unfold punishPeer
      split
      · exact Frame.update fun s => ⟨Writes.refl _ _, rfl, rfl, rfl⟩
      · exact Frame.pure hrefl _
    · exact Frame.pure hrefl _
  · exact Frame.pure hrefl _

theorem precheckBlock_frame : Frame (OnNode (Writes precheckParts)) (precheckBlock env settings pfrom block) := by
  have hrefl := OnNode.refl (Writes.refl precheckParts)
  have htrans := OnNode.trans (Writes.trans precheckParts)
  unfold precheckBlock
  refine Frame.bind htrans (Frame.read hrefl) fun s => Frame.bind htrans (Frame.lift hrefl _) fun _ =>
    Frame.bind htrans (Frame.lift hrefl _) fun _ => Frame.bind htrans (Frame.lift hrefl _) fun _ =>
      Frame.bind htrans (checkAgainstCheckpoint_frame settings pfrom block) fun _ =>
        Frame.bind htrans (Frame.lift hrefl _) fun _ => Frame.bind htrans (onNode_frame
          (Writes.frame_mono (CBlock.checkBlock_writes env block _ _ _) (by decide))) fun _ => ?_
  split
  · refine Frame.update fun s => ⟨fun p hp => ?_, rfl, rfl, rfl⟩
    cases p <;> simp [Part.Same, precheckParts] at hp ⊢
  · exact Frame.pure hrefl _

end Precheck

theorem precheckBlock_new (h : precheckBlock env settings pfrom block s = (.ok (), s₁)) :
    s.node.mapBlockIndex.entries (block.getHash env) = none
      ∧ s.mapOrphanBlocks (block.getHash env) = none := by
  unfold precheckBlock at h
  obtain ⟨_, _, hread, h⟩ := Exec.bind_returns.mp h
  cases hread
  obtain ⟨_, _, hindex, h⟩ := Exec.bind_returns.mp h
  obtain ⟨_, _, horphan, -⟩ := Exec.bind_returns.mp h
  simp only [Exec.lift_apply, Prod.mk.injEq, rejectIf_eq_ok, Option.isSome_eq_false_iff,
    Option.isNone_iff_eq_none] at hindex horphan
  exact ⟨hindex.1, horphan.1⟩

theorem pruneOrphanBlocks_node (nMaxOrphanBlocks rand : Nat) :
    Frame (fun s s' : Intake => s'.node = s.node) (pruneOrphanBlocks nMaxOrphanBlocks rand) := by
  have hrefl : ∀ s : Intake, s.node = s.node := fun _ => rfl
  have htrans : ∀ a b c : Intake, b.node = a.node → c.node = b.node → c.node = a.node :=
    fun _ _ _ hab hbc => hbc.trans hab
  unfold pruneOrphanBlocks
  refine Frame.bind htrans (Frame.read hrefl) fun s => ?_
  dsimp only
  split
  · exact Frame.pure hrefl _
  · exact Frame.bind htrans (Frame.lift hrefl _) fun it => Frame.update fun s => rfl

theorem pruneOrphanBlocks_neverRejects (nMaxOrphanBlocks rand : Nat) :
    NeverRejects (pruneOrphanBlocks nMaxOrphanBlocks rand) := by
  unfold pruneOrphanBlocks
  refine NeverRejects.bind NeverRejects.read fun s => ?_
  dsimp only
  split
  · exact NeverRejects.pure _
  · exact NeverRejects.bind (NeverRejects.lift_orUndefined _ _) fun it => NeverRejects.update _

theorem holdOrphan_cases (h : holdOrphan env settings rand block s = (r, s')) : (∃ e, r = .error e ∧ s' = s)
      ∨ (∃ e, r = .error e ∧ pruneOrphanBlocks settings.nMaxOrphanBlocks rand s = (.error e, s'))
      ∨ ∃ u t, pruneOrphanBlocks settings.nMaxOrphanBlocks rand s = (.ok u, t) ∧ r = .ok ()
        ∧ s' = t.addOrphan env block := by
  unfold holdOrphan at h
  rw [Exec.read_bind, Exec.bind_apply, Exec.lift_apply] at h
  generalize rejectIf _ _ _ = check at h
  cases check with
  | error e =>
    cases h
    exact Or.inl ⟨e, rfl, rfl⟩
  | ok u =>
    rcases hprune : pruneOrphanBlocks settings.nMaxOrphanBlocks rand s with ⟨r₁, t⟩
    simp only at h
    cases r₁ with
    | error e =>
      rw [Exec.bind_of_error hprune] at h
      cases h
      exact Or.inr (Or.inl ⟨e, rfl, rfl⟩)
    | ok u =>
      rw [Exec.bind_of_ok hprune, Exec.update_apply] at h
      cases h
      exact Or.inr (Or.inr ⟨u, t, rfl, rfl, rfl⟩)

theorem holdOrphan_fits (settings : IntakeSettings) (rand : Nat) (h : holdOrphan env settings rand block s = (r, s')) :
    (r = .ok () → (s'.mapOrphanBlocks (block.getHash env)).isSome) ∧ s'.node = s.node := by
  rcases holdOrphan_cases h with ⟨e, rfl, rfl⟩ | ⟨e, rfl, hprune⟩ | ⟨u, t, hprune, rfl, rfl⟩
  · exact ⟨fun hok => (by cases hok), rfl⟩
  · exact ⟨fun hok => (by cases hok), (pruneOrphanBlocks_node _ _).apply hprune⟩
  · have hnode : t.node = s.node := (pruneOrphanBlocks_node _ _).apply hprune
    refine ⟨fun _ => ?_, hnode⟩
    simp [Intake.addOrphan]

theorem acceptInto_fst (env : Env) (block : CBlock) (s : Intake) :
    (acceptInto env block s).1 = (block.acceptBlock env s.node).1 := rfl

theorem acceptInto_node (env : Env) (block : CBlock) (s : Intake) :
    (acceptInto env block s).2.node = (block.acceptBlock env s.node).2 := rfl

theorem acceptInto_eq (h : acceptInto env block s = (r, s')) : block.acceptBlock env s.node = (r, s'.node) := by
  have h1 := acceptInto_fst env block s
  have h2 := acceptInto_node env block s
  rw [h] at h1 h2
  exact Prod.ext h1.symm h2.symm

theorem acceptInto_keeps (env : Env) (block : CBlock) :
    Frame (fun s s' : Intake => Keeps s.node s'.node) (acceptInto env block) :=
  fun s => acceptBlock_keeps env block s.node

theorem connectOrphan_keeps (env : Env) (vWorkQueue : List UInt256) (mi : UInt256 × COrphanBlock) :
    Frame (fun s s' : Intake => Keeps s.node s'.node) (connectOrphan env vWorkQueue mi) := by
  intro s
  have h := acceptInto_keeps env mi.2.vchBlock s
  unfold connectOrphan
  rcases hacc : acceptInto env mi.2.vchBlock s with ⟨r, t⟩
  rw [hacc] at h
  cases r with
  | ok u => exact h
  | error e => cases e <;> exact h

theorem connectOrphan_neverRejects (env : Env) (vWorkQueue : List UInt256) (mi : UInt256 × COrphanBlock)
    : NeverRejects (connectOrphan env vWorkQueue mi) := by
  intro s d msg s' h
  unfold connectOrphan at h
  rcases hacc : acceptInto env mi.2.vchBlock s with ⟨r, t⟩
  rw [hacc] at h
  cases r with
  | ok u => cases h
  | error e => cases e <;> cases h

theorem connectWaiting_neverRejects (env : Env) (hashPrev : UInt256) (vWorkQueue : List UInt256) :
    NeverRejects (connectWaiting env hashPrev vWorkQueue) :=
  NeverRejects.bind NeverRejects.read fun _ => NeverRejects.bind
    (NeverRejects.foldlM (fun queue mi => connectOrphan_neverRejects env queue mi) _ _) fun _ =>
      NeverRejects.bind (NeverRejects.update _) fun _ => NeverRejects.pure _

theorem connectOrphans_neverRejects (env : Env) (fuel i : Nat) (vWorkQueue : List UInt256) :
    NeverRejects (connectOrphans env fuel i vWorkQueue) := by
  induction fuel generalizing i vWorkQueue with
  | zero => exact NeverRejects.pure _
  | succ fuel ih =>
    unfold connectOrphans
    split
    · exact NeverRejects.pure _
    · exact NeverRejects.bind (connectWaiting_neverRejects env _ _) fun queue => ih (i + 1) queue

def KeepsIntake (s s' : Intake) : Prop := Keeps s.node s'.node

theorem KeepsIntake.refl (s : Intake) : KeepsIntake s s := Keeps.refl s.node

theorem KeepsIntake.trans (a b c : Intake) (hab : KeepsIntake a b) (hbc : KeepsIntake b c) :
    KeepsIntake a c := Keeps.trans _ _ _ hab hbc

theorem connectWaiting_keeps (env : Env) (hashPrev : UInt256) (vWorkQueue : List UInt256) :
    Frame KeepsIntake (connectWaiting env hashPrev vWorkQueue) :=
  Frame.bind KeepsIntake.trans (Frame.read KeepsIntake.refl) fun _ => Frame.bind KeepsIntake.trans
    (Frame.foldlM KeepsIntake.refl KeepsIntake.trans (fun queue mi => connectOrphan_keeps env queue mi)
      _ _) fun _ => Frame.bind KeepsIntake.trans (Frame.update fun s => KeepsIntake.refl s) fun _ =>
        Frame.pure KeepsIntake.refl _

theorem connectOrphans_keeps (env : Env) (fuel i : Nat) (vWorkQueue : List UInt256) :
    Frame KeepsIntake (connectOrphans env fuel i vWorkQueue) := by
  induction fuel generalizing i vWorkQueue with
  | zero => exact Frame.pure KeepsIntake.refl _
  | succ fuel ih =>
    unfold connectOrphans
    split
    · exact Frame.pure KeepsIntake.refl _
    · exact Frame.bind KeepsIntake.trans (connectWaiting_keeps env _ _) fun queue => ih (i + 1) queue

/-- What `acceptWithOrphans` does behind `AcceptBlock`. -/
def afterAccepted (env : Env) (block : CBlock) : IntakeM (List UInt256) := do
  let s ← Exec.read
  let (ended, vWorkQueue) ← connectOrphans env (s.mapOrphanBlocksByPrev.length + 1) 0 [block.getHash env]
  if ended then return vWorkQueue
  else Exec.stop (.undefined "ProcessBlock() : the loop does not end")

theorem afterAccepted_neverRejects (env : Env) (block : CBlock) : NeverRejects (afterAccepted env block) := by
  unfold afterAccepted
  refine NeverRejects.bind NeverRejects.read fun s =>
    NeverRejects.bind (connectOrphans_neverRejects env _ _ _) fun r => ?_
  obtain ⟨ended, vWorkQueue⟩ := r
  dsimp only
  split
  · exact NeverRejects.pure _
  · exact NeverRejects.undefined _

theorem afterAccepted_keeps (env : Env) (block : CBlock) : Frame KeepsIntake (afterAccepted env block) := by
  unfold afterAccepted
  refine Frame.bind KeepsIntake.trans (Frame.read KeepsIntake.refl) fun s =>
    Frame.bind KeepsIntake.trans (connectOrphans_keeps env _ _ _) fun r => ?_
  obtain ⟨ended, vWorkQueue⟩ := r
  dsimp only
  split
  · exact Frame.pure KeepsIntake.refl _
  · exact Frame.stop KeepsIntake.refl _

theorem acceptWithOrphans_rejects : acceptWithOrphans env block s = (.error (.reject d msg), s')
      ↔ acceptInto env block s = (.error (.reject d msg), s') := by
  show (acceptInto env block >>= fun _ => afterAccepted env block) s = _ ↔ _
  rw [Exec.bind_stops]
  constructor
  · rintro (h | ⟨a, t, -, h⟩)
    · exact h
    · exact absurd h (afterAccepted_neverRejects env block t d msg s')
  · exact Or.inl

theorem acceptWithOrphans_isSome (h : acceptWithOrphans env block s = (.ok vWorkQueue, s')) :
    (s.node.mapBlockIndex.entries block.hashPrevBlock).isSome
      ∧ (s'.node.mapBlockIndex.entries (block.getHash env)).isSome := by
  obtain ⟨u, t, haccept, hrest⟩ := Exec.bind_returns.mp
    (show (acceptInto env block >>= fun _ => afterAccepted env block) s = _ from h)
  have hblock := acceptInto_eq haccept
  obtain ⟨prev, -, -, hprev, -⟩ := CBlock.acceptBlock_returns hblock
  exact ⟨by rw [hprev]; rfl, (afterAccepted_keeps env block).apply hrest _ (acceptBlock_isSome hblock)⟩

theorem velocityCheck_neverRejects (env : Env) (nHeight : Int) : NeverRejects (velocityCheck env nHeight) :=
  NeverRejects.bind (NeverRejects.bind (NeverRejects.update _) fun _ => NeverRejects.pure _) fun _ =>
    NeverRejects.pure _

theorem velocityAccepted_neverRejects (env : Env) (block : CBlock) : NeverRejects (velocityAccepted env block) := by
  unfold velocityAccepted
  refine NeverRejects.bind (NeverRejects.deref _) fun pindex =>
    NeverRejects.bind (velocityCheck_neverRejects env _) fun limited => ?_
  split
  · exact NeverRejects.bind (NeverRejects.lift_orUndefined _ _) fun hprev =>
      NeverRejects.onReject (NeverRejects.pure _)
  · exact NeverRejects.pure _

theorem velocityAccepted_keeps (env : Env) (block : CBlock) : Frame Keeps (velocityAccepted env block) := by
  have hR := Keeps.acceptFrame env
  unfold velocityAccepted
  refine hR.bind (hR.deref _) fun pindex =>
    hR.bind (hR.writes (velocityCheck_writes env _) (by decide)) fun limited => ?_
  split
  · exact hR.bind (hR.lift _) fun hprev => hR.reject
      (hR.bind (hR.writes (velocity_writes env _ _ _) (by decide)) fun _ => hR.pure _) (hR.pure _)
  · exact hR.pure _

theorem Writes.chainSame (h : Writes ps n n')
    (hps : ∀ p ∈ [Part.index, .pnext, .supply, .tip, .records, .trustRecord], p ∉ ps) : ChainSame n n' :=
  fun p hp => h p (hps p hp)

theorem ChainSame.entries_none (h : ChainSame n n') {hash : UInt256} (hnone : n.mapBlockIndex.entries hash = none)
    : n'.mapBlockIndex.entries hash = none := by
  have := h .index (by decide) hash
  rw [hnone, Option.map_none, Option.map_eq_none_iff] at this
  exact this

theorem verdictFits_of_prechecked (hpre : precheckBlock env settings pfrom block s = (.error e, s₁)) :
    VerdictFits env block s (processBlock env settings rand pfrom block s) := by
  have hrun : processBlock env settings rand pfrom block s = (.error (.stop e), s₁) :=
    Exec.bind_of_error (by simp only [ofIntake, hpre]; rfl) _
  rw [hrun]
  cases e with
  | reject d msg => exact ((precheckBlock_frame env settings pfrom block).apply hpre).1.chainSame (by decide)
  | exception what => trivial
  | undefined what => trivial

section Prechecked

variable {settings : IntakeSettings} {rand : Nat} {pfrom : Option NodeId} {s s₁ : Intake}

theorem prechecked (hpre : precheckBlock env settings pfrom block s = (.ok (), s₁)) :
    ChainSame s.node s₁.node ∧ s₁.node.mapBlockIndex.entries (block.getHash env) = none
      ∧ s₁.mapOrphanBlocks (block.getHash env) = none := by
  obtain ⟨hindex, horphan⟩ := precheckBlock_new hpre
  obtain ⟨hw, hpool, -⟩ := (precheckBlock_frame env settings pfrom block).apply hpre
  have hsame := hw.chainSame (by decide)
  exact ⟨hsame, hsame.entries_none hindex, by rw [hpool]; exact horphan⟩

theorem ChainSame.of_prechecked (hsame : ChainSame s.node s₁.node) (h : ChainSame s₁.node n) : ChainSame s.node n :=
  fun p hp => (hsame p hp).trans (h p hp)

theorem verdictFits_orphan_iff (hpre : precheckBlock env settings pfrom block s = (.ok (), s₁))
    (hparent : s₁.node.mapBlockIndex.entries block.hashPrevBlock = none) :
    VerdictFits env block s (processBlock env settings rand pfrom block s) ↔ pfrom ≠ none := by
  obtain ⟨hsame, hindex, horphan⟩ := prechecked hpre
  unfold processBlock
  rw [Exec.bind_of_ok (t := s₁) (a := ()) (by simp only [ofIntake, hpre]; rfl), Exec.read_bind, hparent]
  cases pfrom with
  | none => simp [VerdictFits, hindex, horphan]
  | some peer =>
    refine iff_of_true ?_ (by simp)
    rcases hhold : holdOrphan env settings rand block s₁ with ⟨r, s₂⟩
    obtain ⟨htaken, hnode⟩ := holdOrphan_fits settings rand hhold
    simp only [Option.isNone_none, if_true, ofIntake, hhold]
    cases r with
    | ok u => exact Or.inr (htaken rfl)
    | error e =>
      cases e with
      | reject d msg => exact hsame.of_prechecked (by rw [hnode]; exact (Writes.refl [] _).chainSame (by simp))
      | exception what => trivial
      | undefined what => trivial

theorem verdictFits_rejected_iff (hpre : precheckBlock env settings pfrom block s = (.ok (), s₁))
    (hparent : s₁.node.mapBlockIndex.entries block.hashPrevBlock ≠ none)
    (haccept : acceptWithOrphans env block s₁ = (.error e, s₂)) :
    VerdictFits env block s (processBlock env settings rand pfrom block s) ↔
      ∀ n₁, Entered env block s₁.node n₁ → ¬ Rejects (activateBlock env block) n₁ := by
  obtain ⟨hsame, hindex, -⟩ := prechecked hpre
  obtain ⟨prev, hprev⟩ := Option.ne_none_iff_exists'.mp hparent
  have hrun : processBlock env settings rand pfrom block s = (.error (.stop e), s₂) := by
    unfold processBlock processAccepted
    rw [Exec.bind_of_ok (t := s₁) (a := ()) (by simp only [ofIntake, hpre]; rfl), Exec.read_bind, hprev]
    exact Exec.bind_of_error (by simp only [ofIntake, haccept]; rfl) _
  rw [hrun]
  have hinto : ∀ {d msg t}, block.acceptBlock env s₁.node = (.error (.reject d msg), t) →
      ∃ t', acceptWithOrphans env block s₁ = (.error (.reject d msg), t') := by
    intro d msg t h
    have hfst := acceptInto_fst env block s₁
    rw [h] at hfst
    exact ⟨_, acceptWithOrphans_rejects.mpr (Prod.ext hfst rfl)⟩
  cases e with
  | reject d msg =>
    have hblock := acceptInto_eq (acceptWithOrphans_rejects.mp haccept)
    constructor
    · intro hfits n₁ hentered hrejects
      have hin := hentered.isSome
      rw [hblock, hfits.entries_none (precheckBlock_new hpre).1] at hin
      cases hin
    · intro hsound
      rcases acceptBlock_rejects hblock with hw | ⟨n₁, hentered, hrejects⟩
      · exact hsame.of_prechecked (hw.chainSame (by decide))
      · exact absurd hrejects (hsound n₁ hentered)
  | exception what =>
    refine iff_of_true trivial fun n₁ hentered hrejects => ?_
    obtain ⟨d, msg, t, h⟩ := hentered.rejects hrejects
    obtain ⟨t', h'⟩ := hinto h
    rw [haccept] at h'
    cases h'
  | undefined what =>
    refine iff_of_true trivial fun n₁ hentered hrejects => ?_
    obtain ⟨d, msg, t, h⟩ := hentered.rejects hrejects
    obtain ⟨t', h'⟩ := hinto h
    rw [haccept] at h'
    cases h'

theorem verdictFits_accepted_iff (hpre : precheckBlock env settings pfrom block s = (.ok (), s₁))
    (hparent : s₁.node.mapBlockIndex.entries block.hashPrevBlock ≠ none)
    (haccept : acceptWithOrphans env block s₁ = (.ok vWorkQueue, s₂)) :
    VerdictFits env block s (processBlock env settings rand pfrom block s) ↔
      ∀ s₃, onNode (velocityAccepted env block) s₂ ≠ (.ok false, s₃) := by
  obtain ⟨prev, hprev⟩ := Option.ne_none_iff_exists'.mp hparent
  have hin := (acceptWithOrphans_isSome haccept).2
  unfold processBlock processAccepted
  rw [Exec.bind_of_ok (t := s₁) (a := ()) (by simp only [ofIntake, hpre]; rfl), Exec.read_bind, hprev]
  simp only [Option.isNone_some, Bool.false_eq_true, if_false]
  rw [Exec.bind_of_ok (t := s₂) (a := vWorkQueue) (by simp only [ofIntake, haccept]; rfl)]
  rcases hvelocity : onNode (velocityAccepted env block) s₂ with ⟨r, s₃⟩
  have hin₃ : (s₃.node.mapBlockIndex.entries (block.getHash env)).isSome :=
    ((onNode_frame (velocityAccepted_keeps env block)).apply hvelocity).1 _ hin
  cases r with
  | error e =>
    rw [Exec.bind_of_error (e := .stop e) (t := s₃) (by simp only [ofIntake, hvelocity]; rfl)]
    refine iff_of_true ?_ (by simp)
    cases e with
    | reject d msg =>
      exact absurd hvelocity (NeverRejects.onNode (velocityAccepted_neverRejects env block) s₂ d msg s₃)
    | exception what => trivial
    | undefined what => trivial
  | ok passed =>
    rw [Exec.bind_of_ok (a := passed) (t := s₃) (by simp only [ofIntake, hvelocity]; rfl)]
    cases passed with
    | true => exact iff_of_true (Or.inl hin₃) (by simp)
    | false =>
      refine iff_of_false ?_ (fun h => h s₃ rfl)
      cases pfrom with
      | none => exact id
      | some peer =>
        intro hfits
        have hfits : ChainSame s.node s₃.node := hfits
        rw [hfits.entries_none (precheckBlock_new hpre).1] at hin₃
        cases hin₃

end Prechecked

/-- The verdict of `ProcessBlock` fits its effect, for every block, state and peer or null, exactly on the
    branches of `VerdictSound`. -/
theorem processBlock_verdict_iff (env : Env) (settings : IntakeSettings) (rand : Nat) (pfrom : Option NodeId)
    (block : CBlock) (s : Intake) : VerdictFits env block s (processBlock env settings rand pfrom block s)
      ↔ VerdictSound env settings pfrom block s := by
  rcases hpre : precheckBlock env settings pfrom block s with ⟨r, s₁⟩
  have hparentOf : ∀ {n₁}, Entered env block s₁.node n₁ →
      s₁.node.mapBlockIndex.entries block.hashPrevBlock ≠ none := by
    rintro n₁ ⟨prev, -, -, -, -, -, -, hprev, -⟩ hnone
    rw [hprev] at hnone
    cases hnone
  cases r with
  | error e =>
    refine iff_of_true (verdictFits_of_prechecked hpre) ⟨fun t h => ?_, fun t n₁ h => ?_, fun t q u v h => ?_⟩
      <;> · rw [hpre] at h
            cases h
  | ok u =>
    have hs₁ : ∀ {t}, precheckBlock env settings pfrom block s = (.ok (), t) → s₁ = t := by
      intro t h
      rw [hpre] at h
      exact (Prod.mk.inj h).2
    by_cases hparent : s₁.node.mapBlockIndex.entries block.hashPrevBlock = none
    · rw [verdictFits_orphan_iff hpre hparent]
      refine ⟨fun hpeer => ⟨fun t h _ => hpeer, fun t n₁ h hentered => ?_, fun t q u v h haccept => ?_⟩,
        fun hsound => hsound.orphan s₁ hpre hparent⟩
      · cases hs₁ h
        exact absurd hparent (hparentOf hentered)
      · cases hs₁ h
        have hknown := (acceptWithOrphans_isSome haccept).1
        rw [hparent] at hknown
        cases hknown
    · rcases haccept : acceptWithOrphans env block s₁ with ⟨r, s₂⟩
      cases r with
      | error e =>
        rw [verdictFits_rejected_iff hpre hparent haccept]
        refine ⟨fun hact => ⟨fun t h hnone => ?_, fun t n₁ h hentered => ?_, fun t q u v h hok => ?_⟩,
          fun hsound n₁ => hsound.activated s₁ n₁ hpre⟩
        · cases hs₁ h
          exact absurd hnone hparent
        · cases hs₁ h
          exact hact n₁ hentered
        · cases hs₁ h
          rw [haccept] at hok
          cases hok
      | ok u =>
        rw [verdictFits_accepted_iff hpre hparent haccept]
        refine ⟨fun hvel => ⟨fun t h hnone => ?_, fun t n₁ h hentered hrejects => ?_,
          fun t q u v h hok => ?_⟩, fun hsound s₃ => hsound.velocity s₁ u s₂ s₃ hpre haccept⟩
        · cases hs₁ h
          exact absurd hnone hparent
        · cases hs₁ h
          obtain ⟨d, msg, t, hreject⟩ := hentered.rejects hrejects
          have hfst := acceptInto_fst env block s₁
          rw [hreject] at hfst
          rw [acceptWithOrphans_rejects.mpr (Prod.ext hfst rfl)] at haccept
          cases haccept
        · cases hs₁ h
          rw [haccept] at hok
          cases hok
          exact hvel v

end Verdict

namespace Sample

def intake : Intake := ⟨chainNode 502, .empty, ∅, fun _ => none, [], ∅⟩

def intakeSettings : IntakeSettings := ⟨false, false, 100, 10000, fun _ => false⟩

/-- Sent by a peer, the block beside the best one is reported as rejected, but it is in the index. From the
    miner or `submitblock` it brings the null peer to be followed. -/
theorem besideBlock_verdict_fails : (∃ msg s', processBlock env intakeSettings 0 (some 7) besideBlock intake
        = (.error (.stop (.reject 0 msg)), s')
      ∧ intake.node.mapBlockIndex.entries (besideBlock.getHash env) = none
      ∧ (s'.node.mapBlockIndex.entries (besideBlock.getHash env)).isSome
      ∧ ¬ VerdictFits env besideBlock intake
        (processBlock env intakeSettings 0 (some 7) besideBlock intake))
    ∧ ∃ s', processBlock env intakeSettings 0 none besideBlock intake = (.error .nullPeer, s')
      ∧ ¬ VerdictFits env besideBlock intake (processBlock env intakeSettings 0 none besideBlock intake) := by
  have hnew : intake.node.mapBlockIndex.entries (besideBlock.getHash env) = none := by decide
  have hpeer : (processBlock env intakeSettings 0 (some 7) besideBlock intake).1
      = .error (.stop (.reject 0
        "ProcessBlock() : Velocity rejected block, required parameters not met")) := by
    decide +kernel
  have hin : ((processBlock env intakeSettings 0 (some 7) besideBlock intake).2.node.mapBlockIndex.entries
      (besideBlock.getHash env)).isSome := by
    decide +kernel
  have hnull : (processBlock env intakeSettings 0 none besideBlock intake).1 = .error .nullPeer := by
    decide +kernel
  refine ⟨⟨_, _, Exec.eq_of_fst hpeer, hnew, hin, ?_⟩, _, Exec.eq_of_fst hnull, ?_⟩
  · rw [Exec.eq_of_fst hpeer]
    intro hfits
    have hsame : ChainSame intake.node _ := hfits
    rw [hsame.entries_none hnew] at hin
    cases hin
  · rw [Exec.eq_of_fst hnull]
    exact id

end Sample

end PupaCoin
