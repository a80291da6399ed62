import PupaCoin.Chain.Proofs.AtomicityProofs
import PupaCoin.Chain.Proofs.VerdictProofs

/-!
# Memory and database along a run

A reorganisation moves the end of the chain one block at a time: down by a disconnect and up by a connect. The
pointers in memory follow after the commit in the same steps.
-/

namespace PupaCoin

open Exec

variable {t : BlockTree} {branch : List CBlockIndex} {e : Stop}

namespace BlockTree

variable {t t' : BlockTree} {h p tip : UInt256} {e : CBlockIndex}

/-- The trees have the same entries up to `pnext` pointers and supplies. -/
def SameCore (t t' : BlockTree) : Prop :=
  ∀ h, (t'.entries h).map CBlockIndex.core = (t.entries h).map CBlockIndex.core

theorem SameCore.pprev (hsame : SameCore t t') (h : UInt256) : t'.pprev h = t.pprev h := by
  have hcore := congrArg (Option.bind · CBlockIndex.pprev) (hsame h)
  simp only [Option.bind_map] at hcore
  exact hcore

theorem SameCore.nHeight (hsame : SameCore t t') (h : UInt256) : t'.nHeight h = t.nHeight h := by
  have hcore := congrArg (fun o => (o.map CBlockIndex.nHeight).getD 0) (hsame h)
  simp only [Option.map_map] at hcore
  exact hcore

theorem SameCore.toParentTree (hsame : SameCore t t') : t'.toParentTree = t.toParentTree := by
  unfold BlockTree.toParentTree
  congr 1
  · exact funext hsame.pprev
  · exact funext hsame.nHeight

theorem SameCore.path (hsame : SameCore t t') (h : UInt256) : t'.path h = t.path h := by
  unfold BlockTree.path
  rw [hsame.toParentTree]

theorem SameCore.next (hsame : SameCore t t') (tip h : UInt256) : t'.next tip h = t.next tip h := by
  unfold BlockTree.next
  rw [hsame.toParentTree]

theorem SameCore.entry (hsame : SameCore t t') (he : t'.entries h = some e) :
    ∃ f, t.entries h = some f ∧ e.core = f.core := by
  have hcore := hsame h
  rw [he, Option.map_some, eq_comm, Option.map_eq_some_iff] at hcore
  obtain ⟨f, hf, hcore⟩ := hcore
  exact ⟨f, hf, hcore.symm⟩

theorem SameCore.symm (hsame : SameCore t t') : SameCore t' t := fun h => (hsame h).symm

theorem SameCore.trans {t'' : BlockTree} (h1 : SameCore t t') (h2 : SameCore t' t'') : SameCore t t'' :=
  fun h => (h2 h).trans (h1 h)

theorem sameCore_setPnext (next : Option UInt256) : SameCore t (t.setPnext h next) :=
  fun k => map_entries_setPnext t h k next fun _ => rfl

end BlockTree

open BlockTree

theorem CBlockIndex.eq_of_core {e f : CBlockIndex} (hcore : e.core = f.core) (hpnext : e.pnext = f.pnext)
    (hsupply : e.supply = f.supply) : e = f := by
  cases e
  cases f
  simp_all [CBlockIndex.core, CBlockIndex.supply]

section Moves

variable {t : BlockTree} {h p tip : UInt256}

/-- A block is disconnected: `pnext` of its parent is cleared. -/
theorem Linked.unlink (hl : Linked t tip) (hp : t.toParentTree.parent tip = some p) :
    Linked (t.setPnext p none) p := by
  intro k e' he'
  have hnext := ParentTree.next_of_parent hp k
  rw [BlockTree.next, (sameCore_setPnext none).toParentTree]
  rw [entries_setPnext] at he'
  split at he'
  · next hk =>
    subst hk
    obtain ⟨e, -, rfl⟩ := Option.map_eq_some_iff.mp he'
    exact (ParentTree.next_self k).symm
  · next hk =>
    rw [if_neg hk] at hnext
    rw [← hnext]
    exact hl k e' he'

/-- A block is connected: `pnext` of its parent points to it. -/
theorem Linked.link (hl : Linked t p) (hp : t.toParentTree.parent h = some p) : Linked (t.setPnext p (some h)) h := by
  intro k e' he'
  have hnext := ParentTree.next_of_parent hp k
  rw [BlockTree.next, (sameCore_setPnext (some h)).toParentTree]
  rw [entries_setPnext] at he'
  split at he'
  · next hk =>
    subst hk
    obtain ⟨e, -, rfl⟩ := Option.map_eq_some_iff.mp he'
    rw [if_pos rfl] at hnext
    exact hnext.symm
  · next hk =>
    rw [if_neg hk] at hnext
    rw [hnext]
    exact hl k e' he'

end Moves

def DbKey.IsIndexKey : DbKey → Prop
  | .blockIndex _ | .hashBestChain => True
  | _ => False

/-- The block index is the same, in memory and as read from the database. -/
structure IndexKept (n n' : Node) : Prop where
  mapBlockIndex : n'.mapBlockIndex = n.mapBlockIndex
  view : ∀ key : DbKey, key.IsIndexKey → n'.view key = n.view key

/-- Blocks from `a` down to a child of `b`, the highest first. -/
def Descends (t : ParentTree UInt256) : List CBlockIndex → UInt256 → UInt256 → Prop
  | [], a, b => a = b
  | pindex :: rest, a, b =>
    pindex.phashBlock = a ∧ ∃ p, t.parent a = some p ∧ pindex.pprev = some p ∧ Descends t rest p b

/-- Blocks from a child of `a` up to `b`, the lowest first. -/
def Climbs (t : ParentTree UInt256) : List CBlockIndex → UInt256 → UInt256 → Prop
  | [], a, b => a = b
  | pindex :: rest, a, b => t.parent pindex.phashBlock = some a ∧ pindex.pprev = some a
    ∧ Climbs t rest pindex.phashBlock b

theorem Climbs.append {t : ParentTree UInt256} {xs ys : List CBlockIndex} {a b c : UInt256} (hxs : Climbs t xs a b)
    (hys : Climbs t ys b c) : Climbs t (xs ++ ys) a c := by
  induction xs generalizing a with
  | nil =>
    obtain rfl : a = b := hxs
    exact hys
  | cons pindex rest ih => exact ⟨hxs.1, hxs.2.1, ih hxs.2.2⟩

section Branches

variable {t : BlockTree} {a h : UInt256} {e pfork : CBlockIndex}

/-- What is disconnected are the blocks from the tip down to the fork, each the parent of the one before. -/
theorem branchAbove_descends (he : t.entries h = some e) (hfork : pfork.phashBlock ∈ t.path h) :
    Descends t.toParentTree (branchAbove pfork (t.chain h)) h pfork.phashBlock
      ∧ Climbs t.toParentTree (branchAbove pfork (t.chain h)).reverse pfork.phashBlock h
      ∧ ∀ pindex ∈ branchAbove pfork (t.chain h), pindex.phashBlock ∈ t.toParentTree.above pfork.phashBlock h := by
  unfold branchAbove
  induction h using t.toParentTree.path_induction generalizing e with
  | root h hroot =>
    rw [BlockTree.path, ParentTree.path_of_root hroot, List.mem_singleton] at hfork
    have hhash := t.hash_eq he
    rw [parent_of_entry he] at hroot
    rw [chain_of_root he hroot]
    have hnil : [e].takeWhile (fun pindex => decide (pindex.phashBlock ≠ pfork.phashBlock)) = [] := by
      simp [hhash, hfork]
    rw [hnil, hfork]
    exact ⟨rfl, rfl, by simp⟩
  | child h p hparent ih =>
    have hhash := t.hash_eq he
    have hpp : e.pprev = some p := by rw [← parent_of_entry he, hparent]
    obtain ⟨f, hf, -⟩ := t.prev_height he hpp
    rw [chain_of_pprev he hpp]
    by_cases hh : h = pfork.phashBlock
    · have hnil : (e :: t.chain p).takeWhile
          (fun pindex => decide (pindex.phashBlock ≠ pfork.phashBlock)) = [] := by
        simp [hhash, hh]
      rw [hnil]
      exact ⟨hh, hh.symm, by simp⟩
    · rw [BlockTree.path, ParentTree.path_of_parent hparent] at hfork
      have hmem := (List.mem_cons.mp hfork).resolve_left (Ne.symm hh)
      obtain ⟨hdown, hup, habove⟩ := ih hf hmem
      rw [List.takeWhile_cons_of_pos (by simp [hhash, hh]), List.reverse_cons, ParentTree.above_of_parent hparent hh]
      refine ⟨⟨hhash, p, hparent, hpp, hdown⟩, hup.append ⟨hhash ▸ hparent, hpp, hhash⟩, ?_⟩
      intro pindex hpindex
      rcases List.mem_cons.mp hpindex with rfl | hpindex
      · rw [hhash]
        exact List.mem_cons_self
      · exact List.mem_cons_of_mem _ (habove pindex hpindex)

end Branches

/-- What a move of the best chain writes before the best block is set. -/
def movedParts : List Part :=
  [.invalidTrust, .trustRecord, .committed, .faults, .pnext, .mempool] ++ branchParts

section Writes

variable (env : Env)

theorem giveUp_writes {α : Type} (hNew : UInt256) (e : Stop) :
    Frame (Writes [.committed, .batch, .invalidTrust, .trustRecord])
      (do txnAbort; invalidChainFound hNew; Exec.stop e : NodeM α) :=
  Writes.frame_bind (Writes.frame_mono txnAbort_writes (by decide)) fun _ =>
    Writes.frame_bind (Writes.frame_mono (invalidChainFound_writes hNew) (by decide)) fun _ =>
      Writes.frame_stop e

theorem setBestChainInner_writes (block : CBlock) (hNew : UInt256) :
    Frame (Writes movedParts) (setBestChainInner env block hNew) := by
  unfold setBestChainInner
  refine Writes.frame_bind (Writes.frame_onReject (Writes.frame_bind (Writes.frame_mono
    (CBlock.connectBlock_writes env block hNew false) (by decide)) fun _ => Writes.frame_mono
      (writeHashBestChain_writes _) (by decide)) (Writes.frame_mono (giveUp_writes hNew _) (by decide))) fun _ =>
    Writes.frame_bind (Writes.frame_mono (txnCommit_writes _) (by decide)) fun _ => ?_
  exact Writes.frame_bind (Writes.frame_deref hNew) fun e => Writes.frame_bind (Writes.frame_lift _)
    fun hprev => Writes.frame_bind (Writes.frame_mono (Frame.update (setPnext_writes hprev (some hNew)))
      (by decide)) fun _ => Writes.frame_mono (Frame.update (removeFromPool_writes env block)) (by decide)

theorem connectSecondary_writes (vpindexSecondary : List CBlockIndex) :
    Frame (Writes movedParts) (connectSecondary env vpindexSecondary) := by
  induction vpindexSecondary with
  | nil => exact Writes.frame_pure _
  | cons pindex rest ih =>
    unfold connectSecondary
    refine Writes.frame_bind Writes.frame_read fun n => ?_
    split
    · exact Writes.frame_pure _
    · refine Writes.frame_bind (Writes.frame_mono txnBegin_writes (by decide)) fun _ => Writes.frame_bind
        (Writes.frame_onReject (Writes.frame_bind (setBestChainInner_writes env _ _) fun _ =>
          Writes.frame_pure _) (Writes.frame_pure _)) fun connected => ?_
      split
      · exact ih
      · exact Writes.frame_pure _

theorem reorganize_writes (hNew : UInt256) : Frame (Writes movedParts) (reorganize env hNew) := by
  unfold reorganize
  refine Writes.frame_bind (Writes.frame_mono (prepareReorganize_writes hNew) (by decide)) fun plan =>
    Writes.frame_bind (Writes.frame_mono (disconnectBranch_writes _ _) (by decide)) fun vResurrect =>
      Writes.frame_bind (Writes.frame_mono (connectBranch_writes _ _) (by decide)) fun vDelete => ?_
  exact Writes.frame_bind (Writes.frame_mono (writeHashBestChain_writes _) (by decide)) fun _ =>
    Writes.frame_bind (Writes.frame_mono (txnCommit_writes _) (by decide)) fun _ =>
      Writes.frame_mono (Frame.update (reorganizeMemory_writes env plan vResurrect vDelete)) (by decide)

end Writes

theorem BlockTree.eq_of_entries {t' : BlockTree} (h : t.entries = t'.entries) : t = t' := by
  cases t
  cases t'
  simp_all

/-- A call that leaves the index, its links and the records alone keeps what is stored. -/
theorem IndexKept.of_writes {ps : List Part} {n n' : Node} (hw : Writes ps n n')
    (h : ∀ p ∈ [Part.index, .pnext, .supply, .records, .batch], p ∉ ps) : IndexKept n n' where
  mapBlockIndex := by
    refine BlockTree.eq_of_entries (funext fun k => ?_)
    have hcore := hw .index (h _ (by simp)) k
    have hpnext := hw .pnext (h _ (by simp)) k
    have hsupply := hw .supply (h _ (by simp)) k
    unfold BlockTree.pnext at hpnext
    cases he : n.mapBlockIndex.entries k with
    | none =>
      rw [he, Option.map_none, Option.map_eq_none_iff] at hcore
      exact hcore
    | some e =>
      rw [he, Option.map_some, Option.map_eq_some_iff] at hcore
      obtain ⟨e', he', hcore⟩ := hcore
      rw [he, he'] at hpnext hsupply
      rw [he', CBlockIndex.eq_of_core hcore hpnext (Option.some.inj hsupply)]
  view key hkey := by
    have hbatch : n'.activeBatch = n.activeBatch := hw .batch (h _ (by simp))
    have hne : key ≠ .bnBestInvalidTrust := by
      rintro rfl
      exact hkey
    have hrecords := hw .records (h _ (by simp)) key hne
    unfold Node.view
    rw [hbatch]
    cases n.activeBatch with
    | none => exact hrecords
    | some batch =>
      simp only [Overlay.get]
      rw [hrecords]

section Reorganize

variable {env : Env} {n n' : Node} {tip0 tip h fork : UInt256}

/-- A whole branch is disconnected. By induction on its blocks. -/
theorem Linked.unlinkBranch (hl : Linked t tip)
    (hdown : Descends t.toParentTree branch tip fork) :
    Linked (unlinkBranch t branch) fork ∧ SameCore t (unlinkBranch t branch) := by
  induction branch generalizing t tip with
  | nil =>
    obtain rfl : tip = fork := hdown
    exact ⟨hl, fun _ => rfl⟩
  | cons pindex rest ih =>
    obtain ⟨hhash, p, hp, hpp, hrest⟩ := hdown
    have hcore : SameCore t (t.setPnext p none) := sameCore_setPnext none
    have hstep : PupaCoin.unlinkBranch t (pindex :: rest) = PupaCoin.unlinkBranch (t.setPnext p none) rest := by
      simp only [PupaCoin.unlinkBranch, List.foldl_cons, hpp]
    rw [← hcore.toParentTree] at hrest
    obtain ⟨hl', hcore'⟩ := ih (hl.unlink hp) hrest
    rw [hstep]
    exact ⟨hl', hcore.trans hcore'⟩

/-- A whole branch is connected. By induction on its blocks. -/
theorem Linked.linkBranch (hl : Linked t fork)
    (hup : Climbs t.toParentTree branch fork h) :
    Linked (linkBranch t branch) h ∧ SameCore t (linkBranch t branch) := by
  induction branch generalizing t fork with
  | nil =>
    obtain rfl : fork = h := hup
    exact ⟨hl, fun _ => rfl⟩
  | cons pindex rest ih =>
    obtain ⟨hp, hpp, hrest⟩ := hup
    have hcore : SameCore t (t.setPnext fork (some pindex.phashBlock)) := sameCore_setPnext _
    have hstep : PupaCoin.linkBranch t (pindex :: rest)
        = PupaCoin.linkBranch (t.setPnext fork (some pindex.phashBlock)) rest := by
      simp only [PupaCoin.linkBranch, List.foldl_cons, hpp]
    rw [← hcore.toParentTree] at hrest
    obtain ⟨hl', hcore'⟩ := ih (hl.link hp) hrest
    rw [hstep]
    exact ⟨hl', hcore.trans hcore'⟩

theorem reorganizeMemory_eq (env : Env) (plan : ReorganizePlan) (vResurrect vDelete : List CTransaction) (n : Node)
    : ∃ mempool walletSignals, reorganizeMemory env plan vResurrect vDelete n = { n with
      mapBlockIndex := linkBranch (unlinkBranch n.mapBlockIndex plan.vDisconnect) plan.vConnect
      mempool, walletSignals } := by
  have hpool : ∀ (step : Node → CTransaction → Node)
      (_ : ∀ m tx, ∃ mempool walletSignals, step m tx = { m with mempool, walletSignals })
      (txs : List CTransaction) (m : Node),
      ∃ mempool walletSignals, txs.foldl step m = { m with mempool, walletSignals } := by
    intro step hstep txs
    induction txs with
    | nil => exact fun m => ⟨m.mempool, m.walletSignals, rfl⟩
    | cons tx txs ih =>
      intro m
      obtain ⟨mempool, walletSignals, h1⟩ := hstep m tx
      obtain ⟨mempool', walletSignals', h2⟩ := ih (step m tx)
      exact ⟨mempool', walletSignals', by rw [List.foldl_cons, h2, h1]⟩
  unfold reorganizeMemory
  obtain ⟨mempool, walletSignals, h1⟩ := hpool (resurrect env) (fun m tx => ⟨_, _, rfl⟩) vResurrect
    { n with mapBlockIndex := linkBranch (unlinkBranch n.mapBlockIndex plan.vDisconnect) plan.vConnect }
  obtain ⟨mempool', walletSignals', h2⟩ := hpool (deleteFromPool env)
    (fun m tx => ⟨_, m.walletSignals, rfl⟩) vDelete (vResurrect.foldl (resurrect env)
      { n with mapBlockIndex := linkBranch (unlinkBranch n.mapBlockIndex plan.vDisconnect) plan.vConnect })
  exact ⟨mempool', walletSignals', h2.trans (by rw [h1])⟩

end Reorganize

section Inner

variable {env : Env} {block : CBlock} {n n' : Node} {tip h : UInt256}

theorem onReject_giveUp_returns {α : Type} {m : NodeM α} {a : α}
    (h : onReject m (do txnAbort; invalidChainFound hNew; Exec.stop e) n = (.ok a, n')) : m n = (.ok a, n') := by
  rcases onReject_returns.mp h with hm | ⟨_, _, _, -, hhandler⟩
  · exact hm
  · obtain ⟨_, _, _, hhandler⟩ := bind_returns.mp hhandler
    obtain ⟨_, _, _, hstop⟩ := bind_returns.mp hhandler
    cases hstop

/-- Where `SetBestChainInner` returns, the block was connected and committed, and its parent links to it. -/
theorem setBestChainInner_returns (hret : setBestChainInner env block h n = (.ok (), n')) :
    ∃ n₁ n₂ pindexNew hprev, block.connectBlock env h false n = (.ok (), n₁) ∧
      txnCommit "SetBestChain() : TxnCommit failed"
        (n₁.dbApply (.put .hashBestChain (.hash (block.getHash env)))) = (.ok (), n₂) ∧
      n₂.mapBlockIndex.entries h = some pindexNew ∧ pindexNew.pprev = some hprev ∧
      n' = removeFromPool env block
        { n₂ with mapBlockIndex := n₂.mapBlockIndex.setPnext hprev (some h) } := by
  unfold setBestChainInner at hret
  obtain ⟨_, _, hhandled, hret⟩ := bind_returns.mp hret
  obtain ⟨_, n₁, hconnect, hwrite⟩ := bind_returns.mp (onReject_giveUp_returns hhandled)
  rw [writeHashBestChain_apply, Prod.mk.injEq] at hwrite
  obtain ⟨-, rfl⟩ := hwrite
  obtain ⟨_, n₂, hcommit, hret⟩ := bind_returns.mp hret
  obtain ⟨pindexNew, _, hderef, hret⟩ := bind_returns.mp hret
  obtain ⟨hentry, rfl⟩ := deref_returns.mp hderef
  obtain ⟨hprev, _, hlift, hret⟩ := bind_returns.mp hret
  rw [lift_apply, Prod.mk.injEq, orUndefined_eq_ok] at hlift
  obtain ⟨hprev', rfl⟩ := hlift
  obtain ⟨_, _, hlink, hpool⟩ := bind_returns.mp hret
  rw [update_apply, Prod.mk.injEq] at hlink hpool
  obtain ⟨-, rfl⟩ := hlink
  exact ⟨n₁, n₂, pindexNew, hprev, hconnect, hcommit, hentry, hprev', hpool.2.symm⟩

/-- Where it does not, the connection was given up or the commit failed. -/
theorem setBestChainInner_stops (hstop : setBestChainInner env block h n = (.error e, n')) :
    onReject (do block.connectBlock env h false; writeHashBestChain (block.getHash env)) (do
        txnAbort
        invalidChainFound h
        Exec.stop (.reject 0 "")) n = (.error e, n') ∨
      (∃ n₁, (do block.connectBlock env h false; writeHashBestChain (block.getHash env) : NodeM Unit) n =
        (.ok (), n₁) ∧ txnCommit "SetBestChain() : TxnCommit failed" n₁ = (.error e, n')) ∨
      ∃ what, e = .undefined what := by
  unfold setBestChainInner at hstop
  rcases bind_stops.mp hstop with hconnect | ⟨_, n₁, hconnect, hstop⟩
  · exact Or.inl hconnect
  · right
    rcases bind_stops.mp hstop with hcommit | ⟨_, n₂, -, hstop⟩
    · exact Or.inl ⟨n₁, onReject_giveUp_returns hconnect, hcommit⟩
    · right
      rcases bind_stops.mp hstop with hderef | ⟨pindexNew, n₃, -, hstop⟩
      · rw [deref_apply, Prod.mk.injEq, orUndefined_eq_error] at hderef
        exact ⟨_, hderef.1.2.symm⟩
      · rcases bind_stops.mp hstop with hlift | ⟨hprev, n₄, -, hstop⟩
        · rw [lift_apply, Prod.mk.injEq, orUndefined_eq_error] at hlift
          exact ⟨_, hlift.1.2.symm⟩
        · rcases bind_stops.mp hstop with hupdate | ⟨_, _, -, hupdate⟩
          · cases hupdate
          · cases hupdate

/-- The first of the postponed blocks was read and connected. -/
theorem connectSecondary_returns {pindex : CBlockIndex} {rest : List CBlockIndex}
    (hret : connectSecondary env (pindex :: rest) n = (.ok [], n')) :
    ∃ block n₁ n₂, readBlockFromDisk env n pindex = some block ∧ txnBegin n = (.ok (), n₁) ∧
      setBestChainInner env block pindex.phashBlock n₁ = (.ok (), n₂) ∧
      connectSecondary env rest n₂ = (.ok [], n') := by
  unfold connectSecondary at hret
  rw [bind_apply, read_apply] at hret
  simp only at hret
  cases hread : readBlockFromDisk env n pindex with
  | none => simp [hread] at hret
  | some block =>
    simp only [hread] at hret
    obtain ⟨_, n₁, hbegin, hret⟩ := bind_returns.mp hret
    obtain ⟨connected, n₂, hinner, hret⟩ := bind_returns.mp hret
    rcases onReject_returns.mp hinner with hinner | ⟨_, _, _, -, hfalse⟩
    · obtain ⟨_, _, hone, htrue⟩ := bind_returns.mp hinner
      rw [pure_apply, Prod.mk.injEq, Except.ok.injEq] at htrue
      obtain ⟨rfl, rfl⟩ := htrue
      exact ⟨block, n₁, _, rfl, hbegin, hone, hret⟩
    · rw [pure_apply, Prod.mk.injEq, Except.ok.injEq] at hfalse
      obtain ⟨rfl, rfl⟩ := hfalse
      simp at hret

end Inner

theorem onReject_stops {α : Type} {m handler : NodeM α} {n t : Node}
    (hm : onReject m handler n = (.error e, t)) :
    m n = (.error e, t) ∨ ∃ d msg n1, m n = (.error (.reject d msg), n1) ∧ handler n1 = (.error e, t) := by
  unfold onReject at hm
  rcases hr : m n with ⟨r, n1⟩
  rw [hr] at hm
  cases r with
  | ok a => cases hm
  | error e' =>
    cases e' with
    | reject d msg => exact Or.inr ⟨d, msg, n1, rfl, hm⟩
    | exception w => exact Or.inl hm
    | undefined w => exact Or.inl hm

end PupaCoin
