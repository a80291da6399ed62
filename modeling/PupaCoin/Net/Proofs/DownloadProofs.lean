import PupaCoin.Net.Download

/-!
# The download tracking over all runs

Every operation keeps `Tracked`; over a reached state the loop of `SendMessages` takes one block off the
list in every round.
-/

namespace PupaCoin

variable {p : NodeId} {r : Requests} {fuel i : Nat} {q : Queue}

variable {state : CNodeState} {hash : UInt256}

namespace Downloads

variable {s s' : Downloads} {pnode : NodeId} {hash : UInt256} {now : Int}

section Lists

variable {state : CNodeState}

theorem toDownload_eq (hstate : s.state pnode = some state) : s.toDownload pnode = state.vBlocksToDownload := by
  simp [toDownload, hstate]

theorem inFlight_eq (hstate : s.state pnode = some state) : s.inFlight pnode = state.vBlocksInFlight := by
  simp [inFlight, hstate]

theorem state_of_mem_toDownload {x : ListIter × UInt256} (hx : x ∈ s.toDownload pnode) :
    ∃ state, s.state pnode = some state := by
  cases hstate : s.state pnode with
  | none => simp [toDownload, hstate] at hx
  | some state => exact ⟨state, rfl⟩

theorem state_of_mem_inFlight {x : ListIter × QueuedBlock} (hx : x ∈ s.inFlight pnode) :
    ∃ state, s.state pnode = some state := by
  cases hstate : s.state pnode with
  | none => simp [inFlight, hstate] at hx
  | some state => exact ⟨state, rfl⟩

theorem entries_update {α : Type} (list : CNodeState → List α) (m : NodeId → Option CNodeState) (v : Option CNodeState) :
    (fun p => ((Function.update m pnode v p).map list).getD [])
      = Function.update (fun p => ((m p).map list).getD []) pnode ((v.map list).getD []) := by
  funext p
  by_cases hp : p = pnode
  · subst hp
    simp
  · simp [Function.update_of_ne hp]

end Lists

namespace Tracked

theorem update (hs : Tracked s) (pnode : NodeId) (v : Option CNodeState)
    {inFlight toDownload : UInt256 → Option (NodeId × ListIter)} {n : ListIter} (hcounts : ∀ state, v = some state →
      state.nBlocksToDownload = state.vBlocksToDownload.length
        ∧ state.nBlocksInFlight = state.vBlocksInFlight.length)
    (hto : Registry.Agrees id
      (Function.update s.toDownload pnode ((v.map CNodeState.vBlocksToDownload).getD [])) toDownload)
    (hin : Registry.Agrees QueuedBlock.hash
      (Function.update s.inFlight pnode ((v.map CNodeState.vBlocksInFlight).getD [])) inFlight)
    (hapart : ∀ hash, toDownload hash = none ∨ inFlight hash = none)
    (hn : s.nextIter ≤ n)
    (hallocated : ∀ state, v = some state →
      (∀ entry ∈ state.vBlocksToDownload, entry.1 < n) ∧ ∀ entry ∈ state.vBlocksInFlight, entry.1 < n) :
    Tracked ⟨Function.update s.mapNodeState pnode v, inFlight, toDownload, n⟩ where
  counts := by
    intro p state hstate
    by_cases hp : p = pnode
    · subst hp
      exact hcounts state (by simpa [Downloads.state] using hstate)
    · exact hs.counts p state (by simpa [Downloads.state, Function.update_of_ne hp] using hstate)
  toDownload := by
    have hupdate := @entries_update pnode _ CNodeState.vBlocksToDownload s.mapNodeState v
    unfold Downloads.toDownload Downloads.state at hto ⊢
    rw [hupdate]
    exact hto
  inFlight := by
    have hupdate := @entries_update pnode _ CNodeState.vBlocksInFlight s.mapNodeState v
    unfold Downloads.inFlight Downloads.state at hin ⊢
    rw [hupdate]
    exact hin
  apart := hapart
  allocated := by
    intro p
    by_cases hp : p = pnode
    · subst hp
      cases v with
      | none => simp [Downloads.toDownload, Downloads.inFlight, Downloads.state]
      | some state => simpa [Downloads.toDownload, Downloads.inFlight, Downloads.state]
          using hallocated state rfl
    · obtain ⟨hto, hin⟩ := hs.allocated p
      simp only [Downloads.toDownload, Downloads.inFlight, Downloads.state, Function.update_of_ne hp] at hto hin ⊢
      exact ⟨fun x hx => lt_of_lt_of_le (hto x hx) hn, fun x hx => lt_of_lt_of_le (hin x hx) hn⟩

theorem setState (hs : Tracked s) {pnode : NodeId}
    (hcounts : state.nBlocksToDownload = state.vBlocksToDownload.length
      ∧ state.nBlocksInFlight = state.vBlocksInFlight.length)
    (hto : state.vBlocksToDownload = s.toDownload pnode)
    (hin : state.vBlocksInFlight = s.inFlight pnode) : Tracked (s.setState pnode state) := by
  have hallocated := hs.allocated pnode
  refine hs.update pnode (some state) ?_ ?_ ?_ hs.apart le_rfl ?_
  · rintro _ ⟨⟩
    exact hcounts
  · rw [Option.map_some, Option.getD_some, hto, Function.update_eq_self]
    exact hs.toDownload
  · rw [Option.map_some, Option.getD_some, hin, Function.update_eq_self]
    exact hs.inFlight
  · rintro _ ⟨⟩
    rw [hto, hin]
    exact hallocated

theorem misbehaving (hs : Tracked s) (banscore : Int) (pnode : NodeId) (howmuch : Int) :
    Tracked (s.misbehaving banscore pnode howmuch) := by
  unfold Downloads.misbehaving
  split_ifs with h0
  · exact hs
  · cases hstate : s.state pnode with
    | none => exact hs
    | some state =>
      exact hs.setState (hs.counts pnode state hstate) (toDownload_eq hstate).symm
        (inFlight_eq hstate).symm

theorem initializeNode (hs : Tracked s) (nodeid : NodeId) : Tracked (s.initializeNode nodeid) := by
  unfold Downloads.initializeNode
  cases hstate : s.state nodeid with
  | some state => exact hs
  | none =>
    refine hs.setState ⟨rfl, rfl⟩ ?_ ?_
    · simp [CNodeState.initial, Downloads.toDownload, hstate]
    · simp [CNodeState.initial, Downloads.inFlight, hstate]

theorem processMessage (hs : Tracked s) (h : s.processMessage now pnode = some s') : Tracked s' := by
  unfold Downloads.processMessage at h
  cases hstate : s.state pnode with
  | none => simp [hstate] at h
  | some state =>
    simp only [hstate, Option.bind_eq_bind, Option.bind_some, Option.pure_def, Option.some.injEq] at h
    subst h
    exact hs.setState (hs.counts pnode state hstate) (toDownload_eq hstate).symm
      (inFlight_eq hstate).symm

theorem finalizeNode (hs : Tracked s) (h : s.finalizeNode pnode = some s') : Tracked s' := by
  unfold Downloads.finalizeNode at h
  cases hstate : s.state pnode with
  | none => simp [hstate] at h
  | some state =>
    simp only [hstate, Option.bind_eq_bind, Option.bind_some, Option.pure_def, Option.some.injEq] at h
    subst h
    have hto := hs.toDownload.drop pnode
    have hin := hs.inFlight.drop pnode
    rw [toDownload_eq hstate] at hto
    rw [inFlight_eq hstate] at hin
    refine hs.update pnode none (by simp) hto hin ?_ le_rfl (by simp)
    intro hash
    show Registry.Agrees.forget s.mapBlocksToDownload _ hash = none
      ∨ Registry.Agrees.forget s.mapBlocksInFlight _ hash = none
    rw [Registry.Agrees.forget_apply, Registry.Agrees.forget_apply]
    rcases hs.apart hash with hnone | hnone
    · exact Or.inl (by simp [hnone])
    · exact Or.inr (by simp [hnone])

end Tracked

/-- What is known of the state after a block was struck off one of the two maps. -/
structure Struck (s s' : Downloads) : Prop where
  tracked : Tracked s'
  state : ∀ p, (s'.state p).isSome = (s.state p).isSome
  toDownload : ∀ p, (s'.toDownload p).length ≤ (s.toDownload p).length

theorem Struck.rfl (hs : Tracked s) : Struck s s := ⟨hs, fun _ => Eq.refl _, fun _ => le_rfl⟩

theorem Struck.trans {s'' : Downloads} (h : Struck s s') (h' : Struck s' s'') : Struck s s'' :=
  ⟨h'.tracked, fun p => (h'.state p).trans (h.state p), fun p => (h'.toDownload p).trans (h.toDownload p)⟩

theorem isSome_state_update {m : NodeId → Option CNodeState} {old new : CNodeState} (h : m p = some old) (q : NodeId)
    : (Function.update m p (some new) q).isSome = (m q).isSome := by
  by_cases hq : q = p
  · subst hq
    simp [h]
  · rw [Function.update_of_ne hq]

theorem receiveToDownload_returns (hs : Tracked s) (hash : UInt256) :
    ∃ s', s.receiveToDownload hash = some s' ∧ Struck s s' ∧ s'.mapBlocksToDownload hash = none
      ∧ s'.mapBlocksInFlight = s.mapBlocksInFlight
      ∧ ∀ p it, s.mapBlocksToDownload hash = some (p, it) →
        (s'.toDownload p).length + 1 = (s.toDownload p).length := by
  unfold receiveToDownload
  cases hmap : s.mapBlocksToDownload hash with
  | none => exact ⟨s, rfl, Struck.rfl hs, hmap, rfl, fun p it h => (by cases h)⟩
  | some place =>
    obtain ⟨p, it⟩ := place
    obtain ⟨e, he, -⟩ := hs.toDownload.entry hmap
    obtain ⟨state, hstate⟩ := state_of_mem_toDownload he
    have heq := toDownload_eq hstate
    have herase := hs.toDownload.erase hmap
    rw [heq] at he herase
    have hlen := Registry.length_eraseP he
    obtain ⟨hcountTo, hcountIn⟩ := hs.counts p state hstate
    obtain ⟨hto, hin⟩ := hs.allocated p
    rw [heq] at hto
    rw [inFlight_eq hstate] at hin
    simp only [hstate, Option.bind_eq_bind, Option.bind_some, Option.pure_def, Option.some.injEq, exists_eq_left']
    have hlist : ∀ q, (s.setState p { state with
        vBlocksToDownload := state.vBlocksToDownload.eraseP fun entry => decide (entry.1 = it)
        nBlocksToDownload := state.nBlocksToDownload - 1 }).toDownload q
          = Function.update s.toDownload p
            (state.vBlocksToDownload.eraseP fun entry => decide (entry.1 = it)) q := fun q =>
      congrFun (entries_update _ s.mapNodeState _) q
    refine ⟨⟨hs.update p (some _) ?_ herase ?_ ?_ le_rfl ?_, isSome_state_update hstate, ?_⟩, ?_, rfl, ?_⟩
    · rintro _ ⟨⟩
      refine ⟨?_, hcountIn⟩
      show state.nBlocksToDownload - 1 = ((state.vBlocksToDownload.eraseP _).length : Int)
      omega
    · rw [Option.map_some, Option.getD_some, ← inFlight_eq hstate, Function.update_eq_self]
      exact hs.inFlight
    · intro k
      by_cases hk : k = hash
      · subst hk
        exact Or.inl (Function.update_self ..)
      · rw [Function.update_of_ne hk]
        exact hs.apart k
    · rintro _ ⟨⟩
      exact ⟨fun x hx => hto x (List.mem_of_mem_eraseP hx), hin⟩
    · intro q
      refine (congrArg List.length (hlist q)).trans_le ?_
      by_cases hq : q = p
      · subst hq
        rw [Function.update_self, heq]
        omega
      · rw [Function.update_of_ne hq]
    · exact Function.update_self ..
    · rintro _ _ ⟨⟩
      refine (congrArg (fun l => List.length l + 1) (hlist p)).trans ?_
      rw [Function.update_self, heq]
      exact hlen

theorem receiveInFlight_returns (hs : Tracked s) (now : Int) (hash : UInt256) (nodeFrom : NodeId) :
    ∃ s', s.receiveInFlight now hash nodeFrom = some s' ∧ Struck s s'
      ∧ s'.mapBlocksInFlight hash = none ∧ s'.mapBlocksToDownload = s.mapBlocksToDownload
      ∧ s'.toDownload = s.toDownload := by
  unfold receiveInFlight
  cases hmap : s.mapBlocksInFlight hash with
  | none => exact ⟨s, rfl, Struck.rfl hs, hmap, rfl, rfl⟩
  | some place =>
    obtain ⟨p, it⟩ := place
    obtain ⟨e, he, -⟩ := hs.inFlight.entry hmap
    obtain ⟨state, hstate⟩ := state_of_mem_inFlight he
    have heq := inFlight_eq hstate
    have herase := hs.inFlight.erase hmap
    rw [heq] at he herase
    have hlen := Registry.length_eraseP he
    obtain ⟨hcountTo, hcountIn⟩ := hs.counts p state hstate
    obtain ⟨hto, hin⟩ := hs.allocated p
    rw [toDownload_eq hstate] at hto
    rw [heq] at hin
    simp only [hstate, Option.bind_eq_bind, Option.bind_some, Option.pure_def, Option.some.injEq, exists_eq_left']
    have hlist : (s.setState p { state with
        vBlocksInFlight := state.vBlocksInFlight.eraseP fun entry => decide (entry.1 = it)
        nBlocksInFlight := state.nBlocksInFlight - 1
        nLastBlockReceive := if p = nodeFrom then now else state.nLastBlockReceive }).toDownload
          = s.toDownload := by
      refine (entries_update _ s.mapNodeState _).trans ?_
      rw [Option.map_some, Option.getD_some, ← toDownload_eq hstate]
      exact Function.update_eq_self ..
    refine ⟨⟨hs.update p (some _) ?_ ?_ herase ?_ le_rfl ?_, isSome_state_update hstate, ?_⟩, ?_, rfl, hlist⟩
    · rintro _ ⟨⟩
      refine ⟨hcountTo, ?_⟩
      show state.nBlocksInFlight - 1 = ((state.vBlocksInFlight.eraseP _).length : Int)
      omega
    · rw [Option.map_some, Option.getD_some, ← toDownload_eq hstate, Function.update_eq_self]
      exact hs.toDownload
    · intro k
      by_cases hk : k = hash
      · subst hk
        exact Or.inr (Function.update_self ..)
      · rw [Function.update_of_ne hk]
        exact hs.apart k
    · rintro _ ⟨⟩
      exact ⟨hto, fun x hx => hin x (List.mem_of_mem_eraseP hx)⟩
    · intro q
      exact (congrArg List.length (congrFun hlist q)).le
    · exact Function.update_self ..

theorem markBlockAsReceived_returns (hs : Tracked s) (now : Int) (hash : UInt256) (nodeFrom : NodeId) :
    ∃ s', s.markBlockAsReceived now hash nodeFrom = some s' ∧ Struck s s'
      ∧ s'.mapBlocksToDownload hash = none ∧ s'.mapBlocksInFlight hash = none
      ∧ ∀ p it, s.mapBlocksToDownload hash = some (p, it) →
        (s'.toDownload p).length + 1 = (s.toDownload p).length := by
  obtain ⟨s₁, h₁, hstruck₁, hto, -, hless⟩ := receiveToDownload_returns hs hash
  obtain ⟨s₂, h₂, hstruck₂, hin, hmap, hlists⟩ :=
    receiveInFlight_returns hstruck₁.tracked now hash nodeFrom
  refine ⟨s₂, ?_, hstruck₁.trans hstruck₂, ?_, hin, fun p it hp => ?_⟩
  · simp only [markBlockAsReceived, h₁, Option.bind_eq_bind, Option.bind_some, h₂]
  · rw [hmap, hto]
  · rw [hlists]
    exact hless p it hp

theorem misbehaving_map (banscore : Int) (p : NodeId) (howmuch : Int) (s : Downloads) (hash : UInt256)
    (v : Option (NodeId × ListIter)) : { misbehaving banscore p howmuch s with
      mapBlocksToDownload :=
        Function.update (misbehaving banscore p howmuch s).mapBlocksToDownload hash v }
      = misbehaving banscore p howmuch
        { s with mapBlocksToDownload := Function.update s.mapBlocksToDownload hash v } := by
  unfold misbehaving state setState
  split_ifs with h0
  · rfl
  · cases h : s.mapNodeState p <;> rfl

theorem Tracked.addBlockToQueue (hs : Tracked s) (banscore : Int) (nodeid : NodeId) (hash : UInt256) :
    Tracked (s.addBlockToQueue banscore nodeid hash).2 := by
  unfold Downloads.addBlockToQueue
  split_ifs with hknown
  · exact hs
  · simp only [Bool.or_eq_true, Option.isSome_iff_ne_none, not_or, not_not] at hknown
    obtain ⟨hto, hin⟩ := hknown
    cases hstate : s.state nodeid with
    | none => exact hs
    | some state =>
      simp only
      obtain ⟨hcountTo, hcountIn⟩ := hs.counts nodeid state hstate
      obtain ⟨hallocTo, hallocIn⟩ := hs.allocated nodeid
      have happend := hs.toDownload.append (o := nodeid) (e := hash) hto
        (fun x hx => (hallocTo x hx).ne)
      rw [toDownload_eq hstate] at happend hallocTo
      rw [inFlight_eq hstate] at hallocIn
      have hqueued : Tracked ⟨Function.update s.mapNodeState nodeid (some { state with
            vBlocksToDownload := state.vBlocksToDownload ++ [(s.nextIter, hash)]
            nBlocksToDownload := state.nBlocksToDownload + 1 }),
          s.mapBlocksInFlight,
          Function.update s.mapBlocksToDownload hash (some (nodeid, s.nextIter)), s.nextIter + 1⟩ := by
        refine hs.update nodeid (some _) ?_ happend ?_ ?_ (Nat.le_succ _) ?_
        · rintro _ ⟨⟩
          refine ⟨?_, hcountIn⟩
          rw [List.length_append, hcountTo]
          rfl
        · rw [Option.map_some, Option.getD_some, ← inFlight_eq hstate, Function.update_eq_self]
          exact hs.inFlight
        · intro k
          by_cases hk : k = hash
          · subst hk
            exact Or.inr hin
          · rw [Function.update_of_ne hk]
            exact hs.apart k
        · rintro _ ⟨⟩
          refine ⟨fun x hx => ?_, fun x hx => Nat.lt_succ_of_lt (hallocIn x hx)⟩
          rcases List.mem_append.mp hx with hx | hx
          · exact Nat.lt_succ_of_lt (hallocTo x hx)
          · rw [List.mem_singleton.mp hx]
            exact Nat.lt_succ_self _
      split_ifs with hmany
      · rw [misbehaving_map]
        exact hqueued.misbehaving banscore nodeid 10
      · exact hqueued

theorem enterInFlight_returns (hs : Tracked s) (now : Int)
    (hstate : s.state pnode = some state) (hto : s.mapBlocksToDownload hash = none)
    (hin : s.mapBlocksInFlight hash = none) : ∃ s', s.enterInFlight now pnode hash = some s' ∧ Struck s s' := by
  obtain ⟨hcountTo, hcountIn⟩ := hs.counts pnode state hstate
  obtain ⟨hallocTo, hallocIn⟩ := hs.allocated pnode
  have happend := hs.inFlight.append (o := pnode) (e := ⟨hash, now, state.nBlocksInFlight⟩) hin
    (fun x hx => (hallocIn x hx).ne)
  rw [inFlight_eq hstate] at happend hallocIn
  rw [toDownload_eq hstate] at hallocTo
  unfold enterInFlight
  simp only [hstate, Option.bind_eq_bind, Option.bind_some, Option.pure_def, Option.some.injEq, exists_eq_left']
  refine ⟨hs.update pnode (some _) ?_ ?_ happend ?_ (Nat.le_succ _) ?_, isSome_state_update hstate, ?_⟩
  · rintro _ ⟨⟩
    refine ⟨hcountTo, ?_⟩
    rw [List.length_append, hcountIn]
    rfl
  · rw [Option.map_some, Option.getD_some, ← toDownload_eq hstate, Function.update_eq_self]
    exact hs.toDownload
  · intro k
    by_cases hk : k = hash
    · subst hk
      exact Or.inl hto
    · rw [Function.update_of_ne hk]
      exact hs.apart k
  · rintro _ ⟨⟩
    refine ⟨fun x hx => Nat.lt_succ_of_lt (hallocTo x hx), fun x hx => ?_⟩
    rcases List.mem_append.mp hx with hx | hx
    · exact Nat.lt_succ_of_lt (hallocIn x hx)
    · rw [List.mem_singleton.mp hx]
      exact Nat.lt_succ_self _
  · intro q
    have hlist : Function.update s.toDownload pnode state.vBlocksToDownload = s.toDownload := by
      rw [← toDownload_eq hstate, Function.update_eq_self]
    refine (congrArg List.length ((congrFun (entries_update _ s.mapNodeState _) q).trans ?_)).le
    exact congrFun hlist q

theorem markBlockAsInFlight_returns (hs : Tracked s) (now : Int) (hash : UInt256)
    (hstate : s.state pnode = some state) : ∃ s', s.markBlockAsInFlight now pnode hash = some s' ∧ Struck s s'
      ∧ ∀ p it, s.mapBlocksToDownload hash = some (p, it) → (s'.toDownload p).length < (s.toDownload p).length := by
  obtain ⟨s₁, h₁, hstruck₁, hto, hin, hless⟩ := markBlockAsReceived_returns hs now hash (-1)
  have hthere : (s₁.state pnode).isSome := by rw [hstruck₁.state, hstate]; rfl
  obtain ⟨state₁, hstate₁⟩ := Option.isSome_iff_exists.mp hthere
  obtain ⟨s₂, h₂, hstruck₂⟩ := enterInFlight_returns hstruck₁.tracked now hstate₁ hto hin
  refine ⟨s₂, ?_, hstruck₁.trans hstruck₂, fun p it hp => ?_⟩
  · simp only [markBlockAsInFlight, hstate, h₁, Option.bind_eq_bind, Option.bind_some, h₂]
  · have := hless p it hp
    have := hstruck₂.toDownload p
    omega

theorem Tracked.markBlockAsInFlight (hs : Tracked s) (h : s.markBlockAsInFlight now pnode hash = some s')
    : Tracked s' := by
  cases hstate : s.state pnode with
  | none => simp [Downloads.markBlockAsInFlight, hstate] at h
  | some state =>
    obtain ⟨t, ht, hstruck, -⟩ := markBlockAsInFlight_returns hs now hash hstate
    rw [h] at ht
    cases ht
    exact hstruck.tracked

theorem requestBlock_returns (hs : Tracked r.downloads) (now : Int)
    (hstate : r.downloads.state pnode = some state) (hmore : state.nBlocksToDownload ≠ 0) :
    ∃ r', requestBlock now pnode state r = some r' ∧ Struck r.downloads r'.downloads
      ∧ (r'.downloads.toDownload pnode).length < (r.downloads.toDownload pnode).length := by
  have hcount := (hs.counts pnode state hstate).1
  cases hlist : state.vBlocksToDownload with
  | nil =>
    rw [hlist] at hcount
    exact absurd hcount hmore
  | cons front rest =>
    obtain ⟨it, hash⟩ := front
    have hmem : (it, hash) ∈ r.downloads.toDownload pnode := by
      rw [toDownload_eq hstate, hlist]
      exact List.mem_cons_self ..
    have hmap := (hs.toDownload.index_iff hash pnode it).mpr ⟨hash, hmem, rfl⟩
    obtain ⟨s', h', hstruck, hless⟩ := markBlockAsInFlight_returns hs now hash hstate
    simp only [requestBlock, hlist, List.head?_cons, h', Option.bind_eq_bind, Option.bind_some,
      Option.pure_def, Option.some.injEq, exists_eq_left']
    split_ifs
    · exact ⟨hstruck, hless pnode it hmap⟩
    · exact ⟨hstruck, hless pnode it hmap⟩

theorem requestBlocks_returns (now : Nat → Int) (fDisconnect : Bool) :
    ∀ (fuel : Nat) (r : Requests), Tracked r.downloads → (r.downloads.state pnode).isSome →
      (r.downloads.toDownload pnode).length ≤ fuel →
      ∃ r', requestBlocks now pnode fDisconnect fuel r = some (true, r')
        ∧ Struck r.downloads r'.downloads := by
  intro fuel
  induction fuel with
  | zero =>
    intro r hs hthere hfuel
    obtain ⟨state, hstate⟩ := Option.isSome_iff_exists.mp hthere
    have hcount := (hs.counts pnode state hstate).1
    rw [toDownload_eq hstate] at hfuel
    have hzero : state.nBlocksToDownload = 0 := by omega
    refine ⟨r, ?_, Struck.rfl hs⟩
    simp [requestBlocks, hstate, wantsBlocks, hzero]
  | succ fuel ih =>
    intro r hs hthere hfuel
    obtain ⟨state, hstate⟩ := Option.isSome_iff_exists.mp hthere
    by_cases hwants : wantsBlocks fDisconnect state = true
    · have hmore : state.nBlocksToDownload ≠ 0 := by
        intro hzero
        simp [wantsBlocks, hzero] at hwants
      obtain ⟨r₁, h₁, hstruck₁, hless⟩ := requestBlock_returns hs (now fuel) hstate hmore
      obtain ⟨r₂, h₂, hstruck₂⟩ := ih r₁ hstruck₁.tracked (by rw [hstruck₁.state, hthere])
        (by omega)
      refine ⟨r₂, ?_, hstruck₁.trans hstruck₂⟩
      simp only [requestBlocks, hstate, Option.bind_eq_bind, Option.bind_some, hwants, if_true, h₁, h₂]
    · refine ⟨r, ?_, Struck.rfl hs⟩
      simp [requestBlocks, hstate, hwants]

theorem Tracked.requestBlocks (now : Nat → Int) (fDisconnect : Bool) :
    ∀ (fuel : Nat) (r : Requests) (b : Bool) (r' : Requests), Tracked r.downloads →
      requestBlocks now pnode fDisconnect fuel r = some (b, r') → Tracked r'.downloads := by
  intro fuel
  induction fuel with
  | zero =>
    intro r b r' hs h
    cases hstate : r.downloads.state pnode with
    | none => simp [Downloads.requestBlocks, hstate] at h
    | some state =>
      simp only [Downloads.requestBlocks, hstate, Option.bind_eq_bind, Option.bind_some,
        Option.pure_def, Option.some.injEq, Prod.mk.injEq] at h
      rw [← h.2]
      exact hs
  | succ fuel ih =>
    intro r b r' hs h
    cases hstate : r.downloads.state pnode with
    | none => simp [Downloads.requestBlocks, hstate] at h
    | some state =>
      by_cases hwants : wantsBlocks fDisconnect state = true
      · have hmore : state.nBlocksToDownload ≠ 0 := by
          intro hzero
          simp [wantsBlocks, hzero] at hwants
        obtain ⟨r₁, h₁, hstruck₁, -⟩ := requestBlock_returns hs (now fuel) hstate hmore
        simp only [Downloads.requestBlocks, hstate, Option.bind_eq_bind, Option.bind_some, hwants, if_true, h₁] at h
        exact ih r₁ b r' hstruck₁.tracked h
      · simp only [Downloads.requestBlocks, hstate, Option.bind_eq_bind, Option.bind_some, hwants,
          Bool.false_eq_true, if_false, Option.pure_def, Option.some.injEq, Prod.mk.injEq] at h
        rw [← h.2]
        exact hs

theorem isStalling_returns (fDisconnect : Bool)
    (hcount : state.nBlocksInFlight = state.vBlocksInFlight.length) :
    ∃ stalling, isStalling fDisconnect state = some stalling := by
  unfold isStalling
  split_ifs with h
  · cases hlist : state.vBlocksInFlight with
    | nil =>
      rw [hlist] at hcount
      exact absurd hcount h.2.1
    | cons front rest => exact ⟨_, rfl⟩
  · exact ⟨false, rfl⟩

theorem sendMessages_returns (hs : Tracked s) (hstate : s.state pnode = some state)
    (now : Nat → Int) (fDisconnect : Bool) (hfuel : state.vBlocksToDownload.length ≤ fuel) :
    ∃ r, s.sendMessages now pnode fDisconnect fuel = some (true, r) := by
  obtain ⟨stalling, hstalling⟩ := isStalling_returns fDisconnect (hs.counts pnode state hstate).2
  obtain ⟨r, hr, -⟩ := requestBlocks_returns now (fDisconnect || stalling) fuel ⟨s, [], []⟩ hs
    (by rw [hstate]; rfl) (by rw [toDownload_eq hstate]; exact hfuel)
  refine ⟨r, ?_⟩
  simp only [sendMessages, hstate, Option.bind_eq_bind, Option.bind_some, hstalling, hr]

theorem Tracked.sendMessages (hs : Tracked s) {now : Nat → Int} {fDisconnect : Bool} {b : Bool}
    (h : s.sendMessages now pnode fDisconnect fuel = some (b, r)) : Tracked r.downloads := by
  cases hstate : s.state pnode with
  | none => simp [Downloads.sendMessages, hstate] at h
  | some state =>
    simp only [Downloads.sendMessages, hstate, Option.bind_eq_bind, Option.bind_some, Option.bind_eq_some_iff] at h
    obtain ⟨stalling, -, hloop⟩ := h
    exact Tracked.requestBlocks now _ fuel _ b r hs hloop

theorem Tracked.empty : Tracked .empty where
  counts := by simp [Downloads.empty, state]
  toDownload := Registry.Agrees.empty id
  inFlight := Registry.Agrees.empty QueuedBlock.hash
  apart := by simp [Downloads.empty]
  allocated := by simp [Downloads.empty, Downloads.toDownload, Downloads.inFlight, state]

theorem Reachable.tracked (hs : Reachable s) : Tracked s := by
  induction hs with
  | empty => exact Tracked.empty
  | initializeNode nodeid _ ih => exact ih.initializeNode nodeid
  | finalizeNode nodeid _ h ih => exact ih.finalizeNode h
  | markBlockAsReceived now hash nodeFrom _ h ih =>
    obtain ⟨t, ht, hstruck, -⟩ := markBlockAsReceived_returns ih now hash nodeFrom
    rw [h] at ht
    cases ht
    exact hstruck.tracked
  | addBlockToQueue banscore nodeid hash _ ih => exact ih.addBlockToQueue banscore nodeid hash
  | markBlockAsInFlight now nodeid hash _ h ih => exact ih.markBlockAsInFlight h
  | misbehaving banscore nodeid howmuch _ ih => exact ih.misbehaving banscore nodeid howmuch
  | processMessage now nodeid _ h ih => exact ih.processMessage h
  | sendMessages now pto fDisconnect fuel _ h ih => exact ih.sendMessages h

theorem Tracked.index_of_hashes (hs : Tracked s) (hi : (s.hashes pnode q)[i]? = some hash) : match q with
    | .toDownload => ∃ it, s.mapBlocksToDownload hash = some (pnode, it)
    | .inFlight => ∃ it, s.mapBlocksInFlight hash = some (pnode, it) := by
  have hmem := List.mem_of_getElem? hi
  cases q with
  | toDownload =>
    obtain ⟨x, hx, hxk⟩ := List.mem_map.mp hmem
    exact ⟨x.1, (hs.toDownload.index_iff hash pnode x.1).mpr ⟨x.2, hx, hxk⟩⟩
  | inFlight =>
    obtain ⟨x, hx, hxk⟩ := List.mem_map.mp hmem
    exact ⟨x.1, (hs.inFlight.index_iff hash pnode x.1).mpr ⟨x.2, hx, hxk⟩⟩

theorem Tracked.nodup_hashes (hs : Tracked s) (q : Queue) : (s.hashes pnode q).Nodup := by
  cases q with
  | toDownload => exact hs.toDownload.keys pnode
  | inFlight => exact hs.inFlight.keys pnode

theorem Tracked.place_unique (hs : Tracked s) {p' : NodeId} {q' : Queue} {i' : Nat}
    (hi : (s.hashes p q)[i]? = some hash) (hi' : (s.hashes p' q')[i']? = some hash) : p = p' ∧ q = q' ∧ i = i' := by
  have hindex := hs.index_of_hashes hi
  have hindex' := hs.index_of_hashes hi'
  have hwhere : p = p' ∧ q = q' := by
    cases q <;> cases q' <;> obtain ⟨it, hit⟩ := hindex <;> obtain ⟨it', hit'⟩ := hindex'
    · rw [hit] at hit'
      exact ⟨(Prod.mk.inj (Option.some.inj hit')).1, rfl⟩
    · rcases hs.apart hash with h | h
      · rw [h] at hit; cases hit
      · rw [h] at hit'; cases hit'
    · rcases hs.apart hash with h | h
      · rw [h] at hit'; cases hit'
      · rw [h] at hit; cases hit
    · rw [hit] at hit'
      exact ⟨(Prod.mk.inj (Option.some.inj hit')).1, rfl⟩
  obtain ⟨rfl, rfl⟩ := hwhere
  obtain ⟨hlt, hget⟩ := List.getElem?_eq_some_iff.mp hi
  obtain ⟨hlt', hget'⟩ := List.getElem?_eq_some_iff.mp hi'
  exact ⟨rfl, rfl, (hs.nodup_hashes q).getElem_inj_iff.mp (hget.trans hget'.symm)⟩

/-- In every state reached by any interleaving, over any peers: the counters are the sizes of the lists, a
block stands at one place of one list of one peer at most, the maps lead exactly to the entries, and the
loop that turns queued blocks into requests ends. -/
theorem reachable_download_tracking (hs : Reachable s) : (∀ p state, s.state p = some state →
      state.nBlocksInFlight = state.vBlocksInFlight.length
        ∧ state.nBlocksToDownload = state.vBlocksToDownload.length)
    ∧ (∀ p p' q q' (i i' : Nat) hash, (s.hashes p q)[i]? = some hash → (s.hashes p' q')[i']? = some hash →
        p = p' ∧ q = q' ∧ i = i')
    ∧ (∀ hash p it, s.mapBlocksToDownload hash = some (p, it) ↔ (it, hash) ∈ s.toDownload p)
    ∧ (∀ hash p it, s.mapBlocksInFlight hash = some (p, it)
        ↔ ∃ entry, (it, entry) ∈ s.inFlight p ∧ entry.hash = hash)
    ∧ ∀ now pto fDisconnect state, s.state pto = some state → ∀ fuel ≥ state.vBlocksToDownload.length,
          ∃ r, s.sendMessages now pto fDisconnect fuel = some (true, r) := by
  have htracked := hs.tracked
  refine ⟨fun p state hstate => ?_, fun p p' q q' i i' hash hi hi' => htracked.place_unique hi hi',
    fun hash p it => ?_, htracked.inFlight.index_iff, fun now pto fDisconnect state hstate fuel hfuel =>
      sendMessages_returns htracked hstate now fDisconnect hfuel⟩
  · exact (htracked.counts p state hstate).symm
  · rw [htracked.toDownload.index_iff]
    constructor
    · rintro ⟨e, he, rfl⟩
      exact he
    · intro he
      exact ⟨hash, he, rfl⟩

end Downloads

namespace Sample

open Downloads

def peers : Downloads := (((Downloads.empty.initializeNode 1).initializeNode 2).addBlockToQueue 100 1 7).2

theorem peers_reachable : peers.Reachable :=
  .addBlockToQueue 100 1 7 (.initializeNode 2 (.initializeNode 1 .empty))

theorem peers_download_tracking : (∀ p it, peers.mapBlocksToDownload 7 = some (p, it) ↔ (it, 7) ∈ peers.toDownload p)
    ∧ ∃ r, peers.sendMessages (fun _ => 0) 1 false 1 = some (true, r) := by
  obtain ⟨-, -, hmap, -, hends⟩ := reachable_download_tracking peers_reachable
  exact ⟨hmap 7, hends (fun _ => 0) 1 false _ rfl 1 (by decide)⟩

/-- The block moves from one list to the other. -/
example : ((peers.sendMessages (fun _ => 0) 1 false 1).map fun r =>
    (r.2.vGetData, r.2.downloads.hashes 1 .toDownload, r.2.downloads.hashes 1 .inFlight))
    = some ([7], [], [7]) := by
  decide

end Sample

end PupaCoin
