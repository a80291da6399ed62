import PupaCoin.Chain.Params
import PupaCoin.Lib.Registry

/-!
# Which blocks are asked of which peers (`main.cpp`)

Every peer has a list of blocks to download from it and a list of blocks in flight, with a counter for
each; two maps lead from the hash of a block to the peer and to the place in the peer's list. A place is
a list iterator: it is modelled by the number under which the entry was allocated. A step is `none` where
the code dereferences a null pointer or an assertion fails.
-/

namespace PupaCoin

abbrev NodeId := Int

/-- An iterator into one of the lists. -/
abbrev ListIter := Nat

structure QueuedBlock where
  hash : UInt256
  nTime : Int
  nQueuedBefore : Int
deriving DecidableEq, Repr

structure CNodeState where
  nMisbehavior : Int
  fShouldBan : Bool
  vBlocksInFlight : List (ListIter × QueuedBlock)
  nBlocksInFlight : Int
  vBlocksToDownload : List (ListIter × UInt256)
  nBlocksToDownload : Int
  nLastBlockReceive : Int
  nLastBlockProcess : Int
deriving DecidableEq, Repr

/-- `CNodeState()`. -/
def CNodeState.initial : CNodeState := ⟨0, false, [], 0, [], 0, 0, 0⟩

/-- The download tracking of the node. -/
structure Downloads where
  mapNodeState : NodeId → Option CNodeState
  mapBlocksInFlight : UInt256 → Option (NodeId × ListIter)
  mapBlocksToDownload : UInt256 → Option (NodeId × ListIter)
  /-- The next iterator to be allocated. -/
  nextIter : ListIter

def blockDownloadTimeout : Int := 60
def maxBlocksInTransitPerPeer : Int := 128

namespace Downloads

def empty : Downloads := ⟨fun _ => none, fun _ => none, fun _ => none, 0⟩

def state (s : Downloads) (pnode : NodeId) : Option CNodeState := s.mapNodeState pnode

/-- An assignment through the pointer that `State` returns. -/
def setState (s : Downloads) (pnode : NodeId) (state : CNodeState) : Downloads :=
  { s with mapNodeState := Function.update s.mapNodeState pnode (some state) }

/-- `Misbehaving`, with the value of `-banscore`. -/
def misbehaving (banscore : Int) (pnode : NodeId) (howmuch : Int) (s : Downloads) : Downloads :=
  if howmuch = 0 then s
  else
    match s.state pnode with
    | none => s
    | some state =>
      let nMisbehavior := state.nMisbehavior + howmuch
      s.setState pnode { state with
        nMisbehavior, fShouldBan := state.fShouldBan || decide (nMisbehavior ≥ banscore) }

/-- `InitializeNode`: a peer that is there already stays. -/
def initializeNode (nodeid : NodeId) (s : Downloads) : Downloads :=
  match s.state nodeid with
  | none => s.setState nodeid .initial
  | some _ => s

def finalizeNode (nodeid : NodeId) (s : Downloads) : Option Downloads := do
  let state ← s.state nodeid
  return { s with
    mapBlocksInFlight := (state.vBlocksInFlight.map fun entry => entry.2.hash).foldl
      (fun m hash => Function.update m hash none) s.mapBlocksInFlight
    mapBlocksToDownload := (state.vBlocksToDownload.map fun entry => entry.2).foldl
      (fun m hash => Function.update m hash none) s.mapBlocksToDownload
    mapNodeState := Function.update s.mapNodeState nodeid none }

/-- The part of `MarkBlockAsReceived` about the blocks to download. -/
def receiveToDownload (hash : UInt256) (s : Downloads) : Option Downloads :=
  match s.mapBlocksToDownload hash with
  | none => some s
  | some (nodeid, it) => do
    let state ← s.state nodeid
    return { s.setState nodeid { state with
        vBlocksToDownload := state.vBlocksToDownload.eraseP fun entry => decide (entry.1 = it)
        nBlocksToDownload := state.nBlocksToDownload - 1 } with
      mapBlocksToDownload := Function.update s.mapBlocksToDownload hash none }

/-- The part of `MarkBlockAsReceived` about the blocks in flight. `now` is `GetTimeMicros()`. -/
def receiveInFlight (now : Int) (hash : UInt256) (nodeFrom : NodeId) (s : Downloads) : Option Downloads :=
  match s.mapBlocksInFlight hash with
  | none => some s
  | some (nodeid, it) => do
    let state ← s.state nodeid
    return { s.setState nodeid { state with
        vBlocksInFlight := state.vBlocksInFlight.eraseP fun entry => decide (entry.1 = it)
        nBlocksInFlight := state.nBlocksInFlight - 1
        nLastBlockReceive := if nodeid = nodeFrom then now else state.nLastBlockReceive } with
      mapBlocksInFlight := Function.update s.mapBlocksInFlight hash none }

def markBlockAsReceived (now : Int) (hash : UInt256) (nodeFrom : NodeId) (s : Downloads) : Option Downloads := do
  let s ← receiveToDownload hash s
  receiveInFlight now hash nodeFrom s

/-- `AddBlockToQueue`: whether the block was added. -/
def addBlockToQueue (banscore : Int) (nodeid : NodeId) (hash : UInt256) (s : Downloads) : Bool × Downloads :=
  if (s.mapBlocksToDownload hash).isSome || (s.mapBlocksInFlight hash).isSome then (false, s)
  else
    match s.state nodeid with
    | none => (false, s)
    | some state =>
      let nBlocksToDownload := state.nBlocksToDownload + 1
      let s' := { s.setState nodeid { state with
          vBlocksToDownload := state.vBlocksToDownload ++ [(s.nextIter, hash)]
          nBlocksToDownload } with
        nextIter := s.nextIter + 1 }
      let s' := if nBlocksToDownload > 5000 then misbehaving banscore nodeid 10 s' else s'
      (true, { s' with
        mapBlocksToDownload := Function.update s'.mapBlocksToDownload hash (some (nodeid, s.nextIter)) })

/-- The part of `MarkBlockAsInFlight` behind `MarkBlockAsReceived`. -/
def enterInFlight (now : Int) (nodeid : NodeId) (hash : UInt256) (s : Downloads) : Option Downloads := do
  let state ← s.state nodeid
  let newentry : QueuedBlock := ⟨hash, now, state.nBlocksInFlight⟩
  return { s.setState nodeid { state with
      nLastBlockReceive := if state.nBlocksInFlight = 0 then now else state.nLastBlockReceive
      vBlocksInFlight := state.vBlocksInFlight ++ [(s.nextIter, newentry)]
      nBlocksInFlight := state.nBlocksInFlight + 1 } with
    nextIter := s.nextIter + 1
    mapBlocksInFlight := Function.update s.mapBlocksInFlight hash (some (nodeid, s.nextIter)) }

/-- `MarkBlockAsInFlight`, called for a peer that is there. -/
def markBlockAsInFlight (now : Int) (nodeid : NodeId) (hash : UInt256) (s : Downloads) : Option Downloads := do
  let _ ← s.state nodeid
  let s ← markBlockAsReceived now hash (-1) s
  enterInFlight now nodeid hash s

/-- The time of the last message of a peer (`ProcessMessage`). -/
def processMessage (now : Int) (nodeid : NodeId) (s : Downloads) : Option Downloads := do
  let state ← s.state nodeid
  return s.setState nodeid { state with nLastBlockProcess := now }

/-- A peer that has blocks in flight and has not sent one for too long. -/
def isStalling (fDisconnect : Bool) (state : CNodeState) : Option Bool :=
  if fDisconnect = false ∧ state.nBlocksInFlight ≠ 0
      ∧ state.nLastBlockReceive < state.nLastBlockProcess - blockDownloadTimeout * 1000000 then do
    let front ← state.vBlocksInFlight.head?
    return decide (front.2.nTime < state.nLastBlockProcess - 2 * blockDownloadTimeout * 1000000)
  else some false

/-- The variables of the loop: the tracking, the requests collected and the messages sent. -/
structure Requests where
  downloads : Downloads
  vGetData : List UInt256
  sent : List (List UInt256)

def wantsBlocks (fDisconnect : Bool) (state : CNodeState) : Bool :=
  !fDisconnect && decide (state.nBlocksToDownload ≠ 0)
    && decide (state.nBlocksInFlight < maxBlocksInTransitPerPeer)

def requestBlock (now : Int) (pto : NodeId) (state : CNodeState) (r : Requests) : Option Requests := do
  let front ← state.vBlocksToDownload.head?
  let vGetData := r.vGetData ++ [front.2]
  let downloads ← markBlockAsInFlight now pto front.2 r.downloads
  return if vGetData.length ≥ 1000 then ⟨downloads, [], r.sent ++ [vGetData]⟩
    else ⟨downloads, vGetData, r.sent⟩

/-- At most `fuel` rounds of the loop, and whether it has ended. The clock may move between rounds. -/
def requestBlocks (now : Nat → Int) (pto : NodeId) (fDisconnect : Bool) : Nat → Requests → Option (Bool × Requests)
  | 0, r => do
    let state ← r.downloads.state pto
    return (!wantsBlocks fDisconnect state, r)
  | fuel + 1, r => do
    let state ← r.downloads.state pto
    if wantsBlocks fDisconnect state then
      let r ← requestBlock (now fuel) pto state r
      requestBlocks now pto fDisconnect fuel r
    else return (true, r)

/-- The download step of `SendMessages`. -/
def sendMessages (now : Nat → Int) (pto : NodeId) (fDisconnect : Bool) (fuel : Nat) (s : Downloads) :
    Option (Bool × Requests) := do
  let state ← s.state pto
  let stalling ← isStalling fDisconnect state
  requestBlocks now pto (fDisconnect || stalling) fuel ⟨s, [], []⟩

/-- The states reached by the operations in any order, over any number of peers. -/
inductive Reachable : Downloads → Prop
  | empty : Reachable .empty
  | initializeNode {s : Downloads} (nodeid : NodeId) : Reachable s → Reachable (s.initializeNode nodeid)
  | finalizeNode {s s' : Downloads} (nodeid : NodeId) : Reachable s → s.finalizeNode nodeid = some s' → Reachable s'
  | markBlockAsReceived {s s' : Downloads} (now : Int) (hash : UInt256) (nodeFrom : NodeId) :
      Reachable s → s.markBlockAsReceived now hash nodeFrom = some s' → Reachable s'
  | addBlockToQueue {s : Downloads} (banscore : Int) (nodeid : NodeId) (hash : UInt256) :
      Reachable s → Reachable (s.addBlockToQueue banscore nodeid hash).2
  | markBlockAsInFlight {s s' : Downloads} (now : Int) (nodeid : NodeId) (hash : UInt256) :
      Reachable s → s.markBlockAsInFlight now nodeid hash = some s' → Reachable s'
  | misbehaving {s : Downloads} (banscore : Int) (nodeid : NodeId) (howmuch : Int) : Reachable s →
      Reachable (s.misbehaving banscore nodeid howmuch)
  | processMessage {s s' : Downloads} (now : Int) (nodeid : NodeId) : Reachable s →
      s.processMessage now nodeid = some s' → Reachable s'
  | sendMessages {s : Downloads} {r : Requests} (now : Nat → Int) (pto : NodeId) (fDisconnect : Bool)
      (fuel : Nat) : Reachable s → s.sendMessages now pto fDisconnect fuel = some (true, r) →
      Reachable r.downloads

/-- The blocks to download from a peer; none from one that is not there. -/
def toDownload (s : Downloads) (pnode : NodeId) : List (ListIter × UInt256) :=
  ((s.state pnode).map CNodeState.vBlocksToDownload).getD []

def inFlight (s : Downloads) (pnode : NodeId) : List (ListIter × QueuedBlock) :=
  ((s.state pnode).map CNodeState.vBlocksInFlight).getD []

/-- The two lists of a peer. -/
inductive Queue
  | toDownload
  | inFlight
deriving DecidableEq, Repr

def hashes (s : Downloads) (pnode : NodeId) : Queue → List UInt256
  | .toDownload => (s.toDownload pnode).map Prod.snd
  | .inFlight => (s.inFlight pnode).map fun entry => entry.2.hash

/-- The invariant: counters, lists and maps fit, no block stands in both maps, and every iterator has been
allocated. -/
structure Tracked (s : Downloads) : Prop where
  counts : ∀ pnode state, s.state pnode = some state → state.nBlocksToDownload = state.vBlocksToDownload.length
      ∧ state.nBlocksInFlight = state.vBlocksInFlight.length
  toDownload : Registry.Agrees id s.toDownload s.mapBlocksToDownload
  inFlight : Registry.Agrees QueuedBlock.hash s.inFlight s.mapBlocksInFlight
  apart : ∀ hash, s.mapBlocksToDownload hash = none ∨ s.mapBlocksInFlight hash = none
  allocated : ∀ pnode, (∀ entry ∈ s.toDownload pnode, entry.1 < s.nextIter)
    ∧ ∀ entry ∈ s.inFlight pnode, entry.1 < s.nextIter

end Downloads

end PupaCoin
