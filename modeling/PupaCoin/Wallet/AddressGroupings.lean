import PupaCoin.Lib.Components
import PupaCoin.Script.Destination
import PupaCoin.Wallet.WalletTx

/-!
# Address groupings (`wallet.cpp`)

`GetAddressGroupings` first makes a set of the addresses of each transaction that the wallet has made and of each output
of its own, then joins the sets that have an address in common. The joined sets are allocated: they are known by their
addresses in memory, and what they are joined into is a new one.
-/

namespace PupaCoin

open Smsg (CKeyID)

/-- What destinations are compared by: the kind, then the value. No script gives a stealth address. -/
def CTxDestination.orderKey : CTxDestination → Nat ×ₗ Nat ×ₗ List UInt8 ×ₗ List UInt8
  | .none => toLex (0, toLex (0, toLex ([], [])))
  | .keyID id => toLex (1, toLex (id.toNat, toLex ([], [])))
  | .scriptID id => toLex (2, toLex (id.toNat, toLex ([], [])))
  | .stealth addr => toLex (3, toLex (addr.options.toNat, toLex (addr.scanPubkey, addr.spendPubkey)))

theorem CTxDestination.orderKey_injective : Function.Injective CTxDestination.orderKey := by
  intro d d' h
  cases d <;> cases d' <;> simp only [orderKey, EmbeddingLike.apply_eq_iff_eq, Prod.mk.injEq] at h <;> try omega
  · rfl
  · rw [BitVec.eq_of_toNat_eq h.2.1]
  · rw [BitVec.eq_of_toNat_eq h.2.1]
  · obtain ⟨-, hoptions, hscan, hspend⟩ := h
    rw [stealth.injEq, EncodedAddress.mk.injEq]
    exact ⟨UInt8.toNat_inj.mp hoptions, hscan, hspend⟩

instance : LinearOrder CTxDestination := LinearOrder.lift' CTxDestination.orderKey CTxDestination.orderKey_injective

abbrev Grouping := OrderedSet CTxDestination

/-- What `GetAddressGroupings` reads of a wallet. -/
structure GroupingWallet where
  mapWallet : OrderedMap UInt256 CTransaction
  mapAddressBook : OrderedMap CTxDestination String
  /-- `::IsMine`, of a script. -/
  isMine : CScript → IsMineType
  /-- `CPubKey::GetID`. -/
  getID : CPubKey → CKeyID

namespace GroupingWallet

variable (w : GroupingWallet)

/-- `IsMine`, of an input. -/
def isMineIn (txin : CTxIn) : IsMineType :=
  match w.mapWallet.find? txin.prevout.hash with
  | none => .no
  | some prev =>
    match prev.vout[txin.prevout.n.toNat]? with
    | none => .no
    | some txout => w.isMine txout.scriptPubKey

def isChange (txout : CTxOut) : Bool :=
  if (w.isMine txout.scriptPubKey).isAny then
    match extractDestination w.getID txout.scriptPubKey with
    | none => true
    | some address => (w.mapAddressBook.find? address).isNone
  else false

/-- The address of the output that an input of the wallet's own spends. -/
def spentAddress (txin : CTxIn) : Option CTxDestination := do
  let prev ← w.mapWallet.find? txin.prevout.hash
  let txout ← prev.vout[txin.prevout.n.toNat]?
  extractDestination w.getID txout.scriptPubKey

/-- The loop over the inputs, with `any_mine`. -/
def groupInput (st : Grouping × Bool) (txin : CTxIn) : Grouping × Bool :=
  if (w.isMineIn txin).isAny then
    match w.spentAddress txin with
    | some address => (st.1.add address, true)
    | none => st
  else st

def groupChange (grouping : Grouping) (txout : CTxOut) : Grouping :=
  if w.isChange txout then
    match extractDestination w.getID txout.scriptPubKey with
    | some txoutAddr => grouping.add txoutAddr
    | none => grouping
  else grouping

/-- The set of a transaction whose first input is the wallet's own. -/
def groupSpender (st : OrderedSet Grouping × Grouping) (pcoin : CTransaction) : OrderedSet Grouping × Grouping :=
  match pcoin.vin with
  | [] => st
  | first :: _ =>
    if (w.isMineIn first).isAny then
      let (inputs, any_mine) := pcoin.vin.foldl w.groupInput (st.2, false)
      let grouping := if any_mine then pcoin.vout.foldl w.groupChange inputs else inputs
      if grouping.size > 0 then (st.1.add grouping, OrderedMap.empty) else (st.1, grouping)
    else st

/-- The loop over the outputs that groups lone addresses by themselves. -/
def groupLone (st : OrderedSet Grouping × Grouping) (txout : CTxOut) : OrderedSet Grouping × Grouping :=
  if (w.isMine txout.scriptPubKey).isAny then
    match extractDestination w.getID txout.scriptPubKey with
    | some address => (st.1.add (st.2.add address), OrderedMap.empty)
    | none => st
  else st

/-- The loop over `mapWallet`. -/
def groupEntry (st : OrderedSet Grouping × Grouping) (walletEntry : UInt256 × CTransaction) :
    OrderedSet Grouping × Grouping :=
  walletEntry.2.vout.foldl w.groupLone (w.groupSpender st walletEntry.2)

def rawGroupings : OrderedSet Grouping :=
  (w.mapWallet.entries.foldl w.groupEntry (OrderedMap.empty, OrderedMap.empty)).1

end GroupingWallet

section Merge

variable {α : Type} [LinearOrder α]

/-- What `new` does: the address of each set that is made is not in use. -/
structure Allocator (α : Type) [LinearOrder α] where
  alloc : Nat → OrderedMap Nat (OrderedSet α) → Nat
  fresh : ∀ (made : Nat) (heap : OrderedMap Nat (OrderedSet α)), heap.find? (alloc made heap) = none

/-- What the loop over the groupings writes. -/
structure MergeState (α : Type) [LinearOrder α] where
  /-- The sets that are allocated. -/
  heap : OrderedMap Nat (OrderedSet α)
  /-- How many sets have been allocated so far. -/
  made : Nat
  uniqueGroupings : OrderedSet Nat
  setmap : OrderedMap α Nat

/-- Wrong uses of memory. -/
inductive HeapFault where
  | useAfterDelete
  | doubleDelete
deriving DecidableEq

abbrev MergeM (α : Type) [LinearOrder α] := Exec (MergeState α) HeapFault

/-- `*p`. -/
def readGroup (p : Nat) : MergeM α (OrderedSet α) := do
  let s ← Exec.read
  match s.heap.find? p with
  | some g => pure g
  | none => Exec.stop .useAfterDelete

/-- `delete p`. -/
def deleteGroup (p : Nat) : MergeM α Unit := do
  let s ← Exec.read
  match s.heap.find? p with
  | some _ => Exec.update fun s => { s with heap := s.heap.erase p }
  | none => Exec.stop .doubleDelete

/-- `new set(grouping)`. -/
def newGroup (allocator : Allocator α) (grouping : OrderedSet α) : MergeM α Nat := do
  let s ← Exec.read
  let p := allocator.alloc s.made s.heap
  Exec.update fun s => { s with heap := s.heap.set p grouping, made := s.made + 1 }
  return p

def hitsOf (setmap : OrderedMap α Nat) (grouping : OrderedSet α) : OrderedSet Nat :=
  (grouping.elems.filterMap setmap.find?).foldl OrderedSet.add OrderedMap.empty

/-- A group that is hit is put into the new one and deleted. -/
def mergeHit (merged hit : Nat) : MergeM α Unit := do
  let theirs ← readGroup hit
  let ours ← readGroup merged
  Exec.update fun s => { s with heap := s.heap.set merged (ours.addAll theirs) }
  Exec.update fun s => { s with uniqueGroupings := s.uniqueGroupings.remove hit }
  deleteGroup hit

/-- One grouping is joined with the groups that it hits. -/
def mergeGrouping (allocator : Allocator α) (grouping : OrderedSet α) : MergeM α Unit := do
  let s ← Exec.read
  let hits := hitsOf s.setmap grouping
  let merged ← newGroup allocator grouping
  hits.elems.forM (mergeHit merged)
  Exec.update fun s => { s with uniqueGroupings := s.uniqueGroupings.add merged }
  let elements ← readGroup merged
  elements.elems.forM fun element => Exec.update fun s => { s with setmap := s.setmap.set element merged }

def collectGroup (ret : OrderedSet (OrderedSet α)) (uniqueGrouping : Nat) : MergeM α (OrderedSet (OrderedSet α)) := do
  let g ← readGroup uniqueGrouping
  deleteGroup uniqueGrouping
  return ret.add g

def mergeGroupings (allocator : Allocator α) (groupings : OrderedSet (OrderedSet α)) :
    MergeM α (OrderedSet (OrderedSet α)) := do
  groupings.elems.forM (mergeGrouping allocator)
  let s ← Exec.read
  s.uniqueGroupings.elems.foldlM collectGroup OrderedMap.empty

def MergeState.initial : MergeState α := ⟨OrderedMap.empty, 0, OrderedMap.empty, OrderedMap.empty⟩

end Merge

/-- `GetAddressGroupings`: what it returns, and what it leaves allocated. -/
def GroupingWallet.getAddressGroupings (allocator : Allocator CTxDestination) (w : GroupingWallet) :
    Except HeapFault (OrderedSet Grouping × OrderedMap Nat Grouping) :=
  match mergeGroupings allocator w.rawGroupings MergeState.initial with
  | (.ok ret, s) => .ok (ret, s.heap)
  | (.error fault, _) => .error fault

namespace GroupingWallet

variable (w : GroupingWallet) (tx : CTransaction) (a b : CTxDestination)

/-- The first input of a transaction is the wallet's own. -/
def Spends : Prop := ∃ first, tx.vin.head? = some first ∧ (w.isMineIn first).isAny = true

/-- An address of an input of the wallet's own. -/
def IsInputAddress : Prop := ∃ txin ∈ tx.vin, (w.isMineIn txin).isAny = true ∧ w.spentAddress txin = some a

def IsChangeAddress : Prop :=
  ∃ txout ∈ tx.vout, w.isChange txout = true ∧ extractDestination w.getID txout.scriptPubKey = some a

/-- An address of an output of the wallet's own. -/
def IsOwnAddress : Prop :=
  ∃ entry ∈ w.mapWallet.entries, ∃ txout ∈ entry.2.vout,
    (w.isMine txout.scriptPubKey).isAny = true ∧ extractDestination w.getID txout.scriptPubKey = some a

/-- Two addresses of the inputs of the wallet's own and of the change of one of its transactions. -/
def LinkedBySpending : Prop :=
  ∃ entry ∈ w.mapWallet.entries, w.Spends entry.2 ∧ (w.IsInputAddress entry.2 a ∨ w.IsChangeAddress entry.2 a) ∧
    (w.IsInputAddress entry.2 b ∨ w.IsChangeAddress entry.2 b)

/-- The same, of the transactions that have an input of the wallet's own with an address (`any_mine`). -/
def Linked : Prop :=
  ∃ entry ∈ w.mapWallet.entries, w.Spends entry.2 ∧ (∃ c, w.IsInputAddress entry.2 c) ∧
    (w.IsInputAddress entry.2 a ∨ w.IsChangeAddress entry.2 a) ∧
    (w.IsInputAddress entry.2 b ∨ w.IsChangeAddress entry.2 b)

/-- The partition of the wallet's own addresses into the classes of the smallest equivalence that links. -/
structure IsPartition (linked : CTxDestination → CTxDestination → Prop) (groups : OrderedSet Grouping) : Prop where
  inhabited : ∀ g ∈ groups, ∃ a, a ∈ g
  own : ∀ g ∈ groups, ∀ a ∈ g, w.IsOwnAddress a
  unique : ∀ a, w.IsOwnAddress a → ∃! g, g ∈ groups ∧ a ∈ g
  disjoint : ∀ g ∈ groups, ∀ g' ∈ groups, ∀ a ∈ g, a ∈ g' → g = g'
  classes : ∀ g ∈ groups, ∀ a ∈ g, ∀ b, b ∈ g ↔ Relation.EqvGen linked a b

end GroupingWallet

end PupaCoin
