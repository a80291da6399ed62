import PupaCoin.Chain.Serialize
import PupaCoin.Net.AddrMan

/-!
# The address manager on disk (`addrman.h`, `protocol.h`, `netbase.h`)

The entries are stored without their ids: first those of the new buckets, then the tried ones, each in the order of
the ids. The new buckets are stored as numbers among the first.
-/

namespace PupaCoin

open Codec LittleEndian Function

/-- The bytes of an address, in network order. -/
def writeNetAddr (ip : CNetAddr) : List UInt8 := (LittleEndian.ofNat 16 ip.toNat).reverse

def readNetAddr : ReadM CNetAddr := do
  let bytes ← readData 16
  return BitVec.ofNat 128 (toNat bytes.reverse)

/-- `Serialize` of a `CService`. -/
def CService.serialize (addr : CService) : List UInt8 :=
  writeNetAddr addr.ip ++ (LittleEndian.ofNat 2 addr.port.toNat).reverse

def CService.unserialize : ReadM CService := do
  let ip ← readNetAddr
  let portN ← readData 2
  return { ip, port := UInt16.ofNat (toNat portN.reverse) }

/-- `Serialize` of a `CAddress` with `SER_DISK`. -/
def CAddress.serialize (nVersion : Int) (addr : CAddress) : List UInt8 :=
  ofInt 4 nVersion ++ writeUInt32 addr.nTime ++ LittleEndian.ofNat 8 addr.nServices.toNat ++ addr.toCService.serialize

def CAddress.unserialize : ReadM CAddress := do
  let _nVersion ← readSigned 4
  let nTime ← readUInt32
  let nServices ← readData 8
  let addr ← CService.unserialize
  return { addr with nServices := UInt64.ofNat (toNat nServices), nTime, nLastTry := 0 }

/-- `Serialize` of a `CAddrInfo`; the version that the manager hands on is its own. -/
def CAddrInfo.serialize (info : CAddrInfo) : List UInt8 :=
  info.toCAddress.serialize 0 ++ writeNetAddr info.source ++ ofInt 8 info.nLastSuccess ++ ofInt 4 info.nAttempts

/-- `Unserialize` into a `CAddrInfo()`. -/
def CAddrInfo.unserialize : ReadM CAddrInfo := do
  let addr ← CAddress.unserialize
  let source ← readNetAddr
  let nLastSuccess ← readSigned 8
  let nAttempts ← readSigned 4
  return { addr with source, nLastSuccess, nAttempts, nRefCount := 0, fInTried := false, nRandomPos := -1 }

/-- The signed fields of an entry are in the range of their types. -/
def CAddrInfo.InTypes (info : CAddrInfo) : Prop := InRange 8 info.nLastSuccess ∧ InRange 4 info.nAttempts

namespace CAddrMan

/-- `mapInfo`, in the order of the ids. -/
def entries (am : CAddrMan) : List (Nat × CAddrInfo) :=
  (am.ids fun _ => true).filterMap fun n => (am.mapInfo n).map fun info => (n, info)

/-- The loop over the new entries: what it writes, and `mapUnkIds`. -/
def writeNewEntries (nNew : Int) : List (Nat × CAddrInfo) → Nat → (Nat → Nat) → List UInt8 × (Nat → Nat)
  | [], _, mapUnkIds => ([], mapUnkIds)
  | (n, info) :: rest, nIds, mapUnkIds =>
    if (nIds : Int) = nNew then ([], mapUnkIds)
    else
      let mapUnkIds := update mapUnkIds n nIds
      if info.nRefCount ≠ 0 then
        let (bytes, mapUnkIds) := writeNewEntries nNew rest (nIds + 1) mapUnkIds
        (info.serialize ++ bytes, mapUnkIds)
      else writeNewEntries nNew rest nIds mapUnkIds

def writeTriedEntries (nTried : Int) : List (Nat × CAddrInfo) → Nat → List UInt8
  | [], _ => []
  | (_, info) :: rest, nIds =>
    if (nIds : Int) = nTried then []
    else if info.fInTried then info.serialize ++ writeTriedEntries nTried rest (nIds + 1)
    else writeTriedEntries nTried rest nIds

/-- A new bucket; an id that is not in `mapUnkIds` is zero there. -/
def writeBucket (mapUnkIds : Nat → Nat) (vNew : Finset Nat) : List UInt8 :=
  ofInt 4 vNew.card ++ (vNew.sort (· ≤ ·)).flatMap fun n => ofInt 4 (mapUnkIds n)

def serialize (env : AddrManEnv) (am : CAddrMan) : List UInt8 :=
  let newEntries := writeNewEntries am.nNew am.entries 0 fun _ => 0
  [0] ++ writeBytes env.nKey ++ ofInt 4 am.nNew ++ ofInt 4 am.nTried ++ ofInt 4 addrmanNewBucketCount
    ++ newEntries.1 ++ writeTriedEntries am.nTried am.entries 0
    ++ (List.finRange addrmanNewBucketCount).flatMap fun b => writeBucket newEntries.2 (am.vvNew b)

section Read

variable (env : AddrManEnv) (nUBuckets : Int)

/-- A new entry; where the number of buckets has changed it goes into one of them at once. -/
def addStoredNew (am : CAddrMan) (n : Nat) (info : CAddrInfo) : CAddrMan :=
  let info := { info with nRandomPos := am.vRandom.length }
  let am := { am with
    mapInfo := update am.mapInfo n (some info)
    mapAddr := update am.mapAddr info.ip (some n)
    vRandom := am.vRandom ++ [n] }
  if nUBuckets ≠ addrmanNewBucketCount then
    let nUBucket := CNetAddr.getNewBucket env info.ip info.source
    { am.edit n fun info => { info with nRefCount := info.nRefCount + 1 } with
      vvNew := update am.vvNew nUBucket (insert n (am.vvNew nUBucket)) }
  else am

/-- A tried entry, for which there is room in its bucket; `nLost` counts the others. -/
def addStoredTried (st : CAddrMan × Int) (info : CAddrInfo) : CAddrMan × Int :=
  let (am, nLost) := st
  let nKBucket := info.toCService.getTriedBucket env
  if (am.vvTried nKBucket).length < addrmanTriedBucketSize then
    let info := { info with nRandomPos := am.vRandom.length, fInTried := true }
    ({ am with
      vRandom := am.vRandom ++ [am.nIdCount]
      mapInfo := update am.mapInfo am.nIdCount (some info)
      mapAddr := update am.mapAddr info.ip (some am.nIdCount)
      vvTried := update am.vvTried nKBucket (am.vvTried nKBucket ++ [am.nIdCount])
      nIdCount := am.nIdCount + 1 }, nLost)
  else (am, nLost + 1)

/-- An element of a new bucket; `mapInfo[nIndex]` is made where there is none. -/
def addStoredIndex (b : Fin addrmanNewBucketCount) (am : CAddrMan) (nIndex : Nat) : CAddrMan :=
  let info := (am.mapInfo nIndex).getD (CAddress.empty.toInfo 0)
  if nUBuckets = addrmanNewBucketCount ∧ info.nRefCount < addrmanNewBucketsPerAddress then
    { am with
      mapInfo := update am.mapInfo nIndex (some { info with nRefCount := info.nRefCount + 1 })
      vvNew := update am.vvNew b (insert nIndex (am.vvNew b)) }
  else { am with mapInfo := update am.mapInfo nIndex (some info) }

/-- A new bucket. The ids are natural here, so that a number below zero is refused. -/
def readBucket (am : CAddrMan) (b : Nat) : ReadM CAddrMan :=
  if hb : b < addrmanNewBucketCount then do
    let nSize ← readSigned 4
    (List.range nSize.toNat).foldlM (fun am _ => do
      let nIndex ← readSigned 4
      if nIndex < 0 then Exec.stop "an id below zero"
      else return addStoredIndex nUBuckets ⟨b, hb⟩ am nIndex.toNat) am
  else Exec.stop "vvNew out of range"

/-- `Unserialize`: the key and the manager, of which nothing from before is left. -/
def unserialize : ReadM (List UInt8 × CAddrMan) := do
  let _nVersion ← readData 1
  let nKey ← readBytes
  let nNew ← readSigned 4
  let nTried ← readSigned 4
  let env := { env with nKey := nKey }
  let nUBuckets ← readSigned 4
  let am ← (List.range nNew.toNat).foldlM (fun am n => do
    let info ← CAddrInfo.unserialize
    return addStoredNew env nUBuckets am n info) { empty with nNew, nTried }
  let am := { am with nIdCount := nNew.toNat }
  let (am, nLost) ← (List.range nTried.toNat).foldlM (fun st _ => do
    let info ← CAddrInfo.unserialize
    return addStoredTried env st info) (am, 0)
  let am := { am with nTried := am.nTried - nLost }
  let am ← (List.range nUBuckets.toNat).foldlM (readBucket nUBuckets) am
  return (nKey, am)

end Read

section Kept

variable (env : AddrManEnv) (am : CAddrMan)

/-- A tried entry that belongs into a bucket. -/
def isAtHome (b : Fin addrmanTriedBucketCount) (info : CAddrInfo) : Bool :=
  info.fInTried && decide (info.toCService.getTriedBucket env = b)

/-- How many tried entries with lower ids belong into a bucket. -/
def triedBefore (n : Nat) (b : Fin addrmanTriedBucketCount) : Nat :=
  am.entries.countP fun e => decide (e.1 < n) && isAtHome env b e.2

/-- An entry for which there is room on reading: the tried ones come in the order of their ids. -/
def isKept (e : Nat × CAddrInfo) : Bool :=
  !e.2.fInTried || decide (am.triedBefore env e.1 (e.2.toCService.getTriedBucket env) < addrmanTriedBucketSize)

def newEntries : List (Nat × CAddrInfo) := am.entries.filter fun e => decide (e.2.nRefCount ≠ 0)

def triedEntries : List (Nat × CAddrInfo) := am.entries.filter fun e => e.2.fInTried

/-- The entries, in the order in which they are numbered on reading. -/
def storedEntries : List (Nat × CAddrInfo) := am.newEntries ++ am.triedEntries.filter (am.isKept env)

/-- The values of the manager are in the range of their types, and the next id is above those in use. -/
structure Representable : Prop where
  fresh : ∀ n, am.nIdCount ≤ n → am.mapInfo n = none
  nIdCount : (am.nIdCount : Int) ≤ intMax
  nKey : FitsSize env.nKey
  entry : ∀ n info, am.mapInfo n = some info → info.InTypes

end Kept

/-- The entries that are kept have new ids and lose what is only in memory; they stay in their new buckets, and a tried
entry is in the bucket that it belongs into. -/
structure Relocated (env : AddrManEnv) (am am' : CAddrMan) (newId : Nat → Nat) : Prop where
  info : ∀ n info, am.mapInfo n = some info → am.isKept env (n, info) = true →
    am'.mapInfo (newId n) = some { info with nLastTry := 0, nRandomPos := newId n }
  onto : ∀ m info', am'.mapInfo m = some info' →
    ∃ n info, am.mapInfo n = some info ∧ am.isKept env (n, info) = true ∧ newId n = m
  injective : ∀ n n' info info', am.mapInfo n = some info → am.isKept env (n, info) = true →
    am.mapInfo n' = some info' → am.isKept env (n', info') = true → newId n = newId n' → n = n'
  new : ∀ n info b, am.mapInfo n = some info → am.isKept env (n, info) = true →
    (newId n ∈ am'.vvNew b ↔ n ∈ am.vvNew b)
  tried : ∀ n info b, am.mapInfo n = some info → am.isKept env (n, info) = true →
    (newId n ∈ am'.vvTried b ↔ isAtHome env b info = true)

/-- The entries of a tried bucket belong there, and they are not too many. -/
structure Housed (env : AddrManEnv) (am : CAddrMan) : Prop where
  home : ∀ b n info, n ∈ am.vvTried b → am.mapInfo n = some info → info.toCService.getTriedBucket env = b
  size : ∀ b, (am.vvTried b).length ≤ addrmanTriedBucketSize

end CAddrMan

end PupaCoin
