import PupaCoin.Lib.Buckets
import PupaCoin.Lib.Shuffle
import PupaCoin.Net.MasternodeList
import Mathlib.Data.Finset.Sort

/-!
# The address manager (`addrman.h`, `addrman.cpp`)

The addresses of peers. Those that have never been connected to stand in up to four of the new buckets, the
others in one of the tried buckets. A full new bucket drops an entry; from a full tried bucket an entry moves
back to a new one. `mapAddr` finds an entry by its address, and `vRandom` lists the entries in random order.
-/

namespace PupaCoin

open Function

/-- The 16 bytes of an address. -/
abbrev CNetAddr := BitVec 128

def addrmanTriedBucketCount : Nat := 64
def addrmanTriedBucketSize : Nat := 64
def addrmanNewBucketCount : Nat := 256
def addrmanNewBucketSize : Nat := 64
def addrmanTriedBucketsPerGroup : Nat := 4
def addrmanNewBucketsPerSourceGroup : Nat := 32
def addrmanNewBucketsPerAddress : Int := 4
def addrmanTriedEntriesInspectOnEvict : Nat := 4
def addrmanHorizonDays : Int := 30
def addrmanRetries : Int := 3
def addrmanMaxFailures : Int := 10
def addrmanMinFailDays : Int := 7
def addrmanGetaddrMaxPct : Nat := 23
def addrmanGetaddrMax : Nat := 2500

/-- `std::numeric_limits<int>::max()`. -/
def intMax : Int := 2 ^ 31 - 1

/-- `CAddress`, what peers tell each other about an address. -/
structure CAddress extends CService where
  nServices : UInt64
  nTime : UInt32
  nLastTry : Int
deriving DecidableEq, Repr

/-- `CAddress()`. -/
def CAddress.empty : CAddress := { ip := 0, port := 0, nServices := 1, nTime := 100000000, nLastTry := 0 }

/-- `CAddrInfo`, what the manager keeps of an address. -/
structure CAddrInfo extends CAddress where
  source : CNetAddr
  nLastSuccess : Int
  nAttempts : Int
  nRefCount : Int
  fInTried : Bool
  nRandomPos : Int
deriving DecidableEq, Repr

/-- `CAddrInfo(addrIn, addrSource)`. -/
def CAddress.toInfo (addrIn : CAddress) (addrSource : CNetAddr) : CAddrInfo :=
  { addrIn with
    nLastTry := 0, source := addrSource, nLastSuccess := 0, nAttempts := 0, nRefCount := 0,
    fInTried := false, nRandomPos := -1 }

/-- What the buckets of an address depend on. -/
structure AddrManEnv where
  nKey : List UInt8
  getKey : CService → List UInt8
  getGroup : CNetAddr → List UInt8
  /-- `Hash_bmw512` of a stream of these items, `Get64()` of it. -/
  hash : List (List UInt8 ⊕ UInt64) → UInt64
  isRoutable : CNetAddr → Bool

/-- `GetTriedBucket`: one of the four buckets of the group of the address. -/
def CService.getTriedBucket (env : AddrManEnv) (addr : CService) : Fin addrmanTriedBucketCount :=
  let hash1 := env.hash [.inl env.nKey, .inl (env.getKey addr)]
  let hash2 := env.hash [.inl env.nKey, .inl (env.getGroup addr.ip),
    .inr (hash1 % UInt64.ofNat addrmanTriedBucketsPerGroup)]
  ⟨hash2.toNat % addrmanTriedBucketCount, Nat.mod_lt _ (by decide)⟩

/-- `GetNewBucket`: one of the 32 buckets of the group of the source. -/
def CNetAddr.getNewBucket (env : AddrManEnv) (ip src : CNetAddr) : Fin addrmanNewBucketCount :=
  let hash1 := env.hash [.inl env.nKey, .inl (env.getGroup ip), .inl (env.getGroup src)]
  let hash2 := env.hash [.inl env.nKey, .inl (env.getGroup src),
    .inr (hash1 % UInt64.ofNat addrmanNewBucketsPerSourceGroup)]
  ⟨hash2.toNat % addrmanNewBucketCount, Nat.mod_lt _ (by decide)⟩

/-- `IsTerrible`: the entry may be dropped. -/
def CAddrInfo.isTerrible (info : CAddrInfo) (nNow : Int) : Bool :=
  if info.nLastTry ≠ 0 ∧ info.nLastTry ≥ nNow - 60 then false
  else if (info.nTime.toNat : Int) > nNow + 10 * 60 then true
  else if info.nTime = 0 ∨ nNow - info.nTime.toNat > addrmanHorizonDays * 86400 then true
  else if info.nLastSuccess = 0 ∧ info.nAttempts ≥ addrmanRetries then true
  else if nNow - info.nLastSuccess > addrmanMinFailDays * 86400 ∧ info.nAttempts ≥ addrmanMaxFailures then
    true
  else false

/-- Why an operation does not return. -/
inductive AddrManFault where
  /-- An `assert` fails. -/
  | assertion
  /-- A vector is read or shortened where it has no element. -/
  | outOfRange
  /-- An `int` that is the largest one is increased. -/
  | overflow
deriving DecidableEq, Repr

/-- `CAddrMan`. The maps have the ids as keys, and the buckets hold ids. -/
structure CAddrMan where
  nIdCount : Nat
  mapInfo : Nat → Option CAddrInfo
  mapAddr : CNetAddr → Option Nat
  vRandom : List Nat
  nTried : Int
  vvTried : Fin addrmanTriedBucketCount → List Nat
  nNew : Int
  vvNew : Fin addrmanNewBucketCount → Finset Nat

/-- `GetRandInt(nMax)`, with the random number that it draws. -/
def getRandInt (nRand nMax : Nat) : Nat := if nMax = 0 then 0 else nRand % nMax

/-- An `int` as an `unsigned int`. -/
def toUnsigned (n : Int) : Nat := if n < 0 then (n + 2 ^ 32).toNat else n.toNat

namespace CAddrMan

/-- `CAddrMan()`. -/
def empty : CAddrMan where
  nIdCount := 0
  mapInfo := fun _ => none
  mapAddr := fun _ => none
  vRandom := []
  nTried := 0
  vvTried := fun _ => []
  nNew := 0
  vvNew := fun _ => ∅

/-- `mapInfo[nId]`, where `mapInfo.count(nId) == 1` is asserted. -/
def entry (am : CAddrMan) (nId : Nat) : Except AddrManFault CAddrInfo :=
  match am.mapInfo nId with
  | some info => .ok info
  | none => .error .assertion

/-- A write to fields of `mapInfo[nId]`. -/
def edit (am : CAddrMan) (nId : Nat) (f : CAddrInfo → CAddrInfo) : CAddrMan :=
  { am with mapInfo := update am.mapInfo nId ((am.mapInfo nId).map f) }

/-- `Find`, with the id of the entry. -/
def find (am : CAddrMan) (addr : CNetAddr) : Option (Nat × CAddrInfo) := do
  let nId ← am.mapAddr addr
  let info ← am.mapInfo nId
  return (nId, info)

/-- `Create`, with the id of the entry. -/
def create (am : CAddrMan) (addr : CAddress) (addrSource : CNetAddr) : Except AddrManFault (CAddrMan × Nat) :=
  if (am.nIdCount : Int) = intMax then .error .overflow
  else
    let nId := am.nIdCount
    let info := { addr.toInfo addrSource with nRandomPos := am.vRandom.length }
    .ok ({ am with
      nIdCount := am.nIdCount + 1
      mapInfo := update am.mapInfo nId (some info)
      mapAddr := update am.mapAddr addr.ip (some nId)
      vRandom := am.vRandom ++ [nId] }, nId)

/-- `SwapRandom`. Positions outside of `vRandom` fail its assertion. -/
def swapRandom (am : CAddrMan) (nRndPos1 nRndPos2 : Nat) : Except AddrManFault CAddrMan :=
  if nRndPos1 = nRndPos2 then .ok am
  else
    match am.vRandom[nRndPos1]?, am.vRandom[nRndPos2]? with
    | some nId1, some nId2 => do
      let _ ← am.entry nId1
      let _ ← am.entry nId2
      let am := am.edit nId1 fun info => { info with nRandomPos := nRndPos2 }
      let am := am.edit nId2 fun info => { info with nRandomPos := nRndPos1 }
      return { am with vRandom := (am.vRandom.set nRndPos1 nId2).set nRndPos2 nId1 }
    | _, _ => .error .assertion

/-- `nOldest == -1 || age(mapInfo[nId]) < age(mapInfo[nOldest])`, with the assertion before it. -/
def isOlder (am : CAddrMan) (age : CAddrInfo → Int) (nOldest : Option Nat) (nId : Nat) : Except AddrManFault Bool :=
  match nOldest with
  | none => .ok true
  | some nOldest => do
    let info ← am.entry nId
    let infoOldest ← am.entry nOldest
    return decide (age info < age infoOldest)

section Evict

variable (am : CAddrMan) (rand : Nat → Nat)

/-- One round of the loop of `SelectTried`: on the bucket, and on `nOldest` with `nOldestPos`. -/
def selectTriedStep (s : List Nat × Option (Nat × Nat)) (i : Nat) :
    Except AddrManFault (List Nat × Option (Nat × Nat)) :=
  let (vTried, oldest) := s
  let nPos := getRandInt (rand i) (vTried.length - i) + i
  match vTried[nPos]?, vTried[i]? with
  | some nTemp, some nFirst => do
    let vTried := (vTried.set nPos nFirst).set i nTemp
    let fOlder ← am.isOlder CAddrInfo.nLastSuccess (oldest.map Prod.fst) nTemp
    return (vTried, if fOlder then some (nTemp, nPos) else oldest)
  | _, _ => .error .outOfRange

/-- `SelectTried`: the position of the entry to evict, and the bucket with its draws in front. -/
def selectTried (nKBucket : Fin addrmanTriedBucketCount) : Except AddrManFault (CAddrMan × Option Nat) := do
  let vTried := am.vvTried nKBucket
  let (vTried, oldest) ← (List.range (min addrmanTriedEntriesInspectOnEvict vTried.length)).foldlM
    (am.selectTriedStep rand) (vTried, none)
  return ({ am with vvTried := update am.vvTried nKBucket vTried }, oldest.map Prod.snd)

/-- The first element of a new bucket that is terrible. -/
def firstTerrible (nNow : Int) : List Nat → Except AddrManFault (Option Nat)
  | [] => .ok none
  | nId :: rest => do
    let info ← am.entry nId
    if info.isTerrible nNow then return some nId
    firstTerrible nNow rest

/-- One round of the second loop of `ShrinkNew`, at the element with number `nI`. -/
def oldestStep (n : List Nat) (nOldest : Option Nat) (it : Nat × Nat) : Except AddrManFault (Option Nat) :=
  let (nId, nI) := it
  if nI ∈ n then do
    let fOlder ← am.isOlder (fun info => info.nTime.toNat) nOldest nId
    return if fOlder then some nId else nOldest
  else .ok nOldest

/-- The end of an entry that stands in no bucket: it is swapped to the end of `vRandom` and taken off. -/
def drop (nId : Nat) (info : CAddrInfo) : Except AddrManFault CAddrMan := do
  let am ← am.swapRandom (toUnsigned info.nRandomPos) (toUnsigned (am.vRandom.length - 1))
  if am.vRandom = [] then throw .outOfRange
  return { am with
    vRandom := am.vRandom.dropLast
    mapAddr := update am.mapAddr info.ip none
    mapInfo := update am.mapInfo nId none
    nNew := am.nNew - 1 }

/-- `ShrinkNew`'s removal of an element from a bucket. -/
def removeNew (nUBucket : Fin addrmanNewBucketCount) (nId : Nat) : Except AddrManFault CAddrMan := do
  let info ← am.entry nId
  let am := am.edit nId fun info => { info with nRefCount := info.nRefCount - 1 }
  let am ← if info.nRefCount - 1 = 0 then am.drop nId info else .ok am
  return { am with vvNew := update am.vvNew nUBucket ((am.vvNew nUBucket).erase nId) }

/-- `ShrinkNew`, at the time `nNow`. -/
def shrinkNew (nNow : Int) (nUBucket : Fin addrmanNewBucketCount) : Except AddrManFault (CAddrMan × Int) := do
  let vNew := (am.vvNew nUBucket).sort (· ≤ ·)
  match ← am.firstTerrible nNow vNew with
  | some nId => return (← am.removeNew nUBucket nId, 0)
  | none =>
    let n := (List.range 4).map fun k => getRandInt (rand k) vNew.length
    match ← vNew.zipIdx.foldlM (am.oldestStep n) none with
    | none => throw .assertion
    | some nOldest => return (← am.removeNew nUBucket nOldest, 1)

end Evict

section Move

variable (env : AddrManEnv) (am : CAddrMan)

/-- The number of new buckets with this id. -/
def newPlaces (nId : Nat) : Nat := Buckets.places nId am.vvNew

/-- `MakeTried`'s removal of an entry from all new buckets. -/
def unlinkNew (nId : Nat) : CAddrMan :=
  { am.edit nId fun info => { info with nRefCount := info.nRefCount - am.newPlaces nId } with
    vvNew := fun b => (am.vvNew b).erase nId
    nNew := am.nNew - 1 }

/-- `MakeTried`, where the tried bucket has room. -/
def appendTried (nId : Nat) (nKBucket : Fin addrmanTriedBucketCount) : CAddrMan :=
  { am.edit nId fun info => { info with fInTried := true } with
    vvTried := update am.vvTried nKBucket (am.vvTried nKBucket ++ [nId])
    nTried := am.nTried + 1 }

/-- `MakeTried`'s exchange of the entry `nId` for the one at a position of its tried bucket. -/
def evictTried (nId : Nat) (nOrigin : Fin addrmanNewBucketCount) (nKBucket : Fin addrmanTriedBucketCount)
    (nPos : Option Nat) : Except AddrManFault CAddrMan :=
  match nPos with
  | none => .error .outOfRange
  | some nPos =>
    match (am.vvTried nKBucket)[nPos]? with
    | none => .error .outOfRange
    | some nOld => do
      let infoOld ← am.entry nOld
      let nUBucket := CNetAddr.getNewBucket env infoOld.ip infoOld.source
      let am := am.edit nOld fun info => { info with fInTried := false, nRefCount := 1 }
      let nTarget := if (am.vvNew nUBucket).card < addrmanNewBucketSize then nUBucket else nOrigin
      let am := { am with
        vvNew := update am.vvNew nTarget (insert nOld (am.vvNew nTarget))
        nNew := am.nNew + 1
        vvTried := update am.vvTried nKBucket ((am.vvTried nKBucket).set nPos nId) }
      return am.edit nId fun info => { info with fInTried := true }

/-- `MakeTried`: an entry of the new bucket `nOrigin` becomes a tried one. -/
def makeTried (nId : Nat) (nOrigin : Fin addrmanNewBucketCount) (rand : Nat → Nat) :
    Except AddrManFault CAddrMan := do
  if nId ∉ am.vvNew nOrigin then throw .assertion
  let am := am.unlinkNew nId
  let info ← am.entry nId
  if info.nRefCount ≠ 0 then throw .assertion
  let nKBucket := info.toCService.getTriedBucket env
  if (am.vvTried nKBucket).length < addrmanTriedBucketSize then
    return am.appendTried nId nKBucket
  let (am, nPos) ← am.selectTried rand nKBucket
  am.evictTried env nId nOrigin nKBucket nPos

/-- The end of `Add_`: the entry goes into the new bucket of its address and source. -/
def addToBucket (nId : Nat) (ip source : CNetAddr) (nNow : Int) (rand : Nat → Nat) :
    Except AddrManFault CAddrMan := do
  let nUBucket := CNetAddr.getNewBucket env ip source
  if nId ∈ am.vvNew nUBucket then return am
  let am := am.edit nId fun info => { info with nRefCount := info.nRefCount + 1 }
  let am ← if (am.vvNew nUBucket).card = addrmanNewBucketSize then
      Prod.fst <$> am.shrinkNew rand nNow nUBucket
    else .ok am
  return { am with vvNew := update am.vvNew nUBucket (insert nId (am.vvNew nUBucket)) }

end Move

end CAddrMan

/-- `Add_` on an entry that is there: its time and its services. -/
def CAddrInfo.refresh (info : CAddrInfo) (addr : CAddress) (nTimePenalty nNow : Int) : CAddrInfo :=
  let nAddrTime : Int := addr.nTime.toNat
  let fCurrentlyOnline := decide (nNow - nAddrTime < 24 * 60 * 60)
  let nUpdateInterval : Int := if fCurrentlyOnline then 60 * 60 else 24 * 60 * 60
  { info with
    nTime :=
      if addr.nTime ≠ 0 ∧
          (info.nTime = 0 ∨ (info.nTime.toNat : Int) < nAddrTime - nUpdateInterval - nTimePenalty) then
        UInt32.ofInt (max 0 (nAddrTime - nTimePenalty))
      else info.nTime
    nServices := info.nServices ||| addr.nServices }

/-- `Add_` leaves the buckets of the entry as they are, by one of its checks or by chance. -/
def CAddrInfo.isSettled (info : CAddrInfo) (addr : CAddress) (nRand : Nat) : Bool :=
  let nFactor := 2 ^ info.nRefCount.toNat
  decide (addr.nTime = 0 ∨ (info.nTime ≠ 0 ∧ addr.nTime ≤ info.nTime)) || info.fInTried
    || decide (info.nRefCount = addrmanNewBucketsPerAddress)
    || decide (nFactor > 1 ∧ getRandInt nRand nFactor ≠ 0)

/-- One round of the loop of `Select_`: the random numbers for the bucket and the position, and whether the
comparison with `GetChance` accepts the entry. -/
structure SelectRound where
  nBucket : Nat
  nPos : Nat
  fAccepted : Bool

namespace CAddrMan

section Operations

variable (env : AddrManEnv) (am : CAddrMan)

/-- `Add_`, at the time `nNow`. -/
def add (addr : CAddress) (source : CNetAddr) (nTimePenalty nNow : Int) (rand : Nat → Nat) :
    Except AddrManFault (CAddrMan × Bool) :=
  if !env.isRoutable addr.ip then .ok (am, false)
  else if addr.port = 0 then .ok (am, false)
  else
    match am.find addr.ip with
    | some (nId, info) =>
      let am := am.edit nId fun info => info.refresh addr nTimePenalty nNow
      if (info.refresh addr nTimePenalty nNow).isSettled addr (rand 0) then .ok (am, false)
      else do
        let am ← am.addToBucket env nId info.ip source nNow fun k => rand (k + 1)
        return (am, false)
    | none => do
      let (am, nId) ← am.create addr source
      let am := am.edit nId fun info =>
        { info with nTime := UInt32.ofInt (max 0 (info.nTime.toNat - nTimePenalty)) }
      let am := { am with nNew := am.nNew + 1 }
      let am ← am.addToBucket env nId addr.ip source nNow fun k => rand (k + 1)
      return (am, true)

/-- `Good_`: the address has been connected to. -/
def good (addr : CService) (nTime : Int) (rand : Nat → Nat) : Except AddrManFault CAddrMan :=
  match am.find addr.ip with
  | none => .ok am
  | some (nId, info) =>
    if info.toCService ≠ addr then .ok am
    else
      let am := am.edit nId fun info =>
        { info with nLastSuccess := nTime, nLastTry := nTime, nTime := UInt32.ofInt nTime, nAttempts := 0 }
      if info.fInTried then .ok am
      else
        let nRnd : Fin addrmanNewBucketCount :=
          ⟨getRandInt (rand 0) addrmanNewBucketCount, Nat.mod_lt _ (by decide)⟩
        match (List.finRange addrmanNewBucketCount).find? fun n => decide (nId ∈ am.vvNew (n + nRnd)) with
        | none => .ok am
        | some n => am.makeTried env nId (n + nRnd) fun k => rand (k + 1)

/-- `Attempt_`: a connection to the address is tried. -/
def attempt (addr : CService) (nTime : Int) : Except AddrManFault CAddrMan :=
  match am.find addr.ip with
  | none => .ok am
  | some (nId, info) =>
    if info.toCService ≠ addr then .ok am
    else if info.nAttempts = intMax then .error .overflow
    else .ok (am.edit nId fun info => { info with nLastTry := nTime, nAttempts := info.nAttempts + 1 })

/-- `Connected_`: the time of an address is renewed when it is older than 20 minutes. -/
def connected (addr : CService) (nTime : Int) : CAddrMan :=
  match am.find addr.ip with
  | none => am
  | some (nId, info) =>
    if info.toCService ≠ addr then am
    else if nTime - info.nTime.toNat > 20 * 60 then
      am.edit nId fun info => { info with nTime := UInt32.ofInt nTime }
    else am

/-- A bucket of the table that `Select_` draws from, as a list. -/
def selectBucket (fTried : Bool) (nBucket : Nat) : List Nat :=
  if fTried then am.vvTried ⟨getRandInt nBucket addrmanTriedBucketCount, Nat.mod_lt _ (by decide)⟩
  else (am.vvNew ⟨getRandInt nBucket addrmanNewBucketCount, Nat.mod_lt _ (by decide)⟩).sort (· ≤ ·)

/-- The loop of `Select_`, on the tried or the new table. It has not ended after the given rounds when there
is no result. -/
def selectLoop (fTried : Bool) : List SelectRound → Except AddrManFault (Option CAddress)
  | [] => .ok none
  | round :: rounds =>
    let bucket := am.selectBucket fTried round.nBucket
    if bucket.length = 0 then selectLoop fTried rounds
    else
      match bucket[getRandInt round.nPos bucket.length]? with
      | none => .error .outOfRange
      | some nId => do
        let info ← am.entry nId
        if round.fAccepted then return some info.toCAddress
        selectLoop fTried rounds

/-- `Select_`; `fTried` is the outcome of its first random draw. -/
def select (fTried : Bool) (rounds : List SelectRound) : Except AddrManFault (Option CAddress) :=
  if am.vRandom.length = 0 then .ok (some CAddress.empty) else am.selectLoop fTried rounds

/-- One round of the loop of `GetAddr_`. -/
def getAddrStep (rand : Nat → Nat) (s : CAddrMan × List CAddress) (n : Nat) :
    Except AddrManFault (CAddrMan × List CAddress) := do
  let (am, vAddr) := s
  let am ← am.swapRandom n (getRandInt (rand n) (am.vRandom.length - n) + n)
  match am.vRandom[n]? with
  | none => throw .outOfRange
  | some nId =>
    let info ← am.entry nId
    return (am, vAddr ++ [info.toCAddress])

/-- `GetAddr_`: a random sample of the addresses. -/
def getAddr (rand : Nat → Nat) : Except AddrManFault (CAddrMan × List CAddress) :=
  let nNodes := min (addrmanGetaddrMaxPct * am.vRandom.length / 100) addrmanGetaddrMax
  (List.range nNodes).foldlM (getAddrStep rand) (am, [])

end Operations

section Check

variable (am : CAddrMan)

/-- The tests of `Check_` on one entry. -/
def checkEntry (n : Nat) (info : CAddrInfo) : Int :=
  if info.fInTried ∧ info.nLastSuccess = 0 then -1
  else if info.fInTried ∧ info.nRefCount ≠ 0 then -2
  else if ¬info.fInTried ∧ (info.nRefCount < 0 ∨ info.nRefCount > addrmanNewBucketsPerAddress) then -3
  else if ¬info.fInTried ∧ info.nRefCount = 0 then -4
  else if (am.mapAddr info.ip).getD 0 ≠ n then -5
  else if info.nRandomPos < 0 ∨ info.nRandomPos ≥ am.vRandom.length
      ∨ am.vRandom[info.nRandomPos.toNat]? ≠ some n then -14
  else if info.nLastTry < 0 then -6
  else if info.nLastSuccess < 0 then -8
  else 0

/-- The ids of `mapInfo` in their order: they come from `nIdCount`. -/
def ids (p : CAddrInfo → Bool) : List Nat := (List.range am.nIdCount).filter fun n => (am.mapInfo n).any p

/-- The loop over the tried buckets: each element is taken out of `setTried`. -/
def checkTried : List Nat → Finset Nat → Except Int (Finset Nat)
  | [], setTried => .ok setTried
  | n :: rest, setTried => if n ∉ setTried then .error (-11) else checkTried rest (setTried.erase n)

/-- The loop over the new buckets: each element is counted down in `mapNew`. -/
def checkNew : List Nat → (Nat → Int) → Except Int (Nat → Int)
  | [], mapNew => .ok mapNew
  | n :: rest, mapNew => if mapNew n = 0 then .error (-12) else checkNew rest (update mapNew n (mapNew n - 1))

/-- `Check_`: zero, or the number of the test that fails. -/
def check : Int :=
  if (am.vRandom.length : Int) ≠ am.nTried + am.nNew then -7
  else
    match (am.ids fun _ => true).findSome? fun n =>
      ((am.mapInfo n).map (am.checkEntry n)).filter (· ≠ 0) with
    | some err => err
    | none =>
      let idsTried := am.ids CAddrInfo.fInTried
      let idsNew := am.ids fun info => !info.fInTried
      let mapNew : Nat → Int := fun n => if n ∈ idsNew then (am.mapInfo n).elim 0 CAddrInfo.nRefCount else 0
      if (idsTried.length : Int) ≠ am.nTried then -9
      else if (idsNew.length : Int) ≠ am.nNew then -10
      else
        match checkTried ((List.finRange addrmanTriedBucketCount).flatMap am.vvTried) idsTried.toFinset with
        | .error err => err
        | .ok setTried =>
          match checkNew ((List.finRange addrmanNewBucketCount).flatMap fun b => (am.vvNew b).sort (· ≤ ·))
              mapNew with
          | .error err => err
          | .ok mapNew =>
            if setTried.card ≠ 0 then -13
            else if (idsNew.filter fun n => decide (mapNew n ≠ 0)).length ≠ 0 then -15
            else 0

end Check

end CAddrMan

/-- A call to the manager, with the time and the random numbers it reads. -/
inductive AddrManCall where
  | add (addr : CAddress) (source : CNetAddr) (nTimePenalty nNow : Int) (rand : Nat → Nat)
  | good (addr : CService) (nTime : Int) (rand : Nat → Nat)
  | attempt (addr : CService) (nTime : Int)
  | connected (addr : CService) (nTime : Int)
  | select (fTried : Bool) (rounds : List SelectRound)
  | getAddr (rand : Nat → Nat)

/-- The times that `Good_` and `Attempt_` record are positive, as `GetAdjustedTime()` is. -/
def AddrManCall.TimePositive : AddrManCall → Prop
  | good _ nTime _ => 0 < nTime
  | attempt _ nTime => 0 < nTime
  | _ => True

namespace CAddrMan

/-- The state after a call. -/
def step (env : AddrManEnv) (am : CAddrMan) : AddrManCall → Except AddrManFault CAddrMan
  | .add addr source nTimePenalty nNow rand => Prod.fst <$> am.add env addr source nTimePenalty nNow rand
  | .good addr nTime rand => am.good env addr nTime rand
  | .attempt addr nTime => am.attempt addr nTime
  | .connected addr nTime => .ok (am.connected addr nTime)
  | .select fTried rounds => (fun _ => am) <$> am.select fTried rounds
  | .getAddr rand => Prod.fst <$> am.getAddr rand

/-- The state after the calls, the first one made to an empty manager. -/
def run (env : AddrManEnv) (calls : List AddrManCall) : Except AddrManFault CAddrMan :=
  calls.foldlM (step env) empty

/-- The containers of the manager agree. -/
structure Consistent (am : CAddrMan) : Prop where
  addressed : ∀ a n, am.mapAddr a = some n ↔ ∃ info, am.mapInfo n = some info ∧ info.ip = a
  listed : ∀ (p : Nat) n, am.vRandom[p]? = some n ↔ ∃ info, am.mapInfo n = some info ∧ info.nRandomPos = p
  known : ∀ n info, am.mapInfo n = some info → n < am.nIdCount ∧ n ∈ am.vRandom
  /-- A tried entry is in exactly one tried bucket, once, and in no new one. -/
  tried : ∀ n info, am.mapInfo n = some info → info.fInTried →
    Buckets.total (List.count n) am.vvTried = 1 ∧ am.newPlaces n = 0 ∧ info.nRefCount = 0
  /-- A new entry is in exactly `nRefCount` new buckets, and in no tried one. -/
  new : ∀ n info, am.mapInfo n = some info → info.fInTried = false →
    Buckets.total (List.count n) am.vvTried = 0 ∧ am.newPlaces n = info.nRefCount
      ∧ 1 ≤ info.nRefCount ∧ info.nRefCount ≤ addrmanNewBucketsPerAddress
  /-- The buckets hold nothing else. -/
  unknown : ∀ n, am.mapInfo n = none → Buckets.total (List.count n) am.vvTried = 0 ∧ am.newPlaces n = 0
  triedSize : ∀ b, (am.vvTried b).length ≤ addrmanTriedBucketSize
  newSize : ∀ b, (am.vvNew b).card ≤ addrmanNewBucketSize
  triedCount : am.nTried = (am.ids CAddrInfo.fInTried).length
  newCount : am.nNew = (am.ids fun info => !info.fInTried).length

end CAddrMan

end PupaCoin

/-!
## The entry that a full tried bucket gives up (`SelectTried`)

`SelectTried` draws a few entries of the bucket without replacement and returns where the one stands that it has last
been connected to the longest time ago. A draw moves the entry to the front, and the position returned is that from
which it was drawn.
-/

namespace PupaCoin.CAddrMan

open Shuffle

section Draws

variable (rand : Nat → Nat) (vTried : List Nat)

/-- The position that a round draws from. -/
def triedDraw (i : Nat) : Nat := getRandInt (rand i) (vTried.length - i) + i

/-- The number of entries that `SelectTried` inspects. -/
def triedRounds : Nat := min addrmanTriedEntriesInspectOnEvict vTried.length

/-- The entry that a round inspects. -/
def inspectedTried (i : Nat) : Option Nat := drawn (triedDraw rand vTried) vTried i

end Draws

variable (am : CAddrMan) (rand : Nat → Nat) (nKBucket : Fin addrmanTriedBucketCount)

/-- `mapInfo[nId].nLastSuccess`. -/
def lastSuccess (nId : Nat) : Int := (am.mapInfo nId).elim 0 CAddrInfo.nLastSuccess

/-- `nLastSuccess` of the entry that a round inspects. -/
def inspectedSuccess (i : Nat) : Int := (inspectedTried rand (am.vvTried nKBucket) i).elim 0 am.lastSuccess

/-- `SelectTried` returns the position of an entry that it has inspected, with the least `nLastSuccess` of these. -/
def SelectsOldest : Prop :=
  ∃ am' nPos nId, am.selectTried rand nKBucket = .ok (am', some nPos) ∧ (am'.vvTried nKBucket)[nPos]? = some nId
    ∧ (∃ i < triedRounds (am.vvTried nKBucket), inspectedTried rand (am.vvTried nKBucket) i = some nId)
    ∧ ∀ i < triedRounds (am.vvTried nKBucket), am.lastSuccess nId ≤ am.inspectedSuccess rand nKBucket i

/-- The first round that inspects an entry with the least `nLastSuccess` draws it from the position where it goes, or
from the position of another round, whose entry has the same `nLastSuccess`. -/
def OldestInPlace : Prop :=
  ∃ b, FirstLeast (am.inspectedSuccess rand nKBucket) (triedRounds (am.vvTried nKBucket)) b
    ∧ (triedDraw rand (am.vvTried nKBucket) b = b
      ∨ triedDraw rand (am.vvTried nKBucket) b < triedRounds (am.vvTried nKBucket)
        ∧ am.inspectedSuccess rand nKBucket (triedDraw rand (am.vvTried nKBucket) b)
          = am.inspectedSuccess rand nKBucket b)

section Views

variable (am : CAddrMan)

def known (n : Nat) : Bool := (am.mapInfo n).isSome
def isTried (n : Nat) : Bool := (am.mapInfo n).any CAddrInfo.fInTried
def refs (n : Nat) : Int := (am.mapInfo n).elim 0 CAddrInfo.nRefCount
def addrOf (n : Nat) : Option CNetAddr := (am.mapInfo n).map fun info => info.ip
def posOf (n : Nat) : Option Int := (am.mapInfo n).map CAddrInfo.nRandomPos

end Views

end PupaCoin.CAddrMan
