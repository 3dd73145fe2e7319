import Mathlib.Data.Finmap
import Mathlib.Data.Finset.Sort
import Agenor.Masternode

/-!
The manager of the addresses of other nodes (`addrman.{h,cpp}`).

Every address has a number. It is either in one slot of the table of tried addresses, or in up to
eight slots of the table of new ones; the slots are computed from hashes with a key that the node
draws. The numbers are found by the address, and are kept once more in a list in random order. An
assertion that fails is kept in `failed`.
-/

namespace Agenor

abbrev CNetAddr := List UInt8

def ADDRMAN_TRIED_BUCKET_COUNT : ℕ := 256
def ADDRMAN_NEW_BUCKET_COUNT : ℕ := 1024
def ADDRMAN_BUCKET_SIZE : ℕ := 64
def ADDRMAN_TRIED_BUCKETS_PER_GROUP : ℕ := 8
def ADDRMAN_NEW_BUCKETS_PER_SOURCE_GROUP : ℕ := 64
def ADDRMAN_NEW_BUCKETS_PER_ADDRESS : ℤ := 8
def ADDRMAN_HORIZON_DAYS : ℤ := 30
def ADDRMAN_RETRIES : ℤ := 3
def ADDRMAN_MAX_FAILURES : ℤ := 10
def ADDRMAN_MIN_FAIL_DAYS : ℤ := 7
def ADDRMAN_REPLACEMENT_HOURS : ℤ := 4
def ADDRMAN_GETADDR_MAX_PCT : ℕ := 23
def ADDRMAN_GETADDR_MAX : ℕ := 2500
def ADDRMAN_SET_TRIED_COLLISION_SIZE : ℕ := 10

/-- The hashes, each of the key and of what it is named after, and what is asked of addresses. -/
structure AddrEnv where
  /-- The hash of `GetKey`. -/
  hashKey : Uint256 → CService → ℕ
  /-- The hash of `GetGroup` and a number. -/
  hashGroup : Uint256 → CNetAddr → ℕ → ℕ
  /-- The hash of the groups of an address and of its source. -/
  hashGroups : Uint256 → CNetAddr → CNetAddr → ℕ
  /-- The hash of the kind and the number of a bucket, and of `GetKey`. -/
  hashPosition : Uint256 → Bool → ℕ → CService → ℕ
  isRoutable : CNetAddr → Bool
  isValid : CNetAddr → Bool

structure CAddress extends CService where
  nServices : UInt64
  nTime : ℕ
  deriving DecidableEq

structure CAddrInfo extends CAddress where
  source : CNetAddr
  nLastSuccess : ℤ := 0
  nLastTry : ℤ := 0
  nLastCountAttempt : ℤ := 0
  nAttempts : ℤ := 0
  nRefCount : ℤ := 0
  fInTried : Bool := false
  nRandomPos : ℤ := -1
  deriving DecidableEq

namespace CAddrInfo

/-- `CAddrInfo()`. -/
def empty : CAddrInfo :=
  { ip := List.replicate 16 0, port := 0, nServices := 0, nTime := 100000000
    source := List.replicate 16 0 }

variable (env : AddrEnv) (info : CAddrInfo) (nKey : Uint256)

def getTriedBucket : ℕ :=
  env.hashGroup nKey info.ip (env.hashKey nKey info.toCService % ADDRMAN_TRIED_BUCKETS_PER_GROUP) %
    ADDRMAN_TRIED_BUCKET_COUNT

def getNewBucket (src : CNetAddr) : ℕ :=
  env.hashGroup nKey src
    (env.hashGroups nKey info.ip src % ADDRMAN_NEW_BUCKETS_PER_SOURCE_GROUP) %
    ADDRMAN_NEW_BUCKET_COUNT

def getBucketPosition (fNew : Bool) (nBucket : ℕ) : ℕ :=
  env.hashPosition nKey fNew nBucket info.toCService % ADDRMAN_BUCKET_SIZE

def isTerrible (nNow : ℤ) : Bool :=
  if info.nLastTry ≠ 0 ∧ info.nLastTry ≥ nNow - 60 then false
  else if (info.nTime : ℤ) > nNow + 10 * 60 then true
  else if info.nTime = 0 ∨ nNow - info.nTime > ADDRMAN_HORIZON_DAYS * 24 * 60 * 60 then true
  else if info.nLastSuccess = 0 ∧ info.nAttempts ≥ ADDRMAN_RETRIES then true
  else if nNow - info.nLastSuccess > ADDRMAN_MIN_FAIL_DAYS * 24 * 60 * 60 ∧
    info.nAttempts ≥ ADDRMAN_MAX_FAILURES then true
  else false

/-- What `Add_` writes into an entry that is there already. -/
def seen (addr : CAddress) (nTimePenalty nNow : ℤ) : CAddrInfo :=
  let fCurrentlyOnline := decide (nNow - addr.nTime < 24 * 60 * 60)
  let nUpdateInterval : ℤ := if fCurrentlyOnline then 60 * 60 else 24 * 60 * 60
  let fNewer := addr.nTime ≠ 0 ∧
    (info.nTime = 0 ∨ (info.nTime : ℤ) < addr.nTime - nUpdateInterval - nTimePenalty)
  { info with
    nTime := if fNewer then (max 0 (addr.nTime - nTimePenalty)).toNat % 2 ^ 32 else info.nTime
    nServices := info.nServices ||| addr.nServices }

end CAddrInfo

/-- What an address record in a file consists of. -/
structure AddrRecord where
  addr : CAddress
  source : CNetAddr
  nLastSuccess : ℤ
  nAttempts : ℤ

def CAddrInfo.record (info : CAddrInfo) : AddrRecord :=
  ⟨info.toCAddress, info.source, info.nLastSuccess, info.nAttempts⟩

/-- `s >> info`: the fields that are in memory only are left as they are. -/
def CAddrInfo.read (info : CAddrInfo) (r : AddrRecord) : CAddrInfo :=
  { info with
    toCAddress := r.addr
    source := r.source
    nLastSuccess := r.nLastSuccess
    nAttempts := r.nAttempts }

/-- The values of a stream, in the order in which they are read. -/
inductive AddrToken
  | byte (b : ℕ)
  | key (nKey : Uint256)
  | int (n : ℤ)
  | record (r : AddrRecord)

abbrev Slots := ℕ → ℕ → ℤ

def Slots.set (t : Slots) (nBucket nPos : ℕ) (nId : ℤ) : Slots :=
  fun b p => if b = nBucket ∧ p = nPos then nId else t b p

structure CAddrMan where
  nIdCount : ℤ
  mapInfo : Finmap fun _ : ℤ => CAddrInfo
  mapAddr : CNetAddr → Option ℤ
  vRandom : List ℤ
  nTried : ℤ
  vvTried : Slots
  nNew : ℤ
  vvNew : Slots
  nLastGood : ℤ
  triedCollisions : Finset ℤ
  nKey : Uint256
  failed : Bool

namespace CAddrMan

/-- The members before the constructor has run. -/
def blank : CAddrMan where
  nIdCount := 0
  mapInfo := ∅
  mapAddr _ := none
  vRandom := []
  nTried := 0
  vvTried _ _ := 0
  nNew := 0
  vvNew _ _ := 0
  nLastGood := 0
  triedCollisions := ∅
  nKey := 0
  failed := false

/-- `Clear`; the key is drawn. -/
def clear (m : CAddrMan) (nKey : Uint256) : CAddrMan :=
  { m with
    vRandom := []
    nKey := nKey
    vvNew := fun _ _ => -1
    vvTried := fun _ _ => -1
    nIdCount := 0
    nTried := 0
    nNew := 0
    nLastGood := 1 }

def new (nKey : Uint256) : CAddrMan := blank.clear nKey

/-! ### Entries -/

section

variable (m : CAddrMan)

def assert (b : Bool) : CAddrMan := { m with failed := m.failed || !b }

/-- The value of `mapInfo[nId]`. -/
def infoAt (nId : ℤ) : CAddrInfo := (m.mapInfo.lookup nId).getD .empty

def put (nId : ℤ) (info : CAddrInfo) : CAddrMan := { m with mapInfo := m.mapInfo.insert nId info }

/-- `mapInfo[nId]` makes an entry when there is none. -/
def touch (nId : ℤ) : CAddrMan := if nId ∈ m.mapInfo then m else m.put nId .empty

def find (addr : CNetAddr) : Option (ℤ × CAddrInfo) :=
  match m.mapAddr addr with
  | none => none
  | some nId => (m.mapInfo.lookup nId).map fun info => (nId, info)

/-- `Create`; the number of the entry is the one `nIdCount` had. -/
def create (addr : CAddress) (addrSource : CNetAddr) : CAddrMan :=
  { m with
    nIdCount := m.nIdCount + 1
    mapInfo := m.mapInfo.insert m.nIdCount
      { addr with source := addrSource, nRandomPos := m.vRandom.length }
    mapAddr := Function.update m.mapAddr addr.ip (some m.nIdCount)
    vRandom := m.vRandom ++ [m.nIdCount] }

def inRandom (nRndPos : ℤ) : Bool := decide (0 ≤ nRndPos ∧ nRndPos < m.vRandom.length)

def swapRandom (nRndPos1 nRndPos2 : ℤ) : CAddrMan :=
  if nRndPos1 = nRndPos2 then m
  else
    let nId1 := m.vRandom.getD nRndPos1.toNat 0
    let nId2 := m.vRandom.getD nRndPos2.toNat 0
    let m1 := (m.assert (m.inRandom nRndPos1 && m.inRandom nRndPos2)).assert
      (decide (nId1 ∈ m.mapInfo) && decide (nId2 ∈ m.mapInfo))
    let m2 := m1.put nId1 { m1.infoAt nId1 with nRandomPos := nRndPos2 }
    let m3 := m2.put nId2 { m2.infoAt nId2 with nRandomPos := nRndPos1 }
    { m3 with vRandom := (m3.vRandom.set nRndPos1.toNat nId2).set nRndPos2.toNat nId1 }

def delete (nId : ℤ) : CAddrMan :=
  let info := m.infoAt nId
  let m1 := ((m.assert (decide (nId ∈ m.mapInfo))).assert (!info.fInTried)).assert
    (info.nRefCount == 0)
  let m2 := m1.swapRandom info.nRandomPos (m1.vRandom.length - 1)
  { m2 with
    vRandom := m2.vRandom.dropLast
    mapAddr := Function.update m2.mapAddr info.ip none
    mapInfo := m2.mapInfo.erase nId
    nNew := m2.nNew - 1 }

def clearNew (nUBucket nUBucketPos : ℕ) : CAddrMan :=
  let nIdDelete := m.vvNew nUBucket nUBucketPos
  if nIdDelete = -1 then m
  else
    let m1 := m.touch nIdDelete
    let info := m1.infoAt nIdDelete
    let m2 := (m1.assert (decide (0 < info.nRefCount))).put nIdDelete
      { info with nRefCount := info.nRefCount - 1 }
    let m3 := { m2 with vvNew := m2.vvNew.set nUBucket nUBucketPos (-1) }
    if info.nRefCount - 1 = 0 then m3.delete nIdDelete else m3

/-- An entry gets a slot of the table of new addresses. -/
def refer (nId : ℤ) (nRefCount : ℤ) (nUBucket nUBucketPos : ℕ) : CAddrMan :=
  let m1 := m.put nId { m.infoAt nId with nRefCount := nRefCount }
  { m1 with vvNew := m1.vvNew.set nUBucket nUBucketPos nId }

end

/-! ### The tables -/

section

variable (env : AddrEnv) (m : CAddrMan)

/-- The entry loses its slot in one of the new buckets. -/
def leaveNew (nId : ℤ) (bucket : ℕ) : CAddrMan :=
  let info := m.infoAt nId
  let pos := info.getBucketPosition env m.nKey true bucket
  if m.vvNew bucket pos = nId then
    let m1 := { m with vvNew := m.vvNew.set bucket pos (-1) }
    m1.put nId { info with nRefCount := info.nRefCount - 1 }
  else m

/-- The loop of `MakeTried`. -/
def leaveAllNew (nId : ℤ) (buckets : List ℕ) : CAddrMan :=
  buckets.foldl (fun m b => m.leaveNew env nId b) m

/-- The entry in a slot of the tried table leaves it. -/
def leaveTried (nKBucket nKBucketPos : ℕ) : CAddrMan :=
  let nIdEvict := m.vvTried nKBucket nKBucketPos
  let m1 := (m.assert (decide (nIdEvict ∈ m.mapInfo))).touch nIdEvict
  let m2 := m1.put nIdEvict { m1.infoAt nIdEvict with fInTried := false }
  { m2 with
    vvTried := m2.vvTried.set nKBucket nKBucketPos (-1)
    nTried := m2.nTried - 1 }

/-- It gets the slot of its source in the new table. -/
def enterAgain (nIdEvict : ℤ) : CAddrMan :=
  let infoOld := m.infoAt nIdEvict
  let nUBucket := infoOld.getNewBucket env m.nKey infoOld.source
  let nUBucketPos := infoOld.getBucketPosition env m.nKey true nUBucket
  let m1 := m.clearNew nUBucket nUBucketPos
  let m2 := (m1.assert (m1.vvNew nUBucket nUBucketPos == -1)).refer nIdEvict 1 nUBucket nUBucketPos
  { m2 with nNew := m2.nNew + 1 }

def evict (nKBucket nKBucketPos : ℕ) : CAddrMan :=
  (m.leaveTried nKBucket nKBucketPos).enterAgain env (m.vvTried nKBucket nKBucketPos)

/-- The rest of `MakeTried`, for an entry that is in no new bucket any more. -/
def enterTried (nId : ℤ) : CAddrMan :=
  let m1 := { m with nNew := m.nNew - 1 }
  let info := m1.infoAt nId
  let m2 := m1.assert (info.nRefCount == 0)
  let nKBucket := info.getTriedBucket env m2.nKey
  let nKBucketPos := info.getBucketPosition env m2.nKey false nKBucket
  let m3 := if m2.vvTried nKBucket nKBucketPos = -1 then m2 else m2.evict env nKBucket nKBucketPos
  let m4 := m3.assert (m3.vvTried nKBucket nKBucketPos == -1)
  let m5 := { m4 with
    vvTried := m4.vvTried.set nKBucket nKBucketPos nId
    nTried := m4.nTried + 1 }
  m5.put nId { m5.infoAt nId with fInTried := true }

def makeTried (nId : ℤ) : CAddrMan :=
  (m.leaveAllNew env nId (List.range ADDRMAN_NEW_BUCKET_COUNT)).enterTried env nId

/-- The loop of `Good_` finds a new bucket that the entry is in. -/
def inNewBucket (nId : ℤ) (info : CAddrInfo) (nRnd : ℕ) : Bool :=
  (List.range ADDRMAN_NEW_BUCKET_COUNT).any fun n =>
    let nB := (n + nRnd) % ADDRMAN_NEW_BUCKET_COUNT
    m.vvNew nB (info.getBucketPosition env m.nKey true nB) == nId

/-- The slot of the tried table for an entry. -/
def triedSlot (info : CAddrInfo) : ℤ :=
  m.vvTried (info.getTriedBucket env m.nKey)
    (info.getBucketPosition env m.nKey false (info.getTriedBucket env m.nKey))

/-- `Good_`; `nRnd` is the bucket the search starts at. -/
def good_ (addr : CService) (testBeforeEvict : Bool) (nTime : ℤ) (nRnd : ℕ) : CAddrMan :=
  let m1 := { m with nLastGood := nTime }
  match m1.find addr.ip with
  | none => m1
  | some (nId, info) =>
    if info.toCService ≠ addr then m1
    else
      let info1 := { info with nLastSuccess := nTime, nLastTry := nTime, nAttempts := 0 }
      let m2 := m1.put nId info1
      if info1.fInTried then m2
      else if !m2.inNewBucket env nId info1 nRnd then m2
      else if testBeforeEvict && m2.triedSlot env info1 != -1 then
        if m2.triedCollisions.card < ADDRMAN_SET_TRIED_COLLISION_SIZE then
          { m2 with triedCollisions := insert nId m2.triedCollisions }
        else m2
      else m2.makeTried env nId

/-- The end of `Add_`: the entry gets the slot that belongs to the source, unless another one is in
it that is worth more. -/
def enterNew (nId : ℤ) (source : CNetAddr) (nNow : ℤ) : CAddrMan :=
  let info := m.infoAt nId
  let nUBucket := info.getNewBucket env m.nKey source
  let nUBucketPos := info.getBucketPosition env m.nKey true nUBucket
  let nIdThere := m.vvNew nUBucket nUBucketPos
  if nIdThere = nId then m
  else
    let m1 := if nIdThere = -1 then m else m.touch nIdThere
    let infoExisting := m1.infoAt nIdThere
    if nIdThere = -1 ∨ infoExisting.isTerrible nNow = true ∨
        (infoExisting.nRefCount > 1 ∧ info.nRefCount = 0) then
      let m2 := m1.clearNew nUBucket nUBucketPos
      m2.refer nId ((m2.infoAt nId).nRefCount + 1) nUBucket nUBucketPos
    else if info.nRefCount = 0 then m1.delete nId
    else m1

/-- `Add_`; `nRnd` decides when an entry that is there is to get one more slot. -/
def add_ (addr : CAddress) (source : CNetAddr) (nTimePenalty nNow : ℤ) (nRnd : ℕ) :
    CAddrMan × Bool :=
  if !env.isRoutable addr.ip then (m, false)
  else
    let nTimePenalty := if addr.ip = source then 0 else nTimePenalty
    match m.find addr.ip with
    | some (nId, info) =>
      let info1 := info.seen addr nTimePenalty nNow
      let m1 := m.put nId info1
      if addr.nTime = 0 ∨ (info1.nTime ≠ 0 ∧ addr.nTime ≤ info1.nTime) then (m1, false)
      else if info1.fInTried then (m1, false)
      else if info1.nRefCount = ADDRMAN_NEW_BUCKETS_PER_ADDRESS then (m1, false)
      else
        let nFactor := 2 ^ info1.nRefCount.toNat
        if 1 < nFactor ∧ nRnd % nFactor ≠ 0 then (m1, false)
        else (m1.enterNew env nId source nNow, false)
    | none =>
      let m1 := m.create addr source
      let info := m1.infoAt m.nIdCount
      let m2 := m1.put m.nIdCount
        { info with nTime := (max 0 ((info.nTime : ℤ) - nTimePenalty)).toNat % 2 ^ 32 }
      let m3 := { m2 with nNew := m2.nNew + 1 }
      (m3.enterNew env m.nIdCount source nNow, true)

/-- `Attempt_`, `Connected_` and `SetServices_` change one entry, if it has the same port. -/
def change (addr : CService) (f : CAddrInfo → CAddrInfo) : CAddrMan :=
  match m.find addr.ip with
  | none => m
  | some (nId, info) => if info.toCService ≠ addr then m else m.put nId (f info)

def attempt_ (addr : CService) (fCountFailure : Bool) (nTime : ℤ) : CAddrMan :=
  m.change addr fun info =>
    if fCountFailure && decide (info.nLastCountAttempt < m.nLastGood) then
      { info with nLastTry := nTime, nLastCountAttempt := nTime, nAttempts := info.nAttempts + 1 }
    else { info with nLastTry := nTime }

def connected_ (addr : CService) (nTime : ℤ) : CAddrMan :=
  m.change addr fun info =>
    if nTime - info.nTime > 20 * 60 then { info with nTime := (nTime % 2 ^ 32).toNat } else info

def setServices_ (addr : CService) (nServices : UInt64) : CAddrMan :=
  m.change addr fun info => { info with nServices := nServices }

/-- The loop of `GetAddr_`, with the addresses it has gathered. -/
def getAddrStep (nNow : ℤ) (nRnd : ℕ → ℕ) (nNodes : ℕ) (s : CAddrMan × List CAddress) (n : ℕ) :
    CAddrMan × List CAddress :=
  if s.2.length ≥ nNodes then s
  else
    let nRndPos := nRnd n % (s.1.vRandom.length - n) + n
    let m1 := s.1.swapRandom n nRndPos
    let nId := m1.vRandom.getD n 0
    let m2 := (m1.assert (decide (nId ∈ m1.mapInfo))).touch nId
    let ai := m2.infoAt nId
    (m2, if ai.isTerrible nNow then s.2 else s.2 ++ [ai.toCAddress])

def getAddr_ (nNow : ℤ) (nRnd : ℕ → ℕ) : CAddrMan × List CAddress :=
  let nNodes := min (ADDRMAN_GETADDR_MAX_PCT * m.vRandom.length / 100) ADDRMAN_GETADDR_MAX
  (List.range m.vRandom.length).foldl (getAddrStep nNow nRnd nNodes) (m, [])

/-! ### Collisions -/

/-- The loop of `ResolveCollisions_`. -/
def resolveCollision (nNow : ℤ) (nRnd : ℤ → ℕ) (idNew : ℤ) : CAddrMan :=
  let erased (m : CAddrMan) := { m with triedCollisions := m.triedCollisions.erase idNew }
  match m.mapInfo.lookup idNew with
  | none => erased m
  | some infoNew =>
    if !env.isValid infoNew.ip then erased m
    else if m.triedSlot env infoNew = -1 then
      erased (m.good_ env infoNew.toCService false nNow (nRnd idNew))
    else
      let m1 := m.touch (m.triedSlot env infoNew)
      let infoOld := m1.infoAt (m.triedSlot env infoNew)
      if nNow - infoOld.nLastSuccess < ADDRMAN_REPLACEMENT_HOURS * (60 * 60) then erased m1
      else if nNow - infoOld.nLastTry < ADDRMAN_REPLACEMENT_HOURS * (60 * 60) then
        if nNow - infoOld.nLastTry > 60 then
          erased (m1.good_ env infoNew.toCService false nNow (nRnd idNew))
        else m1
      else m1

def resolveCollisions_ (nNow : ℤ) (nRnd : ℤ → ℕ) : CAddrMan :=
  (m.triedCollisions.sort (· ≤ ·)).foldl (fun m id => m.resolveCollision env nNow nRnd id) m

def selectTriedCollision_ (nRnd : ℕ) : CAddrMan × CAddrInfo :=
  if m.triedCollisions.card = 0 then (m, .empty)
  else
    let idNew := (m.triedCollisions.sort (· ≤ ·)).getD (nRnd % m.triedCollisions.card) 0
    match m.mapInfo.lookup idNew with
    | none => ({ m with triedCollisions := m.triedCollisions.erase idNew }, .empty)
    | some newInfo =>
      let idOld := m.triedSlot env newInfo
      let m1 := m.touch idOld
      (m1, m1.infoAt idOld)

end

/-! ### The file -/

section

variable (env : AddrEnv) (m : CAddrMan)

/-- The number of buckets is written with one bit flipped. -/
def flipBit (nUBuckets : ℤ) : ℤ := (BitVec.ofInt 32 nUBuckets ^^^ BitVec.ofInt 32 (2 ^ 30)).toInt

/-- The numbers of the entries with a property, in the order of `mapInfo`. -/
def idsWith (f : CAddrInfo → Bool) : List ℤ :=
  (m.mapInfo.keys.sort (· ≤ ·)).filter fun id => f (m.infoAt id)

/-- `mapUnkIds`: how many entries of the new table have been written before. -/
def unkId (nId : ℤ) : ℤ :=
  if nId ∈ m.mapInfo then
    (((m.idsWith fun info => info.nRefCount != 0).filter fun id => decide (id < nId)).length : ℤ)
  else 0

/-- The indices of a bucket, with their number. -/
def bucketTokens (bucket : ℕ) : List AddrToken :=
  let ids := ((List.range ADDRMAN_BUCKET_SIZE).map (m.vvNew bucket)).filter (· != -1)
  .int ids.length :: ids.map fun nId => .int (m.unkId nId)

/-- The values that `Serialize` writes. -/
def tokens : List AddrToken :=
  [.byte 1, .byte 32, .key m.nKey, .int m.nNew, .int m.nTried,
      .int (flipBit ADDRMAN_NEW_BUCKET_COUNT)] ++
    (m.idsWith fun info => info.nRefCount != 0).map (fun id => .record (m.infoAt id).record) ++
    (m.idsWith fun info => info.fInTried).map (fun id => .record (m.infoAt id).record) ++
    (List.range ADDRMAN_NEW_BUCKET_COUNT).flatMap m.bucketTokens

/-- `Serialize`; nothing is written when one of its assertions fails. -/
def serialize : Option (List AddrToken) :=
  let vNew := m.idsWith fun info => info.nRefCount != 0
  let vTried := m.idsWith fun info => info.fInTried
  if (List.range vNew.length).any (fun nIds => (nIds : ℤ) == m.nNew) ||
      (List.range vTried.length).any (fun nIds => (nIds : ℤ) == m.nTried) then none
  else some m.tokens

/-- The beginning of a stream: the version, the number of buckets and what follows. -/
def readHeader : List AddrToken → CAddrMan × Option (ℕ × ℤ × List AddrToken)
  | .byte nVersion :: .byte 32 :: .key nKey :: .int nNew :: .int nTried :: .int nUBuckets :: s =>
    ({ m with nKey := nKey, nNew := nNew, nTried := nTried },
      some (nVersion, if nVersion ≠ 0 then flipBit nUBuckets else nUBuckets, s))
  | .byte _ :: .byte 32 :: .key nKey :: .int nNew :: .int nTried :: _ =>
    ({ m with nKey := nKey, nNew := nNew, nTried := nTried }, none)
  | .byte _ :: .byte 32 :: .key nKey :: .int nNew :: _ =>
    ({ m with nKey := nKey, nNew := nNew }, none)
  | .byte _ :: .byte 32 :: .key nKey :: _ => ({ m with nKey := nKey }, none)
  | _ => (m, none)

/-- An entry of the new table is read; without its buckets it gets the one of its source. -/
def readOneNew (usable : Bool) (n : ℤ) (r : AddrRecord) : CAddrMan :=
  let info := { (m.infoAt n).read r with nRandomPos := m.vRandom.length }
  let m1 := m.put n info
  let m2 := { m1 with
    mapAddr := Function.update m1.mapAddr info.ip (some n)
    vRandom := m1.vRandom ++ [n] }
  let nUBucket := info.getNewBucket env m2.nKey info.source
  let nUBucketPos := info.getBucketPosition env m2.nKey true nUBucket
  if !usable && m2.vvNew nUBucket nUBucketPos == -1 then
    m2.refer n (info.nRefCount + 1) nUBucket nUBucketPos
  else m2

def readNew (usable : Bool) : ℕ → ℤ → CAddrMan → List AddrToken →
    CAddrMan × Option (List AddrToken)
  | 0, _, m, s => (m, some s)
  | k + 1, n, m, .record r :: s => readNew usable k (n + 1) (m.readOneNew env usable n r) s
  | _ + 1, n, m, _ => (m.touch n, none)

/-- An entry of the tried table is read, and lost if its slot is taken. -/
def readOneTried (nLost : ℤ) (r : AddrRecord) : CAddrMan × ℤ :=
  let info := CAddrInfo.empty.read r
  let nKBucket := info.getTriedBucket env m.nKey
  let nKBucketPos := info.getBucketPosition env m.nKey false nKBucket
  if m.vvTried nKBucket nKBucketPos = -1 then
    let m1 := m.put m.nIdCount { info with nRandomPos := m.vRandom.length, fInTried := true }
    ({ m1 with
      vRandom := m1.vRandom ++ [m1.nIdCount]
      mapAddr := Function.update m1.mapAddr info.ip (some m1.nIdCount)
      vvTried := m1.vvTried.set nKBucket nKBucketPos m1.nIdCount
      nIdCount := m1.nIdCount + 1 }, nLost)
  else (m, nLost + 1)

def readTried : ℕ → ℤ → CAddrMan → List AddrToken → CAddrMan × Option (ℤ × List AddrToken)
  | 0, nLost, m, s => (m, some (nLost, s))
  | k + 1, nLost, m, .record r :: s =>
    readTried k (m.readOneTried env nLost r).2 (m.readOneTried env nLost r).1 s
  | _ + 1, _, m, _ => (m, none)

/-- An index in a bucket gives the entry the slot, if this is free. -/
def readIndex (usable : Bool) (bucket : ℕ) (nIndex : ℤ) : CAddrMan :=
  if 0 ≤ nIndex ∧ nIndex < m.nNew then
    let m1 := m.touch nIndex
    let info := m1.infoAt nIndex
    let nUBucketPos := info.getBucketPosition env m1.nKey true bucket
    if usable = true ∧ m1.vvNew bucket nUBucketPos = -1 ∧
        info.nRefCount < ADDRMAN_NEW_BUCKETS_PER_ADDRESS then
      m1.refer nIndex (info.nRefCount + 1) bucket nUBucketPos
    else m1
  else m

def readBucket (usable : Bool) (bucket : ℕ) : ℕ → CAddrMan → List AddrToken →
    CAddrMan × Option (List AddrToken)
  | 0, m, s => (m, some s)
  | k + 1, m, .int nIndex :: s =>
    readBucket usable bucket k (m.readIndex env usable bucket nIndex) s
  | _ + 1, m, _ => (m, none)

def readBuckets (usable : Bool) : ℕ → ℕ → CAddrMan → List AddrToken →
    CAddrMan × Option (List AddrToken)
  | 0, _, m, s => (m, some s)
  | k + 1, bucket, m, .int nSize :: s =>
    match readBucket env usable bucket nSize.toNat m s with
    | (m1, some s1) => readBuckets usable k (bucket + 1) m1 s1
    | (m1, none) => (m1, none)
  | _ + 1, _, m, _ => (m, none)

/-- An entry that no slot refers to is deleted. -/
def pruneOne (nId : ℤ) : CAddrMan :=
  if (m.infoAt nId).fInTried = false ∧ (m.infoAt nId).nRefCount = 0 then m.delete nId else m

def prune : CAddrMan := (m.mapInfo.keys.sort (· ≤ ·)).foldl pruneOne m

/-- What is read after the header. -/
def readTables (nVersion : ℕ) (nUBuckets : ℤ) (s : List AddrToken) : CAddrMan × Bool :=
  let usable := decide (nVersion = 1 ∧ nUBuckets = ADDRMAN_NEW_BUCKET_COUNT)
  match readNew env usable m.nNew.toNat 0 m s with
  | (m1, none) => (m1, false)
  | (m1, some s1) =>
    match readTried env m1.nTried.toNat 0 { m1 with nIdCount := m1.nNew } s1 with
    | (m2, none) => (m2, false)
    | (m2, some (nLost, s2)) =>
      match readBuckets env usable nUBuckets.toNat 0 { m2 with nTried := m2.nTried - nLost } s2 with
      | (m3, none) => (m3, false)
      | (m3, some _) => (m3.prune, true)

/-- `Unserialize`, and whether it has come to its end; the first key is drawn by `Clear`. -/
def unserialize (nKey : Uint256) (s : List AddrToken) : CAddrMan × Bool :=
  match (m.clear nKey).readHeader s with
  | (m1, none) => (m1, false)
  | (m1, some (nVersion, nUBuckets, s1)) => m1.readTables env nVersion nUBuckets s1

end

/-! ### Runs -/

/-- What is done with a manager. An `Unserialize` that fails is followed by `Clear`, which draws the
second key. -/
inductive Op
  | add (addr : CAddress) (source : CNetAddr) (nTimePenalty nNow : ℤ) (nRnd : ℕ)
  | good (addr : CService) (testBeforeEvict : Bool) (nTime : ℤ) (nRnd : ℕ)
  | attempt (addr : CService) (fCountFailure : Bool) (nTime : ℤ)
  | connected (addr : CService) (nTime : ℤ)
  | setServices (addr : CService) (nServices : UInt64)
  | resolveCollisions (nNow : ℤ) (nRnd : ℤ → ℕ)
  | selectTriedCollision (nRnd : ℕ)
  | getAddr (nNow : ℤ) (nRnd : ℕ → ℕ)
  | clear (nKey : Uint256)
  | unserialize (nKey nKeyAfter : Uint256) (s : List AddrToken)

def step (env : AddrEnv) (m : CAddrMan) : Op → CAddrMan
  | .add addr source nTimePenalty nNow nRnd => (m.add_ env addr source nTimePenalty nNow nRnd).1
  | .good addr testBeforeEvict nTime nRnd => m.good_ env addr testBeforeEvict nTime nRnd
  | .attempt addr fCountFailure nTime => m.attempt_ addr fCountFailure nTime
  | .connected addr nTime => m.connected_ addr nTime
  | .setServices addr nServices => m.setServices_ addr nServices
  | .resolveCollisions nNow nRnd => m.resolveCollisions_ env nNow nRnd
  | .selectTriedCollision nRnd => (m.selectTriedCollision_ env nRnd).1
  | .getAddr nNow nRnd => (m.getAddr_ nNow nRnd).1
  | .clear nKey => m.clear nKey
  | .unserialize nKey nKeyAfter s =>
    let read := m.unserialize env nKey s
    if read.2 then read.1 else read.1.clear nKeyAfter

end CAddrMan

end Agenor
