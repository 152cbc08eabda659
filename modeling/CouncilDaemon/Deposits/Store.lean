import CouncilDaemon.Deposits.Records
import CouncilDaemon.Lib.Service

/-!
# The store of the deposits registry

The deposit events that the daemon has fetched are kept twice: in the database, and in memory as the
cache that the rest of the daemon reads. This file is the store service: loading the cache, the
clean-up at start-up, the recovery after a failed root check, and the insertions.

A write of the database happens as a whole or fails, as the disk decides.
-/

namespace CouncilDaemon

/-- What the disk answers to a write: it is done as a whole, or it fails. -/
structure Disk where
  write : List DbOp → Except String Unit
  clear : Except String Unit

/-- A disk without failures. -/
def Disk.sound : Disk := ⟨fun _ => .ok (), .ok ()⟩

structure DepositsRegistryStore where
  db : Db
  cache : VerifiedDepositEventsCache
  cacheSizeBytes : ℕ
  cacheEventCount : ℕ


namespace DepositsRegistryStore

/-- `Level` opened on the database `db`, before anything is loaded from it. -/
def opened (db : Db) : DepositsRegistryStore where
  db := db
  cache := depositCacheDefault
  cacheSizeBytes := 0
  cacheEventCount := 0

def batch (disk : Disk) (ops : List DbOp) : Service DepositsRegistryStore Unit := do
  Service.call (disk.write ops)
  modify fun store => { store with db := store.db.batch ops }

def serializeDepositEvent (depositEvent : VerifiedDepositEvent) (trackCacheMetrics : Bool) :
    Service DepositsRegistryStore Json := do
  let serialized := depositEventRecord depositEvent
  if trackCacheMetrics then
    modify fun store => { store with
      cacheSizeBytes := store.cacheSizeBytes + serialized.byteLength
      cacheEventCount := store.cacheEventCount + 1 }
  return serialized

/-- The loop of `getEventsFromDB` over the values of the iterator. -/
def readEvents : List Json → Service DepositsRegistryStore (List VerifiedDepositEvent)
  | [] => return []
  | value :: values => do
    modify fun store => { store with
      cacheSizeBytes := store.cacheSizeBytes + value.byteLength
      cacheEventCount := store.cacheEventCount + 1 }
    let event ← Service.call (parseDepositEvent value)
    let events ← readEvents values
    return event :: events

def getLastValidEvent : Service DepositsRegistryStore (Option VerifiedDepositEvent) := do
  let store ← get
  match store.db.get? "last-valid-event" with
  | none => return none
  | some lastValidEvent =>
    let event ← Service.call (parseDepositEvent lastValidEvent)
    return some event

def getEventsFromDB : Service DepositsRegistryStore VerifiedDepositEventsCache := do
  modify fun store => { store with cacheSizeBytes := 0, cacheEventCount := 0 }
  let store ← get
  let data ← readEvents ((store.db.range isDepositKey).map Prod.snd)
  match store.db.get? "headers" with
  | none => return depositCacheDefault
  | some text =>
    let headers ← Service.call (parseHeaders text)
    let lastValidEvent ← getLastValidEvent
    return { headers, data, lastValidEvent }

def setupEventsCache : Service DepositsRegistryStore Unit := do
  let cache ← getEventsFromDB
  modify fun store => { store with cache }

def formDepositEventHeaderForDeletion (lastValidEventBlockNumber : Option ℕ) :
    Service DepositsRegistryStore VerifiedDepositEventsCacheHeaders := do
  let store ← get
  let headers := { store.cache.headers with
    endBlock := lastValidEventBlockNumber.getD depositCacheDefault.headers.endBlock }
  if headers.endBlock < headers.startBlock then throw "Deposit header is not valid"
  else return headers

def deleteDepositsGreaterThanOrEqualNBatch (disk : Disk) (depositCount : ℕ)
    (headers : VerifiedDepositEventsCacheHeaders) : Service DepositsRegistryStore Unit := do
  let upperBoundKey ← Service.call (generateDepositKey depositCount)
  let store ← get
  let ops : List DbOp := (store.db.range (isDepositKeyFrom upperBoundKey)).map fun e => .del e.1
  if ops.length > 0 then
    batch disk (ops ++ [.put "headers" (headersRecord headers), .del "last-valid-event"])
  else
    batch disk [.put "headers" (headersRecord headers)]
  setupEventsCache

/-- The loop of `validateAndCleanInconsistentCache`: the deposit count of the last event in the
expected order, from `expectedIndex` on. -/
def lastValidEventIndex (expectedIndex : ℕ) (last : Option ℕ) :
    List VerifiedDepositEvent → Option ℕ
  | [] => last
  | event :: events =>
    if event.depositCount = expectedIndex then
      lastValidEventIndex (expectedIndex + 1) (some event.depositCount) events
    else last

def validateAndCleanInconsistentCache (disk : Disk) : Service DepositsRegistryStore Unit := do
  let currentCache := (← get).cache
  -- `none` stands for the index -1
  let index := lastValidEventIndex 0 none currentCache.data
  let lastValidEvent := index.bind (currentCache.data[·]?)
  let headers ← formDepositEventHeaderForDeletion (lastValidEvent.map (·.blockNumber))
  deleteDepositsGreaterThanOrEqualNBatch disk (index.elim 0 (· + 1)) headers

def clearFromLastValidEvent (disk : Disk) : Service DepositsRegistryStore Unit := do
  let lastValidEvent ← getLastValidEvent
  let fromIndex := lastValidEvent.elim 0 (·.depositCount + 1)
  let headers ← formDepositEventHeaderForDeletion (lastValidEvent.map (·.blockNumber))
  deleteDepositsGreaterThanOrEqualNBatch disk fromIndex headers

/-- `initialize` on an opened database. -/
def initializeStore (disk : Disk) : Service DepositsRegistryStore Unit := do
  setupEventsCache
  validateAndCleanInconsistentCache disk

/-- The operations of a batch of events, serialized one after the other. -/
def depositOps : List VerifiedDepositEvent → Service DepositsRegistryStore (List DbOp)
  | [] => return []
  | event :: events => do
    let key ← Service.call (generateDepositKey event.depositCount)
    let value ← serializeDepositEvent event true
    let ops ← depositOps events
    return .put key value :: ops

def insertEventsCacheBatch (disk : Disk) (data : List VerifiedDepositEvent)
    (headers : VerifiedDepositEventsCacheHeaders) : Service DepositsRegistryStore Unit := do
  let ops ← depositOps data
  batch disk (ops ++ [.put "headers" (headersRecord headers)])
  modify fun store => { store with
    cache := { store.cache with data := store.cache.data ++ data, headers := headers } }

def insertLastValidEvent (disk : Disk) (event : VerifiedDepositEvent) :
    Service DepositsRegistryStore Unit := do
  let value ← serializeDepositEvent event false
  batch disk [.put "last-valid-event" value]
  modify fun store => { store with cache := { store.cache with lastValidEvent := some event } }

def deleteCache (disk : Disk) : Service DepositsRegistryStore Unit := do
  Service.call disk.clear
  modify fun _ => {
    db := OrderedStore.empty
    cache := depositCacheDefault
    cacheSizeBytes := 0
    cacheEventCount := 0 }

def setCachedEvents (disk : Disk) (cachedEvents : VerifiedDepositEventsCache) :
    Service DepositsRegistryStore Unit := do
  deleteCache disk
  insertEventsCacheBatch disk cachedEvents.data cachedEvents.headers
  modify fun store => { store with
    cache := { store.cache with
      data := store.cache.data ++ cachedEvents.data
      headers := cachedEvents.headers } }

end DepositsRegistryStore

end CouncilDaemon
