import CouncilDaemon.Deposits.Store

/-!
# The deposits registry

The registry keeps the store of deposit events and, in memory, the tree of their deposit data roots.
`updateEventsCache` reads the events up to the finalized block in chunks, pushes each chunk into the
tree and writes it to the store, then compares the root of the tree with the root of the network.
`getAllDepositedEvents` adds the events since then and checks them against the root of the network
on a clone of the tree.

Whatever the node and the disk answer during one call is an `Env`.
-/

namespace CouncilDaemon

/-! ## Data -/

/-- What the node and the disk answer during a call. -/
structure Env where
  chainId : ℕ
  /-- The number and the hash of the finalized block. -/
  finalizedBlock : Except String (ℕ × String)
  fetchEventsFallOver : (startBlock endBlock : ℕ) → Except String (List VerifiedDepositEvent)
  getDepositRoot : (blockHash : String) → Except String String
  disk : Disk

structure Registry where
  store : DepositsRegistryStore
  finalizedTree : DepositTree

structure VerifiedDepositedEventGroup where
  events : List VerifiedDepositEvent
  startBlock : ℕ
  endBlock : ℕ

/-- How an update ends when it does not throw: it returns, or it exits the process. -/
inductive Finish where
  | returned
  | exited
  deriving DecidableEq

/-- `DEPOSIT_EVENTS_STEP` with its default. -/
def depositEventsStep : (chainId : ℕ) → ℕ
  | 1 => 1000
  | 17000 => 50
  | 560048 => 50
  | _ => 1000

/-- The ranges of `for (block = first; block <= last; block += step)`: from `block` to
`min(last, block + step - 1)`. -/
def chunks (first last step : ℕ) : List (ℕ × ℕ) :=
  (List.range' first ((last + step - first) / step) step).map fun block =>
    (block, min last (block + step - 1))

theorem chunks_of_lt {first last : ℕ} (step : ℕ) (hstep : 0 < step) (h : last < first) :
    chunks first last step = [] := by
  have hlen : (last + step - first) / step = 0 := Nat.div_eq_of_lt (by omega)
  simp [chunks, hlen]

theorem chunks_of_le {first last : ℕ} (step : ℕ) (hstep : 0 < step) (h : first ≤ last) :
    chunks first last step = (first, min last (first + step - 1)) ::
      chunks (min last (first + step - 1) + 1) last step := by
  have hlen : (last + step - first) / step = (last - first) / step + 1 := by
    rw [show last + step - first = last - first + step by omega, Nat.add_div_right _ hstep]
  have hrest : chunks (min last (first + step - 1) + 1) last step = chunks (first + step) last step := by
    by_cases hlast : last ≤ first + step - 1
    · rw [min_eq_left hlast, chunks_of_lt step hstep (by omega), chunks_of_lt step hstep (by omega)]
    · rw [min_eq_right (by omega), show first + step - 1 + 1 = first + step by omega]
  rw [hrest, chunks, chunks, hlen, List.range'_succ, List.map_cons,
    show last + step - (first + step) = last - first by omega]

def sortEventsByDepositCount (events : List VerifiedDepositEvent) : List VerifiedDepositEvent :=
  events.insertionSort fun a b => a.depositCount ≤ b.depositCount

namespace Registry

variable (C : Crypto) (env : Env)

/-- A registry on an opened database, before anything is loaded. -/
def opened (db : Db) : Registry where
  store := DepositsRegistryStore.opened db
  finalizedTree := DepositTree.new C

def onStore {α : Type} (m : Service DepositsRegistryStore α) : Service Registry α :=
  Service.zoom (·.store) (fun store registry => { registry with store }) m

def onTree {α : Type} (m : Service DepositTree α) : Service Registry α :=
  Service.zoom (·.finalizedTree) (fun finalizedTree registry => { registry with finalizedTree }) m

/-! ## The integrity checker -/

def putEventsToTree : List VerifiedDepositEvent → Service DepositTree Unit
  | [] => return ()
  | event :: events => do
    let insertionIsMade ← DepositTree.insert C event.depositDataRoot event.depositCount
    if !insertionIsMade then throw "Problem found while forming deposit tree with event"
    putEventsToTree events

def putFinalizedEvents (eventsCache : List VerifiedDepositEvent) : Service Registry Unit :=
  onTree (putEventsToTree C eventsCache)

def putLatestEvents (eventsCache : List VerifiedDepositEvent) : Service Registry DepositTree := do
  let clone := (← get).finalizedTree.clone C
  let (_, clone) ← Service.call (Service.runOn (putEventsToTree C eventsCache) clone)
  return clone

def checkRoot (blockHash : String) (tree : DepositTree) : Except String Bool := do
  let localRoot ← tree.getRoot C
  let remoteRoot ← env.getDepositRoot blockHash
  return localRoot = remoteRoot

/-- The verdict, and the events as the in-place sort leaves them in the caller's array. -/
def checkLatestRoot (blockHash : String) (eventsCache : List VerifiedDepositEvent) :
    Service Registry (Bool × List VerifiedDepositEvent) := do
  let eventsCache := sortEventsByDepositCount eventsCache
  let tree ← putLatestEvents C eventsCache
  let isRootValid ← Service.call (checkRoot C env blockHash tree)
  return (isRootValid, eventsCache)

def checkFinalizedRoot (blockHash : String) : Service Registry Bool := do
  Service.call (checkRoot C env blockHash (← get).finalizedTree)

/-! ## The sanity checker -/

def findReorganizedEvent (events : List VerifiedDepositEvent) (blockNumber : ℕ)
    (blockHash : String) : Option VerifiedDepositEvent :=
  events.find? fun event => event.blockNumber = blockNumber ∧ event.blockHash ≠ blockHash

/-- `verifyCacheBlock`. -/
def validateCacheBlock (cachedEvents : VerifiedDepositEventsCache) (currentBlock : ℕ) : Bool :=
  currentBlock ≥ cachedEvents.headers.endBlock

def addEventGroupToIndex (events : List VerifiedDepositEvent) : Service Registry Unit := do
  if events = [] then return ()
  putFinalizedEvents C events
  -- the root is computed for the log
  let _ ← Service.call ((← get).finalizedTree.getRoot C)

/-- The verdict, and the events as the caller sees them afterwards. -/
def verifyFreshEvents (currentBlockHash : String) (freshEvents : List VerifiedDepositEvent) :
    Service Registry (Bool × List VerifiedDepositEvent) := do
  match freshEvents.getLast? with
  | none =>
    let isDepositRootMatches ← checkFinalizedRoot C env currentBlockHash
    return (isDepositRootMatches, freshEvents)
  | some lastEvent =>
    if (findReorganizedEvent freshEvents lastEvent.blockNumber lastEvent.blockHash).isSome then
      return (false, freshEvents)
    else checkLatestRoot C env currentBlockHash freshEvents

/-! ## The service -/

def getDeploymentBlockByNetwork : Except String ℕ :=
  match deploymentBlockNetwork env.chainId with
  | some address => .ok address
  | none => .error ("Chain " ++ toString env.chainId ++ " is not supported")

def getCachedEvents : Service Registry VerifiedDepositEventsCache := do
  let cache := (← get).store.cache
  let deploymentBlock ← Service.call (getDeploymentBlockByNetwork env)
  return { cache with headers := {
    startBlock := max cache.headers.startBlock deploymentBlock
    endBlock := max cache.headers.endBlock deploymentBlock } }

/-- The body of the loop of `updateEventsCache`. -/
def updateChunk (headers : VerifiedDepositEventsCacheHeaders) (chunkStartBlock chunkToBlock : ℕ) :
    Service Registry (List VerifiedDepositEvent) := do
  let chunkEvents ← Service.call (env.fetchEventsFallOver chunkStartBlock chunkToBlock)
  let sortedEvents := sortEventsByDepositCount chunkEvents
  addEventGroupToIndex C sortedEvents
  onStore (DepositsRegistryStore.insertEventsCacheBatch env.disk sortedEvents
    { headers with endBlock := chunkToBlock })
  return sortedEvents

/-- The loop of `updateEventsCache`; the result is the last indexed event. -/
def updateChunks (headers : VerifiedDepositEventsCacheHeaders) :
    List (ℕ × ℕ) → Option VerifiedDepositEvent → Service Registry (Option VerifiedDepositEvent)
  | [], lastIndexedEvent => return lastIndexedEvent
  | (chunkStartBlock, chunkToBlock) :: rest, lastIndexedEvent => do
    let sortedEvents ← updateChunk C env headers chunkStartBlock chunkToBlock
    updateChunks headers rest (sortedEvents.getLast?.or lastIndexedEvent)

/-- The end of `updateEventsCache`, after the loop. -/
def finishUpdate (finalizedBlockHash : String) (lastIndexedEvent : Option VerifiedDepositEvent) :
    Service Registry Finish := do
  let isRootValid ← checkFinalizedRoot C env finalizedBlockHash
  if isRootValid then
    match lastIndexedEvent with
    | some event => onStore (DepositsRegistryStore.insertLastValidEvent env.disk event)
    | none => pure ()
    return .returned
  else
    onStore (DepositsRegistryStore.clearFromLastValidEvent env.disk)
    return .exited

def updateEventsCache : Service Registry Finish := do
  let (finalizedBlockNumber, finalizedBlockHash) ← Service.call env.finalizedBlock
  let initialCache ← getCachedEvents env
  let firstNotCachedBlock := initialCache.headers.endBlock + 1
  if !validateCacheBlock initialCache finalizedBlockNumber then return .returned
  else
    let lastIndexedEvent ← updateChunks C env initialCache.headers
      (chunks firstNotCachedBlock finalizedBlockNumber (depositEventsStep env.chainId)) none
    finishUpdate C env finalizedBlockHash lastIndexedEvent

/-- The start of the registry, up to its first update. -/
def start : Service Registry Unit := do
  onStore (DepositsRegistryStore.initializeStore env.disk)
  let cachedEvents := (← get).store.cache
  onTree (putEventsToTree C cachedEvents.data)

/-- `initialize` of the service. -/
def initializeRegistry : Service Registry Finish := do
  start C env
  updateEventsCache C env

def getAllDepositedEvents (blockNumber : ℕ) (blockHash : String) :
    Service Registry VerifiedDepositedEventGroup := do
  let cachedEvents ← getCachedEvents env
  if !validateCacheBlock cachedEvents blockNumber then
    throw ("Deposit events cache is newer than the current block " ++ toString blockNumber)
  let firstNotCachedBlock := cachedEvents.headers.endBlock + 1
  let freshEvents ← Service.call (env.fetchEventsFallOver firstNotCachedBlock blockNumber)
  let (isValid, freshEvents) ← verifyFreshEvents C env blockHash freshEvents
  if !isValid then throw ("Integrity check failed on block " ++ toString blockNumber)
  return {
    events := cachedEvents.data ++ freshEvents
    startBlock := cachedEvents.headers.startBlock
    endBlock := blockNumber }

def getDepositRoot (blockHash : String) : Except String String := env.getDepositRoot blockHash

end Registry

end CouncilDaemon
