import CouncilDaemon.SigningKeys.Store

/-!
# The signing keys registry

`updateEventsCache` deletes the cache when the list of staking modules has changed, then reads the
`SigningKeyAdded` events up to the finalized block in chunks and writes each chunk to the store with
its header. `getUpdatedSigningKeyEvents` adds the events since then to the stored events of a key.

Whatever the node and the disk answer during one call is a `SigningKeysEnv`.
-/

namespace CouncilDaemon

/-! ## Data -/

/-- What the node and the disk answer during a call. -/
structure SigningKeysEnv where
  /-- The chain id. -/
  getNetwork : Except String ℕ
  /-- The number of the finalized block. -/
  getBlock : Except String ℕ
  fetchEventsFallOver : (startBlock endBlock : ℕ) → (stakingModulesAddresses : List String) →
    Except String (List SigningKeyEvent)
  disk : Disk

structure SigningKeyEventsGroup where
  events : List SigningKeyEvent
  startBlock : ℕ
  endBlock : ℕ

structure SigningKeyEventsGroupWithStakingModules extends SigningKeyEventsGroup where
  stakingModulesAddresses : List String

/-- `EARLIEST_MODULE_DEPLOYMENT_BLOCK_NETWORK`: Mainnet, Holesky, Hoodi and the local devnet. -/
def earliestModuleDeploymentBlockNetwork : (chainId : ℕ) → Option ℕ
  | 1 => some 11473216
  | 17000 => some 0
  | 560048 => some 0
  | 32382 => some 0
  | _ => none

/-- `FETCHING_EVENTS_STEP`. -/
def fetchingEventsStep : ℕ := 10000

namespace SigningKeysRegistry

variable (env : SigningKeysEnv)

/-- `fetchEventsFallOver` of the fetcher: the group has the block range it was asked for. -/
def fetchEventsFallOver (startBlock endBlock : ℕ) (stakingModulesAddresses : List String) :
    Except String SigningKeyEventsGroup := do
  let events ← env.fetchEventsFallOver startBlock endBlock stakingModulesAddresses
  return { events, startBlock, endBlock }

/-! ## The sanity checker -/

def verifyCacheBlock (cachedEvents : SigningKeyEventsCache) (currentBlock : ℕ) : Bool :=
  currentBlock ≥ cachedEvents.headers.endBlock

def findReorganizedEvent (events : List SigningKeyEvent) (blockNumber : ℕ) (blockHash : String) :
    Option SigningKeyEvent :=
  events.find? fun event => event.blockNumber = blockNumber ∧ event.blockHash ≠ blockHash

def checkEventsBlockHash (events : List SigningKeyEvent) (blockNumber : ℕ) (blockHash : String) :
    Bool :=
  (findReorganizedEvent events blockNumber blockHash).isNone

/-! ## The service -/

def getDeploymentBlockByNetwork : Except String ℕ := do
  let chainId ← env.getNetwork
  match earliestModuleDeploymentBlockNetwork chainId with
  | some block => return block
  | none => throw ("Chain " ++ toString chainId ++ " is not supported")

def wasStakingModulesListUpdated (previousModules currentModules : List String) : Bool :=
  let modulesWereDeleted := previousModules.any fun sm => !currentModules.contains sm
  let modulesWereAdded := currentModules.any fun module => !previousModules.contains module
  modulesWereDeleted || modulesWereAdded

def stakingModuleListWasUpdated (currentModules : List String) : Service SigningKeysStore Bool := do
  let headers ← SigningKeysStore.getHeader
  return wasStakingModulesListUpdated headers.stakingModulesAddresses currentModules

def getCachedEvents : Service SigningKeysStore SigningKeyEventsCache := do
  let cache ← SigningKeysStore.getEventsCache
  let deploymentBlock ← Service.call (getDeploymentBlockByNetwork env)
  return { cache with headers := { cache.headers with
    startBlock := max cache.headers.startBlock deploymentBlock
    endBlock := max cache.headers.endBlock deploymentBlock } }

/-- The body of the loop of `updateEventsCache`. -/
def updateChunk (headers : SigningKeyEventsCacheHeaders)
    (currentStakingModulesAddresses : List String) (chunkStartBlock chunkToBlock : ℕ) :
    Service SigningKeysStore Unit := do
  let chunkEventGroup ← Service.call
    (fetchEventsFallOver env chunkStartBlock chunkToBlock currentStakingModulesAddresses)
  SigningKeysStore.insertEventsCacheBatch env.disk chunkEventGroup.events { headers with
    stakingModulesAddresses := currentStakingModulesAddresses
    endBlock := chunkEventGroup.endBlock }

/-- The loop of `updateEventsCache`. -/
def updateChunks (headers : SigningKeyEventsCacheHeaders)
    (currentStakingModulesAddresses : List String) :
    List (ℕ × ℕ) → Service SigningKeysStore Unit
  | [] => return ()
  | (chunkStartBlock, chunkToBlock) :: rest => do
    updateChunk env headers currentStakingModulesAddresses chunkStartBlock chunkToBlock
    updateChunks headers currentStakingModulesAddresses rest

def updateEventsCache (currentStakingModulesAddresses : List String) :
    Service SigningKeysStore Unit := do
  let wasUpdated ← stakingModuleListWasUpdated currentStakingModulesAddresses
  if wasUpdated then SigningKeysStore.deleteCache env.disk
  let initialCache ← getCachedEvents env
  let finalizedBlockNumber ← Service.call env.getBlock
  let firstNotCachedBlock := initialCache.headers.endBlock + 1
  if !verifyCacheBlock initialCache finalizedBlockNumber then return ()
  else
    updateChunks env initialCache.headers currentStakingModulesAddresses
      (chunks firstNotCachedBlock finalizedBlockNumber fetchingEventsStep)

def getEventsForOperatorsKeys (keys : List String) :
    Service SigningKeysStore SigningKeyEventsCache :=
  SigningKeysStore.getCachedEvents keys.eraseDups

def getUpdatedSigningKeyEvents (key : String) (blockNumber : ℕ) (blockHash : String) :
    Service SigningKeysStore SigningKeyEventsGroupWithStakingModules := do
  let endBlock := blockNumber
  let cachedEvents ← getEventsForOperatorsKeys [key]
  if !verifyCacheBlock cachedEvents blockNumber then
    throw ("Signing key events cache is newer than the current block: " ++ toString blockNumber)
  let firstNotCachedBlock := cachedEvents.headers.endBlock + 1
  let freshEventGroup ← Service.call (fetchEventsFallOver env firstNotCachedBlock endBlock
    cachedEvents.headers.stakingModulesAddresses)
  let freshEvents := freshEventGroup.events
  if !checkEventsBlockHash freshEvents blockNumber blockHash then
    throw ("Reorganization found on block " ++ toString blockNumber)
  let keyFreshEvents := freshEvents.filter fun event => event.key == key
  return {
    events := cachedEvents.data ++ keyFreshEvents
    stakingModulesAddresses := cachedEvents.headers.stakingModulesAddresses
    startBlock := cachedEvents.headers.startBlock
    endBlock }

end SigningKeysRegistry

end CouncilDaemon
