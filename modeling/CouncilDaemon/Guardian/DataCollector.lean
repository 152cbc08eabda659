import CouncilDaemon.Guardian.Duplicates
import CouncilDaemon.Guardian.KeysValidation
import CouncilDaemon.Lib.InsertionMap

/-!
# Keys of the staking modules

In a cycle the guardian collects the vetted unused keys of each module, looks for duplicates among
all keys, for deposits of the module's keys with other credentials and for invalid signatures, and
sends a deposit message for the modules in which it found nothing (`handleDeposit`).
-/

namespace CouncilDaemon

/-! ## Front-run attempts -/

namespace StakingModuleGuard

structure FrontRunAttempts where
  frontRunKeys : List RegistryKey
  crossTypeKeys : List RegistryKey

def getKeysIntersections (stakingModuleData : StakingModuleData) (blockData : BlockData) :
    List VerifiedDepositEvent :=
  let vettedUnusedKeys := stakingModuleData.vettedUnusedKeys.map (·.key)
  blockData.depositedEvents.events.filter fun event => event.pubkey ∈ vettedUnusedKeys

def getFrontRunAttempts (stakingModuleData : StakingModuleData) (blockData : BlockData)
    (lidoWCSet : List (Option String)) : FrontRunAttempts :=
  let keysIntersections := getKeysIntersections stakingModuleData blockData
  let moduleWC := stakingModuleData.withdrawalCredentials
  let otherWC := keysIntersections.filter fun event => event.valid && some event.wc ≠ moduleWC
  let crossTypePubkeys := (otherWC.filter fun event => some event.wc ∈ lidoWCSet).map (·.pubkey)
  let frontRunPubkeys := (otherWC.filter fun event => some event.wc ∉ lidoWCSet).map (·.pubkey)
  { frontRunKeys := stakingModuleData.vettedUnusedKeys.filter fun k => k.key ∈ frontRunPubkeys
    crossTypeKeys := stakingModuleData.vettedUnusedKeys.filter fun k => k.key ∈ crossTypePubkeys }

end StakingModuleGuard

/-! ## The collector -/

namespace StakingModuleDataCollector

def getModuleVettedUnusedKeys (stakingModuleAddress : String) (lidoKeys : List RegistryKey) :
    List RegistryKey :=
  lidoKeys.filter fun key =>
    !key.used && key.vetted && key.moduleAddress = stakingModuleAddress

def collectStakingModuleData (isModuleDepositsPaused : (stakingModuleId : ℕ) → Except String Bool)
    (stakingModules : List SRModule) (elBlockSnapshot : ELBlockSnapshot) (lidoKeys : List RegistryKey)
    (moduleWCMap : InsertionMap String String) : Except String (List StakingModuleData) :=
  stakingModules.mapM fun stakingModule => do
    let isModuleDepositsPaused ← isModuleDepositsPaused stakingModule.id
    return {
      isModuleDepositsPaused := isModuleDepositsPaused
      withdrawalCredentials := moduleWCMap.get? stakingModule.stakingModuleAddress
      nonce := stakingModule.nonce
      stakingModuleId := stakingModule.id
      stakingModuleAddress := stakingModule.stakingModuleAddress
      blockHash := elBlockSnapshot.blockHash
      lastChangedBlockHash := elBlockSnapshot.lastChangedBlockHash
      vettedUnusedKeys := getModuleVettedUnusedKeys stakingModule.stakingModuleAddress lidoKeys
      duplicatedKeys := []
      invalidKeys := []
      frontRunKeys := []
      crossTypeKeys := []
      unresolvedDuplicatedKeys := [] }

section Check

variable (depositDataCache : ForgetfulCache (List (String × String)) Bool)
  (keyValidator : KeyValidator) (getNetwork : Except String ℕ)

/-- What `checkKeys` does for one module. -/
def checkModuleKeys (stakingModulesData : List StakingModuleData) (duplicatedKeys : Duplicates.DuplicatedKeys)
    (blockData : BlockData) (stakingModuleData : StakingModuleData) :
    Service depositDataCache.State StakingModuleData := do
  let lidoWCSet := stakingModulesData.map (·.withdrawalCredentials)
  let frontRunAttempts := StakingModuleGuard.getFrontRunAttempts stakingModuleData blockData lidoWCSet
  let invalidKeys ← KeysValidation.getInvalidKeys depositDataCache keyValidator getNetwork
    stakingModuleData.vettedUnusedKeys stakingModuleData.withdrawalCredentials
  return {
    stakingModuleData with
    frontRunKeys := frontRunAttempts.frontRunKeys
    crossTypeKeys := frontRunAttempts.crossTypeKeys
    invalidKeys := invalidKeys
    duplicatedKeys := getModuleVettedUnusedKeys stakingModuleData.stakingModuleAddress
      duplicatedKeys.duplicates
    unresolvedDuplicatedKeys := getModuleVettedUnusedKeys stakingModuleData.stakingModuleAddress
      duplicatedKeys.unresolved }

/-- The modules with the keys found in them. -/
def checkKeys
    (getUpdatedSigningKeyEvents : (key : String) → Except String (List SigningKeyEvent))
    (stakingModulesData : List StakingModuleData) (lidoKeys : List RegistryKey)
    (blockData : BlockData) : Service depositDataCache.State (List StakingModuleData) := do
  let duplicatedKeys ← Service.call
    (Duplicates.getDuplicatedKeys getUpdatedSigningKeyEvents lidoKeys)
  stakingModulesData.mapM (checkModuleKeys depositDataCache keyValidator getNetwork
    stakingModulesData duplicatedKeys blockData)

end Check

end StakingModuleDataCollector

/-! ## The decision -/

namespace Guardian

def ignoreDeposits (stakingModuleData : StakingModuleData)
    (hasFrontRunning hasWrongWCType alreadyPausedDeposits : Bool) : Bool :=
  let keysForUnvetting := stakingModuleData.invalidKeys ++ stakingModuleData.frontRunKeys ++
    stakingModuleData.duplicatedKeys ++ stakingModuleData.crossTypeKeys
  keysForUnvetting.length > 0 ||
    stakingModuleData.unresolvedDuplicatedKeys.length > 0 ||
    alreadyPausedDeposits ||
    hasFrontRunning ||
    hasWrongWCType ||
    stakingModuleData.isModuleDepositsPaused

/-- The modules for which `handleDeposit` calls `handleCorrectKeys`. -/
def handleDeposit (stakingModulesData : List StakingModuleData) (blockData : BlockData) :
    List StakingModuleData :=
  stakingModulesData.filter fun stakingModuleData =>
    !ignoreDeposits stakingModuleData blockData.hasFrontRunning blockData.hasWrongWCType
      blockData.alreadyPausedDeposits

/-- A cycle up to the deposit messages: the modules for which one is sent. -/
def depositCycle (depositDataCache : ForgetfulCache (List (String × String)) Bool)
    (keyValidator : KeyValidator) (getNetwork : Except String ℕ)
    (isModuleDepositsPaused : (stakingModuleId : ℕ) → Except String Bool)
    (getUpdatedSigningKeyEvents : (key : String) → Except String (List SigningKeyEvent))
    (stakingModules : List SRModule) (elBlockSnapshot : ELBlockSnapshot)
    (lidoKeys : List RegistryKey) (moduleWCMap : InsertionMap String String)
    (blockData : BlockData) : Service depositDataCache.State (List StakingModuleData) := do
  let stakingModulesData ← Service.call (StakingModuleDataCollector.collectStakingModuleData
    isModuleDepositsPaused stakingModules elBlockSnapshot lidoKeys moduleWCMap)
  let stakingModulesData ← StakingModuleDataCollector.checkKeys depositDataCache keyValidator
    getNetwork getUpdatedSigningKeyEvents stakingModulesData lidoKeys blockData
  return handleDeposit stakingModulesData blockData

end Guardian

end CouncilDaemon
