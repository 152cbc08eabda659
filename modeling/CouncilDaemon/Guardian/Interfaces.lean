import CouncilDaemon.Deposits.Registry

/-!
# Keys, events, modules and blocks

The records of the Keys API and of the signing keys registry that the guardian reads, and those it
works with in one cycle.
-/

namespace CouncilDaemon

/-- A key of an operator of a staking module, as the Keys API returns it. -/
structure RegistryKey where
  key : String
  depositSignature : String
  operatorIndex : ℕ
  used : Bool
  index : ℕ
  moduleAddress : String
  vetted : Bool
  deriving DecidableEq

/-- A `SigningKeyAdded` event. -/
structure SigningKeyEvent where
  operatorIndex : ℕ
  key : String
  moduleAddress : String
  logIndex : ℕ
  blockNumber : ℕ
  blockHash : String
  deriving DecidableEq

/-- A staking module, as the Keys API returns it. -/
structure SRModule where
  nonce : ℕ
  id : ℕ
  stakingModuleAddress : String

structure ELBlockSnapshot where
  blockNumber : ℕ
  blockHash : String
  lastChangedBlockHash : String

structure StakingModuleData where
  blockHash : String
  vettedUnusedKeys : List RegistryKey
  nonce : ℕ
  stakingModuleId : ℕ
  stakingModuleAddress : String
  lastChangedBlockHash : String
  duplicatedKeys : List RegistryKey
  invalidKeys : List RegistryKey
  crossTypeKeys : List RegistryKey
  frontRunKeys : List RegistryKey
  unresolvedDuplicatedKeys : List RegistryKey
  /-- `undefined` when the module has none. -/
  withdrawalCredentials : Option String
  isModuleDepositsPaused : Bool

structure GuardianExecutionContext where
  dsmAddress : String
  dsmVersion : ℕ
  delegateAddress : String
  guardianAddress : String
  guardianIndex : ℤ
  mode : String

structure BlockData where
  blockNumber : ℕ
  blockHash : String
  depositRoot : String
  depositedEvents : VerifiedDepositedEventGroup
  guardianContext : GuardianExecutionContext
  guardianAddress : String
  guardianIndex : ℤ
  securityVersion : ℕ
  alreadyPausedDeposits : Bool
  hasFrontRunning : Bool
  hasWrongWCType : Bool
  walletBalanceCritical : Bool

end CouncilDaemon
