import CouncilDaemon.Security.Strategy

/-!
# Messages

The messages of the guardian, as they are handed to the message broker.
-/

namespace CouncilDaemon

inductive MessageType where
  | pause
  | deposit
  | ping
  | unvet
  deriving DecidableEq

structure MessageDeposit where
  depositRoot : String
  nonce : ℕ
  blockNumber : ℕ
  blockHash : String
  guardianAddress : String
  guardianIndex : ℤ
  signature : Signature
  stakingModuleId : ℕ
  dsmVersion : Option ℕ
  deriving DecidableEq

structure MessagePause where
  guardianAddress : String
  guardianIndex : ℤ
  blockNumber : ℕ
  blockHash : String
  signature : Signature
  dsmVersion : Option ℕ
  deriving DecidableEq

structure MessageUnvet where
  nonce : ℕ
  blockNumber : ℕ
  blockHash : String
  guardianAddress : String
  guardianIndex : ℤ
  stakingModuleId : ℕ
  operatorIds : String
  vettedKeysByOperator : String
  signature : Signature
  dsmVersion : Option ℕ
  deriving DecidableEq

/-- The guardian sends its pings without a version. -/
structure MessagePing where
  blockNumber : ℕ
  guardianIndex : ℤ
  guardianAddress : String
  stakingModuleIds : List ℕ
  dsmVersion : Option ℕ
  deriving DecidableEq

inductive Message where
  | deposit (message : MessageDeposit)
  | pause (message : MessagePause)
  | unvet (message : MessageUnvet)
  | ping (message : MessagePing)
  deriving DecidableEq

namespace Message

def type : Message → MessageType
  | deposit _ => .deposit
  | pause _ => .pause
  | unvet _ => .unvet
  | ping _ => .ping

/-- A ping has no signature. -/
def signature : Message → Option Signature
  | deposit message => some message.signature
  | pause message => some message.signature
  | unvet message => some message.signature
  | ping _ => none

def guardianIndex : Message → ℤ
  | deposit message => message.guardianIndex
  | pause message => message.guardianIndex
  | unvet message => message.guardianIndex
  | ping message => message.guardianIndex

def dsmVersion : Message → Option ℕ
  | deposit message => message.dsmVersion
  | pause message => message.dsmVersion
  | unvet message => message.dsmVersion
  | ping message => message.dsmVersion

end Message

/-- The name and the version of the app, which every message carries. -/
structure MessageApp where
  version : String
  name : String
  deriving DecidableEq

structure MessageWithMeta where
  message : Message
  app : MessageApp
  deriving DecidableEq

end CouncilDaemon
