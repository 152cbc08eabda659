import CouncilDaemon.Guardian.DataCollector
import CouncilDaemon.Guardian.DepositMessages

/-!
# The cycles of the guardian

`handleNewBlock` and the background run of `handleKeys` that it starts, between their awaits. A cycle
finds out the block and the contracts, collects its data under an execution context, and pauses or leaves
the keys to a background run, which unvets, sends the deposit messages and records the block. The next
cycle goes on meanwhile: both use one cached contract, one active wallet and one record of the last
processed block.

What the other services collect and check is an answer to the cycle. Awaits between which nothing of the
state is read or written count as one.
-/

namespace CouncilDaemon

deriving instance DecidableEq for VerifiedDepositedEventGroup, StakingModuleData, BlockData,
  ELBlockSnapshot

namespace Guardian

open Service SecurityService StakingModuleGuard

/-! ## The state -/

structure StateMeta where
  blockHash : String
  blockNumber : ℕ
  deriving DecidableEq

/-- A message is built, a message of a context leaves from a wallet, a block is recorded. -/
inductive CycleEvent where
  | prepared (message : Message)
  | published (context : GuardianExecutionContext) (message : Message) (sender : String)
  | recorded (stateMeta : StateMeta)
  deriving DecidableEq

/-- What the cycles share. `handleNewBlock` and `handleKeys` are the flags of these methods; `history`
has the latest event first. -/
structure CycleState where
  security : SecurityState
  handleNewBlock : OneAtTime := {}
  handleKeys : OneAtTime := {}
  lastProcessedStateMeta : Option StateMeta := none
  lastPingBlock : Option ℕ := none
  lastContractsStateByModuleId : ℕ → Option ContractsState := fun _ => none
  history : List CycleEvent := []

/-- A method of the security service. -/
def onSecurity {α : Type} (m : Service SecurityState α) : Service CycleState α :=
  Service.zoom CycleState.security (fun security s => { s with security := security }) m

def record (event : CycleEvent) : Service CycleState Unit :=
  modify fun s => { s with history := event :: s.history }

/-! ## Messages -/

/-- A message to sign and to send. -/
inductive MessageJob where
  | pause (blockData : BlockData)
  | unvet (stakingModuleData : StakingModuleData) (blockData : BlockData)
      (chunk : Unvetting.UnvetData)
  | deposit (stakingModuleData : StakingModuleData) (blockData : BlockData)

namespace MessageJob

def blockData : MessageJob → BlockData
  | pause blockData => blockData
  | unvet _ blockData _ => blockData
  | deposit _ blockData => blockData

def context (job : MessageJob) : GuardianExecutionContext := job.blockData.guardianContext

def request : MessageJob → SignRequest
  | pause blockData => .pause blockData.blockNumber blockData.blockHash
  | unvet stakingModuleData blockData chunk =>
    .unvet stakingModuleData.nonce blockData.blockNumber blockData.blockHash
      stakingModuleData.stakingModuleId chunk.operatorIds chunk.vettedKeysByOperator
  | deposit stakingModuleData blockData =>
    .deposit blockData.depositRoot stakingModuleData.nonce blockData.blockNumber blockData.blockHash
      stakingModuleData.stakingModuleId

def message (signature : Signature) : MessageJob → Message
  | pause blockData => .pause {
      guardianAddress := blockData.guardianAddress
      guardianIndex := blockData.guardianIndex
      blockNumber := blockData.blockNumber
      blockHash := blockData.blockHash
      signature := signature
      dsmVersion := some blockData.guardianContext.dsmVersion }
  | unvet stakingModuleData blockData chunk => .unvet {
      nonce := stakingModuleData.nonce
      blockNumber := blockData.blockNumber
      blockHash := blockData.blockHash
      guardianAddress := blockData.guardianAddress
      guardianIndex := blockData.guardianIndex
      stakingModuleId := stakingModuleData.stakingModuleId
      operatorIds := chunk.operatorIds
      vettedKeysByOperator := chunk.vettedKeysByOperator
      signature := signature
      dsmVersion := some blockData.guardianContext.dsmVersion }
  | deposit stakingModuleData blockData =>
    .deposit (depositMessage stakingModuleData blockData signature)

/-- The transaction that goes out beside the message. -/
def transaction (signature : Signature) : MessageJob → Option DirectCall
  | pause blockData => some (.pauseDeposits blockData.blockNumber signature)
  | unvet stakingModuleData blockData chunk =>
    if blockData.walletBalanceCritical then none
    else some (.unvetSigningKeys ⟨stakingModuleData.nonce, blockData.blockNumber, blockData.blockHash,
      stakingModuleData.stakingModuleId, chunk.operatorIds, chunk.vettedKeysByOperator⟩ signature)
  | deposit _ _ => none

end MessageJob

/-- A call of `sendMessageFromGuardian` that waits: for the topic and the connection, for the publication,
or for nothing, when the guardian is not in the list. -/
inductive PublishThread where
  | waiting (context : GuardianExecutionContext) (message : Message)
  | sending
  | skipped

/-- A job that waits: for the prefix, which it reads from `contract`, for the return of the signature, or
in `sendMessageFromGuardian`. -/
inductive MessageThread where
  | signing (job : MessageJob) (contract : String)
  | signed (job : MessageJob) (signature : Signature)
  | publishing (job : MessageJob) (thread : PublishThread)

inductive MessageAnswer where
  | messagePrefix (answer : Except String String)
  | connected (answer : Except String Unit)
  | published (answer : Except String Unit)
  | settled

def sendMessageFromGuardian (context : GuardianExecutionContext) (messageData : Message) :
    PublishThread :=
  if messageData.guardianIndex = -1 then .skipped else .waiting context messageData

/-- The wallet is picked when the transport is connected. -/
def PublishThread.resume (deps : SecurityDeps) : PublishThread → MessageAnswer →
    Option (Service CycleState (Option PublishThread))
  | .waiting context message, .connected answer => some do
    Service.call answer
    let wallet ← onSecurity (WalletService.wallet deps)
    record (.published context message wallet.address)
    return some .sending
  | .sending, .published answer => some do
    Service.call answer
    return none
  | .skipped, .settled => some (return none)
  | _, _ => none

/-- A signing method up to the read of the prefix. -/
def MessageJob.sign (job : MessageJob) : Service CycleState MessageThread := do
  let thread ← onSecurity (getMessagePrefix job.request job.context)
  return .signing job thread.contract

def handlePause (blockData : BlockData) : Service CycleState MessageThread :=
  (MessageJob.pause blockData).sign

def processUnvetting (stakingModuleData : StakingModuleData) (blockData : BlockData)
    (chunk : Unvetting.UnvetData) : Service CycleState MessageThread :=
  (MessageJob.unvet stakingModuleData blockData chunk).sign

def handleCorrectKeys (blockData : BlockData) (stakingModuleData : StakingModuleData) :
    Service CycleState (Option MessageThread) := do
  let s ← get
  let currentContractState := contractState stakingModuleData blockData
  let lastContractsState := s.lastContractsStateByModuleId stakingModuleData.stakingModuleId
  if isSameContractsStates (some currentContractState) lastContractsState then return none
  let thread ← (MessageJob.deposit stakingModuleData blockData).sign
  return some thread

/-- Behind the signature: the transaction goes out, and the message is built and passed on. -/
def MessageJob.send (deps : SecurityDeps) (job : MessageJob) (signature : Signature) :
    Service CycleState (MessageThread × Option TransactionThread) := do
  let transaction ← (job.transaction signature).elim (pure none) fun call =>
    onSecurity (callTransaction deps job.context call)
  record (.prepared (job.message signature))
  return (.publishing job (sendMessageFromGuardian job.context (job.message signature)), transaction)

/-- Behind the publication: the contract state of a deposit message is remembered. -/
def MessageJob.remember : MessageJob → Service CycleState Unit
  | deposit stakingModuleData blockData => modify fun s => { s with
      lastContractsStateByModuleId := Function.update s.lastContractsStateByModuleId
        stakingModuleData.stakingModuleId (some (contractState stakingModuleData blockData)) }
  | _ => return

/-- The next wait of a job, if there is one, and that of the transaction it has sent. -/
def MessageThread.resume (deps : SecurityDeps) : MessageThread → MessageAnswer →
    Option (Service CycleState (Option MessageThread × Option TransactionThread))
  | .signing job contract, .messagePrefix answer => some do
    let signature ← onSecurity (SignThread.resume deps ⟨job.request, job.context, contract⟩ answer)
    return (some (.signed job signature), none)
  | .signed job signature, .settled => some do
    let r ← job.send deps signature
    return (some r.1, r.2)
  | .publishing job thread, answer => do
    let m ← thread.resume deps answer
    return do
      match ← m with
      | some thread => return (some (.publishing job thread), none)
      | none =>
        job.remember
        return (none, none)
  | _, _ => none

/-! ## Threads -/

/-- What the collectors return for a block, the context apart. -/
structure CollectedData where
  depositRoot : String
  depositedEvents : VerifiedDepositedEventGroup
  alreadyPausedDeposits : Bool
  hasFrontRunning : Bool
  hasWrongWCType : Bool
  walletBalanceCritical : Bool
  stakingModulesData : List StakingModuleData

def CollectedData.blockData (data : CollectedData) (snapshot : ELBlockSnapshot)
    (context : GuardianExecutionContext) : BlockData where
  blockNumber := snapshot.blockNumber
  blockHash := snapshot.blockHash
  depositRoot := data.depositRoot
  depositedEvents := data.depositedEvents
  guardianContext := context
  guardianAddress := context.guardianAddress
  guardianIndex := context.guardianIndex
  securityVersion := context.dsmVersion
  alreadyPausedDeposits := data.alreadyPausedDeposits
  hasFrontRunning := data.hasFrontRunning
  hasWrongWCType := data.hasWrongWCType
  walletBalanceCritical := data.walletBalanceCritical

/-- Where the body of `handleNewBlock` waits. -/
inductive NewBlockStage where
  /-- For the modules and their block. -/
  | modules
  /-- For the keys, and the addresses of the contracts. -/
  | keys (snapshot : ELBlockSnapshot)
  /-- For the other contracts, the deposits and the withdrawal credentials. -/
  | preparing (snapshot : ELBlockSnapshot)
  /-- For the context and the other data of the block. -/
  | collecting (snapshot : ELBlockSnapshot) (context : ContextThread)
  | collected (snapshot : ELBlockSnapshot) (context : GuardianExecutionContext)
  | pausing (thread : MessageThread)

/-- The arguments of `handleKeys`, the keys apart. -/
structure KeysRun where
  stakingModulesData : List StakingModuleData
  blockData : BlockData

/-- Where the body of `handleKeys` waits. -/
inductive KeysStage where
  | checking (run : KeysRun)
  | gettingMax (run : KeysRun) (stakingModuleData : StakingModuleData)
  | unvetting (run : KeysRun) (thread : MessageThread)
  /-- For the deposit messages of the modules. -/
  | depositing (run : KeysRun) (messages : List MessageThread)

/-- The methods that execute one at a time. -/
inductive CycleMethod where
  | handleNewBlock
  | handleKeys
  deriving DecidableEq

/-- What waits. A body is `inTime` until its timeout, after which its end takes no flag down; `leaving` is
a call whose body has ended. `context` and `message` go on after the promise that waited for them and for
others was rejected, `ping` and `transaction` are not waited for. -/
inductive CycleThread where
  | newBlock (inTime : Bool) (stage : NewBlockStage)
  | keys (inTime : Bool) (stage : KeysStage)
  | leaving (method : CycleMethod)
  | context (thread : ContextThread)
  | message (thread : MessageThread)
  | ping (thread : PublishThread)
  | transaction (thread : TransactionThread)

inductive CycleAnswer where
  | modules (answer : Except String ELBlockSnapshot)
  | dsmAddress (answer : Except String String)
  | ready (answer : Except String Unit)
  | context (answer : ContextAnswer)
  /-- A promise awaited beside the context is rejected. -/
  | rejected
  | collected (answer : Except String CollectedData)
  | checkedKeys (answer : Except String (List StakingModuleData))
  | maxOperators (answer : Except String ℕ)
  | message (answer : MessageAnswer)
  | deposit (index : ℕ) (answer : MessageAnswer)
  | transaction (answer : TransactionAnswer)
  | settled
  | timeout

/-- What is left when a body ends. -/
def ended (method : CycleMethod) (inTime : Bool) : List CycleThread :=
  if inTime then [.leaving method] else []

def CycleMethod.takeDown : CycleMethod → Service CycleState Unit
  | handleNewBlock => modify fun s => { s with handleNewBlock := s.handleNewBlock.leave none }
  | handleKeys => modify fun s => { s with handleKeys := s.handleKeys.leave none }

/-! ## The background run -/

def handleKeys (stakingModulesData : List StakingModuleData) (blockData : BlockData) :
    Service CycleState (List CycleThread) := do
  let s ← get
  if s.handleKeys.busy none then return []
  set { s with handleKeys := s.handleKeys.enter none }
  return [.keys true (.checking ⟨stakingModulesData, blockData⟩)]

def hasInvalidKeys (moduleData : StakingModuleData) : Bool :=
  (Unvetting.collectInvalidKeys moduleData).length > 0

def findFirstInvalidModule (stakingModulesData : List StakingModuleData) :
    Option StakingModuleData :=
  stakingModulesData.find? hasInvalidKeys

/-- `handleDeposit` up to the waits of the modules. -/
def startDeposits (run : KeysRun) : Service CycleState KeysStage := do
  let messages ← (handleDeposit run.stakingModulesData run.blockData).mapM
    (handleCorrectKeys run.blockData)
  return .depositing run (messages.filterMap id)

/-- `handleUnvetting`, and behind it `handleDeposit`, up to the next wait. -/
def handleUnvetting (run : KeysRun) : Service CycleState KeysStage := do
  match findFirstInvalidModule run.stakingModulesData with
  | none => startDeposits run
  | some firstInvalidModule =>
    if (Unvetting.collectInvalidKeys firstInvalidModule).length = 0 then startDeposits run
    else return .gettingMax run firstInvalidModule

def guardianPingBlocksPeriod : ℕ := 300

def isPingNeeded (lastPingBlock : Option ℕ) (blockNumber : ℕ) : Bool :=
  lastPingBlock.elim true fun last => last = 0 || last + guardianPingBlocksPeriod ≤ blockNumber

def pingMessage (run : KeysRun) : Message :=
  .ping {
    blockNumber := run.blockData.blockNumber
    guardianIndex := run.blockData.guardianIndex
    guardianAddress := run.blockData.guardianAddress
    stakingModuleIds := run.stakingModulesData.map (·.stakingModuleId)
    dsmVersion := none }

/-- `pingMessageBroker`, which is not waited for. -/
def pingMessageBroker (run : KeysRun) : PublishThread :=
  sendMessageFromGuardian run.blockData.guardianContext (pingMessage run)

/-- The end of `handleKeys`. -/
def finishKeys (run : KeysRun) : Service CycleState (List CycleThread) := do
  let s ← get
  let blockNumber := run.blockData.blockNumber
  let pings := if isPingNeeded s.lastPingBlock blockNumber then [.ping (pingMessageBroker run)] else []
  if isPingNeeded s.lastPingBlock blockNumber then
    modify fun s => { s with lastPingBlock := some blockNumber }
  let newMeta : StateMeta := ⟨run.blockData.blockHash, blockNumber⟩
  modify fun s => { s with lastProcessedStateMeta := some newMeta }
  record (.recorded newMeta)
  return pings

def KeysStage.resume (deps : SecurityDeps) (inTime : Bool) : KeysStage → CycleAnswer →
    Option (Service CycleState (List CycleThread))
  | .checking run, .checkedKeys answer => some do
    let stakingModulesData ← Service.call answer
    let stage ← handleUnvetting { run with stakingModulesData := stakingModulesData }
    return [.keys inTime stage]
  | .gettingMax run stakingModuleData, .maxOperators answer => some do
    let maxOperatorsPerUnvetting ← Service.call answer
    let firstChunk ← Service.call (Unvetting.calculateNewStakingLimit deps.ethers.toEthersUtils
      (Unvetting.collectInvalidKeys stakingModuleData) maxOperatorsPerUnvetting)
    let thread ← processUnvetting stakingModuleData run.blockData firstChunk
    return [.keys inTime (.unvetting run thread)]
  | .unvetting run thread, .message answer => do
    let m ← thread.resume deps answer
    return do
      let r ← m
      let stage ← r.1.elim (startDeposits run) fun next => pure (.unvetting run next)
      return .keys inTime stage :: r.2.toList.map .transaction
  | .depositing run messages, .deposit index answer => do
    let thread ← messages[index]?
    let m ← thread.resume deps answer
    return do
      let r ← m
      return .keys inTime (.depositing run
        (messages.take index ++ (r.1.toList ++ messages.drop (index + 1)))) ::
          r.2.toList.map .transaction
  | .depositing run [], .settled => some do
    let pings ← finishKeys run
    return pings ++ ended .handleKeys inTime
  | _, _ => none

/-- The messages that go on when one of them has failed. -/
def KeysStage.leftBehind : KeysStage → CycleAnswer → List CycleThread
  | .depositing _ messages, .deposit index _ => (messages.eraseIdx index).map .message
  | _, _ => []

/-! ## The cycle -/

/-- `handleNewBlock` up to the modules. -/
def handleNewBlock : Service CycleState (List CycleThread) := do
  let s ← get
  if s.handleNewBlock.busy none then return []
  set { s with handleNewBlock := s.handleNewBlock.enter none }
  return [.newBlock true .modules]

def isNeedToProcessNewState (lastProcessedStateMeta : Option StateMeta) (newMeta : StateMeta) :
    Bool :=
  match lastProcessedStateMeta with
  | none => true
  | some lastMeta =>
    if lastMeta.blockNumber > newMeta.blockNumber then false
    else lastMeta.blockHash ≠ newMeta.blockHash

def NewBlockStage.resume (deps : SecurityDeps) (inTime : Bool) : NewBlockStage → CycleAnswer →
    Option (Service CycleState (List CycleThread))
  | .modules, .modules answer => some do
    let snapshot ← Service.call answer
    let s ← get
    if isNeedToProcessNewState s.lastProcessedStateMeta ⟨snapshot.blockHash, snapshot.blockNumber⟩ then
      return [.newBlock inTime (.keys snapshot)]
    return ended .handleNewBlock inTime
  | .keys snapshot, .dsmAddress answer => some do
    let address ← Service.call answer
    onSecurity (RepositoryService.setDSMContractCache address)
    return [.newBlock inTime (.preparing snapshot)]
  | .preparing snapshot, .ready answer => some do
    Service.call answer
    let context ← onSecurity (getGuardianExecutionContext deps)
    return [.newBlock inTime (.collecting snapshot context)]
  | .collecting snapshot context, .context answer => do
    let m ← context.resume deps answer
    return do
      let next ← onSecurity m
      return [.newBlock inTime (next.elim (.collecting snapshot) (.collected snapshot))]
  | .collecting _ context, .rejected =>
    some (return .context context :: ended .handleNewBlock inTime)
  | .collected snapshot context, .collected answer => some do
    let data ← Service.call answer
    let blockData := data.blockData snapshot context
    if !blockData.alreadyPausedDeposits &&
        (blockData.hasFrontRunning || blockData.hasWrongWCType) then
      let thread ← handlePause blockData
      return [.newBlock inTime (.pausing thread)]
    let keys ← handleKeys data.stakingModulesData blockData
    return keys ++ ended .handleNewBlock inTime
  | .pausing thread, .message answer => do
    let m ← thread.resume deps answer
    return do
      let r ← m
      return r.1.elim (ended .handleNewBlock inTime) (fun next => [.newBlock inTime (.pausing next)]) ++
        r.2.toList.map .transaction
  | _, _ => none

/-- The segment that an answer starts. A body that throws ends; the end of a body is followed by that of
its call, which takes the flag down. -/
def CycleThread.resume (deps : SecurityDeps) : CycleThread → CycleAnswer →
    Option (Service CycleState (List CycleThread))
  | .newBlock true stage, .timeout => some do
    CycleMethod.handleNewBlock.takeDown
    return [.newBlock false stage]
  | .newBlock inTime stage, answer => do
    let m ← stage.resume deps inTime answer
    return tryCatch m fun _ => return ended .handleNewBlock inTime
  | .keys true stage, .timeout => some do
    CycleMethod.handleKeys.takeDown
    return [.keys false stage]
  | .keys inTime stage, answer => do
    let m ← stage.resume deps inTime answer
    return tryCatch m fun _ => return stage.leftBehind answer ++ ended .handleKeys inTime
  | .leaving method, .settled => some do
    method.takeDown
    return []
  | .context thread, .context answer => do
    let m ← thread.resume deps answer
    return do
      let next ← onSecurity m
      return next.elim (fun next => [.context next]) fun _ => []
  | .message thread, .message answer => do
    let m ← thread.resume deps answer
    return do
      let r ← m
      return r.1.toList.map .message ++ r.2.toList.map .transaction
  | .ping thread, .message answer => do
    let m ← thread.resume deps answer
    return do
      let next ← m
      return next.toList.map .ping
  | .transaction thread, .transaction answer => do
    let m ← thread.resume answer
    return do
      let next ← onSecurity m
      return next.toList.map .transaction
  | _, _ => none

inductive CycleCall where
  | handleNewBlock

/-- The cycles in any interleaving. -/
def cycleProgram (deps : SecurityDeps) :
    Program CycleState CycleCall CycleThread CycleAnswer where
  start _ := Program.segment handleNewBlock
  resume thread answer s := (thread.resume deps answer).map fun m => Program.segment m s

/-- A daemon that has processed no block, after its start. -/
def started (security : SecurityState) : Configuration CycleState CycleThread :=
  ⟨{ security := security }, []⟩

/-! ## Sample cycles -/

namespace CycleSample

/-- A hash for each of the last ten blocks. -/
def blockHash (blockNumber : ℕ) : String :=
  String.ofList ('0' :: 'x' :: List.replicate 64 (Nat.digitChar (blockNumber % 10)))

def snapshot (blockNumber : ℕ) : ELBlockSnapshot :=
  ⟨blockNumber, blockHash blockNumber, DepositMessagesSample.stakingModuleData.lastChangedBlockHash⟩

/-- One module, without a problem. -/
def collected : CollectedData where
  depositRoot := "0x6666666666666666666666666666666666666666666666666666666666666666"
  depositedEvents := ⟨[], 0, 17⟩
  alreadyPausedDeposits := false
  hasFrontRunning := false
  hasWrongWCType := false
  walletBalanceCritical := false
  stakingModulesData := [DepositMessagesSample.stakingModuleData]

/-- What is answered on the way to a context of the fourth version. -/
def legacyAnswers : List ContextAnswer :=
  [.version (.ok 4), .guardians (.ok ["0x1111111111111111111111111111111111111111"])]

/-- What is answered on the way to a context of the fifth version with a delegate. -/
def delegateAnswers (delegate : String) : List ContextAnswer :=
  [.version (.ok 5), .code (.ok "0x60"),
    .delegation (.ok ⟨delegate, false, true, ["0x3333333333333333333333333333333333333333"]⟩)]

/-- A cycle in `place`, up to its context. -/
def contextMoves (place blockNumber : ℕ) (dsmAddress : String) (answers : List ContextAnswer) :
    List (Move CycleCall CycleAnswer) :=
  [.start .handleNewBlock, .resume place (.modules (.ok (snapshot blockNumber))),
    .resume place (.dsmAddress (.ok dsmAddress)), .resume place (.ready (.ok ()))] ++
  answers.map fun answer => .resume place (.context answer)

/-- A cycle in `place`, up to the start of its background run, which stands there then. -/
def cycleMoves (place blockNumber : ℕ) (dsmAddress : String) (answers : List ContextAnswer) :
    List (Move CycleCall CycleAnswer) :=
  contextMoves place blockNumber dsmAddress answers ++
    [.resume place (.collected (.ok collected)), .resume (place + 1) .settled]

/-- The keys are checked, and the deposit message is signed, built and published. -/
def depositMoves (place : ℕ) : List (Move CycleCall CycleAnswer) :=
  [.resume place (.checkedKeys (.ok [DepositMessagesSample.stakingModuleData])),
    .resume place (.deposit 0 (.messagePrefix (.ok PayloadsSample.lowerPrefix))),
    .resume place (.deposit 0 .settled), .resume place (.deposit 0 (.connected (.ok ()))),
    .resume place (.deposit 0 (.published (.ok ())))]

def firstContract : String := "0x4444444444444444444444444444444444444444"

def secondContract : String := "0x5555555555555555555555555555555555555555"

/-- The daemon after its start. -/
def start : Configuration CycleState CycleThread :=
  started { dsmContract := some firstContract, activeWallet := none }

end CycleSample

end Guardian

end CouncilDaemon
