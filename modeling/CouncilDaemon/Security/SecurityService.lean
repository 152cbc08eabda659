import CouncilDaemon.Common.OneAtTime
import CouncilDaemon.Lib.Interleaving
import CouncilDaemon.Security.Strategy

/-!
# The security service

The methods that find out under which identity the guardian acts, that sign, and that send
transactions to the deposit security module. They share the cached contract of the repository and
the active wallet of the wallet service.

Every method is given by its segments between the awaits. Awaits between which nothing shared is read
or written count as one: a read of a message prefix, for example, is one await, from the moment the
contract is taken from the cache until the method that asked for it goes on.
-/

namespace CouncilDaemon

deriving instance DecidableEq for GuardianExecutionContext

/-! ## Data -/

/-- A wallet, known by its address. -/
structure Wallet where
  address : String
  deriving DecidableEq

/-- What the service is built from: the wallets of the private keys, of which there is always a
first one, and the configured address of the delegation contract. -/
structure SecurityDeps where
  ethers : Ethers
  wallets : List Wallet
  wallets_ne_nil : wallets ≠ []
  DELEGATION_CONTRACT_ADDRESS : Option String
  signDigest : Wallet → (digest : String) → Signature

/-- A message to sign, without the prefix of its kind. -/
inductive SignRequest where
  | deposit (depositRoot : String) (nonce blockNumber : ℕ) (blockHash : String)
      (stakingModuleId : ℕ)
  | pause (blockNumber : ℕ) (blockHash : String)
  | unvet (nonce blockNumber : ℕ) (blockHash : String) (stakingModuleId : ℕ)
      (operatorIds vettedKeysByOperator : String)
  deriving DecidableEq

/-- What leaves the daemon under the keys of a wallet: a signature, over the digest of a request with
the prefix read from `contract`, or a transaction. -/
inductive SecurityEvent where
  | signed (context : GuardianExecutionContext) (contract messagePrefix : String)
      (request : SignRequest) (wallet : Wallet) (digest : String)
  | sent (context : GuardianExecutionContext) (transaction : ContractTransaction)
  deriving DecidableEq

def SecurityEvent.context : SecurityEvent → GuardianExecutionContext
  | signed context _ _ _ _ _ => context
  | sent context _ => context

/-- The address of the wallet that signed or sent. -/
def SecurityEvent.signer : SecurityEvent → String
  | signed _ _ _ _ wallet _ => wallet.address
  | sent _ transaction => transaction.sender

/-- The state the methods share. `dsmContract` is the address of the cached contract; `events` has
the latest event first. -/
structure SecurityState where
  dsmContract : Option String
  activeWallet : Option Wallet
  pauseDeposits : OneAtTime := {}
  unvetSigningKeys : OneAtTime := {}
  events : List SecurityEvent := []
  deriving DecidableEq

def SecurityState.record (event : SecurityEvent) : Service SecurityState Unit :=
  modify fun s => { s with events := event :: s.events }

variable (deps : SecurityDeps)

/-! ## Wallets and contracts -/

namespace WalletService

def firstWallet : Wallet := deps.wallets.head deps.wallets_ne_nil

def wallet : Service SecurityState Wallet := do
  let s ← get
  return s.activeWallet.getD (firstWallet deps)

def selectLegacyWallet : Service SecurityState Unit :=
  modify fun s => { s with activeWallet := some (firstWallet deps) }

def selectDelegateWallet (delegateAddress : String) : Service SecurityState Unit := do
  let normalizedAddress ← Service.call (deps.ethers.getAddress delegateAddress)
  match deps.wallets.find? (·.address = normalizedAddress) with
  | none =>
    throw ("No configured wallet private key matches active delegate " ++ normalizedAddress)
  | some wallet => modify fun s => { s with activeWallet := some wallet }

end WalletService

namespace RepositoryService

def getCachedDSMContract : Service SecurityState String := do
  let s ← get
  match s.dsmContract with
  | none => throw "Not found ABI for key: DSM_ABI"
  | some contract => return contract

/-- The part of `initCachedContracts` that stores the security module's contract. -/
def setDSMContractCache (address : String) : Service SecurityState Unit :=
  modify fun s => { s with dsmContract := some address }

end RepositoryService

namespace SecurityService

open WalletService RepositoryService

def selectWallet (context : GuardianExecutionContext) : Service SecurityState Unit :=
  match (getDsmStrategy deps.ethers (some context.dsmVersion)).signer with
  | .delegate => selectDelegateWallet deps context.delegateAddress
  | .legacy => selectLegacyWallet deps

def getContractWithSigner : Service SecurityState ConnectedContract := do
  let wallet ← wallet deps
  let contract ← getCachedDSMContract
  return { address := contract, signer := wallet.address }

def getDelegationContractWithSigner (context : GuardianExecutionContext) :
    Service SecurityState ConnectedContract := do
  selectWallet deps context
  let wallet ← wallet deps
  return { address := context.guardianAddress, signer := wallet.address }

/-! ## The execution context -/

def dsmContractSupportedVersions : List ℕ := [4, 5]

def toLowerCase (text : String) : String := String.ofList (text.toList.map Char.toLower)

def findGuardianIndex (guardians : List String) (guardianAddress : String) : ℤ :=
  match guardians.findIdx? fun guardian =>
    toLowerCase guardian = toLowerCase guardianAddress with
  | some index => index
  | none => -1

/-- A call of `getGuardianExecutionContext` that waits, with what it knows by then. -/
inductive ContextThread where
  | version (dsmAddress : String)
  | guardians (dsmAddress : String) (dsmVersion : ℕ) (delegateAddress : String)
  | code (dsmAddress : String) (dsmVersion : ℕ) (guardianAddress : String)
  | delegation (dsmAddress : String) (dsmVersion : ℕ) (guardianAddress : String)
  deriving DecidableEq

/-- What the delegation contract and the security module answer at the same time. -/
structure DelegationAnswer where
  effectiveDelegate : String
  terminated : Bool
  supportsErc1271 : Bool
  guardians : List String

inductive ContextAnswer where
  | version (answer : Except String ℕ)
  | guardians (answer : Except String (List String))
  | code (answer : Except String String)
  | delegation (answer : Except String DelegationAnswer)

/-- `getGuardianExecutionContext` up to the version of the contract. -/
def getGuardianExecutionContext : Service SecurityState ContextThread := do
  let contract ← getCachedDSMContract
  let dsmAddress ← Service.call (deps.ethers.getAddress contract)
  let _ ← getContractWithSigner deps
  return .version dsmAddress

/-- `getGuardianExecutionContext` behind the version: on the fifth version the delegation contract
is asked, on the others the guardian list. -/
def contextAtVersion (dsmAddress : String) (currentVersion : ℕ) :
    Service SecurityState ContextThread := do
  if currentVersion ∉ dsmContractSupportedVersions then
    throw "Unsupported DSM contract version found"
  if currentVersion ≠ dsmContractVersion5 then
    selectLegacyWallet deps
    let wallet ← wallet deps
    let delegateAddress ← Service.call (deps.ethers.getAddress wallet.address)
    let _ ← getCachedDSMContract
    return .guardians dsmAddress currentVersion delegateAddress
  match deps.DELEGATION_CONTRACT_ADDRESS with
  | none => throw "DELEGATION_CONTRACT_ADDRESS is required for DSM version 5"
  | some configuredAddress =>
    if deps.ethers.isAddress configuredAddress then
      let guardianAddress ← Service.call (deps.ethers.getAddress configuredAddress)
      return .code dsmAddress currentVersion guardianAddress
    else throw "DELEGATION_CONTRACT_ADDRESS is required for DSM version 5"

def legacyContext (dsmAddress : String) (dsmVersion : ℕ) (delegateAddress : String)
    (guardians : List String) : GuardianExecutionContext where
  dsmAddress := dsmAddress
  dsmVersion := dsmVersion
  delegateAddress := delegateAddress
  guardianAddress := delegateAddress
  guardianIndex := findGuardianIndex guardians delegateAddress
  mode := "legacy-eoa"

/-- The end of `getGuardianExecutionContext` on the fifth version. -/
def contextAtDelegation (dsmAddress : String) (dsmVersion : ℕ) (guardianAddress : String)
    (answer : DelegationAnswer) : Service SecurityState GuardianExecutionContext := do
  if answer.terminated then
    throw ("DelegationContract " ++ guardianAddress ++ " is terminated")
  if answer.effectiveDelegate = zeroAddress then
    throw ("DelegationContract " ++ guardianAddress ++ " has no active delegate")
  let delegateAddress ← Service.call (deps.ethers.getAddress answer.effectiveDelegate)
  if !answer.supportsErc1271 then
    throw ("DelegationContract " ++ guardianAddress ++ " does not support ERC-1271")
  let guardianIndex := findGuardianIndex answer.guardians guardianAddress
  if guardianIndex = -1 then
    throw ("DelegationContract " ++ guardianAddress ++ " is not a DSM guardian")
  selectDelegateWallet deps delegateAddress
  return {
    dsmAddress := dsmAddress
    dsmVersion := dsmVersion
    delegateAddress := delegateAddress
    guardianAddress := guardianAddress
    guardianIndex := guardianIndex
    mode := "edf" }

/-- The segment of `getGuardianExecutionContext` that an answer starts: the call waits again, or
returns the context. -/
def ContextThread.resume : ContextThread → ContextAnswer →
    Option (Service SecurityState (ContextThread ⊕ GuardianExecutionContext))
  | .version dsmAddress, .version answer => some do
    let currentVersion ← Service.call answer
    let next ← contextAtVersion deps dsmAddress currentVersion
    return .inl next
  | .guardians dsmAddress dsmVersion delegateAddress, .guardians answer => some do
    let guardians ← Service.call answer
    return .inr (legacyContext dsmAddress dsmVersion delegateAddress guardians)
  | .code dsmAddress dsmVersion guardianAddress, .code answer => some do
    let code ← Service.call answer
    if code = "0x" then
      throw ("No contract code at DELEGATION_CONTRACT_ADDRESS " ++ guardianAddress)
    let _ ← getCachedDSMContract
    return .inl (.delegation dsmAddress dsmVersion guardianAddress)
  | .delegation dsmAddress dsmVersion guardianAddress, .delegation answer => some do
    let answer ← Service.call answer
    let context ← contextAtDelegation deps dsmAddress dsmVersion guardianAddress answer
    return .inr context
  | _, _ => none

/-! ## Signatures -/

/-- A call of a signing method that waits for the prefix, which it reads from `contract`. -/
structure SignThread where
  request : SignRequest
  context : GuardianExecutionContext
  contract : String
  deriving DecidableEq

/-- A signing method up to the read of the prefix of its kind. -/
def getMessagePrefix (request : SignRequest) (context : GuardianExecutionContext) :
    Service SecurityState SignThread := do
  let contract ← getCachedDSMContract
  return { request := request, context := context, contract := contract }

def signDepositData (depositRoot : String) (nonce blockNumber : ℕ) (blockHash : String)
    (stakingModuleId : ℕ) (context : GuardianExecutionContext) : Service SecurityState SignThread :=
  getMessagePrefix (.deposit depositRoot nonce blockNumber blockHash stakingModuleId) context

def signPauseData (blockNumber : ℕ) (blockHash : String) (context : GuardianExecutionContext) :
    Service SecurityState SignThread :=
  getMessagePrefix (.pause blockNumber blockHash) context

def signUnvetData (nonce blockNumber : ℕ) (blockHash : String) (stakingModuleId : ℕ)
    (operatorIds vettedKeysByOperator : String) (context : GuardianExecutionContext) :
    Service SecurityState SignThread :=
  getMessagePrefix
    (.unvet nonce blockNumber blockHash stakingModuleId operatorIds vettedKeysByOperator) context

/-- What the digest of the request hashes, under the strategy of the context's version. -/
def preimage (messagePrefix : String) (context : GuardianExecutionContext) :
    SignRequest → Except String Bytes
  | .deposit depositRoot nonce blockNumber blockHash stakingModuleId =>
    (getDsmStrategy deps.ethers (some context.dsmVersion)).depositPreimage {
      messagePrefix := messagePrefix
      depositRoot := depositRoot
      nonce := nonce
      blockNumber := blockNumber
      blockHash := blockHash
      stakingModuleId := stakingModuleId
      guardianAddress := some context.guardianAddress }
  | .pause blockNumber _ =>
    (getDsmStrategy deps.ethers (some context.dsmVersion)).pausePreimage {
      messagePrefix := messagePrefix
      blockNumber := blockNumber
      guardianAddress := some context.guardianAddress }
  | .unvet nonce blockNumber blockHash stakingModuleId operatorIds vettedKeysByOperator =>
    (getDsmStrategy deps.ethers (some context.dsmVersion)).unvetPreimage {
      messagePrefix := messagePrefix
      blockNumber := blockNumber
      blockHash := blockHash
      stakingModuleId := stakingModuleId
      nonce := nonce
      operatorIds := operatorIds
      vettedKeysByOperator := vettedKeysByOperator
      guardianAddress := some context.guardianAddress }

/-- A signing method behind the prefix: the wallet is selected and signs at once. -/
def SignThread.resume (thread : SignThread) (answer : Except String String) :
    Service SecurityState Signature := do
  let messagePrefix ← Service.call answer
  selectWallet deps thread.context
  let bytes ← Service.call (preimage deps messagePrefix thread.context thread.request)
  let digest := deps.ethers.keccak256 bytes
  let wallet ← wallet deps
  SecurityState.record
    (.signed thread.context thread.contract messagePrefix thread.request wallet digest)
  return deps.signDigest wallet digest

/-! ## Transactions -/

def getTxDeps (context : GuardianExecutionContext) :
    Service SecurityState (DsmTxDeps SecurityState) := do
  selectWallet deps context
  let dsm ← getContractWithSigner deps
  return {
    dsm := dsm
    delegation := getDelegationContractWithSigner deps context
    dsmAddress := context.dsmAddress }

/-- A direct call of the contract, as the caller passes it. -/
inductive DirectCall where
  | pauseDeposits (pauseBlockNumber : ℕ) (signature : Signature)
  | unvetSigningKeys (params : UnvetTxParams) (signature : Signature)

def DirectCall.send {σ : Type} (strategy : DsmVersionStrategy) (txDeps : DsmTxDeps σ) :
    DirectCall → Service σ ContractTransaction
  | pauseDeposits pauseBlockNumber signature =>
    strategy.sendPause txDeps pauseBlockNumber signature
  | unvetSigningKeys params signature => strategy.sendUnvet txDeps params signature

/-- The transaction of a direct call, as the strategy sends it. -/
def sendTransaction (context : GuardianExecutionContext) (call : DirectCall) :
    Service SecurityState Unit := do
  let txDeps ← getTxDeps deps context
  let transaction ← call.send (getDsmStrategy deps.ethers (some context.dsmVersion)) txDeps
  SecurityState.record (.sent context transaction)

/-- The two methods that send transactions, one at a time; the second for each staking module. -/
inductive TransactionMethod where
  | pauseDeposits
  | unvetSigningKeys (stakingModuleId : ℕ)
  deriving DecidableEq

def DirectCall.method : DirectCall → TransactionMethod
  | pauseDeposits _ _ => .pauseDeposits
  | unvetSigningKeys params _ => .unvetSigningKeys params.stakingModuleId

def TransactionMethod.callId : TransactionMethod → Option ℕ
  | pauseDeposits => none
  | unvetSigningKeys stakingModuleId => some stakingModuleId

def TransactionMethod.flags : TransactionMethod → SecurityState → OneAtTime
  | pauseDeposits, s => s.pauseDeposits
  | unvetSigningKeys _, s => s.unvetSigningKeys

def TransactionMethod.setFlags (flags : OneAtTime) :
    TransactionMethod → SecurityState → SecurityState
  | pauseDeposits, s => { s with pauseDeposits := flags }
  | unvetSigningKeys _, s => { s with unvetSigningKeys := flags }

def TransactionMethod.takeDown (method : TransactionMethod) : Service SecurityState Unit :=
  modify fun s => method.setFlags ((method.flags s).leave method.callId) s

/-- A call of one of them: it waits for the transaction, with its flag raised or, after the timeout,
without it; or it has ended and its flag is about to be taken down. -/
inductive TransactionThread where
  | waiting (method : TransactionMethod)
  | timedOut
  | leaving (method : TransactionMethod)
  deriving DecidableEq

inductive TransactionAnswer where
  | settled
  | timeout
  deriving DecidableEq

/-- A call of one of the two methods, in the decorator. An error of the method ends it, but does not
leave the decorator. -/
def callTransaction (context : GuardianExecutionContext) (call : DirectCall) :
    Service SecurityState (Option TransactionThread) := do
  let s ← get
  if (call.method.flags s).busy call.method.callId then return none
  set (call.method.setFlags ((call.method.flags s).enter call.method.callId) s)
  tryCatch
    (do
      sendTransaction deps context call
      return some (.waiting call.method))
    fun _ => return some (.leaving call.method)

def pauseDeposits (pauseBlockNumber : ℕ) (signature : Signature)
    (context : GuardianExecutionContext) : Service SecurityState (Option TransactionThread) :=
  callTransaction deps context (.pauseDeposits pauseBlockNumber signature)

def unvetSigningKeys (nonce blockNumber : ℕ) (blockHash : String) (stakingModuleId : ℕ)
    (operatorIds vettedKeysByOperator : String) (signature : Signature)
    (context : GuardianExecutionContext) : Service SecurityState (Option TransactionThread) :=
  callTransaction deps context (.unvetSigningKeys
    ⟨nonce, blockNumber, blockHash, stakingModuleId, operatorIds, vettedKeysByOperator⟩ signature)

/-- The transaction settles, the timeout runs out, or the flag is taken down. -/
def TransactionThread.resume : TransactionThread → TransactionAnswer →
    Option (Service SecurityState (Option TransactionThread))
  | .waiting method, .settled => some (return some (.leaving method))
  | .waiting method, .timeout => some do
    method.takeDown
    return some .timedOut
  | .timedOut, .settled => some (return none)
  | .leaving method, .settled => some do
    method.takeDown
    return none
  | _, _ => none

end SecurityService

end CouncilDaemon
