import CouncilDaemon.DataBus.Client
import CouncilDaemon.Lib.Interleaving
import CouncilDaemon.Security.SecurityService

/-!
# Publishing on the data bus

The calls of `publish` between their awaits. A call takes the sender of the active wallet, which it
keeps, waits for the mutex of that sender, sends one transaction and waits for it, and unlocks the
mutex in the end. The active wallet and the chain change in between.
-/

namespace CouncilDaemon

open Abi (Value)

/-! ## The mutex -/

/-- A promise is known by its number. The resolver resolves the current promise. -/
structure Mutex where
  currentPromise : Option ℕ
  resolver : Option ℕ
  resolver_eq : resolver = currentPromise

namespace Mutex

def free : Mutex := ⟨none, none, rfl⟩

def locked (promise : ℕ) : Mutex := ⟨some promise, some promise, rfl⟩

end Mutex

/-- What happens to the mutex of a sender: a call enters `lock`, acquires the mutex and releases it.
`refused` is the unlocking of a mutex that is not locked. -/
inductive MutexEvent where
  | requested (sender : String) (call : ℕ)
  | acquired (sender : String) (call : ℕ)
  | released (sender : String) (call : ℕ)
  | refused (sender : String) (call : ℕ)
  deriving DecidableEq

def MutexEvent.sender : MutexEvent → String
  | requested sender _ => sender
  | acquired sender _ => sender
  | released sender _ => sender
  | refused sender _ => sender

/-! ## The state -/

structure SentTransaction where
  sender : String
  nonce : ℕ
  /-- The call of `publish` that sent the transaction. -/
  call : ℕ
  message : DataBusCall
  deriving DecidableEq

/-- A sender of `dsmMessageSenders` is known by the address of its wallet, and given by its mutex.
`latest` is the count of transactions of each address on the chain. The lists have the latest entry
first, and `failed` has the transactions whose send or wait failed. -/
structure PublishState where
  activeWallet : Wallet
  dsmMessageSenders : String → Option Mutex
  promises : ℕ
  resolved : List ℕ
  latest : String → ℕ
  calls : ℕ
  history : List MutexEvent
  transactions : List SentTransaction
  failed : List SentTransaction

namespace PublishState

/-- The state of a daemon that has not published yet. -/
def initial (activeWallet : Wallet) (latest : String → ℕ) : PublishState where
  activeWallet := activeWallet
  dsmMessageSenders _ := none
  promises := 0
  resolved := []
  latest := latest
  calls := 0
  history := []
  transactions := []
  failed := []

variable (s : PublishState)

def mutex (sender : String) : Mutex := (s.dsmMessageSenders sender).getD Mutex.free

def setMutex (sender : String) (mutex : Mutex) : PublishState :=
  { s with dsmMessageSenders := Function.update s.dsmMessageSenders sender (some mutex) }

def record (event : MutexEvent) : PublishState := { s with history := event :: s.history }

/-- A call makes the promise that its unlocking will resolve. -/
def acquire (sender : String) (call : ℕ) : PublishState :=
  ({ s.setMutex sender (.locked s.promises) with promises := s.promises + 1 } : PublishState).record
    (.acquired sender call)

def release (sender : String) (call promise : ℕ) : PublishState :=
  ({ s.setMutex sender .free with resolved := promise :: s.resolved } : PublishState).record
    (.released sender call)

end PublishState

/-! ## The calls -/

/-- Where a call of `publish` waits. -/
inductive PublishStage where
  /-- In `lock`, for a promise. -/
  | locking (promise : ℕ) (eventName : String) (data : Value)
  /-- `lock` has returned. -/
  | locked (eventName : String) (data : Value)
  /-- In `sendTransaction`, for the address of the signer. -/
  | gettingAddress (message : DataBusCall)
  /-- For the count of transactions, which was at least `low` when it was asked for. -/
  | gettingCount (low : ℕ) (message : DataBusCall)
  | sending (transaction : SentTransaction)
  | confirming (transaction : SentTransaction)
  /-- `DataBusClient.sendMessage` has returned or thrown. -/
  | unlocking

structure PublishThread where
  call : ℕ
  sender : String
  stage : PublishStage

/-- `sendTransaction` is executing. -/
def PublishStage.executing : PublishStage → Bool
  | gettingAddress _ | gettingCount _ _ | sending _ | confirming _ => true
  | _ => false

/-- The call has acquired the mutex and has not released it. -/
def PublishStage.holding : PublishStage → Bool
  | locking _ _ _ => false
  | _ => true

/-- `settled` is a promise of the program itself, which never rejects. -/
inductive PublishAnswer where
  | settled
  | count (answer : Except String ℕ)
  | sent (answer : Except String Unit)
  | confirmed (answer : Except String Unit)

/-- The calls of `publish`, the switches of the active wallet and the blocks of the chain. -/
inductive PublishCall where
  | publish (message : MessageWithMeta)
  | selectWallet (wallet : Wallet)
  | mine (sender : String) (count : ℕ)

/-- One turn of the loop in `lock`: the call waits for the current promise, or acquires the
mutex. -/
def lock (call : ℕ) (sender eventName : String) (data : Value) (s : PublishState) :
    PublishState × PublishThread :=
  match (s.mutex sender).currentPromise with
  | some promise => (s, ⟨call, sender, .locking promise eventName data⟩)
  | none => (s.acquire sender call, ⟨call, sender, .locked eventName data⟩)

/-- `unlock`, which throws when the mutex is not locked. -/
def unlock (call : ℕ) (sender : String) (s : PublishState) : PublishState :=
  match (s.mutex sender).resolver with
  | none => s.record (.refused sender call)
  | some promise => s.release sender call promise

/-- The sender of the active wallet, which is made when there is none. -/
def dsmMessageSender (s : PublishState) : PublishState × String :=
  let address := s.activeWallet.address
  match s.dsmMessageSenders address with
  | some _ => (s, address)
  | none => (s.setMutex address .free, address)

section Program

variable (ethers : Ethers) (events : EventsInterface)

/-- `publish` up to its first await. A message that cannot be transformed ends the call before it
locks. -/
def publish (message : MessageWithMeta) (s : PublishState) : PublishState × List PublishThread :=
  let call := s.calls
  let (s, sender) := dsmMessageSender { s with calls := s.calls + 1 }
  match transformMessage ethers message with
  | .error _ => (s, [])
  | .ok outputMessage =>
    let (s, thread) := lock call sender (getEventName ethers message.message).text outputMessage
      (s.record (.requested sender call))
    (s, [thread])

def PublishCall.start (s : PublishState) : PublishCall → PublishState × List PublishThread
  | publish message => CouncilDaemon.publish ethers message s
  | selectWallet wallet => ({ s with activeWallet := wallet }, [])
  | mine sender count =>
    ({ s with latest := Function.update s.latest sender (s.latest sender + count) }, [])

namespace PublishThread

variable (thread : PublishThread)

/-- The send or the wait of the transaction has failed. -/
def fail (transaction : SentTransaction) (s : PublishState) : PublishState × List PublishThread :=
  ({ s with failed := transaction :: s.failed }, [{ thread with stage := .unlocking }])

/-- A call goes on. The count of transactions is one that the chain had after it was asked for, and a
transaction that was waited for is counted. -/
def resume (s : PublishState) (answer : PublishAnswer) :
    Option (PublishState × List PublishThread) :=
  match thread.stage, answer with
  | .locking promise eventName data, .settled =>
    if promise ∈ s.resolved then
      let (s, thread) := lock thread.call thread.sender eventName data s
      some (s, [thread])
    else none
  | .locked eventName data, .settled =>
    match encodeMessage events eventName data with
    | .error _ => some (s, [{ thread with stage := .unlocking }])
    | .ok message => some (s, [{ thread with stage := .gettingAddress message }])
  | .gettingAddress message, .settled =>
    some (s, [{ thread with stage := .gettingCount (s.latest thread.sender) message }])
  | .gettingCount _ _, .count (.error _) => some (s, [{ thread with stage := .unlocking }])
  | .gettingCount low message, .count (.ok nonce) =>
    if low ≤ nonce ∧ nonce ≤ s.latest thread.sender then
      let transaction := SentTransaction.mk thread.sender nonce thread.call message
      some ({ s with transactions := transaction :: s.transactions },
        [{ thread with stage := .sending transaction }])
    else none
  | .sending transaction, .sent (.ok _) => some (s, [{ thread with stage := .confirming transaction }])
  | .sending transaction, .sent (.error _) => some (thread.fail transaction s)
  | .confirming transaction, .confirmed (.ok _) =>
    if transaction.nonce < s.latest transaction.sender then
      some (s, [{ thread with stage := .unlocking }])
    else none
  | .confirming transaction, .confirmed (.error _) => some (thread.fail transaction s)
  | .unlocking, .settled => some (unlock thread.call thread.sender s, [])
  | _, _ => none

end PublishThread

/-- The calls in any interleaving. -/
def publishProgram : Program PublishState PublishCall PublishThread PublishAnswer where
  start call s := call.start ethers s
  resume thread answer s := thread.resume events s answer

end Program

end CouncilDaemon
