import CouncilDaemon.Guardian.Interfaces
import CouncilDaemon.Messages.Message
import CouncilDaemon.Security.SignerConsistency

/-!
# When a deposit message is skipped

The guardian remembers for each module the contract state for which it last prepared a deposit
message, and skips the message while that state stands. What it remembers is not all that the message
depends on: the message may have been held back because the guardian was not in the list, and the
version, the guardian and the delegate may have changed since.

In every run in which those have not changed between the call that remembered the state and the call
that skips, and in which the former was in the list, a skipped message is one that was handed over and
still stands (`skipped_still_stands`).
-/

namespace CouncilDaemon

namespace StakingModuleGuard

open Service SecurityService

/-! ## The source -/

structure ContractsState where
  blockNumber : ℕ
  nonce : ℕ
  depositRoot : String
  lastChangedBlockHash : String
  deriving DecidableEq

/-- The mutable state behind `handleCorrectKeys`. `attempts` and `handed` are the messages passed to
the message service and those whose publication returned, the latest first. -/
structure GuardState where
  security : SecurityState
  lastContractsStateByModuleId : ℕ → Option ContractsState := fun _ => none
  attempts : List Message := []
  handed : List MessageWithMeta := []

/-- `lastContractsStateByModuleId[stakingModuleId] = state`. -/
def GuardState.remember (s : GuardState) (stakingModuleId : ℕ) (state : ContractsState) :
    GuardState :=
  let states := Function.update s.lastContractsStateByModuleId stakingModuleId (some state)
  { s with lastContractsStateByModuleId := states }

/-- What the node and the broker answer during one call. -/
structure CallEnv where
  messagePrefix : Except String String
  getMessageTopic : Except String String
  publish : Except String Unit

def guardianDepositResigningBlocks : ℕ := 10

def isSameContractsStates (firstState secondState : Option ContractsState) : Bool :=
  match firstState, secondState with
  | some firstState, some secondState =>
    firstState.depositRoot = secondState.depositRoot &&
    firstState.lastChangedBlockHash = secondState.lastChangedBlockHash &&
    firstState.blockNumber / guardianDepositResigningBlocks =
      secondState.blockNumber / guardianDepositResigningBlocks
  | _, _ => false

section Guard

variable (deps : SecurityDeps) (app : MessageApp)

/-- `sendMessage` of the message service. -/
def sendMessage (env : CallEnv) (message : MessageWithMeta) : Service GuardState Unit := do
  let _ ← Service.call env.getMessageTopic
  Service.call env.publish
  modify fun s => { s with handed := message :: s.handed }

def sendMessageFromGuardian (env : CallEnv) (messageData : Message) : Service GuardState Unit := do
  modify fun s => { s with attempts := messageData :: s.attempts }
  if messageData.guardianIndex = -1 then return
  sendMessage env { message := messageData, app := app }

/-- `signDepositData` from its call to its return. -/
def signDeposit (env : CallEnv) (depositRoot : String) (nonce blockNumber : ℕ) (blockHash : String)
    (stakingModuleId : ℕ) (context : GuardianExecutionContext) : Service GuardState Signature :=
  Service.zoom GuardState.security (fun security s => { s with security := security }) do
    let thread ← signDepositData depositRoot nonce blockNumber blockHash stakingModuleId context
    thread.resume deps env.messagePrefix

def contractState (stakingModuleData : StakingModuleData) (blockData : BlockData) :
    ContractsState where
  nonce := stakingModuleData.nonce
  depositRoot := blockData.depositRoot
  blockNumber := blockData.blockNumber
  lastChangedBlockHash := stakingModuleData.lastChangedBlockHash

def depositMessage (stakingModuleData : StakingModuleData) (blockData : BlockData)
    (signature : Signature) : MessageDeposit where
  depositRoot := blockData.depositRoot
  nonce := stakingModuleData.nonce
  blockNumber := blockData.blockNumber
  blockHash := blockData.blockHash
  guardianAddress := blockData.guardianAddress
  guardianIndex := blockData.guardianIndex
  signature := signature
  stakingModuleId := stakingModuleData.stakingModuleId
  dsmVersion := some blockData.guardianContext.dsmVersion

def handleCorrectKeys (env : CallEnv) (stakingModuleData : StakingModuleData)
    (blockData : BlockData) : Service GuardState Unit := do
  let s ← get
  let currentContractState := contractState stakingModuleData blockData
  let lastContractsState := s.lastContractsStateByModuleId stakingModuleData.stakingModuleId
  if isSameContractsStates (some currentContractState) lastContractsState then return
  let signature ← signDeposit deps env blockData.depositRoot stakingModuleData.nonce
    blockData.blockNumber blockData.blockHash stakingModuleData.stakingModuleId
    blockData.guardianContext
  sendMessageFromGuardian app env (.deposit (depositMessage stakingModuleData blockData signature))
  modify fun s => s.remember stakingModuleData.stakingModuleId currentContractState

/-! ## One call -/

structure Call where
  env : CallEnv
  stakingModuleData : StakingModuleData
  blockData : BlockData

def Call.stakingModuleId (call : Call) : ℕ := call.stakingModuleData.stakingModuleId

def Call.contractState (call : Call) : ContractsState :=
  StakingModuleGuard.contractState call.stakingModuleData call.blockData

/-- The call finds the contract state it remembers. -/
def Call.skips (call : Call) (s : GuardState) : Bool :=
  isSameContractsStates (some call.contractState)
    (s.lastContractsStateByModuleId call.stakingModuleId)

def Call.run (call : Call) : Service GuardState Unit :=
  handleCorrectKeys deps app call.env call.stakingModuleData call.blockData

/-- The signature is the designated wallet's, over the digest of the message. -/
def SignedUnder (context : GuardianExecutionContext) (message : MessageDeposit) : Prop :=
  ∃ wallet messagePrefix bytes, designatedWallet deps context = some wallet ∧
    preimage deps messagePrefix context (.deposit message.depositRoot message.nonce
      message.blockNumber message.blockHash message.stakingModuleId) = .ok bytes ∧
    message.signature = deps.signDigest wallet (deps.ethers.keccak256 bytes)

variable {deps app} {call : Call} {s : GuardState}

theorem isSame_iff {a b : ContractsState} : isSameContractsStates (some a) (some b) = true ↔
    a.depositRoot = b.depositRoot ∧ a.lastChangedBlockHash = b.lastChangedBlockHash ∧
    a.blockNumber / guardianDepositResigningBlocks =
      b.blockNumber / guardianDepositResigningBlocks := by
  rw [isSameContractsStates, Bool.and_eq_true, Bool.and_eq_true, decide_eq_true_eq,
    decide_eq_true_eq, decide_eq_true_eq, and_assoc]

theorem run_skips (h : call.skips s = true) :
    EStateM.run (call.run deps app) s = .ok () s := by
  have hsame : EStateM.run (call.run deps app) s =
      EStateM.run (if call.skips s = true then pure () else do
        let signature ← signDeposit deps call.env call.blockData.depositRoot
          call.stakingModuleData.nonce call.blockData.blockNumber call.blockData.blockHash
          call.stakingModuleData.stakingModuleId call.blockData.guardianContext
        sendMessageFromGuardian app call.env
          (.deposit (depositMessage call.stakingModuleData call.blockData signature))
        modify fun s => s.remember call.stakingModuleId call.contractState) s := rfl
  rw [hsame, if_pos h]
  rfl

theorem triple_signDeposit (env : CallEnv) (depositRoot : String) (nonce blockNumber : ℕ)
    (blockHash : String) (stakingModuleId : ℕ) (context : GuardianExecutionContext) :
    Triple (· = s) (signDeposit deps env depositRoot nonce blockNumber blockHash stakingModuleId
        context)
      (fun signature t => (∃ wallet messagePrefix bytes,
        designatedWallet deps context = some wallet ∧
        preimage deps messagePrefix context
          (.deposit depositRoot nonce blockNumber blockHash stakingModuleId) = .ok bytes ∧
        signature = deps.signDigest wallet (deps.ethers.keccak256 bytes)) ∧
        ∃ security, t = { s with security := security })
      (fun t => ∃ security, t = { s with security := security }) := by
  have hsecurity : Triple (· = s.security) (do
      let thread ← signDepositData depositRoot nonce blockNumber blockHash stakingModuleId context
      thread.resume deps env.messagePrefix)
      (fun signature _ => ∃ wallet messagePrefix bytes,
        designatedWallet deps context = some wallet ∧
        preimage deps messagePrefix context
          (.deposit depositRoot nonce blockNumber blockHash stakingModuleId) = .ok bytes ∧
        signature = deps.signDigest wallet (deps.ethers.keccak256 bytes)) (fun _ => True) := by
    refine Triple.bind ((triple_getMessagePrefix _ context).mono (fun _ h => h) (fun _ _ h => h)
      fun _ _ => trivial) fun thread => ?_
    rintro t ⟨_, hrequest, hcontext, rfl⟩
    refine (triple_signResume (s := s.security) thread env.messagePrefix).mono (A := (· = _))
      (fun _ h => h) ?_ (fun _ _ => trivial) s.security rfl
    rintro signature _ ⟨messagePrefix, wallet, bytes, _, hwallet, hbytes, hsignature, _⟩
    rw [hcontext] at hwallet hbytes
    rw [hrequest] at hbytes
    exact ⟨wallet, messagePrefix, bytes, hwallet, hbytes, hsignature⟩
  rintro t rfl
  obtain ⟨hok, _⟩ := hsecurity t.security rfl
  unfold signDeposit
  rw [run_zoom]
  split
  · rename_i a security hrun
    refine ⟨fun b u h => ?_, fun e u h => (by cases h)⟩
    cases h
    exact ⟨hok a security hrun, security, rfl⟩
  · rename_i e security hrun
    refine ⟨fun b u h => (by cases h), fun e' u h => ?_⟩
    cases h
    exact ⟨security, rfl⟩

/-- A message is handed over, or held back because the guardian is not in the list. -/
theorem triple_sendMessageFromGuardian (env : CallEnv) (message : Message) :
    Triple (· = s) (sendMessageFromGuardian app env message)
      (fun _ t => t.lastContractsStateByModuleId = s.lastContractsStateByModuleId ∧
        (message.guardianIndex = -1 ∧ t.handed = s.handed ∨
          message.guardianIndex ≠ -1 ∧ t.handed = ⟨message, app⟩ :: s.handed))
      (fun t => t.lastContractsStateByModuleId = s.lastContractsStateByModuleId ∧
        t.handed = s.handed) := by
  unfold sendMessageFromGuardian
  refine Triple.bind (triple_modify (Q := fun _ t => t.lastContractsStateByModuleId =
    s.lastContractsStateByModuleId ∧ t.handed = s.handed)
    (by rintro t rfl; exact ⟨rfl, rfl⟩)) fun _ => ?_
  by_cases hindex : message.guardianIndex = -1
  · rw [if_pos hindex]
    exact triple_pure fun t ht => ⟨ht.1, Or.inl ⟨hindex, ht.2⟩⟩
  rw [if_neg hindex]
  unfold sendMessage
  refine Triple.bind (triple_call (fun _ _ _ h => h) fun _ h => h) fun _ => ?_
  refine Triple.bind (triple_call (fun _ _ _ h => h) fun _ h => h) fun _ => ?_
  refine triple_modify ?_
  rintro t ⟨hlast, hhanded⟩
  refine ⟨hlast, Or.inr ⟨hindex, ?_⟩⟩
  show _ :: t.handed = _
  rw [hhanded]

variable (deps app) in
/-- What a call that does not skip does. -/
theorem triple_run (h : call.skips s = false) :
    Triple (· = s) (call.run deps app)
      (fun _ t => t.lastContractsStateByModuleId =
          Function.update s.lastContractsStateByModuleId call.stakingModuleId
            (some call.contractState) ∧
        (call.blockData.guardianIndex = -1 ∧ t.handed = s.handed ∨
          ∃ signature, SignedUnder deps call.blockData.guardianContext
              (depositMessage call.stakingModuleData call.blockData signature) ∧
            t.handed = ⟨.deposit (depositMessage call.stakingModuleData call.blockData signature),
              app⟩ :: s.handed))
      (fun t => t.lastContractsStateByModuleId = s.lastContractsStateByModuleId ∧
        t.handed = s.handed) := by
  unfold Call.run handleCorrectKeys
  refine Triple.bind (triple_get (Q := fun a t => a = s ∧ t = s)
    (by rintro t rfl; exact ⟨rfl, rfl⟩)) fun a => ?_
  rintro t ⟨rfl, rfl⟩
  dsimp only
  rw [if_neg (by rw [← Bool.not_eq_true] at h; exact h)]
  refine (Triple.bind ((triple_signDeposit (s := t) call.env _ _ _ _ _ _).mono (A := (· = t))
    (fun _ h => h) (fun _ _ h => h) ?_) fun signature => ?_) t rfl
  · rintro _ ⟨security, rfl⟩
    exact ⟨rfl, rfl⟩
  rintro u ⟨hsigned, security, rfl⟩
  refine (Triple.bind (triple_sendMessageFromGuardian (s := { t with security := security }) call.env
    (.deposit (depositMessage call.stakingModuleData call.blockData signature)))
    fun _ => triple_modify ?_) _ rfl
  rintro u ⟨hlast, hhanded⟩
  refine ⟨?_, ?_⟩
  · show Function.update u.lastContractsStateByModuleId _ _ = _
    rw [hlast]
    rfl
  · rcases hhanded with ⟨hindex, hhanded⟩ | ⟨_, hhanded⟩
    · exact Or.inl ⟨hindex, hhanded⟩
    · exact Or.inr ⟨signature, hsigned, hhanded⟩

/-! ## Runs -/

/-- The guard, and for each module the block data of the call that remembered its contract state. -/
structure Machine where
  guard : GuardState
  rememberedFor : ℕ → Option BlockData

variable (deps app) in
def Machine.after (m : Machine) (call : Call) : Machine where
  guard := Service.after (EStateM.run (call.run deps app) m.guard)
  rememberedFor :=
    if call.skips m.guard = false ∧
        (returned (EStateM.run (call.run deps app) m.guard)).isSome then
      Function.update m.rememberedFor call.stakingModuleId (some call.blockData)
    else m.rememberedFor

/-- The two blocks are processed under the same version, guardian and delegate. -/
structure SameIdentity (blockData blockData' : BlockData) : Prop where
  dsmVersion : blockData.guardianContext.dsmVersion = blockData'.guardianContext.dsmVersion
  delegateAddress :
    blockData.guardianContext.delegateAddress = blockData'.guardianContext.delegateAddress
  contextGuardianAddress :
    blockData.guardianContext.guardianAddress = blockData'.guardianContext.guardianAddress
  guardianAddress : blockData.guardianAddress = blockData'.guardianAddress

/-- A call that skips comes under the identity under which the state was remembered, by a call that
was in the guardian list. -/
def Unchanged (m : Machine) (call : Call) : Prop :=
  call.skips m.guard = true → ∃ blockData, m.rememberedFor call.stakingModuleId = some blockData ∧
    blockData.guardianIndex ≠ -1 ∧ SameIdentity blockData call.blockData

variable (deps app) in
/-- The calls, one after the other, from a guard that remembers nothing. -/
inductive Run (allowed : Machine → Call → Prop) (security : SecurityState) :
    List Call → Machine → Prop where
  | nil : Run allowed security [] ⟨{ security := security }, fun _ => none⟩
  | snoc {calls : List Call} {m : Machine} {call : Call} : Run allowed security calls m →
      allowed m call → Run allowed security (calls ++ [call]) (m.after deps app call)

/-- The nonce of a module cannot differ at the same `lastChangedBlockHash`. -/
def HashDeterminesNonce (calls : List Call) : Prop :=
  ∀ a ∈ calls, ∀ b ∈ calls, a.stakingModuleId = b.stakingModuleId →
    a.stakingModuleData.lastChangedBlockHash = b.stakingModuleData.lastChangedBlockHash →
    a.stakingModuleData.nonce = b.stakingModuleData.nonce

/-- The latest deposit message for a module that was handed over. -/
def latestDeposit (s : GuardState) (stakingModuleId : ℕ) : Option MessageDeposit :=
  (s.handed.filterMap fun handed =>
    if let .deposit message := handed.message then some message else none).find?
      (·.stakingModuleId = stakingModuleId)

variable (deps) in
/-- The latest deposit message of the call's module is the one the call would send, up to the
block within the window. -/
def StillStands (s : GuardState) (call : Call) : Prop :=
  ∃ message, latestDeposit s call.stakingModuleId = some message ∧
    message.depositRoot = call.blockData.depositRoot ∧
    message.nonce = call.stakingModuleData.nonce ∧
    message.blockNumber / guardianDepositResigningBlocks =
      call.blockData.blockNumber / guardianDepositResigningBlocks ∧
    message.dsmVersion = some call.blockData.guardianContext.dsmVersion ∧
    message.guardianAddress = call.blockData.guardianAddress ∧
    SignedUnder deps call.blockData.guardianContext message

/-! ## The invariant -/

variable (deps) in
/-- What is remembered for a module comes from a call, whose message is the latest unless it was held
back. -/
def Remembered (calls : List Call) (m : Machine) : Prop :=
  ∀ stakingModuleId state, m.guard.lastContractsStateByModuleId stakingModuleId = some state →
    ∃ call ∈ calls, call.stakingModuleId = stakingModuleId ∧ call.contractState = state ∧
      m.rememberedFor stakingModuleId = some call.blockData ∧
      (call.blockData.guardianIndex ≠ -1 → ∃ signature,
        SignedUnder deps call.blockData.guardianContext
          (depositMessage call.stakingModuleData call.blockData signature) ∧
        latestDeposit m.guard stakingModuleId =
          some (depositMessage call.stakingModuleData call.blockData signature))

theorem latestDeposit_cons (s t : GuardState) (message : MessageDeposit) (stakingModuleId : ℕ)
    (h : t.handed = ⟨.deposit message, app⟩ :: s.handed) :
    latestDeposit t stakingModuleId =
      if message.stakingModuleId = stakingModuleId then some message
      else latestDeposit s stakingModuleId := by
  unfold latestDeposit
  rw [h, List.filterMap_cons]
  show List.find? _ (message :: _) = _
  rw [List.find?_cons]
  by_cases hid : message.stakingModuleId = stakingModuleId
  · rw [if_pos hid, decide_eq_true hid]
  · rw [if_neg hid, decide_eq_false hid]

theorem latestDeposit_congr {s t : GuardState} (h : t.handed = s.handed) (stakingModuleId : ℕ) :
    latestDeposit t stakingModuleId = latestDeposit s stakingModuleId := by
  unfold latestDeposit
  rw [h]

/-- A call keeps what is remembered backed by messages. -/
theorem Remembered.step {calls : List Call} {m : Machine} (hm : Remembered deps calls m)
    (call : Call) : Remembered deps (calls ++ [call]) (m.after deps app call) := by
  have hold : ∀ t : GuardState,
      t.lastContractsStateByModuleId = m.guard.lastContractsStateByModuleId →
      t.handed = m.guard.handed → Remembered deps (calls ++ [call]) ⟨t, m.rememberedFor⟩ := by
    intro t hlast hhanded stakingModuleId state hstate
    rw [hlast] at hstate
    obtain ⟨earlier, hmem, hid, hcontract, hfor, hmessage⟩ := hm stakingModuleId state hstate
    refine ⟨earlier, List.mem_append_left _ hmem, hid, hcontract, hfor, ?_⟩
    rwa [latestDeposit_congr hhanded]
  unfold Machine.after
  cases hskips : call.skips m.guard with
  | true =>
    rw [run_skips hskips, if_neg (by simp)]
    exact hold m.guard rfl rfl
  | false =>
    obtain ⟨hok, herror⟩ := triple_run deps app hskips m.guard rfl
    cases hrun : EStateM.run (call.run deps app) m.guard with
    | error e t =>
      obtain ⟨hlast, hhanded⟩ := herror e t hrun
      rw [if_neg (by simp [returned])]
      exact hold t hlast hhanded
    | ok u t =>
      obtain ⟨hlast, hhanded⟩ := hok u t hrun
      rw [if_pos (by simp [returned]), after_ok]
      intro stakingModuleId state hstate
      dsimp only at hstate ⊢
      rw [hlast] at hstate
      by_cases hid : stakingModuleId = call.stakingModuleId
      · subst hid
        rw [Function.update_self] at hstate ⊢
        refine ⟨call, List.mem_append_right _ (List.mem_singleton_self _), rfl,
          Option.some.inj hstate, rfl, fun hindex => ?_⟩
        rcases hhanded with ⟨hout, _⟩ | ⟨signature, hsigned, hhanded⟩
        · exact absurd hout hindex
        · refine ⟨signature, hsigned, ?_⟩
          rw [latestDeposit_cons m.guard t _ _ hhanded]
          exact if_pos rfl
      · rw [Function.update_of_ne hid] at hstate ⊢
        obtain ⟨earlier, hmem, hmodule, hcontract, hfor, hmessage⟩ := hm stakingModuleId state hstate
        refine ⟨earlier, List.mem_append_left _ hmem, hmodule, hcontract, hfor, fun hindex => ?_⟩
        obtain ⟨signature, hsigned, hlatest⟩ := hmessage hindex
        refine ⟨signature, hsigned, ?_⟩
        rcases hhanded with ⟨_, hhanded⟩ | ⟨signature', _, hhanded⟩
        · rw [latestDeposit_congr hhanded]
          exact hlatest
        · rw [latestDeposit_cons m.guard t _ _ hhanded]
          exact (if_neg fun h => hid h.symm).trans hlatest

theorem Run.remembered {allowed : Machine → Call → Prop} {security : SecurityState}
    {calls : List Call} {m : Machine} (h : Run deps app allowed security calls m) :
    Remembered deps calls m := by
  induction h with
  | nil =>
    intro stakingModuleId state hstate
    cases hstate
  | snoc _ _ ih => exact ih.step _

/-! ## Main result -/

theorem SignedUnder.congr {context context' : GuardianExecutionContext} {message : MessageDeposit}
    (hversion : context.dsmVersion = context'.dsmVersion)
    (hdelegate : context.delegateAddress = context'.delegateAddress)
    (hguardian : context.guardianAddress = context'.guardianAddress)
    (h : SignedUnder deps context message) : SignedUnder deps context' message := by
  obtain ⟨wallet, messagePrefix, bytes, hwallet, hbytes, hsignature⟩ := h
  refine ⟨wallet, messagePrefix, bytes, ?_, ?_, hsignature⟩
  · rw [designatedWallet, ← hversion, ← hdelegate]
    exact hwallet
  · rw [preimage, ← hversion, ← hguardian]
    exact hbytes

variable (deps app) in
/-- **Skipped messages.** In a run whose calls all meet the condition, the latest deposit message
still stands at every call that skips. -/
theorem skipped_still_stands {security : SecurityState} {calls : List Call} {m : Machine}
    {call : Call} (hrun : Run deps app Unchanged security calls m)
    (hnonce : HashDeterminesNonce (calls ++ [call])) (hcall : Unchanged m call)
    (hskips : call.skips m.guard = true) : StillStands deps m.guard call := by
  obtain ⟨blockData, hfor, hindex, hsame⟩ := hcall hskips
  cases hstate : m.guard.lastContractsStateByModuleId call.stakingModuleId with
  | none =>
    rw [Call.skips, hstate] at hskips
    cases hskips
  | some state =>
    obtain ⟨earlier, hmem, hid, hcontract, hfor', hmessage⟩ := hrun.remembered _ _ hstate
    obtain rfl : blockData = earlier.blockData := Option.some.inj (hfor.symm.trans hfor')
    obtain ⟨signature, hsigned, hlatest⟩ := hmessage hindex
    rw [Call.skips, hstate, isSame_iff] at hskips
    obtain ⟨hroot, hhash, hwindow⟩ := hskips
    subst hcontract
    refine ⟨_, hlatest, hroot.symm, ?_, hwindow.symm, ?_, hsame.guardianAddress, ?_⟩
    · exact hnonce earlier (List.mem_append_left _ hmem) call
        (List.mem_append_right _ (List.mem_singleton_self _)) hid hhash.symm
    · show some earlier.blockData.guardianContext.dsmVersion = _
      rw [hsame.dsmVersion]
    · exact hsigned.congr hsame.dsmVersion hsame.delegateAddress hsame.contextGuardianAddress

end Guard

/-! ## Samples -/

namespace DepositMessagesSample

open SecuritySample (deps)

def app : MessageApp := ⟨"3.5.0", "lido-council-daemon"⟩

def security : SecurityState where
  dsmContract := some "0x4444444444444444444444444444444444444444"
  activeWallet := none

/-- The block 17 under a context. -/
def blockData (context : GuardianExecutionContext) (guardianIndex : ℤ) : BlockData where
  blockNumber := 17
  blockHash := "0x2222222222222222222222222222222222222222222222222222222222222222"
  depositRoot := "0x6666666666666666666666666666666666666666666666666666666666666666"
  depositedEvents := ⟨[], 0, 17⟩
  guardianContext := context
  guardianAddress := context.guardianAddress
  guardianIndex := guardianIndex
  securityVersion := context.dsmVersion
  alreadyPausedDeposits := false
  hasFrontRunning := false
  hasWrongWCType := false
  walletBalanceCritical := false

def stakingModuleData : StakingModuleData where
  blockHash := "0x2222222222222222222222222222222222222222222222222222222222222222"
  vettedUnusedKeys := []
  nonce := 4
  stakingModuleId := 1
  stakingModuleAddress := "0x7777777777777777777777777777777777777777"
  lastChangedBlockHash := "0x8888888888888888888888888888888888888888888888888888888888888888"
  duplicatedKeys := []
  invalidKeys := []
  crossTypeKeys := []
  frontRunKeys := []
  unresolvedDuplicatedKeys := []
  withdrawalCredentials := none
  isModuleDepositsPaused := false

/-- A call in which everything else works. -/
def call (context : GuardianExecutionContext) (guardianIndex : ℤ) : Call where
  env := ⟨.ok PayloadsSample.lowerPrefix, .ok "mainnet-defender", .ok ()⟩
  stakingModuleData := stakingModuleData
  blockData := blockData context guardianIndex

def start : Machine := ⟨{ security := security }, fun _ => none⟩

/-- The state after a first call. -/
def first (context : GuardianExecutionContext) (guardianIndex : ℤ) : Machine :=
  start.after deps app (call context guardianIndex)

/-- The second wallet, then the first one, as delegate of the same delegation contract. -/
def before : GuardianExecutionContext := SecuritySample.delegate

def rotated : GuardianExecutionContext :=
  SecuritySample.context 5 "0x1111111111111111111111111111111111111111"

/-- A message of the former delegate stands for the current one, and a message that was held back
for one that was handed over. -/
theorem not_still_stands :
    (HashDeterminesNonce [call before 0, call rotated 0] ∧
      (call rotated 0).skips (first before 0).guard = true ∧
      ¬ StillStands deps (first before 0).guard (call rotated 0)) ∧
    (call SecuritySample.legacy 0).skips (first SecuritySample.legacy (-1)).guard = true ∧
    latestDeposit (first SecuritySample.legacy (-1)).guard 1 = none := by
  refine ⟨⟨?_, by decide +kernel, ?_⟩, by decide +kernel, by decide +kernel⟩
  · intro a ha b hb _ _
    have hnonce : ∀ x ∈ [call before 0, call rotated 0], x.stakingModuleData.nonce = 4 := by
      simp [call, stakingModuleData]
    rw [hnonce a ha, hnonce b hb]
  · rintro ⟨message, hlatest, -, -, -, -, -, wallet, messagePrefix, bytes, hwallet, -, hsignature⟩
    have hsigner : (latestDeposit (first before 0).guard 1).map (·.signature.r) =
        some "0x2222222222222222222222222222222222222222" := by decide +kernel
    have hdesignated : designatedWallet deps rotated =
        some ⟨"0x1111111111111111111111111111111111111111"⟩ := by decide +kernel
    obtain rfl := Option.some.inj (hwallet.symm.trans hdesignated)
    rw [show latestDeposit (first before 0).guard 1 = some message from hlatest, Option.map_some,
      hsignature] at hsigner
    have haddress : "0x1111111111111111111111111111111111111111" =
        "0x2222222222222222222222222222222222222222" := Option.some.inj hsigner
    exact absurd haddress (by decide +kernel)

theorem skipped_still_stands_sample :
    StillStands deps (first before 0).guard (call before 0) := by
  have hskips : (call before 0).skips start.guard = false := by decide +kernel
  have hreturned : (returned (EStateM.run ((call before 0).run deps app) start.guard)).isSome = true
      := by decide +kernel
  have hrun : Run deps app Unchanged security ([] ++ [call before 0]) (first before 0) := by
    refine Run.snoc Run.nil ?_
    intro h
    rw [show (call before 0).skips start.guard = true from h] at hskips
    cases hskips
  refine skipped_still_stands deps app hrun ?_ ?_ (by decide +kernel)
  · intro a ha b hb _ _
    have hnonce : ∀ x ∈ [] ++ [call before 0] ++ [call before 0], x.stakingModuleData.nonce = 4 := by
      simp [call, stakingModuleData]
    rw [hnonce a ha, hnonce b hb]
  · intro _
    refine ⟨blockData before 0, ?_, by decide, ⟨rfl, rfl, rfl, rfl⟩⟩
    show (start.after deps app (call before 0)).rememberedFor 1 = _
    unfold Machine.after
    rw [if_pos ⟨hskips, hreturned⟩]
    show Function.update start.rememberedFor 1 (some (blockData before 0)) 1 = _
    rw [Function.update_self]

end DepositMessagesSample

end StakingModuleGuard

end CouncilDaemon
