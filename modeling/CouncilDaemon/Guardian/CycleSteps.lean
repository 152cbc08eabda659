import CouncilDaemon.Guardian.Cycle

/-!
# What the steps of the cycles do

A step touches at most one of the shared pieces: it stores a contract, makes a wallet active, lets a
signature or a transaction out, or adds to the history. What its threads rely on comes from the thread it
resumes, or is there when they begin (`stepSpec`).
-/

namespace CouncilDaemon

namespace Guardian

open Service SecurityService StakingModuleGuard

/-! ## What the threads rely on -/

/-- The contract that a transaction of the job will be sent to. -/
def MessageJob.relies : MessageJob → Option String
  | deposit _ _ => none
  | job => some job.context.dsmAddress

/-- The block of a deposit message. -/
def MessageJob.block : MessageJob → Option ℕ
  | deposit _ blockData => some blockData.blockNumber
  | _ => none

/-- The context of a message whose sender is not picked yet. -/
def PublishThread.unpublished : PublishThread → Option GuardianExecutionContext
  | waiting context _ => some context
  | _ => none

/-- The signature in a message, with the context of the message. -/
def PublishThread.payload : PublishThread → Option (GuardianExecutionContext × Signature)
  | waiting context message => message.signature.map fun signature => (context, signature)
  | _ => none

namespace MessageThread

/-- The address of the contract that may still be read from the cache. -/
def relies : MessageThread → Option String
  | signing job _ => job.relies
  | signed job _ => job.relies
  | publishing _ _ => none

/-- The contract whose prefix is read, and the context to sign under. -/
def reading : MessageThread → Option (String × GuardianExecutionContext)
  | signing job contract => some (contract, job.context)
  | _ => none

/-- The context of a message that is signed and whose sender is not picked yet. -/
def unpublished : MessageThread → Option GuardianExecutionContext
  | signing _ _ => none
  | signed job signature =>
    (sendMessageFromGuardian job.context (job.message signature)).unpublished
  | publishing _ thread => thread.unpublished

/-- The signature that goes into the message, with the context of the message. -/
def payload : MessageThread → Option (GuardianExecutionContext × Signature)
  | signing _ _ => none
  | signed job signature => some (job.context, signature)
  | publishing _ thread => thread.payload

/-- The block of a deposit message that is not built yet. -/
def block : MessageThread → Option ℕ
  | signing job _ => job.block
  | signed job _ => job.block
  | publishing _ _ => none

variable (deps : SecurityDeps) (s : CycleState)

/-- The wallet that a step of the message makes active. -/
def selects : MessageThread → MessageAnswer → Option Wallet
  | signing job _, .messagePrefix (.ok _) => designatedWallet deps job.context
  | signed job signature, .settled => (job.transaction signature).bind fun call =>
    if (call.method.flags s.security).busy call.method.callId then none
    else designatedWallet deps job.context
  | _, _ => none

end MessageThread

namespace CycleThread

/-- The messages of a thread. -/
def messages : CycleThread → List MessageThread
  | newBlock _ (.pausing thread) => [thread]
  | keys _ (.unvetting _ thread) => [thread]
  | keys _ (.depositing _ messages) => messages
  | message thread => [thread]
  | _ => []

/-- The contract of a context under which messages may still be begun. -/
def ownRelies : CycleThread → Option String
  | newBlock _ (.collecting _ thread) => some thread.dsmAddress
  | newBlock _ (.collected _ guardianContext) => some guardianContext.dsmAddress
  | keys _ (.checking run) => some run.blockData.guardianContext.dsmAddress
  | keys _ (.gettingMax run _) => some run.blockData.guardianContext.dsmAddress
  | keys _ (.unvetting run _) => some run.blockData.guardianContext.dsmAddress
  | _ => none

/-- The block of a cycle that has passed its age check. -/
def ownBlock : CycleThread → Option ℕ
  | newBlock _ (.keys snapshot) => some snapshot.blockNumber
  | newBlock _ (.preparing snapshot) => some snapshot.blockNumber
  | newBlock _ (.collecting snapshot _) => some snapshot.blockNumber
  | newBlock _ (.collected snapshot _) => some snapshot.blockNumber
  | keys _ (.checking run) => some run.blockData.blockNumber
  | keys _ (.gettingMax run _) => some run.blockData.blockNumber
  | keys _ (.unvetting run _) => some run.blockData.blockNumber
  | keys _ (.depositing run _) => some run.blockData.blockNumber
  | _ => none

/-- The context of a ping whose sender is not picked yet. -/
def ownUnpublished : CycleThread → Option GuardianExecutionContext
  | ping thread => thread.unpublished
  | _ => none

def ownPayload : CycleThread → Option (GuardianExecutionContext × Signature)
  | ping thread => thread.payload
  | _ => none

variable (thread : CycleThread)

def relies : List String := thread.ownRelies.toList ++ thread.messages.filterMap (·.relies)

def readings : List (String × GuardianExecutionContext) := thread.messages.filterMap (·.reading)

def unpublished : List GuardianExecutionContext :=
  thread.ownUnpublished.toList ++ thread.messages.filterMap (·.unpublished)

def payloads : List (GuardianExecutionContext × Signature) :=
  thread.ownPayload.toList ++ thread.messages.filterMap (·.payload)

def blocks : List ℕ := thread.ownBlock.toList ++ thread.messages.filterMap (·.block)

/-- The address that a step stores as that of the contract. -/
def stores : CycleThread → CycleAnswer → Option String
  | newBlock _ (.keys _), .dsmAddress (.ok address) => some address
  | _, _ => none

/-- The block that a step records. -/
def records : CycleThread → CycleAnswer → Option ℕ
  | keys _ (.depositing run []), .settled => some run.blockData.blockNumber
  | _, _ => none

variable (deps : SecurityDeps) (s : CycleState)

/-- The context of the ping that a step builds, if it is published. -/
def pings : CycleThread → CycleAnswer → Option GuardianExecutionContext
  | keys _ (.depositing run []), .settled =>
    if isPingNeeded s.lastPingBlock run.blockData.blockNumber then (pingMessageBroker run).unpublished
    else none
  | _, _ => none

/-- The wallet that a step makes active. -/
def selects : CycleThread → CycleAnswer → Option Wallet
  | newBlock _ (.collecting _ thread), .context answer => thread.selects deps answer
  | newBlock _ (.pausing thread), .message answer => thread.selects deps s answer
  | keys _ (.unvetting _ thread), .message answer => thread.selects deps s answer
  | keys _ (.depositing _ messages), .deposit index answer =>
    messages[index]?.bind fun thread => thread.selects deps s answer
  | context thread, .context answer => thread.selects deps answer
  | message thread, .message answer => thread.selects deps s answer
  | _, _ => none

end CycleThread

variable (deps : SecurityDeps)

/-- The cached contract is at the address. -/
def HasContract (s : CycleState) (dsmAddress : String) : Prop :=
  ∃ contract, s.security.dsmContract = some contract ∧
    deps.ethers.getAddress contract = .ok dsmAddress

/-- The active wallet is the one that the context designates. -/
def Active (s : CycleState) (context : GuardianExecutionContext) : Prop :=
  designatedWallet deps context =
    some (s.security.activeWallet.getD (WalletService.firstWallet deps))

/-- The signature is made by the wallet that the context designates. -/
def SignedFor (payload : GuardianExecutionContext × Signature) : Prop :=
  ∃ wallet digest, designatedWallet deps payload.1 = some wallet ∧
    payload.2 = deps.signDigest wallet digest

/-! ## Steps of a message -/

/-- What a step of a message lets out. -/
inductive MessageThread.Leaves (thread : MessageThread) (s : CycleState) : SecurityEvent → Prop
  | signed {contract context messagePrefix request wallet bytes} :
      thread.reading = some (contract, context) →
      preimage deps messagePrefix context request = .ok bytes →
      Leaves thread s (.signed context contract messagePrefix request wallet
        (deps.ethers.keccak256 bytes))
  | sent {context wallet contract call} : thread.relies = some context.dsmAddress →
      s.security.dsmContract = some contract →
      Leaves thread s (.sent context (directTransaction context wallet contract call))

/-- What a step of a message adds to the history. -/
inductive MessageThread.Notes (thread : MessageThread) (s : CycleState) : CycleEvent → Prop
  | prepared {message} : (∀ deposit, message = .deposit deposit →
        thread.block = some deposit.blockNumber) →
      Notes thread s (.prepared message)
  | published {context message} : thread.unpublished = some context →
      thread.payload = message.signature.map (fun signature => (context, signature)) →
      Notes thread s (.published context message
        (s.security.activeWallet.getD (WalletService.firstWallet deps)).address)

/-- What becomes of a message in a step. -/
structure MessageNext (thread next : MessageThread) (t : CycleState) : Prop where
  relies : ∀ address, next.relies = some address → thread.relies = some address
  reading : next.reading = none
  unpublished : ∀ context, next.unpublished = some context →
    thread.unpublished = some context ∨ Active deps t context
  payload : ∀ payload, next.payload = some payload →
    thread.payload = some payload ∨ SignedFor deps payload
  block : ∀ number, next.block = some number → thread.block = some number

structure MessageStep (thread : MessageThread) (answer : MessageAnswer) (s t : CycleState) :
    Prop where
  dsmContract : t.security.dsmContract = s.security.dsmContract
  activeWallet : t.security.activeWallet = s.security.activeWallet ∨
    ∃ wallet, thread.selects deps s answer = some wallet ∧ t.security.activeWallet = some wallet
  events : t.security.events = s.security.events ∨
    ∃ event, thread.Leaves deps s event ∧ t.security.events = event :: s.security.events
  history : t.history = s.history ∨
    ∃ event, thread.Notes deps s event ∧ t.history = event :: s.history
  lastProcessedStateMeta : t.lastProcessedStateMeta = s.lastProcessedStateMeta

variable {deps} {s t : CycleState}

theorem MessageStep.refl (thread : MessageThread) (answer : MessageAnswer) :
    MessageStep deps thread answer s s :=
  ⟨rfl, Or.inl rfl, Or.inl rfl, Or.inl rfl, rfl⟩

theorem unpublished_sendMessageFromGuardian {context context' : GuardianExecutionContext}
    {message : Message}
    (h : (sendMessageFromGuardian context message).unpublished = some context') :
    context' = context := by
  unfold sendMessageFromGuardian at h
  split_ifs at h
  · cases h
  · exact (Option.some.inj h).symm

theorem payload_sendMessageFromGuardian {context : GuardianExecutionContext} {message : Message}
    {payload : GuardianExecutionContext × Signature}
    (h : (sendMessageFromGuardian context message).payload = some payload) :
    message.signature.map (fun signature => (context, signature)) = some payload := by
  unfold sendMessageFromGuardian at h
  split_ifs at h
  · cases h
  · exact h

theorem signature_message (job : MessageJob) (signature : Signature) :
    (job.message signature).signature = some signature := by
  cases job with
  | pause blockData => rfl
  | unvet stakingModuleData blockData chunk => rfl
  | deposit stakingModuleData blockData => rfl

theorem triple_onSecurity {α : Type} {m : Service SecurityState α} {Q : α → SecurityState → Prop}
    {E : SecurityState → Prop} (h : Triple (· = s.security) m Q E) :
    Triple (· = s) (onSecurity m)
      (fun a t => ∃ security, Q a security ∧ t = { s with security := security })
      (fun t => ∃ security, E security ∧ t = { s with security := security }) :=
  triple_zoom h

/-- The message is signed by the wallet of its context. -/
theorem triple_signing (job : MessageJob) (contract : String) (answer : Except String String) :
    Triple (· = s) (onSecurity
        (SignThread.resume deps ⟨job.request, job.context, contract⟩ answer))
      (fun signature t => MessageStep deps (.signing job contract) (.messagePrefix answer) s t ∧
        MessageNext deps (.signing job contract) (.signed job signature) t)
      (fun t => MessageStep deps (.signing job contract) (.messagePrefix answer) s t) := by
  cases answer with
  | error e =>
    rintro t rfl
    refine ⟨fun signature t hrun => (by cases hrun), fun e' t hrun => ?_⟩
    cases hrun
    exact .refl _ _
  | ok messagePrefix =>
    refine (triple_onSecurity (triple_signResume ⟨job.request, job.context, contract⟩
      (.ok messagePrefix))).mono (fun _ h => h) ?_ ?_
    · rintro signature t ⟨_, ⟨messagePrefix', wallet, bytes, _, hwallet, hbytes, hsignature, rfl⟩, rfl⟩
      refine ⟨⟨rfl, Or.inr ⟨wallet, hwallet, rfl⟩, Or.inr ⟨_, .signed rfl hbytes, rfl⟩, Or.inl rfl, rfl⟩,
        ?_⟩
      refine ⟨fun _ h => h, rfl, fun context hcontext => Or.inr ?_, ?_, fun _ h => h⟩
      · rw [unpublished_sendMessageFromGuardian hcontext]
        exact hwallet
      · rintro _ ⟨⟩
        exact Or.inr ⟨wallet, _, hwallet, hsignature⟩
    · rintro t ⟨_, hselected, rfl⟩
      rcases hselected with rfl | ⟨wallet, hwallet, rfl⟩
      · exact .refl _ _
      · exact ⟨rfl, Or.inr ⟨wallet, hwallet, rfl⟩, Or.inl rfl, Or.inl rfl, rfl⟩

theorem relies_of_transaction {job : MessageJob} {signature : Signature} {call : DirectCall}
    (h : job.transaction signature = some call) : job.relies = some job.context.dsmAddress := by
  cases job with
  | pause blockData => rfl
  | unvet stakingModuleData blockData chunk => rfl
  | deposit stakingModuleData blockData => cases h

theorem block_of_deposit {job : MessageJob} {signature : Signature} {deposit : MessageDeposit}
    (h : job.message signature = .deposit deposit) : job.block = some deposit.blockNumber := by
  cases job with
  | pause blockData => cases h
  | unvet stakingModuleData blockData chunk => cases h
  | deposit stakingModuleData blockData =>
    cases h
    rfl

/-- A call that finds its flag raised does nothing. -/
theorem run_callTransaction_busy {context : GuardianExecutionContext} {call : DirectCall}
    {security : SecurityState}
    (h : (call.method.flags security).busy call.method.callId = true) :
    EStateM.run (callTransaction deps context call) security = .ok none security := by
  have hrun : EStateM.run (callTransaction deps context call) security =
      EStateM.run (if (call.method.flags security).busy call.method.callId then
        (pure none : Service SecurityState (Option TransactionThread)) else do
          set (call.method.setFlags ((call.method.flags security).enter call.method.callId) security)
          tryCatch
            (do
              sendTransaction deps context call
              return some (TransactionThread.waiting call.method))
            fun _ => return some (.leaving call.method)) security := rfl
  rw [hrun, if_pos h]
  rfl

/-- The transaction of a signed message goes out, or there is none. -/
theorem triple_transaction (job : MessageJob) (signature : Signature) (call : DirectCall)
    (hcall : job.transaction signature = some call) :
    Triple (· = s) (onSecurity (callTransaction deps job.context call))
      (fun _ t => MessageStep deps (.signed job signature) .settled s t ∧ t.history = s.history)
      (fun _ => False) := by
  have hselects : (MessageThread.signed job signature).selects deps s .settled =
      if (call.method.flags s.security).busy call.method.callId then none
      else designatedWallet deps job.context := by
    show (job.transaction signature).bind _ = _
    rw [hcall]
    rfl
  by_cases hbusy : (call.method.flags s.security).busy call.method.callId = true
  · rintro t rfl
    unfold onSecurity
    rw [run_zoom_ok (run_callTransaction_busy hbusy)]
    refine ⟨fun transaction t hrun => ?_, fun e t hrun => (by cases hrun)⟩
    cases hrun
    exact ⟨.refl _ _, rfl⟩
  · rw [if_neg hbusy] at hselects
    refine (triple_onSecurity (triple_callTransaction call)).mono (fun _ h => h) ?_ ?_
    · rintro _ t ⟨security, ⟨hcontract, hwallet, hevents⟩, rfl⟩
      refine ⟨⟨hcontract, ?_, ?_, Or.inl rfl, rfl⟩, rfl⟩
      · rcases hwallet with hsame | ⟨wallet, hdesignated, hactive⟩
        · exact Or.inl hsame
        · exact Or.inr ⟨wallet, hselects.trans hdesignated, hactive⟩
      · rcases hevents with hsame | ⟨wallet, contract, _, hcached, hevent⟩
        · exact Or.inl hsame
        · exact Or.inr ⟨_, .sent (relies_of_transaction hcall) hcached, hevent⟩
    · rintro t ⟨_, hfalse, _⟩
      exact hfalse

/-- A signed message is built and passed on. -/
theorem triple_send (job : MessageJob) (signature : Signature) :
    Triple (· = s) (job.send deps signature)
      (fun r t => MessageStep deps (.signed job signature) .settled s t ∧
        MessageNext deps (.signed job signature) r.1 t) (fun _ => False) := by
  unfold MessageJob.send
  refine Triple.bind (Q := fun _ t => MessageStep deps (.signed job signature) .settled s t ∧
    t.history = s.history) ?_ fun transaction => ?_
  · cases hcall : job.transaction signature with
    | none =>
      refine triple_pure ?_
      rintro t rfl
      exact ⟨.refl _ _, rfl⟩
    | some call => exact triple_transaction job signature call hcall
  · refine Triple.bind (triple_modify (Q := fun _ t =>
      MessageStep deps (.signed job signature) .settled s t) ?_) fun _ => triple_pure ?_
    · rintro t ⟨hstep, hhistory⟩
      refine ⟨hstep.dsmContract, hstep.activeWallet, hstep.events, Or.inr ?_,
        hstep.lastProcessedStateMeta⟩
      refine ⟨.prepared (job.message signature), .prepared fun deposit => block_of_deposit, ?_⟩
      show _ :: t.history = _
      rw [hhistory]
    · intro t hstep
      refine ⟨hstep, ⟨fun _ h => (by cases h), rfl, fun _ h => Or.inl h, fun payload hpayload => ?_,
        fun _ h => (by cases h)⟩⟩
      have hsame := payload_sendMessageFromGuardian hpayload
      rw [signature_message] at hsame
      exact Or.inl hsame

/-- The sender is picked, or nothing happens. -/
theorem triple_publishResume {thread : PublishThread} {answer : MessageAnswer}
    {m : Service CycleState (Option PublishThread)} (h : thread.resume deps answer = some m) :
    Triple (· = s) m
      (fun next t => t.security = s.security ∧ t.lastProcessedStateMeta = s.lastProcessedStateMeta ∧
        (t.history = s.history ∨ ∃ context message, thread = .waiting context message ∧
          t.history = .published context message
            (s.security.activeWallet.getD (WalletService.firstWallet deps)).address :: s.history) ∧
        ∀ thread, next = some thread → thread.unpublished = none ∧ thread.payload = none)
      (· = s) := by
  cases thread with
  | waiting context message =>
    cases answer with
    | connected answer =>
      cases h
      refine Triple.bind (triple_call (Q := fun _ t => t = s) (fun _ _ _ h => h) fun _ h => h)
        fun _ => ?_
      refine Triple.bind (Q := fun wallet t =>
        wallet = s.security.activeWallet.getD (WalletService.firstWallet deps) ∧ t = s) ?_ fun wallet => ?_
      · rintro t rfl
        refine ⟨fun wallet t hrun => ?_, fun e t hrun => (by cases hrun)⟩
        cases hrun
        exact ⟨rfl, rfl⟩
      · rintro t ⟨rfl, rfl⟩
        refine ⟨fun next t hrun => ?_, fun e t hrun => (by cases hrun)⟩
        cases hrun
        refine ⟨rfl, rfl, Or.inr ⟨context, message, rfl, rfl⟩, ?_⟩
        rintro _ ⟨⟩
        exact ⟨rfl, rfl⟩
    | messagePrefix answer => cases h
    | published answer => cases h
    | settled => cases h
  | sending =>
    cases answer with
    | published answer =>
      cases h
      refine Triple.bind (triple_call (Q := fun _ t => t = s) (fun _ _ _ h => h) fun _ h => h)
        fun _ => triple_pure ?_
      rintro t rfl
      exact ⟨rfl, rfl, Or.inl rfl, fun _ h => (by cases h)⟩
    | messagePrefix answer => cases h
    | connected answer => cases h
    | settled => cases h
  | skipped =>
    cases answer with
    | settled =>
      cases h
      refine triple_pure ?_
      rintro t rfl
      exact ⟨rfl, rfl, Or.inl rfl, fun _ h => (by cases h)⟩
    | messagePrefix answer => cases h
    | connected answer => cases h
    | published answer => cases h

/-- What a step of a message does. -/
theorem triple_messageResume {thread : MessageThread} {answer : MessageAnswer}
    {m : Service CycleState (Option MessageThread × Option TransactionThread)}
    (h : thread.resume deps answer = some m) :
    Triple (· = s) m (fun r t => MessageStep deps thread answer s t ∧
        ∀ next, r.1 = some next → MessageNext deps thread next t)
      (fun t => MessageStep deps thread answer s t) := by
  cases thread with
  | signing job contract =>
    cases answer with
    | messagePrefix answer =>
      cases h
      refine Triple.bind (triple_signing job contract answer) fun signature => triple_pure ?_
      rintro t ⟨hstep, hnext⟩
      refine ⟨hstep, ?_⟩
      rintro _ ⟨⟩
      exact hnext
    | connected answer => cases h
    | published answer => cases h
    | settled => cases h
  | signed job signature =>
    cases answer with
    | settled =>
      cases h
      refine Triple.bind ((triple_send job signature).mono (fun _ h => h) (fun _ _ h => h)
        fun _ h => h.elim) fun r => triple_pure ?_
      rintro t ⟨hstep, hnext⟩
      refine ⟨hstep, ?_⟩
      rintro _ ⟨⟩
      exact hnext
    | messagePrefix answer => cases h
    | connected answer => cases h
    | published answer => cases h
  | publishing job thread =>
    simp only [MessageThread.resume, Option.bind_eq_bind, Option.bind_eq_some_iff, Option.pure_def,
      Option.some.injEq] at h
    obtain ⟨m', hm', rfl⟩ := h
    have hstep : ∀ {t : CycleState}, t.security = s.security →
        t.lastProcessedStateMeta = s.lastProcessedStateMeta →
        (t.history = s.history ∨ ∃ context message, thread = .waiting context message ∧
          t.history = .published context message
            (s.security.activeWallet.getD (WalletService.firstWallet deps)).address :: s.history) →
        MessageStep deps (.publishing job thread) answer s t := by
      intro t hsecurity hlast hhistory
      refine ⟨by rw [hsecurity], Or.inl (by rw [hsecurity]), Or.inl (by rw [hsecurity]), ?_, hlast⟩
      rcases hhistory with hsame | ⟨context, message, rfl, hevent⟩
      · exact Or.inl hsame
      · exact Or.inr ⟨_, .published rfl rfl, hevent⟩
    refine Triple.bind ((triple_publishResume hm').mono (fun _ h => h) (fun _ _ h => h) ?_)
      fun next => ?_
    · rintro t rfl
      exact .refl _ _
    · cases next with
      | some next =>
        refine triple_pure ?_
        rintro t ⟨hsecurity, hlast, hhistory, hnext⟩
        refine ⟨hstep hsecurity hlast hhistory, ?_⟩
        rintro _ ⟨⟩
        refine ⟨fun _ h => (by cases h), rfl, fun context hcontext => ?_, fun payload hpayload => ?_,
          fun _ h => (by cases h)⟩
        · rw [show (MessageThread.publishing job next).unpublished = next.unpublished from rfl,
            (hnext next rfl).1] at hcontext
          cases hcontext
        · rw [show (MessageThread.publishing job next).payload = next.payload from rfl,
            (hnext next rfl).2] at hpayload
          cases hpayload
      | none =>
        refine Triple.bind (Q := fun _ t => MessageStep deps (.publishing job thread) answer s t) ?_
          fun _ => triple_pure fun t ht => ⟨ht, fun _ h => (by cases h)⟩
        cases job with
        | pause blockData => exact triple_pure fun t ht => hstep ht.1 ht.2.1 ht.2.2.1
        | unvet stakingModuleData blockData chunk =>
          exact triple_pure fun t ht => hstep ht.1 ht.2.1 ht.2.2.1
        | deposit stakingModuleData blockData =>
          exact triple_modify fun t ht => hstep ht.1 ht.2.1 ht.2.2.1

/-! ## Steps of a thread -/

variable (deps) in
/-- What a step of a thread lets out. -/
inductive CycleThread.Leaves (thread : CycleThread) (s : CycleState) : SecurityEvent → Prop
  | signed {contract context messagePrefix request wallet bytes} :
      (contract, context) ∈ thread.readings →
      preimage deps messagePrefix context request = .ok bytes →
      Leaves thread s (.signed context contract messagePrefix request wallet
        (deps.ethers.keccak256 bytes))
  | sent {context wallet contract call} : context.dsmAddress ∈ thread.relies →
      s.security.dsmContract = some contract →
      Leaves thread s (.sent context (directTransaction context wallet contract call))

variable (deps) in
/-- What a step of a thread adds to the history. -/
inductive CycleThread.Notes (thread : CycleThread) (answer : CycleAnswer) (s t : CycleState) :
    CycleEvent → Prop
  | prepared {message} :
      (∀ deposit, message = .deposit deposit → deposit.blockNumber ∈ thread.blocks) →
      t.lastProcessedStateMeta = s.lastProcessedStateMeta → Notes thread answer s t (.prepared message)
  | published {context message} : context ∈ thread.unpublished →
      (∀ signature, message.signature = some signature → (context, signature) ∈ thread.payloads) →
      t.lastProcessedStateMeta = s.lastProcessedStateMeta →
      Notes thread answer s t (.published context message
        (s.security.activeWallet.getD (WalletService.firstWallet deps)).address)
  | recorded {stateMeta} : thread.records answer = some stateMeta.blockNumber →
      t.lastProcessedStateMeta = some stateMeta → Notes thread answer s t (.recorded stateMeta)

variable (deps) in
/-- What a step does to the state. -/
structure StateStep (thread : CycleThread) (answer : CycleAnswer) (s t : CycleState) : Prop where
  dsmContract : t.security.dsmContract = s.security.dsmContract ∨
    ∃ address, thread.stores answer = some address ∧ t.security.dsmContract = some address
  activeWallet : t.security.activeWallet = s.security.activeWallet ∨
    ∃ wallet, thread.selects deps s answer = some wallet ∧ t.security.activeWallet = some wallet
  events : t.security.events = s.security.events ∨
    ∃ event, thread.Leaves deps s event ∧ t.security.events = event :: s.security.events
  history : t.history = s.history ∧ t.lastProcessedStateMeta = s.lastProcessedStateMeta ∨
    ∃ event, thread.Notes deps answer s t event ∧ t.history = event :: s.history

variable (deps) in
/-- What a thread that is left by a step relies on. -/
structure Follows (thread : CycleThread) (answer : CycleAnswer) (s t : CycleState)
    (next : CycleThread) : Prop where
  relies : ∀ address ∈ next.relies, address ∈ thread.relies ∨ HasContract deps t address
  readings : ∀ reading ∈ next.readings, reading ∈ thread.readings ∨
    t.security.dsmContract = some reading.1 ∧ reading.2.dsmAddress ∈ thread.relies
  unpublished : ∀ context ∈ next.unpublished, context ∈ thread.unpublished ∨
    Active deps t context ∨ thread.pings s answer = some context ∧ t.security = s.security
  payloads : ∀ payload ∈ next.payloads, payload ∈ thread.payloads ∨ SignedFor deps payload
  blocks : ∀ number ∈ next.blocks, number ∈ thread.blocks ∨
    ∀ last, t.lastProcessedStateMeta = some last → last.blockNumber ≤ number

variable (deps) in
/-- A step and the threads it leaves. -/
def StepSpec (thread : CycleThread) (answer : CycleAnswer) (s t : CycleState)
    (next : List CycleThread) : Prop :=
  StateStep deps thread answer s t ∧ ∀ other ∈ next, Follows deps thread answer s t other

section Steps

variable {thread : CycleThread} {answer : CycleAnswer} {next next' : List CycleThread}

theorem StateStep.quiet (hsecurity : t.security = s.security) (hhistory : t.history = s.history)
    (hlast : t.lastProcessedStateMeta = s.lastProcessedStateMeta) :
    StateStep deps thread answer s t :=
  ⟨Or.inl (by rw [hsecurity]), Or.inl (by rw [hsecurity]), Or.inl (by rw [hsecurity]),
    Or.inl ⟨hhistory, hlast⟩⟩

theorem StateStep.refl : StateStep deps thread answer s s := .quiet rfl rfl rfl

/-- A step of a context. -/
theorem StateStep.selected {selects : Option Wallet} {security : SecurityState}
    (h : Selected selects s.security security) (hselects : thread.selects deps s answer = selects) :
    StateStep deps thread answer s { s with security := security } := by
  rcases h with rfl | ⟨wallet, hwallet, rfl⟩
  · exact .refl
  · exact ⟨Or.inl rfl, Or.inr ⟨wallet, hselects.trans hwallet, rfl⟩, Or.inl rfl, Or.inl ⟨rfl, rfl⟩⟩

theorem StepSpec.nil (h : StateStep deps thread answer s t) : StepSpec deps thread answer s t [] :=
  ⟨h, fun _ hmem => (by cases hmem)⟩

theorem StepSpec.append (h : StepSpec deps thread answer s t next)
    (h' : StepSpec deps thread answer s t next') :
    StepSpec deps thread answer s t (next ++ next') :=
  ⟨h.1, fun other hmem => (List.mem_append.1 hmem).elim (h.2 other) (h'.2 other)⟩

theorem StepSpec.cons {first : CycleThread} (hfirst : Follows deps thread answer s t first)
    (h : StepSpec deps thread answer s t next) : StepSpec deps thread answer s t (first :: next) := by
  refine ⟨h.1, fun other hmem => ?_⟩
  rcases List.mem_cons.1 hmem with rfl | hmem
  · exact hfirst
  · exact h.2 other hmem

theorem StepSpec.single {first : CycleThread} (h : StateStep deps thread answer s t)
    (hfirst : Follows deps thread answer s t first) : StepSpec deps thread answer s t [first] :=
  .cons hfirst (.nil h)

/-- A thread that relies on nothing. -/
structure Free (thread : CycleThread) : Prop where
  relies : thread.relies = []
  readings : thread.readings = []
  unpublished : thread.unpublished = []
  payloads : thread.payloads = []
  blocks : thread.blocks = []

theorem Free.follows {other : CycleThread} (h : Free other) :
    Follows deps thread answer s t other := by
  refine ⟨fun address hmem => ?_, fun reading hmem => ?_, fun context hmem => ?_,
    fun payload hmem => ?_, fun number hmem => ?_⟩
  · rw [h.relies] at hmem
    cases hmem
  · rw [h.readings] at hmem
    cases hmem
  · rw [h.unpublished] at hmem
    cases hmem
  · rw [h.payloads] at hmem
    cases hmem
  · rw [h.blocks] at hmem
    cases hmem

theorem StepSpec.free (h : StateStep deps thread answer s t)
    (hnext : ∀ other ∈ next, Free other) : StepSpec deps thread answer s t next :=
  ⟨h, fun other hmem => (hnext other hmem).follows⟩

theorem free_leaving (method : CycleMethod) : Free (.leaving method) := ⟨rfl, rfl, rfl, rfl, rfl⟩

theorem free_context (thread : ContextThread) : Free (.context thread) := ⟨rfl, rfl, rfl, rfl, rfl⟩

theorem free_transaction (thread : TransactionThread) : Free (.transaction thread) :=
  ⟨rfl, rfl, rfl, rfl, rfl⟩

theorem StepSpec.ended (h : StateStep deps thread answer s t) (method : CycleMethod)
    (inTime : Bool) : StepSpec deps thread answer s t (ended method inTime) := by
  refine .free h fun other hmem => ?_
  unfold Guardian.ended at hmem
  split_ifs at hmem
  · obtain rfl := List.mem_singleton.1 hmem
    exact free_leaving method
  · cases hmem

theorem StepSpec.transactions (h : StateStep deps thread answer s t)
    (transaction : Option TransactionThread) :
    StepSpec deps thread answer s t (transaction.toList.map .transaction) := by
  refine .free h fun other hmem => ?_
  obtain ⟨transaction, _, rfl⟩ := List.mem_map.1 hmem
  exact free_transaction transaction

/-! ## Messages in a thread -/

variable (deps) in
/-- What a message relies on is there in the thread. -/
structure MessageFollows (thread : CycleThread) (t : CycleState) (message : MessageThread) :
    Prop where
  relies : ∀ address, message.relies = some address → address ∈ thread.relies
  reading : ∀ reading, message.reading = some reading → reading ∈ thread.readings ∨
    t.security.dsmContract = some reading.1 ∧ reading.2.dsmAddress ∈ thread.relies
  unpublished : ∀ context, message.unpublished = some context →
    context ∈ thread.unpublished ∨ Active deps t context
  payload : ∀ payload, message.payload = some payload →
    payload ∈ thread.payloads ∨ SignedFor deps payload
  block : ∀ number, message.block = some number → number ∈ thread.blocks

section Member

variable {message : MessageThread} (hmem : message ∈ thread.messages)

include hmem

theorem mem_relies {address : String} (h : message.relies = some address) :
    address ∈ thread.relies :=
  List.mem_append_right _ (List.mem_filterMap.2 ⟨message, hmem, h⟩)

theorem mem_unpublished {context : GuardianExecutionContext}
    (h : message.unpublished = some context) : context ∈ thread.unpublished :=
  List.mem_append_right _ (List.mem_filterMap.2 ⟨message, hmem, h⟩)

theorem mem_payloads {payload : GuardianExecutionContext × Signature}
    (h : message.payload = some payload) : payload ∈ thread.payloads :=
  List.mem_append_right _ (List.mem_filterMap.2 ⟨message, hmem, h⟩)

theorem mem_blocks {number : ℕ} (h : message.block = some number) : number ∈ thread.blocks :=
  List.mem_append_right _ (List.mem_filterMap.2 ⟨message, hmem, h⟩)

theorem mem_readings {reading : String × GuardianExecutionContext}
    (h : message.reading = some reading) : reading ∈ thread.readings :=
  List.mem_filterMap.2 ⟨message, hmem, h⟩

theorem MessageFollows.of_mem : MessageFollows deps thread t message :=
  ⟨fun _ => mem_relies hmem, fun _ h => Or.inl (mem_readings hmem h),
    fun _ h => Or.inl (mem_unpublished hmem h), fun _ h => Or.inl (mem_payloads hmem h),
    fun _ => mem_blocks hmem⟩

theorem MessageNext.follows {other : MessageThread} (h : MessageNext deps message other t) :
    MessageFollows deps thread t other := by
  refine ⟨fun address haddress => mem_relies hmem (h.relies address haddress), ?_, ?_, ?_,
    fun number hnumber => mem_blocks hmem (h.block number hnumber)⟩
  · intro reading hreading
    rw [h.reading] at hreading
    cases hreading
  · intro context hcontext
    exact (h.unpublished context hcontext).imp_left (mem_unpublished hmem)
  · intro payload hpayload
    exact (h.payload payload hpayload).imp_left (mem_payloads hmem)

/-- A step of a message is one of its thread. -/
theorem MessageStep.stateStep {messageAnswer : MessageAnswer}
    (h : MessageStep deps message messageAnswer s t)
    (hselects : thread.selects deps s answer = message.selects deps s messageAnswer) :
    StateStep deps thread answer s t := by
  refine ⟨Or.inl h.dsmContract, ?_, ?_, ?_⟩
  · rw [hselects]
    exact h.activeWallet
  · rcases h.events with hsame | ⟨event, hleaves, hevents⟩
    · exact Or.inl hsame
    · refine Or.inr ⟨event, ?_, hevents⟩
      cases hleaves with
      | signed hreading hbytes => exact .signed (mem_readings hmem hreading) hbytes
      | sent hrelies hcached => exact .sent (mem_relies hmem hrelies) hcached
  · rcases h.history with hsame | ⟨event, hnotes, hhistory⟩
    · exact Or.inl ⟨hsame, h.lastProcessedStateMeta⟩
    · refine Or.inr ⟨event, ?_, hhistory⟩
      cases hnotes with
      | prepared hblock =>
        exact .prepared (fun deposit hdeposit => mem_blocks hmem (hblock deposit hdeposit))
          h.lastProcessedStateMeta
      | published hcontext hpayload =>
        refine .published (mem_unpublished hmem hcontext) (fun signature hsignature => ?_)
          h.lastProcessedStateMeta
        rw [hsignature] at hpayload
        exact mem_payloads hmem hpayload

end Member

theorem MessageFollows.begun {job : MessageJob} {contract : String}
    (hrelies : job.context.dsmAddress ∈ thread.relies)
    (hcached : t.security.dsmContract = some contract)
    (hblock : job.blockData.blockNumber ∈ thread.blocks) :
    MessageFollows deps thread t (.signing job contract) := by
  refine ⟨fun address haddress => ?_, ?_, fun _ h => (by cases h), fun _ h => (by cases h),
    fun number hnumber => ?_⟩
  · have hsame : address = job.context.dsmAddress := by
      cases job with
      | pause blockData => exact (Option.some.inj haddress).symm
      | unvet stakingModuleData blockData chunk => exact (Option.some.inj haddress).symm
      | deposit stakingModuleData blockData => cases haddress
    rw [hsame]
    exact hrelies
  · rintro _ ⟨⟩
    exact Or.inr ⟨hcached, hrelies⟩
  · have hsame : number = job.blockData.blockNumber := by
      cases job with
      | pause blockData => cases hnumber
      | unvet stakingModuleData blockData chunk => cases hnumber
      | deposit stakingModuleData blockData => exact (Option.some.inj hnumber).symm
    rw [hsame]
    exact hblock

/-- A thread relies on what its messages and it itself rely on. -/
theorem follows_of_messages {other : CycleThread}
    (hrelies : ∀ address, other.ownRelies = some address →
      address ∈ thread.relies ∨ HasContract deps t address)
    (hblock : ∀ number, other.ownBlock = some number → number ∈ thread.blocks ∨
      ∀ last, t.lastProcessedStateMeta = some last → last.blockNumber ≤ number)
    (hping : other.ownUnpublished = none) (hpayload : other.ownPayload = none)
    (hmessages : ∀ message ∈ other.messages, MessageFollows deps thread t message) :
    Follows deps thread answer s t other := by
  refine ⟨fun address hmem => ?_, fun reading hmem => ?_, fun context hmem => ?_,
    fun payload hmem => ?_, fun number hmem => ?_⟩
  · rcases List.mem_append.1 hmem with hmem | hmem
    · exact hrelies address (Option.mem_toList.1 hmem)
    · obtain ⟨message, hmessage, haddress⟩ := List.mem_filterMap.1 hmem
      exact Or.inl ((hmessages message hmessage).relies address haddress)
  · obtain ⟨message, hmessage, hreading⟩ := List.mem_filterMap.1 hmem
    exact (hmessages message hmessage).reading reading hreading
  · rcases List.mem_append.1 hmem with hmem | hmem
    · rw [hping] at hmem
      cases hmem
    · obtain ⟨message, hmessage, hcontext⟩ := List.mem_filterMap.1 hmem
      exact ((hmessages message hmessage).unpublished context hcontext).imp_right Or.inl
  · rcases List.mem_append.1 hmem with hmem | hmem
    · rw [hpayload] at hmem
      cases hmem
    · obtain ⟨message, hmessage, hpayload'⟩ := List.mem_filterMap.1 hmem
      exact (hmessages message hmessage).payload payload hpayload'
  · rcases List.mem_append.1 hmem with hmem | hmem
    · exact hblock number (Option.mem_toList.1 hmem)
    · obtain ⟨message, hmessage, hnumber⟩ := List.mem_filterMap.1 hmem
      exact Or.inl ((hmessages message hmessage).block number hnumber)

/-- A ping has no signature. -/
theorem follows_ping {ping : PublishThread}
    (hunpublished : ∀ context, ping.unpublished = some context →
      thread.pings s answer = some context ∧ t.security = s.security)
    (hpayload : ping.payload = none) : Follows deps thread answer s t (.ping ping) := by
  refine ⟨fun address hmem => (by cases hmem), fun reading hmem => (by cases hmem),
    fun context hmem => ?_, fun payload hmem => ?_, fun number hmem => (by cases hmem)⟩
  · rcases List.mem_append.1 hmem with hmem | hmem
    · exact Or.inr (Or.inr (hunpublished context (Option.mem_toList.1 hmem)))
    · cases hmem
  · rcases List.mem_append.1 hmem with hmem | hmem
    · rw [show (CycleThread.ping ping).ownPayload = none from hpayload] at hmem
      cases hmem
    · cases hmem

/-- A thread that relies on the same. -/
theorem follows_same {other : CycleThread} (hrelies : other.ownRelies = thread.ownRelies)
    (hblock : other.ownBlock = thread.ownBlock) (hping : other.ownUnpublished = none)
    (hpayload : other.ownPayload = none) (hmessages : other.messages = thread.messages) :
    Follows deps thread answer s t other := by
  refine follows_of_messages ?_ ?_ hping hpayload fun message hmem => ?_
  · intro address haddress
    rw [hrelies] at haddress
    exact Or.inl (List.mem_append_left _ (Option.mem_toList.2 haddress))
  · intro number hnumber
    rw [hblock] at hnumber
    exact Or.inl (List.mem_append_left _ (Option.mem_toList.2 hnumber))
  · rw [hmessages] at hmem
    exact .of_mem hmem

/-! ## The background run -/

theorem triple_sign (job : MessageJob) :
    Triple (· = s) job.sign
      (fun message t => (∃ contract, s.security.dsmContract = some contract ∧
        message = .signing job contract) ∧ t = s) (· = s) := by
  unfold MessageJob.sign
  refine Triple.bind ((triple_onSecurity (triple_getMessagePrefix job.request job.context)).mono
    (fun _ h => h) (B := fun thread t => s.security.dsmContract = some thread.contract ∧ t = s)
    ?_ ?_) fun thread => triple_pure ?_
  · rintro thread t ⟨_, ⟨hcached, _, _, rfl⟩, rfl⟩
    exact ⟨hcached, rfl⟩
  · rintro t ⟨_, rfl, rfl⟩
    rfl
  · rintro t ⟨hcached, rfl⟩
    exact ⟨⟨_, hcached, rfl⟩, rfl⟩

/-- A module starts a deposit message or none. -/
theorem triple_handleCorrectKeys (blockData : BlockData) (stakingModuleData : StakingModuleData) :
    Triple (· = s) (handleCorrectKeys blockData stakingModuleData)
      (fun r t => (∀ message, r = some message → ∃ contract, s.security.dsmContract = some contract ∧
        message = .signing (.deposit stakingModuleData blockData) contract) ∧ t = s) (· = s) := by
  unfold handleCorrectKeys
  refine Triple.bind (triple_get (Q := fun _ t => t = s) fun _ h => h) fun a => ?_
  dsimp only
  split_ifs
  · exact triple_pure fun t ht => ⟨fun _ h => (by cases h), ht⟩
  · refine Triple.bind (triple_sign (s := s) (.deposit stakingModuleData blockData)) fun thread =>
      triple_pure ?_
    rintro t ⟨hthread, rfl⟩
    refine ⟨?_, rfl⟩
    rintro _ ⟨⟩
    exact hthread

theorem triple_startDeposits (run : KeysRun) :
    Triple (· = s) (startDeposits run)
      (fun stage t => (∃ messages, stage = .depositing run messages ∧ ∀ message ∈ messages,
        ∃ stakingModuleData contract, s.security.dsmContract = some contract ∧
          message = .signing (.deposit stakingModuleData run.blockData) contract) ∧ t = s)
      (· = s) := by
  have hmapM := Service.mapM_spec (I := (· = s)) (f := handleCorrectKeys run.blockData)
    (R := fun stakingModuleData r => ∀ message, r = some message →
      ∃ contract, s.security.dsmContract = some contract ∧
        message = .signing (.deposit stakingModuleData run.blockData) contract) (by
      intro stakingModuleData u hu
      have htriple := triple_handleCorrectKeys (s := s) run.blockData stakingModuleData
      rw [show u = s from hu]
      exact ⟨htriple.after rfl fun _ _ h => h.2, fun b t hrun => ((htriple s rfl).1 b t hrun).1⟩)
    (handleDeposit run.stakingModulesData run.blockData) s rfl
  unfold startDeposits
  refine Triple.bind (Q := fun messages t => List.Forall₂ (fun stakingModuleData r =>
    ∀ message, r = some message → ∃ contract, s.security.dsmContract = some contract ∧
      message = .signing (.deposit stakingModuleData run.blockData) contract)
    (handleDeposit run.stakingModulesData run.blockData) messages ∧ t = s) ?_ fun messages =>
      triple_pure ?_
  · rintro t rfl
    obtain ⟨hstate, hvalues⟩ := hmapM
    refine ⟨fun messages t hrun => ?_, fun e t hrun => ?_⟩
    · rw [hrun] at hstate
      exact ⟨hvalues messages t hrun, hstate⟩
    · rw [hrun] at hstate
      exact hstate
  · rintro t ⟨hmessages, rfl⟩
    refine ⟨⟨_, rfl, fun message hmem => ?_⟩, rfl⟩
    obtain ⟨r, hr, rfl⟩ := List.mem_filterMap.1 hmem
    obtain ⟨stakingModuleData, _, hspec⟩ := (mem_of_forall₂ hmessages).2 _ hr
    exact ⟨stakingModuleData, hspec message rfl⟩

/-- The deposit messages of a run begin under its context. -/
theorem follows_startDeposits {u : CycleState} {run : KeysRun} (inTime : Bool)
    (hrelies : run.blockData.guardianContext.dsmAddress ∈ thread.relies)
    (hblock : run.blockData.blockNumber ∈ thread.blocks) :
    Triple (· = u) (startDeposits run)
      (fun stage t => Follows deps thread answer s u (.keys inTime stage) ∧ t = u) (· = u) := by
  refine (triple_startDeposits run).mono (fun _ h => h) ?_ fun _ h => h
  rintro _ t ⟨⟨messages, rfl, hmessages⟩, rfl⟩
  refine ⟨follows_of_messages (fun _ h => (by cases h)) ?_ rfl rfl ?_, rfl⟩
  · rintro _ ⟨⟩
    exact Or.inl hblock
  · intro message hmem
    obtain ⟨stakingModuleData, contract, hcached, rfl⟩ := hmessages message hmem
    exact .begun hrelies hcached hblock

theorem follows_handleUnvetting {run : KeysRun} (inTime : Bool)
    (hrelies : run.blockData.guardianContext.dsmAddress ∈ thread.relies)
    (hblock : run.blockData.blockNumber ∈ thread.blocks) :
    Triple (· = s) (handleUnvetting run)
      (fun stage t => Follows deps thread answer s s (.keys inTime stage) ∧ t = s) (· = s) := by
  unfold handleUnvetting
  cases findFirstInvalidModule run.stakingModulesData with
  | none => exact follows_startDeposits inTime hrelies hblock
  | some firstInvalidModule =>
    dsimp only
    split_ifs
    · exact follows_startDeposits inTime hrelies hblock
    · refine triple_pure ?_
      rintro t rfl
      refine ⟨follows_of_messages ?_ ?_ rfl rfl fun _ h => (by cases h), rfl⟩
      · rintro _ ⟨⟩
        exact Or.inl hrelies
      · rintro _ ⟨⟩
        exact Or.inl hblock

variable (deps) in
/-- The end of a run records its block, and may build a ping. -/
theorem triple_finishKeys (run : KeysRun) (inTime : Bool) :
    Triple (· = s) (finishKeys run)
      (fun pings t => StepSpec deps (.keys inTime (.depositing run [])) .settled s t pings)
      (fun _ => False) := by
  have hrun : ∃ t, EStateM.run (finishKeys run) s =
        .ok (if isPingNeeded s.lastPingBlock run.blockData.blockNumber then
          [CycleThread.ping (pingMessageBroker run)] else []) t ∧
      t.security = s.security ∧
      t.lastProcessedStateMeta = some ⟨run.blockData.blockHash, run.blockData.blockNumber⟩ ∧
      t.history = .recorded ⟨run.blockData.blockHash, run.blockData.blockNumber⟩ :: s.history := by
    unfold finishKeys
    by_cases hping : isPingNeeded s.lastPingBlock run.blockData.blockNumber = true
    · refine ⟨{ s with
        lastPingBlock := some run.blockData.blockNumber
        lastProcessedStateMeta := some ⟨run.blockData.blockHash, run.blockData.blockNumber⟩
        history := .recorded ⟨run.blockData.blockHash, run.blockData.blockNumber⟩ :: s.history },
        ?_, rfl, rfl, rfl⟩
      simp only [EStateM.run_bind, EStateM.run_get, if_pos hping]
      rfl
    · refine ⟨{ s with
        lastProcessedStateMeta := some ⟨run.blockData.blockHash, run.blockData.blockNumber⟩
        history := .recorded ⟨run.blockData.blockHash, run.blockData.blockNumber⟩ :: s.history },
        ?_, rfl, rfl, rfl⟩
      simp only [EStateM.run_bind, EStateM.run_get, if_neg hping]
      rfl
  obtain ⟨t, hrun, hsecurity, hlast, hhistory⟩ := hrun
  rintro _ rfl
  refine ⟨fun pings u h => ?_, fun e u h => ?_⟩
  · rw [hrun] at h
    cases h
    refine ⟨⟨Or.inl (by rw [hsecurity]), Or.inl (by rw [hsecurity]), Or.inl (by rw [hsecurity]),
      Or.inr ⟨_, .recorded rfl hlast, hhistory⟩⟩, fun other hmem => ?_⟩
    split_ifs at hmem with hping
    · obtain rfl := List.mem_singleton.1 hmem
      refine follows_ping (fun context hcontext => ⟨(if_pos hping).trans hcontext, hsecurity⟩) ?_
      exact Option.eq_none_iff_forall_not_mem.2 fun payload hpayload => by
        cases payload_sendMessageFromGuardian hpayload
    · cases hmem
  · rw [hrun] at h
    cases h

/-- A message of a thread goes on. -/
theorem follows_next {message next : MessageThread} (hmem : message ∈ thread.messages)
    (hnext : MessageNext deps message next t) {other : CycleThread}
    (hrelies : other.ownRelies = none ∨ other.ownRelies = thread.ownRelies)
    (hblock : other.ownBlock = none ∨ other.ownBlock = thread.ownBlock)
    (hping : other.ownUnpublished = none) (hpayload : other.ownPayload = none)
    (hmessages : ∀ m ∈ other.messages, m = next ∨ m ∈ thread.messages) :
    Follows deps thread answer s t other := by
  refine follows_of_messages ?_ ?_ hping hpayload ?_
  · intro address haddress
    rcases hrelies with hnone | hsame
    · rw [hnone] at haddress
      cases haddress
    · rw [hsame] at haddress
      exact Or.inl (List.mem_append_left _ (Option.mem_toList.2 haddress))
  · intro number hnumber
    rcases hblock with hnone | hsame
    · rw [hnone] at hnumber
      cases hnumber
    · rw [hsame] at hnumber
      exact Or.inl (List.mem_append_left _ (Option.mem_toList.2 hnumber))
  · intro m hm
    rcases hmessages m hm with rfl | hm
    · exact hnext.follows hmem
    · exact .of_mem hm

/-- A step of the background run. -/
theorem triple_keysResume {stage : KeysStage} {inTime : Bool}
    {m : Service CycleState (List CycleThread)} (h : stage.resume deps inTime answer = some m) :
    Triple (· = s) m (fun next t => StepSpec deps (.keys inTime stage) answer s t next)
      (fun t => StateStep deps (.keys inTime stage) answer s t) := by
  unfold KeysStage.resume at h
  split at h
  · rename_i run checked
    cases h
    refine Triple.bind (triple_call (Q := fun _ t => t = s) (fun _ _ _ h => h) fun t h => ?_)
      fun stakingModulesData => ?_
    · subst h
      exact .refl
    have hunvetting : Triple (· = s)
        (handleUnvetting { run with stakingModulesData := stakingModulesData })
        (fun stage t => Follows deps (.keys inTime (.checking run)) (.checkedKeys checked) s s
          (.keys inTime stage) ∧ t = s) (· = s) :=
      follows_handleUnvetting inTime (List.mem_append_left _ (List.mem_singleton_self _))
        (List.mem_append_left _ (List.mem_singleton_self _))
    refine Triple.bind (hunvetting.mono (fun _ h => h) (fun _ _ h => h) fun t h => ?_)
      fun stage => triple_pure ?_
    · subst h
      exact .refl
    rintro t ⟨hfollows, rfl⟩
    exact .single .refl hfollows
  · rename_i run stakingModuleData answer
    cases h
    refine Triple.bind (triple_call (Q := fun _ t => t = s) (fun _ _ _ h => h) fun t h => ?_)
      fun maxOperators => ?_
    · subst h
      exact .refl
    refine Triple.bind (triple_call (Q := fun _ t => t = s) (fun _ _ _ h => h) fun t h => ?_)
      fun firstChunk => ?_
    · subst h
      exact .refl
    refine Triple.bind ((triple_sign _).mono (fun _ h => h) (fun _ _ h => h) fun t h => ?_)
      fun thread => triple_pure ?_
    · subst h
      exact .refl
    rintro t ⟨⟨contract, hcached, rfl⟩, rfl⟩
    refine .single .refl (follows_of_messages ?_ ?_ rfl rfl ?_)
    · rintro _ ⟨⟩
      exact Or.inl (List.mem_append_left _ (List.mem_singleton_self _))
    · rintro _ ⟨⟩
      exact Or.inl (List.mem_append_left _ (List.mem_singleton_self _))
    · intro message hmem
      obtain rfl := List.mem_singleton.1 hmem
      exact .begun (List.mem_append_left _ (List.mem_singleton_self _)) hcached
        (List.mem_append_left _ (List.mem_singleton_self _))
  · rename_i run thread answer
    simp only [Option.bind_eq_bind, Option.bind_eq_some_iff, Option.pure_def, Option.some.injEq] at h
    obtain ⟨m', hm', rfl⟩ := h
    have hmem : thread ∈ (CycleThread.keys inTime (.unvetting run thread)).messages :=
      List.mem_singleton_self thread
    refine Triple.bind ((triple_messageResume hm').mono (fun _ h => h) (fun _ _ h => h)
      fun t h => h.stateStep hmem rfl) fun r => ?_
    rintro t ⟨hstep, hnext⟩
    have hstate : StateStep deps (.keys inTime (.unvetting run thread)) (.message answer) s t :=
      hstep.stateStep hmem rfl
    refine Triple.bind (P := (· = t)) (Q := fun stage u =>
      Follows deps (.keys inTime (.unvetting run thread)) (.message answer) s t
        (.keys inTime stage) ∧ u = t) ?_ (fun stage => triple_pure ?_) t rfl
    · cases hr : r.1 with
      | none =>
        refine (follows_startDeposits (u := t) inTime ?_ ?_).mono (fun _ h => h) (fun _ _ h => h) ?_
        · exact List.mem_append_left _ (List.mem_singleton_self _)
        · exact List.mem_append_left _ (List.mem_singleton_self _)
        · rintro _ rfl
          exact hstate
      | some next =>
        refine triple_pure ?_
        rintro _ rfl
        refine ⟨follows_next hmem (hnext next hr) (Or.inr rfl) (Or.inr rfl) rfl rfl ?_, rfl⟩
        intro other hother
        exact Or.inl (List.mem_singleton.1 hother)
    · rintro _ ⟨hfollows, rfl⟩
      exact .cons hfollows (.transactions hstate r.2)
  · rename_i run messages index answer
    simp only [Option.bind_eq_bind, Option.bind_eq_some_iff, Option.pure_def, Option.some.injEq] at h
    obtain ⟨thread, hthread, m', hm', rfl⟩ := h
    have hmem : thread ∈ (CycleThread.keys inTime (.depositing run messages)).messages :=
      List.mem_of_getElem? hthread
    have hselects : (CycleThread.keys inTime (.depositing run messages)).selects deps s
        (.deposit index answer) = thread.selects deps s answer := by
      show messages[index]?.bind _ = _
      rw [hthread]
      rfl
    refine Triple.bind ((triple_messageResume hm').mono (fun _ h => h) (fun _ _ h => h)
      fun t h => h.stateStep hmem hselects) fun r => triple_pure ?_
    rintro t ⟨hstep, hnext⟩
    have hstate : StateStep deps (.keys inTime (.depositing run messages)) (.deposit index answer) s t :=
      hstep.stateStep hmem hselects
    refine .cons ?_ (.transactions hstate r.2)
    refine follows_of_messages (fun _ h => (by cases h)) ?_ rfl rfl ?_
    · rintro _ ⟨⟩
      exact Or.inl (List.mem_append_left _ (List.mem_singleton_self _))
    · intro message hmessage
      rcases List.mem_append.1 hmessage with hold | hmessage
      · exact .of_mem (List.mem_of_mem_take hold)
      · rcases List.mem_append.1 hmessage with hnew | hold
        · exact (hnext message (Option.mem_toList.1 hnew)).follows hmem
        · exact .of_mem (List.mem_of_mem_drop hold)
  · rename_i run
    cases h
    refine Triple.bind ((triple_finishKeys deps run inTime).mono (fun _ h => h) (fun _ _ h => h) fun _ h => h.elim)
      fun pings => triple_pure ?_
    intro t hspec
    exact hspec.append (.ended hspec.1 _ _)
  · cases h

/-! ## The cycle -/

theorem triple_handleKeys (stakingModulesData : List StakingModuleData) (blockData : BlockData) :
    Triple (· = s) (handleKeys stakingModulesData blockData)
      (fun next t => t.security = s.security ∧ t.history = s.history ∧
        t.lastProcessedStateMeta = s.lastProcessedStateMeta ∧
        ∀ other ∈ next, other = .keys true (.checking ⟨stakingModulesData, blockData⟩))
      (fun _ => False) := by
  rintro s rfl
  have hrun : EStateM.run (handleKeys stakingModulesData blockData) s =
      if s.handleKeys.busy none then .ok [] s
      else .ok [.keys true (.checking ⟨stakingModulesData, blockData⟩)]
        { s with handleKeys := s.handleKeys.enter none } := by
    unfold handleKeys
    by_cases hbusy : s.handleKeys.busy none = true
    · simp only [EStateM.run_bind, EStateM.run_get, if_pos hbusy]
      rfl
    · simp only [EStateM.run_bind, EStateM.run_get, if_neg hbusy]
      rfl
  rw [hrun]
  split_ifs
  · refine ⟨fun next t h => ?_, fun e t h => (by cases h)⟩
    cases h
    exact ⟨rfl, rfl, rfl, fun _ h => (by cases h)⟩
  · refine ⟨fun next t h => ?_, fun e t h => (by cases h)⟩
    cases h
    exact ⟨rfl, rfl, rfl, fun _ h => List.mem_singleton.1 h⟩

/-- The age check. -/
theorem le_of_needed {last newMeta : StateMeta}
    (h : isNeedToProcessNewState (some last) newMeta = true) :
    last.blockNumber ≤ newMeta.blockNumber := by
  by_contra hlt
  have hold : isNeedToProcessNewState (some last) newMeta = false := if_pos (not_le.1 hlt)
  rw [hold] at h
  cases h

/-- A step of the cycle. -/
theorem triple_newBlockResume {stage : NewBlockStage} {inTime : Bool}
    {m : Service CycleState (List CycleThread)} (h : stage.resume deps inTime answer = some m) :
    Triple (· = s) m (fun next t => StepSpec deps (.newBlock inTime stage) answer s t next)
      (fun t => StateStep deps (.newBlock inTime stage) answer s t) := by
  unfold NewBlockStage.resume at h
  split at h
  · rename_i modules
    cases h
    refine Triple.bind (triple_call (Q := fun _ t => t = s) (fun _ _ _ h => h) fun t h => ?_)
      fun snapshot => ?_
    · subst h
      exact .refl
    refine Triple.bind (triple_get (Q := fun a t => a = s ∧ t = s) fun t h => ⟨h, h⟩) fun a => ?_
    rintro t ⟨rfl, rfl⟩
    dsimp only
    split_ifs with hneeded
    · refine triple_pure (P := (· = t)) ?_ t rfl
      rintro _ rfl
      refine .single .refl (follows_of_messages (fun _ h => (by cases h)) ?_ rfl rfl
        fun _ h => (by cases h))
      rintro _ ⟨⟩
      refine Or.inr fun last hlast => ?_
      rw [hlast] at hneeded
      exact le_of_needed hneeded
    · refine triple_pure (P := (· = t)) ?_ t rfl
      rintro _ rfl
      exact .ended .refl _ _
  · rename_i snapshot dsmAddress
    cases h
    cases dsmAddress with
    | error e =>
      refine triple_throw_bind ?_
      rintro _ rfl
      exact .refl
    | ok address =>
      rintro _ rfl
      refine ⟨fun next t hrun => ?_, fun e t hrun => (by cases hrun)⟩
      cases hrun
      refine .single ⟨Or.inr ⟨address, rfl, rfl⟩, Or.inl rfl, Or.inl rfl, Or.inl ⟨rfl, rfl⟩⟩ ?_
      refine follows_of_messages (fun _ h => (by cases h)) ?_ rfl rfl fun _ h => (by cases h)
      rintro _ ⟨⟩
      exact Or.inl (List.mem_append_left _ (List.mem_singleton_self _))
  · rename_i snapshot ready
    cases h
    refine Triple.bind (triple_call (Q := fun _ t => t = s) (fun _ _ _ h => h) fun t h => ?_)
      fun _ => ?_
    · subst h
      exact .refl
    refine Triple.bind ((triple_onSecurity triple_getGuardianExecutionContext).mono (fun _ h => h)
      (fun _ _ h => h) ?_) fun context => triple_pure ?_
    · rintro t ⟨_, rfl, rfl⟩
      exact .refl
    · rintro t ⟨_, ⟨hcontract, rfl⟩, rfl⟩
      refine .single .refl (follows_of_messages ?_ ?_ rfl rfl fun _ h => (by cases h))
      · rintro _ ⟨⟩
        exact Or.inr hcontract
      · rintro _ ⟨⟩
        exact Or.inl (List.mem_append_left _ (List.mem_singleton_self _))
  · rename_i snapshot context contextAnswer
    simp only [Option.bind_eq_bind, Option.bind_eq_some_iff, Option.pure_def, Option.some.injEq] at h
    obtain ⟨m', hm', rfl⟩ := h
    refine Triple.bind ((triple_onSecurity (triple_contextResume hm')).mono (fun _ h => h)
      (fun _ _ h => h) ?_) fun next => triple_pure ?_
    · rintro t ⟨_, hselected, rfl⟩
      exact .selected hselected rfl
    · rintro t ⟨_, ⟨hselected, hsame⟩, rfl⟩
      have hrelies : context.dsmAddress ∈
          (CycleThread.newBlock inTime (.collecting snapshot context)).relies :=
        List.mem_append_left _ (List.mem_singleton_self _)
      refine .single (.selected hselected rfl) ?_
      cases next with
      | inl next =>
        refine follows_of_messages ?_ ?_ rfl rfl fun _ h => (by cases h)
        · rintro _ ⟨⟩
          rw [show next.dsmAddress = context.dsmAddress from hsame]
          exact Or.inl hrelies
        · rintro _ ⟨⟩
          exact Or.inl (List.mem_append_left _ (List.mem_singleton_self _))
      | inr guardianContext =>
        refine follows_of_messages ?_ ?_ rfl rfl fun _ h => (by cases h)
        · rintro _ ⟨⟩
          rw [show guardianContext.dsmAddress = context.dsmAddress from hsame]
          exact Or.inl hrelies
        · rintro _ ⟨⟩
          exact Or.inl (List.mem_append_left _ (List.mem_singleton_self _))
  · rename_i snapshot context
    cases h
    refine triple_pure ?_
    rintro _ rfl
    exact .cons (free_context context).follows (.ended .refl _ _)
  · rename_i snapshot context collected
    cases h
    refine Triple.bind (triple_call (Q := fun _ t => t = s) (fun _ _ _ h => h) fun t h => ?_)
      fun data => ?_
    · subst h
      exact .refl
    dsimp only
    split_ifs
    · refine Triple.bind ((triple_sign _).mono (fun _ h => h) (fun _ _ h => h) fun t h => ?_)
        fun thread => triple_pure ?_
      · subst h
        exact .refl
      rintro t ⟨⟨contract, hcached, rfl⟩, rfl⟩
      refine .single .refl (follows_of_messages (fun _ h => (by cases h)) (fun _ h => (by cases h))
        rfl rfl ?_)
      intro message hmem
      obtain rfl := List.mem_singleton.1 hmem
      exact .begun (List.mem_append_left _ (List.mem_singleton_self _)) hcached
        (List.mem_append_left _ (List.mem_singleton_self _))
    · refine Triple.bind ((triple_handleKeys data.stakingModulesData
        (data.blockData snapshot context)).mono (fun _ h => h) (fun _ _ h => h) fun _ h => h.elim)
        fun keys => triple_pure ?_
      rintro t ⟨hsecurity, hhistory, hlast, hkeys⟩
      have hstate : StateStep deps (.newBlock inTime (.collected snapshot context))
          (.collected collected) s t := .quiet hsecurity hhistory hlast
      refine .append ⟨hstate, fun other hmem => ?_⟩ (.ended hstate _ _)
      obtain rfl := hkeys other hmem
      refine follows_of_messages ?_ ?_ rfl rfl fun _ h => (by cases h)
      · rintro _ ⟨⟩
        exact Or.inl (List.mem_append_left _ (List.mem_singleton_self _))
      · rintro _ ⟨⟩
        exact Or.inl (List.mem_append_left _ (List.mem_singleton_self _))
  · rename_i thread messageAnswer
    simp only [Option.bind_eq_bind, Option.bind_eq_some_iff, Option.pure_def, Option.some.injEq] at h
    obtain ⟨m', hm', rfl⟩ := h
    have hmem : thread ∈ (CycleThread.newBlock inTime (.pausing thread)).messages :=
      List.mem_singleton_self thread
    refine Triple.bind ((triple_messageResume hm').mono (fun _ h => h) (fun _ _ h => h)
      fun t h => h.stateStep hmem rfl) fun r => triple_pure ?_
    rintro t ⟨hstep, hnext⟩
    have hstate : StateStep deps (.newBlock inTime (.pausing thread)) (.message messageAnswer) s t :=
      hstep.stateStep hmem rfl
    refine .append ?_ (.transactions hstate r.2)
    cases hr : r.1 with
    | none => exact .ended hstate _ _
    | some next =>
      refine .single hstate (follows_next hmem (hnext next hr) (Or.inl rfl) (Or.inl rfl) rfl rfl ?_)
      intro other hother
      exact Or.inl (List.mem_singleton.1 hother)
  · cases h

/-! ## Any step -/

/-- Where a body throws, its step leaves what its end leaves. -/
theorem triple_orEnd {m : Service CycleState (List CycleThread)} {rest : List CycleThread}
    (h : Triple (· = s) m (fun next t => StepSpec deps thread answer s t next)
      (fun t => StateStep deps thread answer s t))
    (hrest : ∀ t, StateStep deps thread answer s t → StepSpec deps thread answer s t rest) :
    Triple (· = s) (tryCatch m fun _ => return rest)
      (fun next t => StepSpec deps thread answer s t next)
      (fun t => StateStep deps thread answer s t) :=
  h.tryCatch fun _ => triple_pure hrest

/-- The messages that go on after one of them has failed. -/
theorem stepSpec_leftBehind {stage : KeysStage} {inTime : Bool}
    (h : StateStep deps (.keys inTime stage) answer s t) :
    StepSpec deps (.keys inTime stage) answer s t (stage.leftBehind answer) := by
  refine ⟨h, fun other hmem => ?_⟩
  unfold KeysStage.leftBehind at hmem
  split at hmem
  · obtain ⟨message, hmessage, rfl⟩ := List.mem_map.1 hmem
    refine follows_of_messages (fun _ h => (by cases h)) (fun _ h => (by cases h)) rfl rfl ?_
    intro other hother
    obtain rfl := List.mem_singleton.1 hother
    exact .of_mem (List.mem_of_mem_eraseIdx hmessage)
  · cases hmem

theorem triple_takeDown (method : CycleMethod) :
    Triple (· = s) method.takeDown (fun _ t => t.security = s.security ∧ t.history = s.history ∧
      t.lastProcessedStateMeta = s.lastProcessedStateMeta) (fun _ => False) := by
  cases method with
  | handleNewBlock =>
    refine triple_modify ?_
    rintro _ rfl
    exact ⟨rfl, rfl, rfl⟩
  | handleKeys =>
    refine triple_modify ?_
    rintro _ rfl
    exact ⟨rfl, rfl, rfl⟩

/-- A body whose timeout runs out goes on as it is. -/
theorem triple_timeout {other : CycleThread} (method : CycleMethod)
    (hother : Follows deps thread answer s s other) :
    Triple (· = s) (do method.takeDown; return [other])
      (fun next t => StepSpec deps thread answer s t next)
      (fun t => StateStep deps thread answer s t) := by
  refine Triple.bind ((triple_takeDown method).mono (fun _ h => h) (fun _ _ h => h)
    fun _ h => h.elim) fun _ => triple_pure ?_
  rintro t ⟨hsecurity, hhistory, hlast⟩
  refine .single (.quiet hsecurity hhistory hlast) ⟨?_, ?_, ?_, hother.payloads, ?_⟩
  · intro address hmem
    refine (hother.relies address hmem).imp_right fun ⟨contract, hcontract⟩ => ⟨contract, ?_⟩
    rw [hsecurity]
    exact hcontract
  · intro reading hmem
    rw [hsecurity]
    exact hother.readings reading hmem
  · intro context hmem
    refine (hother.unpublished context hmem).imp_right fun hnew => ?_
    unfold Active
    rw [hsecurity]
    exact hnew
  · intro number hmem
    rw [hlast]
    exact hother.blocks number hmem

/-- What a step of a thread does. -/
theorem triple_resume {m : Service CycleState (List CycleThread)}
    (h : thread.resume deps answer = some m) :
    Triple (· = s) m (fun next t => StepSpec deps thread answer s t next)
      (fun t => StateStep deps thread answer s t) := by
  unfold CycleThread.resume at h
  split at h
  · rename_i stage
    cases h
    exact triple_timeout .handleNewBlock (follows_same (by cases stage <;> rfl) (by cases stage <;> rfl) rfl rfl
      (by cases stage <;> rfl))
  · rename_i inTime stage answer hnot
    simp only [Option.bind_eq_bind, Option.bind_eq_some_iff, Option.pure_def, Option.some.injEq] at h
    obtain ⟨m', hm', rfl⟩ := h
    exact triple_orEnd (triple_newBlockResume hm') fun t ht => .ended ht _ _
  · rename_i stage
    cases h
    exact triple_timeout .handleKeys (follows_same (by cases stage <;> rfl) (by cases stage <;> rfl) rfl rfl
      (by cases stage <;> rfl))
  · rename_i inTime stage answer hnot
    simp only [Option.bind_eq_bind, Option.bind_eq_some_iff, Option.pure_def, Option.some.injEq] at h
    obtain ⟨m', hm', rfl⟩ := h
    exact triple_orEnd (triple_keysResume hm') fun t ht =>
      .append (stepSpec_leftBehind ht) (.ended ht _ _)
  · rename_i method
    cases h
    refine Triple.bind ((triple_takeDown method).mono (fun _ h => h) (fun _ _ h => h)
      fun _ h => h.elim) fun _ => triple_pure ?_
    rintro t ⟨hsecurity, hhistory, hlast⟩
    exact .nil (.quiet hsecurity hhistory hlast)
  · rename_i contextThread contextAnswer
    simp only [Option.bind_eq_bind, Option.bind_eq_some_iff, Option.pure_def, Option.some.injEq] at h
    obtain ⟨m', hm', rfl⟩ := h
    refine Triple.bind ((triple_onSecurity (triple_contextResume hm')).mono (fun _ h => h)
      (fun _ _ h => h) ?_) fun next => triple_pure ?_
    · rintro t ⟨_, hselected, rfl⟩
      exact .selected hselected rfl
    · rintro t ⟨_, ⟨hselected, _⟩, rfl⟩
      cases next with
      | inl next => exact .single (.selected hselected rfl) (free_context next).follows
      | inr guardianContext => exact .nil (.selected hselected rfl)
  · rename_i message messageAnswer
    simp only [Option.bind_eq_bind, Option.bind_eq_some_iff, Option.pure_def, Option.some.injEq] at h
    obtain ⟨m', hm', rfl⟩ := h
    have hmem : message ∈ (CycleThread.message message).messages := List.mem_singleton_self message
    refine Triple.bind ((triple_messageResume hm').mono (fun _ h => h) (fun _ _ h => h)
      fun t h => h.stateStep hmem rfl) fun r => triple_pure ?_
    rintro t ⟨hstep, hnext⟩
    have hstate : StateStep deps (.message message) (.message messageAnswer) s t :=
      hstep.stateStep hmem rfl
    refine .append ⟨hstate, fun other hother => ?_⟩ (.transactions hstate r.2)
    obtain ⟨next, hr, rfl⟩ := List.mem_map.1 hother
    refine follows_next hmem (hnext next (Option.mem_toList.1 hr)) (Or.inl rfl) (Or.inl rfl) rfl rfl ?_
    intro other hother
    exact Or.inl (List.mem_singleton.1 hother)
  · rename_i ping messageAnswer
    simp only [Option.bind_eq_bind, Option.bind_eq_some_iff, Option.pure_def, Option.some.injEq] at h
    obtain ⟨m', hm', rfl⟩ := h
    refine Triple.bind ((triple_publishResume hm').mono (fun _ h => h) (fun _ _ h => h) ?_)
      fun next => triple_pure ?_
    · rintro t rfl
      exact .refl
    · rintro t ⟨hsecurity, hlast, hhistory, hnext⟩
      refine ⟨⟨Or.inl (by rw [hsecurity]), Or.inl (by rw [hsecurity]), Or.inl (by rw [hsecurity]), ?_⟩,
        fun other hother => ?_⟩
      · rcases hhistory with hsame | ⟨context, message, rfl, hevent⟩
        · exact Or.inl ⟨hsame, hlast⟩
        · refine Or.inr ⟨_, .published ?_ (fun signature hsignature => ?_) hlast, hevent⟩
          · exact List.mem_append_left _ (List.mem_singleton_self _)
          · refine List.mem_append_left _ (Option.mem_toList.2 ?_)
            show message.signature.map (fun signature => (context, signature)) = _
            rw [hsignature]
            rfl
      · obtain ⟨other, hmem, rfl⟩ := List.mem_map.1 hother
        obtain ⟨hunpublished, hpayload⟩ := hnext other (Option.mem_toList.1 hmem)
        refine follows_ping (fun context hcontext => ?_) hpayload
        rw [hunpublished] at hcontext
        cases hcontext
  · rename_i transaction transactionAnswer
    simp only [Option.bind_eq_bind, Option.bind_eq_some_iff, Option.pure_def, Option.some.injEq] at h
    obtain ⟨m', hm', rfl⟩ := h
    refine Triple.bind ((triple_onSecurity (triple_transactionResume hm')).mono (fun _ h => h)
      (fun _ _ h => h) ?_) fun next => triple_pure ?_
    · rintro t ⟨_, hfalse, _⟩
      exact hfalse.elim
    · rintro t ⟨security, ⟨hcontract, hwallet, hevents⟩, rfl⟩
      have hstate : StateStep deps (.transaction transaction) (.transaction transactionAnswer) s
          { s with security := security } :=
        ⟨Or.inl hcontract, Or.inl hwallet, Or.inl hevents, Or.inl ⟨rfl, rfl⟩⟩
      exact .transactions hstate next
  · cases h

end Steps

/-! ## Steps of the program -/

/-- **A step.** What the program does when a thread goes on. -/
theorem stepSpec {thread : CycleThread} {answer : CycleAnswer}
    {next : CycleState × List CycleThread}
    (h : (cycleProgram deps).resume thread answer s = some next) :
    StepSpec deps thread answer s next.1 next.2 := by
  obtain ⟨m, hm, rfl⟩ := Option.map_eq_some_iff.1 h
  obtain ⟨hok, herror⟩ := triple_resume (s := s) hm s rfl
  unfold Program.segment
  cases hrun : EStateM.run m s with
  | ok next t => exact hok next t hrun
  | error e t => exact .nil (herror e t hrun)

/-- A cycle that starts touches its flag only. -/
theorem start_spec (call : CycleCall) (s : CycleState) :
    ((cycleProgram deps).start call s).1.security = s.security ∧
    ((cycleProgram deps).start call s).1.history = s.history ∧
    ((cycleProgram deps).start call s).1.lastProcessedStateMeta = s.lastProcessedStateMeta ∧
    ∀ other ∈ ((cycleProgram deps).start call s).2, Free other := by
  have hrun : EStateM.run handleNewBlock s =
      if s.handleNewBlock.busy none then .ok [] s
      else .ok [.newBlock true .modules] { s with handleNewBlock := s.handleNewBlock.enter none } := by
    unfold handleNewBlock
    by_cases hbusy : s.handleNewBlock.busy none = true
    · simp only [EStateM.run_bind, EStateM.run_get, if_pos hbusy]
      rfl
    · simp only [EStateM.run_bind, EStateM.run_get, if_neg hbusy]
      rfl
  show ((Program.segment handleNewBlock s).1).security = _ ∧ ((Program.segment handleNewBlock s).1).history = _ ∧
    ((Program.segment handleNewBlock s).1).lastProcessedStateMeta = _ ∧
    ∀ other ∈ (Program.segment handleNewBlock s).2, Free other
  unfold Program.segment
  rw [hrun]
  split_ifs
  · exact ⟨rfl, rfl, rfl, fun _ h => (by cases h)⟩
  · refine ⟨rfl, rfl, rfl, fun other hmem => ?_⟩
    obtain rfl := List.mem_singleton.1 hmem
    exact ⟨rfl, rfl, rfl, rfl, rfl⟩

end Guardian

end CouncilDaemon
