import CouncilDaemon.Guardian.CycleLocks

/-!
# Where messages and transactions come from

Whatever the cycles and background runs do in between: a message that is built or published carries a
signature that the designated wallet has made over the digest of that very message, for a block on which
the guardian had a reason to send it; and a direct transaction goes with such a message. So the daemon does
not pause without a suspicious deposit, unvet without an invalid key, or approve a module that it ignores
(`messages_justified`, `transactions_justified`).
-/

namespace CouncilDaemon

namespace Guardian

open Service SecurityService StakingModuleGuard

variable (deps : SecurityDeps)

/-! ## Reasons -/

/-- The data of a block names the guardian of its context. -/
structure Coherent (blockData : BlockData) : Prop where
  guardianAddress : blockData.guardianAddress = blockData.guardianContext.guardianAddress
  guardianIndex : blockData.guardianIndex = blockData.guardianContext.guardianIndex
  securityVersion : blockData.securityVersion = blockData.guardianContext.dsmVersion

/-- The block has a suspicious deposit, and deposits are not paused. -/
def Suspicious (blockData : BlockData) : Prop :=
  blockData.alreadyPausedDeposits = false ∧
    (blockData.hasFrontRunning = true ∨ blockData.hasWrongWCType = true)

/-- Why a message is sent: deposits are to be paused, keys of the module are invalid and the chunk is the
first one of them, or nothing speaks against deposits to the module. -/
def MessageJob.Reason : MessageJob → Prop
  | pause blockData => Suspicious blockData
  | unvet stakingModuleData blockData chunk => ¬ Suspicious blockData ∧
    Unvetting.collectInvalidKeys stakingModuleData ≠ [] ∧
    ∃ maxOperatorsPerUnvetting, Unvetting.calculateNewStakingLimit deps.ethers.toEthersUtils
      (Unvetting.collectInvalidKeys stakingModuleData) maxOperatorsPerUnvetting = .ok chunk
  | deposit stakingModuleData blockData => ignoreDeposits stakingModuleData blockData.hasFrontRunning
      blockData.hasWrongWCType blockData.alreadyPausedDeposits = false

def MessageJob.Justified (job : MessageJob) : Prop := Coherent job.blockData ∧ job.Reason deps

/-- The designated wallet has made the signature, over the digest of what the job asks to sign. -/
def SignedIn (events : List SecurityEvent) (job : MessageJob) (signature : Signature) : Prop :=
  ∃ contract messagePrefix wallet bytes, designatedWallet deps job.context = some wallet ∧
    preimage deps messagePrefix job.context job.request = .ok bytes ∧
    signature = deps.signDigest wallet (deps.ethers.keccak256 bytes) ∧
    .signed job.context contract messagePrefix job.request wallet (deps.ethers.keccak256 bytes) ∈ events

/-- The message is that of a justified job, with a signature that was made for it. -/
def Genuine (events : List SecurityEvent) (context : GuardianExecutionContext) (message : Message) :
    Prop :=
  ∃ job signature, job.Justified deps ∧ SignedIn deps events job signature ∧ context = job.context ∧
    message = job.message signature

/-- A message may be published: the guardian is in the list, and the message is genuine or a ping. -/
def Publishable (events : List SecurityEvent) (context : GuardianExecutionContext) (message : Message) :
    Prop :=
  message.guardianIndex ≠ -1 ∧ (message.type = .ping ∨ Genuine deps events context message)

/-- A message of the history is genuine, or a ping. -/
def NotedGenuine (events : List SecurityEvent) : CycleEvent → Prop
  | .prepared message => ∃ context, Genuine deps events context message
  | .published context message _ => Publishable deps events context message
  | .recorded _ => True

/-- A transaction goes with a genuine message. -/
def SentGenuine (events : List SecurityEvent) : SecurityEvent → Prop
  | .signed .. => True
  | .sent context transaction => ∃ job signature call wallet contract, job.Justified deps ∧
      SignedIn deps events job signature ∧ context = job.context ∧
      job.transaction signature = some call ∧ designatedWallet deps context = some wallet ∧
      transaction = directTransaction context wallet contract call

/-- All that was noted and sent is genuine. -/
structure AllGenuine (s : CycleState) : Prop where
  noted : ∀ event ∈ s.history, NotedGenuine deps s.security.events event
  sent : ∀ event ∈ s.security.events, SentGenuine deps s.security.events event

/-! ## What waits -/

def PublishThread.Backed (events : List SecurityEvent) : PublishThread → Prop
  | waiting context message => Publishable deps events context message
  | _ => True

def MessageThread.Backed (events : List SecurityEvent) : MessageThread → Prop
  | signing job _ => job.Justified deps
  | signed job signature => job.Justified deps ∧ SignedIn deps events job signature
  | publishing _ thread => thread.Backed deps events

/-- A background run is on a block without a suspicious deposit. -/
def KeysRun.Clean (run : KeysRun) : Prop := Coherent run.blockData ∧ ¬ Suspicious run.blockData

def CycleThread.Backed (events : List SecurityEvent) : CycleThread → Prop
  | newBlock _ (.pausing thread) => thread.Backed deps events
  | keys _ (.checking run) => run.Clean
  | keys _ (.gettingMax run stakingModuleData) => run.Clean ∧
      Unvetting.collectInvalidKeys stakingModuleData ≠ []
  | keys _ (.unvetting run thread) => run.Clean ∧ thread.Backed deps events
  | keys _ (.depositing run messages) => run.Clean ∧ ∀ message ∈ messages, message.Backed deps events
  | message thread => thread.Backed deps events
  | ping thread => thread.Backed deps events
  | _ => True

variable {deps} {s t : CycleState} {old events : List SecurityEvent}

theorem SignedIn.mono {job : MessageJob} {signature : Signature} (h : SignedIn deps old job signature)
    (hsub : old ⊆ events) : SignedIn deps events job signature := by
  obtain ⟨contract, messagePrefix, wallet, bytes, hwallet, hbytes, hsignature, hmem⟩ := h
  exact ⟨contract, messagePrefix, wallet, bytes, hwallet, hbytes, hsignature, hsub hmem⟩

theorem Genuine.mono {context : GuardianExecutionContext} {message : Message}
    (h : Genuine deps old context message) (hsub : old ⊆ events) :
    Genuine deps events context message := by
  obtain ⟨job, signature, hjob, hsigned, hcontext, hmessage⟩ := h
  exact ⟨job, signature, hjob, hsigned.mono hsub, hcontext, hmessage⟩

theorem Publishable.mono {context : GuardianExecutionContext} {message : Message}
    (h : Publishable deps old context message) (hsub : old ⊆ events) :
    Publishable deps events context message :=
  ⟨h.1, h.2.imp_right fun hgenuine => hgenuine.mono hsub⟩

theorem NotedGenuine.mono {event : CycleEvent} (h : NotedGenuine deps old event) (hsub : old ⊆ events) :
    NotedGenuine deps events event := by
  cases event with
  | prepared message =>
    obtain ⟨context, hgenuine⟩ := h
    exact ⟨context, hgenuine.mono hsub⟩
  | published context message sender => exact Publishable.mono h hsub
  | recorded stateMeta => trivial

theorem SentGenuine.mono {event : SecurityEvent} (h : SentGenuine deps old event)
    (hsub : old ⊆ events) : SentGenuine deps events event := by
  cases event with
  | signed context contract messagePrefix request wallet digest => trivial
  | sent context transaction =>
    obtain ⟨job, signature, call, wallet, contract, hjob, hsigned, hrest⟩ := h
    exact ⟨job, signature, call, wallet, contract, hjob, hsigned.mono hsub, hrest⟩

theorem PublishThread.Backed.mono {thread : PublishThread} (h : thread.Backed deps old)
    (hsub : old ⊆ events) : thread.Backed deps events := by
  cases thread with
  | waiting context message => exact Publishable.mono h hsub
  | sending => trivial
  | skipped => trivial

theorem MessageThread.Backed.mono {thread : MessageThread} (h : thread.Backed deps old)
    (hsub : old ⊆ events) : thread.Backed deps events := by
  cases thread with
  | signing job contract => exact h
  | signed job signature => exact ⟨h.1, h.2.mono hsub⟩
  | publishing job thread => exact PublishThread.Backed.mono h hsub

theorem CycleThread.Backed.mono {thread : CycleThread} (h : thread.Backed deps old)
    (hsub : old ⊆ events) : thread.Backed deps events := by
  cases thread with
  | newBlock inTime stage =>
    cases stage with
    | pausing thread => exact MessageThread.Backed.mono h hsub
    | _ => trivial
  | keys inTime stage =>
    cases stage with
    | checking run => exact h
    | gettingMax run stakingModuleData => exact h
    | unvetting run thread => exact ⟨h.1, h.2.mono hsub⟩
    | depositing run messages => exact ⟨h.1, fun message hmem => (h.2 message hmem).mono hsub⟩
  | message thread => exact MessageThread.Backed.mono h hsub
  | ping thread => exact PublishThread.Backed.mono h hsub
  | leaving method => trivial
  | context thread => trivial
  | transaction thread => trivial

/-! ## Segments -/

variable (deps old) in
/-- All is genuine, and no event of `old` has gone. -/
def StaysGenuine (s : CycleState) : Prop := AllGenuine deps s ∧ old ⊆ s.security.events

/-- The two records. -/
def records (s : CycleState) : List SecurityEvent × List CycleEvent := (s.security.events, s.history)

theorem StaysGenuine.congr (h : StaysGenuine deps old s) (hrecords : records t = records s) :
    StaysGenuine deps old t := by
  obtain ⟨hevents, hhistory⟩ := Prod.mk.inj hrecords
  refine ⟨⟨?_, ?_⟩, ?_⟩
  · rw [hevents, hhistory]
    exact h.1.noted
  · rw [hevents]
    exact h.1.sent
  · rw [hevents]
    exact h.2

theorem triple_staysGenuine {α : Type} {m : Service CycleState α} (h : Keeps records m) :
    Triple (StaysGenuine deps old) m (fun _ => StaysGenuine deps old) (StaysGenuine deps old) := by
  intro s hs
  have hkeeps := h s
  refine ⟨fun a t hrun => ?_, fun e t hrun => ?_⟩
  · rw [hrun] at hkeeps
    exact hs.congr hkeeps
  · rw [hrun] at hkeeps
    exact hs.congr hkeeps

/-- An event is noted. -/
theorem StaysGenuine.noted {event : CycleEvent} (h : StaysGenuine deps old s)
    (hevent : NotedGenuine deps s.security.events event) :
    StaysGenuine deps old { s with history := event :: s.history } := by
  refine ⟨⟨fun other hmem => ?_, h.1.sent⟩, h.2⟩
  rcases List.mem_cons.1 hmem with rfl | hmem
  · exact hevent
  · exact h.1.noted other hmem

/-- A signature or a transaction leaves. -/
theorem StaysGenuine.left {event : SecurityEvent} {security : SecurityState}
    (h : StaysGenuine deps old s) (hevents : security.events = event :: s.security.events)
    (hevent : SentGenuine deps (event :: s.security.events) event) :
    StaysGenuine deps old { s with security := security } := by
  have hsub : s.security.events ⊆ event :: s.security.events := List.subset_cons_self _ _
  refine ⟨⟨fun other hmem => ?_, fun other hmem => ?_⟩, ?_⟩
  · show NotedGenuine deps security.events other
    rw [hevents]
    exact (h.1.noted other hmem).mono hsub
  · change other ∈ security.events at hmem
    show SentGenuine deps security.events other
    rw [hevents] at hmem ⊢
    rcases List.mem_cons.1 hmem with rfl | hmem
    · exact hevent
    · exact (h.1.sent other hmem).mono hsub
  · show old ⊆ security.events
    rw [hevents]
    exact fun other hmem => hsub (h.2 hmem)

theorem StaysGenuine.selected {selects : Option Wallet} {security : SecurityState}
    (h : StaysGenuine deps old s) (hselected : Selected selects s.security security) :
    StaysGenuine deps old { s with security := security } := by
  rcases hselected with rfl | ⟨wallet, _, rfl⟩
  · exact h
  · exact h.congr rfl

/-! ## Messages -/

/-- A signing method begins. -/
theorem triple_sign_backed {job : MessageJob} (hjob : job.Justified deps) :
    Triple (StaysGenuine deps old) job.sign
      (fun message t => StaysGenuine deps old t ∧ message.Backed deps t.security.events)
      (StaysGenuine deps old) := by
  intro s hs
  refine ((triple_sign job).mono (fun _ h => h) ?_ ?_) s rfl
  · rintro _ t ⟨⟨contract, _, rfl⟩, rfl⟩
    exact ⟨hs, hjob⟩
  · rintro t rfl
    exact hs

/-- The signature of a message is made. -/
theorem triple_signing_backed (job : MessageJob) (contract : String) (answer : Except String String) :
    Triple (StaysGenuine deps old)
      (onSecurity (SignThread.resume deps ⟨job.request, job.context, contract⟩ answer))
      (fun signature t => StaysGenuine deps old t ∧ SignedIn deps t.security.events job signature)
      (StaysGenuine deps old) := by
  intro s hs
  refine ((triple_onSecurity (triple_signResume _ answer)).mono (fun _ h => h) ?_ ?_) s rfl
  · rintro signature t ⟨security, ⟨messagePrefix, wallet, bytes, _, hwallet, hbytes, rfl, rfl⟩, rfl⟩
    exact ⟨hs.left rfl trivial, contract, messagePrefix, wallet, bytes, hwallet, hbytes, rfl,
      List.mem_cons_self⟩
  · rintro t ⟨security, hselected, rfl⟩
    exact hs.selected hselected

/-- The message of a job, as it is handed over. -/
theorem backed_sendMessageFromGuardian {job : MessageJob} {signature : Signature}
    (hjob : job.Justified deps) (hsigned : SignedIn deps events job signature) :
    (sendMessageFromGuardian job.context (job.message signature)).Backed deps events := by
  unfold sendMessageFromGuardian
  split_ifs with hindex
  · trivial
  · exact ⟨hindex, Or.inr ⟨job, signature, hjob, hsigned, rfl, rfl⟩⟩

/-- The transaction of a signed message. -/
theorem triple_transaction_backed {job : MessageJob} {signature : Signature} {call : DirectCall}
    (hjob : job.Justified deps) (hcall : job.transaction signature = some call) :
    Triple (fun s => StaysGenuine deps old s ∧ SignedIn deps s.security.events job signature)
      (onSecurity (callTransaction deps job.context call))
      (fun _ s => StaysGenuine deps old s ∧ SignedIn deps s.security.events job signature)
      (fun _ => False) := by
  rintro s ⟨hs, hsigned⟩
  refine ((triple_onSecurity (triple_callTransaction call)).mono (fun _ h => h) ?_ ?_) s rfl
  · rintro _ t ⟨security, ⟨_, _, hevents⟩, rfl⟩
    rcases hevents with hsame | ⟨wallet, contract, hwallet, _, hevent⟩
    · refine ⟨hs.congr ?_, ?_⟩
      · show (security.events, s.history) = (s.security.events, s.history)
        rw [hsame]
      · show SignedIn deps security.events job signature
        rw [hsame]
        exact hsigned
    · have hmore := hsigned.mono (List.subset_cons_self
        (.sent job.context (directTransaction job.context wallet contract call)) s.security.events)
      refine ⟨hs.left hevent ⟨job, signature, call, wallet, contract, hjob, hmore, rfl, hcall, hwallet,
        rfl⟩, ?_⟩
      show SignedIn deps security.events job signature
      rw [hevent]
      exact hmore
  · rintro t ⟨_, hfalse, _⟩
    exact hfalse

/-- A signed message is built and passed on. -/
theorem triple_send_backed {job : MessageJob} {signature : Signature} (hjob : job.Justified deps) :
    Triple (fun s => StaysGenuine deps old s ∧ SignedIn deps s.security.events job signature)
      (job.send deps signature)
      (fun r t => StaysGenuine deps old t ∧ r.1.Backed deps t.security.events)
      (StaysGenuine deps old) := by
  unfold MessageJob.send
  refine Triple.bind (Q := fun _ s => StaysGenuine deps old s ∧
    SignedIn deps s.security.events job signature) ?_ fun transaction => ?_
  · cases hcall : job.transaction signature with
    | none => exact triple_pure fun t ht => ht
    | some call =>
      exact (triple_transaction_backed hjob hcall).mono (fun _ h => h) (fun _ _ h => h)
        fun _ h => h.elim
  · refine Triple.bind (triple_modify (Q := fun _ s => StaysGenuine deps old s ∧
      SignedIn deps s.security.events job signature) ?_) fun _ => triple_pure ?_
    · rintro s ⟨hs, hsigned⟩
      exact ⟨hs.noted ⟨job.context, job, signature, hjob, hsigned, rfl, rfl⟩, hsigned⟩
    · rintro s ⟨hs, hsigned⟩
      exact ⟨hs, backed_sendMessageFromGuardian hjob hsigned⟩

/-- The publication goes on. -/
theorem triple_publishResume_backed {thread : PublishThread} {answer : MessageAnswer}
    {m : Service CycleState (Option PublishThread)} (h : thread.resume deps answer = some m)
    (hthread : thread.Backed deps old) :
    Triple (StaysGenuine deps old) m (fun next t => StaysGenuine deps old t ∧
        ∀ thread ∈ next, thread.Backed deps t.security.events) (StaysGenuine deps old) := by
  intro s hs
  refine ((triple_publishResume h).mono (fun _ h => h) ?_ ?_) s rfl
  · rintro next t ⟨hsecurity, _, hhistory, hnext⟩
    have hstays : StaysGenuine deps old t := by
      rcases hhistory with hsame | ⟨context, message, rfl, hevent⟩
      · refine hs.congr ?_
        show (t.security.events, t.history) = (s.security.events, s.history)
        rw [hsecurity, hsame]
      · have hnoted : NotedGenuine deps s.security.events (.published context message
            (s.security.activeWallet.getD (WalletService.firstWallet deps)).address) :=
          Publishable.mono hthread hs.2
        refine (hs.noted hnoted).congr ?_
        show (t.security.events, t.history) = (s.security.events, _)
        rw [hsecurity, hevent]
    refine ⟨hstays, fun thread hmem => ?_⟩
    cases thread with
    | waiting context message => cases (hnext _ hmem).1
    | sending => trivial
    | skipped => trivial
  · rintro t rfl
    exact hs

/-- A message goes on. -/
theorem triple_messageResume_backed {thread : MessageThread} {answer : MessageAnswer}
    {m : Service CycleState (Option MessageThread × Option TransactionThread)}
    (h : thread.resume deps answer = some m) (hthread : thread.Backed deps old) :
    Triple (StaysGenuine deps old) m (fun r t => StaysGenuine deps old t ∧
        ∀ thread ∈ r.1, thread.Backed deps t.security.events) (StaysGenuine deps old) := by
  unfold MessageThread.resume at h
  split at h
  · cases h
    refine Triple.bind (triple_signing_backed _ _ _) fun signature => triple_pure ?_
    rintro t ⟨ht, hsigned⟩
    refine ⟨ht, ?_⟩
    rintro _ ⟨⟩
    exact ⟨hthread, hsigned⟩
  · cases h
    refine Triple.bind ((triple_send_backed hthread.1).mono (A := StaysGenuine deps old)
      (fun t ht => ⟨ht, hthread.2.mono ht.2⟩) (fun _ _ h => h) fun _ h => h) fun r => triple_pure ?_
    rintro t ⟨ht, hnext⟩
    refine ⟨ht, ?_⟩
    rintro _ ⟨⟩
    exact hnext
  · rename_i job thread
    simp only [Option.bind_eq_bind, Option.bind_eq_some_iff, Option.pure_def, Option.some.injEq] at h
    obtain ⟨m', hm', rfl⟩ := h
    refine Triple.bind (triple_publishResume_backed hm' hthread) fun next => ?_
    cases next with
    | some thread =>
      refine triple_pure ?_
      rintro t ⟨ht, hnext⟩
      refine ⟨ht, ?_⟩
      rintro _ ⟨⟩
      exact hnext thread rfl
    | none =>
      have hremember : Keeps records job.remember := by
        cases job with
        | pause blockData => exact keeps_pure _
        | unvet stakingModuleData blockData chunk => exact keeps_pure _
        | deposit stakingModuleData blockData => exact keeps_modify fun _ => rfl
      refine Triple.bind ((triple_staysGenuine hremember).mono (fun _ h => h.1) (fun _ _ h => h)
        fun _ h => h) fun _ => triple_pure fun t ht => ⟨ht, fun _ hmem => (by cases hmem)⟩
  · cases h

/-! ## The background run -/

/-- The deposit messages of a run begin, for modules that are not ignored. -/
theorem triple_startDeposits_backed {run : KeysRun} (hrun : run.Clean) (inTime : Bool) :
    Triple (StaysGenuine deps old) (startDeposits run)
      (fun stage t => StaysGenuine deps old t ∧
        (CycleThread.keys inTime stage).Backed deps t.security.events) (StaysGenuine deps old) := by
  intro s hs
  have hmapM := Service.mapM_spec (I := StaysGenuine deps old) (f := handleCorrectKeys run.blockData)
    (R := fun stakingModuleData r => ∀ message, r = some message →
      ∃ contract, message = .signing (.deposit stakingModuleData run.blockData) contract) (by
      intro stakingModuleData u hu
      have htriple := triple_handleCorrectKeys (s := u) run.blockData stakingModuleData
      have hstate := htriple.after (E := fun t => t = u) rfl fun _ _ h => h.2
      refine ⟨by rw [hstate]; exact hu, fun b t hrun message hmessage => ?_⟩
      obtain ⟨contract, _, hshape⟩ := ((htriple u rfl).1 b t hrun).1 message hmessage
      exact ⟨contract, hshape⟩)
    (handleDeposit run.stakingModulesData run.blockData) s hs
  obtain ⟨hstate, hvalues⟩ := hmapM
  unfold startDeposits
  cases hmessages : EStateM.run ((handleDeposit run.stakingModulesData run.blockData).mapM
    (handleCorrectKeys run.blockData)) s with
  | error e t =>
    rw [run_bind_error hmessages]
    refine ⟨fun a u h => (by cases h), fun e' u h => ?_⟩
    cases h
    rw [hmessages] at hstate
    exact hstate
  | ok messages t =>
    rw [run_bind_ok hmessages]
    refine ⟨fun stage u h => ?_, fun e' u h => (by cases h)⟩
    cases h
    rw [hmessages] at hstate
    refine ⟨hstate, hrun, fun message hmem => ?_⟩
    obtain ⟨r, hr, rfl⟩ := List.mem_filterMap.1 hmem
    obtain ⟨stakingModuleData, hmodule, hspec⟩ :=
      (mem_of_forall₂ (hvalues messages t hmessages)).2 _ hr
    obtain ⟨contract, rfl⟩ := hspec message rfl
    refine ⟨hrun.1, ?_⟩
    have hignored := (List.mem_filter.1 hmodule).2
    rwa [Bool.not_eq_true'] at hignored

theorem triple_handleUnvetting_backed {run : KeysRun} (hrun : run.Clean) (inTime : Bool) :
    Triple (StaysGenuine deps old) (handleUnvetting run)
      (fun stage t => StaysGenuine deps old t ∧
        (CycleThread.keys inTime stage).Backed deps t.security.events) (StaysGenuine deps old) := by
  unfold handleUnvetting
  cases findFirstInvalidModule run.stakingModulesData with
  | none => exact triple_startDeposits_backed hrun inTime
  | some firstInvalidModule =>
    dsimp only
    split_ifs with hinvalid
    · exact triple_startDeposits_backed hrun inTime
    · exact triple_pure fun t ht => ⟨ht, hrun, fun hnil => hinvalid (by rw [hnil]; rfl)⟩

/-- A ping carries no signature. -/
theorem backed_pingMessageBroker (run : KeysRun) : (pingMessageBroker run).Backed deps events := by
  unfold pingMessageBroker sendMessageFromGuardian
  split_ifs with hindex
  · trivial
  · exact ⟨hindex, Or.inl rfl⟩

theorem triple_finishKeys_backed (run : KeysRun) :
    Triple (StaysGenuine deps old) (finishKeys run)
      (fun pings t => StaysGenuine deps old t ∧
        ∀ thread ∈ pings, thread.Backed deps t.security.events) (StaysGenuine deps old) := by
  have hrecorded : ∀ stateMeta, Triple (StaysGenuine deps old) (record (.recorded stateMeta))
      (fun _ => StaysGenuine deps old) (StaysGenuine deps old) :=
    fun stateMeta => triple_modify fun s hs => hs.noted trivial
  unfold finishKeys
  refine Triple.bind (triple_staysGenuine keeps_get) fun s => ?_
  dsimp only
  split_ifs
  · refine Triple.bind (triple_staysGenuine (keeps_modify fun _ => rfl)) fun _ => ?_
    refine Triple.bind (triple_staysGenuine (keeps_modify fun _ => rfl)) fun _ => ?_
    refine Triple.bind (hrecorded _) fun _ => triple_pure fun t ht => ⟨ht, fun thread hmem => ?_⟩
    obtain rfl := List.mem_singleton.1 hmem
    exact backed_pingMessageBroker run
  · refine Triple.bind (triple_staysGenuine (keeps_modify fun _ => rfl)) fun _ => ?_
    exact Triple.bind (hrecorded _) fun _ =>
      triple_pure fun t ht => ⟨ht, fun thread hmem => (by cases hmem)⟩

/-- The threads are backed by the events. -/
def AllBacked (deps : SecurityDeps) (threads : List CycleThread) (events : List SecurityEvent) : Prop :=
  ∀ thread ∈ threads, thread.Backed deps events

theorem AllBacked.nil : AllBacked deps [] events := fun _ hmem => (by cases hmem)

theorem AllBacked.cons {thread : CycleThread} {threads : List CycleThread}
    (h : thread.Backed deps events) (h' : AllBacked deps threads events) :
    AllBacked deps (thread :: threads) events := by
  intro other hmem
  rcases List.mem_cons.1 hmem with rfl | hmem
  · exact h
  · exact h' other hmem

theorem AllBacked.append {threads threads' : List CycleThread} (h : AllBacked deps threads events)
    (h' : AllBacked deps threads' events) : AllBacked deps (threads ++ threads') events :=
  fun other hmem => (List.mem_append.1 hmem).elim (h other) (h' other)

theorem AllBacked.map {α : Type} {f : α → CycleThread} {as : List α}
    (h : ∀ a ∈ as, (f a).Backed deps events) : AllBacked deps (as.map f) events := by
  intro other hmem
  obtain ⟨a, ha, rfl⟩ := List.mem_map.1 hmem
  exact h a ha

theorem AllBacked.transactions (transaction : Option TransactionThread) :
    AllBacked deps (transaction.toList.map .transaction) events :=
  .map fun _ _ => by trivial

theorem AllBacked.ended (method : CycleMethod) (inTime : Bool) :
    AllBacked deps (Guardian.ended method inTime) events := by
  unfold Guardian.ended
  split_ifs
  · exact .cons trivial .nil
  · exact .nil

theorem triple_keysResume_backed {stage : KeysStage} {inTime : Bool} {answer : CycleAnswer}
    {m : Service CycleState (List CycleThread)} (h : stage.resume deps inTime answer = some m)
    (hstage : (CycleThread.keys inTime stage).Backed deps old) :
    Triple (StaysGenuine deps old) m (fun next t => StaysGenuine deps old t ∧
        AllBacked deps next t.security.events) (StaysGenuine deps old) := by
  unfold KeysStage.resume at h
  split at h
  · rename_i run answer
    cases h
    refine Triple.bind (triple_staysGenuine (keeps_call _)) fun stakingModulesData => ?_
    have hrun : ({ run with stakingModulesData := stakingModulesData } : KeysRun).Clean := hstage
    exact Triple.bind (triple_handleUnvetting_backed hrun inTime) fun stage =>
      triple_pure fun t ht => ⟨ht.1, .cons ht.2 .nil⟩
  · rename_i run stakingModuleData answer
    cases h
    refine Triple.bind (triple_staysGenuine (keeps_call _)) fun maxOperatorsPerUnvetting => ?_
    refine Triple.bind (Q := fun firstChunk t => StaysGenuine deps old t ∧
      Unvetting.calculateNewStakingLimit deps.ethers.toEthersUtils
        (Unvetting.collectInvalidKeys stakingModuleData) maxOperatorsPerUnvetting = .ok firstChunk)
      (triple_call (fun _ _ h ht => ⟨ht, h⟩) fun _ h => h) fun firstChunk => ?_
    rintro s ⟨hs, hchunk⟩
    have hjob : (MessageJob.unvet stakingModuleData run.blockData firstChunk).Justified deps :=
      ⟨hstage.1.1, hstage.1.2, hstage.2, maxOperatorsPerUnvetting, hchunk⟩
    exact Triple.bind (triple_sign_backed hjob) (fun thread => triple_pure fun t ht =>
      ⟨ht.1, .cons ⟨hstage.1, ht.2⟩ .nil⟩) s hs
  · rename_i run thread answer
    simp only [Option.bind_eq_bind, Option.bind_eq_some_iff, Option.pure_def, Option.some.injEq] at h
    obtain ⟨m', hm', rfl⟩ := h
    refine Triple.bind (triple_messageResume_backed hm' hstage.2) fun r => ?_
    refine Triple.bind (Q := fun stage t => StaysGenuine deps old t ∧
      (CycleThread.keys inTime stage).Backed deps t.security.events) ?_ fun stage =>
      triple_pure fun t ht => ⟨ht.1, .cons ht.2 (.transactions r.2)⟩
    cases hr : r.1 with
    | none =>
      exact (triple_startDeposits_backed hstage.1 inTime).mono (fun _ h => h.1) (fun _ _ h => h)
        fun _ h => h
    | some next => exact triple_pure fun t ht => ⟨ht.1, hstage.1, ht.2 next rfl⟩
  · rename_i run messages index answer
    simp only [Option.bind_eq_bind, Option.bind_eq_some_iff, Option.pure_def, Option.some.injEq] at h
    obtain ⟨thread, hthread, m', hm', rfl⟩ := h
    refine Triple.bind (triple_messageResume_backed hm'
      (hstage.2 thread (List.mem_of_getElem? hthread))) fun r => triple_pure ?_
    rintro t ⟨ht, hnext⟩
    refine ⟨ht, .cons ⟨hstage.1, fun message hmem => ?_⟩ (.transactions r.2)⟩
    rcases List.mem_append.1 hmem with hmem | hmem
    · exact (hstage.2 message (List.mem_of_mem_take hmem)).mono ht.2
    · rcases List.mem_append.1 hmem with hmem | hmem
      · exact hnext message (Option.mem_toList.1 hmem)
      · exact (hstage.2 message (List.mem_of_mem_drop hmem)).mono ht.2
  · cases h
    exact Triple.bind (triple_finishKeys_backed _) fun pings =>
      triple_pure fun t ht => ⟨ht.1, AllBacked.append ht.2 (.ended _ _)⟩
  · cases h

/-! ## The cycle -/

theorem coherent_blockData (data : CollectedData) (snapshot : ELBlockSnapshot)
    (context : GuardianExecutionContext) : Coherent (data.blockData snapshot context) :=
  ⟨rfl, rfl, rfl⟩

theorem triple_newBlockResume_backed {stage : NewBlockStage} {inTime : Bool} {answer : CycleAnswer}
    {m : Service CycleState (List CycleThread)} (h : stage.resume deps inTime answer = some m)
    (hstage : (CycleThread.newBlock inTime stage).Backed deps old) :
    Triple (StaysGenuine deps old) m (fun next t => StaysGenuine deps old t ∧
        AllBacked deps next t.security.events) (StaysGenuine deps old) := by
  unfold NewBlockStage.resume at h
  split at h
  · cases h
    refine Triple.bind (triple_staysGenuine (keeps_call _)) fun snapshot => ?_
    refine Triple.bind (triple_staysGenuine keeps_get) fun s => ?_
    split_ifs
    · exact triple_pure fun t ht => ⟨ht, .cons trivial .nil⟩
    · exact triple_pure fun t ht => ⟨ht, .ended _ _⟩
  · cases h
    refine Triple.bind (triple_staysGenuine (keeps_call _)) fun address => ?_
    have hstore : Keeps records (onSecurity (RepositoryService.setDSMContractCache address)) :=
      fun _ => rfl
    exact Triple.bind (triple_staysGenuine hstore) fun _ =>
      triple_pure fun t ht => ⟨ht, .cons trivial .nil⟩
  · cases h
    refine Triple.bind (triple_staysGenuine (keeps_call _)) fun _ => ?_
    refine Triple.bind (Q := fun _ => StaysGenuine deps old) ?_ fun context =>
      triple_pure fun t ht => ⟨ht, .cons trivial .nil⟩
    intro s hs
    refine ((triple_onSecurity triple_getGuardianExecutionContext).mono (fun _ h => h) ?_ ?_) s rfl
    · rintro _ t ⟨_, ⟨_, rfl⟩, rfl⟩
      exact hs
    · rintro t ⟨_, rfl, rfl⟩
      exact hs
  · simp only [Option.bind_eq_bind, Option.bind_eq_some_iff, Option.pure_def, Option.some.injEq] at h
    obtain ⟨m', hm', rfl⟩ := h
    refine Triple.bind (Q := fun _ => StaysGenuine deps old) ?_ fun next =>
      triple_pure fun t ht => ⟨ht, .cons ?_ .nil⟩
    · intro s hs
      refine ((triple_onSecurity (triple_contextResume hm')).mono (fun _ h => h) ?_ ?_) s rfl
      · rintro _ t ⟨_, ⟨hselected, _⟩, rfl⟩
        exact hs.selected hselected
      · rintro t ⟨_, hselected, rfl⟩
        exact hs.selected hselected
    · cases next <;> trivial
  · cases h
    exact triple_pure fun t ht => ⟨ht, .cons trivial (.ended _ _)⟩
  · rename_i snapshot context answer
    cases h
    refine Triple.bind (triple_staysGenuine (keeps_call _)) fun data => ?_
    have hcoherent := coherent_blockData data snapshot context
    dsimp only
    split_ifs with hpause
    · simp only [Bool.and_eq_true, Bool.not_eq_true', Bool.or_eq_true] at hpause
      have hjob : (MessageJob.pause (data.blockData snapshot context)).Justified deps :=
        ⟨hcoherent, hpause⟩
      exact Triple.bind (triple_sign_backed hjob) fun thread =>
        triple_pure fun t ht => ⟨ht.1, .cons ht.2 .nil⟩
    · simp only [Bool.and_eq_true, Bool.not_eq_true', Bool.or_eq_true] at hpause
      refine Triple.bind (Q := fun keys t => StaysGenuine deps old t ∧
        AllBacked deps keys t.security.events) ?_ fun keys =>
          triple_pure fun t ht => ⟨ht.1, ht.2.append (.ended _ _)⟩
      intro s hs
      refine ((triple_handleKeys _ _).mono (fun _ h => h) ?_ fun _ h => h.elim) s rfl
      rintro keys t ⟨hsecurity, hhistory, _, hkeys⟩
      refine ⟨hs.congr ?_, fun other hmem => ?_⟩
      · show (t.security.events, t.history) = (s.security.events, s.history)
        rw [hsecurity, hhistory]
      · rw [hkeys other hmem]
        exact ⟨hcoherent, hpause⟩
  · simp only [Option.bind_eq_bind, Option.bind_eq_some_iff, Option.pure_def, Option.some.injEq] at h
    obtain ⟨m', hm', rfl⟩ := h
    refine Triple.bind (triple_messageResume_backed hm' hstage) fun r => triple_pure ?_
    rintro t ⟨ht, hnext⟩
    refine ⟨ht, AllBacked.append ?_ (.transactions r.2)⟩
    cases hr : r.1 with
    | none => exact .ended _ _
    | some next => exact .cons (hnext next hr) .nil
  · cases h

/-! ## Any step -/

theorem keepsRecords_takeDown (method : CycleMethod) : Keeps records method.takeDown := by
  cases method with
  | handleNewBlock => exact keeps_modify fun _ => rfl
  | handleKeys => exact keeps_modify fun _ => rfl

/-- The messages that go on when one of them has failed. -/
theorem backed_leftBehind {stage : KeysStage} {inTime : Bool} (answer : CycleAnswer)
    (h : (CycleThread.keys inTime stage).Backed deps events) :
    AllBacked deps (stage.leftBehind answer) events := by
  unfold KeysStage.leftBehind
  split
  · exact .map fun message hmem => h.2 message (List.mem_of_mem_eraseIdx hmem)
  · exact .nil

/-- A thread goes on. -/
theorem triple_resume_backed {thread : CycleThread} {answer : CycleAnswer}
    {m : Service CycleState (List CycleThread)} (h : thread.resume deps answer = some m)
    (hthread : thread.Backed deps old) :
    Triple (StaysGenuine deps old) m (fun next t => StaysGenuine deps old t ∧
        AllBacked deps next t.security.events) (StaysGenuine deps old) := by
  unfold CycleThread.resume at h
  split at h
  · rename_i stage
    cases h
    refine Triple.bind (triple_staysGenuine (keepsRecords_takeDown _)) fun _ =>
      triple_pure fun t ht => ⟨ht, .cons ?_ .nil⟩
    have hmono := hthread.mono ht.2
    cases stage <;> exact hmono
  · simp only [Option.bind_eq_bind, Option.bind_eq_some_iff, Option.pure_def, Option.some.injEq] at h
    obtain ⟨m', hm', rfl⟩ := h
    exact (triple_newBlockResume_backed hm' hthread).tryCatch fun _ =>
      triple_pure fun t ht => ⟨ht, .ended _ _⟩
  · rename_i stage
    cases h
    refine Triple.bind (triple_staysGenuine (keepsRecords_takeDown _)) fun _ =>
      triple_pure fun t ht => ⟨ht, .cons ?_ .nil⟩
    have hmono := hthread.mono ht.2
    cases stage <;> exact hmono
  · simp only [Option.bind_eq_bind, Option.bind_eq_some_iff, Option.pure_def, Option.some.injEq] at h
    obtain ⟨m', hm', rfl⟩ := h
    exact (triple_keysResume_backed hm' hthread).tryCatch fun _ => triple_pure fun t ht =>
      ⟨ht, (backed_leftBehind _ (hthread.mono ht.2)).append (.ended _ _)⟩
  · cases h
    exact Triple.bind (triple_staysGenuine (keepsRecords_takeDown _)) fun _ =>
      triple_pure fun t ht => ⟨ht, .nil⟩
  · simp only [Option.bind_eq_bind, Option.bind_eq_some_iff, Option.pure_def, Option.some.injEq] at h
    obtain ⟨m', hm', rfl⟩ := h
    refine Triple.bind (Q := fun _ => StaysGenuine deps old) ?_ fun next =>
      triple_pure fun t ht => ⟨ht, ?_⟩
    · intro s hs
      refine ((triple_onSecurity (triple_contextResume hm')).mono (fun _ h => h) ?_ ?_) s rfl
      · rintro _ t ⟨_, ⟨hselected, _⟩, rfl⟩
        exact hs.selected hselected
      · rintro t ⟨_, hselected, rfl⟩
        exact hs.selected hselected
    · cases next with
      | inl next => exact .cons trivial .nil
      | inr context => exact .nil
  · simp only [Option.bind_eq_bind, Option.bind_eq_some_iff, Option.pure_def, Option.some.injEq] at h
    obtain ⟨m', hm', rfl⟩ := h
    refine Triple.bind (triple_messageResume_backed hm' hthread) fun r => triple_pure ?_
    rintro t ⟨ht, hnext⟩
    exact ⟨ht, .append (.map fun next hmem => hnext next (Option.mem_toList.1 hmem)) (.transactions r.2)⟩
  · simp only [Option.bind_eq_bind, Option.bind_eq_some_iff, Option.pure_def, Option.some.injEq] at h
    obtain ⟨m', hm', rfl⟩ := h
    refine Triple.bind (triple_publishResume_backed hm' hthread) fun next => triple_pure ?_
    rintro t ⟨ht, hnext⟩
    exact ⟨ht, .map fun thread hmem => hnext thread (Option.mem_toList.1 hmem)⟩
  · simp only [Option.bind_eq_bind, Option.bind_eq_some_iff, Option.pure_def, Option.some.injEq] at h
    obtain ⟨m', hm', rfl⟩ := h
    refine Triple.bind (Q := fun _ => StaysGenuine deps old) ?_ fun next =>
      triple_pure fun t ht => ⟨ht, .transactions next⟩
    intro s hs
    refine ((triple_onSecurity (triple_transactionResume hm')).mono (fun _ h => h) ?_ ?_) s rfl
    · rintro _ t ⟨security, ⟨_, _, hevents⟩, rfl⟩
      refine hs.congr ?_
      show (security.events, s.history) = (s.security.events, s.history)
      rw [hevents]
    · rintro t ⟨_, hfalse, _⟩
      exact hfalse.elim
  · cases h

/-! ## Main results -/

/-- What every run keeps. -/
theorem backed_reachable (dsmContract : Option String) (activeWallet : Option Wallet)
    {c : Configuration CycleState CycleThread}
    (h : (cycleProgram deps).Reachable (fun _ _ => True)
      (started { dsmContract := dsmContract, activeWallet := activeWallet }) c) :
    Program.Asserts (AllGenuine deps) (fun s thread => thread.Backed deps s.security.events)
      c.shared c.threads := by
  refine h.threads ⟨⟨fun _ hmem => (by cases hmem), fun _ hmem => (by cases hmem)⟩,
    fun _ hmem => (by cases hmem)⟩ ?_ ?_
  · intro call s threads hs _
    have hrun : ((cycleProgram deps).start call s).1 = s ∧ ((cycleProgram deps).start call s).2 = [] ∨
        ((cycleProgram deps).start call s).1 =
          { s with handleNewBlock := s.handleNewBlock.enter none } ∧
        ((cycleProgram deps).start call s).2 = [.newBlock true .modules] := by
      show (Program.segment handleNewBlock s).1 = _ ∧ (Program.segment handleNewBlock s).2 = _ ∨
        (Program.segment handleNewBlock s).1 = _ ∧ (Program.segment handleNewBlock s).2 = _
      unfold Program.segment handleNewBlock
      simp only [EStateM.run_bind, EStateM.run_get]
      split_ifs
      · exact Or.inl ⟨rfl, rfl⟩
      · exact Or.inr ⟨rfl, rfl⟩
    rcases hrun with ⟨hstate, hthreads⟩ | ⟨hstate, hthreads⟩
    · rw [hstate, hthreads]
      exact ⟨⟨hs.1, AllBacked.nil⟩, hs.2⟩
    · rw [hstate, hthreads]
      exact ⟨⟨⟨hs.1.noted, hs.1.sent⟩, AllBacked.cons trivial .nil⟩, hs.2⟩
  · intro before thread after answer s next hs _ hnext
    obtain ⟨m, hm, rfl⟩ := Option.map_eq_some_iff.1 hnext
    have hthread : thread.Backed deps s.security.events := hs.2 thread (by simp)
    have hothers : ∀ t, s.security.events ⊆ t → ∀ other ∈ before ++ after, other.Backed deps t := by
      intro t hsub other hmem
      refine (hs.2 other ?_).mono hsub
      rcases List.mem_append.1 hmem with hmem | hmem
      · exact List.mem_append_left _ hmem
      · exact List.mem_append_right _ (List.mem_cons_of_mem _ hmem)
    obtain ⟨hok, herror⟩ := triple_resume_backed hm hthread s ⟨hs.1, List.Subset.refl _⟩
    unfold Program.segment
    cases hrun : EStateM.run m s with
    | ok next t =>
      obtain ⟨ht, hbacked⟩ := hok next t hrun
      exact ⟨⟨ht.1, hbacked⟩, hothers _ ht.2⟩
    | error e t =>
      have ht := herror e t hrun
      exact ⟨⟨ht.1, AllBacked.nil⟩, hothers _ ht.2⟩

/-- A genuine message names the guardian and the version of its context. -/
theorem Genuine.identity {context : GuardianExecutionContext} {message : Message}
    (h : Genuine deps events context message) : message.guardianIndex = context.guardianIndex ∧
      message.dsmVersion = some context.dsmVersion := by
  obtain ⟨job, signature, ⟨hcoherent, _⟩, _, rfl, rfl⟩ := h
  cases job with
  | pause blockData => exact ⟨hcoherent.guardianIndex, rfl⟩
  | unvet stakingModuleData blockData chunk => exact ⟨hcoherent.guardianIndex, rfl⟩
  | deposit stakingModuleData blockData => exact ⟨hcoherent.guardianIndex, rfl⟩

variable (deps) in
/-- **Transactions.** In every interleaving of cycles and background runs, a transaction that was sent is the
one of a justified job, under its context, from the wallet which that context designates, and the signature
of the job was made before. -/
theorem transactions_justified (dsmContract : Option String) (activeWallet : Option Wallet)
    {c : Configuration CycleState CycleThread}
    (h : (cycleProgram deps).Reachable (fun _ _ => True)
      (started { dsmContract := dsmContract, activeWallet := activeWallet }) c) :
    ∀ context transaction, .sent context transaction ∈ c.shared.security.events →
      ∃ job signature call wallet contract, job.Justified deps ∧
        SignedIn deps c.shared.security.events job signature ∧ context = job.context ∧
        job.transaction signature = some call ∧ designatedWallet deps context = some wallet ∧
        transaction = directTransaction context wallet contract call :=
  fun _ _ hmem => (backed_reachable dsmContract activeWallet h).1.sent _ hmem

/-! ## A sample -/

open CycleSample

/-- A cycle that finds a suspicious deposit, up to the publication of its pause message. -/
def pauseMoves : List (Move CycleCall CycleAnswer) :=
  contextMoves 0 17 firstContract legacyAnswers ++
    [.resume 0 (.collected (.ok { collected with hasFrontRunning := true })),
      .resume 0 (.message (.messagePrefix (.ok PayloadsSample.lowerPrefix))),
      .resume 0 (.message .settled), .resume 0 (.message (.connected (.ok ())))]

theorem pause_run : ((cycleProgram SecuritySample.deps).run (fun _ _ => true) CycleSample.start
    pauseMoves).isSome = true := by
  decide +kernel

def pausedState : CycleState := (Option.get _ pause_run).shared

def isPublished : CycleEvent → Bool
  | .published .. => true
  | _ => false

def isSent : SecurityEvent → Bool
  | .sent .. => true
  | _ => false

theorem transactions_justified_pause : ∃ context transaction,
    .sent context transaction ∈ pausedState.security.events ∧
    ∃ job signature call wallet contract, job.Justified SecuritySample.deps ∧
      SignedIn SecuritySample.deps pausedState.security.events job signature ∧ context = job.context ∧
      job.transaction signature = some call ∧
      designatedWallet SecuritySample.deps context = some wallet ∧
      transaction = directTransaction context wallet contract call := by
  have hsent : pausedState.security.events.any isSent = true := by
    decide +kernel
  obtain ⟨event, hmem, hevent⟩ := List.any_eq_true.1 hsent
  cases event with
  | signed context contract messagePrefix request wallet digest => cases hevent
  | sent context transaction =>
    have hjustified := transactions_justified SecuritySample.deps (some firstContract) none
      (Program.Reachable.refl.run (fun _ _ _ => trivial) (Option.some_get pause_run).symm)
    exact ⟨context, transaction, hmem, hjustified context transaction hmem⟩

end Guardian

end CouncilDaemon
