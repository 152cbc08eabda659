import CouncilDaemon.Guardian.CycleSteps
import CouncilDaemon.Lib.Refinement

/-!
# The cycles as clients of the security service

What a cycle or a background run does to the security service is what the calls of that service do. A
thread of a cycle holds the calls that wait in it: that of the context, those of the signatures and that of
a transaction. So every run of the cycles is a run of the security service (`refines_security`,
`cycles_refine_security`).
-/

namespace CouncilDaemon

namespace Guardian

open Service SecurityService StakingModuleGuard

/-- The call of the security service that waits in a message. -/
def MessageThread.security : MessageThread → List SecurityThread
  | signing job contract => [.sign ⟨job.request, job.context, contract⟩]
  | _ => []

/-- The calls of the security service that wait in a thread. -/
def CycleThread.security : CycleThread → List SecurityThread
  | newBlock _ (.collecting _ thread) => [.context thread]
  | newBlock _ (.pausing thread) => thread.security
  | keys _ (.unvetting _ thread) => thread.security
  | keys _ (.depositing _ messages) => messages.flatMap (·.security)
  | context thread => [.context thread]
  | message thread => thread.security
  | transaction thread => [.transaction thread]
  | _ => []

variable (deps : SecurityDeps) (d : Configuration SecurityState SecurityThread)

/-- The security service comes to the state that the cycles have, with the calls `threads`. -/
def Stands (threads : List SecurityThread) (t : CycleState) : Prop :=
  (securityProgram deps).Reaches d t.security threads

variable {deps d} {s t : CycleState} {threads : List SecurityThread}

theorem Stands.congr (h : Stands deps d threads s) (hsecurity : t.security = s.security) :
    Stands deps d threads t := by
  unfold Stands
  rw [hsecurity]
  exact h

theorem Stands.perm {threads' : List SecurityThread} (h : Stands deps d threads s)
    (hperm : threads.Perm threads') : Stands deps d threads' s :=
  Program.Reaches.perm h hperm

/-- A method that does not change the state of the security service. -/
theorem triple_keeps {α : Type} {m : Service CycleState α} (h : Keeps CycleState.security m) :
    Triple (Stands deps d threads) m (fun _ => Stands deps d threads) (Stands deps d threads) := by
  intro s hs
  have hkeeps := h s
  refine ⟨fun a t hrun => ?_, fun e t hrun => ?_⟩
  · rw [hrun] at hkeeps
    exact hs.congr hkeeps
  · rw [hrun] at hkeeps
    exact hs.congr hkeeps

/-! ## Calls -/

/-- A segment of the security service that leaves threads by the value it returns. -/
theorem triple_segment {α : Type} {P : CycleState → Prop} {m : Service SecurityState α}
    {f : α → List SecurityThread}
    (h : ∀ s, P s → (securityProgram deps).Reaches d
      (Program.segment (do let a ← m; return f a) s.security).1
      ((Program.segment (do let a ← m; return f a) s.security).2 ++ threads)) :
    Triple P (onSecurity m) (fun a => Stands deps d (f a ++ threads)) (Stands deps d threads) := by
  intro s hs
  have hreaches := h s hs
  unfold Program.segment at hreaches
  unfold onSecurity
  cases hrun : EStateM.run m s.security with
  | ok a u =>
    rw [run_bind_ok hrun] at hreaches
    rw [run_zoom_ok hrun]
    refine ⟨fun a' t h => ?_, fun e t h => (by cases h)⟩
    cases h
    exact hreaches
  | error e u =>
    rw [run_bind_error hrun] at hreaches
    rw [run_zoom_error hrun]
    refine ⟨fun a' t h => (by cases h), fun e' t h => ?_⟩
    cases h
    exact hreaches

/-- A call of the security service starts. -/
theorem triple_started {α : Type} {m : Service SecurityState α} (call : SecurityCall)
    (f : α → List SecurityThread) (h : call.start deps = do let a ← m; return f a) :
    Triple (Stands deps d threads) (onSecurity m) (fun a => Stands deps d (f a ++ threads))
      (Stands deps d threads) := by
  refine triple_segment fun s hs => ?_
  rw [← h]
  exact Program.Reaches.started hs call

/-- A call of the security service goes on. -/
theorem triple_resumed {α : Type} {m : Service SecurityState α} (thread : SecurityThread)
    (answer : SecurityAnswer) (f : α → List SecurityThread)
    (h : thread.resume deps answer = some (do let a ← m; return f a)) :
    Triple (Stands deps d (thread :: threads)) (onSecurity m) (fun a => Stands deps d (f a ++ threads))
      (Stands deps d threads) := by
  refine triple_segment fun s hs => ?_
  have hnext : (securityProgram deps).resume thread answer s.security =
      some (Program.segment (do let a ← m; return f a) s.security) := by
    show (thread.resume deps answer).map _ = _
    rw [h]
    rfl
  exact Program.Reaches.resumed hs hnext

/-! ## Signatures -/

/-- A signing method that finds a contract waits for the prefix. -/
theorem Stands.signing (h : Stands deps d threads s) (job : MessageJob) {contract : String}
    (hcontract : s.security.dsmContract = some contract) :
    Stands deps d ((MessageThread.signing job contract).security ++ threads) s := by
  have hrun : ∀ request context, EStateM.run (getMessagePrefix request context) s.security =
      .ok ⟨request, context, contract⟩ s.security := by
    intro request context
    unfold getMessagePrefix RepositoryService.getCachedDSMContract
    simp only [EStateM.run_bind, EStateM.run_get, hcontract]
    rfl
  have hsegment : ∀ request context, Program.segment (do
      let thread ← getMessagePrefix request context
      return [SecurityThread.sign thread]) s.security =
      (s.security, [.sign ⟨request, context, contract⟩]) := by
    intro request context
    unfold Program.segment
    rw [run_bind_ok (hrun request context)]
    rfl
  have hcall : ∃ call, (securityProgram deps).start call s.security =
      (s.security, (MessageThread.signing job contract).security) := by
    cases job with
    | pause blockData =>
      exact ⟨.signPauseData blockData.blockNumber blockData.blockHash blockData.guardianContext,
        hsegment _ _⟩
    | unvet stakingModuleData blockData chunk =>
      exact ⟨.signUnvetData stakingModuleData.nonce blockData.blockNumber blockData.blockHash
        stakingModuleData.stakingModuleId chunk.operatorIds chunk.vettedKeysByOperator
        blockData.guardianContext, hsegment _ _⟩
    | deposit stakingModuleData blockData =>
      exact ⟨.signDepositData blockData.depositRoot stakingModuleData.nonce blockData.blockNumber
        blockData.blockHash stakingModuleData.stakingModuleId blockData.guardianContext,
        hsegment _ _⟩
  obtain ⟨call, hcall⟩ := hcall
  have hstarted := Program.Reaches.started h call
  rw [hcall] at hstarted
  exact hstarted

theorem triple_sign_stands (job : MessageJob) :
    Triple (Stands deps d threads) job.sign (fun message => Stands deps d (message.security ++ threads))
      (Stands deps d threads) := by
  intro s hs
  refine ((triple_sign job).mono (fun _ h => h) ?_ ?_) s rfl
  · rintro _ t ⟨⟨contract, hcontract, rfl⟩, rfl⟩
    exact hs.signing job hcontract
  · rintro t rfl
    exact hs

/-- The deposit messages of a run begin. -/
theorem triple_startDeposits_stands (run : KeysRun) (inTime : Bool) :
    Triple (Stands deps d threads) (startDeposits run)
      (fun stage => Stands deps d ((CycleThread.keys inTime stage).security ++ threads))
      (Stands deps d threads) := by
  intro s hs
  refine ((triple_startDeposits run).mono (fun _ h => h) ?_ ?_) s rfl
  · rintro _ t ⟨⟨messages, rfl, hmessages⟩, rfl⟩
    show Stands deps d (messages.flatMap (·.security) ++ threads) t
    induction messages with
    | nil => exact hs
    | cons message messages ih =>
      obtain ⟨stakingModuleData, contract, hcontract, rfl⟩ := hmessages message List.mem_cons_self
      have hrest := ih fun message hmem => hmessages message (List.mem_cons_of_mem _ hmem)
      rw [List.flatMap_cons, List.append_assoc]
      exact hrest.signing _ hcontract
  · rintro t rfl
    exact hs

/-! ## Messages -/

theorem keeps_record (event : CycleEvent) : Keeps CycleState.security (record event) :=
  keeps_modify fun _ => rfl

theorem keeps_publishResume {thread : PublishThread} {answer : MessageAnswer}
    {m : Service CycleState (Option PublishThread)} (h : thread.resume deps answer = some m) :
    Keeps CycleState.security m := by
  unfold PublishThread.resume at h
  split at h
  · cases h
    refine (keeps_call _).bind fun _ => Keeps.bind (fun _ => rfl) fun wallet => ?_
    exact (keeps_record _).bind fun _ => keeps_pure _
  · cases h
    exact (keeps_call _).bind fun _ => keeps_pure _
  · cases h
    exact keeps_pure _
  · cases h

theorem keeps_remember (job : MessageJob) : Keeps CycleState.security job.remember := by
  cases job with
  | pause blockData => exact keeps_pure _
  | unvet stakingModuleData blockData chunk => exact keeps_pure _
  | deposit stakingModuleData blockData => exact keeps_modify fun _ => rfl

theorem triple_send_stands (job : MessageJob) (signature : Signature) :
    Triple (Stands deps d threads) (job.send deps signature)
      (fun r => Stands deps d (r.1.security ++ (r.2.toList.map .transaction ++ threads)))
      (Stands deps d threads) := by
  unfold MessageJob.send
  refine Triple.bind (Q := fun transaction =>
    Stands deps d (transaction.toList.map .transaction ++ threads)) ?_ fun transaction => ?_
  · cases job.transaction signature with
    | none => exact triple_pure fun t ht => ht
    | some call =>
      cases call with
      | pauseDeposits pauseBlockNumber signature =>
        exact triple_started (.pauseDeposits pauseBlockNumber signature job.context) _ rfl
      | unvetSigningKeys params signature =>
        exact triple_started (.unvetSigningKeys params.nonce params.blockNumber
          params.blockHash params.stakingModuleId params.operatorIds params.vettedKeysByOperator
          signature job.context) _ rfl
  · refine Triple.bind (triple_modify (Q := fun _ => Stands deps d _) fun t ht => ?_)
      fun _ => triple_pure fun t ht => ht
    exact ht.congr rfl

/-- A message goes on. -/
theorem triple_messageResume_stands {thread : MessageThread} {answer : MessageAnswer}
    {m : Service CycleState (Option MessageThread × Option TransactionThread)}
    (h : thread.resume deps answer = some m) :
    Triple (Stands deps d (thread.security ++ threads)) m
      (fun r t => (r.1 = none → r.2 = none) ∧ Stands deps d (r.1.toList.flatMap (·.security) ++
        (r.2.toList.map .transaction ++ threads)) t) (Stands deps d threads) := by
  unfold MessageThread.resume at h
  split at h
  · cases h
    rename_i job contract answer
    refine Triple.bind (triple_resumed _ (.messagePrefix answer) (fun _ => []) rfl) fun signature => triple_pure fun t ht => ⟨fun _ => rfl, ht⟩
  · cases h
    rename_i job signature
    refine Triple.bind (triple_send_stands job signature) fun r => triple_pure fun t ht => ?_
    refine ⟨fun h => (by cases h), ?_⟩
    show Stands deps d (List.flatMap (·.security) [r.1] ++ _) t
    rw [List.flatMap_singleton]
    exact ht
  · simp only [Option.bind_eq_bind, Option.bind_eq_some_iff, Option.pure_def, Option.some.injEq] at h
    obtain ⟨m', hm', rfl⟩ := h
    refine Triple.bind (triple_keeps (keeps_publishResume hm')) fun next => ?_
    cases next with
    | some thread => exact triple_pure fun t ht => ⟨fun _ => rfl, ht⟩
    | none =>
      exact Triple.bind (triple_keeps (keeps_remember _)) fun _ =>
        triple_pure fun t ht => ⟨fun _ => rfl, ht⟩
  · cases h

/-! ## The background run -/

theorem security_ended (method : CycleMethod) (inTime : Bool) :
    (ended method inTime).flatMap CycleThread.security = [] := by
  unfold ended
  split_ifs <;> rfl

theorem security_transactions (transaction : Option TransactionThread) :
    (transaction.toList.map CycleThread.transaction).flatMap CycleThread.security =
      transaction.toList.map .transaction := by
  cases transaction <;> rfl

theorem triple_handleUnvetting_stands (run : KeysRun) (inTime : Bool) :
    Triple (Stands deps d threads) (handleUnvetting run)
      (fun stage => Stands deps d ((CycleThread.keys inTime stage).security ++ threads))
      (Stands deps d threads) := by
  unfold handleUnvetting
  cases findFirstInvalidModule run.stakingModulesData with
  | none => exact triple_startDeposits_stands run inTime
  | some firstInvalidModule =>
    dsimp only
    split_ifs
    · exact triple_startDeposits_stands run inTime
    · exact triple_pure fun t ht => ht

/-- The end of a run. -/
theorem triple_finishKeys_stands (run : KeysRun) :
    Triple (Stands deps d threads) (finishKeys run)
      (fun pings => Stands deps d (pings.flatMap (·.security) ++ threads)) (Stands deps d threads) := by
  unfold finishKeys
  refine Triple.bind (triple_keeps keeps_get) fun s => ?_
  dsimp only
  split_ifs
  · refine Triple.bind (triple_keeps (keeps_modify fun _ => rfl)) fun _ => ?_
    exact Triple.bind (triple_keeps (keeps_modify fun _ => rfl)) fun _ =>
      Triple.bind (triple_keeps (keeps_record _)) fun _ => triple_pure fun t ht => ht
  · exact Triple.bind (triple_keeps (keeps_modify fun _ => rfl)) fun _ =>
      Triple.bind (triple_keeps (keeps_record _)) fun _ => triple_pure fun t ht => ht

/-- The background run goes on. -/
theorem triple_keysResume_stands {stage : KeysStage} {inTime : Bool} {answer : CycleAnswer}
    {m : Service CycleState (List CycleThread)} (h : stage.resume deps inTime answer = some m) :
    Triple (Stands deps d ((CycleThread.keys inTime stage).security ++ threads)) m
      (fun next => Stands deps d (next.flatMap (·.security) ++ threads))
      (Stands deps d ((stage.leftBehind answer).flatMap (·.security) ++ threads)) := by
  unfold KeysStage.resume at h
  split at h
  · cases h
    refine Triple.bind (triple_keeps (keeps_call _)) fun stakingModulesData => ?_
    refine Triple.bind (triple_handleUnvetting_stands _ inTime) fun stage => triple_pure fun t ht => ?_
    rw [List.flatMap_singleton]
    exact ht
  · cases h
    refine Triple.bind (triple_keeps (keeps_call _)) fun maxOperatorsPerUnvetting => ?_
    refine Triple.bind (triple_keeps (keeps_call _)) fun firstChunk => ?_
    refine Triple.bind (triple_sign_stands _) fun thread => triple_pure fun t ht => ?_
    rw [List.flatMap_singleton]
    exact ht
  · rename_i run thread answer
    simp only [Option.bind_eq_bind, Option.bind_eq_some_iff, Option.pure_def, Option.some.injEq] at h
    obtain ⟨m', hm', rfl⟩ := h
    refine Triple.bind (triple_messageResume_stands hm') fun r => ?_
    refine Triple.bind (Q := fun stage => Stands deps d
      ((CycleThread.keys inTime stage).security ++ (r.2.toList.map .transaction ++ threads))) ?_
      fun stage => triple_pure fun t ht => ?_
    · cases hr : r.1 with
      | none =>
        rintro t ⟨hnone, ht⟩
        rw [hnone rfl] at ht ⊢
        exact triple_startDeposits_stands run inTime t ht
      | some next =>
        refine triple_pure ?_
        rintro t ⟨_, ht⟩
        rw [Option.toList_some, List.flatMap_singleton] at ht
        exact ht
    · rw [List.flatMap_cons, security_transactions, List.append_assoc]
      exact ht
  · rename_i run messages index answer
    simp only [Option.bind_eq_bind, Option.bind_eq_some_iff, Option.pure_def, Option.some.injEq] at h
    obtain ⟨thread, hthread, m', hm', rfl⟩ := h
    have hsplit : messages = messages.take index ++ thread :: messages.drop (index + 1) := by
      obtain ⟨hindex, rfl⟩ := List.getElem?_eq_some_iff.1 hthread
      rw [← List.drop_eq_getElem_cons hindex, List.take_append_drop]
    have hfront : (messages.flatMap (·.security) ++ threads).Perm (thread.security ++
        ((messages.eraseIdx index).flatMap (·.security) ++ threads)) := by
      rw [List.eraseIdx_eq_take_drop_succ, List.flatMap_append]
      conv_lhs => rw [hsplit, List.flatMap_append, List.flatMap_cons]
      simp only [List.append_assoc]
      exact List.perm_append_comm_assoc _ _ _
    refine Triple.bind ((triple_messageResume_stands hm').mono (fun t ht => Stands.perm ht hfront)
      (fun _ _ h => h) fun t ht => ?_) fun r => triple_pure ?_
    · show Stands deps d (((messages.eraseIdx index).map CycleThread.message).flatMap _ ++ _) t
      rw [List.flatMap_map]
      exact ht
    · rintro t ⟨_, ht⟩
      refine ht.perm ?_
      rw [List.flatMap_cons, security_transactions, List.eraseIdx_eq_take_drop_succ]
      show List.Perm _ ((_ ++ (_ ++ _) : List MessageThread).flatMap (·.security) ++ _ ++ _)
      simp only [List.flatMap_append]
      rw [← Multiset.coe_eq_coe]
      simp only [← Multiset.coe_add]
      abel
  · cases h
    refine Triple.bind (triple_finishKeys_stands _) fun pings => triple_pure fun t ht => ?_
    rw [List.flatMap_append, security_ended, List.append_nil]
    exact ht
  · cases h

/-! ## The cycle -/

theorem triple_handleKeys_stands (stakingModulesData : List StakingModuleData)
    (blockData : BlockData) :
    Triple (Stands deps d threads) (handleKeys stakingModulesData blockData)
      (fun keys => Stands deps d (keys.flatMap (·.security) ++ threads)) (Stands deps d threads) := by
  intro s hs
  refine ((triple_handleKeys stakingModulesData blockData).mono (fun _ h => h) ?_
    fun _ h => h.elim) s rfl
  rintro keys t ⟨hsecurity, _, _, hkeys⟩
  have hnone : keys.flatMap (·.security) = [] := by
    rw [List.flatMap_eq_nil_iff]
    intro other hmem
    rw [hkeys other hmem]
    rfl
  rw [hnone]
  exact hs.congr hsecurity

/-- The cycle goes on. -/
theorem triple_newBlockResume_stands {stage : NewBlockStage} {inTime : Bool} {answer : CycleAnswer}
    {m : Service CycleState (List CycleThread)} (h : stage.resume deps inTime answer = some m) :
    Triple (Stands deps d ((CycleThread.newBlock inTime stage).security ++ threads)) m
      (fun next => Stands deps d (next.flatMap (·.security) ++ threads)) (Stands deps d threads) := by
  unfold NewBlockStage.resume at h
  split at h
  · cases h
    refine Triple.bind (triple_keeps (keeps_call _)) fun snapshot => ?_
    refine Triple.bind (triple_keeps keeps_get) fun s => ?_
    split_ifs
    · exact triple_pure fun t ht => ht
    · refine triple_pure fun t ht => ?_
      rw [security_ended]
      exact ht
  · cases h
    refine Triple.bind (triple_keeps (keeps_call _)) fun address => ?_
    refine Triple.bind (triple_started (.setDSMContractCache address) (fun _ => []) rfl) fun _ => triple_pure fun t ht => ht
  · cases h
    refine Triple.bind (triple_keeps (keeps_call _)) fun _ => ?_
    refine Triple.bind (triple_started .getGuardianExecutionContext
      (fun thread => [.context thread]) rfl) fun context => triple_pure fun t ht => ht
  · rename_i snapshot context answer
    simp only [Option.bind_eq_bind, Option.bind_eq_some_iff, Option.pure_def, Option.some.injEq] at h
    obtain ⟨m', hm', rfl⟩ := h
    refine Triple.bind (triple_resumed (.context context) (.context answer)
      (fun next => next.elim (fun next => [.context next]) fun _ => []) ?_) fun next =>
        triple_pure fun t ht => ?_
    · show (context.resume deps answer).bind _ = _
      rw [hm']
      rfl
    · cases next <;> exact ht
  · cases h
    refine triple_pure fun t ht => ?_
    rw [List.flatMap_cons, security_ended, List.append_nil]
    exact ht
  · cases h
    refine Triple.bind (triple_keeps (keeps_call _)) fun data => ?_
    dsimp only
    split_ifs
    · refine Triple.bind (triple_sign_stands _) fun thread => triple_pure fun t ht => ?_
      rw [List.flatMap_singleton]
      exact ht
    · refine Triple.bind (triple_handleKeys_stands _ _) fun keys => triple_pure fun t ht => ?_
      rw [List.flatMap_append, security_ended, List.append_nil]
      exact ht
  · simp only [Option.bind_eq_bind, Option.bind_eq_some_iff, Option.pure_def, Option.some.injEq] at h
    obtain ⟨m', hm', rfl⟩ := h
    refine Triple.bind (triple_messageResume_stands hm') fun r => triple_pure ?_
    rintro t ⟨_, ht⟩
    rw [List.flatMap_append, security_transactions, List.append_assoc]
    cases hr : r.1 with
    | none =>
      rw [hr] at ht
      show Stands deps d ((ended _ _).flatMap _ ++ _) t
      rw [security_ended]
      exact ht
    | some next =>
      rw [hr] at ht
      exact ht
  · cases h

/-! ## Any step -/

theorem triple_takeDown_stands (method : CycleMethod) {E : CycleState → Prop} :
    Triple (Stands deps d threads) method.takeDown (fun _ => Stands deps d threads) E := by
  cases method with
  | handleNewBlock => exact triple_modify fun t ht => ht
  | handleKeys => exact triple_modify fun t ht => ht

/-- A thread goes on. -/
theorem triple_resume_stands {thread : CycleThread} {answer : CycleAnswer}
    {m : Service CycleState (List CycleThread)} (h : thread.resume deps answer = some m) :
    Triple (Stands deps d (thread.security ++ threads)) m
      (fun next => Stands deps d (next.flatMap (·.security) ++ threads)) (Stands deps d threads) := by
  unfold CycleThread.resume at h
  split at h
  · rename_i stage
    cases h
    refine Triple.bind (triple_takeDown_stands .handleNewBlock) fun _ => triple_pure fun t ht => ?_
    rw [List.flatMap_singleton]
    cases stage <;> exact ht
  · rename_i inTime stage answer hnot
    simp only [Option.bind_eq_bind, Option.bind_eq_some_iff, Option.pure_def, Option.some.injEq] at h
    obtain ⟨m', hm', rfl⟩ := h
    refine (triple_newBlockResume_stands hm').tryCatch fun _ => triple_pure fun t ht => ?_
    rw [security_ended]
    exact ht
  · rename_i stage
    cases h
    refine Triple.bind (triple_takeDown_stands .handleKeys) fun _ => triple_pure fun t ht => ?_
    rw [List.flatMap_singleton]
    cases stage <;> exact ht
  · rename_i inTime stage answer hnot
    simp only [Option.bind_eq_bind, Option.bind_eq_some_iff, Option.pure_def, Option.some.injEq] at h
    obtain ⟨m', hm', rfl⟩ := h
    refine (triple_keysResume_stands hm').tryCatch fun _ => triple_pure fun t ht => ?_
    rw [List.flatMap_append, security_ended, List.append_nil]
    exact ht
  · rename_i method
    cases h
    exact Triple.bind (triple_takeDown_stands method) fun _ => triple_pure fun t ht => ht
  · rename_i context answer
    simp only [Option.bind_eq_bind, Option.bind_eq_some_iff, Option.pure_def, Option.some.injEq] at h
    obtain ⟨m', hm', rfl⟩ := h
    refine Triple.bind (triple_resumed (.context context) (.context answer)
      (fun next => next.elim (fun next => [.context next]) fun _ => []) ?_) fun next =>
        triple_pure fun t ht => ?_
    · show (context.resume deps answer).bind _ = _
      rw [hm']
      rfl
    · cases next <;> exact ht
  · rename_i message answer
    simp only [Option.bind_eq_bind, Option.bind_eq_some_iff, Option.pure_def, Option.some.injEq] at h
    obtain ⟨m', hm', rfl⟩ := h
    refine Triple.bind (triple_messageResume_stands hm') fun r => triple_pure ?_
    rintro t ⟨_, ht⟩
    rw [List.flatMap_append, security_transactions, List.append_assoc, List.flatMap_map]
    exact ht
  · simp only [Option.bind_eq_bind, Option.bind_eq_some_iff, Option.pure_def, Option.some.injEq] at h
    obtain ⟨m', hm', rfl⟩ := h
    refine Triple.bind (triple_keeps (keeps_publishResume hm')) fun next =>
      triple_pure fun t ht => ?_
    cases next <;> exact ht
  · rename_i transaction answer
    simp only [Option.bind_eq_bind, Option.bind_eq_some_iff, Option.pure_def, Option.some.injEq] at h
    obtain ⟨m', hm', rfl⟩ := h
    refine Triple.bind (triple_resumed (.transaction transaction)
      (.transaction answer) (fun next => next.toList.map .transaction) ?_) fun next =>
        triple_pure fun t ht => ?_
    · show (transaction.resume answer).bind _ = _
      rw [hm']
      rfl
    · rw [security_transactions]
      exact ht
  · cases h

variable (deps) in
/-- **Refinement.** The cycles do to the security service what its calls do. -/
theorem refines_security : Program.Refines (cycleProgram deps) (securityProgram deps)
    (fun s security => security = s.security) CycleThread.security := by
  constructor
  · rintro call s d _ others rfl hd
    refine ⟨_, rfl, ?_⟩
    have hrun : Program.segment handleNewBlock s = if s.handleNewBlock.busy none then (s, [])
        else ({ s with handleNewBlock := s.handleNewBlock.enter none }, [.newBlock true .modules]) := by
      unfold Program.segment handleNewBlock
      simp only [EStateM.run_bind, EStateM.run_get]
      split_ifs <;> rfl
    show (securityProgram deps).Reaches d (Program.segment handleNewBlock s).1.security
      ((Program.segment handleNewBlock s).2.flatMap CycleThread.security ++ others)
    rw [hrun]
    split_ifs
    · exact hd
    · exact hd
  · rintro thread answer s next d _ others hnext rfl hd
    refine ⟨_, rfl, ?_⟩
    obtain ⟨m, hm, rfl⟩ := Option.map_eq_some_iff.1 hnext
    obtain ⟨hok, herror⟩ := triple_resume_stands hm s hd
    unfold Program.segment
    cases hrun : EStateM.run m s with
    | ok next t => exact hok next t hrun
    | error e t => exact herror e t hrun

variable (deps) in
/-- **Runs of the cycles.** What any interleaving of cycles leaves of the security service is what a run of
its calls leaves, with the calls that wait in the threads. -/
theorem cycles_refine_security (security : SecurityState) {c : Configuration CycleState CycleThread}
    (h : (cycleProgram deps).Reachable (fun _ _ => True) (started security) c) :
    ∃ d, (securityProgram deps).Reachable (fun _ _ => True) ⟨security, []⟩ d ∧
      d.shared = c.shared.security ∧ d.threads.Perm (c.threads.flatMap CycleThread.security) := by
  obtain ⟨d, hreach, hshared, hthreads⟩ := (refines_security deps).invariant h rfl fun d hd => hd
  exact ⟨d, hreach, hshared, hthreads⟩

/-! ## A sample -/

open CycleSample

/-- A cycle whose background run waits for the prefix of its deposit message, and the next cycle, which
waits for the guardian list. -/
theorem overlapping_run : ((cycleProgram SecuritySample.deps).run (fun _ _ => true) CycleSample.start
    (cycleMoves 0 17 firstContract legacyAnswers ++ (depositMoves 0).take 1 ++
      (contextMoves 1 18 firstContract legacyAnswers).take 5)).isSome = true := by
  decide +kernel

theorem cycles_refine_security_overlapping :
    ∃ d, (securityProgram SecuritySample.deps).Reachable (fun _ _ => True)
      ⟨{ dsmContract := some firstContract, activeWallet := none }, []⟩ d ∧
      d.shared = (Option.get _ overlapping_run).shared.security ∧
      d.threads.Perm ((Option.get _ overlapping_run).threads.flatMap CycleThread.security) :=
  cycles_refine_security SecuritySample.deps _ (Program.Reachable.refl.run (fun _ _ _ => trivial)
    (Option.some_get overlapping_run).symm)

end Guardian

end CouncilDaemon
