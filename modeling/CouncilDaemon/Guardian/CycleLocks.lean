import CouncilDaemon.Common.SharedLocks
import CouncilDaemon.Guardian.ProcessedBlocks

/-!
# The cycle one at a time

`handleNewBlock` and `handleKeys` are marked `OneAtTime`, and the second one runs on behind the first. In
any interleaving, the cycles use each of the two like a method with these flags (`refines_cycleMethod`). So a
flag is up exactly while one body of its method is within its timeout or has just ended
(`cycle_locks_balanced`); and as long as no body runs into its timeout, no body overlaps another one of its
method (`one_body_each`).
-/

namespace CouncilDaemon

namespace Guardian

open Service SecurityService StakingModuleGuard OneAtTime

/-! ## What a body holds -/

def CycleMethod.flags : CycleMethod → CycleState → OneAtTime
  | handleNewBlock, s => s.handleNewBlock
  | handleKeys, s => s.handleKeys

/-- The method, as `OneAtTime` decorates it. -/
def CycleMethod.decorated : CycleMethod → DecoratedMethod
  | handleNewBlock => { propertyName := "handleNewBlock" }
  | handleKeys => { propertyName := "handleKeys" }

/-- The invocation of a body: it races its timer, or has lost that race. -/
def bodyInvocations (inTime : Bool) : List (Invocation Unit) :=
  if inTime then [.racing none] else [.leftBehind none]

/-- The invocation of a body that has ended. -/
def endedInvocations (inTime : Bool) : List (Invocation Unit) :=
  if inTime then [.raced none (.ok ()) false] else []

/-- The invocation of `method` that a thread belongs to. -/
def CycleThread.invocations (method : CycleMethod) : CycleThread → List (Invocation Unit)
  | newBlock inTime _ => if method = .handleNewBlock then bodyInvocations inTime else []
  | keys inTime _ => if method = .handleKeys then bodyInvocations inTime else []
  | leaving other => if method = other then endedInvocations true else []
  | _ => []

/-- The thread is a body of the method within its timeout, or the call of one that has ended. -/
def CycleThread.holdsFlag (method : CycleMethod) : CycleThread → Bool
  | newBlock inTime _ => inTime && method = .handleNewBlock
  | keys inTime _ => inTime && method = .handleKeys
  | leaving other => method = other
  | _ => false

theorem weight_cycleInvocations (method : CycleMethod) (thread : CycleThread) :
    ((thread.invocations method).map (weight none)).sum = (thread.holdsFlag method).toNat := by
  cases thread with
  | newBlock inTime stage => cases method <;> cases inTime <;> rfl
  | keys inTime stage => cases method <;> cases inTime <;> rfl
  | leaving other => cases method <;> cases other <;> rfl
  | context thread => rfl
  | message thread => rfl
  | ping thread => rfl
  | transaction thread => rfl

theorem sum_weight_cycleInvocations (method : CycleMethod) (threads : List CycleThread) :
    ((threads.flatMap (CycleThread.invocations method)).map (weight none)).sum =
      threads.countP (CycleThread.holdsFlag method) := by
  induction threads with
  | nil => rfl
  | cons thread threads ih =>
    rw [List.flatMap_cons, List.map_append, List.sum_append, weight_cycleInvocations, ih,
      List.countP_cons, Nat.add_comm]
    cases thread.holdsFlag method <;> rfl

/-! ## Segments that leave the flags as they are -/

/-- The flags of the two methods. -/
def cycleFlags (s : CycleState) : OneAtTime × OneAtTime := (s.handleNewBlock, s.handleKeys)

variable {deps : SecurityDeps} {s t : CycleState} {method : CycleMethod}

theorem flags_of_cycleFlags (h : cycleFlags t = cycleFlags s) (method : CycleMethod) :
    method.flags t = method.flags s := by
  obtain ⟨hnewBlock, hkeys⟩ := Prod.mk.inj h
  cases method with
  | handleNewBlock => exact hnewBlock
  | handleKeys => exact hkeys

theorem keeps_onSecurity {α : Type} (m : Service SecurityState α) : Keeps cycleFlags (onSecurity m) := by
  refine keeps_zoom ?_ m
  intro security s
  rfl

theorem keepsFlags_record (event : CycleEvent) : Keeps cycleFlags (record event) :=
  keeps_modify fun _ => rfl

theorem keepsFlags_sign (job : MessageJob) : Keeps cycleFlags job.sign :=
  (keeps_onSecurity _).bind fun _ => keeps_pure _

theorem keepsFlags_send (job : MessageJob) (signature : Signature) :
    Keeps cycleFlags (job.send deps signature) := by
  unfold MessageJob.send
  refine Keeps.bind ?_ fun transaction => (keepsFlags_record _).bind fun _ => keeps_pure _
  cases job.transaction signature with
  | none => exact keeps_pure none
  | some call => exact keeps_onSecurity _

theorem keepsFlags_publishResume {thread : PublishThread} {answer : MessageAnswer}
    {m : Service CycleState (Option PublishThread)} (h : thread.resume deps answer = some m) :
    Keeps cycleFlags m := by
  unfold PublishThread.resume at h
  split at h
  · cases h
    refine (keeps_call _).bind fun _ => (keeps_onSecurity _).bind fun wallet => ?_
    exact (keepsFlags_record _).bind fun _ => keeps_pure _
  · cases h
    exact (keeps_call _).bind fun _ => keeps_pure _
  · cases h
    exact keeps_pure _
  · cases h

theorem keepsFlags_remember (job : MessageJob) : Keeps cycleFlags job.remember := by
  cases job with
  | pause blockData => exact keeps_pure _
  | unvet stakingModuleData blockData chunk => exact keeps_pure _
  | deposit stakingModuleData blockData => exact keeps_modify fun _ => rfl

theorem keepsFlags_messageResume {thread : MessageThread} {answer : MessageAnswer}
    {m : Service CycleState (Option MessageThread × Option TransactionThread)}
    (h : thread.resume deps answer = some m) : Keeps cycleFlags m := by
  unfold MessageThread.resume at h
  split at h
  · cases h
    exact (keeps_onSecurity _).bind fun _ => keeps_pure _
  · cases h
    exact (keepsFlags_send _ _).bind fun _ => keeps_pure _
  · simp only [Option.bind_eq_bind, Option.bind_eq_some_iff, Option.pure_def, Option.some.injEq] at h
    obtain ⟨m', hm', rfl⟩ := h
    refine (keepsFlags_publishResume hm').bind fun next => ?_
    cases next with
    | some thread => exact keeps_pure _
    | none => exact (keepsFlags_remember _).bind fun _ => keeps_pure _
  · cases h

theorem keepsFlags_handleCorrectKeys (blockData : BlockData) (stakingModuleData : StakingModuleData) :
    Keeps cycleFlags (handleCorrectKeys blockData stakingModuleData) := by
  unfold handleCorrectKeys
  refine keeps_get.bind fun s => ?_
  dsimp only
  split_ifs
  · exact keeps_pure _
  · exact (keepsFlags_sign _).bind fun _ => keeps_pure _

theorem keepsFlags_startDeposits (run : KeysRun) : Keeps cycleFlags (startDeposits run) :=
  (Keeps.mapM (keepsFlags_handleCorrectKeys run.blockData) _).bind fun _ => keeps_pure _

theorem keepsFlags_handleUnvetting (run : KeysRun) : Keeps cycleFlags (handleUnvetting run) := by
  unfold handleUnvetting
  cases findFirstInvalidModule run.stakingModulesData with
  | none => exact keepsFlags_startDeposits run
  | some firstInvalidModule =>
    dsimp only
    split_ifs
    · exact keepsFlags_startDeposits run
    · exact keeps_pure _

/-! ## The calls of a method -/

variable (method) in
/-- The calls of the method come to a state with the flags of `s`, and hold `invocations`. -/
def Occupies (d : Configuration (MethodState Unit) (Invocation Unit))
    (invocations : List (Invocation Unit)) (s : CycleState) : Prop :=
  ∃ u, u.flags = method.flags s ∧ (method.decorated.program Unit).Reaches d u invocations

variable {d : Configuration (MethodState Unit) (Invocation Unit)} {others : List (Invocation Unit)}

theorem Occupies.congr (h : Occupies method d others s) (hflags : cycleFlags t = cycleFlags s) :
    Occupies method d others t := by
  obtain ⟨u, hu, hreach⟩ := h
  exact ⟨u, hu.trans (flags_of_cycleFlags hflags method).symm, hreach⟩

theorem Occupies.perm {invocations : List (Invocation Unit)} (h : Occupies method d others s)
    (hperm : others.Perm invocations) : Occupies method d invocations s := by
  obtain ⟨u, hu, hreach⟩ := h
  exact ⟨u, hu, hreach.perm hperm⟩

theorem triple_occupies {α : Type} {m : Service CycleState α} (h : Keeps cycleFlags m) :
    Triple (Occupies method d others) m (fun _ => Occupies method d others)
      (Occupies method d others) := by
  intro s hs
  have hkeeps := h s
  refine ⟨fun a t hrun => ?_, fun e t hrun => ?_⟩
  · rw [hrun] at hkeeps
    exact hs.congr hkeeps
  · rw [hrun] at hkeeps
    exact hs.congr hkeeps

/-- A body ends. -/
theorem Occupies.settled {inTime : Bool} (h : Occupies method d (bodyInvocations inTime ++ others) s) :
    Occupies method d (endedInvocations inTime ++ others) s := by
  obtain ⟨u, hu, hreach⟩ := h
  cases inTime with
  | true => exact ⟨u, hu, reaches_settled hreach (.ok ())⟩
  | false => exact ⟨u, hu, reaches_ended hreach (.ok ())⟩

theorem invocations_ended (method other : CycleMethod) (inTime : Bool) :
    (ended other inTime).flatMap (CycleThread.invocations method) =
      if method = other then endedInvocations inTime else [] := by
  cases inTime with
  | false =>
    show ([] : List (Invocation Unit)) = if method = other then [] else []
    rw [ite_self]
  | true => exact List.flatMap_singleton _ _

theorem invocations_transactions (transaction : Option TransactionThread) :
    (transaction.toList.map CycleThread.transaction).flatMap (CycleThread.invocations method) = [] := by
  cases transaction <;> rfl

theorem invocations_map {α : Type} {f : α → CycleThread} (h : ∀ a, (f a).invocations method = [])
    (as : List α) : (as.map f).flatMap (CycleThread.invocations method) = [] := by
  rw [List.flatMap_map, List.flatMap_eq_nil_iff]
  exact fun a _ => h a

/-- The end of a body of either method. -/
theorem Occupies.orEnded {other : CycleMethod} {inTime : Bool}
    (h : Occupies method d ((if method = other then bodyInvocations inTime else []) ++ others) s) :
    Occupies method d ((ended other inTime).flatMap (CycleThread.invocations method) ++ others) s := by
  rw [invocations_ended]
  split_ifs at h ⊢
  · exact h.settled
  · exact h

/-! ## The background run -/

/-- A call of `handleKeys`. -/
theorem triple_handleKeys_occupies (stakingModulesData : List StakingModuleData)
    (blockData : BlockData) :
    Triple (Occupies method d others) (handleKeys stakingModulesData blockData)
      (fun keys => Occupies method d (keys.flatMap (CycleThread.invocations method) ++ others))
      (Occupies method d others) := by
  rintro s ⟨u, hu, hreach⟩
  have hrun : EStateM.run (handleKeys stakingModulesData blockData) s =
      if s.handleKeys.busy none then .ok [] s
      else .ok [.keys true (.checking ⟨stakingModulesData, blockData⟩)]
        { s with handleKeys := s.handleKeys.enter none } := by
    unfold handleKeys
    simp only [EStateM.run_bind, EStateM.run_get]
    split_ifs <;> rfl
  rw [hrun]
  split_ifs with hbusy
  · refine ⟨fun keys t h => ?_, fun e t h => (by cases h)⟩
    cases h
    exact ⟨u, hu, hreach⟩
  · refine ⟨fun keys t h => ?_, fun e t h => (by cases h)⟩
    cases h
    cases method with
    | handleNewBlock => exact ⟨u, hu, hreach⟩
    | handleKeys =>
      have hfree : ¬ u.flags.busy none = true := by
        rw [hu]
        exact hbusy
      refine ⟨_, ?_, reaches_entered hreach hfree⟩
      show u.flags.enter none = s.handleKeys.enter none
      rw [hu]
      rfl

theorem triple_finishKeys_occupies (run : KeysRun) :
    Triple (Occupies method d others) (finishKeys run)
      (fun pings t => pings.flatMap (CycleThread.invocations method) = [] ∧ Occupies method d others t)
      (Occupies method d others) := by
  unfold finishKeys
  refine Triple.bind (triple_occupies keeps_get) fun s => ?_
  dsimp only
  split_ifs
  · refine Triple.bind (triple_occupies (keeps_modify fun _ => rfl)) fun _ => ?_
    exact Triple.bind (triple_occupies (keeps_modify fun _ => rfl)) fun _ =>
      Triple.bind (triple_occupies (keepsFlags_record _)) fun _ => triple_pure fun t ht => ⟨rfl, ht⟩
  · exact Triple.bind (triple_occupies (keeps_modify fun _ => rfl)) fun _ =>
      Triple.bind (triple_occupies (keepsFlags_record _)) fun _ => triple_pure fun t ht => ⟨rfl, ht⟩

/-- A body that goes on, with what it leaves beside it. -/
theorem Occupies.goesOn {thread : CycleThread} {rest : List CycleThread}
    (hrest : rest.flatMap (CycleThread.invocations method) = [])
    (h : Occupies method d (thread.invocations method ++ others) s) :
    Occupies method d ((thread :: rest).flatMap (CycleThread.invocations method) ++ others) s := by
  rw [List.flatMap_cons, hrest, List.append_nil]
  exact h

theorem triple_keysResume_occupies {stage : KeysStage} {inTime : Bool} {answer : CycleAnswer}
    {m : Service CycleState (List CycleThread)} (h : stage.resume deps inTime answer = some m) :
    Triple (Occupies method d ((CycleThread.keys inTime stage).invocations method ++ others)) m
      (fun next => Occupies method d (next.flatMap (CycleThread.invocations method) ++ others))
      (Occupies method d ((CycleThread.keys inTime stage).invocations method ++ others)) := by
  unfold KeysStage.resume at h
  split at h
  · cases h
    refine Triple.bind (triple_occupies (keeps_call _)) fun stakingModulesData => ?_
    exact Triple.bind (triple_occupies (keepsFlags_handleUnvetting _)) fun stage =>
      triple_pure fun t ht => ht.goesOn rfl
  · cases h
    refine Triple.bind (triple_occupies (keeps_call _)) fun maxOperatorsPerUnvetting => ?_
    refine Triple.bind (triple_occupies (keeps_call _)) fun firstChunk => ?_
    exact Triple.bind (triple_occupies (keepsFlags_sign _)) fun thread =>
      triple_pure fun t ht => ht.goesOn rfl
  · rename_i run thread answer
    simp only [Option.bind_eq_bind, Option.bind_eq_some_iff, Option.pure_def, Option.some.injEq] at h
    obtain ⟨m', hm', rfl⟩ := h
    refine Triple.bind (triple_occupies (keepsFlags_messageResume hm')) fun r => ?_
    refine Triple.bind (triple_occupies ?_) fun stage =>
      triple_pure fun t ht => ht.goesOn (invocations_transactions r.2)
    cases r.1 with
    | none => exact keepsFlags_startDeposits run
    | some next => exact keeps_pure _
  · simp only [Option.bind_eq_bind, Option.bind_eq_some_iff, Option.pure_def, Option.some.injEq] at h
    obtain ⟨thread, _, m', hm', rfl⟩ := h
    exact Triple.bind (triple_occupies (keepsFlags_messageResume hm')) fun r =>
      triple_pure fun t ht => ht.goesOn (invocations_transactions r.2)
  · cases h
    refine Triple.bind (triple_finishKeys_occupies _) fun pings => triple_pure ?_
    rintro t ⟨hpings, ht⟩
    rw [List.flatMap_append, hpings]
    exact ht.orEnded
  · cases h

/-! ## The cycle -/

theorem triple_newBlockResume_occupies {stage : NewBlockStage} {inTime : Bool} {answer : CycleAnswer}
    {m : Service CycleState (List CycleThread)} (h : stage.resume deps inTime answer = some m) :
    Triple (Occupies method d ((CycleThread.newBlock inTime stage).invocations method ++ others)) m
      (fun next => Occupies method d (next.flatMap (CycleThread.invocations method) ++ others))
      (Occupies method d ((CycleThread.newBlock inTime stage).invocations method ++ others)) := by
  unfold NewBlockStage.resume at h
  split at h
  · cases h
    refine Triple.bind (triple_occupies (keeps_call _)) fun snapshot => ?_
    refine Triple.bind (triple_occupies keeps_get) fun s => ?_
    split_ifs
    · exact triple_pure fun t ht => ht.goesOn rfl
    · exact triple_pure fun t ht => ht.orEnded
  · cases h
    refine Triple.bind (triple_occupies (keeps_call _)) fun address => ?_
    exact Triple.bind (triple_occupies (keeps_onSecurity _)) fun _ =>
      triple_pure fun t ht => ht.goesOn rfl
  · cases h
    refine Triple.bind (triple_occupies (keeps_call _)) fun _ => ?_
    exact Triple.bind (triple_occupies (keeps_onSecurity _)) fun context =>
      triple_pure fun t ht => ht.goesOn rfl
  · simp only [Option.bind_eq_bind, Option.bind_eq_some_iff, Option.pure_def, Option.some.injEq] at h
    obtain ⟨m', _, rfl⟩ := h
    exact Triple.bind (triple_occupies (keeps_onSecurity _)) fun next =>
      triple_pure fun t ht => ht.goesOn rfl
  · cases h
    exact triple_pure fun t ht => ht.orEnded
  · cases h
    refine Triple.bind (triple_occupies (keeps_call _)) fun data => ?_
    dsimp only
    split_ifs
    · exact Triple.bind (triple_occupies (keepsFlags_sign _)) fun thread =>
        triple_pure fun t ht => ht.goesOn rfl
    · refine Triple.bind (triple_handleKeys_occupies _ _) fun keys => triple_pure fun t ht => ?_
      have hended := (ht.perm (List.perm_append_comm_assoc _ _ _)).orEnded
      rw [List.flatMap_append, List.append_assoc]
      exact hended.perm (List.perm_append_comm_assoc _ _ _)
  · simp only [Option.bind_eq_bind, Option.bind_eq_some_iff, Option.pure_def, Option.some.injEq] at h
    obtain ⟨m', hm', rfl⟩ := h
    refine Triple.bind (triple_occupies (keepsFlags_messageResume hm')) fun r =>
      triple_pure fun t ht => ?_
    rw [List.flatMap_append, invocations_transactions, List.append_nil]
    cases r.1 with
    | none => exact ht.orEnded
    | some next => exact ht.goesOn rfl
  · cases h

/-! ## Any step -/

/-- The flag of a body that has ended, or of one that runs into its timeout, is taken down. -/
theorem triple_takeDown_occupies (other : CycleMethod) {now later : List (Invocation Unit)}
    (h : ∀ u, (method.decorated.program Unit).Reaches d u (now ++ others) → method = other →
      ∃ v, v.flags = u.flags.leave none ∧ (method.decorated.program Unit).Reaches d v (later ++ others))
    (hnot : method ≠ other → later = now) :
    Triple (Occupies method d (now ++ others)) other.takeDown
      (fun _ => Occupies method d (later ++ others)) (fun _ => False) := by
  have hmodify : ∀ s, Occupies method d (now ++ others) s → ∀ t,
      method.flags t = (if method = other then (method.flags s).leave none else method.flags s) →
      Occupies method d (later ++ others) t := by
    rintro s ⟨u, hu, hreach⟩ t ht
    by_cases hsame : method = other
    · rw [if_pos hsame] at ht
      obtain ⟨v, hv, hnext⟩ := h u hreach hsame
      exact ⟨v, by rw [hv, ht, hu], hnext⟩
    · rw [if_neg hsame] at ht
      rw [hnot hsame]
      exact ⟨u, hu.trans ht.symm, hreach⟩
  cases other with
  | handleNewBlock =>
    refine triple_modify fun s hs => hmodify s hs _ ?_
    cases method <;> rfl
  | handleKeys =>
    refine triple_modify fun s hs => hmodify s hs _ ?_
    cases method <;> rfl

/-- A body runs into its timeout. -/
theorem triple_timeout_occupies (other : CycleMethod) :
    Triple (Occupies method d ((if method = other then bodyInvocations true else []) ++ others))
      other.takeDown
      (fun _ => Occupies method d ((if method = other then bodyInvocations false else []) ++ others))
      (fun _ => False) := by
  refine triple_takeDown_occupies other (fun u hreach hsame => ?_) fun hne => ?_
  · rw [if_pos hsame] at hreach ⊢
    exact reaches_timeout hreach
  · rw [if_neg hne, if_neg hne]

/-- The call of a body that has ended goes on. -/
theorem triple_leave_occupies (other : CycleMethod) :
    Triple (Occupies method d ((if method = other then endedInvocations true else []) ++ others))
      other.takeDown (fun _ => Occupies method d ([] ++ others)) (fun _ => False) := by
  refine triple_takeDown_occupies other (fun u hreach hsame => ?_) fun hne => ?_
  · rw [if_pos hsame] at hreach
    exact reaches_left hreach
  · rw [if_neg hne]

theorem invocations_leftBehind (stage : KeysStage) (answer : CycleAnswer) :
    (stage.leftBehind answer).flatMap (CycleThread.invocations method) = [] := by
  unfold KeysStage.leftBehind
  split
  · exact invocations_map (fun _ => rfl) _
  · rfl

/-- A thread goes on. -/
theorem triple_resume_occupies {thread : CycleThread} {answer : CycleAnswer}
    {m : Service CycleState (List CycleThread)} (h : thread.resume deps answer = some m) :
    Triple (Occupies method d (thread.invocations method ++ others)) m
      (fun next => Occupies method d (next.flatMap (CycleThread.invocations method) ++ others))
      (fun t => thread.invocations method = [] ∧ Occupies method d others t) := by
  unfold CycleThread.resume at h
  split at h
  · cases h
    exact Triple.bind ((triple_timeout_occupies .handleNewBlock).mono (fun _ h => h) (fun _ _ h => h)
      fun _ h => h.elim) fun _ => triple_pure fun t ht => ht.goesOn rfl
  · simp only [Option.bind_eq_bind, Option.bind_eq_some_iff, Option.pure_def, Option.some.injEq] at h
    obtain ⟨m', hm', rfl⟩ := h
    exact (triple_newBlockResume_occupies hm').tryCatch fun _ => triple_pure fun t ht => ht.orEnded
  · cases h
    exact Triple.bind ((triple_timeout_occupies .handleKeys).mono (fun _ h => h) (fun _ _ h => h)
      fun _ h => h.elim) fun _ => triple_pure fun t ht => ht.goesOn rfl
  · simp only [Option.bind_eq_bind, Option.bind_eq_some_iff, Option.pure_def, Option.some.injEq] at h
    obtain ⟨m', hm', rfl⟩ := h
    refine (triple_keysResume_occupies hm').tryCatch fun _ => triple_pure fun t ht => ?_
    rw [List.flatMap_append, invocations_leftBehind]
    exact ht.orEnded
  · cases h
    exact Triple.bind ((triple_leave_occupies _).mono (fun _ h => h) (fun _ _ h => h)
      fun _ h => h.elim) fun _ => triple_pure fun t ht => ht
  · simp only [Option.bind_eq_bind, Option.bind_eq_some_iff, Option.pure_def, Option.some.injEq] at h
    obtain ⟨m', hm', rfl⟩ := h
    refine Triple.bind ((triple_occupies (keeps_onSecurity _)).mono (fun _ h => h) (fun _ _ h => h)
      fun t ht => ⟨rfl, ht⟩) fun next => triple_pure fun t ht => ?_
    cases next <;> exact ht
  · simp only [Option.bind_eq_bind, Option.bind_eq_some_iff, Option.pure_def, Option.some.injEq] at h
    obtain ⟨m', hm', rfl⟩ := h
    refine Triple.bind ((triple_occupies (keepsFlags_messageResume hm')).mono (fun _ h => h)
      (fun _ _ h => h) fun t ht => ⟨rfl, ht⟩) fun r => triple_pure fun t ht => ?_
    rw [List.flatMap_append, invocations_transactions, invocations_map fun _ => rfl]
    exact ht
  · simp only [Option.bind_eq_bind, Option.bind_eq_some_iff, Option.pure_def, Option.some.injEq] at h
    obtain ⟨m', hm', rfl⟩ := h
    refine Triple.bind ((triple_occupies (keepsFlags_publishResume hm')).mono (fun _ h => h)
      (fun _ _ h => h) fun t ht => ⟨rfl, ht⟩) fun next => triple_pure fun t ht => ?_
    rw [invocations_map fun _ => rfl]
    exact ht
  · simp only [Option.bind_eq_bind, Option.bind_eq_some_iff, Option.pure_def, Option.some.injEq] at h
    obtain ⟨m', hm', rfl⟩ := h
    refine Triple.bind ((triple_occupies (keeps_onSecurity _)).mono (fun _ h => h)
      (fun _ _ h => h) fun t ht => ⟨rfl, ht⟩) fun next => triple_pure fun t ht => ?_
    rw [invocations_transactions]
    exact ht
  · cases h

variable (deps method) in
/-- **Refinement.** The cycles use each of the two methods as `OneAtTime` decorates it. -/
theorem refines_cycleMethod : Program.Refines (cycleProgram deps) (method.decorated.program Unit)
    (fun s u => u.flags = method.flags s) (CycleThread.invocations method) := by
  constructor
  · intro call s d u others hu hreach
    have hrun : EStateM.run handleNewBlock s =
        if s.handleNewBlock.busy none then .ok [] s
        else .ok [.newBlock true .modules] { s with handleNewBlock := s.handleNewBlock.enter none } := by
      unfold handleNewBlock
      simp only [EStateM.run_bind, EStateM.run_get]
      split_ifs <;> rfl
    show ∃ v, v.flags = method.flags (Program.segment handleNewBlock s).1 ∧
      (method.decorated.program Unit).Reaches d v
        ((Program.segment handleNewBlock s).2.flatMap (CycleThread.invocations method) ++ others)
    unfold Program.segment
    rw [hrun]
    split_ifs with hbusy
    · exact ⟨u, hu, hreach⟩
    · cases method with
      | handleKeys => exact ⟨u, hu, hreach⟩
      | handleNewBlock =>
        have hfree : ¬ u.flags.busy none = true := by
          rw [hu]
          exact hbusy
        refine ⟨_, ?_, reaches_entered hreach hfree⟩
        show u.flags.enter none = s.handleNewBlock.enter none
        rw [hu]
        rfl
  · intro thread answer s next d u others hnext hu hreach
    obtain ⟨m, hm, rfl⟩ := Option.map_eq_some_iff.1 hnext
    have hoccupies : Occupies method d (thread.invocations method ++ others) s := ⟨u, hu, hreach⟩
    obtain ⟨hok, herror⟩ := triple_resume_occupies hm s hoccupies
    unfold Program.segment
    cases hrun : EStateM.run m s with
    | ok next t => exact hok next t hrun
    | error e t => exact (herror e t hrun).2

/-! ## Main results -/

variable (deps) in
/-- **The cycle one at a time.** In every interleaving of cycles and background runs, each flag is up exactly
while one body of its method is within its timeout or has just ended; and a new cycle begins exactly when
there is none. -/
theorem cycle_locks_balanced (security : SecurityState) {c : Configuration CycleState CycleThread}
    (h : (cycleProgram deps).Reachable (fun _ _ => True) (started security) c) :
    (∀ method : CycleMethod, c.threads.countP (CycleThread.holdsFlag method) =
      ((method.flags c.shared).busy none).toNat) ∧
    ((cycleProgram deps).start .handleNewBlock c.shared).2 =
      if ∃ thread ∈ c.threads, thread.holdsFlag .handleNewBlock = true then []
      else [.newBlock true .modules] := by
  have hbalanced : ∀ method : CycleMethod, c.threads.countP (CycleThread.holdsFlag method) =
      ((method.flags c.shared).busy none).toNat := by
    intro method
    have hlocks := locks_balanced (refines_cycleMethod deps method) h (by cases method <;> rfl) rfl none
    rw [sum_weight_cycleInvocations] at hlocks
    rw [hlocks, busy_eq]
    show _ = (held (method.flags c.shared) none || held (method.flags c.shared) none).toNat
    rw [Bool.or_self]
  refine ⟨hbalanced, ?_⟩
  have hbusy : (∃ thread ∈ c.threads, thread.holdsFlag .handleNewBlock = true) ↔
      c.shared.handleNewBlock.busy none = true := by
    rw [← List.countP_pos_iff, hbalanced]
    show 0 < (c.shared.handleNewBlock.busy none).toNat ↔ _
    cases c.shared.handleNewBlock.busy none <;> simp
  show (Program.segment handleNewBlock c.shared).2 = _
  unfold Program.segment handleNewBlock
  simp only [EStateM.run_bind, EStateM.run_get, hbusy]
  split_ifs <;> rfl

/-! ## Runs without timeouts -/

/-- No body runs into its timeout. -/
def NoTimeout : Move CycleCall CycleAnswer → Prop
  | .resume _ .timeout => False
  | _ => True

instance : DecidablePred NoTimeout := fun move =>
  match move with
  | .start _ => isTrue trivial
  | .resume _ answer => by cases answer <;> first | exact isFalse id | exact isTrue trivial

/-- A thread that is no body past its timeout. -/
def CycleThread.InTime : CycleThread → Prop
  | newBlock inTime _ => inTime = true
  | keys inTime _ => inTime = true
  | _ => True

theorem inTime_ended (other : CycleMethod) (inTime : Bool) :
    ∀ thread ∈ Guardian.ended other inTime, thread.InTime := by
  intro thread hmem
  unfold Guardian.ended at hmem
  split_ifs at hmem
  · obtain rfl := List.mem_singleton.1 hmem
    trivial
  · cases hmem

theorem inTime_map {α : Type} {f : α → CycleThread} (h : ∀ a, (f a).InTime) (as : List α) :
    ∀ thread ∈ as.map f, thread.InTime := by
  intro thread hmem
  obtain ⟨a, _, rfl⟩ := List.mem_map.1 hmem
  exact h a

theorem inTime_append {threads threads' : List CycleThread} (h : ∀ thread ∈ threads, thread.InTime)
    (h' : ∀ thread ∈ threads', thread.InTime) : ∀ thread ∈ threads ++ threads', thread.InTime :=
  fun thread hmem => (List.mem_append.1 hmem).elim (h thread) (h' thread)

theorem inTime_cons {thread : CycleThread} {threads : List CycleThread} (h : thread.InTime)
    (h' : ∀ thread ∈ threads, thread.InTime) : ∀ other ∈ thread :: threads, other.InTime := by
  intro other hmem
  rcases List.mem_cons.1 hmem with rfl | hmem
  · exact h
  · exact h' other hmem

theorem triple_true {σ α : Type} {P : σ → Prop} (m : Service σ α) :
    Triple P m (fun _ _ => True) (fun _ => True) :=
  fun _ _ => ⟨fun _ _ _ => trivial, fun _ _ _ => trivial⟩

/-- What a body that is in time leaves is in time. -/
theorem triple_keysResume_inTime {stage : KeysStage} {answer : CycleAnswer}
    {m : Service CycleState (List CycleThread)} (h : stage.resume deps true answer = some m) :
    Triple (fun _ => True) m (fun next _ => ∀ thread ∈ next, thread.InTime) (fun _ => True) := by
  have hkeys : ∀ (stage : KeysStage) (transaction : Option TransactionThread),
      ∀ thread ∈ CycleThread.keys true stage :: transaction.toList.map .transaction, thread.InTime :=
    fun stage transaction => inTime_cons rfl (inTime_map (fun _ => by trivial) _)
  unfold KeysStage.resume at h
  split at h
  · cases h
    refine Triple.bind (triple_true _) fun _ => Triple.bind (triple_true _) fun stage => ?_
    exact triple_pure fun _ _ => hkeys stage none
  · cases h
    refine Triple.bind (triple_true _) fun _ => Triple.bind (triple_true _) fun _ => ?_
    exact Triple.bind (triple_true _) fun thread => triple_pure fun _ _ => hkeys _ none
  · simp only [Option.bind_eq_bind, Option.bind_eq_some_iff, Option.pure_def, Option.some.injEq] at h
    obtain ⟨m', _, rfl⟩ := h
    refine Triple.bind (triple_true _) fun r => Triple.bind (triple_true _) fun stage => ?_
    exact triple_pure fun _ _ => hkeys stage r.2
  · simp only [Option.bind_eq_bind, Option.bind_eq_some_iff, Option.pure_def, Option.some.injEq] at h
    obtain ⟨_, _, m', _, rfl⟩ := h
    exact Triple.bind (triple_true _) fun r => triple_pure fun _ _ => hkeys _ r.2
  · cases h
    refine Triple.bind (Q := fun pings _ => ∀ thread ∈ pings, thread.InTime) ?_ fun pings =>
      triple_pure fun _ hpings => inTime_append hpings (inTime_ended _ _)
    unfold finishKeys
    refine Triple.bind (triple_true _) fun s => ?_
    dsimp only
    split_ifs
    · refine Triple.bind (triple_true _) fun _ => Triple.bind (triple_true _) fun _ => ?_
      exact Triple.bind (triple_true _) fun _ =>
        triple_pure fun _ _ => inTime_cons trivial fun _ hmem => (by cases hmem)
    · refine Triple.bind (triple_true _) fun _ => Triple.bind (triple_true _) fun _ => ?_
      exact triple_pure fun _ _ _ hmem => (by cases hmem)
  · cases h

theorem triple_newBlockResume_inTime {stage : NewBlockStage} {answer : CycleAnswer}
    {m : Service CycleState (List CycleThread)} (h : stage.resume deps true answer = some m) :
    Triple (fun _ => True) m (fun next _ => ∀ thread ∈ next, thread.InTime) (fun _ => True) := by
  have hnewBlock : ∀ stage : NewBlockStage, ∀ thread ∈ [CycleThread.newBlock true stage],
      thread.InTime := fun stage => inTime_cons rfl fun _ hmem => (by cases hmem)
  unfold NewBlockStage.resume at h
  split at h
  · cases h
    refine Triple.bind (triple_true _) fun _ => Triple.bind (triple_true _) fun _ => ?_
    split_ifs
    · exact triple_pure fun _ _ => hnewBlock _
    · exact triple_pure fun _ _ => inTime_ended _ _
  · cases h
    refine Triple.bind (triple_true _) fun _ => Triple.bind (triple_true _) fun _ => ?_
    exact triple_pure fun _ _ => hnewBlock _
  · cases h
    refine Triple.bind (triple_true _) fun _ => Triple.bind (triple_true _) fun _ => ?_
    exact triple_pure fun _ _ => hnewBlock _
  · simp only [Option.bind_eq_bind, Option.bind_eq_some_iff, Option.pure_def, Option.some.injEq] at h
    obtain ⟨m', _, rfl⟩ := h
    exact Triple.bind (triple_true _) fun next => triple_pure fun _ _ => hnewBlock _
  · cases h
    exact triple_pure fun _ _ => inTime_cons trivial (inTime_ended _ _)
  · cases h
    refine Triple.bind (triple_true _) fun data => ?_
    dsimp only
    split_ifs
    · exact Triple.bind (triple_true _) fun thread => triple_pure fun _ _ => hnewBlock _
    · refine Triple.bind (Q := fun keys _ => ∀ thread ∈ keys, thread.InTime) ?_ fun keys =>
        triple_pure fun _ hkeys => inTime_append hkeys (inTime_ended _ _)
      intro s _
      refine ((triple_handleKeys (s := s) _ _).mono (fun _ h => h) (B := fun keys _ =>
        ∀ thread ∈ keys, thread.InTime) ?_ fun _ h => h.elim) s rfl
      rintro keys t ⟨_, _, _, hkeys⟩ thread hmem
      rw [hkeys thread hmem]
      rfl
  · simp only [Option.bind_eq_bind, Option.bind_eq_some_iff, Option.pure_def, Option.some.injEq] at h
    obtain ⟨m', _, rfl⟩ := h
    refine Triple.bind (triple_true _) fun r => triple_pure fun _ _ => ?_
    refine inTime_append ?_ (inTime_map (fun _ => by trivial) _)
    cases r.1 with
    | none => exact inTime_ended _ _
    | some next => exact hnewBlock _
  · cases h

/-- A thread that is in time leaves threads that are, as long as its timeout does not run out. -/
theorem triple_resume_inTime {thread : CycleThread} {answer : CycleAnswer}
    {m : Service CycleState (List CycleThread)} (h : thread.resume deps answer = some m)
    (hthread : thread.InTime) (hanswer : ∀ place, NoTimeout (.resume place answer)) :
    Triple (fun _ => True) m (fun next _ => ∀ thread ∈ next, thread.InTime) (fun _ => True) := by
  unfold CycleThread.resume at h
  split at h
  · exact (hanswer 0).elim
  · obtain rfl : _ = true := hthread
    simp only [Option.bind_eq_bind, Option.bind_eq_some_iff, Option.pure_def, Option.some.injEq] at h
    obtain ⟨m', hm', rfl⟩ := h
    exact (triple_newBlockResume_inTime hm').tryCatch fun _ =>
      triple_pure fun _ _ => inTime_ended _ _
  · exact (hanswer 0).elim
  · obtain rfl : _ = true := hthread
    rename_i stage answer _
    simp only [Option.bind_eq_bind, Option.bind_eq_some_iff, Option.pure_def, Option.some.injEq] at h
    obtain ⟨m', hm', rfl⟩ := h
    refine (triple_keysResume_inTime hm').tryCatch fun _ => triple_pure fun _ _ => ?_
    refine inTime_append ?_ (inTime_ended _ _)
    unfold KeysStage.leftBehind
    split
    · exact inTime_map (fun _ => by trivial) _
    · exact fun _ hmem => (by cases hmem)
  · cases h
    exact Triple.bind (triple_true _) fun _ => triple_pure fun _ _ _ hmem => (by cases hmem)
  · simp only [Option.bind_eq_bind, Option.bind_eq_some_iff, Option.pure_def, Option.some.injEq] at h
    obtain ⟨m', _, rfl⟩ := h
    refine Triple.bind (triple_true _) fun next => triple_pure fun _ _ => ?_
    cases next with
    | inl next => exact inTime_cons trivial fun _ hmem => (by cases hmem)
    | inr context => exact fun _ hmem => (by cases hmem)
  · simp only [Option.bind_eq_bind, Option.bind_eq_some_iff, Option.pure_def, Option.some.injEq] at h
    obtain ⟨m', _, rfl⟩ := h
    refine Triple.bind (triple_true _) fun r => triple_pure fun _ _ => ?_
    exact inTime_append (inTime_map (fun _ => by trivial) _) (inTime_map (fun _ => by trivial) _)
  · simp only [Option.bind_eq_bind, Option.bind_eq_some_iff, Option.pure_def, Option.some.injEq] at h
    obtain ⟨m', _, rfl⟩ := h
    exact Triple.bind (triple_true _) fun next => triple_pure fun _ _ => inTime_map (fun _ => by trivial) _
  · simp only [Option.bind_eq_bind, Option.bind_eq_some_iff, Option.pure_def, Option.some.injEq] at h
    obtain ⟨m', _, rfl⟩ := h
    exact Triple.bind (triple_true _) fun next => triple_pure fun _ _ => inTime_map (fun _ => by trivial) _
  · cases h

/-- The bodies of a method that are all in time hold its flag. -/
theorem isBody_le_holdsFlag (method : CycleMethod) {threads : List CycleThread}
    (h : ∀ thread ∈ threads, thread.InTime) :
    threads.countP (CycleThread.isBody method) ≤ threads.countP (CycleThread.holdsFlag method) := by
  refine List.countP_mono_left fun thread hmem hbody => ?_
  have hinTime := h thread hmem
  cases thread with
  | newBlock inTime stage =>
    obtain rfl : inTime = true := hinTime
    exact hbody
  | keys inTime stage =>
    obtain rfl : inTime = true := hinTime
    exact hbody
  | leaving other => cases hbody
  | context thread => cases hbody
  | message thread => cases hbody
  | ping thread => cases hbody
  | transaction thread => cases hbody

variable (deps) in
/-- **One body each.** In every interleaving in which no body runs into its timeout, no body of
`handleNewBlock` and none of `handleKeys` overlaps another one of its method. -/
theorem one_body_each (security : SecurityState) {c : Configuration CycleState CycleThread}
    (h : (cycleProgram deps).Reachable (fun _ move => NoTimeout move) (started security) c) :
    OneBodyEach c := by
  have hinTime : Program.Asserts (fun _ => True) (fun _ thread => thread.InTime) c.shared c.threads := by
    refine h.threads ⟨trivial, fun thread hmem => (by cases hmem)⟩ ?_ ?_
    · intro call s threads hs _
      refine ⟨⟨trivial, ?_⟩, hs.2⟩
      show ∀ thread ∈ (Program.segment handleNewBlock s).2, thread.InTime
      unfold Program.segment handleNewBlock
      simp only [EStateM.run_bind, EStateM.run_get]
      split_ifs
      · exact fun _ hmem => (by cases hmem)
      · exact inTime_cons rfl fun _ hmem => (by cases hmem)
    · intro before thread after answer s next hs hallowed hnext
      obtain ⟨m, hm, rfl⟩ := Option.map_eq_some_iff.1 hnext
      have hanswer : ∀ place, NoTimeout (.resume place answer) := by
        intro place
        cases answer <;> trivial
      have hthread : thread.InTime := hs.2 thread (by simp)
      refine ⟨Program.asserts_segment (P := fun _ => True) ?_ trivial, fun other hmem => ?_⟩
      · exact (triple_resume_inTime hm hthread hanswer).mono (fun _ h => h)
          (fun _ _ h => ⟨trivial, h⟩) fun _ h => h
      · refine hs.2 other ?_
        rcases List.mem_append.1 hmem with hmem | hmem
        · exact List.mem_append_left _ hmem
        · exact List.mem_append_right _ (List.mem_cons_of_mem _ hmem)
  have hlocks : ∀ method : CycleMethod, c.threads.countP (CycleThread.holdsFlag method) ≤ 1 := by
    intro method
    have hbalanced := locks_balanced (refines_cycleMethod deps method) h (by cases method <;> rfl) rfl none
    rw [sum_weight_cycleInvocations] at hbalanced
    rw [hbalanced]
    exact Bool.toNat_le _
  exact ⟨(isBody_le_holdsFlag .handleNewBlock hinTime.2).trans (hlocks _),
    (isBody_le_holdsFlag .handleKeys hinTime.2).trans (hlocks _)⟩

/-! ## Two runs -/

open CycleSample

/-- Two cycles over one background run. -/
theorem second_cycle_run : ((cycleProgram SecuritySample.deps).run
    (fun _ move => decide (NoTimeout move)) CycleSample.start
    (cycleMoves 0 17 firstContract legacyAnswers ++
      contextMoves 1 18 firstContract legacyAnswers)).isSome = true := by
  decide +kernel

theorem one_body_each_second_cycle : OneBodyEach (Option.get _ second_cycle_run) ∧
    (Option.get _ second_cycle_run).threads.map (CycleThread.isBody .handleKeys) = [true, false] := by
  constructor
  · exact one_body_each SecuritySample.deps _ (Program.Reachable.refl.run
      (fun _ _ h => of_decide_eq_true h) (Option.some_get second_cycle_run).symm)
  · decide +kernel

/-- A cycle that has run into its timeout, and the next one. -/
theorem late_cycle_run : ((cycleProgram SecuritySample.deps).run (fun _ _ => true) CycleSample.start
    ((contextMoves 0 17 firstContract legacyAnswers).take 2 ++ [.resume 0 .timeout] ++
      (contextMoves 1 18 firstContract legacyAnswers).take 2)).isSome = true := by
  decide +kernel

theorem cycle_locks_balanced_late :
    (Option.get _ late_cycle_run).threads.countP (CycleThread.holdsFlag .handleNewBlock) = 1 ∧
    ((cycleProgram SecuritySample.deps).start .handleNewBlock (Option.get _ late_cycle_run).shared).2 = [] ∧
    ¬ OneBodyEach (Option.get _ late_cycle_run) := by
  obtain ⟨hflags, hbegins⟩ := cycle_locks_balanced SecuritySample.deps _ (Program.Reachable.refl.run
    (fun _ _ _ => trivial) (Option.some_get late_cycle_run).symm)
  refine ⟨?_, ?_, ?_⟩
  · rw [hflags]
    decide +kernel
  · rw [hbegins, if_pos]
    decide +kernel
  · decide +kernel

end Guardian

end CouncilDaemon
