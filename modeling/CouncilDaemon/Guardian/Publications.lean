import CouncilDaemon.Guardian.CycleSteps

/-!
# How often messages are published

In any interleaving, a message other than a ping is published at most as often as it was built, whatever
fails and whichever runs overlap; and the pings that are published are at least 300 blocks apart, those for
the block zero aside (`publications_bounded`). Both follow from what is issued: the messages that are built
and the pings for which a run finds the last one old enough. A message waits in one thread, which publishes
it once or drops it.
-/

namespace CouncilDaemon

namespace Guardian

open Service SecurityService StakingModuleGuard

/-! ## Messages that wait and that have left -/

def CycleEvent.preparedMessage : CycleEvent → Option Message
  | prepared message => some message
  | _ => none

def CycleEvent.publishedMessage : CycleEvent → Option Message
  | published _ message _ => some message
  | _ => none

/-- The block of a ping. -/
def pingBlock : Message → Option ℕ
  | .ping message => some message.blockNumber
  | _ => none

def notPing (message : Message) : Bool := message.type ≠ .ping

/-- The message that is handed over and not published yet. -/
def PublishThread.outgoing : PublishThread → Multiset Message
  | waiting _ message => {message}
  | _ => 0

def MessageThread.outgoing : MessageThread → Multiset Message
  | publishing _ thread => thread.outgoing
  | _ => 0

def CycleThread.outgoing : CycleThread → Multiset Message
  | newBlock _ (.pausing thread) => thread.outgoing
  | keys _ (.unvetting _ thread) => thread.outgoing
  | keys _ (.depositing _ messages) => (messages.map MessageThread.outgoing).sum
  | message thread => thread.outgoing
  | ping thread => thread.outgoing
  | _ => 0

def prepared (s : CycleState) : List Message := s.history.filterMap CycleEvent.preparedMessage

def published (s : CycleState) : Multiset Message := s.history.filterMap CycleEvent.publishedMessage

/-- The blocks for which a ping was built, the latest first: for each, the one before was old enough. -/
inductive Spaced : Option ℕ → List ℕ → Prop
  | none : Spaced none []
  | cons {last : Option ℕ} {blocks : List ℕ} {blockNumber : ℕ} : Spaced last blocks →
      isPingNeeded last blockNumber = true → Spaced (some blockNumber) (blockNumber :: blocks)

/-- What was issued so far: the messages that were built, and the pings. -/
def Issued (s : CycleState) (all : Multiset Message) : Prop :=
  all.filter (fun message => notPing message = true) ≤ (prepared s : Multiset Message) ∧
    ∃ blocks : List ℕ, all.filterMap pingBlock = blocks ∧ Spaced s.lastPingBlock blocks

/-- From a state in which `all` was issued, a segment has come to `s` and holds `outgoing`, having had
`before` to spend. -/
def Accounts (all before outgoing : Multiset Message) (s : CycleState) : Prop :=
  ∃ new, Issued s (new + all) ∧ published s + outgoing ≤ new + before

variable {deps : SecurityDeps} {s t : CycleState} {all before outgoing rest : Multiset Message}

theorem Accounts.of_le {other : Multiset Message} (h : Accounts all before outgoing s)
    (hle : other ≤ outgoing) : Accounts all before other s := by
  obtain ⟨new, hissued, hspent⟩ := h
  exact ⟨new, hissued, (add_le_add_right hle _).trans hspent⟩

theorem Accounts.drop (h : Accounts all before (outgoing + rest) s) : Accounts all before rest s :=
  h.of_le (Multiset.le_add_left rest outgoing)

/-! ## Segments -/

/-- What messages are accounted by. -/
def accounts (s : CycleState) : List CycleEvent × Option ℕ := (s.history, s.lastPingBlock)

theorem Accounts.congr (h : Accounts all before outgoing s) (hsame : accounts t = accounts s) :
    Accounts all before outgoing t := by
  obtain ⟨hhistory, hlast⟩ := Prod.mk.inj hsame
  unfold Accounts Issued prepared published at h ⊢
  rw [hhistory, hlast]
  exact h

theorem triple_accounts {α : Type} {m : Service CycleState α} (h : Keeps accounts m) :
    Triple (Accounts all before outgoing) m (fun _ => Accounts all before outgoing)
      (Accounts all before outgoing) := by
  intro s hs
  have hkeeps := h s
  refine ⟨fun a t hrun => ?_, fun e t hrun => ?_⟩
  · rw [hrun] at hkeeps
    exact hs.congr hkeeps
  · rw [hrun] at hkeeps
    exact hs.congr hkeeps

theorem keepsAccounts_onSecurity {α : Type} (m : Service SecurityState α) :
    Keeps accounts (onSecurity m) := by
  refine keeps_zoom ?_ m
  intro security s
  rfl

theorem keepsAccounts_sign (job : MessageJob) : Keeps accounts job.sign :=
  (keepsAccounts_onSecurity _).bind fun _ => keeps_pure _

/-- A message is built. -/
theorem Accounts.prepared {message : Message} (h : Accounts all before outgoing s)
    (hmessage : notPing message = true) :
    Accounts all before ({message} + outgoing)
      { s with history := .prepared message :: s.history } := by
  obtain ⟨new, ⟨hbuilt, blocks, hpings, hspaced⟩, hspent⟩ := h
  refine ⟨{message} + new, ⟨?_, blocks, ?_, hspaced⟩, ?_⟩
  · have hcons : Guardian.prepared { s with history := .prepared message :: s.history } =
        message :: Guardian.prepared s := rfl
    rw [hcons, add_assoc, Multiset.filter_add, Multiset.filter_singleton, if_pos hmessage,
      ← Multiset.cons_coe, ← Multiset.singleton_add]
    exact add_le_add_right hbuilt _
  · rw [add_assoc, Multiset.singleton_add, Multiset.filterMap_cons_none]
    · exact hpings
    · cases message with
      | ping ping => cases hmessage
      | _ => rfl
  · have hsame : published { s with history := .prepared message :: s.history } = published s := rfl
    rw [hsame]
    calc published s + ({message} + outgoing) = {message} + (published s + outgoing) := by abel
      _ ≤ {message} + (new + before) := add_le_add_right hspent _
      _ = {message} + new + before := by abel

/-- A message is published. -/
theorem Accounts.published {context : GuardianExecutionContext} {message : Message} {sender : String}
    (h : Accounts all before ({message} + outgoing) s) :
    Accounts all before outgoing
      { s with history := .published context message sender :: s.history } := by
  obtain ⟨new, hissued, hspent⟩ := h
  refine ⟨new, hissued, ?_⟩
  have hcons : Guardian.published { s with history := .published context message sender :: s.history } =
      {message} + Guardian.published s := by
    show ((message :: s.history.filterMap CycleEvent.publishedMessage : List Message) :
      Multiset Message) = _
    rw [← Multiset.cons_coe, ← Multiset.singleton_add]
    rfl
  rw [hcons]
  calc {message} + Guardian.published s + outgoing = Guardian.published s + ({message} + outgoing) := by
        abel
    _ ≤ new + before := hspent

theorem outgoing_sendMessageFromGuardian (context : GuardianExecutionContext) (message : Message) :
    (sendMessageFromGuardian context message).outgoing ≤ {message} := by
  unfold sendMessageFromGuardian
  split_ifs
  · exact Multiset.zero_le _
  · exact le_rfl

/-- A run whose last ping is old enough builds another one. -/
theorem Accounts.pinged {run : KeysRun} (h : Accounts all before outgoing s)
    (hneeded : isPingNeeded s.lastPingBlock run.blockData.blockNumber = true) :
    Accounts all before ((pingMessageBroker run).outgoing + outgoing)
      { s with lastPingBlock := some run.blockData.blockNumber } := by
  obtain ⟨new, ⟨hbuilt, blocks, hpings, hspaced⟩, hspent⟩ := h
  have hissued : Issued { s with lastPingBlock := some run.blockData.blockNumber }
      ({pingMessage run} + new + all) := by
    refine ⟨?_, run.blockData.blockNumber :: blocks, ?_, .cons hspaced hneeded⟩
    · rw [add_assoc, Multiset.filter_add, Multiset.filter_singleton]
      have hping : ¬ notPing (pingMessage run) = true := Bool.false_ne_true
      rw [if_neg hping, Multiset.empty_eq_zero, zero_add]
      exact hbuilt
    · rw [add_assoc, Multiset.singleton_add, Multiset.filterMap_cons_some (b := run.blockData.blockNumber),
        hpings, Multiset.cons_coe]
      rfl
  have houtgoing : (pingMessageBroker run).outgoing ≤ {pingMessage run} :=
    outgoing_sendMessageFromGuardian _ _
  refine ⟨{pingMessage run} + new, hissued, ?_⟩
  have hsame : Guardian.published { s with lastPingBlock := some run.blockData.blockNumber } =
      Guardian.published s := rfl
  rw [hsame]
  calc Guardian.published s + ((pingMessageBroker run).outgoing + outgoing)
      = (pingMessageBroker run).outgoing + (Guardian.published s + outgoing) := by abel
    _ ≤ {pingMessage run} + (new + before) := add_le_add houtgoing hspent
    _ = {pingMessage run} + new + before := by abel

/-! ## Messages -/

/-- A signing method begins. -/
theorem triple_sign_accounts (job : MessageJob) :
    Triple (Accounts all before rest) job.sign
      (fun message => Accounts all before (message.outgoing + rest)) (Accounts all before rest) := by
  intro s hs
  obtain ⟨hok, herror⟩ := triple_accounts (keepsAccounts_sign job) s hs
  refine ⟨fun message t hrun => ?_, herror⟩
  obtain ⟨⟨contract, _, rfl⟩, _⟩ := (triple_sign (s := s) job s rfl).1 message t hrun
  show Accounts all before (0 + rest) t
  rw [zero_add]
  exact hok _ t hrun

theorem notPing_message (job : MessageJob) (signature : Signature) :
    notPing (job.message signature) = true := by
  cases job <;> rfl

theorem triple_send_accounts (job : MessageJob) (signature : Signature) :
    Triple (Accounts all before rest) (job.send deps signature)
      (fun r => Accounts all before (r.1.outgoing + rest)) (Accounts all before rest) := by
  unfold MessageJob.send
  refine Triple.bind (triple_accounts ?_) fun transaction => ?_
  · cases job.transaction signature with
    | none => exact keeps_pure none
    | some call => exact keepsAccounts_onSecurity _
  · refine Triple.bind (triple_modify (Q := fun _ =>
      Accounts all before ({job.message signature} + rest)) fun s hs =>
        hs.prepared (notPing_message job signature)) fun _ => triple_pure fun s hs => ?_
    exact hs.of_le (add_le_add_left (outgoing_sendMessageFromGuardian _ _) _)

theorem triple_publishResume_accounts {thread : PublishThread} {answer : MessageAnswer}
    {m : Service CycleState (Option PublishThread)} (h : thread.resume deps answer = some m) :
    Triple (Accounts all before (thread.outgoing + rest)) m
      (fun next => Accounts all before ((next.elim 0 PublishThread.outgoing) + rest))
      (Accounts all before (thread.outgoing + rest)) := by
  unfold PublishThread.resume at h
  split at h
  · rename_i context message answer
    cases h
    refine Triple.bind (triple_accounts (keeps_call _)) fun _ => ?_
    refine Triple.bind (triple_accounts (keepsAccounts_onSecurity _)) fun wallet => ?_
    exact Triple.bind (triple_modify (Q := fun _ => Accounts all before (0 + rest)) fun s hs => by
      rw [zero_add]
      exact hs.published) fun _ => triple_pure fun s hs => hs
  · cases h
    exact Triple.bind (triple_accounts (keeps_call _)) fun _ => triple_pure fun s hs => hs
  · cases h
    exact triple_pure fun s hs => hs
  · cases h

theorem keepsAccounts_remember (job : MessageJob) : Keeps accounts job.remember := by
  cases job with
  | pause blockData => exact keeps_pure _
  | unvet stakingModuleData blockData chunk => exact keeps_pure _
  | deposit stakingModuleData blockData => exact keeps_modify fun _ => rfl

/-- A message goes on. -/
theorem triple_messageResume_accounts {thread : MessageThread} {answer : MessageAnswer}
    {m : Service CycleState (Option MessageThread × Option TransactionThread)}
    (h : thread.resume deps answer = some m) :
    Triple (Accounts all before (thread.outgoing + rest)) m
      (fun r => Accounts all before ((r.1.elim 0 MessageThread.outgoing) + rest))
      (Accounts all before rest) := by
  unfold MessageThread.resume at h
  split at h
  · cases h
    refine Triple.bind ((triple_accounts (keepsAccounts_onSecurity _)).mono (fun _ h => h)
      (fun _ _ h => h) fun s hs => hs.drop) fun signature => triple_pure fun s hs => hs
  · cases h
    refine Triple.bind ((triple_send_accounts _ _).mono (fun s hs => hs.drop) (fun _ _ h => h)
      fun _ h => h) fun r => triple_pure fun s hs => hs
  · simp only [Option.bind_eq_bind, Option.bind_eq_some_iff, Option.pure_def, Option.some.injEq] at h
    obtain ⟨m', hm', rfl⟩ := h
    refine Triple.bind ((triple_publishResume_accounts hm').mono (fun _ h => h) (fun _ _ h => h)
      fun s hs => hs.drop) fun next => ?_
    cases next with
    | some thread => exact triple_pure fun s hs => hs
    | none =>
      refine Triple.bind ((triple_accounts (keepsAccounts_remember _)).mono (fun _ h => h)
        (fun _ _ h => h) fun s hs => hs.drop) fun _ => triple_pure fun s hs => hs
  · cases h

/-! ## The background run -/

/-- The messages of the threads that a segment leaves. -/
def totalOutgoing (threads : List CycleThread) : Multiset Message :=
  (threads.map CycleThread.outgoing).sum

theorem totalOutgoing_append (threads threads' : List CycleThread) :
    totalOutgoing (threads ++ threads') = totalOutgoing threads + totalOutgoing threads' := by
  unfold totalOutgoing
  rw [List.map_append, List.sum_append]

theorem totalOutgoing_cons (thread : CycleThread) (threads : List CycleThread) :
    totalOutgoing (thread :: threads) = thread.outgoing + totalOutgoing threads := by
  unfold totalOutgoing
  rw [List.map_cons, List.sum_cons]

theorem totalOutgoing_ended (method : CycleMethod) (inTime : Bool) :
    totalOutgoing (ended method inTime) = 0 := by
  unfold ended
  split_ifs <;> rfl

theorem totalOutgoing_transactions (transaction : Option TransactionThread) :
    totalOutgoing (transaction.toList.map .transaction) = 0 := by
  cases transaction <;> rfl

theorem totalOutgoing_messages (messages : List MessageThread) :
    totalOutgoing (messages.map .message) = (messages.map MessageThread.outgoing).sum := by
  unfold totalOutgoing
  rw [List.map_map]
  rfl

theorem keepsAccounts_handleCorrectKeys (blockData : BlockData)
    (stakingModuleData : StakingModuleData) :
    Keeps accounts (handleCorrectKeys blockData stakingModuleData) := by
  unfold handleCorrectKeys
  refine keeps_get.bind fun s => ?_
  dsimp only
  split_ifs
  · exact keeps_pure _
  · exact (keepsAccounts_sign _).bind fun _ => keeps_pure _

/-- The deposit messages of a run begin; none of them is built. -/
theorem triple_startDeposits_accounts (run : KeysRun) (inTime : Bool) :
    Triple (Accounts all before rest) (startDeposits run)
      (fun stage => Accounts all before ((CycleThread.keys inTime stage).outgoing + rest))
      (Accounts all before rest) := by
  intro s hs
  have hkeeps : Keeps accounts (startDeposits run) :=
    (Keeps.mapM (keepsAccounts_handleCorrectKeys run.blockData) _).bind fun _ => keeps_pure _
  obtain ⟨hok, herror⟩ := triple_accounts hkeeps s hs
  obtain ⟨hshape, _⟩ := triple_startDeposits (s := s) run s rfl
  refine ⟨fun stage t hrun => ?_, herror⟩
  obtain ⟨⟨messages, rfl, hmessages⟩, _⟩ := hshape stage t hrun
  have hnone : (CycleThread.keys inTime (.depositing run messages)).outgoing = 0 := by
    refine List.sum_eq_zero fun outgoing hmem => ?_
    obtain ⟨message, hmessage, rfl⟩ := List.mem_map.1 hmem
    obtain ⟨_, contract, _, rfl⟩ := hmessages message hmessage
    rfl
  rw [hnone, zero_add]
  exact hok _ t hrun

theorem triple_handleUnvetting_accounts (run : KeysRun) (inTime : Bool) :
    Triple (Accounts all before rest) (handleUnvetting run)
      (fun stage => Accounts all before ((CycleThread.keys inTime stage).outgoing + rest))
      (Accounts all before rest) := by
  unfold handleUnvetting
  cases findFirstInvalidModule run.stakingModulesData with
  | none => exact triple_startDeposits_accounts run inTime
  | some firstInvalidModule =>
    dsimp only
    split_ifs
    · exact triple_startDeposits_accounts run inTime
    · refine triple_pure fun s hs => ?_
      show Accounts all before (0 + rest) s
      rw [zero_add]
      exact hs

theorem triple_finishKeys_accounts (run : KeysRun) :
    Triple (Accounts all before rest) (finishKeys run)
      (fun pings => Accounts all before (totalOutgoing pings + rest)) (Accounts all before rest) := by
  have hrecorded : ∀ {outgoing : Multiset Message} (stateMeta : StateMeta),
      Triple (Accounts all before outgoing) (record (.recorded stateMeta))
        (fun _ => Accounts all before outgoing) (Accounts all before rest) :=
    fun stateMeta => triple_modify fun s hs => hs
  unfold finishKeys
  refine Triple.bind (triple_get (Q := fun a t => a = t ∧ Accounts all before rest t)
    fun s hs => ⟨rfl, hs⟩) fun s => ?_
  dsimp only
  split_ifs with hneeded
  · refine Triple.bind (triple_modify (Q := fun _ =>
      Accounts all before ((pingMessageBroker run).outgoing + rest)) ?_) fun _ => ?_
    · rintro t ⟨rfl, ht⟩
      exact ht.pinged hneeded
    refine Triple.bind (triple_modify (Q := fun _ =>
      Accounts all before ((pingMessageBroker run).outgoing + rest)) fun t ht => ht) fun _ => ?_
    refine Triple.bind (hrecorded _) fun _ => triple_pure fun t ht => ?_
    rw [totalOutgoing_cons]
    show Accounts all before ((pingMessageBroker run).outgoing + 0 + rest) t
    rw [add_zero]
    exact ht
  · refine Triple.bind (triple_modify (Q := fun _ => Accounts all before rest)
      fun t ht => ht.2) fun _ => ?_
    refine Triple.bind (hrecorded _) fun _ => triple_pure fun t ht => ?_
    show Accounts all before (0 + rest) t
    rw [zero_add]
    exact ht

/-- A body goes on, with a transaction beside it. -/
theorem Accounts.goesOn {thread : CycleThread} (h : Accounts all before (thread.outgoing + rest) s)
    (transaction : Option TransactionThread) :
    Accounts all before (totalOutgoing (thread :: transaction.toList.map .transaction) + rest) s := by
  rw [totalOutgoing_cons, totalOutgoing_transactions, add_zero]
  exact h

theorem triple_keysResume_accounts {stage : KeysStage} {inTime : Bool} {answer : CycleAnswer}
    {m : Service CycleState (List CycleThread)} (h : stage.resume deps inTime answer = some m) :
    Triple (Accounts all before (CycleThread.keys inTime stage).outgoing) m
      (fun next => Accounts all before (totalOutgoing next))
      (Accounts all before (totalOutgoing (stage.leftBehind answer))) := by
  have hgoesOn : ∀ (stage : KeysStage) (transaction : Option TransactionThread) (t : CycleState),
      Accounts all before ((CycleThread.keys inTime stage).outgoing + 0) t →
      Accounts all before
        (totalOutgoing (.keys inTime stage :: transaction.toList.map .transaction)) t := by
    intro stage transaction t ht
    have hnext := ht.goesOn transaction
    rwa [add_zero] at hnext
  unfold KeysStage.resume at h
  split at h
  · cases h
    refine Triple.bind (triple_accounts (keeps_call _)) fun stakingModulesData => ?_
    exact Triple.bind (triple_handleUnvetting_accounts _ inTime) fun stage =>
      triple_pure fun t ht => hgoesOn stage none t ht
  · cases h
    refine Triple.bind (triple_accounts (keeps_call _)) fun maxOperatorsPerUnvetting => ?_
    refine Triple.bind (triple_accounts (keeps_call _)) fun firstChunk => ?_
    exact Triple.bind (@triple_sign_accounts all before 0 _) fun thread =>
      triple_pure fun t ht => hgoesOn (.unvetting _ thread) none t ht
  · rename_i run thread answer
    simp only [Option.bind_eq_bind, Option.bind_eq_some_iff, Option.pure_def, Option.some.injEq] at h
    obtain ⟨m', hm', rfl⟩ := h
    refine Triple.bind ((@triple_messageResume_accounts deps all before 0 _ _ _ hm').mono (fun t ht => ?_)
      (fun _ _ h => h) fun _ h => h) fun r => ?_
    · rw [add_zero]
      exact ht
    refine Triple.bind (Q := fun stage =>
      Accounts all before ((CycleThread.keys inTime stage).outgoing + 0)) ?_ fun stage =>
        triple_pure fun t ht => hgoesOn stage r.2 t ht
    cases r.1 with
    | none =>
      exact (triple_startDeposits_accounts run inTime).mono (fun t ht => ht.drop) (fun _ _ h => h)
        fun _ h => h
    | some next => exact triple_pure fun t ht => ht
  · rename_i run messages index answer
    simp only [Option.bind_eq_bind, Option.bind_eq_some_iff, Option.pure_def, Option.some.injEq] at h
    obtain ⟨thread, hthread, m', hm', rfl⟩ := h
    obtain ⟨hindex, rfl⟩ := List.getElem?_eq_some_iff.1 hthread
    have hfront : (CycleThread.keys inTime (.depositing run messages)).outgoing =
        messages[index].outgoing + ((messages.eraseIdx index).map MessageThread.outgoing).sum := by
      show (messages.map MessageThread.outgoing).sum = _
      rw [← List.sum_cons, ← List.map_cons]
      exact ((List.getElem_cons_eraseIdx_perm hindex).map _).sum_eq.symm
    rw [hfront]
    refine Triple.bind ((triple_messageResume_accounts hm').mono (fun _ h => h) (fun _ _ h => h)
      fun t ht => ?_) fun r => triple_pure fun t ht => ?_
    · show Accounts all before (totalOutgoing ((messages.eraseIdx index).map .message)) t
      rw [totalOutgoing_messages]
      exact ht
    · refine hgoesOn _ r.2 t ?_
      rw [add_zero]
      show Accounts all before ((messages.take index ++
        (r.1.toList ++ messages.drop (index + 1))).map MessageThread.outgoing).sum t
      have hsum : ((messages.take index ++ (r.1.toList ++ messages.drop (index + 1))).map
          MessageThread.outgoing).sum = r.1.elim 0 MessageThread.outgoing +
            ((messages.eraseIdx index).map MessageThread.outgoing).sum := by
        rw [List.eraseIdx_eq_take_drop_succ]
        simp only [List.map_append, List.sum_append]
        cases r.1 with
        | none =>
          show _ + (0 + _) = 0 + _
          abel
        | some next =>
          rw [Option.toList_some, List.map_singleton, List.sum_singleton]
          show _ = next.outgoing + _
          abel
      rw [hsum]
      exact ht
  · cases h
    refine Triple.bind (@triple_finishKeys_accounts all before 0 _) fun pings =>
      triple_pure fun t ht => ?_
    rw [totalOutgoing_append, totalOutgoing_ended]
    exact ht
  · cases h

/-! ## The cycle -/

theorem triple_handleKeys_accounts (stakingModulesData : List StakingModuleData)
    (blockData : BlockData) :
    Triple (Accounts all before rest) (handleKeys stakingModulesData blockData)
      (fun keys => Accounts all before (totalOutgoing keys + rest)) (Accounts all before rest) := by
  intro s hs
  have hrun : EStateM.run (handleKeys stakingModulesData blockData) s =
      if s.handleKeys.busy none then .ok [] s
      else .ok [.keys true (.checking ⟨stakingModulesData, blockData⟩)]
        { s with handleKeys := s.handleKeys.enter none } := by
    unfold handleKeys
    simp only [EStateM.run_bind, EStateM.run_get]
    split_ifs <;> rfl
  have hzero : Accounts all before (0 + rest) s := by
    rw [zero_add]
    exact hs
  rw [hrun]
  split_ifs
  · refine ⟨fun keys t h => ?_, fun e t h => (by cases h)⟩
    cases h
    exact hzero
  · refine ⟨fun keys t h => ?_, fun e t h => (by cases h)⟩
    cases h
    exact hzero

theorem triple_newBlockResume_accounts {stage : NewBlockStage} {inTime : Bool} {answer : CycleAnswer}
    {m : Service CycleState (List CycleThread)} (h : stage.resume deps inTime answer = some m) :
    Triple (Accounts all before (CycleThread.newBlock inTime stage).outgoing) m
      (fun next => Accounts all before (totalOutgoing next)) (Accounts all before 0) := by
  unfold NewBlockStage.resume at h
  split at h
  · cases h
    refine Triple.bind (triple_accounts (keeps_call _)) fun snapshot => ?_
    refine Triple.bind (triple_accounts keeps_get) fun s => ?_
    split_ifs
    · exact triple_pure fun t ht => ht
    · refine triple_pure fun t ht => ?_
      rw [totalOutgoing_ended]
      exact ht
  · cases h
    refine Triple.bind (triple_accounts (keeps_call _)) fun address => ?_
    exact Triple.bind (triple_accounts (keepsAccounts_onSecurity _)) fun _ =>
      triple_pure fun t ht => ht
  · cases h
    refine Triple.bind (triple_accounts (keeps_call _)) fun _ => ?_
    exact Triple.bind (triple_accounts (keepsAccounts_onSecurity _)) fun context =>
      triple_pure fun t ht => ht
  · simp only [Option.bind_eq_bind, Option.bind_eq_some_iff, Option.pure_def, Option.some.injEq] at h
    obtain ⟨m', _, rfl⟩ := h
    refine Triple.bind (triple_accounts (keepsAccounts_onSecurity _)) fun next =>
      triple_pure fun t ht => ?_
    cases next <;> exact ht
  · cases h
    refine triple_pure fun t ht => ?_
    rw [totalOutgoing_cons, totalOutgoing_ended]
    exact ht
  · cases h
    refine Triple.bind (triple_accounts (keeps_call _)) fun data => ?_
    dsimp only
    split_ifs
    · refine Triple.bind (@triple_sign_accounts all before 0 _) fun thread => triple_pure fun t ht => ?_
      exact ht
    · refine Triple.bind (@triple_handleKeys_accounts all before 0 _ _) fun keys =>
        triple_pure fun t ht => ?_
      rw [totalOutgoing_append, totalOutgoing_ended]
      exact ht
  · simp only [Option.bind_eq_bind, Option.bind_eq_some_iff, Option.pure_def, Option.some.injEq] at h
    obtain ⟨m', hm', rfl⟩ := h
    refine Triple.bind ((@triple_messageResume_accounts deps all before 0 _ _ _ hm').mono (fun t ht => ?_)
      (fun _ _ h => h) fun _ h => h) fun r => triple_pure fun t ht => ?_
    · rw [add_zero]
      exact ht
    rw [totalOutgoing_append, totalOutgoing_transactions]
    cases hr : r.1 with
    | none =>
      rw [hr] at ht
      show Accounts all before (totalOutgoing (ended _ _) + 0) t
      rw [totalOutgoing_ended]
      exact ht
    | some next =>
      rw [hr] at ht
      show Accounts all before (next.outgoing + 0 + 0) t
      rw [add_zero]
      exact ht
  · cases h

/-! ## Any step -/

theorem keepsAccounts_takeDown (method : CycleMethod) : Keeps accounts method.takeDown := by
  cases method with
  | handleNewBlock => exact keeps_modify fun _ => rfl
  | handleKeys => exact keeps_modify fun _ => rfl

/-- A thread goes on. -/
theorem triple_resume_accounts {thread : CycleThread} {answer : CycleAnswer}
    {m : Service CycleState (List CycleThread)} (h : thread.resume deps answer = some m) :
    Triple (Accounts all before thread.outgoing) m
      (fun next => Accounts all before (totalOutgoing next)) (Accounts all before 0) := by
  unfold CycleThread.resume at h
  split at h
  · rename_i stage
    cases h
    refine Triple.bind ((triple_accounts (keepsAccounts_takeDown _)).mono (fun _ h => h)
      (fun _ _ h => h) fun t ht => ht.of_le (Multiset.zero_le _)) fun _ => triple_pure fun t ht => ?_
    rw [totalOutgoing_cons]
    show Accounts all before ((CycleThread.newBlock false stage).outgoing + 0) t
    rw [add_zero]
    cases stage <;> exact ht
  · simp only [Option.bind_eq_bind, Option.bind_eq_some_iff, Option.pure_def, Option.some.injEq] at h
    obtain ⟨m', hm', rfl⟩ := h
    refine (triple_newBlockResume_accounts hm').tryCatch fun _ => triple_pure fun t ht => ?_
    rw [totalOutgoing_ended]
    exact ht
  · rename_i stage
    cases h
    refine Triple.bind ((triple_accounts (keepsAccounts_takeDown _)).mono (fun _ h => h)
      (fun _ _ h => h) fun t ht => ht.of_le (Multiset.zero_le _)) fun _ => triple_pure fun t ht => ?_
    rw [totalOutgoing_cons]
    show Accounts all before ((CycleThread.keys false stage).outgoing + 0) t
    rw [add_zero]
    cases stage <;> exact ht
  · simp only [Option.bind_eq_bind, Option.bind_eq_some_iff, Option.pure_def, Option.some.injEq] at h
    obtain ⟨m', hm', rfl⟩ := h
    refine (triple_keysResume_accounts hm').tryCatch fun _ => triple_pure fun t ht => ?_
    rw [totalOutgoing_append, totalOutgoing_ended, add_zero]
    exact ht
  · cases h
    exact Triple.bind (triple_accounts (keepsAccounts_takeDown _)) fun _ =>
      triple_pure fun t ht => ht
  · simp only [Option.bind_eq_bind, Option.bind_eq_some_iff, Option.pure_def, Option.some.injEq] at h
    obtain ⟨m', _, rfl⟩ := h
    refine Triple.bind (triple_accounts (keepsAccounts_onSecurity _)) fun next =>
      triple_pure fun t ht => ?_
    cases next <;> exact ht
  · rename_i thread answer
    simp only [Option.bind_eq_bind, Option.bind_eq_some_iff, Option.pure_def, Option.some.injEq] at h
    obtain ⟨m', hm', rfl⟩ := h
    refine Triple.bind ((@triple_messageResume_accounts deps all before 0 _ _ _ hm').mono
      (fun t ht => ?_) (fun _ _ h => h) fun _ h => h) fun r => triple_pure fun t ht => ?_
    · rw [add_zero]
      exact ht
    · rw [totalOutgoing_append, totalOutgoing_transactions, totalOutgoing_messages]
      cases hr : r.1 with
      | none =>
        rw [hr] at ht
        exact ht
      | some next =>
        rw [hr] at ht
        show Accounts all before (([next].map MessageThread.outgoing).sum + 0) t
        rw [List.map_singleton, List.sum_singleton]
        exact ht
  · rename_i thread answer
    simp only [Option.bind_eq_bind, Option.bind_eq_some_iff, Option.pure_def, Option.some.injEq] at h
    obtain ⟨m', hm', rfl⟩ := h
    refine Triple.bind ((@triple_publishResume_accounts deps all before 0 _ _ _ hm').mono
      (fun t ht => ?_) (fun _ _ h => h) fun t ht => ht.of_le (Multiset.zero_le _)) fun next =>
        triple_pure fun t ht => ?_
    · rw [add_zero]
      exact ht
    · cases next <;> exact ht
  · simp only [Option.bind_eq_bind, Option.bind_eq_some_iff, Option.pure_def, Option.some.injEq] at h
    obtain ⟨m', _, rfl⟩ := h
    refine Triple.bind (triple_accounts (keepsAccounts_onSecurity _)) fun next =>
      triple_pure fun t ht => ?_
    rw [totalOutgoing_transactions]
    exact ht
  · cases h

/-- What is published and what waits was issued. -/
theorem published_le_issued (security : SecurityState) {c : Configuration CycleState CycleThread}
    (h : (cycleProgram deps).Reachable (fun _ _ => True) (started security) c) :
    ∃ all, Issued c.shared all ∧ published c.shared + totalOutgoing c.threads ≤ all := by
  refine h.issued CycleThread.outgoing published Issued ⟨0, ⟨le_rfl, [], rfl, .none⟩, le_rfl⟩ ?_ ?_
  · intro call s all hissued
    have hrun : Program.segment handleNewBlock s = if s.handleNewBlock.busy none then (s, [])
        else ({ s with handleNewBlock := s.handleNewBlock.enter none }, [.newBlock true .modules]) := by
      unfold Program.segment handleNewBlock
      simp only [EStateM.run_bind, EStateM.run_get]
      split_ifs <;> rfl
    refine ⟨0, ?_⟩
    rw [zero_add, zero_add]
    show Issued (Program.segment handleNewBlock s).1 all ∧
      published (Program.segment handleNewBlock s).1 +
        ((Program.segment handleNewBlock s).2.map CycleThread.outgoing).sum ≤ published s
    rw [hrun]
    split_ifs
    · refine ⟨hissued, ?_⟩
      show published s + 0 ≤ published s
      rw [add_zero]
    · refine ⟨hissued, ?_⟩
      show published s + 0 ≤ published s
      rw [add_zero]
  · intro thread answer s next all hnext hissued
    obtain ⟨m, hm, rfl⟩ := Option.map_eq_some_iff.1 hnext
    have hstart : Accounts all (published s + thread.outgoing) thread.outgoing s :=
      ⟨0, by rw [zero_add]; exact hissued, by rw [zero_add]⟩
    obtain ⟨hok, herror⟩ := triple_resume_accounts hm s hstart
    unfold Program.segment
    cases hrun : EStateM.run m s with
    | ok next t => exact hok next t hrun
    | error e t => exact herror e t hrun

/-! ## Main result -/

/-- The blocks of the pings, from the latest on: each is 300 blocks behind the one before, or the other is
zero. -/
theorem Spaced.pairwise {last : Option ℕ} {blocks : List ℕ} (h : Spaced last blocks) :
    (∀ blockNumber ∈ blocks, ∃ latest, last = some latest ∧ blockNumber ≤ latest) ∧
    blocks.Pairwise fun later earlier =>
      earlier = 0 ∨ earlier + guardianPingBlocksPeriod ≤ later := by
  induction h with
  | none => exact ⟨fun _ hmem => (by cases hmem), List.Pairwise.nil⟩
  | @cons last blocks blockNumber _ hneeded ih =>
    obtain ⟨hlatest, hpairwise⟩ := ih
    have hbehind : ∀ earlier ∈ blocks, earlier = 0 ∨ earlier + guardianPingBlocksPeriod ≤ blockNumber := by
      intro earlier hmem
      obtain ⟨latest, rfl, hle⟩ := hlatest earlier hmem
      have hperiod : latest = 0 ∨ latest + guardianPingBlocksPeriod ≤ blockNumber := by
        simpa [isPingNeeded] using hneeded
      omega
    refine ⟨fun earlier hmem => ⟨blockNumber, rfl, ?_⟩, List.Pairwise.cons hbehind hpairwise⟩
    rcases List.mem_cons.1 hmem with rfl | hmem
    · exact le_rfl
    · have hle := hbehind earlier hmem
      omega

variable (deps) in
/-- **Publications.** In every interleaving of cycles and background runs, a message other than a ping is
published at most as often as it was built; and two pings that were published are at least 300 blocks apart,
unless one of them is for the block zero. -/
theorem publications_bounded (security : SecurityState) {c : Configuration CycleState CycleThread}
    (h : (cycleProgram deps).Reachable (fun _ _ => True) (started security) c) :
    (∀ message : Message, message.type ≠ .ping →
      (c.shared.history.filterMap CycleEvent.publishedMessage).count message ≤
        (prepared c.shared).count message) ∧
    ((c.shared.history.filterMap CycleEvent.publishedMessage).filterMap pingBlock).Pairwise
      fun a b => a = 0 ∨ b = 0 ∨ a + guardianPingBlocksPeriod ≤ b ∨ b + guardianPingBlocksPeriod ≤ a := by
  obtain ⟨all, ⟨hbuilt, blocks, hpings, hspaced⟩, hle⟩ := published_le_issued security h
  have hpublished : published c.shared ≤ all := (Multiset.le_add_right _ _).trans hle
  constructor
  · intro message hmessage
    have hnot : notPing message = true := by
      simpa [notPing] using hmessage
    calc (c.shared.history.filterMap CycleEvent.publishedMessage).count message
        = (published c.shared).count message := (Multiset.coe_count _ _).symm
      _ ≤ all.count message := Multiset.count_le_of_le _ hpublished
      _ = (all.filter fun message => notPing message = true).count message :=
          (Multiset.count_filter_of_pos (p := fun message => notPing message = true) hnot).symm
      _ ≤ (prepared c.shared : Multiset Message).count message := Multiset.count_le_of_le _ hbuilt
      _ = (prepared c.shared).count message := Multiset.coe_count _ _
  · have hsub : (published c.shared).filterMap pingBlock ≤ (blocks : Multiset ℕ) := by
      rw [← hpings]
      exact Multiset.filterMap_le_filterMap _ hpublished
    obtain ⟨found, hperm, hsublist⟩ := Multiset.coe_le.1 hsub
    have hapart := (hspaced.pairwise.2.sublist hsublist).imp (S := fun a b : ℕ => a = 0 ∨ b = 0 ∨
      a + guardianPingBlocksPeriod ≤ b ∨ b + guardianPingBlocksPeriod ≤ a) fun hab =>
        hab.elim (fun hzero => Or.inr (Or.inl hzero)) fun hapart => Or.inr (Or.inr (Or.inr hapart))
    exact hperm.pairwise hapart fun {a b} hab => by omega

/-! ## A sample -/

open CycleSample

/-- A run without a deposit message, whose ping is published, and one that publishes a deposit message. -/
theorem publishing_run : ((cycleProgram SecuritySample.deps).run (fun _ _ => true) CycleSample.start
    (cycleMoves 0 17 firstContract legacyAnswers ++
      [.resume 0 (.checkedKeys (.ok [])), .resume 0 .settled, .resume 1 .settled,
        .resume 0 (.message (.connected (.ok ())))] ++
      cycleMoves 1 18 firstContract legacyAnswers ++ (depositMoves 1).take 4)).isSome = true := by
  decide +kernel

def publishingHistory : List CycleEvent := (Option.get _ publishing_run).shared.history

theorem publications_bounded_publishing :
    (publishingHistory.filterMap CycleEvent.publishedMessage).map Message.type = [.deposit, .ping] ∧
    (∀ message : Message, message.type ≠ .ping →
      (publishingHistory.filterMap CycleEvent.publishedMessage).count message ≤
        (publishingHistory.filterMap CycleEvent.preparedMessage).count message) ∧
    ((publishingHistory.filterMap CycleEvent.publishedMessage).filterMap pingBlock).Pairwise
      fun a b => a = 0 ∨ b = 0 ∨ a + guardianPingBlocksPeriod ≤ b ∨ b + guardianPingBlocksPeriod ≤ a := by
  refine ⟨by decide +kernel, ?_⟩
  exact publications_bounded SecuritySample.deps _ (Program.Reachable.refl.run (fun _ _ _ => trivial)
    (Option.some_get publishing_run).symm)

end Guardian

end CouncilDaemon
