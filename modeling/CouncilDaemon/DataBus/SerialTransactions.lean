import CouncilDaemon.DataBus.Publish
import CouncilDaemon.DataBus.RoundTrip

/-!
# One transaction of a wallet at a time

In every interleaving the mutex of a sender is held by one call at most, which releases it once, and
the transactions of a wallet have nonces of their own unless one failed (`publish_serial`).

1. A mutex is locked when one thread holds it and free when none does (`holding_eq_locked`).
2. The history of a mutex is bracketed: it is acquired when free and released by its holder.
3. All transactions of a sender that have not failed are counted on the chain, but for the one its
   holder is waiting for. The count that the next transaction takes its nonce from is read behind
   them.
-/

namespace CouncilDaemon

open Abi (Value)

/-! ## Steps -/

/-- The stages a call goes through without a change of the shared state. -/
inductive Advances (s : PublishState) (sender : String) : PublishStage → PublishStage → Prop where
  | rejected {eventName data} : Advances s sender (.locked eventName data) .unlocking
  | encoded {eventName data} (message) :
    Advances s sender (.locked eventName data) (.gettingAddress message)
  | asked {message} :
    Advances s sender (.gettingAddress message) (.gettingCount (s.latest sender) message)
  | noCount {low message} : Advances s sender (.gettingCount low message) .unlocking
  | sent {transaction} : Advances s sender (.sending transaction) (.confirming transaction)
  | confirmed {transaction} : transaction.nonce < s.latest transaction.sender →
    Advances s sender (.confirming transaction) .unlocking

section Steps

variable {events : EventsInterface} {thread : PublishThread} {answer : PublishAnswer}
  {s : PublishState} {next : PublishState × List PublishThread}

/-- What a thread can do. -/
theorem resume_cases (h : thread.resume events s answer = some next) :
    (∃ promise eventName data, thread.stage = .locking promise eventName data ∧
      next = ((lock thread.call thread.sender eventName data s).1,
        [(lock thread.call thread.sender eventName data s).2])) ∨
    (∃ stage, Advances s thread.sender thread.stage stage ∧
      next = (s, [{ thread with stage := stage }])) ∨
    (∃ low message nonce, thread.stage = .gettingCount low message ∧ low ≤ nonce ∧
      nonce ≤ s.latest thread.sender ∧
      next = ({ s with
        transactions := ⟨thread.sender, nonce, thread.call, message⟩ :: s.transactions },
        [{ thread with stage := .sending ⟨thread.sender, nonce, thread.call, message⟩ }])) ∨
    (∃ transaction, (thread.stage = .sending transaction ∨ thread.stage = .confirming transaction) ∧
      next = thread.fail transaction s) ∨
    (thread.stage = .unlocking ∧ next = (unlock thread.call thread.sender s, [])) := by
  obtain ⟨call, sender, stage⟩ := thread
  unfold PublishThread.resume at h
  dsimp only at h ⊢
  split at h
  · rename_i promise eventName data
    split_ifs at h
    cases h
    exact Or.inl ⟨promise, eventName, data, rfl, rfl⟩
  · rename_i eventName data
    split at h
    · cases h
      exact Or.inr (Or.inl ⟨_, .rejected, rfl⟩)
    · cases h
      exact Or.inr (Or.inl ⟨_, .encoded _, rfl⟩)
  · cases h
    exact Or.inr (Or.inl ⟨_, .asked, rfl⟩)
  · cases h
    exact Or.inr (Or.inl ⟨_, .noCount, rfl⟩)
  · rename_i low message nonce
    split_ifs at h with hnonce
    cases h
    exact Or.inr (Or.inr (Or.inl ⟨low, message, nonce, rfl, hnonce.1, hnonce.2, rfl⟩))
  · cases h
    exact Or.inr (Or.inl ⟨_, .sent, rfl⟩)
  · rename_i transaction e
    cases h
    exact Or.inr (Or.inr (Or.inr (Or.inl ⟨transaction, Or.inl rfl, rfl⟩)))
  · split_ifs at h with hcounted
    cases h
    exact Or.inr (Or.inl ⟨_, .confirmed hcounted, rfl⟩)
  · rename_i transaction e
    cases h
    exact Or.inr (Or.inr (Or.inr (Or.inl ⟨transaction, Or.inr rfl, rfl⟩)))
  · cases h
    exact Or.inr (Or.inr (Or.inr (Or.inr ⟨rfl, rfl⟩)))
  · cases h

end Steps

/-! ## The mutexes -/

namespace PublishState

variable (s : PublishState)

def locked (sender : String) : Bool := (s.mutex sender).currentPromise.isSome

theorem mutex_setMutex (sender : String) (mutex : Mutex) (other : String) :
    (s.setMutex sender mutex).mutex other = if other = sender then mutex else s.mutex other := by
  unfold PublishState.mutex setMutex
  dsimp only
  rw [Function.update_apply]
  split_ifs <;> rfl

theorem locked_acquire (sender : String) (call : ℕ) (other : String) :
    (s.acquire sender call).locked other = (decide (other = sender) || s.locked other) := by
  have hmutex : (s.acquire sender call).mutex other =
      if other = sender then Mutex.locked s.promises else s.mutex other :=
    mutex_setMutex s sender _ other
  rw [locked, hmutex]
  by_cases hother : other = sender
  · rw [if_pos hother, decide_eq_true hother]
    rfl
  · rw [if_neg hother, decide_eq_false hother]
    rfl

theorem locked_release (sender : String) (call promise : ℕ) (other : String) :
    (s.release sender call promise).locked other =
      (!decide (other = sender) && s.locked other) := by
  have hmutex : (s.release sender call promise).mutex other =
      if other = sender then Mutex.free else s.mutex other :=
    mutex_setMutex s sender _ other
  rw [locked, hmutex]
  by_cases hother : other = sender
  · rw [if_pos hother, decide_eq_true hother]
    rfl
  · rw [if_neg hother, decide_eq_false hother]
    rfl

end PublishState

section Mutexes

variable {s : PublishState} {call : ℕ} {sender eventName : String} {data : Value}

/-- A turn of `lock` waits when the mutex is locked and acquires it when it is free. -/
theorem lock_cases (s : PublishState) (call : ℕ) (sender eventName : String) (data : Value) :
    (s.locked sender = true ∧ ∃ promise,
      lock call sender eventName data s = (s, ⟨call, sender, .locking promise eventName data⟩)) ∨
    (s.locked sender = false ∧
      lock call sender eventName data s =
        (s.acquire sender call, ⟨call, sender, .locked eventName data⟩)) := by
  unfold lock PublishState.locked
  cases (s.mutex sender).currentPromise with
  | some promise => exact Or.inl ⟨rfl, promise, rfl⟩
  | none => exact Or.inr ⟨rfl, rfl⟩

theorem unlock_locked (call : ℕ) (h : s.locked sender = true) :
    ∃ promise, unlock call sender s = s.release sender call promise := by
  have hresolver := (s.mutex sender).resolver_eq
  unfold PublishState.locked at h
  unfold unlock
  rw [hresolver]
  cases hcurrent : (s.mutex sender).currentPromise with
  | none =>
    rw [hcurrent] at h
    cases h
  | some promise => exact ⟨promise, rfl⟩

/-- The state when a call of `publish` has its sender. -/
def callStarted (s : PublishState) : PublishState := (dsmMessageSender { s with calls := s.calls + 1 }).1

theorem callStarted_eq (s : PublishState) :
    (∀ sender, (callStarted s).mutex sender = s.mutex sender) ∧
      (callStarted s).history = s.history ∧ (callStarted s).transactions = s.transactions ∧
      (callStarted s).failed = s.failed ∧ (callStarted s).latest = s.latest ∧
      (callStarted s).calls = s.calls + 1 := by
  unfold callStarted dsmMessageSender
  dsimp only
  cases hsender : s.dsmMessageSenders s.activeWallet.address with
  | some mutex => exact ⟨fun _ => rfl, rfl, rfl, rfl, rfl, rfl⟩
  | none =>
    refine ⟨fun sender => ?_, rfl, rfl, rfl, rfl, rfl⟩
    dsimp only
    rw [PublishState.mutex_setMutex]
    split_ifs with hname
    · rw [hname, PublishState.mutex, hsender]
      rfl
    · rfl

/-- How a call begins. -/
theorem start_cases (ethers : Ethers) (call : PublishCall) (s : PublishState) :
    (∃ message, call = .publish message ∧ call.start ethers s = (callStarted s, [])) ∨
    (∃ message sender eventName data, call = .publish message ∧
      call.start ethers s =
        ((lock s.calls sender eventName data
          ((callStarted s).record (.requested sender s.calls))).1,
        [(lock s.calls sender eventName data
          ((callStarted s).record (.requested sender s.calls))).2])) ∨
    (∃ wallet, call.start ethers s = ({ s with activeWallet := wallet }, [])) ∨
    ∃ sender count, call.start ethers s =
      ({ s with latest := Function.update s.latest sender (s.latest sender + count) }, []) := by
  cases call with
  | selectWallet wallet => exact Or.inr (Or.inr (Or.inl ⟨wallet, rfl⟩))
  | mine sender count => exact Or.inr (Or.inr (Or.inr ⟨sender, count, rfl⟩))
  | publish message =>
    show (∃ message', PublishCall.publish message = .publish message' ∧
      publish ethers message s = _) ∨ (∃ message' sender eventName data,
      PublishCall.publish message = .publish message' ∧ publish ethers message s = _) ∨ _
    unfold publish
    cases transformMessage ethers message with
    | error e => exact Or.inl ⟨message, rfl, rfl⟩
    | ok outputMessage => exact Or.inr (Or.inl ⟨message, _, _, _, rfl, rfl⟩)

end Mutexes

/-! ## Exclusion -/

/-- The thread holds the mutex of the sender. -/
def PublishThread.holds (sender : String) (thread : PublishThread) : Bool :=
  thread.stage.holding && thread.sender == sender

section Exclusion

variable {ethers : Ethers} {events : EventsInterface} {s : PublishState} {sender : String}

/-- What a turn of `lock` adds to the locked mutexes is what its thread holds. -/
theorem locked_lock (s : PublishState) (call : ℕ) (sender eventName : String) (data : Value)
    (other : String) :
    ((lock call sender eventName data s).1.locked other).toNat =
      (s.locked other).toNat + ((lock call sender eventName data s).2.holds other).toNat := by
  rcases lock_cases s call sender eventName data with ⟨_, promise, hlock⟩ | ⟨hfree, hlock⟩
  · rw [hlock]
    rfl
  · rw [hlock]
    show ((s.acquire sender call).locked other).toNat = _ + (sender == other).toNat
    rw [PublishState.locked_acquire]
    by_cases hother : other = sender
    · subst hother
      rw [hfree, decide_eq_true rfl, beq_self_eq_true]
      rfl
    · rw [decide_eq_false hother, beq_false_of_ne (Ne.symm hother)]
      rfl

theorem Advances.holds {thread : PublishThread} {stage : PublishStage}
    (h : Advances s thread.sender thread.stage stage) (other : String) :
    PublishThread.holds other { thread with stage := stage } = thread.holds other ∧
      thread.stage.holding = true := by
  obtain ⟨call, sender, stage'⟩ := thread
  dsimp only at h
  cases h <;> exact ⟨rfl, rfl⟩

/-- A mutex is locked when one thread holds it. -/
theorem holding_eq_locked {init c : Configuration PublishState PublishThread}
    {allowed : Configuration PublishState PublishThread → Move PublishCall PublishAnswer → Prop}
    (h : (publishProgram ethers events).Reachable allowed init c)
    (hinit : init.threads = [] ∧ init.shared.locked sender = false) :
    (c.threads.map fun thread => (thread.holds sender).toNat).sum =
      (c.shared.locked sender).toNat := by
  have hbalance := h.balance (fun thread => (thread.holds sender).toNat)
    (fun s => (s.locked sender).toNat) (fun _ => 0) ?_ ?_ ?_
  · simpa using hbalance
  · rw [hinit.1, hinit.2]
    rfl
  · intro call s threads _
    show 0 + ((call.start ethers s).2.map _).sum + _ = ((call.start ethers s).1.locked sender).toNat + 0
    have hquiet : ∀ event, ((callStarted s).record event).locked sender = s.locked sender := by
      intro event
      show ((callStarted s).mutex sender).currentPromise.isSome = _
      rw [(callStarted_eq s).1]
      rfl
    rcases start_cases ethers call s with ⟨message, _, hstart⟩ |
      ⟨message, name, eventName, data, _, hstart⟩ | ⟨wallet, hstart⟩ | ⟨name, count, hstart⟩
    · rw [hstart]
      have hsame : (callStarted s).locked sender = s.locked sender := by
        show ((callStarted s).mutex sender).currentPromise.isSome = _
        rw [(callStarted_eq s).1]
        rfl
      rw [hsame]
      simp
    · rw [hstart]
      show 0 + (List.map _ [_]).sum + _ = _ + 0
      rw [locked_lock, hquiet, List.map_singleton, List.sum_singleton]
      omega
    · rw [hstart]
      show 0 + 0 + (s.locked sender).toNat = (s.locked sender).toNat + 0
      omega
    · rw [hstart]
      show 0 + 0 + (s.locked sender).toNat = (s.locked sender).toNat + 0
      omega
  · intro before thread after answer s next _ hnext hheld
    show 0 + (next.2.map _).sum + (s.locked sender).toNat =
      (next.1.locked sender).toNat + 0 + (thread.holds sender).toNat
    rcases resume_cases hnext with ⟨promise, eventName, data, hstage, rfl⟩ | ⟨stage, hadvance, rfl⟩ |
      ⟨low, message, nonce, hstage, _, _, rfl⟩ | ⟨transaction, hstage, rfl⟩ | ⟨hstage, rfl⟩
    · have hwaits : thread.holds sender = false := by
        rw [PublishThread.holds, hstage]
        rfl
      rw [hwaits]
      dsimp only
      rw [locked_lock, List.map_singleton, List.sum_singleton]
      show _ = _ + 0 + 0
      omega
    · rw [List.map_singleton, List.sum_singleton, (hadvance.holds sender).1]
      show 0 + _ + _ = (s.locked sender).toNat + 0 + _
      omega
    · have hsame : PublishThread.holds sender { thread with
          stage := .sending ⟨thread.sender, nonce, thread.call, message⟩ } = thread.holds sender := by
        rw [PublishThread.holds, PublishThread.holds, hstage]
        rfl
      rw [List.map_singleton, List.sum_singleton, hsame]
      show 0 + _ + _ = (s.locked sender).toNat + 0 + _
      omega
    · have hsame : PublishThread.holds sender { thread with stage := .unlocking } =
          thread.holds sender := by
        rcases hstage with hstage | hstage <;>
        · rw [PublishThread.holds, PublishThread.holds, hstage]
          rfl
      show 0 + ([PublishThread.mk thread.call thread.sender .unlocking].map fun thread =>
        (PublishThread.holds sender thread).toNat).sum + _ = (s.locked sender).toNat + 0 + _
      rw [List.map_singleton, List.sum_singleton, hsame]
      omega
    · show 0 + 0 + _ = ((unlock thread.call thread.sender s).locked sender).toNat + 0 + _
      have hholds : thread.holds sender = (thread.sender == sender) := by
        rw [PublishThread.holds, hstage]
        rfl
      rw [hholds] at hheld ⊢
      cases hlocked : s.locked thread.sender with
      | true =>
        obtain ⟨promise, hunlock⟩ := unlock_locked thread.call hlocked
        rw [hunlock, PublishState.locked_release]
        by_cases hsender : sender = thread.sender
        · rw [hsender, hlocked, decide_eq_true rfl, beq_self_eq_true]
          rfl
        · rw [decide_eq_false hsender, beq_false_of_ne (Ne.symm hsender)]
          simp
      | false =>
        have hother : sender ≠ thread.sender := by
          rintro rfl
          rw [hlocked, beq_self_eq_true] at hheld
          cases hheld
        have hunlock : (unlock thread.call thread.sender s).locked sender = s.locked sender := by
          unfold unlock
          split
          · rfl
          · rw [PublishState.locked_release, decide_eq_false hother]
            rfl
        rw [hunlock, beq_false_of_ne (Ne.symm hother)]
        simp

/-- In every step the locked mutexes are held by one thread each. -/
def Exclusive (c : Configuration PublishState PublishThread) : Prop :=
  ∀ sender, (c.threads.map fun thread => (thread.holds sender).toNat).sum =
    (c.shared.locked sender).toNat

/-- The holder of a mutex is its only one. -/
theorem Exclusive.holder {before after : List PublishThread} {thread : PublishThread}
    (h : Exclusive ⟨s, before ++ thread :: after⟩) (hholds : thread.holds sender = true) :
    s.locked sender = true ∧ ∀ other ∈ before ++ after, other.holds sender = false := by
  have hsum := h sender
  have hle := Bool.toNat_le (s.locked sender)
  rw [List.map_append, List.map_cons, List.sum_append, List.sum_cons, hholds] at hsum
  dsimp only [Bool.toNat_true] at hsum
  have hlocked : (s.locked sender).toNat = 1 := by omega
  have hrest : ((before ++ after).map fun thread => (thread.holds sender).toNat).sum = 0 := by
    rw [List.map_append, List.sum_append]
    omega
  refine ⟨by simpa using hlocked, fun other hother => ?_⟩
  have hzero := List.sum_eq_zero_iff.1 hrest _ (List.mem_map_of_mem hother)
  simpa using hzero

/-- A free mutex has no holder. -/
theorem Exclusive.free {threads : List PublishThread} (h : Exclusive ⟨s, threads⟩)
    (hfree : s.locked sender = false) : ∀ thread ∈ threads, thread.holds sender = false := by
  intro thread hthread
  have hsum := h sender
  rw [hfree] at hsum
  have hzero := List.sum_eq_zero_iff.1 hsum _ (List.mem_map_of_mem hthread)
  simpa using hzero

end Exclusion

/-! ## Requests, acquisitions and releases -/

namespace MutexEvent

def requestedBy (call : ℕ) : MutexEvent → Bool
  | requested _ other => other == call
  | _ => false

def acquiredBy (call : ℕ) : MutexEvent → Bool
  | acquired _ other => other == call
  | _ => false

def releasedBy (call : ℕ) : MutexEvent → Bool
  | released _ other => other == call
  | _ => false

end MutexEvent

/-- The call waits in `lock`. -/
def PublishThread.waits (call : ℕ) (thread : PublishThread) : Bool :=
  !thread.stage.holding && thread.call == call

/-- The call has acquired the mutex and has not released it. -/
def PublishThread.holdsFor (call : ℕ) (thread : PublishThread) : Bool :=
  thread.stage.holding && thread.call == call

section Counts

variable {ethers : Ethers} {events : EventsInterface} {s : PublishState} {call : ℕ}

theorem Advances.waits {thread : PublishThread} {stage : PublishStage}
    (h : Advances s thread.sender thread.stage stage) (call : ℕ) :
    PublishThread.waits call { thread with stage := stage } = thread.waits call ∧
      PublishThread.holdsFor call { thread with stage := stage } = thread.holdsFor call := by
  obtain ⟨call', sender, stage'⟩ := thread
  dsimp only at h
  cases h <;> exact ⟨rfl, rfl⟩

/-- A turn of `lock` either leaves its call waiting or records the acquisition. -/
theorem counts_lock (s : PublishState) (call : ℕ) (sender eventName : String) (data : Value)
    (other : ℕ) :
    (lock call sender eventName data s).1.history.countP (MutexEvent.acquiredBy other) +
        ((lock call sender eventName data s).2.waits other).toNat =
      s.history.countP (MutexEvent.acquiredBy other) + (call == other).toNat ∧
    (lock call sender eventName data s).1.history.countP (MutexEvent.acquiredBy other) =
      s.history.countP (MutexEvent.acquiredBy other) +
        ((lock call sender eventName data s).2.holdsFor other).toNat ∧
    (lock call sender eventName data s).1.history.countP (MutexEvent.requestedBy other) =
      s.history.countP (MutexEvent.requestedBy other) ∧
    (lock call sender eventName data s).1.history.countP (MutexEvent.releasedBy other) =
      s.history.countP (MutexEvent.releasedBy other) := by
  rcases lock_cases s call sender eventName data with ⟨_, promise, hlock⟩ | ⟨_, hlock⟩
  · rw [hlock]
    exact ⟨rfl, rfl, rfl, rfl⟩
  · rw [hlock]
    show ((MutexEvent.acquired sender call :: s.history).countP _ + 0 = _) ∧
      (MutexEvent.acquired sender call :: s.history).countP _ = _ + (call == other).toNat ∧
      (MutexEvent.acquired sender call :: s.history).countP _ = _ ∧
      (MutexEvent.acquired sender call :: s.history).countP _ = _
    rw [List.countP_cons, List.countP_cons, List.countP_cons]
    have hcount : (if MutexEvent.acquiredBy other (.acquired sender call) = true then 1 else 0) =
        (call == other).toNat := by
      show (if (call == other) = true then 1 else 0) = _
      cases call == other <;> rfl
    rw [hcount]
    exact ⟨rfl, rfl, rfl, rfl⟩

/-- How a step of a thread counts: a request is acquired when it no longer waits, and an acquisition
is released when it is no longer held. -/
theorem counts_resume {thread : PublishThread} {answer : PublishAnswer}
    {next : PublishState × List PublishThread} (h : thread.resume events s answer = some next)
    (hlocked : thread.stage = .unlocking → s.locked thread.sender = true) (call : ℕ) :
    next.1.history.countP (MutexEvent.acquiredBy call) +
        (next.2.map fun thread => (thread.waits call).toNat).sum =
      s.history.countP (MutexEvent.acquiredBy call) + (thread.waits call).toNat ∧
    next.1.history.countP (MutexEvent.requestedBy call) =
      s.history.countP (MutexEvent.requestedBy call) ∧
    next.1.history.countP (MutexEvent.releasedBy call) +
        (next.2.map fun thread => (thread.holdsFor call).toNat).sum +
        s.history.countP (MutexEvent.acquiredBy call) =
      next.1.history.countP (MutexEvent.acquiredBy call) +
        s.history.countP (MutexEvent.releasedBy call) + (thread.holdsFor call).toNat := by
  rcases resume_cases h with ⟨promise, eventName, data, hstage, rfl⟩ | ⟨stage, hadvance, rfl⟩ |
    ⟨low, message, nonce, hstage, _, _, rfl⟩ | ⟨transaction, hstage, rfl⟩ | ⟨hstage, rfl⟩
  · obtain ⟨hwaits, hholds, hrequests, hreleases⟩ :=
      counts_lock s thread.call thread.sender eventName data call
    have hthread : thread.waits call = (thread.call == call) ∧ thread.holdsFor call = false := by
      rw [PublishThread.waits, PublishThread.holdsFor, hstage]
      exact ⟨rfl, rfl⟩
    rw [hthread.1, hthread.2, List.map_singleton, List.sum_singleton, List.map_singleton,
      List.sum_singleton]
    refine ⟨hwaits, hrequests, ?_⟩
    dsimp only [Bool.toNat_false]
    omega
  · rw [List.map_singleton, List.sum_singleton, List.map_singleton, List.sum_singleton,
      (hadvance.waits call).1, (hadvance.waits call).2]
    refine ⟨rfl, rfl, ?_⟩
    dsimp only
    omega
  · have hsame : PublishThread.waits call { thread with
        stage := .sending ⟨thread.sender, nonce, thread.call, message⟩ } = thread.waits call ∧
        PublishThread.holdsFor call { thread with
          stage := .sending ⟨thread.sender, nonce, thread.call, message⟩ } =
          thread.holdsFor call := by
      unfold PublishThread.waits PublishThread.holdsFor
      rw [hstage]
      exact ⟨rfl, rfl⟩
    rw [List.map_singleton, List.sum_singleton, List.map_singleton, List.sum_singleton, hsame.1,
      hsame.2]
    refine ⟨rfl, rfl, ?_⟩
    dsimp only
    omega
  · have hsame : PublishThread.waits call { thread with stage := .unlocking } = thread.waits call ∧
        PublishThread.holdsFor call { thread with stage := .unlocking } = thread.holdsFor call := by
      unfold PublishThread.waits PublishThread.holdsFor
      rcases hstage with hstage | hstage <;>
      · rw [hstage]
        exact ⟨rfl, rfl⟩
    unfold PublishThread.fail
    rw [List.map_singleton, List.sum_singleton, List.map_singleton, List.sum_singleton, hsame.1,
      hsame.2]
    refine ⟨rfl, rfl, ?_⟩
    dsimp only
    omega
  · obtain ⟨promise, hunlock⟩ := unlock_locked thread.call (hlocked hstage)
    have hthread : thread.waits call = false ∧ thread.holdsFor call = (thread.call == call) := by
      rw [PublishThread.waits, PublishThread.holdsFor, hstage]
      exact ⟨rfl, rfl⟩
    have hcount : (if MutexEvent.releasedBy call (.released thread.sender thread.call) = true
        then 1 else 0) = (thread.call == call).toNat := by
      show (if (thread.call == call) = true then 1 else 0) = _
      cases thread.call == call <;> rfl
    rw [hunlock, hthread.1, hthread.2]
    show ((MutexEvent.released thread.sender thread.call :: s.history).countP _ + 0 = _) ∧
      (MutexEvent.released thread.sender thread.call :: s.history).countP _ = _ ∧
      (MutexEvent.released thread.sender thread.call :: s.history).countP _ + 0 + _ =
        (MutexEvent.released thread.sender thread.call :: s.history).countP _ + _ + _
    rw [List.countP_cons, List.countP_cons, List.countP_cons, hcount]
    refine ⟨rfl, rfl, ?_⟩
    show _ + 0 + _ = _ + 0 + _ + _
    omega

/-- How the beginning of a call counts: what is requested is acquired or waits. -/
theorem counts_start (ethers : Ethers) (publishCall : PublishCall) (s : PublishState) (call : ℕ) :
    (publishCall.start ethers s).1.history.countP (MutexEvent.acquiredBy call) +
        ((publishCall.start ethers s).2.map fun thread => (thread.waits call).toNat).sum +
        s.history.countP (MutexEvent.requestedBy call) =
      (publishCall.start ethers s).1.history.countP (MutexEvent.requestedBy call) +
        s.history.countP (MutexEvent.acquiredBy call) ∧
    (publishCall.start ethers s).1.history.countP (MutexEvent.releasedBy call) +
        ((publishCall.start ethers s).2.map fun thread => (thread.holdsFor call).toNat).sum +
        s.history.countP (MutexEvent.acquiredBy call) =
      (publishCall.start ethers s).1.history.countP (MutexEvent.acquiredBy call) +
        s.history.countP (MutexEvent.releasedBy call) := by
  obtain ⟨_, hhistory, _⟩ := callStarted_eq s
  rcases start_cases ethers publishCall s with ⟨message, _, hstart⟩ |
    ⟨message, sender, eventName, data, _, hstart⟩ | ⟨wallet, hstart⟩ | ⟨sender, count, hstart⟩
  · rw [hstart]
    simp only [List.map_nil, List.sum_nil]
    rw [hhistory]
    omega
  · obtain ⟨hwaits, hholds, hrequests, hreleases⟩ := counts_lock
      ((callStarted s).record (.requested sender s.calls)) s.calls sender eventName data call
    have hcount : ((callStarted s).record (.requested sender s.calls)).history.countP
        (MutexEvent.requestedBy call) =
        s.history.countP (MutexEvent.requestedBy call) + (s.calls == call).toNat := by
      show (MutexEvent.requested sender s.calls :: (callStarted s).history).countP _ = _
      rw [hhistory, List.countP_cons]
      show _ + (if (s.calls == call) = true then 1 else 0) = _
      cases s.calls == call <;> rfl
    have hothers : ((callStarted s).record (.requested sender s.calls)).history.countP
        (MutexEvent.acquiredBy call) = s.history.countP (MutexEvent.acquiredBy call) ∧
        ((callStarted s).record (.requested sender s.calls)).history.countP
        (MutexEvent.releasedBy call) = s.history.countP (MutexEvent.releasedBy call) := by
      show (MutexEvent.requested sender s.calls :: (callStarted s).history).countP _ = _ ∧
        (MutexEvent.requested sender s.calls :: (callStarted s).history).countP _ = _
      rw [hhistory, List.countP_cons, List.countP_cons]
      exact ⟨rfl, rfl⟩
    rw [hstart]
    dsimp only
    rw [List.map_singleton, List.sum_singleton, List.map_singleton, List.sum_singleton]
    rw [hcount] at hrequests
    rw [hothers.1] at hwaits hholds
    rw [hothers.2] at hreleases
    omega
  · rw [hstart]
    simp only [List.map_nil, List.sum_nil]
    omega
  · rw [hstart]
    simp only [List.map_nil, List.sum_nil]
    omega

theorem calls_lock (s : PublishState) (call : ℕ) (sender eventName : String) (data : Value) :
    (lock call sender eventName data s).1.calls = s.calls := by
  rcases lock_cases s call sender eventName data with ⟨_, promise, hlock⟩ | ⟨_, hlock⟩
  · rw [hlock]
  · rw [hlock]
    rfl

theorem calls_resume {thread : PublishThread} {answer : PublishAnswer}
    {next : PublishState × List PublishThread} (h : thread.resume events s answer = some next) :
    next.1.calls = s.calls := by
  rcases resume_cases h with ⟨promise, eventName, data, hstage, rfl⟩ | ⟨stage, hadvance, rfl⟩ |
    ⟨low, message, nonce, hstage, _, _, rfl⟩ | ⟨transaction, hstage, rfl⟩ | ⟨hstage, rfl⟩
  · exact calls_lock ..
  · rfl
  · rfl
  · rfl
  · show (unlock thread.call thread.sender s).calls = s.calls
    unfold unlock
    split <;> rfl

/-- Every call requests at most once, and only when it was begun. -/
def RequestedOnce (s : PublishState) : Prop :=
  ∀ call, s.history.countP (MutexEvent.requestedBy call) ≤ if call < s.calls then 1 else 0

theorem RequestedOnce.start (hs : RequestedOnce s) (publishCall : PublishCall) :
    RequestedOnce (publishCall.start ethers s).1 := by
  obtain ⟨_, hhistory, _, _, _, hcalls⟩ := callStarted_eq s
  have hstarted : ∀ call, s.history.countP (MutexEvent.requestedBy call) ≤
      if call < s.calls + 1 then 1 else 0 := by
    intro call
    have hcall := hs call
    split_ifs at hcall ⊢ <;> omega
  intro call
  rcases start_cases ethers publishCall s with ⟨message, _, hstart⟩ |
    ⟨message, sender, eventName, data, _, hstart⟩ | ⟨wallet, hstart⟩ | ⟨sender, count, hstart⟩
  · rw [hstart]
    dsimp only
    rw [hhistory, hcalls]
    exact hstarted call
  · obtain ⟨_, _, hrequests, _⟩ := counts_lock
      ((callStarted s).record (.requested sender s.calls)) s.calls sender eventName data call
    have hcount : ((callStarted s).record (.requested sender s.calls)).history.countP
        (MutexEvent.requestedBy call) =
        s.history.countP (MutexEvent.requestedBy call) + (if s.calls == call then 1 else 0) := by
      show (MutexEvent.requested sender s.calls :: (callStarted s).history).countP _ = _
      rw [hhistory, List.countP_cons]
      rfl
    have hcall := hs call
    rw [hstart]
    dsimp only
    rw [hrequests, hcount, calls_lock]
    show _ ≤ if call < (callStarted s).calls then 1 else 0
    rw [hcalls]
    simp only [beq_iff_eq]
    split_ifs at hcall ⊢ <;> omega
  · rw [hstart]
    exact hs call
  · rw [hstart]
    exact hs call

/-- What the counts of the history say of a configuration. -/
theorem counts_reachable {init c : Configuration PublishState PublishThread}
    (h : (publishProgram ethers events).Reachable (fun _ _ => True) init c)
    (hthreads : init.threads = []) (hhistory : init.shared.history = [])
    (hlocked : ∀ sender, init.shared.locked sender = false) (call : ℕ) :
    c.shared.history.countP (MutexEvent.acquiredBy call) ≤ 1 ∧
      c.shared.history.countP (MutexEvent.releasedBy call) +
        (c.threads.map fun thread => (thread.holdsFor call).toNat).sum =
        c.shared.history.countP (MutexEvent.acquiredBy call) := by
  have hexclusive := h.strengthen (J := Exclusive) fun c hc sender =>
    holding_eq_locked hc ⟨hthreads, hlocked sender⟩
  have hunlocks : ∀ {before thread after s}, Exclusive ⟨s, before ++ thread :: after⟩ →
      thread.stage = .unlocking → s.locked thread.sender = true := by
    intro before thread after s hc hstage
    have hholds : thread.holds thread.sender = true := by
      rw [PublishThread.holds, hstage, beq_self_eq_true]
      rfl
    exact (hc.holder hholds).1
  have hrequested := hexclusive.balance (fun thread => (thread.waits call).toNat)
    (fun s => s.history.countP (MutexEvent.requestedBy call))
    (fun s => s.history.countP (MutexEvent.acquiredBy call))
    (by rw [hthreads, hhistory]; rfl)
    (fun publishCall s threads _ => by
      exact (counts_start ethers publishCall s call).1)
    (fun before thread after answer s next hallowed hnext _ => by
      obtain ⟨hwaits, hrequests, _⟩ := counts_resume hnext (hunlocks hallowed.2) call
      omega)
  have hacquired := hexclusive.balance (fun thread => (thread.holdsFor call).toNat)
    (fun s => s.history.countP (MutexEvent.acquiredBy call))
    (fun s => s.history.countP (MutexEvent.releasedBy call))
    (by rw [hthreads, hhistory]; rfl)
    (fun publishCall s threads _ => by
      exact (counts_start ethers publishCall s call).2)
    (fun before thread after answer s next hallowed hnext _ => by
      obtain ⟨_, _, hreleases⟩ := counts_resume hnext (hunlocks hallowed.2) call
      exact hreleases)
  have honce := hexclusive.invariant (J := fun c => RequestedOnce c.shared)
    (by rw [RequestedOnce, hhistory]; exact fun _ => Nat.zero_le _)
    (by
      rintro c c' move hc ⟨_, hexclusive⟩ hstep
      rcases Program.step_cases hstep with ⟨publishCall, rfl, rfl⟩ |
        ⟨before, thread, after, answer, next, rfl, hthreads, hnext, rfl⟩
      · exact hc.start publishCall
      · intro call
        have hshape : c = ⟨c.shared, before ++ thread :: after⟩ := by rw [← hthreads]
        rw [hshape] at hexclusive
        show next.1.history.countP _ ≤ if call < next.1.calls then 1 else 0
        rw [calls_resume hnext, (counts_resume hnext (hunlocks hexclusive) call).2.1]
        exact hc call)
  refine ⟨?_, hacquired⟩
  have hle := honce call
  split_ifs at hle <;> omega

end Counts

/-! ## Brackets and nonces -/

/-- The history of the mutex of a sender, with the call that holds it in the end: it is acquired
when no call holds it, and released by the call that does. -/
inductive Bracketed (sender : String) : List MutexEvent → Option ℕ → Prop where
  | nil : Bracketed sender [] none
  | requested {history holder call} : Bracketed sender history holder →
    Bracketed sender (.requested sender call :: history) holder
  | acquired {history call} : Bracketed sender history none →
    Bracketed sender (.acquired sender call :: history) (some call)
  | released {history call} : Bracketed sender history (some call) →
    Bracketed sender (.released sender call :: history) none
  | other {history holder event} : event.sender ≠ sender → Bracketed sender history holder →
    Bracketed sender (event :: history) holder

/-- The transactions of the sender that have not failed, but for the pending one, have nonces below
the bound. -/
def CountedBelow (s : PublishState) (sender : String) (bound : ℕ)
    (pending : Option SentTransaction) : Prop :=
  ∀ transaction ∈ s.transactions, transaction.sender = sender → transaction ∉ s.failed →
    some transaction ≠ pending → transaction.nonce < bound

/-- What a call that holds the mutex knows of the transactions of its sender. -/
def PublishStage.Counted (s : PublishState) (sender : String) : PublishStage → Prop
  | locking _ _ _ => True
  | gettingCount low _ => CountedBelow s sender low none ∧ low ≤ s.latest sender
  | sending transaction | confirming transaction =>
    CountedBelow s sender (s.latest sender) (some transaction) ∧ transaction.sender = sender
  | _ => CountedBelow s sender (s.latest sender) none

/-- What a thread relies on. -/
def PublishThread.Relies (s : PublishState) (thread : PublishThread) : Prop :=
  thread.stage.holding = true → Bracketed thread.sender s.history (some thread.call) ∧
    thread.stage.Counted s thread.sender

/-- A free mutex has no holder and no transaction that is not counted, and a nonce is taken again
only after a failure. -/
structure Serial (s : PublishState) : Prop where
  free : ∀ sender, s.locked sender = false →
    Bracketed sender s.history none ∧ CountedBelow s sender (s.latest sender) none
  nonces : s.transactions.Pairwise fun later earlier =>
    later.sender = earlier.sender → later.nonce = earlier.nonce → earlier ∈ s.failed

/-- From `s` to `t` nothing happens to the sender, but that more is counted. -/
structure Untouched (sender : String) (s t : PublishState) : Prop where
  history : ∀ holder, Bracketed sender s.history holder → Bracketed sender t.history holder
  transactions : ∀ transaction ∈ t.transactions, transaction.sender = sender →
    transaction ∈ s.transactions
  failed : ∀ transaction ∈ s.failed, transaction ∈ t.failed
  latest : s.latest sender ≤ t.latest sender

section Serial

variable {ethers : Ethers} {events : EventsInterface} {s t : PublishState} {sender : String}

theorem CountedBelow.untouched {bound bound' : ℕ} {pending : Option SentTransaction}
    (h : CountedBelow s sender bound pending) (ht : Untouched sender s t) (hbound : bound ≤ bound') :
    CountedBelow t sender bound' pending := by
  intro transaction hmem hsender hfailed hpending
  have hlt := h transaction (ht.transactions transaction hmem hsender) hsender
    (fun hf => hfailed (ht.failed transaction hf)) hpending
  omega

theorem PublishStage.Counted.untouched {stage : PublishStage} (h : stage.Counted s sender)
    (ht : Untouched sender s t) : stage.Counted t sender := by
  cases stage with
  | locking promise eventName data => trivial
  | gettingCount low message => exact ⟨h.1.untouched ht le_rfl, h.2.trans ht.latest⟩
  | sending transaction => exact ⟨h.1.untouched ht ht.latest, h.2⟩
  | confirming transaction => exact ⟨h.1.untouched ht ht.latest, h.2⟩
  | _ => exact CountedBelow.untouched h ht ht.latest

theorem PublishThread.Relies.untouched {thread : PublishThread} (h : thread.Relies s)
    (ht : Untouched thread.sender s t) : thread.Relies t := by
  intro hholding
  obtain ⟨hbracketed, hcounted⟩ := h hholding
  exact ⟨ht.history _ hbracketed, hcounted.untouched ht⟩

theorem Serial.untouched (h : Serial s) (ht : ∀ sender, Untouched sender s t)
    (hlocked : ∀ sender, t.locked sender = s.locked sender)
    (htransactions : t.transactions = s.transactions) : Serial t where
  free sender hfree := by
    rw [hlocked] at hfree
    obtain ⟨hbracketed, hcounted⟩ := h.free sender hfree
    exact ⟨(ht sender).history _ hbracketed, hcounted.untouched (ht sender) (ht sender).latest⟩
  nonces := by
    rw [htransactions]
    exact h.nonces.imp fun {_ earlier} hpair hsender hnonce =>
      (ht earlier.sender).failed _ (hpair hsender hnonce)

/-- The other threads do not notice what is done for a sender whose mutex they do not hold. -/
theorem relies_others {others : List PublishThread}
    (hothers : ∀ other ∈ others, other.holds sender = false)
    (ht : ∀ other, other ≠ sender → Untouched other s t)
    (hrelies : ∀ other ∈ others, other.Relies s) : ∀ other ∈ others, other.Relies t := by
  intro other hother hholding
  have hne : other.sender ≠ sender := by
    have hfree := hothers other hother
    rw [PublishThread.holds, hholding, Bool.true_and, beq_eq_false_iff_ne] at hfree
    exact hfree
  exact (hrelies other hother).untouched (ht _ hne) hholding

/-! ## Segments -/

theorem untouched_acquire {call : ℕ} {other : String} (h : other ≠ sender) :
    Untouched other s (s.acquire sender call) where
  history _ hbracketed := .other (fun heq => h heq.symm) hbracketed
  transactions _ hmem _ := hmem
  failed _ hmem := hmem
  latest := le_rfl

theorem untouched_release {call promise : ℕ} {other : String} (h : other ≠ sender) :
    Untouched other s (s.release sender call promise) where
  history _ hbracketed := .other (fun heq => h heq.symm) hbracketed
  transactions _ hmem _ := hmem
  failed _ hmem := hmem
  latest := le_rfl

/-- A turn of `lock` keeps what the threads rely on. -/
theorem asserts_lock (hs : Serial s) (call : ℕ) (sender eventName : String) (data : Value)
    {others : List PublishThread}
    (hothers : s.locked sender = false → ∀ other ∈ others, other.holds sender = false)
    (hrelies : ∀ other ∈ others, other.Relies s) :
    Program.Asserts Serial (fun s thread => PublishThread.Relies s thread)
      (lock call sender eventName data s).1 [(lock call sender eventName data s).2] ∧
    ∀ other ∈ others, other.Relies (lock call sender eventName data s).1 := by
  rcases lock_cases s call sender eventName data with ⟨_, promise, hlock⟩ | ⟨hfree, hlock⟩
  · rw [hlock]
    refine ⟨⟨hs, ?_⟩, hrelies⟩
    intro thread hthread
    obtain rfl := List.mem_singleton.1 hthread
    intro hholding
    cases hholding
  · rw [hlock]
    obtain ⟨hbracketed, hcounted⟩ := hs.free sender hfree
    refine ⟨⟨⟨?_, hs.nonces⟩, ?_⟩, relies_others (hothers hfree) (fun _ => untouched_acquire) hrelies⟩
    · intro other hother
      rw [PublishState.locked_acquire, Bool.or_eq_false_iff, decide_eq_false_iff_not] at hother
      obtain ⟨hb, hc⟩ := hs.free other hother.2
      have ht : Untouched other s (s.acquire sender call) := untouched_acquire hother.1
      exact ⟨ht.history _ hb, hc.untouched ht ht.latest⟩
    · intro thread hthread
      obtain rfl := List.mem_singleton.1 hthread
      exact fun _ => ⟨.acquired hbracketed, hcounted⟩

theorem asserts_start (hs : Serial s) (publishCall : PublishCall) {threads : List PublishThread}
    (hthreads : Exclusive ⟨s, threads⟩) (hrelies : ∀ thread ∈ threads, thread.Relies s) :
    Program.Asserts Serial (fun s thread => PublishThread.Relies s thread)
      (publishCall.start ethers s).1 (publishCall.start ethers s).2 ∧
    ∀ thread ∈ threads, thread.Relies (publishCall.start ethers s).1 := by
  obtain ⟨hmutex, hhistory, htransactions, hfailed, hlatest, _⟩ := callStarted_eq s
  have hlocked : ∀ sender, (callStarted s).locked sender = s.locked sender := by
    intro sender
    rw [PublishState.locked, hmutex]
    rfl
  have hbegun : ∀ sender, Untouched sender s (callStarted s) := fun sender =>
    ⟨fun _ hb => by rw [hhistory]; exact hb, fun _ hmem _ => by rw [← htransactions]; exact hmem,
      fun _ hmem => by rw [hfailed]; exact hmem, by rw [hlatest]⟩
  have hquiet : ∀ {t : PublishState}, (∀ sender, Untouched sender s t) →
      (∀ sender, t.locked sender = s.locked sender) → t.transactions = s.transactions →
      Program.Asserts Serial (fun s thread => PublishThread.Relies s thread) t [] ∧
        ∀ thread ∈ threads, thread.Relies t := by
    intro t ht hsame hsent
    exact ⟨⟨hs.untouched ht hsame hsent, by simp⟩,
      fun thread hthread => (hrelies thread hthread).untouched (ht _)⟩
  rcases start_cases ethers publishCall s with ⟨message, _, hstart⟩ |
    ⟨message, sender, eventName, data, _, hstart⟩ | ⟨wallet, hstart⟩ | ⟨sender, count, hstart⟩
  · rw [hstart]
    exact hquiet hbegun hlocked htransactions
  · rw [hstart]
    have hrequested : ∀ other, Untouched other s
        ((callStarted s).record (.requested sender s.calls)) := by
      intro other
      refine ⟨fun holder hb => ?_, (hbegun other).transactions, (hbegun other).failed,
        (hbegun other).latest⟩
      have hbegun := (hbegun other).history holder hb
      by_cases hother : sender = other
      · subst hother
        exact .requested hbegun
      · exact .other hother hbegun
    obtain ⟨⟨hserial, _⟩, hkept⟩ := hquiet hrequested hlocked htransactions
    refine asserts_lock hserial s.calls sender eventName data (fun hfree => ?_) hkept
    exact hthreads.free ((hlocked sender).symm.trans hfree)
  · rw [hstart]
    exact hquiet (fun _ => ⟨fun _ hb => hb, fun _ hmem _ => hmem, fun _ hmem => hmem, le_rfl⟩)
      (fun _ => rfl) rfl
  · rw [hstart]
    refine hquiet (fun other => ⟨fun _ hb => hb, fun _ hmem _ => hmem, fun _ hmem => hmem, ?_⟩)
      (fun _ => rfl) rfl
    show s.latest other ≤ Function.update s.latest sender (s.latest sender + count) other
    rw [Function.update_apply]
    split_ifs with hother
    · rw [hother]
      omega
    · exact le_rfl

/-- The stages of a call keep what it knows. -/
theorem Advances.counted {stage stage' : PublishStage} (h : Advances s sender stage stage')
    (hcounted : stage.Counted s sender) : stage'.Counted s sender := by
  cases h with
  | rejected => exact hcounted
  | encoded message => exact hcounted
  | asked => exact ⟨hcounted, le_rfl⟩
  | noCount =>
    intro transaction hmem hsender hfailed hpending
    exact lt_of_lt_of_le (hcounted.1 transaction hmem hsender hfailed hpending) hcounted.2
  | sent => exact hcounted
  | @confirmed transaction hnonce =>
    obtain ⟨hbelow, hsender⟩ := hcounted
    intro other hmem hother hfailed _
    by_cases hsame : other = transaction
    · rw [hsame, ← hsender]
      exact hnonce
    · exact hbelow other hmem hother hfailed fun heq => hsame (Option.some.inj heq)

theorem Advances.holding {stage stage' : PublishStage} (h : Advances s sender stage stage') :
    stage.holding = true := by
  cases h <;> rfl

/-- **The step of a thread.** It keeps what all threads rely on. -/
theorem asserts_resume {before after : List PublishThread} {thread : PublishThread}
    {answer : PublishAnswer} {next : PublishState × List PublishThread}
    (hexclusive : Exclusive ⟨s, before ++ thread :: after⟩)
    (hasserts : Program.Asserts Serial (fun s thread => PublishThread.Relies s thread) s
      (before ++ thread :: after)) (hnext : thread.resume events s answer = some next) :
    Program.Asserts Serial (fun s thread => PublishThread.Relies s thread) next.1 next.2 ∧
      ∀ other ∈ before ++ after, other.Relies next.1 := by
  obtain ⟨hs, hrelies⟩ := hasserts
  have hmem : ∀ other ∈ before ++ after, other ∈ before ++ thread :: after := by
    intro other hother
    rw [List.mem_append, List.mem_cons]
    rcases List.mem_append.1 hother with h | h
    · exact Or.inl h
    · exact Or.inr (Or.inr h)
  have hothers : ∀ other ∈ before ++ after, other.Relies s := fun other hother =>
    hrelies other (hmem other hother)
  have hthread : thread.Relies s := hrelies thread (by simp)
  have hheld : thread.stage.holding = true → s.locked thread.sender = true ∧
      ∀ other ∈ before ++ after, other.holds thread.sender = false := by
    intro hholding
    refine hexclusive.holder ?_
    rw [PublishThread.holds, hholding, beq_self_eq_true]
    rfl
  rcases resume_cases hnext with ⟨promise, eventName, data, hstage, rfl⟩ | ⟨stage, hadvance, rfl⟩ |
    ⟨low, message, nonce, hstage, hlow, hlatest, rfl⟩ | ⟨transaction, hstage, rfl⟩ | ⟨hstage, rfl⟩
  · refine asserts_lock hs thread.call thread.sender eventName data ?_ hothers
    exact fun hfree other hother => hexclusive.free hfree other (hmem other hother)
  · obtain ⟨hbracketed, hcounted⟩ := hthread hadvance.holding
    refine ⟨⟨hs, ?_⟩, hothers⟩
    intro other hother
    obtain rfl := List.mem_singleton.1 hother
    exact fun _ => ⟨hbracketed, hadvance.counted hcounted⟩
  · have hholding : thread.stage.holding = true := by rw [hstage]; rfl
    obtain ⟨hlocked, hfree⟩ := hheld hholding
    obtain ⟨hbracketed, hcounted⟩ := hthread hholding
    rw [hstage] at hcounted
    obtain ⟨hbelow, hbound⟩ := hcounted
    set sent : SentTransaction := ⟨thread.sender, nonce, thread.call, message⟩ with hsent
    have ht : ∀ other, other ≠ thread.sender →
        Untouched other s { s with transactions := sent :: s.transactions } := by
      intro other hother
      refine ⟨fun _ hb => hb, fun transaction hmem hsender => ?_, fun _ hmem => hmem, le_rfl⟩
      rcases List.mem_cons.1 hmem with rfl | hmem
      · exact absurd hsender.symm hother
      · exact hmem
    refine ⟨⟨⟨?_, ?_⟩, ?_⟩, relies_others hfree ht hothers⟩
    · intro other hother
      have hne : other ≠ thread.sender := by
        rintro rfl
        exact absurd (hlocked.symm.trans hother) (by decide)
      obtain ⟨hb, hc⟩ := hs.free other hother
      exact ⟨hb, hc.untouched (ht other hne) le_rfl⟩
    · refine List.Pairwise.cons ?_ hs.nonces
      intro earlier hearlier hsender hnonce
      by_contra hunfailed
      have hlt := hbelow earlier hearlier hsender.symm hunfailed (by simp)
      rw [← hnonce] at hlt
      exact absurd hlow (not_le.2 hlt)
    · intro other hother
      obtain rfl := List.mem_singleton.1 hother
      refine fun _ => ⟨hbracketed, ?_, rfl⟩
      intro transaction hmem hsender hunfailed hpending
      rcases List.mem_cons.1 hmem with rfl | hmem
      · exact absurd rfl hpending
      · exact lt_of_lt_of_le (hbelow transaction hmem hsender hunfailed (by simp)) hbound
  · have hholding : thread.stage.holding = true := by
      rcases hstage with hstage | hstage <;>
      · rw [hstage]
        rfl
    obtain ⟨hbracketed, hcounted⟩ := hthread hholding
    have hpending : CountedBelow s thread.sender (s.latest thread.sender) (some transaction) := by
      rcases hstage with hstage | hstage
      · rw [hstage] at hcounted
        exact hcounted.1
      · rw [hstage] at hcounted
        exact hcounted.1
    have ht : ∀ other, Untouched other s { s with failed := transaction :: s.failed } := fun other =>
      ⟨fun _ hb => hb, fun _ hmem _ => hmem, fun _ hmem => List.mem_cons_of_mem _ hmem, le_rfl⟩
    refine ⟨⟨hs.untouched ht (fun _ => rfl) rfl, ?_⟩,
      fun other hother => (hothers other hother).untouched (ht _)⟩
    intro other hother
    obtain rfl := List.mem_singleton.1 hother
    refine fun _ => ⟨hbracketed, ?_⟩
    intro other hmem hsender hunfailed _
    refine hpending other hmem hsender (fun h => hunfailed (List.mem_cons_of_mem _ h)) ?_
    rintro heq
    obtain rfl := Option.some.inj heq
    exact hunfailed (List.mem_cons_self ..)
  · have hholding : thread.stage.holding = true := by rw [hstage]; rfl
    obtain ⟨hlocked, hfree⟩ := hheld hholding
    obtain ⟨hbracketed, hcounted⟩ := hthread hholding
    rw [hstage] at hcounted
    obtain ⟨promise, hunlock⟩ := unlock_locked thread.call hlocked
    rw [hunlock]
    refine ⟨⟨⟨?_, hs.nonces⟩, by simp⟩, relies_others hfree (fun _ => untouched_release) hothers⟩
    intro other hother
    by_cases hne : other = thread.sender
    · subst hne
      exact ⟨.released hbracketed, hcounted⟩
    · rw [PublishState.locked_release, decide_eq_false hne] at hother
      obtain ⟨hb, hc⟩ := hs.free other hother
      have ht : Untouched other s (s.release thread.sender thread.call promise) :=
        untouched_release hne
      exact ⟨ht.history _ hb, hc.untouched ht ht.latest⟩

end Serial

/-! ## The main result -/

theorem sum_toNat_eq_countP {α : Type} (test : α → Bool) (items : List α) :
    (items.map fun item => (test item).toNat).sum = items.countP test := by
  induction items with
  | nil => rfl
  | cons item items ih =>
    rw [List.map_cons, List.sum_cons, ih, List.countP_cons]
    cases test item <;> simp [Nat.add_comm]

/-- The transactions of every wallet are serial. -/
structure SerialTransactions (c : Configuration PublishState PublishThread) : Prop where
  /-- No two executions of `sendTransaction` for one wallet overlap. -/
  executing : ∀ sender,
    c.threads.countP (fun thread => thread.stage.executing && thread.sender == sender) ≤ 1
  /-- A mutex is acquired when it is free and released by the call that holds it, which is the one
  whose thread is between the two now. -/
  held : ∀ thread ∈ c.threads, thread.stage.holding = true →
    Bracketed thread.sender c.shared.history (some thread.call)
  free : ∀ sender, (∀ thread ∈ c.threads, thread.holds sender = false) →
    Bracketed sender c.shared.history none
  /-- A call acquires a mutex once at most, and has released it once when it no longer holds it. -/
  calls : ∀ call, c.shared.history.countP (MutexEvent.acquiredBy call) ≤ 1 ∧
    c.shared.history.countP (MutexEvent.releasedBy call) +
      c.threads.countP (PublishThread.holdsFor call) =
      c.shared.history.countP (MutexEvent.acquiredBy call)
  /-- Two transactions of a wallet have one nonce only when the earlier one failed. -/
  nonces : c.shared.transactions.Pairwise fun later earlier =>
    later.sender = earlier.sender → later.nonce = earlier.nonce → earlier ∈ c.shared.failed

/-- **Serial transactions.** In every interleaving of calls of `publish`, switches of the active
wallet and blocks of the chain, and for every outcome of each transaction. -/
theorem publish_serial (ethers : Ethers) (events : EventsInterface) (activeWallet : Wallet)
    (latest : String → ℕ) {c : Configuration PublishState PublishThread}
    (h : (publishProgram ethers events).Reachable (fun _ _ => True)
      ⟨PublishState.initial activeWallet latest, []⟩ c) : SerialTransactions c := by
  have hexclusive : ∀ {c}, (publishProgram ethers events).Reachable (fun _ _ => True)
      ⟨PublishState.initial activeWallet latest, []⟩ c → Exclusive c := fun hc sender =>
    holding_eq_locked hc ⟨rfl, rfl⟩
  have hasserts : Program.Asserts Serial (fun s thread => PublishThread.Relies s thread) c.shared
      c.threads := by
    refine (h.strengthen (J := Exclusive) fun _ => hexclusive).threads ?_ ?_ ?_
    · refine ⟨⟨fun _ _ => ⟨.nil, ?_⟩, List.Pairwise.nil⟩, by simp⟩
      intro transaction hmem
      cases hmem
    · intro publishCall s threads hs hallowed
      exact asserts_start hs.1 publishCall hallowed.2 hs.2
    · intro before thread after answer s next hs hallowed hnext
      exact asserts_resume hallowed.2 hs hnext
  obtain ⟨hserial, hrelies⟩ := hasserts
  have hlocked := hexclusive h
  refine ⟨fun sender => ?_, fun thread hthread hholding => (hrelies thread hthread hholding).1,
    fun sender hnone => ?_, fun call => ?_, hserial.nonces⟩
  · have hexecuting : ∀ thread ∈ c.threads,
        (thread.stage.executing && thread.sender == sender) = true → thread.holds sender = true := by
      intro thread _ hthread
      rw [Bool.and_eq_true] at hthread
      rw [PublishThread.holds, hthread.2, Bool.and_true]
      have hstage := hthread.1
      revert hstage
      cases thread.stage <;> simp [PublishStage.executing, PublishStage.holding]
    calc c.threads.countP (fun thread => thread.stage.executing && thread.sender == sender)
        ≤ c.threads.countP (PublishThread.holds sender) := List.countP_mono_left hexecuting
      _ = (c.shared.locked sender).toNat := by rw [← sum_toNat_eq_countP, hlocked sender]
      _ ≤ 1 := Bool.toNat_le _
  · have hfree : c.shared.locked sender = false := by
      have hsum := hlocked sender
      rw [sum_toNat_eq_countP, List.countP_eq_zero.2 (by simpa using hnone)] at hsum
      simpa using hsum.symm
    exact (hserial.free sender hfree).1
  · have hcounts := counts_reachable h rfl rfl (fun _ => rfl) call
    rw [sum_toNat_eq_countP] at hcounts
    exact hcounts

namespace DataBusSample

def firstWallet : Wallet := ⟨"0x3333333333333333333333333333333333333333"⟩

/-- Two calls wait for the transaction of a third, whose wait fails, while the active wallet is
switched; when the mutex is released one of them acquires it and sends the same nonce again. -/
def moves : List (Move PublishCall PublishAnswer) := [
  .start (.publish pauseMessage),
  .start (.publish pauseMessage),
  .start (.publish pauseMessage),
  .start (.selectWallet ⟨"0x6666666666666666666666666666666666666666"⟩),
  .start (.publish pauseMessage),
  .resume 0 .settled,
  .resume 0 .settled,
  .resume 0 (.count (.ok 7)),
  .resume 0 (.sent (.ok ())),
  .resume 0 (.confirmed (.error "timeout")),
  .resume 0 .settled,
  .resume 1 .settled,
  .resume 0 .settled,
  .resume 1 .settled,
  .resume 1 .settled,
  .resume 1 (.count (.ok 7))]

def start : Configuration PublishState PublishThread :=
  ⟨PublishState.initial firstWallet fun _ => 7, []⟩

def sampleRun : Option (Configuration PublishState PublishThread) :=
  (publishProgram PayloadsSample.sampleEthers sampleEvents).run (fun _ _ => true) start moves

theorem sampleRun_isSome : sampleRun.isSome = true := by
  decide +kernel

theorem publish_serial_sample :
    (sampleRun.get sampleRun_isSome).shared.transactions.map SentTransaction.nonce = [7, 7] ∧
      SerialTransactions (sampleRun.get sampleRun_isSome) := by
  constructor
  · decide +kernel
  · exact publish_serial PayloadsSample.sampleEthers sampleEvents firstWallet (fun _ => 7)
      (Program.Reachable.refl.run (fun _ _ _ => trivial) (Option.some_get sampleRun_isSome).symm)

end DataBusSample

end CouncilDaemon
