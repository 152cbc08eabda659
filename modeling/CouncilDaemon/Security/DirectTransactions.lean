import CouncilDaemon.Common.SharedLocks
import CouncilDaemon.Security.SignerConsistency

/-!
# Direct transactions one at a time

`pauseDeposits` and `unvetSigningKeys` are marked `OneAtTime`, the second one by its staking module. In any
interleaving of the calls of the security service, each of the two is used like a method with these flags
(`refines_method`). So a flag is up exactly while one call of its lock has neither ended nor run into the
timeout, and these are the calls for which a further one is refused (`transactions_one_at_a_time`).
-/

namespace CouncilDaemon

namespace SecurityService

open Service OneAtTime

/-! ## What a call holds -/

/-- The calls of one and the same method. -/
def TransactionMethod.shares : TransactionMethod → TransactionMethod → Bool
  | pauseDeposits, pauseDeposits => true
  | unvetSigningKeys _, unvetSigningKeys _ => true
  | _, _ => false

/-- The method, as `OneAtTime` decorates it. -/
def TransactionMethod.decorated : TransactionMethod → DecoratedMethod
  | pauseDeposits => { propertyName := "pauseDeposits" }
  | unvetSigningKeys _ => { propertyName := "unvetSigningKeys" }

/-- The invocation of `method` that a transaction belongs to, until its flag is taken down. -/
def TransactionThread.invocations (method : TransactionMethod) :
    TransactionThread → List (Invocation Unit)
  | waiting other => if method.shares other then [.racing other.callId] else []
  | timedOut => []
  | leaving other => if method.shares other then [.raced other.callId (.ok ()) false] else []

def SecurityThread.invocations (method : TransactionMethod) : SecurityThread → List (Invocation Unit)
  | transaction thread => thread.invocations method
  | _ => []

/-- The transaction of a call of the method waits under the lock, or has ended and its flag is about to be
taken down. -/
def SecurityThread.holdsLock (method : TransactionMethod) (lock : Option ℕ) : SecurityThread → Bool
  | transaction (.waiting other) => method.shares other && lockOf other.callId = lock
  | transaction (.leaving other) => method.shares other && lockOf other.callId = lock
  | _ => false

section Locks

variable {deps : SecurityDeps} {s t : SecurityState} {method : TransactionMethod}

theorem TransactionMethod.flags_eq {other : TransactionMethod} (h : method.shares other = true)
    (s : SecurityState) : other.flags s = method.flags s := by
  cases method <;> cases other <;> first | rfl | cases h

theorem TransactionMethod.flags_setFlags (method other : TransactionMethod) (flags : OneAtTime)
    (s : SecurityState) :
    method.flags (other.setFlags flags s) = if method.shares other then flags else method.flags s := by
  cases method <;> cases other <;> rfl

theorem invocations_waiting (method other : TransactionMethod) :
    (TransactionThread.waiting other).invocations method =
      if method.shares other then [.racing other.callId] else [] := rfl

theorem invocations_leaving (method other : TransactionMethod) :
    (TransactionThread.leaving other).invocations method =
      if method.shares other then [.raced other.callId (.ok ()) false] else [] := rfl

theorem weight_invocations (lock : Option ℕ) (thread : SecurityThread) :
    ((thread.invocations method).map (weight lock)).sum = (thread.holdsLock method lock).toNat := by
  cases thread with
  | context thread => rfl
  | sign thread => rfl
  | transaction thread =>
    cases thread with
    | timedOut => rfl
    | waiting other =>
      by_cases hshares : method.shares other = true
      · by_cases hlock : lockOf other.callId = lock <;>
          simp [SecurityThread.invocations, TransactionThread.invocations, SecurityThread.holdsLock,
            hshares, hlock, weight, Invocation.under, Invocation.callId, Invocation.ended]
      · simp [SecurityThread.invocations, TransactionThread.invocations, SecurityThread.holdsLock,
          hshares]
    | leaving other =>
      by_cases hshares : method.shares other = true
      · by_cases hlock : lockOf other.callId = lock <;>
          simp [SecurityThread.invocations, TransactionThread.invocations, SecurityThread.holdsLock,
            hshares, hlock, weight, Invocation.under, Invocation.callId, Invocation.ended]
      · simp [SecurityThread.invocations, TransactionThread.invocations, SecurityThread.holdsLock,
          hshares]

theorem sum_weight_invocations (lock : Option ℕ) (threads : List SecurityThread) :
    ((threads.flatMap (SecurityThread.invocations method)).map (weight lock)).sum =
      threads.countP (SecurityThread.holdsLock method lock) := by
  induction threads with
  | nil => rfl
  | cons thread threads ih =>
    rw [List.flatMap_cons, List.map_append, List.sum_append, weight_invocations, ih, List.countP_cons,
      Nat.add_comm]
    cases thread.holdsLock method lock <;> rfl

/-! ## Flags -/

/-- The flags are as they were. -/
def SameFlags (s t : SecurityState) : Prop :=
  t.pauseDeposits = s.pauseDeposits ∧ t.unvetSigningKeys = s.unvetSigningKeys

theorem SameFlags.flags (h : SameFlags s t) (method : TransactionMethod) :
    method.flags t = method.flags s := by
  cases method with
  | pauseDeposits => exact h.1
  | unvetSigningKeys stakingModuleId => exact h.2

theorem Selected.sameFlags {selects : Option Wallet} (h : Selected selects s t) : SameFlags s t := by
  rcases h with rfl | ⟨wallet, _, rfl⟩
  · exact ⟨rfl, rfl⟩
  · exact ⟨rfl, rfl⟩

/-- A call that finds its flag raised is refused; another one enters, and waits or is about to leave. -/
theorem triple_callTransaction_flags (context : GuardianExecutionContext) (call : DirectCall) :
    Triple (· = s) (callTransaction deps context call)
      (fun next t => if (call.method.flags s).busy call.method.callId then next = none ∧ t = s
        else (next = some (.waiting call.method) ∨ next = some (.leaving call.method)) ∧
          SameFlags (call.method.setFlags ((call.method.flags s).enter call.method.callId) s) t)
      (fun _ => False) := by
  unfold callTransaction
  refine Triple.bind (triple_get (Q := fun a t => a = s ∧ t = s)
    (by rintro t rfl; exact ⟨rfl, rfl⟩)) fun a => ?_
  rintro t ⟨rfl, rfl⟩
  by_cases hbusy : (call.method.flags t).busy call.method.callId = true
  · simp only [if_pos hbusy]
    exact triple_pure (P := (· = t)) (fun _ ht => ⟨rfl, ht⟩) t rfl
  simp only [if_neg hbusy]
  refine (Triple.bind (P := (· = t)) (Q := fun _ t' => t' =
    call.method.setFlags ((call.method.flags t).enter call.method.callId) t) ?_ fun _ => ?_) t rfl
  · intro u _
    exact ⟨fun _ _ hrun => (by cases hrun; rfl), fun _ _ hrun => (by cases hrun)⟩
  refine Triple.tryCatch (F := SameFlags
    (call.method.setFlags ((call.method.flags t).enter call.method.callId) t)) ?_ fun e => ?_
  · refine Triple.bind ((triple_sendTransaction call).mono (fun _ h => h) (fun _ _ h => h)
      fun _ h => h.sameFlags) fun _ => triple_pure ?_
    rintro u ⟨wallet, contract, _, _, rfl⟩
    exact ⟨Or.inl rfl, rfl, rfl⟩
  · exact triple_pure fun u hu => ⟨Or.inr rfl, hu⟩

/-! ## Refinement -/

variable (method) in
/-- The calls of the method reach a state with the flags of `s`, and hold `invocations`. -/
def Holds (d : Configuration (MethodState Unit) (Invocation Unit)) (s : SecurityState)
    (invocations : List (Invocation Unit)) : Prop :=
  ∃ u, u.flags = method.flags s ∧ (method.decorated.program Unit).Reaches d u invocations

variable {d : Configuration (MethodState Unit) (Invocation Unit)} {others : List (Invocation Unit)}

theorem Holds.sameFlags (h : Holds method d s others) (hflags : SameFlags s t) :
    Holds method d t others := by
  obtain ⟨u, hu, hreach⟩ := h
  exact ⟨u, hu.trans (hflags.flags method).symm, hreach⟩

/-- A segment after which the flags are as before, and no transaction waits. -/
theorem Holds.segment {α : Type} {m : Service SecurityState α} {threads : α → List SecurityThread}
    {Q : α → SecurityState → Prop} {E : SecurityState → Prop} (h : Holds method d s others)
    (hm : Triple (· = s) m Q E) (hQ : ∀ a t, Q a t → SameFlags s t)
    (hthreads : ∀ a, (threads a).flatMap (SecurityThread.invocations method) = [])
    (hE : ∀ t, E t → SameFlags s t) :
    Holds method d (Program.segment (do let a ← m; return threads a) s).1
      ((Program.segment (do let a ← m; return threads a) s).2.flatMap
        (SecurityThread.invocations method) ++ others) := by
  have hasserts : Triple (· = s) (do let a ← m; return threads a)
      (fun next t => SameFlags s t ∧ next.flatMap (SecurityThread.invocations method) = [])
      (SameFlags s) :=
    Triple.bind (hm.mono (fun _ h => h) (fun _ _ h => h) hE) fun a =>
      triple_pure fun t ht => ⟨hQ a t ht, hthreads a⟩
  obtain ⟨hok, herror⟩ := hasserts s rfl
  unfold Program.segment
  cases hrun : EStateM.run (do let a ← m; return threads a) s with
  | ok next t =>
    obtain ⟨hflags, hnone⟩ := hok next t hrun
    show Holds method d t (next.flatMap (SecurityThread.invocations method) ++ others)
    rw [hnone]
    exact h.sameFlags hflags
  | error e t => exact h.sameFlags (herror e t hrun)

/-- A direct call. -/
theorem Holds.called (h : Holds method d s others) (context : GuardianExecutionContext)
    (call : DirectCall) :
    Holds method d (Program.segment (do
        let thread ← callTransaction deps context call
        return thread.toList.map SecurityThread.transaction) s).1
      ((Program.segment (do
        let thread ← callTransaction deps context call
        return thread.toList.map SecurityThread.transaction) s).2.flatMap
          (SecurityThread.invocations method) ++ others) := by
  have hcall : Triple (· = s) (do
        let thread ← callTransaction deps context call
        return thread.toList.map SecurityThread.transaction)
      (fun next t => Holds method d t (next.flatMap (SecurityThread.invocations method) ++ others))
      (fun _ => False) := by
    refine Triple.bind (triple_callTransaction_flags context call) fun thread => triple_pure ?_
    intro t ht
    obtain ⟨u, hu, hreach⟩ := h
    by_cases hbusy : (call.method.flags s).busy call.method.callId = true
    · rw [if_pos hbusy] at ht
      obtain ⟨rfl, rfl⟩ := ht
      exact ⟨u, hu, hreach⟩
    rw [if_neg hbusy] at ht
    obtain ⟨hthread, hflags⟩ := ht
    have hset : method.flags t = if method.shares call.method then
        (call.method.flags s).enter call.method.callId else method.flags s := by
      rw [hflags.flags, TransactionMethod.flags_setFlags]
    by_cases hshares : method.shares call.method = true
    · rw [if_pos hshares] at hset
      have hfree : ¬ u.flags.busy call.method.callId = true := by
        rw [hu, ← TransactionMethod.flags_eq hshares]
        exact hbusy
      have hentered := reaches_entered hreach hfree
      have hnow : ({ u with flags := u.flags.enter call.method.callId } : MethodState Unit).flags =
          method.flags t := by
        rw [hset, TransactionMethod.flags_eq hshares, ← hu]
      rcases hthread with rfl | rfl
      · refine ⟨_, hnow, ?_⟩
        simpa [SecurityThread.invocations, TransactionThread.invocations, hshares] using hentered
      · refine ⟨_, hnow, ?_⟩
        simpa [SecurityThread.invocations, TransactionThread.invocations, hshares] using
          reaches_settled hentered (.ok ())
    · rw [if_neg hshares] at hset
      refine ⟨u, hu.trans hset.symm, ?_⟩
      rcases hthread with rfl | rfl
      · simpa [SecurityThread.invocations, TransactionThread.invocations, hshares] using hreach
      · simpa [SecurityThread.invocations, TransactionThread.invocations, hshares] using hreach
  obtain ⟨hok, herror⟩ := hcall s rfl
  unfold Program.segment
  cases hrun : EStateM.run (do
      let thread ← callTransaction deps context call
      return thread.toList.map SecurityThread.transaction) s with
  | ok next t => exact hok next t hrun
  | error e t => exact (herror e t hrun).elim

/-- The flag of a call is taken down, once its invocation has gone. -/
theorem Holds.takenDown {other : TransactionMethod} {v : MethodState Unit}
    (hv : method.shares other = true → v.flags = (method.flags s).leave other.callId)
    (hnot : method.shares other = false → v.flags = method.flags s)
    (hreach : (method.decorated.program Unit).Reaches d v others) :
    Holds method d (other.setFlags ((other.flags s).leave other.callId) s) others := by
  refine ⟨v, ?_, hreach⟩
  rw [TransactionMethod.flags_setFlags]
  by_cases hshares : method.shares other = true
  · rw [if_pos hshares, TransactionMethod.flags_eq hshares]
    exact hv hshares
  · rw [if_neg hshares]
    exact hnot (Bool.eq_false_iff.2 hshares)

theorem Holds.resumed {thread : TransactionThread} {answer : TransactionAnswer}
    {m : Service SecurityState (Option TransactionThread)} (hm : thread.resume answer = some m)
    (h : Holds method d s (thread.invocations method ++ others)) :
    Holds method d (Program.segment (do
        let next ← m
        return next.toList.map SecurityThread.transaction) s).1
      ((Program.segment (do
        let next ← m
        return next.toList.map SecurityThread.transaction) s).2.flatMap
          (SecurityThread.invocations method) ++ others) := by
  obtain ⟨u, hu, hreach⟩ := h
  cases thread with
  | timedOut =>
    cases answer with
    | settled =>
      cases hm
      exact ⟨u, hu, hreach⟩
    | timeout => cases hm
  | waiting other =>
    cases answer with
    | settled =>
      cases hm
      refine ⟨u, hu, ?_⟩
      show (method.decorated.program Unit).Reaches d u
        (List.flatMap (SecurityThread.invocations method) [.transaction (.leaving other)] ++ others)
      rw [List.flatMap_singleton]
      show (method.decorated.program Unit).Reaches d u
        ((TransactionThread.leaving other).invocations method ++ others)
      rw [invocations_waiting] at hreach
      rw [invocations_leaving]
      split_ifs at hreach ⊢
      · exact reaches_settled hreach (.ok ())
      · exact hreach
    | timeout =>
      cases hm
      show Holds method d (other.setFlags ((other.flags s).leave other.callId) s) others
      rw [invocations_waiting] at hreach
      split_ifs at hreach with hshares
      · obtain ⟨v, hv, hleft⟩ := reaches_timeout hreach
        exact Holds.takenDown (fun _ => by rw [hv, hu]) (fun hnot => by rw [hshares] at hnot; cases hnot)
          (reaches_ended hleft (.ok ()))
      · exact Holds.takenDown (fun hyes => absurd hyes hshares) (fun _ => hu) hreach
  | leaving other =>
    cases answer with
    | settled =>
      cases hm
      show Holds method d (other.setFlags ((other.flags s).leave other.callId) s) others
      rw [invocations_leaving] at hreach
      split_ifs at hreach with hshares
      · obtain ⟨v, hv, hleft⟩ := reaches_left hreach
        exact Holds.takenDown (fun _ => by rw [hv, hu]) (fun hnot => by rw [hshares] at hnot; cases hnot)
          hleft
      · exact Holds.takenDown (fun hyes => absurd hyes hshares) (fun _ => hu) hreach
    | timeout => cases hm

variable (deps method) in
/-- **Refinement.** The security service uses each of the two methods as `OneAtTime` decorates it. -/
theorem refines_method : Program.Refines (securityProgram deps) (method.decorated.program Unit)
    (fun s u => u.flags = method.flags s) (SecurityThread.invocations method) := by
  have hsame : ∀ {s t : SecurityState}, t = s → SameFlags s t := by
    rintro s _ rfl
    exact ⟨rfl, rfl⟩
  constructor
  · intro call s d u others hu hreach
    have h : Holds method d s others := ⟨u, hu, hreach⟩
    have hsign : ∀ request context, Holds method d
        (Program.segment (do
          let thread ← getMessagePrefix request context
          return [SecurityThread.sign thread]) s).1
        ((Program.segment (do
          let thread ← getMessagePrefix request context
          return [SecurityThread.sign thread]) s).2.flatMap (SecurityThread.invocations method) ++
            others) := fun request context =>
      h.segment (triple_getMessagePrefix request context) (fun _ _ h => hsame h.2.2.2) (fun _ => rfl)
        fun _ => hsame
    cases call with
    | getGuardianExecutionContext =>
      exact h.segment triple_getGuardianExecutionContext (fun _ _ h => hsame h.2) (fun _ => rfl)
        fun _ => hsame
    | signDepositData depositRoot nonce blockNumber blockHash stakingModuleId context =>
      exact hsign _ _
    | signPauseData blockNumber blockHash context => exact hsign _ _
    | signUnvetData nonce blockNumber blockHash stakingModuleId operatorIds vettedKeysByOperator
        context => exact hsign _ _
    | pauseDeposits pauseBlockNumber signature context => exact h.called context _
    | unvetSigningKeys nonce blockNumber blockHash stakingModuleId operatorIds vettedKeysByOperator
        signature context => exact h.called context _
    | setDSMContractCache address => exact ⟨u, by cases method <;> exact hu, hreach⟩
  · intro thread answer s next d u others hnext hu hreach
    obtain ⟨m, hm, rfl⟩ := Option.map_eq_some_iff.1 hnext
    have h : Holds method d s (thread.invocations method ++ others) := ⟨u, hu, hreach⟩
    cases thread with
    | context thread =>
      cases answer with
      | context answer =>
        simp only [SecurityThread.resume, Option.bind_eq_bind, Option.bind_eq_some_iff,
          Option.pure_def, Option.some.injEq] at hm
        obtain ⟨m', hm', rfl⟩ := hm
        exact Holds.segment h (triple_contextResume hm')
          (fun _ _ h => h.1.sameFlags) (fun r => by cases r <;> rfl) fun _ h => h.sameFlags
      | messagePrefix answer => cases hm
      | transaction answer => cases hm
    | sign thread =>
      cases answer with
      | context answer => cases hm
      | messagePrefix answer =>
        cases hm
        refine Holds.segment h (triple_signResume thread answer) ?_ (fun _ => rfl) fun _ h => h.sameFlags
        rintro _ t ⟨messagePrefix, wallet, bytes, _, _, _, _, rfl⟩
        exact ⟨rfl, rfl⟩
      | transaction answer => cases hm
    | transaction thread =>
      cases answer with
      | context answer => cases hm
      | messagePrefix answer => cases hm
      | transaction answer =>
        simp only [SecurityThread.resume, Option.bind_eq_bind, Option.bind_eq_some_iff,
          Option.pure_def, Option.some.injEq] at hm
        obtain ⟨m', hm', rfl⟩ := hm
        exact Holds.resumed hm' h

/-! ## Main result -/

theorem run_callTransaction_none_iff (context : GuardianExecutionContext) (call : DirectCall) :
    EStateM.run (callTransaction deps context call) s = .ok none s ↔
      (call.method.flags s).busy call.method.callId = true := by
  have hflags : Triple (· = s) (callTransaction deps context call) _ _ :=
    triple_callTransaction_flags context call
  obtain ⟨hok, herror⟩ := hflags s rfl
  constructor
  · intro hrun
    by_contra hbusy
    have hnext := hok none s hrun
    simp only [if_neg hbusy] at hnext
    rcases hnext.1 with hwaiting | hleaving
    · cases hwaiting
    · cases hleaving
  · intro hbusy
    cases hrun : EStateM.run (callTransaction deps context call) s with
    | ok next t =>
      have hnext := hok next t hrun
      simp only [if_pos hbusy] at hnext
      rw [hnext.1, hnext.2]
    | error e t => exact (herror e t hrun).elim

/-- The locks of one of the methods, in any state that the service comes to. -/
theorem holdsLock_balanced (dsmContract : Option String) (activeWallet : Option Wallet)
    {c : Configuration SecurityState SecurityThread}
    (h : (securityProgram deps).Reachable (fun _ _ => True)
      ⟨{ dsmContract := dsmContract, activeWallet := activeWallet }, []⟩ c)
    (method : TransactionMethod) (lock : Option ℕ) :
    c.threads.countP (SecurityThread.holdsLock method lock) =
      (held (method.flags c.shared) lock).toNat := by
  rw [← sum_weight_invocations]
  exact locks_balanced (refines_method deps method) h (by cases method <;> rfl) rfl lock

variable (deps) in
/-- **One at a time.** In every interleaving of calls of the security service: the flag of a lock is up
exactly while one call of the method holds it, and never more than one does; and a further call is refused,
and changes nothing, exactly when a call holds its lock or the common one. -/
theorem transactions_one_at_a_time (dsmContract : Option String) (activeWallet : Option Wallet)
    {c : Configuration SecurityState SecurityThread}
    (h : (securityProgram deps).Reachable (fun _ _ => True)
      ⟨{ dsmContract := dsmContract, activeWallet := activeWallet }, []⟩ c) :
    (∀ method lock, c.threads.countP (SecurityThread.holdsLock method lock) =
      (held (method.flags c.shared) lock).toNat) ∧
    ∀ context (call : DirectCall),
      EStateM.run (callTransaction deps context call) c.shared = .ok none c.shared ↔
        ∃ thread ∈ c.threads, thread.holdsLock call.method (lockOf call.method.callId) = true ∨
          thread.holdsLock call.method none = true := by
  have hbalanced := holdsLock_balanced dsmContract activeWallet h
  have hheld : ∀ method lock, held (method.flags c.shared) lock = true ↔
      ∃ thread ∈ c.threads, thread.holdsLock method lock = true := by
    intro method lock
    rw [← List.countP_pos_iff, hbalanced]
    cases held (method.flags c.shared) lock <;> simp
  refine ⟨hbalanced, fun context call => ?_⟩
  rw [run_callTransaction_none_iff, busy_eq, Bool.or_eq_true, hheld, hheld]
  constructor
  · rintro (⟨thread, hmem, hlock⟩ | ⟨thread, hmem, hlock⟩)
    · exact ⟨thread, hmem, Or.inl hlock⟩
    · exact ⟨thread, hmem, Or.inr hlock⟩
  · rintro ⟨thread, hmem, hlock | hlock⟩
    · exact Or.inl ⟨thread, hmem, hlock⟩
    · exact Or.inr ⟨thread, hmem, hlock⟩

end Locks

/-! ## A sample -/

namespace SecuritySample

def signature : Signature := ⟨"0x", "0x", "0x", 27⟩

/-- A pause runs into its timeout, and a second one and an unvetting of the module 1 wait. -/
def transactionMoves : List (Move SecurityCall SecurityAnswer) := [
  .start (.pauseDeposits 17 signature legacy),
  .start (.pauseDeposits 18 signature delegate),
  .resume 0 (.transaction .timeout),
  .start (.pauseDeposits 19 signature delegate),
  .start (.unvetSigningKeys 1 19 "0xaa" 1 "0x" "0x" signature legacy)]

theorem transaction_run : ((securityProgram deps).run (fun _ _ => true) start transactionMoves).isSome =
    true := by
  decide +kernel

theorem transactions_one_at_a_time_sample :
    (Option.get _ transaction_run).threads.countP (SecurityThread.holdsLock .pauseDeposits none) = 1 ∧
    EStateM.run (callTransaction deps legacy (.unvetSigningKeys ⟨2, 20, "0xbb", 1, "0x", "0x"⟩ signature))
      (Option.get _ transaction_run).shared = .ok none (Option.get _ transaction_run).shared ∧
    ¬ EStateM.run (callTransaction deps legacy (.unvetSigningKeys ⟨2, 20, "0xbb", 2, "0x", "0x"⟩ signature))
      (Option.get _ transaction_run).shared = .ok none (Option.get _ transaction_run).shared := by
  obtain ⟨hlocks, hrefused⟩ := transactions_one_at_a_time deps
    (some "0x4444444444444444444444444444444444444444") none
    (Program.Reachable.refl.run (fun _ _ _ => trivial) (Option.some_get transaction_run).symm)
  refine ⟨?_, ?_, ?_⟩
  · rw [hlocks]
    decide +kernel
  · rw [hrefused]
    decide +kernel
  · rw [hrefused]
    decide +kernel

end SecuritySample

end SecurityService

end CouncilDaemon
