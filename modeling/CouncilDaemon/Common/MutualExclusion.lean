import CouncilDaemon.Common.OneAtTime
import CouncilDaemon.Lib.Interleaving

/-!
# Mutual exclusion

Calls of a method marked `OneAtTime`, in any interleaving. A call races its body against a timer, and
puts its flag down when the race is decided; a body that has lost the race is still in progress then.

A flag that is up stands for exactly one call whose race is not over (`Reachable.balanced`). So at any
time at most one of the bodies in progress under a lock is within its timeout, and once the calls have
ended a further one is executed (`excludes_within_timeout`). Of the bodies that have run into the
timeout, any number may be in progress (`two_in_progress`).
-/

namespace CouncilDaemon

namespace OneAtTime

/-! ## The decorated method -/

structure DecoratedMethod where
  propertyName : String
  timeout : ℕ := 600000

variable {α : Type}

/-- The flags, the errors that were logged, and what the calls returned; each list with the latest
entry first. -/
structure MethodState (α : Type) where
  flags : OneAtTime := {}
  errors : List String := []
  returned : List (Option α) := []

/-- A call of the method that was executed. -/
inductive Invocation (α : Type) where
  /-- The body and the timer are racing. -/
  | racing (callId : Option ℕ)
  /-- The race is decided, and the call goes on; the body may still be in progress. -/
  | raced (callId : Option ℕ) (outcome : Except String α) (bodyInProgress : Bool)
  /-- The call has ended, and its body is still in progress. -/
  | leftBehind (callId : Option ℕ)

inductive InvocationAnswer (α : Type) where
  /-- The body returns, or rejects or throws. -/
  | settled (outcome : Except String α)
  | timeout
  | continues

/-- A call up to its await of the race. -/
def call (callId : Option ℕ) (s : MethodState α) : MethodState α × List (Invocation α) :=
  if s.flags.busy callId then ({ s with returned := none :: s.returned }, [])
  else ({ s with flags := s.flags.enter callId }, [.racing callId])

/-- The `catch` and `finally` blocks. -/
def finish (callId : Option ℕ) (s : MethodState α) : Except String α → MethodState α
  | .ok value => { s with flags := s.flags.leave callId, returned := some value :: s.returned }
  | .error error => { s with
      flags := s.flags.leave callId
      errors := error :: s.errors
      returned := none :: s.returned }

namespace DecoratedMethod

variable (method : DecoratedMethod)

def timeoutError : String :=
  "Timeout: " ++ method.propertyName ++ " took longer than " ++ toString method.timeout ++ "ms"

def resume (s : MethodState α) : Invocation α → InvocationAnswer α →
    Option (MethodState α × List (Invocation α))
  | .racing callId, .settled outcome => some (s, [.raced callId outcome false])
  | .racing callId, .timeout => some (s, [.raced callId (.error method.timeoutError) true])
  | .raced callId outcome true, .settled _ => some (s, [.raced callId outcome false])
  | .raced callId outcome bodyInProgress, .continues =>
    some (finish callId s outcome, if bodyInProgress then [.leftBehind callId] else [])
  | .leftBehind _, .settled _ => some (s, [])
  | _, _ => none

def program (α : Type) : Program (MethodState α) (Option ℕ) (Invocation α) (InvocationAnswer α) where
  start callId s := call callId s
  resume invocation answer s := method.resume s invocation answer

end DecoratedMethod

/-! ## Locks -/

/-- The lock of a call: that of its id, or the single one without a truthy id. -/
def lockOf (callId : Option ℕ) : Option ℕ := callId.filter (· ≠ 0)

namespace Invocation

def callId : Invocation α → Option ℕ
  | racing callId => callId
  | raced callId _ _ => callId
  | leftBehind callId => callId

/-- The body is in progress. -/
def inProgress : Invocation α → Bool
  | racing _ => true
  | raced _ _ bodyInProgress => bodyInProgress
  | leftBehind _ => true

/-- The body is in progress and has not run into the timeout. -/
def withinTimeout : Invocation α → Bool
  | racing _ => true
  | raced .. => false
  | leftBehind _ => false

/-- The call has ended. -/
def ended : Invocation α → Bool
  | racing _ => false
  | raced .. => false
  | leftBehind _ => true

/-- The invocation is under `lock`. -/
def under (lock : Option ℕ) (invocation : Invocation α) : Bool := lockOf invocation.callId = lock

end Invocation

/-- A lock is held. -/
def held (flags : OneAtTime) : (lock : Option ℕ) → Bool
  | none => flags.isExecuting
  | some id => id ∈ flags.isExecutingMap

variable {flags : OneAtTime} {callId lock : Option ℕ}

/-- The flag of a call without a truthy id. -/
theorem lockOf_eq_none (h : callId.elim false (· ≠ 0) = false) : lockOf callId = none := by
  cases callId with
  | none => rfl
  | some id =>
    have hid : id = 0 := by simpa using h
    rw [hid]
    rfl

theorem lockOf_eq_self (h : callId.elim false (· ≠ 0) = true) :
    lockOf callId = some (callId.getD 0) := by
  cases callId with
  | none => cases h
  | some id =>
    have hid : id ≠ 0 := by simpa using h
    exact Option.filter_eq_some_iff.2 ⟨rfl, by simpa using hid⟩

theorem held_enter (flags : OneAtTime) (callId lock : Option ℕ) :
    held (flags.enter callId) lock = (decide (lockOf callId = lock) || held flags lock) := by
  unfold enter
  split_ifs with htruthy
  · rw [lockOf_eq_self htruthy]
    cases lock with
    | none => simp [held]
    | some id => simp [held, eq_comm]
  · rw [lockOf_eq_none (Bool.eq_false_iff.2 htruthy)]
    cases lock with
    | none => simp [held]
    | some id => simp [held]

theorem held_leave (flags : OneAtTime) (callId lock : Option ℕ) :
    held (flags.leave callId) lock = (decide (lockOf callId ≠ lock) && held flags lock) := by
  unfold leave
  split_ifs with htruthy
  · rw [lockOf_eq_self htruthy]
    cases lock with
    | none => simp [held]
    | some id =>
      rw [Bool.eq_iff_iff]
      simp only [held, Bool.and_eq_true, decide_eq_true_eq, List.mem_filter, ne_eq,
        Option.some.injEq]
      constructor
      · rintro ⟨hmem, hne⟩
        exact ⟨fun heq => hne heq.symm, hmem⟩
      · rintro ⟨hne, hmem⟩
        exact ⟨hmem, fun heq => hne heq.symm⟩
  · rw [lockOf_eq_none (Bool.eq_false_iff.2 htruthy)]
    cases lock with
    | none => simp [held]
    | some id => simp [held]

/-- A call is refused when its lock or the single one is held. -/
theorem busy_eq (flags : OneAtTime) (callId : Option ℕ) :
    flags.busy callId = (held flags (lockOf callId) || held flags none) := by
  by_cases htruthy : callId.elim false (· ≠ 0) = true
  · rw [lockOf_eq_self htruthy]
    cases callId with
    | none => cases htruthy
    | some id =>
      have hid : id ≠ 0 := by simpa using htruthy
      simp [busy, held, hid]
  · rw [lockOf_eq_none (Bool.eq_false_iff.2 htruthy)]
    cases callId with
    | none => simp [busy, held]
    | some id =>
      have hid : id = 0 := by simpa using htruthy
      simp [busy, held, hid]

/-! ## The balance of a lock -/

variable {method : DecoratedMethod} {c : Configuration (MethodState α) (Invocation α)}

/-- A call whose race is not over, or that has not gone on since, holds its lock. -/
def weight (lock : Option ℕ) (invocation : Invocation α) : ℕ :=
  if invocation.under lock && !invocation.ended then 1 else 0

theorem flags_finish (s : MethodState α) (outcome : Except String α) :
    (finish callId s outcome).flags = s.flags.leave callId := by
  cases outcome with
  | ok value => rfl
  | error error => rfl

theorem weight_cons (lock : Option ℕ) (invocation : Invocation α) :
    ([invocation].map (weight lock)).sum = weight lock invocation := by
  simp

/-- The race goes on, or is decided, or is over for the call. -/
theorem resume_cases {invocation : Invocation α} {answer : InvocationAnswer α} {s : MethodState α}
    {next : MethodState α × List (Invocation α)} (h : method.resume s invocation answer = some next) :
    (next.1 = s ∧ ∃ outcome bodyInProgress, invocation.ended = false ∧
      next.2 = [.raced invocation.callId outcome bodyInProgress]) ∨
    (next.1 = s ∧ invocation.ended = true ∧ next.2 = []) ∨
    (next.1.flags = s.flags.leave invocation.callId ∧ invocation.ended = false ∧
      ∀ left ∈ next.2, left = .leftBehind invocation.callId) := by
  cases invocation with
  | racing callId =>
    cases answer with
    | settled outcome =>
      cases h
      exact Or.inl ⟨rfl, outcome, false, rfl, rfl⟩
    | timeout =>
      cases h
      exact Or.inl ⟨rfl, _, true, rfl, rfl⟩
    | continues => cases h
  | raced callId outcome bodyInProgress =>
    cases answer with
    | settled other =>
      cases bodyInProgress with
      | false => cases h
      | true =>
        cases h
        exact Or.inl ⟨rfl, outcome, false, rfl, rfl⟩
    | timeout => cases bodyInProgress <;> cases h
    | continues =>
      right
      right
      cases bodyInProgress with
      | false =>
        cases h
        exact ⟨flags_finish s outcome, rfl, by simp⟩
      | true =>
        cases h
        exact ⟨flags_finish s outcome, rfl, by simp [Invocation.callId]⟩
  | leftBehind callId =>
    cases answer with
    | settled outcome =>
      cases h
      exact Or.inr (Or.inl ⟨rfl, rfl, rfl⟩)
    | timeout => cases h
    | continues => cases h

/-- **Balance.** A flag that is up stands for one call that has not ended. -/
theorem balanced (lock : Option ℕ) {allowed : Configuration (MethodState α) (Invocation α) →
      Move (Option ℕ) (InvocationAnswer α) → Prop}
    (h : (method.program α).Reachable allowed ⟨{}, []⟩ c) :
    (c.threads.map (weight lock)).sum = (held c.shared.flags lock).toNat := by
  have hbalance := h.balance (weight lock) (fun s => (held s.flags lock).toNat) (fun _ => 0) ?_ ?_ ?_
  · rwa [Nat.zero_add] at hbalance
  · cases lock with
    | none => rfl
    | some id => rfl
  · intro callId s threads _
    show 0 + (((call callId s).2).map (weight lock)).sum + (held s.flags lock).toNat =
      (held (call callId s).1.flags lock).toNat + 0
    unfold call
    split_ifs with hbusy
    · simp
    · rw [busy_eq, Bool.or_eq_true, not_or] at hbusy
      show 0 + ([Invocation.racing callId].map (weight lock)).sum + _ =
        (held (s.flags.enter callId) lock).toNat + 0
      rw [held_enter, weight_cons]
      by_cases hlock : lockOf callId = lock
      · subst hlock
        simp [weight, Invocation.under, Invocation.ended, Invocation.callId, hbusy.1]
      · simp [weight, Invocation.under, Invocation.ended, Invocation.callId, hlock]
  · intro before thread after answer s next _ hnext hheld
    rcases resume_cases hnext with ⟨hsame, outcome, bodyInProgress, hended, hleft⟩ |
      ⟨hsame, hended, hleft⟩ | ⟨hflags, hended, hleft⟩
    · have hweight : weight lock (.raced thread.callId outcome bodyInProgress) =
          weight lock thread := by
        unfold weight Invocation.under
        rw [hended]
        rfl
      rw [hsame, hleft, weight_cons, hweight]
      omega
    · have hweight : weight lock thread = 0 := by
        simp [weight, hended]
      rw [hsame, hleft, hweight]
      simp
    · have hnone : (next.2.map (weight lock)).sum = 0 := by
        rw [List.sum_eq_zero_iff]
        intro w hw
        obtain ⟨left, hmem, rfl⟩ := List.mem_map.1 hw
        rw [hleft left hmem]
        simp [weight, Invocation.ended]
      rw [hnone, hflags, held_leave]
      by_cases hlock : lockOf thread.callId = lock
      · have hone : weight lock thread = 1 := by
          simp [weight, Invocation.under, hended, hlock]
        rw [hone] at hheld ⊢
        have hheld' : held s.flags lock = true := by
          by_contra hnot
          rw [Bool.eq_false_iff.2 hnot] at hheld
          cases hheld
        simp [hlock, hheld']
      · have hzero : weight lock thread = 0 := by
          simp [weight, Invocation.under, hlock]
        rw [hzero]
        simp [hlock]

/-! ## Exclusion -/

theorem countP_le_weight (lock : Option ℕ) (threads : List (Invocation α)) :
    threads.countP (fun invocation => invocation.under lock && invocation.withinTimeout) ≤
      (threads.map (weight lock)).sum := by
  induction threads with
  | nil => exact le_rfl
  | cons invocation threads ih =>
    rw [List.countP_cons, List.map_cons, List.sum_cons]
    have hone : (if (invocation.under lock && invocation.withinTimeout) = true then 1 else 0) ≤
        weight lock invocation := by
      unfold weight
      cases invocation with
      | racing callId => exact le_rfl
      | raced callId outcome bodyInProgress => simp [Invocation.withinTimeout]
      | leftBehind callId => simp [Invocation.withinTimeout]
    omega

/-- **Exclusion.** In every run: of the bodies in progress under a lock, at most one is within its
timeout; and once the calls have ended, a further one is executed. -/
theorem excludes_within_timeout (method : DecoratedMethod)
    {c : Configuration (MethodState α) (Invocation α)}
    (h : (method.program α).Reachable (fun _ _ => True) ⟨{}, []⟩ c) :
    (∀ lock, c.threads.countP (fun invocation =>
      invocation.under lock && invocation.withinTimeout) ≤ 1) ∧
    ((∀ invocation ∈ c.threads, invocation.ended = true) → ∀ callId,
      ((method.program α).start callId c.shared).2 = [.racing callId]) := by
  refine ⟨fun lock => ?_, fun hended callId => ?_⟩
  · have hle := countP_le_weight lock c.threads
    rw [balanced lock h] at hle
    have hone := Bool.toNat_le (held c.shared.flags lock)
    omega
  · have hfree : ∀ lock, held c.shared.flags lock = false := by
      intro lock
      have hsum := balanced lock h
      have hzero : (c.threads.map (weight lock)).sum = 0 := by
        rw [List.sum_eq_zero_iff]
        intro w hw
        obtain ⟨invocation, hmem, rfl⟩ := List.mem_map.1 hw
        simp [weight, hended invocation hmem]
      rw [hzero] at hsum
      exact Bool.eq_false_iff.2 fun hheld => by simp [hheld] at hsum
    show (call callId c.shared).2 = _
    unfold call
    rw [if_neg]
    rw [busy_eq, hfree, hfree]
    exact Bool.false_ne_true

/-! ## Two runs -/

def handleKeysMethod : DecoratedMethod where
  propertyName := "handleKeys"

/-- A call whose body returns, a second one that is refused meanwhile, and the end of the first. -/
def returningMoves : List (Move (Option ℕ) (InvocationAnswer Unit)) :=
  [.start (some 3), .resume 0 (.settled (.ok ())), .start (some 3), .resume 0 .continues]

theorem returning_run : ((handleKeysMethod.program Unit).run (fun _ _ => true) ⟨{}, []⟩
    returningMoves).isSome = true := rfl

theorem excludes_within_timeout_sample :
    ((handleKeysMethod.program Unit).start (some 3) (Option.get _ returning_run).shared).2 =
      [.racing (some 3)] :=
  (excludes_within_timeout handleKeysMethod (Program.Reachable.refl.run (fun _ _ _ => trivial)
    (Option.some_get returning_run).symm)).2 (by simp [show (Option.get _ returning_run).threads = []
      from rfl]) (some 3)

/-- After a timeout two bodies are in progress at the same time; and a call is refused when the body
before it has settled, until the call of that body has gone on. -/
theorem two_in_progress :
    (∃ c, (handleKeysMethod.program Unit).Reachable (fun _ _ => True) ⟨{}, []⟩ c ∧
      c.threads.countP (fun invocation => invocation.under none && invocation.inProgress) = 2) ∧
    ∃ c, (handleKeysMethod.program Unit).Reachable (fun _ _ => True) ⟨{}, []⟩ c ∧
      (∀ invocation ∈ c.threads, invocation.inProgress = false) ∧
      ((handleKeysMethod.program Unit).start none c.shared).2 = [] := by
  constructor
  · have hrun : (handleKeysMethod.program Unit).run (fun _ _ => true) ⟨{}, []⟩
        [.start none, .resume 0 .timeout, .resume 0 .continues, .start none] = some _ := rfl
    exact ⟨_, Program.Reachable.refl.run (fun _ _ _ => trivial) hrun, rfl⟩
  · have hrun : (handleKeysMethod.program Unit).run (fun _ _ => true) ⟨{}, []⟩
        [.start none, .resume 0 (.settled (.ok ()))] = some _ := rfl
    refine ⟨_, Program.Reachable.refl.run (fun _ _ _ => trivial) hrun, ?_, rfl⟩
    intro invocation hmem
    obtain rfl := List.mem_singleton.1 hmem
    rfl

end OneAtTime

end CouncilDaemon
