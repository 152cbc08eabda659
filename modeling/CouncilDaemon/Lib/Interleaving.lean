import CouncilDaemon.Lib.Service

/-!
# Interleaved calls

Asynchronous calls over one shared state. A call runs alone up to its next await and waits there as
a thread; a thread that is resumed with an answer runs alone up to its next await. A run starts calls
and resumes threads in any order.

Five rules carry a property over a run: an invariant of the configurations, an assertion that each
thread relies on and the others keep, a quantity of which the threads hold what was gained and not
lost again, one of which they hold no more than there is room for, and one of which what they hold and
what was spent is no more than was issued (`Reachable.invariant`, `Reachable.threads`,
`Reachable.balance`, `Reachable.bounded`, `Reachable.issued`).
-/

/-- How a call starts, and how a thread goes on with an answer. Both give the shared state and the
threads that wait then; `resume` is `none` where the thread does not wait for that answer. -/
structure Program (σ κ τ α : Type) where
  start : κ → σ → σ × List τ
  resume : τ → α → σ → Option (σ × List τ)

structure Configuration (σ τ : Type) where
  shared : σ
  threads : List τ
  deriving DecidableEq

inductive Move (κ α : Type) where
  | start (call : κ)
  | resume (index : ℕ) (answer : α)

namespace Program

variable {σ κ τ α : Type} (p : Program σ κ τ α)

/-- A segment of a call, as a method that returns the threads that wait then. A throw ends the
call. -/
def segment (m : Service σ (List τ)) (s : σ) : σ × List τ :=
  match EStateM.run m s with
  | .ok threads t => (t, threads)
  | .error _ t => (t, [])

/-- A step. What becomes of the resumed thread stands in its place. -/
def step (c : Configuration σ τ) : Move κ α → Option (Configuration σ τ)
  | .start call =>
    some { shared := (p.start call c.shared).1, threads := c.threads ++ (p.start call c.shared).2 }
  | .resume index answer => do
    let thread ← c.threads[index]?
    let next ← p.resume thread answer c.shared
    return { shared := next.1, threads := c.threads.take index ++ (next.2 ++ c.threads.drop (index + 1)) }

/-- The steps one after the other, each of which passes the guard. -/
def run (guard : Configuration σ τ → Move κ α → Bool) (c : Configuration σ τ) :
    List (Move κ α) → Option (Configuration σ τ)
  | [] => some c
  | move :: moves => do
    if guard c move then
      let next ← p.step c move
      run guard next moves
    else none

/-- The steps that a run takes, each with the configuration it starts from. -/
def trace (guard : Configuration σ τ → Move κ α → Bool) (c : Configuration σ τ) :
    List (Move κ α) → List (Configuration σ τ × Move κ α)
  | [] => []
  | move :: moves =>
    if guard c move then
      match p.step c move with
      | none => []
      | some next => (c, move) :: trace guard next moves
    else []

/-- The configurations reached from `init` by steps that are all allowed. -/
inductive Reachable (allowed : Configuration σ τ → Move κ α → Prop) (init : Configuration σ τ) :
    Configuration σ τ → Prop where
  | refl : Reachable allowed init init
  | step {c c' : Configuration σ τ} {move : Move κ α} : Reachable allowed init c →
      allowed c move → p.step c move = some c' → Reachable allowed init c'

variable {p} {allowed : Configuration σ τ → Move κ α → Prop} {init c c' : Configuration σ τ}

/-! ## Steps -/

/-- What a step does. -/
theorem step_cases {move : Move κ α} (h : p.step c move = some c') :
    (∃ call, move = .start call ∧ c' = ⟨(p.start call c.shared).1,
      c.threads ++ (p.start call c.shared).2⟩) ∨
    ∃ before thread after answer next, move = .resume before.length answer ∧
      c.threads = before ++ thread :: after ∧ p.resume thread answer c.shared = some next ∧
      c' = ⟨next.1, before ++ (next.2 ++ after)⟩ := by
  cases move with
  | start call => exact Or.inl ⟨call, rfl, (Option.some.inj h).symm⟩
  | resume index answer =>
    right
    simp only [step, Option.bind_eq_bind, Option.bind_eq_some_iff, Option.pure_def,
      Option.some.injEq] at h
    obtain ⟨thread, hthread, next, hnext, rfl⟩ := h
    obtain ⟨hindex, rfl⟩ := List.getElem?_eq_some_iff.1 hthread
    refine ⟨c.threads.take index, c.threads[index], c.threads.drop (index + 1), answer, next, ?_, ?_,
      hnext, rfl⟩
    · rw [List.length_take, Nat.min_eq_left hindex.le]
    · rw [← List.drop_eq_getElem_cons hindex, List.take_append_drop]

/-- A run whose guard allows its steps stays within what is reachable. -/
theorem Reachable.run {guard : Configuration σ τ → Move κ α → Bool} {moves : List (Move κ α)}
    (h : p.Reachable allowed init c) (hguard : ∀ c move, guard c move = true → allowed c move)
    (hrun : p.run guard c moves = some c') : p.Reachable allowed init c' := by
  induction moves generalizing c with
  | nil =>
    cases hrun
    exact h
  | cons move moves ih =>
    rw [Program.run] at hrun
    split_ifs at hrun with hmove
    simp only [Option.bind_eq_bind, Option.bind_eq_some_iff] at hrun
    obtain ⟨next, hstep, hrest⟩ := hrun
    exact ih (h.step (hguard _ _ hmove) hstep) hrest

/-- What a step takes from one number to the next, a run takes over its length. -/
theorem run_counted {J : ℕ → Configuration σ τ → Prop} {guard : Configuration σ τ → Move κ α → Bool}
    (hstep : ∀ n c c' move, J n c → p.step c move = some c' → J (n + 1) c') :
    ∀ (moves : List (Move κ α)) {n : ℕ} {c c' : Configuration σ τ}, J n c →
      p.run guard c moves = some c' → J (n + moves.length) c' := by
  intro moves
  induction moves with
  | nil =>
    intro n c c' hc hrun
    cases hrun
    exact hc
  | cons move moves ih =>
    intro n c c' hc hrun
    rw [Program.run] at hrun
    split_ifs at hrun
    simp only [Option.bind_eq_bind, Option.bind_eq_some_iff] at hrun
    obtain ⟨next, hnext, hrest⟩ := hrun
    have hlast := ih (hstep n c next move hc hnext) hrest
    rwa [List.length_cons, Nat.add_comm moves.length 1, ← Nat.add_assoc]

/-! ## Rules -/

/-- What holds at the start and is kept by every allowed step holds in every configuration. -/
theorem Reachable.invariant {J : Configuration σ τ → Prop} (h : p.Reachable allowed init c)
    (hinit : J init)
    (hstep : ∀ c c' move, J c → allowed c move → p.step c move = some c' → J c') : J c := by
  induction h with
  | refl => exact hinit
  | step _ hallowed hnext ih => exact hstep _ _ _ ih hallowed hnext

/-- What was proved of every reachable configuration is at hand in every step. -/
theorem Reachable.strengthen {J : Configuration σ τ → Prop} (h : p.Reachable allowed init c)
    (hJ : ∀ c, p.Reachable allowed init c → J c) :
    p.Reachable (fun c move => allowed c move ∧ J c) init c := by
  induction h with
  | refl => exact .refl
  | step hreach hallowed hnext ih => exact ih.step ⟨hallowed, hJ _ hreach⟩ hnext

/-- `I` holds of the shared state and `R` of each thread. -/
def Asserts (I : σ → Prop) (R : σ → τ → Prop) (s : σ) (threads : List τ) : Prop :=
  I s ∧ ∀ thread ∈ threads, R s thread

theorem asserts_segment {I : σ → Prop} {R : σ → τ → Prop} {P : σ → Prop} {m : Service σ (List τ)}
    (h : Service.Triple P m (fun threads t => Asserts I R t threads) I) {s : σ} (hs : P s) :
    Asserts I R (segment m s).1 (segment m s).2 := by
  obtain ⟨hok, herror⟩ := h s hs
  unfold segment
  cases hrun : EStateM.run m s with
  | ok threads t => exact hok threads t hrun
  | error e t => exact ⟨herror e t hrun, by simp⟩

/-- **Assertions of threads.** Every segment keeps `I`, gives the threads it leaves what they rely
on, and takes nothing from the others. -/
theorem Reachable.threads {I : σ → Prop} {R : σ → τ → Prop} (h : p.Reachable allowed init c)
    (hinit : Asserts I R init.shared init.threads)
    (hstart : ∀ call s threads, Asserts I R s threads → allowed ⟨s, threads⟩ (.start call) →
      Asserts I R (p.start call s).1 (p.start call s).2 ∧
      ∀ thread ∈ threads, R (p.start call s).1 thread)
    (hresume : ∀ before thread after answer s next, Asserts I R s (before ++ thread :: after) →
      allowed ⟨s, before ++ thread :: after⟩ (.resume before.length answer) →
      p.resume thread answer s = some next →
      Asserts I R next.1 next.2 ∧ ∀ other ∈ before ++ after, R next.1 other) :
    Asserts I R c.shared c.threads := by
  refine h.invariant (J := fun c => Asserts I R c.shared c.threads) hinit ?_
  intro c c' move hc hallowed hstep
  rcases step_cases hstep with ⟨call, rfl, rfl⟩ |
    ⟨before, thread, after, answer, next, rfl, hthreads, hnext, rfl⟩
  · obtain ⟨⟨hI, hnew⟩, hold⟩ := hstart call c.shared c.threads hc hallowed
    refine ⟨hI, fun t ht => ?_⟩
    rcases List.mem_append.1 ht with ht | ht
    · exact hold t ht
    · exact hnew t ht
  · have hshape : c = ⟨c.shared, before ++ thread :: after⟩ := by rw [← hthreads]
    rw [hthreads] at hc
    rw [hshape] at hallowed
    obtain ⟨⟨hI, hnew⟩, hold⟩ := hresume before thread after answer c.shared next hc hallowed hnext
    refine ⟨hI, fun t ht => ?_⟩
    rcases List.mem_append.1 ht with ht | ht
    · exact hold t (List.mem_append_left _ ht)
    · rcases List.mem_append.1 ht with ht | ht
      · exact hnew t ht
      · exact hold t (List.mem_append_right _ ht)

/-- **Balance.** What was gained is what was lost and what the threads hold: a segment accounts for
what it gains and loses with what it takes from its thread and what it gives to the threads it
leaves. -/
theorem Reachable.balance (h : p.Reachable allowed init c) (weight : τ → ℕ)
    (gained lost : σ → ℕ)
    (hinit : lost init.shared + (init.threads.map weight).sum = gained init.shared)
    (hstart : ∀ call s threads, allowed ⟨s, threads⟩ (.start call) →
      lost (p.start call s).1 + ((p.start call s).2.map weight).sum + gained s =
        gained (p.start call s).1 + lost s)
    (hresume : ∀ before thread after answer s next,
      allowed ⟨s, before ++ thread :: after⟩ (.resume before.length answer) →
      p.resume thread answer s = some next → weight thread ≤ gained s →
      lost next.1 + (next.2.map weight).sum + gained s =
        gained next.1 + lost s + weight thread) :
    lost c.shared + (c.threads.map weight).sum = gained c.shared := by
  refine h.invariant (J := fun c => lost c.shared + (c.threads.map weight).sum = gained c.shared)
    hinit ?_
  intro c c' move hc hallowed hstep
  rcases step_cases hstep with ⟨call, rfl, rfl⟩ |
    ⟨before, thread, after, answer, next, rfl, hthreads, hnext, rfl⟩
  · have hkept := hstart call c.shared c.threads hallowed
    show lost (p.start call c.shared).1 + ((c.threads ++ _).map weight).sum =
      gained (p.start call c.shared).1
    rw [List.map_append, List.sum_append]
    omega
  · have hshape : c = ⟨c.shared, before ++ thread :: after⟩ := by rw [← hthreads]
    rw [hshape] at hallowed
    rw [hthreads, List.map_append, List.map_cons, List.sum_append, List.sum_cons] at hc
    have hkept := hresume before thread after answer c.shared next hallowed hnext (by omega)
    show lost next.1 + ((before ++ (next.2 ++ after)).map weight).sum = gained next.1
    rw [List.map_append, List.map_append, List.sum_append, List.sum_append]
    omega

/-- **Capacity.** The threads hold no more than the shared state has room for: what a segment gives to
the threads it leaves is what it took from its thread, or room that it makes. -/
theorem Reachable.bounded (h : p.Reachable allowed init c) (weight : τ → ℕ) (capacity : σ → ℕ)
    (hinit : (init.threads.map weight).sum ≤ capacity init.shared)
    (hstart : ∀ call s threads, allowed ⟨s, threads⟩ (.start call) →
      ((p.start call s).2.map weight).sum + capacity s ≤ capacity (p.start call s).1)
    (hresume : ∀ before thread after answer s next,
      allowed ⟨s, before ++ thread :: after⟩ (.resume before.length answer) →
      p.resume thread answer s = some next →
      (next.2.map weight).sum + capacity s ≤ capacity next.1 + weight thread) :
    (c.threads.map weight).sum ≤ capacity c.shared := by
  refine h.invariant (J := fun c => (c.threads.map weight).sum ≤ capacity c.shared) hinit ?_
  intro c c' move hc hallowed hstep
  rcases step_cases hstep with ⟨call, rfl, rfl⟩ |
    ⟨before, thread, after, answer, next, rfl, hthreads, hnext, rfl⟩
  · have hkept := hstart call c.shared c.threads hallowed
    show ((c.threads ++ _).map weight).sum ≤ capacity (p.start call c.shared).1
    rw [List.map_append, List.sum_append]
    omega
  · have hshape : c = ⟨c.shared, before ++ thread :: after⟩ := by rw [← hthreads]
    rw [hshape] at hallowed
    rw [hthreads, List.map_append, List.map_cons, List.sum_append, List.sum_cons] at hc
    have hkept := hresume before thread after answer c.shared next hallowed hnext
    show ((before ++ (next.2 ++ after)).map weight).sum ≤ capacity next.1
    rw [List.map_append, List.map_append, List.sum_append, List.sum_append]
    omega

/-- **Issue.** What was spent and what the threads hold is no more than was issued: a segment spends, and
gives to the threads it leaves, what it takes from its thread or issues. What was issued need not be seen in
the state. -/
theorem Reachable.issued {M : Type} [AddCommMonoid M] [PartialOrder M] [IsOrderedAddMonoid M]
    (h : p.Reachable allowed init c) (holds : τ → M) (spent : σ → M) (Issued : σ → M → Prop)
    (hinit : ∃ all, Issued init.shared all ∧ spent init.shared + (init.threads.map holds).sum ≤ all)
    (hstart : ∀ call s all, Issued s all → ∃ new, Issued (p.start call s).1 (new + all) ∧
      spent (p.start call s).1 + ((p.start call s).2.map holds).sum ≤ new + spent s)
    (hresume : ∀ thread answer s next all, p.resume thread answer s = some next → Issued s all →
      ∃ new, Issued next.1 (new + all) ∧
        spent next.1 + (next.2.map holds).sum ≤ new + (spent s + holds thread)) :
    ∃ all, Issued c.shared all ∧ spent c.shared + (c.threads.map holds).sum ≤ all := by
  refine h.invariant (J := fun c => ∃ all, Issued c.shared all ∧
    spent c.shared + (c.threads.map holds).sum ≤ all) hinit ?_
  rintro c c' move ⟨all, hissued, hle⟩ _ hstep
  rcases step_cases hstep with ⟨call, rfl, rfl⟩ |
    ⟨before, thread, after, answer, next, rfl, hthreads, hnext, rfl⟩
  · obtain ⟨new, hnew, hspent⟩ := hstart call c.shared all hissued
    refine ⟨_, hnew, ?_⟩
    show spent (p.start call c.shared).1 + ((c.threads ++ _).map holds).sum ≤ new + all
    rw [List.map_append, List.sum_append]
    calc spent (p.start call c.shared).1 +
          ((c.threads.map holds).sum + ((p.start call c.shared).2.map holds).sum)
        = spent (p.start call c.shared).1 + ((p.start call c.shared).2.map holds).sum +
          (c.threads.map holds).sum := by abel
      _ ≤ new + spent c.shared + (c.threads.map holds).sum := add_le_add_left hspent _
      _ = new + (spent c.shared + (c.threads.map holds).sum) := by abel
      _ ≤ new + all := add_le_add_right hle _
  · obtain ⟨new, hnew, hspent⟩ := hresume thread answer c.shared next all hnext hissued
    refine ⟨_, hnew, ?_⟩
    show spent next.1 + ((before ++ (next.2 ++ after)).map holds).sum ≤ new + all
    rw [hthreads, List.map_append, List.map_cons, List.sum_append, List.sum_cons] at hle
    rw [List.map_append, List.map_append, List.sum_append, List.sum_append]
    calc spent next.1 + ((before.map holds).sum + ((next.2.map holds).sum + (after.map holds).sum))
        = spent next.1 + (next.2.map holds).sum + ((before.map holds).sum + (after.map holds).sum) := by
          abel
      _ ≤ new + (spent c.shared + holds thread) + ((before.map holds).sum + (after.map holds).sum) :=
          add_le_add_left hspent _
      _ = new + (spent c.shared + ((before.map holds).sum + (holds thread + (after.map holds).sum))) := by
          abel
      _ ≤ new + all := add_le_add_right hle _

end Program
