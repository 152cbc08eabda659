import Mathlib

/-!
# Fetching events by ranges

`fetchEventsFallOver` splits a range of blocks when all providers fail on it, with a stack of the
ranges that are still to fetch. The stack goes on where the events collected so far stop
(`Adjacent`), and each call takes one from what is left of the calls (`weight`). So whatever the
fetcher fails on, the events that come back are those of the whole range
(`fetchEventsFallOver_exact`).
-/

namespace CouncilDaemon

namespace EventsRange

/-- A range of blocks, from `start` to `last`. -/
structure RangeTask where
  start : ℤ
  last : ℤ
  deriving DecidableEq

def canSplitEventsRange (task : RangeTask) : Bool := task.last - task.start > 1

/-- The middle of a range, rounded up. -/
def center (task : RangeTask) : ℤ := ⌈((task.start + task.last : ℤ) : ℚ) / 2⌉

structure SplitRange where
  left : RangeTask
  right : RangeTask

def splitEventsRange (task : RangeTask) : SplitRange where
  left := { start := task.start, last := center task - 1 }
  right := { start := center task, last := task.last }

theorem center_eq (task : RangeTask) : center task = (task.start + task.last + 1) / 2 := by
  unfold center
  rw [Int.ceil_eq_iff]
  have hmod := Int.emod_nonneg (task.start + task.last + 1) two_ne_zero
  have hlt := Int.emod_lt_of_pos (task.start + task.last + 1) two_pos
  have hdiv := Int.mul_ediv_add_emod (task.start + task.last + 1) 2
  have hlow : 2 * ((task.start + task.last + 1) / 2) < task.start + task.last + 2 := by omega
  have hhigh : task.start + task.last ≤ 2 * ((task.start + task.last + 1) / 2) := by omega
  have hlow' : (2 : ℚ) * ((task.start + task.last + 1) / 2 : ℤ) <
      ((task.start + task.last : ℤ) : ℚ) + 2 := by exact_mod_cast hlow
  have hhigh' : ((task.start + task.last : ℤ) : ℚ) ≤
      2 * ((task.start + task.last + 1) / 2 : ℤ) := by exact_mod_cast hhigh
  constructor
  · linarith
  · linarith

/-- Both halves of a range that can be split have a block. -/
theorem center_bounds {task : RangeTask} (h : canSplitEventsRange task = true) :
    task.start < center task ∧ center task ≤ task.last := by
  have hlength : task.last - task.start > 1 := of_decide_eq_true h
  rw [center_eq]
  omega

/-- The most calls that a range takes. -/
def weight (task : RangeTask) : ℕ := 2 * (task.last - task.start).toNat + 1

theorem weight_split {task : RangeTask} (h : canSplitEventsRange task = true) :
    weight (splitEventsRange task).left + weight (splitEventsRange task).right + 1 =
      weight task := by
  obtain ⟨hleft, hright⟩ := center_bounds h
  unfold weight splitEventsRange
  simp only
  omega

/-! ## The traversal -/

variable {E ε : Type}

structure FetchedEvents (E : Type) where
  events : List E
  startBlock : ℤ
  endBlock : ℤ

/-- What a call of `fetchEventsFallOver` comes to, with the ranges it has called the fetcher for, the
last of them first. -/
structure FetchOutcome (E ε : Type) where
  settled : Except ε (FetchedEvents E)
  calls : List RangeTask

/-- `instanceof AllProvidersFailedError` is a parameter. -/
def shouldSplitEventsRange (allProvidersFailed : ε → Bool) (error : ε) (task : RangeTask) : Bool :=
  allProvidersFailed error && canSplitEventsRange task

variable (allProvidersFailed : ε → Bool)
  (fetcher : List RangeTask → (startBlock endBlock : ℤ) → Except ε (FetchedEvents E))

/-- The loop over the stack. What the fetcher answers may depend on the calls made before. -/
def fetchLoop (stack : List RangeTask) (allEvents : List E) (calls : List RangeTask) :
    Except ε (List E) × List RangeTask :=
  match stack with
  | [] => (.ok allEvents, calls)
  | task :: stack =>
    match fetcher calls task.start task.last with
    | .ok fetched => fetchLoop stack (allEvents ++ fetched.events) (task :: calls)
    | .error error =>
      if _h : shouldSplitEventsRange allProvidersFailed error task = true then
        fetchLoop ((splitEventsRange task).left :: (splitEventsRange task).right :: stack) allEvents
          (task :: calls)
      else (.error error, task :: calls)
termination_by (stack.map weight).sum
decreasing_by
  · rw [List.map_cons, List.sum_cons]
    have hpos : 0 < weight task := Nat.succ_pos _
    omega
  · have hsplit := weight_split (Bool.and_eq_true_iff.1 _h).2
    simp only [List.map_cons, List.sum_cons]
    omega

def fetchEventsFallOver (startBlock endBlock : ℤ) : FetchOutcome E ε :=
  let (allEvents, calls) := fetchLoop allProvidersFailed fetcher
    [{ start := startBlock, last := endBlock }] [] []
  { settled := allEvents.map fun events => { events, startBlock, endBlock }, calls }

section

variable {allProvidersFailed : ε → Bool}
  {fetcher : List RangeTask → (startBlock endBlock : ℤ) → Except ε (FetchedEvents E)}
  {task : RangeTask} {stack calls : List RangeTask} {allEvents : List E}

theorem fetchLoop_nil : fetchLoop allProvidersFailed fetcher [] allEvents calls =
    (.ok allEvents, calls) := by
  rw [fetchLoop]

theorem fetchLoop_ok {fetched : FetchedEvents E}
    (h : fetcher calls task.start task.last = .ok fetched) :
    fetchLoop allProvidersFailed fetcher (task :: stack) allEvents calls =
      fetchLoop allProvidersFailed fetcher stack (allEvents ++ fetched.events) (task :: calls) := by
  rw [fetchLoop, h]

theorem fetchLoop_split {error : ε} (h : fetcher calls task.start task.last = .error error)
    (hsplit : shouldSplitEventsRange allProvidersFailed error task = true) :
    fetchLoop allProvidersFailed fetcher (task :: stack) allEvents calls =
      fetchLoop allProvidersFailed fetcher
        ((splitEventsRange task).left :: (splitEventsRange task).right :: stack) allEvents
        (task :: calls) := by
  rw [fetchLoop, h]
  exact dif_pos hsplit

theorem fetchLoop_throw {error : ε} (h : fetcher calls task.start task.last = .error error)
    (hsplit : ¬ shouldSplitEventsRange allProvidersFailed error task = true) :
    fetchLoop allProvidersFailed fetcher (task :: stack) allEvents calls =
      (.error error, task :: calls) := by
  rw [fetchLoop, h]
  exact dif_neg hsplit

/-! ## The calls -/

theorem length_calls_le (stack : List RangeTask) (allEvents : List E) (calls : List RangeTask) :
    (fetchLoop allProvidersFailed fetcher stack allEvents calls).2.length ≤
      calls.length + (stack.map weight).sum := by
  induction stack, allEvents, calls using fetchLoop.induct allProvidersFailed fetcher with
  | case1 allEvents calls =>
    rw [fetchLoop_nil]
    exact Nat.le_add_right _ _
  | case2 allEvents calls task stack fetched hfetched ih =>
    rw [fetchLoop_ok hfetched]
    rw [List.length_cons] at ih
    have hpos : 0 < weight task := Nat.succ_pos _
    rw [List.map_cons, List.sum_cons]
    omega
  | case3 allEvents calls task stack error herror hsplit ih =>
    rw [fetchLoop_split herror hsplit]
    have hweight := weight_split (Bool.and_eq_true_iff.1 hsplit).2
    simp only [List.length_cons, List.map_cons, List.sum_cons] at ih ⊢
    omega
  | case4 allEvents calls task stack error herror hsplit =>
    rw [fetchLoop_throw herror hsplit]
    have hpos : 0 < weight task := Nat.succ_pos _
    simp only [List.length_cons, List.map_cons, List.sum_cons]
    omega

/-- What is thrown is the error of the last call, on a range that is not split. -/
theorem fetchLoop_error (stack : List RangeTask) (allEvents : List E) (calls : List RangeTask)
    {error : ε} (h : (fetchLoop allProvidersFailed fetcher stack allEvents calls).1 = .error error) :
    ∃ task before, (fetchLoop allProvidersFailed fetcher stack allEvents calls).2 = task :: before ∧
      fetcher before task.start task.last = .error error ∧
      shouldSplitEventsRange allProvidersFailed error task = false := by
  induction stack, allEvents, calls using fetchLoop.induct allProvidersFailed fetcher with
  | case1 allEvents calls =>
    rw [fetchLoop_nil] at h
    cases h
  | case2 allEvents calls task stack fetched hfetched ih =>
    rw [fetchLoop_ok hfetched] at h ⊢
    exact ih h
  | case3 allEvents calls task stack error' herror hsplit ih =>
    rw [fetchLoop_split herror hsplit] at h ⊢
    exact ih h
  | case4 allEvents calls task stack error' herror hsplit =>
    rw [fetchLoop_throw herror hsplit] at h ⊢
    cases h
    exact ⟨task, calls, rfl, herror, Bool.eq_false_iff.2 hsplit⟩

/-! ## The events -/

variable (block : E → ℤ) (history : List E)

/-- The answer has the events of the history that are in the range, each of them once, in the order of
their blocks. -/
structure EventsOf (start last : ℤ) (answer : List E) : Prop where
  perm : answer.Perm (history.filter fun event => start ≤ block event ∧ block event ≤ last)
  sorted : answer.Pairwise fun a b => block a ≤ block b

/-- The ranges of the stack follow one another from `next` up to `last`. -/
def Adjacent (last : ℤ) : ℤ → List RangeTask → Prop
  | next, [] => next = last + 1
  | next, task :: stack => task.start = next ∧ next ≤ task.last ∧ Adjacent last (task.last + 1) stack

variable {block history}

theorem Adjacent.split {last next : ℤ} (h : Adjacent last next (task :: stack))
    (hsplit : canSplitEventsRange task = true) :
    Adjacent last next ((splitEventsRange task).left :: (splitEventsRange task).right :: stack) := by
  obtain ⟨hleft, hright⟩ := center_bounds hsplit
  obtain ⟨hstart, hle, hrest⟩ := h
  refine ⟨hstart, ?_, ?_, ?_, hrest⟩
  · show next ≤ center task - 1
    omega
  · show center task = center task - 1 + 1
    omega
  · show center task - 1 + 1 ≤ task.last
    omega

theorem EventsOf.block_mem {start last : ℤ} {answer : List E}
    (h : EventsOf block history start last answer) {event : E} (hevent : event ∈ answer) :
    start ≤ block event ∧ block event ≤ last := by
  have hmem := h.perm.mem_iff.1 hevent
  exact of_decide_eq_true (List.mem_filter.1 hmem).2

theorem eventsOf_empty {start last : ℤ} (h : last < start) : EventsOf block history start last [] where
  perm := by
    have hnone : (history.filter fun event => start ≤ block event ∧ block event ≤ last) = [] := by
      rw [List.filter_eq_nil_iff]
      intro event _ hevent
      have hrange := of_decide_eq_true hevent
      omega
    rw [hnone]
  sorted := List.Pairwise.nil

/-- The events of two ranges that follow one another. -/
theorem EventsOf.append {start next last : ℤ} {front back : List E}
    (hfront : EventsOf block history start (next - 1) front)
    (hback : EventsOf block history next last back) (hstart : start ≤ next)
    (hlast : next ≤ last + 1) : EventsOf block history start last (front ++ back) where
  perm := by
    have hsplit := List.filter_append_perm (fun event => decide (block event < next))
      (history.filter fun event => start ≤ block event ∧ block event ≤ last)
    rw [List.filter_filter, List.filter_filter] at hsplit
    refine List.Perm.trans ?_ hsplit
    refine List.Perm.append (hfront.perm.trans ?_) (hback.perm.trans ?_)
    · refine List.Perm.of_eq (List.filter_congr fun event _ => ?_)
      rw [Bool.eq_iff_iff]
      simp only [decide_eq_true_eq, Bool.and_eq_true]
      omega
    · refine List.Perm.of_eq (List.filter_congr fun event _ => ?_)
      rw [Bool.eq_iff_iff]
      simp only [decide_eq_true_eq, Bool.and_eq_true, Bool.not_eq_true', decide_eq_false_iff_not]
      omega
  sorted := by
    rw [List.pairwise_append]
    refine ⟨hfront.sorted, hback.sorted, fun a ha b hb => ?_⟩
    have hlow := (hfront.block_mem ha).2
    have hhigh := (hback.block_mem hb).1
    omega

variable (fetcher) in
/-- A call that does not fail has the events of its range. -/
def Exact (block : E → ℤ) (history : List E) : Prop :=
  ∀ calls startBlock endBlock fetched, fetcher calls startBlock endBlock = .ok fetched →
    EventsOf block history startBlock endBlock fetched.events

/-- Over adjacent ranges, the loop adds their events to those collected. -/
theorem fetchLoop_exact (hfetcher : Exact fetcher block history) (start last : ℤ)
    (stack : List RangeTask) (allEvents : List E) (calls : List RangeTask) {next : ℤ}
    {events : List E} (hstack : Adjacent last next stack) (hstart : start ≤ next)
    (hall : EventsOf block history start (next - 1) allEvents)
    (h : (fetchLoop allProvidersFailed fetcher stack allEvents calls).1 = .ok events) :
    EventsOf block history start last events := by
  induction stack, allEvents, calls using fetchLoop.induct allProvidersFailed fetcher
    generalizing next with
  | case1 allEvents calls =>
    rw [fetchLoop_nil] at h
    cases h
    obtain rfl : next = last + 1 := hstack
    rwa [add_sub_cancel_right] at hall
  | case2 allEvents calls task stack fetched hfetched ih =>
    rw [fetchLoop_ok hfetched] at h
    obtain ⟨rfl, hle, hrest⟩ := hstack
    refine ih hrest (by omega) ?_ h
    rw [add_sub_cancel_right]
    exact hall.append (hfetcher _ _ _ _ hfetched) hstart (by omega)
  | case3 allEvents calls task stack error herror hsplit ih =>
    rw [fetchLoop_split herror hsplit] at h
    exact ih (hstack.split (Bool.and_eq_true_iff.1 hsplit).2) hstart hall h
  | case4 allEvents calls task stack error herror hsplit =>
    rw [fetchLoop_throw herror hsplit] at h
    cases h

/-- A range that ends before it starts is fetched with one call. -/
theorem fetchLoop_inverted {startBlock endBlock : ℤ} (h : endBlock < startBlock) :
    fetchLoop allProvidersFailed fetcher [{ start := startBlock, last := endBlock }] [] [] =
      ((fetcher [] startBlock endBlock).map (·.events),
        [{ start := startBlock, last := endBlock }]) := by
  cases hfetch : fetcher [] startBlock endBlock with
  | ok fetched =>
    rw [fetchLoop_ok hfetch, fetchLoop_nil, List.nil_append]
    rfl
  | error error =>
    rw [fetchLoop_throw hfetch]
    · rfl
    · intro hsplit
      have hlength := of_decide_eq_true (Bool.and_eq_true_iff.1 hsplit).2
      simp only at hlength
      omega

theorem length_fetchEventsFallOver_le (startBlock endBlock : ℤ) :
    ((fetchEventsFallOver allProvidersFailed fetcher startBlock endBlock).calls.length : ℤ) ≤
      2 * max 0 (endBlock - startBlock) + 1 := by
  have hlength := @length_calls_le _ _ allProvidersFailed fetcher
    [{ start := startBlock, last := endBlock }] [] []
  simp only [List.length_nil, List.map_cons, List.map_nil, List.sum_cons, List.sum_nil,
    weight] at hlength
  show ((fetchLoop allProvidersFailed fetcher [_] [] []).2.length : ℤ) ≤ _
  omega

theorem fetchEventsFallOver_ok (hfetcher : Exact fetcher block history) {startBlock endBlock : ℤ}
    {fetched : FetchedEvents E}
    (h : (fetchEventsFallOver allProvidersFailed fetcher startBlock endBlock).settled =
      .ok fetched) :
    fetched.startBlock = startBlock ∧ fetched.endBlock = endBlock ∧
      EventsOf block history startBlock endBlock fetched.events := by
  have hloop : (fetchLoop allProvidersFailed fetcher
      [{ start := startBlock, last := endBlock }] [] []).1.map
        (fun events => FetchedEvents.mk events startBlock endBlock) = .ok fetched := h
  cases hresult : (fetchLoop allProvidersFailed fetcher
      [{ start := startBlock, last := endBlock }] [] []).1 with
  | error error =>
    rw [hresult] at hloop
    cases hloop
  | ok events =>
    rw [hresult] at hloop
    cases hloop
    refine ⟨rfl, rfl, ?_⟩
    rcases lt_or_ge endBlock startBlock with hlt | hle
    · rw [fetchLoop_inverted hlt] at hresult
      cases hfetch : fetcher [] startBlock endBlock with
      | error error =>
        rw [hfetch] at hresult
        cases hresult
      | ok fetched =>
        rw [hfetch] at hresult
        cases hresult
        exact hfetcher [] startBlock endBlock fetched hfetch
    · have hstack : Adjacent endBlock startBlock [{ start := startBlock, last := endBlock }] :=
        ⟨rfl, hle, rfl⟩
      exact fetchLoop_exact hfetcher startBlock endBlock _ _ _ hstack le_rfl
        (eventsOf_empty (by omega)) hresult

theorem fetchEventsFallOver_error {startBlock endBlock : ℤ} {error : ε}
    (h : (fetchEventsFallOver allProvidersFailed fetcher startBlock endBlock).settled =
      .error error) :
    ∃ task before,
      (fetchEventsFallOver allProvidersFailed fetcher startBlock endBlock).calls = task :: before ∧
      fetcher before task.start task.last = .error error ∧
      (allProvidersFailed error = false ∨ task.last - task.start + 1 ≤ 2) := by
  have hloop : (fetchLoop allProvidersFailed fetcher
      [{ start := startBlock, last := endBlock }] [] []).1.map
        (fun events => FetchedEvents.mk events startBlock endBlock) = .error error := h
  cases hresult : (fetchLoop allProvidersFailed fetcher
      [{ start := startBlock, last := endBlock }] [] []).1 with
  | ok events =>
    rw [hresult] at hloop
    cases hloop
  | error error' =>
    rw [hresult] at hloop
    cases hloop
    obtain ⟨task, before, hcalls, herror, hsplit⟩ := fetchLoop_error _ _ _ hresult
    refine ⟨task, before, hcalls, herror, ?_⟩
    rcases Bool.and_eq_false_iff.1 hsplit with hother | hshort
    · exact Or.inl hother
    · have hlength := of_decide_eq_false hshort
      exact Or.inr (by omega)

end

/-- **Range splitting.** Whatever calls fail, and with whatever errors. -/
theorem fetchEventsFallOver_exact {allProvidersFailed : ε → Bool}
    {fetcher : List RangeTask → (startBlock endBlock : ℤ) → Except ε (FetchedEvents E)}
    {block : E → ℤ} {history : List E} (hfetcher : Exact fetcher block history)
    (startBlock endBlock : ℤ) {outcome : FetchOutcome E ε}
    (hrun : fetchEventsFallOver allProvidersFailed fetcher startBlock endBlock = outcome) :
    (outcome.calls.length : ℤ) ≤ 2 * max 0 (endBlock - startBlock) + 1 ∧
    (∀ fetched, outcome.settled = .ok fetched →
      fetched.startBlock = startBlock ∧ fetched.endBlock = endBlock ∧
      EventsOf block history startBlock endBlock fetched.events) ∧
    ∀ error, outcome.settled = .error error → ∃ task before, outcome.calls = task :: before ∧
      fetcher before task.start task.last = .error error ∧
      (allProvidersFailed error = false ∨ task.last - task.start + 1 ≤ 2) := by
  subst hrun
  refine ⟨length_fetchEventsFallOver_le startBlock endBlock, ?_, ?_⟩
  · intro fetched hsettled
    exact fetchEventsFallOver_ok hfetcher hsettled
  · intro error hsettled
    exact fetchEventsFallOver_error hsettled

/-- Fails on the first call, and on none after that. -/
def failingOnce (calls : List RangeTask) (startBlock endBlock : ℤ) :
    Except String (FetchedEvents ℤ) :=
  if calls.length = 0 then .error "AllProvidersFailedError"
  else .ok {
    events := [4, 4, 5, 6].filter fun event => startBlock ≤ event ∧ event ≤ endBlock
    startBlock
    endBlock }

theorem exact_failingOnce : Exact failingOnce id [4, 4, 5, 6] := by
  intro calls startBlock endBlock fetched h
  unfold failingOnce at h
  split_ifs at h with hfirst
  cases h
  have hsorted : [(4 : ℤ), 4, 5, 6].Pairwise fun a b => id a ≤ id b := by decide
  exact ⟨List.Perm.refl _,
    hsorted.filter fun event => decide (startBlock ≤ event ∧ event ≤ endBlock)⟩

theorem fetchEventsFallOver_failingOnce :
    ∃ outcome, fetchEventsFallOver (fun _ => true) failingOnce 4 6 = outcome ∧
      outcome.settled.toOption.map (·.events) = some [4, 4, 5, 6] ∧
      (outcome.calls.length : ℤ) ≤ 5 :=
  ⟨_, rfl, by decide +kernel, (fetchEventsFallOver_exact exact_failingOnce 4 6 rfl).1⟩

end EventsRange

end CouncilDaemon
