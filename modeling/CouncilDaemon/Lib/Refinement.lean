import CouncilDaemon.Lib.Interleaving

/-!
# Refinement of interleaved programs

A program refines another one when each of its steps is a run of the other one: `R` relates the shared
states, and each thread holds some threads of the other program. The order of the threads does not
matter. What a refined program reaches is related to what the other one reaches (`Refines.reaches`), so
that its state has what every reachable state of the other one has (`Refines.invariant`).
-/

namespace Program

variable {σ κ τ α σ' κ' τ' α' : Type}

/-! ## Runs up to the order of the threads -/

/-- From `d` the program comes to the state `s` with `threads` in some order. -/
def Reaches (q : Program σ κ τ α) (d : Configuration σ τ) (s : σ) (threads : List τ) : Prop :=
  ∃ c, q.Reachable (fun _ _ => True) d c ∧ c.shared = s ∧ c.threads.Perm threads

variable {q : Program σ κ τ α} {d : Configuration σ τ} {s : σ} {threads threads' : List τ}

theorem reaches_refl (q : Program σ κ τ α) (s : σ) (threads : List τ) :
    q.Reaches ⟨s, threads⟩ s threads :=
  ⟨_, .refl, rfl, .refl _⟩

theorem Reaches.perm (h : q.Reaches d s threads) (hperm : threads.Perm threads') :
    q.Reaches d s threads' := by
  obtain ⟨c, hreach, hshared, hthreads⟩ := h
  exact ⟨c, hreach, hshared, hthreads.trans hperm⟩

/-- A call starts. -/
theorem Reaches.started (h : q.Reaches d s threads) (call : κ) :
    q.Reaches d (q.start call s).1 ((q.start call s).2 ++ threads) := by
  obtain ⟨c, hreach, rfl, hthreads⟩ := h
  have hstep : q.step c (.start call) =
      some ⟨(q.start call c.shared).1, c.threads ++ (q.start call c.shared).2⟩ := rfl
  refine ⟨_, hreach.step trivial hstep, rfl, ?_⟩
  exact List.perm_append_comm.trans (hthreads.append_left _)

/-- A thread goes on. -/
theorem Reaches.resumed {thread : τ} {answer : α} {next : σ × List τ}
    (h : q.Reaches d s (thread :: threads)) (hnext : q.resume thread answer s = some next) :
    q.Reaches d next.1 (next.2 ++ threads) := by
  obtain ⟨c, hreach, rfl, hthreads⟩ := h
  obtain ⟨before, after, hshape⟩ := List.append_of_mem
    (hthreads.mem_iff.2 (List.mem_cons_self : thread ∈ thread :: threads))
  have hrest : (before ++ after).Perm threads := by
    rw [hshape] at hthreads
    exact (List.perm_middle.symm.trans hthreads).cons_inv
  have hstep : q.step c (.resume before.length answer) =
      some ⟨next.1, before ++ (next.2 ++ after)⟩ := by
    simp [step, hshape, hnext]
  refine ⟨_, hreach.step trivial hstep, rfl, ?_⟩
  calc (before ++ (next.2 ++ after)).Perm (next.2 ++ (before ++ after)) :=
        List.perm_append_comm_assoc before next.2 after
    _ |>.Perm (next.2 ++ threads) := hrest.append_left _

/-! ## Refinement -/

/-- Every step of `p` is a run of `q` on what the threads hold. -/
structure Refines (p : Program σ κ τ α) (q : Program σ' κ' τ' α') (R : σ → σ' → Prop)
    (holds : τ → List τ') : Prop where
  of_start : ∀ call s d u others, R s u → q.Reaches d u others →
    ∃ v, R (p.start call s).1 v ∧ q.Reaches d v ((p.start call s).2.flatMap holds ++ others)
  of_resume : ∀ thread answer s next d u others, p.resume thread answer s = some next → R s u →
    q.Reaches d u (holds thread ++ others) →
    ∃ v, R next.1 v ∧ q.Reaches d v (next.2.flatMap holds ++ others)

variable {p : Program σ κ τ α} {q : Program σ' κ' τ' α'} {R : σ → σ' → Prop} {holds : τ → List τ'}
  {allowed : Configuration σ τ → Move κ α → Prop} {init c : Configuration σ τ}

/-- **Runs are refined.** What `p` comes to is what `q` comes to. -/
theorem Refines.reaches (h : Refines p q R holds) (hreach : p.Reachable allowed init c)
    {d : Configuration σ' τ'} {u : σ'} {others : List τ'} (hinit : R init.shared u)
    (hthreads : q.Reaches d u (init.threads.flatMap holds ++ others)) :
    ∃ v, R c.shared v ∧ q.Reaches d v (c.threads.flatMap holds ++ others) := by
  induction hreach with
  | refl => exact ⟨u, hinit, hthreads⟩
  | step _ _ hstep ih =>
    obtain ⟨v, hv, hc⟩ := ih
    rcases step_cases hstep with ⟨call, rfl, rfl⟩ |
      ⟨before, thread, after, answer, next, rfl, hshape, hnext, rfl⟩
    · obtain ⟨w, hw, hnew⟩ := h.of_start call _ d v _ hv hc
      refine ⟨w, hw, hnew.perm ?_⟩
      rw [List.flatMap_append, List.append_assoc]
      exact List.perm_append_comm_assoc _ _ _
    · rw [hshape, List.flatMap_append, List.flatMap_cons] at hc
      have hfront : q.Reaches d v
          (holds thread ++ (before.flatMap holds ++ (after.flatMap holds ++ others))) := by
        refine hc.perm ?_
        simp only [List.append_assoc]
        exact List.perm_append_comm_assoc _ _ _
      obtain ⟨w, hw, hnew⟩ := h.of_resume thread answer _ next d v _ hnext hv hfront
      refine ⟨w, hw, hnew.perm ?_⟩
      simp only [List.flatMap_append, List.append_assoc]
      exact List.perm_append_comm_assoc _ _ _

/-- **Invariants.** What holds in every state that `q` comes to holds, over `R`, in every state that
`p` comes to. -/
theorem Refines.invariant (h : Refines p q R holds) (hreach : p.Reachable allowed init c)
    {u : σ'} {J : Configuration σ' τ' → Prop} (hinit : R init.shared u)
    (hJ : ∀ d, q.Reachable (fun _ _ => True) ⟨u, init.threads.flatMap holds⟩ d → J d) :
    ∃ d, J d ∧ R c.shared d.shared ∧ d.threads.Perm (c.threads.flatMap holds) := by
  have hrefl : q.Reaches ⟨u, init.threads.flatMap holds⟩ u (init.threads.flatMap holds ++ []) := by
    rw [List.append_nil]
    exact reaches_refl q u _
  obtain ⟨v, hv, d, hd, rfl, hthreads⟩ := h.reaches hreach hinit hrefl
  rw [List.append_nil] at hthreads
  exact ⟨d, hJ d hd, hv, hthreads⟩

end Program
