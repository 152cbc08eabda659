import CouncilDaemon.Common.MutualExclusion
import CouncilDaemon.Lib.Refinement

/-!
# Locks of a refined method

A program whose threads hold invocations of a method marked `OneAtTime`, and whose state has the flags of
that method. As such a program refines the calls of the method (`Program.Refines`), its flags stand for the
invocations that its threads hold (`locks_balanced`).
-/

namespace CouncilDaemon

namespace OneAtTime

variable {σ κ τ β α : Type} {p : Program σ κ τ β} {method : DecoratedMethod} {flags : σ → OneAtTime}
  {holds : τ → List (Invocation α)} {allowed : Configuration σ τ → Move κ β → Prop}
  {init c : Configuration σ τ}

/-! ## Calls of the method -/

section Calls

variable {d : Configuration (MethodState α) (Invocation α)} {u : MethodState α}
  {others : List (Invocation α)} {callId : Option ℕ}

/-- A call that is executed. -/
theorem reaches_entered (h : (method.program α).Reaches d u others)
    (hbusy : ¬ u.flags.busy callId = true) :
    (method.program α).Reaches d { u with flags := u.flags.enter callId } (.racing callId :: others) := by
  have hstart := Program.Reaches.started h callId
  have hcall : (method.program α).start callId u =
      ({ u with flags := u.flags.enter callId }, [.racing callId]) := by
    show call callId u = _
    unfold call
    rw [if_neg hbusy]
  rw [hcall] at hstart
  exact hstart

/-- A body returns. -/
theorem reaches_settled (h : (method.program α).Reaches d u (.racing callId :: others))
    (outcome : Except String α) :
    (method.program α).Reaches d u (.raced callId outcome false :: others) := by
  have hnext : (method.program α).resume (.racing callId) (.settled outcome) u =
      some (u, [.raced callId outcome false]) := rfl
  exact Program.Reaches.resumed h hnext

/-- The call of a body that has returned goes on. -/
theorem reaches_left {value : α}
    (h : (method.program α).Reaches d u (.raced callId (.ok value) false :: others)) :
    ∃ v, v.flags = u.flags.leave callId ∧ (method.program α).Reaches d v others := by
  have hnext : (method.program α).resume (.raced callId (.ok value) false) .continues u =
      some (finish callId u (.ok value), []) := rfl
  exact ⟨_, flags_finish u (.ok value), Program.Reaches.resumed h hnext⟩

/-- The timeout of a call runs out: the call goes on, and its body is left behind. -/
theorem reaches_timeout (h : (method.program α).Reaches d u (.racing callId :: others)) :
    ∃ v, v.flags = u.flags.leave callId ∧
      (method.program α).Reaches d v (.leftBehind callId :: others) := by
  have hraced : (method.program α).resume (.racing callId) .timeout u =
      some (u, [.raced callId (.error method.timeoutError) true]) := rfl
  have hleft : (method.program α).resume (.raced callId (.error method.timeoutError) true) .continues u =
      some (finish callId u (.error method.timeoutError), [.leftBehind callId]) := rfl
  exact ⟨_, flags_finish u (.error method.timeoutError),
    Program.Reaches.resumed (Program.Reaches.resumed h hraced) hleft⟩

/-- A body that was left behind ends. -/
theorem reaches_ended (h : (method.program α).Reaches d u (.leftBehind callId :: others))
    (outcome : Except String α) : (method.program α).Reaches d u others := by
  have hnext : (method.program α).resume (.leftBehind callId) (.settled outcome) u = some (u, []) := rfl
  exact Program.Reaches.resumed h hnext

end Calls

/-! ## Locks -/

/-- **Locks.** A flag of the program is up as often as its threads hold an invocation under the lock that
has not ended: once or not at all. -/
theorem locks_balanced
    (h : Program.Refines p (method.program α) (fun s u => u.flags = flags s) holds)
    (hreach : p.Reachable allowed init c) (hflags : flags init.shared = {})
    (hthreads : init.threads.flatMap holds = []) (lock : Option ℕ) :
    ((c.threads.flatMap holds).map (weight lock)).sum = (held (flags c.shared) lock).toNat := by
  obtain ⟨d, hbalance, hshared, hperm⟩ := h.invariant hreach (u := {}) hflags.symm
    (J := fun d => (d.threads.map (weight lock)).sum = (held d.shared.flags lock).toNat) (by
      rw [hthreads]
      exact fun d hd => balanced lock hd)
  rw [← (hperm.map (weight lock)).sum_eq, hbalance, hshared]

end OneAtTime

end CouncilDaemon
