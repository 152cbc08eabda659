import CouncilDaemon.Guardian.CycleSteps

/-!
# Processed blocks

A cycle compares its block with the recorded one at its start, and its background run records that block
at its end. A run of another block that ends in between is not seen. As long as a run records its block
only while no earlier block is on its way, the recorded blocks never decrease, and no deposit message is
built for a block before a recorded one (`never_back_of_keepsBlocks`).
-/

namespace CouncilDaemon

namespace Guardian

open SecurityService

namespace CycleEvent

/-- The block that is recorded. -/
def recordedBlock : CycleEvent → Option ℕ
  | recorded stateMeta => some stateMeta.blockNumber
  | _ => none

/-- The block that is recorded, or that a deposit message is for. -/
def block : CycleEvent → Option ℕ
  | recorded stateMeta => some stateMeta.blockNumber
  | prepared (.deposit deposit) => some deposit.blockNumber
  | _ => none

end CycleEvent

/-- No block is recorded or gets a deposit message after a higher one was recorded. The latest event is
the first. -/
def NeverBack (history : List CycleEvent) : Prop :=
  history.Pairwise fun event earlier => ∀ number ∈ event.block,
    ∀ recorded ∈ earlier.recordedBlock, recorded ≤ number

instance : DecidablePred NeverBack := fun history =>
  inferInstanceAs (Decidable (history.Pairwise _))

/-- A run that records its block is not overtaken: no earlier block has passed its age check and is still
on its way. -/
def KeepsBlocks (c : Configuration CycleState CycleThread) : Move CycleCall CycleAnswer → Prop
  | .start _ => True
  | .resume place answer => ∀ thread ∈ c.threads[place]?, ∀ recorded ∈ thread.records answer,
      ∀ other ∈ c.threads, ∀ number ∈ other.blocks, recorded ≤ number

instance (c : Configuration CycleState CycleThread) (move : Move CycleCall CycleAnswer) :
    Decidable (KeepsBlocks c move) :=
  match move with
  | .start _ => isTrue trivial
  | .resume place answer => inferInstanceAs (Decidable (∀ thread ∈ c.threads[place]?,
      ∀ recorded ∈ thread.records answer, ∀ other ∈ c.threads, ∀ number ∈ other.blocks,
        recorded ≤ number))

/-- No recorded block is above the last one. -/
structure Recorded (s : CycleState) : Prop where
  never_back : NeverBack s.history
  le_last : ∀ event ∈ s.history, ∀ recorded ∈ event.recordedBlock,
    ∃ last, s.lastProcessedStateMeta = some last ∧ recorded ≤ last.blockNumber

/-- The blocks of a thread are not below the last one. -/
def Ahead (s : CycleState) (thread : CycleThread) : Prop :=
  ∀ number ∈ thread.blocks, ∀ last, s.lastProcessedStateMeta = some last → last.blockNumber ≤ number

variable {deps : SecurityDeps} {s t : CycleState} {thread : CycleThread}

theorem mem_blocks_of_records {answer : CycleAnswer} {number : ℕ}
    (h : thread.records answer = some number) : number ∈ thread.blocks := by
  unfold CycleThread.records at h
  split at h
  · cases h
    exact List.mem_append_left _ (List.mem_singleton_self _)
  · cases h

theorem Ahead.congr (h : Ahead s thread)
    (hlast : t.lastProcessedStateMeta = s.lastProcessedStateMeta) : Ahead t thread := by
  unfold Ahead
  rw [hlast]
  exact h

theorem Free.ahead (h : Free thread) : Ahead s thread := by
  intro number hmem
  rw [h.blocks] at hmem
  cases hmem

/-- An event for a block that is not below the last one. -/
theorem Recorded.cons {event : CycleEvent} (h : Recorded s)
    (hblock : ∀ number ∈ event.block, ∀ last, s.lastProcessedStateMeta = some last →
      last.blockNumber ≤ number) : NeverBack (event :: s.history) := by
  refine List.Pairwise.cons (fun earlier hmem number hnumber recorded hrecorded => ?_) h.never_back
  obtain ⟨last, hlast, hle⟩ := h.le_last earlier hmem recorded hrecorded
  exact hle.trans (hblock number hnumber last hlast)

/-- What a step adds to the history. -/
theorem Recorded.notes {answer : CycleAnswer} {event : CycleEvent} (h : Recorded s)
    (hahead : Ahead s thread) (hevent : thread.Notes deps answer s t event)
    (hhistory : t.history = event :: s.history) : Recorded t := by
  cases hevent with
  | prepared hblock hlast =>
    rename_i message
    refine ⟨?_, fun event hmem => ?_⟩
    · rw [hhistory]
      refine h.cons fun number hnumber => ?_
      cases message with
      | deposit deposit =>
        cases hnumber
        exact hahead _ (hblock deposit rfl)
      | pause pause => cases hnumber
      | unvet unvet => cases hnumber
      | ping ping => cases hnumber
    · rw [hhistory] at hmem
      rw [hlast]
      rcases List.mem_cons.1 hmem with rfl | hold
      · exact fun _ hrecorded => (by cases hrecorded)
      · exact h.le_last event hold
  | published hcontext hpayload hlast =>
    refine ⟨?_, fun event hmem => ?_⟩
    · rw [hhistory]
      exact h.cons fun _ hnumber => (by cases hnumber)
    · rw [hhistory] at hmem
      rw [hlast]
      rcases List.mem_cons.1 hmem with rfl | hold
      · exact fun _ hrecorded => (by cases hrecorded)
      · exact h.le_last event hold
  | recorded hrecords hlast =>
    rename_i stateMeta
    have hblock := hahead _ (mem_blocks_of_records hrecords)
    refine ⟨?_, fun event hmem => ?_⟩
    · rw [hhistory]
      refine h.cons fun number hnumber => ?_
      cases hnumber
      exact hblock
    · rw [hhistory] at hmem
      refine fun recorded hrecorded => ⟨stateMeta, hlast, ?_⟩
      rcases List.mem_cons.1 hmem with rfl | hold
      · cases hrecorded
        exact le_rfl
      · obtain ⟨last, hbefore, hle⟩ := h.le_last event hold recorded hrecorded
        exact hle.trans (hblock last hbefore)

/-- The last block stays, or is replaced by one that a thread records. -/
theorem Ahead.step {answer : CycleAnswer} {other : CycleThread} (h : Ahead s other)
    (hstate : StateStep deps thread answer s t)
    (hkeeps : ∀ recorded ∈ thread.records answer, ∀ number ∈ other.blocks, recorded ≤ number) :
    Ahead t other := by
  rcases hstate.history with ⟨_, hlast⟩ | ⟨event, hnotes, _⟩
  · exact h.congr hlast
  · cases hnotes with
    | prepared hblock hlast => exact h.congr hlast
    | published hcontext hpayload hlast => exact h.congr hlast
    | recorded hrecords hlast =>
      intro number hnumber last hafter
      obtain rfl := Option.some.inj (hlast.symm.trans hafter)
      exact hkeeps _ hrecords number hnumber

/-- **Processed blocks.** In every run in which no block is recorded while an earlier one is on its
way. -/
theorem never_back_of_keepsBlocks (security : SecurityState)
    {c : Configuration CycleState CycleThread}
    (h : (cycleProgram deps).Reachable KeepsBlocks (started security) c) :
    NeverBack c.shared.history := by
  have hasserts : Program.Asserts Recorded Ahead c.shared c.threads := by
    refine h.threads ⟨⟨List.Pairwise.nil, fun event hmem => (by cases hmem)⟩,
      fun thread hmem => (by cases hmem)⟩ ?_ ?_
    · intro call s threads hs _
      obtain ⟨_, hhistory, hlast, hfree⟩ := @start_spec deps call s
      refine ⟨⟨⟨?_, ?_⟩, fun other hmem => (hfree other hmem).ahead⟩, fun other hmem => ?_⟩
      · rw [hhistory]
        exact hs.1.never_back
      · rw [hhistory, hlast]
        exact hs.1.le_last
      · exact (hs.2 other hmem).congr hlast
    · intro before thread after answer s next hs hallowed hnext
      obtain ⟨hstate, hfollows⟩ := stepSpec hnext
      have hthread : (before ++ thread :: after)[before.length]? = some thread := by simp
      have hahead : ∀ other ∈ before ++ thread :: after, Ahead next.1 other := by
        intro other hmem
        exact (hs.2 other hmem).step hstate fun recorded hrecorded =>
          hallowed thread hthread recorded hrecorded other hmem
      have hmem : thread ∈ before ++ thread :: after := by simp
      refine ⟨⟨?_, fun other hother number hnumber => ?_⟩, fun other hother => ?_⟩
      · rcases hstate.history with ⟨hsame, hlast⟩ | ⟨event, hnotes, hhistory⟩
        · refine ⟨?_, ?_⟩
          · rw [hsame]
            exact hs.1.never_back
          · rw [hsame, hlast]
            exact hs.1.le_last
        · exact hs.1.notes (hs.2 thread hmem) hnotes hhistory
      · rcases (hfollows other hother).blocks number hnumber with hold | hnew
        · exact hahead thread hmem number hold
        · exact hnew
      · refine hahead other ?_
        rcases List.mem_append.1 hother with hother | hother
        · exact List.mem_append_left _ hother
        · exact List.mem_append_right _ (List.mem_cons_of_mem _ hother)
  exact hasserts.1.never_back

/-! ## Two runs -/

open CycleSample

/-- The keys are checked, no module gets a deposit message, and the block is recorded. -/
def recordMoves (place : ℕ) : List (Move CycleCall CycleAnswer) :=
  [.resume place (.checkedKeys (.ok [])), .resume place .settled, .resume (place + 1) .settled]

/-- Two cycles, one after the other. -/
theorem consecutive_run : ((cycleProgram SecuritySample.deps).run
    (fun c move => decide (KeepsBlocks c move)) CycleSample.start
    (cycleMoves 0 17 firstContract legacyAnswers ++ recordMoves 0 ++
      cycleMoves 1 18 firstContract legacyAnswers ++
      [.resume 1 (.checkedKeys (.ok [])), .resume 1 .settled])).isSome = true := by
  decide +kernel

theorem never_back_consecutive : NeverBack (Option.get _ consecutive_run).shared.history ∧
    (Option.get _ consecutive_run).shared.history.filterMap CycleEvent.block = [18, 17] := by
  constructor
  · exact never_back_of_keepsBlocks { dsmContract := some firstContract, activeWallet := none }
      (Program.Reachable.refl.run (fun _ _ h => of_decide_eq_true h)
        (Option.some_get consecutive_run).symm)
  · decide +kernel

/-- The thread is a body of the method. -/
def CycleThread.isBody (method : CycleMethod) : CycleThread → Bool
  | newBlock _ _ => method = .handleNewBlock
  | keys _ _ => method = .handleKeys
  | _ => false

/-- No body overlaps another one of its method. -/
def OneBodyEach (c : Configuration CycleState CycleThread) : Prop :=
  c.threads.countP (·.isBody .handleNewBlock) ≤ 1 ∧ c.threads.countP (·.isBody .handleKeys) ≤ 1

instance : DecidablePred OneBodyEach := fun _ => inferInstanceAs (Decidable (_ ∧ _))

/-- The Keys API answers with an earlier block while the run of the block 18 checks its keys. -/
theorem overtaken_run : ((cycleProgram SecuritySample.deps).run
    (fun c _ => decide (OneBodyEach c)) CycleSample.start
    (cycleMoves 0 18 firstContract legacyAnswers ++ contextMoves 1 17 firstContract legacyAnswers ++
      recordMoves 0 ++ [.resume 1 (.collected (.ok collected)), .resume 2 .settled] ++
      depositMoves 1 ++ [.resume 1 .settled])).isSome = true := by
  decide +kernel

/-- The block 18 is recorded; then the block 17 gets its deposit message and is recorded. -/
theorem back_to_earlier_block : ∃ c, (cycleProgram SecuritySample.deps).Reachable
    (fun c _ => OneBodyEach c) CycleSample.start c ∧
    c.shared.history.filterMap CycleEvent.block = [17, 17, 18] ∧ ¬ NeverBack c.shared.history := by
  refine ⟨Option.get _ overtaken_run, Program.Reachable.refl.run
    (fun _ _ h => of_decide_eq_true h) (Option.some_get overtaken_run).symm, ?_, ?_⟩
  · decide +kernel
  · decide +kernel

end Guardian

end CouncilDaemon
