import CouncilDaemon.Guardian.CycleSteps

/-!
# Wallet switches

A message is signed by the wallet of its context, and leaves from the wallet that is active when the
transport is connected, which the next cycle may have switched. As long as no other wallet becomes active
while a message waits, and a ping is built under the active wallet, each message leaves from the wallet
that its context designates and that has signed it (`senders_consistent`).
-/

namespace CouncilDaemon

namespace Guardian

open SecurityService

variable (deps : SecurityDeps)

/-- A message leaves from the wallet that its context designates, which has made the signature in it. -/
def SentByDesignated : CycleEvent → Prop
  | .published context message sender => ∃ wallet, designatedWallet deps context = some wallet ∧
      sender = wallet.address ∧ ∀ signature, message.signature = some signature →
        ∃ digest, signature = deps.signDigest wallet digest
  | _ => True

instance (s : CycleState) (context : GuardianExecutionContext) : Decidable (Active deps s context) :=
  inferInstanceAs (Decidable (_ = _))

/-- A wallet that a step makes active is that of every context of a message that waits, and a ping is
built while the wallet of its context is active. -/
def KeepsSender (c : Configuration CycleState CycleThread) : Move CycleCall CycleAnswer → Prop
  | .start _ => True
  | .resume place answer => ∀ thread ∈ c.threads[place]?,
      (∀ wallet ∈ thread.selects deps c.shared answer, ∀ other ∈ c.threads,
        ∀ context ∈ other.unpublished, designatedWallet deps context = some wallet) ∧
      ∀ context ∈ thread.pings c.shared answer, Active deps c.shared context

instance (c : Configuration CycleState CycleThread) (move : Move CycleCall CycleAnswer) :
    Decidable (KeepsSender deps c move) :=
  match move with
  | .start _ => isTrue trivial
  | .resume place answer => inferInstanceAs (Decidable (∀ thread ∈ c.threads[place]?,
      (∀ wallet ∈ thread.selects deps c.shared answer, ∀ other ∈ c.threads,
        ∀ context ∈ other.unpublished, designatedWallet deps context = some wallet) ∧
      ∀ context ∈ thread.pings c.shared answer, Active deps c.shared context))

/-- The messages of a thread can leave from the active wallet. -/
structure Sendable (s : CycleState) (thread : CycleThread) : Prop where
  unpublished : ∀ context ∈ thread.unpublished, Active deps s context
  payloads : ∀ payload ∈ thread.payloads, SignedFor deps payload

variable {deps} {s t : CycleState} {thread : CycleThread}

theorem Active.congr {context : GuardianExecutionContext} (h : Active deps s context)
    (hwallet : t.security.activeWallet = s.security.activeWallet) : Active deps t context := by
  unfold Active
  rw [hwallet]
  exact h

/-- The active wallet stays, or is replaced by the wallet of the context. -/
theorem Active.step {context : GuardianExecutionContext} {answer : CycleAnswer}
    (h : Active deps s context)
    (hwallet : t.security.activeWallet = s.security.activeWallet ∨
      ∃ wallet, thread.selects deps s answer = some wallet ∧ t.security.activeWallet = some wallet)
    (hkeeps : ∀ wallet, thread.selects deps s answer = some wallet →
      designatedWallet deps context = some wallet) : Active deps t context := by
  rcases hwallet with hsame | ⟨wallet, hselects, hactive⟩
  · exact h.congr hsame
  · unfold Active
    rw [hactive]
    exact hkeeps wallet hselects

theorem Free.sendable (h : Free thread) : Sendable deps s thread := by
  refine ⟨fun context hmem => ?_, fun payload hmem => ?_⟩
  · rw [h.unpublished] at hmem
    cases hmem
  · rw [h.payloads] at hmem
    cases hmem

/-- What a step adds to the history is sent by the designated wallet, if it is sent. -/
theorem sentByDesignated_of_notes {answer : CycleAnswer} {event : CycleEvent}
    (h : Sendable deps s thread) (hevent : thread.Notes deps answer s t event) :
    SentByDesignated deps event := by
  cases hevent with
  | prepared hblock hlast => trivial
  | recorded hrecords hlast => trivial
  | published hcontext hpayload hlast =>
    have hactive := h.unpublished _ hcontext
    refine ⟨_, hactive, rfl, fun signature hsignature => ?_⟩
    obtain ⟨wallet, digest, hwallet, hsigned⟩ := h.payloads _ (hpayload signature hsignature)
    obtain rfl := Option.some.inj (hactive.symm.trans hwallet)
    exact ⟨digest, hsigned⟩

/-- **Senders.** In every run in which no other wallet becomes active while a message waits, and pings
are built under the active wallet. -/
theorem senders_consistent (dsmContract : Option String) (activeWallet : Option Wallet)
    {c : Configuration CycleState CycleThread}
    (h : (cycleProgram deps).Reachable (KeepsSender deps)
      (started { dsmContract := dsmContract, activeWallet := activeWallet }) c) :
    ∀ event ∈ c.shared.history, SentByDesignated deps event := by
  have hasserts : Program.Asserts
      (fun s : CycleState => ∀ event ∈ s.history, SentByDesignated deps event)
      (Sendable deps) c.shared c.threads := by
    refine h.threads ⟨fun event hmem => (by cases hmem), fun thread hmem => (by cases hmem)⟩ ?_ ?_
    · intro call s threads hs _
      obtain ⟨hsecurity, hhistory, _, hfree⟩ := @start_spec deps call s
      refine ⟨⟨?_, fun other hmem => (hfree other hmem).sendable⟩, fun other hmem => ?_⟩
      · show ∀ event ∈ ((cycleProgram deps).start call s).1.history, SentByDesignated deps event
        rw [hhistory]
        exact hs.1
      · refine ⟨fun context hcontext => ?_, (hs.2 other hmem).payloads⟩
        exact ((hs.2 other hmem).unpublished context hcontext).congr (by rw [hsecurity])
    · intro before thread after answer s next hs hallowed hnext
      obtain ⟨hstate, hfollows⟩ := stepSpec hnext
      have hthread : (before ++ thread :: after)[before.length]? = some thread := by simp
      obtain ⟨hselects, hpings⟩ := hallowed thread hthread
      have hactive : ∀ other ∈ before ++ thread :: after, ∀ context ∈ other.unpublished,
          Active deps next.1 context := by
        intro other hmem context hcontext
        exact ((hs.2 other hmem).unpublished context hcontext).step hstate.activeWallet
          fun wallet hwallet => hselects wallet hwallet other hmem context hcontext
      have hmem : thread ∈ before ++ thread :: after := by simp
      have hsendable := hs.2 thread hmem
      refine ⟨⟨?_, fun other hother => ?_⟩, fun other hother => ?_⟩
      · show ∀ event ∈ next.1.history, SentByDesignated deps event
        rcases hstate.history with ⟨hsame, _⟩ | ⟨event, hnotes, hhistory⟩
        · rw [hsame]
          exact hs.1
        · rw [hhistory]
          intro event' hevent'
          rcases List.mem_cons.1 hevent' with rfl | hold
          · exact sentByDesignated_of_notes hsendable hnotes
          · exact hs.1 event' hold
      · refine ⟨fun context hcontext => ?_, fun payload hpayload => ?_⟩
        · rcases (hfollows other hother).unpublished context hcontext with
            hold | hnew | ⟨hping, hsecurity⟩
          · exact hactive thread hmem context hold
          · exact hnew
          · exact (hpings context hping).congr (by rw [hsecurity])
        · rcases (hfollows other hother).payloads payload hpayload with hold | hnew
          · exact hsendable.payloads payload hold
          · exact hnew
      · have hold : other ∈ before ++ thread :: after := by
          rcases List.mem_append.1 hother with hother | hother
          · exact List.mem_append_left _ hother
          · exact List.mem_append_right _ (List.mem_cons_of_mem _ hother)
        exact ⟨hactive other hold, (hs.2 other hold).payloads⟩
  exact hasserts.1

/-! ## Two runs -/

open CycleSample

/-- The delegates before and after a rotation. -/
def firstDelegate : String := "0x2222222222222222222222222222222222222222"

def secondDelegate : String := "0x1111111111111111111111111111111111111111"

/-- A cycle up to the publication of its deposit message, and no other cycle. -/
theorem published_run : ((cycleProgram SecuritySample.deps).run
    (fun c move => decide (KeepsSender SecuritySample.deps c move)) CycleSample.start
    (cycleMoves 0 17 firstContract (delegateAnswers firstDelegate) ++ (depositMoves 0).take 4)).isSome =
    true := by
  decide +kernel

/-- The deposit message for the block 17, signed by the first delegate. -/
def publishedDeposit (sender : String) : CycleEvent :=
  .published SecuritySample.delegate
    (.deposit (StakingModuleGuard.depositMessage
      StakingModuleGuard.DepositMessagesSample.stakingModuleData
      (collected.blockData (snapshot 17) SecuritySample.delegate)
      (SecuritySample.deps.signDigest ⟨firstDelegate⟩
        (SecuritySample.keccak256 (List.replicate 212 0))))) sender

theorem senders_consistent_published :
    SentByDesignated SecuritySample.deps (publishedDeposit firstDelegate) := by
  refine senders_consistent (some firstContract) none (c := Option.get _ published_run)
    (Program.Reachable.refl.run (fun _ _ h => of_decide_eq_true h)
      (Option.some_get published_run).symm) _ ?_
  have hhistory : (Option.get _ published_run).shared.history.head? =
      some (publishedDeposit firstDelegate) := by
    decide +kernel
  exact List.mem_of_head? hhistory

/-- The delegate rotates while a deposit message waits for the transport. -/
theorem rotated_run : ((cycleProgram SecuritySample.deps).run (fun _ _ => true) CycleSample.start
    (cycleMoves 0 17 firstContract (delegateAnswers firstDelegate) ++
      (contextMoves 1 18 firstContract (delegateAnswers secondDelegate)).take 6 ++
      (depositMoves 0).take 3 ++
      (contextMoves 1 18 firstContract (delegateAnswers secondDelegate)).drop 6 ++
      ((depositMoves 0).drop 3).take 1)).isSome = true := by
  decide +kernel

/-- The message of the first delegate leaves from the wallet of the second. -/
theorem sent_by_other_delegate : ∃ c, (cycleProgram SecuritySample.deps).Reachable
    (fun _ _ => True) CycleSample.start c ∧
    ∃ event ∈ c.shared.history, ¬ SentByDesignated SecuritySample.deps event := by
  refine ⟨Option.get _ rotated_run, Program.Reachable.refl.run (fun _ _ _ => trivial)
    (Option.some_get rotated_run).symm, publishedDeposit secondDelegate, ?_, ?_⟩
  · have hhistory : (Option.get _ rotated_run).shared.history.head? =
        some (publishedDeposit secondDelegate) := by
      decide +kernel
    exact List.mem_of_head? hhistory
  · rintro ⟨wallet, hwallet, hsender, _⟩
    have hdesignated : designatedWallet SecuritySample.deps SecuritySample.delegate =
        some ⟨firstDelegate⟩ := by
      decide +kernel
    obtain rfl := Option.some.inj (hdesignated.symm.trans hwallet)
    exact absurd hsender (by decide)

end Guardian

end CouncilDaemon
