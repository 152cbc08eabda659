import CouncilDaemon.Guardian.CycleSteps

/-!
# Contract switches

A context has the address of the contract it was made for, but what is signed and sent under it goes by
the cached contract, which the next cycle may replace. As long as no cycle stores the address of another
contract while a thread of an earlier context may still read the cache, each signature has the prefix of
the contract of its context and each transaction reaches that contract (`contracts_consistent`).
-/

namespace CouncilDaemon

namespace Guardian

open SecurityService

variable (deps : SecurityDeps)

/-- The transaction reaches the contract of its context, by the call of the context's version. -/
structure Targets (context : GuardianExecutionContext) (transaction : ContractTransaction) : Prop where
  v4 : context.dsmVersion ≠ dsmContractVersion5 →
    deps.ethers.getAddress transaction.contract = .ok context.dsmAddress ∧
    ∀ target data, transaction.call ≠ .execute target data
  v5 : context.dsmVersion = dsmContractVersion5 →
    transaction.contract = context.guardianAddress ∧
    ∃ data, transaction.call = .execute context.dsmAddress data

/-- A signature is over a digest with the prefix that was read from the contract of its context; a
transaction reaches that contract. -/
def OnOwnContract : SecurityEvent → Prop
  | .signed context contract messagePrefix request _ digest =>
    deps.ethers.getAddress contract = .ok context.dsmAddress ∧
    ∃ bytes, preimage deps messagePrefix context request = .ok bytes ∧
      digest = deps.ethers.keccak256 bytes
  | .sent context transaction => Targets deps context transaction

/-- An address that a step stores is that of the contract of every context under which the cache may
still be read. -/
def KeepsContract (c : Configuration CycleState CycleThread) :
    Move CycleCall CycleAnswer → Prop
  | .start _ => True
  | .resume place answer => ∀ thread ∈ c.threads[place]?, ∀ address ∈ thread.stores answer,
      ∀ other ∈ c.threads, ∀ dsmAddress ∈ other.relies,
        deps.ethers.getAddress address = .ok dsmAddress

instance (c : Configuration CycleState CycleThread) (move : Move CycleCall CycleAnswer) :
    Decidable (KeepsContract deps c move) :=
  match move with
  | .start _ => isTrue trivial
  | .resume place answer => inferInstanceAs (Decidable (∀ thread ∈ c.threads[place]?,
      ∀ address ∈ thread.stores answer, ∀ other ∈ c.threads, ∀ dsmAddress ∈ other.relies,
        deps.ethers.getAddress address = .ok dsmAddress))

/-- What a thread relies on is there. -/
structure Held (s : CycleState) (thread : CycleThread) : Prop where
  relies : ∀ dsmAddress ∈ thread.relies, HasContract deps s dsmAddress
  readings : ∀ reading ∈ thread.readings,
    deps.ethers.getAddress reading.1 = .ok reading.2.dsmAddress

variable {deps} {s t : CycleState} {thread : CycleThread}

theorem targets_directTransaction {context : GuardianExecutionContext} {contract : String}
    (wallet : Wallet) (call : DirectCall)
    (h : deps.ethers.getAddress contract = .ok context.dsmAddress) :
    Targets deps context (directTransaction context wallet contract call) := by
  unfold directTransaction
  constructor
  · intro hversion
    rw [if_neg hversion]
    refine ⟨h, fun target data => ?_⟩
    cases call <;> exact fun hexecute => by cases hexecute
  · intro hversion
    rw [if_pos hversion]
    exact ⟨rfl, _, rfl⟩

theorem Free.held (h : Free thread) : Held deps s thread := by
  refine ⟨fun dsmAddress hmem => ?_, fun reading hmem => ?_⟩
  · rw [h.relies] at hmem
    cases hmem
  · rw [h.readings] at hmem
    cases hmem

/-- The cached contract stays, or is replaced by one at the same address. -/
theorem HasContract.step {dsmAddress : String} {answer : CycleAnswer}
    (h : HasContract deps s dsmAddress)
    (hcontract : t.security.dsmContract = s.security.dsmContract ∨
      ∃ address, thread.stores answer = some address ∧ t.security.dsmContract = some address)
    (hkeeps : ∀ address, thread.stores answer = some address →
      deps.ethers.getAddress address = .ok dsmAddress) : HasContract deps t dsmAddress := by
  rcases hcontract with hsame | ⟨address, hstores, hstored⟩
  · obtain ⟨contract, hcached, haddress⟩ := h
    exact ⟨contract, hsame.trans hcached, haddress⟩
  · exact ⟨address, hstored, hkeeps address hstores⟩

/-- What a step lets out is on the contract of its context. -/
theorem onOwnContract_of_leaves {event : SecurityEvent} (h : Held deps s thread)
    (hevent : thread.Leaves deps s event) : OnOwnContract deps event := by
  cases hevent with
  | signed hreading hbytes => exact ⟨h.readings _ hreading, _, hbytes, rfl⟩
  | sent hrelies hcached =>
    obtain ⟨contract, hcontract, haddress⟩ := h.relies _ hrelies
    obtain rfl := Option.some.inj (hcached.symm.trans hcontract)
    exact targets_directTransaction _ _ haddress

/-- **Contracts.** In every run in which no address of another contract is stored while the cache may
still be read under an earlier context. -/
theorem contracts_consistent (dsmContract : Option String) (activeWallet : Option Wallet)
    {c : Configuration CycleState CycleThread}
    (h : (cycleProgram deps).Reachable (KeepsContract deps)
      (started { dsmContract := dsmContract, activeWallet := activeWallet }) c) :
    ∀ event ∈ c.shared.security.events, OnOwnContract deps event := by
  have hasserts : Program.Asserts
      (fun s : CycleState => ∀ event ∈ s.security.events, OnOwnContract deps event)
      (Held deps) c.shared c.threads := by
    refine h.threads ⟨fun event hmem => (by cases hmem), fun thread hmem => (by cases hmem)⟩ ?_ ?_
    · intro call s threads hs _
      obtain ⟨hsecurity, _, _, hfree⟩ := @start_spec deps call s
      refine ⟨⟨?_, fun other hmem => (hfree other hmem).held⟩, fun other hmem => ?_⟩
      · show ∀ event ∈ ((cycleProgram deps).start call s).1.security.events, OnOwnContract deps event
        rw [hsecurity]
        exact hs.1
      · refine ⟨fun dsmAddress hrelies => ?_, (hs.2 other hmem).readings⟩
        unfold HasContract
        rw [hsecurity]
        exact (hs.2 other hmem).relies dsmAddress hrelies
    · intro before thread after answer s next hs hallowed hnext
      obtain ⟨hstate, hfollows⟩ := stepSpec hnext
      have hthread : (before ++ thread :: after)[before.length]? = some thread := by simp
      have hkeeps : ∀ other ∈ before ++ thread :: after, ∀ dsmAddress ∈ other.relies,
          HasContract deps next.1 dsmAddress := by
        intro other hmem dsmAddress hrelies
        exact ((hs.2 other hmem).relies dsmAddress hrelies).step hstate.dsmContract
          fun address hstores => hallowed thread hthread address hstores other hmem dsmAddress hrelies
      have hmem : thread ∈ before ++ thread :: after := by simp
      have hheld := hs.2 thread hmem
      refine ⟨⟨?_, fun other hother => ?_⟩, fun other hother => ?_⟩
      · show ∀ event ∈ next.1.security.events, OnOwnContract deps event
        rcases hstate.events with hsame | ⟨event, hleaves, hevents⟩
        · rw [hsame]
          exact hs.1
        · rw [hevents]
          intro event' hevent'
          rcases List.mem_cons.1 hevent' with rfl | hold
          · exact onOwnContract_of_leaves hheld hleaves
          · exact hs.1 event' hold
      · refine ⟨fun dsmAddress hrelies => ?_, fun reading hreading => ?_⟩
        · rcases (hfollows other hother).relies dsmAddress hrelies with hold | hnew
          · exact hkeeps thread hmem dsmAddress hold
          · exact hnew
        · rcases (hfollows other hother).readings reading hreading with hold | ⟨hcached, hrelies⟩
          · exact hheld.readings reading hold
          · obtain ⟨contract, hcontract, haddress⟩ := hkeeps thread hmem _ hrelies
            obtain rfl := Option.some.inj (hcached.symm.trans hcontract)
            exact haddress
      · have hold : other ∈ before ++ thread :: after := by
          rcases List.mem_append.1 hother with hother | hother
          · exact List.mem_append_left _ hother
          · exact List.mem_append_right _ (List.mem_cons_of_mem _ hother)
        exact ⟨hkeeps other hold, (hs.2 other hold).readings⟩
  exact hasserts.1

/-! ## Two runs -/

open CycleSample

/-- A cycle whose background run signs a deposit message, and no other cycle. -/
theorem single_run : ((cycleProgram SecuritySample.deps).run
    (fun c move => decide (KeepsContract SecuritySample.deps c move)) CycleSample.start
    (cycleMoves 0 17 firstContract legacyAnswers ++ (depositMoves 0).take 2)).isSome = true := by
  decide +kernel

/-- The message for the block 17, with the prefix read from a contract. -/
def signedDeposit (contract : String) : SecurityEvent :=
  .signed (legacyContext firstContract 4 "0x1111111111111111111111111111111111111111"
      ["0x1111111111111111111111111111111111111111"])
    contract PayloadsSample.lowerPrefix
    (.deposit collected.depositRoot 4 17 (blockHash 17) 1)
    ⟨"0x1111111111111111111111111111111111111111"⟩
    (SecuritySample.keccak256 (List.replicate 192 0))

theorem contracts_consistent_single :
    OnOwnContract SecuritySample.deps (signedDeposit firstContract) := by
  refine contracts_consistent (some firstContract) none (c := Option.get _ single_run)
    (Program.Reachable.refl.run (fun _ _ h => of_decide_eq_true h) (Option.some_get single_run).symm)
    _ ?_
  have hevents : (Option.get _ single_run).shared.security.events = [signedDeposit firstContract] := by
    decide +kernel
  rw [hevents]
  exact List.mem_singleton_self _

/-- The next cycle finds another contract while the keys of the block before it are checked. -/
theorem switched_run : ((cycleProgram SecuritySample.deps).run (fun _ _ => true) CycleSample.start
    (cycleMoves 0 17 firstContract legacyAnswers ++
      (contextMoves 1 18 secondContract legacyAnswers).take 3 ++ (depositMoves 0).take 2)).isSome =
    true := by
  decide +kernel

/-- The deposit message is signed with the prefix of the other contract. -/
theorem signed_on_other_contract : ∃ c, (cycleProgram SecuritySample.deps).Reachable
    (fun _ _ => True) CycleSample.start c ∧
    ∃ event ∈ c.shared.security.events, ¬ OnOwnContract SecuritySample.deps event := by
  refine ⟨Option.get _ switched_run, Program.Reachable.refl.run (fun _ _ _ => trivial)
    (Option.some_get switched_run).symm, signedDeposit secondContract, ?_, ?_⟩
  · have hevents : (Option.get _ switched_run).shared.security.events =
        [signedDeposit secondContract] := by
      decide +kernel
    rw [hevents]
    exact List.mem_singleton_self _
  · rintro ⟨haddress, _⟩
    exact absurd haddress (by decide +kernel)

end Guardian

end CouncilDaemon
