import CouncilDaemon.Deposits.Authenticity
import CouncilDaemon.Deposits.Resume

/-!
# The events an honest node lets the daemon examine

In any run, with a node that answers with the complete events in any order, a reading that returns gives
the deposits up to its block. Whether it returns depends on the tree. While the tree holds the cached
events, as every start leaves it, a reading returns exactly when the block is not behind the cached ones
and the node answers, and an update that is answered comes to its end (`reads_history`,
`update_then_read`). Once the tree is ahead of the store, no update returns and no reading from the last
finalized block on, until the process is started anew.
-/

namespace CouncilDaemon

open Registry

variable {C : Crypto} {D F : ℕ} {H : History D} {env : Env} {content : StoreContent}
  {registry : Registry}

/-! ## A reading -/

/-- The node answers with the complete events up to a block, one hash for each block, and its root of the
block is that of the history. -/
structure CompleteAt (C : Crypto) (H : History D) (block : ℕ) (blockHash : String) (env : Env) : Prop where
  deployed : deploymentBlockNetwork env.chainId = some D
  events : ∀ first events, env.fetchEventsFallOver first block = .ok events →
    events.Perm (H.between first block)
  hashes : ∀ a ∈ H.events, ∀ b ∈ H.events, a.blockNumber = b.blockNumber → a.blockHash = b.blockHash
  root : ∀ root, env.getDepositRoot blockHash = .ok root →
    root = DepositTree.depositRoot C ((H.upTo block).map (·.depositDataRoot))

/-- The block is not behind the cached ones, and the node answers the two requests. -/
structure Answered (D : ℕ) (registry : Registry) (block : ℕ) (blockHash : String) (env : Env) :
    Prop where
  age : (cachedHeaders registry D).endBlock ≤ block
  events : ∃ events, env.fetchEventsFallOver ((cachedHeaders registry D).endBlock + 1) block =
    .ok events
  root : ∃ root, env.getDepositRoot blockHash = .ok root

namespace Registry

/-- The fresh events of a complete answer, as they are sorted. -/
theorem sort_fresh {block : ℕ} {blockHash : String} (hloaded : Loaded content registry)
    (hsynced : Synced H F content) (h : CompleteAt C H block blockHash env)
    (hage : max content.endBlock D ≤ block) {freshEvents : List VerifiedDepositEvent}
    (hfetch : env.fetchEventsFallOver (max content.endBlock D + 1) block = .ok freshEvents) :
    sortEventsByDepositCount freshEvents = H.between (max content.endBlock D + 1) block ∧
      registry.store.cache.data ++ sortEventsByDepositCount freshEvents = H.upTo block ∧
      Continues registry.store.cache.data.length (sortEventsByDepositCount freshEvents) := by
  have hsort := History.sort_between (h.events _ _ hfetch)
  rw [hsort, hloaded.data, hsynced.data]
  exact ⟨rfl, History.upTo_append_between hage, History.continues_between hage⟩

/-- **A reading that returns**, whatever the tree holds. -/
theorem getAllDepositedEvents_of_loaded {block : ℕ} {blockHash : String}
    (hloaded : Loaded content registry) (hsynced : Synced H F content)
    (h : CompleteAt C H block blockHash env) {group : VerifiedDepositedEventGroup}
    {registry' : Registry}
    (hrun : (getAllDepositedEvents C env block blockHash).run registry = .ok group registry') :
    Answered D registry block blockHash env ∧
      group = { events := H.upTo block, startBlock := D, endBlock := block } ∧
      registry' = registry := by
  obtain ⟨hage, hsame, freshEvents, events, hfetch, ⟨_, hverify⟩, rfl⟩ :=
    getAllDepositedEvents_eq_ok h.deployed hrun
  obtain ⟨rfl, tree, hcheck, _⟩ := verifyFreshEvents_true hverify
  obtain ⟨root, _, hremote⟩ := checkRoot_eq_true hcheck
  refine ⟨⟨hage, ⟨freshEvents, hfetch⟩, root, hremote⟩, ?_, hsame⟩
  obtain ⟨hend, hstart⟩ := hloaded.cachedHeaders_eq hsynced
  rw [hend] at hage hfetch
  rw [(sort_fresh hloaded hsynced h hage hfetch).2.1, hstart]

/-- **A reading that is answered**, of a live registry. -/
theorem getAllDepositedEvents_answered {block : ℕ} {blockHash : String}
    (hlive : Live C content registry) (hsynced : Synced H F content)
    (h : CompleteAt C H block blockHash env) (hanswered : Answered D registry block blockHash env) :
    (getAllDepositedEvents C env block blockHash).run registry =
      .ok { events := H.upTo block, startBlock := D, endBlock := block } registry := by
  obtain ⟨hend, hstart⟩ := hlive.cachedHeaders_eq hsynced
  obtain ⟨hage, ⟨freshEvents, hfetch⟩, root, hroot⟩ := hanswered
  have hperm := h.events _ _ hfetch
  have hmem : ∀ event ∈ freshEvents, event ∈ H.events :=
    fun event hevent => (List.mem_filter.1 (hperm.mem_iff.1 hevent)).1
  have hage' := hend ▸ hage
  have hfetch' := hend ▸ hfetch
  obtain ⟨_, hall, hcont⟩ := sort_fresh hlive.toLoaded hsynced h hage' hfetch'
  have hlength : registry.store.cache.data.length + freshEvents.length < 2 ^ 32 := by
    rw [← (sortEventsByDepositCount_perm freshEvents).length_eq, ← List.length_append, hall]
    exact History.length_upTo_lt block
  rw [run_getAllDepositedEvents hlive.aligned h.deployed hage hfetch
    (fun a ha b hb => h.hashes a (hmem a ha) b (hmem b hb)) hcont hlength ?_, hall, hstart]
  rw [hall, ← h.root root hroot]
  exact hroot

/-- **A reading of a stalled registry** does not return, where it has to add the deposit that is due. -/
theorem getAllDepositedEvents_stalled {block : ℕ} {blockHash : String}
    (hstalled : Stalled H F content registry) (hsynced : Synced H F content)
    (h : CompleteAt C H block blockHash env) (hblock : F ≤ block) (group : VerifiedDepositedEventGroup)
    (registry' : Registry) :
    (getAllDepositedEvents C env block blockHash).run registry ≠ .ok group registry' := by
  intro hrun
  obtain ⟨hage, _, freshEvents, events, hfetch, ⟨_, hverify⟩, _⟩ :=
    getAllDepositedEvents_eq_ok h.deployed hrun
  rw [(hstalled.cachedHeaders_eq hsynced).1] at hage hfetch
  obtain ⟨hsort, _, hcont⟩ := sort_fresh hstalled.toLoaded hsynced h hage hfetch
  obtain ⟨due, hmem, hlater, hle⟩ := hstalled.due
  have hfresh : due ∈ sortEventsByDepositCount freshEvents := by
    rw [hsort]
    refine List.mem_filter.2 ⟨hmem, ?_⟩
    simp only [decide_eq_true_eq]
    omega
  obtain ⟨event, rest, hevents⟩ := List.exists_cons_of_ne_nil (List.ne_nil_of_mem hfresh)
  obtain ⟨_, tree, _, htree⟩ := verifyFreshEvents_true hverify
  rcases htree with ⟨rfl, _⟩ | hput
  · cases hfresh
  · have hrefused : Refused (registry.finalizedTree.clone C).nodeCount
        (sortEventsByDepositCount freshEvents) := by
      rw [hevents] at hcont ⊢
      exact ⟨event, rfl, hcont.head_eq.trans_ne (hstalled.data ▸ hstalled.ahead.symm)⟩
    rw [run_putEventsToTree_refused hrefused] at hput
    cases hput

end Registry

/-! ## Main results -/

namespace Machine

/-- A reading in any run. -/
theorem Reachable.reading {m : Machine} (hreach : Reachable C H m) (hregistry : m.live = some registry)
    {block : ℕ} {blockHash : String} (h : CompleteAt C H block blockHash env) :
    (∀ group registry', (getAllDepositedEvents C env block blockHash).run registry =
        .ok group registry' → Answered D registry block blockHash env ∧
      group = { events := H.upTo block, startBlock := D, endBlock := block } ∧
      registry' = registry) ∧
    (Aligned C registry → Answered D registry block blockHash env →
      (getAllDepositedEvents C env block blockHash).run registry =
        .ok { events := H.upTo block, startBlock := D, endBlock := block } registry) := by
  obtain ⟨content, _, hsynced, hrunning⟩ := hreach.good
  have hrun := hrunning registry hregistry
  exact ⟨fun group registry' hread => getAllDepositedEvents_of_loaded hrun.loaded hsynced h hread,
    fun haligned => getAllDepositedEvents_answered (hrun.live haligned) hsynced h⟩

/-- **Reading.** In every run, a reading at a block that returns gives the deposits up to the block, in
order, and leaves the registry as it is. While the tree holds the cached events, it returns exactly when
the block is not behind the cached ones and the node answers; otherwise no reading from the last finalized
block on returns. -/
theorem reads_history {m : Machine} (hreach : Reachable C H m) (hregistry : m.live = some registry)
    {block : ℕ} {blockHash : String} (h : CompleteAt C H block blockHash env) :
    (∀ group registry', (getAllDepositedEvents C env block blockHash).run registry =
        .ok group registry' → Answered D registry block blockHash env ∧
      group = { events := H.upTo block, startBlock := D, endBlock := block } ∧
      registry' = registry) ∧
    (Aligned C registry → ((∃ group registry',
        (getAllDepositedEvents C env block blockHash).run registry = .ok group registry') ↔
      Answered D registry block blockHash env)) ∧
    (¬ Aligned C registry → m.finalized ≤ block → ∀ group registry',
      (getAllDepositedEvents C env block blockHash).run registry ≠ .ok group registry') := by
  obtain ⟨hreads, hanswers⟩ := hreach.reading hregistry h
  refine ⟨hreads, fun haligned => ⟨?_, fun hanswered => ?_⟩, fun hnot hblock => ?_⟩
  · rintro ⟨group, registry', hread⟩
    exact (hreads group registry' hread).1
  · exact ⟨_, registry, hanswers haligned hanswered⟩
  · obtain ⟨content, _, hsynced, hrunning⟩ := hreach.good
    exact getAllDepositedEvents_stalled ((hrunning registry hregistry).stalled hnot) hsynced h hblock

theorem completeAt_answeringNode {chainId block : ℕ} (h : deploymentBlockNetwork chainId = some D)
    (hhashes : ∀ a ∈ H.events, ∀ b ∈ H.events, a.blockNumber = b.blockNumber →
      a.blockHash = b.blockHash) (blockHash : String) :
    CompleteAt .framed H block blockHash (answeringNode chainId block H) where
  deployed := h
  events first events heq := by
    obtain rfl := Except.ok.inj heq
    exact List.Perm.refl _
  hashes := hhashes
  root root heq := (Except.ok.inj heq).symm

theorem hashes_oneDeposit (D : ℕ) : ∀ a ∈ (oneDeposit D).events, ∀ b ∈ (oneDeposit D).events,
    a.blockNumber = b.blockNumber → a.blockHash = b.blockHash := by
  intro a ha b hb _
  rw [List.mem_singleton.1 ha, List.mem_singleton.1 hb]

/-- Holesky after a start, read before its first update. -/
theorem reads_history_holesky :
    (getAllDepositedEvents .framed (answeringNode 17000 1700 (oneDeposit 0)) 1700 "0xb7").run
      startedRegistry = .ok { events := (oneDeposit 0).events, startBlock := 0, endBlock := 1700 }
        startedRegistry := by
  obtain ⟨hreads, haligned, _⟩ := reads_history (reachable_started 17000 0) rfl
    (show CompleteAt .framed (oneDeposit 0) 1700 "0xb7" (answeringNode 17000 1700 (oneDeposit 0)) from
      completeAt_answeringNode rfl (hashes_oneDeposit 0) "0xb7")
  obtain ⟨group, registry', hrun⟩ := (haligned aligned_startedRegistry).2
    ⟨Nat.zero_le _, ⟨_, rfl⟩, ⟨_, rfl⟩⟩
  obtain ⟨_, rfl, rfl⟩ := hreads group registry' hrun
  exact hrun

end Machine

end CouncilDaemon
