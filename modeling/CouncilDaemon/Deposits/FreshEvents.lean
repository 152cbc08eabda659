import CouncilDaemon.Deposits.TreeAlignment

/-!
# The events the daemon examines

`getAllDepositedEvents` adds the events after the cached blocks to the cached ones and compares the
root of both together with the root of the deposit contract. Whatever events the node returned, if
the registry was aligned and the method returns, its events are the deposits on the chain
(`getAllDepositedEvents_ok`); in every other case it throws, and it never changes the registry
(`getAllDepositedEvents_keeps`).
-/

namespace CouncilDaemon

namespace Registry

variable {C : Crypto} {env : Env} {registry : Registry}

theorem sortEventsByDepositCount_perm (events : List VerifiedDepositEvent) :
    (sortEventsByDepositCount events).Perm events := List.perm_insertionSort _ _

theorem run_checkFinalizedRoot (blockHash : String) :
    (checkFinalizedRoot C env blockHash).run registry =
      (Service.call (checkRoot C env blockHash registry.finalizedTree)).run registry := rfl

theorem checkRoot_eq_true {tree : DepositTree} {blockHash : String}
    (h : checkRoot C env blockHash tree = .ok true) :
    ∃ root, tree.getRoot C = .ok root ∧ env.getDepositRoot blockHash = .ok root := by
  unfold checkRoot at h
  cases hlocal : tree.getRoot C with
  | error e => rw [hlocal] at h; cases h
  | ok localRoot =>
    cases hremote : env.getDepositRoot blockHash with
    | error e => rw [hlocal, hremote] at h; cases h
    | ok remoteRoot =>
      rw [hlocal, hremote] at h
      have heq : localRoot = remoteRoot := by
        simpa using (Except.ok.inj h)
      exact ⟨localRoot, rfl, by rw [heq]⟩

/-- The tree of the deposits on the chain has the root of the chain. -/
theorem checkRoot_of_holds {tree : DepositTree} {leaves : List Bytes} {blockHash : String}
    (htree : DepositTree.Holds C tree leaves) (hlength : leaves.length < 2 ^ 32)
    (hroot : env.getDepositRoot blockHash = .ok (DepositTree.depositRoot C leaves)) :
    checkRoot C env blockHash tree = .ok true := by
  unfold checkRoot
  rw [DepositTree.getRoot_of_holds htree hlength, hroot]
  simp [bind, Except.bind, pure, Except.pure]

/-! ## The registry is only read -/

theorem keeps_getCachedEvents : Service.Keeps id (getCachedEvents env) :=
  Service.keeps_get.bind fun _ => (Service.keeps_call _).bind fun _ => Service.keeps_pure _

theorem keeps_checkFinalizedRoot (blockHash : String) :
    Service.Keeps id (checkFinalizedRoot C env blockHash) :=
  Service.keeps_get.bind fun _ => Service.keeps_call _

theorem keeps_checkLatestRoot (blockHash : String) (events : List VerifiedDepositEvent) :
    Service.Keeps id (checkLatestRoot C env blockHash events) := by
  have hlatest : Service.Keeps id (putLatestEvents C (sortEventsByDepositCount events)) :=
    Service.keeps_get.bind fun _ => (Service.keeps_call _).bind fun _ => Service.keeps_pure _
  exact hlatest.bind fun _ => (Service.keeps_call _).bind fun _ => Service.keeps_pure _

theorem keeps_verifyFreshEvents (blockHash : String) (freshEvents : List VerifiedDepositEvent) :
    Service.Keeps id (verifyFreshEvents C env blockHash freshEvents) := by
  unfold verifyFreshEvents
  cases freshEvents.getLast? with
  | none => exact (keeps_checkFinalizedRoot blockHash).bind fun _ => Service.keeps_pure _
  | some lastEvent =>
    dsimp only
    split_ifs
    · exact Service.keeps_pure _
    · exact keeps_checkLatestRoot blockHash freshEvents

/-- Reading the deposited events changes nothing. -/
theorem getAllDepositedEvents_keeps (blockNumber : ℕ) (blockHash : String) :
    Service.Keeps id (getAllDepositedEvents C env blockNumber blockHash) := by
  refine keeps_getCachedEvents.bind fun cachedEvents => ?_
  dsimp only
  split_ifs
  · exact Service.keeps_throw_bind _ _
  · refine (Service.keeps_call _).bind fun freshEvents => ?_
    refine (keeps_verifyFreshEvents blockHash freshEvents).bind fun verdict => ?_
    obtain ⟨isValid, events⟩ := verdict
    cases isValid with
    | false => exact Service.keeps_throw_bind _ _
    | true => exact Service.keeps_pure _

/-! ## What is returned has been verified -/

/-- Fresh events that pass are sorted, and the node has the root of a tree: of the finalized one, or of
its clone with the events. -/
theorem verifyFreshEvents_true {blockHash : String} {freshEvents events : List VerifiedDepositEvent}
    {registry' : Registry} (hrun : (verifyFreshEvents C env blockHash freshEvents).run registry =
      .ok (true, events) registry') :
    events = sortEventsByDepositCount freshEvents ∧ ∃ tree, checkRoot C env blockHash tree = .ok true ∧
      (freshEvents = [] ∧ tree = registry.finalizedTree ∨
        (putEventsToTree C (sortEventsByDepositCount freshEvents)).run
          (registry.finalizedTree.clone C) = .ok () tree) := by
  unfold verifyFreshEvents at hrun
  cases hlast : freshEvents.getLast? with
  | none =>
    obtain rfl : freshEvents = [] := List.getLast?_eq_none_iff.1 hlast
    simp only [List.getLast?_nil, EStateM.run_bind, run_checkFinalizedRoot] at hrun
    cases hcheck : checkRoot C env blockHash registry.finalizedTree with
    | error e => rw [hcheck] at hrun; cases hrun
    | ok isRootValid =>
      rw [hcheck] at hrun
      obtain ⟨rfl, rfl⟩ : isRootValid = true ∧ ([] : List VerifiedDepositEvent) = events :=
        Prod.mk.inj (EStateM.Result.ok.inj hrun).1
      exact ⟨rfl, registry.finalizedTree, hcheck, Or.inl ⟨rfl, rfl⟩⟩
  | some lastEvent =>
    rw [hlast] at hrun
    dsimp only at hrun
    split_ifs at hrun with hreorg
    · exact absurd (EStateM.Result.ok.inj hrun).1 (by simp)
    · unfold checkLatestRoot putLatestEvents at hrun
      obtain ⟨tree, registry₁, hlatest, hrun⟩ := Service.bind_ok hrun
      simp only [EStateM.run_bind, EStateM.run_get] at hlatest
      cases hput : (putEventsToTree C (sortEventsByDepositCount freshEvents)).run
          (registry.finalizedTree.clone C) with
      | error e clone => rw [Service.runOn, hput] at hlatest; cases hlatest
      | ok _ clone =>
        rw [Service.runOn, hput] at hlatest
        obtain ⟨rfl, rfl⟩ : clone = tree ∧ registry = registry₁ := by simpa using hlatest
        cases hcheck : checkRoot C env blockHash clone with
        | error e => rw [hcheck] at hrun; cases hrun
        | ok isRootValid =>
          rw [hcheck] at hrun
          obtain ⟨rfl, rfl⟩ : isRootValid = true ∧ sortEventsByDepositCount freshEvents = events :=
            Prod.mk.inj (EStateM.Result.ok.inj hrun).1
          exact ⟨rfl, clone, hcheck, Or.inr rfl⟩

/-- A reading that returns has added fresh events that pass to the cached ones. -/
theorem getAllDepositedEvents_eq_ok {deploymentBlock : ℕ}
    (hdeployed : deploymentBlockNetwork env.chainId = some deploymentBlock) {blockNumber : ℕ}
    {blockHash : String} {group : VerifiedDepositedEventGroup} {registry' : Registry}
    (hrun : (getAllDepositedEvents C env blockNumber blockHash).run registry = .ok group registry') :
    (cachedHeaders registry deploymentBlock).endBlock ≤ blockNumber ∧ registry' = registry ∧
      ∃ freshEvents events, env.fetchEventsFallOver
          ((cachedHeaders registry deploymentBlock).endBlock + 1) blockNumber = .ok freshEvents ∧
        (∃ registry₁, (verifyFreshEvents C env blockHash freshEvents).run registry =
          .ok (true, events) registry₁) ∧
        group = {
          events := registry.store.cache.data ++ events
          startBlock := (cachedHeaders registry deploymentBlock).startBlock
          endBlock := blockNumber } := by
  have hkept : registry' = registry := by
    have hkeeps : Service.Keeps id (getAllDepositedEvents C env blockNumber blockHash) :=
      getAllDepositedEvents_keeps blockNumber blockHash
    have hsame := hkeeps registry
    rwa [hrun] at hsame
  unfold getAllDepositedEvents at hrun
  rw [Service.run_bind_ok (run_getCachedEvents hdeployed)] at hrun
  dsimp only at hrun
  split_ifs at hrun with hage
  · cases hrun
  obtain ⟨freshEvents, registry₁, hfetch, hrun⟩ := Service.bind_ok hrun
  cases hanswer : env.fetchEventsFallOver
      ((cachedHeaders registry deploymentBlock).endBlock + 1) blockNumber with
  | error e => rw [hanswer] at hfetch; cases hfetch
  | ok answer =>
    rw [hanswer] at hfetch
    obtain ⟨rfl, rfl⟩ : answer = freshEvents ∧ registry = registry₁ := by simpa using hfetch
    obtain ⟨⟨isValid, events⟩, registry₂, hverify, hrun⟩ := Service.bind_ok hrun
    cases isValid with
    | false => cases hrun
    | true =>
      obtain rfl := (EStateM.Result.ok.inj hrun).1
      refine ⟨?_, hkept, answer, events, rfl, ⟨registry₂, hverify⟩, rfl⟩
      simpa [validateCacheBlock] using hage

/-! ## What is verified is on the chain -/

section Integrity

variable {blockHash : String} {onChain : List Bytes}

/-- The events are the deposits on the chain: their roots are its leaves, in order, and they are
counted from zero on. -/
def AreOnChain (events : List VerifiedDepositEvent) (onChain : List Bytes) : Prop :=
  events.map (·.depositDataRoot) = onChain ∧ events.map (·.depositCount) = List.range onChain.length

theorem areOnChain_of_counted {events : List VerifiedDepositEvent}
    (hroots : events.map (·.depositDataRoot) = onChain)
    (hcounted : events.map (·.depositCount) = List.range' 0 events.length) :
    AreOnChain events onChain := by
  refine ⟨hroots, ?_⟩
  rw [hcounted, ← hroots, List.length_map, List.range_eq_range']

/-- **Verification.** Fresh events that pass complete the cached ones to the deposits on the chain,
as the in-place sort leaves them. -/
theorem verifyFreshEvents_ok (hdigest : Function.Injective2 C.digest2Bytes32)
    (hsha : Function.Injective C.sha256) (ha : Aligned C registry) (hn : onChain.length < 2 ^ 32)
    (hroot : ∀ root, env.getDepositRoot blockHash = .ok root →
      root = DepositTree.depositRoot C onChain)
    {freshEvents events : List VerifiedDepositEvent} {registry' : Registry}
    (hsize : registry.store.cache.data.length + freshEvents.length < 2 ^ 53)
    (hrun : (verifyFreshEvents C env blockHash freshEvents).run registry =
      .ok (true, events) registry') :
    AreOnChain (registry.store.cache.data ++ events) onChain := by
  obtain ⟨rfl, tree, hcheck, htree⟩ := verifyFreshEvents_true hrun
  obtain ⟨root, hlocal, hremote⟩ := checkRoot_eq_true hcheck
  rw [hroot root hremote] at hlocal
  rcases htree with ⟨rfl, rfl⟩ | hput
  · rw [show sortEventsByDepositCount [] = [] from rfl, List.append_nil]
    refine areOnChain_of_counted ?_ ha.counted
    exact DepositTree.eq_of_getRoot hdigest hsha ha.holds (by simpa using hsize) hn hlocal
  · obtain ⟨clone, hclone, hrun'⟩ := run_putEventsToTree (sortEventsByDepositCount freshEvents)
      (DepositTree.Holds.clone ha.holds)
    rw [List.length_map] at hclone hrun'
    rw [hrun'] at hput
    split_ifs at hput with hcont
    obtain rfl := (EStateM.Result.ok.inj hput).2
    rw [hcont, ← List.map_append] at hclone
    have hlength := (sortEventsByDepositCount_perm freshEvents).length_eq
    refine areOnChain_of_counted ?_ ?_
    · exact DepositTree.eq_of_getRoot hdigest hsha hclone (by simpa [hlength] using hsize) hn hlocal
    · rw [List.map_append, ha.counted, countedFrom_eq_self_iff.1 hcont, List.length_append,
        ← List.range'_append_1, Nat.zero_add]

/-- **Integrity of the examined deposits.** When the method returns, the events are the deposits on
the chain. -/
theorem getAllDepositedEvents_ok (hdigest : Function.Injective2 C.digest2Bytes32)
    (hsha : Function.Injective C.sha256) (ha : Aligned C registry) (hn : onChain.length < 2 ^ 32)
    (hroot : ∀ root, env.getDepositRoot blockHash = .ok root →
      root = DepositTree.depositRoot C onChain)
    (hcached : registry.store.cache.data.length < 2 ^ 32)
    (hfetched : ∀ startBlock endBlock events,
      env.fetchEventsFallOver startBlock endBlock = .ok events → events.length < 2 ^ 32)
    {blockNumber : ℕ} {group : VerifiedDepositedEventGroup} {registry' : Registry}
    (hrun : (getAllDepositedEvents C env blockNumber blockHash).run registry =
      .ok group registry') :
    AreOnChain group.events onChain := by
  cases hdeployed : deploymentBlockNetwork env.chainId with
  | none =>
    unfold getAllDepositedEvents at hrun
    rw [Service.run_bind_error (run_getCachedEvents_none hdeployed)] at hrun
    cases hrun
  | some deploymentBlock =>
    obtain ⟨_, _, freshEvents, events, hfetch, ⟨_, hverify⟩, rfl⟩ :=
      getAllDepositedEvents_eq_ok hdeployed hrun
    refine verifyFreshEvents_ok hdigest hsha ha hn hroot ?_ hverify
    have := hfetched _ _ _ hfetch
    omega

end Integrity

end Registry

end CouncilDaemon
