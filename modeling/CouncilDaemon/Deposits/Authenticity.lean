import CouncilDaemon.Deposits.Fetcher
import CouncilDaemon.Deposits.FreshEvents
import CouncilDaemon.Deposits.Recovery
import CouncilDaemon.Lib.ServiceInvariant

/-!
# The deposits behind the examined events

The root check compares leaves, while the guard reads the fields of an event and its verdict. Over all
lives of the daemon, with restarts, failing writes and any answers of the node, the registry holds only
events that were fetched, in memory and in the database (`Lives.holdsOnly`); so every leaf is stored
with the fields it was computed from. With the check of the root, the events that are examined are the
events of the deposits on the chain, field by field (`forall₂_getAllDepositedEvents`).
-/

namespace CouncilDaemon

/-! ## The store holds what was fetched -/

namespace DepositsRegistryStore

variable {P : VerifiedDepositEvent → Prop} {content : StoreContent} {disk : Disk}

/-- Every event of the store satisfies `P`, in the database and in memory. -/
structure HoldsOnly (P : VerifiedDepositEvent → Prop) (store : DepositsRegistryStore) : Prop where
  stored : ∃ content, Stored store.db content ∧ ∀ event ∈ content.data, P event
  cached : ∀ event ∈ store.cache.data, P event

theorem holdsOnly_loaded {db : Db} (hstored : Stored db content)
    (hdata : ∀ event ∈ content.data, P event) : HoldsOnly P (content.loaded db) :=
  ⟨⟨content, hstored, hdata⟩, fun event hevent => hdata event (mem_load hevent)⟩

theorem preserves_deleteDeposits (n : ℕ) (headers : VerifiedDepositEventsCacheHeaders) :
    Service.Preserves (HoldsOnly P) (deleteDepositsGreaterThanOrEqualNBatch disk n headers) := by
  refine Service.preserves_of_after fun store h => ?_
  obtain ⟨content, hstored, hdata⟩ := h.stored
  by_cases hn : n < 2 ^ 32
  · rw [run_deleteDeposits hstored hn]
    cases disk.write (content.deletionOps n headers) with
    | ok _ =>
      refine holdsOnly_loaded (hstored.deletionOps n headers) ?_
      intro event hevent
      exact hdata event (List.mem_filter.1 hevent).1
    | error e => exact h
  · obtain ⟨e, he⟩ := run_deleteDeposits_of_le store disk (not_lt.1 hn) headers
    rw [he]
    exact h

theorem preserves_clearFromLastValidEvent :
    Service.Preserves (HoldsOnly P) (clearFromLastValidEvent disk) := by
  refine Service.preserves_of_after fun store h => ?_
  obtain ⟨content, hstored, hdata⟩ := h.stored
  rw [run_clearFromLastValidEvent hstored]
  split_ifs
  · exact h
  · exact (preserves_deleteDeposits _ _).after h

theorem preserves_validateAndClean :
    Service.Preserves (HoldsOnly P) (validateAndCleanInconsistentCache disk) := by
  refine Service.preserves_of_after fun store h => ?_
  rw [run_validateAndCleanInconsistentCache]
  dsimp only
  split_ifs
  · exact h
  · exact (preserves_deleteDeposits _ _).after h

theorem preserves_initializeStore : Service.Preserves (HoldsOnly P) (initializeStore disk) := by
  refine Service.preserves_of_after fun store h => ?_
  obtain ⟨content, hstored, hdata⟩ := h.stored
  rw [run_initializeStore hstored]
  exact preserves_validateAndClean.after (holdsOnly_loaded hstored hdata)

theorem forall_mem_putAll {events : List VerifiedDepositEvent} :
    ∀ {content : StoreContent} (hlt : ∀ event ∈ events, event.depositCount < 2 ^ 32),
      (∀ event ∈ content.data, P event) → (∀ event ∈ events, P event) →
      ∀ event ∈ (content.putAll events hlt).data, P event := by
  induction events with
  | nil => intro content hlt hdata _; exact hdata
  | cons first events ih =>
    intro content hlt hdata hevents
    refine ih _ ?_ fun event hevent => hevents event (List.mem_cons_of_mem _ hevent)
    intro event hevent
    rcases StoreContent.mem_put.1 hevent with rfl | ⟨hmem, _⟩
    · exact hevents event List.mem_cons_self
    · exact hdata event hmem

theorem preserves_insertEventsCacheBatch {data : List VerifiedDepositEvent}
    (hevents : ∀ event ∈ data, P event) (headers : VerifiedDepositEventsCacheHeaders) :
    Service.Preserves (HoldsOnly P) (insertEventsCacheBatch disk data headers) := by
  refine Service.preserves_of_after fun store h => ?_
  obtain ⟨content, hstored, hdata⟩ := h.stored
  by_cases hlt : ∀ event ∈ data, event.depositCount < 2 ^ 32
  · rw [run_insertEventsCacheBatch store disk hlt headers]
    dsimp only
    cases disk.write (StoreContent.insertionOps data headers) with
    | ok _ =>
      refine ⟨⟨_, hstored.insertionOps hlt headers, forall_mem_putAll hlt hdata hevents⟩, ?_⟩
      intro event hevent
      rcases List.mem_append.1 hevent with hevent | hevent
      · exact h.cached event hevent
      · exact hevents event hevent
    | error e => exact ⟨⟨content, hstored, hdata⟩, h.cached⟩
  · push Not at hlt
    obtain ⟨event, hevent, hle⟩ := hlt
    obtain ⟨error, size, count, hrun⟩ := run_insertEventsCacheBatch_of_le store disk
      ⟨event, hevent, hle⟩ headers
    rw [hrun]
    exact ⟨⟨content, hstored, hdata⟩, h.cached⟩

theorem preserves_insertLastValidEvent (event : VerifiedDepositEvent) :
    Service.Preserves (HoldsOnly P) (insertLastValidEvent disk event) := by
  refine Service.preserves_of_after fun store h => ?_
  obtain ⟨content, hstored, hdata⟩ := h.stored
  rw [run_insertLastValidEvent]
  cases disk.write [.put "last-valid-event" (depositEventRecord event)] with
  | ok _ => exact ⟨⟨_, hstored.putLastValidEvent event, hdata⟩, h.cached⟩
  | error e => exact h

end DepositsRegistryStore

/-! ## The registry holds what was fetched -/

namespace Registry

variable {C : Crypto} {env : Env} {P : VerifiedDepositEvent → Prop}

/-- Every event that a call fetches satisfies `P`. -/
def FetchesOnly (P : VerifiedDepositEvent → Prop) (env : Env) : Prop :=
  ∀ startBlock endBlock events, env.fetchEventsFallOver startBlock endBlock = .ok events →
    ∀ event ∈ events, P event

/-- Every event of the registry satisfies `P`. -/
def HoldsOnly (P : VerifiedDepositEvent → Prop) (registry : Registry) : Prop :=
  registry.store.HoldsOnly P

theorem preserves_onStore {α : Type} {m : Service DepositsRegistryStore α}
    (h : Service.Preserves (DepositsRegistryStore.HoldsOnly P) m) :
    Service.Preserves (HoldsOnly P) (onStore m) :=
  Service.preserves_zoom (fun _ _ => rfl) h

theorem preserves_onTree {α : Type} (m : Service DepositTree α) :
    Service.Preserves (HoldsOnly P) (onTree m) := by
  have hkeeps : Service.Keeps (fun registry : Registry => registry.store) (onTree m) := by
    intro registry
    rw [run_onTree]
    cases m.run registry.finalizedTree with
    | ok a tree => rfl
    | error e tree => rfl
  exact hkeeps.preserves

theorem preserves_of_keeps {α : Type} {m : Service Registry α} (h : Service.Keeps id m) :
    Service.Preserves (HoldsOnly P) m :=
  Service.Keeps.preserves h

theorem preserves_addEventGroupToIndex (events : List VerifiedDepositEvent) :
    Service.Preserves (HoldsOnly P) (addEventGroupToIndex C events) := by
  unfold addEventGroupToIndex putFinalizedEvents
  split_ifs
  · exact Service.preserves_pure _
  · refine (preserves_onTree _).bind fun _ => Service.preserves_get.bind fun registry => ?_
    exact (Service.preserves_call _).bind fun _ => Service.preserves_pure _

theorem preserves_updateChunk (hfetch : FetchesOnly P env)
    (headers : VerifiedDepositEventsCacheHeaders) (chunkStartBlock chunkToBlock : ℕ) :
    Service.Preserves (HoldsOnly P) (updateChunk C env headers chunkStartBlock chunkToBlock) := by
  refine Service.preserves_call_bind fun chunkEvents hchunk => ?_
  refine (preserves_addEventGroupToIndex _).bind fun _ => ?_
  have hsorted : ∀ event ∈ sortEventsByDepositCount chunkEvents, P event := by
    intro event hevent
    exact hfetch _ _ _ hchunk event ((sortEventsByDepositCount_perm chunkEvents).mem_iff.1 hevent)
  refine (preserves_onStore ?_).bind fun _ => Service.preserves_pure _
  exact DepositsRegistryStore.preserves_insertEventsCacheBatch hsorted _

theorem preserves_updateChunks (hfetch : FetchesOnly P env)
    (headers : VerifiedDepositEventsCacheHeaders) (chunks : List (ℕ × ℕ)) :
    ∀ lastIndexedEvent, Service.Preserves (HoldsOnly P)
      (updateChunks C env headers chunks lastIndexedEvent) := by
  induction chunks with
  | nil =>
    intro lastIndexedEvent
    exact Service.preserves_pure _
  | cons chunk chunks ih =>
    intro lastIndexedEvent
    obtain ⟨chunkStartBlock, chunkToBlock⟩ := chunk
    exact (preserves_updateChunk hfetch headers _ _).bind fun sortedEvents => ih _

theorem preserves_finishUpdate (finalizedBlockHash : String)
    (lastIndexedEvent : Option VerifiedDepositEvent) :
    Service.Preserves (HoldsOnly P) (finishUpdate C env finalizedBlockHash lastIndexedEvent) := by
  refine (preserves_of_keeps (keeps_checkFinalizedRoot _)).bind fun isRootValid => ?_
  split_ifs
  · cases lastIndexedEvent with
    | none => exact (Service.preserves_pure _).bind fun _ => Service.preserves_pure _
    | some event =>
      exact (preserves_onStore (DepositsRegistryStore.preserves_insertLastValidEvent event)).bind
        fun _ => Service.preserves_pure _
  · exact (preserves_onStore DepositsRegistryStore.preserves_clearFromLastValidEvent).bind
      fun _ => Service.preserves_pure _

theorem preserves_updateEventsCache (hfetch : FetchesOnly P env) :
    Service.Preserves (HoldsOnly P) (updateEventsCache C env) := by
  refine (Service.preserves_call _).bind fun block => ?_
  obtain ⟨finalizedBlockNumber, finalizedBlockHash⟩ := block
  refine (preserves_of_keeps keeps_getCachedEvents).bind fun initialCache => ?_
  dsimp only
  split_ifs
  · exact Service.preserves_pure _
  · exact (preserves_updateChunks hfetch _ _ _).bind fun _ => preserves_finishUpdate _ _

theorem preserves_start : Service.Preserves (HoldsOnly P) (start C env) := by
  refine (preserves_onStore DepositsRegistryStore.preserves_initializeStore).bind fun _ => ?_
  exact Service.preserves_get.bind fun registry => preserves_onTree _

/-- The registries of the daemon: each process starts on the database that the one before it left,
and is given up at any point between two updates. An update that is killed is one whose next answer is
an error. -/
inductive Lives (C : Crypto) (answers : Env → Prop) : Registry → Prop
  | start {env : Env} (h : answers env) :
      Lives C answers (Service.after ((start C env).run (opened C OrderedStore.empty)))
  | restart {env : Env} {registry : Registry} (hlives : Lives C answers registry)
      (h : answers env) :
      Lives C answers (Service.after ((Registry.start C env).run (opened C registry.store.db)))
  | update {env : Env} {registry : Registry} (hlives : Lives C answers registry)
      (h : answers env) : Lives C answers (Service.after ((updateEventsCache C env).run registry))

theorem holdsOnly_opened {db : Db} {content : StoreContent} (hstored : Stored db content)
    (hdata : ∀ event ∈ content.data, P event) : HoldsOnly P (opened C db) :=
  ⟨⟨content, hstored, hdata⟩, fun event hevent => by cases hevent⟩

/-- **Only fetched events**, in every registry that the daemon ever has. -/
theorem Lives.holdsOnly {answers : Env → Prop} (hfetch : ∀ env, answers env → FetchesOnly P env)
    {registry : Registry} (h : Lives C answers registry) : HoldsOnly P registry := by
  induction h with
  | start _ =>
    refine preserves_start.after (holdsOnly_opened Stored.empty ?_)
    intro event hevent
    cases hevent
  | restart _ _ ih =>
    obtain ⟨content, hstored, hdata⟩ := ih.stored
    exact preserves_start.after (holdsOnly_opened hstored hdata)
  | update _ henv ih => exact (preserves_updateEventsCache (hfetch _ henv)).after ih

/-! ## The examined events -/

theorem mem_of_verifyFreshEvents {blockHash : String} {freshEvents events : List VerifiedDepositEvent}
    {registry registry' : Registry} {isValid : Bool}
    (h : (verifyFreshEvents C env blockHash freshEvents).run registry =
      .ok (isValid, events) registry') : ∀ event ∈ events, event ∈ freshEvents := by
  unfold verifyFreshEvents at h
  cases hlast : freshEvents.getLast? with
  | none =>
    rw [hlast] at h
    obtain ⟨verdict, registry₁, _, hreturn⟩ := Service.bind_ok h
    cases hreturn
    exact fun event hevent => hevent
  | some lastEvent =>
    rw [hlast] at h
    dsimp only at h
    split_ifs at h
    · cases h
      exact fun event hevent => hevent
    · unfold checkLatestRoot at h
      obtain ⟨tree, registry₁, _, h⟩ := Service.bind_ok h
      obtain ⟨verdict, registry₂, _, hreturn⟩ := Service.bind_ok h
      cases hreturn
      exact fun event hevent => (sortEventsByDepositCount_perm freshEvents).mem_iff.1 hevent

/-- What is examined was fetched, now or before. -/
theorem forall_getAllDepositedEvents (hfetch : FetchesOnly P env) {registry registry' : Registry}
    (hholds : HoldsOnly P registry) {blockNumber : ℕ} {blockHash : String}
    {group : VerifiedDepositedEventGroup}
    (h : (getAllDepositedEvents C env blockNumber blockHash).run registry = .ok group registry') :
    ∀ event ∈ group.events, P event := by
  unfold getAllDepositedEvents at h
  cases hdeployed : deploymentBlockNetwork env.chainId with
  | none => rw [Service.run_bind_error (run_getCachedEvents_none hdeployed)] at h; cases h
  | some deploymentBlock =>
    rw [Service.run_bind_ok (run_getCachedEvents hdeployed)] at h
    dsimp only at h
    split_ifs at h
    · cases h
    obtain ⟨freshEvents, registry₁, hcall, h⟩ := Service.bind_ok h
    obtain ⟨hanswer, rfl⟩ := Service.call_ok hcall
    obtain ⟨⟨isValid, events⟩, registry₂, hverify, h⟩ := Service.bind_ok h
    cases isValid with
    | false => cases h
    | true =>
      obtain rfl := (EStateM.Result.ok.inj h).1
      intro event hevent
      rcases List.mem_append.1 hevent with hevent | hevent
      · exact hholds.cached event hevent
      · exact hfetch _ _ _ hanswer event (mem_of_verifyFreshEvents hverify event hevent)

/-- The verdict on fresh events that come in any order and continue the cached ones is that of the roots. -/
theorem run_verifyFreshEvents_checkRoot (env : Env) {registry : Registry} (ha : Aligned C registry)
    (blockHash : String) {freshEvents : List VerifiedDepositEvent}
    (hhash : ∀ a ∈ freshEvents, ∀ b ∈ freshEvents, a.blockNumber = b.blockNumber →
      a.blockHash = b.blockHash)
    (hcontinues :
      Continues registry.store.cache.data.length (sortEventsByDepositCount freshEvents)) :
    ∃ tree, DepositTree.Holds C tree
        ((registry.store.cache.data ++ sortEventsByDepositCount freshEvents).map
          (·.depositDataRoot)) ∧
      (verifyFreshEvents C env blockHash freshEvents).run registry = (do
        let isRootValid ← Service.call (checkRoot C env blockHash tree)
        return (isRootValid, sortEventsByDepositCount freshEvents)).run registry := by
  unfold verifyFreshEvents
  cases hlast : freshEvents.getLast? with
  | none =>
    obtain rfl : freshEvents = [] := List.getLast?_eq_none_iff.1 hlast
    refine ⟨registry.finalizedTree, ?_, rfl⟩
    rw [show sortEventsByDepositCount [] = [] from rfl, List.append_nil]
    exact ha.holds
  | some lastEvent =>
    have hnone : findReorganizedEvent freshEvents lastEvent.blockNumber lastEvent.blockHash =
        none := by
      refine List.find?_eq_none.2 fun event hevent hreorganized => ?_
      rw [decide_eq_true_eq] at hreorganized
      exact hreorganized.2 (hhash event hevent lastEvent (List.mem_of_getLast? hlast)
        hreorganized.1)
    obtain ⟨clone, hclone, hput⟩ := run_putEventsToTree (sortEventsByDepositCount freshEvents)
      (DepositTree.Holds.clone ha.holds)
    rw [List.length_map] at hclone hput
    rw [if_pos (countedFrom_eq_self_iff.2 hcontinues)] at hput
    rw [countedFrom_eq_self_iff.2 hcontinues, ← List.map_append] at hclone
    refine ⟨clone, hclone, ?_⟩
    dsimp only
    rw [hnone]
    simp only [Option.isSome_none, Bool.false_eq_true, if_false, checkLatestRoot, putLatestEvents,
      EStateM.run_bind, EStateM.run_get, Service.runOn, hput, Service.run_call_ok, EStateM.run_pure]

/-- Fresh events of an honest node, in any order, are accepted. -/
theorem run_verifyFreshEvents {registry : Registry} (ha : Aligned C registry) {blockHash : String}
    {freshEvents : List VerifiedDepositEvent}
    (hhash : ∀ a ∈ freshEvents, ∀ b ∈ freshEvents, a.blockNumber = b.blockNumber →
      a.blockHash = b.blockHash)
    (hcontinues : Continues registry.store.cache.data.length (sortEventsByDepositCount freshEvents))
    (hlength : registry.store.cache.data.length + freshEvents.length < 2 ^ 32)
    (hroot : env.getDepositRoot blockHash = .ok (DepositTree.depositRoot C
      ((registry.store.cache.data ++ sortEventsByDepositCount freshEvents).map
        (·.depositDataRoot)))) :
    (verifyFreshEvents C env blockHash freshEvents).run registry =
      .ok (true, sortEventsByDepositCount freshEvents) registry := by
  obtain ⟨tree, htree, hrun⟩ := run_verifyFreshEvents_checkRoot env ha blockHash hhash hcontinues
  have hsorted := (sortEventsByDepositCount_perm freshEvents).length_eq
  have hcheck := checkRoot_of_holds htree
    (by rw [List.length_map, List.length_append, hsorted]; exact hlength) hroot
  rw [hrun, hcheck]
  rfl

/-- **An honest node is accepted.** -/
theorem run_getAllDepositedEvents {registry : Registry} (ha : Aligned C registry)
    {deploymentBlock : ℕ} (hdeployed : deploymentBlockNetwork env.chainId = some deploymentBlock)
    {blockNumber : ℕ} {blockHash : String}
    (hage : (cachedHeaders registry deploymentBlock).endBlock ≤ blockNumber)
    {freshEvents : List VerifiedDepositEvent}
    (hfetch : env.fetchEventsFallOver ((cachedHeaders registry deploymentBlock).endBlock + 1)
      blockNumber = .ok freshEvents)
    (hhash : ∀ a ∈ freshEvents, ∀ b ∈ freshEvents, a.blockNumber = b.blockNumber →
      a.blockHash = b.blockHash)
    (hcontinues : Continues registry.store.cache.data.length (sortEventsByDepositCount freshEvents))
    (hlength : registry.store.cache.data.length + freshEvents.length < 2 ^ 32)
    (hroot : env.getDepositRoot blockHash = .ok (DepositTree.depositRoot C
      ((registry.store.cache.data ++ sortEventsByDepositCount freshEvents).map
        (·.depositDataRoot)))) :
    (getAllDepositedEvents C env blockNumber blockHash).run registry = .ok {
      events := registry.store.cache.data ++ sortEventsByDepositCount freshEvents
      startBlock := (cachedHeaders registry deploymentBlock).startBlock
      endBlock := blockNumber } registry := by
  unfold getAllDepositedEvents
  rw [Service.run_bind_ok (run_getCachedEvents hdeployed)]
  have hold : (!validateCacheBlock
      { registry.store.cache with headers := cachedHeaders registry deploymentBlock }
      blockNumber) = false := by
    simpa [validateCacheBlock] using hage
  dsimp only
  rw [if_neg (by rw [hold]; simp)]
  simp only [hfetch, EStateM.run_bind, Service.run_call_ok,
    run_verifyFreshEvents ha hhash hcontinues hlength hroot, Bool.not_true, Bool.false_eq_true,
    if_false, EStateM.run_pure]

/-! ## Authenticity -/

section Authentic

variable (ssz : SszPackage C) (blst : Blst) (blsService : BlsService)

/-- The events are fetched by the fetcher from a node whose logs have the format of the contract. The
node may leave out logs, repeat, change or invent them. -/
def FetchesLogs (env : Env) : Prop :=
  ∃ queryFilter : (before : List EventsRange.RangeTask) → (startBlock endBlock : ℤ) →
      Except FetchError (List DepositEventEvent),
    (∀ before first last rawEvents, queryFilter before first last = .ok rawEvents →
      ∀ rawEvent ∈ rawEvents, rawEvent.HasFormat) ∧
    env.fetchEventsFallOver =
      DepositsRegistryFetcher.fetchEventsFallOver ssz blst blsService queryFilter

variable {ssz blst blsService}

theorem FetchesLogs.fetchesOnly {forkVersion : Bytes}
    (hversion : blsService.forkVersion = some forkVersion) {env : Env}
    (h : FetchesLogs ssz blst blsService env) : FetchesOnly (IsEvent ssz blst forkVersion) env := by
  obtain ⟨queryFilter, hformat, hfetcher⟩ := h
  intro startBlock endBlock events hevents
  rw [hfetcher] at hevents
  exact DepositsRegistryFetcher.fetchEventsFallOver_isEvent hversion hformat hevents

/-- Events with the leaves of the deposits on the chain are the events of these deposits. -/
theorem isEventOf_of_leaves (hdigest : Function.Injective2 C.digest2Bytes32) {forkVersion : Bytes}
    {events : List VerifiedDepositEvent} :
    ∀ {onChain : List Deposit}, (∀ event ∈ events, IsEvent ssz blst forkVersion event) →
      events.map (·.depositDataRoot) = onChain.map (Deposit.node C) →
      List.Forall₂ (IsEventOf ssz blst forkVersion) events onChain := by
  induction events with
  | nil =>
    intro onChain _ hleaves
    obtain rfl : onChain = [] := List.map_eq_nil_iff.1 hleaves.symm
    exact List.Forall₂.nil
  | cons event events ih =>
    intro onChain hevents hleaves
    cases onChain with
    | nil => cases hleaves
    | cons d onChain =>
      obtain ⟨hleaf, hrest⟩ := List.cons.inj hleaves
      obtain ⟨d', hd'⟩ := hevents event List.mem_cons_self
      obtain rfl : d' = d := Deposit.node_injective hdigest (hd'.leaf.symm.trans hleaf)
      exact List.Forall₂.cons hd'
        (ih (fun e he => hevents e (List.mem_cons_of_mem _ he)) hrest)

theorem forall₂_getAllDepositedEvents (hdigest : Function.Injective2 C.digest2Bytes32)
    (hsha : Function.Injective C.sha256) {forkVersion : Bytes}
    (hversion : blsService.forkVersion = some forkVersion) {registry registry' : Registry}
    (hlives : Lives C (FetchesLogs ssz blst blsService) registry) (ha : Aligned C registry)
    (henv : FetchesLogs ssz blst blsService env) {onChain : List Deposit}
    (hn : onChain.length < 2 ^ 32) {blockNumber : ℕ} {blockHash : String}
    (hroot : ∀ root, env.getDepositRoot blockHash = .ok root →
      root = DepositTree.depositRoot C (onChain.map (Deposit.node C)))
    (hcached : registry.store.cache.data.length < 2 ^ 32)
    (hfetched : ∀ startBlock endBlock events,
      env.fetchEventsFallOver startBlock endBlock = .ok events → events.length < 2 ^ 32)
    {group : VerifiedDepositedEventGroup}
    (hrun : (getAllDepositedEvents C env blockNumber blockHash).run registry =
      .ok group registry') :
    List.Forall₂ (IsEventOf ssz blst forkVersion) group.events onChain ∧
      group.events.map (·.depositCount) = List.range onChain.length := by
  obtain ⟨hleaves, hcounts⟩ := getAllDepositedEvents_ok hdigest hsha ha
    (by rwa [List.length_map]) hroot hcached hfetched hrun
  rw [List.length_map] at hcounts
  refine ⟨isEventOf_of_leaves hdigest ?_ hleaves, hcounts⟩
  refine forall_getAllDepositedEvents (henv.fetchesOnly hversion) ?_ hrun
  exact hlives.holdsOnly fun env h => h.fetchesOnly hversion

end Authentic

end Registry

end CouncilDaemon
