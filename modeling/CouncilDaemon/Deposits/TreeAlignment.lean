import CouncilDaemon.Deposits.Registry
import CouncilDaemon.Deposits.StoreSpec

/-!
# The tree and the store

`Aligned`: the finalized tree holds the deposit data roots of the cached events, which are counted
from zero on. A started registry is aligned (`aligned_of_start`). An update moves a chunk first into
the tree and then into the store, so what a chunk does to the alignment depends on where it stops:
refused at its first event it changes nothing (`run_updateChunk_refused`), stopped inside it leaves
its front part in the tree (`run_updateChunk_broken`), stopped by the store it leaves all of its
events in the tree (`run_updateChunk_unwritten`), and otherwise both have all of it
(`run_updateChunk_written`).

Over a run of updates the registry stays aligned exactly when every chunk reached is of the first or
the last kind (`aligned_states_iff`). One chunk with a gap is enough to lose the alignment
(`not_aligned_after_gap`).
-/

namespace CouncilDaemon

namespace Registry

variable {C : Crypto} {env : Env} {registry : Registry}

/-- The finalized tree holds exactly the deposit data roots of the cached events, in order, and the
events are counted from zero on. -/
structure Aligned (C : Crypto) (registry : Registry) : Prop where
  holds : DepositTree.Holds C registry.finalizedTree
    (registry.store.cache.data.map (·.depositDataRoot))
  counted : registry.store.cache.data.map (·.depositCount) =
    List.range' 0 registry.store.cache.data.length

/-! ## Events into a tree -/

/-- The tree refuses the events at the first of them. -/
def Refused (count : ℕ) (events : List VerifiedDepositEvent) : Prop :=
  ∃ event ∈ events.head?, event.depositCount ≠ count

/-- Events that are refused at the first of them leave the tree as it is. -/
theorem run_putEventsToTree_refused {tree : DepositTree} {events : List VerifiedDepositEvent}
    (h : Refused tree.nodeCount events) : (putEventsToTree C events).run tree =
      .error "Problem found while forming deposit tree with event" tree := by
  obtain ⟨event, hhead, hcount⟩ := h
  obtain ⟨rest, rfl⟩ := List.head?_eq_some_iff.1 hhead
  simp [putEventsToTree, DepositTree.insert_other (C := C) event.depositDataRoot hcount]

/-- **Events into a tree.** The tree takes the well counted front part of the events; when that is
not all of them, the insertion throws. -/
theorem run_putEventsToTree (events : List VerifiedDepositEvent) :
    ∀ {tree : DepositTree} {l : List Bytes}, DepositTree.Holds C tree l →
      ∃ tree', DepositTree.Holds C tree'
          (l ++ (countedFrom l.length events).map (·.depositDataRoot)) ∧
        (putEventsToTree C events).run tree =
          if countedFrom l.length events = events then .ok () tree'
          else .error "Problem found while forming deposit tree with event" tree' := by
  induction events with
  | nil =>
    intro tree l h
    exact ⟨tree, by simpa [countedFrom] using h, rfl⟩
  | cons event events ih =>
    intro tree l h
    by_cases hcount : event.depositCount = l.length
    · obtain ⟨tree₁, hinsert, h₁⟩ := DepositTree.insert_next h event.depositDataRoot
      obtain ⟨tree₂, h₂, hrest⟩ := ih h₁
      rw [List.length_append, List.length_singleton] at h₂ hrest
      refine ⟨tree₂, by simpa [countedFrom, hcount] using h₂, ?_⟩
      simp only [putEventsToTree, EStateM.run_bind, hcount, hinsert, Bool.not_true,
        Bool.false_eq_true, if_false, hrest, countedFrom, if_true,
        List.cons.injEq, true_and]
    · refine ⟨tree, by simpa [countedFrom, hcount] using h, ?_⟩
      rw [run_putEventsToTree_refused ⟨event, rfl, h.nodeCount_eq ▸ hcount⟩]
      simp [countedFrom, hcount]

theorem run_onStore {α : Type} (m : Service DepositsRegistryStore α) :
    (onStore m).run registry =
      match m.run registry.store with
      | .ok a store => .ok a { registry with store }
      | .error e store => .error e { registry with store } := by
  rw [onStore, Service.run_zoom]
  cases m.run registry.store <;> rfl

theorem run_onTree {α : Type} (m : Service DepositTree α) :
    (onTree m).run registry =
      match m.run registry.finalizedTree with
      | .ok a finalizedTree => .ok a { registry with finalizedTree }
      | .error e finalizedTree => .error e { registry with finalizedTree } := by
  rw [onTree, Service.run_zoom]
  cases m.run registry.finalizedTree <;> rfl

/-- A started registry is aligned. -/
theorem aligned_of_start {db : Db} (h : (start C env).run (opened C db) = .ok () registry) :
    Aligned C registry := by
  unfold start at h
  simp only [EStateM.run_bind, run_onStore] at h
  cases hstore : (DepositsRegistryStore.initializeStore env.disk).run (opened C db).store with
  | error e store => rw [hstore] at h; cases h
  | ok _ store =>
    simp only [hstore, EStateM.run_get, run_onTree] at h
    obtain ⟨tree, hholds, hrun⟩ := run_putEventsToTree store.cache.data
      (DepositTree.holds_new (C := C))
    have hfresh : (opened C db).finalizedTree = DepositTree.new C := rfl
    rw [hfresh, hrun] at h
    split_ifs at h with hcounted
    obtain rfl := (EStateM.Result.ok.inj h).2
    rw [List.length_nil] at hcounted
    rw [List.length_nil, hcounted, List.nil_append] at hholds
    exact ⟨hholds, countedFrom_eq_self_iff.1 hcounted⟩

/-! ## One chunk -/

/-- The events are counted from `count` on. -/
def Continues (count : ℕ) (events : List VerifiedDepositEvent) : Prop :=
  events.map (·.depositCount) = List.range' count events.length

theorem Continues.head_eq {count : ℕ} {event : VerifiedDepositEvent}
    {events : List VerifiedDepositEvent} (h : Continues count (event :: events)) :
    event.depositCount = count := by
  rw [Continues, List.map_cons, List.length_cons, List.range'_succ] at h
  exact (List.cons.inj h).1

/-- The store takes the events: each has a key, and the disk does the write. -/
def Written (disk : Disk) (events : List VerifiedDepositEvent)
    (headers : VerifiedDepositEventsCacheHeaders) : Prop :=
  (∀ e ∈ events, e.depositCount < 2 ^ 32) ∧
    disk.write (StoreContent.insertionOps events headers) = .ok ()

variable {headers : VerifiedDepositEventsCacheHeaders} {first last : ℕ}
  {events : List VerifiedDepositEvent}

theorem refused_iff {count : ℕ} :
    Refused count events ↔ events ≠ [] ∧ countedFrom count events = [] := by
  cases events with
  | nil => simp [Refused]
  | cons event events => simp [Refused, countedFrom]

theorem Aligned.nodeCount_eq (h : Aligned C registry) :
    registry.finalizedTree.nodeCount = registry.store.cache.data.length := by
  rw [h.holds.nodeCount_eq, List.length_map]

/-- The tree is ahead of the cache. -/
theorem not_aligned_of_nodeCount
    (h : registry.finalizedTree.nodeCount ≠ registry.store.cache.data.length) :
    ¬ Aligned C registry := fun ha => h ha.nodeCount_eq

theorem run_addEventGroupToIndex (h : Aligned C registry) (events : List VerifiedDepositEvent) :
    ∃ tree, DepositTree.Holds C tree (registry.store.cache.data.map (·.depositDataRoot) ++
        (countedFrom registry.store.cache.data.length events).map (·.depositDataRoot)) ∧
      (addEventGroupToIndex C events).run registry =
        if countedFrom registry.store.cache.data.length events = events then
          .ok () { registry with finalizedTree := tree }
        else .error "Problem found while forming deposit tree with event"
          { registry with finalizedTree := tree } := by
  by_cases hnil : events = []
  · subst hnil
    exact ⟨registry.finalizedTree, by simpa [countedFrom] using h.holds, rfl⟩
  · obtain ⟨tree, hholds, hrun⟩ := run_putEventsToTree events h.holds
    rw [List.length_map] at hholds hrun
    refine ⟨tree, hholds, ?_⟩
    simp only [addEventGroupToIndex, hnil, if_false, putFinalizedEvents, EStateM.run_bind,
      run_onTree, hrun]
    split_ifs
    · simp only [EStateM.run_get, DepositTree.getRoot_eq hholds, Service.run_call_ok]
      rfl
    · rfl

/-- Whatever the tree holds, a group that it refuses at its first event changes nothing. -/
theorem run_addEventGroupToIndex_refused (h : Refused registry.finalizedTree.nodeCount events) :
    (addEventGroupToIndex C events).run registry =
      .error "Problem found while forming deposit tree with event" registry := by
  have hnil : events ≠ [] := by
    rintro rfl
    obtain ⟨event, hhead, _⟩ := h
    cases hhead
  simp only [addEventGroupToIndex, hnil, if_false, putFinalizedEvents, EStateM.run_bind, run_onTree,
    run_putEventsToTree_refused h]

/-- A chunk that is not fetched changes nothing. -/
theorem run_updateChunk_error {e : String} (h : env.fetchEventsFallOver first last = .error e) :
    (updateChunk C env headers first last).run registry = .error e registry := by
  simp [updateChunk, h]

/-- A chunk that is fetched goes into the tree, then into the store. -/
theorem run_updateChunk (h : env.fetchEventsFallOver first last = .ok events) :
    (updateChunk C env headers first last).run registry =
      (addEventGroupToIndex C (sortEventsByDepositCount events) >>= fun _ => do
        onStore (DepositsRegistryStore.insertEventsCacheBatch env.disk
          (sortEventsByDepositCount events) { headers with endBlock := last })
        return sortEventsByDepositCount events).run registry := by
  rw [updateChunk, h]
  rfl

/-- A chunk refused at its first event changes nothing. -/
theorem run_updateChunk_refused (headers : VerifiedDepositEventsCacheHeaders)
    (h : env.fetchEventsFallOver first last = .ok events)
    (hrefused : Refused registry.finalizedTree.nodeCount (sortEventsByDepositCount events)) :
    (updateChunk C env headers first last).run registry =
      .error "Problem found while forming deposit tree with event" registry :=
  (run_updateChunk h).trans (Service.run_bind_error (run_addEventGroupToIndex_refused hrefused))

/-- A chunk that breaks off after its first event leaves its front part in the tree. -/
theorem run_updateChunk_broken (headers : VerifiedDepositEventsCacheHeaders) (ha : Aligned C registry)
    (h : env.fetchEventsFallOver first last = .ok events)
    (hrefused : ¬ Refused registry.store.cache.data.length (sortEventsByDepositCount events))
    (hcont : ¬ Continues registry.store.cache.data.length (sortEventsByDepositCount events)) :
    ∃ e registry', (updateChunk C env headers first last).run registry = .error e registry' ∧
      ¬ Aligned C registry' := by
  obtain ⟨tree, hholds, hrun⟩ := run_addEventGroupToIndex ha (sortEventsByDepositCount events)
  have hne : countedFrom registry.store.cache.data.length (sortEventsByDepositCount events) ≠
      sortEventsByDepositCount events := fun heq => hcont (countedFrom_eq_self_iff.1 heq)
  have hpos : 0 < (countedFrom registry.store.cache.data.length
      (sortEventsByDepositCount events)).length := by
    refine List.length_pos_iff.2 fun hnil => hrefused (refused_iff.2 ⟨fun hs => hne ?_, hnil⟩)
    rw [hnil, hs]
  rw [if_neg hne] at hrun
  refine ⟨_, _, (run_updateChunk h).trans (Service.run_bind_error hrun),
    not_aligned_of_nodeCount ?_⟩
  have := hholds.nodeCount_eq
  rw [List.length_append, List.length_map, List.length_map] at this
  show tree.nodeCount ≠ registry.store.cache.data.length
  omega

/-- A well counted chunk that the store does not take is in the tree all the same. -/
theorem run_updateChunk_unwritten (ha : Aligned C registry)
    (h : env.fetchEventsFallOver first last = .ok events)
    (hcont : Continues registry.store.cache.data.length (sortEventsByDepositCount events))
    (hwrite : ¬ Written env.disk (sortEventsByDepositCount events) { headers with endBlock := last }) :
    ∃ e registry', (updateChunk C env headers first last).run registry = .error e registry' ∧
      (Aligned C registry' ↔ sortEventsByDepositCount events = []) ∧
      registry'.finalizedTree.nodeCount =
        registry.store.cache.data.length + (sortEventsByDepositCount events).length ∧
      registry'.store.cache = registry.store.cache ∧ registry'.store.db = registry.store.db := by
  obtain ⟨tree, hholds, hrun⟩ := run_addEventGroupToIndex ha (sortEventsByDepositCount events)
  rw [countedFrom_eq_self_iff.2 hcont, if_pos rfl] at hrun
  rw [countedFrom_eq_self_iff.2 hcont] at hholds
  obtain ⟨e, size, count, hinsert⟩ : ∃ e size count,
      (DepositsRegistryStore.insertEventsCacheBatch env.disk (sortEventsByDepositCount events)
        { headers with endBlock := last }).run registry.store = .error e { registry.store with
          cacheSizeBytes := size, cacheEventCount := count } := by
    by_cases hlt : ∀ e ∈ sortEventsByDepositCount events, e.depositCount < 2 ^ 32
    · have hdisk := DepositsRegistryStore.run_insertEventsCacheBatch registry.store env.disk hlt
        { headers with endBlock := last }
      cases hw : env.disk.write (StoreContent.insertionOps (sortEventsByDepositCount events)
          { headers with endBlock := last }) with
      | ok _ => exact absurd ⟨hlt, hw⟩ hwrite
      | error e =>
        rw [hw] at hdisk
        exact ⟨e, _, _, hdisk⟩
    · have hle : ∃ e ∈ sortEventsByDepositCount events, 2 ^ 32 ≤ e.depositCount := by
        by_contra hnone
        exact hlt fun e he => not_le.1 fun hge => hnone ⟨e, he, hge⟩
      exact DepositsRegistryStore.run_insertEventsCacheBatch_of_le _ _ hle _
  have hcount : tree.nodeCount =
      registry.store.cache.data.length + (sortEventsByDepositCount events).length := by
    rw [hholds.nodeCount_eq, List.length_append, List.length_map, List.length_map]
  refine ⟨e, { registry with
    store := { registry.store with cacheSizeBytes := size, cacheEventCount := count }
    finalizedTree := tree }, ?_, ?_, hcount, rfl, rfl⟩
  · rw [run_updateChunk h, Service.run_bind_ok hrun, EStateM.run_bind, run_onStore]
    simp only [hinsert]
  · constructor
    · intro h'
      have hheld : tree.nodeCount = registry.store.cache.data.length := by
        rw [h'.holds.nodeCount_eq, List.length_map]
      exact List.length_eq_zero_iff.1 (by omega)
    · intro hnil
      exact ⟨by simpa [hnil] using hholds, ha.counted⟩

/-- A well counted chunk that the store takes is in both. -/
theorem run_updateChunk_written (ha : Aligned C registry)
    (h : env.fetchEventsFallOver first last = .ok events)
    (hcont : Continues registry.store.cache.data.length (sortEventsByDepositCount events))
    (hwrite : Written env.disk (sortEventsByDepositCount events) { headers with endBlock := last }) :
    ∃ registry', (updateChunk C env headers first last).run registry =
        .ok (sortEventsByDepositCount events) registry' ∧ Aligned C registry' ∧
      registry'.store.cache = { registry.store.cache with
        data := registry.store.cache.data ++ sortEventsByDepositCount events
        headers := { headers with endBlock := last } } ∧
      registry'.store.db = registry.store.db.batch (StoreContent.insertionOps
        (sortEventsByDepositCount events) { headers with endBlock := last }) := by
  obtain ⟨tree, hholds, hrun⟩ := run_addEventGroupToIndex ha (sortEventsByDepositCount events)
  rw [countedFrom_eq_self_iff.2 hcont, if_pos rfl] at hrun
  rw [countedFrom_eq_self_iff.2 hcont] at hholds
  have hinsert := DepositsRegistryStore.run_insertEventsCacheBatch registry.store env.disk hwrite.1
    { headers with endBlock := last }
  simp only [hwrite.2] at hinsert
  let store' : DepositsRegistryStore := {
    db := registry.store.db.batch (StoreContent.insertionOps (sortEventsByDepositCount events)
      { headers with endBlock := last })
    cache := { registry.store.cache with
      data := registry.store.cache.data ++ sortEventsByDepositCount events
      headers := { headers with endBlock := last } }
    cacheSizeBytes := registry.store.cacheSizeBytes +
      ((sortEventsByDepositCount events).map fun e => (depositEventRecord e).byteLength).sum
    cacheEventCount := registry.store.cacheEventCount + (sortEventsByDepositCount events).length }
  have hchunk : (updateChunk C env headers first last).run registry =
      .ok (sortEventsByDepositCount events) { store := store', finalizedTree := tree } := by
    rw [run_updateChunk h, Service.run_bind_ok hrun, EStateM.run_bind, run_onStore]
    simp only [hinsert]
    rfl
  refine ⟨_, hchunk, ⟨by simpa [store'] using hholds, ?_⟩, rfl, rfl⟩
  show (registry.store.cache.data ++ sortEventsByDepositCount events).map (·.depositCount) = _
  rw [List.map_append, ha.counted, hcont, List.length_append, ← List.range'_append_1, Nat.zero_add]

/-! ## The loop -/

/-- Every chunk that the loop reaches is either refused at its first event, or continues the count
and is written; a chunk without events may also stop the loop by not being written. -/
def ChunksKeep (env : Env) (headers : VerifiedDepositEventsCacheHeaders) :
    (count : ℕ) → List (ℕ × ℕ) → Prop
  | _, [] => True
  | count, (first, last) :: chunks =>
    match env.fetchEventsFallOver first last with
    | .error _ => True
    | .ok chunkEvents =>
      let events := sortEventsByDepositCount chunkEvents
      let written := Written env.disk events { headers with endBlock := last }
      Refused count events ∨ Continues count events ∧
        (¬ written ∧ events = [] ∨ written ∧ ChunksKeep env headers (count + events.length) chunks)

/-- The loop keeps the alignment exactly on such chunks; on others it throws. -/
theorem aligned_updateChunks_iff (env : Env) (headers : VerifiedDepositEventsCacheHeaders)
    (chunks : List (ℕ × ℕ)) : ∀ (registry : Registry)
    (lastIndexedEvent : Option VerifiedDepositEvent), Aligned C registry →
      (Aligned C (Service.after ((updateChunks C env headers chunks lastIndexedEvent).run registry)) ↔
        ChunksKeep env headers registry.store.cache.data.length chunks) ∧
      ∀ event registry', (updateChunks C env headers chunks lastIndexedEvent).run registry =
        .ok event registry' → Aligned C registry' := by
  induction chunks with
  | nil =>
    intro registry lastIndexedEvent ha
    refine ⟨iff_of_true ha trivial, fun event registry' hrun => ?_⟩
    obtain rfl : registry = registry' := (EStateM.Result.ok.inj hrun).2
    exact ha
  | cons chunk chunks ih =>
    obtain ⟨first, last⟩ := chunk
    intro registry lastIndexedEvent ha
    unfold updateChunks ChunksKeep
    cases hfetch : env.fetchEventsFallOver first last with
    | error e =>
      rw [Service.run_bind_error (run_updateChunk_error hfetch)]
      exact ⟨iff_of_true ha trivial, by simp⟩
    | ok events =>
      dsimp only
      by_cases hrefused : Refused registry.store.cache.data.length (sortEventsByDepositCount events)
      · have hfirst : Refused registry.finalizedTree.nodeCount (sortEventsByDepositCount events) := by
          rw [ha.nodeCount_eq]
          exact hrefused
        rw [Service.run_bind_error (run_updateChunk_refused headers hfetch hfirst)]
        exact ⟨iff_of_true ha (Or.inl hrefused), by simp⟩
      by_cases hcont : Continues registry.store.cache.data.length (sortEventsByDepositCount events)
      · by_cases hwrite : Written env.disk (sortEventsByDepositCount events)
            { headers with endBlock := last }
        · obtain ⟨registry', hrun, ha', hcache, _⟩ := run_updateChunk_written ha hfetch hcont hwrite
          have hlength : registry'.store.cache.data.length =
              registry.store.cache.data.length + (sortEventsByDepositCount events).length := by
            rw [hcache, List.length_append]
          rw [Service.run_bind_ok hrun]
          have hrest := ih registry' ((sortEventsByDepositCount events).getLast?.or lastIndexedEvent) ha'
          rw [hlength] at hrest
          simpa [hrefused, hcont, hwrite] using hrest
        · obtain ⟨e, registry', hrun, ha', _⟩ := run_updateChunk_unwritten ha hfetch hcont hwrite
          rw [Service.run_bind_error hrun]
          refine ⟨ha'.trans ?_, by simp⟩
          simp [hrefused, hcont, hwrite]
      · obtain ⟨e, registry', hrun, ha'⟩ :=
          run_updateChunk_broken headers ha hfetch hrefused hcont
        rw [Service.run_bind_error hrun]
        refine ⟨iff_of_false ha' ?_, by simp⟩
        simp [hrefused, hcont]

/-! ## One update -/

/-- The end of an update leaves the tree and the cached events, unless it exits the process. -/
theorem finishUpdate_exits_or_keeps (C : Crypto) (env : Env) (registry : Registry)
    (blockHash : String) (lastIndexedEvent : Option VerifiedDepositEvent) :
    (∃ registry', (finishUpdate C env blockHash lastIndexedEvent).run registry =
      .ok .exited registry') ∨
    ∃ registry', Service.after ((finishUpdate C env blockHash lastIndexedEvent).run registry) =
        registry' ∧ registry'.finalizedTree = registry.finalizedTree ∧
      registry'.store.cache.data = registry.store.cache.data := by
  have hroot : (checkFinalizedRoot C env blockHash).run registry =
      (Service.call (checkRoot C env blockHash registry.finalizedTree)).run registry := rfl
  rw [finishUpdate, EStateM.run_bind, hroot]
  cases checkRoot C env blockHash registry.finalizedTree with
  | error e => exact Or.inr ⟨registry, rfl, rfl, rfl⟩
  | ok isRootValid =>
    cases isRootValid with
    | true =>
      right
      cases lastIndexedEvent with
      | none => exact ⟨registry, rfl, rfl, rfl⟩
      | some event =>
        refine ⟨_, rfl, ?_⟩
        simp only [Service.run_call_ok, if_true, EStateM.run_bind, run_onStore,
          DepositsRegistryStore.run_insertLastValidEvent]
        cases env.disk.write [.put "last-valid-event" (depositEventRecord event)] with
        | ok _ => exact ⟨rfl, rfl⟩
        | error e => exact ⟨rfl, rfl⟩
    | false =>
      simp only [Service.run_call_ok, Bool.false_eq_true, if_false, EStateM.run_bind, run_onStore]
      cases hclear : (DepositsRegistryStore.clearFromLastValidEvent env.disk).run registry.store with
      | ok _ store => exact Or.inl ⟨_, rfl⟩
      | error e store =>
        refine Or.inr ⟨_, rfl, rfl, ?_⟩
        have := DepositsRegistryStore.keepsOnThrow_clearFromLastValidEvent _ _ _ hclear
        exact congrArg VerifiedDepositEventsCache.data this

/-- The header that `getCachedEvents` returns: no block before the deployment. -/
def cachedHeaders (registry : Registry) (deploymentBlock : ℕ) : VerifiedDepositEventsCacheHeaders where
  startBlock := max registry.store.cache.headers.startBlock deploymentBlock
  endBlock := max registry.store.cache.headers.endBlock deploymentBlock

theorem run_getCachedEvents {deploymentBlock : ℕ}
    (h : deploymentBlockNetwork env.chainId = some deploymentBlock) :
    (getCachedEvents env).run registry = .ok { registry.store.cache with
      headers := cachedHeaders registry deploymentBlock } registry := by
  simp [getCachedEvents, getDeploymentBlockByNetwork, h, cachedHeaders]

theorem run_getCachedEvents_none (h : deploymentBlockNetwork env.chainId = none) :
    (getCachedEvents env).run registry =
      .error ("Chain " ++ toString env.chainId ++ " is not supported") registry := by
  simp [getCachedEvents, getDeploymentBlockByNetwork, h]

/-- An update is the loop and its end, unless the cache is newer than the finalized block. -/
theorem run_updateEventsCache {number deploymentBlock : ℕ} {hash : String}
    (hfinalized : env.finalizedBlock = .ok (number, hash))
    (hdeployed : deploymentBlockNetwork env.chainId = some deploymentBlock) :
    (updateEventsCache C env).run registry =
      if number < (cachedHeaders registry deploymentBlock).endBlock then .ok .returned registry
      else (updateChunks C env (cachedHeaders registry deploymentBlock)
        (chunks ((cachedHeaders registry deploymentBlock).endBlock + 1) number
          (depositEventsStep env.chainId)) none >>= finishUpdate C env hash).run registry := by
  unfold updateEventsCache
  rw [hfinalized]
  simp only [EStateM.run_bind, Service.run_call_ok, run_getCachedEvents hdeployed,
    validateCacheBlock, ge_iff_le, Bool.not_eq_true', decide_eq_false_iff_not, not_le]
  split_ifs <;> rfl

/-- The condition under which an update keeps the tree and the store aligned: either it does not
reach its loop, or every chunk it reaches is applied as a whole or not at all. -/
def UpdateKeeps (env : Env) (registry : Registry) : Prop :=
  match env.finalizedBlock, deploymentBlockNetwork env.chainId with
  | .ok (finalizedBlockNumber, _), some deploymentBlock =>
    let headers := cachedHeaders registry deploymentBlock
    finalizedBlockNumber < headers.endBlock ∨
      ChunksKeep env headers registry.store.cache.data.length
        (chunks (headers.endBlock + 1) finalizedBlockNumber (depositEventsStep env.chainId))
  | _, _ => True

/-- **One update.** It exits, or it leaves the registry aligned, exactly on its condition. -/
theorem aligned_updateEventsCache_iff (env : Env) (ha : Aligned C registry) :
    ((∃ registry', (updateEventsCache C env).run registry = .ok .exited registry') ∨
      Aligned C (Service.after ((updateEventsCache C env).run registry))) ↔
      UpdateKeeps env registry := by
  unfold UpdateKeeps
  cases hfinalized : env.finalizedBlock with
  | error e =>
    have hrun : (updateEventsCache C env).run registry = .error e registry := by
      simp [updateEventsCache, hfinalized]
    exact iff_of_true (Or.inr (by rw [hrun]; exact ha)) trivial
  | ok block =>
    obtain ⟨number, hash⟩ := block
    cases hdeployed : deploymentBlockNetwork env.chainId with
    | none =>
      have hrun : (updateEventsCache C env).run registry =
          .error ("Chain " ++ toString env.chainId ++ " is not supported") registry := by
        simp [updateEventsCache, hfinalized, run_getCachedEvents_none hdeployed]
      exact iff_of_true (Or.inr (by rw [hrun]; exact ha)) trivial
    | some deploymentBlock =>
      dsimp only
      rw [run_updateEventsCache hfinalized hdeployed]
      by_cases hage : number < (cachedHeaders registry deploymentBlock).endBlock
      · rw [if_pos hage]
        exact iff_of_true (Or.inr ha) (Or.inl hage)
      · rw [if_neg hage]
        obtain ⟨hiff, hok⟩ := aligned_updateChunks_iff env (cachedHeaders registry deploymentBlock)
          (chunks ((cachedHeaders registry deploymentBlock).endBlock + 1) number
            (depositEventsStep env.chainId)) registry none ha
        simp only [hage, false_or]
        rw [← hiff]
        cases hloop : (updateChunks C env (cachedHeaders registry deploymentBlock)
            (chunks ((cachedHeaders registry deploymentBlock).endBlock + 1) number
              (depositEventsStep env.chainId)) none).run registry with
        | error e registry₁ =>
          rw [Service.run_bind_error hloop]
          simp
        | ok event registry₁ =>
          have ha₁ : Aligned C registry₁ := hok event registry₁ hloop
          rw [Service.run_bind_ok hloop]
          refine iff_of_true ?_ ha₁
          rcases finishUpdate_exits_or_keeps C env registry₁ hash event with hexit | ⟨registry₂, hafter, htree, hdata⟩
          · exact Or.inl hexit
          · refine Or.inr ⟨?_, ?_⟩
            · rw [hafter, htree, hdata]
              exact ha₁.holds
            · rw [hafter, hdata]
              exact ha₁.counted

/-! ## Runs -/

/-- The registry before the first and after every call of a run of updates; an exit ends the run. -/
def states (C : Crypto) : List Env → Registry → List Registry
  | [], registry => [registry]
  | env :: envs, registry => registry ::
    match (updateEventsCache C env).run registry with
    | .ok .exited _ => []
    | .ok .returned registry' => states C envs registry'
    | .error _ registry' => states C envs registry'

/-- Every call of the run meets its condition. -/
def UpdatesKeep (C : Crypto) : List Env → Registry → Prop
  | [], _ => True
  | env :: envs, registry => UpdateKeeps env registry ∧
    match (updateEventsCache C env).run registry with
    | .ok .exited _ => True
    | .ok .returned registry' => UpdatesKeep C envs registry'
    | .error _ registry' => UpdatesKeep C envs registry'

theorem head_mem_states (envs : List Env) (registry : Registry) : registry ∈ states C envs registry := by
  cases envs <;> simp [states]

theorem aligned_states_of_aligned_iff (envs : List Env) : ∀ registry, Aligned C registry →
    ((∀ registry' ∈ states C envs registry, Aligned C registry') ↔ UpdatesKeep C envs registry) := by
  induction envs with
  | nil => intro registry ha; simpa [states, UpdatesKeep] using ha
  | cons env envs ih =>
    intro registry ha
    have hone := aligned_updateEventsCache_iff env ha
    unfold states UpdatesKeep
    rw [List.forall_mem_cons, ← hone]
    have hrest : ∀ registry', Service.after ((updateEventsCache C env).run registry) = registry' →
        (¬ ∃ registry', (updateEventsCache C env).run registry = .ok .exited registry') →
        ((∀ r ∈ states C envs registry', Aligned C r) ↔
          ((∃ registry', (updateEventsCache C env).run registry = .ok .exited registry') ∨
            Aligned C (Service.after ((updateEventsCache C env).run registry))) ∧
          UpdatesKeep C envs registry') := by
      intro registry' hafter hexit
      rw [hafter]
      constructor
      · intro h
        have ha' := h registry' (head_mem_states envs registry')
        exact ⟨Or.inr ha', (ih registry' ha').1 h⟩
      · rintro ⟨hor, hkeep⟩
        exact (ih registry' (hor.resolve_left hexit)).2 hkeep
    cases hrun : (updateEventsCache C env).run registry with
    | error e registry' =>
      rw [hrun] at hrest
      simpa [ha] using hrest registry' rfl (by simp)
    | ok finish registry' =>
      rw [hrun] at hrest
      cases finish with
      | exited => simp [ha]
      | returned => simpa [ha] using hrest registry' rfl (by simp)

/-- **Runs.** From a started registry, the tree and the store are aligned between all calls of a run
exactly when every call meets its condition. -/
theorem aligned_states_iff {db : Db} (h : (start C env).run (opened C db) = .ok () registry)
    (envs : List Env) :
    (∀ registry' ∈ states C envs registry, Aligned C registry') ↔ UpdatesKeep C envs registry :=
  aligned_states_of_aligned_iff envs registry (aligned_of_start h)

/-- A node of Holesky whose finalized block is `number`, with `events` in every range. -/
def sampleEnv (number : ℕ) (events : List VerifiedDepositEvent) : Env where
  chainId := 17000
  finalizedBlock := .ok (number, "0x0f")
  fetchEventsFallOver _ _ := .ok events
  getDepositRoot _ := .ok ""
  disk := .sound

def sampleEvent (depositCount : ℕ) : VerifiedDepositEvent where
  valid := true
  pubkey := "0xaa"
  wc := "0x01"
  amount := "0x00"
  signature := "0xbb"
  tx := "0xcc"
  blockNumber := 1
  blockHash := "0x0f"
  logIndex := depositCount
  index := "0x00"
  depositCount := depositCount
  depositDataRoot := zeroHash

/-- The registry started on an empty database. -/
def sampleRegistry : Registry :=
  Service.after ((start .framed (sampleEnv 1 [])).run (opened .framed OrderedStore.empty))

theorem start_sample : (start .framed (sampleEnv 1 [])).run (opened .framed OrderedStore.empty) =
    .ok () sampleRegistry := rfl

/-- A run of two calls from an empty database. -/
theorem aligned_states_iff_sample :
    (start .framed (sampleEnv 1 [])).run (opened .framed OrderedStore.empty) =
      .ok () sampleRegistry ∧
    ((∀ registry' ∈ states .framed [sampleEnv 1 [sampleEvent 0], sampleEnv 2 []] sampleRegistry,
      Aligned .framed registry') ↔
      UpdatesKeep .framed [sampleEnv 1 [sampleEvent 0], sampleEnv 2 []] sampleRegistry) :=
  ⟨start_sample, aligned_states_iff start_sample _⟩

/-- A chunk with the deposit counts 0 and 2 throws and leaves the first event in the tree alone. -/
theorem not_aligned_after_gap : ∃ e registry',
    (start .framed (sampleEnv 1 [])).run (opened .framed OrderedStore.empty) =
      .ok () sampleRegistry ∧
    (updateEventsCache .framed (sampleEnv 1 [sampleEvent 0, sampleEvent 2])).run sampleRegistry =
      .error e registry' ∧
    registry'.finalizedTree.nodeCount = 1 ∧ registry'.store.cache.data = [] ∧
    registry' ∈ states .framed [sampleEnv 1 [sampleEvent 0, sampleEvent 2]] sampleRegistry ∧
    ¬ Aligned .framed registry' := by
  refine ⟨_, _, rfl, rfl, rfl, rfl, List.mem_cons_of_mem _ (List.mem_singleton.2 rfl), ?_⟩
  exact not_aligned_of_nodeCount (by decide)

end Registry

end CouncilDaemon
