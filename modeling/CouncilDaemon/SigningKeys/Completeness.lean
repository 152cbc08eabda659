import CouncilDaemon.SigningKeys.Registry

/-!
# Completeness of the signing keys cache

The node gives the complete `SigningKeyAdded` logs of the chain, a `KeyHistory`, in any order. The
cache is updated any number of times, for any lists of staking modules; an update may fail at every
answer of the node and the disk, and a process that is killed between two writes is an update whose
next answer is an error.

`Complete` is what holds of the database after all of them (`Updated.complete`): the stored records
are the events of the modules in the header from the deployment block to the block where the header
ends. So the events of a key together with those since then are all its events
(`signingKeys_complete`).
-/

namespace CouncilDaemon

/-! ## The history -/

/-- The `SigningKeyAdded` logs of the chain. A block and a log index identify a log, and the pubkeys
are of one length. -/
structure KeyHistory where
  events : List SigningKeyEvent
  keyLength : ℕ
  logs : (events.map fun event => (event.blockNumber, event.logIndex)).Nodup
  length_key : ∀ event ∈ events, event.key.length = keyLength

namespace KeyHistory

variable (H : KeyHistory)

/-- The events of `modules` after block `first`, up to block `last`. -/
def added (modules : List String) (first last : ℕ) : List SigningKeyEvent :=
  H.events.filter fun event =>
    event.moduleAddress ∈ modules ∧ first < event.blockNumber ∧ event.blockNumber ≤ last

variable {H} {modules modules' : List String} {first middle last : ℕ} {event event' : SigningKeyEvent}

theorem mem_added : event ∈ H.added modules first last ↔ event ∈ H.events ∧
    event.moduleAddress ∈ modules ∧ first < event.blockNumber ∧ event.blockNumber ≤ last := by
  rw [added, List.mem_filter, decide_eq_true_eq]

theorem nodup_events : H.events.Nodup := List.Nodup.of_map _ H.logs

theorem nodup_added : (H.added modules first last).Nodup := nodup_events.filter _

theorem length_key_added (h : event ∈ H.added modules first last) :
    event.key.length = H.keyLength :=
  H.length_key event (mem_added.1 h).1

/-- Two events of the history with one storage key are the same. -/
theorem storageKey_inj (h : event ∈ H.events) (h' : event' ∈ H.events)
    (hkey : generateSigningKeyEventStorageKey event = generateSigningKeyEventStorageKey event') :
    event = event' := by
  obtain ⟨_, hblock, hlog⟩ := generateSigningKeyEventStorageKey_inj hkey
  exact List.inj_on_of_nodup_map H.logs h h' (Prod.ext hblock hlog)

/-- The events depend on the set of the modules only. -/
theorem added_congr (h : ∀ address, address ∈ modules ↔ address ∈ modules') :
    H.added modules first last = H.added modules' first last := by
  refine List.filter_congr fun event _ => ?_
  rw [decide_eq_decide, h]

/-- Two adjacent ranges. -/
theorem added_append (hfirst : first ≤ middle) (hlast : middle ≤ last) :
    (H.added modules first middle ++ H.added modules middle last).Perm
      (H.added modules first last) := by
  have hdisjoint : List.Disjoint (H.added modules first middle) (H.added modules middle last) := by
    intro event hleft hright
    have h1 := (mem_added.1 hleft).2.2.2
    have h2 := (mem_added.1 hright).2.2.1
    omega
  rw [List.perm_ext_iff_of_nodup (List.Nodup.append nodup_added nodup_added hdisjoint) nodup_added]
  intro event
  rw [List.mem_append, mem_added, mem_added, mem_added]
  constructor
  · rintro (⟨h1, h2, h3, h4⟩ | ⟨h1, h2, h3, h4⟩)
    · exact ⟨h1, h2, h3, h4.trans hlast⟩
    · exact ⟨h1, h2, hfirst.trans_lt h3, h4⟩
  · rintro ⟨h1, h2, h3, h4⟩
    rcases Nat.lt_or_ge middle event.blockNumber with h | h
    · exact Or.inr ⟨h1, h2, h, h4⟩
    · exact Or.inl ⟨h1, h2, h3, h⟩

theorem added_nil : H.added [] first last = [] :=
  List.filter_eq_nil_iff.2 fun event _ => by simp

end KeyHistory

/-- The network is the one with the deployment block `D`, and a fetch that succeeds returns the
complete logs of its modules and blocks. -/
structure SigningKeysEnv.Honest (env : SigningKeysEnv) (D : ℕ) (H : KeyHistory) : Prop where
  deployed : ∀ chainId, env.getNetwork = .ok chainId →
    earliestModuleDeploymentBlockNetwork chainId = some D
  complete : ∀ startBlock endBlock modules events, modules.Nodup →
    env.fetchEventsFallOver startBlock endBlock modules = .ok events →
    events.Perm (H.events.filter fun event => event.moduleAddress ∈ modules ∧
      startBlock ≤ event.blockNumber ∧ event.blockNumber ≤ endBlock)

/-! ## The invariant -/

/-- The header that the store answers with, the default one when there is none. -/
def headerOf (header : Option SigningKeyEventsCacheHeaders) : SigningKeyEventsCacheHeaders :=
  header.getD signingKeysCacheDefault.headers

/-- The database holds a header, and the events of its modules up to the block where it ends; or
nothing. -/
structure Complete (D : ℕ) (H : KeyHistory) (db : Db)
    (header : Option SigningKeyEventsCacheHeaders) : Prop where
  holds : Holds db header (H.added (headerOf header).stakingModulesAddresses D
    (headerOf header).endBlock)
  nodup : (headerOf header).stakingModulesAddresses.Nodup
  bounds : ∀ headers, header = some headers → headers.startBlock = D ∧ D ≤ headers.endBlock

/-- The databases that are reached from an empty one by updates, which return or stop. -/
inductive Updated (D : ℕ) (H : KeyHistory) : Db → Prop
  | empty : Updated D H OrderedStore.empty
  | update {store : SigningKeysStore} (h : Updated D H store.db) (env : SigningKeysEnv)
      (henv : env.Honest D H) (modules : List String) (hmodules : modules.Nodup) :
      Updated D H
        (Service.after ((SigningKeysRegistry.updateEventsCache env modules).run store)).db

theorem Holds.congr {db : Db} {header : Option SigningKeyEventsCacheHeaders}
    {events events' : List SigningKeyEvent} (h : Holds db header events)
    (hmem : ∀ event, event ∈ events ↔ event ∈ events') : Holds db header events' where
  header := h.header
  events := by
    intro storageKey value hne
    rw [h.events storageKey value hne]
    exact exists_congr fun event => and_congr_left fun _ => hmem event

theorem complete_empty {D : ℕ} {H : KeyHistory} : Complete D H OrderedStore.empty none where
  holds := by
    show Holds _ none (H.added [] D 0)
    rw [KeyHistory.added_nil]
    exact holds_empty
  nodup := List.nodup_nil
  bounds := by rintro headers ⟨⟩

/-- The header is absent, or it names the same modules. -/
def SameModules (header : Option SigningKeyEventsCacheHeaders) (modules : List String) : Prop :=
  ∀ headers, header = some headers →
    ∀ address, address ∈ headers.stakingModulesAddresses ↔ address ∈ modules

/-- The header names the modules. -/
def SigningKeysRegistry.Names (header : Option SigningKeyEventsCacheHeaders) (modules : List String) :
    Prop :=
  ∀ address, address ∈ (headerOf header).stakingModulesAddresses ↔ address ∈ modules

section Update

variable {D : ℕ} {H : KeyHistory} {env : SigningKeysEnv} {store : SigningKeysStore}
  {header : Option SigningKeyEventsCacheHeaders} {modules : List String}

theorem SigningKeysRegistry.Names.sameModules (h : SigningKeysRegistry.Names header modules) :
    SameModules header modules := by
  rintro headers rfl
  exact h

/-- The last block whose events are stored. -/
def endOf (D : ℕ) (header : Option SigningKeyEventsCacheHeaders) : ℕ :=
  max (headerOf header).endBlock D

/-- The stored events with those of the next blocks are the events up to the last of them. -/
theorem Complete.mem_append {db : Db} (h : Complete D H db header) (hsame : SameModules header modules)
    {last : ℕ} (hlast : endOf D header ≤ last) {events : List SigningKeyEvent}
    (hevents : ∀ event, event ∈ events ↔ event ∈ H.added modules (endOf D header) last)
    (event : SigningKeyEvent) :
    event ∈ H.added (headerOf header).stakingModulesAddresses D (headerOf header).endBlock ++ events ↔
      event ∈ H.added modules D last := by
  rw [List.mem_append, hevents]
  cases header with
  | none =>
    have hend : endOf D none = D := Nat.zero_max D
    show event ∈ H.added [] D 0 ∨ _ ↔ _
    rw [KeyHistory.added_nil, hend]
    simp
  | some headers =>
    have hend : endOf D (some headers) = headers.endBlock := max_eq_left (h.bounds headers rfl).2
    rw [hend] at hlast ⊢
    show event ∈ H.added headers.stakingModulesAddresses D headers.endBlock ∨ _ ↔ _
    rw [KeyHistory.added_congr (hsame headers rfl), ← List.mem_append]
    exact (KeyHistory.added_append (h.bounds headers rfl).2 hlast).mem_iff

end Update

namespace SigningKeysRegistry

section Update

variable {D : ℕ} {H : KeyHistory} {env : SigningKeysEnv} {store : SigningKeysStore}
  {header : Option SigningKeyEventsCacheHeaders} {modules : List String}

/-! ## One chunk of the loop -/

/-- **One chunk.** Either the chunk is in the database, or the database is as it was. -/
theorem run_updateChunk (henv : env.Honest D H) (hmodules : modules.Nodup)
    {headers : SigningKeyEventsCacheHeaders} (hstart : headers.startBlock = D)
    (h : Complete D H store.db header) (hsame : SameModules header modules) {last : ℕ}
    (hlast : endOf D header + 1 ≤ last) :
    (∃ store', (updateChunk env headers modules (endOf D header + 1) last).run store = .ok () store' ∧
      Complete D H store'.db (some ⟨modules, D, last⟩)) ∨
    ∃ e store', (updateChunk env headers modules (endOf D header + 1) last).run store = .error e store' ∧
      store'.db = store.db := by
  cases hfetch : env.fetchEventsFallOver (endOf D header + 1) last modules with
  | error e =>
    refine Or.inr ⟨e, store, ?_, rfl⟩
    simp only [updateChunk, fetchEventsFallOver, hfetch]
    rfl
  | ok events =>
    have hcall : EStateM.run (Service.call
        (fetchEventsFallOver env (endOf D header + 1) last modules)) store =
        .ok ⟨events, endOf D header + 1, last⟩ store := by
      simp only [fetchEventsFallOver, hfetch]
      rfl
    have hmem : ∀ event, event ∈ events ↔ event ∈ H.added modules (endOf D header) last := by
      intro event
      rw [(henv.complete _ _ _ _ hmodules hfetch).mem_iff, List.mem_filter, decide_eq_true_eq,
        KeyHistory.mem_added, Nat.succ_le_iff]
    have hdistinct : ∀ event ∈ events, ∀ event' ∈
        H.added (headerOf header).stakingModulesAddresses D (headerOf header).endBlock ++ events,
        generateSigningKeyEventStorageKey event = generateSigningKeyEventStorageKey event' →
          event = event' := by
      intro event hevent event' hevent'
      have h1 := (KeyHistory.mem_added.1 ((hmem event).1 hevent)).1
      rw [h.mem_append hsame (by omega) hmem] at hevent'
      exact KeyHistory.storageKey_inj h1 (KeyHistory.mem_added.1 hevent').1
    unfold updateChunk
    rw [Service.run_bind_ok hcall]
    rcases SigningKeysStore.run_insertEventsCacheBatch env.disk events
      { headers with stakingModulesAddresses := modules, endBlock := last } store with
      ⟨store', hrun, hdb⟩ | ⟨e, store', hrun, hdb⟩
    · refine Or.inl ⟨store', hrun, ?_, hmodules, ?_⟩
      · rw [hdb, ← hstart]
        exact (h.holds.batch hdistinct _).congr (hstart ▸ h.mem_append hsame (by omega) hmem)
      · rintro _ ⟨⟩
        refine ⟨rfl, ?_⟩
        show D ≤ last
        have := le_max_right (headerOf header).endBlock D
        unfold endOf at hlast
        omega
    · exact Or.inr ⟨e, store', hrun, hdb⟩

/-! ## The loop -/

/-- **The loop.** Wherever it ends, the database is complete up to the block of its header. -/
theorem run_updateChunks (henv : env.Honest D H) (hmodules : modules.Nodup)
    {headers : SigningKeyEventsCacheHeaders} (hstart : headers.startBlock = D) {last : ℕ} :
    ∀ (n : ℕ) {store : SigningKeysStore} {header : Option SigningKeyEventsCacheHeaders},
      last - endOf D header ≤ n → Complete D H store.db header → SameModules header modules →
      ∃ header', Complete D H (Service.after ((updateChunks env headers modules
        (chunks (endOf D header + 1) last fetchingEventsStep)).run store)).db header' := by
  have hstep : 0 < fetchingEventsStep := by decide
  intro n
  induction n with
  | zero =>
    intro store header hn h _
    rw [chunks_of_lt _ hstep (by omega)]
    exact ⟨header, h⟩
  | succ n ih =>
    intro store header hn h hsame
    by_cases hend : last < endOf D header + 1
    · rw [chunks_of_lt _ hstep hend]
      exact ⟨header, h⟩
    · rw [chunks_of_le _ hstep (not_lt.1 hend), updateChunks]
      have hchunk : endOf D header + 1 ≤ min last (endOf D header + 1 + fetchingEventsStep - 1) := by
        omega
      rcases run_updateChunk henv hmodules hstart h hsame hchunk with
        ⟨store', hrun, hcomplete⟩ | ⟨e, store', hrun, hdb⟩
      · rw [Service.run_bind_ok hrun]
        have hend' : endOf D (some ⟨modules, D, min last (endOf D header + 1 + fetchingEventsStep - 1)⟩) =
            min last (endOf D header + 1 + fetchingEventsStep - 1) :=
          max_eq_left (hcomplete.bounds _ rfl).2
        have hsame' : SameModules
            (some ⟨modules, D, min last (endOf D header + 1 + fetchingEventsStep - 1)⟩) modules := by
          rintro _ ⟨⟩ address
          exact Iff.rfl
        have hrest := ih (by rw [hend']; omega) hcomplete hsame'
        rwa [hend'] at hrest
      · rw [Service.run_bind_error hrun]
        refine ⟨header, ?_⟩
        rw [Service.after_error, hdb]
        exact h

/-! ## An update -/

theorem names_of_not_updated (h : wasStakingModulesListUpdated
    (headerOf header).stakingModulesAddresses modules = false) : Names header modules := by
  intro address
  simp only [wasStakingModulesListUpdated, Bool.or_eq_false_iff, List.any_eq_false,
    Bool.not_eq_true', List.contains_eq_mem, Bool.not_eq_false, decide_eq_true_eq] at h
  exact ⟨fun hin => h.1 address hin, fun hin => h.2 address hin⟩

theorem run_stakingModuleListWasUpdated (h : Complete D H store.db header) (modules : List String) :
    (stakingModuleListWasUpdated modules).run store = .ok
      (wasStakingModulesListUpdated (headerOf header).stakingModulesAddresses modules) store := by
  rw [stakingModuleListWasUpdated, Service.run_bind_ok (SigningKeysStore.run_getHeader h.holds)]
  rfl

theorem getDeploymentBlockByNetwork_ok (henv : env.Honest D H) {deploymentBlock : ℕ}
    (h : getDeploymentBlockByNetwork env = .ok deploymentBlock) : deploymentBlock = D := by
  unfold getDeploymentBlockByNetwork at h
  cases hchain : env.getNetwork with
  | error e =>
    rw [hchain] at h
    cases h
  | ok chainId =>
    rw [hchain] at h
    simp only [henv.deployed chainId hchain, bind, Except.bind, pure, Except.pure,
      Except.ok.injEq] at h
    exact h.symm

/-- **The rest of an update**, after the cache of another module list was deleted. -/
theorem after_getCachedEvents (henv : env.Honest D H) (hmodules : modules.Nodup)
    (h : Complete D H store.db header) (hsame : SameModules header modules) :
    ∃ header', Complete D H (Service.after (EStateM.run (do
      let initialCache ← getCachedEvents env
      let finalizedBlockNumber ← Service.call env.getBlock
      if !verifyCacheBlock initialCache finalizedBlockNumber then return ()
      else
        updateChunks env initialCache.headers modules
          (chunks (initialCache.headers.endBlock + 1) finalizedBlockNumber fetchingEventsStep))
      store)).db header' := by
  obtain ⟨cache, store', hcache, hdb, hheaders⟩ := SigningKeysStore.run_getEventsCache h.holds
  rw [← hdb] at h
  cases hnetwork : getDeploymentBlockByNetwork env with
  | error e =>
    have hget : (getCachedEvents env).run store = .error e store' := by
      rw [getCachedEvents, Service.run_bind_ok hcache, hnetwork]
      rfl
    rw [Service.run_bind_error hget]
    exact ⟨header, h⟩
  | ok deploymentBlock =>
    have hD : deploymentBlock = D := getDeploymentBlockByNetwork_ok henv hnetwork
    subst hD
    have hget : (getCachedEvents env).run store = .ok { cache with headers := { cache.headers with
        startBlock := max cache.headers.startBlock deploymentBlock
        endBlock := max cache.headers.endBlock deploymentBlock } } store' := by
      rw [getCachedEvents, Service.run_bind_ok hcache, hnetwork]
      rfl
    rw [Service.run_bind_ok hget, hheaders]
    cases hblock : env.getBlock with
    | error e => exact ⟨header, h⟩
    | ok finalizedBlockNumber =>
      rw [Service.run_bind_ok (Service.run_call_ok finalizedBlockNumber store')]
      split_ifs with hvalid
      · exact ⟨header, h⟩
      · refine run_updateChunks henv hmodules ?_ _ (le_refl _) h hsame
        show max (headerOf header).startBlock deploymentBlock = deploymentBlock
        cases header with
        | none => exact Nat.zero_max deploymentBlock
        | some headers =>
          show max headers.startBlock deploymentBlock = deploymentBlock
          rw [(h.bounds headers rfl).1, max_self]

/-- **An update** keeps the cache complete, whether it returns or throws. -/
theorem complete_updateEventsCache (henv : env.Honest D H) (hmodules : modules.Nodup)
    (h : Complete D H store.db header) :
    ∃ header', Complete D H (Service.after ((updateEventsCache env modules).run store)).db header' := by
  rw [updateEventsCache, Service.run_bind_ok (run_stakingModuleListWasUpdated h modules)]
  cases hlist : wasStakingModulesListUpdated (headerOf header).stakingModulesAddresses modules with
  | false =>
    rw [if_neg Bool.false_ne_true]
    exact after_getCachedEvents henv hmodules h (names_of_not_updated hlist).sameModules
  | true =>
    rw [if_pos rfl]
    rcases SigningKeysStore.run_deleteCache env.disk store with ⟨store', hrun, hdb⟩ | ⟨e, hrun⟩
    · rw [Service.run_bind_ok hrun]
      have hempty : Complete D H store'.db none := by
        rw [hdb]
        exact complete_empty
      refine after_getCachedEvents henv hmodules hempty ?_
      rintro headers ⟨⟩
    · rw [Service.run_bind_error hrun]
      exact ⟨header, h⟩

end Update

end SigningKeysRegistry

/-- **Every run of updates** leaves a complete cache. -/
theorem Updated.complete {D : ℕ} {H : KeyHistory} {db : Db} (h : Updated D H db) :
    ∃ header, Complete D H db header := by
  induction h with
  | empty => exact ⟨none, complete_empty⟩
  | update _ env henv modules hmodules ih =>
    obtain ⟨header, hcomplete⟩ := ih
    exact SigningKeysRegistry.complete_updateEventsCache henv hmodules hcomplete

/-! ## The events of a key -/

namespace SigningKeysRegistry

theorem fetchEventsFallOver_ok {env : SigningKeysEnv} {first last : ℕ} {modules : List String}
    {group : SigningKeyEventsGroup} (h : fetchEventsFallOver env first last modules = .ok group) :
    ∃ events, env.fetchEventsFallOver first last modules = .ok events ∧
      group = ⟨events, first, last⟩ := by
  unfold fetchEventsFallOver at h
  cases hevents : env.fetchEventsFallOver first last modules with
  | error e =>
    rw [hevents] at h
    cases h
  | ok events =>
    rw [hevents] at h
    exact ⟨events, rfl, (Except.ok.inj h).symm⟩

/-- **The events of a key** that are returned are those of the modules of the header up to the
block. -/
theorem perm_of_getUpdatedSigningKeyEvents {D : ℕ} {H : KeyHistory} {env : SigningKeysEnv}
    (henv : env.Honest D H) {store store' : SigningKeysStore}
    {header : Option SigningKeyEventsCacheHeaders} (h : Complete D H store.db header)
    {key blockHash : String} (hkey : key.length = H.keyLength) {blockNumber : ℕ}
    {group : SigningKeyEventsGroupWithStakingModules}
    (hrun : (getUpdatedSigningKeyEvents env key blockNumber blockHash).run store =
      .ok group store') :
    group.stakingModulesAddresses = (headerOf header).stakingModulesAddresses ∧
      group.events.Perm ((H.added (headerOf header).stakingModulesAddresses D blockNumber).filter
        (·.key = key)) := by
  obtain ⟨data, hcached, hdata⟩ := SigningKeysStore.run_getCachedEvents_single h.holds
    KeyHistory.nodup_added (by rintro rfl; exact KeyHistory.added_nil)
    (fun event hevent => (KeyHistory.length_key_added hevent).trans hkey.symm)
  have hkeys : getEventsForOperatorsKeys [key] = SigningKeysStore.getCachedEvents [key] := by
    rw [getEventsForOperatorsKeys, List.eraseDups_cons]
    rfl
  rw [getUpdatedSigningKeyEvents, hkeys, Service.run_bind_ok hcached] at hrun
  dsimp only at hrun
  split_ifs at hrun with hvalid
  · cases hrun
  rw [Bool.not_eq_true, Bool.not_eq_false', verifyCacheBlock, decide_eq_true_eq] at hvalid
  obtain ⟨fresh, store₁, hcall, hrest⟩ := Service.bind_ok hrun
  obtain ⟨hfetch, rfl⟩ := Service.call_ok hcall
  split_ifs at hrest with hhash
  · cases hrest
  cases hrest
  refine ⟨rfl, ?_⟩
  obtain ⟨events, hevents, rfl⟩ := fetchEventsFallOver_ok hfetch
  have hfresh := henv.complete _ _ _ _ h.nodup hevents
  have hfiltered : (events.filter (·.key = key)).Perm
      ((H.added (headerOf header).stakingModulesAddresses (headerOf header).endBlock
        blockNumber).filter (·.key = key)) := by
    refine (hfresh.trans ?_).filter _
    refine List.Perm.of_eq (List.filter_congr fun event _ => ?_)
    rw [decide_eq_decide, Nat.succ_le_iff]
    rfl
  refine (hdata.append hfiltered).trans ?_
  rw [← List.filter_append]
  refine List.Perm.filter _ ?_
  cases header with
  | none =>
    show (H.added [] _ _ ++ H.added [] _ _).Perm (H.added [] _ _)
    rw [KeyHistory.added_nil, KeyHistory.added_nil, KeyHistory.added_nil]
    exact List.Perm.refl _
  | some headers => exact KeyHistory.added_append (h.bounds headers rfl).2 hvalid

end SigningKeysRegistry

/-- **Completeness of the signing keys cache.** After any run of updates, the stored records are
exactly the events of the modules of the header in the blocks after the deployment block up to the
block of the header, and nothing is stored without a header. The events of a key that are returned
for a block are its events in the modules of the header up to that block, each once. -/
theorem signingKeys_complete {D : ℕ} {H : KeyHistory} {db : Db} (hdb : Updated D H db) :
    (db.get? "headers" = none → db = OrderedStore.empty) ∧
    (∀ text headers, db.get? "headers" = some text → parseSigningKeyHeaders text = .ok headers →
      ∀ storageKey value, storageKey ≠ "headers" → (db.get? storageKey = some value ↔
        ∃ event ∈ H.added headers.stakingModulesAddresses D headers.endBlock,
          storageKey = generateSigningKeyEventStorageKey event ∧
            value = signingKeyEventRecord event)) ∧
    ∀ (env : SigningKeysEnv) (store store' : SigningKeysStore) (key blockHash : String)
      (blockNumber : ℕ) (group : SigningKeyEventsGroupWithStakingModules),
      env.Honest D H → store.db = db → key.length = H.keyLength →
      (SigningKeysRegistry.getUpdatedSigningKeyEvents env key blockNumber blockHash).run store =
        .ok group store' →
      ∃ headers, SigningKeysStore.getHeader.run store = .ok headers store ∧
        group.stakingModulesAddresses = headers.stakingModulesAddresses ∧
        group.events.Nodup ∧
        group.events.Perm ((H.added headers.stakingModulesAddresses D blockNumber).filter
          (·.key = key)) ∧
        ((∀ event ∈ H.events, D < event.blockNumber) →
          group.events.Perm (H.events.filter fun event => event.key = key ∧
            event.moduleAddress ∈ headers.stakingModulesAddresses ∧
            event.blockNumber ≤ blockNumber)) := by
  obtain ⟨header, hcomplete⟩ := hdb.complete
  refine ⟨?_, ?_, ?_⟩
  · intro hnone
    rw [hcomplete.holds.header, Option.map_eq_none_iff] at hnone
    subst hnone
    have hholds : Holds db none (H.added [] D 0) := hcomplete.holds
    rw [KeyHistory.added_nil] at hholds
    refine OrderedStore.ext_get? fun storageKey => ?_
    rw [OrderedStore.get?_empty]
    by_cases hne : storageKey = "headers"
    · rw [hne, hholds.header]
      rfl
    · rw [Option.eq_none_iff_forall_ne_some]
      intro value hvalue
      obtain ⟨event, hin, _⟩ := (hholds.events storageKey value hne).1 hvalue
      cases hin
  · intro text headers htext hparse
    have hholds := hcomplete.holds
    cases header with
    | none =>
      rw [hholds.header] at htext
      cases htext
    | some stored =>
      rw [hholds.header] at htext
      obtain rfl := Option.some.inj htext
      rw [parseSigningKeyHeaders_record] at hparse
      obtain rfl := Except.ok.inj hparse
      exact hholds.events
  · rintro env store store' key blockHash blockNumber group henv rfl hkey hrun
    obtain ⟨hmodules, hperm⟩ :=
      SigningKeysRegistry.perm_of_getUpdatedSigningKeyEvents henv hcomplete hkey hrun
    refine ⟨headerOf header, SigningKeysStore.run_getHeader hcomplete.holds, hmodules,
      hperm.nodup_iff.2 (KeyHistory.nodup_added.filter _), hperm, ?_⟩
    intro hdeployed
    refine hperm.trans (List.Perm.of_eq ?_)
    rw [KeyHistory.added, List.filter_filter]
    refine List.filter_congr fun event hin => ?_
    have := hdeployed event hin
    rw [← Bool.decide_and, decide_eq_decide]
    tauto

namespace SigningKeysSample

def event (operatorIndex : ℕ) (key : String) (logIndex blockNumber : ℕ) : SigningKeyEvent :=
  ⟨operatorIndex, key, "0xmodule", logIndex, blockNumber, "0xhash"⟩

def history : KeyHistory where
  events := [event 0 "0xaa" 0 5, event 1 "0xbb" 1 5, event 2 "0xaa" 0 12]
  keyLength := 4
  logs := by decide
  length_key := by decide

/-- Holesky with the finalized block 10. -/
def env : SigningKeysEnv where
  getNetwork := .ok 17000
  getBlock := .ok 10
  fetchEventsFallOver := fun startBlock endBlock modules =>
    .ok (history.events.filter fun event => event.moduleAddress ∈ modules ∧
      startBlock ≤ event.blockNumber ∧ event.blockNumber ≤ endBlock)
  disk := Disk.sound

theorem honest : env.Honest 0 history where
  deployed := by rintro _ ⟨⟩; rfl
  complete := by rintro _ _ _ _ _ ⟨⟩; exact List.Perm.refl _

def updated : SigningKeysStore :=
  Service.after ((SigningKeysRegistry.updateEventsCache env ["0xmodule"]).run
    (SigningKeysStore.opened OrderedStore.empty))

/-- One event of the key is stored, the other one is past the finalized block. -/
theorem signingKeys_complete_sample : ∃ group store',
    (SigningKeysRegistry.getUpdatedSigningKeyEvents env "0xaa" 12 "0xhash").run updated =
      .ok group store' ∧
    group.events = [event 0 "0xaa" 0 5, event 2 "0xaa" 0 12] ∧ group.events.Nodup := by
  have hupdated : Updated 0 history updated.db :=
    Updated.update Updated.empty env honest ["0xmodule"] (List.nodup_singleton _)
  have hreturned : (Service.returned ((SigningKeysRegistry.getUpdatedSigningKeyEvents env "0xaa" 12
      "0xhash").run updated)).map (·.events) = some [event 0 "0xaa" 0 5, event 2 "0xaa" 0 12] := by
    decide +kernel
  obtain ⟨group, hgroup, hevents⟩ := Option.map_eq_some_iff.1 hreturned
  obtain ⟨store', hrun⟩ := Service.returned_eq_some.1 hgroup
  obtain ⟨headers, _, _, hnodup, _⟩ := (signingKeys_complete hupdated).2.2 env updated store' "0xaa"
    "0xhash" 12 group honest rfl rfl hrun
  exact ⟨group, store', hrun, hevents, hnodup⟩

end SigningKeysSample

end CouncilDaemon
