import CouncilDaemon.SigningKeys.Completeness

/-!
# Updates of the signing keys cache

An update that returns has brought the cache to the given staking modules: the header names exactly these
(`run_updateEventsCache`). So the events of a key that are read next are those of the given modules, and
not of the modules that were cached before. With a node that answers and a disk that takes the writes, an
update does return, and the readings at later blocks succeed (`update_then_read_keys`).
-/

namespace CouncilDaemon

/-- The node answers every request up to its finalized block, and the disk takes every write. -/
structure SigningKeysEnv.Answering (env : SigningKeysEnv) (D : ℕ) (H : KeyHistory) (F : ℕ) : Prop
    extends SigningKeysEnv.Honest env D H where
  network : ∃ chainId, env.getNetwork = .ok chainId
  finalized : env.getBlock = .ok F
  answers : ∀ first last modules, last ≤ F →
    ∃ events, env.fetchEventsFallOver first last modules = .ok events
  writes : ∀ ops, env.disk.write ops = .ok ()
  clears : env.disk.clear = .ok ()

namespace SigningKeysRegistry

variable {D F : ℕ} {H : KeyHistory} {env : SigningKeysEnv} {store store' : SigningKeysStore}
  {header : Option SigningKeyEventsCacheHeaders} {modules : List String}

/-! ## What an update that returns has done -/

/-- The cached headers of the honest network. -/
theorem run_getCachedEvents_ok (henv : env.Honest D H) (h : Complete D H store.db header)
    {cache : SigningKeyEventsCache} (hrun : (getCachedEvents env).run store = .ok cache store') :
    store'.db = store.db ∧ cache.headers.endBlock = endOf D header ∧
      ((headerOf header).startBlock ≤ D → cache.headers.startBlock = D) := by
  obtain ⟨stored, store₁, hget, hdb, hheaders⟩ := SigningKeysStore.run_getEventsCache h.holds
  rw [getCachedEvents, Service.run_bind_ok hget] at hrun
  obtain ⟨deploymentBlock, store₂, hcall, hreturn⟩ := Service.bind_ok hrun
  obtain ⟨hnetwork, rfl⟩ := Service.call_ok hcall
  obtain rfl : deploymentBlock = D := getDeploymentBlockByNetwork_ok henv hnetwork
  cases hreturn
  refine ⟨hdb, ?_, fun hstart => ?_⟩
  · show max stored.headers.endBlock deploymentBlock = _
    rw [hheaders]
    rfl
  · show max stored.headers.startBlock deploymentBlock = _
    rw [hheaders]
    exact max_eq_right hstart

/-- **The loop**, when it returns: with a chunk left, the header names the modules and the last block. -/
theorem updateChunks_ok (henv : env.Honest D H) (hmodules : modules.Nodup)
    {headers : SigningKeyEventsCacheHeaders} (hstart : headers.startBlock = D) {last : ℕ} :
    ∀ (n : ℕ) {store : SigningKeysStore} {header : Option SigningKeyEventsCacheHeaders},
      last - endOf D header ≤ n → Complete D H store.db header → SameModules header modules →
      (updateChunks env headers modules
        (chunks (endOf D header + 1) last fetchingEventsStep)).run store = .ok () store' →
      ∃ header', Complete D H store'.db header' ∧
        (header' = header ∧ last ≤ endOf D header ∨ header' = some ⟨modules, D, last⟩) := by
  have hstep : 0 < fetchingEventsStep := by decide
  intro n
  induction n with
  | zero =>
    intro store header hn h _ hrun
    rw [chunks_of_lt _ hstep (by omega)] at hrun
    cases hrun
    exact ⟨header, h, Or.inl ⟨rfl, by omega⟩⟩
  | succ n ih =>
    intro store header hn h hsame hrun
    by_cases hend : last < endOf D header + 1
    · rw [chunks_of_lt _ hstep hend] at hrun
      cases hrun
      exact ⟨header, h, Or.inl ⟨rfl, by omega⟩⟩
    · rw [chunks_of_le _ hstep (not_lt.1 hend), updateChunks] at hrun
      have hchunk : endOf D header + 1 ≤ min last (endOf D header + 1 + fetchingEventsStep - 1) := by
        omega
      rcases run_updateChunk henv hmodules hstart h hsame hchunk with
        ⟨store₁, hfirst, hcomplete⟩ | ⟨e, store₁, hfirst, _⟩
      · rw [Service.run_bind_ok hfirst] at hrun
        -- from now on the header names the modules
        let middle : ℕ := min last (endOf D header + 1 + fetchingEventsStep - 1)
        have hend' : endOf D (some ⟨modules, D, middle⟩) = middle :=
          max_eq_left (hcomplete.bounds _ rfl).2
        have hnames : Names (some ⟨modules, D, middle⟩) modules := fun _ => Iff.rfl
        have hmiddle : middle ≤ last := min_le_left _ _
        obtain ⟨header', hcomplete', hheader'⟩ :=
          ih (by rw [hend']; omega) hcomplete hnames.sameModules (by rwa [hend'])
        refine ⟨header', hcomplete', Or.inr ?_⟩
        rcases hheader' with ⟨rfl, hlast⟩ | hheader'
        · rw [hend'] at hlast
          exact congrArg (fun block => some (SigningKeyEventsCacheHeaders.mk modules D block))
            (le_antisymm hmiddle hlast)
        · exact hheader'
      · rw [Service.run_bind_error hfirst] at hrun
        cases hrun

/-- **An update** that returns leaves a complete cache of the given modules, up to the finalized block or
as far as it was. -/
theorem run_updateEventsCache (henv : env.Honest D H) (hmodules : modules.Nodup)
    (h : Complete D H store.db header) (hfinalized : ∀ block, env.getBlock = .ok block → D < block)
    (hrun : (updateEventsCache env modules).run store = .ok () store') :
    ∃ headers F, Complete D H store'.db (some headers) ∧ Names (some headers) modules ∧
      env.getBlock = .ok F ∧ F ≤ headers.endBlock ∧ (header = some headers ∨ headers.endBlock = F) := by
  -- the cache that the loop starts on, and whether its header already names the modules
  have hrest : ∀ {store : SigningKeysStore} {header : Option SigningKeyEventsCacheHeaders},
      Complete D H store.db header → SameModules header modules →
      (Names header modules ∨ header = none) → EStateM.run (do
        let initialCache ← getCachedEvents env
        let finalizedBlockNumber ← Service.call env.getBlock
        if !verifyCacheBlock initialCache finalizedBlockNumber then return ()
        else
          updateChunks env initialCache.headers modules
            (chunks (initialCache.headers.endBlock + 1) finalizedBlockNumber fetchingEventsStep))
        store = .ok () store' →
      ∃ headers F, Complete D H store'.db (some headers) ∧ Names (some headers) modules ∧
        env.getBlock = .ok F ∧ F ≤ headers.endBlock ∧
          (header = some headers ∨ headers.endBlock = F) := by
    intro store header h hsame hnames hrun
    obtain ⟨cache, store₁, hcache, hrun⟩ := Service.bind_ok hrun
    obtain ⟨hdb, hend, hstart⟩ := run_getCachedEvents_ok henv h hcache
    obtain ⟨F, store₂, hcall, hloop⟩ := Service.bind_ok hrun
    obtain ⟨hanswer, rfl⟩ := Service.call_ok hcall
    have hF := hfinalized F hanswer
    rw [← hdb] at h
    -- a cache that stays as it is has a header
    have hstays : Complete D H store'.db header → F ≤ endOf D header →
        ∃ headers F, Complete D H store'.db (some headers) ∧ Names (some headers) modules ∧
          env.getBlock = .ok F ∧ F ≤ headers.endBlock ∧
            (header = some headers ∨ headers.endBlock = F) := by
      intro h hage
      cases header with
      | none =>
        have : endOf D none = D := Nat.zero_max D
        omega
      | some headers =>
        have hend : endOf D (some headers) = headers.endBlock := max_eq_left (h.bounds headers rfl).2
        rw [hend] at hage
        exact ⟨headers, F, h, hnames.resolve_right (Option.some_ne_none headers), hanswer, hage,
          Or.inl rfl⟩
    split_ifs at hloop with hvalid
    · cases hloop
      rw [verifyCacheBlock, hend] at hvalid
      simp only [ge_iff_le, Bool.not_eq_true', decide_eq_false_iff_not, not_le] at hvalid
      exact hstays h hvalid.le
    · have hD : cache.headers.startBlock = D := by
        apply hstart
        cases header with
        | none => exact Nat.zero_le D
        | some headers => exact (h.bounds headers rfl).1.le
      rw [hend] at hloop
      obtain ⟨header', hcomplete', hheader'⟩ :=
        updateChunks_ok henv hmodules hD _ (le_refl _) h hsame hloop
      rcases hheader' with ⟨rfl, hlast⟩ | rfl
      · exact hstays hcomplete' hlast
      · exact ⟨_, F, hcomplete', fun _ => Iff.rfl, hanswer, le_refl F, Or.inr rfl⟩
  rw [updateEventsCache, Service.run_bind_ok (run_stakingModuleListWasUpdated h modules)] at hrun
  cases hlist : wasStakingModulesListUpdated (headerOf header).stakingModulesAddresses modules with
  | false =>
    rw [hlist, if_neg Bool.false_ne_true] at hrun
    have hnames := names_of_not_updated hlist
    exact hrest h hnames.sameModules (Or.inl hnames) hrun
  | true =>
    rw [hlist, if_pos rfl] at hrun
    rcases SigningKeysStore.run_deleteCache env.disk store with ⟨store₁, hdelete, hdb⟩ | ⟨e, hdelete⟩
    · rw [Service.run_bind_ok hdelete] at hrun
      have hempty : Complete D H store₁.db none := by
        rw [hdb]
        exact complete_empty
      obtain ⟨headers, F, hcomplete, hnames, hanswer, hage, hheaders⟩ :=
        hrest hempty (by rintro headers ⟨⟩) (Or.inr rfl) hrun
      exact ⟨headers, F, hcomplete, hnames, hanswer, hage,
        Or.inr (hheaders.resolve_left (Option.some_ne_none headers).symm)⟩
    · rw [Service.run_bind_error hdelete] at hrun
      cases hrun

/-- The events of a key that are read after an update are those of the modules of the update. -/
theorem reads_updateEventsCache (h : Complete D H store.db header) (hnames : Names header modules)
    (henv : env.Honest D H) {key blockHash : String} (hkey : key.length = H.keyLength)
    {blockNumber : ℕ} {group : SigningKeyEventsGroupWithStakingModules}
    (hrun : (getUpdatedSigningKeyEvents env key blockNumber blockHash).run store =
      .ok group store') :
    group.events.Perm ((H.added modules D blockNumber).filter (·.key = key)) := by
  obtain ⟨_, hperm⟩ := perm_of_getUpdatedSigningKeyEvents henv h hkey hrun
  rwa [KeyHistory.added_congr hnames] at hperm

/-! ## A node that answers -/

/-- One chunk. -/
theorem updateChunk_returns (h : env.Answering D H F) (headers : SigningKeyEventsCacheHeaders)
    (modules : List String) {first last : ℕ} (hlast : last ≤ F) (store : SigningKeysStore) :
    ∃ store', (updateChunk env headers modules first last).run store = .ok () store' := by
  obtain ⟨events, hfetch⟩ := h.answers first last modules hlast
  have hcall : EStateM.run (Service.call (fetchEventsFallOver env first last modules)) store =
      .ok ⟨events, first, last⟩ store := by
    simp only [fetchEventsFallOver, hfetch]
    rfl
  obtain ⟨store₁, hops, _⟩ := SigningKeysStore.run_signingKeyOps events store
  rw [updateChunk, Service.run_bind_ok hcall, SigningKeysStore.insertEventsCacheBatch,
    Service.run_bind_ok hops]
  dsimp only
  rw [h.writes]
  exact ⟨_, rfl⟩

/-- The loop. -/
theorem updateChunks_returns (h : env.Answering D H F) (headers : SigningKeyEventsCacheHeaders)
    (modules : List String) {ranges : List (ℕ × ℕ)} (hranges : ∀ range ∈ ranges, range.2 ≤ F) :
    ∀ store, ∃ store', (updateChunks env headers modules ranges).run store = .ok () store' := by
  induction ranges with
  | nil => exact fun store => ⟨store, rfl⟩
  | cons range ranges ih =>
    intro store
    obtain ⟨store₁, hchunk⟩ :=
      updateChunk_returns h headers modules (hranges range List.mem_cons_self) store
    obtain ⟨store', hrest⟩ := ih (fun r hr => hranges r (List.mem_cons_of_mem range hr)) store₁
    refine ⟨store', ?_⟩
    rw [updateChunks, Service.run_bind_ok hchunk]
    exact hrest

theorem getCachedEvents_returns (henv : env.Answering D H F) (h : Complete D H store.db header) :
    ∃ cache store', (getCachedEvents env).run store = .ok cache store' := by
  obtain ⟨chainId, hchain⟩ := henv.network
  have hdeployed : getDeploymentBlockByNetwork env = .ok D := by
    rw [getDeploymentBlockByNetwork, hchain]
    simp only [bind, Except.bind, henv.deployed chainId hchain]
    rfl
  obtain ⟨stored, store₁, hget, _, _⟩ := SigningKeysStore.run_getEventsCache h.holds
  rw [getCachedEvents, Service.run_bind_ok hget, hdeployed]
  exact ⟨_, store₁, rfl⟩

/-- **An update** returns. -/
theorem updateEventsCache_returns (henv : env.Answering D H F) (h : Complete D H store.db header)
    (modules : List String) :
    ∃ store', (updateEventsCache env modules).run store = .ok () store' := by
  have hrest : ∀ {store : SigningKeysStore} {header : Option SigningKeyEventsCacheHeaders},
      Complete D H store.db header → ∃ store', EStateM.run (do
        let initialCache ← getCachedEvents env
        let finalizedBlockNumber ← Service.call env.getBlock
        if !verifyCacheBlock initialCache finalizedBlockNumber then return ()
        else
          updateChunks env initialCache.headers modules
            (chunks (initialCache.headers.endBlock + 1) finalizedBlockNumber fetchingEventsStep))
        store = .ok () store' := by
    intro store header h
    obtain ⟨cache, store₁, hcache⟩ := getCachedEvents_returns henv h
    rw [Service.run_bind_ok hcache, henv.finalized,
      Service.run_bind_ok (Service.run_call_ok F store₁)]
    split_ifs
    · exact ⟨store₁, rfl⟩
    · refine updateChunks_returns henv _ modules (fun range hrange => ?_) store₁
      obtain ⟨block, _, rfl⟩ := List.mem_map.1 hrange
      exact min_le_left _ _
  rw [updateEventsCache, Service.run_bind_ok (run_stakingModuleListWasUpdated h modules)]
  cases wasStakingModulesListUpdated (headerOf header).stakingModulesAddresses modules with
  | false =>
    rw [if_neg Bool.false_ne_true]
    exact hrest h
  | true =>
    rw [if_pos rfl]
    rcases SigningKeysStore.run_deleteCache env.disk store with ⟨store₁, hdelete, hdb⟩ | ⟨e, hdelete⟩
    · rw [Service.run_bind_ok hdelete]
      have hempty : Complete D H store₁.db none := by
        rw [hdb]
        exact complete_empty
      exact hrest hempty
    · rw [SigningKeysStore.deleteCache, henv.clears] at hdelete
      cases hdelete

/-- **A reading** of a key, at a block that is not behind the cache. -/
theorem getUpdatedSigningKeyEvents_returns (henv : env.Honest D H) (h : Complete D H store.db header)
    {key blockHash : String} (hkey : key.length = H.keyLength) {blockNumber : ℕ}
    (hblock : (headerOf header).endBlock ≤ blockNumber)
    (hfetch : ∃ events, env.fetchEventsFallOver ((headerOf header).endBlock + 1) blockNumber
      (headerOf header).stakingModulesAddresses = .ok events)
    (hhashes : ∀ event ∈ H.events, event.blockNumber = blockNumber → event.blockHash = blockHash) :
    ∃ group, (getUpdatedSigningKeyEvents env key blockNumber blockHash).run store = .ok group store := by
  obtain ⟨events, hfetch⟩ := hfetch
  have hfetched := henv.complete _ _ _ _ h.nodup hfetch
  obtain ⟨data, hcached, _⟩ := SigningKeysStore.run_getCachedEvents_single h.holds
    KeyHistory.nodup_added (by rintro rfl; exact KeyHistory.added_nil)
    (fun event hevent => (KeyHistory.length_key_added hevent).trans hkey.symm)
  have hkeys : getEventsForOperatorsKeys [key] = SigningKeysStore.getCachedEvents [key] := by
    rw [getEventsForOperatorsKeys, List.eraseDups_cons]
    rfl
  unfold headerOf at hblock hfetch
  have hvalid : verifyCacheBlock ⟨header.getD signingKeysCacheDefault.headers, data⟩ blockNumber = true :=
    decide_eq_true hblock
  have hcall : EStateM.run (Service.call (fetchEventsFallOver env
      ((header.getD signingKeysCacheDefault.headers).endBlock + 1) blockNumber
      (header.getD signingKeysCacheDefault.headers).stakingModulesAddresses)) store =
      .ok ⟨events, (header.getD signingKeysCacheDefault.headers).endBlock + 1, blockNumber⟩ store := by
    simp only [fetchEventsFallOver, hfetch]
    rfl
  have hchecked : checkEventsBlockHash events blockNumber blockHash = true := by
    rw [checkEventsBlockHash, findReorganizedEvent, Option.isNone_iff_eq_none, List.find?_eq_none]
    intro event hevent hreorganized
    obtain ⟨hnumber, hne⟩ := of_decide_eq_true hreorganized
    exact hne (hhashes event (List.mem_of_mem_filter (hfetched.mem_iff.1 hevent)) hnumber)
  rw [getUpdatedSigningKeyEvents, hkeys, Service.run_bind_ok hcached]
  simp only [hvalid, Bool.not_true, Bool.false_eq_true, if_false]
  rw [Service.run_bind_ok hcall]
  simp only [hchecked, Bool.not_true, Bool.false_eq_true, if_false]
  exact ⟨_, rfl⟩

end SigningKeysRegistry

/-! ## Main result -/

open SigningKeysRegistry

/-- **An update, then readings.** After any run of updates, with a node that answers and a disk that takes
the writes, an update returns and the header names exactly the given modules. From then on, at every block
that is not behind the cache, the events of a key are read when the node answers, and they are the key's
events in these modules up to the block, each once. -/
theorem update_then_read_keys {D F : ℕ} {H : KeyHistory} {env : SigningKeysEnv}
    {store : SigningKeysStore} (hdb : Updated D H store.db) (henv : env.Answering D H F) (hF : D < F)
    {modules : List String} (hmodules : modules.Nodup) :
    ∃ store' headers, (updateEventsCache env modules).run store = .ok () store' ∧
      SigningKeysStore.getHeader.run store' = .ok headers store' ∧
      (∀ address, address ∈ headers.stakingModulesAddresses ↔ address ∈ modules) ∧
      F ≤ headers.endBlock ∧
      (headers.endBlock = F ∨ SigningKeysStore.getHeader.run store = .ok headers store) ∧
      ∀ (env' : SigningKeysEnv) (key blockHash : String) (blockNumber : ℕ), env'.Honest D H →
        key.length = H.keyLength → headers.endBlock ≤ blockNumber →
        (∀ first modules, ∃ events, env'.fetchEventsFallOver first blockNumber modules = .ok events) →
        (∀ event ∈ H.events, event.blockNumber = blockNumber → event.blockHash = blockHash) →
        ∃ group, (getUpdatedSigningKeyEvents env' key blockNumber blockHash).run store' =
            .ok group store' ∧
          group.events.Nodup ∧
          group.events.Perm ((H.added modules D blockNumber).filter (·.key = key)) := by
  obtain ⟨header, hcomplete⟩ := hdb.complete
  obtain ⟨store', hrun⟩ := updateEventsCache_returns henv hcomplete modules
  have hfinalized : ∀ block, env.getBlock = .ok block → D < block := by
    intro block hblock
    rw [henv.finalized] at hblock
    rwa [← Except.ok.inj hblock]
  obtain ⟨headers, F', hcomplete', hnames, hanswer, hage, hheaders⟩ :=
    run_updateEventsCache henv.toHonest hmodules hcomplete hfinalized hrun
  rw [henv.finalized] at hanswer
  obtain rfl := Except.ok.inj hanswer
  refine ⟨store', headers, hrun, SigningKeysStore.run_getHeader hcomplete'.holds, hnames, hage, ?_, ?_⟩
  · refine hheaders.symm.imp_right fun hsame => ?_
    rw [hsame] at hcomplete
    exact SigningKeysStore.run_getHeader hcomplete.holds
  · intro env' key blockHash blockNumber henv' hkey hblock hfetch hhashes
    obtain ⟨group, hread⟩ :=
      getUpdatedSigningKeyEvents_returns henv' hcomplete' hkey hblock (hfetch _ _) hhashes
    have hperm := reads_updateEventsCache hcomplete' hnames henv' hkey hread
    exact ⟨group, hread, hperm.nodup_iff.2 (KeyHistory.nodup_added.filter _), hperm⟩

namespace SigningKeysSample

theorem answering : env.Answering 0 history 10 where
  toHonest := honest
  network := ⟨17000, rfl⟩
  finalized := rfl
  answers _ _ _ _ := ⟨_, rfl⟩
  writes _ := rfl
  clears := rfl

/-- The empty cache is updated, and both events of a key are read two blocks later. -/
theorem update_then_read_keys_sample : ∃ store group,
    (updateEventsCache env ["0xmodule"]).run (SigningKeysStore.opened OrderedStore.empty) =
      .ok () store ∧
    (getUpdatedSigningKeyEvents env "0xaa" 12 "0xhash").run store = .ok group store ∧
    group.events.Perm [event 0 "0xaa" 0 5, event 2 "0xaa" 0 12] := by
  have hempty : Updated 0 history (SigningKeysStore.opened OrderedStore.empty).db := Updated.empty
  obtain ⟨store, headers, hupdate, _, _, _, hend, hread⟩ := update_then_read_keys hempty answering
    (by norm_num) (List.nodup_singleton "0xmodule")
  have hblock : headers.endBlock ≤ 12 := by
    rcases hend with hend | hend
    · omega
    · have hdefault : signingKeysCacheDefault.headers = headers := (EStateM.Result.ok.inj hend).1
      rw [← hdefault]
      decide
  have hevents : (history.added ["0xmodule"] 0 12).filter (·.key = "0xaa") =
      [event 0 "0xaa" 0 5, event 2 "0xaa" 0 12] := by
    decide
  obtain ⟨group, hgroup, _, hperm⟩ := hread env "0xaa" "0xhash" 12 honest rfl hblock
    (fun _ _ => ⟨_, rfl⟩) (by decide)
  exact ⟨store, group, hupdate, hgroup, hevents ▸ hperm⟩

end SigningKeysSample

end CouncilDaemon
