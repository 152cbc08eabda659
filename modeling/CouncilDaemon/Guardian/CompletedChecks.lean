import CouncilDaemon.Guardian.CouncilAgreement
import CouncilDaemon.Lib.ServiceInvariant

/-!
# Checks that complete

Agreement is about guardians that complete their checks. A guardian that is answered does complete them:
from the stores of any run that are not ahead of the block, with a tree that holds the cached deposits, it
collects its data; and from any stores that are not ahead and that it has by then, the checks of the keys
return (`checks_complete`). Without such a tree the data can not be collected (`reads_history`).
-/

namespace CouncilDaemon

namespace Guardian

/-- The check of a module returns. -/
theorem checkModuleKeys_returns {depositDataCache : ForgetfulCache (List (String × String)) Bool}
    {keyValidator : KeyValidator} {getNetwork : Except String ℕ}
    {stakingModulesData : List StakingModuleData} {duplicatedKeys : Duplicates.DuplicatedKeys}
    {blockData : BlockData} {data : StakingModuleData} {cache : depositDataCache.State} {wc fv : Bytes}
    (hwc : keyValidator.bufferFromHexString data.withdrawalCredentials = .ok wc)
    (hfv : KeysValidation.forkVersion getNetwork = .ok fv)
    (hvalidator : ∀ submitted, ∃ validated, keyValidator.validateKeys submitted = .ok validated)
    (hsound : KeysValidation.CacheSound depositDataCache keyValidator cache) :
    ∃ checked cache', EStateM.run (StakingModuleDataCollector.checkModuleKeys depositDataCache
        keyValidator getNetwork stakingModulesData duplicatedKeys blockData data) cache =
          .ok checked cache' ∧
      KeysValidation.CacheSound depositDataCache keyValidator cache' := by
  obtain ⟨invalidKeys, cache', hinvalid⟩ :=
    KeysValidation.getInvalidKeys_returns hwc hfv hvalidator hsound data.vettedUnusedKeys
  have hkept : KeysValidation.CacheSound depositDataCache keyValidator (Service.after (EStateM.run
      (StakingModuleDataCollector.checkModuleKeys depositDataCache keyValidator getNetwork
        stakingModulesData duplicatedKeys blockData data) cache)) :=
    (DepositSafety.checkModuleKeys_spec data cache hsound).1
  unfold StakingModuleDataCollector.checkModuleKeys at hkept ⊢
  rw [Service.run_bind_ok hinvalid] at hkept ⊢
  exact ⟨_, cache', rfl, hkept⟩

/-- A guardian that is answered: its node up to the block, its disk and its validator. -/
structure Served (C : Crypto) {D D' : ℕ} (chain : Chain D D') (F : ℕ) (env : GuardianEnv) : Prop where
  sees : Sees C chain env
  fetches : ∀ first, ∃ events,
    env.block.registry.fetchEventsFallOver first chain.blockNumber = .ok events
  root : ∃ root, env.block.registry.getDepositRoot chain.blockHash = .ok root
  context : ∃ context, env.block.getGuardianExecutionContext chain.blockHash = .ok context
  balance : ∃ critical, env.block.isBalanceCritical = .ok critical
  paused : ∃ paused, env.block.isDepositsPaused chain.blockHash = .ok paused
  modulesPaused : ∀ id, ∃ paused, env.isModuleDepositsPaused id = .ok paused
  updates : env.signingKeys.Answering D' chain.keys F
  fetchesKeys : ∀ key first modules, ∃ events,
    (env.keyEvents key).fetchEventsFallOver first chain.blockNumber modules = .ok events
  network : env.getNetwork = .ok chain.chainId
  validates : ∀ submitted, ∃ validated, env.keyValidator.validateKeys submitted = .ok validated

/-- Neither cache is ahead of the block. -/
structure NotAhead {D D' : ℕ} (chain : Chain D D')
    {depositDataCache : ForgetfulCache (List (String × String)) Bool}
    (s : GuardianStores depositDataCache) : Prop where
  deposits : (Registry.cachedHeaders s.registry D).endBlock ≤ chain.blockNumber
  signingKeys : ∀ headers, SigningKeysStore.getHeader.run s.signingKeys = .ok headers s.signingKeys →
    headers.endBlock ≤ chain.blockNumber

section Completion

variable {C : Crypto} {D D' F : ℕ} {chain : Chain D D'} {env : GuardianEnv}
  {depositDataCache : ForgetfulCache (List (String × String)) Bool}
  {s u : GuardianStores depositDataCache} {stakingModules : List SRModule}
  {elBlockSnapshot : ELBlockSnapshot} {lidoKeys : List RegistryKey}
  {moduleWCMap : InsertionMap String String} {blockData : BlockData}
  {stakingModulesData : List StakingModuleData}

/-- The data are collected. -/
theorem collectData_returns (h : Served C chain F env) (hs : Brought C chain s)
    (haligned : Registry.Aligned C s.registry) (hage : NotAhead chain s) (hnumber : elBlockSnapshot.blockNumber = chain.blockNumber)
    (hhash : elBlockSnapshot.blockHash = chain.blockHash)
    (hexpected : StakingModuleGuard.HasExpectedWCs moduleWCMap lidoKeys)
    (stakingModules : List SRModule) :
    ∃ blockData stakingModulesData t, EStateM.run (collectData C env stakingModules elBlockSnapshot
      lidoKeys moduleWCMap) s = .ok (blockData, stakingModulesData) t := by
  obtain ⟨m, hreach, hregistry⟩ := hs.registry
  have hevents := (hreach.reading hregistry h.sees.deposits).2 haligned
    ⟨hage.deposits, h.fetches _, h.root⟩
  obtain ⟨root, hroot⟩ := h.root
  obtain ⟨context, hcontext⟩ := h.context
  obtain ⟨critical, hcritical⟩ := h.balance
  obtain ⟨paused, hpaused⟩ := h.paused
  obtain ⟨usedKeys, husedKeys, _⟩ := StakingModuleGuard.get?_getUsedKeyExpectedWCs hexpected
  have hsuspect : ∀ isSuspect, ∃ verdict, StakingModuleGuard.hasSuspectDeposit isSuspect
      env.block.chainId (chain.deposits.upTo chain.blockNumber) lidoKeys moduleWCMap =
        .ok verdict := by
    intro isSuspect
    rw [StakingModuleGuard.hasSuspectDeposit, husedKeys]
    exact ⟨_, rfl⟩
  obtain ⟨hasFrontRunning, hfrontRun⟩ := hsuspect fun lidoWCs wc => wc ∉ lidoWCs
  obtain ⟨hasWrongWCType, hwrongType⟩ := hsuspect fun lidoWCs wc => wc ∈ lidoWCs
  have hdata := BlockDataCollector.run_getCurrentBlockData hroot hevents hcontext hcritical hfrontRun
    hwrongType hpaused
  obtain ⟨stakingModulesData, hmodules⟩ : ∃ stakingModulesData,
      StakingModuleDataCollector.collectStakingModuleData env.isModuleDepositsPaused stakingModules
        elBlockSnapshot lidoKeys moduleWCMap = .ok stakingModulesData := by
    refine mapM_of_forall_ok fun stakingModule _ => ?_
    obtain ⟨paused, hpaused⟩ := h.modulesPaused stakingModule.id
    rw [hpaused]
    exact ⟨_, rfl⟩
  unfold collectData
  rw [EStateM.run_bind, Service.run_zoom, hnumber, hhash, hdata, hmodules]
  exact ⟨_, stakingModulesData, _, rfl⟩

/-- The checks of the keys, from the update of the signing keys cache and the checks behind it. -/
theorem run_checkKeys {store : SigningKeysStore} {cache : depositDataCache.State}
    {checked : List StakingModuleData}
    (hupdate : EStateM.run (SigningKeysRegistry.updateEventsCache env.signingKeys
      (stakingModulesData.map (·.stakingModuleAddress))) u.signingKeys = .ok () store)
    (hcheck : EStateM.run (StakingModuleDataCollector.checkKeys depositDataCache env.keyValidator
      env.getNetwork (fetchSigningKeyEvents env store blockData) stakingModulesData lidoKeys blockData)
        u.validationCache = .ok checked cache) :
    EStateM.run (checkKeys env stakingModulesData blockData lidoKeys) u =
      .ok checked { u with signingKeys := store, validationCache := cache } := by
  have hfirst : EStateM.run (Service.zoom GuardianStores.signingKeys
      (fun signingKeys (s : GuardianStores depositDataCache) => { s with signingKeys })
      (SigningKeysRegistry.updateEventsCache env.signingKeys
        (stakingModulesData.map (·.stakingModuleAddress)))) u =
        .ok () { u with signingKeys := store } :=
    Service.run_zoom_ok hupdate
  have hlast : EStateM.run (Service.zoom GuardianStores.validationCache
      (fun validationCache (s : GuardianStores depositDataCache) => { s with validationCache })
      (StakingModuleDataCollector.checkKeys depositDataCache env.keyValidator env.getNetwork
        (fetchSigningKeyEvents env store blockData) stakingModulesData lidoKeys blockData))
      { u with signingKeys := store } =
        .ok checked { u with signingKeys := store, validationCache := cache } :=
    Service.run_zoom_ok hcheck
  unfold checkKeys
  rw [Service.run_bind_ok hfirst]
  exact hlast

/-- The checks of the keys return. -/
theorem checkKeys_returns (h : Served C chain F env) (hu : Brought C chain u)
    (hage : NotAhead chain u) (hF : F ≤ chain.blockNumber)
    (hhashes : ∀ event ∈ chain.keys.events, event.blockNumber = chain.blockNumber →
      event.blockHash = chain.blockHash)
    (hnumber : blockData.blockNumber = chain.blockNumber)
    (hhash : blockData.blockHash = chain.blockHash)
    (hnodup : (stakingModulesData.map (·.stakingModuleAddress)).Nodup)
    (hlength : ∀ a ∈ lidoKeys, a.key.length = chain.keys.keyLength)
    (hchain : (genesisForkVersionByChainId chain.chainId).isSome)
    (hcredentials : ∀ data ∈ stakingModulesData,
      ∃ wc, chain.bufferFromHexString data.withdrawalCredentials = .ok wc) :
    ∃ checked v, EStateM.run (checkKeys env stakingModulesData blockData lidoKeys) u =
      .ok checked v := by
  obtain ⟨header, hcomplete⟩ := hu.signingKeys.complete
  obtain ⟨store, hupdate⟩ := SigningKeysRegistry.updateEventsCache_returns h.updates hcomplete
    (stakingModulesData.map (·.stakingModuleAddress))
  obtain ⟨headers, F', hcomplete', _, hanswer, _, hheaders⟩ :=
    SigningKeysRegistry.run_updateEventsCache h.sees.signingKeys hnodup hcomplete h.sees.finalized hupdate
  have hend : headers.endBlock ≤ chain.blockNumber := by
    rcases hheaders with rfl | hend
    · exact hage.signingKeys headers (SigningKeysStore.run_getHeader hcomplete.holds)
    · rw [h.updates.finalized] at hanswer
      have := Except.ok.inj hanswer
      omega
  have hanswers : ∀ a ∈ lidoKeys, ∃ events,
      fetchSigningKeyEvents env store blockData a.key = .ok events := by
    intro a ha
    obtain ⟨group, hgroup⟩ := SigningKeysRegistry.getUpdatedSigningKeyEvents_returns
      (h.sees.keyEvents a.key) hcomplete' (hlength a ha) hend (h.fetchesKeys _ _ _) hhashes
    refine ⟨group.events, ?_⟩
    rw [fetchSigningKeyEvents, hnumber, hhash, Service.runOn, hgroup]
    rfl
  obtain ⟨duplicatedKeys, hduplicated⟩ := Duplicates.getDuplicatedKeys_answered hanswers
  obtain ⟨fv, hfv⟩ : ∃ fv, KeysValidation.forkVersion env.getNetwork = .ok fv := by
    obtain ⟨version, hversion⟩ := Option.isSome_iff_exists.1 hchain
    refine ⟨version, ?_⟩
    rw [KeysValidation.forkVersion, h.network]
    simp only [bind, Except.bind, hversion, Option.elim_some]
  have hsound : KeysValidation.CacheSound depositDataCache env.keyValidator u.validationCache :=
    hu.validationCache.sound h.sees.isValid
  have hmodules : ∀ data ∈ stakingModulesData, ∀ cache,
      KeysValidation.CacheSound depositDataCache env.keyValidator cache → ∃ checked cache',
        EStateM.run (StakingModuleDataCollector.checkModuleKeys depositDataCache env.keyValidator
          env.getNetwork stakingModulesData duplicatedKeys blockData data) cache = .ok checked cache' ∧
        KeysValidation.CacheSound depositDataCache env.keyValidator cache' := by
    intro data hdata cache hcache
    obtain ⟨wc, hwc⟩ := hcredentials data hdata
    rw [← h.sees.bufferFromHexString] at hwc
    exact checkModuleKeys_returns hwc hfv h.validates hcache
  obtain ⟨checked, cache, hmap, _⟩ := Service.mapM_returns hmodules u.validationCache hsound
  have hcheck : EStateM.run (StakingModuleDataCollector.checkKeys depositDataCache env.keyValidator
      env.getNetwork (fetchSigningKeyEvents env store blockData) stakingModulesData lidoKeys blockData)
        u.validationCache = .ok checked cache := by
    unfold StakingModuleDataCollector.checkKeys
    rw [hduplicated, Service.run_bind_ok (Service.run_call_ok duplicatedKeys u.validationCache)]
    exact hmap
  exact ⟨checked, _, run_checkKeys hupdate hcheck⟩

/-- **The checks complete.** A guardian that is answered collects its data, from the stores of any run that
are not ahead of the block, with a tree that holds the cached deposits; and from any stores that are not
ahead and that it has by then, its checks of the keys return. -/
theorem checks_complete (h : Served C chain F env) (hF : F ≤ chain.blockNumber)
    (hhashes : ∀ event ∈ chain.keys.events, event.blockNumber = chain.blockNumber →
      event.blockHash = chain.blockHash)
    (hchain : (genesisForkVersionByChainId chain.chainId).isSome)
    (hnumber : elBlockSnapshot.blockNumber = chain.blockNumber)
    (hhash : elBlockSnapshot.blockHash = chain.blockHash)
    (hmodules : (stakingModules.map (·.stakingModuleAddress)).Nodup)
    (hcredentials : ∀ stakingModule ∈ stakingModules, ∃ wc,
      chain.bufferFromHexString (moduleWCMap.get? stakingModule.stakingModuleAddress) = .ok wc)
    (hexpected : StakingModuleGuard.HasExpectedWCs moduleWCMap lidoKeys)
    (hlength : ∀ a ∈ lidoKeys, a.key.length = chain.keys.keyLength)
    (hs : Brought C chain s) (haligned : Registry.Aligned C s.registry) (hage : NotAhead chain s) :
    ∃ blockData stakingModulesData t,
      EStateM.run (collectData C env stakingModules elBlockSnapshot lidoKeys moduleWCMap) s =
        .ok (blockData, stakingModulesData) t ∧
      ∀ u : GuardianStores depositDataCache, Brought C chain u → NotAhead chain u →
        ∃ checked v, EStateM.run (checkKeys env stakingModulesData blockData lidoKeys) u =
          .ok checked v := by
  obtain ⟨blockData, stakingModulesData, t, hrun⟩ :=
    collectData_returns h hs haligned hage hnumber hhash hexpected stakingModules
  obtain ⟨hseen, hcollected⟩ := collected_of_run h.sees hs hnumber hhash hrun
  obtain ⟨_, haddresses⟩ := collected_eq h.sees h.sees hcollected hcollected
  refine ⟨blockData, stakingModulesData, t, hrun, fun u hu hahead => ?_⟩
  refine checkKeys_returns h hu hahead hF hhashes hseen.blockNumber hseen.blockHash
    (haddresses ▸ hmodules) hlength hchain fun data hdata => ?_
  have hmem : data.stakingModuleAddress ∈ stakingModules.map (·.stakingModuleAddress) := by
    rw [← haddresses]
    exact List.mem_map_of_mem hdata
  obtain ⟨stakingModule, hmodule, haddress⟩ := List.mem_map.1 hmem
  obtain ⟨wc, hwc⟩ := hcredentials stakingModule hmodule
  refine ⟨wc, ?_⟩
  rw [(DepositSafety.collected_of_mem hcollected data hdata).withdrawalCredentials, ← haddress]
  exact hwc

end Completion

/-! ### The second guardian of Holesky -/

namespace AgreementSample

theorem served_guardian (guardianIndex : ℤ) {order : List SigningKeyEvent → List SigningKeyEvent}
    (horder : ∀ events, (order events).Perm events) :
    Served .framed chain 10 (guardian guardianIndex order) where
  sees := sees_guardian guardianIndex horder
  fetches _ := ⟨_, rfl⟩
  root := ⟨_, rfl⟩
  context := ⟨_, rfl⟩
  balance := ⟨_, rfl⟩
  paused := ⟨_, rfl⟩
  modulesPaused _ := ⟨_, rfl⟩
  updates := {
    toHonest := (sees_guardian guardianIndex horder).signingKeys
    network := ⟨17000, rfl⟩
    finalized := rfl
    answers := fun _ _ _ _ => ⟨_, rfl⟩
    writes := fun _ => rfl
    clears := rfl }
  fetchesKeys _ _ _ := ⟨_, rfl⟩
  network := rfl
  validates _ := ⟨_, rfl⟩

theorem notAhead_stores : NotAhead chain stores where
  deposits := Nat.zero_le _
  signingKeys headers h := by
    have hdefault : signingKeysCacheDefault.headers = headers := (EStateM.Result.ok.inj h).1
    rw [← hdefault]
    decide

theorem checks_complete_holesky : ∃ blockData stakingModulesData t,
    EStateM.run (collectData .framed (guardian 3 List.reverse) [⟨7, 1, "0xmodule"⟩] elBlockSnapshot
      lidoKeys moduleWCMap) stores = .ok (blockData, stakingModulesData) t ∧
    ∃ checked v, EStateM.run (checkKeys (guardian 3 List.reverse) stakingModulesData blockData lidoKeys)
      stores = .ok checked v := by
  have hcredentials : ∀ stakingModule ∈ [(⟨7, 1, "0xmodule"⟩ : SRModule)], ∃ wc,
      chain.bufferFromHexString (moduleWCMap.get? stakingModule.stakingModuleAddress) = .ok wc := by
    intro stakingModule hmem
    rw [List.mem_singleton.1 hmem]
    exact ⟨[0x01, 0x00], rfl⟩
  have hexpected : StakingModuleGuard.HasExpectedWCs moduleWCMap lidoKeys := by
    intro key hkey hused
    have hunused : ∀ key ∈ lidoKeys, key.used = false := by decide
    rw [hunused key hkey] at hused
    cases hused
  have hnumber : elBlockSnapshot.blockNumber = chain.blockNumber := rfl
  have hhash : elBlockSnapshot.blockHash = chain.blockHash := rfl
  obtain ⟨blockData, stakingModulesData, t, hrun, hchecks⟩ := checks_complete
    (served_guardian 3 List.reverse_perm) (by decide) (by decide) (by decide) hnumber hhash (by decide)
    hcredentials hexpected (by decide) brought_stores Machine.aligned_startedRegistry notAhead_stores
  exact ⟨blockData, stakingModulesData, t, hrun, hchecks stores brought_stores notAhead_stores⟩

end AgreementSample

end Guardian

end CouncilDaemon
