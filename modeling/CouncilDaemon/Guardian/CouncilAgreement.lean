import CouncilDaemon.Deposits.Availability
import CouncilDaemon.Guardian.BlockData
import CouncilDaemon.Guardian.Cycle
import CouncilDaemon.Guardian.DepositSafety
import CouncilDaemon.Guardian.DuplicateVerdicts
import CouncilDaemon.Guardian.ValidationCache
import CouncilDaemon.SigningKeys.Updates

/-!
# Agreement of the council

A deposit goes through when enough guardians sign the same message, so they have to come to the same
decisions although each has its own node, its own database and its own caches. Two guardians examine one
block of one chain. Whatever runs led each of them to its stores, and whatever order their nodes answer in,
when both complete their checks they find the same in every module: they agree on the pause, on the modules
they send deposit messages for, and on the module they unvet keys of (`council_agrees`).
-/

namespace CouncilDaemon

/-! ## Two results over one list -/

section Lists

variable {α β γ : Type} {R : α → β → Prop} {S : α → γ → Prop} {T : β → γ → Prop}

/-- What relates the results of each element relates the lists of results. -/
theorem forall₂_of_common {as : List α} {bs : List β} {cs : List γ} (h : List.Forall₂ R as bs)
    (h' : List.Forall₂ S as cs) (hT : ∀ a ∈ as, ∀ b c, R a b → S a c → T b c) :
    List.Forall₂ T bs cs := by
  induction h generalizing cs with
  | nil =>
    cases h'
    exact List.Forall₂.nil
  | @cons a b as bs hab _ ih =>
    cases h' with
    | cons hac hrest =>
      refine List.Forall₂.cons (hT a List.mem_cons_self _ _ hab hac) (ih hrest fun a' ha' => ?_)
      exact hT a' (List.mem_cons_of_mem a ha')

/-- Lists with the same verdicts, and the same elements where the verdict is positive, have the same
positive elements. -/
theorem filter_eq_of_forall₂ {T : β → β → Prop} {p q : β → Bool} {bs cs : List β}
    (h : List.Forall₂ T bs cs) (hpq : ∀ b c, T b c → p b = q c ∧ (p b = true → b = c)) :
    bs.filter p = cs.filter q := by
  induction h with
  | nil => rfl
  | @cons b c bs cs hbc _ ih =>
    obtain ⟨hsame, heq⟩ := hpq b c hbc
    by_cases hp : p b = true
    · rw [List.filter_cons_of_pos hp, List.filter_cons_of_pos (hsame ▸ hp), ih, heq hp]
    · rw [List.filter_cons_of_neg hp, List.filter_cons_of_neg (hsame ▸ hp), ih]

/-- Lists with the same verdicts have their first positive elements in one place. -/
theorem find?_rel_of_forall₂ {p : α → Bool} {q : β → Bool} {as : List α} {bs : List β}
    (h : List.Forall₂ R as bs) (hpq : ∀ a b, R a b → p a = q b) :
    Option.Rel R (as.find? p) (bs.find? q) := by
  induction h with
  | nil => exact Option.Rel.none
  | @cons a b as bs hab _ ih =>
    have hsame : p a = q b := hpq a b hab
    by_cases hp : p a = true
    · rw [List.find?_cons_of_pos hp, List.find?_cons_of_pos (hsame ▸ hp)]
      exact Option.Rel.some hab
    · rw [List.find?_cons_of_neg hp, List.find?_cons_of_neg (hsame ▸ hp)]
      exact ih

end Lists

/-! ## Duplicates -/

namespace Duplicates

/-- The lists depend only on the events of the pubkeys that were asked for. -/
theorem getDuplicatedKeys_of_answers
    {getUpdatedSigningKeyEvents : String → Except String (List SigningKeyEvent)}
    {history : String → List SigningKeyEvent} {keys : List RegistryKey} {result : DuplicatedKeys}
    (hhistory : ∀ a ∈ keys, ∀ events, getUpdatedSigningKeyEvents a.key = .ok events →
      history a.key = events)
    (h : getDuplicatedKeys getUpdatedSigningKeyEvents keys = .ok result) :
    getDuplicatedKeys (fun key => .ok (history key)) keys = .ok result := by
  obtain ⟨result', h'⟩ := getDuplicatedKeys_returns history keys
  obtain ⟨results, hresults, rfl⟩ := getDuplicatedKeys_groups h
  obtain ⟨results', hresults', rfl⟩ := getDuplicatedKeys_groups h'
  have hsame : List.Forall₂ Eq results' results := by
    refine forall₂_of_common hresults' hresults fun group hgroup r' r hr' hr => ?_
    obtain ⟨pubkey, copiesOf⟩ := group
    obtain ⟨rfl, hseveral⟩ := mem_getDuplicateKeyGroups.1 hgroup
    obtain ⟨a, ha⟩ := List.exists_mem_of_length_pos (Nat.lt_of_succ_lt hseveral)
    obtain ⟨hkeys, rfl⟩ := mem_copies.1 ha
    simp only [processDuplicateKeyGroup] at hr hr'
    split_ifs at hr hr'
    · exact Except.ok.inj (hr'.symm.trans hr)
    · exact Except.ok.inj (hr'.symm.trans hr)
    · cases hevents : getUpdatedSigningKeyEvents a.key with
      | error e =>
        rw [getDuplicatesAcrossOperators, hevents] at hr
        cases hr
      | ok events =>
        rw [getDuplicatesAcrossOperators, hevents] at hr
        rw [getDuplicatesAcrossOperators, hhistory a hkeys events hevents] at hr'
        exact Except.ok.inj (hr'.symm.trans hr)
  rw [List.forall₂_eq_eq_eq] at hsame
  rw [h', hsame]

/-- Two guardians whose answers are the same events, in any order, list the same keys. -/
theorem agree_of_answers (history : String → List SigningKeyEvent) {keys : List RegistryKey}
    {answers answers' : String → Except String (List SigningKeyEvent)}
    {result result' : DuplicatedKeys} (hid : DistinctRecords keys)
    (hanswers : ∀ a ∈ keys, ∀ events, answers a.key = .ok events → events.Perm (history a.key))
    (hanswers' : ∀ a ∈ keys, ∀ events, answers' a.key = .ok events → events.Perm (history a.key))
    (h : getDuplicatedKeys answers keys = .ok result)
    (h' : getDuplicatedKeys answers' keys = .ok result') : Agree result result' := by
  have hcomplete : ∀ {answers : String → Except String (List SigningKeyEvent)} {result},
      (∀ a ∈ keys, ∀ events, answers a.key = .ok events → events.Perm (history a.key)) →
      getDuplicatedKeys answers keys = .ok result →
      ∃ seen : String → List SigningKeyEvent, (∀ pubkey, (seen pubkey).Perm (history pubkey)) ∧
        getDuplicatedKeys (fun key => .ok (seen key)) keys = .ok result := by
    intro answers result hperm h
    -- where there is no answer the events of the chain stand for it
    let seen : String → List SigningKeyEvent := fun pubkey =>
      if pubkey ∈ keys.map (·.key) then (answers pubkey).toOption.getD (history pubkey)
      else history pubkey
    refine ⟨seen, fun pubkey => ?_, ?_⟩
    · by_cases hmem : pubkey ∈ keys.map (·.key)
      · obtain ⟨a, ha, rfl⟩ := List.mem_map.1 hmem
        simp only [seen, if_pos hmem]
        cases hanswer : answers a.key with
        | error e => exact List.Perm.refl _
        | ok events => exact hperm a ha events hanswer
      · simp only [seen, if_neg hmem]
        exact List.Perm.refl _
    · refine getDuplicatedKeys_of_answers (fun a ha events hanswer => ?_) h
      simp only [seen, if_pos (List.mem_map_of_mem ha), hanswer]
      rfl
  obtain ⟨seen, hseen, hrun⟩ := hcomplete hanswers h
  obtain ⟨seen', hseen', hrun'⟩ := hcomplete hanswers' h'
  have hevents : ∀ pubkey, (seen pubkey).Perm (seen' pubkey) :=
    fun pubkey => (hseen pubkey).trans (hseen' pubkey).symm
  have hforth := listed_of_perm hid (List.Perm.refl keys) hevents hrun hrun'
  have hback := listed_of_perm hid (List.Perm.refl keys) (fun pubkey => (hevents pubkey).symm) hrun' hrun
  exact ⟨fun a => ⟨(hforth a).1, (hback a).1⟩, fun a => ⟨(hforth a).2, (hback a).2⟩⟩

end Duplicates

/-! ## The checks of a cycle -/

/-- What a guardian's node and validator answer in a cycle. -/
structure GuardianEnv where
  block : BlockDataCollector.BlockEnv
  isModuleDepositsPaused : (stakingModuleId : ℕ) → Except String Bool
  signingKeys : SigningKeysEnv
  /-- The answers while the events of a key are read. -/
  keyEvents : (key : String) → SigningKeysEnv
  getNetwork : Except String ℕ
  keyValidator : KeyValidator

/-- The stores of a guardian that a cycle works with. -/
structure GuardianStores (depositDataCache : ForgetfulCache (List (String × String)) Bool) where
  registry : Registry
  signingKeys : SigningKeysStore
  validationCache : depositDataCache.State

namespace Guardian

section Source

variable (C : Crypto) (env : GuardianEnv)
  {depositDataCache : ForgetfulCache (List (String × String)) Bool}

/-- `collectData` of the guardian, with the credentials of the modules. -/
def collectData (stakingModules : List SRModule) (elBlockSnapshot : ELBlockSnapshot)
    (lidoKeys : List RegistryKey) (moduleWCMap : InsertionMap String String) :
    Service (GuardianStores depositDataCache) (BlockData × List StakingModuleData) := do
  let blockData ← Service.zoom GuardianStores.registry (fun registry s => { s with registry })
    (BlockDataCollector.getCurrentBlockData C env.block elBlockSnapshot.blockNumber
      elBlockSnapshot.blockHash moduleWCMap lidoKeys)
  let stakingModulesData ← Service.call (StakingModuleDataCollector.collectStakingModuleData
    env.isModuleDepositsPaused stakingModules elBlockSnapshot lidoKeys moduleWCMap)
  return (blockData, stakingModulesData)

/-- `fetchSigningKeyEvents` of the duplication checker. Reading leaves the stored events as they are. -/
def fetchSigningKeyEvents (store : SigningKeysStore) (blockData : BlockData) (key : String) :
    Except String (List SigningKeyEvent) := do
  let (eventsGroup, _) ← Service.runOn (SigningKeysRegistry.getUpdatedSigningKeyEvents
    (env.keyEvents key) key blockData.blockNumber blockData.blockHash) store
  return eventsGroup.events

/-- `checkKeys` of the guardian: the signing keys cache is updated, then the keys are checked. -/
def checkKeys (stakingModulesData : List StakingModuleData) (blockData : BlockData)
    (lidoKeys : List RegistryKey) :
    Service (GuardianStores depositDataCache) (List StakingModuleData) := do
  let stakingRouterModuleAddresses := stakingModulesData.map (·.stakingModuleAddress)
  Service.zoom GuardianStores.signingKeys (fun signingKeys s => { s with signingKeys })
    (SigningKeysRegistry.updateEventsCache env.signingKeys stakingRouterModuleAddresses)
  let store := (← get).signingKeys
  Service.zoom GuardianStores.validationCache (fun validationCache s => { s with validationCache })
    (StakingModuleDataCollector.checkKeys depositDataCache env.keyValidator env.getNetwork
      (fetchSigningKeyEvents env store blockData) stakingModulesData lidoKeys blockData)

end Source

/-! ## One chain -/

/-- What there is to see at a block of the chain: the deposits, the signing keys that were added, whether
deposits are paused, and which deposit signatures are valid. -/
structure Chain (D D' : ℕ) where
  deposits : History D
  keys : KeyHistory
  blockNumber : ℕ
  blockHash : String
  chainId : ℕ
  isDepositsPaused : Bool
  isModuleDepositsPaused : (stakingModuleId : ℕ) → Bool
  isValid : (key depositSignature : String) →
    (withdrawalCredentials genesisForkVersion : Bytes) → Bool
  bufferFromHexString : Option String → Except String Bytes

/-- A guardian whose node and validator answer with what is on the chain, or fail. The order of the events
is up to the node. -/
structure Sees (C : Crypto) {D D' : ℕ} (chain : Chain D D') (env : GuardianEnv) : Prop where
  deposits : CompleteAt C chain.deposits chain.blockNumber chain.blockHash env.block.registry
  chainId : env.block.chainId = chain.chainId
  isDepositsPaused : ∀ answer, env.block.isDepositsPaused chain.blockHash = .ok answer →
    answer = chain.isDepositsPaused
  isModuleDepositsPaused : ∀ id answer, env.isModuleDepositsPaused id = .ok answer →
    answer = chain.isModuleDepositsPaused id
  signingKeys : env.signingKeys.Honest D' chain.keys
  finalized : ∀ block, env.signingKeys.getBlock = .ok block → D' < block
  keyEvents : ∀ key, (env.keyEvents key).Honest D' chain.keys
  network : ∀ chainId, env.getNetwork = .ok chainId → chainId = chain.chainId
  isValid : env.keyValidator.isValid = chain.isValid
  bufferFromHexString : env.keyValidator.bufferFromHexString = chain.bufferFromHexString

/-- Stores that a guardian can have: those of some run of each of them on this chain, whatever failed in
it, and went on or was restarted. -/
structure Brought (C : Crypto) {D D' : ℕ} (chain : Chain D D')
    {depositDataCache : ForgetfulCache (List (String × String)) Bool}
    (s : GuardianStores depositDataCache) : Prop where
  registry : ∃ m : Machine, Machine.Reachable C chain.deposits m ∧ m.live = some s.registry
  signingKeys : Updated D' chain.keys s.signingKeys.db
  validationCache : KeysValidation.CalledBefore depositDataCache chain.isValid s.validationCache

/-! ## What a guardian finds -/

section Findings

variable {C : Crypto} {D D' : ℕ} {chain : Chain D D'} {env : GuardianEnv}
  {depositDataCache : ForgetfulCache (List (String × String)) Bool}
  {s t u v : GuardianStores depositDataCache} {stakingModules : List SRModule}
  {elBlockSnapshot : ELBlockSnapshot} {lidoKeys : List RegistryKey}
  {moduleWCMap : InsertionMap String String} {blockData : BlockData}
  {stakingModulesData checked : List StakingModuleData}

/-- The data of the block are those of the chain. -/
structure BlockSeen (chain : Chain D D') (root : String) (lidoKeys : List RegistryKey)
    (moduleWCMap : InsertionMap String String) (blockData : BlockData) : Prop where
  blockNumber : blockData.blockNumber = chain.blockNumber
  blockHash : blockData.blockHash = chain.blockHash
  depositRoot : blockData.depositRoot = root
  events : blockData.depositedEvents.events = chain.deposits.upTo chain.blockNumber
  hasFrontRunning : StakingModuleGuard.checkHistoricalFrontRun chain.chainId
    (chain.deposits.upTo chain.blockNumber) lidoKeys moduleWCMap = .ok blockData.hasFrontRunning
  hasWrongWCType : StakingModuleGuard.checkWrongWCType chain.chainId
    (chain.deposits.upTo chain.blockNumber) lidoKeys moduleWCMap = .ok blockData.hasWrongWCType
  alreadyPausedDeposits : blockData.alreadyPausedDeposits = chain.isDepositsPaused

theorem blockSeen_of_run (hsees : Sees C chain env) (hs : Brought C chain s)
    {registry' : Registry} (hrun : (BlockDataCollector.getCurrentBlockData C env.block
      chain.blockNumber chain.blockHash moduleWCMap lidoKeys).run s.registry =
        .ok blockData registry') :
    BlockSeen chain (DepositTree.depositRoot C
      ((chain.deposits.upTo chain.blockNumber).map (·.depositDataRoot))) lidoKeys moduleWCMap
      blockData := by
  obtain ⟨m, hreach, hregistry⟩ := hs.registry
  obtain ⟨hreads, _⟩ := hreach.reading hregistry hsees.deposits
  unfold BlockDataCollector.getCurrentBlockData at hrun
  obtain ⟨depositRoot, s₁, hroot, hrun⟩ := Service.bind_ok hrun
  obtain ⟨depositedEvents, s₂, hevents, hrun⟩ := Service.bind_ok hrun
  obtain ⟨guardianContext, s₃, _, hrun⟩ := Service.bind_ok hrun
  obtain ⟨walletBalanceCritical, s₄, _, hrun⟩ := Service.bind_ok hrun
  obtain ⟨hasFrontRunning, s₅, hfrontRun, hrun⟩ := Service.bind_ok hrun
  obtain ⟨hasWrongWCType, s₆, hwrongType, hrun⟩ := Service.bind_ok hrun
  obtain ⟨alreadyPausedDeposits, s₇, hpaused, hreturn⟩ := Service.bind_ok hrun
  cases hreturn
  obtain ⟨hrootAnswer, rfl⟩ := Service.call_ok hroot
  obtain ⟨_, rfl, _⟩ := hreads _ _ hevents
  rw [hsees.chainId] at hfrontRun hwrongType
  exact ⟨rfl, rfl, hsees.deposits.root _ hrootAnswer, rfl, (Service.call_ok hfrontRun).1,
    (Service.call_ok hwrongType).1, hsees.isDepositsPaused _ (Service.call_ok hpaused).1⟩

/-- What a guardian's checks come to: the events that it asked for are those of the chain, in some order, and
each module was checked. -/
theorem checked_of_run (hsees : Sees C chain env) (hu : Brought C chain u)
    (hblock : blockData.blockNumber = chain.blockNumber)
    (hnodup : (stakingModulesData.map (·.stakingModuleAddress)).Nodup)
    (hlength : ∀ a ∈ lidoKeys, a.key.length = chain.keys.keyLength)
    (hrun : EStateM.run (checkKeys env stakingModulesData blockData lidoKeys) u = .ok checked v) :
    ∃ answers duplicatedKeys,
      (∀ a ∈ lidoKeys, ∀ events, answers a.key = .ok events →
        events.Perm ((chain.keys.added (stakingModulesData.map (·.stakingModuleAddress)) D'
          chain.blockNumber).filter (·.key = a.key))) ∧
      Duplicates.getDuplicatedKeys answers lidoKeys = .ok duplicatedKeys ∧
      List.Forall₂ (DepositSafety.Checked env.keyValidator env.getNetwork stakingModulesData
        duplicatedKeys blockData) stakingModulesData checked := by
  obtain ⟨header, hcomplete⟩ := hu.signingKeys.complete
  unfold checkKeys at hrun
  obtain ⟨_, u₁, hupdate, hrun⟩ := Service.bind_ok hrun
  obtain ⟨u₂, _, hget, hrun⟩ := Service.bind_ok hrun
  cases hget
  rw [Service.run_zoom] at hupdate hrun
  cases hkeys : EStateM.run (SigningKeysRegistry.updateEventsCache env.signingKeys
      (stakingModulesData.map (·.stakingModuleAddress))) u.signingKeys with
  | error e store =>
    rw [hkeys] at hupdate
    cases hupdate
  | ok _ store =>
    rw [hkeys] at hupdate
    cases hupdate
    obtain ⟨headers, F, hcomplete', hnames, _⟩ := SigningKeysRegistry.run_updateEventsCache
      hsees.signingKeys hnodup hcomplete hsees.finalized hkeys
    have hsound : KeysValidation.CacheSound depositDataCache env.keyValidator u.validationCache :=
      hu.validationCache.sound hsees.isValid
    cases hcheck : EStateM.run (StakingModuleDataCollector.checkKeys depositDataCache env.keyValidator
        env.getNetwork (fetchSigningKeyEvents env store blockData) stakingModulesData lidoKeys
        blockData) u.validationCache with
    | error e cache =>
      simp only [hcheck] at hrun
      cases hrun
    | ok result cache =>
      simp only [hcheck] at hrun
      cases hrun
      unfold StakingModuleDataCollector.checkKeys at hcheck
      obtain ⟨duplicatedKeys, cache₁, hduplicated, hmap⟩ := Service.bind_ok hcheck
      obtain ⟨hresult, rfl⟩ := Service.call_ok hduplicated
      refine ⟨_, duplicatedKeys, ?_, hresult,
        (Service.mapM_spec DepositSafety.checkModuleKeys_spec stakingModulesData _ hsound).2 _ _ hmap⟩
      intro a ha events hevents
      unfold fetchSigningKeyEvents at hevents
      cases hread : EStateM.run (SigningKeysRegistry.getUpdatedSigningKeyEvents (env.keyEvents a.key)
          a.key blockData.blockNumber blockData.blockHash) store with
      | error e store' =>
        rw [Service.runOn, hread] at hevents
        cases hevents
      | ok group store' =>
        rw [Service.runOn, hread] at hevents
        cases hevents
        have hperm := SigningKeysRegistry.reads_updateEventsCache hcomplete' hnames
          (hsees.keyEvents a.key) (hlength a ha) hread
        rwa [hblock] at hperm

/-- Two guardians have found the same in a module. -/
structure SameFindings (data data' : StakingModuleData) : Prop where
  source : data' = { data with
    invalidKeys := data'.invalidKeys
    duplicatedKeys := data'.duplicatedKeys
    unresolvedDuplicatedKeys := data'.unresolvedDuplicatedKeys }
  invalidKeys : data.invalidKeys.Perm data'.invalidKeys
  duplicatedKeys : ∀ a, a ∈ data.duplicatedKeys ↔ a ∈ data'.duplicatedKeys
  unresolvedDuplicatedKeys :
    ∀ a, a ∈ data.unresolvedDuplicatedKeys ↔ a ∈ data'.unresolvedDuplicatedKeys

theorem eq_nil_iff_of_mem {α : Type} {as bs : List α} (h : ∀ a, a ∈ as ↔ a ∈ bs) :
    as = [] ↔ bs = [] := by
  simp only [List.eq_nil_iff_forall_not_mem, h]

/-- With nothing found by one guardian, the other has the same data. -/
theorem SameFindings.eq {data data' : StakingModuleData} (h : SameFindings data data')
    (hinvalid : data.invalidKeys = []) (hduplicated : data.duplicatedKeys = [])
    (hunresolved : data.unresolvedDuplicatedKeys = []) : data = data' := by
  have hinvalid' : data'.invalidKeys = [] := (hinvalid ▸ h.invalidKeys).nil_eq.symm
  have hduplicated' : data'.duplicatedKeys = [] := (eq_nil_iff_of_mem h.duplicatedKeys).1 hduplicated
  have hunresolved' : data'.unresolvedDuplicatedKeys = [] :=
    (eq_nil_iff_of_mem h.unresolvedDuplicatedKeys).1 hunresolved
  rw [h.source, hinvalid'.trans hinvalid.symm, hduplicated'.trans hduplicated.symm,
    hunresolved'.trans hunresolved.symm]

/-- A guardian that knows its network validates with the fork version of the chain. -/
theorem forkVersion_of_sees {fv : Bytes} (hsees : Sees C chain env)
    (hfv : KeysValidation.forkVersion env.getNetwork = .ok fv) :
    KeysValidation.forkVersion (.ok chain.chainId) = .ok fv := by
  cases hnetwork : env.getNetwork with
  | error e =>
    rw [hnetwork] at hfv
    cases hfv
  | ok chainId => rwa [hnetwork, hsees.network chainId hnetwork] at hfv

/-- Two guardians find the same in a module when their lists of duplicates agree. -/
theorem SameFindings.of_checked {chain : Chain D D'} {env env' : GuardianEnv}
    (hsees : Sees C chain env) (hsees' : Sees C chain env')
    {duplicatedKeys duplicatedKeys' : Duplicates.DuplicatedKeys}
    (hagree : Duplicates.Agree duplicatedKeys duplicatedKeys') {blockData blockData' : BlockData}
    (hevents : blockData.depositedEvents.events = blockData'.depositedEvents.events)
    {data checked checked' : StakingModuleData}
    (h : DepositSafety.Checked env.keyValidator env.getNetwork stakingModulesData duplicatedKeys
      blockData data checked)
    (h' : DepositSafety.Checked env'.keyValidator env'.getNetwork stakingModulesData duplicatedKeys'
      blockData' data checked') : SameFindings checked checked' := by
  obtain ⟨hattempts, wc, fv, hwc, hfv, hperm⟩ := h
  obtain ⟨hattempts', wc', fv', hwc', hfv', hperm'⟩ := h'
  have hfrontRun : ∀ lidoWCSet, StakingModuleGuard.getFrontRunAttempts data blockData lidoWCSet =
      StakingModuleGuard.getFrontRunAttempts data blockData' lidoWCSet := by
    intro lidoWCSet
    unfold StakingModuleGuard.getFrontRunAttempts StakingModuleGuard.getKeysIntersections
    rw [hevents]
  obtain rfl : wc = wc' := by
    rw [hsees.bufferFromHexString] at hwc
    rw [hsees'.bufferFromHexString] at hwc'
    exact Except.ok.inj (hwc.symm.trans hwc')
  obtain rfl : fv = fv' :=
    Except.ok.inj ((forkVersion_of_sees hsees hfv).symm.trans (forkVersion_of_sees hsees' hfv'))
  have hrejected : KeysValidation.rejected env.keyValidator wc fv =
      KeysValidation.rejected env'.keyValidator wc fv := by
    funext key
    unfold KeysValidation.rejected KeysValidation.verdict
    rw [hsees.isValid, hsees'.isValid]
  have hlisted : ∀ {keys keys' : List RegistryKey} (address : String),
      (∀ a, a ∈ keys ↔ a ∈ keys') →
      ∀ a, a ∈ StakingModuleDataCollector.getModuleVettedUnusedKeys address keys ↔
        a ∈ StakingModuleDataCollector.getModuleVettedUnusedKeys address keys' := by
    intro keys keys' address hkeys a
    rw [DepositSafety.mem_getModuleVettedUnusedKeys, DepositSafety.mem_getModuleVettedUnusedKeys, hkeys]
  refine ⟨?_, ?_, ?_, ?_⟩
  · rw [hattempts, hattempts', hfrontRun]
  · rw [hrejected] at hperm
    exact hperm.trans hperm'.symm
  · rw [hattempts, hattempts']
    exact hlisted _ hagree.duplicates
  · rw [hattempts, hattempts']
    exact hlisted _ hagree.unresolved

section Decisions

variable {data data' : StakingModuleData}

/-- The two guardians find something in the same places. -/
theorem SameFindings.keys_eq_nil_iff (h : SameFindings data data') :
    (data.invalidKeys = [] ↔ data'.invalidKeys = []) ∧
      (data.duplicatedKeys = [] ↔ data'.duplicatedKeys = []) ∧
      (data.unresolvedDuplicatedKeys = [] ↔ data'.unresolvedDuplicatedKeys = []) ∧
      data.frontRunKeys = data'.frontRunKeys ∧ data.crossTypeKeys = data'.crossTypeKeys ∧
      data.isModuleDepositsPaused = data'.isModuleDepositsPaused :=
  ⟨eq_nil_iff_of_mem fun _ => h.invalidKeys.mem_iff, eq_nil_iff_of_mem h.duplicatedKeys,
    eq_nil_iff_of_mem h.unresolvedDuplicatedKeys,
    (congrArg StakingModuleData.frontRunKeys h.source).symm,
    (congrArg StakingModuleData.crossTypeKeys h.source).symm,
    (congrArg StakingModuleData.isModuleDepositsPaused h.source).symm⟩

/-- The two guardians ignore the same modules. -/
theorem SameFindings.ignoreDeposits (h : SameFindings data data')
    (hasFrontRunning hasWrongWCType alreadyPausedDeposits : Bool) :
    Guardian.ignoreDeposits data hasFrontRunning hasWrongWCType alreadyPausedDeposits =
      Guardian.ignoreDeposits data' hasFrontRunning hasWrongWCType alreadyPausedDeposits := by
  obtain ⟨hinvalid, hduplicated, hunresolved, hfrontRun, hcrossType, hpaused⟩ := h.keys_eq_nil_iff
  unfold Guardian.ignoreDeposits
  simp only [gt_iff_lt, List.length_pos_iff, ne_eq, List.append_eq_nil_iff, hinvalid, hduplicated,
    hunresolved, hfrontRun, hcrossType, hpaused]

/-- The two guardians find keys to unvet in the same modules. -/
theorem SameFindings.hasInvalidKeys (h : SameFindings data data') :
    Guardian.hasInvalidKeys data = Guardian.hasInvalidKeys data' := by
  obtain ⟨hinvalid, hduplicated, _, hfrontRun, hcrossType, _⟩ := h.keys_eq_nil_iff
  unfold Guardian.hasInvalidKeys Unvetting.collectInvalidKeys
  simp only [gt_iff_lt, List.length_pos_iff, ne_eq, List.append_eq_nil_iff, hinvalid, hduplicated,
    hfrontRun, hcrossType]

end Decisions

/-- Two guardians have the same data of a block, up to who they are. -/
structure SameBlock (blockData blockData' : BlockData) : Prop where
  blockNumber : blockData.blockNumber = blockData'.blockNumber
  blockHash : blockData.blockHash = blockData'.blockHash
  depositRoot : blockData.depositRoot = blockData'.depositRoot
  events : blockData.depositedEvents.events = blockData'.depositedEvents.events
  hasFrontRunning : blockData.hasFrontRunning = blockData'.hasFrontRunning
  hasWrongWCType : blockData.hasWrongWCType = blockData'.hasWrongWCType
  alreadyPausedDeposits : blockData.alreadyPausedDeposits = blockData'.alreadyPausedDeposits

/-- Two guardians decide the same: they have found the same in each module, send deposit messages for the
same modules, sign the same requests, and unvet keys of the same module. -/
structure SameDecisions (blockData blockData' : BlockData)
    (checked checked' : List StakingModuleData) : Prop where
  findings : List.Forall₂ SameFindings checked checked'
  deposits : handleDeposit checked blockData = handleDeposit checked' blockData'
  depositRequests : ∀ data, (MessageJob.deposit data blockData).request =
    (MessageJob.deposit data blockData').request
  pauseRequest : (MessageJob.pause blockData).request = (MessageJob.pause blockData').request
  unvetting : Option.Rel SameFindings (findFirstInvalidModule checked) (findFirstInvalidModule checked')

theorem SameDecisions.of_findings {blockData blockData' : BlockData}
    (hblock : SameBlock blockData blockData') {checked checked' : List StakingModuleData}
    (h : List.Forall₂ SameFindings checked checked') :
    SameDecisions blockData blockData' checked checked' := by
  refine ⟨h, ?_, fun data => ?_, ?_, ?_⟩
  · unfold handleDeposit
    rw [hblock.hasFrontRunning, hblock.hasWrongWCType, hblock.alreadyPausedDeposits]
    refine filter_eq_of_forall₂ h fun data data' hsame => ⟨?_, fun hclean => ?_⟩
    · rw [hsame.ignoreDeposits]
    · have hmem : data ∈ handleDeposit [data] blockData' := List.mem_filter.2 ⟨by simp, hclean⟩
      obtain ⟨_, hinvalid, _, hduplicated, _, hunresolved, _⟩ := DepositSafety.mem_handleDeposit hmem
      exact hsame.eq hinvalid hduplicated hunresolved
  · simp only [MessageJob.request, hblock.depositRoot, hblock.blockNumber, hblock.blockHash]
  · simp only [MessageJob.request, hblock.blockNumber, hblock.blockHash]
  · exact find?_rel_of_forall₂ h fun data data' hsame => hsame.hasInvalidKeys

/-! ## Agreement -/

/-- The collected data: those of the block, and those of the modules. -/
theorem collected_of_run (hsees : Sees C chain env) (hs : Brought C chain s)
    (hnumber : elBlockSnapshot.blockNumber = chain.blockNumber)
    (hhash : elBlockSnapshot.blockHash = chain.blockHash)
    (hrun : EStateM.run (collectData C env stakingModules elBlockSnapshot lidoKeys moduleWCMap) s =
      .ok (blockData, stakingModulesData) t) :
    BlockSeen chain (DepositTree.depositRoot C
      ((chain.deposits.upTo chain.blockNumber).map (·.depositDataRoot))) lidoKeys moduleWCMap
      blockData ∧
    StakingModuleDataCollector.collectStakingModuleData env.isModuleDepositsPaused stakingModules
      elBlockSnapshot lidoKeys moduleWCMap = .ok stakingModulesData := by
  unfold collectData at hrun
  obtain ⟨collected, s₁, hblock, hrun⟩ := Service.bind_ok hrun
  obtain ⟨modules, s₂, hmodules, hreturn⟩ := Service.bind_ok hrun
  obtain ⟨hcollected, rfl⟩ := Service.call_ok hmodules
  cases hreturn
  refine ⟨?_, hcollected⟩
  rw [Service.run_zoom, hnumber, hhash] at hblock
  cases hdata : EStateM.run (BlockDataCollector.getCurrentBlockData C env.block chain.blockNumber
      chain.blockHash moduleWCMap lidoKeys) s.registry with
  | error e registry =>
    rw [hdata] at hblock
    cases hblock
  | ok collected registry =>
    rw [hdata] at hblock
    cases hblock
    exact blockSeen_of_run hsees hs hdata

/-- Two guardians collect the same data of the modules, in the order of the modules. -/
theorem collected_eq {env env' : GuardianEnv} (hsees : Sees C chain env) (hsees' : Sees C chain env')
    {stakingModulesData' : List StakingModuleData}
    (h : StakingModuleDataCollector.collectStakingModuleData env.isModuleDepositsPaused stakingModules
      elBlockSnapshot lidoKeys moduleWCMap = .ok stakingModulesData)
    (h' : StakingModuleDataCollector.collectStakingModuleData env'.isModuleDepositsPaused stakingModules
      elBlockSnapshot lidoKeys moduleWCMap = .ok stakingModulesData') :
    stakingModulesData = stakingModulesData' ∧
      stakingModulesData.map (·.stakingModuleAddress) =
        stakingModules.map (·.stakingModuleAddress) := by
  have hsame : List.Forall₂ Eq stakingModulesData stakingModulesData' := by
    refine forall₂_of_common (mapM_ok h) (mapM_ok h') fun stakingModule _ data data' hdata hdata' => ?_
    cases hpaused : env.isModuleDepositsPaused stakingModule.id with
    | error e => rw [hpaused] at hdata; cases hdata
    | ok paused =>
      cases hpaused' : env'.isModuleDepositsPaused stakingModule.id with
      | error e => rw [hpaused'] at hdata'; cases hdata'
      | ok paused' =>
        have heq : paused = paused' := (hsees.isModuleDepositsPaused _ _ hpaused).trans
          (hsees'.isModuleDepositsPaused _ _ hpaused').symm
        rw [hpaused] at hdata
        rw [hpaused', ← heq] at hdata'
        exact Except.ok.inj (hdata.symm.trans hdata')
  have haddresses : List.Forall₂ (fun data stakingModule =>
      data.stakingModuleAddress = stakingModule.stakingModuleAddress) stakingModulesData
        stakingModules := by
    refine (mapM_ok h).flip.imp fun data stakingModule hdata => ?_
    cases hpaused : env.isModuleDepositsPaused stakingModule.id with
    | error e => rw [hpaused] at hdata; cases hdata
    | ok paused =>
      rw [hpaused] at hdata
      cases hdata
      rfl
  rw [List.forall₂_eq_eq_eq] at hsame
  refine ⟨hsame, ?_⟩
  rw [← List.forall₂_eq_eq_eq, List.forall₂_map_left_iff, List.forall₂_map_right_iff]
  exact haddresses

/-- **Agreement.** Two guardians examine one block of a chain with the keys and modules of one snapshot,
each with a node that answers from the chain, or fails, and with the stores of any run of its own. When both
collect their data, they have the same deposit root and the same verdicts on a pause; and when both complete
the checks, in whatever stores they have come to by then, they take the same decisions. -/
theorem council_agrees {env env' : GuardianEnv} (hsees : Sees C chain env) (hsees' : Sees C chain env')
    {depositDataCache depositDataCache' : ForgetfulCache (List (String × String)) Bool}
    {s t : GuardianStores depositDataCache} {s' t' : GuardianStores depositDataCache'}
    (hs : Brought C chain s) (hs' : Brought C chain s')
    (hmodules : (stakingModules.map (·.stakingModuleAddress)).Nodup)
    (hnumber : elBlockSnapshot.blockNumber = chain.blockNumber)
    (hhash : elBlockSnapshot.blockHash = chain.blockHash)
    (hid : Duplicates.DistinctRecords lidoKeys)
    (hlength : ∀ a ∈ lidoKeys, a.key.length = chain.keys.keyLength)
    {blockData blockData' : BlockData} {stakingModulesData stakingModulesData' : List StakingModuleData}
    (hcollect : EStateM.run (collectData C env stakingModules elBlockSnapshot lidoKeys moduleWCMap) s =
      .ok (blockData, stakingModulesData) t)
    (hcollect' : EStateM.run (collectData C env' stakingModules elBlockSnapshot lidoKeys moduleWCMap)
      s' = .ok (blockData', stakingModulesData') t') :
    SameBlock blockData blockData' ∧
      ∀ (u v : GuardianStores depositDataCache) (u' v' : GuardianStores depositDataCache')
        (checked checked' : List StakingModuleData), Brought C chain u → Brought C chain u' →
        EStateM.run (checkKeys env stakingModulesData blockData lidoKeys) u = .ok checked v →
        EStateM.run (checkKeys env' stakingModulesData' blockData' lidoKeys) u' = .ok checked' v' →
        SameDecisions blockData blockData' checked checked' := by
  obtain ⟨hseen, hcollected⟩ := collected_of_run hsees hs hnumber hhash hcollect
  obtain ⟨hseen', hcollected'⟩ := collected_of_run hsees' hs' hnumber hhash hcollect'
  obtain ⟨rfl, haddresses⟩ := collected_eq hsees hsees' hcollected hcollected'
  have hblock : SameBlock blockData blockData' := {
    blockNumber := hseen.blockNumber.trans hseen'.blockNumber.symm
    blockHash := hseen.blockHash.trans hseen'.blockHash.symm
    depositRoot := hseen.depositRoot.trans hseen'.depositRoot.symm
    events := hseen.events.trans hseen'.events.symm
    hasFrontRunning := Except.ok.inj (hseen.hasFrontRunning.symm.trans hseen'.hasFrontRunning)
    hasWrongWCType := Except.ok.inj (hseen.hasWrongWCType.symm.trans hseen'.hasWrongWCType)
    alreadyPausedDeposits :=
      hseen.alreadyPausedDeposits.trans hseen'.alreadyPausedDeposits.symm }
  refine ⟨hblock, fun u v u' v' checked checked' hu hu' hcheck hcheck' => ?_⟩
  rw [← haddresses] at hmodules
  obtain ⟨answers, duplicatedKeys, hanswers, hduplicated, hchecked⟩ :=
    checked_of_run hsees hu hseen.blockNumber hmodules hlength hcheck
  obtain ⟨answers', duplicatedKeys', hanswers', hduplicated', hchecked'⟩ :=
    checked_of_run hsees' hu' hseen'.blockNumber hmodules hlength hcheck'
  have hagree : Duplicates.Agree duplicatedKeys duplicatedKeys' :=
    Duplicates.agree_of_answers (fun pubkey =>
      (chain.keys.added (stakingModulesData.map (·.stakingModuleAddress)) D'
        chain.blockNumber).filter (·.key = pubkey)) hid hanswers hanswers' hduplicated hduplicated'
  exact SameDecisions.of_findings hblock (forall₂_of_common hchecked hchecked'
    fun _ _ _ _ h h' => SameFindings.of_checked hsees hsees' hagree hblock.events h h')

end Findings

/-! ### Two guardians on Holesky -/

namespace AgreementSample

/-- One key of two operators of a module. -/
def lidoKeys : List RegistryKey :=
  [⟨"0xaa", "0x51", 0, false, 0, "0xmodule", true⟩, ⟨"0xaa", "0x51", 2, false, 0, "0xmodule", true⟩]

def moduleWCMap : InsertionMap String String := InsertionMap.empty.set "0xmodule" "0x0100"

def elBlockSnapshot : ELBlockSnapshot := ⟨1700, "0xb7", "0xb0"⟩

def chain : Chain 0 0 where
  deposits := Machine.oneDeposit 0
  keys := SigningKeysSample.history
  blockNumber := 1700
  blockHash := "0xb7"
  chainId := 17000
  isDepositsPaused := false
  isModuleDepositsPaused _ := false
  isValid := DepositSafety.sampleValidator.isValid
  bufferFromHexString := DepositSafety.sampleValidator.bufferFromHexString

/-- The node of a guardian that returns the signing key events in an order of its own. -/
def signingKeysEnv (order : List SigningKeyEvent → List SigningKeyEvent) : SigningKeysEnv :=
  { SigningKeysSample.env with
    fetchEventsFallOver := fun startBlock endBlock modules =>
      (SigningKeysSample.env.fetchEventsFallOver startBlock endBlock modules).map order }

def context (guardianIndex : ℤ) : GuardianExecutionContext :=
  ⟨"0xd5", 4, "0x91", "0x91", guardianIndex, "legacy-eoa"⟩

def guardian (guardianIndex : ℤ) (order : List SigningKeyEvent → List SigningKeyEvent) :
    GuardianEnv where
  block :=
    { registry := Machine.answeringNode 17000 1700 (Machine.oneDeposit 0)
      chainId := 17000
      getGuardianExecutionContext := fun _ => .ok (context guardianIndex)
      isBalanceCritical := .ok false
      isDepositsPaused := fun _ => .ok false }
  isModuleDepositsPaused _ := .ok false
  signingKeys := signingKeysEnv order
  keyEvents _ := signingKeysEnv order
  getNetwork := .ok 17000
  keyValidator := DepositSafety.sampleValidator

theorem sees_guardian (guardianIndex : ℤ) {order : List SigningKeyEvent → List SigningKeyEvent}
    (horder : ∀ events, (order events).Perm events) : Sees .framed chain (guardian guardianIndex order) :=
  have honest : (signingKeysEnv order).Honest 0 SigningKeysSample.history := {
    deployed := SigningKeysSample.honest.deployed
    complete := by
      rintro _ _ _ _ _ ⟨⟩
      exact horder _ }
  { deposits := Machine.completeAt_answeringNode rfl (Machine.hashes_oneDeposit 0) "0xb7"
    chainId := rfl
    isDepositsPaused := fun _ h => (Except.ok.inj h).symm
    isModuleDepositsPaused := fun _ _ h => (Except.ok.inj h).symm
    signingKeys := honest
    finalized := by
      rintro _ ⟨⟩
      decide
    keyEvents := fun _ => honest
    network := fun _ h => (Except.ok.inj h).symm
    isValid := rfl
    bufferFromHexString := rfl }

/-- The stores after a start, with nothing cached. -/
def stores : GuardianStores ForgetfulCache.lru where
  registry := Machine.startedRegistry
  signingKeys := SigningKeysStore.opened OrderedStore.empty
  validationCache := ForgetfulCache.lru.create KeysValidation.depositDataLruCacheSize

theorem brought_stores : Brought .framed chain stores where
  registry := ⟨_, Machine.reachable_started 17000 0, rfl⟩
  signingKeys := Updated.empty
  validationCache := .create

def blockData (guardianIndex : ℤ) : BlockData where
  blockNumber := 1700
  blockHash := "0xb7"
  depositRoot := DepositTree.depositRoot .framed
    (((Machine.oneDeposit 0).upTo 1700).map (·.depositDataRoot))
  depositedEvents := ⟨(Machine.oneDeposit 0).upTo 1700, 0, 1700⟩
  guardianContext := context guardianIndex
  guardianAddress := "0x91"
  guardianIndex := guardianIndex
  securityVersion := 4
  alreadyPausedDeposits := false
  hasFrontRunning := false
  hasWrongWCType := false
  walletBalanceCritical := false

def stakingModule : StakingModuleData where
  blockHash := "0xb7"
  vettedUnusedKeys := lidoKeys
  nonce := 7
  stakingModuleId := 1
  stakingModuleAddress := "0xmodule"
  lastChangedBlockHash := "0xb0"
  duplicatedKeys := []
  invalidKeys := []
  crossTypeKeys := []
  frontRunKeys := []
  unresolvedDuplicatedKeys := []
  withdrawalCredentials := some "0x0100"
  isModuleDepositsPaused := false

theorem run_collectData (guardianIndex : ℤ) (order : List SigningKeyEvent → List SigningKeyEvent) :
    EStateM.run (collectData .framed (guardian guardianIndex order) [⟨7, 1, "0xmodule"⟩] elBlockSnapshot
      lidoKeys moduleWCMap) stores = .ok (blockData guardianIndex, [stakingModule]) stores := by
  have hcomplete : CompleteAt .framed (Machine.oneDeposit 0) 1700 "0xb7"
      (Machine.answeringNode 17000 1700 (Machine.oneDeposit 0)) :=
    Machine.completeAt_answeringNode rfl (Machine.hashes_oneDeposit 0) "0xb7"
  have hevents := ((Machine.reachable_started 17000 0).reading rfl hcomplete).2
    Machine.aligned_startedRegistry ⟨Nat.zero_le _, ⟨_, rfl⟩, ⟨_, rfl⟩⟩
  have hdata : (BlockDataCollector.getCurrentBlockData .framed (guardian guardianIndex order).block 1700
      "0xb7" moduleWCMap lidoKeys).run stores.registry =
        .ok (blockData guardianIndex) stores.registry :=
    BlockDataCollector.run_getCurrentBlockData rfl hevents rfl rfl rfl rfl rfl
  have hzoom : EStateM.run (Service.zoom GuardianStores.registry
      (fun registry (s : GuardianStores ForgetfulCache.lru) => { s with registry })
      (BlockDataCollector.getCurrentBlockData .framed (guardian guardianIndex order).block 1700 "0xb7"
        moduleWCMap lidoKeys)) stores = .ok (blockData guardianIndex) stores :=
    Service.run_zoom_ok hdata
  exact (Service.run_bind_ok hzoom).trans rfl

/-- The first guardian keeps the order of the events and the second one turns it round: both find the second
record to be the duplicate. -/
theorem council_agrees_holesky : ∃ checked checked',
    Service.returned (EStateM.run (checkKeys (guardian 0 id) [stakingModule] (blockData 0) lidoKeys)
      stores) = some checked ∧
    Service.returned (EStateM.run (checkKeys (guardian 3 List.reverse) [stakingModule] (blockData 3)
      lidoKeys) stores) = some checked' ∧
    checked.map (·.duplicatedKeys) =
      [[⟨"0xaa", "0x51", 2, false, 0, "0xmodule", true⟩]] ∧
    SameDecisions (blockData 0) (blockData 3) checked checked' := by
  have hchecked : (Service.returned (EStateM.run (checkKeys (guardian 0 id) [stakingModule] (blockData 0)
      lidoKeys) stores)).map (·.map (·.duplicatedKeys)) =
        some [[⟨"0xaa", "0x51", 2, false, 0, "0xmodule", true⟩]] := by
    decide +kernel
  have hchecked' : (Service.returned (EStateM.run (checkKeys (guardian 3 List.reverse) [stakingModule]
      (blockData 3) lidoKeys) stores)).map (·.map (·.duplicatedKeys)) =
        some [[⟨"0xaa", "0x51", 2, false, 0, "0xmodule", true⟩]] := by
    decide +kernel
  obtain ⟨checked, hreturned, hduplicated⟩ := Option.map_eq_some_iff.1 hchecked
  obtain ⟨checked', hreturned', _⟩ := Option.map_eq_some_iff.1 hchecked'
  obtain ⟨v, hrun⟩ := Service.returned_eq_some.1 hreturned
  obtain ⟨v', hrun'⟩ := Service.returned_eq_some.1 hreturned'
  refine ⟨checked, checked', hreturned, hreturned', hduplicated, ?_⟩
  have hid : Duplicates.DistinctRecords lidoKeys := by
    unfold Duplicates.DistinctRecords
    decide
  obtain ⟨_, hdecisions⟩ := council_agrees (sees_guardian 0 fun _ => List.Perm.refl _)
    (sees_guardian 3 List.reverse_perm) brought_stores brought_stores (by decide) rfl rfl hid (by decide)
    (run_collectData 0 id) (run_collectData 3 List.reverse)
  exact hdecisions _ _ _ _ _ _ brought_stores brought_stores hrun hrun'

end AgreementSample

end Guardian

end CouncilDaemon
