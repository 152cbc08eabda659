import CouncilDaemon.Guardian.DataCollector

/-!
# Deposit messages are safe

A deposit message for a module lets all its vetted unused keys be deposited. The guardian sends one
only for modules in which it found nothing: no key to unvet, no unresolved key, no pause. Over all
modules of a cycle that is enough (`depositCycle_safe`): a copy that is flagged in no module is the
only unused copy of its pubkey that survived, wherever the other copies are.
-/

namespace CouncilDaemon

namespace DepositSafety

open Duplicates StakingModuleDataCollector

/-! ## Front-run attempts -/

/-- Without a front-run and a cross-type key, every valid deposit of a vetted unused key has the
credentials of the module. -/
theorem wc_of_no_attempts {stakingModuleData : StakingModuleData} {blockData : BlockData}
    {lidoWCSet : List (Option String)}
    (hfrontRun : (StakingModuleGuard.getFrontRunAttempts stakingModuleData blockData
      lidoWCSet).frontRunKeys = [])
    (hcrossType : (StakingModuleGuard.getFrontRunAttempts stakingModuleData blockData
      lidoWCSet).crossTypeKeys = []) {a : RegistryKey}
    (ha : a ∈ stakingModuleData.vettedUnusedKeys) {event : VerifiedDepositEvent}
    (hevent : event ∈ blockData.depositedEvents.events) (hvalid : event.valid = true)
    (hpubkey : event.pubkey = a.key) :
    stakingModuleData.withdrawalCredentials = some event.wc := by
  by_contra hwc
  have hintersection : event ∈ StakingModuleGuard.getKeysIntersections stakingModuleData
      blockData := by
    refine List.mem_filter.2 ⟨hevent, ?_⟩
    rw [decide_eq_true_eq, hpubkey]
    exact List.mem_map_of_mem ha
  have hother : event ∈ (StakingModuleGuard.getKeysIntersections stakingModuleData
      blockData).filter fun event =>
        event.valid && some event.wc ≠ stakingModuleData.withdrawalCredentials := by
    refine List.mem_filter.2 ⟨hintersection, ?_⟩
    rw [hvalid, Bool.true_and, decide_eq_true_eq]
    exact fun heq => hwc heq.symm
  by_cases hlido : some event.wc ∈ lidoWCSet
  · have hnot := List.filter_eq_nil_iff.1 hcrossType a ha
    apply hnot
    rw [decide_eq_true_eq, ← hpubkey]
    exact List.mem_map_of_mem (List.mem_filter.2 ⟨hother, by rwa [decide_eq_true_eq]⟩)
  · have hnot := List.filter_eq_nil_iff.1 hfrontRun a ha
    apply hnot
    rw [decide_eq_true_eq, ← hpubkey]
    exact List.mem_map_of_mem (List.mem_filter.2 ⟨hother, by rwa [decide_eq_true_eq]⟩)

/-! ## The modules of a cycle -/

theorem mem_getModuleVettedUnusedKeys {address : String} {keys : List RegistryKey}
    {a : RegistryKey} : a ∈ getModuleVettedUnusedKeys address keys ↔
      a ∈ keys ∧ a.used = false ∧ a.vetted = true ∧ a.moduleAddress = address := by
  rw [getModuleVettedUnusedKeys, List.mem_filter, Bool.and_eq_true, Bool.and_eq_true,
    Bool.not_eq_true', decide_eq_true_eq]
  tauto

/-- What `collectStakingModuleData` has of a module. -/
structure Collected (isModuleDepositsPaused : ℕ → Except String Bool) (lidoKeys : List RegistryKey)
    (moduleWCMap : InsertionMap String String) (data : StakingModuleData) : Prop where
  paused : isModuleDepositsPaused data.stakingModuleId = .ok data.isModuleDepositsPaused
  withdrawalCredentials : data.withdrawalCredentials = moduleWCMap.get? data.stakingModuleAddress
  vettedUnusedKeys : data.vettedUnusedKeys =
    getModuleVettedUnusedKeys data.stakingModuleAddress lidoKeys

theorem collected_of_mem {isModuleDepositsPaused : ℕ → Except String Bool}
    {stakingModules : List SRModule} {elBlockSnapshot : ELBlockSnapshot}
    {lidoKeys : List RegistryKey} {moduleWCMap : InsertionMap String String}
    {result : List StakingModuleData}
    (h : collectStakingModuleData isModuleDepositsPaused stakingModules elBlockSnapshot lidoKeys
      moduleWCMap = .ok result) :
    ∀ data ∈ result, Collected isModuleDepositsPaused lidoKeys moduleWCMap data := by
  intro data hdata
  obtain ⟨stakingModule, _, hrun⟩ := (mem_of_forall₂ (mapM_ok h)).2 data hdata
  cases hpaused : isModuleDepositsPaused stakingModule.id with
  | error e => rw [hpaused] at hrun; cases hrun
  | ok paused =>
    rw [hpaused] at hrun
    cases hrun
    exact ⟨hpaused, rfl, rfl⟩

section Checked

variable {depositDataCache : ForgetfulCache (List (String × String)) Bool}
  {keyValidator : KeyValidator} {getNetwork : Except String ℕ}

/-- What `checkKeys` has found in a module. -/
structure Checked (keyValidator : KeyValidator) (getNetwork : Except String ℕ)
    (stakingModulesData : List StakingModuleData) (duplicatedKeys : DuplicatedKeys)
    (blockData : BlockData) (data checked : StakingModuleData) : Prop where
  attempts : let lidoWCSet := stakingModulesData.map (·.withdrawalCredentials)
    checked = { data with
      frontRunKeys := (StakingModuleGuard.getFrontRunAttempts data blockData lidoWCSet).frontRunKeys
      crossTypeKeys := (StakingModuleGuard.getFrontRunAttempts data blockData lidoWCSet).crossTypeKeys
      invalidKeys := checked.invalidKeys
      duplicatedKeys := getModuleVettedUnusedKeys data.stakingModuleAddress duplicatedKeys.duplicates
      unresolvedDuplicatedKeys :=
        getModuleVettedUnusedKeys data.stakingModuleAddress duplicatedKeys.unresolved }
  invalidKeys : ∃ wc fv, keyValidator.bufferFromHexString data.withdrawalCredentials = .ok wc ∧
    KeysValidation.forkVersion getNetwork = .ok fv ∧
    checked.invalidKeys.Perm
      (data.vettedUnusedKeys.filter (KeysValidation.rejected keyValidator wc fv))

theorem checkModuleKeys_spec {stakingModulesData : List StakingModuleData}
    {duplicatedKeys : DuplicatedKeys} {blockData : BlockData} (data : StakingModuleData)
    (cache : depositDataCache.State)
    (hsound : KeysValidation.CacheSound depositDataCache keyValidator cache) :
    KeysValidation.CacheSound depositDataCache keyValidator (Service.after (EStateM.run
      (checkModuleKeys depositDataCache keyValidator getNetwork stakingModulesData duplicatedKeys
        blockData data) cache)) ∧
    ∀ checked cache', EStateM.run (checkModuleKeys depositDataCache keyValidator getNetwork
        stakingModulesData duplicatedKeys blockData data) cache = .ok checked cache' →
      Checked keyValidator getNetwork stakingModulesData duplicatedKeys blockData data checked := by
  obtain ⟨hstate, hvalue⟩ := KeysValidation.getInvalidKeys_spec getNetwork data.vettedUnusedKeys
    data.withdrawalCredentials hsound
  unfold checkModuleKeys
  cases hrun : EStateM.run (KeysValidation.getInvalidKeys depositDataCache keyValidator getNetwork
      data.vettedUnusedKeys data.withdrawalCredentials) cache with
  | error e cache' =>
    rw [hrun] at hstate
    rw [Service.run_bind_error hrun]
    refine ⟨hstate, ?_⟩
    intro checked cache'' h
    cases h
  | ok invalidKeys cache' =>
    rw [hrun] at hstate
    rw [Service.run_bind_ok hrun]
    refine ⟨hstate, ?_⟩
    intro checked cache'' h
    cases h
    exact ⟨rfl, hvalue invalidKeys cache' hrun⟩

end Checked

/-! ## Safety -/

/-- What a deposit message for each of `modules` may let through. -/
structure Safe (keyValidator : KeyValidator) (getNetwork : Except String ℕ)
    (isModuleDepositsPaused : ℕ → Except String Bool) (lidoKeys : List RegistryKey)
    (moduleWCMap : InsertionMap String String) (blockData : BlockData)
    (modules : List StakingModuleData) : Prop where
  collected : ∀ data ∈ modules, Collected isModuleDepositsPaused lidoKeys moduleWCMap data
  /-- Different keys of the modules together have different pubkeys. -/
  distinct : ∀ data ∈ modules, ∀ data' ∈ modules, ∀ a ∈ data.vettedUnusedKeys,
    ∀ b ∈ data'.vettedUnusedKeys, a.key = b.key → a = b
  /-- No pubkey is listed twice in a module. -/
  nodup : ∀ data ∈ modules, (data.vettedUnusedKeys.map (·.key)).Nodup
  /-- No pubkey is one of a used key. -/
  notUsed : ∀ data ∈ modules, ∀ a ∈ data.vettedUnusedKeys, ∀ b ∈ lidoKeys, b.used = true →
    b.key ≠ a.key
  /-- The deposit signatures are valid for the credentials of the module. -/
  signed : ∀ data ∈ modules, ∀ a ∈ data.vettedUnusedKeys, ∃ wc fv,
    keyValidator.bufferFromHexString data.withdrawalCredentials = .ok wc ∧
    KeysValidation.forkVersion getNetwork = .ok fv ∧
    keyValidator.isValid a.key a.depositSignature wc fv = true
  /-- The valid deposits of the keys have the credentials of the module. -/
  deposited : ∀ data ∈ modules, ∀ a ∈ data.vettedUnusedKeys,
    ∀ event ∈ blockData.depositedEvents.events, event.valid = true → event.pubkey = a.key →
      data.withdrawalCredentials = some event.wc
  notPaused : (blockData.alreadyPausedDeposits = true ∨ blockData.hasFrontRunning = true ∨
    blockData.hasWrongWCType = true) → modules = []
  notPausedModule : ∀ data ∈ modules, isModuleDepositsPaused data.stakingModuleId = .ok false

/-- A module is not ignored when nothing was found in it. -/
theorem mem_handleDeposit {stakingModulesData : List StakingModuleData} {blockData : BlockData}
    {data : StakingModuleData} (h : data ∈ Guardian.handleDeposit stakingModulesData blockData) :
    data ∈ stakingModulesData ∧ data.invalidKeys = [] ∧ data.frontRunKeys = [] ∧
      data.duplicatedKeys = [] ∧ data.crossTypeKeys = [] ∧ data.unresolvedDuplicatedKeys = [] ∧
      blockData.alreadyPausedDeposits = false ∧ blockData.hasFrontRunning = false ∧
      blockData.hasWrongWCType = false ∧ data.isModuleDepositsPaused = false := by
  obtain ⟨hmem, hnot⟩ := List.mem_filter.1 h
  rw [Guardian.ignoreDeposits] at hnot
  simp only [Bool.not_eq_true', Bool.or_eq_false_iff, decide_eq_false_iff_not, gt_iff_lt,
    not_lt, Nat.le_zero, List.length_eq_zero_iff, List.append_eq_nil_iff] at hnot
  obtain ⟨⟨⟨⟨⟨⟨⟨⟨hinvalid, hfrontRun⟩, hduplicated⟩, hcrossType⟩, hunresolved⟩, hpaused⟩, hfront⟩, hwrong⟩,
    hmodule⟩ := hnot
  exact ⟨hmem, hinvalid, hfrontRun, hduplicated, hcrossType, hunresolved, hpaused, hfront, hwrong,
    hmodule⟩

/-- A vetted unused key of a module without duplicated and unresolved keys survived. -/
theorem survives_of_clean {duplicatedKeys : DuplicatedKeys} {address : String}
    {lidoKeys : List RegistryKey}
    (hduplicated : getModuleVettedUnusedKeys address duplicatedKeys.duplicates = [])
    (hunresolved : getModuleVettedUnusedKeys address duplicatedKeys.unresolved = [])
    {a : RegistryKey} (ha : a ∈ getModuleVettedUnusedKeys address lidoKeys) :
    Survives duplicatedKeys a := by
  obtain ⟨_, hrest⟩ := mem_getModuleVettedUnusedKeys.1 ha
  refine ⟨?_, ?_⟩
  · intro hmem
    have hlisted := mem_getModuleVettedUnusedKeys.2 ⟨hmem, hrest⟩
    rw [hduplicated] at hlisted
    cases hlisted
  · intro hmem
    have hlisted := mem_getModuleVettedUnusedKeys.2 ⟨hmem, hrest⟩
    rw [hunresolved] at hlisted
    cases hlisted

/-- What a module for which a message is sent was found to be. -/
theorem clean_of_mem {keyValidator : KeyValidator} {getNetwork : Except String ℕ}
    {isModuleDepositsPaused : ℕ → Except String Bool} {lidoKeys : List RegistryKey}
    {moduleWCMap : InsertionMap String String} {stakingModulesData checked : List StakingModuleData}
    {duplicatedKeys : DuplicatedKeys} {blockData : BlockData}
    (hcollected : ∀ data ∈ stakingModulesData,
      Collected isModuleDepositsPaused lidoKeys moduleWCMap data)
    (hchecked : List.Forall₂ (Checked keyValidator getNetwork stakingModulesData duplicatedKeys
      blockData) stakingModulesData checked)
    {data : StakingModuleData} (hdata : data ∈ Guardian.handleDeposit checked blockData) :
    Collected isModuleDepositsPaused lidoKeys moduleWCMap data ∧
      (∀ a ∈ data.vettedUnusedKeys, Survives duplicatedKeys a) ∧
      (∀ a ∈ data.vettedUnusedKeys, ∀ event ∈ blockData.depositedEvents.events,
        event.valid = true → event.pubkey = a.key → data.withdrawalCredentials = some event.wc) ∧
      ∃ wc fv, keyValidator.bufferFromHexString data.withdrawalCredentials = .ok wc ∧
        KeysValidation.forkVersion getNetwork = .ok fv ∧
        data.vettedUnusedKeys.filter (KeysValidation.rejected keyValidator wc fv) = [] := by
  obtain ⟨hmem, hinvalid, hfrontRun, hduplicated, hcrossType, hunresolved, _⟩ :=
    mem_handleDeposit hdata
  obtain ⟨source, hsource, hattempts, wc, fv, hwc, hfv, hperm⟩ := (mem_of_forall₂ hchecked).2 data hmem
  obtain ⟨hpaused, hcredentials, hkeys⟩ := hcollected source hsource
  rw [hinvalid] at hperm
  rw [hattempts] at hfrontRun hduplicated hcrossType hunresolved ⊢
  refine ⟨⟨hpaused, hcredentials, hkeys⟩, ?_, ?_, wc, fv, hwc, hfv, hperm.symm.eq_nil⟩
  · intro a ha
    exact survives_of_clean hduplicated hunresolved (hkeys ▸ ha)
  · intro a ha event hevent hvalid hpubkey
    exact wc_of_no_attempts hfrontRun hcrossType ha hevent hvalid hpubkey

/-- A cycle that returns has collected the modules, divided the keys and checked each module. -/
theorem depositCycle_ok {depositDataCache : ForgetfulCache (List (String × String)) Bool}
    {keyValidator : KeyValidator} {getNetwork : Except String ℕ}
    {isModuleDepositsPaused : ℕ → Except String Bool}
    {getUpdatedSigningKeyEvents : String → Except String (List SigningKeyEvent)}
    {stakingModules : List SRModule} {elBlockSnapshot : ELBlockSnapshot}
    {lidoKeys : List RegistryKey} {moduleWCMap : InsertionMap String String} {blockData : BlockData}
    {cache cache' : depositDataCache.State} {modules : List StakingModuleData}
    (hcache : KeysValidation.Reachable depositDataCache keyValidator cache)
    (hrun : EStateM.run (Guardian.depositCycle depositDataCache keyValidator getNetwork
      isModuleDepositsPaused getUpdatedSigningKeyEvents stakingModules elBlockSnapshot lidoKeys
      moduleWCMap blockData) cache = .ok modules cache') :
    ∃ stakingModulesData duplicatedKeys checked,
      (∀ data ∈ stakingModulesData, Collected isModuleDepositsPaused lidoKeys moduleWCMap data) ∧
      getDuplicatedKeys getUpdatedSigningKeyEvents lidoKeys = .ok duplicatedKeys ∧
      List.Forall₂ (Checked keyValidator getNetwork stakingModulesData duplicatedKeys blockData)
        stakingModulesData checked ∧
      modules = Guardian.handleDeposit checked blockData := by
  unfold Guardian.depositCycle at hrun
  obtain ⟨stakingModulesData, cache₁, hcollect, hrun⟩ := Service.bind_ok hrun
  obtain ⟨checked, cache₂, hcheck, hrun⟩ := Service.bind_ok hrun
  cases hrun
  unfold checkKeys at hcheck
  obtain ⟨duplicatedKeys, cache₃, hduplicated, hmap⟩ := Service.bind_ok hcheck
  obtain ⟨hcollected, rfl⟩ := Service.call_ok hcollect
  obtain ⟨hresult, rfl⟩ := Service.call_ok hduplicated
  exact ⟨stakingModulesData, duplicatedKeys, checked, collected_of_mem hcollected, hresult,
    (Service.mapM_spec checkModuleKeys_spec stakingModulesData _ hcache.sound).2 _ _ hmap, rfl⟩

/-- **Deposit messages.** Whatever the keys, the deposits, the events and the verdicts are, the
modules for which a cycle sends a deposit message are safe. -/
theorem depositCycle_safe (depositDataCache : ForgetfulCache (List (String × String)) Bool)
    (getUpdatedSigningKeyEvents : String → Except String (List SigningKeyEvent))
    (stakingModules : List SRModule) (elBlockSnapshot : ELBlockSnapshot)
    {keyValidator : KeyValidator} {getNetwork : Except String ℕ}
    {isModuleDepositsPaused : ℕ → Except String Bool}
    {lidoKeys : List RegistryKey} {moduleWCMap : InsertionMap String String} {blockData : BlockData}
    {cache cache' : depositDataCache.State} {modules : List StakingModuleData}
    (hid : DistinctRecords lidoKeys) (hfirst : UsedFirst lidoKeys)
    (hcache : KeysValidation.Reachable depositDataCache keyValidator cache)
    (hrun : EStateM.run (Guardian.depositCycle depositDataCache keyValidator getNetwork
      isModuleDepositsPaused getUpdatedSigningKeyEvents stakingModules elBlockSnapshot lidoKeys
      moduleWCMap blockData) cache = .ok modules cache') :
    Safe keyValidator getNetwork isModuleDepositsPaused lidoKeys moduleWCMap blockData modules := by
  obtain ⟨stakingModulesData, duplicatedKeys, checked, hcollected, hduplicated, hchecked, rfl⟩ :=
    depositCycle_ok hcache hrun
  have hclean := fun data hdata => clean_of_mem hcollected hchecked (hdata :
    data ∈ Guardian.handleDeposit checked blockData)
  have hkey : ∀ data ∈ Guardian.handleDeposit checked blockData, ∀ a ∈ data.vettedUnusedKeys,
      a ∈ lidoKeys ∧ a.used = false ∧ Survives duplicatedKeys a := by
    intro data hdata a ha
    obtain ⟨hdataCollected, hsurvives, _⟩ := hclean data hdata
    have hmem := ha
    rw [hdataCollected.vettedUnusedKeys] at hmem
    obtain ⟨hlido, hunused, _⟩ := mem_getModuleVettedUnusedKeys.1 hmem
    exact ⟨hlido, hunused, hsurvives a ha⟩
  have hdistinct : ∀ data ∈ Guardian.handleDeposit checked blockData,
      ∀ data' ∈ Guardian.handleDeposit checked blockData, ∀ a ∈ data.vettedUnusedKeys,
      ∀ b ∈ data'.vettedUnusedKeys, a.key = b.key → a = b := by
    intro data hdata data' hdata' a ha b hb hab
    obtain ⟨halido, haunused, hasurvives⟩ := hkey data hdata a ha
    obtain ⟨hblido, hbunused, hbsurvives⟩ := hkey data' hdata' b hb
    exact survivor_unique hid hduplicated halido hblido hab haunused hbunused hasurvives hbsurvives
  refine ⟨fun data hdata => (hclean data hdata).1, hdistinct, ?_, ?_, ?_,
    fun data hdata => (hclean data hdata).2.2.1, ?_, ?_⟩
  · intro data hdata
    have hnodup : data.vettedUnusedKeys.Nodup := by
      rw [(hclean data hdata).1.vettedUnusedKeys]
      exact (List.Nodup.of_map _ hid).filter _
    exact List.Nodup.map_on (fun a ha b hb hab => hdistinct data hdata data hdata a ha b hb hab) hnodup
  · intro data hdata a ha b hb hused
    obtain ⟨halido, haunused, hasurvives⟩ := hkey data hdata a ha
    exact survivor_not_used hid hfirst hduplicated halido haunused hasurvives hb hused
  · intro data hdata a ha
    obtain ⟨_, _, _, wc, fv, hwc, hfv, hrejected⟩ := hclean data hdata
    refine ⟨wc, fv, hwc, hfv, ?_⟩
    have hnot := List.filter_eq_nil_iff.1 hrejected a ha
    rw [KeysValidation.rejected, Bool.not_eq_true', Bool.not_eq_false] at hnot
    exact hnot
  · intro hpaused
    rw [List.eq_nil_iff_forall_not_mem]
    intro data hdata
    obtain ⟨_, _, _, _, _, _, hdeposits, hfront, hwrong, _⟩ := mem_handleDeposit hdata
    rw [hdeposits, hfront, hwrong] at hpaused
    simp at hpaused
  · intro data hdata
    obtain ⟨_, _, _, _, _, _, _, _, _, hmodule⟩ := mem_handleDeposit hdata
    rw [← hmodule]
    exact (hclean data hdata).1.paused

/-! ## A cycle over two modules -/

/-- A validator that accepts one signature. -/
def sampleValidator : KeyValidator where
  bufferFromHexString wc := if wc = some "0x0100" then .ok [0x01, 0x00]
    else if wc = some "0x0200" then .ok [0x02, 0x00] else .error "TypeError"
  isValid _ depositSignature _ _ := depositSignature = "0x51"
  validateKeys keys := .ok (keys.map fun data => (data, data.depositSignature = "0x51"))
  validateKeys_perm keys validated h := by
    cases h
    exact List.Perm.refl _

/-- A used key and an unused one of the first module, and an unused copy of the used key in the
second. -/
def sampleKeys : List RegistryKey :=
  [⟨"0xaa", "0x51", 0, true, 0, "0x0a", true⟩, ⟨"0xbb", "0x51", 0, false, 1, "0x0a", true⟩,
    ⟨"0xaa", "0x51", 3, false, 0, "0x0b", true⟩]

def sampleBlock : BlockData where
  blockNumber := 120
  blockHash := "0xb2"
  depositRoot := "0xd0"
  depositedEvents := ⟨[⟨true, "0xaa", "0x0100", "32000000000", "0x51", "0x7e", 100, "0xb1", 0, "0x00",
    0, []⟩], 0, 120⟩
  guardianContext := ⟨"0xd5", 4, "0x91", "0x91", 0, "legacy-eoa"⟩
  guardianAddress := "0x91"
  guardianIndex := 0
  securityVersion := 4
  alreadyPausedDeposits := false
  hasFrontRunning := false
  hasWrongWCType := false
  walletBalanceCritical := false

/-- A message is sent for the first module only. -/
theorem depositCycle_safe_sample :
    Safe sampleValidator (.ok 1) (fun _ => .ok false) sampleKeys
      ((InsertionMap.empty.set "0x0a" "0x0100").set "0x0b" "0x0200") sampleBlock
      [{ blockHash := "0xb2"
         vettedUnusedKeys := [⟨"0xbb", "0x51", 0, false, 1, "0x0a", true⟩]
         nonce := 7
         stakingModuleId := 1
         stakingModuleAddress := "0x0a"
         lastChangedBlockHash := "0xb0"
         duplicatedKeys := []
         invalidKeys := []
         crossTypeKeys := []
         frontRunKeys := []
         unresolvedDuplicatedKeys := []
         withdrawalCredentials := some "0x0100"
         isModuleDepositsPaused := false }] :=
  depositCycle_safe ForgetfulCache.lru (fun _ => .ok []) [⟨7, 1, "0x0a"⟩, ⟨4, 2, "0x0b"⟩]
    ⟨120, "0xb2", "0xb0"⟩ (by unfold DistinctRecords; decide) (by unfold UsedFirst; decide)
    KeysValidation.Reachable.create rfl

end DepositSafety

end CouncilDaemon
