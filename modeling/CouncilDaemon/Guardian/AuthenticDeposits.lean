import CouncilDaemon.Deposits.Authenticity
import CouncilDaemon.Guardian.BlockData
import CouncilDaemon.Guardian.DepositSafety

/-!
# Deposit messages and the deposits on the chain

The events that the guardian examines in a cycle are the events of the deposits on the chain
(`getAllDepositedEvents_authentic`). So what its checks find in the events holds of the deposits
themselves: when a deposit message is sent for a module, every deposit of a vetted unused key of the module that
is on the chain with a valid signature has the credentials of the module
(`deposit_messages_authentic`).
-/

namespace CouncilDaemon

/-! ## The examined events -/

namespace Registry

variable {C : Crypto} {env : Env} {ssz : SszPackage C} {blst : Blst} {blsService : BlsService}

/-- **Authenticity.** The deposit contract has taken the deposits `onChain` up to a block, and the
registry, whose tree holds the cached events, reads all events up to it. Whatever logs of the format of
deposit events the node answered with in all lives of the daemon, when the method returns, the events are
those of the deposits, in order: with their fields, and valid exactly if the signature of the deposit is
valid on the chain. -/
theorem getAllDepositedEvents_authentic (hdigest : Function.Injective2 C.digest2Bytes32)
    (hsha : Function.Injective C.sha256) {chainId : ℕ}
    (hinit : (BlsService.onModuleInit (.ok chainId)).run BlsService.new = .ok () blsService)
    {registry registry' : Registry} (hlives : Lives C (FetchesLogs ssz blst blsService) registry)
    (ha : Aligned C registry) (henv : FetchesLogs ssz blst blsService env) {onChain : List Deposit}
    (hn : onChain.length < 2 ^ 32) {blockNumber : ℕ} {blockHash : String}
    (hroot : ∀ root, env.getDepositRoot blockHash = .ok root →
      root = DepositTree.depositRoot C (onChain.map (Deposit.node C)))
    (hcached : registry.store.cache.data.length < 2 ^ 32)
    (hfetched : ∀ startBlock endBlock events,
      env.fetchEventsFallOver startBlock endBlock = .ok events → events.length < 2 ^ 32)
    {group : VerifiedDepositedEventGroup}
    (hrun : (getAllDepositedEvents C env blockNumber blockHash).run registry =
      .ok group registry') :
    ∃ forkVersion, genesisForkVersionByChainId chainId = some forkVersion ∧
      List.Forall₂ (IsEventOf ssz blst forkVersion) group.events onChain ∧
      group.events.map (·.depositCount) = List.range onChain.length := by
  obtain ⟨forkVersion, hchain, hversion⟩ := BlsService.genesis_of_onModuleInit hinit
  exact ⟨forkVersion, hchain, forall₂_getAllDepositedEvents hdigest hsha hversion hlives ha henv hn
    hroot hcached hfetched hrun⟩

end Registry

/-! ## A chain with one deposit -/

namespace AuthenticitySample

open Registry

def deposit : Deposit where
  pubkey := List.replicate 48 0xaa
  withdrawalCredentials := List.replicate 32 0x01
  amount := 32000000000
  signature := List.replicate 96 0xa1
  length_pubkey := rfl
  length_withdrawalCredentials := rfl
  amount_lt := by decide
  length_signature := rfl

/-- Accepts one signature. -/
def blst : Blst where
  PublicKey := Bytes
  Signature := Bytes
  publicKeyFromBytes := .ok
  signatureFromBytes := .ok
  verify _ _ signature := .ok (signature = List.replicate 96 0xa1)

def ssz : SszPackage .framed := SszPackage.standard .framed

/-- The service on Holesky. -/
def blsService : BlsService := { forkVersion := some [0x01, 0x01, 0x70, 0x00] }

def log : DepositEventEvent where
  pubkey := deposit.nodeData.pubkey
  withdrawal_credentials := deposit.nodeData.wc
  amount := deposit.nodeData.amount
  signature := deposit.nodeData.signature
  index := toHexString (littleEndian 8 0)
  transactionHash := "0xcc"
  blockNumber := 5
  blockHash := "0x0f"
  logIndex := 0

/-- The node returns the log for every range. -/
def queryFilter (_before : List EventsRange.RangeTask) (_startBlock _endBlock : ℤ) :
    Except FetchError (List DepositEventEvent) := .ok [log]

def env : Env where
  chainId := 17000
  finalizedBlock := .ok (1, "0x01")
  fetchEventsFallOver := DepositsRegistryFetcher.fetchEventsFallOver ssz blst blsService queryFilter
  getDepositRoot _ := .ok (DepositTree.depositRoot .framed [deposit.node .framed])
  disk := .sound

def registry : Registry := Service.after ((start .framed env).run (opened .framed OrderedStore.empty))

def event : VerifiedDepositEvent where
  valid := true
  pubkey := log.pubkey
  wc := log.withdrawal_credentials
  amount := log.amount
  signature := log.signature
  tx := log.transactionHash
  blockNumber := log.blockNumber
  blockHash := log.blockHash
  logIndex := log.logIndex
  index := log.index
  depositCount := 0
  depositDataRoot := deposit.node .framed

theorem verifiedEvent_log :
    DepositsRegistryFetcher.verifiedEvent ssz blst blsService log = .ok event := by
  have hnode : formDepositNode ssz log.nodeData = .ok (deposit.node .framed) :=
    deposit.formDepositNode_nodeData ssz
  have hcount : parseLittleEndian64 ssz log.index = .ok 0 := by
    show ssz.fromHexString (toHexString (littleEndian 8 0)) >>= ssz.deserializeUintNum64 = _
    rw [ssz.fromHexString_toHexString]
    exact ssz.deserializeUintNum64_littleEndian 0 (by norm_num)
  have hversion : blsService.forkVersion = some [0x01, 0x01, 0x70, 0x00] := rfl
  obtain ⟨verdict, hverify, hverdict⟩ := BlsService.verify_nodeData ssz blst hversion deposit
  obtain rfl : verdict = true := hverdict.2 ⟨_, _, rfl, rfl, by simp [blst, deposit]⟩
  have hlog : DepositsRegistryFetcher.verifyDeposit ssz blst blsService log.nodeData = .ok true :=
    hverify
  unfold DepositsRegistryFetcher.verifiedEvent DepositsRegistryFetcher.formatEvent
  rw [hnode, hcount, hlog]
  rfl

theorem fetch_env (startBlock endBlock : ℕ) :
    env.fetchEventsFallOver startBlock endBlock = .ok [event] := by
  have hfetch : DepositsRegistryFetcher.fetchEvents ssz blst blsService (queryFilter [] startBlock
      endBlock) startBlock endBlock =
        .ok { events := [event], startBlock := startBlock, endBlock := endBlock } := by
    unfold DepositsRegistryFetcher.fetchEvents queryFilter
    simp [List.mapM_cons, verifiedEvent_log, Except.mapError, bind, Except.bind, pure, Except.pure]
  exact DepositsRegistryFetcher.fetchEventsFallOver_of_ok hfetch

theorem length_fetched (startBlock endBlock : ℕ) (events : List VerifiedDepositEvent)
    (h : env.fetchEventsFallOver startBlock endBlock = .ok events) : events.length < 2 ^ 32 := by
  rw [fetch_env] at h
  cases h
  norm_num

theorem root_env (root : String) (h : env.getDepositRoot "0xb2" = .ok root) :
    root = DepositTree.depositRoot .framed ([deposit].map (Deposit.node .framed)) :=
  (Except.ok.inj h).symm

theorem fetchesLogs_env : FetchesLogs ssz blst blsService env := by
  refine ⟨queryFilter, ?_, rfl⟩
  intro before first last rawEvents h rawEvent hraw
  cases h
  obtain rfl := List.mem_singleton.1 hraw
  exact ⟨deposit, rfl⟩

theorem aligned_registry : Aligned .framed registry :=
  @aligned_of_start .framed env registry OrderedStore.empty rfl

theorem run_env : (getAllDepositedEvents .framed env 10 "0xb2").run registry =
    .ok ⟨[event], 0, 10⟩ registry := by
  have hdeployed : deploymentBlockNetwork env.chainId = some 0 := rfl
  refine run_getAllDepositedEvents aligned_registry hdeployed (by decide) (fetch_env _ _) ?_ rfl
    (by decide) rfl
  intro a ha b hb _
  rw [List.mem_singleton.1 ha, List.mem_singleton.1 hb]

end AuthenticitySample

namespace Registry

theorem getAllDepositedEvents_authentic_one :
    (getAllDepositedEvents .framed AuthenticitySample.env 10 "0xb2").run
      AuthenticitySample.registry = .ok ⟨[AuthenticitySample.event], 0, 10⟩
        AuthenticitySample.registry ∧
    ∃ forkVersion, genesisForkVersionByChainId 17000 = some forkVersion ∧
      List.Forall₂ (IsEventOf AuthenticitySample.ssz AuthenticitySample.blst forkVersion)
        [AuthenticitySample.event] [AuthenticitySample.deposit] ∧
      [AuthenticitySample.event].map (·.depositCount) = List.range 1 := by
  have hinit : (BlsService.onModuleInit (.ok 17000)).run BlsService.new =
      .ok () AuthenticitySample.blsService := rfl
  refine ⟨AuthenticitySample.run_env, ?_⟩
  exact getAllDepositedEvents_authentic BlockDataCollector.framed_digest_injective
    BlockDataCollector.framed_sha256_injective hinit (Lives.start AuthenticitySample.fetchesLogs_env)
    AuthenticitySample.aligned_registry AuthenticitySample.fetchesLogs_env (by norm_num)
    AuthenticitySample.root_env (by decide) AuthenticitySample.length_fetched
    AuthenticitySample.run_env

end Registry

/-! ## Deposit messages -/

namespace DepositSafety

section Messages

open BlockDataCollector Registry

variable {C : Crypto} {ssz : SszPackage C} {blst : Blst} {blsService : BlsService}

/-- **Deposit messages and the chain.** The data of a block is collected, with a tree that holds the cached
events and from logs of the format of deposit events, and a cycle with it sends deposit messages for
`modules`. The deposit root of the messages is that of the deposits on the chain, and every deposit of a
vetted unused key of such a module that has a valid signature has the credentials of the module. -/
theorem deposit_messages_authentic (hdigest : Function.Injective2 C.digest2Bytes32)
    (hsha : Function.Injective C.sha256) {chainId : ℕ}
    (hinit : (BlsService.onModuleInit (.ok chainId)).run BlsService.new = .ok () blsService)
    {registry registry' : Registry} (hlives : Lives C (FetchesLogs ssz blst blsService) registry)
    (ha : Aligned C registry) {env : BlockEnv} (henv : FetchesLogs ssz blst blsService env.registry)
    {onChain : List Deposit} (hn : onChain.length < 2 ^ 32) {blockNumber : ℕ} {blockHash : String}
    (hroot : ∀ root, env.registry.getDepositRoot blockHash = .ok root →
      root = DepositTree.depositRoot C (onChain.map (Deposit.node C)))
    (hcached : registry.store.cache.data.length < 2 ^ 32)
    (hfetched : ∀ startBlock endBlock events,
      env.registry.fetchEventsFallOver startBlock endBlock = .ok events → events.length < 2 ^ 32)
    {moduleWCMap : InsertionMap String String} {lidoKeys : List RegistryKey} {blockData : BlockData}
    (hblock : (getCurrentBlockData C env blockNumber blockHash moduleWCMap lidoKeys).run registry =
      .ok blockData registry')
    (depositDataCache : ForgetfulCache (List (String × String)) Bool)
    (getUpdatedSigningKeyEvents : String → Except String (List SigningKeyEvent))
    (stakingModules : List SRModule) (elBlockSnapshot : ELBlockSnapshot)
    {keyValidator : KeyValidator} {getNetwork : Except String ℕ}
    {isModuleDepositsPaused : ℕ → Except String Bool} {cache cache' : depositDataCache.State}
    {modules : List StakingModuleData}
    (hcache : KeysValidation.Reachable depositDataCache keyValidator cache)
    (hrun : EStateM.run (Guardian.depositCycle depositDataCache keyValidator getNetwork
      isModuleDepositsPaused getUpdatedSigningKeyEvents stakingModules elBlockSnapshot lidoKeys
      moduleWCMap blockData) cache = .ok modules cache') :
    blockData.depositRoot = DepositTree.depositRoot C (onChain.map (Deposit.node C)) ∧
    ∃ forkVersion, genesisForkVersionByChainId chainId = some forkVersion ∧
      ∀ data ∈ modules, ∀ key ∈ data.vettedUnusedKeys, ∀ d ∈ onChain,
        toHexString d.pubkey = key.key → d.SignatureValid ssz blst forkVersion →
        data.withdrawalCredentials = some (toHexString d.withdrawalCredentials) := by
  obtain ⟨hanswer, hevents⟩ := getCurrentBlockData_ok hblock
  refine ⟨hroot _ hanswer, ?_⟩
  obtain ⟨forkVersion, hchain, hversion⟩ := BlsService.genesis_of_onModuleInit hinit
  refine ⟨forkVersion, hchain, ?_⟩
  obtain ⟨hauthentic, _⟩ := forall₂_getAllDepositedEvents hdigest hsha hversion hlives ha henv hn hroot
    hcached hfetched hevents
  obtain ⟨stakingModulesData, duplicatedKeys, checked, hcollected, _, hchecked, rfl⟩ :=
    depositCycle_ok hcache hrun
  intro data hdata key hkey d hd hpubkey hvalid
  obtain ⟨event, hevent, hof⟩ := (mem_of_forall₂ hauthentic).2 d hd
  obtain ⟨_, _, hdeposited, _⟩ := clean_of_mem hcollected hchecked hdata
  have hfields := hof.fields
  simp only [VerifiedDepositEvent.nodeData, Deposit.nodeData, NodeData.mk.injEq] at hfields
  obtain ⟨hkeyText, hwc, _, _⟩ := hfields
  rw [← hwc]
  exact hdeposited key hkey event hevent (hof.valid.2 hvalid) (hkeyText.trans hpubkey)

end Messages

/-! ### A key that was deposited with the credentials of its module -/

namespace MessageSample

open AuthenticitySample

def blockEnv : BlockDataCollector.BlockEnv where
  registry := env
  chainId := 17000
  getGuardianExecutionContext _ := .ok ⟨"0xd5", 4, "0x91", "0x91", 0, "legacy-eoa"⟩
  isBalanceCritical := .ok false
  isDepositsPaused _ := .ok false

def key : RegistryKey := ⟨toHexString deposit.pubkey, "0x51", 0, false, 1, "0x0a", true⟩

def moduleWCMap : InsertionMap String String :=
  InsertionMap.empty.set "0x0a" (toHexString deposit.withdrawalCredentials)

/-- Accepts every signature. -/
def keyValidator : KeyValidator where
  bufferFromHexString _ := .ok deposit.withdrawalCredentials
  isValid _ _ _ _ := true
  validateKeys keys := .ok (keys.map fun data => (data, true))
  validateKeys_perm keys validated h := by
    cases h
    exact List.Perm.refl _

def blockData : BlockData where
  blockNumber := 10
  blockHash := "0xb2"
  depositRoot := DepositTree.depositRoot .framed [deposit.node .framed]
  depositedEvents := ⟨[event], 0, 10⟩
  guardianContext := ⟨"0xd5", 4, "0x91", "0x91", 0, "legacy-eoa"⟩
  guardianAddress := "0x91"
  guardianIndex := 0
  securityVersion := 4
  alreadyPausedDeposits := false
  hasFrontRunning := false
  hasWrongWCType := false
  walletBalanceCritical := false

def stakingModule : StakingModuleData where
  blockHash := "0xb2"
  vettedUnusedKeys := [key]
  nonce := 7
  stakingModuleId := 1
  stakingModuleAddress := "0x0a"
  lastChangedBlockHash := "0xb0"
  duplicatedKeys := []
  invalidKeys := []
  crossTypeKeys := []
  frontRunKeys := []
  unresolvedDuplicatedKeys := []
  withdrawalCredentials := some (toHexString deposit.withdrawalCredentials)
  isModuleDepositsPaused := false

theorem checkHistoricalFrontRun_key :
    StakingModuleGuard.checkHistoricalFrontRun 17000 [event] [key] moduleWCMap = .ok false := rfl

theorem checkWrongWCType_key :
    StakingModuleGuard.checkWrongWCType 17000 [event] [key] moduleWCMap = .ok false := rfl

theorem run_getCurrentBlockData :
    (BlockDataCollector.getCurrentBlockData .framed blockEnv 10 "0xb2" moduleWCMap [key]).run
      registry = .ok blockData registry :=
  BlockDataCollector.run_getCurrentBlockData rfl run_env rfl rfl checkHistoricalFrontRun_key
    checkWrongWCType_key rfl

theorem getFrontRunAttempts_stakingModule : StakingModuleGuard.getFrontRunAttempts stakingModule blockData
    [stakingModule.withdrawalCredentials] = ⟨[], []⟩ := by
  simp [StakingModuleGuard.getFrontRunAttempts, StakingModuleGuard.getKeysIntersections, stakingModule,
    blockData, event, log, Deposit.nodeData]

/-- The cache after the signatures of the module were checked. -/
def checkedCache : (ForgetfulCache.lru (κ := List (String × String)) (ν := Bool)).State :=
  Service.after (EStateM.run (KeysValidation.getInvalidKeys ForgetfulCache.lru keyValidator
    (.ok 17000) stakingModule.vettedUnusedKeys stakingModule.withdrawalCredentials)
    (ForgetfulCache.lru.create KeysValidation.depositDataLruCacheSize))

theorem run_depositCycle : EStateM.run (Guardian.depositCycle ForgetfulCache.lru
    keyValidator (.ok 17000) (fun _ => .ok false) (fun _ => .ok []) [⟨7, 1, "0x0a"⟩]
    ⟨10, "0xb2", "0xb0"⟩ [key] moduleWCMap blockData)
      (ForgetfulCache.lru.create KeysValidation.depositDataLruCacheSize) =
      .ok [stakingModule] checkedCache := by
  have hcollected : StakingModuleDataCollector.collectStakingModuleData (fun _ => .ok false)
      [⟨7, 1, "0x0a"⟩] ⟨10, "0xb2", "0xb0"⟩ [key] moduleWCMap = .ok [stakingModule] := rfl
  have hduplicated : Duplicates.getDuplicatedKeys (fun _ => .ok []) [key] = .ok ⟨[], []⟩ := rfl
  have hinvalid : EStateM.run (KeysValidation.getInvalidKeys ForgetfulCache.lru keyValidator
      (.ok 17000) stakingModule.vettedUnusedKeys stakingModule.withdrawalCredentials)
        (ForgetfulCache.lru.create KeysValidation.depositDataLruCacheSize) =
          .ok [] checkedCache := rfl
  unfold Guardian.depositCycle StakingModuleDataCollector.checkKeys
  simp only [hcollected, hduplicated, EStateM.run_bind, Service.run_call_ok, List.mapM_cons,
    List.mapM_nil, StakingModuleDataCollector.checkModuleKeys, List.map_cons, List.map_nil,
    getFrontRunAttempts_stakingModule, hinvalid, EStateM.run_pure]
  rfl

end MessageSample

theorem deposit_messages_authentic_one :
    [AuthenticitySample.deposit].map (fun d => toHexString d.pubkey) = [MessageSample.key.key] ∧
    MessageSample.blockData.depositRoot = DepositTree.depositRoot .framed
      ([AuthenticitySample.deposit].map (Deposit.node .framed)) ∧
    ∃ forkVersion, genesisForkVersionByChainId 17000 = some forkVersion ∧
      ∀ data ∈ [MessageSample.stakingModule], ∀ key ∈ data.vettedUnusedKeys,
        ∀ d ∈ [AuthenticitySample.deposit], toHexString d.pubkey = key.key →
        d.SignatureValid AuthenticitySample.ssz AuthenticitySample.blst forkVersion →
        data.withdrawalCredentials = some (toHexString d.withdrawalCredentials) := by
  have hinit : (BlsService.onModuleInit (.ok 17000)).run BlsService.new =
      .ok () AuthenticitySample.blsService := rfl
  refine ⟨rfl, ?_⟩
  exact deposit_messages_authentic BlockDataCollector.framed_digest_injective
    BlockDataCollector.framed_sha256_injective hinit
    (Registry.Lives.start AuthenticitySample.fetchesLogs_env) AuthenticitySample.aligned_registry
    AuthenticitySample.fetchesLogs_env (by norm_num) AuthenticitySample.root_env (by decide) AuthenticitySample.length_fetched
    MessageSample.run_getCurrentBlockData _ _ _ _ KeysValidation.Reachable.create
    MessageSample.run_depositCycle

end DepositSafety

end CouncilDaemon
