import CouncilDaemon.Deposits.FreshEvents
import CouncilDaemon.Guardian.WithdrawalCredentials
import CouncilDaemon.Lib.Separator

/-!
# The data of the current block

At a block the guardian reads the deposit root and all deposited events, checks the used keys against
the events and notes whether deposits are paused. Whatever events the node returned, the events
examined are the deposits on the chain at that block, and the deposit root that goes into the
messages is the root of exactly these (`getCurrentBlockData_integrity`).
-/

namespace CouncilDaemon

namespace BlockDataCollector

/-- What the other services answer while the data of a block is collected. -/
structure BlockEnv where
  registry : Env
  /-- `CHAIN_ID` of the configuration. -/
  chainId : ℕ
  getGuardianExecutionContext : (blockHash : String) → Except String GuardianExecutionContext
  isBalanceCritical : Except String Bool
  isDepositsPaused : (blockHash : String) → Except String Bool

def getCurrentBlockData (C : Crypto) (env : BlockEnv) (blockNumber : ℕ) (blockHash : String)
    (moduleWCMap : InsertionMap String String) (lidoKeys : List RegistryKey) :
    Service Registry BlockData := do
  let depositRoot ← Service.call (Registry.getDepositRoot env.registry blockHash)
  let depositedEvents ← Registry.getAllDepositedEvents C env.registry blockNumber blockHash
  let guardianContext ← Service.call (env.getGuardianExecutionContext blockHash)
  let walletBalanceCritical ← Service.call env.isBalanceCritical
  let hasFrontRunning ← Service.call (StakingModuleGuard.checkHistoricalFrontRun env.chainId
    depositedEvents.events lidoKeys moduleWCMap)
  let hasWrongWCType ← Service.call (StakingModuleGuard.checkWrongWCType env.chainId
    depositedEvents.events lidoKeys moduleWCMap)
  let alreadyPausedDeposits ← Service.call (env.isDepositsPaused blockHash)
  return {
    blockNumber := blockNumber
    blockHash := blockHash
    depositRoot := depositRoot
    depositedEvents := depositedEvents
    guardianContext := guardianContext
    guardianAddress := guardianContext.guardianAddress
    guardianIndex := guardianContext.guardianIndex
    securityVersion := guardianContext.dsmVersion
    alreadyPausedDeposits := alreadyPausedDeposits
    hasFrontRunning := hasFrontRunning
    hasWrongWCType := hasWrongWCType
    walletBalanceCritical := walletBalanceCritical }

/-- The data has the root and the events that the registry returned. -/
theorem getCurrentBlockData_ok {C : Crypto} {env : BlockEnv} {blockNumber : ℕ} {blockHash : String}
    {moduleWCMap : InsertionMap String String} {lidoKeys : List RegistryKey}
    {registry registry' : Registry} {blockData : BlockData}
    (hrun : (getCurrentBlockData C env blockNumber blockHash moduleWCMap lidoKeys).run registry =
      .ok blockData registry') :
    env.registry.getDepositRoot blockHash = .ok blockData.depositRoot ∧
      (Registry.getAllDepositedEvents C env.registry blockNumber blockHash).run registry =
        .ok blockData.depositedEvents registry' := by
  unfold getCurrentBlockData at hrun
  obtain ⟨depositRoot, s₁, hroot, hrun⟩ := Service.bind_ok hrun
  obtain ⟨depositedEvents, s₂, hevents, hrun⟩ := Service.bind_ok hrun
  obtain ⟨guardianContext, s₃, hcontext, hrun⟩ := Service.bind_ok hrun
  obtain ⟨walletBalanceCritical, s₄, hwallet, hrun⟩ := Service.bind_ok hrun
  obtain ⟨hasFrontRunning, s₅, hfrontRun, hrun⟩ := Service.bind_ok hrun
  obtain ⟨hasWrongWCType, s₆, hwrongType, hrun⟩ := Service.bind_ok hrun
  obtain ⟨alreadyPausedDeposits, s₇, hpaused, hreturn⟩ := Service.bind_ok hrun
  obtain ⟨hanswer, rfl⟩ := Service.call_ok hroot
  cases hreturn
  obtain ⟨_, rfl⟩ := Service.call_ok hpaused
  obtain ⟨_, rfl⟩ := Service.call_ok hwrongType
  obtain ⟨_, rfl⟩ := Service.call_ok hfrontRun
  obtain ⟨_, rfl⟩ := Service.call_ok hwallet
  obtain ⟨_, rfl⟩ := Service.call_ok hcontext
  exact ⟨hanswer, hevents⟩

/-- The data of a block, from the answers of the calls. -/
theorem run_getCurrentBlockData {C : Crypto} {env : BlockEnv} {blockNumber : ℕ} {blockHash : String}
    {moduleWCMap : InsertionMap String String} {lidoKeys : List RegistryKey}
    {registry registry' : Registry} {depositRoot : String} {group : VerifiedDepositedEventGroup}
    {context : GuardianExecutionContext} {critical frontRunning wrongWCType paused : Bool}
    (hroot : env.registry.getDepositRoot blockHash = .ok depositRoot)
    (hevents : (Registry.getAllDepositedEvents C env.registry blockNumber blockHash).run registry =
      .ok group registry')
    (hcontext : env.getGuardianExecutionContext blockHash = .ok context)
    (hcritical : env.isBalanceCritical = .ok critical)
    (hfrontRunning : StakingModuleGuard.checkHistoricalFrontRun env.chainId group.events lidoKeys
      moduleWCMap = .ok frontRunning)
    (hwrongWCType : StakingModuleGuard.checkWrongWCType env.chainId group.events lidoKeys
      moduleWCMap = .ok wrongWCType)
    (hpaused : env.isDepositsPaused blockHash = .ok paused) :
    (getCurrentBlockData C env blockNumber blockHash moduleWCMap lidoKeys).run registry = .ok {
      blockNumber := blockNumber
      blockHash := blockHash
      depositRoot := depositRoot
      depositedEvents := group
      guardianContext := context
      guardianAddress := context.guardianAddress
      guardianIndex := context.guardianIndex
      securityVersion := context.dsmVersion
      alreadyPausedDeposits := paused
      hasFrontRunning := frontRunning
      hasWrongWCType := wrongWCType
      walletBalanceCritical := critical } registry' := by
  unfold getCurrentBlockData Registry.getDepositRoot
  simp only [hroot, EStateM.run_bind, Service.run_call_ok, hevents, hcontext, hcritical,
    hfrontRunning, hwrongWCType, hpaused, EStateM.run_pure]

section Integrity

open Registry

variable {C : Crypto} {env : BlockEnv} {blockHash : String} {onChain : List Bytes}
  {registry : Registry}

/-- A method that changes nothing either returns or throws, in the state it was called in. -/
theorem run_eq_of_keeps {α : Type} {m : Service Registry α} (h : Service.Keeps id m)
    (registry : Registry) :
    (∃ a, m.run registry = .ok a registry) ∨ ∃ e, m.run registry = .error e registry := by
  have hkeeps := h registry
  cases hrun : m.run registry with
  | ok a registry' =>
    rw [hrun] at hkeeps
    obtain rfl : registry' = registry := hkeeps
    exact Or.inl ⟨a, rfl⟩
  | error e registry' =>
    rw [hrun] at hkeeps
    obtain rfl : registry' = registry := hkeeps
    exact Or.inr ⟨e, rfl⟩

/-- **Integrity.** Take a registry whose tree holds the cached deposits, and hashes free of
collisions. Whatever the node returns for the fresh blocks, `getAllDepositedEvents` returns the
deposits on the chain or throws, and changes nothing; the deposit root that goes with the returned
events is theirs. (An array has fewer than 2 ^ 32 elements.) -/
theorem getCurrentBlockData_integrity (hdigest : Function.Injective2 C.digest2Bytes32)
    (hsha : Function.Injective C.sha256) (ha : Aligned C registry) (hn : onChain.length < 2 ^ 32)
    (hroot : ∀ root, env.registry.getDepositRoot blockHash = .ok root →
      root = DepositTree.depositRoot C onChain)
    (hcached : registry.store.cache.data.length < 2 ^ 32)
    (hfetched : ∀ startBlock endBlock events,
      env.registry.fetchEventsFallOver startBlock endBlock = .ok events → events.length < 2 ^ 32)
    (blockNumber : ℕ) (moduleWCMap : InsertionMap String String) (lidoKeys : List RegistryKey) :
    ((∃ group, (getAllDepositedEvents C env.registry blockNumber blockHash).run registry =
          .ok group registry ∧ AreOnChain group.events onChain) ∨
      ∃ e, (getAllDepositedEvents C env.registry blockNumber blockHash).run registry =
        .error e registry) ∧
    ∀ blockData registry',
      (getCurrentBlockData C env blockNumber blockHash moduleWCMap lidoKeys).run registry =
        .ok blockData registry' →
      AreOnChain blockData.depositedEvents.events onChain ∧
      blockData.depositRoot = DepositTree.depositRoot C
        (blockData.depositedEvents.events.map (·.depositDataRoot)) ∧
      registry' = registry := by
  have hgroup : ∀ {group registry'},
      (getAllDepositedEvents C env.registry blockNumber blockHash).run registry =
        .ok group registry' → AreOnChain group.events onChain :=
    fun hrun => getAllDepositedEvents_ok hdigest hsha ha hn hroot hcached hfetched hrun
  have hkeeps := run_eq_of_keeps
    (m := getAllDepositedEvents C env.registry blockNumber blockHash)
    (getAllDepositedEvents_keeps blockNumber blockHash) registry
  refine ⟨?_, ?_⟩
  · rcases hkeeps with ⟨group, hrun⟩ | herror
    · exact Or.inl ⟨group, hrun, hgroup hrun⟩
    · exact Or.inr herror
  · intro blockData registry' hrun
    obtain ⟨hanswer, hevents⟩ := getCurrentBlockData_ok hrun
    have honChain := hgroup hevents
    refine ⟨honChain, ?_, ?_⟩
    · rw [hroot _ hanswer, honChain.1]
    · rcases hkeeps with ⟨group, hok⟩ | ⟨e, herror⟩
      · rw [hok] at hevents
        exact (EStateM.Result.ok.inj hevents).2.symm
      · rw [herror] at hevents
        cases hevents

/-! ## A chain with one deposit -/

theorem framed_digest_injective : Function.Injective2 Crypto.framed.digest2Bytes32 := by
  intro a a' b b' h
  obtain ⟨hframe, hrest⟩ := Separator.append_cons_inj
    (fun hmem => by simpa using List.eq_of_mem_replicate hmem)
    (fun hmem => by simpa using List.eq_of_mem_replicate hmem) h
  have hlength : a.length = a'.length := by simpa using congrArg List.length hframe
  exact List.append_inj hrest hlength

theorem framed_sha256_injective : Function.Injective Crypto.framed.sha256 := by
  intro bytes bytes' h
  have hchar : ∀ b : UInt8, (Char.ofNat b.toNat).toNat = b.toNat := by
    intro b
    have hlt := b.toNat_lt
    rw [Char.ofNat, dif_pos (Or.inl (by omega))]
    rfl
  have hbyte : Function.Injective fun b : UInt8 => Char.ofNat b.toNat := by
    intro b b' hb
    have htoNat := congrArg Char.toNat hb
    simp only [hchar] at htoNat
    exact UInt8.toNat_inj.1 htoNat
  exact List.map_injective_iff.2 hbyte (String.ofList_injective h)

/-- A node that knows of one deposit. -/
def sampleBlockEnv : BlockEnv where
  registry :=
    { sampleEnv 100 [sampleEvent 0] with
      getDepositRoot := fun _ => .ok (DepositTree.depositRoot .framed [zeroHash]) }
  chainId := 17000
  getGuardianExecutionContext _ := .ok ⟨"0xd5", 4, "0x91", "0x91", 0, "legacy-eoa"⟩
  isBalanceCritical := .ok false
  isDepositsPaused _ := .ok false

theorem getCurrentBlockData_integrity_sample :
    ((∃ group, (getAllDepositedEvents .framed sampleBlockEnv.registry 120 "0xb2").run
          (opened .framed OrderedStore.empty) = .ok group (opened .framed OrderedStore.empty) ∧
          AreOnChain group.events [zeroHash]) ∨
      ∃ e, (getAllDepositedEvents .framed sampleBlockEnv.registry 120 "0xb2").run
        (opened .framed OrderedStore.empty) = .error e (opened .framed OrderedStore.empty)) ∧
    ∀ blockData registry',
      (getCurrentBlockData .framed sampleBlockEnv 120 "0xb2" InsertionMap.empty []).run
          (opened .framed OrderedStore.empty) = .ok blockData registry' →
      AreOnChain blockData.depositedEvents.events [zeroHash] ∧
      blockData.depositRoot = DepositTree.depositRoot .framed
        (blockData.depositedEvents.events.map (·.depositDataRoot)) ∧
      registry' = opened .framed OrderedStore.empty := by
  have hroot : ∀ root, sampleBlockEnv.registry.getDepositRoot "0xb2" = .ok root →
      root = DepositTree.depositRoot .framed [zeroHash] := by
    intro root h
    exact (Except.ok.inj h).symm
  have hfetched : ∀ startBlock endBlock events,
      sampleBlockEnv.registry.fetchEventsFallOver startBlock endBlock = .ok events →
        events.length < 2 ^ 32 := by
    intro startBlock endBlock events h
    rw [← Except.ok.inj h]
    decide
  exact getCurrentBlockData_integrity framed_digest_injective framed_sha256_injective
    ⟨DepositTree.holds_new, rfl⟩ (by decide) hroot (by decide) hfetched 120 InsertionMap.empty []

end Integrity

end BlockDataCollector

end CouncilDaemon
