import CouncilDaemon.Deposits.Records
import CouncilDaemon.Guardian.Interfaces
import CouncilDaemon.Lib.ForgetfulCache
import CouncilDaemon.Lib.Service

/-!
# Validation of deposit signatures

The verdicts of the key validator are remembered in a bounded cache under the texts of what they
depend on. Every remembered verdict is the validator's (`CacheSound`), whatever was forgotten, so the
invalid keys are the ones that the validator rejects (`getInvalidKeys_spec`).
-/

namespace CouncilDaemon

/-- A key together with what its deposit signature is checked against. -/
structure DepositKey extends RegistryKey where
  withdrawalCredentials : Bytes
  genesisForkVersion : Bytes

/-- The package that checks deposit signatures. -/
structure KeyValidator where
  bufferFromHexString : Option String → Except String Bytes
  /-- The verdict on a deposit signature of a pubkey. -/
  isValid : (key depositSignature : String) → (withdrawalCredentials genesisForkVersion : Bytes) → Bool
  validateKeys : List DepositKey → Except String (List (DepositKey × Bool))
  /-- Each record comes back once, with its verdict. -/
  validateKeys_perm : ∀ keys validated, validateKeys keys = .ok validated →
    validated.Perm (keys.map fun data => (data,
      isValid data.key data.depositSignature data.withdrawalCredentials data.genesisForkVersion))

/-- `GENESIS_FORK_VERSION_BY_CHAIN_ID`: Mainnet, Goerli, Holesky, Hoodi and the local devnet. -/
def genesisForkVersionByChainId : (chainId : ℕ) → Option Bytes
  | 1 => some [0x00, 0x00, 0x00, 0x00]
  | 5 => some [0x00, 0x00, 0x10, 0x20]
  | 17000 => some [0x01, 0x01, 0x70, 0x00]
  | 560048 => some [0x10, 0x00, 0x09, 0x10]
  | 32382 => some [0x10, 0x00, 0x00, 0x38]
  | _ => none

namespace KeysValidation

/-! ## The source -/

/-- `DEPOSIT_DATA_LRU_CACHE_SIZE`. -/
def depositDataLruCacheSize : ℕ := 80000

/-- The text is kept as the fields it has. -/
def serializeDepositData (depositKey : DepositKey) : List (String × String) :=
  [("key", depositKey.key), ("depositSignature", depositKey.depositSignature),
    ("withdrawalCredentials", toHex (depositKey.withdrawalCredentials.map UInt8.toNat)),
    ("genesisForkVersion", toHex (depositKey.genesisForkVersion.map UInt8.toNat))]

section Service

variable (depositDataCache : ForgetfulCache (List (String × String)) Bool)
  (keyValidator : KeyValidator)
  -- the chain id of the provider's network
  (getNetwork : Except String ℕ)

def getCachedDepositData (depositKey : DepositKey) :
    Service depositDataCache.State (Option Bool) :=
  modifyGet fun cache => depositDataCache.get cache (serializeDepositData depositKey)

/-- The step of the loop of `partitionCachedData`. -/
def partitionStep (withdrawalCredentialsBuffer genesisForkVersionBuffer : Bytes)
    (acc : List RegistryKey × List DepositKey) (key : RegistryKey) :
    Service depositDataCache.State (List RegistryKey × List DepositKey) := do
  let depositKey : DepositKey :=
    ⟨key, withdrawalCredentialsBuffer, genesisForkVersionBuffer⟩
  let cacheResult ← getCachedDepositData depositDataCache depositKey
  return (if cacheResult = some false then acc.1 ++ [key] else acc.1,
    if cacheResult = none then acc.2 ++ [depositKey] else acc.2)

def partitionCachedData (keys : List RegistryKey)
    (withdrawalCredentialsBuffer genesisForkVersionBuffer : Bytes) :
    Service depositDataCache.State (List RegistryKey × List DepositKey) :=
  keys.foldlM (partitionStep depositDataCache withdrawalCredentialsBuffer genesisForkVersionBuffer)
    ([], [])

def forkVersion : Except String Bytes := do
  let chainId ← getNetwork
  (genesisForkVersionByChainId chainId).elim
    (.error ("Unsupported chain id " ++ toString chainId)) .ok

def updateCache (validatedKeys : List (DepositKey × Bool)) : Service depositDataCache.State Unit :=
  modify fun cache => depositDataCache.setAll cache
    (validatedKeys.map fun entry => (serializeDepositData entry.1, entry.2))

def filterInvalidKeys (validatedKeys : List (DepositKey × Bool)) : List RegistryKey :=
  (validatedKeys.filter fun entry => !entry.2).map fun entry =>
    { key := entry.1.key
      depositSignature := entry.1.depositSignature
      operatorIndex := entry.1.operatorIndex
      used := entry.1.used
      index := entry.1.index
      moduleAddress := entry.1.moduleAddress
      vetted := entry.1.vetted }

def getInvalidKeys (keys : List RegistryKey) (withdrawalCredentials : Option String) :
    Service depositDataCache.State (List RegistryKey) := do
  let withdrawalCredentialsBuffer ← Service.call
    (keyValidator.bufferFromHexString withdrawalCredentials)
  let genesisForkVersionBuffer ← Service.call (forkVersion getNetwork)
  let partition ← partitionCachedData depositDataCache keys withdrawalCredentialsBuffer
    genesisForkVersionBuffer
  let validatedDepositKeyList ← Service.call (keyValidator.validateKeys partition.2)
  updateCache depositDataCache validatedDepositKeyList
  return partition.1 ++ filterInvalidKeys validatedDepositKeyList

end Service

/-! ## Verdicts -/

variable {depositDataCache : ForgetfulCache (List (String × String)) Bool}
  {keyValidator : KeyValidator}

/-- The validator's verdict on a key. -/
def verdict (keyValidator : KeyValidator) (data : DepositKey) : Bool :=
  keyValidator.isValid data.key data.depositSignature data.withdrawalCredentials
    data.genesisForkVersion

/-- The remembered verdicts are the validator's. -/
def CacheSound (depositDataCache : ForgetfulCache (List (String × String)) Bool)
    (keyValidator : KeyValidator) (cache : depositDataCache.State) : Prop :=
  depositDataCache.Sound
    (fun fields isValid => ∀ data, serializeDepositData data = fields →
      isValid = verdict keyValidator data) cache

theorem toNat_lt {bytes : Bytes} : ∀ d ∈ bytes.map UInt8.toNat, d < 256 := by
  intro d hd
  obtain ⟨byte, _, rfl⟩ := List.mem_map.1 hd
  exact byte.toNat_lt

/-- The text of a key determines its verdict. -/
theorem verdict_eq_of_serialize {a b : DepositKey}
    (h : serializeDepositData a = serializeDepositData b) :
    verdict keyValidator a = verdict keyValidator b := by
  simp only [serializeDepositData, List.cons.injEq, Prod.mk.injEq, true_and, and_true] at h
  obtain ⟨hkey, hsignature, hwc, hversion⟩ := h
  have hinj := (List.map_injective_iff.2 fun _ _ h => UInt8.toNat_inj.1 h : Function.Injective
    (List.map UInt8.toNat))
  rw [verdict, verdict, hkey, hsignature, hinj (toHex_inj toNat_lt toNat_lt hwc),
    hinj (toHex_inj toNat_lt toNat_lt hversion)]

theorem cacheSound_create (max : ℕ) :
    CacheSound depositDataCache keyValidator (depositDataCache.create max) :=
  depositDataCache.sound_create _ max

/-- A key is invalid for the buffers. -/
def rejected (keyValidator : KeyValidator) (withdrawalCredentials genesisForkVersion : Bytes)
    (key : RegistryKey) : Bool :=
  !verdict keyValidator ⟨key, withdrawalCredentials, genesisForkVersion⟩

/-- The loop keeps the cache sound and divides the keys: the cached ones that are invalid, and the
ones left to the validator. -/
theorem run_partition (wc fv : Bytes) (keys : List RegistryKey) : ∀ (acc) (cache),
    CacheSound depositDataCache keyValidator cache →
    ∃ (cached uncached : List RegistryKey) (cache' : depositDataCache.State), EStateM.run (keys.foldlM (partitionStep depositDataCache wc fv) acc)
        cache = .ok (acc.1 ++ cached, acc.2 ++ uncached.map fun key => ⟨key, wc, fv⟩) cache' ∧
      CacheSound depositDataCache keyValidator cache' ∧
      (cached ++ uncached.filter (rejected keyValidator wc fv)).Perm
        (keys.filter (rejected keyValidator wc fv)) := by
  induction keys with
  | nil =>
    intro acc cache hsound
    refine ⟨[], [], cache, ?_, hsound, List.Perm.refl _⟩
    simp [pure, EStateM.run, EStateM.pure]
  | cons key keys ih =>
    intro acc cache hsound
    have hget := fun v h => hsound (serializeDepositData ⟨key, wc, fv⟩) v h _ rfl
    have hnext : CacheSound depositDataCache keyValidator
        (depositDataCache.get cache (serializeDepositData ⟨key, wc, fv⟩)).2 := hsound.get _
    rw [List.foldlM_cons]
    cases hresult : (depositDataCache.get cache (serializeDepositData ⟨key, wc, fv⟩)).1 with
    | none =>
      have hstep : EStateM.run (partitionStep depositDataCache wc fv acc key) cache =
          .ok (acc.1, acc.2 ++ [⟨key, wc, fv⟩])
            (depositDataCache.get cache (serializeDepositData ⟨key, wc, fv⟩)).2 := by
        show EStateM.Result.ok (ite ((depositDataCache.get cache _).1 = some false) _ _,
          ite ((depositDataCache.get cache _).1 = none) _ _) _ = _
        rw [hresult]
        rfl
      obtain ⟨cached, uncached, cache', hrun, hsound', hperm⟩ :=
        ih (acc.1, acc.2 ++ [⟨key, wc, fv⟩]) _ hnext
      refine ⟨cached, key :: uncached, cache', ?_, hsound', ?_⟩
      · rw [Service.run_bind_ok hstep, hrun]
        simp
      · rw [List.filter_cons, List.filter_cons]
        split_ifs
        · exact List.perm_middle.trans (hperm.cons key)
        · exact hperm
    | some isValid =>
      have hverdict := hget isValid hresult
      have hstep : EStateM.run (partitionStep depositDataCache wc fv acc key) cache =
          .ok (if isValid = false then acc.1 ++ [key] else acc.1, acc.2)
            (depositDataCache.get cache (serializeDepositData ⟨key, wc, fv⟩)).2 := by
        show EStateM.Result.ok (ite ((depositDataCache.get cache _).1 = some false) _ _,
          ite ((depositDataCache.get cache _).1 = none) _ _) _ = _
        rw [hresult]
        cases isValid <;> rfl
      obtain ⟨cached, uncached, cache', hrun, hsound', hperm⟩ :=
        ih (if isValid = false then acc.1 ++ [key] else acc.1, acc.2) _ hnext
      cases isValid with
      | false =>
        refine ⟨key :: cached, uncached, cache', ?_, hsound', ?_⟩
        · rw [Service.run_bind_ok hstep, hrun]
          simp
        · have hrejected : rejected keyValidator wc fv key = true := by rw [rejected, ← hverdict]; rfl
          rw [List.filter_cons, if_pos hrejected]
          exact hperm.cons key
      | true =>
        refine ⟨cached, uncached, cache', ?_, hsound', ?_⟩
        · rw [Service.run_bind_ok hstep, hrun]
          simp
        · have hvalid : ¬ rejected keyValidator wc fv key = true := by
            rw [rejected, ← hverdict]
            exact Bool.false_ne_true
          rw [List.filter_cons, if_neg hvalid]
          exact hperm

/-- Of the validated keys, the invalid ones are those that the validator rejects. -/
theorem filterInvalidKeys_perm {wc fv : Bytes} {keys : List RegistryKey}
    {validated : List (DepositKey × Bool)}
    (h : keyValidator.validateKeys (keys.map fun key => ⟨key, wc, fv⟩) = .ok validated) :
    (filterInvalidKeys validated).Perm (keys.filter (rejected keyValidator wc fv)) := by
  have hperm := ((keyValidator.validateKeys_perm _ _ h).filter fun entry => !entry.2).map
    fun entry => entry.1.toRegistryKey
  rw [List.map_map, List.filter_map, List.map_map] at hperm
  have hid : (fun entry : DepositKey × Bool => entry.1.toRegistryKey) ∘
      ((fun data : DepositKey => (data, keyValidator.isValid data.key data.depositSignature
        data.withdrawalCredentials data.genesisForkVersion)) ∘
        fun key : RegistryKey => (⟨key, wc, fv⟩ : DepositKey)) = id := by
    funext key
    rfl
  rw [hid, List.map_id] at hperm
  exact hperm

theorem CacheSound.updateCache {cache : depositDataCache.State} {keys : List DepositKey}
    {validated : List (DepositKey × Bool)} (hsound : CacheSound depositDataCache keyValidator cache)
    (h : keyValidator.validateKeys keys = .ok validated) :
    CacheSound depositDataCache keyValidator (depositDataCache.setAll cache
      (validated.map fun entry => (serializeDepositData entry.1, entry.2))) := by
  apply hsound.setAll
  intro entry hentry data hdata
  obtain ⟨validatedEntry, hmem, rfl⟩ := List.mem_map.1 hentry
  obtain ⟨d, _, rfl⟩ := List.mem_map.1 ((keyValidator.validateKeys_perm _ _ h).mem_iff.1 hmem)
  exact (verdict_eq_of_serialize hdata).symm

/-- **Verdicts.** The invalid keys are those that the validator rejects for the credentials and the
network; the cache stays sound, also when the method throws. -/
theorem getInvalidKeys_spec {cache : depositDataCache.State} (getNetwork : Except String ℕ)
    (keys : List RegistryKey) (withdrawalCredentials : Option String)
    (hsound : CacheSound depositDataCache keyValidator cache) :
    CacheSound depositDataCache keyValidator (Service.after (EStateM.run
      (getInvalidKeys depositDataCache keyValidator getNetwork keys withdrawalCredentials) cache)) ∧
    ∀ result cache', EStateM.run
        (getInvalidKeys depositDataCache keyValidator getNetwork keys withdrawalCredentials) cache =
          .ok result cache' →
      ∃ wc fv, keyValidator.bufferFromHexString withdrawalCredentials = .ok wc ∧
        forkVersion getNetwork = .ok fv ∧
        result.Perm (keys.filter (rejected keyValidator wc fv)) := by
  unfold getInvalidKeys
  cases hwc : keyValidator.bufferFromHexString withdrawalCredentials with
  | error e => exact ⟨hsound, fun _ _ h => by cases h⟩
  | ok wc =>
    rw [Service.run_bind_ok (Service.run_call_ok wc cache)]
    cases hfv : forkVersion getNetwork with
    | error e => exact ⟨hsound, fun _ _ h => by cases h⟩
    | ok fv =>
      rw [Service.run_bind_ok (Service.run_call_ok fv cache)]
      obtain ⟨cached, uncached, cache', hrun, hsound', hperm⟩ :=
        run_partition wc fv keys ([], []) cache hsound
      have hpartition : EStateM.run (partitionCachedData depositDataCache keys wc fv) cache =
          .ok (cached, uncached.map fun key => ⟨key, wc, fv⟩) cache' := hrun
      rw [Service.run_bind_ok hpartition]
      cases hvalidated : keyValidator.validateKeys (uncached.map fun key => ⟨key, wc, fv⟩) with
      | error e => exact ⟨hsound', fun _ _ h => by cases h⟩
      | ok validated =>
        rw [Service.run_bind_ok (Service.run_call_ok validated cache')]
        refine ⟨hsound'.updateCache hvalidated, ?_⟩
        intro result cache'' h
        cases h
        exact ⟨wc, fv, rfl, rfl, ((filterInvalidKeys_perm hvalidated).append_left cached).trans hperm⟩

/-- The caches that calls of `getInvalidKeys` can leave. -/
inductive Reachable (depositDataCache : ForgetfulCache (List (String × String)) Bool)
    (keyValidator : KeyValidator) : depositDataCache.State → Prop
  | create : Reachable depositDataCache keyValidator
      (depositDataCache.create depositDataLruCacheSize)
  | getInvalidKeys {cache} (getNetwork : Except String ℕ) (keys : List RegistryKey)
      (withdrawalCredentials : Option String) : Reachable depositDataCache keyValidator cache →
      Reachable depositDataCache keyValidator (Service.after (EStateM.run
        (getInvalidKeys depositDataCache keyValidator getNetwork keys withdrawalCredentials) cache))

theorem Reachable.sound {cache : depositDataCache.State}
    (h : Reachable depositDataCache keyValidator cache) :
    CacheSound depositDataCache keyValidator cache := by
  induction h with
  | create => exact cacheSound_create _
  | getInvalidKeys getNetwork keys withdrawalCredentials _ ih =>
    exact (getInvalidKeys_spec getNetwork keys withdrawalCredentials ih).1

end KeysValidation

end CouncilDaemon
