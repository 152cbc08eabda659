import CouncilDaemon.Guardian.KeysValidation
import CouncilDaemon.Lib.JsonText

/-!
# The validation cache

The cache of verdicts is kept under the JSON texts of the deposit data. Over any sequence of calls, of
which some may throw, every call that returns has the records that the validator rejects, no more and no
fewer, whatever the cache has forgotten (`getInvalidKeys_rejected`).
-/

namespace CouncilDaemon

namespace KeysValidation

/-- The cache under the texts of the fields. -/
def underTexts (textCache : ForgetfulCache String Bool) :
    ForgetfulCache (List (String × String)) Bool :=
  textCache.comap (fun fields => Json.stringify (Json.ofStrings fields))
    Json.stringify_ofStrings_injective

/-- The caches after a sequence of calls. The package may answer each call in its own way, with the
verdicts `isValid`. -/
inductive CalledBefore (depositDataCache : ForgetfulCache (List (String × String)) Bool)
    (isValid : (key depositSignature : String) →
      (withdrawalCredentials genesisForkVersion : Bytes) → Bool) : depositDataCache.State → Prop
  | create : CalledBefore depositDataCache isValid
      (depositDataCache.create depositDataLruCacheSize)
  | getInvalidKeys {cache} (keyValidator : KeyValidator) (hvalid : keyValidator.isValid = isValid)
      (getNetwork : Except String ℕ) (keys : List RegistryKey)
      (withdrawalCredentials : Option String) : CalledBefore depositDataCache isValid cache →
      CalledBefore depositDataCache isValid (Service.after (EStateM.run
        (getInvalidKeys depositDataCache keyValidator getNetwork keys withdrawalCredentials) cache))

variable {depositDataCache : ForgetfulCache (List (String × String)) Bool}
  {isValid : (key depositSignature : String) →
    (withdrawalCredentials genesisForkVersion : Bytes) → Bool} {keyValidator : KeyValidator}
  {cache : depositDataCache.State}

/-- What is sound for one validator is sound for every other with its verdicts. -/
theorem CacheSound.congr {other : KeyValidator} (h : CacheSound depositDataCache keyValidator cache)
    (heq : other.isValid = keyValidator.isValid) : CacheSound depositDataCache other cache := by
  intro fields v hget data hdata
  have hv := h fields v hget data hdata
  rwa [verdict, ← heq] at hv

theorem CalledBefore.sound (h : CalledBefore depositDataCache isValid cache)
    (hvalid : keyValidator.isValid = isValid) : CacheSound depositDataCache keyValidator cache := by
  induction h generalizing keyValidator with
  | create => exact cacheSound_create _
  | getInvalidKeys other hother getNetwork keys withdrawalCredentials _ ih =>
    have hspec := (getInvalidKeys_spec getNetwork keys withdrawalCredentials (ih hother)).1
    exact hspec.congr (hvalid.trans hother.symm)

/-- A call returns when the package and the provider answer. -/
theorem getInvalidKeys_returns {getNetwork : Except String ℕ} {withdrawalCredentials : Option String}
    {wc fv : Bytes} (hwc : keyValidator.bufferFromHexString withdrawalCredentials = .ok wc)
    (hfv : forkVersion getNetwork = .ok fv)
    (hvalidator : ∀ submitted, ∃ validated, keyValidator.validateKeys submitted = .ok validated)
    (hsound : CacheSound depositDataCache keyValidator cache) (keys : List RegistryKey) :
    ∃ result cache', EStateM.run (getInvalidKeys depositDataCache keyValidator getNetwork keys
      withdrawalCredentials) cache = .ok result cache' := by
  unfold getInvalidKeys
  rw [hwc, Service.run_bind_ok (Service.run_call_ok wc cache), hfv,
    Service.run_bind_ok (Service.run_call_ok fv cache)]
  obtain ⟨cached, uncached, cache', hrun, _⟩ := run_partition wc fv keys ([], []) cache hsound
  have hpartition : EStateM.run (partitionCachedData depositDataCache keys wc fv) cache =
      .ok (cached, uncached.map fun key => ⟨key, wc, fv⟩) cache' := hrun
  rw [Service.run_bind_ok hpartition]
  obtain ⟨validated, hvalidated⟩ := hvalidator (uncached.map fun key => ⟨key, wc, fv⟩)
  rw [hvalidated, Service.run_bind_ok (Service.run_call_ok validated cache')]
  exact ⟨_, _, rfl⟩

/-- **The cache never changes a verdict.** After any sequence of calls, a call returns the records of
its input that the validator rejects. -/
theorem getInvalidKeys_rejected {textCache : ForgetfulCache String Bool}
    {cache : (underTexts textCache).State} (h : CalledBefore (underTexts textCache) isValid cache)
    (hvalid : keyValidator.isValid = isValid) (getNetwork : Except String ℕ)
    (keys : List RegistryKey) (withdrawalCredentials : Option String) :
    (∀ result cache', EStateM.run (getInvalidKeys (underTexts textCache) keyValidator getNetwork keys
        withdrawalCredentials) cache = .ok result cache' →
      ∃ wc fv, keyValidator.bufferFromHexString withdrawalCredentials = .ok wc ∧
        forkVersion getNetwork = .ok fv ∧
        result.Perm (keys.filter fun key => !isValid key.key key.depositSignature wc fv)) ∧
    ((∀ submitted, ∃ validated, keyValidator.validateKeys submitted = .ok validated) →
      ∀ wc fv, keyValidator.bufferFromHexString withdrawalCredentials = .ok wc →
        forkVersion getNetwork = .ok fv →
        ∃ result cache', EStateM.run (getInvalidKeys (underTexts textCache) keyValidator getNetwork
          keys withdrawalCredentials) cache = .ok result cache') := by
  have hsound := h.sound hvalid
  refine ⟨fun result cache' hrun => ?_, fun hvalidator wc fv hwc hfv =>
    getInvalidKeys_returns hwc hfv hvalidator hsound keys⟩
  obtain ⟨wc, fv, hwc, hfv, hperm⟩ :=
    (getInvalidKeys_spec getNetwork keys withdrawalCredentials hsound).2 result cache' hrun
  subst hvalid
  exact ⟨wc, fv, hwc, hfv, hperm⟩

/-! ## Two calls -/

/-- Accepts the signature of a key for credentials of the first type. -/
def firstTypeValidator : KeyValidator where
  bufferFromHexString wc := if wc = some "0x0100" then .ok [0x01, 0x00]
    else if wc = some "0x0200" then .ok [0x02, 0x00] else .error "TypeError"
  isValid _ depositSignature wc _ := depositSignature = "0x51" ∧ wc = [0x01, 0x00]
  validateKeys keys := .ok (keys.map fun data =>
    (data, decide (data.depositSignature = "0x51" ∧ data.withdrawalCredentials = [0x01, 0x00])))
  validateKeys_perm keys validated h := by
    cases h
    exact List.Perm.refl _

/-- A key with its signature, the same key with another one, and a copy of the first. -/
def repeatedKeys : List RegistryKey :=
  [⟨"0xaa", "0x51", 0, false, 0, "0x0a", true⟩, ⟨"0xaa", "0x52", 0, false, 1, "0x0a", true⟩,
    ⟨"0xaa", "0x51", 3, true, 0, "0x0b", false⟩]

/-- The cache after a call for credentials of the first type. -/
def calledOnce : (underTexts ForgetfulCache.lru).State :=
  Service.after (EStateM.run (getInvalidKeys (underTexts ForgetfulCache.lru) firstTypeValidator (.ok 1)
    repeatedKeys (some "0x0100")) ((underTexts ForgetfulCache.lru).create depositDataLruCacheSize))

/-- For credentials of the second type, all three are rejected. -/
theorem getInvalidKeys_rejected_sample : ∃ result cache',
    EStateM.run (getInvalidKeys (underTexts ForgetfulCache.lru) firstTypeValidator (.ok 1) repeatedKeys
      (some "0x0200")) calledOnce = .ok result cache' ∧ result.Perm repeatedKeys := by
  have hcalled : CalledBefore (underTexts ForgetfulCache.lru) firstTypeValidator.isValid calledOnce :=
    .getInvalidKeys firstTypeValidator rfl (.ok 1) repeatedKeys (some "0x0100") .create
  obtain ⟨hrejected, hreturns⟩ :=
    getInvalidKeys_rejected hcalled rfl (.ok 1) repeatedKeys (some "0x0200")
  obtain ⟨result, cache', hrun⟩ := hreturns (fun submitted => ⟨_, rfl⟩) [0x02, 0x00]
    [0x00, 0x00, 0x00, 0x00] rfl rfl
  refine ⟨result, cache', hrun, ?_⟩
  obtain ⟨wc, fv, hwc, hfv, hperm⟩ := hrejected result cache' hrun
  obtain rfl : [0x02, 0x00] = wc := Except.ok.inj hwc
  exact hperm

end KeysValidation

end CouncilDaemon
