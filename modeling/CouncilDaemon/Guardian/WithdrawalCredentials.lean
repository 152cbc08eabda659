import CouncilDaemon.Deposits.Records
import CouncilDaemon.Guardian.Interfaces
import CouncilDaemon.Lib.InsertionMap

/-!
# Withdrawal credentials of used keys

A used key was deposited once. The guard looks at the earliest valid deposit of its pubkey: with
withdrawal credentials that are nobody's in the protocol it was a theft (`checkHistoricalFrontRun`),
with those of another module it was a wrong type (`checkWrongWCType`).

The expected credentials of a pubkey are those of the last used record that has it
(`get?_getUsedKeyExpectedWCs`). A pubkey used in several modules is judged for one of them only, so
the verdicts are what they should be for every order of the keys exactly when a flagged record never
hides behind another used record of its pubkey (`verdicts_iff`).
-/

namespace CouncilDaemon

/-! ## Legacy credentials -/

structure LegacyWithdrawalCredential where
  wc : String
  validUntilBlock : ℕ

/-- `LEGACY_WITHDRAWAL_CREDENTIALS`, by chain and staking module address. -/
def legacyWithdrawalCredentials : List (ℕ × List (String × List LegacyWithdrawalCredential)) :=
  [(1, [("0x55032650b14df07b85bf18a3a3ec8e0af2e028d5",
    [⟨"0x009690e5d4472c7c0dbdf490425d89862535d2a52fb686333f3a0a9ff5d2125e", 25444424⟩])])]

def getLegacyModuleWCs (chainId : ℕ) (moduleAddress : String) : List LegacyWithdrawalCredential :=
  ((legacyWithdrawalCredentials.lookup chainId).bind (·.lookup moduleAddress.toLower)).getD []

namespace StakingModuleGuard

/-! ## The source -/

structure UsedKeyExpectedWC where
  moduleAddress : String
  wc : String

def isFirstEventEarlier (firstEvent secondEvent : VerifiedDepositEvent) : Bool :=
  if firstEvent.blockNumber = secondEvent.blockNumber then firstEvent.logIndex < secondEvent.logIndex
  else firstEvent.blockNumber < secondEvent.blockNumber

/-- The step of the loop of `getUsedKeyExpectedWCs`; a missing address is `undefined`, which is as
falsy as an empty string. -/
def expectedWCStep (moduleAddressToWC : InsertionMap String String)
    (usedKeyExpectedWCs : InsertionMap String UsedKeyExpectedWC) (key : RegistryKey) :
    Except String (InsertionMap String UsedKeyExpectedWC) :=
  if key.used then
    let expectedWC := (moduleAddressToWC.get? key.moduleAddress).getD ""
    if expectedWC = "" then .error "Unexpected module address"
    else .ok (usedKeyExpectedWCs.set key.key ⟨key.moduleAddress, expectedWC⟩)
  else .ok usedKeyExpectedWCs

def getUsedKeyExpectedWCs (lidoKeys : List RegistryKey)
    (moduleAddressToWC : InsertionMap String String) :
    Except String (InsertionMap String UsedKeyExpectedWC) :=
  lidoKeys.foldlM (expectedWCStep moduleAddressToWC) InsertionMap.empty

/-- The step of the loop of `getEarliestDeposits`. -/
def earliestDepositStep (usedKeyExpectedWCs : InsertionMap String UsedKeyExpectedWC)
    (earliestDeposits : InsertionMap String VerifiedDepositEvent) (event : VerifiedDepositEvent) :
    InsertionMap String VerifiedDepositEvent :=
  if !event.valid then earliestDeposits
  else if (usedKeyExpectedWCs.get? event.pubkey).isNone then earliestDeposits
  else if (earliestDeposits.get? event.pubkey).elim true (isFirstEventEarlier event) then
    earliestDeposits.set event.pubkey event
  else earliestDeposits

def getEarliestDeposits (depositedEvents : List VerifiedDepositEvent)
    (usedKeyExpectedWCs : InsertionMap String UsedKeyExpectedWC) :
    InsertionMap String VerifiedDepositEvent :=
  depositedEvents.foldl (earliestDepositStep usedKeyExpectedWCs) InsertionMap.empty

def hasAcceptableWC (chainId : ℕ) (event : VerifiedDepositEvent) (expectedWC : UsedKeyExpectedWC) :
    Bool :=
  if event.wc = expectedWC.wc then true
  else (getLegacyModuleWCs chainId expectedWC.moduleAddress).any fun legacyWC =>
    legacyWC.wc.toLower = event.wc.toLower ∧ event.blockNumber ≤ legacyWC.validUntilBlock

/-- What the two checks share: whether the earliest deposit of some used pubkey has credentials that
are not acceptable and that `isSuspect`, given the ones of the modules, holds of. -/
def hasSuspectDeposit (isSuspect : (lidoWCs : List String) → (wc : String) → Bool) (chainId : ℕ)
    (depositedEvents : List VerifiedDepositEvent) (lidoKeys : List RegistryKey)
    (moduleAddressToWC : InsertionMap String String) : Except String Bool := do
  let usedKeyExpectedWCs ← getUsedKeyExpectedWCs lidoKeys moduleAddressToWC
  let earliestDeposits := getEarliestDeposits depositedEvents usedKeyExpectedWCs
  let lidoWCs := moduleAddressToWC.entries.map Prod.snd
  let suspectKeys := earliestDeposits.entries.filter fun entry =>
    (usedKeyExpectedWCs.get? entry.1).elim false fun expectedWC =>
      !hasAcceptableWC chainId entry.2 expectedWC && isSuspect lidoWCs entry.2.wc
  return suspectKeys.length > 0

def checkHistoricalFrontRun (chainId : ℕ) (depositedEvents : List VerifiedDepositEvent)
    (lidoKeys : List RegistryKey) (moduleAddressToWC : InsertionMap String String) :
    Except String Bool :=
  hasSuspectDeposit (fun lidoWCs wc => wc ∉ lidoWCs) chainId depositedEvents lidoKeys
    moduleAddressToWC

def checkWrongWCType (chainId : ℕ) (depositedEvents : List VerifiedDepositEvent)
    (lidoKeys : List RegistryKey) (moduleAddressToWC : InsertionMap String String) :
    Except String Bool :=
  hasSuspectDeposit (fun lidoWCs wc => wc ∈ lidoWCs) chainId depositedEvents lidoKeys
    moduleAddressToWC

/-! ## What the verdicts should be -/

/-- `event` is the earliest valid deposit of the pubkey. -/
def IsEarliestDeposit (events : List VerifiedDepositEvent) (pubkey : String)
    (event : VerifiedDepositEvent) : Prop :=
  (event ∈ events ∧ event.valid = true ∧ event.pubkey = pubkey) ∧
  ∀ other ∈ events, other.valid = true → other.pubkey = pubkey →
    event.blockNumber < other.blockNumber ∨
      event.blockNumber = other.blockNumber ∧ event.logIndex ≤ other.logIndex

/-- The credentials of the deposit are those of the module, or legacy ones of the module not past
their cutoff block. -/
def Acceptable (chainId : ℕ) (moduleAddressToWC : InsertionMap String String)
    (moduleAddress : String) (event : VerifiedDepositEvent) : Prop :=
  moduleAddressToWC.get? moduleAddress = some event.wc ∨
  ∃ legacyWC ∈ getLegacyModuleWCs chainId moduleAddress,
    legacyWC.wc.toLower = event.wc.toLower ∧ event.blockNumber ≤ legacyWC.validUntilBlock

/-- Some module has the credentials. -/
def IsLidoWC (moduleAddressToWC : InsertionMap String String) (wc : String) : Prop :=
  ∃ moduleAddress, moduleAddressToWC.get? moduleAddress = some wc

/-- The record's earliest deposit has credentials that are not acceptable and that `suspect` holds
of. -/
def Suspect (suspect : String → Prop) (chainId : ℕ) (moduleAddressToWC : InsertionMap String String)
    (events : List VerifiedDepositEvent) (key : RegistryKey) : Prop :=
  ∃ event, IsEarliestDeposit events key.key event ∧
    ¬ Acceptable chainId moduleAddressToWC key.moduleAddress event ∧ suspect event.wc

/-- The credentials are of no module. -/
def FrontRun (chainId : ℕ) (moduleAddressToWC : InsertionMap String String) :
    List VerifiedDepositEvent → RegistryKey → Prop :=
  Suspect (fun wc => ¬ IsLidoWC moduleAddressToWC wc) chainId moduleAddressToWC

/-- The credentials are of some module, but not acceptable for the record's. -/
def WrongWCType (chainId : ℕ) (moduleAddressToWC : InsertionMap String String) :
    List VerifiedDepositEvent → RegistryKey → Prop :=
  Suspect (IsLidoWC moduleAddressToWC) chainId moduleAddressToWC

/-- Some used record is flagged. -/
def SomeFlagged (flagged : RegistryKey → Prop) (keys : List RegistryKey) : Prop :=
  ∃ key ∈ keys, key.used = true ∧ flagged key

/-- Both verdicts are as they should be and depend on no order. -/
structure VerdictsHold (chainId : ℕ) (moduleAddressToWC : InsertionMap String String)
    (events : List VerifiedDepositEvent) (keys : List RegistryKey) : Prop where
  frontRun : checkHistoricalFrontRun chainId events keys moduleAddressToWC = .ok true ↔
    SomeFlagged (FrontRun chainId moduleAddressToWC events) keys
  wrongType : checkWrongWCType chainId events keys moduleAddressToWC = .ok true ↔
    SomeFlagged (WrongWCType chainId moduleAddressToWC events) keys
  permuted : ∀ events' keys', events'.Perm events → keys'.Perm keys →
    checkHistoricalFrontRun chainId events' keys' moduleAddressToWC =
      checkHistoricalFrontRun chainId events keys moduleAddressToWC ∧
    checkWrongWCType chainId events' keys' moduleAddressToWC =
      checkWrongWCType chainId events keys moduleAddressToWC

/-! ## Expected credentials -/

/-- Every used record is of a module with credentials. -/
def HasExpectedWCs (moduleAddressToWC : InsertionMap String String) (keys : List RegistryKey) :
    Prop :=
  ∀ key ∈ keys, key.used = true →
    ∃ wc, moduleAddressToWC.get? key.moduleAddress = some wc ∧ wc ≠ ""

/-- The last used record of a pubkey. -/
def lastUsed (keys : List RegistryKey) (pubkey : String) : Option RegistryKey :=
  (keys.filter fun key => key.used && key.key = pubkey).getLast?

theorem mem_of_lastUsed {keys : List RegistryKey} {pubkey : String} {key : RegistryKey}
    (h : lastUsed keys pubkey = some key) : key ∈ keys ∧ key.used = true ∧ key.key = pubkey := by
  have hmem := List.mem_of_getLast? h
  rw [List.mem_filter, Bool.and_eq_true, decide_eq_true_eq] at hmem
  exact hmem

theorem lastUsed_of_mem {keys : List RegistryKey} {key : RegistryKey} (hkey : key ∈ keys)
    (hused : key.used = true) : ∃ last, lastUsed keys key.key = some last := by
  cases hlast : lastUsed keys key.key with
  | some last => exact ⟨last, rfl⟩
  | none =>
    have hnil := List.getLast?_eq_none_iff.1 hlast
    have hmem : key ∈ keys.filter fun k => k.used && k.key = key.key :=
      List.mem_filter.2 ⟨hkey, by simp [hused]⟩
    rw [hnil] at hmem
    cases hmem

theorem lastUsed_append (front rest : List RegistryKey) (pubkey : String) :
    lastUsed (front ++ rest) pubkey = (lastUsed rest pubkey).or (lastUsed front pubkey) := by
  rw [lastUsed, List.filter_append, List.getLast?_append]
  rfl

theorem lastUsed_singleton (key : RegistryKey) (pubkey : String) :
    lastUsed [key] pubkey = if key.used = true ∧ key.key = pubkey then some key else none := by
  rw [lastUsed, List.filter_singleton]
  by_cases h : key.used = true ∧ key.key = pubkey
  · simp [h]
  · rw [if_neg h]
    have hfalse : (key.used && decide (key.key = pubkey)) = false := by
      rw [Bool.eq_false_iff, Ne, Bool.and_eq_true, decide_eq_true_eq]
      exact h
    rw [hfalse]
    rfl

/-- The credentials a record is held to. -/
def expectedWC (moduleAddressToWC : InsertionMap String String) (key : RegistryKey) :
    UsedKeyExpectedWC :=
  ⟨key.moduleAddress, (moduleAddressToWC.get? key.moduleAddress).getD ""⟩

/-- The map has, of each pubkey, what is expected of its last used record. -/
theorem get?_getUsedKeyExpectedWCs {moduleAddressToWC : InsertionMap String String} :
    ∀ {keys : List RegistryKey}, HasExpectedWCs moduleAddressToWC keys →
    ∃ m, getUsedKeyExpectedWCs keys moduleAddressToWC = .ok m ∧
      ∀ pubkey, m.get? pubkey = (lastUsed keys pubkey).map (expectedWC moduleAddressToWC) := by
  intro keys
  induction keys using List.reverseRecOn with
  | nil =>
    intro _
    exact ⟨InsertionMap.empty, rfl, fun _ => rfl⟩
  | append_singleton keys key ih =>
    intro h
    obtain ⟨m, hm, hget⟩ := ih fun k hk => h k (List.mem_append_left _ hk)
    have hstep : getUsedKeyExpectedWCs (keys ++ [key]) moduleAddressToWC =
        expectedWCStep moduleAddressToWC m key := by
      rw [getUsedKeyExpectedWCs, List.foldlM_append]
      rw [getUsedKeyExpectedWCs] at hm
      rw [hm]
      show [key].foldlM (expectedWCStep moduleAddressToWC) m = _
      rw [List.foldlM_cons]
      cases expectedWCStep moduleAddressToWC m key with
      | error message => rfl
      | ok next => rfl
    by_cases hused : key.used = true
    · obtain ⟨wc, hwc, hne⟩ := h key (List.mem_append_right _ (List.mem_singleton_self key)) hused
      refine ⟨m.set key.key (expectedWC moduleAddressToWC key), ?_, ?_⟩
      · rw [hstep]
        simp only [expectedWCStep, expectedWC, hused, hwc, Option.getD_some, hne, if_true, if_false]
      · intro pubkey
        rw [InsertionMap.get?_set, lastUsed_append, lastUsed_singleton, hget]
        by_cases hkey : key.key = pubkey
        · simp [hkey, hused]
        · simp [hkey]
    · refine ⟨m, ?_, ?_⟩
      · rw [hstep]
        simp only [expectedWCStep, hused]
        rfl
      · intro pubkey
        rw [lastUsed_append, lastUsed_singleton, hget]
        simp [hused]

/-! ## Earliest deposits -/

theorem isFirstEventEarlier_iff {a b : VerifiedDepositEvent} :
    isFirstEventEarlier a b = true ↔
      a.blockNumber < b.blockNumber ∨ a.blockNumber = b.blockNumber ∧ a.logIndex < b.logIndex := by
  rw [isFirstEventEarlier]
  split_ifs with h
  · simp [h]
  · simp [h]

/-- What the loop of `getEarliestDeposits` has found in the events passed. -/
structure EarliestIn (usedKeyExpectedWCs : InsertionMap String UsedKeyExpectedWC)
    (passed : List VerifiedDepositEvent) (deposits : InsertionMap String VerifiedDepositEvent) :
    Prop where
  sound : ∀ pubkey event, deposits.get? pubkey = some event →
    (usedKeyExpectedWCs.get? pubkey).isSome ∧ IsEarliestDeposit passed pubkey event
  complete : ∀ event ∈ passed, event.valid = true →
    (usedKeyExpectedWCs.get? event.pubkey).isSome → (deposits.get? event.pubkey).isSome

section Earliest

variable {usedKeyExpectedWCs : InsertionMap String UsedKeyExpectedWC}
  {passed : List VerifiedDepositEvent} {deposits : InsertionMap String VerifiedDepositEvent}
  {event : VerifiedDepositEvent}

/-- An event that is no later deposit of the pubkey leaves the earliest one. -/
theorem IsEarliestDeposit.append {pubkey : String} {first : VerifiedDepositEvent}
    (h : IsEarliestDeposit passed pubkey first)
    (hevent : event.valid = true → event.pubkey = pubkey → first.blockNumber < event.blockNumber ∨
      first.blockNumber = event.blockNumber ∧ first.logIndex ≤ event.logIndex) :
    IsEarliestDeposit (passed ++ [event]) pubkey first := by
  obtain ⟨⟨hmem, hfirst⟩, hall⟩ := h
  refine ⟨⟨List.mem_append_left _ hmem, hfirst⟩, ?_⟩
  intro other hother hvalid hpubkey
  rcases List.mem_append.1 hother with hother | hother
  · exact hall other hother hvalid hpubkey
  · obtain rfl := List.mem_singleton.1 hother
    exact hevent hvalid hpubkey

/-- An event that the loop passes over. -/
theorem EarliestIn.skip (h : EarliestIn usedKeyExpectedWCs passed deposits)
    (hsound : ∀ first, deposits.get? event.pubkey = some first → event.valid = true →
      first.blockNumber < event.blockNumber ∨
        first.blockNumber = event.blockNumber ∧ first.logIndex ≤ event.logIndex)
    (hcomplete : event.valid = true → (usedKeyExpectedWCs.get? event.pubkey).isSome →
      (deposits.get? event.pubkey).isSome) :
    EarliestIn usedKeyExpectedWCs (passed ++ [event]) deposits := by
  refine ⟨?_, ?_⟩
  · intro pubkey first hget
    obtain ⟨hused, hfirst⟩ := h.sound pubkey first hget
    refine ⟨hused, hfirst.append ?_⟩
    rintro hvalid rfl
    exact hsound first hget hvalid
  · intro other hother hvalid hused
    rcases List.mem_append.1 hother with hother | hother
    · exact h.complete other hother hvalid hused
    · obtain rfl := List.mem_singleton.1 hother
      exact hcomplete hvalid hused

/-- An event that the loop takes. -/
theorem EarliestIn.take (h : EarliestIn usedKeyExpectedWCs passed deposits)
    (hvalid : event.valid = true) (hused : (usedKeyExpectedWCs.get? event.pubkey).isSome)
    (hearlier : ∀ first, deposits.get? event.pubkey = some first →
      isFirstEventEarlier event first = true) :
    EarliestIn usedKeyExpectedWCs (passed ++ [event]) (deposits.set event.pubkey event) := by
  refine ⟨?_, ?_⟩
  · intro pubkey first hget
    rw [InsertionMap.get?_set] at hget
    by_cases hpubkey : event.pubkey = pubkey
    · rw [if_pos hpubkey] at hget
      obtain rfl := Option.some.inj hget
      obtain rfl := hpubkey
      refine ⟨hused, ⟨List.mem_append_right _ (List.mem_singleton_self _), hvalid, rfl⟩, ?_⟩
      intro other hother hvalid' hpubkey'
      rcases List.mem_append.1 hother with hother | hother
      · -- the deposit found so far is no later than `other`, and `event` is before it
        obtain ⟨found, hfound⟩ := Option.isSome_iff_exists.1
          (h.complete other hother hvalid' (hpubkey' ▸ hused))
        rw [hpubkey'] at hfound
        have hle := (h.sound _ _ hfound).2.2 other hother hvalid' hpubkey'
        have hlt := isFirstEventEarlier_iff.1 (hearlier found hfound)
        omega
      · obtain rfl := List.mem_singleton.1 hother
        exact Or.inr ⟨rfl, le_refl _⟩
    · rw [if_neg hpubkey] at hget
      obtain ⟨hused', hfirst⟩ := h.sound pubkey first hget
      exact ⟨hused', hfirst.append fun _ heq => absurd heq hpubkey⟩
  · intro other hother hvalid' hused'
    rw [InsertionMap.get?_set]
    split_ifs with hpubkey
    · rfl
    · rcases List.mem_append.1 hother with hother | hother
      · exact h.complete other hother hvalid' hused'
      · obtain rfl := List.mem_singleton.1 hother
        exact absurd rfl hpubkey

theorem EarliestIn.step (h : EarliestIn usedKeyExpectedWCs passed deposits)
    (event : VerifiedDepositEvent) :
    EarliestIn usedKeyExpectedWCs (passed ++ [event])
      (earliestDepositStep usedKeyExpectedWCs deposits event) := by
  unfold earliestDepositStep
  split_ifs with hinvalid hunused hearlier
  · rw [Bool.not_eq_true'] at hinvalid
    apply h.skip
    · intro _ _ hvalid
      rw [hinvalid] at hvalid
      cases hvalid
    · intro hvalid
      rw [hinvalid] at hvalid
      cases hvalid
  · have hnone := Option.isNone_iff_eq_none.1 hunused
    apply h.skip
    · intro first hget
      have hused := (h.sound _ _ hget).1
      rw [hnone] at hused
      cases hused
    · intro _ hused
      rw [hnone] at hused
      cases hused
  · have hvalid : event.valid = true := by simpa using hinvalid
    apply h.take hvalid
    · rw [Option.isNone_iff_eq_none] at hunused
      exact Option.isSome_iff_ne_none.2 hunused
    · intro first hget
      rw [hget] at hearlier
      exact hearlier
  · obtain ⟨first, hfirst⟩ : ∃ first, deposits.get? event.pubkey = some first := by
      cases hget : deposits.get? event.pubkey with
      | none =>
        rw [hget] at hearlier
        exact absurd rfl hearlier
      | some first => exact ⟨first, rfl⟩
    rw [hfirst] at hearlier
    have hnot : ¬ isFirstEventEarlier event first = true := hearlier
    apply h.skip
    · intro first' hget _
      obtain rfl := Option.some.inj (hfirst.symm.trans hget)
      rw [isFirstEventEarlier_iff] at hnot
      omega
    · intro _ _
      rw [hfirst]
      rfl

theorem EarliestIn.foldl (events : List VerifiedDepositEvent) : ∀ {passed deposits},
    EarliestIn usedKeyExpectedWCs passed deposits →
    EarliestIn usedKeyExpectedWCs (passed ++ events)
      (events.foldl (earliestDepositStep usedKeyExpectedWCs) deposits) := by
  induction events with
  | nil => intro passed deposits h; simpa using h
  | cons event events ih =>
    intro passed deposits h
    have hnext := ih (h.step event)
    rwa [List.append_assoc, List.singleton_append] at hnext

theorem getEarliestDeposits_spec (usedKeyExpectedWCs : InsertionMap String UsedKeyExpectedWC)
    (events : List VerifiedDepositEvent) :
    EarliestIn usedKeyExpectedWCs events (getEarliestDeposits events usedKeyExpectedWCs) := by
  have hstart : EarliestIn usedKeyExpectedWCs [] InsertionMap.empty :=
    ⟨fun _ _ h => (Option.some_ne_none _ h.symm).elim, fun _ h => (List.not_mem_nil h).elim⟩
  exact hstart.foldl events

/-- Deposits have their places in the chain. -/
def DistinctPlaces (events : List VerifiedDepositEvent) : Prop :=
  (events.map fun event => (event.blockNumber, event.logIndex)).Nodup

theorem IsEarliestDeposit.unique {events : List VerifiedDepositEvent}
    (hdistinct : DistinctPlaces events) {pubkey : String} {a b : VerifiedDepositEvent}
    (ha : IsEarliestDeposit events pubkey a) (hb : IsEarliestDeposit events pubkey b) : a = b := by
  have hab := ha.2 b hb.1.1 hb.1.2.1 hb.1.2.2
  have hba := hb.2 a ha.1.1 ha.1.2.1 ha.1.2.2
  have hplace : (a.blockNumber, a.logIndex) = (b.blockNumber, b.logIndex) := by
    rw [Prod.mk.injEq]
    omega
  exact List.inj_on_of_nodup_map hdistinct ha.1.1 hb.1.1 hplace

/-- The map has the earliest valid deposit of each used pubkey. -/
theorem get?_getEarliestDeposits {events : List VerifiedDepositEvent}
    (hdistinct : DistinctPlaces events) {pubkey : String}
    (hused : (usedKeyExpectedWCs.get? pubkey).isSome) :
    (getEarliestDeposits events usedKeyExpectedWCs).get? pubkey = some event ↔
      IsEarliestDeposit events pubkey event := by
  have hspec := getEarliestDeposits_spec usedKeyExpectedWCs events
  constructor
  · intro hget
    exact (hspec.sound _ _ hget).2
  · intro hevent
    obtain ⟨⟨hmem, hvalid, rfl⟩, _⟩ := id hevent
    obtain ⟨found, hfound⟩ := Option.isSome_iff_exists.1 (hspec.complete event hmem hvalid hused)
    rw [hfound, (hspec.sound _ _ hfound).2.unique hdistinct hevent]

end Earliest

/-! ## The verdicts -/

section Verdicts

variable {chainId : ℕ} {moduleAddressToWC : InsertionMap String String}
  {events : List VerifiedDepositEvent} {keys : List RegistryKey}

theorem isLidoWC_iff {wc : String} :
    IsLidoWC moduleAddressToWC wc ↔ wc ∈ moduleAddressToWC.entries.map Prod.snd := by
  constructor
  · rintro ⟨moduleAddress, h⟩
    exact List.mem_map.2 ⟨(moduleAddress, wc), (InsertionMap.mem_entries_iff _).2 h, rfl⟩
  · intro h
    obtain ⟨⟨moduleAddress, _⟩, hmem, rfl⟩ := List.mem_map.1 h
    exact ⟨moduleAddress, (InsertionMap.mem_entries_iff _).1 hmem⟩

theorem hasAcceptableWC_iff {event : VerifiedDepositEvent} {key : RegistryKey} {wc : String}
    (hwc : moduleAddressToWC.get? key.moduleAddress = some wc) :
    hasAcceptableWC chainId event (expectedWC moduleAddressToWC key) = true ↔
      Acceptable chainId moduleAddressToWC key.moduleAddress event := by
  rw [hasAcceptableWC, Acceptable, expectedWC, hwc, Option.getD_some, Option.some.injEq]
  by_cases h : event.wc = wc
  · simp [h]
  · have hne : ¬ wc = event.wc := fun heq => h heq.symm
    simp [h, hne, List.any_eq_true]

/-- A check returns, and says whether the last used record of some pubkey is suspect. -/
theorem hasSuspectDeposit_spec {isSuspect : List String → String → Bool} {suspect : String → Prop}
    (hsuspect : ∀ wc, isSuspect (moduleAddressToWC.entries.map Prod.snd) wc = true ↔ suspect wc)
    (hdistinct : DistinctPlaces events) (hexpected : HasExpectedWCs moduleAddressToWC keys) :
    ∃ verdict, hasSuspectDeposit isSuspect chainId events keys moduleAddressToWC = .ok verdict ∧
      (verdict = true ↔ ∃ key, lastUsed keys key.key = some key ∧
        Suspect suspect chainId moduleAddressToWC events key) := by
  obtain ⟨m, hm, hget⟩ := get?_getUsedKeyExpectedWCs hexpected
  refine ⟨_, by rw [hasSuspectDeposit, hm]; rfl, ?_⟩
  rw [decide_eq_true_eq, gt_iff_lt, List.length_pos_iff_exists_mem]
  constructor
  · rintro ⟨⟨pubkey, event⟩, hentry⟩
    obtain ⟨hentry, hflag⟩ := List.mem_filter.1 hentry
    rw [InsertionMap.mem_entries_iff] at hentry
    obtain ⟨hused, hevent⟩ := (getEarliestDeposits_spec m events).sound _ _ hentry
    obtain ⟨key, hlast⟩ : ∃ key, lastUsed keys pubkey = some key := by
      rw [hget] at hused
      exact Option.isSome_iff_exists.1 (by simpa using hused)
    obtain ⟨hkey, hkeyUsed, rfl⟩ := mem_of_lastUsed hlast
    obtain ⟨wc, hwc, _⟩ := hexpected key hkey hkeyUsed
    simp only [hget, hlast, Option.map_some, Option.elim_some, Bool.and_eq_true,
      Bool.not_eq_true'] at hflag
    refine ⟨key, hlast, event, hevent, ?_, (hsuspect _).1 hflag.2⟩
    rw [← hasAcceptableWC_iff hwc, hflag.1]
    exact Bool.false_ne_true
  · rintro ⟨key, hlast, event, hevent, hacceptable, hwcSuspect⟩
    obtain ⟨hkey, hkeyUsed, _⟩ := mem_of_lastUsed hlast
    obtain ⟨wc, hwc, _⟩ := hexpected key hkey hkeyUsed
    have hused : (m.get? key.key).isSome := by rw [hget, hlast]; rfl
    refine ⟨(key.key, event), List.mem_filter.2 ⟨?_, ?_⟩⟩
    · rw [InsertionMap.mem_entries_iff]
      exact (get?_getEarliestDeposits hdistinct hused).2 hevent
    · rw [← hasAcceptableWC_iff hwc, Bool.not_eq_true] at hacceptable
      simp only [hget, hlast, Option.map_some, Option.elim_some, hacceptable,
        (hsuspect event.wc).2 hwcSuspect, Bool.not_false, Bool.and_self]

theorem checkHistoricalFrontRun_spec (chainId : ℕ) (hdistinct : DistinctPlaces events)
    (hexpected : HasExpectedWCs moduleAddressToWC keys) :
    ∃ verdict, checkHistoricalFrontRun chainId events keys moduleAddressToWC = .ok verdict ∧
      (verdict = true ↔ ∃ key, lastUsed keys key.key = some key ∧
        FrontRun chainId moduleAddressToWC events key) := by
  apply hasSuspectDeposit_spec _ hdistinct hexpected
  intro wc
  rw [decide_eq_true_eq, isLidoWC_iff]

theorem checkWrongWCType_spec (chainId : ℕ) (hdistinct : DistinctPlaces events)
    (hexpected : HasExpectedWCs moduleAddressToWC keys) :
    ∃ verdict, checkWrongWCType chainId events keys moduleAddressToWC = .ok verdict ∧
      (verdict = true ↔ ∃ key, lastUsed keys key.key = some key ∧
        WrongWCType chainId moduleAddressToWC events key) := by
  apply hasSuspectDeposit_spec _ hdistinct hexpected
  intro wc
  rw [decide_eq_true_eq, isLidoWC_iff]

end Verdicts

/-! ## Hidden records -/

/-- The last used record of some pubkey is flagged. -/
def LastFlagged (flagged : RegistryKey → Prop) (keys : List RegistryKey) : Prop :=
  ∃ key, lastUsed keys key.key = some key ∧ flagged key

/-- When some used record is flagged, all used records of some pubkey are: in no order is the last
used record of each pubkey one that is not flagged. -/
def NotHidden (flagged : RegistryKey → Prop) (keys : List RegistryKey) : Prop :=
  SomeFlagged flagged keys →
    ∃ key ∈ keys, key.used = true ∧ ∀ other ∈ keys, other.used = true → other.key = key.key →
      flagged other

section Hidden

variable {flagged : RegistryKey → Prop} {keys keys' : List RegistryKey}

theorem SomeFlagged.perm (hperm : keys'.Perm keys) :
    SomeFlagged flagged keys' ↔ SomeFlagged flagged keys := by
  simp only [SomeFlagged, hperm.mem_iff]

theorem LastFlagged.some (h : LastFlagged flagged keys) : SomeFlagged flagged keys := by
  obtain ⟨key, hlast, hflagged⟩ := h
  obtain ⟨hkey, hused, _⟩ := mem_of_lastUsed hlast
  exact ⟨key, hkey, hused, hflagged⟩

/-- A pubkey with flagged used records only is found in every order. -/
theorem NotHidden.lastFlagged (h : NotHidden flagged keys) (hperm : keys'.Perm keys) :
    LastFlagged flagged keys' ↔ SomeFlagged flagged keys := by
  constructor
  · intro hlast
    exact (SomeFlagged.perm hperm).1 hlast.some
  · intro hsome
    obtain ⟨key, hkey, hused, hall⟩ := h hsome
    obtain ⟨last, hlast⟩ := lastUsed_of_mem (hperm.mem_iff.2 hkey) hused
    obtain ⟨hmem, hlastUsed, hlastKey⟩ := mem_of_lastUsed hlast
    exact ⟨last, hlastKey ▸ hlast, hall last (hperm.mem_iff.1 hmem) hlastUsed hlastKey⟩

/-- With the flagged records in front, a hidden one is not found. -/
theorem notHidden_of_forall_perm
    (h : ∀ keys', keys'.Perm keys → (LastFlagged flagged keys' ↔ SomeFlagged flagged keys)) :
    NotHidden flagged keys := by
  classical
  intro hsome
  obtain ⟨key, hlast, hflagged⟩ := (h _ (List.filter_append_perm (fun key => flagged key) keys)).2 hsome
  obtain ⟨hmem, hused, _⟩ := mem_of_lastUsed hlast
  have hkey := (List.filter_append_perm (fun key => flagged key) keys).mem_iff.1 hmem
  refine ⟨key, hkey, hused, ?_⟩
  intro other hother hotherUsed hotherKey
  by_contra hnot
  have hrest : other ∈ keys.filter fun key => !decide (flagged key) :=
    List.mem_filter.2 ⟨hother, by simp [hnot]⟩
  obtain ⟨last, hlastRest⟩ := lastUsed_of_mem hrest hotherUsed
  rw [hotherKey] at hlastRest
  rw [lastUsed_append, hlastRest, Option.some_or] at hlast
  obtain rfl := Option.some.inj hlast
  have hfilter := (List.mem_filter.1 (mem_of_lastUsed hlastRest).1).2
  simp [hflagged] at hfilter

end Hidden

section Permuted

variable {chainId : ℕ} {moduleAddressToWC : InsertionMap String String}
  {events events' : List VerifiedDepositEvent} {keys keys' : List RegistryKey}

theorem HasExpectedWCs.perm (h : HasExpectedWCs moduleAddressToWC keys)
    (hperm : keys'.Perm keys) : HasExpectedWCs moduleAddressToWC keys' :=
  fun key hkey => h key (hperm.mem_iff.1 hkey)

theorem DistinctPlaces.perm (h : DistinctPlaces events) (hperm : events'.Perm events) :
    DistinctPlaces events' :=
  ((hperm.map _).nodup_iff).2 h

theorem suspect_perm {suspect : String → Prop} (hperm : events'.Perm events) :
    Suspect suspect chainId moduleAddressToWC events' =
      Suspect suspect chainId moduleAddressToWC events := by
  funext key
  simp only [Suspect, IsEarliestDeposit, hperm.mem_iff]

/-- A verdict that says whether the last used record of some pubkey is flagged depends on no order
and says whether some used record is flagged, exactly when none is hidden. -/
theorem verdict_iff_notHidden (events : List VerifiedDepositEvent) (keys : List RegistryKey)
    {check : List VerifiedDepositEvent → List RegistryKey → Except String Bool}
    {flagged : List VerifiedDepositEvent → RegistryKey → Prop}
    (hperm : ∀ events', events'.Perm events → flagged events' = flagged events)
    (hcheck : ∀ events' keys', events'.Perm events → keys'.Perm keys →
      ∃ verdict, check events' keys' = .ok verdict ∧
        (verdict = true ↔ LastFlagged (flagged events') keys')) :
    ((check events keys = .ok true ↔ SomeFlagged (flagged events) keys) ∧
      ∀ events' keys', events'.Perm events → keys'.Perm keys →
        check events' keys' = check events keys) ↔ NotHidden (flagged events) keys := by
  have hok : ∀ events' keys', events'.Perm events → keys'.Perm keys →
      (check events' keys' = .ok true ↔ LastFlagged (flagged events) keys') := by
    intro events' keys' hevents hkeys
    obtain ⟨verdict, hverdict, hiff⟩ := hcheck events' keys' hevents hkeys
    rw [hverdict, Except.ok.injEq, hiff, hperm events' hevents]
  constructor
  · rintro ⟨hiff, hsame⟩
    apply notHidden_of_forall_perm
    intro keys' hkeys
    rw [← hok events keys' (List.Perm.refl _) hkeys, hsame events keys' (List.Perm.refl _) hkeys, hiff]
  · intro hnot
    refine ⟨(hok _ _ (List.Perm.refl _) (List.Perm.refl _)).trans
      (hnot.lastFlagged (List.Perm.refl _)), ?_⟩
    intro events' keys' hevents hkeys
    obtain ⟨verdict, hverdict, _⟩ := hcheck events' keys' hevents hkeys
    obtain ⟨verdict₀, hverdict₀, _⟩ := hcheck events keys (List.Perm.refl _) (List.Perm.refl _)
    have heq : check events' keys' = .ok true ↔ check events keys = .ok true :=
      ((hok _ _ hevents hkeys).trans (hnot.lastFlagged hkeys)).trans
        ((hok _ _ (List.Perm.refl _) (List.Perm.refl _)).trans
          (hnot.lastFlagged (List.Perm.refl _))).symm
    rw [hverdict, hverdict₀, Except.ok.injEq, Except.ok.injEq] at heq
    rw [hverdict, hverdict₀, Bool.eq_iff_iff.2 heq]

/-- **Verdicts.** Both verdicts are as they should be and depend on no order, exactly when neither
kind of flagged record hides behind other used records of its pubkey. -/
theorem verdicts_iff {chainId : ℕ} {moduleAddressToWC : InsertionMap String String}
    {events : List VerifiedDepositEvent} {keys : List RegistryKey}
    (hdistinct : DistinctPlaces events) (hexpected : HasExpectedWCs moduleAddressToWC keys) :
    VerdictsHold chainId moduleAddressToWC events keys ↔
      NotHidden (FrontRun chainId moduleAddressToWC events) keys ∧
      NotHidden (WrongWCType chainId moduleAddressToWC events) keys := by
  have hfrontRun := verdict_iff_notHidden events keys
    (fun _ hperm => suspect_perm hperm)
    (fun events' keys' hevents hkeys => checkHistoricalFrontRun_spec chainId
      (hdistinct.perm hevents) (hexpected.perm hkeys))
  have hwrongType := verdict_iff_notHidden events keys
    (fun _ hperm => suspect_perm hperm)
    (fun events' keys' hevents hkeys => checkWrongWCType_spec chainId
      (hdistinct.perm hevents) (hexpected.perm hkeys))
  constructor
  · rintro ⟨hf, hw, hperm⟩
    exact ⟨hfrontRun.1 ⟨hf, fun _ _ he hk => (hperm _ _ he hk).1⟩,
      hwrongType.1 ⟨hw, fun _ _ he hk => (hperm _ _ he hk).2⟩⟩
  · rintro ⟨hf, hw⟩
    obtain ⟨hf, hfperm⟩ := hfrontRun.2 hf
    obtain ⟨hw, hwperm⟩ := hwrongType.2 hw
    exact ⟨hf, hw, fun _ _ he hk => ⟨hfperm _ _ he hk, hwperm _ _ he hk⟩⟩

/-- A pubkey used in one module only hides no record. -/
theorem notHidden_of_one_module {suspect : String → Prop}
    (h : ∀ a ∈ keys, ∀ b ∈ keys, a.used = true → b.used = true → a.key = b.key →
      a.moduleAddress = b.moduleAddress) :
    NotHidden (Suspect suspect chainId moduleAddressToWC events) keys := by
  rintro ⟨key, hkey, hused, hsuspect⟩
  refine ⟨key, hkey, hused, ?_⟩
  intro other hother hotherUsed hotherKey
  rw [Suspect, hotherKey, h other hother key hkey hotherUsed hused hotherKey]
  exact hsuspect

end Permuted

/-! ## Two modules -/

/-- Two modules of different types. -/
def sampleWCs : InsertionMap String String :=
  (InsertionMap.empty.set "0x0a" "0x0100").set "0x0b" "0x0200"

/-- One deposit, with the credentials of the second module. -/
def sampleDeposits : List VerifiedDepositEvent :=
  [⟨true, "0xaa", "0x0200", "32000000000", "0x51", "0x7e", 100, "0xb1", 0, "0x00", 0, []⟩]

/-- Its pubkey, used in both modules. -/
def sampleKeys : List RegistryKey :=
  [⟨"0xaa", "0x51", 0, true, 0, "0x0a", true⟩, ⟨"0xaa", "0x51", 0, true, 0, "0x0b", true⟩]

theorem sampleDeposits_distinctPlaces : DistinctPlaces sampleDeposits :=
  List.nodup_singleton _

theorem sampleKeys_hasExpectedWCs : HasExpectedWCs sampleWCs sampleKeys := by
  intro key hkey _
  simp only [sampleKeys, List.mem_cons, List.not_mem_nil, or_false] at hkey
  rcases hkey with rfl | rfl
  · exact ⟨"0x0100", rfl, by decide⟩
  · exact ⟨"0x0200", rfl, by decide⟩

theorem verdicts_iff_sample :
    VerdictsHold 560048 sampleWCs sampleDeposits sampleKeys ↔
      NotHidden (FrontRun 560048 sampleWCs sampleDeposits) sampleKeys ∧
      NotHidden (WrongWCType 560048 sampleWCs sampleDeposits) sampleKeys :=
  verdicts_iff sampleDeposits_distinctPlaces sampleKeys_hasExpectedWCs

/-- The record of the first module was deposited with the wrong type, and is not reported. -/
theorem not_verdictsHold_two_modules :
    DistinctPlaces sampleDeposits ∧ HasExpectedWCs sampleWCs sampleKeys ∧
      ¬ VerdictsHold 560048 sampleWCs sampleDeposits sampleKeys := by
  refine ⟨sampleDeposits_distinctPlaces, sampleKeys_hasExpectedWCs, ?_⟩
  intro h
  have hverdict : checkWrongWCType 560048 sampleDeposits sampleKeys sampleWCs = .ok false := by decide
  have hflagged : SomeFlagged (WrongWCType 560048 sampleWCs sampleDeposits) sampleKeys := by
    refine ⟨_, List.mem_cons_self .., rfl, _, ⟨⟨List.mem_cons_self .., rfl, rfl⟩, ?_⟩, ?_, ?_⟩
    · intro other hother _ _
      rw [List.mem_singleton.1 hother]
      exact Or.inr ⟨rfl, le_refl _⟩
    · rintro (hwc | ⟨legacyWC, hlegacy, _⟩)
      · exact absurd hwc (by decide)
      · cases hlegacy
    · exact ⟨"0x0b", rfl⟩
  rw [h.wrongType.2 hflagged] at hverdict
  cases hverdict

end StakingModuleGuard

end CouncilDaemon
