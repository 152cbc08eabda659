import CouncilDaemon.Guardian.Interfaces
import CouncilDaemon.Lib.InsertionMap
import CouncilDaemon.Lib.Separator
import CouncilDaemon.Utils.RangePromise

/-!
# Duplicated keys

Keys with the same pubkey form a group. A group of one operator keeps its key of the smallest index;
a group of several operators keeps its used keys if it has some; otherwise the `SigningKeyAdded`
events decide, and when an operator of the group has no event the group stays unresolved.

Whatever rule applies, at most one unused key of a pubkey is neither a duplicate nor unresolved
(`Sifted`, proved of one group by `sifted_processDuplicateKeyGroup` and of all keys by
`getDuplicatedKeys_sifted`).
-/

namespace CouncilDaemon

namespace Duplicates

/-! ## The source -/

structure DuplicatedKeys where
  duplicates : List RegistryKey
  unresolved : List RegistryKey
  deriving DecidableEq

/-- `BATCH_SIZE`. -/
def groupsBatchSize : ℕ := 10

def getDuplicateKeyGroups (keys : List RegistryKey) : List (String × List RegistryKey) :=
  (InsertionMap.groupBy (·.key) keys).entries.filter fun group => group.2.length > 1

def getKeyOperatorIdentifier (key : RegistryKey) : String :=
  key.moduleAddress ++ "-" ++ toString key.operatorIndex

def getUniqueIdentifiersForOperators (keys : List RegistryKey) : List String :=
  (keys.map getKeyOperatorIdentifier).eraseDups

/-- The key of the smallest index; `undefined` when there is no key. -/
def findEarliestKeyWithinOperator : List RegistryKey → Option RegistryKey
  | [] => none
  | key :: keys => some ((key :: keys).foldl
      (fun prev curr => if prev.index < curr.index then prev else curr) key)

def findDuplicatesWithinOperator (operatorKeys : List RegistryKey) : List RegistryKey :=
  match findEarliestKeyWithinOperator operatorKeys with
  | none => []
  | some earliestKey => operatorKeys.filter fun key => key.index ≠ earliestKey.index

def handleSingleOperatorDuplicates (suspectedDuplicateKeys : List RegistryKey) : DuplicatedKeys :=
  ⟨findDuplicatesWithinOperator suspectedDuplicateKeys, []⟩

def hasDepositedKey (keys : List RegistryKey) : Bool := keys.any (·.used)

def handleDepositedKeyDuplicates (suspectedDuplicateKeys : List RegistryKey) : DuplicatedKeys :=
  ⟨suspectedDuplicateKeys.filter fun key => !key.used, []⟩

def getOperatorsWithoutEvents (uniqueOperatorIdentifiers : List String)
    (events : List SigningKeyEvent) : List String :=
  let eventOperators := events.map fun event =>
    event.moduleAddress ++ "-" ++ toString event.operatorIndex
  uniqueOperatorIdentifiers.filter fun operatorIdentifier => operatorIdentifier ∉ eventOperators

/-- The step of the loop of `findEarliestEvents`. -/
def earliestStep : ℕ × List SigningKeyEvent → SigningKeyEvent → ℕ × List SigningKeyEvent
  | (earliestBlockNumber, blockEvents), currEvent =>
    if earliestBlockNumber = currEvent.blockNumber then
      (earliestBlockNumber, blockEvents ++ [currEvent])
    else if earliestBlockNumber > currEvent.blockNumber then (currEvent.blockNumber, [currEvent])
    else (earliestBlockNumber, blockEvents)

def findEarliestEvents : List SigningKeyEvent → List SigningKeyEvent
  | [] => []
  | [event] => [event]
  | event :: events => ((event :: events).foldl earliestStep (event.blockNumber, [])).2

def findOperatorKeys (keys : List RegistryKey) (moduleAddress : String) (operatorIndex : ℕ) :
    List RegistryKey :=
  keys.filter fun key => key.moduleAddress = moduleAddress ∧ key.operatorIndex = operatorIndex

def isSameKey (key1 key2 : RegistryKey) : Bool :=
  key1.moduleAddress = key2.moduleAddress ∧ key1.operatorIndex = key2.operatorIndex ∧
    key1.index = key2.index

def filterNonEarliestKeys (earliestEvent : SigningKeyEvent)
    (suspectedDuplicateKeys : List RegistryKey) : List RegistryKey :=
  let operatorKeys := findOperatorKeys suspectedDuplicateKeys earliestEvent.moduleAddress
    earliestEvent.operatorIndex
  match findEarliestKeyWithinOperator operatorKeys with
  | none => [] -- not reached: the caller has checked that the operator holds the key
  | some earliestKey => suspectedDuplicateKeys.filter fun key => !isSameKey key earliestKey

def handleEventsForDuplicates (events : List SigningKeyEvent)
    (suspectedDuplicateKeys : List RegistryKey) : DuplicatedKeys :=
  match findEarliestEvents events with
  | [earliestEvent] =>
    let earliestOwnerKeys := findOperatorKeys suspectedDuplicateKeys earliestEvent.moduleAddress
      earliestEvent.operatorIndex
    if earliestOwnerKeys.length = 0 then ⟨suspectedDuplicateKeys, []⟩
    else ⟨filterNonEarliestKeys earliestEvent suspectedDuplicateKeys, []⟩
  | _ => ⟨suspectedDuplicateKeys, []⟩

section Events

-- the events of a key up to the block of the cycle
variable (getUpdatedSigningKeyEvents : (key : String) → Except String (List SigningKeyEvent))

def getDuplicatesAcrossOperators (key : String) (suspectedDuplicateKeys : List RegistryKey)
    (uniqueOperatorIdentifiers : List String) : Except String DuplicatedKeys := do
  let events ← getUpdatedSigningKeyEvents key
  let operatorsWithoutEvents := getOperatorsWithoutEvents uniqueOperatorIdentifiers events
  if operatorsWithoutEvents.length ≠ 0 then return ⟨[], suspectedDuplicateKeys⟩
  else return handleEventsForDuplicates events suspectedDuplicateKeys

def processDuplicateKeyGroup (key : String) (suspectedDuplicateKeys : List RegistryKey) :
    Except String DuplicatedKeys :=
  let uniqueOperatorIdentifiers := getUniqueIdentifiersForOperators suspectedDuplicateKeys
  if uniqueOperatorIdentifiers.length = 1 then
    .ok (handleSingleOperatorDuplicates suspectedDuplicateKeys)
  else if hasDepositedKey suspectedDuplicateKeys then
    .ok (handleDepositedKeyDuplicates suspectedDuplicateKeys)
  else getDuplicatesAcrossOperators getUpdatedSigningKeyEvents key suspectedDuplicateKeys
    uniqueOperatorIdentifiers

def getDuplicatedKeys (keys : List RegistryKey) : Except String DuplicatedKeys :=
  if keys.length = 0 then .ok ⟨[], []⟩
  else do
    let suspectedDuplicateKeyGroups := getDuplicateKeyGroups keys
    let result ← rangePromise
      (fun index => suspectedDuplicateKeyGroups[index]?.elim
        (.error "TypeError: undefined is not iterable")
        fun group => processDuplicateKeyGroup getUpdatedSigningKeyEvents group.1 group.2)
      0 suspectedDuplicateKeyGroups.length groupsBatchSize
    return ⟨result.flatMap (·.duplicates), result.flatMap (·.unresolved)⟩

end Events

/-! ## One group -/

/-- The operator that holds a key. -/
def holder (key : RegistryKey) : String × ℕ := (key.moduleAddress, key.operatorIndex)

/-- The operator that an event names. -/
def adder (event : SigningKeyEvent) : String × ℕ := (event.moduleAddress, event.operatorIndex)

/-- What identifies a record of the registries. -/
def recordId (key : RegistryKey) : String × ℕ × ℕ :=
  (key.moduleAddress, key.operatorIndex, key.index)

/-- The keys of the group are held by several operators. -/
def SpansOperators (group : List RegistryKey) : Prop :=
  ∃ a ∈ group, ∃ b ∈ group, holder a ≠ holder b

/-- The key is neither a duplicate nor unresolved. -/
def Survives (result : DuplicatedKeys) (key : RegistryKey) : Prop :=
  key ∉ result.duplicates ∧ key ∉ result.unresolved

/-- Every holder of the group has an event, one event alone is in the smallest block, and `key` is
the copy of the smallest index of that event's operator. -/
def OwnedByEvents (events : List SigningKeyEvent) (group : List RegistryKey) (key : RegistryKey) :
    Prop :=
  (∀ b ∈ group, ∃ event ∈ events, adder event = holder b) ∧
  ∃ first, (∀ event ∈ events, first.blockNumber ≤ event.blockNumber) ∧
    (events.filter fun event => event.blockNumber = first.blockNumber) = [first] ∧
    holder key = adder first ∧ ∀ b ∈ group, holder b = adder first → key.index ≤ b.index

/-- What holds of the result of a group of keys with one pubkey. -/
structure SiftedGroup (getEvents : Except String (List SigningKeyEvent))
    (group : List RegistryKey) (result : DuplicatedKeys) : Prop where
  duplicates_subset : ∀ a ∈ result.duplicates, a ∈ group
  unresolved_eq : result.unresolved = [] ∨ result.unresolved = group ∧ result.duplicates = []
  survivor_unique : ∀ a ∈ group, ∀ b ∈ group, a.used = false → b.used = false →
    Survives result a → Survives result b → a = b
  within_operator : ¬ SpansOperators group → ∀ a ∈ group, Survives result a →
    ∀ b ∈ group, a.index ≤ b.index
  deposited : SpansOperators group → (∃ b ∈ group, b.used = true) →
    ∀ a ∈ group, a.used = false → a ∈ result.duplicates
  owned : SpansOperators group → (∀ b ∈ group, b.used = false) → ∀ a ∈ group, Survives result a →
    ∃ events, getEvents = .ok events ∧ OwnedByEvents events group a

theorem SiftedGroup.mem_of_listed {getEvents : Except String (List SigningKeyEvent)}
    {group : List RegistryKey} {result : DuplicatedKeys} (h : SiftedGroup getEvents group result)
    {a : RegistryKey} (ha : a ∈ result.duplicates ∨ a ∈ result.unresolved) : a ∈ group := by
  rcases ha with ha | ha
  · exact h.duplicates_subset a ha
  · rcases h.unresolved_eq with heq | ⟨heq, _⟩
    · rw [heq] at ha
      cases ha
    · rwa [heq] at ha

theorem getKeyOperatorIdentifier_inj {a b : RegistryKey} :
    getKeyOperatorIdentifier a = getKeyOperatorIdentifier b ↔ holder a = holder b := by
  constructor
  · intro h
    obtain ⟨haddress, hindex⟩ := Separator.append_toString_inj rfl (by decide) h
    exact Prod.ext haddress hindex
  · intro h
    obtain ⟨haddress, hindex⟩ := Prod.mk.inj h
    rw [getKeyOperatorIdentifier, getKeyOperatorIdentifier, haddress, hindex]

/-- There is one operator identifier exactly when one operator holds the keys. -/
theorem length_uniqueIdentifiers {group : List RegistryKey} (hne : group ≠ []) :
    (getUniqueIdentifiersForOperators group).length = 1 ↔ ¬ SpansOperators group := by
  obtain ⟨first, rest, rfl⟩ := List.exists_cons_of_ne_nil hne
  constructor
  · rintro hlength ⟨a, ha, b, hb, hab⟩
    obtain ⟨identifier, hunique⟩ := List.length_eq_one_iff.1 hlength
    have hall : ∀ key ∈ first :: rest, getKeyOperatorIdentifier key = identifier := by
      intro key hkey
      have hmem : getKeyOperatorIdentifier key ∈ getUniqueIdentifiersForOperators (first :: rest) :=
        List.mem_eraseDups.2 (List.mem_map_of_mem hkey)
      rw [hunique] at hmem
      exact List.mem_singleton.1 hmem
    exact hab (getKeyOperatorIdentifier_inj.1 ((hall a ha).trans (hall b hb).symm))
  · intro hone
    have hrest : ((rest.map getKeyOperatorIdentifier).filter
        fun identifier => !identifier == getKeyOperatorIdentifier first) = [] := by
      rw [List.filter_eq_nil_iff]
      intro identifier hidentifier
      obtain ⟨key, hkey, rfl⟩ := List.mem_map.1 hidentifier
      have hsame : holder key = holder first := by
        by_contra hne
        exact hone ⟨key, List.mem_cons_of_mem _ hkey, first, List.mem_cons_self .., hne⟩
      simp [getKeyOperatorIdentifier_inj.2 hsame]
    rw [getUniqueIdentifiersForOperators, List.map_cons, List.eraseDups_cons, hrest]
    rfl

theorem foldl_smaller (keys : List RegistryKey) : ∀ key : RegistryKey,
    let earliest := keys.foldl (fun prev curr => if prev.index < curr.index then prev else curr) key
    (earliest = key ∨ earliest ∈ keys) ∧ earliest.index ≤ key.index ∧
      ∀ k ∈ keys, earliest.index ≤ k.index := by
  induction keys with
  | nil => intro key; simp
  | cons next keys ih =>
    intro key
    rw [List.foldl_cons]
    obtain ⟨hmem, hle, hall⟩ := ih (if key.index < next.index then key else next)
    have hnext : (if key.index < next.index then key else next).index ≤ next.index ∧
        (if key.index < next.index then key else next).index ≤ key.index := by
      split_ifs with h
      · exact ⟨h.le, le_refl _⟩
      · exact ⟨le_refl _, not_lt.1 h⟩
    refine ⟨?_, hle.trans hnext.2, ?_⟩
    · rcases hmem with heq | hmem
      · rw [heq]
        split_ifs with h
        · exact Or.inl rfl
        · exact Or.inr (List.mem_cons_self ..)
      · exact Or.inr (List.mem_cons_of_mem _ hmem)
    · intro k hk
      rcases List.mem_cons.1 hk with rfl | hk
      · exact hle.trans hnext.1
      · exact hall k hk

/-- The earliest key is a key of the smallest index. -/
theorem findEarliestKeyWithinOperator_spec {keys : List RegistryKey} (hne : keys ≠ []) :
    ∃ earliest, findEarliestKeyWithinOperator keys = some earliest ∧ earliest ∈ keys ∧
      ∀ k ∈ keys, earliest.index ≤ k.index := by
  obtain ⟨first, rest, rfl⟩ := List.exists_cons_of_ne_nil hne
  obtain ⟨hmem, _, hall⟩ := foldl_smaller (first :: rest) first
  refine ⟨_, rfl, ?_, hall⟩
  rcases hmem with heq | hmem
  · rw [heq]
    exact List.mem_cons_self ..
  · exact hmem

/-- What the loop of `findEarliestEvents` has collected from the events passed. -/
def Earliest (passed : List SigningKeyEvent) (state : ℕ × List SigningKeyEvent) : Prop :=
  (∀ event ∈ passed, state.1 ≤ event.blockNumber) ∧
    state.2 = passed.filter fun event => event.blockNumber = state.1

theorem Earliest.step {passed : List SigningKeyEvent} {state : ℕ × List SigningKeyEvent}
    (h : Earliest passed state) (event : SigningKeyEvent) :
    Earliest (passed ++ [event]) (earliestStep state event) := by
  obtain ⟨block, blockEvents⟩ := state
  obtain ⟨hle, heq⟩ := h
  have hle' : ∀ e ∈ passed, block ≤ e.blockNumber := hle
  have heq' : blockEvents = passed.filter fun e => e.blockNumber = block := heq
  simp only [earliestStep]
  split_ifs with hsame hearlier
  · refine ⟨?_, ?_⟩
    · intro e he
      rcases List.mem_append.1 he with he | he
      · exact hle' e he
      · rw [List.mem_singleton.1 he]
        exact hsame.le
    · simp [heq', List.filter_append, hsame]
  · refine ⟨?_, ?_⟩
    · intro e he
      rcases List.mem_append.1 he with he | he
      · exact (Nat.le_of_lt hearlier).trans (hle' e he)
      · rw [List.mem_singleton.1 he]
    · have hnone : (passed.filter fun e => e.blockNumber = event.blockNumber) = [] := by
        rw [List.filter_eq_nil_iff]
        intro e he
        have := hle' e he
        simp only [decide_eq_true_eq]
        omega
      simp [List.filter_append, hnone]
  · refine ⟨?_, ?_⟩
    · intro e he
      rcases List.mem_append.1 he with he | he
      · exact hle' e he
      · rw [List.mem_singleton.1 he]
        exact not_lt.1 hearlier
    · have hne : event.blockNumber ≠ block := fun h => hsame h.symm
      simp [heq', List.filter_append, hne]

theorem Earliest.foldl (events : List SigningKeyEvent) : ∀ {passed state}, Earliest passed state →
    Earliest (passed ++ events) (events.foldl earliestStep state) := by
  induction events with
  | nil => intro passed state h; simpa using h
  | cons event events ih =>
    intro passed state h
    have hnext := ih (h.step event)
    rwa [List.append_assoc, List.singleton_append] at hnext

/-- A single earliest event is alone in the smallest block. -/
theorem findEarliestEvents_spec {events : List SigningKeyEvent} {first : SigningKeyEvent}
    (h : findEarliestEvents events = [first]) :
    (∀ event ∈ events, first.blockNumber ≤ event.blockNumber) ∧
      (events.filter fun event => event.blockNumber = first.blockNumber) = [first] := by
  rcases events with _ | ⟨event, _ | ⟨event', events⟩⟩
  · cases h
  · cases h
    simp
  · have hstart : Earliest [] (event.blockNumber, []) := ⟨by simp, rfl⟩
    obtain ⟨hle, heq⟩ := hstart.foldl (event :: event' :: events)
    rw [List.nil_append] at hle heq
    have hfirst := h.symm.trans heq
    have hblock : first ∈ (event :: event' :: events).filter fun e => e.blockNumber =
        ((event :: event' :: events).foldl earliestStep (event.blockNumber, [])).1 := by
      rw [← hfirst]
      exact List.mem_singleton_self first
    rw [List.mem_filter, decide_eq_true_eq] at hblock
    rw [hblock.2]
    exact ⟨hle, hfirst.symm⟩

section Rules

variable {getEvents : Except String (List SigningKeyEvent)} {group : List RegistryKey}

/-- The first rule: the keys of one operator. -/
theorem sifted_singleOperator (hne : group ≠ [])
    (hid : ∀ a ∈ group, ∀ b ∈ group, recordId a = recordId b → a = b)
    (hone : ¬ SpansOperators group) :
    SiftedGroup getEvents group (handleSingleOperatorDuplicates group) := by
  obtain ⟨earliest, hearliest, _, hsmallest⟩ := findEarliestKeyWithinOperator_spec hne
  have hduplicates : (handleSingleOperatorDuplicates group).duplicates =
      group.filter fun key => key.index ≠ earliest.index := by
    show findDuplicatesWithinOperator group = _
    rw [findDuplicatesWithinOperator, hearliest]
  have hindex : ∀ a ∈ group, Survives (handleSingleOperatorDuplicates group) a →
      a.index = earliest.index := by
    intro a ha hsurvives
    by_contra hindex
    apply hsurvives.1
    rw [hduplicates, List.mem_filter]
    exact ⟨ha, decide_eq_true hindex⟩
  refine ⟨?_, Or.inl rfl, ?_, ?_, ?_, ?_⟩
  · intro a ha
    rw [hduplicates] at ha
    exact (List.mem_filter.1 ha).1
  · intro a ha b hb _ _ hsa hsb
    apply hid a ha b hb
    have hholder : holder a = holder b := by
      by_contra hab
      exact hone ⟨a, ha, b, hb, hab⟩
    obtain ⟨haddress, hoperator⟩ := Prod.mk.inj hholder
    rw [recordId, recordId, haddress, hoperator, hindex a ha hsa, hindex b hb hsb]
  · intro _ a ha hsa b hb
    rw [hindex a ha hsa]
    exact hsmallest b hb
  · intro hspans
    exact absurd hspans hone
  · intro hspans
    exact absurd hspans hone

/-- The second rule: several operators, one of them with a used copy. -/
theorem sifted_deposited (hspans : SpansOperators group) (hused : ∃ b ∈ group, b.used = true) :
    SiftedGroup getEvents group (handleDepositedKeyDuplicates group) := by
  have hduplicate : ∀ a ∈ group, a.used = false →
      a ∈ (handleDepositedKeyDuplicates group).duplicates := by
    intro a ha hunused
    rw [handleDepositedKeyDuplicates, List.mem_filter, hunused]
    exact ⟨ha, rfl⟩
  refine ⟨?_, Or.inl rfl, ?_, ?_, ?_, ?_⟩
  · intro a ha
    exact (List.mem_filter.1 ha).1
  · intro a ha _ _ hunused _ hsa
    exact absurd (hduplicate a ha hunused) hsa.1
  · intro hone
    exact absurd hspans hone
  · intro _ _ a ha hunused
    exact hduplicate a ha hunused
  · intro _ hnone
    obtain ⟨b, hb, hbused⟩ := hused
    rw [hnone b hb] at hbused
    cases hbused

/-- A group of several operators without a used copy in which no copy survives. -/
theorem sifted_of_no_survivor {result : DuplicatedKeys} (hspans : SpansOperators group)
    (hnone : ∀ b ∈ group, b.used = false)
    (hresult : result = ⟨group, []⟩ ∨ result = ⟨[], group⟩) :
    SiftedGroup getEvents group result := by
  have hno : ∀ a ∈ group, ¬ Survives result a := by
    rintro a ha ⟨hd, hu⟩
    rcases hresult with rfl | rfl
    · exact hd ha
    · exact hu ha
  refine ⟨?_, ?_, ?_, ?_, ?_, ?_⟩
  · intro a ha
    rcases hresult with rfl | rfl
    · exact ha
    · cases ha
  · rcases hresult with rfl | rfl
    · exact Or.inl rfl
    · exact Or.inr ⟨rfl, rfl⟩
  · intro a ha _ _ _ _ hsa
    exact absurd hsa (hno a ha)
  · intro hone
    exact absurd hspans hone
  · rintro _ ⟨b, hb, hbused⟩
    rw [hnone b hb] at hbused
    cases hbused
  · intro _ _ a ha hsa
    exact absurd hsa (hno a ha)

/-- Operators without events are listed; when none is, every holder has an event. -/
theorem getOperatorsWithoutEvents_nil {events : List SigningKeyEvent}
    (h : getOperatorsWithoutEvents (getUniqueIdentifiersForOperators group) events = []) :
    ∀ b ∈ group, ∃ event ∈ events, adder event = holder b := by
  intro b hb
  have hidentifier : getKeyOperatorIdentifier b ∈ getUniqueIdentifiersForOperators group :=
    List.mem_eraseDups.2 (List.mem_map_of_mem hb)
  have hevents := List.filter_eq_nil_iff.1 h _ hidentifier
  rw [decide_eq_true_eq, not_not] at hevents
  obtain ⟨event, hevent, heq⟩ := List.mem_map.1 hevents
  obtain ⟨haddress, hindex⟩ := Separator.append_toString_inj rfl (by decide) heq
  exact ⟨event, hevent, Prod.ext haddress hindex⟩

theorem mem_findOperatorKeys {event : SigningKeyEvent} {key : RegistryKey} :
    key ∈ findOperatorKeys group event.moduleAddress event.operatorIndex ↔
      key ∈ group ∧ holder key = adder event := by
  rw [findOperatorKeys, List.mem_filter, decide_eq_true_eq, holder, adder, Prod.mk.injEq]

theorem isSameKey_iff {a b : RegistryKey} : isSameKey a b = true ↔ recordId a = recordId b := by
  rw [isSameKey, decide_eq_true_eq, recordId, recordId, Prod.mk.injEq, Prod.mk.injEq]

/-- The third rule: several operators, no used copy, an event of each holder. -/
theorem sifted_handleEvents {events : List SigningKeyEvent} (hget : getEvents = .ok events)
    (hid : ∀ a ∈ group, ∀ b ∈ group, recordId a = recordId b → a = b)
    (hspans : SpansOperators group) (hnone : ∀ b ∈ group, b.used = false)
    (hevents : ∀ b ∈ group, ∃ event ∈ events, adder event = holder b) :
    SiftedGroup getEvents group (handleEventsForDuplicates events group) := by
  rcases hfind : findEarliestEvents events with _ | ⟨first, _ | ⟨second, others⟩⟩
  · exact sifted_of_no_survivor hspans hnone (Or.inl (by rw [handleEventsForDuplicates, hfind]))
  · by_cases hgone : findOperatorKeys group first.moduleAddress first.operatorIndex = []
    · apply sifted_of_no_survivor hspans hnone
      left
      simp only [handleEventsForDuplicates, hfind, hgone, List.length_nil, if_true]
    · obtain ⟨earliest, hearliest, hmem, hsmallest⟩ := findEarliestKeyWithinOperator_spec hgone
      have hresult : handleEventsForDuplicates events group =
          ⟨group.filter fun key => !isSameKey key earliest, []⟩ := by
        simp only [handleEventsForDuplicates, hfind, List.length_eq_zero_iff, hgone, if_false,
          filterNonEarliestKeys, hearliest]
      obtain ⟨hgroup, hholder⟩ := mem_findOperatorKeys.1 hmem
      have hsurvivor : ∀ a ∈ group, Survives (handleEventsForDuplicates events group) a →
          a = earliest := by
        intro a ha hsa
        by_contra hne
        apply hsa.1
        rw [hresult, List.mem_filter]
        refine ⟨ha, ?_⟩
        rw [Bool.not_eq_true', Bool.eq_false_iff]
        intro hsame
        exact hne (hid a ha earliest hgroup (isSameKey_iff.1 hsame))
      refine ⟨?_, Or.inl (by rw [hresult]), ?_, ?_, ?_, ?_⟩
      · intro a ha
        rw [hresult] at ha
        exact (List.mem_filter.1 ha).1
      · intro a ha b hb _ _ hsa hsb
        rw [hsurvivor a ha hsa, hsurvivor b hb hsb]
      · intro hone
        exact absurd hspans hone
      · rintro _ ⟨b, hb, hbused⟩
        rw [hnone b hb] at hbused
        cases hbused
      · intro _ _ a ha hsa
        obtain ⟨hfirst, halone⟩ := findEarliestEvents_spec hfind
        obtain rfl := hsurvivor a ha hsa
        refine ⟨events, hget, hevents, first, hfirst, halone, hholder, ?_⟩
        intro b hb hheld
        exact hsmallest b (mem_findOperatorKeys.2 ⟨hb, hheld⟩)
  · exact sifted_of_no_survivor hspans hnone (Or.inl (by rw [handleEventsForDuplicates, hfind]))

end Rules

/-- **One group.** Whatever rule applies, the result of a group is sifted. -/
theorem sifted_processDuplicateKeyGroup
    {getUpdatedSigningKeyEvents : String → Except String (List SigningKeyEvent)} {pubkey : String}
    {group : List RegistryKey} {result : DuplicatedKeys} (hne : group ≠ [])
    (hid : ∀ a ∈ group, ∀ b ∈ group, recordId a = recordId b → a = b)
    (h : processDuplicateKeyGroup getUpdatedSigningKeyEvents pubkey group = .ok result) :
    SiftedGroup (getUpdatedSigningKeyEvents pubkey) group result := by
  simp only [processDuplicateKeyGroup] at h
  by_cases hspans : SpansOperators group
  · rw [if_neg fun hone => (length_uniqueIdentifiers hne).1 hone hspans] at h
    by_cases hused : hasDepositedKey group = true
    · rw [if_pos hused] at h
      cases h
      exact sifted_deposited hspans (List.any_eq_true.1 hused)
    · rw [if_neg hused] at h
      have hnone : ∀ b ∈ group, b.used = false := by
        intro b hb
        by_contra hb'
        exact hused (List.any_eq_true.2 ⟨b, hb, Bool.eq_true_of_not_eq_false hb'⟩)
      rw [getDuplicatesAcrossOperators] at h
      cases hget : getUpdatedSigningKeyEvents pubkey with
      | error message => rw [hget] at h; cases h
      | ok events =>
        rw [hget] at h
        by_cases hmissing :
            getOperatorsWithoutEvents (getUniqueIdentifiersForOperators group) events = []
        · have hresult : handleEventsForDuplicates events group = result := by
            simpa [hmissing, bind, Except.bind, pure, Except.pure] using h
          rw [← hresult]
          exact sifted_handleEvents rfl hid hspans hnone (getOperatorsWithoutEvents_nil hmissing)
        · have hresult : (⟨[], group⟩ : DuplicatedKeys) = result := by
            simpa [hmissing, bind, Except.bind, pure, Except.pure] using h
          exact sifted_of_no_survivor hspans hnone (Or.inr hresult.symm)
  · rw [if_pos ((length_uniqueIdentifiers hne).2 hspans)] at h
    cases h
    exact sifted_singleOperator hne hid hspans

/-! ## All keys -/

/-- The copies of a pubkey. -/
def copies (keys : List RegistryKey) (pubkey : String) : List RegistryKey :=
  keys.filter fun key => key.key = pubkey

theorem mem_copies {keys : List RegistryKey} {pubkey : String} {a : RegistryKey} :
    a ∈ copies keys pubkey ↔ a ∈ keys ∧ a.key = pubkey := by
  rw [copies, List.mem_filter, decide_eq_true_eq]

theorem mem_getDuplicateKeyGroups {keys group : List RegistryKey} {pubkey : String} :
    (pubkey, group) ∈ getDuplicateKeyGroups keys ↔
      group = copies keys pubkey ∧ 1 < (copies keys pubkey).length := by
  rw [getDuplicateKeyGroups, List.mem_filter, InsertionMap.mem_groupBy, decide_eq_true_eq]
  constructor
  · rintro ⟨⟨_, rfl⟩, hlength⟩
    exact ⟨rfl, hlength⟩
  · rintro ⟨rfl, hlength⟩
    exact ⟨⟨List.ne_nil_of_length_pos (Nat.lt_of_succ_lt hlength), rfl⟩, hlength⟩

variable {getUpdatedSigningKeyEvents : String → Except String (List SigningKeyEvent)}
  {keys : List RegistryKey} {result : DuplicatedKeys}

/-- The lists are those of the groups, one after the other. -/
theorem getDuplicatedKeys_groups (h : getDuplicatedKeys getUpdatedSigningKeyEvents keys = .ok result) :
    ∃ results, List.Forall₂ (fun group r =>
        processDuplicateKeyGroup getUpdatedSigningKeyEvents group.1 group.2 = .ok r)
        (getDuplicateKeyGroups keys) results ∧
      result = ⟨results.flatMap (·.duplicates), results.flatMap (·.unresolved)⟩ := by
  unfold getDuplicatedKeys at h
  by_cases hempty : keys.length = 0
  · rw [if_pos hempty] at h
    cases h
    rw [List.length_eq_zero_iff] at hempty
    subst hempty
    exact ⟨[], List.Forall₂.nil, rfl⟩
  · rw [if_neg hempty] at h
    simp only [rangePromise_getElem _ _ (getDuplicateKeyGroups keys)
      (show 0 < groupsBatchSize by decide)] at h
    cases hmap : (getDuplicateKeyGroups keys).mapM fun group =>
        processDuplicateKeyGroup getUpdatedSigningKeyEvents group.1 group.2 with
    | error message => rw [hmap] at h; cases h
    | ok results =>
      rw [hmap] at h
      cases h
      exact ⟨results, mapM_ok hmap, rfl⟩

/-- With an answer for every key, the lists are returned. -/
theorem getDuplicatedKeys_answered
    (h : ∀ a ∈ keys, ∃ events, getUpdatedSigningKeyEvents a.key = .ok events) :
    ∃ result, getDuplicatedKeys getUpdatedSigningKeyEvents keys = .ok result := by
  have hgroups : ∀ group ∈ getDuplicateKeyGroups keys, ∃ r,
      processDuplicateKeyGroup getUpdatedSigningKeyEvents group.1 group.2 = .ok r := by
    rintro ⟨pubkey, group⟩ hgroup
    obtain ⟨rfl, hseveral⟩ := mem_getDuplicateKeyGroups.1 hgroup
    obtain ⟨a, ha⟩ := List.exists_mem_of_length_pos (Nat.lt_of_succ_lt hseveral)
    obtain ⟨hkeys, rfl⟩ := mem_copies.1 ha
    obtain ⟨events, hevents⟩ := h a hkeys
    simp only [processDuplicateKeyGroup, getDuplicatesAcrossOperators, hevents]
    split_ifs
    · exact ⟨_, rfl⟩
    · exact ⟨_, rfl⟩
    · simp only [bind, Except.bind, pure, Except.pure]
      split_ifs <;> exact ⟨_, rfl⟩
  unfold getDuplicatedKeys
  split_ifs with hempty
  · exact ⟨_, rfl⟩
  · obtain ⟨results, hresults⟩ := mapM_of_forall_ok hgroups
    simp only [rangePromise_getElem _ _ (getDuplicateKeyGroups keys)
      (show 0 < groupsBatchSize by decide), hresults]
    exact ⟨_, rfl⟩

theorem getDuplicatedKeys_returns (history : String → List SigningKeyEvent)
    (keys : List RegistryKey) :
    ∃ result, getDuplicatedKeys (fun key => .ok (history key)) keys = .ok result :=
  getDuplicatedKeys_answered fun a _ => ⟨history a.key, rfl⟩

/-- The identity of records, as the registries have it. -/
def DistinctRecords (keys : List RegistryKey) : Prop := (keys.map recordId).Nodup

theorem DistinctRecords.inj (h : DistinctRecords keys) {a b : RegistryKey} (ha : a ∈ keys)
    (hb : b ∈ keys) (hab : recordId a = recordId b) : a = b :=
  List.inj_on_of_nodup_map h ha hb hab

theorem sifted_copies (hid : DistinctRecords keys) {pubkey : String} {r : DuplicatedKeys}
    (hseveral : 1 < (copies keys pubkey).length)
    (hr : processDuplicateKeyGroup getUpdatedSigningKeyEvents pubkey (copies keys pubkey) = .ok r) :
    SiftedGroup (getUpdatedSigningKeyEvents pubkey) (copies keys pubkey) r := by
  apply sifted_processDuplicateKeyGroup (List.ne_nil_of_length_pos (Nat.lt_of_succ_lt hseveral)) _ hr
  intro a ha b hb hab
  exact hid.inj (mem_copies.1 ha).1 (mem_copies.1 hb).1 hab

/-- Of the records of one pubkey, the lists have what the result of its group has. -/
theorem getDuplicatedKeys_process (hid : DistinctRecords keys)
    (h : getDuplicatedKeys getUpdatedSigningKeyEvents keys = .ok result) {pubkey : String}
    (hseveral : 1 < (copies keys pubkey).length) :
    ∃ r, processDuplicateKeyGroup getUpdatedSigningKeyEvents pubkey (copies keys pubkey) = .ok r ∧
      ∀ a : RegistryKey, a.key = pubkey → (a ∈ result.duplicates ↔ a ∈ r.duplicates) ∧
        (a ∈ result.unresolved ↔ a ∈ r.unresolved) := by
  obtain ⟨results, hresults, rfl⟩ := getDuplicatedKeys_groups h
  obtain ⟨hgroups, hback⟩ := mem_of_forall₂ hresults
  obtain ⟨r, hr, hrun⟩ := hgroups _ (mem_getDuplicateKeyGroups.2 ⟨rfl, hseveral⟩)
  -- the records of another group have another pubkey
  have hother : ∀ r' ∈ results, ∀ a : RegistryKey, a.key = pubkey →
      a ∈ r'.duplicates ∨ a ∈ r'.unresolved → r' = r := by
    intro r' hr' a ha hmem
    obtain ⟨⟨k, group⟩, hgroup, hrun'⟩ := hback r' hr'
    obtain ⟨rfl, hlength⟩ := mem_getDuplicateKeyGroups.1 hgroup
    have hcopy := (sifted_copies hid hlength hrun').mem_of_listed hmem
    obtain rfl : k = pubkey := (mem_copies.1 hcopy).2.symm.trans ha
    exact Except.ok.inj (hrun'.symm.trans hrun)
  refine ⟨r, hrun, ?_⟩
  intro a ha
  constructor
  · constructor
    · intro hmem
      obtain ⟨r', hr', hmem'⟩ := List.mem_flatMap.1 hmem
      rwa [hother r' hr' a ha (Or.inl hmem')] at hmem'
    · intro hmem
      exact List.mem_flatMap.2 ⟨r, hr, hmem⟩
  · constructor
    · intro hmem
      obtain ⟨r', hr', hmem'⟩ := List.mem_flatMap.1 hmem
      rwa [hother r' hr' a ha (Or.inr hmem')] at hmem'
    · intro hmem
      exact List.mem_flatMap.2 ⟨r, hr, hmem⟩

theorem getDuplicatedKeys_group (hid : DistinctRecords keys)
    (h : getDuplicatedKeys getUpdatedSigningKeyEvents keys = .ok result) {pubkey : String}
    (hseveral : 1 < (copies keys pubkey).length) :
    ∃ r, SiftedGroup (getUpdatedSigningKeyEvents pubkey) (copies keys pubkey) r ∧
      ∀ a : RegistryKey, a.key = pubkey → (a ∈ result.duplicates ↔ a ∈ r.duplicates) ∧
        (a ∈ result.unresolved ↔ a ∈ r.unresolved) := by
  obtain ⟨r, hrun, hr⟩ := getDuplicatedKeys_process hid h hseveral
  exact ⟨r, sifted_copies hid hseveral hrun, hr⟩

/-- A listed record is a copy of a pubkey that occurs several times. -/
theorem mem_keys_of_listed (hid : DistinctRecords keys)
    (h : getDuplicatedKeys getUpdatedSigningKeyEvents keys = .ok result) {a : RegistryKey}
    (ha : a ∈ result.duplicates ∨ a ∈ result.unresolved) :
    a ∈ keys ∧ 1 < (copies keys a.key).length := by
  obtain ⟨results, hresults, rfl⟩ := getDuplicatedKeys_groups h
  have hmem : ∃ r ∈ results, a ∈ r.duplicates ∨ a ∈ r.unresolved := by
    rcases ha with ha | ha
    · obtain ⟨r, hr, hmem⟩ := List.mem_flatMap.1 ha
      exact ⟨r, hr, Or.inl hmem⟩
    · obtain ⟨r, hr, hmem⟩ := List.mem_flatMap.1 ha
      exact ⟨r, hr, Or.inr hmem⟩
  obtain ⟨r, hr, hmem⟩ := hmem
  obtain ⟨⟨k, group⟩, hgroup, hrun⟩ := (mem_of_forall₂ hresults).2 r hr
  obtain ⟨rfl, hlength⟩ := mem_getDuplicateKeyGroups.1 hgroup
  have hcopy := (sifted_copies hid hlength hrun).mem_of_listed hmem
  obtain ⟨hkeys, rfl⟩ := mem_copies.1 hcopy
  exact ⟨hkeys, hlength⟩

/-- What the duplicates and the unresolved keys are to all keys. -/
structure Sifted (getUpdatedSigningKeyEvents : String → Except String (List SigningKeyEvent))
    (keys : List RegistryKey) (result : DuplicatedKeys) : Prop where
  /-- A listed record has a pubkey that occurs several times. -/
  listed : ∀ a, a ∈ result.duplicates ∨ a ∈ result.unresolved →
    a ∈ keys ∧ 1 < (copies keys a.key).length
  disjoint : ∀ a ∈ result.duplicates, a ∉ result.unresolved
  /-- The copies of a pubkey are unresolved together. -/
  unresolved : ∀ a ∈ result.unresolved, ∀ b ∈ keys, b.key = a.key → b ∈ result.unresolved
  /-- One unused copy of a pubkey at most is not listed. -/
  survivor_unique : ∀ a ∈ keys, ∀ b ∈ keys, a.key = b.key → a.used = false → b.used = false →
    Survives result a → Survives result b → a = b
  /-- When several operators hold copies and one copy is used, the unused ones are duplicates. -/
  deposited : ∀ a ∈ keys, a.used = false → SpansOperators (copies keys a.key) →
    (∃ b ∈ copies keys a.key, b.used = true) → a ∈ result.duplicates
  /-- When several operators hold copies and none is used, a survivor is the one of the events. -/
  owned : ∀ a ∈ keys, SpansOperators (copies keys a.key) →
    (∀ b ∈ copies keys a.key, b.used = false) → Survives result a →
    ∃ events, getUpdatedSigningKeyEvents a.key = .ok events ∧
      OwnedByEvents events (copies keys a.key) a

/-- Two records of one pubkey make a group. -/
theorem one_lt_copies {a b : RegistryKey} (ha : a ∈ keys) (hb : b ∈ keys) (hkey : a.key = b.key)
    (hne : a ≠ b) : 1 < (copies keys a.key).length := by
  have hmema : a ∈ copies keys a.key := mem_copies.2 ⟨ha, rfl⟩
  have hmemb : b ∈ copies keys a.key := mem_copies.2 ⟨hb, hkey.symm⟩
  by_contra hshort
  obtain ⟨c, hc⟩ := List.length_eq_one_iff.1
    (le_antisymm (not_lt.1 hshort) (List.length_pos_of_mem hmema))
  rw [hc, List.mem_singleton] at hmema hmemb
  exact hne (hmema.trans hmemb.symm)

theorem one_lt_of_spans {pubkey : String} (h : SpansOperators (copies keys pubkey)) :
    1 < (copies keys pubkey).length := by
  obtain ⟨a, ha, b, hb, hholder⟩ := h
  obtain ⟨hakeys, rfl⟩ := mem_copies.1 ha
  obtain ⟨hbkeys, hkey⟩ := mem_copies.1 hb
  exact one_lt_copies hakeys hbkeys hkey.symm fun hab => hholder (congrArg holder hab)

/-- A survivor of all keys is one of its group. -/
theorem Survives.of_group {pubkey : String} {r : DuplicatedKeys}
    (hr : ∀ a : RegistryKey, a.key = pubkey → (a ∈ result.duplicates ↔ a ∈ r.duplicates) ∧
      (a ∈ result.unresolved ↔ a ∈ r.unresolved)) {a : RegistryKey} (ha : a.key = pubkey)
    (hsurvives : Survives result a) : Survives r a :=
  ⟨fun hmem => hsurvives.1 ((hr a ha).1.2 hmem), fun hmem => hsurvives.2 ((hr a ha).2.2 hmem)⟩

/-- Unused survivors with one pubkey are one record. -/
theorem survivor_unique (hid : DistinctRecords keys)
    (h : getDuplicatedKeys getUpdatedSigningKeyEvents keys = .ok result) {a b : RegistryKey}
    (ha : a ∈ keys) (hb : b ∈ keys) (hkey : a.key = b.key) (hua : a.used = false)
    (hub : b.used = false) (hsa : Survives result a) (hsb : Survives result b) : a = b := by
  by_contra hne
  obtain ⟨r, hsifted, hr⟩ := getDuplicatedKeys_group hid h (one_lt_copies ha hb hkey hne)
  exact hne (hsifted.survivor_unique a (mem_copies.2 ⟨ha, rfl⟩) b (mem_copies.2 ⟨hb, hkey.symm⟩)
    hua hub (hsa.of_group hr rfl) (hsb.of_group hr hkey.symm))

/-- The used records of an operator come before its unused ones. -/
def UsedFirst (keys : List RegistryKey) : Prop :=
  ∀ a ∈ keys, ∀ b ∈ keys, holder a = holder b → a.used = true → b.used = false → a.index < b.index

/-- With the used records first, no unused survivor has a used copy. -/
theorem survivor_not_used (hid : DistinctRecords keys) (hfirst : UsedFirst keys)
    (h : getDuplicatedKeys getUpdatedSigningKeyEvents keys = .ok result) {a b : RegistryKey}
    (ha : a ∈ keys) (hua : a.used = false) (hsa : Survives result a) (hb : b ∈ keys)
    (hub : b.used = true) : b.key ≠ a.key := by
  intro hkey
  have hne : a ≠ b := by
    rintro rfl
    rw [hua] at hub
    cases hub
  have hacopy : a ∈ copies keys a.key := mem_copies.2 ⟨ha, rfl⟩
  have hbcopy : b ∈ copies keys a.key := mem_copies.2 ⟨hb, hkey⟩
  obtain ⟨r, hsifted, hr⟩ := getDuplicatedKeys_group hid h (one_lt_copies ha hb hkey.symm hne)
  have hsurvives := hsa.of_group hr rfl
  by_cases hspans : SpansOperators (copies keys a.key)
  · exact hsurvives.1 (hsifted.deposited hspans ⟨b, hbcopy, hub⟩ a hacopy hua)
  · -- the survivor of one operator has the smallest index, and the used copy a smaller one
    have hholder : holder b = holder a := by
      by_contra hholder
      exact hspans ⟨b, hbcopy, a, hacopy, hholder⟩
    have hle := hsifted.within_operator hspans a hacopy hsurvives b hbcopy
    exact absurd (hfirst b hb a ha hholder hub hua) (not_lt.2 hle)

/-- **Duplicates.** The duplicates and the unresolved keys leave at most one unused copy of a
pubkey, and that one by the rule for its holders. -/
theorem getDuplicatedKeys_sifted
    {getUpdatedSigningKeyEvents : String → Except String (List SigningKeyEvent)}
    {keys : List RegistryKey} {result : DuplicatedKeys} (hid : DistinctRecords keys)
    (h : getDuplicatedKeys getUpdatedSigningKeyEvents keys = .ok result) :
    Sifted getUpdatedSigningKeyEvents keys result := by
  refine ⟨fun a ha => mem_keys_of_listed hid h ha, ?_, ?_, ?_, ?_, ?_⟩
  · intro a ha hunresolved
    obtain ⟨r, hsifted, hr⟩ := getDuplicatedKeys_group hid h (mem_keys_of_listed hid h (Or.inl ha)).2
    rcases hsifted.unresolved_eq with heq | ⟨_, heq⟩
    · have hmem := (hr a rfl).2.1 hunresolved
      rw [heq] at hmem
      cases hmem
    · have hmem := (hr a rfl).1.1 ha
      rw [heq] at hmem
      cases hmem
  · intro a ha b hb hkey
    obtain ⟨r, hsifted, hr⟩ := getDuplicatedKeys_group hid h (mem_keys_of_listed hid h (Or.inr ha)).2
    have hmem := (hr a rfl).2.1 ha
    apply (hr b hkey).2.2
    rcases hsifted.unresolved_eq with heq | ⟨heq, _⟩
    · rw [heq] at hmem
      cases hmem
    · rw [heq]
      exact mem_copies.2 ⟨hb, hkey⟩
  · intro a ha b hb hkey hua hub hsa hsb
    exact survivor_unique hid h ha hb hkey hua hub hsa hsb
  · intro a ha hunused hspans hused
    obtain ⟨r, hsifted, hr⟩ := getDuplicatedKeys_group hid h (one_lt_of_spans hspans)
    exact (hr a rfl).1.2 (hsifted.deposited hspans hused a (mem_copies.2 ⟨ha, rfl⟩) hunused)
  · intro a ha hspans hnone hsa
    obtain ⟨r, hsifted, hr⟩ := getDuplicatedKeys_group hid h (one_lt_of_spans hspans)
    exact hsifted.owned hspans hnone a (mem_copies.2 ⟨ha, rfl⟩) (hsa.of_group hr rfl)

/-- A pubkey held by two operators of two modules, the second of which added it first. -/
theorem getDuplicatedKeys_sifted_sample :
    Sifted (fun key => .ok [⟨3, key, "0x01", 7, 120, "0xb2"⟩, ⟨5, key, "0x02", 1, 110, "0xb1"⟩])
      [⟨"0xaa", "0x51", 3, false, 40, "0x01", true⟩, ⟨"0xbb", "0x52", 3, false, 41, "0x01", true⟩,
        ⟨"0xaa", "0x53", 5, false, 9, "0x02", true⟩, ⟨"0xaa", "0x53", 5, false, 12, "0x02", true⟩]
      ⟨[⟨"0xaa", "0x51", 3, false, 40, "0x01", true⟩, ⟨"0xaa", "0x53", 5, false, 12, "0x02", true⟩],
        []⟩ :=
  getDuplicatedKeys_sifted (by unfold DistinctRecords; decide) rfl

end Duplicates

end CouncilDaemon
