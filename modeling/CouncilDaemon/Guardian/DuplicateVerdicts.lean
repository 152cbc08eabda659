import CouncilDaemon.Guardian.Duplicates
import CouncilDaemon.Utils.BatchedPromises

/-!
# Duplicate verdicts of two guardians

Two guardians have the same keys and the same events in different orders, and the groups of their keys
complete in different orders. Each rule of the check depends on a group and its events only up to their
order (`process_perm`), and the batches come to what a pass over the groups comes to (`Completes.eq`), so
both guardians list the same duplicates and the same unresolved keys (`verdicts_agree`).
-/

namespace CouncilDaemon

namespace Duplicates

/-! ## The rules, up to order -/

section Order

variable {group group' : List RegistryKey} {events events' : List SigningKeyEvent}

theorem spansOperators_congr (hgroup : group.Perm group') :
    SpansOperators group ↔ SpansOperators group' := by
  unfold SpansOperators
  simp only [hgroup.mem_iff]

/-- The smallest index of the keys. -/
theorem earliest_index_eq (hgroup : group.Perm group') {earliest earliest' : RegistryKey}
    (h : findEarliestKeyWithinOperator group = some earliest)
    (h' : findEarliestKeyWithinOperator group' = some earliest') :
    earliest ∈ group ∧ earliest' ∈ group ∧ earliest.index = earliest'.index := by
  have hne : group ≠ [] := by
    rintro rfl
    cases h
  have hne' : group' ≠ [] := by
    rintro rfl
    cases h'
  obtain ⟨e, he, hmem, hsmallest⟩ := findEarliestKeyWithinOperator_spec hne
  obtain ⟨e', he', hmem', hsmallest'⟩ := findEarliestKeyWithinOperator_spec hne'
  obtain rfl := Option.some.inj (h.symm.trans he)
  obtain rfl := Option.some.inj (h'.symm.trans he')
  refine ⟨hmem, hgroup.mem_iff.2 hmem', le_antisymm ?_ ?_⟩
  · exact hsmallest _ (hgroup.mem_iff.2 hmem')
  · exact hsmallest' _ (hgroup.mem_iff.1 hmem)

theorem singleOperator_perm (hgroup : group.Perm group') (hne : group ≠ []) :
    (handleSingleOperatorDuplicates group).duplicates.Perm
      (handleSingleOperatorDuplicates group').duplicates := by
  have hne' : group' ≠ [] := fun hnil => hne (hgroup.trans (hnil ▸ List.Perm.refl _)).eq_nil
  obtain ⟨earliest, he, _⟩ := findEarliestKeyWithinOperator_spec hne
  obtain ⟨earliest', he', _⟩ := findEarliestKeyWithinOperator_spec hne'
  obtain ⟨_, _, hindex⟩ := earliest_index_eq hgroup he he'
  show (findDuplicatesWithinOperator group).Perm (findDuplicatesWithinOperator group')
  unfold findDuplicatesWithinOperator
  rw [he, he']
  show (group.filter fun key => key.index ≠ earliest.index).Perm
    (group'.filter fun key => key.index ≠ earliest'.index)
  rw [hindex]
  exact hgroup.filter _

theorem withoutEvents_nil_iff : getOperatorsWithoutEvents (getUniqueIdentifiersForOperators group)
    events = [] ↔ ∀ b ∈ group, ∃ event ∈ events, adder event = holder b := by
  constructor
  · exact getOperatorsWithoutEvents_nil
  · intro h
    rw [getOperatorsWithoutEvents, List.filter_eq_nil_iff]
    intro identifier hidentifier
    obtain ⟨b, hb, rfl⟩ := List.mem_map.1 (List.mem_eraseDups.1 hidentifier)
    obtain ⟨event, hevent, hadder⟩ := h b hb
    obtain ⟨haddress, hoperator⟩ := Prod.mk.inj hadder
    rw [decide_eq_true_eq, not_not, List.mem_map]
    refine ⟨event, hevent, ?_⟩
    rw [haddress, hoperator]
    rfl

/-- The block of the loop of `findEarliestEvents` is the one it started with or that of an event. -/
theorem foldl_earliestStep_block (events : List SigningKeyEvent) :
    ∀ state, (events.foldl earliestStep state).1 = state.1 ∨
      ∃ event ∈ events, event.blockNumber = (events.foldl earliestStep state).1 := by
  induction events with
  | nil => exact fun state => Or.inl rfl
  | cons event events ih =>
    intro state
    have hstep : (earliestStep state event).1 = state.1 ∨
        (earliestStep state event).1 = event.blockNumber := by
      obtain ⟨block, blockEvents⟩ := state
      simp only [earliestStep]
      split_ifs
      · exact Or.inl rfl
      · exact Or.inr rfl
      · exact Or.inl rfl
    rw [List.foldl_cons]
    rcases ih (earliestStep state event) with hsame | ⟨e, he, hblock⟩
    · rcases hstep with hstep | hstep
      · exact Or.inl (hsame.trans hstep)
      · exact Or.inr ⟨event, List.mem_cons_self, (hsame.trans hstep).symm⟩
    · exact Or.inr ⟨e, List.mem_cons_of_mem _ he, hblock⟩

/-- The earliest events are those of the smallest block. -/
theorem findEarliestEvents_eq (hne : events ≠ []) : ∃ block,
    (∀ event ∈ events, block ≤ event.blockNumber) ∧ (∃ event ∈ events, event.blockNumber = block) ∧
      findEarliestEvents events = events.filter fun event => event.blockNumber = block := by
  rcases events with _ | ⟨event, _ | ⟨event', others⟩⟩
  · exact absurd rfl hne
  · exact ⟨event.blockNumber, by simp, ⟨event, by simp, rfl⟩, by simp [findEarliestEvents]⟩
  · have hstart : Earliest [] (event.blockNumber, []) := ⟨by simp, rfl⟩
    obtain ⟨hle, heq⟩ := hstart.foldl (event :: event' :: others)
    rw [List.nil_append] at hle heq
    refine ⟨_, hle, ?_, heq⟩
    rcases foldl_earliestStep_block (event :: event' :: others) (event.blockNumber, []) with
      hsame | hevent
    · exact ⟨event, List.mem_cons_self, hsame.symm⟩
    · exact hevent

theorem findEarliestEvents_perm (hevents : events.Perm events') :
    (findEarliestEvents events).Perm (findEarliestEvents events') := by
  by_cases hne : events = []
  · subst hne
    rw [hevents.nil_eq]
  · have hne' : events' ≠ [] := fun hnil => hne (hevents.trans (hnil ▸ List.Perm.refl _)).eq_nil
    obtain ⟨block, hle, ⟨e, he, hblock⟩, heq⟩ := findEarliestEvents_eq hne
    obtain ⟨block', hle', ⟨e', he', hblock'⟩, heq'⟩ := findEarliestEvents_eq hne'
    have hsame : block = block' := by
      refine le_antisymm ?_ ?_
      · rw [← hblock']
        exact hle e' (hevents.mem_iff.2 he')
      · rw [← hblock]
        exact hle' e (hevents.mem_iff.1 he)
    rw [heq, heq', hsame]
    exact hevents.filter _

theorem filterNonEarliestKeys_perm (hgroup : group.Perm group')
    (hid : ∀ a ∈ group, ∀ b ∈ group, recordId a = recordId b → a = b) {first : SigningKeyEvent}
    (hne : findOperatorKeys group first.moduleAddress first.operatorIndex ≠ []) :
    (filterNonEarliestKeys first group).Perm (filterNonEarliestKeys first group') := by
  have hkeys : (findOperatorKeys group first.moduleAddress first.operatorIndex).Perm
      (findOperatorKeys group' first.moduleAddress first.operatorIndex) := hgroup.filter _
  have hne' : findOperatorKeys group' first.moduleAddress first.operatorIndex ≠ [] :=
    fun hnil => hne (hkeys.trans (hnil ▸ List.Perm.refl _)).eq_nil
  obtain ⟨earliest, he, _⟩ := findEarliestKeyWithinOperator_spec hne
  obtain ⟨earliest', he', _⟩ := findEarliestKeyWithinOperator_spec hne'
  obtain ⟨hmem, hmem', hindex⟩ := earliest_index_eq hkeys he he'
  obtain ⟨hin, hholder⟩ := mem_findOperatorKeys.1 hmem
  obtain ⟨hin', hholder'⟩ := mem_findOperatorKeys.1 hmem'
  have hsame : earliest = earliest' := by
    refine hid _ hin _ hin' ?_
    obtain ⟨haddress, hoperator⟩ := Prod.mk.inj (hholder.trans hholder'.symm)
    rw [recordId, recordId, haddress, hoperator, hindex]
  unfold filterNonEarliestKeys
  simp only [he, he', hsame]
  exact hgroup.filter _

/-- Two results list the same records. -/
structure Agree (result result' : DuplicatedKeys) : Prop where
  duplicates : ∀ a, a ∈ result.duplicates ↔ a ∈ result'.duplicates
  unresolved : ∀ a, a ∈ result.unresolved ↔ a ∈ result'.unresolved

theorem agree_all (hgroup : group.Perm group') : Agree ⟨group, []⟩ ⟨group', []⟩ :=
  ⟨fun _ => hgroup.mem_iff, fun _ => Iff.rfl⟩

/-- The third rule. -/
theorem handleEvents_agree (hgroup : group.Perm group') (hevents : events.Perm events')
    (hid : ∀ a ∈ group, ∀ b ∈ group, recordId a = recordId b → a = b) :
    Agree (handleEventsForDuplicates events group) (handleEventsForDuplicates events' group') := by
  have hearliest := findEarliestEvents_perm hevents
  rcases hfind : findEarliestEvents events with _ | ⟨first, _ | ⟨second, others⟩⟩
  · rw [hfind] at hearliest
    simp only [handleEventsForDuplicates, hfind, ← hearliest.nil_eq]
    exact agree_all hgroup
  · rw [hfind, List.singleton_perm] at hearliest
    have hfind' : findEarliestEvents events' = [first] := hearliest.symm
    have hkeys : (findOperatorKeys group first.moduleAddress first.operatorIndex).Perm
        (findOperatorKeys group' first.moduleAddress first.operatorIndex) := hgroup.filter _
    simp only [handleEventsForDuplicates, hfind, hfind', ← hkeys.length_eq]
    by_cases hgone : (findOperatorKeys group first.moduleAddress first.operatorIndex).length = 0
    · rw [if_pos hgone, if_pos hgone]
      exact agree_all hgroup
    · rw [if_neg hgone, if_neg hgone]
      have hne : findOperatorKeys group first.moduleAddress first.operatorIndex ≠ [] :=
        fun hnil => hgone (by rw [hnil]; rfl)
      exact ⟨fun _ => (filterNonEarliestKeys_perm hgroup hid hne).mem_iff, fun _ => Iff.rfl⟩
  · rcases hfind' : findEarliestEvents events' with _ | ⟨first', _ | ⟨second', others'⟩⟩
    · have hlength := hearliest.length_eq
      rw [hfind, hfind'] at hlength
      cases hlength
    · have hlength := hearliest.length_eq
      rw [hfind, hfind'] at hlength
      cases hlength
    · simp only [handleEventsForDuplicates, hfind, hfind']
      exact agree_all hgroup

end Order

/-- **One group.** Its result depends on the keys and the events only up to their order. -/
theorem process_agree {group group' : List RegistryKey} {history history' : String → List SigningKeyEvent}
    {pubkey : String} (hgroup : group.Perm group') (hne : group ≠ [])
    (hevents : (history pubkey).Perm (history' pubkey))
    (hid : ∀ a ∈ group, ∀ b ∈ group, recordId a = recordId b → a = b) {result result' : DuplicatedKeys}
    (h : processDuplicateKeyGroup (fun key => .ok (history key)) pubkey group = .ok result)
    (h' : processDuplicateKeyGroup (fun key => .ok (history' key)) pubkey group' = .ok result') :
    Agree result result' := by
  have hne' : group' ≠ [] := fun hnil => hne (hgroup.trans (hnil ▸ List.Perm.refl _)).eq_nil
  simp only [processDuplicateKeyGroup] at h h'
  by_cases hspans : SpansOperators group
  · have hspans' := (spansOperators_congr hgroup).1 hspans
    rw [if_neg fun hone => (length_uniqueIdentifiers hne).1 hone hspans] at h
    rw [if_neg fun hone => (length_uniqueIdentifiers hne').1 hone hspans'] at h'
    have hused : hasDepositedKey group = hasDepositedKey group' := hgroup.any_eq
    rw [← hused] at h'
    by_cases hdeposited : hasDepositedKey group = true
    · rw [if_pos hdeposited] at h h'
      cases h
      cases h'
      exact ⟨fun _ => (hgroup.filter _).mem_iff, fun _ => Iff.rfl⟩
    · rw [if_neg hdeposited] at h h'
      have hmissing : getOperatorsWithoutEvents (getUniqueIdentifiersForOperators group)
          (history pubkey) = [] ↔ getOperatorsWithoutEvents
          (getUniqueIdentifiersForOperators group') (history' pubkey) = [] := by
        rw [withoutEvents_nil_iff, withoutEvents_nil_iff]
        simp only [hgroup.mem_iff, hevents.mem_iff]
      simp only [getDuplicatesAcrossOperators, bind, Except.bind, pure, Except.pure, ne_eq,
        List.length_eq_zero_iff] at h h'
      by_cases hnil : getOperatorsWithoutEvents (getUniqueIdentifiersForOperators group)
          (history pubkey) = []
      · rw [if_neg (not_not.2 hnil)] at h
        rw [if_neg (not_not.2 (hmissing.1 hnil))] at h'
        cases h
        cases h'
        exact handleEvents_agree hgroup hevents hid
      · rw [if_pos hnil] at h
        rw [if_pos fun hnil' => hnil (hmissing.2 hnil')] at h'
        cases h
        cases h'
        exact ⟨fun _ => Iff.rfl, fun _ => hgroup.mem_iff⟩
  · have hone' : ¬ SpansOperators group' := fun h => hspans ((spansOperators_congr hgroup).2 h)
    rw [if_pos ((length_uniqueIdentifiers hne).2 hspans)] at h
    rw [if_pos ((length_uniqueIdentifiers hne').2 hone')] at h'
    cases h
    cases h'
    exact ⟨fun _ => (singleOperator_perm hgroup hne).mem_iff, fun _ => Iff.rfl⟩

/-! ## The batches -/

/-- The promise of a group resolves with what the group comes to. -/
def groupCallback (history : String → List SigningKeyEvent) (keys : List RegistryKey) (index : ℕ) :
    Except String DuplicatedKeys :=
  (getDuplicateKeyGroups keys)[index]?.elim (.error "TypeError: undefined is not iterable")
    fun group => processDuplicateKeyGroup (fun key => .ok (history key)) group.1 group.2

/-- The batches of the groups. -/
def groupsCall (keys : List RegistryKey) : Batched.RangeCall where
  start := 0
  stop := (getDuplicateKeyGroups keys).length
  batchSize := groupsBatchSize

/-- A promise may resolve at any time, with the result of its group. -/
def Answered (history : String → List SigningKeyEvent) (keys : List RegistryKey)
    (c : Configuration (Batched.RangeState DuplicatedKeys) (Batched.RangeThread DuplicatedKeys)) :
    Move Empty (Batched.RangeAnswer DuplicatedKeys) → Prop
  | .resume place (.resolved value) => ∀ position (index : ℕ),
      c.threads[place]? = some (.callback position index) → groupCallback history keys index = .ok value
  | _ => True

/-- A call of `getDuplicatedKeys` comes to `result` in some order in which the groups complete. -/
def Completes (history : String → List SigningKeyEvent) (keys : List RegistryKey)
    (result : DuplicatedKeys) : Prop :=
  keys = [] ∧ result = ⟨[], []⟩ ∨ keys ≠ [] ∧ ∃ c results,
    ((groupsCall keys).program DuplicatedKeys).Reachable (Answered history keys)
      ((groupsCall keys).begun DuplicatedKeys) c ∧
    c.shared.settled = some (.ok results) ∧
    result = ⟨results.flatMap (·.duplicates), results.flatMap (·.unresolved)⟩

variable {history history' : String → List SigningKeyEvent} {keys keys' : List RegistryKey}
  {result result' : DuplicatedKeys}

/-- **Batches.** Whatever the order in which the groups complete, a call comes to what a pass over them
comes to. -/
theorem Completes.eq (h : Completes history keys result) :
    getDuplicatedKeys (fun key => .ok (history key)) keys = .ok result := by
  unfold getDuplicatedKeys
  rcases h with ⟨rfl, rfl⟩ | ⟨hne, c, results, hreach, hsettled, rfl⟩
  · rfl
  · rw [if_neg fun hlength => hne (List.length_eq_zero_iff.1 hlength)]
    have hsize : 0 < (groupsCall keys).batchSize :=
      Int.natCast_pos.2 (show 0 < groupsBatchSize by decide)
    have hreturned : (groupsCall keys).Returned results c :=
      Batched.RangeCall.returned_of_settled (Int.natCast_nonneg _) hsize hreach hsettled
    have hvalues : ∀ (index : ℕ) value, .completed (index : ℤ) value ∈ c.shared.history →
        groupCallback history keys index = .ok value := by
      intro index value hmem
      refine Batched.RangeCall.completed_of_allowed (P := fun other value => ∀ n : ℕ, other = n →
        groupCallback history keys n = .ok value) ?_ hreach hmem index rfl
      rintro c' place value hallowed position other hthread n rfl
      exact hallowed position n hthread
    have hpass : rangePromise (groupCallback history keys) 0 (getDuplicateKeyGroups keys).length
        groupsBatchSize = .ok results :=
      hreturned.eq_rangePromise (Nat.zero_le _) (by decide) hvalues
    have hpass' : (rangePromise (groupCallback history keys) 0 (getDuplicateKeyGroups keys).length
        groupsBatchSize).bind (fun results => .ok (DuplicatedKeys.mk
          (results.flatMap (·.duplicates)) (results.flatMap (·.unresolved)))) =
        .ok ⟨results.flatMap (·.duplicates), results.flatMap (·.unresolved)⟩ := by
      rw [hpass]
      rfl
    exact hpass'

theorem copies_perm (hkeys : keys.Perm keys') (pubkey : String) :
    (copies keys pubkey).Perm (copies keys' pubkey) := hkeys.filter _

/-- What is listed by one guardian is listed by the other. -/
theorem listed_of_perm (hid : DistinctRecords keys) (hkeys : keys.Perm keys')
    (hevents : ∀ pubkey, (history pubkey).Perm (history' pubkey))
    (h : getDuplicatedKeys (fun key => .ok (history key)) keys = .ok result)
    (h' : getDuplicatedKeys (fun key => .ok (history' key)) keys' = .ok result') (a : RegistryKey) :
    (a ∈ result.duplicates → a ∈ result'.duplicates) ∧
      (a ∈ result.unresolved → a ∈ result'.unresolved) := by
  have hid' : DistinctRecords keys' := (hkeys.map recordId).nodup_iff.1 hid
  have hgroup : a ∈ result.duplicates ∨ a ∈ result.unresolved →
      (a ∈ result.duplicates ↔ a ∈ result'.duplicates) ∧
        (a ∈ result.unresolved ↔ a ∈ result'.unresolved) := by
    intro hlisted
    have hseveral := (mem_keys_of_listed hid h hlisted).2
    have hcopies := copies_perm hkeys a.key
    obtain ⟨r, hrun, hr⟩ := getDuplicatedKeys_process hid h hseveral
    obtain ⟨r', hrun', hr'⟩ :=
      getDuplicatedKeys_process hid' h' (hcopies.length_eq ▸ hseveral)
    have hagree := process_agree hcopies
      (List.ne_nil_of_length_pos (Nat.lt_of_succ_lt hseveral)) (hevents a.key)
      (fun b hb d hd hbd => hid.inj (mem_copies.1 hb).1 (mem_copies.1 hd).1 hbd) hrun hrun'
    refine ⟨?_, ?_⟩
    · rw [(hr a rfl).1, (hr' a rfl).1]
      exact hagree.duplicates a
    · rw [(hr a rfl).2, (hr' a rfl).2]
      exact hagree.unresolved a
  exact ⟨fun ha => (hgroup (Or.inl ha)).1.1 ha, fun ha => (hgroup (Or.inr ha)).2.1 ha⟩

/-- **Two guardians.** With the same keys and the same events, in any orders, they list the same
duplicates and the same unresolved keys, whatever the orders in which the groups complete. -/
theorem verdicts_agree (hid : DistinctRecords keys) (hkeys : keys.Perm keys')
    (hevents : ∀ pubkey, (history pubkey).Perm (history' pubkey))
    (h : Completes history keys result) (h' : Completes history' keys' result') :
    Agree result result' := by
  have hid' : DistinctRecords keys' := (hkeys.map recordId).nodup_iff.1 hid
  have hback := listed_of_perm hid' hkeys.symm (fun pubkey => (hevents pubkey).symm) h'.eq h.eq
  have hforth := listed_of_perm hid hkeys hevents h.eq h'.eq
  exact ⟨fun a => ⟨(hforth a).1, (hback a).1⟩, fun a => ⟨(hforth a).2, (hback a).2⟩⟩

/-- A test for `Answered`. -/
def answered (history : String → List SigningKeyEvent) (keys : List RegistryKey)
    (c : Configuration (Batched.RangeState DuplicatedKeys) (Batched.RangeThread DuplicatedKeys)) :
    Move Empty (Batched.RangeAnswer DuplicatedKeys) → Bool
  | .resume place (.resolved value) =>
    match c.threads[place]? with
    | some (.callback _ index) => (groupCallback history keys index.toNat).toOption == some value
    | _ => true
  | _ => true

theorem answered_sound (c : Configuration (Batched.RangeState DuplicatedKeys)
    (Batched.RangeThread DuplicatedKeys)) (move : Move Empty (Batched.RangeAnswer DuplicatedKeys))
    (h : answered history keys c move = true) : Answered history keys c move := by
  rcases move with call | ⟨place, value | _⟩
  · exact trivial
  · intro position index hthread
    simp only [answered, hthread, Int.toNat_natCast, beq_iff_eq] at h
    cases hvalue : groupCallback history keys index with
    | error e =>
      rw [hvalue] at h
      cases h
    | ok other =>
      rw [hvalue] at h
      cases h
      rfl
  · exact trivial

/-- One guardian has its keys and events in one order, and the other in another. The pubkey `0xaa` is held
by two operators, and `0xbb` twice by one. -/
def firstKeys : List RegistryKey :=
  [⟨"0xaa", "0x51", 3, false, 40, "0x01", true⟩, ⟨"0xbb", "0x52", 4, false, 7, "0x01", true⟩,
    ⟨"0xaa", "0x53", 5, false, 9, "0x02", true⟩, ⟨"0xbb", "0x52", 4, false, 2, "0x01", true⟩]

def secondKeys : List RegistryKey :=
  [⟨"0xbb", "0x52", 4, false, 2, "0x01", true⟩, ⟨"0xbb", "0x52", 4, false, 7, "0x01", true⟩,
    ⟨"0xaa", "0x53", 5, false, 9, "0x02", true⟩, ⟨"0xaa", "0x51", 3, false, 40, "0x01", true⟩]

def firstHistory (key : String) : List SigningKeyEvent :=
  [⟨3, key, "0x01", 7, 120, "0xb2"⟩, ⟨5, key, "0x02", 1, 110, "0xb1"⟩]

def secondHistory (key : String) : List SigningKeyEvent :=
  [⟨5, key, "0x02", 1, 110, "0xb1"⟩, ⟨3, key, "0x01", 7, 120, "0xb2"⟩]

/-- The group of `0xaa`, and that of `0xbb`. -/
def sampleVerdicts : DuplicatedKeys × DuplicatedKeys :=
  (⟨[⟨"0xaa", "0x51", 3, false, 40, "0x01", true⟩], []⟩,
    ⟨[⟨"0xbb", "0x52", 4, false, 7, "0x01", true⟩], []⟩)

theorem first_run : (((groupsCall firstKeys).program DuplicatedKeys).run
    (answered firstHistory firstKeys) ((groupsCall firstKeys).begun DuplicatedKeys)
    [.resume 1 (.resolved sampleVerdicts.2), .resume 0 (.resolved sampleVerdicts.1),
      .resume 0 .settled]).isSome = true := by
  decide +kernel

theorem second_run : (((groupsCall secondKeys).program DuplicatedKeys).run
    (answered secondHistory secondKeys) ((groupsCall secondKeys).begun DuplicatedKeys)
    [.resume 0 (.resolved sampleVerdicts.2), .resume 0 (.resolved sampleVerdicts.1),
      .resume 0 .settled]).isSome = true := by
  decide +kernel

theorem verdicts_agree_sample :
    Agree ⟨sampleVerdicts.1.duplicates ++ sampleVerdicts.2.duplicates, []⟩
      ⟨sampleVerdicts.2.duplicates ++ sampleVerdicts.1.duplicates, []⟩ :=
  verdicts_agree (by unfold DistinctRecords; decide)
    (show firstKeys.Perm secondKeys by decide)
    (fun pubkey => List.Perm.swap _ _ [])
    (Or.inr ⟨by decide, _, [sampleVerdicts.1, sampleVerdicts.2],
      Program.Reachable.refl.run answered_sound (Option.some_get first_run).symm, by decide +kernel,
      rfl⟩)
    (Or.inr ⟨by decide, _, [sampleVerdicts.2, sampleVerdicts.1],
      Program.Reachable.refl.run answered_sound (Option.some_get second_run).symm, by decide +kernel,
      rfl⟩)

end Duplicates

end CouncilDaemon
