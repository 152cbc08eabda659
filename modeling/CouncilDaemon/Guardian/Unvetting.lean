import CouncilDaemon.Guardian.Interfaces
import CouncilDaemon.Lib.FixedWidth
import CouncilDaemon.Lib.InsertionMap

/-!
# Unvetting

The keys flagged in a module are unvetted by lowering the vetted counts of their operators to the
smallest flagged index, for as many operators at a time as the contract takes. The operators and the
counts go to the contract as two strings of 8-byte and 16-byte words.

One round unvets what is flagged of the listed operators and nothing below (`handleUnvetting_round`);
as many rounds as it takes to list every operator leave no flagged key vetted (`unvetting_correct`).
-/

namespace CouncilDaemon

namespace Unvetting

/-! ## The source -/

/-- The hexadecimal text of `n` with a given number of digits. -/
def hexText (digits n : ℕ) : String :=
  "0x" ++ String.ofList ((FixedWidth.digits 16 digits n).map Nat.digitChar)

/-- What is used of the package that formats numbers. `hexlify` writes a safe integer with as many
bytes as it has, at least one; `hexZeroPad` puts zeros in front up to a number of bytes. The package
refuses the largest safe integer, `2 ^ 53 - 1`, as well; that one number is not kept apart here. -/
structure EthersUtils where
  hexlify : ℕ → Except String String
  hexZeroPad : String → ℕ → Except String String
  hexlify_ok : ∀ n < 2 ^ 53, ∃ bytes, n < 256 ^ (bytes + 1) ∧ (bytes = 0 ∨ 256 ^ bytes ≤ n) ∧
    hexlify n = .ok (hexText (2 * (bytes + 1)) n)
  hexZeroPad_ok : ∀ bytes length n, n < 256 ^ bytes → bytes ≤ length →
    hexZeroPad (hexText (2 * bytes) n) length = .ok (hexText (2 * length) n)

structure UnvetData where
  operatorIds : String
  vettedKeysByOperator : String

section Source

variable (utils : EthersUtils)

def padHex (decimal bytes : ℕ) : Except String String := do
  let hex ← utils.hexlify decimal
  utils.hexZeroPad hex bytes

def padAndJoinHex (numbers : List ℕ) (bytes : ℕ) : Except String String := do
  let paddedHexArray ← numbers.mapM fun num => do
    let hex ← padHex utils num bytes
    return String.ofList (hex.toList.drop 2)
  return "0x" ++ String.join paddedHexArray

def packVettedSigningKeysCounts (vettedSigningKeysCounts : List ℕ) : Except String String :=
  padAndJoinHex utils vettedSigningKeysCounts 16

def packNodeOperatorIds (nodeOperatorIds : List ℕ) : Except String String :=
  padAndJoinHex utils nodeOperatorIds 8

def collectInvalidKeys (stakingModuleData : StakingModuleData) : List RegistryKey :=
  stakingModuleData.invalidKeys ++ stakingModuleData.duplicatedKeys ++
    stakingModuleData.frontRunKeys ++ stakingModuleData.crossTypeKeys

/-- The step of the loop of `findNewVettedAmount`. -/
def vettedAmountStep (acc : InsertionMap ℕ ℕ) (key : RegistryKey) : InsertionMap ℕ ℕ :=
  if (acc.get? key.operatorIndex).elim true (fun vettedAmount => key.index < vettedAmount) then
    acc.set key.operatorIndex key.index
  else acc

def findNewVettedAmount (keysForUnvetting : List RegistryKey) : InsertionMap ℕ ℕ :=
  keysForUnvetting.foldl vettedAmountStep InsertionMap.empty

def getFirstChunk (operatorNewVettedAmount : InsertionMap ℕ ℕ) (maxOperatorsPerUnvetting : ℕ) :
    Except String UnvetData := do
  let chunk := operatorNewVettedAmount.entries.take maxOperatorsPerUnvetting
  let operatorIds ← packNodeOperatorIds utils (chunk.map Prod.fst)
  let vettedKeysByOperator ← packVettedSigningKeysCounts utils (chunk.map Prod.snd)
  return ⟨operatorIds, vettedKeysByOperator⟩

def calculateNewStakingLimit (keysForUnvetting : List RegistryKey)
    (maxOperatorsPerUnvetting : ℕ) : Except String UnvetData :=
  getFirstChunk utils (findNewVettedAmount keysForUnvetting) maxOperatorsPerUnvetting

/-- What `handleUnvetting` passes to `processUnvetting`, if it does. -/
def handleUnvetting (getMaxOperatorsPerUnvetting : Except String ℕ)
    (stakingModuleData : StakingModuleData) : Except String (Option UnvetData) := do
  let invalidKeys := collectInvalidKeys stakingModuleData
  if invalidKeys.length = 0 then return none
  else
    let maxOperatorsPerUnvetting ← getMaxOperatorsPerUnvetting
    let firstChunk ← calculateNewStakingLimit utils invalidKeys maxOperatorsPerUnvetting
    return some firstChunk

end Source

/-! ## The contract -/

/-- The numbers in a string of words of `bytes` bytes. -/
def decodeWords (bytes : ℕ) (text : String) : List ℕ :=
  (FixedWidth.words (2 * bytes) ((text.toList.drop 2).map FixedWidth.charDigit)).map
    (FixedWidth.value 16)

def UnvetData.operators (data : UnvetData) : List ℕ := decodeWords 8 data.operatorIds

def UnvetData.counts (data : UnvetData) : List ℕ := decodeWords 16 data.vettedKeysByOperator

/-- The vetted counts after the contract has set those of the listed operators. -/
def unvet (vetted : ℕ → ℕ) (data : UnvetData) : ℕ → ℕ :=
  (data.operators.zip data.counts).foldl (fun vetted entry => Function.update vetted entry.1 entry.2)
    vetted

/-! ## Words -/

variable {utils : EthersUtils}

theorem padHex_eq {n bytes : ℕ} (hn : n < 2 ^ 53) (hbytes : n < 256 ^ bytes) (hpos : 0 < bytes) :
    padHex utils n bytes = .ok (hexText (2 * bytes) n) := by
  obtain ⟨k, hlt, hmin, hhex⟩ := utils.hexlify_ok n hn
  have hk : k + 1 ≤ bytes := by
    rcases hmin with rfl | hmin
    · exact hpos
    · exact (Nat.pow_lt_pow_iff_right (by norm_num)).1 (lt_of_le_of_lt hmin hbytes)
  rw [padHex, hhex]
  exact utils.hexZeroPad_ok _ _ _ hlt hk

theorem toList_drop_hexText (digits n : ℕ) :
    (hexText digits n).toList.drop 2 = (FixedWidth.digits 16 digits n).map Nat.digitChar := by
  rw [hexText, String.toList_append, String.toList_ofList, String.toList_ofList]
  rfl

/-- Numbers that fit are written one after the other. -/
theorem padAndJoinHex_eq {bytes : ℕ} (hpos : 0 < bytes) : ∀ {numbers : List ℕ},
    (∀ n ∈ numbers, n < 2 ^ 53 ∧ n < 256 ^ bytes) →
    padAndJoinHex utils numbers bytes = .ok ("0x" ++ String.join (numbers.map fun n =>
      String.ofList ((FixedWidth.digits 16 (2 * bytes) n).map Nat.digitChar))) := by
  intro numbers h
  have hmap : (numbers.mapM fun num => do
      let hex ← padHex utils num bytes
      return String.ofList (hex.toList.drop 2)) = .ok (numbers.map fun n =>
        String.ofList ((FixedWidth.digits 16 (2 * bytes) n).map Nat.digitChar)) := by
    induction numbers with
    | nil => rfl
    | cons n numbers ih =>
      obtain ⟨hn, hbytes⟩ := h n (List.mem_cons_self ..)
      rw [List.mapM_cons, ih fun x hx => h x (List.mem_cons_of_mem _ hx),
        padHex_eq hn hbytes hpos]
      show Except.ok (String.ofList ((hexText (2 * bytes) n).toList.drop 2) :: _) = _
      rw [toList_drop_hexText]
      rfl
  rw [padAndJoinHex, hmap]
  rfl

/-- What is packed is decoded again. -/
theorem decodeWords_padAndJoinHex (utils : EthersUtils) (numbers : List ℕ) {bytes : ℕ}
    (hpos : 0 < bytes) (h : ∀ n ∈ numbers, n < 2 ^ 53 ∧ n < 256 ^ bytes) :
    ∃ text, padAndJoinHex utils numbers bytes = .ok text ∧ decodeWords bytes text = numbers ∧
      text.length = 2 + numbers.length * (2 * bytes) := by
  have hlength : ∀ n : ℕ, (String.ofList ((FixedWidth.digits 16 (2 * bytes) n).map
      Nat.digitChar)).length = 2 * bytes := by
    intro n
    rw [String.length_ofList, List.length_map, FixedWidth.length_digits]
  have hdigits : (("0x" ++ String.join (numbers.map fun n =>
      String.ofList ((FixedWidth.digits 16 (2 * bytes) n).map Nat.digitChar))).toList.drop 2).map
        FixedWidth.charDigit = (numbers.map (FixedWidth.digits 16 (2 * bytes))).flatten := by
    rw [String.toList_append]
    show (String.join _).toList.map _ = _
    rw [String.toList_join, List.flatMap_map, List.map_flatMap, List.flatMap_def]
    congr 1
    apply List.map_congr_left
    intro n _
    rw [String.toList_ofList]
    exact FixedWidth.map_charDigit_digits _ _
  refine ⟨_, padAndJoinHex_eq hpos h, ?_, ?_⟩
  · rw [decodeWords, hdigits, FixedWidth.words_flatten (by omega), List.map_map]
    · conv_rhs => rw [← List.map_id numbers]
      apply List.map_congr_left
      intro n hn
      refine FixedWidth.value_digits ?_
      have := (h n hn).2
      rwa [show (256 : ℕ) = 16 ^ 2 by norm_num, ← pow_mul] at this
    · intro word hword
      obtain ⟨n, _, rfl⟩ := List.mem_map.1 hword
      exact FixedWidth.length_digits _ _ _
  · rw [String.length_append, String.length_join, List.map_map]
    simp only [Function.comp_def, hlength, List.map_const', List.sum_replicate, smul_eq_mul]
    rfl

/-! ## The smallest flagged indexes -/

/-- `count` is the smallest index of a key of the operator. -/
def IsLeastIndex (keys : List RegistryKey) (operator count : ℕ) : Prop :=
  (∃ key ∈ keys, key.operatorIndex = operator ∧ key.index = count) ∧
    ∀ key ∈ keys, key.operatorIndex = operator → count ≤ key.index

theorem get?_vettedAmountStep {keys : List RegistryKey} {acc : InsertionMap ℕ ℕ}
    (h : ∀ operator, (acc.get? operator).elim (∀ key ∈ keys, key.operatorIndex ≠ operator)
      (IsLeastIndex keys operator)) (key : RegistryKey) (operator : ℕ) :
    ((vettedAmountStep acc key).get? operator).elim
      (∀ k ∈ keys ++ [key], k.operatorIndex ≠ operator) (IsLeastIndex (keys ++ [key]) operator) := by
  have hop := h operator
  have hlast : key ∈ keys ++ [key] := List.mem_append_right _ (List.mem_singleton_self key)
  unfold vettedAmountStep
  by_cases hkey : key.operatorIndex = operator
  · subst hkey
    split_ifs with hless
    · rw [InsertionMap.get?_set, if_pos rfl]
      refine ⟨⟨key, hlast, rfl, rfl⟩, ?_⟩
      intro k hk hkop
      rcases List.mem_append.1 hk with hk | hk
      · cases hget : acc.get? key.operatorIndex with
        | none =>
          rw [hget] at hop
          exact absurd hkop (hop k hk)
        | some amount =>
          rw [hget] at hop hless
          exact (of_decide_eq_true hless).le.trans (hop.2 k hk hkop)
      · rw [List.mem_singleton.1 hk]
    · cases hget : acc.get? key.operatorIndex with
      | none =>
        rw [hget] at hless
        exact absurd rfl hless
      | some amount =>
        rw [hget] at hop hless
        obtain ⟨⟨k, hk, hkop⟩, hall⟩ := hop
        refine ⟨⟨k, List.mem_append_left _ hk, hkop⟩, ?_⟩
        intro k' hk' hkop'
        rcases List.mem_append.1 hk' with hk' | hk'
        · exact hall k' hk' hkop'
        · rw [List.mem_singleton.1 hk']
          exact not_lt.1 fun hlt => hless (decide_eq_true hlt)
  · have hget : ((if (acc.get? key.operatorIndex).elim true fun amount => key.index < amount then
        acc.set key.operatorIndex key.index else acc).get? operator) = acc.get? operator := by
      split_ifs
      · rw [InsertionMap.get?_set, if_neg hkey]
      · rfl
    rw [hget]
    cases hacc : acc.get? operator with
    | none =>
      rw [hacc] at hop
      intro k hk
      rcases List.mem_append.1 hk with hk | hk
      · exact hop k hk
      · rw [List.mem_singleton.1 hk]
        exact hkey
    | some amount =>
      rw [hacc] at hop
      obtain ⟨⟨k, hk, hkop⟩, hall⟩ := hop
      refine ⟨⟨k, List.mem_append_left _ hk, hkop⟩, ?_⟩
      intro k' hk' hkop'
      rcases List.mem_append.1 hk' with hk' | hk'
      · exact hall k' hk' hkop'
      · rw [List.mem_singleton.1 hk'] at hkop'
        exact absurd hkop' hkey

/-- The map has the smallest index of each operator with keys. -/
theorem get?_findNewVettedAmount (keys : List RegistryKey) : ∀ operator,
    ((findNewVettedAmount keys).get? operator).elim (∀ key ∈ keys, key.operatorIndex ≠ operator)
      (IsLeastIndex keys operator) := by
  induction keys using List.reverseRecOn with
  | nil =>
    intro operator key hkey
    cases hkey
  | append_singleton keys key ih =>
    intro operator
    rw [findNewVettedAmount, List.foldl_append]
    exact get?_vettedAmountStep ih key operator

theorem mem_findNewVettedAmount {keys : List RegistryKey} {operator count : ℕ}
    (h : (operator, count) ∈ (findNewVettedAmount keys).entries) :
    IsLeastIndex keys operator count := by
  have hget := get?_findNewVettedAmount keys operator
  rw [(InsertionMap.mem_entries_iff _).1 h] at hget
  exact hget

theorem mem_operators_iff {keys : List RegistryKey} {operator : ℕ} :
    operator ∈ (findNewVettedAmount keys).entries.map Prod.fst ↔
      ∃ key ∈ keys, key.operatorIndex = operator := by
  constructor
  · intro h
    obtain ⟨⟨op, count⟩, hmem, rfl⟩ := List.mem_map.1 h
    obtain ⟨⟨key, hkey, hop, _⟩, _⟩ := mem_findNewVettedAmount hmem
    exact ⟨key, hkey, hop⟩
  · rintro ⟨key, hkey, rfl⟩
    have hget := get?_findNewVettedAmount keys key.operatorIndex
    cases hcount : (findNewVettedAmount keys).get? key.operatorIndex with
    | none =>
      rw [hcount] at hget
      exact absurd rfl (hget key hkey)
    | some count =>
      exact List.mem_map.2 ⟨(key.operatorIndex, count),
        (InsertionMap.mem_entries_iff _).2 hcount, rfl⟩

/-! ## One round -/

/-- The flagged keys, by operator and index, that are still vetted. -/
def stillVetted (flagged : Finset (ℕ × ℕ)) (vetted : ℕ → ℕ) : Finset (ℕ × ℕ) :=
  flagged.filter fun key => key.2 < vetted key.1

/-- The flagged keys that are still vetted are in the lists of the module, in whatever list and
order and as often as it may be. -/
def Reports (flagged : Finset (ℕ × ℕ)) (vetted : ℕ → ℕ) (data : StakingModuleData) : Prop :=
  ∀ key : ℕ × ℕ, (∃ k ∈ collectInvalidKeys data, (k.operatorIndex, k.index) = key) ↔
    key ∈ stillVetted flagged vetted

/-- What one round does. -/
structure RoundCorrect (flagged : Finset (ℕ × ℕ)) (deposited vetted : ℕ → ℕ) (max : ℕ)
    (data : UnvetData) : Prop where
  /-- The strings are words of eight and of sixteen bytes. -/
  ids_length : data.operatorIds.length = 2 + data.operators.length * 16
  counts_length : data.vettedKeysByOperator.length = 2 + data.counts.length * 32
  length_eq : data.operators.length = data.counts.length
  nodup : data.operators.Nodup
  length_le : data.operators.length ≤ max
  /-- The count of an operator is its smallest flagged index. -/
  count : ∀ entry ∈ data.operators.zip data.counts,
    deposited entry.1 ≤ entry.2 ∧ entry.2 < vetted entry.1 ∧ entry ∈ stillVetted flagged vetted ∧
      ∀ key ∈ stillVetted flagged vetted, key.1 = entry.1 → entry.2 ≤ key.2
  unvetted : ∀ key ∈ flagged, key.1 ∈ data.operators → unvet vetted data key.1 ≤ key.2
  /-- A key below the smallest flagged index of its operator stays vetted. -/
  spared : ∀ operator index, index < vetted operator →
    (∀ key ∈ stillVetted flagged vetted, key.1 = operator → index < key.2) →
    index < unvet vetted data operator
  unlisted : ∀ operator, operator ∉ data.operators → unvet vetted data operator = vetted operator

theorem foldl_update_of_not_mem (entries : List (ℕ × ℕ)) : ∀ {vetted : ℕ → ℕ} {operator : ℕ},
    operator ∉ entries.map Prod.fst →
    entries.foldl (fun vetted entry => Function.update vetted entry.1 entry.2) vetted operator =
      vetted operator := by
  induction entries with
  | nil => intro vetted operator _; rfl
  | cons entry entries ih =>
    intro vetted operator hnot
    rw [List.map_cons, List.mem_cons, not_or] at hnot
    rw [List.foldl_cons, ih hnot.2, Function.update_of_ne hnot.1]

theorem foldl_update_of_mem (entries : List (ℕ × ℕ)) : ∀ {vetted : ℕ → ℕ} {entry : ℕ × ℕ},
    (entries.map Prod.fst).Nodup → entry ∈ entries →
    entries.foldl (fun vetted entry => Function.update vetted entry.1 entry.2) vetted entry.1 =
      entry.2 := by
  induction entries with
  | nil => intro vetted entry _ h; cases h
  | cons first entries ih =>
    intro vetted entry hnodup hmem
    obtain ⟨hnot, hrest⟩ := List.nodup_cons.1 hnodup
    rw [List.foldl_cons]
    rcases List.mem_cons.1 hmem with rfl | hmem
    · rw [foldl_update_of_not_mem entries hnot, Function.update_self]
    · exact ih hrest hmem

section Round

variable {flagged : Finset (ℕ × ℕ)} {vetted : ℕ → ℕ} {max : ℕ} {data : StakingModuleData}

theorem mem_stillVetted {key : ℕ × ℕ} :
    key ∈ stillVetted flagged vetted ↔ key ∈ flagged ∧ key.2 < vetted key.1 := Finset.mem_filter

/-- The entries of a report are the smallest flagged indexes. -/
theorem Reports.entry (hreports : Reports flagged vetted data) {entry : ℕ × ℕ}
    (h : entry ∈ (findNewVettedAmount (collectInvalidKeys data)).entries) :
    entry ∈ stillVetted flagged vetted ∧
      ∀ key ∈ stillVetted flagged vetted, key.1 = entry.1 → entry.2 ≤ key.2 := by
  obtain ⟨⟨k, hk, hop, hindex⟩, hall⟩ := mem_findNewVettedAmount h
  refine ⟨(hreports entry).1 ⟨k, hk, Prod.ext hop hindex⟩, ?_⟩
  intro key hkey hkeyOp
  obtain ⟨k', hk', rfl⟩ := (hreports key).2 hkey
  exact hall k' hk' hkeyOp

/-- The operators of a report are those with a flagged key. -/
theorem Reports.operators (hreports : Reports flagged vetted data) {operator : ℕ} :
    operator ∈ (findNewVettedAmount (collectInvalidKeys data)).entries.map Prod.fst ↔
      ∃ key ∈ stillVetted flagged vetted, key.1 = operator := by
  rw [mem_operators_iff]
  constructor
  · rintro ⟨k, hk, rfl⟩
    exact ⟨(k.operatorIndex, k.index), (hreports _).1 ⟨k, hk, rfl⟩, rfl⟩
  · rintro ⟨key, hkey, rfl⟩
    obtain ⟨k, hk, rfl⟩ := (hreports key).2 hkey
    exact ⟨k, hk, rfl⟩

/-- The numbers of the keys are safe integers, as `EthersUtils` takes them. -/
def SafeKeys (flagged : Finset (ℕ × ℕ)) : Prop := ∀ key ∈ flagged, key.1 < 2 ^ 53 ∧ key.2 < 2 ^ 53

/-- A report of some key gives a chunk: the first entries, packed. -/
theorem handleUnvetting_chunk (hsafe : SafeKeys flagged) (hreports : Reports flagged vetted data)
    (hne : (stillVetted flagged vetted).Nonempty) :
    ∃ chunk, handleUnvetting utils (.ok max) data = .ok (some chunk) ∧
      chunk.operators =
        ((findNewVettedAmount (collectInvalidKeys data)).entries.take max).map Prod.fst ∧
      chunk.counts =
        ((findNewVettedAmount (collectInvalidKeys data)).entries.take max).map Prod.snd ∧
      chunk.operatorIds.length = 2 + chunk.operators.length * 16 ∧
      chunk.vettedKeysByOperator.length = 2 + chunk.counts.length * 32 := by
  have hbound : ∀ entry ∈ (findNewVettedAmount (collectInvalidKeys data)).entries.take max,
      entry.1 < 2 ^ 53 ∧ entry.2 < 2 ^ 53 := by
    intro entry hentry
    exact hsafe entry (mem_stillVetted.1 (hreports.entry (List.mem_of_mem_take hentry)).1).1
  have hpow : ∀ {n : ℕ}, n < 2 ^ 53 → n < 256 ^ 8 ∧ n < 256 ^ 16 := by
    intro n hn
    exact ⟨lt_trans hn (by norm_num), lt_trans hn (by norm_num)⟩
  obtain ⟨operatorIds, hids, hdecodeIds, hidsLength⟩ := decodeWords_padAndJoinHex utils
    (((findNewVettedAmount (collectInvalidKeys data)).entries.take max).map Prod.fst)
    (show 0 < 8 by norm_num) (by
      intro n hn
      obtain ⟨entry, hentry, rfl⟩ := List.mem_map.1 hn
      exact ⟨(hbound entry hentry).1, (hpow (hbound entry hentry).1).1⟩)
  obtain ⟨counts, hcounts, hdecodeCounts, hcountsLength⟩ := decodeWords_padAndJoinHex utils
    (((findNewVettedAmount (collectInvalidKeys data)).entries.take max).map Prod.snd)
    (show 0 < 16 by norm_num) (by
      intro n hn
      obtain ⟨entry, hentry, rfl⟩ := List.mem_map.1 hn
      exact ⟨(hbound entry hentry).2, (hpow (hbound entry hentry).2).2⟩)
  rw [← hdecodeIds] at hidsLength
  rw [← hdecodeCounts] at hcountsLength
  refine ⟨⟨operatorIds, counts⟩, ?_, hdecodeIds, hdecodeCounts, hidsLength, hcountsLength⟩
  have hkeys : (collectInvalidKeys data).length ≠ 0 := by
    obtain ⟨key, hkey⟩ := hne
    obtain ⟨k, hk, _⟩ := (hreports key).2 hkey
    exact (List.length_pos_of_mem hk).ne'
  simp only [handleUnvetting, if_neg hkeys, calculateNewStakingLimit, getFirstChunk,
    packNodeOperatorIds, packVettedSigningKeysCounts]
  show (padAndJoinHex utils _ 8 >>= _) >>= _ = _
  rw [hids]
  show (padAndJoinHex utils _ 16 >>= _) >>= _ = _
  rw [hcounts]
  rfl

/-- **One round.** The chunk of a report lists different operators, at most as many as allowed, each
with its smallest flagged index; setting the vetted counts unvets what is flagged of them and
nothing below. -/
theorem handleUnvetting_round (utils : EthersUtils) (deposited : ℕ → ℕ) (max : ℕ) (hsafe : SafeKeys flagged)
    (hunused : ∀ key ∈ flagged, deposited key.1 ≤ key.2) (hreports : Reports flagged vetted data)
    (hne : (stillVetted flagged vetted).Nonempty) :
    ∃ chunk, handleUnvetting utils (.ok max) data = .ok (some chunk) ∧
      RoundCorrect flagged deposited vetted max chunk ∧
      chunk.operators =
        ((findNewVettedAmount (collectInvalidKeys data)).entries.take max).map Prod.fst := by
  obtain ⟨chunk, hchunk, hoperators, hcounts, hidsLength, hcountsLength⟩ :=
    handleUnvetting_chunk hsafe hreports hne
  refine ⟨chunk, hchunk, ?_, hoperators⟩
  have hzip : chunk.operators.zip chunk.counts =
      (findNewVettedAmount (collectInvalidKeys data)).entries.take max := by
    rw [hoperators, hcounts, List.zip_map']
    exact List.map_id _
  have hnodup : chunk.operators.Nodup := by
    rw [hoperators, List.map_take]
    exact (findNewVettedAmount (collectInvalidKeys data)).nodup.sublist (List.take_sublist _ _)
  have hentry : ∀ entry ∈ chunk.operators.zip chunk.counts,
      entry ∈ stillVetted flagged vetted ∧
        ∀ key ∈ stillVetted flagged vetted, key.1 = entry.1 → entry.2 ≤ key.2 := by
    intro entry h
    rw [hzip] at h
    exact hreports.entry (List.mem_of_mem_take h)
  have hset : ∀ entry ∈ chunk.operators.zip chunk.counts, unvet vetted chunk entry.1 = entry.2 := by
    intro entry h
    apply foldl_update_of_mem _ _ h
    rwa [hzip, ← hoperators]
  have hunlisted : ∀ operator, operator ∉ chunk.operators →
      unvet vetted chunk operator = vetted operator := by
    intro operator hnot
    apply foldl_update_of_not_mem
    rwa [hzip, ← hoperators]
  have hlisted : ∀ operator ∈ chunk.operators,
      ∃ entry ∈ chunk.operators.zip chunk.counts, entry.1 = operator := by
    intro operator h
    rw [hoperators, ← hzip] at h
    obtain ⟨entry, hmem, rfl⟩ := List.mem_map.1 h
    exact ⟨entry, hmem, rfl⟩
  refine ⟨hidsLength, hcountsLength, ?_, hnodup, ?_, ?_, ?_, ?_, hunlisted⟩
  · rw [hoperators, hcounts, List.length_map, List.length_map]
  · rw [hoperators, List.length_map]
    exact List.length_take_le _ _
  · intro entry h
    obtain ⟨hmem, hleast⟩ := hentry entry h
    obtain ⟨hflagged, hvetted⟩ := mem_stillVetted.1 hmem
    exact ⟨hunused entry hflagged, hvetted, hmem, hleast⟩
  · intro key hkey hlist
    obtain ⟨entry, hmem, hop⟩ := hlisted key.1 hlist
    rw [← hop, hset entry hmem]
    obtain ⟨hmemEntry, hleast⟩ := hentry entry hmem
    by_cases hvetted : key.2 < vetted key.1
    · exact hleast key (mem_stillVetted.2 ⟨hkey, hvetted⟩) hop.symm
    · have hlt := (mem_stillVetted.1 hmemEntry).2
      rw [hop] at hlt
      omega
  · intro operator index hvetted hbelow
    by_cases hlist : operator ∈ chunk.operators
    · obtain ⟨entry, hmem, rfl⟩ := hlisted operator hlist
      rw [hset entry hmem]
      exact hbelow entry (hentry entry hmem).1 rfl
    · rwa [hunlisted operator hlist]

/-! ## Rounds -/

/-- The vetted counts after a round on the data of the module. -/
def afterRound (utils : EthersUtils) (max : ℕ) (data : StakingModuleData) (vetted : ℕ → ℕ) : ℕ → ℕ :=
  ((handleUnvetting utils (.ok max) data).toOption.bind id).elim vetted (unvet vetted)

/-- The vetted counts that a number of rounds leads to, each on a report of the keys that are
flagged and still vetted. -/
inductive Rounds (utils : EthersUtils) (max : ℕ) (flagged : Finset (ℕ × ℕ)) :
    ℕ → (ℕ → ℕ) → (ℕ → ℕ) → Prop
  | done (vetted : ℕ → ℕ) : Rounds utils max flagged 0 vetted vetted
  | round {n : ℕ} {vetted vetted' : ℕ → ℕ} (data : StakingModuleData) :
      Reports flagged vetted data →
      Rounds utils max flagged n (afterRound utils max data vetted) vetted' →
      Rounds utils max flagged (n + 1) vetted vetted'

/-- The keys are reported by some lists. -/
theorem exists_reports (flagged : Finset (ℕ × ℕ)) (vetted : ℕ → ℕ) :
    ∃ data, Reports flagged vetted data := by
  let keyOf : ℕ × ℕ → RegistryKey := fun key => ⟨"", "", key.1, false, key.2, "", true⟩
  refine ⟨⟨"", [], 0, 0, "", "", [], (stillVetted flagged vetted).toList.map keyOf, [], [], [], none,
    false⟩, ?_⟩
  intro key
  simp only [collectInvalidKeys, List.append_nil, List.mem_map, Finset.mem_toList]
  constructor
  · rintro ⟨_, ⟨key', hkey', rfl⟩, rfl⟩
    exact hkey'
  · intro hkey
    exact ⟨keyOf key, ⟨key, hkey, rfl⟩, rfl⟩

theorem exists_rounds (utils : EthersUtils) (max : ℕ) (flagged : Finset (ℕ × ℕ)) : ∀ (n : ℕ)
    (vetted : ℕ → ℕ), ∃ vetted', Rounds utils max flagged n vetted vetted' := by
  intro n
  induction n with
  | zero => exact fun vetted => ⟨vetted, Rounds.done vetted⟩
  | succ n ih =>
    intro vetted
    obtain ⟨data, hreports⟩ := exists_reports flagged vetted
    obtain ⟨vetted', hrounds⟩ := ih (afterRound utils max data vetted)
    exact ⟨vetted', Rounds.round data hreports hrounds⟩

/-- The operators with a flagged key that is still vetted. -/
def flaggedOperators (flagged : Finset (ℕ × ℕ)) (vetted : ℕ → ℕ) : Finset ℕ :=
  (stillVetted flagged vetted).image Prod.fst

/-- A round takes as many operators off the list as allowed. -/
theorem card_afterRound (utils : EthersUtils) (hsafe : SafeKeys flagged)
    (hreports : Reports flagged vetted data) :
    (flaggedOperators flagged (afterRound utils max data vetted)).card =
      (flaggedOperators flagged vetted).card - max := by
  rcases (stillVetted flagged vetted).eq_empty_or_nonempty with hempty | hne
  · have hnone : collectInvalidKeys data = [] := by
      rw [List.eq_nil_iff_forall_not_mem]
      intro k hk
      have hmem := (hreports _).1 ⟨k, hk, rfl⟩
      rw [hempty] at hmem
      exact Finset.notMem_empty _ hmem
    have hround : afterRound utils max data vetted = vetted := by
      rw [afterRound, handleUnvetting, hnone]
      rfl
    rw [hround, flaggedOperators, hempty]
    simp
  · obtain ⟨chunk, hchunk, hround, hoperators⟩ := handleUnvetting_round utils
      (fun _ => 0) max hsafe (fun _ _ => Nat.zero_le _) hreports hne
    have hafter : afterRound utils max data vetted = unvet vetted chunk := by
      rw [afterRound, hchunk]
      rfl
    have hset : flaggedOperators flagged vetted =
        ((findNewVettedAmount (collectInvalidKeys data)).entries.map Prod.fst).toFinset := by
      ext operator
      rw [flaggedOperators, Finset.mem_image, List.mem_toFinset, hreports.operators]
    have hrest : flaggedOperators flagged (unvet vetted chunk) =
        flaggedOperators flagged vetted \ chunk.operators.toFinset := by
      ext operator
      simp only [flaggedOperators, Finset.mem_image, Finset.mem_sdiff, List.mem_toFinset]
      constructor
      · rintro ⟨key, hkey, rfl⟩
        obtain ⟨hflagged, hvetted⟩ := mem_stillVetted.1 hkey
        have hnot : key.1 ∉ chunk.operators := fun hlist =>
          absurd hvetted (not_lt.2 (hround.unvetted key hflagged hlist))
        rw [hround.unlisted key.1 hnot] at hvetted
        exact ⟨⟨key, mem_stillVetted.2 ⟨hflagged, hvetted⟩, rfl⟩, hnot⟩
      · rintro ⟨⟨key, hkey, rfl⟩, hnot⟩
        obtain ⟨hflagged, hvetted⟩ := mem_stillVetted.1 hkey
        refine ⟨key, mem_stillVetted.2 ⟨hflagged, ?_⟩, rfl⟩
        rwa [hround.unlisted key.1 hnot]
    have hsubset : chunk.operators.toFinset ⊆ flaggedOperators flagged vetted := by
      intro operator h
      rw [hset]
      rw [List.mem_toFinset, hoperators, List.map_take] at h
      exact List.mem_toFinset.2 (List.mem_of_mem_take h)
    rw [hafter, hrest, Finset.card_sdiff_of_subset hsubset,
      List.toFinset_card_of_nodup hround.nodup, hset,
      List.toFinset_card_of_nodup (findNewVettedAmount (collectInvalidKeys data)).nodup, hoperators]
    simp only [List.length_map, List.length_take]
    omega

/-- After `n` rounds, `n * max` operators are off the list. -/
theorem card_rounds (utils : EthersUtils) (hsafe : SafeKeys flagged) {n : ℕ}
    {vetted' : ℕ → ℕ} (h : Rounds utils max flagged n vetted vetted') :
    (flaggedOperators flagged vetted').card = (flaggedOperators flagged vetted).card - n * max := by
  induction h with
  | done vetted => simp
  | round data hreports _ ih =>
    rw [ih, card_afterRound utils hsafe hreports, Nat.succ_mul]
    omega

theorem flaggedOperators_eq_empty (h : (flaggedOperators flagged vetted).card = 0) :
    ∀ key ∈ flagged, vetted key.1 ≤ key.2 := by
  intro key hkey
  by_contra hvetted
  have hmem : key.1 ∈ flaggedOperators flagged vetted :=
    Finset.mem_image_of_mem _ (mem_stillVetted.2 ⟨hkey, not_le.1 hvetted⟩)
  rw [Finset.card_eq_zero.1 h] at hmem
  exact Finset.notMem_empty _ hmem

end Round

/-- **Unvetting.** Whatever lists report them, a round unvets what is flagged of the operators it
lists, and no key below; after as many rounds as it takes to list all operators with a flagged key,
no flagged key is vetted. -/
theorem unvetting_correct (utils : EthersUtils) {flagged : Finset (ℕ × ℕ)}
    {deposited vetted : ℕ → ℕ} {max : ℕ} (hmax : 1 ≤ max) (hsafe : SafeKeys flagged)
    (hunused : ∀ key ∈ flagged, deposited key.1 ≤ key.2)
    (hne : (stillVetted flagged vetted).Nonempty) :
    (∀ data, Reports flagged vetted data → ∃ chunk,
      handleUnvetting utils (.ok max) data = .ok (some chunk) ∧
      RoundCorrect flagged deposited vetted max chunk) ∧
    (∃ vetted', Rounds utils max flagged
      (((flaggedOperators flagged vetted).card + max - 1) / max) vetted vetted') ∧
    ∀ vetted', Rounds utils max flagged
        (((flaggedOperators flagged vetted).card + max - 1) / max) vetted vetted' →
      ∀ key ∈ flagged, vetted' key.1 ≤ key.2 := by
  refine ⟨?_, exists_rounds _ _ _ _ _, ?_⟩
  · intro data hreports
    obtain ⟨chunk, hchunk, hround, _⟩ :=
      handleUnvetting_round utils deposited max hsafe hunused hreports hne
    exact ⟨chunk, hchunk, hround⟩
  · intro vetted' hrounds
    apply flaggedOperators_eq_empty
    rw [card_rounds utils hsafe hrounds]
    have hdiv := Nat.div_add_mod ((flaggedOperators flagged vetted).card + max - 1) max
    have hmod := Nat.mod_lt ((flaggedOperators flagged vetted).card + max - 1) hmax
    rw [Nat.mul_comm] at hdiv
    omega

/-! ## Two operators, one a round -/

theorem length_hexText (digits n : ℕ) : (hexText digits n).length = 2 + digits := by
  rw [hexText, String.length_append, String.length_ofList, String.length_ofList, List.length_map,
    FixedWidth.length_digits]
  rfl

theorem hexText_pad {n bytes length : ℕ} (hn : n < 256 ^ bytes) (hle : bytes ≤ length) :
    "0x" ++ String.ofList (List.replicate (2 * length + 2 - (hexText (2 * bytes) n).length) '0' ++
      (hexText (2 * bytes) n).toList.drop 2) = hexText (2 * length) n := by
  have hpow : n < 16 ^ (2 * bytes) := by
    rwa [pow_mul, show 16 ^ 2 = 256 by norm_num]
  have hdigits := FixedWidth.digits_of_lt_pow (by norm_num) hpow (2 * length - 2 * bytes)
  rw [show 2 * length - 2 * bytes + 2 * bytes = 2 * length by omega] at hdigits
  rw [length_hexText, toList_drop_hexText, hexText, hdigits, List.map_append, List.map_replicate,
    show 2 * length + 2 - (2 + 2 * bytes) = 2 * length - 2 * bytes by omega]
  rfl

/-- Formatting as documented. -/
def sampleUtils : EthersUtils where
  hexlify n := if n < 2 ^ 53 then .ok (hexText (2 * (Nat.log 256 n + 1)) n) else .error "overflow"
  hexZeroPad text length := if 2 * length + 2 < text.length then .error "value out of range"
    else .ok ("0x" ++ String.ofList (List.replicate (2 * length + 2 - text.length) '0' ++
      text.toList.drop 2))
  hexlify_ok n hn := by
    refine ⟨Nat.log 256 n, Nat.lt_pow_succ_log_self (by norm_num) n, ?_, by rw [if_pos hn]⟩
    rcases Nat.eq_zero_or_pos n with rfl | hpos
    · exact Or.inl (Nat.log_zero_right 256)
    · exact Or.inr (Nat.pow_log_le_self 256 hpos.ne')
  hexZeroPad_ok bytes length n hn hle := by
    have hlength : ¬ 2 * length + 2 < (hexText (2 * bytes) n).length := by
      rw [length_hexText]
      omega
    rw [if_neg hlength, hexText_pad hn hle]

theorem unvetting_correct_sample :
    (∀ data, Reports {(3, 7), (3, 5), (8, 0)} (fun _ => 10) data → ∃ chunk,
      handleUnvetting sampleUtils (.ok 1) data = .ok (some chunk) ∧
      RoundCorrect {(3, 7), (3, 5), (8, 0)} (fun _ => 0) (fun _ => 10) 1 chunk) ∧
    (∃ vetted', Rounds sampleUtils 1 {(3, 7), (3, 5), (8, 0)}
      (((flaggedOperators {(3, 7), (3, 5), (8, 0)} fun _ => 10).card + 1 - 1) / 1)
      (fun _ => 10) vetted') ∧
    ∀ vetted', Rounds sampleUtils 1 {(3, 7), (3, 5), (8, 0)}
        (((flaggedOperators {(3, 7), (3, 5), (8, 0)} fun _ => 10).card + 1 - 1) / 1)
        (fun _ => 10) vetted' →
      ∀ key ∈ ({(3, 7), (3, 5), (8, 0)} : Finset (ℕ × ℕ)), vetted' key.1 ≤ key.2 :=
  unvetting_correct sampleUtils (le_refl 1) (by unfold SafeKeys; decide) (by decide)
    ⟨(3, 7), by decide⟩

end Unvetting

end CouncilDaemon
