import CouncilDaemon.Deposits.DepositTree
import CouncilDaemon.Lib.FixedWidth
import CouncilDaemon.Lib.Json
import CouncilDaemon.Lib.OrderedStore

/-!
# The records of the deposits database

The database keeps one record per deposit under the hexadecimal deposit count, next to the records
`headers` and `last-valid-event`. This file is the data, the keys and the records.

Below `2 ^ 32` the keys are in the order of the deposit counts (`depositKey_lt`), the range of the
deposit keys contains no other record, and a record gives its event back
(`parseDepositEvent_record`).
-/

namespace CouncilDaemon

/-! ## Data -/

structure VerifiedDepositEvent where
  valid : Bool
  pubkey : String
  wc : String
  amount : String
  signature : String
  tx : String
  blockNumber : ℕ
  blockHash : String
  logIndex : ℕ
  index : String
  depositCount : ℕ
  depositDataRoot : Bytes
  deriving DecidableEq

structure VerifiedDepositEventsCacheHeaders where
  startBlock : ℕ
  endBlock : ℕ
  deriving DecidableEq

structure VerifiedDepositEventsCache where
  headers : VerifiedDepositEventsCacheHeaders
  data : List VerifiedDepositEvent
  lastValidEvent : Option VerifiedDepositEvent
  deriving DecidableEq

/-- `DEPOSIT_CACHE_DEFAULT`, the default value the store is registered with. -/
def depositCacheDefault : VerifiedDepositEventsCache where
  headers := { startBlock := 0, endBlock := 0 }
  data := []
  lastValidEvent := none

/-- `DEPLOYMENT_BLOCK_NETWORK`: Mainnet, Goerli, Holesky, Hoodi and the local devnet. -/
def deploymentBlockNetwork : (chainId : ℕ) → Option ℕ
  | 1 => some 11052984
  | 5 => some 4367322
  | 17000 => some 0
  | 560048 => some 0
  | 32382 => some 0
  | _ => none

/-- The database: JSON texts under string keys, in key order. -/
abbrev Db : Type := OrderedStore String Json

abbrev DbOp : Type := OrderedStore.Op String Json

/-- The longest front part of `events` with the deposit counts `count`, `count + 1` and so on. -/
def countedFrom (count : ℕ) : List VerifiedDepositEvent → List VerifiedDepositEvent
  | [] => []
  | event :: events =>
    if event.depositCount = count then event :: countedFrom (count + 1) events else []

/-! ## Records -/

def maxDepositCount : ℕ := 2 ^ 32

/-- `writeUInt32BE` on a buffer of four bytes. -/
def writeUInt32BE (number : ℕ) : Except String (List ℕ) :=
  if number < 2 ^ 32 then .ok (FixedWidth.digits (16 ^ 2) 4 number)
  else .error "RangeError [ERR_OUT_OF_RANGE]: The value of \"value\" is out of range."

/-- `toString('hex')`: two digits for every byte. -/
def toHex (bytes : List ℕ) : String :=
  String.ofList ((bytes.flatMap (FixedWidth.digits 16 2)).map Nat.digitChar)

/-- Different buffers have different digits. -/
theorem toHex_inj : ∀ {as bs : List ℕ}, (∀ a ∈ as, a < 256) → (∀ b ∈ bs, b < 256) →
    toHex as = toHex bs → as = bs := by
  intro as
  induction as with
  | nil =>
    intro bs _ _ h
    cases bs with
    | nil => rfl
    | cons b bs => cases String.ofList_injective h
  | cons a as ih =>
    intro bs ha hb h
    cases bs with
    | nil => cases String.ofList_injective h
    | cons b bs =>
      have hchars := String.ofList_injective h
      rw [List.flatMap_cons, List.flatMap_cons, List.map_append, List.map_append] at hchars
      obtain ⟨hfirst, hrest⟩ := List.append_inj hchars (by simp)
      have hlt := FixedWidth.map_digits_lt Nat.digitChar FixedWidth.digitChar_lt 2
      have hab : a = b := by
        rcases lt_trichotomy a b with hab | hab | hab
        · exact absurd hfirst (hlt a b hab (hb b (List.mem_cons_self ..))).ne
        · exact hab
        · exact absurd hfirst (hlt b a hab (ha a (List.mem_cons_self ..))).ne'
      rw [hab, ih (fun x hx => ha x (List.mem_cons_of_mem _ hx))
        (fun x hx => hb x (List.mem_cons_of_mem _ hx)) (congrArg String.ofList hrest)]

def generateDepositKey (number : ℕ) : Except String String :=
  if number > maxDepositCount then
    .error ("Deposit count is out of the valid range (0 to 4294967296) received " ++
      toString number)
  else do
    let index ← writeUInt32BE number
    return "deposit:" ++ toHex index

/-- The keys of the deposit records: `gte: 'deposit:', lte: 'deposit:\xFF'`. -/
def isDepositKey (key : String) : Bool := "deposit:" ≤ key ∧ key ≤ "deposit:\xFF"

/-- The keys from `upperBoundKey` on: `gte: upperBoundKey, lt: 'deposit:\xFF'`. -/
def isDepositKeyFrom (upperBoundKey key : String) : Bool :=
  upperBoundKey ≤ key ∧ key < "deposit:\xFF"

/-- `new Uint8Array(numbers)`. -/
def toUint8Array (numbers : List Json) : Option Bytes :=
  numbers.mapM fun j => j.asNum.map UInt8.ofNat

/-- The event of a record that `serializeDepositEvent` wrote. -/
def parseDepositEvent? (data : Json) : Option VerifiedDepositEvent := do
  return {
    valid := ← (← data.field "valid").asBool
    pubkey := ← (← data.field "pubkey").asStr
    wc := ← (← data.field "wc").asStr
    amount := ← (← data.field "amount").asStr
    signature := ← (← data.field "signature").asStr
    tx := ← (← data.field "tx").asStr
    blockNumber := ← (← data.field "blockNumber").asNum
    blockHash := ← (← data.field "blockHash").asStr
    logIndex := ← (← data.field "logIndex").asNum
    index := ← (← data.field "index").asStr
    depositCount := ← (← data.field "depositCount").asNum
    depositDataRoot := ← toUint8Array (← (← data.field "depositDataRoot").asArr) }

def parseDepositEvent (data : Json) : Except String VerifiedDepositEvent :=
  match parseDepositEvent? data with
  | some event => .ok event
  | none => .error "not a deposit event record"

/-- The record of an event: the deposit data root becomes an array of numbers. -/
def depositEventRecord (depositEvent : VerifiedDepositEvent) : Json :=
  .obj [
    ("valid", .bool depositEvent.valid),
    ("pubkey", .str depositEvent.pubkey),
    ("wc", .str depositEvent.wc),
    ("amount", .str depositEvent.amount),
    ("signature", .str depositEvent.signature),
    ("tx", .str depositEvent.tx),
    ("blockNumber", .num depositEvent.blockNumber),
    ("blockHash", .str depositEvent.blockHash),
    ("logIndex", .num depositEvent.logIndex),
    ("index", .str depositEvent.index),
    ("depositCount", .num depositEvent.depositCount),
    ("depositDataRoot", .arr (depositEvent.depositDataRoot.map fun b => .num b.toNat))]

def headersRecord (headers : VerifiedDepositEventsCacheHeaders) : Json :=
  .obj [("startBlock", .num headers.startBlock), ("endBlock", .num headers.endBlock)]

def parseHeaders (data : Json) : Except String VerifiedDepositEventsCacheHeaders :=
  match (do
    return {
      startBlock := ← (← data.field "startBlock").asNum
      endBlock := ← (← data.field "endBlock").asNum } :
        Option VerifiedDepositEventsCacheHeaders) with
  | some headers => .ok headers
  | none => .error "not a headers record"

/-! ## Counting -/

theorem countedFrom_isPrefix (events : List VerifiedDepositEvent) :
    ∀ count, countedFrom count events <+: events := by
  induction events with
  | nil => intro count; exact List.prefix_refl []
  | cons event events ih =>
    intro count
    unfold countedFrom
    split_ifs
    · exact List.prefix_cons_inj event |>.2 (ih (count + 1))
    · exact List.nil_prefix

/-- Events are counted from `count` on exactly when their counts are the numbers from `count` on. -/
theorem countedFrom_eq_self_iff {events : List VerifiedDepositEvent} :
    ∀ {count : ℕ}, countedFrom count events = events ↔
      events.map (·.depositCount) = List.range' count events.length := by
  induction events with
  | nil => intro count; simp [countedFrom]
  | cons event events ih =>
    intro count
    rw [List.map_cons, List.length_cons, List.range'_succ, countedFrom]
    split_ifs with h
    · rw [List.cons.injEq, List.cons.injEq, ih]
      simp [h]
    · simp [h]

/-! ## Keys -/

/-- The key of the deposit `number`, for the numbers that have one. -/
def depositKey (number : ℕ) : String :=
  "deposit:" ++ String.ofList ((FixedWidth.digits 16 8 number).map Nat.digitChar)

theorem generateDepositKey_of_lt {n : ℕ} (h : n < 2 ^ 32) :
    generateDepositKey n = .ok (depositKey n) := by
  have hmax : ¬ n > maxDepositCount := by unfold maxDepositCount; omega
  unfold generateDepositKey writeUInt32BE
  rw [if_neg hmax, if_pos h]
  show Except.ok ("deposit:" ++ toHex (FixedWidth.digits (16 ^ 2) 4 n)) = _
  rw [toHex, FixedWidth.digits_sq]
  rfl

theorem generateDepositKey_of_le {n : ℕ} (h : 2 ^ 32 ≤ n) :
    ∃ e, generateDepositKey n = .error e := by
  unfold generateDepositKey writeUInt32BE
  by_cases hmax : n > maxDepositCount
  · exact ⟨_, if_pos hmax⟩
  · rw [if_neg hmax, if_neg (by omega)]
    exact ⟨_, rfl⟩

theorem append_lt_append_iff {s t u : String} : s ++ t < s ++ u ↔ t < u := by
  rw [String.lt_iff_toList_lt, String.lt_iff_toList_lt, String.toList_append, String.toList_append]
  induction s.toList with
  | nil => exact Iff.rfl
  | cons c cs ih =>
    rw [List.cons_append, List.cons_append, List.cons_lt_cons_iff]
    simpa using ih

/-- **Order of the keys.** -/
theorem depositKey_lt {n m : ℕ} (h : n < m) (hm : m < 2 ^ 32) : depositKey n < depositKey m := by
  unfold depositKey
  rw [append_lt_append_iff, String.lt_iff_toList_lt, String.toList_ofList, String.toList_ofList]
  exact FixedWidth.map_digits_lt Nat.digitChar FixedWidth.digitChar_lt 8 n m h (by omega)

theorem depositKey_lt_iff {n m : ℕ} (hn : n < 2 ^ 32) (hm : m < 2 ^ 32) :
    depositKey n < depositKey m ↔ n < m := by
  refine ⟨fun h => ?_, fun h => depositKey_lt h hm⟩
  by_contra hle
  rcases Nat.lt_or_eq_of_le (not_lt.1 hle) with hlt | rfl
  · exact lt_asymm h (depositKey_lt hlt hn)
  · exact lt_irrefl _ h

theorem depositKey_injective {n m : ℕ} (hn : n < 2 ^ 32) (hm : m < 2 ^ 32)
    (h : depositKey n = depositKey m) : n = m := by
  rcases lt_trichotomy n m with hlt | heq | hlt
  · exact absurd (depositKey_lt hlt hm) (h ▸ lt_irrefl _)
  · exact heq
  · exact absurd (depositKey_lt hlt hn) (h ▸ lt_irrefl _)

theorem depositKey_lt_upper (n : ℕ) : depositKey n < "deposit:\xFF" := by
  have hdigit : Nat.digitChar (n / 16 ^ 7 % 16) < 'ÿ' := by
    have : ∀ d : Fin 16, Nat.digitChar d < 'ÿ' := by decide
    exact this ⟨n / 16 ^ 7 % 16, Nat.mod_lt _ (by norm_num)⟩
  rw [show "deposit:\xFF" = "deposit:" ++ String.ofList ['ÿ'] by decide, depositKey,
    append_lt_append_iff, String.lt_iff_toList_lt, String.toList_ofList, String.toList_ofList]
  exact List.cons_lt_cons_iff.2 (Or.inl hdigit)

theorem lower_le_depositKey (n : ℕ) : "deposit:" ≤ depositKey n := by
  have h : "deposit:" ++ "" < depositKey n := by
    rw [depositKey, append_lt_append_iff, String.lt_iff_toList_lt, String.toList_empty,
      String.toList_ofList]
    exact List.nil_lt_cons (Nat.digitChar (n / 16 ^ 7 % 16)) _
  rw [String.append_empty] at h
  exact h.le

theorem isDepositKey_depositKey (n : ℕ) : isDepositKey (depositKey n) = true := by
  simpa [isDepositKey] using ⟨lower_le_depositKey n, (depositKey_lt_upper n).le⟩

theorem isDepositKey_headers : isDepositKey "headers" = false := by decide

theorem isDepositKey_lastValidEvent : isDepositKey "last-valid-event" = false := by decide

theorem depositKey_ne {k : String} (hk : isDepositKey k = false) (n : ℕ) : depositKey n ≠ k := by
  rintro rfl
  rw [isDepositKey_depositKey] at hk
  cases hk

theorem isDepositKeyFrom_depositKey {n m : ℕ} (hn : n < 2 ^ 32) (hm : m < 2 ^ 32) :
    isDepositKeyFrom (depositKey n) (depositKey m) = decide (n ≤ m) := by
  have hle : depositKey n ≤ depositKey m ↔ n ≤ m := by
    rw [← not_lt, depositKey_lt_iff hm hn, not_lt]
  rw [isDepositKeyFrom, decide_eq_decide, hle]
  exact and_iff_left (depositKey_lt_upper m)

theorem isDepositKey_of_isDepositKeyFrom {n : ℕ} {k : String}
    (h : isDepositKeyFrom (depositKey n) k = true) : isDepositKey k = true := by
  simp only [isDepositKeyFrom, isDepositKey, decide_eq_true_eq] at h ⊢
  exact ⟨(lower_le_depositKey n).trans h.1, h.2.le⟩

/-! ## Round trips -/

theorem toUint8Array_map (bytes : Bytes) :
    toUint8Array (bytes.map fun b => .num b.toNat) = some bytes := by
  unfold toUint8Array
  induction bytes with
  | nil => rfl
  | cons b bytes ih =>
    rw [List.map_cons, List.mapM_cons, ih]
    simp [Json.asNum]

theorem parseDepositEvent_record (event : VerifiedDepositEvent) :
    parseDepositEvent (depositEventRecord event) = .ok event := by
  have hroot := toUint8Array_map event.depositDataRoot
  simp [parseDepositEvent, parseDepositEvent?, depositEventRecord, Json.field, Json.asBool,
    Json.asStr, Json.asNum, Json.asArr, List.lookup, hroot]

theorem parseHeaders_record (headers : VerifiedDepositEventsCacheHeaders) :
    parseHeaders (headersRecord headers) = .ok headers := by
  simp [parseHeaders, headersRecord, Json.field, Json.asNum, List.lookup]

end CouncilDaemon
