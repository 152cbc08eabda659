import CouncilDaemon.Guardian.Interfaces
import CouncilDaemon.Lib.Separator

/-!
# The store of the signing keys registry

The `SigningKeyAdded` events that the daemon has fetched are kept in a database of their own: one
record per event under its pubkey, block and log index, and the record `headers` with the staking
modules and the block up to which their events are stored. The events of one key are read by a scan
of the keys that start with it.

`Holds` is the content of the database: a header and a list of events. Each method of the store is
specified on the content (`run_getEventsCache`, `run_getCachedEvents_single`,
`Holds.insertEventsCacheBatch`).
-/

namespace CouncilDaemon

/-! ## Data -/

structure SigningKeyEventsCacheHeaders where
  stakingModulesAddresses : List String
  startBlock : ℕ
  endBlock : ℕ

structure SigningKeyEventsCache where
  headers : SigningKeyEventsCacheHeaders
  data : List SigningKeyEvent

/-- `SIGNING_KEYS_CACHE_DEFAULT`, the default value the store is registered with. -/
def signingKeysCacheDefault : SigningKeyEventsCache where
  headers := { stakingModulesAddresses := [], startBlock := 0, endBlock := 0 }
  data := []

/-! ## Records -/

def generateSigningKeyEventStorageKey (event : SigningKeyEvent) : String :=
  "signingKey:" ++ event.key ++ ":" ++ toString event.blockNumber ++ ":" ++ toString event.logIndex

/-- The keys of all events: `gte: 'signingKey:', lte: 'signingKey:\xFF'`. -/
def isSigningKey (storageKey : String) : Bool :=
  "signingKey:" ≤ storageKey ∧ storageKey ≤ "signingKey:\xFF"

/-- The keys of the events of `key`: from `'signingKey:' + key` to the same with `'\xFF'`. -/
def isSigningKeyOf (key storageKey : String) : Bool :=
  "signingKey:" ++ key ≤ storageKey ∧ storageKey ≤ "signingKey:" ++ key ++ "\xFF"

def signingKeyEventRecord (signingKeyEvent : SigningKeyEvent) : Json :=
  .obj [
    ("operatorIndex", .num signingKeyEvent.operatorIndex),
    ("key", .str signingKeyEvent.key),
    ("moduleAddress", .str signingKeyEvent.moduleAddress),
    ("blockNumber", .num signingKeyEvent.blockNumber),
    ("logIndex", .num signingKeyEvent.logIndex),
    ("blockHash", .str signingKeyEvent.blockHash)]

def parseSigningKeyEvent? (data : Json) : Option SigningKeyEvent := do
  return {
    operatorIndex := ← (← data.field "operatorIndex").asNum
    key := ← (← data.field "key").asStr
    moduleAddress := ← (← data.field "moduleAddress").asStr
    logIndex := ← (← data.field "logIndex").asNum
    blockNumber := ← (← data.field "blockNumber").asNum
    blockHash := ← (← data.field "blockHash").asStr }

def parseSigningKeyEvent (data : Json) : Except String SigningKeyEvent :=
  match parseSigningKeyEvent? data with
  | some event => .ok event
  | none => .error "not a signing key event record"

def signingKeyHeadersRecord (headers : SigningKeyEventsCacheHeaders) : Json :=
  .obj [
    ("stakingModulesAddresses", .arr (headers.stakingModulesAddresses.map .str)),
    ("startBlock", .num headers.startBlock),
    ("endBlock", .num headers.endBlock)]

def parseSigningKeyHeaders? (data : Json) : Option SigningKeyEventsCacheHeaders := do
  return {
    stakingModulesAddresses := ← (← (← data.field "stakingModulesAddresses").asArr).mapM (·.asStr)
    startBlock := ← (← data.field "startBlock").asNum
    endBlock := ← (← data.field "endBlock").asNum }

def parseSigningKeyHeaders (data : Json) : Except String SigningKeyEventsCacheHeaders :=
  match parseSigningKeyHeaders? data with
  | some headers => .ok headers
  | none => .error "not a headers record"

theorem parseSigningKeyEvent_record (event : SigningKeyEvent) :
    parseSigningKeyEvent (signingKeyEventRecord event) = .ok event := by
  simp [parseSigningKeyEvent, parseSigningKeyEvent?, signingKeyEventRecord, Json.field, Json.asStr,
    Json.asNum, List.lookup]

theorem parseSigningKeyHeaders_record (headers : SigningKeyEventsCacheHeaders) :
    parseSigningKeyHeaders (signingKeyHeadersRecord headers) = .ok headers := by
  have hmodules : (headers.stakingModulesAddresses.map Json.str).mapM (·.asStr) =
      some headers.stakingModulesAddresses := by
    induction headers.stakingModulesAddresses with
    | nil => rfl
    | cons address addresses ih =>
      rw [List.map_cons, List.mapM_cons, ih]
      rfl
  simp [parseSigningKeyHeaders, parseSigningKeyHeaders?, signingKeyHeadersRecord, Json.field,
    Json.asArr, Json.asNum, List.lookup, hmodules]

theorem signingKeyEventRecord_injective : Function.Injective signingKeyEventRecord := by
  intro event event' h
  have hparse := congrArg parseSigningKeyEvent h
  rw [parseSigningKeyEvent_record, parseSigningKeyEvent_record] at hparse
  exact Except.ok.inj hparse

/-! ## The service -/

structure SigningKeysStore where
  db : Db
  cacheSizeBytes : ℕ
  cacheEventCount : ℕ

namespace SigningKeysStore

/-- `Level` opened on the database `db`. -/
def opened (db : Db) : SigningKeysStore where
  db := db
  cacheSizeBytes := 0
  cacheEventCount := 0

/-- The loop of `getEventsCache` over the values of the iterator. -/
def readEvents : List Json → Service SigningKeysStore (List SigningKeyEvent)
  | [] => return []
  | value :: values => do
    modify fun store => { store with
      cacheSizeBytes := store.cacheSizeBytes + value.byteLength
      cacheEventCount := store.cacheEventCount + 1 }
    let event ← Service.call (parseSigningKeyEvent value)
    let events ← readEvents values
    return event :: events

def getEventsCache : Service SigningKeysStore SigningKeyEventsCache := do
  modify fun store => { store with cacheSizeBytes := 0, cacheEventCount := 0 }
  let store ← get
  let data ← readEvents ((store.db.range isSigningKey).map Prod.snd)
  match store.db.get? "headers" with
  | none => return signingKeysCacheDefault
  | some text =>
    let headers ← Service.call (parseSigningKeyHeaders text)
    return { headers, data }

/-- The events of one key, in the loop of `getCachedEvents`. -/
def eventsOfKey (db : Db) (key : String) : Except String (List SigningKeyEvent) :=
  ((db.range (isSigningKeyOf key)).map Prod.snd).mapM parseSigningKeyEvent

def getCachedEvents (keys : List String) : Service SigningKeysStore SigningKeyEventsCache := do
  let store ← get
  let data ← Service.call (keys.mapM (eventsOfKey store.db))
  match store.db.get? "headers" with
  | none => return signingKeysCacheDefault
  | some text =>
    let headers ← Service.call (parseSigningKeyHeaders text)
    return { headers, data := data.flatten }

def getHeader : Service SigningKeysStore SigningKeyEventsCacheHeaders := do
  let store ← get
  match store.db.get? "headers" with
  | none => return signingKeysCacheDefault.headers
  | some text => Service.call (parseSigningKeyHeaders text)

def serializeEventData (signingKeyEvent : SigningKeyEvent) : Service SigningKeysStore Json := do
  let serialized := signingKeyEventRecord signingKeyEvent
  modify fun store => { store with
    cacheSizeBytes := store.cacheSizeBytes + serialized.byteLength
    cacheEventCount := store.cacheEventCount + 1 }
  return serialized

/-- The operations of a batch of events, serialized one after the other. -/
def signingKeyOps : List SigningKeyEvent → Service SigningKeysStore (List DbOp)
  | [] => return []
  | event :: events => do
    let value ← serializeEventData event
    let ops ← signingKeyOps events
    return .put (generateSigningKeyEventStorageKey event) value :: ops

def insertEventsCacheBatch (disk : Disk) (data : List SigningKeyEvent)
    (headers : SigningKeyEventsCacheHeaders) : Service SigningKeysStore Unit := do
  let ops ← signingKeyOps data
  let ops := ops ++ [.put "headers" (signingKeyHeadersRecord headers)]
  Service.call (disk.write ops)
  modify fun store => { store with db := store.db.batch ops }

def deleteCache (disk : Disk) : Service SigningKeysStore Unit := do
  Service.call disk.clear
  modify fun _ => { db := OrderedStore.empty, cacheSizeBytes := 0, cacheEventCount := 0 }

end SigningKeysStore

/-! ## Storage keys -/

theorem generateSigningKeyEventStorageKey_inj {event event' : SigningKeyEvent}
    (h : generateSigningKeyEventStorageKey event = generateSigningKeyEventStorageKey event') :
    event.key = event'.key ∧ event.blockNumber = event'.blockNumber ∧
      event.logIndex = event'.logIndex := by
  unfold generateSigningKeyEventStorageKey at h
  have hcolon : ":".toList = [':'] := rfl
  obtain ⟨hfront, hlog⟩ := Separator.append_toString_inj hcolon rfl h
  obtain ⟨hkey, hblock⟩ := Separator.append_toString_inj hcolon rfl hfront
  have hlist := congrArg String.toList hkey
  rw [String.toList_append, String.toList_append] at hlist
  exact ⟨String.toList_inj.1 (List.append_cancel_left hlist), hblock, hlog⟩

theorem storageKey_ne_headers (event : SigningKeyEvent) :
    generateSigningKeyEventStorageKey event ≠ "headers" := by
  intro h
  have hlist := congrArg String.toList h
  unfold generateSigningKeyEventStorageKey at hlist
  simp only [String.toList_append, List.append_assoc] at hlist
  cases (List.cons.inj hlist).1

theorem isSigningKey_headers : isSigningKey "headers" = false := by decide

theorem isSigningKeyOf_headers (key : String) : isSigningKeyOf key "headers" = false := by
  have hlt : "headers" < "signingKey:" ++ key := by
    rw [String.lt_iff_toList_lt, String.toList_append]
    exact List.cons_lt_cons_iff.2 (Or.inl (by decide))
  rw [isSigningKeyOf, decide_eq_false_iff_not]
  exact fun h => not_lt.2 h.1 hlt

/-- **The scan.** Among keys of one length, the scan for `key` meets the events of `key` only. -/
theorem isSigningKeyOf_storageKey {key : String} {event : SigningKeyEvent}
    (hlength : event.key.length = key.length) :
    isSigningKeyOf key (generateSigningKeyEventStorageKey event) = decide (event.key = key) := by
  have hlist : (generateSigningKeyEventStorageKey event).toList = "signingKey:".toList ++
      (event.key.toList ++ ':' :: ((toString event.blockNumber).toList ++
        ':' :: (toString event.logIndex).toList)) := by
    simp [generateSigningKeyEventStorageKey]
  rw [isSigningKeyOf, decide_eq_decide, ← not_lt, ← not_lt, String.lt_iff_toList_lt,
    String.lt_iff_toList_lt, hlist]
  simp only [String.toList_append]
  constructor
  · rintro ⟨hlow, hhigh⟩
    rw [← List.append_assoc] at hlow hhigh
    have hlen : ("signingKey:".toList ++ key.toList).length =
        ("signingKey:".toList ++ event.key.toList).length := by
      simp only [List.length_append, String.length_toList, hlength]
    have hprefix := Separator.eq_of_range hlen hlow hhigh
    exact (String.toList_inj.1 (List.append_cancel_left hprefix)).symm
  · rintro rfl
    rw [← List.append_assoc]
    exact ⟨Separator.not_append_lt _ _, Separator.not_lt_append (by decide) _ _⟩

/-! ## The content of the database -/

/-- The database has the header and a record for each of `events`, and nothing else. -/
structure Holds (db : Db) (header : Option SigningKeyEventsCacheHeaders)
    (events : List SigningKeyEvent) : Prop where
  header : db.get? "headers" = header.map signingKeyHeadersRecord
  events : ∀ storageKey value, storageKey ≠ "headers" → (db.get? storageKey = some value ↔
    ∃ event ∈ events, storageKey = generateSigningKeyEventStorageKey event ∧
      value = signingKeyEventRecord event)

theorem holds_empty : Holds OrderedStore.empty none [] where
  header := rfl
  events := by simp

section Holds

variable {db : Db} {header : Option SigningKeyEventsCacheHeaders} {events : List SigningKeyEvent}

/-- The values of a range are the records of the events with a key in it, each once. -/
theorem Holds.range (h : Holds db header events) {p : String → Bool} (hp : p "headers" = false) :
    ∃ data : List SigningKeyEvent, (db.range p).map Prod.snd = data.map signingKeyEventRecord ∧ data.Nodup ∧
      ∀ event, event ∈ data ↔
        event ∈ events ∧ p (generateSigningKeyEventStorageKey event) = true := by
  let entry : SigningKeyEvent → String × Json := fun event =>
    (generateSigningKeyEventStorageKey event, signingKeyEventRecord event)
  have hentry : Function.Injective entry := fun event event' he =>
    signingKeyEventRecord_injective (congrArg Prod.snd he)
  have hrange : ∀ e ∈ db.range p, e ∈ Set.range entry := by
    rintro ⟨storageKey, value⟩ he
    obtain ⟨hget, hin⟩ := (db.mem_range_iff p).1 he
    have hne : storageKey ≠ "headers" := by
      rintro rfl
      rw [hp] at hin
      cases hin
    obtain ⟨event, _, rfl, rfl⟩ := (h.events storageKey value hne).1 hget
    exact ⟨event, rfl⟩
  obtain ⟨data, hdata⟩ : db.range p ∈ Set.range (List.map entry) := by
    rw [Set.range_list_map]
    exact hrange
  have hsorted : (data.map entry).Pairwise fun a b => a.1 < b.1 := by
    rw [hdata]
    exact db.sorted.filter _
  refine ⟨data, ?_, ?_, ?_⟩
  · rw [← hdata, List.map_map]
    rfl
  · refine List.Nodup.of_map entry (hsorted.imp ?_)
    rintro a b hab rfl
    exact lt_irrefl _ hab
  · intro event
    have hne := storageKey_ne_headers event
    rw [← List.mem_map_of_injective hentry, hdata, db.mem_range_iff, h.events _ _ hne]
    constructor
    · rintro ⟨⟨event', hin, _, hrecord⟩, hkey⟩
      rw [signingKeyEventRecord_injective hrecord]
      exact ⟨hin, by rwa [← signingKeyEventRecord_injective hrecord]⟩
    · rintro ⟨hin, hkey⟩
      exact ⟨⟨event, hin, rfl, rfl⟩, hkey⟩

theorem mapM_parseSigningKeyEvent (data : List SigningKeyEvent) :
    (data.map signingKeyEventRecord).mapM parseSigningKeyEvent = .ok data := by
  induction data with
  | nil => rfl
  | cons event data ih =>
    rw [List.map_cons, List.mapM_cons, parseSigningKeyEvent_record, ih]
    rfl

/-- The records of a batch of events and of its header. -/
def insertionOps (data : List SigningKeyEvent) (headers : SigningKeyEventsCacheHeaders) :
    List DbOp :=
  data.map (fun event =>
    .put (generateSigningKeyEventStorageKey event) (signingKeyEventRecord event)) ++
    [.put "headers" (signingKeyHeadersRecord headers)]

/-- A batch of new events, with their header, is added to the content. -/
theorem Holds.batch (h : Holds db header events) {data : List SigningKeyEvent}
    (hdistinct : ∀ event ∈ data, ∀ event' ∈ events ++ data,
      generateSigningKeyEventStorageKey event = generateSigningKeyEventStorageKey event' →
        event = event')
    (headers : SigningKeyEventsCacheHeaders) :
    Holds (db.batch (insertionOps data headers)) (some headers) (events ++ data) where
  header := by
    have hmem : (.put "headers" (signingKeyHeadersRecord headers) : DbOp) ∈
        insertionOps data headers := List.mem_append_right _ (List.mem_singleton_self _)
    refine OrderedStore.get?_batch_of_mem hmem ?_ db
    intro op hop hkey
    rcases List.mem_append.1 hop with hop | hop
    · obtain ⟨event, _, rfl⟩ := List.mem_map.1 hop
      exact absurd hkey (storageKey_ne_headers event)
    · rw [List.mem_singleton.1 hop]
  events := by
    intro storageKey value hne
    by_cases hnew : ∃ event ∈ data, storageKey = generateSigningKeyEventStorageKey event
    · obtain ⟨event, hin, rfl⟩ := hnew
      have hget : (db.batch (insertionOps data headers)).get?
          (generateSigningKeyEventStorageKey event) = some (signingKeyEventRecord event) := by
        have hmem : (.put (generateSigningKeyEventStorageKey event)
            (signingKeyEventRecord event) : DbOp) ∈ insertionOps data headers :=
          List.mem_append_left _ (List.mem_map.2 ⟨event, hin, rfl⟩)
        refine OrderedStore.get?_batch_of_mem hmem ?_ db
        intro op hop hkey
        rcases List.mem_append.1 hop with hop | hop
        · obtain ⟨event', hin', rfl⟩ := List.mem_map.1 hop
          rw [hdistinct event' hin' event (List.mem_append_right _ hin) hkey]
        · rw [List.mem_singleton.1 hop] at hkey
          exact absurd hkey.symm hne
      rw [hget]
      constructor
      · intro hvalue
        exact ⟨event, List.mem_append_right _ hin, rfl, (Option.some.inj hvalue).symm⟩
      · rintro ⟨event', hin', hkey, rfl⟩
        rw [hdistinct event hin event' hin' hkey]
    · have hget : (db.batch (insertionOps data headers)).get? storageKey = db.get? storageKey := by
        refine OrderedStore.get?_batch_of_not_mem ?_ db
        intro op hop hkey
        rcases List.mem_append.1 hop with hop | hop
        · obtain ⟨event, hin, rfl⟩ := List.mem_map.1 hop
          exact hnew ⟨event, hin, hkey.symm⟩
        · rw [List.mem_singleton.1 hop] at hkey
          exact hne hkey.symm
      rw [hget, h.events storageKey value hne]
      constructor
      · rintro ⟨event, hin, hkey, hvalue⟩
        exact ⟨event, List.mem_append_left _ hin, hkey, hvalue⟩
      · rintro ⟨event, hin, hkey, hvalue⟩
        rcases List.mem_append.1 hin with hin | hin
        · exact ⟨event, hin, hkey, hvalue⟩
        · exact absurd ⟨event, hin, hkey⟩ hnew

/-! ## The methods on the content -/

namespace SigningKeysStore

variable {store : SigningKeysStore} {headers : SigningKeyEventsCacheHeaders}

theorem run_readEvents (data : List SigningKeyEvent) : ∀ store : SigningKeysStore,
    (readEvents (data.map signingKeyEventRecord)).run store = .ok data { store with
      cacheSizeBytes := store.cacheSizeBytes +
        (data.map fun event => (signingKeyEventRecord event).byteLength).sum
      cacheEventCount := store.cacheEventCount + data.length } := by
  induction data with
  | nil => intro store; rfl
  | cons event data ih =>
    intro store
    simp only [List.map_cons, readEvents, EStateM.run_bind, EStateM.run_modify,
      parseSigningKeyEvent_record, Service.run_call_ok, ih, EStateM.run_pure, List.sum_cons,
      List.length_cons]
    congr 2 <;> omega

theorem run_getEventsCache (h : Holds store.db header events) :
    ∃ cache store', getEventsCache.run store = .ok cache store' ∧ store'.db = store.db ∧
      cache.headers = header.getD signingKeysCacheDefault.headers := by
  obtain ⟨data, hvalues, _⟩ := h.range isSigningKey_headers
  simp only [getEventsCache, EStateM.run_bind, EStateM.run_modify, EStateM.run_get, hvalues,
    run_readEvents, h.header]
  cases header with
  | none => exact ⟨_, _, rfl, rfl, rfl⟩
  | some headers =>
    simp only [Option.map_some, EStateM.run_bind, parseSigningKeyHeaders_record, Service.run_call_ok]
    exact ⟨_, _, rfl, rfl, rfl⟩

theorem run_getHeader (h : Holds store.db header events) :
    getHeader.run store = .ok (header.getD signingKeysCacheDefault.headers) store := by
  simp only [getHeader, EStateM.run_bind, EStateM.run_get, h.header]
  cases header with
  | none => rfl
  | some headers =>
    simp only [Option.map_some, parseSigningKeyHeaders_record, Service.run_call_ok, Option.getD_some]

/-- Among keys of one length, the scan for a key returns its events. -/
theorem eventsOfKey_perm (h : Holds store.db header events) (hnodup : events.Nodup) {key : String}
    (hlength : ∀ event ∈ events, event.key.length = key.length) :
    ∃ data, eventsOfKey store.db key = .ok data ∧ data.Perm (events.filter (·.key = key)) := by
  obtain ⟨data, hvalues, hdata, hmem⟩ := h.range (isSigningKeyOf_headers key)
  refine ⟨data, ?_, ?_⟩
  · rw [eventsOfKey, hvalues, mapM_parseSigningKeyEvent]
  · rw [List.perm_ext_iff_of_nodup hdata (hnodup.filter _)]
    intro event
    rw [hmem, List.mem_filter]
    refine and_congr_right fun hin => ?_
    rw [isSigningKeyOf_storageKey (hlength event hin)]

theorem run_getCachedEvents_single (h : Holds store.db header events) (hnodup : events.Nodup)
    (habsent : header = none → events = []) {key : String}
    (hlength : ∀ event ∈ events, event.key.length = key.length) :
    ∃ data, (getCachedEvents [key]).run store =
        .ok ⟨header.getD signingKeysCacheDefault.headers, data⟩ store ∧
      data.Perm (events.filter (·.key = key)) := by
  obtain ⟨data, hdata, hperm⟩ := eventsOfKey_perm h hnodup hlength
  have hscan : [key].mapM (eventsOfKey store.db) = .ok [data] := by
    rw [List.mapM_cons, hdata]
    rfl
  simp only [getCachedEvents, EStateM.run_bind, EStateM.run_get, hscan, Service.run_call_ok, h.header]
  cases header with
  | none =>
    refine ⟨[], rfl, ?_⟩
    rw [habsent rfl]
    exact List.Perm.refl _
  | some headers =>
    refine ⟨data, ?_, hperm⟩
    simp only [Option.map_some, EStateM.run_bind, parseSigningKeyHeaders_record,
      Service.run_call_ok, List.flatten_singleton, EStateM.run_pure, Option.getD_some]

theorem run_signingKeyOps (data : List SigningKeyEvent) : ∀ store : SigningKeysStore,
    ∃ store', (signingKeyOps data).run store = .ok (data.map fun event =>
        .put (generateSigningKeyEventStorageKey event) (signingKeyEventRecord event)) store' ∧
      store'.db = store.db := by
  induction data with
  | nil =>
    intro store
    exact ⟨store, rfl, rfl⟩
  | cons event data ih =>
    intro store
    have hserialize : (serializeEventData event).run store = .ok (signingKeyEventRecord event)
        { store with
          cacheSizeBytes := store.cacheSizeBytes + (signingKeyEventRecord event).byteLength
          cacheEventCount := store.cacheEventCount + 1 } := rfl
    obtain ⟨store', hrun, hdb⟩ := ih { store with
      cacheSizeBytes := store.cacheSizeBytes + (signingKeyEventRecord event).byteLength
      cacheEventCount := store.cacheEventCount + 1 }
    refine ⟨store', ?_, hdb⟩
    rw [signingKeyOps, Service.run_bind_ok hserialize, Service.run_bind_ok hrun]
    rfl

/-- A batch is written as a whole, or the insertion throws and the database is as it was. -/
theorem run_insertEventsCacheBatch (disk : Disk) (data : List SigningKeyEvent)
    (headers : SigningKeyEventsCacheHeaders) (store : SigningKeysStore) :
    (∃ store', (insertEventsCacheBatch disk data headers).run store = .ok () store' ∧
      store'.db = store.db.batch (insertionOps data headers)) ∨
    ∃ e store', (insertEventsCacheBatch disk data headers).run store = .error e store' ∧
      store'.db = store.db := by
  obtain ⟨store', hops, hdb⟩ := run_signingKeyOps data store
  rw [insertEventsCacheBatch, Service.run_bind_ok hops]
  cases hwrite : disk.write (insertionOps data headers) with
  | ok _ =>
    left
    refine ⟨{ store' with db := store'.db.batch (insertionOps data headers) }, ?_, by rw [hdb]⟩
    have hcall : EStateM.run (Service.call (disk.write (insertionOps data headers))) store' =
        .ok () store' := by
      rw [hwrite]
      rfl
    exact Service.run_bind_ok hcall
  | error e =>
    right
    refine ⟨e, store', ?_, hdb⟩
    have hcall : EStateM.run (Service.call (disk.write (insertionOps data headers))) store' =
        .error e store' := by
      rw [hwrite]
      rfl
    exact Service.run_bind_error hcall

theorem run_deleteCache (disk : Disk) (store : SigningKeysStore) :
    (∃ store', (deleteCache disk).run store = .ok () store' ∧ store'.db = OrderedStore.empty) ∨
    ∃ e, (deleteCache disk).run store = .error e store := by
  unfold deleteCache
  cases disk.clear with
  | ok _ => exact Or.inl ⟨_, rfl, rfl⟩
  | error e => exact Or.inr ⟨e, rfl⟩

end SigningKeysStore

end Holds

end CouncilDaemon
