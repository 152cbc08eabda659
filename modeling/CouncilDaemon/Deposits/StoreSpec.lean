import CouncilDaemon.Deposits.StoreContent

/-!
# What the store operations do to the content

On a database that stores `content`, loading reads the content (`run_setupEventsCache`), a deletion
truncates it (`run_deleteDeposits`), an insertion adds to it (`run_insertEventsCacheBatch`,
`run_insertLastValidEvent`), and the two operations that compute what to delete are a deletion
behind a check of the header (`run_clearFromLastValidEvent`,
`run_validateAndCleanInconsistentCache`). An operation that throws leaves the database and the cache
as they were.
-/

namespace CouncilDaemon

namespace StoreContent

/-- The batch of `deleteDepositsGreaterThanOrEqualNBatch`. -/
def deletionOps (content : StoreContent) (depositCount : ℕ)
    (headers : VerifiedDepositEventsCacheHeaders) : List DbOp :=
  let deleted := content.data.filter (depositCount ≤ ·.depositCount)
  let ops := deleted.map fun e => OrderedStore.Op.del (depositKey e.depositCount)
  if ops.length > 0 then
    ops ++ [.put "headers" (headersRecord headers), .del "last-valid-event"]
  else [.put "headers" (headersRecord headers)]

/-- The batch of `insertEventsCacheBatch`. -/
def insertionOps (data : List VerifiedDepositEvent)
    (headers : VerifiedDepositEventsCacheHeaders) : List DbOp :=
  data.map (fun e => .put (depositKey e.depositCount) (depositEventRecord e)) ++
    [.put "headers" (headersRecord headers)]

end StoreContent

/-! ## Batches -/

namespace Stored

variable {db : Db} {content : StoreContent}

theorem truncate (h : Stored db content) (n : ℕ) :
    Stored (db.batch ((content.data.filter (n ≤ ·.depositCount)).map fun e =>
      .del (depositKey e.depositCount))) (content.truncate n) := by
  let keys := (content.data.filter (n ≤ ·.depositCount)).map fun e => depositKey e.depositCount
  have hkeys : (content.data.filter (n ≤ ·.depositCount)).map (fun e =>
      (OrderedStore.Op.del (depositKey e.depositCount) : DbOp)) = keys.map .del := by
    simp [keys]
  have hmem : ∀ {m}, m < 2 ^ 32 → (depositKey m ∈ keys ↔
      ∃ e ∈ content.data, n ≤ e.depositCount ∧ e.depositCount = m) := by
    intro m hm
    simp only [keys, List.mem_map, List.mem_filter, decide_eq_true_eq]
    constructor
    · rintro ⟨e, ⟨he, hn⟩, hk⟩
      exact ⟨e, he, hn, depositKey_injective (content.count_lt e he) hm hk⟩
    · rintro ⟨e, he, hn, rfl⟩
      exact ⟨e, ⟨he, hn⟩, rfl⟩
  have hother : ∀ {k}, isDepositKey k = false → k ∉ keys := by
    intro k hk hm
    obtain ⟨e, _, he⟩ := List.mem_map.1 hm
    exact depositKey_ne hk _ he
  rw [hkeys]
  refine ⟨fun m hm v => ?_, fun k v hget hk => ?_, ?_, ?_⟩
  · rw [OrderedStore.get?_batch_del]
    simp only [StoreContent.truncate, List.mem_filter, decide_eq_true_eq]
    split_ifs with hk
    · obtain ⟨e, he, hn, rfl⟩ := (hmem hm).1 hk
      simp only [false_iff, not_exists, not_and]
      rintro e' ⟨_, hlt⟩ heq
      omega
    · rw [h.deposit m hm v]
      constructor
      · rintro ⟨e, he, rfl, rfl⟩
        refine ⟨e, ⟨he, ?_⟩, rfl, rfl⟩
        by_contra hn
        exact hk ((hmem hm).2 ⟨e, he, not_lt.1 hn, rfl⟩)
      · rintro ⟨e, ⟨he, _⟩, rfl, rfl⟩
        exact ⟨e, he, rfl, rfl⟩
  · rw [OrderedStore.get?_batch_del] at hget
    split_ifs at hget
    exact h.key k v hget hk
  · rw [OrderedStore.get?_batch_del, if_neg (hother isDepositKey_headers)]
    exact h.headers
  · rw [OrderedStore.get?_batch_del, if_neg (hother isDepositKey_lastValidEvent)]
    exact h.lastValidEvent

theorem deletionOps (h : Stored db content) (n : ℕ) (headers : VerifiedDepositEventsCacheHeaders) :
    Stored (db.batch (content.deletionOps n headers)) (content.deleteFrom n headers) := by
  unfold StoreContent.deletionOps
  by_cases hdel : ∃ e ∈ content.data, n ≤ e.depositCount
  · have hlen : 0 < ((content.data.filter (n ≤ ·.depositCount)).map fun e =>
        (OrderedStore.Op.del (depositKey e.depositCount) : DbOp)).length := by
      obtain ⟨e, he, hn⟩ := hdel
      rw [List.length_map]
      exact List.length_pos_of_mem (List.mem_filter.2 ⟨he, by simpa using hn⟩)
    have hcontent : content.deleteFrom n headers =
        { (content.truncate n).putHeaders headers with lastValidEvent := none } := by
      simp [StoreContent.deleteFrom, StoreContent.truncate, StoreContent.putHeaders, hdel]
    rw [if_pos hlen, OrderedStore.batch_append, hcontent]
    exact ((h.truncate n).putHeaders headers).delLastValidEvent
  · have hnil : content.data.filter (n ≤ ·.depositCount) = [] :=
      List.filter_eq_nil_iff.2 fun e he hn => hdel ⟨e, he, by simpa using hn⟩
    have hall : content.data.filter (·.depositCount < n) = content.data :=
      List.filter_eq_self.2 fun e he => by
        by_contra hn
        exact hdel ⟨e, he, by simpa using hn⟩
    have hcontent : content.deleteFrom n headers = content.putHeaders headers := by
      simp [StoreContent.deleteFrom, StoreContent.putHeaders, hdel, hall]
    rw [hnil, hcontent]
    exact h.putHeaders headers

theorem putAll {events : List VerifiedDepositEvent} :
    ∀ {db : Db} {content : StoreContent} (_ : Stored db content)
      (hlt : ∀ e ∈ events, e.depositCount < 2 ^ 32),
      Stored (db.batch (events.map fun e =>
        .put (depositKey e.depositCount) (depositEventRecord e))) (content.putAll events hlt) := by
  induction events with
  | nil => intro db content h _; exact h
  | cons event events ih =>
    intro db content h hlt
    exact ih (h.put event (hlt event List.mem_cons_self)) _

theorem insertionOps (h : Stored db content) {data : List VerifiedDepositEvent}
    (hlt : ∀ e ∈ data, e.depositCount < 2 ^ 32) (headers : VerifiedDepositEventsCacheHeaders) :
    Stored (db.batch (StoreContent.insertionOps data headers))
      ((content.putAll data hlt).putHeaders headers) := by
  rw [StoreContent.insertionOps, OrderedStore.batch_append]
  exact (h.putAll hlt).putHeaders headers

end Stored

/-! ## Methods -/

namespace DepositsRegistryStore

variable {content : StoreContent} {store : DepositsRegistryStore} {disk : Disk}

theorem run_batch (ops : List DbOp) : (batch disk ops).run store =
    match disk.write ops with
    | .ok _ => .ok () { store with db := store.db.batch ops }
    | .error e => .error e store := by
  unfold batch
  cases h : disk.write ops with
  | ok _ => simp
  | error e => simp

theorem run_readEvents (events : List VerifiedDepositEvent) : ∀ store : DepositsRegistryStore,
    (readEvents (events.map depositEventRecord)).run store = .ok events { store with
      cacheSizeBytes := store.cacheSizeBytes +
        (events.map fun e => (depositEventRecord e).byteLength).sum
      cacheEventCount := store.cacheEventCount + events.length } := by
  induction events with
  | nil => intro store; rfl
  | cons event events ih =>
    intro store
    simp only [List.map_cons, readEvents, EStateM.run_bind, EStateM.run_modify,
      parseDepositEvent_record, Service.run_call_ok, ih, EStateM.run_pure, List.sum_cons,
      List.length_cons]
    congr 2 <;> omega

theorem run_getLastValidEvent (h : Stored store.db content) :
    getLastValidEvent.run store = .ok content.lastValidEvent store := by
  simp only [getLastValidEvent, EStateM.run_bind, EStateM.run_get, h.lastValidEvent]
  cases content.lastValidEvent with
  | none => rfl
  | some event => simp [parseDepositEvent_record]

/-- **Loading.** The events of the database are read in the order of their counts. -/
theorem run_getEventsFromDB (h : Stored store.db content) :
    getEventsFromDB.run store =
      .ok content.load { content.loaded store.db with cache := store.cache } := by
  have hrange : (store.db.range isDepositKey).map Prod.snd = content.data.map depositEventRecord := by
    rw [h.range (P := fun _ => true) (fun n _ => isDepositKey_depositKey n) fun _ hk => hk]
    simp [List.filter_eq_self.2]
  simp only [getEventsFromDB, EStateM.run_bind, EStateM.run_modify, EStateM.run_get, hrange,
    run_readEvents, Nat.zero_add, h.headers]
  cases hheaders : content.headers with
  | none => simp [StoreContent.load, StoreContent.loaded, StoreContent.sizeBytes, hheaders]
  | some headers =>
    have hloaded : Stored { content.loaded store.db with cache := store.cache }.db content := h
    have hlast := run_getLastValidEvent hloaded
    simp only [StoreContent.loaded, StoreContent.sizeBytes] at hlast ⊢
    simp [StoreContent.load, hheaders, parseHeaders_record, hlast]

theorem run_setupEventsCache (h : Stored store.db content) :
    setupEventsCache.run store = .ok () (content.loaded store.db) := by
  simp only [setupEventsCache, EStateM.run_bind, run_getEventsFromDB h, EStateM.run_modify]
  rfl

/-- **Deletion.** -/
theorem run_deleteDeposits (h : Stored store.db content) {n : ℕ} (hn : n < 2 ^ 32)
    (headers : VerifiedDepositEventsCacheHeaders) :
    (deleteDepositsGreaterThanOrEqualNBatch disk n headers).run store =
      match disk.write (content.deletionOps n headers) with
      | .ok _ => .ok () ((content.deleteFrom n headers).loaded
          (store.db.batch (content.deletionOps n headers)))
      | .error e => .error e store := by
  have hrange : (store.db.range (isDepositKeyFrom (depositKey n))).map
        (fun e => (OrderedStore.Op.del e.1 : DbOp)) =
      (content.data.filter (n ≤ ·.depositCount)).map fun e => .del (depositKey e.depositCount) := by
    rw [h.range (P := fun m => decide (n ≤ m)) (fun m hm => isDepositKeyFrom_depositKey hn hm)
      fun _ => isDepositKey_of_isDepositKeyFrom]
    simp
  have hbatch : (deleteDepositsGreaterThanOrEqualNBatch disk n headers).run store =
      (batch disk (content.deletionOps n headers) >>= fun _ => setupEventsCache).run store := by
    simp only [deleteDepositsGreaterThanOrEqualNBatch, generateDepositKey_of_lt hn,
      EStateM.run_bind, Service.run_call_ok, EStateM.run_get, hrange, StoreContent.deletionOps]
    split_ifs <;> rfl
  rw [hbatch, EStateM.run_bind, run_batch]
  cases disk.write (content.deletionOps n headers) with
  | ok _ =>
    have hdeleted : Stored { store with db := store.db.batch (content.deletionOps n headers) }.db
        (content.deleteFrom n headers) := h.deletionOps n headers
    exact run_setupEventsCache hdeleted
  | error e => rfl

theorem run_deleteDeposits_of_le (store : DepositsRegistryStore) (disk : Disk) {n : ℕ} (hn : 2 ^ 32 ≤ n)
    (headers : VerifiedDepositEventsCacheHeaders) :
    ∃ e, (deleteDepositsGreaterThanOrEqualNBatch disk n headers).run store = .error e store := by
  obtain ⟨e, he⟩ := generateDepositKey_of_le hn
  exact ⟨e, by simp [deleteDepositsGreaterThanOrEqualNBatch, he]⟩

theorem run_formDepositEventHeaderForDeletion (blockNumber : Option ℕ) :
    (formDepositEventHeaderForDeletion blockNumber).run store =
      if blockNumber.getD 0 < store.cache.headers.startBlock then
        .error "Deposit header is not valid" store
      else .ok { store.cache.headers with endBlock := blockNumber.getD 0 } store := by
  by_cases h : blockNumber.getD 0 < store.cache.headers.startBlock
  · simp [formDepositEventHeaderForDeletion, depositCacheDefault, h]
  · simp [formDepositEventHeaderForDeletion, depositCacheDefault, h]

/-- **Recovery** is a deletion after the last valid event, behind a check of the header. -/
theorem run_clearFromLastValidEvent (h : Stored store.db content) :
    (clearFromLastValidEvent disk).run store =
      if (content.lastValidEvent.map (·.blockNumber)).getD 0 < store.cache.headers.startBlock then
        .error "Deposit header is not valid" store
      else (deleteDepositsGreaterThanOrEqualNBatch disk
        (content.lastValidEvent.elim 0 (·.depositCount + 1))
        { store.cache.headers with
          endBlock := (content.lastValidEvent.map (·.blockNumber)).getD 0 }).run store := by
  simp only [clearFromLastValidEvent, EStateM.run_bind, run_getLastValidEvent h,
    run_formDepositEventHeaderForDeletion]
  split_ifs <;> rfl

theorem lastValidEventIndex_eq (events : List VerifiedDepositEvent) : ∀ count last,
    lastValidEventIndex count last events =
      if countedFrom count events = [] then last
      else some (count + (countedFrom count events).length - 1) := by
  induction events with
  | nil => intro count last; rfl
  | cons event events ih =>
    intro count last
    unfold lastValidEventIndex countedFrom
    split_ifs with h h' h'
    · cases h'
    · rw [ih]
      split_ifs with hrest
      · simp [hrest, h]
      · congr 1
        rw [List.length_cons]
        omega
    · rfl
    · exact absurd rfl h'

/-- **The clean-up** is a deletion after the longest well counted front part. -/
theorem run_validateAndCleanInconsistentCache :
    (validateAndCleanInconsistentCache disk).run store =
      let counted := countedFrom 0 store.cache.data
      if (counted.getLast?.map (·.blockNumber)).getD 0 < store.cache.headers.startBlock then
        .error "Deposit header is not valid" store
      else (deleteDepositsGreaterThanOrEqualNBatch disk counted.length
        { store.cache.headers with
          endBlock := (counted.getLast?.map (·.blockNumber)).getD 0 }).run store := by
  have hindex := lastValidEventIndex_eq store.cache.data 0 none
  obtain ⟨rest, hrest⟩ := countedFrom_isPrefix store.cache.data 0
  have hlast : (lastValidEventIndex 0 none store.cache.data).bind (store.cache.data[·]?) =
      (countedFrom 0 store.cache.data).getLast? := by
    rw [hindex]
    split_ifs with hnil
    · rw [hnil]; rfl
    · have hpos : 0 < (countedFrom 0 store.cache.data).length := List.length_pos_iff.2 hnil
      rw [Option.bind_some, List.getLast?_eq_getElem?, Nat.zero_add]
      have hfront : (countedFrom 0 store.cache.data ++ rest)[(countedFrom 0
          store.cache.data).length - 1]? = _ := List.getElem?_append_left (Nat.sub_lt hpos Nat.one_pos)
      rwa [hrest] at hfront
  have hlength : (lastValidEventIndex 0 none store.cache.data).elim 0 (· + 1) =
      (countedFrom 0 store.cache.data).length := by
    rw [hindex]
    split_ifs with hnil
    · rw [hnil]; rfl
    · have hpos : 0 < (countedFrom 0 store.cache.data).length := List.length_pos_iff.2 hnil
      simp only [Option.elim]
      omega
  simp only [validateAndCleanInconsistentCache, EStateM.run_bind, EStateM.run_get, hlast, hlength,
    run_formDepositEventHeaderForDeletion]
  split_ifs <;> rfl

/-- The clean-up at start-up is the clean-up of what is loaded. -/
theorem run_initializeStore (h : Stored store.db content) :
    (initializeStore disk).run store =
      (validateAndCleanInconsistentCache disk).run (content.loaded store.db) := by
  rw [initializeStore, Service.run_bind_ok (run_setupEventsCache h)]

/-! ## Insertions -/

theorem run_depositOps (events : List VerifiedDepositEvent) : ∀ store : DepositsRegistryStore,
    (∀ e ∈ events, e.depositCount < 2 ^ 32) →
    (depositOps events).run store = .ok
      (events.map fun e => .put (depositKey e.depositCount) (depositEventRecord e)) { store with
        cacheSizeBytes := store.cacheSizeBytes +
          (events.map fun e => (depositEventRecord e).byteLength).sum
        cacheEventCount := store.cacheEventCount + events.length } := by
  induction events with
  | nil => intro store _; rfl
  | cons event events ih =>
    intro store hlt
    have hrest := fun s => ih s fun e he => hlt e (List.mem_cons_of_mem _ he)
    simp only [depositOps, EStateM.run_bind, generateDepositKey_of_lt (hlt event List.mem_cons_self),
      Service.run_call_ok, serializeDepositEvent, if_true, EStateM.run_modify, EStateM.run_pure,
      hrest, List.map_cons, List.sum_cons, List.length_cons]
    congr 2 <;> omega

/-- A deposit count without a key stops the insertion. -/
theorem run_depositOps_of_le (events : List VerifiedDepositEvent) : ∀ store : DepositsRegistryStore,
    (∃ e ∈ events, 2 ^ 32 ≤ e.depositCount) →
    ∃ error size count, (depositOps events).run store =
      .error error { store with cacheSizeBytes := size, cacheEventCount := count } := by
  induction events with
  | nil => rintro store ⟨e, he, _⟩; cases he
  | cons event events ih =>
    rintro store ⟨e, he, hle⟩
    by_cases hevent : event.depositCount < 2 ^ 32
    · have hmem : e ∈ events := by
        rcases List.mem_cons.1 he with rfl | he
        · omega
        · exact he
      obtain ⟨error, size, count, hrun⟩ := ih { store with
        cacheSizeBytes := store.cacheSizeBytes + (depositEventRecord event).byteLength
        cacheEventCount := store.cacheEventCount + 1 } ⟨e, hmem, hle⟩
      refine ⟨error, size, count, ?_⟩
      simp only [depositOps, EStateM.run_bind, generateDepositKey_of_lt hevent,
        Service.run_call_ok, serializeDepositEvent, if_true, EStateM.run_modify, EStateM.run_pure,
        hrun]
    · obtain ⟨error, herror⟩ := generateDepositKey_of_le (not_lt.1 hevent)
      exact ⟨error, store.cacheSizeBytes, store.cacheEventCount, by simp [depositOps, herror]⟩

/-- **Insertion** of a batch: the database and the cache take the events and the header, or neither
does. -/
theorem run_insertEventsCacheBatch (store : DepositsRegistryStore) (disk : Disk)
    {data : List VerifiedDepositEvent} (hlt : ∀ e ∈ data, e.depositCount < 2 ^ 32) (headers : VerifiedDepositEventsCacheHeaders) :
    (insertEventsCacheBatch disk data headers).run store =
      let size := store.cacheSizeBytes + (data.map fun e => (depositEventRecord e).byteLength).sum
      let count := store.cacheEventCount + data.length
      match disk.write (StoreContent.insertionOps data headers) with
      | .ok _ => .ok () {
          db := store.db.batch (StoreContent.insertionOps data headers)
          cache := { store.cache with data := store.cache.data ++ data, headers }
          cacheSizeBytes := size
          cacheEventCount := count }
      | .error e => .error e { store with cacheSizeBytes := size, cacheEventCount := count } := by
  simp only [insertEventsCacheBatch, EStateM.run_bind, run_depositOps data store hlt, run_batch,
    StoreContent.insertionOps]
  cases disk.write _ with
  | ok _ => rfl
  | error e => rfl

theorem run_insertEventsCacheBatch_of_le (store : DepositsRegistryStore) (disk : Disk)
    {data : List VerifiedDepositEvent} (hle : ∃ e ∈ data, 2 ^ 32 ≤ e.depositCount) (headers : VerifiedDepositEventsCacheHeaders) :
    ∃ error size count, (insertEventsCacheBatch disk data headers).run store =
      .error error { store with cacheSizeBytes := size, cacheEventCount := count } := by
  obtain ⟨error, size, count, hrun⟩ := run_depositOps_of_le data store hle
  exact ⟨error, size, count, by simp only [insertEventsCacheBatch, EStateM.run_bind, hrun]⟩

theorem run_insertLastValidEvent (event : VerifiedDepositEvent) :
    (insertLastValidEvent disk event).run store =
      match disk.write [.put "last-valid-event" (depositEventRecord event)] with
      | .ok _ => .ok () { store with
          db := store.db.put "last-valid-event" (depositEventRecord event)
          cache := { store.cache with lastValidEvent := some event } }
      | .error e => .error e store := by
  simp only [insertLastValidEvent, serializeDepositEvent, Bool.false_eq_true, if_false,
    EStateM.run_bind, EStateM.run_pure, run_batch]
  cases disk.write [.put "last-valid-event" (depositEventRecord event)] with
  | ok _ => rfl
  | error e => rfl

/-! ## The cache while a recovery throws -/

theorem keeps_cache_readEvents (values : List Json) :
    Service.Keeps (·.cache) (readEvents values) := by
  induction values with
  | nil => exact Service.keeps_pure _
  | cons value values ih =>
    refine Service.Keeps.bind (fun _ => rfl) fun _ => ?_
    exact (Service.keeps_call _).bind fun _ => ih.bind fun _ => Service.keeps_pure _

theorem keeps_getLastValidEvent {α : Type} (f : DepositsRegistryStore → α) :
    Service.Keeps f getLastValidEvent := by
  refine Service.keeps_get.bind fun store => ?_
  cases store.db.get? "last-valid-event" with
  | none => exact Service.keeps_pure _
  | some value => exact (Service.keeps_call _).bind fun _ => Service.keeps_pure _

theorem keeps_cache_getEventsFromDB : Service.Keeps (·.cache) getEventsFromDB := by
  refine Service.Keeps.bind (fun _ => rfl) fun _ => Service.keeps_get.bind fun store => ?_
  refine (keeps_cache_readEvents _).bind fun data => ?_
  cases store.db.get? "headers" with
  | none => exact Service.keeps_pure _
  | some text =>
    refine (Service.keeps_call _).bind fun _ => ?_
    exact (keeps_getLastValidEvent _).bind fun _ => Service.keeps_pure _

theorem keeps_cache_batch (ops : List DbOp) : Service.Keeps (·.cache) (batch disk ops) :=
  (Service.keeps_call _).bind fun _ => Service.keeps_modify fun _ => rfl

/-- A recovery that throws leaves the cache, whatever the database holds. -/
theorem keepsOnThrow_clearFromLastValidEvent :
    Service.KeepsOnThrow (·.cache) (clearFromLastValidEvent disk) := by
  have hsetup : Service.KeepsOnThrow (·.cache) setupEventsCache :=
    keeps_cache_getEventsFromDB.bind_onThrow fun _ => Service.keepsOnThrow_modify _
  refine (keeps_getLastValidEvent _).bind_onThrow fun lastValidEvent => ?_
  have hform : Service.Keeps (fun store : DepositsRegistryStore => store.cache)
      (formDepositEventHeaderForDeletion (lastValidEvent.map (·.blockNumber))) := by
    intro store
    rw [run_formDepositEventHeaderForDeletion]
    split_ifs <;> rfl
  refine hform.bind_onThrow fun headers => ?_
  refine (Service.keeps_call _).bind_onThrow fun upperBoundKey => ?_
  refine Service.keeps_get.bind_onThrow fun store => ?_
  dsimp only
  split_ifs
  · exact (keeps_cache_batch _).bind_onThrow fun _ => hsetup
  · exact (keeps_cache_batch _).bind_onThrow fun _ => hsetup

end DepositsRegistryStore

end CouncilDaemon
