import CouncilDaemon.Deposits.Mirror

/-!
# Replacing the deposit cache

`setCachedEvents` clears the store and inserts the events of a given cache. The database has those
events then and nothing else, whatever was there before (`replacedInDatabase`). The insertion has
already added them to the cache in memory when `setCachedEvents` adds them once more, so the cache
agrees with what was given only when there are no events (`setCachedEvents_iff`).
-/

namespace CouncilDaemon

namespace DepositsRegistryStore

/-- The records of the database are those of `cachedEvents`, and what is read from it are its events and
its header. -/
structure ReplacedInDatabase (cachedEvents : VerifiedDepositEventsCache)
    (store : DepositsRegistryStore) : Prop where
  records : ∀ k v, store.db.get? k = some v →
    k = "headers" ∧ v = headersRecord cachedEvents.headers ∨
    ∃ event ∈ cachedEvents.data, k = depositKey event.depositCount ∧ v = depositEventRecord event
  read : ∃ cache store', getEventsFromDB.run store = .ok cache store' ∧
    cache.data = cachedEvents.data ∧ cache.headers = cachedEvents.headers

/-- The cache in memory, the database and `cachedEvents` agree. -/
structure Replaced (cachedEvents : VerifiedDepositEventsCache) (store : DepositsRegistryStore) :
    Prop where
  data : store.cache.data = cachedEvents.data
  headers : store.cache.headers = cachedEvents.headers
  database : ReplacedInDatabase cachedEvents store

variable {disk : Disk} {store store' : DepositsRegistryStore}
  {cachedEvents : VerifiedDepositEventsCache}

/-- The store of an empty database. -/
def cleared : DepositsRegistryStore where
  db := OrderedStore.empty
  cache := depositCacheDefault
  cacheSizeBytes := 0
  cacheEventCount := 0

/-- **A replacement that returns**: the events are inserted into an empty store, then added to the
cache in memory. -/
theorem setCachedEvents_cases
    (h : (setCachedEvents disk cachedEvents).run store = .ok () store') :
    ∃ inserted, (insertEventsCacheBatch disk cachedEvents.data cachedEvents.headers).run cleared =
      .ok () inserted ∧ store' = { inserted with
        cache := { inserted.cache with
          data := inserted.cache.data ++ cachedEvents.data
          headers := cachedEvents.headers } } := by
  unfold setCachedEvents deleteCache at h
  cases hclear : disk.clear with
  | error e =>
    rw [hclear] at h
    cases h
  | ok _ =>
    rw [hclear] at h
    have hrun : ((insertEventsCacheBatch disk cachedEvents.data cachedEvents.headers >>= fun _ =>
        modify fun store => { store with cache := { store.cache with
          data := store.cache.data ++ cachedEvents.data
          headers := cachedEvents.headers } }) : Service DepositsRegistryStore Unit).run cleared =
        .ok () store' := h
    cases hinsert : (insertEventsCacheBatch disk cachedEvents.data cachedEvents.headers).run
        cleared with
    | error e inserted =>
      rw [Service.run_bind_error hinsert] at hrun
      cases hrun
    | ok _ inserted =>
      rw [Service.run_bind_ok hinsert] at hrun
      obtain ⟨_, rfl⟩ := EStateM.Result.ok.inj hrun
      exact ⟨inserted, rfl, rfl⟩

/-- An insertion that returns has a key for each event. -/
theorem insertEventsCacheBatch_cases {data : List VerifiedDepositEvent}
    {headers : VerifiedDepositEventsCacheHeaders}
    (h : (insertEventsCacheBatch disk data headers).run store = .ok () store') :
    (∀ event ∈ data, event.depositCount < 2 ^ 32) ∧
      store'.db = store.db.batch (StoreContent.insertionOps data headers) ∧
      store'.cache.data = store.cache.data ++ data := by
  by_cases hlt : ∀ event ∈ data, event.depositCount < 2 ^ 32
  · rw [run_insertEventsCacheBatch store disk hlt headers] at h
    dsimp only at h
    cases hwrite : disk.write (StoreContent.insertionOps data headers) with
    | error e =>
      rw [hwrite] at h
      cases h
    | ok _ =>
      rw [hwrite] at h
      obtain ⟨_, rfl⟩ := EStateM.Result.ok.inj h
      exact ⟨hlt, rfl, rfl⟩
  · have hle : ∃ event ∈ data, 2 ^ 32 ≤ event.depositCount := by
      by_contra hnone
      exact hlt fun event hevent => not_le.1 fun hge => hnone ⟨event, hevent, hge⟩
    obtain ⟨error, size, count, hrun⟩ := run_insertEventsCacheBatch_of_le store disk hle headers
    rw [hrun] at h
    cases h

/-- **The database**, after a replacement that returns. -/
theorem replacedInDatabase
    (hcounted : cachedEvents.data.map (·.depositCount) =
      List.range' 0 cachedEvents.data.length)
    (h : (setCachedEvents disk cachedEvents).run store = .ok () store') :
    ReplacedInDatabase cachedEvents store' ∧
      store'.cache.data = cachedEvents.data ++ cachedEvents.data ∧
      store'.cache.headers = cachedEvents.headers := by
  obtain ⟨inserted, hinsert, rfl⟩ := setCachedEvents_cases h
  obtain ⟨hlt, hdb, hdata⟩ := insertEventsCacheBatch_cases hinsert
  have hstored : Stored inserted.db ((StoreContent.empty.putAll cachedEvents.data hlt).putHeaders
      cachedEvents.headers) := by
    rw [hdb]
    exact Stored.empty.insertionOps hlt cachedEvents.headers
  have hsorted : cachedEvents.data.Pairwise fun a b => a.depositCount < b.depositCount := by
    have hrange : (cachedEvents.data.map (·.depositCount)).Pairwise (· < ·) := by
      rw [hcounted]
      exact List.pairwise_lt_range'
    exact List.pairwise_map.1 hrange
  have hcontent : (StoreContent.empty.putAll cachedEvents.data hlt).data = cachedEvents.data :=
    StoreContent.data_putAll_of_lt hlt hsorted (by simp [StoreContent.empty])
  refine ⟨⟨fun k v hget => ?_, ?_⟩, ?_, rfl⟩
  · have hop : ∃ op ∈ StoreContent.insertionOps cachedEvents.data cachedEvents.headers,
        op.key = k := by
      by_contra hnone
      have hnot : ∀ op ∈ StoreContent.insertionOps cachedEvents.data cachedEvents.headers,
          op.key ≠ k := fun op hmem heq => hnone ⟨op, hmem, heq⟩
      rw [show inserted.db.get? k = none by
        rw [hdb, OrderedStore.get?_batch_of_not_mem hnot]
        rfl] at hget
      cases hget
    obtain ⟨op, hmem, rfl⟩ := hop
    rcases List.mem_append.1 hmem with hmem | hmem
    · obtain ⟨event, hevent, rfl⟩ := List.mem_map.1 hmem
      obtain ⟨e, he, hcount, rfl⟩ := (hstored.deposit _ (hlt event hevent) v).1 hget
      refine Or.inr ⟨e, ?_, ?_, rfl⟩
      · rw [← hcontent]
        exact he
      · rw [hcount]
        rfl
    · obtain rfl := List.mem_singleton.1 hmem
      have hheaders := hstored.headers
      rw [show inserted.db.get? "headers" = some v from hget] at hheaders
      exact Or.inl ⟨rfl, Option.some.inj hheaders⟩
  · have hread := @run_getEventsFromDB _ { inserted with
      cache := { inserted.cache with
        data := inserted.cache.data ++ cachedEvents.data
        headers := cachedEvents.headers } } hstored
    exact ⟨_, _, hread, hcontent, rfl⟩
  · show inserted.cache.data ++ cachedEvents.data = _
    rw [hdata]
    rfl

/-- **Replacement.** It does what it is for exactly when there are no events. -/
theorem setCachedEvents_iff
    (hcounted : cachedEvents.data.map (·.depositCount) =
      List.range' 0 cachedEvents.data.length)
    (h : (setCachedEvents disk cachedEvents).run store = .ok () store') :
    Replaced cachedEvents store' ↔ cachedEvents.data = [] := by
  obtain ⟨hdatabase, hdata, hheaders⟩ := replacedInDatabase hcounted h
  constructor
  · intro hreplaced
    have htwice := hdata.symm.trans hreplaced.data
    exact List.self_eq_append_right.1 htwice.symm
  · intro hnil
    refine ⟨?_, hheaders, hdatabase⟩
    rw [hdata, hnil]
    rfl

/-- One event in place of the two of the sample. -/
def oneEvent : VerifiedDepositEventsCache where
  headers := { startBlock := 0, endBlock := 20 }
  data := [MirrorSample.event 0 4]
  lastValidEvent := none

def replacedStore : DepositsRegistryStore :=
  Service.after ((setCachedEvents .sound oneEvent).run MirrorSample.stored)

theorem setCachedEvents_iff_sample : Replaced oneEvent replacedStore ↔ oneEvent.data = [] :=
  setCachedEvents_iff rfl (rfl : (setCachedEvents .sound oneEvent).run MirrorSample.stored = .ok () replacedStore)

/-- The event is in the cache twice. -/
theorem replaced_twice :
    (setCachedEvents .sound oneEvent).run MirrorSample.stored = .ok () replacedStore ∧
    oneEvent.data.map (·.depositCount) = List.range' 0 oneEvent.data.length ∧
    replacedStore.cache.data = [MirrorSample.event 0 4, MirrorSample.event 0 4] ∧
    ¬ Replaced oneEvent replacedStore := by
  refine ⟨rfl, rfl, rfl, fun hreplaced => ?_⟩
  have hlength := congrArg List.length hreplaced.data
  cases hlength

end DepositsRegistryStore

end CouncilDaemon
