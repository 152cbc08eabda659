import CouncilDaemon.Deposits.StoreSpec

/-!
# The cache mirrors the database

After every operation of the store, in every sequence of operations, the cache in memory is what
would be loaded from the database (`cache_mirrors_database`), also when writes fail. As long as no
write fails, the two counters are the number and the total size of the stored deposit records.
-/

namespace CouncilDaemon

namespace DepositsRegistryStore

/-! ## Operations -/

inductive Operation where
  | initializeStore
  | insertEventsCacheBatch (data : List VerifiedDepositEvent)
      (headers : VerifiedDepositEventsCacheHeaders)
  | insertLastValidEvent (event : VerifiedDepositEvent)
  | deleteDepositsGreaterThanOrEqualNBatch (depositCount : ℕ)
      (headers : VerifiedDepositEventsCacheHeaders)
  | validateAndCleanInconsistentCache
  | clearFromLastValidEvent
  | deleteCache

def Operation.run (disk : Disk) : Operation → Service DepositsRegistryStore Unit
  | initializeStore => DepositsRegistryStore.initializeStore disk
  | insertEventsCacheBatch data headers =>
    DepositsRegistryStore.insertEventsCacheBatch disk data headers
  | insertLastValidEvent event => DepositsRegistryStore.insertLastValidEvent disk event
  | deleteDepositsGreaterThanOrEqualNBatch depositCount headers =>
    DepositsRegistryStore.deleteDepositsGreaterThanOrEqualNBatch disk depositCount headers
  | validateAndCleanInconsistentCache =>
    DepositsRegistryStore.validateAndCleanInconsistentCache disk
  | clearFromLastValidEvent => DepositsRegistryStore.clearFromLastValidEvent disk
  | deleteCache => DepositsRegistryStore.deleteCache disk

/-- The deposit counts of `data` go on without gap behind those of `cached`. -/
def Continues (cached data : List VerifiedDepositEvent) : Prop :=
  (cached.getLast?.toList ++ data).IsChain fun a b => b.depositCount = a.depositCount + 1

/-- How the rest of the daemon calls the operations. -/
def Operation.Allowed (store : DepositsRegistryStore) : Operation → Prop
  | insertEventsCacheBatch data _ =>
    Continues store.cache.data data ∧ ∀ e ∈ data, e.depositCount < 2 ^ 32
  | insertLastValidEvent event => event ∈ store.cache.data
  | _ => True

/-- The stores after a start on `db` and any operations, each on a disk of its own. `faultless` says
that no write failed. -/
inductive Reaches (db : Db) : (faultless : Prop) → DepositsRegistryStore → Prop where
  | start (disk : Disk) :
    Reaches db (disk = Disk.sound) (Service.after ((initializeStore disk).run (opened db)))
  | operation {faultless : Prop} {store : DepositsRegistryStore} (operation : Operation)
      (disk : Disk) : Reaches db faultless store → operation.Allowed store →
    Reaches db (faultless ∧ disk = Disk.sound) (Service.after ((operation.run disk).run store))

/-! ## The invariant -/

/-- A database without header has neither deposits nor a last valid event. -/
def Headed (content : StoreContent) : Prop :=
  content.headers = none → content.data = [] ∧ content.lastValidEvent = none

/-- The cache is what is loaded from the content of the database. -/
structure Mirrors (content : StoreContent) (store : DepositsRegistryStore) : Prop where
  stored : Stored store.db content
  headed : Headed content
  cache : store.cache = content.load

/-- The counters belong to the content. -/
structure Counted (content : StoreContent) (store : DepositsRegistryStore) : Prop where
  count : store.cacheEventCount = content.data.length
  size : store.cacheSizeBytes = content.sizeBytes

/-- The invariant: the cache mirrors the database, and the counters are right if nothing failed. -/
def Mirrored (faultless : Prop) (store : DepositsRegistryStore) : Prop :=
  ∃ content, Mirrors content store ∧ (faultless → Counted content store)

variable {content : StoreContent} {store : DepositsRegistryStore} {disk : Disk} {db : Db}
  {faultless : Prop}

theorem Mirrors.data (h : Mirrors content store) : store.cache.data = content.data := by
  rw [h.cache, StoreContent.load]
  cases hheaders : content.headers with
  | none => exact (h.headed hheaders).1.symm
  | some headers => rfl

theorem Mirrors.lastValidEvent (h : Mirrors content store) :
    store.cache.lastValidEvent = content.lastValidEvent := by
  rw [h.cache, StoreContent.load]
  cases hheaders : content.headers with
  | none => exact (h.headed hheaders).2.symm
  | some headers => rfl

/-- Right after loading everything agrees. -/
theorem mirrored_loaded (hstored : Stored db content) (hheaded : Headed content) :
    Mirrored faultless (content.loaded db) :=
  ⟨content, ⟨hstored, hheaded, rfl⟩, fun _ => ⟨rfl, rfl⟩⟩

/-! ## Deletions -/

theorem mirrored_deleteDeposits (h : Mirrored faultless store) (n : ℕ)
    (headers : VerifiedDepositEventsCacheHeaders) :
    Mirrored faultless (Service.after
      ((deleteDepositsGreaterThanOrEqualNBatch disk n headers).run store)) := by
  obtain ⟨content, hmirrors, hcounted⟩ := h
  by_cases hn : n < 2 ^ 32
  · rw [run_deleteDeposits hmirrors.stored hn]
    cases disk.write (content.deletionOps n headers) with
    | ok _ => exact mirrored_loaded (hmirrors.stored.deletionOps n headers) (fun hnone => by cases hnone)
    | error e => exact ⟨content, hmirrors, hcounted⟩
  · obtain ⟨e, he⟩ := run_deleteDeposits_of_le store disk (not_lt.1 hn) headers
    rw [he]
    exact ⟨content, hmirrors, hcounted⟩

theorem mirrored_validateAndClean (h : Mirrored faultless store) :
    Mirrored faultless (Service.after ((validateAndCleanInconsistentCache disk).run store)) := by
  rw [run_validateAndCleanInconsistentCache]
  dsimp only
  split_ifs
  · exact h
  · exact mirrored_deleteDeposits h _ _

theorem mirrored_clearFromLastValidEvent (h : Mirrored faultless store) :
    Mirrored faultless (Service.after ((clearFromLastValidEvent disk).run store)) := by
  obtain ⟨content, hmirrors, hcounted⟩ := h
  rw [run_clearFromLastValidEvent hmirrors.stored]
  split_ifs
  · exact ⟨content, hmirrors, hcounted⟩
  · exact mirrored_deleteDeposits ⟨content, hmirrors, hcounted⟩ _ _

theorem mirrored_initializeStore (hstored : Stored store.db content) (hheaded : Headed content) :
    Mirrored faultless (Service.after ((initializeStore disk).run store)) := by
  rw [run_initializeStore hstored]
  exact mirrored_validateAndClean (mirrored_loaded hstored hheaded)

theorem mirrored_deleteCache (h : Mirrored faultless store) :
    Mirrored faultless (Service.after ((deleteCache disk).run store)) := by
  unfold deleteCache
  cases hclear : disk.clear with
  | ok _ =>
    refine ⟨StoreContent.empty, ⟨Stored.empty, fun _ => ⟨rfl, rfl⟩, rfl⟩, fun _ => ⟨rfl, rfl⟩⟩
  | error e => exact h

/-! ## Insertions -/

/-- A batch that goes on without gap has larger counts, in order. -/
theorem Continues.sorted {cached data : List VerifiedDepositEvent}
    (hsorted : cached.Pairwise fun a b => a.depositCount < b.depositCount)
    (h : Continues cached data) :
    data.Pairwise (fun a b => a.depositCount < b.depositCount) ∧
      ∀ e ∈ cached, ∀ e' ∈ data, e.depositCount < e'.depositCount := by
  let Before (a b : VerifiedDepositEvent) : Prop := a.depositCount < b.depositCount
  have htrans : Trans Before Before Before := ⟨fun h h' => Nat.lt_trans h h'⟩
  have hchain : (cached.getLast?.toList ++ data).IsChain Before := by
    refine List.IsChain.imp (fun a b heq => ?_) h
    show a.depositCount < b.depositCount
    omega
  obtain ⟨_, hdata, hcross⟩ := List.pairwise_append.1 (List.isChain_iff_pairwise.1 hchain)
  refine ⟨hdata, fun e he e' he' => ?_⟩
  have hne : cached ≠ [] := List.ne_nil_of_mem he
  have hlast : cached.getLast hne ∈ cached.getLast?.toList := by
    rw [List.getLast?_eq_some_getLast hne]
    exact List.mem_singleton_self _
  have hend : (cached.getLast hne).depositCount < e'.depositCount := hcross _ hlast _ he'
  rcases eq_or_ne e (cached.getLast hne) with rfl | hother
  · exact hend
  · have hfront : e ∈ cached.dropLast := by
      rw [← List.dropLast_append_getLast hne] at he
      rcases List.mem_append.1 he with he | he
      · exact he
      · exact absurd (List.mem_singleton.1 he) hother
    rw [← List.dropLast_append_getLast hne, List.pairwise_append] at hsorted
    exact (hsorted.2.2 e hfront _ (List.mem_singleton_self _)).trans hend

theorem mirrored_insertEventsCacheBatch (h : Mirrored faultless store)
    {data : List VerifiedDepositEvent} (headers : VerifiedDepositEventsCacheHeaders)
    (hcontinues : Continues store.cache.data data) (hlt : ∀ e ∈ data, e.depositCount < 2 ^ 32) :
    Mirrored (faultless ∧ disk = Disk.sound)
      (Service.after ((insertEventsCacheBatch disk data headers).run store)) := by
  obtain ⟨content, hmirrors, hcounted⟩ := h
  rw [run_insertEventsCacheBatch store disk hlt headers]
  dsimp only
  cases hwrite : disk.write (StoreContent.insertionOps data headers) with
  | error e =>
    refine ⟨content, ⟨hmirrors.stored, hmirrors.headed, hmirrors.cache⟩, ?_⟩
    rintro ⟨_, rfl⟩
    cases hwrite
  | ok _ =>
    rw [hmirrors.data] at hcontinues
    obtain ⟨hsorted, hcross⟩ := hcontinues.sorted content.sorted
    have hdata : ((content.putAll data hlt).putHeaders headers).data = content.data ++ data :=
      StoreContent.data_putAll_of_lt hlt hsorted hcross
    refine ⟨(content.putAll data hlt).putHeaders headers,
      ⟨hmirrors.stored.insertionOps hlt headers, fun hnone => (by cases hnone), ?_⟩, ?_⟩
    · show (⟨headers, store.cache.data ++ data, store.cache.lastValidEvent⟩ :
          VerifiedDepositEventsCache) = (⟨headers, ((content.putAll data hlt).putHeaders headers).data,
          (content.putAll data hlt).lastValidEvent⟩ : VerifiedDepositEventsCache)
      rw [hdata, StoreContent.lastValidEvent_putAll, hmirrors.data, hmirrors.lastValidEvent]
    · rintro ⟨hfaultless, _⟩
      obtain ⟨hcount, hsize⟩ := hcounted hfaultless
      refine ⟨?_, ?_⟩
      · show store.cacheEventCount + data.length = _
        rw [hdata, List.length_append, hcount]
      · show store.cacheSizeBytes + (data.map fun e => (depositEventRecord e).byteLength).sum = _
        rw [StoreContent.sizeBytes, hdata, List.map_append, List.sum_append, hsize,
          StoreContent.sizeBytes]

theorem mirrored_insertLastValidEvent (h : Mirrored faultless store) {event : VerifiedDepositEvent}
    (hevent : event ∈ store.cache.data) :
    Mirrored faultless (Service.after ((insertLastValidEvent disk event).run store)) := by
  obtain ⟨content, hmirrors, hcounted⟩ := h
  rw [run_insertLastValidEvent]
  cases disk.write [.put "last-valid-event" (depositEventRecord event)] with
  | error e => exact ⟨content, hmirrors, hcounted⟩
  | ok _ =>
    have hheaders : content.headers ≠ none := by
      intro hnone
      rw [hmirrors.data, (hmirrors.headed hnone).1] at hevent
      cases hevent
    refine ⟨content.putLastValidEvent event, ⟨hmirrors.stored.putLastValidEvent event,
      fun hnone => absurd hnone hheaders, ?_⟩, fun hfaultless => ?_⟩
    · show { store.cache with lastValidEvent := some event } = _
      rw [hmirrors.cache]
      unfold StoreContent.load StoreContent.putLastValidEvent
      cases hsome : content.headers with
      | none => exact absurd hsome hheaders
      | some headers => rfl
    · obtain ⟨hcount, hsize⟩ := hcounted hfaultless
      exact ⟨hcount, hsize⟩

/-! ## Main result -/

theorem Mirrored.mono {p q : Prop} (h : Mirrored p store) (hpq : q → p) : Mirrored q store := by
  obtain ⟨content, hmirrors, hcounted⟩ := h
  exact ⟨content, hmirrors, fun hq => hcounted (hpq hq)⟩

/-- Every operation keeps the invariant. -/
theorem mirrored_operation (h : Mirrored faultless store) (operation : Operation)
    (hallowed : operation.Allowed store) :
    Mirrored (faultless ∧ disk = Disk.sound) (Service.after ((operation.run disk).run store)) := by
  cases operation with
  | initializeStore =>
    obtain ⟨content, hmirrors, _⟩ := h
    exact mirrored_initializeStore hmirrors.stored hmirrors.headed
  | insertEventsCacheBatch data headers =>
    exact mirrored_insertEventsCacheBatch h headers hallowed.1 hallowed.2
  | insertLastValidEvent event =>
    exact (mirrored_insertLastValidEvent h hallowed).mono And.left
  | deleteDepositsGreaterThanOrEqualNBatch depositCount headers =>
    exact (mirrored_deleteDeposits h depositCount headers).mono And.left
  | validateAndCleanInconsistentCache => exact (mirrored_validateAndClean h).mono And.left
  | clearFromLastValidEvent => exact (mirrored_clearFromLastValidEvent h).mono And.left
  | deleteCache => exact (mirrored_deleteCache h).mono And.left

theorem Reaches.mirrored (hstored : Stored db content) (hheaded : Headed content)
    (h : Reaches db faultless store) : Mirrored faultless store := by
  induction h with
  | start disk =>
    have hopened : Stored (opened db).db content := hstored
    exact mirrored_initializeStore hopened hheaded
  | operation operation disk _ hallowed ih => exact mirrored_operation ih operation hallowed

/-- **The cache mirrors the database.** After every operation the cached events, header and last
valid event are those that would be loaded, in the order of the deposit counts. When no write has
failed, the counters are the number and the size of the deposit records. -/
theorem cache_mirrors_database (hstored : Stored db content) (hheaded : Headed content)
    (h : Reaches db faultless store) :
    (∃ store', getEventsFromDB.run store = .ok store.cache store') ∧
    (store.cache.data.Pairwise fun a b => a.depositCount < b.depositCount) ∧
    (faultless → store.cacheEventCount = (store.db.range isDepositKey).length ∧
      store.cacheSizeBytes = ((store.db.range isDepositKey).map (·.2.byteLength)).sum) := by
  obtain ⟨content', hmirrors, hcounted⟩ := h.mirrored hstored hheaded
  have hrange : store.db.range isDepositKey = content'.data.map fun e =>
      (depositKey e.depositCount, depositEventRecord e) := by
    rw [hmirrors.stored.range (P := fun _ => true) (fun n _ => isDepositKey_depositKey n)
      fun _ hk => hk]
    rw [List.filter_eq_self.2 fun _ _ => rfl]
  refine ⟨⟨{ content'.loaded store.db with cache := store.cache }, ?_⟩, ?_, fun hfaultless => ?_⟩
  · rw [run_getEventsFromDB hmirrors.stored, ← hmirrors.cache]
  · rw [hmirrors.data]
    exact content'.sorted
  · obtain ⟨hcount, hsize⟩ := hcounted hfaultless
    rw [hrange, List.length_map, List.map_map, hcount, hsize]
    exact ⟨rfl, rfl⟩

/-! ## A sample -/

namespace MirrorSample

def event (depositCount blockNumber : ℕ) : VerifiedDepositEvent where
  valid := true
  pubkey := "0x01"
  wc := "0x01"
  amount := "0x0040597307000000"
  signature := "0x02"
  tx := "0x03"
  blockNumber := blockNumber
  blockHash := "0x04"
  logIndex := 0
  index := "0x0000000000000000"
  depositCount := depositCount
  depositDataRoot := [7, 255]

/-- A start on an empty database, two events, a last valid event, and a recovery. -/
def stored : DepositsRegistryStore :=
  Service.after (((Operation.insertEventsCacheBatch [event 0 3, event 1 5] ⟨0, 9⟩).run
    Disk.sound).run (Service.after ((initializeStore Disk.sound).run (opened OrderedStore.empty))))

def recovered : DepositsRegistryStore :=
  Service.after ((Operation.clearFromLastValidEvent.run Disk.sound).run (Service.after
    (((Operation.insertLastValidEvent (event 0 3)).run Disk.sound).run stored)))

theorem cache_mirrors_database_sample :
    recovered.cache.data = [event 0 3] ∧ recovered.cache.headers = ⟨0, 3⟩ ∧
    (∃ store', getEventsFromDB.run recovered = .ok recovered.cache store') ∧
    recovered.cacheEventCount = (recovered.db.range isDepositKey).length := by
  have hstored : Reaches OrderedStore.empty (Disk.sound = Disk.sound ∧ Disk.sound = Disk.sound)
      stored := by
    refine Reaches.operation (Operation.insertEventsCacheBatch [event 0 3, event 1 5] ⟨0, 9⟩)
      Disk.sound (Reaches.start Disk.sound) ⟨?_, ?_⟩
    · have hcached : (Service.after ((initializeStore Disk.sound).run
          (opened OrderedStore.empty))).cache.data = [] := by decide +kernel
      rw [hcached]
      exact List.IsChain.cons_cons rfl (List.IsChain.singleton _)
    · intro e he
      rcases List.mem_cons.1 he with rfl | he
      · decide
      · obtain rfl := List.mem_singleton.1 he
        decide
  have hrecovered := Reaches.operation Operation.clearFromLastValidEvent Disk.sound
    (Reaches.operation (Operation.insertLastValidEvent (event 0 3)) Disk.sound hstored
      (show event 0 3 ∈ stored.cache.data by decide +kernel)) trivial
  obtain ⟨hload, _, hcounters⟩ := cache_mirrors_database Stored.empty (fun _ => ⟨rfl, rfl⟩)
    hrecovered
  exact ⟨by decide +kernel, by decide +kernel, hload, (hcounters ⟨⟨⟨rfl, rfl⟩, rfl⟩, rfl⟩).1⟩

end MirrorSample

end DepositsRegistryStore

end CouncilDaemon
