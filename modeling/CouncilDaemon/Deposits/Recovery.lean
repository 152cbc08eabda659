import CouncilDaemon.Deposits.StoreSpec

/-!
# Recovery from a failed root check

When the root of the updated events differs from the root of the network, the store is cut back to
the last valid event by `clearFromLastValidEvent`. `Reachable D store` are the states of the store
on a network with deployment block `D`; each of them satisfies `Covered`, which is kept by every
operation (`Reachable.covered`).

Recovery succeeds from a reachable state exactly when the header it is going to write passes its own
check (`recovers_iff`). Without a last valid event that header ends at block zero, so on a network
with a deployment block it is refused as soon as one chunk was written
(`not_recovers_after_first_chunk`).
-/

namespace CouncilDaemon

namespace DepositsRegistryStore

/-- The states of the store on a network with deployment block `D`: started on an empty database or
restarted on the database of an earlier state, then changed by insertions and recoveries, which may
fail as the disk decides. -/
inductive Reachable (D : ℕ) : DepositsRegistryStore → Prop
  | start (disk : Disk) {store : DepositsRegistryStore}
      (h : (initializeStore disk).run (opened OrderedStore.empty) = .ok () store) :
      Reachable D store
  | restart {disk : Disk} {store store' : DepositsRegistryStore} (h : Reachable D store)
      (h' : (initializeStore disk).run (opened store.db) = .ok () store') : Reachable D store'
  | insertEventsCacheBatch {store : DepositsRegistryStore} (disk : Disk)
      (data : List VerifiedDepositEvent) {headers : VerifiedDepositEventsCacheHeaders}
      (hheaders : headers.startBlock = D) (h : Reachable D store) :
      Reachable D (Service.after ((insertEventsCacheBatch disk data headers).run store))
  | insertLastValidEvent {store : DepositsRegistryStore} (disk : Disk)
      {event : VerifiedDepositEvent} (hevent : event ∈ store.cache.data) (h : Reachable D store) :
      Reachable D (Service.after ((insertLastValidEvent disk event).run store))
  | clearFromLastValidEvent {store : DepositsRegistryStore} (disk : Disk) (h : Reachable D store) :
      Reachable D (Service.after ((clearFromLastValidEvent disk).run store))

/-- `clearFromLastValidEvent` returns on a disk without failures. The deposits left are those counted
no further than the last valid event, the header ends at the block of that event (at its start, when
there is none), the last valid event left is not past the data, and the cache is what the database
holds. -/
def Recovers (store : DepositsRegistryStore) (content : StoreContent) : Prop :=
  ∃ store' content' headers, (clearFromLastValidEvent .sound).run store = .ok () store' ∧
    Stored store'.db content' ∧
    content'.data = content.data.filter (fun e =>
      content.lastValidEvent.elim false fun last => e.depositCount ≤ last.depositCount) ∧
    content'.headers = some headers ∧
    headers.endBlock = (content.lastValidEvent.map (·.blockNumber)).getD headers.startBlock ∧
    (∀ last, content'.lastValidEvent = some last →
      ∃ e ∈ content'.data, last.depositCount ≤ e.depositCount) ∧
    ∃ store'', getEventsFromDB.run store' = .ok store'.cache store''

/-- The header of a recovery passes its check, and the first deposit it deletes has a key. -/
def HeaderPasses (store : DepositsRegistryStore) (content : StoreContent) : Prop :=
  match content.lastValidEvent with
  | none => store.cache.headers.startBlock = 0
  | some last => store.cache.headers.startBlock ≤ last.blockNumber ∧ last.depositCount + 1 < 2 ^ 32

/-- Some deposit of `content` has the count of `event`. -/
def HasCount (content : StoreContent) (event : VerifiedDepositEvent) : Prop :=
  ∃ e ∈ content.data, e.depositCount = event.depositCount

/-- The database stores `content`, and the counts of the cached events and of the last valid event
are counts of stored deposits. -/
structure Covered (store : DepositsRegistryStore) (content : StoreContent) : Prop where
  stored : Stored store.db content
  cache : ∀ event ∈ store.cache.data, HasCount content event
  lastValidEvent : ∀ event, content.lastValidEvent = some event → HasCount content event

variable {store store' : DepositsRegistryStore} {content : StoreContent} {disk : Disk}

/-! ## Every operation keeps the coverage -/

theorem mem_load {event : VerifiedDepositEvent} (h : event ∈ content.load.data) :
    event ∈ content.data := by
  unfold StoreContent.load at h
  cases hheaders : content.headers with
  | none => rw [hheaders] at h; cases h
  | some headers => rw [hheaders] at h; exact h

theorem covered_loaded {db : Db} (h : Stored db content)
    (hlast : ∀ event, content.lastValidEvent = some event → HasCount content event) :
    Covered (content.loaded db) content :=
  ⟨h, fun event he => ⟨event, mem_load he, rfl⟩, hlast⟩

theorem lastValidEvent_deleteFrom {n : ℕ} {headers : VerifiedDepositEventsCacheHeaders}
    (h : ∀ event, content.lastValidEvent = some event → HasCount content event)
    {event : VerifiedDepositEvent}
    (hevent : (content.deleteFrom n headers).lastValidEvent = some event) :
    HasCount (content.deleteFrom n headers) event := by
  simp only [StoreContent.deleteFrom] at hevent
  split_ifs at hevent with hdel
  obtain ⟨e, he, hcount⟩ := h event hevent
  have hlt : e.depositCount < n := by
    by_contra hn
    exact hdel ⟨e, he, not_lt.1 hn⟩
  exact ⟨e, List.mem_filter.2 ⟨he, by simpa using hlt⟩, hcount⟩

theorem Covered.deleteFrom {db : Db} {n : ℕ} {headers : VerifiedDepositEventsCacheHeaders}
    (h : Covered store content) (hdb : Stored db (content.deleteFrom n headers)) :
    Covered ((content.deleteFrom n headers).loaded db) (content.deleteFrom n headers) :=
  covered_loaded hdb fun _ => lastValidEvent_deleteFrom h.lastValidEvent

theorem Covered.after_deleteDeposits (h : Covered store content) (disk : Disk) (n : ℕ)
    (headers : VerifiedDepositEventsCacheHeaders) :
    ∃ content', Covered
      (Service.after ((deleteDepositsGreaterThanOrEqualNBatch disk n headers).run store)) content' := by
  by_cases hn : n < 2 ^ 32
  · rw [run_deleteDeposits h.stored hn]
    cases disk.write (content.deletionOps n headers) with
    | ok _ => exact ⟨_, h.deleteFrom (h.stored.deletionOps n headers)⟩
    | error e => exact ⟨content, h⟩
  · obtain ⟨e, he⟩ := run_deleteDeposits_of_le store disk (not_lt.1 hn) headers
    rw [he]
    exact ⟨content, h⟩

theorem Covered.after_clearFromLastValidEvent (h : Covered store content) :
    ∃ content', Covered (Service.after ((clearFromLastValidEvent disk).run store)) content' := by
  rw [run_clearFromLastValidEvent h.stored]
  split_ifs
  · exact ⟨content, h⟩
  · exact h.after_deleteDeposits _ _ _

theorem Covered.initializeStore {db : Db} (h : Stored db content)
    (hlast : ∀ event, content.lastValidEvent = some event → HasCount content event)
    (hrun : (DepositsRegistryStore.initializeStore disk).run (opened db) = .ok () store') :
    ∃ content', Covered store' content' := by
  have hopened : Stored (opened db).db content := h
  rw [run_initializeStore hopened, run_validateAndCleanInconsistentCache] at hrun
  dsimp only at hrun
  split_ifs at hrun
  have hloaded := covered_loaded hopened hlast
  obtain ⟨content', h'⟩ := hloaded.after_deleteDeposits disk _ _
  rw [hrun] at h'
  exact ⟨content', h'⟩

theorem hasCount_put {event e : VerifiedDepositEvent} (hlt : event.depositCount < 2 ^ 32)
    (h : e.depositCount = event.depositCount ∨ HasCount content e) :
    HasCount (content.put event hlt) e := by
  by_cases heq : e.depositCount = event.depositCount
  · exact ⟨event, StoreContent.mem_put.2 (Or.inl rfl), heq.symm⟩
  · obtain ⟨e', he', hcount⟩ := h.resolve_left heq
    exact ⟨e', StoreContent.mem_put.2 (Or.inr ⟨he', by rwa [hcount]⟩), hcount⟩

theorem hasCount_putAll {e : VerifiedDepositEvent} : ∀ {events : List VerifiedDepositEvent}
    {content : StoreContent} (hlt : ∀ e ∈ events, e.depositCount < 2 ^ 32),
    e ∈ events ∨ HasCount content e → HasCount (content.putAll events hlt) e := by
  intro events
  induction events with
  | nil => intro content _ h; exact h.resolve_left (by simp)
  | cons event events ih =>
    intro content hlt h
    refine ih _ ?_
    rcases h with he | he
    · rcases List.mem_cons.1 he with rfl | he
      · exact Or.inr (hasCount_put _ (Or.inl rfl))
      · exact Or.inl he
    · exact Or.inr (hasCount_put _ (Or.inr he))

theorem Covered.after_insertEventsCacheBatch (h : Covered store content)
    (data : List VerifiedDepositEvent) (headers : VerifiedDepositEventsCacheHeaders) :
    ∃ content', Covered
      (Service.after ((insertEventsCacheBatch disk data headers).run store)) content' := by
  by_cases hlt : ∀ e ∈ data, e.depositCount < 2 ^ 32
  · rw [run_insertEventsCacheBatch store disk hlt]
    dsimp only
    cases disk.write (StoreContent.insertionOps data headers) with
    | ok _ =>
      refine ⟨_, h.stored.insertionOps hlt headers, fun event he => ?_, fun event he => ?_⟩
      · refine hasCount_putAll hlt ?_
        rcases List.mem_append.1 he with he | he
        · exact Or.inr (h.cache event he)
        · exact Or.inl he
      · refine hasCount_putAll hlt (Or.inr (h.lastValidEvent event ?_))
        rw [← he]
        exact (StoreContent.lastValidEvent_putAll hlt).symm
    | error e => exact ⟨content, h.stored, h.cache, h.lastValidEvent⟩
  · have hle : ∃ e ∈ data, 2 ^ 32 ≤ e.depositCount := by
      by_contra hnone
      exact hlt fun e he => not_le.1 fun hge => hnone ⟨e, he, hge⟩
    obtain ⟨error, size, count, hrun⟩ :=
      run_insertEventsCacheBatch_of_le store disk hle headers
    rw [hrun]
    exact ⟨content, h.stored, h.cache, h.lastValidEvent⟩

theorem Covered.after_insertLastValidEvent (h : Covered store content)
    {event : VerifiedDepositEvent} (hevent : event ∈ store.cache.data) :
    ∃ content', Covered (Service.after ((insertLastValidEvent disk event).run store)) content' := by
  rw [run_insertLastValidEvent]
  cases disk.write [.put "last-valid-event" (depositEventRecord event)] with
  | ok _ =>
    refine ⟨_, h.stored.putLastValidEvent event, h.cache, fun last hlast => ?_⟩
    obtain rfl := Option.some.inj hlast
    exact h.cache event hevent
  | error e => exact ⟨content, h⟩

/-- **Coverage.** -/
theorem Reachable.covered {D : ℕ} (h : Reachable D store) : ∃ content, Covered store content := by
  induction h with
  | start _ h => exact Covered.initializeStore Stored.empty (by simp [StoreContent.empty]) h
  | restart _ h' ih =>
    obtain ⟨content, hc⟩ := ih
    exact Covered.initializeStore hc.stored hc.lastValidEvent h'
  | insertEventsCacheBatch disk data _ _ ih =>
    obtain ⟨content, hc⟩ := ih
    exact hc.after_insertEventsCacheBatch data _
  | insertLastValidEvent disk hevent _ ih =>
    obtain ⟨content, hc⟩ := ih
    exact hc.after_insertLastValidEvent hevent
  | clearFromLastValidEvent disk _ ih =>
    obtain ⟨content, hc⟩ := ih
    exact hc.after_clearFromLastValidEvent

/-! ## When recovery succeeds -/

/-- The deposits counted below the successor of the last valid event are those that are kept. -/
theorem filter_lt_succ (last : Option VerifiedDepositEvent) (e : VerifiedDepositEvent) :
    decide (e.depositCount < last.elim 0 (·.depositCount + 1)) =
      last.elim false fun last => decide (e.depositCount ≤ last.depositCount) := by
  cases last with
  | none => simp
  | some last => simp

theorem Covered.recovers (h : Covered store content) (hpass : HeaderPasses store content) :
    Recovers store content := by
  have hcheck : ¬ (content.lastValidEvent.map (·.blockNumber)).getD 0 <
      store.cache.headers.startBlock := by
    unfold HeaderPasses at hpass
    cases hlast : content.lastValidEvent with
    | none => rw [hlast] at hpass; simpa using hpass
    | some last => rw [hlast] at hpass; simpa using hpass.1
  have hkey : content.lastValidEvent.elim 0 (·.depositCount + 1) < 2 ^ 32 := by
    unfold HeaderPasses at hpass
    cases hlast : content.lastValidEvent with
    | none => simp
    | some last => rw [hlast] at hpass; exact hpass.2
  let headers : VerifiedDepositEventsCacheHeaders := { store.cache.headers with
    endBlock := (content.lastValidEvent.map (·.blockNumber)).getD 0 }
  let n := content.lastValidEvent.elim 0 (·.depositCount + 1)
  have hstored := h.stored.deletionOps n headers
  have hloaded : Stored ((content.deleteFrom n headers).loaded (store.db.batch
    (content.deletionOps n headers))).db (content.deleteFrom n headers) := hstored
  refine ⟨(content.deleteFrom n headers).loaded _, content.deleteFrom n headers, headers, ?_,
    hstored, ?_, rfl, ?_, fun last hlast => ?_, _,
    run_getEventsFromDB hloaded⟩
  · rw [run_clearFromLastValidEvent h.stored, if_neg hcheck, run_deleteDeposits h.stored hkey]
    rfl
  · exact List.filter_congr fun e _ => filter_lt_succ _ e
  · unfold HeaderPasses at hpass
    simp only [headers]
    cases hlast : content.lastValidEvent with
    | none => rw [hlast] at hpass; exact hpass.symm
    | some last => rfl
  · obtain ⟨e, he, hcount⟩ := lastValidEvent_deleteFrom h.lastValidEvent hlast
    exact ⟨e, he, hcount.ge⟩

theorem Covered.headerPasses (h : Covered store content) (hrec : Recovers store content) :
    HeaderPasses store content := by
  obtain ⟨store', _, _, hrun, _⟩ := hrec
  rw [run_clearFromLastValidEvent h.stored] at hrun
  split_ifs at hrun with hcheck
  unfold HeaderPasses
  cases hlast : content.lastValidEvent with
  | none =>
    rw [hlast] at hcheck
    simpa using hcheck
  | some last =>
    rw [hlast] at hcheck hrun
    refine ⟨by simpa using hcheck, ?_⟩
    by_contra hkey
    obtain ⟨e, he⟩ := run_deleteDeposits_of_le store .sound (not_lt.1 hkey)
      { store.cache.headers with endBlock := last.blockNumber }
    exact absurd (he.symm.trans hrun) (by simp)

/-- The store of a fresh network after one chunk without deposits was written. -/
def afterEmptyChunk (D : ℕ) : DepositsRegistryStore :=
  Service.after ((insertEventsCacheBatch .sound [] { startBlock := D, endBlock := D + 1000 }).run
    (Service.after ((initializeStore .sound).run (opened OrderedStore.empty))))

theorem reachable_afterEmptyChunk (D : ℕ) : Reachable D (afterEmptyChunk D) :=
  .insertEventsCacheBatch .sound [] rfl (.start .sound rfl)

theorem lastValidEvent_afterEmptyChunk (D : ℕ) :
    (afterEmptyChunk D).db.get? "last-valid-event" = none := rfl

/-- **Recovery.** From every reachable state, recovery does what it is for exactly when the header it
writes passes its check and the first deposit it deletes has a key. -/
theorem recovers_iff {D : ℕ} (h : Reachable D store) :
    ∃ content, Stored store.db content ∧ (Recovers store content ↔ HeaderPasses store content) := by
  obtain ⟨content, hc⟩ := h.covered
  exact ⟨content, hc.stored, hc.headerPasses, hc.recovers⟩

/-- A deposit of Mainnet, `blocks` after the deployment. -/
def mainnetDeposit (depositCount blocks : ℕ) : VerifiedDepositEvent where
  valid := true
  pubkey := "0x01"
  wc := "0x01"
  amount := "0x0040597307000000"
  signature := "0x02"
  tx := "0x03"
  blockNumber := 11052984 + blocks
  blockHash := "0x04"
  logIndex := 0
  index := "0x0000000000000000"
  depositCount := depositCount
  depositDataRoot := zeroHash

/-- The store of Mainnet with a last valid event. -/
def withLastValidEvent : DepositsRegistryStore :=
  Service.after ((insertEventsCacheBatch .sound [mainnetDeposit 0 1500]
    { startBlock := 11052984, endBlock := 11054984 }).run
      (Service.after ((initializeStore .sound).run (opened OrderedStore.empty))))

/-- The store of Mainnet with two deposits past its last valid event. -/
def pastLastValidEvent : DepositsRegistryStore :=
  Service.after ((insertEventsCacheBatch .sound [mainnetDeposit 1 2500, mainnetDeposit 2 2600]
    { startBlock := 11052984, endBlock := 11055984 }).run
      (Service.after ((insertLastValidEvent .sound (mainnetDeposit 0 1500)).run withLastValidEvent)))

theorem reachable_pastLastValidEvent : Reachable 11052984 pastLastValidEvent := by
  have hstored : Reachable 11052984 withLastValidEvent :=
    .insertEventsCacheBatch .sound [mainnetDeposit 0 1500] rfl (.start .sound rfl)
  have hcached : mainnetDeposit 0 1500 ∈ withLastValidEvent.cache.data := List.mem_singleton.2 rfl
  exact .insertEventsCacheBatch .sound [mainnetDeposit 1 2500, mainnetDeposit 2 2600] rfl
    (.insertLastValidEvent .sound hcached hstored)

/-- On Mainnet, with two deposits past the last valid event: recovery does what it is for. -/
theorem recovers_iff_mainnet : deploymentBlockNetwork 1 = some 11052984 ∧
    pastLastValidEvent.cache.data =
      [mainnetDeposit 0 1500, mainnetDeposit 1 2500, mainnetDeposit 2 2600] ∧
    ∃ content, Stored pastLastValidEvent.db content ∧
      content.lastValidEvent = some (mainnetDeposit 0 1500) ∧
      Recovers pastLastValidEvent content := by
  obtain ⟨content, hstored, hiff⟩ := recovers_iff reachable_pastLastValidEvent
  have hread : getLastValidEvent.run pastLastValidEvent =
      .ok (some (mainnetDeposit 0 1500)) pastLastValidEvent := rfl
  rw [run_getLastValidEvent hstored] at hread
  have hlast := (EStateM.Result.ok.inj hread).1
  refine ⟨rfl, rfl, content, hstored, hlast, hiff.2 ?_⟩
  rw [HeaderPasses, hlast]
  decide

/-- On Mainnet one chunk without deposits is enough for recovery to fail: the header it forms ends
before it starts. -/
theorem not_recovers_after_first_chunk :
    ∃ D store content, deploymentBlockNetwork 1 = some D ∧ Reachable D store ∧
      Stored store.db content ∧ ¬ Recovers store content := by
  have hreach := reachable_afterEmptyChunk 11052984
  obtain ⟨content, hc⟩ := hreach.covered
  refine ⟨11052984, afterEmptyChunk 11052984, content, rfl, hreach, hc.stored, fun hrec => ?_⟩
  have hnone : content.lastValidEvent = none := by
    have := hc.stored.lastValidEvent
    rw [lastValidEvent_afterEmptyChunk] at this
    exact Option.map_eq_none_iff.1 this.symm
  have hpass := hc.headerPasses hrec
  rw [HeaderPasses, hnone] at hpass
  exact absurd hpass (by decide)

end DepositsRegistryStore

end CouncilDaemon
