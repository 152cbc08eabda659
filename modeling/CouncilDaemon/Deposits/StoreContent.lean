import CouncilDaemon.Deposits.Store

/-!
# What the deposits database holds

`StoreContent` is the meaning of a database: deposits in the order of their counts, the header and
the last valid event. `Stored db content` connects the two, and every operation of the store is
described by what it does to the content: loading reads it (`run_setupEventsCache`), a deletion
truncates it (`run_deleteDeposits`), an insertion adds to it (`run_insertEventsCacheBatch`,
`run_insertLastValidEvent`). An operation that throws leaves the database as it was.
-/

namespace CouncilDaemon

/-- The content of a database. -/
structure StoreContent where
  headers : Option VerifiedDepositEventsCacheHeaders
  data : List VerifiedDepositEvent
  lastValidEvent : Option VerifiedDepositEvent
  sorted : data.Pairwise fun a b => a.depositCount < b.depositCount
  count_lt : ∀ e ∈ data, e.depositCount < 2 ^ 32

namespace StoreContent

def empty : StoreContent := ⟨none, [], none, List.Pairwise.nil, by simp⟩

/-- The cache that is loaded from the content. -/
def load (content : StoreContent) : VerifiedDepositEventsCache :=
  match content.headers with
  | none => depositCacheDefault
  | some headers => { headers, data := content.data, lastValidEvent := content.lastValidEvent }

/-- The total size of the deposit records. -/
def sizeBytes (content : StoreContent) : ℕ :=
  (content.data.map fun e => (depositEventRecord e).byteLength).sum

/-- The service right after loading `content` from `db`. -/
def loaded (content : StoreContent) (db : Db) : DepositsRegistryStore where
  db := db
  cache := content.load
  cacheSizeBytes := content.sizeBytes
  cacheEventCount := content.data.length

/-- The content with `event` under its deposit count. -/
def put (content : StoreContent) (event : VerifiedDepositEvent) (h : event.depositCount < 2 ^ 32) :
    StoreContent where
  headers := content.headers
  data := content.data.filter (·.depositCount < event.depositCount) ++
    event :: content.data.filter (event.depositCount < ·.depositCount)
  lastValidEvent := content.lastValidEvent
  sorted := by
    rw [List.pairwise_append, List.pairwise_cons]
    refine ⟨content.sorted.filter _, ⟨fun b hb => ?_, content.sorted.filter _⟩, fun a ha b hb => ?_⟩
    · simpa using (List.mem_filter.1 hb).2
    · have ha : a.depositCount < event.depositCount := by simpa using (List.mem_filter.1 ha).2
      rcases List.mem_cons.1 hb with rfl | hb
      · exact ha
      · have hb : event.depositCount < b.depositCount := by simpa using (List.mem_filter.1 hb).2
        omega
  count_lt e he := by
    rcases List.mem_append.1 he with he | he
    · exact content.count_lt e (List.mem_filter.1 he).1
    · rcases List.mem_cons.1 he with rfl | he
      · exact h
      · exact content.count_lt e (List.mem_filter.1 he).1

def putHeaders (content : StoreContent) (headers : VerifiedDepositEventsCacheHeaders) :
    StoreContent := { content with headers := some headers }

def putLastValidEvent (content : StoreContent) (event : VerifiedDepositEvent) : StoreContent :=
  { content with lastValidEvent := some event }

/-- The content after a batch of events. -/
def putAll (content : StoreContent) : (events : List VerifiedDepositEvent) →
    (∀ e ∈ events, e.depositCount < 2 ^ 32) → StoreContent
  | [], _ => content
  | event :: events, h => putAll (content.put event (h event List.mem_cons_self)) events
      fun e he => h e (List.mem_cons_of_mem _ he)

/-- The content without the deposits from `depositCount` on; when there are some, the last valid
event is dropped with them. -/
def deleteFrom (content : StoreContent) (depositCount : ℕ)
    (headers : VerifiedDepositEventsCacheHeaders) : StoreContent where
  headers := some headers
  data := content.data.filter (·.depositCount < depositCount)
  lastValidEvent :=
    if ∃ e ∈ content.data, depositCount ≤ e.depositCount then none else content.lastValidEvent
  sorted := content.sorted.filter _
  count_lt e he := content.count_lt e (List.mem_filter.1 he).1

/-- The content without the deposits from `depositCount` on. -/
def truncate (content : StoreContent) (depositCount : ℕ) : StoreContent where
  headers := content.headers
  data := content.data.filter (·.depositCount < depositCount)
  lastValidEvent := content.lastValidEvent
  sorted := content.sorted.filter _
  count_lt e he := content.count_lt e (List.mem_filter.1 he).1

theorem mem_put {content : StoreContent} {event e : VerifiedDepositEvent}
    {h : event.depositCount < 2 ^ 32} :
    e ∈ (content.put event h).data ↔
      e = event ∨ e ∈ content.data ∧ e.depositCount ≠ event.depositCount := by
  unfold put
  simp only [List.mem_append, List.mem_filter, List.mem_cons, decide_eq_true_eq]
  constructor
  · rintro (⟨hm, hlt⟩ | rfl | ⟨hm, hlt⟩)
    · exact Or.inr ⟨hm, hlt.ne⟩
    · exact Or.inl rfl
    · exact Or.inr ⟨hm, hlt.ne'⟩
  · rintro (rfl | ⟨hm, hne⟩)
    · exact Or.inr (Or.inl rfl)
    · rcases Nat.lt_or_gt_of_ne hne with hlt | hlt
      · exact Or.inl ⟨hm, hlt⟩
      · exact Or.inr (Or.inr ⟨hm, hlt⟩)

@[simp] theorem lastValidEvent_putAll {events : List VerifiedDepositEvent} :
    ∀ {content : StoreContent} (h : ∀ e ∈ events, e.depositCount < 2 ^ 32),
      (content.putAll events h).lastValidEvent = content.lastValidEvent := by
  induction events with
  | nil => intro content _; rfl
  | cons event events ih => intro content h; exact ih _

/-- Events that continue the data are appended. -/
theorem data_put_of_lt {content : StoreContent} {event : VerifiedDepositEvent}
    {h : event.depositCount < 2 ^ 32} (hlt : ∀ e ∈ content.data, e.depositCount < event.depositCount) :
    (content.put event h).data = content.data ++ [event] := by
  unfold put
  have h1 : content.data.filter (·.depositCount < event.depositCount) = content.data :=
    List.filter_eq_self.2 fun e he => by simpa using hlt e he
  have h2 : content.data.filter (event.depositCount < ·.depositCount) = [] :=
    List.filter_eq_nil_iff.2 fun e he => by have := hlt e he; simp; omega
  simp only [h1, h2]

theorem data_putAll_of_lt {events : List VerifiedDepositEvent} :
    ∀ {content : StoreContent} (h : ∀ e ∈ events, e.depositCount < 2 ^ 32),
      events.Pairwise (fun a b => a.depositCount < b.depositCount) →
      (∀ e ∈ content.data, ∀ e' ∈ events, e.depositCount < e'.depositCount) →
      (content.putAll events h).data = content.data ++ events := by
  induction events with
  | nil => intro content h _ _; simp [putAll]
  | cons event events ih =>
    intro content h hsorted hlt
    obtain ⟨hfirst, hrest⟩ := List.pairwise_cons.1 hsorted
    have hput := data_put_of_lt (h := h event List.mem_cons_self)
      fun e he => hlt e he event List.mem_cons_self
    rw [putAll, ih _ hrest, hput, List.append_assoc, List.singleton_append]
    intro e he e' he'
    rw [hput, List.mem_append, List.mem_singleton] at he
    rcases he with he | rfl
    · exact hlt e he e' (List.mem_cons_of_mem _ he')
    · exact hfirst e' he'

end StoreContent

/-! ## Databases -/

/-- The records of `db` are those of `content`, and `db` has no other deposit records. -/
structure Stored (db : Db) (content : StoreContent) : Prop where
  deposit : ∀ n < 2 ^ 32, ∀ v, db.get? (depositKey n) = some v ↔
    ∃ e ∈ content.data, e.depositCount = n ∧ depositEventRecord e = v
  key : ∀ k v, db.get? k = some v → isDepositKey k → ∃ n < 2 ^ 32, k = depositKey n
  headers : db.get? "headers" = content.headers.map headersRecord
  lastValidEvent : db.get? "last-valid-event" = content.lastValidEvent.map depositEventRecord

namespace Stored

variable {db : Db} {content : StoreContent}

theorem empty : Stored OrderedStore.empty StoreContent.empty where
  deposit n _ v := by simp [StoreContent.empty]
  key k v h := by simp at h
  headers := rfl
  lastValidEvent := rfl

/-- A range of deposit keys holds the records of the deposits in it, in the order of the counts. -/
theorem range (h : Stored db content) {p : String → Bool} {P : ℕ → Bool}
    (hp : ∀ n < 2 ^ 32, p (depositKey n) = P n) (hkey : ∀ k, p k → isDepositKey k) :
    db.range p = (content.data.filter fun e => P e.depositCount).map fun e =>
      (depositKey e.depositCount, depositEventRecord e) := by
  have hlt : ∀ {e}, e ∈ content.data.filter (fun e => P e.depositCount) →
      e.depositCount < 2 ^ 32 := fun he => content.count_lt _ (List.mem_filter.1 he).1
  refine db.range_eq p ?_ fun k v => ?_
  · rw [List.pairwise_map]
    refine (content.sorted.filter _).imp_of_mem fun _ hb hab => ?_
    exact depositKey_lt hab (hlt hb)
  · rw [List.mem_map]
    constructor
    · rintro ⟨e, he, hev⟩
      obtain ⟨rfl, rfl⟩ := Prod.mk.inj hev
      obtain ⟨hm, hP⟩ := List.mem_filter.1 he
      exact ⟨(h.deposit _ (hlt he) _).2 ⟨e, hm, rfl, rfl⟩, by rw [hp _ (hlt he)]; exact hP⟩
    · rintro ⟨hget, hpk⟩
      obtain ⟨n, hn, rfl⟩ := h.key k v hget (hkey k hpk)
      obtain ⟨e, he, rfl, rfl⟩ := (h.deposit n hn v).1 hget
      exact ⟨e, List.mem_filter.2 ⟨he, by rw [← hp _ hn]; exact hpk⟩, rfl⟩

/-! ## Writes -/

theorem put (h : Stored db content) (event : VerifiedDepositEvent)
    (hlt : event.depositCount < 2 ^ 32) :
    Stored (db.put (depositKey event.depositCount) (depositEventRecord event))
      (content.put event hlt) where
  deposit n hn v := by
    rw [OrderedStore.get?_put]
    split_ifs with hk
    · obtain rfl := depositKey_injective hlt hn hk
      constructor
      · rintro ⟨rfl⟩
        exact ⟨event, StoreContent.mem_put.2 (Or.inl rfl), rfl, rfl⟩
      · rintro ⟨e, he, hcount, rfl⟩
        rcases StoreContent.mem_put.1 he with rfl | ⟨_, hne⟩
        · rfl
        · exact absurd hcount hne
    · rw [h.deposit n hn v]
      constructor
      · rintro ⟨e, he, rfl, rfl⟩
        exact ⟨e, StoreContent.mem_put.2 (Or.inr ⟨he, fun heq => hk (by rw [heq])⟩), rfl, rfl⟩
      · rintro ⟨e, he, rfl, rfl⟩
        rcases StoreContent.mem_put.1 he with rfl | ⟨hm, _⟩
        · exact absurd rfl hk
        · exact ⟨e, hm, rfl, rfl⟩
  key k v hget hk := by
    rw [OrderedStore.get?_put] at hget
    split_ifs at hget with heq
    · exact ⟨_, hlt, heq.symm⟩
    · exact h.key k v hget hk
  headers := by
    rw [OrderedStore.get?_put, if_neg (depositKey_ne isDepositKey_headers _)]
    exact h.headers
  lastValidEvent := by
    rw [OrderedStore.get?_put, if_neg (depositKey_ne isDepositKey_lastValidEvent _)]
    exact h.lastValidEvent

/-- A record outside the deposit keys leaves the deposits. -/
theorem deposit_of_apply (h : Stored db content) (op : DbOp) (hop : isDepositKey op.key = false) :
    ∀ n < 2 ^ 32, ∀ v, (db.apply op).get? (depositKey n) = some v ↔
      ∃ e ∈ content.data, e.depositCount = n ∧ depositEventRecord e = v := by
  intro n hn v
  rw [OrderedStore.get?_apply, if_neg (depositKey_ne hop n).symm]
  exact h.deposit n hn v

theorem key_of_apply (h : Stored db content) (op : DbOp) (hop : isDepositKey op.key = false) :
    ∀ k v, (db.apply op).get? k = some v → isDepositKey k → ∃ n < 2 ^ 32, k = depositKey n := by
  intro k v hget hk
  rw [OrderedStore.get?_apply, if_neg (by rintro rfl; rw [hop] at hk; cases hk)] at hget
  exact h.key k v hget hk

theorem putHeaders (h : Stored db content) (headers : VerifiedDepositEventsCacheHeaders) :
    Stored (db.put "headers" (headersRecord headers)) (content.putHeaders headers) where
  deposit := h.deposit_of_apply (.put "headers" _) isDepositKey_headers
  key := h.key_of_apply (.put "headers" _) isDepositKey_headers
  headers := by rw [OrderedStore.get?_put, if_pos rfl]; rfl
  lastValidEvent := by
    rw [OrderedStore.get?_put, if_neg (by decide)]
    exact h.lastValidEvent

theorem putLastValidEvent (h : Stored db content) (event : VerifiedDepositEvent) :
    Stored (db.put "last-valid-event" (depositEventRecord event))
      (content.putLastValidEvent event) where
  deposit := h.deposit_of_apply (.put "last-valid-event" _) isDepositKey_lastValidEvent
  key := h.key_of_apply (.put "last-valid-event" _) isDepositKey_lastValidEvent
  headers := by
    rw [OrderedStore.get?_put, if_neg (by decide)]
    exact h.headers
  lastValidEvent := by rw [OrderedStore.get?_put, if_pos rfl]; rfl

theorem delLastValidEvent (h : Stored db content) :
    Stored (db.del "last-valid-event") { content with lastValidEvent := none } where
  deposit := h.deposit_of_apply (.del "last-valid-event") isDepositKey_lastValidEvent
  key := h.key_of_apply (.del "last-valid-event") isDepositKey_lastValidEvent
  headers := by
    rw [OrderedStore.get?_del, if_neg (by decide)]
    exact h.headers
  lastValidEvent := by rw [OrderedStore.get?_del, if_pos rfl]; rfl

end Stored

end CouncilDaemon
