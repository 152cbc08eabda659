import CouncilDaemon.Deposits.Resume

/-!
# The clean-up as a resume point

A complete cache of the deposits up to some block has lost records. The clean-up at start-up keeps the
deposits before the first lost one, and lets the header end at the block of the last of them. The next
update goes on from there, so it is complete exactly when the cut falls between two blocks
(`cleaned_resumes_iff`); otherwise the deposits left in the block of the cut are never fetched again
(`not_resumed_within_block`).
-/

namespace CouncilDaemon

variable {C : Crypto} {D : ℕ} {H : History D} {env : Env} {registry : Registry}

/-! ## An update from a header that is complete -/

namespace Registry

/-- The cached events are the history up to `block`. -/
structure UpTo (C : Crypto) (H : History D) (block : ℕ) (registry : Registry) : Prop where
  data : registry.store.cache.data = H.upTo block
  aligned : Aligned C registry

/-- A chunk that is fetched and written. -/
theorem UpTo.updateChunk {F : ℕ} (henv : Honest H F env) {block last : ℕ} (hfirst : block < last)
    (hlast : last ≤ F) (h : UpTo C H block registry) (headers : VerifiedDepositEventsCacheHeaders)
    {events : List VerifiedDepositEvent} {registry' : Registry}
    (hrun : (Registry.updateChunk C env headers (block + 1) last).run registry =
      .ok events registry') : UpTo C H last registry' := by
  cases hfetch : env.fetchEventsFallOver (block + 1) last with
  | error e =>
    rw [run_updateChunk_error hfetch] at hrun
    cases hrun
  | ok fetched =>
    have hsort := History.sort_between (henv.complete _ _ _ hlast hfetch)
    have hcont : Continues registry.store.cache.data.length (sortEventsByDepositCount fetched) := by
      rw [hsort, h.data]
      exact History.continues_between hfirst.le
    by_cases hwrite : Written env.disk (sortEventsByDepositCount fetched)
        { headers with endBlock := last }
    · obtain ⟨registry₁, hrun₁, haligned, hcache, _⟩ :=
        run_updateChunk_written h.aligned hfetch hcont hwrite
      rw [hrun₁] at hrun
      obtain ⟨rfl, rfl⟩ := EStateM.Result.ok.inj hrun
      refine ⟨?_, haligned⟩
      rw [hcache, h.data, hsort]
      exact History.upTo_append_between hfirst.le
    · obtain ⟨e, registry₁, hrun₁, _⟩ := run_updateChunk_unwritten h.aligned hfetch hcont hwrite
      rw [hrun₁] at hrun
      cases hrun

/-- The loop, when it comes to its end. -/
theorem UpTo.updateChunks {F : ℕ} (henv : Honest H F env) {step : ℕ} (hstep : 0 < step)
    (headers : VerifiedDepositEventsCacheHeaders) : ∀ (n : ℕ) {block : ℕ} {registry : Registry}
      {lastIndexedEvent event : Option VerifiedDepositEvent} {registry' : Registry},
      F - block ≤ n → block ≤ F → UpTo C H block registry →
      (Registry.updateChunks C env headers (chunks (block + 1) F step) lastIndexedEvent).run
        registry = .ok event registry' → UpTo C H F registry' := by
  intro n
  induction n with
  | zero =>
    intro block registry lastIndexedEvent event registry' hn hle h hrun
    obtain rfl : block = F := by omega
    rw [chunks_of_lt step hstep (by omega)] at hrun
    obtain ⟨_, rfl⟩ := EStateM.Result.ok.inj hrun
    exact h
  | succ n ih =>
    intro block registry lastIndexedEvent event registry' hn hle h hrun
    by_cases heq : block = F
    · subst heq
      rw [chunks_of_lt step hstep (by omega)] at hrun
      obtain ⟨_, rfl⟩ := EStateM.Result.ok.inj hrun
      exact h
    · rw [chunks_of_le step hstep (by omega), Registry.updateChunks] at hrun
      cases hchunk : (Registry.updateChunk C env headers (block + 1)
          (min F (block + 1 + step - 1))).run registry with
      | error e registry₁ =>
        rw [Service.run_bind_error hchunk] at hrun
        cases hrun
      | ok events registry₁ =>
        rw [Service.run_bind_ok hchunk] at hrun
        have hnext := h.updateChunk henv (by omega) (min_le_left _ _) headers hchunk
        exact ih (by omega) (min_le_left _ _) hnext hrun

/-- **An update that returns** from cached events that are the history up to the end of the header. -/
theorem UpTo.updateEventsCache {F : ℕ} {hash : String} (henv : Honest H F env)
    (hfinalized : env.finalizedBlock = .ok (F, hash))
    (hle : (cachedHeaders registry D).endBlock ≤ F)
    (h : UpTo C H (cachedHeaders registry D).endBlock registry) {registry' : Registry}
    (hrun : (Registry.updateEventsCache C env).run registry = .ok .returned registry') :
    registry'.store.cache.data = H.upTo F := by
  rw [run_updateEventsCache hfinalized henv.deployed, if_neg (not_lt.2 hle)] at hrun
  cases hloop : (Registry.updateChunks C env (cachedHeaders registry D)
      (chunks ((cachedHeaders registry D).endBlock + 1) F (depositEventsStep env.chainId))
      none).run registry with
  | error e registry₁ =>
    rw [Service.run_bind_error hloop] at hrun
    cases hrun
  | ok event registry₁ =>
    rw [Service.run_bind_ok hloop] at hrun
    have hupTo := UpTo.updateChunks henv (depositEventsStep_pos env.chainId) _ _ le_rfl hle h hloop
    rcases finishUpdate_exits_or_keeps C env registry₁ hash event with
      ⟨registry₂, hexit⟩ | ⟨registry₂, hafter, _, hdata⟩
    · rw [hexit] at hrun
      cases hrun
    · rw [hrun] at hafter
      obtain rfl : registry' = registry₂ := hafter
      rw [hdata, hupTo.data]

end Registry

/-! ## The clean-up -/

/-- What is stored of a complete cache of the deposits up to `block` when the records that `keep` does
not hold of are lost. -/
structure Lossy (H : History D) (block : ℕ) (keep : VerifiedDepositEvent → Bool)
    (content : StoreContent) : Prop where
  headers : content.headers = some { startBlock := D, endBlock := block }
  data : content.data = (H.upTo block).filter keep

namespace History

/-- The deposits up to `block` before the first lost one. -/
def beforeLost (H : History D) (block : ℕ) (keep : VerifiedDepositEvent → Bool) :
    List VerifiedDepositEvent := (H.upTo block).takeWhile keep

/-- The first lost deposit and those after it. -/
def fromLost (H : History D) (block : ℕ) (keep : VerifiedDepositEvent → Bool) :
    List VerifiedDepositEvent := (H.upTo block).dropWhile keep

/-- The first lost deposit is not in the block of the one before it. -/
def CutBetweenBlocks (H : History D) (block : ℕ) (keep : VerifiedDepositEvent → Bool) : Prop :=
  ∀ last lost, (H.beforeLost block keep).getLast? = some last →
    (H.fromLost block keep).head? = some lost → last.blockNumber < lost.blockNumber

end History

/-- The store goes on from its header without a gap: the deposits up to the end of the header are
cached, what is fetched next follows them, and an update that returns has the whole history. -/
structure Resumes (C : Crypto) (H : History D) (store : DepositsRegistryStore) : Prop where
  complete : ∀ event ∈ H.events, event.blockNumber ≤ store.cache.headers.endBlock →
    event ∈ store.cache.data
  next : ∀ last, max store.cache.headers.endBlock D ≤ last →
    store.cache.data ++ H.between (max store.cache.headers.endBlock D + 1) last = H.upTo last
  update : ∀ (registry : Registry) env F hash registry', registry.store = store →
    Registry.Aligned C registry → Honest H F env → env.finalizedBlock = .ok (F, hash) →
    (Registry.cachedHeaders registry D).endBlock ≤ F →
    (Registry.updateEventsCache C env).run registry = .ok .returned registry' →
    registry'.store.cache.data = H.upTo F

/-- The clean-up returns, and leaves the deposits before the first lost one as a point to resume
from. -/
def CleanedAsResumePoint (C : Crypto) (H : History D) (block : ℕ)
    (keep : VerifiedDepositEvent → Bool) (store : DepositsRegistryStore) : Prop :=
  ∃ store', (DepositsRegistryStore.validateAndCleanInconsistentCache .sound).run store =
      .ok () store' ∧ store'.cache.data = H.beforeLost block keep ∧
    (∃ content, Stored store'.db content ∧ content.data = H.beforeLost block keep ∧
      content.headers = some store'.cache.headers) ∧
    Resumes C H store'

/-- The deposits in the expected order are those before the first lost one. -/
theorem countedFrom_filter {events : List VerifiedDepositEvent} (keep : VerifiedDepositEvent → Bool) :
    ∀ {count : ℕ}, events.map (·.depositCount) = List.range' count events.length →
      countedFrom count (events.filter keep) = events.takeWhile keep := by
  induction events with
  | nil =>
    intro count _
    rfl
  | cons event events ih =>
    intro count hcounted
    rw [List.map_cons, List.length_cons, List.range'_succ] at hcounted
    obtain ⟨hfirst, hrest⟩ := List.cons.inj hcounted
    by_cases hkeep : keep event = true
    · rw [List.filter_cons_of_pos hkeep, List.takeWhile_cons_of_pos hkeep, countedFrom,
        if_pos hfirst, ih hrest]
    · rw [List.filter_cons_of_neg hkeep, List.takeWhile_cons_of_neg hkeep]
      cases hfilter : events.filter keep with
      | nil => rfl
      | cons other others =>
        have hmem : other ∈ events := by
          have hin : other ∈ events.filter keep := by
            rw [hfilter]
            exact List.mem_cons_self
          exact (List.mem_filter.1 hin).1
        have hcount : other.depositCount ∈ List.range' (count + 1) events.length := by
          rw [← hrest]
          exact List.mem_map_of_mem hmem
        have hlt := (List.mem_range'_1.1 hcount).1
        rw [countedFrom, if_neg (by omega)]

namespace History

variable {block : ℕ} {keep : VerifiedDepositEvent → Bool}

theorem beforeLost_append_fromLost (block : ℕ) (keep : VerifiedDepositEvent → Bool) :
    H.beforeLost block keep ++ H.fromLost block keep = H.upTo block :=
  List.takeWhile_append_dropWhile

theorem beforeLost_isPrefix : H.beforeLost block keep <+: H.events :=
  (List.takeWhile_prefix keep).trans (isPrefix_upTo block)

theorem mem_upTo_of_beforeLost {event : VerifiedDepositEvent}
    (h : event ∈ H.beforeLost block keep) : event ∈ H.upTo block := by
  rw [← beforeLost_append_fromLost block keep]
  exact List.mem_append_left _ h

/-- A deposit before the first lost one is counted lower than any from it on. -/
theorem count_lt_of_fromLost {a b : VerifiedDepositEvent} (ha : a ∈ H.beforeLost block keep)
    (hb : b ∈ H.fromLost block keep) : a.depositCount < b.depositCount := by
  have hsorted : (H.upTo block).Pairwise fun a b => a.depositCount < b.depositCount :=
    sorted_events.filter _
  rw [← beforeLost_append_fromLost block keep, List.pairwise_append] at hsorted
  exact hsorted.2.2 a ha b hb

/-- A cut between two blocks leaves the deposits up to the last of them. -/
theorem CutBetweenBlocks.upTo_eq (h : H.CutBetweenBlocks block keep) {last : VerifiedDepositEvent}
    (hlast : (H.beforeLost block keep).getLast? = some last) :
    H.upTo last.blockNumber = H.beforeLost block keep := by
  have hmem := List.mem_of_getLast? hlast
  obtain ⟨hevent, hblock⟩ := mem_upTo.1 (mem_upTo_of_beforeLost hmem)
  have hfront : ∀ event ∈ H.beforeLost block keep, event.blockNumber ≤ last.blockNumber := by
    intro event hin
    obtain ⟨front, hfront⟩ := List.getLast?_eq_some_iff.1 hlast
    have hordered : (H.beforeLost block keep).Pairwise
        fun a b => a.blockNumber ≤ b.blockNumber := H.ordered.sublist beforeLost_isPrefix.sublist
    rw [hfront] at hordered hin
    rcases List.mem_append.1 hin with hin | hin
    · exact (List.pairwise_append.1 hordered).2.2 event hin last List.mem_cons_self
    · rw [List.mem_singleton.1 hin]
  have hback : ∀ event ∈ H.fromLost block keep, last.blockNumber < event.blockNumber := by
    intro event hin
    cases hlost : H.fromLost block keep with
    | nil =>
      rw [hlost] at hin
      cases hin
    | cons lost rest =>
      have hcut := h last lost hlast (by rw [hlost]; rfl)
      have hordered : (H.upTo block).Pairwise fun a b => a.blockNumber ≤ b.blockNumber :=
        H.ordered.filter _
      rw [← beforeLost_append_fromLost block keep, List.pairwise_append, hlost] at hordered
      rw [hlost] at hin
      rcases List.mem_cons.1 hin with rfl | hin
      · exact hcut
      · have hle := (List.pairwise_cons.1 hordered.2.1).1 event hin
        omega
  have hsame : H.upTo last.blockNumber = (H.upTo block).filter (·.blockNumber ≤ last.blockNumber) := by
    unfold upTo
    rw [List.filter_filter]
    refine List.filter_congr fun event _ => ?_
    rw [← Bool.decide_and, decide_eq_decide]
    omega
  rw [hsame, ← beforeLost_append_fromLost block keep, List.filter_append,
    List.filter_eq_self.2 fun event hin => decide_eq_true (hfront event hin),
    List.filter_eq_nil_iff.2 fun event hin => by simpa using hback event hin, List.append_nil]

/-- Of the records that are left, those counted below the first lost one. -/
theorem filter_count_lt : ((H.upTo block).filter keep).filter
    (·.depositCount < (H.beforeLost block keep).length) = H.beforeLost block keep := by
  have hcounted := counted_upTo (H := H) block
  rw [← beforeLost_append_fromLost block keep, List.map_append, List.length_append,
    ← List.range'_append_1, Nat.zero_add] at hcounted
  obtain ⟨hfront, hback⟩ := List.append_inj hcounted (by simp)
  have hkeep : (H.beforeLost block keep).filter keep = H.beforeLost block keep :=
    List.filter_eq_self.2 fun event hin => List.mem_takeWhile_imp hin
  have hlow : (H.beforeLost block keep).filter
      (·.depositCount < (H.beforeLost block keep).length) = H.beforeLost block keep := by
    refine List.filter_eq_self.2 fun event hin => decide_eq_true ?_
    have hcount : event.depositCount ∈ (H.beforeLost block keep).map (·.depositCount) :=
      List.mem_map_of_mem hin
    rw [hfront, List.mem_range'_1] at hcount
    omega
  have hhigh : ((H.fromLost block keep).filter keep).filter
      (·.depositCount < (H.beforeLost block keep).length) = [] := by
    refine List.filter_eq_nil_iff.2 fun event hin => ?_
    have hcount : event.depositCount ∈ (H.fromLost block keep).map (·.depositCount) :=
      List.mem_map_of_mem (List.mem_filter.1 hin).1
    rw [hback, List.mem_range'_1] at hcount
    simp only [decide_eq_true_eq, not_lt]
    exact hcount.1
  rw [← beforeLost_append_fromLost block keep, List.filter_append, List.filter_append, hkeep,
    hlow, hhigh, List.append_nil]

end History

/-- Cached events that are the history up to the end of the header. -/
theorem resumes_of_data {store : DepositsRegistryStore}
    (h : store.cache.data = H.upTo (max store.cache.headers.endBlock D)) : Resumes C H store where
  complete event hevent hblock := by
    rw [h]
    exact History.mem_upTo.2 ⟨hevent, hblock.trans (le_max_left _ _)⟩
  next last hlast := by
    rw [h]
    exact History.upTo_append_between hlast
  update registry env F hash registry' hstore haligned henv hfinalized hle hrun := by
    refine Registry.UpTo.updateEventsCache henv hfinalized hle ⟨?_, haligned⟩ hrun
    rw [hstore, h, Registry.cachedHeaders, hstore]

variable {block : ℕ} {keep : VerifiedDepositEvent → Bool} {content : StoreContent}
  {store : DepositsRegistryStore}

/-- The header that the clean-up writes. -/
def cleanedHeaders (H : History D) (block : ℕ) (keep : VerifiedDepositEvent → Bool) :
    VerifiedDepositEventsCacheHeaders where
  startBlock := D
  endBlock := ((H.beforeLost block keep).getLast?.map (·.blockNumber)).getD 0

/-- It is refused when no deposit is left, on a network with a deployment block. -/
theorem cleanedHeaders_lt : (cleanedHeaders H block keep).endBlock < D ↔
    H.beforeLost block keep = [] ∧ D ≠ 0 := by
  unfold cleanedHeaders
  cases hlast : (H.beforeLost block keep).getLast? with
  | none =>
    simp [List.getLast?_eq_none_iff.1 hlast, Nat.pos_iff_ne_zero]
  | some last =>
    have hmem := List.mem_of_getLast? hlast
    have hdeployed := H.deployed last (History.mem_upTo.1 (History.mem_upTo_of_beforeLost hmem)).1
    simp only [Option.map_some, Option.getD_some, List.ne_nil_of_mem hmem, false_and, iff_false,
      not_lt]
    exact hdeployed.le

/-- **The clean-up** of a cache that has lost records. -/
theorem run_validateAndClean_lossy (h : Lossy H block keep content)
    (hstored : Stored store.db content) (hcache : store.cache = content.load) :
    (DepositsRegistryStore.validateAndCleanInconsistentCache .sound).run store =
      if H.beforeLost block keep = [] ∧ D ≠ 0 then .error "Deposit header is not valid" store
      else .ok () ((content.deleteFrom (H.beforeLost block keep).length
          (cleanedHeaders H block keep)).loaded
        (store.db.batch (content.deletionOps (H.beforeLost block keep).length
          (cleanedHeaders H block keep)))) := by
  have hload : content.load =
      { headers := { startBlock := D, endBlock := block }, data := content.data,
        lastValidEvent := content.lastValidEvent } := by
    unfold StoreContent.load
    rw [h.headers]
  have hcounted : countedFrom 0 store.cache.data = H.beforeLost block keep := by
    rw [hcache, hload, h.data]
    exact countedFrom_filter keep (History.counted_upTo block)
  have hlength : (H.beforeLost block keep).length < 2 ^ 32 :=
    lt_of_le_of_lt History.beforeLost_isPrefix.length_le H.length_lt
  have hstart : store.cache.headers.startBlock = D := by rw [hcache, hload]
  rw [DepositsRegistryStore.run_validateAndCleanInconsistentCache]
  simp only [hcounted, hstart]
  rw [DepositsRegistryStore.run_deleteDeposits hstored hlength]
  exact if_congr cleanedHeaders_lt rfl rfl

/-- The store after the clean-up. -/
theorem data_cleaned (h : Lossy H block keep content) : (content.deleteFrom
    (H.beforeLost block keep).length (cleanedHeaders H block keep)).load.data =
      H.beforeLost block keep := by
  show content.data.filter (·.depositCount < (H.beforeLost block keep).length) = _
  rw [h.data, History.filter_count_lt]

theorem CleanedAsResumePoint.cut (h : Lossy H block keep content)
    (hstored : Stored store.db content) (hcache : store.cache = content.load)
    (hcleaned : CleanedAsResumePoint C H block keep store) :
    H.CutBetweenBlocks block keep ∧ (H.beforeLost block keep = [] → D = 0) := by
  obtain ⟨store', hok, _, _, hresumes⟩ := hcleaned
  rw [run_validateAndClean_lossy h hstored hcache] at hok
  split_ifs at hok with hrefused
  obtain ⟨_, rfl⟩ := EStateM.Result.ok.inj hok
  refine ⟨fun last lost hlast hlost => ?_, fun hnil => ?_⟩
  · by_contra hle
    have hmem : lost ∈ H.fromLost block keep := List.mem_of_head? hlost
    have hevent : lost ∈ H.upTo block := by
      rw [← History.beforeLost_append_fromLost block keep]
      exact List.mem_append_right _ hmem
    have hblock : lost.blockNumber ≤ (cleanedHeaders H block keep).endBlock := by
      rw [cleanedHeaders, hlast]
      exact not_lt.1 hle
    have hin := hresumes.complete lost (History.mem_upTo.1 hevent).1 hblock
    have hcached : lost ∈ H.beforeLost block keep := by
      rw [← data_cleaned h]
      exact hin
    exact absurd (History.count_lt_of_fromLost hcached hmem) (lt_irrefl _)
  · by_contra hne
    exact hrefused ⟨hnil, hne⟩

theorem History.CutBetweenBlocks.cleaned (C : Crypto) (h : Lossy H block keep content)
    (hstored : Stored store.db content) (hcache : store.cache = content.load)
    (hcut : H.CutBetweenBlocks block keep) (hstart : H.beforeLost block keep = [] → D = 0) :
    CleanedAsResumePoint C H block keep store := by
  have hrun := run_validateAndClean_lossy h hstored hcache
  have hdata := data_cleaned h
  rw [if_neg fun hrefused => hrefused.2 (hstart hrefused.1)] at hrun
  refine ⟨_, hrun, hdata, ⟨_, hstored.deletionOps _ _, hdata, rfl⟩, resumes_of_data ?_⟩
  show _ = H.upTo (max (cleanedHeaders H block keep).endBlock D)
  refine hdata.trans ?_
  unfold cleanedHeaders
  cases hlast : (H.beforeLost block keep).getLast? with
  | none =>
    have hnil := List.getLast?_eq_none_iff.1 hlast
    rw [hnil, Option.map_none, Option.getD_none]
    exact (History.upTo_of_le (max_le (Nat.zero_le D) le_rfl)).symm
  | some last =>
    have hmem := List.mem_of_getLast? hlast
    have hdeployed := H.deployed last (History.mem_upTo.1 (History.mem_upTo_of_beforeLost hmem)).1
    rw [Option.map_some, Option.getD_some, max_eq_left hdeployed.le, hcut.upTo_eq hlast]

/-- **The resume point.** The clean-up leaves one exactly when the cut falls between two blocks, and a
deposit is left or the network has no deployment block. -/
theorem cleaned_resumes_iff (C : Crypto) (h : Lossy H block keep content)
    (hstored : Stored store.db content) (hcache : store.cache = content.load) :
    CleanedAsResumePoint C H block keep store ↔
      H.CutBetweenBlocks block keep ∧ (H.beforeLost block keep = [] → D = 0) := by
  constructor
  · intro hcleaned
    exact hcleaned.cut h hstored hcache
  · rintro ⟨hcut, hstart⟩
    exact hcut.cleaned C h hstored hcache hstart

/-- Three deposits in two blocks. -/
def twoBlocks : History 0 where
  events := [Registry.sampleEvent 0, Registry.sampleEvent 1,
    { Registry.sampleEvent 2 with blockNumber := 2 }]
  counted := rfl
  deployed := by simp [Registry.sampleEvent]
  ordered := by simp [Registry.sampleEvent]
  length_lt := by simp

/-- All records but the one of `depositCount`. -/
def without (depositCount : ℕ) (event : VerifiedDepositEvent) : Bool :=
  event.depositCount ≠ depositCount

theorem count_without_lt (lost : ℕ) :
    ∀ event ∈ twoBlocks.events.filter (without lost), event.depositCount < 2 ^ 32 :=
  fun _ hevent => by
    have hlt := twoBlocks.succ_count_lt (List.mem_filter.1 hevent).1
    omega

def contentWithout (lost : ℕ) : StoreContent :=
  (StoreContent.empty.putAll (twoBlocks.events.filter (without lost)) (count_without_lt lost)).putHeaders
    { startBlock := 0, endBlock := 2 }

def storeWithout (lost : ℕ) : DepositsRegistryStore :=
  (contentWithout lost).loaded (OrderedStore.empty.batch (StoreContent.insertionOps
    (twoBlocks.events.filter (without lost)) { startBlock := 0, endBlock := 2 }))

theorem stored_without (lost : ℕ) : Stored (storeWithout lost).db (contentWithout lost) :=
  Stored.empty.insertionOps (count_without_lt lost) _

theorem lossy_without (lost : ℕ) : Lossy twoBlocks 2 (without lost) (contentWithout lost) where
  headers := rfl
  data := by
    show (StoreContent.empty.putAll _ (count_without_lt lost)).data = _
    rw [StoreContent.data_putAll_of_lt _ (History.sorted_events.filter _) (by simp [StoreContent.empty])]
    rfl

theorem cleaned_resumes_iff_two : CleanedAsResumePoint .framed twoBlocks 2 (without 2) (storeWithout 2) ↔
    twoBlocks.CutBetweenBlocks 2 (without 2) ∧
      (twoBlocks.beforeLost 2 (without 2) = [] → 0 = 0) :=
  cleaned_resumes_iff .framed (lossy_without 2) (stored_without 2) rfl

/-- The record of deposit 1 is lost, which shares its block with deposit 0: the header ends at that
block, and deposit 1 is not fetched again. -/
theorem not_resumed_within_block :
    Lossy twoBlocks 2 (without 1) (contentWithout 1) ∧ without 1 (Registry.sampleEvent 0) = true ∧
    Stored (storeWithout 1).db (contentWithout 1) ∧
    (storeWithout 1).cache = (contentWithout 1).load ∧
    ¬ CleanedAsResumePoint .framed twoBlocks 2 (without 1) (storeWithout 1) := by
  refine ⟨lossy_without 1, rfl, stored_without 1, rfl, fun hcleaned => ?_⟩
  obtain ⟨hcut, _⟩ := hcleaned.cut (lossy_without 1) (stored_without 1) rfl
  exact absurd (hcut (Registry.sampleEvent 0) (Registry.sampleEvent 1) rfl rfl) (lt_irrefl _)

end CouncilDaemon
