import CouncilDaemon.Deposits.FreshEvents
import CouncilDaemon.Deposits.History
import CouncilDaemon.Utils.FetchEvents

/-!
# Updates with an honest node

The node gives the complete events of a `History`, in any order, or fails. Then the stored deposits are
those of the history up to the block where the header ends (`Synced`), wherever an update stops. The
running registry has them in memory too. Its tree holds them (`Live`), unless the store refused a chunk
that the tree had taken: then the tree refuses the next deposit, and there is one that is finalized
(`Stalled`). From there no update returns until the process is started anew
(`run_updateEventsCache_stalled`).
-/

namespace CouncilDaemon

theorem depositEventsStep_pos (chainId : ℕ) : 0 < depositEventsStep chainId := by
  unfold depositEventsStep
  split <;> norm_num

/-! ## The node -/

/-- The node answers with the complete events of the history up to its finalized block `F`. -/
structure Honest {D : ℕ} (H : History D) (F : ℕ) (env : Env) : Prop where
  deployed : deploymentBlockNetwork env.chainId = some D
  finalized : ∀ number hash, env.finalizedBlock = .ok (number, hash) → number = F
  complete : ∀ first last events, last ≤ F →
    env.fetchEventsFallOver first last = .ok events → events.Perm (H.between first last)

/-- A range fetched by parts, from a provider that answers each part in full or fails, is complete. -/
theorem complete_fetchEventsFallOver {ε : Type} {D : ℕ} {H : History D}
    {allProvidersFailed : ε → Bool} {fetcher : List EventsRange.RangeTask →
      (startBlock endBlock : ℤ) → Except ε (EventsRange.FetchedEvents VerifiedDepositEvent)}
    (hfetcher : EventsRange.Exact fetcher (fun event => (event.blockNumber : ℤ)) H.events)
    (first last : ℕ) {fetched : EventsRange.FetchedEvents VerifiedDepositEvent}
    (h : (EventsRange.fetchEventsFallOver allProvidersFailed fetcher first last).settled =
      .ok fetched) : fetched.events.Perm (H.between first last) := by
  have hevents := (EventsRange.fetchEventsFallOver_ok hfetcher h).2.2
  refine hevents.perm.trans (List.Perm.of_eq (List.filter_congr fun event _ => ?_))
  rw [decide_eq_decide]
  omega

/-! ## The invariant -/

namespace StoreContent

/-- The block where the header ends, zero without a header. -/
def endBlock (content : StoreContent) : ℕ := (content.headers.map (·.endBlock)).getD 0

/-- The block where the header starts, zero without a header. -/
def startBlock (content : StoreContent) : ℕ := (content.headers.map (·.startBlock)).getD 0

end StoreContent

/-- The stored deposits are those of the history up to the block where the header ends, which is not
past `F`. -/
structure Synced {D : ℕ} (H : History D) (F : ℕ) (content : StoreContent) : Prop where
  data : content.data = H.upTo (max content.endBlock D)
  startBlock : content.startBlock = D ∨ content.startBlock = 0 ∧ content.data = []
  endBlock : content.endBlock ≤ F
  lastValidEvent : ∀ event, content.lastValidEvent = some event →
    event ∈ content.data ∧ H.LastOfBlock event

/-- The running registry has `content` in the database and in memory. -/
structure Loaded (content : StoreContent) (registry : Registry) : Prop where
  stored : Stored registry.store.db content
  data : registry.store.cache.data = content.data
  startBlock : registry.store.cache.headers.startBlock = content.startBlock
  endBlock : registry.store.cache.headers.endBlock = content.endBlock

/-- The tree holds the deposits that are loaded. -/
structure Live (C : Crypto) (content : StoreContent) (registry : Registry) : Prop extends
    Loaded content registry where
  aligned : Registry.Aligned C registry

/-- The tree is ahead of the deposits that are loaded, and the next one is finalized at `F`. -/
structure Stalled {D : ℕ} (H : History D) (F : ℕ) (content : StoreContent) (registry : Registry) :
    Prop extends Loaded content registry where
  ahead : registry.finalizedTree.nodeCount ≠ content.data.length
  due : ∃ event ∈ H.events, max content.endBlock D < event.blockNumber ∧ event.blockNumber ≤ F

/-- A registry that runs. -/
def Running (C : Crypto) {D : ℕ} (H : History D) (F : ℕ) (content : StoreContent)
    (registry : Registry) : Prop :=
  Live C content registry ∨ Stalled H F content registry

variable {C : Crypto} {D : ℕ} {H : History D} {F F' : ℕ} {env : Env} {content : StoreContent}
  {registry : Registry}

theorem Synced.mono (h : Synced H F content) (hF : F ≤ F') : Synced H F' content :=
  ⟨h.data, h.startBlock, h.endBlock.trans hF, h.lastValidEvent⟩

theorem Stalled.mono (h : Stalled H F content registry) (hF : F ≤ F') :
    Stalled H F' content registry := by
  obtain ⟨event, hmem, hlt, hle⟩ := h.due
  exact ⟨h.toLoaded, h.ahead, event, hmem, hlt, hle.trans hF⟩

theorem Running.loaded (h : Running C H F content registry) : Loaded content registry := by
  rcases h with h | h
  · exact h.toLoaded
  · exact h.toLoaded

theorem Stalled.not_aligned (h : Stalled H F content registry) : ¬ Registry.Aligned C registry :=
  Registry.not_aligned_of_nodeCount (h.data ▸ h.ahead)

/-- A running registry that is not aligned is stalled. -/
theorem Running.stalled (h : Running C H F content registry)
    (hnot : ¬ Registry.Aligned C registry) : Stalled H F content registry :=
  h.resolve_left fun hlive => hnot hlive.aligned

theorem Running.live (h : Running C H F content registry) (haligned : Registry.Aligned C registry) :
    Live C content registry :=
  h.resolve_right fun hstalled => hstalled.not_aligned haligned

theorem synced_empty : Synced H 0 StoreContent.empty where
  data := (History.upTo_of_le (by simp [StoreContent.empty, StoreContent.endBlock])).symm
  startBlock := Or.inr ⟨rfl, rfl⟩
  endBlock := le_refl _
  lastValidEvent := by simp [StoreContent.empty]

theorem Synced.mem_events (h : Synced H F content) {e : VerifiedDepositEvent}
    (he : e ∈ content.data) : e ∈ H.events := by
  rw [h.data] at he
  exact (History.mem_upTo.1 he).1

/-- The header that an update starts from. -/
theorem Loaded.cachedHeaders_eq (h : Loaded content registry) (hsynced : Synced H F content) :
    (Registry.cachedHeaders registry D).endBlock = max content.endBlock D ∧
      (Registry.cachedHeaders registry D).startBlock = D := by
  simp only [Registry.cachedHeaders, h.endBlock, h.startBlock, true_and]
  rcases hsynced.startBlock with h | ⟨h, _⟩ <;> omega

/-! ## One chunk of the loop -/

namespace Registry

/-- A chunk behind the loaded deposits, as it is sorted. -/
theorem sort_chunk (henv : Honest H F env) (hloaded : Loaded content registry)
    (hsynced : Synced H F content) {last : ℕ} (hfirst : max content.endBlock D + 1 ≤ last)
    (hlast : last ≤ F) {events : List VerifiedDepositEvent}
    (hfetch : env.fetchEventsFallOver (max content.endBlock D + 1) last = .ok events) :
    sortEventsByDepositCount events = H.between (max content.endBlock D + 1) last ∧
      Continues registry.store.cache.data.length (sortEventsByDepositCount events) := by
  have hsort := History.sort_between (henv.complete _ _ _ hlast hfetch)
  refine ⟨hsort, ?_⟩
  rw [hsort, hloaded.data, hsynced.data]
  exact History.continues_between (by omega)

/-- A chunk that is stored takes the content on to its last block. -/
theorem synced_insertion (hsynced : Synced H F content) {headers : VerifiedDepositEventsCacheHeaders}
    (hstart : headers.startBlock = D) {last : ℕ} (hfirst : max content.endBlock D + 1 ≤ last)
    (hlast : last ≤ F) {chunk : List VerifiedDepositEvent}
    (hchunk : chunk = H.between (max content.endBlock D + 1) last)
    (hlt : ∀ e ∈ chunk, e.depositCount < 2 ^ 32) :
    (content.putAll chunk hlt).data = H.upTo last ∧
      Synced H F ((content.putAll chunk hlt).putHeaders { headers with endBlock := last }) := by
  subst hchunk
  have hmem : ∀ {e}, e ∈ H.between (max content.endBlock D + 1) last → e ∈ H.events :=
    fun he => (List.mem_filter.1 he).1
  have hdata : (content.putAll _ hlt).data = H.upTo last := by
    rw [← History.upTo_append_between (show max content.endBlock D ≤ last by omega), ← hsynced.data]
    refine StoreContent.data_putAll_of_lt _ (History.sorted_events.filter _) fun e he e' he' => ?_
    by_contra hle
    rw [hsynced.data] at he
    have h1 := (History.mem_upTo.1 he).2
    have h2 := History.blockNumber_le (hmem he') (History.mem_upTo.1 he).1 (not_lt.1 hle)
    have h3 : max content.endBlock D + 1 ≤ e'.blockNumber := by
      have := (List.mem_filter.1 he').2
      simp only [decide_eq_true_eq] at this
      exact this.1
    omega
  refine ⟨hdata, ?_, Or.inl hstart, hlast, fun event hevent => ?_⟩
  · show (content.putAll _ hlt).data = H.upTo (max last D)
    rw [hdata, max_eq_left (by omega)]
  · have hold : content.lastValidEvent = some event := by
      rw [← hevent]
      exact (StoreContent.lastValidEvent_putAll hlt).symm
    obtain ⟨hin, hlastOf⟩ := hsynced.lastValidEvent event hold
    refine ⟨?_, hlastOf⟩
    show event ∈ (content.putAll _ hlt).data
    rw [hdata]
    rw [hsynced.data] at hin
    obtain ⟨h1, h2⟩ := History.mem_upTo.1 hin
    exact History.mem_upTo.2 ⟨h1, by omega⟩

/-- **One chunk.** Either the chunk is in the tree, in the database and in memory, or the registry goes
on with the content that it has. -/
theorem run_updateChunk_honest (henv : Honest H F env)
    {headers : VerifiedDepositEventsCacheHeaders} (hstart : headers.startBlock = D)
    (hlive : Live C content registry) (hsynced : Synced H F content) {last : ℕ}
    (hfirst : max content.endBlock D + 1 ≤ last) (hlast : last ≤ F) :
    (∃ registry' content',
        (updateChunk C env headers (max content.endBlock D + 1) last).run registry =
          .ok (H.between (max content.endBlock D + 1) last) registry' ∧
        Live C content' registry' ∧ Synced H F content' ∧ content'.endBlock = last) ∨
      ∃ e registry', (updateChunk C env headers (max content.endBlock D + 1) last).run registry =
          .error e registry' ∧ Running C H F content registry' := by
  cases hfetch : env.fetchEventsFallOver (max content.endBlock D + 1) last with
  | error e => exact Or.inr ⟨e, registry, run_updateChunk_error hfetch, Or.inl hlive⟩
  | ok events =>
    obtain ⟨hsort, hcont⟩ := sort_chunk henv hlive.toLoaded hsynced hfirst hlast hfetch
    by_cases hwrite : Written env.disk (sortEventsByDepositCount events)
        { headers with endBlock := last }
    · left
      obtain ⟨registry', hrun, haligned, hcache, hdb⟩ :=
        run_updateChunk_written hlive.aligned hfetch hcont hwrite
      rw [hsort] at hrun hcache hdb hwrite
      obtain ⟨hdata, hsynced'⟩ := synced_insertion hsynced hstart hfirst hlast rfl hwrite.1
      refine ⟨registry', _, hrun, ⟨⟨?_, ?_, ?_, ?_⟩, haligned⟩, hsynced', rfl⟩
      · rw [hdb]
        exact hlive.stored.insertionOps hwrite.1 _
      · show _ = (content.putAll _ hwrite.1).data
        rw [hcache, hdata, hlive.data, hsynced.data]
        exact History.upTo_append_between (by omega)
      · rw [hcache]; rfl
      · rw [hcache]; rfl
    · right
      obtain ⟨e, registry', hrun, haligned, hcount, hcache, hdb⟩ :=
        run_updateChunk_unwritten hlive.aligned hfetch hcont hwrite
      have hloaded : Loaded content registry' := by
        refine ⟨?_, ?_, ?_, ?_⟩
        · rw [hdb]
          exact hlive.stored
        · rw [hcache]
          exact hlive.data
        · rw [hcache]
          exact hlive.startBlock
        · rw [hcache]
          exact hlive.endBlock
      refine ⟨e, registry', hrun, ?_⟩
      cases hevents : sortEventsByDepositCount events with
      | nil => exact Or.inl ⟨hloaded, haligned.2 hevents⟩
      | cons event rest =>
        -- the events are in the tree, and not in the store
        right
        have hmem : event ∈ H.between (max content.endBlock D + 1) last := by
          rw [← hsort, hevents]
          exact List.mem_cons_self
        obtain ⟨hevent, hblock⟩ := List.mem_filter.1 hmem
        simp only [decide_eq_true_eq] at hblock
        refine ⟨hloaded, ?_, event, hevent, by omega, by omega⟩
        rw [hcount, hevents, hlive.data, List.length_cons]
        omega

/-- A chunk for a stalled registry: it is refused, or it has no deposits. -/
theorem run_updateChunk_stalled (henv : Honest H F env)
    {headers : VerifiedDepositEventsCacheHeaders} (hstart : headers.startBlock = D)
    (hstalled : Stalled H F content registry) (hsynced : Synced H F content) {last : ℕ}
    (hfirst : max content.endBlock D + 1 ≤ last) (hlast : last ≤ F) :
    (∃ registry' content',
        (updateChunk C env headers (max content.endBlock D + 1) last).run registry =
          .ok [] registry' ∧
        Stalled H F content' registry' ∧ Synced H F content' ∧ content'.endBlock = last) ∨
      ∃ e registry', (updateChunk C env headers (max content.endBlock D + 1) last).run registry =
          .error e registry' ∧ Stalled H F content registry' := by
  cases hfetch : env.fetchEventsFallOver (max content.endBlock D + 1) last with
  | error e => exact Or.inr ⟨e, registry, run_updateChunk_error hfetch, hstalled⟩
  | ok events =>
    obtain ⟨hsort, hcont⟩ := sort_chunk henv hstalled.toLoaded hsynced hfirst hlast hfetch
    cases hevents : sortEventsByDepositCount events with
    | cons event rest =>
      right
      rw [hevents] at hcont
      refine ⟨_, registry, run_updateChunk_refused headers hfetch ?_, hstalled⟩
      rw [hevents]
      exact ⟨event, rfl, hcont.head_eq.trans_ne (hstalled.data ▸ hstalled.ahead.symm)⟩
    | nil =>
      have hnone : H.between (max content.endBlock D + 1) last = [] := hsort ▸ hevents
      have hlt : ∀ e ∈ ([] : List VerifiedDepositEvent), e.depositCount < 2 ^ 32 := by simp
      have hchunk : (updateChunk C env headers (max content.endBlock D + 1) last).run registry =
          (onStore (DepositsRegistryStore.insertEventsCacheBatch env.disk []
            { headers with endBlock := last }) >>= fun _ => pure []).run registry := by
        rw [run_updateChunk hfetch, hevents]
        rfl
      rw [hchunk, EStateM.run_bind, run_onStore,
        DepositsRegistryStore.run_insertEventsCacheBatch registry.store env.disk hlt]
      cases env.disk.write (StoreContent.insertionOps [] { headers with endBlock := last }) with
      | error e =>
        exact Or.inr ⟨e, _, rfl, ⟨hstalled.stored, hstalled.data, hstalled.startBlock,
          hstalled.endBlock⟩, hstalled.ahead, hstalled.due⟩
      | ok _ =>
        left
        have hsynced' : Synced H F (content.putHeaders { headers with endBlock := last }) :=
          (synced_insertion hsynced hstart hfirst hlast hnone.symm hlt).2
        refine ⟨_, content.putHeaders { headers with endBlock := last }, rfl,
          ⟨⟨hstalled.stored.insertionOps hlt _, ?_, rfl, rfl⟩, hstalled.ahead, ?_⟩, hsynced', rfl⟩
        · show registry.store.cache.data ++ [] = content.data
          rw [List.append_nil, hstalled.data]
        · -- the deposit that is due is behind the chunk
          obtain ⟨event, hmem, hlater, hle⟩ := hstalled.due
          refine ⟨event, hmem, ?_, hle⟩
          show max last D < event.blockNumber
          by_contra hwithin
          have hin : event ∈ H.between (max content.endBlock D + 1) last := by
            refine List.mem_filter.2 ⟨hmem, ?_⟩
            simp only [decide_eq_true_eq]
            omega
          rw [hnone] at hin
          cases hin

/-- The last indexed event is stored, and is the last of its block. -/
def Indexed (H : History D) (content : StoreContent) (lastIndexedEvent : Option VerifiedDepositEvent) :
    Prop :=
  ∀ event, lastIndexedEvent = some event → event ∈ content.data ∧ H.LastOfBlock event

/-- The last event of a chunk is the last event up to its last block. -/
theorem indexed_between {first last : ℕ} {event : VerifiedDepositEvent} (hfirst : first ≤ last)
    (h : (H.between (first + 1) last).getLast? = some event) :
    event ∈ H.upTo last ∧ H.LastOfBlock event := by
  have hupTo : (H.upTo last).getLast? = some event := by
    rw [← History.upTo_append_between hfirst, List.getLast?_append, h]
    rfl
  exact ⟨List.mem_of_getLast? hupTo, History.lastOfBlock_of_getLast? hupTo⟩

/-! ## The loop -/

/-- **The loop.** When it ends, the tree, the database and the memory hold the history up to the
finalized block; wherever it stops before, the registry goes on with what it has up to some block. -/
theorem run_updateChunks_honest (henv : Honest H F env)
    {headers : VerifiedDepositEventsCacheHeaders} (hstart : headers.startBlock = D)
    {step : ℕ} (hstep : 0 < step) : ∀ (n : ℕ) {registry : Registry} {content : StoreContent}
      {lastIndexedEvent : Option VerifiedDepositEvent},
      F - max content.endBlock D ≤ n → max content.endBlock D ≤ F → Live C content registry →
      Synced H F content → Indexed H content lastIndexedEvent →
      (∃ event registry' content', (updateChunks C env headers
            (chunks (max content.endBlock D + 1) F step) lastIndexedEvent).run registry =
          .ok event registry' ∧ Live C content' registry' ∧ Synced H F content' ∧
        Indexed H content' event ∧ content'.data = H.upTo F ∧
        (content.endBlock = F ∨ max content.endBlock D < F → content'.endBlock = F)) ∨
      ∃ e registry' content', (updateChunks C env headers
            (chunks (max content.endBlock D + 1) F step) lastIndexedEvent).run registry =
          .error e registry' ∧ Running C H F content' registry' ∧ Synced H F content' := by
  intro n
  induction n with
  | zero =>
    intro registry content lastIndexedEvent hn hE hlive hsynced hindexed
    have heq : max content.endBlock D = F := by omega
    rw [chunks_of_lt step hstep (by omega)]
    refine Or.inl ⟨lastIndexedEvent, registry, content, rfl, hlive, hsynced, hindexed, ?_, ?_⟩
    · rw [hsynced.data, heq]
    · omega
  | succ n ih =>
    intro registry content lastIndexedEvent hn hE hlive hsynced hindexed
    by_cases heq : max content.endBlock D = F
    · rw [chunks_of_lt step hstep (by omega)]
      refine Or.inl ⟨lastIndexedEvent, registry, content, rfl, hlive, hsynced, hindexed, ?_, ?_⟩
      · rw [hsynced.data, heq]
      · omega
    · have hlt : max content.endBlock D < F := lt_of_le_of_ne hE heq
      rw [chunks_of_le step hstep (by omega)]
      let last := min F (max content.endBlock D + 1 + step - 1)
      have hlast : last ≤ F := min_le_left _ _
      have hfirst : max content.endBlock D + 1 ≤ last := by simp only [last]; omega
      rw [updateChunks]
      rcases run_updateChunk_honest henv hstart hlive hsynced hfirst hlast with
        ⟨registry₁, content₁, hrun, hlive₁, hsynced₁, hend₁⟩ | ⟨e, registry₁, hrun, hrunning⟩
      · have hmax : max content₁.endBlock D = last := by omega
        have hdata₁ : content₁.data = H.upTo last := by rw [hsynced₁.data, hmax]
        have hindexed₁ : Indexed H content₁
            ((H.between (max content.endBlock D + 1) last).getLast?.or lastIndexedEvent) := by
          intro event hevent
          rw [hdata₁]
          cases hgroup : (H.between (max content.endBlock D + 1) last).getLast? with
          | some event' =>
            rw [hgroup] at hevent
            obtain rfl := Option.some.inj hevent
            exact indexed_between (by omega) hgroup
          | none =>
            rw [hgroup] at hevent
            obtain ⟨hin, hlastOf⟩ := hindexed event hevent
            rw [hsynced.data] at hin
            obtain ⟨h1, h2⟩ := History.mem_upTo.1 hin
            exact ⟨History.mem_upTo.2 ⟨h1, by omega⟩, hlastOf⟩
        have hrest := ih (by omega) (by omega) hlive₁ hsynced₁ hindexed₁
        rw [hmax, hend₁] at hrest
        rw [Service.run_bind_ok hrun]
        rcases hrest with ⟨event, registry', content', hloop, hlive', hsynced', hindexed', hdata', hend'⟩
          | hthrow
        · refine Or.inl ⟨event, registry', content', hloop, hlive', hsynced', hindexed', hdata', ?_⟩
          intro _
          exact hend' (by omega)
        · exact Or.inr hthrow
      · rw [Service.run_bind_error hrun]
        exact Or.inr ⟨e, registry₁, content, rfl, hrunning, hsynced⟩

/-- The loop of a stalled registry throws: at the deposit that is due, or before. -/
theorem run_updateChunks_stalled (henv : Honest H F env)
    {headers : VerifiedDepositEventsCacheHeaders} (hstart : headers.startBlock = D)
    {step : ℕ} (hstep : 0 < step) : ∀ (n : ℕ) {registry : Registry} {content : StoreContent}
      (lastIndexedEvent : Option VerifiedDepositEvent),
      F - max content.endBlock D ≤ n → Stalled H F content registry → Synced H F content →
      ∃ e registry' content', (updateChunks C env headers
            (chunks (max content.endBlock D + 1) F step) lastIndexedEvent).run registry =
          .error e registry' ∧ Stalled H F content' registry' ∧ Synced H F content' := by
  intro n
  induction n with
  | zero =>
    intro registry content lastIndexedEvent hn hstalled _
    obtain ⟨event, _, hlater, hle⟩ := hstalled.due
    omega
  | succ n ih =>
    intro registry content lastIndexedEvent hn hstalled hsynced
    obtain ⟨event, _, hlater, hle⟩ := hstalled.due
    rw [chunks_of_le step hstep (by omega), updateChunks]
    let last := min F (max content.endBlock D + 1 + step - 1)
    have hlast : last ≤ F := min_le_left _ _
    have hfirst : max content.endBlock D + 1 ≤ last := by simp only [last]; omega
    rcases run_updateChunk_stalled (C := C) henv hstart hstalled hsynced hfirst hlast with
      ⟨registry₁, content₁, hrun, hstalled₁, hsynced₁, hend₁⟩ | ⟨e, registry₁, hrun, hstalled₁⟩
    · have hmax : max content₁.endBlock D = last := by omega
      have hrest := ih lastIndexedEvent (by omega) hstalled₁ hsynced₁
      rw [hmax] at hrest
      rw [Service.run_bind_ok hrun]
      exact hrest
    · rw [Service.run_bind_error hrun]
      exact ⟨e, registry₁, content, rfl, hstalled₁, hsynced⟩

end Registry

/-! ## Cutting the content back -/

/-- **Cutting back.** The content cut after an event that is the last of its block is synchronized up
to that block; cut to nothing it is synchronized up to the deployment. -/
theorem Synced.deleteFrom (h : Synced H F content) {last : Option VerifiedDepositEvent}
    (hlast : Registry.Indexed H content last) :
    Synced H F (content.deleteFrom (last.elim 0 (·.depositCount + 1)) {
      startBlock := content.startBlock
      endBlock := (last.map (·.blockNumber)).getD 0 }) := by
  have hvalid : ∀ event, (content.deleteFrom (last.elim 0 (·.depositCount + 1)) {
      startBlock := content.startBlock
      endBlock := (last.map (·.blockNumber)).getD 0 }).lastValidEvent = some event →
      event ∈ content.data.filter (·.depositCount < last.elim 0 (·.depositCount + 1)) ∧
        H.LastOfBlock event := by
    intro event hevent
    simp only [StoreContent.deleteFrom] at hevent
    split_ifs at hevent with hdel
    obtain ⟨hin, hlastOf⟩ := h.lastValidEvent event hevent
    refine ⟨List.mem_filter.2 ⟨hin, ?_⟩, hlastOf⟩
    by_contra hcount
    exact hdel ⟨event, hin, by simpa using hcount⟩
  cases last with
  | none =>
    have hdata : content.data.filter (·.depositCount < 0) = [] :=
      List.filter_eq_nil_iff.2 fun e _ => by simp
    refine ⟨?_, ?_, Nat.zero_le F, hvalid⟩
    · show content.data.filter (·.depositCount < 0) = H.upTo (max 0 D)
      rw [hdata, History.upTo_of_le (by omega)]
    · rcases h.startBlock with hstart | ⟨hstart, _⟩
      · exact Or.inl hstart
      · exact Or.inr ⟨hstart, hdata⟩
  | some event =>
    obtain ⟨hin, hlastOf⟩ := hlast event rfl
    have hupTo := hin
    rw [h.data] at hupTo
    have hblock := (History.mem_upTo.1 hupTo).2
    have hdeployed := H.deployed event hlastOf.1
    refine ⟨?_, ?_, ?_, hvalid⟩
    · show content.data.filter (·.depositCount < event.depositCount + 1) =
        H.upTo (max event.blockNumber D)
      rw [h.data, hlastOf.filter_upTo hblock, max_eq_left hdeployed.le]
    · rcases h.startBlock with hstart | ⟨_, hnil⟩
      · exact Or.inl hstart
      · rw [hnil] at hin; cases hin
    · show event.blockNumber ≤ F
      have := h.endBlock
      omega

/-! ## The end of an update -/

namespace Registry

/-- The end of an update returns, throws, or exits the process with the database cut back. -/
theorem run_finishUpdate_honest (env : Env) {lastIndexedEvent : Option VerifiedDepositEvent}
    (hash : String)
    (hlive : Live C content registry) (hsynced : Synced H F content)
    (hindexed : Indexed H content lastIndexedEvent) :
    (∃ registry' content', (finishUpdate C env hash lastIndexedEvent).run registry =
        .ok .returned registry' ∧ Live C content' registry' ∧ Synced H F content' ∧
      content'.data = content.data ∧ content'.endBlock = content.endBlock) ∨
    (∃ e, (finishUpdate C env hash lastIndexedEvent).run registry = .error e registry) ∨
    ∃ registry' content', (finishUpdate C env hash lastIndexedEvent).run registry =
        .ok .exited registry' ∧ Stored registry'.store.db content' ∧ Synced H F content' := by
  rw [finishUpdate, EStateM.run_bind, run_checkFinalizedRoot]
  cases checkRoot C env hash registry.finalizedTree with
  | error e => exact Or.inr (Or.inl ⟨e, rfl⟩)
  | ok isRootValid =>
    cases isRootValid with
    | true =>
      cases lastIndexedEvent with
      | none => exact Or.inl ⟨registry, content, rfl, hlive, hsynced, rfl, rfl⟩
      | some event =>
        simp only [Service.run_call_ok, if_true, EStateM.run_bind, run_onStore,
          DepositsRegistryStore.run_insertLastValidEvent]
        cases env.disk.write [.put "last-valid-event" (depositEventRecord event)] with
        | error e => exact Or.inr (Or.inl ⟨e, rfl⟩)
        | ok _ =>
          refine Or.inl ⟨_, content.putLastValidEvent event, rfl, ⟨?_, ?_⟩, ?_, rfl, rfl⟩
          · exact ⟨hlive.stored.putLastValidEvent event, hlive.data, hlive.startBlock,
              hlive.endBlock⟩
          · exact ⟨hlive.aligned.holds, hlive.aligned.counted⟩
          · exact ⟨hsynced.data, hsynced.startBlock, hsynced.endBlock, hindexed⟩
    | false =>
      have hkey : content.lastValidEvent.elim 0 (·.depositCount + 1) < 2 ^ 32 := by
        cases hlast : content.lastValidEvent with
        | none => simp
        | some event => exact History.succ_count_lt (hsynced.lastValidEvent event hlast).2.1
      have hvalid : Indexed H content content.lastValidEvent := hsynced.lastValidEvent
      have hcut := hsynced.deleteFrom hvalid
      simp only [Service.run_call_ok, Bool.false_eq_true, if_false, EStateM.run_bind, run_onStore,
        DepositsRegistryStore.run_clearFromLastValidEvent hlive.stored, hlive.startBlock]
      right
      split_ifs with hheader
      · exact Or.inl ⟨_, rfl⟩
      · rw [DepositsRegistryStore.run_deleteDeposits hlive.stored hkey]
        cases env.disk.write _ with
        | error e => exact Or.inl ⟨e, rfl⟩
        | ok _ => exact Or.inr ⟨_, _, rfl, hlive.stored.deletionOps _ _, hcut⟩

/-! ## One update -/

/-- **One update** of a live registry. When it returns, the cached events are the history up to the
finalized block, and the header ends there if it did not end later; when it throws, the registry runs
on; and when it exits, the database is synchronized up to some block. -/
theorem run_updateEventsCache_honest (henv : Honest H F env) (hlive : Live C content registry)
    (hsynced : Synced H F content) :
    (∃ registry' content', (updateEventsCache C env).run registry = .ok .returned registry' ∧
        Live C content' registry' ∧ Synced H F content' ∧
        ((∃ hash, env.finalizedBlock = .ok (F, hash)) →
          content'.data = H.upTo F ∧ (max content.endBlock D < F → content'.endBlock = F))) ∨
    (∃ e registry' content', (updateEventsCache C env).run registry = .error e registry' ∧
        Running C H F content' registry' ∧ Synced H F content') ∨
    ∃ registry' content', (updateEventsCache C env).run registry = .ok .exited registry' ∧
        Stored registry'.store.db content' ∧ Synced H F content' := by
  cases hfinalized : env.finalizedBlock with
  | error e =>
    have hrun : (updateEventsCache C env).run registry = .error e registry := by
      simp [updateEventsCache, hfinalized]
    exact Or.inr (Or.inl ⟨e, registry, content, hrun, Or.inl hlive, hsynced⟩)
  | ok block =>
    obtain ⟨number, hash⟩ := block
    obtain rfl := henv.finalized number hash hfinalized
    obtain ⟨hE, hstart⟩ := hlive.cachedHeaders_eq hsynced
    rw [run_updateEventsCache hfinalized henv.deployed, hE]
    split_ifs with hage
    · -- the finalized block is not past the deployment yet
      refine Or.inl ⟨registry, content, rfl, hlive, hsynced, fun _ => ⟨?_, by omega⟩⟩
      have := hsynced.endBlock
      rw [hsynced.data, History.upTo_of_le (by omega), History.upTo_of_le (by omega)]
    · have hnone : Indexed H content none := by simp [Indexed]
      rcases run_updateChunks_honest henv hstart (depositEventsStep_pos env.chainId) _ (le_refl _)
        (not_lt.1 hage) hlive hsynced hnone with
        ⟨event, registry₁, content₁, hloop, hlive₁, hsynced₁, hindexed₁, hdata₁, hend₁⟩ |
        ⟨e, registry₁, content₁, hloop, hrunning₁, hsynced₁⟩
      · rw [Service.run_bind_ok hloop]
        rcases run_finishUpdate_honest env hash hlive₁ hsynced₁ hindexed₁ with
          ⟨registry₂, content₂, hfinish, hlive₂, hsynced₂, hdata₂, hend₂⟩ | ⟨e, hfinish⟩ | hexit
        · refine Or.inl ⟨registry₂, content₂, hfinish, hlive₂, hsynced₂, fun _ => ⟨?_, fun hlt => ?_⟩⟩
          · rw [hdata₂, hdata₁]
          · rw [hend₂, hend₁ (Or.inr hlt)]
        · exact Or.inr (Or.inl ⟨e, registry₁, content₁, hfinish, Or.inl hlive₁, hsynced₁⟩)
        · exact Or.inr (Or.inr hexit)
      · rw [Service.run_bind_error hloop]
        exact Or.inr (Or.inl ⟨e, registry₁, content₁, rfl, hrunning₁, hsynced₁⟩)

/-- **One update** of a stalled registry throws, and leaves it stalled. -/
theorem run_updateEventsCache_stalled (henv : Honest H F env)
    (hstalled : Stalled H F content registry) (hsynced : Synced H F content) :
    ∃ e registry' content', (updateEventsCache C env).run registry = .error e registry' ∧
      Stalled H F content' registry' ∧ Synced H F content' := by
  cases hfinalized : env.finalizedBlock with
  | error e =>
    have hrun : (updateEventsCache C env).run registry = .error e registry := by
      simp [updateEventsCache, hfinalized]
    exact ⟨e, registry, content, hrun, hstalled, hsynced⟩
  | ok block =>
    obtain ⟨number, hash⟩ := block
    obtain rfl := henv.finalized number hash hfinalized
    obtain ⟨hE, hstart⟩ := hstalled.cachedHeaders_eq hsynced
    obtain ⟨event, _, hlater, hle⟩ := hstalled.due
    obtain ⟨e, registry', content', hloop, hkept⟩ := run_updateChunks_stalled (C := C) henv hstart
      (depositEventsStep_pos env.chainId) _ none (le_refl _) hstalled hsynced
    rw [run_updateEventsCache hfinalized henv.deployed, hE, if_neg (by omega),
      Service.run_bind_error hloop]
    exact ⟨e, registry', content', rfl, hkept⟩

end Registry

/-- **One update** of a running registry. -/
theorem Running.update (h : Running C H F content registry) (henv : Honest H F' env) (hF : F ≤ F')
    (hsynced : Synced H F content) :
    (∃ registry' content', (Registry.updateEventsCache C env).run registry =
        .ok .returned registry' ∧ Live C content' registry' ∧ Synced H F' content' ∧
        ((∃ hash, env.finalizedBlock = .ok (F', hash)) →
          content'.data = H.upTo F' ∧ (max content.endBlock D < F' → content'.endBlock = F'))) ∨
    (∃ e registry' content', (Registry.updateEventsCache C env).run registry = .error e registry' ∧
        Running C H F' content' registry' ∧ Synced H F' content') ∨
    ∃ registry' content', (Registry.updateEventsCache C env).run registry =
        .ok .exited registry' ∧ Stored registry'.store.db content' ∧ Synced H F' content' := by
  rcases h with hlive | hstalled
  · exact Registry.run_updateEventsCache_honest henv hlive (hsynced.mono hF)
  · obtain ⟨e, registry', content', hrun, hstalled', hsynced'⟩ :=
      Registry.run_updateEventsCache_stalled (C := C) henv (hstalled.mono hF) (hsynced.mono hF)
    exact Or.inr (Or.inl ⟨e, registry', content', hrun, Or.inr hstalled', hsynced'⟩)

section Outcomes

variable {registry' : Registry}

/-- An update that has returned. -/
theorem Running.returned (h : Running C H F content registry) (henv : Honest H F' env) (hF : F ≤ F')
    (hsynced : Synced H F content)
    (hrun : (Registry.updateEventsCache C env).run registry = .ok .returned registry') :
    ∃ content', Live C content' registry' ∧ Synced H F' content' ∧
      ((∃ hash, env.finalizedBlock = .ok (F', hash)) →
        content'.data = H.upTo F' ∧ (max content.endBlock D < F' → content'.endBlock = F')) := by
  rcases h.update henv hF hsynced with ⟨registry₁, content', hrun', hafter⟩ | ⟨e, registry₁, _, hrun', _⟩ |
    ⟨registry₁, _, hrun', _⟩
  · rw [hrun] at hrun'
    obtain rfl := (EStateM.Result.ok.inj hrun').2
    exact ⟨content', hafter⟩
  · rw [hrun] at hrun'
    cases hrun'
  · rw [hrun] at hrun'
    cases hrun'

/-- An update that has thrown. -/
theorem Running.thrown (h : Running C H F content registry) (henv : Honest H F' env) (hF : F ≤ F')
    (hsynced : Synced H F content) {e : String}
    (hrun : (Registry.updateEventsCache C env).run registry = .error e registry') :
    ∃ content', Running C H F' content' registry' ∧ Synced H F' content' := by
  rcases h.update henv hF hsynced with ⟨registry₁, _, hrun', _⟩ | ⟨e, registry₁, content', hrun', hafter⟩ |
    ⟨registry₁, _, hrun', _⟩
  · rw [hrun] at hrun'
    cases hrun'
  · rw [hrun] at hrun'
    obtain rfl := (EStateM.Result.error.inj hrun').2
    exact ⟨content', hafter⟩
  · rw [hrun] at hrun'
    cases hrun'

/-- An update that has ended the process. -/
theorem Running.exited (h : Running C H F content registry) (henv : Honest H F' env) (hF : F ≤ F')
    (hsynced : Synced H F content)
    (hrun : (Registry.updateEventsCache C env).run registry = .ok .exited registry') :
    ∃ content', Stored registry'.store.db content' ∧ Synced H F' content' := by
  rcases h.update henv hF hsynced with ⟨registry₁, _, hrun', _⟩ | ⟨e, registry₁, _, hrun', _⟩ |
    ⟨registry₁, content', hrun', hafter⟩
  · rw [hrun] at hrun'
    cases hrun'
  · rw [hrun] at hrun'
    cases hrun'
  · rw [hrun] at hrun'
    obtain rfl := (EStateM.Result.ok.inj hrun').2
    exact ⟨content', hafter⟩

end Outcomes

/-! ## An update that is answered -/

/-- The node answers every request up to its finalized block, the disk takes every write, and the root of
the finalized block is that of the history. -/
structure Answering (C : Crypto) (H : History D) (F : ℕ) (env : Env) : Prop extends Honest H F env where
  answers : ∀ first last, last ≤ F → ∃ events, env.fetchEventsFallOver first last = .ok events
  writes : ∀ ops, env.disk.write ops = .ok ()
  root : ∃ hash, env.finalizedBlock = .ok (F, hash) ∧ env.getDepositRoot hash =
    .ok (DepositTree.depositRoot C ((H.upTo F).map (·.depositDataRoot)))

namespace Registry

/-- **One chunk** is stored. -/
theorem run_updateChunk_answering (h : Answering C H F env)
    {headers : VerifiedDepositEventsCacheHeaders} (hstart : headers.startBlock = D)
    (hlive : Live C content registry) (hsynced : Synced H F content) {last : ℕ}
    (hfirst : max content.endBlock D + 1 ≤ last) (hlast : last ≤ F) :
    ∃ registry' content',
      (updateChunk C env headers (max content.endBlock D + 1) last).run registry =
        .ok (H.between (max content.endBlock D + 1) last) registry' ∧
      Live C content' registry' ∧ Synced H F content' ∧ content'.endBlock = last := by
  rcases run_updateChunk_honest h.toHonest hstart hlive hsynced hfirst hlast with
    hstored | ⟨e, registry', hthrow, _⟩
  · exact hstored
  · obtain ⟨events, hfetch⟩ := h.answers (max content.endBlock D + 1) last hlast
    obtain ⟨hsort, hcont⟩ := sort_chunk h.toHonest hlive.toLoaded hsynced hfirst hlast hfetch
    have hwrite : Written env.disk (sortEventsByDepositCount events)
        { headers with endBlock := last } := by
      refine ⟨fun e he => ?_, h.writes _⟩
      rw [hsort] at he
      have := History.succ_count_lt (H := H) (List.mem_filter.1 he).1
      omega
    obtain ⟨registry'', hrun, _⟩ := run_updateChunk_written hlive.aligned hfetch hcont hwrite
    rw [hthrow] at hrun
    cases hrun

/-- **The loop** comes to its end. -/
theorem run_updateChunks_answering (h : Answering C H F env)
    {headers : VerifiedDepositEventsCacheHeaders} (hstart : headers.startBlock = D)
    {step : ℕ} (hstep : 0 < step) : ∀ (n : ℕ) {registry : Registry} {content : StoreContent}
      (lastIndexedEvent : Option VerifiedDepositEvent),
      F - max content.endBlock D ≤ n → Live C content registry → Synced H F content →
      ∃ event registry', (updateChunks C env headers
        (chunks (max content.endBlock D + 1) F step) lastIndexedEvent).run registry =
          .ok event registry' := by
  intro n
  induction n with
  | zero =>
    intro registry content lastIndexedEvent hn _ _
    rw [chunks_of_lt step hstep (by omega)]
    exact ⟨lastIndexedEvent, registry, rfl⟩
  | succ n ih =>
    intro registry content lastIndexedEvent hn hlive hsynced
    by_cases hend : F < max content.endBlock D + 1
    · rw [chunks_of_lt step hstep hend]
      exact ⟨lastIndexedEvent, registry, rfl⟩
    · rw [chunks_of_le step hstep (not_lt.1 hend)]
      let last := min F (max content.endBlock D + 1 + step - 1)
      have hlast : last ≤ F := min_le_left _ _
      have hfirst : max content.endBlock D + 1 ≤ last := by simp only [last]; omega
      obtain ⟨registry₁, content₁, hrun, hlive₁, hsynced₁, hend₁⟩ :=
        run_updateChunk_answering h hstart hlive hsynced hfirst hlast
      have hmax : max content₁.endBlock D = last := by omega
      have hrest := ih ((H.between (max content.endBlock D + 1) last).getLast?.or lastIndexedEvent)
        (by omega) hlive₁ hsynced₁
      rw [hmax] at hrest
      obtain ⟨event, registry', hloop⟩ := hrest
      refine ⟨event, registry', ?_⟩
      rw [updateChunks, Service.run_bind_ok hrun]
      exact hloop

/-- **An update** of a node that answers comes to its end. -/
theorem run_updateEventsCache_answering (h : Answering C H F env) (hlive : Live C content registry)
    (hsynced : Synced H F content) :
    ∃ registry', (updateEventsCache C env).run registry = .ok .returned registry' := by
  obtain ⟨hash, hfinalized, hroot⟩ := h.root
  obtain ⟨hend, hstart⟩ := hlive.cachedHeaders_eq hsynced
  rw [run_updateEventsCache hfinalized h.deployed, hend]
  split_ifs with hage
  · exact ⟨registry, rfl⟩
  · have hnone : Indexed H content none := by simp [Indexed]
    obtain ⟨event, registry₁, hloop⟩ := run_updateChunks_answering h hstart
      (depositEventsStep_pos env.chainId) _ none (le_refl _) hlive hsynced
    rcases run_updateChunks_honest h.toHonest hstart (depositEventsStep_pos env.chainId) _ (le_refl _)
      (not_lt.1 hage) hlive hsynced hnone with
      ⟨event', registry₁', content₁, hrun, hlive₁, _, _, hdata₁, _⟩ | ⟨e, registry₁', _, hrun, _⟩
    · rw [hrun] at hloop
      obtain ⟨rfl, rfl⟩ := EStateM.Result.ok.inj hloop
      have hcheck : checkRoot C env hash registry₁'.finalizedTree = .ok true := by
        refine checkRoot_of_holds hlive₁.aligned.holds ?_ ?_
        · rw [List.length_map, hlive₁.data, hdata₁]
          exact History.length_upTo_lt F
        · rw [hlive₁.data, hdata₁]
          exact hroot
      rw [Service.run_bind_ok hrun]
      unfold finishUpdate
      rw [EStateM.run_bind, run_checkFinalizedRoot, hcheck]
      cases event' with
      | none => exact ⟨registry₁', rfl⟩
      | some event =>
        simp only [Service.run_call_ok, if_true, EStateM.run_bind, run_onStore,
          DepositsRegistryStore.run_insertLastValidEvent, h.writes]
        exact ⟨_, rfl⟩
    · rw [hrun] at hloop
      cases hloop

end Registry

end CouncilDaemon
