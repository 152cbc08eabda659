import CouncilDaemon.Bls.BlsService
import CouncilDaemon.Deposits.Registry
import CouncilDaemon.Utils.FetchEvents
import CouncilDaemon.Utils.RangePromise

/-!
# Fetching deposit events

The fetcher asks the node for the logs of the deposit contract in a range of blocks, computes from the
fields of each log its leaf and its verdict, and splits the range when all providers fail.

`DepositEvent` is the event of a deposit: its fields are those of the deposit as the contract logged
them, its leaf is the contract's, and it is valid exactly if the signature of the deposit is. Whatever
the node answers, as long as its logs have the format of the contract, every fetched event is the event
of some deposit (`fetchEventsFallOver_isEvent`).
-/

namespace CouncilDaemon

/-- A log of the deposit contract, as the provider parses it. -/
structure DepositEventEvent where
  pubkey : String
  withdrawal_credentials : String
  amount : String
  signature : String
  index : String
  transactionHash : String
  blockNumber : ℕ
  blockHash : String
  logIndex : ℕ

def DepositEventEvent.nodeData (rawEvent : DepositEventEvent) : NodeData where
  pubkey := rawEvent.pubkey
  wc := rawEvent.withdrawal_credentials
  amount := rawEvent.amount
  signature := rawEvent.signature

def VerifiedDepositEvent.nodeData (event : VerifiedDepositEvent) : NodeData where
  pubkey := event.pubkey
  wc := event.wc
  amount := event.amount
  signature := event.signature

/-- An error of a request; `AllProvidersFailedError` is the one on which a range is split. -/
inductive FetchError where
  | allProvidersFailed (message : String)
  | other (message : String)

namespace FetchError

def isAllProvidersFailed : FetchError → Bool
  | allProvidersFailed _ => true
  | other _ => false

def message : FetchError → String
  | allProvidersFailed message => message
  | other message => message

end FetchError

namespace DepositsRegistryFetcher

section Source

variable {C : Crypto} (ssz : SszPackage C) (blst : Blst) (blsService : BlsService)

/-- `formatEvent`, with the verdict of the caller in front. The fifth argument of the log, `rest['4']`,
is its `index`. -/
def formatEvent (rawEvent : DepositEventEvent) :
    Except String ((valid : Bool) → VerifiedDepositEvent) := do
  let depositDataRoot ← formDepositNode ssz rawEvent.nodeData
  let depositCount ← parseLittleEndian64 ssz rawEvent.index
  return fun valid => {
    valid
    pubkey := rawEvent.pubkey
    wc := rawEvent.withdrawal_credentials
    amount := rawEvent.amount
    signature := rawEvent.signature
    tx := rawEvent.transactionHash
    blockNumber := rawEvent.blockNumber
    blockHash := rawEvent.blockHash
    logIndex := rawEvent.logIndex
    index := rawEvent.index
    depositCount
    depositDataRoot }

def verifyDeposit (depositEvent : NodeData) : Except String Bool :=
  BlsService.verify ssz blst blsService depositEvent

/-- What `fetchEvents` does with a log. -/
def verifiedEvent (rawEvent : DepositEventEvent) : Except String VerifiedDepositEvent := do
  let formatted ← formatEvent ssz rawEvent
  let valid ← verifyDeposit ssz blst blsService rawEvent.nodeData
  return formatted valid

/-- `fetchEvents`, on the answer of `queryFilter`. -/
def fetchEvents (queryFilter : Except FetchError (List DepositEventEvent))
    (startBlock endBlock : ℤ) :
    Except FetchError (EventsRange.FetchedEvents VerifiedDepositEvent) := do
  let rawEvents ← queryFilter
  if rawEvents.length = 0 then return { events := [], startBlock, endBlock }
  else
    let events ← (rawEvents.mapM (verifiedEvent ssz blst blsService)).mapError FetchError.other
    return { events, startBlock, endBlock }

/-- `fetchEventsFallOver` of the fetcher. The node's answer may depend on what it was asked before. -/
def fetchEventsFallOver (queryFilter : (before : List EventsRange.RangeTask) →
      (startBlock endBlock : ℤ) → Except FetchError (List DepositEventEvent))
    (startBlock endBlock : ℕ) : Except String (List VerifiedDepositEvent) :=
  ((EventsRange.fetchEventsFallOver FetchError.isAllProvidersFailed
    (fun before first last => fetchEvents ssz blst blsService (queryFilter before first last)
      first last) startBlock endBlock).settled.map (·.events)).mapError FetchError.message

end Source

end DepositsRegistryFetcher

/-! ## Collected events -/

namespace EventsRange

variable {E ε : Type} {allProvidersFailed : ε → Bool}
  {fetcher : List RangeTask → (startBlock endBlock : ℤ) → Except ε (FetchedEvents E)} {P : E → Prop}

/-- What holds of every event that a call fetches holds of every event collected. -/
theorem forall_fetchLoop (hfetcher : ∀ calls startBlock endBlock fetched,
      fetcher calls startBlock endBlock = .ok fetched → ∀ event ∈ fetched.events, P event)
    (stack : List RangeTask) (allEvents : List E) (calls : List RangeTask) {events : List E}
    (hall : ∀ event ∈ allEvents, P event)
    (h : (fetchLoop allProvidersFailed fetcher stack allEvents calls).1 = .ok events) :
    ∀ event ∈ events, P event := by
  induction stack, allEvents, calls using fetchLoop.induct allProvidersFailed fetcher with
  | case1 allEvents calls =>
    rw [fetchLoop_nil] at h
    cases h
    exact hall
  | case2 allEvents calls task stack fetched hfetched ih =>
    rw [fetchLoop_ok hfetched] at h
    refine ih ?_ h
    intro event hevent
    rcases List.mem_append.1 hevent with hevent | hevent
    · exact hall event hevent
    · exact hfetcher _ _ _ _ hfetched event hevent
  | case3 allEvents calls task stack error herror hsplit ih =>
    rw [fetchLoop_split herror hsplit] at h
    exact ih hall h
  | case4 allEvents calls task stack error herror hsplit =>
    rw [fetchLoop_throw herror hsplit] at h
    cases h

end EventsRange

/-! ## Events of deposits -/

section Events

variable {C : Crypto} (ssz : SszPackage C) (blst : Blst) (forkVersion : Bytes)

/-- `event` is the event of the deposit `d`. -/
structure IsEventOf (event : VerifiedDepositEvent) (d : Deposit) : Prop where
  fields : event.nodeData = d.nodeData
  leaf : event.depositDataRoot = d.node C
  valid : event.valid = true ↔ d.SignatureValid ssz blst forkVersion

/-- `event` is the event of some deposit. -/
def IsEvent (event : VerifiedDepositEvent) : Prop := ∃ d, IsEventOf ssz blst forkVersion event d

/-- The log has the format of the deposit contract: its fields are those of some deposit. -/
def DepositEventEvent.HasFormat (rawEvent : DepositEventEvent) : Prop :=
  ∃ d : Deposit, rawEvent.nodeData = d.nodeData

namespace DepositsRegistryFetcher

variable {ssz blst forkVersion} {blsService : BlsService}

theorem isEvent_of_verifiedEvent (hversion : blsService.forkVersion = some forkVersion)
    {rawEvent : DepositEventEvent} (hformat : rawEvent.HasFormat) {event : VerifiedDepositEvent}
    (h : verifiedEvent ssz blst blsService rawEvent = .ok event) :
    IsEvent ssz blst forkVersion event := by
  obtain ⟨d, hd⟩ := hformat
  obtain ⟨verdict, hverify, hverdict⟩ := BlsService.verify_nodeData ssz blst hversion d
  unfold verifiedEvent verifyDeposit formatEvent at h
  rw [hd, d.formDepositNode_nodeData ssz, hverify] at h
  cases hcount : parseLittleEndian64 ssz rawEvent.index with
  | error e =>
    rw [hcount] at h
    cases h
  | ok depositCount =>
    rw [hcount] at h
    cases h
    exact ⟨d, hd, rfl, hverdict⟩

theorem isEvent_of_fetchEvents (hversion : blsService.forkVersion = some forkVersion)
    {queryFilter : Except FetchError (List DepositEventEvent)}
    (hformat : ∀ rawEvents, queryFilter = .ok rawEvents →
      ∀ rawEvent ∈ rawEvents, rawEvent.HasFormat) {startBlock endBlock : ℤ}
    {fetched : EventsRange.FetchedEvents VerifiedDepositEvent}
    (h : fetchEvents ssz blst blsService queryFilter startBlock endBlock = .ok fetched) :
    ∀ event ∈ fetched.events, IsEvent ssz blst forkVersion event := by
  unfold fetchEvents at h
  cases hquery : queryFilter with
  | error e =>
    rw [hquery] at h
    cases h
  | ok rawEvents =>
    rw [hquery] at h
    simp only [bind, Except.bind] at h
    split_ifs at h with hempty
    · cases h
      intro event hevent
      cases hevent
    · cases hmap : rawEvents.mapM (verifiedEvent ssz blst blsService) with
      | error e =>
        rw [hmap] at h
        cases h
      | ok events =>
        rw [hmap] at h
        cases h
        intro event hevent
        obtain ⟨rawEvent, hraw, hverified⟩ :=
          (mem_of_forall₂ (mapM_ok hmap)).2 event hevent
        exact isEvent_of_verifiedEvent hversion (hformat rawEvents hquery rawEvent hraw) hverified

/-- **Fetched events are events of deposits**, from a node whose logs have the format. -/
theorem fetchEventsFallOver_isEvent (hversion : blsService.forkVersion = some forkVersion)
    {queryFilter : (before : List EventsRange.RangeTask) → (startBlock endBlock : ℤ) →
      Except FetchError (List DepositEventEvent)}
    (hformat : ∀ before first last rawEvents, queryFilter before first last = .ok rawEvents →
      ∀ rawEvent ∈ rawEvents, rawEvent.HasFormat) {startBlock endBlock : ℕ}
    {events : List VerifiedDepositEvent}
    (h : fetchEventsFallOver ssz blst blsService queryFilter startBlock endBlock = .ok events) :
    ∀ event ∈ events, IsEvent ssz blst forkVersion event := by
  let fetcher : List EventsRange.RangeTask → (startBlock endBlock : ℤ) →
      Except FetchError (EventsRange.FetchedEvents VerifiedDepositEvent) :=
    fun before first last => fetchEvents ssz blst blsService (queryFilter before first last)
      first last
  have hloop : (((EventsRange.fetchLoop FetchError.isAllProvidersFailed fetcher
      [{ start := startBlock, last := endBlock }] [] []).1).mapError FetchError.message) =
        .ok events := by
    rw [← h]
    show _ = Except.mapError FetchError.message
      (((EventsRange.fetchLoop FetchError.isAllProvidersFailed fetcher
        [{ start := startBlock, last := endBlock }] [] []).1.map _).map _)
    cases (EventsRange.fetchLoop FetchError.isAllProvidersFailed fetcher
      [{ start := startBlock, last := endBlock }] [] []).1 <;> rfl
  cases hresult : (EventsRange.fetchLoop FetchError.isAllProvidersFailed fetcher
      [{ start := startBlock, last := endBlock }] [] []).1 with
  | error e =>
    rw [hresult] at hloop
    cases hloop
  | ok collected =>
    rw [hresult] at hloop
    cases hloop
    refine EventsRange.forall_fetchLoop ?_ _ [] [] (fun event hevent => by cases hevent) hresult
    intro before first last fetched hfetched
    exact isEvent_of_fetchEvents hversion (hformat before first last) hfetched

theorem fetchEventsFallOver_of_ok {queryFilter : (before : List EventsRange.RangeTask) →
      (startBlock endBlock : ℤ) → Except FetchError (List DepositEventEvent)}
    {startBlock endBlock : ℕ} {fetched : EventsRange.FetchedEvents VerifiedDepositEvent}
    (h : fetchEvents ssz blst blsService (queryFilter [] startBlock endBlock) startBlock endBlock =
      .ok fetched) :
    fetchEventsFallOver ssz blst blsService queryFilter startBlock endBlock = .ok fetched.events := by
  unfold fetchEventsFallOver EventsRange.fetchEventsFallOver
  rw [EventsRange.fetchLoop_ok h, EventsRange.fetchLoop_nil]
  rfl

end DepositsRegistryFetcher

end Events

end CouncilDaemon
