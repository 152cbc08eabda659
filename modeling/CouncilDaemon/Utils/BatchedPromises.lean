import CouncilDaemon.Lib.Interleaving
import CouncilDaemon.Utils.RangePromise

/-!
# Batches of promises

`rangePromise` with the promises of a batch in progress at the same time. They resolve in any order,
each with any value, and the next batch starts when all of them have.

At any time the values that are there fill the places of the indexes started so far, the places of the
earlier batches without a gap (`Running`); a run takes at most two steps for each index.
-/

namespace CouncilDaemon

namespace Batched

variable {α : Type}

/-! ## The call -/

/-- `range`, with its two iterators. -/
def range (start stop : ℤ) : List ℤ :=
  if start - stop < 0 then (List.range (stop - start).toNat).map fun i : ℕ => start + (i : ℤ)
  else (List.range (start - stop).toNat).map fun i : ℕ => start - (i : ℤ)

/-- The arguments of `rangePromise`, the callback apart. -/
structure RangeCall where
  start : ℤ
  stop : ℤ
  batchSize : ℤ := 20

inductive RangeEvent (α : Type) where
  | started (index : ℤ)
  | completed (index : ℤ) (value : α)

/-- `batchResult` has the values of the current batch that are there, in the places of their promises.
`history` has the latest event first, and `settled` is what the call returns or throws. -/
structure RangeState (α : Type) where
  batchResult : List (Option α) := []
  history : List (RangeEvent α) := []
  settled : Option (Except String (List α)) := none

/-- An invocation of the callback, with the place of its promise in the batch; and the loop, which waits
for the promises of a batch. -/
inductive RangeThread (α : Type) where
  | callback (position : ℕ) (index : ℤ)
  | batch (batch : ℤ) (result : List α)

inductive RangeAnswer (α : Type) where
  | resolved (value : α)
  | settled

namespace RangeCall

variable (call : RangeCall)

def batchTo : ℤ := ⌈((call.stop - call.start : ℤ) : ℚ) / (call.batchSize : ℚ)⌉

def batchSlotFrom (batch : ℤ) : ℤ := call.start + batch * call.batchSize

def batchSlotTo (batch : ℤ) : ℤ := min (call.batchSlotFrom batch + call.batchSize) call.stop

/-- The indexes of a batch. -/
def slots (batch : ℤ) : List ℤ := range (call.batchSlotFrom batch) (call.batchSlotTo batch)

/-- The loop from the head of a turn to the await of its batch, or to the end. -/
def runBatch (batch : ℤ) (result : List α) (s : RangeState α) :
    RangeState α × List (RangeThread α) :=
  if batch < call.batchTo then
    ({ s with
        batchResult := (call.slots batch).map fun _ => none
        history := ((call.slots batch).map RangeEvent.started).reverse ++ s.history },
      (call.slots batch).zipIdx.map (fun slot => .callback slot.2 slot.1) ++ [.batch batch result])
  else ({ s with settled := some (.ok result) }, [])

def rangePromise (s : RangeState α) : RangeState α × List (RangeThread α) :=
  if call.stop < call.start then
    ({ s with settled := some (.error "From should be less than to") }, [])
  else if call.batchSize ≤ 0 then
    ({ s with settled := some (.error "batchSize should be greater than 0") }, [])
  else call.runBatch 0 [] s

/-- A promise resolves, or the loop goes on when all promises of the batch have. -/
def resume (s : RangeState α) : RangeThread α → RangeAnswer α →
    Option (RangeState α × List (RangeThread α))
  | .callback position index, .resolved value =>
    some ({ s with
      batchResult := s.batchResult.set position (some value)
      history := .completed index value :: s.history }, [])
  | .batch batch result, .settled =>
    (s.batchResult.mapM id).map fun batchResult => call.runBatch (batch + 1) (result ++ batchResult) s
  | _, _ => none

/-- The call in any interleaving of its invocations. -/
def program (α : Type) : Program (RangeState α) Empty (RangeThread α) (RangeAnswer α) where
  start move := nomatch move
  resume thread answer s := call.resume s thread answer

/-- The call up to its first await. -/
def begun (α : Type) : Configuration (RangeState α) (RangeThread α) :=
  ⟨(call.rangePromise {}).1, (call.rangePromise {}).2⟩

end RangeCall

/-! ## What a history says -/

def RangeEvent.started? : RangeEvent α → Option ℤ
  | started index => some index
  | completed _ _ => none

/-- The indexes the callback was invoked for, in the order of the invocations. -/
def startedIndexes (history : List (RangeEvent α)) : List ℤ :=
  history.reverse.filterMap RangeEvent.started?

theorem startedIndexes_completed (index : ℤ) (value : α) (history : List (RangeEvent α)) :
    startedIndexes (.completed index value :: history) = startedIndexes history := by
  simp [startedIndexes, RangeEvent.started?]

theorem startedIndexes_started (indexes : List ℤ) (history : List (RangeEvent α)) :
    startedIndexes ((indexes.map RangeEvent.started).reverse ++ history) =
      startedIndexes history ++ indexes := by
  unfold startedIndexes
  rw [List.reverse_append, List.reverse_reverse, List.filterMap_append, List.filterMap_map]
  congr 1
  exact List.filterMap_some

namespace RangeCall

variable (call : RangeCall)

def batchOf (index : ℤ) : ℤ := (index - call.start) / call.batchSize

/-- When the callback is invoked for an index, those of the earlier batches are completed. -/
def InBatches (history : List (RangeEvent α)) : Prop :=
  ∀ later index earlier, history = later ++ .started index :: earlier →
    ∀ other, call.start ≤ other → call.batchOf other < call.batchOf index →
      ∃ value, .completed other value ∈ earlier

variable {call}

theorem inBatches_nil : call.InBatches ([] : List (RangeEvent α)) := by
  intro later index earlier h
  simp at h

theorem inBatches_cons {event : RangeEvent α} {history : List (RangeEvent α)}
    (hevent : ∀ index, event = .started index → ∀ other, call.start ≤ other →
      call.batchOf other < call.batchOf index → ∃ value, .completed other value ∈ history)
    (h : call.InBatches history) : call.InBatches (event :: history) := by
  intro later index earlier heq
  cases later with
  | nil =>
    obtain ⟨rfl, rfl⟩ := List.cons.inj heq
    exact hevent index rfl
  | cons first later => exact h later index earlier (List.cons.inj heq).2

theorem inBatches_started {history : List (RangeEvent α)} (h : call.InBatches history)
    (indexes : List ℤ) (hindexes : ∀ index ∈ indexes, ∀ other, call.start ≤ other →
      call.batchOf other < call.batchOf index → ∃ value, .completed other value ∈ history) :
    call.InBatches ((indexes.map RangeEvent.started).reverse ++ history) := by
  induction indexes using List.reverseRecOn with
  | nil => exact h
  | append_singleton indexes index ih =>
    rw [List.map_append, List.reverse_append, List.map_singleton, List.reverse_singleton,
      List.append_assoc, List.singleton_append]
    refine inBatches_cons ?_ (ih fun i hi => hindexes i (List.mem_append_left _ hi))
    intro i hi other hother hlt
    cases hi
    obtain ⟨value, hvalue⟩ := hindexes index (by simp) other hother hlt
    exact ⟨value, List.mem_append_right _ hvalue⟩

/-! ## Arithmetic of the batches -/

theorem lt_batchTo (hsize : 0 < call.batchSize) (batch : ℤ) :
    batch < call.batchTo ↔ batch * call.batchSize < call.stop - call.start := by
  have hpos : (0 : ℚ) < call.batchSize := by exact_mod_cast hsize
  rw [batchTo, Int.lt_ceil, lt_div_iff₀ hpos]
  exact_mod_cast Iff.rfl

theorem slots_eq {batch : ℤ} (hlt : call.batchSlotFrom batch < call.batchSlotTo batch) :
    call.slots batch = (List.range (call.batchSlotTo batch - call.batchSlotFrom batch).toNat).map
      fun i : ℕ => call.batchSlotFrom batch + (i : ℤ) := by
  unfold slots range
  rw [if_pos (by omega)]

theorem batchOf_slot (hsize : 0 < call.batchSize) {batch index : ℤ}
    (hlow : call.batchSlotFrom batch ≤ index)
    (hhigh : index < call.batchSlotFrom batch + call.batchSize) : call.batchOf index = batch := by
  unfold batchSlotFrom at hlow hhigh
  unfold batchOf
  rw [Int.ediv_eq_iff_of_pos hsize]
  constructor
  · linarith
  · linarith

theorem lt_of_batchOf_lt (hsize : 0 < call.batchSize) {batch index : ℤ}
    (h : call.batchOf index < batch) : index < call.batchSlotFrom batch := by
  unfold batchOf at h
  rw [Int.ediv_lt_iff_lt_mul hsize] at h
  unfold batchSlotFrom
  omega

theorem mapM_id_eq_some {values : List α} : ∀ {places : List (Option α)},
    places.mapM id = some values → places = values.map some := by
  intro places
  induction places generalizing values with
  | nil =>
    intro h
    cases h
    rfl
  | cons place places ih =>
    intro h
    rw [List.mapM_cons] at h
    simp only [id_eq, Option.bind_eq_bind, Option.bind_eq_some_iff, Option.pure_def,
      Option.some.injEq] at h
    obtain ⟨value, rfl, rest, hrest, rfl⟩ := h
    rw [ih hrest, List.map_cons]

/-! ## The invariant -/

variable (call)

/-- The values that are there stand in the places of the indexes they belong to. -/
def Placed (places : List (Option α)) (history : List (RangeEvent α)) : Prop :=
  ∀ index value, .completed index value ∈ history ↔
    ∃ place : ℕ, index = call.start + place ∧ places[place]? = some (some value)

/-- The first indexes of the range. -/
def indexes (count : ℕ) : List ℤ := (List.range count).map fun i : ℕ => call.start + (i : ℤ)

/-- The invocation of a place in a batch. -/
def invocation (α : Type) (batch : ℤ) (position : ℕ) : RangeThread α :=
  .callback position (call.batchSlotFrom batch + position)

/-- The head of a turn of the loop, after `steps` steps. -/
structure Turn (steps : ℕ) (batch : ℤ) (result : List α) (s : RangeState α) : Prop where
  batch_nonneg : 0 ≤ batch
  batch_le : batch ≤ result.length
  length : (result.length : ℤ) = min (batch * call.batchSize) (call.stop - call.start)
  started : startedIndexes s.history = call.indexes result.length
  placed : call.Placed (result.map some) s.history
  inBatches : call.InBatches s.history
  steps_eq : (steps : ℤ) = result.length + batch
  unsettled : s.settled = none

/-- The loop waits for a batch; the promises in the places of `pending` are still in progress. -/
structure Running (steps : ℕ) (batch : ℤ) (result : List α) (pending : List ℕ)
    (c : Configuration (RangeState α) (RangeThread α)) : Prop where
  batch_nonneg : 0 ≤ batch
  batch_le : batch ≤ result.length
  batch_lt : batch * call.batchSize < call.stop - call.start
  length : (result.length : ℤ) = batch * call.batchSize
  batch_length : (c.shared.batchResult.length : ℤ) =
    call.batchSlotTo batch - call.batchSlotFrom batch
  started : startedIndexes c.shared.history =
    call.indexes (result.length + c.shared.batchResult.length)
  placed : call.Placed (result.map some ++ c.shared.batchResult) c.shared.history
  inBatches : call.InBatches c.shared.history
  nodup : pending.Nodup
  mem_pending : ∀ position, position ∈ pending ↔ c.shared.batchResult[position]? = some none
  threads : c.threads = pending.map (call.invocation α batch) ++ [.batch batch result]
  steps_eq : (steps + pending.length : ℤ) =
    result.length + c.shared.batchResult.length + batch
  unsettled : c.shared.settled = none

structure Finished (steps : ℕ) (result : List α)
    (c : Configuration (RangeState α) (RangeThread α)) : Prop where
  length : (result.length : ℤ) = call.stop - call.start
  settled : c.shared.settled = some (.ok result)
  started : startedIndexes c.shared.history = call.indexes result.length
  placed : call.Placed (result.map some) c.shared.history
  inBatches : call.InBatches c.shared.history
  threads : c.threads = []
  steps_le : (steps : ℤ) ≤ 2 * (call.stop - call.start)

def Inv (steps : ℕ) (c : Configuration (RangeState α) (RangeThread α)) : Prop :=
  (∃ batch result pending, call.Running steps batch result pending c) ∨
    ∃ result, call.Finished steps result c

variable {call}

theorem indexes_add (count more : ℕ) : call.indexes (count + more) =
    call.indexes count ++ (List.range more).map fun i : ℕ => call.start + count + (i : ℤ) := by
  unfold indexes
  rw [List.range_add, List.map_append, List.map_map]
  congr 1
  refine List.map_congr_left fun i _ => ?_
  simp only [Function.comp_apply]
  push_cast
  ring

theorem placed_append_none {values : List α} {history : List (RangeEvent α)}
    (h : call.Placed (values.map some) history) (indexes : List ℤ) :
    call.Placed (values.map some ++ indexes.map fun _ => none)
      ((indexes.map RangeEvent.started).reverse ++ history) := by
  intro index value
  have hmem : .completed index value ∈ (indexes.map RangeEvent.started).reverse ++ history ↔
      .completed index value ∈ history := by
    simp
  rw [hmem, h index value]
  refine exists_congr fun place => and_congr_right fun _ => ?_
  rcases Nat.lt_or_ge place (values.map some).length with hlt | hge
  · rw [List.getElem?_append_left hlt]
  · rw [List.getElem?_append_right hge, List.getElem?_eq_none hge, List.getElem?_map]
    cases indexes[place - (values.map some).length]? with
    | none => simp
    | some i => simp

/-- The indexes of a batch that starts, in their places. -/
theorem zipIdx_slots {batch : ℤ} (count : ℕ) :
    ((List.range count).map fun i : ℕ => call.batchSlotFrom batch + (i : ℤ)).zipIdx.map
        (fun slot => RangeThread.callback slot.2 slot.1) =
      (List.range count).map (call.invocation α batch) := by
  refine List.ext_getElem (by simp) fun i h₁ h₂ => ?_
  simp [invocation]

theorem inv_runBatch (hsize : 0 < call.batchSize) {steps : ℕ} {batch : ℤ} {result : List α}
    {s : RangeState α} (h : call.Turn steps batch result s) :
    call.Inv steps ⟨(call.runBatch batch result s).1, (call.runBatch batch result s).2⟩ := by
  unfold runBatch
  by_cases hbatch : batch < call.batchTo
  · rw [if_pos hbatch]
    have hlt := (lt_batchTo hsize batch).1 hbatch
    have hlength : (result.length : ℤ) = batch * call.batchSize :=
      h.length.trans (min_eq_left hlt.le)
    have hfrom : call.batchSlotFrom batch = call.start + result.length := by
      rw [hlength]
      rfl
    have hslot : call.batchSlotFrom batch < call.batchSlotTo batch := by
      unfold batchSlotTo
      rw [hfrom]
      omega
    obtain ⟨count, hcount⟩ : ∃ count : ℕ,
        (count : ℤ) = call.batchSlotTo batch - call.batchSlotFrom batch :=
      ⟨_, Int.toNat_of_nonneg (by omega)⟩
    have hslots : call.slots batch =
        (List.range count).map fun i : ℕ => call.batchSlotFrom batch + (i : ℤ) := by
      rw [slots_eq hslot, ← hcount, Int.toNat_natCast]
    have hnone : ((call.slots batch).map fun _ => (none : Option α)).length = count := by
      rw [hslots]
      simp
    left
    refine ⟨batch, result, List.range count, ?_⟩
    refine ⟨h.batch_nonneg, h.batch_le, hlt, hlength, ?_, ?_, placed_append_none h.placed _, ?_,
      List.nodup_range, ?_, ?_, ?_, h.unsettled⟩
    · show (((call.slots batch).map fun _ => (none : Option α)).length : ℤ) = _
      rw [hnone, hcount]
    · show startedIndexes (_ ++ s.history) = call.indexes (result.length + List.length _)
      rw [startedIndexes_started, h.started, hnone, indexes_add, hslots, hfrom]
    · refine inBatches_started h.inBatches _ fun index hindex other hother hbefore => ?_
      rw [hslots] at hindex
      obtain ⟨i, hi, rfl⟩ := List.mem_map.1 hindex
      have hi' := List.mem_range.1 hi
      have hbound : call.batchSlotTo batch ≤ call.batchSlotFrom batch + call.batchSize :=
        min_le_left _ _
      have hof : call.batchOf (call.batchSlotFrom batch + (i : ℤ)) = batch :=
        batchOf_slot hsize (by omega) (by omega)
      rw [hof] at hbefore
      have hplace := lt_of_batchOf_lt hsize hbefore
      rw [hfrom] at hplace
      obtain ⟨place, hplace'⟩ : ∃ place : ℕ, other = call.start + place :=
        ⟨(other - call.start).toNat, by omega⟩
      have hlt' : place < result.length := by omega
      exact ⟨result[place], (h.placed other _).2 ⟨place, hplace', by simp [hlt']⟩⟩
    · intro position
      show position ∈ List.range count ↔
        ((call.slots batch).map fun _ => (none : Option α))[position]? = some none
      rw [List.mem_range]
      constructor
      · intro hlt
        rw [List.getElem?_eq_getElem (by rw [hnone]; exact hlt), List.getElem_map]
      · intro hsome
        obtain ⟨hlt, _⟩ := List.getElem?_eq_some_iff.1 hsome
        rwa [hnone] at hlt
    · show _ ++ _ = _ ++ _
      rw [hslots, zipIdx_slots]
    · show ((steps : ℤ) + (List.range count).length) = result.length + List.length _ + batch
      rw [List.length_range, hnone, h.steps_eq]
      ring
  · rw [if_neg hbatch]
    have hle : call.stop - call.start ≤ batch * call.batchSize := by
      rw [lt_batchTo hsize] at hbatch
      omega
    have hlength : (result.length : ℤ) = call.stop - call.start :=
      h.length.trans (min_eq_right hle)
    right
    refine ⟨result, hlength, rfl, h.started, h.placed, h.inBatches, rfl, ?_⟩
    have hsteps := h.steps_eq
    have hbatch_le := h.batch_le
    omega

/-! ## Steps -/

/-- A promise that resolves is one in progress. -/
theorem split_pending {batch : ℤ} {result : List α} {pending : List ℕ}
    {before after : List (RangeThread α)} {position : ℕ} {index : ℤ}
    (h : before ++ .callback position index :: after =
      pending.map (call.invocation α batch) ++ [.batch batch result]) :
    ∃ front back, pending = front ++ position :: back ∧
      index = call.batchSlotFrom batch + position ∧
      before ++ after = (front ++ back).map (call.invocation α batch) ++ [.batch batch result] := by
  rcases List.eq_nil_or_concat after with rfl | ⟨others, last, rfl⟩
  · have hlast := congrArg List.getLast? h
    simp at hlast
  · rw [List.concat_eq_append, ← List.cons_append, ← List.append_assoc] at h
    obtain ⟨hfront, hlast⟩ := List.append_inj' h rfl
    obtain ⟨front, rest, rfl, rfl, hrest⟩ := List.map_eq_append_iff.1 hfront.symm
    obtain ⟨place, back, rfl, hplace, rfl⟩ := List.map_eq_cons_iff.1 hrest
    unfold invocation at hplace
    cases hplace
    refine ⟨front, back, rfl, rfl, ?_⟩
    rw [List.concat_eq_append, hlast, List.map_append, List.append_assoc]

theorem placed_completed {places : List (Option α)} {history : List (RangeEvent α)}
    (h : call.Placed places history) {place : ℕ} (hplace : places[place]? = some none) (value : α) :
    call.Placed (places.set place (some value))
      (.completed (call.start + place) value :: history) := by
  obtain ⟨hlt, _⟩ := List.getElem?_eq_some_iff.1 hplace
  intro index v
  constructor
  · intro hmem
    rcases List.mem_cons.1 hmem with hnew | hold
    · cases hnew
      exact ⟨place, rfl, by rw [List.getElem?_set_self hlt]⟩
    · obtain ⟨other, hindex, hother⟩ := (h index v).1 hold
      refine ⟨other, hindex, ?_⟩
      have hne : place ≠ other := by
        rintro rfl
        rw [hplace] at hother
        cases hother
      rw [List.getElem?_set_ne hne, hother]
  · rintro ⟨other, hindex, hother⟩
    by_cases hsame : place = other
    · subst hsame
      rw [List.getElem?_set_self hlt] at hother
      cases hother
      rw [hindex]
      exact List.mem_cons_self ..
    · rw [List.getElem?_set_ne hsame] at hother
      exact List.mem_cons_of_mem _ ((h index v).2 ⟨other, hindex, hother⟩)

/-- A promise of the batch resolves. -/
theorem Running.resolve {steps : ℕ} {batch : ℤ} {result : List α} {pending : List ℕ}
    {s : RangeState α} {before after : List (RangeThread α)} {position : ℕ} {index : ℤ}
    (h : call.Running steps batch result pending
      ⟨s, before ++ .callback position index :: after⟩) (value : α) :
    ∃ pending', call.Running (steps + 1) batch result pending'
      ⟨{ s with
          batchResult := s.batchResult.set position (some value)
          history := .completed index value :: s.history }, before ++ after⟩ := by
  obtain ⟨front, back, hpending, hindex, hthreads⟩ := split_pending h.threads
  have hnone : s.batchResult[position]? = some none := (h.mem_pending position).1 (by
    rw [hpending]
    simp)
  obtain ⟨hlt, _⟩ := List.getElem?_eq_some_iff.1 hnone
  have hplace : (result.map some ++ s.batchResult)[result.length + position]? = some none := by
    rw [List.getElem?_append_right (by simp), List.length_map, Nat.add_sub_cancel_left, hnone]
  have hindex' : index = call.start + (result.length + position : ℕ) := by
    rw [hindex, batchSlotFrom, ← h.length]
    push_cast
    ring
  have hnodup := h.nodup
  rw [hpending] at hnodup
  refine ⟨front ++ back, ⟨h.batch_nonneg, h.batch_le, h.batch_lt, h.length, ?_, ?_, ?_, ?_, ?_, ?_,
    hthreads, ?_, h.unsettled⟩⟩
  · rw [List.length_set]
    exact h.batch_length
  · rw [startedIndexes_completed, List.length_set]
    exact h.started
  · have hset : (result.map some ++ s.batchResult).set (result.length + position) (some value) =
        result.map some ++ s.batchResult.set position (some value) := by
      rw [List.set_append, List.length_map, if_neg (by omega), Nat.add_sub_cancel_left]
    have hplaced := placed_completed h.placed hplace value
    rw [← hset, hindex']
    exact hplaced
  · refine inBatches_cons ?_ h.inBatches
    intro other hother
    cases hother
  · exact hnodup.sublist (List.Sublist.append_left (List.sublist_cons_self ..) _)
  · intro other
    have hold := h.mem_pending other
    rw [hpending] at hold
    by_cases hsame : position = other
    · subst hsame
      rw [List.getElem?_set_self hlt]
      have hnot : position ∉ front ++ back := by
        intro hmem
        rw [List.nodup_middle, List.nodup_cons] at hnodup
        exact hnodup.1 hmem
      simp [hnot]
    · rw [List.getElem?_set_ne hsame, ← hold]
      simp [Ne.symm hsame]
  · have hsteps := h.steps_eq
    rw [hpending] at hsteps
    rw [List.length_set]
    simp only [List.length_append, List.length_cons] at hsteps ⊢
    push_cast at hsteps ⊢
    linarith

/-- All promises of the batch have resolved, and the loop turns. -/
theorem Running.turn (hsize : 0 < call.batchSize) {steps : ℕ} {batch : ℤ} {result : List α}
    {pending : List ℕ} {s : RangeState α} {threads : List (RangeThread α)}
    (h : call.Running steps batch result pending ⟨s, threads⟩) {values : List α}
    (hvalues : s.batchResult.mapM id = some values) :
    pending = [] ∧ call.Turn (steps + 1) (batch + 1) (result ++ values) s := by
  have hplaces := mapM_id_eq_some hvalues
  have hpending : pending = [] := by
    rw [List.eq_nil_iff_forall_not_mem]
    intro position hposition
    have hnone : s.batchResult[position]? = some none := (h.mem_pending position).1 hposition
    rw [hplaces, List.getElem?_map] at hnone
    cases hvalue : values[position]? with
    | none =>
      rw [hvalue] at hnone
      cases hnone
    | some value =>
      rw [hvalue] at hnone
      cases hnone
  have hlength : s.batchResult.length = values.length := by
    rw [hplaces, List.length_map]
  have hbatch : (values.length : ℤ) = call.batchSlotTo batch - call.batchSlotFrom batch := by
    rw [← hlength]
    exact h.batch_length
  have hslot : call.batchSlotTo batch =
      min (call.start + (batch + 1) * call.batchSize) call.stop := by
    unfold batchSlotTo batchSlotFrom
    congr 1
    ring
  have hfrom : call.batchSlotFrom batch = call.start + result.length := by
    rw [h.length]
    rfl
  have hlt := h.batch_lt
  have hresult := h.length
  have hnonneg := h.batch_nonneg
  have hbatch_le := h.batch_le
  have hmul : (batch + 1) * call.batchSize = batch * call.batchSize + call.batchSize := by ring
  refine ⟨hpending, ?_⟩
  refine ⟨by omega, ?_, ?_, ?_, ?_, h.inBatches, ?_, h.unsettled⟩
  · rw [List.length_append]
    push_cast
    omega
  · rw [List.length_append]
    push_cast
    omega
  · rw [List.length_append, ← hlength]
    exact h.started
  · rw [List.map_append, ← hplaces]
    exact h.placed
  · have hsteps := h.steps_eq
    rw [hpending] at hsteps
    rw [List.length_append, ← hlength]
    push_cast at hsteps ⊢
    simp only [List.length_nil, Nat.cast_zero, add_zero] at hsteps
    rw [hsteps]
    ring

/-- A step of the call. -/
theorem inv_step (hsize : 0 < call.batchSize) {steps : ℕ}
    {c c' : Configuration (RangeState α) (RangeThread α)} {move : Move Empty (RangeAnswer α)}
    (h : call.Inv steps c) (hstep : (call.program α).step c move = some c') :
    call.Inv (steps + 1) c' := by
  rcases Program.step_cases hstep with ⟨begin, _⟩ |
    ⟨before, thread, after, answer, next, rfl, hthreads, hnext, rfl⟩
  · exact nomatch begin
  · rcases h with ⟨batch, result, pending, hrunning⟩ | ⟨result, hfinished⟩
    · obtain ⟨s, threads⟩ := c
      obtain rfl : threads = before ++ thread :: after := hthreads
      cases thread with
      | callback position index =>
        cases answer with
        | settled => cases hnext
        | resolved value =>
          cases hnext
          obtain ⟨pending', hrunning'⟩ := hrunning.resolve value
          exact Or.inl ⟨batch, result, pending', hrunning'⟩
      | batch batch' result' =>
        cases answer with
        | resolved value => cases hnext
        | settled =>
          obtain ⟨values, hvalues, rfl⟩ := Option.map_eq_some_iff.1 hnext
          obtain ⟨rfl, hturn⟩ := hrunning.turn hsize hvalues
          have hone : before ++ .batch batch' result' :: after = [.batch batch result] :=
            hrunning.threads
          rw [List.append_eq_singleton_iff] at hone
          rcases hone with ⟨rfl, hlast⟩ | ⟨_, habsurd⟩
          · cases hlast
            have hinv := inv_runBatch hsize hturn
            rw [List.nil_append, List.append_nil]
            exact hinv
          · cases habsurd
    · rw [hfinished.threads] at hthreads
      simp at hthreads

theorem inv_begun (hle : call.start ≤ call.stop) (hsize : 0 < call.batchSize) :
    call.Inv 0 (call.begun α) := by
  unfold begun rangePromise
  rw [if_neg (by omega), if_neg (by omega)]
  refine inv_runBatch hsize ⟨le_rfl, le_rfl, ?_, rfl, ?_, inBatches_nil, rfl, rfl⟩
  · show (0 : ℤ) = min (0 * call.batchSize) (call.stop - call.start)
    rw [zero_mul, min_eq_left (by omega)]
  · intro index value
    simp

end RangeCall

/-! ## The traversal -/

def RangeThread.isCallback : RangeThread α → Bool
  | callback .. => true
  | batch .. => false

/-- The number of invocations in progress. -/
def inProgress (threads : List (RangeThread α)) : ℕ := threads.countP RangeThread.isCallback

namespace RangeCall

variable (call : RangeCall)

/-- What holds at any time of a call. -/
structure Orderly (c : Configuration (RangeState α) (RangeThread α)) : Prop where
  nodup : (startedIndexes c.shared.history).Nodup
  within : ∀ index ∈ startedIndexes c.shared.history, call.start ≤ index ∧ index < call.stop
  inBatches : call.InBatches c.shared.history
  inProgress_le : (inProgress c.threads : ℤ) ≤ call.batchSize

/-- The call has returned the values of all indexes, in the order of the indexes. -/
structure Returned (result : List α) (c : Configuration (RangeState α) (RangeThread α)) : Prop where
  settled : c.shared.settled = some (.ok result)
  started : ∀ index, index ∈ startedIndexes c.shared.history ↔
    call.start ≤ index ∧ index < call.stop
  length : (result.length : ℤ) = call.stop - call.start
  values : ∀ (place : ℕ) value, result[place]? = some value ↔
    .completed (call.start + place) value ∈ c.shared.history

variable {call}

theorem mem_indexes {count : ℕ} {index : ℤ} :
    index ∈ call.indexes count ↔ call.start ≤ index ∧ index < call.start + count := by
  unfold indexes
  rw [List.mem_map]
  constructor
  · rintro ⟨i, hi, rfl⟩
    have hlt := List.mem_range.1 hi
    omega
  · rintro ⟨hlow, hhigh⟩
    exact ⟨(index - call.start).toNat, List.mem_range.2 (by omega), by omega⟩

theorem nodup_indexes (count : ℕ) : (call.indexes count).Nodup := by
  unfold indexes
  refine List.Nodup.map ?_ List.nodup_range
  intro i j h
  simp only at h
  omega

theorem inProgress_running (batch : ℤ) (result : List α) (pending : List ℕ) :
    inProgress (pending.map (call.invocation α batch) ++ [.batch batch result]) =
      pending.length := by
  unfold inProgress
  have hall : pending.countP (RangeThread.isCallback ∘ call.invocation α batch) =
      pending.length := by
    rw [List.countP_eq_length]
    intro position _
    rfl
  rw [List.countP_append, List.countP_map, hall]
  rfl

theorem Running.pending_le {steps : ℕ} {batch : ℤ} {result : List α} {pending : List ℕ}
    {c : Configuration (RangeState α) (RangeThread α)}
    (h : call.Running steps batch result pending c) :
    pending.length ≤ c.shared.batchResult.length := by
  have hsub : pending ⊆ List.range c.shared.batchResult.length := by
    intro position hposition
    obtain ⟨hlt, _⟩ := List.getElem?_eq_some_iff.1 ((h.mem_pending position).1 hposition)
    exact List.mem_range.2 hlt
  have hle := (List.subperm_of_subset h.nodup hsub).length_le
  rwa [List.length_range] at hle

theorem Running.orderly {steps : ℕ} {batch : ℤ} {result : List α} {pending : List ℕ}
    {c : Configuration (RangeState α) (RangeThread α)}
    (h : call.Running steps batch result pending c) : call.Orderly c := by
  have hlength := h.batch_length
  have hresult := h.length
  unfold batchSlotTo batchSlotFrom at hlength
  refine ⟨?_, ?_, h.inBatches, ?_⟩
  · rw [h.started]
    exact nodup_indexes _
  · intro index hindex
    rw [h.started, mem_indexes] at hindex
    push_cast at hindex
    omega
  · rw [h.threads, inProgress_running]
    have hle := h.pending_le
    omega

theorem Finished.orderly (hsize : 0 < call.batchSize) {steps : ℕ} {result : List α}
    {c : Configuration (RangeState α) (RangeThread α)} (h : call.Finished steps result c) :
    call.Orderly c := by
  have hlength := h.length
  refine ⟨?_, ?_, h.inBatches, ?_⟩
  · rw [h.started]
    exact nodup_indexes _
  · intro index hindex
    rw [h.started, mem_indexes] at hindex
    omega
  · rw [h.threads]
    exact hsize.le

theorem Finished.returned {steps : ℕ} {result : List α}
    {c : Configuration (RangeState α) (RangeThread α)} (h : call.Finished steps result c) :
    call.Returned result c := by
  refine ⟨h.settled, ?_, h.length, ?_⟩
  · intro index
    rw [h.started, mem_indexes, h.length]
    constructor
    · rintro ⟨hlow, hhigh⟩
      exact ⟨hlow, by linarith⟩
    · rintro ⟨hlow, hhigh⟩
      exact ⟨hlow, by linarith⟩
  · intro place value
    rw [h.placed]
    constructor
    · intro hvalue
      exact ⟨place, rfl, by rw [List.getElem?_map, hvalue]; rfl⟩
    · rintro ⟨other, hplace, hvalue⟩
      obtain rfl : place = other := by omega
      rw [List.getElem?_map, Option.map_eq_some_iff] at hvalue
      obtain ⟨v, hv, hsame⟩ := hvalue
      cases hsame
      exact hv

/-- A promise that is awaited may resolve, and a loop whose promises all have goes on. -/
theorem Running.goes_on {steps : ℕ} {batch : ℤ} {result : List α} {pending : List ℕ}
    {c : Configuration (RangeState α) (RangeThread α)}
    (h : call.Running steps batch result pending c) (hnone : inProgress c.threads = 0) :
    ((call.program α).step c (.resume 0 .settled)).isSome = true := by
  have hthreads := h.threads
  rw [hthreads, inProgress_running, List.length_eq_zero_iff] at hnone
  subst hnone
  have hall : ∀ place ∈ c.shared.batchResult, ∃ value, place = some value := by
    intro place hplace
    obtain ⟨position, hposition⟩ := List.getElem?_of_mem hplace
    cases place with
    | some value => exact ⟨value, rfl⟩
    | none =>
      have habsurd := (h.mem_pending position).2 hposition
      simp at habsurd
  obtain ⟨values, hvalues⟩ : ∃ values, c.shared.batchResult.mapM id = some values := by
    generalize c.shared.batchResult = places at hall
    induction places with
    | nil => exact ⟨[], rfl⟩
    | cons place places ih =>
      obtain ⟨value, rfl⟩ := hall place (by simp)
      obtain ⟨values, hvalues⟩ := ih fun p hp => hall p (List.mem_cons_of_mem _ hp)
      refine ⟨value :: values, ?_⟩
      rw [List.mapM_cons, hvalues]
      rfl
  have hresume : call.resume c.shared (.batch batch result) .settled =
      some (call.runBatch (batch + 1) (result ++ values) c.shared) := by
    unfold resume
    rw [hvalues]
    rfl
  unfold Program.step
  rw [hthreads]
  simp only [List.map_nil, List.nil_append, List.getElem?_cons_zero]
  show (Option.bind (call.resume c.shared (.batch batch result) .settled) _).isSome = true
  rw [hresume]
  rfl

theorem callback_resolves {c : Configuration (RangeState α) (RangeThread α)} {position : ℕ}
    {index : ℤ} (h : .callback position index ∈ c.threads) (value : α) :
    ∃ place, ((call.program α).step c (.resume place (.resolved value))).isSome = true := by
  obtain ⟨place, hplace⟩ := List.getElem?_of_mem h
  refine ⟨place, ?_⟩
  show (Option.bind c.threads[place]? _).isSome = true
  rw [hplace]
  rfl

/-- **Batches.** In whatever order the promises resolve, and with whatever values. -/
theorem traversal (call : RangeCall) (hle : call.start ≤ call.stop) (hsize : 1 ≤ call.batchSize)
    {moves : List (Move Empty (RangeAnswer α))} {c : Configuration (RangeState α) (RangeThread α)}
    (hrun : (call.program α).run (fun _ _ => true) (call.begun α) moves = some c) :
    call.Orderly c ∧ (moves.length : ℤ) ≤ 2 * (call.stop - call.start) ∧
      (∀ position index, .callback position index ∈ c.threads → ∀ value, ∃ place,
        ((call.program α).step c (.resume place (.resolved value))).isSome = true) ∧
      (inProgress c.threads = 0 →
        ((call.program α).step c (.resume 0 .settled)).isSome = true ∨
        c.threads = [] ∧ ∃ result, call.Returned result c) := by
  have hinv := Program.run_counted (J := call.Inv)
    (fun _ _ _ _ hc hstep => inv_step hsize hc hstep) moves (inv_begun hle hsize) hrun
  rw [Nat.zero_add] at hinv
  rcases hinv with ⟨batch, result, pending, hrunning⟩ | ⟨result, hfinished⟩
  · refine ⟨hrunning.orderly, ?_, fun _ _ => callback_resolves, fun hnone =>
      Or.inl (hrunning.goes_on hnone)⟩
    have hsteps := hrunning.steps_eq
    have hresult := hrunning.length
    have hbatch := hrunning.batch_length
    have hcount := hrunning.batch_le
    unfold batchSlotTo batchSlotFrom at hbatch
    omega
  · exact ⟨hfinished.orderly hsize, hfinished.steps_le, fun _ _ => callback_resolves,
      fun _ => Or.inr ⟨hfinished.threads, result, hfinished.returned⟩⟩

/-- Three indexes in batches of two; the promises of the first batch resolve from the last. -/
def threeMoves : List (Move Empty (RangeAnswer ℕ)) :=
  [.resume 1 (.resolved 50), .resume 0 (.resolved 40), .resume 0 .settled,
    .resume 0 (.resolved 60), .resume 0 .settled]

theorem three_run : ((((RangeCall.mk 4 7 2).program ℕ).run (fun _ _ => true)
    ((RangeCall.mk 4 7 2).begun ℕ) threeMoves)).isSome = true := by
  decide +kernel

theorem traversal_three :
    (Option.get _ three_run).shared.settled.bind Except.toOption = some [40, 50, 60] ∧
    (RangeCall.mk 4 7 2).Orderly (Option.get _ three_run) :=
  ⟨by decide +kernel,
    (traversal (RangeCall.mk 4 7 2) (by decide) (by decide) (Option.some_get three_run).symm).1⟩

/-- A callback whose promises resolve with what a pass over the range computes. -/
theorem Returned.eq_rangePromise {start stop batchSize : ℕ} {result : List α}
    {c : Configuration (RangeState α) (RangeThread α)} {callback : ℕ → Except String α}
    (h : (RangeCall.mk start stop batchSize).Returned result c) (hle : start ≤ stop)
    (hsize : 0 < batchSize)
    (hvalues : ∀ (index : ℕ) value, .completed (index : ℤ) value ∈ c.shared.history →
      callback index = .ok value) :
    CouncilDaemon.rangePromise callback start stop batchSize = .ok result := by
  have hlength : result.length = stop - start := by
    have hlength := h.length
    simp only at hlength
    omega
  have hvalue : ∀ (place : ℕ) value, result[place]? = some value →
      callback (start + place) = .ok value := by
    intro place value hplace
    refine hvalues (start + place) value ?_
    push_cast
    exact (h.values place value).1 hplace
  obtain ⟨values, hmapM⟩ : ∃ values, (List.range' start (stop - start)).mapM callback = .ok values := by
    refine mapM_of_forall_ok fun index hindex => ?_
    obtain ⟨i, hi, rfl⟩ := List.mem_range'.1 hindex
    rw [one_mul]
    exact ⟨_, hvalue i _ (List.getElem?_eq_getElem (hlength ▸ hi))⟩
  have hpass := mapM_ok hmapM
  have hsame : values = result := by
    refine List.ext_getElem ?_ fun place h₁ h₂ => ?_
    · rw [← hpass.length_eq, List.length_range', hlength]
    · have hplace := (List.forall₂_iff_get.1 hpass).2 place (by rw [hpass.length_eq]; exact h₁) h₁
      simp only [List.get_eq_getElem, List.getElem_range', one_mul] at hplace
      rw [hvalue place _ (List.getElem?_eq_getElem h₂)] at hplace
      exact (Except.ok.inj hplace).symm
  rw [rangePromise_eq callback hle hsize, hmapM, hsame]

variable {allowed : Configuration (RangeState α) (RangeThread α) → Move Empty (RangeAnswer α) → Prop}
  {c : Configuration (RangeState α) (RangeThread α)}

/-- A call that has returned has the values of its indexes. -/
theorem returned_of_settled (hle : call.start ≤ call.stop) (hsize : 0 < call.batchSize)
    (h : (call.program α).Reachable allowed (call.begun α) c) {result : List α}
    (hsettled : c.shared.settled = some (.ok result)) : call.Returned result c := by
  obtain ⟨steps, hinv⟩ := h.invariant (J := fun c => ∃ steps, call.Inv steps c)
    ⟨0, inv_begun hle hsize⟩ fun _ _ _ ⟨steps, hc⟩ _ hstep => ⟨steps + 1, inv_step hsize hc hstep⟩
  rcases hinv with ⟨batch, before, pending, hrunning⟩ | ⟨values, hfinished⟩
  · rw [hrunning.unsettled] at hsettled
    cases hsettled
  · have hvalues := hfinished.settled
    rw [hsettled] at hvalues
    cases hvalues
    exact hfinished.returned

theorem mem_runBatch {batch : ℤ} {result : List α} {s : RangeState α} {index : ℤ} {value : α}
    (h : .completed index value ∈ (call.runBatch batch result s).1.history) :
    .completed index value ∈ s.history := by
  unfold runBatch at h
  split_ifs at h
  · simpa using h
  · exact h

/-- The values are those that the promises may resolve with. -/
theorem completed_of_allowed {P : ℤ → α → Prop}
    (hallowed : ∀ c place value, allowed c (.resume place (.resolved value)) → ∀ position index,
      c.threads[place]? = some (.callback position index) → P index value)
    (h : (call.program α).Reachable allowed (call.begun α) c) {index : ℤ} {value : α}
    (hcompleted : .completed index value ∈ c.shared.history) : P index value := by
  have hall := h.invariant (J := fun c => ∀ index value,
    .completed index value ∈ c.shared.history → P index value) ?_ ?_
  · exact hall index value hcompleted
  · intro index value hmem
    unfold begun rangePromise at hmem
    split_ifs at hmem
    · cases hmem
    · cases hmem
    · cases mem_runBatch hmem
  · intro c c' move hc hmove hstep index value hmem
    rcases Program.step_cases hstep with ⟨begin, _⟩ |
      ⟨before, thread, after, answer, next, rfl, hthreads, hnext, rfl⟩
    · exact nomatch begin
    · cases thread with
      | callback position other =>
        cases answer with
        | settled => cases hnext
        | resolved resolved =>
          cases hnext
          rcases List.mem_cons.1 hmem with hnew | hold
          · cases hnew
            refine hallowed c before.length value hmove position index ?_
            rw [hthreads]
            simp
          · exact hc index value hold
      | batch batch result =>
        cases answer with
        | resolved resolved => cases hnext
        | settled =>
          obtain ⟨values, hvalues, rfl⟩ := Option.map_eq_some_iff.1 hnext
          exact hc index value (mem_runBatch hmem)

end RangeCall

end Batched

end CouncilDaemon
