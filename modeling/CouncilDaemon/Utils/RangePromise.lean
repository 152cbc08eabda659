import Mathlib

/-!
# Ranges of promises

`rangePromise` runs a callback over a range of numbers in batches. Its result is that of running the
callback over the whole range in order (`rangePromise_eq`), so over the indexes of a list it is a
pass over the list (`rangePromise_getElem`).
-/

namespace CouncilDaemon

/-- `range`: from `start` up to `stop` or down to it, `stop` excluded. -/
def range (start stop : ℕ) : List ℕ :=
  if start < stop then List.range' start (stop - start)
  else (List.range (start - stop)).map fun i => start - i

variable {α β : Type}

/-- The loop of `rangePromise` over the batches. -/
def rangeBatches (callback : ℕ → Except String α) (start stop batchSize : ℕ) :
    List ℕ → List α → Except String (List α)
  | [], result => .ok result
  | batch :: batches, result => do
    let batchSlotFrom := start + batch * batchSize
    let batchSlotTo := min (batchSlotFrom + batchSize) stop
    let batchResult ← (range batchSlotFrom batchSlotTo).mapM callback
    rangeBatches callback start stop batchSize batches (result ++ batchResult)

def rangePromise (callback : ℕ → Except String α) (start stop : ℕ) (batchSize : ℕ := 20) :
    Except String (List α) :=
  if stop < start then .error "From should be less than to"
  else if batchSize = 0 then .error "batchSize should be greater than 0"
  else rangeBatches callback start stop batchSize
    (List.range ((stop - start + batchSize - 1) / batchSize)) []

theorem range_of_le {start stop : ℕ} (h : start ≤ stop) :
    range start stop = List.range' start (stop - start) := by
  unfold range
  split_ifs with hlt
  · rfl
  · obtain rfl : start = stop := by omega
    simp

/-- The numbers of one batch. -/
def batchSlot (start stop batchSize batch : ℕ) : List ℕ :=
  range (start + batch * batchSize) (min (start + batch * batchSize + batchSize) stop)

/-- The batches, one after the other, are the range. -/
theorem flatMap_batchSlot (start stop batchSize : ℕ) : ∀ n,
    (∀ batch < n, batch * batchSize < stop - start) →
    (List.range n).flatMap (batchSlot start stop batchSize) =
      List.range' start (min (n * batchSize) (stop - start)) := by
  intro n
  induction n with
  | zero => intro _; simp
  | succ n ih =>
    intro hn
    have hlast := hn n (Nat.lt_succ_self n)
    rw [List.range_succ, List.flatMap_append, ih fun batch hb => hn batch (Nat.lt_succ_of_lt hb),
      List.flatMap_singleton, batchSlot, range_of_le (by omega), Nat.min_eq_left hlast.le,
      List.range'_append_1, Nat.succ_mul]
    congr 1
    omega

theorem rangeBatches_eq (callback : ℕ → Except String α) (start stop batchSize : ℕ)
    (batches : List ℕ) : ∀ result, rangeBatches callback start stop batchSize batches result =
      ((batches.flatMap (batchSlot start stop batchSize)).mapM callback).map (result ++ ·) := by
  induction batches with
  | nil => intro result; simp [rangeBatches, Except.map, pure, Except.pure]
  | cons batch batches ih =>
    intro result
    rw [rangeBatches, List.flatMap_cons, List.mapM_append, batchSlot]
    cases (range (start + batch * batchSize)
        (min (start + batch * batchSize + batchSize) stop)).mapM callback with
    | error e => rfl
    | ok batchResult =>
      show rangeBatches callback start stop batchSize batches (result ++ batchResult) = _
      rw [ih]
      cases (batches.flatMap (batchSlot start stop batchSize)).mapM callback with
      | error e => rfl
      | ok rest => simp [Except.map, bind, Except.bind, pure, Except.pure]

/-- **Batches.** A range of promises is a pass over the range. -/
theorem rangePromise_eq (callback : ℕ → Except String α) {start stop batchSize : ℕ}
    (h : start ≤ stop) (hsize : 0 < batchSize) :
    rangePromise callback start stop batchSize =
      (List.range' start (stop - start)).mapM callback := by
  have hdiv := Nat.div_add_mod (stop - start + batchSize - 1) batchSize
  have hmod := Nat.mod_lt (stop - start + batchSize - 1) hsize
  rw [Nat.mul_comm] at hdiv
  have hbatches : ∀ batch < (stop - start + batchSize - 1) / batchSize,
      batch * batchSize < stop - start := by
    intro batch hb
    have hle := Nat.mul_le_mul_right batchSize (Nat.succ_le_of_lt hb)
    rw [Nat.succ_mul] at hle
    omega
  unfold rangePromise
  rw [if_neg (not_lt.2 h), if_neg hsize.ne', rangeBatches_eq, flatMap_batchSlot _ _ _ _ hbatches,
    Nat.min_eq_right (by omega)]
  cases (List.range' start (stop - start)).mapM callback with
  | error e => rfl
  | ok result => simp [Except.map]

theorem mapM_getElem (f : β → Except String α) (e : String) (rest : List β) : ∀ front : List β,
    (List.range' front.length rest.length).mapM
      (fun index => (front ++ rest)[index]?.elim (.error e) f) = rest.mapM f := by
  induction rest with
  | nil => intro front; rfl
  | cons item rest ih =>
    intro front
    have hnext := ih (front ++ [item])
    rw [List.append_assoc, List.singleton_append, List.length_append, List.length_singleton] at hnext
    rw [List.length_cons, List.range'_succ, List.mapM_cons, List.mapM_cons, hnext]
    simp

/-- Over the indexes of a list, a range of promises is a pass over the list. -/
theorem rangePromise_getElem (f : β → Except String α) (e : String) (items : List β)
    {batchSize : ℕ} (hsize : 0 < batchSize) :
    rangePromise (fun index => items[index]?.elim (.error e) f) 0 items.length batchSize =
      items.mapM f := by
  rw [rangePromise_eq _ (Nat.zero_le _) hsize]
  exact mapM_getElem f e items []

/-- A pass that returns has a result for each item, in order. -/
theorem mapM_ok {f : β → Except String α} : ∀ {items : List β} {result : List α},
    items.mapM f = .ok result → List.Forall₂ (fun item r => f item = .ok r) items result := by
  intro items
  induction items with
  | nil =>
    intro result h
    cases h
    exact List.Forall₂.nil
  | cons item items ih =>
    intro result h
    rw [List.mapM_cons] at h
    cases hitem : f item with
    | error message => rw [hitem] at h; cases h
    | ok r =>
      rw [hitem] at h
      cases hrest : items.mapM f with
      | error message => rw [hrest] at h; cases h
      | ok rest =>
        rw [hrest] at h
        cases h
        exact List.Forall₂.cons hitem (ih hrest)

theorem mem_of_forall₂ {R : α → β → Prop} {as : List α} {bs : List β}
    (h : List.Forall₂ R as bs) : (∀ a ∈ as, ∃ b ∈ bs, R a b) ∧ ∀ b ∈ bs, ∃ a ∈ as, R a b := by
  induction h with
  | nil => simp
  | @cons a b as bs hab _ ih =>
    obtain ⟨hleft, hright⟩ := ih
    refine ⟨?_, ?_⟩
    · intro x hx
      rcases List.mem_cons.1 hx with rfl | hx
      · exact ⟨b, List.mem_cons_self .., hab⟩
      · obtain ⟨y, hy, hxy⟩ := hleft x hx
        exact ⟨y, List.mem_cons_of_mem _ hy, hxy⟩
    · intro y hy
      rcases List.mem_cons.1 hy with rfl | hy
      · exact ⟨a, List.mem_cons_self .., hab⟩
      · obtain ⟨x, hx, hxy⟩ := hright y hy
        exact ⟨x, List.mem_cons_of_mem _ hx, hxy⟩

/-- A pass over items whose calls all return returns. -/
theorem mapM_of_forall_ok {f : β → Except String α} : ∀ {items : List β},
    (∀ item ∈ items, ∃ r, f item = .ok r) → ∃ result, items.mapM f = .ok result := by
  intro items
  induction items with
  | nil => intro _; exact ⟨[], rfl⟩
  | cons item items ih =>
    intro h
    obtain ⟨r, hr⟩ := h item (List.mem_cons_self ..)
    obtain ⟨rest, hrest⟩ := ih fun i hi => h i (List.mem_cons_of_mem _ hi)
    refine ⟨r :: rest, ?_⟩
    rw [List.mapM_cons, hr, hrest]
    rfl

end CouncilDaemon
