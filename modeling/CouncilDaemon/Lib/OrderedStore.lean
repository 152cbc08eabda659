import Mathlib

/-!
# Ordered key-value stores with atomic batches

An `OrderedStore κ ν` is a finite map kept as a list of entries in increasing key order, so that an
iterator over a key range yields its entries in key order. A batch is a list of operations applied
at once.

Two stores with the same values are equal (`ext_get?`), and a range is determined by what it
contains (`range_eq`).
-/

/-- A finite map as a list of entries with strictly increasing keys. -/
structure OrderedStore (κ ν : Type*) [LinearOrder κ] where
  entries : List (κ × ν)
  sorted : entries.Pairwise fun a b => a.1 < b.1

namespace OrderedStore

variable {κ ν : Type*} [LinearOrder κ]

/-- The store without entries. -/
def empty : OrderedStore κ ν := ⟨[], List.Pairwise.nil⟩

/-- The value under `k` in a list of entries. -/
def find (k : κ) : List (κ × ν) → Option ν
  | [] => none
  | e :: es => if e.1 = k then some e.2 else find k es

/-- The value under `k`. -/
def get? (s : OrderedStore κ ν) (k : κ) : Option ν := find k s.entries

/-- The entries with `(k, v)` put in its place. -/
def insertEntry (k : κ) (v : ν) : List (κ × ν) → List (κ × ν)
  | [] => [(k, v)]
  | e :: es =>
    if k < e.1 then (k, v) :: e :: es
    else if k = e.1 then (k, v) :: es
    else e :: insertEntry k v es

theorem mem_insertEntry {k : κ} {v : ν} {e : κ × ν} :
    ∀ {es : List (κ × ν)}, e ∈ insertEntry k v es → e = (k, v) ∨ e ∈ es := by
  intro es
  induction es with
  | nil => intro h; simpa [insertEntry] using h
  | cons a es ih =>
    intro h
    unfold insertEntry at h
    split_ifs at h with h1 h2
    · simpa using h
    · rcases List.mem_cons.1 h with rfl | h
      · exact Or.inl rfl
      · exact Or.inr (List.mem_cons_of_mem _ h)
    · rcases List.mem_cons.1 h with rfl | h
      · exact Or.inr List.mem_cons_self
      · rcases ih h with h | h
        · exact Or.inl h
        · exact Or.inr (List.mem_cons_of_mem _ h)

theorem sorted_insertEntry (k : κ) (v : ν) :
    ∀ {es : List (κ × ν)}, es.Pairwise (fun a b => a.1 < b.1) →
      (insertEntry k v es).Pairwise fun a b => a.1 < b.1 := by
  intro es
  induction es with
  | nil => intro _; simp [insertEntry]
  | cons a es ih =>
    intro h
    obtain ⟨ha, hes⟩ := List.pairwise_cons.1 h
    unfold insertEntry
    split_ifs with h1 h2
    · refine List.pairwise_cons.2 ⟨fun b hb => ?_, h⟩
      rcases List.mem_cons.1 hb with rfl | hb
      · exact h1
      · exact lt_trans h1 (ha b hb)
    · exact List.pairwise_cons.2 ⟨fun b hb => h2 ▸ ha b hb, hes⟩
    · refine List.pairwise_cons.2 ⟨fun b hb => ?_, ih hes⟩
      rcases mem_insertEntry hb with rfl | hb
      · exact lt_of_le_of_ne (not_lt.1 h1) (Ne.symm h2)
      · exact ha b hb

/-- `s` with `v` under `k`. -/
def put (s : OrderedStore κ ν) (k : κ) (v : ν) : OrderedStore κ ν :=
  ⟨insertEntry k v s.entries, sorted_insertEntry k v s.sorted⟩

/-- `s` without `k`. -/
def del (s : OrderedStore κ ν) (k : κ) : OrderedStore κ ν :=
  ⟨s.entries.filter fun e => e.1 ≠ k, s.sorted.filter _⟩

/-- The entries whose keys satisfy `p`, in key order. -/
def range (s : OrderedStore κ ν) (p : κ → Bool) : List (κ × ν) := s.entries.filter fun e => p e.1

/-! ## Values -/

@[simp] theorem get?_empty (k : κ) : (empty : OrderedStore κ ν).get? k = none := rfl

theorem find_eq_none {k : κ} {es : List (κ × ν)} (h : ∀ e ∈ es, e.1 ≠ k) : find k es = none := by
  induction es with
  | nil => rfl
  | cons a es ih =>
    rw [find, if_neg (h a List.mem_cons_self)]
    exact ih fun e he => h e (List.mem_cons_of_mem _ he)

theorem find_insertEntry (k : κ) (v : ν) (k' : κ) :
    ∀ es : List (κ × ν), find k' (insertEntry k v es) = if k = k' then some v else find k' es := by
  intro es
  induction es with
  | nil => simp [insertEntry, find]
  | cons a es ih =>
    unfold insertEntry
    by_cases h1 : k < a.1
    · rw [if_pos h1, find]
    · rw [if_neg h1]
      by_cases h2 : k = a.1
      · rw [if_pos h2, find, find, ← h2]
        by_cases h3 : k = k'
        · simp [h3]
        · simp [h3]
      · rw [if_neg h2, find, find, ih]
        by_cases h3 : k = k'
        · have hne : a.1 ≠ k' := fun e => h2 (h3.trans e.symm)
          simp [h3, hne]
        · simp [h3]

theorem find_filter (k k' : κ) (h : k ≠ k') :
    ∀ es : List (κ × ν), find k' (es.filter fun e => e.1 ≠ k) = find k' es := by
  intro es
  induction es with
  | nil => rfl
  | cons a es ih =>
    by_cases ha : a.1 = k
    · rw [List.filter_cons_of_neg (by simpa using ha), ih, find, if_neg fun e => h (ha ▸ e)]
    · rw [List.filter_cons_of_pos (by simpa using ha), find, find, ih]

@[simp] theorem get?_put (s : OrderedStore κ ν) (k : κ) (v : ν) (k' : κ) :
    (s.put k v).get? k' = if k = k' then some v else s.get? k' :=
  find_insertEntry k v k' s.entries

@[simp] theorem get?_del (s : OrderedStore κ ν) (k k' : κ) :
    (s.del k).get? k' = if k = k' then none else s.get? k' := by
  unfold get? del
  split_ifs with h
  · subst h
    exact find_eq_none fun e he => by simpa using (List.mem_filter.1 he).2
  · exact find_filter k k' h s.entries

theorem mem_iff_find {k : κ} {v : ν} :
    ∀ {es : List (κ × ν)}, es.Pairwise (fun a b => a.1 < b.1) →
      ((k, v) ∈ es ↔ find k es = some v) := by
  intro es
  induction es with
  | nil => intro _; simp [find]
  | cons a es ih =>
    intro hs
    obtain ⟨ha, hes⟩ := List.pairwise_cons.1 hs
    rw [List.mem_cons, find]
    split_ifs with h
    · constructor
      · rintro (rfl | hm)
        · rfl
        · exact absurd (ha _ hm) (by simp [h])
      · intro hv
        exact Or.inl (Prod.ext h.symm (Option.some.inj hv).symm)
    · rw [← ih hes]
      constructor
      · rintro (rfl | hm)
        · exact absurd rfl h
        · exact hm
      · exact Or.inr

theorem mem_entries_iff (s : OrderedStore κ ν) {k : κ} {v : ν} :
    (k, v) ∈ s.entries ↔ s.get? k = some v :=
  mem_iff_find s.sorted

theorem mem_range_iff (s : OrderedStore κ ν) (p : κ → Bool) {k : κ} {v : ν} :
    (k, v) ∈ s.range p ↔ s.get? k = some v ∧ p k = true := by
  unfold range
  rw [List.mem_filter, s.mem_entries_iff]

/-- A range is the sorted list of the entries it contains. -/
theorem range_eq (s : OrderedStore κ ν) (p : κ → Bool) {l : List (κ × ν)}
    (hl : l.Pairwise fun a b => a.1 < b.1)
    (h : ∀ k v, (k, v) ∈ l ↔ s.get? k = some v ∧ p k = true) : s.range p = l := by
  have hirr : Std.Irrefl fun a b : κ × ν => a.1 < b.1 := ⟨fun a => lt_irrefl a.1⟩
  have hasymm : Std.Asymm fun a b : κ × ν => a.1 < b.1 := ⟨fun a b => lt_asymm⟩
  refine List.Pairwise.eq_of_mem_iff (s.sorted.filter _) hl fun e => ?_
  obtain ⟨k, v⟩ := e
  exact (s.mem_range_iff p).trans (h k v).symm

/-- A store is determined by its values. -/
theorem ext_get? {s t : OrderedStore κ ν} (h : ∀ k, s.get? k = t.get? k) : s = t := by
  have e : s.entries = t.entries := by
    have hs := s.range_eq (fun _ => true) t.sorted fun k v => by
      rw [t.mem_entries_iff, h k]; simp
    simpa [range] using hs
  cases s with
  | mk es _ => cases t with
    | mk es' _ => subst e; rfl

/-! ## Batches -/

/-- One operation of a batch. -/
inductive Op (κ ν : Type*) where
  | put (key : κ) (value : ν)
  | del (key : κ)

/-- The key an operation writes. -/
def Op.key : Op κ ν → κ
  | put k _ => k
  | del k => k

/-- The value an operation leaves under its key. -/
def Op.value : Op κ ν → Option ν
  | put _ v => some v
  | del _ => none

/-- One operation. -/
def apply (s : OrderedStore κ ν) : Op κ ν → OrderedStore κ ν
  | .put k v => s.put k v
  | .del k => s.del k

/-- A batch: its operations in order, all at once. -/
def batch (s : OrderedStore κ ν) (ops : List (Op κ ν)) : OrderedStore κ ν := ops.foldl apply s

theorem get?_apply (s : OrderedStore κ ν) (op : Op κ ν) (k : κ) :
    (s.apply op).get? k = if op.key = k then op.value else s.get? k := by
  cases op with
  | put k' v => exact s.get?_put k' v k
  | del k' => exact s.get?_del k' k

/-- A batch leaves the keys it does not write. -/
theorem get?_batch_of_not_mem {ops : List (Op κ ν)} {k : κ} (h : ∀ op ∈ ops, op.key ≠ k)
    (s : OrderedStore κ ν) : (s.batch ops).get? k = s.get? k := by
  induction ops generalizing s with
  | nil => rfl
  | cons op ops ih =>
    show ((s.apply op).batch ops).get? k = _
    rw [ih (fun o ho => h o (List.mem_cons_of_mem _ ho)), get?_apply,
      if_neg (h op List.mem_cons_self)]

/-- A key that a batch writes one value to holds that value. -/
theorem get?_batch_of_mem {ops : List (Op κ ν)} {op : Op κ ν} (hop : op ∈ ops)
    (h : ∀ op' ∈ ops, op'.key = op.key → op'.value = op.value) (s : OrderedStore κ ν) :
    (s.batch ops).get? op.key = op.value := by
  induction ops generalizing s op with
  | nil => cases hop
  | cons o ops ih =>
    show ((s.apply o).batch ops).get? op.key = _
    have hops : ∀ op' ∈ ops, op'.key = op.key → op'.value = op.value :=
      fun op' ho => h op' (List.mem_cons_of_mem _ ho)
    by_cases hlater : ∃ op' ∈ ops, op'.key = op.key
    · -- a later operation of the batch writes the key again, with the same value
      obtain ⟨op', hm, hk⟩ := hlater
      have hv : op'.value = op.value := hops op' hm hk
      rw [← hk, ← hv]
      exact ih hm (fun o' ho' hk' => (hops o' ho' (hk'.trans hk)).trans hv.symm) (s.apply o)
    · have hnot : ∀ op' ∈ ops, op'.key ≠ op.key := fun op' hm hk => hlater ⟨op', hm, hk⟩
      rw [get?_batch_of_not_mem hnot, get?_apply]
      rcases List.mem_cons.1 hop with rfl | hm
      · rw [if_pos rfl]
      · exact absurd rfl (hnot op hm)

theorem batch_append (s : OrderedStore κ ν) (ops ops' : List (Op κ ν)) :
    s.batch (ops ++ ops') = (s.batch ops).batch ops' :=
  List.foldl_append

/-- A batch of deletions. -/
theorem get?_batch_del (s : OrderedStore κ ν) (keys : List κ) (k : κ) :
    (s.batch (keys.map .del)).get? k = if k ∈ keys then none else s.get? k := by
  split_ifs with h
  · exact s.get?_batch_of_mem (List.mem_map_of_mem h) (by simp [Op.value])
  · refine get?_batch_of_not_mem (fun op hop => ?_) s
    obtain ⟨k', hk', rfl⟩ := List.mem_map.1 hop
    rintro rfl
    exact h hk'

end OrderedStore
