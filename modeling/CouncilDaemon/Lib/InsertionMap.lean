import Mathlib

/-!
# Maps in insertion order

An `InsertionMap κ ν` is a finite map whose entries are listed in the order in which their keys were
first set; setting a key again keeps its place. A loop that updates the entry of each item's key is,
seen at one key, a fold over the items with that key (`get?_foldl_upsert`).
-/

/-- A finite map as the list of its entries, in the order of their first insertion. -/
structure InsertionMap (κ ν : Type*) where
  entries : List (κ × ν)
  nodup : (entries.map Prod.fst).Nodup

namespace InsertionMap

variable {κ ν α : Type*} [DecidableEq κ]

/-- The map without entries. -/
def empty : InsertionMap κ ν := ⟨[], List.nodup_nil⟩

/-- The value under `k` in a list of entries. -/
def find (k : κ) : List (κ × ν) → Option ν
  | [] => none
  | e :: es => if e.1 = k then some e.2 else find k es

/-- The value under `k`. -/
def get? (m : InsertionMap κ ν) (k : κ) : Option ν := find k m.entries

/-- The entries with `v` under `k`. -/
def setEntry (k : κ) (v : ν) : List (κ × ν) → List (κ × ν)
  | [] => [(k, v)]
  | e :: es => if e.1 = k then (k, v) :: es else e :: setEntry k v es

theorem map_fst_setEntry (k : κ) (v : ν) : ∀ es : List (κ × ν),
    (setEntry k v es).map Prod.fst =
      if k ∈ es.map Prod.fst then es.map Prod.fst else es.map Prod.fst ++ [k] := by
  intro es
  induction es with
  | nil => simp [setEntry]
  | cons e es ih =>
    unfold setEntry
    by_cases h : e.1 = k
    · simp [h]
    · have hne : ¬ k = e.1 := fun heq => h heq.symm
      rw [if_neg h, List.map_cons, ih, List.map_cons]
      simp only [List.mem_cons, hne, false_or]
      split_ifs <;> rfl

/-- `m` with `v` under `k`. -/
def set (m : InsertionMap κ ν) (k : κ) (v : ν) : InsertionMap κ ν where
  entries := setEntry k v m.entries
  nodup := by
    rw [map_fst_setEntry]
    split_ifs with h
    · exact m.nodup
    · exact List.nodup_append.2 ⟨m.nodup, List.nodup_singleton k, by
        intro a ha b hb
        rw [List.mem_singleton.1 hb]
        rintro rfl
        exact h ha⟩

/-- `m` with the value under `k` computed from the one it has. -/
def upsert (m : InsertionMap κ ν) (k : κ) (f : Option ν → ν) : InsertionMap κ ν :=
  m.set k (f (m.get? k))

@[simp] theorem get?_empty (k : κ) : (empty : InsertionMap κ ν).get? k = none := rfl

theorem find_setEntry (k : κ) (v : ν) (k' : κ) : ∀ es : List (κ × ν),
    find k' (setEntry k v es) = if k = k' then some v else find k' es := by
  intro es
  induction es with
  | nil => rfl
  | cons e es ih =>
    unfold setEntry
    by_cases h : e.1 = k
    · subst h
      rw [if_pos rfl, find, find]
      by_cases h' : e.1 = k'
      · simp [h']
      · simp [h']
    · rw [if_neg h, find, find, ih]
      by_cases h' : k = k'
      · have hne : ¬ e.1 = k' := fun heq => h (heq.trans h'.symm)
        simp [h', hne]
      · simp [h']

@[simp] theorem get?_set (m : InsertionMap κ ν) (k : κ) (v : ν) (k' : κ) :
    (m.set k v).get? k' = if k = k' then some v else m.get? k' :=
  find_setEntry k v k' m.entries

theorem get?_upsert (m : InsertionMap κ ν) (k : κ) (f : Option ν → ν) (k' : κ) :
    (m.upsert k f).get? k' = if k = k' then some (f (m.get? k')) else m.get? k' := by
  rw [upsert, get?_set]
  split_ifs with h
  · rw [h]
  · rfl

theorem mem_entries_iff (m : InsertionMap κ ν) {k : κ} {v : ν} :
    (k, v) ∈ m.entries ↔ m.get? k = some v := by
  obtain ⟨es, hnodup⟩ := m
  show (k, v) ∈ es ↔ find k es = some v
  induction es with
  | nil => simp [find]
  | cons e es ih =>
    obtain ⟨hnot, hrest⟩ := List.nodup_cons.1 hnodup
    rw [List.mem_cons, find]
    split_ifs with h
    · constructor
      · rintro (rfl | hmem)
        · rfl
        · exact absurd (h ▸ List.mem_map_of_mem hmem) hnot
      · intro hv
        exact Or.inl (Prod.ext h.symm (Option.some.inj hv).symm)
    · rw [← ih hrest]
      constructor
      · rintro (rfl | hmem)
        · exact absurd rfl h
        · exact hmem
      · exact Or.inr

/-- `m` without an entry under `k`. -/
def erase (m : InsertionMap κ ν) (k : κ) : InsertionMap κ ν where
  entries := m.entries.filter fun e => e.1 ≠ k
  nodup := m.nodup.sublist (List.filter_sublist.map Prod.fst)

theorem find_filter_ne (k k' : κ) : ∀ es : List (κ × ν),
    find k' (es.filter fun e => e.1 ≠ k) = if k = k' then none else find k' es := by
  intro es
  induction es with
  | nil =>
    split_ifs
    · rfl
    · rfl
  | cons e es ih =>
    rw [List.filter_cons, find]
    by_cases h : e.1 = k
    · rw [if_neg (by simp [h]), ih]
      by_cases h' : k = k'
      · rw [if_pos h', if_pos h']
      · rw [if_neg h', if_neg h', if_neg (h ▸ h')]
    · rw [if_pos (by simp [h]), find, ih]
      by_cases h' : e.1 = k'
      · rw [if_pos h', if_pos h', if_neg (fun hk => h (h'.trans hk.symm))]
      · rw [if_neg h', if_neg h']

@[simp] theorem get?_erase (m : InsertionMap κ ν) (k k' : κ) :
    (m.erase k).get? k' = if k = k' then none else m.get? k' :=
  find_filter_ne k k' m.entries

theorem find_append (k : κ) (fs : List (κ × ν)) : ∀ es : List (κ × ν),
    find k (es ++ fs) = (find k es).or (find k fs) := by
  intro es
  induction es with
  | nil => rfl
  | cons e es ih =>
    rw [List.cons_append, find, find, ih]
    split_ifs
    · rfl
    · rfl

theorem find_eq_none {k : κ} {es : List (κ × ν)} (h : k ∉ es.map Prod.fst) : find k es = none := by
  induction es with
  | nil => rfl
  | cons e es ih =>
    rw [List.map_cons, List.mem_cons, not_or] at h
    rw [find, if_neg (Ne.symm h.1), ih h.2]

/-- **Loops.** Seen at one key, a loop of updates is a fold over the items with that key. -/
theorem get?_foldl_upsert (key : α → κ) (f : α → Option ν → ν) (items : List α) (k : κ) :
    ∀ m : InsertionMap κ ν, (items.foldl (fun m a => m.upsert (key a) (f a)) m).get? k =
      (items.filter fun a => key a = k).foldl (fun o a => some (f a o)) (m.get? k) := by
  induction items with
  | nil => intro m; rfl
  | cons a items ih =>
    intro m
    rw [List.foldl_cons, ih, get?_upsert, List.filter_cons]
    by_cases h : key a = k
    · simp [h]
    · simp [h]

/-- The items grouped by their keys. -/
def groupBy (key : α → κ) (items : List α) : InsertionMap κ (List α) :=
  items.foldl (fun m a => m.upsert (key a) fun group => group.getD [] ++ [a]) empty

theorem foldl_append (items : List α) : ∀ group : List α,
    items.foldl (fun o a => some (o.getD [] ++ [a])) (some group) = some (group ++ items) := by
  induction items with
  | nil => intro group; simp
  | cons a items ih =>
    intro group
    rw [List.foldl_cons, Option.getD_some, ih, List.append_assoc, List.singleton_append]

/-- A group is the list of the items with its key. -/
theorem get?_groupBy (key : α → κ) (items : List α) (k : κ) :
    (groupBy key items).get? k =
      if (items.filter fun a => key a = k) = [] then none
      else some (items.filter fun a => key a = k) := by
  rw [groupBy, get?_foldl_upsert, get?_empty]
  cases items.filter fun a => key a = k with
  | nil => rfl
  | cons a group =>
    rw [List.foldl_cons, Option.getD_none, List.nil_append, foldl_append]
    rfl

theorem mem_groupBy (key : α → κ) {items : List α} {k : κ} {group : List α} :
    (k, group) ∈ (groupBy key items).entries ↔
      group ≠ [] ∧ group = items.filter fun a => key a = k := by
  rw [mem_entries_iff, get?_groupBy]
  split_ifs with h
  · simp [h]
  · constructor
    · rintro ⟨rfl⟩
      exact ⟨h, rfl⟩
    · rintro ⟨_, rfl⟩
      rfl

end InsertionMap
