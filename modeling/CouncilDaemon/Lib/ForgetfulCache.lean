import CouncilDaemon.Lib.InsertionMap

/-!
# Caches that forget

A bounded cache returns what was last stored under a key, or nothing: it may forget an entry at any
time, but never makes one up. Whatever holds of every stored entry holds of every entry it returns
(`Sound`). The cache of the recently used entries is one (`lru`).
-/

/-- A cache of values `ν` under keys `κ`; reading may change what is forgotten next. -/
structure ForgetfulCache (κ ν : Type) where
  State : Type
  /-- An empty cache of a given capacity. -/
  create : (max : ℕ) → State
  get : State → κ → Option ν × State
  set : State → κ → ν → State
  get_create : ∀ max k, (get (create max) k).1 = none
  get_get : ∀ s k k' v, (get (get s k).2 k').1 = some v → (get s k').1 = some v
  get_set : ∀ s k v k' v', (get (set s k v) k').1 = some v' →
    k' = k ∧ v' = v ∨ (get s k').1 = some v'

namespace ForgetfulCache

variable {κ ν : Type}

section Sound

variable (C : ForgetfulCache κ ν) {P : κ → ν → Prop} {s : C.State}

/-- Every entry that the cache returns satisfies `P`. -/
def Sound (P : κ → ν → Prop) (s : C.State) : Prop := ∀ k v, (C.get s k).1 = some v → P k v

theorem sound_create (P : κ → ν → Prop) (max : ℕ) : C.Sound P (C.create max) := by
  intro k v h
  rw [C.get_create] at h
  cases h

theorem Sound.get {C : ForgetfulCache κ ν} {s : C.State} (h : C.Sound P s) (k : κ) :
    C.Sound P (C.get s k).2 :=
  fun k' v hget => h k' v (C.get_get s k k' v hget)

theorem Sound.set {C : ForgetfulCache κ ν} {s : C.State} (h : C.Sound P s) {k : κ} {v : ν}
    (hkv : P k v) : C.Sound P (C.set s k v) := by
  intro k' v' hget
  rcases C.get_set s k v k' v' hget with ⟨rfl, rfl⟩ | hget
  · exact hkv
  · exact h k' v' hget

/-- Entries stored one after the other. -/
def setAll (s : C.State) (entries : List (κ × ν)) : C.State :=
  entries.foldl (fun s entry => C.set s entry.1 entry.2) s

theorem Sound.setAll {C : ForgetfulCache κ ν} (entries : List (κ × ν)) : ∀ {s : C.State},
    C.Sound P s → (∀ entry ∈ entries, P entry.1 entry.2) → C.Sound P (C.setAll s entries) := by
  induction entries with
  | nil => intro s h _; exact h
  | cons entry entries ih =>
    intro s h hentries
    exact ih (h.set (hentries entry (List.mem_cons_self ..)))
      fun e he => hentries e (List.mem_cons_of_mem _ he)

end Sound

/-! ## Other keys -/

/-- The cache under keys `κ'`, each kept under a key of its own. -/
def comap {κ' : Type} (C : ForgetfulCache κ ν) (f : κ' → κ) (hf : Function.Injective f) :
    ForgetfulCache κ' ν where
  State := C.State
  create := C.create
  get s k := C.get s (f k)
  set s k v := C.set s (f k) v
  get_create max k := C.get_create max (f k)
  get_get s k k' v h := C.get_get s (f k) (f k') v h
  get_set s k v k' v' h := by
    rcases C.get_set s (f k) v (f k') v' h with ⟨hk, hv⟩ | hget
    · exact Or.inl ⟨hf hk, hv⟩
    · exact Or.inr hget

/-! ## Recently used entries -/

section Lru

open InsertionMap (find)

variable [DecidableEq κ]

/-- The entries under other keys. -/
def erase (k : κ) (es : List (κ × ν)) : List (κ × ν) := es.filter fun e => e.1 ≠ k

theorem find_erase (k k' : κ) (es : List (κ × ν)) :
    find k' (erase k es) = if k = k' then none else find k' es := by
  induction es with
  | nil => simp [erase, find]
  | cons e es ih =>
    rw [erase, List.filter_cons]
    by_cases he : e.1 = k
    · subst he
      rw [if_neg (by simp)]
      show find k' (erase e.1 es) = _
      rw [ih, find]
      split_ifs <;> rfl
    · rw [if_pos (by simpa using he)]
      show find k' (e :: erase k es) = _
      rw [find, find, ih]
      by_cases hk : k = k'
      · subst hk
        simp [he]
      · simp [hk]

theorem find_take {k : κ} {v : ν} : ∀ {n : ℕ} {es : List (κ × ν)},
    find k (es.take n) = some v → find k es = some v := by
  intro n es
  induction es generalizing n with
  | nil => simp [find]
  | cons e es ih =>
    cases n with
    | zero => intro h; cases h
    | succ n =>
      rw [List.take_succ_cons, find, find]
      split_ifs with he
      · exact id
      · exact ih

/-- A cache of bounded size that drops the entry not read or stored for the longest time. -/
def lru : ForgetfulCache κ ν where
  State := ℕ × List (κ × ν)
  create max := (max, [])
  get s k := (find k s.2, (find k s.2).elim s fun v => (s.1, (k, v) :: erase k s.2))
  set s k v := (s.1, ((k, v) :: erase k s.2).take s.1)
  get_create _ _ := rfl
  get_get := by
    intro s k k' v
    cases hk : find k s.2 with
    | none => exact id
    | some v₀ =>
      show find k' ((k, v₀) :: erase k s.2) = some v → find k' s.2 = some v
      rw [find, find_erase]
      split_ifs with heq
      · rw [← heq, hk]
        exact id
      · exact id
  get_set := by
    intro s k v k' v' h
    have hfind : find k' ((k, v) :: erase k s.2) = some v' := find_take h
    rw [find, find_erase] at hfind
    split_ifs at hfind with heq
    · exact Or.inl ⟨heq.symm, (Option.some.inj hfind).symm⟩
    · exact Or.inr hfind

end Lru

end ForgetfulCache
