import Mathlib

/-!
# Methods of a service

A method of a service reads and changes the service's state and either returns or throws; a throw
keeps the changes made before it. Such methods are computations of `EStateM`, run one after the
other by `do`.
-/

/-- A method over the mutable state `σ`, throwing errors of type `String`. -/
abbrev Service (σ α : Type) : Type := EStateM String σ α

namespace Service

variable {σ τ α β : Type}

/-- The state a method leaves, whether it returned or threw. -/
def after : EStateM.Result String σ α → σ
  | .ok _ s => s
  | .error _ s => s

@[simp] theorem after_ok (a : α) (s : σ) : after (.ok a s : EStateM.Result String σ α) = s := rfl

@[simp] theorem after_error (e : String) (s : σ) :
    after (.error e s : EStateM.Result String σ α) = s := rfl

/-- What a method returned, if it did not throw. -/
def returned : EStateM.Result String σ α → Option α
  | .ok a _ => some a
  | .error _ _ => none

theorem returned_eq_some {r : EStateM.Result String σ α} {a : α} :
    returned r = some a ↔ ∃ s, r = .ok a s := by
  cases r with
  | ok b s =>
    constructor
    · rintro ⟨⟩
      exact ⟨s, rfl⟩
    · rintro ⟨_, ⟨⟩⟩
      rfl
  | error e s =>
    constructor
    · rintro ⟨⟩
    · rintro ⟨_, ⟨⟩⟩

@[simp] theorem run_throw (e : String) (s : σ) :
    EStateM.run (throw e : Service σ α) s = .error e s := rfl

/-- A call that does not touch the state. -/
def call : Except String α → Service σ α
  | .ok a => pure a
  | .error e => throw e

@[simp] theorem run_call_ok (a : α) (s : σ) :
    EStateM.run (call (.ok a) : Service σ α) s = .ok a s := rfl

@[simp] theorem run_call_error (e : String) (s : σ) :
    EStateM.run (call (.error e) : Service σ α) s = .error e s := rfl

theorem call_ok {x : Except String α} {a : α} {s s' : σ}
    (h : EStateM.run (call x : Service σ α) s = .ok a s') : x = .ok a ∧ s' = s := by
  cases x with
  | ok b =>
    cases h
    exact ⟨rfl, rfl⟩
  | error e => cases h

/-- A method of a component, run on the part of the state that `get` and `set` delimit. -/
def zoom (get : σ → τ) (set : τ → σ → σ) (m : Service τ α) : Service σ α := fun s =>
  match EStateM.run m (get s) with
  | .ok a t => .ok a (set t s)
  | .error e t => .error e (set t s)

theorem run_zoom (get : σ → τ) (set : τ → σ → σ) (m : Service τ α) (s : σ) :
    EStateM.run (zoom get set m) s =
      match EStateM.run m (get s) with
      | .ok a t => .ok a (set t s)
      | .error e t => .error e (set t s) := rfl

theorem run_zoom_ok {get : σ → τ} {set : τ → σ → σ} {m : Service τ α} {s : σ} {a : α} {t : τ}
    (h : EStateM.run m (get s) = .ok a t) : EStateM.run (zoom get set m) s = .ok a (set t s) := by
  rw [run_zoom, h]

theorem run_zoom_error {get : σ → τ} {set : τ → σ → σ} {m : Service τ α} {s : σ} {e : String} {t : τ}
    (h : EStateM.run m (get s) = .error e t) :
    EStateM.run (zoom get set m) s = .error e (set t s) := by
  rw [run_zoom, h]

/-- A method that returns went through its first part. -/
theorem bind_ok {x : Service σ α} {f : α → Service σ β} {s s'' : σ} {b : β}
    (h : EStateM.run (x >>= f) s = .ok b s'') :
    ∃ a s', EStateM.run x s = .ok a s' ∧ EStateM.run (f a) s' = .ok b s'' := by
  rw [EStateM.run_bind] at h
  cases hx : EStateM.run x s with
  | ok a s' => rw [hx] at h; exact ⟨a, s', rfl, h⟩
  | error e s' => rw [hx] at h; cases h

theorem run_bind_ok {x : Service σ α} {f : α → Service σ β} {s s' : σ} {a : α}
    (h : EStateM.run x s = .ok a s') : EStateM.run (x >>= f) s = EStateM.run (f a) s' := by
  rw [EStateM.run_bind, h]

theorem run_bind_error {x : Service σ α} {f : α → Service σ β} {s s' : σ} {e : String}
    (h : EStateM.run x s = .error e s') : EStateM.run (x >>= f) s = .error e s' := by
  rw [EStateM.run_bind, h]

/-- A method run on a copy of a component: what it returns and the copy it leaves. -/
def runOn (m : Service τ α) (t : τ) : Except String (α × τ) :=
  match EStateM.run m t with
  | .ok a t' => .ok (a, t')
  | .error e _ => .error e

/-- A method that keeps `I`, also when it throws, and returns values related to its arguments keeps
`I` when it runs over a list, and then the values returned are related to the list. -/
theorem mapM_spec {I : σ → Prop} {R : α → β → Prop} {f : α → Service σ β}
    (hf : ∀ a s, I s → I (after (EStateM.run (f a) s)) ∧
      ∀ b t, EStateM.run (f a) s = .ok b t → R a b) :
    ∀ (as : List α) (s : σ), I s → I (after (EStateM.run (as.mapM f) s)) ∧
      ∀ bs t, EStateM.run (as.mapM f) s = .ok bs t → List.Forall₂ R as bs := by
  intro as
  induction as with
  | nil =>
    intro s hs
    refine ⟨hs, ?_⟩
    intro bs t h
    cases h
    exact List.Forall₂.nil
  | cons a as ih =>
    intro s hs
    obtain ⟨hstate, hvalue⟩ := hf a s hs
    rw [List.mapM_cons]
    cases ha : EStateM.run (f a) s with
    | error e s' =>
      rw [ha] at hstate
      rw [run_bind_error ha]
      refine ⟨hstate, ?_⟩
      intro bs t h
      cases h
    | ok b s' =>
      rw [ha] at hstate
      obtain ⟨hrest, hvalues⟩ := ih s' hstate
      rw [run_bind_ok ha]
      cases has : EStateM.run (as.mapM f) s' with
      | error e s'' =>
        rw [has] at hrest
        rw [run_bind_error has]
        refine ⟨hrest, ?_⟩
        intro bs t h
        cases h
      | ok bs s'' =>
        rw [has] at hrest
        rw [run_bind_ok has]
        refine ⟨hrest, ?_⟩
        intro bs' t h
        cases h
        exact List.Forall₂.cons (hvalue b s' ha) (hvalues bs s'' has)

/-! ## Frames -/

/-- `m` leaves the part `f` of the state as it is, also when it throws. -/
def Keeps (f : σ → τ) (m : Service σ α) : Prop := ∀ s, f (after (EStateM.run m s)) = f s

section Keeps

variable {f : σ → τ}

theorem keeps_pure (a : α) : Keeps f (pure a : Service σ α) := fun _ => rfl

theorem keeps_throw (e : String) : Keeps f (throw e : Service σ α) := fun _ => rfl

theorem keeps_throw_bind (e : String) (k : α → Service σ β) : Keeps f (throw e >>= k) := fun _ => rfl

theorem keeps_get : Keeps f (get : Service σ σ) := fun _ => rfl

theorem keeps_modify {g : σ → σ} (h : ∀ s, f (g s) = f s) :
    Keeps f (modify g : Service σ PUnit) := h

theorem keeps_call (x : Except String α) : Keeps f (call x : Service σ α) := by
  cases x with
  | ok a => exact keeps_pure a
  | error e => exact keeps_throw e

theorem Keeps.bind {x : Service σ α} {k : α → Service σ β} (hx : Keeps f x)
    (hk : ∀ a, Keeps f (k a)) : Keeps f (x >>= k) := by
  intro s
  rw [EStateM.run_bind]
  have h := hx s
  cases hrun : EStateM.run x s with
  | ok a s' =>
    rw [hrun, after_ok] at h
    exact (hk a s').trans h
  | error e s' =>
    rw [hrun, after_error] at h
    exact h

theorem Keeps.mapM {k : α → Service σ β} (hk : ∀ a, Keeps f (k a)) :
    ∀ as : List α, Keeps f (as.mapM k) := by
  intro as
  induction as with
  | nil => exact keeps_pure []
  | cons a as ih =>
    rw [List.mapM_cons]
    exact (hk a).bind fun b => ih.bind fun bs => keeps_pure (b :: bs)

/-- A method of a component leaves the rest as it is. -/
theorem keeps_zoom {ρ : Type} {get : σ → ρ} {set : ρ → σ → σ} (h : ∀ t s, f (set t s) = f s)
    (m : Service ρ α) : Keeps f (zoom get set m) := by
  intro s
  rw [run_zoom]
  cases EStateM.run m (get s) with
  | ok a t => exact h t s
  | error e t => exact h t s

/-- `m` leaves the part `f` of the state as it is when it throws. -/
def KeepsOnThrow (f : σ → τ) (m : Service σ α) : Prop :=
  ∀ s e s', EStateM.run m s = .error e s' → f s' = f s

theorem keepsOnThrow_modify (g : σ → σ) : KeepsOnThrow f (modify g : Service σ PUnit) := by
  intro s e s' hrun
  cases hrun

theorem Keeps.bind_onThrow {x : Service σ α} {k : α → Service σ β} (hx : Keeps f x)
    (hk : ∀ a, KeepsOnThrow f (k a)) : KeepsOnThrow f (x >>= k) := by
  intro s e s'' hrun
  rw [EStateM.run_bind] at hrun
  have h := hx s
  cases hx' : EStateM.run x s with
  | ok a s' =>
    rw [hx'] at hrun h
    exact (hk a s' e s'' hrun).trans h
  | error e' s' =>
    rw [hx'] at hrun h
    cases hrun
    exact h

end Keeps

/-! ## Pre- and postconditions -/

/-- From a state with `P`, `m` returns a value and a state with `Q`, or throws in a state with `E`. -/
def Triple (P : σ → Prop) (m : Service σ α) (Q : α → σ → Prop) (E : σ → Prop) : Prop :=
  ∀ s, P s → (∀ a t, EStateM.run m s = .ok a t → Q a t) ∧
    ∀ e t, EStateM.run m s = .error e t → E t

section Triple

variable {P A : σ → Prop} {Q B : α → σ → Prop} {E F : σ → Prop}

theorem triple_pure {a : α} (h : ∀ s, P s → Q a s) : Triple P (pure a : Service σ α) Q E := by
  intro s hs
  constructor
  · intro b t hrun
    cases hrun
    exact h s hs
  · intro e t hrun
    cases hrun

theorem triple_throw {e : String} (h : ∀ s, P s → E s) : Triple P (throw e : Service σ α) Q E := by
  intro s hs
  constructor
  · intro b t hrun
    cases hrun
  · intro e' t hrun
    cases hrun
    exact h s hs

theorem triple_throw_bind {e : String} {k : α → Service σ β} {R : β → σ → Prop}
    (h : ∀ s, P s → E s) : Triple P (throw e >>= k) R E := by
  intro s hs
  constructor
  · intro b t hrun
    cases hrun
  · intro e' t hrun
    cases hrun
    exact h s hs

theorem triple_call {x : Except String α} (hok : ∀ a s, x = .ok a → P s → Q a s)
    (herror : ∀ s, P s → E s) : Triple P (call x : Service σ α) Q E := by
  cases x with
  | ok a => exact triple_pure fun s hs => hok a s rfl hs
  | error e => exact triple_throw herror

theorem triple_get {Q : σ → σ → Prop} (h : ∀ s, P s → Q s s) :
    Triple P (get : Service σ σ) Q E := by
  intro s hs
  constructor
  · intro b t hrun
    cases hrun
    exact h s hs
  · intro e t hrun
    cases hrun

theorem triple_modify {g : σ → σ} {Q : PUnit → σ → Prop} (h : ∀ s, P s → Q ⟨⟩ (g s)) :
    Triple P (modify g : Service σ PUnit) Q E := by
  intro s hs
  constructor
  · intro b t hrun
    cases hrun
    exact h s hs
  · intro e t hrun
    cases hrun

theorem Triple.bind {x : Service σ α} {k : α → Service σ β} {R : β → σ → Prop}
    (hx : Triple P x Q E) (hk : ∀ a, Triple (Q a) (k a) R E) : Triple P (x >>= k) R E := by
  intro s hs
  obtain ⟨hok, herror⟩ := hx s hs
  rw [EStateM.run_bind]
  cases hrun : EStateM.run x s with
  | ok a t => exact hk a t (hok a t hrun)
  | error e t =>
    refine ⟨fun b u h => (by cases h), fun e' u h => ?_⟩
    cases h
    exact herror e t hrun

theorem Triple.tryCatch {m : Service σ α} {handle : String → Service σ α} (hm : Triple P m Q F)
    (hhandle : ∀ e, Triple F (handle e) Q E) : Triple P (tryCatch m handle) Q E := by
  intro s hs
  obtain ⟨hok, herror⟩ := hm s hs
  have hrun : EStateM.run (MonadExcept.tryCatch m handle) s = match EStateM.run m s with
      | .ok a t => .ok a t
      | .error e t => EStateM.run (handle e) t := by
    show EStateM.tryCatch m handle s = _
    unfold EStateM.tryCatch EStateM.run
    cases m s <;> rfl
  show (∀ a t, EStateM.run (MonadExcept.tryCatch m handle) s = .ok a t → Q a t) ∧ _
  rw [hrun]
  cases hm' : EStateM.run m s with
  | ok a t =>
    refine ⟨fun b u h => ?_, fun e u h => (by cases h)⟩
    cases h
    exact hok a t hm'
  | error e t => exact hhandle e t (herror e t hm')

theorem Triple.mono {m : Service σ α} (h : Triple P m Q E) (hpre : ∀ s, A s → P s)
    (hpost : ∀ a s, Q a s → B a s) (hthrow : ∀ s, E s → F s) : Triple A m B F := by
  intro s hs
  obtain ⟨hok, herror⟩ := h s (hpre s hs)
  exact ⟨fun a t hrun => hpost a t (hok a t hrun), fun e t hrun => hthrow t (herror e t hrun)⟩

/-- A method of a component changes nothing else. -/
theorem triple_zoom {get : σ → τ} {set : τ → σ → σ} {m : Service τ α} {s : σ}
    {Q : α → τ → Prop} {E : τ → Prop} (h : Triple (· = get s) m Q E) :
    Triple (· = s) (zoom get set m) (fun a u => ∃ t, Q a t ∧ u = set t s)
      (fun u => ∃ t, E t ∧ u = set t s) := by
  rintro u rfl
  obtain ⟨hok, herror⟩ := h (get u) rfl
  rw [run_zoom]
  cases hrun : EStateM.run m (get u) with
  | ok a t =>
    refine ⟨fun b u' h => ?_, fun e u' h => (by cases h)⟩
    cases h
    exact ⟨t, hok a t hrun, rfl⟩
  | error e t =>
    refine ⟨fun b u' h => (by cases h), fun e' u' h => ?_⟩
    cases h
    exact ⟨t, herror e t hrun, rfl⟩

/-- What holds after `m`, whether it returned or threw. -/
theorem Triple.after {m : Service σ α} {s : σ} (h : Triple P m Q E) (hs : P s)
    (hpost : ∀ a t, Q a t → E t) : E (Service.after (EStateM.run m s)) := by
  obtain ⟨hok, herror⟩ := h s hs
  cases hrun : EStateM.run m s with
  | ok a t => exact hpost a t (hok a t hrun)
  | error e t => exact herror e t hrun

end Triple

end Service
