import CouncilDaemon.Lib.Service

/-!
# Invariants of the methods of a service

`Preserves I m`: the method keeps `I`, whether it returns or throws.
-/

namespace Service

variable {σ τ α β : Type} {I : σ → Prop}

def Preserves (I : σ → Prop) (m : Service σ α) : Prop := Triple I m (fun _ => I) I

theorem Preserves.after {m : Service σ α} (h : Preserves I m) {s : σ} (hs : I s) :
    I (Service.after (EStateM.run m s)) :=
  Triple.after h hs fun _ _ ht => ht

theorem preserves_of_after {m : Service σ α}
    (h : ∀ s, I s → I (Service.after (EStateM.run m s))) : Preserves I m := by
  intro s hs
  have hafter := h s hs
  refine ⟨?_, ?_⟩
  · intro a t hrun
    rwa [hrun] at hafter
  · intro e t hrun
    rwa [hrun] at hafter

theorem preserves_pure (a : α) : Preserves I (pure a : Service σ α) := triple_pure fun _ hs => hs

theorem preserves_throw_bind (e : String) (k : α → Service σ β) :
    Preserves I (throw e >>= k) := triple_throw_bind fun _ hs => hs

theorem preserves_get : Preserves I (get : Service σ σ) := triple_get fun _ hs => hs

theorem preserves_call (x : Except String α) : Preserves I (call x : Service σ α) :=
  triple_call (fun _ _ _ hs => hs) fun _ hs => hs

theorem Preserves.bind {x : Service σ α} {k : α → Service σ β} (hx : Preserves I x)
    (hk : ∀ a, Preserves I (k a)) : Preserves I (x >>= k) :=
  Triple.bind hx hk

/-- The rest of the method may use what is known of the answer of a call. -/
theorem preserves_call_bind {x : Except String α} {k : α → Service σ β}
    (hk : ∀ a, x = .ok a → Preserves I (k a)) : Preserves I (call x >>= k) := by
  cases x with
  | ok a => exact hk a rfl
  | error e => exact preserves_throw_bind e k

/-- A method that leaves the part the invariant is about. -/
theorem Keeps.preserves {f : σ → τ} {J : τ → Prop} {m : Service σ α} (h : Keeps f m) :
    Preserves (fun s => J (f s)) m := by
  refine preserves_of_after fun s hs => ?_
  show J (f (Service.after (EStateM.run m s)))
  rwa [h s]

/-- A method of the component that the invariant is about. -/
theorem preserves_zoom {get : σ → τ} {set : τ → σ → σ} {J : τ → Prop} {m : Service τ α}
    (hset : ∀ t s, get (set t s) = t) (h : Preserves J m) :
    Preserves (fun s => J (get s)) (zoom get set m) := by
  refine preserves_of_after fun s hs => ?_
  have hafter := h.after hs
  rw [run_zoom]
  cases hrun : EStateM.run m (get s) with
  | ok a t =>
    rw [hrun] at hafter
    show J (get (set t s))
    rwa [hset]
  | error e t =>
    rw [hrun] at hafter
    show J (get (set t s))
    rwa [hset]

/-- A method that returns and keeps the invariant, for each argument, returns when it runs over a list. -/
theorem mapM_returns {f : α → Service σ β} :
    ∀ {as : List α}, (∀ a ∈ as, ∀ s, I s → ∃ b t, EStateM.run (f a) s = .ok b t ∧ I t) →
      ∀ s, I s → ∃ bs t, EStateM.run (as.mapM f) s = .ok bs t ∧ I t := by
  intro as
  induction as with
  | nil => exact fun _ s hs => ⟨[], s, rfl, hs⟩
  | cons a as ih =>
    intro hf s hs
    obtain ⟨b, t, hrun, ht⟩ := hf a List.mem_cons_self s hs
    obtain ⟨bs, t', hrest, ht'⟩ := ih (fun a' ha' => hf a' (List.mem_cons_of_mem a ha')) t ht
    refine ⟨b :: bs, t', ?_, ht'⟩
    rw [List.mapM_cons, run_bind_ok hrun, run_bind_ok hrest]
    rfl

end Service
