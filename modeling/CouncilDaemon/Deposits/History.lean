import CouncilDaemon.Deposits.TreeAlignment

/-!
# Deposit histories

A `History D` is what the deposit contract deployed at block `D` has logged: events counted from
zero on, in blocks after `D` that never go back. `upTo b` are the events in blocks up to `b` and
`between a b` those in the blocks `a` to `b`; the slices of adjacent ranges make one slice
(`upTo_append_between`), and a slice that comes back in any order is put in order by its deposit
counts (`sort_between`).
-/

namespace CouncilDaemon

/-- The events of a deposit contract deployed at `deploymentBlock`. -/
structure History (deploymentBlock : ℕ) where
  events : List VerifiedDepositEvent
  counted : events.map (·.depositCount) = List.range' 0 events.length
  deployed : ∀ e ∈ events, deploymentBlock < e.blockNumber
  ordered : events.Pairwise fun a b => a.blockNumber ≤ b.blockNumber
  length_lt : events.length < 2 ^ 32

namespace History

variable {D : ℕ} (H : History D)

def upTo (block : ℕ) : List VerifiedDepositEvent := H.events.filter (·.blockNumber ≤ block)

def between (first last : ℕ) : List VerifiedDepositEvent :=
  H.events.filter fun e => first ≤ e.blockNumber ∧ e.blockNumber ≤ last

variable {H}

theorem mem_upTo {block : ℕ} {e : VerifiedDepositEvent} :
    e ∈ H.upTo block ↔ e ∈ H.events ∧ e.blockNumber ≤ block := by
  simp [upTo]

/-- Nothing is logged up to the deployment. -/
theorem upTo_of_le {block : ℕ} (h : block ≤ D) : H.upTo block = [] :=
  List.filter_eq_nil_iff.2 fun e he => by
    have := H.deployed e he
    simp
    omega

theorem filter_append_filter {events : List VerifiedDepositEvent}
    (hordered : events.Pairwise fun a b => a.blockNumber ≤ b.blockNumber) {a b : ℕ} (hab : a ≤ b) :
    events.filter (·.blockNumber ≤ a) ++
        events.filter (fun e => a + 1 ≤ e.blockNumber ∧ e.blockNumber ≤ b) =
      events.filter (·.blockNumber ≤ b) := by
  induction events with
  | nil => rfl
  | cons e events ih =>
    obtain ⟨hfirst, hrest⟩ := List.pairwise_cons.1 hordered
    by_cases ha : e.blockNumber ≤ a
    · have hb : e.blockNumber ≤ b := by omega
      have hout : ¬ a + 1 ≤ e.blockNumber := by omega
      simp only [List.filter_cons, decide_eq_true_eq, ha, hb, hout, false_and, if_true, if_false,
        List.cons_append, ih hrest]
    · -- the blocks never go back, so no later event is up to `a` either
      have hall : ∀ e' ∈ e :: events, a < e'.blockNumber := by
        intro e' he'
        rcases List.mem_cons.1 he' with rfl | he'
        · omega
        · have := hfirst e' he'
          omega
      rw [List.filter_eq_nil_iff.2 fun e' he' => by have := hall e' he'; simp; omega, List.nil_append]
      refine List.filter_congr fun e' he' => ?_
      have := hall e' he'
      simp
      omega

theorem upTo_append_between {a b : ℕ} (hab : a ≤ b) : H.upTo a ++ H.between (a + 1) b = H.upTo b :=
  filter_append_filter H.ordered hab

theorem isPrefix_upTo (block : ℕ) : H.upTo block <+: H.events := by
  let top := (H.events.map (·.blockNumber)).foldr max block
  have htop : ∀ e ∈ H.events, e.blockNumber ≤ top := by
    intro e he
    have hmem : e.blockNumber ∈ H.events.map (·.blockNumber) := List.mem_map_of_mem he
    exact List.le_max_of_le' block hmem (le_refl _)
  have hblock : block ≤ top := by
    have : ∀ l : List ℕ, block ≤ l.foldr max block := by
      intro l
      induction l with
      | nil => exact le_refl _
      | cons x l ih => exact le_max_of_le_right ih
    exact this _
  have hall : H.upTo top = H.events := List.filter_eq_self.2 fun e he => by simpa using htop e he
  have := upTo_append_between (H := H) hblock
  rw [hall] at this
  exact ⟨_, this⟩

/-- A front part of the history is counted from zero on. -/
theorem counted_of_prefix {events : List VerifiedDepositEvent} (h : events <+: H.events) :
    events.map (·.depositCount) = List.range' 0 events.length := by
  obtain ⟨rest, hrest⟩ := h
  have hcounted := H.counted
  rw [← hrest, List.map_append, List.length_append, ← List.range'_append_1] at hcounted
  exact (List.append_inj hcounted (by simp)).1

theorem counted_upTo (block : ℕ) :
    (H.upTo block).map (·.depositCount) = List.range' 0 (H.upTo block).length :=
  counted_of_prefix (isPrefix_upTo block)

theorem length_upTo_lt (block : ℕ) : (H.upTo block).length < 2 ^ 32 :=
  lt_of_le_of_lt (isPrefix_upTo block).length_le H.length_lt

theorem sorted_events : H.events.Pairwise fun a b => a.depositCount < b.depositCount := by
  have h : (H.events.map (·.depositCount)).Pairwise (· < ·) := by
    rw [H.counted]
    exact List.pairwise_lt_range'
  exact List.pairwise_map.1 h

theorem succ_count_lt {e : VerifiedDepositEvent} (he : e ∈ H.events) :
    e.depositCount + 1 < 2 ^ 32 := by
  have hmem : e.depositCount ∈ H.events.map (·.depositCount) := List.mem_map_of_mem he
  rw [H.counted, List.mem_range'_1] at hmem
  have := H.length_lt
  omega

/-- A slice that comes back in any order is put in order by the deposit counts. -/
theorem sort_between {first last : ℕ} {events : List VerifiedDepositEvent}
    (h : events.Perm (H.between first last)) :
    sortEventsByDepositCount events = H.between first last := by
  have hsorted : (H.between first last).Pairwise fun a b => a.depositCount < b.depositCount :=
    sorted_events.filter _
  have hinj : ∀ a b, a ∈ H.between first last → b ∈ H.between first last →
      a.depositCount = b.depositCount → a = b := by
    intro a b ha hb hab
    have hnodup : ((H.between first last).map (·.depositCount)).Nodup :=
      List.pairwise_map.2 (hsorted.imp fun h => h.ne)
    exact List.inj_on_of_nodup_map hnodup ha hb hab
  have hperm := (List.perm_insertionSort
    (fun a b : VerifiedDepositEvent => a.depositCount ≤ b.depositCount) events).trans h
  have htotal : Std.Total fun a b : VerifiedDepositEvent => a.depositCount ≤ b.depositCount :=
    ⟨fun a b => Nat.le_total _ _⟩
  have htrans : IsTrans VerifiedDepositEvent fun a b => a.depositCount ≤ b.depositCount :=
    ⟨fun _ _ _ => Nat.le_trans⟩
  refine List.Perm.eq_of_pairwise (fun a b ha hb hab hba => ?_) (List.pairwise_insertionSort _ _)
    (hsorted.imp fun h => h.le) hperm
  exact hinj a b (hperm.subset ha) hb (Nat.le_antisymm hab hba)

/-- The next slice continues the count. -/
theorem continues_between {a b : ℕ} (hab : a ≤ b) :
    Registry.Continues (H.upTo a).length (H.between (a + 1) b) := by
  have h := counted_upTo (H := H) b
  rw [← upTo_append_between hab, List.map_append, List.length_append, ← List.range'_append_1] at h
  have := (List.append_inj h (by simp)).2
  rwa [Nat.zero_add] at this

/-- Events are in the order of their counts, and their blocks never go back. -/
theorem blockNumber_le {a b : VerifiedDepositEvent} (ha : a ∈ H.events) (hb : b ∈ H.events)
    (h : a.depositCount ≤ b.depositCount) : a.blockNumber ≤ b.blockNumber := by
  let related : VerifiedDepositEvent → VerifiedDepositEvent → Prop := fun a b =>
    (a.depositCount ≤ b.depositCount → a.blockNumber ≤ b.blockNumber) ∧
      (b.depositCount ≤ a.depositCount → b.blockNumber ≤ a.blockNumber)
  have hpair : H.events.Pairwise related := by
    refine (sorted_events.and H.ordered).imp fun {a b} hab => ⟨fun _ => hab.2, fun hba => ?_⟩
    have := hab.1
    omega
  have hsymm : Std.Symm related := ⟨fun _ _ h => ⟨h.2, h.1⟩⟩
  exact (hpair.forall_of_forall (fun _ _ => ⟨fun _ => le_refl _, fun _ => le_refl _⟩) ha hb).1 h

/-- `event` is the last event of the history up to its block. -/
def LastOfBlock (H : History D) (event : VerifiedDepositEvent) : Prop :=
  event ∈ H.events ∧ ∀ e ∈ H.events, e.blockNumber ≤ event.blockNumber →
    e.depositCount ≤ event.depositCount

/-- The last event up to a block is the last of its own block. -/
theorem lastOfBlock_of_getLast? {block : ℕ} {event : VerifiedDepositEvent}
    (h : (H.upTo block).getLast? = some event) : LastOfBlock H event := by
  have hmem := List.mem_of_getLast? h
  obtain ⟨hevent, hblock⟩ := mem_upTo.1 hmem
  refine ⟨hevent, fun e he hle => ?_⟩
  have hsorted : (H.upTo block).Pairwise fun a b => a.depositCount < b.depositCount :=
    sorted_events.filter _
  have hlast : ∀ e ∈ H.upTo block, e.depositCount ≤ event.depositCount := by
    obtain ⟨front, hfront⟩ := List.getLast?_eq_some_iff.1 h
    rw [hfront] at hsorted ⊢
    intro e he
    rcases List.mem_append.1 he with he | he
    · exact ((List.pairwise_append.1 hsorted).2.2 e he event List.mem_cons_self).le
    · exact (List.mem_singleton.1 he) ▸ le_refl _
  exact hlast e (mem_upTo.2 ⟨he, hle.trans hblock⟩)

/-- Cut after such an event, the events up to a later block are those up to its own. -/
theorem LastOfBlock.filter_upTo {event : VerifiedDepositEvent} (h : LastOfBlock H event) {block : ℕ}
    (hblock : event.blockNumber ≤ block) :
    (H.upTo block).filter (·.depositCount < event.depositCount + 1) = H.upTo event.blockNumber := by
  rw [upTo, upTo, List.filter_filter]
  refine List.filter_congr fun e he => ?_
  rw [← Bool.decide_and, decide_eq_decide]
  constructor
  · rintro ⟨hcount, _⟩
    exact blockNumber_le he h.1 (by omega)
  · intro hle
    have := h.2 e he hle
    omega

end History

end CouncilDaemon
