import Mathlib

/-!
# Composed keys

A string composed of parts and decimal numbers, with a separator that is no digit in front of each
number, determines its parts (`append_toString_inj`).

A scan of the keys from a part `p` to `p` with one more character meets no key whose part is another
one of the same length (`eq_of_range`), and all keys whose part is `p` when what follows in them is
below that character (`not_append_lt`, `not_lt_append`).
-/

namespace Separator

variable {α : Type*}

theorem append_cons_inj {c : α} : ∀ {a a' b b' : List α}, c ∉ a → c ∉ a' →
    a ++ c :: b = a' ++ c :: b' → a = a' ∧ b = b' := by
  intro a
  induction a with
  | nil =>
    intro a' b b' _ ha' h
    cases a' with
    | nil => exact ⟨rfl, (List.cons.inj h).2⟩
    | cons x a' =>
      exact absurd (List.mem_cons.2 (Or.inl (List.cons.inj h).1)) ha'
  | cons x a ih =>
    intro a' b b' ha ha' h
    cases a' with
    | nil => exact absurd (List.mem_cons.2 (Or.inl (List.cons.inj h).1.symm)) ha
    | cons y a' =>
      obtain ⟨rfl, hrest⟩ := List.cons.inj h
      obtain ⟨rfl, hb⟩ := ih (fun hc => ha (List.mem_cons_of_mem _ hc))
        (fun hc => ha' (List.mem_cons_of_mem _ hc)) hrest
      exact ⟨rfl, hb⟩

/-- The same, split at the last separator. -/
theorem append_cons_inj_right {c : α} {a a' b b' : List α} (hb : c ∉ b) (hb' : c ∉ b')
    (h : a ++ c :: b = a' ++ c :: b') : a = a' ∧ b = b' := by
  have hrev := congrArg List.reverse h
  simp only [List.reverse_append, List.reverse_cons, List.append_assoc, List.singleton_append] at hrev
  obtain ⟨h1, h2⟩ := append_cons_inj (by simpa using hb) (by simpa using hb') hrev
  exact ⟨List.reverse_injective h2, List.reverse_injective h1⟩

theorem not_mem_toString {c : Char} (hc : c.isDigit = false) (n : ℕ) : c ∉ (toString n).toList := by
  intro hmem
  have hrepr : (toString n).toList = Nat.toDigits 10 n := Nat.toList_repr
  rw [hrepr] at hmem
  have := Nat.isDigit_of_mem_toDigits (by norm_num) (le_refl 10) hmem
  rw [hc] at this
  cases this

/-- A string followed by a separator and a number determines the string and the number. -/
theorem append_toString_inj {separator : String} {c : Char} (hseparator : separator.toList = [c])
    (hc : c.isDigit = false) {s t : String} {n m : ℕ}
    (h : s ++ separator ++ toString n = t ++ separator ++ toString m) : s = t ∧ n = m := by
  have hlist := congrArg String.toList h
  simp only [String.toList_append, hseparator, List.append_assoc, List.singleton_append] at hlist
  obtain ⟨hst, hnm⟩ := append_cons_inj_right (not_mem_toString hc n) (not_mem_toString hc m) hlist
  exact ⟨String.toList_inj.1 hst, Nat.repr_inj.1 (String.toList_inj.1 hnm)⟩

/-! ## Ranges of a part -/

section Range

variable [LinearOrder α]

theorem eq_of_range {u : α} {s : List α} : ∀ {p q : List α}, p.length = q.length →
    ¬ q ++ s < p → ¬ p ++ [u] < q ++ s → p = q := by
  intro p
  induction p with
  | nil =>
    intro q hlen _ _
    exact (List.length_eq_zero_iff.1 hlen.symm).symm
  | cons a p ih =>
    intro q hlen hlow hhigh
    cases q with
    | nil => cases hlen
    | cons b q =>
      simp only [List.cons_append, List.cons_lt_cons_iff, not_or, not_and] at hlow hhigh
      have hab : a = b := le_antisymm (not_lt.1 hlow.1) (not_lt.1 hhigh.1)
      rw [hab, ih (Nat.succ.inj hlen) (hlow.2 hab.symm) (hhigh.2 hab)]

theorem not_append_lt (p s : List α) : ¬ p ++ s < p := by
  induction p with
  | nil => exact List.not_lt_nil _
  | cons a p ih =>
    rw [List.cons_append, List.cons_lt_cons_iff]
    rintro (h | ⟨_, h⟩)
    · exact lt_irrefl a h
    · exact ih h

theorem not_lt_append {u c : α} (hc : c < u) (p s : List α) : ¬ p ++ [u] < p ++ c :: s := by
  induction p with
  | nil =>
    rw [List.nil_append, List.nil_append, List.cons_lt_cons_iff]
    rintro (h | ⟨h, _⟩)
    · exact lt_asymm h hc
    · exact hc.ne' h
  | cons a p ih =>
    rw [List.cons_append, List.cons_append, List.cons_lt_cons_iff]
    rintro (h | ⟨_, h⟩)
    · exact lt_irrefl a h
    · exact ih h

end Range

end Separator
