import Mathlib

/-!
# Numbers of fixed width

`digits b w n` are the `w` low digits of `n` in base `b`, highest first, and `value b ds` is the
number with the digits `ds`. Below `b ^ w` the digits determine the number (`value_digits`) and the
lexicographic order of the digits, written with any increasing alphabet, is the order of the numbers
(`map_digits_lt`). Pairs of digits in base `b` are the digits in base `b ^ 2` (`digits_sq`).
-/

namespace FixedWidth

/-- The `w` low digits of `n` in base `b`, highest first. -/
def digits (b : ℕ) : ℕ → ℕ → List ℕ
  | 0, _ => []
  | w + 1, n => n / b ^ w % b :: digits b w n

/-- The number whose digits in base `b` are `ds`, highest first. -/
def value (b : ℕ) (ds : List ℕ) : ℕ := ds.foldl (fun acc d => acc * b + d) 0

@[simp] theorem length_digits (b w n : ℕ) : (digits b w n).length = w := by
  induction w with
  | zero => rfl
  | succ w ih => simp [digits, ih]

theorem lt_of_mem_digits {b : ℕ} (hb : 0 < b) {w n d : ℕ} (h : d ∈ digits b w n) : d < b := by
  induction w with
  | zero => simp [digits] at h
  | succ w ih =>
    rcases List.mem_cons.1 h with rfl | h
    · exact Nat.mod_lt _ hb
    · exact ih h

theorem foldl_value (b : ℕ) (ds : List ℕ) (acc : ℕ) :
    ds.foldl (fun acc d => acc * b + d) acc = acc * b ^ ds.length + value b ds := by
  unfold value
  induction ds generalizing acc with
  | nil => simp
  | cons d ds ih =>
    rw [List.foldl_cons, List.foldl_cons, ih, ih (0 * b + d), List.length_cons, pow_succ]
    ring

theorem value_cons (b d : ℕ) (ds : List ℕ) : value b (d :: ds) = d * b ^ ds.length + value b ds := by
  unfold value
  rw [List.foldl_cons, foldl_value]
  simp [value]

theorem value_digits_mod (b w n : ℕ) : value b (digits b w n) = n % b ^ w := by
  induction w with
  | zero => simp [digits, value, Nat.mod_one]
  | succ w ih =>
    rw [digits, value_cons, length_digits, ih, Nat.pow_succ, Nat.mod_mul]
    ring

/-- The digits of a number below `b ^ w` give the number back. -/
theorem value_digits {b w n : ℕ} (h : n < b ^ w) : value b (digits b w n) = n := by
  rw [value_digits_mod, Nat.mod_eq_of_lt h]

theorem digits_injective {b w n m : ℕ} (hn : n < b ^ w) (hm : m < b ^ w)
    (h : digits b w n = digits b w m) : n = m := by
  rw [← value_digits hn, ← value_digits hm, h]

/-- The digits of a number are the digits of its value. -/
theorem digits_mod (b w n : ℕ) : ∀ k ≤ w, digits b k (n % b ^ w) = digits b k n := by
  intro k
  induction k with
  | zero => intro _; rfl
  | succ k ih =>
    intro hk
    rw [digits, digits, ih (by omega)]
    congr 1
    obtain ⟨d, rfl⟩ : ∃ d, w = k + (d + 1) := ⟨w - (k + 1), by omega⟩
    rw [pow_add, Nat.mod_mul_right_div_self, pow_succ', Nat.mod_mul_right_mod]

/-- **Order.** Written with an increasing alphabet, digits of fixed width are ordered as the numbers
are. -/
theorem map_digits_lt {α : Type*} [LinearOrder α] {b : ℕ} (alphabet : ℕ → α)
    (hmono : ∀ i j, i < j → j < b → alphabet i < alphabet j) :
    ∀ (w n m : ℕ), n < m → m < b ^ w →
      (digits b w n).map alphabet < (digits b w m).map alphabet := by
  intro w
  induction w with
  | zero => intro n m h hm; simp at hm; omega
  | succ w ih =>
    intro n m h hm
    have hpos : 0 < b ^ w := by
      rcases Nat.eq_zero_or_pos b with rfl | hb
      · simp at hm
      · positivity
    have htop : ∀ x, x < b ^ (w + 1) → x / b ^ w % b = x / b ^ w := fun x hx =>
      Nat.mod_eq_of_lt (by rw [Nat.div_lt_iff_lt_mul hpos]; rwa [pow_succ, Nat.mul_comm] at hx)
    simp only [digits, List.map_cons, htop n (by omega), htop m hm]
    rcases lt_or_eq_of_le (Nat.div_le_div_right (c := b ^ w) h.le) with hlt | heq
    · refine List.cons_lt_cons_iff.2 (Or.inl (hmono _ _ hlt ?_))
      rw [Nat.div_lt_iff_lt_mul hpos]
      rwa [pow_succ, Nat.mul_comm] at hm
    · refine List.cons_lt_cons_iff.2 (Or.inr ⟨by rw [heq], ?_⟩)
      rw [← digits_mod b w n w (le_refl _), ← digits_mod b w m w (le_refl _)]
      refine ih _ _ ?_ (Nat.mod_lt _ hpos)
      have h1 := Nat.div_add_mod n (b ^ w)
      have h2 := Nat.div_add_mod m (b ^ w)
      rw [heq] at h1
      omega

/-- A digit in base `b ^ 2` is a pair of digits in base `b`. -/
theorem digits_sq (b : ℕ) : ∀ (w n : ℕ),
    (digits (b ^ 2) w n).flatMap (digits b 2) = digits b (2 * w) n := by
  intro w
  induction w with
  | zero => intro n; rfl
  | succ w ih =>
    intro n
    rw [digits, List.flatMap_cons, ih, show 2 * (w + 1) = 2 * w + 1 + 1 by ring, digits, digits]
    have hlow : n / b ^ (2 * w) % b ^ 2 % b = n / b ^ (2 * w) % b := by
      rw [pow_two, Nat.mod_mul_right_mod]
    have hhigh : n / b ^ (2 * w) % b ^ 2 / b = n / b ^ (2 * w + 1) % b := by
      rw [pow_two, Nat.mod_mul_right_div_self, pow_succ, Nat.div_div_eq_div_mul]
    simp [digits, ← pow_mul, hlow, hhigh]

/-- A number that needs fewer digits has zeros in front of them. -/
theorem digits_of_lt_pow {b w n : ℕ} (hb : 0 < b) (h : n < b ^ w) : ∀ k,
    digits b (k + w) n = List.replicate k 0 ++ digits b w n := by
  intro k
  induction k with
  | zero => simp
  | succ k ih =>
    have hlt : n < b ^ (k + w) := lt_of_lt_of_le h (Nat.pow_le_pow_right hb (Nat.le_add_left w k))
    rw [Nat.succ_add, digits, Nat.div_eq_of_lt hlt, Nat.zero_mod, ih, List.replicate_succ,
      List.cons_append]

/-! ## Words -/

/-- The words of `w` symbols that a list divides into. -/
def words {α : Type*} (w : ℕ) (symbols : List α) : List (List α) :=
  (List.range (symbols.length / w)).map fun i => (symbols.drop (i * w)).take w

/-- Words of one width, written one after the other, are found again. -/
theorem words_flatten {α : Type*} {w : ℕ} (hw : 0 < w) : ∀ {ws : List (List α)},
    (∀ word ∈ ws, word.length = w) → words w ws.flatten = ws := by
  intro ws
  induction ws with
  | nil =>
    intro _
    simp [words]
  | cons word ws ih =>
    intro h
    have hword := h word (List.mem_cons_self ..)
    have hcount : (word :: ws).flatten.length / w = ws.flatten.length / w + 1 := by
      rw [List.flatten_cons, List.length_append, hword, Nat.add_div_left _ hw]
    rw [words, hcount, List.range_succ_eq_map, List.map_cons, List.map_map, List.flatten_cons]
    congr 1
    · rw [Nat.zero_mul, List.drop_zero, List.take_left' hword]
    · have hrest := ih fun x hx => h x (List.mem_cons_of_mem _ hx)
      rw [words] at hrest
      conv_rhs => rw [← hrest]
      apply List.map_congr_left
      intro i _
      show ((word ++ ws.flatten).drop ((i + 1) * w)).take w = _
      rw [Nat.succ_mul, Nat.add_comm, ← List.drop_drop, List.drop_left' hword]

/-! ## Hexadecimal -/

/-- The hexadecimal digits are increasing characters. -/
theorem digitChar_lt : ∀ i j, i < j → j < 16 → Nat.digitChar i < Nat.digitChar j := by
  intro i j hij hj
  have : ∀ j : Fin 16, ∀ i : Fin 16, i < j → Nat.digitChar i < Nat.digitChar j := by decide
  exact this ⟨j, hj⟩ ⟨i, by omega⟩ hij

/-- The number that a hexadecimal digit stands for. -/
def charDigit (c : Char) : ℕ := if c.isDigit then c.toNat - '0'.toNat else c.toNat - 'a'.toNat + 10

theorem charDigit_digitChar {d : ℕ} (hd : d < 16) : charDigit (Nat.digitChar d) = d := by
  have : ∀ d : Fin 16, charDigit (Nat.digitChar d) = d := by decide
  exact this ⟨d, hd⟩

theorem map_charDigit_digits (w n : ℕ) :
    ((digits 16 w n).map Nat.digitChar).map charDigit = digits 16 w n := by
  rw [List.map_map]
  conv_rhs => rw [← List.map_id (digits 16 w n)]
  apply List.map_congr_left
  intro d hd
  exact charDigit_digitChar (lt_of_mem_digits (by norm_num) hd)

end FixedWidth
