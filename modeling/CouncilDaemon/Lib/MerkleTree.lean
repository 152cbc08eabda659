import Mathlib

/-!
# Zero-padded Merkle trees and the branch of an append-only tree

`node leaf d i` is node `i` at height `d` of the infinite binary tree over the leaves `leaf 0`,
`leaf 1`, …; the root of a list `l` in a tree of depth `d` is `root d l`, node `0` at height `d`
over `l` padded with zero leaves.

An append-only tree with `n` leaves is summarised by its *branch*: at every height `k` where bit
`k` of `n` is set, the root of the last complete subtree of height `k` (`IsBranch`); the entries
at the other heights are stale. The file gives the step lemmas of the two loops that work on a
branch:

1. the carry of an append (`IsBranch.carry`, `IsBranch.place`, `isBranch_overflow`);
2. the climb to the root over branch entries and zero hashes (`IsBranch.climb_left`,
   `climb_zero`).

With an injective digest the root determines the leaves (`root_injective`).
-/

namespace Merkle

variable {α : Type*} (digest : α → α → α)

/-- Root of the subtree of height `d` whose leaves are all `zero`. -/
def zeroHash (zero : α) : ℕ → α
  | 0 => zero
  | d + 1 => digest (zeroHash zero d) (zeroHash zero d)

/-- Node `i` at height `d` of the binary tree over `leaf`. -/
def node (leaf : ℕ → α) : ℕ → ℕ → α
  | 0, i => leaf i
  | d + 1, i => digest (node leaf d (2 * i)) (node leaf d (2 * i + 1))

/-- The leaves of `l`, padded with `zero`. -/
def pad (zero : α) (l : List α) (i : ℕ) : α := l.getD i zero

/-- Root of the tree of depth `d` over `l` padded with `zero`. -/
def root (zero : α) (d : ℕ) (l : List α) : α := node digest (pad zero l) d 0

variable {digest}

/-! ## Padding -/

theorem pad_eq_zero {zero : α} {l : List α} {i : ℕ} (h : l.length ≤ i) : pad zero l i = zero :=
  List.getD_eq_default l zero h

theorem pad_append_lt {zero x : α} {l : List α} {i : ℕ} (h : i < l.length) :
    pad zero (l ++ [x]) i = pad zero l i := by
  unfold pad; rw [List.getD_append _ _ _ _ h]

theorem pad_append_length (zero x : α) (l : List α) : pad zero (l ++ [x]) l.length = x := by
  unfold pad; rw [List.getD_append_right _ _ _ _ (le_refl _)]; simp

/-! ## Nodes depend on their own leaves only -/

/-- The leaves below node `i` at height `d` are the indexes of `[i * 2 ^ d, (i + 1) * 2 ^ d)`. -/
def Below (d i j : ℕ) : Prop := i * 2 ^ d ≤ j ∧ j < (i + 1) * 2 ^ d

theorem Below.left {d i j : ℕ} (h : Below d (2 * i) j) : Below (d + 1) i j := by
  obtain ⟨h1, h2⟩ := h
  constructor
  · calc i * 2 ^ (d + 1) = 2 * i * 2 ^ d := by ring
      _ ≤ j := h1
  · calc j < (2 * i + 1) * 2 ^ d := h2
      _ ≤ 2 * (i + 1) * 2 ^ d := Nat.mul_le_mul_right _ (by omega)
      _ = (i + 1) * 2 ^ (d + 1) := by ring

theorem Below.right {d i j : ℕ} (h : Below d (2 * i + 1) j) : Below (d + 1) i j := by
  obtain ⟨h1, h2⟩ := h
  constructor
  · calc i * 2 ^ (d + 1) = 2 * i * 2 ^ d := by ring
      _ ≤ (2 * i + 1) * 2 ^ d := Nat.mul_le_mul_right _ (by omega)
      _ ≤ j := h1
  · calc j < (2 * i + 1 + 1) * 2 ^ d := h2
      _ = (i + 1) * 2 ^ (d + 1) := by ring

theorem Below.cases {d i j : ℕ} (h : Below (d + 1) i j) :
    Below d (2 * i) j ∨ Below d (2 * i + 1) j := by
  obtain ⟨h1, h2⟩ := h
  have e1 : i * 2 ^ (d + 1) = 2 * i * 2 ^ d := by ring
  have e2 : (i + 1) * 2 ^ (d + 1) = (2 * i + 1 + 1) * 2 ^ d := by ring
  rw [e1] at h1
  rw [e2] at h2
  by_cases hj : j < (2 * i + 1) * 2 ^ d
  · exact Or.inl ⟨h1, hj⟩
  · exact Or.inr ⟨by omega, h2⟩

theorem node_congr {leaf leaf' : ℕ → α} :
    ∀ (d i : ℕ), (∀ j, Below d i j → leaf j = leaf' j) →
      node digest leaf d i = node digest leaf' d i := by
  intro d
  induction d with
  | zero => intro i h; exact h i ⟨by simp, by simp⟩
  | succ d ih =>
    intro i h
    simp only [node]
    rw [ih (2 * i) fun j hj => h j hj.left, ih (2 * i + 1) fun j hj => h j hj.right]

/-- A node over zero leaves is the zero hash of its height. -/
theorem node_eq_zeroHash {leaf : ℕ → α} {zero : α} :
    ∀ (d i : ℕ), (∀ j, Below d i j → leaf j = zero) →
      node digest leaf d i = zeroHash digest zero d := by
  intro d
  induction d with
  | zero => intro i h; exact h i ⟨by simp, by simp⟩
  | succ d ih =>
    intro i h
    simp only [node, zeroHash]
    rw [ih (2 * i) fun j hj => h j hj.left, ih (2 * i + 1) fun j hj => h j hj.right]

/-! ## Collision-free digests -/

/-- With an injective digest a node determines the leaves below it. -/
theorem node_injective (hd : Function.Injective2 digest) {leaf leaf' : ℕ → α} :
    ∀ (d i : ℕ), node digest leaf d i = node digest leaf' d i →
      ∀ j, Below d i j → leaf j = leaf' j := by
  intro d
  induction d with
  | zero =>
    intro i h j hj
    obtain ⟨h1, h2⟩ := hj
    obtain rfl : j = i := by simp at h1 h2; omega
    exact h
  | succ d ih =>
    intro i h j hj
    obtain ⟨hl, hr⟩ := hd h
    rcases hj.cases with hj | hj
    · exact ih _ hl j hj
    · exact ih _ hr j hj

/-- Two lists of one length with the same root are equal. -/
theorem root_injective (hd : Function.Injective2 digest) {zero : α} {d : ℕ} {l l' : List α}
    (hlen : l.length = l'.length) (hle : l.length ≤ 2 ^ d)
    (h : root digest zero d l = root digest zero d l') : l = l' := by
  apply List.ext_getElem hlen
  intro i h1 h2
  have hb : Below d 0 i := ⟨by simp, by simp; omega⟩
  have := node_injective hd d 0 h i hb
  rwa [pad, pad, List.getD_eq_getElem _ _ h1, List.getD_eq_getElem _ _ h2] at this

/-! ## The branch of an append-only tree -/

/-- At every height below `d` where the bit of `n` is set, `branch` holds the root of the last
complete subtree of that height. -/
def IsBranch (digest : α → α → α) (d : ℕ) (leaf : ℕ → α) (n : ℕ) (branch : ℕ → Option α) : Prop :=
  ∀ k < d, n / 2 ^ k % 2 = 1 → branch k = some (node digest leaf k (n / 2 ^ k - 1))

theorem isBranch_zero (d : ℕ) (leaf : ℕ → α) (branch : ℕ → Option α) :
    IsBranch digest d leaf 0 branch := by
  intro k _ hk
  simp at hk

/-- A branch depends on the first `n` leaves only. -/
theorem IsBranch.congr {d : ℕ} {leaf leaf' : ℕ → α} {n : ℕ} {branch : ℕ → Option α}
    (hb : IsBranch digest d leaf n branch) (h : ∀ j < n, leaf j = leaf' j) :
    IsBranch digest d leaf' n branch := by
  intro k hkd hk
  rw [hb k hkd hk]
  congr 1
  refine node_congr _ _ fun j hj => h j ?_
  have h1 : n / 2 ^ k - 1 + 1 = n / 2 ^ k := Nat.sub_add_cancel (by
    rcases Nat.eq_zero_or_pos (n / 2 ^ k) with h0 | h0
    · rw [h0] at hk; simp at hk
    · exact h0)
  have h2 := hj.2
  rw [h1] at h2
  exact lt_of_lt_of_le h2 (Nat.div_mul_le_self n (2 ^ k))

theorem div_pow_succ (n k : ℕ) : n / 2 ^ (k + 1) = n / 2 ^ k / 2 := by
  rw [pow_succ, Nat.div_div_eq_div_mul]

section Append

variable {leaf : ℕ → α} {d n k : ℕ} {branch : ℕ → Option α}

theorem div_of_dvd_succ (hk : 2 ^ k ∣ n + 1) : n / 2 ^ k = (n + 1) / 2 ^ k - 1 := by
  obtain ⟨q, hq⟩ := hk
  have hpos : 0 < 2 ^ k := by positivity
  have hq0 : 0 < q := by
    rcases Nat.eq_zero_or_pos q with rfl | h
    · omega
    · exact h
  rw [hq, Nat.mul_div_cancel_left q hpos]
  rw [Nat.div_eq_iff hpos]
  have e : 2 ^ k * q = (q - 1) * 2 ^ k + 2 ^ k := by
    obtain ⟨m, rfl⟩ : ∃ m, q = m + 1 := ⟨q - 1, by omega⟩
    rw [Nat.add_sub_cancel]; ring
  constructor <;> omega

/-- One carry step: below the lowest set bit of `n + 1` the branch holds the left sibling. -/
theorem IsBranch.carry (hb : IsBranch digest d leaf n branch) (hkd : k < d) (hk : 2 ^ k ∣ n + 1)
    (heven : (n + 1) / 2 ^ k % 2 = 0) :
    2 ^ (k + 1) ∣ n + 1 ∧ ∃ b, branch k = some b ∧
      digest b (node digest leaf k ((n + 1) / 2 ^ k - 1)) =
        node digest leaf (k + 1) ((n + 1) / 2 ^ (k + 1) - 1) := by
  have hpos : 0 < 2 ^ k := by positivity
  have hdvd : 2 ^ (k + 1) ∣ n + 1 := by
    obtain ⟨q, hq⟩ := hk
    rw [hq, Nat.mul_div_cancel_left q hpos] at heven
    rw [hq, pow_succ]
    exact Nat.mul_dvd_mul_left _ (Nat.dvd_of_mod_eq_zero heven)
  have hsize : 2 ≤ (n + 1) / 2 ^ k := by
    have : 0 < (n + 1) / 2 ^ k := Nat.div_pos (Nat.le_of_dvd (by omega) hk) hpos
    omega
  have hdiv : n / 2 ^ k = (n + 1) / 2 ^ k - 1 := div_of_dvd_succ hk
  refine ⟨hdvd, _, hb k hkd (by omega), ?_⟩
  simp only [node]
  rw [div_pow_succ, hdiv]
  congr 2 <;> omega

/-- The bits below a power of two that divides `n` are clear. -/
theorem div_mod_two_of_dvd {n j : ℕ} (hk : 2 ^ k ∣ n) (hlt : j < k) : n / 2 ^ j % 2 = 0 := by
  obtain ⟨q, rfl⟩ : 2 ^ (j + 1) ∣ n := dvd_trans (pow_dvd_pow 2 hlt) hk
  rw [show 2 ^ (j + 1) * q = 2 ^ j * (2 * q) by ring, Nat.mul_div_cancel_left _ (by positivity)]
  omega

/-- A carry past the last height leaves every height below `d` clear. -/
theorem isBranch_overflow (hd : 2 ^ d ∣ n) : IsBranch digest d leaf n branch := by
  intro k hkd hk
  rw [div_mod_two_of_dvd hd hkd] at hk
  omega

/-- The end of the carry: the finished subtree takes its place in the branch. -/
theorem IsBranch.place (hb : IsBranch digest d leaf n branch) (hk : 2 ^ k ∣ n + 1)
    (hodd : (n + 1) / 2 ^ k % 2 = 1) :
    IsBranch digest d leaf (n + 1)
      (Function.update branch k (some (node digest leaf k ((n + 1) / 2 ^ k - 1)))) := by
  intro j hjd hj
  rcases lt_trichotomy j k with hlt | rfl | hgt
  · rw [div_mod_two_of_dvd hk hlt] at hj
    omega
  · simp
  · -- above `k` the bits of `n` and `n + 1` agree
    rw [Function.update_of_ne (by omega)]
    have hshift : n / 2 ^ j = (n + 1) / 2 ^ j := by
      obtain ⟨e, rfl⟩ : ∃ e, j = k + 1 + e := ⟨j - (k + 1), by omega⟩
      have hsplit : ∀ m, m / 2 ^ (k + 1 + e) = m / 2 ^ k / 2 / 2 ^ e := by
        intro m
        rw [pow_add, pow_succ, Nat.div_div_eq_div_mul, Nat.div_div_eq_div_mul, mul_assoc]
      have hhalf : ((n + 1) / 2 ^ k - 1) / 2 = (n + 1) / 2 ^ k / 2 := by
        generalize (n + 1) / 2 ^ k = q at hodd
        omega
      rw [hsplit, hsplit, div_of_dvd_succ hk, hhalf]
    rw [← hshift] at hj ⊢
    exact hb j hjd hj

end Append

section Climb

variable {leaf : ℕ → α} {d n : ℕ} {branch : ℕ → Option α}

/-- Climbing past a set bit: the branch holds the left sibling of the open node. -/
theorem IsBranch.climb_left (hb : IsBranch digest d leaf n branch) {k : ℕ} (hkd : k < d)
    (hodd : n / 2 ^ k % 2 = 1) :
    ∃ b, branch k = some b ∧
      digest b (node digest leaf k (n / 2 ^ k)) = node digest leaf (k + 1) (n / 2 ^ (k + 1)) := by
  refine ⟨_, hb k hkd hodd, ?_⟩
  rw [div_pow_succ]
  simp only [node]
  congr 2 <;> omega

/-- Climbing past a clear bit: everything to the right of the open node is zero. -/
theorem climb_zero {zero : α} (hz : ∀ j, n ≤ j → leaf j = zero) {k : ℕ}
    (heven : n / 2 ^ k % 2 = 0) :
    digest (node digest leaf k (n / 2 ^ k)) (zeroHash digest zero k) =
      node digest leaf (k + 1) (n / 2 ^ (k + 1)) := by
  rw [div_pow_succ]
  simp only [node]
  have hright : node digest leaf k (2 * (n / 2 ^ k / 2) + 1) = zeroHash digest zero k := by
    refine node_eq_zeroHash _ _ fun j hj => hz j ?_
    have h1 : 2 * (n / 2 ^ k / 2) + 1 = n / 2 ^ k + 1 := by omega
    have h2 := hj.1
    rw [h1] at h2
    exact le_trans (Nat.lt_mul_of_div_lt (by omega) (by positivity)).le h2
  rw [hright]
  congr 2
  omega

end Climb

end Merkle
