import CouncilDaemon.Lib.MerkleTree

/-!
# SSZ hash tree roots

The root of a byte vector is the root of its chunks of 32 bytes, the last of them filled up with
zeros; the root of a container is the root of the roots of its fields. Either way the tree is the
smallest one with room for them.

Two values of one type with the same root are the same value, if the digest is free of collisions
(`hashTreeRoot_injective`).
-/

namespace Ssz

variable {β : Type*}

/-! ## Chunks -/

/-- Chunk `i` of `bytes`. -/
def chunk (zero : β) (bytes : List β) (i : ℕ) : List β :=
  (List.range 32).map fun j => bytes.getD (32 * i + j) zero

/-- The chunks of a byte vector. -/
def pack (zero : β) (bytes : List β) : List (List β) :=
  (List.range ((bytes.length + 31) / 32)).map (chunk zero bytes)

theorem length_pack (zero : β) (bytes : List β) :
    (pack zero bytes).length = (bytes.length + 31) / 32 := by
  rw [pack, List.length_map, List.length_range]

/-- A chunk is a slice, filled up with zeros. -/
theorem chunk_eq_take (zero : β) (bytes : List β) (i : ℕ) :
    chunk zero bytes i = (bytes.drop (32 * i) ++ List.replicate 32 zero).take 32 := by
  apply List.ext_getElem
  · simp [chunk]
  · intro j hj hj'
    have hlt : j < 32 := by simpa [chunk] using hj
    simp only [chunk, List.getElem_map, List.getElem_range, List.getElem_take]
    by_cases hin : 32 * i + j < bytes.length
    · rw [List.getD_eq_getElem _ _ hin, List.getElem_append_left (by rw [List.length_drop]; omega),
        List.getElem_drop]
    · rw [List.getD_eq_default _ _ (not_lt.1 hin),
        List.getElem_append_right (by rw [List.length_drop]; omega), List.getElem_replicate]

/-- The chunks determine a vector of known length. -/
theorem pack_injective {zero : β} {bytes bytes' : List β} (hlength : bytes.length = bytes'.length)
    (h : pack zero bytes = pack zero bytes') : bytes = bytes' := by
  unfold pack at h
  rw [← hlength] at h
  apply List.ext_getElem hlength
  intro k hk hk'
  have hchunk : chunk zero bytes (k / 32) = chunk zero bytes' (k / 32) :=
    List.map_inj_left.1 h (k / 32) (List.mem_range.2 (by omega))
  have hbyte := List.map_inj_left.1 hchunk (k % 32) (List.mem_range.2 (Nat.mod_lt _ (by norm_num)))
  rwa [Nat.div_add_mod, List.getD_eq_getElem _ _ hk, List.getD_eq_getElem _ _ hk'] at hbyte

/-! ## Roots -/

/-- The least depth of a tree with room for `n` chunks. -/
def depth (n : ℕ) : ℕ := Nat.clog 2 n

theorem le_two_pow_depth (n : ℕ) : n ≤ 2 ^ depth n := Nat.le_pow_clog (by norm_num) n

variable (digest : List β → List β → List β) (zero : β)

def merkleize (chunks : List (List β)) : List β :=
  Merkle.root digest (List.replicate 32 zero) (depth chunks.length) chunks

section Small

variable (a b c d : List β)

theorem merkleize_one : merkleize digest zero [a] = a := by
  have hdepth : depth 1 = 0 := by norm_num [depth]
  simp [merkleize, hdepth, Merkle.root, Merkle.node, Merkle.pad]

theorem merkleize_two : merkleize digest zero [a, b] = digest a b := by
  have hdepth : depth 2 = 1 := by norm_num [depth]
  simp [merkleize, hdepth, Merkle.root, Merkle.node, Merkle.pad]

theorem merkleize_three : merkleize digest zero [a, b, c] =
    digest (digest a b) (digest c (List.replicate 32 zero)) := by
  have hdepth : depth 3 = 2 := by norm_num [depth]
  simp [merkleize, hdepth, Merkle.root, Merkle.node, Merkle.pad]

theorem merkleize_four : merkleize digest zero [a, b, c, d] =
    digest (digest a b) (digest c d) := by
  have hdepth : depth 4 = 2 := by norm_num [depth]
  simp [merkleize, hdepth, Merkle.root, Merkle.node, Merkle.pad]

end Small

/-- A value of a type of fixed size. -/
inductive Value (β : Type*) where
  | vector (bytes : List β)
  | container (fields : List (Value β))

mutual

def hashTreeRoot : Value β → List β
  | .vector bytes => merkleize digest zero (pack zero bytes)
  | .container fields => merkleize digest zero (hashTreeRoots fields)

def hashTreeRoots : List (Value β) → List (List β)
  | [] => []
  | value :: values => hashTreeRoot value :: hashTreeRoots values

end

/-! ## Types -/

mutual

/-- The values are of one type: their vectors have the same sizes. -/
def SameType : Value β → Value β → Prop
  | .vector bytes, .vector bytes' => bytes.length = bytes'.length
  | .container fields, .container fields' => SameTypes fields fields'
  | .vector _, .container _ => False
  | .container _, .vector _ => False

def SameTypes : List (Value β) → List (Value β) → Prop
  | [], [] => True
  | value :: values, value' :: values' => SameType value value' ∧ SameTypes values values'
  | [], _ :: _ => False
  | _ :: _, [] => False

end

variable {digest zero}

theorem length_hashTreeRoots (values : List (Value β)) :
    (hashTreeRoots digest zero values).length = values.length := by
  induction values with
  | nil => rfl
  | cons value values ih => rw [hashTreeRoots, List.length_cons, List.length_cons, ih]

theorem SameTypes.length_eq : ∀ {values values' : List (Value β)}, SameTypes values values' →
    values.length = values'.length := by
  intro values
  induction values with
  | nil =>
    intro values' h
    cases values' with
    | nil => rfl
    | cons value' values' => exact absurd h (by unfold SameTypes; exact id)
  | cons value values ih =>
    intro values' h
    cases values' with
    | nil => exact absurd h (by unfold SameTypes; exact id)
    | cons value' values' =>
      unfold SameTypes at h
      rw [List.length_cons, List.length_cons, ih h.2]

theorem merkleize_injective (hdigest : Function.Injective2 digest) {chunks chunks' : List (List β)}
    (hlength : chunks.length = chunks'.length)
    (h : merkleize digest zero chunks = merkleize digest zero chunks') : chunks = chunks' := by
  unfold merkleize at h
  rw [← hlength] at h
  exact Merkle.root_injective hdigest hlength (le_two_pow_depth _) h

mutual

/-- **The root determines the value.** -/
theorem hashTreeRoot_injective (hdigest : Function.Injective2 digest) :
    ∀ {value value' : Value β}, SameType value value' →
      hashTreeRoot digest zero value = hashTreeRoot digest zero value' → value = value'
  | .vector bytes, .vector bytes', htype, h => by
    unfold SameType at htype
    unfold hashTreeRoot at h
    have hpack := merkleize_injective hdigest (by rw [length_pack, length_pack, htype]) h
    rw [pack_injective htype hpack]
  | .container fields, .container fields', htype, h => by
    unfold SameType at htype
    unfold hashTreeRoot at h
    have hroots := merkleize_injective hdigest
      (by rw [length_hashTreeRoots, length_hashTreeRoots, htype.length_eq]) h
    rw [hashTreeRoots_injective hdigest htype hroots]
  | .vector _, .container _, htype, _ => by
    unfold SameType at htype
    exact htype.elim
  | .container _, .vector _, htype, _ => by
    unfold SameType at htype
    exact htype.elim

theorem hashTreeRoots_injective (hdigest : Function.Injective2 digest) :
    ∀ {values values' : List (Value β)}, SameTypes values values' →
      hashTreeRoots digest zero values = hashTreeRoots digest zero values' → values = values'
  | [], [], _, _ => rfl
  | value :: values, value' :: values', htypes, h => by
    unfold SameTypes at htypes
    unfold hashTreeRoots at h
    obtain ⟨hroot, hroots⟩ := List.cons.inj h
    rw [hashTreeRoot_injective hdigest htypes.1 hroot,
      hashTreeRoots_injective hdigest htypes.2 hroots]
  | [], _ :: _, htypes, _ => by
    unfold SameTypes at htypes
    exact htypes.elim
  | _ :: _, [], htypes, _ => by
    unfold SameTypes at htypes
    exact htypes.elim

end

end Ssz
