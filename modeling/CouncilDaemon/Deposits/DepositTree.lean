import CouncilDaemon.Lib.FixedWidth
import CouncilDaemon.Lib.MerkleTree
import CouncilDaemon.Lib.Service

/-!
# The deposit tree

The incremental deposit tree of the integrity checker: `insert` pushes one deposit data root into
the branch, `getRoot` folds the branch with the zero hashes and mixes in the count.

`Holds t l`: the tree was built from the leaves `l`. A fresh tree holds nothing (`holds_new`), an
insert with the next deposit count appends a leaf and returns true (`insert_next`), an insert with
another count changes nothing (`insert_other`), and the root of a tree that holds `l` is the root of
the deposit contract over `l` (`getRoot_of_holds`). Together they give the root of a tree built from
nothing (`getRoot_insertAll`). With hash functions free of collisions the root determines the leaves
(`depositRoot_injective`).
-/

namespace CouncilDaemon

/-- A `Uint8Array`. -/
abbrev Bytes : Type := List UInt8

/-- The `width` low bytes of `n`, lowest first. -/
def littleEndian (width n : ℕ) : Bytes :=
  (List.range width).map fun i => UInt8.ofNat (n / 256 ^ i)

/-- What the tree uses of the hashing packages. `uintNum64` serializes a number of at most 53 bits
to its eight bytes, lowest first; the packed encoding that `soliditySha256` hashes is the
concatenation of its arguments. -/
structure Crypto where
  digest2Bytes32 : Bytes → Bytes → Bytes
  uintNum64 : ℕ → Bytes
  soliditySha256 : List Bytes → String
  sha256 : Bytes → String
  uintNum64_eq : ∀ n < 2 ^ 53, uintNum64 n = littleEndian 8 n
  soliditySha256_eq : ∀ values, soliditySha256 values = sha256 values.flatten

/-- Stand-ins for the hashes that keep their whole input: the length of the first argument is
written in front of the two. -/
def Crypto.framed : Crypto where
  digest2Bytes32 a b := List.replicate a.length 1 ++ 0 :: (a ++ b)
  uintNum64 := littleEndian 8
  soliditySha256 values := String.ofList (values.flatten.map fun b => Char.ofNat b.toNat)
  sha256 bytes := String.ofList (bytes.map fun b => Char.ofNat b.toNat)
  uintNum64_eq _ _ := rfl
  soliditySha256_eq _ := rfl

/-! ## The source -/

def depositContractTreeDepth : ℕ := 32

def zeroHash : Bytes := List.replicate 32 0

def zeroHashRoot : Bytes := List.replicate 24 0

/-- `branch` and `zeroHashes` are sparse arrays: an entry that was never written is undefined. -/
structure DepositTree where
  zeroHashes : ℕ → Option Bytes
  branch : ℕ → Option Bytes
  nodeCount : ℕ

namespace DepositTree

variable (C : Crypto)

/-- The digest of two array entries; reading the length of an undefined entry throws. -/
def digest : Option Bytes → Option Bytes → Except String Bytes
  | some a, some b => .ok (C.digest2Bytes32 a b)
  | _, _ => .error "TypeError: Cannot read properties of undefined (reading 'length')"

/-- The zero hashes after the loop of the constructor has run for the heights below `height`. -/
def formZeroHashes : ℕ → ℕ → Option Bytes
  | 0 => Function.update (fun _ => none) 0 (some zeroHash)
  | height + 1 => Function.update (formZeroHashes height) (height + 1)
      ((formZeroHashes height height).map fun h => C.digest2Bytes32 h h)

/-- `new DepositTree()`. -/
def new : DepositTree where
  zeroHashes := formZeroHashes C (depositContractTreeDepth - 1)
  branch := fun _ => none
  nodeCount := 0

/-- The loop of `formBranch`, from `height` up. -/
def formBranchFrom : (rounds height : ℕ) → Bytes → ℕ → Service DepositTree Unit
  | 0, _, _, _ => pure ()
  | rounds + 1, height, node, size => do
    let tree ← get
    if size % 2 = 1 then
      set { tree with branch := Function.update tree.branch height (some node) }
    else
      let node ← Service.call (digest C (tree.branch height) (some node))
      formBranchFrom rounds (height + 1) node (size / 2)

def formBranch (node : Bytes) (depositCount : ℕ) : Service DepositTree Unit :=
  formBranchFrom C depositContractTreeDepth 0 node depositCount

def insert (node : Bytes) (depositCount : ℕ) : Service DepositTree Bool := do
  let tree ← get
  if depositCount ≠ tree.nodeCount then
    return false
  else
    set { tree with nodeCount := tree.nodeCount + 1 }
    formBranch C node (tree.nodeCount + 1)
    return true

/-- The loop of `getRoot`, from `height` up. -/
def climb (tree : DepositTree) : (rounds height : ℕ) → Bytes → ℕ → Except String Bytes
  | 0, _, node, _ => .ok node
  | rounds + 1, height, node, size => do
    let node ←
      if size % 2 = 1 then digest C (tree.branch height) (some node)
      else digest C (some node) (tree.zeroHashes height)
    climb tree rounds (height + 1) node (size / 2)

def getRoot (tree : DepositTree) : Except String String := do
  let node ← climb C tree depositContractTreeDepth 0 zeroHash tree.nodeCount
  return C.soliditySha256 [node, C.uintNum64 tree.nodeCount, zeroHashRoot]

def clone (tree : DepositTree) : DepositTree :=
  { new C with branch := tree.branch, nodeCount := tree.nodeCount }

/-! ## The reference root -/

/-- `get_deposit_root` of the deposit contract after the deposits `l`: the root of the tree of depth
32 over `l` padded with zero leaves, then the count in eight little-endian bytes, then 24 zero
bytes, hashed. -/
def depositRoot (l : List Bytes) : String :=
  C.sha256 (Merkle.root C.digest2Bytes32 zeroHash 32 l ++ littleEndian 8 l.length ++
    List.replicate 24 0)

/-! ## What a tree holds -/

/-- The tree was built from the leaves `l`. -/
structure Holds (tree : DepositTree) (l : List Bytes) : Prop where
  nodeCount_eq : tree.nodeCount = l.length
  zeroHashes_eq : ∀ k < 32, tree.zeroHashes k = some (Merkle.zeroHash C.digest2Bytes32 zeroHash k)
  isBranch : Merkle.IsBranch C.digest2Bytes32 32 (Merkle.pad zeroHash l) l.length tree.branch

variable {C}

theorem formZeroHashes_apply (h : ℕ) :
    ∀ k ≤ h, formZeroHashes C h k = some (Merkle.zeroHash C.digest2Bytes32 zeroHash k) := by
  induction h with
  | zero => intro k hk; obtain rfl : k = 0 := by omega
            simp [formZeroHashes, Merkle.zeroHash]
  | succ h ih =>
    intro k hk
    by_cases hkh : k = h + 1
    · subst hkh
      simp [formZeroHashes, ih h (le_refl h), Merkle.zeroHash]
    · rw [formZeroHashes, Function.update_of_ne hkh]
      exact ih k (by omega)

/-- A fresh tree holds no leaves. -/
theorem holds_new : Holds C (new C) [] where
  nodeCount_eq := rfl
  zeroHashes_eq k hk := formZeroHashes_apply _ k (by unfold depositContractTreeDepth; omega)
  isBranch := Merkle.isBranch_zero _ _ _

/-- A clone holds what the original holds. -/
theorem Holds.clone {tree : DepositTree} {l : List Bytes} (h : Holds C tree l) :
    Holds C (tree.clone C) l where
  nodeCount_eq := h.nodeCount_eq
  zeroHashes_eq := holds_new.zeroHashes_eq
  isBranch := h.isBranch

/-! ## Insertion -/

/-- The carry loop turns the branch of `n` leaves into the branch of `n + 1`. -/
theorem run_formBranchFrom {leaf : ℕ → Bytes} {n : ℕ} :
    ∀ (rounds height : ℕ) (tree : DepositTree), height + rounds = 32 →
      2 ^ height ∣ n + 1 → Merkle.IsBranch C.digest2Bytes32 32 leaf n tree.branch →
      ∃ branch, (formBranchFrom C rounds height
          (Merkle.node C.digest2Bytes32 leaf height ((n + 1) / 2 ^ height - 1))
          ((n + 1) / 2 ^ height)).run tree = .ok () { tree with branch := branch } ∧
        Merkle.IsBranch C.digest2Bytes32 32 leaf (n + 1) branch := by
  intro rounds
  induction rounds with
  | zero =>
    intro height tree hsum hdvd _
    obtain rfl : height = 32 := by omega
    exact ⟨tree.branch, rfl, Merkle.isBranch_overflow hdvd⟩
  | succ rounds ih =>
    intro height tree hsum hdvd hb
    by_cases hodd : (n + 1) / 2 ^ height % 2 = 1
    · refine ⟨_, ?_, hb.place hdvd hodd⟩
      simp [formBranchFrom, hodd]
    · obtain ⟨hdvd', b, hbr, hnode⟩ := hb.carry (k := height) (by omega) hdvd (by omega)
      obtain ⟨branch, hrun, hb'⟩ := ih (height + 1) tree (by omega) hdvd' hb
      refine ⟨branch, ?_, hb'⟩
      simp only [formBranchFrom, EStateM.run_bind, EStateM.run_get, hodd, if_false, hbr, digest,
        Service.run_call_ok, hnode, ← Merkle.div_pow_succ]
      exact hrun

/-- **Insertion.** An insert with the next deposit count succeeds and appends its leaf. -/
theorem insert_next {tree : DepositTree} {l : List Bytes} (h : Holds C tree l) (node : Bytes) :
    ∃ tree', (insert C node l.length).run tree = .ok true tree' ∧ Holds C tree' (l ++ [node]) := by
  have hb : Merkle.IsBranch C.digest2Bytes32 32 (Merkle.pad zeroHash (l ++ [node])) l.length
      tree.branch := h.isBranch.congr fun j hj => (Merkle.pad_append_lt hj).symm
  obtain ⟨branch, hrun, hb'⟩ := run_formBranchFrom 32 0
    { tree with nodeCount := tree.nodeCount + 1 } rfl (by simp) hb
  refine ⟨{ tree with nodeCount := tree.nodeCount + 1, branch := branch }, ?_, ?_⟩
  · have hnode : Merkle.node C.digest2Bytes32 (Merkle.pad zeroHash (l ++ [node])) 0
        ((l.length + 1) / 2 ^ 0 - 1) = node := by
      simpa [Merkle.node] using Merkle.pad_append_length zeroHash node l
    rw [hnode, pow_zero, Nat.div_one] at hrun
    have hcount : ¬ l.length ≠ tree.nodeCount := not_not.2 h.nodeCount_eq.symm
    rw [← h.nodeCount_eq] at hrun
    simp only [insert, EStateM.run_bind, EStateM.run_get, hcount, if_false, EStateM.run_set,
      formBranch, depositContractTreeDepth, hrun, EStateM.run_pure]
  · exact ⟨by simp [h.nodeCount_eq], h.zeroHashes_eq, by simpa using hb'⟩

/-- An insert with any other deposit count returns false and changes nothing. -/
theorem insert_other {tree : DepositTree} (node : Bytes) {depositCount : ℕ}
    (h : depositCount ≠ tree.nodeCount) :
    (insert C node depositCount).run tree = .ok false tree := by
  simp [insert, h]

/-! ## The root -/

/-- The climb computes the open node of every height. -/
theorem climb_eq {tree : DepositTree} {l : List Bytes} (h : Holds C tree l) :
    ∀ (rounds height : ℕ), height + rounds = 32 →
      climb C tree rounds height
          (Merkle.node C.digest2Bytes32 (Merkle.pad zeroHash l) height (l.length / 2 ^ height))
          (l.length / 2 ^ height) =
        .ok (Merkle.node C.digest2Bytes32 (Merkle.pad zeroHash l) 32 (l.length / 2 ^ 32)) := by
  intro rounds
  induction rounds with
  | zero => intro height hsum; obtain rfl : height = 32 := by omega
            rfl
  | succ rounds ih =>
    intro height hsum
    unfold climb
    by_cases hodd : l.length / 2 ^ height % 2 = 1
    · obtain ⟨b, hbr, hnode⟩ := h.isBranch.climb_left (k := height) (by omega) hodd
      rw [if_pos hodd, hbr]
      simp only [digest, hnode, ← Merkle.div_pow_succ]
      exact ih (height + 1) (by omega)
    · have hnode : C.digest2Bytes32 (Merkle.node C.digest2Bytes32 (Merkle.pad zeroHash l) height
          (l.length / 2 ^ height)) (Merkle.zeroHash C.digest2Bytes32 zeroHash height) = _ :=
        Merkle.climb_zero (fun j hj => Merkle.pad_eq_zero hj) (by omega)
      rw [if_neg hodd, h.zeroHashes_eq height (by omega)]
      simp only [digest, hnode, ← Merkle.div_pow_succ]
      exact ih (height + 1) (by omega)

/-- The root of a tree is the hash of the node it climbs to and of its count. -/
theorem getRoot_eq {tree : DepositTree} {l : List Bytes} (h : Holds C tree l) :
    getRoot C tree = .ok (C.sha256 (Merkle.node C.digest2Bytes32 (Merkle.pad zeroHash l) 32
      (l.length / 2 ^ 32) ++ C.uintNum64 l.length ++ zeroHashRoot)) := by
  have hopen : Merkle.node C.digest2Bytes32 (Merkle.pad zeroHash l) 0 l.length = zeroHash :=
    Merkle.pad_eq_zero (le_refl l.length)
  have hclimb := climb_eq h 32 0 rfl
  rw [pow_zero, Nat.div_one, hopen] at hclimb
  unfold getRoot depositContractTreeDepth
  rw [h.nodeCount_eq, hclimb]
  show Except.ok (C.soliditySha256 [_, C.uintNum64 l.length, zeroHashRoot]) = _
  rw [C.soliditySha256_eq]
  simp

/-- **The root.** A tree that holds `l` has the root of the deposit contract over `l`. -/
theorem getRoot_of_holds {tree : DepositTree} {l : List Bytes} (h : Holds C tree l)
    (hl : l.length < 2 ^ 32) : getRoot C tree = .ok (depositRoot C l) := by
  rw [getRoot_eq h, Nat.div_eq_of_lt hl, C.uintNum64_eq _ (by omega)]
  rfl

/-! ## Building a tree -/

variable (C) in
/-- The inserts of `leaves`, counted from `depositCount` on. -/
def insertAll : (leaves : List Bytes) → (depositCount : ℕ) → Service DepositTree (List Bool)
  | [], _ => return []
  | node :: leaves, depositCount => do
    let insertionIsMade ← insert C node depositCount
    let insertionsAreMade ← insertAll leaves (depositCount + 1)
    return insertionIsMade :: insertionsAreMade

/-- Inserts that continue the count all succeed and append their leaves. -/
theorem run_insertAll : ∀ (leaves : List Bytes) {tree : DepositTree} {l : List Bytes},
    Holds C tree l →
      ∃ tree', (insertAll C leaves l.length).run tree =
        .ok (List.replicate leaves.length true) tree' ∧ Holds C tree' (l ++ leaves) := by
  intro leaves
  induction leaves with
  | nil =>
    intro tree l h
    exact ⟨tree, rfl, by simpa using h⟩
  | cons node leaves ih =>
    intro tree l h
    obtain ⟨tree₁, hinsert, h₁⟩ := insert_next h node
    obtain ⟨tree₂, hrest, h₂⟩ := ih h₁
    refine ⟨tree₂, ?_, by simpa using h₂⟩
    rw [List.length_append, List.length_singleton] at hrest
    simp only [insertAll, EStateM.run_bind, hinsert, hrest, EStateM.run_pure, List.length_cons,
      List.replicate_succ]

/-- **The root of a tree built from nothing.** Inserting fewer than `2 ^ 32` leaves with the deposit
counts from zero on succeeds, and the root is the root of the deposit contract over the leaves. In
any tree an insert with another count than the next one returns false and changes nothing. -/
theorem getRoot_insertAll (C : Crypto) (l : List Bytes) (hl : l.length < 2 ^ 32) :
    (∃ tree, (insertAll C l 0).run (new C) = .ok (List.replicate l.length true) tree ∧
      getRoot C tree = .ok (depositRoot C l)) ∧
    ∀ (tree : DepositTree) (node : Bytes) (depositCount : ℕ), depositCount ≠ tree.nodeCount →
      (insert C node depositCount).run tree = .ok false tree := by
  refine ⟨?_, fun tree node depositCount h => insert_other node h⟩
  obtain ⟨tree, hrun, h⟩ := run_insertAll l (holds_new (C := C))
  exact ⟨tree, hrun, getRoot_of_holds (by simpa using h) hl⟩

/-- Two leaves in a row. -/
theorem getRoot_insertAll_two :
    (∃ tree, (insertAll .framed [zeroHash, [1]] 0).run (new .framed) = .ok [true, true] tree ∧
      getRoot .framed tree = .ok (depositRoot .framed [zeroHash, [1]])) ∧
    ∀ (tree : DepositTree) (node : Bytes) (depositCount : ℕ), depositCount ≠ tree.nodeCount →
      (insert .framed node depositCount).run tree = .ok false tree :=
  getRoot_insertAll .framed [zeroHash, [1]] (by decide)

/-! ## The root determines the leaves -/

theorem littleEndian_eq (w n : ℕ) :
    littleEndian w n = ((FixedWidth.digits 256 w n).map UInt8.ofNat).reverse := by
  unfold littleEndian
  induction w with
  | zero => rfl
  | succ w ih =>
    have hdigit : UInt8.ofNat (n / 256 ^ w % 256) = UInt8.ofNat (n / 256 ^ w) :=
      UInt8.toNat_inj.1 (by simp)
    rw [List.range_succ, List.map_append, List.map_singleton, ih]
    rw [FixedWidth.digits, List.map_cons, List.reverse_cons, hdigit]

theorem length_littleEndian (w n : ℕ) : (littleEndian w n).length = w := by
  simp [littleEndian]

theorem littleEndian_injective {w n m : ℕ} (hn : n < 256 ^ w) (hm : m < 256 ^ w)
    (h : littleEndian w n = littleEndian w m) : n = m := by
  have hback : ∀ k, ((FixedWidth.digits 256 w k).map UInt8.ofNat).map UInt8.toNat =
      FixedWidth.digits 256 w k := by
    intro k
    rw [List.map_map]
    refine (List.map_congr_left fun d hd => ?_).trans (List.map_id _)
    have := FixedWidth.lt_of_mem_digits (by norm_num) hd
    exact UInt8.toNat_ofNat_of_lt' this
  rw [littleEndian_eq, littleEndian_eq, List.reverse_inj] at h
  refine FixedWidth.digits_injective hn hm ?_
  rw [← hback n, ← hback m, h]

/-- **Collisions apart, the root determines the leaves.** -/
theorem depositRoot_injective (hdigest : Function.Injective2 C.digest2Bytes32)
    (hsha : Function.Injective C.sha256) {l l' : List Bytes} (hl : l.length < 2 ^ 32)
    (hl' : l'.length < 2 ^ 32) (h : depositRoot C l = depositRoot C l') : l = l' := by
  have happ := (List.append_inj' (hsha h) rfl).1
  obtain ⟨hroot, hcount⟩ := List.append_inj' happ (by simp [length_littleEndian])
  have hlen := littleEndian_injective (by omega) (by omega) hcount
  exact Merkle.root_injective hdigest hlen hl.le hroot

/-- Collisions apart, a tree with the root of the deposit contract over `onChain` holds `onChain`,
also when it was given too many leaves. -/
theorem eq_of_getRoot (hdigest : Function.Injective2 C.digest2Bytes32)
    (hsha : Function.Injective C.sha256) {tree : DepositTree} {l onChain : List Bytes}
    (h : Holds C tree l) (hl : l.length < 2 ^ 53) (hn : onChain.length < 2 ^ 32)
    (hroot : getRoot C tree = .ok (depositRoot C onChain)) : l = onChain := by
  have hlength : l.length = onChain.length := by
    rw [getRoot_eq h, C.uintNum64_eq _ hl] at hroot
    have happ := (List.append_inj' (hsha (Except.ok.inj hroot)) rfl).1
    have hcount := (List.append_inj' happ (by simp [length_littleEndian])).2
    exact littleEndian_injective (by omega) (by omega) hcount
  rw [getRoot_of_holds h (by omega)] at hroot
  exact depositRoot_injective hdigest hsha (by omega) hn (Except.ok.inj hroot)

end DepositTree

end CouncilDaemon
