import CouncilDaemon.Deposits.Records
import CouncilDaemon.Lib.SolidityPack
import CouncilDaemon.Lib.Ssz

/-!
# The data of a deposit

The deposit contract hashes a deposit to a leaf of its tree (`Deposit.node`), and logs its fields. The
daemon computes the leaf from the logged fields, as the root of an SSZ container (`formDepositNode`).
Both come to the same (`formDepositNode_nodeData`), and with a digest free of collisions the leaf
determines the deposit (`Deposit.node_injective`).
-/

namespace CouncilDaemon

/-! ## Hexadecimal text -/

/-- `toHexString`; the provider writes the bytes of an event in the same way. -/
def toHexString (bytes : Bytes) : String := "0x" ++ toHex (bytes.map UInt8.toNat)

/-! ## The containers -/

namespace BlsContainers

structure DepositMessage where
  pubkey : Bytes
  withdrawalCredentials : Bytes
  amount : ℕ

structure DepositData where
  pubkey : Bytes
  withdrawalCredentials : Bytes
  amount : ℕ
  signature : Bytes

structure ForkData where
  currentVersion : Bytes
  genesisValidatorsRoot : Bytes

structure SigningData where
  objectRoot : Bytes
  domain : Bytes

/-- `BLSPubkey`, `Bytes32` and `UintNum64`; a number of more than 53 bits has no exact value. -/
def DepositMessage.IsValue (message : DepositMessage) : Prop :=
  message.pubkey.length = 48 ∧ message.withdrawalCredentials.length = 32 ∧ message.amount < 2 ^ 53

def DepositData.IsValue (data : DepositData) : Prop :=
  data.pubkey.length = 48 ∧ data.withdrawalCredentials.length = 32 ∧ data.amount < 2 ^ 53 ∧
    data.signature.length = 96

/-- A number as its eight bytes, lowest first. -/
def uint64 (n : ℕ) : Ssz.Value UInt8 := .vector (littleEndian 8 n)

def DepositMessage.toValue (message : DepositMessage) : Ssz.Value UInt8 :=
  .container [.vector message.pubkey, .vector message.withdrawalCredentials, uint64 message.amount]

def DepositData.toValue (data : DepositData) : Ssz.Value UInt8 :=
  .container [.vector data.pubkey, .vector data.withdrawalCredentials, uint64 data.amount,
    .vector data.signature]

end BlsContainers

open BlsContainers

/-- What is used of the SSZ package. The roots are those of SSZ over the digest, for values of the
types; a root is a single chunk. -/
structure SszPackage (C : Crypto) where
  fromHexString : String → Except String Bytes
  /-- `ByteVectorType(size).fromJson`. -/
  byteVectorFromJson : (size : ℕ) → String → Except String Bytes
  /-- `UintNum64.deserialize`. -/
  deserializeUintNum64 : Bytes → Except String ℕ
  depositMessageRoot : DepositMessage → Bytes
  depositDataRoot : DepositData → Bytes
  forkDataRoot : ForkData → Bytes
  signingDataRoot : SigningData → Bytes
  fromHexString_toHexString : ∀ bytes, fromHexString (toHexString bytes) = .ok bytes
  byteVectorFromJson_eq_ok : ∀ size text bytes, byteVectorFromJson size text = .ok bytes ↔
    fromHexString text = .ok bytes ∧ bytes.length = size
  deserializeUintNum64_littleEndian : ∀ n < 2 ^ 53,
    deserializeUintNum64 (littleEndian 8 n) = .ok n
  depositMessageRoot_eq : ∀ message : DepositMessage, message.IsValue →
    depositMessageRoot message = Ssz.hashTreeRoot C.digest2Bytes32 0 message.toValue
  depositDataRoot_eq : ∀ data : DepositData, data.IsValue →
    depositDataRoot data = Ssz.hashTreeRoot C.digest2Bytes32 0 data.toValue
  signingDataRoot_eq : ∀ data : SigningData, (∃ a b, data.objectRoot = C.digest2Bytes32 a b) →
    data.domain.length = 32 →
    signingDataRoot data = C.digest2Bytes32 data.objectRoot data.domain

namespace SszPackage

/-! ### An instance -/

/-- The number whose bytes are `bytes`, lowest first. -/
def ofLittleEndian (bytes : Bytes) : ℕ := bytes.foldr (fun byte n => byte.toNat + 256 * n) 0

theorem ofLittleEndian_littleEndian (w : ℕ) : ∀ n, ofLittleEndian (littleEndian w n) = n % 256 ^ w := by
  induction w with
  | zero =>
    intro n
    simp [ofLittleEndian, littleEndian, Nat.mod_one]
  | succ w ih =>
    intro n
    have hcons : littleEndian (w + 1) n = UInt8.ofNat n :: littleEndian w (n / 256) := by
      unfold littleEndian
      rw [List.range_succ_eq_map, List.map_cons, List.map_map, pow_zero, Nat.div_one]
      congr 1
      refine List.map_congr_left fun i _ => ?_
      rw [Function.comp_apply, pow_succ', Nat.div_div_eq_div_mul]
    have hlow : (UInt8.ofNat n).toNat = n % 256 := rfl
    rw [hcons, pow_succ', Nat.mod_mul, ← ih, ← hlow]
    rfl

theorem arrayify_toHexString (bytes : Bytes) :
    SolidityPack.arrayify (toHexString bytes) = .ok bytes := by
  have hdigits : ((bytes.map UInt8.toNat).flatMap (FixedWidth.digits 16 2)).map Nat.digitChar =
      (bytes.map UInt8.toNat).flatMap fun n => (FixedWidth.digits 16 (2 * 1) n).map Nat.digitChar :=
    List.map_flatMap
  have hbytes : (bytes.map UInt8.toNat).flatMap (SolidityPack.bigEndian 1) = bytes := by
    rw [List.flatMap_map]
    conv_rhs => rw [← List.flatMap_singleton' bytes]
    refine List.flatMap_congr fun byte _ => ?_
    have hlt := byte.toNat_lt
    simp [SolidityPack.bigEndian, FixedWidth.digits]
  have htext : (toHexString bytes).toList = '0' :: 'x' ::
      ((bytes.map UInt8.toNat).flatMap (FixedWidth.digits 16 2)).map Nat.digitChar := by
    rw [toHexString, toHex, String.toList_append, String.toList_ofList, String.toList_ofList]
    rfl
  unfold SolidityPack.arrayify
  rw [htext]
  simp only [hdigits, SolidityPack.hexBytes?_flatMap, hbytes]

/-- The roots by their definition, numbers without rounding. -/
def standard (C : Crypto) : SszPackage C where
  fromHexString := SolidityPack.arrayify
  byteVectorFromJson size text := do
    let bytes ← SolidityPack.arrayify text
    if bytes.length = size then return bytes else throw "Invalid size"
  deserializeUintNum64 bytes :=
    if bytes.length = 8 then .ok (ofLittleEndian bytes) else .error "Invalid size"
  depositMessageRoot message := Ssz.hashTreeRoot C.digest2Bytes32 0 message.toValue
  depositDataRoot data := Ssz.hashTreeRoot C.digest2Bytes32 0 data.toValue
  forkDataRoot data := Ssz.hashTreeRoot C.digest2Bytes32 0
    (.container [.vector data.currentVersion, .vector data.genesisValidatorsRoot])
  signingDataRoot data := C.digest2Bytes32 data.objectRoot data.domain
  fromHexString_toHexString := arrayify_toHexString
  byteVectorFromJson_eq_ok size text bytes := by
    cases SolidityPack.arrayify text with
    | error e => simp [bind, Except.bind]
    | ok value =>
      simp only [bind, Except.bind]
      split_ifs with hsize
      · constructor
        · rintro ⟨⟩
          exact ⟨rfl, hsize⟩
        · rintro ⟨⟨⟩, _⟩
          rfl
      · constructor
        · rintro ⟨⟩
        · rintro ⟨⟨⟩, hlength⟩
          exact absurd hlength hsize
  deserializeUintNum64_littleEndian n hn := by
    rw [if_pos (DepositTree.length_littleEndian 8 n), ofLittleEndian_littleEndian,
      Nat.mod_eq_of_lt (by omega)]
  depositMessageRoot_eq _ _ := rfl
  depositDataRoot_eq _ _ := rfl
  signingDataRoot_eq _ _ _ := rfl

end SszPackage

/-! ## The node of a deposit -/

/-- `NodeData`; the fields of a deposit as the provider writes them. -/
structure NodeData where
  pubkey : String
  wc : String
  amount : String
  signature : String
  deriving DecidableEq

section Source

variable {C : Crypto} (ssz : SszPackage C)

def parseLittleEndian64 (str : String) : Except String ℕ := do
  ssz.deserializeUintNum64 (← ssz.fromHexString str)

/-- `DepositTree.formDepositNode`. -/
def formDepositNode (nodeData : NodeData) : Except String Bytes := do
  let withdrawalCredentials ← ssz.fromHexString nodeData.wc
  let pubkey ← ssz.fromHexString nodeData.pubkey
  let signature ← ssz.fromHexString nodeData.signature
  let amount ← parseLittleEndian64 ssz nodeData.amount
  return ssz.depositDataRoot { pubkey, withdrawalCredentials, amount, signature }

end Source

/-! ## Deposits -/

/-- A deposit that the deposit contract takes; the amount is in gwei. -/
@[ext] structure Deposit where
  pubkey : Bytes
  withdrawalCredentials : Bytes
  amount : ℕ
  signature : Bytes
  length_pubkey : pubkey.length = 48
  length_withdrawalCredentials : withdrawalCredentials.length = 32
  amount_lt : amount < 2 ^ 53
  length_signature : signature.length = 96

namespace Deposit

/-- `node` of `deposit` in the deposit contract. -/
def node (C : Crypto) (d : Deposit) : Bytes :=
  let pubkeyRoot := C.digest2Bytes32 (d.pubkey.take 32) (d.pubkey.drop 32 ++ List.replicate 16 0)
  let signatureRoot := C.digest2Bytes32
    (C.digest2Bytes32 (d.signature.take 32) ((d.signature.drop 32).take 32))
    (C.digest2Bytes32 (d.signature.drop 64) (List.replicate 32 0))
  C.digest2Bytes32 (C.digest2Bytes32 pubkeyRoot d.withdrawalCredentials)
    (C.digest2Bytes32 (littleEndian 8 d.amount ++ List.replicate 24 0) signatureRoot)

/-- The logged fields of a deposit, as the provider writes them. -/
def nodeData (d : Deposit) : NodeData where
  pubkey := toHexString d.pubkey
  wc := toHexString d.withdrawalCredentials
  amount := toHexString (littleEndian 8 d.amount)
  signature := toHexString d.signature

def toDepositData (d : Deposit) : DepositData where
  pubkey := d.pubkey
  withdrawalCredentials := d.withdrawalCredentials
  amount := d.amount
  signature := d.signature

variable {C : Crypto} (d : Deposit)

theorem isValue : d.toDepositData.IsValue :=
  ⟨d.length_pubkey, d.length_withdrawalCredentials, d.amount_lt, d.length_signature⟩

theorem hashTreeRoot_pubkey : Ssz.hashTreeRoot C.digest2Bytes32 0 (.vector d.pubkey) =
    C.digest2Bytes32 (d.pubkey.take 32) (d.pubkey.drop 32 ++ List.replicate 16 0) := by
  have hlength := d.length_pubkey
  have hpack : Ssz.pack 0 d.pubkey =
      [d.pubkey.take 32, d.pubkey.drop 32 ++ List.replicate 16 0] := by
    simp [Ssz.pack, hlength, List.range_succ, Ssz.chunk_eq_take, List.take_append]
  rw [Ssz.hashTreeRoot, hpack, Ssz.merkleize_two]

theorem hashTreeRoot_withdrawalCredentials :
    Ssz.hashTreeRoot C.digest2Bytes32 0 (.vector d.withdrawalCredentials) =
      d.withdrawalCredentials := by
  have hlength := d.length_withdrawalCredentials
  have hpack : Ssz.pack 0 d.withdrawalCredentials = [d.withdrawalCredentials] := by
    simp [Ssz.pack, hlength, List.range_succ, Ssz.chunk_eq_take]
  rw [Ssz.hashTreeRoot, hpack, Ssz.merkleize_one]

theorem hashTreeRoot_uint64 (n : ℕ) : Ssz.hashTreeRoot C.digest2Bytes32 0 (uint64 n) =
    littleEndian 8 n ++ List.replicate 24 0 := by
  have hpack : Ssz.pack 0 (littleEndian 8 n) = [littleEndian 8 n ++ List.replicate 24 0] := by
    simp [Ssz.pack, DepositTree.length_littleEndian, List.range_succ, Ssz.chunk_eq_take,
      List.take_append]
  rw [uint64, Ssz.hashTreeRoot, hpack, Ssz.merkleize_one]

theorem hashTreeRoot_signature : Ssz.hashTreeRoot C.digest2Bytes32 0 (.vector d.signature) =
    C.digest2Bytes32
      (C.digest2Bytes32 (d.signature.take 32) ((d.signature.drop 32).take 32))
      (C.digest2Bytes32 (d.signature.drop 64) (List.replicate 32 0)) := by
  have hlength := d.length_signature
  have hpack : Ssz.pack 0 d.signature =
      [d.signature.take 32, (d.signature.drop 32).take 32, d.signature.drop 64] := by
    simp [Ssz.pack, hlength, List.range_succ, Ssz.chunk_eq_take, List.take_append]
  rw [Ssz.hashTreeRoot, hpack, Ssz.merkleize_three]

/-- The contract computes the SSZ root of the deposit. -/
theorem node_eq : d.node C = Ssz.hashTreeRoot C.digest2Bytes32 0 d.toDepositData.toValue := by
  show _ = Ssz.merkleize C.digest2Bytes32 0 [
    Ssz.hashTreeRoot C.digest2Bytes32 0 (.vector d.pubkey),
    Ssz.hashTreeRoot C.digest2Bytes32 0 (.vector d.withdrawalCredentials),
    Ssz.hashTreeRoot C.digest2Bytes32 0 (uint64 d.amount),
    Ssz.hashTreeRoot C.digest2Bytes32 0 (.vector d.signature)]
  rw [Ssz.merkleize_four, hashTreeRoot_pubkey, hashTreeRoot_withdrawalCredentials,
    hashTreeRoot_uint64, hashTreeRoot_signature]
  rfl

/-- **The leaf.** The daemon computes the leaf that the contract computes. -/
theorem formDepositNode_nodeData (ssz : SszPackage C) :
    formDepositNode ssz d.nodeData = .ok (d.node C) := by
  have hroot := ssz.depositDataRoot_eq d.toDepositData d.isValue
  rw [← node_eq] at hroot
  have hamount : parseLittleEndian64 ssz d.nodeData.amount = .ok d.amount := by
    unfold parseLittleEndian64 nodeData
    rw [ssz.fromHexString_toHexString]
    exact ssz.deserializeUintNum64_littleEndian d.amount d.amount_lt
  unfold formDepositNode
  rw [hamount]
  simp only [nodeData, ssz.fromHexString_toHexString]
  exact congrArg Except.ok hroot

/-- **The leaf determines the deposit**, collisions apart. -/
theorem node_injective (hdigest : Function.Injective2 C.digest2Bytes32) :
    Function.Injective (node C) := by
  intro d d' h
  rw [node_eq, node_eq] at h
  have htype : Ssz.SameType d.toDepositData.toValue d'.toDepositData.toValue := by
    simp [DepositData.toValue, toDepositData, uint64, Ssz.SameType, Ssz.SameTypes, d.length_pubkey,
      d'.length_pubkey, d.length_withdrawalCredentials, d'.length_withdrawalCredentials,
      d.length_signature, d'.length_signature, DepositTree.length_littleEndian]
  have hvalue := Ssz.hashTreeRoot_injective hdigest htype h
  simp only [DepositData.toValue, toDepositData, uint64, Ssz.Value.container.injEq,
    List.cons.injEq, Ssz.Value.vector.injEq, and_true] at hvalue
  obtain ⟨hpubkey, hwithdrawalCredentials, hamount, hsignature⟩ := hvalue
  have hd := d.amount_lt
  have hd' := d'.amount_lt
  have hnumber := DepositTree.littleEndian_injective (by omega) (by omega) hamount
  exact Deposit.ext hpubkey hwithdrawalCredentials hnumber hsignature

end Deposit

end CouncilDaemon
