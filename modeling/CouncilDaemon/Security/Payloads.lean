import CouncilDaemon.Security.Strategy
import CouncilDaemon.Utils.RangePromise

/-!
# Signed payloads

The bytes whose hash is signed determine the parameters they were made of, for each kind of message
and each version, and no bytes of one version are bytes of the other (`payloads_unambiguous`).

The fields of the deposit and the pause messages have fixed widths. In the unvet message the two
lists at the end have no lengths: there the operators are words of 8 bytes and the counts words of
16 bytes, so that the total length gives the number of both.
-/

namespace CouncilDaemon

open SolidityPack
open Unvetting (packNodeOperatorIds packVettedSigningKeysCounts padAndJoinHex)

variable {ethers : Ethers}

/-! ## Packed lists -/

theorem lt_of_padAndJoinHex {numbers : List ℕ} {bytes : ℕ} {text : String}
    (h : padAndJoinHex ethers.toEthersUtils numbers bytes = .ok text) : ∀ n ∈ numbers, n < 2 ^ 53 := by
  intro n hn
  by_contra hlarge
  obtain ⟨e, he⟩ := ethers.hexlify_unsafe n (not_lt.1 hlarge)
  unfold padAndJoinHex at h
  cases hmap : (numbers.mapM fun num => do
      let hex ← Unvetting.padHex ethers.toEthersUtils num bytes
      return String.ofList (hex.toList.drop 2)) with
  | error e' => rw [hmap] at h; cases h
  | ok parts =>
    obtain ⟨part, _, hpart⟩ := (mem_of_forall₂ (mapM_ok hmap)).1 n hn
    rw [Unvetting.padHex, he] at hpart
    cases hpart

/-- The bytes of a packed list are those of its words. -/
theorem arrayify_padAndJoinHex {numbers : List ℕ} {bytes : ℕ} (hbytes : 8 ≤ bytes) {text : String}
    (h : padAndJoinHex ethers.toEthersUtils numbers bytes = .ok text) :
    arrayify text = .ok (numbers.flatMap (bigEndian bytes)) := by
  have hsmall : ∀ n ∈ numbers, n < 2 ^ 53 ∧ n < 256 ^ bytes := by
    intro n hn
    have hlt := lt_of_padAndJoinHex h n hn
    refine ⟨hlt, hlt.trans (lt_of_lt_of_le ?_ (Nat.pow_le_pow_right (by norm_num) hbytes))⟩
    norm_num
  rw [Unvetting.padAndJoinHex_eq (by omega) hsmall] at h
  obtain rfl := Except.ok.inj h
  have hlist : ("0x" ++ String.join (numbers.map fun n =>
      String.ofList ((FixedWidth.digits 16 (2 * bytes) n).map Nat.digitChar))).toList =
      '0' :: 'x' :: numbers.flatMap fun n =>
        (FixedWidth.digits 16 (2 * bytes) n).map Nat.digitChar := by
    rw [String.toList_append, String.toList_join, List.flatMap_map]
    simp only [String.toList_ofList]
    rfl
  unfold arrayify
  rw [hlist]
  simp only [hexBytes?_flatMap]

theorem width_padAndJoinHex {numbers : List ℕ} {bytes : ℕ} (hbytes : 8 ≤ bytes) {text : String}
    (h : padAndJoinHex ethers.toEthersUtils numbers bytes = .ok text) :
    (Value.bytes text).width = numbers.length * bytes := by
  rw [Value.width, arrayify_padAndJoinHex hbytes h]
  show (numbers.flatMap (bigEndian bytes)).length = _
  simp [List.length_flatMap]

/-- Packed lists of one length with the same bytes are the same text. -/
theorem padAndJoinHex_inj {numbers numbers' : List ℕ} {bytes : ℕ} (hbytes : 8 ≤ bytes)
    (hlength : numbers.length = numbers'.length) {text text' : String}
    (h : padAndJoinHex ethers.toEthersUtils numbers bytes = .ok text)
    (h' : padAndJoinHex ethers.toEthersUtils numbers' bytes = .ok text')
    (hsame : arrayify text = arrayify text') : text = text' := by
  have hpow : 2 ^ 53 < 256 ^ bytes :=
    lt_of_lt_of_le (by norm_num) (Nat.pow_le_pow_right (by norm_num) hbytes)
  rw [arrayify_padAndJoinHex hbytes h, arrayify_padAndJoinHex hbytes h'] at hsame
  have hflatten := Except.ok.inj hsame
  rw [List.flatMap_def, List.flatMap_def] at hflatten
  have hwidths : ∀ ns : List ℕ, (ns.map (bigEndian bytes)).map List.length =
      List.replicate ns.length bytes := by
    intro ns
    rw [List.map_map, List.eq_replicate_iff]
    refine ⟨by rw [List.length_map], ?_⟩
    intro width hwidth
    obtain ⟨n, _, rfl⟩ := List.mem_map.1 hwidth
    exact length_bigEndian bytes n
  have hwords : numbers.map (bigEndian bytes) = numbers'.map (bigEndian bytes) := by
    rw [List.eq_iff_flatten_eq]
    exact ⟨hflatten, by rw [hwidths, hwidths, hlength]⟩
  have hnumbers : numbers = numbers' := by
    refine List.ext_getElem hlength fun i hi hi' => ?_
    have hword : (numbers.map (bigEndian bytes))[i]? = (numbers'.map (bigEndian bytes))[i]? := by
      rw [hwords]
    rw [List.getElem?_map, List.getElem?_map, List.getElem?_eq_getElem hi,
      List.getElem?_eq_getElem hi'] at hword
    exact bigEndian_injective ((lt_of_padAndJoinHex h _ (List.getElem_mem hi)).trans hpow)
      ((lt_of_padAndJoinHex h' _ (List.getElem_mem hi')).trans hpow) (Option.some.inj hword)
  subst hnumbers
  exact Except.ok.inj (h.symm.trans h')

/-! ## Fields -/

/-- The parameters agree in every field that the version signs: the texts stand for the same bytes,
and the guardian of the fifth version is the same address. -/
structure SignDepositDataParams.Same (ethers : Ethers) (dsmVersion : Option ℕ)
    (params params' : SignDepositDataParams) : Prop where
  messagePrefix : arrayify params.messagePrefix = arrayify params'.messagePrefix
  blockNumber : params.blockNumber = params'.blockNumber
  blockHash : arrayify params.blockHash = arrayify params'.blockHash
  depositRoot : arrayify params.depositRoot = arrayify params'.depositRoot
  nonce : params.nonce = params'.nonce
  stakingModuleId : params.stakingModuleId = params'.stakingModuleId
  guardianAddress : dsmVersion = some 5 →
    requireGuardianAddress ethers params.guardianAddress =
      requireGuardianAddress ethers params'.guardianAddress

structure SignPauseDataParams.Same (ethers : Ethers) (dsmVersion : Option ℕ)
    (params params' : SignPauseDataParams) : Prop where
  messagePrefix : arrayify params.messagePrefix = arrayify params'.messagePrefix
  blockNumber : params.blockNumber = params'.blockNumber
  guardianAddress : dsmVersion = some 5 →
    requireGuardianAddress ethers params.guardianAddress =
      requireGuardianAddress ethers params'.guardianAddress

structure SignUnvetDataParams.Same (ethers : Ethers) (dsmVersion : Option ℕ)
    (params params' : SignUnvetDataParams) : Prop where
  messagePrefix : arrayify params.messagePrefix = arrayify params'.messagePrefix
  blockNumber : params.blockNumber = params'.blockNumber
  blockHash : arrayify params.blockHash = arrayify params'.blockHash
  stakingModuleId : params.stakingModuleId = params'.stakingModuleId
  nonce : params.nonce = params'.nonce
  operatorIds : params.operatorIds = params'.operatorIds
  vettedKeysByOperator : params.vettedKeysByOperator = params'.vettedKeysByOperator
  guardianAddress : dsmVersion = some 5 →
    requireGuardianAddress ethers params.guardianAddress =
      requireGuardianAddress ethers params'.guardianAddress

/-- The two lists of the parameters are packed lists of one length. -/
def SignUnvetDataParams.Packed (ethers : Ethers) (params : SignUnvetDataParams) : Prop :=
  ∃ nodeOperatorIds vettedSigningKeysCounts : List ℕ,
    nodeOperatorIds.length = vettedSigningKeysCounts.length ∧
    packNodeOperatorIds ethers.toEthersUtils nodeOperatorIds = .ok params.operatorIds ∧
    packVettedSigningKeysCounts ethers.toEthersUtils vettedSigningKeysCounts =
      .ok params.vettedKeysByOperator

/-! ## The guardian of the fifth version -/

theorem requireGuardianAddress_ok {guardianAddress : Option String} {checksummed : String}
    (h : requireGuardianAddress ethers guardianAddress = .ok checksummed) :
    ∃ address, guardianAddress = some address ∧ ethers.getAddress address = .ok checksummed := by
  unfold requireGuardianAddress at h
  cases guardianAddress with
  | none => cases h
  | some address =>
    dsimp only at h
    split_ifs at h
    exact ⟨address, rfl, h⟩

/-- What the fifth version packs behind the guardian address. -/
theorem bind_requireGuardianAddress_ok {guardianAddress : Option String} {packed : Bytes}
    {values : String → List Value}
    (h : (requireGuardianAddress ethers guardianAddress >>= fun address => pack (values address)) =
      .ok packed) :
    ∃ address, requireGuardianAddress ethers guardianAddress = .ok address ∧
      pack (values address) = .ok packed := by
  cases hguardian : requireGuardianAddress ethers guardianAddress with
  | error e => rw [hguardian] at h; cases h
  | ok address =>
    rw [hguardian] at h
    exact ⟨address, rfl, h⟩

theorem requireGuardianAddress_inj {guardianAddress guardianAddress' : Option String}
    {address address' : String} {field : Bytes}
    (h : requireGuardianAddress ethers guardianAddress = .ok address)
    (h' : requireGuardianAddress ethers guardianAddress' = .ok address')
    (hfield : (Value.address address).encode = .ok field)
    (hfield' : (Value.address address').encode = .ok field) :
    requireGuardianAddress ethers guardianAddress =
      requireGuardianAddress ethers guardianAddress' := by
  obtain ⟨text, _, htext⟩ := requireGuardianAddress_ok h
  obtain ⟨text', _, htext'⟩ := requireGuardianAddress_ok h'
  rw [h, h', ethers.getAddress_inj htext htext' (address_inj hfield hfield')]

/-! ## Deposit messages -/

theorem v4_depositPreimage_inj {dsmVersion : Option ℕ} (hversion : dsmVersion ≠ some 5)
    {params params' : SignDepositDataParams} {packed : Bytes}
    (h : v4Strategy.depositPreimage params = .ok packed)
    (h' : v4Strategy.depositPreimage params' = .ok packed) :
    params.Same ethers dsmVersion params' := by
  have hfields := pack_inj (by rfl) h h'
  simp only [List.forall₂_cons, List.forall₂_nil_left_iff] at hfields
  obtain ⟨⟨_, a1, b1⟩, ⟨_, a2, b2⟩, ⟨_, a3, b3⟩, ⟨_, a4, b4⟩, ⟨_, a5, b5⟩, ⟨_, a6, b6⟩, _⟩ := hfields
  exact ⟨bytes32_inj a1 b1, uint256_inj a2 b2, bytes32_inj a3 b3, bytes32_inj a4 b4,
    uint256_inj a6 b6, uint256_inj a5 b5,
    fun h5 => absurd h5 hversion⟩

theorem v5_depositPreimage_inj {params params' : SignDepositDataParams} {packed : Bytes}
    (h : (v5Strategy ethers).depositPreimage params = .ok packed)
    (h' : (v5Strategy ethers).depositPreimage params' = .ok packed) :
    params.Same ethers (some 5) params' := by
  obtain ⟨address, hguardian, hpack⟩ := bind_requireGuardianAddress_ok h
  obtain ⟨address', hguardian', hpack'⟩ := bind_requireGuardianAddress_ok h'
  have hfields := pack_inj (by rfl) hpack hpack'
  simp only [List.forall₂_cons, List.forall₂_nil_left_iff] at hfields
  obtain ⟨⟨_, a1, b1⟩, ⟨_, a2, b2⟩, ⟨_, a3, b3⟩, ⟨_, a4, b4⟩, ⟨_, a5, b5⟩, ⟨_, a6, b6⟩,
    ⟨_, a7, b7⟩, _⟩ := hfields
  exact ⟨bytes32_inj a1 b1, uint256_inj a3 b3, bytes32_inj a4 b4, bytes32_inj a5 b5,
    uint256_inj a7 b7, uint256_inj a6 b6,
    fun _ => requireGuardianAddress_inj hguardian hguardian' a2 b2⟩

theorem depositPreimage_versions {params params' : SignDepositDataParams} {packed packed' : Bytes}
    (h : v4Strategy.depositPreimage params = .ok packed)
    (h' : (v5Strategy ethers).depositPreimage params' = .ok packed') : packed ≠ packed' := by
  obtain ⟨address, _, hpack⟩ := bind_requireGuardianAddress_ok h'
  rintro rfl
  have hlength := (length_pack h).symm.trans (length_pack hpack)
  simp [Value.width] at hlength

/-! ## Pause messages -/

theorem v4_pausePreimage_inj {dsmVersion : Option ℕ} (hversion : dsmVersion ≠ some 5)
    {params params' : SignPauseDataParams} {packed : Bytes}
    (h : v4Strategy.pausePreimage params = .ok packed)
    (h' : v4Strategy.pausePreimage params' = .ok packed) :
    params.Same ethers dsmVersion params' := by
  have hfields := pack_inj (by rfl) h h'
  simp only [List.forall₂_cons, List.forall₂_nil_left_iff] at hfields
  obtain ⟨⟨_, a1, b1⟩, ⟨_, a2, b2⟩, _⟩ := hfields
  exact ⟨bytes32_inj a1 b1, uint256_inj a2 b2, fun h5 => absurd h5 hversion⟩

theorem v5_pausePreimage_inj {params params' : SignPauseDataParams} {packed : Bytes}
    (h : (v5Strategy ethers).pausePreimage params = .ok packed)
    (h' : (v5Strategy ethers).pausePreimage params' = .ok packed) :
    params.Same ethers (some 5) params' := by
  obtain ⟨address, hguardian, hpack⟩ := bind_requireGuardianAddress_ok h
  obtain ⟨address', hguardian', hpack'⟩ := bind_requireGuardianAddress_ok h'
  have hfields := pack_inj (by rfl) hpack hpack'
  simp only [List.forall₂_cons, List.forall₂_nil_left_iff] at hfields
  obtain ⟨⟨_, a1, b1⟩, ⟨_, a2, b2⟩, ⟨_, a3, b3⟩, _⟩ := hfields
  exact ⟨bytes32_inj a1 b1, uint256_inj a3 b3,
    fun _ => requireGuardianAddress_inj hguardian hguardian' a2 b2⟩

theorem pausePreimage_versions {params params' : SignPauseDataParams} {packed packed' : Bytes}
    (h : v4Strategy.pausePreimage params = .ok packed)
    (h' : (v5Strategy ethers).pausePreimage params' = .ok packed') : packed ≠ packed' := by
  obtain ⟨address, _, hpack⟩ := bind_requireGuardianAddress_ok h'
  rintro rfl
  have hlength := (length_pack h).symm.trans (length_pack hpack)
  simp [Value.width] at hlength

/-! ## Unvet messages -/

/-- The width of the two lists at the end. -/
theorem SignUnvetDataParams.Packed.widths {params : SignUnvetDataParams}
    (h : params.Packed ethers) : ∃ n, (Value.bytes params.operatorIds).width = 8 * n ∧
      (Value.bytes params.vettedKeysByOperator).width = 16 * n := by
  obtain ⟨ids, counts, hlength, hids, hcounts⟩ := h
  refine ⟨ids.length, ?_, ?_⟩
  · rw [width_padAndJoinHex (by norm_num) hids, Nat.mul_comm]
  · rw [width_padAndJoinHex (by norm_num) hcounts, ← hlength, Nat.mul_comm]

/-- Packed lists of the same width with the same bytes are the same. -/
theorem SignUnvetDataParams.Packed.lists_eq {params params' : SignUnvetDataParams}
    (h : params.Packed ethers) (h' : params'.Packed ethers)
    (hwidth : (Value.bytes params.operatorIds).width = (Value.bytes params'.operatorIds).width)
    (hids : arrayify params.operatorIds = arrayify params'.operatorIds)
    (hcounts : arrayify params.vettedKeysByOperator = arrayify params'.vettedKeysByOperator) :
    params.operatorIds = params'.operatorIds ∧
      params.vettedKeysByOperator = params'.vettedKeysByOperator := by
  obtain ⟨ids, counts, hlength, hpack, hpackCounts⟩ := h
  obtain ⟨ids', counts', hlength', hpack', hpackCounts'⟩ := h'
  rw [width_padAndJoinHex (by norm_num) hpack, width_padAndJoinHex (by norm_num) hpack'] at hwidth
  have hn : ids.length = ids'.length := by omega
  exact ⟨padAndJoinHex_inj (by norm_num) hn hpack hpack' hids,
    padAndJoinHex_inj (by norm_num) (by omega) hpackCounts hpackCounts' hcounts⟩

theorem bytes_inj {value value' : String} {field : Bytes}
    (h : (Value.bytes value).encode = .ok field) (h' : (Value.bytes value').encode = .ok field) :
    arrayify value = arrayify value' :=
  h.trans h'.symm

theorem v4_unvetPreimage_inj {dsmVersion : Option ℕ} (hversion : dsmVersion ≠ some 5)
    {params params' : SignUnvetDataParams} {packed : Bytes}
    (hlists : params.Packed ethers) (hlists' : params'.Packed ethers)
    (h : v4Strategy.unvetPreimage params = .ok packed)
    (h' : v4Strategy.unvetPreimage params' = .ok packed) :
    params.Same ethers dsmVersion params' := by
  obtain ⟨n, hids, hcounts⟩ := hlists.widths
  obtain ⟨n', hids', hcounts'⟩ := hlists'.widths
  have hlength := (length_pack h).symm.trans (length_pack h')
  simp only [List.map_cons, List.map_nil, List.sum_cons, List.sum_nil, hids, hcounts, hids',
    hcounts'] at hlength
  simp only [Value.width] at hlength
  have hn : n = n' := by omega
  subst hn
  have hwidths : ∀ ps : SignUnvetDataParams, (Value.bytes ps.operatorIds).width = 8 * n →
      (Value.bytes ps.vettedKeysByOperator).width = 16 * n → [Value.bytes32 ps.messagePrefix,
        .uint256 ps.blockNumber, .bytes32 ps.blockHash, .uint256 ps.stakingModuleId,
        .uint256 ps.nonce, .bytes ps.operatorIds, .bytes ps.vettedKeysByOperator].map Value.width =
        [32, 32, 32, 32, 32, 8 * n, 16 * n] := by
    intro ps h1 h2
    simp only [List.map_cons, List.map_nil, h1, h2]
    rfl
  have hfields := pack_inj ((hwidths params hids hcounts).trans
    (hwidths params' hids' hcounts').symm) h h'
  simp only [List.forall₂_cons, List.forall₂_nil_left_iff] at hfields
  obtain ⟨⟨_, a1, b1⟩, ⟨_, a2, b2⟩, ⟨_, a3, b3⟩, ⟨_, a4, b4⟩, ⟨_, a5, b5⟩, ⟨_, a6, b6⟩,
    ⟨_, a7, b7⟩, _⟩ := hfields
  obtain ⟨heqIds, heqCounts⟩ := hlists.lists_eq hlists' (hids.trans hids'.symm) (bytes_inj a6 b6)
    (bytes_inj a7 b7)
  exact ⟨bytes32_inj a1 b1, uint256_inj a2 b2, bytes32_inj a3 b3, uint256_inj a4 b4,
    uint256_inj a5 b5, heqIds, heqCounts, fun h5 => absurd h5 hversion⟩

theorem v5_unvetPreimage_inj {params params' : SignUnvetDataParams} {packed : Bytes}
    (hlists : params.Packed ethers) (hlists' : params'.Packed ethers)
    (h : (v5Strategy ethers).unvetPreimage params = .ok packed)
    (h' : (v5Strategy ethers).unvetPreimage params' = .ok packed) :
    params.Same ethers (some 5) params' := by
  obtain ⟨n, hids, hcounts⟩ := hlists.widths
  obtain ⟨n', hids', hcounts'⟩ := hlists'.widths
  obtain ⟨address, hguardian, hpack⟩ := bind_requireGuardianAddress_ok h
  obtain ⟨address', hguardian', hpack'⟩ := bind_requireGuardianAddress_ok h'
  have hlength := (length_pack hpack).symm.trans (length_pack hpack')
  simp only [List.map_cons, List.map_nil, List.sum_cons, List.sum_nil, hids, hcounts, hids',
    hcounts'] at hlength
  simp only [Value.width] at hlength
  have hn : n = n' := by omega
  subst hn
  have hwidths : ∀ (guardian : String) (ps : SignUnvetDataParams),
      (Value.bytes ps.operatorIds).width = 8 * n →
      (Value.bytes ps.vettedKeysByOperator).width = 16 * n → [Value.bytes32 ps.messagePrefix,
        .address guardian, .uint256 ps.blockNumber, .bytes32 ps.blockHash,
        .uint256 ps.stakingModuleId, .uint256 ps.nonce, .bytes ps.operatorIds,
        .bytes ps.vettedKeysByOperator].map Value.width =
        [32, 20, 32, 32, 32, 32, 8 * n, 16 * n] := by
    intro guardian ps h1 h2
    simp only [List.map_cons, List.map_nil, h1, h2]
    rfl
  have hfields := pack_inj ((hwidths address params hids hcounts).trans
    (hwidths address' params' hids' hcounts').symm) hpack hpack'
  simp only [List.forall₂_cons, List.forall₂_nil_left_iff] at hfields
  obtain ⟨⟨_, a1, b1⟩, ⟨_, a2, b2⟩, ⟨_, a3, b3⟩, ⟨_, a4, b4⟩, ⟨_, a5, b5⟩, ⟨_, a6, b6⟩,
    ⟨_, a7, b7⟩, ⟨_, a8, b8⟩, _⟩ := hfields
  obtain ⟨heqIds, heqCounts⟩ := hlists.lists_eq hlists' (hids.trans hids'.symm) (bytes_inj a7 b7)
    (bytes_inj a8 b8)
  exact ⟨bytes32_inj a1 b1, uint256_inj a3 b3, bytes32_inj a4 b4, uint256_inj a5 b5,
    uint256_inj a6 b6, heqIds, heqCounts,
    fun _ => requireGuardianAddress_inj hguardian hguardian' a2 b2⟩

theorem unvetPreimage_versions {params params' : SignUnvetDataParams} {packed packed' : Bytes}
    (hlists : params.Packed ethers) (hlists' : params'.Packed ethers)
    (h : v4Strategy.unvetPreimage params = .ok packed)
    (h' : (v5Strategy ethers).unvetPreimage params' = .ok packed') : packed ≠ packed' := by
  obtain ⟨n, hids, hcounts⟩ := hlists.widths
  obtain ⟨n', hids', hcounts'⟩ := hlists'.widths
  obtain ⟨address, _, hpack⟩ := bind_requireGuardianAddress_ok h'
  rintro rfl
  have hlength := (length_pack h).symm.trans (length_pack hpack)
  simp only [List.map_cons, List.map_nil, List.sum_cons, List.sum_nil, hids, hcounts, hids',
    hcounts'] at hlength
  simp only [Value.width] at hlength
  omega

/-! ## Main result -/

/-- **Signed payloads are unambiguous.** For each version and each kind, parameters with the same
bytes are the same field by field, and no bytes of the fourth version are bytes of the fifth. -/
theorem payloads_unambiguous (ethers : Ethers) :
    (∀ dsmVersion,
      (∀ params params' packed,
        (getDsmStrategy ethers dsmVersion).depositPreimage params = .ok packed →
        (getDsmStrategy ethers dsmVersion).depositPreimage params' = .ok packed →
        params.Same ethers dsmVersion params') ∧
      (∀ params params' packed,
        (getDsmStrategy ethers dsmVersion).pausePreimage params = .ok packed →
        (getDsmStrategy ethers dsmVersion).pausePreimage params' = .ok packed →
        params.Same ethers dsmVersion params') ∧
      ∀ params params' packed, params.Packed ethers → params'.Packed ethers →
        (getDsmStrategy ethers dsmVersion).unvetPreimage params = .ok packed →
        (getDsmStrategy ethers dsmVersion).unvetPreimage params' = .ok packed →
        params.Same ethers dsmVersion params') ∧
    (∀ params params' packed packed',
      (getDsmStrategy ethers (some 4)).depositPreimage params = .ok packed →
      (getDsmStrategy ethers (some 5)).depositPreimage params' = .ok packed' →
      packed ≠ packed') ∧
    (∀ params params' packed packed',
      (getDsmStrategy ethers (some 4)).pausePreimage params = .ok packed →
      (getDsmStrategy ethers (some 5)).pausePreimage params' = .ok packed' →
      packed ≠ packed') ∧
    ∀ params params' packed packed', params.Packed ethers → params'.Packed ethers →
      (getDsmStrategy ethers (some 4)).unvetPreimage params = .ok packed →
      (getDsmStrategy ethers (some 5)).unvetPreimage params' = .ok packed' →
      packed ≠ packed' := by
  have hfour : getDsmStrategy ethers (some 4) = v4Strategy := rfl
  have hfive : getDsmStrategy ethers (some 5) = v5Strategy ethers := rfl
  rw [hfour, hfive]
  refine ⟨?_, fun _ _ _ _ => depositPreimage_versions, fun _ _ _ _ => pausePreimage_versions,
    fun _ _ _ _ => unvetPreimage_versions⟩
  intro dsmVersion
  by_cases h5 : dsmVersion = some 5
  · subst h5
    rw [hfive]
    exact ⟨fun _ _ _ => v5_depositPreimage_inj, fun _ _ _ => v5_pausePreimage_inj,
      fun _ _ _ => v5_unvetPreimage_inj⟩
  · have hother : getDsmStrategy ethers dsmVersion = v4Strategy := if_neg h5
    rw [hother]
    exact ⟨fun _ _ _ => v4_depositPreimage_inj h5, fun _ _ _ => v4_pausePreimage_inj h5,
      fun _ _ _ => v4_unvetPreimage_inj h5⟩

/-! ## A sample -/

namespace PayloadsSample

/-- The text of the bytes, in lower case. -/
def addressText (bytes : Bytes) : String :=
  String.ofList ('0' :: 'x' :: (bytes.map UInt8.toNat).flatMap fun n =>
    (FixedWidth.digits 16 (2 * 1) n).map Nat.digitChar)

theorem arrayify_addressText (bytes : Bytes) : arrayify (addressText bytes) = .ok bytes := by
  have hbytes : (bytes.map UInt8.toNat).flatMap (bigEndian 1) = bytes := by
    induction bytes with
    | nil => rfl
    | cons b bytes ih =>
      rw [List.map_cons, List.flatMap_cons, ih]
      have hbyte : bigEndian 1 b.toNat = [b] := by
        have hlt : b.toNat < 256 := b.toNat_lt
        simp [bigEndian, FixedWidth.digits, Nat.mod_eq_of_lt hlt]
      rw [hbyte]
      rfl
  unfold arrayify addressText
  rw [String.toList_ofList]
  simp only [hexBytes?_flatMap, hbytes]

def getAddress (address : String) : Except String String :=
  match arrayify address with
  | .ok bytes => if bytes.length = 20 then .ok (addressText bytes) else .error "invalid address"
  | .error e => .error e

theorem getAddress_ok {address checksummed : String} (h : getAddress address = .ok checksummed) :
    ∃ bytes, checksummed = addressText bytes := by
  unfold getAddress at h
  split at h
  · split_ifs at h
    exact ⟨_, (Except.ok.inj h).symm⟩
  · cases h

/-- Addresses without letters, whose checksummed text is the text itself. -/
def sampleEthers : Ethers where
  toEthersUtils := Unvetting.sampleUtils
  isAddress address := (getAddress address).toOption.isSome
  getAddress := getAddress
  keccak256 _ := "0x"
  hexlify_unsafe n hn := ⟨"overflow", if_neg (not_lt.2 hn)⟩
  getAddress_ok address h := by
    cases hget : getAddress address with
    | error e => rw [hget] at h; cases h
    | ok checksummed =>
      have hcopy := hget
      unfold getAddress at hcopy
      split at hcopy
      · rename_i bytes hbytes
        split_ifs at hcopy with hlength
        obtain rfl := Except.ok.inj hcopy
        exact ⟨_, bytes, rfl, arrayify_addressText bytes, hlength⟩
      · cases hcopy
  getAddress_inj h h' hsame := by
    obtain ⟨bytes, rfl⟩ := getAddress_ok h
    obtain ⟨bytes', rfl⟩ := getAddress_ok h'
    rw [arrayify_addressText, arrayify_addressText] at hsame
    rw [Except.ok.inj hsame]

/-- The prefix is in lower case or in upper case. -/
def unvetParams (messagePrefix : String) : SignUnvetDataParams where
  messagePrefix := messagePrefix
  blockNumber := 17
  blockHash := "0x2222222222222222222222222222222222222222222222222222222222222222"
  stakingModuleId := 1
  nonce := 4
  operatorIds := "0x00000000000000030000000000000008"
  vettedKeysByOperator := "0x0000000000000000000000000000000500000000000000000000000000000000"
  guardianAddress := some "0x1111111111111111111111111111111111111111"

def lowerPrefix : String := "0xabababababababababababababababababababababababababababababababab"

def upperPrefix : String := "0xABABABABABABABABABABABABABABABABABABABABABABABABABABABABABABABAB"

theorem unvetParams_packed (messagePrefix : String) :
    (unvetParams messagePrefix).Packed sampleEthers := by
  refine ⟨[3, 8], [5, 0], rfl, ?_, ?_⟩
  · show packNodeOperatorIds sampleEthers.toEthersUtils [3, 8] =
      .ok "0x00000000000000030000000000000008"
    decide +kernel
  · show packVettedSigningKeysCounts sampleEthers.toEthersUtils [5, 0] =
      .ok "0x0000000000000000000000000000000500000000000000000000000000000000"
    decide +kernel

def unvetBytes (dsmVersion : Option ℕ) (messagePrefix : String) : Bytes :=
  ((getDsmStrategy sampleEthers dsmVersion).unvetPreimage (unvetParams messagePrefix)).toOption.getD
    []

theorem payloads_unambiguous_sample :
    (unvetParams lowerPrefix).Same sampleEthers (some 5) (unvetParams upperPrefix) ∧
      unvetBytes (some 4) lowerPrefix ≠ unvetBytes (some 5) lowerPrefix := by
  obtain ⟨hsame, -, -, hversions⟩ := payloads_unambiguous sampleEthers
  constructor
  · exact (hsame (some 5)).2.2 _ _ (unvetBytes (some 5) lowerPrefix) (unvetParams_packed _)
      (unvetParams_packed _) (by decide +kernel) (by decide +kernel)
  · exact hversions _ _ _ _ (unvetParams_packed lowerPrefix) (unvetParams_packed lowerPrefix)
      (by decide +kernel) (by decide +kernel)

end PayloadsSample

end CouncilDaemon
