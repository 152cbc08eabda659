import CouncilDaemon.Lib.FixedWidth

/-!
# Packed encoding

Solidity values are encoded to bytes and concatenated without lengths: `uint256` as 32 bytes, highest
first, `bytes32` and `address` at their width, `bytes` in place. On the types of 32 bytes this is the
standard encoding as well.

Two lists of values whose encodings have the same widths are encoded to the same bytes only when they
agree field by field (`pack_inj`).
-/

namespace SolidityPack

/-! ## Hexadecimal text -/

/-- The value of a hexadecimal digit, in either case. -/
def hexDigit? (c : Char) : Option ℕ :=
  if '0' ≤ c ∧ c ≤ '9' then some (c.toNat - '0'.toNat)
  else if 'a' ≤ c ∧ c ≤ 'f' then some (c.toNat - 'a'.toNat + 10)
  else if 'A' ≤ c ∧ c ≤ 'F' then some (c.toNat - 'A'.toNat + 10)
  else none

/-- The bytes of a text of pairs of digits. -/
def hexBytes? : List Char → Option (List UInt8)
  | [] => some []
  | [_] => none
  | high :: low :: rest => do
    let h ← hexDigit? high
    let l ← hexDigit? low
    let bytes ← hexBytes? rest
    return UInt8.ofNat (16 * h + l) :: bytes

/-- The bytes of a text that starts with `0x`. -/
def arrayify (value : String) : Except String (List UInt8) :=
  match value.toList with
  | '0' :: 'x' :: digits =>
    match hexBytes? digits with
    | some bytes => .ok bytes
    | none => .error "invalid arrayify value"
  | _ => .error "invalid arrayify value"

/-- `n` as `width` bytes, highest first. -/
def bigEndian (width n : ℕ) : List UInt8 := (FixedWidth.digits 256 width n).map UInt8.ofNat

@[simp] theorem length_bigEndian (width n : ℕ) : (bigEndian width n).length = width := by
  rw [bigEndian, List.length_map, FixedWidth.length_digits]

theorem bigEndian_injective {width n m : ℕ} (hn : n < 256 ^ width) (hm : m < 256 ^ width)
    (h : bigEndian width n = bigEndian width m) : n = m := by
  have hbyte : ∀ d < 256, (UInt8.ofNat d).toNat = d := fun d hd => UInt8.toNat_ofNat_of_lt' hd
  have hdigits : ∀ k, (bigEndian width k).map UInt8.toNat = FixedWidth.digits 256 width k := by
    intro k
    rw [bigEndian, List.map_map]
    conv_rhs => rw [← List.map_id (FixedWidth.digits 256 width k)]
    refine List.map_congr_left fun d hd => ?_
    exact hbyte d (FixedWidth.lt_of_mem_digits (by norm_num) hd)
  refine FixedWidth.digits_injective hn hm ?_
  rw [← hdigits, ← hdigits, h]

theorem hexDigit?_digitChar {d : ℕ} (hd : d < 16) : hexDigit? (Nat.digitChar d) = some d := by
  have : ∀ d : Fin 16, hexDigit? (Nat.digitChar d) = some d.val := by decide
  exact this ⟨d, hd⟩

theorem hexBytes?_append {xs : List Char} {bytes : List UInt8} (ys : List Char) :
    hexBytes? xs = some bytes → hexBytes? (xs ++ ys) = (hexBytes? ys).map (bytes ++ ·) := by
  induction xs using hexBytes?.induct generalizing bytes with
  | case1 =>
    intro h
    cases h
    show hexBytes? ys = _
    cases hexBytes? ys <;> rfl
  | case2 c =>
    intro h
    cases h
  | case3 high low rest ih =>
    intro h
    rw [hexBytes?] at h
    cases hh : hexDigit? high with
    | none => rw [hh] at h; cases h
    | some hi =>
      cases hl : hexDigit? low with
      | none => rw [hh, hl] at h; cases h
      | some lo =>
        cases hr : hexBytes? rest with
        | none => rw [hh, hl, hr] at h; cases h
        | some front =>
          rw [hh, hl, hr] at h
          cases h
          show hexBytes? (high :: low :: (rest ++ ys)) = _
          rw [hexBytes?, hh, hl, ih hr]
          cases hexBytes? ys <;> rfl

/-- The text of a number gives its bytes back. -/
theorem hexBytes?_digits (width n : ℕ) :
    hexBytes? ((FixedWidth.digits 16 (2 * width) n).map Nat.digitChar) =
      some (bigEndian width n) := by
  induction width with
  | zero => rfl
  | succ width ih =>
    have hpair := FixedWidth.digits_sq 16 (width + 1) n
    have hhigh : n / 256 ^ width % 256 / 16 < 16 := by omega
    have hlow : n / 256 ^ width % 256 % 16 < 16 := by omega
    rw [FixedWidth.digits, List.flatMap_cons, FixedWidth.digits_sq] at hpair
    have hfront : FixedWidth.digits 16 2 (n / (16 ^ 2) ^ width % 16 ^ 2) =
        [n / 256 ^ width % 256 / 16, n / 256 ^ width % 256 % 16] := by
      simp only [FixedWidth.digits, pow_zero, Nat.div_one, pow_one]
      norm_num
      omega
    rw [← hpair, hfront, List.map_append, List.map_cons, List.map_cons, List.map_nil,
      List.cons_append, List.cons_append, List.nil_append, hexBytes?, hexDigit?_digitChar hhigh,
      hexDigit?_digitChar hlow, ih]
    show some (UInt8.ofNat (16 * (n / 256 ^ width % 256 / 16) + n / 256 ^ width % 256 % 16) ::
      bigEndian width n) = _
    rw [Nat.div_add_mod]
    rfl

/-- Texts of numbers, written one after the other. -/
theorem hexBytes?_flatMap (width : ℕ) (numbers : List ℕ) :
    hexBytes? (numbers.flatMap fun n => (FixedWidth.digits 16 (2 * width) n).map Nat.digitChar) =
      some (numbers.flatMap (bigEndian width)) := by
  induction numbers with
  | nil => rfl
  | cons n numbers ih =>
    rw [List.flatMap_cons, hexBytes?_append _ (hexBytes?_digits width n), ih, List.flatMap_cons]
    rfl

/-! ## Values -/

/-- A value with its Solidity type. -/
inductive Value where
  | bytes32 (value : String)
  | uint256 (value : ℕ)
  | address (value : String)
  | bytes (value : String)

def Value.encode : Value → Except String (List UInt8)
  | bytes32 value => do
    let bytes ← arrayify value
    if bytes.length ≠ 32 then throw "invalid value for bytes32" else return bytes
  | uint256 value =>
    if value < 256 ^ 32 then .ok (bigEndian 32 value) else .error "value out-of-bounds"
  | address value => do
    let bytes ← arrayify value
    if bytes.length ≠ 20 then throw "invalid address" else return bytes
  | bytes value => arrayify value

def pack (values : List Value) : Except String (List UInt8) := do
  let fields ← values.mapM Value.encode
  return fields.flatten

section Encode

variable {value value' : String} {n m : ℕ} {field : List UInt8}

theorem encode_bytes32 (h : (Value.bytes32 value).encode = .ok field) :
    arrayify value = .ok field ∧ field.length = 32 := by
  rw [Value.encode] at h
  cases hbytes : arrayify value with
  | error e => rw [hbytes] at h; cases h
  | ok bytes =>
    rw [hbytes] at h
    by_cases hlength : bytes.length = 32
    · simp only [bind, Except.bind, hlength, ne_eq, not_true_eq_false, if_false, pure,
        Except.pure, Except.ok.injEq] at h
      exact ⟨congrArg Except.ok h, h ▸ hlength⟩
    · simp only [bind, Except.bind, ne_eq, hlength, not_false_eq_true, if_true] at h
      cases h

theorem encode_address (h : (Value.address value).encode = .ok field) :
    arrayify value = .ok field ∧ field.length = 20 := by
  rw [Value.encode] at h
  cases hbytes : arrayify value with
  | error e => rw [hbytes] at h; cases h
  | ok bytes =>
    rw [hbytes] at h
    by_cases hlength : bytes.length = 20
    · simp only [bind, Except.bind, hlength, ne_eq, not_true_eq_false, if_false, pure,
        Except.pure, Except.ok.injEq] at h
      exact ⟨congrArg Except.ok h, h ▸ hlength⟩
    · simp only [bind, Except.bind, ne_eq, hlength, not_false_eq_true, if_true] at h
      cases h

theorem encode_uint256 (h : (Value.uint256 n).encode = .ok field) :
    n < 256 ^ 32 ∧ field = bigEndian 32 n := by
  rw [Value.encode] at h
  split_ifs at h with hn
  exact ⟨hn, (Except.ok.inj h).symm⟩

end Encode

/-! ## Injectivity -/

/-- The width of the encoding of a value, zero when it has none. -/
def Value.width : Value → ℕ
  | bytes32 _ => 32
  | uint256 _ => 32
  | address _ => 20
  | bytes value => (arrayify value).toOption.elim 0 List.length

theorem length_of_encode {value : Value} {field : List UInt8} (h : value.encode = .ok field) :
    field.length = value.width := by
  cases value with
  | bytes32 value => exact (encode_bytes32 h).2
  | uint256 n => rw [(encode_uint256 h).2, length_bigEndian]; rfl
  | address value => exact (encode_address h).2
  | bytes value =>
    rw [Value.encode] at h
    rw [Value.width, h]
    rfl

/-- What is packed is the fields one after the other. -/
theorem pack_ok : ∀ {values : List Value} {packed : List UInt8}, pack values = .ok packed →
    ∃ fields, List.Forall₂ (fun value field => value.encode = .ok field) values fields ∧
      packed = fields.flatten := by
  intro values
  induction values with
  | nil =>
    intro packed h
    cases h
    exact ⟨[], List.Forall₂.nil, rfl⟩
  | cons value values ih =>
    intro packed h
    rw [pack, List.mapM_cons] at h
    cases hfield : value.encode with
    | error e => rw [hfield] at h; cases h
    | ok field =>
      rw [hfield] at h
      cases hrest : values.mapM Value.encode with
      | error e => rw [hrest] at h; cases h
      | ok rest =>
        rw [hrest] at h
        cases h
        have hpack : pack values = .ok rest.flatten := by
          rw [pack, hrest]
          rfl
        obtain ⟨fields, hfields, hflatten⟩ := ih hpack
        refine ⟨field :: fields, List.Forall₂.cons hfield hfields, ?_⟩
        rw [List.flatten_cons, List.flatten_cons, hflatten]

theorem map_length_of_encode {values : List Value} {fields : List (List UInt8)}
    (h : List.Forall₂ (fun value field => value.encode = .ok field) values fields) :
    fields.map List.length = values.map Value.width := by
  induction h with
  | nil => rfl
  | cons hfield _ ih => rw [List.map_cons, List.map_cons, length_of_encode hfield, ih]

theorem length_pack {values : List Value} {packed : List UInt8} (h : pack values = .ok packed) :
    packed.length = (values.map Value.width).sum := by
  obtain ⟨fields, hfields, rfl⟩ := pack_ok h
  rw [List.length_flatten, map_length_of_encode hfields]

/-- **Packed fields.** Values of the same widths that are packed to the same bytes are encoded to
the same bytes field by field. -/
theorem pack_inj {values values' : List Value} {packed : List UInt8}
    (hwidths : values.map Value.width = values'.map Value.width)
    (h : pack values = .ok packed) (h' : pack values' = .ok packed) :
    List.Forall₂ (fun value value' => ∃ field, value.encode = .ok field ∧
      value'.encode = .ok field) values values' := by
  obtain ⟨fields, hfields, hflatten⟩ := pack_ok h
  obtain ⟨fields', hfields', hflatten'⟩ := pack_ok h'
  have hsame : fields = fields' := by
    rw [List.eq_iff_flatten_eq, map_length_of_encode hfields, map_length_of_encode hfields',
      ← hflatten, ← hflatten']
    exact ⟨rfl, hwidths⟩
  subst hsame
  clear hflatten hflatten' hwidths h h'
  induction hfields generalizing values' with
  | nil =>
    cases hfields'
    exact List.Forall₂.nil
  | cons hfield _ ih =>
    cases hfields' with
    | cons hfield' hrest' => exact List.Forall₂.cons ⟨_, hfield, hfield'⟩ (ih hrest')

theorem bytes32_inj {value value' : String} {field : List UInt8}
    (h : (Value.bytes32 value).encode = .ok field) (h' : (Value.bytes32 value').encode = .ok field) :
    arrayify value = arrayify value' := by
  rw [(encode_bytes32 h).1, (encode_bytes32 h').1]

theorem address_inj {value value' : String} {field : List UInt8}
    (h : (Value.address value).encode = .ok field) (h' : (Value.address value').encode = .ok field) :
    arrayify value = arrayify value' := by
  rw [(encode_address h).1, (encode_address h').1]

theorem uint256_inj {n m : ℕ} {field : List UInt8} (h : (Value.uint256 n).encode = .ok field)
    (h' : (Value.uint256 m).encode = .ok field) : n = m := by
  obtain ⟨hn, rfl⟩ := encode_uint256 h
  obtain ⟨hm, heq⟩ := encode_uint256 h'
  exact bigEndian_injective hn hm heq

end SolidityPack
