import CouncilDaemon.Lib.AbiCoder

/-!
# The standard coder

The standard layout, on the digits of the texts: static components stand in the head, dynamic ones
have an offset there and stand behind it, one after the other. What is read is what the value comes
back as, whatever follows (`read_body`).

A text longer than any text of the language has a layout of its own, so that the round trip needs no
bound.
-/

namespace Abi

namespace StandardCoder

/-! ## Types -/

mutual

def isDynamic : AbiType → Bool
  | .bytes => true
  | .tuple components => anyDynamic components
  | _ => false

def anyDynamic : List (String × AbiType) → Bool
  | [] => false
  | (_, type) :: components => isDynamic type || anyDynamic components

end

mutual

/-- The digits of a value in the head. -/
def width : AbiType → ℕ
  | .tuple components => if anyDynamic components then 64 else widths components
  | _ => 64

def widths : List (String × AbiType) → ℕ
  | [] => 0
  | (_, type) :: components => width type + widths components

end

/-! ## Encoding -/

def word (n : ℕ) : List Char := (FixedWidth.digits 16 64 n).map Nat.digitChar

def digitsOf (text : String) : List Char := text.toList.drop 2

/-- The zeros that fill up the last word. -/
def padding (digits : List Char) : List Char := List.replicate ((64 - digits.length % 64) % 64) '0'

/-- The length and the digits of a text; `z` is no digit. -/
def payload (digits : List Char) : List Char :=
  if digits.length < 2 ^ 53 then word (digits.length / 2) ++ digits ++ padding digits
  else 'z' :: digits ++ ['z']

mutual

def body : AbiType → Value → List Char
  | .uint256, .number n => word n
  | .bytes32, .string text => digitsOf text
  | .bytes, .string text => payload (digitsOf text)
  | .tuple components, .object fields =>
    heads components fields (widths components / 2) ++ tails components fields
  | _, _ => []

/-- `offset` is where the next dynamic component stands. -/
def heads : List (String × AbiType) → List (String × Value) → ℕ → List Char
  | (_, type) :: components, (_, value) :: fields, offset =>
    if isDynamic type then
      word offset ++ heads components fields (offset + (body type value).length / 2)
    else body type value ++ heads components fields offset
  | _, _, _ => []

def tails : List (String × AbiType) → List (String × Value) → List Char
  | (_, type) :: components, (_, value) :: fields =>
    if isDynamic type then body type value ++ tails components fields else tails components fields
  | _, _ => []

end

/-- The text of encoded fields. -/
def textOfFields (components : Components) (fields : List (String × Value)) : String :=
  String.ofList ('0' :: 'x' :: body (.tuple components) (.object fields))

def encode (components : Components) (values : List Value) : Except String String :=
  .ok (textOfFields components ((names components).zip values))

/-! ## Decoding -/

def readWord (digits : List Char) : ℕ := FixedWidth.value 16 ((digits.take 64).map FixedWidth.charDigit)

def textOf (digits : List Char) : Value := .string (String.ofList ('0' :: 'x' :: digits))

def readPayload : List Char → Value × List Char
  | 'z' :: digits => (textOf (digits.takeWhile (· ≠ 'z')), (digits.dropWhile (· ≠ 'z')).drop 1)
  | digits =>
    let length := 2 * readWord digits
    let text := (digits.drop 64).take length
    (textOf text, ((digits.drop 64).drop length).drop (padding text).length)

mutual

/-- The value at the front of the digits, and the digits behind it. -/
def read : AbiType → List Char → Value × List Char
  | .address, digits => (textOf ((digits.drop 24).take 40), digits.drop 64)
  | .uint256, digits => (.bigNumber (readWord digits), digits.drop 64)
  | .bytes32, digits => (textOf (digits.take 64), digits.drop 64)
  | .bytes, digits => readPayload digits
  | .tuple components, digits =>
    let (values, rest) := readFields components digits (digits.drop (widths components))
    (.result (entries (names components) values), rest)

/-- A static component is read from the head, and a dynamic one from the tail. -/
def readFields : List (String × AbiType) → List Char → List Char → List Value × List Char
  | [], _, tail => ([], tail)
  | (_, type) :: components, head, tail =>
    if isDynamic type then
      let (value, tail) := read type tail
      let (values, rest) := readFields components (head.drop 64) tail
      (value :: values, rest)
    else
      let (value, head) := read type head
      let (values, rest) := readFields components head tail
      (value :: values, rest)

end

def decode (components : Components) (data : String) : Except String Value :=
  match data.toList with
  | '0' :: 'x' :: digits => .ok (read (.tuple components) digits).1
  | _ => .error "invalid arrayify value"

/-! ## Widths -/

@[simp] theorem length_word (n : ℕ) : (word n).length = 64 := by
  rw [word, List.length_map, FixedWidth.length_digits]

theorem digitsOf_isHex {text : String} (h : isHex text) :
    text = String.ofList ('0' :: 'x' :: digitsOf text) ∧ (digitsOf text).length % 2 = 0 ∧
      (digitsOf text).all isLowerHexDigit := by
  unfold isHex at h
  split at h
  · rename_i digits hdigits
    rw [Bool.and_eq_true, beq_iff_eq] at h
    have hdrop : digitsOf text = digits := by
      rw [digitsOf, hdigits]
      rfl
    rw [hdrop, ← hdigits, String.ofList_toList]
    exact ⟨rfl, h⟩
  · cases h

theorem length_digitsOf {text : String} (h : isBytes32 text) : (digitsOf text).length = 64 := by
  rw [isBytes32, Bool.and_eq_true, beq_iff_eq] at h
  rw [digitsOf, List.length_drop, String.length_toList, h.2]

mutual

theorem length_body : ∀ (type : AbiType) (value : Value), hasType type value →
    isDynamic type = false → (body type value).length = width type := by
  intro type value hvalue hstatic
  cases type with
  | address => simp [hasType] at hvalue
  | uint256 =>
    cases value with
    | number n => exact length_word n
    | _ => simp [hasType] at hvalue
  | bytes32 =>
    cases value with
    | string text => exact length_digitsOf hvalue
    | _ => simp [hasType] at hvalue
  | bytes => cases hstatic
  | tuple components =>
    obtain ⟨fields, rfl, hfields⟩ := fields_of_hasType hvalue
    have hnone : anyDynamic components = false := hstatic
    have hwidth : width (.tuple components) = widths components := by
      rw [width, hnone]
      rfl
    rw [body, List.length_append, length_heads components fields _ hfields,
      tails_static components fields hfields hnone, hwidth]
    rfl

theorem length_heads : ∀ (components : Components) (fields : List (String × Value)) (offset : ℕ),
    hasFields components fields → (heads components fields offset).length = widths components := by
  intro components fields offset hfields
  cases components with
  | nil =>
    rw [nil_of_hasFields hfields]
    rfl
  | cons component components =>
    obtain ⟨name, type⟩ := component
    obtain ⟨value, rest, rfl, hvalue, hrest⟩ := cons_of_hasFields hfields
    cases hdynamic : isDynamic type with
    | true =>
      have hwidth : width type = 64 := by
        cases type with
        | tuple inner =>
          have hany : anyDynamic inner = true := hdynamic
          rw [width, hany]
          rfl
        | _ => rfl
      rw [heads, if_pos hdynamic, List.length_append, length_word,
        length_heads components rest _ hrest, widths, hwidth]
    | false =>
      rw [heads, if_neg (by rw [hdynamic]; exact Bool.false_ne_true), List.length_append,
        length_body type value hvalue hdynamic, length_heads components rest _ hrest, widths]

theorem tails_static : ∀ (components : Components) (fields : List (String × Value)),
    hasFields components fields → anyDynamic components = false → tails components fields = [] := by
  intro components fields hfields hnone
  cases components with
  | nil =>
    rw [nil_of_hasFields hfields]
    rfl
  | cons component components =>
    obtain ⟨name, type⟩ := component
    obtain ⟨value, rest, rfl, hvalue, hrest⟩ := cons_of_hasFields hfields
    rw [anyDynamic, Bool.or_eq_false_iff] at hnone
    rw [tails, if_neg (by rw [hnone.1]; exact Bool.false_ne_true)]
    exact tails_static components rest hrest hnone.2

end

/-! ## Round trip -/

theorem readWord_word {n : ℕ} (hn : n < 2 ^ 256) (rest : List Char) : readWord (word n ++ rest) = n := by
  have hpow : (16 : ℕ) ^ 64 = 2 ^ 256 := by norm_num
  rw [readWord, List.take_left' (length_word n), word, FixedWidth.map_charDigit_digits,
    FixedWidth.value_digits (by rw [hpow]; exact hn)]

theorem not_mem_of_all {digits : List Char} (h : digits.all isLowerHexDigit) : 'z' ∉ digits := by
  intro hmem
  exact absurd (List.all_eq_true.1 h 'z' hmem) (by decide)

theorem readPayload_digits {digits : List Char} (h : digits.head? ≠ some 'z') :
    readPayload digits =
      (textOf ((digits.drop 64).take (2 * readWord digits)),
        ((digits.drop 64).drop (2 * readWord digits)).drop
          (padding ((digits.drop 64).take (2 * readWord digits))).length) := by
  unfold readPayload
  split
  · exact absurd rfl h
  · rfl

theorem readPayload_payload {digits : List Char} (hlength : digits.length % 2 = 0)
    (hdigits : digits.all isLowerHexDigit) (rest : List Char) :
    readPayload (payload digits ++ rest) = (textOf digits, rest) := by
  rw [payload]
  split_ifs with hsmall
  · have hword : readWord (word (digits.length / 2) ++ digits ++ padding digits ++ rest) =
        digits.length / 2 := by
      rw [List.append_assoc, List.append_assoc]
      refine readWord_word (lt_of_le_of_lt (Nat.div_le_self _ _) (hsmall.trans ?_)) _
      norm_num
    have hhead : (word (digits.length / 2) ++ digits ++ padding digits ++ rest).head? ≠ some 'z' := by
      intro hz
      have hfirst : 'z' ∈ word (digits.length / 2) := by
        rw [List.append_assoc, List.append_assoc] at hz
        have hne : word (digits.length / 2) ≠ [] := by
          intro hnil
          have := length_word (digits.length / 2)
          rw [hnil] at this
          cases this
        rw [List.head?_append_of_ne_nil _ hne] at hz
        exact List.mem_of_mem_head? hz
      obtain ⟨d, hd, hchar⟩ := List.mem_map.1 hfirst
      have hz' : ∀ d : Fin 16, Nat.digitChar d.val ≠ 'z' := by decide
      exact hz' ⟨d, FixedWidth.lt_of_mem_digits (by norm_num) hd⟩ hchar
    have hdouble : 2 * (digits.length / 2) = digits.length := by omega
    rw [readPayload_digits hhead, hword, hdouble, List.append_assoc, List.append_assoc,
      List.drop_left' (length_word _), List.take_left' rfl, List.drop_left' rfl,
      List.drop_left' rfl]
  · have hnot := not_mem_of_all hdigits
    have hall : ∀ c ∈ digits, decide (c ≠ 'z') = true := by
      intro c hc
      rw [decide_eq_true_iff]
      rintro rfl
      exact hnot hc
    show (textOf ((digits ++ ['z'] ++ rest).takeWhile (· ≠ 'z')),
      ((digits ++ ['z'] ++ rest).dropWhile (· ≠ 'z')).drop 1) = _
    rw [List.append_assoc, List.takeWhile_append_of_pos hall, List.dropWhile_append_of_pos hall]
    simp

mutual

/-- What is read is what the value comes back as, whatever follows it. -/
theorem read_body : ∀ (type : AbiType) (value : Value) (rest : List Char), hasType type value →
    read type (body type value ++ rest) = (decoded type value, rest) := by
  intro type value rest hvalue
  cases type with
  | address => simp [hasType] at hvalue
  | uint256 =>
    cases value with
    | number n =>
      have hn : n < 2 ^ 53 := by simpa [hasType] using hvalue
      rw [body, read, readWord_word (hn.trans (by norm_num)), List.drop_left' (length_word n)]
      rfl
    | _ => simp [hasType] at hvalue
  | bytes32 =>
    cases value with
    | string text =>
      have hbytes : isBytes32 text := hvalue
      have htext := (digitsOf_isHex (Bool.and_eq_true _ _ |>.mp hbytes).1).1
      rw [body, read, List.take_left' (length_digitsOf hbytes),
        List.drop_left' (length_digitsOf hbytes), textOf, ← htext]
      rfl
    | _ => simp [hasType] at hvalue
  | bytes =>
    cases value with
    | string text =>
      have hhex : isHex text := hvalue
      obtain ⟨htext, hlength, hdigits⟩ := digitsOf_isHex hhex
      rw [body, read, readPayload_payload hlength hdigits, textOf, ← htext]
      rfl
    | _ => simp [hasType] at hvalue
  | tuple components =>
    obtain ⟨fields, rfl, hfields⟩ := fields_of_hasType hvalue
    have hread := readFields_body components fields (widths components / 2)
      (tails components fields ++ rest) rest hfields
    rw [body, read, List.append_assoc, List.drop_left' (length_heads components fields _ hfields),
      hread]
    rfl

theorem readFields_body : ∀ (components : Components) (fields : List (String × Value)) (offset : ℕ)
    (headRest rest : List Char), hasFields components fields →
    readFields components (heads components fields offset ++ headRest)
      (tails components fields ++ rest) = (decodedFields components fields, rest) := by
  intro components fields offset headRest rest hfields
  cases components with
  | nil =>
    rw [nil_of_hasFields hfields]
    rfl
  | cons component components =>
    obtain ⟨name, type⟩ := component
    obtain ⟨value, others, rfl, hvalue, hothers⟩ := cons_of_hasFields hfields
    cases hdynamic : isDynamic type with
    | true =>
      rw [heads, if_pos hdynamic, tails, if_pos hdynamic, readFields, if_pos hdynamic,
        List.append_assoc, List.append_assoc, read_body type value _ hvalue,
        List.drop_left' (length_word offset)]
      dsimp only
      rw [readFields_body components others _ headRest rest hothers]
      rfl
    | false =>
      have hstatic : ¬ (isDynamic type = true) := by
        rw [hdynamic]
        exact Bool.false_ne_true
      rw [heads, if_neg hstatic, tails, if_neg hstatic, readFields, if_neg hstatic,
        List.append_assoc, read_body type value _ hvalue]
      dsimp only
      rw [readFields_body components others _ headRest rest hothers]
      rfl

end

theorem decode_ofList (components : Components) (digits : List Char) :
    decode components (String.ofList ('0' :: 'x' :: digits)) =
      .ok (read (.tuple components) digits).1 := by
  rw [decode, String.toList_ofList]
  rfl

theorem decode_textOfFields {components : Components} {fields : List (String × Value)}
    (h : hasFields components fields) :
    decode components (textOfFields components fields) =
      .ok (decoded (.tuple components) (.object fields)) := by
  have hvalue : hasType (.tuple components) (.object fields) := by
    rw [hasType]
    exact h
  have hread := read_body (.tuple components) (.object fields) [] hvalue
  rw [List.append_nil] at hread
  rw [textOfFields, decode_ofList, hread]

/-- An address is the end of its word. -/
theorem decode_address {name : String} {zeros address : List Char} (hzeros : zeros.length = 24)
    (haddress : address.length = 40) :
    decode [(name, .address)] (String.ofList ('0' :: 'x' :: (zeros ++ address))) =
      .ok (.result (entries [name] [.string (String.ofList ('0' :: 'x' :: address))])) := by
  have hdrop : ((zeros ++ address).drop 24).take 40 = address := by
    rw [List.drop_left' hzeros, List.take_of_length_le haddress.le]
  rw [decode_ofList, read, readFields, if_neg (by exact Bool.false_ne_true), read, textOf, hdrop]
  rfl

end StandardCoder

def standardCoder : AbiCoder where
  encode := StandardCoder.encode
  decode := StandardCoder.decode
  round_trip components fields _ hfields := by
    have hzip : (names components).zip (fields.map Prod.snd) = fields := by
      rw [← names_of_hasFields hfields, List.zip_map']
      simp
    refine ⟨StandardCoder.textOfFields components fields, ?_,
      StandardCoder.decode_textOfFields hfields⟩
    rw [StandardCoder.encode, hzip]

end Abi
