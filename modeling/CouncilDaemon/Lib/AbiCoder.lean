import CouncilDaemon.Lib.FixedWidth

/-!
# The ABI coder

Values are encoded by their types and decoded to results: a `uint256` comes back as a big number and
a tuple as an array that has its components by position and by name (`decoded`). `AbiCoder` states
the round trip; `standardCoder` is the standard layout, with static components in the head and
dynamic ones behind it.
-/

namespace Abi

/-! ## Values and types -/

/-- A value of the language as the coder takes it and returns it. The keys of an object are in the
order in which they were set; a result is an array with names. -/
inductive Value where
  | number (n : ℕ)
  | bigNumber (n : ℕ)
  | string (text : String)
  | object (fields : List (String × Value))
  | result (entries : List (String × Value))

inductive AbiType where
  | address
  | uint256
  | bytes32
  | bytes
  | tuple (components : List (String × AbiType))

/-- Components with their names; the name of an unnamed one is empty. -/
abbrev Components := List (String × AbiType)

def names (components : Components) : List String := components.map Prod.fst

def isLowerHexDigit (c : Char) : Bool := ('0' ≤ c && c ≤ '9') || ('a' ≤ c && c ≤ 'f')

/-- `0x` and pairs of digits in lower case. -/
def isHex (text : String) : Bool :=
  match text.toList with
  | '0' :: 'x' :: digits => digits.length % 2 == 0 && digits.all isLowerHexDigit
  | _ => false

def isBytes32 (text : String) : Bool := isHex text && text.length == 66

mutual

/-- The value has exactly the fields of the type, in their order. A number is a safe integer. No value has
the type of an address here: what comes back for one depends on its checksum. -/
def hasType : AbiType → Value → Bool
  | .uint256, .number n => n < 2 ^ 53
  | .bytes32, .string text => isBytes32 text
  | .bytes, .string text => isHex text
  | .tuple components, .object fields => hasFields components fields
  | _, _ => false

def hasFields : List (String × AbiType) → List (String × Value) → Bool
  | [], [] => true
  | (name, type) :: components, (field, value) :: fields =>
    field == name && hasType type value && hasFields components fields
  | _, _ => false

end

/-- Keys that `Number` does not turn into `NaN`: the positions of an array, and one name. -/
def isNumeric (key : String) : Bool := key.toList.all Char.isDigit || key == "Infinity"

/-- What an array has under a name already. -/
def arrayProperties : List String :=
  ["length", "at", "concat", "copyWithin", "fill", "find", "findIndex", "findLast",
    "findLastIndex", "lastIndexOf", "pop", "push", "reverse", "shift", "unshift", "slice", "sort",
    "splice", "includes", "indexOf", "join", "keys", "entries", "values", "forEach", "filter",
    "flat", "flatMap", "map", "every", "some", "reduce", "reduceRight", "toLocaleString",
    "toString", "toReversed", "toSorted", "toSpliced", "with", "constructor", "hasOwnProperty",
    "isPrototypeOf", "propertyIsEnumerable", "valueOf", "__defineGetter__", "__defineSetter__",
    "__lookupGetter__", "__lookupSetter__", "__proto__"]

def isEntryName (name : String) : Bool := !isNumeric name && !arrayProperties.contains name

mutual

/-- The components of each tuple have names of their own that an array can carry. -/
def wellNamed : AbiType → Bool
  | .tuple components => decide (names components).Nodup && wellNamedFields components
  | _ => true

def wellNamedFields : List (String × AbiType) → Bool
  | [] => true
  | (name, type) :: components => isEntryName name && wellNamed type && wellNamedFields components

end

/-- The entries of a result: the values by position, then those with a name by name. -/
def entries (names : List String) (values : List Value) : List (String × Value) :=
  (values.zipIdx.map fun entry => (toString entry.2, entry.1)) ++
    (names.zip values).filter fun entry => entry.1 != ""

mutual

/-- What a value of the type comes back as. -/
def decoded : AbiType → Value → Value
  | .uint256, .number n => .bigNumber n
  | .tuple components, .object fields =>
    .result (entries (names components) (decodedFields components fields))
  | _, value => value

def decodedFields : List (String × AbiType) → List (String × Value) → List Value
  | (_, type) :: components, (_, value) :: fields =>
    decoded type value :: decodedFields components fields
  | _, _ => []

end

/-- A coder of lists of values. What is encoded is decoded, for components whose names can be kept. That
is asked of every safe integer; a package whose numbers end below `2 ^ 53 - 1` refuses this last one. -/
structure AbiCoder where
  encode : Components → List Value → Except String String
  decode : Components → String → Except String Value
  round_trip : ∀ components fields, wellNamed (.tuple components) → hasFields components fields →
    ∃ data, encode components (fields.map Prod.snd) = .ok data ∧
      decode components data = .ok (decoded (.tuple components) (.object fields))

section Fields

variable {components : Components} {fields : List (String × Value)}

theorem fields_of_hasType {value : Value} (h : hasType (.tuple components) value) :
    ∃ fields, value = .object fields ∧ hasFields components fields := by
  cases value with
  | object fields =>
    rw [hasType] at h
    exact ⟨fields, rfl, h⟩
  | _ => simp [hasType] at h

theorem cons_of_hasFields {name : String} {type : AbiType}
    (h : hasFields ((name, type) :: components) fields) :
    ∃ value rest, fields = (name, value) :: rest ∧ hasType type value ∧
      hasFields components rest := by
  cases fields with
  | nil => simp [hasFields] at h
  | cons field rest =>
    obtain ⟨key, value⟩ := field
    simp only [hasFields, Bool.and_eq_true, beq_iff_eq] at h
    obtain ⟨⟨rfl, hvalue⟩, hrest⟩ := h
    exact ⟨value, rest, rfl, hvalue, hrest⟩

theorem nil_of_hasFields (h : hasFields [] fields) : fields = [] := by
  cases fields with
  | nil => rfl
  | cons field rest => simp [hasFields] at h

theorem names_of_hasFields (h : hasFields components fields) :
    fields.map Prod.fst = names components := by
  induction components generalizing fields with
  | nil =>
    rw [nil_of_hasFields h]
    rfl
  | cons component components ih =>
    obtain ⟨value, rest, rfl, -, hrest⟩ := cons_of_hasFields h
    rw [List.map_cons, ih hrest]
    rfl

theorem length_decodedFields (h : hasFields components fields) :
    (decodedFields components fields).length = components.length := by
  induction components generalizing fields with
  | nil =>
    rw [nil_of_hasFields h]
    rfl
  | cons component components ih =>
    obtain ⟨value, rest, rfl, -, hrest⟩ := cons_of_hasFields h
    rw [decodedFields, List.length_cons, ih hrest, List.length_cons]

end Fields

end Abi
