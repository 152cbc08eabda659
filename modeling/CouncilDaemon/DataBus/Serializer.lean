import CouncilDaemon.Lib.AbiCoder

/-!
# The serializer of the data bus

The schemas of the events and the mappers that read the arguments of a decoded log. The arguments are
results of the coder: a mapper takes the named entries of each tuple before it parses them.
-/

namespace CouncilDaemon

open Abi

/-! ## Schemas -/

/-- `bigNumber` is `BigNumberSchema`, with its transform. -/
inductive Schema where
  | bigNumber
  | string
  | object (shape : List (String × Schema))

def parsedType : Value → String
  | .number _ => "number"
  | .string _ => "string"
  | .result _ => "array"
  | _ => "object"

mutual

/-- `schema.parse`, where `none` is `undefined`. The error is that of the first field that has one. -/
def Schema.parse : Schema → Option Value → Except String Value
  | .bigNumber, some (.bigNumber n) => if n < 2 ^ 53 then .ok (.number n) else .error "overflow"
  | .bigNumber, some (.number n) => .ok (.string (toString n))
  | .bigNumber, some (.string text) => .ok (.string text)
  | .bigNumber, _ => .error "Invalid input"
  | .string, some (.string text) => .ok (.string text)
  | .string, some value => .error s!"Expected string, received {parsedType value}"
  | .object shape, some (.object fields) => do
    let parsed ← parseShape shape fields
    return .object parsed
  | .object _, some value => .error s!"Expected object, received {parsedType value}"
  | _, none => .error "Required"

def parseShape : List (String × Schema) → List (String × Value) →
    Except String (List (String × Value))
  | [], _ => .ok []
  | (name, schema) :: shape, fields => do
    let value ← schema.parse (fields.lookup name)
    let parsed ← parseShape shape fields
    return (name, value) :: parsed

end

/-- `fields[name] = value`. -/
def setProperty {α : Type} (fields : List (String × α)) (name : String) (value : α) :
    List (String × α) :=
  if fields.any fun field => field.1 == name then
    fields.map fun field => if field.1 == name then (name, value) else field
  else
    fields ++ [(name, value)]

/-- `schema.extend({ name: field })`. -/
def Schema.extend (schema : Schema) (name : String) (field : Schema) : Schema :=
  match schema with
  | .object shape => .object (setProperty shape name field)
  | schema => schema

def BigNumberSchema : Schema := .bigNumber

def SignatureSchema : Schema := .object [("r", .string), ("vs", .string)]

def SignatureBlobSchema : Schema := .string

def AppSchema : Schema := .object [("version", .string)]

/-- The schema of the arguments of an event with this data. -/
def eventSchema (data : Schema) : Schema := .object [("guardianAddress", .string), ("data", data)]

def MessageDepositV1DataSchema : Schema := .object [
  ("blockNumber", BigNumberSchema),
  ("blockHash", .string),
  ("depositRoot", .string),
  ("stakingModuleId", BigNumberSchema),
  ("nonce", BigNumberSchema),
  ("signature", SignatureSchema),
  ("app", AppSchema)]

def MessagePauseV3DataSchema : Schema := .object [
  ("blockNumber", BigNumberSchema),
  ("blockHash", .string),
  ("signature", SignatureSchema),
  ("app", AppSchema)]

def MessagePingV1DataSchema : Schema := .object [("blockNumber", BigNumberSchema), ("app", AppSchema)]

def MessageUnvetV1DataSchema : Schema := .object [
  ("blockNumber", BigNumberSchema),
  ("blockHash", .string),
  ("stakingModuleId", BigNumberSchema),
  ("nonce", BigNumberSchema),
  ("operatorIds", .string),
  ("vettedKeysByOperator", .string),
  ("signature", SignatureSchema),
  ("app", AppSchema)]

def MessageDepositV2DataSchema : Schema :=
  MessageDepositV1DataSchema.extend "signature" SignatureBlobSchema

def MessagePauseV4DataSchema : Schema :=
  MessagePauseV3DataSchema.extend "signature" SignatureBlobSchema

def MessageUnvetV2DataSchema : Schema :=
  MessageUnvetV1DataSchema.extend "signature" SignatureBlobSchema

/-! ## Mappers -/

/-- The enumerable properties of a text are its positions, those of a big number no schema reads, and
`undefined` and a number have none. -/
def extractNamedProperties : Option Value → List (String × Value)
  | some (.object fields) => fields.filter fun field => !isNumeric field.1
  | some (.result entries) => entries.filter fun entry => !isNumeric entry.1
  | _ => []

/-- `fields[name] = extractNamedProperties(fields[name])` for each of the names. -/
def unwrapProperties (fields : List (String × Value)) (unwrapped : List String) :
    List (String × Value) :=
  unwrapped.foldl
    (fun fields name => setProperty fields name (.object (extractNamedProperties (fields.lookup name))))
    fields

/-- What the mappers have in common: they differ in the fields of the data they unwrap and in the
schema. -/
def mapEvent (unwrapped : List String) (schema : Schema) (args : Value) : Except String Value :=
  let namedArgs := extractNamedProperties (some args)
  let data := extractNamedProperties (namedArgs.lookup "data")
  schema.parse
    (some (.object (setProperty namedArgs "data" (.object (unwrapProperties data unwrapped)))))

def mapMessageDepositV1 : Value → Except String Value :=
  mapEvent ["signature", "app"] (eventSchema MessageDepositV1DataSchema)

def mapMessagePauseV3 : Value → Except String Value :=
  mapEvent ["signature", "app"] (eventSchema MessagePauseV3DataSchema)

def mapMessagePingV1 : Value → Except String Value :=
  mapEvent ["app"] (eventSchema MessagePingV1DataSchema)

def mapMessageUnvetV1 : Value → Except String Value :=
  mapEvent ["signature", "app"] (eventSchema MessageUnvetV1DataSchema)

/-- A flat signature needs no unwrapping, unlike the compact pair. -/
def mapBlobSignatureEvent (schema : Schema) : Value → Except String Value := mapEvent ["app"] schema

def eventMappers : List (String × (Value → Except String Value)) := [
  ("MessageDepositV1", mapMessageDepositV1),
  ("MessagePauseV3", mapMessagePauseV3),
  ("MessagePingV1", mapMessagePingV1),
  ("MessageUnvetV1", mapMessageUnvetV1),
  ("MessageDepositV2", mapBlobSignatureEvent (eventSchema MessageDepositV2DataSchema)),
  ("MessagePauseV4", mapBlobSignatureEvent (eventSchema MessagePauseV4DataSchema)),
  ("MessageUnvetV2", mapBlobSignatureEvent (eventSchema MessageUnvetV2DataSchema))]

/-! ## The schema of a type

`Schema.ofType` reads the named entries of what the coder returns for a type; a mapper that unwraps
the tuples of its data (`tupleNames`) and has that schema gives the encoded value back. -/

mutual

def Schema.ofType : AbiType → Schema
  | .uint256 => .bigNumber
  | .tuple components => .object (shapeOf components)
  | _ => .string

def shapeOf : List (String × AbiType) → List (String × Schema)
  | [] => []
  | (name, type) :: components => (name, Schema.ofType type) :: shapeOf components

end

def isTuple : AbiType → Bool
  | .tuple _ => true
  | _ => false

def tupleNames (components : Components) : List String :=
  names (components.filter fun component => isTuple component.2)

/-- The tuples among the components have no tuples inside. -/
def isShallow (components : Components) : Bool :=
  components.all fun component =>
    match component.2 with
    | .tuple inner => (tupleNames inner).isEmpty
    | _ => true

mutual

/-- What the coder returns, with the named entries only in each tuple. -/
def unwrapped : AbiType → Value → Value
  | .uint256, .number n => .bigNumber n
  | .tuple components, .object fields => .object (unwrappedFields components fields)
  | _, value => value

def unwrappedFields : List (String × AbiType) → List (String × Value) → List (String × Value)
  | (name, type) :: components, (_, value) :: fields =>
    (name, unwrapped type value) :: unwrappedFields components fields
  | _, _ => []

end

section OfType

variable {components : Components} {fields : List (String × Value)}

theorem lookup_of_mem {α : Type} {entries : List (String × α)} {entry : String × α}
    (hnodup : (entries.map Prod.fst).Nodup) (hmem : entry ∈ entries) :
    entries.lookup entry.1 = some entry.2 := by
  induction entries with
  | nil => cases hmem
  | cons first entries ih =>
    rw [List.map_cons, List.nodup_cons] at hnodup
    rcases List.mem_cons.1 hmem with rfl | hmem
    · rw [List.lookup_cons, beq_self_eq_true]
    · have hne : entry.1 ≠ first.1 := by
        rintro heq
        exact hnodup.1 (heq ▸ List.mem_map_of_mem hmem)
      rw [List.lookup_cons, beq_false_of_ne hne]
      exact ih hnodup.2 hmem

theorem names_unwrappedFields (h : hasFields components fields) :
    (unwrappedFields components fields).map Prod.fst = names components := by
  induction components generalizing fields with
  | nil =>
    rw [nil_of_hasFields h]
    rfl
  | cons component components ih =>
    obtain ⟨name, type⟩ := component
    obtain ⟨value, rest, rfl, -, hrest⟩ := cons_of_hasFields h
    rw [unwrappedFields, List.map_cons, ih hrest]
    rfl

theorem nodup_of_wellNamed (h : wellNamed (.tuple components)) : (names components).Nodup := by
  rw [wellNamed, Bool.and_eq_true, decide_eq_true_iff] at h
  exact h.1

theorem wellNamedFields_of_wellNamed (h : wellNamed (.tuple components)) :
    wellNamedFields components := by
  rw [wellNamed, Bool.and_eq_true] at h
  exact h.2

mutual

/-- The schema of a type gives the value back from the named entries of its decoding. -/
theorem parse_unwrapped : ∀ (type : AbiType) (value : Value), wellNamed type → hasType type value →
    (Schema.ofType type).parse (some (unwrapped type value)) = .ok value := by
  intro type value hnamed hvalue
  cases type with
  | address => simp [hasType] at hvalue
  | uint256 =>
    cases value with
    | number n =>
      have hn : n < 2 ^ 53 := by simpa [hasType] using hvalue
      rw [Schema.ofType, unwrapped, Schema.parse, if_pos hn]
    | _ => simp [hasType] at hvalue
  | bytes32 =>
    cases value with
    | string text => rfl
    | _ => simp [hasType] at hvalue
  | bytes =>
    cases value with
    | string text => rfl
    | _ => simp [hasType] at hvalue
  | tuple components =>
    obtain ⟨fields, rfl, hfields⟩ := fields_of_hasType hvalue
    have hnodup : ((unwrappedFields components fields).map Prod.fst).Nodup := by
      rw [names_unwrappedFields hfields]
      exact nodup_of_wellNamed hnamed
    have hparse := parse_unwrappedFields components fields (wellNamedFields_of_wellNamed hnamed)
      hfields (unwrappedFields components fields) fun entry hentry => lookup_of_mem hnodup hentry
    rw [Schema.ofType, unwrapped, Schema.parse, hparse]
    rfl

theorem parse_unwrappedFields : ∀ (components : Components) (fields : List (String × Value)),
    wellNamedFields components → hasFields components fields → ∀ source : List (String × Value),
    (∀ entry ∈ unwrappedFields components fields, source.lookup entry.1 = some entry.2) →
    parseShape (shapeOf components) source = .ok fields := by
  intro components fields hnamed hfields source hsource
  cases components with
  | nil =>
    rw [nil_of_hasFields hfields]
    rfl
  | cons component components =>
    obtain ⟨name, type⟩ := component
    obtain ⟨value, rest, rfl, hvalue, hrest⟩ := cons_of_hasFields hfields
    simp only [wellNamedFields, Bool.and_eq_true] at hnamed
    have hlookup : source.lookup name = some (unwrapped type value) :=
      hsource (name, unwrapped type value) (List.mem_cons_self ..)
    have hparse := parse_unwrapped type value hnamed.1.2 hvalue
    have hshape := parse_unwrappedFields components rest hnamed.2 hrest source
      fun entry hentry => hsource entry (List.mem_cons_of_mem _ hentry)
    rw [shapeOf, parseShape, hlookup, hparse, hshape]
    rfl

end

theorem isNumeric_toString (n : ℕ) : isNumeric (toString n) = true := by
  have hdigits : (toString n).toList.all Char.isDigit = true := by
    rw [List.all_eq_true]
    intro c hc
    rw [Nat.toString_eq_repr, Nat.toList_repr] at hc
    exact Nat.isDigit_of_mem_toDigits (by norm_num) (by norm_num) hc
  rw [isNumeric, hdigits]
  rfl

theorem isEntryName_of_mem (h : wellNamedFields components) :
    ∀ name ∈ names components, isEntryName name := by
  induction components with
  | nil =>
    intro name hname
    cases hname
  | cons component components ih =>
    simp only [wellNamedFields, Bool.and_eq_true] at h
    intro name hname
    rcases List.mem_cons.1 hname with rfl | hname
    · exact h.1.1
    · exact ih h.2 name hname

/-- Of the entries of a result the named ones are kept. -/
theorem filter_entries {entryNames : List String} (values : List Value)
    (h : ∀ name ∈ entryNames, isEntryName name) :
    ((entries entryNames values).filter fun entry => !isNumeric entry.1) =
      entryNames.zip values := by
  have hpositions : (((values.zipIdx.map fun entry => (toString entry.2, entry.1)) :
      List (String × Value)).filter fun entry => !isNumeric entry.1) = [] := by
    rw [List.filter_eq_nil_iff]
    intro entry hentry
    obtain ⟨position, -, rfl⟩ := List.mem_map.1 hentry
    rw [isNumeric_toString]
    exact Bool.false_ne_true
  have hkept : ∀ entry ∈ entryNames.zip values,
      (!isNumeric entry.1) = true ∧ (entry.1 != "") = true := by
    intro entry hentry
    have hname := h entry.1 (List.of_mem_zip hentry).1
    rw [isEntryName, Bool.and_eq_true] at hname
    refine ⟨hname.1, ?_⟩
    rw [bne_iff_ne]
    intro hempty
    rw [hempty] at hname
    exact absurd hname.1 (by decide)
  rw [entries, List.filter_append, hpositions, List.nil_append, List.filter_filter,
    List.filter_eq_self]
  intro entry hentry
  rw [(hkept entry hentry).1, (hkept entry hentry).2]
  rfl

theorem extractNamedProperties_decoded (hnamed : wellNamed (.tuple components)) :
    extractNamedProperties (some (decoded (.tuple components) (.object fields))) =
      (names components).zip (decodedFields components fields) := by
  rw [decoded, extractNamedProperties]
  exact filter_entries _ (isEntryName_of_mem (wellNamedFields_of_wellNamed hnamed))

/-- Only a tuple has entries by position, which its named entries leave out. -/
theorem unwrapped_eq_decoded {type : AbiType} (htype : isTuple type = false) (value : Value) :
    unwrapped type value = decoded type value := by
  cases type with
  | tuple components => cases htype
  | uint256 => cases value <;> rfl
  | _ => rfl

theorem zip_decodedFields (hfields : hasFields components fields)
    (hflat : tupleNames components = []) :
    (names components).zip (decodedFields components fields) =
      unwrappedFields components fields := by
  induction components generalizing fields with
  | nil =>
    rw [nil_of_hasFields hfields]
    rfl
  | cons component components ih =>
    obtain ⟨name, type⟩ := component
    obtain ⟨value, rest, rfl, -, hrest⟩ := cons_of_hasFields hfields
    cases htype : isTuple type with
    | true => simp [tupleNames, names, htype] at hflat
    | false =>
      have htail : tupleNames components = [] := by
        rw [tupleNames, List.filter_cons_of_neg (by simp [htype])] at hflat
        exact hflat
      rw [decodedFields, unwrappedFields, unwrapped_eq_decoded htype, ← ih hrest htail]
      rfl

theorem setProperty_of_mem {α : Type} {fields : List (String × α)} {name : String}
    (h : name ∈ fields.map Prod.fst) (value : α) :
    setProperty fields name value =
      fields.map fun field => if field.1 = name then (name, value) else field := by
  obtain ⟨field, hfield, rfl⟩ := List.mem_map.1 h
  have hany : (fields.any fun other => other.1 == field.1) = true :=
    List.any_eq_true.2 ⟨field, hfield, beq_self_eq_true _⟩
  rw [setProperty, if_pos hany]
  simp only [beq_iff_eq]

/-- The fields with these names are unwrapped, and no others. -/
theorem unwrapProperties_eq {unwrappedNames : List String} {fields : List (String × Value)}
    (hnodup : (fields.map Prod.fst).Nodup) (hnames : unwrappedNames.Nodup)
    (hmem : ∀ name ∈ unwrappedNames, name ∈ fields.map Prod.fst) :
    unwrapProperties fields unwrappedNames = fields.map fun field =>
      if field.1 ∈ unwrappedNames then (field.1, .object (extractNamedProperties (some field.2)))
      else field := by
  induction unwrappedNames generalizing fields with
  | nil => simp [unwrapProperties]
  | cons name unwrappedNames ih =>
    rw [List.nodup_cons] at hnames
    have hstep : setProperty fields name
        (.object (extractNamedProperties (fields.lookup name))) =
        fields.map fun field => if field.1 = name then
          (field.1, .object (extractNamedProperties (some field.2))) else field := by
      rw [setProperty_of_mem (hmem name (List.mem_cons_self ..))]
      refine List.map_congr_left fun field hfield => ?_
      split_ifs with hname
      · rw [← hname, lookup_of_mem hnodup hfield]
      · rfl
    have hkeys : (fields.map fun field => if field.1 = name then
        (field.1, Value.object (extractNamedProperties (some field.2))) else field).map Prod.fst =
        fields.map Prod.fst := by
      rw [List.map_map]
      refine List.map_congr_left fun field _ => ?_
      show (if field.1 = name then _ else field).1 = field.1
      split_ifs <;> rfl
    rw [unwrapProperties, List.foldl_cons, hstep]
    show unwrapProperties _ unwrappedNames = _
    rw [ih (by rw [hkeys]; exact hnodup) hnames.2
      (by rw [hkeys]; exact fun other hother => hmem other (List.mem_cons_of_mem _ hother)),
      List.map_map]
    refine List.map_congr_left fun field _ => ?_
    show (if (if field.1 = name then _ else field).1 ∈ unwrappedNames then _ else _) = _
    by_cases hname : field.1 = name
    · simp only [hname, if_true, hnames.1, if_false, List.mem_cons_self]
    · simp only [hname, if_false, List.mem_cons, false_or]

/-- The tuples among the components, unwrapped by their names. -/
theorem map_zip_decodedFields {unwrappedNames : List String} (hfields : hasFields components fields)
    (hnamed : wellNamedFields components) (hshallow : isShallow components)
    (hnames : ∀ component ∈ components,
      (component.1 ∈ unwrappedNames ↔ isTuple component.2 = true)) :
    (((names components).zip (decodedFields components fields)).map fun field =>
      if field.1 ∈ unwrappedNames then
        (field.1, Value.object (extractNamedProperties (some field.2))) else field) =
      unwrappedFields components fields := by
  induction components generalizing fields with
  | nil =>
    rw [nil_of_hasFields hfields]
    rfl
  | cons component components ih =>
    obtain ⟨name, type⟩ := component
    obtain ⟨value, rest, rfl, hvalue, hrest⟩ := cons_of_hasFields hfields
    simp only [wellNamedFields, Bool.and_eq_true] at hnamed
    rw [isShallow, List.all_cons, Bool.and_eq_true] at hshallow
    have htail := ih hrest hnamed.2 hshallow.2 fun component hcomponent =>
      hnames component (List.mem_cons_of_mem _ hcomponent)
    have hname := hnames (name, type) (List.mem_cons_self ..)
    rw [decodedFields, unwrappedFields, names, List.map_cons, List.zip_cons_cons, List.map_cons]
    refine congrArg₂ List.cons ?_ htail
    show (if name ∈ unwrappedNames then _ else _) = _
    cases htype : isTuple type with
    | false =>
      rw [if_neg (by rw [hname, htype]; exact Bool.false_ne_true), unwrapped_eq_decoded htype]
    | true =>
      rw [if_pos (hname.2 htype)]
      cases type with
      | tuple inner =>
        obtain ⟨innerFields, rfl, hinner⟩ := fields_of_hasType hvalue
        have hflat : tupleNames inner = [] := by simpa using hshallow.1
        show (name, Value.object (extractNamedProperties (some (decoded _ _)))) = _
        rw [extractNamedProperties_decoded hnamed.1.2, zip_decodedFields hinner hflat, unwrapped]
      | _ => cases htype

theorem mem_tupleNames (hnodup : (names components).Nodup) :
    ∀ component ∈ components,
      (component.1 ∈ tupleNames components ↔ isTuple component.2 = true) := by
  intro component hcomponent
  constructor
  · intro hmem
    obtain ⟨other, hother, hname⟩ := List.mem_map.1 hmem
    rw [List.mem_filter] at hother
    have hsame := lookup_of_mem hnodup hother.1
    rw [hname, lookup_of_mem hnodup hcomponent] at hsame
    rw [Option.some.inj hsame]
    exact hother.2
  · intro htuple
    exact List.mem_map_of_mem (List.mem_filter.2 ⟨hcomponent, htuple⟩)

theorem unwrapProperties_decoded (hfields : hasFields components fields)
    (hnamed : wellNamed (.tuple components)) (hshallow : isShallow components) :
    unwrapProperties
      (extractNamedProperties (some (decoded (.tuple components) (.object fields))))
      (tupleNames components) = unwrappedFields components fields := by
  have hnodup := nodup_of_wellNamed hnamed
  have hlength : (names components).length ≤ (decodedFields components fields).length := by
    rw [length_decodedFields hfields, names, List.length_map]
  have hkeys : ((names components).zip (decodedFields components fields)).map Prod.fst =
      names components := List.map_fst_zip hlength
  have hsub : (tupleNames components).Sublist (names components) :=
    (List.filter_sublist ..).map _
  rw [extractNamedProperties_decoded hnamed,
    unwrapProperties_eq (by rw [hkeys]; exact hnodup) (hnodup.sublist hsub)
      (by rw [hkeys]; exact fun name hname => hsub.subset hname)]
  exact map_zip_decodedFields hfields (wellNamedFields_of_wellNamed hnamed) hshallow
    (mem_tupleNames hnodup)

/-- **The mapper of a type.** A mapper that unwraps the tuples of its data and has the schema of its
type gives the encoded value back. -/
theorem mapEvent_decoded (hfields : hasFields components fields)
    (hnamed : wellNamed (.tuple components)) (hshallow : isShallow components)
    (guardianAddress : String) :
    mapEvent (tupleNames components) (eventSchema (Schema.ofType (.tuple components)))
      (.result (entries ["guardianAddress", "data"]
        [.string guardianAddress, decoded (.tuple components) (.object fields)])) =
      .ok (.object [("guardianAddress", .string guardianAddress), ("data", .object fields)]) := by
  have hargs : extractNamedProperties (some (.result (entries ["guardianAddress", "data"]
      [.string guardianAddress, decoded (.tuple components) (.object fields)]))) =
      [("guardianAddress", .string guardianAddress),
        ("data", decoded (.tuple components) (.object fields))] :=
    filter_entries _ (by decide)
  have hparse : (Schema.ofType (.tuple components)).parse
      (some (.object (unwrappedFields components fields))) = .ok (.object fields) := by
    have hvalue : hasType (.tuple components) (.object fields) := by rw [hasType]; exact hfields
    have h := parse_unwrapped (.tuple components) (.object fields) hnamed hvalue
    rw [unwrapped] at h
    exact h
  unfold mapEvent
  rw [hargs]
  show (eventSchema _).parse (some (.object [("guardianAddress", .string guardianAddress),
    ("data", .object (unwrapProperties (extractNamedProperties (some (decoded _ _))) _))])) = _
  rw [unwrapProperties_decoded hfields hnamed hshallow, eventSchema, Schema.parse, parseShape,
    parseShape, parseShape]
  show (do
    let parsed ← (do
      let value ← Except.ok (Value.string guardianAddress)
      let parsed ← (do
        let value ← (Schema.ofType (.tuple components)).parse
          (some (.object (unwrappedFields components fields)))
        let parsed ← Except.ok []
        return ("data", value) :: parsed)
      return ("guardianAddress", value) :: parsed)
    return Value.object parsed) = _
  rw [hparse]
  rfl

end OfType

end CouncilDaemon
