import CouncilDaemon.DataBus.Client
import CouncilDaemon.Lib.StandardCoder
import CouncilDaemon.Security.Payloads

/-!
# Round trip of the data bus

What a sender publishes is what the client reads from the log (`data_bus_round_trip`). The tables
agree event by event: the type of the ABI, the fields of the transform, the schema, and the fields
that the mapper unwraps (`eventMappers_eq`).
-/

namespace CouncilDaemon

open Abi

/-! ## Texts -/

theorem isLowerHexDigit_digitChar {d : ℕ} (hd : d < 16) : isLowerHexDigit (Nat.digitChar d) := by
  have : ∀ d : Fin 16, isLowerHexDigit (Nat.digitChar d.val) := by decide
  exact this ⟨d, hd⟩

theorem all_digits (width n : ℕ) :
    ((FixedWidth.digits 16 width n).map Nat.digitChar).all isLowerHexDigit := by
  rw [List.all_eq_true]
  intro c hc
  obtain ⟨d, hd, rfl⟩ := List.mem_map.1 hc
  exact isLowerHexDigit_digitChar (FixedWidth.lt_of_mem_digits (by norm_num) hd)

theorem isHex_ofList {digits : List Char} (hlength : digits.length % 2 = 0)
    (hdigits : digits.all isLowerHexDigit) : isHex (String.ofList ('0' :: 'x' :: digits)) := by
  rw [isHex, String.toList_ofList]
  simp only [hlength, hdigits, beq_self_eq_true, Bool.and_self]

theorem isHex_iff {text : String} : isHex text ↔ ∃ digits, text.toList = '0' :: 'x' :: digits ∧
    digits.length % 2 = 0 ∧ digits.all isLowerHexDigit := by
  constructor
  · intro h
    unfold isHex at h
    split at h
    · rename_i digits hdigits
      rw [Bool.and_eq_true, beq_iff_eq] at h
      exact ⟨digits, hdigits, h⟩
    · cases h
  · rintro ⟨digits, hdigits, hlength, hall⟩
    have htext : text = String.ofList ('0' :: 'x' :: digits) := by
      rw [← hdigits, String.ofList_toList]
    rw [htext]
    exact isHex_ofList hlength hall

theorem formatBytes32String_ok {text : String} (h : text.utf8ByteSize ≤ 31) :
    ∃ version, formatBytes32String text = .ok version ∧ isBytes32 version := by
  have hlength : text.toUTF8.data.toList.length = text.utf8ByteSize := rfl
  have hsmall : ¬ text.toUTF8.data.toList.length > 31 := by omega
  refine ⟨_, if_neg hsmall, ?_⟩
  set numbers := text.toUTF8.data.toList.map UInt8.toNat ++
    List.replicate (32 - text.toUTF8.data.toList.length) 0 with hnumbers
  have hcount : numbers.length = 32 := by
    rw [hnumbers, List.length_append, List.length_map, List.length_replicate]
    omega
  set digits := numbers.flatMap fun byte => (FixedWidth.digits 16 2 byte).map Nat.digitChar
    with hdigits
  have hwidth : digits.length = 64 := by
    rw [hdigits, List.length_flatMap]
    simp only [List.length_map, FixedWidth.length_digits]
    rw [List.map_const', List.sum_replicate, hcount]
    rfl
  have hall : digits.all isLowerHexDigit := by
    rw [hdigits, List.all_flatMap, List.all_eq_true]
    exact fun byte _ => all_digits 2 byte
  have htext : "0x" ++ String.ofList digits = String.ofList ('0' :: 'x' :: digits) :=
    (@String.ofList_append ['0', 'x'] _).symm
  rw [isBytes32, htext, isHex_ofList (by rw [hwidth]) hall, String.length_ofList]
  simp [hwidth]

theorem hexBytes?_isSome {digits : List Char} (hlength : digits.length % 2 = 0)
    (hdigits : digits.all isLowerHexDigit) : ∃ bytes, SolidityPack.hexBytes? digits = some bytes := by
  induction digits using SolidityPack.hexBytes?.induct with
  | case1 => exact ⟨[], rfl⟩
  | case2 c => cases hlength
  | case3 high low rest ih =>
    rw [List.all_cons, List.all_cons, Bool.and_eq_true, Bool.and_eq_true] at hdigits
    obtain ⟨bytes, hbytes⟩ := ih (by simpa [Nat.add_assoc] using hlength) hdigits.2.2
    have hdigit : ∀ c, isLowerHexDigit c → ∃ d, SolidityPack.hexDigit? c = some d := by
      intro c hc
      rw [isLowerHexDigit, Bool.or_eq_true, Bool.and_eq_true, Bool.and_eq_true] at hc
      simp only [decide_eq_true_eq] at hc
      unfold SolidityPack.hexDigit?
      split_ifs with h1 h2 h3
      · exact ⟨_, rfl⟩
      · exact ⟨_, rfl⟩
      · exact ⟨_, rfl⟩
      · exact absurd hc (by tauto)
    obtain ⟨h, hh⟩ := hdigit high hdigits.1
    obtain ⟨l, hl⟩ := hdigit low hdigits.2.1
    exact ⟨UInt8.ofNat (16 * h + l) :: bytes, by rw [SolidityPack.hexBytes?, hh, hl, hbytes]; rfl⟩

theorem arrayify_isHex {text : String} (h : isHex text) :
    ∃ bytes, SolidityPack.arrayify text = .ok bytes := by
  obtain ⟨digits, hdigits, hlength, hall⟩ := isHex_iff.1 h
  obtain ⟨bytes, hbytes⟩ := hexBytes?_isSome hlength hall
  refine ⟨bytes, ?_⟩
  unfold SolidityPack.arrayify
  rw [hdigits]
  simp only [hbytes]

theorem map_toLower {digits : List Char} (h : digits.all isLowerHexDigit) :
    digits.map Char.toLower = digits := by
  conv_rhs => rw [← List.map_id digits]
  refine List.map_congr_left fun c hc => ?_
  have hdigit := List.all_eq_true.1 h c hc
  rw [isLowerHexDigit, Bool.or_eq_true, Bool.and_eq_true, Bool.and_eq_true] at hdigit
  simp only [decide_eq_true_eq] at hdigit
  refine Char.toLower_eq_of_not_isUpper ?_
  rw [Char.isUpper, decide_eq_true_iff]
  rintro ⟨hlow, hhigh⟩
  rcases hdigit with hdigit | hdigit
  · exact absurd (le_trans hlow hdigit.2) (by decide)
  · exact absurd (le_trans hdigit.1 hhigh) (by decide)

/-- Texts of digits in lower case are concatenated as they are. -/
theorem hexConcat_ok {items : List String} (h : ∀ item ∈ items, isHex item) :
    ∃ blob, hexConcat items = .ok blob ∧ isHex blob ∧
      blob.length = 2 + (items.map fun item => item.length - 2).sum := by
  have hdigits : ∃ digits : List (List Char), (items.mapM fun item => do
      let _ ← SolidityPack.arrayify item
      return (item.toList.drop 2).map Char.toLower) = Except.ok digits ∧
      (∀ part ∈ digits, part.length % 2 = 0 ∧ part.all isLowerHexDigit) ∧
      digits.map List.length = items.map fun item => item.length - 2 := by
    induction items with
    | nil => exact ⟨[], rfl, by simp, rfl⟩
    | cons item items ih =>
      obtain ⟨digits, hmap, hparts, hlengths⟩ := ih fun x hx => h x (List.mem_cons_of_mem _ hx)
      have hitem := h item (List.mem_cons_self ..)
      obtain ⟨bytes, hbytes⟩ := arrayify_isHex hitem
      obtain ⟨part, hpart, hlength, hall⟩ := isHex_iff.1 hitem
      refine ⟨part :: digits, ?_, ?_, ?_⟩
      · rw [List.mapM_cons, hbytes, hmap, hpart]
        show Except.ok (part.map Char.toLower :: digits) = _
        rw [map_toLower hall]
      · rintro x hx
        rcases List.mem_cons.1 hx with rfl | hx
        · exact ⟨hlength, hall⟩
        · exact hparts x hx
      · rw [List.map_cons, List.map_cons, hlengths, ← String.length_toList, hpart]
        rfl
  obtain ⟨digits, hmap, hparts, hlengths⟩ := hdigits
  refine ⟨String.ofList ('0' :: 'x' :: digits.flatten), ?_, ?_, ?_⟩
  · unfold hexConcat
    rw [hmap]
    rfl
  · refine isHex_ofList ?_ ?_
    · rw [List.length_flatten]
      refine Nat.mod_eq_zero_of_dvd (List.dvd_sum fun n hn => ?_)
      obtain ⟨part, hpart, rfl⟩ := List.mem_map.1 hn
      exact Nat.dvd_of_mod_eq_zero (hparts part hpart).1
    · rw [List.all_flatten, List.all_eq_true]
      exact fun part hpart => (hparts part hpart).2
  · rw [String.length_ofList, List.length_cons, List.length_cons, List.length_flatten, hlengths]
    omega

/-! ## The tables -/

/-- The type of the signature in the events of a version. -/
def wireType (dsmVersion : Option ℕ) : AbiType :=
  if dsmVersion = some dsmContractVersion5 then .bytes else signatureType

/-- The components of the data of an event. -/
def MessagesNames.components : MessagesNames → Components
  | messagePingV1 => pingComponents
  | messageDepositV1 => depositComponents signatureType
  | messageUnvetV1 => unvetComponents signatureType
  | messagePauseV3 => pauseComponents signatureType
  | messageDepositV2 => depositComponents .bytes
  | messagePauseV4 => pauseComponents .bytes
  | messageUnvetV2 => unvetComponents .bytes

theorem find_eventsAbi (name : MessagesNames) :
    eventsAbi.find? (fun event => event.name == name.text) =
      some (messageEvent name.text name.components) := by
  cases name <;> rfl

theorem eventsAbi_eq :
    ∀ event ∈ eventsAbi, ∃ name : MessagesNames, event = messageEvent name.text name.components := by
  simp only [eventsAbi, List.forall_mem_cons, List.not_mem_nil, false_imp_iff, implies_true,
    and_true]
  exact ⟨⟨.messageDepositV1, rfl⟩, ⟨.messagePauseV3, rfl⟩, ⟨.messagePingV1, rfl⟩,
    ⟨.messageUnvetV1, rfl⟩, ⟨.messageDepositV2, rfl⟩, ⟨.messagePauseV4, rfl⟩,
    ⟨.messageUnvetV2, rfl⟩⟩

theorem mem_eventsAbi (name : MessagesNames) :
    messageEvent name.text name.components ∈ eventsAbi := by
  have h := List.mem_of_find?_eq_some (find_eventsAbi name)
  exact h

/-- The mapper of an event has the schema of its type, and unwraps the tuples of its data. -/
theorem eventMappers_eq (name : MessagesNames) :
    eventMappers.lookup name.text = some (mapEvent (tupleNames name.components)
      (eventSchema (Schema.ofType (.tuple name.components)))) := by
  cases name <;> rfl

theorem wellNamed_components (name : MessagesNames) : wellNamed (.tuple name.components) := by
  cases name <;> decide +kernel

theorem wellNamed_data (name : MessagesNames) :
    wellNamed (.tuple [("data", .tuple name.components)]) := by
  have h := wellNamed_components name
  simp only [wellNamed, wellNamedFields, Bool.and_true, Bool.and_eq_true] at h ⊢
  exact ⟨decide_eq_true (List.nodup_singleton _), by decide, h⟩

theorem isShallow_components (name : MessagesNames) : isShallow name.components := by
  cases name <;> rfl

/-! ## The transform -/

structure Signature.WellFormed (signature : Signature) : Prop where
  r : isBytes32 signature.r
  s : isBytes32 signature.s
  vs : isBytes32 signature._vs
  v : signature.v < 2 ^ 53

/-- The numbers are safe integers, and the texts are hexadecimal in lower case. -/
def Message.WellFormed : Message → Prop
  | deposit message => message.blockNumber < 2 ^ 53 ∧ isBytes32 message.blockHash ∧
    isBytes32 message.depositRoot ∧ message.stakingModuleId < 2 ^ 53 ∧ message.nonce < 2 ^ 53 ∧
    message.signature.WellFormed
  | pause message => message.blockNumber < 2 ^ 53 ∧ isBytes32 message.blockHash ∧
    message.signature.WellFormed
  | unvet message => message.blockNumber < 2 ^ 53 ∧ isBytes32 message.blockHash ∧
    message.stakingModuleId < 2 ^ 53 ∧ message.nonce < 2 ^ 53 ∧ isHex message.operatorIds ∧
    isHex message.vettedKeysByOperator ∧ message.signature.WellFormed
  | ping message => message.blockNumber < 2 ^ 53

structure MessageWithMeta.WellFormed (message : MessageWithMeta) : Prop where
  fields : message.message.WellFormed
  version : message.app.version.utf8ByteSize ≤ 31

/-- The published form of a signature: the compact pair, and on the fifth version the blob, of 65
bytes when the recovery id is one. -/
structure WireLayout (dsmVersion : Option ℕ) (signature : Signature) (wire : Value) : Prop where
  type : hasType (wireType dsmVersion) wire
  compact : dsmVersion ≠ some dsmContractVersion5 →
    wire = .object [("r", .string signature.r), ("vs", .string signature._vs)]
  blob : dsmVersion = some dsmContractVersion5 →
    ∃ text, wire = .string text ∧ (signature.v < 256 → text.length = 2 + 2 * 65)

variable {ethers : Ethers}

theorem isHex_hexText (bytes n : ℕ) : isHex (Unvetting.hexText (2 * bytes) n) := by
  have htext : Unvetting.hexText (2 * bytes) n =
      String.ofList ('0' :: 'x' :: (FixedWidth.digits 16 (2 * bytes) n).map Nat.digitChar) :=
    (@String.ofList_append ['0', 'x'] _).symm
  rw [htext]
  refine isHex_ofList ?_ (all_digits _ _)
  rw [List.length_map, FixedWidth.length_digits, Nat.mul_mod_right]

theorem isHex_of_isBytes32 {text : String} (h : isBytes32 text) : isHex text ∧ text.length = 66 := by
  rw [isBytes32, Bool.and_eq_true, beq_iff_eq] at h
  exact h

theorem wireSignature_ok (ethers : Ethers) {signature : Signature} (h : signature.WellFormed) (dsmVersion : Option ℕ) :
    ∃ wire, (getDsmStrategy ethers dsmVersion).wireSignature signature = .ok wire ∧
      WireLayout dsmVersion signature wire.toValue := by
  by_cases hversion : dsmVersion = some dsmContractVersion5
  · obtain ⟨bytes, hlt, hleast, hexlify⟩ := ethers.hexlify_ok signature.v h.v
    have hitems : ∀ item ∈ [signature.r, signature.s, Unvetting.hexText (2 * (bytes + 1)) signature.v],
        isHex item := by
      simp only [List.forall_mem_cons, List.not_mem_nil, false_imp_iff, implies_true, and_true]
      exact ⟨(isHex_of_isBytes32 h.r).1, (isHex_of_isBytes32 h.s).1, isHex_hexText _ _⟩
    obtain ⟨blob, hblob, hhex, hlength⟩ := hexConcat_ok hitems
    refine ⟨.blob blob, ?_, ?_, fun hne => absurd hversion hne, fun _ => ⟨blob, rfl, ?_⟩⟩
    · rw [getDsmStrategy, if_pos hversion]
      show (do
        let v ← ethers.hexlify signature.v
        let blob ← hexConcat [signature.r, signature.s, v]
        return WireSignature.blob blob) = _
      rw [hexlify]
      show (do
        let blob ← hexConcat _
        return WireSignature.blob blob) = _
      rw [hblob]
      rfl
    · rw [wireType, if_pos hversion]
      exact hhex
    · intro hv
      have hbytes : bytes = 0 := by
        rcases hleast with hzero | hle
        · exact hzero
        · by_contra hne
          have hpow : 256 ^ 1 ≤ 256 ^ bytes := Nat.pow_le_pow_right (by norm_num) (by omega)
          omega
      rw [hlength, List.map_cons, List.map_cons, List.map_cons, (isHex_of_isBytes32 h.r).2,
        (isHex_of_isBytes32 h.s).2, Unvetting.length_hexText, hbytes]
      rfl
  · refine ⟨.compact (compactSignature signature), ?_, ?_, fun _ => rfl, fun h5 => absurd h5 hversion⟩
    · rw [getDsmStrategy, if_neg hversion]
      rfl
    · rw [wireType, if_neg hversion]
      simp only [signatureType, WireSignature.toValue, compactSignature, hasType, hasFields, h.r,
        h.vs, beq_self_eq_true, Bool.and_self]

/-- The components of the event of a message. -/
def Message.components : Message → Components
  | deposit message => depositComponents (wireType message.dsmVersion)
  | pause message => pauseComponents (wireType message.dsmVersion)
  | unvet message => unvetComponents (wireType message.dsmVersion)
  | ping _ => pingComponents

theorem busEvents_components (dsmVersion : Option ℕ) :
    (getDsmStrategy ethers dsmVersion).busEvents.deposit.components =
        depositComponents (wireType dsmVersion) ∧
      (getDsmStrategy ethers dsmVersion).busEvents.pause.components =
        pauseComponents (wireType dsmVersion) ∧
      (getDsmStrategy ethers dsmVersion).busEvents.unvet.components =
        unvetComponents (wireType dsmVersion) := by
  by_cases hversion : dsmVersion = some dsmContractVersion5
  · rw [getDsmStrategy, wireType, if_pos hversion, if_pos hversion]
    exact ⟨rfl, rfl, rfl⟩
  · rw [getDsmStrategy, wireType, if_neg hversion, if_neg hversion]
    exact ⟨rfl, rfl, rfl⟩

theorem getEventName_components (message : Message) :
    (getEventName ethers message).components = message.components := by
  cases message with
  | deposit message => exact (busEvents_components message.dsmVersion).1
  | pause message => exact (busEvents_components message.dsmVersion).2.1
  | unvet message => exact (busEvents_components message.dsmVersion).2.2
  | ping message => rfl

/-- A message is transformed to the fields of its event, with the signature as its version has it. -/
theorem transformMessage_ok (ethers : Ethers) {message : MessageWithMeta} (h : message.WellFormed) :
    ∃ fields, transformMessage ethers message = .ok (.object fields) ∧
      hasFields message.message.components fields ∧
      ∀ signature, message.message.signature = some signature → ∃ wire,
        fields.lookup "signature" = some wire ∧
        WireLayout message.message.dsmVersion signature wire := by
  obtain ⟨message, app⟩ := message
  obtain ⟨hfields, hversion⟩ := h
  obtain ⟨version, hformat, hbytes⟩ := formatBytes32String_ok hversion
  cases message with
  | deposit message =>
    obtain ⟨hnumber, hhash, hroot, hid, hnonce, hsignature⟩ := hfields
    obtain ⟨wire, hwire, hlayout⟩ :=
      wireSignature_ok ethers hsignature message.dsmVersion
    have htransform : transformMessage ethers ⟨.deposit message, app⟩ = .ok (.object [
        ("blockNumber", .number message.blockNumber), ("blockHash", .string message.blockHash),
        ("depositRoot", .string message.depositRoot),
        ("stakingModuleId", .number message.stakingModuleId), ("nonce", .number message.nonce),
        ("signature", wire.toValue), ("app", .object [("version", .string version)])]) := by
      unfold transformMessage
      rw [hformat]
      show ((getDsmStrategy ethers message.dsmVersion).wireSignature message.signature >>=
        fun signature => Except.ok _) = _
      rw [hwire]
      rfl
    refine ⟨_, htransform, ?_, ?_⟩
    · simp [Message.components, depositComponents, appType, hasFields, hasType, hhash, hroot,
        hbytes, hlayout.type]
      exact ⟨hnumber, hid, hnonce⟩
    · rintro signature hsome
      obtain rfl := Option.some.inj hsome
      exact ⟨wire.toValue, rfl, hlayout⟩
  | pause message =>
    obtain ⟨hnumber, hhash, hsignature⟩ := hfields
    obtain ⟨wire, hwire, hlayout⟩ :=
      wireSignature_ok ethers hsignature message.dsmVersion
    have htransform : transformMessage ethers ⟨.pause message, app⟩ = .ok (.object [
        ("blockNumber", .number message.blockNumber), ("blockHash", .string message.blockHash),
        ("signature", wire.toValue), ("app", .object [("version", .string version)])]) := by
      unfold transformMessage
      rw [hformat]
      show ((getDsmStrategy ethers message.dsmVersion).wireSignature message.signature >>=
        fun signature => Except.ok _) = _
      rw [hwire]
      rfl
    refine ⟨_, htransform, ?_, ?_⟩
    · simp [Message.components, pauseComponents, appType, hasFields, hasType, hhash, hbytes,
        hlayout.type]
      exact hnumber
    · rintro signature hsome
      obtain rfl := Option.some.inj hsome
      exact ⟨wire.toValue, rfl, hlayout⟩
  | unvet message =>
    obtain ⟨hnumber, hhash, hid, hnonce, hids, hkeys, hsignature⟩ := hfields
    obtain ⟨wire, hwire, hlayout⟩ :=
      wireSignature_ok ethers hsignature message.dsmVersion
    have htransform : transformMessage ethers ⟨.unvet message, app⟩ = .ok (.object [
        ("blockNumber", .number message.blockNumber), ("blockHash", .string message.blockHash),
        ("stakingModuleId", .number message.stakingModuleId), ("nonce", .number message.nonce),
        ("operatorIds", .string message.operatorIds),
        ("vettedKeysByOperator", .string message.vettedKeysByOperator),
        ("signature", wire.toValue), ("app", .object [("version", .string version)])]) := by
      unfold transformMessage
      rw [hformat]
      show ((getDsmStrategy ethers message.dsmVersion).wireSignature message.signature >>=
        fun signature => Except.ok _) = _
      rw [hwire]
      rfl
    refine ⟨_, htransform, ?_, ?_⟩
    · simp [Message.components, unvetComponents, appType, hasFields, hasType, hhash, hids, hkeys,
        hbytes, hlayout.type]
      exact ⟨hnumber, hid, hnonce⟩
    · rintro signature hsome
      obtain rfl := Option.some.inj hsome
      exact ⟨wire.toValue, rfl, hlayout⟩
  | ping message =>
    have htransform : transformMessage ethers ⟨.ping message, app⟩ = .ok (.object [
        ("blockNumber", .number message.blockNumber),
        ("app", .object [("version", .string version)])]) := by
      unfold transformMessage
      rw [hformat]
      rfl
    have hnumber : message.blockNumber < 2 ^ 53 := hfields
    refine ⟨_, htransform, ?_, ?_⟩
    · simp [Message.components, pingComponents, appType, hasFields, hasType, hbytes]
      exact hnumber
    · rintro signature hsome
      cases hsome

/-! ## The round trip -/

variable {events : EventsInterface}

/-- The log of a call: the contract puts the sender into the topics, and the bytes into the data. -/
structure CarriesCall (events : EventsInterface) (call : DataBusCall) (guardianAddress : String)
    (log : Log) : Prop where
  topics : ∃ senderTopic, log.topics = [call.eventId, senderTopic] ∧
    events.coder.decode [("guardianAddress", .address)] senderTopic =
      .ok (.result (entries ["guardianAddress"] [.string guardianAddress]))
  data : events.coder.decode [("", .bytes)] log.data =
    .ok (.result (entries [""] [.string call.dataBytes]))

/-- The topic of an event gives the event back. -/
theorem find_topic {name : MessagesNames} {topics : List String}
    (h : topics.head? =
      some (events.getEventTopic (messageEvent name.text name.components))) :
    eventsAbi.find? (fun event => topics.head? == some (events.getEventTopic event)) =
      some (messageEvent name.text name.components) := by
  cases hfind : eventsAbi.find? (fun event => topics.head? == some (events.getEventTopic event)) with
  | none =>
    have hnone := List.find?_eq_none.1 hfind _ (mem_eventsAbi name)
    rw [h] at hnone
    exact absurd (beq_self_eq_true _) hnone
  | some event =>
    have hsome := List.find?_some hfind
    rw [h, beq_iff_eq, Option.some.injEq] at hsome
    have hmem := List.mem_of_find?_eq_some hfind
    have hname := events.getEventTopic_inj _ hmem _ (mem_eventsAbi name) hsome.symm
    obtain ⟨other, rfl⟩ := eventsAbi_eq event hmem
    have hother : other = name := by
      have htext : other.text = name.text := hname
      revert htext
      cases other <;> cases name <;> simp [MessagesNames.text]
    rw [hother]

theorem parseLog_of_topic {name : MessagesNames} {topics : List String} {data : String}
    (h : topics.head? =
      some (events.getEventTopic (messageEvent name.text name.components))) :
    parseLog events topics data =
      (events.decodeEventLog (messageEvent name.text name.components) topics data).map
        fun args => (messageEvent name.text name.components, args) := by
  unfold parseLog
  rw [find_topic h]
  show (events.decodeEventLog _ topics data >>= fun args => pure (_, args)) = _
  cases events.decodeEventLog (messageEvent name.text name.components) topics data <;> rfl

theorem firstEntry_entries (name : String) (value : Value) :
    firstEntry (.result (entries [name] [value])) = some value := by
  have hzero : ("0" == toString 0) = true := by decide
  show List.lookup "0" ((toString 0, value) :: _) = some value
  rw [List.lookup_cons, hzero]

/-- A log of an event is decoded as that event. -/
theorem mapLog_of_topic (name : MessagesNames) {log : Log} {decodedData : String}
    (htopic : log.topics.head? =
      some (events.getEventTopic (messageEvent name.text name.components)))
    (hdata : events.coder.decode [("", .bytes)] log.data =
      .ok (.result (entries [""] [.string decodedData]))) :
    mapLog events log =
      (events.decodeEventLog (messageEvent name.text name.components) log.topics decodedData >>=
        mapArgs log (messageEvent name.text name.components)) := by
  have hfirst := firstEntry_entries "" (.string decodedData)
  unfold mapLog
  rw [hdata]
  dsimp only [bind, Except.bind]
  rw [hfirst]
  dsimp only
  rw [parseLog_of_topic htopic]
  cases events.decodeEventLog (messageEvent name.text name.components) log.topics decodedData <;>
    rfl

/-- The arguments of an event are mapped by its mapper. -/
theorem mapArgs_eq (log : Log) (name : MessagesNames) (args : Value) :
    mapArgs log (messageEvent name.text name.components) args =
      (mapEvent (tupleNames name.components)
        (eventSchema (Schema.ofType (.tuple name.components))) args).map
        fun mappedData => [assignLog log name.text mappedData] := by
  have hmapper : eventMappers.lookup (messageEvent name.text name.components).name = _ :=
    eventMappers_eq name
  unfold mapArgs
  rw [hmapper]
  dsimp only [bind, Except.bind]
  cases mapEvent (tupleNames name.components)
    (eventSchema (Schema.ofType (.tuple name.components))) args <;> rfl

/-- **Round trip of the data bus.** The event of a well-formed message is in the ABI, its data has
exactly the fields of the transformed message, with the signature in the layout of the version, and
the mapper of the event reads the transformed message from what is published, also through the log.
A log of any event is decoded as that event and mapped by the mapper of that event. -/
theorem data_bus_round_trip (ethers : Ethers) (events : EventsInterface) :
    (∀ message : MessageWithMeta, message.WellFormed →
      ∃ (event : EventFragment) (components : Components) (fields : List (String × Value))
        (call : DataBusCall) (decodedData : Value),
        eventsAbi.find? (fun event =>
          event.name == (getEventName ethers message.message).text) = some event ∧
        event.inputs =
          [⟨"guardianAddress", .address, true⟩, ⟨"data", .tuple components, false⟩] ∧
        transformMessage ethers message = .ok (.object fields) ∧
        hasFields components fields ∧
        (∀ signature, message.message.signature = some signature → ∃ wire,
          fields.lookup "signature" = some wire ∧
          WireLayout message.message.dsmVersion signature wire) ∧
        messageCall events ethers message = .ok call ∧
        events.coder.decode [("data", .tuple components)] call.dataBytes =
          .ok (.result (entries ["data"] [decodedData])) ∧
        ∀ guardianAddress,
          (∃ mapper, eventMappers.lookup event.name = some mapper ∧
            mapper (.result (entries ["guardianAddress", "data"]
              [.string guardianAddress, decodedData])) =
              .ok (.object [("guardianAddress", .string guardianAddress),
                ("data", .object fields)])) ∧
          ∀ log, CarriesCall events call guardianAddress log →
            getByTopics events [log] = .ok [.object [("guardianAddress", .string guardianAddress),
              ("data", .object fields), ("txHash", .string log.transactionHash),
              ("name", .string event.name)]]) ∧
    ∀ event ∈ eventsAbi, ∃ mapper, eventMappers.lookup event.name = some mapper ∧
      ∀ log decodedData, log.topics.head? = some (events.getEventTopic event) →
        events.coder.decode [("", .bytes)] log.data =
          .ok (.result (entries [""] [.string decodedData])) →
        mapLog events log = (do
          let args ← events.decodeEventLog event log.topics decodedData
          let mappedData ← mapper args
          return [assignLog log event.name mappedData]) := by
  constructor
  · rintro message hmessage
    set name := getEventName ethers message.message with hname
    have hcomponents : name.components = message.message.components :=
      getEventName_components message.message
    obtain ⟨fields, htransform, hfields, hsignature⟩ := transformMessage_ok ethers hmessage
    rw [← hcomponents] at hfields
    have hwrapped : hasFields [("data", .tuple name.components)] [("data", .object fields)] := by
      simp [hasFields, hasType, hfields]
    obtain ⟨dataBytes, hencode, hdecode⟩ :=
      events.coder.round_trip _ _ (wellNamed_data name) hwrapped
    have hcall : messageCall events ethers message =
        .ok ⟨events.getEventTopic (messageEvent name.text name.components), dataBytes⟩ := by
      unfold messageCall encodeMessage
      rw [htransform]
      dsimp only [bind, Except.bind]
      rw [← hname, find_eventsAbi]
      dsimp only [messageEvent, List.getElem?_cons_succ, List.getElem?_cons_zero]
      show (events.coder.encode _ ([("data", Value.object fields)].map Prod.snd) >>= _) = _
      rw [hencode]
      rfl
    have hmap := fun guardianAddress => mapEvent_decoded hfields (wellNamed_components name)
      (isShallow_components name) guardianAddress
    refine ⟨messageEvent name.text name.components, name.components, fields, _, _,
      find_eventsAbi name, rfl, htransform, hfields, hsignature, hcall, hdecode, ?_⟩
    intro guardianAddress
    refine ⟨⟨_, eventMappers_eq name, hmap guardianAddress⟩, ?_⟩
    rintro log ⟨⟨senderTopic, htopics, hsender⟩, hdata⟩
    have hargs := events.decodeEventLog_ok (messageEvent name.text name.components) _ _ _ senderTopic
      dataBytes _ _ rfl hsender hdecode
    have hlog : mapLog events log = .ok [.object [("guardianAddress", .string guardianAddress),
        ("data", .object fields), ("txHash", .string log.transactionHash),
        ("name", .string name.text)]] := by
      rw [mapLog_of_topic name (by rw [htopics]; rfl) hdata, htopics, hargs]
      show mapArgs log _ _ = _
      rw [mapArgs_eq, hmap guardianAddress]
      rfl
    unfold getByTopics
    rw [List.mapM_cons, hlog]
    rfl
  · rintro event hevent
    obtain ⟨name, rfl⟩ := eventsAbi_eq event hevent
    refine ⟨_, eventMappers_eq name, ?_⟩
    rintro log decodedData htopic hdata
    rw [mapLog_of_topic _ htopic hdata]
    have hpush : mapArgs log (messageEvent name.text name.components) = fun args => (do
        let mappedData ← mapEvent (tupleNames name.components)
          (eventSchema (Schema.ofType (.tuple name.components))) args
        return [assignLog log (messageEvent name.text name.components).name mappedData]) := by
      funext args
      rw [mapArgs_eq]
      cases mapEvent (tupleNames name.components)
        (eventSchema (Schema.ofType (.tuple name.components))) args <;> rfl
    rw [hpush]

namespace DataBusSample

/-- The hashes of the signatures of the events. -/
def topics : List (String × String) := [
  ("MessageDepositV1", "0x5103f5b0e5aea35d6e1af42289c0dca99a396726160b3cbdd87111f85b592511"),
  ("MessagePauseV3", "0xc25dce77156d4af1ee6f76446a4a7883fbb04caa5d6904491792768df0b9ca9a"),
  ("MessagePingV1", "0xb4e911282d3690c63320f34afeedd4ebd08305b30e566e42980cfdccefa4b8d3"),
  ("MessageUnvetV1", "0x8319c135702a5eb09562b7d24145c9284ccd1558bb62a48afd12a7a65cca18f5"),
  ("MessageDepositV2", "0xcf64c19806fe2ec395d2dec6ce5d30751590628d5bd5c856f20c19596ec6d754"),
  ("MessagePauseV4", "0x0e1826fec51734115fd34a0600a4eac55568a45bda3803e27508351c8da5af50"),
  ("MessageUnvetV2", "0x9c9e438b53468f2013e591f24cddbb742b9c3e7b0121af48d9ee9282a012ba07")]

def topicOf (event : EventFragment) : String := (topics.lookup event.name).getD ""

def decodeEventLog (event : EventFragment) (topics : List String) (data : String) :
    Except String Value :=
  match event.inputs, topics with
  | [⟨sender, _, _⟩, ⟨argument, type, _⟩], [_, senderTopic] => do
    let indexed ← standardCoder.decode [(sender, .address)] senderTopic
    let rest ← standardCoder.decode [(argument, type)] data
    return .result (entries [sender, argument]
      [(firstEntry indexed).getD indexed, (firstEntry rest).getD rest])
  | _, _ => .error "unexpected inputs"

def sampleEvents : EventsInterface where
  coder := standardCoder
  getEventTopic := topicOf
  decodeEventLog := decodeEventLog
  getEventTopic_inj := by
    have hnames : ∀ name ∈ eventsAbi.map EventFragment.name,
        ∀ name' ∈ eventsAbi.map EventFragment.name,
        (topics.lookup name).getD "" = (topics.lookup name').getD "" → name = name' := by
      decide +kernel
    exact fun event hevent event' hevent' => hnames _ (List.mem_map_of_mem hevent) _
      (List.mem_map_of_mem hevent')
  decodeEventLog_ok event sender argument type senderTopic data guardianAddress value hinputs
      hsender hdata := by
    unfold decodeEventLog
    rw [hinputs]
    dsimp only
    rw [hsender, hdata]
    dsimp only [bind, Except.bind]
    rw [firstEntry_entries, firstEntry_entries]
    rfl

def pauseSignature : Signature where
  r := "0x1111111111111111111111111111111111111111111111111111111111111111"
  s := "0x2222222222222222222222222222222222222222222222222222222222222222"
  _vs := "0xa222222222222222222222222222222222222222222222222222222222222222"
  v := 28

/-- A pause message of the fifth version. -/
def pauseMessage : MessageWithMeta where
  message := .pause {
    guardianAddress := "0x3333333333333333333333333333333333333333"
    guardianIndex := 2
    blockNumber := 17
    blockHash := "0x4444444444444444444444444444444444444444444444444444444444444444"
    signature := pauseSignature
    dsmVersion := some 5 }
  app := { version := "3.0.0", name := "lido-council-daemon" }

def guardianAddress : String := String.ofList ('0' :: 'x' :: List.replicate 40 '3')

/-- The address of the sender, filled up with zeros. -/
def senderTopic : String :=
  String.ofList ('0' :: 'x' :: (List.replicate 24 '0' ++ List.replicate 40 '3'))

/-- What the contract logs for a call of the guardian. -/
def logOf (call : DataBusCall) : Log where
  topics := [call.eventId, senderTopic]
  data := StandardCoder.textOfFields [("", .bytes)] [("", .string call.dataBytes)]
  transactionHash := "0x5555555555555555555555555555555555555555555555555555555555555555"

/-- The fields that the relayer reads, with the signature as one text. -/
def pauseFields : List (String × Value) := [
  ("blockNumber", .number 17),
  ("blockHash", .string "0x4444444444444444444444444444444444444444444444444444444444444444"),
  ("signature", .string (String.ofList ("0x".toList ++ List.replicate 64 '1' ++
    List.replicate 64 '2' ++ "1c".toList))),
  ("app", .object [("version",
    .string "0x332e302e30000000000000000000000000000000000000000000000000000000")])]

theorem transformMessage_pause :
    transformMessage PayloadsSample.sampleEthers pauseMessage = .ok (.object pauseFields) := by
  rfl

theorem decode_senderTopic : StandardCoder.decode [("guardianAddress", .address)] senderTopic =
    .ok (.result (entries ["guardianAddress"] [.string guardianAddress])) :=
  StandardCoder.decode_address (List.length_replicate ..) (List.length_replicate ..)

theorem decode_logOf {call : DataBusCall} (h : isHex call.dataBytes) :
    StandardCoder.decode [("", .bytes)] (logOf call).data =
      .ok (.result (entries [""] [.string call.dataBytes])) :=
  StandardCoder.decode_textOfFields (by simp [hasType, hasFields, h])

/-- The bytes of a call are read from its log. -/
theorem carriesCall_logOf {call : DataBusCall} (h : isHex call.dataBytes) :
    CarriesCall sampleEvents call guardianAddress (logOf call) := by
  have hcoder : sampleEvents.coder.decode = StandardCoder.decode := rfl
  constructor
  · refine ⟨senderTopic, rfl, ?_⟩
    rw [hcoder]
    exact decode_senderTopic
  · rw [hcoder]
    exact decode_logOf h

/-- What the coder makes of the pause message is hexadecimal. -/
theorem isHex_pauseCall {call : DataBusCall}
    (h : messageCall sampleEvents PayloadsSample.sampleEthers pauseMessage = .ok call) :
    isHex call.dataBytes := by
  unfold messageCall at h
  rw [transformMessage_pause] at h
  have hcall : call = ⟨topicOf (messageEvent "MessagePauseV4" (pauseComponents .bytes)),
      StandardCoder.textOfFields [("data", .tuple (pauseComponents .bytes))]
        [("data", .object pauseFields)]⟩ := (Except.ok.inj h).symm
  rw [hcall]
  exact isHex_ofList (by decide +kernel) (by decide +kernel)

theorem data_bus_round_trip_sample :
    ∃ call, messageCall sampleEvents PayloadsSample.sampleEthers pauseMessage = .ok call ∧
      getByTopics sampleEvents [logOf call] = .ok [.object [
        ("guardianAddress", .string guardianAddress), ("data", .object pauseFields),
        ("txHash",
          .string "0x5555555555555555555555555555555555555555555555555555555555555555"),
        ("name", .string "MessagePauseV4")]] := by
  have hformed : pauseMessage.WellFormed :=
    ⟨⟨by decide, by decide +kernel, ⟨by decide +kernel, by decide +kernel, by decide +kernel,
      by decide⟩⟩, by decide +kernel⟩
  obtain ⟨event, components, fields, call, decodedData, hfind, hinputs, htransform, hfields,
    hsignature, hcall, hdecode, hread⟩ :=
    (data_bus_round_trip PayloadsSample.sampleEthers sampleEvents).1 pauseMessage hformed
  obtain rfl : fields = pauseFields := by
    rw [transformMessage_pause] at htransform
    exact (Value.object.inj (Except.ok.inj htransform)).symm
  have hname : event.name = "MessagePauseV4" := by
    have := List.find?_some hfind
    rw [beq_iff_eq] at this
    exact this
  refine ⟨call, hcall, ?_⟩
  rw [(hread guardianAddress).2 _ (carriesCall_logOf (isHex_pauseCall hcall)), hname]
  rfl

end DataBusSample

end CouncilDaemon
