import CouncilDaemon.DataBus.Serializer
import CouncilDaemon.Messages.Message

/-!
# The client of the data bus

The ABI of the contract, what the client hands to the contract for an event, and how it reads the
logs of the contract back.
-/

namespace CouncilDaemon

open Abi

/-! ## The ABI -/

structure ParamType where
  name : String
  type : AbiType
  indexed : Bool

structure EventFragment where
  name : String
  inputs : List ParamType

/-- An event of the data bus: the sender, and the data of the event. -/
def messageEvent (name : String) (components : Components) : EventFragment where
  name := name
  inputs := [⟨"guardianAddress", .address, true⟩, ⟨"data", .tuple components, false⟩]

def appType : AbiType := .tuple [("version", .bytes32)]

/-- The compact pair. -/
def signatureType : AbiType := .tuple [("r", .bytes32), ("vs", .bytes32)]

def depositComponents (signature : AbiType) : Components := [
  ("blockNumber", .uint256), ("blockHash", .bytes32), ("depositRoot", .bytes32),
  ("stakingModuleId", .uint256), ("nonce", .uint256), ("signature", signature), ("app", appType)]

def pauseComponents (signature : AbiType) : Components := [
  ("blockNumber", .uint256), ("blockHash", .bytes32), ("signature", signature), ("app", appType)]

def pingComponents : Components := [("blockNumber", .uint256), ("app", appType)]

def unvetComponents (signature : AbiType) : Components := [
  ("blockNumber", .uint256), ("blockHash", .bytes32), ("stakingModuleId", .uint256),
  ("nonce", .uint256), ("operatorIds", .bytes), ("vettedKeysByOperator", .bytes),
  ("signature", signature), ("app", appType)]

/-- `data-bus.abi.json`. -/
def eventsAbi : List EventFragment := [
  messageEvent "MessageDepositV1" (depositComponents signatureType),
  messageEvent "MessagePauseV3" (pauseComponents signatureType),
  messageEvent "MessagePingV1" pingComponents,
  messageEvent "MessageUnvetV1" (unvetComponents signatureType),
  messageEvent "MessageDepositV2" (depositComponents .bytes),
  messageEvent "MessagePauseV4" (pauseComponents .bytes),
  messageEvent "MessageUnvetV2" (unvetComponents .bytes)]

def MessagesNames.text : MessagesNames → String
  | messagePingV1 => "MessagePingV1"
  | messageDepositV1 => "MessageDepositV1"
  | messageUnvetV1 => "MessageUnvetV1"
  | messagePauseV3 => "MessagePauseV3"
  | messageDepositV2 => "MessageDepositV2"
  | messagePauseV4 => "MessagePauseV4"
  | messageUnvetV2 => "MessageUnvetV2"

/-- `utils.Interface` over the events, with the coder it uses. The topic of an event is the hash of
its signature; a log is decoded from its topics, where the indexed arguments are, and its data. -/
structure EventsInterface where
  coder : AbiCoder
  getEventTopic : EventFragment → String
  decodeEventLog : EventFragment → (topics : List String) → (data : String) → Except String Value
  getEventTopic_inj : ∀ event ∈ eventsAbi, ∀ event' ∈ eventsAbi,
    getEventTopic event = getEventTopic event' → event.name = event'.name
  decodeEventLog_ok : ∀ (event : EventFragment) (sender argument : String) (type : AbiType)
    (senderTopic data : String) (guardianAddress value : Value),
    event.inputs = [⟨sender, .address, true⟩, ⟨argument, type, false⟩] →
    coder.decode [(sender, .address)] senderTopic =
      .ok (.result (entries [sender] [guardianAddress])) →
    coder.decode [(argument, type)] data = .ok (.result (entries [argument] [value])) →
    decodeEventLog event [getEventTopic event, senderTopic] data =
      .ok (.result (entries [sender, argument] [guardianAddress, value]))

/-! ## The client -/

variable (events : EventsInterface)

/-- The arguments of `dataBus.sendMessage`. -/
structure DataBusCall where
  eventId : String
  dataBytes : String
  deriving DecidableEq

/-- `DataBusClient.sendMessage`, up to the transaction. -/
def encodeMessage (eventName : String) (data : Value) : Except String DataBusCall := do
  let some event := eventsAbi.find? fun event => event.name == eventName
    | throw s!"Event with name \"{eventName}\" not found"
  let eventId := events.getEventTopic event
  let some input := event.inputs[1]? | throw "Cannot read properties of undefined"
  let dataBytes ← events.coder.encode [(input.name, input.type)] [data]
  return { eventId, dataBytes }

structure Log where
  topics : List String
  data : String
  transactionHash : String
  deriving DecidableEq

/-- `eventsInterface.parseLog`: the event of the first topic, and the arguments. -/
def parseLog (topics : List String) (data : String) : Except String (EventFragment × Value) := do
  let some event := eventsAbi.find? fun event => topics.head? == some (events.getEventTopic event)
    | throw "no matching event"
  let args ← events.decodeEventLog event topics data
  return (event, args)

/-- The first entry of a result. -/
def firstEntry : Value → Option Value
  | .result entries => entries.lookup "0"
  | _ => none

/-- `txHash` and `name` are assigned to what the mapper returns. -/
def assignLog (log : Log) (name : String) : Value → Value
  | .object fields => .object
    (setProperty (setProperty fields "txHash" (.string log.transactionHash)) "name" (.string name))
  | mappedData => mappedData

/-- An event without a mapper is skipped. -/
def mapArgs (log : Log) (event : EventFragment) (args : Value) : Except String (List Value) := do
  let some mapper := eventMappers.lookup event.name | return []
  let mappedData ← mapper args
  return [assignLog log event.name mappedData]

/-- One turn of the loop of `getByTopics`, with what it pushes. -/
def mapLog (log : Log) : Except String (List Value) := do
  let decoded ← events.coder.decode [("", .bytes)] log.data
  let some (.string decodedData) := firstEntry decoded | throw "invalid data"
  let (event, args) ← parseLog events log.topics decodedData
  mapArgs log event args

/-- `getByTopics`, on the logs that the provider returns. -/
def getByTopics (logs : List Log) : Except String (List Value) := do
  let results ← logs.mapM (mapLog events)
  return results.flatten

/-! ## The sender -/

section Sender

variable (ethers : Ethers)

/-- The UTF-8 bytes of a text, filled up with zeros. -/
def formatBytes32String (text : String) : Except String String :=
  let bytes := text.toUTF8.data.toList
  if bytes.length > 31 then .error "bytes32 string must be less than 32 bytes"
  else .ok ("0x" ++ String.ofList ((bytes.map UInt8.toNat ++ List.replicate (32 - bytes.length) 0)
    |>.flatMap fun byte => (FixedWidth.digits 16 2 byte).map Nat.digitChar))

def WireSignature.toValue : WireSignature → Value
  | compact signature => .object [("r", .string signature.r), ("vs", .string signature.vs)]
  | blob signature => .string signature

def transformMessage (message : MessageWithMeta) : Except String Value := do
  let version ← formatBytes32String message.app.version
  let app := Value.object [("version", .string version)]
  let strategy := getDsmStrategy ethers message.message.dsmVersion
  match message.message with
  | .deposit message =>
    let signature ← strategy.wireSignature message.signature
    return .object [
      ("blockNumber", .number message.blockNumber),
      ("blockHash", .string message.blockHash),
      ("depositRoot", .string message.depositRoot),
      ("stakingModuleId", .number message.stakingModuleId),
      ("nonce", .number message.nonce),
      ("signature", signature.toValue),
      ("app", app)]
  | .pause message =>
    let signature ← strategy.wireSignature message.signature
    return .object [
      ("blockNumber", .number message.blockNumber),
      ("blockHash", .string message.blockHash),
      ("signature", signature.toValue),
      ("app", app)]
  | .unvet message =>
    let signature ← strategy.wireSignature message.signature
    return .object [
      ("blockNumber", .number message.blockNumber),
      ("blockHash", .string message.blockHash),
      ("stakingModuleId", .number message.stakingModuleId),
      ("nonce", .number message.nonce),
      ("operatorIds", .string message.operatorIds),
      ("vettedKeysByOperator", .string message.vettedKeysByOperator),
      ("signature", signature.toValue),
      ("app", app)]
  | .ping message =>
    return .object [("blockNumber", .number message.blockNumber), ("app", app)]

/-- Every type of message has its event. -/
def getEventName (message : Message) : MessagesNames :=
  let busEvents := (getDsmStrategy ethers message.dsmVersion).busEvents
  match message.type with
  | .ping => .messagePingV1
  | .deposit => busEvents.deposit
  | .pause => busEvents.pause
  | .unvet => busEvents.unvet

/-- What `DSMMessageSender.sendMessage` has the contract called with. -/
def messageCall (message : MessageWithMeta) : Except String DataBusCall := do
  let outputMessage ← transformMessage ethers message
  encodeMessage events (getEventName ethers message.message).text outputMessage

end Sender

end CouncilDaemon
