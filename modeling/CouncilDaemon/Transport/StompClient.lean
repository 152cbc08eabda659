import CouncilDaemon.Lib.Interleaving
import CouncilDaemon.Transport.StompFrame

/-!
# The STOMP client

`connect`, `send` and `subscribe` and the handlers of the socket events, between their awaits. The
client keeps one socket, two flags and the promise of the connection that is under way. Every socket
it made keeps calling the same handlers, also when another one has taken its place.

A socket goes through the states that `ws` documents for it: what is sent on a socket that is not open
is refused, and the peer is not told of it. The callbacks are the caller's, and taken to return.
-/

namespace CouncilDaemon

namespace StompClient

open StompFrame (Headers UnmarshallError unmarshallSingle)

/-! ## Sockets -/

inductive ReadyState where
  | connecting
  | opened
  | closing
  | closed
  deriving DecidableEq

/-- Who has the client connect or close: a call, or the handler of a socket event. -/
inductive Caller where
  | connect
  | send
  | subscribe
  | handler
  deriving DecidableEq

/-- What happens on the sockets. `transmitted` is a frame that the socket took, `failed` the failure of
the CONNECT it took, and `closed` a call of its `close`. -/
inductive SocketEvent where
  | transmitted (socket : ℕ) (frame : StompFrame)
  | failed (socket : ℕ)
  | received (socket : ℕ) (frame : StompFrame)
  | closed (socket : ℕ) (caller : Caller)
  | ended (socket : ℕ)

/-! ## The state -/

structure StompError where
  message : String
  reconnectAttempts : ℕ

structure StompOptions where
  reconnectAttempts : ℕ
  maxWaitSocketSession : ℕ
  webSocketConnectTimeout : ℕ := 10000

/-- `getWebSocket` makes the socket of a number, or throws. -/
structure StompDependencies where
  login : Option String
  passcode : Option String
  getWebSocket : ℕ → Except String Unit
  options : StompOptions

/-- Sockets and promises are known by their numbers, the callbacks of subscriptions too. `subscriptions`
has the callbacks that were put into the object of that name, under ids other than `__proto__`.
`sockets` and `settled` are what has become of sockets and promises, `delivered` what the callbacks were
called with, and `log` has the latest event first. -/
structure StompState where
  ws : Option ℕ := none
  opened : Bool := false
  connected : Bool := false
  connectionPromise : Option ℕ := none
  counter : ℕ := 0
  subscriptions : String → Option ℕ := fun _ => none
  created : ℕ := 0
  sockets : ℕ → ReadyState := fun _ => .closed
  promises : ℕ := 0
  settled : ℕ → Option (Except StompError Unit) := fun _ => none
  delivered : List (ℕ × StompFrame) := []
  log : List SocketEvent := []

/-- What a call does once the connection promise it awaits is fulfilled. -/
inductive Goal where
  | nothing
  | send (destination : String) (headers : Headers) (body : String)
  | subscribe (destination : String) (callback : ℕ) (headers : Headers)

/-- Where `connectWithRetry` waits. -/
inductive ConnectStage where
  /-- In `waitWsConnection`, for the end of a pause. -/
  | polling (totalPassed : ℕ)
  /-- `waitWsConnection` has returned. -/
  | opened
  /-- For the CONNECT frame, which the socket took if there is one. -/
  | transmitting (socket : Option ℕ)
  /-- For the pause before the next attempt. -/
  | sleeping

inductive StompThread where
  | connecting (promise : ℕ) (caller : Caller) (attempt : ℕ) (stage : ConnectStage)
  /-- A call that awaits the connection promise. -/
  | awaiting (promise : ℕ) (goal : Goal)
  /-- A call whose frame has gone to the socket, which may have refused it. -/
  | transmitting (accepted : Bool)

/-- `settled` is a promise of the program itself, `timer` the end of a pause and `sent` the callback of
the socket's `send`. -/
inductive StompAnswer where
  | settled
  | timer
  | sent (error : Option String)

inductive StompCall where
  | connect
  | send (destination : String) (headers : Headers) (body : String)
  | subscribe (destination : String) (callback : ℕ) (headers : Headers)
  | onOpen (socket : ℕ)
  | onMessage (socket : ℕ) (event : String)
  | onClose (socket code : ℕ)
  | onError (socket : ℕ)

namespace StompState

variable (s : StompState)

def record (event : SocketEvent) : StompState := { s with log := event :: s.log }

def setSocket (socket : ℕ) (readyState : ReadyState) : StompState :=
  { s with sockets := Function.update s.sockets socket readyState }

def settle (promise : ℕ) (result : Except StompError Unit) : StompState :=
  { s with settled := Function.update s.settled promise (some result) }

/-- `close` of a socket. One that is closing or closed stays as it is. -/
def closeSocket (socket : ℕ) (caller : Caller) : StompState :=
  if s.sockets socket = .closing ∨ s.sockets socket = .closed then s
  else (s.setSocket socket .closing).record (.closed socket caller)

/-- The end of a socket, by whatever side. -/
def endSocket (socket : ℕ) : StompState := (s.setSocket socket .closed).record (.ended socket)

/-- The flags go down and the socket is closed. Without one there is nothing to close, and the error
is only logged. -/
def cleanUp (caller : Caller) : StompState :=
  match s.ws with
  | none => { s with connected := false, opened := false }
  | some socket => ({ s with connected := false, opened := false }).closeSocket socket caller

/-- The socket takes the frame, or there is none that could. -/
def transmit (command : String) (headers : Headers) (body : String) : StompState × Option ℕ :=
  match s.ws with
  | none => (s, none)
  | some socket =>
    if s.sockets socket = .opened then
      (s.record (.transmitted socket ⟨command, headers, body⟩), some socket)
    else (s, none)

/-- A new socket, which is about to connect, takes the place of the old one. -/
def createWebSocket : StompState :=
  { s.setSocket s.created .connecting with ws := some s.created, created := s.created + 1 }

end StompState

/-! ## Connecting -/

section Client

variable (deps : StompDependencies)

def VERSIONS : String := "1.0,1.1"

def connectHeaders : Headers :=
  let maxWaitSocketSession := toString deps.options.maxWaitSocketSession
  let headers := ((InsertionMap.empty.set "host" "/").set "accept-version" VERSIONS).set "heart-beat"
    (maxWaitSocketSession ++ "," ++ maxWaitSocketSession)
  let headers := match deps.login with
    | none => headers
    | some login => headers.set "login" login
  match deps.passcode with
  | none => headers
  | some passcode => headers.set "passcode" passcode

/-- The `catch` of `connectWithRetry`. The last attempt settles the promise. -/
def retry (promise : ℕ) (caller : Caller) (attempt : ℕ) (error : String) (s : StompState) :
    StompState × List StompThread :=
  if deps.options.reconnectAttempts ≤ attempt then
    (({ s with connectionPromise := none }).settle promise (.error ⟨error, attempt⟩), [])
  else (s.cleanUp caller, [.connecting promise caller (attempt + 1) .sleeping])

/-- An attempt up to its first await. -/
def connectWithRetry (promise : ℕ) (caller : Caller) (attempt : ℕ) (s : StompState) :
    StompState × List StompThread :=
  match deps.getWebSocket s.created with
  | .error error => retry deps promise caller attempt error { s with created := s.created + 1 }
  | .ok _ =>
    let s := s.createWebSocket
    if s.opened then (s, [.connecting promise caller attempt .opened])
    else (s, [.connecting promise caller attempt (.polling 0)])

/-- The assignment of `connectionPromise` follows the part of `connectWithRetry` before its first
await. -/
def startConnection (caller : Caller) (s : StompState) : StompState × List StompThread × ℕ :=
  let promise := s.promises
  let (s, threads) := connectWithRetry deps promise caller 1 { s with promises := promise + 1 }
  ({ s with connectionPromise := some promise }, threads, promise)

/-- With the promise to await. -/
def reconnect (caller : Caller) (s : StompState) : StompState × List StompThread × ℕ :=
  match s.connectionPromise with
  | some promise => (s, [], promise)
  | none => startConnection deps caller (s.cleanUp caller)

def connect (s : StompState) : StompState × List StompThread × ℕ :=
  match s.connectionPromise with
  | some promise => (s, [], promise)
  | none => startConnection deps .connect s

/-! ## The calls -/

/-- The call goes on when `reconnect` or `connect` returns. -/
def andThen (goal : Goal) (started : StompState × List StompThread × ℕ) :
    StompState × List StompThread :=
  (started.1, started.2.1 ++ [.awaiting started.2.2 goal])

/-- `send` and `subscribe` behind the connection. -/
def Goal.perform (s : StompState) : Goal → StompState × List StompThread
  | nothing => (s, [])
  | send destination headers body =>
    let (s, socket) := s.transmit "SEND" (headers.set "destination" destination) body
    (s, [.transmitting socket.isSome])
  | subscribe destination callback headers =>
    let (s, id, headers) := match headers.get? "id" with
      | some id => (s, id, headers)
      | none =>
        let id := "sub-" ++ toString s.counter
        ({ s with counter := s.counter + 1 }, id, headers.set "id" id)
    let headers := headers.set "destination" destination
    let s := { s with subscriptions := Function.update s.subscriptions id (some callback) }
    let (s, socket) := s.transmit "SUBSCRIBE" headers ""
    (s, [.transmitting socket.isSome])

def send (destination : String) (headers : Headers) (body : String) (s : StompState) :
    StompState × List StompThread :=
  if !s.opened || !s.connected then
    andThen (.send destination headers body) (reconnect deps .send s)
  else (Goal.send destination headers body).perform s

def subscribe (destination : String) (callback : ℕ) (headers : Headers) (s : StompState) :
    StompState × List StompThread :=
  if !s.opened || !s.connected then
    andThen (.subscribe destination callback headers) (reconnect deps .subscribe s)
  else (Goal.subscribe destination callback headers).perform s

/-! ## The table of the callbacks -/

/-- A property of the object `subscriptions`: a callback that was put there, or what every object
inherits, which returns or throws when it is called without a receiver. -/
inductive Property where
  | callback (onReceive : ℕ)
  | returning
  | throwing
  deriving DecidableEq

/-- The names in `Object.prototype` that throw. The first one is no function. -/
def throwingNames : List String :=
  ["__proto__", "hasOwnProperty", "isPrototypeOf", "propertyIsEnumerable", "toLocaleString", "valueOf",
    "__defineGetter__", "__defineSetter__", "__lookupGetter__", "__lookupSetter__"]

/-- Of the other two, `Object` gives its argument back and `toString` describes the receiver. -/
def inheritedProperty (name : String) : Option Property :=
  if name ∈ throwingNames then some .throwing
  else if name = "constructor" ∨ name = "toString" then some .returning
  else none

/-- `name in this.subscriptions`, and what is found there. -/
def StompState.property (s : StompState) (name : String) : Option Property :=
  match s.subscriptions name with
  | some onReceive => some (.callback onReceive)
  | none => inheritedProperty name

/-! ## The socket events -/

def onOpen (socket : ℕ) (s : StompState) : StompState :=
  { s.setSocket socket .opened with opened := true }

/-- The part of `onMessage` behind the parser. The socket is not asked for, and the frames RECEIPT and
ERROR change nothing here. A header that is not there is looked up as `undefined`. -/
def onFrame (socket : ℕ) (frame : StompFrame) (s : StompState) :
    StompState × Except UnmarshallError Unit :=
  let s := s.record (.received socket frame)
  if frame.command = "CONNECTED" then ({ s with connected := true }, .ok ())
  else if frame.command = "MESSAGE" then
    match s.property ((frame.headers.get? "subscription").getD "undefined") with
    | none => (s, .ok ())
    | some (.callback onReceive) => ({ s with delivered := (onReceive, frame) :: s.delivered }, .ok ())
    | some .returning => (s, .ok ())
    | some .throwing => (s, .error .typeError)
  else (s, .ok ())

/-- Only a `StompFrameException` is caught. -/
def onMessage (socket : ℕ) (event : String) (s : StompState) :
    StompState × Except UnmarshallError Unit :=
  match unmarshallSingle event with
  | .ok frame => onFrame socket frame s
  | .error (.stompFrameException _) => (s, .ok ())
  | .error .typeError => (s, .error .typeError)

def onClose (socket code : ℕ) (s : StompState) : StompState × List StompThread :=
  let s := s.endSocket socket
  if s.connectionPromise.isSome then (s, [])
  else
    let s := s.cleanUp .handler
    if code = 1000 then (s, []) else andThen .nothing (reconnect deps .handler s)

def onError (s : StompState) : StompState × List StompThread :=
  if s.connectionPromise.isSome then (s, []) else andThen .nothing (reconnect deps .handler s)

/-! ## Steps -/

/-- What a handler throws is lost to the client. -/
def StompCall.start (s : StompState) : StompCall → StompState × List StompThread
  | connect => andThen .nothing (StompClient.connect deps s)
  | send destination headers body => StompClient.send deps destination headers body s
  | subscribe destination callback headers =>
    StompClient.subscribe deps destination callback headers s
  | onOpen socket => (StompClient.onOpen socket s, [])
  | onMessage socket event => ((StompClient.onMessage socket event s).1, [])
  | onClose socket code => StompClient.onClose deps socket code s
  | onError _ => StompClient.onError deps s

/-- `connectWithRetry` goes on. -/
def ConnectStage.resume (promise : ℕ) (caller : Caller) (attempt : ℕ) (s : StompState) :
    ConnectStage → StompAnswer → Option (StompState × List StompThread)
  | polling totalPassed, .timer =>
    let totalPassed := totalPassed + 250
    some (
      if deps.options.webSocketConnectTimeout < totalPassed then
        retry deps promise caller attempt "Websocket connection timeout." s
      else if s.opened then (s, [.connecting promise caller attempt .opened])
      else (s, [.connecting promise caller attempt (.polling totalPassed)]))
  | opened, .settled =>
    let (s, socket) := s.transmit "CONNECT" (connectHeaders deps) ""
    some (s, [.connecting promise caller attempt (.transmitting socket)])
  | transmitting (some _), .sent none =>
    some (({ s with connectionPromise := none }).settle promise (.ok ()), [])
  | transmitting (some socket), .sent (some error) =>
    some (retry deps promise caller attempt error (s.record (.failed socket)))
  | transmitting none, .sent (some error) => some (retry deps promise caller attempt error s)
  | sleeping, .timer => some (connectWithRetry deps promise caller attempt s)
  | _, _ => none

def StompThread.resume (s : StompState) : StompThread → StompAnswer →
    Option (StompState × List StompThread)
  | connecting promise caller attempt stage, answer =>
    stage.resume deps promise caller attempt s answer
  | awaiting promise goal, .settled =>
    match s.settled promise with
    | none => none
    | some (.error _) => some (s, [])
    | some (.ok _) => some (goal.perform s)
  | transmitting _, .sent (some _) => some (s, [])
  | transmitting true, .sent none => some (s, [])
  | _, _ => none

/-- The client in any interleaving. -/
def stompProgram : Program StompState StompCall StompThread StompAnswer where
  start call s := call.start deps s
  resume thread answer s := thread.resume deps s answer

end Client

end StompClient

end CouncilDaemon
