import CouncilDaemon.Transport.StompClient

/-!
# Frames of a connected client

A socket is answered when a CONNECTED frame has been received on it after its own CONNECT. The client
sends frames on an answered socket as long as the broker answers before a call runs on: the connection
promise is fulfilled when CONNECT has been sent, so a call that waited for it may overtake the answer.
-/

namespace CouncilDaemon

namespace StompClient

open StompFrame (Headers unmarshallSingle)

/-! ## The law -/

def SocketEvent.isConnect (socket : ℕ) : SocketEvent → Bool
  | transmitted s frame => s = socket ∧ frame.command = "CONNECT"
  | _ => false

/-- CONNECT was sent on the socket. -/
def connectSent (socket : ℕ) (log : List SocketEvent) : Bool := log.any (·.isConnect socket)

/-- CONNECTED was received on the socket after its CONNECT. -/
def answered (socket : ℕ) : List SocketEvent → Bool
  | [] => false
  | .received s frame :: earlier =>
    decide (s = socket ∧ frame.command = "CONNECTED") && connectSent socket earlier ||
      answered socket earlier
  | _ :: earlier => answered socket earlier

/-- CONNECT was sent on the socket, which is not closed, and CONNECTED has not come since. -/
def awaits (socket : ℕ) : List SocketEvent → Bool
  | [] => false
  | .transmitted s frame :: earlier =>
    decide (s = socket ∧ frame.command = "CONNECT") || awaits socket earlier
  | .received s frame :: earlier =>
    !decide (s = socket ∧ frame.command = "CONNECTED") && awaits socket earlier
  | .failed s :: earlier => !decide (s = socket) && awaits socket earlier
  | .closed s _ :: earlier => !decide (s = socket) && awaits socket earlier
  | .ended s :: earlier => !decide (s = socket) && awaits socket earlier

/-- What the law asks of an event, given the earlier ones: SEND and SUBSCRIBE go to an answered socket,
and no send closes a socket that awaits its answer. -/
def SocketEvent.Lawful (earlier : List SocketEvent) : SocketEvent → Prop
  | transmitted socket frame =>
    frame.command = "SEND" ∨ frame.command = "SUBSCRIBE" → answered socket earlier = true
  | closed socket caller => caller = .send → awaits socket earlier = false
  | _ => True

def LawfulFrames (log : List SocketEvent) : Prop :=
  ∀ later event earlier, log = later ++ event :: earlier → event.Lawful earlier

theorem lawfulFrames_nil : LawfulFrames [] := by
  intro later event earlier h
  simp at h

theorem lawfulFrames_cons {event : SocketEvent} {log : List SocketEvent} :
    LawfulFrames (event :: log) ↔ event.Lawful log ∧ LawfulFrames log := by
  constructor
  · intro h
    refine ⟨h [] event log rfl, ?_⟩
    intro later e earlier hlog
    exact h (event :: later) e earlier (by rw [hlog, List.cons_append])
  · rintro ⟨hevent, hlog⟩ later e earlier h
    cases later with
    | nil =>
      cases h
      exact hevent
    | cons l later =>
      rw [List.cons_append, List.cons.injEq] at h
      exact hlog later e earlier h.2

instance (earlier : List SocketEvent) : ∀ event : SocketEvent, Decidable (event.Lawful earlier)
  | .transmitted _ _ => inferInstanceAs (Decidable (_ ∨ _ → _))
  | .closed _ _ => inferInstanceAs (Decidable (_ → _))
  | .failed _ => .isTrue trivial
  | .received _ _ => .isTrue trivial
  | .ended _ => .isTrue trivial

instance decidableLawfulFrames : ∀ log : List SocketEvent, Decidable (LawfulFrames log)
  | [] => .isTrue lawfulFrames_nil
  | event :: log =>
    have := decidableLawfulFrames log
    decidable_of_iff' (event.Lawful log ∧ LawfulFrames log) lawfulFrames_cons

/-! ## Runs -/

/-- The text is that of a CONNECTED frame. -/
def connects (event : String) : Bool :=
  match unmarshallSingle event with
  | .ok frame => frame.command = "CONNECTED"
  | .error _ => false

/-- What the sockets and the broker can do: an event comes from a socket that is still in the state for
it, and CONNECTED answers a CONNECT. -/
def Possible (c : Configuration StompState StompThread) : Move StompCall StompAnswer → Prop
  | .start (.onOpen socket) => c.shared.sockets socket = .connecting
  | .start (.onMessage socket event) =>
    (c.shared.sockets socket = .opened ∨ c.shared.sockets socket = .closing) ∧
      (connects event = true → connectSent socket c.shared.log = true)
  | .start (.onClose socket _) => c.shared.sockets socket ≠ .closed
  | .start (.onError socket) => c.shared.sockets socket ≠ .closed
  | _ => True

/-- The current socket is open. -/
def StompState.wsOpen (s : StompState) : Prop := ∃ socket ∈ s.ws, s.sockets socket = .opened

/-- The current socket does not await an answer. -/
def StompState.Idle (s : StompState) : Prop := ∀ socket ∈ s.ws, awaits socket s.log = false

/-- A thread that transmits a frame when it goes on: the connection it waits for is there. -/
def StompThread.transmits (s : StompState) : StompThread → Bool
  | awaiting _ .nothing => false
  | awaiting promise _ =>
    match s.settled promise with
    | some (.ok _) => true
    | _ => false
  | _ => false

/-- The broker's answer comes first. A call that waited for a connection goes on when the client is
connected, unless there is no open socket; a send that would connect finds no socket that awaits its
answer; the frame that connects the client comes in on its current socket, while that is open; and a
connected client is not told to connect. -/
def AnsweredFirst (c : Configuration StompState StompThread) : Move StompCall StompAnswer → Prop
  | .resume index .settled => ∀ thread ∈ c.threads[index]?, thread.transmits c.shared = true →
    c.shared.connected = true ∨ ¬ c.shared.wsOpen
  | .start (.send _ _ _) => c.shared.connectionPromise = none →
    ¬ (c.shared.opened = true ∧ c.shared.connected = true) → c.shared.Idle
  | .start (.onMessage socket event) => connects event = true → c.shared.connected = false →
    c.shared.ws = some socket ∧ c.shared.sockets socket = .opened
  | .start .connect => c.shared.connectionPromise = none → c.shared.connected = false
  | _ => True

section Decidable

variable (s : StompState) (c : Configuration StompState StompThread)

instance : Decidable s.wsOpen := inferInstanceAs (Decidable (∃ socket ∈ s.ws, _))

instance : Decidable s.Idle := inferInstanceAs (Decidable (∀ socket ∈ s.ws, _))

instance : ∀ move : Move StompCall StompAnswer, Decidable (Possible c move)
  | .start (.onOpen socket) => inferInstanceAs (Decidable (c.shared.sockets socket = .connecting))
  | .start (.onMessage _ _) => inferInstanceAs (Decidable ((_ ∨ _) ∧ (_ → _)))
  | .start (.onClose socket _) => inferInstanceAs (Decidable (c.shared.sockets socket ≠ .closed))
  | .start (.onError socket) => inferInstanceAs (Decidable (c.shared.sockets socket ≠ .closed))
  | .start .connect => .isTrue trivial
  | .start (.send _ _ _) => .isTrue trivial
  | .start (.subscribe _ _ _) => .isTrue trivial
  | .resume _ _ => .isTrue trivial

instance : ∀ move : Move StompCall StompAnswer, Decidable (AnsweredFirst c move)
  | .resume index .settled =>
    inferInstanceAs (Decidable (∀ thread ∈ c.threads[index]?, thread.transmits c.shared = true →
      c.shared.connected = true ∨ ¬ c.shared.wsOpen))
  | .start (.send _ _ _) => inferInstanceAs (Decidable (_ → ¬ (_ ∧ _) → c.shared.Idle))
  | .start (.onMessage _ _) => inferInstanceAs (Decidable (_ → _ → _ ∧ _))
  | .start .connect => inferInstanceAs (Decidable (_ → _))
  | .start (.subscribe _ _ _) => .isTrue trivial
  | .start (.onOpen _) => .isTrue trivial
  | .start (.onClose _ _) => .isTrue trivial
  | .start (.onError _) => .isTrue trivial
  | .resume _ .timer => .isTrue trivial
  | .resume _ (.sent _) => .isTrue trivial

end Decidable

/-! ## Invariants -/

section Invariants

variable {s t : StompState}

def StompState.Down (s : StompState) (socket : ℕ) : Prop :=
  s.sockets socket = .closing ∨ s.sockets socket = .closed

/-- The flag is down, and so is the current socket. -/
def StompState.Disconnected (s : StompState) : Prop :=
  s.connected = false ∧ ∀ socket, s.ws = some socket → s.Down socket

structure Connection (s : StompState) : Prop where
  lawful : LawfulFrames s.log
  /-- The flag stands for the current socket. -/
  flag : s.connected = true → ∀ socket, s.ws = some socket → answered socket s.log = true
  down : ∀ socket, s.Down socket → awaits socket s.log = false
  unborn : ∀ socket, s.created ≤ socket → s.sockets socket = .closed

def ConnectStage.Relies (s : StompState) : ConnectStage → Prop
  | polling _ => s.Idle
  | opened => s.Idle
  | transmitting none => s.Idle
  | transmitting (some socket) => s.ws = some socket
  | sleeping => s.Disconnected

def StompThread.Relies (s : StompState) : StompThread → Prop
  | connecting promise _ _ stage => s.connectionPromise = some promise ∧ stage.Relies s
  | _ => True

theorem Connection.idle (h : Connection s) (hdown : s.Disconnected) : s.Idle :=
  fun socket hws => h.down socket (hdown.2 socket hws)

/-! ### What others leave alone -/

/-- `t` is what `s` has become while a connection was under way, by steps of others. -/
structure Undisturbed (s t : StompState) : Prop where
  connectionPromise : t.connectionPromise = s.connectionPromise
  ws : t.ws = s.ws
  idle : s.Idle → t.Idle
  disconnected : s.Disconnected → t.Disconnected

theorem Undisturbed.refl (s : StompState) : Undisturbed s s := ⟨rfl, rfl, id, id⟩

theorem Undisturbed.relies (h : Undisturbed s t) {thread : StompThread} (hs : thread.Relies s) :
    thread.Relies t := by
  cases thread with
  | connecting promise caller attempt stage =>
    refine ⟨h.connectionPromise.trans hs.1, ?_⟩
    cases stage with
    | polling totalPassed => exact h.idle hs.2
    | opened => exact h.idle hs.2
    | transmitting socket =>
      cases socket with
      | none => exact h.idle hs.2
      | some socket => exact h.ws.trans hs.2
    | sleeping => exact h.disconnected hs.2
  | awaiting promise goal => trivial
  | transmitting accepted => trivial

/-! ### Frames -/

theorem transmit_cases (s : StompState) (command : String) (headers : Headers) (body : String) :
    (s.transmit command headers body = (s, none) ∧ ¬ s.wsOpen) ∨
    ∃ socket, s.ws = some socket ∧ s.sockets socket = .opened ∧
      s.transmit command headers body =
        (s.record (.transmitted socket ⟨command, headers, body⟩), some socket) := by
  unfold StompState.transmit
  cases hws : s.ws with
  | none =>
    left
    refine ⟨rfl, ?_⟩
    rintro ⟨socket, hsome, _⟩
    rw [hws] at hsome
    cases hsome
  | some socket =>
    by_cases hopened : s.sockets socket = .opened
    · right
      exact ⟨socket, rfl, hopened, if_pos hopened⟩
    · left
      refine ⟨if_neg hopened, ?_⟩
      rintro ⟨other, hother, hopen⟩
      rw [hws] at hother
      cases hother
      exact hopened hopen

theorem not_down {socket : ℕ} (h : s.sockets socket = .opened) : ¬ s.Down socket := by
  rintro (hdown | hdown)
  · rw [h] at hdown
    cases hdown
  · rw [h] at hdown
    cases hdown

theorem Connection.transmitted (h : Connection s) {socket : ℕ} {frame : StompFrame}
    (hopened : s.sockets socket = .opened) (hlaw : (SocketEvent.transmitted socket frame).Lawful s.log) :
    Connection (s.record (.transmitted socket frame)) where
  lawful := lawfulFrames_cons.2 ⟨hlaw, h.lawful⟩
  flag := h.flag
  down := by
    intro other hdown
    have hne : socket ≠ other := by
      rintro rfl
      exact not_down hopened hdown
    show (decide (socket = other ∧ frame.command = "CONNECT") || awaits other s.log) = false
    rw [decide_eq_false (fun hsame => hne hsame.1), h.down other hdown]
    rfl
  unborn := h.unborn

/-- A frame of a call leaves the connection that is under way alone. -/
theorem undisturbed_transmitted {socket : ℕ} {frame : StompFrame} (h : frame.command ≠ "CONNECT") :
    Undisturbed s (s.record (.transmitted socket frame)) where
  connectionPromise := rfl
  ws := rfl
  idle := by
    intro hidle current hws
    show (decide (socket = current ∧ frame.command = "CONNECT") || awaits current s.log) = false
    rw [decide_eq_false (fun hsame => h hsame.2), hidle current hws]
    rfl
  disconnected := id

theorem Connection.transmit (h : Connection s) (hflag : s.connected = true ∨ ¬ s.wsOpen)
    {command : String} (hcommand : command ≠ "CONNECT") (headers : Headers) (body : String) :
    Connection (s.transmit command headers body).1 ∧
      Undisturbed s (s.transmit command headers body).1 := by
  rcases transmit_cases s command headers body with ⟨htransmit, _⟩ | ⟨socket, hws, hopened, htransmit⟩
  · rw [htransmit]
    exact ⟨h, .refl s⟩
  · rw [htransmit]
    have hconnected : s.connected = true := by
      rcases hflag with hconnected | hclosed
      · exact hconnected
      · exact absurd ⟨socket, hws, hopened⟩ hclosed
    exact ⟨h.transmitted hopened fun _ => h.flag hconnected socket hws, undisturbed_transmitted hcommand⟩

theorem Connection.perform (h : Connection s) {goal : Goal}
    (hflag : goal ≠ .nothing → s.connected = true ∨ ¬ s.wsOpen) :
    Connection (goal.perform s).1 ∧ Undisturbed s (goal.perform s).1 := by
  cases goal with
  | nothing => exact ⟨h, .refl s⟩
  | send destination headers body => exact h.transmit (hflag (by simp)) (by decide) _ _
  | subscribe destination callback headers =>
    -- the counter and the subscriptions play no part in what is kept
    have hcounted : ∀ counter subscriptions,
        Connection { s with counter := counter, subscriptions := subscriptions } :=
      fun _ _ => ⟨h.lawful, h.flag, h.down, h.unborn⟩
    unfold Goal.perform
    dsimp only
    cases hid : headers.get? "id" with
    | some id =>
      obtain ⟨hconnection, hothers⟩ := (hcounted s.counter
        (Function.update s.subscriptions id (some callback))).transmit (hflag (by simp))
        (by decide : "SUBSCRIBE" ≠ "CONNECT") (headers.set "destination" destination) ""
      exact ⟨hconnection, hothers.connectionPromise, hothers.ws, hothers.idle, hothers.disconnected⟩
    | none =>
      obtain ⟨hconnection, hothers⟩ := (hcounted (s.counter + 1)
        (Function.update s.subscriptions ("sub-" ++ toString s.counter) (some callback))).transmit
        (hflag (by simp)) (by decide : "SUBSCRIBE" ≠ "CONNECT")
        ((headers.set "id" ("sub-" ++ toString s.counter)).set "destination" destination) ""
      exact ⟨hconnection, hothers.connectionPromise, hothers.ws, hothers.idle, hothers.disconnected⟩

theorem mem_perform {goal : Goal} {thread : StompThread} (h : thread ∈ (goal.perform s).2) :
    ∃ accepted, thread = .transmitting accepted := by
  cases goal with
  | nothing => cases h
  | send destination headers body => exact ⟨_, List.mem_singleton.1 h⟩
  | subscribe destination callback headers => exact ⟨_, List.mem_singleton.1 h⟩

/-! ### Closing -/

theorem down_of_setSocket {socket other : ℕ} {readyState : ReadyState} (hne : other ≠ socket) :
    (s.setSocket socket readyState).Down other ↔ s.Down other := by
  unfold StompState.Down
  rw [show (s.setSocket socket readyState).sockets other = s.sockets other from
    Function.update_of_ne hne _ _]

theorem down_closeSocket (s : StompState) (socket : ℕ) (caller : Caller) :
    (s.closeSocket socket caller).Down socket := by
  unfold StompState.closeSocket
  by_cases hdown : s.sockets socket = .closing ∨ s.sockets socket = .closed
  · rw [if_pos hdown]
    exact hdown
  · rw [if_neg hdown]
    exact Or.inl (show Function.update s.sockets socket ReadyState.closing socket = .closing from
      Function.update_self _ _ _)

theorem Connection.closeSocket (h : Connection s) {socket : ℕ} {caller : Caller}
    (hsend : caller = .send → awaits socket s.log = false) :
    Connection (s.closeSocket socket caller) := by
  unfold StompState.closeSocket
  by_cases hdown : s.sockets socket = .closing ∨ s.sockets socket = .closed
  · rw [if_pos hdown]
    exact h
  · rw [if_neg hdown]
    refine ⟨lawfulFrames_cons.2 ⟨hsend, h.lawful⟩, h.flag, ?_, ?_⟩
    · intro other hother
      show (!decide (socket = other) && awaits other s.log) = false
      by_cases hsame : socket = other
      · rw [decide_eq_true hsame]
        rfl
      · rw [h.down other ((down_of_setSocket (Ne.symm hsame)).1 hother), Bool.and_false]
    · intro other hother
      have hne : other ≠ socket := by
        rintro rfl
        exact hdown (Or.inr (h.unborn other hother))
      exact (Function.update_of_ne hne _ _).trans (h.unborn other hother)

theorem Connection.lowered (h : Connection s) (opened : Bool) :
    Connection { s with connected := false, opened := opened } :=
  ⟨h.lawful, fun hflag => (Bool.false_ne_true hflag).elim, h.down, h.unborn⟩

theorem closeSocket_frame (s : StompState) (socket : ℕ) (caller : Caller) :
    (s.closeSocket socket caller).ws = s.ws ∧
    (s.closeSocket socket caller).connected = s.connected ∧
    (s.closeSocket socket caller).created = s.created ∧
    (s.closeSocket socket caller).connectionPromise = s.connectionPromise := by
  unfold StompState.closeSocket
  split_ifs
  · exact ⟨rfl, rfl, rfl, rfl⟩
  · exact ⟨rfl, rfl, rfl, rfl⟩

theorem cleanUp_cases (s : StompState) (caller : Caller) :
    (s.ws = none ∧ s.cleanUp caller = { s with connected := false, opened := false }) ∨
    ∃ socket, s.ws = some socket ∧ s.cleanUp caller =
      ({ s with connected := false, opened := false } : StompState).closeSocket socket caller := by
  unfold StompState.cleanUp
  split
  · exact Or.inl ⟨by assumption, rfl⟩
  · exact Or.inr ⟨_, by assumption, rfl⟩

theorem disconnected_cleanUp (s : StompState) (caller : Caller) :
    (s.cleanUp caller).Disconnected := by
  rcases cleanUp_cases s caller with ⟨hws, hclean⟩ | ⟨socket, hws, hclean⟩
  · rw [hclean]
    refine ⟨rfl, ?_⟩
    intro socket hsome
    have hnone : some socket = none := hsome.symm.trans hws
    cases hnone
  · rw [hclean]
    obtain ⟨hkept, hconnected, _⟩ :=
      closeSocket_frame { s with connected := false, opened := false } socket caller
    refine ⟨hconnected, ?_⟩
    intro other hother
    have hsame : some other = some socket := (hother.symm.trans hkept).trans hws
    cases hsame
    exact down_closeSocket _ socket caller

theorem Connection.cleanUp (h : Connection s) {caller : Caller} (hsend : caller = .send → s.Idle) :
    Connection (s.cleanUp caller) := by
  rcases cleanUp_cases s caller with ⟨_, hclean⟩ | ⟨socket, hws, hclean⟩
  · rw [hclean]
    exact h.lowered false
  · rw [hclean]
    exact (h.lowered false).closeSocket fun hcaller => hsend hcaller socket hws

theorem cleanUp_frame (s : StompState) (caller : Caller) :
    (s.cleanUp caller).ws = s.ws ∧ (s.cleanUp caller).created = s.created ∧
      (s.cleanUp caller).connectionPromise = s.connectionPromise := by
  rcases cleanUp_cases s caller with ⟨_, hclean⟩ | ⟨socket, _, hclean⟩
  · rw [hclean]
    exact ⟨rfl, rfl, rfl⟩
  · rw [hclean]
    obtain ⟨hws, _, hcreated, hpromise⟩ :=
      closeSocket_frame { s with connected := false, opened := false } socket caller
    exact ⟨hws, hcreated, hpromise⟩

/-! ### Connecting -/

/-- A new socket does not await an answer. -/
theorem Connection.createWebSocket (h : Connection s) (hdown : s.connected = false) :
    Connection s.createWebSocket ∧ s.createWebSocket.Idle := by
  have hunborn := h.unborn s.created le_rfl
  refine ⟨⟨h.lawful, ?_, ?_, ?_⟩, ?_⟩
  · intro hflag
    rw [show s.createWebSocket.connected = false from hdown] at hflag
    cases hflag
  · intro socket hsocket
    have hne : socket ≠ s.created := by
      rintro rfl
      unfold StompState.Down at hsocket
      rw [show s.createWebSocket.sockets s.created = .connecting from
        Function.update_self _ _ _] at hsocket
      simp at hsocket
    unfold StompState.Down at hsocket
    rw [show s.createWebSocket.sockets socket = s.sockets socket from
      Function.update_of_ne hne _ _] at hsocket
    exact h.down socket hsocket
  · intro socket hsocket
    have hcreated : s.created + 1 ≤ socket := hsocket
    exact (Function.update_of_ne (by omega) _ _).trans (h.unborn socket (by omega))
  · intro socket hws
    cases hws
    exact h.down s.created (Or.inr hunborn)

/-- What a part of `connectWithRetry` leaves: the promise settled, or the attempt waiting again. -/
def Attempted (promise : ℕ) (s : StompState) (result : StompState × List StompThread) : Prop :=
  Connection result.1 ∧ (result.2 = [] ∨
    result.1.connectionPromise = s.connectionPromise ∧ ∃ caller attempt stage,
      result.2 = [.connecting promise caller attempt stage] ∧ stage.Relies result.1)

variable (deps : StompDependencies)

theorem Connection.retry (h : Connection s) {caller : Caller} (hsend : caller = .send → s.Idle)
    (promise attempt : ℕ) (error : String) :
    Attempted promise s (retry deps promise caller attempt error s) := by
  unfold StompClient.retry
  by_cases hlast : deps.options.reconnectAttempts ≤ attempt
  · rw [if_pos hlast]
    exact ⟨⟨h.lawful, h.flag, h.down, h.unborn⟩, Or.inl rfl⟩
  · rw [if_neg hlast]
    exact ⟨h.cleanUp hsend,
      Or.inr ⟨(cleanUp_frame s caller).2.2, caller, _, _, rfl, disconnected_cleanUp s caller⟩⟩

theorem Connection.connectWithRetry (h : Connection s) (hdown : s.connected = false) {caller : Caller}
    (hsend : caller = .send → s.Idle) (promise attempt : ℕ) :
    Attempted promise s (connectWithRetry deps promise caller attempt s) := by
  unfold StompClient.connectWithRetry
  cases hsocket : deps.getWebSocket s.created with
  | error error =>
    have hcounted : Connection { s with created := s.created + 1 } :=
      ⟨h.lawful, h.flag, h.down, fun socket hle => h.unborn socket (Nat.le_of_succ_le hle)⟩
    exact hcounted.retry deps hsend promise attempt error
  | ok u =>
    obtain ⟨hconnection, hidle⟩ := h.createWebSocket hdown
    dsimp only
    split_ifs
    · exact ⟨hconnection, Or.inr ⟨rfl, caller, attempt, _, rfl, hidle⟩⟩
    · exact ⟨hconnection, Or.inr ⟨rfl, caller, attempt, _, rfl, hidle⟩⟩

/-- What `connect` and `reconnect` leave when they start a connection. -/
structure Started (result : StompState × List StompThread × ℕ) : Prop where
  connection : Connection result.1
  promise : result.1.connectionPromise = some result.2.2
  relies : ∀ thread ∈ result.2.1, thread.Relies result.1

theorem Connection.startConnection (h : Connection s) (hdown : s.connected = false) {caller : Caller}
    (hsend : caller = .send → s.Idle) : Started (startConnection deps caller s) := by
  have hcounted : Connection { s with promises := s.promises + 1 } :=
    ⟨h.lawful, h.flag, h.down, h.unborn⟩
  obtain ⟨hconnection, hthreads⟩ := hcounted.connectWithRetry deps hdown hsend s.promises 1
  refine ⟨⟨hconnection.lawful, hconnection.flag, hconnection.down, hconnection.unborn⟩, rfl, ?_⟩
  intro thread hthread
  rcases hthreads with hnil | ⟨_, caller', attempt, stage, hone, hrelies⟩
  · rw [show (StompClient.startConnection deps caller s).2.1 = [] from hnil] at hthread
    cases hthread
  · rw [show (StompClient.startConnection deps caller s).2.1 =
      [.connecting s.promises caller' attempt stage] from hone, List.mem_singleton] at hthread
    rw [hthread]
    refine ⟨rfl, ?_⟩
    -- the assertion of the stage does not speak of the promise
    cases stage with
    | transmitting socket =>
      cases socket with
      | none => exact hrelies
      | some socket => exact hrelies
    | polling totalPassed => exact hrelies
    | opened => exact hrelies
    | sleeping => exact hrelies

theorem Connection.reconnect (h : Connection s) (hnone : s.connectionPromise = none) {caller : Caller}
    (hsend : caller = .send → s.Idle) : Started (reconnect deps caller s) := by
  have hconnection := h.cleanUp hsend
  have hdisconnected := disconnected_cleanUp s caller
  unfold StompClient.reconnect
  rw [hnone]
  exact hconnection.startConnection deps hdisconnected.1 fun _ => hconnection.idle hdisconnected

theorem Connection.connect (h : Connection s) (hnone : s.connectionPromise = none)
    (hdown : s.connected = false) : Started (connect deps s) := by
  unfold StompClient.connect
  rw [hnone]
  refine h.startConnection deps hdown ?_
  intro hcaller
  cases hcaller

/-! ### Steps -/

/-- What a call or a thread leaves: what holds, what its threads rely on, and what it did to a
connection under way. -/
def Stepped (s : StompState) (result : StompState × List StompThread) : Prop :=
  Program.Asserts Connection StompThread.Relies result.1 result.2 ∧
    (s.connectionPromise ≠ none → Undisturbed s result.1)

theorem Started.andThen {result : StompState × List StompThread × ℕ} (h : Started result)
    (hnone : s.connectionPromise = none) (goal : Goal) : Stepped s (andThen goal result) := by
  refine ⟨⟨h.connection, ?_⟩, fun hsome => absurd hnone hsome⟩
  intro thread hthread
  rcases List.mem_append.1 hthread with hthread | hthread
  · exact h.relies thread hthread
  · rw [List.mem_singleton.1 hthread]
    trivial

/-- A call that finds a connection under way awaits its promise. -/
theorem Connection.awaitPromise (h : Connection s) (promise : ℕ) (goal : Goal) :
    Stepped s (andThen goal (s, [], promise)) := by
  refine ⟨⟨h, ?_⟩, fun _ => .refl s⟩
  intro thread hthread
  rw [List.mem_singleton.1 hthread]
  trivial

theorem Connection.awaitReconnect (h : Connection s) (goal : Goal) {caller : Caller}
    (hsend : s.connectionPromise = none → caller = .send → s.Idle) :
    Stepped s (andThen goal (StompClient.reconnect deps caller s)) := by
  cases hpromise : s.connectionPromise with
  | none => exact (h.reconnect deps hpromise (hsend hpromise)).andThen hpromise goal
  | some promise =>
    have hkept : StompClient.reconnect deps caller s = (s, [], promise) := by
      unfold StompClient.reconnect
      rw [hpromise]
    rw [hkept]
    exact h.awaitPromise promise goal

theorem Connection.stepped_perform (h : Connection s) {goal : Goal}
    (hflag : goal ≠ .nothing → s.connected = true ∨ ¬ s.wsOpen) : Stepped s (goal.perform s) := by
  obtain ⟨hconnection, hothers⟩ := h.perform hflag
  refine ⟨⟨hconnection, ?_⟩, fun _ => hothers⟩
  intro thread hthread
  obtain ⟨accepted, rfl⟩ := mem_perform hthread
  trivial

/-! ### Socket events -/

theorem Connection.onOpen (h : Connection s) {socket : ℕ} (hpossible : s.sockets socket = .connecting) :
    Stepped s (onOpen socket s, []) := by
  have hup : ¬ s.Down socket := by
    unfold StompState.Down
    rw [hpossible]
    simp
  have hself : (StompClient.onOpen socket s).sockets socket = .opened := Function.update_self _ _ _
  refine ⟨⟨⟨h.lawful, h.flag, ?_, ?_⟩, by simp⟩, fun _ => ⟨rfl, rfl, id, ?_⟩⟩
  · intro other hother
    have hne : other ≠ socket := by
      rintro rfl
      exact not_down hself hother
    exact h.down other ((down_of_setSocket hne).1 hother)
  · intro other hother
    have hne : other ≠ socket := by
      rintro rfl
      exact hup (Or.inr (h.unborn other hother))
    exact (Function.update_of_ne hne _ _).trans (h.unborn other hother)
  · rintro ⟨hdown, hcurrent⟩
    refine ⟨hdown, fun current hws => ?_⟩
    have hne : current ≠ socket := by
      rintro rfl
      exact hup (hcurrent current hws)
    exact (down_of_setSocket hne).2 (hcurrent current hws)

/-- A frame raises the flag or leaves it; it is logged, and only its callback sees it. -/
theorem onFrame_cases (socket : ℕ) (frame : StompFrame) (s : StompState) :
    ∃ delivered, (onFrame socket frame s).1 =
      { s.record (.received socket frame) with
        connected := decide (frame.command = "CONNECTED") || s.connected, delivered := delivered } := by
  unfold onFrame
  dsimp only
  by_cases hconnected : frame.command = "CONNECTED"
  · rw [if_pos hconnected, decide_eq_true hconnected]
    exact ⟨s.delivered, rfl⟩
  · rw [if_neg hconnected, decide_eq_false hconnected]
    by_cases hmessage : frame.command = "MESSAGE"
    · rw [if_pos hmessage]
      split
      · exact ⟨s.delivered, rfl⟩
      · exact ⟨_, rfl⟩
      · exact ⟨s.delivered, rfl⟩
      · exact ⟨s.delivered, rfl⟩
    · rw [if_neg hmessage]
      exact ⟨s.delivered, rfl⟩

theorem Connection.onFrame (h : Connection s) {socket : ℕ} {frame : StompFrame}
    (hpossible : frame.command = "CONNECTED" → connectSent socket s.log = true)
    (hfirst : frame.command = "CONNECTED" → s.connected = false →
      s.ws = some socket ∧ s.sockets socket = .opened) :
    Stepped s ((onFrame socket frame s).1, []) := by
  obtain ⟨delivered, hframe⟩ := onFrame_cases socket frame s
  rw [hframe]
  refine ⟨⟨⟨lawfulFrames_cons.2 ⟨trivial, h.lawful⟩, ?_, ?_, h.unborn⟩, by simp⟩,
    fun _ => ⟨rfl, rfl, ?_, ?_⟩⟩
  · intro hflag current hws
    show (decide (socket = current ∧ frame.command = "CONNECTED") && connectSent current s.log ||
      answered current s.log) = true
    cases hconnected : s.connected with
    | true => rw [h.flag hconnected current hws, Bool.or_true]
    | false =>
      have hcommand : frame.command = "CONNECTED" := by
        have hraised : (decide (frame.command = "CONNECTED") || s.connected) = true := hflag
        rw [hconnected, Bool.or_false] at hraised
        exact of_decide_eq_true hraised
      obtain rfl : socket = current :=
        Option.some.inj ((hfirst hcommand hconnected).1.symm.trans hws)
      rw [hpossible hcommand, decide_eq_true ⟨rfl, hcommand⟩]
      rfl
  · intro other hother
    show (!decide (socket = other ∧ frame.command = "CONNECTED") && awaits other s.log) = false
    rw [h.down other hother, Bool.and_false]
  · intro hidle current hws
    show (!decide (socket = current ∧ frame.command = "CONNECTED") && awaits current s.log) = false
    rw [hidle current hws, Bool.and_false]
  · rintro ⟨hdown, hcurrent⟩
    refine ⟨?_, hcurrent⟩
    show (decide (frame.command = "CONNECTED") || s.connected) = false
    rw [hdown, Bool.or_false]
    refine decide_eq_false fun hcommand => ?_
    obtain ⟨hws, hopened⟩ := hfirst hcommand hdown
    exact not_down hopened (hcurrent socket hws)

/-- A text that is no frame changes nothing. -/
theorem onMessage_cases (socket : ℕ) (event : String) (s : StompState) :
    ((onMessage socket event s).1 = s ∧ connects event = false) ∨
    ∃ frame, unmarshallSingle event = .ok frame ∧
      (onMessage socket event s).1 = (onFrame socket frame s).1 ∧
      connects event = decide (frame.command = "CONNECTED") := by
  unfold onMessage connects
  cases hframe : unmarshallSingle event with
  | ok frame => exact Or.inr ⟨frame, rfl, rfl, rfl⟩
  | error error =>
    cases error with
    | stompFrameException message => exact Or.inl ⟨rfl, rfl⟩
    | typeError => exact Or.inl ⟨rfl, rfl⟩

theorem Connection.onMessage (h : Connection s) {socket : ℕ} {event : String}
    (hpossible : connects event = true → connectSent socket s.log = true)
    (hfirst : connects event = true → s.connected = false →
      s.ws = some socket ∧ s.sockets socket = .opened) :
    Stepped s ((onMessage socket event s).1, []) := by
  rcases onMessage_cases socket event s with ⟨hkept, _⟩ | ⟨frame, _, hstate, hconnects⟩
  · rw [hkept]
    exact ⟨⟨h, by simp⟩, fun _ => .refl s⟩
  · rw [hstate]
    refine h.onFrame ?_ ?_
    · exact fun hcommand => hpossible (hconnects.trans (decide_eq_true hcommand))
    · exact fun hcommand => hfirst (hconnects.trans (decide_eq_true hcommand))

/-- The end of a socket, before the handler. -/
theorem Connection.ended (h : Connection s) {socket : ℕ} (hpossible : s.sockets socket ≠ .closed) :
    Connection (s.endSocket socket) ∧ Undisturbed s (s.endSocket socket) := by
  have hself : (s.endSocket socket).Down socket :=
    Or.inr (show Function.update s.sockets socket ReadyState.closed socket = .closed from
      Function.update_self _ _ _)
  refine ⟨⟨lawfulFrames_cons.2 ⟨trivial, h.lawful⟩, h.flag, ?_, ?_⟩, rfl, rfl, ?_, ?_⟩
  · intro other hother
    show (!decide (socket = other) && awaits other s.log) = false
    by_cases hsame : socket = other
    · rw [decide_eq_true hsame]
      rfl
    · rw [h.down other ((down_of_setSocket (Ne.symm hsame)).1 hother), Bool.and_false]
  · intro other hother
    have hne : other ≠ socket := by
      rintro rfl
      exact hpossible (h.unborn other hother)
    exact (Function.update_of_ne hne _ _).trans (h.unborn other hother)
  · intro hidle current hws
    show (!decide (socket = current) && awaits current s.log) = false
    rw [hidle current hws, Bool.and_false]
  · rintro ⟨hdown, hcurrent⟩
    refine ⟨hdown, fun current hws => ?_⟩
    by_cases hsame : current = socket
    · rw [hsame]
      exact hself
    · exact (down_of_setSocket hsame).2 (hcurrent current hws)

theorem handler_ne_send {P : Prop} : Caller.handler = .send → P := by
  intro h
  cases h

/-- A connection is under way. -/
theorem onClose_of_some {promise : ℕ} (h : s.connectionPromise = some promise) (socket code : ℕ) :
    onClose deps socket code s = (s.endSocket socket, []) := by
  unfold StompClient.onClose
  refine if_pos ?_
  show s.connectionPromise.isSome = true
  rw [h]
  rfl

theorem onClose_of_normal (h : s.connectionPromise = none) (socket : ℕ) :
    onClose deps socket 1000 s = ((s.endSocket socket).cleanUp .handler, []) := by
  unfold StompClient.onClose
  refine (if_neg ?_).trans (if_pos rfl)
  show ¬ s.connectionPromise.isSome = true
  rw [h]
  exact Bool.false_ne_true

theorem onClose_of_lost (h : s.connectionPromise = none) (socket : ℕ) {code : ℕ} (hcode : code ≠ 1000) :
    onClose deps socket code s =
      andThen .nothing (reconnect deps .handler ((s.endSocket socket).cleanUp .handler)) := by
  unfold StompClient.onClose
  refine (if_neg ?_).trans (if_neg hcode)
  show ¬ s.connectionPromise.isSome = true
  rw [h]
  exact Bool.false_ne_true

theorem Connection.onClose (h : Connection s) {socket : ℕ} (code : ℕ)
    (hpossible : s.sockets socket ≠ .closed) : Stepped s (onClose deps socket code s) := by
  obtain ⟨hended, hothers⟩ := h.ended hpossible
  cases hpromise : s.connectionPromise with
  | some promise =>
    rw [onClose_of_some deps hpromise]
    exact ⟨⟨hended, by simp⟩, fun _ => hothers⟩
  | none =>
    have hsend : Caller.handler = .send → (s.endSocket socket).Idle := handler_ne_send
    have hclean := hended.cleanUp hsend
    by_cases hcode : code = 1000
    · rw [hcode, onClose_of_normal deps hpromise]
      exact ⟨⟨hclean, by simp⟩, fun hsome => absurd hpromise hsome⟩
    · rw [onClose_of_lost deps hpromise socket hcode]
      have hreconnected := hclean.awaitReconnect deps .nothing (fun _ => handler_ne_send)
      exact ⟨hreconnected.1, fun hsome => absurd hpromise hsome⟩

theorem Connection.onError (h : Connection s) : Stepped s (onError deps s) := by
  unfold StompClient.onError
  split_ifs
  · exact ⟨⟨h, by simp⟩, fun _ => .refl s⟩
  · exact h.awaitReconnect deps .nothing fun _ => handler_ne_send

/-! ### Calls and threads -/

theorem not_ready_iff : (!s.opened || !s.connected) = true ↔ ¬ (s.opened = true ∧ s.connected = true) := by
  cases s.opened <;> cases s.connected <;> simp

theorem Connection.start (h : Connection s) {call : StompCall} {threads : List StompThread}
    (hpossible : Possible ⟨s, threads⟩ (.start call))
    (hfirst : AnsweredFirst ⟨s, threads⟩ (.start call)) : Stepped s (call.start deps s) := by
  cases call with
  | connect =>
    show Stepped s (andThen .nothing (StompClient.connect deps s))
    cases hpromise : s.connectionPromise with
    | none => exact (h.connect deps hpromise (hfirst hpromise)).andThen hpromise _
    | some promise =>
      have hkept : StompClient.connect deps s = (s, [], promise) := by
        unfold StompClient.connect
        rw [hpromise]
      rw [hkept]
      exact h.awaitPromise promise _
  | send destination headers body =>
    show Stepped s (StompClient.send deps destination headers body s)
    unfold StompClient.send
    by_cases hready : (!s.opened || !s.connected) = true
    · rw [if_pos hready]
      exact h.awaitReconnect deps _ fun hnone _ => hfirst hnone (not_ready_iff.1 hready)
    · rw [if_neg hready]
      rw [not_ready_iff, not_not] at hready
      exact h.stepped_perform fun _ => Or.inl hready.2
  | subscribe destination callback headers =>
    show Stepped s (StompClient.subscribe deps destination callback headers s)
    unfold StompClient.subscribe
    by_cases hready : (!s.opened || !s.connected) = true
    · rw [if_pos hready]
      refine h.awaitReconnect deps _ fun _ hcaller => ?_
      cases hcaller
    · rw [if_neg hready]
      rw [not_ready_iff, not_not] at hready
      exact h.stepped_perform fun _ => Or.inl hready.2
  | onOpen socket => exact h.onOpen hpossible
  | onMessage socket event => exact h.onMessage hpossible.2 hfirst
  | onClose socket code => exact h.onClose deps code hpossible
  | onError socket => exact h.onError deps

/-- `connectWithRetry` goes on. -/
theorem Connection.connecting (h : Connection s) {promise attempt : ℕ} {caller : Caller}
    {stage : ConnectStage} (hrelies : stage.Relies s) {answer : StompAnswer}
    {next : StompState × List StompThread}
    (hnext : stage.resume deps promise caller attempt s answer = some next) :
    Attempted promise s next := by
  unfold ConnectStage.resume at hnext
  split at hnext
  · next totalPassed =>
    cases hnext
    split_ifs
    · exact h.retry deps (fun _ => hrelies) promise attempt _
    · exact ⟨h, Or.inr ⟨rfl, caller, attempt, _, rfl, hrelies⟩⟩
    · exact ⟨h, Or.inr ⟨rfl, caller, attempt, _, rfl, hrelies⟩⟩
  · rcases transmit_cases s "CONNECT" (connectHeaders deps) "" with ⟨htransmit, _⟩ |
      ⟨socket, hws, hopened, htransmit⟩
    · rw [htransmit] at hnext
      cases hnext
      exact ⟨h, Or.inr ⟨rfl, caller, attempt, _, rfl, hrelies⟩⟩
    · rw [htransmit] at hnext
      cases hnext
      refine ⟨h.transmitted hopened ?_, Or.inr ⟨rfl, caller, attempt, _, rfl, hws⟩⟩
      rintro (hcommand | hcommand)
      · have hne : "CONNECT" ≠ "SEND" := by decide
        exact absurd hcommand hne
      · have hne : "CONNECT" ≠ "SUBSCRIBE" := by decide
        exact absurd hcommand hne
  · cases hnext
    exact ⟨⟨h.lawful, h.flag, h.down, h.unborn⟩, Or.inl rfl⟩
  · next socket error =>
    cases hnext
    have hws : s.ws = some socket := hrelies
    have hfailed : Connection (s.record (.failed socket)) := by
      refine ⟨lawfulFrames_cons.2 ⟨trivial, h.lawful⟩, h.flag, fun other hother => ?_, h.unborn⟩
      show (!decide (socket = other) && awaits other s.log) = false
      rw [h.down other hother, Bool.and_false]
    refine hfailed.retry deps (fun _ current hcurrent => ?_) promise attempt error
    obtain rfl : socket = current := Option.some.inj (hws.symm.trans hcurrent)
    show (!decide (socket = socket) && awaits socket s.log) = false
    rw [decide_eq_true rfl]
    rfl
  · cases hnext
    exact h.retry deps (fun _ => hrelies) promise attempt _
  · cases hnext
    have hdisconnected : s.Disconnected := hrelies
    exact h.connectWithRetry deps hdisconnected.1 (fun _ => h.idle hdisconnected) promise attempt
  · cases hnext

/-- A call whose frame has gone to the socket ends there. -/
theorem eq_of_transmitting {accepted : Bool} {answer : StompAnswer}
    {next : StompState × List StompThread}
    (h : (StompThread.transmitting accepted).resume deps s answer = some next) : next = (s, []) := by
  cases answer with
  | settled => cases h
  | timer => cases h
  | sent error =>
    cases error with
    | some error =>
      cases h
      rfl
    | none =>
      cases accepted with
      | true =>
        cases h
        rfl
      | false => cases h

def StompThread.isConnecting : StompThread → Bool
  | connecting _ _ _ _ => true
  | _ => false

/-- A call that awaited a connection ends with it, or performs its goal. -/
theorem awaiting_cases {promise : ℕ} {goal : Goal} {answer : StompAnswer}
    {next : StompState × List StompThread}
    (h : (StompThread.awaiting promise goal).resume deps s answer = some next) :
    (answer = .settled ∧ next = (s, [])) ∨
      answer = .settled ∧ (∃ u, s.settled promise = some (.ok u)) ∧ next = goal.perform s := by
  cases answer with
  | settled =>
    simp only [StompThread.resume] at h
    split at h
    · cases h
    · cases h
      exact Or.inl ⟨rfl, rfl⟩
    · next u hok =>
      cases h
      exact Or.inr ⟨rfl, ⟨u, hok⟩, rfl⟩
  | timer => cases h
  | sent error => cases h

theorem transmits_awaiting {promise : ℕ} {goal : Goal} {u : Unit} (hgoal : goal ≠ .nothing)
    (hok : s.settled promise = some (.ok u)) :
    (StompThread.awaiting promise goal).transmits s = true := by
  unfold StompThread.transmits
  cases goal with
  | nothing => exact absurd rfl hgoal
  | send destination headers body =>
    dsimp only
    rw [hok]
  | subscribe destination callback headers =>
    dsimp only
    rw [hok]

theorem Connection.resumeThread (h : Connection s) {before after : List StompThread} {thread : StompThread}
    {answer : StompAnswer} {next : StompState × List StompThread} (hrelies : thread.Relies s)
    (hfirst : AnsweredFirst ⟨s, before ++ thread :: after⟩ (.resume before.length answer))
    (hnext : thread.resume deps s answer = some next) :
    Program.Asserts Connection StompThread.Relies next.1 next.2 ∧
      (thread.isConnecting = false → Undisturbed s next.1) := by
  cases thread with
  | connecting promise caller attempt stage =>
    have hattempted := h.connecting deps hrelies.2 hnext
    refine ⟨⟨hattempted.1, ?_⟩, fun hother => by cases hother⟩
    intro other hother
    rcases hattempted.2 with hnil | ⟨hpromise, caller', attempt', stage', hone, hstage⟩
    · rw [hnil] at hother
      cases hother
    · rw [hone, List.mem_singleton] at hother
      rw [hother]
      exact ⟨hpromise.trans hrelies.1, hstage⟩
  | awaiting promise goal =>
    rcases awaiting_cases deps hnext with ⟨rfl, hended⟩ | ⟨rfl, ⟨u, hok⟩, hperform⟩
    · rw [hended]
      exact ⟨⟨h, by simp⟩, fun _ => .refl s⟩
    · rw [hperform]
      have hflag : goal ≠ .nothing → s.connected = true ∨ ¬ s.wsOpen := by
        intro hgoal
        refine hfirst (.awaiting promise goal) (by simp) ?_
        exact transmits_awaiting hgoal hok
      exact ⟨(h.stepped_perform hflag).1, fun _ => (h.perform hflag).2⟩
  | transmitting accepted =>
    rw [eq_of_transmitting deps hnext]
    exact ⟨⟨h, by simp⟩, fun _ => .refl s⟩

end Invariants

/-! ## Runs of the client -/

section Runs

variable {deps : StompDependencies} {c : Configuration StompState StompThread}
  {allowed : Configuration StompState StompThread → Move StompCall StompAnswer → Prop}

/-! ### One connection at a time -/

/-- The number of connections that the threads have under way. -/
def connections (threads : List StompThread) : ℕ :=
  (threads.map fun thread => thread.isConnecting.toNat).sum

/-- There is room for one connection where there is a promise. -/
def StompState.room (s : StompState) : ℕ := s.connectionPromise.isSome.toNat

theorem room_le (s : StompState) : s.room ≤ 1 := Bool.toNat_le _

/-- A part of `connectWithRetry` ends the connection, or keeps it. -/
def EndsOrKeeps (s : StompState) (result : StompState × List StompThread) : Prop :=
  (result.1.room = 0 ∧ connections result.2 = 0) ∨
    (result.1.room = s.room ∧ connections result.2 = 1)

theorem endsOrKeeps_retry (promise : ℕ) (caller : Caller) (attempt : ℕ) (error : String)
    (s : StompState) : EndsOrKeeps s (retry deps promise caller attempt error s) := by
  unfold retry
  split_ifs
  · exact Or.inl ⟨rfl, rfl⟩
  · refine Or.inr ⟨?_, rfl⟩
    unfold StompState.room
    rw [(cleanUp_frame s caller).2.2]

theorem endsOrKeeps_connectWithRetry (deps : StompDependencies) (promise : ℕ) (caller : Caller) (attempt : ℕ) (s : StompState) :
    EndsOrKeeps s (connectWithRetry deps promise caller attempt s) := by
  unfold connectWithRetry
  cases deps.getWebSocket s.created with
  | error error =>
    exact endsOrKeeps_retry promise caller attempt error { s with created := s.created + 1 }
  | ok u =>
    dsimp only
    split_ifs
    · exact Or.inr ⟨rfl, rfl⟩
    · exact Or.inr ⟨rfl, rfl⟩

theorem endsOrKeeps_resume {promise attempt : ℕ} {caller : Caller} {stage : ConnectStage}
    {answer : StompAnswer} {next : StompState × List StompThread}
    (h : stage.resume deps promise caller attempt s answer = some next) : EndsOrKeeps s next := by
  unfold ConnectStage.resume at h
  split at h
  · cases h
    split_ifs
    · exact endsOrKeeps_retry _ _ _ _ s
    · exact Or.inr ⟨rfl, rfl⟩
    · exact Or.inr ⟨rfl, rfl⟩
  · rcases transmit_cases s "CONNECT" (connectHeaders deps) "" with ⟨htransmit, _⟩ |
      ⟨socket, _, _, htransmit⟩
    · rw [htransmit] at h
      cases h
      exact Or.inr ⟨rfl, rfl⟩
    · rw [htransmit] at h
      cases h
      exact Or.inr ⟨rfl, rfl⟩
  · cases h
    exact Or.inl ⟨rfl, rfl⟩
  · next socket error =>
    cases h
    exact endsOrKeeps_retry promise caller attempt error (s.record (.failed socket))
  · cases h
    exact endsOrKeeps_retry _ _ _ _ s
  · cases h
    exact endsOrKeeps_connectWithRetry deps _ _ _ s
  · cases h

theorem connections_append (threads others : List StompThread) :
    connections (threads ++ others) = connections threads + connections others := by
  unfold connections
  rw [List.map_append, List.sum_append]

/-- What a call or the handler of an event makes room for. -/
def MakesRoom (s : StompState) (result : StompState × List StompThread) : Prop :=
  connections result.2 + s.room ≤ result.1.room

theorem makesRoom_startConnection (deps : StompDependencies) (goal : Goal) (caller : Caller) (h : s.room = 0) :
    MakesRoom s (andThen goal (startConnection deps caller s)) := by
  have hattempt := endsOrKeeps_connectWithRetry deps s.promises caller 1
    { s with promises := s.promises + 1 }
  have hle : connections (connectWithRetry deps s.promises caller 1
      { s with promises := s.promises + 1 }).2 ≤ 1 := by
    rcases hattempt with ⟨_, hnone⟩ | ⟨_, hone⟩
    · omega
    · omega
  show connections (_ ++ [StompThread.awaiting _ goal]) + s.room ≤ 1
  rw [connections_append, h]
  exact hle

theorem makesRoom_andThen (goal : Goal) (promise : ℕ) :
    MakesRoom s (andThen goal (s, [], promise)) := by
  show 0 + s.room ≤ s.room
  omega

theorem makesRoom_reconnect (deps : StompDependencies) (goal : Goal) (caller : Caller) (s : StompState) :
    MakesRoom s (andThen goal (reconnect deps caller s)) := by
  unfold reconnect
  cases hpromise : s.connectionPromise with
  | some promise => exact makesRoom_andThen goal promise
  | none =>
    have hclean : (s.cleanUp caller).room = s.room := by
      unfold StompState.room
      rw [(cleanUp_frame s caller).2.2]
    have hnone : s.room = 0 := by
      unfold StompState.room
      rw [hpromise]
      rfl
    have hstart := makesRoom_startConnection deps goal caller (hclean.trans hnone)
    unfold MakesRoom at hstart ⊢
    rwa [hclean] at hstart

theorem transmit_connectionPromise (s : StompState) (command : String) (headers : Headers)
    (body : String) :
    (s.transmit command headers body).1.connectionPromise = s.connectionPromise := by
  rcases transmit_cases s command headers body with ⟨htransmit, _⟩ | ⟨socket, _, _, htransmit⟩
  · rw [htransmit]
  · rw [htransmit]
    rfl

theorem perform_connectionPromise (goal : Goal) (s : StompState) :
    (goal.perform s).1.connectionPromise = s.connectionPromise := by
  cases goal with
  | nothing => rfl
  | send destination headers body => exact transmit_connectionPromise s _ _ _
  | subscribe destination callback headers =>
    unfold Goal.perform
    dsimp only
    cases headers.get? "id" with
    | some id => exact transmit_connectionPromise _ _ _ _
    | none => exact transmit_connectionPromise _ _ _ _

theorem makesRoom_perform (goal : Goal) (s : StompState) : MakesRoom s (goal.perform s) := by
  have hnone : connections (goal.perform s).2 = 0 := by
    cases goal with
    | nothing => rfl
    | send destination headers body => rfl
    | subscribe destination callback headers => rfl
  unfold MakesRoom StompState.room
  rw [hnone, perform_connectionPromise]
  omega

theorem makesRoom_start (call : StompCall) (s : StompState) : MakesRoom s (call.start deps s) := by
  cases call with
  | connect =>
    show MakesRoom s (andThen .nothing (connect deps s))
    unfold connect
    cases hpromise : s.connectionPromise with
    | some promise => exact makesRoom_andThen _ promise
    | none =>
      refine makesRoom_startConnection deps _ _ ?_
      unfold StompState.room
      rw [hpromise]
      rfl
  | send destination headers body =>
    show MakesRoom s (send deps destination headers body s)
    unfold send
    split_ifs
    · exact makesRoom_reconnect deps _ _ s
    · exact makesRoom_perform _ s
  | subscribe destination callback headers =>
    show MakesRoom s (subscribe deps destination callback headers s)
    unfold subscribe
    split_ifs
    · exact makesRoom_reconnect deps _ _ s
    · exact makesRoom_perform _ s
  | onOpen socket =>
    show 0 + s.room ≤ s.room
    omega
  | onMessage socket event =>
    show 0 + s.room ≤ (onMessage socket event s).1.room
    have hroom : (onMessage socket event s).1.room = s.room := by
      rcases onMessage_cases socket event s with ⟨hkept, _⟩ | ⟨frame, _, hstate, _⟩
      · rw [hkept]
      · obtain ⟨delivered, hframe⟩ := onFrame_cases socket frame s
        rw [hstate, hframe]
        rfl
    omega
  | onClose socket code =>
    show MakesRoom s (onClose deps socket code s)
    have hclean : ((s.endSocket socket).cleanUp .handler).room = s.room := by
      unfold StompState.room
      rw [(cleanUp_frame _ _).2.2]
      rfl
    cases hpromise : s.connectionPromise with
    | some promise =>
      rw [onClose_of_some deps hpromise]
      show 0 + s.room ≤ s.room
      omega
    | none =>
      by_cases hcode : code = 1000
      · rw [hcode, onClose_of_normal deps hpromise]
        show 0 + s.room ≤ StompState.room _
        rw [hclean]
        omega
      · rw [onClose_of_lost deps hpromise socket hcode]
        have hroom := makesRoom_reconnect deps .nothing .handler
          ((s.endSocket socket).cleanUp .handler)
        unfold MakesRoom at hroom ⊢
        rwa [hclean] at hroom
  | onError socket =>
    show MakesRoom s (onError deps s)
    unfold onError
    split_ifs
    · show 0 + s.room ≤ s.room
      omega
    · exact makesRoom_reconnect deps _ _ s

/-- A thread that goes on holds on to its connection, or gives it up. -/
theorem room_resume {thread : StompThread} {answer : StompAnswer}
    {next : StompState × List StompThread} (h : thread.resume deps s answer = some next) :
    connections next.2 + s.room ≤ next.1.room + thread.isConnecting.toNat := by
  cases thread with
  | connecting promise caller attempt stage =>
    have hle := room_le s
    show connections next.2 + s.room ≤ next.1.room + 1
    rcases endsOrKeeps_resume h with ⟨hroom, hcount⟩ | ⟨hroom, hcount⟩
    · omega
    · omega
  | awaiting promise goal =>
    show connections next.2 + s.room ≤ next.1.room + 0
    rcases awaiting_cases deps h with ⟨_, rfl⟩ | ⟨_, _, rfl⟩
    · show 0 + s.room ≤ s.room + 0
      omega
    · exact makesRoom_perform goal s
  | transmitting accepted =>
    rw [eq_of_transmitting deps h]
    show 0 + s.room ≤ s.room + 0
    omega

/-- At most one connection is under way. -/
theorem connections_le_room (h : (stompProgram deps).Reachable allowed ⟨{}, []⟩ c) :
    connections c.threads ≤ c.shared.room := by
  refine h.bounded (fun thread => thread.isConnecting.toNat) StompState.room ?_ ?_ ?_
  · exact Nat.zero_le _
  · intro call s threads _
    exact makesRoom_start call s
  · intro before thread after answer s next _ hnext
    exact room_resume hnext

/-- While one connection goes on there is no other. -/
theorem alone {s : StompState} {before after : List StompThread} {thread : StompThread}
    (hthread : thread.isConnecting = true)
    (h : connections (before ++ thread :: after) ≤ s.room) :
    ∀ other ∈ before ++ after, other.isConnecting = false := by
  have hle := room_le s
  have hsplit : connections (before ++ thread :: after) = connections (before ++ after) + 1 := by
    unfold connections
    rw [List.map_append, List.map_append, List.map_cons, List.sum_append, List.sum_append,
      List.sum_cons, hthread]
    show _ + (1 + _) = _
    omega
  have hzero : connections (before ++ after) = 0 := by omega
  intro other hother
  have hweight := List.sum_eq_zero_iff.1 hzero _ (List.mem_map_of_mem hother)
  cases hconnecting : other.isConnecting with
  | false => rfl
  | true =>
    rw [hconnecting] at hweight
    cases hweight

theorem relies_of_not_connecting {thread : StompThread} (h : thread.isConnecting = false)
    (s : StompState) : thread.Relies s := by
  cases thread with
  | connecting promise caller attempt stage => cases h
  | awaiting promise goal => trivial
  | transmitting accepted => trivial

theorem not_connecting_of_none {s : StompState} {thread : StompThread} (h : thread.Relies s)
    (hnone : s.connectionPromise = none) : thread.isConnecting = false := by
  cases thread with
  | connecting promise caller attempt stage =>
    have hpromise : s.connectionPromise = some promise := h.1
    rw [hnone] at hpromise
    cases hpromise
  | awaiting promise goal => rfl
  | transmitting accepted => rfl

theorem connection_initial : Connection {} where
  lawful := lawfulFrames_nil
  flag := by
    intro h
    cases h
  down := fun _ _ => rfl
  unborn := fun _ _ => rfl

/-- Every reachable state keeps the law, with what each thread relies on. -/
theorem asserts_connection (h : (stompProgram deps).Reachable
    (fun c move => Possible c move ∧ AnsweredFirst c move) ⟨{}, []⟩ c) :
    Program.Asserts Connection StompThread.Relies c.shared c.threads := by
  have hbounded := h.strengthen (J := fun c => connections c.threads ≤ c.shared.room)
    fun _ hc => connections_le_room hc
  refine hbounded.threads ⟨connection_initial, by simp⟩ ?_ ?_
  · rintro call s threads ⟨hconnection, hrelies⟩ ⟨⟨hpossible, hfirst⟩, _⟩
    obtain ⟨hasserts, hothers⟩ := hconnection.start deps hpossible hfirst
    refine ⟨hasserts, fun thread hthread => ?_⟩
    by_cases hnone : s.connectionPromise = none
    · exact relies_of_not_connecting (not_connecting_of_none (hrelies thread hthread) hnone) _
    · exact (hothers hnone).relies (hrelies thread hthread)
  · rintro before thread after answer s next ⟨hconnection, hrelies⟩ ⟨⟨_, hfirst⟩, hroom⟩ hnext
    have hmem : thread ∈ before ++ thread :: after := by simp
    obtain ⟨hasserts, hothers⟩ := hconnection.resumeThread deps (hrelies thread hmem) hfirst hnext
    refine ⟨hasserts, fun other hother => ?_⟩
    have hother' : other ∈ before ++ thread :: after := by
      simp only [List.mem_append, List.mem_cons] at hother ⊢
      tauto
    cases hconnecting : thread.isConnecting with
    | true => exact relies_of_not_connecting (alone hconnecting hroom other hother) _
    | false => exact (hothers hconnecting).relies (hrelies other hother')

/-- **Frames of a connected client.** In every run in which the broker's answer comes first, SEND and
SUBSCRIBE go to answered sockets, and no send closes a socket that awaits its answer. -/
theorem lawful_when_answered_first (h : (stompProgram deps).Reachable
    (fun c move => Possible c move ∧ AnsweredFirst c move) ⟨{}, []⟩ c) :
    LawfulFrames c.shared.log :=
  (asserts_connection h).1.lawful

end Runs

/-! ## The order of the answer -/

namespace StompSample

def deps : StompDependencies where
  login := none
  passcode := none
  getWebSocket _ := .ok ()
  options := { reconnectAttempts := 2, maxWaitSocketSession := 100000 }

def start : Configuration StompState StompThread := ⟨{}, []⟩

def message : StompCall := .send "/exchange/council/deposit" InsertionMap.empty "message"

def connectedFrame : String := "CONNECTED\n\n\x00"

/-- `connect`, until the promise is fulfilled. -/
def connecting : List (Move StompCall StompAnswer) := [
  .start .connect,
  .start (.onOpen 0),
  .resume 0 .timer,
  .resume 0 .settled,
  .resume 0 (.sent none)]

/-- A send is called while the client connects, and goes on as soon as CONNECT has been sent. -/
def overtaking : List (Move StompCall StompAnswer) := [
  .start .connect,
  .start message,
  .start (.onOpen 0),
  .resume 0 .timer,
  .resume 0 .settled,
  .resume 0 (.sent none),
  .resume 1 .settled]

def possibleRun (moves : List (Move StompCall StompAnswer)) :
    Option (Configuration StompState StompThread) :=
  (stompProgram deps).run (fun c move => decide (Possible c move)) start moves

theorem overtaking_isSome : (possibleRun overtaking).isSome = true := by
  decide +kernel

theorem closing_isSome : (possibleRun (connecting ++ [.start message])).isSome = true := by
  decide +kernel

/-- Both parts of the law fail: a send that waited for the connection overtakes the answer, and a send
that is called before the answer closes the socket. -/
theorem frames_before_connected :
    (∃ c, (stompProgram deps).Reachable Possible start c ∧ ¬ LawfulFrames c.shared.log ∧
      ∃ frame earlier, c.shared.log = .transmitted 0 frame :: earlier ∧ frame.command = "SEND") ∧
    ∃ c, (stompProgram deps).Reachable Possible start c ∧ ¬ LawfulFrames c.shared.log ∧
      ∃ earlier, c.shared.log = .closed 0 .send :: earlier := by
  refine ⟨⟨(possibleRun overtaking).get overtaking_isSome, ?_, ?_, _, _, rfl, rfl⟩,
    ⟨(possibleRun (connecting ++ [.start message])).get closing_isSome, ?_, ?_, _, rfl⟩⟩
  · exact Program.Reachable.refl.run (fun _ _ h => of_decide_eq_true h)
      (Option.some_get overtaking_isSome).symm
  · decide +kernel
  · exact Program.Reachable.refl.run (fun _ _ h => of_decide_eq_true h)
      (Option.some_get closing_isSome).symm
  · decide +kernel

/-- The connection is lost, and the next send goes on behind the second answer. -/
def answeredFirst : List (Move StompCall StompAnswer) := connecting ++ [
  .start (.onMessage 0 connectedFrame),
  .start (.onClose 0 1006),
  .start message,
  .start (.onOpen 1),
  .resume 1 .timer,
  .resume 1 .settled,
  .resume 1 (.sent none),
  .start (.onMessage 1 connectedFrame),
  .resume 2 .settled]

def answeredRun : Option (Configuration StompState StompThread) :=
  (stompProgram deps).run (fun c move => decide (Possible c move ∧ AnsweredFirst c move)) start
    answeredFirst

theorem answeredRun_isSome : answeredRun.isSome = true := by
  decide +kernel

theorem lawful_when_answered_first_sample :
    (∃ frame earlier, (answeredRun.get answeredRun_isSome).shared.log =
      .transmitted 1 frame :: earlier ∧ frame.command = "SEND") ∧
    LawfulFrames (answeredRun.get answeredRun_isSome).shared.log :=
  ⟨⟨_, _, rfl, rfl⟩, lawful_when_answered_first
    (Program.Reachable.refl.run (fun _ _ h => of_decide_eq_true h)
      (Option.some_get answeredRun_isSome).symm)⟩

end StompSample

end StompClient

end CouncilDaemon
