import CouncilDaemon.Transport.ConnectedFrames

/-!
# Events of superseded sockets

A socket is superseded when the client has made another one since. Its events still reach the
handlers, which act on the flags and on the current socket. Such an event leaves them alone exactly
when it finds nothing to do: the flag it would raise is up, or a connection is under way.
-/

namespace CouncilDaemon

namespace StompClient

/-- The socket whose event a call handles. -/
def StompCall.socket : StompCall → Option ℕ
  | onOpen socket => some socket
  | onMessage socket _ => some socket
  | onClose socket _ => some socket
  | onError socket => some socket
  | _ => none

/-- A later socket has taken the place of the one the event comes from. -/
def StompCall.Superseded (s : StompState) (call : StompCall) : Prop :=
  ∃ socket ∈ call.socket, ∃ current ∈ s.ws, socket < current

/-- What an event of a superseded socket may change: neither the flags nor the current socket, and it
starts no connection. -/
structure Inert (s t : StompState) : Prop where
  opened : t.opened = s.opened
  connected : t.connected = s.connected
  current : ∀ socket ∈ s.ws, t.ws = some socket ∧ t.sockets socket = s.sockets socket
  connection : t.created = s.created ∧ t.promises = s.promises ∧
    t.connectionPromise = s.connectionPromise

/-- The event finds nothing to do: an open finds the client opened, CONNECTED finds it connected, and
an error finds a connection under way. A close does too, or it is a normal one that finds the flags
down and the current socket closed. -/
def StompCall.Belated (s : StompState) : StompCall → Prop
  | onOpen _ => s.opened = true
  | onMessage _ event => connects event = true → s.connected = true
  | onClose _ code => s.connectionPromise ≠ none ∨
    code = 1000 ∧ s.opened = false ∧ s.connected = false ∧ ∀ socket ∈ s.ws, s.Down socket
  | onError _ => s.connectionPromise ≠ none
  | _ => True

section Events

variable {s t : StompState} {deps : StompDependencies}

theorem created_connectWithRetry (promise : ℕ) (caller : Caller) (attempt : ℕ) (s : StompState) :
    (connectWithRetry deps promise caller attempt s).1.created = s.created + 1 := by
  unfold connectWithRetry
  cases deps.getWebSocket s.created with
  | error error =>
    dsimp only
    unfold retry
    split_ifs
    · rfl
    · exact (cleanUp_frame _ caller).2.1
  | ok u =>
    dsimp only
    split_ifs
    · rfl
    · rfl

/-- A reconnection makes a socket. -/
theorem created_reconnect (goal : Goal) (caller : Caller) (h : s.connectionPromise = none) :
    (andThen goal (reconnect deps caller s)).1.created = s.created + 1 := by
  unfold reconnect
  rw [h]
  show (connectWithRetry deps _ caller 1 _).1.created = s.created + 1
  rw [created_connectWithRetry]
  show (s.cleanUp caller).created + 1 = s.created + 1
  rw [(cleanUp_frame s caller).2.1]

theorem Inert.not_created (h : Inert s t) (hcreated : t.created = s.created + 1) : False := by
  have hkept := h.connection.1
  omega

theorem inert_onOpen {socket : ℕ} (h : (StompCall.onOpen socket).Superseded s) :
    Inert s (onOpen socket s) ↔ s.opened = true := by
  obtain ⟨_, hsocket, current, hcurrent, hlt⟩ := h
  cases hsocket
  constructor
  · intro hinert
    exact hinert.opened.symm
  · intro hopened
    refine ⟨hopened.symm, rfl, ?_, rfl, rfl, rfl⟩
    intro other hother
    obtain rfl : current = other := Option.some.inj (Eq.trans (Eq.symm hcurrent) hother)
    exact ⟨hother, Function.update_of_ne (Nat.ne_of_gt hlt) _ _⟩

theorem inert_onMessage {socket : ℕ} {event : String} :
    Inert s ((onMessage socket event s).1) ↔
      (connects event = true → s.connected = true) := by
  rcases onMessage_cases socket event s with ⟨hkept, hconnects⟩ | ⟨frame, _, hstate, hconnects⟩
  · rw [hkept, hconnects]
    exact ⟨fun _ h => absurd h Bool.false_ne_true,
      fun _ => ⟨rfl, rfl, fun other hother => ⟨hother, rfl⟩, rfl, rfl, rfl⟩⟩
  · obtain ⟨delivered, hframe⟩ := onFrame_cases socket frame s
    rw [hstate, hframe, hconnects]
    constructor
    · intro hinert hcommand
      have hkept : (decide (frame.command = "CONNECTED") || s.connected) = s.connected :=
        hinert.connected
      rw [hcommand, Bool.true_or] at hkept
      exact hkept.symm
    · intro hconnected
      refine ⟨rfl, ?_, fun other hother => ⟨hother, rfl⟩, rfl, rfl, rfl⟩
      show (decide (frame.command = "CONNECTED") || s.connected) = s.connected
      cases hcommand : decide (frame.command = "CONNECTED") with
      | true => rw [hconnected hcommand, Bool.or_true]
      | false => rw [Bool.false_or]

/-- A client that is down already stays as it is. -/
theorem cleanUp_of_disconnected (h : s.Disconnected) (hopened : s.opened = false) (caller : Caller) :
    s.cleanUp caller = s := by
  have hlowered : ({ s with connected := false, opened := false } : StompState) = s := by
    cases s
    cases h.1
    cases hopened
    rfl
  rcases cleanUp_cases s caller with ⟨_, hclean⟩ | ⟨socket, hws, hclean⟩
  · rw [hclean, hlowered]
  · rw [hclean, hlowered]
    exact if_pos (h.2 socket hws)

theorem inert_cleanUp (caller : Caller) :
    Inert s (s.cleanUp caller) ↔ s.opened = false ∧ s.Disconnected := by
  constructor
  · intro hinert
    obtain ⟨hconnected, hdown⟩ := disconnected_cleanUp s caller
    have hopened : (s.cleanUp caller).opened = false := by
      rcases cleanUp_cases s caller with ⟨_, hclean⟩ | ⟨socket, _, hclean⟩
      · rw [hclean]
      · rw [hclean]
        unfold StompState.closeSocket
        split_ifs
        · rfl
        · rfl
    refine ⟨hinert.opened.symm.trans hopened, hinert.connected.symm.trans hconnected, ?_⟩
    intro socket hws
    obtain ⟨hws', hsocket⟩ := hinert.current socket hws
    have hkept := hdown socket hws'
    unfold StompState.Down at hkept ⊢
    rwa [hsocket] at hkept
  · rintro ⟨hopened, hdisconnected⟩
    rw [cleanUp_of_disconnected hdisconnected hopened caller]
    exact ⟨rfl, rfl, fun _ hws => ⟨hws, rfl⟩, rfl, rfl, rfl⟩

theorem inert_onClose {socket code : ℕ} (h : (StompCall.onClose socket code).Superseded s) :
    Inert s (onClose deps socket code s).1 ↔ (StompCall.onClose socket code).Belated s := by
  obtain ⟨_, hsocket, current, hcurrent, hlt⟩ := h
  cases hsocket
  have hlater : ∀ other ∈ s.ws, other ≠ socket := by
    intro other hother
    obtain rfl : current = other := Option.some.inj (Eq.trans (Eq.symm hcurrent) hother)
    exact Nat.ne_of_gt hlt
  -- what the end of the socket changes concerns no other socket
  have hended : ∀ other ∈ s.ws,
      (s.endSocket socket).sockets other = s.sockets other :=
    fun other hother => Function.update_of_ne (hlater other hother) _ _
  unfold StompCall.Belated
  cases hpromise : s.connectionPromise with
  | some promise =>
    rw [onClose_of_some deps hpromise]
    refine ⟨fun _ => Or.inl (by simp), fun _ => ⟨rfl, rfl, ?_, rfl, rfl, rfl⟩⟩
    exact fun other hother => ⟨hother, hended other hother⟩
  | none =>
    by_cases hcode : code = 1000
    · rw [hcode, onClose_of_normal deps hpromise]
      have hsame : Inert s ((s.endSocket socket).cleanUp .handler) ↔
          Inert (s.endSocket socket) ((s.endSocket socket).cleanUp .handler) := by
        constructor
        · intro hinert
          refine ⟨hinert.opened, hinert.connected, fun other hother => ?_, hinert.connection⟩
          obtain ⟨hws, hsocket⟩ := hinert.current other hother
          exact ⟨hws, hsocket.trans (hended other hother).symm⟩
        · intro hinert
          refine ⟨hinert.opened, hinert.connected, fun other hother => ?_, hinert.connection⟩
          obtain ⟨hws, hsocket⟩ := hinert.current other hother
          exact ⟨hws, hsocket.trans (hended other hother)⟩
      rw [hsame, inert_cleanUp]
      have hdown : ∀ other ∈ s.ws, (s.endSocket socket).Down other ↔ s.Down other := by
        intro other hother
        unfold StompState.Down
        rw [hended other hother]
      constructor
      · rintro ⟨hopened, hconnected, hall⟩
        exact Or.inr ⟨rfl, hopened, hconnected, fun other hother => (hdown other hother).1 (hall other hother)⟩
      · rintro (habsent | ⟨_, hopened, hconnected, hall⟩)
        · exact absurd rfl habsent
        · exact ⟨hopened, hconnected, fun other hother => (hdown other hother).2 (hall other hother)⟩
    · rw [onClose_of_lost deps hpromise socket hcode]
      refine ⟨fun hinert => (hinert.not_created ?_).elim, ?_⟩
      · have hclean := cleanUp_frame (s.endSocket socket) .handler
        rw [created_reconnect _ _ (hclean.2.2.trans hpromise), hclean.2.1]
        rfl
      · rintro (habsent | ⟨hnormal, _⟩)
        · exact absurd rfl habsent
        · exact absurd hnormal hcode

theorem inert_onError (socket : ℕ) :
    Inert s (onError deps s).1 ↔ (StompCall.onError socket).Belated s := by
  unfold onError StompCall.Belated
  cases hpromise : s.connectionPromise with
  | some promise =>
    refine ⟨fun _ => by simp, fun _ => ?_⟩
    exact ⟨rfl, rfl, fun _ hws => ⟨hws, rfl⟩, rfl, rfl, rfl⟩
  | none =>
    refine ⟨fun hinert => (hinert.not_created ?_).elim, fun habsent => absurd rfl habsent⟩
    exact created_reconnect .nothing .handler hpromise

/-- An event of a superseded socket is inert exactly when it is belated. -/
theorem inert_iff_belated (call : StompCall) (h : call.Superseded s) :
    Inert s (call.start deps s).1 ↔ call.Belated s := by
  cases call with
  | onOpen socket => exact inert_onOpen h
  | onMessage socket event => exact inert_onMessage
  | onClose socket code => exact inert_onClose h
  | onError socket => exact inert_onError socket
  | connect =>
    obtain ⟨_, hsocket, _⟩ := h
    cases hsocket
  | send destination headers body =>
    obtain ⟨_, hsocket, _⟩ := h
    cases hsocket
  | subscribe destination callback headers =>
    obtain ⟨_, hsocket, _⟩ := h
    cases hsocket

end Events

/-- The steps of a run of the client, each with the configuration it starts from. -/
def steps (deps : StompDependencies) (moves : List (Move StompCall StompAnswer)) :
    List (Configuration StompState StompThread × Move StompCall StompAnswer) :=
  (stompProgram deps).trace (fun c move => decide (Possible c move)) ⟨{}, []⟩ moves

/-- **Superseded sockets.** The events of superseded sockets in a run are all inert exactly when they
are all belated. -/
theorem superseded_inert_iff (deps : StompDependencies) (moves : List (Move StompCall StompAnswer)) :
    (∀ step ∈ steps deps moves, ∀ call, step.2 = .start call → call.Superseded step.1.shared →
      Inert step.1.shared (call.start deps step.1.shared).1) ↔
    ∀ step ∈ steps deps moves, ∀ call, step.2 = .start call → call.Superseded step.1.shared →
      call.Belated step.1.shared := by
  constructor
  · intro hinert step hstep call hcall hsuperseded
    exact (inert_iff_belated call hsuperseded).1 (hinert step hstep call hcall hsuperseded)
  · intro hbelated step hstep call hcall hsuperseded
    exact (inert_iff_belated call hsuperseded).2 (hbelated step hstep call hcall hsuperseded)

namespace StompSample

/-- The connection fails and the client connects again, before the end of the first socket is known. -/
def superseding : List (Move StompCall StompAnswer) := connecting ++ [
  .start (.onMessage 0 connectedFrame),
  .start (.onError 0),
  .start (.onOpen 1),
  .resume 1 .timer,
  .resume 1 .settled,
  .resume 1 (.sent none),
  .start (.onMessage 1 connectedFrame)]

theorem superseding_isSome : (possibleRun superseding).isSome = true := by
  decide +kernel

/-- The late end of the first socket closes the second one, which is connected, and starts another
connection. -/
theorem late_close_not_inert : ∃ c, (stompProgram deps).Reachable Possible start c ∧
    Possible c (.start (.onClose 0 1006)) ∧ (StompCall.onClose 0 1006).Superseded c.shared ∧
    ¬ Inert c.shared ((StompCall.onClose 0 1006).start deps c.shared).1 ∧
    c.shared.connected = true ∧ c.shared.sockets 1 = .opened ∧
    ((StompCall.onClose 0 1006).start deps c.shared).1.sockets 1 = .closing ∧
    ((StompCall.onClose 0 1006).start deps c.shared).1.ws = some 2 := by
  refine ⟨(possibleRun superseding).get superseding_isSome, ?_, by decide +kernel,
    ⟨0, rfl, 1, rfl, Nat.zero_lt_one⟩, ?_, rfl, rfl, rfl, rfl⟩
  · exact Program.Reachable.refl.run (fun _ _ h => of_decide_eq_true h)
      (Option.some_get superseding_isSome).symm
  · intro hinert
    have hopened := hinert.opened
    revert hopened
    decide +kernel

end StompSample

end StompClient

end CouncilDaemon
