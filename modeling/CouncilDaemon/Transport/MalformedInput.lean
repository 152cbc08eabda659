import CouncilDaemon.Transport.FrameCodec
import CouncilDaemon.Transport.StompClient

/-!
# Malformed input

The handler of incoming messages on any text. It catches the one exception that the parser throws on
purpose; two errors of the language pass it. One is the parser's, where it runs past the last line. The
other comes from a MESSAGE whose subscription is a name that every object has: the table of the
callbacks is a plain object, and what it inherits is called as if it were a callback.
-/

namespace CouncilDaemon

namespace StompClient

open StompFrame (Framed commandOf headerValue unmarshallSingle unmarshallSingle_ok
  unmarshallSingle_typeError_iff)

/-- The parser returns a frame or throws its own exception, the handler does not throw, and without a
frame it leaves the flags and the subscriptions as they are. -/
structure Contained (socket : ℕ) (event : String) (s : StompState) : Prop where
  parsed : (∃ frame, unmarshallSingle event = .ok frame) ∨
    ∃ message, unmarshallSingle event = .error (.stompFrameException message)
  returns : (onMessage socket event s).2 = .ok ()
  kept : (∀ frame, unmarshallSingle event ≠ .ok frame) →
    (onMessage socket event s).1.opened = s.opened ∧
      (onMessage socket event s).1.connected = s.connected ∧
      (onMessage socket event s).1.subscriptions = s.subscriptions

/-- The text is that of a MESSAGE for a name which is no id of the client's, and which throws when what
every object has under it is called. -/
def CallsInherited (event : String) (s : StompState) : Prop :=
  commandOf event = "MESSAGE" ∧ ∃ name ∈ throwingNames,
    headerValue event "subscription" = some name ∧ s.subscriptions name = none

/-- What the table has under a name throws when it is called. -/
theorem property_eq_throwing {s : StompState} {name : String} :
    s.property name = some .throwing ↔ name ∈ throwingNames ∧ s.subscriptions name = none := by
  unfold StompState.property inheritedProperty
  cases s.subscriptions name with
  | some onReceive => simp
  | none =>
    split_ifs with hthrows hreturns
    · simp [hthrows]
    · simp [hthrows]
    · simp [hthrows]

/-- A frame goes through, unless it is a MESSAGE for a property that throws. -/
theorem onFrame_returns_iff (socket : ℕ) (frame : StompFrame) (s : StompState) :
    (onFrame socket frame s).2 = .ok () ↔ ¬ (frame.command = "MESSAGE" ∧
      s.property ((frame.headers.get? "subscription").getD "undefined") = some .throwing) := by
  have hproperty : ∀ name, (s.record (.received socket frame)).property name = s.property name :=
    fun _ => rfl
  unfold onFrame
  dsimp only
  rw [hproperty]
  by_cases hconnected : frame.command = "CONNECTED"
  · rw [if_pos hconnected, hconnected]
    exact iff_of_true rfl fun h => absurd h.1 (by decide)
  · rw [if_neg hconnected]
    by_cases hmessage : frame.command = "MESSAGE"
    · rw [if_pos hmessage]
      split
      · next h => simp [h]
      · next h => simp [h]
      · next h => simp [h]
      · next h => simp [h, hmessage]
    · rw [if_neg hmessage]
      simp [hmessage]

/-- The handler throws at a frame exactly when its text calls an inherited property. -/
theorem onMessage_returns_iff {socket : ℕ} {event : String} {s : StompState} {frame : StompFrame}
    (h : unmarshallSingle event = .ok frame) :
    (onMessage socket event s).2 = .ok () ↔ ¬ CallsInherited event s := by
  obtain ⟨hcommand, hheaders⟩ := unmarshallSingle_ok h
  have hundefined : "undefined" ∉ throwingNames := by decide
  unfold onMessage
  rw [h]
  dsimp only
  rw [onFrame_returns_iff, hcommand, hheaders _ (by decide), property_eq_throwing, CallsInherited]
  refine not_congr (and_congr_right fun _ => ?_)
  cases headerValue event "subscription" with
  | none => simp [hundefined]
  | some name => simp

namespace StompSample

end StompSample

end StompClient

end CouncilDaemon
