import FxIP.Irc
import FxIP.Lib.Run
import FxIP.Lib.Wire

/-!
# The client and its connection

The keyboard, the network and the two threads as one system. A call of the
application starts with a step of uIP, goes on with the statements of
`irc_thread`, and ends with the turn of `irc_send_thread`, after which uIP sends
what is pending.
-/

namespace FxIP

inductive Owner
  | thread
  | sendThread
  deriving Repr, DecidableEq

/-- Where the program is: outside the application, or at the turn of a thread. -/
inductive Turn
  | outside
  | thread
  | sendThread
  deriving Repr, DecidableEq

/-- `wire` has the segments sent, each with the thread whose `uip_send` it was;
`replaced` is set when both threads use `uip_send` in one call. -/
structure IrcSystem where
  app : IrcState
  messages : Messages
  uip : Uip
  turn : Turn
  wire : Wire (Owner × List UInt8)
  replaced : Bool
  deriving Repr, DecidableEq

def INPUT_BUFFER_SIZE : Nat := 128

/-- A string in `page_irc_channel_input_buffer`. -/
def IsInput (text : List UInt8) : Prop := text.length < INPUT_BUFFER_SIZE ∧ 0 ∉ text

instance (text : List UInt8) : Decidable (IsInput text) := inferInstanceAs (Decidable (_ ∧ _))

inductive Closing
  | closed
  | aborted
  | timedout
  deriving Repr, DecidableEq

inductive IrcEvent
  | submit (text : List UInt8)
  | frame (bytes : List UInt8)
  | synack (options : List UInt8) (mss : Option Nat)
  | segment (ack : Bool) (wnd : Nat) (payload : List UInt8)
  | timer
  | close (how : Closing)
  | thread
  | sendThread
  deriving Repr, DecidableEq

/-- Up to the first turn of `irc_appcall`. -/
def IrcSystem.call (s : IrcSystem) (uip : Uip) : IrcSystem :=
  let flags := uip.flags
  if flags.closed || flags.aborted || flags.timedout then
    { s with uip, app := { s.app with connected := false } }
  else { s with uip, turn := .thread }

def BothSend (s : IrcSystem) (uip : Uip) : Prop := 0 < s.uip.sends ∧ s.uip.sends < uip.sends

instance (s : IrcSystem) (uip : Uip) : Decidable (BothSend s uip) :=
  inferInstanceAs (Decidable (_ ∧ _))

def lastOwner (s : IrcSystem) (uip : Uip) : Owner :=
  if s.uip.sends < uip.sends then .sendThread else .thread

/-- From `irc_send_thread` on. -/
def IrcSystem.output (s : IrcSystem) (m : Messages) (app : IrcState) (uip : Uip) : IrcSystem :=
  let replaced := s.replaced || BothSend s uip
  let owner := lastOwner s uip
  let fresh := uip.conn.len = 0
  let (data, uip) := uipOutput uip
  let wire := match data with
    | none => s.wire
    | some data => if fresh then s.wire.send (owner, data) else s.wire.repeatLast (owner, data)
  { app, messages := m, uip, turn := .outside, wire, replaced }

def IrcSystem.step (s : IrcSystem) : IrcEvent → Comp (Option IrcSystem)
  | .submit text =>
    if s.turn = .outside ∧ IsInput text then
      pure (some { s with messages := uiPageIrcMessageSubmit s.messages text })
    else pure none
  | .frame bytes =>
    if s.turn = .outside then pure (some { s with uip := uipReceive s.uip bytes }) else pure none
  | .synack options mss =>
    if s.turn = .outside ∧ s.uip.conn.tcpstate = .synSent then
      pure (some (s.call (uipSynack s.uip options mss)))
    else pure none
  | .segment ack wnd payload =>
    if s.turn = .outside ∧ s.uip.conn.tcpstate = .established then
      let uip := uipSegment s.uip ack wnd payload
      pure (some (if uip.flags.acked || uip.flags.newdata then s.call uip else { s with uip }))
    else pure none
  | .timer =>
    if s.turn = .outside ∧ s.uip.conn.tcpstate = .established then
      pure (some (s.call (uipTimer s.uip)))
    else pure none
  | .close how =>
    if s.turn = .outside ∧ s.uip.conn.tcpstate ≠ .closed then
      let uip := { s.uip with conn := { s.uip.conn with tcpstate := .closed } }
      pure (some (s.call (uipCall uip
        { closed := how = .closed, aborted := how = .aborted, timedout := how = .timedout } 0)))
    else pure none
  | .thread =>
    if s.turn = .thread then do
      let result ← ircThread s.messages s.app s.uip
      pure (result.map fun (go, messages, app, uip) =>
        { s with messages, app, uip, turn := if go then .thread else .sendThread })
    else pure none
  | .sendThread =>
    if s.turn = .sendThread then
      if s.messages.messagelength ≠ 0 then do
        let (messages, app, uip) ← ircSendThread s.messages s.app s.uip
        pure (some (s.output messages app uip))
      else pure (some (s.output s.messages s.app s.uip))
    else pure none

def IrcStep (s : IrcSystem) (e : IrcEvent) (t : IrcSystem) : Prop := (s.step e).Returns (some t)

theorem IrcStep.unique (s : IrcSystem) (e : IrcEvent) (t u : IrcSystem) (h : IrcStep s e t)
    (h' : IrcStep s e u) : t = u := Option.some.inj (Comp.Returns.unique h h')

/-- A step with a bound on the rounds of its loops. -/
def IrcSystem.stepRun (n : Nat) (s : IrcSystem) (e : IrcEvent) : Option IrcSystem :=
  ((s.step e).run n).join

theorem ircStep_of_stepRun {n : Nat} (s : IrcSystem) (e : IrcEvent) (t : IrcSystem)
    (h : s.stepRun n e = some t) : IrcStep s e t := ⟨n, Option.join_eq_some_iff.mp h⟩

/-- The buffer sizes that `irc_connect` gives to both sockets. -/
def PSOCK_BUFFERSIZE : Nat := 1024

/-- After `irc_connect`, for any earlier contents of the memory. -/
def ircConnect (app : IrcState) (messages : Messages) (appdata : Buffer UInt8 UIP_APPDATA_SIZE) :
    IrcSystem where
  app := { app with
    connected := true
    pt := .nick
    psock := psockInit app.psock PSOCK_BUFFERSIZE
    outPt := .message
    psockOut := psockInit app.psockOut PSOCK_BUFFERSIZE }
  messages := { messages with messagelength := 0 }
  uip := uipConnect appdata
  turn := .outside
  wire := .init
  replaced := false

def Psock.zero : Psock where
  psockpt := .start
  sendptr := .str [] 0
  readptr := 0
  sendlen := 0
  readlen := 0
  buf := { ptr := 0, left := 0 }
  bufsize := 0
  state := .none

def IrcState.zero : IrcState where
  connected := false
  pt := .nick
  psock := .zero
  outPt := .message
  psockOut := .zero
  inputbuffer := List.replicate 128 0

def Messages.zero : Messages where
  messagebuffer := .fill _ 0
  messagelength := 0
  printflength := 0
  logged := []
  queued := []
  displayed := false

end FxIP
