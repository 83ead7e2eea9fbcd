import FxIP.Irc.Parse
import FxIP.Psock

/-!
# The IRC client

The threads of `irc.c` and their global `messagebuffer`. `irc_thread` is cut
into its statements, so that its turn in a call of the application is one step
after another until a statement waits.
-/

namespace FxIP

def SIZEOF_MESSAGEBUFFER : Nat := 256

/-- The globals of `irc.h`, with what happened to them: the calls of
`ui_write_log`, the texts queued, and whether `messagebuffer` was used for a
text to display since a text was last queued. -/
structure Messages where
  messagebuffer : Buffer UInt8 SIZEOF_MESSAGEBUFFER
  messagelength : Nat
  printflength : Nat
  logged : List UiWriteLog
  queued : List (List UInt8)
  displayed : Bool
  deriving Repr, DecidableEq

/-- The result is the length of the text, whether it fits or not. -/
def snprintf {n : Nat} (buffer : Buffer UInt8 n) (size : Nat) (text : List UInt8) :
    Nat × Buffer UInt8 n :=
  (text.length, buffer.write (text.take (size - 1) ++ [0]))

def Messages.writeLog (m : Messages) (call : UiWriteLog) : Messages :=
  { m with logged := m.logged ++ [call] }

/-- A text is formatted in `messagebuffer` and written to the log. -/
def Messages.display (m : Messages) (text : List UInt8) : Messages :=
  let (n, messagebuffer) := snprintf m.messagebuffer (SIZEOF_MESSAGEBUFFER - 1) text
  let printflength := min SIZEOF_MESSAGEBUFFER (u16 n)
  let m := { m with messagebuffer, printflength, displayed := true }
  m.writeLog ⟨PAGE_IRC_CHANNEL, messagebuffer.cells, printflength⟩

/-- A text is formatted in `messagebuffer` to be sent. -/
def Messages.queue (m : Messages) (size : Nat) (text : List UInt8) : Messages :=
  let (n, messagebuffer) := snprintf m.messagebuffer size text
  let messagelength := min SIZEOF_MESSAGEBUFFER (u16 n)
  { m with messagebuffer, messagelength, queued := m.queued ++ [text], displayed := false }

def pong (arguments : List UInt8) : List UInt8 := ascii "PONG " ++ arguments

/-- What `irc_parse_command` does in the end. -/
def Messages.perform (m : Messages) : IrcAction → Messages
  | .nothing => m
  | .writeLog call => m.writeLog call
  | .display text => m.display text
  | .reply arguments => m.queue (SIZEOF_MESSAGEBUFFER - 1) (pong arguments)

def ircUsername : List UInt8 := ascii "CasioFXIRC"

def privmsg (input : List UInt8) : List UInt8 := ascii "PRIVMSG ##whitequark :" ++ input

def uiPageIrcMessageSubmit (m : Messages) (inputBuffer : List UInt8) : Messages :=
  let m := m.display (ascii "<" ++ ircUsername ++ ascii "> " ++ inputBuffer)
  m.queue SIZEOF_MESSAGEBUFFER (privmsg inputBuffer)

-- ---------------------------------------------------------------------------
-- The threads
-- ---------------------------------------------------------------------------

/-- The statements of `irc_thread`. It can wait at all but the last. -/
inductive IrcPt
  | nick
  | user
  | readto1
  | join
  | readto2
  | readto
  | parse
  deriving Repr, DecidableEq

/-- The statements at which `irc_send_thread` can wait. -/
inductive IrcOutPt
  | message
  | crlf
  deriving Repr, DecidableEq

/-- `pt` and `outPt` are the protothreads in `psock` and `psock_out`. -/
structure IrcState where
  connected : Bool
  pt : IrcPt
  psock : Psock
  outPt : IrcOutPt
  psockOut : Psock
  inputbuffer : List UInt8
  deriving Repr, DecidableEq

def nickLine : List UInt8 := ascii "nick CasioFXIRC\r\n"
def userLine : List UInt8 := ascii "user CasioFXIRC 0 0 CasioFX\r\n"
def joinLine : List UInt8 := ascii "JOIN ##whitequark\r\n"
def crlf : List UInt8 := ascii "\r\n"

/-- `PSOCK_SEND_STR` in `irc_thread`. The `Bool` tells whether it goes on. -/
def ircThreadSend (m : Messages) (s : IrcState) (uip : Uip) (line : List UInt8) (next : IrcPt) :
    Comp (Bool × IrcState × Uip) := do
  let (result, psock, uip) ← psockSend m.messagebuffer.cells s.psock uip (.str line 0) line.length
  if result = .waiting then pure (false, { s with psock }, uip)
  else pure (true, { s with psock, pt := next }, uip)

/-- `PSOCK_READTO` in `irc_thread`. -/
def ircThreadReadto (s : IrcState) (uip : Uip) (next : IrcPt) : Comp (Bool × IrcState × Uip) := do
  let (result, inputbuffer, psock) ← psockReadto 0x0A s.inputbuffer s.psock uip
  if result = .waiting then pure (false, { s with psock, inputbuffer }, uip)
  else pure (true, { s with psock, inputbuffer, pt := next }, uip)

/-- A statement of `irc_thread`. There is no result where the parser has none. -/
def ircThread (m : Messages) (s : IrcState) (uip : Uip) :
    Comp (Option (Bool × Messages × IrcState × Uip)) :=
  let plain := fun (go, s, uip) => some (go, m, s, uip)
  match s.pt with
  | .nick => plain <$> ircThreadSend m s uip nickLine .user
  | .user => plain <$> ircThreadSend m s uip userLine .readto1
  | .readto1 => plain <$> ircThreadReadto s uip .join
  | .join => plain <$> ircThreadSend m s uip joinLine .readto2
  | .readto2 => plain <$> ircThreadReadto s uip .readto
  | .readto => plain <$> ircThreadReadto s uip .parse
  | .parse => pure do
    let (action, inputbuffer) ← ircParseLine s.inputbuffer (psockDatalen s.psock)
    some (true, m.perform action, { s with inputbuffer, pt := .readto }, uip)

/-- The second half of `irc_send_thread`. -/
def ircSendCrlf (m : Messages) (s : IrcState) (uip : Uip) : Comp (Messages × IrcState × Uip) := do
  let (result, psockOut, uip) ← psockSend m.messagebuffer.cells s.psockOut uip
    (.str crlf 0) crlf.length
  if result = .waiting then pure (m, { s with psockOut, outPt := .crlf }, uip)
  else pure ({ m with messagelength := 0 }, { s with psockOut, outPt := .message }, uip)

def ircSendThread (m : Messages) (s : IrcState) (uip : Uip) : Comp (Messages × IrcState × Uip) :=
  match s.outPt with
  | .message => do
    let (result, psockOut, uip) ←
      psockSend m.messagebuffer.cells s.psockOut uip (.messagebuffer 0) m.messagelength
    if result = .waiting then pure (m, { s with psockOut }, uip)
    else ircSendCrlf m { s with psockOut } uip
  | .crlf => ircSendCrlf m s uip

end FxIP
