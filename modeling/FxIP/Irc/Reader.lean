import FxIP.Irc.Line
import FxIP.Irc.Readto
import FxIP.Irc.Steps

/-!
# The bytes of the server

The client with a record of what the server's segments brought and of the lines
taken from it: by the two statements of the login that read a line, and by the
calls of `irc_parse_line`. Such a call returns, and may do anything to the
globals and to the line buffer.
-/

namespace FxIP

open Lines

/-- `inputbuffer` in the state of the connection. -/
def SIZEOF_INPUTBUFFER : Nat := 128

/-- The line in the buffer, as the statement gets it. -/
structure TakenLine where
  statement : IrcPt
  bytes : List UInt8
  length : Nat
  deriving Repr, DecidableEq

def IrcState.line (app : IrcState) (statement : IrcPt) : TakenLine :=
  ⟨statement, app.inputbuffer.take (psockDatalen app.psock), psockDatalen app.psock⟩

structure IrcReader where
  sys : IrcSystem
  received : List UInt8
  lines : List TakenLine
  deriving Repr, DecidableEq

def IrcEvent.payload : IrcEvent → List UInt8
  | .segment _ _ payload => payload
  | _ => []

/-- A statement of the login that reads a line has read it. -/
def IrcReader.read (r : IrcReader) (s : IrcSystem) : List TakenLine :=
  if (r.sys.app.pt = .readto1 ∨ r.sys.app.pt = .readto2) ∧ s.app.pt ≠ r.sys.app.pt then
    [s.app.line r.sys.app.pt]
  else []

inductive ReaderStep (r : IrcReader) : IrcEvent → IrcReader → Prop
  | parse (m : Messages) (inputbuffer : List UInt8) : r.sys.turn = .thread → r.sys.app.pt = .parse →
      inputbuffer.length = r.sys.app.inputbuffer.length →
      ReaderStep r .thread { r with
        sys := { r.sys with messages := m, app := { r.sys.app with inputbuffer, pt := .readto } }
        lines := r.lines ++ [r.sys.app.line .parse] }
  | step (e : IrcEvent) (s : IrcSystem) : ¬ (r.sys.turn = .thread ∧ r.sys.app.pt = .parse) →
      e.payload.length ≤ UIP_APPDATA_SIZE → IrcStep r.sys e s →
      ReaderStep r e { sys := s, received := r.received ++ e.payload, lines := r.lines ++ r.read s }

variable {r u : IrcReader} {s t : IrcSystem} {e : IrcEvent} {rest text line : List UInt8}
    {uip : Uip} {next : IrcPt}

theorem IrcStep.event_thread (h : IrcStep s e t) (hturn : s.turn = .thread) : e = .thread := by
  cases h.kind with
  | thread => rfl
  | _ => exact absurd (hturn.symm.trans ‹s.turn = _›) Turn.noConfusion

theorem readerStep_of_parse (hturn : r.sys.turn = .thread) (hpt : r.sys.app.pt = .parse)
    (hstep : IrcStep r.sys .thread s) :
    ReaderStep r .thread { r with sys := s, lines := r.lines ++ [r.sys.app.line .parse] } := by
  cases hstep.kind with
  | quiet _ _ hout => cases hout.symm.trans hturn
  | call _ _ hout => cases hout.symm.trans hturn
  | synack _ _ hout => cases hout.symm.trans hturn
  | close _ _ hout => cases hout.symm.trans hturn
  | thread go m app uip _ hthread heq =>
    have hparse := (ircThread_parse hpt hthread).symm
    rw [Option.map_eq_some_iff] at hparse
    obtain ⟨⟨action, inputbuffer⟩, hline, hresult⟩ := hparse
    cases hresult
    have h := ReaderStep.parse (r.sys.messages.perform action) inputbuffer hturn hpt
      (ircParseLine_length hline)
    rw [heq]
    cases hsys : r.sys
    simp_all

/-- A step with the parser as written, and a bound on the rounds of the loops. -/
def IrcReader.stepRun (n : Nat) (r : IrcReader) (e : IrcEvent) : Option IrcReader :=
  if e.payload.length ≤ UIP_APPDATA_SIZE then
    (r.sys.stepRun n e).map fun s => {
      sys := s
      received := r.received ++ e.payload
      lines := r.lines ++
        if r.sys.turn = .thread ∧ r.sys.app.pt = .parse then [r.sys.app.line .parse]
        else r.read s }
  else none

theorem readerStep_of_stepRun {n : Nat} (r : IrcReader) (e : IrcEvent) (u : IrcReader)
    (h : r.stepRun n e = some u) : ReaderStep r e u := by
  rw [IrcReader.stepRun] at h
  split at h
  · rename_i hsize
    obtain ⟨s, hs, rfl⟩ := Option.map_eq_some_iff.mp h
    have hstep := ircStep_of_stepRun _ _ _ hs
    split
    · rename_i hparse
      obtain rfl := hstep.event_thread hparse.1
      have hpayload : IrcEvent.thread.payload = [] := rfl
      rw [hpayload, List.append_nil]
      exact readerStep_of_parse hparse.1 hparse.2 hstep
    · rename_i hparse
      exact .step e s hparse hsize hstep
  · cases h

end FxIP
