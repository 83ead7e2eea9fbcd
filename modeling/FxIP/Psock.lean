import FxIP.Lib.Comp
import FxIP.Uip

/-!
# Protosockets

`psock.c` as written, for the parts that the IRC client uses. A protothread is
resumed where it waited; each of these functions has one place to wait. The
memory a socket reads into starts at its `bufptr`.
-/

namespace FxIP

/-- `STATE_NONE` and so on. -/
inductive PsockState
  | none
  | acked
  | read
  | blockedNewdata
  | dataSent
  deriving Repr, DecidableEq

/-- The local continuation of `psock_send` or `psock_readto`. -/
inductive Psockpt
  | start
  | wait
  deriving Repr, DecidableEq

/-- `PT_WAITING` and so on. -/
inductive PtResult
  | waiting
  | exited
  | ended
  deriving Repr, DecidableEq

/-- A pointer to what is sent: into `messagebuffer`, or into a string. -/
inductive Sendptr
  | messagebuffer (offset : Nat)
  | str (s : List UInt8) (offset : Nat)
  deriving Repr, DecidableEq

def Sendptr.data (messagebuffer : List UInt8) : Sendptr → List UInt8
  | .messagebuffer offset => messagebuffer.drop offset
  | .str s offset => s.drop offset

def Sendptr.advance (n : Nat) : Sendptr → Sendptr
  | .messagebuffer offset => .messagebuffer (offset + n)
  | .str s offset => .str s (offset + n)

structure PsockBuf where
  ptr : Nat
  left : Nat
  deriving Repr, DecidableEq

/-- `readptr` is a cell of `uip_appdata`. -/
structure Psock where
  psockpt : Psockpt
  sendptr : Sendptr
  readptr : Nat
  sendlen : Nat
  readlen : Nat
  buf : PsockBuf
  bufsize : Nat
  state : PsockState
  deriving Repr, DecidableEq

def psockInit (psock : Psock) (buffersize : Nat) : Psock :=
  { psock with
    state := .none
    readlen := 0
    bufsize := buffersize
    buf := { ptr := 0, left := buffersize }
    psockpt := .start }

-- ---------------------------------------------------------------------------
-- Sending
-- ---------------------------------------------------------------------------

variable (messagebuffer : List UInt8)

def sendData (s : Psock) (uip : Uip) : Bool × Psock × Uip :=
  if s.state ≠ .dataSent ∨ uip.flags.rexmit then
    let data := s.sendptr.data messagebuffer
    let uip := if s.sendlen > uip.conn.mss then uipSend uip data uip.conn.mss
      else uipSend uip data s.sendlen
    (true, { s with state := .dataSent }, uip)
  else (false, s, uip)

def dataAcked (s : Psock) (uip : Uip) : Bool × Psock :=
  if s.state = .dataSent ∧ uip.flags.acked then
    let n := if s.sendlen > uip.conn.mss then uip.conn.mss else s.sendlen
    (true, { s with sendlen := s.sendlen - n, sendptr := s.sendptr.advance n, state := .acked })
  else (false, s)

/-- The wait in the loop of `psock_send`, left to go round or to return. -/
def psockSendWait (s : Psock) (uip : Uip) : (Psock × Uip) ⊕ (PtResult × Psock × Uip) :=
  let (acked, s) := dataAcked s uip
  let (sent, s, uip) := sendData messagebuffer s uip
  if acked && sent then .inl (s, uip) else .inr (.waiting, { s with psockpt := .wait }, uip)

def psockSendRound : Psock × Uip → (Psock × Uip) ⊕ (PtResult × Psock × Uip)
  | (s, uip) =>
    if s.sendlen > 0 then psockSendWait messagebuffer s uip
    else .inr (.ended, { s with state := .none, psockpt := .start }, uip)

def psockSendLoop (s : Psock × Uip) : Comp (PtResult × Psock × Uip) :=
  Comp.loop (fun s => pure (psockSendRound messagebuffer s)) s

def psockSend (s : Psock) (uip : Uip) (buf : Sendptr) (len : Nat) : Comp (PtResult × Psock × Uip) :=
  match s.psockpt with
  | .start =>
    if len = 0 then pure (.exited, s, uip)
    else
      psockSendLoop messagebuffer ({ s with sendptr := buf, sendlen := len, state := .none }, uip)
  | .wait =>
    match psockSendWait messagebuffer s uip with
    | .inl again => psockSendLoop messagebuffer again
    | .inr result => pure result

-- ---------------------------------------------------------------------------
-- Reading
-- ---------------------------------------------------------------------------

/-- `BUF_FOUND` and `BUF_FULL`, one field a bit. -/
structure BufResult where
  found : Bool
  full : Bool
  deriving Repr, DecidableEq

/-- The second loop of `buf_bufto`: what does not fit is skipped up to the end
marker. -/
def bufSkip (endmarker : UInt8) : List UInt8 → BufResult × List UInt8
  | [] => (⟨false, true⟩, [])
  | c :: data => if c = endmarker then (⟨true, true⟩, data) else bufSkip endmarker data

/-- The data are the `*datalen` bytes at `*dataptr`; the result has those left. -/
def bufBufto (endmarker : UInt8) (memory : List UInt8) (buf : PsockBuf) :
    List UInt8 → BufResult × List UInt8 × PsockBuf × List UInt8
  | [] => (⟨false, false⟩, memory, buf, [])
  | c :: data =>
    if buf.left > 0 then
      let memory := memory.set buf.ptr c
      let buf := { ptr := buf.ptr + 1, left := buf.left - 1 }
      if c = endmarker then (⟨true, false⟩, memory, buf, data)
        else bufBufto endmarker memory buf data
    else
      let (result, data) := bufSkip endmarker (c :: data)
      (result, memory, buf, data)

def psockDatalen (s : Psock) : Nat := s.bufsize - s.buf.left

def psockNewdata (s : Psock) (uip : Uip) : Bool × Psock :=
  if s.readlen > 0 then (true, s)
  else if s.state = .read then (false, { s with state := .blockedNewdata })
  else (uip.flags.newdata, s)

/-- The end of a round of `psock_readto`. -/
def psockReadtoBuf (c : UInt8) (memory : List UInt8) (s : Psock) (uip : Uip) :
    (List UInt8 × Psock) ⊕ (PtResult × List UInt8 × Psock) :=
  let (result, memory, buf, rest) :=
    bufBufto c memory s.buf ((uip.appdata.cells.drop s.readptr).take s.readlen)
  let s := { s with buf, readptr := s.readptr + (s.readlen - rest.length), readlen := rest.length }
  if !result.found then .inl (memory, s)
  else if psockDatalen s = 0 then .inr (.waiting, memory,
    { s with state := .none, psockpt := .start })
  else .inr (.ended, memory, { s with psockpt := .start })

/-- The wait in the loop of `psock_readto`, and the rest of its round. -/
def psockReadtoWait (c : UInt8) (memory : List UInt8) (s : Psock) (uip : Uip) :
    (List UInt8 × Psock) ⊕ (PtResult × List UInt8 × Psock) :=
  let (new, s) := psockNewdata s uip
  if new then
    psockReadtoBuf c memory { s with state := .read, readptr := 0, readlen := uip.len } uip
  else .inr (.waiting, memory, { s with psockpt := .wait })

def psockReadtoRound (c : UInt8) (uip : Uip) :
    List UInt8 × Psock → (List UInt8 × Psock) ⊕ (PtResult × List UInt8 × Psock)
  | (memory, s) =>
    if s.readlen = 0 then psockReadtoWait c memory s uip else psockReadtoBuf c memory s uip

def psockReadtoLoop (c : UInt8) (uip : Uip) (s : List UInt8 × Psock) :
    Comp (PtResult × List UInt8 × Psock) :=
  Comp.loop (fun s => pure (psockReadtoRound c uip s)) s

def psockReadto (c : UInt8) (memory : List UInt8) (s : Psock) (uip : Uip) :
    Comp (PtResult × List UInt8 × Psock) :=
  match s.psockpt with
  | .start => psockReadtoLoop c uip (memory, { s with buf := { ptr := 0, left := s.bufsize } })
  | .wait =>
    match psockReadtoWait c memory s uip with
    | .inl again => psockReadtoLoop c uip again
    | .inr result => pure result

end FxIP
