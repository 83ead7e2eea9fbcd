import FxIP.Lib.Circular

/-!
# The SLIP device

`slipdev.c` as written: `slipdev_send` as the bytes it puts on the line,
`slipdev_poll` on the bytes that `scif_read` has ready for it.
-/

namespace FxIP

open Circular

def SLIP_END : UInt8 := 0xC0
def SLIP_ESC : UInt8 := 0xDB
def SLIP_ESC_END : UInt8 := 0xDC
def SLIP_ESC_ESC : UInt8 := 0xDD

def UIP_BUFSIZE : Nat := 1500

-- ---------------------------------------------------------------------------
-- Sending
-- ---------------------------------------------------------------------------

def slipdevPutByte (c : UInt8) : List UInt8 :=
  if c = SLIP_END then [SLIP_ESC, SLIP_ESC_END]
  else if c = SLIP_ESC then [SLIP_ESC, SLIP_ESC_ESC]
  else [c]

/-- The packet is the first `uip_len` bytes of `uip_buf`. -/
def slipdevSend (uipBuf : List UInt8) (uipLen : Nat) : List UInt8 :=
  [SLIP_END] ++ (uipBuf.take uipLen).flatMap slipdevPutByte ++ [SLIP_END]

-- ---------------------------------------------------------------------------
-- Receiving
-- ---------------------------------------------------------------------------

structure Slipdev where
  slipBuf : List UInt8
  len : Nat
  lastc : UInt8
  uipBuf : List UInt8
  deriving Repr, DecidableEq

/-- `slip_buf[len] = c`. For `len = UIP_BUFSIZE` that is outside the array, and the
result says nothing about the source: `StaysInside` is that this does not happen. -/
def slipdevStore (dev : Slipdev) (c : UInt8) : Slipdev :=
  let len := dev.len + 1
  { dev with slipBuf := dev.slipBuf.set dev.len c, len := if len > UIP_BUFSIZE then 0 else len }

/-- What a byte that is neither `SLIP_ESC` nor `SLIP_END` is stored as. -/
def slipdevUnescape (lastc c : UInt8) : UInt8 :=
  if lastc = SLIP_ESC then
    if c = SLIP_ESC_END then SLIP_END
    else if c = SLIP_ESC_ESC then SLIP_ESC
    else c
  else c

/-- The result with the state and what is left to read. -/
def slipdevPoll (dev : Slipdev) : List UInt8 → Nat × Slipdev × List UInt8
  | [] => (0, dev, [])
  | c :: readable =>
    if c = SLIP_ESC then slipdevPoll { dev with lastc := c } readable
    else if c = SLIP_END then
      (dev.len,
        { dev with
          lastc := c
          uipBuf := overwrite dev.uipBuf 0 (dev.slipBuf.take dev.len)
          len := 0 },
        readable)
    else slipdevPoll (slipdevStore { dev with lastc := c } (slipdevUnescape dev.lastc c)) readable

def slipdevInit (dev : Slipdev) : Slipdev := { dev with lastc := 0, len := 0 }

-- ---------------------------------------------------------------------------
-- The receiving side over time
-- ---------------------------------------------------------------------------

inductive LineEvent
  | arrive (bytes : List UInt8)
  | poll

/-- The device, what is readable on the line, and the packets that the polls
with a non-zero result left in `uip_buf`. -/
structure Line where
  dev : Slipdev
  readable : List UInt8
  packets : List (List UInt8)

def Line.step (line : Line) : LineEvent → Line
  | .arrive bytes => { line with readable := line.readable ++ bytes }
  | .poll =>
    let (n, dev, readable) := slipdevPoll line.dev line.readable
    { dev, readable
      packets := if n > 0 then line.packets ++ [dev.uipBuf.take n] else line.packets }

def Line.run (line : Line) (events : List LineEvent) : Line := events.foldl Line.step line

def arrivals (events : List LineEvent) : List UInt8 :=
  events.flatMap fun
    | .arrive bytes => bytes
    | .poll => []

section
variable (line : Line) (e : LineEvent) (events events' : List LineEvent) (bytes : List UInt8)
@[simp] theorem run_nil : line.run [] = line := rfl
@[simp] theorem run_cons : line.run (e :: events) = (line.step e).run events := rfl
theorem run_append : line.run (events ++ events') = (line.run events).run events' :=
  List.foldl_append
@[simp] theorem arrivals_nil : arrivals [] = [] := rfl
@[simp] theorem arrivals_arrive : arrivals (.arrive bytes :: events) =
    bytes ++ arrivals events := rfl
@[simp] theorem arrivals_poll : arrivals (.poll :: events) = arrivals events := rfl
end

end FxIP
