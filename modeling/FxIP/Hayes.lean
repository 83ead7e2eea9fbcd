import FxIP.Lib.Circular
import FxIP.Ringbuffer

/-!
# Responses of the modem

`hayes_read` of `hayes.c` as written, with timeout 0, on what `scif_read`
returns to it one call after another.
-/

namespace FxIP

open Circular

def SIZEOF_HAYES_RESPONSE_BUFFER : Nat := 128

/-- `hayes_response_buffer` with its offset and `echo`, and the cells stored to
so far. A store past the end of the array is dropped. -/
structure Hayes where
  buffer : List UInt8
  offset : Nat
  echo : UInt8
  stores : List Nat
  deriving Repr, DecidableEq

/-- `hayes_response_buffer[offset] = byte`. -/
def Hayes.store (hayes : Hayes) (offset : Nat) (byte : UInt8) : Hayes :=
  { hayes with buffer := hayes.buffer.set offset byte, stores := hayes.stores ++ [offset] }

/-- `hayes_response_buffer[hayes_response_buffer_offset++] = byte`. -/
def Hayes.append (hayes : Hayes) (byte : UInt8) : Hayes :=
  { hayes.store hayes.offset byte with offset := u16 (hayes.offset + 1) }

/-- The loop of `hayes_read`. The results of `scif_read` are bytes, or nothing
where it returns -1. There is no result while the loop waits for more, else it
is `readbuf` as it is left. -/
def hayesLoop (readbuf : List UInt8) (readbuflength : Nat) (hayes : Hayes) :
    List (Option UInt8) → Option (List UInt8) × Hayes
  | [] => (none, hayes)
  | none :: results => hayesLoop readbuf readbuflength hayes results
  | some byte :: results =>
    let hayes := hayes.append byte
    if byte = 0x0A then
      let hayes := hayes.store hayes.offset 0
      if hayes.echo = 0 then
        hayesLoop readbuf readbuflength { hayes with offset := 0, echo := 1 } results
      else
        let n := min (hayes.offset + 1) readbuflength
        (some (overwrite readbuf 0 (hayes.buffer.take n)), hayes)
    else hayesLoop readbuf readbuflength hayes results

/-- `echo` is a `uint8_t`. -/
def hayesRead (buffer readbuf : List UInt8) (readbuflength : Nat) (ignoreEcho : Int)
    (results : List (Option UInt8)) :
    Option (List UInt8) × Hayes :=
  hayesLoop readbuf readbuflength ⟨buffer, 0, UInt8.ofInt ignoreEcho, []⟩ results

end FxIP
