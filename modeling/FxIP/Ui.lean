import FxIP.Objectlog.Read

/-!
# The message log of the user interface

`ui_write_log`, `ui_objectlog_get_message` and `ui_render_logs` of `ui.c` as
written. A message is an object whose first bytes are the packed
`message_hdr_t`. What the display library computes is a parameter.
-/

namespace FxIP

open Circular

/-- Conversion to `uint8_t`. -/
def u8 (z : Int) : Nat := (z % 256).toNat

structure MessageHdr where
  pageId : UInt8
  type : UInt8
  channel : UInt8
  deriving Repr, DecidableEq

def MessageHdr.bytes (hdr : MessageHdr) : List UInt8 := [hdr.pageId, hdr.type, hdr.channel]

def SIZEOF_MESSAGE_HDR : Nat := 3

/-- `objectlog` on its storage of 2048 zeroed cells. -/
def uiInit : Objectlog := objectlogInit (List.replicate 2048 0) 2048

def uiWriteLog (objectlog : Objectlog) (hdr : MessageHdr) (data : List UInt8) : Comp Objectlog := do
  let (_, objectlog) ← objectlogWriteScatteredObject objectlog [hdr.bytes, data]
  pure objectlog

/-- The locals of the header loop, and the memory behind `hdr`. `ptr` is a
cell of the storage. -/
structure HdrState where
  hdr : List UInt8
  bytesRead : Nat
  ptr : Nat
  length : Nat

/-- A round of the header loop. `iter` stays what `objectlog_iterator` gave,
for which the fragment is never NULL. -/
def messageHdrRound (log : Objectlog) (iter : Int) (s : HdrState) : HdrState ⊕ HdrState :=
  let (ptr, length) := (objectlogGetFragment log iter).getD (0, 0)
  let cpylen := u8 (min (SIZEOF_MESSAGE_HDR - s.bytesRead) length : Nat)
  let hdr := overwrite s.hdr s.bytesRead (fragmentBytes log.ring (ptr, cpylen))
  let bytesRead := u8 (s.bytesRead + cpylen)
  let s := { hdr, bytesRead, ptr, length }
  if bytesRead < SIZEOF_MESSAGE_HDR then .inl s else .inr s

structure OffsetState where
  iter : Int
  ptr : Nat
  length : Nat
  offset : Nat

/-- A round of the loop over `offset`, which leaves with `none` where the
function returns NULL. -/
def messageOffsetRound (objectlog : Objectlog) (s : OffsetState) :
    OffsetState ⊕ Option OffsetState :=
  if s.offset = 0 then .inr (some s)
  else
    let readLen := if s.length > s.offset then s.offset else s.length
    let offset := s.offset - readLen
    let length := s.length - readLen
    if length = 0 then
      let iter := objectlogNext objectlog s.iter
      if iter ≤ 0 then .inr none
      else
        let (ptr, length) := (objectlogGetFragment objectlog iter).getD (0, 0)
        .inl { iter, ptr, length, offset }
    else .inl { s with ptr := s.ptr + readLen, length, offset }

/-- What the caller has afterwards: the memory behind `hdr`, and the pointer,
`*len` and `*riter` unless the pointer is NULL. -/
structure MessageResult where
  hdr : List UInt8
  fragment : Option (Nat × Nat × Int)

/-- In every call `log` is the global `objectlog`. -/
def uiObjectlogGetMessage (log : Objectlog) (objectIdx : Int) (offset : Nat) (hdr : List UInt8) :
    Comp (MessageResult × Objectlog) := do
  let (iter, log) ← objectlogIterator log objectIdx
  if iter < 0 then pure ({ hdr, fragment := none }, log)
  else do
    let s ← Comp.loop (fun s => pure (messageHdrRound log iter s))
      { hdr, bytesRead := 0, ptr := 0, length := 0 }
    let found ← Comp.loop (fun s => pure (messageOffsetRound log s))
      { iter, ptr := s.ptr + s.bytesRead, length := u8 (s.length - s.bytesRead), offset }
    pure ({ hdr := s.hdr, fragment := found.map fun s => (s.ptr, s.length, s.iter) }, log)

-- ---------------------------------------------------------------------------
-- Pages
-- ---------------------------------------------------------------------------

def UI_DISPLAY_PIXEL_X : Nat := 128
def UI_DISPLAY_LINES : Nat := 7
def UI_DISPLAY_CHARS : Nat := 21

structure Page where
  id : UInt8
  key : Int
  inputEnabled : Bool
  inputBuffer : List UInt8
  inputBufferSize : Nat
  inputOffset : Nat
  inputScrollOffset : Nat
  scrollX : Nat
  deriving Repr, DecidableEq

/-- Conversion to `int`. -/
def toInt (z : Int) : Int := (z + 2147483648) % 4294967296 - 2147483648

/-- A call of `dtext_opt` for the `len` bytes at cell `ptr`. -/
structure Draw where
  x : Nat
  y : Nat
  ptr : Nat
  len : Nat
  deriving Repr, DecidableEq

/-- A line counted in `lines_drawn`: where the message starts, none if it is
scrolled out, and what was drawn up to `pencil_x`. -/
structure RenderedLine where
  iter : Option Int
  pencilY : Nat
  draws : List Draw
  pencilX : Nat
  deriving Repr, DecidableEq

structure DrawState where
  ptr : Nat
  length : Nat
  iter : Int
  pencilX : Nat
  draws : List Draw

/-- A round of the loop over the fragments of a message. `dnsize` gives the
width of a text. -/
def renderFragmentRound (dnsize : List UInt8 → Int) (objectlog : Objectlog) (pencilY : Nat)
    (s : DrawState) :
    DrawState ⊕ (List Draw × Nat) :=
  let draws := if s.length = 0 then s.draws else s.draws ++ [⟨s.pencilX, pencilY, s.ptr, s.length⟩]
  let pencilX :=
    if s.length = 0 then s.pencilX
    else u8 (s.pencilX + dnsize (fragmentBytes objectlog.ring (s.ptr, s.length)))
  if s.length ≠ 0 ∧ pencilX > UI_DISPLAY_PIXEL_X then .inr (draws, pencilX)
  else
    let iter := objectlogNext objectlog s.iter
    if iter ≥ 0 then
      let (ptr, length) := (objectlogGetFragment objectlog iter).getD (0, 0)
      .inl { ptr, length, iter, pencilX, draws }
    else .inr (draws, pencilX)

structure RenderState where
  i : Nat
  objectlog : Objectlog
  linesDrawn : Nat
  lines : List RenderedLine

def maxLines (page : Page) : Nat :=
  if page.inputEnabled then UI_DISPLAY_LINES - 1 else UI_DISPLAY_LINES

/-- A round of the loop over the log. `hdr` starts with `page_id` 0xFF; its
other fields are not read. -/
def renderRound (dnsize : List UInt8 → Int) (page : Page) (s : RenderState) :
    Comp (RenderState ⊕ (List RenderedLine × Objectlog)) :=
  if s.i < s.objectlog.numEntries ∧ s.linesDrawn < maxLines page then do
    let pencilY := u8 ((maxLines page - s.linesDrawn) * 8)
    let (message, objectlog) ←
      uiObjectlogGetMessage s.objectlog (toInt (u32 (-s.i))) page.scrollX [0xFF, 0, 0]
    let s := { s with i := u32 (s.i + 1), objectlog }
    if message.hdr.head? = some page.id then
      match message.fragment with
      | none =>
        pure (.inl { s with
          linesDrawn := u16 (s.linesDrawn + 1), lines := s.lines ++ [⟨none, pencilY, [], 0⟩] })
      | some (ptr, length, iter) => do
        let (draws, pencilX) ← Comp.loop (fun s =>
          pure (renderFragmentRound dnsize objectlog pencilY s))
          { ptr, length, iter, pencilX := 0, draws := [] }
        pure (.inl { s with
          linesDrawn := u16 (s.linesDrawn + 1),
            lines := s.lines ++ [⟨some iter, pencilY, draws, pencilX⟩] })
    else pure (.inl s)
  else pure (.inr (s.lines, s.objectlog))

def uiRenderLogs (dnsize : List UInt8 → Int) (objectlog : Objectlog) (page : Page) :
    Comp (List RenderedLine × Objectlog) :=
  Comp.loop (renderRound dnsize page) { i := 0, objectlog, linesDrawn := 0, lines := [] }

end FxIP
