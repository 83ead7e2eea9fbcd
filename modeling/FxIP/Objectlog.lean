import FxIP.Lib.Comp
import FxIP.Ringbuffer

/-!
# The object log

`objectlog.c` as written. A log stores objects in a ring as runs of fragments,
each a header byte followed by at most 127 data bytes, none of them across the
end of the storage. Loops that the C code does not bound are `Comp.loop`.
-/

namespace FxIP

/-- Conversion to `unsigned int`. -/
def u32 (z : Int) : Nat := (z % 4294967296).toNat

def MAX_FRAGMENT_LEN : Nat := 0x7f
def FRAGMENT_FINAL : Nat := 0x80
def FRAGMENT_LEN (x : Nat) : Nat := x &&& MAX_FRAGMENT_LEN

def DIV_ROUND_UP (x y : Nat) : Nat := (x + (y - 1)) / y

structure Objectlog where
  ring : Ringbuffer
  ptrFirst : Nat
  ptrLast : Nat
  numEntries : Nat
  deriving Repr, DecidableEq

/-- An entry of a scatter list is the block of `len` bytes at `ptr`. The list
ends at its first empty entry; the one after the last is empty too. -/
abbrev ScatterObject := List UInt8

/-- The log after one round of the walk, to go on or with the offset found. -/
def getNextEntryRound (offset : Nat) (log : Objectlog) : Objectlog ⊕ (Nat × Objectlog) :=
  let hdrPos := log.ring.readPtr
  let (fragmentHdr, ring) := ringbufferReadOne log.ring
  let ring := ringbufferAdvanceRead ring (FRAGMENT_LEN fragmentHdr.toNat)
  let log := { log with ring }
  -- there might be no terminating entry: stop on wrapping across `offset`
  if (hdrPos < offset ∧ ring.readPtr ≥ offset) ∨
      (hdrPos > offset ∧ ring.readPtr ≥ offset ∧ ring.readPtr < hdrPos) then
    .inr (log.ptrFirst, log)
  else if fragmentHdr.toNat &&& FRAGMENT_FINAL = 0 then
    .inl log
  else
    .inr (ring.readPtr, log)

def getNextEntry (log : Objectlog) (offset : Nat) : Comp (Nat × Objectlog) :=
  Comp.loop (fun log => pure (getNextEntryRound offset log))
    { log with ring := { log.ring with readPtr := offset } }

def objectlogSpaceBetween (log : Objectlog) (first second : Nat) : Nat :=
  if second ≥ first then u16 (second - first) else u16 (log.ring.size - first + second)

def dropFirstEntry (log : Objectlog) : Comp Objectlog := do
  let (next, log) ← getNextEntry log log.ptrFirst
  pure { log with ptrFirst := next, numEntries := u32 (log.numEntries - 1) }

def objectlogFreeSpace (log : Objectlog) (offset : Nat) : Nat :=
  objectlogSpaceBetween log offset log.ptrFirst

def fragmentHdr (len : Nat) (final : Bool) : UInt8 :=
  let hdr := UInt8.ofNat (FRAGMENT_LEN len)
  if final then hdr ||| UInt8.ofNat FRAGMENT_FINAL else hdr

def objectlogWriteFragmentHdr (log : Objectlog) (len : Nat) (final : Bool) : Objectlog :=
  { log with ring := ringbufferWriteOne log.ring (fragmentHdr len final) }

def objectlogWriteFragmentData (log : Objectlog) (data : List UInt8) : Objectlog :=
  { log with ring := ringbufferWrite log.ring data }

def objectlogInit (storage : List UInt8) (size : Nat) : Objectlog :=
  { ring := ringbufferInit storage size, ptrFirst := 0, ptrLast := 0, numEntries := 0 }

-- ---------------------------------------------------------------------------
-- Writing
-- ---------------------------------------------------------------------------

/-- `dataLen` with the lengths of the list added, in 16 bits. -/
def scatterLen (dataLen : Nat) : List ScatterObject → Nat
  | [] => dataLen
  | entry :: rest =>
    if entry.length = 0 then dataLen else scatterLen (u16 (dataLen + entry.length)) rest

/-- The space reserved for `dataLen` bytes, in 16 bits: one header for each
fragment, and an extra one if the object wraps. -/
def reservedLen (size logEnd dataLen : Nat) : Nat :=
  let numFragments := u16 (DIV_ROUND_UP dataLen MAX_FRAGMENT_LEN)
  let totalLen := u16 (dataLen + numFragments)
  if logEnd + totalLen > size then u16 (totalLen + 1) else totalLen

/-- Delete the first entry while the object does not fit and there is another. -/
def evictRound (logEnd totalLen : Nat) (s : Objectlog × Nat) :
    Comp ((Objectlog × Nat) ⊕ Objectlog) :=
  let (log, freeSpace) := s
  if freeSpace < totalLen ∧ log.ptrFirst ≠ log.ptrLast then do
    let log ← dropFirstEntry log
    pure (.inl (log, objectlogFreeSpace log logEnd))
  else
    pure (.inr log)

/-- Delete entries from the start of the list until the object fits. -/
def evict (logEnd totalLen : Nat) (log : Objectlog) : Comp Objectlog :=
  Comp.loop (evictRound logEnd totalLen) (log, objectlogFreeSpace log logEnd)

/-- The locals of the copy loop. `data8` is what is left of the scatter entry
the pointer is in. -/
structure CopyState where
  log : Objectlog
  scList : List ScatterObject
  data8 : List UInt8
  dataLen : Nat
  scatterEntryOffset : Nat
  fragmentOffset : Nat
  fragmentLen : Nat

/-- One round of the copy loop: start a fragment if none is open, then copy up
to the end of the fragment or of the scatter entry. -/
def copyRound (s : CopyState) : CopyState ⊕ Objectlog :=
  let scLen := (s.scList.headD []).length
  if scLen = 0 then .inr s.log
  else
    let ring := s.log.ring
    let fragmentLen :=
      if s.fragmentOffset = 0 then
        if (MAX_FRAGMENT_LEN : Int) > ring.size - ring.writePtr - 1 then
          u16 (ring.size - ring.writePtr - 1)
        else MAX_FRAGMENT_LEN
      else s.fragmentLen
    let writeLen :=
      if s.dataLen + s.fragmentOffset > fragmentLen then u16 (fragmentLen - s.fragmentOffset)
      else s.dataLen
    let log :=
      if s.fragmentOffset = 0 then objectlogWriteFragmentHdr s.log writeLen (s.dataLen == writeLen)
      else s.log
    let writeLen :=
      if (writeLen : Int) > scLen - s.scatterEntryOffset then u16 (scLen - s.scatterEntryOffset)
      else writeLen
    let log := objectlogWriteFragmentData log (s.data8.take writeLen)
    let scatterEntryOffset := u16 (s.scatterEntryOffset + writeLen)
    let fragmentOffset := u16 (s.fragmentOffset + writeLen)
    let entryDone := scatterEntryOffset ≥ scLen
    .inl {
      log
      scList := if entryDone then s.scList.tail else s.scList
      data8 := if entryDone then s.scList.tail.headD [] else s.data8.drop writeLen
      dataLen := u16 (s.dataLen - writeLen)
      scatterEntryOffset := if entryDone then 0 else scatterEntryOffset
      fragmentOffset := if fragmentOffset ≥ fragmentLen then 0 else fragmentOffset
      fragmentLen }

def copyScattered (log : Objectlog) (scatterList : List ScatterObject) (dataLen : Nat) :
    Comp Objectlog :=
  Comp.loop (fun s => pure (copyRound s)) {
    log, scList := scatterList, data8 := scatterList.headD [], dataLen
    scatterEntryOffset := 0, fragmentOffset := 0, fragmentLen := 0 }

def objectlogWriteScatteredObject (log : Objectlog) (scatterList : List ScatterObject) :
    Comp (Nat × Objectlog) := do
  let (logEnd, log) ← getNextEntry log log.ptrLast
  let dataLen := scatterLen 0 scatterList
  let totalLen := reservedLen log.ring.size logEnd dataLen
  if totalLen > log.ring.size then
    pure (u16 (log.ring.size - totalLen), log)
  else do
    let log ← evict logEnd totalLen log
    let newLast := log.ring.writePtr
    let log ← copyScattered log scatterList dataLen
    pure (0, { log with ptrLast := newLast, numEntries := u32 (log.numEntries + 1) })

def objectlogWriteObject (log : Objectlog) (data : List UInt8) : Comp (Nat × Objectlog) :=
  objectlogWriteScatteredObject log [data]

-- ---------------------------------------------------------------------------
-- Reading
-- ---------------------------------------------------------------------------

/-- `n` steps of the entry walk. -/
def skipEntries : Nat → Nat → Objectlog → Comp (Nat × Objectlog)
  | 0, stringPtr, log => pure (stringPtr, log)
  | n + 1, stringPtr, log => do
    let (next, log) ← getNextEntry log stringPtr
    skipEntries n next log

def objectlogIterator (log : Objectlog) (objectIdx : Int) : Comp (Int × Objectlog) :=
  let found (n : Nat) : Comp (Int × Objectlog) := do
    let (stringPtr, log) ← skipEntries n log.ptrFirst log
    pure (stringPtr, log)
  if objectIdx < 0 then
    -- the comparison with the unsigned count makes the index unsigned
    if u32 (-objectIdx) ≥ log.numEntries then pure (-1, log)
    else found (u32 (log.numEntries - u32 (-objectIdx)))
  else if u32 objectIdx ≥ log.numEntries then pure (-1, log)
  else found objectIdx.toNat

/-- The cell of the first data byte, and the length; `none` for NULL. -/
def objectlogGetFragment (log : Objectlog) (iterator : Int) : Option (Nat × Nat) :=
  if iterator < 0 then none
  else if iterator > log.ring.size then none
  else some (iterator.toNat + 1, FRAGMENT_LEN (log.ring.cell iterator.toNat).toNat)

def objectlogNext (log : Objectlog) (iterator : Int) : Int :=
  if iterator < 0 then -1
  else if iterator > log.ring.size then -1
  else
    let hdr := (log.ring.cell iterator.toNat).toNat
    if hdr &&& FRAGMENT_FINAL = 0 then (iterator + 1 + FRAGMENT_LEN hdr) % log.ring.size else -2

/-- Add up the fragment sizes while the iterator is not negative. -/
def objectSizeRound (log : Objectlog) (s : Int × Nat) : (Int × Nat) ⊕ Int :=
  let (iter, len) := s
  if iter ≥ 0 then
    match objectlogGetFragment log iter with
    | none => .inr (-1)
    | some (_, fragmentSize) => .inl (objectlogNext log iter, u16 (len + fragmentSize))
  else .inr len

def objectlogGetObjectSize (log : Objectlog) (objectIdx : Int) : Comp (Int × Objectlog) := do
  let (iter, log) ← objectlogIterator log objectIdx
  if iter < 0 then pure (-1, log)
  else do
    let size ← Comp.loop (fun s => pure (objectSizeRound log s)) (iter, 0)
    pure (size, log)

end FxIP
