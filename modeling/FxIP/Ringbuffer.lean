import FxIP.Lib.Circular

/-!
# The ring buffer

`ringbuffer.h` as written: the pointers are 16-bit and wrap as the C code
wraps them, the storage is the array `buffer` points to. `Follows r tape`
says what a ring is for: its storage is the window over everything written.
-/

namespace FxIP

open Circular

/-- Conversion of an `int` to `uint16_t`. -/
def u16 (z : Int) : Nat := (z % 65536).toNat

theorem u16_lt (z : Int) : u16 z < 65536 := by
  unfold u16
  omega

theorem u16_ofNat (n : Nat) : u16 n = n % 65536 := by
  unfold u16
  omega

structure Ringbuffer where
  buffer : List UInt8
  readPtr : Nat
  writePtr : Nat
  size : Nat
  deriving Repr, DecidableEq

def ringbufferInit (buffer : List UInt8) (size : Nat) : Ringbuffer :=
  { buffer, readPtr := 0, writePtr := 0, size }

def ringbufferAvailable (ring : Ringbuffer) : Nat :=
  if ring.writePtr ≥ ring.readPtr then
    u16 (ring.writePtr - ring.readPtr)
  else
    u16 (ring.size - ring.readPtr + ring.writePtr)

/-- The byte at cell `i`; the storage has `size` cells. -/
def Ringbuffer.cell (ring : Ringbuffer) (i : Nat) : UInt8 := ring.buffer.getD i 0

def ringbufferReadOne (ring : Ringbuffer) : UInt8 × Ringbuffer :=
  (ring.cell ring.readPtr, { ring with readPtr := u16 (ring.readPtr + 1) % ring.size })

def ringbufferWriteOne (ring : Ringbuffer) (byte : UInt8) : Ringbuffer :=
  { ring with
    buffer := ring.buffer.set ring.writePtr byte
    writePtr := u16 (ring.writePtr + 1) % ring.size }

/-- `data` is the block with its length `len`. A block longer than the ring
keeps its last `size` bytes. -/
def ringbufferWrite (ring : Ringbuffer) (data : List UInt8) : Ringbuffer :=
  if (ring.size : Int) - ring.writePtr < data.length then
    let data8 := if data.length > ring.size then data.drop (data.length - ring.size) else data
    let room := ring.size - ring.writePtr
    let buffer := overwrite ring.buffer ring.writePtr (data8.take room)
    let rest := data8.drop room
    { ring with
      buffer := overwrite buffer 0 rest
      writePtr := u16 (0 + rest.length) % ring.size }
  else
    { ring with
      buffer := overwrite ring.buffer ring.writePtr data
      writePtr := u16 (ring.writePtr + data.length) % ring.size }

def ringbufferAdvanceRead (ring : Ringbuffer) (len : Nat) : Ringbuffer :=
  let len := if len > ring.size then u16 (len - ring.size) else len
  { ring with readPtr := u16 (ring.readPtr + len) % ring.size }

-- ---------------------------------------------------------------------------
-- What each operation leaves alone
-- ---------------------------------------------------------------------------

section
variable (ring : Ringbuffer) (b : UInt8) (data : List UInt8) (n : Nat)

@[simp] theorem readOne_buffer : (ringbufferReadOne ring).2.buffer = ring.buffer := rfl
@[simp] theorem readOne_writePtr : (ringbufferReadOne ring).2.writePtr = ring.writePtr := rfl
@[simp] theorem readOne_size : (ringbufferReadOne ring).2.size = ring.size := rfl

@[simp] theorem writeOne_readPtr : (ringbufferWriteOne ring b).readPtr = ring.readPtr := rfl
@[simp] theorem writeOne_size : (ringbufferWriteOne ring b).size = ring.size := rfl
@[simp] theorem writeOne_length :
    (ringbufferWriteOne ring b).buffer.length = ring.buffer.length := by
  simp [ringbufferWriteOne]

@[simp] theorem write_readPtr : (ringbufferWrite ring data).readPtr = ring.readPtr := by
  unfold ringbufferWrite
  split <;> rfl

@[simp] theorem write_size : (ringbufferWrite ring data).size = ring.size := by
  unfold ringbufferWrite
  split <;> rfl

@[simp] theorem write_length : (ringbufferWrite ring data).buffer.length = ring.buffer.length := by
  unfold ringbufferWrite
  split <;> simp

@[simp] theorem advanceRead_buffer : (ringbufferAdvanceRead ring n).buffer = ring.buffer := rfl
@[simp] theorem advanceRead_writePtr :
    (ringbufferAdvanceRead ring n).writePtr = ring.writePtr := rfl
@[simp] theorem advanceRead_size : (ringbufferAdvanceRead ring n).size = ring.size := rfl

end

-- ---------------------------------------------------------------------------
-- The ring as a window over everything written
-- ---------------------------------------------------------------------------

/-- The storage holds the last `size` bytes of `tape`, and the write pointer
is at the cell of the next one. -/
structure Follows (ring : Ringbuffer) (tape : List UInt8) : Prop where
  length : ring.buffer.length = ring.size
  pos : 0 < ring.size
  lt : ring.size < 65536
  write : ring.writePtr = tape.length % ring.size
  holds : Holds ring.buffer tape

variable {ring : Ringbuffer} {tape data : List UInt8}

theorem follows_init {storage : List UInt8} {size : Nat} (hlen : storage.length = size)
    (hpos : 0 < size) (hlt : size < 65536) : Follows (ringbufferInit storage size) [] :=
  ⟨hlen, hpos, hlt, by simp [ringbufferInit], holds_nil⟩

theorem follows_self (hlen : ring.buffer.length = ring.size) (hlt : ring.size < 65536)
    (hw : ring.writePtr < ring.size) :
    Follows ring (ring.buffer ++ ring.buffer.take ring.writePtr) := by
  refine ⟨hlen, Nat.zero_lt_of_lt hw, hlt, ?_, holds_self (by omega)⟩
  rw [List.length_append, List.length_take, hlen, Nat.min_eq_left (Nat.le_of_lt hw),
    Nat.add_mod_left, Nat.mod_eq_of_lt hw]

theorem Follows.same {ring' : Ringbuffer} (h : Follows ring tape) (h' : Follows ring' tape)
    (hsize : ring.size = ring'.size)
    (hfull : ring.size ≤ tape.length) : ring.buffer = ring'.buffer ∧
      ring.writePtr = ring'.writePtr := by
  constructor
  · exact h.holds.unique h'.holds (by rw [h.length, h'.length, hsize]) (h.length ▸ hfull)
  · rw [h.write, h'.write, hsize]

theorem Follows.writePtr_lt (h : Follows ring tape) : ring.writePtr < ring.size :=
  h.write ▸ Nat.mod_lt _ h.pos

theorem Follows.writeOne_eq (h : Follows ring tape) (b : UInt8) :
    ringbufferWriteOne ring b = { ring with
      buffer := ring.buffer.set ring.writePtr b
      writePtr := (ring.writePtr + 1) % ring.size } := by
  have hw := h.writePtr_lt
  have hlt := h.lt
  have hu : u16 (ring.writePtr + 1) = ring.writePtr + 1 := by unfold u16; omega
  simp only [ringbufferWriteOne, hu]

theorem Follows.writeOne (h : Follows ring tape) (b : UInt8) :
    Follows (ringbufferWriteOne ring b) (tape ++ [b]) := by
  have hpush := h.holds.push (x := b) (h.length ▸ h.pos)
  rw [h.length, ← h.write] at hpush
  rw [h.writeOne_eq]
  exact ⟨by simp [h.length], h.pos, h.lt, by simp [h.write], hpush⟩

theorem Follows.write_inside_eq (h : Follows ring tape) (data : List UInt8)
    (hfit : ring.writePtr + data.length ≤ ring.size) :
    ringbufferWrite ring data = { ring with
      buffer := overwrite ring.buffer ring.writePtr data
      writePtr := (ring.writePtr + data.length) % ring.size } := by
  have hlt := h.lt
  have hu : u16 (ring.writePtr + data.length) = ring.writePtr + data.length := by unfold u16; omega
  rw [ringbufferWrite, if_neg (by omega), hu]

theorem Follows.write_inside (h : Follows ring tape) (data : List UInt8)
    (hfit : ring.writePtr + data.length ≤ ring.size) :
    Follows (ringbufferWrite ring data) (tape ++ data) := by
  have happ := h.holds.append data (by rw [h.length, ← h.write]; exact hfit)
  rw [h.length, ← h.write] at happ
  rw [h.write_inside_eq data hfit]
  exact ⟨by simp [h.length], h.pos, h.lt, by simp [h.write], happ⟩

theorem Follows.write_wrap_eq (h : Follows ring tape) (hlen : data.length ≤ ring.size)
    (hwrap : ring.size < ring.writePtr + data.length) :
    ringbufferWrite ring data =
      ringbufferWrite (ringbufferWrite ring (data.take (ring.size - ring.writePtr)))
        (data.drop (ring.size - ring.writePtr)) := by
  have hw := h.writePtr_lt
  have hroom : (data.take (ring.size - ring.writePtr)).length = ring.size - ring.writePtr := by
    simp only [List.length_take]
    omega
  have hrest : (data.drop (ring.size - ring.writePtr)).length + ring.size =
      ring.writePtr + data.length := by
    simp only [List.length_drop]
    omega
  have hend : ring.writePtr + (ring.size - ring.writePtr) = ring.size := by omega
  rw [h.write_inside_eq (data.take (ring.size - ring.writePtr)) (by omega), hroom, hend,
    Nat.mod_self]
  unfold ringbufferWrite
  simp only
  rw [if_pos (by omega), if_neg (by omega), if_neg (by omega)]
  rfl

theorem Follows.write_block (h : Follows ring tape) (data : List UInt8)
    (hlen : data.length ≤ ring.size) :
    Follows (ringbufferWrite ring data) (tape ++ data) := by
  by_cases hfit : ring.writePtr + data.length ≤ ring.size
  · exact h.write_inside data hfit
  have hw := h.writePtr_lt
  have hroom : (data.take (ring.size - ring.writePtr)).length = ring.size - ring.writePtr := by
    simp only [List.length_take]
    omega
  have hend : ring.writePtr + (ring.size - ring.writePtr) = ring.size := by omega
  have h1 := h.write_inside (data.take (ring.size - ring.writePtr)) (by omega)
  have hptr : (ringbufferWrite ring (data.take (ring.size - ring.writePtr))).writePtr = 0 := by
    rw [h.write_inside_eq _ (by omega), hroom, hend, Nat.mod_self]
  have h2 := h1.write_inside (data.drop (ring.size - ring.writePtr)) (by
    rw [hptr, write_size, List.length_drop]
    omega)
  rwa [List.append_assoc, List.take_append_drop, ← h.write_wrap_eq hlen (by omega)] at h2

/-- The bytes available are those from the cell of `a` to the write pointer,
where these are less than a lap. -/
theorem Follows.available (h : Follows ring tape) {a : Nat} (ha : a ≤ tape.length)
    (hlap : tape.length < a + ring.size) (hr : ring.readPtr = a % ring.size) :
    ringbufferAvailable ring = tape.length - a := by
  obtain ⟨k, hk⟩ : ∃ k, tape.length = a + k := ⟨tape.length - a, by omega⟩
  have hlt := h.lt
  have hamod := Nat.mod_lt a h.pos
  have hw := h.write
  rw [hk] at hw
  rcases mod_add_cases (a := a) h.pos (show k ≤ ring.size by omega) with hc | hc <;>
    unfold ringbufferAvailable u16 <;> split <;> omega

theorem Follows.moveReadPtr (h : Follows ring tape) (p : Nat) :
    Follows { ring with readPtr := p } tape :=
  ⟨h.length, h.pos, h.lt, h.write, h.holds⟩

/-- The bytes from the read pointer on, as many as are available. -/
def Ringbuffer.pending (ring : Ringbuffer) : List UInt8 :=
  (List.range (ringbufferAvailable ring)).map fun i => ring.cell ((ring.readPtr + i) % ring.size)

theorem Follows.pending (h : Follows ring tape) {a : Nat} (ha : a ≤ tape.length)
    (hlap : tape.length < a + ring.size) (hr : ring.readPtr = a % ring.size) :
    ring.pending = tape.drop a := by
  unfold Ringbuffer.pending
  rw [h.available ha hlap hr, hr]
  apply List.ext_getElem
  · simp
  · intro i hi _
    simp only [List.length_map, List.length_range] at hi
    have hread := h.holds (a + i) (by omega) (by rw [h.length]; omega)
    rw [h.length, List.getElem?_eq_getElem (show a + i < tape.length by omega)] at hread
    simp only [List.getElem_map, List.getElem_range, List.getElem_drop, Nat.mod_add_mod,
      Ringbuffer.cell, List.getD_eq_getElem?_getD, hread, Option.getD_some]

/-- A read at the cell of a position in the window returns its byte and moves
to the cell of the next. -/
theorem Follows.readOne_eq (h : Follows ring tape) {a : Nat} (ha : a < tape.length)
    (hlap : tape.length ≤ a + ring.size) (hr : ring.readPtr = a % ring.size) :
    ringbufferReadOne ring = (tape[a], { ring with readPtr := (a + 1) % ring.size }) := by
  have hread := h.holds a ha (h.length ▸ hlap)
  have hamod := Nat.mod_lt a h.pos
  have hlt := h.lt
  rw [h.length, List.getElem?_eq_getElem ha] at hread
  have hu : u16 (ring.readPtr + 1) = a % ring.size + 1 := by unfold u16; omega
  simp only [ringbufferReadOne, Ringbuffer.cell, hu, Nat.mod_add_mod]
  rw [hr, List.getD_eq_getElem?_getD, hread, Option.getD_some]

end FxIP
