import Mathlib.Logic.Function.Iterate
import Mathlib.Data.Int.ModEq
import FxIP.Ringbuffer

/-!
# Blocks and single bytes

`ringbuffer_write` and `ringbuffer_advance_read` against their loops over
`ringbuffer_write_one` and `ringbuffer_read_one`. A block longer than the ring
is stored from the write pointer on, where the loop would have moved on.
-/

namespace FxIP

open Circular

variable {ring ring' : Ringbuffer} {tape data : List UInt8} {len n : Nat}

/-- `ringbuffer_write_one` for each byte in order. -/
def writeOnes (ring : Ringbuffer) (data : List UInt8) : Ringbuffer :=
  data.foldl ringbufferWriteOne ring

/-- `n` calls of `ringbuffer_read_one`. -/
def readOnes (n : Nat) (ring : Ringbuffer) : Ringbuffer :=
  (fun ring => (ringbufferReadOne ring).2)^[n] ring

/-- A ring on storage of its size, with its pointers inside. -/
structure Ringbuffer.Ok (ring : Ringbuffer) : Prop where
  length : ring.buffer.length = ring.size
  lt : ring.size < 65536
  readPtr : ring.readPtr < ring.size
  writePtr : ring.writePtr < ring.size

-- ---------------------------------------------------------------------------
-- Writing
-- ---------------------------------------------------------------------------

theorem Follows.writeOnes (h : Follows ring tape) (data : List UInt8) :
    Follows (writeOnes ring data) (tape ++ data) ∧ (FxIP.writeOnes ring data).size = ring.size := by
  induction data generalizing ring tape with
  | nil => exact ⟨by simpa [FxIP.writeOnes] using h, rfl⟩
  | cons b data ih =>
    have hrest := ih (h.writeOne b)
    rw [List.append_assoc] at hrest
    exact hrest

/-- Of a block longer than the ring only the last lap is stored, and from the
write pointer on. -/
theorem Follows.write_long_eq (h : Follows ring tape) (hlong : ring.size < data.length) :
    ringbufferWrite ring data = ringbufferWrite ring (data.drop (data.length - ring.size)) := by
  have hw := h.writePtr_lt
  have hlt := h.lt
  have hlap : (data.drop (data.length - ring.size)).length = ring.size := by
    rw [List.length_drop]
    omega
  unfold ringbufferWrite
  simp only [hlap, gt_iff_lt, Nat.lt_irrefl, ↓reduceIte, if_pos hlong]
  rw [if_pos (by omega)]
  by_cases hzero : ring.writePtr = 0
  · -- the lap fits up to the end of the storage
    have hu : u16 ring.size = ring.size := by unfold u16; omega
    have hzero' : u16 0 = 0 := rfl
    rw [if_neg (by omega), hzero, Nat.sub_zero, List.take_of_length_le (Nat.le_of_eq hlap),
      List.drop_eq_nil_of_le (Nat.le_of_eq hlap)]
    simp [hu, hzero']
  · rw [if_pos (by omega)]

theorem Follows.write_long (h : Follows ring tape) (hlong : ring.size < data.length) :
    Follows (ringbufferWrite ring data) (tape ++ data.drop (data.length - ring.size)) := by
  rw [h.write_long_eq hlong]
  exact h.write_block _ (by rw [List.length_drop]; omega)

theorem Follows.write_long_iff (h : Follows ring tape) (hfull : ring.size ≤ tape.length)
    (hlong : ring.size < data.length) :
    (ringbufferWrite ring data).buffer = (FxIP.writeOnes ring data).buffer ∧
      (ringbufferWrite ring data).writePtr = (FxIP.writeOnes ring data).writePtr ↔
        ring.size ∣ data.length := by
  obtain ⟨hones, hsize⟩ := h.writeOnes data
  have hbulk := h.write_long hlong
  have hlap : (data.drop (data.length - ring.size)).length = ring.size := by
    rw [List.length_drop]
    omega
  have hwrite := hbulk.write
  have hwrite' := hones.write
  rw [write_size, List.length_append, hlap, Nat.add_mod_right] at hwrite
  rw [hsize, List.length_append] at hwrite'
  constructor
  · rintro ⟨-, hptr⟩
    rw [hwrite, hwrite'] at hptr
    have hdvd := (Nat.modEq_iff_dvd' (Nat.le_add_right _ _)).mp hptr
    rwa [Nat.add_sub_cancel_left] at hdvd
  · intro hdvd
    -- the laps before the last one come to the same cell
    have hfront : (tape ++ data.take (data.length - ring.size)).length % ring.size =
        tape.length % ring.size := by
      rw [List.length_append, List.length_take, Nat.min_eq_left (Nat.sub_le ..), Nat.add_mod,
        Nat.mod_eq_zero_of_dvd (Nat.dvd_sub hdvd (Nat.dvd_refl _)), Nat.add_zero, Nat.mod_mod]
    have hholds := hbulk.holds.replace_front (tape ++ data.take (data.length - ring.size))
      (by rw [hbulk.length, write_size, hlap]) (by rw [hbulk.length, write_size, hfront])
    rw [List.append_assoc, List.take_append_drop] at hholds
    have hsame : Follows (ringbufferWrite ring data) (tape ++ data) := by
      refine ⟨hbulk.length, hbulk.pos, hbulk.lt, ?_, hholds⟩
      rw [hwrite, write_size, List.length_append, Nat.add_mod, Nat.mod_eq_zero_of_dvd hdvd,
        Nat.add_zero, Nat.mod_mod]
    refine hsame.same hones (by rw [write_size, hsize]) ?_
    rw [write_size, List.length_append]
    exact Nat.le_trans hfull (Nat.le_add_right ..)

theorem Ringbuffer.Ok.write_iff (h : ring.Ok) (data : List UInt8) :
    (ringbufferWrite ring data).buffer = (writeOnes ring data).buffer ∧
      (ringbufferWrite ring data).writePtr = (writeOnes ring data).writePtr ↔
    data.length ≤ ring.size ∨ ring.size ∣ data.length := by
  have hfollows := follows_self h.length h.lt h.writePtr
  have hfull : ring.size ≤ (ring.buffer ++ ring.buffer.take ring.writePtr).length := by
    rw [List.length_append, h.length]
    exact Nat.le_add_right ..
  by_cases hlong : ring.size < data.length
  · rw [hfollows.write_long_iff hfull hlong]
    simp [Nat.not_le.mpr hlong]
  · have hle := Nat.le_of_not_lt hlong
    obtain ⟨hones, hsize⟩ := hfollows.writeOnes data
    refine iff_of_true ((hfollows.write_block data hle).same hones (by rw [write_size, hsize]) ?_)
      (.inl hle)
    rw [write_size, List.length_append]
    exact Nat.le_trans hfull (Nat.le_add_right ..)

-- ---------------------------------------------------------------------------
-- Reading
-- ---------------------------------------------------------------------------

theorem readOnes_succ (n : Nat) (ring : Ringbuffer) :
    readOnes (n + 1) ring = (ringbufferReadOne (readOnes n ring)).2 :=
  Function.iterate_succ_apply' _ n ring

theorem Ringbuffer.Ok.readOnes (h : ring.Ok) (n : Nat) :
    (readOnes n ring).readPtr = (ring.readPtr + n) % ring.size ∧
    (FxIP.readOnes n ring).size = ring.size := by
  induction n with
  | zero => exact ⟨(Nat.mod_eq_of_lt h.readPtr).symm, rfl⟩
  | succ n ih =>
    obtain ⟨hptr, hsize⟩ := ih
    have hmod := Nat.mod_lt (ring.readPtr + n) (Nat.zero_lt_of_lt h.readPtr)
    have hlt := h.lt
    have hu : u16 ((FxIP.readOnes n ring).readPtr + 1) = (ring.readPtr + n) % ring.size + 1 := by
      rw [hptr]
      unfold u16
      omega
    rw [readOnes_succ]
    refine ⟨?_, hsize⟩
    simp only [ringbufferReadOne, hu, hsize, Nat.mod_add_mod, Nat.add_assoc]

/-- What `ringbuffer_advance_read` adds to the read pointer. -/
def advanceBy (ring : Ringbuffer) (len : Nat) : Nat :=
  if len > ring.size then len - ring.size else len

theorem u16_mod_iff {size : Nat} (hn : n < 2 * 65536) :
    u16 n % size = n % size ↔ n < 65536 ∨ size ∣ 65536 := by
  rw [u16_ofNat]
  by_cases hlt : n < 65536
  · rw [Nat.mod_eq_of_lt hlt]
    simp [hlt]
  · have hmod : n % 65536 = n - 65536 := by omega
    rw [hmod]
    have hiff := Nat.modEq_iff_dvd' (n := size) (Nat.sub_le n 65536)
    rw [Nat.sub_sub_self (by omega)] at hiff
    simp only [hlt, false_or]
    exact hiff

theorem Ringbuffer.Ok.advanceRead_iff (h : ring.Ok) (hlen : len < 65536) :
    (ringbufferAdvanceRead ring len).readPtr = (FxIP.readOnes len ring).readPtr ↔
      ring.readPtr + advanceBy ring len < 65536 ∨ ring.size ∣ 65536 := by
  have hread := h.readPtr
  have hlt := h.lt
  have hby : (if len > ring.size then u16 (len - ring.size) else len) = advanceBy ring len := by
    unfold advanceBy u16
    split <;> omega
  have hle : advanceBy ring len ≤ len := by
    unfold advanceBy
    split <;> omega
  have hlap : (ring.readPtr + len) % ring.size = (ring.readPtr + advanceBy ring len) %
      ring.size := by
    unfold advanceBy
    split
    · rw [← Nat.add_sub_assoc (by omega), ← Nat.mod_eq_sub_mod (by omega)]
    · rfl
  rw [(h.readOnes len).1, hlap, ← u16_mod_iff (n := ring.readPtr + advanceBy ring len) (by omega)]
  simp only [ringbufferAdvanceRead, hby, Nat.cast_add]

-- ---------------------------------------------------------------------------
-- Both
-- ---------------------------------------------------------------------------

/-- The operations on a block and on its length leave what the single-byte
operations would. -/
def BulkAgrees (ring : Ringbuffer) (data : List UInt8) : Prop :=
  ((ringbufferWrite ring data).buffer = (writeOnes ring data).buffer ∧
    (ringbufferWrite ring data).writePtr = (writeOnes ring data).writePtr) ∧
  (ringbufferAdvanceRead ring data.length).readPtr = (readOnes data.length ring).readPtr

/-- Exactly the blocks of up to a lap or of whole laps are written alike, and
the read pointer is alike unless 16 bits overflow in a ring whose size does not
divide 65536. -/
theorem bulk_agrees_iff (h : ring.Ok) (hlen : data.length < 65536) :
    BulkAgrees ring data ↔
      (data.length ≤ ring.size ∨ ring.size ∣ data.length) ∧
        (ring.readPtr + advanceBy ring data.length < 65536 ∨ ring.size ∣ 65536) :=
  and_congr (h.write_iff data) (h.advanceRead_iff hlen)

theorem bulk_agrees_iff_three :
    BulkAgrees ⟨[1, 2, 3], 2, 1, 3⟩ [4, 5, 6] ↔
      (3 ≤ 3 ∨ 3 ∣ 3) ∧ (2 + advanceBy ⟨[1, 2, 3], 2, 1, 3⟩ 3 < 65536 ∨ 3 ∣ 65536) :=
  bulk_agrees_iff ⟨rfl, by decide, by decide, by decide⟩ (by decide)

/-- Three bytes in a ring of two. -/
theorem long_block_rotated : ¬ BulkAgrees (ringbufferInit [0, 0] 2) [1, 2, 3] := by
  rintro ⟨⟨hbuffer, -⟩, -⟩
  revert hbuffer
  decide

end FxIP
