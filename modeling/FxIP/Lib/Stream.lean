import Mathlib.Algebra.Group.Nat.Defs
import Mathlib.Data.List.Infix

/-!
# Numbered streams

The elements of a stream have positions, and on the wire the number of a
position, which is the position modulo a power of two. A segment whose position
is near enough to what has come in is known by its number.
-/

universe u

namespace Stream

variable {α : Type u} {w : Nat} {stream stream' got data : List α} {start num : BitVec w}
    {p q n : Nat}

theorem append_prefix (h : got <+: stream) (hdata : data <+: stream.drop got.length) :
    got ++ data <+: stream := by
  obtain ⟨rest, rfl⟩ := h
  rw [List.drop_left] at hdata
  exact (List.prefix_append_right_inj got).mpr hdata

-- ---------------------------------------------------------------------------
-- Numbers
-- ---------------------------------------------------------------------------

/-- The number of a position, where the stream starts at a number. -/
def number (start : BitVec w) (p : Nat) : BitVec w := start + BitVec.ofNat w p

@[simp] theorem number_zero (start : BitVec w) : number start 0 = start := BitVec.add_zero start

theorem number_add (start : BitVec w) (p n : Nat) :
    number start (p + n) = number start p + BitVec.ofNat w n := by
  rw [number, number, BitVec.ofNat_add, BitVec.add_assoc]

/-- Two positions that are less than all numbers apart. -/
def Near (w p q : Nat) : Prop := p < q + 2 ^ w ∧ q < p + 2 ^ w

instance : Decidable (Near w p q) := inferInstanceAs (Decidable (_ ∧ _))

theorem near_of_lt (hp : p < 2 ^ w) (hq : q < 2 ^ w) : Near w p q :=
  ⟨Nat.lt_of_lt_of_le hp (Nat.le_add_left ..), Nat.lt_of_lt_of_le hq (Nat.le_add_left ..)⟩

theorem Near.eq (h : Near w p q) (hnumber : number start p = number start q) : p = q := by
  have hnat : p % 2 ^ w = q % 2 ^ w := by
    have hof := congrArg BitVec.toNat (BitVec.add_right_inj start |>.mp hnumber)
    rwa [BitVec.toNat_ofNat, BitVec.toNat_ofNat] at hof
  obtain ⟨hp, hq⟩ := h
  have hdp := Nat.div_add_mod p (2 ^ w)
  have hdq := Nat.div_add_mod q (2 ^ w)
  rcases Nat.lt_trichotomy (p / 2 ^ w) (q / 2 ^ w) with hlt | heq | hlt
  · have hle := Nat.mul_le_mul_left (2 ^ w) hlt
    rw [Nat.succ_eq_add_one, Nat.mul_add, Nat.mul_one] at hle
    omega
  · rw [heq] at hdp
    omega
  · have hle := Nat.mul_le_mul_left (2 ^ w) hlt
    rw [Nat.succ_eq_add_one, Nat.mul_add, Nat.mul_one] at hle
    omega

-- ---------------------------------------------------------------------------
-- Segments
-- ---------------------------------------------------------------------------

/-- A segment of the stream, near to the first `n` elements: its number and its
data. -/
def Segment (stream : List α) (start : BitVec w) (n : Nat) (num : BitVec w) (data : List α) :
    Prop :=
  ∃ p, num = number start p ∧ Near w p n ∧ data <+: stream.drop p

theorem Segment.append (hsegment : Segment stream start got.length num data) (h : got <+: stream)
    (hnext : num = number start got.length) : got ++ data <+: stream := by
  obtain ⟨p, hnum, hnear, hdata⟩ := hsegment
  obtain rfl := hnear.eq (hnum.symm.trans hnext)
  exact append_prefix h hdata

theorem segment_of_lt (hlen : stream.length < 2 ^ w) (hn : n ≤ stream.length)
    (hnum : num = number start p)
    (hdata : data <+: stream.drop p) (hne : data ≠ []) : Segment stream start n num data := by
  refine ⟨p, hnum, near_of_lt ?_ (Nat.lt_of_le_of_lt hn hlen), hdata⟩
  have hpos := List.length_pos_iff.mpr hne
  have hle := hdata.length_le
  rw [List.length_drop] at hle
  omega

end Stream
