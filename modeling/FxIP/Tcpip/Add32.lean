import Mathlib.Algebra.Group.Nat.Defs
import FxIP.Tcpip

/-!
# Sequence numbers

`uip_add32` adds a byte at a time. A sequence number is a number modulo 2³².
-/

namespace FxIP.Tcpip

namespace Seqno

def toNat (n : Seqno) : Nat :=
  n.b0.toNat * 2 ^ 24 + n.b1.toNat * 2 ^ 16 + n.b2.toNat * 2 ^ 8 + n.b3.toNat

def num (n : Seqno) : BitVec 32 := BitVec.ofNat 32 n.toNat

/-- `++n[1]`, with its carry. -/
def inc1 (n : Seqno) : Seqno :=
  let n := { n with b1 := n.b1 + 1 }
  if n.b1 = 0 then { n with b0 := n.b0 + 1 } else n

def inc2 (n : Seqno) : Seqno :=
  let n := { n with b2 := n.b2 + 1 }
  if n.b2 = 0 then n.inc1 else n

def inc3 (n : Seqno) : Seqno :=
  let n := { n with b3 := n.b3 + 1 }
  if n.b3 = 0 then n.inc2 else n

end Seqno

def uipAdd32 (op32 : Seqno) (op16 : UInt16) : Seqno :=
  let acc : Seqno := { op32 with b3 := op32.b3 + wordLo op16, b2 := op32.b2 + wordHi op16 }
  let acc := if acc.b2 < wordHi op16 then acc.inc1 else acc
  if acc.b3 < wordLo op16 then acc.inc2 else acc

namespace Seqno

variable {n m : Seqno}

theorem toNat_lt (n : Seqno) : n.toNat < 2 ^ 32 := by
  have h0 := n.b0.toNat_lt
  have h1 := n.b1.toNat_lt
  have h2 := n.b2.toNat_lt
  have h3 := n.b3.toNat_lt
  rw [toNat]
  omega

theorem succ_cases (b : UInt8) :
    ¬ b + 1 = 0 ∧ (b + 1).toNat = b.toNat + 1 ∨ b + 1 = 0 ∧ (b + 1).toNat = 0 ∧ b.toNat = 255 := by
  have hlt := b.toNat_lt
  have hadd : (b + 1).toNat = (b.toNat + 1) % 256 := UInt8.toNat_add b 1
  have hzero : b + 1 = 0 ↔ (b + 1).toNat = 0 := UInt8.toNat_inj.symm
  rw [hzero]
  omega

theorem toNat_inc1 (n : Seqno) : n.inc1.toNat % 2 ^ 32 = (n.toNat + 2 ^ 16) % 2 ^ 32 := by
  have h0 := succ_cases n.b0
  rcases succ_cases n.b1 with ⟨hcarry, h1⟩ | ⟨hcarry, h1, h1'⟩
  · simp only [inc1, if_neg hcarry, toNat]
    omega
  · simp only [inc1, if_pos hcarry, toNat]
    omega

theorem toNat_inc2 (n : Seqno) : n.inc2.toNat % 2 ^ 32 = (n.toNat + 2 ^ 8) % 2 ^ 32 := by
  rcases succ_cases n.b2 with ⟨hcarry, h2⟩ | ⟨hcarry, h2, h2'⟩
  · simp only [inc2, if_neg hcarry, toNat]
    omega
  · simp only [inc2, if_pos hcarry, toNat_inc1]
    simp only [toNat]
    omega

theorem num_eq {k : Nat} (h : n.toNat % 2 ^ 32 = (m.toNat + k) % 2 ^ 32) :
    n.num = m.num + BitVec.ofNat 32 k := by
  rw [num, num, ← BitVec.ofNat_add]
  apply BitVec.eq_of_toNat_eq
  rw [BitVec.toNat_ofNat, BitVec.toNat_ofNat, h]

end Seqno

theorem add_cases (a b : UInt8) :
    ¬ a + b < b ∧ (a + b).toNat = a.toNat + b.toNat ∨ a + b < b ∧
      (a + b).toNat + 256 = a.toNat + b.toNat := by
  have ha := a.toNat_lt
  have hb := b.toNat_lt
  have hadd : (a + b).toNat = (a.toNat + b.toNat) % 256 := UInt8.toNat_add a b
  rw [UInt8.lt_iff_toNat_lt]
  omega

theorem toNat_carry2 (n : Seqno) (hi : UInt8) :
    (if n.b2 + hi < hi then { n with b2 := n.b2 + hi }.inc1 else { n with b2 := n.b2 + hi }).toNat %
      2 ^ 32 =
      (n.toNat + hi.toNat * 2 ^ 8) % 2 ^ 32 := by
  rcases add_cases n.b2 hi with ⟨hcarry, h⟩ | ⟨hcarry, h⟩
  · rw [if_neg hcarry]
    simp only [Seqno.toNat]
    omega
  · rw [if_pos hcarry, Seqno.toNat_inc1]
    simp only [Seqno.toNat]
    omega

@[simp] theorem b3_inc1 (n : Seqno) : n.inc1.b3 = n.b3 := by
  rw [Seqno.inc1]
  split <;> rfl

theorem num_uipAdd32 (op32 : Seqno) (op16 : UInt16) :
    (uipAdd32 op32 op16).num = op32.num + BitVec.ofNat 32 op16.toNat := by
  have hsplit := Nat.div_add_mod op16.toNat 256
  have hhi := toNat_carry2 { op32 with b3 := op32.b3 + wordLo op16 } (wordHi op16)
  rw [toNat_wordHi] at hhi
  have hb3 : (if op32.b2 + wordHi op16 < wordHi op16 then
      { op32 with b3 := op32.b3 + wordLo op16, b2 := op32.b2 + wordHi op16 : Seqno }.inc1
      else { op32 with b3 := op32.b3 + wordLo op16, b2 := op32.b2 + wordHi op16 }).b3 =
        op32.b3 + wordLo op16 := by
    split
    · exact b3_inc1 _
    · rfl
  have hlo := add_cases op32.b3 (wordLo op16)
  rw [toNat_wordLo] at hlo
  apply Seqno.num_eq
  simp only [uipAdd32, hb3]
  rcases hlo with ⟨hcarry, h⟩ | ⟨hcarry, h⟩
  · rw [if_neg hcarry, hhi]
    simp only [Seqno.toNat]
    omega
  · rw [if_pos hcarry, Seqno.toNat_inc2, Nat.add_mod, hhi]
    simp only [Seqno.toNat]
    omega

end FxIP.Tcpip
