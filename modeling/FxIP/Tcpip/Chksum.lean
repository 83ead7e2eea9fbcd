import FxIP.Lib.OnesComplement
import FxIP.Tcpip

/-!
# Checksums

`chksum` as written, a word at a time, is the ones' complement sum of the words
at the pointer. What matters for a packet is whether the sum of all its words is
divisible by 65535; the checksum field makes it so.
-/

namespace FxIP.Tcpip

open OnesComplement

/-- One round of `chksum`: the addition and its carry. -/
def chksumAdd (sum t : UInt16) : UInt16 :=
  let sum := sum + t
  if sum < t then sum + 1 else sum

/-- The data are the `len` bytes at `data`. -/
def chksum (sum : UInt16) : List UInt8 → UInt16
  | [] => sum
  | [b] => chksumAdd sum (word b 0)
  | b :: b' :: data => chksum (chksumAdd sum (word b b')) data

theorem toNat_chksumAdd (sum t : UInt16) :
    (chksumAdd sum t).toNat = fold 65535 (sum.toNat + t.toNat) := by
  have h1 := sum.toNat_lt
  have h2 := t.toNat_lt
  have hadd := UInt16.toNat_add sum t
  rw [fold_add (by omega) (by omega), chksumAdd]
  by_cases hcarry : sum.toNat + t.toNat ≤ 65535
  · rw [Nat.mod_eq_of_lt (by omega)] at hadd
    rw [if_pos hcarry, if_neg (by rw [UInt16.lt_iff_toNat_lt]; omega), hadd]
  · have hone := UInt16.toNat_add (sum + t) 1
    rw [show (1 : UInt16).toNat = 1 from rfl] at hone
    rw [if_neg hcarry, if_pos (by rw [UInt16.lt_iff_toNat_lt]; omega), hone]
    omega

/-- The checksum loop computes the ones' complement sum of the words of the
data, on top of any other sum. -/
theorem chksum_eq_fold (sum : UInt16) (data : List UInt8) :
    (chksum sum data).toNat = fold 65535 (sum.toNat + sumWords data) := by
  induction sum, data using chksum.induct with
  | case1 sum =>
    have h := sum.toNat_lt
    simp only [chksum, sumWords, Nat.add_zero]
    exact (fold_of_le (by omega)).symm
  | case2 sum b =>
    rw [chksum, toNat_chksumAdd, toNat_word, sumWords, UInt8.toNat_zero, Nat.add_zero]
  | case3 sum b b' data ih =>
    rw [chksum, ih, toNat_chksumAdd, toNat_word, fold_fold_add, sumWords, Nat.add_assoc]

-- ---------------------------------------------------------------------------
-- The checksums of a packet
-- ---------------------------------------------------------------------------

def UIP_PROTO_ICMP : UInt8 := 1
def UIP_PROTO_TCP : UInt8 := 6

def uipIpchksum (b : UipBuf) : UInt16 :=
  let sum := chksum 0 b.hdr.ipBytes
  if sum = 0 then 0xffff else sum

/-- The `n` bytes from `&uip_buf[UIP_IPH_LEN]` on. -/
def Stack.upperLayer (s : Stack) (n : Nat) : List UInt8 :=
  (s.buf.hdr.tcpBytes ++ s.buf.data.cells).take n ++ (List.range (n - 1482)).map s.behind

def upperLayerChksum (s : Stack) (proto : UInt8) : UInt16 :=
  let upper_layer_len := word s.buf.hdr.len.1 s.buf.hdr.len.2 - UIP_IPH_LEN
  let sum := upper_layer_len + proto.toUInt16
  let sum := chksum sum (s.buf.hdr.srcipaddr.bytes ++ s.buf.hdr.destipaddr.bytes)
  let sum := chksum sum (s.upperLayer upper_layer_len.toNat)
  if sum = 0 then 0xffff else sum

def uipTcpchksum (s : Stack) : UInt16 := upperLayerChksum s UIP_PROTO_TCP

/-- All that `upper_layer_chksum` sums up. -/
def upperLayerSum (s : Stack) (proto : UInt8) : Nat :=
  let upper_layer_len := word s.buf.hdr.len.1 s.buf.hdr.len.2 - UIP_IPH_LEN
  (upper_layer_len + proto.toUInt16).toNat +
    (sumWords (s.buf.hdr.srcipaddr.bytes ++ s.buf.hdr.destipaddr.bytes) +
      sumWords (s.upperLayer upper_layer_len.toNat))

section
variable {sum : UInt16} {n : Nat}

theorem eq_ffff_iff (h : sum.toNat = fold 65535 n) :
    (if sum = 0 then 0xffff else sum) = 0xffff ↔ 65535 ∣ n := by
  rw [← fold_bottom_or_top_iff (by decide), ← h]
  split
  · rename_i hzero
    simp [hzero]
  · rename_i hzero
    rw [← UInt16.toNat_inj] at hzero ⊢
    exact (or_iff_right hzero).symm

theorem dvd_add_field (h : sum.toNat = fold 65535 n) :
    65535 ∣ n + (~~~ (if sum = 0 then 0xffff else sum)).toNat := by
  have hnot (w : UInt16) : (~~~ w).toNat = 65535 - w.toNat := by
    rw [UInt16.toNat_not]
    rfl
  rw [hnot]
  apply dvd_add_complement (by decide)
  split
  · rename_i hzero
    rw [hzero] at h
    exact .inr ⟨h.symm, rfl⟩
  · exact .inl h.symm
end

theorem toNat_ipchksum (b : UipBuf) :
    (chksum 0 b.hdr.ipBytes).toNat = fold 65535 (sumWords b.hdr.ipBytes) := by
  rw [chksum_eq_fold, UInt16.toNat_zero, Nat.zero_add]

theorem uipIpchksum_iff (b : UipBuf) : uipIpchksum b = 0xffff ↔ 65535 ∣ sumWords b.hdr.ipBytes :=
  eq_ffff_iff (toNat_ipchksum b)

theorem toNat_upperLayerSum (s : Stack) (proto : UInt8) (len : UInt16)
    (hlen : len = word s.buf.hdr.len.1 s.buf.hdr.len.2 - UIP_IPH_LEN) :
    (chksum (chksum (len + proto.toUInt16) (s.buf.hdr.srcipaddr.bytes ++
      s.buf.hdr.destipaddr.bytes))
      (s.upperLayer len.toNat)).toNat = fold 65535 (upperLayerSum s proto) := by
  subst hlen
  rw [chksum_eq_fold, chksum_eq_fold, fold_fold_add, Nat.add_assoc]
  rfl

theorem upperLayerChksum_iff (s : Stack) (proto : UInt8) :
    upperLayerChksum s proto = 0xffff ↔ 65535 ∣ upperLayerSum s proto :=
  eq_ffff_iff (toNat_upperLayerSum s proto _ rfl)

-- ---------------------------------------------------------------------------
-- Filling the fields in
-- ---------------------------------------------------------------------------

theorem sumWords_ipBytes (h : TcpipHdr) (w : UInt16) :
    sumWords { h with ipchksum := w }.ipBytes = sumWords
      { h with ipchksum := 0 }.ipBytes + w.toNat := by
  have hw := Nat.div_add_mod w.toNat 256
  simp only [TcpipHdr.ipBytes, Ipaddr.bytes, List.cons_append, List.nil_append, sumWords,
    toNat_wordHi, toNat_wordLo, UInt16.toNat_zero]
  omega

theorem sumWords_tcpBytes (h : TcpipHdr) (w : UInt16) :
    sumWords { h with tcpchksum := w }.tcpBytes = sumWords
      { h with tcpchksum := 0 }.tcpBytes + w.toNat := by
  have hw := Nat.div_add_mod w.toNat 256
  simp only [TcpipHdr.tcpBytes, Seqno.bytes, List.cons_append, List.nil_append, sumWords,
    toNat_wordHi, toNat_wordLo, UInt16.toNat_zero]
  omega

theorem sumWords_upperLayer (s : Stack) {n : Nat} (hn : 20 ≤ n) :
    sumWords (s.upperLayer n) = sumWords s.buf.hdr.tcpBytes +
      sumWords (s.buf.data.cells.take (n - 20) ++ (List.range (n - 1482)).map s.behind) := by
  rw [Stack.upperLayer, List.take_append, List.take_of_length_le (by simpa using hn),
    length_tcpBytes, List.append_assoc, sumWords_append (by simp)]

end FxIP.Tcpip
