import FxIP.Lib.Ipv4
import FxIP.Tcpip.Process

/-!
# What is sent

The end of `uip_process`, from `tcp_send` on, changes the packet and nothing
else, and leaves a packet behind that any host accepts: its lengths and its
checksums are those of its bytes.
-/

namespace FxIP.Tcpip

open OnesComplement

-- ---------------------------------------------------------------------------
-- What does not change
-- ---------------------------------------------------------------------------

/-- The two differ in the packet, the lengths and the flags, and in what is
logged. -/
structure Sends (s t : Stack) : Prop where
  hostaddr : t.hostaddr = s.hostaddr
  behind : t.behind = s.behind
  conn : t.conn = s.conn
  conns : t.conns = s.conns
  listenports : t.listenports = s.listenports
  iss : t.iss = s.iss
  lastport : t.lastport = s.lastport

namespace Sends

variable {s t u : Stack}

theorem refl (s : Stack) : Sends s s := ⟨rfl, rfl, rfl, rfl, rfl, rfl, rfl⟩

theorem trans (h : Sends s t) (h' : Sends t u) : Sends s u where
  hostaddr := h'.hostaddr.trans h.hostaddr
  behind := h'.behind.trans h.behind
  conn := h'.conn.trans h.conn
  conns := h'.conns.trans h.conns
  listenports := h'.listenports.trans h.listenports
  iss := h'.iss.trans h.iss
  lastport := h'.lastport.trans h.lastport

theorem cur (h : Sends s t) : t.cur = s.cur := by rw [Stack.cur, h.conn, h.conns, ← Stack.cur]

end Sends

section
variable (s : Stack) (flags : UInt8) (len : UInt16)

theorem sends_drop : Sends s (uipDrop s) := ⟨rfl, rfl, rfl, rfl, rfl, rfl, rfl⟩
theorem sends_setHdr (h : TcpipHdr) : Sends s (s.setHdr h) := ⟨rfl, rfl, rfl, rfl, rfl, rfl, rfl⟩
theorem sends_buf (b : UipBuf) : Sends s { s with buf := b, len } :=
  ⟨rfl, rfl, rfl, rfl, rfl, rfl, rfl⟩
theorem sends_ipSendNolen : Sends s (ipSendNolen s) := ⟨rfl, rfl, rfl, rfl, rfl, rfl, rfl⟩

theorem sends_tcpSendNoconn : Sends s (tcpSendNoconn s) :=
  ((sends_setHdr s _).trans ((sends_setHdr _ _).trans (sends_setHdr _ _))).trans
    (sends_ipSendNolen _)

theorem sends_tcpSend : Sends s (tcpSend s) := (sends_setHdr s _).trans (sends_tcpSendNoconn _)

theorem sends_tcpSendNoopts : Sends s (tcpSendNoopts s flags len) :=
  (sends_buf s len { s.buf with hdr := { s.buf.hdr with flags, tcpoffset := 0x50 } }).trans
    (sends_tcpSend _)

theorem sends_tcpSendNodata : Sends s (tcpSendNodata s flags) := sends_tcpSendNoopts s flags _
theorem sends_tcpSendAck : Sends s (tcpSendAck s) := sends_tcpSendNodata s _
theorem sends_tcpSendFinack : Sends s (tcpSendFinack s) := sends_tcpSendNodata s _

theorem sends_tcpSendSyn : Sends s (tcpSendSyn s flags) := (sends_buf s _ _).trans (sends_tcpSend _)

theorem sends_tcpSendSynack : Sends s (tcpSendSynack s) := sends_tcpSendSyn s _

theorem sends_reset : Sends s (uipReset s) := by
  rw [uipReset]
  split
  · exact sends_drop s
  · exact (sends_buf s UIP_IPTCPH_LEN _).trans (sends_tcpSendNoconn _)

theorem sends_apprexmit : Sends s (uipApprexmit s) := by
  have happdata : Sends s { s with appdata := 0 } := ⟨rfl, rfl, rfl, rfl, rfl, rfl, rfl⟩
  rw [uipApprexmit]
  dsimp only
  split
  · exact happdata.trans (sends_tcpSendNoopts ..)
  · split
    · exact happdata.trans (sends_tcpSendNoopts ..)
    · exact happdata.trans (sends_drop _)

theorem sends_icmpInput : Sends s (icmpInput s) := by
  rw [icmpInput]
  split <;> exact ⟨rfl, rfl, rfl, rfl, rfl, rfl, rfl⟩
end

-- ---------------------------------------------------------------------------
-- The bytes of a packet
-- ---------------------------------------------------------------------------

/-- What `slipdev_send` sends. -/
def Stack.packet (s : Stack) : List UInt8 := s.buf.bytes.take s.len.toNat

namespace Stack

variable {s : Stack}

theorem length_packet (h : s.len.toNat ≤ UIP_BUF_SIZE) : s.packet.length = s.len.toNat := by
  rw [packet, List.length_take, length_bytes, Nat.min_eq_left h]

theorem getD_packet {i : Nat} (h : i < s.len.toNat) : s.packet.getD i 0 = s.buf.bytes.getD i 0 := by
  rw [packet, List.getD_eq_getElem?_getD, List.getElem?_take_of_lt h, ← List.getD_eq_getElem?_getD]

theorem take_packet (h : 20 ≤ s.len.toNat) : s.packet.take 20 = s.buf.hdr.ipBytes := by
  rw [packet, List.take_take, Nat.min_eq_left h, UipBuf.bytes,
    List.take_append_of_le_length (Nat.le_of_eq (length_ipBytes _).symm)]
  rfl

theorem addresses_packet (h : 20 ≤ s.len.toNat) :
    (s.packet.drop 12).take 8 = s.buf.hdr.srcipaddr.bytes ++ s.buf.hdr.destipaddr.bytes := by
  have hadd : (s.packet.drop 12).take 8 = (s.packet.take 20).drop 12 := by rw [List.drop_take]
  rw [hadd, take_packet h]
  rfl

theorem drop_packet (h : 20 ≤ s.len.toNat) (hmax : s.len.toNat ≤ UIP_BUF_SIZE) :
    s.packet.drop 20 = s.upperLayer (s.len.toNat - 20) := by
  rw [UIP_BUF_SIZE] at hmax
  rw [packet, List.drop_take, UipBuf.bytes, List.drop_append_of_le_length
    (Nat.le_of_eq (length_ipBytes _).symm),
    show s.buf.hdr.ipBytes.drop 20 = [] from rfl, List.nil_append, upperLayer,
    show s.len.toNat - 20 - 1482 = 0 by omega, List.range_zero, List.map_nil, List.append_nil]

end Stack

theorem fold_ipBytes {h : TcpipHdr} (hv : h.vhl = 0x45) (hsum : 65535 ∣ sumWords h.ipBytes) :
    fold 65535 (sumWords h.ipBytes) = 65535 := by
  refine (fold_eq_top_iff (by decide)).mpr ⟨Nat.pos_of_ne_zero fun hzero => ?_, hsum⟩
  have hfirst := sumWords_eq_zero_iff.mp hzero h.vhl (List.mem_cons_self ..)
  rw [hv] at hfirst
  exact absurd hfirst (by decide)

section
variable {s : Stack}

theorem valid_packet (hlen : 20 ≤ s.len.toNat) (hmax : s.len.toNat ≤ UIP_BUF_SIZE)
    (hv : s.buf.hdr.vhl = 0x45) (hl : word s.buf.hdr.len.1 s.buf.hdr.len.2 = s.len)
    (hwhole : s.buf.hdr.ipoffset.1 &&& 0x3f = 0 ∧ s.buf.hdr.ipoffset.2 = 0)
    (hsum : 65535 ∣ sumWords s.buf.hdr.ipBytes) : Ipv4.Valid s.packet where
  header := by rwa [Stack.length_packet hmax]
  version := by
    rw [Stack.getD_packet (by omega)]
    exact hv
  length := by
    rw [Ipv4.wordAt, Stack.getD_packet (by omega), Stack.getD_packet (by omega),
      Stack.length_packet hmax, ← hl, toNat_word]
    rfl
  whole := by
    rw [Stack.getD_packet (by omega), Stack.getD_packet (by omega)]
    exact hwhole
  chksum := by
    rw [Stack.take_packet hlen]
    exact fold_ipBytes hv hsum

theorem transportSum_packet (hlen : 20 ≤ s.len.toNat) (hmax : s.len.toNat ≤ UIP_BUF_SIZE)
    (hl : word s.buf.hdr.len.1 s.buf.hdr.len.2 = s.len) :
    Ipv4.transportSum s.packet = upperLayerSum s s.buf.hdr.proto := by
  have hproto := s.buf.hdr.proto.toNat_lt
  have hsub : (s.len - UIP_IPH_LEN).toNat = s.len.toNat - 20 := UInt16.toNat_sub_of_le _ _ hlen
  have hadd : (s.len - UIP_IPH_LEN + s.buf.hdr.proto.toUInt16).toNat =
      s.len.toNat - 20 + s.buf.hdr.proto.toNat := by
    rw [UIP_BUF_SIZE] at hmax
    rw [UInt16.toNat_add, hsub, UInt8.toNat_toUInt16]
    omega
  rw [Ipv4.transportSum, upperLayerSum, hl, hadd, hsub, Stack.addresses_packet hlen,
    Stack.drop_packet hlen hmax, Stack.length_packet hmax, Stack.getD_packet (by omega)]
  have hp : s.buf.bytes.getD 9 0 = s.buf.hdr.proto := rfl
  rw [hp]
  omega

theorem validTcp_packet (hlen : 40 ≤ s.len.toNat) (hmax : s.len.toNat ≤ UIP_BUF_SIZE)
    (hv : s.buf.hdr.vhl = 0x45) (hl : word s.buf.hdr.len.1 s.buf.hdr.len.2 = s.len)
    (hwhole : s.buf.hdr.ipoffset.1 &&& 0x3f = 0 ∧ s.buf.hdr.ipoffset.2 = 0)
    (hsum : 65535 ∣ sumWords s.buf.hdr.ipBytes) (hproto : s.buf.hdr.proto = UIP_PROTO_TCP)
    (htcp : 65535 ∣ upperLayerSum s UIP_PROTO_TCP) : Ipv4.ValidTcp s.packet where
  toValid := valid_packet (by omega) hmax hv hl hwhole hsum
  segment := by rwa [Stack.length_packet hmax]
  protocol := by
    rw [Stack.getD_packet (by omega)]
    exact hproto
  tcpchksum := by
    have hpos : 0 < Ipv4.transportSum s.packet := by
      rw [Ipv4.transportSum, Stack.length_packet hmax]
      omega
    rw [transportSum_packet (by omega) hmax hl, hproto] at hpos ⊢
    exact (fold_eq_top_iff (by decide)).mpr ⟨hpos, htcp⟩
end

-- ---------------------------------------------------------------------------
-- The packets of tcp_send
-- ---------------------------------------------------------------------------

theorem ipchksum_fill (s : Stack) : 65535 ∣ sumWords (fillIpchksum s).buf.hdr.ipBytes := by
  rw [fillIpchksum, Stack.hdr_setHdr, sumWords_ipBytes]
  exact dvd_add_field (toNat_ipchksum _)

theorem tcpchksum_fill (s : Stack)
    (h : 20 ≤ (word s.buf.hdr.len.1 s.buf.hdr.len.2 - UIP_IPH_LEN).toNat) :
    65535 ∣ upperLayerSum (fillTcpchksum s) UIP_PROTO_TCP := by
  have hfield := dvd_add_field (toNat_upperLayerSum (s.setHdr { s.buf.hdr with tcpchksum := 0 })
    UIP_PROTO_TCP _ rfl)
  have hsum (w : UInt16) : upperLayerSum (s.setHdr { s.buf.hdr with tcpchksum := w })
    UIP_PROTO_TCP =
      upperLayerSum (s.setHdr { s.buf.hdr with tcpchksum := 0 }) UIP_PROTO_TCP + w.toNat := by
    simp only [upperLayerSum, Stack.hdr_setHdr, sumWords_upperLayer _ h,
      sumWords_tcpBytes s.buf.hdr w]
    simp only [Stack.setHdr]
    omega
  rw [← hsum] at hfield
  exact hfield

theorem upperLayerSum_ipSendNolen (s : Stack) (proto : UInt8) :
    upperLayerSum (ipSendNolen s) proto = upperLayerSum s proto := rfl

theorem valid_tcpSendNoconn (s : Stack) (hlen : 40 ≤ s.len.toNat)
    (hmax : s.len.toNat ≤ UIP_BUF_SIZE)
    (hproto : s.buf.hdr.proto = UIP_PROTO_TCP) : Ipv4.ValidTcp (tcpSendNoconn s).packet := by
  have hsub : (s.len - UIP_IPH_LEN).toNat = s.len.toNat - 20 :=
    UInt16.toNat_sub_of_le _ _ (show 20 ≤ s.len.toNat by omega)
  have hword : word (wordHi s.len) (wordLo s.len) = s.len := word_wordHi_wordLo s.len
  have hwhole : (0 : UInt8) &&& 0x3f = 0 ∧ (0 : UInt8) = 0 := by decide
  refine validTcp_packet (s := tcpSendNoconn s) hlen hmax rfl hword hwhole (ipchksum_fill _) hproto
    ?_
  rw [tcpSendNoconn, upperLayerSum_ipSendNolen]
  apply tcpchksum_fill
  rw [Stack.hdr_setHdr, hword, hsub]
  omega

theorem valid_tcpSend (s : Stack) (hlen : 40 ≤ s.len.toNat) (hmax : s.len.toNat ≤ UIP_BUF_SIZE) :
    Ipv4.ValidTcp (tcpSend s).packet := valid_tcpSendNoconn _ hlen hmax rfl

theorem valid_tcpSendNoopts (s : Stack) (flags : UInt8) {len : UInt16} (hlen : 40 ≤ len.toNat)
    (hmax : len.toNat ≤ UIP_BUF_SIZE) : Ipv4.ValidTcp (tcpSendNoopts s flags len).packet :=
  valid_tcpSend _ hlen hmax

theorem valid_tcpSendSyn (s : Stack) (flags : UInt8) : Ipv4.ValidTcp (tcpSendSyn s flags).packet :=
  valid_tcpSend _ (show 40 ≤ (UIP_IPTCPH_LEN + 4).toNat by decide)
    (show (UIP_IPTCPH_LEN + 4).toNat ≤ UIP_BUF_SIZE by decide)

end FxIP.Tcpip
