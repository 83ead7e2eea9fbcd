import FxIP.Tcpip.Emitted

/-!
# What is accepted

The checks of `uip_process` on a frame are those of the format: a segment that is
not a valid packet for the host is ignored, and an echo request that is valid is
answered. The checksum of the answer is computed from that of the request.
-/

namespace FxIP.Tcpip

open OnesComplement

variable {s t : Stack} {h h' : Host} {es : List Event} {frame p pad : List UInt8}

-- ---------------------------------------------------------------------------
-- Frames in the buffer
-- ---------------------------------------------------------------------------

def destination (frame : List UInt8) : List UInt8 := (frame.drop 16).take 4

namespace Stack

theorem take_receive (s : Stack) {n : Nat} (hlen : frame.length ≤ BUFSIZE) (hn : n ≤ frame.length) :
    (s.receive frame).buf.bytes.take n = frame.take n := by
  have hfit : frame.length ≤ s.buf.bytes.length := by
    rw [length_bytes]
    exact Nat.le_trans hlen (by decide)
  have htake := Circular.take_overwrite_zero s.buf.bytes frame hfit
  show (s.buf.receive frame).bytes.take n = _
  rw [bytes_receive]
  conv_rhs => rw [← htake, List.take_take, Nat.min_eq_left hn]

theorem getD_receive (s : Stack) {i : Nat} (hlen : frame.length ≤ BUFSIZE) (hi : i < frame.length) :
    (s.receive frame).buf.bytes.getD i 0 = frame.getD i 0 := by
  have htake := s.take_receive (n := i + 1) hlen hi
  rw [List.getD_eq_getElem?_getD, List.getD_eq_getElem?_getD, ← List.getElem?_take_of_lt
    (Nat.lt_succ_self i), htake, List.getElem?_take_of_lt (Nat.lt_succ_self i)]

theorem toNat_trimmed (s : Stack) (hlen : frame.length ≤ BUFSIZE) (h20 : 20 ≤ frame.length) :
    (s.receive frame).trimmed.len.toNat = Ipv4.wordAt frame 2 := by
  rw [trimmed, toNat_word, Ipv4.wordAt, ← s.getD_receive hlen (by omega), ← s.getD_receive
    hlen (by omega)]
  rfl

theorem packet_trimmed (s : Stack) (hlen : frame.length ≤ BUFSIZE) (h20 : 20 ≤ frame.length)
    (hle : Ipv4.wordAt frame 2 ≤ frame.length) :
    (s.receive frame).trimmed.packet = frame.take (Ipv4.wordAt frame 2) := by
  rw [packet, s.toNat_trimmed hlen h20]
  exact s.take_receive hlen hle

theorem destination_receive (s : Stack) (hlen : frame.length ≤ BUFSIZE) (h20 : 20 ≤ frame.length) :
    destination frame = (s.receive frame).buf.hdr.destipaddr.bytes := by
  have htake := s.take_receive hlen h20
  have hdrop : destination frame = (frame.take 20).drop 16 := by rw [destination, List.drop_take]
  rw [hdrop, ← htake, UipBuf.bytes, List.take_append_of_le_length
    (Nat.le_of_eq (length_ipBytes _).symm)]
  rfl

end Stack

theorem bytes_injective {a b : Ipaddr} (h : a.bytes = b.bytes) : a = b := by
  have hbyte := List.cons.inj h
  have hbyte' := List.cons.inj hbyte.2
  have hbyte'' := List.cons.inj hbyte'.2
  refine Prod.ext ?_ ?_
  · rw [← word_wordHi_wordLo a.1, ← word_wordHi_wordLo b.1, hbyte.1, hbyte'.1]
  · rw [← word_wordHi_wordLo a.2, ← word_wordHi_wordLo b.2, hbyte''.1, (List.cons.inj hbyte''.2).1]

-- ---------------------------------------------------------------------------
-- Valid packets
-- ---------------------------------------------------------------------------

theorem header_of_valid (hmax : s.len.toNat ≤ UIP_BUF_SIZE) (h : Ipv4.Valid s.packet) :
    s.buf.hdr.vhl = 0x45 ∧ (s.buf.hdr.ipoffset.1 &&& 0x3f = 0 ∧ s.buf.hdr.ipoffset.2 = 0) ∧
      uipIpchksum s.buf = 0xffff := by
  have hlen : 20 ≤ s.len.toNat := Stack.length_packet hmax ▸ h.header
  have hversion := h.version
  have hwhole := h.whole
  have hsum := h.chksum
  rw [Stack.getD_packet (by omega)] at hversion
  rw [Stack.getD_packet (by omega), Stack.getD_packet (by omega)] at hwhole
  rw [Stack.take_packet hlen, fold_eq_top_iff (by decide)] at hsum
  exact ⟨hversion, hwhole, (uipIpchksum_iff s.buf).mpr hsum.2⟩

theorem accepted_iff (hhost : s.hostaddr ≠ (0, 0)) (hlen : frame.length ≤ BUFSIZE)
    (h20 : 20 ≤ frame.length) (hhead : 20 ≤ Ipv4.wordAt frame 2) :
    Accepted (s.receive frame) ↔ Ipv4.wordAt frame 2 ≤ frame.length ∧
      destination frame = s.hostaddr.bytes ∧
      Ipv4.Valid (frame.take (Ipv4.wordAt frame 2)) := by
  have hword := s.toNat_trimmed hlen h20
  have hdest := s.destination_receive hlen h20
  have hshort : frame.length < 65536 := Nat.lt_of_le_of_lt hlen (by decide)
  have hreported : word (s.receive frame).buf.hdr.len.1 (s.receive frame).buf.hdr.len.2 ≤
    (s.receive frame).len ↔
      Ipv4.wordAt frame 2 ≤ frame.length := by
    rw [UInt16.le_iff_toNat_le, ← hword]
    show _ ≤ (UInt16.ofNat frame.length).toNat ↔ _
    rw [UInt16.toNat_ofNat_of_lt' hshort]
    rfl
  constructor
  · intro ha
    have hle := hreported.mp ha.len
    refine ⟨hle, hdest.trans (congrArg Ipaddr.bytes (ha.destipaddr hhost)), ?_⟩
    rw [← s.packet_trimmed hlen h20 hle]
    refine valid_packet (hword ▸ hhead) ?_ ha.vhl rfl ha.ipoffset
      ((uipIpchksum_iff _).mp ha.ipchksum)
    rw [hword]
    exact Nat.le_trans hle (Nat.le_trans hlen (by decide))
  · rintro ⟨hle, hhere, hvalid⟩
    rw [← s.packet_trimmed hlen h20 hle] at hvalid
    obtain ⟨hvhl, hwhole, hsum⟩ := header_of_valid (by
      rw [hword]
      exact Nat.le_trans hle (Nat.le_trans hlen (by decide))) hvalid
    exact ⟨hvhl, hreported.mpr hle, hwhole, fun _ => bytes_injective (hdest.symm.trans hhere), hsum⟩

theorem acceptedTcp_iff (hhost : s.hostaddr ≠ (0, 0)) (hlen : frame.length ≤ BUFSIZE)
    (h20 : 20 ≤ frame.length) (hhead : 40 ≤ Ipv4.wordAt frame 2) :
    AcceptedTcp (s.receive frame) ↔ Ipv4.wordAt frame 2 ≤ frame.length ∧
      destination frame = s.hostaddr.bytes ∧
      Ipv4.ValidTcp (frame.take (Ipv4.wordAt frame 2)) := by
  have hword := s.toNat_trimmed hlen h20
  have hiff := accepted_iff hhost hlen h20 (show 20 ≤ Ipv4.wordAt frame 2 by omega)
  have hlen40 : 40 ≤ (s.receive frame).trimmed.len.toNat := hword ▸ hhead
  have hmax (hle : Ipv4.wordAt frame 2 ≤ frame.length) : (s.receive frame).trimmed.len.toNat ≤
      UIP_BUF_SIZE := by
    rw [hword]
    exact Nat.le_trans hle (Nat.le_trans hlen (by decide))
  constructor
  · intro ha
    obtain ⟨hle, hhere, -⟩ := hiff.mp ha.toAccepted
    refine ⟨hle, hhere, ?_⟩
    rw [← s.packet_trimmed hlen h20 hle]
    exact validTcp_packet hlen40 (hmax hle) ha.vhl rfl ha.ipoffset
      ((uipIpchksum_iff _).mp ha.ipchksum) ha.proto
      ((upperLayerChksum_iff _ _).mp ha.tcpchksum)
  · rintro ⟨hle, hhere, hvalid⟩
    have ha := hiff.mpr ⟨hle, hhere, hvalid.toValid⟩
    rw [← s.packet_trimmed hlen h20 hle] at hvalid
    have hproto : (s.receive frame).trimmed.buf.hdr.proto = UIP_PROTO_TCP := by
      have hprotocol := hvalid.protocol
      rw [Stack.getD_packet (by omega)] at hprotocol
      exact hprotocol
    have hsum := hvalid.tcpchksum
    rw [transportSum_packet (by omega) (hmax hle) rfl, hproto, fold_eq_top_iff (by decide)] at hsum
    exact ⟨ha, hproto, (upperLayerChksum_iff _ _).mpr hsum.2⟩

/-- A segment that is not a valid packet for the host is ignored. -/
theorem invalid_ignored (hr : Reaches es h) (hstep : HostStep h (.receive frame) h')
    (h20 : 20 ≤ frame.length) (hhead : 40 ≤ Ipv4.wordAt frame 2) (hproto : frame.getD 9 0 = 6)
    (hinvalid : frame.length < Ipv4.wordAt frame 2 ∨ destination frame ≠ HOSTADDR.bytes ∨
      ¬ Ipv4.ValidTcp (frame.take (Ipv4.wordAt frame 2))) :
    h'.calling = none ∧ h'.stack.len = 0 ∧ h'.stack.conns = h.stack.conns := by
  obtain ⟨behind, iss, lastport, -, -, hrun⟩ := hr
  have hok := ok_run _ hrun
  cases hstep with
  | @receive s frame n hlen hn =>
    have hhost : s.hostaddr ≠ (0, 0) := by
      rw [hok.hostaddr]
      decide
    have hnot : ¬ AcceptedTcp (s.receive frame) := by
      rw [acceptedTcp_iff hhost hlen h20 hhead, hok.hostaddr]
      rintro ⟨hle, hhere, hvalid⟩
      rcases hinvalid with hshort | helse | hbad
      · omega
      · exact helse hhere
      · exact hbad hvalid
    have hr : Sends s (s.receive frame) := ⟨rfl, rfl, rfl, rfl, rfl, rfl, rfl⟩
    cases input_uipInput hn with
    | ignored hsends _ hzero => exact ⟨rfl, hzero, (hr.trans hsends).conns⟩
    | echo ha hicmp =>
      have hsix : (s.receive frame).buf.bytes.getD 9 0 = 6 :=
        (s.getD_receive hlen (by omega)).trans hproto
      have hone : (s.receive frame).buf.bytes.getD 9 0 = 1 := hicmp
      exact absurd (hsix.symm.trans hone) (by decide)
    | reset ha _ => exact absurd ha hnot
    | listen ha _ _ _ _ => exact absurd ha hnot
    | found ha _ _ => exact absurd ha hnot

/-- The SYNACK with one bit of its number changed. -/
theorem invalid_ignored_synack : ∃ h h', Reaches opening h ∧
    HostStep h (.receive (openingSynack.set 24 4)) h' ∧
    h'.calling = none ∧ h'.stack.len = 0 ∧ h'.stack.conns = h.stack.conns := by
  have hrun : (opening.foldlM (Host.stepRun 3) openingHost).bind (fun h =>
      (h.stepRun 3 (.receive (openingSynack.set 24 4))).map fun h' => h'.stack.len) = some 0 := by
    decide +kernel
  obtain ⟨h, hh, hobserved⟩ := Option.bind_eq_some_iff.mp hrun
  obtain ⟨h', hh', -⟩ := Option.map_eq_some_iff.mp hobserved
  have hr := reaches_of_stepRun (by decide) hh
  have hstep := hostStep_of_stepRun hh'
  have hsum : fold 65535 (Ipv4.transportSum (openingSynack.set 24 4)) ≠ 65535 := by decide +kernel
  exact ⟨h, h', hr, hstep, invalid_ignored hr hstep (by decide) (by decide) (by decide)
    (.inr (.inr fun hvalid => hsum hvalid.tcpchksum))⟩

-- ---------------------------------------------------------------------------
-- Echo requests
-- ---------------------------------------------------------------------------

theorem upperLayer_ports (s : Stack) (n : Nat) : s.upperLayer (n + 4) =
    wordHi s.buf.hdr.srcport :: wordLo s.buf.hdr.srcport :: wordHi s.buf.hdr.destport ::
      wordLo s.buf.hdr.destport ::
      (s.upperLayer (n + 4)).drop 4 := by
  simp [Stack.upperLayer, TcpipHdr.tcpBytes]

theorem sumWords_ports (s : Stack) (n : Nat) : sumWords (s.upperLayer (n + 4)) =
    s.buf.hdr.srcport.toNat + s.buf.hdr.destport.toNat + sumWords
      ((s.upperLayer (n + 4)).drop 4) := by
  have hsrc := Nat.div_add_mod s.buf.hdr.srcport.toNat 256
  have hdest := Nat.div_add_mod s.buf.hdr.destport.toNat 256
  rw [upperLayer_ports, sumWords, sumWords, toNat_wordHi, toNat_wordLo, toNat_wordHi, toNat_wordLo]
  simp only [List.drop_succ_cons, List.drop_zero]
  omega

theorem drop_upperLayer_echoReply (s : Stack) (n : Nat) (a : Ipaddr) :
    ((s.setHdr (s.buf.hdr.echoReply a)).upperLayer (n + 4)).drop 4 =
    (s.upperLayer (n + 4)).drop 4 := by
  simp [Stack.upperLayer, TcpipHdr.tcpBytes, TcpipHdr.echoReply, Stack.setHdr]

theorem echoReply_sum (h : TcpipHdr) (a : Ipaddr) (htype : wordHi h.srcport = ICMP_ECHO) :
    (h.echoReply a).srcport.toNat = (wordLo h.srcport).toNat ∧
    (h.echoReply a).destport.toNat < 65535 ∧
      ((h.echoReply a).srcport.toNat + (h.echoReply a).destport.toNat =
        h.srcport.toNat + h.destport.toNat ∨
        (h.echoReply a).srcport.toNat + (h.echoReply a).destport.toNat + 65535 =
          h.srcport.toNat + h.destport.toNat) := by
  have hsrc : h.srcport.toNat = 2048 + (wordLo h.srcport).toNat := by
    rw [← word_wordHi_wordLo h.srcport, toNat_word, htype, wordLo_word]
    rfl
  have hreply : (h.echoReply a).srcport.toNat = (wordLo h.srcport).toNat := by
    show (word ICMP_ECHO_REPLY (wordLo h.srcport)).toNat = _
    rw [toNat_word]
    exact Nat.zero_add _
  have hlt := h.destport.toNat_lt
  have hbound : h.destport ≥ 0xffff - word ICMP_ECHO 0 ↔ 63487 ≤ h.destport.toNat :=
    UInt16.le_iff_toNat_le
  have hcarry : (h.destport + (word ICMP_ECHO 0 + 1)).toNat = (h.destport.toNat + 2049) % 65536 :=
    UInt16.toNat_add ..
  have hplain : (h.destport + word ICMP_ECHO 0).toNat = (h.destport.toNat + 2048) % 65536 :=
    UInt16.toNat_add ..
  rw [hreply, hsrc]
  simp only [TcpipHdr.echoReply, hbound, true_and]
  split <;> omega

theorem answers_echoReply (ha : Accepted s) (hhost : s.hostaddr ≠ (0, 0))
    (h28 : 28 ≤ s.trimmed.len.toNat) (hmax : s.trimmed.len.toNat ≤ UIP_BUF_SIZE) :
    Ipv4.Answers s.trimmed.packet s.replied.packet := by
  have h20 : 20 ≤ s.trimmed.len.toNat := by omega
  have hrequest := Stack.addresses_packet h20
  have hreply := Stack.addresses_packet (s := s.replied) h20
  have hfirst (l : List UInt8) : (l.drop 12).take 4 =
    ((l.drop 12).take 8).take 4 := by rw [List.take_take]; rfl
  have hsecond (l : List UInt8) : (l.drop 16).take 4 = ((l.drop 12).take 8).drop 4 := by
    rw [List.drop_take, List.drop_drop]
  have hn : s.trimmed.len.toNat - 20 = s.trimmed.len.toNat - 24 + 4 := by omega
  refine ⟨?_, ?_, ?_, ?_, ?_⟩
  · rw [Stack.length_packet hmax]
    exact Stack.length_packet hmax
  · rw [hfirst, hsecond, hrequest, hreply]
    exact congrArg Ipaddr.bytes (ha.destipaddr hhost).symm
  · rw [hfirst, hsecond, hrequest, hreply]
    rfl
  · rw [Stack.getD_packet (s := s.trimmed) (by omega)]
    refine (Stack.getD_packet (s := s.replied)
      (show 21 < s.trimmed.len.toNat by omega)).trans ?_
    exact wordLo_word ..
  · have hdrop := drop_upperLayer_echoReply s.trimmed (s.trimmed.len.toNat - 24) s.hostaddr
    have hmessage (t : Stack) (ht : t.len = s.trimmed.len) :
        t.packet.drop 24 = (t.upperLayer (s.trimmed.len.toNat - 24 + 4)).drop 4 := by
      rw [← hn, ← ht, ← Stack.drop_packet (ht ▸ h20) (ht ▸ hmax), List.drop_drop]
    have hreplied := hmessage s.replied rfl
    rw [hreplied, hmessage s.trimmed rfl, ← hdrop]
    rfl

/-- The checksum of the reply is valid if that of the request is, but for a
message of zeros, whose checksum has to be 0xffff. -/
theorem validReply_iff (ha : Accepted s) (hhost : s.hostaddr ≠ (0, 0))
    (hmax : s.trimmed.len.toNat ≤ UIP_BUF_SIZE)
    (hrequest : Ipv4.ValidEchoRequest s.trimmed.packet) :
    Ipv4.ValidEchoReply s.replied.packet ↔
      s.trimmed.packet.getD 21 0 ≠ 0 ∨ ∃ b ∈ s.trimmed.packet.drop 24, b ≠ 0 := by
  have h28 : 28 ≤ s.trimmed.len.toNat := Stack.length_packet hmax ▸ hrequest.message
  have hn : s.trimmed.len.toNat - 20 = s.trimmed.len.toNat - 24 + 4 := by omega
  have hanswers := answers_echoReply ha hhost h28 hmax
  have htype : wordHi s.buf.hdr.srcport = ICMP_ECHO := by
    have hbyte := hrequest.type
    rw [Stack.getD_packet (by omega)] at hbyte
    exact hbyte
  obtain ⟨hcode, hsmall, hsum⟩ := echoReply_sum s.buf.hdr s.hostaddr htype
  have hwords (t : Stack) (ht : t.len = s.trimmed.len) : sumWords (t.packet.drop 20) =
      t.buf.hdr.srcport.toNat + t.buf.hdr.destport.toNat + sumWords (t.packet.drop 24) := by
    rw [show t.packet.drop 24 = (t.packet.drop 20).drop 4 by rw [List.drop_drop],
      Stack.drop_packet (by rw [ht]; omega) (ht ▸ hmax), ht, hn, sumWords_ports]
  have hold : sumWords (s.trimmed.packet.drop 20) =
      s.buf.hdr.srcport.toNat + s.buf.hdr.destport.toNat + sumWords (s.trimmed.packet.drop 24) :=
        hwords s.trimmed rfl
  have hnew : sumWords (s.replied.packet.drop 20) =
      (s.buf.hdr.echoReply s.hostaddr).srcport.toNat +
        (s.buf.hdr.echoReply s.hostaddr).destport.toNat +
        sumWords (s.trimmed.packet.drop 24) := by
    rw [← hanswers.message]
    exact hwords s.replied rfl
  have hdvd := ((fold_eq_top_iff (by decide)).mp hrequest.icmpchksum).2
  rw [hold] at hdvd
  have hzero : (∃ b ∈ s.trimmed.packet.drop 24, b ≠ 0) ↔
      sumWords (s.trimmed.packet.drop 24) ≠ 0 := by
    rw [Ne, sumWords_eq_zero_iff]
    push Not
    rfl
  have hlow : s.trimmed.packet.getD 21 0 = wordLo s.buf.hdr.srcport := Stack.getD_packet (by omega)
  have hcode0 : s.trimmed.packet.getD 21 0 ≠ 0 ↔
      (s.buf.hdr.echoReply s.hostaddr).srcport.toNat ≠ 0 := by
    rw [hlow, hcode, Ne, Ne, ← UInt8.toNat_inj]
    rfl
  rw [hzero, hcode0]
  constructor
  · intro hreply
    have hpos := ((fold_eq_top_iff (by decide)).mp hreply.icmpchksum).1
    rw [hnew] at hpos
    by_contra hnot
    -- only the type and the checksum are left, and these make 0xffff
    obtain ⟨k, hk⟩ := hdvd
    omega
  · intro hdata
    refine ⟨valid_echoReply ha hhost (by omega) hmax, ?_, ?_, ?_, ?_⟩
    · rw [hanswers.length]
      exact hrequest.message
    · refine (Stack.getD_packet (s := s.replied) (show 9 < s.trimmed.len.toNat by omega)).trans ?_
      exact (Stack.getD_packet (s := s.trimmed) (by omega)).symm.trans hrequest.protocol
    · refine (Stack.getD_packet (s := s.replied) (show 20 < s.trimmed.len.toNat by omega)).trans ?_
      exact wordHi_word ..
    · rw [fold_eq_top_iff (by decide), hnew]
      obtain ⟨k, hk⟩ := hdvd
      exact ⟨by omega, by omega⟩

theorem uipInput_echo (ha : Accepted s) (hp : s.buf.hdr.proto = UIP_PROTO_ICMP)
    (htype : wordHi s.buf.hdr.srcport = ICMP_ECHO) : uipInput s = pure (.done s.replied) := by
  have hlen := UInt16.not_lt.mpr ha.len
  have hfrag : ¬ (s.buf.hdr.ipoffset.1 &&& 0x3f ≠ 0 ∨ s.buf.hdr.ipoffset.2 ≠ 0) := by
    rintro (h1 | h2)
    · exact h1 ha.ipoffset.1
    · exact h2 ha.ipoffset.2
  have hdest : ¬ (s.hostaddr ≠ (0, 0) ∧ s.buf.hdr.destipaddr ≠ s.hostaddr) := by
    rintro ⟨hhost, hne⟩
    exact hne (ha.destipaddr hhost)
  have htcp : s.buf.hdr.proto ≠ UIP_PROTO_TCP := by
    rw [hp]
    decide
  have hicmp : icmpInput s.trimmed = s.replied := if_neg (not_not.mpr htype)
  rw [uipInput]
  dsimp only
  rw [if_neg (not_not.mpr ha.vhl), if_neg hlen, if_neg hfrag, if_neg hdest,
    if_neg (not_not.mpr ha.ipchksum), if_neg htcp, if_neg (not_not.mpr hp), ← hicmp]
  rfl

/-- A valid echo request for the host is answered, in any state, with a reply to
where it is from. Connections do not change. The checksum of the reply is valid
unless all of the message is zero. -/
theorem echo_answered (hr : Reaches es h) (hcalling : h.calling = none)
    (hlen : (p ++ pad).length ≤ BUFSIZE)
    (hrequest : Ipv4.ValidEchoRequest p) (hhere : destination p = HOSTADDR.bytes) :
    ∃ h', (∀ k, HostStep h (.receive (p ++ pad)) k ↔ k = h') ∧ h'.calling = none ∧
      h'.stack.conns = h.stack.conns ∧ Ipv4.Answers p h'.stack.packet ∧
      (Ipv4.ValidEchoReply h'.stack.packet ↔ p.getD 21 0 ≠ 0 ∨ ∃ b ∈ p.drop 24, b ≠ 0) := by
  obtain ⟨behind, iss, lastport, -, -, hrun⟩ := hr
  have hok := ok_run _ hrun
  obtain ⟨s, calling⟩ := h
  obtain rfl : calling = none := hcalling
  have hhost : s.hostaddr ≠ (0, 0) := by
    have hset : s.hostaddr = HOSTADDR := hok.hostaddr
    rw [hset]
    decide
  have h28 := hrequest.message
  have hle : p.length ≤ (p ++ pad).length := List.length_append ▸ Nat.le_add_right ..
  have hbyte (i : Nat) (hi : i < p.length) : (p ++ pad).getD i 0 = p.getD i 0 := by
    rw [List.getD_eq_getElem?_getD, List.getElem?_append_left hi, ← List.getD_eq_getElem?_getD]
  have hword : Ipv4.wordAt (p ++ pad) 2 = p.length := by
    rw [Ipv4.wordAt, hbyte 2 (by omega), hbyte 3 (by omega)]
    exact hrequest.length
  have hdest : destination (p ++ pad) = s.hostaddr.bytes := by
    rw [show s.hostaddr = HOSTADDR from hok.hostaddr, ← hhere, destination, destination,
      List.drop_append_of_le_length (by omega), List.take_append_of_le_length
        (by rw [List.length_drop]; omega)]
  have htake : (p ++ pad).take (Ipv4.wordAt (p ++ pad) 2) = p := by rw [hword, List.take_left]
  have ha : Accepted (s.receive (p ++ pad)) := by
    refine (accepted_iff hhost hlen (by omega) (by omega)).mpr ⟨by omega, hdest, ?_⟩
    rw [htake]
    exact hrequest.toValid
  have hpacket : (s.receive (p ++ pad)).trimmed.packet = p := by
    rw [s.packet_trimmed hlen (by omega) (by omega), htake]
  have htrimmed : (s.receive (p ++ pad)).trimmed.len.toNat = p.length := by
    rw [s.toNat_trimmed hlen (by omega), hword]
  have hmax : (s.receive (p ++ pad)).trimmed.len.toNat ≤ UIP_BUF_SIZE := by
    rw [htrimmed]
    exact Nat.le_trans hle (Nat.le_trans hlen (by decide))
  have hread (i : Nat) (hi : i < p.length) : (s.receive (p ++ pad)).buf.bytes.getD i 0 =
      p.getD i 0 :=
    (s.getD_receive hlen (by omega)).trans (hbyte i hi)
  have hinput := uipInput_echo ha ((hread 9 (by omega)).trans hrequest.protocol)
    ((hread 20 (by omega)).trans hrequest.type)
  have hanswers := answers_echoReply ha hhost (by omega) hmax
  have hvalid := validReply_iff ha hhost hmax (hpacket.symm ▸ hrequest)
  rw [hpacket] at hanswers hvalid
  refine ⟨⟨(s.receive (p ++ pad)).replied, none⟩, fun k => ⟨fun hk => ?_, ?_⟩, rfl, rfl,
    hanswers, hvalid⟩
  · cases hk with
    | receive _ hn =>
      rw [hinput] at hn
      exact Comp.returns_pure.mp hn ▸ rfl
  · rintro rfl
    have hn : (uipInput (s.receive (p ++ pad))).Returns (.done (s.receive (p ++ pad)).replied) :=
      hinput ▸ Comp.returns_pure.mpr rfl
    exact .receive hlen hn

/-- An echo request with two bytes of data, and a byte behind it. -/
def echoRequest : List UInt8 :=
  [69, 0, 0, 30, 0, 1, 0, 0, 64, 1, 82, 200, 10, 10, 10, 1, 10, 10, 10, 2, 8, 0, 132, 104, 18, 52,
    0, 1, 97, 98]

theorem echo_answered_request : ∃ h h', Reaches opening h ∧
    HostStep h (.receive (echoRequest ++ [0])) h' ∧
    h'.stack.conns = h.stack.conns ∧ Ipv4.Answers echoRequest h'.stack.packet ∧
    Ipv4.ValidEchoReply h'.stack.packet := by
  have hrun : (opening.foldlM (Host.stepRun 3) openingHost).map (·.calling) =
    some none := by decide +kernel
  obtain ⟨h, hh, hcalling⟩ := Option.map_eq_some_iff.mp hrun
  have hr := reaches_of_stepRun (by decide) hh
  have hrequest : Ipv4.ValidEchoRequest echoRequest :=
    { header := by decide
      version := by decide
      length := by decide
      whole := by decide
      chksum := by decide +kernel
      message := by decide
      protocol := by decide
      type := by decide
      icmpchksum := by decide +kernel }
  obtain ⟨h', hstep, -, hconns, hanswers, hvalid⟩ :=
    echo_answered hr hcalling (show (echoRequest ++ [0]).length ≤ BUFSIZE by decide)
      hrequest (by decide)
  exact ⟨h, h', hr, (hstep h').mpr rfl, hconns, hanswers, hvalid.mpr (.inr (by decide))⟩

end FxIP.Tcpip
