import FxIP.Tcpip.Connections

/-!
# The packets of a host

Whatever arrives and whatever the application does, what a step leaves in the
buffer to be sent is a valid packet, or nothing.
-/

namespace FxIP.Tcpip

open OnesComplement

variable {h h' : Host} {s t : Stack} {e : Event} {es : List Event} {n : Next} {i : Fin UIP_CONNS}

/-- The answer to an echo request. If the request was shorter than its own
header, so is the answer. -/
def EchoReply (s : Stack) : Prop :=
  s.buf.hdr.proto = UIP_PROTO_ICMP ∧ wordHi s.buf.hdr.srcport = ICMP_ECHO_REPLY ∧
    (20 ≤ s.len.toNat → Ipv4.Valid s.packet)

def Emits (s : Stack) : Prop :=
  s.len.toNat ≤ BUFSIZE ∧ (s.len = 0 ∨ Ipv4.ValidTcp s.packet ∨ EchoReply s)

theorem emits_nothing (hlen : s.len = 0) : Emits s := by
  refine ⟨?_, .inl hlen⟩
  rw [hlen]
  decide

theorem emits_drop (s : Stack) : Emits (uipDrop s) := emits_nothing rfl

theorem emits_tcpSendNoopts (s : Stack) (flags : UInt8) {len : UInt16} (hlen : 40 ≤ len.toNat)
    (hmax : len.toNat ≤ BUFSIZE) : Emits (tcpSendNoopts s flags len) :=
  ⟨hmax, .inr (.inl (valid_tcpSendNoopts s flags hlen (Nat.le_trans hmax (by decide))))⟩

theorem emits_tcpSendNodata (s : Stack) (flags : UInt8) : Emits (tcpSendNodata s flags) :=
  emits_tcpSendNoopts s flags (by decide) (by decide)

theorem emits_tcpSendAck (s : Stack) : Emits (tcpSendAck s) := emits_tcpSendNodata s _

theorem emits_tcpSendSyn (s : Stack) (flags : UInt8) : Emits (tcpSendSyn s flags) := by
  refine ⟨?_, .inr (.inl (valid_tcpSendSyn s flags))⟩
  show (UIP_IPTCPH_LEN + 4).toNat ≤ BUFSIZE
  decide

theorem emits_reset (hp : s.buf.hdr.proto = UIP_PROTO_TCP) : Emits (uipReset s) := by
  rw [uipReset]
  split
  · exact emits_drop s
  · refine ⟨?_, .inr (.inl (valid_tcpSendNoconn _ ?_ ?_ hp))⟩
    · show UIP_IPTCPH_LEN.toNat ≤ BUFSIZE
      decide
    · show 40 ≤ UIP_IPTCPH_LEN.toNat
      decide
    · show UIP_IPTCPH_LEN.toNat ≤ UIP_BUF_SIZE
      decide

theorem emits_apprexmit (hlen : s.cur.len ≤ TCP_MSS) : Emits (uipApprexmit s) := by
  have hle : s.cur.len.toNat ≤ 1460 := UInt16.le_iff_toNat_le.mp hlen
  have hadd : (s.cur.len + UIP_IPTCPH_LEN).toNat = s.cur.len.toNat + 40 := by
    rw [UInt16.toNat_add, show UIP_IPTCPH_LEN.toNat = 40 from rfl]
    omega
  rw [uipApprexmit]
  dsimp only
  split
  · have hcur : ({ s with appdata := 0 } : Stack).cur = s.cur := rfl
    rw [hcur]
    refine emits_tcpSendNoopts _ _ (by omega) ?_
    rw [hadd, BUFSIZE]
    omega
  · split
    · exact emits_tcpSendNoopts _ _ (by decide) (by decide)
    · exact emits_drop _

theorem emits_appsend (hb : s.cur.Bounded) : Emits (uipAppsend s) := by
  have hk := kept_appsendLen (Kept.refl s)
  have hlen : (uipAppsendLen s).cur.len ≤ TCP_MSS := by
    rw [hk.cur]
    exact (hk.self.bounded hb).len
  rw [uipAppsend]
  split
  · exact emits_tcpSendNodata _ _
  · split
    · exact emits_tcpSendNodata _ _
    · apply emits_apprexmit
      rw [Stack.cur_setConn]
      exact hlen

theorem emits_resume {r : Resume} (hb : s.cur.Bounded)
    (hp : r = .reset → s.buf.hdr.proto = UIP_PROTO_TCP) :
    Emits (uipResume s r) := by
  cases r with
  | drop => exact emits_drop s
  | appsend => exact emits_appsend hb
  | apprexmit => exact emits_apprexmit hb.len
  | timedout => exact emits_tcpSendNodata _ _
  | finack => exact emits_tcpSendNodata _ _
  | reset => exact emits_reset (hp rfl)
  | ack => exact emits_tcpSendAck s

-- ---------------------------------------------------------------------------
-- What is sent without the application
-- ---------------------------------------------------------------------------

inductive Control : Stack → Prop
  | drop (s : Stack) : Control (uipDrop s)
  | nodata (s : Stack) {flags : UInt8} : flags &&& TCP_URG = 0 → Control (tcpSendNodata s flags)
  | syn (s : Stack) {flags : UInt8} : flags &&& TCP_URG = 0 → Control (tcpSendSyn s flags)

theorem emits_control (h : Control s) : Emits s := by
  cases h with
  | drop s => exact emits_drop s
  | nodata s => exact emits_tcpSendNodata s _
  | syn s => exact emits_tcpSendSyn s _

theorem control_ack (s : Stack) : Control (tcpSendAck s) := .nodata s (by decide)

theorem control_finack (s : Stack) : Control (tcpSendFinack s) := .nodata s (by decide)

theorem control_synack (s : Stack) : Control (tcpSendSynack s) := .syn s (by decide)

/-- A step has ended without data, or has called the application; the headers that
it refuses are still in the buffer. -/
def Next.Controls (hdr : TcpipHdr) : Next → Prop
  | .done s => Control s
  | .appcall r s => r = .reset → s.buf.hdr = hdr

theorem controls_call {hdr : TcpipHdr} {r : Resume} (hr : r ≠ .reset) :
    (Next.appcall r s).Controls hdr :=
  fun h => absurd h hr

theorem controls_rexmit (s : Stack) (hdr : TcpipHdr) : (uipRexmit s).Controls hdr := by
  rw [uipRexmit]
  split
  · exact control_synack _
  · exact .syn _ (by decide)
  · exact controls_call (by decide)
  · exact control_finack _
  · exact control_finack _
  · exact control_finack _
  · exact .drop _

theorem controls_timer (s : Stack) (hdr : TcpipHdr) : (uipTimer s).Controls hdr := by
  rw [uipTimer]
  dsimp only
  split
  · exact .drop _
  · split
    · split
      · split
        · split
          · exact controls_call (by decide)
          · exact controls_rexmit _ _
        · exact .drop _
      · split
        · exact controls_call (by decide)
        · exact .drop _
    · exact .drop _

theorem controls_poll (s : Stack) (hdr : TcpipHdr) : (uipPoll s).Controls hdr := by
  rw [uipPoll]
  dsimp only
  split
  · exact controls_call (by decide)
  · exact .drop _

theorem controls_established (s : Stack) (hdr : TcpipHdr) : (uipEstablished s).Controls hdr := by
  rw [uipEstablished]
  dsimp only
  split
  · split
    · exact .drop s
    · exact controls_call (by decide)
  · split
    · exact controls_call (by decide)
    · exact .drop _

theorem controls_finWait1 (s : Stack) (hdr : TcpipHdr) : (uipFinWait1 s).Controls hdr := by
  rw [uipFinWait1]
  generalize (if s.len > 0 then uipAddRcvNxt s s.len else s) = t
  dsimp only
  split
  · exact controls_call (by decide)
  · split
    · exact .drop _
    · split
      · exact control_ack t
      · exact .drop t

theorem controls_finWait2 (s : Stack) (hdr : TcpipHdr) : (uipFinWait2 s).Controls hdr := by
  rw [uipFinWait2]
  generalize (if s.len > 0 then uipAddRcvNxt s s.len else s) = t
  dsimp only
  split
  · exact controls_call (by decide)
  · split
    · exact control_ack t
    · exact .drop t

theorem controls_switch (hn : (uipSwitch s).Returns n) : n.Controls s.buf.hdr := by
  rw [uipSwitch] at hn
  split at hn
  · obtain rfl := Comp.returns_pure.mp hn
    rw [uipSynRcvd]
    split
    · exact controls_call (by decide)
    · exact .drop s
  · rw [uipSynSent] at hn
    split at hn
    · obtain ⟨mss, -, hn⟩ := Comp.returns_bind.mp hn
      obtain rfl := Comp.returns_pure.mp hn
      exact controls_call (by decide)
    · obtain rfl := Comp.returns_pure.mp hn
      exact fun _ => rfl
  · exact Comp.returns_pure.mp hn ▸ controls_established s _
  · obtain rfl := Comp.returns_pure.mp hn
    rw [uipLastAck]
    split
    · exact controls_call (by decide)
    · exact .drop s
  · exact Comp.returns_pure.mp hn ▸ controls_finWait1 s _
  · exact Comp.returns_pure.mp hn ▸ controls_finWait2 s _
  · exact Comp.returns_pure.mp hn ▸ control_ack s
  · exact Comp.returns_pure.mp hn ▸ .drop _
  · exact Comp.returns_pure.mp hn ▸ .drop s

theorem controls_found (hn : (uipFound s i).Returns n) : n.Controls s.buf.hdr := by
  rw [uipFound] at hn
  dsimp only at hn
  split at hn
  · obtain rfl := Comp.returns_pure.mp hn
    exact controls_call (by decide)
  · split at hn
    · exact Comp.returns_pure.mp hn ▸ control_ack _
    · have hswitch := controls_switch hn
      rw [uipAcks] at hswitch
      split at hswitch <;> exact hswitch

theorem controls_foundListen (hdr : TcpipHdr) (hn : (uipFoundListen s).Returns n) :
    n.Controls hdr := by
  rw [uipFoundListen] at hn
  split at hn
  · exact Comp.returns_pure.mp hn ▸ .drop _
  · obtain ⟨mss, -, hn⟩ := Comp.returns_bind.mp hn
    exact Comp.returns_pure.mp hn ▸ control_synack _

-- ---------------------------------------------------------------------------
-- Echo replies
-- ---------------------------------------------------------------------------

theorem sumWords_echoReply (h : TcpipHdr) : sumWords (h.echoReply h.destipaddr).ipBytes =
    sumWords h.ipBytes := by
  simp only [TcpipHdr.ipBytes, TcpipHdr.echoReply, Ipaddr.bytes, List.cons_append,
    List.nil_append, sumWords]
  omega

def Stack.replied (s : Stack) : Stack :=
  uipReturn (s.trimmed.setHdr (s.buf.hdr.echoReply s.hostaddr))

theorem valid_echoReply (ha : Accepted s) (hhost : s.hostaddr ≠ (0, 0))
    (h20 : 20 ≤ s.trimmed.len.toNat)
    (hmax : s.trimmed.len.toNat ≤ UIP_BUF_SIZE) : Ipv4.Valid s.replied.packet := by
  have hsum := (uipIpchksum_iff s.buf).mp ha.ipchksum
  rw [← sumWords_echoReply, ha.destipaddr hhost] at hsum
  exact valid_packet (s := s.replied) h20 hmax ha.vhl rfl ha.ipoffset hsum

theorem emits_echo (ha : Accepted s) (hhost : s.hostaddr ≠ (0, 0)) (hlen : s.len.toNat ≤ BUFSIZE)
    (hp : s.buf.hdr.proto = UIP_PROTO_ICMP) : Emits (icmpInput s.trimmed) := by
  have hle : s.trimmed.len.toNat ≤ BUFSIZE := Nat.le_trans (UInt16.le_iff_toNat_le.mp ha.len) hlen
  rw [icmpInput]
  split
  · exact emits_drop _
  · refine ⟨hle, .inr (.inr ⟨hp, wordHi_word _ _, fun h20 => ?_⟩)⟩
    exact valid_echoReply ha hhost h20 (Nat.le_trans hle (by decide))

/-- A step has left a packet to be sent, or has called the application. -/
def Sound (s : Stack) : Option Resume → Prop
  | none => Emits s
  | some r => r = .reset → s.buf.hdr.proto = UIP_PROTO_TCP

def Next.Sound (n : Next) : Prop := Tcpip.Sound n.stack n.resume

theorem sound_controls {hdr : TcpipHdr} (hp : hdr.proto = UIP_PROTO_TCP) (h : n.Controls hdr) :
    n.Sound := by
  cases n with
  | done s => exact emits_control h
  | appcall r s => exact fun hr => (congrArg TcpipHdr.proto (h hr)).trans hp

theorem sound_own (h : ∀ hdr, n.Controls hdr) : n.Sound := by
  have hp : { TcpipHdr.zero with proto := UIP_PROTO_TCP }.proto = UIP_PROTO_TCP := rfl
  exact sound_controls hp (h _)

theorem sound_input (hhost : s.hostaddr ≠ (0, 0)) (hlen : s.len.toNat ≤ BUFSIZE)
    (hn : (uipInput s).Returns n) :
    n.Sound := by
  cases input_uipInput hn with
  | @ignored t _ _ hzero => exact show Emits t from emits_nothing hzero
  | echo ha hp => exact emits_echo ha hhost hlen hp
  | reset ha _ => exact show Emits (uipReset s.trimmed) from emits_reset ha.proto
  | listen ha _ _ _ hlisten => exact sound_controls ha.proto (controls_foundListen _ hlisten)
  | found ha _ hfound =>
    have hp : s.trimmed.buf.hdr.proto = UIP_PROTO_TCP := ha.proto
    exact sound_controls hp (controls_found hfound)

-- ---------------------------------------------------------------------------
-- Every run
-- ---------------------------------------------------------------------------

theorem sound_step (hok : h.Ok) (hs : Sound h.stack h.calling) (hstep : HostStep h e h') :
    Sound h'.stack h'.calling := by
  cases hstep with
  | @receive s frame n hlen hn =>
    have hhost : s.hostaddr ≠ (0, 0) := by
      rw [hok.hostaddr]
      decide
    refine sound_input (s := s.receive frame) hhost ?_ hn
    show (UInt16.ofNat frame.length).toNat ≤ BUFSIZE
    exact Nat.le_trans (Nat.mod_le _ _) hlen
  | periodic => exact sound_own (controls_timer _)
  | poll => exact sound_own (controls_poll _)
  | connect hr =>
    obtain ⟨-, lastport, conns, -, hframe⟩ := connect_cases hr
    rw [hframe]
    exact hs
  | @listen s port =>
    obtain ⟨listenports, hframe⟩ := setListen_frame s port (s.findListen 0)
    rw [uipListen, hframe]
    exact hs
  | @unlisten s port =>
    obtain ⟨listenports, hframe⟩ := setListen_frame s 0 (s.findListen port)
    rw [uipUnlisten, hframe]
    exact hs
  | memory => exact hs
  | @appReturn s r resume =>
    refine emits_resume ?_ fun hr => hs hr
    rw [uipAppReturn, Stack.cur_setConn]
    have hb := hok.bounded s.conn
    exact ⟨hb.len, hb.mss, hb.initialmss, hb.nrtx⟩

theorem sound_run {behind : Nat → UInt8} {iss : Seqno} {lastport : UInt16}
    (hrun : Run HostStep (networkInit behind iss lastport) es h) :
    h.Ok ∧ Sound h.stack h.calling := by
  have h0 : Sound (networkInit behind iss lastport).stack none := emits_nothing rfl
  refine hrun.invariant (fun _ h => h.Ok ∧ Sound h.stack h.calling) ⟨ok_networkInit .., h0⟩
    fun _ _ _ _ _ hi hstep => ?_
  exact ⟨ok_change (change_step hstep) hi.1, sound_step hi.1 hi.2 hstep⟩

/-- In every run, every packet that is to be sent is a valid TCP packet or an
echo reply. -/
theorem packets_valid (hr : Reaches es h) (hcalling : h.calling = none) : Emits h.stack := by
  obtain ⟨behind, iss, lastport, -, -, hrun⟩ := hr
  have hsound := (sound_run hrun).2
  rw [hcalling] at hsound
  exact hsound

theorem packets_valid_syn : ∃ h, Reaches opening h ∧ h.stack.len = 44 ∧ Emits h.stack := by
  have hrun : (opening.foldlM (Host.stepRun 3) openingHost).map
    (fun h => (h.calling, h.stack.len)) =
      some (none, 44) := by decide +kernel
  obtain ⟨h, hh, hobserved⟩ := Option.map_eq_some_iff.mp hrun
  obtain ⟨hcalling, hlen⟩ := Prod.mk.inj hobserved
  have hr := reaches_of_stepRun (by decide) hh
  exact ⟨h, hr, hlen, packets_valid hr hcalling⟩

end FxIP.Tcpip
