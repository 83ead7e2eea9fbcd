import FxIP.Tcpip.Emitted
import FxIP.Tcpip.Timer

/-!
# The segments of a connection

A segment that is sent for a connection has its addresses and ports, its place in
the stream and the number that is expected next. No other packet of the host can
be taken for one.
-/

namespace FxIP.Tcpip

variable {h h' : Host} {s t : Stack} {c c' : UipConn} {e : Event} {es : List Event} {n : Next}
    {i j : Fin UIP_CONNS}
variable {data : List UInt8}

/-- What of the headers tells the receiver which connection the segment is for. -/
def TcpipHdr.key (h : TcpipHdr) : Ipaddr × UInt16 × UInt16 := (h.destipaddr, h.srcport, h.destport)

/-- The packet is a segment of connection `c` with these data. -/
structure Bears (c : UipConn) (s : Stack) (data : List UInt8) : Prop where
  key : s.buf.hdr.key = c.key
  seqno : s.buf.hdr.seqno = c.sndNxt
  ackno : s.buf.hdr.ackno = c.rcvNxt
  total : s.buf.hdr.totalLen = s.len.toNat
  len : s.len.toNat = s.buf.hdr.headersLen + data.length
  headers : 40 ≤ s.buf.hdr.headersLen ∧ s.buf.hdr.headersLen ≤ 80
  urg : ¬ s.buf.hdr.has TCP_URG
  data : data ≠ [] → s.buf.hdr.headersLen = 40 ∧ s.buf.data.cells.take data.length = data

theorem not_urg {flags : UInt8} (h : flags &&& TCP_URG = 0) (hdr : TcpipHdr)
    (hflags : hdr.flags = flags) :
    ¬ hdr.has TCP_URG := by
  rw [TcpipHdr.has, hflags, h]
  decide

theorem totalLen_word {hdr : TcpipHdr} (len : UInt16) (hlen : hdr.len = (wordHi len, wordLo len)) :
    hdr.totalLen = len.toNat := by
  rw [TcpipHdr.totalLen, hlen, word_wordHi_wordLo]

theorem headersLen_noopts {hdr : TcpipHdr} (h : hdr.tcpoffset = 0x50) : hdr.headersLen = 40 := by
  rw [TcpipHdr.headersLen, h]
  rfl

theorem headersLen_syn {hdr : TcpipHdr} (h : hdr.tcpoffset = 0x60) : hdr.headersLen = 44 := by
  rw [TcpipHdr.headersLen, h]
  rfl

theorem tcpSendNoopts_len (s : Stack) (flags : UInt8) (len : UInt16) :
    (tcpSendNoopts s flags len).len = len := rfl

theorem bears_tcpSendNoopts (s : Stack) {flags : UInt8} {len : UInt16}
    (hurg : flags &&& TCP_URG = 0)
    (hlen : len.toNat = 40 + data.length) (hdata : s.buf.data.cells.take data.length = data) :
    Bears s.cur (tcpSendNoopts s flags len) data where
  key := rfl
  seqno := rfl
  ackno := rfl
  total := totalLen_word len rfl
  len := by rw [headersLen_noopts rfl, ← hlen, tcpSendNoopts_len]
  headers := by
    rw [headersLen_noopts rfl]
    decide
  urg := not_urg hurg _ rfl
  data _ := ⟨headersLen_noopts rfl, hdata⟩

theorem bears_tcpSendNodata (s : Stack) {flags : UInt8} (hurg : flags &&& TCP_URG = 0) :
    Bears s.cur (tcpSendNodata s flags) [] := bears_tcpSendNoopts s hurg rfl rfl

theorem bears_tcpSendSyn (s : Stack) {flags : UInt8} (hurg : flags &&& TCP_URG = 0) :
    Bears s.cur (tcpSendSyn s flags) [] where
  key := rfl
  seqno := rfl
  ackno := rfl
  total := totalLen_word (UIP_IPTCPH_LEN + 4) rfl
  len := by
    rw [headersLen_syn rfl]
    rfl
  headers := by
    rw [headersLen_syn rfl]
    decide
  urg := not_urg hurg _ rfl
  data h := absurd rfl h

theorem bears_control (h : Control t) : t.len = 0 ∨ Bears t.cur t [] := by
  cases h with
  | drop s => exact .inl rfl
  | nodata s hurg =>
    rw [(sends_tcpSendNodata _ _).cur]
    exact .inr (bears_tcpSendNodata s hurg)
  | syn s hurg =>
    rw [(sends_tcpSendSyn _ _).cur]
    exact .inr (bears_tcpSendSyn s hurg)

theorem bears_apprexmit (s : Stack) (hlen : s.cur.len ≤ TCP_MSS) :
    (uipApprexmit s).len = 0 ∨ Bears s.cur (uipApprexmit s) [] ∨
      (s.slen > 0 ∧ s.cur.len > 0 ∧ Bears s.cur (uipApprexmit s)
        (s.buf.data.cells.take s.cur.len.toNat)) := by
  have hle : s.cur.len.toNat ≤ 1460 := UInt16.le_iff_toNat_le.mp hlen
  rw [uipApprexmit]
  dsimp only
  split
  · rename_i hpos
    refine .inr (.inr ⟨hpos.1, hpos.2, ?_⟩)
    have htake : (s.buf.data.cells.take s.cur.len.toNat).length = s.cur.len.toNat := by
      rw [List.length_take, s.buf.data.size, UIP_DATA_SIZE]
      omega
    refine bears_tcpSendNoopts { s with appdata := 0 } (by decide) ?_ ?_
    · show (s.cur.len + UIP_IPTCPH_LEN).toNat = _
      rw [UInt16.toNat_add, show UIP_IPTCPH_LEN.toNat = 40 from rfl, htake]
      omega
    · show s.buf.data.cells.take _ = _
      rw [htake]
  · split
    · exact .inr (.inl (bears_tcpSendNoopts { s with appdata := 0 } (by decide) rfl rfl))
    · exact .inl rfl

theorem key_reset (s : Stack) : (uipReset s).len = 0 ∨
    (uipReset s).buf.hdr.key = (s.buf.hdr.srcipaddr, s.buf.hdr.destport, s.buf.hdr.srcport) := by
  rw [uipReset]
  split
  · exact .inl rfl
  · exact .inr rfl

-- ---------------------------------------------------------------------------
-- Whose segment a packet is
-- ---------------------------------------------------------------------------

/-- The packet is to be taken for a segment of connection `i`. -/
structure Taken (i : Fin UIP_CONNS) (s : Stack) : Prop where
  len : s.len ≠ 0
  proto : s.buf.hdr.proto = UIP_PROTO_TCP
  key : s.buf.hdr.key = (s.conns i).key

instance (i : Fin UIP_CONNS) (s : Stack) : Decidable (Taken i s) :=
  decidable_of_iff (s.len ≠ 0 ∧ s.buf.hdr.proto = UIP_PROTO_TCP ∧ s.buf.hdr.key = (s.conns i).key)
    ⟨fun ⟨h1, h2, h3⟩ => ⟨h1, h2, h3⟩, fun h => ⟨h.len, h.proto, h.key⟩⟩

/-- The segment of connection `i`, with these data. -/
def Segment (i : Fin UIP_CONNS) (s : Stack) (data : List UInt8) : Prop := Bears (s.conns i) s data

theorem open_of_established (h : c.state = .established) : c.tcpstateflags ≠ .closed := by
  intro hclosed
  rw [UipConn.state, hclosed] at h
  cases h

theorem conn_of_key (hkeys : ∀ k, k ≠ t.conn → (t.conns k).tcpstateflags ≠ .closed →
    (t.conns k).key ≠ t.cur.key)
    (hest : (t.conns i).state = .established) (hkey : t.cur.key = (t.conns i).key) :
    t.conn = i := by
  by_contra hne
  exact hkeys i (Ne.symm hne) (open_of_established hest) hkey.symm

theorem segment_control (hc : Control t)
    (hkeys : ∀ k, k ≠ t.conn → (t.conns k).tcpstateflags ≠ .closed → (t.conns k).key ≠ t.cur.key)
    (hest : (t.conns i).state = .established) (htaken : Taken i t) : Segment i t [] := by
  rcases bears_control hc with hzero | hbears
  · exact absurd hzero htaken.len
  · have hconn := conn_of_key hkeys hest (hbears.key.symm.trans htaken.key)
    subst hconn
    exact hbears

theorem not_taken_reset (hnone : s.demultiplex = none) (hest : (s.conns i).state = .established) :
    ¬ Taken i (uipReset s) := by
  intro htaken
  have hconns : (uipReset s).conns = s.conns := (sends_reset s).conns
  rcases key_reset s with hzero | hkey
  · exact htaken.len hzero
  · have hkeys := hkey.symm.trans htaken.key
    rw [hconns] at hkeys
    simp only [UipConn.key, Prod.mk.injEq] at hkeys
    exact not_matches_of_none hnone i ⟨open_of_established hest, hkeys.2.1, hkeys.2.2, hkeys.1⟩

theorem keys_kept (hok : h.Ok) (hj : h.Engaged j) (hk : Kept j h.stack t) :
    ∀ k, k ≠ t.conn → (t.conns k).tcpstateflags ≠ .closed → (t.conns k).key ≠ t.cur.key := by
  intro k hkj hopen
  rw [hk.conn] at hkj
  rw [hk.cur, hk.distinct, hk.distinct]
  rw [hk.others k hkj] at hopen
  exact hok.distinct k j hkj (.inl hopen) hj

/-- The headers in the buffer are those that are refused when the application
returns. -/
def Refusing (h : Host) : Prop :=
  h.calling = some .reset → (h.stack.buf.hdr.srcipaddr, h.stack.buf.hdr.destport,
    h.stack.buf.hdr.srcport) = h.stack.cur.key

section
variable {frame : List UInt8}

theorem segment_done {hdr : TcpipHdr} (hc : n.Controls hdr) (hdone : n.resume = none)
    (hkeys : ∀ k, k ≠ n.stack.conn → (n.stack.conns k).tcpstateflags ≠ .closed →
      (n.stack.conns k).key ≠ n.stack.cur.key)
    (hest : (n.stack.conns i).state = .established) (htaken : Taken i n.stack) :
    Segment i n.stack [] := by
  cases n with
  | done t => exact segment_control hc hkeys hest htaken
  | appcall r t => cases hdone

theorem segment_receive (hok : Host.Ok ⟨s, none⟩) (hok' : n.host.Ok)
    (hn : (uipInput (s.receive frame)).Returns n)
    (hdone : n.resume = none) (hest : (n.stack.conns i).state = .established)
    (htaken : Taken i n.stack) :
    Segment i n.stack [] := by
  cases input_uipInput hn with
  | ignored _ _ hzero => exact absurd hzero htaken.len
  | echo _ hp =>
    have hproto := htaken.proto
    have hsame : (icmpInput (s.receive frame).trimmed).buf.hdr.proto =
        (s.receive frame).buf.hdr.proto := by
      rw [icmpInput]
      split <;> rfl
    rw [Next.stack, hsame, hp] at hproto
    exact absurd hproto (by decide)
  | reset _ hnone =>
    have hconns : (uipReset (s.receive frame).trimmed).conns = s.conns := (sends_reset _).conns
    rw [Next.stack, hconns] at hest
    exact absurd htaken (not_taken_reset (s := (s.receive frame).trimmed) hnone hest)
  | listen _ hnone _ _ hlisten =>
    rcases foundListen_cases (s := (s.receive frame).trimmed) hnone hlisten
      with ⟨k, hopens, hconn, -⟩ | ⟨u, rfl, -, hzero⟩
    · refine segment_done (controls_foundListen s.buf.hdr hlisten) hdone (fun l hl hopen => ?_) hest
        htaken
      subst hconn
      refine hok'.distinct l n.stack.conn hl (.inl hopen) (.inl ?_)
      rcases hopens.state with hst | hst
      · exact fun h => by cases hst.symm.trans h
      · exact fun h => by cases hst.symm.trans h
    · exact absurd hzero htaken.len
  | @found _ j _ hj hfound =>
    have hkept := (kept_found _ hfound).of_sends (sends_trimmed s frame)
    have hengaged : Host.Engaged ⟨s, none⟩ j := .inl (matches_of_some hj).1
    exact segment_done (controls_found hfound) hdone (keys_kept hok hengaged hkept) hest htaken

theorem segment_own {hdr : TcpipHdr} (hok : Host.Ok ⟨s, none⟩) (hk : Kept j s n.stack)
    (hc : n.Controls hdr) (hclosed : (s.conns j).tcpstateflags = .closed →
      n.resume = none ∧ n.stack.cur = s.conns j ∧ n.stack.len = 0)
    (hdone : n.resume = none) (hest : (n.stack.conns i).state = .established)
    (htaken : Taken i n.stack) :
    Segment i n.stack [] := by
  by_cases hopen : (s.conns j).tcpstateflags = .closed
  · exact absurd (hclosed hopen).2.2 htaken.len
  · exact segment_done hc hdone (keys_kept hok (.inl hopen) hk) hest htaken

theorem segment_apprexmit (hlen : s.cur.len ≤ TCP_MSS)
    (hkeys : ∀ k, k ≠ s.conn → (s.conns k).tcpstateflags ≠ .closed → (s.conns k).key ≠ s.cur.key)
    (hest : (s.conns i).state = .established) (htaken : Taken i (uipApprexmit s)) :
    Segment i (uipApprexmit s) [] ∨ s.conn = i ∧ s.slen > 0 ∧ s.cur.len > 0 ∧
      Segment i (uipApprexmit s) (s.buf.data.cells.take (s.conns i).len.toNat) := by
  have hs := sends_apprexmit s
  have hkey := htaken.key
  rw [hs.conns] at hkey
  have hconn {data : List UInt8} (hb : Bears s.cur (uipApprexmit s) data) : s.conn = i :=
    conn_of_key hkeys hest (hb.key.symm.trans hkey)
  rcases bears_apprexmit s hlen with hzero | hb | ⟨hslen, hpos, hb⟩
  · exact absurd hzero htaken.len
  · refine .inl ?_
    rw [Segment, hs.conns, ← hconn hb]
    exact hb
  · refine .inr ⟨hconn hb, hslen, hpos, ?_⟩
    rw [Segment, hs.conns, ← hconn hb]
    exact hb

theorem appsendLen_frame (s : Stack) :
    (uipAppsendLen s).buf = s.buf ∧ (uipAppsendLen s).conn = s.conn ∧
    ((uipAppsendLen s).slen > 0 → s.slen > 0) := by
  rw [uipAppsendLen]
  split
  · rename_i hpos
    have hframe : (if s.flags.acked then s.setConn { s.cur with len := 0 } else s).buf = s.buf ∧
        (if s.flags.acked then s.setConn { s.cur with len := 0 } else s).conn = s.conn := by
      split <;> exact ⟨rfl, rfl⟩
    generalize (if s.flags.acked then s.setConn { s.cur with len := 0 } else s) = u at hframe
    dsimp only
    split
    · exact ⟨hframe.1, hframe.2, fun _ => hpos⟩
    · exact ⟨hframe.1, hframe.2, fun _ => hpos⟩
  · exact ⟨rfl, rfl, id⟩

theorem appsend_cases (s : Stack) : Control (uipAppsend s) ∨ ∃ t, uipAppsend s = uipApprexmit t ∧
    t.buf = s.buf ∧ t.conn = s.conn ∧ (t.slen > 0 → s.slen > 0) ∧ t.cur.len =
      (uipAppsendLen s).cur.len := by
  rw [uipAppsend]
  split
  · exact .inl (.nodata _ (by decide))
  · split
    · exact .inl (.nodata _ (by decide))
    · obtain ⟨hbuf, hconn, hslen⟩ := appsendLen_frame s
      refine .inr ⟨_, rfl, hbuf, hconn, hslen, ?_⟩
      rw [Stack.cur_setConn]

theorem segment_return {a : AppReturn} {r : Resume} (hok : Host.Ok ⟨s, some r⟩)
    (hrefuse : Refusing ⟨s, some r⟩)
    (hest : ((uipResume (uipAppReturn s a) r).conns i).state = .established)
    (htaken : Taken i (uipResume (uipAppReturn s a) r)) :
    let t := uipResume (uipAppReturn s a) r
    Segment i t [] ∨ s.conn = i ∧ (r = .appsend ∨ r = .apprexmit) ∧ a.slen > 0 ∧
      (t.conns i).len > 0 ∧
      Segment i t (a.data.cells.take (t.conns i).len.toNat) := by
  intro t
  have hkr := kept_appReturn a (.refl s)
  have hk := kept_resume (r := r) hkr
  have hkeys := keys_kept (h := ⟨s, some r⟩) hok (.inr ⟨Option.some_ne_none r, rfl⟩) hk
  have hcontrol (hc : Control t) : Segment i t [] := segment_control hc hkeys hest htaken
  have hlen : (uipAppReturn s a).cur.Bounded := by
    rw [hkr.cur]
    exact hkr.self.bounded (hok.bounded s.conn)
  have hdata (u : Stack) (ht : t = uipApprexmit u) (hbuf : u.buf.data = a.data)
    (hconn : u.conn = s.conn)
      (hslen : u.slen > 0 → a.slen > 0) (hulen : u.cur.len ≤ TCP_MSS) :
      Segment i t [] ∨ s.conn = i ∧ a.slen > 0 ∧ (t.conns i).len > 0 ∧
        Segment i t (a.data.cells.take (t.conns i).len.toNat) := by
    have hs := sends_apprexmit u
    rw [← ht] at hs
    have hukeys : ∀ k, k ≠ u.conn → (u.conns k).tcpstateflags ≠ .closed →
        (u.conns k).key ≠ u.cur.key := by
      rw [← hs.conns, ← hs.conn, ← hs.cur]
      exact hkeys
    have hsegment := segment_apprexmit hulen hukeys (hs.conns ▸ hest) (ht ▸ htaken)
    rw [← ht] at hsegment
    refine hsegment.imp_right ?_
    rintro ⟨hi, hpos, hlpos, hseg⟩
    refine ⟨hconn ▸ hi, hslen hpos, ?_, ?_⟩
    · rw [hs.conns, ← hi]
      exact hlpos
    · rw [hs.conns, ← hbuf]
      exact hseg
  cases r with
  | drop => exact .inl (hcontrol (.drop _))
  | timedout => exact .inl (hcontrol (.nodata _ (by decide)))
  | finack => exact .inl (hcontrol (control_finack _))
  | ack => exact .inl (hcontrol (control_ack _))
  | reset =>
    have hkey := hrefuse rfl
    have htkey : t.cur.key = s.cur.key := by
      rw [hk.cur, hk.self.key]
      rfl
    exfalso
    rcases key_reset ((uipAppReturn s a).setConn
      { (uipAppReturn s a).cur with tcpstateflags := .closed }) with
      hzero | hreset
    · exact htaken.len hzero
    · have hsame : t.cur.key = (t.conns i).key :=
        htkey.trans (hkey.symm.trans (hreset.symm.trans htaken.key))
      have hconn := conn_of_key hkeys hest hsame
      have hclosed : t.cur.state = .closed := by
        show (uipReset _).cur.state = _
        rw [(sends_reset _).cur, Stack.cur_setConn]
        rfl
      rw [Stack.cur, hconn, hest] at hclosed
      cases hclosed
  | apprexmit =>
    refine (hdata (uipAppReturn s a) rfl rfl rfl id hlen.len).imp_right ?_
    rintro ⟨hconn, hrest⟩
    exact ⟨hconn, .inr rfl, hrest⟩
  | appsend =>
    rcases appsend_cases (uipAppReturn s a) with hc | ⟨u, hu, hbuf, hconn, hslen, hulen⟩
    · exact .inl (hcontrol hc)
    · have hsend := kept_appsendLen (Kept.refl (uipAppReturn s a))
      have hbound : u.cur.len ≤ TCP_MSS := by
        rw [hulen, hsend.cur]
        exact (hsend.self.bounded hlen).len
      refine (hdata u hu (congrArg UipBuf.data hbuf) hconn hslen hbound).imp_right ?_
      rintro ⟨hconn, hrest⟩
      exact ⟨hconn, .inl rfl, hrest⟩
/-- The events after which a packet is sent, if one is left in the buffer. -/
def Event.emits : Event → Bool
  | .receive _ | .periodic _ | .poll _ | .appReturn _ => true
  | _ => false

/-- A packet that is taken for a segment of an open connection is one: without
data, or with those of the application. -/
theorem segment_step (hok : h.Ok) (hrefuse : Refusing h) (hstep : HostStep h e h') (he : e.emits)
    (hdone : h'.calling = none) (hest : (h'.stack.conns i).state = .established)
    (htaken : Taken i h'.stack) :
    Segment i h'.stack [] ∨ ∃ s a r, h = ⟨s, some r⟩ ∧ s.conn = i ∧
      (r = .appsend ∨ r = .apprexmit) ∧
      e = .appReturn a ∧
      h' = ⟨uipResume (uipAppReturn s a) r, none⟩ ∧ a.slen > 0 ∧ (h'.stack.conns i).len > 0 ∧
      Segment i h'.stack (a.data.cells.take (h'.stack.conns i).len.toNat) := by
  have hok' := ok_change (change_step hstep) hok
  cases hstep with
  | receive _ hn => exact .inl (segment_receive hok hok' hn hdone hest htaken)
  | @periodic s j =>
    exact .inl (segment_own hok (kept_timer (kept_select s j)) (controls_timer _ s.buf.hdr)
      (timer_closed (s := { s with conn := j })) hdone hest htaken)
  | @poll s j =>
    exact .inl (segment_own hok (kept_poll (kept_select s j)) (controls_poll _ s.buf.hdr)
      (poll_closed (s := { s with conn := j })) hdone hest htaken)
  | @appReturn s a r =>
    refine (segment_return hok hrefuse hest htaken).imp_right ?_
    rintro ⟨hi, hr, hpos, hlen, hseg⟩
    exact ⟨s, a, r, rfl, hi, hr, rfl, rfl, hpos, hlen, hseg⟩
  | connect | listen | unlisten | memory => cases he

theorem refusing_step (hstep : HostStep h e h') (hrefuse : Refusing h) : Refusing h' := by
  cases hstep with
  | @receive s frame n _ hn =>
    intro hreset
    cases input_uipInput hn with
    | ignored | echo | reset => cases hreset
    | listen _ hnone _ _ hlisten =>
      rcases foundListen_cases (s := (s.receive frame).trimmed) hnone hlisten with
        ⟨k, -, -, hdone⟩ | ⟨u, rfl, -⟩
      · cases hdone.symm.trans hreset
      · cases hreset
    | @found _ j _ hj hfound =>
      have hkept := kept_found _ hfound
      have hmatches := matches_of_some hj
      have hcontrols := controls_found hfound
      cases n with
      | done t => cases hreset
      | appcall r t =>
        have hhdr := hcontrols (Option.some.inj hreset)
        show (t.buf.hdr.srcipaddr, t.buf.hdr.destport, t.buf.hdr.srcport) = t.cur.key
        have hkey : t.cur.key = (s.conns j).key :=
          (congrArg UipConn.key hkept.cur).trans hkept.self.key
        rw [hhdr, hkey]
        exact Prod.ext hmatches.2.2.2 (Prod.ext hmatches.2.1 hmatches.2.2.1)
  | @periodic s j =>
    intro hreset
    exact absurd hreset (ticks_timer { s with conn := j }).1.not_reset
  | @poll s j =>
    intro hreset
    rw [uipPoll] at hreset
    dsimp only at hreset
    split at hreset <;> cases hreset
  | memory => exact hrefuse
  | connect | listen | unlisten | appReturn => exact fun h => by cases h
end

end FxIP.Tcpip
