import FxIP.Lib.Stream
import FxIP.Tcpip.Receiving

/-!
# Data in order

What the application is given of a connection is the stream of the peer, from
its first byte on and without a gap, whatever segments are lost, repeated or out
of order on the way.
-/

namespace FxIP.Tcpip

variable {h h' : Host} {s t : Stack} {c c' : UipConn} {e : Event} {es : List Event} {n : Next}
    {i j : Fin UIP_CONNS}

-- ---------------------------------------------------------------------------
-- The steps without data
-- ---------------------------------------------------------------------------

theorem idle_rexmit (hq : Quiet c s.cur) : Idle c (uipRexmit s) := by
  have hset : Quiet c (s.setConn { s.cur with
      timer := UIP_RTO <<< (if s.cur.nrtx > 4 then 4 else s.cur.nrtx),
          nrtx := s.cur.nrtx + 1 }).cur := by
    rw [Stack.cur_setConn]
    cases hq with
    | same h1 h2 => exact .same h1 h2
    | opened h1 h2 h3 => exact .opened h1 h2 h3
    | leaves h => exact .leaves h
  rw [uipRexmit]
  split
  · exact idle_sends (sends_tcpSendSynack _) hset
  · exact idle_sends (sends_tcpSendSyn _ _) hset
  · exact idle_call rfl (by decide) hset
  · exact idle_sends (sends_tcpSendFinack _) hset
  · exact idle_sends (sends_tcpSendFinack _) hset
  · exact idle_sends (sends_tcpSendFinack _) hset
  · exact idle_sends (sends_drop _) hset

theorem idle_timer (s : Stack) : Idle s.cur (uipTimer s) := by
  rw [uipTimer]
  have hcur : s.cur = ({ s with appdata := 0, iss := s.iss.inc3, len := 0, slen := 0 } :
    Stack).cur := rfl
  rw [hcur]
  generalize ({ s with appdata := 0, iss := s.iss.inc3, len := 0, slen := 0 } : Stack) = t
  dsimp only
  split
  · rename_i hwait
    refine idle_sends (sends_drop _) ?_
    rw [Stack.cur_setConn]
    split
    · exact .leaves id
    · exact .same rfl rfl
  · split
    · split
      · have hset : Quiet t.cur (t.setConn { t.cur with timer := t.cur.timer - 1 }).cur := by
          rw [Stack.cur_setConn]
          exact .same rfl rfl
        generalize t.setConn { t.cur with timer := t.cur.timer - 1 } = u at hset
        split
        · split
          · refine idle_closed .closed ?_ id rfl (by decide)
            show (u.setConn { u.cur with tcpstateflags := .closed }).cur.state = _
            rw [Stack.cur_setConn]
            rfl
          · exact idle_rexmit hset
        · exact idle_sends (sends_drop u) hset
      · split
        · exact idle_call rfl (by decide) (.refl _)
        · exact idle_sends (sends_drop t) (.refl _)
    · exact idle_sends (sends_drop t) (.refl _)

theorem idle_poll (s : Stack) : Idle s.cur (uipPoll s) := by
  rw [uipPoll]
  dsimp only
  split
  · exact idle_call rfl (by decide) (.refl _)
  · exact idle_sends (t := { s with appdata := 0 }) (sends_drop _) (.refl _)

-- ---------------------------------------------------------------------------
-- The application has returned
-- ---------------------------------------------------------------------------

theorem Quiet.setConn {c'' : UipConn} (hq : Quiet c s.cur) (hstate : c''.state = s.cur.state)
    (hrcv : c''.rcvNxt = s.cur.rcvNxt) : Quiet c (s.setConn c'').cur := by
  rw [Stack.cur_setConn]
  cases hq with
  | same h1 h2 => exact .same (hstate.trans h1) (hrcv.trans h2)
  | opened h1 h2 h3 => exact .opened h1 (hstate.trans h2) (hrcv.trans h3)
  | leaves h => exact .leaves (hstate ▸ h)

theorem Quiet.close {c'' : UipConn} (hstate : ¬ Reading c''.state) :
    Quiet c (s.setConn c'').cur := by
  rw [Stack.cur_setConn]
  exact .leaves hstate

theorem quiet_appsendLen (s : Stack) : Quiet s.cur (uipAppsendLen s).cur := by
  rw [uipAppsendLen]
  split
  · have hacked : Quiet s.cur (if s.flags.acked then s.setConn { s.cur with len := 0 }
        else s).cur := by
      split
      · exact (Quiet.refl _).setConn rfl rfl
      · exact .refl _
    generalize (if s.flags.acked then s.setConn { s.cur with len := 0 } else s) = u at hacked
    dsimp only
    split
    · exact hacked.setConn rfl rfl
    · exact hacked
  · exact .refl _

theorem quiet_appsend (s : Stack) : Quiet s.cur (uipAppsend s).cur := by
  rw [uipAppsend]
  split
  · exact quiet_sends (sends_tcpSendNodata _ _) (.close id)
  · split
    · exact quiet_sends (sends_tcpSendNodata _ _) (.close id)
    · exact quiet_sends (sends_apprexmit _) ((quiet_appsendLen s).setConn rfl rfl)

theorem quiet_resume (s : Stack) (r : Resume) :
    Quiet s.cur (uipResume s r).cur ∧ (r = .finack → ¬ Reading (uipResume s r).cur.state) := by
  cases r with
  | drop => exact ⟨quiet_sends (sends_drop s) (.refl _), fun h => (by cases h)⟩
  | appsend => exact ⟨quiet_appsend s, fun h => (by cases h)⟩
  | apprexmit => exact ⟨quiet_sends (sends_apprexmit s) (.refl _), fun h => (by cases h)⟩
  | timedout => exact ⟨quiet_sends (sends_tcpSendNodata _ _) (.refl _), fun h => (by cases h)⟩
  | finack =>
    have hcur := (sends_tcpSendFinack (s.setConn
      { s.cur with len := 1, tcpstateflags := { state := .lastAck }, nrtx := 0 })).cur
    have hnot : ¬ Reading (uipResume s .finack).cur.state := by
      rw [uipResume, hcur, Stack.cur_setConn]
      exact id
    exact ⟨.leaves hnot, fun _ => hnot⟩
  | reset => exact ⟨quiet_sends (sends_reset _) (.close id), fun h => (by cases h)⟩
  | ack => exact ⟨quiet_sends (sends_tcpSendAck s) (.refl _), fun h => (by cases h)⟩

theorem quiet_appReturn (s : Stack) (a : AppReturn) (r : Resume) :
    Quiet s.cur (uipResume (uipAppReturn s a) r).cur ∧
      (r = .finack → ¬ Reading (uipResume (uipAppReturn s a) r).cur.state) := by
  obtain ⟨hq, hfin⟩ := quiet_resume (uipAppReturn s a) r
  have hcur : (uipAppReturn s a).cur =
      { s.cur with tcpstateflags := { s.cur.tcpstateflags with stopped := a.stopped } } :=
    Function.update_self ..
  rw [hcur] at hq
  exact ⟨hq.of_eq rfl rfl, hfin⟩

-- ---------------------------------------------------------------------------
-- A step of the host
-- ---------------------------------------------------------------------------

/-- What the application is given of connection `i` in a step. -/
def Host.given (h h' : Host) (i : Fin UIP_CONNS) : List UInt8 :=
  if h.calling = none ∧ h'.calling ≠ none ∧ h'.stack.conn = i then h'.stack.newdata else []

/-- The application is called for the end of the stream. -/
def Host.Finishing (h : Host) (i : Fin UIP_CONNS) : Prop :=
  h.calling = some .finack ∧ h.stack.conn = i

/-- What a step does to connection `i`. -/
inductive Delivers (i : Fin UIP_CONNS) (h : Host) (e : Event) (h' : Host) : Prop
  | idle : h.given h' i = [] → Quiet (h.stack.conns i) (h'.stack.conns i) →
      (Reading (h'.stack.conns i).state → (h'.Finishing i ↔ h.Finishing i)) → Delivers i h e h'
  | opened : h.given h' i = [] → h'.calling = none → (h'.stack.conns i).state = .synSent ∨
      (h'.stack.conns i).state = .synRcvd → Delivers i h e h'
  | segment {frame n} : e = .receive frame → frame.length ≤ BUFSIZE → h.calling = none →
      h' = n.host →
      n.stack.conn = i → AcceptedTcp (h.stack.receive frame) →
      (h.stack.conns i).Matches (h.stack.buf.receive frame).hdr →
      Receives (h.stack.buf.receive frame) (h.stack.receive frame).trimmed.dataLen
        (h.stack.conns i) n →
      Delivers i h e h'

theorem given_of_done (hdone : h'.calling = none) : h.given h' i = [] :=
  if_neg fun hc => hc.2.1 hdone

theorem given_next (s : Stack) (hconn : n.stack.conn = i) :
    Host.given ⟨s, none⟩ n.host i = n.given := by
  cases n with
  | done t => exact given_of_done rfl
  | appcall r t => exact if_pos ⟨rfl, Option.some_ne_none r, hconn⟩

theorem delivers_elsewhere (hconns : h'.stack.conns i = h.stack.conns i)
    (hfree : h.calling ≠ none → h.stack.conn ≠ i)
    (hother : h'.calling ≠ none → h'.stack.conn ≠ i) : Delivers i h e h' := by
  refine .idle (if_neg fun hc => hother hc.2.1 hc.2.2) (hconns ▸ .refl _) fun _ => ⟨?_, ?_⟩
  · rintro ⟨hcalling, hconn⟩
    exact absurd hconn (hother (hcalling ▸ Option.some_ne_none _))
  · rintro ⟨hcalling, hconn⟩
    exact absurd hconn (hfree (hcalling ▸ Option.some_ne_none _))

theorem delivers_idle (hconn : n.stack.conn = i) (hidle : Idle (s.conns i) n) :
    Delivers i ⟨s, none⟩ e n.host := by
  refine .idle ((given_next s hconn).trans hidle.given) ?_ fun _ => ⟨?_, ?_⟩
  · show Quiet (s.conns i) (n.stack.conns i)
    have hcur : n.stack.cur = n.stack.conns i := by rw [Stack.cur, hconn]
    exact hcur ▸ hidle.quiet
  · rintro ⟨hcalling, -⟩
    exact absurd hcalling hidle.resume
  · rintro ⟨hcalling, -⟩
    cases hcalling

theorem delivers_step (hstep : HostStep h e h')
    (hurg : ∀ frame, e = .receive frame → Reading (h.stack.conns i).state →
      (h.stack.conns i).Matches (h.stack.buf.receive
        frame).hdr → ¬ (h.stack.buf.receive frame).hdr.has TCP_URG) :
    Delivers i h e h' := by
  cases at_step i hstep with
  | elsewhere hconns hfree hother => exact delivers_elsewhere hconns hfree hother
  | opens ho =>
    refine .opened (given_of_done rfl) rfl ?_
    exact ho.state.imp (congrArg Tcpstateflags.state) (congrArg Tcpstateflags.state)
  | @found s frame n hlen ha hmatches hfound =>
    have hreceives := receives_found (s := (s.receive frame).trimmed) rfl
      (fun h => hurg frame rfl h hmatches) hfound
    exact .segment rfl hlen rfl rfl (kept_found _ hfound).conn ha hmatches hreceives
  | @timer s =>
    exact delivers_idle (kept_timer (kept_select s i)).conn (idle_timer { s with conn := i })
  | @poll s =>
    exact delivers_idle (kept_poll (kept_select s i)).conn (idle_poll { s with conn := i })
  | memory => exact .idle (if_neg fun hc => hc.2.1 hc.1) (.refl _) fun _ => .rfl
  | @returns s a r hi =>
    subst hi
    have hk := kept_resume (r := r) (kept_appReturn a (.refl s))
    obtain ⟨hq, hfin⟩ := quiet_appReturn s a r
    rw [hk.cur] at hq hfin
    refine .idle (given_of_done rfl) hq fun hread => ⟨fun hf => (by cases hf.1), fun hf => ?_⟩
    exact absurd hread (hfin (Option.some.inj hf.1))

-- ---------------------------------------------------------------------------
-- The stream
-- ---------------------------------------------------------------------------

/-- The host, with the number of the first byte of the peer and all that the
application was given of connection `i` since that was opened. -/
structure Delivery where
  host : Host
  start : BitVec 32
  got : List UInt8

def Delivery.next (i : Fin UIP_CONNS) (d : Delivery) (h' : Host) : Delivery :=
  let c := d.host.stack.conns i
  let c' := h'.stack.conns i
  if c'.state = .synRcvd ∨ (c.state = .synSent ∧ c'.state = .established) then
    { host := h', start := c'.rcvNxt.num, got := [] }
  else { d with host := h', got := d.got ++ d.host.given h' i }

def DeliveryStep (i : Fin UIP_CONNS) (d : Delivery) (e : Event) (d' : Delivery) : Prop :=
  HostStep d.host e d'.host ∧ d' = d.next i d'.host

/-- A segment of the peer, that sends the bytes `peer` from the number `start` on,
where `n` bytes have come in: without urgent data, and without options where it
has data. -/
structure PeerSegment (peer : List UInt8) (start : BitVec 32) (n : Nat) (b : UipBuf) : Prop where
  headers : b.hdr.headersLen ≤ b.hdr.totalLen
  urg : ¬ b.hdr.has TCP_URG
  data : b.hdr.headersLen < b.hdr.totalLen → b.hdr.headersLen = 40 ∧
    Stream.Segment peer start n b.hdr.seqno.num (b.data.cells.take (b.hdr.totalLen - 40))

/-- While data is still to come, what arrives for connection `i` is from the peer.
Whatever else may arrive. -/
def FromPeer (peer : List UInt8) (i : Fin UIP_CONNS) (d : Delivery) : Event → Prop
  | .receive frame =>
    let b := d.host.stack.buf.receive frame
    Reading (d.host.stack.conns i).state → (d.host.stack.conns i).Matches b.hdr →
      PeerSegment peer d.start d.got.length b
  | _ => True

structure Delivery.Ok (peer : List UInt8) (i : Fin UIP_CONNS) (d : Delivery) : Prop where
  first : d.got <+: peer
  rcvNxt : Reading (d.host.stack.conns i).state → ¬ d.host.Finishing i →
    (d.host.stack.conns i).rcvNxt.num = Stream.number d.start d.got.length

theorem ok_restart (peer : List UInt8) (h : Host) :
    Delivery.Ok peer i ⟨h, (h.stack.conns i).rcvNxt.num, []⟩ where
  first := List.nil_prefix
  rcvNxt _ _ := (Stream.number_zero _).symm

variable {peer : List UInt8} {d d' : Delivery}

theorem ok_quiet (hok : d.Ok peer i) (hgiven : d.host.given h' i = [])
    (hq : Quiet (d.host.stack.conns i) (h'.stack.conns i))
    (hfin : Reading (h'.stack.conns i).state → (h'.Finishing i ↔ d.host.Finishing i)) :
    (d.next i h').Ok peer i := by
  rw [Delivery.next]
  split
  · exact ok_restart peer h'
  · rename_i hnot
    rw [hgiven, List.append_nil]
    refine ⟨hok.first, fun hread hno => ?_⟩
    rw [hfin hread] at hno
    cases hq with
    | same hstate hrcv => exact hrcv ▸ hok.rcvNxt (hstate ▸ hread) hno
    | opened hstate _ hrcv => exact hrcv ▸ hok.rcvNxt (hstate ▸ trivial) hno
    | leaves hleaves => exact absurd hread hleaves

section
variable {frame : List UInt8} {s : Stack} {start : BitVec 32} {m : Nat}

theorem payload_peer (hlen : frame.length ≤ BUFSIZE) (ha : AcceptedTcp (s.receive frame))
    (hp : PeerSegment peer start m (s.buf.receive frame)) :
    let b := s.buf.receive frame
    let len := (s.receive frame).trimmed.dataLen
    (b.payload len).length = len.toNat ∧ (len > 0 →
        Stream.Segment peer start m b.hdr.seqno.num (b.payload len)) := by
  intro b len
  have hnat : len.toNat = b.hdr.totalLen - b.hdr.headersLen := toNat_headersLen b.hdr hp.headers
  have htotal : b.hdr.totalLen ≤ 1500 := by
    refine Nat.le_trans (UInt16.le_iff_toNat_le.mp ha.len) ?_
    show (UInt16.ofNat frame.length).toNat ≤ 1500
    exact Nat.le_trans (Nat.mod_le _ _) hlen
  have hheaders : 20 ≤ b.hdr.headersLen := Nat.le_add_right ..
  have hdata (hpos : len > 0) := hp.data (Nat.lt_of_sub_pos (hnat ▸ UInt16.lt_iff_toNat_lt.mp hpos))
  constructor
  · rw [UipBuf.payload, List.length_take, b.data.size, UIP_DATA_SIZE, Nat.min_eq_left]
    by_cases hpos : len > 0
    · have h40 : b.hdr.headersLen = 40 := (hdata hpos).1
      omega
    · have hzero : len.toNat = 0 := Nat.eq_zero_of_not_pos fun h =>
        hpos (UInt16.lt_iff_toNat_lt.mpr h)
      omega
  · intro hpos
    obtain ⟨h40, hsegment⟩ := hdata hpos
    rw [UipBuf.payload, hnat, h40]
    exact hsegment

theorem prefix_segment {got : List UInt8} {rcvNxt : Seqno} (hlen : frame.length ≤ BUFSIZE)
    (ha : AcceptedTcp (s.receive frame))
    (hp : PeerSegment peer start got.length (s.buf.receive frame))
    (hfirst : got <+: peer) (hrcv : rcvNxt.num = Stream.number start got.length)
    (hexp : (s.receive frame).trimmed.dataLen > 0 → (s.buf.receive frame).hdr.seqno = rcvNxt) :
    got ++ (s.buf.receive frame).payload (s.receive frame).trimmed.dataLen <+: peer := by
  by_cases hpos : (s.receive frame).trimmed.dataLen > 0
  · refine ((payload_peer hlen ha hp).2 hpos).append hfirst ?_
    rw [hexp hpos, hrcv]
  · rw [payload_of_zero hpos, List.append_nil]
    exact hfirst

theorem ok_segment (hok : d.Ok peer i) (hhost : d.host = ⟨s, none⟩) (hconn : n.stack.conn = i)
    (hlen : frame.length ≤ BUFSIZE) (ha : AcceptedTcp (s.receive frame))
    (hpeer : Reading (s.conns i).state → PeerSegment peer d.start d.got.length
      (s.buf.receive frame))
    (hr : Receives (s.buf.receive frame) (s.receive frame).trimmed.dataLen (s.conns i) n) :
    (d.next i n.host).Ok peer i := by
  have hgiven : d.host.given n.host i = n.given := by rw [hhost, given_next s hconn]
  have hcur : n.stack.cur = n.host.stack.conns i := by rw [Stack.cur, hconn, Next.host]
  have hconns : s.conns i = d.host.stack.conns i := by rw [hhost]
  have hfree : ¬ d.host.Finishing i := by
    rw [hhost]
    exact fun hf => by cases hf.1
  have hread (h : Reading (s.conns i).state) : (s.conns i).rcvNxt.num =
      Stream.number d.start d.got.length :=
    hconns ▸ hok.rcvNxt (hconns ▸ h) hfree
  have hnext (h : Reading (s.conns i).state) (hst : (n.host.stack.conns i).state ≠ .synRcvd) :
      d.next i n.host = { d with host := n.host, got := d.got ++ n.given } := by
    rw [Delivery.next, if_neg, hgiven]
    rintro (h1 | ⟨h1, -⟩)
    · exact hst h1
    · rw [hconns, h1] at h
      exact h
  cases hr with
  | quiet hidle =>
    refine ok_quiet hok (hgiven.trans hidle.given) (hconns ▸ hcur ▸ hidle.quiet) fun _ =>
      ⟨fun hf => ?_, fun hf => ?_⟩
    · exact absurd hf.1 hidle.resume
    · exact absurd hf hfree
  | synack _ _ hst hst' =>
    rw [Delivery.next, if_pos (.inr ⟨hconns ▸ hst, hcur ▸ hst'⟩)]
    exact ok_restart peer n.host
  | data hpayload hr hst hst' hseqno hrcv =>
    rw [hcur] at hst' hrcv
    rw [hnext hst (by rw [hst']; decide), hpayload]
    refine ⟨prefix_segment hlen ha (hpeer hst) hok.first (hread hst) fun _ => hseqno, fun _ _ => ?_⟩
    show (n.host.stack.conns i).rcvNxt.num = _
    rw [hrcv, num_uipAdd32, hread hst, List.length_append, Stream.number_add,
      (payload_peer hlen ha (hpeer hst)).1]
  | fin hpayload hr hst hst' hexp =>
    have hread' : Reading (s.conns i).state := hst ▸ trivial
    rw [hcur] at hst'
    rw [hnext hread' (by rw [hst']; decide), hpayload]
    refine ⟨prefix_segment hlen ha (hpeer hread') hok.first (hread hread') hexp, fun _ hno => ?_⟩
    exact absurd ⟨hr, hconn⟩ hno
end

-- ---------------------------------------------------------------------------
-- Every run
-- ---------------------------------------------------------------------------

theorem ok_delivery (hok : d.Ok peer i) (hpeer : FromPeer peer i d e)
    (hstep : DeliveryStep i d e d') :
    d'.Ok peer i := by
  obtain ⟨hhost, hnext⟩ := hstep
  rw [hnext]
  have hdelivers : Delivers i d.host e d'.host := by
    refine delivers_step hhost ?_
    rintro frame rfl hread hmatches
    exact (hpeer hread hmatches).urg
  cases hdelivers with
  | idle hgiven hq hfin => exact ok_quiet hok hgiven hq hfin
  | opened hgiven hdone hst =>
    rcases hst with hst | hst
    · refine ok_quiet hok hgiven (.leaves (by rw [hst]; exact id)) fun hread => ?_
      rw [hst] at hread
      exact hread.elim
    · rw [Delivery.next, if_pos (.inl hst)]
      exact ok_restart peer d'.host
  | @segment frame n he hlen hfree hn hconn ha hmatches hr =>
    subst he
    have hstack : d.host = ⟨d.host.stack, none⟩ := by rw [← hfree]
    rw [hn]
    exact ok_segment hok hstack hconn hlen ha (fun hread => hpeer hread hmatches) hr

def Delivery.stepRun (n : Nat) (i : Fin UIP_CONNS) (d : Delivery) (e : Event) : Option Delivery :=
  (d.host.stepRun n e).map (d.next i)

theorem deliveryStep_of_stepRun {n : Nat} (h : d.stepRun n i e = some d') :
    DeliveryStep i d e d' := by
  obtain ⟨h', hh', rfl⟩ := Option.map_eq_some_iff.mp h
  have hhost : (d.next i h').host = h' := by
    rw [Delivery.next]
    split <;> rfl
  exact ⟨hhost.symm ▸ hostStep_of_stepRun hh', by rw [hhost]⟩

/-- A segment from position `p` of the stream on. -/
def SegmentAt (peer : List UInt8) (p : Nat) (d : Delivery) (b : UipBuf) : Prop :=
  b.hdr.headersLen = 40 ∧ 40 ≤ b.hdr.totalLen ∧ b.hdr.has TCP_URG = false ∧
    b.hdr.seqno.num = Stream.number d.start p ∧ Stream.Near 32 p d.got.length ∧
      b.data.cells.take (b.hdr.totalLen - 40) <+: peer.drop p

instance (peer : List UInt8) (p : Nat) (d : Delivery) (b : UipBuf) :
    Decidable (SegmentAt peer p d b) :=
  inferInstanceAs (Decidable (_ ∧ _ ∧ _ ∧ _ ∧ _ ∧ _))

/-- The segments of the peer are those from position `p` on. -/
def FromPeerAt (peer : List UInt8) (p : Nat) (i : Fin UIP_CONNS) (d : Delivery) : Event → Prop
  | .receive frame => Reading (d.host.stack.conns i).state →
      SegmentAt peer p d (d.host.stack.buf.receive frame)
  | _ => True

instance (peer : List UInt8) (p : Nat) (i : Fin UIP_CONNS) (d : Delivery) :
    (e : Event) → Decidable (FromPeerAt peer p i d e)
  | .receive frame => inferInstanceAs (Decidable (Reading (d.host.stack.conns i).state →
      SegmentAt peer p d (d.host.stack.buf.receive frame)))
  | .periodic _ | .poll _ | .connect _ _ | .listen _ | .unlisten _ | .memory _ | .appReturn _ =>
    isTrue trivial

theorem fromPeer_at {p : Nat} (h : FromPeerAt peer p i d e) : FromPeer peer i d e := by
  cases e with
  | receive frame =>
    intro hread _
    obtain ⟨hheaders, htotal, hurg, hnum, hnear, hdata⟩ := h hread
    exact ⟨hheaders.symm ▸ htotal, by simp [hurg], fun _ => ⟨hheaders, p, hnum, hnear, hdata⟩⟩
  | _ => trivial

theorem fromPeer_run {n p : Nat}
    (h : es.foldlM (fun d e => if FromPeerAt peer p i d e then d.stepRun n i e else none) d =
      some d') :
    Run (Run.Guarded (FromPeer peer i) (DeliveryStep i)) d es d' := by
  refine (Run.guarded_of_foldlM ?_ h).mono fun _ _ _ hstep => ⟨fromPeer_at hstep.1, hstep.2⟩
  exact fun _ _ _ hstep => deliveryStep_of_stepRun hstep

def repeated : List Event :=
  opening ++ [.receive openingSynack, .appReturn .nothing, .receive openingData,
    .appReturn .nothing, .receive openingData]

end FxIP.Tcpip
