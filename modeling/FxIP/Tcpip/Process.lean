import FxIP.Lib.Comp
import FxIP.Tcpip.Add32
import FxIP.Tcpip.Chksum

/-!
# uip_process

`uip_process` as written, for IPv4 and TCP over a line without a link-level
header. It calls the application at most once; the call ends the definition of
the step, and `Resume` is the label at which the step goes on.
-/

namespace FxIP.Tcpip

def UIP_TTL : UInt8 := 64
def UIP_RTO : UInt8 := 3
def UIP_MAXRTX : UInt8 := 8
def UIP_MAXSYNRTX : UInt8 := 5
def UIP_TIME_WAIT_TIMEOUT : UInt8 := 120
/-- `UIP_TCP_MSS`, as a word. -/
def TCP_MSS : UInt16 := 1460
def UIP_RECEIVE_WINDOW : UInt16 := TCP_MSS

def TCP_FIN : UInt8 := 0x01
def TCP_SYN : UInt8 := 0x02
def TCP_RST : UInt8 := 0x04
def TCP_PSH : UInt8 := 0x08
def TCP_ACK : UInt8 := 0x10
def TCP_URG : UInt8 := 0x20
def TCP_CTL : UInt8 := 0x3f

def TCP_OPT_END : UInt8 := 0
def TCP_OPT_NOOP : UInt8 := 1
def TCP_OPT_MSS : UInt8 := 2
def TCP_OPT_MSS_LEN : UInt8 := 4

def ICMP_ECHO_REPLY : UInt8 := 0
def ICMP_ECHO : UInt8 := 8

/-- A flag in `BUF->flags`. -/
def TcpipHdr.has (h : TcpipHdr) (flag : UInt8) : Bool := h.flags &&& flag ≠ 0

def Tcpstateflags.closed : Tcpstateflags := { state := .closed }

-- ---------------------------------------------------------------------------
-- Sending
-- ---------------------------------------------------------------------------

def uipDrop (s : Stack) : Stack := { s with len := 0, flags := {} }

def uipReturn (s : Stack) : Stack := { s with flags := {} }

/-- `BUF->ipchksum = 0; BUF->ipchksum = ~(uip_ipchksum())`. -/
def fillIpchksum (s : Stack) : Stack :=
  let s := s.setHdr { s.buf.hdr with ipchksum := 0 }
  s.setHdr { s.buf.hdr with ipchksum := ~~~ uipIpchksum s.buf }

/-- `BUF->tcpchksum = 0; BUF->tcpchksum = ~(uip_tcpchksum())`. -/
def fillTcpchksum (s : Stack) : Stack :=
  let s := s.setHdr { s.buf.hdr with tcpchksum := 0 }
  s.setHdr { s.buf.hdr with tcpchksum := ~~~ uipTcpchksum s }

def ipSendNolen (s : Stack) : Stack :=
  let s := { s with ipid := s.ipid + 1 }
  uipReturn (fillIpchksum (s.setHdr { s.buf.hdr with
    vhl := 0x45
    tos := 0
    ipoffset := (0, 0)
    ipid := (wordHi s.ipid, wordLo s.ipid) }))

def tcpSendNoconn (s : Stack) : Stack :=
  ipSendNolen (fillTcpchksum (s.setHdr { s.buf.hdr with
    ttl := UIP_TTL
    len := (wordHi s.len, wordLo s.len)
    urgp := (0, 0) }))

def tcpSend (s : Stack) : Stack :=
  tcpSendNoconn (s.setHdr { s.buf.hdr with
    ackno := s.cur.rcvNxt
    seqno := s.cur.sndNxt
    proto := UIP_PROTO_TCP
    srcport := s.cur.lport
    destport := s.cur.rport
    srcipaddr := s.hostaddr
    destipaddr := s.cur.ripaddr
    wnd := if s.cur.tcpstateflags.stopped then (0, 0)
      else (wordHi UIP_RECEIVE_WINDOW, wordLo UIP_RECEIVE_WINDOW) })

def tcpSendNoopts (s : Stack) (flags : UInt8) (len : UInt16) : Stack :=
  tcpSend ({ s with len }.setHdr { s.buf.hdr with flags, tcpoffset := 0x50 })

def tcpSendNodata (s : Stack) (flags : UInt8) : Stack := tcpSendNoopts s flags UIP_IPTCPH_LEN

def tcpSendAck (s : Stack) : Stack := tcpSendNodata s TCP_ACK

def tcpSendFinack (s : Stack) : Stack := tcpSendNodata s (TCP_FIN ||| TCP_ACK)

/-- `tcp_send_syn`, for a SYN or a SYNACK. -/
def tcpSendSyn (s : Stack) (flags : UInt8) : Stack :=
  let optdata := [TCP_OPT_MSS, TCP_OPT_MSS_LEN, wordHi TCP_MSS, wordLo TCP_MSS]
  let buf : UipBuf :=
    { hdr := { s.buf.hdr with flags, tcpoffset := 0x60 }
      data := s.buf.data.write optdata }
  tcpSend { s with buf, len := UIP_IPTCPH_LEN + 4 }

def tcpSendSynack (s : Stack) : Stack := tcpSendSyn s (TCP_ACK ||| TCP_SYN)

def uipReset (s : Stack) : Stack :=
  if s.buf.hdr.has TCP_RST then uipDrop s
  else
    let hdr := s.buf.hdr
    tcpSendNoconn ({ s with len := UIP_IPTCPH_LEN }.setHdr { hdr with
      flags := TCP_RST ||| TCP_ACK
      tcpoffset := 0x50
      seqno := hdr.ackno
      ackno := hdr.seqno.inc3
      srcport := hdr.destport
      destport := hdr.srcport
      destipaddr := hdr.srcipaddr
      srcipaddr := s.hostaddr })

-- ---------------------------------------------------------------------------
-- The application
-- ---------------------------------------------------------------------------

/-- Where `uip_process` goes on when the application returns. -/
inductive Resume
  | drop
  | appsend
  | apprexmit
  | timedout
  | finack
  | reset
  | ack
  deriving Repr, DecidableEq

/-- What the application leaves behind: what it may write to of the globals and
of `*uip_conn`. -/
structure AppReturn where
  flags : UipFlags
  slen : UInt16
  data : Buffer UInt8 UIP_DATA_SIZE
  stopped : Bool
  deriving Repr, DecidableEq

inductive Next
  | done (s : Stack)
  | appcall (resume : Resume) (s : Stack)

def uipAppReturn (s : Stack) (r : AppReturn) : Stack :=
  { s with flags := r.flags, slen := r.slen, buf := { s.buf with data := r.data } }.setConn
    { s.cur with tcpstateflags := { s.cur.tcpstateflags with stopped := r.stopped } }

def uipApprexmit (s : Stack) : Stack :=
  let s := { s with appdata := 0 }
  if s.slen > 0 ∧ s.cur.len > 0 then
    tcpSendNoopts s (TCP_ACK ||| TCP_PSH) (s.cur.len + UIP_IPTCPH_LEN)
  else if s.flags.newdata then tcpSendNoopts s TCP_ACK UIP_IPTCPH_LEN
  else uipDrop s

/-- The lengths at `appsend`. -/
def uipAppsendLen (s : Stack) : Stack :=
  if s.slen > 0 then
    let s := if s.flags.acked then s.setConn { s.cur with len := 0 } else s
    if s.cur.len = 0 then
      let s := { s with slen := if s.slen > s.cur.mss then s.cur.mss else s.slen }
      s.setConn { s.cur with len := s.slen }
    else { s with slen := s.cur.len }
  else s

def uipAppsend (s : Stack) : Stack :=
  if s.flags.aborted then
    tcpSendNodata ({ s with slen := 0 }.setConn { s.cur with tcpstateflags := .closed })
      (TCP_RST ||| TCP_ACK)
  else if s.flags.closed then
    tcpSendNodata
      ({ s with slen := 0 }.setConn
        { s.cur with len := 1, tcpstateflags := { state := .finWait1 }, nrtx := 0 })
      (TCP_FIN ||| TCP_ACK)
  else
    let s := uipAppsendLen s
    uipApprexmit (s.setConn { s.cur with nrtx := 0 })

def uipResume (s : Stack) : Resume → Stack
  | .drop => uipDrop s
  | .appsend => uipAppsend s
  | .apprexmit => uipApprexmit s
  | .timedout => tcpSendNodata s (TCP_RST ||| TCP_ACK)
  | .finack =>
    tcpSendFinack
      (s.setConn { s.cur with len := 1, tcpstateflags := { state := .lastAck }, nrtx := 0 })
  | .reset => uipReset (s.setConn { s.cur with tcpstateflags := .closed })
  | .ack => tcpSendAck s

-- ---------------------------------------------------------------------------
-- The periodic timer
-- ---------------------------------------------------------------------------

/-- A retransmission, with `UIP_RTO << nrtx` as the next time-out. -/
def uipRexmit (s : Stack) : Next :=
  let c := s.cur
  let s := s.setConn { c with
    timer := UIP_RTO <<< (if c.nrtx > 4 then 4 else c.nrtx)
    nrtx := c.nrtx + 1 }
  match c.tcpstateflags.state with
  | .synRcvd => .done (tcpSendSynack s)
  | .synSent => .done (tcpSendSyn s TCP_SYN)
  | .established => .appcall .apprexmit { s with flags := { rexmit := true } }
  | .finWait1 | .closing | .lastAck => .done (tcpSendFinack s)
  | _ => .done (uipDrop s)

/-- Whether a connection has been retransmitting for long enough. -/
def UipConn.timedOut (c : UipConn) : Prop :=
  c.nrtx = UIP_MAXRTX ∨
    ((c.tcpstateflags = { state := .synSent } ∨ c.tcpstateflags = { state := .synRcvd }) ∧
      c.nrtx = UIP_MAXSYNRTX)

instance (c : UipConn) : Decidable c.timedOut := inferInstanceAs (Decidable (_ ∨ _))

/-- `uip_process(UIP_TIMER)`. -/
def uipTimer (s : Stack) : Next :=
  let s := { s with appdata := 0, iss := s.iss.inc3, len := 0, slen := 0 }
  let c := s.cur
  if c.tcpstateflags = { state := .timeWait } ∨ c.tcpstateflags = { state := .finWait2 } then
    let timer := c.timer + 1
    let c := { c with timer }
    .done (uipDrop (s.setConn
      (if timer = UIP_TIME_WAIT_TIMEOUT then { c with tcpstateflags := .closed } else c)))
  else if c.tcpstateflags ≠ .closed then
    if c.outstanding then
      let s := s.setConn { c with timer := c.timer - 1 }
      if c.timer = 0 then
        if c.timedOut then
          .appcall .timedout
            { s.setConn { s.cur with tcpstateflags := .closed } with flags := { timedout := true } }
        else uipRexmit s
      else .done (uipDrop s)
    else if c.tcpstateflags.state = .established then
      .appcall .appsend { s with flags := { poll := true } }
    else .done (uipDrop s)
  else .done (uipDrop s)

def uipPoll (s : Stack) : Next :=
  let s := { s with appdata := 0 }
  if s.cur.tcpstateflags.state = .established ∧ ¬ s.cur.outstanding then
    .appcall .appsend { s with flags := { poll := true } }
  else .done (uipDrop s)

-- ---------------------------------------------------------------------------
-- New connections
-- ---------------------------------------------------------------------------

/-- The search for a connection that is free, or the one that was longest in
TIME_WAIT. -/
def findUnused (conns : Fin UIP_CONNS → UipConn) : Option (Fin UIP_CONNS) → List (Fin UIP_CONNS) →
    Option (Fin UIP_CONNS)
  | conn, [] => conn
  | conn, c :: cs =>
    if (conns c).tcpstateflags = .closed then some c
    else if (conns c).tcpstateflags = { state := .timeWait } ∧
        conn.all fun conn => (conns c).timer > (conns conn).timer then
      findUnused conns (some c) cs
    else findUnused conns conn cs

def Stack.unused (s : Stack) : Option (Fin UIP_CONNS) :=
  findUnused s.conns none (List.finRange UIP_CONNS)

/-- One round of the loop over the options of a SYN; the MSS, if it is there. -/
def optionsRound (data : List UInt8) (bound : Nat) (c : UInt8) : UInt8 ⊕ Option UInt16 :=
  let byte (i : Nat) : UInt8 := data.getD i 0
  if c.toNat < bound then
    let opt := byte c.toNat
    if opt = TCP_OPT_END then .inr none
    else if opt = TCP_OPT_NOOP then .inl (c + 1)
    else if opt = TCP_OPT_MSS ∧ byte (1 + c.toNat) = TCP_OPT_MSS_LEN then
      .inr (some (word (byte (2 + c.toNat)) (byte (3 + c.toNat))))
    else if byte (1 + c.toNat) = 0 then .inr none
    else .inl (c + byte (1 + c.toNat))
  else .inr none

def parseOptions (b : UipBuf) : Comp (Option UInt16) :=
  if b.hdr.tcpoffset &&& 0xf0 > 0x50 then
    Comp.loop
      (fun c =>
        pure (optionsRound b.data.cells (((b.hdr.tcpoffset.toNat >>> 4) - 5) <<< 2) c)) 0
  else pure none

def UipConn.setMss (c : UipConn) : Option UInt16 → UipConn
  | some tmp16 =>
    let mss := if tmp16 > TCP_MSS then TCP_MSS else tmp16
    { c with mss, initialmss := mss }
  | none => c

def uipAddRcvNxt (s : Stack) (n : UInt16) : Stack :=
  s.setConn { s.cur with rcvNxt := uipAdd32 s.cur.rcvNxt n }

/-- The fields of a connection that is opened by a SYN. -/
def UipConn.listen (c : UipConn) (hdr : TcpipHdr) (iss : Seqno) : UipConn :=
  { c with
    rto := UIP_RTO
    timer := UIP_RTO
    sa := 0
    sv := 4
    nrtx := 0
    lport := hdr.destport
    rport := hdr.srcport
    ripaddr := hdr.srcipaddr
    tcpstateflags := { state := .synRcvd }
    sndNxt := iss
    len := 1
    rcvNxt := uipAdd32 hdr.seqno 1 }

def uipFoundListen (s : Stack) : Comp Next :=
  match s.unused with
  | none => pure (.done (uipDrop (s.uipLog "tcp: found no unused connections.")))
  | some i => do
    let s := { s with conn := i }
    let mss ← parseOptions s.buf
    pure (.done (tcpSendSynack (s.setConn ((s.cur.listen s.buf.hdr s.iss).setMss mss))))

-- ---------------------------------------------------------------------------
-- A segment for a connection
-- ---------------------------------------------------------------------------

/-- The estimation of the round-trip time; `m` is a signed byte. -/
def UipConn.estimate (c : UipConn) : UipConn :=
  let m := c.rto - c.timer - (c.sa >>> 3)
  let sa := c.sa + m
  let m := if m ≥ 128 then -m else m
  let m := m - (c.sv >>> 2)
  let sv := c.sv + m
  { c with sa, sv, rto := (sa >>> 3) + sv }

/-- Whether the segment acknowledges what is outstanding. -/
def UipConn.acks (c : UipConn) (h : TcpipHdr) : Bool :=
  h.has TCP_ACK && c.outstanding && h.ackno = uipAdd32 c.sndNxt c.len

/-- The connection after its outstanding data is acknowledged. -/
def UipConn.acked (c : UipConn) : UipConn :=
  let c := { c with sndNxt := uipAdd32 c.sndNxt c.len }
  let c := if c.nrtx = 0 then c.estimate else c
  { c with timer := c.rto, len := 0 }

def uipAcks (s : Stack) : Stack :=
  if s.cur.acks s.buf.hdr then { s.setConn s.cur.acked with flags := { acked := true } } else s

def uipSynRcvd (s : Stack) : Next :=
  if s.flags.acked then
    let s := s.setConn { s.cur with tcpstateflags := { state := .established }, len := 0 }
    let s := { s with flags := { connected := true, newdata := s.len > 0 } }
    let s := if s.len > 0 then uipAddRcvNxt s s.len else s
    .appcall .appsend { s with slen := 0 }
  else .done (uipDrop s)

def uipSynSent (s : Stack) : Comp Next :=
  if s.flags.acked ∧ s.buf.hdr.flags &&& TCP_CTL = TCP_SYN ||| TCP_ACK then do
    let mss ← parseOptions s.buf
    let s := s.setConn { s.cur.setMss mss with
      tcpstateflags := { state := .established }
      rcvNxt := s.buf.hdr.seqno }
    let s := uipAddRcvNxt s 1
    let s := s.setConn { s.cur with len := 0 }
    pure (.appcall .appsend
      { s with flags := { connected := true, newdata := true }, len := 0, slen := 0 })
  else pure (.appcall .reset { s with flags := { aborted := true } })

def uipUrg (s : Stack) : Stack :=
  if s.buf.hdr.has TCP_URG then
    let urgp := word s.buf.hdr.urgp.1 s.buf.hdr.urgp.2
    { s with appdata := s.appdata + urgp.toNat, len := s.len - urgp }
  else s

/-- Data is accepted unless the application has stopped the connection. -/
def uipNewdata (s : Stack) : Stack :=
  if s.len > 0 ∧ ¬ s.cur.tcpstateflags.stopped then
    { uipAddRcvNxt s s.len with flags := { s.flags with newdata := true } }
  else s

def UipConn.setWnd (c : UipConn) (tmp16 : UInt16) : UipConn :=
  { c with mss := if tmp16 > c.initialmss ∨ tmp16 = 0 then c.initialmss else tmp16 }

def uipEstablished (s : Stack) : Next :=
  let hdr := s.buf.hdr
  if hdr.has TCP_FIN ∧ ¬ s.cur.tcpstateflags.stopped then
    if s.cur.outstanding then .done (uipDrop s)
    else
      let s := uipAddRcvNxt s (1 + s.len)
      .appcall .finack { s with flags :=
        { s.flags with closed := true, newdata := s.flags.newdata || s.len > 0 } }
  else
    let s := uipNewdata (uipUrg s)
    let s := s.setConn (s.cur.setWnd (word hdr.wnd.1 hdr.wnd.2))
    if s.flags.newdata || s.flags.acked then .appcall .appsend { s with slen := 0 }
      else .done (uipDrop s)

def uipLastAck (s : Stack) : Next :=
  if s.flags.acked then
    let s := s.setConn { s.cur with tcpstateflags := .closed }
    .appcall .drop { s with flags := { closed := true } }
  else .done (uipDrop s)

def uipFinWait1 (s : Stack) : Next :=
  let s := if s.len > 0 then uipAddRcvNxt s s.len else s
  if s.buf.hdr.has TCP_FIN then
    let s := s.setConn
      (if s.flags.acked then
          { s.cur with tcpstateflags := { state := .timeWait }, timer := 0, len := 0 }
        else { s.cur with tcpstateflags := { state := .closing } })
    .appcall .ack { uipAddRcvNxt s 1 with flags := { closed := true } }
  else if s.flags.acked then
    .done (uipDrop (s.setConn { s.cur with tcpstateflags := { state := .finWait2 }, len := 0 }))
  else if s.len > 0 then .done (tcpSendAck s)
  else .done (uipDrop s)

def uipFinWait2 (s : Stack) : Next :=
  let s := if s.len > 0 then uipAddRcvNxt s s.len else s
  if s.buf.hdr.has TCP_FIN then
    let s := s.setConn { s.cur with tcpstateflags := { state := .timeWait }, timer := 0 }
    .appcall .ack { uipAddRcvNxt s 1 with flags := { closed := true } }
  else if s.len > 0 then .done (tcpSendAck s)
  else .done (uipDrop s)

def uipClosing (s : Stack) : Next :=
  let s := if s.flags.acked then
      s.setConn { s.cur with tcpstateflags := { state := .timeWait }, timer := 0 }
    else s
  .done (uipDrop s)

/-- Whether a segment with this length of data is not the one expected next. -/
def UipConn.unexpected (c : UipConn) (h : TcpipHdr) (len : UInt16) : Bool :=
  !(c.tcpstateflags.state = .synSent && h.flags &&& TCP_CTL = TCP_SYN ||| TCP_ACK) &&
    (len > 0 || h.flags &&& (TCP_SYN ||| TCP_FIN) ≠ 0) && h.seqno ≠ c.rcvNxt

/-- The switch over the state, for `uip_conn`. -/
def uipSwitch (s : Stack) : Comp Next :=
  match s.cur.tcpstateflags.state with
  | .synRcvd => pure (uipSynRcvd s)
  | .synSent => uipSynSent s
  | .established => pure (uipEstablished s)
  | .lastAck => pure (uipLastAck s)
  | .finWait1 => pure (uipFinWait1 s)
  | .finWait2 => pure (uipFinWait2 s)
  | .timeWait => pure (.done (tcpSendAck s))
  | .closing => pure (uipClosing s)
  | .closed => pure (.done (uipDrop s))

def uipFound (s : Stack) (i : Fin UIP_CONNS) : Comp Next :=
  let s := { s with conn := i, flags := {} }
  let hdr := s.buf.hdr
  if hdr.has TCP_RST then
    let s := (s.setConn { s.cur with tcpstateflags := .closed }).uipLog
      "tcp: got reset, aborting connection."
    pure (.appcall .drop { s with flags := { aborted := true } })
  else
    let c := (hdr.tcpoffset >>> 4) <<< 2
    let s := { s with len := s.len - c.toUInt16 - UIP_IPH_LEN }
    if s.cur.unexpected hdr s.len then pure (.done (tcpSendAck s)) else uipSwitch (uipAcks s)

-- ---------------------------------------------------------------------------
-- A packet
-- ---------------------------------------------------------------------------

def UipConn.Matches (c : UipConn) (h : TcpipHdr) : Prop :=
  c.tcpstateflags ≠ .closed ∧ h.destport = c.lport ∧ h.srcport = c.rport ∧ h.srcipaddr = c.ripaddr

instance (c : UipConn) (h : TcpipHdr) : Decidable (c.Matches h) :=
  inferInstanceAs (Decidable (_ ∧ _))

def Stack.demultiplex (s : Stack) : Option (Fin UIP_CONNS) :=
  (List.finRange UIP_CONNS).find? fun i => (s.conns i).Matches s.buf.hdr

def tcpInput (s : Stack) : Comp Next :=
  if uipTcpchksum s ≠ 0xffff then pure (.done (uipDrop (s.uipLog "tcp: bad checksum.")))
  else match s.demultiplex with
    | some i => uipFound s i
    | none =>
      if s.buf.hdr.flags &&& TCP_CTL ≠ TCP_SYN then pure (.done (uipReset s))
      else if ∃ c, s.buf.hdr.destport = s.listenports c then uipFoundListen s
      else pure (.done (uipReset s))

/-- The headers of an echo reply; the fields of the ICMP header are those of the
ports. -/
def TcpipHdr.echoReply (h : TcpipHdr) (hostaddr : Ipaddr) : TcpipHdr :=
  let icmpchksum := h.destport
  { h with
    srcport := word ICMP_ECHO_REPLY (wordLo h.srcport)
    destport :=
      if icmpchksum ≥ 0xffff - word ICMP_ECHO 0 then icmpchksum + (word ICMP_ECHO 0 + 1)
      else icmpchksum + word ICMP_ECHO 0
    destipaddr := h.srcipaddr
    srcipaddr := hostaddr }

def icmpInput (s : Stack) : Stack :=
  if wordHi s.buf.hdr.srcport ≠ ICMP_ECHO then uipDrop (s.uipLog "icmp: not icmp echo.")
  else uipReturn (s.setHdr (s.buf.hdr.echoReply s.hostaddr))

/-- `uip_process(UIP_DATA)`. -/
def uipInput (s : Stack) : Comp Next :=
  let s := { s with appdata := 0 }
  let hdr := s.buf.hdr
  let len := word hdr.len.1 hdr.len.2
  if hdr.vhl ≠ 0x45 then pure (.done (uipDrop (s.uipLog "ip: invalid version or header length.")))
  else if len > s.len then
    pure (.done (uipDrop (s.uipLog "ip: packet shorter than reported in IP header.")))
  else
    let s := { s with len }
    if hdr.ipoffset.1 &&& 0x3f ≠ 0 ∨ hdr.ipoffset.2 ≠ 0 then
      pure (.done (uipDrop (s.uipLog "ip: fragment dropped.")))
    else if s.hostaddr ≠ (0, 0) ∧ hdr.destipaddr ≠ s.hostaddr then pure (.done (uipDrop s))
    else if uipIpchksum s.buf ≠ 0xffff then pure (.done (uipDrop (s.uipLog "ip: bad checksum.")))
    else if hdr.proto = UIP_PROTO_TCP then tcpInput s
    else if hdr.proto ≠ UIP_PROTO_ICMP then pure
      (.done (uipDrop (s.uipLog "ip: neither tcp nor icmp.")))
    else pure (.done (icmpInput s))

-- ---------------------------------------------------------------------------
-- Opening connections
-- ---------------------------------------------------------------------------

/-- `uip_init`, with the random values it draws. -/
def uipInit (s : Stack) (iss : Seqno) (lastport : UInt16) : Stack :=
  { s with
    listenports := fun _ => 0
    conns := fun i => { s.conns i with tcpstateflags := .closed }
    lastport
    iss }

def nextPort (lastport : UInt16) : UInt16 := if lastport + 1 ≥ 32000 then 4096 else lastport + 1

def Stack.PortUsed (s : Stack) (port : UInt16) : Prop :=
  ∃ i, (s.conns i).tcpstateflags ≠ .closed ∧ (s.conns i).lport = port

instance (s : Stack) (port : UInt16) : Decidable (s.PortUsed port) :=
  inferInstanceAs (Decidable (∃ i, (s.conns i).tcpstateflags ≠ .closed ∧ (s.conns i).lport = port))

/-- The loop at `again`. -/
def findPort (s : Stack) : Comp UInt16 :=
  Comp.loop (fun lastport => pure (if s.PortUsed (nextPort lastport) then .inl (nextPort lastport)
    else .inr (nextPort lastport))) s.lastport

/-- The fields of a connection that is opened by the application. -/
def UipConn.connect (c : UipConn) (iss : Seqno) (ripaddr : Ipaddr) (lport rport : UInt16) :
    UipConn :=
  { c with
    tcpstateflags := { state := .synSent }
    sndNxt := iss
    initialmss := TCP_MSS
    mss := TCP_MSS
    len := 1
    nrtx := 0
    timer := 1
    rto := UIP_RTO
    sa := 0
    sv := 16
    lport
    rport
    ripaddr }

/-- `uip_connect`, once it has found a port. -/
def uipConnectFrom (s : Stack) (ripaddr : Ipaddr) (lport rport : UInt16) :
    Option (Fin UIP_CONNS) × Stack :=
  let s := { s with lastport := lport }
  match s.unused with
  | none => (none, s)
  | some i =>
    (some i,
      { s with
        conns := Function.update s.conns i ((s.conns i).connect s.iss ripaddr lport rport) })

def uipConnect (s : Stack) (ripaddr : Ipaddr) (rport : UInt16) :
    Comp (Option (Fin UIP_CONNS) × Stack) := do
  let lastport ← findPort s
  pure (uipConnectFrom s ripaddr lastport rport)

/-- The first cell of the list of ports with the port. -/
def Stack.findListen (s : Stack) (port : UInt16) : Option (Fin UIP_LISTENPORTS) :=
  (List.finRange UIP_LISTENPORTS).find? fun c => s.listenports c = port

def Stack.setListen (s : Stack) (port : UInt16) : Option (Fin UIP_LISTENPORTS) → Stack
  | some c => { s with listenports := Function.update s.listenports c port }
  | none => s

def uipListen (s : Stack) (port : UInt16) : Stack := s.setListen port (s.findListen 0)

def uipUnlisten (s : Stack) (port : UInt16) : Stack := s.setListen 0 (s.findListen port)

end FxIP.Tcpip
