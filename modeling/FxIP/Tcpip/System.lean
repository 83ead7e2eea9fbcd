import FxIP.Lib.Run
import FxIP.Tcpip.Sending

/-!
# The stack over time

A host runs `uip_process` for the frames that `slipdev_poll` finds and for its
periodic timer, and waits for the application while that is called. Nothing is
assumed of the network: any frame may arrive at any time. The application may
leave anything behind in the variables that it may write to.
-/

namespace FxIP.Tcpip

structure Host where
  stack : Stack
  calling : Option Resume

inductive Event
  | receive (frame : List UInt8)
  | periodic (i : Fin UIP_CONNS)
  | poll (i : Fin UIP_CONNS)
  | connect (ripaddr : Ipaddr) (rport : UInt16)
  | listen (port : UInt16)
  | unlisten (port : UInt16)
  | memory (behind : Nat → UInt8)
  | appReturn (r : AppReturn)

def Next.stack : Next → Stack
  | .done s => s
  | .appcall _ s => s

def Next.resume : Next → Option Resume
  | .done _ => none
  | .appcall r _ => some r

def Next.host (n : Next) : Host where
  stack := n.stack
  calling := n.resume

/-- A frame in the buffer, and its length in `uip_len`. -/
def Stack.receive (s : Stack) (frame : List UInt8) : Stack :=
  { s with buf := s.buf.receive frame, len := UInt16.ofNat frame.length }

def BUFSIZE : Nat := 1500

inductive HostStep : Host → Event → Host → Prop
  | receive {s frame n} : frame.length ≤ BUFSIZE → (uipInput (s.receive frame)).Returns n →
      HostStep ⟨s, none⟩ (.receive frame) n.host
  | periodic {s i} : HostStep ⟨s, none⟩ (.periodic i) (uipTimer { s with conn := i }).host
  | poll {s i} : HostStep ⟨s, none⟩ (.poll i) (uipPoll { s with conn := i }).host
  | connect {s ripaddr rport r} : (uipConnect s ripaddr rport).Returns r →
      HostStep ⟨s, none⟩ (.connect ripaddr rport) ⟨r.2, none⟩
  | listen {s port} : HostStep ⟨s, none⟩ (.listen port) ⟨uipListen s port, none⟩
  | unlisten {s port} : HostStep ⟨s, none⟩ (.unlisten port) ⟨uipUnlisten s port, none⟩
  | memory {h behind} : HostStep h (.memory behind) { h with stack := { h.stack with behind } }
  | appReturn {s r resume} : HostStep ⟨s, some resume⟩ (.appReturn r)
      ⟨uipResume (uipAppReturn s r) resume, none⟩

/-- The steps as a function, with `n` for the fuel of the loops. -/
def Host.stepRun (n : Nat) (h : Host) : Event → Option Host
  | .receive frame =>
    if h.calling = none ∧ frame.length ≤ BUFSIZE then
      ((uipInput (h.stack.receive frame)).run n).map Next.host
    else none
  | .periodic i =>
    if h.calling = none then some (uipTimer { h.stack with conn := i }).host else none
  | .poll i => if h.calling = none then some (uipPoll { h.stack with conn := i }).host else none
  | .connect ripaddr rport =>
    if h.calling = none then
      ((uipConnect h.stack ripaddr rport).run n).map fun r => ⟨r.2, none⟩
    else none
  | .listen port => if h.calling = none then some ⟨uipListen h.stack port, none⟩ else none
  | .unlisten port => if h.calling = none then some ⟨uipUnlisten h.stack port, none⟩ else none
  | .memory behind => some { h with stack := { h.stack with behind } }
  | .appReturn r => h.calling.map fun resume => ⟨uipResume (uipAppReturn h.stack r) resume, none⟩

theorem hostStep_of_stepRun {n : Nat} {h h' : Host} {e : Event} (hrun : h.stepRun n e = some h') :
    HostStep h e h' := by
  obtain ⟨s, calling⟩ := h
  cases e with
  | receive frame =>
    rw [Host.stepRun] at hrun
    split at hrun
    · rename_i hc
      obtain ⟨m, hm, rfl⟩ := Option.map_eq_some_iff.mp hrun
      obtain rfl : calling = none := hc.1
      exact .receive hc.2 ⟨n, hm⟩
    · cases hrun
  | connect ripaddr rport =>
    rw [Host.stepRun] at hrun
    split at hrun
    · rename_i hc
      obtain ⟨r, hr, rfl⟩ := Option.map_eq_some_iff.mp hrun
      obtain rfl : calling = none := hc
      exact .connect ⟨n, hr⟩
    · cases hrun
  | periodic i | poll i | listen port | unlisten port =>
    rw [Host.stepRun] at hrun
    split at hrun
    · rename_i hc
      obtain rfl : calling = none := hc
      obtain rfl := Option.some.inj hrun
      constructor
    · cases hrun
  | memory behind =>
    obtain rfl := Option.some.inj hrun
    exact .memory
  | appReturn r =>
    obtain ⟨resume, hc, rfl⟩ := Option.map_eq_some_iff.mp hrun
    obtain rfl : calling = some resume := hc
    exact .appReturn

-- ---------------------------------------------------------------------------
-- The first state
-- ---------------------------------------------------------------------------

def TcpipHdr.zero : TcpipHdr where
  vhl := 0
  tos := 0
  len := (0, 0)
  ipid := (0, 0)
  ipoffset := (0, 0)
  ttl := 0
  proto := 0
  ipchksum := 0
  srcipaddr := (0, 0)
  destipaddr := (0, 0)
  srcport := 0
  destport := 0
  seqno := ⟨0, 0, 0, 0⟩
  ackno := ⟨0, 0, 0, 0⟩
  tcpoffset := 0
  flags := 0
  wnd := (0, 0)
  tcpchksum := 0
  urgp := (0, 0)

def UipConn.zero : UipConn where
  ripaddr := (0, 0)
  lport := 0
  rport := 0
  rcvNxt := ⟨0, 0, 0, 0⟩
  sndNxt := ⟨0, 0, 0, 0⟩
  len := 0
  mss := 0
  initialmss := 0
  sa := 0
  sv := 0
  rto := 0
  tcpstateflags := .closed
  timer := 0
  nrtx := 0

/-- The address that `network_init` sets. -/
def HOSTADDR : Ipaddr := (word 10 10, word 10 2)

/-- Static memory, before `network_init`. -/
def Stack.zero (behind : Nat → UInt8) : Stack where
  hostaddr := (0, 0)
  buf := { hdr := .zero, data := .fill _ 0 }
  behind
  appdata := 0
  len := 0
  slen := 0
  flags := {}
  conn := 0
  conns _ := .zero
  listenports _ := 0
  ipid := 0
  iss := ⟨0, 0, 0, 0⟩
  lastport := 0
  logged := []

/-- `network_init`, up to the connection; `uip_init` draws a port above 1024 and
below 32000. -/
def networkInit (behind : Nat → UInt8) (iss : Seqno) (lastport : UInt16) : Host where
  stack := { uipInit (.zero behind) iss lastport with hostaddr := HOSTADDR }
  calling := none

def Reaches (es : List Event) (h : Host) : Prop :=
  ∃ behind iss lastport, 1024 < lastport ∧ lastport < 32000 ∧
    Run HostStep (networkInit behind iss lastport) es h

theorem reaches_of_stepRun {n : Nat} {behind : Nat → UInt8} {iss : Seqno} {lastport : UInt16}
    {es : List Event} {h : Host} (hports : 1024 < lastport ∧ lastport < 32000)
    (hrun : es.foldlM (Host.stepRun n) (networkInit behind iss lastport) = some h) : Reaches es h :=
  ⟨behind, iss, lastport, hports.1, hports.2, (Run.of_foldlM hrun).mono fun _ _ _ hstep =>
    hostStep_of_stepRun hstep⟩

/-- A connection is opened to port 6667 of a server, and the SYN is sent. -/
def opening : List Event := [.connect (word 163 123, word 192 192) 6667, .periodic 0, .periodic 0]

def openingSynack : List UInt8 :=
  [69, 0, 0, 40, 0, 1, 0, 0, 64, 6, 2, 136, 163, 123, 192, 192, 10, 10, 10, 2, 26, 11, 124, 255, 5,
    6, 7, 8, 1, 2, 4, 0, 80, 18, 5, 180, 137, 188, 0, 0]

/-- `hi` and the end of the line, from the server. -/
def openingData : List UInt8 :=
  [69, 0, 0, 44, 0, 1, 0, 0, 64, 6, 2, 132, 163, 123, 192, 192, 10, 10, 10, 2, 26, 11, 124, 255, 5,
    6, 7, 9, 1, 2, 4, 0, 80, 24, 5, 180, 20, 62, 0, 0, 104, 105, 13, 10]

def AppReturn.nothing : AppReturn where
  flags := {}
  slen := 0
  data := .fill _ 0
  stopped := false

def openingHost : Host := networkInit (fun _ => 0) ⟨1, 2, 3, 255⟩ 31998

-- ---------------------------------------------------------------------------
-- What a step does to connections
-- ---------------------------------------------------------------------------

def UipConn.key (c : UipConn) : Ipaddr × UInt16 × UInt16 := (c.ripaddr, c.lport, c.rport)

structure UipConn.Bounded (c : UipConn) : Prop where
  len : c.len ≤ TCP_MSS
  mss : c.mss ≤ TCP_MSS
  initialmss : c.initialmss ≤ TCP_MSS
  nrtx : c.nrtx ≤ UIP_MAXRTX

/-- What holds between a connection before a step and after it. -/
structure UipConn.Evolves (c c' : UipConn) : Prop where
  key : c'.key = c.key
  bounded : c.Bounded → c'.Bounded

namespace UipConn.Evolves

variable {c c' c'' : UipConn}

theorem refl (c : UipConn) : Evolves c c := ⟨rfl, id⟩

theorem trans (h : Evolves c c') (h' : Evolves c' c'') : Evolves c c'' where
  key := h'.key.trans h.key
  bounded hc := h'.bounded (h.bounded hc)

/-- A change of fields that neither identify the connection nor have a bound. -/
theorem of_eq (hkey : c'.key = c.key) (hlen : c'.len = c.len) (hmss : c'.mss = c.mss)
    (hinitial : c'.initialmss = c.initialmss) (hnrtx : c'.nrtx = c.nrtx) : Evolves c c' where
  key := hkey
  bounded hc := ⟨hlen ▸ hc.len, hmss ▸ hc.mss, hinitial ▸ hc.initialmss, hnrtx ▸ hc.nrtx⟩

/-- A change of the length of what is outstanding, or of the retransmissions of it. -/
theorem of_len (hkey : c'.key = c.key) (hlen : c.Bounded → c'.len ≤ TCP_MSS) (hmss : c'.mss = c.mss)
    (hinitial : c'.initialmss = c.initialmss) (hnrtx : c.Bounded → c'.nrtx ≤ UIP_MAXRTX) :
    Evolves c c' where
  key := hkey
  bounded hc := ⟨hlen hc, hmss ▸ hc.mss, hinitial ▸ hc.initialmss, hnrtx hc⟩

end UipConn.Evolves

/-- Only connection `i` changes between the two, and that evolves. -/
structure Kept (i : Fin UIP_CONNS) (s t : Stack) : Prop where
  conn : t.conn = i
  others : ∀ j, j ≠ i → t.conns j = s.conns j
  self : (s.conns i).Evolves (t.conns i)
  hostaddr : t.hostaddr = s.hostaddr
  listenports : t.listenports = s.listenports
  lastport : t.lastport = s.lastport

namespace Kept

variable {i : Fin UIP_CONNS} {s t u : Stack} {c : UipConn}

theorem refl (s : Stack) : Kept s.conn s s := ⟨rfl, fun _ _ => rfl, .refl _, rfl, rfl, rfl⟩

theorem cur (h : Kept i s t) : t.cur = t.conns i := by rw [Stack.cur, h.conn]

theorem setConn (h : Kept i s t) (hc : t.cur.Evolves c) : Kept i s (t.setConn c) where
  conn := h.conn
  others j hj := by rw [Stack.conns_setConn_ne (by rwa [h.conn]), h.others j hj]
  self := by
    have hself : (t.setConn c).conns i = c := by rw [← h.conn]; exact Stack.cur_setConn
    rw [hself]
    exact h.self.trans (h.cur ▸ hc)
  hostaddr := h.hostaddr
  listenports := h.listenports
  lastport := h.lastport

theorem sends (h : Kept i s t) (ht : Sends t u) : Kept i s u where
  conn := ht.conn.trans h.conn
  others j hj := by rw [ht.conns, h.others j hj]
  self := by
    rw [ht.conns]
    exact h.self
  hostaddr := ht.hostaddr.trans h.hostaddr
  listenports := ht.listenports.trans h.listenports
  lastport := ht.lastport.trans h.lastport

end Kept

end FxIP.Tcpip
