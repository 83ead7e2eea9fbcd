import FxIP.Irc.Reader
import FxIP.Tcpip.Written

/-!
# The client on its stack

`irc_appcall` as what `uip_process` calls. A call of the application goes on
with the statements of `irc_thread`, and ends with the turn of
`irc_send_thread`; until then the client works on the globals that it shares
with the stack. Between the calls `network_poll` has frames, time-outs, or
nothing for the stack.
-/

namespace FxIP.Tcpip

-- ---------------------------------------------------------------------------
-- What is shared
-- ---------------------------------------------------------------------------

def TcpState.seen : TcpState → FxIP.TcpState
  | .synSent => .synSent
  | .established => .established
  | _ => .closed

def UipConn.seen (c : UipConn) : FxIP.UipConn where
  tcpstate := c.state.seen
  len := c.len.toNat
  mss := c.mss.toNat
  initialmss := c.initialmss.toNat

/-- `uip_appdata`, where there is no urgent data before it. -/
def UipBuf.appdata (b : UipBuf) : Buffer UInt8 UIP_APPDATA_SIZE :=
  ⟨b.data.cells.take UIP_APPDATA_SIZE, by rw [List.length_take, b.data.size]; rfl⟩

def Stack.seen (s : Stack) : Uip where
  conn := s.cur.seen
  flags := s.flags
  appdata := s.buf.appdata
  len := s.len.toNat
  slen := s.slen.toNat
  sends := 0

/-- What the client leaves. It does not stop the connection. -/
def Stack.left (s : Stack) (uip : Uip) : AppReturn where
  flags := uip.flags
  slen := UInt16.ofNat uip.slen
  data := s.buf.data.write uip.appdata.cells
  stopped := s.cur.tcpstateflags.stopped

/-- `uip_closed() || uip_aborted() || uip_timedout()`. -/
def Over (flags : UipFlags) : Bool := flags.closed || flags.aborted || flags.timedout

-- ---------------------------------------------------------------------------
-- The network
-- ---------------------------------------------------------------------------

/-- The host with the streams of connection `i`, both ways. -/
structure Net where
  host : Host
  first : BitVec 32
  written : List UInt8
  sent : List (List UInt8)
  start : BitVec 32
  got : List UInt8

def Net.writer (x : Net) : Sent := ⟨x.host, x.first, x.written, x.sent⟩
def Net.reader (x : Net) : Delivery := ⟨x.host, x.start, x.got⟩

def NetStep (i : Fin UIP_CONNS) (x : Net) (e : Event) (y : Net) : Prop :=
  SentStep i x.writer e y.writer ∧ DeliveryStep i x.reader e y.reader

/-- What `network_poll` has for the stack. -/
def Event.polled : Event → Bool
  | .receive _ | .periodic _ => true
  | _ => false

-- ---------------------------------------------------------------------------
-- The program
-- ---------------------------------------------------------------------------

/-- `appstate` is that of each connection, and `uip` the globals in a call. -/
structure Client where
  net : Net
  appstate : Fin UIP_CONNS → IrcState
  messages : Messages
  uip : Uip
  turn : Turn

def Client.stack (c : Client) : Stack := c.net.host.stack

/-- The state of the connection that the application is called for. -/
def Client.app (c : Client) : IrcState := c.appstate c.stack.conn

def Client.setApp (c : Client) (app : IrcState) : Client :=
  { c with appstate := Function.update c.appstate c.stack.conn app }

inductive ClientEvent
  | submit (text : List UInt8)
  | network (e : Event)
  | thread
  | sendThread

/-- The streams are those of connection 0, which `irc_connect` opens. -/
inductive ClientStep (c : Client) : ClientEvent → Client → Prop
  | submit {text} : c.turn = .outside → IsInput text →
      ClientStep c (.submit text) { c with messages := uiPageIrcMessageSubmit c.messages text }
  | quiet {e x} : c.turn = .outside → e.polled → NetStep 0 c.net e x → x.host.calling = none →
      ClientStep c (.network e) { c with net := x }
  | calls {e x} : c.turn = .outside → e.polled → NetStep 0 c.net e x → x.host.calling ≠ none →
      Over x.host.stack.flags = false →
      ClientStep c (.network e) { c with net := x, uip := x.host.stack.seen, turn := .thread }
  | closes {e x y} : c.turn = .outside → e.polled → NetStep 0 c.net e x → x.host.calling ≠ none →
      Over x.host.stack.flags = true → NetStep 0 x
        (.appReturn (x.host.stack.left x.host.stack.seen)) y →
      ClientStep c (.network e) { ({ c with net := x }.setApp
        { ({ c with net := x } : Client).app with connected := false }) with net := y }
  | thread {go messages app uip} : c.turn = .thread →
      (ircThread c.messages c.app c.uip).Returns (some (go, messages, app, uip)) →
      ClientStep c .thread
        { c.setApp app with messages, uip, turn := if go then .thread else .sendThread }
  | skips {x} : c.turn = .sendThread → c.messages.messagelength = 0 →
      NetStep 0 c.net (.appReturn (c.stack.left c.uip)) x →
      ClientStep c .sendThread { c with net := x, turn := .outside }
  | sends {messages app uip x} : c.turn = .sendThread → c.messages.messagelength ≠ 0 →
      (ircSendThread c.messages c.app c.uip).Returns (messages, app, uip) →
      NetStep 0 c.net (.appReturn (c.stack.left uip)) x →
      ClientStep c .sendThread { c.setApp app with net := x, messages, turn := .outside }

def SERVER : Ipaddr := (word 163 123, word 192 192)
def IRC_PORT : UInt16 := 6667

/-- After `network_init`, with what was in memory before. -/
inductive Starts (appstate : Fin UIP_CONNS → IrcState) (messages : Messages) : Client → Prop
  | init {behind iss lastport first start x} : 1024 < lastport → lastport < 32000 →
      NetStep 0 ⟨networkInit behind iss lastport, first, [], [], start, []⟩
        (.connect SERVER IRC_PORT) x →
      Starts appstate messages
        { net := x
          appstate := Function.update appstate 0
            (ircConnect (appstate 0) messages x.host.stack.buf.appdata).app
          messages := (ircConnect (appstate 0) messages x.host.stack.buf.appdata).messages
          uip := x.host.stack.seen
          turn := .outside }

/-- Nobody connects to port 0, which stands for the free cells of the list of
ports. A segment for connection `i`, once that is open, has a whole header and
no urgent data. -/
def RegularFrame (i : Fin UIP_CONNS) (s : Stack) (hdr : TcpipHdr) : Prop :=
  (hdr.flags &&& TCP_CTL = TCP_SYN → hdr.destport ≠ 0) ∧
    ((s.conns i).state = .established → (s.conns i).Matches hdr →
      40 ≤ hdr.headersLen ∧ hdr.headersLen ≤ hdr.totalLen ∧ ¬ hdr.has TCP_URG)

def Regular (c : Client) : ClientEvent → Prop
  | .network (.receive frame) => RegularFrame 0 c.stack (c.stack.buf.receive frame).hdr
  | _ => True

-- ---------------------------------------------------------------------------
-- Steps by computation
-- ---------------------------------------------------------------------------

instance (i : Fin UIP_CONNS) (s : Stack) (hdr : TcpipHdr) : Decidable (RegularFrame i s hdr) :=
  inferInstanceAs (Decidable (_ ∧ _))

instance (c : Client) : (e : ClientEvent) → Decidable (Regular c e)
  | .network (.receive frame) => inferInstanceAs
      (Decidable (RegularFrame 0 c.stack (c.stack.buf.receive frame).hdr))
  | .network (.periodic _) | .network (.poll _) | .network (.connect _ _) | .network (.listen _)
  | .network (.unlisten _) | .network (.memory _) | .network (.appReturn _) => isTrue trivial
  | .submit _ | .thread | .sendThread => isTrue trivial

def Net.stepRun (n : Nat) (i : Fin UIP_CONNS) (x : Net) (e : Event) : Option Net :=
  (x.host.stepRun n e).map fun h' =>
    { host := h'
      first := (x.writer.next i e h').first
      written := (x.writer.next i e h').written
      sent := (x.writer.next i e h').sent
      start := (x.reader.next i h').start
      got := (x.reader.next i h').got }

theorem Sent.mk_host {d : Sent} {h : Host} (hh : d.host = h) :
    Sent.mk h d.first d.written d.sent = d := by
  subst hh
  rfl

theorem Delivery.mk_host {d : Delivery} {h : Host} (hh : d.host = h) :
    Delivery.mk h d.start d.got = d := by
  subst hh
  rfl

theorem netStep_of_stepRun {n : Nat} {i : Fin UIP_CONNS} {x y : Net} {e : Event}
    (h : x.stepRun n i e = some y) :
    NetStep i x e y := by
  obtain ⟨h', hh', rfl⟩ := Option.map_eq_some_iff.mp h
  have hstep := hostStep_of_stepRun hh'
  have hwriter : (x.writer.next i e h').host = h' := by
    rw [Sent.next]
    split
    · rfl
    · split <;> rfl
  have hreader : (x.reader.next i h').host = h' := by
    rw [Delivery.next]
    split <;> rfl
  refine ⟨⟨hstep, ?_⟩, hstep, ?_⟩
  · exact Sent.mk_host hwriter
  · exact Delivery.mk_host hreader

/-- What the client leaves in the buffer, in one piece. -/
def Stack.dataRun (s : Stack) (uip : Uip) : Buffer UInt8 UIP_DATA_SIZE where
  cells := uip.appdata.cells ++ s.buf.data.cells.drop UIP_APPDATA_SIZE
  size := by
    rw [List.length_append, List.length_drop, uip.appdata.size, s.buf.data.size]
    rfl

def Stack.leftRun (s : Stack) (uip : Uip) : AppReturn :=
  { s.left uip with data := s.dataRun uip }

theorem leftRun_eq (s : Stack) (uip : Uip) : s.leftRun uip = s.left uip := by
  have hcells := s.buf.data.cells_write uip.appdata.cells (by rw [uip.appdata.size]; decide)
  rw [uip.appdata.size] at hcells
  have hdata : s.dataRun uip = s.buf.data.write uip.appdata.cells := Buffer.eq_of_cells hcells.symm
  rw [Stack.leftRun, hdata]
  rfl

def Client.stepRun (n : Nat) (c : Client) : ClientEvent → Option Client
  | .submit text =>
    if c.turn = .outside ∧ IsInput text then some
      { c with messages := uiPageIrcMessageSubmit c.messages text }
    else none
  | .network e =>
    if c.turn = .outside ∧ e.polled then
      (c.net.stepRun n 0 e).bind fun x =>
        if x.host.calling = none then some { c with net := x }
        else if Over x.host.stack.flags = false then
          some { c with net := x, uip := x.host.stack.seen, turn := .thread }
        else (x.stepRun n 0 (.appReturn (x.host.stack.leftRun x.host.stack.seen))).map fun y =>
          { ({ c with net := x }.setApp
            { ({ c with net := x } : Client).app with connected := false }) with net := y }
    else none
  | .thread =>
    if c.turn = .thread then
      ((ircThread c.messages c.app c.uip).run n).bind fun result =>
        result.map fun (go, messages, app, uip) =>
        { c.setApp app with messages, uip, turn := if go then .thread else .sendThread }
    else none
  | .sendThread =>
    if c.turn = .sendThread then
      if c.messages.messagelength = 0 then
        (c.net.stepRun n 0 (.appReturn (c.stack.leftRun c.uip))).map fun x =>
          { c with net := x, turn := .outside }
      else ((ircSendThread c.messages c.app c.uip).run n).bind fun (messages, app, uip) =>
        (c.net.stepRun n 0 (.appReturn (c.stack.leftRun uip))).map fun x =>
          { c.setApp app with net := x, messages, turn := .outside }
    else none

theorem clientStep_of_stepRun {n : Nat} {c c' : Client} {e : ClientEvent}
    (h : c.stepRun n e = some c') :
    ClientStep c e c' := by
  cases e with
  | submit text =>
    rw [Client.stepRun] at h
    split at h
    · rename_i hc
      obtain rfl := Option.some.inj h
      exact .submit hc.1 hc.2
    · cases h
  | network e =>
    simp only [Client.stepRun, leftRun_eq] at h
    split at h
    · rename_i hc
      obtain ⟨x, hx, h⟩ := Option.bind_eq_some_iff.mp h
      have hnet := netStep_of_stepRun hx
      split at h
      · rename_i hnone
        obtain rfl := Option.some.inj h
        exact .quiet hc.1 hc.2 hnet hnone
      · rename_i hcalling
        split at h
        · rename_i hover
          obtain rfl := Option.some.inj h
          exact .calls hc.1 hc.2 hnet hcalling hover
        · rename_i hover
          obtain ⟨y, hy, rfl⟩ := Option.map_eq_some_iff.mp h
          exact .closes hc.1 hc.2 hnet hcalling (Bool.eq_true_of_not_eq_false hover)
            (netStep_of_stepRun hy)
    · cases h
  | thread =>
    rw [Client.stepRun] at h
    split at h
    · rename_i hturn
      obtain ⟨result, hrun, h⟩ := Option.bind_eq_some_iff.mp h
      obtain ⟨⟨go, messages, app, uip⟩, rfl, rfl⟩ := Option.map_eq_some_iff.mp h
      exact .thread hturn ⟨n, hrun⟩
    · cases h
  | sendThread =>
    simp only [Client.stepRun, leftRun_eq] at h
    split at h
    · rename_i hturn
      split at h
      · rename_i hnone
        obtain ⟨x, hx, rfl⟩ := Option.map_eq_some_iff.mp h
        exact .skips hturn hnone (netStep_of_stepRun hx)
      · rename_i hsome
        obtain ⟨⟨messages, app, uip⟩, hrun, h⟩ := Option.bind_eq_some_iff.mp h
        obtain ⟨x, hx, rfl⟩ := Option.map_eq_some_iff.mp h
        exact .sends hturn hsome ⟨n, hrun⟩ (netStep_of_stepRun hx)
    · cases h

/-- The client after `network_init`. -/
def Client.startRun (n : Nat) (iss : Seqno) (lastport : UInt16) : Option Client :=
  (Net.stepRun n 0 ⟨networkInit (fun _ => 0) iss lastport, 0, [], [], 0, []⟩
    (.connect SERVER IRC_PORT)).map fun x =>
    { net := x
      appstate := Function.update (fun _ => .zero) 0
        (ircConnect .zero .zero x.host.stack.buf.appdata).app
      messages := (ircConnect .zero .zero x.host.stack.buf.appdata).messages
      uip := x.host.stack.seen
      turn := .outside }

theorem starts_of_startRun {n : Nat} {iss : Seqno} {lastport : UInt16} {c : Client}
    (hports : 1024 < lastport ∧ lastport < 32000) (h : Client.startRun n iss lastport = some c) :
    Starts (fun _ => .zero) .zero c := by
  obtain ⟨x, hx, rfl⟩ := Option.map_eq_some_iff.mp h
  exact .init hports.1 hports.2 (netStep_of_stepRun hx)

/-- The handshake, and the first line of the login. -/
def loggingIn : List ClientEvent :=
  [.network (.periodic 0), .network (.periodic 0), .network (.receive openingSynack), .thread,
    .sendThread]

end FxIP.Tcpip
