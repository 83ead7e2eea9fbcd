import FxIP.Irc.Login
import FxIP.Tcpip.Returned

/-!
# The client's model of its connection

Every run of the client on the stack is a run of the client's own model: what
the model assumes of uIP is what `uip_process` does, for any frames and
time-outs, and the bytes of both streams are the same.
-/

namespace FxIP.Tcpip

variable {h h' : Host} {s t : Stack} {e : Event} {n : Next} {i : Fin UIP_CONNS} {r : Resume}
    {u u' : Uip} {x y : Net}

-- ---------------------------------------------------------------------------
-- The rest of the host
-- ---------------------------------------------------------------------------

/-- No other connection is open, and nobody can open one. -/
structure Alone (i : Fin UIP_CONNS) (s : Stack) : Prop where
  idle : ∀ j, j ≠ i → (s.conns j).tcpstateflags = .closed
  ports : ∀ k, s.listenports k = 0

theorem Alone.kept (ha : Alone i s) (hk : Kept i s t) : Alone i t where
  idle j hj := by rw [hk.others j hj, ha.idle j hj]
  ports k := by rw [hk.listenports, ha.ports k]

theorem Alone.sends (ha : Alone i s) (hs : Sends s t) : Alone i t where
  idle j hj := by rw [hs.conns, ha.idle j hj]
  ports k := by rw [hs.listenports, ha.ports k]

theorem Alone.matches {j : Fin UIP_CONNS} {hdr : TcpipHdr} (ha : Alone i s)
    (hm : (s.conns j).Matches hdr) : j = i := by
  by_contra hne
  exact hm.1 (ha.idle j hne)

theorem Alone.receive {frame : List UInt8} (ha : Alone i s)
    (hsyn : (s.buf.receive frame).hdr.flags &&& TCP_CTL = TCP_SYN →
      (s.buf.receive frame).hdr.destport ≠ 0)
    (hn : (uipInput (s.receive frame)).Returns n) : Alone i n.stack := by
  have hs := sends_trimmed s frame
  have hr : Sends s (s.receive frame) := ⟨rfl, rfl, rfl, rfl, rfl, rfl, rfl⟩
  cases input_uipInput hn with
  | ignored hu _ _ => exact ha.sends (hr.trans hu)
  | echo _ _ => exact ha.sends (hs.trans (sends_icmpInput _))
  | reset _ _ => exact ha.sends (hs.trans (sends_reset _))
  | listen _ _ hflags hport _ =>
    obtain ⟨c, hc⟩ := hport
    exact absurd (hc.trans (ha.ports c)) (hsyn hflags)
  | @found _ j _ hj hfound =>
    obtain rfl := ha.matches (s := s) (matches_of_some (s := s.receive frame) hj)
    exact ha.kept ((kept_found _ hfound).of_sends hs)

theorem Alone.timer_done {j : Fin UIP_CONNS} (ha : Alone i s) (hj : j ≠ i) :
    ∃ t, uipTimer { s with conn := j } = .done t ∧ t.conns = s.conns ∧ t.buf = s.buf ∧
      t.listenports = s.listenports := by
  have hcur : ({ s with conn := j, appdata := 0, iss := s.iss.inc3, len := 0, slen := 0 } :
    Stack).cur =
      s.conns j := rfl
  rw [uipTimer]
  dsimp only
  rw [hcur, ha.idle j hj, if_neg (by decide), if_neg (by decide)]
  exact ⟨_, rfl, rfl, rfl, rfl⟩

theorem Alone.returned (ha : Alone i s) (hi : s.conn = i) (a : AppReturn) (r : Resume) :
    Alone i (uipResume (uipAppReturn s a) r) := by
  subst hi
  exact ha.kept (kept_resume (kept_appReturn a (.refl s)))

-- ---------------------------------------------------------------------------
-- A step of the network
-- ---------------------------------------------------------------------------

/-- Whatever `network_poll` has for the stack, the client sees it as an event of
its own model. -/
theorem sight_polled (hshown : Shown u i s) (ha : Alone i s) (hpolled : e.polled)
    (hregular : ∀ frame, e = .receive frame → RegularFrame i s (s.buf.receive frame).hdr)
    (hstep : HostStep ⟨s, none⟩ e h') : ∃ n, h' = n.host ∧ Sight u i n ∧ Alone i n.stack := by
  cases hstep with
  | @receive _ frame n hlen hn =>
    obtain ⟨hsyn, hwhole⟩ := hregular frame rfl
    exact ⟨n, rfl, sight_receive hshown ha.idle ha.ports hlen hsyn hwhole hn, ha.receive hsyn hn⟩
  | @periodic _ j =>
    by_cases hj : j = i
    · subst hj
      exact ⟨_, rfl, sight_timer hshown, ha.kept (kept_timer (kept_select s j))⟩
    · obtain ⟨t, ht, hconns, hbuf, hports⟩ := ha.timer_done hj
      refine ⟨_, rfl, ?_⟩
      rw [ht]
      refine ⟨.quiet [] (hshown.alike ?_ ?_), ⟨fun k hk => ?_, fun k => ?_⟩⟩
      · rw [hconns]
        exact .refl _
      · rw [hbuf, Buffer.write_prefix List.nil_prefix]
      · rw [Next.stack, hconns, ha.idle k hk]
      · rw [Next.stack, hports, ha.ports k]
  | _ => cases hpolled

-- ---------------------------------------------------------------------------
-- The streams
-- ---------------------------------------------------------------------------

structure NotOpened (c c' : UipConn) : Prop where
  established : c'.state = .established → c.state = .established
  synRcvd : c'.state ≠ .synRcvd

theorem written_kept (hnet : NetStep i x e y)
    (ho : NotOpened (x.host.stack.conns i) (y.host.stack.conns i)) :
    y.written = x.written ++ if (y.host.stack.conns i).state = .established then x.host.writes i e
      else [] := by
  have hnext := congrArg Sent.written hnet.1.2
  change y.written = (x.writer.next i e y.host).written at hnext
  rw [hnext]
  by_cases hest : (y.host.stack.conns i).state = .established
  · rw [next_established (d := x.writer) (ho.established hest) hest, if_pos hest]
    rfl
  · rw [next_closed hest, if_neg hest, List.append_nil]
    rfl

theorem got_kept (hnet : NetStep i x e y)
    (ho : NotOpened (x.host.stack.conns i) (y.host.stack.conns i)) :
    y.got = x.got ++ x.host.given y.host i := by
  have hnext := congrArg Delivery.got hnet.2.2
  change y.got = (x.reader.next i y.host).got at hnext
  rw [hnext, Delivery.next, if_neg]
  · rfl
  · rintro (hsyn | ⟨hsent, hest⟩)
    · exact ho.synRcvd hsyn
    · cases hsent.symm.trans (ho.established hest)

theorem streams_opened (hnet : NetStep i x e y) (hsent : (x.host.stack.conns i).state = .synSent)
    (hest : (y.host.stack.conns i).state = .established) : y.written = [] ∧ y.got = [] := by
  have hwritten := congrArg Sent.written hnet.1.2
  change y.written = (x.writer.next i e y.host).written at hwritten
  have hgot := congrArg Delivery.got hnet.2.2
  change y.got = (x.reader.next i y.host).got at hgot
  rw [hwritten, hgot]
  constructor
  · rw [Sent.next, if_pos ⟨fun h => (by cases hsent.symm.trans h), hest⟩]
  · rw [Delivery.next, if_pos (.inr ⟨hsent, hest⟩)]

theorem writes_polled (hpolled : e.polled) : h.writes i e = [] := by
  cases e <;> first | rfl | cases hpolled

-- ---------------------------------------------------------------------------
-- The client's model
-- ---------------------------------------------------------------------------

section
variable {sys : IrcSystem}

theorem step_frame (hout : sys.turn = .outside) (bytes : List UInt8) :
    IrcStep sys (.frame bytes) { sys with uip := uipReceive sys.uip bytes } := by
  simp only [IrcStep, IrcSystem.step, if_pos hout]
  exact Comp.returns_pure.mpr rfl

theorem step_synack (hout : sys.turn = .outside) (hstate : sys.uip.conn.tcpstate = .synSent)
    (options : List UInt8) (mss : Option Nat) : IrcStep sys (.synack options mss)
    (sys.call (FxIP.uipSynack sys.uip options mss)) := by
  simp only [IrcStep, IrcSystem.step]
  rw [if_pos ⟨hout, hstate⟩]
  exact Comp.returns_pure.mpr rfl

theorem step_segment (hout : sys.turn = .outside) (hstate : sys.uip.conn.tcpstate = .established)
    (ack : Bool) (wnd : Nat) (payload : List UInt8) : IrcStep sys (.segment ack wnd payload)
      (if (uipSegment sys.uip ack wnd payload).flags.acked ||
        (uipSegment sys.uip ack wnd payload).flags.newdata then
        sys.call (uipSegment sys.uip ack wnd payload)
      else { sys with uip := uipSegment sys.uip ack wnd payload }) := by
  simp only [IrcStep, IrcSystem.step]
  rw [if_pos ⟨hout, hstate⟩]
  exact Comp.returns_pure.mpr rfl

theorem step_timer (hout : sys.turn = .outside) (hstate : sys.uip.conn.tcpstate = .established) :
    IrcStep sys .timer (sys.call (FxIP.uipTimer sys.uip)) := by
  simp only [IrcStep, IrcSystem.step]
  rw [if_pos ⟨hout, hstate⟩]
  exact Comp.returns_pure.mpr rfl

theorem step_close (hout : sys.turn = .outside) (hopen : sys.uip.conn.tcpstate ≠ .closed) :
    IrcStep sys (.close .closed) { sys with
      uip := uipCall { sys.uip with conn := { sys.uip.conn with tcpstate := .closed } }
        { closed := true } 0
      app := { sys.app with connected := false } } := by
  simp only [IrcStep, IrcSystem.step]
  rw [if_pos ⟨hout, hopen⟩]
  exact Comp.returns_pure.mpr rfl

theorem step_submit {text : List UInt8} (hout : sys.turn = .outside) (htext : IsInput text) :
    IrcStep sys (.submit text)
      { sys with messages := uiPageIrcMessageSubmit sys.messages text } := by
  simp only [IrcStep, IrcSystem.step]
  rw [if_pos ⟨hout, htext⟩]
  exact Comp.returns_pure.mpr rfl

theorem step_skip (hturn : sys.turn = .sendThread) (hlen : sys.messages.messagelength = 0) :
    IrcStep sys .sendThread (sys.output sys.messages sys.app sys.uip) := by
  simp only [IrcStep, IrcSystem.step]
  rw [if_pos hturn, if_neg fun h => h hlen]
  exact Comp.returns_pure.mpr rfl

end

/-- A step of the client, with the record of what the server's segments brought. -/
def ReadsStep (r : IrcReader) (e : IrcEvent) (u : IrcReader) : Prop :=
  IrcStep r.sys e u.sys ∧ ReaderStep r e u

section
variable {r : IrcReader} {e : IrcEvent} {sys : IrcSystem}

theorem readsStep_of_step (hpayload : e.payload.length ≤ UIP_APPDATA_SIZE)
    (hstep : IrcStep r.sys e sys) :
    ∃ lines, ReadsStep r e ⟨sys, r.received ++ e.payload, lines⟩ := by
  by_cases hparse : r.sys.turn = .thread ∧ r.sys.app.pt = .parse
  · obtain rfl := hstep.event_thread hparse.1
    have hread := readerStep_of_parse hparse.1 hparse.2 hstep
    refine ⟨r.lines ++ [r.sys.app.line .parse], hstep, ?_⟩
    rwa [show IrcEvent.thread.payload = [] from rfl, List.append_nil]
  · exact ⟨_, hstep, .step e sys hparse hpayload hstep⟩

end

-- ---------------------------------------------------------------------------
-- What holds between the two
-- ---------------------------------------------------------------------------

structure Client.Ok (c : Client) : Prop where
  host : c.net.host.Ok
  alone : Alone 0 c.stack
  outside : c.turn = .outside → c.net.host.calling = none
  inCall : c.turn ≠ .outside → InCall c.uip 0 c.net.host

/-- The client's model shows the client as it is. Data that come with the end of
the stream are not for the model, since the client does not look at them. -/
structure Client.Shows (c : Client) (r : IrcReader) : Prop where
  app : r.sys.app = c.appstate 0
  messages : r.sys.messages = c.messages
  turn : r.sys.turn = c.turn
  outside : c.turn = .outside → Shown r.sys.uip 0 c.stack
  inCall : c.turn ≠ .outside → r.sys.uip = c.uip
  stream : r.sys.stream = c.net.written
  received : r.received <+: c.net.got
  established : r.sys.uip.conn.tcpstate = .established → r.received = c.net.got
  synSent : r.sys.uip.conn.tcpstate = .synSent → r.sys.stream = [] ∧ r.received = []
  closed : r.sys.uip.conn.tcpstate = .closed → (c.appstate 0).connected = false

def ClientEvent.Covers : ClientEvent → IrcEvent → Prop
  | .submit text, e => e = .submit text
  | .network _, e => e ≠ .thread ∧ e ≠ .sendThread ∧ ∀ text, e ≠ .submit text
  | .thread, e => e = .thread
  | .sendThread, e => e = .sendThread

/-- `G` holds of the client's model, for all that the step may be there. -/
def Client.Lets (G : IrcSystem → IrcEvent → Prop) (c : Client) (e : ClientEvent) : Prop :=
  ∀ s e', e.Covers e' → s.app = c.appstate 0 → s.messages = c.messages →
    (c.turn ≠ .outside → s.uip = c.uip) →
    G s e'

def Follows (G : IrcSystem → IrcEvent → Prop) (c : Client) (e : ClientEvent) : Prop :=
  Regular c e ∧ c.Lets G e

section
variable {G : IrcSystem → IrcEvent → Prop} {c c' : Client} {r : IrcReader} {e : Event} {x y : Net}
    {t : Stack} {q : Resume}

/-- A run of the model from `r` that leads to what the client has come to. -/
def Matched (G : IrcSystem → IrcEvent → Prop) (r : IrcReader) (c : Client) : Prop :=
  ∃ fs r', Run (Run.Guarded (fun r e => G r.sys e) ReadsStep) r fs r' ∧ c.Ok ∧ c.Shows r'

theorem runs_one {e' : IrcEvent} {u : IrcReader} (hG : G r.sys e') (h : ReadsStep r e' u) :
    Run (Run.Guarded (fun r e => G r.sys e) ReadsStep) r [e'] u := Run.snoc .nil ⟨hG, h⟩

theorem Client.Shows.notOpened (hshows : c.Shows r) (hout : c.turn = .outside) {cc : UipConn}
    (hstate : cc.state.seen = r.sys.uip.conn.tcpstate ∨ cc.state.seen = .closed)
    (hsyn : cc.state ≠ .synRcvd) :
    NotOpened (c.stack.conns 0) cc where
  established hest := by
    have hshown := hshows.outside hout
    rcases hstate with hsame | hclosed
    · apply established_of_seen
      rw [← hshown.tcpstate, ← hsame, hest]
      rfl
    · rw [hest] at hclosed
      cases hclosed
  synRcvd := hsyn

theorem Client.Lets.network (hG : c.Lets G (.network e)) (hshows : c.Shows r)
    (hout : c.turn = .outside) {e' : IrcEvent}
    (hthread : e' ≠ .thread) (hsend : e' ≠ .sendThread) (hsubmit : ∀ text, e' ≠ .submit text)
    {uip : Uip} :
    G { r.sys with uip } e' :=
  hG _ e' ⟨hthread, hsend, hsubmit⟩ hshows.app hshows.messages fun hne => absurd hout hne

theorem Client.Ok.stays (hok : c.Ok) (hout : c.turn = .outside) (hnet : NetStep 0 c.net e x)
    (halone : Alone 0 x.host.stack) (hidle : x.host.calling = none) :
    ({ c with net := x } : Client).Ok where
  host := ok_change (change_step hnet.1.1) hok.host
  alone := halone
  outside _ := hidle
  inCall hin := absurd hout hin

theorem Client.Shows.stays {uip : Uip} {lines : List TakenLine} (hshows : c.Shows r)
    (hshown : c.turn = .outside → Shown uip 0 x.host.stack) (hin : c.turn = .outside)
    (hstate : uip.conn.tcpstate = r.sys.uip.conn.tcpstate) (hwritten : x.written = c.net.written)
    (hgot : x.got = c.net.got) :
    ({ c with net := x } : Client).Shows ⟨{ r.sys with uip }, r.received, lines⟩ where
  app := hshows.app
  messages := hshows.messages
  turn := hshows.turn
  outside := hshown
  inCall hne := absurd hin hne
  stream := hshows.stream.trans hwritten.symm
  received := hgot ▸ hshows.received
  established hest := (hshows.established (hstate ▸ hest)).trans hgot.symm
  synSent hsent := hshows.synSent (hstate ▸ hsent)
  closed hclosed := hshows.closed (hstate ▸ hclosed)

theorem streams_quiet {uip : Uip} (hshows : c.Shows r) (hout : c.turn = .outside)
    (hpolled : e.polled)
    (hnet : NetStep 0 c.net e x) (hidle : x.host.calling = none) (hshown : Shown uip 0 x.host.stack)
    (hstate : uip.conn.tcpstate = r.sys.uip.conn.tcpstate) :
    x.written = c.net.written ∧ x.got = c.net.got := by
  have ho : NotOpened (c.stack.conns 0) (x.host.stack.conns 0) :=
    hshows.notOpened hout (.inl (hshown.tcpstate.symm.trans hstate)) hshown.synRcvd
  constructor
  · rw [written_kept hnet ho, writes_polled hpolled, ite_self, List.append_nil]
  · rw [got_kept hnet ho, given_of_done hidle, List.append_nil]

theorem matched_quiet (hG : c.Lets G (.network e)) (hok : c.Ok) (hshows : c.Shows r)
    (hout : c.turn = .outside) (hpolled : e.polled)
    (hnet : NetStep 0 c.net e x) (hx : x.host = ⟨t, none⟩) (halone : Alone 0 t)
    (hsight : Sight r.sys.uip 0 (.done t)) : Matched G r { c with net := x } := by
  have hturn : r.sys.turn = .outside := hshows.turn.trans hout
  have hstack : x.host.stack = t := by rw [hx]
  have hidle : x.host.calling = none := by rw [hx]
  have hnext := hok.stays hout hnet (hstack ▸ halone) hidle
  have hframe (bytes : List UInt8) : ∃ lines, ReadsStep r (.frame bytes)
      ⟨{ r.sys with uip := uipReceive r.sys.uip bytes }, r.received, lines⟩ := by
    have hread := readsStep_of_step (e := .frame bytes) (Nat.zero_le _) (step_frame hturn bytes)
    rwa [show (IrcEvent.frame bytes).payload = [] from rfl, List.append_nil] at hread
  rw [← hstack] at hsight
  cases hsight with
  | quiet bytes hshown =>
    obtain ⟨lines, hread⟩ := hframe bytes
    obtain ⟨hwritten, hgot⟩ := streams_quiet hshows hout hpolled hnet hidle hshown rfl
    exact ⟨_, _, runs_one (hG.network hshows hout (by simp) (by simp) (by simp)) hread, hnext,
      hshows.stays (fun _ => hshown) hout rfl hwritten hgot⟩
  | @silent _ u' bytes ack wnd hstate hu hquiet hshown =>
    obtain ⟨lines, hread⟩ := hframe bytes
    have hseg :=
      @step_segment { r.sys with uip := uipReceive r.sys.uip bytes } hturn hstate ack wnd []
    rw [← hu, if_neg (Bool.eq_false_iff.mp hquiet)] at hseg
    obtain ⟨lines', hread'⟩ :=
      readsStep_of_step (r := ⟨{ r.sys with uip := uipReceive r.sys.uip bytes }, r.received, lines⟩)
      (Nat.zero_le _) hseg
    have hsame : u'.conn.tcpstate = r.sys.uip.conn.tcpstate := by rw [hu]; rfl
    obtain ⟨hwritten, hgot⟩ := streams_quiet hshows hout hpolled hnet hidle hshown hsame
    have hrun :=
      (runs_one (G := G) (hG.network hshows hout (by simp) (by simp) (by simp)) hread).snoc
      ⟨hG.network hshows hout (by simp) (by simp) (by simp), hread'⟩
    refine ⟨_, _, hrun, hnext, ?_⟩
    rw [show (IrcEvent.segment ack wnd []).payload = [] from rfl, List.append_nil]
    exact hshows.stays (fun _ => hshown) hout hsame hwritten hgot

-- ---------------------------------------------------------------------------
-- The client is called
-- ---------------------------------------------------------------------------

theorem InCall.of_ready {data : List UInt8} (hcalls : Calls i t data) (hready : Ready t.seen)
    (htcp : t.seen.conn.tcpstate = .established) (hover : Over t.flags = false)
    (hq : q = if t.seen.flags.rexmit then .apprexmit else .appsend) :
    InCall t.seen i ⟨t, some q⟩ where
  calling := congrArg some hq
  conn := hcalls.conn
  flags := rfl
  going := hover
  seen := rfl
  tcpstate := htcp
  stopped := hcalls.stopped
  acked := hready.acked
  rexmit := hready.rexmit
  slen := hready.slen ▸ Nat.zero_le _

theorem Client.Ok.called {data : List UInt8} (hok : c.Ok) (hnet : NetStep 0 c.net e x)
    (hx : x.host = ⟨t, some q⟩)
    (halone : Alone 0 t) (hcalls : Calls 0 t data) (hready : Ready t.seen)
    (htcp : t.seen.conn.tcpstate = .established) (hover : Over t.flags = false)
    (hq : q = if t.seen.flags.rexmit then .apprexmit else .appsend) :
    ({ c with net := x, uip := t.seen, turn := .thread } : Client).Ok where
  host := ok_change (change_step hnet.1.1) hok.host
  alone := by
    have hstack : x.host.stack = t := by rw [hx]
    exact hstack ▸ halone
  outside hout := by cases hout
  inCall _ := hx ▸ InCall.of_ready hcalls hready htcp hover hq

theorem Client.Shows.called {uip : Uip} {received : List UInt8} {lines : List TakenLine}
    (hshows : c.Shows r)
    (htcp : uip.conn.tcpstate = .established) (hstream : r.sys.stream = x.written)
    (hreceived : received = x.got) :
    ({ c with net := x, uip, turn := .thread } : Client).Shows
      ⟨{ r.sys with uip, turn := .thread }, received, lines⟩ where
  app := hshows.app
  messages := hshows.messages
  turn := rfl
  outside hout := by cases hout
  inCall _ := rfl
  stream := hstream
  received := hreceived ▸ List.prefix_rfl
  established _ := hreceived
  synSent hsent := by cases htcp.symm.trans hsent
  closed hclosed := by cases htcp.symm.trans hclosed

theorem given_called {data : List UInt8} (hok : c.Ok) (hout : c.turn = .outside)
    (hx : x.host = ⟨t, some q⟩) (hcalls : Calls 0 t data) : c.net.host.given x.host 0 = data := by
  rw [Host.given, hx, if_pos ⟨hok.outside hout, Option.some_ne_none q, hcalls.conn⟩]
  exact hcalls.newdata

theorem state_called {data : List UInt8} (hcalls : Calls i t data)
    (htcp : t.seen.conn.tcpstate = .established) :
    (t.conns i).state = .established := by
  rw [← hcalls.conn]
  exact established_of_seen htcp

theorem streams_called {data : List UInt8} (hok : c.Ok) (hshows : c.Shows r)
    (hout : c.turn = .outside)
    (hpolled : e.polled) (hnet : NetStep 0 c.net e x) (hx : x.host = ⟨t, some q⟩)
    (hcalls : Calls 0 t data)
    (hstate : r.sys.uip.conn.tcpstate = .established) (htcp : t.seen.conn.tcpstate = .established) :
    r.sys.stream = x.written ∧ r.received ++ data = x.got := by
  have hest : (x.host.stack.conns 0).state = .established := by rw [hx, state_called hcalls htcp]
  have ho : NotOpened (c.stack.conns 0) (x.host.stack.conns 0) :=
    hshows.notOpened hout (.inl (by rw [hest, hstate]; rfl)) (by rw [hest]; decide)
  constructor
  · rw [written_kept hnet ho, writes_polled hpolled, ite_self, List.append_nil]
    exact hshows.stream
  · rw [got_kept hnet ho, given_called hok hout hx hcalls, hshows.established hstate]

theorem matched_call (hG : c.Lets G (.network e)) (hok : c.Ok) (hshows : c.Shows r)
    (hout : c.turn = .outside) (hpolled : e.polled)
    (hnet : NetStep 0 c.net e x) (hx : x.host = ⟨t, some q⟩) (halone : Alone 0 t)
    (hover : Over t.flags = false) (hsight : Sight r.sys.uip 0 (.appcall q t)) :
    Matched G r { c with net := x, uip := t.seen, turn := .thread } := by
  have hturn : r.sys.turn = .outside := hshows.turn.trans hout
  have hshown := hshows.outside hout
  have hcall (s : IrcSystem) : s.call t.seen = { s with uip := t.seen, turn := .thread } :=
    call_eq hover
  cases hsight with
  | synack bytes mss hstate hcalls hseen =>
    have htcp : t.seen.conn.tcpstate = .established := hseen ▸ uipSynack_established bytes mss
    have hready : Ready t.seen := hseen ▸ (uipSynack_called bytes mss).ready
    have hrexmit : t.seen.flags.rexmit = false := by rw [hseen]; cases mss <;> rfl
    have hsent : (c.stack.conns 0).state = .synSent := by
      have hseen := hshown.tcpstate
      rw [hstate] at hseen
      cases hcase : (c.stack.conns 0).state <;> rw [hcase] at hseen <;> first | rfl | cases hseen
    obtain ⟨hwritten, hgot⟩ := streams_opened hnet hsent (by rw [hx, state_called hcalls htcp])
    obtain ⟨hstream, hreceived⟩ := hshows.synSent hstate
    obtain ⟨lines, hread⟩ := readsStep_of_step (e := .synack bytes mss) (Nat.zero_le _)
      (step_synack hturn hstate bytes mss)
    rw [← hseen, hcall] at hread
    refine ⟨_, _, runs_one (hG.network hshows hout (by simp) (by simp) (by simp)) hread,
      hok.called hnet hx halone hcalls hready htcp hover (by rw [hrexmit]; rfl), ?_⟩
    refine hshows.called htcp (hstream.trans hwritten.symm) ?_
    rw [hreceived, hgot]
    rfl
  | segment bytes ack wnd payload hstate hpayload hcalls hseen hnotice =>
    have htcp : t.seen.conn.tcpstate = .established := hseen ▸ hstate
    have hready : Ready t.seen := hseen ▸ (uipSegment_called ack wnd payload).ready
    have hrexmit : t.seen.flags.rexmit = false := by rw [hseen]; rfl
    obtain ⟨hstream, hgot⟩ := streams_called hok hshows hout hpolled hnet hx hcalls hstate htcp
    obtain ⟨lines, hread⟩ :=
      readsStep_of_step (e := .frame bytes) (Nat.zero_le _) (step_frame hturn bytes)
    have hseg := @step_segment { r.sys with uip := uipReceive r.sys.uip bytes } hturn hstate
      ack wnd payload
    have hflags : (t.seen.flags.acked || t.seen.flags.newdata) = true := hnotice
    rw [← hseen, if_pos hflags, hcall] at hseg
    obtain ⟨lines', hread'⟩ := readsStep_of_step
      (r := ⟨{ r.sys with uip := uipReceive r.sys.uip bytes }, r.received ++ [], lines⟩)
        (e := .segment ack wnd payload)
      hpayload hseg
    have hrun :=
      (runs_one (G := G) (hG.network hshows hout (by simp) (by simp) (by simp)) hread).snoc
      ⟨hG.network hshows hout (by simp) (by simp) (by simp), hread'⟩
    refine ⟨_, _, hrun, hok.called hnet hx halone hcalls hready htcp hover (by rw [hrexmit]; rfl),
      hshows.called htcp hstream ?_⟩
    rw [List.append_nil]
    exact hgot
  | timer hstate hcalls hseen hq =>
    have htcp : t.seen.conn.tcpstate = .established := hseen ▸ hstate
    have hready : Ready t.seen := hseen ▸ uipTimer_called.ready
    have hrexmit : t.seen.flags.rexmit = uipOutstanding r.sys.uip := by
      rw [hseen, FxIP.uipTimer]
      cases uipOutstanding r.sys.uip <;> rfl
    obtain ⟨hstream, hgot⟩ := streams_called hok hshows hout hpolled hnet hx hcalls hstate htcp
    obtain ⟨lines, hread⟩ :=
      readsStep_of_step (e := .timer) (Nat.zero_le _) (step_timer hturn hstate)
    rw [← hseen, hcall] at hread
    exact ⟨_, _, runs_one (hG.network hshows hout (by simp) (by simp) (by simp)) hread,
      hok.called hnet hx halone hcalls hready htcp hover (by rw [hrexmit]; exact hq),
        hshows.called htcp hstream hgot⟩
  | closes bytes _ hends _ _ => cases hover.symm.trans hends

-- ---------------------------------------------------------------------------
-- The connection is over
-- ---------------------------------------------------------------------------

theorem ends_resume (hends : Ends u t.cur q) (hi : t.conn = i) :
    AtEnd ((t.after t.seen q).conns i) ∧ (t.after t.seen q).buf.appdata = t.buf.appdata := by
  have hcur : (uipAppReturn t (t.left t.seen)).cur = t.cur := cur_left t t.seen
  have hconn : (uipAppReturn t (t.left t.seen)).conn = i := hi
  have happ : (uipAppReturn t (t.left t.seen)).buf.appdata = t.buf.appdata := appdata_left t t.seen
  have hset {c : UipConn} {w : Stack} (hc : AtEnd c)
    (hs : Sends ((uipAppReturn t (t.left t.seen)).setConn c) w) :
      AtEnd (w.conns i) := by
    rw [hs.conns, ← hconn]
    have hself : ((uipAppReturn t (t.left t.seen)).setConn c).conns
        (uipAppReturn t (t.left t.seen)).conn = c :=
      Stack.cur_setConn
    rwa [hself]
  have hkeep {w : Stack} (hc : AtEnd t.cur) (hs : Sends (uipAppReturn t (t.left t.seen)) w) :
      AtEnd (w.conns i) := by
    have hself : (uipAppReturn t (t.left t.seen)).conns (uipAppReturn t (t.left t.seen)).conn =
      t.cur := hcur
    rw [hs.conns, ← hconn]
    rwa [hself]
  cases q with
  | drop => exact ⟨hkeep hends (sends_drop _), happ⟩
  | timedout =>
    exact ⟨hkeep hends (sends_tcpSendNodata _ _), (appdata_tcpSendNodata _ _).trans happ⟩
  | ack => exact ⟨hkeep hends (sends_tcpSendAck _), (appdata_tcpSendNodata _ _).trans happ⟩
  | reset => exact ⟨hset (atEnd_closed _ rfl) (sends_reset _), (appdata_reset _).trans happ⟩
  | finack =>
    refine ⟨hset ⟨rfl, ?_, rfl⟩ (sends_tcpSendFinack _), (appdata_tcpSendNodata _ _).trans happ⟩
    simp [UipConn.state]
  | appsend => exact hends.elim
  | apprexmit => exact hends.elim

theorem ends_state {c : UipConn} (hends : Ends u c q) :
    (c.state.seen = u.conn.tcpstate ∨ c.state.seen = .closed) ∧ c.state ≠ .synRcvd := by
  cases q with
  | drop | timedout | ack => exact ⟨.inr hends.tcpstate, hends.synRcvd⟩
  | reset | finack => exact ⟨.inl hends.1, hends.2.1⟩
  | appsend | apprexmit => exact hends.elim

theorem streams_closed (hshows : c.Shows r) (hout : c.turn = .outside) (hpolled : e.polled)
    (hnet : NetStep 0 c.net e x) (hx : x.host = ⟨t, some q⟩) (hconn : t.conn = 0)
    (hends : Ends r.sys.uip t.cur q)
    {e' : Event} (hend : NetStep 0 x e' y) (hy : AtEnd (y.host.stack.conns 0)) :
    y.written = c.net.written ∧ c.net.got <+: y.got := by
  have hcur : x.host.stack.conns 0 = t.cur := by rw [hx, ← hconn]; rfl
  obtain ⟨hstate, hsyn⟩ := ends_state hends
  have ho : NotOpened (c.stack.conns 0) (x.host.stack.conns 0) := by
    rw [hcur]
    exact hshows.notOpened hout hstate hsyn
  have hest : (y.host.stack.conns 0).state ≠ .established := fun hest => by
    have hclosed := hy.tcpstate
    rw [hest] at hclosed
    cases hclosed
  have ho' : NotOpened (x.host.stack.conns 0) (y.host.stack.conns 0) :=
    ⟨fun h => absurd h hest, hy.synRcvd⟩
  constructor
  · rw [written_kept hend ho', if_neg hest, List.append_nil, written_kept hnet ho,
      writes_polled hpolled, ite_self, List.append_nil]
  · rw [got_kept hend ho', got_kept hnet ho, List.append_assoc]
    exact List.prefix_append ..

theorem Client.Shows.ended {uip : Uip} {lines : List TakenLine} (hshows : c.Shows r)
    (hout : c.turn = .outside)
    (hend : AtEnd (y.host.stack.conns 0)) (htcp : uip.conn.tcpstate = .closed)
    (happ : uip.appdata = y.host.stack.buf.appdata) (hwritten : y.written = c.net.written)
    (hgot : c.net.got <+: y.got) :
    ({ c with
        net := y
        appstate := Function.update c.appstate 0 { c.appstate 0 with connected := false } } :
      Client).Shows
      ⟨{ r.sys with uip, app := { r.sys.app with connected := false } }, r.received, lines⟩ where
  app := by
    show ({ r.sys.app with connected := false } : IrcState) =
      Function.update c.appstate 0 { c.appstate 0 with connected := false } 0
    rw [Function.update_self, hshows.app]
  messages := hshows.messages
  turn := hshows.turn
  outside _ :=
    ⟨htcp.trans hend.tcpstate.symm, fun hne => absurd htcp hne, happ, hend.synRcvd, hend.stopped⟩
  inCall hne := absurd hout hne
  stream := hshows.stream.trans hwritten.symm
  received := hshows.received.trans hgot
  established hest := by cases htcp.symm.trans hest
  synSent hsent := by cases htcp.symm.trans hsent
  closed _ := by
    show (Function.update c.appstate 0 { c.appstate 0 with connected := false } 0).connected = false
    rw [Function.update_self]

theorem Sight.told (hsight : Sight u i (.appcall q t)) (hover : Over t.flags = true) :
    ∃ bytes, t.conn = i ∧ Ends u t.cur q ∧ t.buf.appdata = u.appdata.write bytes := by
  have hnot {P : Prop} {uip : Uip} (hseen : t.seen = uip) (hno : Over uip.flags = false) : P := by
    subst hseen
    cases hno.symm.trans hover
  cases hsight with
  | synack bytes mss _ _ hseen => exact hnot hseen (by cases mss <;> rfl)
  | segment bytes ack wnd payload _ _ _ hseen _ => exact hnot hseen rfl
  | timer _ _ hseen _ =>
    refine hnot hseen ?_
    rw [FxIP.uipTimer]
    cases uipOutstanding u <;> rfl
  | closes bytes hconn _ hends happ => exact ⟨bytes, hconn, hends, happ⟩

theorem matched_close (hG : c.Lets G (.network e)) (hok : c.Ok) (hshows : c.Shows r)
    (hout : c.turn = .outside) (hpolled : e.polled)
    (hnet : NetStep 0 c.net e x) (hx : x.host = ⟨t, some q⟩) (halone : Alone 0 t)
    (hover : Over t.flags = true) (hend : NetStep 0 x (.appReturn (t.left t.seen)) y)
    (hsight : Sight r.sys.uip 0 (.appcall q t)) :
    Matched G r { ({ c with net := x }.setApp
      { ({ c with net := x } : Client).app with connected := false }) with
      net := y } := by
  have hturn : r.sys.turn = .outside := hshows.turn.trans hout
  obtain ⟨bytes, hconn, hends, happ⟩ := hsight.told hover
  have hlast := hend.1.1
  change HostStep x.host _ y.host at hlast
  rw [hx] at hlast
  have hy : y.host = ⟨t.after t.seen q, none⟩ := by
    generalize y.host = h' at hlast
    cases hlast
    rfl
  have hc : ({ c with net := x } : Client).stack.conn = 0 := by
    show x.host.stack.conn = 0
    rw [hx, hconn]
  obtain ⟨hatEnd, hkept⟩ := ends_resume hends hconn
  have hatEnd' : AtEnd (y.host.stack.conns 0) := by rwa [hy]
  obtain ⟨hwritten, hgot⟩ := streams_closed hshows hout hpolled hnet hx hconn hends hend hatEnd'
  rw [Client.setApp, Client.app, hc]
  have hok' : ({ c with
      net := y
      appstate := Function.update c.appstate 0 { c.appstate 0 with connected := false } } :
          Client).Ok := by
    refine ⟨ok_change (change_step hend.1.1) (ok_change (change_step hnet.1.1) hok.host), ?_,
      fun _ => ?_, fun hne => absurd hout hne⟩
    · show Alone 0 y.host.stack
      rw [hy]
      exact halone.returned hconn _ q
    · show y.host.calling = none
      rw [hy]
  have hdata : r.sys.uip.appdata.write bytes = y.host.stack.buf.appdata := by
    rw [hy, ← happ]
    exact hkept.symm
  obtain ⟨lines, hread⟩ :=
    readsStep_of_step (e := .frame bytes) (Nat.zero_le _) (step_frame hturn bytes)
  rw [show (IrcEvent.frame bytes).payload = [] from rfl, List.append_nil] at hread
  have hrun := runs_one (G := G) (hG.network hshows hout (by simp) (by simp) (by simp)) hread
  by_cases hclosed : r.sys.uip.conn.tcpstate = .closed
  · have happ : r.sys.app = { r.sys.app with connected := false } := by
      have hfalse := hshows.closed hclosed
      rw [← hshows.app] at hfalse
      rw [← hfalse]
    rw [happ] at hrun
    exact ⟨_, _, hrun, hok', hshows.ended hout hatEnd' hclosed hdata hwritten hgot⟩
  · have hclose := @step_close { r.sys with uip := uipReceive r.sys.uip bytes } hturn hclosed
    obtain ⟨lines', hread'⟩ := readsStep_of_step
      (r := ⟨{ r.sys with uip := uipReceive r.sys.uip bytes }, r.received, lines⟩)
        (Nat.zero_le _) hclose
    rw [show (IrcEvent.close .closed).payload = [] from rfl, List.append_nil] at hread'
    exact ⟨_, _, hrun.snoc ⟨hG.network hshows hout (by simp) (by simp) (by simp), hread'⟩, hok',
      hshows.ended hout hatEnd' rfl hdata hwritten hgot⟩

-- ---------------------------------------------------------------------------
-- The client goes on
-- ---------------------------------------------------------------------------

theorem Client.Ok.conn (hok : c.Ok) (hin : c.turn ≠ .outside) : c.stack.conn = 0 :=
  (hok.inCall hin).conn

theorem matched_thread {go : Bool} {messages : Messages} {app : IrcState} {uip : Uip}
    (hG : G r.sys .thread) (hok : c.Ok) (hshows : c.Shows r) (hturn : c.turn = .thread)
    (hr : (ircThread c.messages c.app c.uip).Returns (some (go, messages, app, uip))) :
    Matched G r { c.setApp app with messages, uip, turn := if go then .thread
      else .sendThread } := by
  have hin : c.turn ≠ .outside := by rw [hturn]; decide
  have hafter : (if go then Turn.thread else Turn.sendThread) ≠ .outside := by cases go <;> decide
  have hincall := hok.inCall hin
  have hfits := ircThread_fits hr
  have htcp : uip.conn.tcpstate = .established := by rw [hfits.conn, hincall.tcpstate]
  have hold : r.sys.uip.conn.tcpstate = .established := by rw [hshows.inCall hin, hincall.tcpstate]
  rw [Client.app, hok.conn hin, ← hshows.app, ← hshows.messages, ← hshows.inCall hin] at hr
  obtain ⟨lines, hread⟩ :=
    readsStep_of_step (e := .thread) (Nat.zero_le _) (step_thread (hshows.turn.trans hturn) hr)
  rw [show IrcEvent.thread.payload = [] from rfl, List.append_nil] at hread
  refine ⟨_, _, runs_one hG hread, ⟨hok.host, hok.alone, fun h => absurd h hafter, fun _ => ?_⟩, ?_⟩
  · exact hincall.fits hfits (hok.host.bounded c.stack.conn).mss
  · rw [Client.setApp, hok.conn hin]
    exact {
      app := (Function.update_self 0 app c.appstate).symm
      messages := rfl
      turn := rfl
      outside := fun h => absurd h hafter
      inCall := fun _ => rfl
      stream := hshows.stream
      received := hshows.received
      established := fun _ => hshows.established hold
      synSent := fun h => by cases htcp.symm.trans h
      closed := fun h => by cases htcp.symm.trans h }

theorem matched_output {messages : Messages} {app : IrcState} {uip : Uip} (hG : G r.sys .sendThread)
    (hok : c.Ok) (hshows : c.Shows r) (hturn : c.turn = .sendThread) (hfits : StoresFit c.uip uip)
    (hstep : IrcStep r.sys .sendThread (r.sys.output messages app uip))
    (hnet : NetStep 0 c.net (.appReturn (c.stack.left uip)) x) :
    Matched G r { c.setApp app with net := x, messages, turn := .outside } := by
  have hin : c.turn ≠ .outside := by rw [hturn]; decide
  have hmss := (hok.host.bounded c.stack.conn).mss
  have hincall := (hok.inCall hin).fits hfits hmss
  have hconn : c.stack.conn = 0 := hok.conn hin
  obtain ⟨q, hq⟩ := Option.ne_none_iff_exists'.mp (fun h => by cases hincall.calling.symm.trans h)
  have hlast := hnet.1.1
  change HostStep c.net.host _ x.host at hlast
  have hx : x.host = ⟨c.stack.after uip q, none⟩ := by
    have hhost : c.net.host = ⟨c.stack, some q⟩ := by rw [← hq]; rfl
    rw [hhost] at hlast
    generalize x.host = h' at hlast
    cases hlast
    rfl
  obtain ⟨hshown, hest⟩ := hincall.shown hq
  have hstack : x.host.stack = c.stack.after uip q := by rw [hx]
  rw [Client.stack] at hstack
  rw [← hstack] at hshown hest
  have hold : (c.net.host.stack.conns 0).state = .established := by
    rw [← hincall.conn]
    exact hincall.established
  have ho : NotOpened (c.net.host.stack.conns 0) (x.host.stack.conns 0) :=
    ⟨fun _ => hold, by rw [hest]; decide⟩
  have hwritten := written_kept hnet ho
  have hgot := got_kept hnet ho
  rw [if_pos hest] at hwritten
  rw [given_of_done (by rw [hx]), List.append_nil] at hgot
  have hstream := hincall.writes hq hmss r.sys messages app
  rw [hshows.stream] at hstream
  obtain ⟨lines, hread⟩ := readsStep_of_step (Nat.zero_le _) hstep
  rw [show IrcEvent.sendThread.payload = [] from rfl, List.append_nil] at hread
  have hreceived : r.received = c.net.got := by
    apply hshows.established
    rw [hshows.inCall hin, (hok.inCall hin).tcpstate]
  have htcp : (uipOutput uip).2.conn.tcpstate = .established := by rw [hshown.tcpstate, hest]; rfl
  refine ⟨_, _, runs_one hG hread, ⟨ok_change (change_step hnet.1.1) hok.host, ?_,
    fun _ => by rw [hx], fun h => absurd rfl h⟩, ?_⟩
  · show Alone 0 x.host.stack
    rw [hstack]
    exact hok.alone.returned hconn _ q
  · rw [Client.setApp, hconn]
    exact {
      app := (Function.update_self 0 app c.appstate).symm
      messages := rfl
      turn := rfl
      outside := fun _ => hshown
      inCall := fun h => absurd rfl h
      stream := hstream.trans hwritten.symm
      received := by rw [hgot]; exact hshows.received
      established := fun _ => hreceived.trans hgot.symm
      synSent := fun h => by cases htcp.symm.trans h
      closed := fun h => by cases htcp.symm.trans h }

theorem matched_submit {text : List UInt8} (hG : G r.sys (.submit text)) (hok : c.Ok)
    (hshows : c.Shows r) (hturn : c.turn = .outside) (htext : IsInput text) :
    Matched G r { c with messages := uiPageIrcMessageSubmit c.messages text } := by
  have hstep := step_submit (hshows.turn.trans hturn) htext
  rw [hshows.messages] at hstep
  obtain ⟨lines, hread⟩ := readsStep_of_step (e := .submit text) (Nat.zero_le _) hstep
  rw [show (IrcEvent.submit text).payload = [] from rfl, List.append_nil] at hread
  exact ⟨_, _, runs_one hG hread, ⟨hok.host, hok.alone, hok.outside, hok.inCall⟩,
    ⟨hshows.app, rfl, hshows.turn, hshows.outside, hshows.inCall, hshows.stream, hshows.received,
      hshows.established, hshows.synSent, hshows.closed⟩⟩

-- ---------------------------------------------------------------------------
-- Every run
-- ---------------------------------------------------------------------------

/-- Between the calls, what the network does is an event of the client's model. -/
theorem Client.Shows.sight (hshows : c.Shows r) (hok : c.Ok) (hregular : Regular c (.network e))
    (hturn : c.turn = .outside) (hpolled : e.polled) (hnet : NetStep 0 c.net e x) :
    ∃ n, x.host = n.host ∧ Sight r.sys.uip 0 n ∧ Alone 0 n.stack := by
  have hhost : c.net.host = ⟨c.stack, none⟩ := by rw [← hok.outside hturn]; rfl
  have hstep := hnet.1.1
  change HostStep c.net.host e x.host at hstep
  rw [hhost] at hstep
  exact sight_polled (hshows.outside hturn) hok.alone hpolled
    (fun frame he => by subst he; exact hregular) hstep

theorem matched_step {e : ClientEvent} (hok : c.Ok) (hshows : c.Shows r) (hfollows : Follows G c e)
    (hstep : ClientStep c e c') : Matched G r c' := by
  obtain ⟨hregular, hG⟩ := hfollows
  cases hstep with
  | submit hturn htext =>
    exact matched_submit (hG _ _ rfl hshows.app hshows.messages fun h => absurd hturn h) hok
      hshows hturn htext
  | quiet hturn hpolled hnet hidle =>
    obtain ⟨n, hx, hsight, halone⟩ := hshows.sight hok hregular hturn hpolled hnet
    cases n with
    | done t => exact matched_quiet hG hok hshows hturn hpolled hnet hx halone hsight
    | appcall q t => exact absurd (by rw [← hidle, hx]; rfl) (Option.some_ne_none q)
  | calls hturn hpolled hnet hcalling hover =>
    obtain ⟨n, hx, hsight, halone⟩ := hshows.sight hok hregular hturn hpolled hnet
    cases n with
    | done t => exact absurd (by rw [hx]; rfl) hcalling
    | appcall q t =>
      have hstack : _ = t := congrArg Host.stack hx
      rw [hstack] at hover ⊢
      exact matched_call hG hok hshows hturn hpolled hnet hx halone hover hsight
  | closes hturn hpolled hnet hcalling hover hend =>
    obtain ⟨n, hx, hsight, halone⟩ := hshows.sight hok hregular hturn hpolled hnet
    cases n with
    | done t => exact absurd (by rw [hx]; rfl) hcalling
    | appcall q t =>
      have hstack : _ = t := congrArg Host.stack hx
      rw [hstack] at hover hend
      exact matched_close hG hok hshows hturn hpolled hnet hx halone hover hend hsight
  | thread hturn hr =>
    exact matched_thread (hG _ _ rfl hshows.app hshows.messages hshows.inCall) hok hshows hturn hr
  | skips hturn hlen hnet =>
    have hin : c.turn ≠ .outside := by rw [hturn]; decide
    have hskip := step_skip (hshows.turn.trans hturn) (by rw [hshows.messages]; exact hlen)
    have hmatched := matched_output (hG _ _ rfl hshows.app hshows.messages hshows.inCall) hok hshows
      hturn (.refl c.uip)
      (by rw [← hshows.inCall hin]; exact hskip) hnet
    rw [hshows.messages, hshows.app, ← hok.conn hin, Client.setApp, Function.update_eq_self]
      at hmatched
    exact hmatched
  | sends hturn hlen hr hnet =>
    have hin : c.turn ≠ .outside := by rw [hturn]; decide
    have hfits := ircSendThread_fits hr
    rw [Client.app, hok.conn hin, ← hshows.app, ← hshows.messages, ← hshows.inCall hin] at hr
    rw [← hshows.messages] at hlen
    exact matched_output (hG _ _ rfl hshows.app hshows.messages hshows.inCall) hok
      hshows hturn hfits
      (step_sendThread (hshows.turn.trans hturn) hlen hr) hnet

theorem connectFrom_first {s : Stack} {ripaddr : Ipaddr} {lport rport : UInt16}
    (hclosed : (s.conns 0).tcpstateflags = .closed) : uipConnectFrom s ripaddr lport rport =
      (some 0, { s with
        lastport := lport
        conns := Function.update s.conns 0 ((s.conns 0).connect s.iss ripaddr lport rport) }) := by
  have hfirst : List.finRange UIP_CONNS = 0 :: (List.finRange 9).map Fin.succ := List.finRange_succ
  have hunused : ({ s with lastport := lport } : Stack).unused = some 0 := by
    rw [Stack.unused, hfirst, findUnused, if_pos hclosed]
  simp only [uipConnectFrom, hunused]

theorem connect_first {s : Stack} {rport : UInt16} {ripaddr : Ipaddr} {h' : Host}
    (hclosed : (s.conns 0).tcpstateflags = .closed)
    (h : HostStep ⟨s, none⟩ (.connect ripaddr rport) h') :
    ∃ lport, h' = ⟨{ s with
      lastport := lport
      conns := Function.update s.conns 0 ((s.conns 0).connect s.iss ripaddr lport rport) },
          none⟩ := by
  cases h with
  | connect hr =>
    obtain ⟨lport, -, hr⟩ := Comp.returns_bind.mp hr
    obtain rfl := Comp.returns_pure.mp hr
    exact ⟨lport, by rw [connectFrom_first hclosed]⟩

theorem starts_shows {appstate : Fin UIP_CONNS → IrcState} {messages : Messages}
    (h0 : Starts appstate messages c) :
    c.Ok ∧ c.Shows ⟨ircConnect (appstate 0) messages c.stack.buf.appdata, [], []⟩ := by
  cases h0 with
  | @init behind iss lastport first start x _ _ hnet =>
    have hok := ok_networkInit behind iss lastport
    have hclosed (j : Fin UIP_CONNS) : ((networkInit behind iss lastport).stack.conns
      j).tcpstateflags = .closed := rfl
    have hports (k : Fin UIP_LISTENPORTS) : (networkInit behind iss lastport).stack.listenports k =
      0 := rfl
    have hnone : (networkInit behind iss lastport).calling = none := rfl
    generalize networkInit behind iss lastport = h at hok hclosed hports hnone hnet
    obtain ⟨s, calling⟩ := h
    obtain rfl : calling = none := hnone
    obtain ⟨lport, hx⟩ := connect_first (hclosed 0) hnet.1.1
    change x.host = _ at hx
    have hconns : x.host.stack.conns = Function.update s.conns 0
        ((s.conns 0).connect s.iss SERVER lport IRC_PORT) := by
      rw [hx]
    have hconn : x.host.stack.conns 0 = (s.conns 0).connect s.iss SERVER lport IRC_PORT := by
      rw [hconns, Function.update_self]
    have hstate : (x.host.stack.conns 0).state = .synSent := by
      rw [hconn]
      rfl
    have ho : NotOpened (s.conns 0) (x.host.stack.conns 0) :=
      ⟨fun h => (by cases hstate.symm.trans h), by rw [hstate]; decide⟩
    have hwritten := written_kept hnet ho
    rw [if_neg fun h => by cases hstate.symm.trans h] at hwritten
    have hgot := got_kept hnet ho
    rw [given_of_done (by rw [hx])] at hgot
    constructor
    · refine ⟨ok_change (change_step hnet.1.1) hok, ⟨fun j hj => ?_, fun k => ?_⟩, fun _ => ?_,
        fun h => absurd rfl h⟩
      · show (x.host.stack.conns j).tcpstateflags = .closed
        rw [hconns, Function.update_of_ne hj, hclosed]
      · show x.host.stack.listenports k = 0
        rw [hx]
        exact hports k
      · show x.host.calling = none
        rw [hx]
    · refine {
        app := (Function.update_self (0 : Fin UIP_CONNS) _ appstate).symm
        messages := rfl
        turn := rfl
        outside := fun _ => ⟨?_, fun _ => ?_, rfl, ?_, ?_⟩
        inCall := fun h => absurd rfl h
        stream := hwritten.symm
        received := List.nil_prefix
        established := fun h => by cases h
        synSent := fun _ => ⟨rfl, rfl⟩
        closed := fun h => by cases h }
      · show FxIP.TcpState.synSent = (x.host.stack.conns 0).state.seen
        rw [hstate]
        rfl
      · show (FxIP.uipConnect x.host.stack.buf.appdata).conn = (x.host.stack.conns 0).seen
        rw [hconn]
        rfl
      · show (x.host.stack.conns 0).state ≠ .synRcvd
        rw [hstate]
        decide
      · show (x.host.stack.conns 0).tcpstateflags.stopped = false
        rw [hconn]
        rfl

theorem matched_run {es : List ClientEvent} (hok : c.Ok) (hshows : c.Shows r)
    (h : Run (Run.Guarded (Follows G) ClientStep) c es c') : Matched G r c' := by
  refine Run.simulates (R := fun (c : Client) r => c.Ok ∧ c.Shows r) ?_ ⟨hok, hshows⟩ h
  exact fun _ _ _ _ hrel hstep => matched_step hrel.1 hrel.2 hstep.1 hstep.2

/-- Every run of the client on the stack, with any frames, time-outs, messages and
turns, is a run of the client's own model of the connection. What the client
writes and what it is given are the streams of the model. -/
theorem client_refines {appstate : Fin UIP_CONNS → IrcState} {messages : Messages} {c₀ : Client}
    {es : List ClientEvent}
    (h0 : Starts appstate messages c₀) (h : Run (Run.Guarded (Follows G) ClientStep) c₀ es c) :
    ∃ fs r, Run (Run.Guarded (fun r e => G r.sys e) ReadsStep)
      ⟨ircConnect (appstate 0) messages c₀.stack.buf.appdata, [], []⟩ fs r ∧ c.Shows r := by
  obtain ⟨hok, hshows⟩ := starts_shows h0
  obtain ⟨fs, r, hrun, -, hshows'⟩ := matched_run hok hshows h
  exact ⟨fs, r, hrun, hshows'⟩

theorem regular_run {n : Nat} {es : List ClientEvent}
    (h : es.foldlM (fun c e => if Regular c e then c.stepRun n e else none) c = some c') :
    Run (Run.Guarded (Follows fun _ _ => True) ClientStep) c es c' := by
  have hrun : Run (Run.Guarded Regular ClientStep) c es c' :=
    Run.guarded_of_foldlM (fun _ _ _ hstep => clientStep_of_stepRun hstep) h
  exact hrun.mono fun _ _ _ hstep => ⟨⟨hstep.1, fun _ _ _ _ _ _ => trivial⟩, hstep.2⟩

theorem client_refines_login : ∃ c₀ c fs r, Starts (fun _ => .zero) .zero c₀ ∧
    Run ClientStep c₀ loggingIn c ∧
    c.net.written = nickLine ∧ Run ReadsStep ⟨ircConnect .zero .zero c₀.stack.buf.appdata, [], []⟩
      fs r ∧
    c.Shows r := by
  have hrun : ((Client.startRun 3 ⟨1, 2, 3, 255⟩ 31998).bind fun c₀ =>
      (loggingIn.foldlM (fun c e => if Regular c e then c.stepRun 40 e else none) c₀).map
        (·.net.written)) =
      some nickLine := by decide +kernel
  obtain ⟨c₀, hstart, hrun⟩ := Option.bind_eq_some_iff.mp hrun
  obtain ⟨c, hc, hwritten⟩ := Option.map_eq_some_iff.mp hrun
  have h0 := starts_of_startRun (by decide) hstart
  have hfollows := regular_run hc
  obtain ⟨fs, r, hreads, hshows⟩ := client_refines h0 hfollows
  exact ⟨c₀, c, fs, r, h0, Run.of_guarded hfollows, hwritten, Run.of_guarded hreads, hshows⟩

end

end FxIP.Tcpip
