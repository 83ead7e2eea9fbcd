import FxIP.Slipdev.Whole
import FxIP.Tcpip.Client
import FxIP.Tcpip.Emitted

/-!
# network_poll

The stack between the two directions of the serial line. `network_poll` has the
frames of `slipdev_poll` for `uip_process`, or the timers of all connections, and
`slipdev_send` sends what that leaves.
-/

namespace FxIP.Tcpip

open Circular

-- ---------------------------------------------------------------------------
-- The program
-- ---------------------------------------------------------------------------

/-- Where `network_poll` is: outside, behind `uip_input`, before `uip_periodic` for a
connection, or behind it. -/
inductive PollPlace
  | out
  | input
  | timer (i : Fin UIP_CONNS)
  | periodic (i : Fin UIP_CONNS)
  deriving Repr, DecidableEq

/-- `line.packets` has the frames that `uip_process` was called for, and `sent` the
bytes put on the line. -/
structure Network where
  host : Host
  line : Line
  sent : List UInt8
  place : PollPlace

inductive NetworkEvent
  | arrive (bytes : List UInt8)
  | poll (expired : Bool)
  | periodic
  | send
  | memory (behind : Nat → UInt8)
  | appReturn (r : AppReturn)

namespace Network

/-- The device copies frames to `uip_buf`. -/
def device (n : Network) : Line :=
  { n.line with dev := { n.line.dev with uipBuf := n.host.stack.buf.bytes } }

/-- `slipdev_poll` stores nothing outside its buffers. -/
def Inside (n : Network) : Prop :=
  ∀ access ∈ slipdevPollAccesses n.device.dev n.device.readable, access.Inside

instance (n : Network) : Decidable n.Inside :=
  inferInstanceAs (Decidable (∀ access ∈ _, SlipAccess.Inside access))

def polled (n : Network) : Nat × Slipdev × List UInt8 := slipdevPoll n.device.dev n.device.readable

def frame (n : Network) : List UInt8 := n.polled.2.1.uipBuf.take n.polled.1

/-- `if(uip_len > 0) slipdev_send()`. -/
def send (n : Network) (place : PollPlace) : Network :=
  let s := n.host.stack
  { n with
    sent := if s.len > 0 then n.sent ++ slipdevSend s.buf.bytes s.len.toNat else n.sent
    place }

end Network

/-- The next round of the loop over the connections. -/
def PollPlace.after (i : Fin UIP_CONNS) : PollPlace :=
  if h : i.val + 1 < UIP_CONNS then .timer ⟨i.val + 1, h⟩ else .out

/-- There is no step for a poll that stores outside the buffers. -/
inductive NetworkStep (n : Network) : NetworkEvent → Network → Prop
  | arrive {bytes} : NetworkStep n (.arrive bytes) { n with line := n.line.step (.arrive bytes) }
  | input {expired m} : n.place = .out → n.Inside → n.polled.1 > 0 →
      (uipInput (n.host.stack.receive n.frame)).Returns m →
      NetworkStep n (.poll expired)
        { n with host := m.host, line := n.device.step .poll, place := .input }
  -- Only complete frames are copied, so that `uip_buf` is as it was.
  | nothing {expired} : n.place = .out → n.Inside → n.polled.1 = 0 →
      NetworkStep n (.poll expired) { n with
        host := { n.host with stack := { n.host.stack with len := 0 } }
        line := n.device.step .poll
        place := if expired then .timer 0 else .out }
  | periodic {i} : n.place = .timer i →
      NetworkStep n .periodic
        { n with host := (uipTimer { n.host.stack with conn := i }).host, place := .periodic i }
  | sendInput : n.place = .input → n.host.calling = none → NetworkStep n .send (n.send .out)
  | sendPeriodic {i} : n.place = .periodic i → n.host.calling = none →
      NetworkStep n .send (n.send (.after i))
  | memory {behind} : NetworkStep n (.memory behind)
      { n with host := { n.host with stack := { n.host.stack with behind } } }
  | appReturn {r resume} : n.host.calling = some resume →
      NetworkStep n (.appReturn r)
        { n with host := ⟨uipResume (uipAppReturn n.host.stack r) resume, none⟩ }

/-- After `network_init`. -/
inductive NetworkStarts : Network → Prop
  | init {behind iss lastport r} {dev : Slipdev} : 1024 < lastport → lastport < 32000 →
      dev.slipBuf.length = UIP_BUFSIZE →
      (uipConnect (networkInit behind iss lastport).stack SERVER IRC_PORT).Returns r →
      NetworkStarts
        { host := ⟨r.2, none⟩, line := ⟨slipdevInit dev, [], []⟩, sent := [], place := .out }

/-- The steps as a function, with `k` for the fuel of the loops. -/
def Network.stepRun (k : Nat) (n : Network) : NetworkEvent → Option Network
  | .arrive bytes => some { n with line := n.line.step (.arrive bytes) }
  | .poll expired =>
    if n.place = .out ∧ n.Inside then
      if n.polled.1 > 0 then
        ((uipInput (n.host.stack.receive n.frame)).run k).map fun m =>
          { n with host := m.host, line := n.device.step .poll, place := .input }
      else
        some { n with
          host := { n.host with stack := { n.host.stack with len := 0 } }
          line := n.device.step .poll
          place := if expired then .timer 0 else .out }
    else none
  | .periodic =>
    match n.place with
    | .timer i => some
        { n with host := (uipTimer { n.host.stack with conn := i }).host, place := .periodic i }
    | _ => none
  | .send =>
    if n.host.calling = none then
      match n.place with
      | .input => some (n.send .out)
      | .periodic i => some (n.send (.after i))
      | _ => none
    else none
  | .memory behind => some { n with host := { n.host with stack := { n.host.stack with behind } } }
  | .appReturn r =>
    n.host.calling.map fun resume =>
      { n with host := ⟨uipResume (uipAppReturn n.host.stack r) resume, none⟩ }

theorem networkStep_of_stepRun {k : Nat} {n n' : Network} {e : NetworkEvent}
    (hrun : n.stepRun k e = some n') :
    NetworkStep n e n' := by
  cases e with
  | arrive bytes =>
    obtain rfl := Option.some.inj hrun
    exact .arrive
  | poll expired =>
    rw [Network.stepRun] at hrun
    split at hrun
    · rename_i hplace
      split at hrun
      · rename_i hpos
        obtain ⟨m, hm, rfl⟩ := Option.map_eq_some_iff.mp hrun
        exact .input hplace.1 hplace.2 hpos ⟨k, hm⟩
      · rename_i hzero
        obtain rfl := Option.some.inj hrun
        exact .nothing hplace.1 hplace.2 (Nat.eq_zero_of_not_pos hzero)
    · cases hrun
  | periodic =>
    rw [Network.stepRun] at hrun
    split at hrun
    · rename_i i hplace
      obtain rfl := Option.some.inj hrun
      exact .periodic hplace
    · cases hrun
  | send =>
    rw [Network.stepRun] at hrun
    split at hrun
    · rename_i hcalling
      split at hrun
      · rename_i hplace
        obtain rfl := Option.some.inj hrun
        exact .sendInput hplace hcalling
      · rename_i i hplace
        obtain rfl := Option.some.inj hrun
        exact .sendPeriodic hplace hcalling
      · cases hrun
    · cases hrun
  | memory behind =>
    obtain rfl := Option.some.inj hrun
    exact .memory
  | appReturn r =>
    obtain ⟨resume, hc, rfl⟩ := Option.map_eq_some_iff.mp hrun
    exact .appReturn hc

theorem networkRun_of_stepRun {k : Nat} {n n' : Network} {es : List NetworkEvent}
    (h : es.foldlM (Network.stepRun k) n = some n') : Run NetworkStep n es n' :=
  (Run.of_foldlM h).mono fun _ _ _ hstep => networkStep_of_stepRun hstep

/-- After `network_init` with nothing received yet. -/
def Network.startRun (k : Nat) (iss : Seqno) (lastport : UInt16) : Option Network :=
  ((uipConnect (networkInit (fun _ => 0) iss lastport).stack SERVER IRC_PORT).run k).map fun r =>
    { host := ⟨r.2, none⟩
      line := ⟨slipdevInit ⟨List.replicate UIP_BUFSIZE 0, 0, 0, []⟩, [], []⟩
      sent := []
      place := .out }

theorem networkStarts_of_startRun {k : Nat} {iss : Seqno} {lastport : UInt16} {n : Network}
    (hports : 1024 < lastport ∧ lastport < 32000) (h : Network.startRun k iss lastport = some n) :
    NetworkStarts n := by
  obtain ⟨r, hr, rfl⟩ := Option.map_eq_some_iff.mp h
  exact .init hports.1 hports.2 List.length_replicate ⟨k, hr⟩

/-- A round of the timers, with what they leave sent. -/
def NetworkEvent.timers : List NetworkEvent :=
  .poll true :: (List.replicate UIP_CONNS [NetworkEvent.periodic, .send]).flatten

/-- The SYN is sent by the second round, and the SYNACK answered that arrives then. -/
def handshaking : List NetworkEvent :=
  NetworkEvent.timers ++ NetworkEvent.timers ++
    [.arrive (Slip.frame openingSynack), .poll false, .poll false,
      .appReturn { AppReturn.nothing with flags := { newdata := true, connected := true } }, .send]

def NetworkEvent.arrived : NetworkEvent → List UInt8
  | .arrive bytes => bytes
  | _ => []

def Event.frame : Event → List (List UInt8)
  | .receive frame => [frame]
  | _ => []

/-- The answer to an echo request, which is as short as the request. -/
structure EchoAnswer (p : List UInt8) : Prop where
  protocol : 9 < p.length → p.getD 9 0 = UIP_PROTO_ICMP
  type : 20 < p.length → p.getD 20 0 = ICMP_ECHO_REPLY
  valid : 20 ≤ p.length → Ipv4.Valid p

def Sendable (p : List UInt8) : Prop := p.length ≤ BUFSIZE ∧ (Ipv4.ValidTcp p ∨ EchoAnswer p)

-- ---------------------------------------------------------------------------
-- The line
-- ---------------------------------------------------------------------------

section
variable {n n' : Network} {r : Slip.Receiving} {line : Line} {stream buf : List UInt8} {h : Host}
    {e : NetworkEvent}

theorem lineOk_device (hline : LineOk r line stream) (hbuf : UIP_BUFSIZE ≤ buf.length) :
    LineOk r { line with dev := { line.dev with uipBuf := buf } } stream := by
  obtain ⟨read, hread, htracks, hpackets⟩ := hline
  have hok : Slipdev.Ok { line.dev with uipBuf := buf } := ⟨htracks.slipBuf, hbuf, htracks.len⟩
  exact ⟨read, hread, ⟨hok, htracks.lastc, htracks.count, htracks.data⟩, hpackets⟩

theorem bufsize_le (n : Network) : UIP_BUFSIZE ≤ n.host.stack.buf.bytes.length := by
  rw [length_bytes]
  decide

theorem lineOk_next (hline : LineOk r n.line stream) (n' : Network) (hn : n'.line = n.line) :
    LineOk r n'.device stream := by
  rw [Network.device, hn]
  exact lineOk_device hline (bufsize_le n')

theorem lineOk_host (hline : LineOk r n.device stream) (n' : Network) (hn : n'.line = n.line) :
    LineOk r n'.device stream := by
  have hover := lineOk_device hline (bufsize_le n')
  rw [Network.device, hn]
  exact hover

/-- After `arrived`, of which no frame that was read is longer than the buffer. -/
structure LineShort (line : Line) (arrived : List UInt8) : Prop where
  ok : LineOk .start line arrived
  short : ∀ read, arrived = read ++ line.readable → Slip.Receiving.start.Within UIP_BUFSIZE read

theorem LineShort.arrive (h : LineShort line stream) (bytes : List UInt8) :
    LineShort (line.step (.arrive bytes)) (stream ++ bytes) where
  ok := h.ok.arrive bytes
  short read hread := by
    have hbefore : stream ++ bytes = (read ++ line.readable) ++ bytes := by
      rw [hread, List.append_assoc]
      rfl
    exact h.short read (List.append_cancel_right hbefore)

theorem LineShort.poll (h : LineShort line stream)
    (hinside : ∀ access ∈ slipdevPollAccesses line.dev line.readable, access.Inside) :
    LineShort (line.step .poll) stream where
  ok := h.ok.poll.1
  short read hread := by
    obtain ⟨read₀, hread₀, htracks, -⟩ := h.ok
    have hwithin := h.short read₀ hread₀
    obtain ⟨read', hread', -, -, hiff⟩ :=
      htracks.accesses (Slip.within_iff.mp hwithin).2 line.readable
    have hall : stream = read₀ ++ read' ++ (line.step .poll).readable := by
      rw [List.append_assoc]
      exact hread₀.trans (congrArg (read₀ ++ ·) hread')
    obtain rfl := List.append_cancel_right (hread.symm.trans hall)
    exact Slip.within_append.mpr ⟨hwithin, hiff.mp hinside⟩

theorem lineShort_next (hline : LineShort n.line stream) (n' : Network) (hn : n'.line = n.line) :
    LineShort n'.device stream where
  ok := lineOk_next hline.ok n' hn
  short read hread := hline.short read (hn ▸ hread)

theorem lineShort_host (hline : LineShort n.device stream) (n' : Network) (hn : n'.line = n.line) :
    LineShort n'.device stream where
  ok := lineOk_host hline.ok n' hn
  short read hread := hline.short read (show stream = read ++ n.line.readable from hn ▸ hread)

theorem polled_le (hline : LineOk r n.device stream) : n.polled.1 ≤ UIP_BUFSIZE := by
  obtain ⟨read, -, htracks, -⟩ := hline
  obtain ⟨read', -, -, -, hres⟩ := htracks.poll n.device.readable
  rcases hres with ⟨-, hzero⟩ | ⟨data, -, hlen, -⟩
  · rw [Network.polled, hzero]
    exact Nat.zero_le _
  · rw [Network.polled, hlen, length_delivered]
    exact Nat.le_of_lt_succ (Nat.mod_lt _ (Nat.succ_pos _))

theorem length_frame_le (hline : LineOk r n.device stream) : n.frame.length ≤ BUFSIZE :=
  Nat.le_trans (List.length_take_le _ _) (polled_le hline)

theorem packets_polled (hpos : n.polled.1 > 0) :
    (n.device.step .poll).packets = n.line.packets ++ [n.frame] :=
  if_pos hpos

theorem packets_nothing (hzero : n.polled.1 = 0) : (n.device.step .poll).packets = n.line.packets :=
  if_neg (by
    show ¬ n.polled.1 > 0
    omega)

-- ---------------------------------------------------------------------------
-- The stack
-- ---------------------------------------------------------------------------

/-- `uip_process` has been called, and its packet is not sent yet. -/
def PollPlace.Running : PollPlace → Prop
  | .input | .periodic _ => True
  | .out | .timer _ => False

/-- The host is that of a run; only `uip_len` may differ between the calls. -/
structure Network.Shows (n : Network) (h : Host) : Prop where
  stack : n.host.stack = { h.stack with len := n.host.stack.len }
  calling : n.host.calling = h.calling
  running : n.place.Running → n.host = h
  waits : ¬ n.place.Running → h.calling = none

theorem Network.Shows.self (h : Host) (hhost : n.host = h)
    (hwaits : ¬ n.place.Running → h.calling = none) :
    n.Shows h where
  stack := by rw [hhost]
  calling := congrArg Host.calling hhost
  running _ := hhost
  waits := hwaits

theorem Reaches.snoc {fs : List Event} {f : Event} {h' : Host} (hr : Reaches fs h)
    (hstep : HostStep h f h') :
    Reaches (fs ++ [f]) h' := by
  obtain ⟨behind, iss, lastport, hlow, hhigh, hrun⟩ := hr
  exact ⟨behind, iss, lastport, hlow, hhigh, hrun.snoc hstep⟩

theorem sendable_packet {s : Stack} (hemits : Emits s) (hpos : s.len > 0) : Sendable s.packet := by
  obtain ⟨hle, hpacket⟩ := hemits
  have hsize : s.packet.length = s.len.toNat := Stack.length_packet (Nat.le_trans hle (by decide))
  refine ⟨hsize ▸ hle, ?_⟩
  rcases hpacket with hzero | htcp | ⟨hproto, htype, hecho⟩
  · rw [hzero] at hpos
    exact absurd hpos (by decide)
  · exact .inl htcp
  · refine .inr ⟨fun h9 => ?_, fun h20 => ?_, fun h20 => hecho (hsize ▸ h20)⟩
    · rw [Stack.getD_packet (hsize ▸ h9)]
      exact hproto
    · rw [Stack.getD_packet (hsize ▸ h20)]
      exact htype

-- ---------------------------------------------------------------------------
-- Runs
-- ---------------------------------------------------------------------------

/-- What has come of a run of `network_poll`. -/
structure Network.Follows (n : Network) (es : List NetworkEvent) (fs : List Event) (h : Host) :
    Prop where
  reaches : Reaches fs h
  shows : n.Shows h
  line : LineShort n.device (es.flatMap NetworkEvent.arrived)
  frames : fs.flatMap Event.frame = n.line.packets
  sent : ∃ packets : List (List UInt8), n.sent = packets.flatMap Slip.frame ∧
    ∀ p ∈ packets, Sendable p

variable {es : List NetworkEvent} {fs : List Event} {i : Fin UIP_CONNS}

theorem arrived_snoc (es : List NetworkEvent) (he : e.arrived = []) :
    (es ++ [e]).flatMap NetworkEvent.arrived = es.flatMap NetworkEvent.arrived := by
  rw [List.flatMap_append, List.flatMap_singleton, he, List.append_nil]

theorem follows_send {place : PollPlace} (hf : n.Follows es fs h) (hrunning : n.place.Running)
    (hcalling : n.host.calling = none) : (n.send place).Follows (es ++ [.send]) fs h := by
  have hhost := hf.shows.running hrunning
  have hdone : h.calling = none := hhost ▸ hcalling
  refine ⟨hf.reaches, .self h hhost fun _ => hdone, ?_, hf.frames, ?_⟩
  · rw [arrived_snoc es rfl]
    exact hf.line
  · obtain ⟨packets, hsent, hsendable⟩ := hf.sent
    rw [Network.send]
    dsimp only
    split
    · rename_i hpos
      refine ⟨packets ++ [n.host.stack.packet], ?_, ?_⟩
      · rw [List.flatMap_append, List.flatMap_singleton, ← hsent]
        rfl
      · have hemits : Emits n.host.stack := by
          obtain ⟨behind, iss, lastport, -, -, hrun⟩ := hf.reaches
          have hsound := (sound_run hrun).2
          rw [hdone] at hsound
          exact hhost ▸ hsound
        intro p hp
        rcases List.mem_append.mp hp with hp | hp
        · exact hsendable p hp
        · exact List.mem_singleton.mp hp ▸ sendable_packet hemits hpos
    · exact ⟨packets, hsent, hsendable⟩

theorem follows_step (hf : n.Follows es fs h) (hstep : NetworkStep n e n') :
    ∃ fs' h', n'.Follows (es ++ [e]) fs' h' := by
  have hstack := hf.shows.stack
  have hfree (hplace : ¬ n.place.Running) : h = ⟨h.stack, none⟩ := by rw [← hf.shows.waits hplace]
  cases hstep with
  | @arrive bytes =>
    refine ⟨fs, h, hf.reaches, ?_, ?_, hf.frames, hf.sent⟩
    · exact ⟨hf.shows.stack, hf.shows.calling, hf.shows.running, hf.shows.waits⟩
    · rw [List.flatMap_append, List.flatMap_singleton]
      exact hf.line.arrive bytes
  | @input expired m hplace hinside hpos hn =>
    have hnot : ¬ n.place.Running := by rw [hplace]; exact id
    -- `uip_len` is the only difference, and is set to the length of the frame.
    have hsame : n.host.stack.receive n.frame = h.stack.receive n.frame := by
      rw [hstack]
      rfl
    rw [hsame] at hn
    have hhost : HostStep h (.receive n.frame) m.host := by
      rw [hfree hnot]
      exact .receive (length_frame_le hf.line.ok) hn
    refine ⟨_, m.host, hf.reaches.snoc hhost, .self _ rfl fun hno => absurd trivial hno, ?_, ?_,
      hf.sent⟩
    · rw [arrived_snoc es rfl]
      exact lineShort_next
        (n := { n with line := n.device.step .poll }) (hf.line.poll hinside) _ rfl
    · rw [List.flatMap_append, List.flatMap_singleton, hf.frames]
      exact (packets_polled hpos).symm
  | @nothing expired hplace hinside hzero =>
    have hnot : ¬ n.place.Running := by rw [hplace]; exact id
    have hnone := hf.shows.waits hnot
    refine ⟨fs, h, hf.reaches, ⟨?_, hf.shows.calling, ?_, fun _ => hnone⟩, ?_, ?_, hf.sent⟩
    · dsimp only
      rw [hstack]
    · intro hrunning
      cases expired <;> exact hrunning.elim
    · rw [arrived_snoc es rfl]
      exact lineShort_next
        (n := { n with line := n.device.step .poll }) (hf.line.poll hinside) _ rfl
    · rw [hf.frames]
      exact (packets_nothing hzero).symm
  | @periodic i hplace =>
    have hnot : ¬ n.place.Running := by rw [hplace]; exact id
    -- With `UIP_TIMER`, `uip_process` clears `uip_len` before anything reads it.
    have hsame :
        uipTimer { n.host.stack with conn := i } = uipTimer { h.stack with conn := i } := by
      rw [hstack]
      rfl
    have hhost : HostStep h (.periodic i) (uipTimer { n.host.stack with conn := i }).host := by
      rw [hfree hnot, hsame]
      exact .periodic
    refine ⟨_, _, hf.reaches.snoc hhost, .self _ rfl fun hno => absurd trivial hno, ?_, ?_, hf.sent⟩
    · rw [arrived_snoc es rfl]
      exact lineShort_host hf.line _ rfl
    · rw [List.flatMap_append, List.flatMap_singleton, hf.frames]
      exact List.append_nil _
  | sendInput hplace hcalling =>
    exact ⟨fs, h, follows_send hf (by rw [hplace]; trivial) hcalling⟩
  | sendPeriodic hplace hcalling =>
    exact ⟨fs, h, follows_send hf (by rw [hplace]; trivial) hcalling⟩
  | @memory behind =>
    have hhost : HostStep h (.memory behind) { h with stack := { h.stack with behind } } := .memory
    refine ⟨_, _, hf.reaches.snoc hhost, ⟨?_, hf.shows.calling, ?_,
      hf.shows.waits⟩, ?_, ?_, hf.sent⟩
    · exact congrArg (fun s : Stack => { s with behind }) hstack
    · intro hrunning
      dsimp only
      rw [hf.shows.running hrunning]
    · rw [arrived_snoc es rfl]
      exact hf.line
    · rw [List.flatMap_append, List.flatMap_singleton, hf.frames]
      exact List.append_nil _
  | @appReturn r resume hcalling =>
    -- The application is called by `uip_process` only.
    have hrunning : n.place.Running := by
      by_contra hnot
      rw [hf.shows.calling, hf.shows.waits hnot] at hcalling
      cases hcalling
    have hhost := hf.shows.running hrunning
    have hstep : HostStep h (.appReturn r) ⟨uipResume (uipAppReturn n.host.stack r) resume,
        none⟩ := by
      rw [← hhost, show n.host = ⟨n.host.stack, some resume⟩ by rw [← hcalling]]
      exact .appReturn
    refine ⟨_, _, hf.reaches.snoc hstep, .self _ rfl fun _ => rfl, ?_, ?_, hf.sent⟩
    · rw [arrived_snoc es rfl]
      exact lineShort_host hf.line _ rfl
    · rw [List.flatMap_append, List.flatMap_singleton, hf.frames]
      exact List.append_nil _

theorem follows_starts (h0 : NetworkStarts n) : ∃ fs h, n.Follows [] fs h := by
  cases h0 with
  | @init behind iss lastport r dev hlow hhigh hdev hconnect =>
    have hreaches : Reaches [.connect SERVER IRC_PORT] ⟨r.2, none⟩ :=
      ⟨behind, iss, lastport, hlow, hhigh, Run.snoc .nil (.connect hconnect)⟩
    refine ⟨_, _, hreaches, .self _ rfl fun _ => rfl, ?_, rfl, [], rfl, fun p hp =>
      absurd hp List.not_mem_nil⟩
    have htracks : Tracks (slipdevInit { dev with uipBuf := r.2.buf.bytes }) .start :=
      tracks_init _ hdev (bufsize_le ⟨⟨r.2, none⟩, ⟨dev, [], []⟩, [], .out⟩)
    refine ⟨⟨[], rfl, htracks, rfl⟩, fun read hread => ?_⟩
    obtain rfl : read = [] := (List.append_eq_nil_iff.mp hread.symm).1
    exact Slip.within_iff.mpr ⟨fun data hdata => (by cases hdata), Nat.zero_le _⟩

theorem follows_run {n₀ : Network} (h0 : NetworkStarts n₀) (hrun : Run NetworkStep n₀ es n) :
    ∃ fs h, n.Follows es fs h :=
  hrun.invariant (fun es n => ∃ fs h, n.Follows es fs h) (follows_starts h0) fun _ _ _ _ _
    hi hstep => by
    obtain ⟨fs, h, hf⟩ := hi
    exact follows_step hf hstep

/-- Every run of `network_poll` on a serial line is a run of the host, and the frames
that this is given are the non-empty ones of those that have been read, each once
and in order. None of them is longer than the buffer, as there is no step behind a
longer one. -/
theorem network_refines {n₀ : Network} (h0 : NetworkStarts n₀) (hrun : Run NetworkStep n₀ es n) :
    ∃ fs h read, Reaches fs h ∧ n.Shows h ∧ es.flatMap NetworkEvent.arrived =
      read ++ n.line.readable ∧
      (∀ data ∈ Slip.pieces read, data.length ≤ UIP_BUFSIZE) ∧
      fs.flatMap Event.frame = wholeFrames (Slip.frames read) := by
  obtain ⟨fs, h, hf⟩ := follows_run h0 hrun
  obtain ⟨read, hread, -, hpackets⟩ := hf.line.ok
  have hwithin := hf.line.short read hread
  refine ⟨fs, h, read, hf.reaches, hf.shows, hread, Slip.all_start ▸ hwithin, ?_⟩
  rw [hf.frames, ← Slip.contents_start, ← deliveries_of_le (Slip.within_iff.mp hwithin).1]
  exact hpackets

theorem network_refines_handshake : ∃ (n : Network) (fs : List Event) (h : Host)
    (read : List UInt8), Reaches fs h ∧ n.Shows h ∧ n.line.packets = [openingSynack] ∧
    handshaking.flatMap NetworkEvent.arrived = read ++ n.line.readable ∧
    (∀ data ∈ Slip.pieces read, data.length ≤ UIP_BUFSIZE) ∧ fs.flatMap Event.frame =
      wholeFrames (Slip.frames read) := by
  have hrun : ((Network.startRun 3 ⟨1, 2, 3, 255⟩ 31998).bind fun n₀ =>
      (handshaking.foldlM (Network.stepRun 3) n₀).map fun n : Network => n.line.packets) =
      some [openingSynack] := by decide +kernel
  obtain ⟨n₀, h0, hrun⟩ := Option.bind_eq_some_iff.mp hrun
  obtain ⟨n, hn, hpackets⟩ := Option.map_eq_some_iff.mp hrun
  obtain ⟨fs, h, read, hreaches, hshows, hread, hshort, hframes⟩ := network_refines
    (networkStarts_of_startRun (by decide) h0) (networkRun_of_stepRun hn)
  exact ⟨n, fs, h, read, hreaches, hshows, hpackets, hread, hshort, hframes⟩

/-- Whoever reads what `network_poll` has put on the line finds valid packets, and
nothing between them. -/
theorem network_sends {n₀ : Network} (h0 : NetworkStarts n₀) (hrun : Run NetworkStep n₀ es n) :
    ∀ p ∈ Slip.frames n.sent, p = [] ∨ Sendable p := by
  obtain ⟨fs, h, hf⟩ := follows_run h0 hrun
  obtain ⟨packets, hsent, hsendable⟩ := hf.sent
  intro p hp
  rw [hsent, ← Slip.contents_start, Slip.contents_frames] at hp
  cases packets with
  | nil => cases hp
  | cons packet packets =>
    simp only [List.mem_cons, List.mem_flatMap, List.not_mem_nil, or_false] at hp
    rcases hp with rfl | rfl | ⟨q, hq, rfl | rfl⟩
    · exact .inl rfl
    · exact .inr (hsendable p (List.mem_cons_self ..))
    · exact .inl rfl
    · exact .inr (hsendable p (List.mem_cons_of_mem _ hq))

/-- The SYN and the ACK of the SYNACK. -/
theorem network_sends_handshake : ∃ n : Network,
    (Slip.frames n.sent).map List.length = [0, 44, 0, 40] ∧
    ∀ p ∈ Slip.frames n.sent, p = [] ∨ Sendable p := by
  have hrun : ((Network.startRun 3 ⟨1, 2, 3, 255⟩ 31998).bind fun n₀ =>
      (handshaking.foldlM (Network.stepRun 3) n₀).map
        fun n : Network => (Slip.frames n.sent).map List.length) =
      some [0, 44, 0, 40] := by decide +kernel
  obtain ⟨n₀, h0, hrun⟩ := Option.bind_eq_some_iff.mp hrun
  obtain ⟨n, hn, hlengths⟩ := Option.map_eq_some_iff.mp hrun
  exact ⟨n, hlengths, network_sends (networkStarts_of_startRun (by decide) h0)
    (networkRun_of_stepRun hn)⟩

end

end FxIP.Tcpip
