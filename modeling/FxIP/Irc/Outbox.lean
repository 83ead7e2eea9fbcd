import FxIP.Irc.Login
import Mathlib.Data.List.Infix

/-!
# Messages after the login

`messagebuffer` and `messagelength` hold one message from the time it is queued
until it and its line end are acked, and `irc_send_thread` reads the buffer
again for every repeat. A message is delivered intact if nothing is queued
before the one at hand is done, and no text is formatted for display in the
buffer while it is still to be read.
-/

namespace FxIP

def wireText (texts : List (List UInt8)) : List UInt8 := texts.flatMap (· ++ crlf)

def IrcSystem.stream (s : IrcSystem) : List UInt8 := s.wire.first.flatMap (·.2)

/-- Every message queued so far is in the stream, once, in order and followed by
its line end, but for the last one while `messagelength` is set; and a repeated
segment has the bytes it had at first. -/
structure MessagesIntact (s : IrcSystem) : Prop where
  stream : s.stream <+: wireText s.messages.queued
  earlier : wireText s.messages.queued.dropLast <+: s.stream
  done : s.messages.messagelength = 0 → s.stream = wireText s.messages.queued
  repeats : s.wire.Faithful fun _ => True

/-- A message is queued only when the last one is done, and fits the buffer. A
text is displayed only when no message waits to be sent. A message is not sent
again after a text was displayed in its place. What is sent fits a segment. -/
def MessagesClear (s : IrcSystem) : IrcEvent → Prop
  | .submit _ => s.messages.messagelength = 0
  | .thread => s.app.pt = .parse →
      ∀ action ∈ (ircParseLine s.app.inputbuffer (psockDatalen s.app.psock)).map Prod.fst,
        match action with
        | .display _ => s.messages.messagelength = 0 ∨ s.app.psockOut.psockpt = .wait
        | .reply arguments =>
          s.messages.messagelength = 0 ∧ (pong arguments).length < SIZEOF_MESSAGEBUFFER - 1
        | _ => True
  | .sendThread => s.messages.messagelength ≠ 0 →
      (s.app.outPt = .message → s.app.psockOut.psockpt = .start ∨ s.uip.flags.rexmit = true →
        s.messages.messagelength ≤ s.uip.conn.mss) ∧
      (s.app.outPt = .message → s.uip.flags.rexmit = true → s.messages.displayed = false) ∧
      (s.uip.flags.acked = true ∨ s.uip.flags.rexmit = true → crlf.length ≤ s.uip.conn.mss)
  | _ => True

instance (s : IrcSystem) (action : IrcAction) : Decidable
    (match action with
      | .display _ => s.messages.messagelength = 0 ∨ s.app.psockOut.psockpt = .wait
      | .reply arguments =>
          s.messages.messagelength = 0 ∧ (pong arguments).length < SIZEOF_MESSAGEBUFFER - 1
      | _ => True) :=
  match action with
  | .nothing | .writeLog _ => .isTrue trivial
  | .display _ => inferInstanceAs (Decidable (_ ∨ _))
  | .reply _ => inferInstanceAs (Decidable (_ ∧ _))

instance (s : IrcSystem) (e : IrcEvent) : Decidable (MessagesClear s e) :=
  match e with
  | .submit _ => inferInstanceAs (Decidable (_ = 0))
  | .thread => inferInstanceAs (Decidable (_ → _))
  | .sendThread => inferInstanceAs (Decidable (_ → _))
  | .frame _ | .synack _ _ | .segment _ _ _ | .timer | .close _ => .isTrue trivial

structure Reading (p : Psock) : Prop where
  psockpt : p.psockpt = .wait
  readlen : p.readlen = 0
  bufsize : 0 < p.bufsize
  left : p.buf.left ≤ p.bufsize

/-- A system after the login, with nothing queued or outstanding. -/
structure LoggedIn (s : IrcSystem) : Prop where
  turn : s.turn = .outside
  established : s.uip.conn.tcpstate = .established
  len : s.uip.conn.len = 0
  pt : s.app.pt = .readto
  reading : Reading s.app.psock
  sender : SenderIdle s.app
  messagelength : s.messages.messagelength = 0
  queued : s.messages.queued = []
  wire : s.wire = .init

variable {s t : IrcSystem} {e : IrcEvent} {m : Messages} {app : IrcState} {uip : Uip} {n : Nat}
variable {text : List UInt8} {rest : List (List UInt8)}

@[simp] theorem wireText_concat : wireText (rest ++ [text]) = wireText rest ++ (text ++ crlf) := by
  simp [wireText]

-- ---------------------------------------------------------------------------
-- The globals
-- ---------------------------------------------------------------------------

@[simp] theorem display_queued (text : List UInt8) : (m.display text).queued = m.queued := rfl

@[simp] theorem queue_queued (size : Nat) (text : List UInt8) :
    (m.queue size text).queued = m.queued ++ [text] := rfl

theorem queue_messagelength {size : Nat} (hlt : text.length < size)
    (hsize : size ≤ SIZEOF_MESSAGEBUFFER) :
    (m.queue size text).messagelength = text.length := by
  have hlen : text.length < 256 := Nat.lt_of_lt_of_le hlt hsize
  have hu : u16 text.length = text.length := by
    simp only [u16]
    omega
  show min SIZEOF_MESSAGEBUFFER (u16 text.length) = text.length
  rw [hu, SIZEOF_MESSAGEBUFFER]
  omega

theorem queue_messagebuffer {size : Nat} (hlt : text.length < size)
    (hsize : size ≤ SIZEOF_MESSAGEBUFFER) :
    (m.queue size text).messagebuffer.cells.take text.length = text := by
  have htake : text.take (size - 1) = text := List.take_of_length_le (by omega)
  show (m.messagebuffer.write (text.take (size - 1) ++ [0])).cells.take text.length = text
  rw [htake]
  exact m.messagebuffer.take_write_append (by omega)

-- ---------------------------------------------------------------------------
-- The phases of a message
-- ---------------------------------------------------------------------------

/-- The last message, `text`, is the one at hand. -/
structure AtHand (s : IrcSystem) (rest : List (List UInt8)) (text : List UInt8) : Prop where
  queued : s.messages.queued = rest ++ [text]
  length : s.messages.messagelength = text.length
  pos : 0 < text.length
  fits : text.length ≤ SIZEOF_MESSAGEBUFFER

def InBuffer (s : IrcSystem) (text : List UInt8) : Prop :=
  s.messages.messagebuffer.cells.take text.length = text

inductive OutboxPhase (s : IrcSystem) : Prop
  | idle : s.messages.messagelength = 0 → SenderIdle s.app → Clear s →
      s.stream = wireText s.messages.queued → OutboxPhase s
  | queued {rest : List (List UInt8)} {text : List UInt8} : AtHand s rest text → SenderIdle s.app →
      Clear s → InBuffer s text → s.stream = wireText rest → OutboxPhase s
  | text {rest : List (List UInt8)} {text : List UInt8} : AtHand s rest text →
      s.app.outPt = .message →
      Waits s.app.psockOut (.messagebuffer 0) text.length → Outstanding s text.length →
      (s.messages.displayed = false → InBuffer s text) →
      s.wire.first.getLast? = some (.sendThread, text) → s.stream = wireText rest ++ text →
        OutboxPhase s
  | crlf {rest : List (List UInt8)} {text : List UInt8} : AtHand s rest text → s.app.outPt = .crlf →
      Waits s.app.psockOut (.str crlf 0) crlf.length → Outstanding s crlf.length →
      s.wire.first.getLast? = some (.sendThread, crlf) → s.stream = wireText (rest ++ [text]) →
        OutboxPhase s

structure OutboxInv (s : IrcSystem) : Prop where
  phase : OutboxPhase s
  loop : s.app.pt = .readto ∨ s.app.pt = .parse
  connected : s.uip.conn.tcpstate ≠ .synSent
  repeats : s.wire.Faithful fun _ => True

theorem OutboxInv.intact (h : OutboxInv s) : MessagesIntact s := by
  obtain ⟨hphase, -, -, hrepeats⟩ := h
  have hall : s.stream = wireText s.messages.queued → MessagesIntact s := by
    intro hstream
    have hdrop : wireText s.messages.queued.dropLast <+: wireText s.messages.queued :=
      List.IsPrefix.flatMap (List.dropLast_prefix _) _
    rw [← hstream] at hdrop
    exact ⟨hstream ▸ List.prefix_rfl, hdrop, fun _ => hstream, hrepeats⟩
  cases hphase with
  | idle _ _ _ hstream => exact hall hstream
  | queued hhand _ _ _ hstream =>
    refine ⟨?_, ?_, fun hzero => ?_, hrepeats⟩
    · rw [hstream, hhand.queued, wireText_concat]
      exact List.prefix_append ..
    · rw [hstream, hhand.queued, List.dropLast_concat]
    · exact absurd (hhand.length.symm.trans hzero) (Nat.ne_of_gt hhand.pos)
  | text hhand _ _ _ _ _ hstream =>
    refine ⟨?_, ?_, fun hzero => ?_, hrepeats⟩
    · rw [hstream, hhand.queued, wireText_concat, ← List.append_assoc]
      exact List.prefix_append ..
    · rw [hstream, hhand.queued, List.dropLast_concat]
      exact List.prefix_append ..
    · exact absurd (hhand.length.symm.trans hzero) (Nat.ne_of_gt hhand.pos)
  | crlf hhand _ _ _ _ hstream => exact hall (hhand.queued ▸ hstream)

theorem LoggedIn.inv (h : LoggedIn s) : OutboxInv s := by
  refine ⟨.idle h.messagelength h.sender ?_ ?_, .inl h.pt, ?_, ?_⟩
  · simp only [Clear, h.turn]
    exact fun _ => h.len
  · rw [IrcSystem.stream, h.wire, h.queued]
    rfl
  · rw [h.established]
    exact TcpState.noConfusion
  · rw [h.wire]
    exact Wire.faithful_init

-- ---------------------------------------------------------------------------
-- Steps outside a call
-- ---------------------------------------------------------------------------

theorem OutboxPhase.queue {s t : IrcSystem} {size : Nat} (h : OutboxPhase s)
    (hidle : s.messages.messagelength = 0) (hlt : text.length < size)
    (hsize : size ≤ SIZEOF_MESSAGEBUFFER)
    (hpos : 0 < text.length) (hm : m.queued = s.messages.queued)
    (hmessages : t.messages = m.queue size text)
    (happ : SenderIdle s.app → SenderIdle t.app) (hclear : Clear s → Clear t)
    (hwire : t.wire = s.wire) :
    OutboxPhase t := by
  have hfits : text.length ≤ SIZEOF_MESSAGEBUFFER := Nat.le_trans (Nat.le_of_lt hlt) hsize
  have hstart : SenderIdle s.app → Clear s → s.stream = wireText s.messages.queued →
      OutboxPhase t := by
    intro hsender hquiet hstream
    have hqueued : t.messages.queued = s.messages.queued ++
      [text] := by rw [hmessages, queue_queued, hm]
    refine .queued ⟨hqueued, ?_, hpos, hfits⟩ (happ hsender) (hclear hquiet) ?_ ?_
    · rw [hmessages, queue_messagelength hlt hsize]
    · rw [InBuffer, hmessages, queue_messagebuffer hlt hsize]
    · rw [← hstream, IrcSystem.stream, hwire, IrcSystem.stream]
  cases h with
  | idle _ hsender hquiet hstream => exact hstart hsender hquiet hstream
  | queued hhand _ _ _ _ => exact absurd (hhand.length.symm.trans hidle) (Nat.ne_of_gt hhand.pos)
  | text hhand _ _ _ _ _ _ => exact absurd (hhand.length.symm.trans hidle) (Nat.ne_of_gt hhand.pos)
  | crlf hhand _ _ _ _ _ => exact absurd (hhand.length.symm.trans hidle) (Nat.ne_of_gt hhand.pos)

/-- What a step leaves as it is that does not concern `irc_send_thread`. -/
structure SameSender (s t : IrcSystem) : Prop where
  outPt : t.app.outPt = s.app.outPt
  psockOut : t.app.psockOut = s.app.psockOut
  wire : t.wire = s.wire

theorem SameSender.idle (h : SameSender s t) (hidle : SenderIdle s.app) : SenderIdle t.app := by
  rwa [SenderIdle, h.outPt, h.psockOut]

theorem OutboxPhase.same {s t : IrcSystem} (h : OutboxPhase s) (hsame : SameSender s t)
    (hlength : t.messages.messagelength = s.messages.messagelength)
    (hqueued : t.messages.queued = s.messages.queued)
    (hbuffer : t.messages.displayed = false →
      s.messages.displayed = false ∧ t.messages.messagebuffer = s.messages.messagebuffer)
    (hkeep : s.messages.messagelength = 0 ∨ s.app.psockOut.psockpt = .wait ∨
      t.messages.messagebuffer = s.messages.messagebuffer)
    (hclear : Clear s → Clear t) (hout : ∀ n, Outstanding s n → Outstanding t n) :
    OutboxPhase t := by
  have hstream : t.stream = s.stream := by rw [IrcSystem.stream, hsame.wire, IrcSystem.stream]
  have hhandT : ∀ {rest text}, AtHand s rest text → AtHand t rest text := fun hhand =>
    ⟨hqueued.trans hhand.queued, hlength.trans hhand.length, hhand.pos, hhand.fits⟩
  cases h with
  | idle hidle hsender hquiet hs =>
    exact .idle (hlength.trans hidle) (hsame.idle hsender) (hclear hquiet)
      (by rw [hstream, hqueued, hs])
  | queued hhand hsender hquiet hin hs =>
    refine .queued (hhandT hhand) (hsame.idle hsender) (hclear hquiet) ?_ (hstream.trans hs)
    rcases hkeep with hzero | hwait | heq
    · exact absurd (hhand.length.symm.trans hzero) (Nat.ne_of_gt hhand.pos)
    · exact absurd (hsender.2.symm.trans hwait) Psockpt.noConfusion
    · rwa [InBuffer, heq]
  | text hhand hpt hwaits hwire hin hlast hs =>
    refine .text (hhandT hhand) (hsame.outPt.trans hpt) (hsame.psockOut ▸ hwaits) (hout _ hwire) ?_
      (hsame.wire ▸ hlast) (hstream.trans hs)
    intro hdisplayed
    obtain ⟨hdisplayed', heq⟩ := hbuffer hdisplayed
    rw [InBuffer, heq]
    exact hin hdisplayed'
  | crlf hhand hpt hwaits hwire hlast hs =>
    exact .crlf (hhandT hhand) (hsame.outPt.trans hpt) (hsame.psockOut ▸ hwaits) (hout _ hwire)
      (hsame.wire ▸ hlast) (hstream.trans hs)

theorem privmsg_length (text : List UInt8) : (privmsg text).length = 22 + text.length :=
  List.length_append

theorem OutboxInv.submit (h : OutboxInv s) (hturn : s.turn = .outside) (hinput : IsInput text)
    (hidle : s.messages.messagelength = 0) :
    OutboxInv { s with messages := uiPageIrcMessageSubmit s.messages text } := by
  refine ⟨?_, h.loop, h.connected, h.repeats⟩
  have hlt : (privmsg text).length < SIZEOF_MESSAGEBUFFER := by
    have hinput' : text.length < 128 := hinput.1
    rw [privmsg_length, SIZEOF_MESSAGEBUFFER]
    omega
  have hpos : 0 < (privmsg text).length := by
    rw [privmsg_length]
    omega
  refine h.phase.queue (m := s.messages.display (ascii "<" ++ ircUsername ++ ascii "> " ++ text))
    hidle hlt (Nat.le_refl _) hpos (display_queued _) rfl id ?_ rfl
  simp only [Clear, hturn]
  exact id

theorem OutboxInv.outside (h : OutboxInv s) (hpt : t.app.pt = s.app.pt) (hsame : SameSender s t)
    (hmessages : t.messages = s.messages) (hstays : StaysOutside s t) : OutboxInv t := by
  refine ⟨?_, hpt ▸ h.loop, ?_, hsame.wire ▸ h.repeats⟩
  · refine h.phase.same hsame (by rw [hmessages]) (by rw [hmessages]) ?_ ?_ hstays.clear
      fun _ => hstays.outstanding
    · rw [hmessages]
      exact fun hdisplayed => ⟨hdisplayed, rfl⟩
    · exact .inr (.inr (by rw [hmessages]))
  · rcases hstays.state with heq | heq
    · exact heq ▸ h.connected
    · rw [heq]
      exact TcpState.noConfusion

theorem OutboxInv.call (h : OutboxInv s) (hturn : s.turn = .outside)
    (hstate : s.uip.conn.tcpstate = .established) (hstate' : uip.conn.tcpstate = .established)
    (hcalled : Called uip s.uip.conn.len) : OutboxInv { s with uip, turn := .thread } := by
  refine ⟨?_, h.loop, by rw [hstate']; exact TcpState.noConfusion, h.repeats⟩
  exact h.phase.same ⟨rfl, rfl, rfl⟩ rfl rfl (fun hd => ⟨hd, rfl⟩) (.inr (.inr rfl))
    (fun hclear => hclear.call hturn hstate hcalled) fun _ hout => hout.call hturn hstate hcalled

-- ---------------------------------------------------------------------------
-- The turn of irc_thread
-- ---------------------------------------------------------------------------

theorem OutboxPhase.perform {s t : IrcSystem} {action : IrcAction} (h : OutboxPhase s)
    (hguard : match action with
      | .display _ => s.messages.messagelength = 0 ∨ s.app.psockOut.psockpt = .wait
      | .reply arguments =>
          s.messages.messagelength = 0 ∧ (pong arguments).length < SIZEOF_MESSAGEBUFFER - 1
      | _ => True)
    (hmessages : t.messages = s.messages.perform action) (hsame : SameSender s t)
    (hclear : Clear s → Clear t) (hout : ∀ n, Outstanding s n → Outstanding t n) :
        OutboxPhase t := by
  cases action with
  | nothing =>
    refine h.same hsame (by rw [hmessages]; rfl) (by rw [hmessages]; rfl) ?_ ?_ hclear hout
    · rw [hmessages]
      exact fun hdisplayed => ⟨hdisplayed, rfl⟩
    · exact .inr (.inr (by rw [hmessages]; rfl))
  | writeLog call =>
    refine h.same hsame (by rw [hmessages]; rfl) (by rw [hmessages]; rfl) ?_ ?_ hclear hout
    · rw [hmessages]
      exact fun hdisplayed => ⟨hdisplayed, rfl⟩
    · exact .inr (.inr (by rw [hmessages]; rfl))
  | display text =>
    refine h.same hsame (by rw [hmessages]; rfl) (by rw [hmessages]; rfl) ?_ ?_ hclear hout
    · rw [hmessages]
      exact fun hdisplayed => Bool.noConfusion hdisplayed
    · exact hguard.imp_right Or.inl
  | reply arguments =>
    have hpos : 0 < (pong arguments).length := by
      have hlen : (pong arguments).length = 5 + arguments.length := List.length_append
      omega
    exact h.queue hguard.1 hguard.2 (Nat.sub_le _ _) hpos rfl hmessages hsame.idle hclear hsame.wire

theorem OutboxInv.thread (h : OutboxInv s) (hturn : s.turn = .thread)
    (hguard : MessagesClear s .thread)
    {go : Bool} (hr : (ircThread s.messages s.app s.uip).Returns (some (go, m, app, uip))) :
    OutboxInv (s.afterThread go m app uip) := by
  have hclear : uip = s.uip → Clear s → Clear (s.afterThread go m app uip) := by
    rintro rfl hclear
    simp only [Clear, hturn] at hclear
    cases go <;> exact hclear
  have hout : uip = s.uip → ∀ n, Outstanding s n → Outstanding (s.afterThread go m app uip) n := by
    rintro rfl n hout
    simp only [Outstanding, hturn] at hout
    cases go <;> exact hout
  rcases h.loop with hpt | hpt
  · obtain ⟨go', psock, inputbuffer, -, heq⟩ := ircThread_reads .readto hpt hr
    simp only [Option.some.injEq, Prod.mk.injEq] at heq
    obtain ⟨rfl, rfl, rfl, rfl⟩ := heq
    refine ⟨?_, ?_, h.connected, h.repeats⟩
    · exact h.phase.same ⟨rfl, rfl, rfl⟩ rfl rfl (fun hd => ⟨hd, rfl⟩) (.inr (.inr rfl))
        (hclear rfl) (hout rfl)
    · cases go with
      | true => exact .inr rfl
      | false => exact .inl rfl
  · obtain ⟨a, ha, heq⟩ := Option.map_eq_some_iff.mp (ircThread_parse hpt hr).symm
    obtain ⟨rfl, rfl, rfl, rfl⟩ : true = go ∧ _ = m ∧ _ = app ∧ s.uip = uip := by
      simpa only [Prod.mk.injEq] using heq
    refine ⟨?_, .inl rfl, h.connected, h.repeats⟩
    refine h.phase.perform (hguard hpt a.1 ?_) rfl ⟨rfl, rfl, rfl⟩ (hclear rfl) (hout rfl)
    rw [ha]
    rfl

-- ---------------------------------------------------------------------------
-- The turn of irc_send_thread
-- ---------------------------------------------------------------------------

theorem flatMap_send (w : Wire (Owner × List UInt8)) (owner : Owner) (data : List UInt8) :
    (w.send (owner, data)).first.flatMap (·.2) = w.first.flatMap (·.2) ++ data := by
  simp

theorem OutboxInv.skip (h : OutboxInv s) (hturn : s.turn = .sendThread)
    (hlen : s.messages.messagelength = 0) : OutboxInv (s.output s.messages s.app s.uip) := by
  cases h.phase with
  | idle hidle hsender hclear hstream =>
    simp only [Clear, hturn] at hclear
    rw [output_idle hclear.1.slen]
    exact ⟨.idle hidle hsender (fun _ => hclear.2) hstream, h.loop, h.connected, h.repeats⟩
  | queued hhand _ _ _ _ => exact absurd (hhand.length.symm.trans hlen) (Nat.ne_of_gt hhand.pos)
  | text hhand _ _ _ _ _ _ => exact absurd (hhand.length.symm.trans hlen) (Nat.ne_of_gt hhand.pos)
  | crlf hhand _ _ _ _ _ => exact absurd (hhand.length.symm.trans hlen) (Nat.ne_of_gt hhand.pos)

theorem output_data (s : IrcSystem) (m : Messages) (app : IrcState) {u : Uip}
    {data : List UInt8} {len : Nat} (hpos : 0 < len) (hlen : u.conn.len = 0)
    (hrexmit : u.flags.rexmit = false) (hfit : len ≤ u.conn.mss) (hsize : len ≤ UIP_APPDATA_SIZE)
    (hdata : data.take len = text) (hle : len ≤ data.length) (hsends : s.uip.sends ≤ u.sends) :
    ∃ uip' replaced, uip'.conn = { u.conn with len } ∧
      s.output m app (uipSend u data len) =
        { app, messages := m, uip := uip', turn := .outside,
          wire := s.wire.send (.sendThread, text),
          replaced } := by
  have hlen' : (uipSend u data len).conn.len = 0 := by rwa [conn_uipSend]
  obtain ⟨uip', hconn, hout⟩ := output_first s m app (n := len) hlen' (by rwa [flags_uipSend])
    (by rw [slen_uipSend _ hpos, conn_uipSend, Nat.min_eq_left hfit]) hpos
  have howner : lastOwner s (uipSend u data len) = .sendThread := by
    rw [lastOwner, if_pos]
    rw [sends_uipSend _ hpos]
    exact Nat.lt_succ_of_le hsends
  rw [howner, appdata_uipSend hpos hle hsize, hdata] at hout
  exact ⟨uip', _, by rw [hconn, conn_uipSend], hout⟩

theorem output_repeat (s : IrcSystem) (m : Messages) (app : IrcState)
    {data : List UInt8} {len : Nat} (hpos : 0 < len) (hlen : s.uip.conn.len = len)
    (hack : s.uip.flags.acked = false) (hfit : len ≤ s.uip.conn.mss)
    (hsize : len ≤ UIP_APPDATA_SIZE) (hdata : data.take len = text) (hle : len ≤ data.length) :
    ∃ uip' replaced, uip'.conn = s.uip.conn ∧
      s.output m app (uipSend s.uip data (min len s.uip.conn.mss)) =
        { app, messages := m, uip := uip', turn := .outside,
          wire := s.wire.repeatLast (.sendThread, text), replaced } := by
  rw [Nat.min_eq_left hfit]
  have hlen' : (uipSend s.uip data len).conn.len = len := by rwa [conn_uipSend]
  obtain ⟨uip', hconn, hout⟩ :=
    output_again s m app hlen' (Nat.ne_of_gt hpos) (by rwa [flags_uipSend])
    (by rwa [slen_uipSend _ hpos])
  have howner : lastOwner s (uipSend s.uip data len) = .sendThread := by
    rw [lastOwner, if_pos]
    rw [sends_uipSend _ hpos]
    exact Nat.lt_succ_self _
  rw [howner, appdata_uipSend hpos hle hsize, hdata] at hout
  exact ⟨uip', _, by rw [hconn, conn_uipSend], hout⟩

theorem AtHand.size (h : AtHand s rest text) : text.length ≤ UIP_APPDATA_SIZE :=
  Nat.le_trans h.fits (by decide)

theorem AtHand.in_buffer (h : AtHand s rest text) :
    text.length ≤ s.messages.messagebuffer.cells.length := by
  rw [s.messages.messagebuffer.size]
  exact h.fits

section
variable (hr : (ircSendThread s.messages s.app s.uip).Returns (m, app, uip))
include hr

theorem send_queued (h : OutboxInv s) (hturn : s.turn = .sendThread) (hhand : AtHand s rest text)
    (hsender : SenderIdle s.app) (hclear : Clear s) (hin : InBuffer s text)
    (hstream : s.stream = wireText rest) (hfit : s.messages.messagelength ≤ s.uip.conn.mss) :
    OutboxInv (s.output m app uip) := by
  simp only [Clear, hturn] at hclear
  rw [hhand.length] at hfit
  obtain ⟨psockOut, hwaits, hreturns⟩ :=
    ircSendThread_start s.uip hsender.1 hsender.2 (hhand.length ▸ hhand.pos)
  rw [hhand.length, Nat.min_eq_left hfit] at hreturns
  rw [hhand.length] at hwaits
  obtain ⟨rfl, rfl, rfl⟩ : m = s.messages ∧ app = { s.app with psockOut } ∧ uip = _ := by
    simpa only [Prod.mk.injEq] using hr.unique hreturns
  obtain ⟨uip', replaced, hconn, hout⟩ := output_data s s.messages
    { s.app with psockOut } hhand.pos hclear.2 (hclear.1.rexmit_false hclear.2) hfit hhand.size
    hin hhand.in_buffer (Nat.le_refl _)
  rw [hout]
  refine ⟨?_, h.loop, by rw [hconn]; exact h.connected, h.repeats.send⟩
  refine .text ⟨hhand.queued, hhand.length, hhand.pos, hhand.fits⟩ hsender.1 hwaits
    (fun _ => by rw [hconn]) (fun _ => hin) (List.getLast?_concat ..) ?_
  rw [IrcSystem.stream, flatMap_send]
  exact congrArg (· ++ text) hstream

theorem send_text_waits (h : OutboxInv s) (hhand : AtHand s rest text)
    (hpt : s.app.outPt = .message) (hwaits : Waits s.app.psockOut (.messagebuffer 0) text.length)
    (hcalled : Called s.uip text.length) (hin : s.messages.displayed = false → InBuffer s text)
    (hlast : s.wire.first.getLast? = some (.sendThread, text))
    (hstream : s.stream = wireText rest ++ text) (hack : s.uip.flags.acked = false)
    (hfit : s.uip.flags.rexmit = true → s.messages.messagelength ≤ s.uip.conn.mss)
    (hdisplayed : s.uip.flags.rexmit = true → s.messages.displayed = false) :
    OutboxInv (s.output m app uip) := by
  have hconn := hcalled.len_of_not_acked hack
  have hhand' := hhand.length
  obtain ⟨rfl, rfl, rfl⟩ : m = s.messages ∧ app = s.app ∧ uip = _ := by
    simpa only [Prod.mk.injEq] using hr.unique (ircSendThread_wait hwaits hack)
  cases hrexmit : s.uip.flags.rexmit with
  | true =>
    rw [if_pos rfl]
    obtain ⟨uip', replaced, hconn', hout⟩ := output_repeat s s.messages s.app
      hhand.pos hconn hack (hhand' ▸ hfit hrexmit) hhand.size (hin (hdisplayed hrexmit))
        hhand.in_buffer
    rw [Sendptr.data, List.drop_zero, hout]
    refine ⟨?_, h.loop, by rw [hconn']; exact h.connected, h.repeats.repeatLast hlast fun _ => rfl⟩
    exact .text ⟨hhand.queued, hhand.length, hhand.pos, hhand.fits⟩ hpt hwaits
      (fun _ => by rw [hconn', hconn]) hin hlast hstream
  | false =>
    rw [if_neg Bool.false_ne_true, output_idle hcalled.slen]
    refine ⟨?_, h.loop, h.connected, h.repeats⟩
    exact .text ⟨hhand.queued, hhand.length, hhand.pos, hhand.fits⟩ hpt hwaits
      (fun _ => hconn) hin hlast
      hstream

theorem send_text_acked (h : OutboxInv s) (hhand : AtHand s rest text)
    (hpt : s.app.outPt = .message) (hwaits : Waits s.app.psockOut (.messagebuffer 0) text.length)
    (hcalled : Called s.uip text.length) (hstream : s.stream = wireText rest ++ text)
    (hack : s.uip.flags.acked = true) (hfit : crlf.length ≤ s.uip.conn.mss) :
    OutboxInv (s.output m app uip) := by
  have hconn := hcalled.ready.acked hack
  obtain ⟨psockOut, uip₁, hwaits', hlater, heq⟩ := ircSendThread_text_acked hpt hwaits hack hr
  rw [Nat.min_eq_left hfit] at heq
  obtain ⟨rfl, rfl, rfl⟩ : m = s.messages ∧ app = { s.app with psockOut, outPt := .crlf } ∧
      uip = _ := by
    simpa only [Prod.mk.injEq] using heq
  have hconn₁ : uip₁.conn = s.uip.conn := hlater.conn
  have hflags₁ : uip₁.flags = s.uip.flags := hlater.flags
  have hsends : s.uip.sends ≤ uip₁.sends := by
    rcases hlater.sends with heq | hlt
    · rw [heq]
    · exact Nat.le_of_lt hlt
  obtain ⟨uip', replaced, hconn', hout⟩ := output_data s s.messages
    { s.app with psockOut, outPt := .crlf } (u := uip₁) (show 0 < crlf.length by decide)
    (by rw [hconn₁, hconn]) (by rw [hflags₁, hcalled.ready.rexmit_false hconn]) (by rwa [hconn₁])
    (by decide) rfl (Nat.le_refl _) hsends
  rw [hout]
  refine ⟨?_, h.loop, by rw [hconn', hconn₁]; exact h.connected, h.repeats.send⟩
  refine .crlf ⟨hhand.queued, hhand.length, hhand.pos, hhand.fits⟩ rfl hwaits'
    (fun _ => by rw [hconn'])
    (List.getLast?_concat ..) ?_
  rw [wireText_concat, ← List.append_assoc, IrcSystem.stream, flatMap_send]
  exact congrArg (· ++ crlf) hstream

theorem send_crlf (h : OutboxInv s) (hhand : AtHand s rest text)
    (hpt : s.app.outPt = .crlf) (hwaits : Waits s.app.psockOut (.str crlf 0) crlf.length)
    (hcalled : Called s.uip crlf.length) (hlast : s.wire.first.getLast? = some (.sendThread, crlf))
    (hstream : s.stream = wireText (rest ++ [text]))
    (hfit : s.uip.flags.acked = true ∨ s.uip.flags.rexmit = true → crlf.length ≤ s.uip.conn.mss) :
    OutboxInv (s.output m app uip) := by
  cases hack : s.uip.flags.acked with
  | true =>
    obtain ⟨psockOut, hidle, hreturns⟩ :=
      ircSendThread_crlf_acked hpt hwaits hack (hfit (.inl hack))
    obtain ⟨rfl, rfl, rfl⟩ :
        m = { s.messages with messagelength := 0 } ∧
          app = { s.app with psockOut, outPt := .message } ∧
          uip = s.uip := by
      simpa only [Prod.mk.injEq] using hr.unique hreturns
    rw [output_idle hcalled.slen]
    refine ⟨?_, h.loop, h.connected, h.repeats⟩
    exact .idle rfl ⟨rfl, hidle⟩ (fun _ => hcalled.ready.acked hack) (hhand.queued ▸ hstream)
  | false =>
    have hconn := hcalled.len_of_not_acked hack
    obtain ⟨rfl, rfl, rfl⟩ : m = s.messages ∧ app = s.app ∧ uip = _ := by
      simpa only [Prod.mk.injEq] using hr.unique (ircSendThread_wait hwaits hack)
    have hhand' : ∀ {u : Uip} {w : Wire (Owner × List UInt8)} {b : Bool},
        AtHand { s with uip := u, turn := .outside, wire := w, replaced := b } rest text :=
      ⟨hhand.queued, hhand.length, hhand.pos, hhand.fits⟩
    cases hrexmit : s.uip.flags.rexmit with
    | true =>
      rw [if_pos rfl]
      obtain ⟨uip', replaced, hconn', hout⟩ := output_repeat s s.messages s.app
        (show 0 < crlf.length by decide) hconn hack (hfit (.inr hrexmit)) (by decide)
        (List.take_length (l := crlf)) (Nat.le_refl _)
      rw [Sendptr.data, List.drop_zero, hout]
      refine ⟨?_, h.loop, by rw [hconn']; exact h.connected, h.repeats.repeatLast hlast fun _ =>
        rfl⟩
      exact .crlf hhand' hpt hwaits (fun _ => by rw [hconn', hconn]) hlast hstream
    | false =>
      rw [if_neg Bool.false_ne_true, output_idle hcalled.slen]
      exact ⟨.crlf hhand' hpt hwaits (fun _ => hconn) hlast hstream, h.loop, h.connected, h.repeats⟩

end

theorem OutboxInv.send (h : OutboxInv s) (hturn : s.turn = .sendThread)
    (hlen : s.messages.messagelength ≠ 0) (hguard : MessagesClear s .sendThread)
    (hr : (ircSendThread s.messages s.app s.uip).Returns (m, app, uip)) :
    OutboxInv (s.output m app uip) := by
  obtain ⟨hfit, hdisplayed, hcrlf⟩ := hguard hlen
  cases h.phase with
  | idle hidle _ _ _ => exact absurd hidle hlen
  | queued hhand hsender hclear hin hstream =>
    exact send_queued hr h hturn hhand hsender hclear hin hstream (hfit hsender.1 (.inl hsender.2))
  | text hhand hpt hwaits hout hin hlast hstream =>
    simp only [Outstanding, hturn] at hout
    cases hack : s.uip.flags.acked with
    | true => exact send_text_acked hr h hhand hpt hwaits hout hstream hack (hcrlf (.inl hack))
    | false =>
      exact send_text_waits hr h hhand hpt hwaits hout hin hlast hstream hack
        (fun hrexmit => hfit hpt (.inr hrexmit)) (hdisplayed hpt)
  | crlf hhand hpt hwaits hout hlast hstream =>
    simp only [Outstanding, hturn] at hout
    exact send_crlf hr h hhand hpt hwaits hout hlast hstream hcrlf

-- ---------------------------------------------------------------------------
-- Every run
-- ---------------------------------------------------------------------------

theorem OutboxInv.step (h : OutboxInv s) (hstep : IrcStep s e t) (hguard : MessagesClear s e) :
    OutboxInv t := by
  cases hstep.kind with
  | submit text hturn hinput ht =>
    subst ht
    exact h.submit hturn hinput hguard
  | quiet _ uip hturn hstate hlen ht =>
    subst ht
    exact h.outside rfl ⟨rfl, rfl, rfl⟩ rfl ⟨hturn, hturn, .inl hstate, hlen⟩
  | close _ uip hturn hstate hlen ht =>
    subst ht
    exact h.outside rfl ⟨rfl, rfl, rfl⟩ rfl ⟨hturn, hturn, .inr hstate, hlen⟩
  | call _ uip hturn hstate hstate' hcalled ht =>
    subst ht
    exact h.call hturn hstate hstate' hcalled
  | synack _ uip hturn hsyn hstate' hcalled ht => exact absurd hsyn h.connected
  | thread go m app uip hturn hr ht =>
    subst ht
    exact h.thread hturn hguard hr
  | skip hturn hlen ht =>
    subst ht
    exact h.skip hturn hlen
  | send m app uip hturn hlen hr ht =>
    subst ht
    exact h.send hturn hlen hguard hr

theorem run_outboxInv {s₀ : IrcSystem} {es : List IrcEvent} (h₀ : LoggedIn s₀)
    (hrun : Run (Run.Guarded MessagesClear IrcStep) s₀ es s) : OutboxInv s :=
  hrun.guarded_invariant OutboxInv h₀.inv fun _ _ _ hclear hstep h => h.step hstep hclear

end FxIP
