import FxIP.Irc.Steps

/-!
# The login

`irc_thread` and `irc_send_thread` share the one pending segment and the one ack
of the connection. As long as `irc_send_thread` gets no turn while a login line
is being sent, the lines are sent whole, in order, and each in a segment of its
own. A message submitted at the wrong time takes the place of a line.
-/

namespace FxIP

def loginLines : List (List UInt8) := [nickLine, userLine, joinLine]

/-- How many lines were sent before the statement. -/
def IrcPt.lines : IrcPt → Nat
  | .nick => 0
  | .user => 1
  | .readto1 => 2
  | .join => 2
  | .readto2 => 3
  | .readto => 3
  | .parse => 3

def IrcPt.line : IrcPt → List UInt8
  | .nick => nickLine
  | .user => userLine
  | .join => joinLine
  | _ => []

def IrcState.linesSent (app : IrcState) : Nat :=
  app.pt.lines + if app.pt.line ≠ [] ∧ app.psock.psockpt = .wait then 1 else 0

/-- The segments of `irc_thread`, in the order of the stream. -/
def threadLines (w : Wire (Owner × List UInt8)) : List (List UInt8) :=
  (w.first.filter (·.1 = .thread)).map (·.2)

/-- The lines that count as sent are in the stream, each whole and in order;
each is repeated as it was; and no segment was lost to the other thread. -/
structure LoginIntact (s : IrcSystem) : Prop where
  lines : s.turn = .outside → threadLines s.wire = loginLines.take s.app.linesSent
  repeats : s.wire.Faithful (·.1 = .thread)
  kept : s.replaced = false

/-- `irc_send_thread` has a turn only where no line is being sent, or where all
it has left to do is to see its last segment acked. Until the last line is acked
the segments are large enough for what is sent. -/
def LoginClear (s : IrcSystem) : IrcEvent → Prop
  | .thread => s.app.psock.psockpt = .start ∨ s.uip.flags.acked = true ∨ s.uip.flags.rexmit = true →
      s.app.pt.line.length ≤ s.uip.conn.mss
  | .sendThread => s.messages.messagelength ≠ 0 →
      (s.app.pt.line = [] ∨ (s.app.outPt = .crlf ∧ s.uip.flags.acked = true)) ∧
      (s.app.pt.lines < loginLines.length → crlf.length ≤ s.uip.conn.mss)
  | _ => True

instance (s : IrcSystem) (e : IrcEvent) : Decidable (LoginClear s e) :=
  match e with
  | .thread => inferInstanceAs (Decidable (_ → _))
  | .sendThread => inferInstanceAs (Decidable (_ → _))
  | .submit _ | .frame _ | .synack _ _ | .segment _ _ _ | .timer | .close _ => .isTrue trivial

variable {s t : IrcSystem} {e : IrcEvent} {m : Messages} {app : IrcState} {uip : Uip} {k n : Nat}
variable {line data : List UInt8} {next : IrcPt} {w : Wire (Owner × List UInt8)}

theorem SendsLine.line_eq {pt : IrcPt} (h : SendsLine pt line next) : pt.line = line := by
  cases h <;> rfl

theorem SendsLine.take_succ {pt : IrcPt} (h : SendsLine pt line next) :
    loginLines.take (pt.lines + 1) = loginLines.take pt.lines ++ [line] := by
  cases h <;> rfl

theorem SendsLine.lines_next {pt : IrcPt} (h : SendsLine pt line next) :
    next.lines = pt.lines + 1 := by
  cases h <;> rfl

theorem SendsLine.next_cases {pt : IrcPt} (h : SendsLine pt line next) :
    next = .user ∨ next = .readto1 ∨ next = .readto2 := by
  cases h <;> simp

theorem SendsLine.length_le {pt : IrcPt} (h : SendsLine pt line next) :
    line.length ≤ UIP_APPDATA_SIZE := by
  cases h <;> decide

theorem SendsLine.linesSent_of_wait (h : SendsLine app.pt line next)
    (hwait : app.psock.psockpt = .wait) :
    app.linesSent = app.pt.lines + 1 := by
  have hline : app.pt.line ≠ [] := by
    rw [h.line_eq]
    exact List.ne_nil_of_length_pos h.length_pos
  rw [IrcState.linesSent, if_pos ⟨hline, hwait⟩]

theorem linesSent_of_line_nil (h : app.pt.line = []) : app.linesSent = app.pt.lines := by
  simp [IrcState.linesSent, h]

-- ---------------------------------------------------------------------------
-- The wire
-- ---------------------------------------------------------------------------

/-- `k` lines are on the wire. -/
structure WireOk (w : Wire (Owner × List UInt8)) (k : Nat) : Prop where
  lines : threadLines w = loginLines.take k
  repeats : w.Faithful (·.1 = .thread)

def LastBy (w : Wire (Owner × List UInt8)) (owner : Owner) : Prop :=
  ∃ data, w.first.getLast? = some (owner, data)

theorem lastBy_send (owner : Owner) (data : List UInt8) : LastBy (w.send (owner, data)) owner :=
  ⟨data, List.getLast?_concat ..⟩

theorem WireOk.sendLine {pt : IrcPt} (h : WireOk w pt.lines) (hline : SendsLine pt line next) :
    WireOk (w.send (.thread, line)) (pt.lines + 1) := by
  refine ⟨?_, h.repeats.send⟩
  rw [hline.take_succ, ← h.lines]
  simp [threadLines]

theorem WireOk.sendOther (h : WireOk w k) : WireOk (w.send (.sendThread, data)) k := by
  refine ⟨?_, h.repeats.send⟩
  rw [← h.lines]
  simp [threadLines]

theorem WireOk.repeatLine (h : WireOk w k) (hlast : w.first.getLast? = some (.thread, line)) :
    WireOk (w.repeatLast (.thread, line)) k :=
  ⟨h.lines, h.repeats.repeatLast hlast fun _ => rfl⟩

theorem WireOk.repeatOther {x : Owner × List UInt8} (h : WireOk w k)
    (hlast : LastBy w .sendThread) :
    WireOk (w.repeatLast x) k := by
  obtain ⟨data, hdata⟩ := hlast
  exact ⟨h.lines, h.repeats.repeatLast hdata fun howner => Owner.noConfusion howner⟩

-- ---------------------------------------------------------------------------
-- The phases of the login
-- ---------------------------------------------------------------------------

/-- `irc_send_thread` is at its beginning. -/
def SenderIdle (app : IrcState) : Prop := app.outPt = .message ∧ app.psockOut.psockpt = .start

/-- `irc_send_thread` has a segment outstanding. -/
structure SenderBusy (s : IrcSystem) : Prop where
  waits : ∃ buf len, Waits s.app.psockOut buf len ∧ 0 < len
  crlf : s.app.outPt = .crlf → Waits s.app.psockOut (.str FxIP.crlf 0) FxIP.crlf.length
  pending : s.messages.messagelength ≠ 0

/-- `n` bytes are outstanding, before or in a call. -/
def Outstanding (s : IrcSystem) (n : Nat) : Prop :=
  match s.turn with
  | .outside => s.uip.conn.tcpstate = .established → s.uip.conn.len = n
  | _ => Called s.uip n

def Clear (s : IrcSystem) : Prop :=
  match s.turn with
  | .outside => s.uip.conn.tcpstate = .established → s.uip.conn.len = 0
  | _ => Ready s.uip ∧ s.uip.conn.len = 0

/-- A step that stays outside a call keeps what is outstanding while the
connection is established. -/
structure StaysOutside (s t : IrcSystem) : Prop where
  before : s.turn = .outside
  after : t.turn = .outside
  state : t.uip.conn.tcpstate = s.uip.conn.tcpstate ∨ t.uip.conn.tcpstate = .closed
  len : t.uip.conn.len = s.uip.conn.len

theorem StaysOutside.established (h : StaysOutside s t)
    (hest : t.uip.conn.tcpstate = .established) :
    s.uip.conn.tcpstate = .established := by
  rcases h.state with heq | heq
  · exact heq ▸ hest
  · exact absurd (heq.symm.trans hest) TcpState.noConfusion

theorem StaysOutside.outstanding (h : StaysOutside s t) (hout : Outstanding s n) :
    Outstanding t n := by
  simp only [Outstanding, h.before, h.after] at hout ⊢
  exact fun hest => h.len.trans (hout (h.established hest))

theorem StaysOutside.clear (h : StaysOutside s t) (hclear : Clear s) : Clear t := by
  simp only [Clear, h.before, h.after] at hclear ⊢
  exact fun hest => h.len.trans (hclear (h.established hest))

theorem Outstanding.call (h : Outstanding s n) (hturn : s.turn = .outside)
    (hstate : s.uip.conn.tcpstate = .established) (hcalled : Called uip s.uip.conn.len) :
    Called uip n := by
  simp only [Outstanding, hturn] at h
  rwa [h hstate] at hcalled

theorem Clear.call (h : Clear s) (hturn : s.turn = .outside)
    (hstate : s.uip.conn.tcpstate = .established)
    (hcalled : Called uip s.uip.conn.len) : Ready uip ∧ uip.conn.len = 0 := by
  simp only [Clear, hturn] at h
  rw [h hstate] at hcalled
  exact ⟨hcalled.ready, hcalled.len.trans (ite_self 0)⟩

/-- A line is stored, to be sent when `irc_send_thread` had its turn. -/
structure Stored (uip : Uip) (line : List UInt8) : Prop where
  slen : uip.slen = line.length
  sends : uip.sends = 1
  data : uip.appdata.cells.take line.length = line
  fits : line.length ≤ uip.conn.mss

/-- Where the login is, with `k` lines on the wire. -/
inductive LoginPhase (s : IrcSystem) : Nat → Prop
  | connecting : s.turn = .outside → s.uip.conn.tcpstate ≠ .established → s.app.pt = .nick →
      s.app.psock.psockpt = .start → SenderIdle s.app → LoginPhase s 0
  | starts {line : List UInt8} {next : IrcPt} : s.turn = .thread → SendsLine s.app.pt line next →
      s.app.psock.psockpt = .start →
      SenderIdle s.app → Clear s → LoginPhase s s.app.pt.lines
  | interferes {n : Nat} : s.turn = .thread → s.app.pt = .join → s.app.psock.psockpt = .start →
      SenderBusy s → Called s.uip n → LoginPhase s 2
  | sent {line : List UInt8} {next : IrcPt} : SendsLine s.app.pt line next →
      Waits s.app.psock (.str line 0) line.length →
      SenderIdle s.app → Outstanding s line.length → s.wire.first.getLast? = some (.thread, line) →
      (s.turn = .sendThread → s.uip.flags.acked = false) → LoginPhase s (s.app.pt.lines + 1)
  | free : s.app.pt = .readto1 → SenderIdle s.app → Clear s → LoginPhase s 2
  | busy {n : Nat} : s.app.pt = .readto1 → SenderBusy s → Outstanding s n → n ≠ 0 →
      LastBy s.wire .sendThread → LoginPhase s 2
  | stored {line : List UInt8} {next : IrcPt} : s.turn = .sendThread →
      SendsLine s.app.pt line next →
      Waits s.app.psock (.str line 0) line.length → Stored s.uip line → SenderIdle s.app →
      s.uip.conn.len = 0 → s.uip.flags.rexmit = false → LoginPhase s s.app.pt.lines
  | storedAgain {line : List UInt8} {next : IrcPt} : s.turn = .sendThread →
      SendsLine s.app.pt line next →
      Waits s.app.psock (.str line 0) line.length → Stored s.uip line → SenderIdle s.app →
      s.uip.conn.len = line.length → s.uip.flags.acked = false →
      s.wire.first.getLast? = some (.thread, line) → LoginPhase s (s.app.pt.lines + 1)
  | storedLate : s.turn = .sendThread → s.app.pt = .join →
      Waits s.app.psock (.str joinLine 0) joinLine.length → Stored s.uip joinLine → SenderBusy s →
      (s.uip.flags.acked = true → s.uip.conn.len = 0) →
      (s.uip.flags.rexmit = true → s.uip.flags.acked = false) → LoginPhase s 2
  | joined : s.app.pt.lines = 3 → (s.turn ≠ .outside → Ready s.uip) →
      (s.uip.conn.len ≠ 0 → LastBy s.wire .sendThread) → LoginPhase s 3

structure LoginInv (s : IrcSystem) : Prop where
  wire : ∃ k, LoginPhase s k ∧ WireOk s.wire k
  kept : s.replaced = false
  synSent : s.uip.conn.tcpstate = .synSent →
    s.turn = .outside ∧ s.app.pt = .nick ∧ s.app.psock.psockpt = .start ∧ SenderIdle s.app ∧
      WireOk s.wire 0

theorem LoginInv.intact (h : LoginInv s) : LoginIntact s := by
  obtain ⟨k, hphase, hwire⟩ := h.wire
  refine ⟨fun hturn => ?_, hwire.repeats, h.kept⟩
  rw [hwire.lines]
  cases hphase with
  | connecting _ _ hpt hpsock _ => simp [IrcState.linesSent, hpt, hpsock, IrcPt.lines]
  | sent hsends hwaits _ _ _ _ => rw [hsends.linesSent_of_wait hwaits.psockpt]
  | free hpt _ _ => rw [linesSent_of_line_nil (by rw [hpt]; rfl), hpt]; rfl
  | busy hpt _ _ _ _ => rw [linesSent_of_line_nil (by rw [hpt]; rfl), hpt]; rfl
  | joined hpt _ _ =>
    have hline : s.app.pt.line = [] := by
      generalize s.app.pt = pt at hpt
      cases pt <;> first | rfl | cases hpt
    rw [linesSent_of_line_nil hline, hpt]
  | starts h' _ _ _ _ => exact absurd (hturn.symm.trans h') Turn.noConfusion
  | interferes h' _ _ _ _ => exact absurd (hturn.symm.trans h') Turn.noConfusion
  | stored h' _ _ _ _ _ _ => exact absurd (hturn.symm.trans h') Turn.noConfusion
  | storedAgain h' _ _ _ _ _ _ _ => exact absurd (hturn.symm.trans h') Turn.noConfusion
  | storedLate h' _ _ _ _ _ _ => exact absurd (hturn.symm.trans h') Turn.noConfusion

theorem loginInv_init (app : IrcState) (m : Messages) (appdata : Buffer UInt8 UIP_APPDATA_SIZE) :
    LoginInv (ircConnect app m appdata) := by
  have hwire : WireOk (ircConnect app m appdata).wire 0 := ⟨rfl, Wire.faithful_init⟩
  refine ⟨⟨0, .connecting rfl TcpState.noConfusion rfl rfl ⟨rfl, rfl⟩, hwire⟩, rfl, fun _ => ?_⟩
  exact ⟨rfl, rfl, rfl, ⟨rfl, rfl⟩, hwire⟩

-- ---------------------------------------------------------------------------
-- Steps outside a call
-- ---------------------------------------------------------------------------

structure SameThreads (s t : IrcSystem) : Prop where
  pt : t.app.pt = s.app.pt
  psock : t.app.psock = s.app.psock
  outPt : t.app.outPt = s.app.outPt
  psockOut : t.app.psockOut = s.app.psockOut
  wire : t.wire = s.wire
  replaced : t.replaced = s.replaced
  pending : s.messages.messagelength ≠ 0 → t.messages.messagelength ≠ 0

theorem SameThreads.idle (h : SameThreads s t) (hidle : SenderIdle s.app) : SenderIdle t.app := by
  rwa [SenderIdle, h.outPt, h.psockOut]

theorem SameThreads.busy (h : SameThreads s t) (hbusy : SenderBusy s) : SenderBusy t := by
  refine ⟨?_, ?_, h.pending hbusy.pending⟩
  · rw [h.psockOut]
    exact hbusy.waits
  · rw [h.outPt, h.psockOut]
    exact hbusy.crlf

theorem LoginInv.outside (h : LoginInv s) (hsame : SameThreads s t) (hstays : StaysOutside s t) :
    LoginInv t := by
  obtain ⟨⟨k, hphase, hwire⟩, hkept, hsyn⟩ := h
  refine ⟨⟨k, ?_, hsame.wire ▸ hwire⟩, hsame.replaced.trans hkept, ?_⟩
  · cases hphase with
    | connecting _ hno hpt hpsock hidle =>
      exact .connecting hstays.after (fun hest => hno (hstays.established hest))
        (hsame.pt.trans hpt)
        (hsame.psock ▸ hpsock) (hsame.idle hidle)
    | sent hsends hwaits hidle hout hlast _ =>
      rw [← hsame.pt] at hsends ⊢
      refine .sent hsends (hsame.psock ▸ hwaits) (hsame.idle hidle) (hstays.outstanding hout)
        (hsame.wire ▸ hlast) ?_
      rw [hstays.after]
      exact Turn.noConfusion
    | free hpt hidle hclear =>
      exact .free (hsame.pt.trans hpt) (hsame.idle hidle) (hstays.clear hclear)
    | busy hpt hbusy hout hn hlast =>
      exact .busy (hsame.pt.trans hpt) (hsame.busy hbusy) (hstays.outstanding hout) hn
        (hsame.wire ▸ hlast)
    | joined hpt _ hlast =>
      refine .joined (hsame.pt ▸ hpt) (fun hne => absurd hstays.after hne) ?_
      rw [hstays.len, hsame.wire]
      exact hlast
    | _ => exact absurd (hstays.before.symm.trans ‹s.turn = _›) Turn.noConfusion
  · intro hsyn'
    rcases hstays.state with heq | heq
    · obtain ⟨-, hpt, hpsock, hidle, hwire0⟩ := hsyn (heq ▸ hsyn')
      exact ⟨hstays.after, hsame.pt.trans hpt, hsame.psock ▸ hpsock, hsame.idle hidle,
        hsame.wire ▸ hwire0⟩
    · rw [heq] at hsyn'
      cases hsyn'

theorem LoginInv.call (h : LoginInv s) (hturn : s.turn = .outside)
    (hstate : s.uip.conn.tcpstate = .established) (hstate' : uip.conn.tcpstate = .established)
    (hcalled : Called uip s.uip.conn.len) : LoginInv { s with uip, turn := .thread } := by
  obtain ⟨⟨k, hphase, hwire⟩, hkept, -⟩ := h
  refine ⟨⟨k, ?_, hwire⟩, hkept, ?_⟩
  · cases hphase with
    | connecting _ hno _ _ _ => exact absurd hstate hno
    | sent hsends hwaits hidle hout hlast _ =>
      exact .sent (s := { s with uip, turn := .thread }) hsends hwaits hidle
        (hout.call hturn hstate hcalled)
        hlast Turn.noConfusion
    | free hpt hidle hclear => exact .free hpt hidle (hclear.call hturn hstate hcalled)
    | busy hpt hbusy hout hn hlast =>
      exact .busy hpt ⟨hbusy.waits, hbusy.crlf, hbusy.pending⟩ (hout.call hturn hstate hcalled) hn
        hlast
    | joined hpt _ hlast =>
      refine .joined hpt (fun _ => hcalled.ready) fun hlen => hlast fun hzero => hlen ?_
      rw [hcalled.len, hzero, ite_self]
    | _ => exact absurd (hturn.symm.trans ‹s.turn = _›) Turn.noConfusion
  · intro hsyn
    exact absurd (hstate'.symm.trans hsyn) TcpState.noConfusion

theorem LoginInv.synack (h : LoginInv s) (hsyn : s.uip.conn.tcpstate = .synSent)
    (hstate' : uip.conn.tcpstate = .established) (hcalled : Called uip 0) :
    LoginInv { s with uip, turn := .thread } := by
  obtain ⟨-, hpt, hpsock, hidle, hwire⟩ := h.synSent hsyn
  have hlen : uip.conn.len = 0 := hcalled.len.trans (ite_self 0)
  have hsends : SendsLine s.app.pt nickLine .user := hpt ▸ .nick
  have hlines : s.app.pt.lines = 0 := by
    rw [hpt]
    rfl
  refine ⟨⟨s.app.pt.lines, .starts rfl hsends hpsock hidle ⟨hcalled.ready, hlen⟩, hlines ▸ hwire⟩,
    h.kept, ?_⟩
  intro hsyn'
  exact absurd (hstate'.symm.trans hsyn') TcpState.noConfusion

-- ---------------------------------------------------------------------------
-- The turn of irc_thread
-- ---------------------------------------------------------------------------

def IrcSystem.afterThread (s : IrcSystem) (go : Bool) (m : Messages) (app : IrcState) (uip : Uip) :
    IrcSystem :=
  { s with messages := m, app, uip, turn := if go then .thread else .sendThread }

theorem step_thread {go : Bool} (hturn : s.turn = .thread)
    (hr : (ircThread s.messages s.app s.uip).Returns (some (go, m, app, uip))) :
    IrcStep s .thread (s.afterThread go m app uip) := by
  simp only [IrcStep, IrcSystem.step, if_pos hturn]
  exact hr.bind_pure rfl

theorem uipSend_stored (hpos : 0 < line.length) (hsize : line.length ≤ UIP_APPDATA_SIZE)
    (hfit : line.length ≤ uip.conn.mss) (hready : Ready uip) :
    Stored (uipSend uip line (min line.length uip.conn.mss)) line := by
  rw [Nat.min_eq_left hfit]
  refine ⟨slen_uipSend line hpos, ?_, ?_, ?_⟩
  · rw [sends_uipSend line hpos, hready.sends]
  · rw [appdata_uipSend hpos (Nat.le_refl _) hsize, List.take_length]
  · rwa [conn_uipSend]

section
variable {go : Bool} (hr : (ircThread s.messages s.app s.uip).Returns (some (go, m, app, uip)))
include hr

theorem thread_starts (hturn : s.turn = .thread) (hsends : SendsLine s.app.pt line next)
    (hpsock : s.app.psock.psockpt = .start)
    (hidle : SenderIdle s.app) (hclear : Clear s) (hfit : line.length ≤ s.uip.conn.mss) :
    LoginPhase (s.afterThread go m app uip) s.app.pt.lines ∧ uip.conn = s.uip.conn := by
  simp only [Clear, hturn] at hclear
  obtain ⟨hready, hlen⟩ := hclear
  obtain ⟨psock, hwaits, hreturns⟩ := ircThread_start s.messages s.uip hsends hpsock
  have heq := hr.unique hreturns
  simp only [Option.some.injEq, Prod.mk.injEq] at heq
  obtain ⟨rfl, rfl, rfl, rfl⟩ := heq
  refine ⟨?_, conn_uipSend line⟩
  refine .stored (s := s.afterThread _ _ _ _) rfl hsends hwaits
    (uipSend_stored hsends.length_pos hsends.length_le hfit hready) hidle ?_ ?_
  · exact (congrArg UipConn.len (conn_uipSend line)).trans hlen
  · exact (congrArg UipFlags.rexmit (flags_uipSend line)).trans (hready.rexmit_false hlen)

theorem thread_interferes (hpt : s.app.pt = .join) (hpsock : s.app.psock.psockpt = .start)
    (hbusy : SenderBusy s) (hcalled : Called s.uip n) (hfit : joinLine.length ≤ s.uip.conn.mss) :
    LoginPhase (s.afterThread go m app uip) 2 ∧ uip.conn = s.uip.conn := by
  have hsends : SendsLine s.app.pt joinLine .readto2 := hpt ▸ .join
  obtain ⟨psock, hwaits, hreturns⟩ := ircThread_start s.messages s.uip hsends hpsock
  have heq := hr.unique hreturns
  simp only [Option.some.injEq, Prod.mk.injEq] at heq
  obtain ⟨rfl, rfl, rfl, rfl⟩ := heq
  refine ⟨?_, conn_uipSend joinLine⟩
  refine .storedLate (s := s.afterThread _ _ _ _) rfl hpt hwaits
    (uipSend_stored hsends.length_pos hsends.length_le hfit hcalled.ready)
    ⟨hbusy.waits, hbusy.crlf, hbusy.pending⟩ ?_ ?_
  · simp only [IrcSystem.afterThread, flags_uipSend, conn_uipSend]
    exact hcalled.ready.acked
  · simp only [IrcSystem.afterThread, flags_uipSend]
    exact fun hrexmit => (hcalled.rexmit hrexmit).1

theorem thread_acked (hsends : SendsLine s.app.pt line next)
    (hwaits : Waits s.app.psock (.str line 0) line.length) (hidle : SenderIdle s.app)
    (hcalled : Called s.uip n) (hack : s.uip.flags.acked = true)
    (hfit : line.length ≤ s.uip.conn.mss) :
    LoginPhase (s.afterThread go m app uip) (s.app.pt.lines + 1) ∧ uip.conn = s.uip.conn := by
  obtain ⟨psock, hpsock, hreturns⟩ := ircThread_acked (m := s.messages) hsends hwaits hack hfit
  have heq := hr.unique hreturns
  simp only [Option.some.injEq, Prod.mk.injEq] at heq
  obtain ⟨rfl, rfl, rfl, rfl⟩ := heq
  have hlen : s.uip.conn.len = 0 := hcalled.ready.acked hack
  refine ⟨?_, rfl⟩
  rw [← hsends.lines_next]
  rcases hsends.next_cases with rfl | rfl | rfl
  · exact .starts (s := s.afterThread _ _ _ _) rfl .user hpsock hidle ⟨hcalled.ready, hlen⟩
  · exact .free rfl hidle ⟨hcalled.ready, hlen⟩
  · exact .joined rfl (fun _ => hcalled.ready) fun hne => absurd hlen hne

theorem thread_waits (hsends : SendsLine s.app.pt line next)
    (hwaits : Waits s.app.psock (.str line 0) line.length) (hidle : SenderIdle s.app)
    (hcalled : Called s.uip line.length) (hlast : s.wire.first.getLast? = some (.thread, line))
    (hack : s.uip.flags.acked = false)
    (hfit : s.uip.flags.rexmit = true → line.length ≤ s.uip.conn.mss) :
    LoginPhase (s.afterThread go m app uip) (s.app.pt.lines + 1) ∧ uip.conn = s.uip.conn := by
  have heq := hr.unique (ircThread_wait hsends hwaits hack)
  simp only [Option.some.injEq, Prod.mk.injEq] at heq
  obtain ⟨rfl, rfl, rfl, rfl⟩ := heq
  have hlen := hcalled.len_of_not_acked hack
  cases hrexmit : s.uip.flags.rexmit with
  | true =>
    rw [if_pos rfl]
    refine ⟨?_, conn_uipSend line⟩
    refine .storedAgain (s := s.afterThread _ _ _ _) rfl hsends hwaits
      (uipSend_stored hsends.length_pos hsends.length_le (hfit hrexmit) hcalled.ready)
        hidle ?_ ?_ hlast
    · exact (congrArg UipConn.len (conn_uipSend line)).trans hlen
    · exact (congrArg UipFlags.acked (flags_uipSend line)).trans hack
  | false =>
    rw [if_neg Bool.false_ne_true]
    exact ⟨.sent (s := s.afterThread _ _ _ _) hsends hwaits hidle hcalled hlast fun _ => hack, rfl⟩

theorem thread_free (hturn : s.turn = .thread) (hpt : s.app.pt = .readto1)
    (hidle : SenderIdle s.app)
    (hclear : Clear s) : LoginPhase (s.afterThread go m app uip) 2 ∧ uip.conn = s.uip.conn := by
  simp only [Clear, hturn] at hclear
  obtain ⟨go', psock, inputbuffer, hpsock, heq⟩ := ircThread_reads .readto1 hpt hr
  simp only [Option.some.injEq, Prod.mk.injEq] at heq
  obtain ⟨rfl, rfl, rfl, rfl⟩ := heq
  refine ⟨?_, rfl⟩
  cases go with
  | true => exact .starts (s := s.afterThread _ _ _ _) rfl .join (hpsock rfl) hidle hclear
  | false => exact .free rfl hidle hclear

theorem thread_busy (hturn : s.turn = .thread) (hpt : s.app.pt = .readto1) (hbusy : SenderBusy s)
    (hout : Outstanding s n) (hn : n ≠ 0) (hlast : LastBy s.wire .sendThread) :
    LoginPhase (s.afterThread go m app uip) 2 ∧ uip.conn = s.uip.conn := by
  simp only [Outstanding, hturn] at hout
  obtain ⟨go', psock, inputbuffer, hpsock, heq⟩ := ircThread_reads .readto1 hpt hr
  simp only [Option.some.injEq, Prod.mk.injEq] at heq
  obtain ⟨rfl, rfl, rfl, rfl⟩ := heq
  refine ⟨?_, rfl⟩
  cases go with
  | true =>
    exact .interferes (s := s.afterThread _ _ _ _) rfl rfl (hpsock rfl)
      ⟨hbusy.waits, hbusy.crlf, hbusy.pending⟩ hout
  | false => exact .busy rfl ⟨hbusy.waits, hbusy.crlf, hbusy.pending⟩ hout hn hlast

theorem thread_joined (hturn : s.turn = .thread) (hpt : s.app.pt.lines = 3)
    (hready : s.turn ≠ .outside → Ready s.uip)
    (hlast : s.uip.conn.len ≠ 0 → LastBy s.wire .sendThread) :
    LoginPhase (s.afterThread go m app uip) 3 ∧ uip.conn = s.uip.conn := by
  have hready' : Ready s.uip := hready (by rw [hturn]; exact Turn.noConfusion)
  cases hpt' : s.app.pt with
  | readto2 =>
    obtain ⟨go', psock, inputbuffer, -, heq⟩ := ircThread_reads .readto2 hpt' hr
    simp only [Option.some.injEq, Prod.mk.injEq] at heq
    obtain ⟨rfl, rfl, rfl, rfl⟩ := heq
    refine ⟨.joined ?_ (fun _ => hready') hlast, rfl⟩
    cases go <;> rfl
  | readto =>
    obtain ⟨go', psock, inputbuffer, -, heq⟩ := ircThread_reads .readto hpt' hr
    simp only [Option.some.injEq, Prod.mk.injEq] at heq
    obtain ⟨rfl, rfl, rfl, rfl⟩ := heq
    refine ⟨.joined ?_ (fun _ => hready') hlast, rfl⟩
    cases go <;> rfl
  | parse =>
    obtain ⟨a, -, ha⟩ := Option.map_eq_some_iff.mp (ircThread_parse hpt' hr).symm
    obtain ⟨rfl, rfl, rfl, rfl⟩ : true = go ∧ _ = m ∧ _ = app ∧ s.uip = uip := by
      simpa only [Prod.mk.injEq] using ha
    exact ⟨.joined rfl (fun _ => hready') hlast, rfl⟩
  | nick => simp [hpt', IrcPt.lines] at hpt
  | user => simp [hpt', IrcPt.lines] at hpt
  | readto1 => simp [hpt', IrcPt.lines] at hpt
  | join => simp [hpt', IrcPt.lines] at hpt

end

theorem LoginInv.thread (h : LoginInv s) (hturn : s.turn = .thread) (hfit : LoginClear s
    .thread) {go : Bool}
    (hr : (ircThread s.messages s.app s.uip).Returns (some (go, m, app, uip))) :
    LoginInv (s.afterThread go m app uip) := by
  obtain ⟨⟨k, hphase, hwire⟩, hkept, hsyn⟩ := h
  have hfits : ∀ {line next}, SendsLine s.app.pt line next →
      s.app.psock.psockpt = .start ∨ s.uip.flags.acked = true ∨ s.uip.flags.rexmit = true →
      line.length ≤ s.uip.conn.mss := by
    intro line next hsends
    rw [← hsends.line_eq]
    exact hfit
  have hgoal : LoginPhase (s.afterThread go m app uip) k ∧ uip.conn = s.uip.conn := by
    cases hphase with
    | starts _ hsends hpsock hidle hclear =>
      exact thread_starts hr hturn hsends hpsock hidle hclear (hfits hsends (.inl hpsock))
    | interferes _ hpt hpsock hbusy hcalled =>
      exact thread_interferes hr hpt hpsock
        hbusy hcalled (hfits (hpt.symm ▸ SendsLine.join) (.inl hpsock))
    | sent hsends hwaits hidle hout hlast _ =>
      simp only [Outstanding, hturn] at hout
      cases hack : s.uip.flags.acked with
      | true => exact thread_acked hr hsends hwaits hidle hout hack (hfits hsends
          (.inr (.inl hack)))
      | false =>
        exact thread_waits hr hsends hwaits hidle hout hlast hack fun hrexmit =>
          hfits hsends (.inr (.inr hrexmit))
    | free hpt hidle hclear => exact thread_free hr hturn hpt hidle hclear
    | busy hpt hbusy hout hn hlast => exact thread_busy hr hturn hpt hbusy hout hn hlast
    | joined hpt hready hlast => exact thread_joined hr hturn hpt hready hlast
    | _ => exact absurd (hturn.symm.trans ‹s.turn = _›) Turn.noConfusion
  refine ⟨⟨k, hgoal.1, hwire⟩, hkept, fun hsyn' => ?_⟩
  have houtside := (hsyn ((congrArg UipConn.tcpstate hgoal.2).symm.trans hsyn')).1
  exact absurd (hturn.symm.trans houtside) Turn.noConfusion

-- ---------------------------------------------------------------------------
-- The turn of irc_send_thread
-- ---------------------------------------------------------------------------

/-- The system after the call, with the invariant but for the state of the
connection. -/
structure AfterCall (s t : IrcSystem) : Prop where
  wire : ∃ k, LoginPhase t k ∧ WireOk t.wire k
  replaced : t.replaced = s.replaced
  tcpstate : t.uip.conn.tcpstate = s.uip.conn.tcpstate

theorem not_bothSend_self (s : IrcSystem) : ¬ BothSend s s.uip := fun h => Nat.lt_irrefl _ h.2

theorem not_bothSend (h : s.uip.sends = 0) : ¬ BothSend s uip := by
  rw [BothSend, h]
  exact fun h => Nat.lt_irrefl _ h.1

theorem replaced_of_not {P : Prop} [Decidable P] (b : Bool) (h : ¬ P) : (b || decide P) = b := by
  simp [h]

theorem output_line (hsends : SendsLine s.app.pt line next)
    (hwaits : Waits s.app.psock (.str line 0) line.length)
    (hstored : Stored s.uip line) (hpt : app.pt = s.app.pt) (hpsock : app.psock = s.app.psock)
    (hidle : SenderIdle app) (hlen : s.uip.conn.len = 0) (hrexmit : s.uip.flags.rexmit = false)
    (hwire : WireOk s.wire s.app.pt.lines) : AfterCall s (s.output m app s.uip) := by
  obtain ⟨uip', hconn, hout⟩ := output_first s m app (n := line.length) hlen hrexmit
    (by rw [hstored.slen, Nat.min_eq_left hstored.fits]) hsends.length_pos
  rw [lastOwner, if_neg (Nat.lt_irrefl _), hstored.data, replaced_of_not _ (not_bothSend_self s)]
    at hout
  rw [hout]
  refine ⟨⟨s.app.pt.lines + 1, ?_, hwire.sendLine hsends⟩, rfl, by rw [hconn]⟩
  rw [← hpt] at hsends ⊢
  exact .sent hsends (hpsock ▸ hwaits) hidle (fun _ => by rw [hconn]) (List.getLast?_concat ..)
    Turn.noConfusion

theorem LoginPhase.skip (h : LoginPhase s k) (hwire : WireOk s.wire k)
    (hturn : s.turn = .sendThread)
    (hlen : s.messages.messagelength = 0) : AfterCall s (s.output s.messages s.app s.uip) := by
  have hidle : s.uip.slen = 0 → ∀ {k}, WireOk s.wire k →
      LoginPhase { s with turn := .outside } k → AfterCall s (s.output s.messages s.app s.uip) := by
    intro hslen k hwire hphase
    rw [output_idle hslen, replaced_of_not _ (not_bothSend_self s)]
    exact ⟨⟨k, hphase, hwire⟩, rfl, rfl⟩
  cases h with
  | sent hsends hwaits hsender hout hlast hack =>
    simp only [Outstanding, hturn] at hout
    refine hidle hout.slen hwire (.sent (s := { s with turn := .outside }) hsends hwaits hsender
      (fun _ => ?_) hlast Turn.noConfusion)
    exact hout.len_of_not_acked (hack hturn)
  | free hpt hsender hclear =>
    simp only [Clear, hturn] at hclear
    exact hidle hclear.1.slen hwire (.free hpt hsender fun _ => hclear.2)
  | busy _ hbusy _ _ _ => exact absurd hlen hbusy.pending
  | stored _ hsends hwaits hstored hsender hlen' hrexmit =>
    exact output_line hsends hwaits hstored rfl rfl hsender hlen' hrexmit hwire
  | @storedAgain line next _ hsends hwaits hstored hsender hlen' hack hlast =>
    have hpos := hsends.length_pos
    obtain ⟨uip', hconn, hout⟩ := output_again s s.messages s.app hlen'
      (Nat.ne_of_gt hpos) hack (by rw [hstored.slen]; exact hpos)
    rw [lastOwner, if_neg (Nat.lt_irrefl _), hstored.data, replaced_of_not _ (not_bothSend_self s)]
      at hout
    rw [hout]
    refine ⟨⟨_, ?_, hwire.repeatLine hlast⟩, rfl, by rw [hconn]⟩
    exact .sent (s := { s with uip := uip', turn := .outside, wire := _ }) hsends hwaits hsender
      (fun _ => by rw [hconn, hlen']) hlast Turn.noConfusion
  | storedLate _ _ _ _ hbusy _ _ => exact absurd hlen hbusy.pending
  | joined hpt hready hlast =>
    have hready' : Ready s.uip := hready (by rw [hturn]; exact Turn.noConfusion)
    exact hidle hready'.slen hwire (.joined hpt (fun hne => absurd rfl hne) hlast)
  | _ => exact absurd (hturn.symm.trans ‹s.turn = _›) Turn.noConfusion

theorem output_busy (hpt : app.pt = .readto1)
    (hwaits : ∃ buf len, Waits app.psockOut buf len ∧ 0 < len)
    (hcrlf : app.outPt = .crlf → Waits app.psockOut (.str crlf 0) crlf.length)
    (hm : m.messagelength ≠ 0)
    (hlen : uip.conn.len = 0) (hrexmit : uip.flags.rexmit = false) (hslen : 0 < uip.slen)
    (hmss : 0 < uip.conn.mss) (hready : s.uip.sends = 0) (hsends : s.uip.sends < uip.sends)
    (hstate : uip.conn.tcpstate = s.uip.conn.tcpstate) (hwire : WireOk s.wire 2) :
    AfterCall s (s.output m app uip) := by
  have hn : 0 < min uip.slen uip.conn.mss := Nat.lt_min.mpr ⟨hslen, hmss⟩
  obtain ⟨uip', hconn, hout⟩ := output_first s m app hlen hrexmit rfl hn
  rw [lastOwner, if_pos hsends, replaced_of_not _ (not_bothSend hready)] at hout
  rw [hout]
  refine ⟨⟨2, ?_, hwire.sendOther⟩, rfl, by rw [hconn, hstate]⟩
  exact .busy hpt ⟨hwaits, hcrlf, hm⟩ (fun _ => by rw [hconn]) (Nat.ne_of_gt hn) (lastBy_send _ _)

section
variable (hr : (ircSendThread s.messages s.app s.uip).Returns (m, app, uip))
include hr

theorem send_free (hturn : s.turn = .sendThread) (hlen : s.messages.messagelength ≠ 0)
    (hpt : s.app.pt = .readto1) (hidle : SenderIdle s.app) (hclear : Clear s)
    (hmss : 0 < s.uip.conn.mss) (hwire : WireOk s.wire 2) : AfterCall s (s.output m app uip) := by
  simp only [Clear, hturn] at hclear
  obtain ⟨hready, hconn⟩ := hclear
  have hpos : 0 < s.messages.messagelength := Nat.pos_of_ne_zero hlen
  have hmin : 0 < min s.messages.messagelength s.uip.conn.mss := Nat.lt_min.mpr ⟨hpos, hmss⟩
  obtain ⟨psockOut, hwaits, hreturns⟩ := ircSendThread_start s.uip hidle.1 hidle.2 hpos
  obtain ⟨rfl, rfl, rfl⟩ : m = s.messages ∧ app = { s.app with psockOut } ∧ uip = _ := by
    simpa only [Prod.mk.injEq] using hr.unique hreturns
  refine output_busy hpt ⟨_, _, hwaits, hpos⟩ (fun hcrlf => ?_) hlen ?_ ?_ ?_ ?_
    hready.sends ?_ ?_ hwire
  · exact absurd (hidle.1.symm.trans hcrlf) IrcOutPt.noConfusion
  · rwa [conn_uipSend]
  · rw [flags_uipSend]
    exact hready.rexmit_false hconn
  · rwa [slen_uipSend _ hmin]
  · rwa [conn_uipSend]
  · rw [sends_uipSend _ hmin]
    exact Nat.lt_succ_self _
  · rw [conn_uipSend]

theorem send_busy_waits (hlen : s.messages.messagelength ≠ 0) (hpt : s.app.pt = .readto1)
    (hbusy : SenderBusy s) (hcalled : Called s.uip n) (hn : n ≠ 0)
    (hlast : LastBy s.wire .sendThread)
    (hack : s.uip.flags.acked = false) (hmss : 0 < s.uip.conn.mss) (hwire : WireOk s.wire 2) :
    AfterCall s (s.output m app uip) := by
  obtain ⟨buf, len, hwaits, hpos⟩ := hbusy.waits
  have hmin : 0 < min len s.uip.conn.mss := Nat.lt_min.mpr ⟨hpos, hmss⟩
  have hconn := hcalled.len_of_not_acked hack
  obtain ⟨rfl, rfl, rfl⟩ : m = s.messages ∧ app = s.app ∧ uip = _ := by
    simpa only [Prod.mk.injEq] using hr.unique (ircSendThread_wait hwaits hack)
  cases hrexmit : s.uip.flags.rexmit with
  | true =>
    rw [if_pos rfl]
    have hlen' : (uipSend s.uip (buf.data s.messages.messagebuffer.cells)
        (min len s.uip.conn.mss)).conn.len = n := by
      rw [conn_uipSend]
      exact hconn
    obtain ⟨uip', hconn', hout⟩ :=
      output_again s s.messages s.app hlen' hn (by rw [flags_uipSend]; exact hack)
      (by rwa [slen_uipSend _ hmin])
    rw [replaced_of_not _ (not_bothSend hcalled.sends)] at hout
    rw [hout]
    refine ⟨⟨2, ?_, hwire.repeatOther hlast⟩, rfl, by rw [hconn', conn_uipSend]⟩
    exact .busy hpt ⟨hbusy.waits, hbusy.crlf, hlen⟩
      (fun _ => by rw [hconn', conn_uipSend]; exact hconn) hn hlast
  | false =>
    rw [if_neg Bool.false_ne_true, output_idle hcalled.slen,
      replaced_of_not _ (not_bothSend_self s)]
    exact ⟨⟨2, .busy hpt ⟨hbusy.waits, hbusy.crlf, hlen⟩ (fun _ => hconn) hn hlast, hwire⟩, rfl,
      rfl⟩

theorem send_busy_acked (hlen : s.messages.messagelength ≠ 0) (hpt : s.app.pt = .readto1)
    (hbusy : SenderBusy s) (hcalled : Called s.uip n) (hack : s.uip.flags.acked = true)
    (hmss : crlf.length ≤ s.uip.conn.mss) (hwire : WireOk s.wire 2) :
    AfterCall s (s.output m app uip) := by
  have hconn := hcalled.ready.acked hack
  have hrexmit := hcalled.ready.rexmit_false hconn
  have hcrlf : 0 < crlf.length := by decide
  cases hout : s.app.outPt with
  | message =>
    obtain ⟨buf, len, hwaits, -⟩ := hbusy.waits
    obtain ⟨psockOut, uip', hwaits', hlater, heq⟩ := ircSendThread_text_acked hout hwaits hack hr
    obtain ⟨rfl, rfl, rfl⟩ : m = s.messages ∧ app = { s.app with psockOut, outPt := .crlf } ∧
        uip = _ := by
      simpa only [Prod.mk.injEq] using heq
    rw [Nat.min_eq_left hmss]
    refine output_busy hpt ⟨_, _, hwaits', hcrlf⟩ (fun _ => hwaits') hlen ?_ ?_ ?_ ?_
      hcalled.sends ?_ ?_ hwire
    · rwa [conn_uipSend, hlater.conn]
    · rwa [flags_uipSend, hlater.flags]
    · rwa [slen_uipSend _ hcrlf]
    · rw [conn_uipSend, hlater.conn]
      exact Nat.lt_of_lt_of_le hcrlf hmss
    · rw [sends_uipSend _ hcrlf, hcalled.sends]
      exact Nat.succ_pos _
    · rw [conn_uipSend, hlater.conn]
  | crlf =>
    obtain ⟨psockOut, hidle, hreturns⟩ := ircSendThread_crlf_acked hout (hbusy.crlf hout) hack hmss
    obtain ⟨rfl, rfl, rfl⟩ :
        m = { s.messages with messagelength := 0 } ∧
          app = { s.app with psockOut, outPt := .message } ∧
          uip = s.uip := by
      simpa only [Prod.mk.injEq] using hr.unique hreturns
    rw [output_idle hcalled.slen, replaced_of_not _ (not_bothSend_self s)]
    exact ⟨⟨2, .free hpt ⟨rfl, hidle⟩ fun _ => hconn, hwire⟩, rfl, rfl⟩

/-- The last line was stored in the same call in which the line end of a message
is acked. -/
theorem send_storedLate (hpt : s.app.pt = .join)
    (hwaits : Waits s.app.psock (.str joinLine 0) joinLine.length) (hstored : Stored s.uip joinLine)
    (hbusy : SenderBusy s) (hlen : s.uip.flags.acked = true → s.uip.conn.len = 0)
    (hrexmit : s.uip.flags.rexmit = true → s.uip.flags.acked = false)
    (hout : s.app.outPt = .crlf) (hack : s.uip.flags.acked = true)
    (hmss : crlf.length ≤ s.uip.conn.mss) (hwire : WireOk s.wire 2) :
    AfterCall s (s.output m app uip) := by
  have hsends : SendsLine s.app.pt joinLine .readto2 := hpt.symm ▸ SendsLine.join
  have hno : s.uip.flags.rexmit = false := by
    cases h : s.uip.flags.rexmit with
    | true => exact absurd (hack.symm.trans (hrexmit h)) Bool.noConfusion
    | false => rfl
  obtain ⟨psockOut, hidle, hreturns⟩ := ircSendThread_crlf_acked hout (hbusy.crlf hout) hack hmss
  obtain ⟨rfl, rfl, rfl⟩ :
      m = { s.messages with messagelength := 0 } ∧
        app = { s.app with psockOut, outPt := .message } ∧
        uip = s.uip := by
    simpa only [Prod.mk.injEq] using hr.unique hreturns
  refine output_line hsends hwaits hstored rfl rfl ⟨rfl, hidle⟩ (hlen hack) hno ?_
  rw [hpt]
  exact hwire

theorem send_joined (hpt : s.app.pt.lines = 3) (hready : Ready s.uip)
    (hlast : s.uip.conn.len ≠ 0 → LastBy s.wire .sendThread) (hwire : WireOk s.wire 3) :
    AfterCall s (s.output m app uip) := by
  obtain ⟨hlater, hpt', -⟩ := ircSendThread_later hr
  rcases hlater.sends with rfl | hsends
  · rw [output_idle hready.slen, replaced_of_not _ (not_bothSend_self s)]
    exact ⟨⟨3, .joined (hpt' ▸ hpt) (fun hne => absurd rfl hne) hlast, hwire⟩, rfl, rfl⟩
  · have hpt3 : app.pt.lines = 3 := (congrArg IrcPt.lines hpt').trans hpt
    have hconn : uip.conn = s.uip.conn := hlater.conn
    have hflags : uip.flags = s.uip.flags := hlater.flags
    rcases Nat.eq_zero_or_pos uip.slen with hslen | hslen
    · rw [output_idle hslen, replaced_of_not _ (not_bothSend hready.sends)]
      refine ⟨⟨3, .joined hpt3 (fun hne => absurd rfl hne) fun hne => hlast ?_, hwire⟩, rfl,
        congrArg UipConn.tcpstate hconn⟩
      rwa [← hconn]
    · obtain ⟨uip', wire', hstate, hout, hcases⟩ := output_cases s m app
        (by rw [hflags, hconn]; exact hready.acked) (by rw [hflags, hconn]; exact hready.rexmit)
          hslen
      rw [lastOwner, if_pos hsends] at hcases
      rw [replaced_of_not _ (not_bothSend hready.sends)] at hout
      rw [hout]
      refine ⟨⟨3, ?_⟩, rfl, hstate.trans (congrArg UipConn.tcpstate hconn)⟩
      rcases hcases with ⟨rfl, hzero⟩ | ⟨data, rfl⟩ | ⟨data, rfl, hne⟩
      · exact ⟨.joined hpt3 (fun hne => absurd rfl hne) fun hne => absurd hzero hne, hwire⟩
      · exact ⟨.joined hpt3 (fun hne => absurd rfl hne) fun _ => lastBy_send _ _, hwire.sendOther⟩
      · have hlast' := hlast (by rwa [← hconn])
        exact ⟨.joined hpt3 (fun hne => absurd rfl hne) fun _ => hlast', hwire.repeatOther hlast'⟩

end

theorem LoginPhase.send (h : LoginPhase s k) (hwire : WireOk s.wire k)
    (hturn : s.turn = .sendThread)
    (hlen : s.messages.messagelength ≠ 0) (hclear : LoginClear s .sendThread)
    (hr : (ircSendThread s.messages s.app s.uip).Returns (m, app, uip)) :
    AfterCall s (s.output m app uip) := by
  obtain ⟨hturnOk, hmss⟩ := hclear hlen
  have hcrlf : 0 < crlf.length := by decide
  -- a line is being sent: the guard leaves only the line end that is acked
  have hline : ∀ {line next}, SendsLine s.app.pt line next →
      s.app.outPt = .crlf ∧ s.uip.flags.acked = true := by
    intro line next hsends
    refine hturnOk.resolve_left ?_
    rw [hsends.line_eq]
    exact List.ne_nil_of_length_pos hsends.length_pos
  have hnotIdle : ∀ {line next}, SendsLine s.app.pt line next → ¬ SenderIdle s.app :=
    fun hsends hidle =>
    absurd (hidle.1.symm.trans (hline hsends).1) IrcOutPt.noConfusion
  cases h with
  | sent hsends _ hidle _ _ _ => exact absurd hidle (hnotIdle hsends)
  | stored _ hsends _ _ hidle _ _ => exact absurd hidle (hnotIdle hsends)
  | storedAgain _ hsends _ _ hidle _ _ _ => exact absurd hidle (hnotIdle hsends)
  | free hpt hidle hfree =>
    have hmss' := hmss (by rw [hpt]; decide)
    exact send_free hr hturn hlen hpt hidle hfree (Nat.lt_of_lt_of_le hcrlf hmss') hwire
  | busy hpt hbusy hout hn hlast =>
    have hmss' := hmss (by rw [hpt]; decide)
    simp only [Outstanding, hturn] at hout
    cases hack : s.uip.flags.acked with
    | true => exact send_busy_acked hr hlen hpt hbusy hout hack hmss' hwire
    | false =>
      exact send_busy_waits hr hlen hpt hbusy hout hn hlast hack (Nat.lt_of_lt_of_le hcrlf hmss')
        hwire
  | storedLate _ hpt hwaits hstored hbusy hconn hrexmit =>
    obtain ⟨hout, hack⟩ := hline (hpt.symm ▸ SendsLine.join)
    have hmss' := hmss (by rw [hpt]; decide)
    exact send_storedLate hr hpt hwaits hstored hbusy hconn hrexmit hout hack hmss' hwire
  | joined hpt hready hlast =>
    exact send_joined hr hpt (hready (by rw [hturn]; exact Turn.noConfusion)) hlast hwire
  | _ => exact absurd (hturn.symm.trans ‹s.turn = _›) Turn.noConfusion

theorem LoginInv.afterCall (h : LoginInv s) (hturn : s.turn = .sendThread)
    (hafter : AfterCall s t) :
    LoginInv t := by
  refine ⟨hafter.wire, hafter.replaced.trans h.kept, fun hsyn => ?_⟩
  have houtside := (h.synSent (hafter.tcpstate.symm.trans hsyn)).1
  exact absurd (hturn.symm.trans houtside) Turn.noConfusion

-- ---------------------------------------------------------------------------
-- Every run
-- ---------------------------------------------------------------------------

theorem submit_pending (m : Messages) {text : List UInt8} (h : IsInput text) :
    (uiPageIrcMessageSubmit m text).messagelength ≠ 0 := by
  have hlt : text.length < 128 := h.1
  have hlen : (privmsg text).length = 22 + text.length := List.length_append
  have hu : u16 (privmsg text).length = 22 + text.length := by
    simp only [u16]
    omega
  show min SIZEOF_MESSAGEBUFFER (u16 (privmsg text).length) ≠ 0
  rw [hu, SIZEOF_MESSAGEBUFFER]
  omega

theorem LoginInv.step (h : LoginInv s) (hstep : IrcStep s e t) (hclear : LoginClear s e) :
    LoginInv t := by
  cases hstep.kind with
  | submit text hturn hinput ht =>
    subst ht
    exact h.outside ⟨rfl, rfl, rfl, rfl, rfl, rfl, fun _ => submit_pending _ hinput⟩
      ⟨hturn, hturn, .inl rfl, rfl⟩
  | quiet _ uip hturn hstate hlen ht =>
    subst ht
    exact h.outside ⟨rfl, rfl, rfl, rfl, rfl, rfl, id⟩ ⟨hturn, hturn, .inl hstate, hlen⟩
  | close _ uip hturn hstate hlen ht =>
    subst ht
    exact h.outside ⟨rfl, rfl, rfl, rfl, rfl, rfl, id⟩ ⟨hturn, hturn, .inr hstate, hlen⟩
  | call _ uip hturn hstate hstate' hcalled ht =>
    subst ht
    exact h.call hturn hstate hstate' hcalled
  | synack _ uip hturn hsyn hstate' hcalled ht =>
    subst ht
    exact h.synack hsyn hstate' hcalled
  | thread go m app uip hturn hr ht =>
    subst ht
    exact h.thread hturn hclear hr
  | skip hturn hlen ht =>
    subst ht
    obtain ⟨k, hphase, hwire⟩ := h.wire
    exact h.afterCall hturn (hphase.skip hwire hturn hlen)
  | send m app uip hturn hlen hr ht =>
    subst ht
    obtain ⟨k, hphase, hwire⟩ := h.wire
    exact h.afterCall hturn (hphase.send hwire hturn hlen hclear hr)

/-- In a run from `irc_connect` in which `irc_send_thread` stays clear of the
login, the login is intact in every state. -/
theorem login_intact {app : IrcState} {m : Messages} {appdata : Buffer UInt8 UIP_APPDATA_SIZE}
    {es : List IrcEvent}
    (hrun : Run (Run.Guarded LoginClear IrcStep) (ircConnect app m appdata) es s) :
    LoginIntact s := by
  have hinv : LoginInv s :=
    hrun.guarded_invariant LoginInv (loginInv_init app m appdata) fun _ _ _ hclear hstep h =>
      h.step hstep hclear
  exact hinv.intact

/-- A login in which a message is submitted while the second line is unacked. -/
theorem login_intact_submit :
    let es : List IrcEvent := [
      .synack [] none, .thread, .sendThread,
      .segment true 0 [], .thread, .thread, .sendThread,
      .submit (ascii "hi"), .segment true 0 [], .thread, .thread, .sendThread,
      .segment true 0 [], .thread, .sendThread, .segment true 0 [], .thread, .sendThread,
      .segment false 0 (ascii ":a 001\r\n"), .thread, .thread, .sendThread]
    ∃ s, Run (Run.Guarded LoginClear IrcStep) (ircConnect .zero .zero (.fill _ 0)) es s ∧
      threadLines s.wire = loginLines ∧ LoginIntact s :=
  have hrun := Run.guarded_of_foldlM (C := LoginClear) (ircStep_of_stepRun (n := 4)) rfl
  ⟨_, hrun, rfl, login_intact hrun⟩

/-- A message submitted before the connection is established replaces the
first line, which is then counted as sent. -/
theorem submit_replaces_nick :
    ∃ s, Run IrcStep (ircConnect .zero .zero (.fill _ 0))
      [.submit (ascii "hi"), .synack [] none, .thread, .sendThread] s ∧
      s.wire.first = [(.sendThread, privmsg (ascii "hi"))] ∧ ¬ LoginIntact s := by
  refine ⟨_, (Run.of_foldlM (f := IrcSystem.stepRun 4) rfl).mono ircStep_of_stepRun, rfl,
    fun h => ?_⟩
  exact absurd h.kept (by decide)

end FxIP
