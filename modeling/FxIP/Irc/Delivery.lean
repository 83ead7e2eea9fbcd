import FxIP.Irc.Outbox

/-!
# Delivery

What is queued can always be delivered: while `irc_thread` waits for data, a
call for a timer or an ack leads through its turn to that of `irc_send_thread`,
and at most three such calls bring the message at hand into the stream.
-/

namespace FxIP

variable {p : Psock} {uip : Uip} {c : UInt8} {memory data : List UInt8} {buf : PsockBuf}
variable {s t : IrcSystem} {e : IrcEvent} {m : Messages} {app : IrcState} {n : Nat}

-- ---------------------------------------------------------------------------
-- Waiting for data
-- ---------------------------------------------------------------------------

def HasBuffer (p : Psock) : Prop := 0 < p.bufsize ∧ p.buf.left ≤ p.bufsize

theorem bufBufto_left (c : UInt8) (memory data : List UInt8) (h : buf.left ≤ n) (hn : 0 < n) :
    (bufBufto c memory buf data).2.2.1.left ≤ n ∧
      ((bufBufto c memory buf data).1.found = true →
        (bufBufto c memory buf data).2.2.1.left < n) := by
  induction data generalizing memory buf with
  | nil => exact ⟨h, Bool.noConfusion⟩
  | cons b data ih =>
    by_cases hleft : buf.left > 0
    · have hless : buf.left - 1 < n := by omega
      by_cases hb : b = c
      · simp only [bufBufto, if_pos hleft, if_pos hb]
        exact ⟨Nat.le_of_lt hless, fun _ => hless⟩
      · simp only [bufBufto, if_pos hleft, if_neg hb]
        exact ih _ (Nat.le_of_lt hless)
    · simp only [bufBufto, if_neg hleft]
      exact ⟨h, fun _ => by omega⟩

/-- What a round of `psock_readto` leaves. -/
def ReadtoOk : (List UInt8 × Psock) ⊕ (PtResult × List UInt8 × Psock) → Prop
  | .inl (_, p) => HasBuffer p
  | .inr (result, _, p) => HasBuffer p ∧ (result = .waiting → Reading p)

theorem psockReadtoBuf_ok (h : HasBuffer p) : ReadtoOk (psockReadtoBuf c memory p uip) := by
  obtain ⟨hsize, hleft⟩ := h
  obtain ⟨hle, hfound⟩ := bufBufto_left c memory
    ((uip.appdata.cells.drop p.readptr).take p.readlen) hleft hsize
  simp only [psockReadtoBuf]
  split
  · exact ⟨hsize, hle⟩
  · rename_i hmarker
    have hlt := hfound (by simpa using hmarker)
    split
    · rename_i hnone
      exact absurd (Nat.le_of_sub_eq_zero hnone) (Nat.not_le.mpr hlt)
    · exact ⟨⟨hsize, hle⟩, PtResult.noConfusion⟩

theorem psockReadtoWait_ok (c : UInt8) (memory : List UInt8) (uip : Uip) (h : HasBuffer p) :
    ReadtoOk (psockReadtoWait c memory p uip) := by
  simp only [psockReadtoWait]
  split
  · apply psockReadtoBuf_ok
    simp only [psockNewdata]
    split
    · exact h
    · split <;> exact h
  · rename_i hnew
    have hreadlen : p.readlen = 0 := by
      by_contra hne
      exact hnew (by rw [psockNewdata, if_pos (Nat.pos_of_ne_zero hne)])
    have hpos : ¬ p.readlen > 0 := by omega
    simp only [psockNewdata, if_neg hpos]
    split
    · exact ⟨h, fun _ => ⟨rfl, hreadlen, h.1, h.2⟩⟩
    · exact ⟨h, fun _ => ⟨rfl, hreadlen, h.1, h.2⟩⟩

theorem psockReadto_ok {r : PtResult × List UInt8 × Psock} (h : HasBuffer p)
    (hr : (psockReadto c memory p uip).Returns r) : ReadtoOk (.inr r) := by
  have hround : ∀ s : List UInt8 × Psock, HasBuffer s.2 → ReadtoOk (psockReadtoRound c uip s) := by
    rintro ⟨memory, q⟩ hq
    simp only [psockReadtoRound]
    split
    · exact psockReadtoWait_ok c memory uip hq
    · exact psockReadtoBuf_ok hq
  have hloop : ∀ s : List UInt8 × Psock, HasBuffer s.2 → (psockReadtoLoop c uip s).Returns r →
      ReadtoOk (.inr r) := by
    intro s hs hr
    refine Comp.Returns.loop_invariant (fun s => HasBuffer s.2) (fun r => ReadtoOk (.inr r)) ?_ ?_
      hs hr
    · intro s s' hs hs'
      have hok := hround s hs
      rw [Comp.returns_pure.mp hs'] at hok
      exact hok
    · intro s r hs hr
      have hok := hround s hs
      rw [Comp.returns_pure.mp hr] at hok
      exact hok
  unfold psockReadto at hr
  split at hr
  · exact hloop _ ⟨h.1, Nat.le_refl _⟩ hr
  · have hwait := psockReadtoWait_ok c memory uip h
    split at hr
    · rename_i again heq
      rw [heq] at hwait
      exact hloop _ hwait hr
    · rename_i result heq
      rw [heq] at hwait
      obtain rfl := Comp.returns_pure.mp hr
      exact hwait

theorem psockReadto_waits (c : UInt8) (memory : List UInt8) (h : Reading p)
    (hnew : uip.flags.newdata = false) :
    ∃ psock, Reading psock ∧ (psockReadto c memory p uip).Returns (.waiting, memory, psock) := by
  have hpos : ¬ p.readlen > 0 := by
    rw [h.readlen]
    exact Nat.lt_irrefl 0
  by_cases hstate : p.state = .read
  · refine ⟨{ p with state := .blockedNewdata, psockpt := .wait },
      ⟨rfl, h.readlen, h.bufsize, h.left⟩, ?_⟩
    simp only [psockReadto, h.psockpt, psockReadtoWait, psockNewdata, if_neg hpos, if_pos hstate]
    exact Comp.returns_pure.mpr rfl
  · refine ⟨{ p with psockpt := .wait }, ⟨rfl, h.readlen, h.bufsize, h.left⟩, ?_⟩
    simp only [psockReadto, h.psockpt, psockReadtoWait, psockNewdata, if_neg hpos,
      if_neg hstate, hnew]
    exact Comp.returns_pure.mpr rfl

-- ---------------------------------------------------------------------------
-- irc_thread waits outside its turn
-- ---------------------------------------------------------------------------

structure ReadingInv (s : IrcSystem) : Prop where
  buffer : HasBuffer s.app.psock
  waits : s.turn ≠ .thread → s.app.pt = .readto ∧ Reading s.app.psock

theorem LoggedIn.reading_inv (h : LoggedIn s) : ReadingInv s :=
  ⟨⟨h.reading.bufsize, h.reading.left⟩, fun _ => ⟨h.pt, h.reading⟩⟩

theorem ReadingInv.thread (h : ReadingInv s) (hloop : s.app.pt = .readto ∨ s.app.pt = .parse)
    {go : Bool} (hr : (ircThread s.messages s.app s.uip).Returns (some (go, m, app, uip))) :
    ReadingInv (s.afterThread go m app uip) := by
  rcases hloop with hpt | hpt
  · obtain ⟨result, inputbuffer, psock, hread, heq⟩ := (ircThread_readto .readto hpt).mp hr
    obtain ⟨hbuffer, hwaits⟩ := psockReadto_ok h.buffer hread
    by_cases hwaiting : result = .waiting
    · rw [if_pos hwaiting] at heq
      simp only [Option.some.injEq, Prod.mk.injEq] at heq
      obtain ⟨rfl, rfl, rfl, rfl⟩ := heq
      exact ⟨hbuffer, fun _ => ⟨hpt, hwaits hwaiting⟩⟩
    · rw [if_neg hwaiting] at heq
      simp only [Option.some.injEq, Prod.mk.injEq] at heq
      obtain ⟨rfl, rfl, rfl, rfl⟩ := heq
      exact ⟨hbuffer, fun hne => absurd rfl hne⟩
  · obtain ⟨a, -, heq⟩ := Option.map_eq_some_iff.mp (ircThread_parse hpt hr).symm
    obtain ⟨rfl, rfl, rfl, rfl⟩ : true = go ∧ _ = m ∧ _ = app ∧ s.uip = uip := by
      simpa only [Prod.mk.injEq] using heq
    exact ⟨h.buffer, fun hne => absurd rfl hne⟩

theorem ReadingInv.step (h : ReadingInv s) (hinv : OutboxInv s) (hstep : IrcStep s e t) :
    ReadingInv t := by
  cases hstep.kind with
  | submit text hturn hinput ht =>
    subst ht
    exact ⟨h.buffer, h.waits⟩
  | quiet _ uip hturn hstate hlen ht =>
    subst ht
    exact ⟨h.buffer, h.waits⟩
  | close _ uip hturn hstate hlen ht =>
    subst ht
    exact ⟨h.buffer, h.waits⟩
  | call _ uip hturn hstate hstate' hcalled ht =>
    subst ht
    exact ⟨h.buffer, fun hne => absurd rfl hne⟩
  | synack _ uip hturn hsyn hstate' hcalled ht =>
    subst ht
    exact ⟨h.buffer, fun hne => absurd rfl hne⟩
  | thread go m app uip hturn hr ht =>
    subst ht
    exact h.thread hinv.loop hr
  | skip hturn hlen ht =>
    subst ht
    exact ⟨h.buffer, fun _ => h.waits (by rw [hturn]; exact Turn.noConfusion)⟩
  | send m app uip hturn hlen hr ht =>
    subst ht
    obtain ⟨-, hpt, hpsock⟩ := ircSendThread_later hr
    have hwaits := h.waits (by rw [hturn]; exact Turn.noConfusion)
    rw [← hpt, ← hpsock] at hwaits
    exact ⟨hpsock ▸ h.buffer, fun _ => hwaits⟩

theorem run_invs {es : List IrcEvent} (hinv : OutboxInv s) (hreading : ReadingInv s)
    (hrun : Run (Run.Guarded MessagesClear IrcStep) s es t) : OutboxInv t ∧ ReadingInv t :=
  hrun.guarded_invariant (fun t => OutboxInv t ∧ ReadingInv t) ⟨hinv, hreading⟩
    fun _ _ _ hclear hstep h => ⟨h.1.step hstep hclear, h.2.step h.1 hstep⟩

-- ---------------------------------------------------------------------------
-- A call
-- ---------------------------------------------------------------------------

/-- A state in which the application can be called, and what it sends fits. -/
structure Callable (s : IrcSystem) : Prop where
  inv : OutboxInv s
  reading : ReadingInv s
  turn : s.turn = .outside
  established : s.uip.conn.tcpstate = .established
  mss : SIZEOF_MESSAGEBUFFER ≤ s.uip.conn.mss
  initialmss : SIZEOF_MESSAGEBUFFER ≤ s.uip.conn.initialmss

def IrcSystem.sendTurn (s : IrcSystem) (psock : Psock) (uip : Uip) : IrcSystem :=
  { s with app := { s.app with psock }, uip, turn := .sendThread }

theorem Callable.turns (h : Callable s) (hstep : IrcStep s e { s with uip, turn := .thread })
    (hguard : MessagesClear s e) (hnew : uip.flags.newdata = false) :
    ∃ psock, Run (Run.Guarded MessagesClear IrcStep) s [e, .thread] (s.sendTurn psock uip) := by
  obtain ⟨hpt, hreading⟩ := h.reading.waits (by rw [h.turn]; exact Turn.noConfusion)
  obtain ⟨psock, -, hreads⟩ := psockReadto_waits 0x0A s.app.inputbuffer hreading hnew
  have hthread : (ircThread s.messages s.app uip).Returns
      (some (false, s.messages, { s.app with psock }, uip)) :=
    (ircThread_readto .readto hpt).mpr ⟨.waiting, s.app.inputbuffer, psock, hreads, rfl⟩
  have hsecond := step_thread (s := { s with uip, turn := .thread }) rfl hthread
  refine ⟨psock, (Run.nil.snoc ⟨hguard, hstep⟩).snoc ⟨?_, hsecond⟩⟩
  intro hparse
  exact absurd (hpt.symm.trans hparse) IrcPt.noConfusion

theorem output_conn (s : IrcSystem) (m : Messages) (app : IrcState) (uip : Uip) :
    ∃ len, (s.output m app uip).uip.conn = { uip.conn with len } := by
  simp only [IrcSystem.output, uipOutput, uipAppsend]
  repeat' split
  all_goals exact ⟨_, rfl⟩

theorem Callable.called (h : Callable s) (hstep : IrcStep s e { s with uip, turn := .thread })
    (hguard : MessagesClear s e) (hnew : uip.flags.newdata = false)
      (hrexmit : uip.flags.rexmit = false)
    (hstate : uip.conn.tcpstate = .established) (hmss : SIZEOF_MESSAGEBUFFER ≤ uip.conn.mss)
    (hinitial : uip.conn.initialmss = s.uip.conn.initialmss)
    (hlen : s.messages.messagelength ≠ 0) (hsize : s.messages.messagelength ≤ SIZEOF_MESSAGEBUFFER)
    {P : Messages → IrcState → Prop}
    (hsend : ∀ psock, ∃ m app uip', (ircSendThread s.messages { s.app with psock } uip).Returns
      (m, app, uip') ∧
      P m app) :
    ∃ t, Run (Run.Guarded MessagesClear IrcStep) s [e, .thread, .sendThread] t ∧ Callable t ∧
      P t.messages t.app := by
  obtain ⟨psock, hrun⟩ := h.turns hstep hguard hnew
  obtain ⟨m, app, uip', hreturns, hP⟩ := hsend psock
  have hlast : IrcStep (s.sendTurn psock uip) .sendThread
      ((s.sendTurn psock uip).output m app uip') :=
    step_sendThread rfl hlen hreturns
  have hclear : MessagesClear (s.sendTurn psock uip) .sendThread := by
    refine fun _ => ⟨fun _ _ => Nat.le_trans hsize hmss, fun _ hr => ?_, fun _ => ?_⟩
    · exact absurd (hrexmit.symm.trans hr) Bool.false_ne_true
    · exact Nat.le_trans (by decide) hmss
  have hall := hrun.snoc ⟨hclear, hlast⟩
  have hinv := run_invs h.inv h.reading hall
  obtain ⟨hlater, -⟩ := ircSendThread_later hreturns
  have hconn : uip'.conn = uip.conn := hlater.conn
  obtain ⟨len, hout⟩ := output_conn (s.sendTurn psock uip) m app uip'
  rw [hconn] at hout
  refine ⟨_, hall, ⟨hinv.1, hinv.2, rfl, ?_, ?_, ?_⟩, hP⟩
  · rw [hout, hstate]
  · rw [hout]
    exact hmss
  · rw [hout]
    exact hinitial ▸ h.initialmss

/-- What is outstanding can be acked, and the segment size is the first again. -/
theorem Callable.ack {n : Nat} (h : Callable s) (hout : Outstanding s n) (hpos : 0 < n) :
    IrcStep s (.segment true 0 []) { s with uip := uipSegment s.uip true 0 [], turn := .thread } ∧
      (uipSegment s.uip true 0 []).flags.acked = true ∧
      SIZEOF_MESSAGEBUFFER ≤ (uipSegment s.uip true 0 []).conn.mss := by
  simp only [Outstanding, h.turn] at hout
  have hne : s.uip.conn.len ≠ 0 := by
    rw [hout h.established]
    exact Nat.ne_of_gt hpos
  have hacked : (uipSegment s.uip true 0 []).flags.acked = true := decide_eq_true hne
  refine ⟨?_, hacked, ?_⟩
  · simp only [IrcStep, IrcSystem.step, h.turn, h.established, and_self, if_true, hacked,
      Bool.true_or]
    rw [call_eq rfl]
    exact Comp.returns_pure.mpr rfl
  · simp only [uipSegment, uipCall, uipReceive, or_true, if_true]
    exact h.initialmss

theorem Callable.timer (h : Callable s) (hout : s.uip.conn.len = 0) :
    IrcStep s .timer { s with uip := uipTimer s.uip, turn := .thread } ∧
      (uipTimer s.uip).flags = { poll := true } := by
  have hpoll : (uipTimer s.uip).flags = { poll := true } := by
    simp [uipTimer, uipOutstanding, hout, uipCall]
  refine ⟨?_, hpoll⟩
  simp only [IrcStep, IrcSystem.step, h.turn, h.established, and_self, if_true]
  rw [call_eq (by rw [hpoll]; rfl)]
  exact Comp.returns_pure.mpr rfl

-- ---------------------------------------------------------------------------
-- The message at hand is brought into the stream
-- ---------------------------------------------------------------------------

variable {rest : List (List UInt8)} {text : List UInt8}

theorem AtHand.ne_zero (h : AtHand s rest text) : s.messages.messagelength ≠ 0 := by
  rw [h.length]
  exact Nat.ne_of_gt h.pos

theorem AtHand.le_size (h : AtHand s rest text) :
    s.messages.messagelength ≤ SIZEOF_MESSAGEBUFFER := by
  rw [h.length]
  exact h.fits

def Drains (s : IrcSystem) : Prop :=
  ∃ fs t, Run (Run.Guarded MessagesClear IrcStep) s fs t ∧
    t.messages.queued = s.messages.queued ∧ t.messages.messagelength = 0

theorem Drains.of_run {fs : List IrcEvent} (hrun : Run (Run.Guarded MessagesClear IrcStep) s fs t)
    (hqueued : t.messages.queued = s.messages.queued) (h : Drains t) : Drains s := by
  obtain ⟨gs, u, hrun', hqueued', hzero⟩ := h
  exact ⟨fs ++ gs, u, hrun.append hrun', hqueued'.trans hqueued, hzero⟩

theorem Callable.drains_crlf (h : Callable s) (hhand : AtHand s rest text)
    (hpt : s.app.outPt = .crlf)
    (hwaits : Waits s.app.psockOut (.str crlf 0) crlf.length) (hout : Outstanding s crlf.length) :
    Drains s := by
  obtain ⟨hstep, hacked, hmss⟩ := h.ack hout (by decide)
  obtain ⟨t, hrun, -, hqueued, hzero⟩ :=
    h.called hstep trivial rfl rfl h.established hmss rfl hhand.ne_zero
    hhand.le_size (P := fun m _ => m.queued = s.messages.queued ∧ m.messagelength = 0) (by
      intro psock
      have hpt' : ({ s.app with psock } : IrcState).outPt = .crlf := hpt
      obtain ⟨psockOut, -, hreturns⟩ :=
        ircSendThread_crlf_acked (m := s.messages) hpt' hwaits hacked
        (Nat.le_trans (by decide) hmss)
      exact ⟨_, _, _, hreturns, rfl, rfl⟩)
  exact ⟨_, t, hrun, hqueued, hzero⟩

theorem Callable.drains_text (h : Callable s) (hhand : AtHand s rest text)
    (hpt : s.app.outPt = .message) (hwaits : Waits s.app.psockOut (.messagebuffer 0) text.length)
    (hout : Outstanding s text.length) :
    Drains s := by
  obtain ⟨hstep, hacked, hmss⟩ := h.ack hout hhand.pos
  obtain ⟨t, hrun, ht, hmessages, hcrlf⟩ :=
    h.called hstep trivial rfl rfl h.established hmss rfl hhand.ne_zero
    hhand.le_size (P := fun m app => m = s.messages ∧ app.outPt = .crlf) (by
      intro psock
      have hpt' : ({ s.app with psock } : IrcState).outPt = .message := hpt
      obtain ⟨r, hr⟩ := ircSendThread_text_returns (m := s.messages) hpt' hwaits hacked
        (Nat.le_trans hhand.fits hmss)
      obtain ⟨psockOut, uip', -, -, rfl⟩ := ircSendThread_text_acked hpt' hwaits hacked hr
      exact ⟨_, _, _, hr, rfl, rfl⟩)
  refine .of_run hrun (congrArg Messages.queued hmessages) ?_
  cases ht.inv.phase with
  | idle hidle _ _ _ => exact absurd (hmessages ▸ hidle) hhand.ne_zero
  | queued _ hsender _ _ _ => exact absurd (hsender.1.symm.trans hcrlf) IrcOutPt.noConfusion
  | text _ hpt' _ _ _ _ _ => exact absurd (hpt'.symm.trans hcrlf) IrcOutPt.noConfusion
  | crlf hhand' hpt' hwaits' hout' _ _ => exact ht.drains_crlf hhand' hpt' hwaits' hout'

theorem Callable.drains_queued (h : Callable s) (hhand : AtHand s rest text)
    (hsender : SenderIdle s.app) (hclear : Clear s) : Drains s := by
  simp only [Clear, h.turn] at hclear
  obtain ⟨hstep, hflags⟩ := h.timer (hclear h.established)
  have hlen : 0 < s.messages.messagelength := Nat.pos_of_ne_zero hhand.ne_zero
  obtain ⟨t, hrun, ht, hmessages, hpt, hwait⟩ :=
    h.called hstep trivial (by rw [hflags]) (by rw [hflags])
    h.established h.mss rfl hhand.ne_zero hhand.le_size
    (P := fun m app => m = s.messages ∧ app.outPt = .message ∧ app.psockOut.psockpt = .wait) (by
      intro psock
      have hpt' : ({ s.app with psock } : IrcState).outPt = .message := hsender.1
      obtain ⟨psockOut, hwaits, hreturns⟩ :=
        ircSendThread_start (uipTimer s.uip) hpt' hsender.2 hlen
      exact ⟨_, _, _, hreturns, rfl, hsender.1, hwaits.psockpt⟩)
  refine .of_run hrun (congrArg Messages.queued hmessages) ?_
  cases ht.inv.phase with
  | idle hidle _ _ _ => exact absurd (hmessages ▸ hidle) hhand.ne_zero
  | queued _ hsender' _ _ _ => exact absurd (hsender'.2.symm.trans hwait) Psockpt.noConfusion
  | text hhand' hpt' hwaits' hout' _ _ _ => exact ht.drains_text hhand' hpt' hwaits' hout'
  | crlf _ hpt' _ _ _ _ => exact absurd (hpt.symm.trans hpt') IrcOutPt.noConfusion

theorem Callable.drains (h : Callable s) : Drains s := by
  cases h.inv.phase with
  | idle hidle _ _ _ => exact ⟨[], s, .nil, rfl, hidle⟩
  | queued hhand hsender hclear _ _ => exact h.drains_queued hhand hsender hclear
  | text hhand hpt hwaits hout _ _ _ => exact h.drains_text hhand hpt hwaits hout
  | crlf hhand hpt hwaits hout _ _ => exact h.drains_crlf hhand hpt hwaits hout

/-- In a run after the login that keeps clear of the message at hand, all
messages are intact in every state. Where a call can be made and segments hold
a full buffer, calls lead to a state with everything queued in the stream. -/
theorem messages_intact {s₀ : IrcSystem} {es : List IrcEvent} (h₀ : LoggedIn s₀)
    (hrun : Run (Run.Guarded MessagesClear IrcStep) s₀ es s) :
    MessagesIntact s ∧
      (s.turn = .outside → s.uip.conn.tcpstate = .established →
        SIZEOF_MESSAGEBUFFER ≤ s.uip.conn.mss →
        SIZEOF_MESSAGEBUFFER ≤ s.uip.conn.initialmss →
        ∃ fs t, Run (Run.Guarded MessagesClear IrcStep) s fs t ∧
          t.messages.queued = s.messages.queued ∧ t.stream = wireText s.messages.queued) := by
  have hinv := run_invs h₀.inv h₀.reading_inv hrun
  refine ⟨hinv.1.intact, fun hturn hstate hmss hinitial => ?_⟩
  obtain ⟨fs, t, hrun', hqueued, hzero⟩ :=
    Callable.drains ⟨hinv.1, hinv.2, hturn, hstate, hmss, hinitial⟩
  have hinv' : OutboxInv t := run_outboxInv h₀ (hrun.append hrun')
  exact ⟨fs, t, hrun', hqueued, hqueued ▸ hinv'.intact.done hzero⟩

def loginEvents : List IrcEvent := [
  .synack [] none, .thread, .sendThread,
  .segment true 0 [], .thread, .thread, .sendThread,
  .segment true 0 [], .thread, .thread, .sendThread,
  .segment false 0 (ascii ":a 001\r\n"), .thread, .thread, .sendThread,
  .segment true 0 (ascii ":a 002\r\n"), .thread, .thread, .thread, .sendThread]

theorem login_submit :
    ∃ s, Run IrcStep (ircConnect .zero .zero (.fill _ 0)) loginEvents s ∧
      LoggedIn { s with wire := .init } ∧
      ∃ t, Run (Run.Guarded MessagesClear IrcStep) { s with wire := .init }
        [.submit (ascii "hi"), .timer, .thread, .sendThread] t ∧
        t.messages.queued = [privmsg (ascii "hi")] ∧ t.turn = .outside ∧
        t.uip.conn = { tcpstate := .established, len := 24, mss := 1460, initialmss := 1460 } := by
  refine ⟨_, (Run.of_foldlM (f := IrcSystem.stepRun 4) rfl).mono ircStep_of_stepRun, ?_, _,
    Run.guarded_of_foldlM (C := MessagesClear) (ircStep_of_stepRun (n := 4)) rfl, rfl, rfl, rfl⟩
  exact ⟨rfl, rfl, rfl, rfl, ⟨rfl, rfl, by decide, by decide⟩, ⟨rfl, rfl⟩, rfl, rfl, rfl⟩

theorem messages_intact_submit :
    ∃ s, Run IrcStep (ircConnect .zero .zero (.fill _ 0)) loginEvents s ∧
      ∃ t, Run (Run.Guarded MessagesClear IrcStep) { s with wire := .init }
        [.submit (ascii "hi"), .timer, .thread, .sendThread] t ∧ MessagesIntact t ∧
        ∃ fs u, Run (Run.Guarded MessagesClear IrcStep) t fs u ∧
          u.stream = privmsg (ascii "hi") ++ crlf := by
  obtain ⟨s, hlogin, hlogged, t, hrun, hqueued, hturn, hconn⟩ := login_submit
  obtain ⟨hintact, hdelivered⟩ := messages_intact hlogged hrun
  obtain ⟨fs, u, hrun', -, hstream⟩ :=
    hdelivered hturn (by rw [hconn]) (by rw [hconn]; decide) (by rw [hconn]; decide)
  exact ⟨s, hlogin, t, hrun, hintact, fs, u, hrun', by rw [hstream, hqueued]; rfl⟩

set_option maxRecDepth 2000 in
/-- A line from the server is formatted for display before the message submitted
is sent: the text displayed is sent in its place. -/
theorem display_replaces_message :
    ∃ s, Run IrcStep (ircConnect .zero .zero (.fill _ 0)) loginEvents s ∧
      LoggedIn { s with wire := .init } ∧
      ∃ t, Run IrcStep { s with wire := .init }
        [.submit (ascii "hi"), .segment false 0 (ascii ":a!b PRIVMSG #c :yo\r\n"),
          .thread, .thread, .thread, .sendThread] t ∧
        t.stream = ascii "<a> yo" ++ 0 :: ascii " ##whitequark :hi" ∧ ¬ MessagesIntact t := by
  refine ⟨_, (Run.of_foldlM (f := IrcSystem.stepRun 4) rfl).mono ircStep_of_stepRun, ?_, _,
    (Run.of_foldlM (f := IrcSystem.stepRun 4) rfl).mono ircStep_of_stepRun, rfl, fun h => ?_⟩
  · exact ⟨rfl, rfl, rfl, rfl, ⟨rfl, rfl, by decide, by decide⟩, ⟨rfl, rfl⟩, rfl, rfl, rfl⟩
  · obtain ⟨tail, htail⟩ := h.stream
    have hhead : some (0x3C : UInt8) = some 0x50 := congrArg List.head? htail
    exact absurd hhead (by decide)

end FxIP
