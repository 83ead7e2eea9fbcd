import FxIP.Irc.Calls

/-!
# The steps of the system

Every step is one of a few kinds. uIP calls the application with the outstanding
segment acked, to be repeated or neither, and sends what was stored in the call
as a new segment if none is outstanding, else in place of the outstanding one.
-/

namespace FxIP

variable {s t : IrcSystem} {e : IrcEvent} {uip : Uip} {m : Messages} {app : IrcState} {n : Nat}

-- ---------------------------------------------------------------------------
-- A call of the application
-- ---------------------------------------------------------------------------

/-- The application is called with `n` bytes outstanding until then, and has
stored nothing yet. -/
structure Called (uip : Uip) (n : Nat) : Prop where
  len : uip.conn.len = if uip.flags.acked then 0 else n
  acked : uip.flags.acked = true → n ≠ 0
  rexmit : uip.flags.rexmit = true → uip.flags.acked = false ∧ n ≠ 0
  slen : uip.slen = 0
  sends : uip.sends = 0

theorem uipSegment_called (ack : Bool) (wnd : Nat) (payload : List UInt8) :
    Called (uipSegment uip ack wnd payload) uip.conn.len := by
  refine ⟨rfl, ?_, Bool.noConfusion, rfl, rfl⟩
  intro hacked
  exact of_decide_eq_true (Bool.and_eq_true_iff.mp hacked).2

theorem uipTimer_called : Called (uipTimer uip) uip.conn.len := by
  unfold uipTimer
  split
  · rename_i houtstanding
    exact ⟨rfl, Bool.noConfusion, fun _ => ⟨rfl, of_decide_eq_true houtstanding⟩, rfl, rfl⟩
  · exact ⟨rfl, Bool.noConfusion, Bool.noConfusion, rfl, rfl⟩

theorem uipSynack_called (options : List UInt8) (mss : Option Nat) :
    Called (uipSynack uip options mss) 0 := by
  refine ⟨?_, Bool.noConfusion, Bool.noConfusion, rfl, rfl⟩
  cases mss <;> rfl

theorem uipSynack_established (options : List UInt8) (mss : Option Nat) :
    (uipSynack uip options mss).conn.tcpstate = .established := by
  cases mss <;> rfl

/-- What a call guarantees, whatever was outstanding. -/
structure Ready (uip : Uip) : Prop where
  acked : uip.flags.acked = true → uip.conn.len = 0
  rexmit : uip.flags.rexmit = true → uip.conn.len ≠ 0
  slen : uip.slen = 0
  sends : uip.sends = 0

theorem Called.ready (h : Called uip n) : Ready uip := by
  refine ⟨?_, ?_, h.slen, h.sends⟩
  · intro hacked
    rw [h.len, hacked]
    rfl
  · intro hrexmit
    obtain ⟨hacked, hn⟩ := h.rexmit hrexmit
    rw [h.len, hacked]
    exact hn

theorem Ready.rexmit_false (h : Ready uip) (hlen : uip.conn.len = 0) :
    uip.flags.rexmit = false := by
  cases hrexmit : uip.flags.rexmit with
  | true => exact absurd hlen (h.rexmit hrexmit)
  | false => rfl

theorem Called.len_of_not_acked (h : Called uip n) (hacked : uip.flags.acked = false) :
    uip.conn.len = n := by
  rw [h.len, hacked]
  rfl

-- ---------------------------------------------------------------------------
-- The kinds of steps
-- ---------------------------------------------------------------------------

inductive StepKind (s t : IrcSystem) : IrcEvent → Prop
  | submit (text : List UInt8) : s.turn = .outside → IsInput text →
      t = { s with messages := uiPageIrcMessageSubmit s.messages text } →
        StepKind s t (.submit text)
  | quiet (e : IrcEvent) (uip : Uip) : s.turn = .outside →
      uip.conn.tcpstate = s.uip.conn.tcpstate → uip.conn.len = s.uip.conn.len →
      t = { s with uip } → StepKind s t e
  | call (e : IrcEvent) (uip : Uip) : s.turn = .outside → s.uip.conn.tcpstate = .established →
      uip.conn.tcpstate = .established → Called uip s.uip.conn.len →
      t = { s with uip, turn := .thread } → StepKind s t e
  | synack (e : IrcEvent) (uip : Uip) : s.turn = .outside → s.uip.conn.tcpstate = .synSent →
      uip.conn.tcpstate = .established → Called uip 0 →
      t = { s with uip, turn := .thread } → StepKind s t e
  | close (e : IrcEvent) (uip : Uip) : s.turn = .outside → uip.conn.tcpstate = .closed →
      uip.conn.len = s.uip.conn.len → t = { s with uip, app := { s.app with connected := false } } →
        StepKind s t e
  | thread (go : Bool) (m : Messages) (app : IrcState) (uip : Uip) : s.turn = .thread →
      (ircThread s.messages s.app s.uip).Returns (some (go, m, app, uip)) →
      t = { s with messages := m, app, uip, turn := if go then .thread else .sendThread } →
      StepKind s t .thread
  | skip : s.turn = .sendThread → s.messages.messagelength = 0 →
      t = s.output s.messages s.app s.uip → StepKind s t .sendThread
  | send (m : Messages) (app : IrcState) (uip : Uip) : s.turn = .sendThread →
      s.messages.messagelength ≠ 0 → (ircSendThread s.messages s.app s.uip).Returns (m, app, uip) →
      t = s.output m app uip → StepKind s t .sendThread

theorem call_eq {uip : Uip}
    (h : (uip.flags.closed || uip.flags.aborted || uip.flags.timedout) = false) :
    s.call uip = { s with uip, turn := .thread } := by
  simp [IrcSystem.call, h]

theorem IrcStep.kind (h : IrcStep s e t) : StepKind s t e := by
  unfold IrcStep at h
  cases e with
  | submit text =>
    simp only [IrcSystem.step] at h
    split at h
    · rename_i hg
      obtain rfl := Option.some.inj (Comp.returns_pure.mp h)
      exact .submit text hg.1 hg.2 rfl
    · cases Comp.returns_pure.mp h
  | frame bytes =>
    simp only [IrcSystem.step] at h
    split at h
    · rename_i hg
      obtain rfl := Option.some.inj (Comp.returns_pure.mp h)
      exact .quiet _ (uipReceive s.uip bytes) hg rfl rfl rfl
    · cases Comp.returns_pure.mp h
  | synack options mss =>
    simp only [IrcSystem.step] at h
    split at h
    · rename_i hg
      obtain rfl := Option.some.inj (Comp.returns_pure.mp h)
      exact .synack _ _ hg.1 hg.2 (uipSynack_established options mss) (uipSynack_called options mss)
        (call_eq rfl)
    · cases Comp.returns_pure.mp h
  | segment ack wnd payload =>
    simp only [IrcSystem.step] at h
    split at h
    · rename_i hg
      obtain rfl := Option.some.inj (Comp.returns_pure.mp h)
      split
      · exact .call _ (uipSegment s.uip ack wnd payload) hg.1 hg.2 hg.2
          (uipSegment_called ..) (call_eq rfl)
      · rename_i hquiet
        refine .quiet _ (uipSegment s.uip ack wnd payload) hg.1 rfl ?_ rfl
        have hacked : (uipSegment s.uip ack wnd payload).flags.acked = false := by
          simp only [Bool.or_eq_true, not_or, Bool.not_eq_true] at hquiet
          exact hquiet.1
        rw [(uipSegment_called ack wnd payload).len, hacked]
        rfl
    · cases Comp.returns_pure.mp h
  | timer =>
    simp only [IrcSystem.step] at h
    split at h
    · rename_i hg
      obtain rfl := Option.some.inj (Comp.returns_pure.mp h)
      refine .call _ (uipTimer s.uip) hg.1 hg.2 hg.2 uipTimer_called (call_eq ?_)
      unfold uipTimer
      split <;> rfl
    · cases Comp.returns_pure.mp h
  | close how =>
    simp only [IrcSystem.step] at h
    split at h
    · rename_i hg
      obtain rfl := Option.some.inj (Comp.returns_pure.mp h)
      cases how with
      | closed => exact .close _ (uipCall _ _ 0) hg.1 (by rfl) (by rfl) rfl
      | aborted => exact .close _ (uipCall _ _ 0) hg.1 (by rfl) (by rfl) rfl
      | timedout => exact .close _ (uipCall _ _ 0) hg.1 (by rfl) (by rfl) rfl
    · cases Comp.returns_pure.mp h
  | thread =>
    simp only [IrcSystem.step] at h
    split at h
    · rename_i hg
      obtain ⟨r, hr, h⟩ := Comp.returns_bind.mp h
      obtain ⟨⟨go, m, app, uip⟩, rfl, rfl⟩ := Option.map_eq_some_iff.mp (Comp.returns_pure.mp h)
      exact .thread go m app uip hg hr rfl
    · cases Comp.returns_pure.mp h
  | sendThread =>
    simp only [IrcSystem.step] at h
    split at h
    · rename_i hg
      split at h
      · rename_i hlen
        obtain ⟨⟨m, app, uip⟩, hr, h⟩ := Comp.returns_bind.mp h
        obtain rfl := Option.some.inj (Comp.returns_pure.mp h)
        exact .send m app uip hg hlen hr rfl
      · rename_i hlen
        obtain rfl := Option.some.inj (Comp.returns_pure.mp h)
        exact .skip hg (Decidable.not_not.mp hlen) rfl
    · cases Comp.returns_pure.mp h

theorem step_sendThread (hturn : s.turn = .sendThread) (hlen : s.messages.messagelength ≠ 0)
    (hr : (ircSendThread s.messages s.app s.uip).Returns (m, app, uip)) :
    IrcStep s .sendThread (s.output m app uip) := by
  simp only [IrcStep, IrcSystem.step]
  rw [if_pos hturn, if_pos hlen]
  exact hr.bind_pure rfl

-- ---------------------------------------------------------------------------
-- What uIP sends
-- ---------------------------------------------------------------------------

theorem output_idle (h : uip.slen = 0) :
    s.output m app uip =
      { app, messages := m, uip, turn := .outside, wire := s.wire,
        replaced := s.replaced || BothSend s uip } := by
  have hsend : uipOutput uip = (none, uip) := by
    simp [uipOutput, uipAppsend, uipApprexmit, h]
  simp [IrcSystem.output, hsend]

theorem output_first (s : IrcSystem) (m : Messages) (app : IrcState) (hlen : uip.conn.len = 0)
    (hrexmit : uip.flags.rexmit = false) (hn : n = min uip.slen uip.conn.mss) (hpos : 0 < n) :
    ∃ uip', uip'.conn = { uip.conn with len := n } ∧
      s.output m app uip =
        { app, messages := m, uip := uip', turn := .outside,
          wire := s.wire.send (lastOwner s uip, uip.appdata.cells.take n),
          replaced := s.replaced || BothSend s uip } := by
  have hmin : (if uip.slen > uip.conn.mss then uip.conn.mss else uip.slen) = n := by
    split <;> omega
  have hslen : uip.slen > 0 := by omega
  have hsend : uipOutput uip =
      (some (uip.appdata.cells.take n),
          { uip with slen := n, conn := { uip.conn with len := n } }) := by
    simp [uipOutput, uipAppsend, uipApprexmit, hrexmit, hlen, hslen, hmin, hpos]
  refine ⟨{ uip with slen := n, conn := { uip.conn with len := n } }, rfl, ?_⟩
  simp [IrcSystem.output, hsend, hlen]

theorem output_again (s : IrcSystem) (m : Messages) (app : IrcState) (hlen : uip.conn.len = n)
    (hn : n ≠ 0) (hack : uip.flags.acked = false) (hslen : 0 < uip.slen) :
    ∃ uip', uip'.conn = uip.conn ∧
      s.output m app uip =
        { app, messages := m, uip := uip', turn := .outside,
          wire := s.wire.repeatLast (lastOwner s uip, uip.appdata.cells.take n),
          replaced := s.replaced || BothSend s uip } := by
  have hpos : 0 < n := Nat.pos_of_ne_zero hn
  cases hrexmit : uip.flags.rexmit with
  | true =>
    refine ⟨uip, rfl, ?_⟩
    have hsend : uipOutput uip = (some (uip.appdata.cells.take n), uip) := by
      simp [uipOutput, uipApprexmit, hrexmit, hlen, hslen, hpos]
    simp [IrcSystem.output, hsend, hlen, hn]
  | false =>
    refine ⟨{ uip with slen := n, conn := { uip.conn with len := n } }, by simp [← hlen], ?_⟩
    have hsend : uipOutput uip =
        (some (uip.appdata.cells.take n),
            { uip with slen := n, conn := { uip.conn with len := n } }) := by
      simp [uipOutput, uipAppsend, uipApprexmit, hrexmit, hack, hlen, hslen, hpos, hn]
    simp [IrcSystem.output, hsend, hlen, hn]

/-- In every case the data goes out as a new segment or in place of the
outstanding one, or not at all. -/
theorem output_cases (s : IrcSystem) (m : Messages) (app : IrcState)
    (hacked : uip.flags.acked = true → uip.conn.len = 0)
    (hrexmit : uip.flags.rexmit = true → uip.conn.len ≠ 0) (hslen : 0 < uip.slen) :
    ∃ uip' wire', uip'.conn.tcpstate = uip.conn.tcpstate ∧
      s.output m app uip =
        { app, messages := m, uip := uip', turn := .outside, wire := wire',
          replaced := s.replaced || BothSend s uip } ∧
      ((wire' = s.wire ∧ uip'.conn.len = 0) ∨
        (∃ data, wire' = s.wire.send (lastOwner s uip, data)) ∨
        (∃ data, wire' = s.wire.repeatLast (lastOwner s uip, data) ∧ uip.conn.len ≠ 0)) := by
  by_cases hlen : uip.conn.len = 0
  · have hno : uip.flags.rexmit = false := by
      cases h : uip.flags.rexmit with
      | true => exact absurd hlen (hrexmit h)
      | false => rfl
    rcases Nat.eq_zero_or_pos (min uip.slen uip.conn.mss) with hzero | hpos
    · have hmss : uip.conn.mss = 0 := by omega
      refine ⟨{ uip with slen := 0, conn := { uip.conn with len := 0 } }, s.wire, rfl, ?_,
        .inl ⟨rfl, rfl⟩⟩
      have hsend : uipOutput uip =
          (none, { uip with slen := 0, conn := { uip.conn with len := 0 } }) := by
        simp [uipOutput, uipAppsend, uipApprexmit, hno, hlen, hslen, hmss]
      simp [IrcSystem.output, hsend]
    · obtain ⟨uip', hconn, hout⟩ := output_first s m app hlen hno rfl hpos
      exact ⟨uip', _, by rw [hconn], hout, .inr (.inl ⟨_, rfl⟩)⟩
  · have hno : uip.flags.acked = false := by
      cases h : uip.flags.acked with
      | true => exact absurd (hacked h) hlen
      | false => rfl
    obtain ⟨uip', hconn, hout⟩ := output_again s m app rfl hlen hno hslen
    exact ⟨uip', _, by rw [hconn], hout, .inr (.inr ⟨_, rfl, hlen⟩)⟩

end FxIP
