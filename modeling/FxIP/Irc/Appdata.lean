import FxIP.Irc.Login
import FxIP.Irc.Reader

/-!
# What is stored at `uip_appdata`

A socket reads from `uip_appdata`, where uIP puts what it receives and both
threads what they send. Each of them stores from the first cell on, and nothing
behind what it stores changes.
-/

namespace FxIP

variable {mb : List UInt8} {p q : Psock} {uip uip' : Uip} {buf : Sendptr} {len n k : Nat}
    {line : List UInt8}
variable {s t : IrcSystem} {e : IrcEvent} {m : Messages} {app : IrcState} {next : IrcPt}

/-- What the wait of `psock_send` stores. -/
def Psock.again (p : Psock) (uip : Uip) : Nat :=
  if p.state = .dataSent ∧ uip.flags.acked then min (p.sendlen - uip.conn.mss) uip.conn.mss
  else if p.state ≠ .dataSent ∨ uip.flags.rexmit then min p.sendlen uip.conn.mss
  else 0

/-- The longest segment that a call of `psock_send` stores. -/
def Psock.stores (p : Psock) (uip : Uip) (len : Nat) : Nat :=
  match p.psockpt with
  | .start => min len uip.conn.mss
  | .wait => p.again uip

/-- The ack of its last segment lets `psock_send` go on. -/
def Psock.Acked (p : Psock) (uip : Uip) : Prop :=
  p.psockpt = .wait ∧ p.state = .dataSent ∧ uip.flags.acked

instance (p : Psock) (uip : Uip) : Decidable (p.Acked uip) := inferInstanceAs (Decidable (_ ∧ _))

/-- The longest segment of a turn of `irc_send_thread`, which sends the line end
in the same turn when the message is acked. -/
def IrcState.outStores (app : IrcState) (m : Messages) (uip : Uip) : Nat :=
  match app.outPt with
  | .message =>
    max (app.psockOut.stores uip m.messagelength)
      (if app.psockOut.Acked uip then min crlf.length uip.conn.mss else 0)
  | .crlf => app.psockOut.stores uip crlf.length

/-- How many cells of `uip_appdata` an event can change. -/
def IrcSystem.stores (s : IrcSystem) : IrcEvent → Nat
  | .frame bytes => bytes.length
  | .synack options _ => options.length
  | .segment _ _ payload => payload.length
  | .thread => if s.app.pt.line = [] then 0 else s.app.psock.stores s.uip s.app.pt.line.length
  | .sendThread => if s.messages.messagelength = 0 then 0 else s.app.outStores s.messages s.uip
  | .submit _ | .timer | .close _ => 0

/-- `uip'` is `uip`, but for the first `n` cells and for what is to be sent. -/
structure KeepsFrom (n : Nat) (uip uip' : Uip) : Prop where
  conn : uip'.conn = uip.conn
  flags : uip'.flags = uip.flags
  len : uip'.len = uip.len
  cells : uip'.appdata.cells.drop n = uip.appdata.cells.drop n

theorem KeepsFrom.refl (n : Nat) (uip : Uip) : KeepsFrom n uip uip := ⟨rfl, rfl, rfl, rfl⟩

theorem KeepsFrom.trans {uip'' : Uip} (h : KeepsFrom n uip uip') (h' : KeepsFrom n uip' uip'') :
    KeepsFrom n uip uip'' :=
  ⟨h'.conn.trans h.conn, h'.flags.trans h.flags, h'.len.trans h.len, h'.cells.trans h.cells⟩

theorem drop_of_drop {α : Type} {xs ys : List α} (hnk : n ≤ k) (h : xs.drop n = ys.drop n) :
    xs.drop k = ys.drop k := by
  obtain ⟨d, rfl⟩ := Nat.exists_eq_add_of_le hnk
  rw [← List.drop_drop, ← List.drop_drop, h]

theorem KeepsFrom.mono (hnk : n ≤ k) (h : KeepsFrom n uip uip') : KeepsFrom k uip uip' :=
  ⟨h.conn, h.flags, h.len, drop_of_drop hnk h.cells⟩

theorem uipSend_keeps (uip : Uip) (data : List UInt8) (n : Nat) :
    KeepsFrom n uip (uipSend uip data n) := by
  unfold uipSend
  split
  · refine ⟨rfl, rfl, rfl, uip.appdata.drop_write _ ?_⟩
    rw [List.length_take]
    exact Nat.min_le_left ..
  · exact .refl n uip

-- ---------------------------------------------------------------------------
-- psock_send
-- ---------------------------------------------------------------------------

/-- `q` has the same data to read. -/
structure SameReading (p q : Psock) : Prop where
  readptr : q.readptr = p.readptr
  readlen : q.readlen = p.readlen
  bufsize : q.bufsize = p.bufsize

theorem psockSendWait_acked_eq (mb : List UInt8) (hstate : p.state = .dataSent)
    (hack : uip.flags.acked = true) :
    ∃ sendptr data, psockSendWait mb p uip = .inl
      ({ p with sendptr, sendlen := p.sendlen - uip.conn.mss, state := .dataSent },
        uipSend uip data (p.again uip)) := by
  have hrest : p.sendlen - (if p.sendlen > uip.conn.mss then uip.conn.mss else p.sendlen) =
      p.sendlen - uip.conn.mss := by
    split <;> omega
  have hagain : p.again uip = min (p.sendlen - uip.conn.mss) uip.conn.mss := if_pos ⟨hstate, hack⟩
  simp only [psockSendWait, dataAcked, hstate, hack, and_self, if_true, hrest, hagain]
  rw [sendData_sends (.inl PsockState.noConfusion)]
  simp only [Bool.and_self, if_true]
  exact ⟨_, _, rfl⟩

theorem psockSendWait_waiting (mb : List UInt8) (hno : ¬ (p.state = .dataSent ∧ uip.flags.acked)) :
    ∃ data, psockSendWait mb p uip = .inr
      (.waiting, { p with state := .dataSent, psockpt := .wait },
        uipSend uip data (p.again uip)) := by
  simp only [psockSendWait, dataAcked, if_neg hno, Bool.false_and, Bool.false_eq_true, if_false]
  by_cases hsend : p.state ≠ .dataSent ∨ uip.flags.rexmit
  · rw [sendData_sends hsend, Psock.again, if_neg hno, if_pos hsend]
    exact ⟨_, rfl⟩
  · rw [sendData, if_neg hsend, Psock.again, if_neg hno, if_neg hsend]
    rw [not_or, not_not] at hsend
    refine ⟨[], ?_⟩
    rw [uipSend_zero, ← hsend.1]

/-- How `psock_send` returns from its loop. -/
structure SendResult (n : Nat) (p : Psock) (uip : Uip) (r : PtResult × Psock × Uip) : Prop where
  reading : SameReading p r.2.1
  keeps : KeepsFrom n uip r.2.2
  waits : r.1 = .waiting → r.2.1.psockpt = .wait ∧ r.2.1.state = .dataSent
  ends : r.1 ≠ .waiting → r.2.1.psockpt = .start ∧ r.2.1.state = .none

theorem sendResult_waiting (mb : List UInt8) (hno : ¬ (p.state = .dataSent ∧ uip.flags.acked)) :
    ∃ r, psockSendWait mb p uip = .inr r ∧ SendResult (p.again uip) p uip r ∧ r.1 = .waiting := by
  obtain ⟨data, hwait⟩ := psockSendWait_waiting mb hno
  exact ⟨_, hwait, ⟨⟨rfl, rfl, rfl⟩, uipSend_keeps .., fun _ => ⟨rfl, rfl⟩, fun hne =>
    absurd rfl hne⟩, rfl⟩

theorem psockSendLoop_result {r : PtResult × Psock × Uip} (hle : p.again uip ≤ n)
    (h : (psockSendLoop mb (p, uip)).Returns r) : SendResult n p uip r := by
  refine Comp.Returns.loop_invariant
    (fun s => SameReading p s.1 ∧ KeepsFrom n uip s.2 ∧ s.1.again s.2 ≤ n) (SendResult n p uip) ?_
      ?_
    ⟨⟨rfl, rfl, rfl⟩, .refl .., hle⟩ h
  · rintro ⟨q, u⟩ s' ⟨hreading, hkeeps, hle⟩ hround
    rw [Comp.returns_pure, psockSendRound] at hround
    split at hround
    · by_cases hacked : q.state = .dataSent ∧ u.flags.acked
      · obtain ⟨sendptr, data, hwait⟩ := psockSendWait_acked_eq mb hacked.1 hacked.2
        obtain rfl := Sum.inl.inj (hwait.symm.trans hround)
        refine ⟨⟨hreading.readptr, hreading.readlen, hreading.bufsize⟩,
          hkeeps.trans ((uipSend_keeps ..).mono hle), ?_⟩
        -- What is left to send gets shorter.
        rw [Psock.again, if_pos hacked] at hle
        dsimp only at hle
        simp only [Psock.again, flags_uipSend, conn_uipSend, hacked.2, and_self, if_true]
        omega
      · obtain ⟨r, hwait, -, -⟩ := sendResult_waiting mb hacked
        cases hwait.symm.trans hround
    · cases hround
  · rintro ⟨q, u⟩ r ⟨hreading, hkeeps, hle⟩ hround
    rw [Comp.returns_pure, psockSendRound] at hround
    split at hround
    · by_cases hacked : q.state = .dataSent ∧ u.flags.acked
      · obtain ⟨sendptr, data, hwait⟩ := psockSendWait_acked_eq mb hacked.1 hacked.2
        cases hwait.symm.trans hround
      · obtain ⟨r', hwait, hresult, -⟩ := sendResult_waiting mb hacked
        obtain rfl := Sum.inr.inj (hwait.symm.trans hround)
        exact ⟨⟨hresult.reading.readptr.trans hreading.readptr, hresult.reading.readlen.trans
          hreading.readlen,
          hresult.reading.bufsize.trans hreading.bufsize⟩, hkeeps.trans (hresult.keeps.mono hle),
          hresult.waits, hresult.ends⟩
    · obtain rfl := Sum.inr.inj hround
      exact ⟨⟨hreading.readptr, hreading.readlen, hreading.bufsize⟩, hkeeps, PtResult.noConfusion,
        fun _ => ⟨rfl, rfl⟩⟩

theorem psockSend_result {r : PtResult × Psock × Uip} (hlen : 0 < len)
    (h : (psockSend mb p uip buf len).Returns r) :
    SendResult (p.stores uip len) p uip r ∧ (r.1 = .waiting ↔ ¬ p.Acked uip) := by
  cases hpt : p.psockpt with
  | start =>
    obtain rfl := h.unique (psockSend_start hpt hlen)
    refine ⟨⟨⟨rfl, rfl, rfl⟩, ?_, fun _ => ⟨rfl, rfl⟩, fun hne => absurd rfl hne⟩, fun _ hacked =>
      ?_, fun _ => rfl⟩
    · simp only [Psock.stores, hpt]
      exact uipSend_keeps ..
    · cases hpt.symm.trans hacked.1
  | wait =>
    by_cases hacked : p.state = .dataSent ∧ uip.flags.acked
    · have hended := psockSend_acked_ended hpt hacked.1 hacked.2 h
      obtain ⟨sendptr, data, hwait⟩ := psockSendWait_acked_eq mb hacked.1 hacked.2
      simp only [psockSend, hpt, hwait] at h
      have hresult := psockSendLoop_result (n := p.again uip) (by
        simp only [Psock.again, flags_uipSend, conn_uipSend, hacked.1, hacked.2, and_self, if_true]
        omega) h
      refine ⟨⟨⟨hresult.reading.readptr, hresult.reading.readlen, hresult.reading.bufsize⟩, ?_,
        hresult.waits, hresult.ends⟩, fun hwaiting => ?_, fun hno => absurd ⟨hpt, hacked⟩ hno⟩
      · simp only [Psock.stores, hpt]
        exact (uipSend_keeps ..).trans hresult.keeps
      · cases hended.1.symm.trans hwaiting
    · obtain ⟨r', hwait, hresult, hwaiting⟩ := sendResult_waiting mb hacked
      simp only [psockSend, hpt, hwait, Comp.returns_pure] at h
      subst h
      simp only [Psock.stores, hpt]
      exact ⟨hresult, fun _ h => hacked h.2, fun _ => hwaiting⟩

-- ---------------------------------------------------------------------------
-- The threads
-- ---------------------------------------------------------------------------

theorem ircThread_sends_result (h : SendsLine app.pt line next) {go : Bool} {m' : Messages}
    {app' : IrcState} (hr : (ircThread m app uip).Returns (some (go, m', app', uip'))) :
    ∃ psock, m' = m ∧ app' = { app with psock, pt := if go then next else app.pt } ∧
      SameReading app.psock psock ∧ KeepsFrom (app.psock.stores uip line.length) uip uip' ∧
      (go = true ↔ app.psock.Acked uip) ∧
      (if go then psock.psockpt = .start ∧ psock.state = .none
        else psock.psockpt = .wait ∧ psock.state = .dataSent) := by
  rw [ircThread_sends h, Comp.returns_map] at hr
  obtain ⟨r, hsend, hr⟩ := hr
  obtain ⟨⟨result, psock, u⟩, hsend, hpure⟩ := Comp.returns_bind.mp hsend
  obtain ⟨hresult, hwaiting⟩ := psockSend_result h.length_pos hsend
  dsimp only at hpure
  by_cases hw : result = .waiting
  · rw [if_pos hw] at hpure
    obtain rfl := Comp.returns_pure.mp hpure
    cases hr
    exact ⟨psock, rfl, rfl, hresult.reading, hresult.keeps,
      ⟨Bool.noConfusion, fun hacked => absurd hacked (hwaiting.mp hw)⟩, hresult.waits hw⟩
  · rw [if_neg hw] at hpure
    obtain rfl := Comp.returns_pure.mp hpure
    cases hr
    exact ⟨psock, rfl, rfl, hresult.reading, hresult.keeps,
      ⟨fun _ => Decidable.of_not_not fun hno => hw (hwaiting.mpr hno), fun _ => rfl⟩,
        hresult.ends hw⟩

theorem ircSendCrlf_keeps {r : Messages × IrcState × Uip} (hr : (ircSendCrlf m app uip).Returns r) :
    KeepsFrom (app.psockOut.stores uip crlf.length) uip r.2.2 ∧
      r.2.1.pt = app.pt ∧ r.2.1.psock = app.psock ∧ r.2.1.inputbuffer = app.inputbuffer := by
  obtain ⟨⟨result, psockOut, uip'⟩, hsend, hr⟩ := Comp.returns_bind.mp hr
  have hkeeps := (psockSend_result (by decide) hsend).1.keeps
  dsimp only at hr
  split at hr
  · obtain rfl := Comp.returns_pure.mp hr
    exact ⟨hkeeps, rfl, rfl, rfl⟩
  · obtain rfl := Comp.returns_pure.mp hr
    exact ⟨hkeeps, rfl, rfl, rfl⟩

theorem ircSendThread_keeps {r : Messages × IrcState × Uip} (hlen : m.messagelength ≠ 0)
    (hr : (ircSendThread m app uip).Returns r) :
    KeepsFrom (app.outStores m uip) uip r.2.2 ∧
      r.2.1.pt = app.pt ∧ r.2.1.psock = app.psock ∧ r.2.1.inputbuffer = app.inputbuffer := by
  unfold ircSendThread at hr
  cases hpt : app.outPt with
  | message =>
    simp only [hpt] at hr
    obtain ⟨⟨result, psockOut, uip'⟩, hsend, hr⟩ := Comp.returns_bind.mp hr
    obtain ⟨hresult, hwaiting⟩ := psockSend_result (Nat.pos_of_ne_zero hlen) hsend
    simp only [IrcState.outStores, hpt]
    have hkeeps := hresult.keeps.mono (Nat.le_max_left _
      (if app.psockOut.Acked uip then min crlf.length uip.conn.mss else 0))
    dsimp only at hr
    by_cases hw : result = .waiting
    · rw [if_pos hw] at hr
      obtain rfl := Comp.returns_pure.mp hr
      exact ⟨hkeeps, rfl, rfl, rfl⟩
    · rw [if_neg hw] at hr
      have hacked : app.psockOut.Acked uip := Decidable.of_not_not fun hno => hw (hwaiting.mpr hno)
      obtain ⟨hcrlf, hrest⟩ := ircSendCrlf_keeps hr
      refine ⟨hkeeps.trans (hcrlf.mono ?_), hrest⟩
      have hstart : psockOut.psockpt = .start := (hresult.ends hw).1
      have hconn : uip'.conn = uip.conn := hresult.keeps.conn
      simp only [Psock.stores, hstart, hconn, if_pos hacked]
      exact Nat.le_max_right ..
  | crlf =>
    simp only [hpt] at hr
    simp only [IrcState.outStores, hpt]
    exact ircSendCrlf_keeps hr

-- ---------------------------------------------------------------------------
-- Outside the turn of irc_thread
-- ---------------------------------------------------------------------------

def Uip.newData (uip : Uip) : List UInt8 :=
  if uip.flags.newdata then uip.appdata.cells.take uip.len else []

theorem fresh_eq (h : p.state ≠ .read) : p.fresh uip = uip.newData := by
  simp only [Psock.fresh, Uip.newData, h, ne_eq, not_false_eq_true, true_and]

theorem fresh_eq_nil (h : uip.newData = []) : p.fresh uip = [] := by
  by_cases hstate : p.state = .read
  · exact fresh_nil (by simp [hstate])
  · rw [fresh_eq hstate, h]

/-- What the steps that are not of `irc_thread` do to the data: nothing is read,
and a call of the application comes with the data of its segment. -/
structure Delivers (s : IrcSystem) (e : IrcEvent) (t : IrcSystem) : Prop where
  pt : t.app.pt = s.app.pt
  psock : t.app.psock = s.app.psock
  inputbuffer : t.app.inputbuffer = s.app.inputbuffer
  cells : t.uip.appdata.cells.drop (s.stores e) = s.uip.appdata.cells.drop (s.stores e)
  len : s.uip.len ≤ UIP_APPDATA_SIZE → e.payload.length ≤ UIP_APPDATA_SIZE →
    t.uip.len ≤ UIP_APPDATA_SIZE
  turn : t.turn = .outside ∧ e.payload = [] ∧
      (t.uip.conn.tcpstate = s.uip.conn.tcpstate ∨ t.uip.conn.tcpstate = .closed) ∨
    t.turn = .thread ∧ t.uip.conn.tcpstate = .established ∧
      (e.payload.length ≤ UIP_APPDATA_SIZE → t.uip.newData = e.payload) ∧
      (s.uip.conn.tcpstate = .established ∨ s.uip.conn.tcpstate = .synSent ∧ e.payload = [])

theorem segment_delivers (ack : Bool) (wnd : Nat) (payload : List UInt8) (hturn : s.turn = .outside)
    (hstate : s.uip.conn.tcpstate = .established) :
    Delivers s (.segment ack wnd payload)
      (if (uipSegment s.uip ack wnd payload).flags.acked ||
        (uipSegment s.uip ack wnd payload).flags.newdata then
        s.call (uipSegment s.uip ack wnd payload)
      else { s with uip := uipSegment s.uip ack wnd payload }) := by
  have hcells := s.uip.appdata.drop_write payload (Nat.le_refl _)
  split
  · rw [call_eq (by rfl)]
    refine ⟨rfl, rfl, rfl, hcells, fun _ h => h, .inr ⟨rfl, hstate, fun hsize => ?_, .inl hstate⟩⟩
    have htake := s.uip.appdata.take_write payload hsize
    cases payload with
    | nil => rfl
    | cons b payload => exact htake
  · rename_i hquiet
    have hpayload : payload = [] := by
      simp only [Bool.or_eq_true, not_or, Bool.not_eq_true] at hquiet
      simpa [uipSegment, uipCall] using hquiet.2
    exact ⟨rfl, rfl, rfl, hcells, fun _ h => h, .inl ⟨hturn, hpayload, .inl rfl⟩⟩

theorem synack_delivers (options : List UInt8) (mss : Option Nat)
    (hsyn : s.uip.conn.tcpstate = .synSent) :
    Delivers s (.synack options mss) (s.call (uipSynack s.uip options mss)) := by
  have hcells := s.uip.appdata.drop_write options (Nat.le_refl _)
  rw [call_eq (by rfl)]
  refine ⟨rfl, rfl, rfl, ?_, fun _ _ => Nat.zero_le _,
    .inr ⟨rfl, uipSynack_established .., fun _ => ?_, .inr ⟨hsyn, rfl⟩⟩⟩
  · cases mss <;> exact hcells
  · cases mss <;> rfl

theorem timer_delivers (hstate : s.uip.conn.tcpstate = .established) :
    Delivers s .timer (s.call (uipTimer s.uip)) := by
  have hflags : (uipTimer s.uip).flags.newdata = false ∧
      ((uipTimer s.uip).flags.closed || (uipTimer s.uip).flags.aborted ||
          (uipTimer s.uip).flags.timedout) = false := by
    unfold uipTimer
    split <;> exact ⟨rfl, rfl⟩
  rw [call_eq hflags.2]
  refine ⟨rfl, rfl, rfl, rfl, fun _ _ => Nat.zero_le _,
    .inr ⟨rfl, hstate, fun _ => ?_, .inl hstate⟩⟩
  exact if_neg (by simp [hflags.1])

theorem close_delivers (how : Closing) (hturn : s.turn = .outside) :
    Delivers s (.close how)
      (s.call (uipCall { s.uip with conn := { s.uip.conn with tcpstate := .closed } }
      { closed := how = .closed, aborted := how = .aborted, timedout := how = .timedout } 0)) := by
  cases how <;>
    exact ⟨rfl, rfl, rfl, rfl, fun _ _ => Nat.zero_le _, .inl ⟨hturn, rfl, .inr rfl⟩⟩

theorem event_delivers (hturn : s.turn = .outside) (hstep : IrcStep s e t) : Delivers s e t := by
  unfold IrcStep at hstep
  cases e with
  | submit text =>
    simp only [IrcSystem.step] at hstep
    split at hstep
    · obtain rfl := Option.some.inj (Comp.returns_pure.mp hstep)
      exact ⟨rfl, rfl, rfl, rfl, fun h _ => h, .inl ⟨hturn, rfl, .inl rfl⟩⟩
    · cases Comp.returns_pure.mp hstep
  | frame bytes =>
    simp only [IrcSystem.step, if_pos hturn] at hstep
    obtain rfl := Option.some.inj (Comp.returns_pure.mp hstep)
    exact ⟨rfl, rfl, rfl, s.uip.appdata.drop_write bytes (Nat.le_refl _), fun h _ => h,
      .inl ⟨hturn, rfl, .inl rfl⟩⟩
  | synack options mss =>
    simp only [IrcSystem.step] at hstep
    split at hstep
    · rename_i hg
      obtain rfl := Option.some.inj (Comp.returns_pure.mp hstep)
      exact synack_delivers options mss hg.2
    · cases Comp.returns_pure.mp hstep
  | segment ack wnd payload =>
    simp only [IrcSystem.step] at hstep
    split at hstep
    · rename_i hg
      obtain rfl := Option.some.inj (Comp.returns_pure.mp hstep)
      exact segment_delivers ack wnd payload hg.1 hg.2
    · cases Comp.returns_pure.mp hstep
  | timer =>
    simp only [IrcSystem.step] at hstep
    split at hstep
    · rename_i hg
      obtain rfl := Option.some.inj (Comp.returns_pure.mp hstep)
      exact timer_delivers hg.2
    · cases Comp.returns_pure.mp hstep
  | close how =>
    simp only [IrcSystem.step] at hstep
    split at hstep
    · obtain rfl := Option.some.inj (Comp.returns_pure.mp hstep)
      exact close_delivers how hturn
    · cases Comp.returns_pure.mp hstep
  | thread =>
    simp only [IrcSystem.step, hturn, reduceCtorEq, if_false] at hstep
    cases Comp.returns_pure.mp hstep
  | sendThread =>
    simp only [IrcSystem.step, hturn, reduceCtorEq, if_false] at hstep
    cases Comp.returns_pure.mp hstep

theorem uipAppsend_keeps (uip : Uip) :
    (uipAppsend uip).len = uip.len ∧ (uipAppsend uip).appdata = uip.appdata ∧
      (uipAppsend uip).conn.tcpstate = uip.conn.tcpstate := by
  by_cases hslen : uip.slen > 0
  · by_cases hlen : (if uip.flags.acked then 0 else uip.conn.len) = 0
    · simp only [uipAppsend, if_pos hslen, if_pos hlen, and_self]
    · simp only [uipAppsend, if_pos hslen, if_neg hlen, and_self]
  · simp only [uipAppsend, if_neg hslen, and_self]

theorem uipOutput_keeps (uip : Uip) :
    (uipOutput uip).2.len = uip.len ∧ (uipOutput uip).2.appdata = uip.appdata ∧
      (uipOutput uip).2.conn.tcpstate = uip.conn.tcpstate := by
  rw [uipOutput]
  split
  · exact ⟨rfl, rfl, rfl⟩
  · exact uipAppsend_keeps uip

theorem output_delivers
    (hkeeps : KeepsFrom (s.stores .sendThread) s.uip uip) (hpt : app.pt = s.app.pt)
    (hpsock : app.psock = s.app.psock) (hbuffer : app.inputbuffer = s.app.inputbuffer) :
    Delivers s .sendThread (s.output m app uip) := by
  obtain ⟨hlen, happdata, hstate⟩ := uipOutput_keeps uip
  refine ⟨hpt, hpsock, hbuffer, ?_, fun hle _ => ?_, .inl ⟨rfl, rfl, .inl ?_⟩⟩
  · rw [← hkeeps.cells]
    exact congrArg (fun b => b.cells.drop (s.stores .sendThread)) happdata
  · exact (hlen.trans hkeeps.len).le.trans hle
  · exact hstate.trans (congrArg UipConn.tcpstate hkeeps.conn)

theorem step_delivers (hturn : s.turn ≠ .thread) (hstep : IrcStep s e t) : Delivers s e t := by
  cases hout : s.turn with
  | outside => exact event_delivers hout hstep
  | thread => exact absurd hout hturn
  | sendThread =>
    cases hstep.kind with
    | skip _ hlen ht =>
      subst ht
      exact output_delivers (.refl ..) rfl rfl rfl
    | send m app uip _ hlen hr ht =>
      subst ht
      obtain ⟨hkeeps, hpt, hpsock, hbuffer⟩ := ircSendThread_keeps hlen hr
      refine output_delivers ?_ hpt hpsock hbuffer
      rwa [IrcSystem.stores, if_neg hlen]
    | _ => exact absurd (hout.symm.trans ‹s.turn = _›) Turn.noConfusion

end FxIP
