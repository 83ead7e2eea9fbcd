import FxIP.Tcpip.Delivery

/-!
# Time-outs

What one tick of the periodic timer does to a connection. A connection whose
peer has fallen silent is given up after a bounded number of ticks.
-/

namespace FxIP.Tcpip

variable {h h' : Host} {s t : Stack} {c c' : UipConn} {e : Event} {es : List Event} {n : Next}
    {i : Fin UIP_CONNS}

def UipConn.backoff (c : UipConn) : UInt8 := UIP_RTO <<< (if c.nrtx > 4 then 4 else c.nrtx)

/-- What a tick does to a connection, and whether it calls the application. -/
inductive Ticks (c : UipConn) : UipConn → Option Resume → Prop
  | waits : c.tcpstateflags = { state := .timeWait } ∨ c.tcpstateflags = { state := .finWait2 } →
      c.timer + 1 ≠ UIP_TIME_WAIT_TIMEOUT → Ticks c { c with timer := c.timer + 1 } none
  | waited : c.tcpstateflags = { state := .timeWait } ∨ c.tcpstateflags = { state := .finWait2 } →
      c.timer + 1 = UIP_TIME_WAIT_TIMEOUT → Ticks c
        { c with timer := c.timer + 1, tcpstateflags := .closed } none
  | counts : c.outstanding → c.timer ≠ 0 → Ticks c { c with timer := c.timer - 1 } none
  | expires : c.outstanding → c.timer = 0 → c.timedOut →
      Ticks c { c with timer := c.timer - 1, tcpstateflags := .closed } (some .timedout)
  | rexmits {r} : c.outstanding → c.timer = 0 → ¬ c.timedOut →
      (r = if c.state = .established then some .apprexmit else none) →
      Ticks c { c with timer := c.backoff, nrtx := c.nrtx + 1 } r
  | rests {r} : c.tcpstateflags = .closed ∨ ¬ c.outstanding →
      (r = if c.state = .established then some .appsend else none) → Ticks c c r

theorem rexmit_cur (s : Stack) :
    (uipRexmit s).stack.cur = { s.cur with timer := s.cur.backoff, nrtx := s.cur.nrtx + 1 } ∧
      ((uipRexmit s).resume = if s.cur.state = .established then some .apprexmit else none) ∧
      ((uipRexmit s).resume ≠ none → (uipRexmit s).stack.flags.acked = false) := by
  have hset : (s.setConn { s.cur with timer := s.cur.backoff, nrtx := s.cur.nrtx + 1 }).cur =
      { s.cur with timer := s.cur.backoff, nrtx := s.cur.nrtx + 1 } := Stack.cur_setConn
  rw [uipRexmit, UipConn.state]
  cases s.cur.tcpstateflags.state with
  | synRcvd => exact ⟨(sends_tcpSendSynack _).cur.trans hset, rfl, fun h => absurd rfl h⟩
  | synSent => exact ⟨(sends_tcpSendSyn _ _).cur.trans hset, rfl, fun h => absurd rfl h⟩
  | established => exact ⟨hset, rfl, fun _ => rfl⟩
  | finWait1 | closing | lastAck =>
    exact ⟨(sends_tcpSendFinack _).cur.trans hset, rfl, fun h => absurd rfl h⟩
  | closed | finWait2 | timeWait =>
    exact ⟨(sends_drop _).cur.trans hset, rfl, fun h => absurd rfl h⟩

/-- The periodic timer does this and nothing else to its connection. It does not
call the application for an ack. -/
theorem ticks_timer (s : Stack) : Ticks s.cur (uipTimer s).stack.cur (uipTimer s).resume ∧
    ((uipTimer s).resume ≠ none → (uipTimer s).stack.flags.acked = false) := by
  rw [uipTimer]
  have hcur : s.cur = ({ s with appdata := 0, iss := s.iss.inc3, len := 0, slen := 0 } :
    Stack).cur := rfl
  rw [hcur]
  generalize ({ s with appdata := 0, iss := s.iss.inc3, len := 0, slen := 0 } : Stack) = t
  dsimp only
  split
  · rename_i hwait
    refine ⟨?_, fun h => absurd rfl h⟩
    show Ticks t.cur (uipDrop _).cur none
    rw [(sends_drop _).cur, Stack.cur_setConn]
    split
    · rename_i htimer
      exact .waited hwait htimer
    · rename_i htimer
      exact .waits hwait htimer
  split
  · split
    · rename_i hout
      have hset : (t.setConn { t.cur with timer := t.cur.timer - 1 }).cur =
          { t.cur with timer := t.cur.timer - 1 } :=
        Stack.cur_setConn
      generalize t.setConn { t.cur with timer := t.cur.timer - 1 } = u at hset
      split
      · rename_i hzero
        split
        · rename_i htimed
          refine ⟨?_, fun _ => rfl⟩
          show Ticks t.cur (u.setConn { u.cur with tcpstateflags := .closed }).cur (some .timedout)
          rw [Stack.cur_setConn, hset]
          exact .expires hout hzero htimed
        · rename_i htimed
          obtain ⟨hcur, hresume, hflag⟩ := rexmit_cur u
          refine ⟨?_, hflag⟩
          rw [hcur, hresume, hset]
          exact .rexmits hout hzero htimed rfl
      · rename_i hne
        refine ⟨?_, fun h => absurd rfl h⟩
        show Ticks t.cur (uipDrop _).cur none
        rw [(sends_drop _).cur, hset]
        exact .counts hout hne
    · rename_i hout
      split
      · rename_i hest
        exact ⟨.rests (.inr hout) (if_pos hest).symm, fun _ => rfl⟩
      · rename_i hest
        exact ⟨.rests (.inr hout) (if_neg hest).symm, fun h => absurd rfl h⟩
  · rename_i hclosed
    have hclosed := Decidable.not_not.mp hclosed
    refine ⟨.rests (.inl hclosed) (if_neg ?_).symm, fun h => absurd rfl h⟩
    rw [UipConn.state, hclosed]
    decide

theorem Ticks.not_reset {r : Option Resume} (ht : Ticks c c' r) : r ≠ some .reset := by
  intro hr
  cases ht with
  | rexmits _ _ _ h | rests _ h =>
    rw [h] at hr
    split at hr <;> cases hr
  | _ => cases hr

theorem Ticks.established {r : Option Resume} (ht : Ticks c c' r) (hest : c'.state = .established) :
    c.state = .established ∧ c'.sndNxt = c.sndNxt ∧ c'.len = c.len := by
  cases ht with
  | waited => cases hest
  | expires => cases hest
  | waits | counts | rexmits | rests => exact ⟨hest, rfl, rfl⟩

-- ---------------------------------------------------------------------------
-- How long a connection is kept
-- ---------------------------------------------------------------------------

/-- The ticks that are left from retransmission `n` on. -/
def rexmitTicks (n : Nat) : Nat :=
  (List.range' n (8 - n)).foldr (fun k ticks => 3 <<< (if k > 4 then 4 else k) + 1 + ticks) 0

/-- The ticks after which the connection is given up, if no answer comes. -/
def UipConn.patience (c : UipConn) : Nat := c.timer.toNat + 1 + rexmitTicks c.nrtx.toNat

theorem rexmitTicks_of_lt {n : Nat} (h : n < 8) :
    rexmitTicks n = 3 <<< (if n > 4 then 4 else n) + 1 + rexmitTicks (n + 1) := by
  rw [rexmitTicks, show 8 - n = 8 - (n + 1) + 1 by omega, List.range'_succ, List.foldr_cons]
  rfl

theorem rexmitTicks_le (n : Nat) : rexmitTicks n ≤ 245 := by
  by_cases h : n < 8
  · have hall : ∀ k < 8, rexmitTicks k ≤ 245 := by decide
    exact hall n h
  · rw [rexmitTicks, Nat.sub_eq_zero_of_le (by omega)]
    exact Nat.zero_le _

theorem patience_le (c : UipConn) : c.patience ≤ 501 := by
  have htimer := c.timer.toNat_lt
  have hticks := rexmitTicks_le c.nrtx.toNat
  rw [UipConn.patience]
  omega

theorem toNat_backoff (h : c.nrtx.toNat < 8) :
    c.backoff.toNat = 3 <<< (if c.nrtx.toNat > 4 then 4 else c.nrtx.toNat) := by
  have hall : ∀ n < 8,
      (UIP_RTO <<< (if UInt8.ofNat n > 4 then 4 else UInt8.ofNat n)).toNat =
        3 <<< (if n > 4 then 4 else n) := by decide
  have hnrtx := hall c.nrtx.toNat h
  rwa [UInt8.ofNat_toNat] at hnrtx

theorem patience_rexmit (hzero : c.timer = 0) (hle : c.nrtx ≤ UIP_MAXRTX)
    (hne : c.nrtx ≠ UIP_MAXRTX) :
    { c with timer := c.backoff, nrtx := c.nrtx + 1 : UipConn }.patience + 1 = c.patience := by
  have hlt : c.nrtx.toNat < 8 := UInt8.lt_iff_toNat_lt.mp (UInt8.lt_of_le_of_ne hle hne)
  have hsucc : (c.nrtx + 1).toNat = c.nrtx.toNat + 1 := by
    rw [UInt8.toNat_add, show (1 : UInt8).toNat = 1 from rfl]
    omega
  rw [UipConn.patience, UipConn.patience, hsucc, hzero, toNat_backoff hlt, rexmitTicks_of_lt hlt]
  show _ = 0 + 1 + _
  omega

theorem patience_counts (hne : c.timer ≠ 0) :
    { c with timer := c.timer - 1 : UipConn }.patience + 1 = c.patience := by
  have hpos : 0 < c.timer.toNat := Nat.pos_of_ne_zero fun h => hne (UInt8.toNat_inj.mp h)
  have hsub : (c.timer - 1).toNat = c.timer.toNat - 1 :=
    UInt8.toNat_sub_of_le _ _ (UInt8.le_iff_toNat_le.mpr hpos)
  rw [UipConn.patience, UipConn.patience, hsub]
  show c.timer.toNat - 1 + 1 + rexmitTicks c.nrtx.toNat + 1 = _
  omega

/-- A connection that waits for an answer of its peer: it is retransmitting. -/
structure UipConn.Awaits (c : UipConn) : Prop where
  outstanding : c.outstanding
  notClosed : c.state ≠ .closed
  notTimeWait : c.state ≠ .timeWait
  notFinWait2 : c.state ≠ .finWait2

theorem ticks_awaits {r : Option Resume} (ha : c.Awaits) (hle : c.nrtx ≤ UIP_MAXRTX)
    (ht : Ticks c c' r) :
    (c'.Awaits ∧ c'.patience + 1 = c.patience ∧ (r = none ∨ r = some .apprexmit)) ∨
      (c'.state = .closed ∧ r = some .timedout) := by
  have hstate {state : TcpState} (h : c.tcpstateflags = { state }) : c.state =
    state := by rw [UipConn.state, h]
  cases ht with
  | waits h _ => exact absurd h fun h => h.elim (fun h => ha.notTimeWait (hstate h)) fun h =>
    ha.notFinWait2 (hstate h)
  | waited h _ => exact absurd h fun h => h.elim (fun h => ha.notTimeWait (hstate h)) fun h =>
    ha.notFinWait2 (hstate h)
  | counts _ hne =>
    exact .inl ⟨⟨ha.outstanding, ha.notClosed, ha.notTimeWait, ha.notFinWait2⟩,
      patience_counts hne, .inl rfl⟩
  | expires => exact .inr ⟨rfl, rfl⟩
  | rexmits _ hzero htimed hr =>
    refine .inl ⟨⟨ha.outstanding, ha.notClosed, ha.notTimeWait, ha.notFinWait2⟩,
      patience_rexmit hzero hle fun hmax => htimed (.inl hmax), ?_⟩
    rw [hr]
    split
    · exact .inr rfl
    · exact .inl rfl
  | rests h _ =>
    rcases h with h | h
    · exact absurd (hstate h) ha.notClosed
    · exact absurd ha.outstanding h

-- ---------------------------------------------------------------------------
-- A silent peer
-- ---------------------------------------------------------------------------

/-- Nothing arrives for connection `i`. -/
def Silent (i : Fin UIP_CONNS) (h : Host) : Event → Prop
  | .receive frame => ¬ (h.stack.conns i).Matches (h.stack.buf.receive frame).hdr
  | _ => True

def Event.isTick (i : Fin UIP_CONNS) : Event → Bool
  | .periodic j => j = i
  | _ => false

/-- Connection `i` awaits an answer, and the application has not been called for
it but for a retransmission. -/
structure Host.Awaits (i : Fin UIP_CONNS) (h : Host) : Prop where
  conn : (h.stack.conns i).Awaits
  calling : h.calling = none ∨ h.calling = some .apprexmit ∨ h.stack.conn ≠ i

/-- The application is called as the connection is given up. -/
structure Host.GivesUp (i : Fin UIP_CONNS) (h : Host) : Prop where
  closed : (h.stack.conns i).state = .closed
  calling : h.calling = some .timedout
  conn : h.stack.conn = i

theorem UipConn.Awaits.not_unused (ha : c.Awaits) : ¬ c.Unused := by
  rintro (h | h)
  · exact ha.notClosed (by rw [UipConn.state, h]; rfl)
  · exact ha.notTimeWait (by rw [UipConn.state, h])

/-- Data that is outstanding keeps the application from being asked for more. -/
theorem poll_outstanding (hout : s.cur.outstanding) :
    uipPoll s = .done (uipDrop { s with appdata := 0 }) := by
  rw [uipPoll]
  exact if_neg fun h => h.2 hout

theorem apprexmit_returned (s : Stack) (a : AppReturn) :
    (uipResume (uipAppReturn s a) .apprexmit).cur =
      { s.cur with tcpstateflags := { s.cur.tcpstateflags with stopped := a.stopped } } := by
  have hcur : (uipAppReturn s a).cur =
      { s.cur with tcpstateflags := { s.cur.tcpstateflags with stopped := a.stopped } } :=
    Function.update_self ..
  rw [uipResume, (sends_apprexmit _).cur, hcur]

theorem silent_frame (ha : h.Awaits i) (hsilent : Silent i h e) (htick : ¬ e.isTick i)
    (hstep : HostStep h e h') :
    h'.Awaits i ∧ (h'.stack.conns i).patience = (h.stack.conns i).patience := by
  cases at_step i hstep with
  | elsewhere hconns _ hother =>
    refine ⟨⟨hconns ▸ ha.conn, ?_⟩, by rw [hconns]⟩
    by_cases hdone : h'.calling = none
    · exact .inl hdone
    · exact .inr (.inr (hother hdone))
  | opens ho => exact absurd ho.unused ha.conn.not_unused
  | found _ _ hmatches _ => exact absurd hmatches hsilent
  | timer => exact absurd (decide_eq_true rfl) htick
  | @poll s =>
    rw [poll_outstanding (s := { s with conn := i }) ha.conn.outstanding]
    exact ⟨⟨ha.conn, .inl rfl⟩, rfl⟩
  | memory => exact ⟨⟨ha.conn, ha.calling⟩, rfl⟩
  | @returns s a r hi =>
    subst hi
    have hr : r = .apprexmit := by
      rcases ha.calling with h | h | h
      · cases h
      · exact Option.some.inj h
      · exact absurd rfl h
    subst hr
    have hk := kept_resume (r := .apprexmit) (kept_appReturn a (.refl s))
    have hcur := hk.cur.symm.trans (apprexmit_returned s a)
    obtain ⟨hout, h1, h2, h3⟩ := ha.conn
    refine ⟨⟨?_, .inl rfl⟩, ?_⟩
    · show UipConn.Awaits ((uipResume _ _).conns s.conn)
      rw [hcur]
      exact ⟨hout, h1, h2, h3⟩
    · show UipConn.patience ((uipResume _ _).conns s.conn) = _
      rw [hcur]
      rfl

theorem silent_tick (hok : h.Ok) (ha : h.Awaits i) (htick : e.isTick i) (hstep : HostStep h e h') :
    (h'.Awaits i ∧ (h'.stack.conns i).patience + 1 = (h.stack.conns i).patience) ∨
      h'.GivesUp i := by
  cases hstep with
  | @periodic s j =>
    obtain rfl := of_decide_eq_true htick
    have hk := kept_timer (kept_select s j)
    have hticks := (ticks_timer { s with conn := j }).1
    rw [hk.cur] at hticks
    rcases ticks_awaits ha.conn (hok.bounded j).nrtx hticks with
      ⟨hawaits, hless, hcalling⟩ | ⟨hclosed, hcalling⟩
    · exact .inl ⟨⟨hawaits, hcalling.imp_right .inl⟩, hless⟩
    · exact .inr ⟨hclosed, hcalling, hk.conn⟩
  | _ => cases htick

theorem one_le_patience (c : UipConn) : 1 ≤ c.patience := by
  rw [UipConn.patience]
  omega

/-- A run without an answer: the connection has been given up, or has used up a
tick of its patience for each tick of its timer. -/
theorem silent_run {fs : List Event} (hok : h.Ok) (ha : h.Awaits i)
    (hrun : Run (Run.Guarded (Silent i) HostStep) h fs h') :
    (∃ gs t, gs <+: fs ∧ Run HostStep h gs t ∧ t.GivesUp i) ∨
      (h'.Ok ∧ h'.Awaits i ∧
        (h'.stack.conns i).patience + fs.countP (·.isTick i) ≤ (h.stack.conns i).patience) := by
  refine hrun.invariant (fun fs t => (∃ gs t, gs <+: fs ∧ Run HostStep h gs t ∧ t.GivesUp i) ∨
    (t.Ok ∧ t.Awaits i ∧ (t.stack.conns i).patience + fs.countP (·.isTick i) ≤
      (h.stack.conns i).patience))
    (.inr ⟨hok, ha, Nat.le_refl _⟩) fun fs t e u hr hi hstep => ?_
  obtain ⟨hsilent, hstep⟩ := hstep
  rcases hi with ⟨gs, v, hgs, hv⟩ | ⟨htok, hta, hle⟩
  · exact .inl ⟨gs, v, hgs.trans (List.prefix_append ..), hv⟩
  have huok := ok_change (change_step hstep) htok
  by_cases htick : e.isTick i
  · rcases silent_tick htok hta htick hstep with ⟨hua, hless⟩ | hgives
    · refine .inr ⟨huok, hua, ?_⟩
      rw [List.countP_append, List.countP_singleton, if_pos htick]
      omega
    · exact .inl ⟨fs ++ [e], u, List.prefix_rfl, (Run.of_guarded hr).snoc hstep, hgives⟩
  · obtain ⟨hua, hsame⟩ := silent_frame hta hsilent htick hstep
    refine .inr ⟨huok, hua, ?_⟩
    rw [List.countP_append, List.countP_singleton, if_neg htick, hsame]
    omega

/-- A connection that awaits an answer is given up by the 501st tick of its timer
if none comes, whatever else happens; and then the application is called. -/
theorem silent_givesUp {fs : List Event} (hr : Reaches es h) (ha : h.Awaits i)
    (hrun : Run (Run.Guarded (Silent i) HostStep) h fs h') (hticks : 501 ≤ fs.countP (·.isTick i)) :
    ∃ gs t, gs <+: fs ∧ Run HostStep h gs t ∧ t.GivesUp i := by
  obtain ⟨behind, iss, lastport, -, -, hreach⟩ := hr
  rcases silent_run (ok_run h hreach) ha hrun with hgives | ⟨-, -, hle⟩
  · exact hgives
  · have hpos := one_le_patience (h'.stack.conns i)
    have hmax := patience_le (h.stack.conns i)
    omega

theorem exists_silent_run (hcalling : h.calling = none) (i : Fin UIP_CONNS) (n : Nat) :
    ∃ fs h', Run (Run.Guarded (Silent i) HostStep) h fs h' ∧ h'.calling = none ∧
      n ≤ fs.countP (·.isTick i) := by
  induction n with
  | zero => exact ⟨[], h, .nil, hcalling, Nat.zero_le _⟩
  | succ n ih =>
    obtain ⟨fs, ⟨s, calling⟩, hrun, hdone, hle⟩ := ih
    obtain rfl : calling = none := hdone
    have hsilent (t : Host) : Silent i t (.periodic i) := trivial
    have htick := hrun.snoc ⟨hsilent _, HostStep.periodic⟩
    have hcount : n + 1 ≤ (fs ++ [Event.periodic i]).countP (·.isTick i) := by
      rw [List.countP_append, List.countP_singleton,
        if_pos (show (Event.periodic i).isTick i from decide_eq_true rfl)]
      exact Nat.succ_le_succ hle
    cases hnext : uipTimer { s with conn := i } with
    | done t =>
      rw [hnext] at htick
      exact ⟨_, _, htick, rfl, hcount⟩
    | appcall resume t =>
      rw [hnext] at htick
      have hreturned (t : Host) : Silent i t (.appReturn .nothing) := trivial
      have hreturn := htick.snoc ⟨hreturned _, HostStep.appReturn⟩
      refine ⟨_, _, hreturn, rfl, ?_⟩
      rw [List.countP_append]
      exact Nat.le_add_right_of_le hcount

theorem silent_givesUp_opening : ∃ h fs h', Reaches opening h ∧
    Run (Run.Guarded (Silent 0) HostStep) h fs h' ∧
    ∃ gs t, gs <+: fs ∧ Run HostStep h gs t ∧ t.GivesUp 0 := by
  have hrun : (opening.foldlM (Host.stepRun 3) openingHost).map
      (fun h => (h.calling, (h.stack.conns 0).outstanding, (h.stack.conns 0).state)) =
      some (none, true, .synSent) := by decide +kernel
  obtain ⟨h, hh, hobserved⟩ := Option.map_eq_some_iff.mp hrun
  simp only [Prod.mk.injEq] at hobserved
  obtain ⟨hcalling, houtstanding, hstate⟩ := hobserved
  have hr := reaches_of_stepRun (by decide) hh
  have ha : h.Awaits 0 := by
    refine ⟨⟨houtstanding, ?_, ?_, ?_⟩, .inl hcalling⟩ <;> rw [hstate] <;> decide
  obtain ⟨fs, h', hsilent, -, hticks⟩ := exists_silent_run hcalling 0 501
  exact ⟨h, fs, h', hr, hsilent, silent_givesUp hr ha hsilent hticks⟩

end FxIP.Tcpip
