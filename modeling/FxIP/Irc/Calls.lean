import FxIP.Irc.System

/-!
# What the steps of the client do

One lemma for each way through `psock_send` and for each step of the system.
The proofs about runs use these and do not unfold the model.
-/

namespace FxIP

variable {mb : List UInt8} {p : Psock} {uip uip' : Uip} {buf : Sendptr} {len n : Nat}
variable {s t : IrcSystem} {e : IrcEvent} {m m' : Messages} {app app' : IrcState}
    {line : List UInt8}
variable {next : IrcPt}

-- ---------------------------------------------------------------------------
-- Segments stored during a call
-- ---------------------------------------------------------------------------

/-- `uip'` is `uip`, or has a segment stored later in the same call. -/
structure Later (uip uip' : Uip) : Prop where
  conn : uip'.conn = uip.conn
  flags : uip'.flags = uip.flags
  sends : uip' = uip ∨ uip.sends < uip'.sends

theorem Later.refl (uip : Uip) : Later uip uip := ⟨rfl, rfl, .inl rfl⟩

theorem Later.trans {uip'' : Uip} (h : Later uip uip') (h' : Later uip' uip'') :
    Later uip uip'' := by
  refine ⟨h'.conn.trans h.conn, h'.flags.trans h.flags, ?_⟩
  rcases h.sends with rfl | hlt
  · exact h'.sends
  · rcases h'.sends with rfl | hlt'
    · exact .inr hlt
    · exact .inr (Nat.lt_trans hlt hlt')

theorem uipSend_later (uip : Uip) (data : List UInt8) (len : Nat) :
    Later uip (uipSend uip data len) := by
  unfold uipSend
  split
  · exact ⟨rfl, rfl, .inr (Nat.lt_succ_self _)⟩
  · exact .refl uip

@[simp] theorem uipSend_zero (uip : Uip) (data : List UInt8) : uipSend uip data 0 = uip := rfl

@[simp] theorem conn_uipSend (data : List UInt8) : (uipSend uip data len).conn = uip.conn :=
  (uipSend_later uip data len).conn

@[simp] theorem flags_uipSend (data : List UInt8) : (uipSend uip data len).flags = uip.flags :=
  (uipSend_later uip data len).flags

theorem sends_uipSend (data : List UInt8) (h : 0 < len) :
    (uipSend uip data len).sends = uip.sends + 1 := by
  rw [uipSend, if_pos h]

theorem slen_uipSend (data : List UInt8) (h : 0 < len) : (uipSend uip data len).slen = len := by
  rw [uipSend, if_pos h]

theorem appdata_uipSend {data : List UInt8} (h : 0 < len) (hlen : len ≤ data.length)
    (hfit : len ≤ UIP_APPDATA_SIZE) :
    (uipSend uip data len).appdata.cells.take len = data.take len := by
  rw [uipSend, if_pos h]
  have htake : (data.take len).length = len := List.length_take_of_le hlen
  have hread := uip.appdata.take_write (data.take len) (htake.symm ▸ hfit)
  rwa [htake] at hread

-- ---------------------------------------------------------------------------
-- psock_send
-- ---------------------------------------------------------------------------

theorem sendData_sends (h : p.state ≠ .dataSent ∨ uip.flags.rexmit) :
    sendData mb p uip =
      (true, { p with state := .dataSent }, uipSend uip (p.sendptr.data mb)
        (min p.sendlen uip.conn.mss)) := by
  rw [sendData, if_pos h]
  by_cases hlt : p.sendlen > uip.conn.mss
  · simp only [if_pos hlt, Nat.min_eq_right (Nat.le_of_lt hlt)]
  · simp only [if_neg hlt, Nat.min_eq_left (Nat.le_of_not_lt hlt)]

theorem sendData_later (mb : List UInt8) (p : Psock) (uip : Uip) :
    Later uip (sendData mb p uip).2.2 := by
  by_cases h : p.state ≠ .dataSent ∨ uip.flags.rexmit
  · rw [sendData_sends h]
    exact uipSend_later ..
  · rw [sendData, if_neg h]
    exact .refl uip

theorem psockSend_start (hpt : p.psockpt = .start) (hlen : 0 < len) :
    (psockSend mb p uip buf len).Returns
      (.waiting, { p with sendptr := buf, sendlen := len, state := .dataSent, psockpt := .wait },
        uipSend uip (buf.data mb) (min len uip.conn.mss)) := by
  simp only [psockSend, hpt, if_neg (Nat.ne_of_gt hlen), psockSendLoop]
  apply Comp.Returns.loop_exit
  rw [Comp.returns_pure, psockSendRound, if_pos hlen, psockSendWait]
  simp only [dataAcked, reduceCtorEq, false_and, if_false]
  rw [sendData_sends (.inl PsockState.noConfusion)]
  simp

theorem psockSend_wait (hpt : p.psockpt = .wait) (hstate : p.state = .dataSent)
    (hack : uip.flags.acked = false) :
    (psockSend mb p uip buf len).Returns
      (.waiting, p,
        if uip.flags.rexmit then uipSend uip (p.sendptr.data mb) (min p.sendlen uip.conn.mss)
          else uip) := by
  have hp : { p with state := .dataSent, psockpt := .wait } = p := by
    cases p
    simp_all
  simp only [psockSend, hpt, psockSendWait, dataAcked, hack, Bool.false_eq_true,
    and_false, if_false, Bool.false_and]
  cases hrexmit : uip.flags.rexmit with
  | true =>
    rw [sendData_sends (.inr hrexmit)]
    simp [hp]
  | false =>
    have hno : ¬ (p.state ≠ .dataSent ∨ uip.flags.rexmit = true) := by simp [hstate, hrexmit]
    rw [sendData, if_neg hno]
    have hp' : { p with psockpt := .wait } = p := by
      cases p
      simp_all
    simp [hp']

theorem psockSend_acked (hpt : p.psockpt = .wait) (hstate : p.state = .dataSent)
    (hack : uip.flags.acked = true) (hfit : p.sendlen ≤ uip.conn.mss) :
    (psockSend mb p uip buf len).Returns
      (.ended, { p with
        sendptr := p.sendptr.advance p.sendlen, sendlen := 0, state := .none, psockpt := .start },
          uip) := by
  simp only [psockSend, hpt, psockSendWait, dataAcked, hstate, hack, and_self, if_true,
    if_neg (Nat.not_lt.mpr hfit), Nat.sub_self]
  rw [sendData_sends (.inl PsockState.noConfusion)]
  simp only [Nat.zero_min, uipSend_zero, Bool.and_self, if_true, psockSendLoop]
  apply Comp.Returns.loop_exit
  simp [psockSendRound]

theorem psockSendWait_later (mb : List UInt8) (p : Psock) (uip : Uip) :
    Later uip ((psockSendWait mb p uip).elim Prod.snd fun r => r.2.2) := by
  simp only [psockSendWait]
  split
  · exact sendData_later ..
  · exact sendData_later ..

theorem psockSendRound_later (mb : List UInt8) (p : Psock) (uip : Uip) :
    Later uip ((psockSendRound mb (p, uip)).elim (fun s => s.2) fun r => r.2.2) := by
  rw [psockSendRound]
  split
  · exact psockSendWait_later mb p uip
  · exact .refl uip

theorem psockSendLoop_later {r : PtResult × Psock × Uip}
    (h : (psockSendLoop mb (p, uip)).Returns r) :
    Later uip r.2.2 := by
  refine Comp.Returns.loop_invariant (fun s => Later uip s.2) (fun r => Later uip r.2.2) ?_ ?_
    (Later.refl uip) h
  · rintro ⟨q, u⟩ ⟨q', u'⟩ hI hround
    have hlater := psockSendRound_later mb q u
    rw [Comp.returns_pure.mp hround] at hlater
    exact Later.trans hI hlater
  · rintro ⟨q, u⟩ r hI hround
    have hlater := psockSendRound_later mb q u
    rw [Comp.returns_pure.mp hround] at hlater
    exact Later.trans hI hlater

theorem psockSend_later {r : PtResult × Psock × Uip} (h : (psockSend mb p uip buf len).Returns r) :
    Later uip r.2.2 := by
  unfold psockSend at h
  split at h
  · split at h
    · obtain rfl := Comp.returns_pure.mp h
      exact .refl uip
    · exact psockSendLoop_later h
  · have hlater := psockSendWait_later mb p uip
    split at h
    · rename_i again hround
      rw [hround] at hlater
      exact hlater.trans (psockSendLoop_later h)
    · rename_i result hround
      rw [hround] at hlater
      obtain rfl := Comp.returns_pure.mp h
      exact hlater

theorem psockSendWait_acked (mb : List UInt8) (hstate : p.state = .dataSent)
    (hack : uip.flags.acked = true) :
    ∃ q uip', psockSendWait mb p uip = .inl (q, uip') ∧ q.state = .dataSent ∧
      uip'.flags = uip.flags := by
  simp only [psockSendWait, dataAcked, hstate, hack, and_self, if_true]
  rw [sendData_sends (.inl PsockState.noConfusion)]
  exact ⟨_, _, rfl, rfl, flags_uipSend _⟩

theorem psockSend_acked_ended {r : PtResult × Psock × Uip} (hpt : p.psockpt = .wait)
    (hstate : p.state = .dataSent) (hack : uip.flags.acked = true)
    (h : (psockSend mb p uip buf len).Returns r) : r.1 = .ended ∧ r.2.1.psockpt = .start := by
  obtain ⟨q, uip', hround, hq, hflags⟩ := psockSendWait_acked mb hstate hack
  simp only [psockSend, hpt, hround] at h
  refine Comp.Returns.loop_invariant
    (fun s => s.1.state = .dataSent ∧ s.2.flags.acked = true)
    (fun r => r.1 = .ended ∧ r.2.1.psockpt = .start) ?_ ?_ ⟨hq, hflags ▸ hack⟩ h
  · rintro ⟨q, u⟩ s' ⟨hq, hu⟩ hround
    obtain ⟨q', u', hwait, hq', hu'⟩ := psockSendWait_acked mb hq hu
    rw [Comp.returns_pure, psockSendRound, hwait] at hround
    split at hround
    · obtain rfl := Sum.inl.inj hround
      exact ⟨hq', hu' ▸ hu⟩
    · cases hround
  · rintro ⟨q, u⟩ r ⟨hq, hu⟩ hround
    obtain ⟨q', u', hwait, -, -⟩ := psockSendWait_acked mb hq hu
    rw [Comp.returns_pure, psockSendRound, hwait] at hround
    split at hround
    · cases hround
    · obtain rfl := Sum.inr.inj hround
      exact ⟨rfl, rfl⟩

-- ---------------------------------------------------------------------------
-- The statements of irc_thread
-- ---------------------------------------------------------------------------

/-- A socket that sent `len` bytes from `buf` and waits for the ack. -/
structure Waits (p : Psock) (buf : Sendptr) (len : Nat) : Prop where
  psockpt : p.psockpt = .wait
  state : p.state = .dataSent
  sendptr : p.sendptr = buf
  sendlen : p.sendlen = len

inductive SendsLine : IrcPt → List UInt8 → IrcPt → Prop
  | nick : SendsLine .nick nickLine .user
  | user : SendsLine .user userLine .readto1
  | join : SendsLine .join joinLine .readto2

theorem SendsLine.length_pos {pt : IrcPt} (h : SendsLine pt line next) : 0 < line.length := by
  cases h <;> decide

theorem ircThread_sends (h : SendsLine app.pt line next) :
    ircThread m app uip = (fun r => some (r.1, m, r.2.1, r.2.2)) <$> ircThreadSend m app uip
      line next := by
  unfold ircThread
  generalize app.pt = pt at h
  cases h <;> rfl

theorem ircThread_of_waiting {psock : Psock} (h : SendsLine app.pt line next)
    (hsend : (psockSend m.messagebuffer.cells app.psock uip (.str line 0) line.length).Returns
      (.waiting, psock, uip')) :
    (ircThread m app uip).Returns (some (false, m, { app with psock }, uip')) := by
  rw [ircThread_sends h, Comp.returns_map]
  exact ⟨(false, { app with psock }, uip'), Comp.returns_bind.mpr ⟨_, hsend, by simp⟩, rfl⟩

theorem ircThread_of_ended {psock : Psock} (h : SendsLine app.pt line next)
    (hsend : (psockSend m.messagebuffer.cells app.psock uip (.str line 0) line.length).Returns
      (.ended, psock, uip')) :
    (ircThread m app uip).Returns (some (true, m, { app with psock, pt := next }, uip')) := by
  rw [ircThread_sends h, Comp.returns_map]
  exact ⟨(true, { app with psock, pt := next }, uip'), Comp.returns_bind.mpr ⟨_, hsend, by simp⟩,
    rfl⟩

theorem ircThread_start (m : Messages) (uip : Uip) (h : SendsLine app.pt line next)
    (hpt : app.psock.psockpt = .start) :
    ∃ psock, Waits psock (.str line 0) line.length ∧
      (ircThread m app uip).Returns
        (some (false, m, { app with psock }, uipSend uip line (min line.length uip.conn.mss))) :=
  ⟨{ app.psock with sendptr := .str line 0, sendlen := line.length, state := .dataSent, psockpt :=
    .wait }, ⟨rfl, rfl, rfl, rfl⟩, ircThread_of_waiting h (psockSend_start hpt h.length_pos)⟩

theorem ircThread_wait (h : SendsLine app.pt line next)
    (hwaits : Waits app.psock (.str line 0) line.length)
    (hack : uip.flags.acked = false) :
    (ircThread m app uip).Returns
      (some (false, m, app,
        if uip.flags.rexmit then uipSend uip line (min line.length uip.conn.mss) else uip)) := by
  have hsend := ircThread_of_waiting (m := m) h (psockSend_wait hwaits.psockpt hwaits.state hack)
  rw [hwaits.sendptr, hwaits.sendlen] at hsend
  exact hsend

theorem ircThread_acked (h : SendsLine app.pt line next)
    (hwaits : Waits app.psock (.str line 0) line.length)
    (hack : uip.flags.acked = true) (hfit : line.length ≤ uip.conn.mss) :
    ∃ psock : Psock, psock.psockpt = .start ∧
      (ircThread m app uip).Returns (some (true, m, { app with psock, pt := next }, uip)) :=
  ⟨{ app.psock with
      sendptr := app.psock.sendptr.advance app.psock.sendlen, sendlen := 0, state := .none,
        psockpt := .start },
    rfl, ircThread_of_ended h
      (psockSend_acked hwaits.psockpt hwaits.state hack (hwaits.sendlen.symm ▸ hfit))⟩

inductive ReadsLine : IrcPt → IrcPt → Prop
  | readto1 : ReadsLine .readto1 .join
  | readto2 : ReadsLine .readto2 .readto
  | readto : ReadsLine .readto .parse

theorem psockReadtoBuf_ended {c : UInt8} {memory : List UInt8} {r : PtResult × List UInt8 × Psock}
    (h : psockReadtoBuf c memory p uip = .inr r) (hr : r.1 ≠ .waiting) :
    r.2.2.psockpt = .start := by
  simp only [psockReadtoBuf] at h
  split at h
  · cases h
  · split at h
    · obtain rfl := Sum.inr.inj h
      rfl
    · obtain rfl := Sum.inr.inj h
      rfl

theorem psockReadtoWait_ended {c : UInt8} {memory : List UInt8} {r : PtResult × List UInt8 × Psock}
    (h : psockReadtoWait c memory p uip = .inr r) (hr : r.1 ≠ .waiting) :
    r.2.2.psockpt = .start := by
  simp only [psockReadtoWait] at h
  split at h
  · exact psockReadtoBuf_ended h hr
  · obtain rfl := Sum.inr.inj h
    exact absurd rfl hr

theorem psockReadto_ended {c : UInt8} {memory : List UInt8} {r : PtResult × List UInt8 × Psock}
    (h : (psockReadto c memory p uip).Returns r) (hr : r.1 ≠ .waiting) :
    r.2.2.psockpt = .start := by
  have hloop : ∀ s, (psockReadtoLoop c uip s).Returns r → r.2.2.psockpt = .start := by
    intro s hs
    refine Comp.Returns.loop_invariant (fun _ => True) (fun r => r.1 ≠ .waiting →
      r.2.2.psockpt = .start)
      (fun _ _ _ _ => trivial) ?_ trivial hs hr
    rintro ⟨memory, q⟩ r - hround
    rw [Comp.returns_pure, psockReadtoRound] at hround
    split at hround
    · exact psockReadtoWait_ended hround
    · exact psockReadtoBuf_ended hround
  unfold psockReadto at h
  split at h
  · exact hloop _ h
  · split at h
    · exact hloop _ h
    · rename_i result hwait
      obtain rfl := Comp.returns_pure.mp h
      exact psockReadtoWait_ended hwait hr

theorem ircThread_readto {pt : IrcPt} (h : ReadsLine pt next) (hpt : app.pt = pt)
    {r : Option (Bool × Messages × IrcState × Uip)} :
    (ircThread m app uip).Returns r ↔ ∃ result inputbuffer psock,
      (psockReadto 0x0A app.inputbuffer app.psock uip).Returns (result, inputbuffer, psock) ∧
      r = if result = .waiting then some (false, m, { app with psock, inputbuffer }, uip)
        else some (true, m, { app with psock, inputbuffer, pt := next }, uip) := by
  have hthread : ircThread m app uip =
      (fun r => some (r.1, m, r.2.1, r.2.2)) <$> ircThreadReadto app uip next := by
    unfold ircThread
    rw [hpt]
    cases h <;> rfl
  rw [hthread, Comp.returns_map]
  simp only [ircThreadReadto, Comp.returns_bind]
  constructor
  · rintro ⟨r', ⟨⟨result, inputbuffer, psock⟩, hread, hr'⟩, rfl⟩
    refine ⟨result, inputbuffer, psock, hread, ?_⟩
    by_cases hwaiting : result = .waiting
    · rw [if_pos hwaiting] at hr' ⊢
      rw [← Comp.returns_pure.mp hr']
    · rw [if_neg hwaiting] at hr' ⊢
      rw [← Comp.returns_pure.mp hr']
  · rintro ⟨result, inputbuffer, psock, hread, rfl⟩
    by_cases hwaiting : result = .waiting
    · refine ⟨(false, { app with psock, inputbuffer }, uip),
        ⟨_, hread, ?_⟩, by rw [if_pos hwaiting]⟩
      simp [hwaiting]
    · refine ⟨(true, { app with psock, inputbuffer, pt := next }, uip), ⟨_, hread, ?_⟩,
        by rw [if_neg hwaiting]⟩
      simp [hwaiting]

theorem ircThread_reads {pt : IrcPt} (h : ReadsLine pt next) (hpt : app.pt = pt)
    {r : Option (Bool × Messages × IrcState × Uip)} (hr : (ircThread m app uip).Returns r) :
    ∃ go psock inputbuffer, (go = true → psock.psockpt = .start) ∧ r = some (go, m,
      { app with psock, inputbuffer, pt := if go then next else pt }, uip) := by
  obtain ⟨result, inputbuffer, psock, hread, rfl⟩ := (ircThread_readto h hpt).mp hr
  by_cases hwaiting : result = .waiting
  · exact ⟨false, psock, inputbuffer, Bool.noConfusion, by simp [hwaiting, ← hpt]⟩
  · exact ⟨true, psock, inputbuffer, fun _ => psockReadto_ended hread hwaiting, by simp [hwaiting]⟩

theorem ircThread_parse (h : app.pt = .parse) {r : Option (Bool × Messages × IrcState × Uip)}
    (hr : (ircThread m app uip).Returns r) :
    r = (ircParseLine app.inputbuffer (psockDatalen app.psock)).map fun a =>
      (true, m.perform a.1, { app with inputbuffer := a.2, pt := .readto }, uip) := by
  unfold ircThread at hr
  rw [h] at hr
  obtain rfl := Comp.returns_pure.mp hr
  cases ircParseLine app.inputbuffer (psockDatalen app.psock) with
  | none => rfl
  | some a => rfl

-- ---------------------------------------------------------------------------
-- The turn of irc_send_thread
-- ---------------------------------------------------------------------------

theorem ircSendThread_start (uip : Uip) (hpt : app.outPt = .message)
    (hidle : app.psockOut.psockpt = .start) (hlen : 0 < m.messagelength) :
    ∃ psockOut, Waits psockOut (.messagebuffer 0) m.messagelength ∧
      (ircSendThread m app uip).Returns (m, { app with psockOut },
        uipSend uip m.messagebuffer.cells (min m.messagelength uip.conn.mss)) := by
  refine ⟨{ app.psockOut with
    sendptr := .messagebuffer 0, sendlen := m.messagelength, state := .dataSent, psockpt := .wait },
    ⟨rfl, rfl, rfl, rfl⟩, ?_⟩
  simp only [ircSendThread, hpt]
  refine Comp.returns_bind.mpr ⟨_, psockSend_start hidle hlen, ?_⟩
  simp [Sendptr.data]

theorem ircSendThread_wait (hwaits : Waits app.psockOut buf len) (hack : uip.flags.acked = false) :
    (ircSendThread m app uip).Returns (m, app,
      if uip.flags.rexmit then uipSend uip (buf.data m.messagebuffer.cells) (min len uip.conn.mss)
      else uip) := by
  cases hpt : app.outPt with
  | message =>
    simp only [ircSendThread, hpt]
    refine Comp.returns_bind.mpr ⟨_, psockSend_wait hwaits.psockpt hwaits.state hack, ?_⟩
    have happ : { app with psockOut := app.psockOut, outPt := .message } = app := by
      cases app
      simp_all
    simp [hwaits.sendptr, hwaits.sendlen, happ]
  | crlf =>
    simp only [ircSendThread, hpt, ircSendCrlf]
    refine Comp.returns_bind.mpr ⟨_, psockSend_wait hwaits.psockpt hwaits.state hack, ?_⟩
    have happ : { app with psockOut := app.psockOut, outPt := .crlf } = app := by
      cases app
      simp_all
    simp [hwaits.sendptr, hwaits.sendlen, happ]

theorem ircSendThread_text_acked (hpt : app.outPt = .message) (hwaits : Waits app.psockOut buf len)
    (hack : uip.flags.acked = true) {r : Messages × IrcState × Uip}
    (hr : (ircSendThread m app uip).Returns r) :
    ∃ psockOut uip', Waits psockOut (.str crlf 0) crlf.length ∧ Later uip uip' ∧
      r = (m, { app with psockOut, outPt := .crlf },
        uipSend uip' crlf (min crlf.length uip.conn.mss)) := by
  simp only [ircSendThread, hpt] at hr
  obtain ⟨⟨result, psockOut, uip'⟩, hsend, hr⟩ := Comp.returns_bind.mp hr
  obtain ⟨rfl, hidle⟩ := psockSend_acked_ended hwaits.psockpt hwaits.state hack hsend
  have hlater := psockSend_later hsend
  rw [if_neg PtResult.noConfusion] at hr
  refine ⟨{ psockOut with
    sendptr := .str crlf 0, sendlen := crlf.length, state := .dataSent, psockpt := .wait },
    uip', ⟨rfl, rfl, rfl, rfl⟩, hlater, hr.unique (Comp.returns_bind.mpr
    ⟨_, psockSend_start hidle (by decide), ?_⟩)⟩
  have hconn : uip'.conn = uip.conn := hlater.conn
  simp [Sendptr.data, hconn]

theorem ircSendThread_text_returns (hpt : app.outPt = .message)
    (hwaits : Waits app.psockOut buf len)
    (hack : uip.flags.acked = true) (hfit : len ≤ uip.conn.mss) :
    ∃ r, (ircSendThread m app uip).Returns r := by
  have hcrlf : ∀ psockOut : Psock, psockOut.psockpt = .start →
      ∃ r, (ircSendCrlf m { app with psockOut } uip).Returns r :=
    fun psockOut hidle => ⟨_, Comp.returns_bind.mpr
      ⟨_, psockSend_start hidle (by decide), Comp.returns_pure.mpr rfl⟩⟩
  obtain ⟨r, hr⟩ := hcrlf { app.psockOut with
    sendptr := app.psockOut.sendptr.advance app.psockOut.sendlen
    sendlen := 0
    state := .none
    psockpt := .start } rfl
  refine ⟨r, ?_⟩
  simp only [ircSendThread, hpt]
  refine Comp.returns_bind.mpr ⟨_, psockSend_acked hwaits.psockpt hwaits.state hack ?_, ?_⟩
  · rwa [hwaits.sendlen]
  · rwa [if_neg PtResult.noConfusion]

theorem ircSendThread_crlf_acked (hpt : app.outPt = .crlf)
    (hwaits : Waits app.psockOut (.str crlf 0) crlf.length) (hack : uip.flags.acked = true)
    (hfit : crlf.length ≤ uip.conn.mss) :
    ∃ psockOut : Psock, psockOut.psockpt = .start ∧
      (ircSendThread m app uip).Returns
        ({ m with messagelength := 0 }, { app with psockOut, outPt := .message }, uip) := by
  refine ⟨{ app.psockOut with
    sendptr := app.psockOut.sendptr.advance app.psockOut.sendlen
    sendlen := 0
    state := .none
    psockpt := .start }, rfl, ?_⟩
  simp only [ircSendThread, hpt, ircSendCrlf]
  refine Comp.returns_bind.mpr ⟨_, psockSend_acked hwaits.psockpt hwaits.state hack ?_, ?_⟩
  · rwa [hwaits.sendlen]
  · simp

theorem ircSendCrlf_later {r : Messages × IrcState × Uip} (hr : (ircSendCrlf m app uip).Returns r) :
    Later uip r.2.2 ∧ r.2.1.pt = app.pt ∧ r.2.1.psock = app.psock := by
  obtain ⟨⟨result, psockOut, uip'⟩, hsend, hr⟩ := Comp.returns_bind.mp hr
  have hlater := psockSend_later hsend
  dsimp only at hr
  split at hr
  · obtain rfl := Comp.returns_pure.mp hr
    exact ⟨hlater, rfl, rfl⟩
  · obtain rfl := Comp.returns_pure.mp hr
    exact ⟨hlater, rfl, rfl⟩

theorem ircSendThread_later {r : Messages × IrcState × Uip}
    (hr : (ircSendThread m app uip).Returns r) :
    Later uip r.2.2 ∧ r.2.1.pt = app.pt ∧ r.2.1.psock = app.psock := by
  unfold ircSendThread at hr
  split at hr
  · obtain ⟨⟨result, psockOut, uip'⟩, hsend, hr⟩ := Comp.returns_bind.mp hr
    have hlater := psockSend_later hsend
    dsimp only at hr
    split at hr
    · obtain rfl := Comp.returns_pure.mp hr
      exact ⟨hlater, rfl, rfl⟩
    · obtain ⟨hlater', hpt, hpsock⟩ := ircSendCrlf_later hr
      exact ⟨hlater.trans hlater', hpt, hpsock⟩
  · exact ircSendCrlf_later hr

end FxIP
