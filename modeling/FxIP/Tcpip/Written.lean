import FxIP.Tcpip.Segments

/-!
# What the application writes

The bytes that the application hands over have their numbers for good: every
segment of a connection carries the part of the stream that its number says, as
long as the application repeats its data when it is asked to.
-/

namespace FxIP.Tcpip

variable {h h' : Host} {s t : Stack} {c c' : UipConn} {e : Event} {es : List Event} {n : Next}
    {i : Fin UIP_CONNS}

-- ---------------------------------------------------------------------------
-- A segment of the peer
-- ---------------------------------------------------------------------------

theorem quiet_not_established (hq : Quiet c c') (hne : c.state ≠ .established)
    (hsyn : c.state ≠ .synRcvd) :
    c'.state ≠ .established := by
  intro hest
  cases hq with
  | same h _ => exact hne (h.symm.trans hest)
  | opened h _ _ => exact hsyn h
  | leaves h => exact h (hest ▸ trivial)

/-- What is outstanding when a connection is established after a step: what was
before, or nothing if it has just been opened. -/
structure Holds (c : UipConn) (acked : Bool) (n : Next) : Prop where
  outstanding : n.stack.cur.state = .established →
    (c.state = .established ∧ n.stack.cur.sndNxt = c.sndNxt ∧ n.stack.cur.len = c.len) ∨
      (c.state ≠ .established ∧ n.stack.cur.len = 0)
  acked : n.resume ≠ none → n.stack.flags.acked → acked

theorem holds_done {acked : Bool} (hs : Sends s t) : Holds s.cur acked (.done t) where
  outstanding hest := by
    have hcur : t.cur = s.cur := hs.cur
    rw [Next.stack, hcur] at hest ⊢
    exact .inl ⟨hest, rfl, rfl⟩
  acked h := absurd rfl h

theorem holds_idle {acked : Bool} (hidle : Idle c n) (hne : c.state ≠ .established)
    (hsyn : c.state ≠ .synRcvd)
    (hflag : n.resume ≠ none → n.stack.flags.acked = false) : Holds c acked n where
  outstanding hest := absurd hest (quiet_not_established hidle.quiet hne hsyn)
  acked hcall h := by cases (hflag hcall).symm.trans h

theorem holds_synRcvd (hst : s.cur.state = .synRcvd) :
    Holds s.cur s.flags.acked (uipSynRcvd s) := by
  rw [uipSynRcvd]
  split
  · let u : Stack :=
      { s.setConn { s.cur with tcpstateflags := { state := .established }, len := 0 } with
      flags := { connected := true, newdata := s.len > 0 } }
    have hcur : u.cur = { s.cur with tcpstateflags := { state := .established }, len := 0 } :=
      Function.update_self ..
    show Holds s.cur s.flags.acked (.appcall .appsend
      { (if s.len > 0 then uipAddRcvNxt u s.len else u) with slen := 0 })
    refine ⟨fun _ => .inr ⟨by rw [hst]; decide, ?_⟩, fun _ h => ?_⟩
    · split
      · show (uipAddRcvNxt u s.len).cur.len = 0
        rw [cur_addRcvNxt, hcur]
      · show u.cur.len = 0
        rw [hcur]
    · split at h <;> cases h
  · exact holds_done (sends_drop s)

theorem holds_synSent (hst : s.cur.state = .synSent) (hn : (uipSynSent s).Returns n) :
    Holds s.cur s.flags.acked n := by
  have hne : s.cur.state ≠ .established := by
    rw [hst]
    decide
  rw [uipSynSent] at hn
  split at hn
  · obtain ⟨mss, -, hn⟩ := Comp.returns_bind.mp hn
    obtain rfl := Comp.returns_pure.mp hn
    refine ⟨fun _ => .inr ⟨hne, ?_⟩, fun _ h => by cases h⟩
    show ((uipAddRcvNxt _ 1).setConn { (uipAddRcvNxt _ 1).cur with len := 0 }).cur.len = 0
    rw [Stack.cur_setConn]
  · obtain rfl := Comp.returns_pure.mp hn
    exact ⟨fun hest => absurd hest hne, fun _ h => by cases h⟩

theorem holds_established (hst : s.cur.state = .established) :
    Holds s.cur s.flags.acked (uipEstablished s) := by
  rw [uipEstablished]
  dsimp only
  split
  · split
    · exact holds_done (sends_drop s)
    · refine ⟨fun _ => .inl ⟨hst, ?_, ?_⟩, fun _ => id⟩
      · show (uipAddRcvNxt s (1 + s.len)).cur.sndNxt = _
        rw [cur_addRcvNxt]
      · show (uipAddRcvNxt s (1 + s.len)).cur.len = _
        rw [cur_addRcvNxt]
  · have hnew : (uipNewdata (uipUrg s)).cur.sndNxt = s.cur.sndNxt ∧
      (uipNewdata (uipUrg s)).cur.len = s.cur.len ∧
        (uipNewdata (uipUrg s)).flags.acked = s.flags.acked := by
      have hurg : (uipUrg s).cur = s.cur ∧ (uipUrg s).flags = s.flags := by
        rw [uipUrg]
        split <;> exact ⟨rfl, rfl⟩
      rw [← hurg.1, ← hurg.2, uipNewdata]
      split
      · refine ⟨?_, ?_, rfl⟩
        · show (uipAddRcvNxt (uipUrg s) _).cur.sndNxt = _
          rw [cur_addRcvNxt]
        · show (uipAddRcvNxt (uipUrg s) _).cur.len = _
          rw [cur_addRcvNxt]
      · exact ⟨rfl, rfl, rfl⟩
    generalize uipNewdata (uipUrg s) = u at hnew
    obtain ⟨hsnd, hlen, hacked⟩ := hnew
    have hset : (u.setConn (u.cur.setWnd (word s.buf.hdr.wnd.1 s.buf.hdr.wnd.2))).cur.sndNxt =
      s.cur.sndNxt ∧
        (u.setConn (u.cur.setWnd (word s.buf.hdr.wnd.1 s.buf.hdr.wnd.2))).cur.len = s.cur.len := by
      rw [Stack.cur_setConn]
      exact ⟨hsnd, hlen⟩
    split
    · exact ⟨fun _ => .inl ⟨hst, hset⟩, fun _ h => hacked ▸ h⟩
    · exact ⟨fun _ => .inl ⟨hst, hset⟩, fun h => absurd rfl h⟩

theorem holds_lastAck (hst : s.cur.state = .lastAck) :
    Holds s.cur s.flags.acked (uipLastAck s) := by
  refine holds_idle idle_lastAck (by simp [hst]) (by simp [hst]) ?_
  rw [uipLastAck]
  split
  · exact fun _ => rfl
  · exact fun h => absurd rfl h

theorem holds_finWait1 (hst : s.cur.state = .finWait1) :
    Holds s.cur s.flags.acked (uipFinWait1 s) := by
  refine holds_idle (idle_finWait1 hst) (by simp [hst]) (by simp [hst]) ?_
  rw [uipFinWait1]
  generalize (if s.len > 0 then uipAddRcvNxt s s.len else s) = t
  dsimp only
  split
  · exact fun _ => rfl
  · split
    · exact fun h => absurd rfl h
    · split <;> exact fun h => absurd rfl h

theorem holds_finWait2 (hst : s.cur.state = .finWait2) :
    Holds s.cur s.flags.acked (uipFinWait2 s) := by
  refine holds_idle (idle_finWait2 hst) (by simp [hst]) (by simp [hst]) ?_
  rw [uipFinWait2]
  generalize (if s.len > 0 then uipAddRcvNxt s s.len else s) = t
  dsimp only
  split
  · exact fun _ => rfl
  · split <;> exact fun h => absurd rfl h

theorem holds_closing (hst : s.cur.state = .closing) : Holds s.cur s.flags.acked (uipClosing s) :=
  holds_idle (idle_closing hst) (by simp [hst]) (by simp [hst]) fun h => absurd rfl h

theorem holds_switch (hn : (uipSwitch s).Returns n) : Holds s.cur s.flags.acked n := by
  rw [uipSwitch] at hn
  split at hn
  · rename_i hst
    exact Comp.returns_pure.mp hn ▸ holds_synRcvd hst
  · rename_i hst
    exact holds_synSent hst hn
  · rename_i hst
    exact Comp.returns_pure.mp hn ▸ holds_established hst
  · rename_i hst
    exact Comp.returns_pure.mp hn ▸ holds_lastAck hst
  · rename_i hst
    exact Comp.returns_pure.mp hn ▸ holds_finWait1 hst
  · rename_i hst
    exact Comp.returns_pure.mp hn ▸ holds_finWait2 hst
  · exact Comp.returns_pure.mp hn ▸ holds_done (sends_tcpSendAck s)
  · rename_i hst
    exact Comp.returns_pure.mp hn ▸ holds_closing hst
  · exact Comp.returns_pure.mp hn ▸ holds_done (sends_drop s)

/-- What a segment for a connection that is established may do to what is
outstanding. -/
inductive Acks (hdr : TcpipHdr) (c : UipConn) (n : Next) : Prop
  | same : n.stack.cur.sndNxt = c.sndNxt → n.stack.cur.len = c.len →
      (n.resume ≠ none → n.stack.flags.acked = false) →
      Acks hdr c n
  | acked : hdr.ackno = uipAdd32 c.sndNxt c.len → n.stack.cur.sndNxt = uipAdd32 c.sndNxt c.len →
      n.stack.cur.len = 0 → Acks hdr c n

theorem acked_fields (c : UipConn) : c.acked.sndNxt = uipAdd32 c.sndNxt c.len ∧
    c.acked.len = 0 := by
  rw [UipConn.acked]
  dsimp only
  split <;> exact ⟨rfl, rfl⟩

theorem ackno_of_acks {hdr : TcpipHdr} (h : c.acks hdr) : hdr.ackno = uipAdd32 c.sndNxt c.len := by
  rw [UipConn.acks, Bool.and_eq_true, Bool.and_eq_true] at h
  exact of_decide_eq_true h.2

/-- A segment leads to ESTABLISHED with nothing outstanding, or acknowledges all
that is outstanding or nothing. -/
theorem acks_found (hn : (uipFound s i).Returns n) (hest : n.stack.cur.state = .established) :
    ((s.conns i).state = .established ∧ Acks s.buf.hdr (s.conns i) n) ∨
      ((s.conns i).state ≠ .established ∧ n.stack.cur.len = 0) := by
  rw [uipFound] at hn
  dsimp only at hn
  split at hn
  · obtain rfl := Comp.returns_pure.mp hn
    have hclosed : (({ s with conn := i, flags := {} } : Stack).setConn
        { (s.conns i) with tcpstateflags := .closed }).cur.state = .closed := by
      rw [Stack.cur_setConn]
      rfl
    cases hest.symm.trans hclosed
  · let u : Stack := { s with conn := i, flags := {}, len := s.dataLen }
    change Comp.Returns (if u.cur.unexpected u.buf.hdr u.len then pure (.done (tcpSendAck u))
      else uipSwitch (uipAcks u)) n at hn
    show (u.cur.state = _ ∧ Acks u.buf.hdr u.cur n) ∨ _
    split at hn
    · obtain rfl := Comp.returns_pure.mp hn
      have hcur : (tcpSendAck u).cur = u.cur := (sends_tcpSendAck u).cur
      rw [Next.stack, hcur] at hest
      exact .inl ⟨hest, .same (congrArg _ hcur) (congrArg _ hcur) fun h => absurd rfl h⟩
    · rw [uipAcks] at hn
      split at hn
      · rename_i hacks
        obtain ⟨hsnd, hlen⟩ := acked_fields u.cur
        have hcur : ({ u.setConn u.cur.acked with flags := { acked := true } } : Stack).cur =
            u.cur.acked :=
          Function.update_self ..
        have hholds := holds_switch hn
        rw [hcur] at hholds
        rcases hholds.outstanding hest with ⟨hst, hsnd', hlen'⟩ | ⟨hst, hlen'⟩
        · rw [(state_acked u.cur).1] at hst
          exact .inl ⟨hst, .acked (ackno_of_acks hacks) (hsnd'.trans hsnd) (hlen'.trans hlen)⟩
        · rw [(state_acked u.cur).1] at hst
          exact .inr ⟨hst, hlen'⟩
      · have hholds := holds_switch hn
        rcases hholds.outstanding hest with ⟨hst, hsnd', hlen'⟩ | ⟨hst, hlen'⟩
        · refine .inl ⟨hst, .same hsnd' hlen' fun hcall => ?_⟩
          exact Bool.eq_false_iff.mpr fun h => Bool.false_ne_true (hholds.acked hcall h)
        · exact .inr ⟨hst, hlen'⟩

-- ---------------------------------------------------------------------------
-- The return of the application
-- ---------------------------------------------------------------------------

def UipConn.fit (c : UipConn) (slen : UInt16) : UInt16 := if slen > c.mss then c.mss else slen

def Stack.newWritten (s : Stack) (a : AppReturn) : List UInt8 :=
  if ¬ a.flags.aborted ∧ ¬ a.flags.closed ∧ a.slen > 0 ∧ (s.cur.len = 0 ∨ a.flags.acked) then
    a.data.cells.take (s.cur.fit a.slen).toNat
  else []

/-- The application takes back none of the flags, and repeats what is outstanding
whenever it sends. -/
structure Repeats (s : Stack) (outstanding : List UInt8) (a : AppReturn) : Prop where
  acked : a.flags.acked → s.flags.acked
  data : a.slen > 0 → s.cur.len ≠ 0 → a.data.cells.take s.cur.len.toNat = outstanding

theorem conn_returned (s : Stack) (a : AppReturn) : (uipAppReturn s a).cur =
    { s.cur with tcpstateflags := { s.cur.tcpstateflags with stopped := a.stopped } } :=
  Function.update_self ..

theorem appsendLen_cur (s : Stack) : (uipAppsendLen s).cur.state = s.cur.state ∧
    (uipAppsendLen s).cur.sndNxt = s.cur.sndNxt ∧ (uipAppsendLen s).cur.len =
      if s.slen > 0 ∧ (s.cur.len = 0 ∨ s.flags.acked) then s.cur.fit s.slen else s.cur.len := by
  rw [uipAppsendLen]
  by_cases hpos : s.slen > 0
  · rw [if_pos hpos]
    have hacked : (if s.flags.acked then s.setConn { s.cur with len := 0 } else s).cur =
        { s.cur with len := if s.flags.acked then 0 else s.cur.len } := by
      split
      · exact Stack.cur_setConn
      · rfl
    have hslen : (if s.flags.acked then s.setConn { s.cur with len := 0 } else s).slen =
        s.slen := by
      split <;> rfl
    generalize (if s.flags.acked then s.setConn { s.cur with len := 0 } else s) = u at hacked hslen
    have hlen : u.cur.len = 0 ↔ s.cur.len = 0 ∨ s.flags.acked := by
      rw [hacked]
      by_cases h : s.flags.acked <;> simp [h]
    dsimp only
    by_cases hzero : u.cur.len = 0
    · have hnew : s.slen > 0 ∧ (s.cur.len = 0 ∨ s.flags.acked) := ⟨hpos, hlen.mp hzero⟩
      rw [if_pos hzero, if_pos hnew, Stack.cur_setConn]
      have hsame : u.cur.state = s.cur.state ∧ u.cur.sndNxt = s.cur.sndNxt := by
        rw [hacked]
        exact ⟨rfl, rfl⟩
      refine ⟨hsame.1, hsame.2, ?_⟩
      show (if u.slen > u.cur.mss then u.cur.mss else u.slen) = _
      rw [hslen, hacked]
      rfl
    · have hold : ¬ (s.slen > 0 ∧ (s.cur.len = 0 ∨ s.flags.acked)) := fun h => hzero (hlen.mpr h.2)
      rw [if_neg hzero, if_neg hold]
      have hsame : u.cur.state = s.cur.state ∧ u.cur.sndNxt = s.cur.sndNxt := by
        rw [hacked]
        exact ⟨rfl, rfl⟩
      refine ⟨hsame.1, hsame.2, ?_⟩
      show u.cur.len = _
      rw [hacked]
      exact if_neg fun h => hzero (hlen.mpr (.inr h))
  · rw [if_neg hpos, if_neg fun h => hpos h.1]
    exact ⟨rfl, rfl, rfl⟩

theorem appsend_returned (s : Stack) (a : AppReturn)
    (hest : (uipResume (uipAppReturn s a) .appsend).cur.state = .established) :
    ¬ a.flags.aborted ∧ ¬ a.flags.closed ∧ s.cur.state = .established ∧
      (uipResume (uipAppReturn s a) .appsend).cur.sndNxt = s.cur.sndNxt ∧
      (uipResume (uipAppReturn s a) .appsend).cur.len =
        if a.slen > 0 ∧ (s.cur.len = 0 ∨ a.flags.acked) then s.cur.fit a.slen else s.cur.len := by
  have hflags : (uipAppReturn s a).flags = a.flags := rfl
  rw [uipResume, uipAppsend, hflags] at hest ⊢
  split at hest
  · rw [(sends_tcpSendNodata _ _).cur, Stack.cur_setConn] at hest
    cases hest
  · rename_i haborted
    split at hest
    · rw [(sends_tcpSendNodata _ _).cur, Stack.cur_setConn] at hest
      cases hest
    · rename_i hclosed
      rw [(sends_apprexmit _).cur, Stack.cur_setConn] at hest
      rw [if_neg haborted, if_neg hclosed, (sends_apprexmit _).cur, Stack.cur_setConn]
      obtain ⟨hstate, hcur⟩ := appsendLen_cur (uipAppReturn s a)
      rw [conn_returned] at hstate hcur
      exact ⟨haborted, hclosed, hstate.symm.trans hest, hcur⟩

theorem other_returned (s : Stack) (a : AppReturn) {r : Resume} (hr : r ≠ .appsend)
    (hest : (uipResume (uipAppReturn s a) r).cur.state = .established) :
    s.cur.state = .established ∧ (uipResume (uipAppReturn s a) r).cur.sndNxt = s.cur.sndNxt ∧
      (uipResume (uipAppReturn s a) r).cur.len = s.cur.len := by
  have hsame {t : Stack} (ht : Sends (uipAppReturn s a) t) (hest : t.cur.state = .established) :
      s.cur.state = .established ∧ t.cur.sndNxt = s.cur.sndNxt ∧ t.cur.len = s.cur.len := by
    rw [ht.cur, conn_returned] at hest ⊢
    exact ⟨hest, rfl, rfl⟩
  cases r with
  | appsend => exact absurd rfl hr
  | drop => exact hsame (sends_drop _) hest
  | apprexmit => exact hsame (sends_apprexmit _) hest
  | timedout => exact hsame (sends_tcpSendNodata _ _) hest
  | ack => exact hsame (sends_tcpSendAck _) hest
  | finack =>
    have hread : Reading (uipResume (uipAppReturn s a) .finack).cur.state := by
      rw [hest]
      trivial
    exact absurd hread ((quiet_resume _ .finack).2 rfl)
  | reset =>
    rw [uipResume, (sends_reset _).cur, Stack.cur_setConn] at hest
    cases hest

-- ---------------------------------------------------------------------------
-- The stream
-- ---------------------------------------------------------------------------

/-- The host, with the number of the first byte, all that the application has
written to connection `i` and all packets that were sent for it since it was
established. -/
structure Sent where
  host : Host
  first : BitVec 32
  written : List UInt8
  sent : List (List UInt8)

/-- What the application writes to connection `i` in a step. -/
def Host.writes (h : Host) (i : Fin UIP_CONNS) : Event → List UInt8
  | .appReturn a =>
    if h.calling = some .appsend ∧ h.stack.conn = i then h.stack.newWritten a else []
  | _ => []

/-- The packet after a step, if it is to be taken for a segment of connection `i`. -/
def Host.transmits (h' : Host) (i : Fin UIP_CONNS) (e : Event) : List (List UInt8) :=
  if e.emits ∧ h'.calling = none ∧ Taken i h'.stack then [h'.stack.packet] else []

def Sent.next (i : Fin UIP_CONNS) (d : Sent) (e : Event) (h' : Host) : Sent :=
  let c := d.host.stack.conns i
  let c' := h'.stack.conns i
  if c.state ≠ .established ∧ c'.state = .established then
    { host := h', first := c'.sndNxt.num, written := [], sent := [] }
  else if c'.state = .established then
    { d with
      host := h'
      written := d.written ++ d.host.writes i e
      sent := d.sent ++ h'.transmits i e }
  else { d with host := h' }

def SentStep (i : Fin UIP_CONNS) (d : Sent) (e : Event) (d' : Sent) : Prop :=
  HostStep d.host e d'.host ∧ d' = d.next i e d'.host

def Sent.place (i : Fin UIP_CONNS) (d : Sent) : Nat :=
  d.written.length - (d.host.stack.conns i).len.toNat

/-- Whenever the application of connection `i` sends and something is outstanding,
it sends that again. -/
def AppRepeats (i : Fin UIP_CONNS) (d : Sent) : Event → Prop
  | .appReturn a => d.host.stack.conn = i → d.host.calling = some .appsend ∨
      d.host.calling = some .apprexmit →
      Repeats d.host.stack (d.written.drop (d.place i)) a
  | _ => True

structure Sent.Ok (i : Fin UIP_CONNS) (d : Sent) : Prop where
  len : (d.host.stack.conns i).state = .established →
    (d.host.stack.conns i).len.toNat ≤ d.written.length
  sndNxt : (d.host.stack.conns i).state = .established →
    (d.host.stack.conns i).sndNxt.num = Stream.number d.first (d.place i)
  acked : (d.host.stack.conns i).state = .established → d.host.calling ≠ none →
    d.host.stack.conn = i →
    d.host.stack.flags.acked → (d.host.stack.conns i).len = 0

variable {d d' : Sent}

theorem next_established (hst : (d.host.stack.conns i).state = .established)
    (hest : (h'.stack.conns i).state = .established) : d.next i e h' =
      { d with
        host := h'
        written := d.written ++ d.host.writes i e
        sent := d.sent ++ h'.transmits i e } := by
  rw [Sent.next, if_neg fun h => h.1 hst, if_pos hest]

theorem next_closed (hest : (h'.stack.conns i).state ≠ .established) : d.next i
    e h' = { d with host := h' } := by
  rw [Sent.next, if_neg fun h => hest h.2, if_neg hest]

theorem ok_closed (hest : (h'.stack.conns i).state ≠ .established) : (d.next i e h').Ok i := by
  rw [next_closed hest]
  exact ⟨fun h => absurd h hest, fun h => absurd h hest, fun h => absurd h hest⟩

theorem sent_opened (hne : (d.host.stack.conns i).state ≠ .established)
    (hlen : (h'.stack.conns i).state = .established → (h'.stack.conns i).len = 0) :
    (d.next i e h').Ok i := by
  by_cases hest : (h'.stack.conns i).state = .established
  · have hzero : (h'.stack.conns i).len.toNat = 0 := by
      rw [hlen hest]
      rfl
    rw [Sent.next, if_pos ⟨hne, hest⟩]
    refine ⟨fun _ => Nat.le_of_eq hzero, fun _ => ?_, fun _ _ _ _ => hlen hest⟩
    rw [Sent.place, List.length_nil, Nat.zero_sub, Stream.number_zero]
  · exact ok_closed hest

theorem sent_same (hok : d.Ok i) (hwrites : d.host.writes i e = [])
    (hsame : (h'.stack.conns i).state = .established → (d.host.stack.conns i).state = .established ∧
      (h'.stack.conns i).sndNxt = (d.host.stack.conns i).sndNxt ∧
      (h'.stack.conns i).len = (d.host.stack.conns i).len)
    (hacked : (h'.stack.conns i).state = .established → h'.calling ≠ none → h'.stack.conn = i →
      h'.stack.flags.acked → (h'.stack.conns i).len = 0) : (d.next i e h').Ok i := by
  by_cases hest : (h'.stack.conns i).state = .established
  · obtain ⟨hst, hsnd, hlen⟩ := hsame hest
    rw [next_established hst hest, hwrites, List.append_nil]
    refine ⟨fun _ => ?_, fun _ => ?_, hacked⟩
    · show (h'.stack.conns i).len.toNat ≤ _
      rw [hlen]
      exact hok.len hst
    · show (h'.stack.conns i).sndNxt.num = Stream.number d.first
        (d.written.length - (h'.stack.conns i).len.toNat)
      rw [hsnd, hlen]
      exact hok.sndNxt hst
  · exact ok_closed hest

theorem sent_acked (hok : d.Ok i) (hwrites : d.host.writes i e = [])
    (hst : (d.host.stack.conns i).state = .established)
    (hest : (h'.stack.conns i).state = .established)
    (hsnd : (h'.stack.conns i).sndNxt = uipAdd32 (d.host.stack.conns i).sndNxt
      (d.host.stack.conns i).len)
    (hlen : (h'.stack.conns i).len = 0) : (d.next i e h').Ok i := by
  have hle := hok.len hst
  rw [next_established hst hest, hwrites, List.append_nil]
  refine ⟨fun _ => ?_, fun _ => ?_, fun _ _ _ _ => hlen⟩
  · show (h'.stack.conns i).len.toNat ≤ _
    rw [hlen]
    exact Nat.zero_le _
  · show (h'.stack.conns i).sndNxt.num = Stream.number d.first
      (d.written.length - (h'.stack.conns i).len.toNat)
    rw [hsnd, num_uipAdd32, hok.sndNxt hst, ← Stream.number_add, Sent.place, hlen]
    congr 1
    show _ = d.written.length - 0
    omega

theorem length_fit (a : AppReturn) (hmss : c.mss ≤ TCP_MSS) :
    (a.data.cells.take (c.fit a.slen).toNat).length = (c.fit a.slen).toNat := by
  have hmss := UInt16.le_iff_toNat_le.mp hmss
  have hle : (c.fit a.slen).toNat ≤ 1460 := by
    rw [UipConn.fit]
    split
    · exact hmss
    · rename_i hgt
      exact Nat.le_trans (UInt16.le_iff_toNat_le.mp (UInt16.not_lt.mp hgt)) hmss
  rw [List.length_take, a.data.size, UIP_DATA_SIZE]
  omega

theorem sent_new {a : AppReturn} (hok : d.Ok i) (hhost : d.host = ⟨s, some .appsend⟩)
    (hi : s.conn = i) (hmss : s.cur.mss ≤ TCP_MSS) (hzero : s.cur.len = 0) (hpos : a.slen > 0)
    (hest : (uipResume (uipAppReturn s a) .appsend).cur.state = .established) :
    (d.next i (.appReturn a) ⟨uipResume (uipAppReturn s a) .appsend, none⟩).Ok i := by
  obtain ⟨haborted, hclosed, hst, hsnd, hlen⟩ := appsend_returned s a hest
  have hcond : a.slen > 0 ∧ (s.cur.len = 0 ∨ a.flags.acked) := ⟨hpos, .inl hzero⟩
  rw [if_pos hcond] at hlen
  have hk := kept_resume (r := .appsend) (kept_appReturn a (.refl s))
  rw [hk.cur, hi] at hest hsnd hlen
  have hconns : d.host.stack.conns i = s.cur := by rw [hhost, Stack.cur, hi]
  have hwrites : d.host.writes i (.appReturn a) = a.data.cells.take (s.cur.fit a.slen).toNat := by
    rw [hhost, Host.writes, if_pos ⟨rfl, hi⟩, Stack.newWritten, if_pos ⟨haborted, hclosed, hcond⟩]
  have htake := length_fit a hmss
  rw [next_established (hconns ▸ hst) hest, hwrites]
  refine ⟨fun _ => ?_, fun _ => ?_, fun _ hcall => absurd rfl hcall⟩
  · show ((uipResume (uipAppReturn s a) .appsend).conns i).len.toNat ≤ _
    rw [hlen, List.length_append, htake]
    exact Nat.le_add_left ..
  · have hplace := hok.sndNxt (hconns ▸ hst)
    rw [hconns, Sent.place, hconns, hzero] at hplace
    show ((uipResume (uipAppReturn s a) .appsend).conns i).sndNxt.num =
      Stream.number d.first (_ - _)
    rw [hlen, hsnd, List.length_append, htake, Nat.add_sub_cancel]
    exact hplace

theorem sent_return {a : AppReturn} {r : Resume} (hok : d.Ok i) (hhost : d.host = ⟨s, some r⟩)
    (hi : s.conn = i) (hmss : s.cur.mss ≤ TCP_MSS) (hrepeats : AppRepeats i d (.appReturn a)) :
    (d.next i (.appReturn a) ⟨uipResume (uipAppReturn s a) r, none⟩).Ok i := by
  have hk := kept_resume (r := r) (kept_appReturn a (.refl s))
  have hconns : d.host.stack.conns i = s.cur := by rw [hhost, Stack.cur, hi]
  have hcur : (uipResume (uipAppReturn s a) r).cur = (uipResume (uipAppReturn s a) r).conns
    i := by rw [hk.cur, hi]
  by_cases hr : r = .appsend
  · subst hr
    by_cases hest : (uipResume (uipAppReturn s a) .appsend).cur.state = .established
    · obtain ⟨haborted, hclosed, hst, hsnd, hlen⟩ := appsend_returned s a hest
      by_cases hcond : a.slen > 0 ∧ (s.cur.len = 0 ∨ a.flags.acked)
      · have hzero : s.cur.len = 0 := by
          rcases hcond.2 with hzero | hacked
          · exact hzero
          · have hflag :=
              (hrepeats (by rw [hhost]; exact hi) (by rw [hhost]; exact .inl rfl)).acked hacked
            rw [hhost] at hflag
            have hacked' := hok.acked (hconns ▸ hst)
            rw [hconns, hhost] at hacked'
            exact hacked' (Option.some_ne_none _) hi hflag
        exact sent_new hok hhost hi hmss hzero hcond.1 hest
      · rw [if_neg hcond] at hlen
        refine sent_same hok ?_ (fun _ => ?_) fun _ h => absurd rfl h
        · rw [hhost, Host.writes, if_pos ⟨rfl, hi⟩, Stack.newWritten, if_neg fun h => hcond h.2.2]
        · rw [hconns, ← hcur]
          exact ⟨hst, hsnd, hlen⟩
    · rw [hcur] at hest
      exact ok_closed hest
  · refine sent_same hok ?_ (fun hest => ?_) fun _ h => absurd rfl h
    · rw [hhost, Host.writes, if_neg fun h => hr (Option.some.inj h.1)]
    · rw [← hcur] at hest ⊢
      rw [hconns]
      exact other_returned s a hr hest

theorem sent_step (hbounded : ∀ j, (d.host.stack.conns j).Bounded) (hok : d.Ok i)
    (hrepeats : AppRepeats i d e) (hstep : SentStep i d e d') : d'.Ok i := by
  obtain ⟨hhost, hnext⟩ := hstep
  rw [hnext]
  clear hnext
  generalize hd : d.host = h at hhost hbounded
  generalize d'.host = h' at hhost
  cases at_step i hhost with
  | elsewhere hconns hfree hother =>
    refine sent_same hok ?_ (fun hest => ?_) fun _ hcall hconn => absurd hconn (hother hcall)
    · rw [hd]
      cases e with
      | appReturn a =>
        refine if_neg ?_
        rintro ⟨hcalling, hconn⟩
        exact hfree (hcalling ▸ Option.some_ne_none _) hconn
      | _ => rfl
    · rw [hd, ← hconns]
      exact ⟨hest, rfl, rfl⟩
  | @opens s t _ ho =>
    have hne : (t.conns i).state ≠ .established := by
      rcases ho.state with hst | hst
      · rw [UipConn.state, hst]
        decide
      · rw [UipConn.state, hst]
        decide
    exact ok_closed hne
  | @found s frame n hlen ha hmatches hfound =>
    have hk := kept_found _ hfound
    have hcur : n.stack.cur = n.host.stack.conns i := hk.cur
    have hconns : d.host.stack.conns i = s.conns i := by rw [hd]
    by_cases hest : n.stack.cur.state = .established
    · rcases acks_found (s := (s.receive frame).trimmed) hfound hest with
        ⟨hst, hacks⟩ | ⟨hne, hzero⟩
      · have hst : (d.host.stack.conns i).state = .established := hconns ▸ hst
        cases hacks with
        | same hsnd hlen hflag =>
          refine sent_same hok rfl (fun _ => ?_) fun _ hcall _ hacked => ?_
          · rw [hconns, ← hcur]
            exact ⟨hconns ▸ hst, hsnd, hlen⟩
          · cases (hflag hcall).symm.trans hacked
        | acked _ hsnd hlen =>
          rw [hcur] at hsnd hlen
          refine sent_acked hok rfl hst (hcur ▸ hest) ?_ hlen
          rw [hconns]
          exact hsnd
      · exact sent_opened (hconns ▸ hne) fun _ => hcur ▸ hzero
    · rw [hcur] at hest
      exact ok_closed hest
  | @timer s =>
    have hk := kept_timer (kept_select s i)
    obtain ⟨hticks, hflag⟩ := ticks_timer { s with conn := i }
    have hconns : d.host.stack.conns i = s.conns i := by rw [hd]
    rw [hk.cur] at hticks
    refine sent_same hok rfl (fun hest => ?_) fun _ hcall _
      hacked => by cases (hflag hcall).symm.trans hacked
    rw [hconns]
    exact hticks.established hest
  | @poll s =>
    have hk := kept_poll (kept_select s i)
    have hpoll : (uipPoll { s with conn := i }).stack.cur = s.conns i ∧
        ((uipPoll { s with conn := i }).resume ≠ none →
            (uipPoll { s with conn := i }).stack.flags.acked = false) := by
      rw [uipPoll]
      dsimp only
      split
      · exact ⟨rfl, fun _ => rfl⟩
      · exact ⟨rfl, fun h => absurd rfl h⟩
    rw [hk.cur] at hpoll
    refine sent_same hok rfl (fun hest => ?_) fun _ hcall _
      hacked => by cases (hpoll.2 hcall).symm.trans hacked
    rw [hd]
    have hconn : (uipPoll { s with conn := i }).host.stack.conns i = s.conns i := hpoll.1
    rw [hconn] at hest ⊢
    exact ⟨hest, rfl, rfl⟩
  | @memory _ behind =>
    have hacked := hok.acked
    rw [hd] at hacked
    refine sent_same hok rfl (fun hest => ?_) hacked
    rw [hd]
    exact ⟨hest, rfl, rfl⟩
  | @returns s a r hi =>
    subst hi
    exact sent_return hok hd rfl (hbounded s.conn).mss hrepeats

-- ---------------------------------------------------------------------------
-- Every run
-- ---------------------------------------------------------------------------

theorem data_repeated {a : AppReturn} {r : Resume} (hhost : d.host = ⟨s, some r⟩) (hi : s.conn = i)
    (hr : r = .appsend ∨ r = .apprexmit) (hrepeats : AppRepeats i d (.appReturn a))
    (hpos : a.slen > 0)
    (hst : s.cur.state = .established) (hest : (h'.stack.conns i).state = .established)
    (hwrites : d.host.writes i (.appReturn a) = []) (hlen : (h'.stack.conns i).len = s.cur.len)
    (hlpos : (h'.stack.conns i).len > 0) :
    a.data.cells.take (h'.stack.conns i).len.toNat =
      (d.next i (.appReturn a) h').written.drop ((d.next i (.appReturn a) h').place i) := by
  have hconns : d.host.stack.conns i = s.cur := by rw [hhost, Stack.cur, hi]
  have hdata :=
    (hrepeats (by rw [hhost]; exact hi)
      (by rw [hhost]; exact hr.imp (congrArg _) (congrArg _))).data hpos
  rw [next_established (hconns ▸ hst) hest, hwrites, List.append_nil, hlen]
  rw [hhost, Sent.place, hconns, ← hlen] at hdata
  rw [← hlen]
  exact hdata fun hzero => absurd hlpos (by rw [hlen, show s.cur.len = 0 from hlen ▸ hzero]; decide)

theorem data_return {a : AppReturn} {r : Resume} (hhost : d.host = ⟨s, some r⟩) (hi : s.conn = i)
    (hr : r = .appsend ∨ r = .apprexmit) (hrepeats : AppRepeats i d (.appReturn a))
    (hpos : a.slen > 0)
    (hmss : s.cur.mss ≤ TCP_MSS) (hhost' : h' = ⟨uipResume (uipAppReturn s a) r, none⟩)
    (hest : (h'.stack.conns i).state = .established) (hlen : (h'.stack.conns i).len > 0) :
    a.data.cells.take (h'.stack.conns i).len.toNat =
      (d.next i (.appReturn a) h').written.drop ((d.next i (.appReturn a) h').place i) := by
  have hk := kept_resume (r := r) (kept_appReturn a (.refl s))
  have hcur : (uipResume (uipAppReturn s a) r).cur = h'.stack.conns i := by rw [hk.cur, hi, hhost']
  rcases hr with rfl | rfl
  · obtain ⟨haborted, hclosed, hst, -, hlen'⟩ := appsend_returned s a (hcur ▸ hest)
    rw [hcur] at hlen'
    by_cases hcond : a.slen > 0 ∧ (s.cur.len = 0 ∨ a.flags.acked)
    · rw [if_pos hcond] at hlen'
      have hconns : d.host.stack.conns i = s.cur := by rw [hhost, Stack.cur, hi]
      have hwrites : d.host.writes i (.appReturn a) =
          a.data.cells.take (s.cur.fit a.slen).toNat := by
        rw [hhost, Host.writes, if_pos ⟨rfl, hi⟩, Stack.newWritten,
          if_pos ⟨haborted, hclosed, hcond⟩]
      rw [next_established (hconns ▸ hst) hest, hwrites, hlen', Sent.place]
      show _ = (d.written ++ _).drop ((d.written ++ _).length - (h'.stack.conns i).len.toNat)
      rw [hlen', List.length_append, length_fit a hmss, Nat.add_sub_cancel, List.drop_left]
    · rw [if_neg hcond] at hlen'
      refine data_repeated hhost hi (.inl rfl) hrepeats hpos hst hest ?_ hlen' hlen
      rw [hhost, Host.writes, if_pos ⟨rfl, hi⟩, Stack.newWritten, if_neg fun h => hcond h.2.2]
  · obtain ⟨hst, -, hlen'⟩ := other_returned s a (r := .apprexmit) (by decide) (hcur ▸ hest)
    rw [hcur] at hlen'
    refine data_repeated hhost hi (.inr rfl) hrepeats hpos hst hest ?_ hlen' hlen
    rw [hhost, Host.writes, if_neg fun h => by cases h.1]

end FxIP.Tcpip
