import FxIP.Tcpip.Connections

/-!
# What the application is given

What each function of `uip_process` does to the number that is expected next
from the peer, and the data that it calls the application for.
-/

namespace FxIP.Tcpip

variable {s t u : Stack} {b : UipBuf} {len : UInt16} {c c' c'' : UipConn} {n : Next}
    {i : Fin UIP_CONNS} {r : Resume}

def UipConn.state (c : UipConn) : TcpState := c.tcpstateflags.state

/-- The new data that the application is called for, at `uip_appdata`. -/
def Stack.newdata (s : Stack) : List UInt8 :=
  if s.flags.newdata then (s.buf.data.cells.drop s.appdata).take s.len.toNat else []

def Next.given : Next → List UInt8
  | .done _ => []
  | .appcall _ s => s.newdata

/-- The states in which data is still to come for the application. -/
def Reading : TcpState → Prop
  | .synRcvd | .established => True
  | _ => False

instance (st : TcpState) : Decidable (Reading st) := by
  unfold Reading
  cases st <;> infer_instance

/-- The segment is the one that is expected next, if it has data. -/
def Expected (b : UipBuf) (len : UInt16) (c : UipConn) : Prop := len > 0 → b.hdr.seqno = c.rcvNxt

/-- The data of a segment, behind headers without options. -/
def UipBuf.payload (b : UipBuf) (len : UInt16) : List UInt8 := b.data.cells.take len.toNat

/-- What a connection may become while no data is taken from the peer. -/
inductive Quiet (c c' : UipConn) : Prop
  | same : c'.state = c.state → c'.rcvNxt = c.rcvNxt → Quiet c c'
  | opened : c.state = .synRcvd → c'.state = .established → c'.rcvNxt = c.rcvNxt → Quiet c c'
  | leaves : ¬ Reading c'.state → Quiet c c'

structure Idle (c : UipConn) (n : Next) : Prop where
  given : n.given = []
  resume : n.resume ≠ some .finack
  quiet : Quiet c n.stack.cur

/-- What a segment in `b` with `len` bytes of data may do to its connection `c`. -/
inductive Receives (b : UipBuf) (len : UInt16) (c : UipConn) (n : Next) : Prop
  | quiet : Idle c n → Receives b len c n
  | synack : n.given = [] → n.resume ≠ some .finack → c.state = .synSent →
      n.stack.cur.state = .established →
      Receives b len c n
  | data : n.given = b.payload len → n.resume ≠ some .finack → Reading c.state →
      n.stack.cur.state = .established →
      b.hdr.seqno = c.rcvNxt → n.stack.cur.rcvNxt = uipAdd32 c.rcvNxt len → Receives b len c n
  | fin : n.given = b.payload len → n.resume = some .finack → c.state = .established →
      n.stack.cur.state = .established → Expected b len c → Receives b len c n

-- ---------------------------------------------------------------------------
-- Without data
-- ---------------------------------------------------------------------------

theorem Quiet.refl (c : UipConn) : Quiet c c := .same rfl rfl

theorem quiet_sends (hs : Sends s t) (hq : Quiet c s.cur) : Quiet c t.cur := by rwa [hs.cur]

theorem idle_sends (hs : Sends t u) (hq : Quiet c t.cur) : Idle c (.done u) where
  given := rfl
  resume h := by cases h
  quiet := quiet_sends hs hq

theorem idle_call (hnew : t.flags.newdata = false) (hr : r ≠ .finack) (hq : Quiet c t.cur) :
    Idle c (.appcall r t) where
  given := by
    rw [Next.given, Stack.newdata, hnew]
    rfl
  resume h := hr (Option.some.inj h)
  quiet := hq

theorem newdata_payload (hnew : t.flags.newdata = true) (happ : t.appdata = 0)
    (hlen : t.len = s.len) (hbuf : t.buf = s.buf) : t.newdata = s.buf.payload s.len := by
  rw [Stack.newdata, hnew, if_pos rfl, happ, List.drop_zero, hlen, hbuf, UipBuf.payload]

theorem payload_of_zero (hlen : ¬ len > 0) : b.payload len = [] := by
  have hzero : len = 0 := by
    by_contra hne
    exact hlen (UInt16.pos_iff_ne_zero.mpr hne)
  rw [UipBuf.payload, hzero]
  rfl

section
variable (s : Stack) (n : UInt16)
theorem cur_addRcvNxt : (uipAddRcvNxt s n).cur = { s.cur with rcvNxt := uipAdd32 s.cur.rcvNxt n } :=
  Stack.cur_setConn
@[simp] theorem flags_addRcvNxt : (uipAddRcvNxt s n).flags = s.flags := rfl
@[simp] theorem len_addRcvNxt : (uipAddRcvNxt s n).len = s.len := rfl
end

-- ---------------------------------------------------------------------------
-- The states
-- ---------------------------------------------------------------------------

theorem receives_synRcvd (hst : s.cur.state = .synRcvd) (happ : s.appdata = 0)
    (hexp : Expected s.buf s.len s.cur) :
    Receives s.buf s.len s.cur (uipSynRcvd s) := by
  rw [uipSynRcvd]
  by_cases hacked : s.flags.acked
  · rw [if_pos hacked]
    let u : Stack :=
      { s.setConn { s.cur with tcpstateflags := { state := .established }, len := 0 } with
      flags := { connected := true, newdata := s.len > 0 } }
    have hcur : u.cur = { s.cur with tcpstateflags := { state := .established }, len := 0 } :=
      Function.update_self ..
    show Receives s.buf s.len s.cur (.appcall .appsend
      { (if s.len > 0 then uipAddRcvNxt u s.len else u) with slen := 0 })
    by_cases hlen : s.len > 0
    · rw [if_pos hlen]
      have hcur' := cur_addRcvNxt u s.len
      have hgiven := newdata_payload (s := s) (t := { uipAddRcvNxt u s.len with slen := 0 })
        (decide_eq_true hlen)
        happ rfl rfl
      refine .data hgiven (by simp [Next.resume]) (hst ▸ trivial) ?_ (hexp hlen) ?_
      · show (uipAddRcvNxt u s.len).cur.state = _
        rw [hcur', hcur]
        rfl
      · show (uipAddRcvNxt u s.len).cur.rcvNxt = _
        rw [hcur', hcur]
    · rw [if_neg hlen]
      refine .quiet (idle_call (decide_eq_false hlen) (by decide) (.opened hst ?_ ?_))
      · show u.cur.state = _
        rw [hcur]
        rfl
      · show u.cur.rcvNxt = _
        rw [hcur]
  · rw [if_neg hacked]
    exact .quiet (idle_sends (sends_drop s) (.refl _))

theorem receives_synSent (hst : s.cur.state = .synSent) (hn : (uipSynSent s).Returns n) :
    Receives s.buf s.len s.cur n := by
  rw [uipSynSent] at hn
  split at hn
  · obtain ⟨mss, -, hn⟩ := Comp.returns_bind.mp hn
    obtain rfl := Comp.returns_pure.mp hn
    refine .synack rfl (by simp [Next.resume]) hst ?_
    show ((uipAddRcvNxt _ 1).setConn { (uipAddRcvNxt _ 1).cur with len := 0 }).cur.state = _
    rw [Stack.cur_setConn, uipAddRcvNxt, Stack.cur_setConn, Stack.cur_setConn]
    rfl
  · obtain rfl := Comp.returns_pure.mp hn
    exact .quiet (idle_call rfl (by decide) (.refl _))

theorem receives_established (hst : s.cur.state = .established) (happ : s.appdata = 0)
    (hnew : s.flags.newdata = false) (hurg : ¬ s.buf.hdr.has TCP_URG)
    (hexp : Expected s.buf s.len s.cur) :
    Receives s.buf s.len s.cur (uipEstablished s) := by
  rw [uipEstablished]
  dsimp only
  split
  · split
    · exact .quiet (idle_sends (sends_drop s) (.refl _))
    · have hstate : (uipAddRcvNxt s (1 + s.len)).cur.state = .established := by
        rw [cur_addRcvNxt]
        exact hst
      by_cases hlen : s.len > 0
      · have hgiven := newdata_payload (s := s) (t := { uipAddRcvNxt s (1 + s.len) with flags :=
            { s.flags with closed := true, newdata := s.flags.newdata || s.len > 0 } })
          (by simp [hlen]) happ rfl rfl
        exact .fin hgiven rfl hst hstate hexp
      · refine .fin ?_ rfl hst hstate hexp
        rw [payload_of_zero hlen, Next.given, Stack.newdata]
        exact if_neg (by simp [hnew, hlen])
  · rw [uipUrg, if_neg hurg, uipNewdata]
    by_cases htake : s.len > 0 ∧ ¬ s.cur.tcpstateflags.stopped
    · rw [if_pos htake]
      let u : Stack := { uipAddRcvNxt s s.len with flags := { s.flags with newdata := true } }
      have hcur : u.cur = { s.cur with rcvNxt := uipAdd32 s.cur.rcvNxt s.len } :=
        cur_addRcvNxt s s.len
      let v := u.setConn (u.cur.setWnd (word s.buf.hdr.wnd.1 s.buf.hdr.wnd.2))
      have hwnd : v.cur = u.cur.setWnd (word s.buf.hdr.wnd.1 s.buf.hdr.wnd.2) := Stack.cur_setConn
      show Receives s.buf s.len s.cur (if v.flags.newdata || v.flags.acked then .appcall .appsend
        { v with slen := 0 } else _)
      rw [if_pos (show (v.flags.newdata || v.flags.acked) = true from rfl)]
      have hgiven := newdata_payload (s := s) (t := { v with slen := 0 }) rfl happ rfl rfl
      refine .data hgiven (by simp [Next.resume]) (hst ▸ trivial) ?_ (hexp htake.1) ?_
      · show v.cur.state = _
        rw [hwnd, hcur]
        exact hst
      · show v.cur.rcvNxt = _
        rw [hwnd, hcur]
        rfl
    · rw [if_neg htake]
      have hquiet : Quiet s.cur
          (s.setConn (s.cur.setWnd (word s.buf.hdr.wnd.1 s.buf.hdr.wnd.2))).cur := by
        rw [Stack.cur_setConn]
        exact .same rfl rfl
      split
      · exact .quiet (idle_call hnew (by decide) hquiet)
      · exact .quiet (idle_sends (sends_drop _) hquiet)

theorem idle_lastAck : Idle s.cur (uipLastAck s) := by
  rw [uipLastAck]
  split
  · refine idle_call rfl (by decide) (.leaves ?_)
    show ¬ Reading (s.setConn { s.cur with tcpstateflags := .closed }).cur.state
    rw [Stack.cur_setConn]
    exact id
  · exact idle_sends (sends_drop s) (.refl _)

theorem state_addLen (s : Stack) :
    (if s.len > 0 then uipAddRcvNxt s s.len else s).cur.state = s.cur.state := by
  split
  · rw [cur_addRcvNxt]
    rfl
  · rfl

theorem idle_closed (state : TcpState) (hstate : t.cur.state = state) (hnot : ¬ Reading state)
    (hnew : t.flags.newdata = false) (hr : r ≠ .finack) : Idle c (.appcall r t) :=
  idle_call hnew hr (.leaves (hstate ▸ hnot))

theorem idle_finWait1 (hst : s.cur.state = .finWait1) : Idle s.cur (uipFinWait1 s) := by
  have hlen := (state_addLen s).trans hst
  rw [uipFinWait1]
  generalize (if s.len > 0 then uipAddRcvNxt s s.len else s) = t at hlen
  dsimp only
  split
  · by_cases hacked : t.flags.acked
    · rw [if_pos hacked]
      refine idle_closed .timeWait ?_ id rfl (by decide)
      show (uipAddRcvNxt (t.setConn _) 1).cur.state = _
      rw [cur_addRcvNxt, Stack.cur_setConn]
      rfl
    · rw [if_neg hacked]
      refine idle_closed .closing ?_ id rfl (by decide)
      show (uipAddRcvNxt (t.setConn _) 1).cur.state = _
      rw [cur_addRcvNxt, Stack.cur_setConn]
      rfl
  · split
    · refine idle_sends (sends_drop _) (.leaves ?_)
      rw [Stack.cur_setConn]
      exact id
    · split
      · exact idle_sends (sends_tcpSendAck t) (.leaves (hlen ▸ id))
      · exact idle_sends (sends_drop t) (.leaves (hlen ▸ id))

theorem idle_finWait2 (hst : s.cur.state = .finWait2) : Idle s.cur (uipFinWait2 s) := by
  have hlen := (state_addLen s).trans hst
  rw [uipFinWait2]
  generalize (if s.len > 0 then uipAddRcvNxt s s.len else s) = t at hlen
  dsimp only
  split
  · refine idle_closed .timeWait ?_ id rfl (by decide)
    show (uipAddRcvNxt (t.setConn _) 1).cur.state = _
    rw [cur_addRcvNxt, Stack.cur_setConn]
    rfl
  · split
    · exact idle_sends (sends_tcpSendAck t) (.leaves (hlen ▸ id))
    · exact idle_sends (sends_drop t) (.leaves (hlen ▸ id))

theorem idle_closing (hst : s.cur.state = .closing) : Idle s.cur (uipClosing s) := by
  rw [uipClosing]
  refine idle_sends (sends_drop _) (.leaves ?_)
  split
  · rw [Stack.cur_setConn]
    exact id
  · rw [hst]
    exact id

theorem receives_switch (happ : s.appdata = 0) (hnew : s.flags.newdata = false)
    (hread : Reading s.cur.state → ¬ s.buf.hdr.has TCP_URG ∧ Expected s.buf s.len s.cur)
    (hn : (uipSwitch s).Returns n) :
    Receives s.buf s.len s.cur n := by
  rw [uipSwitch] at hn
  split at hn
  · rename_i hst
    have hst : s.cur.state = .synRcvd := hst
    exact Comp.returns_pure.mp hn ▸ receives_synRcvd hst happ (hread (hst ▸ trivial)).2
  · rename_i hst
    exact receives_synSent hst hn
  · rename_i hst
    have hst : s.cur.state = .established := hst
    obtain ⟨hurg, hexp⟩ := hread (hst ▸ trivial)
    exact Comp.returns_pure.mp hn ▸ receives_established hst happ hnew hurg hexp
  · exact Comp.returns_pure.mp hn ▸ .quiet (idle_lastAck)
  · rename_i hst
    exact Comp.returns_pure.mp hn ▸ .quiet (idle_finWait1 hst)
  · rename_i hst
    exact Comp.returns_pure.mp hn ▸ .quiet (idle_finWait2 hst)
  · exact Comp.returns_pure.mp hn ▸ .quiet (idle_sends (sends_tcpSendAck s) (.refl _))
  · rename_i hst
    exact Comp.returns_pure.mp hn ▸ .quiet (idle_closing hst)
  · exact Comp.returns_pure.mp hn ▸ .quiet (idle_sends (sends_drop s) (.refl _))

-- ---------------------------------------------------------------------------
-- A segment
-- ---------------------------------------------------------------------------

def TcpipHdr.headersLen (h : TcpipHdr) : Nat := 20 + 4 * (h.tcpoffset.toNat / 16)

def TcpipHdr.totalLen (h : TcpipHdr) : Nat := (word h.len.1 h.len.2).toNat

theorem toNat_headersLen (h : TcpipHdr) (hle : h.headersLen ≤ h.totalLen) :
    (word h.len.1 h.len.2 - ((h.tcpoffset >>> 4) <<< 2).toUInt16 - UIP_IPH_LEN).toNat =
      h.totalLen - h.headersLen := by
  have hlt := h.tcpoffset.toNat_lt
  have hc : (((h.tcpoffset >>> 4) <<< 2).toUInt16).toNat = 4 * (h.tcpoffset.toNat / 16) := by
    rw [UInt8.toNat_toUInt16, UInt8.toNat_shiftLeft, UInt8.toNat_shiftRight]
    show (h.tcpoffset.toNat >>> 4) <<< 2 % 256 = _
    rw [Nat.shiftRight_eq_div_pow, Nat.shiftLeft_eq]
    omega
  rw [TcpipHdr.headersLen, TcpipHdr.totalLen] at *
  have hsub : (word h.len.1 h.len.2 - ((h.tcpoffset >>> 4) <<< 2).toUInt16).toNat =
      (word h.len.1 h.len.2).toNat - 4 * (h.tcpoffset.toNat / 16) := by
    rw [UInt16.toNat_sub_of_le, hc]
    rw [UInt16.le_iff_toNat_le, hc]
    omega
  rw [UInt16.toNat_sub_of_le, hsub]
  · show _ - 20 = _
    omega
  · rw [UInt16.le_iff_toNat_le, hsub]
    show 20 ≤ _
    omega

theorem acks_cases (s : Stack) :
    uipAcks s = s ∨ uipAcks s = { s.setConn s.cur.acked with flags := { acked := true } } := by
  rw [uipAcks]
  split
  · exact .inr rfl
  · exact .inl rfl

theorem state_acked (c : UipConn) : c.acked.state = c.state ∧ c.acked.rcvNxt = c.rcvNxt := by
  rw [UipConn.acked]
  dsimp only
  split <;> exact ⟨rfl, rfl⟩

theorem Quiet.of_eq (h : Quiet c' c'') (hstate : c'.state = c.state) (hrcv : c'.rcvNxt = c.rcvNxt) :
    Quiet c c'' := by
  cases h with
  | same h1 h2 => exact .same (h1.trans hstate) (h2.trans hrcv)
  | opened h1 h2 h3 => exact .opened (hstate ▸ h1) h2 (h3.trans hrcv)
  | leaves h => exact .leaves h

theorem Receives.of_eq (h : Receives b len c' n) (hstate : c'.state = c.state)
    (hrcv : c'.rcvNxt = c.rcvNxt) :
    Receives b len c n := by
  cases h with
  | quiet h => exact .quiet ⟨h.given, h.resume, h.quiet.of_eq hstate hrcv⟩
  | synack hgiven hr h1 h2 => exact .synack hgiven hr (hstate ▸ h1) h2
  | data hgiven hr h1 h2 h3 h4 => exact .data hgiven hr (hstate ▸ h1) h2 (h3.trans hrcv) (hrcv ▸ h4)
  | fin hgiven hr h1 h2 h3 => exact .fin hgiven hr (hstate ▸ h1) h2 fun hlen => (h3 hlen).trans hrcv

theorem expected_of_not_unexpected (h : ¬ c.unexpected b.hdr len) (hread : Reading c.state) :
    Expected b len c := by
  intro hlen
  by_contra hne
  apply h
  have hst : c.tcpstateflags.state ≠ .synSent := by
    intro hst
    rw [UipConn.state, hst] at hread
    exact hread
  simp [UipConn.unexpected, hst, hne, hlen]

/-- The length of the data, as the code computes it. -/
def Stack.dataLen (s : Stack) : UInt16 :=
  s.len - ((s.buf.hdr.tcpoffset >>> 4) <<< 2).toUInt16 - UIP_IPH_LEN

theorem receives_found (happ : s.appdata = 0)
    (hurg : Reading (s.conns i).state → ¬ s.buf.hdr.has TCP_URG)
    (hn : (uipFound s i).Returns n) : Receives s.buf s.dataLen (s.conns i) n := by
  rw [uipFound] at hn
  dsimp only at hn
  split at hn
  · obtain rfl := Comp.returns_pure.mp hn
    refine .quiet (idle_closed .closed ?_ id rfl (by decide))
    show (Stack.setConn _ _).cur.state = _
    rw [Stack.cur_setConn]
    rfl
  · let u : Stack := { s with conn := i, flags := {}, len := s.dataLen }
    change Comp.Returns (if u.cur.unexpected u.buf.hdr u.len then pure (.done (tcpSendAck u))
      else uipSwitch (uipAcks u)) n at hn
    show Receives u.buf u.len u.cur n
    split at hn
    · exact Comp.returns_pure.mp hn ▸ .quiet (idle_sends (sends_tcpSendAck u) (.refl _))
    · rename_i hunexpected
      have hread (h : Reading u.cur.state) : ¬ u.buf.hdr.has TCP_URG ∧ Expected u.buf u.len u.cur :=
        ⟨hurg h, expected_of_not_unexpected hunexpected h⟩
      rcases acks_cases u with hacks | hacks
      · rw [hacks] at hn
        exact receives_switch happ rfl hread hn
      · rw [hacks] at hn
        obtain ⟨hstate, hrcv⟩ := state_acked u.cur
        let v : Stack := { u.setConn u.cur.acked with flags := { acked := true } }
        have hcur : v.cur = u.cur.acked := Function.update_self ..
        have hv := receives_switch (s := v) happ rfl (fun h => ?_) hn
        · rw [hcur] at hv
          exact hv.of_eq hstate hrcv
        · rw [hcur, hstate] at h
          refine ⟨(hread h).1, fun hlen => ?_⟩
          rw [hcur, hrcv]
          exact (hread h).2 hlen

end FxIP.Tcpip
