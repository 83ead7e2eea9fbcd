import FxIP.Tcpip.Client

/-!
# What the client sees of the stack

A frame or a time-out is for the client one of the events of its own model of
the connection: data in the packet buffer, the answer to its SYN, a segment, the
timer, or the end of the connection. All else that the stack does is behind that
model.
-/

namespace FxIP.Tcpip

open Circular

variable {s t v : Stack} {b : UipBuf} {c : UipConn} {n : Next} {i : Fin UIP_CONNS}
    {r : Resume} {u : Uip}
variable {bytes : List UInt8}

theorem established_of_seen {state : TcpState} (h : state.seen = .established) :
    state = .established := by
  cases state <;> first | rfl | cases h

-- ---------------------------------------------------------------------------
-- The packet buffer
-- ---------------------------------------------------------------------------

theorem appdata_receive (b : UipBuf) (frame : List UInt8) :
    (b.receive frame).appdata = b.appdata.write (frame.drop 40) := by
  apply Buffer.eq_of_cells
  show ((overwrite b.bytes 0 frame).drop 40).take UIP_APPDATA_SIZE =
    overwrite (b.data.cells.take UIP_APPDATA_SIZE) 0 _
  rw [drop_overwrite_zero, take_overwrite]
  rfl

theorem appdata_write (b : UipBuf) (data : List UInt8) :
    ({ b with data := b.data.write data } : UipBuf).appdata = b.appdata.write data :=
  Buffer.eq_of_cells (take_overwrite ..)

theorem appdata_of_data {b' : UipBuf} (h : b'.data = b.data) : b'.appdata = b.appdata := by
  rw [UipBuf.appdata, UipBuf.appdata]
  simp only [h]

theorem appdata_left (s : Stack) (u : Uip) :
    ({ s.buf with data := (s.left u).data } : UipBuf).appdata = u.appdata := by
  rw [Stack.left, appdata_write]
  apply Buffer.eq_of_cells
  show overwrite (s.buf.data.cells.take UIP_APPDATA_SIZE) 0 u.appdata.cells = u.appdata.cells
  have htake :=
    take_overwrite_zero s.buf.appdata.cells u.appdata.cells (by rw [Buffer.size, Buffer.size])
  rwa [List.take_of_length_le] at htake
  rw [length_overwrite, Buffer.size, Buffer.size]

theorem appdata_reset (s : Stack) : (uipReset s).buf.appdata = s.buf.appdata := by
  rw [uipReset]
  split
  · rfl
  · exact appdata_of_data rfl

theorem appdata_icmpInput (s : Stack) : (icmpInput s).buf.appdata = s.buf.appdata := by
  rw [icmpInput]
  split
  · rfl
  · exact appdata_of_data rfl

theorem appdata_tcpSendNodata (s : Stack) (flags : UInt8) :
    (tcpSendNodata s flags).buf.appdata = s.buf.appdata :=
  appdata_of_data rfl

theorem appdata_tcpSendSyn (s : Stack) (flags : UInt8) : (tcpSendSyn s flags).buf.appdata =
    s.buf.appdata.write [TCP_OPT_MSS, TCP_OPT_MSS_LEN, wordHi TCP_MSS, wordLo TCP_MSS] :=
  appdata_write s.buf _

theorem appdata_apprexmit (s : Stack) : (uipApprexmit s).buf.appdata = s.buf.appdata := by
  rw [uipApprexmit]
  dsimp only
  split
  · exact appdata_of_data rfl
  · split <;> exact appdata_of_data rfl

-- ---------------------------------------------------------------------------
-- Between the calls
-- ---------------------------------------------------------------------------

/-- What is still true of the globals, as the client knew them. -/
structure Shown (u : Uip) (i : Fin UIP_CONNS) (s : Stack) : Prop where
  tcpstate : u.conn.tcpstate = (s.conns i).state.seen
  conn : u.conn.tcpstate ≠ .closed → u.conn = (s.conns i).seen
  appdata : u.appdata = s.buf.appdata
  synRcvd : (s.conns i).state ≠ .synRcvd
  stopped : (s.conns i).tcpstateflags.stopped = false

/-- The connection as it may have become when the client cannot tell. -/
structure Alike (c c' : UipConn) : Prop where
  tcpstate : c'.state.seen = c.state.seen
  conn : c.state.seen ≠ .closed → c'.seen = c.seen
  synRcvd : c.state ≠ .synRcvd → c'.state ≠ .synRcvd
  stopped : c.tcpstateflags.stopped = false → c'.tcpstateflags.stopped = false

theorem Alike.refl (c : UipConn) : Alike c c := ⟨rfl, fun _ => rfl, id, id⟩

theorem Alike.trans {c' c'' : UipConn} (h : Alike c c') (h' : Alike c' c'') : Alike c c'' where
  tcpstate := h'.tcpstate.trans h.tcpstate
  conn hne := (h'.conn (h.tcpstate ▸ hne)).trans (h.conn hne)
  synRcvd hne := h'.synRcvd (h.synRcvd hne)
  stopped hs := h'.stopped (h.stopped hs)

theorem alike_of_seen {c' : UipConn} (hflags : c'.tcpstateflags = c.tcpstateflags)
    (hseen : c'.seen = c.seen) :
    Alike c c' := by
  refine ⟨?_, fun _ => hseen, ?_, ?_⟩
  · rw [UipConn.state, hflags, UipConn.state]
  · rw [UipConn.state, UipConn.state, hflags]
    exact id
  · rw [hflags]
    exact id

theorem Shown.alike (h : Shown u i s) (hc : Alike (s.conns i) (t.conns i))
    (happ : t.buf.appdata = s.buf.appdata.write bytes) : Shown (uipReceive u bytes) i t where
  tcpstate := h.tcpstate.trans hc.tcpstate.symm
  conn hne := (h.conn hne).trans (hc.conn (h.tcpstate ▸ hne)).symm
  appdata := by
    rw [happ, ← h.appdata]
    rfl
  synRcvd := hc.synRcvd h.synRcvd
  stopped := hc.stopped h.stopped

-- ---------------------------------------------------------------------------
-- What a step is for the client
-- ---------------------------------------------------------------------------

structure AtEnd (c : UipConn) : Prop where
  tcpstate : c.state.seen = .closed
  synRcvd : c.state ≠ .synRcvd
  stopped : c.tcpstateflags.stopped = false

def Ends (u : Uip) (c : UipConn) : Resume → Prop
  | .drop | .timedout | .ack => AtEnd c
  | .reset | .finack =>
    c.state.seen = u.conn.tcpstate ∧ c.state ≠ .synRcvd ∧ c.tcpstateflags.stopped = false
  | .appsend | .apprexmit => False

structure Calls (i : Fin UIP_CONNS) (t : Stack) (data : List UInt8) : Prop where
  conn : t.conn = i
  stopped : t.cur.tcpstateflags.stopped = false
  newdata : t.newdata = data

inductive Sight (u : Uip) (i : Fin UIP_CONNS) : Next → Prop
  | quiet {t : Stack} (bytes : List UInt8) : Shown (uipReceive u bytes) i t → Sight u i (.done t)
  | synack {t : Stack} (bytes : List UInt8) (mss : Option Nat) :
      u.conn.tcpstate = .synSent → Calls i t [] → t.seen = uipSynack u bytes mss →
      Sight u i (.appcall .appsend t)
  | segment {t : Stack} (bytes : List UInt8) (ack : Bool) (wnd : Nat) (payload : List UInt8) :
      u.conn.tcpstate = .established → payload.length ≤ UIP_APPDATA_SIZE →
      Calls i t payload → t.seen = uipSegment (uipReceive u bytes) ack wnd payload →
      (t.flags.acked || t.flags.newdata) → Sight u i (.appcall .appsend t)
  | silent {t : Stack} {u' : Uip} (bytes : List UInt8) (ack : Bool) (wnd : Nat) :
      u.conn.tcpstate = .established →
      u' = uipSegment (uipReceive u bytes) ack wnd [] →
      (u'.flags.acked || u'.flags.newdata) = false → Shown u' i t →
      Sight u i (.done t)
  | timer {t : Stack} {r : Resume} : u.conn.tcpstate = .established → Calls i t [] →
      t.seen = FxIP.uipTimer u →
      r = (if uipOutstanding u then .apprexmit else .appsend) → Sight u i (.appcall r t)
  | closes {t : Stack} {r : Resume} (bytes : List UInt8) : t.conn = i → Over t.flags →
      Ends u t.cur r →
      t.buf.appdata = u.appdata.write bytes → Sight u i (.appcall r t)

/-- A segment for the connection, after its ack is seen to. -/
structure Arrived (u : Uip) (i : Fin UIP_CONNS) (bytes : List UInt8) (acked : Bool) (v : Stack) :
    Prop where
  conn : v.conn = i
  index : v.appdata = 0
  flags : v.flags = { acked }
  appdata : v.buf.appdata = u.appdata.write bytes
  tcpstate : u.conn.tcpstate = v.cur.state.seen
  seen : u.conn.tcpstate ≠ .closed → v.cur.seen =
    { u.conn with len := if acked then 0 else u.conn.len }
  acked : u.conn.tcpstate ≠ .closed → acked → u.conn.len ≠ 0
  synRcvd : v.cur.state ≠ .synRcvd
  stopped : v.cur.tcpstateflags.stopped = false

variable {acked : Bool}

theorem Arrived.shown (h : Arrived u i bytes acked v) (ht : t.buf.appdata = v.buf.appdata)
    (hc : Alike v.cur (t.conns i))
    (hacked : u.conn.tcpstate ≠ .closed → acked = false) : Shown (uipReceive u bytes) i t where
  tcpstate := h.tcpstate.trans hc.tcpstate.symm
  conn hne := by
    have hseen := h.seen hne
    rw [hacked hne] at hseen
    rw [hc.conn (h.tcpstate ▸ hne), hseen]
    rfl
  appdata := by
    rw [ht, h.appdata]
    rfl
  synRcvd := hc.synRcvd h.synRcvd
  stopped := hc.stopped h.stopped

theorem AtEnd.alike {c' : UipConn} (hclosed : c.state.seen = .closed) (h : AtEnd c') :
    Alike c c' where
  tcpstate := h.tcpstate.trans hclosed.symm
  conn hne := absurd hclosed hne
  synRcvd _ := h.synRcvd
  stopped _ := h.stopped

theorem seen_setMss (c : UipConn) (mss : Option UInt16) : (c.setMss mss).seen =
    match mss.map UInt16.toNat with
    | some tmp16 =>
      let mss := if tmp16 > UIP_TCP_MSS then UIP_TCP_MSS else tmp16
      { c.seen with mss, initialmss := mss }
    | none => c.seen := by
  cases mss with
  | none => rfl
  | some tmp16 =>
    have hiff : tmp16 > TCP_MSS ↔ tmp16.toNat > UIP_TCP_MSS := UInt16.lt_iff_toNat_lt
    simp only [UipConn.setMss, Option.map_some, UipConn.seen]
    by_cases hgt : tmp16 > TCP_MSS
    · simp only [if_pos hgt, if_pos (hiff.mp hgt)]
      rfl
    · simp only [if_neg hgt, if_neg (mt hiff.mpr hgt)]
      rfl

theorem synSent_returns (hn : (uipSynSent v).Returns n) :
    (∃ mss t, n = .appcall .appsend t ∧ t.conn = v.conn ∧ t.buf = v.buf ∧
        t.flags = { connected := true, newdata := true } ∧
      t.len = 0 ∧ t.slen = 0 ∧ t.cur = { v.cur.setMss mss with
        tcpstateflags := { state := .established }, rcvNxt := uipAdd32 v.buf.hdr.seqno 1,
          len := 0 }) ∨
    n = .appcall .reset { v with flags := { aborted := true } } := by
  rw [uipSynSent] at hn
  split at hn
  · obtain ⟨mss, -, hn⟩ := Comp.returns_bind.mp hn
    obtain rfl := Comp.returns_pure.mp hn
    refine .inl ⟨mss, _, rfl, rfl, rfl, rfl, rfl, rfl, ?_⟩
    let w := uipAddRcvNxt (v.setConn { v.cur.setMss mss with
      tcpstateflags := { state := .established }, rcvNxt := v.buf.hdr.seqno }) 1
    have hw : w.cur = { v.cur.setMss mss with
        tcpstateflags := { state := .established }, rcvNxt := uipAdd32 v.buf.hdr.seqno 1 } := by
      rw [cur_addRcvNxt, Stack.cur_setConn]
    show (w.setConn { w.cur with len := 0 }).cur = _
    rw [Stack.cur_setConn, hw]
  · exact .inr (Comp.returns_pure.mp hn).symm

theorem sight_synSent (h : Arrived u i bytes acked v)
    (hst : v.cur.state = .synSent) (hn : (uipSynSent v).Returns n) :
    Sight u i n := by
  have hstate : u.conn.tcpstate = .synSent := by rw [h.tcpstate, hst]; rfl
  rcases synSent_returns hn with ⟨mss, t, rfl, hconn, hbuf, hflags, hlen, hslen, hcur⟩ | rfl
  · refine .synack bytes (mss.map UInt16.toNat) hstate ⟨hconn.trans h.conn, by rw [hcur], ?_⟩ ?_
    · rw [Stack.newdata, hlen]
      split <;> rfl
    · have hseen : t.cur.seen =
          { (v.cur.setMss mss).seen with tcpstate := .established, len := 0 } := by
        rw [hcur]
        rfl
      have hv := h.seen (by rw [hstate]; decide)
      rw [Stack.seen, hseen, seen_setMss, hv, hflags, hlen, hslen, hbuf, h.appdata]
      cases mss <;> rfl
  · exact .closes bytes h.conn rfl ⟨h.tcpstate.symm, h.synRcvd, h.stopped⟩ h.appdata

theorem seen_setWnd (c : UipConn) (wnd : UInt16) : (c.setWnd wnd).seen = { c.seen with
    mss := if wnd.toNat > c.seen.initialmss ∨ wnd.toNat = 0 then c.seen.initialmss
      else wnd.toNat } := by
  have hiff : wnd > c.initialmss ∨ wnd = 0 ↔ wnd.toNat > c.seen.initialmss ∨ wnd.toNat = 0 :=
    or_congr UInt16.lt_iff_toNat_lt UInt16.toNat_inj.symm
  rw [UipConn.setWnd]
  by_cases hw : wnd > c.initialmss ∨ wnd = 0
  · rw [if_pos hw, if_pos (hiff.mp hw)]
    rfl
  · rw [if_neg hw, if_neg (mt hiff.mpr hw)]
    rfl

theorem established_returns (hfin : ¬ (v.buf.hdr.has TCP_FIN ∧ ¬ v.cur.tcpstateflags.stopped))
    (hurg : ¬ v.buf.hdr.has TCP_URG) (hstopped : v.cur.tcpstateflags.stopped = false)
    (hflags : v.flags = { acked }) :
    ∃ t, t.conn = v.conn ∧ t.buf = v.buf ∧ t.appdata = v.appdata ∧ t.len = v.len ∧ t.slen = v.slen ∧
      t.flags = { acked, newdata := v.len > 0 } ∧ t.cur.tcpstateflags = v.cur.tcpstateflags ∧
      t.cur.seen = (v.cur.setWnd (word v.buf.hdr.wnd.1 v.buf.hdr.wnd.2)).seen ∧
      uipEstablished v =
        if t.flags.newdata || t.flags.acked then .appcall .appsend { t with slen := 0 }
            else .done (uipDrop t) := by
  have hnew : ∃ w, uipNewdata (uipUrg v) = w ∧ w.conn = v.conn ∧ w.buf = v.buf ∧
    w.appdata = v.appdata ∧
      w.len = v.len ∧
      w.slen = v.slen ∧ w.flags = { acked, newdata := v.len > 0 } ∧
        w.cur.tcpstateflags = v.cur.tcpstateflags ∧
      ∀ wnd, (w.cur.setWnd wnd).seen = (v.cur.setWnd wnd).seen := by
    refine ⟨_, rfl, ?_⟩
    rw [uipUrg, if_neg hurg, uipNewdata]
    by_cases hlen : v.len > 0
    · rw [if_pos ⟨hlen, by simp [hstopped]⟩]
      have hcur : ({ uipAddRcvNxt v v.len with flags := { v.flags with newdata := true } } :
        Stack).cur =
          { v.cur with rcvNxt := uipAdd32 v.cur.rcvNxt v.len } := cur_addRcvNxt v v.len
      refine ⟨rfl, rfl, rfl, rfl, rfl, ?_, by rw [hcur], fun wnd => by rw [hcur]; rfl⟩
      rw [hflags, decide_eq_true hlen]
    · rw [if_neg fun h => hlen h.1]
      refine ⟨rfl, rfl, rfl, rfl, rfl, ?_, rfl, fun _ => rfl⟩
      rw [hflags, decide_eq_false hlen]
  obtain ⟨w, hw, hconn, hbuf, happ, hlen, hslen, hwflags, htcp, hseen⟩ := hnew
  refine ⟨w.setConn (w.cur.setWnd (word v.buf.hdr.wnd.1 v.buf.hdr.wnd.2)), hconn, hbuf, happ,
    hlen, hslen, hwflags, ?_, ?_, ?_⟩
  · rw [Stack.cur_setConn]
    exact htcp
  · rw [Stack.cur_setConn]
    exact hseen _
  · rw [uipEstablished]
    dsimp only
    rw [if_neg hfin, hw]

theorem length_payload (hlen : v.len.toNat ≤ UIP_APPDATA_SIZE) :
    (v.buf.payload v.len).length = v.len.toNat := by
  rw [UipBuf.payload, List.length_take, v.buf.data.size]
  exact Nat.min_eq_left (Nat.le_trans hlen (by decide))

theorem Arrived.segment (h : Arrived u i bytes acked v) (hst : v.cur.state = .established)
    (hlen : v.len.toNat ≤ UIP_APPDATA_SIZE) (hbuf : t.buf = v.buf) (htlen : t.len = v.len)
    (hflags : t.flags = { acked, newdata := v.len > 0 })
    (hseen : t.cur.seen = (v.cur.setWnd (word v.buf.hdr.wnd.1 v.buf.hdr.wnd.2)).seen) :
    ({ t with slen := 0 } : Stack).seen =
      uipSegment (uipReceive u bytes) acked (word v.buf.hdr.wnd.1 v.buf.hdr.wnd.2).toNat
          (v.buf.payload v.len) := by
  have hstate : u.conn.tcpstate = .established := by rw [h.tcpstate, hst]; rfl
  have hne : u.conn.tcpstate ≠ .closed := by rw [hstate]; decide
  have hlength := length_payload hlen
  have hacked : (acked && uipOutstanding u) = acked := by
    cases hcase : acked with
    | false => rfl
    | true => exact decide_eq_true (h.acked hne hcase)
  have hsame : (u.appdata.write bytes).write (v.buf.payload v.len) = u.appdata.write bytes := by
    rw [← h.appdata]
    exact Buffer.write_prefix (List.take_prefix_take_left hlen)
  have hnew : (v.len > 0) = ((v.buf.payload v.len).length > 0) := by
    rw [hlength]
    exact propext UInt16.lt_iff_toNat_lt
  have hcur : ({ t with slen := 0 } : Stack).cur = t.cur := rfl
  rw [Stack.seen, hcur, hseen, seen_setWnd, h.seen hne, hflags]
  simp only [uipSegment, uipReceive, uipCall, hsame]
  have hout : uipOutstanding { u with appdata := u.appdata.write bytes } = uipOutstanding u := rfl
  rw [hout, hacked, hlength, hbuf, h.appdata, htlen]
  simp only [hnew, hlength]
  rfl

theorem sight_established (h : Arrived u i bytes acked v) (hst : v.cur.state = .established)
    (hurg : ¬ v.buf.hdr.has TCP_URG) (hlen : v.len.toNat ≤ UIP_APPDATA_SIZE) :
    Sight u i (uipEstablished v) := by
  have hstate : u.conn.tcpstate = .established := by rw [h.tcpstate, hst]; rfl
  have hne : u.conn.tcpstate ≠ .closed := by rw [hstate]; decide
  by_cases hfin : v.buf.hdr.has TCP_FIN ∧ ¬ v.cur.tcpstateflags.stopped
  · rw [uipEstablished]
    dsimp only
    rw [if_pos hfin]
    split
    · rename_i hout
      refine .quiet bytes (h.shown (t := uipDrop v) rfl ?_ fun _ => ?_)
      · have hcur : (uipDrop v).conns i = v.cur := by rw [← h.conn]; rfl
        exact hcur ▸ .refl _
      · by_contra hacked
        have hzero : v.cur.seen.len = 0 := by
          rw [h.seen hne, if_pos (by simpa using hacked)]
        have hzero : v.cur.len = 0 := UInt16.toNat_inj.mp hzero
        rw [UipConn.outstanding, hzero] at hout
        cases hout
    · refine .closes bytes h.conn rfl ?_ h.appdata
      show Ends u (uipAddRcvNxt v (1 + v.len)).cur .finack
      rw [cur_addRcvNxt]
      exact ⟨h.tcpstate.symm, h.synRcvd, h.stopped⟩
  · obtain ⟨t, hconn, hbuf, hindex, htlen, -, hflags, htcp, hseen, heq⟩ :=
      established_returns hfin hurg h.stopped h.flags
    have hsegment := h.segment hst hlen hbuf htlen hflags hseen
    rw [heq]
    split
    · rename_i hcall
      refine .segment bytes acked _ (v.buf.payload v.len) hstate (length_payload hlen ▸ hlen)
        ⟨hconn.trans h.conn, ?_, ?_⟩
        hsegment (by rwa [Bool.or_comm])
      · show t.cur.tcpstateflags.stopped = false
        rw [htcp]
        exact h.stopped
      · by_cases hpos : v.len > 0
        · refine newdata_payload ?_ (hindex.trans h.index) htlen hbuf
          rw [hflags]
          exact decide_eq_true hpos
        · rw [payload_of_zero hpos, Stack.newdata, hflags, decide_eq_false hpos]
          rfl
    · rename_i hquiet
      rw [hflags] at hquiet
      simp only [Bool.or_eq_true, not_or, decide_eq_true_eq] at hquiet
      obtain ⟨hpos, hacked⟩ := hquiet
      rw [payload_of_zero hpos] at hsegment
      have hconns : (uipDrop t).conns i = t.cur := by
        rw [← hconn.trans h.conn]
        rfl
      have hu := congrArg Uip.conn hsegment
      refine .silent bytes acked (word v.buf.hdr.wnd.1 v.buf.hdr.wnd.2).toNat hstate rfl ?_
        ⟨?_, fun _ => ?_, ?_, ?_, ?_⟩
      · rw [← hsegment]
        show (t.flags.acked || t.flags.newdata) = false
        rw [hflags, decide_eq_false hpos]
        simpa using hacked
      · rw [← hu, hconns]
        rfl
      · rw [← hu, hconns]
        rfl
      · exact (congrArg Uip.appdata hsegment).symm
      · rw [hconns, UipConn.state, htcp]
        exact h.synRcvd
      · rw [hconns, htcp]
        exact h.stopped

-- ---------------------------------------------------------------------------
-- The other states
-- ---------------------------------------------------------------------------

theorem atEnd_closed (c : UipConn) (hc : c.tcpstateflags = .closed) : AtEnd c := by
  refine ⟨?_, ?_, ?_⟩ <;> simp [UipConn.state, hc, Tcpstateflags.closed, TcpState.seen]

theorem Arrived.atEnd (h : Arrived u i bytes acked v) (hclosed : v.cur.state.seen = .closed) :
    AtEnd v.cur :=
  ⟨hclosed, h.synRcvd, h.stopped⟩

theorem Arrived.ended {w : Stack} (h : Arrived u i bytes acked v)
    (hclosed : v.cur.state.seen = .closed)
    (happ : w.buf.appdata = v.buf.appdata) (hconn : w.conn = v.conn) (hend : AtEnd w.cur)
    (hs : Sends w t) (ht : t.buf.appdata = w.buf.appdata) : Sight u i (.done t) := by
  have hcur : t.conns i = w.cur := by rw [← hconn.trans h.conn, hs.conns]; rfl
  refine .quiet bytes (h.shown (ht.trans happ) ?_ fun hne => absurd (h.tcpstate.trans hclosed) hne)
  rw [hcur]
  exact hend.alike hclosed

theorem Arrived.finishes {w : Stack} {flags : UipFlags} (h : Arrived u i bytes acked v)
    (hover : Over flags)
    (happ : w.buf.appdata = v.buf.appdata) (hconn : w.conn = v.conn) (hend : Ends u w.cur r) :
    Sight u i (.appcall r { w with flags }) :=
  .closes bytes (hconn.trans h.conn) hover hend (happ.trans h.appdata)

theorem atEnd_setConn {c : UipConn} (hc : AtEnd c) :
    AtEnd (v.setConn c).cur := by rwa [Stack.cur_setConn]

theorem atEnd_addRcvNxt (len : UInt16) (hc : AtEnd v.cur) : AtEnd (uipAddRcvNxt v len).cur := by
  rw [cur_addRcvNxt]
  exact ⟨hc.tcpstate, hc.synRcvd, hc.stopped⟩

theorem sight_lastAck (h : Arrived u i bytes acked v) (hst : v.cur.state = .lastAck) :
    Sight u i (uipLastAck v) := by
  have hclosed : v.cur.state.seen = .closed := by rw [hst]; rfl
  rw [uipLastAck]
  split
  · exact h.finishes rfl rfl rfl (r := .drop) (atEnd_setConn (atEnd_closed _ rfl))
  · exact h.ended hclosed rfl rfl (h.atEnd hclosed) (sends_drop v) rfl

theorem addLen_atEnd (hend : AtEnd v.cur) :
    AtEnd (if v.len > 0 then uipAddRcvNxt v v.len else v).cur ∧
      (if v.len > 0 then uipAddRcvNxt v v.len else v).conn = v.conn ∧
      (if v.len > 0 then uipAddRcvNxt v v.len else v).buf.appdata = v.buf.appdata := by
  split
  · exact ⟨atEnd_addRcvNxt _ hend, rfl, rfl⟩
  · exact ⟨hend, rfl, rfl⟩

theorem sight_finWait1 (h : Arrived u i bytes acked v) (hst : v.cur.state = .finWait1) : Sight u i
    (uipFinWait1 v) := by
  have hclosed : v.cur.state.seen = .closed := by rw [hst]; rfl
  obtain ⟨hw, hconn, happ⟩ := addLen_atEnd (h.atEnd hclosed)
  rw [uipFinWait1]
  generalize (if v.len > 0 then uipAddRcvNxt v v.len else v) = w at hw hconn happ
  dsimp only
  split
  · refine h.finishes rfl happ hconn (r := .ack) (atEnd_addRcvNxt 1 (atEnd_setConn ?_))
    split <;> exact ⟨rfl, by simp [UipConn.state], rfl⟩
  · split
    · have hwait :
          AtEnd (w.setConn { w.cur with tcpstateflags := { state := .finWait2 }, len := 0 }).cur :=
        atEnd_setConn ⟨rfl, by simp [UipConn.state], rfl⟩
      refine h.ended hclosed ?_ ?_ hwait (sends_drop _) rfl
      · exact happ
      · exact hconn
    · split
      · exact h.ended hclosed happ hconn hw (sends_tcpSendAck w) (appdata_tcpSendNodata w _)
      · exact h.ended hclosed happ hconn hw (sends_drop w) rfl

theorem sight_finWait2 (h : Arrived u i bytes acked v) (hst : v.cur.state = .finWait2) :
    Sight u i (uipFinWait2 v) := by
  have hclosed : v.cur.state.seen = .closed := by rw [hst]; rfl
  obtain ⟨hw, hconn, happ⟩ := addLen_atEnd (h.atEnd hclosed)
  rw [uipFinWait2]
  generalize (if v.len > 0 then uipAddRcvNxt v v.len else v) = w at hw hconn happ
  dsimp only
  split
  · exact h.finishes rfl happ hconn (r := .ack)
      (atEnd_addRcvNxt 1 (atEnd_setConn ⟨rfl, by simp [UipConn.state], rfl⟩))
  · split
    · exact h.ended hclosed happ hconn hw (sends_tcpSendAck w) (appdata_tcpSendNodata w _)
    · exact h.ended hclosed happ hconn hw (sends_drop w) rfl

theorem sight_closing (h : Arrived u i bytes acked v) (hst : v.cur.state = .closing) : Sight u i
    (uipClosing v) := by
  have hclosed : v.cur.state.seen = .closed := by rw [hst]; rfl
  rw [uipClosing]
  split
  · have hwait :
        AtEnd (v.setConn { v.cur with tcpstateflags := { state := .timeWait }, timer := 0 }).cur :=
      atEnd_setConn ⟨rfl, by simp [UipConn.state], rfl⟩
    refine h.ended hclosed ?_ ?_ hwait (sends_drop _) rfl
    · rfl
    · rfl
  · exact h.ended hclosed rfl rfl (h.atEnd hclosed) (sends_drop v) rfl

theorem sight_switch (h : Arrived u i bytes acked v)
    (hwhole : v.cur.state = .established → ¬ v.buf.hdr.has TCP_URG ∧ v.len.toNat ≤ UIP_APPDATA_SIZE)
    (hn : (uipSwitch v).Returns n) : Sight u i n := by
  rw [uipSwitch] at hn
  split at hn
  · rename_i hst
    exact absurd hst h.synRcvd
  · rename_i hst
    exact sight_synSent h hst hn
  · rename_i hst
    obtain ⟨hurg, hlen⟩ := hwhole hst
    exact Comp.returns_pure.mp hn ▸ sight_established h hst hurg hlen
  · rename_i hst
    exact Comp.returns_pure.mp hn ▸ sight_lastAck h hst
  · rename_i hst
    exact Comp.returns_pure.mp hn ▸ sight_finWait1 h hst
  · rename_i hst
    exact Comp.returns_pure.mp hn ▸ sight_finWait2 h hst
  · rename_i hst
    have hclosed : v.cur.state.seen = .closed := by rw [UipConn.state, hst]; rfl
    exact Comp.returns_pure.mp hn ▸ h.ended hclosed rfl rfl (h.atEnd hclosed) (sends_tcpSendAck v)
      (appdata_tcpSendNodata v _)
  · rename_i hst
    exact Comp.returns_pure.mp hn ▸ sight_closing h hst
  · rename_i hst
    have hclosed : v.cur.state.seen = .closed := by rw [UipConn.state, hst]; rfl
    exact Comp.returns_pure.mp hn ▸ h.ended hclosed rfl rfl (h.atEnd hclosed) (sends_drop v) rfl

-- ---------------------------------------------------------------------------
-- A frame
-- ---------------------------------------------------------------------------

theorem acked_seen (c : UipConn) : c.acked.seen = { c.seen with len := 0 } ∧
    c.acked.tcpstateflags = c.tcpstateflags := by
  rw [UipConn.acked]
  dsimp only
  split <;> exact ⟨rfl, rfl⟩

theorem arrived_acks (h : Shown u i s) (hconns : v.conns = s.conns) (hconn : v.conn = i)
    (hindex : v.appdata = 0)
    (hflags : v.flags = {}) (happ : v.buf.appdata = s.buf.appdata.write bytes) :
    Arrived u i bytes (v.cur.acks v.buf.hdr) (uipAcks v) ∧ (uipAcks v).buf = v.buf ∧
      (uipAcks v).len = v.len := by
  have hcur : v.cur = s.conns i := by rw [Stack.cur, hconns, hconn]
  have happ : v.buf.appdata = u.appdata.write bytes := by rw [happ, h.appdata]
  have htcp : u.conn.tcpstate = v.cur.state.seen := hcur ▸ h.tcpstate
  have hsyn : v.cur.state ≠ .synRcvd := hcur ▸ h.synRcvd
  have hstop : v.cur.tcpstateflags.stopped = false := hcur ▸ h.stopped
  rw [uipAcks]
  cases hacks : v.cur.acks v.buf.hdr with
  | false =>
    refine ⟨⟨hconn, hindex, hflags, happ, htcp, fun hne => ?_, fun _ hf => (by cases hf), hsyn,
      hstop⟩, rfl, rfl⟩
    rw [h.conn hne, ← hcur]
    rfl
  | true =>
    rw [if_pos rfl]
    have hset : ({ v.setConn v.cur.acked with flags := { acked := true } } : Stack).cur =
        v.cur.acked :=
      Function.update_self ..
    obtain ⟨hseen, hsame⟩ := acked_seen v.cur
    refine ⟨⟨hconn, hindex, rfl, happ, ?_, fun hne => ?_, fun hne _ => ?_, ?_, ?_⟩, rfl, rfl⟩
    · rw [hset, UipConn.state, hsame]
      exact htcp
    · rw [hset, hseen, h.conn hne, ← hcur]
      rfl
    · rw [h.conn hne, ← hcur]
      simp only [UipConn.acks, UipConn.outstanding, Bool.and_eq_true, decide_eq_true_eq] at hacks
      exact fun hzero => hacks.1.2 (UInt16.toNat_inj.mp hzero)
    · rw [hset, UipConn.state, hsame]
      exact hsyn
    · rw [hset, hsame]
      exact hstop

theorem sight_found (h : Shown u i s) (hconns : v.conns = s.conns) (hindex : v.appdata = 0)
    (happ : v.buf.appdata = s.buf.appdata.write bytes)
    (hwhole : (s.conns i).state = .established → ¬ v.buf.hdr.has TCP_URG ∧
      v.dataLen.toNat ≤ UIP_APPDATA_SIZE)
    (hn : (uipFound v i).Returns n) : Sight u i n := by
  rw [uipFound] at hn
  dsimp only at hn
  split at hn
  · obtain rfl := Comp.returns_pure.mp hn
    let w : Stack := { v with conn := i, flags := {} }
    have hend : AtEnd (w.setConn { w.cur with tcpstateflags := .closed }).cur :=
      atEnd_setConn (atEnd_closed _ rfl)
    exact .closes bytes rfl rfl hend (happ.trans (by rw [h.appdata]))
  · let w : Stack := { v with conn := i, flags := {}, len := v.dataLen }
    change Comp.Returns (if w.cur.unexpected w.buf.hdr w.len then pure (.done (tcpSendAck w))
      else uipSwitch (uipAcks w)) n at hn
    split at hn
    · obtain rfl := Comp.returns_pure.mp hn
      refine .quiet bytes (h.alike ?_ ((appdata_tcpSendNodata w _).trans happ))
      rw [(sends_tcpSendAck w).conns, show w.conns = s.conns from hconns]
      exact .refl _
    · obtain ⟨harrived, hbuf, hlen⟩ := arrived_acks (v := w) h hconns rfl hindex rfl happ
      refine sight_switch harrived (fun hst => ?_) hn
      rw [hbuf, hlen]
      apply hwhole
      apply established_of_seen
      rw [← h.tcpstate, harrived.tcpstate, hst]
      rfl

theorem sight_receive {frame : List UInt8} (h : Shown u i s)
    (hidle : ∀ j, j ≠ i → (s.conns j).tcpstateflags = .closed)
    (hports : ∀ c, s.listenports c = 0) (hframe : frame.length ≤ BUFSIZE)
    (hsyn : (s.buf.receive frame).hdr.flags &&& TCP_CTL = TCP_SYN →
      (s.buf.receive frame).hdr.destport ≠ 0)
    (hwhole : (s.conns i).state = .established → (s.conns i).Matches (s.buf.receive frame).hdr →
      40 ≤ (s.buf.receive frame).hdr.headersLen ∧
        (s.buf.receive frame).hdr.headersLen ≤ (s.buf.receive frame).hdr.totalLen ∧
        ¬ (s.buf.receive frame).hdr.has TCP_URG)
    (hn : (uipInput (s.receive frame)).Returns n) : Sight u i n := by
  have happ : (s.receive frame).buf.appdata = s.buf.appdata.write (frame.drop 40) :=
    appdata_receive ..
  have hquiet {t : Stack} (hs : Sends s t) (ht : t.buf.appdata =
      (s.receive frame).buf.appdata) : Sight u i (.done t) := by
    refine .quiet (frame.drop 40) (h.alike ?_ (ht.trans happ))
    rw [hs.conns]
    exact .refl _
  have hr : Sends s (s.receive frame) := ⟨rfl, rfl, rfl, rfl, rfl, rfl, rfl⟩
  cases input_uipInput hn with
  | ignored hs hbuf _ => exact hquiet (hr.trans hs) (by rw [hbuf])
  | echo _ _ =>
    exact hquiet ((sends_trimmed s frame).trans (sends_icmpInput _)) (appdata_icmpInput _)
  | reset _ _ => exact hquiet ((sends_trimmed s frame).trans (sends_reset _)) (appdata_reset _)
  | listen _ _ hflags hport _ =>
    obtain ⟨c, hc⟩ := hport
    exact absurd (hc.trans (hports c)) (hsyn hflags)
  | @found _ j ha hj hfound =>
    have hmatches := matches_of_some hj
    have hij : j = i := by
      by_contra hne
      exact hmatches.1 (hidle j hne)
    subst hij
    refine sight_found (v := (s.receive frame).trimmed) h rfl rfl happ (fun hst => ?_) hfound
    obtain ⟨hheaders, htotal, hurg⟩ := hwhole hst hmatches
    refine ⟨hurg, ?_⟩
    have hdata : (s.receive frame).trimmed.dataLen.toNat = _ :=
      toNat_headersLen (s.buf.receive frame).hdr htotal
    have hlen := UInt16.le_iff_toNat_le.mp ha.len
    have hlen' : (s.receive frame).len.toNat ≤ 1500 := Nat.le_trans (Nat.mod_le _ _) hframe
    have htot : (s.buf.receive frame).hdr.totalLen ≤ 1500 := Nat.le_trans hlen hlen'
    rw [hdata, UIP_APPDATA_SIZE]
    omega

-- ---------------------------------------------------------------------------
-- The periodic timer
-- ---------------------------------------------------------------------------

theorem Shown.quietly {w : Stack} (h : Shown u i s) (hs : Sends t w) (hconn : t.conn = i)
    (hc : Alike (s.conns i) t.cur)
    (happ : w.buf.appdata = s.buf.appdata.write bytes) : Sight u i (.done w) := by
  have hcur : w.conns i = t.cur := by rw [← hconn, hs.conns]; rfl
  exact .quiet bytes (h.alike (hcur ▸ hc) happ)

/-- The timer has taken up connection `i`. Nothing is sent yet. -/
structure Ticking (i : Fin UIP_CONNS) (s t : Stack) : Prop where
  conn : t.conn = i
  buf : t.buf = s.buf
  len : t.len = 0
  slen : t.slen = 0

theorem Ticking.setConn (h : Ticking i s t) (c : UipConn) : Ticking i s (t.setConn c) :=
  ⟨h.conn, h.buf, h.len, h.slen⟩

theorem Ticking.appdata (h : Ticking i s t) : t.buf.appdata = s.buf.appdata.write [] := by
  rw [h.buf]
  exact (Buffer.write_prefix List.nil_prefix).symm

theorem Shown.polled {flags : UipFlags} (h : Shown u i s) (ht : Ticking i s t)
    (hst : (s.conns i).state = .established)
    (hflags : flags = if uipOutstanding u then { rexmit := true } else { poll := true })
    (hseen : t.cur.seen = (s.conns i).seen) (hsame : t.cur.tcpstateflags =
      (s.conns i).tcpstateflags)
    (hr : r = if uipOutstanding u then .apprexmit else .appsend) :
        Sight u i (.appcall r { t with flags }) := by
  have hstate : u.conn.tcpstate = .established := by rw [h.tcpstate, hst]; rfl
  refine .timer hstate ⟨ht.conn, hsame ▸ h.stopped, ?_⟩ ?_ hr
  · rw [Stack.newdata, hflags]
    split <;> rfl
  · show Uip.mk t.cur.seen flags t.buf.appdata t.len.toNat t.slen.toNat 0 = FxIP.uipTimer u
    rw [hseen, ← h.conn (by rw [hstate]; decide), ht.buf, ← h.appdata, ht.len, ht.slen, hflags]
    rfl

theorem Shown.outstanding (h : Shown u i s) (hst : (s.conns i).state = .established) :
    uipOutstanding u = (s.conns i).outstanding := by
  have hzero : (s.conns i).len.toNat = 0 ↔ (s.conns i).len = 0 := UInt16.toNat_inj (b := 0)
  rw [uipOutstanding, h.conn (by rw [h.tcpstate, hst]; decide), UipConn.outstanding]
  exact decide_eq_decide.mpr (not_congr hzero)

theorem sight_rexmit (h : Shown u i s) (ht : Ticking i s t) (hseen : t.cur.seen = (s.conns i).seen)
    (hsame : t.cur.tcpstateflags = (s.conns i).tcpstateflags) (hout : (s.conns i).outstanding) :
    Sight u i (uipRexmit t) := by
  obtain ⟨c, hc⟩ : ∃ c, c = { t.cur with
      timer := UIP_RTO <<< (if t.cur.nrtx > 4 then 4 else t.cur.nrtx), nrtx := t.cur.nrtx + 1 } :=
        ⟨_, rfl⟩
  have hcseen : c.seen = (s.conns i).seen := by rw [hc]; exact hseen
  have hcsame : c.tcpstateflags = (s.conns i).tcpstateflags := by rw [hc]; exact hsame
  have hw := ht.setConn c
  have hcur : (t.setConn c).cur = c := Stack.cur_setConn
  have halike : Alike (s.conns i) (t.setConn c).cur := by
    rw [hcur]
    exact alike_of_seen hcsame hcseen
  have hkept := hw.appdata
  rw [uipRexmit, ← hc]
  generalize t.setConn c = w at hw hcur halike hkept
  split
  · rename_i hst
    refine absurd ?_ h.synRcvd
    rw [UipConn.state, ← hsame]
    exact hst
  · have hopts := appdata_tcpSendSyn w TCP_SYN
    rw [hw.buf] at hopts
    exact h.quietly (sends_tcpSendSyn w _) hw.conn halike hopts
  · rename_i hst
    have hst : (s.conns i).state = .established := by rw [UipConn.state, ← hsame, hst]
    have hu : uipOutstanding u = true := (h.outstanding hst).trans hout
    exact h.polled hw hst (by rw [if_pos hu]) (hcur ▸ hcseen) (hcur ▸ hcsame) (if_pos hu).symm
  · exact h.quietly (sends_tcpSendFinack w) hw.conn halike ((appdata_tcpSendNodata w _).trans hkept)
  · exact h.quietly (sends_tcpSendFinack w) hw.conn halike ((appdata_tcpSendNodata w _).trans hkept)
  · exact h.quietly (sends_tcpSendFinack w) hw.conn halike ((appdata_tcpSendNodata w _).trans hkept)
  · exact h.quietly (sends_drop w) hw.conn halike hkept

theorem sight_timer (h : Shown u i s) : Sight u i (uipTimer { s with conn := i }) := by
  obtain ⟨t, ht⟩ : ∃ t, t =
      ({ s with conn := i, appdata := 0, iss := s.iss.inc3, len := 0, slen := 0 } : Stack) :=
    ⟨_, rfl⟩
  have hcur : t.cur = s.conns i := by rw [ht]; rfl
  have htick : Ticking i s t := by rw [ht]; exact ⟨rfl, rfl, rfl, rfl⟩
  have hkept := htick.appdata
  have halike : Alike (s.conns i) t.cur := by
    rw [hcur]
    exact .refl _
  rw [uipTimer]
  dsimp only
  rw [← ht, hcur]
  split
  · rename_i hwait
    have hclosed : (s.conns i).state.seen = .closed := by
      rw [UipConn.state]
      rcases hwait with hwait | hwait <;> rw [hwait] <;> rfl
    have hend : AtEnd (s.conns i) := ⟨hclosed, h.synRcvd, h.stopped⟩
    refine h.quietly (sends_drop _) htick.conn ?_ hkept
    rw [Stack.cur_setConn]
    split
    · exact (atEnd_closed _ rfl).alike hclosed
    · exact AtEnd.alike hclosed ⟨hend.tcpstate, hend.synRcvd, hend.stopped⟩
  split
  · split
    · rename_i hout
      have hw := htick.setConn { s.conns i with timer := (s.conns i).timer - 1 }
      have hwcur : (t.setConn { s.conns i with timer := (s.conns i).timer - 1 }).cur =
          { s.conns i with timer := (s.conns i).timer - 1 } := Stack.cur_setConn
      have hkept := hw.appdata
      generalize t.setConn { s.conns i with timer := (s.conns i).timer - 1 } = w at hw hwcur hkept
      split
      · split
        · have hend : AtEnd (w.setConn { w.cur with tcpstateflags := .closed }).cur :=
            atEnd_setConn (atEnd_closed _ rfl)
          exact .closes [] hw.conn rfl hend (hkept.trans (by rw [h.appdata]))
        · exact sight_rexmit h hw (by rw [hwcur]; rfl) (by rw [hwcur]) hout
      · have halike : Alike (s.conns i) w.cur := by
          rw [hwcur]
          exact alike_of_seen rfl rfl
        exact h.quietly (sends_drop w) hw.conn halike hkept
    · split
      · rename_i hout hst
        have hu : ¬ uipOutstanding u = true := fun hu => hout ((h.outstanding hst).symm.trans hu)
        have hpolled :=
          h.polled htick hst (by rw [if_neg hu]) (by rw [hcur]) (by rw [hcur]) (if_neg hu).symm
        rw [ht] at hpolled
        exact hpolled
      · exact h.quietly (sends_drop t) htick.conn halike hkept
  · exact h.quietly (sends_drop t) htick.conn halike hkept

end FxIP.Tcpip
