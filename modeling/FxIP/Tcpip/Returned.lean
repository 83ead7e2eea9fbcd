import FxIP.Irc.Appdata
import FxIP.Irc.Fits
import FxIP.Irc.Outbox
import FxIP.Tcpip.Sight

/-!
# What the stack does with what the client leaves

When the client returns, the stack takes its data for the next segment, or as the
outstanding one again, or leaves them, just as in the client's own model.
-/

namespace FxIP.Tcpip

variable {h : Host} {s t : Stack} {c : UipConn} {i : Fin UIP_CONNS} {r : Resume} {u u' : Uip}

/-- The client is called, and has `u` for the globals. -/
structure InCall (u : Uip) (i : Fin UIP_CONNS) (h : Host) : Prop where
  calling : h.calling = some (if u.flags.rexmit then .apprexmit else .appsend)
  conn : h.stack.conn = i
  flags : u.flags = h.stack.flags
  going : Over u.flags = false
  seen : u.conn = h.stack.cur.seen
  tcpstate : u.conn.tcpstate = .established
  stopped : h.stack.cur.tcpstateflags.stopped = false
  acked : u.flags.acked → u.conn.len = 0
  rexmit : u.flags.rexmit → u.conn.len ≠ 0
  slen : u.slen ≤ UIP_TCP_MSS

theorem InCall.fits (h' : InCall u i h) (hfits : StoresFit u u')
    (hmss : h.stack.cur.mss ≤ TCP_MSS) : InCall u' i h := by
  have hconn := hfits.conn
  have hflags := hfits.flags
  refine ⟨hflags ▸ h'.calling, h'.conn, hflags.trans h'.flags, hflags ▸ h'.going,
    hconn.trans h'.seen, hconn ▸ h'.tcpstate,
    h'.stopped, hflags ▸ hconn ▸ h'.acked, hflags ▸ hconn ▸ h'.rexmit, ?_⟩
  rcases hfits.slen with heq | hle
  · exact heq ▸ h'.slen
  · rw [h'.seen] at hle
    exact Nat.le_trans hle (UInt16.le_iff_toNat_le.mp hmss)

-- ---------------------------------------------------------------------------
-- The lengths
-- ---------------------------------------------------------------------------

theorem toNat_fit (c : UipConn) (slen : UInt16) :
    (c.fit slen).toNat = if slen.toNat > c.seen.mss then c.seen.mss else slen.toNat := by
  have hiff : slen > c.mss ↔ slen.toNat > c.seen.mss := UInt16.lt_iff_toNat_lt
  rw [UipConn.fit]
  by_cases hgt : slen > c.mss
  · rw [if_pos hgt, if_pos (hiff.mp hgt)]
    rfl
  · rw [if_neg hgt, if_neg (mt hiff.mpr hgt)]

theorem appsendLen_eq (s : Stack) :
    (uipAppsendLen s).cur = { s.cur with len := (uipAppsendLen s).cur.len } := by
  rw [uipAppsendLen]
  split
  · have hcur : (if s.flags.acked then s.setConn { s.cur with len := 0 } else s).cur =
        { s.cur with len := if s.flags.acked then 0 else s.cur.len } := by
      split
      · exact Stack.cur_setConn
      · rfl
    generalize (if s.flags.acked then s.setConn { s.cur with len := 0 } else s) = w at hcur
    have hsame (len : UInt16) : ({ w.cur with len } : UipConn) = { s.cur with len } := by rw [hcur]
    dsimp only
    split
    · rw [Stack.cur_setConn]
      exact hsame _
    · show w.cur = { s.cur with len := w.cur.len }
      rw [hcur]
  · rfl

theorem appsend_conn (u : Uip) : (FxIP.uipAppsend u).conn = { u.conn with
    len := if u.slen > 0 ∧ (u.conn.len = 0 ∨ u.flags.acked) then
      if u.slen > u.conn.mss then u.conn.mss else u.slen else u.conn.len } := by
  rw [FxIP.uipAppsend]
  by_cases hpos : u.slen > 0
  · rw [if_pos hpos]
    dsimp only
    by_cases hnew : u.conn.len = 0 ∨ u.flags.acked
    · have hzero : (if u.flags.acked then 0 else u.conn.len) = 0 := by
        rcases hnew with hzero | hacked
        · simp [hzero]
        · simp [hacked]
      have hcond : u.slen > 0 ∧ (u.conn.len = 0 ∨ u.flags.acked) := ⟨hpos, hnew⟩
      simp only [if_pos hzero, if_pos hcond]
    · obtain ⟨hne, hacked⟩ := not_or.mp hnew
      have hlen : (if u.flags.acked then 0 else u.conn.len) = u.conn.len := if_neg hacked
      rw [hlen, if_neg hne, if_neg fun h => hnew h.2]
  · rw [if_neg hpos, if_neg fun h => hpos h.1]

theorem appsendLen_seen (hconn : u.conn = s.cur.seen) (hflags : u.flags = s.flags)
    (hslen : u.slen = s.slen.toNat) :
    (uipAppsendLen s).cur.seen = (FxIP.uipAppsend u).conn := by
  have hcond : s.slen > 0 ∧ (s.cur.len = 0 ∨ s.flags.acked) ↔ u.slen > 0 ∧
      (u.conn.len = 0 ∨ u.flags.acked) := by
    rw [hslen, hconn, hflags]
    exact and_congr UInt16.lt_iff_toNat_lt (or_congr (UInt16.toNat_inj (b := 0)).symm Iff.rfl)
  rw [appsend_conn, appsendLen_eq, (appsendLen_cur s).2.2, hconn]
  by_cases hnew : s.slen > 0 ∧ (s.cur.len = 0 ∨ s.flags.acked)
  · have hnew' := hcond.mp hnew
    rw [hconn] at hnew'
    rw [if_pos hnew, if_pos hnew', hslen, ← toNat_fit]
    rfl
  · have hold := mt hcond.mpr hnew
    rw [hconn] at hold
    rw [if_neg hnew, if_neg hold]

-- ---------------------------------------------------------------------------
-- The return of the client
-- ---------------------------------------------------------------------------

def Stack.after (s : Stack) (u : Uip) (r : Resume) : Stack :=
  uipResume (uipAppReturn s (s.left u)) r

theorem cur_left (s : Stack) (u : Uip) : (uipAppReturn s (s.left u)).cur = s.cur :=
  conn_returned s (s.left u)

theorem InCall.established (h' : InCall u i h) : h.stack.cur.state = .established :=
  established_of_seen ((congrArg FxIP.UipConn.tcpstate h'.seen).symm.trans h'.tcpstate)

theorem InCall.toNat_slen (h' : InCall u i h) : u.slen = (h.stack.left u).slen.toNat := by
  show u.slen = u.slen % 65536
  rw [Nat.mod_eq_of_lt (Nat.lt_of_le_of_lt h'.slen (by decide))]

theorem InCall.not_over (h' : InCall u i h) : u.flags.aborted = false ∧ u.flags.closed = false := by
  have hover := h'.going
  simp only [Over, Bool.or_eq_false_iff] at hover
  exact ⟨hover.1.2, hover.1.1⟩

theorem InCall.sends {w : Stack} {v : Uip} (h' : InCall u i h) (hs : Sends w t) (hconn : w.conn = i)
    (hseen : w.cur.seen = v.conn) (hflags : w.cur.tcpstateflags = h.stack.cur.tcpstateflags)
    (hv : v.appdata = t.buf.appdata) : Shown v i t ∧ (t.conns i).state = .established := by
  have hcur : t.conns i = w.cur := by rw [hs.conns, ← hconn]; rfl
  have hst := h'.established
  refine ⟨⟨?_, fun _ => ?_, hv, ?_, ?_⟩, ?_⟩
  · rw [hcur, ← hseen]
    rfl
  · rw [hcur, ← hseen]
  · rw [hcur, UipConn.state, hflags]
    exact fun hsyn => by cases hst.symm.trans hsyn
  · rw [hcur, hflags]
    exact h'.stopped
  · rw [hcur, UipConn.state, hflags]
    exact hst

theorem InCall.shown {r : Resume} (h' : InCall u i h) (hr : h.calling = some r) :
    Shown (uipOutput u).2 i (h.stack.after u r) ∧
      ((h.stack.after u r).conns i).state = .established := by
  have happ : (uipAppReturn h.stack (h.stack.left u)).buf.appdata = u.appdata :=
    appdata_left h.stack u
  have hcur := cur_left h.stack u
  have hcalling := Option.some.inj (h'.calling.symm.trans hr)
  by_cases hrexmit : u.flags.rexmit
  · rw [if_pos hrexmit] at hcalling
    subst hcalling
    have hout : (uipOutput u).2 = u := by rw [uipOutput, if_pos hrexmit]
    rw [hout]
    refine h'.sends (sends_apprexmit _) h'.conn ?_ ?_ ((appdata_apprexmit _).trans happ).symm
    · rw [hcur]
      exact h'.seen.symm
    · rw [hcur]
  · rw [if_neg hrexmit] at hcalling
    subst hcalling
    have hout : (uipOutput u).2 = FxIP.uipAppsend u := by rw [uipOutput, if_neg hrexmit]
    obtain ⟨haborted, hclosed⟩ := h'.not_over
    have hafter : h.stack.after u .appsend = uipApprexmit
        ((uipAppsendLen (uipAppReturn h.stack (h.stack.left u))).setConn
          { (uipAppsendLen (uipAppReturn h.stack (h.stack.left u))).cur with nrtx := 0 }) := by
      have haborted' : ¬ (uipAppReturn h.stack (h.stack.left u)).flags.aborted :=
        Bool.eq_false_iff.mp haborted
      have hclosed' : ¬ (uipAppReturn h.stack (h.stack.left u)).flags.closed :=
        Bool.eq_false_iff.mp hclosed
      show uipAppsend (uipAppReturn h.stack (h.stack.left u)) = _
      rw [uipAppsend, if_neg haborted', if_neg hclosed']
    have hlen := appsendLen_seen (u := u) (s := uipAppReturn h.stack (h.stack.left u))
      (h'.seen.trans (by rw [hcur])) rfl h'.toNat_slen
    have heq := appsendLen_eq (uipAppReturn h.stack (h.stack.left u))
    obtain ⟨hbuf, hconn, -⟩ := appsendLen_frame (uipAppReturn h.stack (h.stack.left u))
    have hkeeps := (uipAppsend_keeps u).2.1
    rw [hcur] at heq
    rw [hout, hafter]
    generalize uipAppsendLen (uipAppReturn h.stack (h.stack.left u)) = w at hlen heq hbuf hconn
    refine h'.sends (sends_apprexmit _) (hconn.trans h'.conn) ?_ ?_ ?_
    · rw [Stack.cur_setConn]
      exact hlen
    · rw [Stack.cur_setConn, heq]
    · rw [appdata_apprexmit, Stack.buf_setConn, hbuf, happ]
      exact hkeeps

-- ---------------------------------------------------------------------------
-- The stream
-- ---------------------------------------------------------------------------

theorem stream_output (sys : IrcSystem) (m : Messages) (app : IrcState) (u : Uip) :
    (sys.output m app u).stream = sys.stream ++ if u.conn.len = 0 then (uipOutput u).1.getD []
      else [] := by
  simp only [IrcSystem.output, IrcSystem.stream]
  cases (uipOutput u).1 with
  | none => simp
  | some data =>
    dsimp only [Option.getD_some]
    split
    · rw [flatMap_send]
    · rw [List.append_nil]
      rfl

theorem take_left (s : Stack) (u : Uip) {n : Nat} (hn : n ≤ UIP_APPDATA_SIZE) :
    (s.left u).data.cells.take n = u.appdata.cells.take n := by
  have happ := congrArg Buffer.cells (appdata_left s u)
  rw [← happ]
  show _ = ((s.left u).data.cells.take UIP_APPDATA_SIZE).take n
  rw [List.take_take, Nat.min_eq_left hn]

theorem output_new (hrexmit : ¬ u.flags.rexmit) (hzero : u.conn.len = 0) :
    (uipOutput u).1.getD [] =
      if u.slen > 0 then u.appdata.cells.take (if u.slen > u.conn.mss then u.conn.mss else u.slen)
        else [] := by
  have hout : (uipOutput u).1 = FxIP.uipApprexmit
    (FxIP.uipAppsend u) := by rw [uipOutput, if_neg hrexmit]
  rw [hout, FxIP.uipApprexmit]
  have hconn := appsend_conn u
  have hdata := (uipAppsend_keeps u).2.1
  by_cases hpos : u.slen > 0
  · have hslen : (FxIP.uipAppsend u).slen = if u.slen > u.conn.mss then u.conn.mss else u.slen := by
      have hfree : (if u.flags.acked then 0 else u.conn.len) = 0 := by rw [hzero, ite_self]
      rw [FxIP.uipAppsend, if_pos hpos]
      dsimp only
      rw [if_pos hfree]
    rw [if_pos ⟨hpos, .inl hzero⟩] at hconn
    rw [hslen, hconn, hdata, if_pos hpos]
    generalize (if u.slen > u.conn.mss then u.conn.mss else u.slen) = n
    by_cases hn : n > 0
    · rw [if_pos ⟨hn, hn⟩, Option.getD_some]
    · rw [if_neg fun h => hn h.1, Nat.eq_zero_of_not_pos hn]
      rfl
  · have hsame : FxIP.uipAppsend u = u := by rw [FxIP.uipAppsend, if_neg hpos]
    rw [hsame, if_neg fun h => hpos h.1, if_neg hpos]
    rfl

theorem InCall.writes (h' : InCall u i h) (hr : h.calling = some r)
    (hmss : h.stack.cur.mss ≤ TCP_MSS) (sys : IrcSystem) (m : Messages) (app : IrcState) :
    (sys.output m app u).stream = sys.stream ++ h.writes i (.appReturn (h.stack.left u)) := by
  rw [stream_output]
  congr 1
  have hcalling := Option.some.inj (h'.calling.symm.trans hr)
  by_cases hrexmit : u.flags.rexmit
  · rw [if_pos hrexmit] at hcalling
    subst hcalling
    rw [if_neg (h'.rexmit hrexmit), Host.writes, hr, if_neg fun hc => by cases hc.1]
  · rw [if_neg hrexmit] at hcalling
    subst hcalling
    obtain ⟨haborted, hclosed⟩ := h'.not_over
    have hcond : (¬ (h.stack.left u).flags.aborted ∧ ¬ (h.stack.left u).flags.closed ∧
      (h.stack.left u).slen > 0 ∧
        (h.stack.cur.len = 0 ∨ (h.stack.left u).flags.acked)) ↔ u.slen > 0 ∧ u.conn.len = 0 := by
      have hlen : u.conn.len = 0 ↔ h.stack.cur.len = 0 := by
        rw [h'.seen]
        exact UInt16.toNat_inj (b := 0)
      have hslen : u.slen > 0 ↔ (h.stack.left u).slen > 0 := by
        rw [h'.toNat_slen]
        exact (UInt16.lt_iff_toNat_lt (a := 0)).symm
      rw [← hlen, ← hslen]
      constructor
      · rintro ⟨-, -, hpos, hfree⟩
        exact ⟨hpos, hfree.elim id h'.acked⟩
      · rintro ⟨hpos, hzero⟩
        exact ⟨Bool.eq_false_iff.mp haborted, Bool.eq_false_iff.mp hclosed, hpos, .inl hzero⟩
    have hwrites : h.writes i (.appReturn (h.stack.left u)) = h.stack.newWritten (h.stack.left u) :=
      if_pos ⟨hr, h'.conn⟩
    rw [hwrites, Stack.newWritten]
    by_cases hzero : u.conn.len = 0
    · rw [if_pos hzero, output_new hrexmit hzero]
      by_cases hpos : u.slen > 0
      · have hfit := toNat_fit h.stack.cur (h.stack.left u).slen
        rw [← h'.toNat_slen, ← h'.seen] at hfit
        have hle : (h.stack.cur.fit (h.stack.left u).slen).toNat ≤ UIP_APPDATA_SIZE := by
          rw [hfit, h'.seen]
          split
          · exact UInt16.le_iff_toNat_le.mp hmss
          · exact h'.slen
        rw [if_pos hpos, if_pos (hcond.mpr ⟨hpos, hzero⟩), take_left _ _ hle, hfit]
      · rw [if_neg hpos, if_neg fun hc => hpos (hcond.mp hc).1]
    · rw [if_neg hzero, if_neg fun hc => hzero (hcond.mp hc).2]

end FxIP.Tcpip
