import FxIP.Tcpip.System

/-!
# One connection at a time

What `uip_process` does, function by function: of the connections, only the one
at hand changes, and that keeps its addresses, its ports and its bounds.
-/

namespace FxIP.Tcpip

variable {i : Fin UIP_CONNS} {s t : Stack} {n : Next} {r : Resume}

-- ---------------------------------------------------------------------------
-- The end of a step
-- ---------------------------------------------------------------------------

theorem zero_le_mss : (0 : UInt16) ≤ TCP_MSS := by decide
theorem one_le_mss : (1 : UInt16) ≤ TCP_MSS := by decide
theorem zero_le_maxrtx : (0 : UInt8) ≤ UIP_MAXRTX := by decide

theorem sends_slen (t : Stack) (slen : UInt16) : Sends t { t with slen } :=
  ⟨rfl, rfl, rfl, rfl, rfl, rfl, rfl⟩

theorem kept_appsendLen (h : Kept i s t) : Kept i s (uipAppsendLen t) := by
  rw [uipAppsendLen]
  split
  · have hacked : Kept i s (if t.flags.acked then t.setConn { t.cur with len := 0 } else t) := by
      split
      · exact h.setConn (.of_len rfl (fun _ => zero_le_mss) rfl rfl fun hc => hc.nrtx)
      · exact h
    generalize (if t.flags.acked then t.setConn { t.cur with len := 0 } else t) = u at hacked
    dsimp only
    split
    · refine (hacked.sends (sends_slen u _)).setConn (.of_len rfl (fun hc => ?_) rfl rfl
        fun hc => hc.nrtx)
      have hmss : u.cur.mss ≤ TCP_MSS := hc.mss
      dsimp only
      split
      · exact hmss
      · rename_i hle
        exact UInt16.le_trans (UInt16.not_lt.mp hle) hmss
    · exact hacked.sends (sends_slen u _)
  · exact h

theorem kept_appsend (h : Kept i s t) : Kept i s (uipAppsend t) := by
  rw [uipAppsend]
  split
  · have hset := (h.sends (sends_slen t 0)).setConn (c := { t.cur with tcpstateflags := .closed })
      (.of_eq rfl rfl rfl rfl rfl)
    exact hset.sends (sends_tcpSendNodata _ _)
  · split
    · have hset := (h.sends (sends_slen t 0)).setConn
        (c := { t.cur with len := 1, tcpstateflags := { state := .finWait1 }, nrtx := 0 })
        (.of_len rfl (fun _ => one_le_mss) rfl rfl fun _ => zero_le_maxrtx)
      exact hset.sends (sends_tcpSendNodata _ _)
    · have hset := (kept_appsendLen h).setConn (c := { (uipAppsendLen t).cur with nrtx := 0 })
        (.of_len rfl (fun hc => hc.len) rfl rfl fun _ => zero_le_maxrtx)
      exact hset.sends (sends_apprexmit _)

theorem kept_appReturn (a : AppReturn) (h : Kept i s t) : Kept i s (uipAppReturn t a) := by
  have hvars :
      Sends t { t with flags := a.flags, slen := a.slen, buf := { t.buf with data := a.data } } :=
    ⟨rfl, rfl, rfl, rfl, rfl, rfl, rfl⟩
  exact (h.sends hvars).setConn (.of_eq rfl rfl rfl rfl rfl)

theorem kept_resume (h : Kept i s t) : Kept i s (uipResume t r) := by
  cases r with
  | drop => exact h.sends (sends_drop t)
  | appsend => exact kept_appsend h
  | apprexmit => exact h.sends (sends_apprexmit t)
  | timedout => exact h.sends (sends_tcpSendNodata _ _)
  | finack =>
    have hset :=
      h.setConn (c := { t.cur with len := 1, tcpstateflags := { state := .lastAck }, nrtx := 0 })
      (.of_len rfl (fun _ => one_le_mss) rfl rfl fun _ => zero_le_maxrtx)
    exact hset.sends (sends_tcpSendFinack _)
  | reset =>
    have hset :=
      h.setConn (c := { t.cur with tcpstateflags := .closed }) (.of_eq rfl rfl rfl rfl rfl)
    exact hset.sends (sends_reset _)
  | ack => exact h.sends (sends_tcpSendAck t)

-- ---------------------------------------------------------------------------
-- The timer
-- ---------------------------------------------------------------------------

theorem succ_le_maxrtx {nrtx : UInt8} (h : nrtx ≤ UIP_MAXRTX) (hne : nrtx ≠ UIP_MAXRTX) :
    nrtx + 1 ≤ UIP_MAXRTX := by
  have hlt := UInt8.lt_iff_toNat_lt.mp (UInt8.lt_of_le_of_ne h hne)
  have hmax : UIP_MAXRTX.toNat = 8 := rfl
  rw [UInt8.le_iff_toNat_le, UInt8.toNat_add, show (1 : UInt8).toNat = 1 from rfl]
  omega

theorem kept_rexmit (h : Kept i s t) (hn : t.cur.nrtx ≠ UIP_MAXRTX) :
    Kept i s (uipRexmit t).stack := by
  have hset := h.setConn (c := { t.cur with
      timer := UIP_RTO <<< (if t.cur.nrtx > 4 then 4 else t.cur.nrtx), nrtx := t.cur.nrtx + 1 })
    (.of_len rfl (fun hc => hc.len) rfl rfl fun hc => succ_le_maxrtx hc.nrtx hn)
  rw [uipRexmit]
  split
  · exact hset.sends (sends_tcpSendSynack _)
  · exact hset.sends (sends_tcpSendSyn _ _)
  · exact hset.sends ⟨rfl, rfl, rfl, rfl, rfl, rfl, rfl⟩
  · exact hset.sends (sends_tcpSendFinack _)
  · exact hset.sends (sends_tcpSendFinack _)
  · exact hset.sends (sends_tcpSendFinack _)
  · exact hset.sends (sends_drop _)

theorem kept_select (s : Stack) (i : Fin UIP_CONNS) : Kept i s { s with conn := i } :=
  ⟨rfl, fun _ _ => rfl, .refl _, rfl, rfl, rfl⟩

theorem kept_timer (ht : Kept i s t) : Kept i s (uipTimer t).stack := by
  have h : Kept i s { t with appdata := 0, iss := t.iss.inc3, len := 0, slen := 0 } :=
    ⟨ht.conn, ht.others, ht.self, ht.hostaddr, ht.listenports, ht.lastport⟩
  rw [uipTimer]
  generalize ({ t with appdata := 0, iss := t.iss.inc3, len := 0, slen := 0 } : Stack) = t at h
  dsimp only
  split
  · have hset := h.setConn (c := if t.cur.timer + 1 = UIP_TIME_WAIT_TIMEOUT then
        { t.cur with timer := t.cur.timer + 1, tcpstateflags := .closed }
          else { t.cur with timer := t.cur.timer + 1 })
      (by split <;> exact .of_eq rfl rfl rfl rfl rfl)
    exact hset.sends (sends_drop _)
  · split
    · split
      · have hset :=
          h.setConn (c := { t.cur with timer := t.cur.timer - 1 }) (.of_eq rfl rfl rfl rfl rfl)
        have hnrtx : (t.setConn { t.cur with timer := t.cur.timer - 1 }).cur.nrtx = t.cur.nrtx := by
          rw [Stack.cur_setConn]
        generalize t.setConn { t.cur with timer := t.cur.timer - 1 } = u at hset hnrtx
        split
        · split
          · have hclosed := hset.setConn (c := { u.cur with tcpstateflags := .closed })
              (.of_eq rfl rfl rfl rfl rfl)
            exact hclosed.sends ⟨rfl, rfl, rfl, rfl, rfl, rfl, rfl⟩
          · rename_i htimed
            exact kept_rexmit hset fun hmax => htimed (.inl (hnrtx ▸ hmax))
        · exact hset.sends (sends_drop _)
      · split
        · exact h.sends ⟨rfl, rfl, rfl, rfl, rfl, rfl, rfl⟩
        · exact h.sends (sends_drop _)
    · exact h.sends (sends_drop _)

theorem kept_poll (ht : Kept i s t) : Kept i s (uipPoll t).stack := by
  have h : Kept i s { t with appdata := 0 } := ht.sends ⟨rfl, rfl, rfl, rfl, rfl, rfl, rfl⟩
  rw [uipPoll]
  dsimp only
  split
  · exact h.sends ⟨rfl, rfl, rfl, rfl, rfl, rfl, rfl⟩
  · exact h.sends (sends_drop _)

-- ---------------------------------------------------------------------------
-- A segment for a connection
-- ---------------------------------------------------------------------------

theorem kept_addRcvNxt (h : Kept i s t) (n : UInt16) : Kept i s (uipAddRcvNxt t n) :=
  h.setConn (.of_eq rfl rfl rfl rfl rfl)

theorem kept_addLen (h : Kept i s t) : Kept i s
    (if t.len > 0 then uipAddRcvNxt t t.len else t) := by
  split
  · exact kept_addRcvNxt h _
  · exact h

theorem evolves_estimate (c : UipConn) : c.Evolves c.estimate := .of_eq rfl rfl rfl rfl rfl

theorem evolves_acked (c : UipConn) : c.Evolves c.acked := by
  have hnxt : c.Evolves { c with sndNxt := uipAdd32 c.sndNxt c.len } := .of_eq rfl rfl rfl rfl rfl
  rw [UipConn.acked]
  dsimp only
  split
  · exact (hnxt.trans (evolves_estimate _)).trans
      (.of_len rfl (fun _ => zero_le_mss) rfl rfl fun hc => hc.nrtx)
  · exact hnxt.trans (.of_len rfl (fun _ => zero_le_mss) rfl rfl fun hc => hc.nrtx)

theorem kept_acks (h : Kept i s t) : Kept i s (uipAcks t) := by
  rw [uipAcks]
  split
  · exact (h.setConn (evolves_acked _)).sends ⟨rfl, rfl, rfl, rfl, rfl, rfl, rfl⟩
  · exact h

theorem evolves_setMss (c : UipConn) (mss : Option UInt16) : c.Evolves (c.setMss mss) := by
  cases mss with
  | none => exact .refl c
  | some tmp16 =>
    refine ⟨rfl, fun hc => ?_⟩
    have hmss : (if tmp16 > TCP_MSS then TCP_MSS else tmp16) ≤ TCP_MSS := by
      split
      · exact UInt16.le_refl _
      · rename_i hle
        exact UInt16.not_lt.mp hle
    exact ⟨hc.len, hmss, hmss, hc.nrtx⟩

theorem kept_synRcvd (h : Kept i s t) : Kept i s (uipSynRcvd t).stack := by
  rw [uipSynRcvd]
  split
  · have hset := h.setConn
      (c := { t.cur with tcpstateflags := { state := .established }, len := 0 })
      (.of_len rfl (fun _ => zero_le_mss) rfl rfl fun hc => hc.nrtx)
    have hflags := hset.sends
      (u := { t.setConn { t.cur with tcpstateflags := { state := .established }, len := 0 } with
      flags := { connected := true, newdata := t.len > 0 } }) ⟨rfl, rfl, rfl, rfl, rfl, rfl, rfl⟩
    exact (kept_addLen hflags).sends (sends_slen _ _)
  · exact h.sends (sends_drop t)

theorem kept_synSent (h : Kept i s t) (hn : (uipSynSent t).Returns n) : Kept i s n.stack := by
  rw [uipSynSent] at hn
  split at hn
  · obtain ⟨mss, -, hn⟩ := Comp.returns_bind.mp hn
    obtain rfl := Comp.returns_pure.mp hn
    have hset := h.setConn (c := { t.cur.setMss mss with
        tcpstateflags := { state := .established }, rcvNxt := t.buf.hdr.seqno })
      ((evolves_setMss t.cur mss).trans (.of_eq rfl rfl rfl rfl rfl))
    have hlen := (kept_addRcvNxt hset 1).setConn (c := { (uipAddRcvNxt _ 1).cur with len := 0 })
      (.of_len rfl (fun _ => zero_le_mss) rfl rfl fun hc => hc.nrtx)
    exact hlen.sends ⟨rfl, rfl, rfl, rfl, rfl, rfl, rfl⟩
  · obtain rfl := Comp.returns_pure.mp hn
    exact h.sends ⟨rfl, rfl, rfl, rfl, rfl, rfl, rfl⟩

theorem kept_urg (h : Kept i s t) : Kept i s (uipUrg t) := by
  rw [uipUrg]
  split
  · exact h.sends ⟨rfl, rfl, rfl, rfl, rfl, rfl, rfl⟩
  · exact h

theorem kept_newdata (h : Kept i s t) : Kept i s (uipNewdata t) := by
  rw [uipNewdata]
  split
  · exact (kept_addRcvNxt h t.len).sends ⟨rfl, rfl, rfl, rfl, rfl, rfl, rfl⟩
  · exact h

theorem evolves_setWnd (c : UipConn) (wnd : UInt16) : c.Evolves (c.setWnd wnd) := by
  refine ⟨rfl, fun hc => ⟨hc.len, ?_, hc.initialmss, hc.nrtx⟩⟩
  rw [UipConn.setWnd]
  dsimp only
  split
  · exact hc.initialmss
  · rename_i hwnd
    exact UInt16.le_trans (UInt16.not_lt.mp fun hlt => hwnd (.inl hlt)) hc.initialmss

theorem kept_established (h : Kept i s t) : Kept i s (uipEstablished t).stack := by
  rw [uipEstablished]
  dsimp only
  split
  · split
    · exact h.sends (sends_drop t)
    · exact (kept_addRcvNxt h _).sends ⟨rfl, rfl, rfl, rfl, rfl, rfl, rfl⟩
  · have hwnd := (kept_newdata (kept_urg h)).setConn
      (evolves_setWnd _ (word t.buf.hdr.wnd.1 t.buf.hdr.wnd.2))
    generalize (uipNewdata (uipUrg t)).setConn _ = u at hwnd
    split
    · exact hwnd.sends (sends_slen u 0)
    · exact hwnd.sends (sends_drop u)

theorem kept_lastAck (h : Kept i s t) : Kept i s (uipLastAck t).stack := by
  rw [uipLastAck]
  split
  · have hset := h.setConn (c := { t.cur with tcpstateflags := .closed })
      (.of_eq rfl rfl rfl rfl rfl)
    exact hset.sends ⟨rfl, rfl, rfl, rfl, rfl, rfl, rfl⟩
  · exact h.sends (sends_drop t)

theorem kept_finWait1 (h : Kept i s t) : Kept i s (uipFinWait1 t).stack := by
  rw [uipFinWait1]
  have hlen := kept_addLen h
  generalize (if t.len > 0 then uipAddRcvNxt t t.len else t) = u at hlen
  dsimp only
  split
  · have hset : Kept i s (u.setConn
        (if u.flags.acked then
            { u.cur with tcpstateflags := { state := .timeWait }, timer := 0, len := 0 }
          else { u.cur with tcpstateflags := { state := .closing } })) := by
      refine hlen.setConn ?_
      split
      · exact .of_len rfl (fun _ => zero_le_mss) rfl rfl fun hc => hc.nrtx
      · exact .of_eq rfl rfl rfl rfl rfl
    exact (kept_addRcvNxt hset 1).sends ⟨rfl, rfl, rfl, rfl, rfl, rfl, rfl⟩
  · split
    · have hset :=
        hlen.setConn (c := { u.cur with tcpstateflags := { state := .finWait2 }, len := 0 })
        (.of_len rfl (fun _ => zero_le_mss) rfl rfl fun hc => hc.nrtx)
      exact hset.sends (sends_drop _)
    · split
      · exact hlen.sends (sends_tcpSendAck u)
      · exact hlen.sends (sends_drop u)

theorem kept_finWait2 (h : Kept i s t) : Kept i s (uipFinWait2 t).stack := by
  rw [uipFinWait2]
  have hlen := kept_addLen h
  generalize (if t.len > 0 then uipAddRcvNxt t t.len else t) = u at hlen
  dsimp only
  split
  · have hset :=
      hlen.setConn (c := { u.cur with tcpstateflags := { state := .timeWait }, timer := 0 })
      (.of_eq rfl rfl rfl rfl rfl)
    exact (kept_addRcvNxt hset 1).sends ⟨rfl, rfl, rfl, rfl, rfl, rfl, rfl⟩
  · split
    · exact hlen.sends (sends_tcpSendAck u)
    · exact hlen.sends (sends_drop u)

theorem kept_closing (h : Kept i s t) : Kept i s (uipClosing t).stack := by
  have hset : Kept i s (if t.flags.acked then
      t.setConn { t.cur with tcpstateflags := { state := .timeWait }, timer := 0 } else t) := by
    split
    · exact h.setConn (.of_eq rfl rfl rfl rfl rfl)
    · exact h
  exact hset.sends (sends_drop _)

theorem kept_switch (h : Kept i s t) (hn : (uipSwitch t).Returns n) : Kept i s n.stack := by
  rw [uipSwitch] at hn
  split at hn
  · exact Comp.returns_pure.mp hn ▸ kept_synRcvd h
  · exact kept_synSent h hn
  · exact Comp.returns_pure.mp hn ▸ kept_established h
  · exact Comp.returns_pure.mp hn ▸ kept_lastAck h
  · exact Comp.returns_pure.mp hn ▸ kept_finWait1 h
  · exact Comp.returns_pure.mp hn ▸ kept_finWait2 h
  · exact Comp.returns_pure.mp hn ▸ h.sends (sends_tcpSendAck t)
  · exact Comp.returns_pure.mp hn ▸ kept_closing h
  · exact Comp.returns_pure.mp hn ▸ h.sends (sends_drop t)

theorem kept_found (s : Stack) (hn : (uipFound s i).Returns n) : Kept i s n.stack := by
  have h : Kept i s { s with conn := i, flags := {} } :=
    ⟨rfl, fun _ _ => rfl, .refl _, rfl, rfl, rfl⟩
  rw [uipFound] at hn
  generalize ({ s with conn := i, flags := {} } : Stack) = t at h hn
  dsimp only at hn
  split at hn
  · obtain rfl := Comp.returns_pure.mp hn
    have hset :=
      h.setConn (c := { t.cur with tcpstateflags := .closed }) (.of_eq rfl rfl rfl rfl rfl)
    exact hset.sends ⟨rfl, rfl, rfl, rfl, rfl, rfl, rfl⟩
  · have hlen : Kept i s { t with len := t.len - ((t.buf.hdr.tcpoffset >>> 4) <<< 2).toUInt16 -
        UIP_IPH_LEN } :=
      h.sends ⟨rfl, rfl, rfl, rfl, rfl, rfl, rfl⟩
    split at hn
    · exact Comp.returns_pure.mp hn ▸ hlen.sends (sends_tcpSendAck _)
    · exact kept_switch (kept_acks hlen) hn

end FxIP.Tcpip
