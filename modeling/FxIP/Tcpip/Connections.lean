import FxIP.Tcpip.Connect

/-!
# The table of connections

A step changes one connection, or opens one, or none. So the connections in use
always differ in their addresses or ports, and a segment is for one at most.
-/

namespace FxIP.Tcpip

variable {h h' : Host} {s t : Stack} {e : Event} {es : List Event} {n : Next} {i j : Fin UIP_CONNS}

/-- A connection in use, or the one that the application is called for. -/
def Host.Engaged (h : Host) (i : Fin UIP_CONNS) : Prop :=
  (h.stack.conns i).tcpstateflags ≠ .closed ∨ (h.calling ≠ none ∧ h.stack.conn = i)

inductive Change (h h' : Host) : Prop
  | same : h'.stack.conns = h.stack.conns → h'.stack.hostaddr = h.stack.hostaddr →
      (∀ i, h'.Engaged i → h.Engaged i) → Change h h'
  | kept {k} : Kept k h.stack h'.stack → (h'.Engaged k → h.Engaged k) → Change h h'
  | opened {k} : Opens k h.stack h'.stack → h'.calling = none → Change h h'

theorem not_engaged_done (ht : t.conns = s.conns) (hi : Host.Engaged ⟨t, none⟩ i) :
    Host.Engaged ⟨s, none⟩ i := by
  rcases hi with hopen | ⟨hcalling, -⟩
  · exact .inl (ht ▸ hopen)
  · exact absurd rfl hcalling

theorem change_sends (ht : Sends s t) : Change ⟨s, none⟩ ⟨t, none⟩ :=
  .same ht.conns ht.hostaddr fun _ => not_engaged_done ht.conns

theorem Kept.of_sends {u : Stack} (hs : Sends s t) (h : Kept i t u) : Kept i s u where
  conn := h.conn
  others j hj := by rw [h.others j hj, hs.conns]
  self := by
    rw [← hs.conns]
    exact h.self
  hostaddr := h.hostaddr.trans hs.hostaddr
  listenports := h.listenports.trans hs.listenports
  lastport := h.lastport.trans hs.lastport

theorem Opens.of_sends {u : Stack} (hs : Sends s t) (h : Opens i t u) : Opens i s u := by
  obtain ⟨hunused, hothers, hstate, hfresh, hbounded, hhost, hports⟩ := h
  rw [hs.conns] at hunused hothers hfresh hbounded
  exact ⟨hunused, hothers, hstate, hfresh, hbounded, hhost.trans hs.hostaddr,
    hports.trans hs.listenports⟩

theorem sends_trimmed (s : Stack) (frame : List UInt8) : Sends s (s.receive frame).trimmed :=
  ⟨rfl, rfl, rfl, rfl, rfl, rfl, rfl⟩

theorem change_receive {frame : List UInt8} (hn : (uipInput (s.receive frame)).Returns n) :
    Change ⟨s, none⟩ n.host := by
  have hs := sends_trimmed s frame
  have hr : Sends s (s.receive frame) := ⟨rfl, rfl, rfl, rfl, rfl, rfl, rfl⟩
  cases input_uipInput hn with
  | ignored hsends _ _ => exact change_sends (hr.trans hsends)
  | echo ha hp => exact change_sends (hs.trans (sends_icmpInput _))
  | reset ha hnone => exact change_sends (hs.trans (sends_reset _))
  | listen ha hnone hsyn hport hlisten =>
    rcases foundListen_cases (s := (s.receive frame).trimmed) hnone hlisten
      with ⟨i, hopens, -, hdone⟩ | ⟨t, rfl, hsends, -⟩
    · exact .opened (hopens.of_sends hs) hdone
    · exact change_sends (hs.trans hsends)
  | found ha hi hfound =>
    have hmatches := matches_of_some hi
    exact .kept ((kept_found _ hfound).of_sends hs) fun _ => .inl hmatches.1

theorem timer_closed (hc : s.cur.tcpstateflags = .closed) :
    (uipTimer s).resume = none ∧ (uipTimer s).stack.cur = s.cur ∧ (uipTimer s).stack.len = 0 := by
  have hcur : ({ s with appdata := 0, iss := s.iss.inc3, len := 0, slen := 0 } : Stack).cur =
    s.cur := rfl
  rw [uipTimer]
  dsimp only
  rw [hcur, hc, if_neg (by decide), if_neg (by decide)]
  exact ⟨rfl, rfl, rfl⟩

theorem poll_closed (hc : s.cur.tcpstateflags = .closed) :
    (uipPoll s).resume = none ∧ (uipPoll s).stack.cur = s.cur ∧ (uipPoll s).stack.len = 0 := by
  have hcur : ({ s with appdata := 0 } : Stack).cur = s.cur := rfl
  rw [uipPoll]
  dsimp only
  rw [hcur, hc, if_neg (fun hest => absurd hest.1 (by decide))]
  exact ⟨rfl, rfl, rfl⟩

theorem engaged_of_closed (hk : Kept i s n.stack)
    (hclosed : (s.conns i).tcpstateflags = .closed →
      n.resume = none ∧ n.stack.cur = s.conns i ∧ n.stack.len = 0)
    (hi : n.host.Engaged i) : Host.Engaged ⟨s, none⟩ i := by
  by_contra hnot
  have hc : (s.conns i).tcpstateflags = .closed := by
    by_contra hc
    exact hnot (.inl hc)
  obtain ⟨hnone, hcur, -⟩ := hclosed hc
  rcases hi with hopen | ⟨hcalling, -⟩
  · apply hopen
    show (n.stack.conns i).tcpstateflags = _
    rw [← hk.cur, hcur, hc]
  · exact hcalling hnone

theorem setListen_frame (s : Stack) (port : UInt16) (c : Option (Fin UIP_LISTENPORTS)) :
    ∃ listenports, s.setListen port c = { s with listenports } := by
  cases c with
  | none => exact ⟨s.listenports, rfl⟩
  | some c => exact ⟨_, rfl⟩

theorem change_listen (s : Stack) (port : UInt16) (c : Option (Fin UIP_LISTENPORTS)) :
    Change ⟨s, none⟩ ⟨s.setListen port c, none⟩ := by
  obtain ⟨listenports, hframe⟩ := setListen_frame s port c
  rw [hframe]
  exact .same rfl rfl fun _ => id

theorem change_step (hstep : HostStep h e h') : Change h h' := by
  cases hstep with
  | receive hlen hn => exact change_receive hn
  | @periodic s i =>
    have hk := kept_timer (kept_select s i)
    exact .kept hk (engaged_of_closed hk (timer_closed (s := { s with conn := i })))
  | @poll s i =>
    have hk := kept_poll (kept_select s i)
    exact .kept hk (engaged_of_closed hk (poll_closed (s := { s with conn := i })))
  | connect hr =>
    obtain ⟨hopens, lastport, conns, -, hframe⟩ := connect_cases hr
    rcases hopens with ⟨i, -, hopens⟩ | ⟨-, hconns⟩
    · exact .opened hopens rfl
    · exact .same hconns (by rw [hframe]) fun _ => not_engaged_done hconns
  | listen => exact change_listen ..
  | unlisten => exact change_listen ..
  | memory => exact .same rfl rfl fun _ => id
  | @appReturn s r resume =>
    refine .kept (kept_resume (kept_appReturn r (.refl s))) fun _ => .inr ⟨?_, rfl⟩
    exact Option.some_ne_none resume

-- ---------------------------------------------------------------------------
-- The invariant
-- ---------------------------------------------------------------------------

structure Host.Ok (h : Host) : Prop where
  hostaddr : h.stack.hostaddr = HOSTADDR
  bounded : ∀ i, (h.stack.conns i).Bounded
  distinct : ∀ i j, i ≠ j → h.Engaged i → h.Engaged j →
    (h.stack.conns i).key ≠ (h.stack.conns j).key

theorem ok_networkInit (behind : Nat → UInt8) (iss : Seqno) (lastport : UInt16) :
    (networkInit behind iss lastport).Ok where
  hostaddr := rfl
  bounded _ := ⟨zero_le_mss, zero_le_mss, zero_le_mss, zero_le_maxrtx⟩
  distinct i j _ hi := by
    rcases hi with hopen | ⟨hcalling, -⟩
    · exact absurd rfl hopen
    · exact absurd rfl hcalling

theorem Kept.distinct (hk : Kept i s t) (j : Fin UIP_CONNS) :
    (t.conns j).key = (s.conns j).key := by
  by_cases hj : j = i
  · subst hj
    exact hk.self.key
  · rw [hk.others j hj]

theorem engaged_of_ne (hk : Kept i h.stack h'.stack) (hj : j ≠ i) (hengaged : h'.Engaged j) :
    h.Engaged j := by
  rcases hengaged with hopen | ⟨-, hconn⟩
  · exact .inl (hk.others j hj ▸ hopen)
  · exact absurd (hconn.symm.trans hk.conn) hj

theorem engaged_of_opens (ho : Opens i h.stack h'.stack) (hnone : h'.calling = none) (hj : j ≠ i)
    (hengaged : h'.Engaged j) : (h.stack.conns j).tcpstateflags ≠ .closed := by
  rcases hengaged with hopen | ⟨hcalling, -⟩
  · exact ho.others j hj ▸ hopen
  · exact absurd hnone hcalling

theorem ok_change (hc : Change h h') (hok : h.Ok) : h'.Ok := by
  cases hc with
  | same hconns hhost hengaged =>
    refine ⟨hhost.trans hok.hostaddr, fun i => hconns ▸ hok.bounded i, fun i j hne hi hj => ?_⟩
    rw [hconns]
    exact hok.distinct i j hne (hengaged i hi) (hengaged j hj)
  | @kept k hk hengaged =>
    have hall (j : Fin UIP_CONNS) (hj : h'.Engaged j) : h.Engaged j := by
      by_cases hjk : j = k
      · subst hjk
        exact hengaged hj
      · exact engaged_of_ne hk hjk hj
    refine ⟨hk.hostaddr.trans hok.hostaddr, fun j => ?_, fun i j hne hi hj => ?_⟩
    · by_cases hjk : j = k
      · subst hjk
        exact hk.self.bounded (hok.bounded j)
      · exact hk.others j hjk ▸ hok.bounded j
    · rw [hk.distinct, hk.distinct]
      exact hok.distinct i j hne (hall i hi) (hall j hj)
  | @opened k ho hnone =>
    have hfresh (j : Fin UIP_CONNS) (hj : j ≠ k) (hengaged : h'.Engaged j) :
        (h'.stack.conns j).key ≠ (h'.stack.conns k).key := by
      rw [ho.others j hj]
      exact ho.fresh j (engaged_of_opens ho hnone hj hengaged)
    refine ⟨ho.hostaddr.trans hok.hostaddr, fun j => ?_, fun i j hne hi hj => ?_⟩
    · by_cases hjk : j = k
      · subst hjk
        exact ho.bounded (hok.bounded j)
      · exact ho.others j hjk ▸ hok.bounded j
    · by_cases hik : i = k
      · subst hik
        exact (hfresh j hne.symm hj).symm
      · by_cases hjk : j = k
        · subst hjk
          exact hfresh i hne hi
        · rw [ho.others i hik, ho.others j hjk]
          exact hok.distinct i j hne (.inl (engaged_of_opens ho hnone hik hi))
            (.inl (engaged_of_opens ho hnone hjk hj))

theorem ok_run (h : Host) (hr : Run HostStep (networkInit behind iss lastport) es h) : h.Ok :=
  hr.invariant (fun _ h => h.Ok) (ok_networkInit ..) fun _ _ _ _ _ hok hstep =>
    ok_change (change_step hstep) hok

/-- What a frame can change: nothing in the table, the only connection that it
matches, or a connection that is not in use if it matches none. -/
inductive Touches (s t : Stack) (hdr : TcpipHdr) : Prop
  | nothing : t.conns = s.conns → Touches s t hdr
  | matching {i : Fin UIP_CONNS} : (∀ j, (s.conns j).Matches hdr ↔ j = i) → Kept i s t →
      Touches s t hdr
  | opening {i : Fin UIP_CONNS} : (∀ j, ¬ (s.conns j).Matches hdr) → Opens i s t → Touches s t hdr

theorem matches_iff {hdr : TcpipHdr} (hok : h.Ok) (hi : (h.stack.conns i).Matches hdr) :
    (h.stack.conns j).Matches hdr ↔ j = i := by
  constructor
  · intro hj
    by_contra hne
    refine hok.distinct j i hne (.inl hj.1) (.inl hi.1) ?_
    simp only [UipConn.key, Prod.mk.injEq]
    exact ⟨hj.2.2.2.symm.trans hi.2.2.2, hj.2.1.symm.trans hi.2.1, hj.2.2.1.symm.trans hi.2.2.1⟩
  · rintro rfl
    exact hi

/-- In every run, a frame changes one connection at most: the only one that its
addresses and ports match, or a new one if there is none. -/
theorem touches_one {frame : List UInt8} (hr : Reaches es h)
    (hstep : HostStep h (.receive frame) h') :
    Touches h.stack h'.stack (h.stack.buf.receive frame).hdr := by
  obtain ⟨behind, iss, lastport, -, -, hrun⟩ := hr
  have hok := ok_run _ hrun
  cases hstep with
  | @receive s frame n hlen hn =>
    have hs := sends_trimmed s frame
    have hr : Sends s (s.receive frame) := ⟨rfl, rfl, rfl, rfl, rfl, rfl, rfl⟩
    cases input_uipInput hn with
    | ignored hsends _ _ => exact .nothing (hr.trans hsends).conns
    | echo ha hp => exact .nothing (hs.trans (sends_icmpInput _)).conns
    | reset ha hnone => exact .nothing (hs.trans (sends_reset _)).conns
    | listen ha hnone hsyn hport hlisten =>
      have hnot := not_matches_of_none hnone
      rcases foundListen_cases (s := (s.receive frame).trimmed) hnone hlisten with
        ⟨i, hopens, -, -⟩ | ⟨t, rfl, hsends, -⟩
      · exact .opening hnot (hopens.of_sends hs)
      · exact .nothing (hs.trans hsends).conns
    | @found m i ha hi hfound =>
      have hmatches : ∀ j, (s.conns j).Matches (s.buf.receive frame).hdr ↔ j = i :=
        fun j => matches_iff hok (matches_of_some hi)
      exact .matching hmatches ((kept_found _ hfound).of_sends hs)

theorem touches_one_synack : ∃ h h', Reaches opening h ∧ HostStep h (.receive openingSynack) h' ∧
    (h'.stack.conns 0).tcpstateflags = { state := .established } ∧
    Touches h.stack h'.stack (h.stack.buf.receive openingSynack).hdr := by
  have hrun : (opening.foldlM (Host.stepRun 3) openingHost).bind (fun h =>
      (h.stepRun 3 (.receive openingSynack)).map fun h' => (h'.stack.conns 0).tcpstateflags) =
      some { state := .established } := by
    decide +kernel
  obtain ⟨h, hh, hobserved⟩ := Option.bind_eq_some_iff.mp hrun
  obtain ⟨h', hh', hstate⟩ := Option.map_eq_some_iff.mp hobserved
  have hr := reaches_of_stepRun (by decide) hh
  have hstep := hostStep_of_stepRun hh'
  exact ⟨h, h', hr, hstep, hstate, touches_one hr hstep⟩

-- ---------------------------------------------------------------------------
-- One connection
-- ---------------------------------------------------------------------------

/-- All that a step may be for connection `i`. -/
inductive At (i : Fin UIP_CONNS) : Host → Event → Host → Prop
  | elsewhere {h h' : Host} {e : Event} : h'.stack.conns i = h.stack.conns i →
      (h.calling ≠ none → h.stack.conn ≠ i) →
      (h'.calling ≠ none → h'.stack.conn ≠ i) → At i h e h'
  | opens {s t : Stack} {e : Event} : Opens i s t → At i ⟨s, none⟩ e ⟨t, none⟩
  | found {s : Stack} {frame : List UInt8} {n : Next} : frame.length ≤ BUFSIZE →
      AcceptedTcp (s.receive frame) →
      (s.conns i).Matches (s.buf.receive frame).hdr →
        (uipFound (s.receive frame).trimmed i).Returns n →
      At i ⟨s, none⟩ (.receive frame) n.host
  | timer {s : Stack} : At i ⟨s, none⟩ (.periodic i) (uipTimer { s with conn := i }).host
  | poll {s : Stack} : At i ⟨s, none⟩ (.poll i) (uipPoll { s with conn := i }).host
  | memory {h : Host} {behind : Nat → UInt8} : At i h (.memory behind)
      { h with stack := { h.stack with behind } }
  | returns {s : Stack} {a : AppReturn} {r : Resume} : s.conn = i →
      At i ⟨s, some r⟩ (.appReturn a) ⟨uipResume (uipAppReturn s a) r, none⟩

theorem at_done (hconns : t.conns i = s.conns i) : At i ⟨s, none⟩ e ⟨t, none⟩ :=
  .elsewhere hconns (fun h => absurd rfl h) fun h => absurd rfl h

theorem at_opens {k : Fin UIP_CONNS} (ho : Opens k s t) : At i ⟨s, none⟩ e ⟨t, none⟩ := by
  by_cases hi : i = k
  · subst hi
    exact .opens ho
  · exact at_done (ho.others i hi)

theorem at_kept (hk : Kept j s n.stack) (hij : i ≠ j) : At i ⟨s, none⟩ e n.host :=
  .elsewhere (hk.others i hij) (fun h => absurd rfl h) fun _ hconn => hij (hconn.symm.trans hk.conn)

theorem at_receive {frame : List UInt8} (hlen : frame.length ≤ BUFSIZE)
    (hn : (uipInput (s.receive frame)).Returns n) : At i ⟨s, none⟩ (.receive frame) n.host := by
  have hs := sends_trimmed s frame
  have hr : Sends s (s.receive frame) := ⟨rfl, rfl, rfl, rfl, rfl, rfl, rfl⟩
  cases input_uipInput hn with
  | ignored hu _ _ => exact at_done (congrFun (hr.trans hu).conns i)
  | echo _ _ => exact at_done (congrFun (hs.trans (sends_icmpInput _)).conns i)
  | reset _ _ => exact at_done (congrFun (hs.trans (sends_reset _)).conns i)
  | listen _ hnone _ _ hlisten =>
    rcases foundListen_cases (s := (s.receive frame).trimmed) hnone hlisten
      with ⟨k, hopens, -, hdone⟩ | ⟨u, rfl, hu, -⟩
    · have hhost : n.host = ⟨n.stack, none⟩ := by rw [Next.host, hdone]
      rw [hhost]
      exact at_opens (hopens.of_sends hs)
    · exact at_done (congrFun (hs.trans hu).conns i)
  | @found _ j ha hj hfound =>
    by_cases hij : i = j
    · subst hij
      exact .found hlen ha (matches_of_some hj) hfound
    · exact at_kept ((kept_found _ hfound).of_sends hs) hij

theorem at_step (i : Fin UIP_CONNS) (hstep : HostStep h e h') : At i h e h' := by
  cases hstep with
  | receive hlen hn => exact at_receive hlen hn
  | @periodic s j =>
    by_cases hij : i = j
    · subst hij
      exact .timer
    · exact at_kept (kept_timer (kept_select s j)) hij
  | @poll s j =>
    by_cases hij : i = j
    · subst hij
      exact .poll
    · exact at_kept (kept_poll (kept_select s j)) hij
  | connect hr =>
    obtain ⟨hopens, -⟩ := connect_cases hr
    rcases hopens with ⟨k, -, hopens⟩ | ⟨-, hconns⟩
    · exact at_opens hopens
    · exact at_done (congrFun hconns i)
  | @listen s port =>
    obtain ⟨listenports, hframe⟩ := setListen_frame s port (s.findListen 0)
    refine at_done ?_
    rw [uipListen, hframe]
  | @unlisten s port =>
    obtain ⟨listenports, hframe⟩ := setListen_frame s 0 (s.findListen port)
    refine at_done ?_
    rw [uipUnlisten, hframe]
  | memory => exact .memory
  | @appReturn s a r =>
    by_cases hi : s.conn = i
    · exact .returns hi
    · have hk := kept_resume (r := r) (kept_appReturn a (.refl s))
      exact .elsewhere (hk.others i fun h => hi h.symm) (fun _ => hi) fun h => absurd rfl h

end FxIP.Tcpip
