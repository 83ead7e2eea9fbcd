import FxIP.Tcpip.Agreement
import FxIP.Tcpip.Refinement

/-!
# The login on the network

Until the parser is called for the first time, and if nobody types, the bytes of
the login are all that the host sends on its connection: whatever the network
does, a server that puts the segments in order can only get the three lines.
-/

namespace FxIP.Tcpip

variable {s t : IrcSystem} {c c' : Client} {r : IrcReader} {x y : Net}

-- ---------------------------------------------------------------------------
-- The client's model
-- ---------------------------------------------------------------------------

/-- Nobody types, the parser is not called, and a line fits a segment. -/
def InLogin (s : IrcSystem) : IrcEvent → Prop
  | .submit _ => False
  | .thread => s.app.pt ≠ .parse ∧ s.app.pt.line.length ≤ s.uip.conn.mss
  | _ => True

/-- The login is intact, and `irc_thread` is the only one to send. -/
structure OnlyLogin (s : IrcSystem) : Prop where
  inv : LoginInv s
  nothing : s.messages.messagelength = 0
  owner : ∀ seg ∈ s.wire.first, seg.1 = .thread

theorem onlyLogin_connect (app : IrcState) (m : Messages)
    (appdata : Buffer UInt8 UIP_APPDATA_SIZE) :
    OnlyLogin (ircConnect app m appdata) :=
  ⟨loginInv_init app m appdata, rfl, fun _ h => by cases h⟩

theorem OnlyLogin.skip (h : OnlyLogin s) : ∀ seg ∈ (s.output s.messages s.app s.uip).wire.first,
    seg.1 = .thread := by
  have hlast : lastOwner s s.uip = .thread := if_neg (Nat.lt_irrefl _)
  simp only [IrcSystem.output, hlast]
  cases (uipOutput s.uip).1 with
  | none => exact h.owner
  | some data =>
    dsimp only
    split
    · intro seg hseg
      rcases List.mem_append.mp hseg with hseg | hseg
      · exact h.owner seg hseg
      · rw [List.mem_singleton.mp hseg]
    · exact h.owner

theorem OnlyLogin.step {e : IrcEvent} (h : OnlyLogin s) (hstep : IrcStep s e t)
    (hlogin : InLogin s e) : OnlyLogin t := by
  have hclear : LoginClear s e := by
    cases e with
    | thread => exact fun _ => hlogin.2
    | sendThread => exact fun hne => absurd h.nothing hne
    | _ => trivial
  refine ⟨h.inv.step hstep hclear, ?_, ?_⟩ <;> cases hstep.kind with
  | submit => exact hlogin.elim
  | quiet _ _ _ _ _ ht | call _ _ _ _ _ _ ht | synack _ _ _ _ _ _ ht | close _ _ _ _ _ ht =>
    subst ht
    first | exact h.nothing | exact h.owner
  | thread go m app uip _ hr ht =>
    obtain rfl := ircThread_messages hlogin.1 hr
    subst ht
    first | exact h.nothing | exact h.owner
  | skip _ _ ht =>
    subst ht
    first | exact h.nothing | exact h.skip
  | send _ _ _ _ hne => exact absurd h.nothing hne

theorem OnlyLogin.stream_eq (h : OnlyLogin s) : s.stream = (threadLines s.wire).flatten := by
  rw [IrcSystem.stream, threadLines, List.filter_eq_self.mpr
    (fun seg hseg => decide_eq_true (h.owner seg hseg)),
    List.flatMap_def]

theorem OnlyLogin.stream_prefix (h : OnlyLogin s) : s.stream <+: loginLines.flatten := by
  obtain ⟨k, -, hwire⟩ := h.inv.wire
  obtain ⟨rest, hrest⟩ := List.take_prefix k loginLines
  rw [h.stream_eq, hwire.lines]
  exact ⟨rest.flatten, by rw [← List.flatten_append, hrest]⟩

theorem OnlyLogin.repeats (h : OnlyLogin s) (hturn : s.turn = .sendThread) (hslen : s.uip.slen ≠ 0)
    (hlen : s.uip.conn.len ≠ 0) :
    s.uip.appdata.cells.take s.uip.conn.len = s.stream.drop (s.stream.length - s.uip.conn.len) := by
  obtain ⟨k, hphase, -⟩ := h.inv.wire
  cases hphase with
  | storedAgain _ _ _ hstored _ hline _ hlast =>
    obtain ⟨before, hbefore⟩ := List.getLast?_eq_some_iff.mp hlast
    rw [hline, hstored.data, IrcSystem.stream, hbefore, List.flatMap_append, List.flatMap_singleton,
      List.length_append, Nat.add_sub_cancel, List.drop_left]
  | sent _ _ _ hout _ _ =>
    rw [Outstanding, hturn] at hout
    exact absurd hout.slen hslen
  | free _ _ hclear =>
    rw [Clear, hturn] at hclear
    exact absurd hclear.1.slen hslen
  | joined _ hready _ => exact absurd (hready (by rw [hturn]; decide)).slen hslen
  | stored _ _ _ _ _ hzero _ => exact absurd hzero hlen
  | busy _ hbusy _ _ _ => exact absurd h.nothing hbusy.pending
  | storedLate _ _ _ _ hbusy _ _ => exact absurd h.nothing hbusy.pending
  | connecting hturn' => cases hturn.symm.trans hturn'
  | starts hturn' => cases hturn.symm.trans hturn'
  | interferes hturn' => cases hturn.symm.trans hturn'

-- ---------------------------------------------------------------------------
-- The client on its stack
-- ---------------------------------------------------------------------------

def LogsIn (c : Client) : ClientEvent → Prop
  | .submit _ => False
  | .network e => Regular c (.network e)
  | .thread => (c.appstate 0).pt ≠ .parse ∧ (c.appstate 0).pt.line.length ≤ c.uip.conn.mss
  | .sendThread => True

theorem follows_logsIn {e : ClientEvent} (h : LogsIn c e) (hstep : ClientStep c e c') :
    Follows InLogin c e := by
  cases hstep with
  | submit => exact h.elim
  | quiet | calls | closes =>
    refine ⟨h, fun s e' hcovers _ _ _ => ?_⟩
    obtain ⟨hthread, -, hsubmit⟩ := hcovers
    cases e' with
    | thread => exact absurd rfl hthread
    | submit text => exact absurd rfl (hsubmit text)
    | _ => trivial
  | thread hturn =>
    refine ⟨trivial, fun s e' hcovers happ _ huip => ?_⟩
    obtain rfl : e' = .thread := hcovers
    rw [InLogin, happ, huip (by rw [hturn]; decide)]
    exact h
  | skips | sends =>
    refine ⟨trivial, fun s e' hcovers _ _ _ => ?_⟩
    obtain rfl : e' = .sendThread := hcovers
    trivial

theorem repeats_polled {e : Event} {d : Sent} (hpolled : e.polled) : AppRepeats 0 d e := by
  cases e <;> trivial

theorem repeats_over {e : Event} (hok : c.Ok) (hshows : c.Shows r)
    (hregular : Regular c (.network e))
    (hturn : c.turn = .outside) (hpolled : e.polled) (hnet : NetStep 0 c.net e x)
    (hcalling : x.host.calling ≠ none) (hover : Over x.host.stack.flags = true) (a : AppReturn) :
    AppRepeats 0 x.writer (.appReturn a) := by
  obtain ⟨n, hx, hsight, -⟩ := hshows.sight hok hregular hturn hpolled hnet
  cases n with
  | done t => exact absurd (by rw [hx]; rfl) hcalling
  | appcall q t =>
    rw [hx] at hover
    obtain ⟨-, -, hends, -⟩ := hsight.told hover
    rintro - hr
    change x.host.calling = _ ∨ x.host.calling = _ at hr
    rw [hx] at hr
    rcases hr with hr | hr
    · cases hr
      exact hends.elim
    · cases hr
      exact hends.elim

theorem repeats_login (hok : c.Ok) (hshows : c.Shows r) (hlogin : OnlyLogin r.sys)
    (hturn : c.turn = .sendThread) :
    AppRepeats 0 c.net.writer (.appReturn (c.stack.left c.uip)) := by
  have hin : c.turn ≠ .outside := by rw [hturn]; decide
  have hincall := hok.inCall hin
  have huip := hshows.inCall hin
  have hcur : c.net.host.stack.conns 0 = c.stack.cur := by rw [← hincall.conn]; rfl
  have hlen : c.uip.conn.len = c.stack.cur.len.toNat := by rw [hincall.seen]; rfl
  rintro - -
  refine ⟨fun hacked => ?_, fun hpos hne => ?_⟩
  · have hflags : c.uip.flags.acked = true := hacked
    rwa [hincall.flags] at hflags
  · have hslen : c.uip.slen ≠ 0 := by
      rw [hincall.toNat_slen]
      exact Nat.ne_of_gt (UInt16.lt_iff_toNat_lt.mp hpos)
    have hlen' : c.uip.conn.len ≠ 0 := by
      rw [hlen]
      exact fun h => hne (UInt16.toNat_inj.mp h)
    have hdata := hlogin.repeats (hshows.turn.trans hturn) (huip ▸ hslen) (huip ▸ hlen')
    rw [hshows.stream, huip, hlen] at hdata
    have hmss : c.stack.cur.len.toNat ≤ UIP_APPDATA_SIZE :=
      UInt16.le_iff_toNat_le.mp (hok.host.bounded c.stack.conn).len
    show (c.stack.left c.uip).data.cells.take c.stack.cur.len.toNat =
      c.net.written.drop (c.net.written.length - (c.net.host.stack.conns 0).len.toNat)
    rw [take_left c.stack c.uip hmss, hcur]
    exact hdata

structure Client.LoggingIn (c : Client) : Prop where
  sound : c.net.writer.Sound 0
  shows : ∃ r, c.Ok ∧ c.Shows r ∧ OnlyLogin r.sys

theorem loggingIn_step
    {e : ClientEvent} (h : c.LoggingIn) (hlogs : LogsIn c e) (hstep : ClientStep c e c') :
    c'.LoggingIn := by
  obtain ⟨r, hok, hshows, hlogin⟩ := h.shows
  refine ⟨?_, ?_⟩
  · cases hstep with
    | submit => exact h.sound
    | quiet _ hpolled hnet _ | calls _ hpolled hnet _ _ =>
      exact sound_sentStep h.sound (repeats_polled hpolled) hnet.1
    | closes hturn hpolled hnet hcalling hover hend =>
      have hsound := sound_sentStep h.sound (repeats_polled hpolled) hnet.1
      exact sound_sentStep hsound (repeats_over hok hshows hlogs hturn hpolled hnet hcalling
        hover _) hend.1
    | thread => exact h.sound
    | skips hturn _ hnet =>
      exact sound_sentStep h.sound (repeats_login hok hshows hlogin hturn) hnet.1
    | sends hturn hlen _ _ =>
      rw [← hshows.messages] at hlen
      exact absurd hlogin.nothing hlen
  · obtain ⟨fs, r', hrun, hok', hshows'⟩ :=
      matched_step hok hshows (follows_logsIn hlogs hstep) hstep
    refine ⟨r', hok', hshows', ?_⟩
    exact hrun.guarded_invariant (fun r => OnlyLogin r.sys) hlogin fun _ _ _ hin hread h =>
      h.step hread.1 hin

theorem loggingIn_starts {appstate : Fin UIP_CONNS → IrcState} {messages : Messages}
    (h0 : Starts appstate messages c) :
    c.LoggingIn := by
  obtain ⟨hok, hshows⟩ := starts_shows h0
  refine ⟨?_, _, hok, hshows, onlyLogin_connect ..⟩
  cases h0 with
  | init _ _ hnet =>
    exact sound_sentStep (e := .connect SERVER IRC_PORT) (sound_sentRun .nil) trivial hnet.1

/-- In every run of the login, with any frames and time-outs, the lines that count
as sent are what the client has written; and every packet that was ever sent for
the connection carries a part of the three lines, at its place. -/
theorem login_packets {appstate : Fin UIP_CONNS → IrcState} {messages : Messages} {c₀ : Client}
    {es : List ClientEvent}
    (h0 : Starts appstate messages c₀) (hr : Run (Run.Guarded LogsIn ClientStep) c₀ es c) :
    (c.turn = .outside → c.net.written = (loginLines.take (c.appstate 0).linesSent).flatten) ∧
      ∀ p ∈ c.net.sent, Carries c.net.first loginLines.flatten p := by
  obtain ⟨hsound, r, -, hshows, hlogin⟩ : c.LoggingIn :=
    hr.guarded_invariant Client.LoggingIn (loggingIn_starts h0) fun _ _ _ hlogs hstep h =>
      loggingIn_step h hlogs hstep
  have hwritten : c.net.writer.written <+: loginLines.flatten := by
    rw [Net.writer, ← hshows.stream]
    exact hlogin.stream_prefix
  refine ⟨fun hout => ?_, fun p hp => (hsound.packets p hp).mono hwritten⟩
  rw [← hshows.stream, hlogin.stream_eq, hlogin.inv.intact.lines (hshows.turn.trans hout),
    hshows.app]

instance (c : Client) : (e : ClientEvent) → Decidable (LogsIn c e)
  | .submit _ => isFalse id
  | .network e => inferInstanceAs (Decidable (Regular c (.network e)))
  | .thread => inferInstanceAs (Decidable ((c.appstate 0).pt ≠ .parse ∧
      (c.appstate 0).pt.line.length ≤ c.uip.conn.mss))
  | .sendThread => isTrue trivial

theorem login_packets_nick : ∃ c₀ c, Starts (fun _ => .zero) .zero c₀ ∧
    Run ClientStep c₀ loggingIn c ∧
    c.net.written = nickLine ∧ (c.appstate 0).linesSent = 1 ∧ c.net.sent.length = 1 ∧
    c.net.written = (loginLines.take (c.appstate 0).linesSent).flatten ∧
    ∀ p ∈ c.net.sent, Carries c.net.first loginLines.flatten p := by
  have hrun : ((Client.startRun 3 ⟨1, 2, 3, 255⟩ 31998).bind fun c₀ =>
      (loggingIn.foldlM (fun c e => if LogsIn c e then c.stepRun 40 e else none) c₀).map fun c =>
        (c.net.written, (c.appstate 0).linesSent, c.net.sent.length, c.turn)) =
      some (nickLine, 1, 1, .outside) := by decide +kernel
  obtain ⟨c₀, hstart, hrun⟩ := Option.bind_eq_some_iff.mp hrun
  obtain ⟨c, hc, hobserved⟩ := Option.map_eq_some_iff.mp hrun
  simp only [Prod.mk.injEq] at hobserved
  obtain ⟨hwritten, hlines, hpackets, hturn⟩ := hobserved
  have h0 := starts_of_startRun (by decide) hstart
  have hlogs : Run (Run.Guarded LogsIn ClientStep) c₀ loggingIn c :=
    Run.guarded_of_foldlM (fun _ _ _ hstep => clientStep_of_stepRun hstep) hc
  obtain ⟨hsent, hcarries⟩ := login_packets h0 hlogs
  exact ⟨c₀, c, h0, Run.of_guarded hlogs, hwritten, hlines, hpackets, hsent hturn, hcarries⟩

end FxIP.Tcpip
