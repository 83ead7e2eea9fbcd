import FxIP.Irc.Reassembly

/-!
# The lines of the login

The login sends and reads on one socket, whose unread data is in `uip_appdata`,
where what is sent is stored. The first two lines are taken by the statements of
the login and the others by the parser. They are the lines of the server as long
as no data is stored over unread data, and none comes while a line is sent.
-/

namespace FxIP

open Lines

variable {s t : IrcSystem} {e : IrcEvent} {r u : IrcReader} {next : IrcPt}

def lineStatement : Nat → IrcPt
  | 0 => .readto1
  | 1 => .readto2
  | _ => .parse

/-- How many of the lines of the login were taken before the statement. -/
def IrcPt.linesTaken : IrcPt → Nat
  | .nick | .user | .readto1 => 0
  | .join | .readto2 => 1
  | .readto | .parse => 2

structure InOrder (r : IrcReader) : Prop where
  statements : r.lines.map TakenLine.statement = (List.range r.lines.length).map lineStatement
  count : min r.lines.length 2 = r.sys.app.pt.linesTaken

theorem InOrder.taken (h : InOrder r) {line : TakenLine} {received : List UInt8}
    (hstatement : line.statement = lineStatement r.lines.length)
    (hcount : min (r.lines.length + 1) 2 = s.app.pt.linesTaken) :
    InOrder ⟨s, received, r.lines ++ [line]⟩ := by
  refine ⟨?_, by rw [List.length_append]; exact hcount⟩
  rw [List.length_append, List.length_singleton, List.range_succ, List.map_append, List.map_append,
    h.statements, List.map_singleton, List.map_singleton, hstatement]

theorem InOrder.untaken (h : InOrder r) {received : List UInt8} (hread : r.read s = [])
    (hcount : s.app.pt.linesTaken = r.sys.app.pt.linesTaken) :
    InOrder ⟨s, received, r.lines ++ r.read s⟩ := by
  rw [hread, List.append_nil]
  exact ⟨h.statements, h.count.trans hcount.symm⟩

theorem SendsLine.linesTaken {pt : IrcPt} {line : List UInt8} (h : SendsLine pt line next) :
    next.linesTaken = pt.linesTaken := by
  cases h <;> rfl

theorem InOrder.step (h : InOrder r) (hstep : ReaderStep r e u) : InOrder u := by
  have hcount := h.count
  cases hstep with
  | parse m inputbuffer _ hpt _ =>
    rw [hpt, IrcPt.linesTaken] at hcount
    obtain ⟨n, hn⟩ := Nat.exists_eq_add_of_le (show 2 ≤ r.lines.length by omega)
    refine h.taken ?_ ?_
    · rw [hn, Nat.add_comm]
      rfl
    · rw [hn, IrcPt.linesTaken]
      omega
  | step _ t hparse _ hstep =>
    by_cases hturn : r.sys.turn = .thread
    · cases threadTurn hturn (fun hpt => hparse ⟨hturn, hpt⟩) hstep with
      | sends go psock uip hsends _ _ _ _ =>
        obtain ⟨hne1, hne2⟩ := hsends.ne_readto
        refine h.untaken (if_neg fun hread => hread.1.elim hne1 hne2) ?_
        cases go with
        | false => rfl
        | true => exact hsends.linesTaken
      | waits _ _ _ _ => exact h.untaken (if_neg fun hread => hread.2 rfl) rfl
      | @reads next result inputbuffer psock hreads _ _ =>
        generalize hpt : r.sys.app.pt = pt at hreads hcount
        cases hreads with
        | readto1 =>
          rw [IrcPt.linesTaken] at hcount
          rw [read_line (.inl hpt) (by simp [IrcSystem.afterThread, hpt])]
          have hnone : r.lines.length = 0 := by omega
          refine h.taken ?_ ?_
          · rw [hnone]
            exact hpt
          · rw [hnone]
            rfl
        | readto2 =>
          rw [IrcPt.linesTaken] at hcount
          rw [read_line (.inr hpt) (by simp [IrcSystem.afterThread, hpt])]
          have hone : r.lines.length = 1 := by omega
          refine h.taken ?_ ?_
          · rw [hone]
            exact hpt
          · rw [hone]
            rfl
        | readto =>
          refine h.untaken (if_neg fun hread => ?_) ?_
          · simp [hpt] at hread
          · rw [hpt]
            rfl
    · have hpt : t.app.pt = r.sys.app.pt := (step_delivers hturn hstep).pt
      exact h.untaken (if_neg fun hread => hread.2 hpt) (congrArg IrcPt.linesTaken hpt)

theorem InOrder.statement_eq (h : InOrder r) {i : Nat} {line : TakenLine}
    (hline : r.lines[i]? = some line) :
    line.statement = lineStatement i := by
  obtain ⟨hi, rfl⟩ := List.getElem?_eq_some_iff.mp hline
  have hstatement := congrArg (fun statements => statements[i]?) h.statements
  simpa [hi] using hstatement

theorem readerInv_connect {app : IrcState} (m : Messages) (appdata : Buffer UInt8 UIP_APPDATA_SIZE)
    (happ : app.inputbuffer.length = SIZEOF_INPUTBUFFER) :
    ReaderInv ⟨ircConnect app m appdata, [], []⟩ :=
  ⟨sizesOk_connect m appdata happ, by simp, [], rfl,
    .connecting Turn.noConfusion TcpState.noConfusion rfl rfl rfl⟩

/-- The lines taken are the lines of the server, as long as the data is kept. -/
theorem login_lines {app : IrcState} {m : Messages} {appdata : Buffer UInt8 UIP_APPDATA_SIZE}
    {es : List IrcEvent}
    {stream : List (List UInt8)} (happ : app.inputbuffer.length = SIZEOF_INPUTBUFFER)
    (hstream : ∀ line ∈ stream, IsLine 0x0A line ∧ line.length ≤ SIZEOF_INPUTBUFFER)
    (hrun : Run (Run.Guarded (fun r e => DataKept r.sys e) ReaderStep)
      ⟨ircConnect app m appdata, [], []⟩ es u)
    (hreceived : u.received <+: stream.flatten) {i : Nat} {line : TakenLine}
    (hline : u.lines[i]? = some line) :
    line.statement = lineStatement i ∧ stream[i]? = some line.bytes ∧
      line.length = line.bytes.length := by
  have horder : InOrder u :=
    hrun.invariant (fun _ u => InOrder u) ⟨rfl, rfl⟩ fun _ _ _ _ _ ht hst => ht.step hst.2
  have hfits : Fits 0x0A SIZEOF_INPUTBUFFER u.received :=
    fits_of_prefix hstream (by decide) hreceived
  have hinv : ReaderInv u := run_of_fits ReaderInv (fun hstep => hstep.2.received)
    (fun h hstep => h.step hstep.2 hstep.1) (readerInv_connect m appdata happ) hrun hfits
  obtain ⟨rest, hrest, -⟩ := hinv.place
  obtain ⟨more, hmore⟩ : u.lines.map TakenLine.bytes <+: stream :=
    prefix_of_flatten hinv.isLine (fun line hline => (hstream line hline).1) (hrest ▸ hreceived)
  refine ⟨horder.statement_eq hline, ?_, (hinv.lines line (List.mem_of_getElem? hline)).2⟩
  have hbytes : (u.lines.map TakenLine.bytes)[i]? =
    some line.bytes := by rw [List.getElem?_map, hline]; rfl
  obtain ⟨hi, -⟩ := List.getElem?_eq_some_iff.mp hbytes
  rw [← hmore, List.getElem?_append_left hi, hbytes]

def notice : List (List UInt8) :=
  [ascii ":a NOTICE * :hello\r\n", ascii ":a 002\r\n", ascii ":a 003\r\n"]

theorem notice_stream : ∀ line ∈ notice, IsLine 0x0A line ∧ line.length ≤ SIZEOF_INPUTBUFFER := by
  simp only [notice, List.forall_mem_cons, List.not_mem_nil, false_implies, implies_true, and_true]
  exact ⟨⟨⟨ascii ":a NOTICE * :hello\r", rfl, by decide⟩, by decide⟩,
    ⟨⟨ascii ":a 002\r", rfl, by decide⟩, by decide⟩,
    ⟨⟨ascii ":a 003\r", rfl, by decide⟩, by decide⟩⟩

set_option maxRecDepth 4000 in
theorem login_notice :
    ∃ u, Run (Run.Guarded (fun r e => DataKept r.sys e) ReaderStep)
      ⟨ircConnect .zero .zero (.fill _ 0), [], []⟩ [
        .synack [] none, .thread, .sendThread,
        .segment true 0 [], .thread, .thread, .sendThread,
        .segment true 0 (ascii ":a NOTICE * :hello\r\n:a 00"), .thread, .thread, .thread,
          .sendThread,
        .segment true 0 (ascii "2\r\n:a 003\r\n"), .thread, .thread, .thread, .thread, .thread] u ∧
      u.received = notice.flatten ∧ u.lines.length = 3 :=
  ⟨_, Run.guarded_of_foldlM (readerStep_of_stepRun (n := 4)) rfl, rfl, rfl⟩

theorem login_lines_notice :
    ∃ u es, Run (Run.Guarded (fun r e => DataKept r.sys e) ReaderStep)
        ⟨ircConnect .zero .zero (.fill _ 0), [], []⟩ es u ∧
      ∃ line, u.lines[2]? = some line ∧ line.statement = .parse ∧
        line.bytes = ascii ":a 003\r\n" := by
  obtain ⟨u, hrun, hreceived, hlength⟩ := login_notice
  have hline : u.lines[2]? = some u.lines[2] := List.getElem?_eq_getElem _
  obtain ⟨hstatement, hbytes, -⟩ :=
    login_lines rfl notice_stream hrun (hreceived ▸ List.prefix_rfl) hline
  exact ⟨u, _, hrun, _, hline, hstatement, (Option.some.inj hbytes).symm⟩

def welcome : List (List UInt8) := [ascii ":a 001\r\n", ascii ":a 002\r\n", ascii ":a 003\r\n"]

theorem welcome_stream : ∀ line ∈ welcome, IsLine 0x0A line ∧ line.length ≤ SIZEOF_INPUTBUFFER := by
  simp only [welcome, List.forall_mem_cons, List.not_mem_nil, false_implies, implies_true, and_true]
  exact ⟨⟨⟨ascii ":a 001\r", rfl, by decide⟩, by decide⟩,
    ⟨⟨ascii ":a 002\r", rfl, by decide⟩, by decide⟩,
    ⟨⟨ascii ":a 003\r", rfl, by decide⟩, by decide⟩⟩

set_option maxRecDepth 4000 in
/-- Two lines come in one segment, with the ack of the second login line. The
third login line is stored over the rest of the segment. -/
theorem join_replaces_line :
    (∀ line ∈ welcome, IsLine 0x0A line ∧ line.length ≤ SIZEOF_INPUTBUFFER) ∧
      ∃ u, Run ReaderStep ⟨ircConnect .zero .zero (.fill _ 0), [], []⟩ [
          .synack [] none, .thread, .sendThread,
          .segment true 0 [], .thread, .thread, .sendThread,
          .segment true 0 (ascii ":a 001\r\n:a 002\r\n"), .thread, .thread, .thread, .sendThread,
          .segment true 0 [], .thread, .thread, .sendThread,
          .segment false 0 (ascii ":a 003\r\n"), .thread] u ∧
        u.received = welcome.flatten ∧
        u.lines = [⟨.readto1, ascii ":a 001\r\n", 8⟩, ⟨.readto2, ascii "hitequar:a 003\r\n", 16⟩] ∧
        ∃ line, u.lines[1]? = some line ∧ welcome[1]? ≠ some line.bytes :=
  ⟨welcome_stream, _, (Run.of_foldlM (f := IrcReader.stepRun 4) rfl).mono readerStep_of_stepRun,
    rfl, rfl, _, rfl, by decide⟩

end FxIP
