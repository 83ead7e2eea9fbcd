import FxIP.Irc.Appdata

/-!
# Lines from segments

What the server sent is the lines taken so far and what is at hand: a part of a
line in the buffer, what is left of a segment in `uip_appdata`, and the segment
of the current call. Every statement of `irc_thread` keeps this, as long as the
data in `uip_appdata` stays there until it is read. In the loop it does.
-/

namespace FxIP

open Lines

variable {s t : IrcSystem} {e : IrcEvent} {r u : IrcReader} {m : Messages}
    {app : IrcState} {uip : Uip}
variable {p q : Psock} {next : IrcPt} {line rest data : List UInt8} {n : Nat}

-- ---------------------------------------------------------------------------
-- Sizes
-- ---------------------------------------------------------------------------

/-- The sizes of the buffers, and where the pointers are. Nothing is read before
the connection is established. -/
structure SizesOk (s : IrcSystem) : Prop where
  inputbuffer : s.app.inputbuffer.length = SIZEOF_INPUTBUFFER
  bufsize : s.app.psock.bufsize = PSOCK_BUFFERSIZE
  inAppdata : InAppdata s.app.psock s.uip
  synSent : s.uip.conn.tcpstate = .synSent →
    s.turn = .outside ∧ s.app.pt = .nick ∧ s.app.psock.psockpt = .start ∧ s.app.psock.readlen = 0

theorem SizesOk.memory_le (h : SizesOk s) : s.app.inputbuffer.length ≤ s.app.psock.bufsize := by
  rw [h.inputbuffer, h.bufsize]
  decide

theorem SizesOk.not_synSent (h : SizesOk s) (hturn : s.turn = .thread) :
    s.uip.conn.tcpstate ≠ .synSent := by
  intro hsyn
  cases hturn.symm.trans (h.synSent hsyn).1

theorem sizesOk_connect {app : IrcState} (m : Messages) (appdata : Buffer UInt8 UIP_APPDATA_SIZE)
    (happ : app.inputbuffer.length = SIZEOF_INPUTBUFFER) : SizesOk (ircConnect app m appdata) :=
  ⟨happ, rfl, ⟨fun hne => absurd rfl hne, Nat.zero_le _⟩, fun _ => ⟨rfl, rfl, rfl, rfl⟩⟩

theorem SizesOk.delivers (h : SizesOk s) (hdel : Delivers s e t)
    (hsize : e.payload.length ≤ UIP_APPDATA_SIZE) :
    SizesOk t := by
  refine ⟨hdel.inputbuffer ▸ h.inputbuffer, hdel.psock ▸ h.bufsize,
    ⟨hdel.psock ▸ h.inAppdata.unread, hdel.len h.inAppdata.fresh hsize⟩, fun hsyn => ?_⟩
  rcases hdel.turn with ⟨hturn, -, hstate⟩ | ⟨-, hstate, -⟩
  · have hsyn' : s.uip.conn.tcpstate = .synSent := by
      rcases hstate with heq | heq
      · exact heq.symm.trans hsyn
      · cases heq.symm.trans hsyn
    obtain ⟨-, hpt, hstart, hreadlen⟩ := h.synSent hsyn'
    rw [hdel.pt, hdel.psock]
    exact ⟨hturn, hpt, hstart, hreadlen⟩
  · cases hstate.symm.trans hsyn

theorem SizesOk.afterThread (h : SizesOk s) (hturn : s.turn = .thread) {go : Bool}
    (hbuffer : app.inputbuffer.length = s.app.inputbuffer.length)
    (hbufsize : app.psock.bufsize = s.app.psock.bufsize)
    (hin : InAppdata app.psock uip) (hconn : uip.conn = s.uip.conn) :
    SizesOk (s.afterThread go m app uip) := by
  refine ⟨hbuffer.trans h.inputbuffer, hbufsize.trans h.bufsize, hin, fun hsyn => ?_⟩
  exact absurd (hconn ▸ hsyn) (h.not_synSent hturn)

theorem SameReading.inAppdata (h : SameReading p q) (hkeeps : KeepsFrom n s.uip uip)
    (hin : InAppdata p s.uip) :
    InAppdata q uip := by
  refine ⟨?_, hkeeps.len ▸ hin.fresh⟩
  rw [h.readptr, h.readlen]
  exact hin.unread

/-- A statement of `irc_thread` sends, reads, or hands the line to the parser. -/
theorem IrcPt.kinds (pt : IrcPt) :
    (∃ line next, SendsLine pt line next) ∨ (∃ next, ReadsLine pt next) ∨ pt = .parse := by
  cases pt with
  | nick => exact .inl ⟨_, _, .nick⟩
  | user => exact .inl ⟨_, _, .user⟩
  | readto1 => exact .inr (.inl ⟨_, .readto1⟩)
  | join => exact .inl ⟨_, _, .join⟩
  | readto2 => exact .inr (.inl ⟨_, .readto2⟩)
  | readto => exact .inr (.inl ⟨_, .readto⟩)
  | parse => exact .inr (.inr rfl)

theorem SendsLine.not_reads {pt next' : IrcPt} (h : SendsLine pt line next) :
    ¬ ReadsLine pt next' := by
  intro h'
  cases h <;> cases h'

theorem SendsLine.ne_parse {pt : IrcPt} (h : SendsLine pt line next) : pt ≠ .parse := by
  cases h <;> exact IrcPt.noConfusion

theorem SendsLine.ne_readto {pt : IrcPt} (h : SendsLine pt line next) :
    pt ≠ .readto1 ∧ pt ≠ .readto2 := by
  cases h <;> exact ⟨IrcPt.noConfusion, IrcPt.noConfusion⟩

theorem ReadsLine.ne_parse {pt : IrcPt} (h : ReadsLine pt next) : pt ≠ .parse := by
  cases h <;> exact IrcPt.noConfusion

/-- The turn of `irc_thread` at a statement that is not the call of the parser. -/
inductive ThreadTurn (s : IrcSystem) : IrcSystem → Prop
  | sends {line : List UInt8} {next : IrcPt} (go : Bool) (psock : Psock) (uip : Uip) :
      SendsLine s.app.pt line next → SameReading s.app.psock psock →
      KeepsFrom (s.stores .thread) s.uip uip → (go = true ↔ s.app.psock.Acked s.uip) →
      (if go then psock.psockpt = .start ∧ psock.state = .none
        else psock.psockpt = .wait ∧ psock.state = .dataSent) →
      ThreadTurn s
        (s.afterThread go s.messages { s.app with psock, pt := if go then next else s.app.pt } uip)
  | waits {next : IrcPt} (inputbuffer : List UInt8) (psock : Psock) : ReadsLine s.app.pt next →
      (psockReadto 0x0A s.app.inputbuffer s.app.psock s.uip).Returns
        (.waiting, inputbuffer, psock) →
      ThreadTurn s (s.afterThread false s.messages { s.app with psock, inputbuffer } s.uip)
  | reads {next : IrcPt} (result : PtResult) (inputbuffer : List UInt8) (psock : Psock) :
      ReadsLine s.app.pt next → result ≠ .waiting →
      (psockReadto 0x0A s.app.inputbuffer s.app.psock s.uip).Returns (result, inputbuffer, psock) →
      ThreadTurn s
        (s.afterThread true s.messages { s.app with psock, inputbuffer, pt := next } s.uip)

theorem threadTurn (hturn : s.turn = .thread) (hpt : s.app.pt ≠ .parse) (hstep : IrcStep s e t) :
    ThreadTurn s t := by
  cases hstep.kind with
  | thread go m app uip _ hr ht =>
    subst ht
    rcases s.app.pt.kinds with ⟨line, next, hsends⟩ | ⟨next, hreads⟩ | hparse
    · obtain ⟨psock, rfl, rfl, hreading, hkeeps, hgo, hpsock⟩ := ircThread_sends_result hsends hr
      refine .sends go psock uip hsends hreading ?_ hgo hpsock
      rw [IrcSystem.stores, hsends.line_eq, if_neg (List.ne_nil_of_length_pos hsends.length_pos)]
      exact hkeeps
    · obtain ⟨result, inputbuffer, psock, hread, heq⟩ := (ircThread_readto hreads rfl).mp hr
      by_cases hwaiting : result = .waiting
      · subst hwaiting
        simp only [if_true, Option.some.injEq, Prod.mk.injEq] at heq
        obtain ⟨rfl, rfl, rfl, rfl⟩ := heq
        exact .waits inputbuffer psock hreads hread
      · simp only [hwaiting, if_false, Option.some.injEq, Prod.mk.injEq] at heq
        obtain ⟨rfl, rfl, rfl, rfl⟩ := heq
        exact .reads result inputbuffer psock hreads hwaiting hread
    · exact absurd hparse hpt
  | _ => exact absurd (hturn.symm.trans ‹s.turn = _›) Turn.noConfusion

theorem SizesOk.thread (h : SizesOk s) (hturn : s.turn = .thread) (hthread : ThreadTurn s t) :
    SizesOk t := by
  cases hthread with
  | sends go psock uip _ hreading hkeeps _ _ =>
    exact h.afterThread hturn rfl hreading.bufsize (hreading.inAppdata hkeeps h.inAppdata)
      hkeeps.conn
  | waits inputbuffer psock _ hread =>
    obtain ⟨hsame, hin⟩ := psockReadto_sizes h.inAppdata hread
    exact h.afterThread hturn hsame.memory hsame.bufsize hin rfl
  | reads result inputbuffer psock _ _ hread =>
    obtain ⟨hsame, hin⟩ := psockReadto_sizes h.inAppdata hread
    exact h.afterThread hturn hsame.memory hsame.bufsize hin rfl

theorem SizesOk.step (h : SizesOk r.sys) (hstep : ReaderStep r e u) : SizesOk u.sys := by
  cases hstep with
  | parse m inputbuffer hturn hpt hlength =>
    exact ⟨hlength.trans h.inputbuffer, h.bufsize, h.inAppdata, fun hsyn =>
      absurd hsyn (h.not_synSent hturn)⟩
  | step _ t hparse hsize hstep =>
    by_cases hturn : r.sys.turn = .thread
    · exact h.thread hturn (threadTurn hturn (fun hpt => hparse ⟨hturn, hpt⟩) hstep)
    · exact h.delivers (step_delivers hturn hstep) hsize

-- ---------------------------------------------------------------------------
-- What is at hand
-- ---------------------------------------------------------------------------

/-- Where the bytes are that were received and not taken, by the statement of
`irc_thread`, in its turn and outside of it. -/
inductive Place (s : IrcSystem) : List UInt8 → Prop
  | connecting : s.turn ≠ .thread → s.uip.conn.tcpstate ≠ .established → s.app.pt = .nick →
      s.app.psock.psockpt = .start → s.app.psock.readlen = 0 → Place s []
  | sends {line : List UInt8} {next : IrcPt} : s.turn = .thread → SendsLine s.app.pt line next →
      (s.app.psock.psockpt = .wait → s.app.psock.state = .dataSent) →
      Place s (s.app.psock.unread s.uip ++ s.app.psock.fresh s.uip)
  | sent {line : List UInt8} {next : IrcPt} : s.turn ≠ .thread → SendsLine s.app.pt line next →
      s.app.psock.psockpt = .wait → s.app.psock.state = .dataSent →
        Place s (s.app.psock.unread s.uip)
  | begins {next : IrcPt} : s.turn = .thread → ReadsLine s.app.pt next →
      s.app.psock.psockpt = .start →
      Place s (s.app.psock.unread s.uip ++ s.app.psock.fresh s.uip)
  | resumes {next : IrcPt} {text : List UInt8} : s.turn = .thread → ReadsLine s.app.pt next →
      s.app.psock.psockpt = .wait → s.app.psock.readlen = 0 → 0x0A ∉ text →
      Reads s.app.inputbuffer s.app.psock s.uip text → Place s (text ++ s.app.psock.fresh s.uip)
  | waits {next : IrcPt} {text : List UInt8} : s.turn ≠ .thread → ReadsLine s.app.pt next →
      s.app.psock.psockpt = .wait → s.app.psock.readlen = 0 → s.app.psock.state ≠ .read →
        0x0A ∉ text →
      Reads s.app.inputbuffer s.app.psock s.uip text → Place s text
  | parses {line : List UInt8} : s.turn = .thread → s.app.pt = .parse →
      s.app.psock.psockpt = .start →
      IsLine 0x0A line → Reads s.app.inputbuffer s.app.psock s.uip line →
      Place s (line ++ (s.app.psock.unread s.uip ++ s.app.psock.fresh s.uip))

/-- The data stays in `uip_appdata` until it is read: what an event stores there
does not come up to the unread rest of a segment, and a statement that sends
leaves it when there is a segment to read, and stores nothing over it. -/
def DataKept (s : IrcSystem) (e : IrcEvent) : Prop :=
  (s.app.psock.readlen = 0 ∨ s.stores e ≤ s.app.psock.readptr) ∧
  (e = .thread → s.app.pt.line ≠ [] → s.app.psock.fresh s.uip ≠ [] →
    s.app.psock.Acked s.uip ∧ s.stores e = 0)

instance (s : IrcSystem) (e : IrcEvent) : Decidable (DataKept s e) :=
  inferInstanceAs (Decidable (_ ∧ _))

theorem SameReading.unread_eq (h : SameReading p q) {uip' : Uip}
    (hcells : uip'.appdata.cells.drop n = uip.appdata.cells.drop n)
    (hkept : p.readlen = 0 ∨ n ≤ p.readptr) :
    q.unread uip' = p.unread uip := by
  rcases hkept with hnone | hle
  · rw [unread_nil hnone, unread_nil (h.readlen.trans hnone)]
  · rw [Psock.unread, Psock.unread, h.readptr, h.readlen, drop_of_drop hle hcells]

theorem Place.delivers (h : Place s rest) (hturn : s.turn ≠ .thread) (hdel : Delivers s e t)
    (hkept : DataKept s e) (hsizes : SizesOk t) (hsize : e.payload.length ≤ UIP_APPDATA_SIZE) :
    Place t (rest ++ e.payload) := by
  have hreading : SameReading s.app.psock t.app.psock := by
    rw [hdel.psock]
    exact ⟨rfl, rfl, rfl⟩
  have hunread : t.app.psock.unread t.uip = s.app.psock.unread s.uip :=
    hreading.unread_eq hdel.cells hkept.1
  cases h with
  | connecting _ hstate hpt hstart hreadlen =>
    rcases hdel.turn with ⟨hout, hnone, hsame⟩ | ⟨hthread, hest, hnew, hbefore⟩
    · rw [hnone]
      refine .connecting (by simp [hout]) ?_ (hdel.pt.trans hpt) (hdel.psock ▸ hstart)
        (hdel.psock ▸ hreadlen)
      rcases hsame with heq | heq
      · rwa [heq]
      · rw [heq]
        exact TcpState.noConfusion
    · obtain ⟨-, hnone⟩ := hbefore.resolve_left hstate
      have hplace : Place t (t.app.psock.unread t.uip ++ t.app.psock.fresh t.uip) := by
        refine .sends hthread (hdel.pt.symm ▸ hpt.symm ▸ SendsLine.nick) fun hwait => ?_
        rw [hdel.psock, hstart] at hwait
        cases hwait
      rw [unread_nil (hdel.psock ▸ hreadlen), fresh_eq_nil ((hnew hsize).trans hnone)] at hplace
      rwa [hnone]
  | sent _ hsends hwait hsent =>
    rw [← hdel.pt] at hsends
    rw [← hunread]
    rcases hdel.turn with ⟨hout, hnone, -⟩ | ⟨hthread, -, hnew, -⟩
    · rw [hnone, List.append_nil]
      exact .sent (by simp [hout]) hsends (hdel.psock ▸ hwait) (hdel.psock ▸ hsent)
    · have hstate : t.app.psock.state = .dataSent := hdel.psock ▸ hsent
      have hnew' : t.app.psock.fresh t.uip = e.payload :=
        (fresh_eq (by simp [hstate])).trans (hnew hsize)
      rw [← hnew']
      exact .sends hthread hsends fun _ => hstate
  | waits _ hreads hwait hreadlen hstate htext hreading =>
    rw [← hdel.pt] at hreads
    rw [← hdel.psock] at hwait hreadlen hstate
    have hreading' : Reads t.app.inputbuffer t.app.psock t.uip rest := by
      rw [hdel.inputbuffer, hdel.psock]
      exact ⟨hreading.filled, hreading.size, hdel.psock ▸ hsizes.inAppdata⟩
    rcases hdel.turn with ⟨hout, hnone, -⟩ | ⟨hthread, -, hnew, -⟩
    · rw [hnone, List.append_nil]
      exact .waits (by simp [hout]) hreads hwait hreadlen hstate htext hreading'
    · rw [← hnew hsize, ← fresh_eq hstate]
      exact .resumes hthread hreads hwait hreadlen htext hreading'
  | sends h' => exact absurd h' hturn
  | begins h' => exact absurd h' hturn
  | resumes h' => exact absurd h' hturn
  | parses h' => exact absurd h' hturn

-- ---------------------------------------------------------------------------
-- The turn of irc_thread
-- ---------------------------------------------------------------------------

theorem newData_eq_nil (h : uip.newData = []) : uip.flags.newdata = false ∨ uip.len = 0 := by
  rw [Uip.newData] at h
  split at h
  · have hlength := congrArg List.length h
    rw [List.length_take, uip.appdata.size, List.length_nil, UIP_APPDATA_SIZE] at hlength
    omega
  · rename_i hno
    exact .inl (by simpa using hno)

theorem KeepsFrom.newData {uip' : Uip} (h : KeepsFrom n uip uip')
    (hkept : uip.newData = [] ∨ n = 0) :
    uip'.newData = uip.newData := by
  rcases hkept with hnone | rfl
  · rw [hnone, Uip.newData, h.flags, h.len]
    rcases newData_eq_nil hnone with hflag | hlen
    · rw [hflag]
      rfl
    · rw [hlen, List.take_zero, ite_self]
  · have hcells := h.cells
    rw [List.drop_zero, List.drop_zero] at hcells
    rw [Uip.newData, h.flags, h.len, hcells, Uip.newData]

theorem Place.afterSend (h : Place s rest) (hturn : s.turn = .thread) {go : Bool} {psock : Psock}
    (hsends : SendsLine s.app.pt line next) (hreading : SameReading s.app.psock psock)
    (hkeeps : KeepsFrom (s.stores .thread) s.uip uip) (hgo : go = true ↔ s.app.psock.Acked s.uip)
    (hpsock : if go then psock.psockpt = .start ∧ psock.state = .none
      else psock.psockpt = .wait ∧ psock.state = .dataSent) (hkept : DataKept s .thread) :
    Place (s.afterThread go s.messages { s.app with psock, pt := if go then next else s.app.pt }
      uip) rest := by
  have hunread : psock.unread uip = s.app.psock.unread s.uip :=
    hreading.unread_eq hkeeps.cells hkept.1
  have hline : s.app.pt.line ≠ [] := by
    rw [hsends.line_eq]
    exact List.ne_nil_of_length_pos hsends.length_pos
  have hfresh : s.app.psock.fresh s.uip ≠ [] → s.app.psock.Acked s.uip ∧ s.stores .thread = 0 :=
    hkept.2 rfl hline
  have hrest : rest = s.app.psock.unread s.uip ++ s.app.psock.fresh s.uip := by
    cases h with
    | sends => rfl
    | connecting h' => exact absurd hturn h'
    | sent h' => exact absurd hturn h'
    | waits h' => exact absurd hturn h'
    | begins _ hreads => exact absurd hreads hsends.not_reads
    | resumes _ hreads => exact absurd hreads hsends.not_reads
    | parses _ hparse => exact absurd hparse hsends.ne_parse
  cases go with
  | false =>
    have hnone : s.app.psock.fresh s.uip = [] := by
      by_contra hne
      exact Bool.noConfusion (hgo.mpr (hfresh hne).1)
    rw [hrest, hnone, List.append_nil, ← hunread]
    exact .sent Turn.noConfusion hsends hpsock.1 hpsock.2
  | true =>
    have hacked : s.app.psock.Acked s.uip := hgo.mp rfl
    have hbefore : s.app.psock.fresh s.uip = s.uip.newData := fresh_eq (by simp [hacked.2.1])
    have hafter : psock.fresh uip = s.app.psock.fresh s.uip := by
      rw [fresh_eq (by simp [hpsock.2]), hbefore]
      apply hkeeps.newData
      rw [← hbefore]
      by_cases hnone : s.app.psock.fresh s.uip = []
      · exact .inl hnone
      · exact .inr (hfresh hnone).2
    rw [hrest, ← hunread, ← hafter]
    rcases hsends.next_cases with rfl | rfl | rfl
    · exact .sends rfl .user fun hwait => absurd (hpsock.1.symm.trans hwait) Psockpt.noConfusion
    · exact .begins rfl .readto1 hpsock.1
    · exact .begins rfl .readto2 hpsock.1

/-- A statement that reads a line returns, with the line or with all there is. -/
theorem Place.readto (h : Place s rest) (hturn : s.turn = .thread)
    (hreads : ReadsLine s.app.pt next)
    (hsizes : SizesOk s) (hfits : Fits 0x0A SIZEOF_INPUTBUFFER rest) :
    ∃ result text data, (psockReadto 0x0A s.app.inputbuffer s.app.psock s.uip).Returns result ∧
      text ++ data = rest ∧ ReadtoResult 0x0A s.uip text data result := by
  rw [← hsizes.inputbuffer] at hfits
  cases h with
  | begins _ _ hstart =>
    obtain ⟨result, hread, hresult, -, -⟩ :=
      psockReadto_start hstart hsizes.memory_le hsizes.inAppdata hfits
    exact ⟨result, _, _, hread, List.nil_append _, hresult⟩
  | resumes _ _ hwait hreadlen htext hreading =>
    obtain ⟨result, hread, hresult, -, -⟩ := psockReadto_wait hreading htext hwait hreadlen hfits
    exact ⟨result, _, _, hread, rfl, hresult⟩
  | connecting h' => exact absurd hturn h'
  | sent h' => exact absurd hturn h'
  | waits h' => exact absurd hturn h'
  | sends _ hsends => exact absurd hreads hsends.not_reads
  | parses _ hparse => exact absurd hparse hreads.ne_parse

theorem Place.parse (h : Place s rest) (hturn : s.turn = .thread) (hpt : s.app.pt = .parse) :
    ∃ line, s.app.psock.psockpt = .start ∧ IsLine 0x0A line ∧
      Reads s.app.inputbuffer s.app.psock s.uip line ∧
      rest = line ++ (s.app.psock.unread s.uip ++ s.app.psock.fresh s.uip) := by
  cases h with
  | parses _ _ hstart hline hreading => exact ⟨_, hstart, hline, hreading, rfl⟩
  | connecting h' => exact absurd hturn h'
  | sent h' => exact absurd hturn h'
  | waits h' => exact absurd hturn h'
  | sends _ hsends => exact absurd hpt hsends.ne_parse
  | begins _ hreads => exact absurd hpt hreads.ne_parse
  | resumes _ hreads => exact absurd hpt hreads.ne_parse

theorem Reads.line_eq (h : Reads app.inputbuffer app.psock uip line) (pt : IrcPt) :
    app.line pt = ⟨pt, line, line.length⟩ := by
  have hdatalen : psockDatalen app.psock = line.length := by
    have := h.filled.left
    rw [psockDatalen]
    omega
  rw [IrcState.line, hdatalen, h.filled.take]

-- ---------------------------------------------------------------------------
-- Runs
-- ---------------------------------------------------------------------------

/-- The stream so far is the lines taken and what is at hand. -/
structure ReaderInv (r : IrcReader) : Prop where
  sizes : SizesOk r.sys
  lines : ∀ line ∈ r.lines, IsLine 0x0A line.bytes ∧ line.length = line.bytes.length
  place : ∃ rest, r.received = (r.lines.map TakenLine.bytes).flatten ++ rest ∧ Place r.sys rest

theorem ReaderInv.isLine (h : ReaderInv r) : ∀ line ∈ r.lines.map TakenLine.bytes,
    IsLine 0x0A line := by
  intro line hline
  obtain ⟨taken, htaken, rfl⟩ := List.mem_map.mp hline
  exact (h.lines taken htaken).1

theorem ReaderInv.fits (h : ReaderInv r) (hfits : Fits 0x0A SIZEOF_INPUTBUFFER r.received)
    (hrest : r.received = (r.lines.map TakenLine.bytes).flatten ++ rest) :
    Fits 0x0A SIZEOF_INPUTBUFFER rest :=
  Fits.flatten (hrest ▸ hfits) h.isLine

theorem ReaderInv.take (h : ReaderInv r)
    (hrest : r.received = (r.lines.map TakenLine.bytes).flatten ++ (line ++ rest))
    (hline : IsLine 0x0A line) (pt : IrcPt) (hsizes : SizesOk s) (hplace : Place s rest) :
    ReaderInv { sys := s, received := r.received, lines := r.lines ++
      [⟨pt, line, line.length⟩] } := by
  refine ⟨hsizes, ?_, rest, ?_, hplace⟩
  · intro taken htaken
    rcases List.mem_append.mp htaken with hold | hnew
    · exact h.lines taken hold
    · obtain rfl := List.mem_singleton.mp hnew
      exact ⟨hline, rfl⟩
  · simp [hrest]

theorem ReaderInv.untaken (h : ReaderInv r) {received : List UInt8}
    (hnone : s.app.pt = r.sys.app.pt ∨ r.sys.app.pt ≠ .readto1 ∧ r.sys.app.pt ≠ .readto2)
    (hsizes : SizesOk s)
    (hrest : received = (r.lines.map TakenLine.bytes).flatten ++ rest) (hplace : Place s rest) :
    ReaderInv { sys := s, received, lines := r.lines ++ r.read s } := by
  have hread : r.read s = [] := by
    refine if_neg fun hread => ?_
    rcases hnone with hsame | ⟨hno1, hno2⟩
    · exact hread.2 hsame
    · exact hread.1.elim hno1 hno2
  rw [hread, List.append_nil]
  exact ⟨hsizes, h.lines, rest, hrest, hplace⟩

theorem read_line (h : r.sys.app.pt = .readto1 ∨ r.sys.app.pt = .readto2)
    (hnext : s.app.pt ≠ r.sys.app.pt) :
    r.read s = [s.app.line r.sys.app.pt] := if_pos ⟨h, hnext⟩

theorem ReaderInv.parse (h : ReaderInv r) (m : Messages) {inputbuffer : List UInt8}
    (hturn : r.sys.turn = .thread) (hpt : r.sys.app.pt = .parse) (hsizes : SizesOk {
      r.sys with messages := m, app := { r.sys.app with inputbuffer, pt := .readto } }) :
    ReaderInv { r with
      sys := { r.sys with messages := m, app := { r.sys.app with inputbuffer, pt := .readto } }
      lines := r.lines ++ [r.sys.app.line .parse] } := by
  obtain ⟨rest, hrest, hplace⟩ := h.place
  obtain ⟨line, hstart, hline, hreading, rfl⟩ := hplace.parse hturn hpt
  rw [hreading.line_eq .parse]
  exact h.take hrest hline .parse hsizes (.begins hturn .readto hstart)

theorem ReaderInv.thread (h : ReaderInv r) (hturn : r.sys.turn = .thread)
    (hthread : ThreadTurn r.sys t)
    (hkept : DataKept r.sys .thread) (hfits : Fits 0x0A SIZEOF_INPUTBUFFER r.received) :
    ReaderInv { sys := t, received := r.received, lines := r.lines ++ r.read t } := by
  have hsizes := h.sizes.thread hturn hthread
  obtain ⟨rest, hrest, hplace⟩ := h.place
  cases hthread with
  | sends go psock uip hsends hreading hkeeps hgo hpsock =>
    exact h.untaken (.inr hsends.ne_readto) hsizes hrest
      (hplace.afterSend hturn hsends hreading hkeeps hgo hpsock hkept)
  | waits inputbuffer psock hreads hread =>
    obtain ⟨_, text, data, hread', rfl, hresult⟩ :=
      hplace.readto hturn hreads h.sizes (h.fits hfits hrest)
    obtain rfl := hread.unique hread'
    cases hresult with
    | waiting _ _ htext hreading hwait hreadlen hstate =>
      exact h.untaken (.inl rfl) hsizes hrest
        (.waits Turn.noConfusion hreads hwait hreadlen hstate htext hreading)
  | @reads next result inputbuffer psock hreads hended hread =>
    obtain ⟨_, text, data, hread', rfl, hresult⟩ :=
      hplace.readto hturn hreads h.sizes (h.fits hfits hrest)
    obtain rfl := hread.unique hread'
    cases hresult with
    | waiting => exact absurd rfl hended
    | ended line rest _ _ hdata hline hreading hstart hleft =>
      rw [hdata] at hrest
      subst hleft
      generalize hpt : r.sys.app.pt = pt at hreads
      cases hreads with
      | readto1 =>
        rw [read_line (.inl hpt) (by simp [IrcSystem.afterThread, hpt]), hreading.line_eq]
        exact h.take hrest hline _ hsizes (.sends rfl .join fun hwait =>
          absurd (hstart.symm.trans hwait) Psockpt.noConfusion)
      | readto2 =>
        rw [read_line (.inr hpt) (by simp [IrcSystem.afterThread, hpt]), hreading.line_eq]
        exact h.take hrest hline _ hsizes (.begins rfl .readto hstart)
      | readto => exact h.untaken (.inr (by simp [hpt])) hsizes hrest (.parses rfl rfl hstart
          hline hreading)

theorem ReaderInv.step (h : ReaderInv r) (hstep : ReaderStep r e u) (hkept : DataKept r.sys e)
    (hfits : Fits 0x0A SIZEOF_INPUTBUFFER u.received) : ReaderInv u := by
  have hsizes := h.sizes.step hstep
  cases hstep with
  | parse m inputbuffer hturn hpt _ => exact h.parse m hturn hpt hsizes
  | step _ t hparse hsize hstep =>
    by_cases hturn : r.sys.turn = .thread
    · have hthread := threadTurn hturn (fun hpt => hparse ⟨hturn, hpt⟩) hstep
      obtain rfl := hstep.event_thread hturn
      have hpayload : IrcEvent.thread.payload = [] := rfl
      rw [hpayload, List.append_nil] at hfits ⊢
      exact h.thread hturn hthread hkept hfits
    · obtain ⟨rest, hrest, hplace⟩ := h.place
      have hdel := step_delivers hturn hstep
      refine h.untaken (.inl hdel.pt) hsizes ?_ (hplace.delivers hturn hdel hkept hsizes hsize)
      rw [hrest, List.append_assoc]

theorem ReaderStep.received (h : ReaderStep r e u) : r.received <+: u.received := by
  cases h with
  | parse => exact List.prefix_rfl
  | step => exact List.prefix_append ..

/-- What every step keeps as long as the lines fit is kept by a run whose lines
fit in the end. -/
theorem run_of_fits {step : IrcReader → IrcEvent → IrcReader → Prop} (I : IrcReader → Prop)
    (hreceived : ∀ {r e u}, step r e u → r.received <+: u.received)
    (hstep : ∀ {r e u}, I r → step r e u → Fits 0x0A SIZEOF_INPUTBUFFER u.received → I u) (h : I r)
    {es : List IrcEvent} (hrun : Run step r es u)
    (hfits : Fits 0x0A SIZEOF_INPUTBUFFER u.received) : I u := by
  refine hrun.invariant (fun _ u => Fits 0x0A SIZEOF_INPUTBUFFER u.received → I u)
    (fun _ => h) ?_ hfits
  intro _ t e u _ ih ht hfits
  obtain ⟨more, hmore⟩ := hreceived ht
  have hbefore : Fits 0x0A SIZEOF_INPUTBUFFER t.received := Fits.of_append (hmore.symm ▸ hfits)
  exact hstep (ih hbefore) ht hfits

-- ---------------------------------------------------------------------------
-- The loop
-- ---------------------------------------------------------------------------

def InLoop (s : IrcSystem) : Prop := s.app.pt = .readto ∨ s.app.pt = .parse

theorem InLoop.line_nil (h : InLoop s) : s.app.pt.line = [] := by
  rcases h with hpt | hpt
  · rw [hpt]
    rfl
  · rw [hpt]
    rfl

theorem InLoop.not_sends (h : InLoop s) : ¬ SendsLine s.app.pt line next := by
  intro hsends
  have hpos := hsends.length_pos
  rw [← hsends.line_eq, h.line_nil] at hpos
  exact Nat.lt_irrefl _ hpos

theorem InLoop.waits (h : InLoop s) (hturn : s.turn ≠ .thread) (hplace : Place s rest) :
    s.app.psock.readlen = 0 ∧ 0x0A ∉ rest ∧ Reads s.app.inputbuffer s.app.psock s.uip rest := by
  cases hplace with
  | waits _ _ _ hreadlen _ htext hreading => exact ⟨hreadlen, htext, hreading⟩
  | connecting _ _ hpt => exact absurd (hpt ▸ SendsLine.nick) h.not_sends
  | sent _ hsends => exact absurd hsends h.not_sends
  | sends h' => exact absurd h' hturn
  | begins h' => exact absurd h' hturn
  | resumes h' => exact absurd h' hturn
  | parses h' => exact absurd h' hturn

theorem ReaderStep.event_thread (h : ReaderStep r e u) (hturn : r.sys.turn = .thread) :
    e = .thread := by
  cases h with
  | parse => rfl
  | step _ _ _ _ hstep => exact hstep.event_thread hturn

theorem ReaderInv.dataKept (h : ReaderInv r) (hloop : InLoop r.sys) (hstep : ReaderStep r e u) :
    DataKept r.sys e := by
  refine ⟨?_, fun _ hline => absurd hloop.line_nil hline⟩
  by_cases hturn : r.sys.turn = .thread
  · rw [hstep.event_thread hturn, IrcSystem.stores, if_pos hloop.line_nil]
    exact .inr (Nat.zero_le _)
  · obtain ⟨rest, -, hplace⟩ := h.place
    exact .inl (hloop.waits hturn hplace).1

theorem InLoop.read_nil (h : InLoop r.sys) (s : IrcSystem) : r.read s = [] := by
  refine if_neg fun hread => ?_
  rcases h with hpt | hpt
  · simp [hpt] at hread
  · simp [hpt] at hread

theorem InLoop.step (h : InLoop r.sys) (hstep : ReaderStep r e u) :
    InLoop u.sys ∧ ∀ line ∈ u.lines, line ∈ r.lines ∨ line.statement = .parse := by
  cases hstep with
  | parse m inputbuffer _ hpt _ =>
    refine ⟨.inl rfl, fun line hline => ?_⟩
    rcases List.mem_append.mp hline with hold | hnew
    · exact .inl hold
    · rw [List.mem_singleton.mp hnew]
      exact .inr rfl
  | step _ t hparse _ hstep =>
    refine ⟨?_, fun line hline => .inl (by simpa [h.read_nil] using hline)⟩
    by_cases hturn : r.sys.turn = .thread
    · cases threadTurn hturn (fun hpt => hparse ⟨hturn, hpt⟩) hstep with
      | sends _ _ _ hsends => exact absurd hsends h.not_sends
      | waits _ _ _ _ => exact h
      | @reads next _ _ _ hreads _ _ =>
        have hpt : r.sys.app.pt = .readto := h.resolve_right fun hpt => hparse ⟨hturn, hpt⟩
        rw [hpt] at hreads
        cases hreads
        exact .inr rfl
    · have hpt : t.app.pt = r.sys.app.pt := (step_delivers hturn hstep).pt
      rw [InLoop, hpt]
      exact h

structure LoopInv (r : IrcReader) : Prop where
  reader : ReaderInv r
  loop : InLoop r.sys
  parsed : ∀ line ∈ r.lines, line.statement = .parse

theorem LoopInv.step (h : LoopInv r) (hstep : ReaderStep r e u)
    (hfits : Fits 0x0A SIZEOF_INPUTBUFFER u.received) : LoopInv u := by
  obtain ⟨hloop, hlines⟩ := h.loop.step hstep
  refine ⟨h.reader.step hstep (h.reader.dataKept h.loop hstep) hfits, hloop, fun line hline => ?_⟩
  exact (hlines line hline).elim (h.parsed line) id

def IrcReader.left (r : IrcReader) : Nat :=
  r.received.length - (r.lines.map TakenLine.bytes).flatten.length

theorem left_eq (h : r.received = (r.lines.map TakenLine.bytes).flatten ++ rest) :
    r.left = rest.length := by
  rw [IrcReader.left, h, List.length_append]
  omega

/-- The next statement of `irc_thread` returns. A line that was read is taken. -/
theorem LoopInv.advances (h : LoopInv r) (hturn : r.sys.turn = .thread)
    (hfits : Fits 0x0A SIZEOF_INPUTBUFFER r.received) :
    ∃ u, ReaderStep r .thread u ∧ u.received = r.received ∧
      (u.sys.turn = .sendThread ∨ u.sys.turn = .thread ∧
        (r.sys.app.pt = .readto ∧ u.sys.app.pt = .parse ∧ u.left = r.left ∨
          u.sys.app.pt = .readto ∧ u.left < r.left)) := by
  obtain ⟨rest, hrest, hplace⟩ := h.reader.place
  rcases h.loop with hpt | hpt
  · obtain ⟨⟨result, inputbuffer, psock⟩, -, -, hread, -, -⟩ :=
      hplace.readto hturn (hpt ▸ ReadsLine.readto) h.reader.sizes (h.reader.fits hfits hrest)
    have hno : ¬ (r.sys.turn = .thread ∧ r.sys.app.pt = .parse) := by simp [hpt]
    have hreturns := (ircThread_readto (m := r.sys.messages) .readto hpt).mpr
      ⟨result, inputbuffer, psock, hread, rfl⟩
    have hleft : ∀ (s : IrcSystem), IrcReader.left ⟨s, r.received ++ [], r.lines ++ r.read s⟩ =
        r.left := by
      intro s
      rw [h.loop.read_nil, IrcReader.left, List.append_nil, List.append_nil]
      rfl
    by_cases hwaiting : result = .waiting
    · rw [if_pos hwaiting] at hreturns
      exact ⟨_, .step .thread _ hno (Nat.zero_le _) (step_thread hturn hreturns),
        List.append_nil _, .inl rfl⟩
    · rw [if_neg hwaiting] at hreturns
      exact ⟨_, .step .thread _ hno (Nat.zero_le _) (step_thread hturn hreturns), List.append_nil _,
        .inr ⟨rfl, .inl ⟨hpt, rfl, hleft _⟩⟩⟩
  · have hstep := ReaderStep.parse r.sys.messages r.sys.app.inputbuffer hturn hpt rfl
    refine ⟨_, hstep, rfl, .inr ⟨hturn, .inr ⟨rfl, ?_⟩⟩⟩
    obtain ⟨line, -, ⟨text, rfl, -⟩, hreading, rfl⟩ := hplace.parse hturn hpt
    rw [left_eq hrest, IrcReader.left, hrest, hreading.line_eq]
    simp
    omega

theorem LoopInv.turn_ends (h : LoopInv r) (hturn : r.sys.turn = .thread)
    (hfits : Fits 0x0A SIZEOF_INPUTBUFFER r.received) :
    ∃ n u, Run ReaderStep r (List.replicate n .thread) u ∧ u.sys.turn = .sendThread := by
  induction hk : 2 * r.left + (if r.sys.app.pt = .readto then 1 else 0) using Nat.strongRecOn
    generalizing r with
  | _ k ih =>
    obtain ⟨u, hstep, hreceived, hcases⟩ := h.advances hturn hfits
    rcases hcases with hends | ⟨hturn', hpt⟩
    · exact ⟨1, u, Run.nil.snoc hstep, hends⟩
    · rw [← hreceived] at hfits
      have hless : 2 * u.left + (if u.sys.app.pt = .readto then 1 else 0) < k := by
        rcases hpt with ⟨hreadto, hparse, hleft⟩ | ⟨hreadto, hleft⟩
        · simp only [hreadto, if_true] at hk
          simp only [hparse, reduceCtorEq, if_false]
          omega
        · simp only [hreadto, if_true]
          omega
      obtain ⟨n, v, hrun, hends⟩ := ih _ hless (h.step hstep hfits) hturn' hfits rfl
      exact ⟨n + 1, v, Run.cons_iff.mpr ⟨u, hstep, hrun⟩, hends⟩

theorem LoopInv.run (h : LoopInv r) {es : List IrcEvent} (hrun : Run ReaderStep r es u)
    (hfits : Fits 0x0A SIZEOF_INPUTBUFFER u.received) : LoopInv u :=
  run_of_fits LoopInv (fun hstep => hstep.received) LoopInv.step h hrun hfits

theorem LoopInv.split (h : LoopInv r) (hturn : r.sys.turn ≠ .thread) :
    (r.lines.map TakenLine.bytes, (r.sys.app.line .readto).bytes) = splitLines 0x0A r.received := by
  obtain ⟨rest, hrest, hplace⟩ := h.reader.place
  obtain ⟨-, htext, hreading⟩ := h.loop.waits hturn hplace
  rw [hrest, splitLines_eq h.reader.isLine htext, hreading.line_eq]

/-- However the stream is cut into segments, the parser gets its lines, each once
and in order. What is behind the last of them is in the buffer. -/
theorem lines_reassembled {app : IrcState} {m : Messages} {appdata : Buffer UInt8 UIP_APPDATA_SIZE}
    {es fs : List IrcEvent} {stream : List (List UInt8)}
    (happ : app.inputbuffer.length = SIZEOF_INPUTBUFFER)
    (hlogin : Run ReaderStep ⟨ircConnect app m appdata, [], []⟩ es r) (hturn : r.sys.turn = .thread)
    (hpt : r.sys.app.pt = .readto) (hstart : r.sys.app.psock.psockpt = .start)
    (hnone : r.sys.app.psock.unread r.sys.uip ++ r.sys.app.psock.fresh r.sys.uip = [])
    (hstream : ∀ line ∈ stream, IsLine 0x0A line ∧ line.length ≤ SIZEOF_INPUTBUFFER)
    (hrun : Run ReaderStep ⟨r.sys, [], []⟩ fs u) (hreceived : u.received <+: stream.flatten) :
    (∀ line ∈ u.lines, line.statement = .parse ∧ line.length = line.bytes.length) ∧
      u.lines.map TakenLine.bytes <+: stream ∧
      (u.sys.turn ≠ .thread →
        (u.lines.map TakenLine.bytes, (u.sys.app.line .readto).bytes) =
          splitLines 0x0A u.received) ∧
      (u.sys.turn = .thread →
        ∃ n v, Run ReaderStep u (List.replicate n .thread) v ∧ v.sys.turn = .sendThread) := by
  have hsizes : SizesOk r.sys :=
    hlogin.invariant (fun _ u => SizesOk u.sys) (sizesOk_connect m appdata happ) fun _ _ _ _ _ ht
      hst => ht.step hst
  have hreads : ReadsLine r.sys.app.pt .parse := hpt ▸ ReadsLine.readto
  have hplace : Place r.sys [] := hnone ▸ Place.begins hturn hreads hstart
  have hloop : LoopInv ⟨r.sys, [], []⟩ := ⟨⟨hsizes, by simp, [], rfl, hplace⟩, .inl hpt, by simp⟩
  have hfits : Fits 0x0A SIZEOF_INPUTBUFFER u.received :=
    fits_of_prefix hstream (by decide) hreceived
  have hinv := hloop.run hrun hfits
  obtain ⟨rest, hrest, -⟩ := hinv.reader.place
  refine ⟨fun line hline => ⟨hinv.parsed line hline, (hinv.reader.lines line hline).2⟩,
    ?_, hinv.split, fun hturn => hinv.turn_ends hturn hfits⟩
  exact prefix_of_flatten hinv.reader.isLine (fun line hline => (hstream line hline).1)
    (hrest ▸ hreceived)

def loopEntry : List IrcEvent := [
  .synack [] none, .thread, .sendThread,
  .segment true 0 [], .thread, .thread, .sendThread,
  .segment true 0 [], .thread, .thread, .sendThread,
  .segment false 0 (ascii ":a 001\r\n"), .thread, .thread, .sendThread,
  .segment true 0 (ascii ":a 002\r\n"), .thread, .thread]

set_option maxRecDepth 4000 in
theorem loop_ping :
    ∃ r, Run ReaderStep ⟨ircConnect .zero .zero (.fill _ 0), [], []⟩ loopEntry r ∧
      r.sys.turn = .thread ∧
      r.sys.app.pt = .readto ∧ r.sys.app.psock.psockpt = .start ∧
      r.sys.app.psock.unread r.sys.uip ++ r.sys.app.psock.fresh r.sys.uip = [] ∧
      ∃ u, Run ReaderStep ⟨r.sys, [], []⟩ [
          .thread, .sendThread,
          .segment false 0 (ascii "PING x\r"), .thread, .sendThread, .timer, .thread, .sendThread,
          .segment false 0 (ascii "\n\nA"), .thread, .thread, .thread, .thread, .thread,
            .sendThread] u ∧
        u.received = ascii "PING x\r\n\nA" ∧ u.sys.turn = .outside :=
  ⟨_, (Run.of_foldlM (f := IrcReader.stepRun 4) rfl).mono readerStep_of_stepRun, rfl, rfl, rfl, rfl,
    _, (Run.of_foldlM (f := IrcReader.stepRun 4) rfl).mono readerStep_of_stepRun, rfl, rfl⟩

theorem lines_reassembled_ping :
    ∃ r u es fs, Run ReaderStep ⟨ircConnect .zero .zero (.fill _ 0), [], []⟩ es r ∧
      Run ReaderStep ⟨r.sys, [], []⟩ fs u ∧ u.received = ascii "PING x\r\n\nA" ∧
      u.lines.map TakenLine.bytes <+: [ascii "PING x\r\n", ascii "\n", ascii "A\n"] ∧
      (u.lines.map TakenLine.bytes, (u.sys.app.line .readto).bytes) =
        ([ascii "PING x\r\n", ascii "\n"], ascii "A") := by
  obtain ⟨r, hlogin, hturn, hpt, hstart, hnone, u, hrun, hreceived, hout⟩ := loop_ping
  have hstream : ∀ line ∈ [ascii "PING x\r\n", ascii "\n", ascii "A\n"],
      IsLine 0x0A line ∧ line.length ≤ SIZEOF_INPUTBUFFER := by
    simp only [List.forall_mem_cons, List.not_mem_nil, false_implies, implies_true, and_true]
    exact ⟨⟨⟨ascii "PING x\r", rfl, by decide⟩, by decide⟩, ⟨⟨[], rfl, by decide⟩, by decide⟩,
      ⟨⟨ascii "A", rfl, by decide⟩, by decide⟩⟩
  have hprefix : u.received <+: [ascii "PING x\r\n", ascii "\n", ascii "A\n"].flatten := by
    rw [hreceived]
    exact ⟨ascii "\n", by decide⟩
  obtain ⟨-, hlines, hsplit, -⟩ :=
    lines_reassembled rfl hlogin hturn hpt hstart hnone hstream hrun hprefix
  refine ⟨r, u, _, _, hlogin, hrun, hreceived, hlines, ?_⟩
  rw [hsplit (by rw [hout]; exact Turn.noConfusion), hreceived]
  decide

end FxIP
