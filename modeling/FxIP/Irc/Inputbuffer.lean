import FxIP.Irc.LoginData

/-!
# The cells of the line buffer

`irc_connect` tells the socket that `inputbuffer` has 1024 bytes, and it has
128. What `psock_readto` stores is traced cell by cell; the cells are counted on
behind the end of the buffer.
-/

namespace FxIP

open Lines

variable {c : UInt8} {memory data : List UInt8} {buf : PsockBuf} {p q : Psock} {uip : Uip}
    {i k l : Nat}
variable {cells cells' trace : List Nat}

-- ---------------------------------------------------------------------------
-- The stores of psock_readto
-- ---------------------------------------------------------------------------

/-- The cells that `buf_bufto` stores to. -/
def bufBuftoCells (endmarker : UInt8) (buf : PsockBuf) : List UInt8 → List Nat
  | [] => []
  | c :: data =>
    if buf.left > 0 then
      buf.ptr :: if c = endmarker then []
        else bufBuftoCells endmarker { ptr := buf.ptr + 1, left := buf.left - 1 } data
    else []

def psockReadtoBufCells (c : UInt8) (s : Psock) (uip : Uip) : List Nat :=
  bufBuftoCells c s.buf (s.unread uip)

def psockReadtoWaitCells (c : UInt8) (s : Psock) (uip : Uip) : List Nat :=
  let (new, s) := psockNewdata s uip
  if new then psockReadtoBufCells c { s with state := .read, readptr := 0, readlen := uip.len } uip
    else []

def psockReadtoRoundCells (c : UInt8) (uip : Uip) (s : Psock) : List Nat :=
  if s.readlen = 0 then psockReadtoWaitCells c s uip else psockReadtoBufCells c s uip

/-- The loop of `psock_readto` with the cells it stores to. -/
def psockReadtoLoopCells (c : UInt8) (uip : Uip) (s : List Nat × (List UInt8 × Psock)) :
    Comp (List Nat × (PtResult × List UInt8 × Psock)) :=
  Comp.loopTraced (fun t => psockReadtoRoundCells c uip t.2)
    (fun t => pure (psockReadtoRound c uip t)) s

def psockReadtoCells (c : UInt8) (memory : List UInt8) (s : Psock) (uip : Uip) :
    Comp (List Nat × (PtResult × List UInt8 × Psock)) :=
  match s.psockpt with
  | .start => psockReadtoLoopCells c uip ([], memory,
      { s with buf := { ptr := 0, left := s.bufsize } })
  | .wait =>
    match psockReadtoWait c memory s uip with
    | .inl again => psockReadtoLoopCells c uip (psockReadtoWaitCells c s uip, again)
    | .inr result => pure (psockReadtoWaitCells c s uip, result)

/-- A call of `psock_readto` returns with a trace or not at all, and the trace
changes nothing. -/
theorem psockReadto_iff_cells {r : PtResult × List UInt8 × Psock} :
    (psockReadto c memory p uip).Returns r ↔ ∃ cells, (psockReadtoCells c memory p uip).Returns
    (cells, r) := by
  cases hpt : p.psockpt with
  | start =>
    simp only [psockReadto, psockReadtoCells, hpt]
    exact Comp.returns_iff_traced []
  | wait =>
    simp only [psockReadto, psockReadtoCells, hpt]
    cases psockReadtoWait c memory p uip with
    | inl again => exact Comp.returns_iff_traced _
    | inr result =>
      simp only [Comp.returns_pure, Prod.mk.injEq]
      constructor
      · intro h
        exact ⟨_, rfl, h⟩
      · rintro ⟨_, -, h⟩
        exact h

-- ---------------------------------------------------------------------------
-- Where the stores are
-- ---------------------------------------------------------------------------

/-- Offered `k` bytes, the socket stores as many as it thinks there is room for
from its pointer on. -/
structure StoresUpTo (p : Psock) (k : Nat) (cells : List Nat) (q : Psock) : Prop where
  cells : cells = List.range' p.buf.ptr (min p.buf.left k)
  ptr : q.buf.ptr = p.buf.ptr + min p.buf.left k
  left : q.buf.left = p.buf.left - min p.buf.left k
  bufsize : q.bufsize = p.bufsize

theorem StoresUpTo.trans {r : Psock} (h : StoresUpTo p k cells q) (h' : StoresUpTo q l cells' r) :
    StoresUpTo p (k + l) (cells ++ cells') r := by
  have hmin : min p.buf.left k + min (p.buf.left - min p.buf.left k) l =
    min p.buf.left (k + l) := by omega
  refine ⟨?_, ?_, ?_, h'.bufsize.trans h.bufsize⟩
  · rw [h.cells, h'.cells, h.ptr, h.left, List.range'_append_1, hmin]
  · rw [h'.ptr, h.ptr, h.left]
    omega
  · rw [h'.left, h.left]
    omega

theorem storesUpTo_zero (hbuf : q.buf = p.buf) (hbufsize : q.bufsize = p.bufsize) :
    StoresUpTo p 0 [] q := by
  refine ⟨?_, ?_, ?_, hbufsize⟩
  · rw [Nat.min_zero]
    rfl
  · rw [hbuf, Nat.min_zero, Nat.add_zero]
  · rw [hbuf, Nat.min_zero, Nat.sub_zero]

theorem bufSkip_found (c : UInt8) (data : List UInt8) :
    ((bufSkip c data).1.found = true ↔ c ∈ data) ∧ (c ∉ data → (bufSkip c data).2 = []) := by
  induction data with
  | nil => simp [bufSkip]
  | cons b data ih =>
    rw [bufSkip]
    split
    · next hb => simp [hb]
    · next hb =>
      rw [List.mem_cons, or_iff_right (Ne.symm hb)]
      exact ih

theorem bufBufto_found (c : UInt8) (memory : List UInt8) (buf : PsockBuf) (data : List UInt8) :
    ((bufBufto c memory buf data).1.found = true ↔ c ∈ data) ∧
      (c ∉ data → (bufBufto c memory buf data).2.2.2 = []) := by
  induction data generalizing memory buf with
  | nil => simp [bufBufto]
  | cons b data ih =>
    by_cases hleft : buf.left > 0
    · rw [bufBufto, if_pos hleft]
      dsimp only
      split
      · next hb => simp [hb]
      · next hb =>
        rw [List.mem_cons, or_iff_right (Ne.symm hb)]
        exact ih _ _
    · rw [bufBufto, if_neg hleft]
      exact bufSkip_found c (b :: data)

theorem storesUpTo_full (hleft : p.buf.left = 0) (k : Nat) : StoresUpTo p k [] p := by
  refine ⟨?_, ?_, ?_, rfl⟩ <;> simp [hleft]

theorem storesUpTo_one (hleft : p.buf.left > 0) :
    StoresUpTo p 1 [p.buf.ptr]
      { p with buf := { ptr := p.buf.ptr + 1, left := p.buf.left - 1 } } := by
  have hmin : min p.buf.left 1 = 1 := Nat.min_eq_right hleft
  refine ⟨?_, ?_, ?_, rfl⟩ <;> simp [hmin]

theorem bufBufto_stores (c : UInt8) (memory : List UInt8) (p : Psock) (data : List UInt8) :
    StoresUpTo p (upTo c data).length (bufBuftoCells c p.buf data)
      { p with buf := (bufBufto c memory p.buf data).2.2.1 } := by
  induction data generalizing memory p with
  | nil => exact storesUpTo_zero rfl rfl
  | cons b data ih =>
    by_cases hleft : p.buf.left > 0
    · have hone := storesUpTo_one hleft
      rw [bufBufto, bufBuftoCells, if_pos hleft, if_pos hleft, upTo]
      split
      · exact hone
      · have hrest := hone.trans (ih (memory.set p.buf.ptr b) _)
        rwa [Nat.add_comm] at hrest
    · rw [bufBufto, bufBuftoCells, if_neg hleft, if_neg hleft]
      exact storesUpTo_full (by omega) _

-- ---------------------------------------------------------------------------
-- The stores of one call
-- ---------------------------------------------------------------------------

/-- The socket after `buf_bufto` left `rest` bytes of the data. -/
def Psock.took (p : Psock) (buf : PsockBuf) (rest : Nat) : Psock :=
  { p with buf, readptr := p.readptr + (p.readlen - rest), readlen := rest }

/-- A round of `psock_readto` that takes data ends the call if it finds the end
marker. -/
theorem psockReadtoBuf_cells (c : UInt8) (memory : List UInt8) (p : Psock) (uip : Uip) :
    ∃ q, StoresUpTo p (upTo c (p.unread uip)).length (psockReadtoBufCells c p uip) q ∧
      (c ∈ p.unread uip → ∃ result memory', psockReadtoBuf c memory p uip =
        .inr (result, memory', q) ∧
        q.psockpt = .start) ∧
      (c ∉ p.unread uip → ∃ memory', psockReadtoBuf c memory p uip = .inl (memory', q) ∧
        q.readlen = 0 ∧ q.state = p.state) := by
  have hstores := bufBufto_stores c memory p (p.unread uip)
  obtain ⟨hfound, hrest⟩ := bufBufto_found c memory p.buf (p.unread uip)
  rcases hbuf : bufBufto c memory p.buf (p.unread uip) with ⟨result, memory', buf', rest⟩
  rw [hbuf] at hstores hfound hrest
  have hcells : bufBufto c memory p.buf ((uip.appdata.cells.drop p.readptr).take p.readlen) =
      (result, memory', buf', rest) := hbuf
  have hsame : ∀ q : Psock, q.buf = buf' → q.bufsize = p.bufsize →
      StoresUpTo p (upTo c (p.unread uip)).length (psockReadtoBufCells c p uip) q := by
    rintro q hq hbufsize
    exact ⟨hstores.cells, hq ▸ hstores.ptr, hq ▸ hstores.left, hbufsize⟩
  by_cases hc : c ∈ p.unread uip
  · have hfound' : result.found = true := hfound.mpr hc
    by_cases hnone : p.bufsize - buf'.left = 0
    · refine ⟨{ p.took buf' rest.length with state := .none, psockpt := .start }, hsame _ rfl rfl,
        fun _ => ⟨.waiting, memory', ?_, rfl⟩, fun h => absurd hc h⟩
      simp [psockReadtoBuf, hcells, psockDatalen, hfound', hnone, Psock.took]
    · refine ⟨{ p.took buf' rest.length with psockpt := .start }, hsame _ rfl rfl,
        fun _ => ⟨.ended, memory', ?_, rfl⟩, fun h => absurd hc h⟩
      simp [psockReadtoBuf, hcells, psockDatalen, hfound', hnone, Psock.took]
  · refine ⟨p.took buf' rest.length, hsame _ rfl rfl, fun h => absurd h hc, fun _ =>
      ⟨memory', ?_, ?_, rfl⟩⟩
    · have hnot : result.found = false := by simpa using mt hfound.mp hc
      simp [psockReadtoBuf, hcells, hnot, Psock.took]
    · exact congrArg List.length (hrest hc)

/-- What a call of `psock_readto` that is offered `k` bytes stores, and how it
leaves the socket. -/
structure CallStores (p : Psock) (k : Nat) (cells : List Nat) (q : Psock) : Prop where
  stores : StoresUpTo p k cells q
  waits : q.psockpt = .wait → q.readlen = 0

section
variable {memory' : List UInt8} {r : PtResult × List UInt8 × Psock}

theorem readtoLoop_exit (hround : psockReadtoRound c uip (memory, p) = .inr r)
    (hcells : psockReadtoRoundCells c uip p = cells) :
    (psockReadtoLoopCells c uip (trace, memory, p)).Returns (trace ++ cells, r) :=
  hcells ▸ Comp.Returns.traced_exit (Comp.returns_pure.mpr hround)

theorem readtoLoop_again (hround : psockReadtoRound c uip (memory, p) = .inl (memory', q))
    (hcells : psockReadtoRoundCells c uip p = cells)
    (h : (psockReadtoLoopCells c uip (trace ++ cells, memory', q)).Returns (cells', r)) :
    (psockReadtoLoopCells c uip (trace, memory, p)).Returns (cells', r) := by
  subst hcells
  exact Comp.Returns.traced_again (Comp.returns_pure.mpr hround) h

end

/-- The rest of a call from the socket on stores like that. -/
def LoopStores (c : UInt8) (uip : Uip) (memory : List UInt8) (p : Psock) (k : Nat) : Prop :=
  ∀ trace, ∃ cells r, (psockReadtoLoopCells c uip (trace, memory, p)).Returns (trace ++ cells, r) ∧
    CallStores p k cells r.2.2

theorem loopStores_blocked (memory : List UInt8) (hreadlen : p.readlen = 0)
    (hnone : ¬ (p.state ≠ .read ∧ uip.flags.newdata)) : LoopStores c uip memory p 0 := by
  intro trace
  have hpos : ¬ p.readlen > 0 := by omega
  obtain ⟨q, hnew, hbuf, hbufsize, hq⟩ : ∃ q, psockNewdata p uip = (false, q) ∧ q.buf = p.buf ∧
      q.bufsize = p.bufsize ∧ q.readlen = 0 := by
    by_cases hstate : p.state = .read
    · exact ⟨{ p with state := .blockedNewdata }, by simp [psockNewdata, hpos, hstate], rfl,
        rfl, hreadlen⟩
    · have hnewdata : uip.flags.newdata = false := by simpa [hstate] using hnone
      exact ⟨p, by simp [psockNewdata, hpos, hstate, hnewdata], rfl, rfl, hreadlen⟩
  have hround : psockReadtoRound c uip (memory, p) =
      .inr (.waiting, memory, { q with psockpt := .wait }) := by
    simp [psockReadtoRound, hreadlen, psockReadtoWait, hnew]
  have hcells : psockReadtoRoundCells c uip p = [] := by
    simp [psockReadtoRoundCells, hreadlen, psockReadtoWaitCells, hnew]
  exact ⟨[], _, readtoLoop_exit hround hcells, storesUpTo_zero hbuf hbufsize, fun _ => hq⟩

theorem loopStores_takes {memory : List UInt8}
    (hround : psockReadtoRound c uip (memory, p) = psockReadtoBuf c memory q uip)
    (hcells : psockReadtoRoundCells c uip p = psockReadtoBufCells c q uip)
    (hbuf : q.buf = p.buf) (hbufsize : q.bufsize = p.bufsize)
    (hrest : ∀ memory' q', q'.readlen = 0 → q'.state = q.state →
      LoopStores c uip memory' q' (upTo c data).length) :
    LoopStores c uip memory p (upTo c (q.unread uip ++ data)).length := by
  intro trace
  obtain ⟨q', hstores, hfound, hmore⟩ := psockReadtoBuf_cells c memory q uip
  have hstores' : StoresUpTo p (upTo c (q.unread uip)).length (psockReadtoBufCells c q uip) q' :=
    ⟨hbuf ▸ hstores.cells, hbuf ▸ hstores.ptr, hbuf ▸ hstores.left, hstores.bufsize.trans hbufsize⟩
  by_cases hc : c ∈ q.unread uip
  · obtain ⟨result, memory', hread, hpt⟩ := hfound hc
    rw [upTo_append_of_mem hc]
    refine ⟨_, _, readtoLoop_exit (hround.trans hread) hcells, hstores', fun hwait => ?_⟩
    cases hpt.symm.trans hwait
  · obtain ⟨memory', hread, hreadlen, hstate⟩ := hmore hc
    obtain ⟨cells, r, hloop, hcall⟩ :=
      hrest memory' q' hreadlen hstate (trace ++ psockReadtoBufCells c q uip)
    rw [upTo_append_of_not_mem hc, List.length_append, ← upTo_text hc]
    refine ⟨psockReadtoBufCells c q uip ++ cells, r, ?_, hstores'.trans hcall.stores, hcall.waits⟩
    rw [← List.append_assoc]
    exact readtoLoop_again (hround.trans hread) hcells hloop

theorem loopStores_fresh (memory : List UInt8) (hreadlen : p.readlen = 0) :
    LoopStores c uip memory p (upTo c (p.fresh uip)).length := by
  by_cases hnew : p.state ≠ .read ∧ uip.flags.newdata
  · have hpos : ¬ p.readlen > 0 := by omega
    have hnewdata : psockNewdata p uip = (true, p) := by simp [psockNewdata, hpos, hnew.1, hnew.2]
    have hunread : { p with state := .read, readptr := 0, readlen := uip.len }.unread uip =
        p.fresh uip := by
      rw [Psock.fresh, if_pos hnew]
      rfl
    rw [← List.append_nil (p.fresh uip), ← hunread]
    refine loopStores_takes ?_ ?_ rfl rfl fun memory' q hreadlen' hstate => ?_
    · simp [psockReadtoRound, hreadlen, psockReadtoWait, hnewdata]
    · simp [psockReadtoRoundCells, hreadlen, psockReadtoWaitCells, hnewdata]
    · exact loopStores_blocked memory' hreadlen' (by simp [hstate])
  · rw [fresh_nil hnew]
    exact loopStores_blocked memory hreadlen hnew

theorem loopStores (memory : List UInt8) (p : Psock) :
    LoopStores c uip memory p (upTo c (p.unread uip ++ p.fresh uip)).length := by
  by_cases hreadlen : p.readlen = 0
  · rw [unread_nil hreadlen, List.nil_append]
    exact loopStores_fresh memory hreadlen
  · refine loopStores_takes ?_ ?_ rfl rfl fun memory' q hreadlen' hstate => ?_
    · rw [psockReadtoRound, if_neg hreadlen]
    · rw [psockReadtoRoundCells, if_neg hreadlen]
    · have hfresh : p.fresh uip = q.fresh uip := by rw [Psock.fresh, Psock.fresh, hstate]
      rw [hfresh]
      exact loopStores_fresh memory' hreadlen'

/-- `psock_readto` from where it is: at the start of a line, or waiting in it. -/
def Psock.resumed (p : Psock) : Psock :=
  match p.psockpt with
  | .start => { p with buf := { ptr := 0, left := p.bufsize } }
  | .wait => p

theorem psockReadtoCells_wait {x : List Nat × (PtResult × List UInt8 × Psock)}
    (hpt : p.psockpt = .wait)
    (hreadlen : p.readlen = 0) (h : (psockReadtoLoopCells c uip ([], memory, p)).Returns x) :
    (psockReadtoCells c memory p uip).Returns x := by
  have hround : psockReadtoRound c uip (memory, p) = psockReadtoWait c memory p uip := by
    rw [psockReadtoRound, if_pos hreadlen]
  have hcells : psockReadtoRoundCells c uip p = psockReadtoWaitCells c p uip := by
    rw [psockReadtoRoundCells, if_pos hreadlen]
  unfold psockReadtoCells
  split
  · rename_i hstart
    cases hpt.symm.trans hstart
  · rcases Comp.returns_loopTraced.mp h with ⟨r, hexit, rfl⟩ | ⟨again, hagain, hrest⟩
    · rw [Comp.returns_pure, hround] at hexit
      rw [hexit, hcells]
      exact Comp.returns_pure.mpr rfl
    · rw [Comp.returns_pure, hround] at hagain
      rw [hcells] at hrest
      rw [hagain]
      exact hrest

theorem psockReadtoCells_stores (memory : List UInt8) (hwait : p.psockpt = .wait → p.readlen = 0) :
    ∃ cells r, (psockReadtoCells c memory p uip).Returns (cells, r) ∧
      CallStores p.resumed (upTo c (p.unread uip ++ p.fresh uip)).length cells r.2.2 := by
  cases hpt : p.psockpt with
  | start =>
    have hresumed : p.resumed =
      { p with buf := { ptr := 0, left := p.bufsize } } := by simp only [Psock.resumed, hpt]
    have hstores : LoopStores c uip memory { p with buf := { ptr := 0, left := p.bufsize } } _ :=
      loopStores memory _
    obtain ⟨cells, r, hloop, hcall⟩ := hstores []
    refine ⟨cells, r, ?_, hresumed ▸ hcall⟩
    unfold psockReadtoCells
    split
    · exact hloop
    · rename_i hw
      cases hpt.symm.trans hw
  | wait =>
    have hresumed : p.resumed = p := by simp only [Psock.resumed, hpt]
    have hreadlen := hwait hpt
    have hstores : LoopStores c uip memory p _ := loopStores_fresh memory hreadlen
    obtain ⟨cells, r, hloop, hcall⟩ := hstores []
    rw [unread_nil hreadlen, List.nil_append, hresumed]
    exact ⟨cells, r, psockReadtoCells_wait hpt hreadlen hloop, hcall⟩

-- ---------------------------------------------------------------------------
-- The stores of a run
-- ---------------------------------------------------------------------------

/-- `irc_thread` is at a call of `psock_readto`. -/
def IrcSystem.Reading (s : IrcSystem) : Prop :=
  s.turn = .thread ∧ (s.app.pt = .readto1 ∨ s.app.pt = .readto2 ∨ s.app.pt = .readto)

instance (s : IrcSystem) : Decidable s.Reading := inferInstanceAs (Decidable (_ ∧ _))

/-- The cells that the next step stores to through `psock`. -/
def IrcSystem.storedCells (s : IrcSystem) : Comp (List Nat) :=
  if s.Reading then Prod.fst <$> psockReadtoCells 0x0A s.app.inputbuffer s.app.psock s.uip
  else pure []

def IrcSystem.offered (s : IrcSystem) : List UInt8 :=
  upTo 0x0A (s.app.psock.unread s.uip ++ s.app.psock.fresh s.uip)

/-- The line fits in the buffer as far as it is at hand. -/
def InputFits (s : IrcSystem) : Prop :=
  s.Reading → s.app.psock.resumed.buf.ptr + s.offered.length ≤ SIZEOF_INPUTBUFFER

instance (s : IrcSystem) : Decidable (InputFits s) := inferInstanceAs (Decidable (_ → _))

structure IrcStores where
  reader : IrcReader
  cells : List Nat
  deriving Repr, DecidableEq

/-- A step of the client, with the cells that it stores to. -/
def StoresStep (s : IrcStores) (e : IrcEvent) (t : IrcStores) : Prop :=
  ReaderStep s.reader e t.reader ∧ ∃ cells, s.reader.sys.storedCells.Returns cells ∧
    t.cells = s.cells ++ cells

/-- What was received is inside `inputbuffer`. -/
structure IrcStores.StaysInside (s : IrcStores) : Prop where
  cells : ∀ cell ∈ s.cells, cell < SIZEOF_INPUTBUFFER
  lines : ∀ line ∈ s.reader.lines, line.statement = .parse → line.length ≤ SIZEOF_INPUTBUFFER

/-- A step with a bound on the rounds of its loops. -/
def IrcStores.stepRun (n : Nat) (s : IrcStores) (e : IrcEvent) : Option IrcStores := do
  let reader ← s.reader.stepRun n e
  let cells ← s.reader.sys.storedCells.run n
  some { reader, cells := s.cells ++ cells }

theorem storesStep_of_stepRun {n : Nat} (s : IrcStores) (e : IrcEvent) (t : IrcStores)
    (h : s.stepRun n e = some t) : StoresStep s e t := by
  obtain ⟨reader, hreader, h⟩ := Option.bind_eq_some_iff.mp h
  obtain ⟨cells, hcells, h⟩ := Option.bind_eq_some_iff.mp h
  obtain rfl := Option.some.inj h
  exact ⟨readerStep_of_stepRun _ _ _ hreader, cells, ⟨n, hcells⟩, rfl⟩

-- ---------------------------------------------------------------------------
-- The cursor
-- ---------------------------------------------------------------------------

section
variable {s t : IrcSystem} {e : IrcEvent} {r u : IrcReader} {next : IrcPt} {line : List UInt8}

/-- The pointer is inside `inputbuffer`, and `left` counts up to the size given
to `PSOCK_INIT`. -/
structure CursorOk (p : Psock) : Prop where
  size : p.buf.ptr + p.buf.left = PSOCK_BUFFERSIZE
  inside : p.buf.ptr ≤ SIZEOF_INPUTBUFFER

/-- The socket takes it all for room, and what fits in the buffer stays inside. -/
theorem CursorOk.fits (h : CursorOk p) (hstores : StoresUpTo p k cells q)
    (hk : p.buf.ptr + k ≤ SIZEOF_INPUTBUFFER) :
    CursorOk q ∧ ∀ cell ∈ cells, cell < SIZEOF_INPUTBUFFER := by
  have hsize := h.size
  have hle : SIZEOF_INPUTBUFFER ≤ PSOCK_BUFFERSIZE := by decide
  have hmin : min p.buf.left k = k := Nat.min_eq_right (by omega)
  refine ⟨⟨?_, ?_⟩, fun cell hcell => ?_⟩
  · rw [hstores.ptr, hstores.left, hmin]
    omega
  · rwa [hstores.ptr, hmin]
  · rw [hstores.cells, hmin, List.mem_range'_1] at hcell
    omega

theorem CursorOk.overflows (h : CursorOk p) (hstores : StoresUpTo p k cells q)
    (hk : SIZEOF_INPUTBUFFER < p.buf.ptr + k) : SIZEOF_INPUTBUFFER ∈ cells := by
  have hsize := h.size
  have hinside := h.inside
  have hlt : SIZEOF_INPUTBUFFER < PSOCK_BUFFERSIZE := by decide
  rw [hstores.cells, List.mem_range'_1]
  omega

theorem ReadsLine.line_nil {pt : IrcPt} (h : ReadsLine pt next) : pt.line = [] := by
  cases h <;> rfl

theorem SendsLine.line_ne_nil {pt : IrcPt} (h : SendsLine pt line next) : pt.line ≠ [] := by
  rw [h.line_eq]
  exact List.ne_nil_of_length_pos h.length_pos

theorem reading_iff : s.Reading ↔ s.turn = .thread ∧ ∃ next, ReadsLine s.app.pt next := by
  refine and_congr_right fun _ => ⟨?_, ?_⟩
  · rintro (hpt | hpt | hpt)
    · exact ⟨.join, hpt ▸ .readto1⟩
    · exact ⟨.readto, hpt ▸ .readto2⟩
    · exact ⟨.parse, hpt ▸ .readto⟩
  · rintro ⟨next, hreads⟩
    generalize s.app.pt = pt at hreads
    cases hreads <;> simp

/-- Between the calls of `psock_readto` for one line, and until the parser has
the line, the cursor is where it was left. -/
structure BufferOk (s : IrcSystem) : Prop where
  bufsize : s.app.psock.bufsize = PSOCK_BUFFERSIZE
  waits : s.app.pt.line = [] → s.app.psock.psockpt = .wait → s.app.psock.readlen = 0
  cursor : s.app.pt.line = [] → s.app.psock.psockpt = .wait ∨ s.app.pt = .parse →
    CursorOk s.app.psock

theorem bufferOk_connect (app : IrcState) (m : Messages) (appdata : Buffer UInt8 UIP_APPDATA_SIZE) :
    BufferOk (ircConnect app m appdata) :=
  ⟨rfl, fun _ _ => rfl, fun _ _ => ⟨rfl, Nat.zero_le _⟩⟩

theorem BufferOk.resumed (h : BufferOk s) (hline : s.app.pt.line = []) :
    CursorOk s.app.psock.resumed ∧ s.app.psock.resumed.bufsize = PSOCK_BUFFERSIZE := by
  cases hpt : s.app.psock.psockpt with
  | start =>
    rw [Psock.resumed, hpt]
    exact ⟨⟨(Nat.zero_add _).trans h.bufsize, Nat.zero_le _⟩, h.bufsize⟩
  | wait =>
    rw [Psock.resumed, hpt]
    exact ⟨h.cursor hline (.inl hpt), h.bufsize⟩

theorem BufferOk.readto (h : BufferOk s) (hreading : s.Reading)
    {result : PtResult × List UInt8 × Psock}
    (hread : (psockReadto 0x0A s.app.inputbuffer s.app.psock s.uip).Returns result) :
    ∃ cells, s.storedCells.Returns cells ∧ CallStores s.app.psock.resumed s.offered.length cells
      result.2.2 := by
  obtain ⟨next, hreads⟩ := (reading_iff.mp hreading).2
  have hstores : ∃ cells r, (psockReadtoCells 0x0A s.app.inputbuffer
    s.app.psock s.uip).Returns (cells, r) ∧
      CallStores s.app.psock.resumed s.offered.length cells r.2.2 :=
    psockReadtoCells_stores s.app.inputbuffer (h.waits hreads.line_nil)
  obtain ⟨cells, result', htraced, hcall⟩ := hstores
  obtain rfl := (psockReadto_iff_cells.mpr ⟨cells, htraced⟩).unique hread
  refine ⟨cells, ?_, hcall⟩
  rw [IrcSystem.storedCells, if_pos hreading, Comp.returns_map]
  exact ⟨_, htraced, rfl⟩

theorem BufferOk.read (h : BufferOk s) (hreading : s.Reading) (hfits : InputFits s)
    {result : PtResult × List UInt8 × Psock}
    (hread : (psockReadto 0x0A s.app.inputbuffer s.app.psock s.uip).Returns result)
    (hpsock : t.app.psock = result.2.2) : BufferOk t := by
  obtain ⟨next, hreads⟩ := (reading_iff.mp hreading).2
  obtain ⟨cells, -, hcall⟩ := h.readto hreading hread
  obtain ⟨hcursor, hbufsize⟩ := h.resumed hreads.line_nil
  rw [← hpsock] at hcall
  exact ⟨hcall.stores.bufsize.trans hbufsize, fun _ => hcall.waits,
    fun _ _ => (hcursor.fits hcall.stores (hfits hreading)).1⟩

theorem BufferOk.thread (h : BufferOk s) (hturn : s.turn = .thread) (hthread : ThreadTurn s t)
    (hfits : InputFits s) : BufferOk t := by
  cases hthread with
  | sends go psock uip hsends hreading _ _ hpsock =>
    cases go with
    | false =>
      exact ⟨hreading.bufsize.trans h.bufsize, fun hline => absurd hline hsends.line_ne_nil,
        fun hline => absurd hline hsends.line_ne_nil⟩
    | true =>
      refine ⟨hreading.bufsize.trans h.bufsize, fun _ hwait => ?_, fun _ hcursor => ?_⟩
      · cases hpsock.1.symm.trans hwait
      · rcases hcursor with hwait | hparse
        · cases hpsock.1.symm.trans hwait
        · rcases hsends.next_cases with rfl | rfl | rfl <;> cases hparse
  | waits inputbuffer psock hreads hread =>
    exact h.read (reading_iff.mpr ⟨hturn, _, hreads⟩) hfits hread rfl
  | reads result inputbuffer psock hreads _ hread =>
    exact h.read (reading_iff.mpr ⟨hturn, _, hreads⟩) hfits hread rfl

theorem BufferOk.step (h : BufferOk r.sys) (hstep : ReaderStep r e u) (hfits : InputFits r.sys) :
    BufferOk u.sys := by
  cases hstep with
  | parse m inputbuffer _ hpt _ =>
    have hline : r.sys.app.pt.line = [] := hpt ▸ rfl
    exact ⟨h.bufsize, fun _ => h.waits hline, fun _ _ => h.cursor hline (.inr hpt)⟩
  | step _ t hparse _ hstep =>
    by_cases hturn : r.sys.turn = .thread
    · exact h.thread hturn (threadTurn hturn (fun hpt => hparse ⟨hturn, hpt⟩) hstep) hfits
    · have hdel := step_delivers hturn hstep
      refine ⟨?_, ?_, ?_⟩ <;> rw [hdel.psock]
      · exact h.bufsize
      · rw [hdel.pt]
        exact h.waits
      · rw [hdel.pt]
        exact h.cursor

-- ---------------------------------------------------------------------------
-- Runs
-- ---------------------------------------------------------------------------

theorem ReaderStep.readto (hstep : ReaderStep r e u) (hreading : r.sys.Reading) :
    ∃ result, (psockReadto 0x0A r.sys.app.inputbuffer r.sys.app.psock r.sys.uip).Returns
      result := by
  obtain ⟨hturn, next, hreads⟩ := reading_iff.mp hreading
  cases hstep with
  | parse m inputbuffer _ hpt _ => exact absurd hpt hreads.ne_parse
  | step _ t hparse _ hstep =>
    cases threadTurn hturn (fun hpt => hparse ⟨hturn, hpt⟩) hstep with
    | sends _ _ _ hsends => exact absurd hreads hsends.not_reads
    | waits inputbuffer psock _ hread => exact ⟨_, hread⟩
    | reads result inputbuffer psock _ _ hread => exact ⟨_, hread⟩

theorem ReaderStep.line_cases (hstep : ReaderStep r e u) {taken : TakenLine}
    (hline : taken ∈ u.lines) (hparse : taken.statement = .parse) :
    taken ∈ r.lines ∨ r.sys.app.pt = .parse ∧ taken.length = psockDatalen r.sys.app.psock := by
  cases hstep with
  | parse m inputbuffer _ hpt _ =>
    rcases List.mem_append.mp hline with hold | hnew
    · exact .inl hold
    · rw [List.mem_singleton.mp hnew]
      exact .inr ⟨hpt, rfl⟩
  | step _ t _ _ _ =>
    refine .inl ((List.mem_append.mp hline).resolve_right fun hread => ?_)
    rw [IrcReader.read] at hread
    split at hread
    · rename_i hlogin
      rw [List.mem_singleton.mp hread] at hparse
      rcases hlogin.1 with hpt | hpt <;> cases hpt.symm.trans hparse
    · cases hread

theorem ReaderStep.lines_prefix (hstep : ReaderStep r e u) : r.lines <+: u.lines := by
  cases hstep with
  | parse => exact List.prefix_append ..
  | step => exact List.prefix_append ..

theorem run_stores {es : List IrcEvent} (hrun : Run ReaderStep r es u) (cells : List Nat) :
    ∃ cells', Run StoresStep ⟨r, cells⟩ es ⟨u, cells'⟩ := by
  induction hrun with
  | nil => exact ⟨cells, .nil⟩
  | @snoc es t e u _ hstep ih =>
    obtain ⟨before, hbefore⟩ := ih
    have hstored : ∃ stored, t.sys.storedCells.Returns stored := by
      by_cases hreading : t.sys.Reading
      · obtain ⟨result, hread⟩ := hstep.readto hreading
        obtain ⟨stored, htraced⟩ := psockReadto_iff_cells.mp hread
        refine ⟨stored, ?_⟩
        rw [IrcSystem.storedCells, if_pos hreading, Comp.returns_map]
        exact ⟨_, htraced, rfl⟩
      · refine ⟨[], ?_⟩
        rw [IrcSystem.storedCells, if_neg hreading]
        exact Comp.returns_pure.mpr rfl
    obtain ⟨stored, hstored⟩ := hstored
    exact ⟨before ++ stored, hbefore.snoc ⟨hstep, stored, hstored, rfl⟩⟩

structure StoresInv (s : IrcStores) : Prop where
  inside : s.StaysInside
  buffer : BufferOk s.reader.sys

end

section
variable {s t : IrcStores} {e : IrcEvent}

theorem StoresStep.cells_cases (h : StoresStep s e t) (hbuffer : BufferOk s.reader.sys) :
    ∃ cells, t.cells = s.cells ++ cells ∧
      (¬ s.reader.sys.Reading ∧ cells = [] ∨
        s.reader.sys.Reading ∧ CursorOk s.reader.sys.app.psock.resumed ∧
          ∃ q, StoresUpTo s.reader.sys.app.psock.resumed s.reader.sys.offered.length cells q) := by
  obtain ⟨hstep, cells, hcells, ht⟩ := h
  refine ⟨cells, ht, ?_⟩
  by_cases hreading : s.reader.sys.Reading
  · obtain ⟨next, hreads⟩ := (reading_iff.mp hreading).2
    obtain ⟨result, hread⟩ := hstep.readto hreading
    obtain ⟨cells', hcells', hcall⟩ := hbuffer.readto hreading hread
    obtain rfl := hcells.unique hcells'
    exact .inr ⟨hreading, (hbuffer.resumed hreads.line_nil).1, _, hcall.stores⟩
  · rw [IrcSystem.storedCells, if_neg hreading] at hcells
    exact .inl ⟨hreading, (Comp.returns_pure.mp hcells).symm⟩

theorem StoresInv.step (h : StoresInv s) (hstep : StoresStep s e t)
    (hfits : InputFits s.reader.sys) : StoresInv t := by
  obtain ⟨cells, ht, hcases⟩ := hstep.cells_cases h.buffer
  refine ⟨⟨fun cell hcell => ?_, fun line hline hparse => ?_⟩, h.buffer.step hstep.1 hfits⟩
  · rw [ht, List.mem_append] at hcell
    rcases hcell with hold | hnew
    · exact h.inside.cells cell hold
    · rcases hcases with ⟨-, rfl⟩ | ⟨hreading, hcursor, q, hstores⟩
      · cases hnew
      · exact (hcursor.fits hstores (hfits hreading)).2 cell hnew
  · rcases hstep.1.line_cases hline hparse with hold | ⟨hpt, hlength⟩
    · exact h.inside.lines line hold hparse
    · have hcursor := h.buffer.cursor (hpt ▸ rfl) (.inr hpt)
      have hsize := hcursor.size
      have hinside := hcursor.inside
      rw [hlength, psockDatalen, h.buffer.bufsize]
      omega

theorem StoresStep.overflows (h : StoresStep s e t) (hbuffer : BufferOk s.reader.sys)
    (hlong : ¬ InputFits s.reader.sys) : ¬ t.StaysInside := by
  intro hinside
  obtain ⟨hreading, hgt⟩ := Classical.not_imp.mp hlong
  obtain ⟨cells, ht, hcases⟩ := h.cells_cases hbuffer
  rcases hcases with ⟨hno, -⟩ | ⟨-, hcursor, q, hstores⟩
  · exact hno hreading
  · have hmem := hcursor.overflows hstores (Nat.lt_of_not_le hgt)
    exact Nat.lt_irrefl _ (hinside.cells _ (ht ▸ List.mem_append_right _ hmem))

theorem StoresStep.staysInside (h : StoresStep s e t) (hinside : t.StaysInside) :
    s.StaysInside := by
  obtain ⟨hstep, cells, -, ht⟩ := h
  exact ⟨fun cell hcell => hinside.cells cell (ht ▸ List.mem_append_left _ hcell),
    fun line hline => hinside.lines line (hstep.lines_prefix.subset hline)⟩

end

/-- What a run stores is inside `inputbuffer` exactly if each line fits there
whenever `psock_readto` goes on with it. -/
theorem stores_inside_iff {app : IrcState} {m : Messages} {appdata : Buffer UInt8 UIP_APPDATA_SIZE}
    {es : List IrcEvent} {r : IrcReader}
    (hrun : Run ReaderStep ⟨ircConnect app m appdata, [], []⟩ es r) :
    (∃ cells, Run StoresStep ⟨⟨ircConnect app m appdata, [], []⟩, []⟩ es ⟨r, cells⟩) ∧
      ∀ cells, Run StoresStep ⟨⟨ircConnect app m appdata, [], []⟩, []⟩ es ⟨r, cells⟩ →
        (IrcStores.StaysInside ⟨r, cells⟩ ↔
          Run (Run.Guarded (fun s _ => InputFits s.reader.sys) StoresStep)
            ⟨⟨ircConnect app m appdata, [], []⟩, []⟩ es ⟨r, cells⟩) := by
  refine ⟨run_stores hrun [], fun cells hstores => ?_⟩
  have hstart : StoresInv ⟨⟨ircConnect app m appdata, [], []⟩, []⟩ :=
    ⟨⟨by simp, by simp⟩, bufferOk_connect app m appdata⟩
  exact Run.iff_guarded (fun _ _ _ hstep => hstep.staysInside) hstart (fun _ h => h.inside)
    (fun _ _ _ h hstep hfits => h.step hstep hfits)
    (fun _ _ _ h hstep hlong => hstep.overflows h.buffer hlong) hstores

theorem Place.inputFits {s : IrcSystem} {rest : List UInt8} (h : Place s rest)
    (hfits : Fits 0x0A SIZEOF_INPUTBUFFER rest) : InputFits s := by
  intro hreading
  obtain ⟨hturn, next, hreads⟩ := reading_iff.mp hreading
  have hlength := hfits.length_upTo
  cases h with
  | begins _ _ hstart =>
    rw [Psock.resumed, hstart, Nat.zero_add]
    exact hlength
  | resumes _ _ hwait hreadlen htext hreading =>
    rw [upTo_append_of_not_mem htext, List.length_append] at hlength
    rw [Psock.resumed, hwait, IrcSystem.offered, unread_nil hreadlen, List.nil_append]
    exact hreading.filled.ptr ▸ hlength
  | connecting h' => exact absurd hturn h'
  | sent h' => exact absurd hturn h'
  | waits h' => exact absurd hturn h'
  | sends _ hsends => exact absurd hreads hsends.not_reads
  | parses _ hparse => exact absurd hparse hreads.ne_parse

/-- With a server whose lines fit, what a run stores is inside `inputbuffer` as long
as the data stays in `uip_appdata` until it is read. -/
theorem stores_inside_of_lines {app : IrcState} {m : Messages}
    {appdata : Buffer UInt8 UIP_APPDATA_SIZE}
    {es : List IrcEvent} {stream : List (List UInt8)} {s : IrcStores}
    (happ : app.inputbuffer.length = SIZEOF_INPUTBUFFER)
    (hstream : ∀ line ∈ stream, IsLine 0x0A line ∧ line.length ≤ SIZEOF_INPUTBUFFER)
    (hrun : Run (Run.Guarded (fun s e => DataKept s.reader.sys e) StoresStep)
      ⟨⟨ircConnect app m appdata, [], []⟩, []⟩ es s)
        (hreceived : s.reader.received <+: stream.flatten) :
    s.StaysInside := by
  have hstart : StoresInv ⟨⟨ircConnect app m appdata, [], []⟩, []⟩ :=
    ⟨⟨by simp, by simp⟩, bufferOk_connect app m appdata⟩
  have hfits : Fits 0x0A SIZEOF_INPUTBUFFER s.reader.received :=
    fits_of_prefix hstream (by decide) hreceived
  have hkeeps : ReaderInv s.reader ∧ StoresInv s := by
    refine hrun.invariant (fun _ s => Fits 0x0A SIZEOF_INPUTBUFFER s.reader.received →
      ReaderInv s.reader ∧ StoresInv s)
      (fun _ => ⟨readerInv_connect m appdata happ, hstart⟩) ?_ hfits
    intro _ t e u _ ih hstep hfits
    obtain ⟨more, hmore⟩ := hstep.2.1.received
    have hbefore : Fits 0x0A SIZEOF_INPUTBUFFER t.reader.received :=
      Fits.of_append (hmore.symm ▸ hfits)
    obtain ⟨hreader, hstores⟩ := ih hbefore
    obtain ⟨rest, hrest, hplace⟩ := hreader.place
    have hroom : InputFits t.reader.sys := hplace.inputFits (hreader.fits hbefore hrest)
    exact ⟨hreader.step hstep.2.1 hstep.1 hfits, hstores.step hstep.2 hroom⟩
  exact hkeeps.2.inside

def inputEvents (line : List UInt8) : List IrcEvent := [
  .synack [] none, .thread, .sendThread,
  .segment true 0 [], .thread, .thread, .sendThread,
  .segment true 0 line, .thread, .thread]

set_option maxRecDepth 4000 in
theorem stores_notice :
    ∃ s, Run (Run.Guarded (fun s _ => InputFits s.reader.sys) StoresStep)
        ⟨⟨ircConnect .zero .zero (.fill _ 0), [], []⟩, []⟩ (inputEvents (ascii ":a 001\r\n")) s ∧
      Run ReaderStep ⟨ircConnect .zero .zero (.fill _ 0), [], []⟩
        (inputEvents (ascii ":a 001\r\n")) s.reader ∧
      s.cells.length = 8 :=
  ⟨_, Run.guarded_of_foldlM (storesStep_of_stepRun (n := 4)) rfl,
    (Run.of_foldlM (f := IrcReader.stepRun 4) rfl).mono readerStep_of_stepRun, rfl⟩

theorem stores_inside_notice :
    ∃ s, Run StoresStep ⟨⟨ircConnect .zero .zero (.fill _ 0), [], []⟩, []⟩
      (inputEvents (ascii ":a 001\r\n")) s ∧
      s.cells.length = 8 ∧ s.StaysInside := by
  obtain ⟨⟨r, cells⟩, hguarded, hrun, hlength⟩ := stores_notice
  have hstores := Run.of_guarded hguarded
  exact ⟨⟨r, cells⟩, hstores, hlength, ((stores_inside_iff hrun).2 cells hstores).mpr hguarded⟩

set_option maxRecDepth 8000 in
/-- A line of 130 bytes. -/
theorem long_line_overflows :
    ∃ s, Run StoresStep ⟨⟨ircConnect .zero .zero (.fill _ 0), [], []⟩, []⟩
        (inputEvents (List.replicate 129 0x41 ++ [0x0A])) s ∧ 128 ∈ s.cells ∧ ¬ s.StaysInside := by
  refine ⟨_, (Run.of_foldlM (f := IrcStores.stepRun 4) rfl).mono
    storesStep_of_stepRun, by decide, fun h => ?_⟩
  exact absurd (h.cells 128 (by decide)) (by decide)

end FxIP
