import FxIP.Lib.Lines
import FxIP.Psock

/-!
# Reading a line

`psock_readto` moves data from two places into the line buffer: what it left of
a segment before, and the segment of the current call unless it was taken. It
ends with one line in the buffer and the data behind it left, or waits with all
of the data in the buffer.
-/

namespace FxIP

open Lines

variable {c : UInt8} {memory text x y data : List UInt8} {size : Nat} {buf : PsockBuf}
    {p : Psock} {uip : Uip}

-- ---------------------------------------------------------------------------
-- The line buffer
-- ---------------------------------------------------------------------------

/-- The text is in the memory, and `buf` is behind it. -/
structure Filled (memory : List UInt8) (size : Nat) (buf : PsockBuf) (text : List UInt8) :
    Prop where
  ptr : buf.ptr = text.length
  left : buf.left + text.length = size
  take : memory.take text.length = text

theorem filled_nil (memory : List UInt8) (size : Nat) : Filled memory size ⟨0, size⟩ [] :=
  ⟨rfl, rfl, rfl⟩

theorem Filled.push (h : Filled memory size buf text) (c : UInt8)
    (hroom : text.length < memory.length) (hleft : 0 < buf.left) :
    Filled (memory.set buf.ptr c) size ⟨buf.ptr + 1, buf.left - 1⟩ (text ++ [c]) where
  ptr := by
    rw [List.length_append, h.ptr]
    rfl
  left := by
    have := h.left
    rw [List.length_append, List.length_singleton]
    dsimp only
    omega
  take := by
    rw [List.length_append, List.length_singleton, h.ptr, List.take_succ_eq_append_getElem
      (by simpa using hroom), List.take_set_of_le (Nat.le_refl _), h.take, List.getElem_set_self]

theorem bufBufto_append (h : Filled memory size buf text) (hx : c ∉ x)
    (hroom : text.length + x.length ≤ memory.length) (hsize : memory.length ≤ size)
    (data : List UInt8) :
    ∃ memory' buf', bufBufto c memory buf (x ++ data) = bufBufto c memory' buf' data ∧
      memory'.length = memory.length ∧ Filled memory' size buf' (text ++ x) := by
  induction x generalizing memory buf text with
  | nil => exact ⟨memory, buf, rfl, rfl, by simpa using h⟩
  | cons b x ih =>
    rw [List.mem_cons, not_or] at hx
    rw [List.length_cons] at hroom
    have hleft : 0 < buf.left := by
      have := h.left
      omega
    obtain ⟨memory', buf', hread, hlength, hfilled⟩ := ih (h.push b (by omega) hleft) hx.2
      (by simp; omega) (by simpa using hsize)
    refine ⟨memory', buf', ?_, by simpa using hlength, by simpa using hfilled⟩
    rw [List.cons_append, bufBufto, if_pos hleft, if_neg (Ne.symm hx.1)]
    exact hread

theorem bufBufto_line (h : Filled memory size buf text) (hx : c ∉ x)
    (hroom : text.length + x.length < memory.length) (hsize : memory.length ≤ size) :
    ∃ memory' buf', bufBufto c memory buf (x ++ c :: y) = (⟨true, false⟩, memory', buf', y) ∧
      memory'.length = memory.length ∧ Filled memory' size buf' (text ++ x ++ [c]) := by
  obtain ⟨memory', buf', hread, hlength, hfilled⟩ :=
    bufBufto_append h hx (Nat.le_of_lt hroom) hsize (c :: y)
  have hroom' : (text ++ x).length < memory'.length := by
    rw [List.length_append, hlength]
    exact hroom
  have hleft : 0 < buf'.left := by
    have := hfilled.left
    omega
  refine ⟨memory'.set buf'.ptr c, ⟨buf'.ptr + 1, buf'.left - 1⟩, ?_, by simpa using hlength,
    hfilled.push c hroom' hleft⟩
  rw [hread, bufBufto, if_pos hleft, if_pos rfl]

theorem bufBufto_text (h : Filled memory size buf text) (hx : c ∉ x)
    (hroom : text.length + x.length ≤ memory.length) (hsize : memory.length ≤ size) :
    ∃ memory' buf', bufBufto c memory buf x = (⟨false, false⟩, memory', buf', []) ∧
      memory'.length = memory.length ∧ Filled memory' size buf' (text ++ x) := by
  obtain ⟨memory', buf', hread, hfilled⟩ := bufBufto_append h hx hroom hsize []
  rw [List.append_nil] at hread
  exact ⟨memory', buf', hread, hfilled⟩

-- ---------------------------------------------------------------------------
-- The data at hand
-- ---------------------------------------------------------------------------

/-- What is left of the segment that the socket reads. -/
def Psock.unread (p : Psock) (uip : Uip) : List UInt8 :=
  (uip.appdata.cells.drop p.readptr).take p.readlen

def Psock.fresh (p : Psock) (uip : Uip) : List UInt8 :=
  if p.state ≠ .read ∧ uip.flags.newdata then uip.appdata.cells.take uip.len else []

/-- The data of the socket and of uIP is inside `uip_appdata`. -/
structure InAppdata (p : Psock) (uip : Uip) : Prop where
  unread : p.readlen ≠ 0 → p.readptr + p.readlen ≤ UIP_APPDATA_SIZE
  fresh : uip.len ≤ UIP_APPDATA_SIZE

theorem InAppdata.length_unread (h : InAppdata p uip) : (p.unread uip).length = p.readlen := by
  have := h.unread
  rw [Psock.unread, List.length_take, List.length_drop, uip.appdata.size]
  omega

theorem unread_nil (h : p.readlen = 0) : p.unread uip = [] := by
  rw [Psock.unread, h, List.take_zero]

theorem fresh_nil (h : ¬ (p.state ≠ .read ∧ uip.flags.newdata)) : p.fresh uip = [] := if_neg h

/-- `psock_readto` with a part of a line in the buffer. -/
structure Reads (memory : List UInt8) (p : Psock) (uip : Uip) (text : List UInt8) : Prop where
  filled : Filled memory p.bufsize p.buf text
  size : memory.length ≤ p.bufsize
  inAppdata : InAppdata p uip

-- ---------------------------------------------------------------------------
-- One round
-- ---------------------------------------------------------------------------

theorem psockReadtoBuf_line (h : Reads memory p uip text) (hdata : p.unread uip = x ++ c :: y)
    (hx : c ∉ x) (hroom : text.length + x.length < memory.length) :
    ∃ memory' p', psockReadtoBuf c memory p uip = .inr (.ended, memory', p') ∧
      memory'.length = memory.length ∧ p'.bufsize = p.bufsize ∧ Reads memory' p'
        uip (text ++ x ++ [c]) ∧
      p'.psockpt = .start ∧ p'.unread uip = y ∧ p'.fresh uip = p.fresh uip := by
  obtain ⟨memory', buf', hread, hlength, hfilled⟩ := bufBufto_line (y := y) h.filled hx hroom h.size
  have hreadlen : p.readlen = x.length + 1 + y.length := by
    rw [← h.inAppdata.length_unread, hdata]
    simp
    omega
  have hcells : (uip.appdata.cells.drop p.readptr).take p.readlen = x ++ c :: y := hdata
  have hdatalen : p.bufsize - buf'.left ≠ 0 := by
    have := hfilled.left
    simp at this
    omega
  refine ⟨memory', {
    p with buf := buf', readptr := p.readptr +
      (p.readlen - y.length), readlen := y.length, psockpt := .start },
    ?_, hlength, rfl, ⟨hfilled, hlength ▸ h.size, ?_⟩, rfl, ?_, rfl⟩
  · simp only [psockReadtoBuf, hcells, hread, psockDatalen]
    simp [hdatalen]
  · have := h.inAppdata.unread
    exact ⟨by dsimp only; omega, h.inAppdata.fresh⟩
  · have hdrop := congrArg (List.drop (x.length + 1)) hcells
    rw [List.drop_take, List.drop_drop] at hdrop
    have hskip : p.readlen - y.length = x.length + 1 := by omega
    have hrest : p.readlen - (x.length + 1) = y.length := by omega
    rw [hrest] at hdrop
    simp only [Psock.unread, hskip]
    rw [hdrop]
    simp

theorem psockReadtoBuf_text (h : Reads memory p uip text) (hx : c ∉ p.unread uip)
    (hroom : text.length + (p.unread uip).length ≤ memory.length) :
    ∃ memory' p', psockReadtoBuf c memory p uip = .inl (memory', p') ∧
      memory'.length = memory.length ∧ p'.bufsize = p.bufsize ∧
        Reads memory' p' uip (text ++ p.unread uip) ∧
      p'.readlen = 0 ∧ p'.state = p.state := by
  obtain ⟨memory', buf', hread, hlength, hfilled⟩ := bufBufto_text h.filled hx hroom h.size
  refine ⟨memory', { p with buf := buf', readptr := p.readptr + p.readlen, readlen := 0 }, ?_,
    hlength, rfl, ⟨hfilled, hlength ▸ h.size, ?_⟩, rfl, rfl⟩
  · have hcells : bufBufto c memory p.buf ((uip.appdata.cells.drop p.readptr).take p.readlen) =
        (⟨false, false⟩, memory', buf', []) := hread
    simp [psockReadtoBuf, hcells]
  · have := h.inAppdata.unread
    exact ⟨by dsimp only; omega, h.inAppdata.fresh⟩

theorem psockReadtoWait_blocked (h : Reads memory p uip text) (hreadlen : p.readlen = 0)
    (hnone : ¬ (p.state ≠ .read ∧ uip.flags.newdata)) :
    ∃ p', psockReadtoWait c memory p uip = .inr (.waiting, memory, p') ∧ p'.bufsize = p.bufsize ∧
      Reads memory p' uip text ∧ p'.psockpt = .wait ∧ p'.readlen = 0 ∧ p'.state ≠ .read := by
  have hpos : ¬ p.readlen > 0 := by omega
  by_cases hstate : p.state = .read
  · refine ⟨{ p with state := .blockedNewdata, psockpt := .wait }, ?_, rfl,
      ⟨h.filled, h.size, h.inAppdata.unread, h.inAppdata.fresh⟩, rfl, hreadlen,
        PsockState.noConfusion⟩
    simp [psockReadtoWait, psockNewdata, hpos, hstate]
  · refine ⟨{ p with psockpt := .wait }, ?_, rfl,
      ⟨h.filled, h.size, h.inAppdata.unread, h.inAppdata.fresh⟩, rfl, hreadlen, hstate⟩
    have hnewdata : uip.flags.newdata = false := by simpa [hstate] using hnone
    simp [psockReadtoWait, psockNewdata, hpos, hstate, hnewdata]

theorem psockReadtoWait_fresh (h : Reads memory p uip text) (hreadlen : p.readlen = 0)
    (hnew : p.state ≠ .read ∧ uip.flags.newdata) :
    ∃ p', psockReadtoWait c memory p uip = psockReadtoBuf c memory p' uip ∧ p'.bufsize = p.bufsize ∧
      Reads memory p' uip text ∧ p'.unread uip = p.fresh uip ∧ p'.fresh uip =
        [] ∧ p'.state = .read := by
  have hpos : ¬ p.readlen > 0 := by omega
  refine ⟨{ p with state := .read, readptr := 0, readlen := uip.len }, ?_, rfl,
    ⟨h.filled, h.size, ?_, h.inAppdata.fresh⟩, ?_, fresh_nil (by simp), rfl⟩
  · simp [psockReadtoWait, psockNewdata, hpos, hnew.1, hnew.2]
  · have := h.inAppdata.fresh
    dsimp only
    omega
  · rw [Psock.fresh, if_pos hnew]
    rfl

-- ---------------------------------------------------------------------------
-- All rounds
-- ---------------------------------------------------------------------------

/-- How `psock_readto` returns, from a text in the buffer and the data at hand. -/
inductive ReadtoResult (c : UInt8) (uip : Uip) (text data : List UInt8) :
    PtResult × List UInt8 × Psock → Prop
  | ended (line rest : List UInt8) (memory : List UInt8) (p : Psock) : text ++ data = line ++ rest →
      IsLine c line → Reads memory p uip line → p.psockpt = .start →
        p.unread uip ++ p.fresh uip = rest →
      ReadtoResult c uip text data (.ended, memory, p)
  | waiting (memory : List UInt8) (p : Psock) : c ∉ text ++ data →
      Reads memory p uip (text ++ data) →
      p.psockpt = .wait → p.readlen = 0 → p.state ≠ .read →
      ReadtoResult c uip text data (.waiting, memory, p)

theorem ReadtoResult.append {r : PtResult × List UInt8 × Psock}
    (h : ReadtoResult c uip (text ++ x) y r) :
    ReadtoResult c uip text (x ++ y) r := by
  cases h with
  | ended line rest memory p hdata hline hreads hpt hrest =>
    exact .ended line rest memory p (by rw [← List.append_assoc, hdata]) hline hreads hpt hrest
  | waiting memory p hc hreads hpt hreadlen hstate =>
    rw [List.append_assoc] at hc hreads
    exact .waiting memory p hc hreads hpt hreadlen hstate

structure SameSize (memory : List UInt8) (p : Psock) (memory' : List UInt8) (p' : Psock) :
    Prop where
  memory : memory'.length = memory.length
  bufsize : p'.bufsize = p.bufsize

theorem readtoRound_unread (h : Reads memory p uip text) (hc : c ∉ text)
    (hfits : Fits c memory.length (text ++ (p.unread uip ++ y))) :
    (p.fresh uip = y → ∃ r, psockReadtoBuf c memory p uip = .inr r ∧
      ReadtoResult c uip text (p.unread uip ++ y) r ∧ SameSize memory p r.2.1 r.2.2 ∧
        r.2.2.fresh uip = y) ∨
    ∃ memory' p', psockReadtoBuf c memory p uip = .inl (memory', p') ∧
      SameSize memory p memory' p' ∧
      Reads memory' p' uip (text ++ p.unread uip) ∧ c ∉ text ++ p.unread uip ∧ p'.readlen = 0 ∧
      p'.state = p.state := by
  by_cases hmarker : c ∈ p.unread uip
  · obtain ⟨x, y', hdata, hx⟩ := List.eq_append_cons_of_mem hmarker
    have hline : c ∉ text ++ x := by simp [hc, hx]
    have hroom : text.length + x.length < memory.length := by
      rw [hdata, List.append_assoc, List.cons_append, ← List.append_assoc] at hfits
      have hlength := hfits.length_line hline
      rwa [List.length_append] at hlength
    obtain ⟨memory', p', hbuf, hlength, hbufsize, hreads, hpt, hunread, hfresh⟩ :=
      psockReadtoBuf_line h hdata hx hroom
    refine .inl fun hy => ⟨_, hbuf, ?_, ⟨hlength, hbufsize⟩, hfresh.trans hy⟩
    refine .ended (text ++ x ++ [c]) (y' ++ y) memory' p' ?_ ⟨text ++ x, rfl, hline⟩ hreads hpt ?_
    · rw [hdata]
      simp
    · rw [hunread, hfresh, hy]
  · have htext : c ∉ text ++ p.unread uip := by simp [hc, hmarker]
    have hroom : text.length + (p.unread uip).length ≤ memory.length := by
      rw [← List.append_assoc] at hfits
      have hlength := hfits.of_append.length_text htext
      rw [List.length_append] at hlength
      exact Nat.le_of_lt hlength
    obtain ⟨memory', p', hbuf, hlength, hbufsize, hreads, hreadlen, hstate⟩ :=
      psockReadtoBuf_text h hmarker hroom
    exact .inr ⟨memory', p', hbuf, ⟨hlength, hbufsize⟩, hreads, htext, hreadlen, hstate⟩

theorem readtoLoop_blocked (h : Reads memory p uip text) (hc : c ∉ text) (hreadlen : p.readlen = 0)
    (hnone : ¬ (p.state ≠ .read ∧ uip.flags.newdata)) :
    ∃ r, (psockReadtoLoop c uip (memory, p)).Returns r ∧ ReadtoResult c uip text [] r ∧
      SameSize memory p r.2.1 r.2.2 ∧ r.1 = .waiting := by
  obtain ⟨p', hwait, hbufsize, hreads, hpt, hreadlen', hstate⟩ :=
    psockReadtoWait_blocked (c := c) h hreadlen hnone
  rw [← List.append_nil text] at hc hreads
  refine ⟨_, Comp.Returns.loop_exit ?_, .waiting memory p' hc hreads hpt hreadlen' hstate,
    ⟨rfl, hbufsize⟩, rfl⟩
  rw [Comp.returns_pure, psockReadtoRound, if_pos hreadlen, hwait]

theorem readtoLoop_fresh (h : Reads memory p uip text) (hc : c ∉ text) (hreadlen : p.readlen = 0)
    (hfits : Fits c memory.length (text ++ p.fresh uip)) :
    ∃ r, (psockReadtoLoop c uip (memory, p)).Returns r ∧ ReadtoResult c uip text (p.fresh uip) r ∧
      SameSize memory p r.2.1 r.2.2 ∧ (r.1 = .ended → r.2.2.fresh uip = []) := by
  by_cases hnew : p.state ≠ .read ∧ uip.flags.newdata
  · obtain ⟨p₁, hwait, hbufsize, hreads, hunread, hfresh, hstate⟩ :=
      psockReadtoWait_fresh (c := c) h hreadlen hnew
    have hround : psockReadtoRound c uip (memory, p) = psockReadtoBuf c memory p₁ uip := by
      rw [psockReadtoRound, if_pos hreadlen, hwait]
    rw [← hunread, ← List.append_nil (p₁.unread uip)] at hfits ⊢
    rcases readtoRound_unread hreads hc hfits with
      hended | ⟨memory', p', hbuf, hsame, hreads', hc', hreadlen', hstate'⟩
    · obtain ⟨r, hbuf, hresult, hsame, hrest⟩ := hended hfresh
      exact ⟨r, .loop_exit (Comp.returns_pure.mpr (hround.trans hbuf)), hresult,
        ⟨hsame.memory, hsame.bufsize.trans hbufsize⟩, fun _ => hrest⟩
    · obtain ⟨r, hloop, hresult, hsame', hwaits⟩ :=
        readtoLoop_blocked hreads' hc' hreadlen' (by simp [hstate', hstate])
      exact ⟨r, .loop_again (Comp.returns_pure.mpr (hround.trans hbuf)) hloop, hresult.append,
        ⟨hsame'.memory.trans hsame.memory, hsame'.bufsize.trans (hsame.bufsize.trans hbufsize)⟩,
        fun hended => by cases hwaits.symm.trans hended⟩
  · obtain ⟨r, hloop, hresult, hsame, hwaits⟩ := readtoLoop_blocked h hc hreadlen hnew
    rw [fresh_nil hnew]
    exact ⟨r, hloop, hresult, hsame, fun hended => by cases hwaits.symm.trans hended⟩

theorem readtoLoop (h : Reads memory p uip text) (hc : c ∉ text)
    (hfits : Fits c memory.length (text ++ (p.unread uip ++ p.fresh uip))) :
    ∃ r, (psockReadtoLoop c uip (memory, p)).Returns r ∧ ReadtoResult c uip text
      (p.unread uip ++ p.fresh uip) r ∧
      SameSize memory p r.2.1 r.2.2 ∧ (p.readlen = 0 → r.1 = .ended → r.2.2.fresh uip = []) := by
  by_cases hreadlen : p.readlen = 0
  · rw [unread_nil hreadlen, List.nil_append] at hfits ⊢
    obtain ⟨r, hloop, hresult, hsame, hrest⟩ := readtoLoop_fresh h hc hreadlen hfits
    exact ⟨r, hloop, hresult, hsame, fun _ => hrest⟩
  · have hround : psockReadtoRound c uip (memory, p) = psockReadtoBuf c memory p uip := by
      rw [psockReadtoRound, if_neg hreadlen]
    rcases readtoRound_unread h hc hfits with
      hended | ⟨memory', p', hbuf, hsame, hreads', hc', hreadlen', hstate'⟩
    · obtain ⟨r, hbuf, hresult, hsame, -⟩ := hended rfl
      exact ⟨r, .loop_exit (Comp.returns_pure.mpr (hround.trans hbuf)), hresult, hsame, fun h0 =>
        absurd h0 hreadlen⟩
    · have hfresh : p'.fresh uip = p.fresh uip := by rw [Psock.fresh, Psock.fresh, hstate']
      rw [← List.append_assoc, ← hfresh, ← hsame.memory] at hfits
      obtain ⟨r, hloop, hresult, hsame', -⟩ := readtoLoop_fresh hreads' hc' hreadlen' hfits
      rw [hfresh] at hresult
      exact ⟨r, .loop_again (Comp.returns_pure.mpr (hround.trans hbuf)) hloop, hresult.append,
        ⟨hsame'.memory.trans hsame.memory, hsame'.bufsize.trans hsame.bufsize⟩, fun h0 =>
          absurd h0 hreadlen⟩

-- ---------------------------------------------------------------------------
-- psock_readto
-- ---------------------------------------------------------------------------

theorem psockReadto_start (hpt : p.psockpt = .start) (hsize : memory.length ≤ p.bufsize)
    (hin : InAppdata p uip) (hfits : Fits c memory.length (p.unread uip ++ p.fresh uip)) :
    ∃ r, (psockReadto c memory p uip).Returns r ∧
      ReadtoResult c uip [] (p.unread uip ++ p.fresh uip) r ∧
      SameSize memory p r.2.1 r.2.2 ∧ (p.readlen = 0 → r.1 = .ended → r.2.2.fresh uip = []) := by
  have hreads : Reads memory { p with buf := ⟨0, p.bufsize⟩ } uip [] :=
    ⟨filled_nil .., hsize, hin.unread, hin.fresh⟩
  obtain ⟨r, hloop, hresult, hsame, hrest⟩ := readtoLoop (c := c) hreads List.not_mem_nil hfits
  refine ⟨r, ?_, hresult, ⟨hsame.memory, hsame.bufsize⟩, hrest⟩
  unfold psockReadto
  split
  · exact hloop
  · rename_i hwait
    cases hpt.symm.trans hwait

theorem psockReadto_wait (h : Reads memory p uip text) (hc : c ∉ text) (hpt : p.psockpt = .wait)
    (hreadlen : p.readlen = 0) (hfits : Fits c memory.length (text ++ p.fresh uip)) :
    ∃ r, (psockReadto c memory p uip).Returns r ∧ ReadtoResult c uip text (p.fresh uip) r ∧
      SameSize memory p r.2.1 r.2.2 ∧ (r.1 = .ended → r.2.2.fresh uip = []) := by
  obtain ⟨r, hloop, hresult, hsame, hrest⟩ := readtoLoop_fresh h hc hreadlen hfits
  refine ⟨r, ?_, hresult, hsame, hrest⟩
  simp only [psockReadto, hpt]
  rcases Comp.returns_loop.mp hloop with hexit | ⟨again, hagain, hrest⟩
  · rw [Comp.returns_pure, psockReadtoRound, if_pos hreadlen] at hexit
    rw [hexit]
    exact Comp.returns_pure.mpr rfl
  · rw [Comp.returns_pure, psockReadtoRound, if_pos hreadlen] at hagain
    rw [hagain]
    exact hrest

-- ---------------------------------------------------------------------------
-- Sizes
-- ---------------------------------------------------------------------------

theorem bufSkip_length (c : UInt8) (data : List UInt8) :
    (bufSkip c data).2.length ≤ data.length := by
  induction data with
  | nil => exact Nat.le_refl _
  | cons b data ih =>
    rw [bufSkip]
    split
    · exact Nat.le_succ _
    · exact Nat.le_succ_of_le ih

theorem bufBufto_length (c : UInt8) (memory : List UInt8) (buf : PsockBuf) (data : List UInt8) :
    (bufBufto c memory buf data).2.1.length = memory.length ∧
      (bufBufto c memory buf data).2.2.2.length ≤ data.length := by
  induction data generalizing memory buf with
  | nil => exact ⟨rfl, Nat.le_refl _⟩
  | cons b data ih =>
    by_cases hleft : buf.left > 0
    · by_cases hb : b = c
      · simp only [bufBufto, if_pos hleft, if_pos hb, List.length_set]
        exact ⟨trivial, Nat.le_succ _⟩
      · simp only [bufBufto, if_pos hleft, if_neg hb]
        obtain ⟨hmemory, hrest⟩ := ih (memory.set buf.ptr b) ⟨buf.ptr + 1, buf.left - 1⟩
        exact ⟨hmemory.trans List.length_set, Nat.le_succ_of_le hrest⟩
    · simp only [bufBufto, if_neg hleft]
      exact ⟨trivial, bufSkip_length c (b :: data)⟩

/-- What a round of `psock_readto` keeps. -/
def RoundSizes (memory : List UInt8) (p : Psock) (uip : Uip) :
    (List UInt8 × Psock) ⊕ (PtResult × List UInt8 × Psock) → Prop
  | .inl (memory', p') => SameSize memory p memory' p' ∧ InAppdata p' uip
  | .inr (_, memory', p') => SameSize memory p memory' p' ∧ InAppdata p' uip

theorem psockReadtoBuf_sizes (c : UInt8) (memory : List UInt8) (h : InAppdata p uip) :
    RoundSizes memory p uip (psockReadtoBuf c memory p uip) := by
  obtain ⟨hmemory, hrest⟩ :=
    bufBufto_length c memory p.buf ((uip.appdata.cells.drop p.readptr).take p.readlen)
  rcases hbuf : bufBufto c memory p.buf ((uip.appdata.cells.drop p.readptr).take p.readlen)
    with ⟨result, memory', buf', rest⟩
  rw [hbuf] at hmemory hrest
  dsimp only at hmemory hrest
  have hle : rest.length ≤ p.readlen := Nat.le_trans hrest (List.length_take_le ..)
  have hunread : rest.length ≠ 0 → p.readptr + (p.readlen - rest.length) + rest.length ≤
      UIP_APPDATA_SIZE := by
    intro hrest
    have := h.unread (by omega)
    omega
  simp only [psockReadtoBuf, hbuf]
  split
  · exact ⟨⟨hmemory, rfl⟩, hunread, h.fresh⟩
  · split
    · exact ⟨⟨hmemory, rfl⟩, hunread, h.fresh⟩
    · exact ⟨⟨hmemory, rfl⟩, hunread, h.fresh⟩

theorem psockReadtoWait_sizes (c : UInt8) (memory : List UInt8) (h : InAppdata p uip) :
    RoundSizes memory p uip (psockReadtoWait c memory p uip) := by
  have hblocked : ∀ state, RoundSizes memory p uip
      (.inr (.waiting, memory, { p with state, psockpt := .wait })) :=
    fun state => ⟨⟨rfl, rfl⟩, h.unread, h.fresh⟩
  have hread : ∀ q : Psock, q.bufsize = p.bufsize →
      RoundSizes memory p uip (psockReadtoBuf c memory
          { q with state := .read, readptr := 0, readlen := uip.len } uip) := by
    intro q hq
    have hfresh : 0 + uip.len ≤ UIP_APPDATA_SIZE := (Nat.zero_add _).symm ▸ h.fresh
    have hin : InAppdata { q with state := .read, readptr := 0, readlen := uip.len } uip :=
      ⟨fun _ => hfresh, h.fresh⟩
    have hsizes := psockReadtoBuf_sizes c memory hin
    generalize psockReadtoBuf c memory _ uip = o at hsizes
    cases o with
    | inl _ => exact ⟨⟨hsizes.1.memory, hsizes.1.bufsize.trans hq⟩, hsizes.2⟩
    | inr _ => exact ⟨⟨hsizes.1.memory, hsizes.1.bufsize.trans hq⟩, hsizes.2⟩
  simp only [psockReadtoWait, psockNewdata]
  split
  · exact hread p rfl
  · split
    · exact hblocked .blockedNewdata
    · split
      · exact hread p rfl
      · exact hblocked p.state

theorem psockReadto_sizes {r : PtResult × List UInt8 × Psock} (hin : InAppdata p uip)
    (h : (psockReadto c memory p uip).Returns r) :
    SameSize memory p r.2.1 r.2.2 ∧ InAppdata r.2.2 uip := by
  have hround : ∀ memory' p', SameSize memory p memory' p' ∧ InAppdata p' uip →
      RoundSizes memory p uip (psockReadtoRound c uip (memory', p')) := by
    rintro memory' p' ⟨hsame, hin'⟩
    have hsizes : RoundSizes memory' p' uip (psockReadtoRound c uip (memory', p')) := by
      simp only [psockReadtoRound]
      split
      · exact psockReadtoWait_sizes c memory' hin'
      · exact psockReadtoBuf_sizes c memory' hin'
    generalize psockReadtoRound c uip (memory', p') = o at hsizes
    cases o with
    | inl _ => exact ⟨⟨hsizes.1.memory.trans hsame.memory, hsizes.1.bufsize.trans hsame.bufsize⟩,
        hsizes.2⟩
    | inr _ => exact ⟨⟨hsizes.1.memory.trans hsame.memory, hsizes.1.bufsize.trans hsame.bufsize⟩,
        hsizes.2⟩
  have hloop : ∀ s : List UInt8 × Psock, SameSize memory p s.1 s.2 ∧ InAppdata s.2 uip →
      (psockReadtoLoop c uip s).Returns r → SameSize memory p r.2.1 r.2.2 ∧
          InAppdata r.2.2 uip := by
    intro s hs h
    refine Comp.Returns.loop_invariant (fun s => SameSize memory p s.1 s.2 ∧ InAppdata s.2 uip)
      (fun r => SameSize memory p r.2.1 r.2.2 ∧ InAppdata r.2.2 uip) ?_ ?_ hs h
    · rintro ⟨memory', p'⟩ s' hs' hagain
      have hsizes := hround memory' p' hs'
      rw [Comp.returns_pure.mp hagain] at hsizes
      exact hsizes
    · rintro ⟨memory', p'⟩ r' hs' hexit
      have hsizes := hround memory' p' hs'
      rw [Comp.returns_pure.mp hexit] at hsizes
      exact hsizes
  unfold psockReadto at h
  split at h
  · exact hloop (memory, { p with buf := ⟨0, p.bufsize⟩ }) ⟨⟨rfl, rfl⟩, hin.unread, hin.fresh⟩ h
  · have hsizes := psockReadtoWait_sizes c memory hin
    split at h
    · rename_i again hwait
      rw [hwait] at hsizes
      exact hloop again hsizes h
    · rename_i result hwait
      rw [hwait] at hsizes
      obtain rfl := Comp.returns_pure.mp h
      exact hsizes

end FxIP
