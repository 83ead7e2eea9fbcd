import Mathlib.Data.List.Forall2
import FxIP.Objectlog.Index
import FxIP.Ui.Scroll

/-!
# The lines of a page

`ui_render_logs` asks for the messages 0, -1, -2 and so on, where index 0 is
the oldest message and the others count from the newest. The lines drawn are
decided exactly from that order.
-/

namespace FxIP

variable {log log' : Objectlog} {ms written : List UiMessage} {m : UiMessage} {page : Page}
variable {data frag rest : List UInt8} {a p i : Nat} {k : Int} {dnsize : List UInt8 → Int}

-- ---------------------------------------------------------------------------
-- The fragments of a line
-- ---------------------------------------------------------------------------

def drawnBytes (log : Objectlog) (draws : List Draw) : List UInt8 :=
  draws.flatMap fun d => fragmentBytes log.ring (d.ptr, d.len)

/-- The loop over the fragments, entered at the fragment of `len` bytes at
cell `p` after `a` of them. -/
def drawFrom (dnsize : List UInt8 → Int) (log : Objectlog) (y p len a x : Nat) (draws : List Draw) :
    Comp (List Draw × Nat) :=
  Comp.loop (fun s => pure (renderFragmentRound dnsize log y s))
    { ptr := p + 1 + a, length := len - a, iter := p, pencilX := x, draws }

/-- What a line draws of `data`: a prefix, and all of it unless the line ends
beyond the display. -/
structure Drawn (log : Objectlog) (y : Nat) (data : List UInt8) (draws : List Draw) (x : Nat) :
    Prop where
  text : drawnBytes log draws <+: data
  complete : drawnBytes log draws = data ∨ UI_DISPLAY_PIXEL_X < x
  line : ∀ d ∈ draws, d.y = y

/-- The draw of one fragment, which is left out if the fragment is empty. -/
def fragmentDraw (y p len a x : Nat) : List Draw :=
  if len - a = 0 then [] else [⟨x, y, p + 1 + a, len - a⟩]

def fragmentEnd (dnsize : List UInt8 → Int) (log : Objectlog) (p len a x : Nat) : Nat :=
  if len - a = 0 then x else u8 (x + dnsize (fragmentBytes log.ring (p + 1 + a, len - a)))

theorem renderFragmentRound_eq (dnsize : List UInt8 → Int) (log : Objectlog) (y p len a x : Nat)
    (draws : List Draw) :
    renderFragmentRound dnsize log y
        { ptr := p + 1 + a, length := len - a, iter := p, pencilX := x, draws } =
      if len - a ≠ 0 ∧ fragmentEnd dnsize log p len a x > UI_DISPLAY_PIXEL_X then
        .inr (draws ++ fragmentDraw y p len a x, fragmentEnd dnsize log p len a x)
      else if objectlogNext log p ≥ 0 then
        let (ptr, length) := (objectlogGetFragment log (objectlogNext log p)).getD (0, 0)
        .inl {
          ptr, length, iter := objectlogNext log p
          pencilX := fragmentEnd dnsize log p len a x
          draws := draws ++ fragmentDraw y p len a x }
      else .inr (draws ++ fragmentDraw y p len a x, fragmentEnd dnsize log p len a x) := by
  unfold renderFragmentRound fragmentDraw fragmentEnd
  by_cases h : len - a = 0 <;> simp only [h, ↓reduceIte, List.append_nil]

theorem FragmentAt.drawnBytes_draw {final : Bool} {y x : Nat} (h : FragmentAt log.ring p frag final)
    (ha : a ≤ frag.length) : drawnBytes log (fragmentDraw y p frag.length a x) = frag.drop a := by
  unfold fragmentDraw drawnBytes
  split
  · rw [List.drop_eq_nil_of_le (by omega)]
    rfl
  · simp only [List.flatMap_cons, List.flatMap_nil, List.append_nil]
    rw [h.bytes (by omega), List.take_of_length_le (by simp)]

theorem fragmentDraw_line {y len x : Nat} : ∀ d ∈ fragmentDraw y p len a x, d.y = y := by
  unfold fragmentDraw
  split <;> simp

theorem StoredAt.draws (h : StoredAt log.ring p data)
    (ha : a ≤ FRAGMENT_LEN (log.ring.cell p).toNat)
    (y x : Nat) (draws : List Draw) :
    (drawFrom dnsize log y p (FRAGMENT_LEN (log.ring.cell p).toNat) a x draws).Ensures fun r =>
      ∃ new, r.1 = draws ++ new ∧ Drawn log y (data.drop a) new r.2 := by
  induction h generalizing a x draws with
  | @last p frag hf =>
    rw [hf.hdr_len] at ha ⊢
    have hbytes := hf.drawnBytes_draw (y := y) (x := x) ha
    have hdrawn : Drawn log y (frag.drop a) (fragmentDraw y p frag.length a x)
        (fragmentEnd dnsize log p frag.length a x) :=
      ⟨hbytes ▸ List.prefix_rfl, .inl hbytes, fragmentDraw_line⟩
    have hround := renderFragmentRound_eq dnsize log y p frag.length a x draws
    rw [hf.next_last, if_neg (by decide : ¬ (-2 : Int) ≥ 0), ite_self] at hround
    exact Comp.Returns.ensures (.loop_exit (Comp.returns_pure.mpr hround)) ⟨_, rfl, hdrawn⟩
  | @more p frag rest hf _ hrest ih =>
    rw [hf.hdr_len] at ha ⊢
    have hbytes := hf.drawnBytes_draw (y := y) (x := x) ha
    have hdrop : (frag ++ rest).drop a = frag.drop a ++ rest := List.drop_append_of_le_length ha
    rw [hdrop]
    have hround := renderFragmentRound_eq dnsize log y p frag.length a x draws
    rw [hf.next_more, hrest.getFragment] at hround
    by_cases hbreak : frag.length - a ≠ 0 ∧ fragmentEnd dnsize log p frag.length a x >
      UI_DISPLAY_PIXEL_X
    · rw [if_pos hbreak] at hround
      refine Comp.Returns.ensures (.loop_exit (Comp.returns_pure.mpr hround)) ⟨_, rfl, ?_⟩
      exact ⟨hbytes ▸ List.prefix_append .., .inr hbreak.2, fragmentDraw_line⟩
    · rw [if_neg hbreak, if_pos (by omega)] at hround
      obtain ⟨r, hret, new, hr, hdrawn⟩ :=
        ih (Nat.zero_le _) (fragmentEnd dnsize log p frag.length a x)
        (draws ++ fragmentDraw y p frag.length a x)
      refine Comp.Returns.ensures (.loop_again (Comp.returns_pure.mpr hround) hret)
        ⟨fragmentDraw y p frag.length a x ++ new, by rw [hr, List.append_assoc], ?_⟩
      have happ : drawnBytes log (fragmentDraw y p frag.length a x ++ new) =
          frag.drop a ++ drawnBytes log new := by
        rw [drawnBytes, List.flatMap_append]
        exact congrArg (· ++ _) hbytes
      rw [List.drop_zero] at hdrawn
      refine ⟨?_, ?_, ?_⟩
      · rw [happ]
        exact (List.prefix_append_right_inj _).mpr hdrawn.text
      · rw [happ]
        exact hdrawn.complete.imp_left fun heq => by rw [heq]
      · intro d hd
        rcases List.mem_append.mp hd with hd | hd
        · exact fragmentDraw_line d hd
        · exact hdrawn.line d hd

-- ---------------------------------------------------------------------------
-- The messages of a page
-- ---------------------------------------------------------------------------

/-- The `i`-th retained message belongs to the page. -/
def onPage (ms : List UiMessage) (id : UInt8) (i : Nat) : Bool :=
  ms[i]?.map (·.hdr.pageId) == some id

/-- The line is that of the `i`-th oldest retained message. -/
structure LineShows (log : Objectlog) (ms : List UiMessage) (line : RenderedLine) (i : Nat) :
    Prop where
  start : ∃ p, StartsAt log (ms.map UiMessage.object) i p ∧ line.iter = some (p : Int)
  text : ∃ m, ms[i]? = some m ∧ Drawn log line.pencilY m.payload line.draws line.pencilX

/-- Every retained message has its header in its first fragment. -/
def HeadersWhole (log : Objectlog) (ms : List UiMessage) : Prop :=
  ∀ i p, StartsAt log (ms.map UiMessage.object) i p → p ≤ 2044

/-- The message that the `i`-th round asks for. -/
def visited (n i : Nat) : Nat := if i = 0 then 0 else n - i

theorem visited_index {n : Nat} (hi : i < n) (hn : n < 65536) :
    IsInt (toInt (u32 (-i))) ∧ resolveIdx n (toInt (u32 (-i))) = some (visited n i) := by
  have hidx : toInt (u32 (-(i : Int))) = -(i : Int) := by
    unfold toInt u32
    omega
  rw [hidx]
  refine ⟨by unfold IsInt; omega, ?_⟩
  unfold resolveIdx visited
  by_cases h0 : i = 0
  · subst h0
    rw [if_pos (by omega), if_pos rfl]
    rfl
  · rw [if_neg (by omega), if_pos (by omega), if_neg h0]
    exact congrArg some (by omega)

theorem Retaining.iterator (h : Retaining log ms) (hint : IsInt k)
    (hidx : resolveIdx ms.length k = some i) (hm : ms[i]? = some m) (r : Nat) :
    ∃ p r', StartsAt log (ms.map UiMessage.object) i p ∧ ChainAt log.ring p m.object ∧
      (objectlogIterator (log.withReadPtr r) k).Returns ((p : Nat), log.withReadPtr r') := by
  have h' : Retaining (log.withReadPtr r) ms := Stores.withReadPtr h r
  have hidx' : resolveIdx (ms.map UiMessage.object).length k = some i := by rwa [List.length_map]
  have hobj : (ms.map UiMessage.object)[i]? = some m.object := by rw [List.getElem?_map, hm]; rfl
  obtain ⟨p, r', hret, hchain⟩ := Stores.iterator_chain h' hint hidx' hobj
  obtain ⟨q, r'', hstart, hret'⟩ := Stores.iterator_startsAt h' hint hidx'
  obtain rfl : p = q := by
    have := congrArg Prod.fst (hret.unique hret')
    simp only at this
    omega
  have hchain' : ChainAt log.ring p m.object := hchain.withReadPtr log.ring.readPtr
  exact ⟨p, r', ⟨hstart.place, m.object, hobj, hchain'.storedAt⟩, hchain', hret⟩

theorem Retaining.getMessage (h : Retaining log ms) (hwhole : HeadersWhole log ms) (hint : IsInt k)
    (hidx : resolveIdx ms.length k = some i) (hm : ms[i]? = some m) {hdr : List UInt8}
    (hhdr : hdr.length = SIZEOF_MESSAGE_HDR) (r : Nat) :
    ∃ p r', StartsAt log (ms.map UiMessage.object) i p ∧ StoredAt log.ring p m.object ∧
      SIZEOF_MESSAGE_HDR ≤ FRAGMENT_LEN (log.ring.cell p).toNat ∧
      (uiObjectlogGetMessage (log.withReadPtr r) k 0 hdr).Returns
        (⟨m.hdr.bytes, some (p + 1 + SIZEOF_MESSAGE_HDR,
          FRAGMENT_LEN (log.ring.cell p).toNat - SIZEOF_MESSAGE_HDR, p)⟩, log.withReadPtr r') := by
  obtain ⟨p, r', hstart, hchain, hret⟩ := h.iterator hint hidx hm r
  have hsize : log.ring.size = 2048 := Stores.size h
  obtain ⟨frag, final, hf, hfrag, htake⟩ := (hchain.withReadPtr r').header hsize (hwhole i p hstart)
  have hlen : frag.length = FRAGMENT_LEN (log.ring.cell p).toNat := hf.hdr_len.symm
  have hget := uiObjectlogGetMessage_skip hret hhdr hf hfrag hlen (skipFrom_inside (.inl rfl))
  rw [htake] at hget
  exact ⟨p, r', hstart, hchain.storedAt, hlen ▸ hfrag, hget⟩

-- ---------------------------------------------------------------------------
-- The loop over the log
-- ---------------------------------------------------------------------------

/-- The first `i` messages asked for that belong to the page. -/
def visitedOnPage (ms : List UiMessage) (id : UInt8) (i : Nat) : List Nat :=
  ((List.range i).map (visited ms.length)).filter (onPage ms id)

structure RenderInv (log : Objectlog) (ms : List UiMessage) (page : Page) (s : RenderState) :
    Prop where
  objectlog : ∃ r, s.objectlog = log.withReadPtr r
  i_le : s.i ≤ ms.length
  linesDrawn : s.linesDrawn = s.lines.length
  lines_le : s.lines.length ≤ maxLines page
  shows : List.Forall₂ (LineShows log ms) s.lines (visitedOnPage ms page.id s.i)
  pencilY : s.lines.map (·.pencilY) = (List.range s.lines.length).map fun n =>
    (maxLines page - n) * 8

theorem maxLines_le : maxLines page ≤ 7 := by
  unfold maxLines UI_DISPLAY_LINES
  split <;> decide

theorem visitedOnPage_succ (ms : List UiMessage) (id : UInt8) (i : Nat) :
    visitedOnPage ms id (i + 1) =
      visitedOnPage ms id i ++ if onPage ms id (visited ms.length i) then [visited ms.length i]
        else [] := by
  unfold visitedOnPage
  rw [List.range_succ, List.map_append, List.filter_append, List.map_singleton,
    List.filter_singleton, cond_eq_ite]

theorem visitedOnPage_prefix (ms : List UiMessage) (id : UInt8) {i n : Nat} (hin : i ≤ n) :
    visitedOnPage ms id i <+: visitedOnPage ms id n := by
  induction hin with
  | refl => exact List.prefix_rfl
  | step _ ih =>
    rw [visitedOnPage_succ]
    exact ih.trans (List.prefix_append ..)

theorem u32_succ {i n : Nat} (hi : i < n) (hn : n < 65536) : u32 (i + 1) = i + 1 := by
  unfold u32
  omega

theorem RenderInv.draw {s : RenderState} {line : RenderedLine} (hinv : RenderInv log ms page s)
    (hi : s.i < ms.length) (hn : ms.length < 65536) (hlines : s.linesDrawn < maxLines page)
    (hon : onPage ms page.id (visited ms.length s.i))
    (hshows : LineShows log ms line (visited ms.length s.i))
    (hpencil : line.pencilY = u8 ((maxLines page - s.linesDrawn) * 8)) (r : Nat) :
    RenderInv log ms page { s with
      i := u32 (s.i + 1), objectlog := log.withReadPtr r
      linesDrawn := u16 (s.linesDrawn + 1), lines := s.lines ++ [line] } := by
  have hmax : maxLines page ≤ 7 := maxLines_le
  have hlen := hinv.linesDrawn
  have hnext := u32_succ hi hn
  have hsucc := visitedOnPage_succ ms page.id s.i
  rw [if_pos hon] at hsucc
  have hpencil' : line.pencilY = (maxLines page - s.lines.length) * 8 := by
    rw [hpencil]
    unfold u8
    omega
  have hlines' : u16 (s.linesDrawn + 1) = s.lines.length + 1 := by unfold u16; omega
  refine ⟨⟨r, rfl⟩, ?_, ?_, ?_, ?_, ?_⟩
  · simp only [hnext]
    exact hi
  · simp only [List.length_append, List.length_singleton, hlines']
  · simp only [List.length_append, List.length_singleton]
    omega
  · simp only [hnext, hsucc]
    exact List.rel_append hinv.shows (.cons hshows .nil)
  · simp only [List.map_append, List.map_singleton, hinv.pencilY, List.length_append,
      List.length_singleton, List.range_succ, hpencil']

theorem RenderInv.pass {s : RenderState} (hinv : RenderInv log ms page s) (hi : s.i < ms.length)
    (hn : ms.length < 65536) (hon : ¬ onPage ms page.id (visited ms.length s.i)) (r : Nat) :
    RenderInv log ms page { s with i := u32 (s.i + 1), objectlog := log.withReadPtr r } := by
  have hsucc := visitedOnPage_succ ms page.id s.i
  rw [if_neg hon, List.append_nil] at hsucc
  rw [u32_succ hi hn]
  refine ⟨⟨r, rfl⟩, hi, hinv.linesDrawn, hinv.lines_le, ?_, hinv.pencilY⟩
  rw [hsucc]
  exact hinv.shows

theorem RenderInv.round {s : RenderState} (hinv : RenderInv log ms page s) (h : Retaining log ms)
    (hwhole : HeadersWhole log ms) (hscroll : page.scrollX = 0) (hi : s.i < ms.length)
    (hlines : s.linesDrawn < maxLines page) (Q : List RenderedLine × Objectlog → Prop) :
    (renderRound dnsize page s).Ensures
      (Comp.RoundOk (RenderInv log ms page) (fun s => ms.length - s.i) Q s) := by
  obtain ⟨r, hlog⟩ := hinv.objectlog
  have hn : ms.length < 65536 := by
    have := Stores.count_lt h
    rwa [h.numEntries] at this
  obtain ⟨hint, hidx⟩ := visited_index hi hn
  have hlt := resolveIdx_lt hidx
  obtain ⟨m, hm⟩ : ∃ m, ms[visited ms.length s.i]? = some m := ⟨_, List.getElem?_eq_getElem hlt⟩
  obtain ⟨p, r', hstart, hstored, hfrag, hget⟩ := h.getMessage hwhole hint hidx hm
    (show ([0xFF, 0, 0] : List UInt8).length = SIZEOF_MESSAGE_HDR from rfl) r
  have hpage : m.hdr.bytes.head? = some page.id ↔ onPage ms page.id (visited ms.length s.i) := by
    rw [onPage, hm, Option.map_some, beq_iff_eq]
    rfl
  have hcond : s.i < s.objectlog.numEntries ∧ s.linesDrawn < maxLines page := by
    rw [hlog, withReadPtr_numEntries, h.numEntries]
    exact ⟨hi, hlines⟩
  have hfewer : ms.length - u32 (s.i + 1) < ms.length - s.i := by
    rw [u32_succ hi hn]
    omega
  unfold renderRound
  rw [if_pos hcond, hlog, hscroll, Comp.ensures_bind]
  refine hget.ensures ?_
  by_cases hon : onPage ms page.id (visited ms.length s.i)
  · simp only [hpage.mpr hon, ↓reduceIte]
    rw [Comp.ensures_bind]
    have hdraws : (drawFrom dnsize (log.withReadPtr r') (u8 ((maxLines page - s.linesDrawn) * 8)) p
        (FRAGMENT_LEN (log.ring.cell p).toNat) SIZEOF_MESSAGE_HDR 0 []).Ensures _ :=
      (hstored.withReadPtr r').draws hfrag _ 0 []
    refine hdraws.mono ?_
    rintro ⟨draws, x⟩ ⟨new, hnew, hdrawn⟩
    obtain rfl : draws = new := hnew
    have hshows : LineShows log ms ⟨some p, u8 ((maxLines page - s.linesDrawn) * 8), draws, x⟩
        (visited ms.length s.i) :=
          ⟨⟨p, hstart, rfl⟩, m, hm, hdrawn.text, hdrawn.complete, hdrawn.line⟩
    exact Comp.ensures_pure.mpr ⟨hinv.draw hi hn hlines hon hshows rfl r', hfewer⟩
  · simp only [mt hpage.mp hon, ↓reduceIte]
    exact Comp.ensures_pure.mpr ⟨hinv.pass hi hn hon r', hfewer⟩

theorem Retaining.render (h : Retaining log ms) (hwhole : HeadersWhole log ms)
    (hscroll : page.scrollX = 0) :
    (uiRenderLogs dnsize log page).Ensures fun r =>
      List.Forall₂ (LineShows log ms) r.1
        ((visitedOnPage ms page.id ms.length).take (maxLines page)) ∧
      r.1.map (·.pencilY) = (List.range r.1.length).map fun n => (maxLines page - n) * 8 := by
  refine Comp.loop_ensures (RenderInv log ms page) (fun s => ms.length - s.i) _ ?_
    ⟨⟨log.ring.readPtr, rfl⟩, Nat.zero_le _, rfl, Nat.zero_le _, .nil, rfl⟩
  intro s hinv
  by_cases hcond : s.i < ms.length ∧ s.linesDrawn < maxLines page
  · exact hinv.round h hwhole hscroll hcond.1 hcond.2 _
  · obtain ⟨r, hlog⟩ := hinv.objectlog
    have hexit : ¬ (s.i < s.objectlog.numEntries ∧ s.linesDrawn < maxLines page) := by
      rwa [hlog, withReadPtr_numEntries, h.numEntries]
    unfold renderRound
    rw [if_neg hexit, Comp.ensures_pure]
    refine ⟨?_, hinv.pencilY⟩
    have hshows := hinv.shows
    have hlen := hshows.length_eq
    have hdrawn := hinv.linesDrawn
    have hle := hinv.lines_le
    rcases Nat.lt_or_ge s.i ms.length with hi | hi
    · -- the limit is reached
      have hmax : maxLines page = s.lines.length := by omega
      have hprefix := visitedOnPage_prefix ms page.id (Nat.le_of_lt hi)
      rw [hmax, hlen, ← List.prefix_iff_eq_take.mp hprefix]
      exact hshows
    · have hall : s.i = ms.length := Nat.le_antisymm hinv.i_le hi
      rw [← hall, List.take_of_length_le (by omega)]
      exact hshows

-- ---------------------------------------------------------------------------
-- The order of the lines
-- ---------------------------------------------------------------------------

/-- The retained messages of the page, newest first. -/
def newestOnPage (ms : List UiMessage) (id : UInt8) : List Nat :=
  ((List.range ms.length).filter (onPage ms id)).reverse

def laterOnPage (ms : List UiMessage) (id : UInt8) : List Nat :=
  ((List.range (ms.length - 1)).map (ms.length - 1 - ·)).filter (onPage ms id)

/-- The oldest message, if it belongs to the page. -/
def oldestOnPage (ms : List UiMessage) (id : UInt8) : List Nat := if onPage ms id 0 then [0] else []

theorem onPage_lt {id : UInt8} (h : onPage ms id i) : i < ms.length := by
  by_contra hge
  rw [onPage, List.getElem?_eq_none (by omega)] at h
  simp at h

theorem visitedOnPage_eq (ms : List UiMessage) (id : UInt8) :
    visitedOnPage ms id ms.length = oldestOnPage ms id ++ laterOnPage ms id := by
  unfold visitedOnPage oldestOnPage laterOnPage
  cases hn : ms.length with
  | zero =>
    have h0 : ¬ onPage ms id 0 := fun h => by have := onPage_lt h; omega
    simp [h0]
  | succ k =>
    have hvisited : (List.range (k + 1)).map (visited (k + 1)) =
        0 :: (List.range k).map (k - ·) := by
      rw [List.range_succ_eq_map, List.map_cons, List.map_map]
      refine congrArg (0 :: ·) (List.map_congr_left fun j _ => ?_)
      simp [visited]
    rw [hvisited, List.filter_cons, Nat.add_sub_cancel]
    split <;> rfl

theorem newestOnPage_eq (ms : List UiMessage) (id : UInt8) :
    newestOnPage ms id = laterOnPage ms id ++ oldestOnPage ms id := by
  unfold newestOnPage oldestOnPage laterOnPage
  rw [← List.filter_reverse]
  cases hn : ms.length with
  | zero =>
    have h0 : ¬ onPage ms id 0 := fun h => by have := onPage_lt h; omega
    simp [h0]
  | succ k =>
    have hreverse : (List.range (k + 1)).reverse = (List.range k).map (k - ·) ++ [0] := by
      rw [List.range_eq_range', List.reverse_range', List.range_succ, List.map_append,
        List.map_singleton]
      simp only [Nat.zero_add, Nat.add_sub_cancel, Nat.sub_self]
    rw [hreverse, List.filter_append, Nat.add_sub_cancel, List.filter_singleton, cond_eq_ite]

theorem laterOnPage_eq_nil {id : UInt8} : laterOnPage ms id = [] ↔ ∀ i, onPage ms id i → i = 0 := by
  rw [laterOnPage, List.filter_eq_nil_iff]
  constructor
  · intro h i hi
    by_contra h0
    have hlt := onPage_lt hi
    exact h i (List.mem_map.mpr ⟨ms.length - 1 - i, List.mem_range.mpr (by omega), by omega⟩) hi
  · intro h i hi hon
    obtain ⟨j, hj, rfl⟩ := List.mem_map.mp hi
    have := List.mem_range.mp hj
    have := h _ hon
    omega

/-- The order asked for is that from the newest to the oldest, up to a limit
of lines, unless the oldest message is on the page with another one. -/
theorem visited_take_iff {id : UInt8} {n : Nat} (hn : 0 < n) :
    (visitedOnPage ms id ms.length).take n = (newestOnPage ms id).take n ↔
      ¬ (onPage ms id 0 ∧ ∃ i, 0 < i ∧ onPage ms id i) := by
  rw [visitedOnPage_eq, newestOnPage_eq]
  unfold oldestOnPage
  split
  · next hon =>
    obtain ⟨k, rfl⟩ : ∃ k, n = k + 1 := ⟨n - 1, by omega⟩
    have hlater : ∀ i ∈ laterOnPage ms id, 0 < i ∧ onPage ms id i := fun i hi => by
      obtain ⟨hmap, hi⟩ := List.mem_filter.mp hi
      obtain ⟨j, hj, rfl⟩ := List.mem_map.mp hmap
      have := List.mem_range.mp hj
      exact ⟨by omega, hi⟩
    have hnil : laterOnPage ms id = [] ↔ _ := laterOnPage_eq_nil
    cases hl : laterOnPage ms id with
    | nil =>
      refine iff_of_true rfl ?_
      rintro ⟨-, i, hpos, hi⟩
      have := hnil.mp hl i hi
      omega
    | cons i rest =>
      obtain ⟨hpos, hi⟩ := hlater i (by rw [hl]; exact List.mem_cons_self)
      refine iff_of_false (fun heq => ?_) fun h => h ⟨hon, i, hpos, hi⟩
      have hhead := congrArg List.head? heq
      simp only [List.cons_append, List.take_succ_cons, List.head?_cons,
        Option.some.injEq] at hhead
      omega
  · next hoff => exact iff_of_true (by simp) fun h => hoff h.1

-- ---------------------------------------------------------------------------
-- The page drawn
-- ---------------------------------------------------------------------------

/-- Upwards from the bottom, on consecutive lines, the newest messages of the
page. -/
def RendersNewest (dnsize : List UInt8 → Int) (log : Objectlog) (ms : List UiMessage)
    (page : Page) : Prop :=
  ∃ lines log', (uiRenderLogs dnsize log page).Returns (lines, log') ∧
    List.Forall₂ (LineShows log ms) lines ((newestOnPage ms page.id).take (maxLines page)) ∧
    lines.map (·.pencilY) = (List.range lines.length).map fun n => (maxLines page - n) * 8

theorem LineShows.unique {line : RenderedLine} {j : Nat} (h : Retaining log ms)
    (hi : LineShows log ms line i) (hj : LineShows log ms line j) : i = j := by
  obtain ⟨p, hp, hline⟩ := hi.start
  obtain ⟨q, hq, hline'⟩ := hj.start
  rw [hline] at hline'
  obtain rfl : p = q := Int.ofNat_inj.mp (Option.some.inj hline')
  exact Stores.startsAt_inj h hp hq

theorem Retaining.rendersNewest_iff (h : Retaining log ms) (hwhole : HeadersWhole log ms)
    (hscroll : page.scrollX = 0) :
    RendersNewest dnsize log ms page ↔
      ¬ (onPage ms page.id 0 ∧ ∃ i, 0 < i ∧ onPage ms page.id i) := by
  have hmax : 0 < maxLines page := by
    unfold maxLines UI_DISPLAY_LINES
    split <;> decide
  rw [← visited_take_iff hmax]
  obtain ⟨⟨lines, log'⟩, hret, hshows, hpencil⟩ : (uiRenderLogs dnsize log page).Ensures _ :=
    h.render hwhole hscroll
  constructor
  · rintro ⟨lines', log'', hret', hshows', -⟩
    obtain ⟨rfl, -⟩ := Prod.mk.inj (hret.unique hret')
    exact List.right_unique_forall₂' (fun _ _ _ hi hj => hi.unique h hj) hshows hshows'
  · intro heq
    exact ⟨lines, log', hret, heq ▸ hshows, hpencil⟩

/-- In every run of `ui_write_log` whose writes have room, the log retains the newest
of the messages written. And a page shows the newest of its messages retained exactly
if the oldest one is not on it, or is the only one. -/
theorem render_newest_iff
    (hrun : Run (Run.Guarded (fun log m => m.HasRoom log) UiStep) uiInit written log) :
    (∃ ms, Retaining log ms ∧ ms.Sublist written) ∧
      ∀ log ms, Retaining log ms → HeadersWhole log ms → ∀ dnsize page, page.scrollX = 0 →
        (RendersNewest dnsize log ms page ↔
          ¬ (onPage ms page.id 0 ∧ ∃ i, 0 < i ∧ onPage ms page.id i)) :=
  ⟨run_retaining hrun, fun _ _ hms hwhole _ _ hscroll => hms.rendersNewest_iff hwhole hscroll⟩

-- ---------------------------------------------------------------------------
-- Two messages on one page
-- ---------------------------------------------------------------------------

def messageA : UiMessage := ⟨⟨0, 0, 0⟩, [65]⟩
def messageB : UiMessage := ⟨⟨0, 0, 0⟩, [66]⟩

/-- The page `PAGE_LOGS`. -/
def pageLogs : Page := ⟨0, 145, false, [], 0, 0, 0, 0⟩

def logA : Objectlog := ⟨⟨0x84 :: 0 :: 0 :: 0 :: 65 :: List.replicate 2043 0, 0, 5, 2048⟩, 0, 0, 1⟩

def logAB : Objectlog :=
  ⟨⟨0x84 :: 0 :: 0 :: 0 :: 65 :: 0x84 :: 0 :: 0 :: 0 :: 66 :: List.replicate 2038 0, 5, 10, 2048⟩,
    0, 5, 2⟩

theorem uiStep_A : UiStep uiInit messageA logA := by
  have hwalk : (getNextEntry uiInit uiInit.ptrLast).Returns (0, uiInit) :=
    (keeps_init 2048).stores.getNextEntry_last (by decide) (by decide)
  have hwrite : (objectlogWriteScatteredObject uiInit messageA.scatterList).Returns (0, logA) :=
    (write_accepts_iff hwalk (by decide)).mpr
      ⟨uiInit, ⟨logA.ring, 0, 0, 0⟩, ⟨12, rfl⟩, ⟨12, rfl⟩, rfl⟩
  exact uiWriteLog_returns hwrite

theorem uiStep_B : UiStep logA messageB logAB := ⟨12, rfl⟩

theorem run_AB : Run (Run.Guarded (fun log m => m.HasRoom log) UiStep) uiInit
    [messageA, messageB] logAB := by
  have hA : messageA.HasRoom uiInit := ⟨by decide, by decide, .inr ⟨by decide, by decide, .inl rfl⟩⟩
  have hB : messageB.HasRoom logA := by
    refine ⟨by decide, by decide, .inr ⟨by decide, by decide, .inr ?_⟩⟩
    unfold FitsBesideNewest
    decide
  exact (Run.nil.snoc ⟨hA, uiStep_A⟩).snoc ⟨hB, uiStep_B⟩

theorem retaining_AB : Retaining logAB [messageA, messageB] := by
  have hempty : Retaining uiInit [] := (keeps_init 2048).stores
  have hone := hempty.store_second (by decide) (by decide) (by decide) (.inl rfl) uiStep_A
  refine hone.store_second (by decide) (by decide) (by decide) (.inr ?_) uiStep_B
  unfold FitsBesideNewest
  decide

theorem headersWhole_AB : HeadersWhole logAB [messageA, messageB] := by
  intro i p hstart
  obtain ⟨bytes, hall, rfl⟩ := hstart.place
  obtain ⟨obj, hobj, -⟩ := hstart.stored
  have hi : i < 2 := (List.getElem?_eq_some_iff.mp hobj).1
  obtain rfl | rfl : i = 0 ∨ i = 1 := by omega
  · cases hall
    decide
  · cases hall with
    | cons _ henc hnil =>
      cases hnil
      have hle := Nat.le_trans (henc.length_le (by decide) (by decide) (by decide))
        (show encodedLen logAB.ring.size (logAB.ptrFirst % logAB.ring.size) messageA.object.length ≤
          5 by decide)
      rw [List.append_nil, show logAB.ptrFirst = 0 from rfl, show logAB.ring.size = 2048 from rfl]
      omega

/-- The page with the two messages does not show the newest first; a page with none
does. -/
theorem render_newest_iff_two :
    (∃ ms, Retaining logAB ms ∧ ms.Sublist [messageA, messageB]) ∧
      ¬ RendersNewest (fun _ => 6) logAB [messageA, messageB] pageLogs ∧
      RendersNewest (fun _ => 6) logAB [messageA, messageB] { pageLogs with id := 2 } := by
  obtain ⟨hretains, hiff⟩ := render_newest_iff run_AB
  refine ⟨hretains, fun h => ?_, ?_⟩
  · exact (hiff logAB _ retaining_AB headersWhole_AB _ _ rfl).mp h
      ⟨by decide, 1, by decide, by decide⟩
  · exact (hiff logAB _ retaining_AB headersWhole_AB _ _ rfl).mpr fun h => absurd h.1 (by decide)

/-- With two messages on the page, the older one is on the bottom line. -/
theorem oldest_on_bottom_line :
    Run UiStep uiInit [messageA, messageB] logAB ∧ Retaining logAB [messageA, messageB] ∧
      HeadersWhole logAB [messageA, messageB] ∧
      ¬ RendersNewest (fun _ => 6) logAB [messageA, messageB] pageLogs :=
  ⟨run_AB.of_guarded, retaining_AB, headersWhole_AB, fun h =>
    (retaining_AB.rendersNewest_iff headersWhole_AB rfl).mp h ⟨by decide, 1, by decide, by decide⟩⟩

end FxIP
