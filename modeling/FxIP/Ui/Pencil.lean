import Mathlib.Data.List.Infix
import FxIP.Lib.Pen
import FxIP.Ui.Render

/-!
# Where the text of a line is drawn

`ui_render_logs` draws the fragments of a message one after the other, at a
cursor that is an `uint8_t`. Where the ring has split the text is seen on the
display exactly if the text gets wider than the display at the end of a
fragment, with more to follow, and the cursor does not. A message whose header
is split is not shown at all.
-/

namespace FxIP

open Circular

variable {log log' : Objectlog} {ms written : List UiMessage} {m : UiMessage} {page : Page}
variable {data text : List UInt8} {fragments : List (Nat × Nat)} {i o p r x y ptr len : Nat}
    {k iter : Int}
variable {dnsize : List UInt8 → Int}

/-- What is taken of `dnsize`: widths are not negative, and add up. -/
structure IsWidth (dnsize : List UInt8 → Int) : Prop where
  nonneg : ∀ text, 0 ≤ dnsize text
  append : ∀ text text', dnsize (text ++ text') = dnsize text + dnsize text'

/-- Every draw is as far to the right as the text before it is wide, and that
is not wider than the display. -/
def Placed (dnsize : List UInt8 → Int) (log : Objectlog) (draws : List Draw) : Prop :=
  ∀ before d after, draws = before ++ d :: after →
    (d.x : Int) = dnsize (drawnBytes log before) ∧
      dnsize (drawnBytes log before) ≤ UI_DISPLAY_PIXEL_X

/-- The draws show the text from its start on, by pieces of it in the storage. -/
structure ShowsText (dnsize : List UInt8 → Int) (log : Objectlog) (text : List UInt8)
    (draws : List Draw) :
    Prop where
  inside : ∀ d ∈ draws, d.ptr + d.len ≤ log.ring.buffer.length
  text : drawnBytes log draws <+: text
  placed : Placed dnsize log draws

/-- The first texts that are together wider than the display, with another one
to follow, are so modulo 256. -/
def StopsInTime (dnsize : List UInt8 → Int) (texts : List (List UInt8)) : Prop :=
  ∀ i < texts.length, UI_DISPLAY_PIXEL_X < dnsize (texts.take i).flatten →
    (∀ j < i, dnsize (texts.take j).flatten ≤ UI_DISPLAY_PIXEL_X) →
    UI_DISPLAY_PIXEL_X < dnsize (texts.take i).flatten % 256

/-- The texts of the fragments that are not empty. -/
def textsOf (log : Objectlog) (fragments : List (Nat × Nat)) : List (List UInt8) :=
  (fragments.filter (·.2 ≠ 0)).map (fragmentBytes log.ring)

/-- How the ring has split the text of a message behind `o` bytes: from what
`ui_objectlog_get_message` returns on, if it is not NULL. -/
def SplitInto (log : Objectlog) (k : Int) (o : Nat) (texts : List (List UInt8)) : Prop :=
  ∃ message log', (uiObjectlogGetMessage log k o [0xFF, 0, 0]).Returns (message, log') ∧
    match message.fragment with
    | none => texts = []
    | some (ptr, len, iter) => ∃ fragments,
      (readFragments log' (objectlogNext log' iter)).Returns (fragments, -2) ∧
      texts = textsOf log' ((ptr, len) :: fragments)

-- ---------------------------------------------------------------------------
-- The fragments that follow
-- ---------------------------------------------------------------------------

inductive Fragments (log : Objectlog) : Int → List (Nat × Nat) → Prop
  | done {it} : it < 0 → Fragments log it []
  | next {it f fs} : objectlogGetFragment log it = some f →
      Fragments log (objectlogNext log it) fs →
      Fragments log it (f :: fs)

theorem readFragments_fragments (h : (readFragments log iter).Returns (fragments, -2)) :
    Fragments log iter fragments := by
  refine Comp.Returns.loop_invariant (fun s => ∀ fs, Fragments log s.1 fs →
    Fragments log iter (s.2 ++ fs))
    (fun r => r.2 < 0 → Fragments log iter r.1) ?_ ?_ (fun fs hfs => hfs) h
    (show (-2 : Int) < 0 by decide)
  · rintro ⟨it, acc⟩ s' hinv hround fs hfs
    rw [Comp.returns_pure, readRound] at hround
    split at hround
    · cases hround
    · next f hget =>
      simp only at hround
      split at hround
      · cases hround
      · obtain rfl := Sum.inl.inj hround
        simpa using hinv _ (.next hget hfs)
  · rintro ⟨it, acc⟩ r hinv hround hneg
    rw [Comp.returns_pure, readRound] at hround
    split at hround
    · obtain rfl := Sum.inr.inj hround
      simpa using hinv _ (.done hneg)
    · next f hget =>
      simp only at hround
      split at hround
      · next hend =>
        obtain rfl := Sum.inr.inj hround
        exact hinv _ (.next hget (.done hend))
      · cases hround

theorem flatten_textsOf :
    (textsOf log fragments).flatten = fragments.flatMap (fragmentBytes log.ring) := by
  induction fragments with
  | nil => rfl
  | cons f fs ih =>
    rw [textsOf] at ih ⊢
    by_cases hf : f.2 = 0
    · have hempty : fragmentBytes log.ring f = [] := by rw [fragmentBytes, hf, List.take_zero]
      rw [List.filter_cons_of_neg (by simp [hf]), ih, List.flatMap_cons, hempty, List.nil_append]
    · rw [List.filter_cons_of_pos (by simp [hf]), List.map_cons, List.flatten_cons, ih,
        List.flatMap_cons]

-- ---------------------------------------------------------------------------
-- The cursor
-- ---------------------------------------------------------------------------

def fragmentWidth (dnsize : List UInt8 → Int) (log : Objectlog) (f : Nat × Nat) : Int :=
  dnsize (fragmentBytes log.ring f)

/-- The fragments placed by a pen that is an `uint8_t`. -/
def placed (dnsize : List UInt8 → Int) (log : Objectlog) (x : Nat) (fragments : List (Nat × Nat)) :
    List (Nat × (Nat × Nat)) × Nat :=
  Pen.place (fragmentWidth dnsize log) 256 UI_DISPLAY_PIXEL_X x (fragments.filter (·.2 ≠ 0))

def drawOf (y : Nat) (f : Nat × (Nat × Nat)) : Draw := ⟨f.1, y, f.2.1, f.2.2⟩

theorem placed_empty (fragments : List (Nat × Nat)) :
    placed dnsize log x ((ptr, 0) :: fragments) = placed dnsize log x fragments := by
  rw [placed, List.filter_cons_of_neg (by simp), placed]

theorem placed_stop (hlen : len ≠ 0)
    (hstop : u8 (x + fragmentWidth dnsize log (ptr, len)) > UI_DISPLAY_PIXEL_X)
    (fragments : List (Nat × Nat)) :
    placed dnsize log x ((ptr, len) :: fragments) =
      ([(x, (ptr, len))], u8 (x + fragmentWidth dnsize log (ptr, len))) := by
  rw [placed, List.filter_cons_of_pos (by simpa using hlen), Pen.place]
  exact if_pos hstop

theorem placed_go (hlen : len ≠ 0)
    (hgo : ¬ u8 (x + fragmentWidth dnsize log (ptr, len)) > UI_DISPLAY_PIXEL_X)
    (fragments : List (Nat × Nat)) :
    placed dnsize log x ((ptr, len) :: fragments) =
      ((x, (ptr, len)) :: (placed dnsize log (u8 (x + fragmentWidth dnsize log (ptr, len)))
        fragments).1,
        (placed dnsize log (u8 (x + fragmentWidth dnsize log (ptr, len))) fragments).2) := by
  rw [placed, List.filter_cons_of_pos (by simpa using hlen), Pen.place]
  exact if_neg hgo

theorem objectlogGetFragment_nonneg {it : Int} {f : Nat × Nat}
    (h : objectlogGetFragment log it = some f) :
    it ≥ 0 := by
  by_contra hneg
  rw [objectlogGetFragment, if_pos (by omega)] at h
  cases h

/-- A round that does not end the line goes on to the next fragment. -/
def nextFragment (log : Objectlog) (iter : Int) (x : Nat) (draws : List Draw) :
    DrawState ⊕ (List Draw × Nat) :=
  if objectlogNext log iter ≥ 0 then
    let (ptr, length) := (objectlogGetFragment log (objectlogNext log iter)).getD (0, 0)
    .inl { ptr, length, iter := objectlogNext log iter, pencilX := x, draws }
  else .inr (draws, x)

theorem renderFragmentRound_empty (draws : List Draw) :
    renderFragmentRound dnsize log y { ptr, length := 0, iter, pencilX := x, draws } =
      nextFragment log iter x draws := by
  rw [renderFragmentRound, nextFragment]
  simp only [ne_eq, not_true, false_and, ↓reduceIte]

theorem renderFragmentRound_stop (hlen : len ≠ 0)
    (hstop : u8 (x + fragmentWidth dnsize log (ptr, len)) > UI_DISPLAY_PIXEL_X)
    (draws : List Draw) :
    renderFragmentRound dnsize log y { ptr, length := len, iter, pencilX := x, draws } =
      .inr (draws ++ [⟨x, y, ptr, len⟩], u8 (x + fragmentWidth dnsize log (ptr, len))) := by
  unfold fragmentWidth at *
  rw [renderFragmentRound]
  simp only [hlen, ne_eq, not_false_eq_true, true_and, ↓reduceIte, if_pos hstop]

theorem renderFragmentRound_go (hlen : len ≠ 0)
    (hgo : ¬ u8 (x + fragmentWidth dnsize log (ptr, len)) > UI_DISPLAY_PIXEL_X)
    (draws : List Draw) :
    renderFragmentRound dnsize log y { ptr, length := len, iter, pencilX := x, draws } =
      nextFragment log iter (u8 (x + fragmentWidth dnsize log (ptr, len)))
          (draws ++ [⟨x, y, ptr, len⟩]) := by
  unfold fragmentWidth at *
  rw [renderFragmentRound, nextFragment]
  simp only [hlen, ne_eq, not_false_eq_true, true_and, ↓reduceIte, if_neg hgo]

/-- What the loop returns once it is at the fragments that remain. -/
def drawn (dnsize : List UInt8 → Int) (log : Objectlog) (y x : Nat) (draws : List Draw)
    (fragments : List (Nat × Nat)) : List Draw × Nat :=
  (draws ++ (placed dnsize log x fragments).1.map (drawOf y), (placed dnsize log x fragments).2)

def drawLoop (dnsize : List UInt8 → Int) (log : Objectlog) (y : Nat) (s : DrawState) :
    Comp (List Draw × Nat) :=
  Comp.loop (fun s => pure (renderFragmentRound dnsize log y s)) s

theorem Fragments.draws (h : Fragments log iter fragments) {it : Int}
    (hnext : objectlogNext log it = iter) (ptr len x : Nat) (draws : List Draw) :
    (drawLoop dnsize log y { ptr, length := len, iter := it, pencilX := x, draws }).Returns
      (drawn dnsize log y x draws ((ptr, len) :: fragments)) := by
  induction h generalizing it ptr len x draws with
  | @done iter hend =>
    have hround : ∀ x draws, nextFragment log it x draws = .inr (draws, x) := fun x draws =>
      if_neg (by omega)
    refine .loop_exit (Comp.returns_pure.mpr ?_)
    by_cases hlen : len = 0
    · subst hlen
      rw [renderFragmentRound_empty, hround, drawn, placed_empty]
      simp [placed, Pen.place]
    · by_cases hstop : u8 (x + fragmentWidth dnsize log (ptr, len)) > UI_DISPLAY_PIXEL_X
      · rw [renderFragmentRound_stop hlen hstop, drawn, placed_stop hlen hstop]
        rfl
      · rw [renderFragmentRound_go hlen hstop, hround, drawn, placed_go hlen hstop]
        rfl
  | @next iter f fs hget _ ih =>
    have hround : ∀ x draws, nextFragment log it x draws =
        .inl { ptr := f.1, length := f.2, iter, pencilX := x, draws } := by
      intro x draws
      have hpos := objectlogGetFragment_nonneg hget
      rw [nextFragment, hnext, if_pos hpos, hget]
      rfl
    by_cases hlen : len = 0
    · subst hlen
      have hagain : renderFragmentRound dnsize log y
        { ptr, length := 0, iter := it, pencilX := x, draws } =
          nextFragment log it x draws := renderFragmentRound_empty draws
      rw [hround] at hagain
      rw [drawn, placed_empty]
      exact .loop_again (Comp.returns_pure.mpr hagain) (ih rfl f.1 f.2 x draws)
    · by_cases hstop : u8 (x + fragmentWidth dnsize log (ptr, len)) > UI_DISPLAY_PIXEL_X
      · rw [drawn, placed_stop hlen hstop]
        exact .loop_exit (Comp.returns_pure.mpr (renderFragmentRound_stop hlen hstop draws))
      · have hagain : renderFragmentRound dnsize log y
          { ptr, length := len, iter := it, pencilX := x, draws } =
            nextFragment log it _ _ := renderFragmentRound_go hlen hstop draws
        rw [hround] at hagain
        refine .loop_again (Comp.returns_pure.mpr hagain) ?_
        have hrest := ih rfl f.1 f.2 (u8 (x + fragmentWidth dnsize log (ptr, len)))
          (draws ++ [⟨x, y, ptr, len⟩])
        rw [drawn, placed_go hlen hstop]
        rwa [drawn, List.append_assoc] at hrest

-- ---------------------------------------------------------------------------
-- The text drawn
-- ---------------------------------------------------------------------------

theorem IsWidth.empty (h : IsWidth dnsize) : dnsize [] = 0 := by
  have := h.append [] []
  rw [List.append_nil] at this
  omega

theorem IsWidth.flatten (h : IsWidth dnsize) (texts : List (List UInt8)) :
    dnsize texts.flatten = Pen.total dnsize texts := by
  induction texts with
  | nil => exact h.empty
  | cons text texts ih => rw [List.flatten_cons, h.append, ih, Pen.total_cons]

theorem IsWidth.flatten_map (h : IsWidth dnsize) (fragments : List (Nat × Nat)) :
    dnsize ((fragments.map (fragmentBytes log.ring)).flatten) =
      Pen.total (fragmentWidth dnsize log) fragments := by
  rw [h.flatten, Pen.total, List.map_map]
  rfl

theorem drawnBytes_map (spots : List (Nat × (Nat × Nat))) :
    drawnBytes log (spots.map (drawOf y)) =
      ((spots.map Prod.snd).map (fragmentBytes log.ring)).flatten := by
  rw [drawnBytes, List.flatMap_map, List.map_map, ← List.flatMap_def]
  rfl

theorem placed_iff_exact (h : IsWidth dnsize) (spots : List (Nat × (Nat × Nat))) :
    Placed dnsize log (spots.map (drawOf y)) ↔
      Pen.Exact (fragmentWidth dnsize log) UI_DISPLAY_PIXEL_X 0 spots := by
  have hwidth : ∀ before : List (Nat × (Nat × Nat)),
    dnsize (drawnBytes log (before.map (drawOf y))) =
      0 + Pen.total (fragmentWidth dnsize log) (before.map Prod.snd) := by
    intro before
    rw [drawnBytes_map, h.flatten_map, Int.zero_add]
  constructor
  · intro hplaced before x f after hsplit
    have hdraw := hplaced (before.map (drawOf y)) (drawOf y (x, f)) (after.map (drawOf y)) (by
      rw [hsplit, List.map_append, List.map_cons])
    rwa [hwidth] at hdraw
  · intro hexact before d after hsplit
    obtain ⟨before', rest, rfl, rfl, hrest⟩ := List.map_eq_append_iff.mp hsplit
    obtain ⟨f, after', rfl, rfl, rfl⟩ := List.map_eq_cons_iff.mp hrest
    rw [hwidth]
    exact hexact before' f.1 f.2 after' rfl

theorem caught_iff_stopsInTime (h : IsWidth dnsize) (fragments : List (Nat × Nat)) :
    Pen.Caught (fragmentWidth dnsize log) 256 UI_DISPLAY_PIXEL_X 0 (fragments.filter (·.2 ≠ 0)) ↔
      StopsInTime dnsize (textsOf log fragments) := by
  have hwidth : ∀ n, dnsize ((textsOf log fragments).take n).flatten =
      0 + Pen.total (fragmentWidth dnsize log) ((fragments.filter (·.2 ≠ 0)).take n) := by
    intro n
    rw [textsOf, ← List.map_take, h.flatten_map, Int.zero_add]
  unfold Pen.Caught StopsInTime
  simp only [hwidth]
  rw [textsOf, List.length_map]
  rfl

structure DrawsOf (dnsize : List UInt8 → Int) (log : Objectlog) (texts : List (List UInt8))
    (draws : List Draw) :
    Prop where
  text : drawnBytes log draws <+: texts.flatten
  complete : drawnBytes log draws = texts.flatten ∨
    UI_DISPLAY_PIXEL_X < dnsize (drawnBytes log draws)
  placed_iff : Placed dnsize log draws ↔ StopsInTime dnsize texts

theorem drawn_drawsOf (h : IsWidth dnsize) (y : Nat) (fragments : List (Nat × Nat)) :
    DrawsOf dnsize log (textsOf log fragments) (drawn dnsize log y 0 [] fragments).1 := by
  have hwidth : ∀ f, 0 ≤ fragmentWidth dnsize log f := fun f => h.nonneg _
  have hbytes : drawnBytes log _ = _ := drawnBytes_map (y := y) (placed dnsize log 0 fragments).1
  rw [drawn, List.nil_append]
  refine ⟨?_, ?_, ?_⟩
  · rw [hbytes, textsOf]
    exact ((Pen.place_isPrefix 0 _).map _).flatten
  · rw [hbytes, h.flatten_map, textsOf]
    rcases Pen.place_complete hwidth (show 0 < 256 by decide) 0 (fragments.filter (·.2 ≠ 0)) with
      hall | hwide
    · exact .inl (by rw [placed, hall])
    · rw [Int.natCast_zero, Int.zero_add] at hwide
      exact .inr hwide
  · rw [placed_iff_exact h, ← caught_iff_stopsInTime h]
    exact Pen.place_exact_iff hwidth (by decide) rfl (by decide)

theorem drawn_inside (hin : ∀ f ∈ fragments, f.1 + f.2 ≤ log.ring.buffer.length) (x y : Nat) :
    ∀ d ∈ (drawn dnsize log y x [] fragments).1, d.ptr + d.len ≤ log.ring.buffer.length := by
  intro d hd
  rw [drawn, List.nil_append] at hd
  obtain ⟨spot, hspot, rfl⟩ := List.mem_map.mp hd
  have hmem : spot.2 ∈ fragments.filter (·.2 ≠ 0) :=
    (Pen.place_isPrefix x _).subset (List.mem_map_of_mem hspot)
  exact hin spot.2 (List.mem_of_mem_filter hmem)

theorem drawn_head (hlen : len ≠ 0) (fragments : List (Nat × Nat)) :
    ⟨x, y, ptr, len⟩ ∈ (drawn dnsize log y x [] ((ptr, len) :: fragments)).1 := by
  rw [drawn, List.nil_append]
  by_cases hstop : u8 (x + fragmentWidth dnsize log (ptr, len)) > UI_DISPLAY_PIXEL_X
  · rw [placed_stop hlen hstop]
    exact List.mem_cons_self ..
  · rw [placed_go hlen hstop]
    exact List.mem_cons_self ..

theorem showsText_withReadPtr {draws : List Draw} (r : Nat) :
    ShowsText dnsize (log.withReadPtr r) text draws ↔ ShowsText dnsize log text draws :=
  ⟨fun h => ⟨h.inside, h.text, h.placed⟩, fun h => ⟨h.inside, h.text, h.placed⟩⟩

theorem DrawsOf.showsText_iff {texts : List (List UInt8)} {draws : List Draw}
    (h : DrawsOf dnsize log texts draws) (hin : ∀ d ∈ draws, d.ptr + d.len ≤ log.ring.buffer.length)
    (htext : texts.flatten = text ∨ texts = []) :
    ShowsText dnsize log text draws ↔ StopsInTime dnsize texts := by
  rw [← h.placed_iff]
  refine ⟨fun hshows => hshows.placed, fun hplaced => ⟨hin, h.text.trans ?_, hplaced⟩⟩
  rcases htext with rfl | rfl
  · exact List.prefix_rfl
  · exact List.nil_prefix

-- ---------------------------------------------------------------------------
-- The line of a message
-- ---------------------------------------------------------------------------

/-- The line that a round of the loop over the log draws of a message of the
page. -/
def DrawsLine (dnsize : List UInt8 → Int) (log : Objectlog) (y : Nat) (message : MessageResult)
    (line : RenderedLine) : Prop :=
  match message.fragment with
  | none => line = ⟨none, y, [], 0⟩
  | some (ptr, len, iter) => ∃ draws x,
    (drawLoop dnsize log y { ptr, length := len, iter, pencilX := 0, draws := [] }).Returns
      (draws, x) ∧
    line = ⟨some iter, y, draws, x⟩

/-- The state of the loop over the log after a line. -/
def RenderState.withLine (s : RenderState) (log : Objectlog) (line : RenderedLine) :
    RenderState where
  i := u32 (s.i + 1)
  objectlog := log
  linesDrawn := u16 (s.linesDrawn + 1)
  lines := s.lines ++ [line]

theorem renderRound_iff {s : RenderState} {message : MessageResult}
    {r : RenderState ⊕ (List RenderedLine × Objectlog)}
    (hmore : s.i < s.objectlog.numEntries ∧ s.linesDrawn < maxLines page)
    (hget : (uiObjectlogGetMessage s.objectlog (toInt (u32 (-s.i))) page.scrollX
      [0xFF, 0, 0]).Returns (message, log')) :
    (renderRound dnsize page s).Returns r ↔
      if message.hdr.head? = some page.id then
        ∃ line, DrawsLine dnsize log' (u8 ((maxLines page - s.linesDrawn) * 8)) message line ∧
          r = .inl (s.withLine log' line)
      else r = .inl { s with i := u32 (s.i + 1), objectlog := log' } := by
  rw [renderRound, if_pos hmore, hget.bind_iff]
  simp only
  split
  · obtain ⟨hdr, _ | ⟨ptr, len, iter⟩⟩ := message
    · rw [Comp.returns_pure]
      constructor
      · rintro rfl
        exact ⟨_, rfl, rfl⟩
      · rintro ⟨line, hline, rfl⟩
        obtain rfl : line = _ := hline
        rfl
    · rw [Comp.returns_bind]
      constructor
      · rintro ⟨⟨draws, x⟩, hdraws, hround⟩
        exact ⟨_, ⟨draws, x, hdraws, rfl⟩, (Comp.returns_pure.mp hround).symm⟩
      · rintro ⟨line, ⟨draws, x, hdraws, rfl⟩, rfl⟩
        exact ⟨(draws, x), hdraws, Comp.returns_pure.mpr rfl⟩
  · rw [Comp.returns_pure]
    exact eq_comm

theorem DrawsLine.unique {message : MessageResult} {line line' : RenderedLine}
    (h : DrawsLine dnsize log y message line) (h' : DrawsLine dnsize log y message line') :
    line = line' := by
  obtain ⟨hdr, _ | ⟨ptr, len, iter⟩⟩ := message
  · exact Eq.trans h (Eq.symm h')
  · obtain ⟨draws, x, hdraws, rfl⟩ := h
    obtain ⟨draws', x', hdraws', rfl⟩ := h'
    obtain ⟨rfl, rfl⟩ := Prod.mk.inj (hdraws.unique hdraws')
    rfl

-- ---------------------------------------------------------------------------
-- The page of a message
-- ---------------------------------------------------------------------------

/-- The header of `hdr` starts with the first byte of the fragment, once a
byte was read, and `ptr` is at that fragment. -/
structure HdrStarts (p : Nat) (frag : List UInt8) (s : HdrState) : Prop where
  length : s.hdr.length = SIZEOF_MESSAGE_HDR
  bytesRead_le : s.bytesRead ≤ SIZEOF_MESSAGE_HDR
  head : s.bytesRead = 0 ∨
    frag ≠ [] ∧ s.hdr.head? = frag.head? ∧ s.ptr = p + 1 ∧ s.length = frag.length

theorem HdrStarts.round {frag : List UInt8} {final : Bool} {s : HdrState}
    (hinv : HdrStarts p frag s) (h : FragmentAt log.ring p frag final) :
    ∃ s', messageHdrRound log p s =
      (if s'.bytesRead < SIZEOF_MESSAGE_HDR then .inl s' else .inr s') ∧
      HdrStarts p frag s' := by
  have hle3 := hinv.bytesRead_le
  have hcpy : u8 (min (SIZEOF_MESSAGE_HDR - s.bytesRead) frag.length : Nat) =
      min (SIZEOF_MESSAGE_HDR - s.bytesRead) frag.length := by
    unfold u8 SIZEOF_MESSAGE_HDR
    omega
  generalize hc : min (SIZEOF_MESSAGE_HDR - s.bytesRead) frag.length = c at hcpy
  have hle : c ≤ frag.length := hc ▸ Nat.min_le_right ..
  have hread : u8 (s.bytesRead + c : Nat) = s.bytesRead + c := by
    unfold u8 SIZEOF_MESSAGE_HDR at *
    omega
  have hbytes : fragmentBytes log.ring (p + 1, c) = frag.take c := by
    simpa using h.bytes (a := 0) (n := c) (by omega)
  refine ⟨{ hdr := overwrite s.hdr s.bytesRead (frag.take c), bytesRead := s.bytesRead + c,
            ptr := p + 1, length := frag.length }, ?_, ?_, ?_, ?_⟩
  · simp only [messageHdrRound, h.getFragment, Option.getD_some, hc, hcpy, hbytes]
    rw [← Int.natCast_add, hread]
  · simp only [length_overwrite, hinv.length]
  · simp only
    omega
  · simp only [List.head?_eq_getElem?]
    by_cases hfirst : s.bytesRead = 0
    · by_cases hempty : frag = []
      · subst hempty
        left
        rw [hfirst, Nat.eq_zero_of_le_zero hle]
      · right
        have hpos := List.length_pos_iff.mpr hempty
        have hlen := hinv.length
        unfold SIZEOF_MESSAGE_HDR at *
        refine ⟨hempty, ?_, trivial, trivial⟩
        have hhead := getElem?_overwrite s.hdr (frag.take c) 0 (i := 0) (by simp; omega) (by omega)
        rw [hfirst]
        simpa [List.getElem?_take, show 0 < c by omega] using hhead
    · obtain ⟨hne, hhead, -, -⟩ := hinv.head.resolve_left hfirst
      rw [List.head?_eq_getElem?, List.head?_eq_getElem?] at hhead
      exact .inr ⟨hne, by rw [getElem?_overwrite_lt (by omega), hhead], trivial, trivial⟩

/-- However the header is split, the loop over it reads the first byte, and ends
at the first fragment. -/
theorem messageHdr_head {frag hdr : List UInt8} {final : Bool} {s : HdrState}
    (h : FragmentAt log.ring p frag final) (hhdr : hdr.length = SIZEOF_MESSAGE_HDR)
    (hret : (Comp.loop (fun s => pure (messageHdrRound log p s))
      { hdr, bytesRead := 0, ptr := 0, length := 0 }).Returns s) :
    frag ≠ [] ∧ s.hdr.head? = frag.head? ∧ s.bytesRead = SIZEOF_MESSAGE_HDR ∧ s.ptr = p + 1 ∧
      s.length = frag.length := by
  refine hret.loop_invariant (HdrStarts p frag) (fun s => frag ≠ [] ∧ s.hdr.head? = frag.head? ∧
    s.bytesRead = SIZEOF_MESSAGE_HDR ∧ s.ptr = p + 1 ∧ s.length = frag.length) ?_ ?_
    ⟨hhdr, Nat.zero_le _, .inl rfl⟩
  · intro s s' hinv hround
    obtain ⟨t, hround', ht⟩ := hinv.round h
    rw [Comp.returns_pure, hround'] at hround
    split at hround
    · obtain rfl := Sum.inl.inj hround
      exact ht
    · cases hround
  · intro s s' hinv hround
    obtain ⟨t, hround', ht⟩ := hinv.round h
    rw [Comp.returns_pure, hround'] at hround
    split at hround
    · cases hround
    · next hall =>
      obtain rfl := Sum.inr.inj hround
      have hread : t.bytesRead = SIZEOF_MESSAGE_HDR :=
        Nat.le_antisymm ht.bytesRead_le (Nat.not_lt.mp hall)
      obtain ⟨hne, hhead, hptr, hlength⟩ := ht.head.resolve_left fun h0 => hall (by rw [h0]; decide)
      exact ⟨hne, hhead, hread, hptr, hlength⟩

theorem ChainAt.head_page (h : ChainAt log.ring p m.object) {hdr : List UInt8}
    {message : MessageResult}
    {log'' : Objectlog} (hit : (objectlogIterator log' k).Returns ((p : Nat), log))
    (hhdr : hdr.length = SIZEOF_MESSAGE_HDR)
    (hget : (uiObjectlogGetMessage log' k o hdr).Returns (message, log'')) :
    message.hdr.head? = some m.hdr.pageId ∧ log'' = log := by
  rw [uiObjectlogGetMessage, hit.bind_iff] at hget
  simp only at hget
  rw [if_neg (by omega)] at hget
  obtain ⟨s, hs, hget⟩ := Comp.returns_bind.mp hget
  obtain ⟨found, -, hget⟩ := Comp.returns_bind.mp hget
  rw [Comp.returns_pure] at hget
  obtain ⟨rfl, rfl⟩ := Prod.mk.inj hget
  refine ⟨?_, rfl⟩
  have hobject : m.object.head? = some m.hdr.pageId := rfl
  generalize m.object = data at h hobject
  cases h with
  | last hf => rw [(messageHdr_head hf hhdr hs).2.1, hobject]
  | more hf _ _ _ =>
    obtain ⟨hne, hhead, -⟩ := messageHdr_head hf hhdr hs
    rw [List.head?_append_of_ne_nil _ hne] at hobject
    rw [hhead, hobject]

-- ---------------------------------------------------------------------------
-- A split header
-- ---------------------------------------------------------------------------

/-- What `len` is after the header of a message that starts at cell `p`, one of
the last three, whose first fragment is shorter than the header. -/
def lenBehindHeader (p : Nat) : Nat := u8 ((2047 - p : Nat) - (SIZEOF_MESSAGE_HDR : Nat))

theorem ChainAt.split_header (h : ChainAt log.ring p m.object) (hsize : log.ring.size = 2048)
    (hp : 2044 < p) :
    ∃ frag rest, FragmentAt log.ring p frag false ∧ frag.length = 2047 - p ∧
      objectlogNext log p = 0 ∧
      StoredAt log.ring 0 rest := by
  have hobject := m.object_length
  generalize m.object = data at h hobject
  cases h with
  | last hf =>
    have hfits := hf.fits
    unfold SIZEOF_MESSAGE_HDR at hobject
    omega
  | @more _ frag rest hf hroom _ hrest =>
    have hfits := hf.fits
    have hlen : frag.length = 2047 - p := by
      rw [hroom, hsize]
      unfold fragmentRoom MAX_FRAGMENT_LEN
      omega
    have hwrap : (p + 1 + frag.length) % log.ring.size = 0 := by
      rw [hlen, hsize]
      omega
    refine ⟨frag, rest, hf, hlen, ?_, hwrap ▸ hrest.storedAt⟩
    rw [hf.next_more, hwrap]
    rfl

/-- A message with a split header is taken to go on behind the storage, or for
one that ends. -/
theorem getMessage_split_header (h : ChainAt log.ring p m.object) (hsize : log.ring.size = 2048)
    (hp : 2044 < p) (hit : (objectlogIterator log' k).Returns ((p : Nat), log)) {hdr : List UInt8}
    {message : MessageResult} {log'' : Objectlog} (hhdr : hdr.length = SIZEOF_MESSAGE_HDR)
    (hget : (uiObjectlogGetMessage log' k o hdr).Returns (message, log'')) :
    message.fragment = (if o < lenBehindHeader p then
      some (p + 1 + (SIZEOF_MESSAGE_HDR + o), lenBehindHeader p - o, (p : Int)) else none) := by
  obtain ⟨frag, rest, hf, hlen, hnext, -⟩ := h.split_header hsize hp
  rw [uiObjectlogGetMessage, hit.bind_iff] at hget
  simp only at hget
  rw [if_neg (by omega)] at hget
  obtain ⟨s, hs, hget⟩ := Comp.returns_bind.mp hget
  obtain ⟨-, -, hread, hptr, hlength⟩ := messageHdr_head hf hhdr hs
  obtain ⟨found, hfound, hget⟩ := Comp.returns_bind.mp hget
  obtain ⟨rfl, -⟩ := Prod.mk.inj (Comp.returns_pure.mp hget)
  have hloop : (skipFrom log p (SIZEOF_MESSAGE_HDR + lenBehindHeader p) SIZEOF_MESSAGE_HDR
      o).Returns found := by
    rw [skipFrom, Nat.add_sub_cancel_left, lenBehindHeader, ← hlen, ← hlength, ← hread, ← hptr]
    exact hfound
  have hpos : 0 < lenBehindHeader p := by
    unfold lenBehindHeader u8 SIZEOF_MESSAGE_HDR
    omega
  split
  · next ho =>
    obtain rfl := hloop.unique (skipFrom_inside (.inr (by omega)))
    rw [Option.map_some, Nat.add_sub_add_left]
  · next ho =>
    obtain rfl := hloop.unique (skipFrom_end (by omega) (by omega) (Int.le_of_eq hnext))
    rfl

theorem DrawsLine.split_header {message : MessageResult} {line : RenderedLine}
    (hdraws : DrawsLine dnsize log y message line) (h : ChainAt log.ring p m.object)
    (hsize : log.ring.size = 2048) (hlen : log.ring.buffer.length = log.ring.size) (hp : 2044 < p)
    (hfound : message.fragment = (if o < lenBehindHeader p then
      some (p + 1 + (SIZEOF_MESSAGE_HDR + o), lenBehindHeader p - o, (p : Int)) else none))
        (text : List UInt8) :
    ShowsText dnsize log text line.draws ↔ lenBehindHeader p ≤ o := by
  rw [DrawsLine, hfound] at hdraws
  by_cases ho : o < lenBehindHeader p
  · rw [if_pos ho] at hdraws
    obtain ⟨draws, x, hloop, rfl⟩ := hdraws
    obtain ⟨frag, rest, -, -, hnext, hrest⟩ := h.split_header hsize hp
    obtain ⟨fragments, hread, -⟩ := hrest.readsBack hlen
    have hdrawn : (drawLoop dnsize log y _).Returns _ :=
      (readFragments_fragments hread).draws hnext (p + 1 + (SIZEOF_MESSAGE_HDR + o))
        (lenBehindHeader p - o) 0 []
    obtain ⟨rfl, -⟩ := Prod.mk.inj (hloop.unique hdrawn)
    refine iff_of_false (fun hshows => ?_) (Nat.not_le.mpr ho)
    have hfirst := hshows.inside _ (drawn_head (Nat.sub_ne_zero_of_lt ho) fragments)
    rw [hlen, hsize] at hfirst
    dsimp only at hfirst
    unfold SIZEOF_MESSAGE_HDR at hfirst
    omega
  · rw [if_neg ho] at hdraws
    obtain rfl : line = _ := hdraws
    refine iff_of_true ⟨?_, List.nil_prefix, ?_⟩ (Nat.not_lt.mp ho)
    · exact fun d hd => absurd hd List.not_mem_nil
    · intro before d after hsplit
      simp at hsplit

-- ---------------------------------------------------------------------------
-- The lines of a page
-- ---------------------------------------------------------------------------

/-- The line of the `i`-th oldest retained message. It shows the text of the
message from `scroll_x` on exactly if the header is whole and the cursor stops
in time at the places where the ring has split the text. With its header split
it does if nothing is drawn. -/
def LineDecided (dnsize : List UInt8 → Int) (log : Objectlog) (ms : List UiMessage) (page : Page)
    (line : RenderedLine) (i : Nat) : Prop :=
  ∀ p m, StartsAt log (ms.map UiMessage.object) i p → ms[i]? = some m →
    (p ≤ 2044 → ∃ texts,
      (∀ k, IsInt k → resolveIdx ms.length k = some i → SplitInto log k page.scrollX texts) ∧
      (texts.flatten = m.payload.drop page.scrollX ∨ 0 < page.scrollX ∧ texts = []) ∧
      DrawsOf dnsize log texts line.draws ∧
      (ShowsText dnsize log (m.payload.drop page.scrollX) line.draws ↔ StopsInTime dnsize texts)) ∧
    (2044 < p →
      (ShowsText dnsize log (m.payload.drop page.scrollX) line.draws ↔
        lenBehindHeader p ≤ page.scrollX))

theorem ShowsRest.split {s : OffsetState} (h : ShowsRest log data s) :
    ∃ fragments, (readFragments log (objectlogNext log s.iter)).Returns (fragments, -2) ∧
      (textsOf log ((s.ptr, s.length) :: fragments)).flatten = data := by
  obtain ⟨-, fragments, hread, hbytes⟩ := h
  exact ⟨fragments, hread, by rw [flatten_textsOf, List.flatMap_cons, hbytes]⟩

/-- The message that the next round asks for, and where it starts. -/
structure NextMessage (log : Objectlog) (ms : List UiMessage) (s : RenderState) (m : UiMessage)
    (p r : Nat) :
    Prop where
  int : IsInt (toInt (u32 (-s.i)))
  idx : resolveIdx ms.length (toInt (u32 (-s.i))) = some (visited ms.length s.i)
  message : ms[visited ms.length s.i]? = some m
  start : StartsAt log (ms.map UiMessage.object) (visited ms.length s.i) p
  chain : ChainAt log.ring p m.object
  iterator : (objectlogIterator s.objectlog (toInt (u32 (-s.i)))).Returns
    ((p : Nat), log.withReadPtr r)
  u32_i : u32 (s.i + 1) = s.i + 1
  numEntries : s.i < s.objectlog.numEntries

theorem Retaining.nextMessage (h : Retaining log ms) {s : RenderState}
    (hlog : ∃ r, s.objectlog = log.withReadPtr r)
    (hi : s.i < ms.length) : ∃ m p r, NextMessage log ms s m p r := by
  obtain ⟨r, hlog⟩ := hlog
  have hn : ms.length < 65536 := by
    have := Stores.count_lt h
    rwa [h.numEntries] at this
  obtain ⟨hint, hidx⟩ := visited_index hi hn
  obtain ⟨m, hm⟩ : ∃ m, ms[visited ms.length s.i]? = some m :=
    ⟨_, List.getElem?_eq_getElem (resolveIdx_lt hidx)⟩
  obtain ⟨p, r', hstart, hchain, hit⟩ := h.iterator hint hidx hm r
  refine ⟨m, p, r', hint, hidx, hm, hstart, hchain, hlog ▸ hit, u32_succ hi hn, ?_⟩
  rw [hlog, withReadPtr_numEntries, h.numEntries]
  exact hi

/-- The line of a message whose header is whole is drawn, and is as it has to be. -/
theorem NextMessage.line {s : RenderState} (hnext : NextMessage log ms s m p r)
    (h : Retaining log ms) (hwidth : IsWidth dnsize) (hp : p ≤ 2044) (y : Nat) :
    ∃ message, (uiObjectlogGetMessage s.objectlog (toInt (u32 (-s.i))) page.scrollX
      [0xFF, 0, 0]).Returns
        (message, log.withReadPtr r) ∧
      ∃ line, DrawsLine dnsize (log.withReadPtr r) y message line ∧
        LineDecided dnsize log ms page line (visited ms.length s.i) := by
  obtain ⟨found, hfind, hfound⟩ :=
    hnext.chain.found (Stores.size h) (Stores.storage h) hp page.scrollX
  have hindex : ∀ k, IsInt k → resolveIdx ms.length k = some (visited ms.length s.i) → ∃ r',
      (uiObjectlogGetMessage log k page.scrollX [0xFF, 0, 0]).Returns
        (⟨m.hdr.bytes, found.map fun s => (s.ptr, s.length, s.iter)⟩, log.withReadPtr r') := by
    intro k hint hidx
    obtain ⟨q, r', hstart, -, hit⟩ := h.iterator hint hidx hnext.message log.ring.readPtr
    obtain rfl := hnext.start.unique hstart
    exact ⟨r', hfind log r' k _ hit rfl⟩
  have hthis : ∀ {q m'}, StartsAt log (ms.map UiMessage.object) (visited ms.length s.i) q →
      ms[visited ms.length s.i]? = some m' → q = p ∧ m' = m := fun hstart hm =>
    ⟨hstart.unique hnext.start, Option.some.inj (hm.symm.trans hnext.message)⟩
  refine ⟨_, hfind _ r _ _ hnext.iterator rfl, ?_⟩
  rcases hfound with ⟨ho, -, rfl⟩ | ⟨-, s', rfl, hshows, hstorage⟩
  · refine ⟨_, rfl, fun q m' hstart hm => ?_⟩
    obtain ⟨rfl, rfl⟩ := hthis hstart hm
    have hdraws : DrawsOf dnsize log [] _ := drawn_drawsOf hwidth 0 []
    refine ⟨fun _ => ⟨[], fun k hint hidx => ?_, .inr ⟨Nat.pos_of_ne_zero ho, rfl⟩, hdraws, ?_⟩,
      fun hsplit => absurd hp (Nat.not_le.mpr hsplit)⟩
    · obtain ⟨r', hget⟩ := hindex k hint hidx
      exact ⟨_, _, hget, rfl⟩
    · exact hdraws.showsText_iff (drawn_inside (fun _ hf => absurd hf List.not_mem_nil) 0 0)
        (.inr rfl)
  · obtain ⟨fragments, hread, hbytes⟩ := hshows.split
    have hloop : (drawLoop dnsize log y _).Returns _ :=
      (readFragments_fragments hread).draws rfl s'.ptr s'.length 0 []
    refine ⟨_, ⟨_, _, hloop, rfl⟩, fun q m' hstart hm => ?_⟩
    obtain ⟨rfl, rfl⟩ := hthis hstart hm
    have hdraws : DrawsOf dnsize log (textsOf log ((s'.ptr, s'.length) :: fragments)) _ :=
      drawn_drawsOf hwidth y _
    have hin : ∀ f ∈ (s'.ptr, s'.length) :: fragments, f.1 + f.2 ≤ log.ring.buffer.length :=
      List.forall_mem_cons.mpr ⟨hshows.1, hstorage _ _ hread⟩
    refine ⟨fun _ => ⟨_, fun k hint hidx => ?_, .inl hbytes, hdraws,
      hdraws.showsText_iff (drawn_inside hin 0 y) (.inl hbytes)⟩, fun hsplit =>
        absurd hp (Nat.not_le.mpr hsplit)⟩
    obtain ⟨r', hget⟩ := hindex k hint hidx
    exact ⟨_, _, hget, fragments, hread, rfl⟩

/-- The lines drawn so far are those of the messages asked for. -/
structure LinesInv (dnsize : List UInt8 → Int) (log : Objectlog) (ms : List UiMessage) (page : Page)
    (s : RenderState) : Prop where
  objectlog : ∃ r, s.objectlog = log.withReadPtr r
  i_le : s.i ≤ ms.length
  lines : List.Forall₂ (LineDecided dnsize log ms page) s.lines (visitedOnPage ms page.id s.i)

theorem LinesInv.init : LinesInv dnsize log ms page
    { i := 0, objectlog := log, linesDrawn := 0, lines := [] } :=
  ⟨⟨log.ring.readPtr, rfl⟩, Nat.zero_le _, .nil⟩

/-- A round that returns draws the line of the next message if that is one of
the page. -/
theorem LinesInv.round {s : RenderState} {o : RenderState ⊕ (List RenderedLine × Objectlog)}
    (hinv : LinesInv dnsize log ms page s) (h : Retaining log ms) (hwidth : IsWidth dnsize)
    (hi : s.i < ms.length)
    (hlines : s.linesDrawn < maxLines page) (hround : (renderRound dnsize page s).Returns o) :
    ∃ s', o = .inl s' ∧ LinesInv dnsize log ms page s' := by
  obtain ⟨m, p, r, hnext⟩ := h.nextMessage hinv.objectlog hi
  have hmore := And.intro hnext.numEntries hlines
  obtain ⟨⟨message, log'⟩, hget, -⟩ : ∃ found,
      (uiObjectlogGetMessage s.objectlog _ page.scrollX [0xFF, 0, 0]).Returns found ∧ _ := by
    rw [renderRound, if_pos hmore] at hround
    exact Comp.returns_bind.mp hround
  rw [renderRound_iff hmore hget] at hround
  obtain ⟨hhead, rfl⟩ := (hnext.chain.withReadPtr r).head_page hnext.iterator rfl hget
  have hpage : message.hdr.head? = some page.id ↔ onPage ms page.id (visited ms.length s.i) := by
    rw [hhead, onPage, hnext.message, Option.map_some, beq_iff_eq]
  have hsucc := visitedOnPage_succ ms page.id s.i
  split at hround
  · next hon =>
    obtain ⟨line, hdraws, rfl⟩ := hround
    rw [if_pos (hpage.mp hon)] at hsucc
    have hdecided : LineDecided dnsize log ms page line (visited ms.length s.i) := by
      intro q m' hstart hm'
      obtain rfl := hnext.start.unique hstart
      obtain rfl := Option.some.inj (hnext.message.symm.trans hm')
      by_cases hp : p ≤ 2044
      · obtain ⟨message', hget', line', hdraws', hline'⟩ := hnext.line h hwidth hp _
        obtain ⟨rfl, -⟩ := Prod.mk.inj (hget.unique hget')
        obtain rfl := hdraws.unique hdraws'
        exact hline' p m hstart hm'
      · have hchain := hnext.chain.withReadPtr r
        have hsize : log.ring.size = 2048 := Stores.size h
        have hlen : log.ring.buffer.length = log.ring.size := Stores.storage h
        have hfound :=
          getMessage_split_header hchain hsize (Nat.not_le.mp hp) hnext.iterator rfl hget
        exact ⟨fun hwhole => absurd hwhole hp,
          fun hsplit => (showsText_withReadPtr r).symm.trans
            (hdraws.split_header hchain hsize hlen hsplit hfound _)⟩
    refine ⟨_, rfl, ⟨r, rfl⟩, ?_, ?_⟩
    · simp only [RenderState.withLine, hnext.u32_i]
      exact hi
    · simp only [RenderState.withLine, hnext.u32_i, hsucc]
      exact List.rel_append hinv.lines (.cons hdecided .nil)
  · next hoff =>
    subst hround
    rw [if_neg (mt hpage.mpr hoff), List.append_nil] at hsucc
    refine ⟨_, rfl, ⟨r, rfl⟩, ?_, ?_⟩
    · simp only [hnext.u32_i]
      exact hi
    · simp only [hnext.u32_i, hsucc]
      exact hinv.lines

theorem Retaining.round_returns (h : Retaining log ms) (hwidth : IsWidth dnsize)
    (hwhole : HeadersWhole log ms)
    {s : RenderState} (hlog : ∃ r, s.objectlog = log.withReadPtr r) (hi : s.i < ms.length)
    (hlines : s.linesDrawn < maxLines page) :
    (renderRound dnsize page s).Ensures fun o => ∃ s', o = .inl s' ∧ s'.i = s.i + 1 := by
  obtain ⟨m, p, r, hnext⟩ := h.nextMessage hlog hi
  have hmore := And.intro hnext.numEntries hlines
  obtain ⟨message, hget, line, hdraws, -⟩ := hnext.line h hwidth (hwhole _ _ hnext.start) _
  by_cases hon : message.hdr.head? = some page.id
  · have hround := (renderRound_iff hmore hget).mpr (by rw [if_pos hon]; exact ⟨line, hdraws, rfl⟩)
    exact ⟨_, hround, _, rfl, hnext.u32_i⟩
  · exact ⟨_, (renderRound_iff hmore hget).mpr (by rw [if_neg hon]), _, rfl, hnext.u32_i⟩

theorem LinesInv.exit {s : RenderState} {o : RenderState ⊕ (List RenderedLine × Objectlog)}
    (hinv : LinesInv dnsize log ms page s) (h : Retaining log ms)
    (hexit : ¬ (s.i < ms.length ∧ s.linesDrawn < maxLines page)) :
    (renderRound dnsize page s).Returns o ↔ .inr (s.lines, s.objectlog) = o := by
  obtain ⟨r, hlog⟩ := hinv.objectlog
  rw [renderRound, if_neg, Comp.returns_pure]
  rwa [hlog, withReadPtr_numEntries, h.numEntries]

theorem Retaining.renders (h : Retaining log ms) (hwidth : IsWidth dnsize)
    (hwhole : HeadersWhole log ms) :
    ∃ r, (uiRenderLogs dnsize log page).Returns r := by
  have hensures : (uiRenderLogs dnsize log page).Ensures fun _ => True := by
    refine Comp.loop_ensures (LinesInv dnsize log ms page) (fun s => ms.length - s.i) _
      (fun s hinv => ?_) .init
    by_cases hmore : s.i < ms.length ∧ s.linesDrawn < maxLines page
    · obtain ⟨o, hround, s', rfl, hi⟩ :=
        h.round_returns hwidth hwhole hinv.objectlog hmore.1 hmore.2
      obtain ⟨t, ht, hinv'⟩ := hinv.round h hwidth hmore.1 hmore.2 hround
      obtain rfl := Sum.inl.inj ht
      exact ⟨_, hround, hinv', Nat.sub_lt_sub_left hmore.1 (by omega)⟩
    · exact ⟨_, (hinv.exit h hmore).mpr rfl, trivial⟩
  obtain ⟨r, hret, -⟩ := hensures
  exact ⟨r, hret⟩

theorem Retaining.lines (h : Retaining log ms) (hwidth : IsWidth dnsize) {lines : List RenderedLine}
    (hret : (uiRenderLogs dnsize log page).Returns (lines, log')) :
    List.Forall₂ (LineDecided dnsize log ms page) lines
      ((visitedOnPage ms page.id ms.length).take lines.length) := by
  refine hret.loop_invariant (LinesInv dnsize log ms page)
    (fun r => List.Forall₂ (LineDecided dnsize log ms page) r.1
      ((visitedOnPage ms page.id ms.length).take r.1.length)) ?_ ?_ LinesInv.init
  · intro s s' hinv hround
    by_cases hmore : s.i < ms.length ∧ s.linesDrawn < maxLines page
    · obtain ⟨t, ht, hinv'⟩ := hinv.round h hwidth hmore.1 hmore.2 hround
      exact Sum.inl.inj ht ▸ hinv'
    · cases (hinv.exit h hmore).mp hround
  · intro s r hinv hround
    by_cases hmore : s.i < ms.length ∧ s.linesDrawn < maxLines page
    · obtain ⟨t, ht, -⟩ := hinv.round h hwidth hmore.1 hmore.2 hround
      cases ht
    · obtain rfl := Sum.inr.inj ((hinv.exit h hmore).mp hround)
      have hvisited := visitedOnPage_prefix ms page.id hinv.i_le
      rw [hinv.lines.length_eq, ← List.prefix_iff_eq_take.mp hvisited]
      exact hinv.lines

/-- In every run of `ui_write_log` whose writes have room, the log retains the newest
of the messages written. And the fragments of a line are placed by the width of the
text before them exactly if the header is whole and the cursor stops in time, or
nothing is drawn for a split one. -/
theorem fragments_placed_iff
    (hrun : Run (Run.Guarded (fun log m => m.HasRoom log) UiStep) uiInit written log) :
    (∃ ms, Retaining log ms ∧ ms.Sublist written) ∧
      ∀ log ms, Retaining log ms → ∀ dnsize page, IsWidth dnsize →
        (HeadersWhole log ms → ∃ r, (uiRenderLogs dnsize log page).Returns r) ∧
        ∀ lines log', (uiRenderLogs dnsize log page).Returns (lines, log') →
          List.Forall₂ (LineDecided dnsize log ms page) lines
            ((visitedOnPage ms page.id ms.length).take lines.length) :=
  ⟨run_retaining hrun, fun _ _ hms _ _ hwidth =>
    ⟨hms.renders hwidth, fun _ _ hret => hms.lines hwidth hret⟩⟩

/-- A font in which every character is `n` pixels wide. -/
def charWidth (n : Nat) (text : List UInt8) : Int := n * text.length

theorem isWidth_charWidth (n : Nat) : IsWidth (charWidth n) where
  nonneg text := Int.mul_nonneg (Int.natCast_nonneg _) (Int.natCast_nonneg _)
  append text text' := by
    unfold charWidth
    rw [List.length_append, Int.natCast_add, Int.mul_add]

/-- A text of 125 characters, of which one is in a second fragment. -/
def messageLong : UiMessage := ⟨⟨0, 0, 0⟩, List.replicate 125 65⟩

def logLong : Objectlog :=
  ⟨⟨0x7f :: 0 :: 0 :: 0 :: (List.replicate 124 65 ++ 0x81 :: 65 :: List.replicate 1918 0),
    0, 130, 2048⟩, 0, 0, 1⟩

set_option maxRecDepth 20000 in
theorem uiStep_long : UiStep uiInit messageLong logLong := by
  have hwalk : (getNextEntry uiInit uiInit.ptrLast).Returns (0, uiInit) :=
    (keeps_init 2048).stores.getNextEntry_last (by decide) (by decide)
  have hwrite : (objectlogWriteScatteredObject uiInit messageLong.scatterList).Returns
      (0, logLong) :=
    (write_accepts_iff hwalk (by decide)).mpr
      ⟨uiInit, ⟨logLong.ring, 0, 0, 0⟩, ⟨12, rfl⟩, ⟨12, rfl⟩, rfl⟩
  exact uiWriteLog_returns hwrite

set_option maxRecDepth 20000 in
theorem rendered_long :
    ∃ log', (uiRenderLogs (charWidth 5) logLong pageLogs).Returns
      ([⟨some 0, 56, [⟨0, 56, 4, 124⟩, ⟨108, 56, 129, 1⟩], 113⟩], log') :=
  ⟨_, 12, rfl⟩

theorem run_long : Run (Run.Guarded (fun log m => m.HasRoom log) UiStep) uiInit
    [messageLong] logLong := by
  have hroom : messageLong.HasRoom uiInit :=
    ⟨by decide +kernel, by decide +kernel, .inr ⟨by decide +kernel, by decide +kernel, .inl rfl⟩⟩
  exact Run.nil.snoc ⟨hroom, uiStep_long⟩

theorem retaining_long : Retaining logLong [messageLong] := by
  have hempty : Retaining uiInit [] := (keeps_init 2048).stores
  exact hempty.store_second (by decide +kernel) (by decide +kernel) (by decide +kernel)
    (.inl rfl) uiStep_long

set_option maxRecDepth 20000 in
/-- In a font one pixel wide both fragments of the text are shown, one behind the
other. -/
theorem fragments_placed_iff_two : ∃ log' before after width,
    (uiRenderLogs (charWidth 1) logLong pageLogs).Returns
    ([⟨some 0, 56, [before, after], width⟩], log') ∧
      ShowsText (charWidth 1) logLong messageLong.payload [before, after] := by
  obtain ⟨hretains, hdecided⟩ := fragments_placed_iff run_long
  have hret : ∃ log', (uiRenderLogs (charWidth 1) logLong pageLogs).Returns
      ([⟨some 0, 56, [⟨0, 56, 4, 124⟩, ⟨124, 56, 129, 1⟩], 125⟩], log') := ⟨_, 12, rfl⟩
  obtain ⟨log', hret⟩ := hret
  obtain ⟨-, hlines⟩ := hdecided logLong _ retaining_long _ pageLogs (isWidth_charWidth 1)
  obtain ⟨hline, -⟩ := List.forall₂_cons.mp (hlines _ _ hret)
  obtain ⟨p, -, hstart, -⟩ := Stores.startsAt retaining_long (i := 0) Nat.zero_lt_one
  have hp : p = 0 := by
    obtain ⟨bytes, hall, rfl⟩ := hstart.place
    cases hall
    rfl
  obtain ⟨texts, -, htexts, -, hiff⟩ := (hline p messageLong hstart rfl).1 (by omega)
  have hflatten : texts.flatten = messageLong.payload := by
    rcases htexts with htexts | ⟨hscroll, -⟩
    · exact htexts
    · exact absurd hscroll (by decide)
  refine ⟨log', _, _, _, hret, hiff.mpr fun i _ hwide _ => absurd hwide ?_⟩
  -- a part of the text is not wider than the 125 pixels of all of it
  have hpart : (texts.take i).flatten.length ≤ 125 := by
    have hprefix : (texts.take i).flatten <+: messageLong.payload :=
      hflatten ▸ List.IsPrefix.flatten (List.take_prefix i texts)
    exact hprefix.length_le
  rw [charWidth, Int.natCast_one, Int.one_mul]
  have hdisplay : UI_DISPLAY_PIXEL_X = 128 := rfl
  omega

/-- The text before the second fragment is 620 pixels wide, which the cursor
takes for 108: the last character is drawn over the others. -/
theorem second_fragment_misplaced :
    Run UiStep uiInit [messageLong] logLong ∧ IsWidth (charWidth 5) ∧
      ∃ lines log' line, (uiRenderLogs (charWidth 5) logLong pageLogs).Returns (lines, log') ∧
        line ∈ lines ∧
        ¬ ShowsText (charWidth 5) logLong messageLong.payload line.draws := by
  obtain ⟨log', hret⟩ := rendered_long
  refine ⟨run_long.of_guarded, isWidth_charWidth 5, _, log', _, hret, List.mem_singleton_self _, ?_⟩
  intro hshows
  have hwide := (hshows.placed [⟨0, 56, 4, 124⟩] ⟨108, 56, 129, 1⟩ [] rfl).2
  exact absurd hwide (by decide +kernel)

end FxIP
