import Mathlib.Data.List.ReduceOption
import FxIP.Lib.Lines
import FxIP.Hayes

/-!
# What the modem answered

`hayes_read` bounds neither the offset nor the lengths of the lines, and does
not terminate what it cuts off. It frames the lines that fit.
-/

namespace FxIP

open Circular Lines

variable {hayes : Hayes} {buffer readbuf text got bytes : List UInt8} {readbuflength n : Nat}

/-- The cells are inside `hayes_response_buffer`. -/
def Inside (stores : List Nat) : Prop := ∀ cell ∈ stores, cell < SIZEOF_HAYES_RESPONSE_BUFFER

theorem inside_append {cell : Nat} {stores : List Nat} :
    Inside (stores ++ [cell]) ↔ Inside stores ∧ cell < SIZEOF_HAYES_RESPONSE_BUFFER := by
  simp only [Inside, List.mem_append, List.mem_singleton, or_imp, forall_and, forall_eq]

-- ---------------------------------------------------------------------------
-- Without an end of line
-- ---------------------------------------------------------------------------

/-- The text of the line so far is in the buffer. -/
structure Collected (hayes : Hayes) (text : List UInt8) : Prop where
  length : hayes.buffer.length = SIZEOF_HAYES_RESPONSE_BUFFER
  offset : hayes.offset = text.length
  text : hayes.buffer.take text.length = text

theorem Collected.take_store (h : Collected hayes text)
    (hfit : text.length < SIZEOF_HAYES_RESPONSE_BUFFER)
    (byte : UInt8) : (hayes.store hayes.offset byte).buffer.take (text ++ [byte]).length = text ++
    [byte] := by
  have hcell : text.length < hayes.buffer.length := h.length ▸ hfit
  simp only [Hayes.store, h.offset, List.length_append, List.length_singleton]
  rw [List.take_add_one, List.take_set_of_le (Nat.le_refl _), h.text, List.getElem?_set_self hcell]
  rfl

theorem Collected.append (h : Collected hayes text)
    (hfit : text.length < SIZEOF_HAYES_RESPONSE_BUFFER) (byte : UInt8) :
    Collected (hayes.append byte) (text ++ [byte]) := by
  refine ⟨?_, ?_, h.take_store hfit byte⟩
  · exact List.length_set.trans h.length
  · simp only [Hayes.append, h.offset, List.length_append, List.length_singleton]
    unfold u16 SIZEOF_HAYES_RESPONSE_BUFFER at *
    omega

theorem hayesLoop_reduce (hayes : Hayes) (results : List (Option UInt8)) :
    hayesLoop readbuf readbuflength hayes results =
      hayesLoop readbuf readbuflength hayes (results.reduceOption.map some) := by
  induction results generalizing hayes with
  | nil => rfl
  | cons result results ih =>
    cases result with
    | none =>
      rw [List.reduceOption_cons_of_none, hayesLoop]
      exact ih hayes
    | some byte =>
      simp only [List.reduceOption_cons_of_some, List.map_cons, hayesLoop]
      split
      · split
        · exact ih _
        · rfl
      · exact ih _

def Hayes.appendAll (hayes : Hayes) (bytes : List UInt8) : Hayes := bytes.foldl Hayes.append hayes

theorem hayesLoop_text (hnot : 0x0A ∉ bytes) (hayes : Hayes) (more : List (Option UInt8)) :
    hayesLoop readbuf readbuflength hayes (bytes.map some ++ more) =
      hayesLoop readbuf readbuflength (hayes.appendAll bytes) more := by
  induction bytes generalizing hayes with
  | nil => rfl
  | cons byte bytes ih =>
    rw [List.mem_cons, not_or] at hnot
    rw [List.map_cons, List.cons_append, hayesLoop, if_neg (Ne.symm hnot.1), ih hnot.2]
    rfl

theorem appendAll_echo (hayes : Hayes) (bytes : List UInt8) :
    (hayes.appendAll bytes).echo = hayes.echo := by
  induction bytes generalizing hayes with
  | nil => rfl
  | cons byte bytes ih => exact ih (hayes.append byte)

theorem appendAll_length (hayes : Hayes) (bytes : List UInt8) :
    (hayes.appendAll bytes).buffer.length = hayes.buffer.length := by
  induction bytes generalizing hayes with
  | nil => rfl
  | cons byte bytes ih => exact (ih (hayes.append byte)).trans List.length_set

theorem appendAll_stores (hayes : Hayes) (bytes : List UInt8) :
    hayes.stores <+: (hayes.appendAll bytes).stores := by
  induction bytes generalizing hayes with
  | nil => exact List.prefix_rfl
  | cons byte bytes ih => exact (List.prefix_append _ _).trans (ih (hayes.append byte))

theorem Collected.appendAll (h : Collected hayes text)
    (hfit : text.length ≤ SIZEOF_HAYES_RESPONSE_BUFFER)
    (bytes : List UInt8) :
    (Inside (hayes.appendAll bytes).stores ↔
      Inside hayes.stores ∧ (text ++ bytes).length ≤ SIZEOF_HAYES_RESPONSE_BUFFER) ∧
    ((text ++ bytes).length ≤ SIZEOF_HAYES_RESPONSE_BUFFER →
      Collected (hayes.appendAll bytes) (text ++ bytes)) := by
  induction bytes generalizing hayes text with
  | nil => simpa [Hayes.appendAll, hfit] using h
  | cons byte bytes ih =>
    have hstores : Inside (hayes.append byte).stores ↔
        Inside hayes.stores ∧ text.length < SIZEOF_HAYES_RESPONSE_BUFFER := h.offset ▸ inside_append
    have hcons : text ++ byte :: bytes = text ++ [byte] ++ bytes := by simp
    by_cases hroom : text.length < SIZEOF_HAYES_RESPONSE_BUFFER
    · obtain ⟨hinside, hcollected⟩ :=
        ih (h.append hroom byte) (by simpa using Nat.succ_le_of_lt hroom)
      rw [hstores, ← hcons, and_iff_left hroom] at hinside
      rw [← hcons] at hcollected
      exact ⟨hinside, hcollected⟩
    · -- the store behind the array
      have hlong : ¬ (text ++ byte :: bytes).length ≤ SIZEOF_HAYES_RESPONSE_BUFFER := by
        rw [List.length_append, List.length_cons]
        omega
      refine ⟨iff_of_false ?_ fun h => hlong h.2, fun h => absurd h hlong⟩
      intro hinside
      have hfirst : Inside (hayes.append byte).stores :=
        fun cell hcell => hinside cell ((appendAll_stores (hayes.append byte) bytes).subset hcell)
      exact hroom (hstores.mp hfirst).2

-- ---------------------------------------------------------------------------
-- Lines
-- ---------------------------------------------------------------------------

/-- The lines that are longest: with its NUL each has room. -/
def LONGEST_LINE : Nat := SIZEOF_HAYES_RESPONSE_BUFFER - 1

def Hayes.endLine (hayes : Hayes) : Hayes :=
  let hayes := hayes.append 0x0A
  hayes.store hayes.offset 0

theorem hayesLoop_line (hnot : 0x0A ∉ text) (hayes : Hayes) (more : List (Option UInt8)) :
    hayesLoop readbuf readbuflength hayes (text.map some ++ some 0x0A :: more) =
      let hayes' := (hayes.appendAll text).endLine
      if hayes.echo = 0 then hayesLoop readbuf readbuflength { hayes' with offset := 0, echo := 1 }
        more
      else (some (overwrite readbuf 0 (hayes'.buffer.take (min (hayes'.offset + 1) readbuflength))),
          hayes') := by
  rw [hayesLoop_text hnot, hayesLoop, if_pos rfl, ← appendAll_echo hayes text]
  rfl

theorem Collected.endLine (h : Collected hayes []) (text : List UInt8) :
    (Inside (hayes.appendAll text).endLine.stores ↔ Inside hayes.stores ∧
      (text ++ [0x0A]).length ≤ LONGEST_LINE) ∧
    ((text ++ [0x0A]).length ≤ LONGEST_LINE →
      (hayes.appendAll text).endLine.offset = (text ++ [0x0A]).length ∧
      (hayes.appendAll text).endLine.buffer.take (text ++ [0x0A] ++ [0]).length =
        text ++ [0x0A] ++ [0]) := by
  obtain ⟨hinside, hcollected⟩ := h.appendAll (Nat.zero_le _) text
  rw [List.nil_append] at hinside hcollected
  have hstores : Inside (hayes.appendAll text).endLine.stores ↔
    (Inside (hayes.appendAll text).stores ∧
      (hayes.appendAll text).offset < SIZEOF_HAYES_RESPONSE_BUFFER) ∧
        u16 ((hayes.appendAll text).offset + 1) < SIZEOF_HAYES_RESPONSE_BUFFER := by
    rw [← inside_append, ← inside_append]
    rfl
  have hlength : (text ++ [0x0A]).length ≤ LONGEST_LINE ↔
      text.length + 1 < SIZEOF_HAYES_RESPONSE_BUFFER := by
    rw [List.length_append, List.length_singleton]
    unfold LONGEST_LINE SIZEOF_HAYES_RESPONSE_BUFFER
    omega
  rw [hstores, hinside, hlength]
  constructor
  · constructor
    · rintro ⟨⟨⟨hold, hfit⟩, hoffset⟩, hu⟩
      rw [(hcollected hfit).offset] at hoffset hu
      refine ⟨hold, ?_⟩
      unfold u16 SIZEOF_HAYES_RESPONSE_BUFFER at *
      omega
    · rintro ⟨hold, hroom⟩
      have hfit : text.length ≤ SIZEOF_HAYES_RESPONSE_BUFFER := by omega
      rw [(hcollected hfit).offset]
      refine ⟨⟨⟨hold, hfit⟩, by omega⟩, ?_⟩
      unfold u16 SIZEOF_HAYES_RESPONSE_BUFFER at *
      omega
  · intro hroom
    have hend := (hcollected (by omega)).append (by omega) 0x0A
    exact ⟨hend.offset, hend.take_store (by rw [List.length_append]; exact hroom) 0⟩

theorem Collected.next (h : Collected hayes text) (bytes : List UInt8) :
    Collected { (hayes.appendAll bytes).endLine with offset := 0, echo := 1 } [] := by
  have hlength : (hayes.appendAll bytes).endLine.buffer.length =
      (hayes.appendAll bytes).buffer.length :=
    List.length_set.trans List.length_set
  exact ⟨hlength.trans ((appendAll_length hayes bytes).trans h.length), rfl, rfl⟩

-- ---------------------------------------------------------------------------
-- The whole call
-- ---------------------------------------------------------------------------

/-- The lines in front of the one that is returned. -/
def skipped (echo : UInt8) : Nat := if echo = 0 then 1 else 0

/-- What `hayes_read` reads of the stream has room. -/
def ResponseFits (skip : Nat) (bytes : List UInt8) : Prop :=
  (∀ line ∈ (splitLines 0x0A bytes).1.take (skip + 1), line.length ≤ LONGEST_LINE) ∧
    ((splitLines 0x0A bytes).1.length ≤ skip →
      (splitLines 0x0A bytes).2.length ≤ SIZEOF_HAYES_RESPONSE_BUFFER)

/-- What is known of a call: where it stores, and what it returns. -/
structure ReadOk (readbuf : List UInt8) (readbuflength skip : Nat) (hayes : Hayes)
    (bytes : List UInt8) (result : Option (List UInt8) × Hayes) : Prop where
  inside : Inside result.2.stores ↔ Inside hayes.stores ∧ ResponseFits skip bytes
  waits : (splitLines 0x0A bytes).1[skip]? = none → result.1 = none
  returns : ∀ got, (splitLines 0x0A bytes).1[skip]? = some got → ∃ out, result.1 = some out ∧
    (got.length ≤ LONGEST_LINE → out = overwrite readbuf 0 ((got ++ [0]).take readbuflength))

theorem responseFits_text (hnot : 0x0A ∉ bytes) (skip : Nat) :
    ResponseFits skip bytes ↔ bytes.length ≤ SIZEOF_HAYES_RESPONSE_BUFFER := by
  simp [ResponseFits, splitLines_text hnot]

theorem responseFits_last (hnot : 0x0A ∉ text) (after : List UInt8) :
    ResponseFits 0 (text ++ 0x0A :: after) ↔ (text ++ [0x0A]).length ≤ LONGEST_LINE := by
  simp [ResponseFits, splitLines_line hnot]

theorem responseFits_line (hnot : 0x0A ∉ text) (skip : Nat) (after : List UInt8) :
    ResponseFits (skip + 1) (text ++ 0x0A :: after) ↔
      (text ++ [0x0A]).length ≤ LONGEST_LINE ∧ ResponseFits skip after := by
  simp [ResponseFits, splitLines_line hnot, and_assoc]

theorem ResponseFits.length_le {skip : Nat} (h : ResponseFits skip bytes)
    (hgot : (splitLines 0x0A bytes).1[skip]? = some got) : got.length ≤ LONGEST_LINE :=
  h.1 got (List.mem_of_getElem? ((List.getElem?_take_of_lt (Nat.lt_succ_self skip)).trans hgot))

theorem Collected.read_text (h : Collected hayes []) (hnot : 0x0A ∉ bytes) (skip : Nat) :
    ReadOk readbuf readbuflength skip hayes bytes
      (hayesLoop readbuf readbuflength hayes (bytes.map some)) := by
  have hloop : hayesLoop readbuf readbuflength hayes (bytes.map some ++ []) = _ :=
    hayesLoop_text hnot hayes []
  obtain ⟨hinside, -⟩ := h.appendAll (Nat.zero_le _) bytes
  rw [List.append_nil] at hloop
  rw [hloop]
  refine ⟨?_, fun _ => rfl, ?_⟩
  · rw [responseFits_text hnot]
    exact hinside
  · intro got hgot
    simp [splitLines_text hnot] at hgot

theorem Collected.read_last (h : Collected hayes []) (hecho : hayes.echo ≠ 0) (hnot : 0x0A ∉ text)
    (after : List UInt8) :
    ReadOk readbuf readbuflength 0 hayes (text ++ 0x0A :: after)
      (hayesLoop readbuf readbuflength hayes ((text ++ 0x0A :: after).map some)) := by
  obtain ⟨hinside, htake⟩ := h.endLine text
  rw [List.map_append, List.map_cons, hayesLoop_line hnot, if_neg hecho]
  refine ⟨?_, ?_, ?_⟩
  · rw [responseFits_last hnot]
    exact hinside
  · intro hnone
    simp [splitLines_line hnot] at hnone
  · intro got hgot
    simp only [splitLines_line hnot, List.getElem?_cons_zero, Option.some.injEq] at hgot
    subst hgot
    refine ⟨_, rfl, fun hlong => ?_⟩
    obtain ⟨hoffset, htake⟩ := htake hlong
    have hlast : (text ++ [0x0A]).length + 1 = (text ++ [0x0A] ++ [0]).length := by
      simp only [List.length_append, List.length_singleton]
    rw [hoffset, hlast, Nat.min_comm, ← List.take_take, htake]

theorem Collected.read_one (readbuf : List UInt8) (readbuflength : Nat) (h : Collected hayes [])
    (hecho : hayes.echo ≠ 0) (bytes : List UInt8) :
    ReadOk readbuf readbuflength 0 hayes bytes
      (hayesLoop readbuf readbuflength hayes (bytes.map some)) := by
  by_cases hmore : 0x0A ∈ bytes
  · obtain ⟨text, after, rfl, htext⟩ := List.eq_append_cons_of_mem hmore
    exact h.read_last hecho htext after
  · exact h.read_text hmore 0

theorem Collected.read (h : Collected hayes []) (bytes : List UInt8) :
    ReadOk readbuf readbuflength (skipped hayes.echo) hayes bytes
      (hayesLoop readbuf readbuflength hayes (bytes.map some)) := by
  unfold skipped
  by_cases hecho : hayes.echo = 0
  · rw [if_pos hecho]
    by_cases hmore : 0x0A ∈ bytes
    · obtain ⟨text, after, rfl, htext⟩ := List.eq_append_cons_of_mem hmore
      -- the echo is skipped, and then a line is returned
      obtain ⟨hinside, -⟩ := h.endLine text
      have hrest :=
        (h.next text).read_one readbuf readbuflength (show (1 : UInt8) ≠ 0 by decide) after
      rw [List.map_append, List.map_cons, hayesLoop_line htext, if_pos hecho]
      refine ⟨?_, ?_, ?_⟩
      · rw [responseFits_line htext, ← and_assoc, ← hinside]
        exact hrest.inside
      · intro hnone
        rw [splitLines_line htext, List.getElem?_cons_succ] at hnone
        exact hrest.waits hnone
      · intro got hgot
        rw [splitLines_line htext, List.getElem?_cons_succ] at hgot
        exact hrest.returns got hgot
    · exact h.read_text hmore 1
  · rw [if_neg hecho]
    exact h.read_one readbuf readbuflength hecho bytes

-- ---------------------------------------------------------------------------
-- The line in the destination
-- ---------------------------------------------------------------------------

/-- The memory starts with the string and its terminator. -/
def HoldsString (mem text : List UInt8) : Prop := 0 ∉ text ∧ text ++ [0] <+: mem

theorem overwrite_start (buf data : List UInt8) (h : data.length ≤ buf.length) :
    ∃ rest, overwrite buf 0 data = data ++ rest := by
  refine ⟨(overwrite buf 0 data).drop data.length, ?_⟩
  conv_lhs => rw [← List.take_append_drop data.length (overwrite buf 0 data),
    take_overwrite_zero buf data h]

theorem holdsString_iff (hsize : readbuf.length = n) (hfit : text.length < n) :
    HoldsString (overwrite readbuf 0 ((got ++ [0]).take n)) text ↔ 0 ∉ text ∧
      text ++ [0] <+: got ++ [0] := by
  obtain ⟨rest, hrest⟩ :=
    overwrite_start readbuf ((got ++ [0]).take n) (by rw [List.length_take, hsize]; omega)
  unfold HoldsString
  rw [hrest]
  refine and_congr_right fun hzero => ?_
  have hlength : (text ++ [0]).length ≤ n := by
    rw [List.length_append]
    exact hfit
  constructor
  · intro hmem
    by_cases hshort : (text ++ [0]).length ≤ ((got ++ [0]).take n).length
    · exact (List.prefix_of_prefix_length_le hmem (List.prefix_append _ _) hshort).trans
        (List.take_prefix _ _)
    · -- the terminator of the line would be in the text
      rw [List.length_take, List.length_append, List.length_append, List.length_singleton] at hshort
      rw [List.take_of_length_le (by rw [List.length_append, List.length_singleton]; omega)] at hmem
      have hgot : got ++ [0] <+: text := by
        refine List.prefix_of_prefix_length_le (List.prefix_append _ _)
          ((List.prefix_append _ _).trans hmem) ?_
        rw [List.length_append, List.length_singleton]
        omega
      exact absurd (hgot.subset (by simp)) hzero
  · intro hgot
    exact (List.prefix_take_iff.mpr ⟨hgot, hlength⟩).trans (List.prefix_append _ _)

/-- `hayes_read` stores inside its buffer, and returns the line that was asked
for: the first, or the second if the first is an echo. -/
structure FramesLine (buffer readbuf : List UInt8) (n : Nat) (ignoreEcho : Int)
    (results : List (Option UInt8)) :
    Prop where
  inside : Inside (hayesRead buffer readbuf n ignoreEcho results).2.stores
  line : ∀ out, (hayesRead buffer readbuf n ignoreEcho results).1 = some out →
    ∃ line, (splitLines 0x0A results.reduceOption).1[if ignoreEcho ≠ 0 then 0 else 1]? = some line ∧
      HoldsString out (line.take (n - 1))

/-- The line that is returned starts as the one that was asked for, with a NUL
after at most `n - 1` bytes and not before. -/
def EndsInTime (n asked skip : Nat) (bytes : List UInt8) : Prop :=
  ∀ line got, (splitLines 0x0A bytes).1[asked]? = some line →
    (splitLines 0x0A bytes).1[skip]? = some got →
    0 ∉ line.take (n - 1) ∧ line.take (n - 1) ++ [0] <+: got ++ [0]

/-- For the line that was asked for: it is shorter than the destination, or has a
NUL where it is cut. -/
theorem endsInTime_iff (hn : 0 < n) (skip : Nat) (bytes : List UInt8) :
    EndsInTime n skip skip bytes ↔ ∀ answer, (splitLines 0x0A bytes).1[skip]? = some answer →
      0 ∉ answer.take (n - 1) ∧ (answer.length < n ∨ answer[n - 1]? = some 0) := by
  have hcut (answer : List UInt8) :
      answer.take (n - 1) ++ [0] <+: answer ++ [0] ↔ answer.length < n ∨
          answer[n - 1]? = some 0 := by
    by_cases hlong : answer.length < n
    · rw [List.take_of_length_le (by omega)]
      exact iff_of_true List.prefix_rfl (.inl hlong)
    · have hlt : n - 1 < answer.length := by omega
      have hanswer : answer ++ [0] = answer.take (n - 1) ++ answer[n - 1] ::
          (answer.drop (n - 1 + 1) ++ [0]) := by
        rw [← List.cons_append, List.getElem_cons_drop, ← List.append_assoc, List.take_append_drop]
      rw [hanswer, List.prefix_append_right_inj, List.cons_prefix_cons,
        List.getElem?_eq_getElem hlt]
      simp [hlong, eq_comm]
  constructor
  · intro h answer hanswer
    exact (and_congr_right' (hcut answer)).mp (h answer answer hanswer hanswer)
  · intro h answer got hanswer hgot
    cases hanswer.symm.trans hgot
    exact (and_congr_right' (hcut answer)).mpr (h answer hanswer)

theorem asked_le (ignoreEcho : Int) :
    (if ignoreEcho ≠ 0 then 0 else 1) ≤ skipped (UInt8.ofInt ignoreEcho) := by
  split
  · exact Nat.zero_le _
  · next hzero =>
    rw [not_not.mp hzero]
    decide

/-- The modem's answer is framed exactly if what is read has room and the line
ends in time. -/
theorem frames_line_iff (hbuffer : buffer.length = SIZEOF_HAYES_RESPONSE_BUFFER)
    (hsize : readbuf.length = n) (hn : 0 < n) (ignoreEcho : Int) (results : List (Option UInt8)) :
    FramesLine buffer readbuf n ignoreEcho results ↔
      ResponseFits (skipped (UInt8.ofInt ignoreEcho)) results.reduceOption ∧
      EndsInTime n (if ignoreEcho ≠ 0 then 0 else 1)
        (skipped (UInt8.ofInt ignoreEcho)) results.reduceOption := by
  have hstart : Collected ⟨buffer, 0, UInt8.ofInt ignoreEcho, []⟩ [] := ⟨hbuffer, rfl, rfl⟩
  have hread : ReadOk readbuf n _ _ _ _ := hstart.read results.reduceOption
  rw [← hayesLoop_reduce] at hread
  have hcut (line : List UInt8) : (line.take (n - 1)).length < n := by
    rw [List.length_take]
    omega
  constructor
  · rintro ⟨hinside, hline⟩
    obtain ⟨-, hroom⟩ := hread.inside.mp hinside
    refine ⟨hroom, fun line got hasked hgot => ?_⟩
    obtain ⟨out, hout, hcopy⟩ := hread.returns got hgot
    obtain ⟨line', hline', hholds⟩ := hline out hout
    cases hasked.symm.trans hline'
    rw [hcopy (hroom.length_le hgot)] at hholds
    exact (holdsString_iff hsize (hcut line)).mp hholds
  · rintro ⟨hroom, hends⟩
    refine ⟨hread.inside.mpr ⟨by simp [Inside], hroom⟩, fun out hout => ?_⟩
    rcases Option.eq_none_or_eq_some
      ((splitLines 0x0A results.reduceOption).1[skipped (UInt8.ofInt ignoreEcho)]?)
      with hnone | ⟨got, hgot⟩
    · cases (hread.waits hnone).symm.trans hout
    · obtain ⟨out', hout', hcopy⟩ := hread.returns got hgot
      cases hout.symm.trans hout'
      obtain ⟨hskip, -⟩ := List.getElem?_eq_some_iff.mp hgot
      have hasked := List.getElem?_eq_getElem (Nat.lt_of_le_of_lt (asked_le ignoreEcho) hskip)
      refine ⟨_, hasked, ?_⟩
      rw [hcopy (hroom.length_le hgot)]
      exact (holdsString_iff hsize (hcut _)).mpr (hends _ got hasked hgot)

/-- `echo` CR LF and an answer, with a call that finds no byte. -/
theorem frames_line_iff_answer :
    FramesLine (List.replicate 128 7) [1, 2, 3, 4, 5] 5 0
        [some 65, some 13, some 10, none, some 79, some 75, some 13, some 10] ↔
      ResponseFits (skipped (UInt8.ofInt 0))
        (List.reduceOption [some 65, some 13, some 10, none, some 79, some 75, some 13, some 10]) ∧
      EndsInTime 5 (if (0 : Int) ≠ 0 then 0 else 1) (skipped (UInt8.ofInt 0))
        (List.reduceOption [some 65, some 13, some 10, none, some 79, some 75, some 13, some 10]) :=
  frames_line_iff List.length_replicate rfl (by decide) 0 _

/-- An answer of four bytes is not terminated in a destination of four. -/
theorem full_destination_unterminated :
    ¬ FramesLine (List.replicate 128 0) [0, 0, 0, 0] 4 1 [some 79, some 75, some 13, some 10] := by
  intro h
  obtain ⟨line, hline, -, hmem⟩ := h.line [79, 75, 13, 10] (by decide)
  have hfirst : (splitLines (0x0A : UInt8) [79, 75, 13, 10]).1[0]? =
    some [79, 75, 13, 10] := by decide
  cases hline.symm.trans hfirst
  revert hmem
  decide

end FxIP
