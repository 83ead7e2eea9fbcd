import Mathlib.Data.List.Basic

/-!
# Streams of lines

A stream is cut behind each end marker. What lies behind the last marker is a
line that is not complete. `splitLines` takes the stream as a whole, so nothing
in it depends on how the stream arrived.
-/

universe u

namespace Lines

variable {α : Type u} [DecidableEq α] {c : α} {n : Nat} {line text rest bytes more : List α}
    {lines stream : List (List α)}

/-- A text without the end marker, and the marker. -/
def IsLine (c : α) (line : List α) : Prop := ∃ text, line = text ++ [c] ∧ c ∉ text

def splitLines (c : α) : List α → List (List α) × List α
  | [] => ([], [])
  | b :: bytes =>
    if b = c then ([b] :: (splitLines c bytes).1, (splitLines c bytes).2)
    else match splitLines c bytes with
      | ([], rest) => ([], b :: rest)
      | (line :: lines, rest) => ((b :: line) :: lines, rest)

@[simp] theorem splitLines_nil : splitLines c [] = ([], []) := rfl

theorem splitLines_text (h : c ∉ text) : splitLines c text = ([], text) := by
  induction text with
  | nil => rfl
  | cons b text ih =>
    rw [List.mem_cons, not_or] at h
    rw [splitLines, if_neg (Ne.symm h.1), ih h.2]

theorem splitLines_line (h : c ∉ text) :
    splitLines c (text ++ c :: bytes) =
      ((text ++ [c]) :: (splitLines c bytes).1, (splitLines c bytes).2) := by
  induction text with
  | nil => rw [List.nil_append, splitLines, if_pos rfl]; rfl
  | cons b text ih =>
    rw [List.mem_cons, not_or] at h
    rw [List.cons_append, splitLines, if_neg (Ne.symm h.1), ih h.2]
    rfl

theorem splitLines_flatten (h : ∀ line ∈ lines, IsLine c line) (bytes : List α) :
    splitLines c (lines.flatten ++ bytes) =
      (lines ++ (splitLines c bytes).1, (splitLines c bytes).2) := by
  induction lines with
  | nil => rfl
  | cons line lines ih =>
    obtain ⟨⟨text, rfl, htext⟩, hlines⟩ := List.forall_mem_cons.mp h
    have hcut : splitLines c (text ++ c :: (lines.flatten ++ bytes)) = _ := splitLines_line htext
    rw [ih hlines] at hcut
    simpa using hcut

theorem splitLines_eq (h : ∀ line ∈ lines, IsLine c line) (hrest : c ∉ rest) :
    splitLines c (lines.flatten ++ rest) = (lines, rest) := by
  rw [splitLines_flatten h, splitLines_text hrest, List.append_nil]

theorem splitLines_spec (c : α) (bytes : List α) :
    (splitLines c bytes).1.flatten ++ (splitLines c bytes).2 = bytes ∧
      (∀ line ∈ (splitLines c bytes).1, IsLine c line) ∧ c ∉ (splitLines c bytes).2 := by
  induction bytes with
  | nil => simp
  | cons b bytes ih =>
    obtain ⟨hflat, hlines, hrest⟩ := ih
    rw [splitLines]
    split
    · rename_i hb
      refine ⟨by simp [hflat], ?_, hrest⟩
      rw [List.forall_mem_cons]
      exact ⟨⟨[], by simp [hb], List.not_mem_nil⟩, hlines⟩
    · rename_i hb
      split
      · rename_i rest heq
        rw [heq] at hflat hrest
        refine ⟨by simpa using hflat, by simp, ?_⟩
        simp [Ne.symm hb, hrest]
      · rename_i line lines rest heq
        rw [heq] at hflat hlines hrest
        obtain ⟨⟨text, htext, hmarker⟩, hlines'⟩ := List.forall_mem_cons.mp hlines
        refine ⟨by simpa using hflat, ?_, hrest⟩
        rw [List.forall_mem_cons]
        exact ⟨⟨b :: text, by rw [htext]; rfl, by simp [Ne.symm hb, hmarker]⟩, hlines'⟩

-- ---------------------------------------------------------------------------
-- The first line
-- ---------------------------------------------------------------------------

/-- The stream up to and including its first end marker. -/
def upTo (c : α) : List α → List α
  | [] => []
  | b :: bytes => if b = c then [b] else b :: upTo c bytes

@[simp] theorem upTo_nil : upTo c [] = [] := rfl

theorem upTo_append_of_mem (h : c ∈ bytes) (more : List α) :
    upTo c (bytes ++ more) = upTo c bytes := by
  induction bytes with
  | nil => cases h
  | cons b bytes ih =>
    rw [List.cons_append, upTo, upTo]
    split
    · rfl
    · next hb =>
      rw [ih ((List.mem_cons.mp h).resolve_left (Ne.symm hb))]

theorem upTo_append_of_not_mem (h : c ∉ text) (more : List α) :
    upTo c (text ++ more) = text ++ upTo c more := by
  induction text with
  | nil => rfl
  | cons b text ih =>
    rw [List.mem_cons, not_or] at h
    rw [List.cons_append, upTo, if_neg (Ne.symm h.1), ih h.2, List.cons_append]

theorem upTo_text (h : c ∉ text) : upTo c text = text := by
  simpa using upTo_append_of_not_mem h []

-- ---------------------------------------------------------------------------
-- Bounded lines
-- ---------------------------------------------------------------------------

/-- No line of the stream is longer than `n`, nor will the last one be. -/
def Fits (c : α) (n : Nat) (bytes : List α) : Prop :=
  (∀ line ∈ (splitLines c bytes).1, line.length ≤ n) ∧ (splitLines c bytes).2.length < n

theorem Fits.length_text (h : Fits c n bytes) (hc : c ∉ bytes) : bytes.length < n := by
  rw [Fits, splitLines_text hc] at h
  exact h.2

theorem Fits.length_line (h : Fits c n (text ++ c :: bytes)) (hc : c ∉ text) : text.length < n := by
  rw [Fits, splitLines_line hc] at h
  have hlength := h.1 _ (List.mem_cons_self ..)
  rw [List.length_append] at hlength
  exact hlength

theorem Fits.length_upTo (h : Fits c n bytes) : (upTo c bytes).length ≤ n := by
  by_cases hc : c ∈ bytes
  · obtain ⟨text, after, rfl, htext⟩ := List.eq_append_cons_of_mem hc
    have hlength := h.length_line htext
    rw [upTo_append_of_not_mem htext, upTo, if_pos rfl, List.length_append, List.length_singleton]
    omega
  · rw [upTo_text hc]
    exact Nat.le_of_lt (h.length_text hc)

theorem Fits.flatten (h : Fits c n (lines.flatten ++ bytes))
    (hlines : ∀ line ∈ lines, IsLine c line) :
    Fits c n bytes := by
  rw [Fits, splitLines_flatten hlines] at h
  exact ⟨fun line hline => h.1 line (List.mem_append_right _ hline), h.2⟩

theorem Fits.of_append (h : Fits c n (bytes ++ more)) : Fits c n bytes := by
  obtain ⟨hflat, hlines, hrest⟩ := splitLines_spec c bytes
  rw [← hflat, List.append_assoc] at h
  have htail := h.flatten hlines
  rw [Fits, splitLines_flatten hlines] at h
  refine ⟨fun line hline => h.1 line (List.mem_append_left _ hline), ?_⟩
  by_cases hmore : c ∈ more
  · obtain ⟨text, after, rfl, htext⟩ := List.eq_append_cons_of_mem hmore
    rw [← List.append_assoc] at htail
    have hlength := htail.length_line (by simp [hrest, htext])
    rw [List.length_append] at hlength
    omega
  · have hlength := htail.length_text (by simp [hrest, hmore])
    rw [List.length_append] at hlength
    omega

theorem fits_of_prefix (hstream : ∀ line ∈ stream, IsLine c line ∧ line.length ≤ n) (hn : 0 < n)
    (h : bytes <+: stream.flatten) : Fits c n bytes := by
  obtain ⟨more, hmore⟩ := h
  have hcut := splitLines_eq (fun line hline => (hstream line hline).1) List.not_mem_nil
  have hall : Fits c n (bytes ++ more) := by
    rw [hmore, Fits, ← List.append_nil stream.flatten, hcut]
    exact ⟨fun line hline => (hstream line hline).2, hn⟩
  exact hall.of_append

theorem prefix_of_flatten (hlines : ∀ line ∈ lines, IsLine c line)
    (hstream : ∀ line ∈ stream, IsLine c line)
    (h : lines.flatten ++ bytes <+: stream.flatten) : lines <+: stream := by
  obtain ⟨more, hmore⟩ := h
  have hcut := splitLines_eq hstream List.not_mem_nil
  rw [List.append_nil, ← hmore, List.append_assoc, splitLines_flatten hlines] at hcut
  exact ⟨_, congrArg Prod.fst hcut⟩

end Lines
