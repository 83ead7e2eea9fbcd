import Mathlib.Init

/-!
# SLIP framing

Packets on a serial line: each is escaped and enclosed in `END` bytes. `frames`
cuts a stream at the `END` bytes and unescapes the pieces; `Receiving` does the
same a byte at a time, with no bound on the length of a frame.
-/

namespace Slip

def END : UInt8 := 0xC0
def ESC : UInt8 := 0xDB
def ESC_END : UInt8 := 0xDC
def ESC_ESC : UInt8 := 0xDD

def escapeByte (c : UInt8) : List UInt8 :=
  if c = END then [ESC, ESC_END] else if c = ESC then [ESC, ESC_ESC] else [c]

def escape (packet : List UInt8) : List UInt8 := packet.flatMap escapeByte

def frame (packet : List UInt8) : List UInt8 := END :: (escape packet ++ [END])

/-- What a byte after `ESC` stands for; an unknown code stands for itself. -/
def unescapeByte (c : UInt8) : UInt8 :=
  if c = ESC_END then END else if c = ESC_ESC then ESC else c

/-- `escaped` says whether the byte before was an `ESC`. -/
def unescape : Bool → List UInt8 → List UInt8
  | _, [] => []
  | escaped, c :: rest =>
    if c = ESC then unescape true rest
    else (if escaped then unescapeByte c else c) :: unescape false rest

/-- The contents of the frames, and what there is of the one that is not complete. -/
def pieces (stream : List UInt8) : List (List UInt8) := (stream.splitOn END).map (unescape false)

/-- The contents of the frames that are complete. -/
def frames (stream : List UInt8) : List (List UInt8) :=
  (stream.splitOn END).dropLast.map (unescape false)

-- ---------------------------------------------------------------------------
-- A byte at a time
-- ---------------------------------------------------------------------------

/-- What has been received of the frame that is not complete. -/
structure Receiving where
  escaped : Bool
  data : List UInt8
  deriving Repr, DecidableEq

def Receiving.start : Receiving := ⟨false, []⟩

def Receiving.next (r : Receiving) (c : UInt8) : Receiving :=
  if c = END then .start
  else if c = ESC then { r with escaped := true }
  else ⟨false, r.data ++ [if r.escaped then unescapeByte c else c]⟩

def Receiving.after (r : Receiving) (stream : List UInt8) : Receiving :=
  stream.foldl Receiving.next r

/-- The contents of the frames that are completed. -/
def Receiving.contents : Receiving → List UInt8 → List (List UInt8)
  | _, [] => []
  | r, c :: rest => if c = END then r.data :: (r.next c).contents rest else (r.next c).contents rest

variable {r : Receiving} {c : UInt8} {stream stream' packet : List UInt8}
    {packets : List (List UInt8)}

@[simp] theorem after_nil : r.after [] = r := rfl
@[simp] theorem after_cons : r.after (c :: stream) = (r.next c).after stream := rfl
@[simp] theorem contents_nil : r.contents [] = [] := rfl

theorem after_append : r.after (stream ++ stream') = (r.after stream).after stream' :=
  List.foldl_append

theorem contents_append :
    r.contents (stream ++ stream') = r.contents stream ++ (r.after stream).contents stream' := by
  induction stream generalizing r with
  | nil => rfl
  | cons c rest ih =>
    simp only [List.cons_append, Receiving.contents, after_cons, ih]
    split <;> rfl

@[simp] theorem next_end : r.next END = .start := rfl
@[simp] theorem next_esc : r.next ESC = { r with escaped := true } := rfl

theorem next_data (hend : c ≠ END) (hesc : c ≠ ESC) :
    r.next c = ⟨false, r.data ++ [if r.escaped then unescapeByte c else c]⟩ := by
  rw [Receiving.next, if_neg hend, if_neg hesc]

theorem contents_end : r.contents (END :: stream) = r.data :: Receiving.start.contents stream := rfl

theorem contents_not_end (hend : c ≠ END) : r.contents (c :: stream) =
    (r.next c).contents stream := by
  rw [Receiving.contents, if_neg hend]

/-- What is received of each frame, of the last so far. -/
def Receiving.all (r : Receiving) (stream : List UInt8) : List (List UInt8) :=
  r.contents stream ++ [(r.after stream).data]

theorem all_append :
    r.all (stream ++ stream') = r.contents stream ++ (r.after stream).all stream' := by
  simp only [Receiving.all, contents_append, after_append, List.append_assoc]

theorem all_end : r.all (END :: stream) = r.data :: Receiving.start.all stream := rfl

theorem all_not_end (hend : c ≠ END) : r.all (c :: stream) = (r.next c).all stream := by
  rw [Receiving.all, contents_not_end hend, after_cons]
  rfl

theorem all_splitOn {first : List UInt8} {rest : List (List UInt8)}
    (h : stream.splitOn END = first :: rest) :
    r.all stream = (r.data ++ unescape r.escaped first) :: rest.map (unescape false) := by
  induction stream generalizing r first rest with
  | nil =>
    rw [List.splitOn_nil] at h
    obtain ⟨rfl, rfl⟩ := List.cons.inj h
    simp [Receiving.all, unescape]
  | cons c stream ih =>
    obtain ⟨first', rest', htail⟩ := List.exists_cons_of_ne_nil (List.splitOn_ne_nil END stream)
    rw [List.splitOn_cons_eq_if_modifyHead, htail] at h
    by_cases hend : c = END
    · subst hend
      rw [if_pos (beq_self_eq_true _)] at h
      obtain ⟨rfl, rfl⟩ := List.cons.inj h
      rw [all_end, ih htail]
      simp [unescape, Receiving.start]
    · rw [if_neg (by simpa using hend)] at h
      obtain ⟨rfl, rfl⟩ := List.cons.inj h
      rw [all_not_end hend, ih htail]
      by_cases hesc : c = ESC
      · subst hesc
        rfl
      · rw [next_data hend hesc]
        simp only [unescape, if_neg hesc, List.append_assoc, List.cons_append, List.nil_append]

theorem all_start : Receiving.start.all stream = pieces stream := by
  obtain ⟨first, rest, h⟩ := List.exists_cons_of_ne_nil (List.splitOn_ne_nil END stream)
  rw [all_splitOn h, pieces, h]
  rfl

theorem contents_start : Receiving.start.contents stream = frames stream := by
  have hall : (Receiving.start.all stream).dropLast = (pieces stream).dropLast := by rw [all_start]
  rw [Receiving.all, List.dropLast_concat] at hall
  rw [hall, pieces, frames, List.map_dropLast]

theorem exists_mem_all (r : Receiving) (stream : List UInt8) :
    ∃ data ∈ r.all stream, r.data.length ≤ data.length := by
  induction stream generalizing r with
  | nil => exact ⟨r.data, by simp [Receiving.all], Nat.le_refl _⟩
  | cons c stream ih =>
    by_cases hend : c = END
    · subst hend
      exact ⟨r.data, by simp [all_end], Nat.le_refl _⟩
    · obtain ⟨data, hmem, hle⟩ := ih (r.next c)
      refine ⟨data, by rwa [all_not_end hend], Nat.le_trans ?_ hle⟩
      by_cases hesc : c = ESC
      · subst hesc
        exact Nat.le_refl _
      · rw [next_data hend hesc]
        simp

/-- No frame is longer than `n`, as far as it was received. -/
def Receiving.Within (r : Receiving) (n : Nat) (stream : List UInt8) : Prop :=
  ∀ data ∈ r.all stream, data.length ≤ n

theorem Receiving.Within.data {n : Nat} (h : r.Within n stream) : r.data.length ≤ n := by
  obtain ⟨data, hmem, hle⟩ := exists_mem_all r stream
  exact Nat.le_trans hle (h data hmem)

theorem within_iff {n : Nat} :
    r.Within n stream ↔ (∀ data ∈ r.contents stream, data.length ≤ n) ∧
      (r.after stream).data.length ≤ n := by
  simp only [Receiving.Within, Receiving.all, List.mem_append, List.mem_singleton, or_imp,
    forall_and, forall_eq]

theorem within_append {n : Nat} :
    r.Within n (stream ++ stream') ↔ r.Within n stream ∧ (r.after stream).Within n stream' := by
  have hall : r.Within n (stream ++ stream') ↔
      (∀ data ∈ r.contents stream, data.length ≤ n) ∧ (r.after stream).Within n stream' := by
    simp only [Receiving.Within, all_append, List.mem_append, or_imp, forall_and]
  constructor
  · intro h
    obtain ⟨hcontents, hrest⟩ := hall.mp h
    -- the frame that goes on is no shorter afterwards
    exact ⟨within_iff.mpr ⟨hcontents, hrest.data⟩, hrest⟩
  · rintro ⟨h, hrest⟩
    exact hall.mpr ⟨(within_iff.mp h).1, hrest⟩

-- ---------------------------------------------------------------------------
-- Round trip
-- ---------------------------------------------------------------------------

theorem after_escapeByte (h : r.escaped = false) :
    r.after (escapeByte c) = ⟨false, r.data ++ [c]⟩ ∧ r.contents (escapeByte c) = [] := by
  unfold escapeByte
  split
  · next hend =>
    subst hend
    exact ⟨rfl, rfl⟩
  · next hend =>
    split
    · next hesc =>
      subst hesc
      exact ⟨rfl, rfl⟩
    · next hesc =>
      rw [after_cons, after_nil, contents_not_end hend, next_data hend hesc, h]
      exact ⟨rfl, rfl⟩

theorem after_escape (packet : List UInt8) (h : r.escaped = false) :
    r.after (escape packet) = ⟨false, r.data ++ packet⟩ ∧ r.contents (escape packet) = [] := by
  induction packet generalizing r with
  | nil =>
    cases r
    simp_all [escape]
  | cons c packet ih =>
    obtain ⟨hafter, hcontents⟩ := after_escapeByte (c := c) h
    obtain ⟨hafter', hcontents'⟩ := ih (r := ⟨false, r.data ++ [c]⟩) rfl
    rw [escape, List.flatMap_cons, ← escape, after_append, contents_append, hafter, hcontents,
      hafter', hcontents']
    simp

theorem after_frame :
    r.after (frame packet) = .start ∧ r.contents (frame packet) = [r.data, packet] := by
  obtain ⟨hafter, hcontents⟩ := after_escape packet (r := .start) rfl
  rw [frame, after_cons, next_end, after_append, hafter, contents_end, contents_append,
    hcontents, hafter]
  exact ⟨rfl, rfl⟩

theorem contents_frames :
    r.contents (packets.flatMap frame) =
      match packets with
      | [] => []
      | packet :: packets => r.data :: packet :: packets.flatMap fun packet => [[], packet] := by
  induction packets generalizing r with
  | nil => rfl
  | cons packet packets ih =>
    rw [List.flatMap_cons, contents_append, after_frame.1, after_frame.2, ih]
    cases packets <;> simp [Receiving.start]

end Slip
