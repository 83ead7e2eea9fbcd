import FxIP.Objectlog.Walk

/-!
# The copy loop

The loop interleaves two segmentations, the entries of the scatter list and
the fragments. `Open` says what is still to come out while a fragment is open,
`Pending` what is at the head of a round; a round writes a header if it has to,
then one block that stays inside both segments.
-/

namespace FxIP

open Circular

variable {S w fo fl c : Nat} {rem out tape : List UInt8}

/-- Inside a fragment of `fl` bytes of which `fo` are written: what has to
come out at position `w` to write `rem`. -/
inductive Open (S w fo fl : Nat) (rem : List UInt8) : List UInt8 → Prop
  | last : fo + rem.length ≤ fl → w % S + rem.length ≤ S → Open S w fo fl rem rem
  | inside {rest} : fo ≤ fl → fl - fo < rem.length → w % S + (fl - fo) ≤ S →
      Encodes S (w + (fl - fo)) (rem.drop (fl - fo)) rest →
      Open S w fo fl rem (rem.take (fl - fo) ++ rest)

def Pending (S w fo fl : Nat) (rem out : List UInt8) : Prop :=
  if rem = [] then out = []
  else if fo = 0 then Encodes S w rem out
  else fo < fl ∧ fl ≤ MAX_FRAGMENT_LEN ∧ Open S w fo fl rem out

/-- The size of the block a round may write in the open fragment. -/
def openLen (fo fl n : Nat) : Nat := min n (fl - fo)

theorem Encodes.open (hS : 0 < S) (h : Encodes S w rem out) :
    ∃ out', out = fragmentHdr (openLen 0 (fragmentRoom S w) rem.length)
        (decide (rem.length = openLen 0 (fragmentRoom S w) rem.length)) :: out' ∧
      Open S (w + 1) 0 (fragmentRoom S w) rem out' := by
  have hfits := fragmentRoom_fits (w := w) hS
  -- the cell after the header is the next one, or the first with nothing to come
  have hcell : (w + 1) % S + fragmentRoom S w ≤ S := by
    rcases mod_add_cases (a := w) hS (show 1 ≤ S by omega) with hc | hc <;> omega
  cases h with
  | last hfit =>
    refine ⟨rem, ?_, .last (by omega) (by omega)⟩
    simp [openLen, hfit]
  | @more _ _ rest hlt hrest =>
    refine ⟨rem.take (fragmentRoom S w) ++ rest, ?_, .inside (by omega) (by omega) (by omega) hrest⟩
    simp [openLen, Nat.le_of_lt hlt, Nat.ne_of_gt hlt]

theorem Open.block (h : Open S w fo fl rem out) (hc : c ≤ openLen fo fl rem.length) :
    ∃ out', out = rem.take c ++ out' ∧ w % S + c ≤ S ∧
      Open S (w + c) (fo + c) fl (rem.drop c) out' := by
  unfold openLen at hc
  have hmod : w % S + c ≤ S → ∀ m, w % S + c + m ≤ S → (w + c) % S + m ≤ S := by
    intro h1 m h2
    rcases Nat.lt_or_ge (w % S + c) S with hlt | hge
    · rw [mod_add_of_lt hlt]
      omega
    · rw [mod_add_of_eq (by omega)]
      omega
  cases h with
  | last hfit hend =>
    refine ⟨rem.drop c, (List.take_append_drop c rem).symm, by omega, .last ?_ ?_⟩
    · simp only [List.length_drop]
      omega
    · apply hmod (by omega)
      simp only [List.length_drop]
      omega
  | @inside rest hle hlt hend hrest =>
    have hsplit : rem.take (fl - fo) = rem.take c ++ (rem.drop c).take (fl - (fo + c)) := by
      rw [← List.take_add, show c + (fl - (fo + c)) = fl - fo by omega]
    refine ⟨(rem.drop c).take (fl - (fo + c)) ++ rest, ?_, by omega, ?_⟩
    · rw [hsplit, List.append_assoc]
    · refine .inside (by omega) (by simp only [List.length_drop]; omega)
        (hmod (by omega) _ (by omega)) ?_
      rw [List.drop_drop, show w + c + (fl - (fo + c)) = w + (fl - fo) by omega,
        show c + (fl - (fo + c)) = fl - fo by omega]
      exact hrest

theorem Open.pending (h : Open S w fo fl rem out) (hfl : fl ≤ MAX_FRAGMENT_LEN)
    (hpos : fo = 0 → fl = 0) : Pending S w (if fo ≥ fl then 0 else fo) fl rem out := by
  unfold Pending
  split
  · next hnil =>
    subst hnil
    cases h with
    | last _ _ => rfl
    | inside _ hlt _ _ => simp at hlt
  · next hne =>
    have hlen := List.length_pos_iff.mpr hne
    by_cases hfull : fo ≥ fl
    · simp only [if_pos hfull, ↓reduceIte]
      cases h with
      | last hfit _ => omega
      | @inside rest _ _ _ hrest =>
        rw [show fl - fo = 0 by omega] at hrest ⊢
        simpa using hrest
    · simp only [if_neg hfull]
      rw [if_neg (by omega)]
      exact ⟨by omega, hfl, h⟩

-- ---------------------------------------------------------------------------
-- The loop
-- ---------------------------------------------------------------------------

/-- The locals of the loop when `tape` is written, `rem` is still to be
copied and `out` still to come out. -/
structure CopyInv (log₀ : Objectlog) (s : CopyState) (tape rem out : List UInt8) : Prop where
  follows : Follows s.log.ring tape
  frame : s.log = { log₀ with ring := s.log.ring }
  size : s.log.ring.size = log₀.ring.size
  readPtr : s.log.ring.readPtr = log₀.ring.readPtr
  entries : ∀ e ∈ s.scList, e ≠ [] ∧ e.length < 65536
  offset : s.scList ≠ [] → s.scatterEntryOffset < (s.scList.headD []).length
  data8 : s.data8 = (s.scList.headD []).drop s.scatterEntryOffset
  left : rem = s.data8 ++ s.scList.tail.flatten
  dataLen : s.dataLen = rem.length
  dataLen_lt : rem.length < 65536
  pending : Pending log₀.ring.size tape.length s.fragmentOffset s.fragmentLen rem out

/-- The rounds left; only a header in the last cell comes without data. -/
def copyMeasure (s : CopyState) : Nat :=
  2 * s.dataLen +
    if s.fragmentOffset = 0 ∧ s.log.ring.size - s.log.ring.writePtr - 1 = 0 then 1 else 0

/-- The length of the fragment a round writes to. -/
def roundFragmentLen (s : CopyState) : Nat :=
  if s.fragmentOffset = 0 then fragmentRoom s.log.ring.size s.log.ring.writePtr else s.fragmentLen

/-- The block a round copies: up to the end of the fragment or of the entry. -/
def roundLen (s : CopyState) : Nat :=
  min (openLen s.fragmentOffset (roundFragmentLen s) s.dataLen)
    ((s.scList.headD []).length - s.scatterEntryOffset)

def roundOpened (s : CopyState) : Objectlog :=
  if s.fragmentOffset = 0 then
    objectlogWriteFragmentHdr s.log (openLen s.fragmentOffset (roundFragmentLen s) s.dataLen)
      (s.dataLen == openLen s.fragmentOffset (roundFragmentLen s) s.dataLen)
  else s.log

theorem copyRound_inr {s : CopyState} {log : Objectlog} :
    copyRound s = .inr log ↔ (s.scList.headD []).length = 0 ∧ log = s.log := by
  rw [copyRound]
  by_cases hsc : (s.scList.headD []).length = 0
  · rw [if_pos hsc, Sum.inr.injEq]
    exact ⟨fun h => ⟨hsc, h.symm⟩, fun h => h.2.symm⟩
  · rw [if_neg hsc]
    exact iff_of_false Sum.inl_ne_inr fun h => hsc h.1

theorem copyRound_inl {s s' : CopyState} (h : copyRound s = .inl s') :
    (s.scList.headD []).length ≠ 0 ∧ s'.log = { s.log with ring := s'.log.ring } := by
  rw [copyRound] at h
  by_cases hsc : (s.scList.headD []).length = 0
  · rw [if_pos hsc] at h
    cases h
  · rw [if_neg hsc] at h
    obtain rfl := Sum.inl.inj h
    refine ⟨hsc, ?_⟩
    simp only [objectlogWriteFragmentData, objectlogWriteFragmentHdr]
    split <;> rfl

def copyNext (s : CopyState) : CopyState where
  log := objectlogWriteFragmentData (roundOpened s) (s.data8.take (roundLen s))
  scList := if s.scatterEntryOffset + roundLen s ≥ (s.scList.headD []).length then
    s.scList.tail else s.scList
  data8 := if s.scatterEntryOffset + roundLen s ≥ (s.scList.headD []).length then
    s.scList.tail.headD [] else s.data8.drop (roundLen s)
  dataLen := s.dataLen - roundLen s
  scatterEntryOffset := if s.scatterEntryOffset + roundLen s ≥ (s.scList.headD []).length then 0
    else s.scatterEntryOffset + roundLen s
  fragmentOffset := if s.fragmentOffset + roundLen s ≥ roundFragmentLen s then 0
    else s.fragmentOffset + roundLen s
  fragmentLen := roundFragmentLen s

theorem copyRound_eq {s : CopyState} (hsc : (s.scList.headD []).length ≠ 0)
    (hentry : (s.scList.headD []).length < 65536)
    (hoff : s.scatterEntryOffset < (s.scList.headD []).length)
    (hw : s.log.ring.writePtr < s.log.ring.size) (hsize : s.log.ring.size < 65536)
    (hdata : s.dataLen < 65536)
    (hopen : s.fragmentOffset = 0 ∨ s.fragmentOffset < s.fragmentLen ∧
      s.fragmentLen ≤ MAX_FRAGMENT_LEN) :
    copyRound s = .inl (copyNext s) := by
  have hmod : s.log.ring.writePtr % s.log.ring.size = s.log.ring.writePtr := Nat.mod_eq_of_lt hw
  have hfl : (if s.fragmentOffset = 0 then
        if (MAX_FRAGMENT_LEN : Int) > s.log.ring.size - s.log.ring.writePtr - 1 then
          u16 (s.log.ring.size - s.log.ring.writePtr - 1)
        else MAX_FRAGMENT_LEN
      else s.fragmentLen) = roundFragmentLen s := by
    unfold roundFragmentLen fragmentRoom
    rw [hmod]
    split
    · unfold u16
      split <;> omega
    · rfl
  have hflle : roundFragmentLen s ≤ MAX_FRAGMENT_LEN ∧
      (s.fragmentOffset = 0 ∨ s.fragmentOffset < roundFragmentLen s) := by
    unfold roundFragmentLen
    split
    · exact ⟨fragmentRoom_le, .inl ‹_›⟩
    · have := hopen.resolve_left ‹_›
      exact ⟨this.2, .inr this.1⟩
  have hmax : MAX_FRAGMENT_LEN = 127 := rfl
  have hk : (if s.dataLen + s.fragmentOffset > roundFragmentLen s then
      u16 (roundFragmentLen s - s.fragmentOffset) else s.dataLen) =
      openLen s.fragmentOffset (roundFragmentLen s) s.dataLen := by
    unfold openLen u16
    split <;> omega
  have hc : (if (openLen s.fragmentOffset (roundFragmentLen s) s.dataLen : Int) >
        (s.scList.headD []).length - s.scatterEntryOffset then
      u16 ((s.scList.headD []).length - s.scatterEntryOffset)
      else openLen s.fragmentOffset (roundFragmentLen s) s.dataLen) = roundLen s := by
    unfold roundLen u16
    split <;> omega
  have hcle : roundLen s ≤ s.dataLen ∧ roundLen s ≤ roundFragmentLen s - s.fragmentOffset ∧
      roundLen s ≤ (s.scList.headD []).length - s.scatterEntryOffset := by
    unfold roundLen openLen
    omega
  have h1 : u16 (s.scatterEntryOffset + roundLen s) = s.scatterEntryOffset + roundLen s := by
    unfold u16; omega
  have h2 : u16 (s.fragmentOffset + roundLen s) = s.fragmentOffset + roundLen s := by
    unfold u16; omega
  have h3 : u16 (s.dataLen - roundLen s) = s.dataLen - roundLen s := by
    unfold u16; omega
  unfold copyRound
  simp only [if_neg hsc, hfl, hk, hc, h1, h2, h3, copyNext, roundOpened]

-- ---------------------------------------------------------------------------
-- The scatter list
-- ---------------------------------------------------------------------------

variable {list : List ScatterObject} {offset : Nat} {data8 : List UInt8}

/-- The place in the list: the first entry is copied up to `offset`. -/
structure Cursor (list : List ScatterObject) (offset : Nat) (data8 : List UInt8) : Prop where
  entries : ∀ e ∈ list, e ≠ [] ∧ e.length < 65536
  inside : list ≠ [] → offset < (list.headD []).length
  data8 : data8 = (list.headD []).drop offset

theorem Cursor.data8_pos (h : Cursor list offset data8) (hne : list ≠ []) : 0 < data8.length := by
  have hoff := h.inside hne
  rw [h.data8, List.length_drop]
  omega

theorem Cursor.init (h : ∀ e ∈ list, e ≠ [] ∧ e.length < 65536) :
    Cursor list 0 (list.headD []) := by
  refine ⟨h, fun hne => ?_, rfl⟩
  obtain ⟨e, es, rfl⟩ := List.exists_cons_of_ne_nil hne
  exact List.length_pos_iff.mpr (h e (by simp)).1

theorem Cursor.next (h : Cursor list offset data8) (hc : c ≤ data8.length) :
    Cursor (if offset + c ≥ (list.headD []).length then list.tail else list)
        (if offset + c ≥ (list.headD []).length then 0 else offset + c)
        (if offset + c ≥ (list.headD []).length then list.tail.headD [] else data8.drop c) ∧
      (if offset + c ≥ (list.headD []).length then list.tail.headD [] else data8.drop c) ++
          (if offset + c ≥ (list.headD []).length then list.tail else list).tail.flatten =
        (data8 ++ list.tail.flatten).drop c := by
  have hlen : data8.length = (list.headD []).length - offset := by rw [h.data8, List.length_drop]
  rw [List.drop_append_of_le_length hc]
  by_cases hdone : offset + c ≥ (list.headD []).length
  · simp only [if_pos hdone]
    refine ⟨.init fun e he => h.entries e (List.mem_of_mem_tail he), ?_⟩
    rw [List.drop_of_length_le (by omega)]
    cases list.tail <;> simp
  · simp only [if_neg hdone]
    refine ⟨⟨h.entries, fun _ => Nat.lt_of_not_ge hdone, ?_⟩, trivial⟩
    rw [h.data8, List.drop_drop]

theorem Cursor.round {s : CopyState} (h : Cursor s.scList s.scatterEntryOffset s.data8)
    (hne : s.scList ≠ [])
    (hw : s.log.ring.writePtr < s.log.ring.size) (hsize : s.log.ring.size < 65536)
    (hdata : s.dataLen < 65536)
    (hopen : s.fragmentOffset = 0 ∨ s.fragmentOffset < s.fragmentLen ∧
      s.fragmentLen ≤ MAX_FRAGMENT_LEN) :
    copyRound s = .inl (copyNext s) := by
  have hoff := h.inside hne
  obtain ⟨e, es, hsc⟩ := List.exists_cons_of_ne_nil hne
  have hentry := (h.entries e (by simp [hsc])).2
  exact copyRound_eq (Nat.ne_of_gt (Nat.zero_lt_of_lt hoff)) (by rwa [hsc]) hoff hw
    hsize hdata hopen

-- ---------------------------------------------------------------------------
-- A round of the loop
-- ---------------------------------------------------------------------------

theorem CopyInv.opened {log₀ : Objectlog} {s : CopyState} (h : CopyInv log₀ s tape rem out)
    (hne : rem ≠ []) :
    ∃ hdr out', out = hdr ++ out' ∧ Follows (roundOpened s).ring (tape ++ hdr) ∧
      roundOpened s = { log₀ with ring := (roundOpened s).ring } ∧
      (roundOpened s).ring.size = log₀.ring.size ∧
        (roundOpened s).ring.readPtr = log₀.ring.readPtr ∧
      Open log₀.ring.size (tape ++ hdr).length s.fragmentOffset (roundFragmentLen s) rem out' ∧
      roundFragmentLen s ≤ MAX_FRAGMENT_LEN ∧
      (s.fragmentOffset = 0 → roundFragmentLen s = fragmentRoom log₀.ring.size tape.length) ∧
      hdr.length = if s.fragmentOffset = 0 then 1 else 0 := by
  have hp := h.pending
  unfold Pending at hp
  rw [if_neg hne] at hp
  by_cases h0 : s.fragmentOffset = 0
  · rw [if_pos h0] at hp
    have hroom : roundFragmentLen s = fragmentRoom log₀.ring.size tape.length := by
      rw [roundFragmentLen, if_pos h0, h.follows.write, h.size, fragmentRoom,
        Nat.mod_mod, ← fragmentRoom]
    obtain ⟨out', hout, hopen⟩ := hp.open (h.size ▸ h.follows.pos)
    have hlog : roundOpened s = objectlogWriteFragmentHdr s.log
        (openLen 0 (fragmentRoom log₀.ring.size tape.length) rem.length)
        (decide (rem.length = openLen 0 (fragmentRoom log₀.ring.size tape.length) rem.length)) := by
      rw [roundOpened, if_pos h0, h0, hroom, h.dataLen]
      rfl
    rw [hlog, hroom, h0]
    refine ⟨[_], out', hout, h.follows.writeOne _, ?_, h.size, h.readPtr, by simpa using hopen,
      fragmentRoom_le, fun _ => rfl, rfl⟩
    conv => lhs; rw [h.frame]
    rfl
  · rw [if_neg h0] at hp
    have hlog : roundOpened s = s.log := if_neg h0
    have hfl : roundFragmentLen s = s.fragmentLen := if_neg h0
    rw [hlog, hfl]
    exact ⟨[], out,
      rfl, by simpa using h.follows, h.frame, h.size, h.readPtr, by simpa using hp.2.2,
      hp.2.1, fun he => absurd he h0, (if_neg h0).symm⟩

theorem CopyInv.cursor {log₀ : Objectlog} {s : CopyState} (h : CopyInv log₀ s tape rem out) :
    Cursor s.scList s.scatterEntryOffset s.data8 := ⟨h.entries, h.offset, h.data8⟩

theorem CopyInv.rem_ne_nil {log₀ : Objectlog} {s : CopyState} (h : CopyInv log₀ s tape rem out)
    (hne : s.scList ≠ []) : rem ≠ [] := by
  have hpos := h.cursor.data8_pos hne
  have hlen := congrArg List.length h.left
  rw [List.length_append] at hlen
  exact List.ne_nil_of_length_pos (by omega)

theorem CopyInv.fragment {log₀ : Objectlog} {s : CopyState} (h : CopyInv log₀ s tape rem out)
    (hne : rem ≠ []) :
    s.fragmentOffset = 0 ∨ s.fragmentOffset < s.fragmentLen ∧ s.fragmentLen ≤ MAX_FRAGMENT_LEN := by
  have hp := h.pending
  unfold Pending at hp
  rw [if_neg hne] at hp
  by_cases h0 : s.fragmentOffset = 0
  · exact .inl h0
  · rw [if_neg h0] at hp
    exact .inr ⟨hp.1, hp.2.1⟩

theorem CopyInv.round {log₀ : Objectlog} {s : CopyState} (h : CopyInv log₀ s tape rem out)
    (hne : s.scList ≠ []) : copyRound s = .inl (copyNext s) :=
  h.cursor.round hne h.follows.writePtr_lt h.follows.lt (h.dataLen ▸ h.dataLen_lt)
    (h.fragment (h.rem_ne_nil hne))

/-- What a round writes: a header if it starts a fragment, and a block up to the
end of the storage at most. -/
structure RoundWrites (log₀ : Objectlog) (s : CopyState) (tape hdr block : List UInt8) : Prop where
  header : hdr.length = if s.fragmentOffset = 0 then 1 else 0
  copied : s.data8.take (roundLen s) = block
  opened : Follows (roundOpened s).ring (tape ++ hdr)
  size : (roundOpened s).ring.size = log₀.ring.size
  fits : (tape ++ hdr).length % log₀.ring.size + block.length ≤ log₀.ring.size

theorem CopyInv.next {log₀ : Objectlog} {s : CopyState} (h : CopyInv log₀ s tape rem out)
    (hne : s.scList ≠ []) :
    ∃ hdr block rem' out', RoundWrites log₀ s tape hdr block ∧
      CopyInv log₀ (copyNext s) (tape ++ hdr ++ block) rem' out' ∧ tape ++ hdr ++ block ++
        out' = tape ++ out := by
  obtain ⟨hdr, out₁, hout, hfollows, hframe, hsize, hread, hopen, hflle, hfl0, hhdr⟩ :=
    h.opened (h.rem_ne_nil hne)
  have hc : roundLen s = min (openLen s.fragmentOffset (roundFragmentLen s) rem.length)
      s.data8.length := by
    rw [roundLen, h.dataLen, h.data8, List.length_drop]
  have hpos := h.cursor.data8_pos hne
  have hremlen : rem.length = s.data8.length + s.scList.tail.flatten.length := by
    rw [h.left, List.length_append]
  have hcd8 : roundLen s ≤ s.data8.length := by omega
  have hcopen : roundLen s ≤ openLen s.fragmentOffset (roundFragmentLen s) rem.length := by omega
  obtain ⟨out₂, hout₂, hfit, hopen₂⟩ := hopen.block hcopen
  obtain ⟨hcursor, hleft⟩ := h.cursor.next hcd8
  have htake : s.data8.take (roundLen s) = rem.take (roundLen s) := by
    rw [h.left, List.take_append_of_le_length hcd8]
  have htakelen : (rem.take (roundLen s)).length = roundLen s := List.length_take_of_le (by omega)
  have hwrite : (roundOpened s).ring.writePtr + (rem.take (roundLen s)).length ≤ (roundOpened
      s).ring.size := by
    rw [hfollows.write, hsize, htakelen]
    exact hfit
  have hlog : (copyNext s).log =
      { roundOpened s with ring := ringbufferWrite (roundOpened s).ring (rem.take
          (roundLen s)) } := by
    rw [copyNext, objectlogWriteFragmentData, htake]
  refine ⟨hdr, rem.take (roundLen s), rem.drop (roundLen s), out₂, ?_, ?_, ?_⟩
  · exact ⟨hhdr, htake, hfollows, hsize, by rw [htakelen]; exact hfit⟩
  · refine ⟨hlog ▸ hfollows.write_inside _ hwrite, ?_, ?_, ?_, hcursor.entries, hcursor.inside,
      hcursor.data8, ?_, ?_, ?_, ?_⟩
    · rw [hlog]
      conv => lhs; rw [hframe]
    · rw [hlog]
      simpa using hsize
    · rw [hlog]
      simpa using hread
    · rw [h.left]
      exact hleft.symm
    · rw [copyNext, List.length_drop, h.dataLen]
    · rw [List.length_drop]
      exact Nat.lt_of_le_of_lt (Nat.sub_le ..) h.dataLen_lt
    · rw [List.length_append, htakelen]
      refine hopen₂.pending hflle fun h0 => ?_
      -- nothing is copied only where the fragment has no room
      have hroom := hfl0 (by omega)
      unfold openLen at hc
      omega
  · rw [hout, hout₂]
    simp [List.append_assoc]

/-- A round that copies nothing writes a header to the last cell: the next one
is at cell 0. -/
theorem CopyInv.roundLen_zero {log₀ : Objectlog} {s : CopyState} (h : CopyInv log₀ s tape rem out)
    (hne : s.scList ≠ []) (hzero : roundLen s = 0) :
    s.fragmentOffset = 0 ∧ s.log.ring.size - s.log.ring.writePtr - 1 = 0 ∧
      (copyNext s).log.ring.writePtr = 0 := by
  obtain ⟨hdr, out₁, -, hfollows, -, hsize, -, -, -, hfl0, hhdr⟩ := h.opened (h.rem_ne_nil hne)
  have hpos := h.cursor.data8_pos hne
  have hrem := List.length_pos_iff.mpr (h.rem_ne_nil hne)
  have hopen : min rem.length (roundFragmentLen s - s.fragmentOffset) = 0 := by
    have hc : roundLen s = min (openLen s.fragmentOffset (roundFragmentLen s) rem.length)
        s.data8.length := by
      rw [roundLen, h.dataLen, h.data8, List.length_drop]
    unfold openLen at hc
    omega
  have h0 : s.fragmentOffset = 0 := by
    by_contra h0
    have hopened := (h.fragment (h.rem_ne_nil hne)).resolve_left h0
    rw [roundFragmentLen, if_neg h0] at hopen
    omega
  have hroom := hfl0 h0
  rw [if_pos h0] at hhdr
  have hw := h.follows.write
  have hwlt := h.follows.writePtr_lt
  have hlast : s.log.ring.writePtr + 1 = s.log.ring.size := by
    rw [hroom, fragmentRoom, ← h.size, ← hw, MAX_FRAGMENT_LEN] at hopen
    omega
  have hnext : (roundOpened s).ring.writePtr = 0 := by
    rw [hfollows.write, hsize, List.length_append, hhdr, ← h.size]
    apply mod_add_of_eq
    rw [← hw]
    exact hlast
  have hnil := hfollows.write_inside_eq [] (by rw [hnext]; simp)
  refine ⟨h0, by omega, ?_⟩
  simp only [copyNext, objectlogWriteFragmentData, hzero, List.take_zero, hnil, hnext,
    List.length_nil, Nat.add_zero, Nat.zero_mod]

theorem copyNext_size {s : CopyState} : (copyNext s).log.ring.size = s.log.ring.size := by
  simp only [copyNext, objectlogWriteFragmentData, write_size, roundOpened]
  split <;> rfl

theorem CopyInv.measure_lt {log₀ : Objectlog} {s : CopyState} (hS : 2 ≤ log₀.ring.size)
    (h : CopyInv log₀ s tape rem out) (hne : s.scList ≠ []) :
    copyMeasure (copyNext s) < copyMeasure s := by
  have hdata : (copyNext s).dataLen = s.dataLen - roundLen s := rfl
  have hle : roundLen s ≤ s.dataLen := by
    unfold roundLen openLen
    omega
  unfold copyMeasure
  by_cases hzero : roundLen s = 0
  · obtain ⟨h0, hlast, hnext⟩ := h.roundLen_zero hne hzero
    have hsize := h.size
    have hnot : ¬ ((copyNext s).fragmentOffset = 0 ∧
        (copyNext s).log.ring.size - (copyNext s).log.ring.writePtr - 1 = 0) := by
      rw [hnext, copyNext_size]
      omega
    rw [if_neg hnot, if_pos ⟨h0, hlast⟩]
    omega
  · split <;> split <;> omega

theorem copyRound_inv {log₀ : Objectlog} {s : CopyState} (hS : 2 ≤ log₀.ring.size)
    (h : CopyInv log₀ s tape rem out) (hne : s.scList ≠ []) :
    ∃ s' tape' rem' out', copyRound s = .inl s' ∧ CopyInv log₀ s' tape' rem' out' ∧
      tape' ++ out' = tape ++ out ∧ copyMeasure s' < copyMeasure s := by
  obtain ⟨hdr, block, rem', out', -, hinv, happ⟩ := h.next hne
  exact ⟨_, _, rem', out', h.round hne, hinv, happ, h.measure_lt hS hne⟩

theorem CopyInv.init {log : Objectlog} {list : List ScatterObject} {enc : List UInt8}
    (h : Follows log.ring tape) (hentries : ∀ e ∈ list, e ≠ [] ∧ e.length < 65536) (hne : list ≠ [])
    (hlt : list.flatten.length < 65536)
    (henc : Encodes log.ring.size tape.length list.flatten enc) :
    CopyInv log {
      log, scList := list, data8 := list.headD [], dataLen := list.flatten.length
      scatterEntryOffset := 0, fragmentOffset := 0, fragmentLen := 0 } tape list.flatten enc := by
  obtain ⟨e, es, rfl⟩ := List.exists_cons_of_ne_nil hne
  have he := (hentries e (by simp)).1
  have hflat : (e :: es).flatten ≠ [] := by simp [he]
  exact ⟨h, rfl, rfl, rfl, hentries, (Cursor.init hentries).inside, rfl, rfl, rfl, hlt,
    by simpa only [Pending, if_neg hflat, ↓reduceIte] using henc⟩

theorem CopyInv.out_nil {log₀ : Objectlog} {s : CopyState} (h : CopyInv log₀ s tape rem out)
    (hsc : s.scList = []) :
    out = [] := by
  have hrem : rem = [] := by
    rw [h.left, h.data8, hsc]
    simp
  simpa [Pending, hrem] using h.pending

theorem copyScattered_ensures {log : Objectlog} {list : List ScatterObject} {enc : List UInt8}
    (hS : 2 ≤ log.ring.size) (h : Follows log.ring tape)
    (hentries : ∀ e ∈ list, e ≠ [] ∧ e.length < 65536) (hne : list ≠ [])
    (hlt : list.flatten.length < 65536)
    (henc : Encodes log.ring.size tape.length list.flatten enc) :
    (copyScattered log list list.flatten.length).Ensures fun log' =>
      log' = { log with ring := log'.ring } ∧ Follows log'.ring (tape ++ enc) ∧
        log'.ring.size = log.ring.size ∧ log'.ring.readPtr = log.ring.readPtr := by
  refine Comp.loop_ensures
    (fun s => ∃ tape' rem out, CopyInv log s tape' rem out ∧ tape' ++ out = tape ++ enc)
    copyMeasure _ ?_ ?_
  · rintro s ⟨tape', rem, out, hinv, hfinal⟩
    rw [Comp.ensures_pure]
    by_cases hsc : s.scList = []
    · rw [hinv.out_nil hsc, List.append_nil] at hfinal
      have hround : copyRound s = .inr s.log := by simp [copyRound, hsc]
      rw [hround]
      exact ⟨hinv.frame, hfinal ▸ hinv.follows, hinv.size, hinv.readPtr⟩
    · obtain ⟨s', tape'', rem', out', hround, hinv', happ, hlt⟩ := copyRound_inv hS hinv hsc
      rw [hround]
      exact ⟨⟨tape'', rem', out', hinv', happ.trans hfinal⟩, hlt⟩
  · exact ⟨tape, list.flatten, enc, .init h hentries hne hlt henc, rfl⟩

-- ---------------------------------------------------------------------------
-- A total that is too small
-- ---------------------------------------------------------------------------

theorem writeOne_writePtr_lt {ring : Ringbuffer} (h : 0 < ring.size) (b : UInt8) :
    (ringbufferWriteOne ring b).writePtr < ring.size := Nat.mod_lt _ h

theorem write_writePtr_lt (ring : Ringbuffer) (h : 0 < ring.size) (data : List UInt8) :
    (ringbufferWrite ring data).writePtr < ring.size := by
  unfold ringbufferWrite
  split <;> exact Nat.mod_lt _ h

/-- The locals of the loop when the total it counts down is less than what the
list still holds. -/
structure CopyStuck (s : CopyState) : Prop where
  pos : 0 < s.log.ring.size
  lt : s.log.ring.size < 65536
  writePtr : s.log.ring.writePtr < s.log.ring.size
  entries : ∀ e ∈ s.scList, e ≠ [] ∧ e.length < 65536
  offset : s.scList ≠ [] → s.scatterEntryOffset < (s.scList.headD []).length
  data8 : s.data8 = (s.scList.headD []).drop s.scatterEntryOffset
  dataLen : s.dataLen < (s.data8 ++ s.scList.tail.flatten).length
  dataLen_lt : s.dataLen < 65536
  open_ : s.fragmentOffset = 0 ∨ s.fragmentOffset < s.fragmentLen ∧ s.fragmentLen ≤ MAX_FRAGMENT_LEN

theorem roundOpened_ring (s : CopyState) (h : 0 < s.log.ring.size)
    (hw : s.log.ring.writePtr < s.log.ring.size) :
    (roundOpened s).ring.size = s.log.ring.size ∧
      (roundOpened s).ring.writePtr < s.log.ring.size := by
  unfold roundOpened
  split
  · exact ⟨rfl, writeOne_writePtr_lt h _⟩
  · exact ⟨rfl, hw⟩

theorem CopyStuck.cursor {s : CopyState} (h : CopyStuck s) :
    Cursor s.scList s.scatterEntryOffset s.data8 := ⟨h.entries, h.offset, h.data8⟩

theorem CopyStuck.scList_ne_nil {s : CopyState} (h : CopyStuck s) : s.scList ≠ [] := by
  intro hnil
  have hlt := h.dataLen
  rw [h.data8, hnil] at hlt
  simp at hlt

theorem CopyStuck.next {s : CopyState} (h : CopyStuck s) : CopyStuck (copyNext s) := by
  have hne := h.scList_ne_nil
  have hpos := h.cursor.data8_pos hne
  have hc : roundLen s ≤ s.dataLen ∧ roundLen s ≤ s.data8.length := by
    rw [h.data8, List.length_drop]
    unfold roundLen openLen
    omega
  obtain ⟨hcursor, hleft⟩ := h.cursor.next hc.2
  have hring := roundOpened_ring s h.pos h.writePtr
  have hfl : roundFragmentLen s ≤ MAX_FRAGMENT_LEN := by
    unfold roundFragmentLen
    split
    · exact fragmentRoom_le
    · exact (h.open_.resolve_left ‹_›).2
  have hsize : (copyNext s).log.ring.size = s.log.ring.size := copyNext_size
  refine ⟨hsize ▸ h.pos, hsize ▸ h.lt, ?_, hcursor.entries, hcursor.inside, hcursor.data8,
    ?_, Nat.lt_of_le_of_lt (Nat.sub_le ..) h.dataLen_lt, ?_⟩
  · rw [copyNext_size, ← hring.1]
    exact write_writePtr_lt _ (hring.1.symm ▸ h.pos) _
  · have hlt := h.dataLen
    simp only [copyNext]
    rw [hleft, List.length_drop]
    omega
  · simp only [copyNext]
    split
    · exact .inl rfl
    · exact .inr ⟨by omega, hfl⟩

theorem copyRound_stuck {s : CopyState} (h : CopyStuck s) :
    ∃ s', copyRound s = .inl s' ∧ CopyStuck s' :=
  ⟨_, h.cursor.round h.scList_ne_nil h.writePtr h.lt h.dataLen_lt h.open_, h.next⟩

theorem copyScattered_diverges {log : Objectlog} {list : List ScatterObject} {dataLen : Nat}
    (hpos : 0 < log.ring.size) (hlt : log.ring.size < 65536)
    (hw : log.ring.writePtr < log.ring.size) (hentries : ∀ e ∈ list, e ≠ [] ∧ e.length < 65536)
    (hdata : dataLen < 65536) (hshort : dataLen < list.flatten.length) :
    (copyScattered log list dataLen).Diverges := by
  refine Comp.loop_diverges CopyStuck ?_
    ⟨hpos, hlt, hw, hentries, (Cursor.init hentries).inside, rfl, ?_, hdata, .inl rfl⟩
  · intro s hs o ho
    obtain ⟨s', hround, hs'⟩ := copyRound_stuck hs
    rw [Comp.returns_pure, hround] at ho
    exact ⟨s', ho.symm, hs'⟩
  · cases list with
    | nil => simp at hshort
    | cons e es => simpa using hshort

end FxIP
