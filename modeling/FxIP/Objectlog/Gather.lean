import FxIP.Objectlog.Eviction

/-!
# Gathering

A scatter list is stored as its parts would be stored in one piece, in a log of
any contents. The ring follows a tape that is as long as its storage, so what
the copy loop appends to the tape determines every cell.
-/

namespace FxIP

open Circular

variable {ring ring' : Ringbuffer} {log log' : Objectlog} {list : List ScatterObject}
variable {tape : List UInt8} {dataLen : Nat}

theorem Follows.unique (h : Follows ring tape) (h' : Follows ring' tape)
    (hsize : ring.size = ring'.size)
    (hread : ring.readPtr = ring'.readPtr) (hfull : ring.size ≤ tape.length) : ring = ring' := by
  obtain ⟨hbuffer, hwrite⟩ := h.same h' hsize hfull
  cases ring
  cases ring'
  simp_all

-- ---------------------------------------------------------------------------
-- What comes before the copy loop
-- ---------------------------------------------------------------------------

theorem getNextEntry_frame {offset : Nat} {r : Nat × Objectlog}
    (h : (getNextEntry log offset).Returns r) :
    ∃ p, r.2 = log.withReadPtr p := by
  refine h.loop_invariant (fun log' => ∃ p, log' = log.withReadPtr p)
    (fun r => ∃ p, r.2 = log.withReadPtr p)
    ?_ ?_ ⟨offset, rfl⟩
  · rintro _ s' ⟨p, rfl⟩ hround
    rw [Comp.returns_pure, getNextEntryRound] at hround
    simp only at hround
    split at hround
    · cases hround
    · split at hround
      · obtain rfl := Sum.inl.inj hround
        exact ⟨_, rfl⟩
      · cases hround
  · rintro _ r ⟨p, rfl⟩ hround
    rw [Comp.returns_pure, getNextEntryRound] at hround
    simp only at hround
    split at hround
    · obtain rfl := Sum.inr.inj hround
      exact ⟨_, rfl⟩
    · split at hround
      · cases hround
      · obtain rfl := Sum.inr.inj hround
        exact ⟨_, rfl⟩

theorem evict_frame {logEnd total : Nat} (h : (evict logEnd total log).Returns log') :
    ∃ p, log'.ring = (log.withReadPtr p).ring := by
  refine h.loop_invariant (fun s => ∃ p, s.1.ring = (log.withReadPtr p).ring)
    (fun log' => ∃ p, log'.ring = (log.withReadPtr p).ring) ?_ ?_ ⟨log.ring.readPtr, rfl⟩
  · rintro ⟨log₁, freeSpace⟩ s' ⟨p, hring⟩ hround
    rw [evictRound] at hround
    split at hround
    · obtain ⟨log₂, hdrop, hround⟩ := Comp.returns_bind.mp hround
      obtain ⟨r, hwalk, hlog₂⟩ := Comp.returns_bind.mp hdrop
      obtain ⟨q, hq⟩ := getNextEntry_frame hwalk
      obtain rfl := Comp.returns_pure.mp hlog₂
      obtain rfl := Sum.inl.inj (Comp.returns_pure.mp hround)
      refine ⟨q, ?_⟩
      simp only at hring ⊢
      rw [hq, Objectlog.withReadPtr, hring]
      rfl
    · cases Comp.returns_pure.mp hround
  · rintro ⟨log₁, freeSpace⟩ r ⟨p, hring⟩ hround
    rw [evictRound] at hround
    split at hround
    · obtain ⟨log₂, -, hround⟩ := Comp.returns_bind.mp hround
      cases Comp.returns_pure.mp hround
    · obtain rfl := Sum.inr.inj (Comp.returns_pure.mp hround)
      exact ⟨p, hring⟩

theorem isScatterList_singleton {data : List UInt8} (hne : data ≠ []) (hlt : data.length < 65536) :
    IsScatterList [data] := by
  rintro e he
  rw [List.mem_singleton.mp he]
  exact ⟨hne, hlt⟩

-- ---------------------------------------------------------------------------
-- The copy loop
-- ---------------------------------------------------------------------------

/-- The locals of the loop in a ring of one cell, where no fragment has room. -/
structure CopySingle (s : CopyState) : Prop where
  size : s.log.ring.size = 1
  writePtr : s.log.ring.writePtr = 0
  cursor : Cursor s.scList s.scatterEntryOffset s.data8
  more : s.scList ≠ []
  fragment : s.fragmentOffset = 0
  dataLen : s.dataLen < 65536

theorem CopySingle.roundFragmentLen_zero {s : CopyState} (h : CopySingle s) :
    roundFragmentLen s = 0 := by
  rw [roundFragmentLen, if_pos h.fragment, h.size, h.writePtr]
  rfl

theorem CopySingle.roundLen_zero {s : CopyState} (h : CopySingle s) : roundLen s = 0 := by
  have hfl := h.roundFragmentLen_zero
  unfold roundLen openLen
  omega

theorem CopySingle.next {s : CopyState} (h : CopySingle s) : CopySingle (copyNext s) := by
  have hinside := h.cursor.inside h.more
  obtain ⟨hcursor, -⟩ := h.cursor.next (c := 0) (Nat.zero_le _)
  have hsize : (copyNext s).log.ring.size = 1 := copyNext_size.trans h.size
  have hw : (copyNext s).log.ring.writePtr < 1 := by
    have hring := roundOpened_ring s (by rw [h.size]; decide) (by rw [h.size, h.writePtr]; decide)
    rw [h.size] at hring
    have := write_writePtr_lt (roundOpened s).ring (by rw [hring.1]; decide)
      (s.data8.take (roundLen s))
    rwa [hring.1] at this
  refine ⟨hsize, by omega, ?_, ?_, ?_, Nat.lt_of_le_of_lt (Nat.sub_le ..) h.dataLen⟩
  · simpa only [copyNext, h.roundLen_zero] using hcursor
  · simp only [copyNext, h.roundLen_zero]
    rw [if_neg (by omega)]
    exact h.more
  · simp only [copyNext, h.roundLen_zero, h.roundFragmentLen_zero, h.fragment]
    rfl

theorem copyScattered_single_diverges (hsize : log.ring.size = 1) (hw : log.ring.writePtr < 1)
    (hlist : IsScatterList list) (hne : list ≠ []) (hdata : dataLen < 65536) :
    (copyScattered log list dataLen).Diverges := by
  refine Comp.loop_diverges CopySingle ?_
    ⟨hsize, by simp only; omega, Cursor.init hlist, hne, rfl, hdata⟩
  intro s hs o ho
  rw [Comp.returns_pure, hs.cursor.round hs.more (by rw [hs.size, hs.writePtr]; decide)
    (by rw [hs.size]; decide) hs.dataLen (.inl hs.fragment)] at ho
  exact ⟨_, ho.symm, hs.next⟩

section
variable (hlen : log.ring.buffer.length = log.ring.size) (hlt : log.ring.size < 65536)
  (hw : log.ring.writePtr < log.ring.size) (hlist : IsScatterList list) (hne : list ≠ [])
  (hsum : list.flatten.length < 65536)
include hlen hlt hw hlist hne hsum

/-- From any log the loop comes to the same end for a list and for its parts
in one piece. -/
theorem copyScattered_gather (hsize : 2 ≤ log.ring.size) :
    ∃ log', (copyScattered log list list.flatten.length).Returns log' ∧
      (copyScattered log [list.flatten] list.flatten.length).Returns log' := by
  have hfollows := follows_self hlen hlt hw
  obtain ⟨enc, henc⟩ := encodes_exists hsize
    (log.ring.buffer ++ log.ring.buffer.take log.ring.writePtr).length list.flatten
  have hone : [list.flatten].flatten = list.flatten := by simp
  obtain ⟨log₁, hret₁, hlog₁, hfollows₁, hsize₁, hread₁⟩ :=
    copyScattered_ensures hsize hfollows hlist hne hsum henc
  obtain ⟨log₂, hret₂, hlog₂, hfollows₂, hsize₂, hread₂⟩ :=
    copyScattered_ensures hsize hfollows
      (isScatterList_singleton (flatten_ne_nil hlist hne) hsum) (by simp) (by rwa [hone])
        (by rwa [hone])
  rw [hone] at hret₂
  have hring : log₁.ring = log₂.ring := by
    refine hfollows₁.unique hfollows₂ (hsize₁.trans hsize₂.symm) (hread₁.trans hread₂.symm) ?_
    simp only [List.length_append]
    omega
  refine ⟨log₁, hret₁, ?_⟩
  rwa [hlog₁, hring, ← hlog₂]

theorem copyScattered_gather_iff :
    (copyScattered log list list.flatten.length).Returns log' ↔
      (copyScattered log [list.flatten] list.flatten.length).Returns log' := by
  by_cases hsize : 2 ≤ log.ring.size
  · obtain ⟨log₁, hret, hret'⟩ := copyScattered_gather hlen hlt hw hlist hne hsum hsize
    constructor
    · intro h
      exact hret.unique h ▸ hret'
    · intro h
      exact hret'.unique h ▸ hret
  · have hone : log.ring.size = 1 := by omega
    rw [hone] at hw
    refine iff_of_false (copyScattered_single_diverges hone hw hlist hne hsum _) ?_
    exact copyScattered_single_diverges hone hw
      (isScatterList_singleton (flatten_ne_nil hlist hne) hsum) (by simp) hsum _

end

-- ---------------------------------------------------------------------------
-- The whole write
-- ---------------------------------------------------------------------------

section
variable (hlen : log.ring.buffer.length = log.ring.size) (hlt : log.ring.size < 65536)
  (hw : log.ring.writePtr < log.ring.size) (hlist : IsScatterList list) (hne : list ≠ [])
  (hfits : list.flatten.length + DIV_ROUND_UP list.flatten.length MAX_FRAGMENT_LEN < 65536)
include hlen hlt hw hlist hne hfits

/-- Where the copy loop starts the ring is as it was but for the read pointer. -/
theorem copyScattered_evicted_iff {logEnd total : Nat} {log₁ log₂ : Objectlog}
    (hwalk : (getNextEntry log log.ptrLast).Returns (logEnd, log₁))
    (hevict : (evict logEnd total log₁).Returns log₂) :
    (copyScattered log₂ list list.flatten.length).Returns log' ↔
      (copyScattered log₂ [list.flatten] list.flatten.length).Returns log' := by
  obtain ⟨p, hp⟩ := getNextEntry_frame hwalk
  obtain ⟨q, hq⟩ := evict_frame hevict
  simp only at hp
  rw [hp] at hq
  exact copyScattered_gather_iff (by rw [hq]; exact hlen) (by rw [hq]; exact hlt)
    (by rw [hq]; exact hw)
    hlist hne (by omega)

theorem write_gather_iff {r : Nat × Objectlog} :
    (objectlogWriteScatteredObject log list).Returns r ↔
      (objectlogWriteObject log list.flatten).Returns r := by
  have hone : scatterLen 0 [list.flatten] = list.flatten.length := by
    have hsingle := isScatterList_singleton (flatten_ne_nil hlist hne) (by omega)
    rw [scatterLen_eq (fun e he => (hsingle e he).1) (by decide)]
    simp only [List.flatten_cons, List.flatten_nil, List.append_nil]
    omega
  have hscatter : scatterLen 0 list = list.flatten.length := by
    rw [scatterLen_eq (fun e he => (hlist e he).1) (by decide)]
    omega
  unfold objectlogWriteObject objectlogWriteScatteredObject
  rw [Comp.returns_bind, Comp.returns_bind]
  simp only [hone, hscatter]
  refine exists_congr fun ⟨logEnd, log₁⟩ => and_congr_right fun hwalk => ?_
  split
  · rfl
  · rw [Comp.returns_bind, Comp.returns_bind]
    refine exists_congr fun log₂ => and_congr_right fun hevict => ?_
    rw [Comp.returns_bind, Comp.returns_bind]
    exact exists_congr fun log₃ =>
      and_congr_left' (copyScattered_evicted_iff hlen hlt hw hlist hne hfits hwalk hevict)

omit hlen hlt in
/-- In a ring of one cell nothing can be copied, so a write that is not rejected does
not return. -/
theorem write_single_diverges {logEnd : Nat} {log₁ : Objectlog} (hsize : log.ring.size = 1)
    (hwalk : (getNextEntry log log.ptrLast).Returns (logEnd, log₁))
    (hfull : reservedLen log.ring.size logEnd list.flatten.length ≤ log.ring.size) :
    (objectlogWriteScatteredObject log list).Diverges := by
  rintro r hret
  have hscatter : scatterLen 0 list = list.flatten.length := by
    rw [scatterLen_eq (fun e he => (hlist e he).1) (by decide)]
    omega
  obtain ⟨⟨logEnd', log₁'⟩, hwalk', hret⟩ := Comp.returns_bind.mp hret
  obtain ⟨rfl, rfl⟩ := Prod.mk.inj (hwalk.unique hwalk')
  obtain ⟨p, rfl : log₁ = log.withReadPtr p⟩ := getNextEntry_frame hwalk
  simp only [hscatter, withReadPtr_size] at hret
  rw [if_neg (Nat.not_lt_of_le hfull)] at hret
  obtain ⟨log₂, hevict, hret⟩ := Comp.returns_bind.mp hret
  obtain ⟨log₃, hcopy, -⟩ := Comp.returns_bind.mp hret
  obtain ⟨q, hq⟩ := evict_frame hevict
  refine copyScattered_single_diverges ?_ ?_ hlist hne (by omega) _ hcopy
  · rw [hq]
    exact hsize
  · rw [hq]
    exact hsize ▸ hw

/-- Where the walk and the eviction end, the write returns unless the header for
wrapping overflows its size in a ring of one cell. -/
theorem write_returns_of_ends {logEnd : Nat} {log₁ : Objectlog}
    (hwalk : (getNextEntry log log.ptrLast).Returns (logEnd, log₁))
    (hevict : reservedLen log.ring.size logEnd list.flatten.length ≤ log.ring.size →
      ∃ log₂,
        (evict logEnd (reservedLen log.ring.size logEnd list.flatten.length) log₁).Returns log₂) :
    (∃ r, (objectlogWriteScatteredObject log list).Returns r) ↔
      2 ≤ log.ring.size ∨
        list.flatten.length + DIV_ROUND_UP list.flatten.length MAX_FRAGMENT_LEN + 1 < 65536 := by
  have hscatter : scatterLen 0 list = list.flatten.length := by
    rw [scatterLen_eq (fun e he => (hlist e he).1) (by decide)]
    omega
  have hdata := List.length_pos_iff.mpr (flatten_ne_nil hlist hne)
  constructor
  · rintro ⟨r, hret⟩
    by_contra hnot
    -- the size is 65535, and with the header for wrapping 0
    have hone : log.ring.size = 1 := by omega
    have hzero : reservedLen log.ring.size logEnd list.flatten.length ≤ log.ring.size := by
      unfold reservedLen u16 DIV_ROUND_UP MAX_FRAGMENT_LEN
      unfold DIV_ROUND_UP MAX_FRAGMENT_LEN at hfits hnot
      dsimp only
      split <;> omega
    exact write_single_diverges hw hlist hne hfits hone hwalk hzero r hret
  · intro hsize
    obtain ⟨p, rfl : log₁ = log.withReadPtr p⟩ := getNextEntry_frame hwalk
    have hret : (objectlogWriteScatteredObject log list).Ensures fun _ => True := by
      unfold objectlogWriteScatteredObject
      rw [Comp.ensures_bind]
      refine hwalk.ensures ?_
      simp only [hscatter, withReadPtr_size]
      by_cases hrej : log.ring.size < reservedLen log.ring.size logEnd list.flatten.length
      · rw [if_pos hrej, Comp.ensures_pure]
        trivial
      · obtain ⟨log₂, hlog₂⟩ := hevict (Nat.le_of_not_lt hrej)
        obtain ⟨q, hq⟩ := evict_frame hlog₂
        have htwo : 2 ≤ log₂.ring.size := by
          rw [hq]
          rcases hsize with hsize | hsize
          · exact hsize
          · have hle := encodedLen_le log.ring.size logEnd list.flatten.length
            rw [reservedLen_eq (by omega)] at hrej
            unfold encodedLen DIV_ROUND_UP MAX_FRAGMENT_LEN at hrej
            simp only [withReadPtr_size]
            omega
        obtain ⟨log₃, hcopy, -⟩ := copyScattered_gather (by rw [hq]; exact hlen)
          (by rw [hq]; exact hlt) (by rw [hq]; exact hw) hlist hne (by omega) htwo
        rw [if_neg hrej, Comp.ensures_bind]
        refine hlog₂.ensures ?_
        rw [Comp.ensures_bind]
        exact hcopy.ensures (Comp.ensures_pure.mpr trivial)
    exact hret.imp fun r hr => hr.1

/-- A list and its parts in one piece are stored alike, in a log of any contents,
where the walk and the eviction end. Both writes return exactly if the ring has two
cells or the size with a header for wrapping fits in 16 bits. -/
theorem write_gather :
    (∀ r, (objectlogWriteScatteredObject log list).Returns r ↔
      (objectlogWriteObject log list.flatten).Returns r) ∧
    ∀ logEnd log₁, (getNextEntry log log.ptrLast).Returns (logEnd, log₁) →
      (reservedLen log.ring.size logEnd list.flatten.length ≤ log.ring.size →
        ∃ log₂, (evict logEnd (reservedLen log.ring.size logEnd list.flatten.length) log₁).Returns
          log₂) →
      ((∃ r, (objectlogWriteScatteredObject log list).Returns r ∧
          (objectlogWriteObject log list.flatten).Returns r) ↔
        2 ≤ log.ring.size ∨
          list.flatten.length + DIV_ROUND_UP list.flatten.length MAX_FRAGMENT_LEN + 1 < 65536) := by
  have hsame (r : Nat × Objectlog) := write_gather_iff hlen hlt hw hlist hne hfits (r := r)
  refine ⟨hsame, fun logEnd log₁ hwalk hevict => ?_⟩
  rw [← write_returns_of_ends hlen hlt hw hlist hne hfits hwalk hevict]
  exact exists_congr fun r => and_iff_left_of_imp (hsame r).mp

end

/-- Three parts, in a storage of bytes that are no log. -/
theorem write_gather_eight :
    ∃ r,
      (objectlogWriteScatteredObject
        ⟨⟨[5, 0x80, 0x80, 0x80, 0x80, 0x81, 7, 8], 0, 6, 8⟩, 1, 5, 9⟩
        [[1], [2, 3], [4]]).Returns r ∧
      (objectlogWriteObject ⟨⟨[5, 0x80, 0x80, 0x80, 0x80, 0x81, 7, 8], 0, 6, 8⟩, 1, 5, 9⟩
        [1, 2, 3, 4]).Returns r :=
  have hlist : IsScatterList [[1], [2, 3], [4]] := by simp [IsScatterList]
  ((write_gather rfl (by decide) (by decide) hlist (by simp) (by decide)).2 7 _ ⟨12, rfl⟩
    fun _ => ⟨_, 12, rfl⟩).mpr (.inl (by decide))

/-- In a ring of one cell the size of an object of 65023 bytes wraps to 0. -/
theorem write_gather_hangs :
    let log : Objectlog := ⟨⟨[0x80], 0, 0, 1⟩, 0, 0, 0⟩
    let list : List ScatterObject := [List.replicate 65022 0, [0]]
    list.flatten.length + DIV_ROUND_UP list.flatten.length MAX_FRAGMENT_LEN < 65536 ∧
      (∃ log₁ log₂, (getNextEntry log log.ptrLast).Returns (0, log₁) ∧
        (evict 0 0 log₁).Returns log₂) ∧
      (objectlogWriteScatteredObject log list).Diverges ∧
      (objectlogWriteObject log list.flatten).Diverges := by
  intro log list
  have hlength : list.flatten.length = 65023 := by
    simp only [list, List.flatten_cons, List.flatten_nil, List.append_nil, List.length_append,
      List.length_replicate, List.length_singleton]
  have hlist : IsScatterList list := by
    intro e he
    rcases List.mem_pair.mp he with rfl | rfl
    · rw [List.length_replicate]
      exact ⟨List.ne_nil_of_length_pos (by rw [List.length_replicate]; decide), by decide⟩
    · decide
  have hfits : list.flatten.length + DIV_ROUND_UP list.flatten.length MAX_FRAGMENT_LEN < 65536 := by
    rw [hlength]
    decide
  have hne : list ≠ [] := List.cons_ne_nil _ _
  have hwalk : (getNextEntry ⟨⟨[0x80], 0, 0, 1⟩, 0, 0, 0⟩ 0).Returns
    (0, ⟨⟨[0x80], 0, 0, 1⟩, 0, 0, 0⟩) := ⟨12, rfl⟩
  have hzero : reservedLen log.ring.size 0 list.flatten.length ≤ log.ring.size := by
    rw [hlength]
    decide
  have hhangs := write_single_diverges (by decide) hlist hne hfits rfl hwalk hzero
  refine ⟨hfits, ⟨log, log, hwalk, 12, rfl⟩, hhangs, fun r hret => hhangs r ?_⟩
  exact (write_gather_iff rfl (by decide) (by decide) hlist hne hfits).mpr hret

end FxIP
