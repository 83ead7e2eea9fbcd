import FxIP.Ui.Retained

/-!
# Scrolling a message

The loop over `offset` in `ui_objectlog_get_message` takes a next fragment in
cell 0 for the end of the message. `skippable` is how far the loop comes before
it has to go there; up to that the rest of a message is what scrolling shows.
-/

namespace FxIP

open Circular

variable {log log' : Objectlog} {m : UiMessage} {data frag rest : List UInt8}
variable {S a p o : Nat} {k : Int} {final : Bool}

/-- The offset, counted from cell `p` on, from which the loop needs a fragment
behind the end of the storage: the data bytes up to there, and one more if the
last cell holds an empty fragment, which is still found. -/
def skippable (S p : Nat) : Nat :=
  S - p - DIV_ROUND_UP (S - p) (MAX_FRAGMENT_LEN + 1) +
    if (S - p) % (MAX_FRAGMENT_LEN + 1) = 1 then 1 else 0

theorem fragmentRoom_le_skippable (hp : p < S) :
    fragmentRoom S p ≤ skippable S p := by
  unfold skippable fragmentRoom DIV_ROUND_UP MAX_FRAGMENT_LEN
  rw [Nat.mod_eq_of_lt hp]
  split <;> omega

theorem skippable_last (hp : p < S)
    (hend : p + 1 + fragmentRoom S p = S) :
    skippable S p = max 1 (fragmentRoom S p) := by
  unfold skippable fragmentRoom DIV_ROUND_UP MAX_FRAGMENT_LEN at *
  rw [Nat.mod_eq_of_lt hp] at *
  split <;> omega

theorem skippable_full (hp : p < S)
    (hend : p + 1 + fragmentRoom S p < S) :
    fragmentRoom S p = MAX_FRAGMENT_LEN ∧
      skippable S p =
        MAX_FRAGMENT_LEN + skippable S (p + 1 + MAX_FRAGMENT_LEN) ∧
      0 < skippable S (p + 1 + MAX_FRAGMENT_LEN) := by
  have hroom : fragmentRoom S p = MAX_FRAGMENT_LEN := by
    unfold fragmentRoom at *
    rw [Nat.mod_eq_of_lt hp] at *
    omega
  rw [hroom] at hend
  refine ⟨hroom, ?_, ?_⟩
  · unfold skippable DIV_ROUND_UP MAX_FRAGMENT_LEN at *
    have hmod : (S - p) % (127 + 1) = (S - (p + 1 + 127)) % (127 + 1) := by omega
    rw [hmod]
    split <;> omega
  · unfold skippable DIV_ROUND_UP MAX_FRAGMENT_LEN at *
    split <;> omega

-- ---------------------------------------------------------------------------
-- The loop over the offset
-- ---------------------------------------------------------------------------

/-- The loop over `offset` in the fragment of `len` bytes at cell `p`, after
`a` of them. -/
def skipFrom (log : Objectlog) (p len a o : Nat) : Comp (Option OffsetState) :=
  Comp.loop (fun s => pure (messageOffsetRound log s))
    { iter := p, ptr := p + 1 + a, length := len - a, offset := o }

/-- The state found is the reader's position before the bytes `data`. -/
def ShowsRest (log : Objectlog) (data : List UInt8) (s : OffsetState) : Prop :=
  s.ptr + s.length ≤ log.ring.buffer.length ∧
    ∃ fragments, (readFragments log (objectlogNext log s.iter)).Returns (fragments, -2) ∧
      fragmentBytes log.ring (s.ptr, s.length) ++ fragments.flatMap (fragmentBytes log.ring) = data

/-- What is read from the iterator on is in the storage. -/
def InStorage (log : Objectlog) (iter : Int) : Prop :=
  ∀ fragments n, (readFragments log iter).Returns (fragments, n) →
    ∀ f ∈ fragments, f.1 + f.2 ≤ log.ring.buffer.length

theorem readFragments_end (log : Objectlog) : (readFragments log (-2)).Returns ([], -2) :=
  .loop_exit (Comp.returns_pure.mpr rfl)

theorem inStorage_end (log : Objectlog) : InStorage log (-2) := by
  intro fragments n hread
  obtain ⟨rfl, -⟩ := Prod.mk.inj ((readFragments_end log).unique hread)
  exact fun _ hf => absurd hf List.not_mem_nil

theorem ReadsBack.inStorage {iter : Int} (h : ReadsBack log iter data) : InStorage log iter := by
  obtain ⟨fragments, hread, -, hin⟩ := h
  intro fragments' n hread'
  obtain ⟨rfl, -⟩ := Prod.mk.inj (hread.unique hread')
  exact hin

section
variable {len len' q : Nat} {found : Option OffsetState}

theorem skipFrom_inside (hin : o = 0 ∨ a + o < len) :
    (skipFrom log p len a o).Returns
      (some { iter := p, ptr := p + 1 + (a + o), length := len - (a + o), offset := 0 }) := by
  by_cases ho : o = 0
  · subst ho
    exact messageOffset_zero rfl
  · have hlt := hin.resolve_left ho
    have hround :
        messageOffsetRound log { iter := p, ptr := p + 1 + a, length := len - a, offset := o } =
          .inl { iter := p, ptr := p + 1 + (a + o), length := len - (a + o), offset := 0 } := by
      rw [messageOffsetRound, if_neg ho]
      simp only [show len - a > o by omega, ↓reduceIte, Nat.sub_self]
      rw [if_neg (by omega)]
      simp only [Nat.add_assoc, Nat.sub_sub]
    exact .loop_again (Comp.returns_pure.mpr hround) (messageOffset_zero rfl)

section
variable (hpos : 0 < o) (hpast : len ≤ a + o)
include hpos hpast

theorem skipFrom_end (hnext : objectlogNext log p ≤ 0) : (skipFrom log p len a o).Returns none := by
  have hround :
      messageOffsetRound log { iter := p, ptr := p + 1 + a, length := len - a, offset := o } =
        .inr none := by
    rw [messageOffsetRound, if_neg (Nat.ne_of_gt hpos)]
    simp only [show ¬ len - a > o by omega, ↓reduceIte, Nat.sub_self, hnext]
  exact .loop_exit (Comp.returns_pure.mpr hround)

theorem skipFrom_next (hnext : objectlogNext log p = (q : Nat)) (hq : 0 < q)
    (hget : objectlogGetFragment log q = some (q + 1, len'))
    (h : (skipFrom log q len' 0 (o - (len - a))).Returns found) : (skipFrom log p len a o).Returns
      found := by
  have hround :
      messageOffsetRound log { iter := p, ptr := p + 1 + a, length := len - a, offset := o } =
        .inl { iter := q, ptr := q + 1, length := len', offset := o - (len - a) } := by
    rw [messageOffsetRound, if_neg (Nat.ne_of_gt hpos)]
    simp only [show ¬ len - a > o by omega, ↓reduceIte, Nat.sub_self, hnext]
    rw [if_neg (by omega), hget]
    rfl
  exact .loop_again (Comp.returns_pure.mpr hround) h

end

theorem StoredAt.getFragment (h : StoredAt log.ring p data) :
    objectlogGetFragment log p = some (p + 1, FRAGMENT_LEN (log.ring.cell p).toNat) := by
  cases h with
  | last hf => rw [hf.getFragment, hf.hdr_len]
  | more hf _ _ => rw [hf.getFragment, hf.hdr_len]

theorem ChainAt.skipFrom (h : ChainAt log.ring p data) (hne : data ≠ [])
    (hlen : log.ring.buffer.length = log.ring.size)
    (ha : a ≤ FRAGMENT_LEN (log.ring.cell p).toNat) (o : Nat) :
    ∃ found, (skipFrom log p (FRAGMENT_LEN (log.ring.cell p).toNat) a o).Returns found ∧
      ((o ≠ 0 ∧ (data.length ≤ a + o ∨ skippable log.ring.size p ≤ a + o) ∧ found = none) ∨
        ((o = 0 ∨ a + o < data.length ∧ a + o < skippable log.ring.size p) ∧
          ∃ s, found = some s ∧ ShowsRest log (data.drop (a + o)) s ∧
            InStorage log (objectlogNext log s.iter))) := by
  induction h generalizing a o with
  | @last p frag hf =>
    rw [hf.hdr_len] at ha ⊢
    have hfits := hf.fits
    by_cases hpast : o ≠ 0 ∧ frag.length ≤ a + o
    · refine ⟨none, skipFrom_end (Nat.pos_of_ne_zero hpast.1) hpast.2 ?_,
        .inl ⟨hpast.1, .inl hpast.2, rfl⟩⟩
      rw [hf.next_last]
      decide
    · have hin : o = 0 ∨ a + o < frag.length := by omega
      have hroom : frag.length ≤ fragmentRoom log.ring.size p := by
        have hle := hf.len_le
        rw [fragmentRoom, Nat.mod_eq_of_lt (by omega)]
        omega
      have hskip := fragmentRoom_le_skippable (show p < log.ring.size by omega)
      refine ⟨_, skipFrom_inside hin, .inr ⟨by omega, _, rfl, ⟨?_, [], ?_, ?_⟩, ?_⟩⟩
      · simp only
        omega
      · rw [hf.next_last]
        exact readFragments_end log
      · simp only [List.flatMap_nil, List.append_nil]
        rw [hf.bytes (by omega), List.take_of_length_le (by simp)]
      · rw [hf.next_last]
        exact inStorage_end log
  | @more p frag rest hf hfull hrest_ne hrest ih =>
    rw [hf.hdr_len] at ha ⊢
    have hfits := hf.fits
    have hnext := hf.next_more
    have hrest_pos := List.length_pos_iff.mpr hrest_ne
    by_cases hpast : o ≠ 0 ∧ frag.length ≤ a + o
    · have hpos := Nat.pos_of_ne_zero hpast.1
      by_cases hend : p + 1 + frag.length = log.ring.size
      · -- the next fragment is in cell 0
        have hlast := skippable_last (show p < log.ring.size by omega) (hfull ▸ hend)
        rw [hend, Nat.mod_self] at hnext
        refine ⟨none, skipFrom_end hpos hpast.2 (by rw [hnext]; decide),
          .inl ⟨hpast.1, .inr ?_, rfl⟩⟩
        omega
      · obtain ⟨hroom, hskip, hskip_pos⟩ :=
          skippable_full (show p < log.ring.size by omega) (by rw [← hfull]; omega)
        rw [← hfull] at hroom
        rw [Nat.mod_eq_of_lt (by omega)] at hnext ih hrest
        rw [← hroom] at hskip hskip_pos
        obtain ⟨found, hret, hfound⟩ := ih hrest_ne (Nat.zero_le _) (o - (frag.length - a))
        refine ⟨found, skipFrom_next hpos hpast.2 hnext (by omega) hrest.storedAt.getFragment hret,
          ?_⟩
        rw [show 0 + (o - (frag.length - a)) = a + o - frag.length by omega] at hfound
        rw [List.drop_append, List.drop_eq_nil_of_le hpast.2, List.nil_append, List.length_append]
        rcases hfound with ⟨ho, hmore, rfl⟩ | ⟨hmore, hshows⟩
        · exact .inl ⟨hpast.1, by omega, rfl⟩
        · exact .inr ⟨by omega, hshows⟩
    · have hin : o = 0 ∨ a + o < frag.length := by omega
      have hskip := fragmentRoom_le_skippable (show p < log.ring.size by omega)
      have hback := hrest.storedAt.readsBack hlen
      have hstorage := hback.inStorage
      obtain ⟨fragments, hread, hbytes, -⟩ := hback
      refine ⟨_, skipFrom_inside hin, .inr ⟨?_, _, rfl, ⟨?_, fragments, ?_, ?_⟩, ?_⟩⟩
      · rw [List.length_append]
        omega
      · simp only
        omega
      · rwa [hnext]
      · simp only
        rw [hf.bytes (by omega), List.take_of_length_le (by simp), hbytes,
          List.drop_append_of_le_length (by omega)]
      · rwa [hnext]

end

-- ---------------------------------------------------------------------------
-- Messages
-- ---------------------------------------------------------------------------

/-- `ui_objectlog_get_message` at offset `o` returns the place from which the
fragments make up the payload behind `o` bytes, and NULL if there are none. -/
def ScrollsTo (log : Objectlog) (k : Int) (o : Nat) (m : UiMessage) : Prop :=
  ∀ hdr, hdr.length = SIZEOF_MESSAGE_HDR →
    (o < m.payload.length → ∃ ptr len iter log' fragments,
      (uiObjectlogGetMessage log k o hdr).Returns (⟨m.hdr.bytes, some (ptr, len, iter)⟩, log') ∧
      ptr + len ≤ log'.ring.buffer.length ∧
      (readFragments log' (objectlogNext log' iter)).Returns (fragments, -2) ∧
      fragmentBytes log'.ring (ptr, len) ++ fragments.flatMap (fragmentBytes log'.ring) =
        m.payload.drop o) ∧
    (0 < o → m.payload.length ≤ o →
      ∃ log', (uiObjectlogGetMessage log k o hdr).Returns (⟨m.hdr.bytes, none⟩, log'))

theorem uiObjectlogGetMessage_skip {hdr : List UInt8} {len : Nat} {found : Option OffsetState}
    (hit : (objectlogIterator log k).Returns ((p : Nat), log'))
    (hhdr : hdr.length = SIZEOF_MESSAGE_HDR)
    (hf : FragmentAt log'.ring p frag final) (hfrag : SIZEOF_MESSAGE_HDR ≤ frag.length)
    (hlen : frag.length = len) (hskip : (skipFrom log' p len SIZEOF_MESSAGE_HDR o).Returns found) :
    (uiObjectlogGetMessage log k o hdr).Returns
      (⟨frag.take SIZEOF_MESSAGE_HDR, found.map fun s => (s.ptr, s.length, s.iter)⟩, log') := by
  have hle := hf.len_le
  have hsub : u8 ((frag.length : Nat) - (SIZEOF_MESSAGE_HDR : Nat)) = len - SIZEOF_MESSAGE_HDR := by
    unfold u8 SIZEOF_MESSAGE_HDR MAX_FRAGMENT_LEN at *
    omega
  rw [uiObjectlogGetMessage, hit.bind_iff]
  simp only
  rw [if_neg (by omega), (messageHdr_whole hf hfrag hhdr).bind_iff, hsub]
  exact hskip.bind_pure rfl

theorem ChainAt.header (h : ChainAt log.ring p m.object) (hsize : log.ring.size = 2048)
    (hp : p ≤ 2044) :
    ∃ frag final, FragmentAt log.ring p frag final ∧ SIZEOF_MESSAGE_HDR ≤ frag.length ∧
      frag.take SIZEOF_MESSAGE_HDR = m.hdr.bytes := by
  have hlen := m.object_length
  generalize hobj : m.object = data at h
  cases h with
  | last hf =>
    refine ⟨data, true, hf, by rw [← hobj, hlen]; exact Nat.le_add_left .., ?_⟩
    rw [← hobj]
    rfl
  | @more _ frag rest hf hfull _ _ =>
    have hfrag : SIZEOF_MESSAGE_HDR ≤ frag.length := by
      rw [hfull, hsize]
      unfold fragmentRoom SIZEOF_MESSAGE_HDR MAX_FRAGMENT_LEN
      omega
    refine ⟨frag, false, hf, hfrag, ?_⟩
    have htake := congrArg (List.take SIZEOF_MESSAGE_HDR) hobj
    rw [List.take_append_of_le_length hfrag] at htake
    exact htake.symm

/-- What is found of a message behind `o` bytes, whatever the index that leads
to it and the read pointer. -/
theorem ChainAt.found (h : ChainAt log.ring p m.object) (hsize : log.ring.size = 2048)
    (hlen : log.ring.buffer.length = log.ring.size) (hp : p ≤ 2044) (o : Nat) :
    ∃ found : Option OffsetState,
      (∀ log₀ r k hdr, (objectlogIterator log₀ k).Returns ((p : Nat), log.withReadPtr r) →
        hdr.length = SIZEOF_MESSAGE_HDR →
        (uiObjectlogGetMessage log₀ k o hdr).Returns
          (⟨m.hdr.bytes, found.map fun s => (s.ptr, s.length, s.iter)⟩, log.withReadPtr r)) ∧
      ((o ≠ 0 ∧ (m.payload.length ≤ o ∨ skippable 2048 p ≤ SIZEOF_MESSAGE_HDR + o) ∧ found = none) ∨
        ((o = 0 ∨ o < m.payload.length ∧ SIZEOF_MESSAGE_HDR + o < skippable 2048 p) ∧
          ∃ s, found = some s ∧ ShowsRest log (m.payload.drop o) s ∧
            InStorage log (objectlogNext log s.iter))) := by
  obtain ⟨frag, final, hf, hfrag, htake⟩ := h.header hsize hp
  have hobj := m.object_length
  have hne : m.object ≠ [] := List.ne_nil_of_length_pos (by rw [hobj]; exact Nat.succ_pos _)
  have hheader : SIZEOF_MESSAGE_HDR ≤ FRAGMENT_LEN (log.ring.cell p).toNat := by rwa [hf.hdr_len]
  obtain ⟨found, hskip, hfound⟩ := h.skipFrom hne hlen hheader o
  have hdrop : m.object.drop (SIZEOF_MESSAGE_HDR + o) = m.payload.drop o := by
    rw [← List.drop_drop]
    rfl
  rw [hdrop, hsize, hobj] at hfound
  refine ⟨found, fun log₀ r k hdr hit hhdr => ?_, ?_⟩
  · have hf' : FragmentAt (log.withReadPtr r).ring p frag final :=
      ⟨hf.len_le, hf.fits, hf.hdr, hf.data⟩
    exact htake ▸ uiObjectlogGetMessage_skip hit hhdr hf' hfrag hf.hdr_len.symm hskip
  · rcases hfound with ⟨ho, hpast, hnone⟩ | ⟨hin, hshows⟩
    · exact .inl ⟨ho, by omega, hnone⟩
    · exact .inr ⟨by omega, hshows⟩

theorem ChainAt.scrollsTo_iff (h : ChainAt log'.ring p m.object)
    (hit : (objectlogIterator log k).Returns ((p : Nat), log')) (hsize : log'.ring.size = 2048)
    (hlen : log'.ring.buffer.length = log'.ring.size) (hp : p ≤ 2044) (o : Nat) :
    ScrollsTo log k o m ↔
      ¬ (0 < o ∧ o < m.payload.length ∧ skippable 2048 p ≤ o + SIZEOF_MESSAGE_HDR) := by
  obtain ⟨found, hfind, hfound⟩ := h.found hsize hlen hp o
  have hget : ∀ hdr : List UInt8, hdr.length = SIZEOF_MESSAGE_HDR →
      (uiObjectlogGetMessage log k o hdr).Returns
        (⟨m.hdr.bytes, found.map fun s => (s.ptr, s.length, s.iter)⟩, log') :=
    fun hdr => hfind log log'.ring.readPtr k hdr hit
  rcases hfound with ⟨ho, hpast, rfl⟩ | ⟨hin, s, rfl, ⟨hin_ring, fragments, hread, hbytes⟩, -⟩
  · constructor
    · rintro hscrolls ⟨-, hinside, -⟩
      obtain ⟨_, _, _, _, _, hret, -⟩ := (hscrolls [0, 0, 0] rfl).1 hinside
      simpa using (hget [0, 0, 0] rfl).unique hret
    · intro hno hdr hhdr
      exact ⟨fun hinside => by omega, fun _ _ => ⟨log', hget hdr hhdr⟩⟩
  · refine iff_of_true (fun hdr hhdr => ⟨fun _ => ?_, fun _ hpast => by omega⟩) (by omega)
    exact ⟨s.ptr, s.length, s.iter, log', fragments, hget hdr hhdr, hin_ring, hread, hbytes⟩

/-- The retained messages of a run whose writes have room scroll like those of
any log: exactly unless the fragment in cell 0 is needed. -/
theorem scroll_iff {ms : List UiMessage}
    (hrun : Run (Run.Guarded (fun log m => m.HasRoom log) UiStep) uiInit ms log) :
    (∃ kept, Retaining log kept ∧ kept.Sublist ms ∧ ∀ k i m, IsInt k →
      resolveIdx kept.length k = some i → kept[i]? = some m →
        ∃ p log', (objectlogIterator log k).Returns ((p : Nat), log') ∧
          ChainAt log'.ring p m.object ∧
          log'.ring.size = 2048 ∧ log'.ring.buffer.length = log'.ring.size) ∧
      ∀ log k (p : Nat) log' (m : UiMessage), (objectlogIterator log k).Returns (p, log') →
        ChainAt log'.ring p m.object → log'.ring.size = 2048 →
          log'.ring.buffer.length = log'.ring.size →
        p ≤ 2044 → ∀ o, ScrollsTo log k o m ↔
          ¬ (0 < o ∧ o < m.payload.length ∧ skippable 2048 p ≤ o + SIZEOF_MESSAGE_HDR) := by
  obtain ⟨kept, hkept, hsub⟩ := run_retaining hrun
  refine ⟨⟨kept, hkept, hsub, fun k i m hint hidx hm => hkept.message hint hidx hm⟩, ?_⟩
  intro log k p log' m hit hchain hsize hlen hp o
  exact hchain.scrollsTo_iff hit hsize hlen hp o

/-- A message of two bytes, of which the first is before the end of the storage and
the second in cell 1. -/
theorem wrapped_hi : ∃ log k log', Run UiStep uiInit
    ([filler 1011, filler 1010] ++ [⟨⟨3, 0, 0⟩, [72, 105]⟩]) log ∧
    k + 1 = log.numEntries ∧ (objectlogIterator log (k : Nat)).Returns ((2043 : Nat), log') ∧
    ChainAt log'.ring 2043 messageHi.object ∧ log'.ring.size = 2048 ∧
      log'.ring.buffer.length = log'.ring.size := by
  obtain ⟨log₂, _, hrun, hsim, hw⟩ := run_fillers
  obtain ⟨log, k, log', hstep, hk, hit, hchain, hsize, hlen⟩ := UiStep.newest hsim messageHi_bounded
  rw [hw] at hit hchain
  exact ⟨log, k, log', hrun.snoc hstep, hk, hit, hchain, hsize, hlen⟩

/-- The message as the first one of a log, and across the end of the storage, where
it scrolls to every offset but 1. -/
theorem scroll_iff_wrap :
    (∃ log kept, Run (Run.Guarded (fun log m => m.HasRoom log) UiStep) uiInit [messageHi] log ∧
      Retaining log kept ∧ kept.Sublist [messageHi]) ∧
    ∃ log k, Run UiStep uiInit ([filler 1011, filler 1010] ++ [⟨⟨3, 0, 0⟩, [72, 105]⟩]) log ∧
      k + 1 = log.numEntries ∧ ∀ o, ScrollsTo log (k : Nat) o messageHi ↔ o ≠ 1 := by
  have hroom : messageHi.HasRoom uiInit :=
    ⟨by decide, by decide, .inr ⟨by decide, by decide, .inl rfl⟩⟩
  have hempty : Retaining uiInit [] := (keeps_init 2048).stores
  obtain ⟨first, -, hstep, -⟩ := hempty.write hroom
  have hfirst : Run (Run.Guarded (fun log m => m.HasRoom log) UiStep) uiInit [messageHi] first :=
    Run.nil.snoc ⟨hroom, hstep⟩
  obtain ⟨⟨kept, hkept, hsub, -⟩, hiff⟩ := scroll_iff hfirst
  refine ⟨⟨first, kept, hfirst, hkept, hsub⟩, ?_⟩
  obtain ⟨log, k, log', hrun, hk, hit, hchain, hsize, hlen⟩ := wrapped_hi
  refine ⟨log, k, hrun, hk, fun o => (hiff log k 2043 log' messageHi hit hchain hsize hlen
    (by decide) o).trans ?_⟩
  rw [show messageHi.payload.length = 2 from rfl, show skippable 2048 2043 = 4 by decide,
    show SIZEOF_MESSAGE_HDR = 3 from rfl]
  omega

/-- Scrolled by one byte, it is not shown at all. -/
theorem scroll_misses_wrap :
    ∃ ms log k, Run UiStep uiInit (ms ++ [⟨⟨3, 0, 0⟩, [72, 105]⟩]) log ∧ k + 1 = log.numEntries ∧
      (∃ log', (objectlogIterator log (k : Nat)).Returns (2043, log')) ∧
      ¬ ScrollsTo log (k : Nat) 1 ⟨⟨3, 0, 0⟩, [72, 105]⟩ := by
  obtain ⟨log, k, log', hrun, hk, hit, hchain, hsize, hlen⟩ := wrapped_hi
  refine ⟨_, log, k, hrun, hk, ⟨log', hit⟩, fun hscrolls => ?_⟩
  exact (hchain.scrollsTo_iff hit hsize hlen (by decide) 1).mp hscrolls (by decide)

end FxIP
