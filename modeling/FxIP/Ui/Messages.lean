import FxIP.Objectlog.Refinement
import FxIP.Ui

/-!
# Messages read back

A message comes back whole exactly if its first fragment holds the header. The
header loop reads that fragment again and again, so where the header is split
the data it returns is not the payload, and where the fragment is empty it
never returns.
-/

namespace FxIP

open Circular

structure UiMessage where
  hdr : MessageHdr
  payload : List UInt8

def UiMessage.object (m : UiMessage) : List UInt8 := m.hdr.bytes ++ m.payload

/-- The message with its header obeys the half-buffer bound. -/
def UiMessage.Bounded (m : UiMessage) : Prop := 2 * worstCaseLen m.object.length ≤ 2048

def UiStep (log : Objectlog) (m : UiMessage) (log' : Objectlog) : Prop :=
  (uiWriteLog log m.hdr m.payload).Returns log'

/-- `ui_objectlog_get_message` at offset 0 returns with the header of the
message, and its fragment and the ones after it make up the payload. -/
def GetsMessage (log : Objectlog) (objectIdx : Int) (m : UiMessage) : Prop :=
  ∀ hdr, hdr.length = SIZEOF_MESSAGE_HDR → ∃ ptr len iter log' fragments,
    (uiObjectlogGetMessage log objectIdx 0 hdr).Returns
      (⟨m.hdr.bytes, some (ptr, len, iter)⟩, log') ∧
    ptr + len ≤ log'.ring.buffer.length ∧
    (readFragments log' (objectlogNext log' iter)).Returns (fragments, -2) ∧
    fragmentBytes log'.ring (ptr, len) ++ fragments.flatMap (fragmentBytes log'.ring) = m.payload

variable {S : Nat} {objs written : List (List UInt8)} {log log' : Objectlog} {m : UiMessage}
variable {data frag rest : List UInt8} {list : List ScatterObject} {p : Nat} {final : Bool}

-- ---------------------------------------------------------------------------
-- Writing a message
-- ---------------------------------------------------------------------------

theorem scatterLen_append_nil (n : Nat) : scatterLen n (list ++ [[]]) = scatterLen n list := by
  induction list generalizing n with
  | nil => simp [scatterLen]
  | cons e es ih => simp only [List.cons_append, scatterLen, ih]

theorem copyScattered_append_nil {dataLen : Nat}
    (h : (copyScattered log list dataLen).Returns log') :
    (copyScattered log (list ++ [[]]) dataLen).Returns log' := by
  have hhead : ∀ l : List ScatterObject, (l ++ [[]]).headD [] = l.headD [] := by
    intro l
    cases l <;> rfl
  refine h.loop_simulation (fun s t => t = { s with scList := s.scList ++ [[]] }) ?_ ?_
    (by simp only [hhead])
  · rintro s _ s' rfl hround
    refine ⟨_, ?_, rfl⟩
    rw [Comp.returns_pure] at hround ⊢
    obtain ⟨hlen, -⟩ := copyRound_inl hround
    obtain ⟨e, es, hsc⟩ : ∃ e es, s.scList = e :: es := by
      refine List.exists_cons_of_ne_nil fun hnil => hlen ?_
      rw [hnil]
      rfl
    rw [copyRound, if_neg hlen] at hround
    obtain rfl := Sum.inl.inj hround
    rw [copyRound, if_neg (by rwa [hhead])]
    simp only [hhead, hsc, List.cons_append, List.tail_cons, List.headD_cons]
    congr 2
    exact (apply_ite (· ++ [[]]) _ es (e :: es)).symm
  · rintro s _ r rfl hround
    rw [Comp.returns_pure] at hround ⊢
    obtain ⟨hlen, rfl⟩ := copyRound_inr.mp hround
    exact copyRound_inr.mpr ⟨by rwa [hhead], rfl⟩

theorem write_append_nil {r : Nat × Objectlog}
    (h : (objectlogWriteScatteredObject log list).Returns r) :
    (objectlogWriteScatteredObject log (list ++ [[]])).Returns r := by
  unfold objectlogWriteScatteredObject at h ⊢
  obtain ⟨⟨logEnd, log₁⟩, hwalk, h⟩ := Comp.returns_bind.mp h
  refine Comp.returns_bind.mpr ⟨_, hwalk, ?_⟩
  simp only [scatterLen_append_nil] at h ⊢
  split at h
  · next hrej => rwa [if_pos hrej]
  · next hrej =>
    rw [if_neg hrej]
    obtain ⟨log₂, hevict, h⟩ := Comp.returns_bind.mp h
    obtain ⟨log₃, hcopy, h⟩ := Comp.returns_bind.mp h
    exact Comp.returns_bind.mpr ⟨_, hevict, Comp.returns_bind.mpr
      ⟨_, copyScattered_append_nil hcopy, h⟩⟩

theorem uiWriteLog_spec (h : Stores 2048 log objs)
    (hobjs : ∀ obj ∈ objs, 2 * worstCaseLen obj.length ≤ 2048) (hm : m.Bounded) :
    (uiWriteLog log m.hdr m.payload).Ensures (Written 2048 log objs m.object) := by
  have hwrite : (objectlogWriteScatteredObject log [m.hdr.bytes, m.payload]).Ensures fun r =>
      Written 2048 log objs m.object r.2 := by
    by_cases hnil : m.payload = []
    · have hflat : [m.hdr.bytes].flatten = m.object := by simp [UiMessage.object, hnil]
      obtain ⟨r, hret, -, hw⟩ := h.write_half [m.hdr.bytes] (by decide) hobjs
        (by simp [MessageHdr.bytes]) (by simp) (by rw [hflat]; exact hm)
      rw [hflat] at hw
      exact (hnil ▸ write_append_nil hret).ensures hw
    · have hflat : [m.hdr.bytes, m.payload].flatten = m.object := by simp [UiMessage.object]
      obtain ⟨r, hret, -, hw⟩ := h.write_half [m.hdr.bytes, m.payload] (by decide) hobjs
        (by simp [MessageHdr.bytes, hnil]) (by simp) (by rw [hflat]; exact hm)
      rw [hflat] at hw
      exact hret.ensures hw
  rw [uiWriteLog, Comp.ensures_bind]
  exact hwrite.mono fun r hw => Comp.ensures_pure.mpr hw

-- ---------------------------------------------------------------------------
-- Reading a message
-- ---------------------------------------------------------------------------

theorem FragmentAt.bytes (h : FragmentAt log.ring p frag final) {a n : Nat}
    (hn : a + n ≤ frag.length) :
    fragmentBytes log.ring (p + 1 + a, n) = (frag.drop a).take n := by
  conv => rhs; rw [← h.data]
  rw [List.drop_take, List.drop_drop, List.take_take, Nat.min_eq_left (by omega)]
  rfl

theorem messageHdr_whole {hdr : List UInt8} (h : FragmentAt log.ring p frag final)
    (hfrag : SIZEOF_MESSAGE_HDR ≤ frag.length) (hhdr : hdr.length = SIZEOF_MESSAGE_HDR) :
    (Comp.loop (fun s => pure (messageHdrRound log p s))
      { hdr, bytesRead := 0, ptr := 0, length := 0 }).Returns
      { hdr := frag.take SIZEOF_MESSAGE_HDR, bytesRead := SIZEOF_MESSAGE_HDR, ptr := p + 1,
        length := frag.length } := by
  apply Comp.Returns.loop_exit
  rw [Comp.returns_pure]
  have hcpy : u8 (min (SIZEOF_MESSAGE_HDR - 0) frag.length : Nat) = SIZEOF_MESSAGE_HDR := by
    rw [Nat.sub_zero, Nat.min_eq_left hfrag]
    rfl
  have hbytes := h.bytes (a := 0) (n := SIZEOF_MESSAGE_HDR) (by omega)
  rw [Nat.add_zero, List.drop_zero] at hbytes
  have hall : overwrite hdr 0 (frag.take SIZEOF_MESSAGE_HDR) = frag.take SIZEOF_MESSAGE_HDR := by
    have htake := take_overwrite_zero hdr (frag.take SIZEOF_MESSAGE_HDR)
      (hhdr ▸ List.length_take_le ..)
    rwa [List.length_take_of_le hfrag, List.take_of_length_le (by simp [hhdr])] at htake
  simp only [messageHdrRound, h.getFragment, Option.getD_some, hcpy, hbytes, hall]
  rfl

theorem messageOffset_zero {s : OffsetState} (h : s.offset = 0) :
    (Comp.loop (fun s => pure (messageOffsetRound log s)) s).Returns (some s) :=
  .loop_exit (by rw [messageOffsetRound, if_pos h, Comp.returns_pure])

theorem uiObjectlogGetMessage_iter {k : Int} {hdr hdr' : List UInt8} {ptr len : Nat} {iter : Int}
    {log'' : Objectlog} (hit : (objectlogIterator log k).Returns ((p : Nat), log'))
    (h : (uiObjectlogGetMessage log k 0 hdr).Returns (⟨hdr', some (ptr, len, iter)⟩, log'')) :
    iter = p ∧ log'' = log' := by
  rw [uiObjectlogGetMessage, hit.bind_iff] at h
  simp only at h
  rw [if_neg (by omega)] at h
  obtain ⟨s, -, h⟩ := Comp.returns_bind.mp h
  rw [(messageOffset_zero rfl).bind_iff, Comp.returns_pure] at h
  simp only [Option.map_some, Prod.mk.injEq, MessageResult.mk.injEq, Option.some.injEq] at h
  exact ⟨h.1.2.2.2.symm, h.2.symm⟩

theorem GetsMessage.of_fragment {k : Int} {fragments : List (Nat × Nat)}
    (hit : (objectlogIterator log k).Returns ((p : Nat), log'))
    (h : FragmentAt log'.ring p frag final)
    (hlen : log'.ring.buffer.length = log'.ring.size) (hfrag : SIZEOF_MESSAGE_HDR ≤ frag.length)
    (hobj : m.object = frag ++ rest)
    (hread : (readFragments log' (objectlogNext log' p)).Returns (fragments, -2))
    (hrest : fragments.flatMap (fragmentBytes log'.ring) = rest) : GetsMessage log k m := by
  intro hdr hhdr
  have hfits := h.fits
  have hle := h.len_le
  have hsub : u8 ((frag.length : Nat) - (SIZEOF_MESSAGE_HDR : Nat)) =
      frag.length - SIZEOF_MESSAGE_HDR := by
    unfold u8 SIZEOF_MESSAGE_HDR MAX_FRAGMENT_LEN at *
    omega
  have htake : frag.take SIZEOF_MESSAGE_HDR = m.hdr.bytes := by
    have := congrArg (List.take SIZEOF_MESSAGE_HDR) hobj
    rw [List.take_append_of_le_length hfrag] at this
    exact this.symm
  have hdrop : frag.drop SIZEOF_MESSAGE_HDR ++ rest = m.payload := by
    have := congrArg (List.drop SIZEOF_MESSAGE_HDR) hobj
    rw [List.drop_append_of_le_length hfrag] at this
    exact this.symm
  refine ⟨p + 1 + SIZEOF_MESSAGE_HDR, frag.length - SIZEOF_MESSAGE_HDR, p, log', fragments,
    ?_, by omega, hread, ?_⟩
  · rw [uiObjectlogGetMessage, hit.bind_iff]
    simp only
    rw [if_neg (by omega), (messageHdr_whole h hfrag hhdr).bind_iff, htake]
    rw [(messageOffset_zero rfl).bind_iff, Comp.returns_pure, hsub]
    rfl
  · rw [h.bytes (by omega), List.take_of_length_le (by simp), hrest, hdrop]

theorem StoredAt.getsMessage_iff {k : Int} (h : StoredAt log'.ring p m.object)
    (hit : (objectlogIterator log k).Returns ((p : Nat), log')) (hsize : log'.ring.size = 2048)
    (hlen : log'.ring.buffer.length = log'.ring.size) : GetsMessage log k m ↔ p ≤ 2044 := by
  have hobjlen : m.object.length = m.payload.length + 3 := by
    simp [UiMessage.object, MessageHdr.bytes]
  have hlt := h.lt
  generalize hobj : m.object = data at h
  cases h with
  | last hf =>
    have hfits := hf.fits
    have hfrag : SIZEOF_MESSAGE_HDR ≤ data.length := by
      rw [← hobj, hobjlen]
      exact Nat.le_add_left ..
    refine iff_of_true ?_ (by unfold SIZEOF_MESSAGE_HDR at hfrag; omega)
    have hread : (readFragments log' (objectlogNext log' p)).Returns ([], -2) := by
      rw [hf.next_last]
      exact .loop_exit (Comp.returns_pure.mpr rfl)
    exact .of_fragment hit hf hlen hfrag (hobj.trans (List.append_nil _).symm) hread rfl
  | @more _ frag rest hf hfull hrest =>
    obtain ⟨fragments, hread, hbytes, -⟩ := hrest.readsBack hlen
    have hnext := hf.next_more
    have hroom : frag.length = min MAX_FRAGMENT_LEN (2048 - p - 1) := by
      rw [hfull, fragmentRoom, hsize, Nat.mod_eq_of_lt (hsize ▸ hlt)]
    constructor
    · intro hget
      by_contra hgt
      obtain ⟨ptr, len, iter, log'', fragments', hret, -, hread', hall⟩ := hget [0, 0, 0] rfl
      obtain ⟨rfl, rfl⟩ := uiObjectlogGetMessage_iter hit hret
      rw [hnext] at hread'
      obtain ⟨rfl, -⟩ := Prod.mk.inj (hread.unique hread')
      have htotal := congrArg List.length hall
      have hsum := congrArg List.length hobj
      rw [hbytes, List.length_append] at htotal
      rw [hobjlen, List.length_append] at hsum
      omega
    · intro hle
      exact .of_fragment hit hf hlen (by unfold SIZEOF_MESSAGE_HDR MAX_FRAGMENT_LEN at *; omega)
        hobj
        (by rw [hnext]; exact hread) hbytes

-- ---------------------------------------------------------------------------
-- Runs
-- ---------------------------------------------------------------------------

theorem run_ui_simulates {ms : List UiMessage} (hrun : Run UiStep uiInit ms log)
    (hms : ∀ m ∈ ms, m.Bounded) : ∃ objs, Simulates 2048 log (ms.map UiMessage.object) objs := by
  induction hrun with
  | nil => exact ⟨[], keeps_init 2048, by simp⟩
  | @snoc ms t m u _ hstep ih =>
    obtain ⟨objs, hsim⟩ := ih fun m hm => hms m (by simp [hm])
    have hm := hms m (by simp)
    have hw := (uiWriteLog_spec hsim.stores hsim.half hm).of_returns hstep
    obtain ⟨objs', hsim'⟩ := hsim.append hm hw
    exact ⟨objs', by simpa using hsim'⟩

theorem Simulates.message {ms : List UiMessage}
    (h : Simulates 2048 log (ms.map UiMessage.object) objs)
    {k : Nat} (hk : k < log.numEntries) :
    ∃ (m : UiMessage) (p : Nat) (log' : Objectlog), ms[ms.length - log.numEntries + k]? = some m ∧
      (objectlogIterator log k).Returns (p, log') ∧ (GetsMessage log k m ↔ p ≤ 2044) := by
  have hcount := h.stores.count
  have hcount_lt := h.stores.count_lt
  have hk' : k < objs.length := hcount ▸ hk
  obtain ⟨p, r, hret, hstored⟩ := h.stores.iterator_some (by unfold IsInt; omega)
    (resolveIdx_natCast hk') (List.getElem?_eq_getElem hk')
  -- the object is the one of the message
  have hsuffix := List.suffix_iff_eq_drop.mp h.suffix
  have hobj := List.getElem?_eq_getElem hk'
  conv at hobj => lhs; rw [hsuffix]
  rw [List.getElem?_drop, List.length_map, ← hcount, List.getElem?_map] at hobj
  obtain ⟨m, hm, hmobj⟩ := Option.map_eq_some_iff.mp hobj
  have hlog := h.stores.withReadPtr r
  exact ⟨m, p, _, hm, hret, (hmobj ▸ hstored.withReadPtr r).getsMessage_iff hret hlog.size
    hlog.storage⟩

/-- In every run of `ui_write_log`, a retained message comes back whole exactly
if it starts at a cell that leaves room for the header. -/
theorem ui_message_iff {ms : List UiMessage} (hrun : Run UiStep uiInit ms log)
    (hms : ∀ m ∈ ms, m.Bounded) :
    (∀ m : UiMessage, m.Bounded → ∃ log', UiStep log m log') ∧
      ∀ k < log.numEntries, ∃ (m : UiMessage) (p : Nat) (log' : Objectlog),
        ms[ms.length - log.numEntries + k]? = some m ∧
        (objectlogIterator log k).Returns (p, log') ∧ (GetsMessage log k m ↔ p ≤ 2044) := by
  obtain ⟨objs, hsim⟩ := run_ui_simulates hrun hms
  refine ⟨fun m hm => ?_, fun k hk => hsim.message hk⟩
  obtain ⟨log', hret, -⟩ := uiWriteLog_spec hsim.stores hsim.half hm
  exact ⟨log', hret⟩

theorem UiStep.inside (h : Simulates 2048 log written objs) (hm : m.Bounded)
    (hin : log.ring.writePtr + (m.object.length + DIV_ROUND_UP m.object.length MAX_FRAGMENT_LEN) ≤
      2048) :
    ∃ log' objs', UiStep log m log' ∧ Simulates 2048 log' (written ++ [m.object]) objs' ∧
      log'.ring.writePtr =
        (log.ring.writePtr + (m.object.length + DIV_ROUND_UP m.object.length MAX_FRAGMENT_LEN)) %
          2048 := by
  obtain ⟨log', hret, hw⟩ := uiWriteLog_spec h.stores h.half hm
  obtain ⟨objs', hsim⟩ := h.append hm hw
  obtain ⟨dropped, kept, -, hstores, hlast, -⟩ := hw
  refine ⟨log', objs', hret, hsim, ?_⟩
  rw [← hlast] at hin ⊢
  exact hstores.writePtr_inside hin

/-- The message written is the last of the log and starts where it was written. -/
theorem UiStep.newest (h : Simulates 2048 log written objs) (hm : m.Bounded) :
    ∃ log' k log'', UiStep log m log' ∧ k + 1 = log'.numEntries ∧
      (objectlogIterator log' k).Returns (log.ring.writePtr, log'') ∧
      ChainAt log''.ring log.ring.writePtr m.object ∧ log''.ring.size = 2048 ∧
      log''.ring.buffer.length = log''.ring.size := by
  obtain ⟨log', hret, hw⟩ := uiWriteLog_spec h.stores h.half hm
  obtain ⟨dropped, kept, -, hstores, hptr, -⟩ := hw
  obtain ⟨r, hit, hchain⟩ := hstores.iterator_last
  have hlog := hstores.withReadPtr r
  rw [hptr] at hit hchain
  exact ⟨log', kept.length, _,
    hret, by simp [hstores.count], hit, hchain.withReadPtr r, hlog.size, hlog.storage⟩

theorem UiStep.split (h : Simulates 2048 log written objs) (hm : m.Bounded)
    (hlast : log.ring.writePtr = 2047) :
    ∃ log' k, UiStep log m log' ∧ k + 1 = log'.numEntries ∧ ¬ GetsMessage log' k m := by
  obtain ⟨log', k, log'', hret, hk, hit, hchain, hsize, hlen⟩ := UiStep.newest h hm
  refine ⟨log', k, hret, hk, fun hget => ?_⟩
  have hle := (hchain.storedAt.getsMessage_iff hit hsize hlen).mp hget
  omega

def filler (n : Nat) : UiMessage := ⟨⟨3, 0, 0⟩, List.replicate n 65⟩

theorem length_filler (n : Nat) : (filler n).object.length = n + 3 := by
  simp [filler, UiMessage.object, MessageHdr.bytes]

theorem filler_bounded {n : Nat} (h : 2 * worstCaseLen (n + 3) ≤ 2048) : (filler n).Bounded := by
  rwa [UiMessage.Bounded, length_filler]

def messageHi : UiMessage := ⟨⟨3, 0, 0⟩, [72, 105]⟩

theorem messageHi_bounded : messageHi.Bounded := by
  unfold UiMessage.Bounded
  decide

theorem fillers_bounded : ∀ m ∈ [filler 1011, filler 1010], m.Bounded := by
  simp only [List.forall_mem_cons]
  exact ⟨filler_bounded (by decide), filler_bounded (by decide), fun m hm => (nomatch hm)⟩

/-- Two messages of half the log end five cells before the end of the storage. -/
theorem run_fillers : ∃ log objs, Run UiStep uiInit [filler 1011, filler 1010] log ∧
    Simulates 2048 log ([filler 1011, filler 1010].map UiMessage.object) objs ∧
      log.ring.writePtr = 2043 := by
  obtain ⟨log₁, _, hstep₁, hsim₁, hw₁⟩ :=
    UiStep.inside ⟨keeps_init 2048, by simp⟩ (filler_bounded (n := 1011) (by decide))
      (by rw [length_filler]; decide)
  rw [length_filler] at hw₁
  obtain ⟨log₂, objs, hstep₂, hsim₂, hw₂⟩ :=
    UiStep.inside hsim₁ (filler_bounded (n := 1010) (by decide))
      (by rw [length_filler, hw₁]; decide)
  rw [length_filler, hw₁] at hw₂
  exact ⟨log₂, objs, (Run.nil.snoc hstep₁).snoc hstep₂, hsim₂, hw₂⟩

/-- The third message goes on in cell 0, and comes back whole. -/
theorem ui_message_iff_wrap :
    ∃ log k, Run UiStep uiInit [filler 1011, filler 1010, messageHi] log ∧ k + 1 = log.numEntries ∧
      (∃ log', (objectlogIterator log k).Returns (2043, log')) ∧ GetsMessage log k messageHi := by
  obtain ⟨log₂, objs, hrun₂, hsim, hw⟩ := run_fillers
  obtain ⟨log, k, log', hstep, hk, hit, -⟩ := UiStep.newest hsim messageHi_bounded
  rw [hw] at hit
  have hrun : Run UiStep uiInit [filler 1011, filler 1010, messageHi] log := hrun₂.snoc hstep
  have hbounded : ∀ m ∈ [filler 1011, filler 1010, messageHi], m.Bounded :=
    List.forall_mem_append.mpr ⟨fillers_bounded, List.forall_mem_singleton.mpr messageHi_bounded⟩
  obtain ⟨-, hiff⟩ := ui_message_iff hrun hbounded
  obtain ⟨m, p, log'', hm, hit', hget⟩ := hiff k (by omega)
  have hp : p = 2043 := by
    have hsame := (Prod.mk.inj (hit'.unique hit)).1
    omega
  have hindex : 3 - log.numEntries + k = 2 := by
    have hlt : 3 - log.numEntries + k < 3 := (List.getElem?_eq_some_iff.mp hm).1
    omega
  obtain rfl : messageHi = m := by
    rw [show [filler 1011, filler 1010, messageHi].length = 3 from rfl, hindex] at hm
    exact Option.some.inj hm
  exact ⟨log, k, hrun, hk, ⟨log', hit⟩, hget.mpr (by omega)⟩

/-- With an empty message behind the two, the next one starts in the last cell. -/
theorem ui_message_split :
    ∃ ms log k, Run UiStep uiInit (ms ++ [⟨⟨3, 0, 0⟩, [72, 105]⟩]) log ∧
      (∀ m ∈ ms ++ [⟨⟨3, 0, 0⟩, [72, 105]⟩], UiMessage.Bounded m) ∧ k + 1 = log.numEntries ∧
      ¬ GetsMessage log k ⟨⟨3, 0, 0⟩, [72, 105]⟩ := by
  obtain ⟨log₂, _, hrun₂, hsim₂, hw₂⟩ := run_fillers
  have hempty : (filler 0).Bounded := filler_bounded (by decide)
  obtain ⟨log₃, _, hstep₃, hsim₃, hw₃⟩ :=
    UiStep.inside hsim₂ hempty (by rw [length_filler, hw₂]; decide)
  rw [length_filler, hw₂] at hw₃
  obtain ⟨log₄, k, hstep₄, hk, hbad⟩ := UiStep.split hsim₃ messageHi_bounded hw₃
  refine ⟨_, log₄, k, (hrun₂.snoc hstep₃).snoc hstep₄, ?_, hk, hbad⟩
  rw [List.forall_mem_append, List.forall_mem_append, List.forall_mem_singleton,
    List.forall_mem_singleton]
  exact ⟨⟨fillers_bounded, hempty⟩, messageHi_bounded⟩

end FxIP
