import FxIP.Objectlog.Eviction
import FxIP.Ui.Messages

/-!
# The messages a log retains

A run of `ui_write_log` whose writes have room keeps some of the messages
written, in their order. Every index of the log stands for one of them, and
its object is a chain of fragments from some cell on.
-/

namespace FxIP

variable {log log' : Objectlog} {m : UiMessage} {kept ms : List UiMessage}

/-- The scatter list of the message, up to its terminating entry. -/
def UiMessage.scatterList (m : UiMessage) : List ScatterObject :=
  if m.payload = [] then [m.hdr.bytes] else [m.hdr.bytes, m.payload]

/-- The message is one that `ui_write_log` can be given, and has room. -/
def UiMessage.HasRoom (log : Objectlog) (m : UiMessage) : Prop :=
  m.payload.length < 65536 ∧ FxIP.HasRoom log m.scatterList

/-- The log retains exactly the messages, oldest first. -/
def Retaining (log : Objectlog) (ms : List UiMessage) : Prop :=
  Stores 2048 log (ms.map UiMessage.object)

theorem UiMessage.object_length (m : UiMessage) :
    m.object.length = m.payload.length + SIZEOF_MESSAGE_HDR := by
  simp [object, MessageHdr.bytes, SIZEOF_MESSAGE_HDR]

theorem UiMessage.flatten_scatterList (m : UiMessage) : m.scatterList.flatten = m.object := by
  unfold scatterList object
  split
  · next hnil => simp [hnil]
  · simp

theorem UiMessage.scatterList_ne (m : UiMessage) : m.scatterList ≠ [] := by
  unfold scatterList
  split <;> simp

theorem UiMessage.isScatterList (hlen : m.payload.length < 65536) :
    IsScatterList m.scatterList := by
  unfold scatterList
  split
  · simp [IsScatterList, MessageHdr.bytes]
  · next hne => simp [IsScatterList, MessageHdr.bytes, hne, hlen]

theorem uiWriteLog_returns {r : Nat × Objectlog}
    (h : (objectlogWriteScatteredObject log m.scatterList).Returns r) :
    (uiWriteLog log m.hdr m.payload).Returns r.2 := by
  have hlist : (objectlogWriteScatteredObject log [m.hdr.bytes, m.payload]).Returns r := by
    unfold UiMessage.scatterList at h
    split at h
    · next hnil =>
      have hterminated := write_append_nil h
      rw [List.singleton_append] at hterminated
      rwa [hnil]
    · exact h
  exact hlist.bind_pure rfl

theorem Retaining.store (h : Retaining log kept) (hlen : m.payload.length < 65536)
    (hfits : encodedLen 2048 log.ring.writePtr m.scatterList.flatten.length ≤ 2048)
    (hbeside : kept = [] ∨ FitsBesideNewest log m.scatterList.flatten.length) :
    ∃ log' dropped rest, UiStep log m log' ∧ kept = dropped ++ rest ∧ (kept ≠ [] → rest ≠ []) ∧
      Retaining log' (rest ++ [m]) := by
  obtain ⟨⟨status, log'⟩, hret, -, dropped, rest, hobjs, hstores, -, hnewest, -⟩ :=
    Stores.write h (by decide) (by decide) (UiMessage.isScatterList hlen) m.scatterList_ne hfits
      (hbeside.imp_left (congrArg (List.map UiMessage.object)))
  obtain ⟨dropped', rest', hkept, rfl, rfl⟩ := List.map_eq_append_iff.mp hobjs
  refine ⟨log', dropped', rest', uiWriteLog_returns hret, hkept, by simpa using hnewest, ?_⟩
  rw [m.flatten_scatterList] at hstores
  simpa [Retaining] using hstores

theorem Retaining.store_second (h : Retaining log kept) (hone : kept.length ≤ 1)
    (hlen : m.payload.length < 65536)
    (hfits : encodedLen 2048 log.ring.writePtr m.scatterList.flatten.length ≤ 2048)
    (hbeside : kept = [] ∨ FitsBesideNewest log m.scatterList.flatten.length)
    (hstep : UiStep log m log') :
    Retaining log' (kept ++ [m]) := by
  obtain ⟨log'', dropped, rest, hstep', rfl, hnewest, hretain⟩ := h.store hlen hfits hbeside
  obtain rfl := hstep'.unique hstep
  cases dropped with
  | nil => exact hretain
  | cons d dropped =>
    have hpos := List.length_pos_iff.mpr (hnewest (by simp))
    simp only [List.cons_append, List.length_cons, List.length_append] at hone
    omega

theorem Retaining.write (h : Retaining log kept) (hroom : m.HasRoom log) :
    ∃ log' kept', UiStep log m log' ∧ Retaining log' kept' ∧
      (kept' = kept ∨ ∃ dropped rest, kept = dropped ++ rest ∧ kept' = rest ++ [m]) := by
  obtain ⟨hlen, -, hroom⟩ := hroom
  by_cases hrej : IsRejected log m.scatterList
  · obtain ⟨r, status, -, hret⟩ := Stores.rejected_step h (by decide) (by decide) hrej
    exact ⟨_, kept, uiWriteLog_returns hret, Stores.withReadPtr h r, .inl rfl⟩
  · obtain ⟨-, hfits, hbeside⟩ := hroom.resolve_left hrej
    rw [Stores.size h] at hfits
    have hempty : log.numEntries = 0 → kept = [] := fun hcount =>
      List.map_eq_nil_iff.mp ((Stores.count_eq_zero h).mp hcount)
    obtain ⟨log', dropped, rest, hstep, hkept, -, hretain⟩ :=
      h.store hlen hfits (hbeside.imp_left hempty)
    exact ⟨log', rest ++ [m], hstep, hretain, .inr ⟨dropped, rest, hkept, rfl⟩⟩

theorem run_retaining
    (hrun : Run (Run.Guarded (fun log m => m.HasRoom log) UiStep) uiInit ms log) :
    ∃ kept, Retaining log kept ∧ kept.Sublist ms := by
  induction hrun with
  | nil => exact ⟨[], (keeps_init 2048).stores, .refl _⟩
  | @snoc ms t m u _ hstep ih =>
    obtain ⟨kept, hkept, hsub⟩ := ih
    obtain ⟨log', kept', hstep', hkept', hcase⟩ := hkept.write hstep.1
    obtain rfl := hstep'.unique hstep.2
    obtain rfl | ⟨dropped, rest, rfl, rfl⟩ := hcase
    · exact ⟨kept', hkept', hsub.trans (List.sublist_append_left ..)⟩
    · exact ⟨_, hkept', ((List.sublist_append_right ..).trans hsub).append (.refl _)⟩

theorem Retaining.numEntries (h : Retaining log kept) : log.numEntries = kept.length := by
  rw [Stores.count h, List.length_map]

theorem Retaining.message (h : Retaining log kept) {k : Int} (hint : IsInt k) {i : Nat}
    (hidx : resolveIdx kept.length k = some i) (hm : kept[i]? = some m) :
    ∃ p log', (objectlogIterator log k).Returns ((p : Nat), log') ∧ ChainAt log'.ring p m.object ∧
      log'.ring.size = 2048 ∧ log'.ring.buffer.length = log'.ring.size := by
  have hobj : (kept.map UiMessage.object)[i]? = some m.object := by rw [List.getElem?_map, hm]; rfl
  obtain ⟨p, r, hret, hchain⟩ := Stores.iterator_chain h hint (by rwa [List.length_map]) hobj
  have hlog := Stores.withReadPtr h r
  exact ⟨p, _, hret, hchain.withReadPtr r, hlog.size, hlog.storage⟩

end FxIP
