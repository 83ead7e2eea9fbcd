import FxIP.Objectlog.Copy

/-!
# Reading a stored object

The reading protocol of `objectlog_get_fragment` and `objectlog_next`, and
what it gives on a stored object: the object, from inside the storage.
-/

namespace FxIP

def fragmentBytes (ring : Ringbuffer) (fragment : Nat × Nat) : List UInt8 :=
  (ring.buffer.drop fragment.1).take fragment.2

/-- Take the fragment at the iterator and go on to the next, if there is one. -/
def readRound (log : Objectlog) (s : Int × List (Nat × Nat)) :
    (Int × List (Nat × Nat)) ⊕ (List (Nat × Nat) × Int) :=
  match objectlogGetFragment log s.1 with
  | none => .inr (s.2, s.1)
  | some fragment =>
    let next := objectlogNext log s.1
    if next < 0 then .inr (s.2 ++ [fragment], next) else .inl (next, s.2 ++ [fragment])

/-- The fragments from `iterator` on, and the negative value the iteration
ended with. -/
def readFragments (log : Objectlog) (iterator : Int) : Comp (List (Nat × Nat) × Int) :=
  Comp.loop (fun s => pure (readRound log s)) (iterator, [])

/-- Reading from `iterator` until `-2` gives `data`, from inside the storage. -/
def ReadsBack (log : Objectlog) (iterator : Int) (data : List UInt8) : Prop :=
  ∃ fragments, (readFragments log iterator).Returns (fragments, -2) ∧
    fragments.flatMap (fragmentBytes log.ring) = data ∧
    ∀ f ∈ fragments, f.1 + f.2 ≤ log.ring.buffer.length

variable {log : Objectlog} {data frag : List UInt8} {p : Nat} {final : Bool}

theorem FragmentAt.getFragment (h : FragmentAt log.ring p frag final) :
    objectlogGetFragment log p = some (p + 1, frag.length) := by
  have := h.fits
  rw [objectlogGetFragment, if_neg (by omega), if_neg (by omega), Int.toNat_natCast, h.hdr_len]

theorem FragmentAt.next_last (h : FragmentAt log.ring p frag true) : objectlogNext log p = -2 := by
  have := h.fits
  have hfinal : ¬ (log.ring.cell p).toNat &&& FRAGMENT_FINAL = 0 := by simp [h.hdr_final]
  rw [objectlogNext, if_neg (by omega), if_neg (by omega), Int.toNat_natCast]
  simp only [if_neg hfinal]

theorem FragmentAt.next_more (h : FragmentAt log.ring p frag false) :
    objectlogNext log p = ((p + 1 + frag.length) % log.ring.size : Nat) := by
  have := h.fits
  have hfinal : (log.ring.cell p).toNat &&& FRAGMENT_FINAL = 0 := by simp [h.hdr_final]
  rw [objectlogNext, if_neg (by omega), if_neg (by omega), Int.toNat_natCast]
  simp only [if_pos hfinal, h.hdr_len]
  push_cast
  rfl

theorem StoredAt.readRounds (h : StoredAt log.ring p data)
    (hlen : log.ring.buffer.length = log.ring.size) (acc : List (Nat × Nat)) :
    ∃ fragments, (Comp.loop (fun s => pure (readRound log s)) ((p : Int), acc)).Returns
        (acc ++ fragments, -2) ∧
      fragments.flatMap (fragmentBytes log.ring) = data ∧
      ∀ f ∈ fragments, f.1 + f.2 ≤ log.ring.buffer.length := by
  induction h generalizing acc with
  | @last p frag hf =>
    have hfits := hf.fits
    refine ⟨[(p + 1, frag.length)], ?_, by simp [fragmentBytes, hf.data], ?_⟩
    · apply Comp.Returns.loop_exit
      simp [readRound, hf.getFragment, hf.next_last]
    · simp only [List.mem_singleton, forall_eq, hlen]
      omega
  | @more p frag rest hf _ _ ih =>
    have hfits := hf.fits
    obtain ⟨fragments, hret, hbytes, hin⟩ := ih (acc ++ [(p + 1, frag.length)])
    refine ⟨(p + 1, frag.length) :: fragments, ?_, ?_, ?_⟩
    · have hround : readRound log ((p : Int), acc) =
          .inl (((p + 1 + frag.length) % log.ring.size : Nat), acc ++ [(p + 1, frag.length)]) := by
        simp only [readRound, hf.getFragment, hf.next_more]
        rw [if_neg (by omega)]
      refine Comp.Returns.loop_again (Comp.returns_pure.mpr hround) ?_
      simpa [List.append_assoc] using hret
    · simp [fragmentBytes, hf.data, hbytes]
    · intro f hmem
      rcases List.mem_cons.mp hmem with rfl | hmem
      · simp only [hlen]
        omega
      · exact hin f hmem

theorem StoredAt.readsBack (h : StoredAt log.ring p data)
    (hlen : log.ring.buffer.length = log.ring.size) : ReadsBack log p data := by
  obtain ⟨fragments, hret, hbytes, hin⟩ := h.readRounds hlen []
  exact ⟨fragments, by simpa [readFragments] using hret, hbytes, hin⟩

theorem StoredAt.objectSize (h : StoredAt log.ring p data) (acc : Nat)
    (hlt : acc + data.length < 65536) :
    (Comp.loop (fun s => pure (objectSizeRound log s)) ((p : Int), acc)).Returns
      ((acc + data.length : Nat) : Int) := by
  induction h generalizing acc with
  | @last p frag hf =>
    have hu : u16 (acc + frag.length) = acc + frag.length := by unfold u16; omega
    have hround : objectSizeRound log ((p : Int), acc) = .inl (-2, acc + frag.length) := by
      simp only [objectSizeRound, ge_iff_le, Int.natCast_nonneg, ↓reduceIte, hf.getFragment,
        hf.next_last, hu]
    refine Comp.Returns.loop_again (Comp.returns_pure.mpr hround) (Comp.Returns.loop_exit ?_)
    simp [objectSizeRound]
  | @more p frag rest hf _ _ ih =>
    simp only [List.length_append] at hlt ⊢
    have hu : u16 (acc + frag.length) = acc + frag.length := by unfold u16; omega
    have hround : objectSizeRound log ((p : Int), acc) =
        .inl (((p + 1 + frag.length) % log.ring.size : Nat), acc + frag.length) := by
      simp only [objectSizeRound, ge_iff_le, Int.natCast_nonneg, ↓reduceIte, hf.getFragment,
        hf.next_more, hu]
    refine Comp.Returns.loop_again (Comp.returns_pure.mpr hround) ?_
    rw [← Nat.add_assoc]
    exact ih (acc + frag.length) (by omega)

end FxIP
