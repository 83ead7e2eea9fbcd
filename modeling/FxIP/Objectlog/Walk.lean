import FxIP.Objectlog.Layout

/-!
# Walking over stored objects

`StoredAt ring p data` is what a reader finds: a chain of fragments from cell
`p` on. An encoded object that is still in the window is stored at the cell of
its position, and the entry walk goes from there to the cell after it.
-/

namespace FxIP

open Circular

def Objectlog.withReadPtr (log : Objectlog) (p : Nat) : Objectlog :=
  { log with ring := { log.ring with readPtr := p } }

section
variable (log : Objectlog) (p q : Nat)
@[simp] theorem withReadPtr_withReadPtr :
    (log.withReadPtr p).withReadPtr q = log.withReadPtr q := rfl
@[simp] theorem withReadPtr_readPtr : (log.withReadPtr p).ring.readPtr = p := rfl
@[simp] theorem withReadPtr_buffer : (log.withReadPtr p).ring.buffer = log.ring.buffer := rfl
@[simp] theorem withReadPtr_size : (log.withReadPtr p).ring.size = log.ring.size := rfl
@[simp] theorem withReadPtr_writePtr : (log.withReadPtr p).ring.writePtr = log.ring.writePtr := rfl
@[simp] theorem withReadPtr_ptrFirst : (log.withReadPtr p).ptrFirst = log.ptrFirst := rfl
@[simp] theorem withReadPtr_ptrLast : (log.withReadPtr p).ptrLast = log.ptrLast := rfl
@[simp] theorem withReadPtr_numEntries : (log.withReadPtr p).numEntries = log.numEntries := rfl
@[simp] theorem withReadPtr_self : log.withReadPtr log.ring.readPtr = log := rfl
end

theorem Follows.withReadPtr {log : Objectlog} {tape : List UInt8} (h : Follows log.ring tape)
    (p : Nat) :
    Follows (log.withReadPtr p).ring tape := ⟨h.length, h.pos, h.lt, h.write, h.holds⟩

-- ---------------------------------------------------------------------------
-- Stored fragments
-- ---------------------------------------------------------------------------

structure FragmentAt (ring : Ringbuffer) (p : Nat) (frag : List UInt8) (final : Bool) : Prop where
  len_le : frag.length ≤ MAX_FRAGMENT_LEN
  fits : p + 1 + frag.length ≤ ring.size
  hdr : ring.cell p = fragmentHdr frag.length final
  data : (ring.buffer.drop (p + 1)).take frag.length = frag

/-- Every fragment but the last is as long as its place allows. -/
inductive StoredAt (ring : Ringbuffer) : Nat → List UInt8 → Prop
  | last {p frag} : FragmentAt ring p frag true → StoredAt ring p frag
  | more {p frag rest} : FragmentAt ring p frag false → frag.length = fragmentRoom ring.size p →
      StoredAt ring ((p + 1 + frag.length) % ring.size) rest → StoredAt ring p (frag ++ rest)

/-- As an object is encoded: what follows a fragment is not empty. -/
inductive ChainAt (ring : Ringbuffer) : Nat → List UInt8 → Prop
  | last {p frag} : FragmentAt ring p frag true → ChainAt ring p frag
  | more {p frag rest} : FragmentAt ring p frag false → frag.length = fragmentRoom ring.size p →
      rest ≠ [] → ChainAt ring ((p + 1 + frag.length) % ring.size) rest →
        ChainAt ring p (frag ++ rest)

variable {ring : Ringbuffer} {tape pre post data enc frag : List UInt8} {log : Objectlog}

theorem FragmentAt.hdr_len {p : Nat} {final : Bool} (h : FragmentAt ring p frag final) :
    FRAGMENT_LEN (ring.cell p).toNat = frag.length := by
  rw [h.hdr, fragmentLen_hdr h.len_le]

theorem FragmentAt.hdr_final {p : Nat} {final : Bool} (h : FragmentAt ring p frag final) :
    (ring.cell p).toNat &&& FRAGMENT_FINAL = 0 ↔ final = false := by
  rw [h.hdr, fragmentFinal_hdr h.len_le]

theorem Follows.fragmentAt (h : Follows ring tape) (final : Bool) (pre frag post : List UInt8)
    (htape : tape = pre ++ (fragmentHdr frag.length final :: frag) ++ post)
    (hwin : tape.length ≤ pre.length + ring.size)
    (hroom : frag.length ≤ fragmentRoom ring.size pre.length) :
    FragmentAt ring (pre.length % ring.size) frag final := by
  have hfits := fragmentRoom_fits (w := pre.length) h.pos
  have hlen : tape.length = pre.length + (1 + frag.length) + post.length := by
    simp only [htape, List.length_append, List.length_cons]
    omega
  have hslice := h.holds.slice (a := pre.length) (k := 1 + frag.length) (by omega)
    (by rw [h.length]; exact hwin) (by rw [h.length]; omega)
  have htail : (tape.drop pre.length).take (1 + frag.length) =
      fragmentHdr frag.length final :: frag := by
    rw [htape, List.append_assoc, List.drop_left]
    exact List.take_left' (by simp; omega)
  rw [h.length, htail] at hslice
  refine ⟨Nat.le_trans hroom fragmentRoom_le, by omega, ?_, ?_⟩
  · have h0 := congrArg (·[0]?) hslice
    simp only [List.getElem?_take, List.getElem?_drop, List.getElem?_cons_zero,
      if_pos (show 0 < 1 + frag.length by omega), Nat.add_zero] at h0
    simp only [Ringbuffer.cell, List.getD_eq_getElem?_getD, h0, Option.getD_some]
  · have h1 := congrArg (List.drop 1) hslice
    rw [List.drop_take, List.drop_drop] at h1
    simpa [Nat.add_comm 1] using h1

theorem ChainAt.storedAt {p : Nat} (h : ChainAt ring p data) : StoredAt ring p data := by
  induction h with
  | last hf => exact .last hf
  | more hf hfull _ _ ih => exact .more hf hfull ih

theorem Follows.chainAt (h : Follows ring tape) (henc : Encodes ring.size pre.length data enc)
    (htape : tape = pre ++ enc ++ post) (hwin : tape.length ≤ pre.length + ring.size) :
    ChainAt ring (pre.length % ring.size) data := by
  generalize hw : pre.length = w at henc
  induction henc generalizing pre with
  | @last w data hfit =>
    subst hw
    exact .last (h.fragmentAt true pre data post htape hwin hfit)
  | @more w data rest hlt _ ih =>
    subst hw
    have hne : data.drop (fragmentRoom ring.size pre.length) ≠ [] := by simpa using hlt
    have htake : (data.take (fragmentRoom ring.size pre.length)).length =
        fragmentRoom ring.size pre.length := List.length_take_of_le (by omega)
    have hfrag :=
      h.fragmentAt false pre (data.take (fragmentRoom ring.size pre.length)) (rest ++ post)
      (by rw [htake, htape]; simp) hwin (Nat.le_of_eq htake)
    have htape' : tape = (pre ++ fragmentHdr (fragmentRoom ring.size pre.length) false ::
        data.take (fragmentRoom ring.size pre.length)) ++ rest ++ post := by
      rw [htape]
      simp
    have hrest := ih htape'
      (by simp only [List.length_append, List.length_cons, htake]; omega)
      (by simp only [List.length_append, List.length_cons, htake]; omega)
    have hcell : (pre.length + 1 + fragmentRoom ring.size pre.length) % ring.size =
        (pre.length % ring.size + 1 + fragmentRoom ring.size pre.length) % ring.size := by
      simp only [Nat.add_assoc, Nat.mod_add_mod]
    have hmore := ChainAt.more hfrag (by rw [htake, fragmentRoom_mod]) hne
      (by rw [htake, ← hcell]; exact hrest)
    rwa [List.take_append_drop] at hmore

theorem StoredAt.withReadPtr {p : Nat} (h : StoredAt log.ring p data) (r : Nat) :
    StoredAt (log.withReadPtr r).ring p data := by
  induction h with
  | last hf => exact .last ⟨hf.len_le, hf.fits, hf.hdr, hf.data⟩
  | more hf hfull _ ih => exact .more ⟨hf.len_le, hf.fits, hf.hdr, hf.data⟩ hfull ih

theorem ChainAt.withReadPtr {p : Nat} (h : ChainAt log.ring p data) (r : Nat) :
    ChainAt (log.withReadPtr r).ring p data := by
  induction h with
  | last hf => exact .last ⟨hf.len_le, hf.fits, hf.hdr, hf.data⟩
  | more hf hfull hne _ ih => exact .more ⟨hf.len_le, hf.fits, hf.hdr, hf.data⟩ hfull hne ih

theorem StoredAt.lt {p : Nat} (h : StoredAt ring p data) : p < ring.size := by
  cases h with
  | last hf => have := hf.fits; omega
  | more hf _ _ => have := hf.fits; omega

-- ---------------------------------------------------------------------------
-- The entry walk
-- ---------------------------------------------------------------------------

theorem FragmentAt.advance {b : Nat} {final : Bool} (hlt : log.ring.size < 65536)
    (hf : FragmentAt log.ring (b % log.ring.size) frag final) :
    ringbufferAdvanceRead (ringbufferReadOne (log.withReadPtr (b % log.ring.size)).ring).2
      frag.length =
      (log.withReadPtr ((b + 1 + frag.length) % log.ring.size)).ring := by
  have hfits := hf.fits
  have hone : (u16 ((b % log.ring.size : Nat) + 1) : Nat) = b % log.ring.size + 1 := by
    unfold u16
    omega
  have hnext : (b + 1 + frag.length) % log.ring.size =
      (b % log.ring.size + 1 + frag.length) % log.ring.size := by
    simp only [Nat.add_assoc, Nat.mod_add_mod]
  have hmid : u16 (((b % log.ring.size + 1) % log.ring.size : Nat) + (frag.length : Nat)) %
    log.ring.size =
      (b + 1 + frag.length) % log.ring.size := by
    rw [hnext]
    rcases Nat.lt_or_ge (b % log.ring.size + 1) log.ring.size with hlt1 | hge
    · rw [Nat.mod_eq_of_lt hlt1]
      congr 1
      unfold u16
      omega
    · have h0 : frag.length = 0 := by omega
      rw [h0, show b % log.ring.size + 1 = log.ring.size by omega]
      simp [u16]
  rw [ringbufferAdvanceRead, if_neg (by simp only [readOne_size, withReadPtr_size]; omega)]
  simp only [ringbufferReadOne, withReadPtr_readPtr, withReadPtr_size, hone, hmid]
  rfl

/-- One round over the fragment at position `b`, in a walk from position `a`.
The walk stops by itself exactly when it has come once around. -/
theorem getNextEntryRound_fragment (h : Follows log.ring tape) {a b : Nat} {final : Bool}
    (hf : FragmentAt log.ring (b % log.ring.size) frag final) (hab : a ≤ b)
    (hlap : b + 1 + frag.length ≤ a + log.ring.size) :
    getNextEntryRound (a % log.ring.size) (log.withReadPtr (b % log.ring.size)) =
      let next := (b + 1 + frag.length) % log.ring.size
      if a < b ∧ b + 1 + frag.length = a + log.ring.size then .inr
        (log.ptrFirst, log.withReadPtr next)
      else if final then .inr (next, log.withReadPtr next)
      else .inl (log.withReadPtr next) := by
  have hhdr : (ringbufferReadOne (log.withReadPtr (b % log.ring.size)).ring).1 =
      log.ring.cell (b % log.ring.size) := rfl
  have hcross := crosses_iff h.pos hab (Nat.succ_pos frag.length) (by omega)
  rw [show b + (frag.length + 1) = b + 1 + frag.length by omega] at hcross
  unfold getNextEntryRound
  simp only [hhdr, hf.hdr_len, hf.advance h.lt, hf.hdr_final, withReadPtr_readPtr]
  rw [if_congr hcross rfl rfl]
  cases final <;> rfl

/-- The rest of a walk that started at position `a`, from a position inside
the entry to the cell after it. -/
theorem walk_entry (h : Follows log.ring tape)
    (henc : Encodes log.ring.size pre.length data enc) (htape : tape = pre ++ enc ++ post)
    (hwin : tape.length ≤ pre.length + log.ring.size) {a : Nat} (ha : a ≤ pre.length)
    (hlap : pre.length + enc.length ≤ a + log.ring.size)
    (hfull : pre.length + enc.length = a + log.ring.size → log.ptrFirst = a % log.ring.size) :
    (Comp.loop (fun log' => pure (getNextEntryRound (a % log.ring.size) log'))
      (log.withReadPtr (pre.length % log.ring.size))).Returns
      ((pre.length + enc.length) % log.ring.size,
        log.withReadPtr ((pre.length + enc.length) % log.ring.size)) := by
  generalize hw : pre.length = w at henc
  induction henc generalizing pre with
  | @last w data hfit =>
    subst hw
    have hround := getNextEntryRound_fragment h (h.fragmentAt true pre data post htape hwin hfit) ha
      (by simp only [List.length_cons] at hlap; omega)
    apply Comp.Returns.loop_exit
    rw [hround, Comp.returns_pure, List.length_cons]
    simp only [↓reduceIte, Nat.add_assoc, Nat.add_comm 1 data.length]
    split
    · next hend =>
      have hfirst := hfull (by simpa using hend.2)
      rw [hend.2, Nat.add_mod_right, hfirst]
    · rfl
  | @more w data rest hlt hrest ih =>
    subst hw
    have htake : (data.take (fragmentRoom log.ring.size pre.length)).length =
        fragmentRoom log.ring.size pre.length := List.length_take_of_le (by omega)
    have hpos := hrest.length_pos
    have hlen : pre.length + (fragmentHdr (fragmentRoom log.ring.size pre.length) false ::
        (data.take (fragmentRoom log.ring.size pre.length) ++ rest)).length =
        pre.length + 1 + fragmentRoom log.ring.size pre.length + rest.length := by
      simp only [List.length_cons, List.length_append, htake]
      omega
    rw [hlen] at hlap hfull ⊢
    have hf := h.fragmentAt false pre (data.take (fragmentRoom log.ring.size pre.length))
      (rest ++ post)
      (by rw [htake, htape]; simp) hwin (Nat.le_of_eq htake)
    have hround := getNextEntryRound_fragment h hf ha (by omega)
    rw [htake] at hround
    refine Comp.Returns.loop_again (t := log.withReadPtr
      ((pre.length + 1 + fragmentRoom log.ring.size pre.length) % log.ring.size)) ?_ ?_
    · rw [hround, Comp.returns_pure]
      simp only [Bool.false_eq_true, ↓reduceIte, ite_eq_right_iff, reduceCtorEq, imp_false]
      omega
    · have hpre : (pre ++ fragmentHdr (fragmentRoom log.ring.size pre.length) false ::
          data.take (fragmentRoom log.ring.size pre.length)).length =
          pre.length + 1 + fragmentRoom log.ring.size pre.length := by
        simp only [List.length_append, List.length_cons, htake]
        omega
      exact ih (by rw [htape]; simp) (by omega) (by omega) (by rw [hpre]; exact hlap)
        (by rw [hpre]; exact hfull) hpre

/-- The walk over an entry in the window ends at the cell after it. An entry
that fills the ring is the only one, so `ptrFirst` is that cell too. -/
theorem getNextEntry_entry (h : Follows log.ring tape)
    (henc : Encodes log.ring.size pre.length data enc) (htape : tape = pre ++ enc ++ post)
    (hwin : tape.length ≤ pre.length + log.ring.size)
    (hfull : enc.length = log.ring.size → log.ptrFirst = pre.length % log.ring.size) :
    (getNextEntry log (pre.length % log.ring.size)).Returns
      ((pre.length + enc.length) % log.ring.size,
        log.withReadPtr ((pre.length + enc.length) % log.ring.size)) := by
  have hlen := congrArg List.length htape
  simp only [List.length_append] at hlen
  exact walk_entry h henc htape hwin (Nat.le_refl _) (by omega) fun he => hfull (by omega)

end FxIP
