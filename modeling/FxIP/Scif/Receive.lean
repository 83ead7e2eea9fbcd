import FxIP.Scif

/-!
# The receive path

The interrupt may lap the reader any number of times. A read returns the
newest byte whose position in the stream is that of the read pointer's cell,
and the next position is past it; so positions only grow. If the reader keeps
up there is only one such position, the next one.
-/

namespace FxIP

open Circular

variable {ring : Ringbuffer} {tape : List UInt8} {s t : ScifSystem} {e : ScifEvent}
variable {next : Nat} {positions : List Nat}

-- ---------------------------------------------------------------------------
-- The receive part of the interrupt
-- ---------------------------------------------------------------------------

theorem Follows.receive (h : Follows ring tape) (bytes : List UInt8) :
    Follows (bytes.foldl ringbufferWriteOne ring) (tape ++ bytes) := by
  induction bytes generalizing ring tape with
  | nil => simpa using h
  | cons b bytes ih => simpa using ih (h.writeOne b)

@[simp] theorem receive_readPtr (ring : Ringbuffer) (bytes : List UInt8) :
    (bytes.foldl ringbufferWriteOne ring).readPtr = ring.readPtr := by
  induction bytes generalizing ring with
  | nil => rfl
  | cons b bytes ih => exact ih _

@[simp] theorem receive_size (ring : Ringbuffer) (bytes : List UInt8) :
    (bytes.foldl ringbufferWriteOne ring).size = ring.size := by
  induction bytes generalizing ring with
  | nil => rfl
  | cons b bytes ih => exact ih _

-- ---------------------------------------------------------------------------
-- Positions only grow
-- ---------------------------------------------------------------------------

/-- The ring is the window over what was received, and the read pointer is the
cell of `next`, a position past those of the bytes returned. -/
structure RxOk (s : ScifSystem) (next : Nat) (positions : List Nat) : Prop where
  follows : Follows s.scif.rxRing s.received
  size : s.scif.rxRing.size = RING_BUF_SIZE
  next_le : next ≤ s.received.length
  readPtr : s.scif.rxRing.readPtr = next % RING_BUF_SIZE
  found : s.reader = .found → next < s.received.length
  returned : s.returned.map some = positions.map (s.received[·]?)
  below : ∀ p ∈ positions, p < next
  increasing : positions.Pairwise (· < ·)

theorem rxOk_init : RxOk scifSystemInit 0 [] where
  follows := follows_init List.length_replicate (by decide) (by decide)
  size := rfl
  next_le := Nat.le_refl _
  readPtr := rfl
  found := by intro h; cases h
  returned := rfl
  below := by simp
  increasing := .nil

theorem RxOk.next_lt (h : RxOk s next positions) (havail : ringbufferAvailable s.scif.rxRing ≠ 0) :
    next < s.received.length := by
  refine Nat.lt_of_le_of_ne h.next_le fun heq => havail ?_
  have hlap : s.received.length < next + s.scif.rxRing.size := by
    have := h.follows.pos
    omega
  rw [h.follows.available h.next_le hlap (h.size ▸ h.readPtr), heq, Nat.sub_self]

theorem RxOk.of_eq (h : RxOk s next positions) (hring : t.scif.rxRing = s.scif.rxRing)
    (hreceived : t.received = s.received) (hreturned : t.returned = s.returned)
    (hfound : t.reader = .found → next < s.received.length) : RxOk t next positions := by
  refine ⟨?_, ?_, ?_, ?_, ?_, ?_, h.below, h.increasing⟩
  · rw [hring, hreceived]
    exact h.follows
  · rw [hring]
    exact h.size
  · rw [hreceived]
    exact h.next_le
  · rw [hring]
    exact h.readPtr
  · rwa [hreceived]
  · rw [hreturned, hreceived]
    exact h.returned

theorem RxOk.readOne (h : RxOk s next positions) (hfound : s.reader = .found) :
    ∃ p, (s.received.length ≤ next + RING_BUF_SIZE → p = next) ∧
      RxOk { s with
        scif := { s.scif with rxRing := (ringbufferReadOne s.scif.rxRing).2 }
        reader := .idle
        returned := s.returned ++ [(ringbufferReadOne s.scif.rxRing).1] } (p + 1)
            (positions ++ [p]) := by
  obtain ⟨p, hnext, hlt, hlap, hcell, honly⟩ :=
    newest_position (show 0 < RING_BUF_SIZE by decide) (h.found hfound)
  have hread := h.follows.readOne_eq hlt (h.size ▸ hlap) (by rw [h.readPtr, h.size, hcell])
  rw [hread]
  refine ⟨p, honly, h.follows.moveReadPtr _, h.size,
    hlt, by simp only [h.size], Reader.noConfusion, ?_, ?_, ?_⟩
  · rw [List.map_append, List.map_append, h.returned]
    simp [List.getElem?_eq_getElem hlt]
  · intro q hq
    rcases List.mem_append.mp hq with hq | hq
    · exact Nat.lt_succ_of_lt (Nat.lt_of_lt_of_le (h.below q hq) hnext)
    · rw [List.mem_singleton.mp hq]
      exact Nat.lt_succ_self p
  · refine List.pairwise_append.mpr ⟨h.increasing, List.pairwise_singleton _ _, ?_⟩
    intro q hq q' hq'
    rw [List.mem_singleton.mp hq']
    exact Nat.lt_of_lt_of_le (h.below q hq) hnext

theorem RxOk.receive (h : RxOk s next positions) (bytes : List UInt8)
    (hring : t.scif.rxRing = bytes.foldl ringbufferWriteOne s.scif.rxRing)
    (hreader : t.reader = s.reader)
    (hreceived : t.received = s.received ++ bytes) (hreturned : t.returned = s.returned) :
    RxOk t next positions := by
  refine ⟨?_, ?_, ?_, ?_, ?_, ?_, h.below, h.increasing⟩
  · rw [hring, hreceived]
    exact h.follows.receive bytes
  · rw [hring, receive_size]
    exact h.size
  · rw [hreceived, List.length_append]
    exact Nat.le_trans h.next_le (Nat.le_add_right ..)
  · rw [hring, receive_readPtr]
    exact h.readPtr
  · rw [hreader, hreceived, List.length_append]
    intro hf
    exact Nat.lt_of_lt_of_le (h.found hf) (Nat.le_add_right ..)
  · rw [hreturned, hreceived, h.returned]
    apply List.map_congr_left
    intro p hp
    have hlt := Nat.lt_of_lt_of_le (h.below p hp) h.next_le
    rw [List.getElem?_append_left hlt]

theorem RxOk.step (h : RxOk s next positions) (hstep : ScifStep s e t) :
    RxOk t next positions ∨
      ∃ p, (s.received.length ≤ next + RING_BUF_SIZE → p = next) ∧
        RxOk t (p + 1) (positions ++ [p]) := by
  cases hstep.kind with
  | write data _ _ ht =>
    subst ht
    exact .inl (h.of_eq rfl rfl rfl h.found)
  | waits data _ _ ht =>
    subst ht
    exact .inl h
  | passes data _ _ ht =>
    subst ht
    exact .inl (h.of_eq rfl rfl rfl h.found)
  | store data _ ht =>
    subst ht
    exact .inl (h.of_eq rfl rfl rfl h.found)
  | enable _ ht =>
    subst ht
    exact .inl (h.of_eq rfl rfl rfl h.found)
  | read _ ht =>
    subst ht
    refine .inl (h.of_eq rfl rfl rfl fun hfound => h.next_lt fun hzero => ?_)
    simp only [if_pos hzero] at hfound
    cases hfound
  | readOne hfound ht =>
    subst ht
    exact .inr (h.readOne hfound)
  | interrupt room bytes out done scif hint ht =>
    subst ht
    have hscif := congrArg (·.2.2.rxRing) hint
    exact .inl (h.receive bytes (congrArg (bytes.foldl ringbufferWriteOne) hscif.symm) rfl rfl rfl)

theorem run_rxOk {es : List ScifEvent} (hrun : Run ScifStep scifSystemInit es s) :
    ∃ next positions, RxOk s next positions := by
  refine hrun.invariant (fun _ s => ∃ next positions, RxOk s next positions) ⟨0, [], rxOk_init⟩ ?_
  rintro - t e u - ⟨next, positions, h⟩ hstep
  rcases h.step hstep with h | ⟨p, -, h⟩
  · exact ⟨next, positions, h⟩
  · exact ⟨p + 1, positions ++ [p], h⟩

-- ---------------------------------------------------------------------------
-- A reader that keeps up
-- ---------------------------------------------------------------------------

theorem RxOk.returned_eq (h : RxOk s next (List.range next)) :
    s.returned = s.received.take next := by
  have hsome : Function.Injective (some : UInt8 → Option UInt8) := fun _ _ => Option.some.inj
  apply List.map_injective_iff.mpr hsome
  rw [h.returned]
  apply List.ext_getElem?
  intro i
  rcases Nat.lt_or_ge i next with hi | hi
  · have := h.next_le
    simp [hi, show i < s.received.length by omega]
  · have hrange : ((List.range next).map (s.received[·]?)).length ≤ i := by
      rwa [List.length_map, List.length_range]
    have htake : ((s.received.take next).map some).length ≤ i := by
      rw [List.length_map, List.length_take]
      exact Nat.le_trans (Nat.min_le_left ..) hi
    rw [List.getElem?_eq_none hrange, List.getElem?_eq_none htake]

theorem RxOk.returned_length (h : RxOk s next (List.range next)) : s.returned.length = next := by
  rw [h.returned_eq, List.length_take, Nat.min_eq_left h.next_le]

/-- Less than a ring of bytes is received but unread. -/
def KeepsUp (s : ScifSystem) : Prop := s.received.length ≤ s.returned.length + (RING_BUF_SIZE - 1)

instance (s : ScifSystem) : Decidable (KeepsUp s) := inferInstanceAs (Decidable (_ ≤ _))

theorem run_rxOk_range {es : List ScifEvent} (hrun : Run ScifStep scifSystemInit es s) :
    Run.Always ScifStep KeepsUp scifSystemInit es → ∃ next, RxOk s next (List.range next) := by
  refine hrun.invariant (fun es s => Run.Always ScifStep KeepsUp scifSystemInit es →
    ∃ next, RxOk s next (List.range next)) (fun _ => ⟨0, rxOk_init⟩) ?_
  intro es t e u ht ih hstep halways
  have hbefore := (Run.always_snoc.mp halways).1
  obtain ⟨next, h⟩ := ih hbefore
  have hkeeps : KeepsUp t := hbefore es t List.prefix_rfl ht
  rw [KeepsUp, h.returned_length] at hkeeps
  rcases h.step hstep with h' | ⟨p, honly, h'⟩
  · exact ⟨next, h'⟩
  · obtain rfl := honly (by omega)
    exact ⟨p + 1, by rwa [List.range_succ]⟩

/-- The bytes returned were received at increasing positions, however often the
interrupt laps the reader. A reader that keeps up returns all that was received,
up to what is still available. -/
theorem scif_rx {es : List ScifEvent} (hrun : Run ScifStep scifSystemInit es s) :
    (∃ positions : List Nat, positions.Pairwise (· < ·) ∧
      s.returned.map some = positions.map (s.received[·]?)) ∧
    (Run.Always ScifStep KeepsUp scifSystemInit es →
      s.returned <+: s.received ∧
      ringbufferAvailable s.scif.rxRing = s.received.length - s.returned.length) := by
  constructor
  · obtain ⟨next, positions, h⟩ := run_rxOk hrun
    exact ⟨positions, h.increasing, h.returned⟩
  · intro halways
    obtain ⟨next, h⟩ := run_rxOk_range hrun halways
    have hkeeps : KeepsUp s := halways es s List.prefix_rfl hrun
    rw [KeepsUp, h.returned_length] at hkeeps
    constructor
    · rw [h.returned_eq]
      exact List.take_prefix ..
    · have hlap : s.received.length < next + s.scif.rxRing.size := by
        have : s.scif.rxRing.size = 2048 := h.size
        simp only [RING_BUF_SIZE] at hkeeps
        omega
      rw [h.follows.available h.next_le hlap (h.size ▸ h.readPtr), h.returned_length]

theorem scif_rx_three : ∃ s, Run ScifStep scifSystemInit
    [.interrupt 0 [7, 8, 9], .read, .readOne] s ∧
    s.returned = [7] ∧ s.returned <+: s.received ∧
    ringbufferAvailable s.scif.rxRing = s.received.length - s.returned.length := by
  have h1 : Run ScifStep scifSystemInit [.interrupt 0 [7, 8, 9]] _ :=
    Run.of_foldlM (f := ScifSystem.step) rfl
  have h2 : Run ScifStep scifSystemInit [.interrupt 0 [7, 8, 9], .read] _ :=
    Run.of_foldlM (f := ScifSystem.step) rfl
  have h3 : Run ScifStep scifSystemInit [.interrupt 0 [7, 8, 9], .read, .readOne] _ :=
    Run.of_foldlM (f := ScifSystem.step) rfl
  have hkeeps : Run.Always ScifStep KeepsUp scifSystemInit _ :=
    (((Run.always_nil.mpr (by decide)).snoc ScifStep.unique h1 (by decide)).snoc ScifStep.unique h2
      (by decide)).snoc ScifStep.unique h3 (by decide)
  exact ⟨_, h3, rfl, (scif_rx h3).2 hkeeps⟩

end FxIP
