import FxIP.Scif

/-!
# The transmit FIFO

As long as no write fills the ring, the bytes handed to the hardware and the
bytes pending are what was written. The busy-wait lets a write fill it, and
then the pointers are equal and nothing is pending.
-/

namespace FxIP

variable {ring : Ringbuffer} {tape : List UInt8} {s t : ScifSystem} {e : ScifEvent}

/-- What was sent and what is pending is what was written, and the interrupt
has not disabled itself with bytes unsent. -/
def TxExact (s : ScifSystem) : Prop :=
  s.sent ++ s.scif.txRing.pending = s.written ∧ s.stopped = false

/-- A write leaves at least one cell of the ring free. -/
def LeavesRoom (s : ScifSystem) : ScifEvent → Prop
  | .store => ∀ data, s.writer = .ready data →
    ringbufferAvailable s.scif.txRing + data.length < RING_BUF_SIZE
  | _ => True

/-- The ring is the window over what was written, of which a prefix was sent,
and there is room for a write that has come past the busy-wait. -/
structure TxOk (s : ScifSystem) : Prop where
  follows : Follows s.scif.txRing s.written
  size : s.scif.txRing.size = RING_BUF_SIZE
  sent : s.sent = s.written.take s.sent.length
  lap : s.written.length < s.sent.length + RING_BUF_SIZE
  readPtr : s.scif.txRing.readPtr = s.sent.length % RING_BUF_SIZE
  ready : ∀ data, s.writer = .ready data →
    s.written.length + data.length ≤ s.sent.length + RING_BUF_SIZE
  running : s.stopped = false

theorem TxOk.sent_le (h : TxOk s) : s.sent.length ≤ s.written.length := by
  have := congrArg List.length h.sent
  rw [List.length_take] at this
  omega

theorem TxOk.available (h : TxOk s) :
    ringbufferAvailable s.scif.txRing = s.written.length - s.sent.length :=
  h.follows.available h.sent_le (h.size ▸ h.lap) (h.size ▸ h.readPtr)

theorem TxOk.exact (h : TxOk s) : TxExact s := by
  refine ⟨?_, h.running⟩
  rw [h.follows.pending h.sent_le (h.size ▸ h.lap) (h.size ▸ h.readPtr)]
  conv => lhs; lhs; rw [h.sent]
  exact List.take_append_drop _ _

theorem txOk_init : TxOk scifSystemInit where
  follows := follows_init List.length_replicate (by decide) (by decide)
  size := rfl
  sent := rfl
  lap := by decide
  readPtr := rfl
  ready := by intro data h; cases h
  running := rfl

-- ---------------------------------------------------------------------------
-- The interrupt
-- ---------------------------------------------------------------------------

theorem Follows.fillTxFifo (h : Follows ring tape) {a : Nat} (ha : a ≤ tape.length)
    (hlap : tape.length < a + ring.size) (hr : ring.readPtr = a % ring.size) (room : Nat) :
    ∃ k, a + k ≤ tape.length ∧ fillTxFifo room ring =
      ((tape.drop a).take k, { ring with readPtr := (a + k) % ring.size }) := by
  induction room generalizing ring a with
  | zero => exact ⟨0, ha, by simp [FxIP.fillTxFifo, ← hr]⟩
  | succ room ih =>
    have havail := h.available ha hlap hr
    rw [FxIP.fillTxFifo]
    by_cases hnone : ringbufferAvailable ring = 0
    · exact ⟨0, ha, by simp [hnone, ← hr]⟩
    · have hlt : a < tape.length := by omega
      have hread := h.readOne_eq hlt (by omega) hr
      obtain ⟨k, hk, hrest⟩ := ih (h.moveReadPtr ((a + 1) % ring.size)) (a := a + 1) (by omega)
        (by simp only; omega) rfl
      refine ⟨k + 1, by omega, ?_⟩
      rw [if_neg hnone, hread]
      simp only [hrest]
      rw [List.drop_eq_getElem_cons hlt, List.take_succ_cons, Nat.add_assoc, Nat.add_comm 1 k]

theorem TxOk.interrupt (h : TxOk s) (room : Nat) :
    ∃ k, s.sent.length + k ≤ s.written.length ∧
      scifInterruptTx room s.scif =
        ((s.written.drop s.sent.length).take k, decide (s.sent.length + k = s.written.length),
          { s.scif with
            txRing := { s.scif.txRing with readPtr := (s.sent.length + k) % RING_BUF_SIZE }
            tie := if s.sent.length + k = s.written.length then false else s.scif.tie }) := by
  have hlap := h.lap
  obtain ⟨k, hk, hfill⟩ := h.follows.fillTxFifo h.sent_le (h.size ▸ h.lap) (h.size ▸ h.readPtr) room
  rw [show (s.sent.length + k) % s.scif.txRing.size = (s.sent.length + k) %
    RING_BUF_SIZE by rw [h.size]]
    at hfill
  have havail := (h.follows.moveReadPtr ((s.sent.length + k) % RING_BUF_SIZE)).available hk
    (by simp only [h.size]; omega) (by simp only [h.size])
  refine ⟨k, hk, ?_⟩
  have hdone : ringbufferAvailable { s.scif.txRing with readPtr := (s.sent.length + k) %
    RING_BUF_SIZE } = 0 ↔
      s.sent.length + k = s.written.length := by
    rw [havail]
    omega
  simp only [scifInterruptTx, hfill, hdone]

-- ---------------------------------------------------------------------------
-- Steps
-- ---------------------------------------------------------------------------

theorem TxOk.of_eq (h : TxOk s) (hring : t.scif.txRing = s.scif.txRing)
    (hwritten : t.written = s.written) (hsent : t.sent = s.sent) (hstopped : t.stopped = s.stopped)
    (hwriter : ∀ data, t.writer = .ready data → s.writer = .ready data) : TxOk t := by
  refine ⟨?_, ?_, ?_, ?_, ?_, ?_, ?_⟩
  · rw [hring, hwritten]
    exact h.follows
  · rw [hring]
    exact h.size
  · rw [hsent, hwritten]
    exact h.sent
  · rw [hsent, hwritten]
    exact h.lap
  · rw [hring, hsent]
    exact h.readPtr
  · intro data hdata
    rw [hsent, hwritten]
    exact h.ready data (hwriter data hdata)
  · rw [hstopped]
    exact h.running

theorem TxOk.passes {data : List UInt8} (h : TxOk s) (hpasses : ¬ scifWriteWaits s.scif data) :
    TxOk { s with writer := .ready data } := by
  refine ⟨h.follows, h.size, h.sent, h.lap, h.readPtr, ?_, h.running⟩
  intro data' hdata
  obtain rfl := Writer.ready.inj hdata
  have hle := h.sent_le
  rw [scifWriteWaits, h.available] at hpasses
  simp only
  omega

theorem TxOk.store {data : List UInt8} (h : TxOk s)
    (hroom : ringbufferAvailable s.scif.txRing + data.length < RING_BUF_SIZE) :
    TxOk { s with
      scif := { s.scif with txRing := ringbufferWrite s.scif.txRing data }
      writer := .stored
      written := s.written ++ data } := by
  have hle := h.sent_le
  rw [h.available] at hroom
  refine ⟨h.follows.write_block data (by rw [h.size]; omega), by simpa using h.size, ?_, ?_,
    by simpa using h.readPtr, fun _ => Writer.noConfusion, h.running⟩
  · rw [List.take_append_of_le_length hle]
    exact h.sent
  · rw [List.length_append]
    simp only
    omega

theorem TxOk.fill {bytes out : List UInt8} {done : Bool} {scif : Scif} {room : Nat} (h : TxOk s)
    (hint : scifInterruptTx room s.scif = (out, done, scif)) :
    TxOk { s with
      scif := scifInterruptRx bytes scif
      sent := s.sent ++ out
      received := s.received ++ bytes
      stopped := s.stopped || (done && decide (s.sent ++ out ≠ s.written)) } := by
  obtain ⟨k, hk, heq⟩ := h.interrupt room
  obtain ⟨rfl, rfl, rfl⟩ : _ = out ∧ _ = done ∧ _ = scif := by
    simpa only [Prod.mk.injEq] using heq.symm.trans hint
  have hlen : (s.sent ++ (s.written.drop s.sent.length).take k).length = s.sent.length + k := by
    rw [List.length_append, List.length_take_of_le (by rw [List.length_drop]; omega)]
  have hsent : s.sent ++ (s.written.drop s.sent.length).take k =
      s.written.take (s.sent.length + k) := by
    rw [List.take_add, ← h.sent]
  have hlap := h.lap
  refine ⟨h.follows.moveReadPtr _, h.size, ?_, ?_, ?_, ?_, ?_⟩
  · rw [hlen, hsent]
  · simp only [hlen]
    omega
  · simp only [scifInterruptRx, hlen]
  · intro data hdata
    have hready := h.ready data hdata
    simp only [hlen]
    omega
  · simp only [h.running, hsent, Bool.false_or, Bool.and_eq_false_imp, decide_eq_true_eq,
      decide_eq_false_iff_not, not_not]
    intro hall
    rw [hall, List.take_length]

theorem TxOk.step (h : TxOk s) (hstep : ScifStep s e t) (hroom : LeavesRoom s e) : TxOk t := by
  cases hstep.kind with
  | write data _ _ ht =>
    subst ht
    exact h.of_eq rfl rfl rfl rfl fun _ => Writer.noConfusion
  | waits data _ _ ht =>
    subst ht
    exact h
  | passes data _ hpasses ht =>
    subst ht
    exact h.passes hpasses
  | store data hready ht =>
    subst ht
    exact h.store (hroom data hready)
  | enable _ ht =>
    subst ht
    exact h.of_eq rfl rfl rfl rfl fun _ => Writer.noConfusion
  | read _ ht =>
    subst ht
    exact h.of_eq rfl rfl rfl rfl fun _ hd => hd
  | readOne _ ht =>
    subst ht
    exact h.of_eq rfl rfl rfl rfl fun _ hd => hd
  | interrupt room bytes out done scif hint ht =>
    subst ht
    exact h.fill hint

/-- A write that fills the ring: what was written is neither sent nor pending. -/
theorem TxOk.filled (h : TxOk s) (hstep : ScifStep s e t) (hroom : ¬ LeavesRoom s e) :
    ¬ TxExact t := by
  cases e with
  | store =>
    simp only [LeavesRoom, not_forall] at hroom
    obtain ⟨data, hw, hge⟩ := hroom
    have hready := h.ready data hw
    have hle := h.sent_le
    rw [h.available] at hge
    simp only [ScifStep, ScifSystem.step, hw, Option.some.injEq] at hstep
    subst hstep
    rintro ⟨heq, -⟩
    -- the pointers are equal
    have hfollows := h.follows.write_block data (by rw [h.size]; omega)
    have hwrite := hfollows.write
    have hzero : ringbufferAvailable (ringbufferWrite s.scif.txRing data) = 0 := by
      have hr := h.readPtr
      rw [write_size, h.size, List.length_append,
        show s.written.length + data.length = s.sent.length + RING_BUF_SIZE by omega,
        Nat.add_mod_right, ← hr] at hwrite
      unfold ringbufferAvailable
      simp [hwrite, u16]
    have hlen := congrArg List.length heq
    simp only [Ringbuffer.pending, hzero, List.range_zero, List.map_nil, List.append_nil,
      List.length_append] at hlen
    unfold RING_BUF_SIZE at *
    omega
  | _ => exact absurd trivial hroom

/-- Over every run: the transmit FIFO is exact in every state exactly if every
write leaves a cell of the ring free. -/
theorem scif_tx_iff {es : List ScifEvent} (hrun : Run ScifStep scifSystemInit es s) :
    Run.Always ScifStep TxExact scifSystemInit es ↔
      Run (Run.Guarded LeavesRoom ScifStep) scifSystemInit es s :=
  Run.always_iff_guarded ScifStep.unique txOk_init (fun _ h => h.exact)
    (fun _ _ _ h hstep hroom => h.step hstep hroom)
      (fun _ _ _ h hstep hroom => h.filled hstep hroom) hrun

theorem scif_tx_iff_two :
    let es : List ScifEvent :=
      [.write [65, 66], .waitRound, .store, .interrupt 1 [], .enable, .interrupt 16 [7]]
    ∃ s, Run ScifStep scifSystemInit es s ∧ s.sent = [65, 66] ∧
      (Run.Always ScifStep TxExact scifSystemInit es ↔
        Run (Run.Guarded LeavesRoom ScifStep) scifSystemInit es s) :=
  have hrun : Run ScifStep scifSystemInit _ _ := Run.of_foldlM (f := ScifSystem.step) rfl
  ⟨_, hrun, rfl, scif_tx_iff hrun⟩

theorem fill_run {data : List UInt8} (hlen : data.length = RING_BUF_SIZE) :
    ∃ s, Run ScifStep scifSystemInit [.write data, .waitRound, .store] s ∧ ¬ TxExact s := by
  have h1 : ScifStep scifSystemInit (.write data) { scifSystemInit with writer := .waiting data } :=
    if_pos ⟨rfl, Nat.le_of_eq hlen⟩
  have h2 : ScifStep { scifSystemInit with writer := .waiting data } .waitRound
      { scifSystemInit with writer := .ready data } :=
    if_neg (by
      have : ringbufferAvailable scifSystemInit.scif.txRing = 0 := rfl
      simp only [scifWriteWaits, this, hlen]
      decide)
  have hok := (txOk_init.step h1 trivial).step h2 trivial
  have h3 : ScifStep { scifSystemInit with writer := .ready data } .store _ := rfl
  refine ⟨_, ((Run.nil.snoc h1).snoc h2).snoc h3, hok.filled h3 fun hroom => ?_⟩
  have := hroom data rfl
  omega

/-- One write of the size of the ring, to the empty ring. -/
theorem scif_write_fills :
    ∃ s, Run ScifStep scifSystemInit [.write (List.replicate 2048 0), .waitRound, .store] s ∧
      ¬ TxExact s :=
  fill_run List.length_replicate

end FxIP
