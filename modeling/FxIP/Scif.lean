import FxIP.Lib.Run
import FxIP.Ringbuffer

/-!
# The serial interface

`scif.c` as written, cut at the ring operations, which are atomic, and the
system of its parts: a writer in `scif_write`, a reader in `scif_read`, and the
interrupt, which runs whole between any two of their steps.
-/

namespace FxIP

def RING_BUF_SIZE : Nat := 2048

/-- The rings, and the `SCSCR_TIE` bit. -/
structure Scif where
  rxRing : Ringbuffer
  txRing : Ringbuffer
  tie : Bool
  deriving Repr, DecidableEq

def scifInit : Scif where
  rxRing := ringbufferInit (List.replicate RING_BUF_SIZE 0) RING_BUF_SIZE
  txRing := ringbufferInit (List.replicate RING_BUF_SIZE 0) RING_BUF_SIZE
  tie := false

/-- The condition of the busy-wait in `scif_write`. -/
def scifWriteWaits (scif : Scif) (data : List UInt8) : Prop :=
  (RING_BUF_SIZE : Int) - ringbufferAvailable scif.txRing < data.length

instance (scif : Scif) (data : List UInt8) : Decidable (scifWriteWaits scif data) :=
  inferInstanceAs (Decidable ((_ : Int) < _))

/-- The loop that fills the transmit FIFO, which has room for `room` bytes. -/
def fillTxFifo : Nat → Ringbuffer → List UInt8 × Ringbuffer
  | 0, txRing => ([], txRing)
  | room + 1, txRing =>
    if ringbufferAvailable txRing = 0 then ([], txRing)
    else
      let (byte, txRing) := ringbufferReadOne txRing
      let (bytes, txRing) := fillTxFifo room txRing
      (byte :: bytes, txRing)

/-- The bytes handed to the transmit FIFO, and whether the interrupt disables
itself. -/
def scifInterruptTx (room : Nat) (scif : Scif) : List UInt8 × Bool × Scif :=
  let (bytes, txRing) := fillTxFifo room scif.txRing
  let done := ringbufferAvailable txRing = 0
  (bytes, done, { scif with txRing, tie := if done then false else scif.tie })

/-- `bytes` are what the receive FIFO holds. -/
def scifInterruptRx (bytes : List UInt8) (scif : Scif) : Scif :=
  { scif with rxRing := bytes.foldl ringbufferWriteOne scif.rxRing }

-- ---------------------------------------------------------------------------
-- The system
-- ---------------------------------------------------------------------------

inductive Writer
  | idle
  | waiting (data : List UInt8)
  | ready (data : List UInt8)
  | stored
  deriving DecidableEq

inductive Reader
  | idle
  | found
  deriving DecidableEq

/-- The interface with what went through it: the data stored in the transmit
ring, the bytes handed to the transmit FIFO, the bytes received, and those
`scif_read` returned. `stopped` is set when the interrupt disables itself with
stored bytes unsent. -/
structure ScifSystem where
  scif : Scif
  writer : Writer
  reader : Reader
  written : List UInt8
  sent : List UInt8
  received : List UInt8
  returned : List UInt8
  stopped : Bool

def scifSystemInit : ScifSystem where
  scif := scifInit
  writer := .idle
  reader := .idle
  written := []
  sent := []
  received := []
  returned := []
  stopped := false

inductive ScifEvent
  | write (data : List UInt8)
  | waitRound
  | store
  | enable
  | read
  | readOne
  | interrupt (room : Nat) (bytes : List UInt8)

def ScifSystem.step (s : ScifSystem) : ScifEvent → Option ScifSystem
  | .write data =>
    if s.writer = .idle ∧ data.length ≤ RING_BUF_SIZE then some { s with writer := .waiting data }
    else none
  | .waitRound =>
    match s.writer with
    | .waiting data =>
      if scifWriteWaits s.scif data then some s else some { s with writer := .ready data }
    | _ => none
  | .store =>
    match s.writer with
    | .ready data => some { s with
        scif := { s.scif with txRing := ringbufferWrite s.scif.txRing data }
        writer := .stored
        written := s.written ++ data }
    | _ => none
  | .enable =>
    match s.writer with
    | .stored => some { s with scif := { s.scif with tie := true }, writer := .idle }
    | _ => none
  | .read =>
    match s.reader with
    | .idle =>
      -- nothing available: returns -1
      some { s with reader := if ringbufferAvailable s.scif.rxRing = 0 then .idle else .found }
    | .found => none
  | .readOne =>
    match s.reader with
    | .found =>
      let (byte, rxRing) := ringbufferReadOne s.scif.rxRing
      some { s with
        scif := { s.scif with rxRing }
        reader := .idle
        returned := s.returned ++ [byte] }
    | .idle => none
  | .interrupt room bytes =>
    let (out, done, scif) := scifInterruptTx room s.scif
    let sent := s.sent ++ out
    some { s with
      scif := scifInterruptRx bytes scif
      sent
      received := s.received ++ bytes
      stopped := s.stopped || (done && decide (sent ≠ s.written)) }

def ScifStep (s : ScifSystem) (e : ScifEvent) (s' : ScifSystem) : Prop := s.step e = some s'

theorem ScifStep.unique (s : ScifSystem) (e : ScifEvent) (t u : ScifSystem) (h : ScifStep s e t)
    (h' : ScifStep s e u) : t = u := Option.some.inj (h.symm.trans h')

/-- What each step does, and when it can be taken. -/
inductive ScifKind (s t : ScifSystem) : ScifEvent → Prop
  | write (data : List UInt8) : s.writer = .idle → data.length ≤ RING_BUF_SIZE →
      t = { s with writer := .waiting data } → ScifKind s t (.write data)
  | waits (data : List UInt8) : s.writer = .waiting data → scifWriteWaits s.scif data → t = s →
      ScifKind s t .waitRound
  | passes (data : List UInt8) : s.writer = .waiting data → ¬ scifWriteWaits s.scif data →
      t = { s with writer := .ready data } → ScifKind s t .waitRound
  | store (data : List UInt8) : s.writer = .ready data →
      t = { s with
        scif := { s.scif with txRing := ringbufferWrite s.scif.txRing data }
        writer := .stored
        written := s.written ++ data } → ScifKind s t .store
  | enable : s.writer = .stored → t =
      { s with scif := { s.scif with tie := true }, writer := .idle } →
      ScifKind s t .enable
  | read : s.reader = .idle →
      t = { s with reader := if ringbufferAvailable s.scif.rxRing = 0 then .idle else .found } →
      ScifKind s t .read
  | readOne : s.reader = .found →
      t = { s with
        scif := { s.scif with rxRing := (ringbufferReadOne s.scif.rxRing).2 }
        reader := .idle
        returned := s.returned ++ [(ringbufferReadOne s.scif.rxRing).1] } → ScifKind s t .readOne
  | interrupt (room : Nat) (bytes out : List UInt8) (done : Bool) (scif : Scif) :
      scifInterruptTx room s.scif = (out, done, scif) →
      t = { s with
        scif := scifInterruptRx bytes scif
        sent := s.sent ++ out
        received := s.received ++ bytes
        stopped := s.stopped || (done && decide (s.sent ++ out ≠ s.written)) } →
      ScifKind s t (.interrupt room bytes)

theorem ScifStep.kind {s t : ScifSystem} {e : ScifEvent} (h : ScifStep s e t) : ScifKind s t e := by
  unfold ScifStep at h
  cases e with
  | write data =>
    simp only [ScifSystem.step, Option.ite_none_right_eq_some, Option.some.injEq] at h
    exact .write data h.1.1 h.1.2 h.2.symm
  | waitRound =>
    cases hw : s.writer with
    | waiting data =>
      simp only [ScifSystem.step, hw] at h
      split at h
      · next hwaits => exact .waits data hw hwaits (Option.some.inj h).symm
      · next hpasses => exact .passes data hw hpasses (Option.some.inj h).symm
    | _ => simp [ScifSystem.step, hw] at h
  | store =>
    cases hw : s.writer with
    | ready data =>
      simp only [ScifSystem.step, hw, Option.some.injEq] at h
      exact .store data hw h.symm
    | _ => simp [ScifSystem.step, hw] at h
  | enable =>
    cases hw : s.writer with
    | stored =>
      simp only [ScifSystem.step, hw, Option.some.injEq] at h
      exact .enable hw h.symm
    | _ => simp [ScifSystem.step, hw] at h
  | read =>
    cases hr : s.reader with
    | idle =>
      simp only [ScifSystem.step, hr, Option.some.injEq] at h
      exact .read hr h.symm
    | found => simp [ScifSystem.step, hr] at h
  | readOne =>
    cases hr : s.reader with
    | found =>
      simp only [ScifSystem.step, hr, Option.some.injEq] at h
      exact .readOne hr h.symm
    | idle => simp [ScifSystem.step, hr] at h
  | interrupt room bytes =>
    simp only [ScifSystem.step, Option.some.injEq] at h
    exact .interrupt room bytes _ _ _ rfl h.symm

end FxIP
