import FxIP.Lib.Slip
import FxIP.Slipdev

/-!
# What the decoder delivers

The decoder tracks the unbounded receiver of SLIP, but its buffer starts over
after every `UIP_BUFSIZE + 1` bytes of a frame. So a poll delivers what came
after that: the whole frame if it fits the buffer, else its tail.
-/

namespace FxIP

open Circular

variable {dev : Slipdev} {r : Slip.Receiving} {c : UInt8} {stream readable : List UInt8}
variable {line : Line} {packets : List (List UInt8)} {events : List LineEvent}

-- ---------------------------------------------------------------------------
-- The encoder
-- ---------------------------------------------------------------------------

theorem slipdevSend_eq (uipBuf : List UInt8) (uipLen : Nat) :
    slipdevSend uipBuf uipLen = Slip.frame (uipBuf.take uipLen) := rfl

-- ---------------------------------------------------------------------------
-- One byte
-- ---------------------------------------------------------------------------

/-- Room for the buffered part of a frame, and for a packet in `uip_buf`. -/
structure Slipdev.Ok (dev : Slipdev) : Prop where
  slipBuf : dev.slipBuf.length = UIP_BUFSIZE
  uipBuf : UIP_BUFSIZE ≤ dev.uipBuf.length
  len : dev.len ≤ UIP_BUFSIZE

/-- The decoder is where the receiver is, with the last bytes of the data. -/
structure Tracks (dev : Slipdev) (r : Slip.Receiving) : Prop extends Slipdev.Ok dev where
  lastc : dev.lastc = SLIP_ESC ↔ r.escaped = true
  count : dev.len = r.data.length % (UIP_BUFSIZE + 1)
  data : dev.slipBuf.take dev.len = r.data.drop (r.data.length - dev.len)

def delivered (data : List UInt8) : List UInt8 :=
  data.drop (data.length - data.length % (UIP_BUFSIZE + 1))

theorem Tracks.delivered (h : Tracks dev r) : dev.slipBuf.take dev.len = delivered r.data := by
  rw [h.data, FxIP.delivered, h.count]

theorem tracks_start (h : dev.Ok) (hlen : dev.len = 0) (hlastc : dev.lastc ≠ SLIP_ESC) :
    Tracks dev .start :=
  ⟨h, by simp [hlastc, Slip.Receiving.start], by simp [hlen, Slip.Receiving.start],
    by simp [hlen, Slip.Receiving.start]⟩

theorem tracks_init (dev : Slipdev) (hslip : dev.slipBuf.length = UIP_BUFSIZE)
    (huip : UIP_BUFSIZE ≤ dev.uipBuf.length) :
    Tracks (slipdevInit dev) .start :=
  tracks_start ⟨hslip, huip, Nat.zero_le _⟩ rfl (show (0 : UInt8) ≠ SLIP_ESC by decide)

theorem tracks_buffered (h : dev.Ok) :
    Tracks dev ⟨decide (dev.lastc = SLIP_ESC), dev.slipBuf.take dev.len⟩ := by
  have hlen : (dev.slipBuf.take dev.len).length = dev.len :=
    List.length_take_of_le (h.slipBuf ▸ h.len)
  refine ⟨h, by simp, ?_, ?_⟩
  · rw [hlen, Nat.mod_eq_of_lt (Nat.lt_succ_of_le h.len)]
  · simp only [hlen, Nat.sub_self, List.drop_zero]

theorem Tracks.esc (h : Tracks dev r) :
    Tracks { dev with lastc := SLIP_ESC } (r.next SLIP_ESC) :=
  ⟨⟨h.slipBuf, h.uipBuf,
    h.len⟩, by simp [Slip.Receiving.next, SLIP_ESC, Slip.ESC, Slip.END], h.count, h.data⟩

theorem Tracks.store (h : Tracks dev r) (hend : c ≠ SLIP_END) (hesc : c ≠ SLIP_ESC) :
    Tracks (slipdevStore { dev with lastc := c } (slipdevUnescape dev.lastc c)) (r.next c) := by
  have hnext := Slip.next_data (r := r) hend hesc
  have hbyte : slipdevUnescape dev.lastc c = if r.escaped then Slip.unescapeByte c else c := by
    by_cases hl : dev.lastc = SLIP_ESC
    · rw [slipdevUnescape, if_pos hl, if_pos (h.lastc.mp hl)]
      rfl
    · rw [slipdevUnescape, if_neg hl, if_neg (fun he => hl (h.lastc.mpr he))]
  rw [← hbyte] at hnext
  rw [hnext]
  have hlen := h.len
  have hbuf := h.slipBuf
  have hcount := h.count
  unfold slipdevStore
  by_cases hfull : dev.len + 1 > UIP_BUFSIZE
  · -- the byte past the end of the buffer: the frame starts over
    refine ⟨⟨by simpa using hbuf, h.uipBuf, ?_⟩, by simp [hesc], ?_, ?_⟩ <;>
      simp only [if_pos hfull]
    · exact Nat.zero_le _
    · rw [List.length_append, List.length_singleton]
      unfold UIP_BUFSIZE at *
      omega
    · simp
  · have hmod : (r.data.length + 1) % (UIP_BUFSIZE + 1) = dev.len + 1 := by
      unfold UIP_BUFSIZE at *
      omega
    have hle : dev.len ≤ r.data.length := hcount ▸ Nat.mod_le _ _
    refine ⟨⟨by simpa using hbuf, h.uipBuf, ?_⟩, by simp [hesc], ?_, ?_⟩ <;>
      simp only [if_neg hfull]
    · omega
    · rw [List.length_append, List.length_singleton, hmod]
    · rw [List.length_append, List.length_singleton, Nat.add_sub_add_right,
        List.drop_append_of_le_length (by omega), ← h.data, List.take_add_one,
        List.take_set_of_le (Nat.le_refl _), List.getElem?_set_self (by omega)]
      rfl

-- ---------------------------------------------------------------------------
-- One poll
-- ---------------------------------------------------------------------------

/-- What a poll reads, and what it returns for it: nothing unless it reads the
end of a frame, and then what is delivered of that. -/
structure PollOk (r : Slip.Receiving) (readable : List UInt8)
    (result : Nat × Slipdev × List UInt8) : Prop where
  tracks : ∃ read, readable = read ++ result.2.2 ∧ (readable ≠ [] → read ≠ []) ∧
    Tracks result.2.1 (r.after read) ∧
    (r.contents read = [] ∧ result.1 = 0 ∨
      ∃ data, r.contents read = [data] ∧ result.1 = (delivered data).length ∧
        result.2.1.uipBuf.take result.1 = delivered data)

theorem Tracks.poll (h : Tracks dev r) (readable : List UInt8) :
    PollOk r readable (slipdevPoll dev readable) := by
  induction readable generalizing dev r with
  | nil => exact ⟨[], rfl, fun hne => absurd rfl hne, h, .inl ⟨rfl, rfl⟩⟩
  | cons c readable ih =>
    unfold slipdevPoll
    by_cases hesc : c = SLIP_ESC
    · subst hesc
      obtain ⟨read, hread, -, htracks, hres⟩ := ih h.esc
      rw [if_pos rfl]
      exact ⟨SLIP_ESC :: read, by rw [List.cons_append, ← hread], by simp, htracks,
        by rwa [Slip.contents_not_end (by decide)]⟩
    · rw [if_neg hesc]
      by_cases hend : c = SLIP_END
      · subst hend
        rw [if_pos rfl]
        have hlen : (dev.slipBuf.take dev.len).length = dev.len :=
          List.length_take_of_le (h.slipBuf ▸ h.len)
        have hle : dev.len ≤ dev.uipBuf.length := Nat.le_trans h.len h.uipBuf
        refine ⟨[SLIP_END], rfl, by simp, ?_, .inr ⟨r.data, rfl, ?_, ?_⟩⟩
        · exact tracks_start ⟨h.slipBuf, by simpa using h.uipBuf, Nat.zero_le _⟩ rfl
            (show SLIP_END ≠ SLIP_ESC by decide)
        · rw [← h.delivered, hlen]
        · have htake := take_overwrite_zero dev.uipBuf (dev.slipBuf.take dev.len)
            (by rw [hlen]; exact hle)
          rw [hlen] at htake
          rw [← h.delivered]
          exact htake
      · rw [if_neg hend]
        obtain ⟨read, hread, -, htracks, hres⟩ := ih (h.store hend hesc)
        exact ⟨c :: read, by rw [List.cons_append, ← hread], by simp, htracks,
          by rwa [Slip.contents_not_end hend]⟩

-- ---------------------------------------------------------------------------
-- Runs
-- ---------------------------------------------------------------------------

def deliveries (contents : List (List UInt8)) : List (List UInt8) :=
  (contents.map delivered).filter (· ≠ [])

/-- After `arrived`, of which everything but `readable` was read. -/
structure LineOk (r : Slip.Receiving) (line : Line) (arrived : List UInt8) : Prop where
  read : ∃ read, arrived = read ++ line.readable ∧ Tracks line.dev (r.after read) ∧
    line.packets = deliveries (r.contents read)

theorem LineOk.arrive (h : LineOk r line stream) (bytes : List UInt8) :
    LineOk r (line.step (.arrive bytes)) (stream ++ bytes) := by
  obtain ⟨read, hread, htracks, hpackets⟩ := h
  exact ⟨read, by rw [hread, List.append_assoc]; rfl, htracks, hpackets⟩

theorem LineOk.poll (h : LineOk r line stream) : LineOk r (line.step .poll) stream ∧
    ((line.step .poll).readable.length < line.readable.length ∨ line.readable = []) := by
  obtain ⟨read, hread, htracks, hpackets⟩ := h
  obtain ⟨read', hread', hne, htracks', hres⟩ := htracks.poll line.readable
  have hlen := congrArg List.length hread'
  rw [List.length_append] at hlen
  constructor
  · refine ⟨read ++ read', by rw [hread, List.append_assoc]; congr 1, ?_, ?_⟩
    · rw [Slip.after_append]
      exact htracks'
    · rw [Slip.contents_append, deliveries, List.map_append,
        List.filter_append, ← deliveries, ← hpackets]
      simp only [Line.step]
      rcases hres with ⟨hnil, hzero⟩ | ⟨data, hdata, hn, hbytes⟩
      · rw [hzero, if_neg (by omega), hnil]
        simp
      · rw [hdata, hbytes, hn]
        by_cases hpos : 0 < (delivered data).length
        · rw [if_pos hpos]
          simp [List.length_pos_iff.mp hpos]
        · rw [if_neg hpos]
          simp [List.eq_nil_of_length_eq_zero (Nat.eq_zero_of_not_pos hpos)]
  · by_cases hnil : line.readable = []
    · exact .inr hnil
    · have hpos := List.length_pos_iff.mpr (hne hnil)
      left
      show (slipdevPoll line.dev line.readable).2.2.length < line.readable.length
      omega

theorem run_ok (h : LineOk r line stream) (events : List LineEvent) :
    LineOk r (line.run events) (stream ++ arrivals events) := by
  induction events generalizing line stream with
  | nil => simpa using h
  | cons e events ih =>
    cases e with
    | arrive bytes => simpa using ih (h.arrive bytes)
    | poll => simpa using ih h.poll.1

theorem drain_ok (h : LineOk r line stream) {n : Nat} (hn : line.readable.length ≤ n) :
    LineOk r (line.run (List.replicate n .poll)) stream ∧
      (line.run (List.replicate n .poll)).readable = [] := by
  induction n generalizing line with
  | zero => exact ⟨h, List.eq_nil_of_length_eq_zero (Nat.le_zero.mp hn)⟩
  | succ n ih =>
    obtain ⟨hok, hless⟩ := h.poll
    refine ih hok ?_
    rcases hless with hlt | hnil
    · omega
    · have : (line.step .poll).readable = [] := by simp [Line.step, hnil, slipdevPoll]
      rw [this]
      exact Nat.zero_le _

theorem run_drained (h : Tracks dev r) (events : List LineEvent) :
    let line := (Line.mk dev [] []).run (events ++ List.replicate (arrivals events).length .poll)
    LineOk r line (arrivals events) ∧ line.readable = [] := by
  have hstart : LineOk r ⟨dev, [], []⟩ [] := ⟨[], rfl, h, rfl⟩
  have hrun := run_ok hstart events
  have hle : ((Line.mk dev [] []).run events).readable.length ≤ (arrivals events).length := by
    obtain ⟨read, hread, -⟩ := hrun
    have := congrArg List.length hread
    rw [List.nil_append, List.length_append] at this
    omega
  rw [run_append]
  exact drain_ok hrun hle

theorem run_packets (h : Tracks dev r) (events : List LineEvent) :
    ((Line.mk dev [] []).run (events ++ List.replicate (arrivals events).length .poll)).packets =
      deliveries (r.contents (arrivals events)) := by
  obtain ⟨⟨read, hread, -, hpackets⟩, hnil⟩ := run_drained h events
  rw [hnil, List.append_nil] at hread
  rw [hpackets, hread]

theorem step_packets (line : Line) (e : LineEvent) : line.packets <+: (line.step e).packets := by
  cases e with
  | arrive bytes => exact List.prefix_rfl
  | poll =>
    simp only [Line.step]
    split
    · exact List.prefix_append _ _
    · exact List.prefix_rfl

theorem run_packets_prefix (line : Line) (events : List LineEvent) :
    line.packets <+: (line.run events).packets := by
  induction events generalizing line with
  | nil => exact List.prefix_rfl
  | cons e events ih => exact (step_packets line e).trans (ih _)

-- ---------------------------------------------------------------------------
-- The round trip
-- ---------------------------------------------------------------------------

theorem length_delivered (data : List UInt8) :
    (delivered data).length = data.length % (UIP_BUFSIZE + 1) := by
  have hle := Nat.mod_le data.length (UIP_BUFSIZE + 1)
  rw [delivered, List.length_drop]
  omega

theorem delivered_of_le {data : List UInt8} (h : data.length ≤ UIP_BUFSIZE) :
    delivered data = data := by
  rw [delivered, Nat.mod_eq_of_lt (Nat.lt_succ_of_le h), Nat.sub_self, List.drop_zero]

theorem delivered_replicate (n : Nat) (c : UInt8) :
    delivered (List.replicate n c) = List.replicate (n % (UIP_BUFSIZE + 1)) c := by
  have hle := Nat.mod_le n (UIP_BUFSIZE + 1)
  rw [delivered, List.length_replicate, List.drop_replicate]
  congr 1
  omega

theorem deliveries_cons {data : List UInt8} {contents : List (List UInt8)} :
    deliveries (data :: contents) =
      (if delivered data = [] then [] else [delivered data]) ++ deliveries contents := by
  unfold deliveries
  rw [List.map_cons, List.filter_cons]
  split <;> simp_all

theorem deliveries_between (h : ∀ p ∈ packets, p ≠ [] ∧ p.length ≤ UIP_BUFSIZE) :
    deliveries (packets.flatMap fun p => [[], p]) = packets := by
  induction packets with
  | nil => rfl
  | cons p packets ih =>
    obtain ⟨hne, hle⟩ := h p (by simp)
    rw [List.flatMap_cons, List.cons_append, List.cons_append, List.nil_append, deliveries_cons,
      deliveries_cons, ih fun q hq => h q (by simp [hq]), delivered_of_le hle,
      delivered_of_le (Nat.zero_le _), if_pos rfl, if_neg hne]
    rfl

/-- Whatever was buffered before comes out first; then come the packets sent. -/
theorem slipdev_round_trip (packets : List (List UInt8)) (h : dev.Ok)
    (hp : ∀ p ∈ packets, p ≠ [] ∧ p.length ≤ UIP_BUFSIZE)
    (harrive : arrivals events = packets.flatMap fun p => slipdevSend p p.length) :
    let leftover := if packets = [] ∨ dev.len = 0 then [] else [dev.slipBuf.take dev.len]
    ((Line.mk dev [] []).run events).packets <+: leftover ++ packets ∧
      ((Line.mk dev [] []).run (events ++ List.replicate (arrivals events).length .poll)).packets =
        leftover ++ packets := by
  intro leftover
  have hlen : (dev.slipBuf.take dev.len).length = dev.len :=
    List.length_take_of_le (h.slipBuf ▸ h.len)
  have hsend : (packets.flatMap fun p => slipdevSend p p.length) = packets.flatMap Slip.frame := by
    simp only [slipdevSend_eq, List.take_length]
  have hall := run_packets (tracks_buffered h) events
  rw [harrive, hsend, Slip.contents_frames, ← hsend, ← harrive] at hall
  have hout : ((Line.mk dev [] []).run
      (events ++ List.replicate (arrivals events).length .poll)).packets = leftover ++ packets := by
    rw [hall]
    cases packets with
    | nil => rfl
    | cons p packets =>
      obtain ⟨hne, hle⟩ := hp p (by simp)
      simp only
      rw [deliveries_cons, deliveries_cons, deliveries_between fun q hq => hp q (by simp [hq]),
        delivered_of_le hle, delivered_of_le (by rw [hlen]; exact h.len), if_neg hne]
      have hempty : dev.slipBuf.take dev.len = [] ↔ dev.len = 0 := by
        rw [← List.length_eq_zero_iff, hlen]
      simp [leftover, hempty]
  refine ⟨?_, hout⟩
  rw [← hout, run_append]
  exact run_packets_prefix _ _

theorem slipdev_round_trip_esc :
    let dev : Slipdev := ⟨List.replicate 1500 1, 2, SLIP_ESC, List.replicate 1502 0⟩
    let events : List LineEvent := [.arrive [0xC0, 5, 0xDB], .poll, .poll, .arrive [0xDC, 0xC0]]
    ((Line.mk dev [] []).run (events ++ List.replicate (arrivals events).length .poll)).packets =
      [[1, 1], [5, 0xC0]] :=
  (slipdev_round_trip [[5, 0xC0]]
    ⟨List.length_replicate, by rw [List.length_replicate]; decide, by decide⟩ (by decide)
      (by decide)).2

end FxIP
