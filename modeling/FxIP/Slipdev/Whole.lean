import FxIP.Slipdev.Accesses

/-!
# Whole frames

What `slipdev_poll` delivers are the frames that fit the buffer. A longer frame is
not skipped: it is stored past the end of the buffer, and then its tail is
delivered.
-/

namespace FxIP

variable {dev : Slipdev} {contents : List (List UInt8)}

def wholeFrames (contents : List (List UInt8)) : List (List UInt8) :=
  contents.filter fun data => 1 ≤ data.length ∧ data.length ≤ UIP_BUFSIZE

theorem deliveries_of_le (h : ∀ data ∈ contents, data.length ≤ UIP_BUFSIZE) :
    deliveries contents = wholeFrames contents := by
  have hdelivered : contents.map delivered = contents := by
    refine (List.map_congr_left fun data hdata => ?_).trans (List.map_id _)
    exact delivered_of_le (h data hdata)
  rw [deliveries, hdelivered, wholeFrames]
  refine List.filter_congr fun data hdata => ?_
  rw [decide_eq_decide, ← List.length_pos_iff]
  exact (and_iff_left (h data hdata)).symm

/-- The polls that read a stream, in any chunks, store nothing outside the buffers
and deliver the frames that fit, and nothing else, exactly if no frame is longer,
the one that is not complete included. -/
theorem slipdev_whole_frames_iff (hslip : dev.slipBuf.length = UIP_BUFSIZE)
    (huip : UIP_BUFSIZE ≤ dev.uipBuf.length) (events : List LineEvent) :
    let polls := events ++ List.replicate (arrivals events).length .poll
    StaysInside ⟨slipdevInit dev, [], []⟩ polls ∧
      ((Line.mk (slipdevInit dev) [] []).run polls).packets =
        wholeFrames (Slip.frames (arrivals events)) ↔
    ∀ data ∈ Slip.pieces (arrivals events), data.length ≤ UIP_BUFSIZE := by
  intro polls
  have hinit := tracks_init dev hslip huip
  have hinside := hinit.staysInside_drained (Nat.zero_le _) events
  rw [run_packets hinit, Slip.contents_start, ← Slip.all_start, hinside]
  refine and_iff_left_of_imp fun hwithin => deliveries_of_le fun data hdata => ?_
  rw [← Slip.contents_start] at hdata
  exact (Slip.within_iff.mp hwithin).1 data hdata

theorem slipdev_whole_frames_iff_escapes :
    let events : List LineEvent := [.arrive [7, 0xDB], .poll, .arrive [0xDC, 0xC0, 0xC0]]
    let polls := events ++ List.replicate (arrivals events).length .poll
    let dev := slipdevInit ⟨List.replicate 1500 0, 0, 0, List.replicate 1502 0⟩
    StaysInside ⟨dev, [], []⟩ polls ∧ ((Line.mk dev [] []).run polls).packets = [[7, 0xC0]] := by
  intro events polls dev
  have hpieces : ∀ data ∈ Slip.pieces (arrivals events), data.length ≤ UIP_BUFSIZE := by decide
  exact (slipdev_whole_frames_iff List.length_replicate (by rw [List.length_replicate]; decide)
    events).mpr hpieces

/-- The last byte of a frame of 1502 is delivered as a packet, after a store outside
the buffer. -/
theorem slipdev_delivers_tail :
    let events : List LineEvent := [.arrive (Slip.frame (List.replicate 1502 0))]
    let polls := events ++ List.replicate (arrivals events).length .poll
    let dev := slipdevInit ⟨List.replicate 1500 0, 0, 0, List.replicate 1502 0⟩
    ((Line.mk dev [] []).run polls).packets = [[0]] ∧
      wholeFrames (Slip.frames (arrivals events)) = [] ∧
      ¬ StaysInside ⟨dev, [], []⟩ polls := by
  intro events polls dev
  have hstart :=
    tracks_init ⟨List.replicate 1500 0, 0, 0, List.replicate 1502 0⟩ List.length_replicate
    (Nat.le_of_lt (by rw [List.length_replicate]; decide))
  have hcontents : Slip.Receiving.start.contents (arrivals events) =
      [[], List.replicate 1502 0] := by
    simp only [events, arrivals_arrive, arrivals_nil, List.append_nil]
    exact Slip.after_frame.2
  have hlong : ¬ (List.replicate 1502 (0 : UInt8)).length ≤ UIP_BUFSIZE := by
    rw [List.length_replicate]
    decide
  refine ⟨?_, ?_, ?_⟩
  · rw [run_packets hstart, hcontents, deliveries_cons, deliveries_cons, delivered_replicate,
      delivered_of_le (Nat.zero_le _)]
    rfl
  · rw [← Slip.contents_start, hcontents, wholeFrames, List.filter_cons_of_neg (by decide),
      List.filter_cons_of_neg fun hwhole => hlong (of_decide_eq_true hwhole).2, List.filter_nil]
  · rw [hstart.staysInside_drained (Nat.zero_le _), Slip.within_iff, hcontents]
    exact fun hwithin => hlong (hwithin.1 _ (List.mem_cons_of_mem _ List.mem_cons_self))

end FxIP
