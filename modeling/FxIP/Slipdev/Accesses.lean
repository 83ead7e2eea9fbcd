import FxIP.Slipdev.Decode

/-!
# Where the decoder stores

The overflow test of `slipdev_poll` comes after the store, so a frame may fill
the buffer, and its next byte is stored behind it.
-/

namespace FxIP

variable {dev : Slipdev} {r : Slip.Receiving} {line : Line} {stream readable : List UInt8}
    {events : List LineEvent}

/-- `slip_buf[cell] = c`, and the `memcpy` of `n` bytes to `uip_buf`. -/
inductive SlipAccess
  | store (cell : Nat)
  | copy (n : Nat)
  deriving Repr, DecidableEq

def SlipAccess.Inside : SlipAccess → Prop
  | .store cell => cell < UIP_BUFSIZE
  | .copy n => n ≤ UIP_BUFSIZE

instance : (access : SlipAccess) → Decidable access.Inside
  | .store cell => inferInstanceAs (Decidable (cell < UIP_BUFSIZE))
  | .copy n => inferInstanceAs (Decidable (n ≤ UIP_BUFSIZE))

/-- The accesses of `slipdev_poll` in order. -/
def slipdevPollAccesses (dev : Slipdev) : List UInt8 → List SlipAccess
  | [] => []
  | c :: readable =>
    if c = SLIP_ESC then slipdevPollAccesses { dev with lastc := c } readable
    else if c = SLIP_END then [.copy dev.len]
    else .store dev.len ::
      slipdevPollAccesses (slipdevStore { dev with lastc := c } (slipdevUnescape dev.lastc c))
        readable

def Line.accesses (line : Line) : List LineEvent → List SlipAccess
  | [] => []
  | .arrive bytes :: events => (line.step (.arrive bytes)).accesses events
  | .poll :: events =>
    slipdevPollAccesses line.dev line.readable ++ (line.step .poll).accesses events

def StaysInside (line : Line) (events : List LineEvent) : Prop :=
  ∀ access ∈ line.accesses events, access.Inside

def SlipAccess.index : SlipAccess → Nat
  | .store cell => cell
  | .copy n => n

-- ---------------------------------------------------------------------------
-- One poll
-- ---------------------------------------------------------------------------

theorem Tracks.accesses (h : Tracks dev r) (hr : r.data.length ≤ UIP_BUFSIZE)
    (readable : List UInt8) :
    ∃ read, readable = read ++ (slipdevPoll dev readable).2.2 ∧ (readable ≠ [] → read ≠ []) ∧
      Tracks (slipdevPoll dev readable).2.1 (r.after read) ∧
      ((∀ access ∈ slipdevPollAccesses dev readable, access.Inside) ↔
        r.Within UIP_BUFSIZE read) := by
  induction readable generalizing dev r with
  | nil =>
    refine ⟨[], rfl, fun hne => absurd rfl hne, h, iff_of_true ?_ ?_⟩
    · simp [slipdevPollAccesses]
    · simpa [Slip.Receiving.Within, Slip.Receiving.all] using hr
  | cons c readable ih =>
    unfold slipdevPoll slipdevPollAccesses
    by_cases hesc : c = SLIP_ESC
    · subst hesc
      obtain ⟨read, hread, -, htracks, hiff⟩ := ih h.esc hr
      rw [if_pos rfl, if_pos rfl]
      refine ⟨SLIP_ESC :: read, by rw [List.cons_append, ← hread], by simp, htracks, ?_⟩
      rw [hiff, Slip.Receiving.Within, Slip.Receiving.Within, Slip.all_not_end (by decide)]
    · rw [if_neg hesc, if_neg hesc]
      by_cases hend : c = SLIP_END
      · subst hend
        rw [if_pos rfl, if_pos rfl]
        refine ⟨[SLIP_END], rfl, by simp, ?_, iff_of_true ?_ ?_⟩
        · exact tracks_start ⟨h.slipBuf, by simpa using h.uipBuf, Nat.zero_le _⟩ rfl
            (show SLIP_END ≠ SLIP_ESC by decide)
        · simpa [SlipAccess.Inside] using h.len
        · have hall : r.all [SLIP_END] = [r.data, []] := rfl
          simpa [Slip.Receiving.Within, hall] using hr
      · rw [if_neg hend, if_neg hend]
        have hcount : dev.len = r.data.length := by
          rw [h.count, Nat.mod_eq_of_lt (Nat.lt_succ_of_le hr)]
        have hdata : (r.next c).data.length = r.data.length + 1 := by
          rw [Slip.next_data hend hesc, List.length_append, List.length_singleton]
        have hall (read : List UInt8) : r.Within UIP_BUFSIZE (c :: read) ↔
            (r.next c).Within UIP_BUFSIZE read := by
          rw [Slip.Receiving.Within, Slip.Receiving.Within, Slip.all_not_end hend]
        by_cases hfull : r.data.length < UIP_BUFSIZE
        · obtain ⟨read, hread, -, htracks, hiff⟩ := ih (h.store hend hesc) (by omega)
          refine ⟨c :: read, by rw [List.cons_append, ← hread], by simp, htracks, ?_⟩
          rw [hall, ← hiff, List.forall_mem_cons]
          exact and_iff_right (hcount ▸ hfull)
        · -- the byte behind a full buffer
          obtain ⟨read, hread, -, htracks, -⟩ := (h.store hend hesc).poll readable
          refine ⟨c ::
            read, by rw [List.cons_append, ← hread], by simp, htracks, iff_of_false ?_ ?_⟩
          · intro hinside
            have hstore := hinside _ List.mem_cons_self
            exact hfull (hcount ▸ hstore)
          · rw [hall]
            intro hwithin
            have := hwithin.data
            omega

theorem Tracks.index_le (h : Tracks dev r) {access : SlipAccess}
    (hmem : access ∈ slipdevPollAccesses dev readable) :
    access.index ≤ UIP_BUFSIZE := by
  induction readable generalizing dev r with
  | nil => simp [slipdevPollAccesses] at hmem
  | cons c readable ih =>
    unfold slipdevPollAccesses at hmem
    by_cases hesc : c = SLIP_ESC
    · subst hesc
      rw [if_pos rfl] at hmem
      exact ih h.esc hmem
    · rw [if_neg hesc] at hmem
      by_cases hend : c = SLIP_END
      · rw [if_pos hend, List.mem_singleton] at hmem
        exact hmem ▸ h.len
      · rw [if_neg hend, List.mem_cons] at hmem
        rcases hmem with rfl | hmem
        · exact h.len
        · exact ih (h.store hend hesc) hmem

-- ---------------------------------------------------------------------------
-- Schedules
-- ---------------------------------------------------------------------------

theorem slipdevPoll_suffix (dev : Slipdev) (readable : List UInt8) :
    (slipdevPoll dev readable).2.2 <:+ readable := by
  induction readable generalizing dev with
  | nil => exact List.suffix_rfl
  | cons c readable ih =>
    unfold slipdevPoll
    by_cases hesc : c = SLIP_ESC
    · rw [if_pos hesc]
      exact (ih _).trans (List.suffix_cons ..)
    · rw [if_neg hesc]
      by_cases hend : c = SLIP_END
      · rw [if_pos hend]
        exact List.suffix_cons ..
      · rw [if_neg hend]
        exact (ih _).trans (List.suffix_cons ..)

theorem run_readable_suffix (line : Line) (events : List LineEvent) :
    (line.run events).readable <:+ line.readable ++ arrivals events := by
  induction events generalizing line with
  | nil => simp
  | cons e events ih =>
    cases e with
    | arrive bytes =>
      rw [run_cons, arrivals_arrive, ← List.append_assoc]
      exact ih (line.step (.arrive bytes))
    | poll =>
      rw [run_cons, arrivals_poll]
      refine (ih (line.step .poll)).trans ?_
      obtain ⟨read, hread⟩ := slipdevPoll_suffix line.dev line.readable
      exact ⟨read, by rw [← List.append_assoc]; exact congrArg (· ++ arrivals events) hread⟩

/-- The polls of a schedule stay inside exactly if what they read of each frame
fits. -/
theorem Tracks.staysInside_iff (line : Line) (h : Tracks line.dev r)
    (hr : r.data.length ≤ UIP_BUFSIZE) (events : List LineEvent) :
    ∃ read, line.readable ++ arrivals events = read ++ (line.run events).readable ∧
      (StaysInside line events ↔ r.Within UIP_BUFSIZE read) := by
  unfold StaysInside
  induction events generalizing line r with
  | nil =>
    refine ⟨[], by simp, iff_of_true (by simp [Line.accesses]) ?_⟩
    simpa [Slip.Receiving.Within, Slip.Receiving.all] using hr
  | cons e events ih =>
    cases e with
    | arrive bytes =>
      obtain ⟨read, hread, hiff⟩ := ih (line.step (.arrive bytes)) h hr
      refine ⟨read, ?_, hiff⟩
      rw [run_cons, ← hread, arrivals_arrive]
      exact (List.append_assoc ..).symm
    | poll =>
      obtain ⟨read, hread, -, htracks, hiff⟩ := h.accesses hr line.readable
      have haccesses : (∀ access ∈ line.accesses (.poll :: events), access.Inside) ↔
          (∀ access ∈ slipdevPollAccesses line.dev line.readable, access.Inside) ∧
            ∀ access ∈ (line.step .poll).accesses events, access.Inside := by
        simp only [Line.accesses, List.mem_append, or_imp, forall_and]
      by_cases hwithin : r.Within UIP_BUFSIZE read
      · have hafter := (Slip.within_iff.mp hwithin).2
        obtain ⟨read', hread', hiff'⟩ := ih (line.step .poll) htracks hafter
        refine ⟨read ++ read', ?_, ?_⟩
        · rw [run_cons, List.append_assoc, ← hread', arrivals_poll, ← List.append_assoc]
          exact congrArg (· ++ arrivals events) hread
        · rw [haccesses, hiff, hiff', Slip.within_append]
      · -- already outside, whatever is read later
        obtain ⟨read', hread'⟩ := run_readable_suffix (line.step .poll) events
        refine ⟨read ++ read', ?_, ?_⟩
        · rw [run_cons, List.append_assoc, hread', arrivals_poll, ← List.append_assoc]
          exact congrArg (· ++ arrivals events) hread
        · rw [haccesses, hiff, Slip.within_append]
          exact iff_of_false (fun h => hwithin h.1) (fun h => hwithin h.1)

theorem Tracks.run_index_le (line : Line) (h : Tracks line.dev r) {access : SlipAccess}
    (hmem : access ∈ line.accesses events) :
    access.index ≤ UIP_BUFSIZE := by
  induction events generalizing line r with
  | nil => simp [Line.accesses] at hmem
  | cons e events ih =>
    cases e with
    | arrive bytes => exact ih (line.step (.arrive bytes)) h hmem
    | poll =>
      rw [Line.accesses, List.mem_append] at hmem
      rcases hmem with hmem | hmem
      · exact h.index_le hmem
      · obtain ⟨read, -, -, htracks, -⟩ := (h.poll line.readable).tracks
        exact ih (line.step .poll) htracks hmem

theorem arrivals_polls (events : List LineEvent) (n : Nat) :
    arrivals (events ++ List.replicate n .poll) = arrivals events := by
  induction events with
  | nil =>
    induction n with
    | zero => rfl
    | succ n ih => exact ih
  | cons e events ih => cases e <;> simp [ih]

theorem Tracks.staysInside_drained (h : Tracks dev r) (hr : r.data.length ≤ UIP_BUFSIZE)
    (events : List LineEvent) :
    StaysInside ⟨dev, [], []⟩ (events ++ List.replicate (arrivals events).length .poll) ↔
      r.Within UIP_BUFSIZE (arrivals events) := by
  obtain ⟨read, hread, hiff⟩ := staysInside_iff ⟨dev, [], []⟩ h hr
    (events ++ List.replicate (arrivals events).length .poll)
  rw [(run_drained h events).2, List.append_nil, List.nil_append, arrivals_polls] at hread
  rw [hiff, hread]

/-- Every schedule stays inside exactly if no frame is longer than the buffer,
the one that is not complete included. -/
theorem slipdev_stays_inside_iff (hslip : dev.slipBuf.length = UIP_BUFSIZE)
    (huip : UIP_BUFSIZE ≤ dev.uipBuf.length) (stream : List UInt8) :
    (∀ events, arrivals events = stream → StaysInside ⟨slipdevInit dev, [], []⟩ events) ↔
      ∀ data ∈ Slip.pieces stream, data.length ≤ UIP_BUFSIZE := by
  have hinit := tracks_init dev hslip huip
  rw [← Slip.all_start]
  constructor
  · intro hall
    have harrive : arrivals [.arrive stream] = stream := List.append_nil _
    have hwithin := (hinit.staysInside_drained (Nat.zero_le _) [.arrive stream]).mp
      (hall _ (by rw [arrivals_polls, harrive]))
    rwa [harrive] at hwithin
  · intro hwithin events harrive
    obtain ⟨read, hread, hiff⟩ :=
      hinit.staysInside_iff ⟨slipdevInit dev, [], []⟩ (Nat.zero_le _) events
    rw [List.nil_append, harrive] at hread
    rw [hread] at hwithin
    exact hiff.mpr (Slip.within_append.mp hwithin).1

theorem slipdev_stays_inside_iff_escapes :
    (∀ events, arrivals events = [0xC0, 7, 0xDB] →
        StaysInside ⟨slipdevInit ⟨List.replicate 1500 0, 0, 0, List.replicate 1502 0⟩, [], []⟩
          events) ↔
      ∀ data ∈ Slip.pieces [0xC0, 7, 0xDB], data.length ≤ UIP_BUFSIZE :=
  slipdev_stays_inside_iff List.length_replicate (by rw [List.length_replicate]; decide) _

/-- A frame of 1501 bytes. -/
theorem slipdev_store_outside :
    let events : List LineEvent := [.arrive (Slip.frame (List.replicate 1501 0))]
    ¬ StaysInside ⟨slipdevInit ⟨List.replicate 1500 0, 0, 0, List.replicate 1502 0⟩, [], []⟩
      (events ++ List.replicate (arrivals events).length .poll) := by
  intro events
  have hinit :=
    tracks_init ⟨List.replicate 1500 0, 0, 0, List.replicate 1502 0⟩ List.length_replicate
    (Nat.le_of_lt (by rw [List.length_replicate]; decide))
  rw [hinit.staysInside_drained (Nat.zero_le _), Slip.within_iff]
  simp only [events, arrivals_arrive, arrivals_nil, List.append_nil, Slip.after_frame.2]
  rintro ⟨hle, -⟩
  have h := hle (List.replicate 1501 0) (List.mem_cons_of_mem _ List.mem_cons_self)
  rw [List.length_replicate] at h
  revert h
  decide

end FxIP
