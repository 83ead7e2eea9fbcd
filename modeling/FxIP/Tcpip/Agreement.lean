import FxIP.Tcpip.Written

/-!
# From one application to the other

The segments of a connection, in any order and any number of times, are enough
for the other side to give its application the bytes that were written.
-/

namespace FxIP.Tcpip

variable {h h' : Host} {s t : Stack} {e : Event} {es : List Event} {i j : Fin UIP_CONNS}
    {d d' : Sent}
variable {first : BitVec 32} {written written' p data : List UInt8}

-- ---------------------------------------------------------------------------
-- A packet, sent and received
-- ---------------------------------------------------------------------------

theorem take_receive (b : UipBuf) (hlen : p.length ≤ UIP_BUF_SIZE) :
    (b.receive p).bytes.take p.length = p := by
  rw [bytes_receive]
  refine Circular.take_overwrite_zero b.bytes p ?_
  rwa [length_bytes]

theorem receive_packet (b : UipBuf) (s : Stack) (hlen : 40 ≤ s.len.toNat)
    (hmax : s.len.toNat ≤ UIP_BUF_SIZE) :
    (b.receive s.packet).hdr = s.buf.hdr ∧
      (b.receive s.packet).data.cells.take (s.len.toNat - 40) = s.buf.data.cells.take
      (s.len.toNat - 40) := by
  have hsize := Stack.length_packet hmax
  have htake := take_receive b (p := s.packet) (by rwa [hsize])
  rw [hsize] at htake
  have hdata (c : UipBuf) : c.data.cells.take (s.len.toNat - 40) =
      (c.bytes.take s.len.toNat).drop 40 := by
    rw [List.drop_take]
    rfl
  constructor
  · rw [← hdr_ofBytes_bytes s.buf, UipBuf.receive]
    apply hdr_ofBytes
    have h40 := congrArg (List.take 40) htake
    rw [List.take_take, Nat.min_eq_left hlen, bytes_receive, Stack.packet, List.take_take,
      Nat.min_eq_left hlen] at h40
    exact h40
  · rw [hdata, hdata, htake, Stack.packet]

/-- Whoever receives the packet finds a part of the bytes written at the place that
its number says, or no data. -/
def Carries (first : BitVec 32) (written p : List UInt8) : Prop :=
  ∀ b : UipBuf, let r := b.receive p
    r.hdr.headersLen ≤ r.hdr.totalLen ∧ ¬ r.hdr.has TCP_URG ∧
      ∃ k, r.hdr.seqno.num = Stream.number first k ∧
      (r.hdr.headersLen < r.hdr.totalLen → r.hdr.headersLen = 40 ∧
        r.data.cells.take (r.hdr.totalLen - 40) <+: written.drop k)

theorem Carries.mono (h : Carries first written p) (hle : written <+: written') :
    Carries first written' p := by
  intro b
  obtain ⟨hheaders, hurg, k, hnum, hdata⟩ := h b
  exact ⟨hheaders, hurg, k, hnum, fun hlt => ⟨(hdata hlt).1, (hdata hlt).2.trans (hle.drop k)⟩⟩

theorem carries_segment {k : Nat} (hseg : Segment i s data)
    (hnum : s.buf.hdr.seqno.num = Stream.number first k)
    (hdata : data <+: written.drop k) : Carries first written s.packet := by
  intro b
  have hlen := hseg.len
  obtain ⟨hlow, hhigh⟩ := hseg.headers
  have hmax : s.len.toNat ≤ UIP_BUF_SIZE := by
    by_cases hne : data = []
    · rw [hlen, hne, UIP_BUF_SIZE, List.length_nil]
      omega
    · obtain ⟨h40, htake⟩ := hseg.data hne
      have hle := congrArg List.length htake
      rw [List.length_take, s.buf.data.size, UIP_DATA_SIZE] at hle
      rw [hlen, h40, UIP_BUF_SIZE]
      omega
  obtain ⟨hhdr, hcells⟩ := receive_packet b s (by omega) hmax
  simp only [hhdr]
  refine ⟨?_, hseg.urg, k, hnum, fun hlt => ?_⟩
  · rw [hseg.total, hlen]
    exact Nat.le_add_right ..
  · rw [hseg.total, hlen] at hlt
    have hne : data ≠ [] := List.ne_nil_of_length_pos (Nat.lt_add_right_iff_pos.mp hlt)
    obtain ⟨h40, htake⟩ := hseg.data hne
    refine ⟨h40, ?_⟩
    rw [hseg.total, hcells, hlen, h40, Nat.add_sub_cancel_left, htake]
    exact hdata

-- ---------------------------------------------------------------------------
-- The packets of a run
-- ---------------------------------------------------------------------------

/-- The system, the stream and its packets, as one invariant. -/
structure Sent.Sound (i : Fin UIP_CONNS) (d : Sent) : Prop where
  host : d.host.Ok
  refusing : Refusing d.host
  ok : d.Ok i
  packets : ∀ p ∈ d.sent, Carries d.first d.written p

/-- A packet that is taken for a segment of an open connection has the number of
the first byte that is not acknowledged, and no data or all from there on. -/
theorem segment_written (hs : d.Sound i) (hrepeats : AppRepeats i d e) (hstep : SentStep i d e d')
    (he : e.emits)
    (hdone : d'.host.calling = none) (hest : (d'.host.stack.conns i).state = .established)
    (htaken : Taken i d'.host.stack) :
    Segment i d'.host.stack [] ∨ Segment i d'.host.stack (d'.written.drop (d'.place i)) := by
  rcases segment_step hs.host hs.refusing hstep.1 he hdone hest htaken with
    hseg | ⟨s, a, r, hhost, hi, hr, rfl, hhost', hpos, hlen, hseg⟩
  · exact .inl hseg
  · refine .inr ?_
    have hmss := (hs.host.bounded s.conn).mss
    rw [hhost] at hmss
    rw [data_return hhost hi hr hrepeats hpos hmss hhost' hest hlen, ← hstep.2] at hseg
    exact hseg

theorem carries_step (hs : d.Sound i) (hok' : d'.Ok i) (hrepeats : AppRepeats i d e)
    (hstep : SentStep i d e d') :
    ∀ p ∈ d'.sent, Carries d'.first d'.written p := by
  by_cases hest : (d'.host.stack.conns i).state = .established
  · by_cases hst : (d.host.stack.conns i).state = .established
    · have hnext := hstep.2.trans (next_established hst hest)
      intro p hp
      have hfirst : d'.first = d.first := by rw [hnext]
      have hwritten : d.written <+: d'.written := by
        rw [hnext]
        exact List.prefix_append ..
      rw [hnext] at hp
      rcases List.mem_append.mp hp with hp | hp
      · rw [hfirst]
        exact (hs.packets p hp).mono hwritten
      · rw [Host.transmits] at hp
        split at hp
        · rename_i hcond
          obtain ⟨he, hdone, htaken⟩ := hcond
          rw [List.mem_singleton.mp hp]
          have hnum {data : List UInt8} (hseg : Segment i d'.host.stack data) :
              d'.host.stack.buf.hdr.seqno.num = Stream.number d'.first (d'.place i) := by
            rw [hseg.seqno]
            exact hok'.sndNxt hest
          rcases segment_written hs hrepeats hstep he hdone hest htaken with hseg | hseg
          · exact carries_segment hseg (hnum hseg) List.nil_prefix
          · exact carries_segment hseg (hnum hseg) List.prefix_rfl
        · cases hp
    · rw [hstep.2, Sent.next, if_pos ⟨hst, hest⟩]
      exact fun p hp => by cases hp
  · rw [hstep.2, next_closed hest]
    exact hs.packets

theorem sound_sentStep (hs : d.Sound i) (hrepeats : AppRepeats i d e) (hstep : SentStep i d e d') :
    d'.Sound i := by
  have hok' := sent_step hs.host.bounded hs.ok hrepeats hstep
  exact ⟨ok_change (change_step hstep.1) hs.host, refusing_step hstep.1 hs.refusing, hok',
    carries_step hs hok' hrepeats hstep⟩

theorem sound_sentRun (hr : Run (Run.Guarded (AppRepeats i) (SentStep i))
    ⟨networkInit behind iss lastport, first, [], []⟩ es d) : d.Sound i := by
  refine hr.guarded_invariant (Sent.Sound i) ⟨ok_networkInit .., fun h => (by cases h), ?_,
    fun _ h => by cases h⟩
    fun _ _ _ hrepeats hstep hs => sound_sentStep hs hrepeats hstep
  exact ⟨fun h => (by cases h), fun h => (by cases h), fun h => (by cases h)⟩

/-- In every run with an application that repeats its data, every packet that was
ever sent for a connection carries a part of what was written, at its place. -/
theorem packets_written (hr : Run (Run.Guarded (AppRepeats i) (SentStep i))
    ⟨networkInit behind iss lastport, first, [], []⟩ es d) :
    ∀ p ∈ d.sent, Carries d.first d.written p :=
  (sound_sentRun hr).packets

-- ---------------------------------------------------------------------------
-- Two hosts
-- ---------------------------------------------------------------------------

/-- While data is still to come, what arrives for connection `j` are packets that
the other side has sent, any of them at any time; and both count from the same
number. -/
def FromSent (d : Sent) (j : Fin UIP_CONNS) (r : Delivery) : Event → Prop
  | .receive frame => Reading (r.host.stack.conns j).state →
      (r.host.stack.conns j).Matches (r.host.stack.buf.receive frame).hdr → frame ∈ d.sent ∧
        r.start = d.first
  | _ => True

variable {r r' : Delivery}

theorem fromPeer_of_sent (hcarries : ∀ p ∈ d.sent, Carries d.first d.written p)
    (hshort : d.written.length < 2 ^ 32)
    (hok : r.Ok d.written j) (hsent : FromSent d j r e) : FromPeer d.written j r e := by
  cases e with
  | receive frame =>
    intro hread hmatches
    obtain ⟨hmem, hstart⟩ := hsent hread hmatches
    obtain ⟨hheaders, hurg, k, hnum, hdata⟩ := hcarries frame hmem r.host.stack.buf
    refine ⟨hheaders, hurg, fun hlt => ?_⟩
    obtain ⟨h40, hprefix⟩ := hdata hlt
    refine ⟨h40, Stream.segment_of_lt hshort hok.first.length_le (hstart ▸ hnum) hprefix ?_⟩
    apply List.ne_nil_of_length_pos
    rw [List.length_take, Buffer.size, UIP_DATA_SIZE]
    omega
  | _ => trivial

/-- Two hosts in any runs of their own, and a network that loses, repeats, delays
and reorders packets as it likes: what one application has been given is the first
part of what the other one has written. -/
theorem given_of_written
    (hsent : Run (Run.Guarded (AppRepeats i) (SentStep i)) ⟨networkInit behind iss lastport, first,
      [], []⟩ es d)
    (hshort : d.written.length < 2 ^ 32)
    (hreceived : Run (Run.Guarded (FromSent d j) (DeliveryStep j))
      ⟨networkInit behind' iss' lastport', start, []⟩ es' r) : r.got <+: d.written := by
  have hcarries := packets_written hsent
  have hok : r.Ok d.written j := by
    refine hreceived.guarded_invariant (Delivery.Ok d.written j)
      ⟨List.nil_prefix, fun hread => hread.elim⟩ ?_
    exact fun _ _ _ hfrom hstep hok => ok_delivery hok (fromPeer_of_sent hcarries hshort hok hfrom)
      hstep
  exact hok.first

-- ---------------------------------------------------------------------------
-- Runs by computation
-- ---------------------------------------------------------------------------

instance (s : Stack) (outstanding : List UInt8) (a : AppReturn) :
    Decidable (Repeats s outstanding a) :=
  decidable_of_iff ((a.flags.acked → s.flags.acked) ∧
      (a.slen > 0 → s.cur.len ≠ 0 → a.data.cells.take s.cur.len.toNat = outstanding))
    ⟨fun h => ⟨h.1, h.2⟩, fun h => ⟨h.acked, h.data⟩⟩

instance (i : Fin UIP_CONNS) (d : Sent) : (e : Event) → Decidable (AppRepeats i d e)
  | .appReturn a => inferInstanceAs (Decidable (d.host.stack.conn = i →
      d.host.calling = some .appsend ∨ d.host.calling = some .apprexmit →
        Repeats d.host.stack (d.written.drop (d.place i)) a))
  | .receive _ | .periodic _ | .poll _ | .connect _ _ | .listen _ | .unlisten _ | .memory _ =>
    isTrue trivial

def Sent.stepRun (n : Nat) (i : Fin UIP_CONNS) (d : Sent) (e : Event) : Option Sent :=
  (d.host.stepRun n e).map (d.next i e)

theorem sentStep_of_stepRun {n : Nat} (h : d.stepRun n i e = some d') : SentStep i d e d' := by
  obtain ⟨h', hh', rfl⟩ := Option.map_eq_some_iff.mp h
  have hhost : (d.next i e h').host = h' := by
    rw [Sent.next]
    split
    · rfl
    · split <;> rfl
  exact ⟨hhost.symm ▸ hostStep_of_stepRun hh', by rw [hhost]⟩

theorem repeats_run {n : Nat}
    (h : es.foldlM (fun d e => if AppRepeats i d e then d.stepRun n i e else none) d = some d') :
    Run (Run.Guarded (AppRepeats i) (SentStep i)) d es d' :=
  Run.guarded_of_foldlM (fun _ _ _ hstep => sentStep_of_stepRun hstep) h

/-- What arrives is one of the packets, in terms of what the other side has sent. -/
def FromPackets (first : BitVec 32) (sent : List (List UInt8)) (j : Fin UIP_CONNS) (r : Delivery) :
    Event → Prop
  | .receive frame => Reading (r.host.stack.conns j).state → frame ∈ sent ∧ r.start = first
  | _ => True

instance (first : BitVec 32) (sent : List (List UInt8)) (j : Fin UIP_CONNS) (r : Delivery) :
    (e : Event) → Decidable (FromPackets first sent j r e)
  | .receive frame => inferInstanceAs
      (Decidable (Reading (r.host.stack.conns j).state → frame ∈ sent ∧ r.start = first))
  | .periodic _ | .poll _ | .connect _ _ | .listen _ | .unlisten _ | .memory _ | .appReturn _ =>
    isTrue trivial

theorem fromSent_run {n : Nat} (h : es.foldlM (fun r e =>
      if FromPackets d.first d.sent j r e then r.stepRun n j e else none) r = some r') :
    Run (Run.Guarded (FromSent d j) (DeliveryStep j)) r es r' := by
  have hrun : Run (Run.Guarded (FromPackets d.first d.sent j) (DeliveryStep j)) r es r' :=
    Run.guarded_of_foldlM (fun _ _ _ hstep => deliveryStep_of_stepRun hstep) h
  refine hrun.mono fun t e u hstep => ⟨?_, hstep.2⟩
  cases e with
  | receive frame => exact fun hread _ => hstep.1 hread
  | _ => trivial

/-- The side that connects, and writes three bytes. -/
def writing : List Event :=
  [.connect HOSTADDR 6667, .periodic 0, .periodic 0,
    .receive [69, 0, 0, 44, 0, 1, 0, 0, 64, 6, 82, 180, 10, 10, 10, 2, 10, 10, 10, 2, 26, 11, 124,
      255, 1, 2, 3, 255, 1, 2, 4, 0, 96, 18, 5, 180, 201, 61, 0, 0, 2, 4, 5, 180],
    .appReturn { AppReturn.nothing with
      slen := 3, data := AppReturn.nothing.data.write [104, 105, 10] }]

def writtenPacket : List UInt8 :=
  [69, 0, 0, 43, 0, 2, 0, 0, 64, 6, 82, 180, 10, 10, 10, 2, 10, 10, 10, 2, 124, 255, 26, 11, 1, 2,
    4, 0, 1, 2, 4, 0, 80, 24, 5, 180, 110, 134, 0, 0, 104, 105, 10]

/-- The side that listens; the packet comes twice. -/
def listening : List Event :=
  [.listen 6667,
    .receive [69, 0, 0, 44, 0, 1, 0, 0, 64, 6, 82, 180, 10, 10, 10, 2, 10, 10, 10, 2, 124, 255, 26,
      11, 1, 2, 3, 255, 0, 0, 0, 0, 96, 2, 5, 180, 206, 79, 0, 0, 2, 4, 5, 180],
    .receive writtenPacket, .appReturn .nothing, .receive writtenPacket]

theorem given_of_written_twice : ∃ (d : Sent) (r : Delivery),
    Run (SentStep 0) ⟨openingHost, 0, [], []⟩ writing d ∧
    Run (DeliveryStep 0) ⟨openingHost, 0, []⟩ listening r ∧
    d.written = [104, 105, 10] ∧ r.got = [104, 105, 10] ∧ r.got <+: d.written := by
  have hwrites : (writing.foldlM
      (fun (d : Sent) e => if AppRepeats 0 d e then d.stepRun 9 0 e else none)
      ⟨openingHost, 0, [], []⟩).map (fun d => (d.first, d.sent, d.written)) =
      some (0x01020400#32, [writtenPacket], [104, 105, 10]) := by decide +kernel
  have hreads : (listening.foldlM (fun (r : Delivery) e =>
      if FromPackets 0x01020400#32 [writtenPacket] 0 r e then r.stepRun 9 0 e else none)
      ⟨openingHost, 0, []⟩).map (·.got) = some [104, 105, 10] := by decide +kernel
  obtain ⟨d, hd, hobserved⟩ := Option.map_eq_some_iff.mp hwrites
  obtain ⟨r, hr, hgot⟩ := Option.map_eq_some_iff.mp hreads
  simp only [Prod.mk.injEq] at hobserved
  obtain ⟨hfirst, hpackets, hwritten⟩ := hobserved
  rw [← hfirst, ← hpackets] at hr
  have hsent := repeats_run hd
  have hreceived := fromSent_run hr
  have hshort : d.written.length < 2 ^ 32 := by
    rw [hwritten]
    decide
  exact ⟨d, r, Run.of_guarded hsent, Run.of_guarded hreceived, hwritten, hgot,
    given_of_written hsent hshort hreceived⟩

end FxIP.Tcpip
