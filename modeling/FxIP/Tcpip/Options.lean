import FxIP.Lib.Cycle
import FxIP.Tcpip.Receiving

/-!
# The options of a SYN

The MSS is found behind any other options. An option that is too long can lead
back to an earlier one, since its place is kept in a byte; then the loop over the
options, and `uip_process` with it, runs for ever.
-/

namespace FxIP.Tcpip

open Comp

variable {data rest : List UInt8} {bound p : Nat} {os : List TcpOption} {s : Stack} {n : Next}

-- ---------------------------------------------------------------------------
-- Options
-- ---------------------------------------------------------------------------

inductive TcpOption
  | noop
  | mss (value : UInt16)
  | other (kind : UInt8) (body : List UInt8)
  deriving Repr, DecidableEq

def TcpOption.bytes : TcpOption → List UInt8
  | .noop => [TCP_OPT_NOOP]
  | .mss value => [TCP_OPT_MSS, TCP_OPT_MSS_LEN, wordHi value, wordLo value]
  | .other kind body => kind :: UInt8.ofNat (body.length + 2) :: body

def TcpOption.Ok : TcpOption → Prop
  | .other kind body => kind ≠ TCP_OPT_END ∧ kind ≠ TCP_OPT_NOOP ∧
      (kind = TCP_OPT_MSS → body.length ≠ 2)
  | _ => True

def mssOf : List TcpOption → Option UInt16
  | [] => none
  | .mss value :: _ => some value
  | .noop :: os | .other _ _ :: os => mssOf os

def EndsOptions (rest : List UInt8) : Prop := rest = [] ∨ rest.head? = some TCP_OPT_END

-- ---------------------------------------------------------------------------
-- A round of the loop
-- ---------------------------------------------------------------------------

theorem getD_prefix {l : List UInt8} {k : Nat} {b : UInt8} (h : l <+: data.drop p)
    (hk : l[k]? = some b) :
    data.getD (k + p) 0 = b := by
  obtain ⟨more, hmore⟩ := h
  obtain ⟨hlt, -⟩ := List.getElem?_eq_some_iff.mp hk
  rw [List.getD_eq_getElem?_getD, Nat.add_comm, ← List.getElem?_drop, ← hmore,
    List.getElem?_append_left hlt, hk, Option.getD_some]

theorem getD_first {l : List UInt8} {b : UInt8} (h : l <+: data.drop p) (hk : l.head? = some b) :
    data.getD p 0 = b := by
  have hfirst := getD_prefix (k := 0) h (List.head?_eq_getElem? ▸ hk)
  rwa [Nat.zero_add] at hfirst

theorem toNat_place (hp : p < 256) : (UInt8.ofNat p).toNat = p := by
  rw [UInt8.toNat_ofNat', Nat.mod_eq_of_lt hp]

theorem round_end (h : rest <+: data.drop p) (hend : EndsOptions rest)
    (hlen : p + rest.length = bound)
    (hbound : bound < 256) : optionsRound data bound (UInt8.ofNat p) = .inr none := by
  rw [optionsRound, toNat_place (by omega)]
  dsimp only
  rcases hend with rfl | hhead
  · rw [if_neg (by rw [List.length_nil] at hlen; omega)]
  · have hpos : 0 < rest.length := List.length_pos_of_ne_nil fun hnil => by
      rw [hnil] at hhead
      cases hhead
    rw [if_pos (by omega), getD_first h hhead, if_pos rfl]

theorem round_noop (h : TcpOption.noop.bytes ++ rest <+: data.drop p)
    (hlen : p + (TcpOption.noop.bytes ++ rest).length = bound) (hbound : bound < 256) :
    optionsRound data bound (UInt8.ofNat p) = .inl (UInt8.ofNat (p + 1)) := by
  have hopt : data.getD p 0 = TCP_OPT_NOOP := getD_first h rfl
  rw [List.length_append, TcpOption.bytes, List.length_singleton] at hlen
  rw [optionsRound, toNat_place (by omega)]
  dsimp only
  rw [if_pos (by omega), hopt, if_neg (by decide), if_pos rfl, UInt8.ofNat_add]
  rfl

theorem round_mss {value : UInt16} (h : (TcpOption.mss value).bytes ++ rest <+: data.drop p)
    (hlen : p + ((TcpOption.mss value).bytes ++ rest).length = bound) (hbound : bound < 256) :
    optionsRound data bound (UInt8.ofNat p) = .inr (some value) := by
  have hopt : data.getD p 0 = TCP_OPT_MSS := getD_first h rfl
  have hsize : data.getD (1 + p) 0 = TCP_OPT_MSS_LEN := getD_prefix h rfl
  have hhi : data.getD (2 + p) 0 = wordHi value := getD_prefix h rfl
  have hlo : data.getD (3 + p) 0 = wordLo value := getD_prefix h rfl
  rw [List.length_append, show (TcpOption.mss value).bytes.length = 4 from rfl] at hlen
  rw [optionsRound, toNat_place (by omega)]
  dsimp only
  simp only [hopt, hsize, hhi, hlo]
  rw [if_pos (by omega), if_neg (by decide), if_neg (by decide),
    if_pos ⟨trivial, trivial⟩, word_wordHi_wordLo]

theorem round_other {kind : UInt8} {body : List UInt8} (hok : (TcpOption.other kind body).Ok)
    (h : (TcpOption.other kind body).bytes ++ rest <+: data.drop p)
    (hlen : p + ((TcpOption.other kind body).bytes ++ rest).length = bound) (hbound : bound < 256) :
    optionsRound data bound (UInt8.ofNat p) = .inl (UInt8.ofNat (p + (body.length + 2))) := by
  obtain ⟨hend, hnoop, hmss⟩ := hok
  have hopt : data.getD p 0 = kind := getD_first h rfl
  have hsize : data.getD (1 + p) 0 = UInt8.ofNat (body.length + 2) := getD_prefix h rfl
  have hbytes : (TcpOption.other kind body).bytes.length = body.length + 2 := rfl
  rw [List.length_append, hbytes] at hlen
  have hnat : (UInt8.ofNat (body.length + 2)).toNat = body.length + 2 := toNat_place (by omega)
  have hzero : UInt8.ofNat (body.length + 2) ≠ 0 := fun hz => by
    rw [hz] at hnat
    cases hnat
  have hfour : ¬ (kind = TCP_OPT_MSS ∧ UInt8.ofNat (body.length + 2) = TCP_OPT_MSS_LEN) := by
    rintro ⟨hkind, hsize⟩
    rw [hsize] at hnat
    exact hmss hkind (Nat.add_right_cancel hnat.symm)
  rw [optionsRound, toNat_place (by omega)]
  dsimp only
  simp only [hopt, hsize]
  rw [if_pos (by omega), if_neg hend, if_neg hnoop, if_neg hfour, if_neg hzero, ← UInt8.ofNat_add]

-- ---------------------------------------------------------------------------
-- The loop
-- ---------------------------------------------------------------------------

theorem optionsLoop_returns (hok : ∀ o ∈ os, o.Ok) (hend : EndsOptions rest)
    (h : os.flatMap TcpOption.bytes ++ rest <+: data.drop p)
    (hlen : p + (os.flatMap TcpOption.bytes ++ rest).length = bound) (hbound : bound < 256) :
    (loop (fun c => pure (optionsRound data bound c)) (UInt8.ofNat p)).Returns (mssOf os) := by
  induction os generalizing p with
  | nil => exact Returns.loop_exit (returns_pure.mpr (round_end h hend hlen hbound))
  | cons o os ih =>
    have hos : ∀ o ∈ os, o.Ok := fun o ho => hok o (List.mem_cons_of_mem _ ho)
    rw [List.flatMap_cons, List.append_assoc] at h hlen
    have hnext : os.flatMap TcpOption.bytes ++ rest <+: data.drop (p + o.bytes.length) := by
      have hdrop := h.drop o.bytes.length
      rwa [List.drop_left, List.drop_drop] at hdrop
    have hlen' : p + o.bytes.length + (os.flatMap TcpOption.bytes ++ rest).length = bound := by
      rw [Nat.add_assoc, ← List.length_append]
      exact hlen
    cases o with
    | noop => exact Returns.loop_again (returns_pure.mpr (round_noop h hlen hbound)) (ih hos
        hnext hlen')
    | mss value => exact Returns.loop_exit (returns_pure.mpr (round_mss h hlen hbound))
    | other kind body =>
      have hround := round_other (hok _ List.mem_cons_self) h hlen hbound
      exact Returns.loop_again (returns_pure.mpr hround) (ih hos hnext hlen')

def TcpipHdr.optionsLen (h : TcpipHdr) : Nat := ((h.tcpoffset.toNat >>> 4) - 5) <<< 2

theorem optionsLen_le (h : TcpipHdr) : h.optionsLen ≤ 40 := by
  have hlt := h.tcpoffset.toNat_lt
  rw [TcpipHdr.optionsLen, Nat.shiftLeft_eq, Nat.shiftRight_eq_div_pow]
  omega

theorem options_iff (tcpoffset : UInt8) : tcpoffset &&& 0xf0 > 0x50 ↔
    5 < tcpoffset.toNat >>> 4 := by
  obtain ⟨offset⟩ := tcpoffset
  revert offset
  decide +kernel

theorem mssOf_nil (h : os.flatMap TcpOption.bytes = []) : mssOf os = none := by
  cases os with
  | nil => rfl
  | cons o os =>
    rw [List.flatMap_cons, List.append_eq_nil_iff] at h
    cases o <;> cases h.1

/-- However many other options there are, and whatever comes after the last one,
the MSS of the first MSS option is taken. -/
theorem parseOptions_mss {b : UipBuf} (hok : ∀ o ∈ os, o.Ok) (hend : EndsOptions rest)
    (h : os.flatMap TcpOption.bytes ++ rest <+: b.data.cells)
    (hlen : (os.flatMap TcpOption.bytes ++ rest).length = b.hdr.optionsLen) :
    (parseOptions b).Returns (mssOf os) := by
  have hle := optionsLen_le b.hdr
  rw [parseOptions]
  split
  · refine optionsLoop_returns (p := 0) hok hend h ?_ ?_
    · rw [Nat.zero_add]
      exact hlen
    · exact Nat.lt_of_le_of_lt hle (by decide)
  · rename_i hoffset
    rw [gt_iff_lt, ← gt_iff_lt, options_iff] at hoffset
    have hzero : b.hdr.optionsLen = 0 := by
      rw [TcpipHdr.optionsLen, Nat.sub_eq_zero_of_le (Nat.le_of_not_lt hoffset), Nat.zero_shiftLeft]
    rw [hzero, List.length_eq_zero_iff, List.append_eq_nil_iff] at hlen
    exact returns_pure.mpr (mssOf_nil hlen.1).symm

/-- An MSS behind another option. -/
theorem parseOptions_mss_third : ∃ b : UipBuf, b.data.cells.take 8 = [1, 3, 3, 7, 2, 4, 2, 24] ∧
    (parseOptions b).Returns (some 536) := by
  refine ⟨⟨{ TcpipHdr.zero with tcpoffset := 0x70 }, (Buffer.fill _ 0).write
    [1, 3, 3, 7, 2, 4, 2, 24]⟩, by decide +kernel, ?_⟩
  have hok : ∀ o ∈ [TcpOption.noop, .other 3 [7], .mss 536], o.Ok := by
    simp [TcpOption.Ok]
    decide
  exact parseOptions_mss hok (.inl rfl) (by decide +kernel) (by decide)

-- ---------------------------------------------------------------------------
-- The loop that never ends
-- ---------------------------------------------------------------------------

theorem finite_byte : Finite UInt8 := Finite.of_injective UInt8.toFin fun _ _ h =>
    UInt8.toFin_inj.mp h

def OptionsCycle (b : UipBuf) : Prop :=
  b.hdr.tcpoffset &&& 0xf0 > 0x50 ∧ Cycles (optionsRound b.data.cells b.hdr.optionsLen) 0

theorem optionsCycle_noop {b : UipBuf} {kind : UInt8} (hoffset : b.hdr.tcpoffset &&& 0xf0 > 0x50)
    (hend : kind ≠ TCP_OPT_END) (hnoop : kind ≠ TCP_OPT_NOOP)
    (h : [TCP_OPT_NOOP, kind, 255] <+: b.data.cells) :
    OptionsCycle b := by
  obtain ⟨more, hmore⟩ := h
  have hlen : 1 < b.hdr.optionsLen := by
    have hwords := (options_iff b.hdr.tcpoffset).mp hoffset
    rw [TcpipHdr.optionsLen, Nat.shiftLeft_eq]
    omega
  have hbyte0 : b.data.cells.getD 0 0 = TCP_OPT_NOOP := by rw [← hmore]; rfl
  have hbyte1 : b.data.cells.getD 1 0 = kind := by rw [← hmore]; rfl
  have hbyte2 : b.data.cells.getD 2 0 = 255 := by rw [← hmore]; rfl
  have hfirst : Goes (optionsRound b.data.cells b.hdr.optionsLen) 0 1 := by
    rw [Goes, optionsRound, UInt8.toNat_zero]
    dsimp only
    rw [if_pos (Nat.lt_of_succ_lt hlen), hbyte0, if_neg (by decide), if_pos rfl]
    rfl
  have hsecond : Goes (optionsRound b.data.cells b.hdr.optionsLen) 1 0 := by
    have hmss : ¬ (kind = TCP_OPT_MSS ∧ (255 : UInt8) = TCP_OPT_MSS_LEN) := by
      rintro ⟨-, hmss⟩
      exact absurd hmss (by decide)
    rw [Goes, optionsRound, UInt8.toNat_one]
    dsimp only
    simp only [if_pos hlen, hbyte1, hbyte2, Nat.reduceAdd]
    rw [if_neg hend, if_neg hnoop, if_neg hmss, if_neg (by decide)]
    rfl
  exact ⟨hoffset, 0, .refl, .tail (.single hfirst) hsecond⟩

theorem parseOptions_diverges (b : UipBuf) : (parseOptions b).Diverges ↔ OptionsCycle b := by
  have := finite_byte
  rw [parseOptions]
  by_cases hoffset : b.hdr.tcpoffset &&& 0xf0 > 0x50
  · rw [if_pos hoffset]
    exact diverges_iff_cycles.trans (and_iff_right hoffset).symm
  · rw [if_neg hoffset]
    exact ⟨fun h => (not_diverges_pure h).elim, fun h => absurd h.1 hoffset⟩

theorem foundListen_diverges (s : Stack) :
    (uipFoundListen s).Diverges ↔ s.unused ≠ none ∧ (parseOptions s.buf).Diverges := by
  rw [uipFoundListen]
  cases s.unused with
  | none => exact ⟨fun h => (not_diverges_pure h).elim, fun h => absurd rfl h.1⟩
  | some i =>
    rw [and_iff_right (Option.some_ne_none i)]
    exact diverges_bind fun mss => ⟨_, returns_pure.mpr rfl⟩

theorem synSent_diverges (s : Stack) : (uipSynSent s).Diverges ↔
    (s.flags.acked ∧ s.buf.hdr.flags &&& TCP_CTL = TCP_SYN ||| TCP_ACK) ∧
    (parseOptions s.buf).Diverges := by
  rw [uipSynSent]
  split
  · rename_i hsynack
    rw [and_iff_right hsynack]
    exact diverges_bind fun mss => ⟨_, returns_pure.mpr rfl⟩
  · rename_i hsynack
    exact ⟨fun h => (not_diverges_pure h).elim, fun h => absurd h.1 hsynack⟩

theorem switch_diverges (s : Stack) :
    (uipSwitch s).Diverges ↔ s.cur.state = .synSent ∧ (uipSynSent s).Diverges := by
  rw [uipSwitch, UipConn.state]
  split <;> rename_i hst <;> rw [hst]
  case h_2 => simp
  all_goals exact ⟨fun h => (not_diverges_pure h).elim, fun h => by cases h.1⟩

theorem uipAcks_spec (hflags : s.flags = {}) :
    (uipAcks s).buf = s.buf ∧ (uipAcks s).cur.state = s.cur.state ∧
    (uipAcks s).flags.acked = s.cur.acks s.buf.hdr := by
  rw [uipAcks]
  split
  · rename_i hacks
    have hcur : ({ s.setConn s.cur.acked with flags := { acked := true } } : Stack).cur =
        s.cur.acked :=
      Function.update_self ..
    rw [hcur, (state_acked s.cur).1, hacks]
    exact ⟨rfl, rfl, rfl⟩
  · rename_i hacks
    rw [hflags, Bool.eq_false_iff.mpr hacks]
    exact ⟨rfl, rfl, rfl⟩

/-- The segment is the SYNACK that the connection waits for. -/
structure UipConn.Answers (c : UipConn) (hdr : TcpipHdr) : Prop where
  rst : ¬ hdr.has TCP_RST
  state : c.state = .synSent
  acks : c.acks hdr
  flags : hdr.flags &&& TCP_CTL = TCP_SYN ||| TCP_ACK

theorem found_diverges (s : Stack) (i : Fin UIP_CONNS) :
    (uipFound s i).Diverges ↔ (s.conns i).Answers s.buf.hdr ∧ (parseOptions s.buf).Diverges := by
  rw [uipFound]
  dsimp only
  split
  · rename_i hrst
    exact ⟨fun h => (not_diverges_pure h).elim, fun h => absurd hrst h.1.rst⟩
  · rename_i hrst
    let t : Stack := { s with conn := i, flags := {}, len := s.dataLen }
    show (if t.cur.unexpected t.buf.hdr t.len then pure (.done (tcpSendAck t))
      else uipSwitch (uipAcks t)).Diverges ↔ _
    obtain ⟨hbuf, hstate, hacked⟩ := uipAcks_spec (s := t) rfl
    split
    · rename_i hunexpected
      refine ⟨fun h => (not_diverges_pure h).elim, ?_⟩
      rintro ⟨⟨-, hst, -, hsynack⟩, -⟩
      have hst : t.cur.tcpstateflags.state = .synSent := hst
      have hsynack : t.buf.hdr.flags &&& TCP_CTL = TCP_SYN ||| TCP_ACK := hsynack
      simp [UipConn.unexpected, hst, hsynack] at hunexpected
    · rw [switch_diverges, synSent_diverges, hbuf, hstate, hacked]
      constructor
      · rintro ⟨hst, ⟨hacks, hsynack⟩, hparse⟩
        exact ⟨⟨hrst, hst, hacks, hsynack⟩, hparse⟩
      · rintro ⟨hanswers, hparse⟩
        exact ⟨hanswers.state, ⟨hanswers.acks, hanswers.flags⟩, hparse⟩

-- ---------------------------------------------------------------------------
-- A packet
-- ---------------------------------------------------------------------------

/-- The options of the packet are looked at: it is a SYN that is listened to, or
the SYNACK of a connection. -/
inductive LooksAtOptions (s : Stack) : Prop
  | listen : s.demultiplex = none → s.buf.hdr.flags &&& TCP_CTL = TCP_SYN →
      (∃ c, s.buf.hdr.destport = s.listenports c) → s.unused ≠ none → LooksAtOptions s
  | synack {i : Fin UIP_CONNS} : s.demultiplex = some i → (s.conns i).Answers s.buf.hdr →
      LooksAtOptions s

theorem tcpInput_diverges (s : Stack) : (tcpInput s).Diverges ↔
    uipTcpchksum s = 0xffff ∧ LooksAtOptions s ∧ (parseOptions s.buf).Diverges := by
  rw [tcpInput]
  split
  · rename_i hchk
    exact ⟨fun h => (not_diverges_pure h).elim, fun h => absurd h.1 hchk⟩
  · rename_i hchk
    rw [and_iff_right (Decidable.not_not.mp hchk)]
    split
    · rename_i i hi
      rw [found_diverges]
      refine and_congr_left' ⟨.synack hi, fun hlooks => ?_⟩
      cases hlooks with
      | listen hnone => cases hi.symm.trans hnone
      | synack hj hanswers =>
        obtain rfl := Option.some.inj (hi.symm.trans hj)
        exact hanswers
    · rename_i hnone
      have hlisten : LooksAtOptions s ↔ s.buf.hdr.flags &&& TCP_CTL = TCP_SYN ∧
          (∃ c, s.buf.hdr.destport = s.listenports c) ∧ s.unused ≠ none := by
        constructor
        · intro hlooks
          cases hlooks with
          | listen _ hsyn hport hunused => exact ⟨hsyn, hport, hunused⟩
          | synack hi => cases hnone.symm.trans hi
        · rintro ⟨hsyn, hport, hunused⟩
          exact .listen hnone hsyn hport hunused
      rw [hlisten]
      split
      · rename_i hsyn
        exact ⟨fun h => (not_diverges_pure h).elim, fun h => absurd h.1.1 hsyn⟩
      · rename_i hsyn
        split
        · rename_i hport
          rw [foundListen_diverges, and_iff_right (Decidable.not_not.mp hsyn), and_iff_right hport]
        · rename_i hport
          exact ⟨fun h => (not_diverges_pure h).elim, fun h => absurd h.1.2.1 hport⟩

theorem uipInput_tcp (ha : Accepted s) (hp : s.buf.hdr.proto = UIP_PROTO_TCP) :
    uipInput s = tcpInput s.trimmed := by
  have hfrag : ¬ (s.buf.hdr.ipoffset.1 &&& 0x3f ≠ 0 ∨ s.buf.hdr.ipoffset.2 ≠ 0) := by
    rw [ha.ipoffset.1, ha.ipoffset.2]
    decide
  have hdest : ¬ (s.hostaddr ≠ (0, 0) ∧ s.buf.hdr.destipaddr ≠ s.hostaddr) :=
    fun h => h.2 (ha.destipaddr h.1)
  rw [uipInput]
  dsimp only
  rw [if_neg fun h => h ha.vhl, if_neg (UInt16.not_lt.mpr ha.len), if_neg hfrag, if_neg hdest,
    if_neg fun h => h ha.ipchksum, if_pos hp]
  rfl

theorem uipInput_other (h : ¬ (Accepted s ∧ s.buf.hdr.proto = UIP_PROTO_TCP)) :
    ∃ n, uipInput s = pure n := by
  rw [uipInput]
  dsimp only
  split
  · exact ⟨_, rfl⟩
  rename_i hvhl
  split
  · exact ⟨_, rfl⟩
  rename_i hlen
  split
  · exact ⟨_, rfl⟩
  rename_i hfrag
  split
  · exact ⟨_, rfl⟩
  rename_i hdest
  split
  · exact ⟨_, rfl⟩
  rename_i hchk
  split
  · rename_i hp
    refine absurd ⟨?_, hp⟩ h
    obtain ⟨hfirst, hsecond⟩ := not_or.mp hfrag
    exact {
      vhl := Decidable.not_not.mp hvhl
      len := UInt16.not_lt.mp hlen
      ipoffset := ⟨Decidable.not_not.mp hfirst, Decidable.not_not.mp hsecond⟩
      destipaddr := fun hne => Decidable.not_not.mp fun hd => hdest ⟨hne, hd⟩
      ipchksum := Decidable.not_not.mp hchk }
  split
  · exact ⟨_, rfl⟩
  · exact ⟨_, rfl⟩

/-- A SYN for port 6667 with a no-op and an option of length 255. -/
def cyclicSyn : List UInt8 :=
  [69, 0, 0, 44, 0, 1, 0, 0, 64, 6, 82, 180, 10, 10, 10, 2, 10, 10, 10, 2, 124, 255, 26, 11, 1, 2,
    3, 255, 0, 0, 0, 0, 96, 2, 5, 180, 214, 3, 0, 0, 1, 3, 255, 0]

end FxIP.Tcpip
