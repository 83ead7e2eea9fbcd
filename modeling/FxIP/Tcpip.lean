import FxIP.Lib.Buffer
import FxIP.Uip

/-!
# The state of the TCP/IP stack

The globals of `uip.c`. `uip_buf` is represented as it is read through `BUF`: the
headers, and the bytes behind them. `bytes` is the memory itself, in the byte
order of the machine, which is big-endian.
-/

namespace FxIP.Tcpip

open Circular

abbrev UIP_CONNS : Nat := 10
abbrev UIP_LISTENPORTS : Nat := 10

theorem uipConns_ne_zero : UIP_CONNS ≠ 0 := by decide
instance : @NeZero Nat ⟨0⟩ UIP_CONNS := @NeZero.mk Nat ⟨0⟩ UIP_CONNS uipConns_ne_zero

def UIP_IPH_LEN : UInt16 := 20
def UIP_IPTCPH_LEN : UInt16 := 40
/-- `UIP_BUFSIZE + 2`. -/
def UIP_BUF_SIZE : Nat := 1502
/-- What of `uip_buf` is behind the headers. -/
def UIP_DATA_SIZE : Nat := 1462

-- ---------------------------------------------------------------------------
-- Words in memory
-- ---------------------------------------------------------------------------

def word (hi lo : UInt8) : UInt16 := UInt16.ofNat (hi.toNat * 256 + lo.toNat)
def wordHi (w : UInt16) : UInt8 := UInt8.ofNat (w.toNat / 256)
def wordLo (w : UInt16) : UInt8 := UInt8.ofNat (w.toNat % 256)

section
variable (hi lo : UInt8) (w : UInt16)

theorem toNat_word : (word hi lo).toNat = hi.toNat * 256 + lo.toNat := by
  have h1 := hi.toNat_lt
  have h2 := lo.toNat_lt
  exact UInt16.toNat_ofNat_of_lt' (show _ < 65536 by omega)

theorem toNat_wordHi : (wordHi w).toNat = w.toNat / 256 := by
  have h := w.toNat_lt
  exact UInt8.toNat_ofNat_of_lt' (show _ < 256 by omega)

theorem toNat_wordLo : (wordLo w).toNat = w.toNat % 256 :=
  UInt8.toNat_ofNat_of_lt' (Nat.mod_lt _ (by decide))

@[simp] theorem wordHi_word : wordHi (word hi lo) = hi := by
  have h := lo.toNat_lt
  rw [← UInt8.toNat_inj, toNat_wordHi, toNat_word]
  omega

@[simp] theorem wordLo_word : wordLo (word hi lo) = lo := by
  have h := lo.toNat_lt
  rw [← UInt8.toNat_inj, toNat_wordLo, toNat_word]
  omega

@[simp] theorem word_wordHi_wordLo : word (wordHi w) (wordLo w) = w := by
  rw [← UInt16.toNat_inj, toNat_word, toNat_wordHi, toNat_wordLo]
  omega
end

/-- An address, `u16_t[2]`. -/
abbrev Ipaddr := UInt16 × UInt16

def Ipaddr.bytes (a : Ipaddr) : List UInt8 := [wordHi a.1, wordLo a.1, wordHi a.2, wordLo a.2]

/-- A sequence number, `u8_t[4]`. -/
structure Seqno where
  b0 : UInt8
  b1 : UInt8
  b2 : UInt8
  b3 : UInt8
  deriving Repr, DecidableEq

def Seqno.bytes (n : Seqno) : List UInt8 := [n.b0, n.b1, n.b2, n.b3]

-- ---------------------------------------------------------------------------
-- The packet buffer
-- ---------------------------------------------------------------------------

/-- `struct uip_tcpip_hdr` but for `optdata`. -/
structure TcpipHdr where
  vhl : UInt8
  tos : UInt8
  len : UInt8 × UInt8
  ipid : UInt8 × UInt8
  ipoffset : UInt8 × UInt8
  ttl : UInt8
  proto : UInt8
  ipchksum : UInt16
  srcipaddr : Ipaddr
  destipaddr : Ipaddr
  srcport : UInt16
  destport : UInt16
  seqno : Seqno
  ackno : Seqno
  tcpoffset : UInt8
  flags : UInt8
  wnd : UInt8 × UInt8
  tcpchksum : UInt16
  urgp : UInt8 × UInt8
  deriving Repr, DecidableEq

def TcpipHdr.ipBytes (h : TcpipHdr) : List UInt8 :=
  [h.vhl, h.tos, h.len.1, h.len.2, h.ipid.1, h.ipid.2, h.ipoffset.1, h.ipoffset.2, h.ttl, h.proto,
    wordHi h.ipchksum, wordLo h.ipchksum] ++ h.srcipaddr.bytes ++ h.destipaddr.bytes

def TcpipHdr.tcpBytes (h : TcpipHdr) : List UInt8 :=
  [wordHi h.srcport, wordLo h.srcport, wordHi h.destport, wordLo h.destport] ++ h.seqno.bytes ++
    h.ackno.bytes ++ [h.tcpoffset, h.flags, h.wnd.1, h.wnd.2, wordHi h.tcpchksum,
      wordLo h.tcpchksum, h.urgp.1, h.urgp.2]

/-- `uip_buf`; `data` starts at `optdata`. -/
structure UipBuf where
  hdr : TcpipHdr
  data : Buffer UInt8 UIP_DATA_SIZE
  deriving Repr, DecidableEq

def UipBuf.bytes (b : UipBuf) : List UInt8 := b.hdr.ipBytes ++ (b.hdr.tcpBytes ++ b.data.cells)

section
variable (h : TcpipHdr) (b : UipBuf)
@[simp] theorem length_ipBytes : h.ipBytes.length = 20 := rfl
@[simp] theorem length_tcpBytes : h.tcpBytes.length = 20 := rfl
@[simp] theorem length_bytes : b.bytes.length = UIP_BUF_SIZE := by
  simp [UipBuf.bytes, b.data.size, UIP_BUF_SIZE, UIP_DATA_SIZE]
end

def UipBuf.ofBytes (m : Buffer UInt8 UIP_BUF_SIZE) : UipBuf :=
  let byte (i : Nat) : UInt8 := m.cells.getD i 0
  let u16 (i : Nat) : UInt16 := word (byte i) (byte (i + 1))
  let u32 (i : Nat) : Seqno := ⟨byte i, byte (i + 1), byte (i + 2), byte (i + 3)⟩
  { hdr :=
      { vhl := byte 0
        tos := byte 1
        len := (byte 2, byte 3)
        ipid := (byte 4, byte 5)
        ipoffset := (byte 6, byte 7)
        ttl := byte 8
        proto := byte 9
        ipchksum := u16 10
        srcipaddr := (u16 12, u16 14)
        destipaddr := (u16 16, u16 18)
        srcport := u16 20
        destport := u16 22
        seqno := u32 24
        ackno := u32 28
        tcpoffset := byte 32
        flags := byte 33
        wnd := (byte 34, byte 35)
        tcpchksum := u16 36
        urgp := (byte 38, byte 39) }
    data := ⟨m.cells.drop 40, by rw [List.length_drop, m.size]; rfl⟩ }

theorem take_eq_map_getD (l : List UInt8) {n : Nat} (h : n ≤ l.length) :
    l.take n = (List.range n).map (l.getD · 0) := by
  apply List.ext_getElem
  · simp [h]
  · intro i h1 h2
    rw [List.length_take] at h1
    simp [List.getElem?_eq_getElem (show i < l.length by omega)]

theorem bytes_ofBytes (m : Buffer UInt8 UIP_BUF_SIZE) : (UipBuf.ofBytes m).bytes = m.cells := by
  have htake := take_eq_map_getD m.cells (n := 40) (by rw [m.size]; decide)
  conv_rhs => rw [← List.take_append_drop 40 m.cells, htake]
  simp only [UipBuf.bytes, UipBuf.ofBytes, TcpipHdr.ipBytes, TcpipHdr.tcpBytes, Ipaddr.bytes,
    Seqno.bytes, wordHi_word, wordLo_word]
  rfl

/-- The frame that `slipdev_poll` leaves in the buffer. -/
def UipBuf.receive (b : UipBuf) (frame : List UInt8) : UipBuf :=
  .ofBytes ⟨overwrite b.bytes 0 frame, length_overwrite.trans (length_bytes b)⟩

theorem hdr_ofBytes {m m' : Buffer UInt8 UIP_BUF_SIZE} (h : m.cells.take 40 = m'.cells.take 40) :
    (UipBuf.ofBytes m).hdr = (UipBuf.ofBytes m').hdr := by
  have hbyte (i : Nat) (hi : i < 40) : m.cells.getD i 0 = m'.cells.getD i 0 := by
    rw [List.getD_eq_getElem?_getD, List.getD_eq_getElem?_getD, ← List.getElem?_take_of_lt hi, h,
      List.getElem?_take_of_lt hi]
  simp (disch := decide) only [UipBuf.ofBytes, hbyte]

theorem hdr_ofBytes_bytes (b : UipBuf) :
    (UipBuf.ofBytes ⟨b.bytes, length_bytes b⟩).hdr = b.hdr := by
  simp only [UipBuf.ofBytes, UipBuf.bytes, TcpipHdr.ipBytes, TcpipHdr.tcpBytes, Ipaddr.bytes,
    Seqno.bytes]
  simp

theorem bytes_receive (b : UipBuf) (frame : List UInt8) :
    (b.receive frame).bytes = overwrite b.bytes 0 frame := bytes_ofBytes _

-- ---------------------------------------------------------------------------
-- Connections
-- ---------------------------------------------------------------------------

inductive TcpState
  | closed
  | synRcvd
  | synSent
  | established
  | finWait1
  | finWait2
  | closing
  | timeWait
  | lastAck
  deriving Repr, DecidableEq

/-- `tcpstateflags`: the state and `UIP_STOPPED`. -/
structure Tcpstateflags where
  state : TcpState
  stopped : Bool := false
  deriving Repr, DecidableEq

/-- `struct uip_conn` but for `appstate`. -/
structure UipConn where
  ripaddr : Ipaddr
  lport : UInt16
  rport : UInt16
  rcvNxt : Seqno
  sndNxt : Seqno
  len : UInt16
  mss : UInt16
  initialmss : UInt16
  sa : UInt8
  sv : UInt8
  rto : UInt8
  tcpstateflags : Tcpstateflags
  timer : UInt8
  nrtx : UInt8
  deriving Repr, DecidableEq

def UipConn.outstanding (c : UipConn) : Bool := c.len ≠ 0

-- ---------------------------------------------------------------------------
-- The stack
-- ---------------------------------------------------------------------------

/-- `uip_appdata` is an index of `buf.data`, and `uip_sappdata` always the first.
`behind` is the memory behind `uip_buf`, and `logged` has the calls of `uip_log`. -/
structure Stack where
  hostaddr : Ipaddr
  buf : UipBuf
  behind : Nat → UInt8
  appdata : Nat
  len : UInt16
  slen : UInt16
  flags : UipFlags
  conn : Fin UIP_CONNS
  conns : Fin UIP_CONNS → UipConn
  listenports : Fin UIP_LISTENPORTS → UInt16
  ipid : UInt16
  iss : Seqno
  lastport : UInt16
  logged : List String

namespace Stack

variable (s : Stack)

/-- `*uip_conn`. -/
def cur : UipConn := s.conns s.conn

def setConn (c : UipConn) : Stack := { s with conns := Function.update s.conns s.conn c }

def setHdr (h : TcpipHdr) : Stack := { s with buf := { s.buf with hdr := h } }

def uipLog (msg : String) : Stack := { s with logged := s.logged ++ [msg] }

variable {s} {c : UipConn} {h : TcpipHdr} {i : Fin UIP_CONNS}

@[simp] theorem cur_setConn : (s.setConn c).cur = c := Function.update_self ..
@[simp] theorem conn_setConn : (s.setConn c).conn = s.conn := rfl
@[simp] theorem buf_setConn : (s.setConn c).buf = s.buf := rfl
@[simp] theorem hdr_setHdr : (s.setHdr h).buf.hdr = h := rfl
@[simp] theorem cur_setHdr : (s.setHdr h).cur = s.cur := rfl

theorem conns_setConn_ne (hi : i ≠ s.conn) : (s.setConn c).conns i = s.conns i :=
  Function.update_of_ne hi ..

end Stack

end FxIP.Tcpip
