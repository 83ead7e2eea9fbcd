import FxIP.Lib.Buffer

/-!
# The TCP connection

The part of `uip.c` between the IRC client and the network: what `uip_process`
does to the connection before it calls the application, `uip_send`, and what it
sends afterwards. `uip_buf` is represented from `uip_appdata` on.
-/

namespace FxIP

/-- `UIP_BUFSIZE - UIP_LLH_LEN - UIP_TCPIP_HLEN`. -/
def UIP_APPDATA_SIZE : Nat := 1460

def UIP_TCP_MSS : Nat := UIP_APPDATA_SIZE

/-- The states in which the application is called, and all others. -/
inductive TcpState
  | synSent
  | established
  | closed
  deriving Repr, DecidableEq

structure UipConn where
  tcpstate : TcpState
  len : Nat
  mss : Nat
  initialmss : Nat
  deriving Repr, DecidableEq

/-- `uip_flags`, one field a bit. -/
structure UipFlags where
  acked : Bool := false
  newdata : Bool := false
  rexmit : Bool := false
  poll : Bool := false
  connected : Bool := false
  closed : Bool := false
  aborted : Bool := false
  timedout : Bool := false
  deriving Repr, DecidableEq

/-- The connection and the globals it shares with the application. `sends` counts
the segments that `uip_send` stored in the current call of the application. -/
structure Uip where
  conn : UipConn
  flags : UipFlags
  appdata : Buffer UInt8 UIP_APPDATA_SIZE
  len : Nat
  slen : Nat
  sends : Nat
  deriving Repr, DecidableEq

def uipOutstanding (uip : Uip) : Bool := uip.conn.len ≠ 0

/-- `data` is the memory from the pointer on. -/
def uipSend (uip : Uip) (data : List UInt8) (len : Nat) : Uip :=
  if len > 0 then
    { uip with slen := len, appdata := uip.appdata.write (data.take len), sends := uip.sends + 1 }
  else uip

-- ---------------------------------------------------------------------------
-- Before the application is called
-- ---------------------------------------------------------------------------

def uipConnect (appdata : Buffer UInt8 UIP_APPDATA_SIZE) : Uip where
  conn := { tcpstate := .synSent, len := 1, mss := UIP_TCP_MSS, initialmss := UIP_TCP_MSS }
  flags := {}
  appdata
  len := 0
  slen := 0
  sends := 0

def uipCall (uip : Uip) (flags : UipFlags) (len : Nat) : Uip :=
  { uip with flags, len, slen := 0, sends := 0 }

def uipReceive (uip : Uip) (bytes : List UInt8) : Uip :=
  { uip with appdata := uip.appdata.write bytes }

/-- The SYNACK, with its MSS option. Options start where the data of other
segments does. -/
def uipSynack (uip : Uip) (options : List UInt8) (mss : Option Nat) : Uip :=
  let uip := uipReceive uip options
  let conn := { uip.conn with tcpstate := .established, len := 0 }
  let conn := match mss with
    | some tmp16 =>
      let mss := if tmp16 > UIP_TCP_MSS then UIP_TCP_MSS else tmp16
      { conn with mss, initialmss := mss }
    | none => conn
  let uip := { uip with conn }
  uipCall uip { connected := true, newdata := true } 0

/-- A segment in the established state. The application is called if a flag
is set. -/
def uipSegment (uip : Uip) (ack : Bool) (wnd : Nat) (payload : List UInt8) : Uip :=
  let uip := uipReceive uip payload
  let acked := ack && uipOutstanding uip
  let tmp16 := if wnd > uip.conn.initialmss ∨ wnd = 0 then uip.conn.initialmss else wnd
  let uip := { uip with conn := { uip.conn with len := if acked then 0 else uip.conn.len, mss :=
    tmp16 } }
  uipCall uip { acked, newdata := payload.length > 0 } payload.length

/-- The periodic timer in the established state, when it calls the application. -/
def uipTimer (uip : Uip) : Uip :=
  uipCall uip (if uipOutstanding uip then { rexmit := true } else { poll := true }) 0

-- ---------------------------------------------------------------------------
-- After the application was called
-- ---------------------------------------------------------------------------

/-- From `appsend` to `apprexmit`. -/
def uipAppsend (uip : Uip) : Uip :=
  if uip.slen > 0 then
    let len := if uip.flags.acked then 0 else uip.conn.len
    if len = 0 then
      let slen := if uip.slen > uip.conn.mss then uip.conn.mss else uip.slen
      { uip with slen, conn := { uip.conn with len := slen } }
    else { uip with slen := len, conn := { uip.conn with len } }
  else uip

/-- The data of the segment sent at `apprexmit`, if there is any. -/
def uipApprexmit (uip : Uip) : Option (List UInt8) :=
  if uip.slen > 0 ∧ uip.conn.len > 0 then some (uip.appdata.cells.take uip.conn.len) else none

/-- What `uip_process` does after the call. -/
def uipOutput (uip : Uip) : Option (List UInt8) × Uip :=
  let uip := if uip.flags.rexmit then uip else uipAppsend uip
  (uipApprexmit uip, uip)

end FxIP
