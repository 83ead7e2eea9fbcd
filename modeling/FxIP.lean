import FxIP.Lib.Comp
import FxIP.Lib.Run
import FxIP.Lib.Circular
import FxIP.Ringbuffer
import FxIP.Ringbuffer.Bulk
import FxIP.Objectlog
import FxIP.Objectlog.Layout
import FxIP.Objectlog.Walk
import FxIP.Objectlog.Copy
import FxIP.Objectlog.Read
import FxIP.Objectlog.Codec
import FxIP.Objectlog.Fifo
import FxIP.Objectlog.Write
import FxIP.Objectlog.Refinement
import FxIP.Objectlog.Eviction
import FxIP.Objectlog.Index
import FxIP.Objectlog.Reject
import FxIP.Objectlog.Gather
import FxIP.Objectlog.Init
import FxIP.Ui
import FxIP.Ui.Messages
import FxIP.Ui.Retained
import FxIP.Ui.Scroll
import FxIP.Ui.Render
import FxIP.Lib.Pen
import FxIP.Ui.Pencil
import FxIP.Lib.Slip
import FxIP.Slipdev
import FxIP.Slipdev.Decode
import FxIP.Slipdev.Accesses
import FxIP.Slipdev.Whole
import FxIP.Scif
import FxIP.Scif.Transmit
import FxIP.Scif.Receive
import FxIP.Lib.Lines
import FxIP.Lib.Buffer
import FxIP.Lib.Wire
import FxIP.Uip
import FxIP.Psock
import FxIP.Irc.Parse
import FxIP.Irc.Readto
import FxIP.Irc.Strings
import FxIP.Irc.Line
import FxIP.Irc.Dispatch
import FxIP.Irc
import FxIP.Irc.Safe
import FxIP.Irc.Report
import FxIP.Irc.System
import FxIP.Irc.Calls
import FxIP.Irc.Steps
import FxIP.Irc.Reader
import FxIP.Irc.Login
import FxIP.Irc.Outbox
import FxIP.Irc.Delivery
import FxIP.Irc.Appdata
import FxIP.Irc.Reassembly
import FxIP.Irc.LoginData
import FxIP.Irc.Inputbuffer
import FxIP.Hayes
import FxIP.Hayes.Lines
import FxIP.Keyboard
import FxIP.Keyboard.InputLine
import FxIP.Lib.OnesComplement
import FxIP.Lib.Ipv4
import FxIP.Lib.Stream
import FxIP.Tcpip
import FxIP.Tcpip.Chksum
import FxIP.Tcpip.Add32
import FxIP.Tcpip.Process
import FxIP.Tcpip.Sending
import FxIP.Tcpip.System
import FxIP.Tcpip.Kept
import FxIP.Tcpip.Input
import FxIP.Tcpip.Connect
import FxIP.Tcpip.Connections
import FxIP.Tcpip.Emitted
import FxIP.Tcpip.Receiving
import FxIP.Tcpip.Delivery
import FxIP.Tcpip.Timer
import FxIP.Tcpip.Segments
import FxIP.Tcpip.Written
import FxIP.Tcpip.Agreement
import FxIP.Irc.Fits
import FxIP.Lib.Cycle
import FxIP.Tcpip.Accepts
import FxIP.Tcpip.Client
import FxIP.Tcpip.Lines
import FxIP.Tcpip.Login
import FxIP.Tcpip.Options
import FxIP.Tcpip.Poll
