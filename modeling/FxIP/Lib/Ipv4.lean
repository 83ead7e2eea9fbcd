import FxIP.Lib.OnesComplement

/-!
# IPv4 packets

What a host has to find in the bytes of a packet: a header without options, the
length of the packet, no fragment, and sums of words that come down to all ones.
-/

namespace Ipv4

open OnesComplement

def wordAt (p : List UInt8) (i : Nat) : Nat := (p.getD i 0).toNat * 256 + (p.getD (i + 1) 0).toNat

structure Valid (p : List UInt8) : Prop where
  header : 20 ≤ p.length
  version : p.getD 0 0 = 0x45
  length : wordAt p 2 = p.length
  whole : p.getD 6 0 &&& 0x3f = 0 ∧ p.getD 7 0 = 0
  chksum : fold 65535 (sumWords (p.take 20)) = 65535

/-- The words under the checksum of the transport protocol: its number and the
length, the addresses, and all that is behind the header. -/
def transportSum (p : List UInt8) : Nat :=
  (p.getD 9 0).toNat + (p.length - 20) + sumWords ((p.drop 12).take 8) + sumWords (p.drop 20)

structure ValidTcp (p : List UInt8) : Prop extends Valid p where
  segment : 40 ≤ p.length
  protocol : p.getD 9 0 = 6
  tcpchksum : fold 65535 (transportSum p) = 65535

/-- An ICMP message of a type, with the checksum over all of it. -/
structure ValidEcho (type : UInt8) (p : List UInt8) : Prop extends Valid p where
  message : 28 ≤ p.length
  protocol : p.getD 9 0 = 1
  type : p.getD 20 0 = type
  icmpchksum : fold 65535 (sumWords (p.drop 20)) = 65535

def ValidEchoRequest (p : List UInt8) : Prop := ValidEcho 8 p
def ValidEchoReply (p : List UInt8) : Prop := ValidEcho 0 p

/-- A reply goes back to where the request is from, with the same code, the same
identifier and sequence number and the same data. -/
structure Answers (request reply : List UInt8) : Prop where
  length : reply.length = request.length
  source : (reply.drop 12).take 4 = (request.drop 16).take 4
  destination : (reply.drop 16).take 4 = (request.drop 12).take 4
  code : reply.getD 21 0 = request.getD 21 0
  message : reply.drop 24 = request.drop 24

end Ipv4
