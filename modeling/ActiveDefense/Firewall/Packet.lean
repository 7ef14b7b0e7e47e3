import ActiveDefense.Rust.Net

/-!
# Parsing a queued packet

`parse` classifies the raw bytes of a packet, from the IP header on. Header fields come from the
crate `etherparse`, which is a parameter: what it returns for an IP slice, as far as `parse` reads
it.
-/

namespace ActiveDefense.Firewall

structure TcpFlags where
  syn : Bool
  ack : Bool
  fin : Bool
  rst : Bool
deriving DecidableEq, Repr

/-! ## What `etherparse` returns -/

/-- `etherparse::IpHeader`; of the IPv6 extension headers, the offset in the fragment header. -/
inductive IpHeader where
  | version4 (source destination : Ipv4Addr) (fragmentsOffset : UInt16)
  | version6 (source destination : Ipv6Addr) (fragmentOffset : Option UInt16)
deriving DecidableEq, Repr

/-- `etherparse::TransportHeader`. -/
inductive TransportHeader where
  | tcp (sourcePort destinationPort : UInt16) (flags : TcpFlags)
  | udp (sourcePort destinationPort : UInt16)
  | icmpv4
  | icmpv6
deriving DecidableEq, Repr

/-- `etherparse::PacketHeaders`. -/
structure PacketHeaders where
  ip : Option IpHeader
  transport : Option TransportHeader
  payloadLen : Nat
deriving DecidableEq, Repr

/-- The functions of `etherparse` that `parse` calls; `none` stands for an error. -/
structure Etherparse where
  /-- `IpHeader::from_slice`: the header, and the number of the protocol that follows it and its
  extension headers. -/
  ipHeaderFromSlice : List UInt8 → Option (IpHeader × UInt8)
  /-- `PacketHeaders::from_ip_slice`. -/
  packetHeadersFromIpSlice : List UInt8 → Option PacketHeaders

/-- The IP protocol number of a packet on the wire. -/
def Etherparse.wireProtocol (E : Etherparse) (raw : List UInt8) : Option UInt8 :=
  (E.ipHeaderFromSlice raw).map Prod.snd

/-! ## The parser -/

inductive L4Proto where
  | tcp
  | udp
  | icmp
  | other (n : UInt8)
deriving DecidableEq, Repr

/-- `pkt_proto_num` of the engine and `proto_num` of the connection table. -/
def L4Proto.protoNum : L4Proto → UInt8
  | .tcp => 6
  | .udp => 17
  | .icmp => 1
  | .other n => n

structure ParsedPacket where
  srcIp : IpAddr
  dstIp : IpAddr
  proto : L4Proto
  srcPort : UInt16
  dstPort : UInt16
  tcpFlags : Option TcpFlags
  payloadLen : Nat
deriving DecidableEq, Repr

inductive ParseOutcome where
  | parsed (pkt : ParsedPacket)
  | unclassifiableFragment
  | malformed
deriving DecidableEq, Repr

/-- `check_fragmentation`: only a fragment that is not the first one. -/
def checkFragmentation (E : Etherparse) (raw : List UInt8) : Option ParseOutcome :=
  match E.ipHeaderFromSlice raw with
  | none => none
  | some (.version4 _ _ fragmentsOffset, _) =>
    if fragmentsOffset ≠ 0 then some .unclassifiableFragment else none
  | some (.version6 _ _ (some fragmentOffset), _) =>
    if fragmentOffset ≠ 0 then some .unclassifiableFragment else none
  | some (.version6 _ _ none, _) => none

/-- The source and the destination of an IP header. -/
def IpHeader.addresses : IpHeader → IpAddr × IpAddr
  | .version4 source destination _ => (.v4 source, .v4 destination)
  | .version6 source destination _ => (.v6 source, .v6 destination)

/-- Protocol, ports and flags of the transport header. A transport that `etherparse` does not
decode is `Other(0)`, whatever its number. -/
def transportFields : Option TransportHeader → L4Proto × UInt16 × UInt16 × Option TcpFlags
  | some (.tcp sourcePort destinationPort flags) =>
    (.tcp, sourcePort, destinationPort, some flags)
  | some (.udp sourcePort destinationPort) => (.udp, sourcePort, destinationPort, none)
  | some .icmpv4 | some .icmpv6 => (.icmp, 0, 0, none)
  | none => (.other 0, 0, 0, none)

/-- `parse`. -/
def parse (E : Etherparse) (raw : List UInt8) : ParseOutcome :=
  match checkFragmentation E raw with
  | some outcome => outcome
  | none =>
    match E.packetHeadersFromIpSlice raw with
    | none => .malformed
    | some headers =>
      match headers.ip with
      | none => .malformed
      | some ipHeader =>
        let (srcIp, dstIp) := ipHeader.addresses
        let (proto, srcPort, dstPort, tcpFlags) := transportFields headers.transport
        .parsed { srcIp, dstIp, proto, srcPort, dstPort, tcpFlags
                  payloadLen := headers.payloadLen }

end ActiveDefense.Firewall
