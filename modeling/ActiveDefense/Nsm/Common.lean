import ActiveDefense.Rust.Net

/-!
# What the two halves of `nsm` share

The wire layout of the headers both capture paths read, at byte offsets into a raw buffer, and the
contents of the crate `nsm-common`: the event the XDP program hands to userspace. The header
accessors of `network-types` (kernel side) and `pnet` (userspace side) are taken to read the fields
where the wire format puts them.
-/

namespace ActiveDefense.Nsm

/-! ## Reading a header -/

/-- The byte at offset `i`. -/
def byteAt (b : List UInt8) (i : Nat) : UInt8 := b.getD i 0

/-- The big-endian 16-bit field at offset `i`. -/
def be16At (b : List UInt8) (i : Nat) : UInt16 :=
  UInt16.ofNat ((byteAt b i).toNat * 256 + (byteAt b (i + 1)).toNat)

/-- The IPv4 address at offset `i`. -/
def ipv4At (b : List UInt8) (i : Nat) : Ipv4Addr :=
  Ipv4Addr.new (byteAt b i) (byteAt b (i + 1)) (byteAt b (i + 2)) (byteAt b (i + 3))

/-- The IPv6 address of sixteen bytes in network order. -/
def ipv6OfBytes (b : List UInt8) : Ipv6Addr :=
  BitVec.ofNat 128 (b.foldl (fun n o => n * 256 + o.toNat) 0)

/-- `EthHdr::LEN`. -/
def ethHdrLen : Nat := 14
/-- `mem::size_of::<Ipv4Hdr>()`. -/
def ipv4HdrLen : Nat := 20
/-- `Ipv6Hdr::LEN`. -/
def ipv6HdrLen : Nat := 40
/-- `mem::size_of::<TcpHdr>()`. -/
def tcpHdrLen : Nat := 20
/-- `mem::size_of::<UdpHdr>()`. -/
def udpHdrLen : Nat := 8
/-- The size of the ICMP header `pnet` asks for. -/
def icmpHdrLen : Nat := 4

/-- `EtherType::Ipv4`. -/
def etherTypeIpv4 : UInt16 := 0x0800
/-- `EtherType::Ipv6`. -/
def etherTypeIpv6 : UInt16 := 0x86DD

/-- The EtherType field of an Ethernet header. -/
def etherType (eth : List UInt8) : UInt16 := be16At eth 12

/-- The IHL field of an IPv4 header, in 32-bit words. -/
def ihl (ip : List UInt8) : Nat := (byteAt ip 0).toNat % 16

/-! ## The crate `nsm-common` -/

def protoTcp : UInt8 := 6
def protoUdp : UInt8 := 17
def protoIcmp : UInt8 := 1

/-- Why an event was pushed: `ACTION_PASSED`, `ACTION_DROPPED`. -/
inductive EventAction where
  | passed
  | dropped
deriving DecidableEq, Repr

/-- `PacketEvent`: one packet's metadata, as it crosses the ring buffer. `srcAddr` and `dstAddr`
are sixteen bytes in network order, an IPv4 address in the first four. -/
structure PacketEvent where
  tsNs : UInt64
  srcAddr : List UInt8
  dstAddr : List UInt8
  ipVer : UInt8
  proto : UInt8
  tcpFlags : UInt8
  action : EventAction
  srcPort : UInt16
  dstPort : UInt16
  length : UInt32
  ifindex : UInt32
deriving DecidableEq, Repr

/-- `PacketEvent::zeroed`. -/
def PacketEvent.zeroed : PacketEvent where
  tsNs := 0
  srcAddr := List.replicate 16 0
  dstAddr := List.replicate 16 0
  ipVer := 0
  proto := 0
  tcpFlags := 0
  action := .passed
  srcPort := 0
  dstPort := 0
  length := 0
  ifindex := 0

end ActiveDefense.Nsm
