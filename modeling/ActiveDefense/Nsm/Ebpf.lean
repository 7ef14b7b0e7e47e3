import ActiveDefense.Nsm.Common

/-!
# The XDP program

`tryNsmXdp` is one run of the kernel program on one frame: it parses the Ethernet and IP headers,
looks the IPv4 source up in `BLOCKLIST_V4`, and hands one event to the ring buffer. The blocklist
is any longest-prefix-match map; whether the ring buffer has room for the event, and the two
readings of `bpf_ktime_get_ns`, are inputs. `nsmXdp_drop_iff` says exactly which packets are
dropped.
-/

namespace ActiveDefense.Nsm

/-- `xdp_action::XDP_PASS` and `xdp_action::XDP_DROP`. -/
inductive XdpAction where
  | pass
  | drop
deriving DecidableEq, Repr

/-- The program's counters. -/
structure Stats where
  passed : Nat
  dropped : Nat
  truncated : Nat
  parseErrors : Nat
deriving DecidableEq, Repr

/-- The input of one run: the frame between `data()` and `data_end()`, its interface, whether
`EVENTS.reserve` finds room, and what `bpf_ktime_get_ns` answers for the event and for the expiry
check. -/
structure XdpContext where
  data : List UInt8
  ingressIfindex : UInt32
  ringHasRoom : Bool
  tsNs : UInt64
  nowNs : UInt64
deriving DecidableEq, Repr

/-- `ptr_at`: the header of `len` bytes at `offset`, if it lies within the frame. -/
def ptrAt (ctx : XdpContext) (offset len : Nat) : Except Unit (List UInt8) :=
  if ctx.data.length < offset + len then .error ()
  else .ok ((ctx.data.drop offset).take len)

/-- What a run of the program leaves: its verdict, the event in the ring buffer, the counters. -/
structure XdpOutcome where
  action : XdpAction
  event : Option PacketEvent
  stats : Stats
deriving DecidableEq, Repr

/-- The flag bits of a TCP header, repacked: FIN, SYN, RST, PSH, ACK, URG from bit 0 up. -/
def tcpFlagsByte (tcp : List UInt8) : UInt8 :=
  let flag (i : Nat) : UInt8 := if (byteAt tcp 13).toNat.testBit i then 1 <<< UInt8.ofNat i else 0
  flag 0 ||| flag 1 ||| flag 2 ||| flag 3 ||| flag 4 ||| flag 5

/-- What the IP header gives: the offset of the transport header, the protocol, the IPv4 source,
and the event with the addresses filled in. -/
structure IpFields where
  l4Off : Nat
  l4Proto : UInt8
  src4 : Option Ipv4Addr
  event : PacketEvent
deriving DecidableEq, Repr

/-- The header part of `try_nsm_xdp`. `none` is a frame that is not IP. -/
def parseIp (ctx : XdpContext) : Except Unit (Option IpFields) := do
  let eth ← ptrAt ctx 0 ethHdrLen
  let event :=
    { PacketEvent.zeroed with
      tsNs := ctx.tsNs
      ifindex := ctx.ingressIfindex
      length := UInt32.ofNat ctx.data.length }
  if etherType eth = etherTypeIpv4 then
    let ip ← ptrAt ctx ethHdrLen ipv4HdrLen
    let hdrLen := ihl ip * 4
    if hdrLen < ipv4HdrLen then .error ()
    else
      .ok <| some
        { l4Off := ethHdrLen + hdrLen
          l4Proto := byteAt ip 9
          src4 := some (ipv4At ip 12)
          event :=
            { event with
              ipVer := 4
              srcAddr := (ip.drop 12).take 4 ++ List.replicate 12 0
              dstAddr := (ip.drop 16).take 4 ++ List.replicate 12 0 } }
  else if etherType eth = etherTypeIpv6 then
    let ip ← ptrAt ctx ethHdrLen ipv6HdrLen
    .ok <| some
      { l4Off := ethHdrLen + ipv6HdrLen
        l4Proto := byteAt ip 6
        src4 := none
        event :=
          { event with
            ipVer := 6
            srcAddr := (ip.drop 8).take 16
            dstAddr := (ip.drop 24).take 16 } }
  else .ok none

/-- The transport part of `try_nsm_xdp`: ports and flags, where the header fits the frame. -/
def parseL4 (ctx : XdpContext) (l4Off : Nat) (l4Proto : UInt8) (event : PacketEvent) :
    PacketEvent :=
  let event := { event with proto := l4Proto }
  if l4Proto = protoTcp then
    match ptrAt ctx l4Off tcpHdrLen with
    | .ok tcp =>
      { event with srcPort := be16At tcp 0, dstPort := be16At tcp 2, tcpFlags := tcpFlagsByte tcp }
    | .error _ => event
  else if l4Proto = protoUdp then
    match ptrAt ctx l4Off udpHdrLen with
    | .ok udp => { event with srcPort := be16At udp 0, dstPort := be16At udp 2 }
    | .error _ => event
  else event -- ICMP and others: addresses and protocol only

section
variable {M : Type} [PrefixMap M 32 UInt64]

/-- The enforcement check: the entry a full-length lookup of the source finds, not expired. -/
def enforced (blocklist : M) (nowNs : UInt64) : Option Ipv4Addr → Bool
  | none => false
  | some src =>
    match PrefixMap.get blocklist ⟨32, src⟩ with
    | some expiry => decide (nowNs < expiry)
    | none => false

/-- `try_nsm_xdp`. -/
def tryNsmXdp (blocklist : M) (ctx : XdpContext) (stats : Stats) : Except Unit XdpOutcome := do
  match ← parseIp ctx with
  | none => .ok ⟨.pass, none, stats⟩
  | some ip =>
    if enforced blocklist ctx.nowNs ip.src4 then
      let event := { ip.event with proto := ip.l4Proto, action := .dropped }
      if ctx.ringHasRoom then .ok ⟨.drop, some event, { stats with dropped := stats.dropped + 1 }⟩
      else .ok ⟨.drop, none, { stats with truncated := stats.truncated + 1 }⟩
    else
      let event := { parseL4 ctx ip.l4Off ip.l4Proto ip.event with action := .passed }
      if ctx.ringHasRoom then .ok ⟨.pass, some event, { stats with passed := stats.passed + 1 }⟩
      else .ok ⟨.pass, none, { stats with truncated := stats.truncated + 1 }⟩

/-- `nsm_xdp`: a frame whose headers do not parse is passed and counted. -/
def nsmXdp (blocklist : M) (ctx : XdpContext) (stats : Stats) : XdpOutcome :=
  match tryNsmXdp blocklist ctx stats with
  | .ok out => out
  | .error _ => ⟨.pass, none, { stats with parseErrors := stats.parseErrors + 1 }⟩

end

/-! ## Which packets are dropped -/

/-- The IPv4 source address of a frame whose headers the program accepts. -/
def ipv4Source (ctx : XdpContext) : Option Ipv4Addr :=
  match parseIp ctx with
  | .ok (some ip) => ip.src4
  | _ => none

/-- The smallest frame the program accepts from an IPv4 source. -/
def minimalFrame (src : Ipv4Addr) : List UInt8 :=
  List.replicate 12 0 ++ [8, 0, 0x45] ++ List.replicate 11 0 ++
    [src.octet 0, src.octet 1, src.octet 2, src.octet 3] ++ List.replicate 4 0

/-- The run of the program on that frame at the time `nowNs`. -/
def minimalContext (src : Ipv4Addr) (nowNs : UInt64) : XdpContext :=
  ⟨minimalFrame src, 0, true, nowNs, nowNs⟩

theorem ipv4Source_minimalContext (src : Ipv4Addr) (nowNs : UInt64) :
    ipv4Source (minimalContext src nowNs) = some src := by
  have heth : ptrAt (minimalContext src nowNs) 0 ethHdrLen =
      .ok (List.replicate 12 0 ++ [8, 0]) := by
    simp [ptrAt, minimalContext, minimalFrame, ethHdrLen]
  have hip : ptrAt (minimalContext src nowNs) ethHdrLen ipv4HdrLen =
      .ok (0x45 :: List.replicate 11 0 ++
        [src.octet 0, src.octet 1, src.octet 2, src.octet 3] ++ List.replicate 4 0) := by
    simp [ptrAt, minimalContext, minimalFrame, ethHdrLen, ipv4HdrLen]
  have htype : etherType (List.replicate 12 0 ++ [8, 0]) = etherTypeIpv4 := by decide
  simp only [ipv4Source, parseIp, heth, bind, Except.bind, htype, if_true, hip]
  simp [ihl, byteAt, ipv4HdrLen, ipv4At, src.new_octet]

section
variable {M : Type} [PrefixMap M 32 UInt64]

/-- The program drops a frame exactly when it has an IPv4 source whose entry is enforced. -/
theorem nsmXdp_drop_iff_enforced (blocklist : M) (ctx : XdpContext) (stats : Stats) :
    (nsmXdp blocklist ctx stats).action = .drop ↔
      enforced blocklist ctx.nowNs (ipv4Source ctx) = true := by
  unfold nsmXdp tryNsmXdp ipv4Source
  cases hp : parseIp ctx with
  | error e => simp [bind, Except.bind, enforced]
  | ok r =>
    cases r with
    | none => simp [bind, Except.bind, enforced]
    | some ip =>
      simp only [bind, Except.bind]
      cases enforced blocklist ctx.nowNs ip.src4 <;> cases ctx.ringHasRoom <;> simp

/-- The source's entry is enforced exactly when the most specific stored prefix that covers it is
not expired. -/
theorem enforced_iff [LawfulPrefixMap M] (blocklist : M) (nowNs : UInt64) (src : Ipv4Addr) :
    enforced blocklist nowNs (some src) = true ↔
      ∃ e, IsLongest (PrefixMap.entries blocklist) src e ∧ nowNs < e.2 := by
  unfold enforced
  constructor
  · intro h
    cases hg : PrefixMap.get blocklist ⟨32, src⟩ with
    | none => simp [hg] at h
    | some expiry =>
      obtain ⟨k, hk⟩ := (LawfulPrefixMap.get_eq_some blocklist src expiry).mp hg
      exact ⟨(k, expiry), hk, by simpa [hg] using h⟩
  · rintro ⟨⟨k, expiry⟩, hk, hlt⟩
    have hg := (LawfulPrefixMap.get_eq_some blocklist src expiry).mpr ⟨k, hk⟩
    simp [hg, hlt]

/-- The program drops a frame exactly when the most specific stored prefix that covers its IPv4
source is not expired. -/
theorem nsmXdp_drop_iff [LawfulPrefixMap M] (blocklist : M) (ctx : XdpContext) (stats : Stats) :
    (nsmXdp blocklist ctx stats).action = .drop ↔
      ∃ src, ipv4Source ctx = some src ∧
        ∃ e, IsLongest (PrefixMap.entries blocklist) src e ∧ ctx.nowNs < e.2 := by
  rw [nsmXdp_drop_iff_enforced]
  cases ipv4Source ctx with
  | none => simp [enforced]
  | some src => simp [enforced_iff]

end

end ActiveDefense.Nsm
