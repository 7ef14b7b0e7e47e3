import ActiveDefense.Nsm.Ebpf

/-!
# The two capture routes

A frame becomes a `PacketMeta` either through `pnet` (`parseEthernetFrame`) or through the XDP
program and `eventToMeta`. What `pnet` takes for the payload of a header is a parameter; its field
accessors read the wire format. The routes count a packet's length from different places, the whole
frame and the IP packet, so they agree exactly on the frames neither reports
(`routes_agree_iff`).
-/

namespace ActiveDefense.Nsm

/-- `L4Proto`. -/
inductive L4Proto where
  | tcp
  | udp
  | icmp
  | other (proto : UInt8)
deriving DecidableEq, Repr

/-- `PacketMeta`. -/
structure PacketMeta where
  ts : Nat
  srcIp : IpAddr
  dstIp : IpAddr
  srcPort : UInt16
  dstPort : UInt16
  proto : L4Proto
  tcpFlags : UInt8
  length : Nat
  payloadHead : List UInt8
deriving DecidableEq, Repr

/-- The metadata without its timestamp and payload. -/
def PacketMeta.view (m : PacketMeta) : PacketMeta := { m with ts := 0, payloadHead := [] }

/-! ## The pnet route -/

/-- `PAYLOAD_CAP`. -/
def payloadCap : Nat := 256

/-- The bytes `pnet`'s `payload()` answers with for each header, given the header and what follows
it. -/
structure PnetPayload where
  ipv4 : List UInt8 → List UInt8
  ipv6 : List UInt8 → List UInt8
  tcp : List UInt8 → List UInt8
  udp : List UInt8 → List UInt8

/-- `Packet::new` of a header of at least `minLen` bytes. -/
def newPacket (minLen : Nat) (buf : List UInt8) : Option (List UInt8) :=
  if minLen ≤ buf.length then some buf else none

/-- `build_tcp`. -/
def buildTcp (pnet : PnetPayload) (buf : List UInt8) (srcIp dstIp : IpAddr) (ts length : Nat) :
    Option PacketMeta := do
  let tcp ← newPacket tcpHdrLen buf
  some
    { ts, srcIp, dstIp
      srcPort := be16At tcp 0
      dstPort := be16At tcp 2
      proto := .tcp
      tcpFlags := byteAt tcp 13
      length
      payloadHead := (pnet.tcp tcp).take payloadCap }

/-- `build_udp`. -/
def buildUdp (pnet : PnetPayload) (buf : List UInt8) (srcIp dstIp : IpAddr) (ts length : Nat) :
    Option PacketMeta := do
  let udp ← newPacket udpHdrLen buf
  some
    { ts, srcIp, dstIp
      srcPort := be16At udp 0
      dstPort := be16At udp 2
      proto := .udp
      tcpFlags := 0
      length
      payloadHead := (pnet.udp udp).take payloadCap }

/-- `build_icmp`. -/
def buildIcmp (buf : List UInt8) (srcIp dstIp : IpAddr) (ts length : Nat) : Option PacketMeta := do
  let _icmp ← newPacket icmpHdrLen buf
  some
    { ts, srcIp, dstIp, srcPort := 0, dstPort := 0, proto := .icmp, tcpFlags := 0, length
      payloadHead := [] }

/-- The match on the protocol that `parse_ipv4` and `parse_ipv6` share. -/
def buildL4 (pnet : PnetPayload) (proto : UInt8) (payload : List UInt8) (srcIp dstIp : IpAddr)
    (ts length : Nat) : Option PacketMeta :=
  if proto = protoTcp then buildTcp pnet payload srcIp dstIp ts length
  else if proto = protoUdp then buildUdp pnet payload srcIp dstIp ts length
  else if proto = protoIcmp then buildIcmp payload srcIp dstIp ts length
  else
    some
      { ts, srcIp, dstIp, srcPort := 0, dstPort := 0, proto := .other proto, tcpFlags := 0, length
        payloadHead := [] }

/-- `parse_ipv4`. -/
def parsePnetIpv4 (pnet : PnetPayload) (ip : List UInt8) (ts : Nat) : Option PacketMeta :=
  buildL4 pnet (byteAt ip 9) (pnet.ipv4 ip) (.v4 (ipv4At ip 12)) (.v4 (ipv4At ip 16)) ts ip.length

/-- `parse_ipv6`. -/
def parsePnetIpv6 (pnet : PnetPayload) (ip : List UInt8) (ts : Nat) : Option PacketMeta :=
  buildL4 pnet (byteAt ip 6) (pnet.ipv6 ip) (.v6 (ipv6OfBytes ((ip.drop 8).take 16)))
    (.v6 (ipv6OfBytes ((ip.drop 24).take 16))) ts ip.length

/-- `parse_ethernet_frame`. -/
def parseEthernetFrame (pnet : PnetPayload) (data : List UInt8) (ts : Nat) : Option PacketMeta := do
  let eth ← newPacket ethHdrLen data
  if etherType eth = etherTypeIpv4 then
    let ip ← newPacket ipv4HdrLen (eth.drop ethHdrLen)
    parsePnetIpv4 pnet ip ts
  else if etherType eth = etherTypeIpv6 then
    let ip ← newPacket ipv6HdrLen (eth.drop ethHdrLen)
    parsePnetIpv6 pnet ip ts
  else none

/-! ## The XDP route -/

/-- `event_to_meta`, stamped with the time `ts`. -/
def eventToMeta (ts : Nat) (ev : PacketEvent) : Option PacketMeta := do
  let (srcIp, dstIp) ←
    if ev.ipVer = 4 then some (.v4 (ipv4At ev.srcAddr 0), .v4 (ipv4At ev.dstAddr 0))
    else if ev.ipVer = 6 then some (.v6 (ipv6OfBytes ev.srcAddr), .v6 (ipv6OfBytes ev.dstAddr))
    else none
  let proto : L4Proto :=
    if ev.proto = protoTcp then .tcp
    else if ev.proto = protoUdp then .udp
    else if ev.proto = protoIcmp then .icmp
    else .other ev.proto
  some
    { ts, srcIp, dstIp
      srcPort := ev.srcPort
      dstPort := ev.dstPort
      proto
      tcpFlags := ev.tcpFlags
      length := ev.length.toNat
      payloadHead := [] }

/-- What the detectors get of a frame through the XDP program. -/
def xdpRoute {M : Type} [PrefixMap M 32 UInt64] (blocklist : M) (ctx : XdpContext) (stats : Stats)
    (ts : Nat) : Option PacketMeta :=
  (nsmXdp blocklist ctx stats).event.bind (eventToMeta ts)

/-! ## Which frames a route reports -/

/-- The shortest payload `pnet` makes a packet of the protocol from. -/
def l4MinLen (proto : UInt8) : Nat :=
  if proto = protoTcp then tcpHdrLen
  else if proto = protoUdp then udpHdrLen
  else if proto = protoIcmp then icmpHdrLen
  else 0

/-- The frame is long enough for the XDP program, and its IPv4 header length is valid. -/
def XdpReports (data : List UInt8) : Prop :=
  (etherType data = etherTypeIpv4 ∧ ethHdrLen + ipv4HdrLen ≤ data.length ∧
      ipv4HdrLen ≤ ihl (data.drop ethHdrLen) * 4) ∨
    (etherType data = etherTypeIpv6 ∧ ethHdrLen + ipv6HdrLen ≤ data.length)

/-- The frame is long enough for `pnet`, and so is what `pnet` takes for its IP payload. -/
def PnetReports (pnet : PnetPayload) (data : List UInt8) : Prop :=
  let ip := data.drop ethHdrLen
  (etherType data = etherTypeIpv4 ∧ ethHdrLen + ipv4HdrLen ≤ data.length ∧
      l4MinLen (byteAt ip 9) ≤ (pnet.ipv4 ip).length) ∨
    (etherType data = etherTypeIpv6 ∧ ethHdrLen + ipv6HdrLen ≤ data.length ∧
      l4MinLen (byteAt ip 6) ≤ (pnet.ipv6 ip).length)

theorem etherTypeIpv6_ne : etherTypeIpv6 ≠ etherTypeIpv4 := by decide

/-- What `pnet` builds from a payload carries the length it was given, and it builds something
exactly when the payload is long enough for the protocol. -/
theorem buildL4_spec (pnet : PnetPayload) (proto : UInt8) (payload : List UInt8)
    (srcIp dstIp : IpAddr) (ts length : Nat) :
    (l4MinLen proto ≤ payload.length ∧
      ∃ m, buildL4 pnet proto payload srcIp dstIp ts length = some m ∧ m.length = length) ∨
    (¬ l4MinLen proto ≤ payload.length ∧
      buildL4 pnet proto payload srcIp dstIp ts length = none) := by
  have hnew : ∀ minLen, (minLen ≤ payload.length ∧ newPacket minLen payload = some payload) ∨
      (¬ minLen ≤ payload.length ∧ newPacket minLen payload = none) := by
    intro minLen
    by_cases hle : minLen ≤ payload.length
    · exact .inl ⟨hle, if_pos hle⟩
    · exact .inr ⟨hle, if_neg hle⟩
  unfold buildL4 l4MinLen
  by_cases htcp : proto = protoTcp
  · rw [if_pos htcp, if_pos htcp]
    refine (hnew tcpHdrLen).imp (fun h => ⟨h.1, ?_⟩) fun h => ⟨h.1, ?_⟩
    · exact ⟨_, by rw [buildTcp, h.2]; rfl, rfl⟩
    · rw [buildTcp, h.2]; rfl
  · rw [if_neg htcp, if_neg htcp]
    by_cases hudp : proto = protoUdp
    · rw [if_pos hudp, if_pos hudp]
      refine (hnew udpHdrLen).imp (fun h => ⟨h.1, ?_⟩) fun h => ⟨h.1, ?_⟩
      · exact ⟨_, by rw [buildUdp, h.2]; rfl, rfl⟩
      · rw [buildUdp, h.2]; rfl
    · rw [if_neg hudp, if_neg hudp]
      by_cases hicmp : proto = protoIcmp
      · rw [if_pos hicmp, if_pos hicmp]
        refine (hnew icmpHdrLen).imp (fun h => ⟨h.1, ?_⟩) fun h => ⟨h.1, ?_⟩
        · exact ⟨_, by rw [buildIcmp, h.2]; rfl, rfl⟩
        · rw [buildIcmp, h.2]; rfl
      · rw [if_neg hicmp, if_neg hicmp]
        exact .inl ⟨Nat.zero_le _, _, rfl, rfl⟩

/-- The `pnet` route reports a frame exactly when `PnetReports` says, with the length of its IP
packet. -/
theorem parseEthernetFrame_spec (pnet : PnetPayload) (data : List UInt8) (ts : Nat) :
    (PnetReports pnet data ∧ ∃ m, parseEthernetFrame pnet data ts = some m ∧
      m.length = data.length - ethHdrLen) ∨
    (¬ PnetReports pnet data ∧ parseEthernetFrame pnet data ts = none) := by
  by_cases hshort : data.length < ethHdrLen
  · have heth : newPacket ethHdrLen data = none := if_neg (by omega)
    refine .inr ⟨?_, by simp [parseEthernetFrame, heth]⟩
    rintro (⟨-, h, -⟩ | ⟨-, h, -⟩) <;> omega
  · have heth : newPacket ethHdrLen data = some data := if_pos (Nat.not_lt.mp hshort)
    have hlen : (data.drop ethHdrLen).length = data.length - ethHdrLen := List.length_drop
    simp only [parseEthernetFrame, heth, Option.bind_eq_bind, Option.bind_some]
    by_cases h4 : etherType data = etherTypeIpv4
    · have h6 : etherType data ≠ etherTypeIpv6 := fun h => etherTypeIpv6_ne (h.symm.trans h4)
      simp only [h4, if_true, PnetReports, true_and, etherTypeIpv6_ne.symm, false_and, or_false]
      by_cases hip : ethHdrLen + ipv4HdrLen ≤ data.length
      · have hnew : newPacket ipv4HdrLen (data.drop ethHdrLen) = some (data.drop ethHdrLen) :=
          if_pos (by omega)
        simp only [hnew, Option.bind_some, hip, true_and, parsePnetIpv4, ← hlen]
        exact buildL4_spec ..
      · have hnew : newPacket ipv4HdrLen (data.drop ethHdrLen) = none := if_neg (by omega)
        simp [hnew, hip]
    · simp only [h4, if_false, PnetReports, false_and, false_or]
      by_cases h6 : etherType data = etherTypeIpv6
      · simp only [h6, if_true, true_and]
        by_cases hip : ethHdrLen + ipv6HdrLen ≤ data.length
        · have hnew : newPacket ipv6HdrLen (data.drop ethHdrLen) = some (data.drop ethHdrLen) :=
            if_pos (by omega)
          simp only [hnew, Option.bind_some, hip, true_and, parsePnetIpv6, ← hlen]
          exact buildL4_spec ..
        · have hnew : newPacket ipv6HdrLen (data.drop ethHdrLen) = none := if_neg (by omega)
          simp [hnew, hip]
      · simp [h6]

/-- Reading within the bytes taken is reading in the buffer. -/
theorem byteAt_take {b : List UInt8} {i n : Nat} (h : i < n) :
    byteAt (b.take n) i = byteAt b i := by
  simp [byteAt, List.getD, List.getElem?_take_of_lt h]

/-- The headers of a frame parse exactly when `XdpReports` says, and the event then carries an IP
version and the length of the whole frame. -/
theorem parseIp_spec (ctx : XdpContext) :
    (XdpReports ctx.data ∧ ∃ ip, parseIp ctx = .ok (some ip) ∧
      (ip.event.ipVer = 4 ∨ ip.event.ipVer = 6) ∧
      ip.event.length = UInt32.ofNat ctx.data.length) ∨
    (¬ XdpReports ctx.data ∧ (parseIp ctx = .ok none ∨ parseIp ctx = .error ())) := by
  by_cases hshort : ctx.data.length < ethHdrLen
  · refine .inr ⟨?_, .inr ?_⟩
    · rintro (⟨-, h, -⟩ | ⟨-, h⟩) <;> omega
    · simp [parseIp, ptrAt, hshort, bind, Except.bind]
  · have heth : ptrAt ctx 0 ethHdrLen = .ok (ctx.data.take ethHdrLen) := by
      simp [ptrAt, hshort]
    have htype : etherType (ctx.data.take ethHdrLen) = etherType ctx.data := by
      simp [etherType, be16At, byteAt_take, ethHdrLen]
    have hfits : ∀ {len}, ethHdrLen + len ≤ ctx.data.length →
        ptrAt ctx ethHdrLen len = .ok ((ctx.data.drop ethHdrLen).take len) :=
      fun h => if_neg (by omega)
    have hends : ∀ {len}, ¬ ethHdrLen + len ≤ ctx.data.length →
        ptrAt ctx ethHdrLen len = .error () :=
      fun h => if_pos (by omega)
    simp only [parseIp, heth, bind, Except.bind, htype]
    by_cases h4 : etherType ctx.data = etherTypeIpv4
    · simp only [h4, if_true, XdpReports, true_and, etherTypeIpv6_ne.symm, false_and, or_false]
      by_cases hip : ethHdrLen + ipv4HdrLen ≤ ctx.data.length
      · have hihl : ihl ((ctx.data.drop ethHdrLen).take ipv4HdrLen) =
            ihl (ctx.data.drop ethHdrLen) := by
          rw [ihl, byteAt_take (by decide), ihl]
        simp only [hfits hip, hip, true_and, hihl]
        by_cases hlen : ihl (ctx.data.drop ethHdrLen) * 4 < ipv4HdrLen
        · exact .inr ⟨by omega, .inr (if_pos hlen)⟩
        · exact .inl ⟨by omega, _, if_neg hlen, .inl rfl, rfl⟩
      · simp [hends hip, hip]
    · simp only [h4, if_false, XdpReports, false_and, false_or]
      by_cases h6 : etherType ctx.data = etherTypeIpv6
      · simp only [h6, if_true, true_and]
        by_cases hip : ethHdrLen + ipv6HdrLen ≤ ctx.data.length
        · simp only [hfits hip]
          exact .inl ⟨hip, _, rfl, .inr rfl, rfl⟩
        · simp [hends hip, hip]
      · simp [h6]

/-- The transport part fills in ports and flags only. -/
theorem parseL4_ipVer_length (ctx : XdpContext) (l4Off : Nat) (l4Proto : UInt8)
    (event : PacketEvent) :
    (parseL4 ctx l4Off l4Proto event).ipVer = event.ipVer ∧
      (parseL4 ctx l4Off l4Proto event).length = event.length := by
  unfold parseL4
  split
  · split <;> exact ⟨rfl, rfl⟩
  · split
    · split <;> exact ⟨rfl, rfl⟩
    · exact ⟨rfl, rfl⟩

/-- An event with an IP version converts, and keeps its length. -/
theorem eventToMeta_of_ipVer (ts : Nat) {ev : PacketEvent} (h : ev.ipVer = 4 ∨ ev.ipVer = 6) :
    ∃ m, eventToMeta ts ev = some m ∧ m.length = ev.length.toNat := by
  rcases h with h | h
  · exact ⟨_, by simp [eventToMeta, h]; rfl, rfl⟩
  · exact ⟨_, by simp [eventToMeta, h]; rfl, rfl⟩

section
variable {M : Type} [PrefixMap M 32 UInt64]

/-- With room in the ring buffer, the XDP route reports a frame exactly when `XdpReports` says,
with the length of the whole frame. -/
theorem xdpRoute_spec (blocklist : M) (ctx : XdpContext) (stats : Stats) (ts : Nat)
    (hroom : ctx.ringHasRoom = true) :
    (XdpReports ctx.data ∧ ∃ m, xdpRoute blocklist ctx stats ts = some m ∧
      m.length = ctx.data.length % 2 ^ 32) ∨
    (¬ XdpReports ctx.data ∧ xdpRoute blocklist ctx stats ts = none) := by
  rcases parseIp_spec ctx with ⟨hrep, ip, hip, hver, hlen⟩ | ⟨hrep, hip | hip⟩
  · left
    refine ⟨hrep, ?_⟩
    have hevent : ∃ ev, (nsmXdp blocklist ctx stats).event = some ev ∧
        (ev.ipVer = 4 ∨ ev.ipVer = 6) ∧ ev.length = UInt32.ofNat ctx.data.length := by
      simp only [nsmXdp, tryNsmXdp, hip, bind, Except.bind, hroom, if_true]
      cases enforced blocklist ctx.nowNs ip.src4 with
      | true => exact ⟨_, rfl, hver, hlen⟩
      | false =>
        obtain ⟨h1, h2⟩ := parseL4_ipVer_length ctx ip.l4Off ip.l4Proto ip.event
        refine ⟨_, rfl, ?_, h2.trans hlen⟩
        simpa [h1] using hver
    obtain ⟨ev, hev, hver, hlen⟩ := hevent
    obtain ⟨m, hm, hmlen⟩ := eventToMeta_of_ipVer ts hver
    refine ⟨m, by simp [xdpRoute, hev, hm], ?_⟩
    simp [hmlen, hlen]
  · exact .inr ⟨hrep, by simp [xdpRoute, nsmXdp, tryNsmXdp, hip, bind, Except.bind]⟩
  · exact .inr ⟨hrep, by simp [xdpRoute, nsmXdp, tryNsmXdp, hip, bind, Except.bind]⟩

/-- The two routes hand the detectors the same packet, or both none, exactly on the frames neither
reports: where both report one, its lengths differ by the Ethernet header. -/
theorem routes_agree_iff (pnet : PnetPayload) (blocklist : M) (ctx : XdpContext) (stats : Stats)
    (ts ts' : Nat) (hroom : ctx.ringHasRoom = true) :
    (xdpRoute blocklist ctx stats ts).map PacketMeta.view =
        (parseEthernetFrame pnet ctx.data ts').map PacketMeta.view ↔
      ¬ XdpReports ctx.data ∧ ¬ PnetReports pnet ctx.data := by
  rcases xdpRoute_spec blocklist ctx stats ts hroom with ⟨hx, m, hm, hmlen⟩ | ⟨hx, hm⟩ <;>
    rcases parseEthernetFrame_spec pnet ctx.data ts' with ⟨hp, m', hm', hmlen'⟩ | ⟨hp, hm'⟩
  · refine iff_of_false ?_ fun h => h.1 hx
    simp only [hm, hm', Option.map_some, Option.some.injEq]
    intro hview
    have hlen : m.view.length = m'.view.length := congrArg PacketMeta.length hview
    change m.length = m'.length at hlen
    have hpos : ethHdrLen ≤ ctx.data.length := by
      rcases hx with ⟨-, h, -⟩ | ⟨-, h⟩ <;> omega
    simp only [ethHdrLen] at *
    omega
  · exact iff_of_false (by simp [hm, hm']) fun h => h.1 hx
  · exact iff_of_false (by simp [hm, hm']) fun h => h.2 hp
  · exact iff_of_true (by simp [hm, hm']) ⟨hx, hp⟩

end

/-- Payloads as the header and length fields of the wire format delimit them. -/
def wirePayload : PnetPayload where
  ipv4 ip := (ip.take (be16At ip 2).toNat).drop (ihl ip * 4)
  ipv6 ip := (ip.drop ipv6HdrLen).take (be16At ip 4).toNat
  tcp b := b.drop ((byteAt b 12).toNat / 16 * 4)
  udp b := (b.take (be16At b 4).toNat).drop udpHdrLen

/-- A frame on an interface, with room in the ring buffer. -/
def frameContext (data : List UInt8) : XdpContext := ⟨data, 0, true, 0, 0⟩

/-- An ARP frame. -/
def arpFrame : List UInt8 := List.replicate 12 0 ++ [8, 6] ++ List.replicate 28 0

/-- Neither route reports an ARP frame. -/
theorem routes_agree_arpFrame :
    (xdpRoute (PrefixMap.empty : ListTrie 32 UInt64 16) (frameContext arpFrame) ⟨0, 0, 0, 0⟩ 0).map
        PacketMeta.view =
      (parseEthernetFrame wirePayload arpFrame 0).map PacketMeta.view := by
  have hne : ∀ t, t = etherTypeIpv4 ∨ t = etherTypeIpv6 → etherType arpFrame ≠ t := by
    rintro t (rfl | rfl) <;> decide
  refine (routes_agree_iff wirePayload _ (frameContext arpFrame) _ 0 0 rfl).mpr ⟨?_, ?_⟩
  · rintro (⟨h, -⟩ | ⟨h, -⟩)
    · exact hne _ (.inl rfl) h
    · exact hne _ (.inr rfl) h
  · rintro (⟨h, -⟩ | ⟨h, -⟩)
    · exact hne _ (.inl rfl) h
    · exact hne _ (.inr rfl) h

/-- A TCP SYN from 10.0.0.9 to port 80 of 10.0.0.1. -/
def synFrame : List UInt8 :=
  List.replicate 12 0 ++ [8, 0] ++
    [0x45, 0, 0, 40, 0, 0, 0, 0, 64, 6, 0, 0, 10, 0, 0, 9, 10, 0, 0, 1] ++
    [0x30, 0x39, 0, 80, 0, 0, 0, 0, 0, 0, 0, 0, 0x50, 2, 0xff, 0xff, 0, 0, 0, 0]

/-- The XDP route reports the SYN with 54 bytes, the `pnet` route with 40. -/
theorem not_routes_agree :
    ¬ ∀ (blocklist : ListTrie 32 UInt64 16) (data : List UInt8) (stats : Stats) (ts ts' : Nat),
      (xdpRoute blocklist (frameContext data) stats ts).map PacketMeta.view =
        (parseEthernetFrame wirePayload data ts').map PacketMeta.view := by
  intro h
  have hsyn := h PrefixMap.empty synFrame ⟨0, 0, 0, 0⟩ 0 0
  have hlen := congrArg (Option.map PacketMeta.length) hsyn
  exact absurd hlen (by decide)

end ActiveDefense.Nsm
