import ActiveDefense.Firewall.Config
import ActiveDefense.Firewall.Packet
import ActiveDefense.Lib.Table
import ActiveDefense.Rust.Time

/-!
# The connection table

One entry for each flow, under a key that does not depend on the direction. A packet of a flow in
the table is accepted without a look at the rules; a packet that the rules accept enters its flow.
-/

namespace ActiveDefense.Firewall

inductive TcpState where
  | synSent
  | synAckSeen
  | established
  | finWait
  | closed
deriving DecidableEq, Repr

structure FlowKey where
  proto : UInt8
  ipLo : IpAddr
  portLo : UInt16
  ipHi : IpAddr
  portHi : UInt16
deriving DecidableEq, Repr

/-- The order of Rust's tuples `(ip, port)`. -/
def endpointLe (aIp : IpAddr) (aPort : UInt16) (bIp : IpAddr) (bPort : UInt16) : Bool :=
  if aIp = bIp then aPort ≤ bPort else aIp.le bIp

/-- `FlowKey::new`. -/
def FlowKey.new (aIp : IpAddr) (aPort : UInt16) (bIp : IpAddr) (bPort : UInt16) (proto : UInt8) :
    FlowKey :=
  if endpointLe aIp aPort bIp bPort then
    { proto, ipLo := aIp, portLo := aPort, ipHi := bIp, portHi := bPort }
  else { proto, ipLo := bIp, portLo := bPort, ipHi := aIp, portHi := aPort }

/-- The key of a packet's flow. -/
def ParsedPacket.flowKey (pkt : ParsedPacket) : FlowKey :=
  .new pkt.srcIp pkt.srcPort pkt.dstIp pkt.dstPort pkt.proto.protoNum

structure FlowEntry where
  state : TcpState
  lastSeen : Instant
  packets : UInt64
  bytes : UInt64
deriving DecidableEq, Repr

inductive LookupResult where
  | new
  | established
  | tableFull
deriving DecidableEq, Repr

structure ConnTrack where
  table : Table FlowKey FlowEntry
  cfg : ConntrackConfig

/-- The state of a flow after the flags of a packet in it. -/
def TcpState.next (state : TcpState) (flags : TcpFlags) : TcpState :=
  if flags.rst || flags.fin then .finWait
  else if flags.syn && flags.ack then .synAckSeen
  else if state = .synAckSeen then .established
  else state

/-- The entry of a flow after a packet in it. -/
def FlowEntry.see (entry : FlowEntry) (pkt : ParsedPacket) (now : Instant) : FlowEntry where
  state := (pkt.tcpFlags.map entry.state.next).getD entry.state
  lastSeen := now
  packets := entry.packets + 1
  bytes := entry.bytes + UInt64.ofNat pkt.payloadLen

namespace ConnTrack

/-- `ConnTrack::new`. -/
def new (cfg : ConntrackConfig) : ConnTrack := ⟨∅, cfg⟩

/-- `lookup_or_admit`. -/
def lookupOrAdmit (c : ConnTrack) (pkt : ParsedPacket) (now : Instant) :
    LookupResult × ConnTrack :=
  match c.table.lookup pkt.flowKey with
  | some entry =>
    (.established, { c with table := c.table.insert pkt.flowKey (entry.see pkt now) })
  | none => if c.cfg.maxEntries ≤ c.table.len then (.tableFull, c) else (.new, c)

/-- The state a flow starts in. -/
def firstState : Option TcpFlags → TcpState
  | some f => if f.syn && !f.ack then .synSent else .established
  | none => .established

/-- `record_new`. -/
def recordNew (c : ConnTrack) (pkt : ParsedPacket) (now : Instant) : ConnTrack :=
  { c with
    table := c.table.insert pkt.flowKey
      { state := firstState pkt.tcpFlags, lastSeen := now, packets := 1
        bytes := UInt64.ofNat pkt.payloadLen } }

/-- How long the entry of a flow lives without a packet. -/
def timeout (cfg : ConntrackConfig) (key : FlowKey) (entry : FlowEntry) : Duration :=
  if key.proto = 6 then
    if entry.state = .established then .fromSecs cfg.tcpEstablishedTimeoutSecs
    else .fromSecs cfg.tcpTransitoryTimeoutSecs
  else .fromSecs cfg.udpTimeoutSecs

/-- `sweep_expired`. -/
def sweepExpired (c : ConnTrack) (now : Instant) : ConnTrack :=
  { c with
    table := c.table.retain fun key entry =>
      now.durationSince entry.lastSeen < timeout c.cfg key entry }

/-! ## What the operations do to the set of flows -/

variable {c : ConnTrack} {pkt : ParsedPacket} {now : Instant} {key : FlowKey}

/-- A packet whose flow is in the table takes the fast path. -/
theorem lookupOrAdmit_of_mem (h : pkt.flowKey ∈ c.table) :
    c.lookupOrAdmit pkt now = (.established, (c.lookupOrAdmit pkt now).2) := by
  obtain ⟨entry, hentry⟩ := Option.isSome_iff_exists.mp (AList.lookup_isSome.mpr h)
  simp only [lookupOrAdmit, hentry]

/-- A new flow finds the table full, or is up to the rules. -/
theorem lookupOrAdmit_of_not_mem (h : pkt.flowKey ∉ c.table) :
    c.lookupOrAdmit pkt now =
      if c.cfg.maxEntries ≤ c.table.len then (.tableFull, c) else (.new, c) := by
  simp only [lookupOrAdmit, AList.lookup_eq_none.mpr h]

/-- A lookup neither adds nor removes a flow. -/
theorem mem_lookupOrAdmit : key ∈ (c.lookupOrAdmit pkt now).2.table ↔ key ∈ c.table := by
  rw [lookupOrAdmit]
  cases hentry : c.table.lookup pkt.flowKey with
  | some entry =>
    have hmem : pkt.flowKey ∈ c.table := AList.lookup_isSome.mp (by rw [hentry]; rfl)
    rw [AList.mem_insert]
    constructor
    · rintro (rfl | h)
      · exact hmem
      · exact h
    · exact .inr
  | none => dsimp only; split <;> rfl

/-- Recording a packet adds its flow. -/
theorem mem_recordNew :
    key ∈ (c.recordNew pkt now).table ↔ key = pkt.flowKey ∨ key ∈ c.table :=
  AList.mem_insert _

/-- A sweep adds no flow. -/
theorem mem_of_mem_sweepExpired (h : key ∈ (c.sweepExpired now).table) : key ∈ c.table :=
  Table.mem_of_mem_retain h

end ConnTrack

/-! ## The key of a flow -/

/-- Packets with one key have the same two endpoints, in one direction or the other, and parsed
protocols of one number. -/
theorem ParsedPacket.flowKey_eq {p q : ParsedPacket} (h : p.flowKey = q.flowKey) :
    p.proto.protoNum = q.proto.protoNum ∧
      ((p.srcIp = q.srcIp ∧ p.srcPort = q.srcPort ∧ p.dstIp = q.dstIp ∧ p.dstPort = q.dstPort) ∨
        (p.srcIp = q.dstIp ∧ p.srcPort = q.dstPort ∧ p.dstIp = q.srcIp ∧
          p.dstPort = q.srcPort)) := by
  simp only [flowKey, FlowKey.new] at h
  split at h <;> split at h <;> simp only [FlowKey.mk.injEq] at h <;>
    obtain ⟨hproto, hlo, hlop, hhi, hhip⟩ := h
  · exact ⟨hproto, .inl ⟨hlo, hlop, hhi, hhip⟩⟩
  · exact ⟨hproto, .inr ⟨hlo, hlop, hhi, hhip⟩⟩
  · exact ⟨hproto, .inr ⟨hhi, hhip, hlo, hlop⟩⟩
  · exact ⟨hproto, .inl ⟨hhi, hhip, hlo, hlop⟩⟩

end ActiveDefense.Firewall
