import ActiveDefense.Firewall.Nfqueue
import ActiveDefense.Lib.Run

/-!
# Which packets the fast path lets through

A packet of a flow in the connection table is accepted without a look at the rules. It is meant to
belong to a flow that the rules accepted: `Justified` says that an earlier packet between the same
endpoints and of the same IP protocol was accepted by them. The key of the table holds the parsed
protocol, and the parser gives every protocol it does not decode the number 0, and ICMP and ICMPv6
one number: a flow of one such protocol lets the others pass. `fast_path_justified` shows that this
is the only way, and `not_fast_path_justified` a run on which it happens.
-/

namespace ActiveDefense.Firewall

/-- The two packets have the same two endpoints, in one direction or the other. -/
def SameEndpoints (p q : ParsedPacket) : Prop :=
  (p.srcIp = q.srcIp ∧ p.srcPort = q.srcPort ∧ p.dstIp = q.dstIp ∧ p.dstPort = q.dstPort) ∨
    (p.srcIp = q.dstIp ∧ p.srcPort = q.dstPort ∧ p.dstIp = q.srcIp ∧ p.dstPort = q.srcPort)

/-- The rules accepted the packet, which parsed to `pkt`. -/
def Handled.AcceptedAs (h : Handled) (pkt : ParsedPacket) : Prop :=
  ∃ decision, h.outcome = .evaluated pkt decision ∧ decision.verdict = .accept

/-- Every packet that the fast path accepted came after one that the rules accepted, between the
same endpoints and of the same protocol on the wire. The latest packet is the first of the list. -/
def Justified (E : Etherparse) (handled : List Handled) : Prop :=
  ∀ (later earlier : List Handled) (h : Handled) (pkt : ParsedPacket),
    handled = later ++ h :: earlier → h.outcome = .established pkt →
      ∃ q ∈ earlier, ∃ pkt', q.AcceptedAs pkt' ∧ SameEndpoints pkt' pkt ∧
        E.wireProtocol q.msg.payload = E.wireProtocol h.msg.payload

/-- A packet whose flow is in the connection table has the wire protocol of every earlier packet
that parses to a packet of that flow. -/
def KeepsProtocol {τ : Type} (E : Etherparse) (s : System τ) : Event → Prop
  | .packet msg _ =>
    ∀ p, parse E msg.payload = .parsed p → p.flowKey ∈ s.wall.conntrack.table →
      ∀ q ∈ s.handled, ∀ p', parse E q.msg.payload = .parsed p' → p'.flowKey = p.flowKey →
        E.wireProtocol q.msg.payload = E.wireProtocol msg.payload
  | _ => True

section
variable {τ : Type} {E : Etherparse}

/-- What holds along a run: the flows in the table are those of packets that the rules accepted,
and the fast path is justified. -/
structure Traced (E : Etherparse) (s : System τ) : Prop where
  recorded : ∀ key ∈ s.wall.conntrack.table, ∃ q ∈ s.handled, ∃ pkt,
    q.AcceptedAs pkt ∧ parse E q.msg.payload = .parsed pkt ∧ pkt.flowKey = key
  justified : Justified E s.handled

/-- One more packet is justified if it did not take the fast path, or if an earlier packet
justifies it. -/
theorem Justified.cons {handled : List Handled} (hj : Justified E handled) (h : Handled)
    (hnew : ∀ pkt, h.outcome = .established pkt →
      ∃ q ∈ handled, ∃ pkt', q.AcceptedAs pkt' ∧ SameEndpoints pkt' pkt ∧
        E.wireProtocol q.msg.payload = E.wireProtocol h.msg.payload) :
    Justified E (h :: handled) := by
  intro later earlier h' pkt hsplit hout
  cases later with
  | nil =>
    obtain ⟨rfl, rfl⟩ := List.cons.inj hsplit
    exact hnew pkt hout
  | cons l later =>
    obtain ⟨rfl, hrest⟩ := List.cons.inj hsplit
    exact hj later earlier h' pkt hrest hout

/-- Steps that handle no packet and add no flow keep the trace. -/
theorem Traced.of_subset {s t : System τ} (hs : Traced E s) (hhandled : t.handled = s.handled)
    (htable : ∀ key ∈ t.wall.conntrack.table, key ∈ s.wall.conntrack.table) : Traced E t where
  recorded key hkey := by
    rw [hhandled]
    exact hs.recorded key (htable key hkey)
  justified := by
    rw [hhandled]
    exact hs.justified

/-- A packet that did not take the fast path keeps the trace, if it added no flow but its own, and
that only when the rules accepted it. -/
theorem Traced.handle {s : System τ} (hs : Traced E s) {msg : Msg} {o : Outcome} {w : Wall τ}
    (hnew : ∀ pkt, o = .established pkt →
      ∃ q ∈ s.handled, ∃ pkt', q.AcceptedAs pkt' ∧ SameEndpoints pkt' pkt ∧
        E.wireProtocol q.msg.payload = E.wireProtocol msg.payload)
    (htable : ∀ key ∈ w.conntrack.table, key ∈ s.wall.conntrack.table ∨
      ∃ pkt, (⟨msg, o⟩ : Handled).AcceptedAs pkt ∧ parse E msg.payload = .parsed pkt ∧
        pkt.flowKey = key) :
    Traced E ⟨w, ⟨msg, o⟩ :: s.handled⟩ where
  recorded key hkey := by
    obtain hold | ⟨pkt, hpkt⟩ := htable key hkey
    · obtain ⟨q, hq, hrec⟩ := hs.recorded key hold
      exact ⟨q, List.mem_cons_of_mem _ hq, hrec⟩
    · exact ⟨⟨msg, o⟩, .head _, pkt, hpkt⟩
  justified := hs.justified.cons _ hnew

variable [TokenArith τ]

/-- The step lemma for a packet. -/
theorem Traced.packet {s : System τ} (hs : Traced E s) {msg : Msg} {r : PacketReadings}
    (hkeeps : KeepsProtocol E s (.packet msg r)) {o : Outcome} {w : Wall τ}
    (hp : s.wall.Processed E msg.payload r o w) : Traced E ⟨w, ⟨msg, o⟩ :: s.handled⟩ := by
  cases hp with
  | fragment | malformed | quarantined | tableFull =>
    exact hs.handle (fun _ h => by cases h) fun _ hkey => .inl hkey
  | @established pkt hparse _ hmem =>
    refine hs.handle ?_ fun key hkey => .inl (ConnTrack.mem_lookupOrAdmit.mp hkey)
    intro pkt' hpkt
    cases hpkt
    -- the entry of the flow was made by an earlier packet, whose protocol the condition compares
    obtain ⟨q, hq, pkt', haccepted, hparse', hkey⟩ := hs.recorded _ hmem
    exact ⟨q, hq, pkt', haccepted, (ParsedPacket.flowKey_eq hkey).2,
      hkeeps pkt hparse hmem q hq pkt' hparse' hkey⟩
  | @evaluated pkt quarantine hparse _ _ _ _ =>
    refine hs.handle (fun _ h => by cases h) fun key hkey => ?_
    dsimp only at hkey
    split at hkey
    · next haccept =>
      obtain rfl | hold := ConnTrack.mem_recordNew.mp hkey
      · exact .inr ⟨pkt, ⟨_, rfl, haccept⟩, hparse, rfl⟩
      · exact .inl hold
    · exact .inl hkey

/-- The step lemma. -/
theorem Traced.step {s t : System τ} {e : Event} (hs : Traced E s) (hkeeps : KeepsProtocol E s e)
    (hst : System.Step E s e t) : Traced E t := by
  cases e with
  | packet msg r =>
    cases hp : s.wall.process E msg.payload r with
    | error p => simp [System.Step, System.next, hp, bind, Except.bind] at hst
    | ok res =>
      obtain ⟨o, w⟩ := res
      simp only [System.Step, System.next, hp, bind, Except.bind, Except.ok.injEq] at hst
      subst hst
      exact hs.packet hkeeps (Wall.processed_of_process hp)
  | sweepConntrack now =>
    cases hst
    exact hs.of_subset rfl fun _ hkey => ConnTrack.mem_of_mem_sweepExpired hkey
  | sweepQuarantine | engineMaintenance | reload | unban =>
    cases hst
    exact hs.of_subset rfl fun _ hkey => hkey

end

/-! ## TCP and UDP -/

/-- `etherparse` decodes a transport header as the protocol number asks for. -/
structure Etherparse.DecodesByNumber (E : Etherparse) : Prop where
  tcp : ∀ {raw : List UInt8} {headers : PacketHeaders} {sourcePort destinationPort : UInt16}
    {flags : TcpFlags}, E.packetHeadersFromIpSlice raw = some headers →
      headers.transport = some (.tcp sourcePort destinationPort flags) →
        E.wireProtocol raw = some 6
  udp : ∀ {raw : List UInt8} {headers : PacketHeaders} {sourcePort destinationPort : UInt16},
    E.packetHeadersFromIpSlice raw = some headers →
      headers.transport = some (.udp sourcePort destinationPort) → E.wireProtocol raw = some 17

/-- What a packet that parses was parsed from. -/
theorem exists_headers_of_parsed {E : Etherparse} {raw : List UInt8} {pkt : ParsedPacket}
    (h : parse E raw = .parsed pkt) :
    ∃ headers, ∃ ip : IpHeader, E.packetHeadersFromIpSlice raw = some headers ∧
      pkt.proto = (transportFields headers.transport).1 ∧
      ip.addresses = (pkt.srcIp, pkt.dstIp) := by
  rw [parse] at h
  split at h
  · next outcome hfrag =>
    subst h
    simp only [checkFragmentation] at hfrag
    split at hfrag <;> try split at hfrag
    all_goals cases hfrag
  · split at h
    · cases h
    · next headers hheaders =>
      split at h
      · cases h
      · next ip _ =>
        cases h
        exact ⟨headers, ip, hheaders, rfl, rfl⟩

/-- A packet of a TCP or UDP flow has that protocol on the wire. -/
theorem wireProtocol_of_protoNum {E : Etherparse} (hE : E.DecodesByNumber) {raw : List UInt8}
    {pkt : ParsedPacket} (h : parse E raw = .parsed pkt)
    (hproto : pkt.proto.protoNum = 6 ∨ pkt.proto.protoNum = 17) :
    E.wireProtocol raw = some pkt.proto.protoNum := by
  obtain ⟨headers, -, hheaders, hpkt, -⟩ := exists_headers_of_parsed h
  rw [hpkt] at hproto ⊢
  cases htransport : headers.transport with
  | none => simp [htransport, transportFields, L4Proto.protoNum] at hproto
  | some t =>
    cases t with
    | tcp => exact hE.tcp hheaders htransport
    | udp => exact hE.udp hheaders htransport
    | icmpv4 | icmpv6 => simp [htransport, transportFields, L4Proto.protoNum] at hproto

/-- The condition on runs is about protocols other than TCP and UDP only. -/
theorem keepsProtocol_of_tcp_or_udp {τ : Type} {E : Etherparse} (hE : E.DecodesByNumber)
    (s : System τ) {msg : Msg} (r : PacketReadings)
    (hproto : ∀ pkt, parse E msg.payload = .parsed pkt →
      pkt.proto.protoNum = 6 ∨ pkt.proto.protoNum = 17) :
    KeepsProtocol E s (.packet msg r) := by
  intro p hp _ q _ p' hp' hkey
  have hnum := (ParsedPacket.flowKey_eq hkey).1
  rw [wireProtocol_of_protoNum hE hp (hproto p hp),
    wireProtocol_of_protoNum hE hp' (hnum ▸ hproto p hp), hnum]

/-! ## A run on which it happens -/

/-- What `etherparse` returns for an IPv4 packet without options whose protocol it does not
decode. -/
def bareIpv4 : List UInt8 → Option (IpHeader × UInt8 × List UInt8)
  | v :: _ :: _ :: _ :: _ :: _ :: f₀ :: f₁ :: _ :: protocol :: _ :: _ ::
      s₀ :: s₁ :: s₂ :: s₃ :: d₀ :: d₁ :: d₂ :: d₃ :: payload =>
    if v = 0x45 ∧ protocol ∉ [1, 6, 17, 51, 58] then
      some (.version4 (Ipv4Addr.new s₀ s₁ s₂ s₃) (Ipv4Addr.new d₀ d₁ d₂ d₃)
        (UInt16.ofNat ((f₀.toNat * 256 + f₁.toNat) % 8192)), protocol, payload)
    else none
  | _ => none

/-- `etherparse` on such packets. -/
def bareEtherparse : Etherparse where
  ipHeaderFromSlice raw := (bareIpv4 raw).map fun p => (p.1, p.2.1)
  packetHeadersFromIpSlice raw := (bareIpv4 raw).map fun p => ⟨some p.1, none, p.2.2.length⟩

/-- A packet from 10.0.0.1 to 10.0.0.2 of a given protocol, with four bytes of payload. -/
def tunnelPacket (protocol : UInt8) : Msg where
  payload := [0x45, 0, 0, 24, 0, 0, 0, 0, 64, protocol, 0, 0, 10, 0, 0, 1, 10, 0, 0, 2, 0, 0, 8, 0]
  indev := 2
  outdev := 0

/-- What it parses to, whatever its protocol. -/
def tunnelParsed : ParsedPacket where
  srcIp := .v4 (Ipv4Addr.new 10 0 0 1)
  dstIp := .v4 (Ipv4Addr.new 10 0 0 2)
  proto := .other 0
  srcPort := 0
  dstPort := 0
  tcpFlags := none
  payloadLen := 4

/-- Such a packet handled at a given time. -/
def tunnelEvent (protocol : UInt8) (t : Instant) : Event :=
  .packet (tunnelPacket protocol) ⟨t, t, ⟨t, t⟩, t, t⟩

/-- A configuration that accepts what comes from 10.0.0.1. -/
def tunnelConfig : Config where
  rules := [{ name := "tunnels".toList, action := .accept
              src := .cidr (.v4 ⟨Ipv4Addr.new 10 0 0 1, 32, hostLen_le⟩) }]

/-- The system after an event that does not panic. -/
def System.after (s : System Float) (e : Event) : System Float :=
  match s.next bareEtherparse e with
  | .ok t => t
  | .error _ => s

theorem System.step_after {s : System Float} {e : Event}
    (h : (s.next bareEtherparse e).isOk = true) :
    System.Step bareEtherparse s e (s.after e) := by
  rw [System.Step, System.after]
  cases hn : s.next bareEtherparse e with
  | ok t => rfl
  | error p => simp [hn, Except.isOk, Except.toBool] at h

/-- The system after a packet of protocol 47 (GRE). -/
def tunnelOpened : System Float := (System.new tunnelConfig none).after (tunnelEvent 47 0)

theorem step_tunnelOpened :
    System.Step bareEtherparse (System.new tunnelConfig none) (tunnelEvent 47 0) tunnelOpened :=
  System.step_after (by decide +kernel)

theorem handled_tunnelOpened : tunnelOpened.handled.map Handled.msg = [tunnelPacket 47] := by
  decide +kernel

/-- In every run, from the start of the program, in which a packet has the wire protocol of the
earlier packets that parse to its flow, the fast path accepts only packets of flows that the rules
accepted. -/
theorem fast_path_justified {τ : Type} [TokenArith τ] {E : Etherparse} {cfg : Config}
    {osSync : Option SyncQueue} {es : List Event} {s : System τ}
    (h : Run (System.Step E) (KeepsProtocol E) (System.new cfg osSync) es s) :
    Justified E s.handled := by
  have hinit : Traced E (System.new cfg osSync : System τ) := by
    refine ⟨fun key hkey => ?_, fun later earlier h pkt hsplit => ?_⟩
    · cases osSync <;> exact absurd hkey (AList.notMem_empty key)
    · exact absurd hsplit (by simp [System.new])
  exact (h.invariant (I := Traced E) hinit fun _ _ _ hs hkeeps hst => hs.step hkeeps hst).justified

/-- A second packet of protocol 47 is justified by the first one. -/
theorem fast_path_justified_tunnel :
    Justified bareEtherparse (tunnelOpened.after (tunnelEvent 47 1)).handled := by
  have hstep : System.Step bareEtherparse tunnelOpened (tunnelEvent 47 1) _ :=
    System.step_after (by decide +kernel)
  refine fast_path_justified ((Run.nil.snoc ?_ step_tunnelOpened).snoc ?_ hstep)
  · intro p _ _ q hq
    cases hq
  · intro p _ _ q hq p' _ _
    have hmsg := List.mem_map_of_mem (f := Handled.msg) hq
    rw [handled_tunnelOpened, List.mem_singleton] at hmsg
    rw [hmsg]

/-- After a packet of protocol 47 the fast path accepts one of protocol 50 (ESP), which no packet
that the rules accepted justifies. -/
theorem not_fast_path_justified :
    ¬ ∀ (E : Etherparse) (cfg : Config) (es : List Event) (s : System Float),
      Run (System.Step E) (fun _ _ => True) (System.new cfg none) es s →
        Justified E s.handled := by
  intro h
  have hstep : System.Step bareEtherparse tunnelOpened (tunnelEvent 50 1) _ :=
    System.step_after (by decide +kernel)
  have hj := h _ _ _ _ ((Run.nil.snoc trivial step_tunnelOpened).snoc trivial hstep)
  have hhandled : (tunnelOpened.after (tunnelEvent 50 1)).handled =
      ⟨tunnelPacket 50, .established tunnelParsed⟩ :: tunnelOpened.handled := by
    decide +kernel
  obtain ⟨q, hq, _, _, _, hwire⟩ := hj [] _ _ tunnelParsed hhandled rfl
  have hmsg := List.mem_map_of_mem (f := Handled.msg) hq
  rw [handled_tunnelOpened, List.mem_singleton] at hmsg
  rw [hmsg] at hwire
  exact absurd hwire (by decide)

end ActiveDefense.Firewall
