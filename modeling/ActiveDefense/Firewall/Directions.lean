import ActiveDefense.Firewall.Trusted
import ActiveDefense.Firewall.LinearScan

/-!
# Rules with a direction

A rule may be restricted to one direction, and the loop knows the direction of a packet from its
devices. It does not tell the engine, and `direction_matches` lets everything pass: so the first
rule that covers a packet decides on it, be it meant for the packet's direction or not. A rule keeps
to its direction only where that rule is not the first.
-/

namespace ActiveDefense.Firewall

/-- The direction that the loop gives a packet by its devices. -/
def Msg.direction (msg : Msg) : Ingestion.Direction := if msg.indev ≠ 0 then .ingress else .egress

/-- The direction of a rule is not that of a packet. -/
def Direction.Opposes : Direction → Ingestion.Direction → Prop
  | .inbound, .egress => True
  | .outbound, .ingress => True
  | _, _ => False

/-- What a rule says of a packet, its direction apart. -/
def Rule.covers (aliases : Table Str (List IpNet)) (rule : Rule) (pkt : ParsedPacket) : Bool :=
  protoMatches rule.protocol pkt.proto &&
    networkMatches aliases rule.src pkt.srcIp &&
    networkMatches aliases rule.dst pkt.dstIp &&
    rule.srcPort.contains pkt.srcPort &&
    rule.dstPort.contains pkt.dstPort

/-- A rule matches whatever it covers. -/
theorem ruleMatches_eq_covers (aliases : Table Str (List IpNet)) (rule : Rule)
    (pkt : ParsedPacket) : ruleMatches aliases rule pkt = rule.covers aliases pkt :=
  Bool.and_true _

/-! ## The rule that decides -/

section
variable {τ : Type} [TokenArith τ] {E : Etherparse}

namespace Engine

/-- The index is that of the rules. -/
def Indexed (e : Engine τ) : Prop := e.index = .build e.rules

omit [TokenArith τ] in
theorem indexed_new (cfg : Config) : (Engine.new cfg : Engine τ).Indexed := rfl

theorem Indexed.evaluate {e : Engine τ} (h : e.Indexed) (pkt : ParsedPacket) (r : Readings) :
    (e.evaluate pkt r).2.Indexed := by
  unfold Engine.evaluate
  split
  · exact h
  · exact h

omit [TokenArith τ] in
/-- The first rule that covers the packet decides, unless the source is trusted. -/
theorem Indexed.decidedBy {e : Engine τ} (h : e.Indexed) (pkt : ParsedPacket) :
    (e.decidedBy pkt).map e.rules.get =
      if e.isTrusted pkt.srcIp then none else e.rules.find? (·.covers e.aliases pkt) := by
  unfold Engine.decidedBy
  split
  · rfl
  · have hfirst : (e.index.candidates pkt).find?
        (fun idx => ruleMatches e.aliases (e.rules.get idx) pkt) =
          (List.finRange e.rules.length).find?
            fun idx => ruleMatches e.aliases (e.rules.get idx) pkt := by
      rw [h, ← List.head?_filter, ← List.head?_filter, filter_candidates]
    have hrules : e.rules.find? (·.covers e.aliases pkt) =
        ((List.finRange e.rules.length).find?
          fun idx => ruleMatches e.aliases (e.rules.get idx) pkt).map e.rules.get := by
      conv_lhs => rw [← List.map_get_finRange e.rules, List.find?_map]
      simp only [Function.comp_def, ruleMatches_eq_covers]
    rw [hrules, ← hfirst]
    rfl

end Engine

namespace Wall

/-- The body of the loop asks the rules about the packet. -/
structure Evaluates (E : Etherparse) (w : Wall τ) (raw : List UInt8) (r : PacketReadings)
    (pkt : ParsedPacket) : Prop where
  parsed : parse E raw = .parsed pkt
  free : (!w.engine.isTrusted pkt.srcIp && w.quarantine.isActive pkt.srcIp r.isActive) = false
  admitted : (w.conntrack.lookupOrAdmit pkt r.lookup).1 = .new

theorem Evaluates.process_eq {w : Wall τ} {raw : List UInt8} {r : PacketReadings}
    {pkt : ParsedPacket} (h : w.Evaluates E raw r pkt) :
    w.process E raw r = w.newFlow pkt r := by
  have hnew := h.admitted
  generalize hres : w.conntrack.lookupOrAdmit pkt r.lookup = res at hnew
  obtain ⟨result, conntrack⟩ := res
  cases hnew
  simp [process, h.parsed, processParsed, h.free, hres]

/-- The rule decides on the packet. -/
def Decides (E : Etherparse) (w : Wall τ) (raw : List UInt8) (r : PacketReadings) (rule : Rule) :
    Prop :=
  ∃ pkt, w.Evaluates E raw r pkt ∧ (w.engine.decidedBy pkt).map w.engine.rules.get = some rule

/-- What the rule does with the packet is the outcome. -/
theorem Decides.outcome {w w' : Wall τ} {raw : List UInt8} {r : PacketReadings} {rule : Rule}
    {o : Outcome} (h : w.Decides E raw r rule) (hprocess : w.process E raw r = .ok (o, w')) :
    ∃ pkt idx, o = .evaluated pkt (rule.apply idx pkt w.engine.tables r.evaluate).1 := by
  obtain ⟨pkt, hevaluates, hrule⟩ := h
  obtain ⟨idx, hidx, rfl⟩ := Option.map_eq_some_iff.mp hrule
  have hrun := hevaluates.process_eq.symm.trans hprocess
  have hdecision : (w.engine.evaluate pkt r.evaluate).1 =
      ((w.engine.rules.get idx).apply idx pkt w.engine.tables r.evaluate).1 :=
    Engine.evaluate_of_decidedBy hidx r.evaluate
  refine ⟨pkt, idx, ?_⟩
  rw [← hdecision]
  dsimp only [newFlow] at hrun
  cases hban : autoBlock w.quarantine (w.engine.evaluate pkt r.evaluate).1 pkt.srcIp r.ban with
  | error p =>
    rw [hban] at hrun
    cases hrun
  | ok quarantine =>
    rw [hban] at hrun
    cases hrun
    rfl

end Wall

/-! ## Runs -/

/-- Whatever happens, the engine looks its rules up in their own index. -/
theorem System.Step.indexed {s t : System τ} {e : Event} (hs : s.wall.engine.Indexed)
    (hst : System.Step E s e t) : t.wall.engine.Indexed := by
  cases e with
  | packet msg r =>
    cases hp : s.wall.process E msg.payload r with
    | error p => simp [System.Step, System.next, hp, bind, Except.bind] at hst
    | ok res =>
      obtain ⟨o, w⟩ := res
      simp only [System.Step, System.next, hp, bind, Except.bind, Except.ok.injEq] at hst
      subst hst
      cases Wall.processed_of_process hp with
      | evaluated => exact hs.evaluate _ _
      | _ => exact hs
  | reload cfg =>
    cases hst
    exact Engine.indexed_new cfg
  | sweepConntrack | sweepQuarantine | engineMaintenance | unban =>
    cases hst
    exact hs

/-- In every state that the system reaches and for every packet: no rule decides on the packet
against its own direction, if and only if the packet does not come to the rules, or its source is
trusted, or the first rule that covers it is not one for the other direction. -/
theorem directed_iff {cfg : Config} {osSync : Option SyncQueue} {s : System τ}
    (h : Reachable (System.Step E) (System.new cfg osSync) s) (msg : Msg) (r : PacketReadings) :
    (∀ rule, s.wall.Decides E msg.payload r rule → ¬ rule.direction.Opposes msg.direction) ↔
      ∀ pkt, s.wall.Evaluates E msg.payload r pkt → s.wall.engine.isTrusted pkt.srcIp = false →
        ∀ rule, s.wall.engine.rules.find? (·.covers s.wall.engine.aliases pkt) = some rule →
          ¬ rule.direction.Opposes msg.direction := by
  have hindexed : s.wall.engine.Indexed :=
    h.invariant (I := fun s => s.wall.engine.Indexed) (Engine.indexed_new cfg)
      fun _ _ _ hs hst => System.Step.indexed hs hst
  constructor
  · intro hrules pkt hevaluates huntrusted rule hfirst
    refine hrules rule ⟨pkt, hevaluates, ?_⟩
    rw [hindexed.decidedBy, huntrusted]
    exact hfirst
  · rintro hfirst rule ⟨pkt, hevaluates, hrule⟩
    rw [hindexed.decidedBy] at hrule
    split at hrule
    · cases hrule
    · next huntrusted => exact hfirst pkt hevaluates (by simpa using huntrusted) rule hrule

end

/-! ## A packet that goes out -/

/-- A rule that accepts what comes in from 10.0.0.1. -/
def inboundRule : Rule where
  name := "tunnels".toList
  action := .accept
  direction := .inbound
  src := .cidr (.v4 ⟨Ipv4Addr.new 10 0 0 1, 32, hostLen_le⟩)

def inboundConfig : Config where
  rules := [inboundRule]

/-- The packet of protocol 47 on its way out. -/
def tunnelOut : Msg := { tunnelPacket 47 with indev := 0, outdev := 3 }

/-- The rule decides on the packet, whatever its devices. -/
theorem decides_inboundRule :
    (System.new inboundConfig none : System Float).wall.Decides bareEtherparse
      (tunnelPacket 47).payload (.at 0) inboundRule := by
  refine ⟨tunnelParsed, ⟨by decide, rfl, rfl⟩, ?_⟩
  refine ((Engine.indexed_new (τ := Float) inboundConfig).decidedBy tunnelParsed).trans ?_
  decide

/-- The rule for what comes in decides on a packet that comes in. -/
theorem directed_iff_inbound :
    (System.new inboundConfig none : System Float).wall.Decides bareEtherparse
      (tunnelPacket 47).payload (.at 0) inboundRule ∧
    ∀ rule, (System.new inboundConfig none : System Float).wall.Decides bareEtherparse
      (tunnelPacket 47).payload (.at 0) rule →
        ¬ rule.direction.Opposes (tunnelPacket 47).direction := by
  refine ⟨decides_inboundRule, (directed_iff .refl (tunnelPacket 47) (.at 0)).mpr ?_⟩
  intro pkt hevaluates _ rule hfirst
  have hmem : rule ∈ inboundConfig.rules := List.mem_of_find?_eq_some hfirst
  rw [List.mem_singleton.mp hmem]
  exact id

/-- It decides on a packet that goes out as well. -/
theorem not_directed : ¬ ∀ (E : Etherparse) (cfg : Config) (s : System Float),
    Reachable (System.Step E) (System.new cfg none) s → ∀ (msg : Msg) (r : PacketReadings)
      (rule : Rule), s.wall.Decides E msg.payload r rule →
        ¬ rule.direction.Opposes msg.direction := by
  intro h
  exact h bareEtherparse inboundConfig _ .refl tunnelOut (.at 0) inboundRule decides_inboundRule
    trivial

end ActiveDefense.Firewall
