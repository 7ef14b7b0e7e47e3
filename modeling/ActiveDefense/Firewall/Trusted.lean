import ActiveDefense.Firewall.FastPath

/-!
# What happens to packets from trusted sources

A source in the `trusted` list of the configuration is exempt from the ban list and from the rules.
It is not exempt from the bound of the connection table: `trusted_accepted_iff` says that its packet
is accepted exactly when it parses and its flow is in the table, or the table has room. So whoever
fills the table shuts the management hosts out as well, which `not_trusted_accepted` shows on two
packets.
-/

namespace ActiveDefense.Firewall

/-- The source address of a packet: the one the loop works with or, for a packet that the loop
cannot classify, the one in its IP header. -/
def sourceAddress (E : Etherparse) (raw : List UInt8) : Option IpAddr :=
  match parse E raw with
  | .parsed pkt => some pkt.srcIp
  | .unclassifiableFragment | .malformed => (E.ipHeaderFromSlice raw).map fun h => h.1.addresses.1

/-- The configuration that the engine runs on after an event. -/
def Event.configFrom (cfg : Config) : Event → Config
  | .reload cfg' => cfg'
  | _ => cfg

/-- The configuration that the engine runs on after some events: the one of the last reload. -/
def configAfter (cfg : Config) (es : List Event) : Config := es.foldl Event.configFrom cfg

/-- The loop gives the packet the verdict accept. -/
def Wall.Accepts {τ : Type} [TokenArith τ] (E : Etherparse) (w : Wall τ) (raw : List UInt8)
    (r : PacketReadings) : Prop :=
  ∃ o w', w.process E raw r = .ok (o, w') ∧ o.nfqVerdict = .accept

section
variable {τ : Type} [TokenArith τ] {E : Etherparse}

/-- Handling packets does not change the trusted list. -/
theorem Wall.Processed.trusted {w w' : Wall τ} {raw : List UInt8} {r : PacketReadings}
    {o : Outcome} (h : w.Processed E raw r o w') : w'.engine.trusted = w.engine.trusted := by
  cases h with
  | evaluated =>
    show (w.engine.evaluate _ r.evaluate).2.trusted = _
    rw [Engine.evaluate]
    split <;> rfl
  | _ => rfl

/-- Only a reload changes the trusted list. -/
theorem System.Step.trusted {s t : System τ} {e : Event} {cfg : Config}
    (hs : s.wall.engine.trusted = cfg.trusted) (hst : System.Step E s e t) :
    t.wall.engine.trusted = (e.configFrom cfg).trusted := by
  cases e with
  | packet msg r =>
    cases hp : s.wall.process E msg.payload r with
    | error p => simp [System.Step, System.next, hp, bind, Except.bind] at hst
    | ok res =>
      obtain ⟨o, w⟩ := res
      simp only [System.Step, System.next, hp, bind, Except.bind, Except.ok.injEq] at hst
      subst hst
      exact (Wall.processed_of_process hp).trusted.trans hs
  | reload cfg' =>
    cases hst
    rfl
  | sweepConntrack | sweepQuarantine | engineMaintenance | unban =>
    cases hst
    exact hs

/-- Along a run the engine trusts the sources of the configuration in force. -/
theorem trusted_of_run {cfg : Config} {osSync : Option SyncQueue} {es : List Event} {s : System τ}
    (h : Run (System.Step E) (fun _ _ => True) (System.new cfg osSync) es s) :
    s.wall.engine.trusted = (configAfter cfg es).trusted := by
  induction h with
  | nil => rfl
  | snoc _ _ hst ih =>
    rw [configAfter, List.foldl_append]
    exact hst.trusted ih

/-- The rules accept a new flow of a trusted source, and ban nobody. -/
theorem Wall.newFlow_of_trusted {w : Wall τ} {pkt : ParsedPacket} {r : PacketReadings}
    (htrust : w.engine.isTrusted pkt.srcIp = true) :
    w.newFlow pkt r = .ok (.evaluated pkt trustedBypass,
      { w with conntrack := w.conntrack.recordNew pkt r.recordNew }) := by
  have hdecision : w.engine.evaluate pkt r.evaluate = (trustedBypass, w.engine) :=
    if_pos htrust
  simp only [newFlow, hdecision]
  rfl

/-- A packet from a trusted source is accepted unless its flow is new and the table is full. -/
theorem Wall.accepts_of_trusted {w : Wall τ} {raw : List UInt8} {pkt : ParsedPacket}
    {r : PacketReadings} (hparse : parse E raw = .parsed pkt)
    (htrust : w.engine.isTrusted pkt.srcIp = true) :
    w.Accepts E raw r ↔
      pkt.flowKey ∈ w.conntrack.table ∨ w.conntrack.table.len < w.conntrack.cfg.maxEntries := by
  have hprocess : w.process E raw r = w.processParsed pkt r := by rw [process, hparse]
  have hskip : ¬(!w.engine.isTrusted pkt.srcIp && w.quarantine.isActive pkt.srcIp r.isActive) =
      true := by
    simp [htrust]
  rw [Accepts, hprocess, processParsed, if_neg hskip]
  by_cases hmem : pkt.flowKey ∈ w.conntrack.table
  · rw [ConnTrack.lookupOrAdmit_of_mem hmem]
    exact ⟨fun _ => .inl hmem, fun _ => ⟨_, _, rfl, rfl⟩⟩
  · rw [ConnTrack.lookupOrAdmit_of_not_mem hmem]
    by_cases hfull : w.conntrack.cfg.maxEntries ≤ w.conntrack.table.len
    · rw [if_pos hfull]
      constructor
      · rintro ⟨o, w', hok, haccept⟩
        cases hok
        cases haccept
      · rintro (h | h)
        · exact absurd h hmem
        · exact absurd h (Nat.not_lt.mpr hfull)
    · rw [if_neg hfull]
      dsimp only
      rw [newFlow_of_trusted htrust]
      exact ⟨fun _ => .inr (Nat.not_le.mp hfull), fun _ => ⟨_, _, rfl, rfl⟩⟩

/-- A packet that does not parse is never accepted. -/
theorem Wall.parsed_of_accepts {w : Wall τ} {raw : List UInt8} {r : PacketReadings}
    (h : w.Accepts E raw r) : ∃ pkt, parse E raw = .parsed pkt := by
  obtain ⟨o, w', hok, haccept⟩ := h
  cases Wall.processed_of_process hok with
  | fragment | malformed | quarantined | tableFull => cases haccept
  | established hparse | evaluated hparse => exact ⟨_, hparse⟩

end

/-! ## A full table -/

/-- A packet of protocol 47 (GRE) from a host of 10.0.0.0/24 to 10.0.0.2. -/
def hostPacket (host : UInt8) : Msg where
  payload := [0x45, 0, 0, 24, 0, 0, 0, 0, 64, 47, 0, 0, 10, 0, 0, host, 10, 0, 0, 2, 0, 0, 8, 0]
  indev := 2
  outdev := 0

/-- A table for one flow, a rule that accepts what comes from 10.0.0.1, and 10.0.0.3 trusted. -/
def managedConfig : Config :=
  { tunnelConfig with
    conntrack := { maxEntries := 1 }
    trusted := [.v4 (Ipv4Addr.new 10 0 0 3)] }

/-- The readings while a packet is handled at one time. -/
def PacketReadings.at (t : Instant) : PacketReadings := ⟨t, t, ⟨t, t⟩, t, t⟩

/-- The system after a packet of 10.0.0.1. -/
def managedFull : System Float := (System.new managedConfig none).after (tunnelEvent 47 0)

theorem sourceAddress_hostPacket :
    sourceAddress bareEtherparse (hostPacket 3).payload =
      some (.v4 (Ipv4Addr.new 10 0 0 3)) := by
  decide

/-- In every state that the system reaches, a packet whose source is trusted by the configuration
in force is accepted if and only if it parses and its flow is in the connection table, or there is
room in it. -/
theorem trusted_accepted_iff {τ : Type} [TokenArith τ] {E : Etherparse} {cfg : Config}
    {osSync : Option SyncQueue} {es : List Event} {s : System τ}
    (h : Run (System.Step E) (fun _ _ => True) (System.new cfg osSync) es s)
    {raw : List UInt8} {r : PacketReadings} {src : IpAddr}
    (hsrc : sourceAddress E raw = some src) (htrust : src ∈ (configAfter cfg es).trusted) :
    s.wall.Accepts E raw r ↔ ∃ pkt, parse E raw = .parsed pkt ∧
      (pkt.flowKey ∈ s.wall.conntrack.table ∨
        s.wall.conntrack.table.len < s.wall.conntrack.cfg.maxEntries) := by
  have hsource {pkt : ParsedPacket} (hparse : parse E raw = .parsed pkt) :
      s.wall.engine.isTrusted pkt.srcIp = true := by
    simp only [sourceAddress, hparse, Option.some.injEq] at hsrc
    rw [Engine.isTrusted, trusted_of_run h, hsrc, List.contains_iff_mem]
    exact htrust
  constructor
  · intro haccept
    obtain ⟨pkt, hparse⟩ := Wall.parsed_of_accepts haccept
    exact ⟨pkt, hparse, (Wall.accepts_of_trusted hparse (hsource hparse)).mp haccept⟩
  · rintro ⟨pkt, hparse, hroom⟩
    exact (Wall.accepts_of_trusted hparse (hsource hparse)).mpr hroom

/-- At the start of the program there is room for a packet of 10.0.0.3. -/
theorem trusted_accepted_at_start :
    (System.new managedConfig none : System Float).wall.Accepts bareEtherparse
      (hostPacket 3).payload (.at 0) := by
  have hrun : Run (System.Step bareEtherparse) (fun _ _ => True) (System.new managedConfig none) []
      (System.new managedConfig none : System Float) :=
    .nil
  exact (trusted_accepted_iff hrun sourceAddress_hostPacket (by decide)).mpr
    ⟨_, rfl, .inr (by decide)⟩

/-- After the packet of 10.0.0.1 the one of 10.0.0.3, a trusted source, is dropped. -/
theorem not_trusted_accepted :
    ¬ ∀ (E : Etherparse) (cfg : Config) (es : List Event) (s : System Float) (raw : List UInt8)
      (r : PacketReadings) (src : IpAddr),
      Run (System.Step E) (fun _ _ => True) (System.new cfg none) es s →
        sourceAddress E raw = some src → src ∈ (configAfter cfg es).trusted →
          s.wall.Accepts E raw r := by
  intro h
  have hstep : System.Step bareEtherparse (System.new managedConfig none) (tunnelEvent 47 0)
      managedFull :=
    System.step_after (by decide +kernel)
  obtain ⟨o, w, hok, haccept⟩ := h bareEtherparse managedConfig [tunnelEvent 47 0] managedFull
    (hostPacket 3).payload (.at 1) _ (Run.nil.snoc trivial hstep) sourceAddress_hostPacket
    (by decide)
  have hdrop : ((managedFull.wall.process bareEtherparse (hostPacket 3).payload (.at 1)).map
      fun p => p.1.nfqVerdict) = .ok .drop := by
    decide +kernel
  rw [hok] at hdrop
  rw [Except.map, haccept] at hdrop
  cases hdrop

end ActiveDefense.Firewall
