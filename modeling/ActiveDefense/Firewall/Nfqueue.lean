import ActiveDefense.Firewall.Conntrack
import ActiveDefense.Firewall.Engine
import ActiveDefense.Firewall.Quarantine

/-!
# The packet loop

`Wall.process` is the body of the loop of an NFQUEUE worker: parse, ban list, connection table,
rules. The three tables live on between packets, and other threads work on them as well: the
maintenance thread sweeps them, an administrator lifts bans, a signal replaces the rules. A
`System` is the tables with the packets handled so far; its events are what happens between two
states of it.
-/

namespace ActiveDefense.Firewall

/-- A queued packet: its bytes from the IP header on, and its devices. -/
structure Msg where
  payload : List UInt8
  indev : UInt32
  outdev : UInt32
deriving DecidableEq, Repr

/-- What `set_verdict` is called with. -/
inductive NfqVerdict where
  | accept
  | drop
deriving DecidableEq, Repr

/-- The branch of the loop that gave a packet its verdict. -/
inductive Outcome where
  | fragment
  | malformed
  | quarantined (pkt : ParsedPacket)
  | established (pkt : ParsedPacket)
  | tableFull (pkt : ParsedPacket)
  | evaluated (pkt : ParsedPacket) (decision : Decision)
deriving DecidableEq, Repr

/-- The verdict on a packet. -/
def Outcome.verdict : Outcome → Verdict
  | .fragment | .malformed | .quarantined _ | .tableFull _ => .drop
  | .established _ => .accept
  | .evaluated _ decision => decision.verdict

/-- The verdict posted to the queue. -/
def Outcome.nfqVerdict (o : Outcome) : NfqVerdict :=
  match o.verdict with
  | .accept => .accept
  | .drop | .reject => .drop

/-! ## Hand-over to ingestion -/

namespace Ingestion

/-- `ingestion::Direction`. -/
inductive Direction where
  | ingress
  | egress
deriving DecidableEq, Repr

/-- `ingestion::FlowKey`. -/
structure FlowKey where
  srcIp : IpAddr
  dstIp : IpAddr
  srcPort : UInt16
  dstPort : UInt16
  protocol : L4Proto
deriving DecidableEq, Repr

/-- `IngestedPacket`, before the pipeline numbers it. -/
structure IngestedPacket where
  flow : FlowKey
  ifindex : UInt32
  direction : Direction
  payload : List UInt8
deriving DecidableEq, Repr

/-- `IngestedPacket::from_accepted`. -/
def IngestedPacket.fromAccepted (parsed : ParsedPacket) (raw : List UInt8) (ifindex : UInt32)
    (direction : Direction) : IngestedPacket where
  flow :=
    { srcIp := parsed.srcIp, dstIp := parsed.dstIp, srcPort := parsed.srcPort
      dstPort := parsed.dstPort, protocol := parsed.proto }
  ifindex := ifindex
  direction := direction
  payload := raw

end Ingestion

/-- The packet an outcome is about. -/
def Outcome.pkt? : Outcome → Option ParsedPacket
  | .fragment | .malformed => none
  | .quarantined pkt | .established pkt | .tableFull pkt | .evaluated pkt _ => some pkt

/-- What the loop submits to ingestion: the packets it accepts, with the device they are on. -/
def Outcome.submitted (o : Outcome) (msg : Msg) : Option Ingestion.IngestedPacket :=
  if o.verdict = .accept then
    o.pkt?.map fun pkt =>
      if msg.indev ≠ 0 then .fromAccepted pkt msg.payload msg.indev .ingress
      else .fromAccepted pkt msg.payload msg.outdev .egress
  else none

/-! ## The body of the loop -/

/-- The readings of the clock while one packet is handled. -/
structure PacketReadings where
  isActive : Instant
  lookup : Instant
  evaluate : Readings
  recordNew : Instant
  ban : Instant
deriving DecidableEq, Repr

/-- What the workers share. -/
structure Wall (τ : Type) where
  engine : Engine τ
  conntrack : ConnTrack
  quarantine : Quarantine

namespace Wall

variable {τ : Type} [TokenArith τ]

/-- The tables at the start of the program. -/
def new (cfg : Config) (osSync : Option SyncQueue) : Wall τ where
  engine := .new cfg
  conntrack := .new cfg.conntrack
  quarantine :=
    match osSync with
    | none => .new cfg.quarantineMaxEntries
    | some tx => .withOsSync cfg.quarantineMaxEntries tx

/-- The ban that a decision calls for. -/
def autoBlock (q : Quarantine) (decision : Decision) (srcIp : IpAddr) (now : Instant) :
    Except Panic Quarantine :=
  match decision.autoBlockSecs with
  | none => .ok q
  | some secs => (q.ban srcIp (.fromSecs secs) now).map Prod.snd

/-- The branch of a new flow: the rules decide, an accepted flow is recorded, and a source whose
packet calls for it is banned. -/
def newFlow (w : Wall τ) (pkt : ParsedPacket) (r : PacketReadings) :
    Except Panic (Outcome × Wall τ) := do
  let (decision, engine) := w.engine.evaluate pkt r.evaluate
  let conntrack :=
    if decision.verdict = .accept then w.conntrack.recordNew pkt r.recordNew else w.conntrack
  let quarantine ← autoBlock w.quarantine decision pkt.srcIp r.ban
  .ok (.evaluated pkt decision, { engine, conntrack, quarantine })

/-- The body of the loop on a packet that parses. -/
def processParsed (w : Wall τ) (pkt : ParsedPacket) (r : PacketReadings) :
    Except Panic (Outcome × Wall τ) :=
  if !w.engine.isTrusted pkt.srcIp && w.quarantine.isActive pkt.srcIp r.isActive then
    .ok (.quarantined pkt, w)
  else
    match w.conntrack.lookupOrAdmit pkt r.lookup with
    | (.established, conntrack) => .ok (.established pkt, { w with conntrack })
    | (.tableFull, conntrack) => .ok (.tableFull pkt, { w with conntrack })
    | (.new, _) => w.newFlow pkt r

/-- The body of the loop of `run`. -/
def process (E : Etherparse) (w : Wall τ) (raw : List UInt8) (r : PacketReadings) :
    Except Panic (Outcome × Wall τ) :=
  match parse E raw with
  | .unclassifiableFragment => .ok (.fragment, w)
  | .malformed => .ok (.malformed, w)
  | .parsed pkt => w.processParsed pkt r

/-- What the body of the loop can do with a packet: its outcome, and the tables after it. -/
inductive Processed (E : Etherparse) (w : Wall τ) (raw : List UInt8) (r : PacketReadings) :
    Outcome → Wall τ → Prop
  | fragment : parse E raw = .unclassifiableFragment → Processed E w raw r .fragment w
  | malformed : parse E raw = .malformed → Processed E w raw r .malformed w
  | quarantined {pkt : ParsedPacket} : parse E raw = .parsed pkt →
      w.engine.isTrusted pkt.srcIp = false → w.quarantine.isActive pkt.srcIp r.isActive = true →
      Processed E w raw r (.quarantined pkt) w
  | established {pkt : ParsedPacket} : parse E raw = .parsed pkt →
      (w.engine.isTrusted pkt.srcIp = true ∨
        w.quarantine.isActive pkt.srcIp r.isActive = false) →
      pkt.flowKey ∈ w.conntrack.table →
      Processed E w raw r (.established pkt)
        { w with conntrack := (w.conntrack.lookupOrAdmit pkt r.lookup).2 }
  | tableFull {pkt : ParsedPacket} : parse E raw = .parsed pkt →
      (w.engine.isTrusted pkt.srcIp = true ∨
        w.quarantine.isActive pkt.srcIp r.isActive = false) →
      pkt.flowKey ∉ w.conntrack.table → w.conntrack.cfg.maxEntries ≤ w.conntrack.table.len →
      Processed E w raw r (.tableFull pkt) w
  | evaluated {pkt : ParsedPacket} {quarantine : Quarantine} : parse E raw = .parsed pkt →
      (w.engine.isTrusted pkt.srcIp = true ∨
        w.quarantine.isActive pkt.srcIp r.isActive = false) →
      pkt.flowKey ∉ w.conntrack.table → w.conntrack.table.len < w.conntrack.cfg.maxEntries →
      autoBlock w.quarantine (w.engine.evaluate pkt r.evaluate).1 pkt.srcIp r.ban =
        .ok quarantine →
      Processed E w raw r (.evaluated pkt (w.engine.evaluate pkt r.evaluate).1)
        { engine := (w.engine.evaluate pkt r.evaluate).2
          conntrack :=
            if (w.engine.evaluate pkt r.evaluate).1.verdict = .accept then
              w.conntrack.recordNew pkt r.recordNew
            else w.conntrack
          quarantine := quarantine }

/-- Every outcome of the loop body is one of those of `Processed`. -/
theorem processed_of_process {E : Etherparse} {w w' : Wall τ} {raw : List UInt8}
    {r : PacketReadings} {o : Outcome} (h : w.process E raw r = .ok (o, w')) :
    Processed E w raw r o w' := by
  rw [process] at h
  cases hparse : parse E raw with
  | unclassifiableFragment =>
    rw [hparse] at h
    cases h
    exact .fragment hparse
  | malformed =>
    rw [hparse] at h
    cases h
    exact .malformed hparse
  | parsed pkt =>
    simp only [hparse, processParsed] at h
    split at h
    · next hbanned =>
      cases h
      obtain ⟨htrust, hactive⟩ := (Bool.and_eq_true _ _).mp hbanned
      exact .quarantined hparse (by simpa using htrust) hactive
    · next hfree =>
      have hfree : w.engine.isTrusted pkt.srcIp = true ∨
          w.quarantine.isActive pkt.srcIp r.isActive = false := by
        cases htrust : w.engine.isTrusted pkt.srcIp with
        | true => exact .inl rfl
        | false => exact .inr (by simpa [htrust] using hfree)
      by_cases hmem : pkt.flowKey ∈ w.conntrack.table
      · rw [ConnTrack.lookupOrAdmit_of_mem hmem] at h
        cases h
        exact .established hparse hfree hmem
      · rw [ConnTrack.lookupOrAdmit_of_not_mem hmem] at h
        by_cases hfull : w.conntrack.cfg.maxEntries ≤ w.conntrack.table.len
        · rw [if_pos hfull] at h
          cases h
          exact .tableFull hparse hfree hmem hfull
        · rw [if_neg hfull] at h
          dsimp only [newFlow] at h
          cases hban : autoBlock w.quarantine (w.engine.evaluate pkt r.evaluate).1 pkt.srcIp
              r.ban with
          | error e =>
            rw [hban] at h
            cases h
          | ok quarantine =>
            rw [hban] at h
            cases h
            exact .evaluated hparse hfree hmem (Nat.not_le.mp hfull) hban

end Wall

/-! ## The system -/

/-- A packet that was handled, and how. -/
structure Handled where
  msg : Msg
  outcome : Outcome
deriving DecidableEq, Repr

/-- What happens to the tables: a worker handles a packet, the maintenance thread does one of its
sweeps, a reload replaces the engine, an administrator lifts a ban. -/
inductive Event where
  | packet (msg : Msg) (r : PacketReadings)
  | sweepConntrack (now : Instant)
  | sweepQuarantine (now : Instant)
  | engineMaintenance (r : Readings)
  | reload (cfg : Config)
  | unban (ip : IpAddr)
deriving DecidableEq, Repr

/-- The tables, and the packets handled so far, the latest first. -/
structure System (τ : Type) where
  wall : Wall τ
  handled : List Handled

namespace System

variable {τ : Type} [TokenArith τ]

/-- The system at its start. -/
def new (cfg : Config) (osSync : Option SyncQueue) : System τ := ⟨.new cfg osSync, []⟩

/-- What an event does. A panic ends the process. -/
def next (E : Etherparse) (s : System τ) : Event → Except Panic (System τ)
  | .packet msg r => do
    let (outcome, wall) ← s.wall.process E msg.payload r
    .ok ⟨wall, ⟨msg, outcome⟩ :: s.handled⟩
  | .sweepConntrack now =>
    .ok { s with wall := { s.wall with conntrack := s.wall.conntrack.sweepExpired now } }
  | .sweepQuarantine now =>
    .ok { s with wall := { s.wall with quarantine := s.wall.quarantine.sweepExpired now } }
  | .engineMaintenance r =>
    .ok { s with wall := { s.wall with engine := s.wall.engine.periodicMaintenance r } }
  | .reload cfg => .ok { s with wall := { s.wall with engine := .new cfg } }
  | .unban ip =>
    .ok { s with wall := { s.wall with quarantine := (s.wall.quarantine.manualUnban ip).2 } }

/-- The steps of the system. -/
def Step (E : Etherparse) (s : System τ) (e : Event) (t : System τ) : Prop := s.next E e = .ok t

end System

end ActiveDefense.Firewall
