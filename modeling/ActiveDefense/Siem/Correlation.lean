import ActiveDefense.Lib.Run
import ActiveDefense.Lib.Table
import ActiveDefense.Rust.Float
import ActiveDefense.Rust.Mpsc
import ActiveDefense.Rust.Net
import ActiveDefense.Rust.Time
import Mathlib.Order.Basic

/-!
# The correlation engine

Three lanes send evidence events into one channel. The engine keeps a record for each host,
decides on each event whether the record amounts to a verdict, and offers the verdict to the
channel of the containment playbook. A step is one of the lanes' sends, one turn of the engine's
loop, or an action of the playbook; a clock reading is part of the step's label, and so is the host
that is evicted where several were seen last at the same time.
-/

namespace ActiveDefense.Siem

inductive Protocol where
  | tcp
  | udp
  | icmp
  | other (n : UInt8)
deriving DecidableEq

structure FlowKey where
  srcIp : IpAddr
  dstIp : IpAddr
  srcPort : UInt16
  dstPort : UInt16
  protocol : Protocol
deriving DecidableEq

inductive Severity where
  | low
  | medium
  | high
  | critical
deriving DecidableEq

/-- The place of a severity in the order low, medium, high, critical. -/
def Severity.rank : Severity → Nat
  | low => 0
  | medium => 1
  | high => 2
  | critical => 3

theorem Severity.rank_injective : Function.Injective Severity.rank := by
  intro a b h
  cases a <;> cases b <;> first | rfl | cases h

instance : LinearOrder Severity := LinearOrder.lift' Severity.rank Severity.rank_injective

/-- Nothing is more severe than critical. -/
theorem Severity.le_critical (s : Severity) : s ≤ .critical := by
  cases s <;> decide

inductive LaneSource where
  | xdp
  | clamAv
  | spectral
deriving DecidableEq

inductive LaneDetail (φ : Type) where
  | xdp (flow : FlowKey) (reason : Str) (humanApproved : Bool)
  | clamAv (fileName signature : Str) (quarantined : Bool)
  | spectral (flow : FlowKey) (anomalyScore fiedlerShift : φ)
deriving DecidableEq

structure CorrelationEvent (φ : Type) where
  host : IpAddr
  source : LaneSource
  severity : Severity
  confidence : φ
  observedAt : Instant
  detail : LaneDetail φ
deriving DecidableEq

inductive CorrelationReason where
  | multiLaneCorroboration
  | singleLaneCritical
deriving DecidableEq

structure CorrelationVerdict (φ : Type) where
  host : IpAddr
  severity : Severity
  confidence : φ
  sources : List LaneSource
  evidence : List (CorrelationEvent φ)
  reason : CorrelationReason
  firstSeen : Instant
  decidedAt : Instant
deriving DecidableEq

structure CorrelationMetrics where
  eventsReceived : UInt64 := 0
  verdictsEmitted : UInt64 := 0
  verdictsDropped : UInt64 := 0
  hostsEvictedTtl : UInt64 := 0
  hostsEvictedCapacity : UInt64 := 0
  xdpDropped : UInt64 := 0
  clamavDropped : UInt64 := 0
  spectralDropped : UInt64 := 0
deriving DecidableEq

structure CorrelationConfig where
  window : Duration
  channelCapacity : Nat
  maxEvidencePerHost : Nat
  maxTrackedHosts : Nat
deriving DecidableEq

/-- `CorrelationConfig::default`. -/
def CorrelationConfig.default : CorrelationConfig where
  window := Duration.fromSecs 60
  channelCapacity := 4096
  maxEvidencePerHost := 16
  maxTrackedHosts := 100000

variable {φ : Type}

/-! ## The lanes -/

/-- The event of `XdpSender::submit`. -/
def xdpEvent [FloatArith φ] (host : IpAddr) (flow : FlowKey) (reason : Str)
    (humanApproved : Bool) (now : Instant) : CorrelationEvent φ where
  host := host
  source := .xdp
  severity := if humanApproved then .critical else .high
  confidence := if humanApproved then 1.0 else 0.6
  observedAt := now
  detail := .xdp flow reason humanApproved

/-- The event of `ClamAvSender::submit`. -/
def clamAvEvent [FloatArith φ] (host : IpAddr) (fileName signature : Str) (quarantined : Bool)
    (now : Instant) : CorrelationEvent φ where
  host := host
  source := .clamAv
  severity := if quarantined then .high else .medium
  confidence := 1.0
  observedAt := now
  detail := .clamAv fileName signature quarantined

/-- The event of `SpectralSender::submit`. -/
def spectralEvent [FloatArith φ] (host : IpAddr) (flow : FlowKey) (anomalyScore fiedlerShift : φ)
    (now : Instant) : CorrelationEvent φ where
  host := host
  source := .spectral
  severity :=
    if 0.9 ≤ anomalyScore then .critical
    else if 0.7 ≤ anomalyScore then .high
    else if 0.4 ≤ anomalyScore then .medium
    else .low
  confidence := clamp anomalyScore 0.0 1.0
  observedAt := now
  detail := .spectral flow anomalyScore fiedlerShift

/-! ## The record of a host -/

/-- A `HostRecord`: it never runs out of evidence, so that `push` can drop the oldest. -/
structure HostRecord (φ : Type) where
  evidence : List (CorrelationEvent φ)
  firstSeen : Instant
  lastSeen : Instant
  finalized : Bool
  evidence_ne : evidence ≠ []

namespace HostRecord

/-- `HostRecord::new`. -/
def new (event : CorrelationEvent φ) : HostRecord φ where
  evidence := [event]
  firstSeen := event.observedAt
  lastSeen := event.observedAt
  finalized := false
  evidence_ne := List.cons_ne_nil _ _

/-- The evidence that is left when an event is pushed: the oldest makes room for it. -/
def kept (r : HostRecord φ) (maxEvidence : Nat) : List (CorrelationEvent φ) :=
  if maxEvidence ≤ r.evidence.length then r.evidence.tail else r.evidence

theorem kept_subset (r : HostRecord φ) (maxEvidence : Nat) :
    r.kept maxEvidence ⊆ r.evidence := by
  rw [kept]
  split
  · exact List.tail_subset _
  · exact List.Subset.refl _

/-- `HostRecord::push`. -/
def push (r : HostRecord φ) (event : CorrelationEvent φ) (maxEvidence : Nat) : HostRecord φ :=
  { r with
    evidence := r.kept maxEvidence ++ [event]
    lastSeen := event.observedAt
    evidence_ne := List.append_ne_nil_of_right_ne_nil _ (List.cons_ne_nil _ _) }

/-- Pushes the lane of an event, if it is not there. -/
def addSource (sources : List LaneSource) (e : CorrelationEvent φ) : List LaneSource :=
  if e.source ∈ sources then sources else sources ++ [e.source]

/-- `HostRecord::distinct_sources`. -/
def distinctSources (r : HostRecord φ) : List LaneSource := r.evidence.foldl addSource []

/-- `HostRecord::max_severity`. -/
def maxSeverity (r : HostRecord φ) : Severity := (r.evidence.map (·.severity)).max?.getD .low

/-- `HostRecord::mean_confidence`. -/
def meanConfidence [FloatArith φ] (r : HostRecord φ) : φ :=
  if r.evidence.isEmpty then 0.0
  else
    (r.evidence.map (·.confidence)).foldl (· + ·) 0.0 / FloatArith.ofUsize r.evidence.length

/-- What `maybe_emit` finds in a record. -/
def reason (r : HostRecord φ) : Option CorrelationReason :=
  if 2 ≤ r.distinctSources.length then some .multiLaneCorroboration
  else if r.maxSeverity = .critical then some .singleLaneCritical
  else none

/-- The verdict on a record. -/
def verdict [FloatArith φ] (r : HostRecord φ) (host : IpAddr) (reason : CorrelationReason)
    (now : Instant) : CorrelationVerdict φ where
  host := host
  severity := r.maxSeverity
  confidence := r.meanConfidence
  sources := r.distinctSources
  evidence := r.evidence
  reason := reason
  firstSeen := r.firstSeen
  decidedAt := now

end HostRecord

/-! ## The engine -/

structure CorrelationEngine (φ : Type) where
  rx : Mpsc (CorrelationEvent φ)
  outTx : Mpsc (CorrelationVerdict φ)
  state : Table IpAddr (HostRecord φ)
  config : CorrelationConfig
  metrics : CorrelationMetrics

/-- A verdict that was offered to the output channel, and whether the channel took it. -/
structure Emission (φ : Type) where
  verdict : CorrelationVerdict φ
  delivered : Bool
deriving DecidableEq

/-- The verdict, if the channel took it. -/
def taken : Option (Emission φ) → Option (CorrelationVerdict φ)
  | some ⟨verdict, true⟩ => some verdict
  | _ => none

namespace CorrelationEngine

/-- `CorrelationEngine::new`. -/
def new (config : CorrelationConfig) (outTx : Mpsc (CorrelationVerdict φ)) :
    CorrelationEngine φ where
  rx := .channel config.channelCapacity
  outTx := outTx
  state := ∅
  config := config
  metrics := {}

/-- A `submit`, whose lane counts the events it drops. -/
def submit (e : CorrelationEngine φ) (event : CorrelationEvent φ) : CorrelationEngine φ :=
  match e.rx.trySend event with
  | some rx => { e with rx := rx }
  | none =>
    let m := e.metrics
    { e with
      metrics :=
        match event.source with
        | .xdp => { m with xdpDropped := m.xdpDropped + 1 }
        | .clamAv => { m with clamavDropped := m.clamavDropped + 1 }
        | .spectral => { m with spectralDropped := m.spectralDropped + 1 } }

/-- `maybe_emit`. -/
def maybeEmit [FloatArith φ] (e : CorrelationEngine φ) (host : IpAddr) (now : Instant) :
    CorrelationEngine φ × Option (Emission φ) :=
  match e.state.lookup host with
  | none => (e, none)
  | some record =>
    match record.reason with
    | none => (e, none)
    | some reason =>
      let verdict := record.verdict host reason now
      let e := { e with state := e.state.insert host { record with finalized := true } }
      match e.outTx.trySend verdict with
      | some outTx =>
        ({ e with
            outTx := outTx
            metrics := { e.metrics with verdictsEmitted := e.metrics.verdictsEmitted + 1 } },
          some ⟨verdict, true⟩)
      | none =>
        ({ e with
            metrics := { e.metrics with verdictsDropped := e.metrics.verdictsDropped + 1 } },
          some ⟨verdict, false⟩)

/-- `handle_event`, up to the call of `enforce_capacity`. -/
def handleEvent [FloatArith φ] (e : CorrelationEngine φ) (event : CorrelationEvent φ)
    (now : Instant) : CorrelationEngine φ × Option (Emission φ) :=
  let e := { e with metrics := { e.metrics with eventsReceived := e.metrics.eventsReceived + 1 } }
  let host := event.host
  match e.state.lookup host with
  | none => maybeEmit { e with state := e.state.insert host (.new event) } host now
  | some record =>
    let pushed := record.push event e.config.maxEvidencePerHost
    let e' := { e with state := e.state.insert host pushed }
    if record.finalized then (e', none) else maybeEmit e' host now

/-- `sweep_expired`. -/
def sweepExpired (e : CorrelationEngine φ) (now : Instant) : CorrelationEngine φ :=
  let state := e.state.retain fun _ record =>
    decide (now.durationSince record.lastSeen < e.config.window)
  let evicted := UInt64.ofNat (e.state.len - state.len)
  { e with
    state := state
    metrics := { e.metrics with hostsEvictedTtl := e.metrics.hostsEvictedTtl + evicted } }

/-- The host was seen last no later than any other. -/
def isOldest (e : CorrelationEngine φ) (host : IpAddr) : Bool :=
  match e.state.lookup host with
  | none => false
  | some record => e.state.entries.all fun other => decide (record.lastSeen ≤ other.2.lastSeen)

/-- `enforce_capacity`, which evicts the given host. -/
def enforceCapacity (e : CorrelationEngine φ) (evicted : Option IpAddr) :
    Option (CorrelationEngine φ) :=
  if e.state.len ≤ e.config.maxTrackedHosts then
    match evicted with
    | none => some e
    | some _ => none
  else
    match evicted with
    | none => none
    | some host =>
      if e.isOldest host then
        let count := e.metrics.hostsEvictedCapacity + 1
        some { e with
          state := e.state.erase host
          metrics := { e.metrics with hostsEvictedCapacity := count } }
      else none

end CorrelationEngine

/-! ## Steps -/

/-- An event the engine has handled, with the verdict it led to. -/
structure Handled (φ : Type) where
  event : CorrelationEvent φ
  emission : Option (Emission φ)
deriving DecidableEq

/-- The verdict that was delivered when the event was handled. -/
def Handled.delivered (h : Handled φ) : Option (CorrelationVerdict φ) := taken h.emission

/-- The engine, and what it has handled so far. -/
structure Correlation (φ : Type) where
  engine : CorrelationEngine φ
  log : List (Handled φ)

/-- What happens in one step. -/
inductive CorrelationAction (φ : Type) where
  | xdp (host : IpAddr) (flow : FlowKey) (reason : Str) (humanApproved : Bool) (now : Instant)
  | clamAv (host : IpAddr) (fileName signature : Str) (quarantined : Bool) (now : Instant)
  | spectral (host : IpAddr) (flow : FlowKey) (anomalyScore fiedlerShift : φ) (now : Instant)
  /-- the engine takes the next event -/
  | recv (now : Instant) (evicted : Option IpAddr)
  | sweep (now : Instant)
  /-- the playbook takes the next verdict -/
  | take
  /-- the playbook stops -/
  | close

/-- The event a lane sends. -/
def CorrelationAction.sent [FloatArith φ] : CorrelationAction φ → Option (CorrelationEvent φ)
  | .xdp host flow reason humanApproved now => some (xdpEvent host flow reason humanApproved now)
  | .clamAv host fileName signature quarantined now =>
    some (clamAvEvent host fileName signature quarantined now)
  | .spectral host flow anomalyScore fiedlerShift now =>
    some (spectralEvent host flow anomalyScore fiedlerShift now)
  | _ => none

namespace Correlation

/-- The start, before any event. -/
def start (config : CorrelationConfig) (outTx : Mpsc (CorrelationVerdict φ)) : Correlation φ where
  engine := .new config outTx
  log := []

/-- A turn of the engine's loop that takes an event. -/
def recv [FloatArith φ] (s : Correlation φ) (now : Instant) (evicted : Option IpAddr) :
    Option (Correlation φ) := do
  let (event, rx) ← s.engine.rx.recv
  let (engine, emission) := CorrelationEngine.handleEvent { s.engine with rx := rx } event now
  let engine ← engine.enforceCapacity evicted
  some { engine := engine, log := s.log ++ [⟨event, emission⟩] }

/-- The state after a step. -/
def next [FloatArith φ] (s : Correlation φ) : CorrelationAction φ → Option (Correlation φ)
  | .xdp host flow reason humanApproved now =>
    some { s with engine := s.engine.submit (xdpEvent host flow reason humanApproved now) }
  | .clamAv host fileName signature quarantined now =>
    some { s with engine := s.engine.submit (clamAvEvent host fileName signature quarantined now) }
  | .spectral host flow anomalyScore fiedlerShift now =>
    let event := spectralEvent host flow anomalyScore fiedlerShift now
    some { s with engine := s.engine.submit event }
  | .recv now evicted => s.recv now evicted
  | .sweep now => some { s with engine := s.engine.sweepExpired now }
  | .take => do
    let (_, outTx) ← s.engine.outTx.recv
    some { s with engine := { s.engine with outTx := outTx } }
  | .close => some { s with engine := { s.engine with outTx := s.engine.outTx.close } }

/-- The state after a step that meets a condition. -/
def nextIf [FloatArith φ] (ok : Correlation φ → CorrelationAction φ → Prop)
    [∀ s a, Decidable (ok s a)] (s : Correlation φ) (a : CorrelationAction φ) :
    Option (Correlation φ) :=
  if ok s a then s.next a else none

/-- The steps. -/
def Step [FloatArith φ] (s : Correlation φ) (a : CorrelationAction φ) (t : Correlation φ) :
    Prop :=
  s.next a = some t

/-- A condition on the event that a step handles, and on the host the step evicts. -/
def OnEvent (s : Correlation φ) (P : CorrelationEvent φ → Option IpAddr → Prop) :
    CorrelationAction φ → Prop
  | .recv _ evicted => ∀ event ∈ s.engine.rx.queue.head?, P event evicted
  | _ => True

instance {s : Correlation φ} {P : CorrelationEvent φ → Option IpAddr → Prop}
    [∀ event evicted, Decidable (P event evicted)] : ∀ a, Decidable (s.OnEvent P a)
  | .recv .. => inferInstanceAs (Decidable (∀ event ∈ s.engine.rx.queue.head?, _))
  | .xdp .. | .clamAv .. | .spectral .. | .sweep _ | .take | .close =>
    inferInstanceAs (Decidable True)

/-- The verdicts that were delivered so far. -/
def delivered (s : Correlation φ) : List (CorrelationVerdict φ) :=
  s.log.filterMap Handled.delivered

end Correlation

/-! ## What a record amounts to -/

namespace HostRecord

variable {r : HostRecord φ}

/-- A lane is there after `addSource` if it was or is that of the event. -/
theorem mem_addSource {sources : List LaneSource} {e : CorrelationEvent φ} {lane : LaneSource} :
    lane ∈ addSource sources e ↔ lane ∈ sources ∨ e.source = lane := by
  rw [addSource]
  split
  · rename_i hmem
    exact ⟨.inl, fun h => h.elim id fun heq => heq ▸ hmem⟩
  · simp [eq_comm]

theorem nodup_addSource {sources : List LaneSource} {e : CorrelationEvent φ}
    (h : sources.Nodup) : (addSource sources e).Nodup := by
  rw [addSource]
  split
  · exact h
  · rename_i hmem
    rw [List.nodup_append]
    refine ⟨h, List.nodup_singleton _, ?_⟩
    rintro lane hlane _ hl rfl
    exact hmem (List.mem_singleton.mp hl ▸ hlane)

/-- Each lane is collected once. -/
theorem foldl_addSource {events : List (CorrelationEvent φ)} {sources : List LaneSource}
    (h : sources.Nodup) : (events.foldl addSource sources).Nodup ∧
      ∀ lane, lane ∈ events.foldl addSource sources ↔
        lane ∈ sources ∨ ∃ e ∈ events, e.source = lane := by
  induction events generalizing sources with
  | nil => simpa using h
  | cons e events ih =>
    obtain ⟨hnodup, hmem⟩ := ih (nodup_addSource (e := e) h)
    refine ⟨hnodup, fun lane => (hmem lane).trans ?_⟩
    simp only [mem_addSource, List.exists_mem_cons_iff, or_assoc]

theorem nodup_distinctSources : r.distinctSources.Nodup :=
  (foldl_addSource List.nodup_nil).1

theorem mem_distinctSources {lane : LaneSource} :
    lane ∈ r.distinctSources ↔ ∃ e ∈ r.evidence, e.source = lane := by
  rw [distinctSources, (foldl_addSource List.nodup_nil).2]
  simp

/-- There are two lanes if and only if two events differ in theirs. -/
theorem two_le_distinctSources : 2 ≤ r.distinctSources.length ↔
    ∃ e₁ ∈ r.evidence, ∃ e₂ ∈ r.evidence, e₁.source ≠ e₂.source := by
  constructor
  · intro h
    have hnodup := r.nodup_distinctSources
    have hmem : ∀ lane ∈ r.distinctSources, ∃ e ∈ r.evidence, e.source = lane :=
      fun lane => mem_distinctSources.mp
    match hs : r.distinctSources, h with
    | l₁ :: l₂ :: _, _ =>
      rw [hs] at hnodup hmem
      obtain ⟨e₁, he₁, rfl⟩ := hmem l₁ (.head _)
      obtain ⟨e₂, he₂, rfl⟩ := hmem l₂ (.tail _ (.head _))
      refine ⟨e₁, he₁, e₂, he₂, fun heq => ?_⟩
      rw [List.nodup_cons] at hnodup
      exact hnodup.1 (heq ▸ .head _)
  · rintro ⟨e₁, he₁, e₂, he₂, hne⟩
    have h₁ := mem_distinctSources.mpr ⟨e₁, he₁, rfl⟩
    have h₂ := mem_distinctSources.mpr ⟨e₂, he₂, rfl⟩
    match hs : r.distinctSources with
    | [] => simp [hs] at h₁
    | [l] =>
      rw [hs, List.mem_singleton] at h₁ h₂
      exact absurd (h₁.trans h₂.symm) hne
    | _ :: _ :: _ => simp

/-- The most severe event is critical if and only if one is. -/
theorem maxSeverity_eq_critical :
    r.maxSeverity = .critical ↔ ∃ e ∈ r.evidence, e.severity = .critical := by
  have hne : r.evidence.map (·.severity) ≠ [] := by simpa using r.evidence_ne
  obtain ⟨m, hm⟩ := Option.isSome_iff_exists.mp (List.isSome_max?_iff.mpr hne)
  have hmax := List.max?_eq_some_iff.mp hm
  rw [maxSeverity, hm, Option.getD_some]
  constructor
  · rintro rfl
    exact List.mem_map.mp hmax.1
  · rintro ⟨e, he, hcrit⟩
    exact le_antisymm m.le_critical (hmax.2 _ (List.mem_map.mpr ⟨e, he, hcrit⟩))

theorem reason_eq_multiLane : r.reason = some .multiLaneCorroboration ↔
    ∃ e₁ ∈ r.evidence, ∃ e₂ ∈ r.evidence, e₁.source ≠ e₂.source := by
  rw [← two_le_distinctSources, reason]
  split <;> simp_all

/-- Nothing is to be said about a record with one lane and no critical event. -/
theorem reason_eq_none : r.reason = none ↔
    (∀ e₁ ∈ r.evidence, ∀ e₂ ∈ r.evidence, e₁.source = e₂.source) ∧
      ∀ e ∈ r.evidence, e.severity ≠ .critical := by
  have hlanes := not_congr (two_le_distinctSources (r := r))
  have hcrit := not_congr (maxSeverity_eq_critical (r := r))
  push Not at hlanes hcrit
  rw [← hlanes, ← hcrit, reason]
  split
  · simp only [reduceCtorEq, false_iff]
    omega
  · split
    · simp_all
    · rename_i hone hnot
      exact iff_of_true rfl ⟨by omega, hnot⟩

end HostRecord

/-! ## What a step does -/

namespace CorrelationEngine

variable {e : CorrelationEngine φ} {event : CorrelationEvent φ} {now : Instant}

/-- The host has a record, and a verdict was made on it. -/
def Finalized (e : CorrelationEngine φ) (host : IpAddr) : Prop :=
  ∃ record ∈ e.state.lookup host, record.finalized = true

instance {host : IpAddr} : Decidable (e.Finalized host) :=
  inferInstanceAs (Decidable (∃ record ∈ e.state.lookup host, _))

/-- The record of the event's host, with the event in it. -/
def pushed (e : CorrelationEngine φ) (event : CorrelationEvent φ) : HostRecord φ :=
  match e.state.lookup event.host with
  | none => .new event
  | some record => record.push event e.config.maxEvidencePerHost

/-- What the engine has to say when it has handled the event. -/
def due (e : CorrelationEngine φ) (event : CorrelationEvent φ) : Option CorrelationReason :=
  if (e.pushed event).finalized then none else (e.pushed event).reason

theorem pushed_finalized (e : CorrelationEngine φ) (event : CorrelationEvent φ) :
    (e.pushed event).finalized = true ↔ e.Finalized event.host := by
  rw [pushed, Finalized]
  split
  · rename_i h
    simp [h, HostRecord.new]
  · rename_i record h
    simp [h, HostRecord.push]

/-- The evidence that is kept beside the event is the newest of its host's record. -/
theorem mem_pushed {e' : CorrelationEvent φ} : e' ∈ (e.pushed event).evidence ↔
    e' = event ∨ ∃ record, e.state.lookup event.host = some record ∧
      e' ∈ record.kept e.config.maxEvidencePerHost := by
  rw [pushed]
  split
  · rename_i h
    simp [h, HostRecord.new]
  · rename_i record h
    simp [h, HostRecord.push, or_comm]

/-- The verdict that is due when the event has been handled, and whether the channel takes it. -/
def emission [FloatArith φ] (e : CorrelationEngine φ) (event : CorrelationEvent φ)
    (now : Instant) : Option (Emission φ) :=
  (e.due event).map fun reason =>
    ⟨(e.pushed event).verdict event.host reason now, decide e.outTx.HasRoom⟩

/-- A verdict is delivered if one is due and the channel has room. -/
theorem taken_emission [FloatArith φ] {v : CorrelationVerdict φ} :
    taken (e.emission event now) = some v ↔ e.outTx.HasRoom ∧
      ∃ reason, e.due event = some reason ∧
        v = (e.pushed event).verdict event.host reason now := by
  rw [emission]
  cases e.due event with
  | none => simp [taken]
  | some reason =>
    by_cases hroom : e.outTx.HasRoom
    · simp [taken, hroom, eq_comm]
    · simp [taken, hroom]

/-- The record that is left when the event has been handled. -/
def handledRecord (e : CorrelationEngine φ) (event : CorrelationEvent φ) : HostRecord φ :=
  { e.pushed event with
    finalized := (e.pushed event).finalized || (e.due event).isSome }

/-- What `maybe_emit` does to a record. -/
theorem maybeEmit_spec [FloatArith φ] {host : IpAddr} {record : HostRecord φ} (now : Instant)
    (h : e.state.lookup host = some record) :
    let r := e.maybeEmit host now
    r.2 = record.reason.map (fun reason =>
        ⟨record.verdict host reason now, decide e.outTx.HasRoom⟩) ∧
      r.1.config = e.config ∧ r.1.rx = e.rx ∧
      r.1.outTx.queue = e.outTx.queue ++ (taken r.2).toList ∧
      ∀ other, r.1.state.lookup other =
        if other = host then
          some { record with finalized := record.finalized || record.reason.isSome }
        else e.state.lookup other := by
  rw [maybeEmit, h]
  dsimp only
  cases hreason : record.reason with
  | none =>
    refine ⟨rfl, rfl, rfl, (List.append_nil _).symm, fun other => ?_⟩
    dsimp only
    split
    · rename_i heq
      rw [heq, h, Option.isSome_none, Bool.or_false]
    · rfl
  | some reason =>
    have hlookup : ∀ other,
        (e.state.insert host { record with finalized := true }).lookup other =
          if other = host then some { record with finalized := record.finalized || true }
          else e.state.lookup other := by
      intro other
      split
      · rename_i heq
        rw [heq, AList.lookup_insert, Bool.or_true]
      · rename_i hne
        exact AList.lookup_insert_ne hne
    dsimp only
    split
    · rename_i outTx hsend
      obtain ⟨hroom, hqueue⟩ := Mpsc.queue_of_trySend hsend
      exact ⟨by simp [hroom], rfl, rfl, hqueue, hlookup⟩
    · rename_i hsend
      have hroom := Mpsc.trySend_eq_none.mp hsend
      exact ⟨by simp [hroom], rfl, rfl, (List.append_nil _).symm, hlookup⟩

/-- The engine with the event in its record. -/
def store (e : CorrelationEngine φ) (event : CorrelationEvent φ) : CorrelationEngine φ :=
  { e with
    state := e.state.insert event.host (e.pushed event)
    metrics := { e.metrics with eventsReceived := e.metrics.eventsReceived + 1 } }

/-- `handle_event` stores the event, and decides on the record if nobody has. -/
theorem handleEvent_eq [FloatArith φ] : e.handleEvent event now =
    if (e.pushed event).finalized then (e.store event, none)
    else (e.store event).maybeEmit event.host now := by
  rw [handleEvent, store, pushed]
  dsimp only
  split
  · rfl
  · rfl

/-- What `handle_event` does before it calls `enforce_capacity`. -/
theorem handleEvent_spec [FloatArith φ] (e : CorrelationEngine φ) (event : CorrelationEvent φ)
    (now : Instant) :
    let r := e.handleEvent event now
    r.2 = e.emission event now ∧ r.1.config = e.config ∧ r.1.rx = e.rx ∧
      r.1.outTx.queue = e.outTx.queue ++ (taken r.2).toList ∧
      ∀ host, r.1.state.lookup host =
        if host = event.host then some (e.handledRecord event) else e.state.lookup host := by
  have hother : ∀ host, host ≠ event.host →
      (e.store event).state.lookup host = e.state.lookup host :=
    fun host hne => AList.lookup_insert_ne hne
  have hself : (e.store event).state.lookup event.host = some (e.pushed event) :=
    AList.lookup_insert _
  rw [handleEvent_eq, emission, due, handledRecord, due]
  split
  · rename_i hfin
    refine ⟨rfl, rfl, rfl, (List.append_nil _).symm, fun host => ?_⟩
    dsimp only
    split
    · rename_i heq
      rw [heq, hself, hfin]
      simp [← hfin]
    · rename_i hne
      exact hother host hne
  · obtain ⟨hemission, hconfig, hrx, hqueue, hlookup⟩ := maybeEmit_spec now hself
    refine ⟨hemission, hconfig, hrx, hqueue, fun host => ?_⟩
    rw [hlookup host]
    split
    · rfl
    · rename_i hne
      exact hother host hne

/-- `enforce_capacity` takes away the evicted host's record, and no other. -/
theorem enforceCapacity_spec {e' : CorrelationEngine φ} {evicted : Option IpAddr}
    (h : e.enforceCapacity evicted = some e') :
    e'.config = e.config ∧ e'.rx = e.rx ∧ e'.outTx = e.outTx ∧
      ∀ host record, e'.state.lookup host = some record ↔
        evicted ≠ some host ∧ e.state.lookup host = some record := by
  unfold enforceCapacity at h
  split at h
  · cases evicted with
    | none =>
      cases h
      exact ⟨rfl, rfl, rfl, fun _ _ => (and_iff_right nofun).symm⟩
    | some => cases h
  · cases evicted with
    | none => cases h
    | some gone =>
      dsimp only at h
      split at h
      · cases h
        refine ⟨rfl, rfl, rfl, fun host record => ?_⟩
        rw [Ne, Option.some.injEq]
        rcases eq_or_ne gone host with rfl | hne
        · simp [AList.lookup_erase]
        · simp [hne, AList.lookup_erase_ne hne.symm]
      · cases h

/-- A record that is left by `sweep_expired` was there, and was seen within the window. -/
theorem lookup_sweepExpired {host : IpAddr} {record : HostRecord φ} :
    (e.sweepExpired now).state.lookup host = some record ↔
      e.state.lookup host = some record ∧
        now.durationSince record.lastSeen < e.config.window := by
  rw [sweepExpired, Table.lookup_retain, decide_eq_true_iff]

theorem submit_spec (e : CorrelationEngine φ) (event : CorrelationEvent φ) :
    (e.submit event).config = e.config ∧ (e.submit event).state = e.state ∧
      (e.submit event).outTx = e.outTx ∧
      ∀ e' ∈ (e.submit event).rx.queue, e' ∈ e.rx.queue ∨ e' = event := by
  rw [submit]
  split
  · rename_i rx hsend
    obtain ⟨-, hqueue⟩ := Mpsc.queue_of_trySend hsend
    refine ⟨rfl, rfl, rfl, fun e' he' => ?_⟩
    dsimp only at he'
    rw [hqueue, List.mem_append, List.mem_singleton] at he'
    exact he'
  · exact ⟨rfl, rfl, rfl, fun _ he' => .inl he'⟩

end CorrelationEngine

namespace Correlation

variable [FloatArith φ] {s t : Correlation φ} {a : CorrelationAction φ}

/-- The step in which the engine handles an event. -/
structure Handles (s : Correlation φ) (event : CorrelationEvent φ) (now : Instant)
    (evicted : Option IpAddr) (t : Correlation φ) : Prop where
  queue : s.engine.rx.queue = event :: t.engine.rx.queue
  log : t.log = s.log ++ [⟨event, s.engine.emission event now⟩]
  outTx : t.engine.outTx.queue =
    s.engine.outTx.queue ++ (taken (s.engine.emission event now)).toList
  lookup : ∀ host record, t.engine.state.lookup host = some record ↔
    evicted ≠ some host ∧
      (host = event.host ∧ record = s.engine.handledRecord event ∨
        host ≠ event.host ∧ s.engine.state.lookup host = some record)

/-- The event a step handles is the first in the queue. -/
theorem Handles.onEvent_iff {event : CorrelationEvent φ} {now : Instant}
    {evicted : Option IpAddr} (h : s.Handles event now evicted t)
    {P : CorrelationEvent φ → Option IpAddr → Prop} :
    s.OnEvent P (.recv now evicted) ↔ P event evicted := by
  simp [OnEvent, h.queue]

/-- What is delivered in that step. -/
theorem Handles.delivered {event : CorrelationEvent φ} {now : Instant} {evicted : Option IpAddr}
    (h : s.Handles event now evicted t) :
    t.delivered = s.delivered ++ (taken (s.engine.emission event now)).toList := by
  rw [Correlation.delivered, h.log, List.filterMap_append]
  cases htaken : taken (s.engine.emission event now) <;>
    simp [Correlation.delivered, Handled.delivered, htaken]

theorem handles_of_recv {now : Instant} {evicted : Option IpAddr}
    (h : s.recv now evicted = some t) :
    t.engine.config = s.engine.config ∧ ∃ event, s.Handles event now evicted t := by
  simp only [recv, Option.bind_eq_bind, Option.bind_eq_some_iff] at h
  obtain ⟨⟨event, rx⟩, hrecv, engine, henforce, h⟩ := h
  cases h
  have hqueue := Mpsc.queue_of_recv hrecv
  obtain ⟨hemission, hconfig, hrx, hout, hlookup⟩ :=
    CorrelationEngine.handleEvent_spec { s.engine with rx := rx } event now
  obtain ⟨hconfig', hrx', hout', hlookup'⟩ := CorrelationEngine.enforceCapacity_spec henforce
  refine ⟨hconfig'.trans hconfig, event, ?_, ?_, ?_, ?_⟩
  · rw [hqueue, hrx', hrx]
  · rw [hemission]
    rfl
  · rw [hout', hout, hemission]
    rfl
  · intro host record
    rw [hlookup' host record, hlookup host]
    refine and_congr_right fun _ => ?_
    rcases eq_or_ne host event.host with rfl | hne
    · rw [if_pos rfl, Option.some.injEq]
      refine ⟨fun heq => .inl ⟨rfl, heq.symm⟩, ?_⟩
      rintro (⟨-, heq⟩ | ⟨hne, -⟩)
      · exact heq.symm
      · exact absurd rfl hne
    · simp [hne]

/-- A step in which the engine handles no event. -/
structure Quiet (s : Correlation φ) (a : CorrelationAction φ) (t : Correlation φ) : Prop where
  action : ∀ now evicted, a ≠ .recv now evicted
  log : t.log = s.log
  queue : ∀ event ∈ t.engine.rx.queue, event ∈ s.engine.rx.queue ∨ a.sent = some event
  outTx : t.engine.outTx.queue ⊆ s.engine.outTx.queue
  lookup : ∀ host record, t.engine.state.lookup host = some record →
    s.engine.state.lookup host = some record

theorem quiet_of_submit {event : CorrelationEvent φ} (ha : a.sent = some event) :
    s.Quiet a { s with engine := s.engine.submit event } := by
  obtain ⟨-, hstate, hout, hqueue⟩ := CorrelationEngine.submit_spec s.engine event
  refine ⟨?_, rfl, fun e he => ?_, ?_, fun host record hl => ?_⟩
  · rintro now evicted rfl
    cases ha
  · exact (hqueue e he).imp_right fun heq => by rw [ha, heq]
  · dsimp only
    rw [hout]
    exact List.Subset.refl _
  · dsimp only at hl
    rwa [hstate] at hl

theorem Quiet.onEvent (h : s.Quiet a t) {P : CorrelationEvent φ → Option IpAddr → Prop} :
    s.OnEvent P a := by
  cases a with
  | recv now evicted => exact absurd rfl (h.action now evicted)
  | _ => trivial

theorem Quiet.delivered (h : s.Quiet a t) : t.delivered = s.delivered := by
  rw [Correlation.delivered, Correlation.delivered, h.log]

/-- What a step does: it keeps the configuration, and handles an event or is quiet. -/
theorem Step.cases (h : Step s a t) : t.engine.config = s.engine.config ∧
    ((∃ event now evicted, a = .recv now evicted ∧ s.Handles event now evicted t) ∨
      s.Quiet a t) := by
  have hsubmit : ∀ event, (s.engine.submit event).config = s.engine.config :=
    fun event => (CorrelationEngine.submit_spec s.engine event).1
  cases a with
  | xdp =>
    cases h
    exact ⟨hsubmit _, .inr (quiet_of_submit rfl)⟩
  | clamAv =>
    cases h
    exact ⟨hsubmit _, .inr (quiet_of_submit rfl)⟩
  | spectral =>
    cases h
    exact ⟨hsubmit _, .inr (quiet_of_submit rfl)⟩
  | recv now evicted =>
    obtain ⟨hconfig, event, hhandles⟩ := handles_of_recv h
    exact ⟨hconfig, .inl ⟨event, now, evicted, rfl, hhandles⟩⟩
  | sweep now =>
    cases h
    refine ⟨rfl, .inr ⟨nofun, rfl, fun _ he => .inl he, List.Subset.refl _, ?_⟩⟩
    intro host record hl
    exact (CorrelationEngine.lookup_sweepExpired.mp hl).1
  | take =>
    simp only [Step, next, Option.bind_eq_bind, Option.bind_eq_some_iff] at h
    obtain ⟨⟨verdict, outTx⟩, hrecv, h⟩ := h
    cases h
    refine ⟨rfl, .inr ⟨nofun, rfl, fun _ he => .inl he, ?_, fun _ _ hl => hl⟩⟩
    rw [Mpsc.queue_of_recv hrecv]
    exact List.subset_cons_self ..
  | close =>
    cases h
    refine ⟨rfl, .inr ⟨nofun, rfl, fun _ he => .inl he, ?_, fun _ _ hl => hl⟩⟩
    exact List.Subset.refl _

/-- An execution whose last state passes a test is a run that ends in such a state. -/
theorem exists_run {ok : Correlation φ → CorrelationAction φ → Prop} [∀ s a, Decidable (ok s a)]
    {as : List (CorrelationAction φ)} {P : Correlation φ → Prop} [DecidablePred P]
    (h : (as.foldlM (nextIf ok) s).any (fun t => decide (P t)) = true) :
    ∃ t, Run Step ok s as t ∧ P t :=
  Run.exists_of_guarded (fun _ _ _ hnext => hnext) h

/-! ## The records of a run -/

/-- A record without a verdict amounts to none, and the evidence of a record is about its host. -/
structure Sound (s : Correlation φ) : Prop where
  undecided : ∀ host record, s.engine.state.lookup host = some record →
    record.finalized = false → record.reason = none
  host : ∀ host record, s.engine.state.lookup host = some record →
    ∀ e ∈ record.evidence, e.host = host

omit [FloatArith φ] in
/-- All evidence in the record of the event is about its host. -/
theorem Sound.host_of_mem_pushed (h : s.Sound) {event e : CorrelationEvent φ}
    (he : e ∈ (s.engine.pushed event).evidence) : e.host = event.host := by
  obtain rfl | ⟨record, hl, hkept⟩ := CorrelationEngine.mem_pushed.mp he
  · rfl
  · exact h.host _ _ hl e (record.kept_subset _ hkept)

omit [FloatArith φ] in
/-- At the start no host is known. -/
theorem lookup_start {config : CorrelationConfig} {outTx : Mpsc (CorrelationVerdict φ)}
    {host : IpAddr} : (start config outTx).engine.state.lookup host = none :=
  AList.lookup_empty host

omit [FloatArith φ] in
theorem sound_start {config : CorrelationConfig} {outTx : Mpsc (CorrelationVerdict φ)} :
    (start config outTx).Sound := by
  constructor <;>
  · intro host record hl
    rw [lookup_start] at hl
    cases hl

theorem Sound.step (h : s.Sound) (hst : Step s a t) : t.Sound := by
  obtain ⟨-, ⟨event, now, evicted, -, hhandles⟩ | hquiet⟩ := hst.cases
  · constructor
    · intro host record hl hfin
      obtain ⟨-, ⟨rfl, rfl⟩ | ⟨-, hl⟩⟩ := (hhandles.lookup host record).mp hl
      · obtain ⟨hpushed, hdue⟩ := Bool.or_eq_false_iff.mp hfin
        rw [CorrelationEngine.due, if_neg (by simp [hpushed])] at hdue
        exact Option.isSome_eq_false_iff.mp hdue |> Option.isNone_iff_eq_none.mp
      · exact h.undecided host record hl hfin
    · intro host record hl e he
      obtain ⟨-, ⟨rfl, rfl⟩ | ⟨-, hl⟩⟩ := (hhandles.lookup host record).mp hl
      · exact h.host_of_mem_pushed he
      · exact h.host host record hl e he
  · constructor
    · intro host record hl hfin
      exact h.undecided host record (hquiet.lookup host record hl) hfin
    · intro host record hl e he
      exact h.host host record (hquiet.lookup host record hl) e he

theorem sound_of_run {ok : Correlation φ → CorrelationAction φ → Prop}
    {config : CorrelationConfig} {outTx : Mpsc (CorrelationVerdict φ)}
    {as : List (CorrelationAction φ)} (h : Run Step ok (start config outTx) as t) : t.Sound :=
  h.invariant sound_start fun _ _ _ hs _ hst => hs.step hst

end Correlation

end ActiveDefense.Siem
