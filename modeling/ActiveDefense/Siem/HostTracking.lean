import ActiveDefense.Siem.Correlation
import Mathlib.Data.List.DropRight
import Mathlib.Data.List.MinMax

/-!
# What the engine remembers of a host

A run of `handle_event` and `sweep_expired`, of any events, beside the events that have come for
each host since its record was made. The record keeps the newest of them, no fewer than one and no
more than its cap; the number of records is bounded, and the one that has to go was seen last no
later than any other. Where the cap leaves room for one event only, an event of another lane pushes
out the one that it would corroborate.
-/

namespace ActiveDefense.Siem

variable {φ : Type}

/-- The engine, and the events that came for each tracked host since its record was made. -/
structure Tracking (φ : Type) where
  engine : CorrelationEngine φ
  received : IpAddr → List (CorrelationEvent φ)

inductive TrackingAction (φ : Type) where
  | handleEvent (event : CorrelationEvent φ) (now : Instant) (evicted : Option IpAddr)
  | sweepExpired (now : Instant)
  /-- the playbook takes a verdict from the channel, or closes it -/
  | playbook (outTx : Mpsc (CorrelationVerdict φ))

namespace Tracking

/-- The start, before any event. -/
def start (config : CorrelationConfig) (outTx : Mpsc (CorrelationVerdict φ)) : Tracking φ where
  engine := .new config outTx
  received _ := []

/-- What was received, with the event. -/
def receive (s : Tracking φ) (event : CorrelationEvent φ) :
    IpAddr → List (CorrelationEvent φ) :=
  Function.update s.received event.host (s.received event.host ++ [event])

/-- A record that is gone takes with it what was received. -/
def forget (engine : CorrelationEngine φ) (received : IpAddr → List (CorrelationEvent φ)) :
    Tracking φ where
  engine := engine
  received host := if host ∈ engine.state then received host else []

variable [FloatArith φ]

/-- The state after a step. -/
def next (s : Tracking φ) : TrackingAction φ → Option (Tracking φ)
  | .handleEvent event now evicted => do
    let engine ← (s.engine.handleEvent event now).1.enforceCapacity evicted
    some (forget engine (s.receive event))
  | .sweepExpired now => some (forget (s.engine.sweepExpired now) s.received)
  | .playbook outTx => some { s with engine := { s.engine with outTx := outTx } }

/-- The steps. -/
def Step (s : Tracking φ) (a : TrackingAction φ) (t : Tracking φ) : Prop := s.next a = some t

end Tracking

/-! ## The number of hosts -/

namespace CorrelationEngine

variable {e e' : CorrelationEngine φ} {event : CorrelationEvent φ} {now : Instant}

section
variable [FloatArith φ]

/-- The hosts that are tracked when the event has been stored. -/
theorem mem_handleEvent {host : IpAddr} :
    host ∈ (e.handleEvent event now).1.state ↔ host = event.host ∨ host ∈ e.state := by
  obtain ⟨-, -, -, -, hlookup⟩ := handleEvent_spec e event now
  rw [Table.mem_iff_lookup, Table.mem_iff_lookup, hlookup]
  split
  · next hself => exact iff_of_true ⟨_, rfl⟩ (.inl hself)
  · next hother => exact (or_iff_right hother).symm

theorem len_handleEvent_le (e : CorrelationEngine φ) (event : CorrelationEvent φ) (now : Instant) :
    (e.handleEvent event now).1.state.len ≤ e.state.len + 1 := by
  have hkeys : {host | host ∈ (e.handleEvent event now).1.state} =
      insert event.host {host | host ∈ e.state} := Set.ext fun _ => mem_handleEvent
  have hle := Set.encard_insert_le {host | host ∈ e.state} event.host
  rw [← hkeys, Table.encard_keys, Table.encard_keys] at hle
  exact_mod_cast hle

/-- A host that is tracked makes no other leave. -/
theorem len_handleEvent_of_mem (h : event.host ∈ e.state) :
    (e.handleEvent event now).1.state.len = e.state.len := by
  have hkeys : {host | host ∈ (e.handleEvent event now).1.state} = {host | host ∈ e.state} :=
    Set.ext fun host => mem_handleEvent.trans (or_iff_right_of_imp fun heq => heq ▸ h)
  have hlen := congrArg Set.encard hkeys
  rw [Table.encard_keys, Table.encard_keys] at hlen
  exact_mod_cast hlen

end

/-- The host was seen last no later than any other. -/
theorem isOldest_iff {host : IpAddr} : e.isOldest host = true ↔
    ∃ record, e.state.lookup host = some record ∧
      ∀ host' other, e.state.lookup host' = some other → record.lastSeen ≤ other.lastSeen := by
  unfold isOldest
  cases hrecord : e.state.lookup host with
  | none => simp
  | some record =>
    simp only [List.all_eq_true, decide_eq_true_eq, Option.some.injEq, exists_eq_left']
    refine ⟨fun h host' other hother => ?_, fun h entry hentry => ?_⟩
    · exact h _ (AList.mem_lookup_iff.mp hother)
    · exact h _ _ (AList.mem_lookup_iff.mpr hentry)

/-- Nobody is evicted within the capacity. -/
theorem enforceCapacity_none (h : e.enforceCapacity none = some e') :
    e' = e ∧ e.state.len ≤ e.config.maxTrackedHosts := by
  unfold enforceCapacity at h
  split at h
  · next hle =>
    cases h
    exact ⟨rfl, hle⟩
  · cases h

/-- Beyond it, one host is, and it was seen last no later than any other. -/
theorem enforceCapacity_some {gone : IpAddr} (h : e.enforceCapacity (some gone) = some e') :
    e.config.maxTrackedHosts < e.state.len ∧ e.isOldest gone = true ∧
      e'.config = e.config ∧ e'.state = e.state.erase gone := by
  unfold enforceCapacity at h
  split at h
  · cases h
  · next hlt =>
    dsimp only at h
    split at h
    · next hold =>
      cases h
      exact ⟨not_le.mp hlt, hold, rfl, rfl⟩
    · cases h

/-- There is a host to evict where one has to be. -/
theorem exists_enforceCapacity (e : CorrelationEngine φ) :
    ∃ evicted e', e.enforceCapacity evicted = some e' := by
  by_cases hle : e.state.len ≤ e.config.maxTrackedHosts
  · exact ⟨none, e, by rw [enforceCapacity, if_pos hle]⟩
  · have hne : e.state.entries ≠ [] := fun hnil => hle (by rw [Table.len, hnil]; simp)
    obtain ⟨oldest, holdest⟩ := Option.ne_none_iff_exists'.mp
      (mt List.argmin_eq_none.mp hne : e.state.entries.argmin (fun p => p.2.lastSeen) ≠ none)
    have hisOldest : e.isOldest oldest.1 = true := by
      refine isOldest_iff.mpr ⟨oldest.2, AList.mem_lookup_iff.mpr (List.argmin_mem holdest), ?_⟩
      intro host other hother
      have hentry : (⟨host, other⟩ : Σ _ : IpAddr, HostRecord φ) ∈ e.state.entries :=
        AList.mem_lookup_iff.mp hother
      exact List.le_of_mem_argmin (f := fun p => p.2.lastSeen) hentry holdest
    refine ⟨some oldest.1, ?_⟩
    rw [enforceCapacity, if_neg hle]
    dsimp only
    rw [if_pos hisOldest]
    exact ⟨_, rfl⟩

/-- The capacity holds again. -/
theorem len_enforceCapacity {evicted : Option IpAddr} (h : e.enforceCapacity evicted = some e')
    (hle : e.state.len ≤ e.config.maxTrackedHosts + 1) :
    e'.state.len ≤ e.config.maxTrackedHosts := by
  cases evicted with
  | none =>
    obtain ⟨rfl, hwithin⟩ := enforceCapacity_none h
    exact hwithin
  | some gone =>
    obtain ⟨-, hold, -, hstate⟩ := enforceCapacity_some h
    obtain ⟨record, hrecord, -⟩ := isOldest_iff.mp hold
    have hmem : gone ∈ {host | host ∈ e.state} := Table.mem_iff_lookup.mpr ⟨_, hrecord⟩
    have hkeys : {host | host ∈ e'.state} = {host | host ∈ e.state} \ {gone} := by
      ext host
      rw [hstate]
      exact AList.mem_erase.trans and_comm
    have hlen := Set.encard_sdiff_singleton_add_one hmem
    rw [← hkeys, Table.encard_keys, Table.encard_keys] at hlen
    have hless : e'.state.len + 1 = e.state.len := by exact_mod_cast hlen
    omega

end CorrelationEngine

/-! ## What a step does -/

namespace Tracking

/-- The step in which the engine handles an event. -/
structure Handles (s : Tracking φ) (event : CorrelationEvent φ) (evicted : Option IpAddr)
    (t : Tracking φ) : Prop where
  lookup : ∀ host record, t.engine.state.lookup host = some record ↔
    evicted ≠ some host ∧
      (host = event.host ∧ record = s.engine.handledRecord event ∨
        host ≠ event.host ∧ s.engine.state.lookup host = some record)
  received : t.received = fun host => if host ∈ t.engine.state then s.receive event host else []

/-- A step in which it handles none. -/
structure Quiet (s t : Tracking φ) : Prop where
  lookup : ∀ host record, t.engine.state.lookup host = some record →
    s.engine.state.lookup host = some record
  received : t.received = s.received ∧ t.engine.state = s.engine.state ∨
    t.received = fun host => if host ∈ t.engine.state then s.received host else []
  len : t.engine.state.len ≤ s.engine.state.len

variable [FloatArith φ] {s t : Tracking φ} {a : TrackingAction φ}

theorem exists_of_handleEvent {event : CorrelationEvent φ} {now : Instant} {evicted : Option IpAddr}
    (h : Step s (.handleEvent event now evicted) t) :
    ∃ engine, (s.engine.handleEvent event now).1.enforceCapacity evicted = some engine ∧
      t = forget engine (s.receive event) := by
  simp only [Step, next, Option.bind_eq_bind, Option.bind_eq_some_iff] at h
  obtain ⟨engine, hengine, h⟩ := h
  cases h
  exact ⟨engine, hengine, rfl⟩

theorem handles_of_handleEvent {event : CorrelationEvent φ} {now : Instant}
    {evicted : Option IpAddr} (h : Step s (.handleEvent event now evicted) t) :
    t.engine.config = s.engine.config ∧ s.Handles event evicted t := by
  obtain ⟨engine, hengine, rfl⟩ := exists_of_handleEvent h
  obtain ⟨-, hconfig, -, -, hlookup⟩ := CorrelationEngine.handleEvent_spec s.engine event now
  obtain ⟨hconfig', -, -, hlookup'⟩ := CorrelationEngine.enforceCapacity_spec hengine
  refine ⟨hconfig'.trans hconfig, fun host record => ?_, rfl⟩
  refine (hlookup' host record).trans (and_congr_right fun _ => ?_)
  rw [hlookup]
  split
  · next hself => simp [hself, eq_comm]
  · next hother => simp [hother]

theorem Step.cases (h : Step s a t) : t.engine.config = s.engine.config ∧
    ((∃ event now evicted, a = .handleEvent event now evicted ∧ s.Handles event evicted t) ∨
      s.Quiet t) := by
  cases a with
  | handleEvent event now evicted =>
    obtain ⟨hconfig, hhandles⟩ := handles_of_handleEvent h
    exact ⟨hconfig, .inl ⟨event, now, evicted, rfl, hhandles⟩⟩
  | sweepExpired now =>
    cases h
    refine ⟨rfl, .inr ⟨fun host record hl => ?_, .inr rfl, List.length_filter_le ..⟩⟩
    exact (CorrelationEngine.lookup_sweepExpired.mp hl).1
  | playbook outTx =>
    cases h
    exact ⟨rfl, .inr ⟨fun _ _ hl => hl, .inl ⟨rfl, rfl⟩, Nat.le_refl _⟩⟩

/-! ## What the records hold -/

omit [FloatArith φ] in
/-- Where the evidence is the newest of what was received, so is what is kept of it. -/
theorem kept_eq {record : HostRecord φ} {received : List (CorrelationEvent φ)} {cap : Nat}
    (h : record.evidence = received.rtake (max 1 cap)) :
    record.kept cap = received.rtake (cap - 1) := by
  have hne : received ≠ [] := by
    rintro rfl
    exact record.evidence_ne (h.trans (List.rtake_nil _))
  have hpos := List.length_pos_iff.mpr hne
  unfold HostRecord.kept
  rw [h]
  unfold List.rtake
  rw [List.length_drop, List.tail_drop]
  split
  · congr 1
    omega
  · congr 1
    omega

/-- The records are within the capacity, and each holds the newest of what was received. -/
structure Tracks (s : Tracking φ) : Prop where
  len : s.engine.state.len ≤ s.engine.config.maxTrackedHosts
  fresh : ∀ host, host ∉ s.engine.state → s.received host = []
  evidence : ∀ host record, s.engine.state.lookup host = some record →
    record.evidence = (s.received host).rtake (max 1 s.engine.config.maxEvidencePerHost)

omit [FloatArith φ] in
theorem tracks_start (config : CorrelationConfig) (outTx : Mpsc (CorrelationVerdict φ)) :
    (start config outTx).Tracks where
  len := Nat.zero_le _
  fresh _ _ := rfl
  evidence _ _ hl := nomatch hl

omit [FloatArith φ] in
/-- The record of the event's host, with the event in it. -/
theorem Tracks.evidence_pushed (h : s.Tracks) (event : CorrelationEvent φ) :
    (s.engine.pushed event).evidence =
      (s.receive event event.host).rtake (max 1 s.engine.config.maxEvidencePerHost) := by
  have hsucc : max 1 s.engine.config.maxEvidencePerHost =
      s.engine.config.maxEvidencePerHost - 1 + 1 := by omega
  rw [receive, Function.update_self, hsucc, List.rtake_concat_succ]
  unfold CorrelationEngine.pushed
  cases hrecord : s.engine.state.lookup event.host with
  | none =>
    rw [h.fresh _ (AList.lookup_eq_none.mp hrecord), List.rtake_nil]
    rfl
  | some record =>
    rw [← kept_eq (h.evidence _ _ hrecord)]
    rfl

/-- What was received for a host that is not tracked is forgotten. -/
theorem Tracks.fresh_step (h : s.Tracks) (hst : Step s a t) (host : IpAddr)
    (hhost : host ∉ t.engine.state) : t.received host = [] := by
  obtain ⟨-, ⟨event, now, evicted, -, hhandles⟩ | hquiet⟩ := hst.cases
  · rw [hhandles.received]
    exact if_neg hhost
  · rcases hquiet.received with ⟨hsame, hstate⟩ | hreceived
    · rw [hsame]
      exact h.fresh host (hstate ▸ hhost)
    · rw [hreceived]
      exact if_neg hhost

omit [FloatArith φ] in
/-- What was received for a host that is tracked. -/
theorem Quiet.received_eq (h : s.Quiet t) {host : IpAddr} {record : HostRecord φ}
    (hl : t.engine.state.lookup host = some record) : t.received host = s.received host := by
  rcases h.received with ⟨hsame, -⟩ | hreceived
  · rw [hsame]
  · rw [hreceived]
    exact if_pos (Table.mem_iff_lookup.mpr ⟨record, hl⟩)

omit [FloatArith φ] in
theorem Handles.received_eq {event : CorrelationEvent φ} {evicted : Option IpAddr}
    (h : s.Handles event evicted t) {host : IpAddr} {record : HostRecord φ}
    (hl : t.engine.state.lookup host = some record) : t.received host = s.receive event host := by
  rw [h.received]
  exact if_pos (Table.mem_iff_lookup.mpr ⟨record, hl⟩)

theorem Tracks.len_step (h : s.Tracks) (hst : Step s a t) :
    t.engine.state.len ≤ t.engine.config.maxTrackedHosts := by
  obtain ⟨hconfig, hcases⟩ := hst.cases
  rcases hcases with ⟨event, now, evicted, rfl, -⟩ | hquiet
  · obtain ⟨engine, hengine, rfl⟩ := exists_of_handleEvent hst
    have hbefore := (CorrelationEngine.handleEvent_spec s.engine event now).2.1
    have hle := CorrelationEngine.len_handleEvent_le s.engine event now
    have hlen := CorrelationEngine.len_enforceCapacity hengine
      (hbefore ▸ hle.trans (Nat.succ_le_succ h.len))
    rw [hconfig, ← hbefore]
    exact hlen
  · rw [hconfig]
    exact hquiet.len.trans h.len

theorem Tracks.step (h : s.Tracks) (hst : Step s a t) : t.Tracks := by
  refine ⟨h.len_step hst, h.fresh_step hst, fun host record hl => ?_⟩
  obtain ⟨hconfig, ⟨event, now, evicted, -, hhandles⟩ | hquiet⟩ := hst.cases
  · rw [hconfig, hhandles.received_eq hl]
    obtain ⟨-, ⟨rfl, rfl⟩ | ⟨hother, hl⟩⟩ := (hhandles.lookup host record).mp hl
    · exact h.evidence_pushed event
    · rw [receive, Function.update_of_ne hother]
      exact h.evidence host record hl
  · rw [hconfig, hquiet.received_eq hl]
    exact h.evidence host record (hquiet.lookup host record hl)

/-- What holds in every state that is reached. -/
theorem tracks_of_reachable {config : CorrelationConfig} {outTx : Mpsc (CorrelationVerdict φ)}
    (h : Reachable Step (start config outTx) s) : s.Tracks ∧ s.engine.config = config :=
  h.invariant (I := fun s => s.Tracks ∧ s.engine.config = config) ⟨tracks_start config outTx, rfl⟩
    fun _ _ _ ⟨hs, hconfig⟩ hst => ⟨hs.step hst, hst.cases.1.trans hconfig⟩

/-- In every state that is reached: no more hosts are tracked than the capacity; the evidence of a
host is the newest of what was received for it, as much as its cap allows and one event at least;
every event can be handled, and where a host is evicted then, it is one, and was seen last no later
than any other. -/
theorem hosts_of_reachable {config : CorrelationConfig} {outTx : Mpsc (CorrelationVerdict φ)}
    (h : Reachable Step (start config outTx) s) :
    s.engine.state.len ≤ config.maxTrackedHosts ∧
    (∀ host record, s.engine.state.lookup host = some record →
      record.evidence = (s.received host).rtake (max 1 config.maxEvidencePerHost)) ∧
    ∀ event now,
      (∃ evicted t, Step s (.handleEvent event now evicted) t) ∧
      ∀ gone t, Step s (.handleEvent event now (some gone)) t →
        let e := (s.engine.handleEvent event now).1
        (∃ record, e.state.lookup gone = some record ∧
          ∀ host other, e.state.lookup host = some other → record.lastSeen ≤ other.lastSeen) ∧
        t.engine.state = e.state.erase gone := by
  obtain ⟨htracks, rfl⟩ := tracks_of_reachable h
  refine ⟨htracks.len, htracks.evidence, fun event now => ⟨?_, fun gone t hst => ?_⟩⟩
  · obtain ⟨evicted, engine, hengine⟩ :=
      CorrelationEngine.exists_enforceCapacity (s.engine.handleEvent event now).1
    exact ⟨evicted, forget engine (s.receive event), by simp [Step, next, hengine]⟩
  · obtain ⟨engine, hengine, rfl⟩ := exists_of_handleEvent hst
    obtain ⟨-, hold, -, hstate⟩ := CorrelationEngine.enforceCapacity_some hengine
    exact ⟨CorrelationEngine.isOldest_iff.mp hold, hstate⟩

/-- Room for one host, and for one event of it. -/
def tight : CorrelationConfig := { CorrelationConfig.default with
  maxEvidencePerHost := 1
  maxTrackedHosts := 1 }

/-- A scan by a host. -/
def scanBy (host : IpAddr) (now : Instant) : CorrelationEvent Float :=
  xdpEvent host ⟨host, .v4 9, 50000, 22, .tcp⟩ "nsm/portscan".toList false now

/-- The second host takes the place of the first. -/
theorem hosts_of_reachable_two : ∃ s : Tracking Float,
    Reachable Step (start tight (.channel 256)) s ∧
    (s.engine.state.keys = [.v4 8] ∧ s.received (.v4 8) = [scanBy (.v4 8) 2]) ∧
    s.engine.state.len ≤ 1 := by
  obtain ⟨s, hrun, hs⟩ : ∃ s, Run Step (fun _ _ => True) (start tight (.channel 256))
      [.handleEvent (scanBy (.v4 7) 1) 1 none, .handleEvent (scanBy (.v4 8) 2) 2 (some (.v4 7))] s ∧
        (s.engine.state.keys = [.v4 8] ∧ s.received (.v4 8) = [scanBy (.v4 8) 2]) :=
    Run.exists_of_any (fun _ _ _ h => ⟨trivial, h⟩) (by decide)
  exact ⟨s, ⟨_, hrun⟩, hs, (hosts_of_reachable ⟨_, hrun⟩).1⟩

/-! ## What the records decide -/

/-- The events amount to a verdict: they are of two lanes, or one of them is critical. -/
def Corroborate (events : List (CorrelationEvent φ)) : Prop :=
  (∃ e₁ ∈ events, ∃ e₂ ∈ events, e₁.source ≠ e₂.source) ∨ ∃ e ∈ events, e.severity = .critical

omit [FloatArith φ] in
theorem not_corroborate_iff {events : List (CorrelationEvent φ)} : ¬ Corroborate events ↔
    (∀ e₁ ∈ events, ∀ e₂ ∈ events, e₁.source = e₂.source) ∧
      ∀ e ∈ events, e.severity ≠ .critical := by
  unfold Corroborate
  push Not
  rfl

/-- There is a verdict for each host for which such events were received. -/
def Decided (s : Tracking φ) : Prop :=
  ∀ host record, s.engine.state.lookup host = some record → Corroborate (s.received host) →
    record.finalized = true

/-- The event does not push out the only other event of its host, of another lane, where neither is
enough for a verdict. -/
def Remembers (s : Tracking φ) : TrackingAction φ → Prop
  | .handleEvent event _ _ => ¬ (s.engine.config.maxEvidencePerHost ≤ 1 ∧
      event.severity ≠ .critical ∧ ∃ record ∈ s.engine.state.lookup event.host,
        record.finalized = false ∧ ∃ e ∈ record.evidence, e.source ≠ event.source)
  | _ => True

instance {s : Tracking φ} : ∀ a, Decidable (s.Remembers a)
  | .handleEvent .. => inferInstanceAs (Decidable (¬ (_ ∧ _ ∧ _)))
  | .sweepExpired _ | .playbook _ => inferInstanceAs (Decidable True)

omit [FloatArith φ] in
/-- Some of the evidence is kept where the cap is two or more. -/
theorem exists_mem_kept (record : HostRecord φ) {cap : Nat} (hcap : 1 < cap) :
    ∃ e, e ∈ record.kept cap := by
  refine List.exists_mem_of_ne_nil _ ?_
  unfold HostRecord.kept
  split
  · next hfull =>
    intro hnil
    have hlen := congrArg List.length hnil
    rw [List.length_tail, List.length_nil] at hlen
    omega
  · exact record.evidence_ne

omit [FloatArith φ] in
/-- An event that leads to no verdict is of the lane of some of the evidence. -/
theorem Remembers.exists_same {event : CorrelationEvent φ} {now : Instant}
    {evicted : Option IpAddr} (hok : s.Remembers (.handleEvent event now evicted))
    {record : HostRecord φ} (hrecord : s.engine.state.lookup event.host = some record)
    (hfinalized : record.finalized = false) (hreason : (s.engine.pushed event).reason = none) :
    ∃ e ∈ record.evidence, e.source = event.source := by
  obtain ⟨hlanes, hcritical⟩ := HostRecord.reason_eq_none.mp hreason
  have hevent : event ∈ (s.engine.pushed event).evidence :=
    CorrelationEngine.mem_pushed.mpr (.inl rfl)
  rcases Nat.lt_or_ge 1 s.engine.config.maxEvidencePerHost with hcap | hcap
  · obtain ⟨e, he⟩ := exists_mem_kept record hcap
    have hkept : e ∈ (s.engine.pushed event).evidence :=
      CorrelationEngine.mem_pushed.mpr (.inr ⟨record, hrecord, he⟩)
    exact ⟨e, record.kept_subset _ he, hlanes e hkept event hevent⟩
  · obtain ⟨e, he⟩ := List.exists_mem_of_ne_nil _ record.evidence_ne
    refine ⟨e, he, ?_⟩
    by_contra hother
    exact hok ⟨hcap, hcritical event hevent, record, hrecord, hfinalized, e, he, hother⟩

omit [FloatArith φ] in
/-- What was received for a host amounts to nothing if the record with the event does not. -/
theorem Remembers.not_corroborate {event : CorrelationEvent φ} {now : Instant}
    {evicted : Option IpAddr} (hok : s.Remembers (.handleEvent event now evicted)) (hs : s.Tracks)
    (hdecided : s.Decided) (hfinalized : ¬ s.engine.Finalized event.host)
    (hreason : (s.engine.pushed event).reason = none) :
    ¬ Corroborate (s.receive event event.host) := by
  rw [receive, Function.update_self, not_corroborate_iff]
  cases hrecord : s.engine.state.lookup event.host with
  | none =>
    have hpushed : (s.engine.pushed event).evidence = [event] := by
      rw [CorrelationEngine.pushed, hrecord]
      rfl
    rw [hs.fresh _ (AList.lookup_eq_none.mp hrecord), List.nil_append, ← hpushed]
    exact HostRecord.reason_eq_none.mp hreason
  | some record =>
    have hopen : record.finalized = false :=
      Bool.eq_false_iff.mpr fun hfinal => hfinalized ⟨record, hrecord, hfinal⟩
    obtain ⟨first, hfirst, hsame⟩ := hok.exists_same hrecord hopen hreason
    have hnever : ¬ Corroborate (s.received event.host) := fun hcorroborate =>
      absurd (hdecided _ record hrecord hcorroborate) (by simp [hopen])
    obtain ⟨hlanes, hcritical⟩ := not_corroborate_iff.mp hnever
    have hreceived : first ∈ s.received event.host := by
      rw [hs.evidence _ record hrecord] at hfirst
      exact List.drop_subset _ _ hfirst
    have hlane : ∀ e ∈ s.received event.host ++ [event], e.source = event.source := by
      intro e he
      rcases List.mem_append.mp he with he | he
      · exact (hlanes e he first hreceived).trans hsame
      · rw [List.mem_singleton.mp he]
    refine ⟨fun e₁ he₁ e₂ he₂ => (hlane e₁ he₁).trans (hlane e₂ he₂).symm, fun e he => ?_⟩
    rcases List.mem_append.mp he with he | he
    · exact hcritical e he
    · rw [List.mem_singleton.mp he]
      exact (HostRecord.reason_eq_none.mp hreason).2 event
        (CorrelationEngine.mem_pushed.mpr (.inl rfl))

theorem Decided.step (hdecided : s.Decided) (hs : s.Tracks) (hok : s.Remembers a)
    (hst : Step s a t) : t.Decided := by
  intro host record hl hcorroborate
  obtain ⟨-, ⟨event, now, evicted, rfl, hhandles⟩ | hquiet⟩ := hst.cases
  · rw [hhandles.received_eq hl] at hcorroborate
    obtain ⟨-, ⟨rfl, rfl⟩ | ⟨hother, hl⟩⟩ := (hhandles.lookup host record).mp hl
    · by_contra hopen
      obtain ⟨hfinalized, hdue⟩ := Bool.or_eq_false_iff.mp (Bool.eq_false_iff.mpr hopen)
      rw [CorrelationEngine.due, if_neg (by simp [hfinalized])] at hdue
      have hreason := Option.isNone_iff_eq_none.mp (Option.isSome_eq_false_iff.mp hdue)
      have hopened : ¬ s.engine.Finalized event.host := by
        rw [← CorrelationEngine.pushed_finalized, hfinalized]
        exact Bool.false_ne_true
      exact hok.not_corroborate hs hdecided hopened hreason hcorroborate
    · rw [receive, Function.update_of_ne hother] at hcorroborate
      exact hdecided host record hl hcorroborate
  · rw [hquiet.received_eq hl] at hcorroborate
    exact hdecided host record (hquiet.lookup host record hl) hcorroborate

/-- A step that forgets leaves a host undecided. -/
theorem Tracks.not_decided_of_not_remembers (hs : s.Tracks) (hst : Step s a t)
    (hbad : ¬ s.Remembers a) : ¬ t.Decided := by
  cases a with
  | sweepExpired => exact absurd trivial hbad
  | playbook => exact absurd trivial hbad
  | handleEvent event now evicted =>
    obtain ⟨hcap, hseverity, record, hrecord, hopen, e, he, hother⟩ := not_not.mp hbad
    have hmem : event.host ∈ s.engine.state := Table.mem_iff_lookup.mpr ⟨record, hrecord⟩
    -- the host is tracked, so that no other has to go
    have hevicted : evicted = none := by
      obtain ⟨engine, hengine, -⟩ := exists_of_handleEvent hst
      cases evicted with
      | none => rfl
      | some gone =>
        obtain ⟨hbeyond, -⟩ := CorrelationEngine.enforceCapacity_some hengine
        rw [CorrelationEngine.len_handleEvent_of_mem hmem,
          (CorrelationEngine.handleEvent_spec s.engine event now).2.1] at hbeyond
        exact absurd hs.len (not_le.mpr hbeyond)
    subst hevicted
    have hpushed : s.engine.pushed event =
        record.push event s.engine.config.maxEvidencePerHost := by
      rw [CorrelationEngine.pushed, hrecord]
    have hkept : record.kept s.engine.config.maxEvidencePerHost = [] := by
      rw [kept_eq (hs.evidence _ record hrecord), Nat.sub_eq_zero_of_le hcap, List.rtake_zero]
    have hevidence : (s.engine.pushed event).evidence = [event] := by
      rw [hpushed]
      change record.kept _ ++ [event] = [event]
      rw [hkept, List.nil_append]
    have hreason : (s.engine.pushed event).reason = none := by
      rw [HostRecord.reason_eq_none, hevidence]
      simpa using hseverity
    have hundecided : (s.engine.handledRecord event).finalized = false := by
      have hpushedOpen : (s.engine.pushed event).finalized = false := by
        rw [hpushed]
        exact hopen
      simp [CorrelationEngine.handledRecord, CorrelationEngine.due, hreason, hpushedOpen]
    have hhandles := (handles_of_handleEvent hst).2
    have hl := (hhandles.lookup event.host (s.engine.handledRecord event)).mpr
      ⟨(Option.some_ne_none _).symm, .inl ⟨rfl, rfl⟩⟩
    intro hdecided
    have hreceived : e ∈ s.received event.host := by
      rw [hs.evidence _ record hrecord] at he
      exact List.drop_subset _ _ he
    have hcorroborate : Corroborate (t.received event.host) := by
      rw [hhandles.received_eq hl, receive, Function.update_self]
      exact .inl ⟨e, List.mem_append_left _ hreceived, event, by simp, hother⟩
    cases (hdecided _ _ hl hcorroborate).symm.trans hundecided

theorem step_unique (s : Tracking φ) (a : TrackingAction φ) (t u : Tracking φ) (h₁ : Step s a t)
    (h₂ : Step s a u) : t = u := Option.some.inj (h₁.symm.trans h₂)

omit [FloatArith φ] in
theorem decided_start (config : CorrelationConfig) (outTx : Mpsc (CorrelationVerdict φ)) :
    (start config outTx).Decided := fun _ _ hl => nomatch hl

/-- A run leaves no host undecided for which events were received that amount to a verdict, if and
only if in none of its steps an event pushes out the only other event of its host, of another
lane. -/
theorem decided_iff {config : CorrelationConfig} {outTx : Mpsc (CorrelationVerdict φ)}
    {as : List (TrackingAction φ)} (h : Run Step (fun _ _ => True) (start config outTx) as s) :
    ¬ Visited Step (fun _ _ => True) (start config outTx) as (fun t => ¬ t.Decided) ↔
      Run Step Remembers (start config outTx) as s := by
  refine Run.not_visited_iff step_unique (fun bs t hrun => ?_) (fun bs t a u hrun hst hbad => ?_) h
  · have hboth : t.Tracks ∧ t.Decided :=
      hrun.invariant (I := fun t => t.Tracks ∧ t.Decided)
        ⟨tracks_start config outTx, decided_start config outTx⟩
        fun _ _ _ ⟨hs, hdecided⟩ hok hst => ⟨hs.step hst, hdecided.step hs hok hst⟩
    exact hboth.2
  · have ht : Reachable Step (start config outTx) t := ⟨bs, hrun.mono fun _ _ _ => trivial⟩
    exact (tracks_of_reachable ht).1.not_decided_of_not_remembers hst hbad

/-- A scan by a host, and then a file that is found on it. -/
def scanAndFile : List (TrackingAction Float) :=
  [.handleEvent (scanBy (.v4 7) 1) 1 none,
    .handleEvent (clamAvEvent (.v4 7) "a.exe".toList "Sig.Test".toList true 2) 2 none]

/-- With room for two events, the file decides. -/
theorem decided_iff_roomy : ∃ s : Tracking Float,
    Run Step (fun _ _ => True) (start .default (.channel 256)) scanAndFile s ∧
    ¬ Visited Step (fun _ _ => True) (start .default (.channel 256)) scanAndFile
      (fun t => ¬ t.Decided) := by
  obtain ⟨s, hrun, -⟩ : ∃ s : Tracking Float,
      Run Step Remembers (start .default (.channel 256)) scanAndFile s ∧ True :=
    Run.exists_of_guarded (fun _ _ _ h => h) (by decide)
  have hall := hrun.mono fun _ _ _ => trivial
  exact ⟨s, hall, (decided_iff hall).mpr hrun⟩

/-- With room for one event, the file pushes out the scan. -/
theorem not_decided : ¬ ∀ (config : CorrelationConfig) (outTx : Mpsc (CorrelationVerdict Float))
    (s : Tracking Float), Reachable Step (start config outTx) s → s.Decided := by
  intro hclaim
  obtain ⟨s, hrun, hopen, hlanes⟩ : ∃ s : Tracking Float,
      Run Step (fun _ _ => True) (start tight (.channel 256)) scanAndFile s ∧
        (s.engine.state.lookup (.v4 7)).map (·.finalized) = some false ∧
        (s.received (.v4 7)).map (·.source) = [.xdp, .clamAv] :=
    Run.exists_of_any (fun _ _ _ h => ⟨trivial, h⟩) (by decide)
  obtain ⟨record, hrecord, hfinalized⟩ := Option.map_eq_some_iff.mp hopen
  have hlane : ∀ lane ∈ [LaneSource.xdp, .clamAv],
      ∃ e ∈ s.received (.v4 7), e.source = lane := fun lane hlane => by
    rw [← hlanes] at hlane
    exact List.mem_map.mp hlane
  obtain ⟨e₁, he₁, hxdp⟩ := hlane .xdp (by decide)
  obtain ⟨e₂, he₂, hclam⟩ := hlane .clamAv (by decide)
  have hcorroborate : Corroborate (s.received (.v4 7)) :=
    .inl ⟨e₁, he₁, e₂, he₂, by rw [hxdp, hclam]; decide⟩
  cases (hclaim _ _ s ⟨_, hrun⟩ _ record hrecord hcorroborate).symm.trans hfinalized

end Tracking

end ActiveDefense.Siem
