import ActiveDefense.Siem.Correlation

/-!
# Finalized hosts

`maybe_emit` marks a host finalized before it offers the verdict to the output channel, and no later
event of a finalized host leads to a verdict. So a verdict that the channel refuses is never
delivered, and a critical event of a finalized host is never reported, until the record is gone.
-/

namespace ActiveDefense.Siem.Correlation

variable {φ : Type}

/-- Where a verdict is due, the output channel has room for it, or the host is evicted in the same
step. -/
def Delivers (s : Correlation φ) : CorrelationAction φ → Prop :=
  s.OnEvent fun event evicted => (s.engine.pushed event).finalized = false →
    (s.engine.pushed event).reason ≠ none →
    s.engine.outTx.HasRoom ∨ evicted = some event.host

/-- The verdict on every host that is finalized was delivered. -/
def Announced (s : Correlation φ) : Prop :=
  ∀ host record, s.engine.state.lookup host = some record → record.finalized = true →
    ∃ v ∈ s.delivered, v.host = host ∧ v.firstSeen = record.firstSeen

/-- The output channel has room in every step that handles an event. -/
def NeverFull (s : Correlation φ) : CorrelationAction φ → Prop :=
  s.OnEvent fun _ _ => s.engine.outTx.HasRoom

/-- No critical event comes to a host that is finalized. -/
def CriticalFirst (s : Correlation φ) : CorrelationAction φ → Prop :=
  s.OnEvent fun event _ => event.severity = .critical → ¬ s.engine.Finalized event.host

/-- Every critical event was reported in a verdict that was delivered. -/
def ReportsCritical (s : Correlation φ) : Prop :=
  ∀ h ∈ s.log, h.event.severity = .critical → ∃ v ∈ h.delivered, h.event ∈ v.evidence

instance {s : Correlation φ} {a : CorrelationAction φ} : Decidable (s.Delivers a) :=
  inferInstanceAs (Decidable (s.OnEvent _ a))

instance {s : Correlation φ} {a : CorrelationAction φ} : Decidable (s.NeverFull a) :=
  inferInstanceAs (Decidable (s.OnEvent _ a))

instance {s : Correlation φ} [DecidableEq φ] : Decidable s.ReportsCritical :=
  inferInstanceAs (Decidable (∀ h ∈ s.log, _))

variable [FloatArith φ] {s t : Correlation φ} {a : CorrelationAction φ}
  {event : CorrelationEvent φ} {now : Instant} {evicted : Option IpAddr}

omit [FloatArith φ] in
/-- A record keeps the time its host was first seen. -/
theorem firstSeen_pushed {record : HostRecord φ}
    (h : s.engine.state.lookup event.host = some record) :
    (s.engine.pushed event).firstSeen = record.firstSeen := by
  rw [CorrelationEngine.pushed, h]
  rfl

/-- The handled event leaves its host announced, if the host's record stays. -/
theorem Announced.handled (h : s.Announced) (hhandles : s.Handles event now evicted t)
    (hok : s.Delivers (.recv now evicted)) (hstays : evicted ≠ some event.host)
    (hfin : (s.engine.handledRecord event).finalized = true) :
    ∃ v ∈ t.delivered,
      v.host = event.host ∧ v.firstSeen = (s.engine.pushed event).firstSeen := by
  rw [hhandles.delivered]
  cases hpushed : (s.engine.pushed event).finalized with
  | true =>
    obtain ⟨record, hl, hrecord⟩ := (s.engine.pushed_finalized event).mp hpushed
    obtain ⟨v, hv, hhost, hseen⟩ := h event.host record hl hrecord
    refine ⟨v, List.mem_append_left _ hv, hhost, ?_⟩
    rw [hseen, firstSeen_pushed hl]
  | false =>
    have hdue : (s.engine.due event).isSome = true := by
      simpa [CorrelationEngine.handledRecord, hpushed] using hfin
    obtain ⟨reason, hreason⟩ := Option.isSome_iff_exists.mp hdue
    have hsome : (s.engine.pushed event).reason ≠ none := by
      rw [CorrelationEngine.due, hpushed, if_neg (by simp)] at hreason
      simp [hreason]
    have hroom := (hhandles.onEvent_iff.mp hok hpushed hsome).resolve_right hstays
    have htaken : taken (s.engine.emission event now) = some _ :=
      CorrelationEngine.taken_emission.mpr ⟨hroom, _, hreason, rfl⟩
    exact ⟨_, List.mem_append_right _ (by rw [htaken]; exact .head _), rfl, rfl⟩

/-- A step in which no verdict is refused keeps every finalized host announced. -/
theorem Announced.step (h : s.Announced) (hok : s.Delivers a) (hst : Step s a t) :
    t.Announced := by
  obtain ⟨-, ⟨event, now, evicted, rfl, hhandles⟩ | hquiet⟩ := hst.cases
  · intro host record hl hfin
    obtain ⟨hstays, ⟨rfl, rfl⟩ | ⟨-, hl⟩⟩ := (hhandles.lookup host record).mp hl
    · exact h.handled hhandles hok hstays hfin
    · obtain ⟨v, hv, hverdict⟩ := h host record hl hfin
      rw [hhandles.delivered]
      exact ⟨v, List.mem_append_left _ hv, hverdict⟩
  · intro host record hl hfin
    rw [hquiet.delivered]
    exact h host record (hquiet.lookup host record hl) hfin

/-- In a run in which no verdict is refused, every finalized host was announced. -/
theorem announced_of_delivers {config : CorrelationConfig} {outTx : Mpsc (CorrelationVerdict φ)}
    {as : List (CorrelationAction φ)} (h : Run Step Delivers (start config outTx) as t) :
    t.Announced :=
  h.invariant
    (fun host record hl => by
      rw [lookup_start] at hl
      cases hl)
    fun _ _ _ hs hok hst => hs.step hok hst

/-- A verdict that is refused leaves its host finalized, where the host is not evicted, and nothing
is delivered. -/
theorem silent_of_not_delivers (hst : Step s (.recv now evicted) t)
    (hok : ¬ s.Delivers (.recv now evicted)) :
    ∃ host, t.engine.Finalized host ∧ t.delivered = s.delivered := by
  obtain ⟨-, ⟨event, now', evicted', ha, hhandles⟩ | hquiet⟩ := hst.cases
  · cases ha
    rw [Delivers, hhandles.onEvent_iff] at hok
    simp only [not_forall, not_or] at hok
    obtain ⟨hpushed, hreason, hroom, hstays⟩ := hok
    obtain ⟨reason, hsome⟩ := Option.ne_none_iff_exists'.mp hreason
    have hdue : s.engine.due event = some reason := by
      rw [CorrelationEngine.due, hpushed, hsome, if_neg (by simp)]
    have hrecord := (hhandles.lookup _ _).mpr ⟨hstays, .inl ⟨rfl, rfl⟩⟩
    refine ⟨event.host, ⟨_, hrecord, ?_⟩, ?_⟩
    · simp [CorrelationEngine.handledRecord, hdue]
    · rw [hhandles.delivered]
      cases htaken : taken (s.engine.emission event now) with
      | none => exact List.append_nil _
      | some => exact absurd (CorrelationEngine.taken_emission.mp htaken).1 hroom
  · exact absurd rfl (hquiet.action now evicted)

/-- A critical event is reported if and only if its host is not finalized and the channel has
room. -/
theorem reported_iff (hcritical : event.severity = .critical) :
    (∃ v, taken (s.engine.emission event now) = some v ∧ event ∈ v.evidence) ↔
      s.engine.outTx.HasRoom ∧ ¬ s.engine.Finalized event.host := by
  have hself : event ∈ (s.engine.pushed event).evidence :=
    CorrelationEngine.mem_pushed.mpr (.inl rfl)
  have hreason : (s.engine.pushed event).reason ≠ none :=
    fun hnone => (HostRecord.reason_eq_none.mp hnone).2 event hself hcritical
  rw [← s.engine.pushed_finalized event]
  constructor
  · rintro ⟨v, hv, -⟩
    obtain ⟨hroom, reason, hdue, -⟩ := CorrelationEngine.taken_emission.mp hv
    refine ⟨hroom, fun hfin => ?_⟩
    rw [CorrelationEngine.due, if_pos hfin] at hdue
    cases hdue
  · rintro ⟨hroom, hfin⟩
    obtain ⟨reason, hsome⟩ := Option.ne_none_iff_exists'.mp hreason
    have hdue : s.engine.due event = some reason := by
      rw [CorrelationEngine.due, if_neg hfin, hsome]
    exact ⟨_, CorrelationEngine.taken_emission.mpr ⟨hroom, reason, hdue, rfl⟩, hself⟩

/-- One step of a channel that is never full reports every critical event if and only if none came
to a finalized host. -/
theorem reportsCritical_step (hroom : s.NeverFull a) (hst : Step s a t) :
    t.ReportsCritical ↔ s.ReportsCritical ∧ s.CriticalFirst a := by
  obtain ⟨-, ⟨event, now, evicted, rfl, hhandles⟩ | hquiet⟩ := hst.cases
  · rw [ReportsCritical, hhandles.log]
    simp only [List.mem_append, List.mem_singleton, or_imp, forall_and, forall_eq]
    rw [CriticalFirst, hhandles.onEvent_iff]
    refine and_congr_right fun _ => forall_congr' fun hcritical => ?_
    exact (reported_iff hcritical).trans (and_iff_right (hhandles.onEvent_iff.mp hroom))
  · rw [ReportsCritical, ReportsCritical, hquiet.log]
    exact (and_iff_left hquiet.onEvent).symm

/-- Along a run whose channel is never full, every critical event is reported if and only if none
came to a finalized host. -/
theorem reportsCritical_iff {config : CorrelationConfig} {outTx : Mpsc (CorrelationVerdict φ)}
    {as : List (CorrelationAction φ)} (h : Run Step NeverFull (start config outTx) as t) :
    t.ReportsCritical ↔
      Run Step (fun s a => s.NeverFull a ∧ s.CriticalFirst a) (start config outTx) as t := by
  constructor
  · intro ht
    induction h with
    | nil => exact .nil
    | snoc _ hroom hst ih =>
      obtain ⟨hs, hfirst⟩ := (reportsCritical_step hroom hst).mp ht
      exact (ih hs).snoc ⟨hroom, hfirst⟩ hst
  · intro hrun
    refine hrun.invariant (I := ReportsCritical) (fun h hmem => by cases hmem) ?_
    rintro s a t hs ⟨hroom, hfirst⟩ hst
    exact (reportsCritical_step hroom hst).mpr ⟨hs, hfirst⟩

/-- The spectral lane reports a score of a host, and the engine takes the event. -/
def scored (host : IpAddr) (anomalyScore : Float) (now : Instant) :
    List (CorrelationAction Float) :=
  [.spectral host ⟨host, .v4 9, 50000, 22, .tcp⟩ anomalyScore 0.0 now, .recv now none]

/-- The engine takes an event for each critical score that the spectral lane reports of a host. -/
def scores (hosts : List (IpAddr × Instant)) : List (CorrelationAction Float) :=
  hosts.flatMap fun (host, now) => scored host 0.95 now

/-- `announced_of_delivers` where there is room for the verdicts on two hosts. -/
theorem announced_of_delivers_two : ∃ t : Correlation Float,
    (t.engine.Finalized (.v4 7) ∧ t.engine.Finalized (.v4 8)) ∧ t.Announced := by
  obtain ⟨t, hrun, hfin⟩ : ∃ t : Correlation Float, Run Step Delivers
      (start .default (.channel 2)) (scores [(.v4 7, 1), (.v4 8, 2)]) t ∧
        t.engine.Finalized (.v4 7) ∧ t.engine.Finalized (.v4 8) :=
    exists_run (by decide)
  exact ⟨t, hfin, announced_of_delivers hrun⟩

/-- There is room for one verdict, and the next host stays silent. -/
theorem not_announced : ¬ ∀ (config : CorrelationConfig)
    (outTx : Mpsc (CorrelationVerdict Float)) (as : List (CorrelationAction Float))
    (t : Correlation Float), Run Step (fun _ _ => True) (start config outTx) as t →
      ∀ host, t.engine.Finalized host → ∃ v ∈ t.delivered, v.host = host := by
  intro h
  obtain ⟨t, hrun, hfin, hnone⟩ : ∃ t : Correlation Float, Run Step (fun _ _ => True)
      (start .default (.channel 1)) (scores [(.v4 7, 1), (.v4 8, 2)]) t ∧
        t.engine.Finalized (.v4 8) ∧ ∀ v ∈ t.delivered, v.host ≠ .v4 8 :=
    exists_run (by decide)
  obtain ⟨v, hv, hhost⟩ := h _ _ _ t hrun _ hfin
  exact hnone v hv hhost

/-- Both hosts have a critical score after a lower one of the first, and the second has another
critical score when its record is gone. -/
def mixedScores : List (CorrelationAction Float) :=
  scored (.v4 7) 0.5 1 ++ scored (.v4 8) 0.95 2 ++ scored (.v4 7) 0.95 3 ++
    scored (.v4 8) 0.5 4 ++ [.take, .sweep (Duration.fromSecs 70)] ++
    scored (.v4 8) 0.95 (Duration.fromSecs 71)

/-- All three critical scores are reported. -/
theorem reportsCritical_iff_mixed : ∃ t : Correlation Float,
    t.delivered.map (·.host) = [.v4 8, .v4 7, .v4 8] ∧
      Run Step (fun s a => s.NeverFull a ∧ s.CriticalFirst a) (start .default (.channel 256))
        mixedScores t := by
  obtain ⟨t, hrun, hreports, hhosts⟩ : ∃ t : Correlation Float, Run Step NeverFull
      (start .default (.channel 256)) mixedScores t ∧ t.ReportsCritical ∧
        t.delivered.map (·.host) = [.v4 8, .v4 7, .v4 8] :=
    exists_run (by decide)
  exact ⟨t, hhosts, (reportsCritical_iff hrun).mp hreports⟩

/-- A host has two critical scores, and its record is swept when it has expired: the second score
is in no verdict. -/
theorem not_reportsCritical : ¬ ∀ (config : CorrelationConfig)
    (outTx : Mpsc (CorrelationVerdict Float)) (as : List (CorrelationAction Float))
    (t : Correlation Float), Run Step NeverFull (start config outTx) as t →
      ∀ h ∈ t.log, h.event.severity = .critical → ∃ v ∈ t.delivered, h.event ∈ v.evidence := by
  intro h
  obtain ⟨t, hrun, -, handled, hmem, hcritical, hnone⟩ : ∃ t : Correlation Float,
      Run Step NeverFull (start .default (.channel 256))
        (scores [(.v4 7, 1), (.v4 7, 2)] ++ [.sweep (Duration.fromSecs 70)]) t ∧
      t.engine.state.keys = [] ∧ ∃ h ∈ t.log, h.event.severity = .critical ∧
        ∀ v ∈ t.delivered, h.event ∉ v.evidence :=
    exists_run (by decide)
  obtain ⟨v, hv, hevidence⟩ := h _ _ _ t hrun handled hmem hcritical
  exact hnone v hv hevidence

end ActiveDefense.Siem.Correlation
