import ActiveDefense.Siem.Correlation

/-!
# The correlation window

`sweep_expired` is the only place that looks at the window, and it compares it with the last event
of a record. A record may therefore hold evidence that is older than the window: where no sweep ran
in time, and where later events of the same lane kept the record. A verdict of two lanes rests on
events of one window if and only if the evidence that an event of a second lane meets is not all
that old.
-/

namespace ActiveDefense.Siem

variable {φ : Type}

/-- Observed less than the window apart. -/
def InWindow (window : Duration) (e₁ e₂ : CorrelationEvent φ) : Prop :=
  e₁.observedAt.durationSince e₂.observedAt < window ∧
    e₂.observedAt.durationSince e₁.observedAt < window

instance {window : Duration} {e₁ e₂ : CorrelationEvent φ} :
    Decidable (InWindow window e₁ e₂) :=
  inferInstanceAs (Decidable (_ ∧ _))

theorem InWindow.symm {window : Duration} {e₁ e₂ : CorrelationEvent φ}
    (h : InWindow window e₁ e₂) : InWindow window e₂ e₁ := And.symm h

/-- Two lanes saw the host within the window. -/
def CorrelationVerdict.Corroborated (v : CorrelationVerdict φ) (window : Duration) : Prop :=
  ∃ e₁ ∈ v.evidence, ∃ e₂ ∈ v.evidence, e₁.host = v.host ∧ e₂.host = v.host ∧
    e₁.source ≠ e₂.source ∧ InWindow window e₁ e₂

instance {v : CorrelationVerdict φ} {window : Duration} : Decidable (v.Corroborated window) :=
  inferInstanceAs (Decidable (∃ e₁ ∈ v.evidence, ∃ e₂ ∈ v.evidence, _))

namespace Correlation

/-- Where an event comes to a record without a verdict that keeps evidence of another lane, some of
that evidence is not older or newer than the event by the window or more. Where the output channel
has no room, nothing is asked. -/
def Timely (s : Correlation φ) : CorrelationAction φ → Prop :=
  s.OnEvent fun event _ => ∀ record ∈ s.engine.state.lookup event.host,
    record.finalized = false → s.engine.outTx.HasRoom →
    (∃ e ∈ record.kept s.engine.config.maxEvidencePerHost, e.source ≠ event.source) →
    ∃ e ∈ record.kept s.engine.config.maxEvidencePerHost,
      e.source ≠ event.source ∧ InWindow s.engine.config.window e event

/-- Every verdict of two lanes that was delivered is corroborated. -/
def Corroborates (s : Correlation φ) : Prop :=
  ∀ v ∈ s.delivered, v.reason = .multiLaneCorroboration →
    v.Corroborated s.engine.config.window

instance {s : Correlation φ} : Decidable s.Corroborates :=
  inferInstanceAs (Decidable (∀ v ∈ s.delivered, _))

variable [FloatArith φ] {s t : Correlation φ} {a : CorrelationAction φ}
  {event : CorrelationEvent φ} {now : Instant}

omit [FloatArith φ] in
/-- The evidence a record without a verdict keeps is of one lane. -/
theorem Sound.source_eq (h : s.Sound) {host : IpAddr} {record : HostRecord φ}
    (hl : s.engine.state.lookup host = some record) (hfin : record.finalized = false)
    {maxEvidence : Nat} {e₁ e₂ : CorrelationEvent φ} (h₁ : e₁ ∈ record.kept maxEvidence)
    (h₂ : e₂ ∈ record.kept maxEvidence) : e₁.source = e₂.source := by
  obtain ⟨hone, -⟩ := HostRecord.reason_eq_none.mp (h.undecided host record hl hfin)
  exact hone e₁ (record.kept_subset _ h₁) e₂ (record.kept_subset _ h₂)

omit [FloatArith φ] in
/-- A verdict of two lanes is due where the event meets evidence of another lane in a record without
a verdict. -/
theorem Sound.due_eq_multiLane (h : s.Sound) :
    s.engine.due event = some .multiLaneCorroboration ↔
      ∃ record, s.engine.state.lookup event.host = some record ∧ record.finalized = false ∧
        ∃ e ∈ record.kept s.engine.config.maxEvidencePerHost, e.source ≠ event.source := by
  have hfinalized := CorrelationEngine.pushed_finalized s.engine event
  rw [CorrelationEngine.due]
  constructor
  · intro hdue
    split at hdue
    · cases hdue
    · rename_i hfin
      rw [hfinalized] at hfin
      obtain ⟨e₁, h₁, e₂, h₂, hne⟩ := HostRecord.reason_eq_multiLane.mp hdue
      have hunfinalized : ∀ record, s.engine.state.lookup event.host = some record →
          record.finalized = false :=
        fun record hl => Bool.eq_false_iff.mpr fun hf => hfin ⟨record, hl, hf⟩
      rw [CorrelationEngine.mem_pushed] at h₁ h₂
      rcases h₁ with rfl | ⟨record, hl, hk₁⟩
      · rcases h₂ with rfl | ⟨record, hl, hk₂⟩
        · exact absurd rfl hne
        · exact ⟨record, hl, hunfinalized record hl, e₂, hk₂, hne.symm⟩
      · rcases h₂ with rfl | ⟨record', hl', hk₂⟩
        · exact ⟨record, hl, hunfinalized record hl, e₁, hk₁, hne⟩
        · cases hl.symm.trans hl'
          exact absurd (h.source_eq hl (hunfinalized record hl) hk₁ hk₂) hne
  · rintro ⟨record, hl, hfin, e, hk, hne⟩
    rw [if_neg, HostRecord.reason_eq_multiLane]
    · exact ⟨e, CorrelationEngine.mem_pushed.mpr (.inr ⟨record, hl, hk⟩), event,
        CorrelationEngine.mem_pushed.mpr (.inl rfl), hne⟩
    · rw [hfinalized]
      rintro ⟨record', hl', hfin'⟩
      cases hl.symm.trans hl'
      rw [hfin] at hfin'
      cases hfin'

/-- A verdict is corroborated if and only if the event is, by evidence that was kept. -/
theorem Sound.corroborated_iff (h : s.Sound) {record : HostRecord φ}
    (hl : s.engine.state.lookup event.host = some record) (hfin : record.finalized = false)
    {reason : CorrelationReason} :
    ((s.engine.pushed event).verdict event.host reason now).Corroborated s.engine.config.window ↔
      ∃ e ∈ record.kept s.engine.config.maxEvidencePerHost,
        e.source ≠ event.source ∧ InWindow s.engine.config.window e event := by
  have hkept : ∀ e ∈ (s.engine.pushed event).evidence,
      e = event ∨ e ∈ record.kept s.engine.config.maxEvidencePerHost := by
    intro e he
    obtain rfl | ⟨record', hl', hk⟩ := CorrelationEngine.mem_pushed.mp he
    · exact .inl rfl
    · cases hl.symm.trans hl'
      exact .inr hk
  constructor
  · rintro ⟨e₁, h₁, e₂, h₂, -, -, hne, hwindow⟩
    rcases hkept e₁ h₁ with rfl | hk₁
    · rcases hkept e₂ h₂ with rfl | hk₂
      · exact absurd rfl hne
      · exact ⟨e₂, hk₂, hne.symm, hwindow.symm⟩
    · rcases hkept e₂ h₂ with rfl | hk₂
      · exact ⟨e₁, hk₁, hne, hwindow⟩
      · exact absurd (h.source_eq hl hfin hk₁ hk₂) hne
  · rintro ⟨e, hk, hne, hwindow⟩
    have he := CorrelationEngine.mem_pushed.mpr (.inr ⟨record, hl, hk⟩)
    exact ⟨e, he, event, CorrelationEngine.mem_pushed.mpr (.inl rfl), h.host_of_mem_pushed he,
      rfl, hne, hwindow⟩

/-- The verdict of the step that handles an event is corroborated if the step is timely. -/
theorem Sound.corroborated_of_timely (h : s.Sound) {evicted : Option IpAddr}
    (hhandles : s.Handles event now evicted t) (htimely : s.Timely (.recv now evicted))
    {v : CorrelationVerdict φ} (hv : taken (s.engine.emission event now) = some v)
    (hmulti : v.reason = .multiLaneCorroboration) : v.Corroborated s.engine.config.window := by
  obtain ⟨hroom, reason, hdue, rfl⟩ := CorrelationEngine.taken_emission.mp hv
  have hdue : s.engine.due event = some .multiLaneCorroboration := hmulti ▸ hdue
  obtain ⟨record, hl, hfin, hother⟩ := h.due_eq_multiLane.mp hdue
  rw [h.corroborated_iff hl hfin]
  exact hhandles.onEvent_iff.mp htimely record hl hfin hroom hother

/-- The step that handles an event is timely if its verdict is corroborated. -/
theorem Sound.timely_of_corroborated (h : s.Sound) {evicted : Option IpAddr}
    (hhandles : s.Handles event now evicted t)
    (hverdict : ∀ v, taken (s.engine.emission event now) = some v →
      v.reason = .multiLaneCorroboration → v.Corroborated s.engine.config.window) :
    s.Timely (.recv now evicted) := by
  refine hhandles.onEvent_iff.mpr fun record hl hfin hroom hother => ?_
  have hdue := h.due_eq_multiLane.mpr ⟨record, hl, hfin, hother⟩
  rw [← h.corroborated_iff hl hfin]
  exact hverdict _ (CorrelationEngine.taken_emission.mpr ⟨hroom, _, hdue, rfl⟩) rfl

/-- One step keeps every verdict corroborated if and only if it is timely. -/
theorem Sound.corroborates_step (h : s.Sound) (hst : Step s a t) :
    t.Corroborates ↔ s.Corroborates ∧ s.Timely a := by
  obtain ⟨hconfig, ⟨event, now, evicted, rfl, hhandles⟩ | hquiet⟩ := hst.cases
  · rw [Corroborates, Corroborates, hconfig, hhandles.delivered]
    simp only [List.mem_append, Option.mem_toList, or_imp, forall_and]
    refine and_congr_right fun _ => ⟨h.timely_of_corroborated hhandles, fun htimely v => ?_⟩
    exact h.corroborated_of_timely hhandles htimely
  · rw [Corroborates, Corroborates, hconfig, hquiet.delivered]
    exact (and_iff_left hquiet.onEvent).symm

/-- Along a run, every verdict of two lanes is corroborated within the window if and only if every
step was timely. -/
theorem corroborates_iff_timely {config : CorrelationConfig}
    {outTx : Mpsc (CorrelationVerdict φ)} {as : List (CorrelationAction φ)}
    (h : Run Step (fun _ _ => True) (start config outTx) as t) :
    t.Corroborates ↔ Run Step Timely (start config outTx) as t := by
  constructor
  · intro ht
    induction h with
    | nil => exact .nil
    | snoc hrun _ hst ih =>
      obtain ⟨hs, htimely⟩ := ((sound_of_run hrun).corroborates_step hst).mp ht
      exact (ih hs).snoc htimely hst
  · intro hrun
    refine (hrun.invariant (I := fun s => s.Sound ∧ s.Corroborates) ⟨sound_start, nofun⟩ ?_).2
    rintro s a t ⟨hsound, hs⟩ htimely hst
    exact ⟨hsound.step hst, (hsound.corroborates_step hst).mpr ⟨hs, htimely⟩⟩

/-- A scan and, so much later, a file that is found; the sweep between them comes before the scan
is a window old. -/
def scanThenFile (later : Duration) : List (CorrelationAction Float) :=
  let flow : FlowKey := ⟨.v4 7, .v4 9, 50000, 22, .tcp⟩
  let first := Duration.fromSecs 1
  [.xdp (.v4 7) flow "nsm/portscan".toList false first, .recv first none,
    .sweep (Duration.fromSecs 60),
    .clamAv (.v4 7) "a.exe".toList "Sig.Test".toList true (first + later),
    .recv (first + later) none]

/-- `corroborates_iff_timely` at a file that is found 59 seconds after the scan. -/
theorem corroborates_iff_timely_prompt : ∃ t : Correlation Float,
    Run Step Timely (start .default (.channel 256)) (scanThenFile (Duration.fromSecs 59)) t := by
  obtain ⟨t, hrun, hverdicts⟩ : ∃ t : Correlation Float, Run Step (fun _ _ => True)
      (start .default (.channel 256)) (scanThenFile (Duration.fromSecs 59)) t ∧ t.Corroborates :=
    exists_run (by decide)
  exact ⟨t, (corroborates_iff_timely hrun).mp hverdicts⟩

/-- The file is found 61 seconds after the scan. -/
theorem not_corroborates : ¬ ∀ (config : CorrelationConfig)
    (outTx : Mpsc (CorrelationVerdict Float)) (as : List (CorrelationAction Float))
    (t : Correlation Float),
    Run Step (fun _ _ => True) (start config outTx) as t → t.Corroborates := by
  intro h
  obtain ⟨t, hrun, hverdicts⟩ : ∃ t : Correlation Float, Run Step (fun _ _ => True)
      (start .default (.channel 256)) (scanThenFile (Duration.fromSecs 61)) t ∧
        ¬ t.Corroborates :=
    exists_run (by decide)
  exact hverdicts (h _ _ _ t hrun)

end Correlation

end ActiveDefense.Siem
