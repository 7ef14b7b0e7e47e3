import ActiveDefense.Siem.Orchestrator
import Mathlib.Tactic.Linarith
import Mathlib.Tactic.NormNum

/-!
# Flows within the baseline of the spectral engine

`ingest_cic` calls a flow an anomaly if its score is above the threshold. `ingest_and_submit` sends
the score as a part of the threshold, capped at one, and the spectral lane calls it critical from
nine tenths on. So the flows from there up to the threshold are within the baseline for the engine,
and critical for the correlation engine, which decides on a critical event alone. A run keeps what
is within the baseline from being critical, and from a verdict of its own, if and only if it scores
no such flow (`baselineQuiet_iff`). Arithmetic is exact.
-/

namespace ActiveDefense.Siem

section
variable {φ : Type} [FloatArith φ]

/-! ## The spectral engine -/

/-- The `Severity` of `spec_engine`. -/
inductive LossSeverity where
  | info
  | low
  | medium
  | high
  | critical
deriving DecidableEq, Repr

/-- `from_loss`. -/
def LossSeverity.fromLoss (loss threshold : φ) : LossSeverity :=
  if loss < threshold then .info
  else if loss < threshold * 1.5 then .low
  else if loss < threshold * 3.0 then .medium
  else if loss < threshold * 6.0 then .high
  else .critical

/-- `IngestResult`; of the report, its severity. -/
structure IngestResult (φ : Type) where
  anomalyScore : φ
  isAnomaly : Bool
  severity : Option LossSeverity

/-- What `ingest_cic` makes of the score that its model gives a flow. -/
def ingestCic (threshold score : φ) : IngestResult φ :=
  let isAnomaly := decide (threshold < score)
  { anomalyScore := score
    isAnomaly := isAnomaly
    severity := if isAnomaly then some (.fromLoss score threshold) else none }

/-- What `ingest_and_submit` sends. -/
def ingestAndSubmit (threshold : φ) (flow : IpAddr × FlowKey) (result : Except Str (IngestResult φ))
    (fiedlerShift : φ) (now : Instant) : Option (CorrelationAction φ) :=
  match result with
  | .error _ => none
  | .ok result => some (submitScore threshold flow result.anomalyScore fiedlerShift now)

/-! ## Steps -/

/-- A flow that is given a score, or that the engine fails on; or a step of another part. -/
inductive SpectralAction (φ : Type) where
  | ingest (flow : IpAddr × FlowKey) (score : Except Str φ) (fiedlerShift : φ) (now : Instant)
  | other (a : CorrelationAction φ)

namespace SpectralAction

/-- What the step is for the correlation engine. -/
def action (threshold : φ) : SpectralAction φ → Option (CorrelationAction φ)
  | ingest flow score fiedlerShift now =>
    ingestAndSubmit threshold flow (score.map (ingestCic threshold)) fiedlerShift now
  | other a => some a

/-- The event that the step sends. -/
def sent (threshold : φ) (a : SpectralAction φ) : Option (CorrelationEvent φ) :=
  (a.action threshold).bind CorrelationAction.sent

/-- The engine scores a flow, and does not call it an anomaly. -/
def WithinBaseline (threshold : φ) : SpectralAction φ → Prop
  | ingest _ (.ok score) _ _ => (ingestCic threshold score).isAnomaly = false
  | _ => False

/-- A score below nine tenths of the threshold. -/
def BelowCritical (threshold : φ) : SpectralAction φ → Prop
  | ingest _ (.ok score) _ _ => score < 0.9 * threshold
  | _ => False

end SpectralAction

namespace Correlation

/-- The state after a step. -/
def nextSpectral (threshold : φ) (s : Correlation φ) (a : SpectralAction φ) :
    Option (Correlation φ) :=
  match a.action threshold with
  | none => some s
  | some action => s.next action

/-- The steps, with the flows that the spectral engine scores. -/
def SpectralStep (threshold : φ) (s : Correlation φ) (a : SpectralAction φ) (t : Correlation φ) :
    Prop :=
  s.nextSpectral threshold a = some t

/-- Whether the verdict rests on nothing but flows of the run that are within the baseline. -/
def RestsOnBaseline (threshold : φ) (as : List (SpectralAction φ)) (v : CorrelationVerdict φ) :
    Prop :=
  ∀ e ∈ v.evidence, ∃ a ∈ as, a.WithinBaseline threshold ∧ a.sent threshold = some e

/-- The event of a flow within the baseline is not critical, and no verdict for a critical event
rests on such flows alone, whether or not the channel took it. -/
structure BaselineQuiet (threshold : φ) (as : List (SpectralAction φ)) (t : Correlation φ) :
    Prop where
  events : ∀ a ∈ as, a.WithinBaseline threshold → ∀ e, a.sent threshold = some e →
    e.severity ≠ .critical
  verdicts : ∀ h ∈ t.log, ∀ emission, h.emission = some emission →
    emission.verdict.reason = .singleLaneCritical →
      ¬ RestsOnBaseline threshold as emission.verdict

end Correlation

end

/-! ## The verdicts for a critical event -/

section
variable {φ : Type}

/-- A record that amounts to such a verdict has a critical event. -/
theorem HostRecord.exists_critical {r : HostRecord φ} (h : r.reason = some .singleLaneCritical) :
    ∃ e ∈ r.evidence, e.severity = .critical := by
  unfold reason at h
  split at h
  · cases h
  · split at h
    · next hcrit => exact maxSeverity_eq_critical.mp hcrit
    · cases h

namespace Correlation

/-- Every verdict for a critical event has one as evidence. -/
def CriticalBacked (s : Correlation φ) : Prop :=
  ∀ h ∈ s.log, ∀ emission, h.emission = some emission →
    emission.verdict.reason = .singleLaneCritical →
      ∃ e ∈ emission.verdict.evidence, e.severity = .critical

variable [FloatArith φ] {s t : Correlation φ}

/-- The verdict of a step is on the record that it leaves. -/
theorem CriticalBacked.step {a : CorrelationAction φ} (h : s.CriticalBacked) (hst : Step s a t) :
    t.CriticalBacked := by
  obtain ⟨-, ⟨event, now, evicted, -, hhandles⟩ | hquiet⟩ := hst.cases
  · intro handled hmem emission hemission hreason
    rw [hhandles.log, List.mem_append, List.mem_singleton] at hmem
    rcases hmem with hmem | rfl
    · exact h handled hmem emission hemission hreason
    · obtain ⟨reason, hdue, rfl⟩ := Option.map_eq_some_iff.mp hemission
      unfold CorrelationEngine.due at hdue
      split at hdue
      · cases hdue
      · cases hreason
        exact HostRecord.exists_critical hdue
  · unfold CriticalBacked
    rw [hquiet.log]
    exact h

theorem CriticalBacked.spectralStep {threshold : φ} {a : SpectralAction φ}
    (h : s.CriticalBacked) (hst : SpectralStep threshold s a t) : t.CriticalBacked := by
  unfold SpectralStep nextSpectral at hst
  split at hst
  · cases hst
    exact h
  · exact h.step hst

theorem criticalBacked_of_run {threshold : φ} {ok : Correlation φ → SpectralAction φ → Prop}
    {config : CorrelationConfig} {outTx : Mpsc (CorrelationVerdict φ)}
    {as : List (SpectralAction φ)} (h : Run (SpectralStep threshold) ok (start config outTx) as t) :
    t.CriticalBacked := by
  refine h.invariant (fun handled hmem => ?_) fun _ _ _ hs _ hst => hs.spectralStep hst
  exact absurd hmem List.not_mem_nil

end Correlation

end

/-! ## The cut-offs -/

section
variable {K : Type} [Field K] [LinearOrder K] [FloorRing K] [IsStrictOrderedRing K]

/-- The event of a flow is critical from nine tenths of the threshold on. -/
theorem severity_submitScore_iff {threshold score fiedlerShift : K} (hpos : 0 < threshold)
    {flow : IpAddr × FlowKey} {now : Instant} {e : CorrelationEvent K}
    (he : (submitScore threshold flow score fiedlerShift now).sent = some e) :
    e.severity = .critical ↔ 0.9 * threshold ≤ score := by
  have hthreshold : (0.0 : K) < threshold := by
    norm_num
    exact hpos
  simp only [submitScore, if_pos hthreshold, CorrelationAction.sent, Option.some.injEq] at he
  have hband : (0.9 : K) ≤ clamp (score / threshold) 0.0 1.0 ↔ 0.9 * threshold ≤ score := by
    rw [← le_div_iff₀ hpos]
    unfold clamp
    norm_num
    split_ifs with hlow hhigh
    · constructor <;> intro h <;> linarith
    · constructor <;> intro h <;> linarith
    · rfl
  rw [← hband, ← he]
  unfold spectralEvent
  dsimp only
  split
  · next hcritical => exact iff_of_true rfl hcritical
  · next hbelow =>
    refine iff_of_false ?_ hbelow
    split
    · exact nofun
    · split <;> exact nofun

namespace Correlation

/-- A run scores no flow from nine tenths of the threshold up to it if and only if no flow within
the baseline is critical in it, and none leads to a verdict. -/
theorem baselineQuiet_iff {threshold : K} (hpos : 0 < threshold) {config : CorrelationConfig}
    {outTx : Mpsc (CorrelationVerdict K)} {as : List (SpectralAction K)} {t : Correlation K}
    (hrun : Run (SpectralStep threshold) (fun _ _ => True) (start config outTx) as t) :
    BaselineQuiet threshold as t ↔
      ∀ a ∈ as, a.WithinBaseline threshold → a.BelowCritical threshold := by
  have hevent : ∀ a : SpectralAction K, a.WithinBaseline threshold →
      ((∀ e, a.sent threshold = some e → e.severity ≠ .critical) ↔ a.BelowCritical threshold) := by
    intro a ha
    match a, ha with
    | .ingest flow (.ok score) fiedlerShift now, _ =>
      show _ ↔ score < 0.9 * threshold
      rw [← not_le]
      constructor
      · intro h hle
        exact h _ rfl ((severity_submitScore_iff hpos rfl).mpr hle)
      · intro h e he hcritical
        exact h ((severity_submitScore_iff hpos he).mp hcritical)
  constructor
  · intro hquiet a ha hbaseline
    exact (hevent a hbaseline).mp (hquiet.events a ha hbaseline)
  · intro hbelow
    have hevents : ∀ a ∈ as, a.WithinBaseline threshold → ∀ e, a.sent threshold = some e →
        e.severity ≠ .critical :=
      fun a ha hbaseline => (hevent a hbaseline).mpr (hbelow a ha hbaseline)
    refine ⟨hevents, fun handled hmem emission hemission hreason hrests => ?_⟩
    obtain ⟨e, he, hcritical⟩ :=
      criticalBacked_of_run hrun handled hmem emission hemission hreason
    obtain ⟨a, ha, hbaseline, hsent⟩ := hrests e he
    exact hevents a ha hbaseline e hsent hcritical

/-- One flow, with its score, and the turn of the correlation engine that takes its event. -/
def oneFlow (score : ℚ) : List (SpectralAction ℚ) :=
  [.ingest (.v4 7, ⟨.v4 7, .v4 9, 50000, 443, .tcp⟩) (.ok score) 0 1, .other (.recv 2 none)]

/-- `baselineQuiet_iff` at a score of half of the threshold. -/
theorem baselineQuiet_half : ∃ t : Correlation ℚ,
    Run (SpectralStep 1) (fun _ _ => True) (start .default (.channel 256)) (oneFlow (1 / 2)) t ∧
      BaselineQuiet 1 (oneFlow (1 / 2)) t := by
  have hsome : ((oneFlow (1 / 2)).foldlM (nextSpectral 1)
      (start .default (.channel 256))).isSome = true := by decide +kernel
  obtain ⟨t, ht⟩ := Option.isSome_iff_exists.mp hsome
  have hrun : Run (SpectralStep (1 : ℚ)) _ _ _ t := Run.of_foldlM (fun _ _ _ h => h) ht
  refine ⟨t, hrun, (baselineQuiet_iff one_pos hrun).mpr fun a ha hbaseline => ?_⟩
  rcases List.mem_pair.mp ha with rfl | rfl
  · show (1 / 2 : ℚ) < 0.9 * 1
    norm_num
  · exact hbaseline.elim

/-- The event of a score of 0.95 of the threshold. -/
def nearThreshold : CorrelationEvent ℚ :=
  spectralEvent (.v4 7) ⟨.v4 7, .v4 9, 50000, 443, .tcp⟩ (19 / 20) 0 1

/-- The flow is within the baseline, and leads to a verdict that rests on it alone. -/
theorem not_baselineQuiet : ¬ ∀ threshold : ℚ, 0 < threshold →
    ∀ (config : CorrelationConfig) (outTx : Mpsc (CorrelationVerdict ℚ))
      (as : List (SpectralAction ℚ)) (t : Correlation ℚ),
      Run (SpectralStep threshold) (fun _ _ => True) (start config outTx) as t →
        BaselineQuiet threshold as t := by
  intro h
  have hlog : ((oneFlow (19 / 20)).foldlM (nextSpectral 1) (start .default (.channel 256))).any
      (fun t => decide (t.log = [⟨nearThreshold,
        some ⟨(HostRecord.new nearThreshold).verdict (.v4 7) .singleLaneCritical 2, true⟩⟩])) =
      true := by
    decide +kernel
  obtain ⟨t, ht, hlog⟩ := (Option.any_eq_true _ _).mp hlog
  have hquiet := h 1 one_pos _ _ _ t (Run.of_foldlM (fun _ _ _ h => h) ht)
  have hverdicts := hquiet.verdicts
  rw [of_decide_eq_true hlog] at hverdicts
  refine hverdicts _ (.head _) _ rfl rfl fun e he => ?_
  cases List.mem_singleton.mp he
  refine ⟨_, .head _, ?_, by decide +kernel⟩
  show (ingestCic (1 : ℚ) (19 / 20)).isAnomaly = false
  decide +kernel

end Correlation

end

end ActiveDefense.Siem
