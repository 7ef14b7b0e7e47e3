import ActiveDefense.Siem.ReviewQueue

/-!
# What an automatic containment was tested for

The trigger sends to a human what fails one of its tests, and a test fails only where a comparison
holds. A comparison with a NaN never holds, so a prediction goes through that is not known to meet
the thresholds.
-/

namespace ActiveDefense.Siem

section
variable {φ : Type} [FloatArith φ]

/-- What the trigger lets through that is not benign. -/
theorem evaluate_eq_none_iff {pred : FlowPrediction φ} {cfg : TriggerConfig φ}
    (hlabel : pred.predictedLabel ≠ cfg.benignLabel) :
    ReviewTrigger.evaluate pred cfg = none ↔ pred.isOutOfDistribution = false ∧
      ¬ pred.confidence < cfg.minAttackConfidence ∧
        ∀ margin ∈ pred.margin, ¬ margin < cfg.minMargin := by
  have hmargin : (pred.margin.any fun margin => decide (margin < cfg.minMargin)) = false ↔
      ∀ margin ∈ pred.margin, ¬ margin < cfg.minMargin := by
    cases pred.margin <;> simp
  rw [← hmargin]
  unfold ReviewTrigger.evaluate
  cases pred.isOutOfDistribution with
  | true => simp
  | false =>
    simp only [hlabel, Bool.false_eq_true, if_false, not_false_eq_true, true_and, false_and]
    split_ifs with hconfidence hnarrow
    · simp [hconfidence]
    · simp [hnarrow]
    · simp [hconfidence, hnarrow]

namespace ReviewQueue

/-- The containment is decided when the prediction comes in, and no human is asked. -/
def AutoContained (outcome : IngestOutcome) : Prop :=
  ∃ decisionId, outcome = .autoResolved .executeContainment decisionId

/-- Contained at once is what is not benign and sets off no test. -/
theorem autoContained_iff {pred : FlowPrediction φ} {enqueuedAt : Timestamp}
    {outcome : IngestOutcome} {q q' : ReviewQueue φ}
    (h : ingest pred enqueuedAt q = .ok outcome q') :
    AutoContained outcome ↔ pred.predictedLabel ≠ q.triggerCfg.benignLabel ∧
      ReviewTrigger.evaluate pred q.triggerCfg = none := by
  obtain ⟨-, engine, -, hspec⟩ := ingest_spec h
  cases htrigger : ReviewTrigger.evaluate pred q.triggerCfg with
  | some reason =>
    rw [htrigger] at hspec
    rw [hspec.1]
    simp [AutoContained]
  | none =>
    rw [htrigger] at hspec
    obtain ⟨decision, engine', -, -, hverdict, rfl, -⟩ := hspec
    rw [hverdict]
    unfold autoVerdict
    split <;> simp [AutoContained, *]

end ReviewQueue
end

/-! ## Over `f64` -/

/-- Where `a` is not below `b`, it is at least `b` unless one of them is a NaN. -/
theorem float_le_iff_of_not_lt {a b : Float} (h : ¬ a < b) :
    b ≤ a ↔ a.isNaN = false ∧ b.isNaN = false := by
  refine ⟨fun hle => ?_, fun ⟨ha, hb⟩ => float_le_of_not_lt ha hb h⟩
  rw [← Bool.not_eq_true, ← Bool.not_eq_true, ← not_or]
  exact fun hnan => float_not_le_of_isNaN hnan.symm hle

/-- The prediction meets the thresholds for an attack. A prediction without a runner-up has a wide
margin. -/
structure FlowPrediction.Clears (pred : FlowPrediction Float) (cfg : TriggerConfig Float) :
    Prop where
  inDistribution : pred.isOutOfDistribution = false
  confident : cfg.minAttackConfidence ≤ pred.confidence
  wide : ∀ margin ∈ pred.margin, cfg.minMargin ≤ margin

/-- The numbers that the trigger compares, where it compares them for an attack, are none of them a
NaN. -/
structure FlowPrediction.Ordered (pred : FlowPrediction Float) (cfg : TriggerConfig Float) :
    Prop where
  confidence : pred.confidence.isNaN = false ∧ cfg.minAttackConfidence.isNaN = false
  margin : ∀ margin ∈ pred.margin, margin.isNaN = false ∧ cfg.minMargin.isNaN = false

/-- One of the trigger's reasons not to contain holds of a prediction. -/
def FlowPrediction.HeldBack (pred : FlowPrediction Float) (cfg : TriggerConfig Float) : Prop :=
  pred.predictedLabel = cfg.benignLabel ∨ pred.isOutOfDistribution = true ∨
    pred.confidence < cfg.minAttackConfidence ∨ ∃ margin ∈ pred.margin, margin < cfg.minMargin

/-- What passes the tests meets the thresholds if and only if there is no NaN among the numbers that
were compared. -/
theorem FlowPrediction.clears_iff_ordered {pred : FlowPrediction Float}
    {cfg : TriggerConfig Float} (hlabel : pred.predictedLabel ≠ cfg.benignLabel)
    (h : ReviewTrigger.evaluate pred cfg = none) : pred.Clears cfg ↔ pred.Ordered cfg := by
  obtain ⟨hood, hconfidence, hmargin⟩ := (evaluate_eq_none_iff hlabel).mp h
  constructor
  · intro hclears
    refine ⟨(float_le_iff_of_not_lt hconfidence).mp hclears.confident, fun margin hm => ?_⟩
    exact (float_le_iff_of_not_lt (hmargin margin hm)).mp (hclears.wide margin hm)
  · intro hordered
    refine ⟨hood, (float_le_iff_of_not_lt hconfidence).mpr hordered.confidence, fun margin hm => ?_⟩
    exact (float_le_iff_of_not_lt (hmargin margin hm)).mpr (hordered.margin margin hm)

/-- What the trigger's tests catch is held back, and nothing else is. -/
theorem FlowPrediction.heldBack_iff {pred : FlowPrediction Float} {cfg : TriggerConfig Float} :
    pred.HeldBack cfg ↔ ¬ (pred.predictedLabel ≠ cfg.benignLabel ∧
      ReviewTrigger.evaluate pred cfg = none) := by
  rcases eq_or_ne pred.predictedLabel cfg.benignLabel with hlabel | hlabel
  · simp [HeldBack, hlabel]
  · simp only [evaluate_eq_none_iff hlabel, HeldBack, hlabel, false_or, ne_eq, not_false_eq_true,
      true_and, not_and_or, not_not, not_forall, Bool.not_eq_false, exists_prop]

namespace ReviewQueue

/-- What is contained at once meets the thresholds, if and only if the trigger has a reason to hold
it back or there is no NaN among the numbers that the trigger compares. -/
theorem autoContained_clears_iff {pred : FlowPrediction Float} {enqueuedAt : Timestamp}
    {outcome : IngestOutcome} {q q' : ReviewQueue Float}
    (h : ingest pred enqueuedAt q = .ok outcome q') :
    (AutoContained outcome → pred.Clears q.triggerCfg) ↔
      pred.HeldBack q.triggerCfg ∨ pred.Ordered q.triggerCfg := by
  rw [autoContained_iff h, FlowPrediction.heldBack_iff, ← imp_iff_not_or]
  exact forall_congr' fun hpassed => FlowPrediction.clears_iff_ordered hpassed.1 hpassed.2

/-- A prediction of an attack, without a runner-up. -/
def attack (confidence : Float) : FlowPrediction Float :=
  ⟨"flow-1".toList, "DenialOfService".toList, confidence, none, none, false, 1700000000⟩

/-- A confident attack is contained at once, and meets the thresholds. -/
theorem autoContained_clears_iff_confident : ∃ q',
    ingest (attack 0.97) 1700000001 (initial .default .failSafe) =
      .ok (.autoResolved .executeContainment "dec-flow-1-0".toList) q' ∧
    (attack 0.97).Clears .default := by
  obtain ⟨q', hrun⟩ : ∃ q', ingest (attack 0.97) 1700000001 (initial .default .failSafe) =
      .ok (.autoResolved .executeContainment "dec-flow-1-0".toList) q' :=
    exists_of_result (by decide +kernel)
  refine ⟨q', hrun, (autoContained_clears_iff hrun).mpr (.inr ⟨by decide, ?_⟩) ⟨_, rfl⟩⟩
  rintro margin ⟨⟩

/-- An attack with a confidence that is not a number is contained at once. -/
theorem not_autoContained_clears : ¬ ∀ (pred : FlowPrediction Float) (enqueuedAt : Timestamp)
    (outcome : IngestOutcome) (q q' : ReviewQueue Float),
    ingest pred enqueuedAt q = .ok outcome q' → AutoContained outcome →
      pred.Clears q.triggerCfg := by
  intro hclaim
  obtain ⟨q', hrun⟩ : ∃ q', ingest (attack (0.0 / 0.0)) 1700000001 (initial .default .failSafe) =
      .ok (.autoResolved .executeContainment "dec-flow-1-0".toList) q' :=
    exists_of_result (by decide)
  have hconfident := (hclaim _ _ _ _ _ hrun ⟨_, rfl⟩).confident
  exact absurd hconfident (by decide)

end ReviewQueue

end ActiveDefense.Siem
