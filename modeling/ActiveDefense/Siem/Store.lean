import ActiveDefense.Rust.Serde
import ActiveDefense.Siem.ReviewQueue
import Mathlib.Data.List.Sort

/-!
# The queue on disk

`save` writes the items, the decisions in the audit graph, the counter and the configuration;
`load_or_new` reads them and replays the predictions and then the decisions into a new graph. The
file is replaced by a rename, so that it holds one document or another; here it is the text that it
holds, if it is there.
-/

namespace ActiveDefense.Siem

open JsonValue

/-! ## Records -/

def TriggerReason.name : TriggerReason → String
  | lowConfidenceAttack => "LowConfidenceAttack"
  | narrowMargin => "NarrowMargin"
  | novelPattern => "NovelPattern"
  | manualFlag => "ManualFlag"

def TriggerReason.read (v : JsonValue) : Option TriggerReason :=
  match v.variant with
  | some (name, .null) =>
    [lowConfidenceAttack, narrowMargin, novelPattern, manualFlag].find? fun r => r.name = name
  | _ => none

def Verdict.name : Verdict → String
  | executeContainment => "ExecuteContainment"
  | dismiss => "Dismiss"
  | escalateFurther => "EscalateFurther"

def Verdict.read (v : JsonValue) : Option Verdict :=
  match v.variant with
  | some (name, .null) =>
    [executeContainment, dismiss, escalateFurther].find? fun v => v.name = name
  | _ => none

def Reviewer.write : Reviewer → JsonValue
  | human id => .object [("Human", ofStr id)]
  | systemSlaTimeout => .string "SystemSlaTimeout"
  | systemAutoResolve => .string "SystemAutoResolve"

def Reviewer.read (v : JsonValue) : Option Reviewer :=
  match v.variant with
  | some (name, body) =>
    if name = "Human" then body.readString.map human
    else match body with
      | .null =>
        if name = "SystemSlaTimeout" then some systemSlaTimeout
        else if name = "SystemAutoResolve" then some systemAutoResolve
        else none
      | _ => none
  | none => none

def SlaPolicy.write : SlaPolicy → JsonValue
  | failSafe => .string "FailSafe"
  | failSecure above => .object [("FailSecure",
      .object [("auto_contain_above_confidence", ofU32 above)])]

def SlaPolicy.read (v : JsonValue) : Option SlaPolicy :=
  match v.variant with
  | some (name, body) =>
    if name = "FailSecure" then
      ((body.field "auto_contain_above_confidence").bind readU32).map failSecure
    else match body with
      | .null => if name = "FailSafe" then some failSafe else none
      | _ => none
  | none => none

def ReviewState.write : ReviewState → JsonValue
  | autoResolved decisionId => .object [("AutoResolved",
      .object [("decision_id", ofStr decisionId)])]
  | pending triggerReason => .object [("Pending",
      .object [("trigger_reason", .string triggerReason.name)])]
  | underReview triggerReason reviewer claimedAt => .object [("UnderReview",
      .object [("trigger_reason", .string triggerReason.name),
        ("reviewer", ofStr reviewer), ("claimed_at", ofI64 claimedAt)])]
  | resolved decisionId => .object [("Resolved",
      .object [("decision_id", ofStr decisionId)])]

def ReviewState.read (v : JsonValue) : Option ReviewState := do
  let (name, body) ← v.variant
  if name = "AutoResolved" then
    return autoResolved (← (← body.field "decision_id").readString)
  else if name = "Pending" then
    return pending (← TriggerReason.read (← body.field "trigger_reason"))
  else if name = "UnderReview" then
    return underReview (← TriggerReason.read (← body.field "trigger_reason"))
      (← (← body.field "reviewer").readString) (← (← body.field "claimed_at").readI64)
  else if name = "Resolved" then
    return resolved (← (← body.field "decision_id").readString)
  else none

def FlowPrediction.write (pred : FlowPrediction Float) : JsonValue :=
  .object [("flow_id", ofStr pred.flowId),
    ("predicted_label", ofStr pred.predictedLabel),
    ("confidence", ofF64 pred.confidence),
    ("runner_up_label", ofOption ofStr pred.runnerUpLabel),
    ("runner_up_confidence", ofOption ofF64 pred.runnerUpConfidence),
    ("is_out_of_distribution", .bool pred.isOutOfDistribution),
    ("observed_at", ofI64 pred.observedAt)]

def FlowPrediction.read (v : JsonValue) : Option (FlowPrediction Float) := do
  return {
    flowId := ← (← v.field "flow_id").readString
    predictedLabel := ← (← v.field "predicted_label").readString
    confidence := ← (← v.field "confidence").readF64
    runnerUpLabel := ← readOptional readString "runner_up_label" v
    runnerUpConfidence := ← readOptional readF64 "runner_up_confidence" v
    isOutOfDistribution := ← (← v.field "is_out_of_distribution").readBool
    observedAt := ← (← v.field "observed_at").readI64 }

def QueueItem.write (item : QueueItem Float) : JsonValue :=
  .object [("prediction", item.prediction.write), ("state", item.state.write),
    ("enqueued_at", ofI64 item.enqueuedAt)]

def QueueItem.read (v : JsonValue) : Option (QueueItem Float) := do
  return {
    prediction := ← FlowPrediction.read (← v.field "prediction")
    state := ← ReviewState.read (← v.field "state")
    enqueuedAt := ← (← v.field "enqueued_at").readI64 }

def AuditDecision.write (decision : AuditDecision) : JsonValue :=
  .object [("decision_id", ofStr decision.decisionId),
    ("flow_id", ofStr decision.flowId), ("reviewer", decision.reviewer.write),
    ("verdict", .string decision.verdict.name),
    ("rationale", ofStr decision.rationale),
    ("decided_at", ofI64 decision.decidedAt)]

def AuditDecision.read (v : JsonValue) : Option AuditDecision := do
  return {
    decisionId := ← (← v.field "decision_id").readString
    flowId := ← (← v.field "flow_id").readString
    reviewer := ← Reviewer.read (← v.field "reviewer")
    verdict := ← Verdict.read (← v.field "verdict")
    rationale := ← (← v.field "rationale").readString
    decidedAt := ← (← v.field "decided_at").readI64 }

def TriggerConfig.write (cfg : TriggerConfig Float) : JsonValue :=
  .object [("benign_label", ofStr cfg.benignLabel),
    ("min_attack_confidence", ofF64 cfg.minAttackConfidence),
    ("min_margin", ofF64 cfg.minMargin),
    ("min_benign_confidence", ofF64 cfg.minBenignConfidence)]

def TriggerConfig.read (v : JsonValue) : Option (TriggerConfig Float) := do
  return {
    benignLabel := ← (← v.field "benign_label").readString
    minAttackConfidence := ← (← v.field "min_attack_confidence").readF64
    minMargin := ← (← v.field "min_margin").readF64
    minBenignConfidence := ← (← v.field "min_benign_confidence").readF64 }

/-- The numbers of a prediction are finite. -/
structure FlowPrediction.Finite (pred : FlowPrediction Float) : Prop where
  confidence : pred.confidence.isFinite = true
  runnerUpConfidence : ∀ r ∈ pred.runnerUpConfidence, r.isFinite = true

/-- The thresholds are finite. -/
structure TriggerConfig.Finite (cfg : TriggerConfig Float) : Prop where
  minAttackConfidence : cfg.minAttackConfidence.isFinite = true
  minMargin : cfg.minMargin.isFinite = true
  minBenignConfidence : cfg.minBenignConfidence.isFinite = true

/-! ## Records read back -/

theorem TriggerReason.read_name (r : TriggerReason) : read (.string r.name) = some r := by
  cases r <;> simp [read, variant, name]

theorem Verdict.read_name (v : Verdict) : read (.string v.name) = some v := by
  cases v <;> simp [read, variant, name]

theorem Reviewer.read_write (r : Reviewer) : read r.write = some r := by
  cases r <;> simp [read, write, variant, readString_ofStr]

theorem SlaPolicy.read_write (p : SlaPolicy) : read p.write = some p := by
  cases p with
  | failSafe => simp [read, write, variant]
  | failSecure above =>
    rw [read, write, variant]
    simp only [if_true]
    rw [field_single, Option.bind_some, readU32_ofU32, Option.map_some]

theorem ReviewState.read_write (s : ReviewState) : read s.write = some s := by
  cases s <;> simp [read, write, variant, field, named, TriggerReason.read_name,
    readString_ofStr, readI64_ofI64]

theorem FlowPrediction.read_write {pred : FlowPrediction Float} (h : pred.Finite) :
    read pred.write = some pred := by
  have hlabelField : pred.write.named "runner_up_label" = [ofOption ofStr pred.runnerUpLabel] := by
    simp [write, named]
  have hlabel := readOptional_ofOption hlabelField fun s _ =>
    ⟨fun h => JsonValue.noConfusion h, readString_ofStr s⟩
  have hrunnerUpField : pred.write.named "runner_up_confidence" =
      [ofOption ofF64 pred.runnerUpConfidence] := by
    simp [write, named]
  have hrunnerUp : readOptional readF64 "runner_up_confidence" pred.write =
      some pred.runnerUpConfidence := by
    refine readOptional_ofOption hrunnerUpField fun r hr => ⟨?_, ?_⟩
    · rw [ofF64, if_pos (h.runnerUpConfidence r hr)]
      exact fun h => JsonValue.noConfusion h
    · exact readF64_ofF64 (h.runnerUpConfidence r hr)
  have hconfidence := readF64_ofF64 h.confidence
  unfold read
  rw [hlabel, hrunnerUp]
  simp [write, field, named, readString_ofStr, hconfidence, readBool, readI64_ofI64]

theorem QueueItem.read_write {item : QueueItem Float} (h : item.prediction.Finite) :
    read item.write = some item := by
  simp [read, write, field, named, FlowPrediction.read_write h, ReviewState.read_write,
    readI64_ofI64]

theorem AuditDecision.read_write (decision : AuditDecision) :
    read decision.write = some decision := by
  simp [read, write, field, named, readString_ofStr, Reviewer.read_write, Verdict.read_name,
    readI64_ofI64]

theorem TriggerConfig.read_write {cfg : TriggerConfig Float} (h : cfg.Finite) :
    read cfg.write = some cfg := by
  simp [read, write, field, named, readString_ofStr, readF64_ofF64 h.minAttackConfidence,
    readF64_ofF64 h.minMargin, readF64_ofF64 h.minBenignConfidence]

/-! ## The document -/

structure PersistedState where
  formatVersion : UInt32
  items : Table Str (QueueItem Float)
  decisions : Table Str AuditDecision
  nextDecisionSeq : UInt64
  triggerCfg : TriggerConfig Float
  slaPolicy : SlaPolicy

def PersistedState.write (p : PersistedState) : JsonValue :=
  .object [("format_version", ofU32 p.formatVersion), ("items", ofMap QueueItem.write p.items),
    ("decisions", ofMap AuditDecision.write p.decisions),
    ("next_decision_seq", ofU64 p.nextDecisionSeq), ("trigger_cfg", p.triggerCfg.write),
    ("sla_policy", p.slaPolicy.write)]

def PersistedState.read (v : JsonValue) : Option PersistedState := do
  return {
    formatVersion := ← (← v.field "format_version").readU32
    items := ← readMap QueueItem.read (← v.field "items")
    decisions := ← readMap AuditDecision.read (← v.field "decisions")
    nextDecisionSeq := ← (← v.field "next_decision_seq").readU64
    triggerCfg := ← TriggerConfig.read (← v.field "trigger_cfg")
    slaPolicy := ← SlaPolicy.read (← v.field "sla_policy") }

/-- The same state, with its maps in whatever order. -/
structure PersistedState.Same (p p' : PersistedState) : Prop where
  formatVersion : p'.formatVersion = p.formatVersion
  items : ∀ flowId, p'.items.lookup flowId = p.items.lookup flowId
  decisions : ∀ id, p'.decisions.lookup id = p.decisions.lookup id
  nextDecisionSeq : p'.nextDecisionSeq = p.nextDecisionSeq
  triggerCfg : p'.triggerCfg = p.triggerCfg
  slaPolicy : p'.slaPolicy = p.slaPolicy

/-- A state reads back whose predictions are finite and whose configuration reads back. -/
theorem PersistedState.read_write {p : PersistedState}
    (hfinite : ∀ flowId item, p.items.lookup flowId = some item → item.prediction.Finite)
    (hcfg : TriggerConfig.read p.triggerCfg.write = some p.triggerCfg) :
    ∃ p', read p.write = some p' ∧ p.Same p' := by
  obtain ⟨items, hitems, hitemsSame⟩ := readMap_ofMap QueueItem.read QueueItem.write
    fun flowId item hitem => QueueItem.read_write (hfinite flowId item hitem)
  obtain ⟨decisions, hdecisions, hdecisionsSame⟩ :=
    readMap_ofMap AuditDecision.read AuditDecision.write (t := p.decisions)
      fun _ decision _ => decision.read_write
  refine ⟨⟨p.formatVersion, items, decisions, p.nextDecisionSeq, p.triggerCfg, p.slaPolicy⟩, ?_,
    ⟨rfl, hitemsSame, hdecisionsSame, rfl, rfl, rfl⟩⟩
  simp [read, write, field, named, readU32_ofU32, hitems, hdecisions, readU64_ofU64, hcfg,
    SlaPolicy.read_write]

/-! ## Saving and loading -/

namespace ReviewQueue

/-- `snapshot_decisions`. -/
def snapshotDecisions {φ : Type} (q : ReviewQueue φ) : Table Str AuditDecision :=
  (allDecisions q.engine).foldl (fun t d => t.insert d.decisionId d) ∅

/-- What `save` writes, where nothing happens to the queue in between. -/
def persisted (q : ReviewQueue Float) : PersistedState where
  formatVersion := 1
  items := q.items
  decisions := q.snapshotDecisions
  nextDecisionSeq := q.decisionSeq
  triggerCfg := q.triggerCfg
  slaPolicy := q.slaPolicy

section
variable {φ : Type} [FloatArith φ]

/-- The replay of `rehydrate`: the predictions in the order in which they came in, and then the
decisions in the order in which they were made. Both orders are stable. -/
def replay (items : Table Str (QueueItem φ)) (decisions : Table Str AuditDecision) :
    Ontology Unit := do
  registerSchema
  ((items.entries.map (·.2)).insertionSort fun a b => a.enqueuedAt ≤ b.enqueuedAt).forM fun item =>
    recordPrediction item.prediction
  ((decisions.entries.map (·.2)).insertionSort fun a b => a.decidedAt ≤ b.decidedAt).forM
    recordDecisionNode

/-- `rehydrate`. -/
def rehydrate (triggerCfg : TriggerConfig φ) (slaPolicy : SlaPolicy)
    (items : Table Str (QueueItem φ)) (decisions : Table Str AuditDecision)
    (nextDecisionSeq : UInt64) : Except ReviewQueueError (ReviewQueue φ) :=
  match replay items decisions .new with
  | .ok _ engine => .ok ⟨engine, items, triggerCfg, slaPolicy, nextDecisionSeq⟩
  | .error e _ => .error (.ontology e)

end

/-- The text that `save` writes, where nothing happens to the queue in between. -/
def save (float : Float → Str) (q : ReviewQueue Float) : Str :=
  toStringPretty float 0 q.persisted.write

/-- `load_or_new`, of the text in the file, if there is one. -/
def loadOrNew (fromStr : Str → Option JsonValue) (raw : Option Str)
    (defaultTriggerCfg : TriggerConfig Float) (defaultSlaPolicy : SlaPolicy) :
    Except ReviewQueueError (ReviewQueue Float) :=
  match raw with
  | none => new defaultTriggerCfg defaultSlaPolicy
  | some raw =>
    match (fromStr raw).bind PersistedState.read with
    | none => .error .serde
    | some p => rehydrate p.triggerCfg p.slaPolicy p.items p.decisions p.nextDecisionSeq

end ReviewQueue

end ActiveDefense.Siem
