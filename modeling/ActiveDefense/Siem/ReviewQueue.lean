import ActiveDefense.Lib.Run
import ActiveDefense.Rust.Float
import ActiveDefense.Siem.Ontology
import Mathlib.Data.List.Perm.Basic

/-!
# The review queue

A prediction is resolved at once or waits for a human; every decision is recorded in the audit
graph, which is what the containment executor asks. An operation runs under the queue's mutex and
keeps the queue at the point where it fails. A clock reading is an argument, and so is the order in
which a sweep comes to the items of its hash map.
-/

namespace ActiveDefense.Siem

/-- Unix seconds. -/
abbrev Timestamp := Int64

structure FlowPrediction (φ : Type) where
  flowId : Str
  predictedLabel : Str
  confidence : φ
  runnerUpLabel : Option Str
  runnerUpConfidence : Option φ
  isOutOfDistribution : Bool
  observedAt : Timestamp
deriving DecidableEq

inductive TriggerReason where
  | lowConfidenceAttack
  | narrowMargin
  | novelPattern
  | manualFlag
deriving DecidableEq

inductive Verdict where
  | executeContainment
  | dismiss
  | escalateFurther
deriving DecidableEq

/-- The `Display` of a `Verdict`. -/
def Verdict.toStr : Verdict → Str
  | executeContainment => "execute_containment".toList
  | dismiss => "dismiss".toList
  | escalateFurther => "escalate_further".toList

/-- `char::to_ascii_lowercase`. -/
def toAsciiLowercase (c : Char) : Char :=
  if 65 ≤ c.toNat ∧ c.toNat ≤ 90 then Char.ofNat (c.toNat + 32) else c

/-- `Verdict::parse`. No letter of its words is the lower case of a character outside ASCII. -/
def Verdict.parse (s : Str) : Option Verdict :=
  let word := (trim s).map toAsciiLowercase
  if word ∈ ["contain".toList, "execute_containment".toList, "containment".toList] then
    some executeContainment
  else if word ∈ ["dismiss".toList, "benign".toList] then some dismiss
  else if word ∈ ["escalate".toList, "escalate_further".toList] then some escalateFurther
  else none

/-- What is displayed parses back. -/
theorem Verdict.parse_toStr (v : Verdict) : parse v.toStr = some v := by
  cases v <;> decide

inductive Reviewer where
  | human (id : Str)
  | systemSlaTimeout
  | systemAutoResolve
deriving DecidableEq

/-- The `Display` of a `Reviewer`. -/
def Reviewer.toStr : Reviewer → Str
  | human id => "human:".toList ++ id
  | systemSlaTimeout => "system:sla_timeout".toList
  | systemAutoResolve => "system:auto_resolve".toList

structure AuditDecision where
  decisionId : Str
  flowId : Str
  reviewer : Reviewer
  verdict : Verdict
  rationale : Str
  decidedAt : Timestamp
deriving DecidableEq

inductive SlaPolicy where
  | failSafe
  | failSecure (autoContainAboveConfidence : UInt32)
deriving DecidableEq

inductive ReviewState where
  | autoResolved (decisionId : Str)
  | pending (triggerReason : TriggerReason)
  | underReview (triggerReason : TriggerReason) (reviewer : Str) (claimedAt : Timestamp)
  | resolved (decisionId : Str)
deriving DecidableEq

/-- The `Display` of a `ReviewState`. -/
def ReviewState.toStr : ReviewState → Str
  | autoResolved _ => "auto_resolved".toList
  | pending _ => "pending".toList
  | underReview .. => "under_review".toList
  | resolved _ => "resolved".toList

/-- The item waits for a decision. -/
def ReviewState.isOpen : ReviewState → Bool
  | pending _ | underReview .. => true
  | autoResolved _ | resolved _ => false

/-- The decision a state names. -/
def ReviewState.decisionId : ReviewState → Option Str
  | autoResolved id | resolved id => some id
  | pending _ | underReview .. => none

structure QueueItem (φ : Type) where
  prediction : FlowPrediction φ
  state : ReviewState
  enqueuedAt : Timestamp

structure SlaResolution (φ : Type) where
  prediction : FlowPrediction φ
  decision : AuditDecision

variable {φ : Type} [FloatArith φ]

/-! ## The trigger -/

structure TriggerConfig (φ : Type) where
  benignLabel : Str
  minAttackConfidence : φ
  minMargin : φ
  minBenignConfidence : φ

/-- `TriggerConfig::default`. -/
def TriggerConfig.default : TriggerConfig φ where
  benignLabel := "Benign".toList
  minAttackConfidence := 0.90
  minMargin := 0.15
  minBenignConfidence := 0.80

/-- `FlowPrediction::margin`. -/
def FlowPrediction.margin (pred : FlowPrediction φ) : Option φ :=
  pred.runnerUpConfidence.map fun r => pred.confidence - r

/-- `ReviewTrigger::evaluate`. -/
def ReviewTrigger.evaluate (pred : FlowPrediction φ) (cfg : TriggerConfig φ) :
    Option TriggerReason :=
  let isBenign := pred.predictedLabel = cfg.benignLabel
  if pred.isOutOfDistribution then some .novelPattern
  else if ¬ isBenign ∧ pred.confidence < cfg.minAttackConfidence then some .lowConfidenceAttack
  else if isBenign ∧ pred.confidence < cfg.minBenignConfidence then some .lowConfidenceAttack
  else if pred.margin.any fun margin => decide (margin < cfg.minMargin) then some .narrowMargin
  else none

/-! ## The audit graph -/

def flowPredictionType : Str := "FlowPrediction".toList

def auditDecisionType : Str := "AuditDecision".toList

def reviewOfLink : Str := "ReviewOf".toList

/-- `schema::register`, on an engine without types. -/
def registerSchema : Ontology Unit := do
  OntologyEngine.registerObjectType {
    name := flowPredictionType
    primaryKey := "flow_id".toList
    propertySchemas := [⟨"flow_id".toList, .string⟩, ⟨"predicted_label".toList, .string⟩,
      ⟨"confidence_millis".toList, .integer⟩, ⟨"observed_at".toList, .integer⟩].toAList }
  OntologyEngine.registerObjectType {
    name := auditDecisionType
    primaryKey := "decision_id".toList
    propertySchemas := [⟨"decision_id".toList, .string⟩, ⟨"flow_id".toList, .string⟩,
      ⟨"reviewer".toList, .string⟩, ⟨"verdict".toList, .string⟩, ⟨"rationale".toList, .string⟩,
      ⟨"decided_at".toList, .integer⟩].toAList }
  OntologyEngine.registerLinkType ⟨reviewOfLink, auditDecisionType, flowPredictionType⟩

/-- `schema::to_millis`. -/
def toMillis (confidence : φ) : Int64 :=
  FloatArith.roundI64 (clamp confidence 0.0 1.0 * 1000.0)

/-- `engine_bridge::record_prediction`. -/
def recordPrediction (pred : FlowPrediction φ) : Ontology Unit :=
  OntologyEngine.createObjectInstance {
    id := pred.flowId
    objectType := flowPredictionType
    properties := [⟨"flow_id".toList, .string pred.flowId⟩,
      ⟨"predicted_label".toList, .string pred.predictedLabel⟩,
      ⟨"confidence_millis".toList, .integer (toMillis pred.confidence)⟩,
      ⟨"observed_at".toList, .integer pred.observedAt⟩].toAList }

/-- The node of a decision in the audit graph. -/
def decisionInstance (decision : AuditDecision) : ObjectInstance where
  id := decision.decisionId
  objectType := auditDecisionType
  properties := [⟨"decision_id".toList, .string decision.decisionId⟩,
    ⟨"flow_id".toList, .string decision.flowId⟩,
    ⟨"reviewer".toList, .string decision.reviewer.toStr⟩,
    ⟨"verdict".toList, .string decision.verdict.toStr⟩,
    ⟨"rationale".toList, .string decision.rationale⟩,
    ⟨"decided_at".toList, .integer decision.decidedAt⟩].toAList

/-- `engine_bridge::record_decision`. -/
def recordDecisionNode (decision : AuditDecision) : Ontology Unit := do
  OntologyEngine.createObjectInstance (decisionInstance decision)
  OntologyEngine.createLink ⟨reviewOfLink, decision.decisionId, decision.flowId⟩

/-- A property that holds a string. -/
def ObjectInstance.getStr (inst : ObjectInstance) (key : Str) : Option Str :=
  match inst.properties.lookup key with
  | some (.string s) => some s
  | _ => none

/-- A property that holds an integer. -/
def ObjectInstance.getInt (inst : ObjectInstance) (key : Str) : Option Int64 :=
  match inst.properties.lookup key with
  | some (.integer i) => some i
  | _ => none

/-- The `reviewer` that `decision_from_instance` reads. -/
def readReviewer (raw : Str) : Reviewer :=
  match "human:".toList.isPrefixOf? raw with
  | some id => .human id
  | none => if raw = "system:sla_timeout".toList then .systemSlaTimeout else .systemAutoResolve

/-- `engine_bridge::decision_from_instance`. -/
def decisionFromInstance (inst : ObjectInstance) : Option AuditDecision := do
  let reviewerRaw ← inst.getStr "reviewer".toList
  let decisionId ← inst.getStr "decision_id".toList
  let flowId ← inst.getStr "flow_id".toList
  let verdict ← Verdict.parse (← inst.getStr "verdict".toList)
  let rationale ← inst.getStr "rationale".toList
  let decidedAt ← inst.getInt "decided_at".toList
  some ⟨decisionId, flowId, readReviewer reviewerRaw, verdict, rationale, decidedAt⟩

/-- `engine_bridge::decisions_for_flow`. -/
def decisionsForFlow (engine : OntologyEngine) (flowId : Str) : List AuditDecision :=
  (engine.traverse flowId reviewOfLink .incoming).filterMap decisionFromInstance

/-- `engine_bridge::all_decisions`. -/
def allDecisions (engine : OntologyEngine) : List AuditDecision :=
  (engine.listInstancesByType auditDecisionType).filterMap decisionFromInstance

/-- What a prediction leaves in the audit graph. -/
theorem recordPrediction_spec {pred : FlowPrediction φ} {e e' : OntologyEngine}
    (h : recordPrediction pred e = .ok () e') :
    pred.flowId ∉ e.store.instances ∧ ∃ inst, e' = { e with
      store := { e.store with instances := e.store.instances.insert pred.flowId inst } } := by
  obtain ⟨hnew, rfl⟩ := OntologyEngine.createObjectInstance_spec h
  exact ⟨hnew, _, rfl⟩

/-- What a decision leaves in the audit graph. -/
theorem recordDecisionNode_spec {decision : AuditDecision} {e e' : OntologyEngine}
    (h : recordDecisionNode decision e = .ok () e') :
    decision.decisionId ∉ e.store.instances ∧
    e'.store.instances = e.store.instances.insert decision.decisionId (decisionInstance decision) ∧
    e'.store.backwardIndex = e.store.backwardIndex.insert (decision.flowId, reviewOfLink)
      (insertSet decision.decisionId
        ((e.store.backwardIndex.lookup (decision.flowId, reviewOfLink)).getD [])) := by
  obtain ⟨_, e₁, hnode, hlink⟩ := exists_of_bind_ok h
  obtain ⟨hnew, rfl⟩ := OntologyEngine.createObjectInstance_spec hnode
  obtain ⟨store, hstore, rfl⟩ := OntologyEngine.createLink_spec hlink
  obtain ⟨hinstances, hindex⟩ := Store.insertLink_spec hstore
  exact ⟨hnew, hinstances, hindex⟩

/-- What is displayed reads back. -/
theorem readReviewer_toStr (r : Reviewer) : readReviewer r.toStr = r := by
  cases r with
  | human id => rfl
  | systemSlaTimeout => decide
  | systemAutoResolve => decide

/-- A decision is read back from its node. -/
theorem decisionFromInstance_decisionInstance (decision : AuditDecision) :
    decisionFromInstance (decisionInstance decision) = some decision := by
  have hread : decisionFromInstance (decisionInstance decision) =
      (Verdict.parse decision.verdict.toStr).bind fun verdict =>
        some ⟨decision.decisionId, decision.flowId, readReviewer decision.reviewer.toStr, verdict,
          decision.rationale, decision.decidedAt⟩ := rfl
  rw [hread, Verdict.parse_toStr, readReviewer_toStr]
  rfl

/-- Two decisions do not have one node. -/
theorem decisionInstance_injective : Function.Injective decisionInstance := by
  intro decision decision' h
  have hread := congrArg decisionFromInstance h
  rw [decisionFromInstance_decisionInstance, decisionFromInstance_decisionInstance] at hread
  exact Option.some.inj hread

/-! ## The containment executor -/

inductive ContainmentDecision where
  | approved (decisionId : Str)
  | notApproved
  | conflicting (decisionIds : List Str)
deriving DecidableEq

/-- `ContainmentExecutor::check`. -/
def ContainmentExecutor.check (engine : OntologyEngine) (flowId : Str) : ContainmentDecision :=
  let containDecisions :=
    ((decisionsForFlow engine flowId).filter fun d => decide (d.verdict = .executeContainment)).map
      (·.decisionId)
  match containDecisions with
  | [] => .notApproved
  | [decisionId] => .approved decisionId
  | _ => .conflicting containDecisions

/-! ## The queue -/

/-- The errors of the operations that are modelled. No operation on a file is. -/
inductive ReviewQueueError where
  | duplicateFlow (flowId : Str)
  | flowNotFound (flowId : Str)
  | notPending (flowId state : Str)
  | emptyRationale (flowId : Str)
  | emptyReviewer (flowId : Str)
  | ontology (error : OntologyError)
  | serde
deriving DecidableEq

inductive IngestOutcome where
  | autoResolved (verdict : Verdict) (decisionId : Str)
  | queuedForReview (reason : TriggerReason)
deriving DecidableEq

structure ReviewQueue (φ : Type) where
  engine : OntologyEngine
  items : Table Str (QueueItem φ)
  triggerCfg : TriggerConfig φ
  slaPolicy : SlaPolicy
  decisionSeq : UInt64

/-- An operation of the queue. -/
abbrev Review (φ α : Type) : Type := EStateM ReviewQueueError (ReviewQueue φ) α

/-- An operation on the queue's audit graph. -/
def onEngine {α : Type} (x : Ontology α) : Review φ α := fun q =>
  match x q.engine with
  | .ok a engine => .ok a { q with engine := engine }
  | .error e engine => .error (.ontology e) { q with engine := engine }

/-- The text of an `i64`. -/
def displayI64 (n : Int64) : Str :=
  if n < 0 then '-' :: decimal n.toInt.natAbs else decimal n.toInt.natAbs

namespace ReviewQueue

/-- `ReviewQueue::new`. -/
def new (triggerCfg : TriggerConfig φ) (slaPolicy : SlaPolicy) :
    Except ReviewQueueError (ReviewQueue φ) :=
  match registerSchema .new with
  | .ok _ engine => .ok ⟨engine, ∅, triggerCfg, slaPolicy, 0⟩
  | .error e _ => .error (.ontology e)

/-- A new queue is empty, and so is its audit graph. -/
def initial (triggerCfg : TriggerConfig φ) (slaPolicy : SlaPolicy) : ReviewQueue φ :=
  ⟨finalState (registerSchema .new), ∅, triggerCfg, slaPolicy, 0⟩

omit [FloatArith φ] in
theorem new_eq (triggerCfg : TriggerConfig φ) (slaPolicy : SlaPolicy) :
    new triggerCfg slaPolicy = .ok (initial triggerCfg slaPolicy) := rfl

/-- `next_decision_id`. -/
def nextDecisionId (flowId : Str) : Review φ Str := do
  let q ← get
  set { q with decisionSeq := q.decisionSeq + 1 }
  return "dec-".toList ++ flowId ++ '-' :: decimal q.decisionSeq.toNat

/-- The rationale of an automatic resolution. -/
def autoRationale (prediction : FlowPrediction φ) (cfg : TriggerConfig φ) : Str :=
  "auto-resolved: predicted '".toList ++ prediction.predictedLabel ++ "' at ".toList ++
    FloatArith.fixed 3 prediction.confidence ++
    " confidence cleared all review thresholds (min_attack_confidence=".toList ++
    FloatArith.fixed 2 cfg.minAttackConfidence ++ ", min_margin=".toList ++
    FloatArith.fixed 2 cfg.minMargin ++ ", min_benign_confidence=".toList ++
    FloatArith.fixed 2 cfg.minBenignConfidence ++ ")".toList

/-- The verdict of an automatic resolution. -/
def autoVerdict (prediction : FlowPrediction φ) (cfg : TriggerConfig φ) : Verdict :=
  if prediction.predictedLabel = cfg.benignLabel then .dismiss else .executeContainment

/-- `ingest`. -/
def ingest (prediction : FlowPrediction φ) (enqueuedAt : Timestamp) : Review φ IngestOutcome := do
  let q ← get
  if prediction.flowId ∈ q.items then
    throw (.duplicateFlow prediction.flowId)
  onEngine (recordPrediction prediction)
  match ReviewTrigger.evaluate prediction q.triggerCfg with
  | none =>
    let verdict := autoVerdict prediction q.triggerCfg
    let decisionId ← nextDecisionId prediction.flowId
    onEngine (recordDecisionNode ⟨decisionId, prediction.flowId, .systemAutoResolve, verdict,
      autoRationale prediction q.triggerCfg, enqueuedAt⟩)
    modify fun q => { q with
      items := q.items.insert prediction.flowId ⟨prediction, .autoResolved decisionId, enqueuedAt⟩ }
    return .autoResolved verdict decisionId
  | some reason =>
    modify fun q => { q with
      items := q.items.insert prediction.flowId ⟨prediction, .pending reason, enqueuedAt⟩ }
    return .queuedForReview reason

/-- `claim`. -/
def claim (flowId reviewer : Str) (claimedAt : Timestamp) : Review φ Unit := do
  let q ← get
  match q.items.lookup flowId with
  | none => throw (.flowNotFound flowId)
  | some item =>
    match item.state with
    | .pending reason =>
      set { q with
        items := q.items.insert flowId
          { item with state := .underReview reason reviewer claimedAt } }
    | other => throw (.notPending flowId other.toStr)

/-- What a resolution does to an item that was found open: the decision enters the audit graph, and
the item names it. -/
def resolve (flowId : Str) (item : QueueItem φ) (reviewer : Reviewer) (verdict : Verdict)
    (rationale : Str) (decidedAt : Timestamp) : Review φ AuditDecision := do
  let decisionId ← nextDecisionId flowId
  let decision : AuditDecision := ⟨decisionId, flowId, reviewer, verdict, rationale, decidedAt⟩
  onEngine (recordDecisionNode decision)
  modify fun q => { q with
    items := q.items.insert flowId { item with state := .resolved decisionId } }
  return decision

/-- `record_decision`. -/
def recordDecision (flowId reviewer : Str) (verdict : Verdict) (rationale : Str)
    (decidedAt : Timestamp) : Review φ AuditDecision := do
  if trim reviewer = [] then
    throw (.emptyReviewer flowId)
  if trim rationale = [] then
    throw (.emptyRationale flowId)
  match (← get).items.lookup flowId with
  | none => throw (.flowNotFound flowId)
  | some item =>
    if item.state.isOpen then
      resolve flowId item (.human reviewer) verdict rationale decidedAt
    else throw (.notPending flowId item.state.toStr)

/-- The flows that a sweep finds expired. The subtraction wraps, as it does in a release build. -/
def expiredFlowIds (q : ReviewQueue φ) (now slaSeconds : Timestamp) : List Str :=
  (q.items.entries.filter fun p =>
    p.2.state.isOpen && decide (p.2.enqueuedAt ≤ now - slaSeconds)).map (·.1)

/-- The verdict of a sweep on a flow, and its rationale. -/
def slaVerdict (q : ReviewQueue φ) (slaSeconds : Timestamp) (prediction : FlowPrediction φ) :
    Verdict × Str :=
  let breach := "SLA breach (".toList ++ displayI64 slaSeconds ++
    "s with no human decision); ".toList
  match q.slaPolicy with
  | .failSafe =>
    (.dismiss, breach ++ ("fail-safe policy applied: defaulting to dismiss rather than " ++
      "auto-containing. Requires urgent follow-up review -- this flow was never seen by a " ++
      "human.").toList)
  | .failSecure autoContainAboveConfidence =>
    let confidenceMillis := (toMillis prediction.confidence).toUInt64.toUInt32
    if prediction.predictedLabel ≠ q.triggerCfg.benignLabel ∧
        autoContainAboveConfidence ≤ confidenceMillis then
      (.executeContainment, breach ++ "fail-secure policy applied: confidence ".toList ++
        FloatArith.fixed 3 prediction.confidence ++ (" >= threshold, auto-containing. Requires " ++
        "follow-up review to confirm this wasn't a false positive.").toList)
    else
      (.dismiss, breach ++ ("fail-secure policy applied: confidence below auto-contain " ++
        "threshold, dismissing. Requires follow-up review.").toList)

/-- The loop of a sweep over its expired flows, each with the reading of the clock that decides
it. -/
def sweepItems (slaSeconds : Timestamp) :
    List (Str × Timestamp) → Review φ (List (SlaResolution φ))
  | [] => return []
  | (flowId, decidedAt) :: rest => do
    let q ← get
    match q.items.lookup flowId with
    -- not reached: the `unwrap` of an item whose id was taken from the items under the same lock
    | none => sweepItems slaSeconds rest
    | some item =>
      let (verdict, rationale) := slaVerdict q slaSeconds item.prediction
      let decision ← resolve flowId item .systemSlaTimeout verdict rationale decidedAt
      return ⟨item.prediction, decision⟩ :: (← sweepItems slaSeconds rest)

/-- `containment_decision`. -/
def containmentDecision (q : ReviewQueue φ) (flowId : Str) : ContainmentDecision :=
  ContainmentExecutor.check q.engine flowId

end ReviewQueue

/-! ## What an operation leaves

It fails on the audit graph, or it changes nothing, or it succeeds. -/

section
omit [FloatArith φ]

/-- The audit graph refused. -/
def ReviewQueueError.FromStore (e : ReviewQueueError) : Prop := ∃ error, e = .ontology error

theorem onEngine_ok {α : Type} {x : Ontology α} {a : α} {q q' : ReviewQueue φ}
    (h : onEngine x q = .ok a q') :
    ∃ engine, x q.engine = .ok a engine ∧ q' = { q with engine := engine } := by
  unfold onEngine at h
  split at h
  · next hx =>
    cases h
    exact ⟨_, hx, rfl⟩
  · cases h

theorem throws_onEngine {α : Type} {x : Ontology α} :
    Throws ReviewQueueError.FromStore (onEngine x : Review φ α) := by
  intro q e q' h
  unfold onEngine at h
  split at h
  · cases h
  · cases h
    exact ⟨_, rfl⟩

namespace ReviewQueue

theorem throws_nextDecisionId {flowId : Str} :
    Throws ReviewQueueError.FromStore (nextDecisionId flowId : Review φ Str) :=
  .bind .get fun _ => .bind .set fun _ => .pure

theorem resolve_spec {flowId rationale : Str} {item : QueueItem φ} {reviewer : Reviewer}
    {verdict : Verdict} {decidedAt : Timestamp} {decision : AuditDecision} {q q' : ReviewQueue φ}
    (h : resolve flowId item reviewer verdict rationale decidedAt q = .ok decision q') :
    ∃ id engine, decision = ⟨id, flowId, reviewer, verdict, rationale, decidedAt⟩ ∧
      recordDecisionNode decision q.engine = .ok () engine ∧
      q' = { q with
        engine := engine
        items := q.items.insert flowId { item with state := .resolved id }
        decisionSeq := q.decisionSeq + 1 } := by
  unfold resolve at h
  obtain ⟨id, q₁, hid, h⟩ := exists_of_bind_ok h
  cases hid
  obtain ⟨_, q₂, hrun, h⟩ := exists_of_bind_ok h
  obtain ⟨engine, hnode, rfl⟩ := onEngine_ok hrun
  cases h
  exact ⟨_, engine, rfl, hnode, rfl⟩

theorem throws_resolve {flowId rationale : Str} {item : QueueItem φ} {reviewer : Reviewer}
    {verdict : Verdict} {decidedAt : Timestamp} :
    Throws ReviewQueueError.FromStore
      (resolve flowId item reviewer verdict rationale decidedAt) :=
  .bind throws_nextDecisionId fun _ => .bind throws_onEngine fun _ => .bind .modify fun _ => .pure

theorem claim_spec {flowId reviewer : Str} {claimedAt : Timestamp} {q q' : ReviewQueue φ}
    (h : claim flowId reviewer claimedAt q = .ok () q') :
    ∃ item reason, q.items.lookup flowId = some item ∧ item.state = .pending reason ∧
      q' = { q with
        items := q.items.insert flowId
          { item with state := .underReview reason reviewer claimedAt } } := by
  unfold claim at h
  simp only [get_bind_run] at h
  cases hitem : q.items.lookup flowId with
  | none =>
    rw [hitem] at h
    cases h
  | some item =>
    rw [hitem] at h
    obtain ⟨prediction, state, enqueuedAt⟩ := item
    cases state with
    | pending reason =>
      cases h
      exact ⟨_, reason, rfl, rfl, rfl⟩
    | _ => cases h

theorem claim_error {flowId reviewer : Str} {claimedAt : Timestamp} {e : ReviewQueueError}
    {q q' : ReviewQueue φ} (h : claim flowId reviewer claimedAt q = .error e q') : q' = q := by
  have hatomic : Atomic (claim flowId reviewer claimedAt : Review φ Unit) := by
    refine .get fun q => ?_
    split
    · exact .throw
    · split
      · exact .set
      · exact .throw
  exact hatomic q e q' h

theorem recordDecision_spec {flowId reviewer rationale : Str} {verdict : Verdict}
    {decidedAt : Timestamp} {decision : AuditDecision} {q q' : ReviewQueue φ}
    (h : recordDecision flowId reviewer verdict rationale decidedAt q = .ok decision q') :
    ∃ item, q.items.lookup flowId = some item ∧ item.state.isOpen = true ∧
      resolve flowId item (.human reviewer) verdict rationale decidedAt q = .ok decision q' := by
  unfold recordDecision at h
  replace h := (of_guard_ok (of_guard_ok h).2).2
  simp only [get_bind_run] at h
  cases hitem : q.items.lookup flowId with
  | none =>
    rw [hitem] at h
    cases h
  | some item =>
    simp only [hitem] at h
    cases hopen : item.state.isOpen with
    | false =>
      rw [hopen] at h
      cases h
    | true =>
      rw [hopen] at h
      exact ⟨item, rfl, hopen, h⟩

theorem recordDecision_error {flowId reviewer rationale : Str} {verdict : Verdict}
    {decidedAt : Timestamp} {e : ReviewQueueError} {q q' : ReviewQueue φ}
    (h : recordDecision flowId reviewer verdict rationale decidedAt q = .error e q') :
    e.FromStore ∨ q' = q := by
  unfold recordDecision at h
  split at h
  · cases h
    exact .inr rfl
  split at h
  · cases h
    exact .inr rfl
  simp only [get_bind_run] at h
  cases hitem : q.items.lookup flowId with
  | none =>
    rw [hitem] at h
    cases h
    exact .inr rfl
  | some item =>
    simp only [hitem] at h
    split at h
    · exact .inl (throws_resolve _ _ _ h)
    · cases h
      exact .inr rfl

end ReviewQueue

end

namespace ReviewQueue

theorem ingest_spec {prediction : FlowPrediction φ} {enqueuedAt : Timestamp}
    {outcome : IngestOutcome} {q q' : ReviewQueue φ}
    (h : ingest prediction enqueuedAt q = .ok outcome q') :
    prediction.flowId ∉ q.items ∧ ∃ engine,
      recordPrediction prediction q.engine = .ok () engine ∧
      match ReviewTrigger.evaluate prediction q.triggerCfg with
      | none => ∃ decision engine', recordDecisionNode decision engine = .ok () engine' ∧
          decision.flowId = prediction.flowId ∧
          decision.verdict = autoVerdict prediction q.triggerCfg ∧
          outcome = .autoResolved decision.verdict decision.decisionId ∧
          q' = { q with
            engine := engine'
            items := q.items.insert prediction.flowId
              ⟨prediction, .autoResolved decision.decisionId, enqueuedAt⟩
            decisionSeq := q.decisionSeq + 1 }
      | some reason => outcome = .queuedForReview reason ∧
          q' = { q with
            engine := engine
            items := q.items.insert prediction.flowId
              ⟨prediction, .pending reason, enqueuedAt⟩ } := by
  unfold ingest at h
  simp only [get_bind_run] at h
  obtain ⟨hnew, h⟩ := of_guard_ok h
  refine ⟨hnew, ?_⟩
  obtain ⟨_, q₁, hrun, h⟩ := exists_of_bind_ok h
  obtain ⟨engine, hpred, rfl⟩ := onEngine_ok hrun
  refine ⟨engine, hpred, ?_⟩
  cases htrigger : ReviewTrigger.evaluate prediction q.triggerCfg with
  | none =>
    rw [htrigger] at h
    obtain ⟨id, q₂, hid, h⟩ := exists_of_bind_ok h
    cases hid
    obtain ⟨_, q₃, hrun, h⟩ := exists_of_bind_ok h
    obtain ⟨engine', hnode, rfl⟩ := onEngine_ok hrun
    cases h
    exact ⟨_, engine', hnode, rfl, rfl, rfl, rfl⟩
  | some reason =>
    rw [htrigger] at h
    cases h
    exact ⟨rfl, rfl⟩

theorem ingest_error {prediction : FlowPrediction φ} {enqueuedAt : Timestamp}
    {e : ReviewQueueError} {q q' : ReviewQueue φ}
    (h : ingest prediction enqueuedAt q = .error e q') : e.FromStore ∨ q' = q := by
  unfold ingest at h
  simp only [get_bind_run] at h
  split at h
  · cases h
    exact .inr rfl
  · refine .inl (Throws.bind throws_onEngine (fun _ => ?_) _ _ _ h)
    split
    · exact .bind throws_nextDecisionId fun _ => .bind throws_onEngine fun _ =>
        .bind .modify fun _ => .pure
    · exact .bind .modify fun _ => .pure

theorem throws_sweepItems (slaSeconds : Timestamp) (order : List (Str × Timestamp)) :
    Throws ReviewQueueError.FromStore (sweepItems (φ := φ) slaSeconds order) := by
  induction order with
  | nil => exact .pure
  | cons entry rest ih =>
    refine .bind .get fun q => ?_
    split
    · exact ih
    · exact .bind throws_resolve fun _ => .bind ih fun _ => .pure

end ReviewQueue

/-! ## Runs -/

/-- One operation with what the environment chooses for it: the readings of the clock, and the
order in which a sweep comes to the expired flows. -/
inductive ReviewAction (φ : Type) where
  | ingest (prediction : FlowPrediction φ) (enqueuedAt : Timestamp)
  | claim (flowId reviewer : Str) (claimedAt : Timestamp)
  | recordDecision (flowId reviewer : Str) (verdict : Verdict) (rationale : Str)
      (decidedAt : Timestamp)
  | sweepExpired (now slaSeconds : Timestamp) (order : List (Str × Timestamp))

namespace ReviewAction

/-- The operation, without its result. -/
def exec : ReviewAction φ → Review φ Unit
  | ingest prediction enqueuedAt => discard (ReviewQueue.ingest prediction enqueuedAt)
  | claim flowId reviewer claimedAt => ReviewQueue.claim flowId reviewer claimedAt
  | recordDecision flowId reviewer verdict rationale decidedAt =>
    discard (ReviewQueue.recordDecision flowId reviewer verdict rationale decidedAt)
  | sweepExpired _ slaSeconds order => discard (ReviewQueue.sweepItems slaSeconds order)

/-- An operation fails on the audit graph, or it changes nothing. -/
theorem exec_error {a : ReviewAction φ} {e : ReviewQueueError} {q q' : ReviewQueue φ}
    (h : a.exec q = .error e q') : e.FromStore ∨ q' = q := by
  cases a with
  | ingest => exact ReviewQueue.ingest_error (error_of_discard h)
  | claim => exact .inr (ReviewQueue.claim_error h)
  | recordDecision => exact ReviewQueue.recordDecision_error (error_of_discard h)
  | sweepExpired => exact .inl (ReviewQueue.throws_sweepItems _ _ _ _ _ (error_of_discard h))

/-- A sweep comes to each flow that it finds expired, and to each of them once. -/
def Allowed (q : ReviewQueue φ) : ReviewAction φ → Prop
  | sweepExpired now slaSeconds order =>
    (order.map Prod.fst).Perm (q.expiredFlowIds now slaSeconds)
  | _ => True

instance (q : ReviewQueue φ) (a : ReviewAction φ) : Decidable (a.Allowed q) := by
  unfold Allowed
  split <;> infer_instance

end ReviewAction

namespace ReviewQueue

/-- An operation leaves the state that it ends in, whether it succeeds or fails. -/
def Step (q : ReviewQueue φ) (a : ReviewAction φ) (q' : ReviewQueue φ) : Prop :=
  a.Allowed q ∧ q' = finalState (a.exec q)

/-- The audit graph does not refuse what the operation writes to it. -/
def NoStoreError (q : ReviewQueue φ) (a : ReviewAction φ) : Prop :=
  match a.exec q with
  | .error (.ontology _) _ => False
  | _ => True

/-- An operation that is allowed and that the audit graph does not refuse, carried out. -/
def next (q : ReviewQueue φ) (a : ReviewAction φ) : Option (ReviewQueue φ) :=
  if a.Allowed q then
    match a.exec q with
    | .error (.ontology _) _ => none
    | result => some (finalState result)
  else none

theorem next_spec {q q' : ReviewQueue φ} {a : ReviewAction φ} (h : next q a = some q') :
    NoStoreError q a ∧ Step q a q' := by
  unfold next at h
  split_ifs at h with hallowed
  unfold NoStoreError Step
  cases hrun : a.exec q with
  | ok _ t =>
    rw [hrun] at h
    cases h
    exact ⟨trivial, hallowed, rfl⟩
  | error e t =>
    rw [hrun] at h
    cases e with
    | ontology error => cases h
    | _ =>
      cases h
      exact ⟨trivial, hallowed, rfl⟩

end ReviewQueue

end ActiveDefense.Siem
