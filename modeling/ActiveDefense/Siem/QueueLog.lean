import ActiveDefense.Siem.AuditGraph

/-!
# The log of a queue

Each operation is a short sequence of events: a prediction enters the audit graph, an item is queued
or claimed, a decision is recorded, or an id that the counter has given is refused. An operation
that fails has had the events before its failure. What holds of a queue after every run is proved
for the events.
-/

namespace ActiveDefense.Siem

/-- The id that the counter gives to a decision on a flow. -/
def decisionName (flowId : Str) (seq : UInt64) : Str :=
  "dec-".toList ++ flowId ++ '-' :: decimal seq.toNat

theorem decisionName_ne (flowId : Str) (seq : UInt64) : decisionName flowId seq ≠ flowId := by
  intro h
  have hlength := congrArg List.length h
  simp only [decisionName, List.length_append, List.length_cons] at hlength
  omega

namespace ReviewQueue

variable {φ : Type}

theorem nextDecisionId_run {flowId : Str} {q : ReviewQueue φ} : nextDecisionId flowId q =
    .ok (decisionName flowId q.decisionSeq) { q with decisionSeq := q.decisionSeq + 1 } := rfl

variable [FloatArith φ]

/-- The audit graph holds the prediction of each item, and each of its decisions is the one that the
item of its flow names. There may be predictions without an item. -/
structure Sound (q : ReviewQueue φ) : Prop where
  graph : AuditGraph q.engine
  trail : q.AuditTrail
  predicted : ∀ flowId item, q.items.lookup flowId = some item →
    item.prediction.flowId = flowId ∧
      q.engine.store.instances.lookup flowId = some (predictionInstance item.prediction)
  decided : ∀ id decision, q.engine.store.instances.lookup id = some (decisionInstance decision) →
    q.named decision.flowId = some id

theorem sound_initial (triggerCfg : TriggerConfig φ) (slaPolicy : SlaPolicy) :
    (initial triggerCfg slaPolicy).Sound where
  graph := auditGraph_registered
  trail := auditTrail_new (new_eq triggerCfg slaPolicy)
  predicted := nofun
  decided := nofun

/-- The counter is no part of it. -/
theorem Sound.of_seq {q : ReviewQueue φ} (h : q.Sound) (seq : UInt64) :
    Sound { q with decisionSeq := seq } :=
  ⟨h.graph, h.trail, h.predicted, h.decided⟩

/-- The node of a flow that has an item. -/
theorem Sound.mem_instances {q : ReviewQueue φ} (h : q.Sound) {flowId : Str}
    {item : QueueItem φ} (hitem : q.items.lookup flowId = some item) :
    flowId ∈ q.engine.store.instances :=
  Table.mem_iff_lookup.mpr ⟨_, (h.predicted flowId item hitem).2⟩

/-! ## What an event keeps -/

theorem predictionInstance_ne_decisionInstance {pred : FlowPrediction φ}
    {decision : AuditDecision} : predictionInstance pred ≠ decisionInstance decision := by
  intro h
  have htype : flowPredictionType = auditDecisionType := congrArg ObjectInstance.objectType h
  exact absurd htype (by decide)

/-- A decision in a graph that a prediction was added to was there before. -/
theorem lookup_insert_prediction {instances : Table Str ObjectInstance} {pred : FlowPrediction φ}
    {id : Str} {decision : AuditDecision}
    (h : (instances.insert pred.flowId (predictionInstance pred)).lookup id =
      some (decisionInstance decision)) : instances.lookup id = some (decisionInstance decision) := by
  by_cases hid : id = pred.flowId
  · rw [hid, AList.lookup_insert] at h
    exact absurd (Option.some.inj h) predictionInstance_ne_decisionInstance
  · exact (AList.lookup_insert_ne hid).symm.trans h

/-- A prediction enters the audit graph. -/
theorem Sound.predict {q : ReviewQueue φ} (h : q.Sound) {prediction : FlowPrediction φ}
    {engine : OntologyEngine} (hnode : recordPrediction prediction q.engine = .ok () engine) :
    Sound { q with engine := engine } ∧
      engine.store.instances.lookup prediction.flowId = some (predictionInstance prediction) := by
  obtain ⟨hgraph, hinstances⟩ := h.graph.recordPrediction hnode
  obtain ⟨hnew, -⟩ := recordPrediction_spec hnode
  refine ⟨⟨hgraph, fun flowId => (h.trail flowId).recordPrediction hnode, ?_, ?_⟩, ?_⟩
  · intro flowId item hitem
    obtain ⟨hid, hlookup⟩ := h.predicted flowId item hitem
    exact ⟨hid, hinstances ▸ Table.lookup_insert_of_not_mem hnew hlookup⟩
  · intro id decision hdecision
    simp only [hinstances] at hdecision
    exact h.decided id decision (lookup_insert_prediction hdecision)
  · rw [hinstances, AList.lookup_insert]

/-- An item of a flow that has no decision is set to one that names none. -/
theorem Sound.reopen {q : ReviewQueue φ} (h : q.Sound) {flowId : Str} {item : QueueItem φ}
    (hnamed : q.named flowId = none) (hflow : item.prediction.flowId = flowId)
    (hnode : q.engine.store.instances.lookup flowId = some (predictionInstance item.prediction))
    (hitem : item.state.decisionId = none) :
    Sound { q with items := q.items.insert flowId item } := by
  refine ⟨h.graph, h.trail.reopen rfl rfl hnamed hitem, ?_, ?_⟩
  · intro flowId' item' hitem'
    by_cases heq : flowId' = flowId
    · rw [heq] at hitem' ⊢
      cases (AList.lookup_insert _).symm.trans hitem'
      exact ⟨hflow, hnode⟩
    · exact h.predicted flowId' item' ((AList.lookup_insert_ne heq).symm.trans hitem')
  · intro id decision hdecision
    have hid := h.decided id decision hdecision
    rw [named_insert rfl, if_neg]
    · exact hid
    · intro heq
      rw [heq, hnamed] at hid
      cases hid

/-- A decision enters the audit graph, and the item of its flow names it. -/
theorem Sound.close {q : ReviewQueue φ} (h : q.Sound) {decision : AuditDecision}
    {item : QueueItem φ} {engine : OntologyEngine} (seq : UInt64)
    (hrecord : recordDecisionNode decision q.engine = .ok () engine)
    (hnamed : q.named decision.flowId = none)
    (hflow : item.prediction.flowId = decision.flowId)
    (hnode : q.engine.store.instances.lookup decision.flowId =
      some (predictionInstance item.prediction))
    (hitem : item.state.decisionId = some decision.decisionId) :
    Sound { q with
      engine := engine
      items := q.items.insert decision.flowId item
      decisionSeq := seq } := by
  obtain ⟨hnew, hinstances, -⟩ := recordDecisionNode_spec hrecord
  refine ⟨h.graph.recordDecisionNode hrecord, h.trail.close hrecord rfl hnamed hitem, ?_, ?_⟩
  · intro flowId' item' hitem'
    simp only [hinstances]
    by_cases heq : flowId' = decision.flowId
    · rw [heq] at hitem' ⊢
      cases (AList.lookup_insert _).symm.trans hitem'
      exact ⟨hflow, Table.lookup_insert_of_not_mem hnew hnode⟩
    · obtain ⟨hid, hlookup⟩ :=
        h.predicted flowId' item' ((AList.lookup_insert_ne heq).symm.trans hitem')
      exact ⟨hid, Table.lookup_insert_of_not_mem hnew hlookup⟩
  · intro id decision' hdecision
    simp only [hinstances] at hdecision
    have hnamed' : ∀ flowId, q.named flowId = some id → flowId ≠ decision.flowId := by
      rintro flowId hid rfl
      rw [hnamed] at hid
      cases hid
    by_cases heq : id = decision.decisionId
    · rw [heq, AList.lookup_insert] at hdecision
      cases decisionInstance_injective (Option.some.inj hdecision)
      rw [named_insert rfl, if_pos rfl, hitem, heq]
    · rw [AList.lookup_insert_ne heq] at hdecision
      have hid := h.decided id decision' hdecision
      rw [named_insert rfl, if_neg (hnamed' _ hid)]
      exact hid

end ReviewQueue

/-! ## Events -/

inductive QueueEvent (φ : Type) where
  | predicted (prediction : FlowPrediction φ)
  | queued (prediction : FlowPrediction φ) (reason : TriggerReason) (enqueuedAt : Timestamp)
  | autoResolved (prediction : FlowPrediction φ) (decision : AuditDecision)
  | claimed (flowId reviewer : Str) (claimedAt : Timestamp)
  | resolved (decision : AuditDecision)
  | refused (flowId : Str)

namespace ReviewQueue

variable {φ : Type} [FloatArith φ]

/-- Who may resolve an open item: a human with any verdict, and a sweep with that of the policy. -/
def Authorized (q : ReviewQueue φ) (item : QueueItem φ) (decision : AuditDecision) :
    Prop :=
  match decision.reviewer with
  | .human _ => True
  | .systemSlaTimeout => ∃ slaSeconds,
      (decision.verdict, decision.rationale) = q.slaVerdict slaSeconds item.prediction
  | .systemAutoResolve => False

/-- What an event leaves, and when it can be. -/
inductive Logs (q : ReviewQueue φ) : QueueEvent φ → ReviewQueue φ → Prop
  | predicted {prediction : FlowPrediction φ} {engine : OntologyEngine}
      (hnew : prediction.flowId ∉ q.items)
      (hnode : recordPrediction prediction q.engine = .ok () engine) :
      Logs q (.predicted prediction) { q with engine := engine }
  | queued {prediction : FlowPrediction φ} {reason : TriggerReason} {enqueuedAt : Timestamp}
      (hnew : prediction.flowId ∉ q.items)
      (hnode : q.engine.store.instances.lookup prediction.flowId =
        some (predictionInstance prediction))
      (htrigger : ReviewTrigger.evaluate prediction q.triggerCfg = some reason) :
      Logs q (.queued prediction reason enqueuedAt) { q with
        items := q.items.insert prediction.flowId ⟨prediction, .pending reason, enqueuedAt⟩ }
  | autoResolved {prediction : FlowPrediction φ} {decision : AuditDecision}
      {engine : OntologyEngine} (hnew : prediction.flowId ∉ q.items)
      (hnode : q.engine.store.instances.lookup prediction.flowId =
        some (predictionInstance prediction))
      (htrigger : ReviewTrigger.evaluate prediction q.triggerCfg = none)
      (hflow : decision.flowId = prediction.flowId)
      (hid : decision.decisionId = decisionName decision.flowId q.decisionSeq)
      (hreviewer : decision.reviewer = .systemAutoResolve)
      (hverdict : decision.verdict = autoVerdict prediction q.triggerCfg)
      (hrecord : recordDecisionNode decision q.engine = .ok () engine) :
      Logs q (.autoResolved prediction decision) { q with
        engine := engine
        items := q.items.insert decision.flowId
          ⟨prediction, .autoResolved decision.decisionId, decision.decidedAt⟩
        decisionSeq := q.decisionSeq + 1 }
  | claimed {flowId reviewer : Str} {claimedAt : Timestamp} {item : QueueItem φ}
      {reason : TriggerReason} (hitem : q.items.lookup flowId = some item)
      (hpending : item.state = .pending reason) :
      Logs q (.claimed flowId reviewer claimedAt) { q with
        items := q.items.insert flowId
          { item with state := .underReview reason reviewer claimedAt } }
  | resolved {item : QueueItem φ} {decision : AuditDecision} {engine : OntologyEngine}
      (hitem : q.items.lookup decision.flowId = some item) (hopen : item.state.isOpen = true)
      (hid : decision.decisionId = decisionName decision.flowId q.decisionSeq)
      (hauthorized : q.Authorized item decision)
      (hrecord : recordDecisionNode decision q.engine = .ok () engine) :
      Logs q (.resolved decision) { q with
        engine := engine
        items := q.items.insert decision.flowId
          { item with state := .resolved decision.decisionId }
        decisionSeq := q.decisionSeq + 1 }
  | refused {flowId : Str} (hundecided : q.named flowId = none)
      (htaken : decisionName flowId q.decisionSeq ∈ q.engine.store.instances) :
      Logs q (.refused flowId) { q with decisionSeq := q.decisionSeq + 1 }

theorem Sound.logs {q q' : ReviewQueue φ} {event : QueueEvent φ} (h : q.Sound)
    (hlogs : Logs q event q') : q'.Sound := by
  cases hlogs with
  | predicted _ hnode => exact (h.predict hnode).1
  | queued hnew hnode _ =>
    refine h.reopen ?_ rfl hnode rfl
    rw [named, AList.lookup_eq_none.mpr hnew]
    rfl
  | autoResolved hnew hnode _ hflow _ _ _ hrecord =>
    refine h.close _ hrecord ?_ hflow.symm ?_ rfl
    · rw [named, hflow, AList.lookup_eq_none.mpr hnew]
      rfl
    · rw [hflow]
      exact hnode
  | claimed hitem hpending =>
    obtain ⟨hflow, hnode⟩ := h.predicted _ _ hitem
    refine h.reopen (named_of_isOpen hitem ?_) hflow hnode rfl
    rw [hpending]
    rfl
  | resolved hitem hopen _ _ hrecord =>
    obtain ⟨hflow, hnode⟩ := h.predicted _ _ hitem
    exact h.close _ hrecord (named_of_isOpen hitem hopen) hflow hnode rfl
  | refused _ _ => exact h.of_seq _

/-- The configuration stays as it is. -/
theorem Logs.config {q q' : ReviewQueue φ} {event : QueueEvent φ} (h : Logs q event q') :
    q'.triggerCfg = q.triggerCfg ∧ q'.slaPolicy = q.slaPolicy := by
  cases h <;> exact ⟨rfl, rfl⟩

/-! ## What an operation comes to -/

omit [FloatArith φ] in
theorem onEngine_run_ok {α : Type} {x : Ontology α} {a : α} {q : ReviewQueue φ}
    {engine : OntologyEngine} (h : x q.engine = .ok a engine) :
    onEngine x q = .ok a { q with engine := engine } := by
  unfold onEngine
  rw [h]

omit [FloatArith φ] in
theorem onEngine_run_error {α : Type} {x : Ontology α} {e : OntologyError} {q : ReviewQueue φ}
    {engine : OntologyEngine} (h : x q.engine = .error e engine) :
    onEngine x q = .error (.ontology e) { q with engine := engine } := by
  unfold onEngine
  rw [h]

/-- An item is resolved, unless the id that the counter gives is taken. -/
theorem Sound.resolve_run {q : ReviewQueue φ} (h : q.Sound) {flowId : Str} {item : QueueItem φ}
    (reviewer : Reviewer) (verdict : Verdict) (rationale : Str) (decidedAt : Timestamp)
    (hitem : q.items.lookup flowId = some item) :
    let decision : AuditDecision :=
      ⟨decisionName flowId q.decisionSeq, flowId, reviewer, verdict, rationale, decidedAt⟩
    if decision.decisionId ∈ q.engine.store.instances then
      resolve flowId item reviewer verdict rationale decidedAt q =
        .error (.ontology (.duplicateInstance decision.decisionId))
          { q with decisionSeq := q.decisionSeq + 1 }
    else ∃ engine, recordDecisionNode decision q.engine = .ok () engine ∧
      resolve flowId item reviewer verdict rationale decidedAt q = .ok decision { q with
        engine := engine
        items := q.items.insert flowId { item with state := .resolved decision.decisionId }
        decisionSeq := q.decisionSeq + 1 } := by
  intro decision
  have hcases := h.graph.recordDecisionNode_run decision
    (h.predicted flowId item hitem).2 rfl
  unfold resolve
  rw [bind_run_of_ok nextDecisionId_run]
  split
  · next htaken =>
    rw [if_pos htaken] at hcases
    exact bind_run_of_error (onEngine_run_error hcases)
  · next hfree =>
    rw [if_neg hfree] at hcases
    obtain ⟨engine, hrecord⟩ := hcases
    have hrun := onEngine_run_ok (q := { q with decisionSeq := q.decisionSeq + 1 }) hrecord
    exact ⟨engine, hrecord, (bind_run_of_ok hrun).trans rfl⟩

/-- What `ingest` comes to. -/
inductive Ingested (q : ReviewQueue φ) (prediction : FlowPrediction φ) (enqueuedAt : Timestamp) :
    EStateM.Result ReviewQueueError (ReviewQueue φ) IngestOutcome → Prop
  | duplicateFlow (hitem : prediction.flowId ∈ q.items) :
      Ingested q prediction enqueuedAt (.error (.duplicateFlow prediction.flowId) q)
  | taken (hnew : prediction.flowId ∉ q.items)
      (htaken : prediction.flowId ∈ q.engine.store.instances) :
      Ingested q prediction enqueuedAt
        (.error (.ontology (.duplicateInstance prediction.flowId)) q)
  | queued {engine : OntologyEngine} {reason : TriggerReason}
      (hnew : prediction.flowId ∉ q.items)
      (hnode : recordPrediction prediction q.engine = .ok () engine)
      (htrigger : ReviewTrigger.evaluate prediction q.triggerCfg = some reason) :
      Ingested q prediction enqueuedAt (.ok (.queuedForReview reason) { q with
        engine := engine
        items := q.items.insert prediction.flowId ⟨prediction, .pending reason, enqueuedAt⟩ })
  | refused {engine : OntologyEngine} (hnew : prediction.flowId ∉ q.items)
      (hnode : recordPrediction prediction q.engine = .ok () engine)
      (htrigger : ReviewTrigger.evaluate prediction q.triggerCfg = none)
      (htaken : decisionName prediction.flowId q.decisionSeq ∈ q.engine.store.instances) :
      Ingested q prediction enqueuedAt
        (.error (.ontology (.duplicateInstance (decisionName prediction.flowId q.decisionSeq)))
          { q with engine := engine, decisionSeq := q.decisionSeq + 1 })
  | autoResolved {engine engine' : OntologyEngine} {decision : AuditDecision}
      (hnew : prediction.flowId ∉ q.items)
      (hnode : recordPrediction prediction q.engine = .ok () engine)
      (htrigger : ReviewTrigger.evaluate prediction q.triggerCfg = none)
      (hfree : decisionName prediction.flowId q.decisionSeq ∉ q.engine.store.instances)
      (hdecision : decision = ⟨decisionName prediction.flowId q.decisionSeq, prediction.flowId,
        .systemAutoResolve, autoVerdict prediction q.triggerCfg,
        autoRationale prediction q.triggerCfg, enqueuedAt⟩)
      (hrecord : recordDecisionNode decision engine = .ok () engine') :
      Ingested q prediction enqueuedAt
        (.ok (.autoResolved decision.verdict decision.decisionId) { q with
          engine := engine'
          items := q.items.insert prediction.flowId
            ⟨prediction, .autoResolved decision.decisionId, enqueuedAt⟩
          decisionSeq := q.decisionSeq + 1 })

theorem Sound.ingested {q : ReviewQueue φ} (h : q.Sound) (prediction : FlowPrediction φ)
    (enqueuedAt : Timestamp) :
    Ingested q prediction enqueuedAt (ingest prediction enqueuedAt q) := by
  unfold ingest
  simp only [get_bind_run]
  by_cases hnew : prediction.flowId ∈ q.items
  · rw [if_pos hnew]
    exact .duplicateFlow hnew
  rw [if_neg hnew]
  have hrun := h.graph.recordPrediction_run prediction
  by_cases htaken : prediction.flowId ∈ q.engine.store.instances
  · rw [if_pos htaken] at hrun
    rw [bind_run_of_error (onEngine_run_error hrun)]
    exact .taken hnew htaken
  rw [if_neg htaken] at hrun
  obtain ⟨hsound, hlookup⟩ := h.predict hrun
  rw [bind_run_of_ok (onEngine_run_ok hrun)]
  cases htrigger : ReviewTrigger.evaluate prediction q.triggerCfg with
  | some reason => exact .queued hnew hrun htrigger
  | none =>
    have hcases := hsound.graph.recordDecisionNode_run
      ⟨decisionName prediction.flowId q.decisionSeq, prediction.flowId, .systemAutoResolve,
        autoVerdict prediction q.triggerCfg, autoRationale prediction q.triggerCfg, enqueuedAt⟩
      hlookup rfl
    simp only [AList.mem_insert, decisionName_ne, false_or] at hcases
    simp only
    rw [bind_run_of_ok nextDecisionId_run]
    split at hcases
    · next hdup =>
      rw [bind_run_of_error (onEngine_run_error hcases)]
      exact .refused hnew hrun htrigger hdup
    · next hfree =>
      obtain ⟨engine', hrecord⟩ := hcases
      rw [bind_run_of_ok (onEngine_run_ok hrecord)]
      exact .autoResolved hnew hrun htrigger hfree rfl hrecord

end ReviewQueue

/-! ## The events of an operation -/

/-- The events that an operation can have. -/
def ReviewAction.Emits {φ : Type} : ReviewAction φ → QueueEvent φ → Prop
  | ingest prediction _, .predicted prediction' => prediction' = prediction
  | ingest prediction enqueuedAt, .queued prediction' _ enqueuedAt' =>
    prediction' = prediction ∧ enqueuedAt' = enqueuedAt
  | ingest prediction enqueuedAt, .autoResolved prediction' decision =>
    prediction' = prediction ∧ decision.decidedAt = enqueuedAt
  | ingest prediction _, .refused flowId => flowId = prediction.flowId
  | claim flowId reviewer claimedAt, .claimed flowId' reviewer' claimedAt' =>
    flowId' = flowId ∧ reviewer' = reviewer ∧ claimedAt' = claimedAt
  | recordDecision flowId reviewer verdict rationale decidedAt, .resolved decision =>
    decision = ⟨decision.decisionId, flowId, .human reviewer, verdict, rationale, decidedAt⟩
  | recordDecision flowId _ _ _ _, .refused flowId' => flowId' = flowId
  | sweepExpired _ _ order, .resolved decision =>
    decision.reviewer = .systemSlaTimeout ∧ (decision.flowId, decision.decidedAt) ∈ order
  | sweepExpired _ _ order, .refused flowId => flowId ∈ order.map Prod.fst
  | _, _ => False

namespace ReviewQueue

variable {φ : Type} [FloatArith φ]

/-- The events of an operation, in order. -/
abbrev Logged (a : ReviewAction φ) (q : ReviewQueue φ) (events : List (QueueEvent φ))
    (q' : ReviewQueue φ) : Prop :=
  Run Logs (fun _ event => a.Emits event) q events q'

theorem Sound.logged_ingest {q : ReviewQueue φ} (h : q.Sound) (prediction : FlowPrediction φ)
    (enqueuedAt : Timestamp) : ∃ events, Logged (.ingest prediction enqueuedAt) q events
      (finalState (ingest prediction enqueuedAt q)) := by
  have hpredicted : ∀ {engine}, prediction.flowId ∉ q.items →
      recordPrediction prediction q.engine = .ok () engine →
      Logged (.ingest prediction enqueuedAt) q [.predicted prediction]
        { q with engine := engine } :=
    fun hnew hnode => .single rfl (.predicted hnew hnode)
  have hingested := h.ingested prediction enqueuedAt
  generalize ingest prediction enqueuedAt q = result at hingested
  cases hingested with
  | duplicateFlow _ => exact ⟨[], .nil⟩
  | taken _ _ => exact ⟨[], .nil⟩
  | queued hnew hnode htrigger =>
    obtain ⟨-, hlookup⟩ := h.predict hnode
    exact ⟨[.predicted prediction, .queued prediction _ enqueuedAt],
      (hpredicted hnew hnode).snoc ⟨rfl, rfl⟩ (.queued hnew hlookup htrigger)⟩
  | refused hnew hnode _ htaken =>
    obtain ⟨hgraph, hinstances⟩ := h.graph.recordPrediction hnode
    refine ⟨[.predicted prediction, .refused prediction.flowId],
      (hpredicted hnew hnode).snoc rfl (.refused ?_ ?_)⟩
    · rw [named, AList.lookup_eq_none.mpr hnew]
      rfl
    · simp only [hinstances]
      exact (AList.mem_insert _).mpr (.inr htaken)
  | @autoResolved engine _ _ hnew hnode htrigger _ hdecision hrecord =>
    obtain ⟨-, hlookup⟩ := h.predict hnode
    cases hdecision
    have hlogs := Logs.autoResolved (q := { q with engine := engine }) hnew hlookup htrigger rfl rfl
      rfl rfl hrecord
    refine ⟨_, (hpredicted hnew hnode).snoc ?_ hlogs⟩
    exact ⟨rfl, rfl⟩

theorem logged_claim (q : ReviewQueue φ) (flowId reviewer : Str) (claimedAt : Timestamp) :
    ∃ events, Logged (.claim flowId reviewer claimedAt) q events
      (finalState (claim flowId reviewer claimedAt q)) := by
  cases hrun : claim flowId reviewer claimedAt q with
  | error e q' =>
    cases claim_error hrun
    exact ⟨[], .nil⟩
  | ok _ q' =>
    obtain ⟨item, reason, hitem, hpending, rfl⟩ := claim_spec hrun
    exact ⟨[.claimed flowId reviewer claimedAt], .single ⟨rfl, rfl, rfl⟩ (.claimed hitem hpending)⟩

/-- A resolution is one event. -/
theorem Sound.logged_resolve {q : ReviewQueue φ} (h : q.Sound) {flowId : Str}
    {item : QueueItem φ} (reviewer : Reviewer) (verdict : Verdict) (rationale : Str)
    (decidedAt : Timestamp) (hitem : q.items.lookup flowId = some item) (hopen : item.state.isOpen = true)
    (hauthorized : ∀ id, q.Authorized item ⟨id, flowId, reviewer, verdict, rationale, decidedAt⟩) :
    (∃ e, resolve flowId item reviewer verdict rationale decidedAt q =
        .error e { q with decisionSeq := q.decisionSeq + 1 } ∧
      Logs q (.refused flowId) { q with decisionSeq := q.decisionSeq + 1 }) ∨
    ∃ id q', resolve flowId item reviewer verdict rationale decidedAt q =
        .ok ⟨id, flowId, reviewer, verdict, rationale, decidedAt⟩ q' ∧
      Logs q (.resolved ⟨id, flowId, reviewer, verdict, rationale, decidedAt⟩) q' := by
  have hcases := h.resolve_run reviewer verdict rationale decidedAt hitem
  simp only at hcases
  split at hcases
  · next htaken => exact .inl ⟨_, hcases, .refused (named_of_isOpen hitem hopen) htaken⟩
  · obtain ⟨engine, hrecord, hrun⟩ := hcases
    exact .inr ⟨_, _, hrun, .resolved hitem hopen rfl (hauthorized _) hrecord⟩

/-- A human decision changes nothing, or loses an id, or resolves the item. -/
theorem Sound.recordDecision_cases {q : ReviewQueue φ} (h : q.Sound) (flowId reviewer : Str)
    (verdict : Verdict) (rationale : Str) (decidedAt : Timestamp) :
    (∃ e, recordDecision flowId reviewer verdict rationale decidedAt q = .error e q) ∨
    (∃ e, recordDecision flowId reviewer verdict rationale decidedAt q =
        .error e { q with decisionSeq := q.decisionSeq + 1 } ∧
      Logs q (.refused flowId) { q with decisionSeq := q.decisionSeq + 1 }) ∨
    ∃ id q', recordDecision flowId reviewer verdict rationale decidedAt q =
        .ok ⟨id, flowId, .human reviewer, verdict, rationale, decidedAt⟩ q' ∧
      Logs q (.resolved ⟨id, flowId, .human reviewer, verdict, rationale, decidedAt⟩) q' := by
  unfold recordDecision
  split
  · exact .inl ⟨_, rfl⟩
  split
  · exact .inl ⟨_, rfl⟩
  simp only [get_bind_run]
  cases hitem : q.items.lookup flowId with
  | none => exact .inl ⟨_, rfl⟩
  | some item =>
    simp only
    split
    · next hopen =>
      exact .inr (h.logged_resolve (.human reviewer) verdict rationale decidedAt hitem hopen
        fun _ => trivial)
    · exact .inl ⟨_, rfl⟩

theorem Sound.logged_recordDecision {q : ReviewQueue φ} (h : q.Sound)
    (flowId reviewer : Str) (verdict : Verdict) (rationale : Str) (decidedAt : Timestamp) :
    ∃ events, Logged (.recordDecision flowId reviewer verdict rationale decidedAt) q events
      (finalState (recordDecision flowId reviewer verdict rationale decidedAt q)) := by
  rcases h.recordDecision_cases flowId reviewer verdict rationale decidedAt with
    ⟨e, hrun⟩ | ⟨e, hrun, hlogs⟩ | ⟨id, q', hrun, hlogs⟩
  · rw [hrun]
    exact ⟨[], .nil⟩
  · rw [hrun]
    exact ⟨[.refused flowId], .single rfl hlogs⟩
  · rw [hrun]
    exact ⟨[.resolved ⟨id, flowId, .human reviewer, verdict, rationale, decidedAt⟩],
      .single rfl hlogs⟩

/-- The events of a sweep: its flows one after the other, until an id is refused. -/
theorem Sound.logged_sweepItems {q : ReviewQueue φ} (h : q.Sound) {now slaSeconds : Timestamp}
    {order rest : List (Str × Timestamp)} (hrest : rest ⊆ order)
    (hnodup : (rest.map Prod.fst).Nodup)
    (hopen : ∀ flowId ∈ rest.map Prod.fst, ∀ item, q.items.lookup flowId = some item →
      item.state.isOpen = true) :
    ∃ events, Logged (.sweepExpired now slaSeconds order) q events
      (finalState (sweepItems slaSeconds rest q)) := by
  induction rest generalizing q with
  | nil => exact ⟨[], .nil⟩
  | cons entry rest ih =>
    obtain ⟨flowId, decidedAt⟩ := entry
    obtain ⟨hnew, hnodup⟩ := List.nodup_cons.mp hnodup
    have hentry : (flowId, decidedAt) ∈ order := hrest (.head _)
    replace hrest : rest ⊆ order := fun e he => hrest (List.mem_cons_of_mem _ he)
    unfold sweepItems
    simp only [get_bind_run]
    cases hitem : q.items.lookup flowId with
    | none =>
      exact ih h hrest hnodup fun id hid => hopen id (List.mem_cons_of_mem _ hid)
    | some item =>
      simp only
      obtain ⟨verdict, rationale, hruling⟩ : ∃ verdict rationale,
          q.slaVerdict slaSeconds item.prediction = (verdict, rationale) := ⟨_, _, rfl⟩
      rw [hruling]
      rcases h.logged_resolve .systemSlaTimeout verdict rationale decidedAt hitem
        (hopen flowId (.head _) item hitem) fun _ => ⟨slaSeconds, hruling.symm⟩ with
        ⟨e, hrun, hlogs⟩ | ⟨id, q₁, hrun, hlogs⟩
      · rw [bind_run_of_error hrun]
        exact ⟨[.refused flowId], .single (List.mem_map_of_mem hentry) hlogs⟩
      · rw [bind_run_of_ok hrun]
        have hq₁ := h.logs hlogs
        -- the items of the other flows are as they were
        have hothers : ∀ id ∈ rest.map Prod.fst, ∀ item, q₁.items.lookup id = some item →
            item.state.isOpen = true := by
          obtain ⟨_, _, -, -, rfl⟩ := resolve_spec hrun
          intro id hid item hlookup
          refine hopen id (List.mem_cons_of_mem _ hid) item ?_
          refine (AList.lookup_insert_ne ?_).symm.trans hlookup
          rintro rfl
          exact hnew hid
        obtain ⟨events, hevents⟩ := ih hq₁ hrest hnodup hothers
        have hfirst : Logged (.sweepExpired now slaSeconds order) q [.resolved _] q₁ :=
          .single ⟨rfl, hentry⟩ hlogs
        rw [finalState_bind_pure]
        exact ⟨_, hfirst.append hevents⟩

omit [FloatArith φ] in
/-- What a sweep finds expired is open. -/
theorem isOpen_of_mem_expiredFlowIds {q : ReviewQueue φ} {now slaSeconds : Timestamp}
    {flowId : Str} (h : flowId ∈ q.expiredFlowIds now slaSeconds) {item : QueueItem φ}
    (hitem : q.items.lookup flowId = some item) : item.state.isOpen = true := by
  obtain ⟨⟨id, item'⟩, hmem, rfl⟩ := List.mem_map.mp h
  obtain ⟨hentry, hexpired⟩ := List.mem_filter.mp hmem
  cases (AList.mem_lookup_iff.mpr hentry).symm.trans hitem
  exact (Bool.and_eq_true _ _ ▸ hexpired).1

/-- Every operation is a sequence of its events, whether it succeeds or fails. -/
theorem Sound.logged {q q' : ReviewQueue φ} {a : ReviewAction φ} (h : q.Sound) (hstep : Step q a q') :
    ∃ events, Logged a q events q' := by
  obtain ⟨hallowed, rfl⟩ := hstep
  cases a with
  | ingest prediction enqueuedAt =>
    simp only [ReviewAction.exec, finalState_discard]
    exact h.logged_ingest prediction enqueuedAt
  | claim flowId reviewer claimedAt => exact logged_claim q flowId reviewer claimedAt
  | recordDecision flowId reviewer verdict rationale decidedAt =>
    simp only [ReviewAction.exec, finalState_discard]
    exact h.logged_recordDecision flowId reviewer verdict rationale decidedAt
  | sweepExpired now slaSeconds order =>
    have hperm : (order.map Prod.fst).Perm (q.expiredFlowIds now slaSeconds) := hallowed
    simp only [ReviewAction.exec, finalState_discard]
    refine h.logged_sweepItems (List.Subset.refl order) (hperm.nodup_iff.mpr nodup_expiredFlowIds)
      fun flowId hflow item hitem => ?_
    exact isOpen_of_mem_expiredFlowIds (hperm.mem_iff.mp hflow) hitem

/-- What the events keep, the queue keeps. -/
theorem Sound.of_run {q q' : ReviewQueue φ} {ok : ReviewQueue φ → QueueEvent φ → Prop}
    {events : List (QueueEvent φ)} (h : q.Sound) (hrun : Run Logs ok q events q') : q'.Sound :=
  hrun.invariant h fun _ _ _ hq _ hlogs => hq.logs hlogs

theorem Sound.step {q q' : ReviewQueue φ} {a : ReviewAction φ} (h : q.Sound) (hstep : Step q a q') :
    q'.Sound := by
  obtain ⟨events, hevents⟩ := h.logged hstep
  exact h.of_run hevents

/-- A run of operations is a sequence of their events. -/
theorem Sound.logged_run {q q' : ReviewQueue φ} {ok : ReviewQueue φ → ReviewAction φ → Prop}
    {as : List (ReviewAction φ)} (h : q.Sound) (hrun : Run Step ok q as q') :
    q'.Sound ∧ ∃ events, Run Logs (fun _ event => ∃ a ∈ as, a.Emits event) q events q' := by
  induction hrun with
  | nil => exact ⟨h, [], .nil⟩
  | @snoc as a t u hrun _ hstep ih =>
    obtain ⟨ht, events, hevents⟩ := ih
    obtain ⟨events', hevents'⟩ := ht.logged hstep
    refine ⟨ht.of_run hevents', events ++ events', (hevents.mono ?_).append (hevents'.mono ?_)⟩
    · rintro t event ⟨b, hb, hemits⟩
      exact ⟨b, List.mem_append_left _ hb, hemits⟩
    · intro t event hemits
      exact ⟨a, by simp, hemits⟩

/-- A queue is sound in every state that its operations lead to, successful or failed. -/
theorem sound_of_reachable {triggerCfg : TriggerConfig φ} {slaPolicy : SlaPolicy}
    {start q : ReviewQueue φ} (hnew : new triggerCfg slaPolicy = .ok start)
    (h : Reachable Step start q) : q.Sound := by
  rw [new_eq] at hnew
  cases hnew
  exact h.invariant (sound_initial triggerCfg slaPolicy) fun _ _ _ hq hstep => hq.step hstep

end ReviewQueue

end ActiveDefense.Siem
