import ActiveDefense.Siem.AuditTrail
import ActiveDefense.Siem.Graph

/-!
# What the audit graph refuses

The nodes of the audit graph are predictions, each under the id of its flow, and decisions, each
under its own id. So the ids of flows and of decisions share one namespace. The types of both are
registered before the first node, and a link is only made from a new node to one that is there: all
that the graph ever refuses is an id that is taken.
-/

namespace ActiveDefense.Siem

/-- The node of a prediction in the audit graph. -/
def predictionInstance {φ : Type} [FloatArith φ] (pred : FlowPrediction φ) : ObjectInstance where
  id := pred.flowId
  objectType := flowPredictionType
  properties := [⟨"flow_id".toList, .string pred.flowId⟩,
    ⟨"predicted_label".toList, .string pred.predictedLabel⟩,
    ⟨"confidence_millis".toList, .integer (toMillis pred.confidence)⟩,
    ⟨"observed_at".toList, .integer pred.observedAt⟩].toAList

/-- The engine that `schema::register` leaves. -/
def registered : OntologyEngine := finalState (registerSchema .new)

namespace OntologyEngine

/-- An instance of a registered type with the properties of that type is refused only where its id
is taken. -/
theorem createObjectInstance_run (inst : ObjectInstance) {schema : ObjectType} {e : OntologyEngine}
    (hschema : e.objectTypes.lookup inst.objectType = some schema)
    (hissues : validateProperties schema inst.properties = []) :
    createObjectInstance inst e =
      if inst.id ∈ e.store.instances then .error (.duplicateInstance inst.id) e
      else .ok () { e with
        store := { e.store with instances := e.store.instances.insert inst.id inst } } := by
  unfold createObjectInstance
  simp only [get_bind_run, hschema, hissues, ne_eq, not_true_eq_false, if_false]
  split <;> rfl

/-- A link of a registered type between instances of its types is made, if it is not there yet. -/
theorem createLink_run {link : LinkInstance} {schema : LinkType} {source target : ObjectInstance}
    {e : OntologyEngine} (hschema : e.linkTypes.lookup link.linkType = some schema)
    (hsource : e.store.instances.lookup link.sourceId = some source)
    (hsourceType : source.objectType = schema.sourceType)
    (htarget : e.store.instances.lookup link.targetId = some target)
    (htargetType : target.objectType = schema.targetType) (hnew : link ∉ e.store.links) :
    ∃ e', createLink link e = .ok () e' := by
  unfold createLink
  simp only [get_bind_run, hschema, hsource, hsourceType, htarget, htargetType, ne_eq,
    not_true_eq_false, if_false]
  unfold Store.insertLink
  rw [if_neg hnew]
  exact ⟨_, rfl⟩

end OntologyEngine

/-! ## The graph -/

/-- The types are those that were registered, and a node is a prediction or a decision. -/
structure AuditGraph (e : OntologyEngine) : Prop where
  consistent : e.Consistent
  objectTypes : e.objectTypes = registered.objectTypes
  linkTypes : e.linkTypes = registered.linkTypes
  node : ∀ id inst, e.store.instances.lookup id = some inst →
    inst.objectType = flowPredictionType ∨ ∃ decision, inst = decisionInstance decision

theorem auditGraph_registered : AuditGraph registered where
  consistent := ⟨OntologyEngine.consistent_new.indexed, nofun, nofun⟩
  objectTypes := rfl
  linkTypes := rfl
  node := nofun

namespace AuditGraph

variable {e e' : OntologyEngine}

/-- The node of a decision is under the id of the decision. -/
theorem decisionId_eq (h : AuditGraph e) {id : Str} {decision : AuditDecision}
    (hnode : e.store.instances.lookup id = some (decisionInstance decision)) :
    decision.decisionId = id := (h.consistent.valid _ _ hnode).1

/-- The decisions that are read off the graph are those that have a node. -/
theorem mem_allDecisions (h : AuditGraph e) {decision : AuditDecision} :
    decision ∈ allDecisions e ↔
      e.store.instances.lookup decision.decisionId = some (decisionInstance decision) := by
  unfold allDecisions OntologyEngine.listInstancesByType
  simp only [List.mem_filterMap, List.mem_filter, List.mem_map, decide_eq_true_eq]
  constructor
  · rintro ⟨inst, ⟨⟨⟨id, inst'⟩, hentry, rfl⟩, htype⟩, hread⟩
    have hnode := AList.mem_lookup_iff.mpr hentry
    rcases h.node id inst' hnode with hpred | ⟨decision', rfl⟩
    · exact absurd (hpred.symm.trans htype) (by decide)
    · rw [decisionFromInstance_decisionInstance] at hread
      cases hread
      rw [h.decisionId_eq hnode]
      exact hnode
  · intro hnode
    exact ⟨_, ⟨⟨_, AList.mem_lookup_iff.mp hnode, rfl⟩, rfl⟩,
      decisionFromInstance_decisionInstance decision⟩

section
variable {φ : Type} [FloatArith φ] {pred : FlowPrediction φ}

theorem recordPrediction_run (h : AuditGraph e) (pred : FlowPrediction φ) : recordPrediction pred e =
    if pred.flowId ∈ e.store.instances then .error (.duplicateInstance pred.flowId) e
    else .ok () { e with store := { e.store with
      instances := e.store.instances.insert pred.flowId (predictionInstance pred) } } := by
  have hschema : ∃ schema, e.objectTypes.lookup flowPredictionType = some schema ∧
      OntologyEngine.validateProperties schema (predictionInstance pred).properties = [] := by
    rw [h.objectTypes]
    exact ⟨_, rfl, rfl⟩
  obtain ⟨schema, hschema, hissues⟩ := hschema
  exact OntologyEngine.createObjectInstance_run (predictionInstance pred) hschema hissues

/-- A prediction is one more node. -/
theorem recordPrediction (h : AuditGraph e) (hrun : Siem.recordPrediction pred e = .ok () e') :
    AuditGraph e' ∧ e'.store.instances =
      e.store.instances.insert pred.flowId (predictionInstance pred) := by
  have hconsistent : (finalState (Siem.recordPrediction pred e)).Consistent :=
    h.consistent.createObjectInstance (predictionInstance pred)
  rw [hrun] at hconsistent
  rw [h.recordPrediction_run] at hrun
  split at hrun
  · cases hrun
  · cases hrun
    refine ⟨⟨hconsistent, h.objectTypes, h.linkTypes, fun id inst hinst => ?_⟩, rfl⟩
    by_cases hid : id = pred.flowId
    · rw [hid] at hinst
      cases (AList.lookup_insert _).symm.trans hinst
      exact .inl rfl
    · exact h.node id inst ((AList.lookup_insert_ne hid).symm.trans hinst)

end

variable {decision : AuditDecision}

/-- A decision is refused only where its id is taken. -/
theorem recordDecisionNode_run (h : AuditGraph e) (decision : AuditDecision) {source : ObjectInstance}
    (hsource : e.store.instances.lookup decision.flowId = some source)
    (htype : source.objectType = flowPredictionType) :
    if decision.decisionId ∈ e.store.instances then
      Siem.recordDecisionNode decision e = .error (.duplicateInstance decision.decisionId) e
    else ∃ e', Siem.recordDecisionNode decision e = .ok () e' := by
  obtain ⟨schema, hschema, hissues⟩ : ∃ schema,
      e.objectTypes.lookup auditDecisionType = some schema ∧
        OntologyEngine.validateProperties schema (decisionInstance decision).properties = [] := by
    rw [h.objectTypes]
    exact ⟨_, rfl, rfl⟩
  have hnode := OntologyEngine.createObjectInstance_run (decisionInstance decision) hschema hissues
  rw [show (decisionInstance decision).id = decision.decisionId from rfl] at hnode
  split
  · next htaken =>
    rw [if_pos htaken] at hnode
    exact bind_run_of_error hnode
  · next hfree =>
    rw [if_neg hfree] at hnode
    unfold Siem.recordDecisionNode
    rw [bind_run_of_ok hnode]
    have hlinkType : e.linkTypes.lookup reviewOfLink =
        some ⟨reviewOfLink, auditDecisionType, flowPredictionType⟩ :=
      (congrArg (AList.lookup reviewOfLink) h.linkTypes).trans rfl
    refine OntologyEngine.createLink_run hlinkType (AList.lookup_insert _) rfl
      (Table.lookup_insert_of_not_mem hfree hsource) htype fun hlink => ?_
    -- a link there would start at a node, and there is none under the id of the decision
    obtain ⟨_, node, _, -, hnode', -⟩ := h.consistent.typed _ hlink
    exact hfree (Table.mem_iff_lookup.mpr ⟨node, hnode'⟩)

/-- A decision is one more node. -/
theorem recordDecisionNode (h : AuditGraph e)
    (hrun : Siem.recordDecisionNode decision e = .ok () e') : AuditGraph e' := by
  obtain ⟨-, hinstances, -⟩ := recordDecisionNode_spec hrun
  obtain ⟨_, e₁, hnode, hlink⟩ := exists_of_bind_ok hrun
  have he₁ := h.consistent.createObjectInstance (decisionInstance decision)
  rw [hnode] at he₁
  have hconsistent := OntologyEngine.Consistent.createLink he₁
    ⟨reviewOfLink, decision.decisionId, decision.flowId⟩
  rw [show finalState (EStateM.Result.ok _ e₁) = e₁ from rfl, hlink] at hconsistent
  obtain ⟨-, rfl⟩ := OntologyEngine.createObjectInstance_spec hnode
  obtain ⟨store, -, rfl⟩ := OntologyEngine.createLink_spec hlink
  refine ⟨hconsistent, h.objectTypes, h.linkTypes, fun id inst hinst => ?_⟩
  rw [hinstances] at hinst
  by_cases hid : id = decision.decisionId
  · rw [hid] at hinst
    cases (AList.lookup_insert _).symm.trans hinst
    exact .inr ⟨decision, rfl⟩
  · exact h.node id inst ((AList.lookup_insert_ne hid).symm.trans hinst)

end AuditGraph

end ActiveDefense.Siem
