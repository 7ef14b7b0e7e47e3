import ActiveDefense.Siem.AuditGraph
import ActiveDefense.Siem.AuditTrail
import ActiveDefense.Siem.Graph
import ActiveDefense.Siem.Trigger

/-!
# The decisions that the executor reads

A decision is written as a node and a link, and read back through the index of the links: one more
for its flow, and nothing new for another. The executor counts those that authorize containment and
looks at no others: it approves one that a dismissal contradicts, and calls two that agree a
conflict.
-/

namespace ActiveDefense.Siem

/-! ## What is written is read back -/

namespace OntologyEngine

variable {e e' : OntologyEngine} {decision : AuditDecision}

/-- What is not there is not linked to a flow. -/
theorem Consistent.not_mem_decisionIds (h : e.Consistent) {id : Str} (hid : id ∉ e.store.instances)
    (flowId : Str) : id ∉ e.decisionIds flowId := by
  intro hmem
  have hlink := ((h.neighbours flowId reviewOfLink .incoming).2 id).mp hmem
  obtain ⟨inst, hinst, -⟩ := h.exists_of_link hlink
  exact hid (Table.mem_iff_lookup.mpr ⟨inst, hinst⟩)

theorem decisionIds_recordDecisionNode (hrun : recordDecisionNode decision e = .ok () e')
    (flowId : Str) : e'.decisionIds flowId =
      if flowId = decision.flowId then insertSet decision.decisionId (e.decisionIds flowId)
      else e.decisionIds flowId := by
  obtain ⟨-, -, hindex⟩ := recordDecisionNode_spec hrun
  unfold decisionIds
  rw [hindex]
  split
  · next hflow =>
    subst hflow
    rw [AList.lookup_insert]
    rfl
  · next hflow =>
    rw [AList.lookup_insert_ne]
    simp [hflow]

/-- A node that is there reads as before. -/
theorem filterMap_recordDecisionNode (hrun : recordDecisionNode decision e = .ok () e')
    {ids : List Str} (hids : decision.decisionId ∉ ids) :
    (ids.filterMap fun id => (e'.store.instances.lookup id).bind decisionFromInstance) =
      ids.filterMap fun id => (e.store.instances.lookup id).bind decisionFromInstance := by
  obtain ⟨-, hinstances, -⟩ := recordDecisionNode_spec hrun
  refine List.filterMap_congr fun id hid => ?_
  have hne : id ≠ decision.decisionId := ne_of_mem_of_not_mem hid hids
  rw [hinstances, AList.lookup_insert_ne hne]

/-- The decisions of the flow, and the new one. -/
theorem Consistent.decisionsForFlow_self (h : e.Consistent)
    (hrun : recordDecisionNode decision e = .ok () e') :
    decisionsForFlow e' decision.flowId = decisionsForFlow e decision.flowId ++ [decision] := by
  obtain ⟨hfree, hinstances, -⟩ := recordDecisionNode_spec hrun
  have hnew := h.not_mem_decisionIds hfree decision.flowId
  have hread : (e'.store.instances.lookup decision.decisionId).bind decisionFromInstance =
      some decision := by
    rw [hinstances, AList.lookup_insert, Option.bind_some]
    exact decisionFromInstance_decisionInstance decision
  rw [decisionsForFlow_eq, decisionIds_recordDecisionNode hrun, if_pos rfl, insertSet, if_neg hnew,
    List.filterMap_append, filterMap_recordDecisionNode hrun hnew, ← decisionsForFlow_eq]
  simp [hread]

/-- The decisions of another flow. -/
theorem Consistent.decisionsForFlow_other (h : e.Consistent)
    (hrun : recordDecisionNode decision e = .ok () e') {flowId : Str}
    (hflow : flowId ≠ decision.flowId) :
    decisionsForFlow e' flowId = decisionsForFlow e flowId := by
  obtain ⟨hfree, -, -⟩ := recordDecisionNode_spec hrun
  have hnew := h.not_mem_decisionIds hfree flowId
  rw [decisionsForFlow_eq, decisionIds_recordDecisionNode hrun, if_neg hflow,
    filterMap_recordDecisionNode hrun hnew, ← decisionsForFlow_eq]

/-- After every sequence of operations, a decision that is recorded is read back with the decisions
of its flow, once and as it was, and nothing changes for the other flows. -/
theorem recordDecisionNode_readBack (as : List OntologyAction)
    (hrun : recordDecisionNode decision (as.foldl perform new) = .ok () e') :
    (decisionsForFlow e' decision.flowId).Perm
      (decision :: decisionsForFlow (as.foldl perform new) decision.flowId) ∧
    ∀ flowId, flowId ≠ decision.flowId →
      decisionsForFlow e' flowId = decisionsForFlow (as.foldl perform new) flowId := by
  have h : (as.foldl perform new).Consistent := consistent_new.foldl as
  refine ⟨?_, fun flowId hflow => h.decisionsForFlow_other hrun hflow⟩
  rw [h.decisionsForFlow_self hrun]
  exact List.perm_append_singleton _ _

end OntologyEngine

/-! ## One flow, and decisions on it -/

/-- The schema, a prediction, and the decisions that are recorded on it. -/
def ruled (decisions : List AuditDecision) : List OntologyAction :=
  [.registerObjectType {
      name := flowPredictionType
      primaryKey := "flow_id".toList
      propertySchemas := [⟨"flow_id".toList, .string⟩, ⟨"predicted_label".toList, .string⟩,
        ⟨"confidence_millis".toList, .integer⟩, ⟨"observed_at".toList, .integer⟩].toAList },
    .registerObjectType {
      name := auditDecisionType
      primaryKey := "decision_id".toList
      propertySchemas := [⟨"decision_id".toList, .string⟩, ⟨"flow_id".toList, .string⟩,
        ⟨"reviewer".toList, .string⟩, ⟨"verdict".toList, .string⟩, ⟨"rationale".toList, .string⟩,
        ⟨"decided_at".toList, .integer⟩].toAList },
    .registerLinkType ⟨reviewOfLink, auditDecisionType, flowPredictionType⟩,
    .createObjectInstance (predictionInstance (ReviewQueue.attack 0.97))] ++
  decisions.flatMap fun decision => [.createObjectInstance (decisionInstance decision),
    .createLink ⟨reviewOfLink, decision.decisionId, decision.flowId⟩]

/-- A decision of a human on the flow. -/
def ruling (decisionId : Str) (verdict : Verdict) : AuditDecision :=
  ⟨decisionId, "flow-1".toList, .human "alice".toList, verdict, "seen before".toList, 1700000002⟩

namespace OntologyEngine

/-- A second decision on the flow, after a first. -/
theorem recordDecisionNode_readBack_second :
    let earlier := (ruled [ruling "dec-1".toList .executeContainment]).foldl perform new
    ∃ e', recordDecisionNode (ruling "dec-2".toList .dismiss) earlier = .ok () e' ∧
      (decisionsForFlow e' "flow-1".toList).Perm
        (ruling "dec-2".toList .dismiss :: decisionsForFlow earlier "flow-1".toList) := by
  intro earlier
  obtain ⟨e', hrun⟩ : ∃ e', recordDecisionNode (ruling "dec-2".toList .dismiss) earlier =
      .ok () e' := exists_of_result (by decide +kernel)
  exact ⟨e', hrun, (recordDecisionNode_readBack _ hrun).1⟩

end OntologyEngine

/-! ## What the executor makes of them -/

/-- Some of the decisions authorize containment, and some do not. -/
def Disagree (decisions : List AuditDecision) : Prop :=
  (∃ d ∈ decisions, d.verdict = .executeContainment) ∧
    ∃ d ∈ decisions, d.verdict ≠ .executeContainment

/-- What is documented of an answer to the decisions on a flow. -/
structure ContainmentDecision.Documented (answer : ContainmentDecision)
    (decisions : List AuditDecision) : Prop where
  approved : ∀ id, answer = .approved id → ∀ d ∈ decisions, d.verdict = .executeContainment
  conflicting : (∃ ids, answer = .conflicting ids) ↔ Disagree decisions

namespace ContainmentExecutor

/-- The answer goes by the decisions that authorize containment: none, one, or more. -/
theorem check_eq (engine : OntologyEngine) (flowId : Str) : check engine flowId =
    match (decisionsForFlow engine flowId).filter
      fun d => decide (d.verdict = .executeContainment) with
    | [] => .notApproved
    | [d] => .approved d.decisionId
    | ds => .conflicting (ds.map (·.decisionId)) := by
  unfold check
  generalize (decisionsForFlow engine flowId).filter _ = contains
  match contains with
  | [] => rfl
  | [_] => rfl
  | _ :: _ :: _ => rfl

/-- On every audit graph, the answer is as it is documented if and only if no decision on the flow
authorizes containment, or there is one decision, or two authorize it and another does not. -/
theorem check_documented_iff (engine : OntologyEngine) (flowId : Str) :
    (check engine flowId).Documented (decisionsForFlow engine flowId) ↔
      (∀ d ∈ decisionsForFlow engine flowId, d.verdict ≠ .executeContainment) ∨
      (decisionsForFlow engine flowId).length = 1 ∨
      2 ≤ (decisionsForFlow engine flowId).countP (fun d => d.verdict = .executeContainment) ∧
        ∃ d ∈ decisionsForFlow engine flowId, d.verdict ≠ .executeContainment := by
  rw [check_eq, List.countP_eq_length_filter]
  generalize decisionsForFlow engine flowId = decisions
  cases hcontain : decisions.filter fun d => decide (d.verdict = .executeContainment) with
  | nil =>
    have hnone : ∀ d ∈ decisions, d.verdict ≠ .executeContainment := by
      simpa using hcontain
    refine iff_of_true ⟨nofun, iff_of_false nofun ?_⟩ (.inl hnone)
    rintro ⟨⟨d, hd, hverdict⟩, -⟩
    exact hnone d hd hverdict
  | cons d rest =>
    obtain ⟨hd, hverdict⟩ := List.mem_filter.mp (hcontain ▸ List.mem_cons_self)
    have hsome : ¬ ∀ d ∈ decisions, d.verdict ≠ .executeContainment :=
      fun hnone => hnone d hd (of_decide_eq_true hverdict)
    rw [or_iff_right hsome]
    cases rest with
    | nil =>
      -- it is approved, which is right only if there is no other decision
      rw [or_iff_left fun h => absurd h.1 (by simp)]
      constructor
      · intro hdocumented
        have hself : decisions.filter (fun d => decide (d.verdict = .executeContainment)) =
            decisions := List.filter_eq_self.mpr fun d' hd' =>
          decide_eq_true (hdocumented.approved _ rfl d' hd')
        rw [← hself, hcontain]
        rfl
      · intro hone
        obtain ⟨only, rfl⟩ := List.length_eq_one_iff.mp hone
        cases List.mem_singleton.mp hd
        have hall : ∀ d' ∈ [d], d'.verdict = .executeContainment := by
          simpa using hverdict
        refine ⟨fun _ _ => hall, iff_of_false nofun ?_⟩
        rintro ⟨-, d', hd', hother⟩
        exact hother (hall d' hd')
    | cons d' rest =>
      -- it is a conflict, which is right only if there is a decision that does not authorize
      have htwo : 2 ≤ (d :: d' :: rest).length := by simp
      have hmany : decisions.length ≠ 1 := by
        have hle := List.length_filter_le (fun d : AuditDecision =>
          decide (d.verdict = .executeContainment)) decisions
        rw [hcontain] at hle
        omega
      rw [or_iff_right hmany, and_iff_right htwo]
      constructor
      · exact fun hdocumented => (hdocumented.conflicting.mp ⟨_, rfl⟩).2
      · intro hother
        exact ⟨nofun, iff_of_true ⟨_, rfl⟩ ⟨⟨d, hd, of_decide_eq_true hverdict⟩, hother⟩⟩

/-- A dismissal does not keep a flow from being approved. -/
theorem not_check_documented : ¬ ∀ (engine : OntologyEngine) (flowId : Str),
    (check engine flowId).Documented (decisionsForFlow engine flowId) := by
  intro hclaim
  let engine := (ruled [ruling "dec-1".toList .executeContainment,
    ruling "dec-2".toList .dismiss]).foldl OntologyEngine.perform .new
  have happroved : check engine "flow-1".toList = .approved "dec-1".toList := by decide +kernel
  have hall := (hclaim engine "flow-1".toList).approved _ happroved
  exact absurd hall (by decide +kernel)

end ContainmentExecutor

end ActiveDefense.Siem
