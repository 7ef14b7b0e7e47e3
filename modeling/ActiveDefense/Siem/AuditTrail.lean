import ActiveDefense.Siem.ReviewQueue

/-!
# The decisions of a flow

An item that is closed names a decision, and the audit graph links that decision to the flow, and
no other. An item that is open has none. A sweep comes to each flow once, so the one that it closes
was still open.
-/

namespace ActiveDefense.Siem

/-! ## In the audit graph -/

/-- The ids of the decisions that are linked to a flow. -/
def OntologyEngine.decisionIds (e : OntologyEngine) (flowId : Str) : List Str :=
  (e.store.backwardIndex.lookup (flowId, reviewOfLink)).getD []

/-- The decisions of a flow in the audit graph are those that are named: none, or one. -/
def Recorded (e : OntologyEngine) (flowId : Str) : Option Str → Prop
  | none => e.decisionIds flowId = []
  | some id => e.decisionIds flowId = [id] ∧ ∃ decision, decision.decisionId = id ∧
      decision.flowId = flowId ∧ e.store.instances.lookup id = some (decisionInstance decision)

theorem decisionsForFlow_eq {e : OntologyEngine} {flowId : Str} :
    decisionsForFlow e flowId = (e.decisionIds flowId).filterMap fun id =>
      (e.store.instances.lookup id).bind decisionFromInstance := by
  rw [decisionsForFlow, OntologyEngine.traverse_incoming, List.filterMap_filterMap]
  rfl

/-- What the graph reads back for a flow without decisions. -/
theorem Recorded.decisionsForFlow_none {e : OntologyEngine} {flowId : Str}
    (h : Recorded e flowId none) : decisionsForFlow e flowId = [] := by
  rw [decisionsForFlow_eq, show e.decisionIds flowId = [] from h]
  rfl

/-- What the graph reads back for a flow with one decision. -/
theorem Recorded.decisionsForFlow_some {e : OntologyEngine} {flowId id : Str}
    (h : Recorded e flowId (some id)) : ∃ decision, decisionsForFlow e flowId = [decision] ∧
      decision.decisionId = id ∧ decision.flowId = flowId ∧
      e.store.instances.lookup id = some (decisionInstance decision) := by
  obtain ⟨hids, decision, hid, hflow, hnode⟩ := h
  refine ⟨decision, ?_, hid, hflow, hnode⟩
  rw [decisionsForFlow_eq, hids]
  simp [hnode, decisionFromInstance_decisionInstance]

/-- More instances change nothing for a flow. -/
theorem Recorded.mono {e e' : OntologyEngine} {flowId : Str} {named : Option Str}
    (h : Recorded e flowId named) (hids : e'.decisionIds flowId = e.decisionIds flowId)
    (hinstances : ∀ id inst, e.store.instances.lookup id = some inst →
      e'.store.instances.lookup id = some inst) : Recorded e' flowId named := by
  cases named with
  | none => exact hids.trans h
  | some id =>
    obtain ⟨hid, decision, hname, hflow, hnode⟩ := h
    exact ⟨hids.trans hid, decision, hname, hflow, hinstances _ _ hnode⟩

/-- A prediction changes nothing for any flow. -/
theorem Recorded.recordPrediction {φ : Type} [FloatArith φ] {pred : FlowPrediction φ}
    {e e' : OntologyEngine} (h : Siem.recordPrediction pred e = .ok () e') {flowId : Str}
    {named : Option Str} (hrecorded : Recorded e flowId named) : Recorded e' flowId named := by
  obtain ⟨hnew, inst, rfl⟩ := recordPrediction_spec h
  exact hrecorded.mono rfl fun _ _ hid => Table.lookup_insert_of_not_mem hnew hid

/-- A decision changes nothing for another flow. -/
theorem Recorded.recordDecisionNode_of_ne {decision : AuditDecision} {e e' : OntologyEngine}
    (h : recordDecisionNode decision e = .ok () e') {flowId : Str} {named : Option Str}
    (hne : flowId ≠ decision.flowId) (hrecorded : Recorded e flowId named) :
    Recorded e' flowId named := by
  obtain ⟨hnew, hinstances, hindex⟩ := recordDecisionNode_spec h
  refine hrecorded.mono ?_ fun id inst hid => ?_
  · unfold OntologyEngine.decisionIds
    rw [hindex, AList.lookup_insert_ne]
    simp [hne]
  · rw [hinstances]
    exact Table.lookup_insert_of_not_mem hnew hid

/-- The first decision of a flow is its only one. -/
theorem Recorded.recordDecisionNode {decision : AuditDecision} {e e' : OntologyEngine}
    (h : Siem.recordDecisionNode decision e = .ok () e')
    (hrecorded : Recorded e decision.flowId none) :
    Recorded e' decision.flowId (some decision.decisionId) := by
  obtain ⟨hnew, hinstances, hindex⟩ := recordDecisionNode_spec h
  refine ⟨?_, decision, rfl, rfl, ?_⟩
  · have hnone : e.decisionIds decision.flowId = [] := hrecorded
    unfold OntologyEngine.decisionIds at hnone ⊢
    rw [hindex, AList.lookup_insert, hnone]
    rfl
  · rw [hinstances, AList.lookup_insert]

/-- The executor goes by the one decision that a flow has. -/
theorem Recorded.check_some {e : OntologyEngine} {flowId id : Str}
    (h : Recorded e flowId (some id)) : ∃ decision : AuditDecision,
      decision.decisionId = id ∧ decision.flowId = flowId ∧
      e.store.instances.lookup id = some (decisionInstance decision) ∧
      ContainmentExecutor.check e flowId =
        if decision.verdict = .executeContainment then .approved id else .notApproved := by
  obtain ⟨decision, hone, rfl, hflow, hnode⟩ := h.decisionsForFlow_some
  refine ⟨decision, rfl, hflow, hnode, ?_⟩
  unfold ContainmentExecutor.check
  rw [hone]
  by_cases hverdict : decision.verdict = .executeContainment <;> simp [hverdict]

/-! ## In the queue -/

variable {φ : Type}

namespace ReviewQueue

/-- The decision that the item of a flow names. -/
def named (q : ReviewQueue φ) (flowId : Str) : Option Str :=
  (q.items.lookup flowId).bind (·.state.decisionId)

/-- The audit graph holds the decisions that the items name, and no others for any flow. -/
def AuditTrail (q : ReviewQueue φ) : Prop := ∀ flowId, Recorded q.engine flowId (q.named flowId)

theorem named_insert {q q' : ReviewQueue φ} {flowId : Str} {item : QueueItem φ}
    (h : q'.items = q.items.insert flowId item) (flowId' : Str) :
    q'.named flowId' = if flowId' = flowId then item.state.decisionId else q.named flowId' := by
  unfold named
  rw [h]
  split
  · next heq =>
    rw [heq, AList.lookup_insert]
    rfl
  · next hne => rw [AList.lookup_insert_ne hne]

/-- An item that stays open. -/
theorem AuditTrail.reopen {q q' : ReviewQueue φ} (hq : q.AuditTrail) {flowId : Str}
    {item : QueueItem φ} (hengine : q'.engine = q.engine)
    (hitems : q'.items = q.items.insert flowId item) (hnamed : q.named flowId = none)
    (hitem : item.state.decisionId = none) : q'.AuditTrail := by
  intro flowId'
  rw [hengine, named_insert hitems]
  split
  · next heq =>
    rw [hitem, heq, ← hnamed]
    exact hq flowId
  · exact hq flowId'

/-- An item that is closed. -/
theorem AuditTrail.close {q q' : ReviewQueue φ} (hq : q.AuditTrail) {decision : AuditDecision}
    {item : QueueItem φ} (hnode : recordDecisionNode decision q.engine = .ok () q'.engine)
    (hitems : q'.items = q.items.insert decision.flowId item)
    (hnamed : q.named decision.flowId = none)
    (hitem : item.state.decisionId = some decision.decisionId) : q'.AuditTrail := by
  intro flowId
  rw [named_insert hitems]
  split
  · next heq =>
    rw [hitem, heq]
    have hrecorded := hq decision.flowId
    rw [hnamed] at hrecorded
    exact hrecorded.recordDecisionNode hnode
  · next hne => exact (hq flowId).recordDecisionNode_of_ne hnode hne

/-- What an open item names. -/
theorem named_of_isOpen {q : ReviewQueue φ} {flowId : Str} {item : QueueItem φ}
    (hitem : q.items.lookup flowId = some item) (hopen : item.state.isOpen = true) :
    q.named flowId = none := by
  unfold named
  rw [hitem]
  show item.state.decisionId = none
  cases hstate : item.state <;> simp_all [ReviewState.isOpen, ReviewState.decisionId]

theorem AuditTrail.resolve {q q' : ReviewQueue φ} (hq : q.AuditTrail) {flowId rationale : Str}
    {item : QueueItem φ} {reviewer : Reviewer} {verdict : Verdict} {decidedAt : Timestamp}
    {decision : AuditDecision}
    (h : ReviewQueue.resolve flowId item reviewer verdict rationale decidedAt q = .ok decision q')
    (hnamed : q.named flowId = none) : q'.AuditTrail := by
  obtain ⟨id, engine, rfl, hnode, rfl⟩ := resolve_spec h
  exact hq.close hnode rfl hnamed rfl

/-- A flow that a sweep finds expired has an item, which is open. -/
theorem named_of_mem_expiredFlowIds {q : ReviewQueue φ} {now slaSeconds : Timestamp} {flowId : Str}
    (h : flowId ∈ q.expiredFlowIds now slaSeconds) : q.named flowId = none := by
  obtain ⟨⟨id, item⟩, hmem, rfl⟩ := List.mem_map.mp h
  obtain ⟨hentry, hexpired⟩ := List.mem_filter.mp hmem
  have hopen : item.state.isOpen = true := (Bool.and_eq_true _ _ ▸ hexpired).1
  exact named_of_isOpen (AList.mem_lookup_iff.mpr hentry) hopen

theorem nodup_expiredFlowIds {q : ReviewQueue φ} {now slaSeconds : Timestamp} :
    (q.expiredFlowIds now slaSeconds).Nodup :=
  (q.items.nodupKeys.sublist List.filter_sublist : (List.NodupKeys _))

/-- A sweep closes each of its flows while it is open. -/
theorem AuditTrail.sweepItems [FloatArith φ] {slaSeconds : Timestamp}
    {order : List (Str × Timestamp)} {resolutions : List (SlaResolution φ)} {q q' : ReviewQueue φ}
    (hq : q.AuditTrail) (hnodup : (order.map Prod.fst).Nodup)
    (hnamed : ∀ flowId ∈ order.map Prod.fst, q.named flowId = none)
    (h : ReviewQueue.sweepItems slaSeconds order q = .ok resolutions q') : q'.AuditTrail := by
  induction order generalizing q resolutions with
  | nil =>
    cases h
    exact hq
  | cons entry rest ih =>
    obtain ⟨flowId, decidedAt⟩ := entry
    obtain ⟨hnew, hrest⟩ := List.nodup_cons.mp hnodup
    unfold ReviewQueue.sweepItems at h
    simp only [get_bind_run] at h
    cases hitem : q.items.lookup flowId with
    | none =>
      rw [hitem] at h
      exact ih hq hrest (fun id hid => hnamed id (List.mem_cons_of_mem _ hid)) h
    | some item =>
      rw [hitem] at h
      obtain ⟨decision, q₁, hresolve, h⟩ := exists_of_bind_ok h
      obtain ⟨tail, q₂, hsweep, h⟩ := exists_of_bind_ok h
      cases h
      have hq₁ := hq.resolve hresolve (hnamed flowId (.head _))
      refine ih hq₁ hrest (fun id hid => ?_) hsweep
      obtain ⟨_, _, -, -, rfl⟩ := resolve_spec hresolve
      rw [named_insert rfl, if_neg]
      · exact hnamed id (List.mem_cons_of_mem _ hid)
      · rintro rfl
        exact hnew hid

theorem AuditTrail.claim {flowId reviewer : Str} {claimedAt : Timestamp} {q q' : ReviewQueue φ}
    (hq : q.AuditTrail) (h : ReviewQueue.claim flowId reviewer claimedAt q = .ok () q') :
    q'.AuditTrail := by
  obtain ⟨item, reason, hitem, hstate, rfl⟩ := claim_spec h
  refine hq.reopen rfl rfl (named_of_isOpen hitem ?_) rfl
  rw [hstate]
  rfl

theorem AuditTrail.recordDecision {flowId reviewer rationale : Str} {verdict : Verdict}
    {decidedAt : Timestamp} {decision : AuditDecision} {q q' : ReviewQueue φ} (hq : q.AuditTrail)
    (h : ReviewQueue.recordDecision flowId reviewer verdict rationale decidedAt q =
      .ok decision q') : q'.AuditTrail := by
  obtain ⟨item, hitem, hopen, hresolve⟩ := recordDecision_spec h
  exact hq.resolve hresolve (named_of_isOpen hitem hopen)

variable [FloatArith φ]

theorem AuditTrail.ingest {prediction : FlowPrediction φ} {enqueuedAt : Timestamp}
    {outcome : IngestOutcome} {q q' : ReviewQueue φ} (hq : q.AuditTrail)
    (h : ReviewQueue.ingest prediction enqueuedAt q = .ok outcome q') : q'.AuditTrail := by
  obtain ⟨hnew, engine, hpred, hspec⟩ := ingest_spec h
  have hnamed : q.named prediction.flowId = none := by
    rw [named, AList.lookup_eq_none.mpr hnew]
    rfl
  have hpredicted : AuditTrail { q with engine := engine } :=
    fun flowId => (hq flowId).recordPrediction hpred
  cases htrigger : ReviewTrigger.evaluate prediction q.triggerCfg with
  | none =>
    rw [htrigger] at hspec
    obtain ⟨decision, engine', hnode, hflow, -, -, rfl⟩ := hspec
    have hitem : (⟨prediction, .autoResolved decision.decisionId, enqueuedAt⟩ :
        QueueItem φ).state.decisionId = some decision.decisionId := rfl
    refine hpredicted.close hnode ?_ ?_ hitem
    · rw [hflow]
    · rw [hflow]
      exact hnamed
  | some reason =>
    rw [htrigger] at hspec
    obtain ⟨-, rfl⟩ := hspec
    exact hpredicted.reopen rfl rfl hnamed rfl

/-- What an operation leaves where the audit graph does not refuse. -/
theorem AuditTrail.step {q q' : ReviewQueue φ} {a : ReviewAction φ} (hq : q.AuditTrail)
    (hstore : NoStoreError q a) (h : Step q a q') : q'.AuditTrail := by
  obtain ⟨hallowed, rfl⟩ := h
  unfold NoStoreError at hstore
  cases hrun : a.exec q with
  | error e t =>
    rw [hrun] at hstore
    rcases ReviewAction.exec_error hrun with ⟨error, rfl⟩ | rfl
    · exact absurd hstore id
    · exact hq
  | ok _ t =>
    show t.AuditTrail
    cases a with
    | ingest prediction enqueuedAt =>
      obtain ⟨outcome, h⟩ := exists_of_discard_ok hrun
      exact hq.ingest h
    | claim flowId reviewer claimedAt => exact hq.claim hrun
    | recordDecision flowId reviewer verdict rationale decidedAt =>
      obtain ⟨decision, h⟩ := exists_of_discard_ok hrun
      exact hq.recordDecision h
    | sweepExpired now slaSeconds order =>
      obtain ⟨resolutions, h⟩ := exists_of_discard_ok hrun
      have hperm : (order.map Prod.fst).Perm (q.expiredFlowIds now slaSeconds) := hallowed
      refine hq.sweepItems (hperm.nodup_iff.mpr nodup_expiredFlowIds) (fun id hid => ?_) h
      exact named_of_mem_expiredFlowIds (hperm.mem_iff.mp hid)

omit [FloatArith φ] in
theorem auditTrail_new {triggerCfg : TriggerConfig φ} {slaPolicy : SlaPolicy} {q : ReviewQueue φ}
    (h : new triggerCfg slaPolicy = .ok q) : q.AuditTrail := by
  rw [new_eq] at h
  cases h
  exact fun flowId => rfl

/-- What the audit graph says of the item of a flow: an item that is closed has one decision, the
one that it names, and containment is approved if and only if that is its verdict; an item that is
open has none. -/
def Audited (q : ReviewQueue φ) (flowId : Str) (item : QueueItem φ) : Prop :=
  match item.state.decisionId with
  | some id => ∃ decision, decisionsForFlow q.engine flowId = [decision] ∧
      decision.decisionId = id ∧ decision.flowId = flowId ∧
      q.containmentDecision flowId =
        if decision.verdict = .executeContainment then .approved id else .notApproved
  | none => decisionsForFlow q.engine flowId = [] ∧ q.containmentDecision flowId = .notApproved

omit [FloatArith φ] in
theorem AuditTrail.audited {q : ReviewQueue φ} (hq : q.AuditTrail) {flowId : Str}
    {item : QueueItem φ} (hitem : q.items.lookup flowId = some item) : q.Audited flowId item := by
  have hrecorded := hq flowId
  have hnamed : q.named flowId = item.state.decisionId := by
    rw [named, hitem]
    rfl
  rw [hnamed] at hrecorded
  unfold Audited containmentDecision ContainmentExecutor.check
  cases hid : item.state.decisionId with
  | none =>
    rw [hid] at hrecorded
    have hnone := hrecorded.decisionsForFlow_none
    exact ⟨hnone, by rw [hnone]; rfl⟩
  | some id =>
    rw [hid] at hrecorded
    obtain ⟨decision, hone, rfl, hflow, -⟩ := hrecorded.decisionsForFlow_some
    refine ⟨decision, hone, rfl, hflow, ?_⟩
    rw [hone]
    by_cases hverdict : decision.verdict = .executeContainment <;> simp [hverdict]

omit [FloatArith φ] in
/-- What is approved, a decision in the audit graph has approved. -/
theorem AuditTrail.exists_of_approved {q : ReviewQueue φ} (h : q.AuditTrail) {flowId id : Str}
    (happroved : q.containmentDecision flowId = .approved id) : ∃ decision : AuditDecision,
      decision.decisionId = id ∧ decision.flowId = flowId ∧
      q.engine.store.instances.lookup id = some (decisionInstance decision) ∧
      decision.verdict = .executeContainment := by
  have hrecorded := h flowId
  unfold containmentDecision at happroved
  cases hnamed : q.named flowId with
  | none =>
    rw [hnamed] at hrecorded
    rw [ContainmentExecutor.check, hrecorded.decisionsForFlow_none] at happroved
    cases happroved
  | some id' =>
    rw [hnamed] at hrecorded
    obtain ⟨decision, hid, hflow, hnode, hcheck⟩ := hrecorded.check_some
    rw [hcheck] at happroved
    split at happroved
    · next hverdict =>
      cases happroved
      exact ⟨decision, hid, hflow, hnode, hverdict⟩
    · cases happroved

/-- In every run in which the audit graph refuses nothing, it holds for each item the decision that
the item names, and nothing else. -/
theorem audited_of_run {triggerCfg : TriggerConfig φ} {slaPolicy : SlaPolicy}
    {start q : ReviewQueue φ} {as : List (ReviewAction φ)}
    (hnew : new triggerCfg slaPolicy = .ok start) (h : Run Step NoStoreError start as q)
    {flowId : Str} {item : QueueItem φ} (hitem : q.items.lookup flowId = some item) :
    q.Audited flowId item := by
  have htrail : q.AuditTrail :=
    h.invariant (auditTrail_new hnew) fun _ _ _ hq hstore hstep => hq.step hstore hstep
  exact htrail.audited hitem

/-- One prediction is contained at once, one by a reviewer, and one waits until a sweep. -/
def threeFlows : List (ReviewAction Float) :=
  let prediction (flowId : Str) (confidence : Float) : FlowPrediction Float :=
    ⟨flowId, "DenialOfService".toList, confidence, none, none, false, 1700000000⟩
  [.ingest (prediction "flow-1".toList 0.97) 1700000001,
    .ingest (prediction "flow-2".toList 0.5) 1700000002,
    .claim "flow-2".toList "alice".toList 1700000003,
    .ingest (prediction "flow-3".toList 0.6) 1700000004,
    .claim "flow-1".toList "alice".toList 1700000005,
    .recordDecision "flow-2".toList "alice".toList .executeContainment "beaconing".toList
      1700000006,
    .sweepExpired 1700004000 3600 [("flow-3".toList, 1700004001)]]

theorem audited_of_run_threeFlows : ∃ q : ReviewQueue Float,
    Run Step NoStoreError (initial .default .failSafe) threeFlows q ∧
    (∃ item, q.items.lookup "flow-2".toList = some item ∧
      item.state = .resolved "dec-flow-2-1".toList ∧ q.Audited "flow-2".toList item) ∧
    ∃ item, q.items.lookup "flow-3".toList = some item ∧
      item.state = .resolved "dec-flow-3-2".toList ∧ q.Audited "flow-3".toList item := by
  have hend : (threeFlows.foldlM next (initial .default .failSafe)).any (fun q => decide
      ((q.items.lookup "flow-2".toList).map (·.state) = some (.resolved "dec-flow-2-1".toList) ∧
        (q.items.lookup "flow-3".toList).map (·.state) =
          some (.resolved "dec-flow-3-2".toList))) = true := by
    decide +kernel
  obtain ⟨q, hrun, htwo, hthree⟩ := Run.exists_of_any (fun _ _ _ h => next_spec h) hend
  obtain ⟨item, hitem, hstate⟩ := Option.map_eq_some_iff.mp htwo
  obtain ⟨item', hitem', hstate'⟩ := Option.map_eq_some_iff.mp hthree
  exact ⟨q, hrun, ⟨item, hitem, hstate, audited_of_run (new_eq _ _) hrun hitem⟩,
    item', hitem', hstate', audited_of_run (new_eq _ _) hrun hitem'⟩

end ReviewQueue

end ActiveDefense.Siem
