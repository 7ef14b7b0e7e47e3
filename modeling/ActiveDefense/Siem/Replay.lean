import ActiveDefense.Siem.QueueHistory
import ActiveDefense.Siem.Store

/-!
# The replay of a saved queue

The ids of a sound queue's flows and decisions are all different, and each decision is that of an
item. So a replay of its items and decisions into a new graph refuses nothing, whatever the order of
the maps, and what comes out is a sound queue with the same decisions. Only a prediction without an
item is not replayed.
-/

namespace ActiveDefense.Siem.ReviewQueue

variable {φ : Type}

/-- Items and decisions that belong together: an item that is closed names its decision, and the ids
of flows and decisions are all different. -/
structure Coherent (items : Table Str (QueueItem φ)) (decisions : Table Str AuditDecision) :
    Prop where
  flow : ∀ flowId item, items.lookup flowId = some item → item.prediction.flowId = flowId
  named : ∀ flowId item id, items.lookup flowId = some item → item.state.decisionId = some id →
    ∃ decision, decisions.lookup id = some decision ∧ decision.flowId = flowId
  decided : ∀ id decision, decisions.lookup id = some decision → decision.decisionId = id ∧
    ∃ item, items.lookup decision.flowId = some item ∧ item.state.decisionId = some id
  apart : ∀ id ∈ decisions, id ∉ items

/-- The order of the maps does not matter. -/
theorem Coherent.congr {items items' : Table Str (QueueItem φ)}
    {decisions decisions' : Table Str AuditDecision} (h : Coherent items decisions)
    (hitems : ∀ flowId, items'.lookup flowId = items.lookup flowId)
    (hdecisions : ∀ id, decisions'.lookup id = decisions.lookup id) :
    Coherent items' decisions' := by
  refine ⟨fun flowId item hitem => ?_, fun flowId item id hitem hstate => ?_,
    fun id decision hdecision => ?_, fun id hid hmem => ?_⟩
  · rw [hitems] at hitem
    exact h.flow flowId item hitem
  · rw [hitems] at hitem
    simp only [hdecisions]
    exact h.named flowId item id hitem hstate
  · rw [hdecisions] at hdecision
    simp only [hitems]
    exact h.decided id decision hdecision
  · rw [Table.mem_iff_lookup, hdecisions, ← Table.mem_iff_lookup] at hid
    rw [Table.mem_iff_lookup, hitems, ← Table.mem_iff_lookup] at hmem
    exact h.apart id hid hmem

variable [FloatArith φ]

/-! ## What is saved of a sound queue -/

omit [FloatArith φ] in
theorem lookup_collect {decisions : List AuditDecision} {t : Table Str AuditDecision} {id : Str}
    {decision : AuditDecision} :
    (decisions.foldl (fun t d => t.insert d.decisionId d) t).lookup id = some decision →
      (decision ∈ decisions ∧ decision.decisionId = id) ∨ t.lookup id = some decision := by
  induction decisions generalizing t with
  | nil => exact .inr
  | cons d rest ih =>
    intro h
    rcases ih h with ⟨hmem, hid⟩ | hold
    · exact .inl ⟨List.mem_cons_of_mem _ hmem, hid⟩
    · by_cases hid : id = d.decisionId
      · rw [hid, AList.lookup_insert] at hold
        cases hold
        exact .inl ⟨.head _, hid.symm⟩
      · exact .inr ((AList.lookup_insert_ne hid).symm.trans hold)

omit [FloatArith φ] in
theorem mem_collect {decisions : List AuditDecision} {t : Table Str AuditDecision} {id : Str}
    (h : (∃ d ∈ decisions, d.decisionId = id) ∨ id ∈ t) :
    id ∈ decisions.foldl (fun t d => t.insert d.decisionId d) t := by
  induction decisions generalizing t with
  | nil =>
    rcases h with ⟨d, hd, -⟩ | h
    · cases hd
    · exact h
  | cons d rest ih =>
    refine ih ?_
    rcases h with ⟨d', hd', hid⟩ | h
    · rcases List.mem_cons.mp hd' with rfl | hd'
      · exact .inr ((AList.mem_insert _).mpr (.inl hid.symm))
      · exact .inl ⟨d', hd', hid⟩
    · exact .inr ((AList.mem_insert _).mpr (.inr h))

/-- The decisions of a snapshot are those in the audit graph. -/
theorem Sound.lookup_snapshotDecisions {q : ReviewQueue φ} (h : q.Sound) {id : Str}
    {decision : AuditDecision} : q.snapshotDecisions.lookup id = some decision ↔
      q.engine.store.instances.lookup id = some (decisionInstance decision) := by
  unfold snapshotDecisions
  constructor
  · intro hlookup
    rcases lookup_collect hlookup with ⟨hmem, rfl⟩ | hempty
    · exact h.graph.mem_allDecisions.mp hmem
    · cases hempty
  · intro hnode
    obtain rfl := h.graph.decisionId_eq hnode
    have hin := mem_collect (t := ∅) (.inl ⟨decision, h.graph.mem_allDecisions.mpr hnode, rfl⟩)
    obtain ⟨decision', hlookup⟩ := Table.mem_iff_lookup.mp hin
    rw [hlookup]
    rcases lookup_collect hlookup with ⟨hmem, hid⟩ | hempty
    · have hnode' := h.graph.mem_allDecisions.mp hmem
      rw [hid, hnode] at hnode'
      exact congrArg some (decisionInstance_injective (Option.some.inj hnode')).symm
    · cases hempty

/-- What a sound queue saves belongs together. -/
theorem Sound.coherent {q : ReviewQueue φ} (h : q.Sound) :
    Coherent q.items q.snapshotDecisions := by
  refine ⟨fun flowId item hitem => (h.predicted flowId item hitem).1,
    fun flowId item id hitem hstate => ?_, fun id decision hdecision => ?_, fun id hid hmem => ?_⟩
  · have hrecorded := h.trail flowId
    rw [show q.named flowId = some id by rw [named, hitem]; exact hstate] at hrecorded
    obtain ⟨-, decision, -, hflow, hnode⟩ := hrecorded
    exact ⟨decision, h.lookup_snapshotDecisions.mpr hnode, hflow⟩
  · have hnode := h.lookup_snapshotDecisions.mp hdecision
    exact ⟨h.graph.decisionId_eq hnode, Option.bind_eq_some_iff.mp (h.decided id decision hnode)⟩
  · obtain ⟨decision, hdecision⟩ := Table.mem_iff_lookup.mp hid
    obtain ⟨item, hitem⟩ := Table.mem_iff_lookup.mp hmem
    have hnode := (h.predicted id item hitem).2
    rw [h.lookup_snapshotDecisions.mp hdecision] at hnode
    exact absurd (Option.some.inj hnode).symm predictionInstance_ne_decisionInstance

/-! ## The replay -/

/-- The graph that the replay has made of predictions and decisions. -/
structure Replayed (predictions : List (FlowPrediction φ)) (decisions : List AuditDecision)
    (e : OntologyEngine) : Prop where
  graph : AuditGraph e
  node : ∀ id inst, e.store.instances.lookup id = some inst ↔
    (∃ p ∈ predictions, p.flowId = id ∧ inst = predictionInstance p) ∨
      ∃ d ∈ decisions, d.decisionId = id ∧ inst = decisionInstance d
  undecided : ∀ flowId, (∀ d ∈ decisions, d.flowId ≠ flowId) → Recorded e flowId none
  decided : ∀ d ∈ decisions, Recorded e d.flowId (some d.decisionId)

theorem replayed_registered : Replayed (φ := φ) [] [] registered where
  graph := auditGraph_registered
  node _ _ := ⟨nofun, by simp⟩
  undecided _ _ := rfl
  decided := nofun

theorem Replayed.mem {predictions : List (FlowPrediction φ)} {decisions : List AuditDecision}
    {e : OntologyEngine} (h : Replayed predictions decisions e) {id : Str} :
    id ∈ e.store.instances ↔
      (∃ p ∈ predictions, p.flowId = id) ∨ ∃ d ∈ decisions, d.decisionId = id := by
  rw [Table.mem_iff_lookup]
  constructor
  · rintro ⟨inst, hinst⟩
    rcases (h.node id inst).mp hinst with ⟨p, hp, hid, -⟩ | ⟨d, hd, hid, -⟩
    · exact .inl ⟨p, hp, hid⟩
    · exact .inr ⟨d, hd, hid⟩
  · rintro (⟨p, hp, hid⟩ | ⟨d, hd, hid⟩)
    · exact ⟨_, (h.node id _).mpr (.inl ⟨p, hp, hid, rfl⟩)⟩
    · exact ⟨_, (h.node id _).mpr (.inr ⟨d, hd, hid, rfl⟩)⟩

/-- A prediction of a flow that is new. -/
theorem Replayed.predict {predictions : List (FlowPrediction φ)} {e : OntologyEngine}
    (h : Replayed predictions [] e) {prediction : FlowPrediction φ}
    (hnew : ∀ p ∈ predictions, p.flowId ≠ prediction.flowId) :
    ∃ e', recordPrediction prediction e = .ok () e' ∧
      Replayed (predictions ++ [prediction]) [] e' := by
  have hfree : prediction.flowId ∉ e.store.instances := by
    rw [h.mem]
    rintro (⟨p, hp, hid⟩ | ⟨d, hd, -⟩)
    · exact hnew p hp hid
    · cases hd
  have hrun := h.graph.recordPrediction_run prediction
  rw [if_neg hfree] at hrun
  obtain ⟨hgraph, hinstances⟩ := h.graph.recordPrediction hrun
  refine ⟨_, hrun, hgraph, fun id inst => ?_, fun flowId _ => ?_, nofun⟩
  · rw [hinstances]
    by_cases hid : id = prediction.flowId
    · rw [hid, AList.lookup_insert]
      constructor
      · rintro ⟨⟩
        exact .inl ⟨prediction, by simp, rfl, rfl⟩
      · rintro (⟨p, hp, hflow, rfl⟩ | ⟨d, hd, -⟩)
        · rcases List.mem_append.mp hp with hp | hp
          · exact absurd hflow (hnew p hp)
          · cases List.mem_singleton.mp hp
            rfl
        · cases hd
    · rw [AList.lookup_insert_ne hid, h.node]
      simp only [List.mem_append, List.mem_singleton]
      constructor
      · rintro (⟨p, hp, hp'⟩ | ⟨d, hd, -⟩)
        · exact .inl ⟨p, .inl hp, hp'⟩
        · cases hd
      · rintro (⟨p, hp | rfl, hflow, hinst⟩ | ⟨d, hd, -⟩)
        · exact .inl ⟨p, hp, hflow, hinst⟩
        · exact absurd hflow.symm hid
        · cases hd
  · exact (h.undecided flowId nofun).recordPrediction hrun

/-- A decision on a flow that is there and has none, under an id that is new. -/
theorem Replayed.decide {predictions : List (FlowPrediction φ)} {decisions : List AuditDecision}
    {e : OntologyEngine} (h : Replayed predictions decisions e) {decision : AuditDecision}
    (hflow : ∃ p ∈ predictions, p.flowId = decision.flowId)
    (hfree : ∀ p ∈ predictions, p.flowId ≠ decision.decisionId)
    (hnew : ∀ d ∈ decisions, d.decisionId ≠ decision.decisionId ∧ d.flowId ≠ decision.flowId) :
    ∃ e', recordDecisionNode decision e = .ok () e' ∧
      Replayed predictions (decisions ++ [decision]) e' := by
  have hfree' : decision.decisionId ∉ e.store.instances := by
    rw [h.mem]
    rintro (⟨p, hp, hid⟩ | ⟨d, hd, hid⟩)
    · exact hfree p hp hid
    · exact (hnew d hd).1 hid
  obtain ⟨p, hp, hpflow⟩ := hflow
  have hrun := h.graph.recordDecisionNode_run decision
    ((h.node _ _).mpr (.inl ⟨p, hp, hpflow, rfl⟩)) rfl
  rw [if_neg hfree'] at hrun
  obtain ⟨e', hrun⟩ := hrun
  obtain ⟨-, hinstances, -⟩ := recordDecisionNode_spec hrun
  refine ⟨e', hrun, h.graph.recordDecisionNode hrun, fun id inst => ?_, fun flowId hother => ?_,
    fun d hd => ?_⟩
  · rw [hinstances]
    by_cases hid : id = decision.decisionId
    · rw [hid, AList.lookup_insert]
      constructor
      · rintro ⟨⟩
        exact .inr ⟨decision, by simp, rfl, rfl⟩
      · rintro (⟨p', hp', hid', -⟩ | ⟨d, hd, hid', rfl⟩)
        · exact absurd hid' (hfree p' hp')
        · rcases List.mem_append.mp hd with hd | hd
          · exact absurd hid' (hnew d hd).1
          · cases List.mem_singleton.mp hd
            rfl
    · rw [AList.lookup_insert_ne hid, h.node]
      refine or_congr_right ⟨?_, ?_⟩
      · rintro ⟨d, hd, hd'⟩
        exact ⟨d, List.mem_append_left _ hd, hd'⟩
      · rintro ⟨d, hd, hid', hinst⟩
        rcases List.mem_append.mp hd with hd | hd
        · exact ⟨d, hd, hid', hinst⟩
        · cases List.mem_singleton.mp hd
          exact absurd hid'.symm hid
  · have hne := hother decision (by simp)
    exact (h.undecided flowId fun d hd => hother d (List.mem_append_left _ hd)).recordDecisionNode_of_ne
      hrun hne.symm
  · rcases List.mem_append.mp hd with hd | hd
    · exact (h.decided d hd).recordDecisionNode_of_ne hrun (hnew d hd).2
    · cases List.mem_singleton.mp hd
      exact (h.undecided decision.flowId fun d hd => (hnew d hd).2).recordDecisionNode hrun

/-- The items as the replay comes to them, and the decisions. -/
abbrev orderedItems (items : Table Str (QueueItem φ)) : List (QueueItem φ) :=
  (items.entries.map (·.2)).insertionSort fun a b => a.enqueuedAt ≤ b.enqueuedAt

abbrev orderedDecisions (decisions : Table Str AuditDecision) : List AuditDecision :=
  (decisions.entries.map (·.2)).insertionSort fun a b => a.decidedAt ≤ b.decidedAt

omit [FloatArith φ] in
theorem mem_orderedItems {items : Table Str (QueueItem φ)} {item : QueueItem φ} :
    item ∈ orderedItems items ↔ ∃ flowId, items.lookup flowId = some item :=
  (List.perm_insertionSort _ _).mem_iff.trans Table.mem_values

theorem mem_orderedDecisions {decisions : Table Str AuditDecision} {decision : AuditDecision} :
    decision ∈ orderedDecisions decisions ↔ ∃ id, decisions.lookup id = some decision :=
  (List.perm_insertionSort _ _).mem_iff.trans Table.mem_values

/-- The predictions are all replayed. -/
theorem Coherent.replay_items {items : Table Str (QueueItem φ)}
    {decisions : Table Str AuditDecision} (h : Coherent items decisions) :
    ∃ e, (orderedItems items).forM (fun item => recordPrediction item.prediction) registered =
        .ok ⟨⟩ e ∧ Replayed ((orderedItems items).map (·.prediction)) [] e := by
  have hnodup : ((orderedItems items).map fun item => item.prediction.flowId).Nodup := by
    refine (((List.perm_insertionSort _ _).map _).nodup_iff).mpr ?_
    exact Table.nodup_map_values h.flow
  refine exists_of_forM (I := fun (done : List (QueueItem φ)) e =>
    Replayed (done.map (·.prediction)) [] e) replayed_registered ?_
  intro done item rest e has he
  rw [has, List.map_append, List.map_cons, List.nodup_append] at hnodup
  simp only [List.map_append, List.map_cons, List.map_nil]
  refine he.predict fun p hp => ?_
  obtain ⟨item', hitem', rfl⟩ := List.mem_map.mp hp
  exact hnodup.2.2 _ (List.mem_map_of_mem hitem') _ (.head _)

/-- The decisions are all replayed. -/
theorem Coherent.replay_decisions {items : Table Str (QueueItem φ)}
    {decisions : Table Str AuditDecision} (h : Coherent items decisions) {e : OntologyEngine}
    (he : Replayed ((orderedItems items).map (·.prediction)) [] e) :
    ∃ e', (orderedDecisions decisions).forM recordDecisionNode e = .ok ⟨⟩ e' ∧
      Replayed ((orderedItems items).map (·.prediction)) (orderedDecisions decisions) e' := by
  have hmem : ∀ d ∈ orderedDecisions decisions, decisions.lookup d.decisionId = some d := by
    intro d hd
    obtain ⟨id, hid⟩ := mem_orderedDecisions.mp hd
    rw [(h.decided id d hid).1]
    exact hid
  have hpredicted : ∀ p ∈ (orderedItems items).map (·.prediction), p.flowId ∈ items := by
    intro p hp
    obtain ⟨item, hitem, rfl⟩ := List.mem_map.mp hp
    obtain ⟨flowId, hflow⟩ := mem_orderedItems.mp hitem
    rw [h.flow flowId item hflow]
    exact Table.mem_iff_lookup.mpr ⟨item, hflow⟩
  have hnodup : ((orderedDecisions decisions).map (·.decisionId)).Nodup := by
    refine (((List.perm_insertionSort _ _).map _).nodup_iff).mpr ?_
    exact Table.nodup_map_values fun id d hid => (h.decided id d hid).1
  refine exists_of_forM he ?_
  intro done d rest e has he
  have hd := hmem d (by rw [has]; simp)
  obtain ⟨-, item, hitem, hstate⟩ := h.decided _ d hd
  rw [has, List.map_append, List.map_cons, List.nodup_append] at hnodup
  refine he.decide ?_ (fun p hp hid => ?_) fun d' hd' => ?_
  · exact ⟨item.prediction, List.mem_map_of_mem (mem_orderedItems.mpr ⟨_, hitem⟩),
      h.flow _ item hitem⟩
  · exact h.apart _ (Table.mem_iff_lookup.mpr ⟨d, hd⟩) (hid ▸ hpredicted p hp)
  · have hid := hnodup.2.2 _ (List.mem_map_of_mem hd') _ (.head _)
    refine ⟨hid, fun hflow => hid ?_⟩
    -- one item names one decision
    obtain ⟨-, item', hitem', hstate'⟩ := h.decided _ d' (hmem d' (by rw [has]; simp [hd']))
    rw [hflow, hitem] at hitem'
    cases hitem'
    exact Option.some.inj (hstate'.symm.trans hstate)

/-- Items and decisions that belong together are replayed: the queue is sound, and its decisions are
these. -/
theorem Coherent.rehydrate {items : Table Str (QueueItem φ)} {decisions : Table Str AuditDecision}
    (h : Coherent items decisions) (triggerCfg : TriggerConfig φ) (slaPolicy : SlaPolicy)
    (nextDecisionSeq : UInt64) :
    ∃ engine, ReviewQueue.rehydrate triggerCfg slaPolicy items decisions nextDecisionSeq =
        .ok ⟨engine, items, triggerCfg, slaPolicy, nextDecisionSeq⟩ ∧
      Sound ⟨engine, items, triggerCfg, slaPolicy, nextDecisionSeq⟩ ∧
      Settled ⟨engine, items, triggerCfg, slaPolicy, nextDecisionSeq⟩ ∧
      ∀ id decision, engine.store.instances.lookup id = some (decisionInstance decision) ↔
        decisions.lookup id = some decision := by
  obtain ⟨e, hitems, he⟩ := h.replay_items
  obtain ⟨e', hdecisions, he'⟩ := h.replay_decisions he
  have hrun : replay items decisions .new = .ok ⟨⟩ e' := by
    have hschema : registerSchema .new = .ok ⟨⟩ registered := rfl
    unfold replay
    rw [bind_run_of_ok hschema, bind_run_of_ok hitems]
    exact hdecisions
  have hholds : ∀ id decision,
      e'.store.instances.lookup id = some (decisionInstance decision) ↔
        decisions.lookup id = some decision := by
    intro id decision
    rw [he'.node]
    constructor
    · rintro (⟨p, -, -, hinst⟩ | ⟨d, hd, rfl, hinst⟩)
      · exact absurd hinst.symm predictionInstance_ne_decisionInstance
      · obtain ⟨id, hid⟩ := mem_orderedDecisions.mp hd
        rw [decisionInstance_injective hinst, (h.decided id d hid).1]
        exact hid
    · intro hlookup
      exact .inr ⟨decision, mem_orderedDecisions.mpr ⟨id, hlookup⟩,
        (h.decided id decision hlookup).1, rfl⟩
  refine ⟨e', ?_, ⟨he'.graph, fun flowId => ?_, fun flowId item hitem => ?_, fun id d hd => ?_⟩,
    fun id hid => ?_, hholds⟩
  · unfold ReviewQueue.rehydrate
    rw [hrun]
  · cases hnamed : ReviewQueue.named ⟨e', items, triggerCfg, slaPolicy, nextDecisionSeq⟩ flowId with
    | none =>
      refine he'.undecided flowId fun d hd hflow => ?_
      obtain ⟨id, hid⟩ := mem_orderedDecisions.mp hd
      obtain ⟨-, item, hitem, hstate⟩ := h.decided id d hid
      rw [ReviewQueue.named, ← hflow, hitem] at hnamed
      cases hstate.symm.trans hnamed
    | some id =>
      obtain ⟨item, hitem, hstate⟩ := Option.bind_eq_some_iff.mp hnamed
      obtain ⟨d, hd, rfl⟩ := h.named flowId item id hitem hstate
      rw [← (h.decided id d hd).1]
      exact he'.decided d (mem_orderedDecisions.mpr ⟨_, hd⟩)
  · refine ⟨h.flow flowId item hitem, (he'.node _ _).mpr (.inl ⟨item.prediction, ?_,
      h.flow flowId item hitem, rfl⟩)⟩
    exact List.mem_map_of_mem (mem_orderedItems.mpr ⟨flowId, hitem⟩)
  · obtain ⟨-, item, hitem, hstate⟩ := h.decided id d ((hholds id d).mp hd)
    exact Option.bind_eq_some_iff.mpr ⟨item, hitem, hstate⟩
  · rcases he'.mem.mp hid with ⟨p, hp, rfl⟩ | ⟨d, hd, rfl⟩
    · obtain ⟨item, hitem, rfl⟩ := List.mem_map.mp hp
      obtain ⟨flowId, hflow⟩ := mem_orderedItems.mp hitem
      rw [h.flow flowId item hflow]
      exact .inl (Table.mem_iff_lookup.mpr ⟨item, hflow⟩)
    · obtain ⟨id, hid⟩ := mem_orderedDecisions.mp hd
      refine .inr ⟨d, (hholds _ _).mpr ?_, rfl⟩
      rw [(h.decided id d hid).1]
      exact hid

end ActiveDefense.Siem.ReviewQueue
