import ActiveDefense.Siem.QueueLog
import ActiveDefense.Siem.Trigger

/-!
# What a failed ingest leaves

`ingest` writes the prediction before it asks for the id of a decision, and that id may be taken: by
a flow that was named like it. Then the prediction and the count stay, and the flow can never be
ingested again. Every other failure comes before the first write.
-/

namespace ActiveDefense.Siem.ReviewQueue

/-- The items, the counter and the audit graph are as they were. -/
def Untouched {φ : Type} (q q' : ReviewQueue φ) : Prop :=
  q'.items = q.items ∧ q'.decisionSeq = q.decisionSeq ∧ q'.engine = q.engine

section
variable {φ : Type} [FloatArith φ]

/-- An ingest that fails has changed nothing, unless it had to decide under an id that is taken. -/
theorem Sound.untouched_iff {q : ReviewQueue φ} (h : q.Sound) (prediction : FlowPrediction φ)
    (enqueuedAt : Timestamp) :
    (∀ e q', ingest prediction enqueuedAt q = .error e q' → q.Untouched q') ↔
      prediction.flowId ∈ q.items ∨ prediction.flowId ∈ q.engine.store.instances ∨
        (ReviewTrigger.evaluate prediction q.triggerCfg).isSome ∨
        decisionName prediction.flowId q.decisionSeq ∉ q.engine.store.instances := by
  have hingested := h.ingested prediction enqueuedAt
  generalize ingest prediction enqueuedAt q = result at hingested
  cases hingested with
  | duplicateFlow hitem =>
    refine iff_of_true ?_ (.inl hitem)
    rintro e q' ⟨⟩
    exact ⟨rfl, rfl, rfl⟩
  | taken _ htaken =>
    refine iff_of_true ?_ (.inr (.inl htaken))
    rintro e q' ⟨⟩
    exact ⟨rfl, rfl, rfl⟩
  | queued _ _ htrigger =>
    refine iff_of_true nofun (.inr (.inr (.inl ?_)))
    rw [htrigger]
    rfl
  | autoResolved _ _ _ hfree _ _ => exact iff_of_true nofun (.inr (.inr (.inr hfree)))
  | refused hnew hnode htrigger htaken =>
    refine iff_of_false (fun huntouched => ?_) ?_
    · obtain ⟨-, hseq, -⟩ := huntouched _ _ rfl
      exact absurd hseq (by simp)
    · obtain ⟨hfree, -⟩ := recordPrediction_spec hnode
      rw [htrigger]
      simp [hnew, hfree, htaken]

/-- In every state that is reached, an ingest that fails has changed nothing, if and only if the
flow is known, or goes to a human, or the id for its decision is free. -/
theorem ingest_untouched_iff {triggerCfg : TriggerConfig φ} {slaPolicy : SlaPolicy}
    {start q : ReviewQueue φ} (hnew : new triggerCfg slaPolicy = .ok start)
    (h : Reachable Step start q) (prediction : FlowPrediction φ) (enqueuedAt : Timestamp) :
    (∀ e q', ingest prediction enqueuedAt q = .error e q' → q.Untouched q') ↔
      prediction.flowId ∈ q.items ∨ prediction.flowId ∈ q.engine.store.instances ∨
        (ReviewTrigger.evaluate prediction q.triggerCfg).isSome ∨
        decisionName prediction.flowId q.decisionSeq ∉ q.engine.store.instances :=
  (sound_of_reachable hnew h).untouched_iff prediction enqueuedAt

end

/-- A flow that is named like the first decision on the flow `flow-1`. -/
def namesake : FlowPrediction Float :=
  ⟨"dec-flow-1-0".toList, "DenialOfService".toList, 0.5, none, none, false, 1700000000⟩

/-- The queue after the namesake has come in. -/
def afterNamesake : ReviewQueue Float :=
  finalState ((ReviewAction.ingest namesake 1700000001).exec (initial .default .failSafe))

theorem reachable_afterNamesake : Reachable Step (initial .default .failSafe) afterNamesake :=
  Reachable.refl.tail (a := .ingest namesake 1700000001) ⟨trivial, rfl⟩

/-- A flow that is sent again changes nothing. -/
theorem ingest_untouched_iff_again : Reachable Step (initial .default .failSafe) afterNamesake ∧
    ∀ e q', ingest namesake 1700000002 afterNamesake = .error e q' → afterNamesake.Untouched q' :=
  ⟨reachable_afterNamesake,
    (ingest_untouched_iff (new_eq _ _) reachable_afterNamesake _ _).mpr
      (.inl (by decide))⟩

/-- The id for the decision on the flow is taken by its namesake: the ingest fails, and the id is
counted as given. -/
theorem not_ingest_untouched : ¬ ∀ (triggerCfg : TriggerConfig Float) (slaPolicy : SlaPolicy)
    (start q : ReviewQueue Float), new triggerCfg slaPolicy = .ok start →
    Reachable Step start q → ∀ (prediction : FlowPrediction Float) (enqueuedAt : Timestamp)
      (e : ReviewQueueError) (q' : ReviewQueue Float),
      ingest prediction enqueuedAt q = .error e q' → q.Untouched q' := by
  intro hclaim
  have hsound := sound_of_reachable (new_eq _ _) reachable_afterNamesake
  have hcondition := (hsound.untouched_iff (attack 0.97) 1700000002).mp
    (hclaim _ _ _ _ (new_eq _ _) reachable_afterNamesake _ _)
  exact absurd hcondition (by decide)

end ActiveDefense.Siem.ReviewQueue
