import ActiveDefense.Siem.QueueHistory
import ActiveDefense.Siem.Trigger

/-!
# No containment by timeout

Under the fail-safe policy a sweep dismisses. An item keeps the decision that closes it, and the
audit graph has no other for its flow. So what was queued for a human is approved for containment
by the decision of a human, or never.
-/

namespace ActiveDefense.Siem

namespace ReviewQueue

variable {φ : Type} [FloatArith φ]

/-! ## Who decided -/

/-- A decision of a human that is new was recorded by the operation. -/
theorem Sound.human_step {q q' : ReviewQueue φ} {a : ReviewAction φ} (hq : q.Sound)
    (hstep : Step q a q') {decision : AuditDecision} (hholds : q'.Holds decision) {reviewer : Str}
    (hreviewer : decision.reviewer = .human reviewer) :
    q.Holds decision ∨
      a = .recordDecision decision.flowId reviewer decision.verdict decision.rationale
          decision.decidedAt ∧
        recordDecision decision.flowId reviewer decision.verdict decision.rationale
          decision.decidedAt q = .ok decision q' := by
  obtain ⟨events, hevents⟩ := hq.logged hstep
  rcases holds_of_run hq hevents hholds with hold | ⟨t, u, event, hemits, hlogs, hevent⟩
  · exact .inl hold
  rcases hevent with rfl | ⟨prediction, rfl⟩
  · cases a with
    | ingest => cases hemits
    | claim => cases hemits
    | sweepExpired => cases hreviewer.symm.trans hemits.1
    | recordDecision flowId reviewer' verdict rationale decidedAt =>
      obtain ⟨-, rfl⟩ := hstep
      simp only [ReviewAction.exec, finalState_discard] at hholds ⊢
      rcases hq.recordDecision_cases flowId reviewer' verdict rationale decidedAt with
        ⟨e, hrun⟩ | ⟨e, hrun, -⟩ | ⟨id, q', hrun, hlogs'⟩
      · rw [hrun] at hholds
        exact .inl hholds
      · rw [hrun] at hholds
        exact .inl hholds
      · rw [hrun] at hholds
        rcases hlogs'.holds hq hholds with hold | heq | ⟨_, heq⟩
        · exact .inl hold
        · cases heq
          cases hreviewer
          exact .inr ⟨rfl, by rw [hrun]; rfl⟩
        · cases heq
  · cases hlogs with
    | autoResolved _ _ _ _ _ hauto _ _ => cases hreviewer.symm.trans hauto

/-! ## What stays -/

/-- The flow has an item, which went to a human. -/
def Reviewed (q : ReviewQueue φ) (flowId : Str) : Prop :=
  ∃ item, q.items.lookup flowId = some item ∧ ∀ id, item.state ≠ .autoResolved id

theorem Logs.reviewed {q q' : ReviewQueue φ} {event : QueueEvent φ} (h : Logs q event q')
    {flowId : Str} (hreviewed : q.Reviewed flowId) : q'.Reviewed flowId := by
  obtain ⟨item, hitem, hstate⟩ := hreviewed
  have hmem : flowId ∈ q.items := Table.mem_iff_lookup.mpr ⟨item, hitem⟩
  have hinsert : ∀ {id : Str} {item' : QueueItem φ}, (∀ id', item'.state ≠ .autoResolved id') →
      ∃ i, (q.items.insert id item').lookup flowId = some i ∧
        ∀ id', i.state ≠ .autoResolved id' := by
    intro id item' hstate'
    by_cases hid : flowId = id
    · rw [hid]
      exact ⟨item', AList.lookup_insert _, hstate'⟩
    · exact ⟨item, (AList.lookup_insert_ne hid).trans hitem, hstate⟩
  cases h with
  | predicted => exact ⟨item, hitem, hstate⟩
  | queued => exact hinsert nofun
  | autoResolved hnew _ _ hflow =>
    refine ⟨item, (AList.lookup_insert_ne ?_).trans hitem, hstate⟩
    rintro rfl
    exact hnew (hflow ▸ hmem)
  | claimed => exact hinsert nofun
  | resolved => exact hinsert nofun
  | refused => exact ⟨item, hitem, hstate⟩

/-- Who decided what: a timeout dismissed, and an automatic resolution closed its item. -/
structure Attributed (q : ReviewQueue φ) : Prop where
  timeout : ∀ decision, q.Holds decision → decision.reviewer = .systemSlaTimeout →
    decision.verdict = .dismiss
  automatic : ∀ decision, q.Holds decision → decision.reviewer = .systemAutoResolve →
    ∃ item, q.items.lookup decision.flowId = some item ∧
      item.state = .autoResolved decision.decisionId

theorem Attributed.logs {q q' : ReviewQueue φ} {event : QueueEvent φ} (hq : q.Sound)
    (hpolicy : q.slaPolicy = .failSafe) (h : q.Attributed) (hlogs : Logs q event q') :
    q'.Attributed := by
  constructor
  · intro decision hholds hreviewer
    rcases hlogs.holds hq hholds with hold | rfl | ⟨prediction, rfl⟩
    · exact h.timeout decision hold hreviewer
    · cases hlogs with
      | resolved _ _ _ hauthorized =>
        unfold Authorized at hauthorized
        rw [hreviewer] at hauthorized
        obtain ⟨slaSeconds, hruling⟩ := hauthorized
        rw [slaVerdict, hpolicy] at hruling
        exact (Prod.mk.inj hruling).1
    · cases hlogs with
      | autoResolved _ _ _ _ _ hauto => cases hreviewer.symm.trans hauto
  · intro decision hholds hreviewer
    rcases hlogs.holds hq hholds with hold | rfl | ⟨prediction, rfl⟩
    · obtain ⟨item, hitem, hstate⟩ := h.automatic decision hold hreviewer
      exact ⟨item, hlogs.closed hitem (by rw [hstate]; rfl), hstate⟩
    · cases hlogs with
      | resolved _ _ _ hauthorized =>
        unfold Authorized at hauthorized
        rw [hreviewer] at hauthorized
        exact hauthorized.elim
    · cases hlogs with
      | autoResolved => exact ⟨_, AList.lookup_insert _, rfl⟩

/-! ## Runs -/

/-- A run of operations from a start, successful or failed, in which an operation had a property in
the state it was taken in. -/
abbrev Did (start : ReviewQueue φ) (as : List (ReviewAction φ))
    (P : ReviewQueue φ → ReviewAction φ → Prop) : Prop :=
  Took Step (fun _ _ => True) start as P

/-- The operation queues the flow for review. -/
def QueuesForReview (flowId : Str) (q : ReviewQueue φ) (a : ReviewAction φ) : Prop :=
  ∃ prediction enqueuedAt reason q', a = .ingest prediction enqueuedAt ∧
    prediction.flowId = flowId ∧
    ingest prediction enqueuedAt q = .ok (.queuedForReview reason) q'

/-- The operation records the decision, which is that of a human. -/
def RecordsHuman (decision : AuditDecision) (q : ReviewQueue φ) (a : ReviewAction φ) : Prop :=
  ∃ reviewer q', decision.reviewer = .human reviewer ∧
    a = .recordDecision decision.flowId reviewer decision.verdict decision.rationale
      decision.decidedAt ∧
    recordDecision decision.flowId reviewer decision.verdict decision.rationale
      decision.decidedAt q = .ok decision q'

/-- What the audit graph and the items say of a run under the fail-safe policy. -/
structure Told (start : ReviewQueue φ) (as : List (ReviewAction φ)) (q : ReviewQueue φ) :
    Prop where
  sound : q.Sound
  policy : q.slaPolicy = .failSafe
  attributed : q.Attributed
  human : ∀ decision, q.Holds decision → ∀ reviewer, decision.reviewer = .human reviewer →
    start.Did as (RecordsHuman decision)
  queued : ∀ flowId, start.Did as (QueuesForReview flowId) → q.Reviewed flowId

theorem step_unique (q : ReviewQueue φ) (a : ReviewAction φ) (t u : ReviewQueue φ)
    (h₁ : Step q a t) (h₂ : Step q a u) : t = u := h₁.2.trans h₂.2.symm

theorem told_of_run {triggerCfg : TriggerConfig φ} {q : ReviewQueue φ} {as : List (ReviewAction φ)}
    (h : Run Step (fun _ _ => True) (initial triggerCfg .failSafe) as q) :
    Told (initial triggerCfg .failSafe) as q := by
  induction h with
  | nil =>
    exact ⟨sound_initial _ _, rfl, ⟨nofun, nofun⟩, nofun, fun _ htook => absurd htook not_took_nil⟩
  | @snoc as a q q' hrun _ hstep ih =>
    obtain ⟨events, hevents⟩ := ih.sound.logged hstep
    have hinvariant : q'.Sound ∧ q'.slaPolicy = .failSafe ∧ q'.Attributed := by
      refine hevents.invariant (I := fun q => q.Sound ∧ q.slaPolicy = .failSafe ∧ q.Attributed)
        ⟨ih.sound, ih.policy, ih.attributed⟩ ?_
      rintro t event u ⟨ht, hpolicy, hattributed⟩ - hlogs
      exact ⟨ht.logs hlogs, hlogs.config.2.trans hpolicy, hattributed.logs ht hpolicy hlogs⟩
    refine ⟨hinvariant.1, hinvariant.2.1, hinvariant.2.2, fun decision hholds reviewer hreviewer => ?_,
      fun flowId htook => ?_⟩
    · rcases ih.sound.human_step hstep hholds hreviewer with hold | ⟨ha, hok⟩
      · exact (ih.human decision hold reviewer hreviewer).snoc a
      · exact hrun.took ⟨reviewer, q', hreviewer, ha, hok⟩
    · rcases htook.cases_snoc with hbefore | ⟨t, ht, hlast⟩
      · refine hevents.invariant (I := fun q => q.Reviewed flowId) (ih.queued flowId hbefore) ?_
        intro t event u hreviewed _ hlogs
        exact hlogs.reviewed hreviewed
      · cases Run.unique step_unique ht hrun
        obtain ⟨prediction, enqueuedAt, reason, q'', rfl, rfl, hingest⟩ := hlast
        obtain ⟨-, rfl⟩ := hstep
        simp only [ReviewAction.exec, finalState_discard, hingest]
        obtain ⟨-, engine, -, hspec⟩ := ingest_spec hingest
        cases htrigger : ReviewTrigger.evaluate prediction q.triggerCfg with
        | none =>
          rw [htrigger] at hspec
          obtain ⟨_, _, -, -, -, houtcome, -⟩ := hspec
          cases houtcome
        | some reason' =>
          rw [htrigger] at hspec
          obtain ⟨-, rfl⟩ := hspec
          exact ⟨_, AList.lookup_insert _, fun _ h => ReviewState.noConfusion h⟩

/-- In every run under the fail-safe policy, successful or failed: no decision of a timeout is to
contain; a flow that was queued for review is approved only where a human has recorded the decision
that approves it; and the flow of an item that a timeout closed is not approved. -/
theorem failSafe_never_contains {triggerCfg : TriggerConfig φ} {start q : ReviewQueue φ}
    {as : List (ReviewAction φ)} (hnew : new triggerCfg .failSafe = .ok start)
    (h : Run Step (fun _ _ => True) start as q) :
    (∀ decision ∈ allDecisions q.engine, decision.reviewer = .systemSlaTimeout →
      decision.verdict ≠ .executeContainment) ∧
    (∀ flowId id, start.Did as (QueuesForReview flowId) →
      q.containmentDecision flowId = .approved id →
      ∃ decision, decision.decisionId = id ∧ decision.flowId = flowId ∧
        decision.verdict = .executeContainment ∧ start.Did as (RecordsHuman decision)) ∧
    ∀ decision ∈ allDecisions q.engine, decision.reviewer = .systemSlaTimeout →
      ∀ id, q.containmentDecision decision.flowId ≠ .approved id := by
  rw [new_eq] at hnew
  cases hnew
  have htold := told_of_run h
  have hholds : ∀ decision ∈ allDecisions q.engine, q.Holds decision :=
    fun decision hmem => htold.sound.graph.mem_allDecisions.mp hmem
  refine ⟨fun decision hmem hreviewer => ?_, fun flowId id hqueued happroved => ?_,
    fun decision hmem hreviewer id happroved => ?_⟩
  · rw [htold.attributed.timeout decision (hholds decision hmem) hreviewer]
    nofun
  · obtain ⟨decision, rfl, rfl, hnode, hverdict⟩ := htold.sound.trail.exists_of_approved happroved
    refine ⟨decision, rfl, rfl, hverdict, ?_⟩
    cases hreviewer : decision.reviewer with
    | human reviewer => exact htold.human decision hnode reviewer hreviewer
    | systemSlaTimeout =>
      cases hverdict.symm.trans (htold.attributed.timeout decision hnode hreviewer)
    | systemAutoResolve =>
      obtain ⟨item, hitem, hstate⟩ := htold.attributed.automatic decision hnode hreviewer
      obtain ⟨item', hitem', hreviewed⟩ := htold.queued decision.flowId hqueued
      cases hitem.symm.trans hitem'
      exact absurd hstate (hreviewed _)
  · obtain ⟨decision', rfl, hflow, hnode, hverdict⟩ :=
      htold.sound.trail.exists_of_approved happroved
    -- a flow has one decision
    have hnamed := htold.sound.decided _ _ (hholds decision hmem)
    rw [← hflow, htold.sound.decided _ _ hnode] at hnamed
    have heq : decision'.decisionId = decision.decisionId := Option.some.inj hnamed
    have hsame := (heq ▸ hnode).symm.trans (hholds decision hmem)
    rw [decisionInstance_injective (Option.some.inj hsame),
      htold.attributed.timeout decision (hholds decision hmem) hreviewer] at hverdict
    cases hverdict

/-- The second of the three flows waits for a human. -/
theorem did_queue_threeFlows :
    (initial .default .failSafe).Did threeFlows (QueuesForReview "flow-2".toList) := by
  let first : ReviewAction Float := .ingest
    ⟨"flow-1".toList, "DenialOfService".toList, 0.97, none, none, false, 1700000000⟩ 1700000001
  let second : FlowPrediction Float :=
    ⟨"flow-2".toList, "DenialOfService".toList, 0.5, none, none, false, 1700000000⟩
  have hfirst : Step (initial .default .failSafe) first
      (finalState (first.exec (initial .default .failSafe))) := ⟨trivial, rfl⟩
  obtain ⟨q', hqueued⟩ : ∃ q', ingest second 1700000002
      (finalState (first.exec (initial .default .failSafe))) =
        .ok (.queuedForReview .lowConfidenceAttack) q' := exists_of_result (by decide)
  exact ⟨[first], .ingest second 1700000002, _, _, rfl, .single trivial hfirst, second, _, _, q',
    rfl, rfl, hqueued⟩

/-- The second of the three flows is approved, and a human has decided so. -/
theorem failSafe_never_contains_threeFlows : ∃ q : ReviewQueue Float,
    Run Step (fun _ _ => True) (initial .default .failSafe) threeFlows q ∧
    q.containmentDecision "flow-2".toList = .approved "dec-flow-2-1".toList ∧
    ∃ decision, decision.decisionId = "dec-flow-2-1".toList ∧
      decision.flowId = "flow-2".toList ∧ decision.verdict = .executeContainment ∧
      (initial .default .failSafe).Did threeFlows (RecordsHuman decision) := by
  have hend : (threeFlows.foldlM next (initial .default .failSafe)).any (fun q => decide
      (q.containmentDecision "flow-2".toList = .approved "dec-flow-2-1".toList)) = true := by
    decide +kernel
  obtain ⟨q, hrun, happroved⟩ :=
    Run.exists_of_any (fun _ _ _ h => ⟨trivial, (next_spec h).2⟩) hend
  exact ⟨q, hrun, happroved,
    (failSafe_never_contains (new_eq _ _) hrun).2.1 _ _ did_queue_threeFlows happroved⟩

end ReviewQueue

end ActiveDefense.Siem
