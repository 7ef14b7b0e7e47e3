import ActiveDefense.Siem.NetworkEvidence

/-!
# Containment waits for a human

The review gate queues every verdict on network evidence alone, so the response policy has it only
when a reviewer decides so. Claims, decisions and sweeps go on beside the verdicts, and leave the
thresholds as they are.
-/

namespace ActiveDefense.Siem

/-! ## What the gate keeps -/

namespace ReviewQueue

section
variable {φ : Type}

/-- The thresholds stay, and no item comes to be resolved without a review. -/
structure KeepsReview (q q' : ReviewQueue φ) : Prop where
  triggerCfg : q'.triggerCfg = q.triggerCfg
  items : ∀ flowId item', q'.items.lookup flowId = some item' → ∀ id,
    item'.state = .autoResolved id → ∃ item, q.items.lookup flowId = some item ∧
      item.state = .autoResolved id

instance : Std.Refl (KeepsReview (φ := φ)) where
  refl _ := ⟨rfl, fun _ item hl _ hs => ⟨item, hl, hs⟩⟩

instance : IsTrans (ReviewQueue φ) KeepsReview where
  trans _ _ _ h h' := ⟨h'.triggerCfg.trans h.triggerCfg, fun flowId item hl id hs =>
    have ⟨item', hl', hs'⟩ := h'.items flowId item hl id hs
    h.items flowId item' hl' id hs'⟩

theorem keepsReview_insert {q q' : ReviewQueue φ} {flowId : Str} {item : QueueItem φ}
    (hcfg : q'.triggerCfg = q.triggerCfg) (hitems : q'.items = q.items.insert flowId item)
    (hitem : ∀ id, item.state ≠ .autoResolved id) : KeepsReview q q' := by
  refine ⟨hcfg, fun flowId' item' hl id hs => ?_⟩
  rw [hitems] at hl
  rcases eq_or_ne flowId' flowId with rfl | hne
  · rw [AList.lookup_insert] at hl
    cases hl
    exact absurd hs (hitem id)
  · rw [AList.lookup_insert_ne hne] at hl
    exact ⟨item', hl, hs⟩

theorem keepsReview_of_eq {q q' : ReviewQueue φ} (hcfg : q'.triggerCfg = q.triggerCfg)
    (hitems : q'.items = q.items) : KeepsReview q q' :=
  ⟨hcfg, fun _ item hl _ hs => ⟨item, hitems ▸ hl, hs⟩⟩

theorem moves_onEngine {α : Type} {x : Ontology α} :
    Moves KeepsReview (onEngine x : Review φ α) := by
  intro q
  unfold onEngine
  split <;> exact keepsReview_of_eq rfl rfl

theorem moves_nextDecisionId {flowId : Str} :
    Moves KeepsReview (nextDecisionId flowId : Review φ Str) :=
  fun _ => keepsReview_of_eq rfl rfl

theorem moves_resolve {flowId rationale : Str} {item : QueueItem φ} {reviewer : Reviewer}
    {verdict : Verdict} {decidedAt : Timestamp} :
    Moves KeepsReview (resolve flowId item reviewer verdict rationale decidedAt) := by
  refine .bind moves_nextDecisionId fun id => .bind moves_onEngine fun _ => .bind ?_ fun _ => .pure
  exact .modify fun q => keepsReview_insert rfl rfl nofun

theorem moves_claim {flowId reviewer : Str} {claimedAt : Timestamp} :
    Moves KeepsReview (claim flowId reviewer claimedAt : Review φ Unit) := by
  intro q
  cases hrun : claim flowId reviewer claimedAt q with
  | ok _ q' =>
    obtain ⟨item, reason, -, -, rfl⟩ := claim_spec hrun
    exact keepsReview_insert rfl rfl nofun
  | error e q' =>
    rw [claim_error hrun]
    exact Std.Refl.refl q

theorem moves_recordDecision {flowId reviewer rationale : Str} {verdict : Verdict}
    {decidedAt : Timestamp} :
    Moves KeepsReview (recordDecision flowId reviewer verdict rationale decidedAt :
      Review φ AuditDecision) := by
  intro q
  unfold recordDecision
  split
  · exact Std.Refl.refl q
  split
  · exact Std.Refl.refl q
  simp only [get_bind_run]
  cases hitem : q.items.lookup flowId with
  | none => exact Std.Refl.refl q
  | some item =>
    simp only
    split
    · exact moves_resolve q
    · exact Std.Refl.refl q

theorem moves_sweepItems [FloatArith φ] {slaSeconds : Timestamp} {order : List (Str × Timestamp)} :
    Moves KeepsReview (sweepItems slaSeconds order : Review φ (List (SlaResolution φ))) := by
  induction order with
  | nil => exact .pure
  | cons entry rest ih =>
    refine .bind .get fun q => ?_
    split
    · exact ih
    · exact .bind moves_resolve fun _ => .bind ih fun _ => .pure

/-- What the trigger holds back is not resolved. -/
theorem keepsReview_ingest [FloatArith φ] {prediction : FlowPrediction φ} {enqueuedAt : Timestamp}
    {q : ReviewQueue φ} {reason : TriggerReason}
    (h : ReviewTrigger.evaluate prediction q.triggerCfg = some reason) :
    KeepsReview q (finalState (ingest prediction enqueuedAt q)) := by
  unfold ingest
  simp only [get_bind_run]
  split
  · exact Std.Refl.refl q
  · rw [h]
    refine Moves.bind moves_onEngine (fun _ => .bind (.modify fun q => ?_) fun _ => .pure) q
    exact keepsReview_insert rfl rfl nofun

end

end ReviewQueue

/-- The trigger lets a verdict through that two lanes corroborate, and that is not known to be below
the threshold. -/
theorem evaluate_verdict_eq_none_iff {φ : Type} [FloatArith φ] {v : CorrelationVerdict φ}
    {flowId : Str} {observedAt : Timestamp} :
    ReviewTrigger.evaluate (verdictToFlowPrediction v flowId observedAt) .default = none ↔
      v.reason = .multiLaneCorroboration ∧ ¬ v.confidence < 0.90 := by
  rw [evaluate_eq_none_iff (verdictToFlowPrediction_not_benign v flowId observedAt)]
  constructor
  · rintro ⟨hood, hconfident, -⟩
    refine ⟨?_, hconfident⟩
    cases hreason : v.reason with
    | multiLaneCorroboration => rfl
    | singleLaneCritical => exact absurd hreason (of_decide_eq_false hood)
  · rintro ⟨hreason, hconfident⟩
    refine ⟨decide_eq_false ?_, hconfident, nofun⟩
    rw [hreason]
    exact nofun

variable {K : Type} [Field K] [LinearOrder K] [FloorRing K]

/-- The gate's thresholds hold back a verdict that needs a human. -/
theorem exists_evaluate_eq_some {v : CorrelationVerdict K} (h : NeedsHuman v) (flowId : Str)
    (observedAt : Timestamp) : ∃ reason,
      ReviewTrigger.evaluate (verdictToFlowPrediction v flowId observedAt) .default =
        some reason := by
  rw [← Option.isSome_iff_exists, ← Option.ne_none_iff_isSome, Ne, evaluate_verdict_eq_none_iff]
  rintro ⟨hreason, hconfident⟩
  have hlow : v.confidence < (0.9 : K) := h hreason
  refine hconfident ?_
  show v.confidence < (0.90 : K)
  norm_num at hlow ⊢
  exact hlow

/-- What the gate makes of a verdict that needs a human. -/
theorem handleFlowPrediction_ok {v : CorrelationVerdict K} (h : NeedsHuman v) {flowId : Str}
    {observedAt enqueuedAt : Timestamp} {answer : Except Str Unit} {disposition : Disposition}
    {q q' : ReviewQueue K} (hcfg : q.triggerCfg = .default)
    (hrun : handleFlowPrediction (verdictToFlowPrediction v flowId observedAt) enqueuedAt answer q =
      .ok disposition q') : ∃ reason, disposition = .queuedForReview reason := by
  obtain ⟨outcome, q₁, hingest, hrun⟩ := exists_of_bind_ok hrun
  obtain ⟨reason, hreason⟩ := exists_evaluate_eq_some h flowId observedAt
  obtain ⟨-, engine, -, hspec⟩ := ReviewQueue.ingest_spec hingest
  rw [hcfg, hreason] at hspec
  obtain ⟨rfl, -⟩ := hspec
  cases hrun
  exact ⟨reason, rfl⟩

theorem keepsReview_handleFlowPrediction {v : CorrelationVerdict K} (h : NeedsHuman v)
    {flowId : Str} {observedAt enqueuedAt : Timestamp} {answer : Except Str Unit}
    {q : ReviewQueue K} (hcfg : q.triggerCfg = .default) :
    q.KeepsReview (finalState (handleFlowPrediction (verdictToFlowPrediction v flowId observedAt)
      enqueuedAt answer q)) := by
  obtain ⟨reason, hreason⟩ := exists_evaluate_eq_some h flowId observedAt
  have hkeeps : q.KeepsReview (finalState (ReviewQueue.ingest _ enqueuedAt q)) :=
    ReviewQueue.keepsReview_ingest (hcfg ▸ hreason)
  refine finalState_bind (fun outcome t hrun => ?_) fun e t hrun => ?_
  · rw [hrun] at hkeeps
    cases outcome with
    | queuedForReview reason => exact hkeeps
    | autoResolved verdict id => cases verdict <;> exact hkeeps
  · rw [hrun] at hkeeps
    exact hkeeps

theorem moves_resolveAndExecute {φ : Type} {flowId reviewer rationale : Str} {verdict : Verdict}
    {decidedAt : Timestamp} {answer : Except Str Unit} :
    Moves ReviewQueue.KeepsReview
      (resolveAndExecute flowId reviewer verdict rationale decidedAt answer :
        Review φ Disposition) := by
  refine .bind ReviewQueue.moves_recordDecision fun decision => ?_
  cases decision.verdict <;> exact .pure

namespace Orchestrator

/-- The gate has left every flow to a human. -/
structure Waits (o : Orchestrator K) : Prop where
  correlation : o.correlation.NetworkOnly
  triggerCfg : o.queue.triggerCfg = .default
  items : ∀ flowId item, o.queue.items.lookup flowId = some item →
    ∀ id, item.state ≠ .autoResolved id
  log : ∀ entry ∈ o.log, entry.reviewer = none →
    ∃ reason, entry.disposition = .queuedForReview reason

theorem waits_start (threshold : K) : (start threshold).Waits where
  correlation := Correlation.networkOnly_start
  triggerCfg := rfl
  items flowId item hl := by
    have hempty : (start threshold).queue.items.lookup flowId = none := AList.lookup_empty flowId
    rw [hempty] at hl
    cases hl
  log := nofun

/-- A change of the queue alone. -/
theorem Waits.queue {o : Orchestrator K} (h : o.Waits) {queue : ReviewQueue K}
    (hkeeps : o.queue.KeepsReview queue) : Waits { o with queue := queue } where
  correlation := h.correlation
  triggerCfg := hkeeps.triggerCfg.trans h.triggerCfg
  items flowId item hl id hs :=
    have ⟨item', hl', hs'⟩ := hkeeps.items flowId item hl id hs
    h.items flowId item' hl' id hs'
  log := h.log

/-- What the gate does with a flow that it leaves to a human. -/
theorem Waits.gate {o : Orchestrator K} (h : o.Waits) {flowId : Str} {reviewer : Option Str}
    {x : Review K Disposition} (hkeeps : o.queue.KeepsReview (finalState (x o.queue)))
    (hqueued : ∀ disposition queue, x o.queue = .ok disposition queue → reviewer = none →
      ∃ reason, disposition = .queuedForReview reason) : (o.gate flowId reviewer x).Waits := by
  unfold Orchestrator.gate
  cases hrun : x o.queue with
  | error e queue =>
    rw [hrun] at hkeeps
    exact h.queue hkeeps
  | ok disposition queue =>
    rw [hrun] at hkeeps
    refine { h.queue hkeeps with log := fun entry hentry hnone => ?_ }
    rcases List.mem_append.mp hentry with hentry | hentry
    · exact h.log entry hentry hnone
    · cases List.mem_singleton.mp hentry
      exact hqueued disposition queue hrun hnone

variable [IsStrictOrderedRing K]

/-- A step of the correlation engine in which the lanes send network evidence. -/
theorem Waits.correlate {o : Orchestrator K} (h : o.Waits) {a : CorrelationAction K}
    {c : Correlation K} (hst : o.correlation.next a = some c)
    (hsent : ∀ e, a.sent = some e → NetworkEvidence e) : Waits { o with correlation := c } where
  correlation := h.correlation.step hsent hst
  triggerCfg := h.triggerCfg
  items := h.items
  log := h.log

omit [IsStrictOrderedRing K] in
theorem sent_submitAlert {alert : NsmAlert} {now : Instant} {a : CorrelationAction K}
    (h : submitAlert alert now = some a) : ∀ e, a.sent = some e → NetworkEvidence e := by
  simp only [submitAlert, Option.bind_eq_bind, Option.bind_eq_some_iff] at h
  obtain ⟨host, -, h⟩ := h
  cases h
  rintro e ⟨⟩
  exact networkEvidence_xdp ..

theorem Waits.handleVerdict {o o' : Orchestrator K} (h : o.Waits)
    {observedAt enqueuedAt : Timestamp} {answer : Except Str Unit}
    (hst : o.handleVerdict observedAt enqueuedAt answer = some o') : o'.Waits := by
  simp only [Orchestrator.handleVerdict, Option.bind_eq_bind, Option.bind_eq_some_iff] at hst
  obtain ⟨⟨verdict, outTx⟩, hrecv, c, htake, hst⟩ := hst
  cases hst
  have hverdict : NeedsHuman verdict :=
    h.correlation.verdicts verdict (Mpsc.queue_of_recv hrecv ▸ .head _)
  have hnext : Waits { o with correlation := c, nextId := o.nextId + 1 } :=
    ⟨(h.correlate htake fun _ hsent => nomatch hsent).correlation, h.triggerCfg, h.items, h.log⟩
  refine hnext.gate ?_ ?_
  · exact keepsReview_handleFlowPrediction hverdict h.triggerCfg
  · exact fun _ _ hrun _ => handleFlowPrediction_ok hverdict h.triggerCfg hrun

theorem Waits.step {o o' : Orchestrator K} {a : OrchestratorAction K} (h : o.Waits)
    (hst : Step o a o') : o'.Waits := by
  unfold Step at hst
  cases a with
  | alert alert now =>
    simp only [Orchestrator.next] at hst
    split at hst
    · cases hst
    · split at hst
      · next action haction =>
        simp only [Option.bind_eq_bind, Option.bind_eq_some_iff] at hst
        obtain ⟨c, hnext, hst⟩ := hst
        cases hst
        have hc := h.correlate hnext (sent_submitAlert haction)
        exact ⟨hc.correlation, hc.triggerCfg, hc.items, hc.log⟩
      · cases hst
        exact ⟨h.correlation, h.triggerCfg, h.items, h.log⟩
  | scored anomalyScore fiedlerShift now =>
    simp only [Orchestrator.next, Option.bind_eq_bind, Option.bind_eq_some_iff] at hst
    obtain ⟨flow, -, c, hnext, hst⟩ := hst
    cases hst
    have hsent : ∀ e, (submitScore o.threshold flow anomalyScore fiedlerShift now).sent = some e →
        NetworkEvidence e := by
      rintro e ⟨⟩
      exact networkEvidence_spectral ..
    have hc := h.correlate hnext hsent
    exact ⟨hc.correlation, hc.triggerCfg, hc.items, hc.log⟩
  | unscored =>
    cases hst
    exact ⟨h.correlation, h.triggerCfg, h.items, h.log⟩
  | recv now evicted =>
    simp only [Orchestrator.next, Option.bind_eq_bind, Option.bind_eq_some_iff] at hst
    obtain ⟨c, hnext, hst⟩ := hst
    cases hst
    exact h.correlate hnext fun _ hsent => nomatch hsent
  | sweep now =>
    simp only [Orchestrator.next, Option.bind_eq_bind, Option.bind_eq_some_iff] at hst
    obtain ⟨c, hnext, hst⟩ := hst
    cases hst
    exact h.correlate hnext fun _ hsent => nomatch hsent
  | handle observedAt enqueuedAt answer => exact h.handleVerdict hst
  | resolve flowId reviewer verdict rationale decidedAt answer =>
    cases hst
    exact h.gate (moves_resolveAndExecute _) fun _ _ _ hnone => nomatch hnone
  | claim flowId reviewer claimedAt =>
    cases hst
    exact h.queue (ReviewQueue.moves_claim _)
  | sweepExpired now slaSeconds order =>
    simp only [Orchestrator.next, Option.ite_none_right_eq_some] at hst
    obtain ⟨-, hst⟩ := hst
    cases hst
    exact h.queue (ReviewQueue.moves_sweepItems _)

/-- No flow is resolved without a review, and the response policy has a flow only when a reviewer
has decided so. -/
structure LeftToHumans (o : Orchestrator K) : Prop where
  unresolved : ∀ flowId item, o.queue.items.lookup flowId = some item →
    ∀ id, item.state ≠ .autoResolved id
  released : ∀ entry ∈ o.log, entry.disposition.released = true →
    ∃ reviewer, entry.reviewer = some reviewer

/-- Whatever alerts the orchestrator reads, and whatever scores the spectral engine gives them:
without evidence of a scanned file, containment waits for a human. -/
theorem leftToHumans_of_reachable {threshold : K} {o : Orchestrator K}
    (h : Reachable Step (start threshold) o) : o.LeftToHumans := by
  have hwaits : o.Waits := h.invariant (waits_start threshold) fun _ _ _ hw hst => hw.step hst
  refine ⟨hwaits.items, fun entry hentry hreleased => ?_⟩
  cases hreviewer : entry.reviewer with
  | some reviewer => exact ⟨reviewer, rfl⟩
  | none =>
    obtain ⟨reason, hqueued⟩ := hwaits.log entry hentry hreviewer
    rw [hqueued] at hreleased
    cases hreleased

/-- A host that both network lanes accuse is queued, and contained when a reviewer decides so. -/
def bothLanes : List (OrchestratorAction ℚ) :=
  let alert : NsmAlert := {
    detector := "beacon".toList
    message := "periodic traffic".toList
    srcIp := some (.v4 (Ipv4Addr.new 198 51 100 7))
    dstIp := some (.v4 (Ipv4Addr.new 203 0 113 9))
    extra := ∅ }
  [.alert alert 0, .scored (89 / 100) 0 1, .recv 2 none, .recv 3 none,
    .handle 1700000000 1700000000 (.ok ()),
    .resolve "corr-198.51.100.7-1".toList "alice".toList .executeContainment "beaconing".toList
      1700000060 (.ok ())]

theorem leftToHumans_of_reachable_bothLanes : ∃ o : Orchestrator ℚ,
    Reachable Step (start 1) o ∧
    o.log = [⟨"corr-198.51.100.7-1".toList, none, .queuedForReview .lowConfidenceAttack⟩,
      ⟨"corr-198.51.100.7-1".toList, some "alice".toList, .executed⟩] ∧ o.LeftToHumans := by
  have hend : (bothLanes.foldlM next (start (1 : ℚ))).any (fun o => decide
      (o.log = [⟨"corr-198.51.100.7-1".toList, none, .queuedForReview .lowConfidenceAttack⟩,
        ⟨"corr-198.51.100.7-1".toList, some "alice".toList, .executed⟩])) = true := by
    decide +kernel
  obtain ⟨o, hrun, hlog⟩ := (Option.any_eq_true _ _).mp hend
  have hreachable : Reachable Step (start 1) o := ⟨_, .of_foldlM (fun _ _ _ h => h) hrun⟩
  exact ⟨o, hreachable, of_decide_eq_true hlog, leftToHumans_of_reachable hreachable⟩

end Orchestrator

end ActiveDefense.Siem
