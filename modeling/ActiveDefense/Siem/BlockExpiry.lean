import ActiveDefense.Siem.HumanReview
import ActiveDefense.Siem.ResponseGate

/-!
# Blocks that are never lifted

`handle_verdicts` hands each verdict to the review gate, and nothing in the loop expires the blocks
of the response policy. The table holds a target from the first action that is taken on it, and a
verdict that comes after `block_duration` is refused like one that comes before.
-/

namespace ActiveDefense.Siem

/-- `correlation_severity_to_core`. -/
def correlationSeverityToCore : Severity → Response.Severity
  | .low => .low
  | .medium => .medium
  | .high => .high
  | .critical => .critical

variable {φ : Type}

/-- A turn of the loop of `handle_verdicts`: the verdict, with the readings of the clock and what
the response action answers. -/
structure VerdictTurn (φ : Type) where
  verdict : CorrelationVerdict φ
  observedAt : Timestamp
  enqueuedAt : Timestamp
  attempt : Attempt

namespace VerdictTurn

def alert (t : VerdictTurn φ) : Response.Alert where
  severity := correlationSeverityToCore t.verdict.severity

def targetIp (t : VerdictTurn φ) : Str := t.verdict.host.display

end VerdictTurn

/-- The loop of `handle_verdicts`, with the last reading of the clock. -/
structure VerdictLoop (φ : Type) where
  gated : ReviewGatedResponse φ
  nextId : UInt64
  clock : Instant

namespace VerdictLoop

/-- The flow id of a turn. -/
def flowId (l : VerdictLoop φ) (t : VerdictTurn φ) : Str :=
  "corr-".toList ++ t.verdict.host.display ++ '-' :: decimal l.nextId.toNat

def flowPrediction (l : VerdictLoop φ) (t : VerdictTurn φ) : FlowPrediction φ :=
  verdictToFlowPrediction t.verdict (l.flowId t) t.observedAt

/-- An action on the target was executed less than `block_duration` before the policy is asked. -/
def ActedRecently (l : VerdictLoop φ) (t : VerdictTurn φ) : Prop :=
  ∃ e ∈ l.gated.executions, e.attempt.taken = true ∧ e.targetIp = t.targetIp ∧
    e.attempt.executedAt ≤ t.attempt.checkedAt ∧
    t.attempt.checkedAt < e.attempt.executedAt + l.gated.policy.blockDuration

/-- An action on the target was executed. -/
def Acted (l : VerdictLoop φ) (t : VerdictTurn φ) : Prop :=
  ∃ e ∈ l.gated.executions, e.attempt.taken = true ∧ e.targetIp = t.targetIp

variable [FloatArith φ]

/-- What `main` sets up before the loop. -/
def start (minSeverity : Response.Severity) (allowlist : List Str) (clock : Instant) :
    VerdictLoop φ where
  gated := ⟨.initial .default .failSafe, .new minSeverity allowlist, []⟩
  nextId := 1
  clock := clock

/-- What the gate makes of the verdict. -/
def handle (l : VerdictLoop φ) (t : VerdictTurn φ) :
    EStateM.Result ReviewQueueError (ReviewGatedResponse φ) Disposition :=
  ReviewGatedResponse.handleFlowPrediction (l.flowPrediction t) t.enqueuedAt t.alert t.targetIp
    t.attempt l.gated

/-- The loop after a turn. -/
def next (l : VerdictLoop φ) (t : VerdictTurn φ) : VerdictLoop φ where
  gated := finalState (l.handle t)
  nextId := l.nextId + 1
  clock := t.attempt.blockedAt

/-- A turn of the loop. The clock does not go back. -/
def Step (l : VerdictLoop φ) (t : VerdictTurn φ) (l' : VerdictLoop φ) : Prop :=
  [l.clock, t.attempt.checkedAt, t.attempt.executedAt, t.attempt.pushedAt,
    t.attempt.blockedAt].IsChain (· ≤ ·) ∧ l' = l.next t

/-- The gate hands the verdict to the policy: two lanes corroborate it, its confidence is not known
to be too low, and the audit graph has neither its flow nor its decision yet. -/
structure Released (l : VerdictLoop φ) (t : VerdictTurn φ) : Prop where
  reason : t.verdict.reason = .multiLaneCorroboration
  confident : ¬ t.verdict.confidence < 0.90
  flow : l.flowId t ∉ l.gated.queue.engine.store.instances
  decision : decisionName (l.flowId t) l.gated.queue.decisionSeq ∉
    l.gated.queue.engine.store.instances

/-- A turn is refused as already actioned for a recent action only, and a target that has none can
be contained, again or for the first time. -/
structure Timely (l : VerdictLoop φ) (t : VerdictTurn φ) : Prop where
  refused : ∀ gated, l.handle t = .ok (.withheldByPolicy ResponsePolicy.alreadyActioned) gated →
    l.ActedRecently t
  lapsed : l.Released t → l.gated.policy.Permits t.alert t.targetIp t.attempt.checkedAt →
    t.attempt.taken = true → ¬ l.ActedRecently t → ∃ gated, l.handle t = .ok .executed gated

/-- The policy is asked for a target that it would act on but for its blocks, and each action on it
is `block_duration` ago or longer. -/
structure MeetsLapsed (l : VerdictLoop φ) (t : VerdictTurn φ) : Prop where
  released : l.Released t
  severity : l.gated.policy.minSeverity.rank ≤ t.alert.severity.rank
  target : t.targetIp ∉ l.gated.policy.allowlist
  acted : l.Acted t
  lapsed : ∀ e ∈ l.gated.executions, e.attempt.taken = true → e.targetIp = t.targetIp →
    e.attempt.executedAt + l.gated.policy.blockDuration ≤ t.attempt.checkedAt

end VerdictLoop

/-! ## A call of the policy -/

namespace ReviewGatedResponse

/-- The policy refuses as already actioned the targets in its table that it would act on. -/
theorem runPolicy_alreadyActioned_iff {flowId : Str} {alert : Response.Alert} {targetIp : Str}
    {a : Attempt} {g : ReviewGatedResponse φ} :
    (∃ g', runPolicy flowId alert targetIp a g =
      .ok (.withheldByPolicy ResponsePolicy.alreadyActioned) g') ↔
    g.policy.minSeverity.rank ≤ alert.severity.rank ∧ targetIp ∉ g.policy.allowlist ∧
      targetIp ∈ g.policy.activeBlocks := by
  unfold runPolicy
  rw [ResponsePolicy.handle_eq _ (· ++ [g.call flowId alert targetIp a]) _ _ _ _ fun _ => rfl]
  have hother : ∀ reason, reason ≠ ResponsePolicy.alreadyActioned →
      ∀ g₁ g₂ : ReviewGatedResponse φ,
      (EStateM.Result.ok (Disposition.withheldByPolicy reason) g₁ :
        EStateM.Result ReviewQueueError _ _) ≠
          .ok (.withheldByPolicy ResponsePolicy.alreadyActioned) g₂ := by
    intro reason hreason g₁ g₂ hsame
    cases hsame
    exact hreason rfl
  by_cases hseverity : alert.severity.rank < g.policy.minSeverity.rank
  · rw [if_pos hseverity]
    refine ⟨fun ⟨g', hrun⟩ => absurd hrun (hother _ (by decide) _ _), fun hguards => ?_⟩
    exact absurd hguards.1 (Nat.not_le_of_lt hseverity)
  rw [if_neg hseverity]
  by_cases htarget : targetIp ∈ g.policy.allowlist
  · rw [if_pos htarget]
    refine ⟨fun ⟨g', hrun⟩ => absurd hrun (hother _ (by decide) _ _), fun hguards => ?_⟩
    exact absurd htarget hguards.2.1
  rw [if_neg htarget]
  by_cases hblocked : targetIp ∈ g.policy.activeBlocks
  · rw [if_pos hblocked]
    exact ⟨fun _ => ⟨Nat.le_of_not_lt hseverity, htarget, hblocked⟩, fun _ => ⟨_, rfl⟩⟩
  rw [if_neg hblocked]
  refine ⟨fun ⟨g', hrun⟩ => ?_, fun hguards => absurd hguards.2.2 hblocked⟩
  split_ifs at hrun
  · exact absurd hrun (hother _ (by decide) _ _)
  · cases hrun
  · exact absurd hrun (hother _ (by decide) _ _)

/-- The policy has the action executed on a target that is not in its table, where its other guards
let it through. -/
theorem exists_runPolicy_executed {flowId : Str} {alert : Response.Alert} {targetIp : Str}
    {a : Attempt} {g : ReviewGatedResponse φ}
    (hpermits : g.policy.Permits alert targetIp a.checkedAt)
    (hblocked : targetIp ∉ g.policy.activeBlocks) (htaken : a.taken = true) :
    ∃ g', runPolicy flowId alert targetIp a g = .ok .executed g' ∧
      ∃ e ∈ g'.executions, e.targetIp = targetIp := by
  unfold runPolicy
  rw [ResponsePolicy.handle_eq _ (· ++ [g.call flowId alert targetIp a]) _ _ _ _ fun _ => rfl,
    if_neg (Nat.not_lt_of_le hpermits.severity), if_neg hpermits.target, if_neg hblocked,
    if_neg (UInt32.not_le.mpr hpermits.rate), if_pos htaken]
  exact ⟨_, rfl, _, List.mem_append_right _ (.head _), rfl⟩

/-- What a call of the policy leaves: the table has the target where the action was taken, and it is
the table from before where not. -/
theorem runPolicy_blocks (flowId : Str) (alert : Response.Alert) (targetIp : Str) (a : Attempt)
    (g : ReviewGatedResponse φ) : ∃ g', finalState (runPolicy flowId alert targetIp a g) = g' ∧
      g'.queue = g.queue ∧
      (g'.executions = g.executions ∧ g'.policy.activeBlocks = g.policy.activeBlocks ∨
        ∃ e : Execution, e.attempt = a ∧ e.targetIp = targetIp ∧
          g'.executions = g.executions ++ [e] ∧
          g'.policy.activeBlocks = if a.taken then g.policy.activeBlocks.insert targetIp a.blockedAt
            else g.policy.activeBlocks) := by
  have hcall := ResponsePolicy.handle_cases (g.execute flowId a)
    (· ++ [g.call flowId alert targetIp a]) alert targetIp a ⟨g.policy, g.executions⟩ fun _ => rfl
  unfold runPolicy
  rcases hcall with ⟨reason, p, hrun, hp⟩ | ⟨-, hrun⟩
  · rw [hrun]
    rcases hp with rfl | rfl
    · exact ⟨_, rfl, rfl, .inl ⟨rfl, rfl⟩⟩
    · exact ⟨_, rfl, rfl, .inl ⟨rfl, rfl⟩⟩
  · cases htaken : a.taken with
    | false =>
      rw [htaken, if_neg (by simp)] at hrun
      obtain ⟨reason, hrun⟩ := hrun
      rw [hrun]
      exact ⟨_, rfl, rfl, .inr ⟨_, rfl, rfl, rfl, rfl⟩⟩
    | true =>
      rw [htaken, if_pos rfl] at hrun
      rw [hrun]
      exact ⟨_, rfl, rfl, .inr ⟨_, rfl, rfl, rfl, rfl⟩⟩

end ReviewGatedResponse

/-! ## The loop -/

namespace VerdictLoop

variable [FloatArith φ]

/-- A turn does to the queue what the orchestrator does when it handles the verdict, for some answer
of the policy. -/
theorem exists_handleVerdict {o : Orchestrator φ} {l : VerdictLoop φ} {t : VerdictTurn φ}
    {outTx : Mpsc (CorrelationVerdict φ)} {correlation : Correlation φ}
    (hrecv : o.correlation.engine.outTx.recv = some (t.verdict, outTx))
    (hcorrelation : o.correlation.next .take = some correlation)
    (hqueue : o.queue = l.gated.queue) (hid : o.nextId = l.nextId) :
    ∃ answer o', o.handleVerdict t.observedAt t.enqueuedAt answer = some o' ∧
      o'.queue = (l.next t).gated.queue ∧ o'.nextId = (l.next t).nextId := by
  have hflow : o.flowId t.verdict = l.flowId t := by
    unfold Orchestrator.flowId flowId
    rw [hid]
  obtain ⟨answer, hgate⟩ := ReviewGatedResponse.handleFlowPrediction_run (l.flowPrediction t)
    t.enqueuedAt t.alert t.targetIp t.attempt l.gated
  have hfinal : finalState (handleFlowPrediction (l.flowPrediction t) t.enqueuedAt answer o.queue) =
      (l.next t).gated.queue := by
    unfold next handle
    rw [hqueue]
    split at hgate
    · next hrun =>
      obtain ⟨g', hhandle, hg'⟩ := hgate
      rw [hrun, hhandle]
      exact hg'.symm
    · next hrun =>
      rw [hrun, hgate]
      rfl
  obtain ⟨log, hlog⟩ := Orchestrator.gate_eq
    { o with correlation := correlation, nextId := o.nextId + 1 } (l.flowId t) none
    (handleFlowPrediction (l.flowPrediction t) t.enqueuedAt answer)
  refine ⟨answer, { o with
    correlation := correlation
    nextId := o.nextId + 1
    queue := finalState (handleFlowPrediction (l.flowPrediction t) t.enqueuedAt answer o.queue)
    log := log }, ?_, hfinal, congrArg (· + 1) hid⟩
  unfold flowPrediction at hlog ⊢
  rw [← hflow] at hlog ⊢
  unfold Orchestrator.handleVerdict
  rw [hrecv, hcorrelation]
  exact congrArg some hlog

/-- The table of the policy has the targets that were acted on, all of them before now. -/
structure Blocks (l : VerdictLoop φ) : Prop where
  sound : l.gated.queue.Sound
  triggerCfg : l.gated.queue.triggerCfg = .default
  blocked : ∀ ip, ip ∈ l.gated.policy.activeBlocks ↔
    ∃ e ∈ l.gated.executions, e.attempt.taken = true ∧ e.targetIp = ip
  past : ∀ e ∈ l.gated.executions, e.attempt.executedAt ≤ l.clock

theorem blocks_start (minSeverity : Response.Severity) (allowlist : List Str) (clock : Instant) :
    (start minSeverity allowlist clock : VerdictLoop φ).Blocks where
  sound := ReviewQueue.sound_initial _ _
  triggerCfg := rfl
  blocked ip := ⟨fun h => absurd h (AList.notMem_empty ip), fun ⟨_, he, _⟩ => nomatch he⟩
  past := nofun

/-- The review contains at once the verdicts that the gate releases. -/
theorem Blocks.released_iff {l : VerdictLoop φ} (h : l.Blocks) {t : VerdictTurn φ} :
    l.Released t ↔ ∃ id queue,
      ReviewQueue.ingest (l.flowPrediction t) t.enqueuedAt l.gated.queue =
        .ok (.autoResolved .executeContainment id) queue := by
  have hingested := h.sound.ingested (l.flowPrediction t) t.enqueuedAt
  have htrigger : ReviewTrigger.evaluate (l.flowPrediction t) l.gated.queue.triggerCfg = none ↔
      t.verdict.reason = .multiLaneCorroboration ∧ ¬ t.verdict.confidence < 0.90 := by
    rw [h.triggerCfg]
    exact evaluate_verdict_eq_none_iff
  have hverdict : ReviewQueue.autoVerdict (l.flowPrediction t) l.gated.queue.triggerCfg =
      .executeContainment := by
    rw [h.triggerCfg]
    exact if_neg (verdictToFlowPrediction_not_benign t.verdict (l.flowId t) t.observedAt)
  generalize ReviewQueue.ingest (l.flowPrediction t) t.enqueuedAt l.gated.queue = result
    at hingested ⊢
  cases hingested with
  | duplicateFlow hitem =>
    refine ⟨fun hreleased => absurd ?_ hreleased.flow, nofun⟩
    obtain ⟨item, hitem⟩ := AList.lookup_isSome.mpr hitem |> Option.isSome_iff_exists.mp
    exact AList.lookup_isSome.mp (Option.isSome_of_eq_some (h.sound.predicted _ _ hitem).2)
  | taken _ htaken => exact ⟨fun hreleased => absurd htaken hreleased.flow, nofun⟩
  | queued _ _ hreason =>
    refine ⟨fun hreleased => ?_, nofun⟩
    cases (htrigger.mpr ⟨hreleased.reason, hreleased.confident⟩).symm.trans hreason
  | refused _ _ _ htaken => exact ⟨fun hreleased => absurd htaken hreleased.decision, nofun⟩
  | autoResolved _ hnode hnone hfree hdecision _ =>
    subst hdecision
    obtain ⟨hreason, hconfident⟩ := htrigger.mp hnone
    have hnew : l.flowId t ∉ l.gated.queue.engine.store.instances := (recordPrediction_spec hnode).1
    rw [hverdict]
    exact ⟨fun _ => ⟨_, _, rfl⟩, fun _ => ⟨hreason, hconfident, hnew, hfree⟩⟩

/-- The thresholds stay. -/
theorem Blocks.triggerCfg_ingest {l : VerdictLoop φ} (h : l.Blocks) (t : VerdictTurn φ) :
    (finalState (ReviewQueue.ingest (l.flowPrediction t) t.enqueuedAt l.gated.queue)).triggerCfg =
      .default := by
  have hingested := h.sound.ingested (l.flowPrediction t) t.enqueuedAt
  generalize ReviewQueue.ingest (l.flowPrediction t) t.enqueuedAt l.gated.queue = result
    at hingested ⊢
  cases hingested <;> exact h.triggerCfg

/-- A call of the policy is in the table where its action was taken. -/
theorem Blocks.blocked_append {l : VerdictLoop φ} (h : l.Blocks) (e : Execution) (ip : Str) :
    (ip ∈ if e.attempt.taken then l.gated.policy.activeBlocks.insert e.targetIp e.attempt.blockedAt
      else l.gated.policy.activeBlocks) ↔
    ∃ e' ∈ l.gated.executions ++ [e], e'.attempt.taken = true ∧ e'.targetIp = ip := by
  have hblocked := h.blocked ip
  have happend : (∃ e' ∈ l.gated.executions ++ [e], e'.attempt.taken = true ∧ e'.targetIp = ip) ↔
      ip ∈ l.gated.policy.activeBlocks ∨ e.attempt.taken = true ∧ e.targetIp = ip := by
    rw [hblocked]
    simp only [List.mem_append, List.mem_singleton, or_and_right, exists_or, exists_eq_left]
  rw [happend]
  cases e.attempt.taken with
  | false => simp
  | true =>
    rw [if_pos rfl, AList.mem_insert, or_comm, eq_comm]
    simp

theorem Blocks.step {l l' : VerdictLoop φ} {t : VerdictTurn φ} (h : l.Blocks)
    (hstep : Step l t l') : l'.Blocks := by
  obtain ⟨htimes, rfl⟩ := hstep
  obtain ⟨hchecked, hexecuted, hpushed, hblocked⟩ : l.clock ≤ t.attempt.checkedAt ∧
      t.attempt.checkedAt ≤ t.attempt.executedAt ∧ t.attempt.executedAt ≤ t.attempt.pushedAt ∧
      t.attempt.pushedAt ≤ t.attempt.blockedAt := by
    simpa using htimes
  have hover : t.attempt.executedAt ≤ t.attempt.blockedAt := le_trans hpushed hblocked
  have hlater : l.clock ≤ t.attempt.blockedAt := le_trans hchecked (le_trans hexecuted hover)
  have hpast : ∀ e ∈ l.gated.executions, e.attempt.executedAt ≤ t.attempt.blockedAt :=
    fun e he => le_trans (h.past e he) hlater
  have hsound := h.sound.step (a := .ingest (l.flowPrediction t) t.enqueuedAt) ⟨trivial, rfl⟩
  simp only [ReviewAction.exec, finalState_discard] at hsound
  have htriggerCfg := h.triggerCfg_ingest t
  rcases ReviewGatedResponse.handleFlowPrediction_cases (l.flowPrediction t) t.enqueuedAt t.alert
    t.targetIp t.attempt l.gated with ⟨id, q, hrun, hpolicy⟩ | ⟨-, hfinal, -⟩
  · obtain ⟨g', hg', hqueue, heffect⟩ := ReviewGatedResponse.runPolicy_blocks
      (l.flowPrediction t).flowId t.alert t.targetIp t.attempt { l.gated with queue := q }
    have hnext : l.next t = ⟨g', l.nextId + 1, t.attempt.blockedAt⟩ := by
      unfold next handle
      rw [hpolicy, hg']
    rw [hrun] at hsound htriggerCfg
    rw [hnext]
    rcases heffect with ⟨hexecutions, hblocks⟩ | ⟨e, hattempt, htarget, hexecutions, hblocks⟩
    · refine ⟨hqueue ▸ hsound, hqueue ▸ htriggerCfg, ?_, ?_⟩
      · rw [hexecutions, hblocks]
        exact h.blocked
      · rw [hexecutions]
        exact hpast
    · refine ⟨hqueue ▸ hsound, hqueue ▸ htriggerCfg, ?_, ?_⟩
      · rw [hexecutions, hblocks, ← htarget, ← hattempt]
        exact h.blocked_append e
      · rw [hexecutions]
        intro e' he'
        rcases List.mem_append.mp he' with he' | he'
        · exact hpast e' he'
        · cases List.mem_singleton.mp he'
          rw [hattempt]
          exact hover
  · have hnext : l.next t = ⟨{ l.gated with queue := finalState (ReviewQueue.ingest
        (l.flowPrediction t) t.enqueuedAt l.gated.queue) }, l.nextId + 1, t.attempt.blockedAt⟩ := by
      unfold next handle
      rw [hfinal]
    rw [hnext]
    exact ⟨hsound, htriggerCfg, h.blocked, hpast⟩

/-- The policy refuses a verdict as already actioned where the gate releases it, and an action was
executed on its target before. -/
theorem Blocks.refused_iff {l : VerdictLoop φ} (h : l.Blocks) {t : VerdictTurn φ} :
    (∃ gated, l.handle t = .ok (.withheldByPolicy ResponsePolicy.alreadyActioned) gated) ↔
      l.Released t ∧ l.gated.policy.minSeverity.rank ≤ t.alert.severity.rank ∧
        t.targetIp ∉ l.gated.policy.allowlist ∧ l.Acted t := by
  unfold handle Acted
  rw [h.released_iff, ← h.blocked]
  rcases ReviewGatedResponse.handleFlowPrediction_cases (l.flowPrediction t) t.enqueuedAt t.alert
    t.targetIp t.attempt l.gated with ⟨id, q, hrun, hpolicy⟩ | ⟨hnot, -, hheld⟩
  · rw [hpolicy, ReviewGatedResponse.runPolicy_alreadyActioned_iff]
    exact ⟨fun hguards => ⟨⟨id, q, hrun⟩, hguards⟩, And.right⟩
  · constructor
    · rintro ⟨gated, hrefused⟩
      cases hheld _ _ hrefused
    · rintro ⟨⟨id, queue, hrun⟩, -⟩
      exact absurd hrun (hnot id queue)

/-- A verdict that the gate releases is acted on, where no action was executed on its target. -/
theorem Blocks.executed {l : VerdictLoop φ} (h : l.Blocks) {t : VerdictTurn φ}
    (hreleased : l.Released t)
    (hpermits : l.gated.policy.Permits t.alert t.targetIp t.attempt.checkedAt)
    (htaken : t.attempt.taken = true) (hacted : ¬ l.Acted t) :
    ∃ gated, l.handle t = .ok .executed gated ∧
      ∃ e ∈ gated.executions, e.targetIp = t.targetIp := by
  obtain ⟨id, q, hrun⟩ := h.released_iff.mp hreleased
  unfold handle
  rcases ReviewGatedResponse.handleFlowPrediction_cases (l.flowPrediction t) t.enqueuedAt t.alert
    t.targetIp t.attempt l.gated with ⟨id', q', -, hpolicy⟩ | ⟨hnot, -, -⟩
  · rw [hpolicy]
    exact ReviewGatedResponse.exists_runPolicy_executed hpermits
      (fun hblocked => hacted ((h.blocked _).mp hblocked)) htaken
  · exact absurd hrun (hnot id q)

/-- Of the targets that were acted on, those have a lapsed block that were not recently. -/
theorem Blocks.not_actedRecently_iff {l l' : VerdictLoop φ} {t : VerdictTurn φ} (h : l.Blocks)
    (hstep : Step l t l') : ¬ l.ActedRecently t ↔
      ∀ e ∈ l.gated.executions, e.attempt.taken = true → e.targetIp = t.targetIp →
        e.attempt.executedAt + l.gated.policy.blockDuration ≤ t.attempt.checkedAt := by
  have hchecked : l.clock ≤ t.attempt.checkedAt := (List.isChain_cons_cons.mp hstep.1).1
  constructor
  · intro hnot e he htaken htarget
    refine Nat.le_of_not_lt fun hrecent => hnot ⟨e, he, htaken, htarget, ?_, hrecent⟩
    exact le_trans (h.past e he) hchecked
  · rintro hlapsed ⟨e, he, htaken, htarget, -, hrecent⟩
    exact absurd hrecent (Nat.not_lt_of_le (hlapsed e he htaken htarget))

/-- A turn is timely exactly if it does not meet a block that has lapsed. -/
theorem Blocks.timely_iff {l l' : VerdictLoop φ} {t : VerdictTurn φ} (h : l.Blocks)
    (hstep : Step l t l') : l.Timely t ↔ ¬ l.MeetsLapsed t := by
  have hrecent := h.not_actedRecently_iff hstep
  constructor
  · rintro htimely ⟨hreleased, hseverity, htarget, hacted, hlapsed⟩
    obtain ⟨gated, hrefused⟩ := h.refused_iff.mpr ⟨hreleased, hseverity, htarget, hacted⟩
    exact hrecent.mpr hlapsed (htimely.refused gated hrefused)
  · intro hmeets
    refine ⟨fun gated hrefused => ?_, fun hreleased hpermits htaken hnot => ?_⟩
    · obtain ⟨hreleased, hseverity, htarget, hacted⟩ := h.refused_iff.mp ⟨gated, hrefused⟩
      refine Classical.byContradiction fun hnot => hmeets ?_
      exact ⟨hreleased, hseverity, htarget, hacted, hrecent.mp hnot⟩
    · have hfirst : ¬ l.Acted t := fun hacted =>
        hmeets ⟨hreleased, hpermits.severity, hpermits.target, hacted, hrecent.mp hnot⟩
      obtain ⟨gated, hhandle, -⟩ := h.executed hreleased hpermits htaken hfirst
      exact ⟨gated, hhandle⟩

/-- The runs of the loop whose turns are timely are those in which no turn meets a block that has
lapsed. -/
theorem timely_run_iff {minSeverity : Response.Severity} {allowlist : List Str} {clock : Instant}
    {ts : List (VerdictTurn φ)} {l : VerdictLoop φ} :
    Run Step Timely (start minSeverity allowlist clock) ts l ↔
      Run Step (fun l t => ¬ l.MeetsLapsed t) (start minSeverity allowlist clock) ts l :=
  Run.congr fun _ _ _ hreachable hstep =>
    (hreachable.invariant (blocks_start minSeverity allowlist clock)
      fun _ _ _ hs hst => hs.step hst).timely_iff hstep

/-- Two lanes on a host, with what the clock reads. -/
def corroborated (host : IpAddr) (now : Instant) : VerdictTurn Float where
  verdict := ⟨host, .high, 0.95, [.xdp, .clamAv], [], .multiLaneCorroboration, now, now⟩
  observedAt := 1700000000
  enqueuedAt := 1700000000
  attempt := ⟨true, now, now, now, now⟩

/-- A host that is contained, and an hour later is not contained again. -/
theorem not_timely : ¬ ∀ (minSeverity : Response.Severity) (allowlist : List Str)
    (clock : Instant) (ts : List (VerdictTurn Float)) (l : VerdictLoop Float),
    Run Step (fun _ _ => True) (start minSeverity allowlist clock) ts l →
      Run Step Timely (start minSeverity allowlist clock) ts l := by
  intro hclaim
  let first := corroborated (.v4 0x0A000007) 0
  let second := corroborated (.v4 0x0A000007) (Duration.fromSecs 3600)
  let entry : VerdictLoop Float := start .high [] 0
  have hone : Run Step (fun _ _ => True) entry [first] (entry.next first) :=
    .single trivial ⟨by decide, rfl⟩
  have htwo : Run Step (fun _ _ => True) entry ([first] ++ [second])
      ((entry.next first).next second) :=
    hone.snoc trivial ⟨by decide, rfl⟩
  obtain ⟨l, hbefore, htimely, -⟩ := (hclaim _ _ _ _ _ htwo).of_snoc
  have hunique : ∀ (s : VerdictLoop Float) t u u', Step s t u → Step s t u' → u = u' :=
    fun _ _ _ _ h h' => h.2.trans h'.2.symm
  cases Run.unique hunique (hbefore.mono fun _ _ _ => trivial) hone
  have hrefused : (match (entry.next first).handle second with
      | .ok disposition _ => some disposition
      | .error _ _ => none) = some (.withheldByPolicy ResponsePolicy.alreadyActioned) := by
    decide
  have hlapsed : ∀ e ∈ (entry.next first).gated.executions,
      ¬ second.attempt.checkedAt <
        e.attempt.executedAt + (entry.next first).gated.policy.blockDuration := by
    decide
  split at hrefused
  · next hrun =>
    cases hrefused
    obtain ⟨e, he, -, -, -, hrecent⟩ := htimely.refused _ hrun
    exact hlapsed e he hrecent
  · cases hrefused

end VerdictLoop

end ActiveDefense.Siem
