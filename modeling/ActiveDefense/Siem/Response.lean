import ActiveDefense.Lib.SlidingWindow
import ActiveDefense.Rust.Time
import ActiveDefense.Siem.Orchestrator

/-!
# The review gate and the response policy

`ReviewGatedResponse` hands an alert to the response policy when its flow is to be contained, at once
or by a reviewer's decision. The policy asks for the severity, the allowlist, its blocks and the rate
before it executes the response action. Every reading of the clock is an argument, and so is what the
action answers; a call of the action is logged with what the audit graph says of the flow then.
-/

namespace ActiveDefense.Siem

/-! ## The response policy -/

namespace Response

inductive Severity where
  | info
  | low
  | medium
  | high
  | critical
deriving DecidableEq

def Severity.rank : Severity → Nat
  | info => 0
  | low => 1
  | medium => 2
  | high => 3
  | critical => 4

/-- What the policy reads of an `Alert`. -/
structure Alert where
  severity : Severity
deriving DecidableEq

end Response

structure ResponsePolicy where
  minSeverity : Response.Severity
  allowlist : List Str
  maxActionsPerWindow : UInt32
  window : Duration
  recentActions : List Instant
  activeBlocks : Table Str Instant
  blockDuration : Duration

/-- What the environment has for a call of `ResponsePolicy::handle`: the answer of the action, and
when the rate is checked, the action executed, and the two times stored. -/
structure Attempt where
  taken : Bool
  checkedAt : Instant
  executedAt : Instant
  pushedAt : Instant
  blockedAt : Instant

/-- A call of a response action. -/
structure Execution where
  flowId : Str
  /-- what the audit graph says of the flow at the call -/
  authority : ContainmentDecision
  alert : Response.Alert
  targetIp : Str
  attempt : Attempt

/-- The policy, and the calls of response actions so far. -/
structure Responder where
  policy : ResponsePolicy
  executions : List Execution

/-- An operation of the policy. -/
abbrev Respond (α : Type) := EStateM Str Responder α

namespace ResponsePolicy

/-- `ResponsePolicy::new`. -/
def new (minSeverity : Response.Severity) (allowlist : List Str) : ResponsePolicy where
  minSeverity := minSeverity
  allowlist := allowlist
  maxActionsPerWindow := 10
  window := Duration.fromSecs 60
  recentActions := []
  activeBlocks := ∅
  blockDuration := Duration.fromSecs (15 * 60)

/-- `rate_limited`. The length is cast to a `u32`. -/
def rateLimited (now : Instant) : Respond Bool := do
  modify fun r => { r with policy := { r.policy with
    recentActions := r.policy.recentActions.filter fun t =>
      decide (now.durationSince t < r.policy.window) } }
  let r ← get
  return decide (r.policy.maxActionsPerWindow ≤ UInt32.ofNat r.policy.recentActions.length)

/-! The reasons for which `handle` withholds an action. -/

def belowMinimumSeverity : Str := "below minimum severity for automated response".toList

def targetAllowlisted : Str := "target is allowlisted; escalate to human review".toList

def alreadyActioned : Str := "already actioned; skipping duplicate".toList

def rateLimitReached : Str := "rate limit reached; escalate to human review".toList

def executorFailed : Str := "action executor reported failure".toList

/-- `handle`. -/
def handle (execute : Response.Alert → Str → Respond Bool) (alert : Response.Alert)
    (targetIp : Str) (a : Attempt) : Respond Unit := do
  let r ← get
  if alert.severity.rank < r.policy.minSeverity.rank then throw belowMinimumSeverity
  else if targetIp ∈ r.policy.allowlist then throw targetAllowlisted
  else if targetIp ∈ r.policy.activeBlocks then throw alreadyActioned
  else if ← rateLimited a.checkedAt then throw rateLimitReached
  else if ← execute alert targetIp then
    modify fun r => { r with policy := { r.policy with
      recentActions := r.policy.recentActions ++ [a.pushedAt]
      activeBlocks := r.policy.activeBlocks.insert targetIp a.blockedAt } }
  else throw executorFailed

/-- `expire_blocks`. -/
def expireBlocks (now : Instant) (p : ResponsePolicy) : ResponsePolicy :=
  { p with activeBlocks := p.activeBlocks.retain fun _ t =>
      decide (now.durationSince t < p.blockDuration) }

end ResponsePolicy

/-! ## The gate -/

inductive Category where
  | benign
  | reconnaissance
  | bruteForce
  | infiltration
  | commandAndControl
  | denialOfService

/-- `Category::name`. -/
def Category.name : Category → Str
  | benign => "Benign".toList
  | reconnaissance => "Reconnaissance".toList
  | bruteForce => "BruteForce".toList
  | infiltration => "Infiltration".toList
  | commandAndControl => "CommandAndControl".toList
  | denialOfService => "DenialOfService".toList

/-- A classifier's `Prediction`. -/
structure Prediction (φ : Type) where
  category : Category
  confidence : φ
  runnerUpCategory : Option Category
  runnerUpConfidence : Option φ

/-- `to_flow_prediction`. -/
def toFlowPrediction {φ : Type} (flowId : Str) (prediction : Prediction φ)
    (isAnomalousByAutoencoder : Bool) (observedAt : Timestamp) : FlowPrediction φ where
  flowId := flowId
  predictedLabel := prediction.category.name
  confidence := prediction.confidence
  runnerUpLabel := prediction.runnerUpCategory.map (·.name)
  runnerUpConfidence := prediction.runnerUpConfidence
  isOutOfDistribution := isAnomalousByAutoencoder
  observedAt := observedAt

structure ReviewGatedResponse (φ : Type) where
  queue : ReviewQueue φ
  policy : ResponsePolicy
  /-- the calls of response actions so far -/
  executions : List Execution

/-- An operation of the gate. -/
abbrev Gate (φ α : Type) := EStateM ReviewQueueError (ReviewGatedResponse φ) α

namespace ReviewGatedResponse

variable {φ : Type}

/-- An operation on the gate's queue. -/
def onQueue {α : Type} (x : Review φ α) : Gate φ α := fun g =>
  match x g.queue with
  | .ok a queue => .ok a { g with queue := queue }
  | .error e queue => .error e { g with queue := queue }

theorem onQueue_ok {α : Type} {x : Review φ α} {g : ReviewGatedResponse φ} {a : α}
    {queue : ReviewQueue φ} (h : x g.queue = .ok a queue) :
    onQueue x g = .ok a { g with queue := queue } := by
  unfold onQueue
  rw [h]

theorem onQueue_error {α : Type} {x : Review φ α} {g : ReviewGatedResponse φ}
    {e : ReviewQueueError} {queue : ReviewQueue φ} (h : x g.queue = .error e queue) :
    onQueue x g = .error e { g with queue := queue } := by
  unfold onQueue
  rw [h]

/-- The response action that is called for a flow. -/
def execute (g : ReviewGatedResponse φ) (flowId : Str) (a : Attempt) (alert : Response.Alert)
    (targetIp : Str) : Respond Bool := do
  modify fun r => { r with
    executions := r.executions ++
      [⟨flowId, g.queue.containmentDecision flowId, alert, targetIp, a⟩] }
  return a.taken

/-- The call of the response action for a flow. -/
def call (g : ReviewGatedResponse φ) (flowId : Str) (alert : Response.Alert) (targetIp : Str)
    (a : Attempt) : Execution :=
  ⟨flowId, g.queue.containmentDecision flowId, alert, targetIp, a⟩

@[simp] theorem call_attempt (g : ReviewGatedResponse φ) (flowId : Str) (alert : Response.Alert)
    (targetIp : Str) (a : Attempt) : (g.call flowId alert targetIp a).attempt = a := rfl

/-- `run_policy`, for a flow. -/
def runPolicy (flowId : Str) (alert : Response.Alert) (targetIp : Str) (a : Attempt) :
    Gate φ Disposition := fun g =>
  match ResponsePolicy.handle (g.execute flowId a) alert targetIp a ⟨g.policy, g.executions⟩ with
  | .ok _ r => .ok .executed { g with policy := r.policy, executions := r.executions }
  | .error reason r =>
    .ok (.withheldByPolicy reason) { g with policy := r.policy, executions := r.executions }

variable [FloatArith φ]

/-- `ReviewGatedResponse::new`. -/
def new (triggerCfg : TriggerConfig φ) (slaPolicy : SlaPolicy) (policy : ResponsePolicy) :
    Except ReviewQueueError (ReviewGatedResponse φ) :=
  (ReviewQueue.new triggerCfg slaPolicy).map fun queue => ⟨queue, policy, []⟩

/-- `handle_flow_prediction`. -/
def handleFlowPrediction (prediction : FlowPrediction φ) (enqueuedAt : Timestamp)
    (alert : Response.Alert) (targetIp : Str) (a : Attempt) : Gate φ Disposition := do
  match ← onQueue (ReviewQueue.ingest prediction enqueuedAt) with
  | .autoResolved .executeContainment _ => runPolicy prediction.flowId alert targetIp a
  | .autoResolved .dismiss _ => return .dismissed
  | .autoResolved .escalateFurther _ => return .escalated
  | .queuedForReview reason => return .queuedForReview reason

/-- `handle`. -/
def handle (flowId : Str) (prediction : Prediction φ) (isAnomalousByAutoencoder : Bool)
    (observedAt enqueuedAt : Timestamp) (alert : Response.Alert) (targetIp : Str) (a : Attempt) :
    Gate φ Disposition :=
  handleFlowPrediction (toFlowPrediction flowId prediction isAnomalousByAutoencoder observedAt)
    enqueuedAt alert targetIp a

omit [FloatArith φ] in
/-- `resolve_and_execute`. -/
def resolveAndExecute (flowId reviewer : Str) (verdict : Verdict) (rationale : Str)
    (decidedAt : Timestamp) (alert : Response.Alert) (targetIp : Str) (a : Attempt) :
    Gate φ Disposition := do
  let decision ← onQueue (ReviewQueue.recordDecision flowId reviewer verdict rationale decidedAt)
  match decision.verdict with
  | .executeContainment => runPolicy flowId alert targetIp a
  | .dismiss => return .dismissed
  | .escalateFurther => return .escalated

/-! ## The gate that the orchestrator has -/

omit [FloatArith φ] in
/-- The policy gives an answer, and leaves the queue. -/
theorem runPolicy_run (flowId : Str) (alert : Response.Alert) (targetIp : Str) (a : Attempt)
    (g : ReviewGatedResponse φ) : ∃ answer g',
      runPolicy flowId alert targetIp a g = .ok (Siem.runPolicy answer) g' ∧
        g'.queue = g.queue := by
  unfold runPolicy
  split
  · exact ⟨.ok (), _, rfl, rfl⟩
  · next reason _ _ => exact ⟨.error reason, _, rfl, rfl⟩

/-- On a prediction the gate is that of the orchestrator, for some answer of the policy. -/
theorem handleFlowPrediction_run (prediction : FlowPrediction φ) (enqueuedAt : Timestamp)
    (alert : Response.Alert) (targetIp : Str) (a : Attempt) (g : ReviewGatedResponse φ) :
    ∃ answer, match Siem.handleFlowPrediction prediction enqueuedAt answer g.queue with
      | .ok disposition queue => ∃ g', handleFlowPrediction prediction enqueuedAt alert targetIp a g =
          .ok disposition g' ∧ g'.queue = queue
      | .error e queue => handleFlowPrediction prediction enqueuedAt alert targetIp a g =
          .error e { g with queue := queue } := by
  unfold Siem.handleFlowPrediction handleFlowPrediction
  cases hrun : ReviewQueue.ingest prediction enqueuedAt g.queue with
  | error e queue =>
    refine ⟨.ok (), ?_⟩
    rw [bind_run_of_error hrun]
    exact bind_run_of_error (onQueue_error hrun)
  | ok outcome queue =>
    simp only [bind_run_of_ok hrun, bind_run_of_ok (onQueue_ok hrun)]
    cases outcome with
    | queuedForReview reason => exact ⟨.ok (), _, rfl, rfl⟩
    | autoResolved verdict id =>
      cases verdict with
      | executeContainment =>
        obtain ⟨answer, g', hpolicy, hqueue⟩ :=
          runPolicy_run prediction.flowId alert targetIp a { g with queue := queue }
        exact ⟨answer, g', hpolicy, hqueue⟩
      | dismiss => exact ⟨.ok (), _, rfl, rfl⟩
      | escalateFurther => exact ⟨.ok (), _, rfl, rfl⟩

/-- What the gate makes of a prediction: it asks the policy where the review contains the flow at
once, and nobody where it does not. -/
theorem handleFlowPrediction_cases (prediction : FlowPrediction φ) (enqueuedAt : Timestamp)
    (alert : Response.Alert) (targetIp : Str) (a : Attempt) (g : ReviewGatedResponse φ) :
    (∃ id queue,
      ReviewQueue.ingest prediction enqueuedAt g.queue =
        .ok (.autoResolved .executeContainment id) queue ∧
      handleFlowPrediction prediction enqueuedAt alert targetIp a g =
        runPolicy prediction.flowId alert targetIp a { g with queue := queue }) ∨
    (∀ id queue, ReviewQueue.ingest prediction enqueuedAt g.queue ≠
      .ok (.autoResolved .executeContainment id) queue) ∧
    finalState (handleFlowPrediction prediction enqueuedAt alert targetIp a g) =
      { g with queue := finalState (ReviewQueue.ingest prediction enqueuedAt g.queue) } ∧
    ∀ disposition g', handleFlowPrediction prediction enqueuedAt alert targetIp a g =
      .ok disposition g' → disposition.released = false := by
  unfold handleFlowPrediction
  cases hrun : ReviewQueue.ingest prediction enqueuedAt g.queue with
  | error e queue =>
    rw [bind_run_of_error (onQueue_error hrun)]
    exact .inr ⟨nofun, rfl, nofun⟩
  | ok outcome queue =>
    rw [bind_run_of_ok (onQueue_ok hrun)]
    cases outcome with
    | queuedForReview reason =>
      refine .inr ⟨nofun, rfl, fun disposition g' hresult => ?_⟩
      cases hresult
      rfl
    | autoResolved verdict id =>
      cases verdict with
      | executeContainment => exact .inl ⟨id, queue, rfl, rfl⟩
      | dismiss =>
        refine .inr ⟨nofun, rfl, fun disposition g' hresult => ?_⟩
        cases hresult
        rfl
      | escalateFurther =>
        refine .inr ⟨nofun, rfl, fun disposition g' hresult => ?_⟩
        cases hresult
        rfl

end ReviewGatedResponse

end ActiveDefense.Siem
