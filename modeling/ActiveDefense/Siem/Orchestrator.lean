import ActiveDefense.Siem.Correlation
import ActiveDefense.Siem.ReviewQueue

/-!
# The orchestrator

The traffic lanes feed each NSM alert to the correlation engine twice, as evidence of the XDP lane
and, when the spectral engine has scored it, as evidence of the spectral lane. One task takes the
engine's verdicts and hands each to the review gate, which calls the response policy at once or
queues the verdict for a human. The score of an alert and the policy's answer are part of a step's
label.
-/

namespace ActiveDefense.Siem

/-! ## The lanes that an alert feeds -/

/-- An `NsmAlert`. Of its payload, the members that are unsigned integers. -/
structure NsmAlert where
  detector : Str
  message : Str
  srcIp : Option IpAddr
  dstIp : Option IpAddr
  extra : Table Str UInt64

/-- `nsm_alert_flow_key`. -/
def nsmAlertFlowKey (alert : NsmAlert) : Option FlowKey := do
  let srcIp ← alert.srcIp
  let dstIp ← alert.dstIp <|> alert.srcIp
  let srcPort := ((alert.extra.lookup "src_port".toList).getD 0).toUInt16
  let dstPort := ((alert.extra.lookup "dst_port".toList).getD 0).toUInt16
  let protocol : Protocol :=
    match alert.extra.lookup "proto".toList with
    | some 6 => .tcp
    | some 17 => .udp
    | some 1 => .icmp
    | some other => .other other.toUInt8
    | none => .tcp
  some ⟨srcIp, dstIp, srcPort, dstPort, protocol⟩

/-- `nsm_alert_host`. -/
def nsmAlertHost (alert : NsmAlert) : Option IpAddr := alert.srcIp <|> alert.dstIp

variable {φ : Type}

/-- What `submit_alert` sends. -/
def submitAlert (alert : NsmAlert) (now : Instant) : Option (CorrelationAction φ) := do
  let host ← nsmAlertHost alert
  let flow := (nsmAlertFlowKey alert).getD ⟨host, host, 0, 0, .tcp⟩
  let reason := "nsm/".toList ++ alert.detector ++ ": ".toList ++ alert.message
  some (.xdp host flow reason false now)

/-- The host and the flow that `run_traffic_lanes` has the spectral engine score. -/
def scoredFlow (alert : NsmAlert) : Option (IpAddr × FlowKey) := do
  let host ← nsmAlertHost alert
  let flow ← nsmAlertFlowKey alert
  some (host, flow)

/-- What `ingest_and_submit` sends, when the spectral engine has scored the flow. -/
def submitScore [FloatArith φ] (threshold : φ) (flow : IpAddr × FlowKey)
    (anomalyScore fiedlerShift : φ) (now : Instant) : CorrelationAction φ :=
  let normalized := if 0.0 < threshold then clamp (anomalyScore / threshold) 0.0 1.0 else 0.0
  .spectral flow.1 flow.2 normalized fiedlerShift now

/-! ## The review gate -/

/-- `verdict_to_flow_prediction`. -/
def verdictToFlowPrediction (verdict : CorrelationVerdict φ) (flowId : Str)
    (observedAt : Timestamp) : FlowPrediction φ where
  flowId := flowId
  predictedLabel :=
    match verdict.reason with
    | .multiLaneCorroboration => "MultiLaneCorroboration".toList
    | .singleLaneCritical => "SingleLaneCritical".toList
  confidence := verdict.confidence
  runnerUpLabel := none
  runnerUpConfidence := none
  isOutOfDistribution := decide (verdict.reason = .singleLaneCritical)
  observedAt := observedAt

/-- No verdict is presented as benign. -/
theorem verdictToFlowPrediction_not_benign [FloatArith φ] (verdict : CorrelationVerdict φ)
    (flowId : Str) (observedAt : Timestamp) :
    (verdictToFlowPrediction verdict flowId observedAt).predictedLabel ≠
      (TriggerConfig.default : TriggerConfig φ).benignLabel := by
  unfold verdictToFlowPrediction
  dsimp only
  cases verdict.reason with
  | multiLaneCorroboration =>
    exact (by decide : "MultiLaneCorroboration".toList ≠ "Benign".toList)
  | singleLaneCritical => exact (by decide : "SingleLaneCritical".toList ≠ "Benign".toList)

inductive Disposition where
  | executed
  | withheldByPolicy (reason : Str)
  | queuedForReview (reason : TriggerReason)
  | dismissed
  | escalated
deriving DecidableEq

/-- The gate let the response policy have the alert. -/
def Disposition.released : Disposition → Bool
  | executed | withheldByPolicy _ => true
  | queuedForReview _ | dismissed | escalated => false

/-- `run_policy`, with what the policy answers. -/
def runPolicy : Except Str Unit → Disposition
  | .ok () => .executed
  | .error reason => .withheldByPolicy reason

/-- `ReviewGatedResponse::handle_flow_prediction`. -/
def handleFlowPrediction [FloatArith φ] (prediction : FlowPrediction φ) (enqueuedAt : Timestamp)
    (answer : Except Str Unit) : Review φ Disposition := do
  match ← ReviewQueue.ingest prediction enqueuedAt with
  | .autoResolved .executeContainment _ => return runPolicy answer
  | .autoResolved .dismiss _ => return .dismissed
  | .autoResolved .escalateFurther _ => return .escalated
  | .queuedForReview reason => return .queuedForReview reason

/-- `ReviewGatedResponse::resolve_and_execute`. -/
def resolveAndExecute (flowId reviewer : Str) (verdict : Verdict) (rationale : Str)
    (decidedAt : Timestamp) (answer : Except Str Unit) : Review φ Disposition := do
  let decision ← ReviewQueue.recordDecision flowId reviewer verdict rationale decidedAt
  match decision.verdict with
  | .executeContainment => return runPolicy answer
  | .dismiss => return .dismissed
  | .escalateFurther => return .escalated

/-! ## The whole -/

/-- What the gate made of a flow, and the reviewer whose decision it was. -/
structure GateEntry where
  flowId : Str
  reviewer : Option Str
  disposition : Disposition
deriving DecidableEq

structure Orchestrator (φ : Type) where
  threshold : φ
  correlation : Correlation φ
  /-- what the traffic lanes wait for the spectral engine to score -/
  scoring : Option (IpAddr × FlowKey)
  queue : ReviewQueue φ
  nextId : UInt64
  /-- what the gate has made of each flow it was asked about -/
  log : List GateEntry

/-- What happens in one step. The last three are the gate's methods for the humans who review, and
for a review that takes too long. -/
inductive OrchestratorAction (φ : Type) where
  /-- the traffic lanes read an alert -/
  | alert (alert : NsmAlert) (now : Instant)
  /-- the spectral engine answers them -/
  | scored (anomalyScore fiedlerShift : φ) (now : Instant)
  /-- the spectral engine fails -/
  | unscored
  /-- the correlation engine takes the next event -/
  | recv (now : Instant) (evicted : Option IpAddr)
  | sweep (now : Instant)
  /-- the gate is handed the next verdict -/
  | handle (observedAt enqueuedAt : Timestamp) (answer : Except Str Unit)
  | resolve (flowId reviewer : Str) (verdict : Verdict) (rationale : Str) (decidedAt : Timestamp)
      (answer : Except Str Unit)
  | claim (flowId reviewer : Str) (claimedAt : Timestamp)
  | sweepExpired (now slaSeconds : Timestamp) (order : List (Str × Timestamp))

namespace Orchestrator

/-- What `main` sets up, with the threshold that the spectral engine came to. -/
def start [FloatArith φ] (threshold : φ) : Orchestrator φ where
  threshold := threshold
  correlation := .start .default (.channel 256)
  scoring := none
  queue := .initial .default .failSafe
  nextId := 1
  log := []

/-- An operation of the gate on a flow: what it made of the flow is logged, unless it failed. -/
def gate (o : Orchestrator φ) (flowId : Str) (reviewer : Option Str) (x : Review φ Disposition) :
    Orchestrator φ :=
  match x o.queue with
  | .ok disposition queue =>
    { o with queue := queue, log := o.log ++ [⟨flowId, reviewer, disposition⟩] }
  | .error _ queue => { o with queue := queue }

/-- An operation of the gate leaves the queue that it ends with, and all but the log. -/
theorem gate_eq (o : Orchestrator φ) (flowId : Str) (reviewer : Option Str)
    (x : Review φ Disposition) : ∃ log,
      o.gate flowId reviewer x = { o with queue := finalState (x o.queue), log := log } := by
  unfold Orchestrator.gate
  split
  · next hrun =>
    rw [hrun]
    exact ⟨_, rfl⟩
  · next hrun =>
    rw [hrun]
    exact ⟨_, rfl⟩

/-- The flow id that `handle_verdicts` makes for a verdict. -/
def flowId (o : Orchestrator φ) (verdict : CorrelationVerdict φ) : Str :=
  "corr-".toList ++ verdict.host.display ++ '-' :: decimal o.nextId.toNat

variable [FloatArith φ]

/-- A turn of the loop of `handle_verdicts`. -/
def handleVerdict (o : Orchestrator φ) (observedAt enqueuedAt : Timestamp)
    (answer : Except Str Unit) : Option (Orchestrator φ) := do
  let (verdict, _) ← o.correlation.engine.outTx.recv
  let correlation ← o.correlation.next .take
  let prediction := verdictToFlowPrediction verdict (o.flowId verdict) observedAt
  let o' := { o with correlation := correlation, nextId := o.nextId + 1 }
  some (o'.gate (o.flowId verdict) none (handleFlowPrediction prediction enqueuedAt answer))

/-- The state after a step. -/
def next (o : Orchestrator φ) : OrchestratorAction φ → Option (Orchestrator φ)
  | .alert alert now =>
    match o.scoring with
    | some _ => none
    | none => do
      let correlation ←
        match submitAlert alert now with
        | some action => o.correlation.next action
        | none => some o.correlation
      some { o with correlation := correlation, scoring := scoredFlow alert }
  | .scored anomalyScore fiedlerShift now => do
    let flow ← o.scoring
    let action := submitScore o.threshold flow anomalyScore fiedlerShift now
    some { o with correlation := ← o.correlation.next action, scoring := none }
  | .unscored => some { o with scoring := none }
  | .recv now evicted => do
    some { o with correlation := ← o.correlation.next (.recv now evicted) }
  | .sweep now => do
    some { o with correlation := ← o.correlation.next (.sweep now) }
  | .handle observedAt enqueuedAt answer => o.handleVerdict observedAt enqueuedAt answer
  | .resolve flowId reviewer verdict rationale decidedAt answer =>
    some (o.gate flowId (some reviewer)
      (resolveAndExecute flowId reviewer verdict rationale decidedAt answer))
  | .claim flowId reviewer claimedAt =>
    some { o with queue := finalState (ReviewQueue.claim flowId reviewer claimedAt o.queue) }
  | .sweepExpired now slaSeconds order =>
    if (order.map Prod.fst).Perm (o.queue.expiredFlowIds now slaSeconds) then
      some { o with queue := finalState (ReviewQueue.sweepItems slaSeconds order o.queue) }
    else none

/-- The steps. -/
def Step (o : Orchestrator φ) (a : OrchestratorAction φ) (o' : Orchestrator φ) : Prop :=
  o.next a = some o'

end Orchestrator

end ActiveDefense.Siem
