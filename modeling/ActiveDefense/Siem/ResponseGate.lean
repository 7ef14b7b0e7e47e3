import ActiveDefense.Siem.QueueHistory
import ActiveDefense.Siem.Response
import ActiveDefense.Siem.Trigger

/-!
# What a response action is executed for

A flow's decision to contain stays in the audit graph, and the executor goes by it. The policy asks
for the severity and the allowlist first, and for the rate last, with the times of the actions taken
that still count.
-/

namespace ActiveDefense.Siem

/-! ## The policy -/

namespace ResponsePolicy

/-- The policy forgets the actions that do not count any more. -/
def forget (now : Instant) (p : ResponsePolicy) : ResponsePolicy :=
  { p with recentActions := within p.window now p.recentActions }

/-- The guards before the action let a call through. -/
structure Permits (p : ResponsePolicy) (alert : Response.Alert) (targetIp : Str) (now : Instant) :
    Prop where
  severity : p.minSeverity.rank ≤ alert.severity.rank
  target : targetIp ∉ p.allowlist
  rate : UInt32.ofNat (within p.window now p.recentActions).length < p.maxActionsPerWindow

/-- The guards of `handle`, in order. -/
theorem handle_eq (execute : Response.Alert → Str → Respond Bool)
    (record : List Execution → List Execution) (alert : Response.Alert) (targetIp : Str)
    (a : Attempt) (r : Responder)
    (hexecute : ∀ r, execute alert targetIp r =
      .ok a.taken { r with executions := record r.executions }) :
    handle execute alert targetIp a r =
      if alert.severity.rank < r.policy.minSeverity.rank then .error belowMinimumSeverity r
      else if targetIp ∈ r.policy.allowlist then .error targetAllowlisted r
      else if targetIp ∈ r.policy.activeBlocks then .error alreadyActioned r
      else if r.policy.maxActionsPerWindow ≤
          UInt32.ofNat (within r.policy.window a.checkedAt r.policy.recentActions).length then
        .error rateLimitReached ⟨r.policy.forget a.checkedAt, r.executions⟩
      else if a.taken then .ok ()
        ⟨{ r.policy.forget a.checkedAt with
          recentActions := (r.policy.forget a.checkedAt).recentActions ++ [a.pushedAt]
          activeBlocks := r.policy.activeBlocks.insert targetIp a.blockedAt },
          record r.executions⟩
      else .error executorFailed ⟨r.policy.forget a.checkedAt, record r.executions⟩ := by
  have hrate : rateLimited a.checkedAt r = .ok
      (decide (r.policy.maxActionsPerWindow ≤
        UInt32.ofNat (within r.policy.window a.checkedAt r.policy.recentActions).length))
      { r with policy := r.policy.forget a.checkedAt } := rfl
  unfold handle
  simp only [get_bind_run]
  split
  · rfl
  split
  · rfl
  split
  · rfl
  rw [bind_run_of_ok hrate]
  simp only [decide_eq_true_eq]
  split
  · rfl
  rw [bind_run_of_ok (hexecute _)]
  cases a.taken with
  | true => rfl
  | false => rfl

/-- What `handle` comes to: it withholds the action, or the action fails, or it is taken. -/
theorem handle_cases (execute : Response.Alert → Str → Respond Bool)
    (record : List Execution → List Execution) (alert : Response.Alert) (targetIp : Str)
    (a : Attempt) (r : Responder)
    (hexecute : ∀ r, execute alert targetIp r =
      .ok a.taken { r with executions := record r.executions }) :
    (∃ reason p, handle execute alert targetIp a r = .error reason ⟨p, r.executions⟩ ∧
      (p = r.policy ∨ p = r.policy.forget a.checkedAt)) ∨
    r.policy.Permits alert targetIp a.checkedAt ∧
      if a.taken then handle execute alert targetIp a r = .ok ()
        ⟨{ r.policy.forget a.checkedAt with
          recentActions := (r.policy.forget a.checkedAt).recentActions ++ [a.pushedAt]
          activeBlocks := r.policy.activeBlocks.insert targetIp a.blockedAt },
          record r.executions⟩
      else ∃ reason, handle execute alert targetIp a r =
        .error reason ⟨r.policy.forget a.checkedAt, record r.executions⟩ := by
  rw [handle_eq execute record alert targetIp a r hexecute]
  split
  · exact .inl ⟨_, _, rfl, .inl rfl⟩
  next hseverity =>
  split
  · exact .inl ⟨_, _, rfl, .inl rfl⟩
  next htarget =>
  split
  · exact .inl ⟨_, _, rfl, .inl rfl⟩
  split
  · exact .inl ⟨_, _, rfl, .inr rfl⟩
  next hlimited =>
  refine .inr ⟨⟨Nat.le_of_not_lt hseverity, htarget, UInt32.not_le.mp hlimited⟩, ?_⟩
  cases a.taken with
  | true => rfl
  | false => exact ⟨_, rfl⟩

end ResponsePolicy

/-! ## The queue -/

namespace ReviewQueue

variable {φ : Type} [FloatArith φ]

/-- A decision to contain approves its flow. -/
theorem Sound.approved_of_holds {q : ReviewQueue φ} (h : q.Sound) {decision : AuditDecision}
    (hholds : q.Holds decision) (hverdict : decision.verdict = .executeContainment) :
    q.containmentDecision decision.flowId = .approved decision.decisionId := by
  have hrecorded := h.trail decision.flowId
  rw [h.decided _ decision hholds] at hrecorded
  obtain ⟨decision', hid, -, hnode, hcheck⟩ := hrecorded.check_some
  have hsame := decisionInstance_injective (Option.some.inj (hnode.symm.trans hholds))
  rw [containmentDecision, hcheck, hsame, if_pos hverdict]

/-- An ingest that resolves a flow at once has recorded the verdict. -/
theorem Sound.holds_of_ingest {q q' : ReviewQueue φ} (h : q.Sound)
    {prediction : FlowPrediction φ} {enqueuedAt : Timestamp} {verdict : Verdict} {id : Str}
    (hrun : ingest prediction enqueuedAt q = .ok (.autoResolved verdict id) q') :
    ∃ decision, q'.Holds decision ∧ decision.flowId = prediction.flowId ∧
      decision.verdict = verdict := by
  have hingested := h.ingested prediction enqueuedAt
  rw [hrun] at hingested
  cases hingested with
  | autoResolved _ _ _ _ hdecision hrecord =>
    obtain ⟨-, hinstances, -⟩ := recordDecisionNode_spec hrecord
    refine ⟨_, ?_, by rw [hdecision], rfl⟩
    unfold Holds
    simp only [hinstances, AList.lookup_insert]

omit [FloatArith φ] in
/-- A decision that was recorded is in the audit graph. -/
theorem holds_of_recordDecision {q q' : ReviewQueue φ} {flowId reviewer rationale : Str}
    {verdict : Verdict} {decidedAt : Timestamp} {decision : AuditDecision}
    (hrun : recordDecision flowId reviewer verdict rationale decidedAt q = .ok decision q') :
    q'.Holds decision ∧ decision.flowId = flowId ∧ decision.verdict = verdict := by
  obtain ⟨item, -, -, hresolve⟩ := recordDecision_spec hrun
  obtain ⟨id, engine, hdecision, hrecord, rfl⟩ := resolve_spec hresolve
  obtain ⟨-, hinstances, -⟩ := recordDecisionNode_spec hrecord
  refine ⟨?_, by rw [hdecision], by rw [hdecision]⟩
  unfold Holds
  simp only [hinstances, AList.lookup_insert]

end ReviewQueue

/-! ## Runs -/

/-- An operation of the gate, or one on its queue or its policy. The readings of the clock are part
of it, and so is what a response action answers. -/
inductive GateAction (φ : Type) where
  | handle (flowId : Str) (prediction : Prediction φ) (isAnomalousByAutoencoder : Bool)
      (observedAt enqueuedAt : Timestamp) (alert : Response.Alert) (targetIp : Str) (a : Attempt)
  | handleFlowPrediction (prediction : FlowPrediction φ) (enqueuedAt : Timestamp)
      (alert : Response.Alert) (targetIp : Str) (a : Attempt)
  | resolveAndExecute (flowId reviewer : Str) (verdict : Verdict) (rationale : Str)
      (decidedAt : Timestamp) (alert : Response.Alert) (targetIp : Str) (a : Attempt)
  | queue (a : ReviewAction φ)
  | expireBlocks (now : Instant)

namespace GateAction

variable {φ : Type} [FloatArith φ]

/-- The operation, without its result. -/
def exec : GateAction φ → Gate φ Unit
  | handle flowId prediction isAnomalousByAutoencoder observedAt enqueuedAt alert targetIp a =>
    discard (ReviewGatedResponse.handle flowId prediction isAnomalousByAutoencoder observedAt
      enqueuedAt alert targetIp a)
  | handleFlowPrediction prediction enqueuedAt alert targetIp a =>
    discard (ReviewGatedResponse.handleFlowPrediction prediction enqueuedAt alert targetIp a)
  | resolveAndExecute flowId reviewer verdict rationale decidedAt alert targetIp a =>
    discard (ReviewGatedResponse.resolveAndExecute flowId reviewer verdict rationale decidedAt
      alert targetIp a)
  | queue a => ReviewGatedResponse.onQueue a.exec
  | expireBlocks now => modify fun g => { g with policy := g.policy.expireBlocks now }

/-- The readings of the clock, in order. -/
def times : GateAction φ → List Instant
  | handle _ _ _ _ _ _ _ a | handleFlowPrediction _ _ _ _ a
  | resolveAndExecute _ _ _ _ _ _ _ a => [a.checkedAt, a.executedAt, a.pushedAt, a.blockedAt]
  | queue _ => []
  | expireBlocks now => [now]

/-- A sweep comes to each flow that it finds expired, and to each of them once. -/
def Allowed (g : ReviewGatedResponse φ) : GateAction φ → Prop
  | queue a => a.Allowed g.queue
  | _ => True

end GateAction

/-- The gate, and the last reading of the clock. -/
structure GateState (φ : Type) where
  gate : ReviewGatedResponse φ
  clock : Instant

variable {φ : Type} [FloatArith φ]

/-- An operation leaves the state that it ends in, whether it succeeds or fails, and the clock does
not go back. -/
def GateStep (s : GateState φ) (a : GateAction φ) (s' : GateState φ) : Prop :=
  a.Allowed s.gate ∧ (s.clock :: a.times).IsChain (· ≤ ·) ∧
    s' = ⟨finalState (a.exec s.gate), a.times.getLastD s.clock⟩

/-! ## What every operation keeps -/

/-- The actions taken, with the times that were stored for them. -/
def takenActions (executions : List Execution) : List Stamped :=
  (executions.filter (·.attempt.taken)).map fun e => ⟨e.attempt.executedAt, e.attempt.pushedAt⟩

theorem takenActions_append (executions : List Execution) (e : Execution) :
    takenActions (executions ++ [e]) = takenActions executions ++
      if e.attempt.taken then [⟨e.attempt.executedAt, e.attempt.pushedAt⟩] else [] := by
  unfold takenActions
  rw [List.filter_append, List.map_append]
  cases htaken : e.attempt.taken <;> simp [htaken]

/-- A call of an action was for a flow that is to be contained, and the guards let it through. -/
structure Justified (g : ReviewGatedResponse φ) (e : Execution) : Prop where
  authority : ∃ id, e.authority = .approved id
  decided : ∃ decision, g.queue.Holds decision ∧ decision.flowId = e.flowId ∧
    decision.verdict = .executeContainment
  severity : g.policy.minSeverity.rank ≤ e.alert.severity.rank
  target : e.targetIp ∉ g.policy.allowlist

/-- The policy's settings are these. -/
structure Configured (policy p : ResponsePolicy) : Prop where
  minSeverity : p.minSeverity = policy.minSeverity
  allowlist : p.allowlist = policy.allowlist
  maxActionsPerWindow : p.maxActionsPerWindow = policy.maxActionsPerWindow
  window : p.window = policy.window

structure Guarded (policy : ResponsePolicy) (g : ReviewGatedResponse φ) (clock : Instant) :
    Prop where
  sound : g.queue.Sound
  configured : Configured policy g.policy
  justified : ∀ e ∈ g.executions, Justified g e
  limited : Limited policy.window policy.maxActionsPerWindow.toNat (takenActions g.executions)
    g.policy.recentActions clock

/-- An operation on the queue. -/
theorem Guarded.queue {policy : ResponsePolicy} {g : ReviewGatedResponse φ} {clock : Instant}
    (h : Guarded policy g clock) {a : ReviewAction φ} {q : ReviewQueue φ}
    (hstep : ReviewQueue.Step g.queue a q) : Guarded policy { g with queue := q } clock := by
  refine ⟨h.sound.step hstep, h.configured, fun e he => ?_, h.limited⟩
  obtain ⟨hauthority, ⟨decision, hholds, hdecision⟩, hseverity, htarget⟩ := h.justified e he
  exact ⟨hauthority, ⟨decision, hholds.step h.sound hstep, hdecision⟩, hseverity, htarget⟩

omit [FloatArith φ] in
/-- The settings, and what was justified, stay where only times and calls are added. -/
theorem Justified.congr {g g' : ReviewGatedResponse φ} {policy : ResponsePolicy} {e : Execution}
    (h : Justified g e) (hqueue : g'.queue = g.queue) (hg : Configured policy g.policy)
    (hg' : Configured policy g'.policy) : Justified g' e := by
  refine ⟨h.authority, ?_, ?_, ?_⟩
  · rw [hqueue]
    exact h.decided
  · rw [hg'.minSeverity, ← hg.minSeverity]
    exact h.severity
  · rw [hg'.allowlist, ← hg.allowlist]
    exact h.target

/-- Where the rate lets a call through, there is room for it. -/
theorem Guarded.room {policy : ResponsePolicy} {g : ReviewGatedResponse φ} {clock now : Instant}
    (h : Guarded policy g clock) (hnow : clock ≤ now)
    (hrate : UInt32.ofNat (within g.policy.window now g.policy.recentActions).length <
      g.policy.maxActionsPerWindow) :
    (within policy.window now g.policy.recentActions).length <
      policy.maxActionsPerWindow.toNat := by
  have hfew := (h.limited.forget hnow).few
  have hbound := policy.maxActionsPerWindow.toNat_lt
  rw [h.configured.window, h.configured.maxActionsPerWindow, UInt32.lt_iff_toNat_lt,
    UInt32.toNat_ofNat', Nat.mod_eq_of_lt (by omega)] at hrate
  exact hrate

/-- The policy is called for a flow with a decision to contain. -/
theorem Guarded.runPolicy {policy : ResponsePolicy} {g : ReviewGatedResponse φ} {clock : Instant}
    (h : Guarded policy g clock) {decision : AuditDecision} (hholds : g.queue.Holds decision)
    (hverdict : decision.verdict = .executeContainment) (alert : Response.Alert) (targetIp : Str)
    {a : Attempt} (hchecked : clock ≤ a.checkedAt) (hexecuted : a.checkedAt ≤ a.executedAt)
    (hpushed : a.executedAt ≤ a.pushedAt) (hblocked : a.pushedAt ≤ a.blockedAt) :
    Guarded policy (finalState (ReviewGatedResponse.runPolicy decision.flowId alert targetIp a g))
      a.blockedAt := by
  have hcall := ResponsePolicy.handle_cases (g.execute decision.flowId a)
    (· ++ [g.call decision.flowId alert targetIp a]) alert targetIp a ⟨g.policy, g.executions⟩
    fun _ => rfl
  have hover : a.checkedAt ≤ a.blockedAt := le_trans hexecuted (le_trans hpushed hblocked)
  have hforget : Configured policy (g.policy.forget a.checkedAt) :=
    ⟨h.configured.minSeverity, h.configured.allowlist, h.configured.maxActionsPerWindow,
      h.configured.window⟩
  have hforgot : Limited policy.window policy.maxActionsPerWindow.toNat (takenActions g.executions)
      (g.policy.forget a.checkedAt).recentActions a.blockedAt := by
    have hlimited := h.limited.forget hchecked
    rw [← h.configured.window] at hlimited ⊢
    exact hlimited.later hover
  unfold ReviewGatedResponse.runPolicy
  rcases hcall with ⟨reason, p, hrun, hp⟩ | ⟨hpermits, hrun⟩
  · rw [hrun]
    rcases hp with rfl | rfl
    · exact ⟨h.sound, h.configured, h.justified, h.limited.later (le_trans hchecked hover)⟩
    · exact ⟨h.sound, hforget, fun e he => (h.justified e he).congr rfl h.configured hforget,
        hforgot⟩
  · have hjustified : ∀ g' : ReviewGatedResponse φ, g'.queue = g.queue →
        Configured policy g'.policy →
        ∀ e ∈ g.executions ++ [g.call decision.flowId alert targetIp a], Justified g' e := by
      intro g' hqueue hconfigured e he
      rcases List.mem_append.mp he with he | he
      · exact (h.justified e he).congr hqueue h.configured hconfigured
      · cases List.mem_singleton.mp he
        refine Justified.congr ⟨?_, ⟨decision, hholds, rfl, hverdict⟩, hpermits.severity,
          hpermits.target⟩ hqueue h.configured hconfigured
        exact ⟨_, h.sound.approved_of_holds hholds hverdict⟩
    cases htaken : a.taken with
    | false =>
      rw [htaken, if_neg (by simp)] at hrun
      obtain ⟨reason, hrun⟩ := hrun
      rw [hrun]
      refine ⟨h.sound, hforget, hjustified _ rfl hforget, ?_⟩
      simp only [finalState, takenActions_append, ReviewGatedResponse.call_attempt, htaken]
      simpa using hforgot
    | true =>
      rw [htaken, if_pos rfl] at hrun
      rw [hrun]
      have hconfigured : Configured policy { g.policy.forget a.checkedAt with
          recentActions := (g.policy.forget a.checkedAt).recentActions ++ [a.pushedAt]
          activeBlocks := g.policy.activeBlocks.insert targetIp a.blockedAt } :=
        ⟨hforget.minSeverity, hforget.allowlist, hforget.maxActionsPerWindow, hforget.window⟩
      refine ⟨h.sound, hconfigured, hjustified _ rfl hconfigured, ?_⟩
      have hroom := h.room hchecked hpermits.rate
      have hadmitted := h.limited.admit ⟨a.executedAt, a.pushedAt⟩ hchecked hexecuted hpushed hroom
      simp only [finalState, takenActions_append, ReviewGatedResponse.call_attempt, htaken]
      rw [← h.configured.window] at hadmitted ⊢
      exact hadmitted.later hblocked

theorem Guarded.later {policy : ResponsePolicy} {g : ReviewGatedResponse φ}
    {clock clock' : Instant} (h : Guarded policy g clock) (hclock : clock ≤ clock') :
    Guarded policy g clock' :=
  ⟨h.sound, h.configured, h.justified, h.limited.later hclock⟩

/-- A prediction that is handed to the gate. -/
theorem Guarded.handleFlowPrediction {policy : ResponsePolicy} {g : ReviewGatedResponse φ}
    {clock : Instant} (h : Guarded policy g clock) (prediction : FlowPrediction φ)
    (enqueuedAt : Timestamp) (alert : Response.Alert) (targetIp : Str) {a : Attempt}
    (hchecked : clock ≤ a.checkedAt) (hexecuted : a.checkedAt ≤ a.executedAt)
    (hpushed : a.executedAt ≤ a.pushedAt) (hblocked : a.pushedAt ≤ a.blockedAt) :
    Guarded policy (finalState (ReviewGatedResponse.handleFlowPrediction prediction enqueuedAt alert
      targetIp a g)) a.blockedAt := by
  have hclock : clock ≤ a.blockedAt :=
    le_trans hchecked (le_trans hexecuted (le_trans hpushed hblocked))
  have hqueue := h.queue (a := .ingest prediction enqueuedAt) ⟨trivial, rfl⟩
  simp only [ReviewAction.exec, finalState_discard] at hqueue
  rcases ReviewGatedResponse.handleFlowPrediction_cases prediction enqueuedAt alert targetIp a g
    with ⟨id, q, hrun, hpolicy⟩ | ⟨-, hfinal, -⟩
  · obtain ⟨decision, hholds, hflow, hverdict⟩ := h.sound.holds_of_ingest hrun
    rw [hrun] at hqueue
    rw [hpolicy, ← hflow]
    exact hqueue.runPolicy hholds hverdict alert targetIp hchecked hexecuted hpushed hblocked
  · rw [hfinal]
    exact hqueue.later hclock

/-- A reviewer's decision. -/
theorem Guarded.resolveAndExecute {policy : ResponsePolicy} {g : ReviewGatedResponse φ}
    {clock : Instant} (h : Guarded policy g clock) (flowId reviewer : Str) (verdict : Verdict)
    (rationale : Str) (decidedAt : Timestamp) (alert : Response.Alert) (targetIp : Str)
    {a : Attempt} (hchecked : clock ≤ a.checkedAt) (hexecuted : a.checkedAt ≤ a.executedAt)
    (hpushed : a.executedAt ≤ a.pushedAt) (hblocked : a.pushedAt ≤ a.blockedAt) :
    Guarded policy (finalState (ReviewGatedResponse.resolveAndExecute flowId reviewer verdict
      rationale decidedAt alert targetIp a g)) a.blockedAt := by
  have hclock : clock ≤ a.blockedAt :=
    le_trans hchecked (le_trans hexecuted (le_trans hpushed hblocked))
  have hqueue := h.queue (a := .recordDecision flowId reviewer verdict rationale decidedAt)
    ⟨trivial, rfl⟩
  simp only [ReviewAction.exec, finalState_discard] at hqueue
  unfold ReviewGatedResponse.resolveAndExecute
  cases hrun : ReviewQueue.recordDecision flowId reviewer verdict rationale decidedAt g.queue with
  | error e q =>
    rw [hrun] at hqueue
    rw [bind_run_of_error (ReviewGatedResponse.onQueue_error hrun)]
    exact hqueue.later hclock
  | ok decision q =>
    rw [hrun] at hqueue
    rw [bind_run_of_ok (ReviewGatedResponse.onQueue_ok hrun)]
    obtain ⟨hholds, hflow, -⟩ := ReviewQueue.holds_of_recordDecision hrun
    cases hverdict : decision.verdict with
    | dismiss => exact hqueue.later hclock
    | escalateFurther => exact hqueue.later hclock
    | executeContainment =>
      rw [← hflow]
      exact hqueue.runPolicy hholds hverdict alert targetIp hchecked hexecuted hpushed hblocked

theorem Guarded.step {policy : ResponsePolicy} {s s' : GateState φ} {a : GateAction φ}
    (h : Guarded policy s.gate s.clock) (hstep : GateStep s a s') :
    Guarded policy s'.gate s'.clock := by
  obtain ⟨hallowed, htimes, rfl⟩ := hstep
  cases a with
  | handle flowId prediction isAnomalousByAutoencoder observedAt enqueuedAt alert targetIp a =>
    obtain ⟨hchecked, hexecuted, hpushed, hblocked⟩ : s.clock ≤ a.checkedAt ∧
        a.checkedAt ≤ a.executedAt ∧ a.executedAt ≤ a.pushedAt ∧ a.pushedAt ≤ a.blockedAt := by
      simpa [GateAction.times] using htimes
    simp only [GateAction.exec, finalState_discard]
    exact h.handleFlowPrediction _ enqueuedAt alert targetIp hchecked hexecuted hpushed hblocked
  | handleFlowPrediction prediction enqueuedAt alert targetIp a =>
    obtain ⟨hchecked, hexecuted, hpushed, hblocked⟩ : s.clock ≤ a.checkedAt ∧
        a.checkedAt ≤ a.executedAt ∧ a.executedAt ≤ a.pushedAt ∧ a.pushedAt ≤ a.blockedAt := by
      simpa [GateAction.times] using htimes
    simp only [GateAction.exec, finalState_discard]
    exact h.handleFlowPrediction _ enqueuedAt alert targetIp hchecked hexecuted hpushed hblocked
  | resolveAndExecute flowId reviewer verdict rationale decidedAt alert targetIp a =>
    obtain ⟨hchecked, hexecuted, hpushed, hblocked⟩ : s.clock ≤ a.checkedAt ∧
        a.checkedAt ≤ a.executedAt ∧ a.executedAt ≤ a.pushedAt ∧ a.pushedAt ≤ a.blockedAt := by
      simpa [GateAction.times] using htimes
    simp only [GateAction.exec, finalState_discard]
    exact h.resolveAndExecute flowId reviewer verdict rationale decidedAt alert targetIp hchecked
      hexecuted hpushed hblocked
  | queue a =>
    have hqueue := h.queue (a := a) ⟨hallowed, rfl⟩
    simp only [GateAction.exec]
    cases hrun : a.exec s.gate.queue with
    | ok _ q =>
      rw [hrun] at hqueue
      rw [ReviewGatedResponse.onQueue_ok hrun]
      exact hqueue
    | error e q =>
      rw [hrun] at hqueue
      rw [ReviewGatedResponse.onQueue_error hrun]
      exact hqueue
  | expireBlocks now =>
    have hclock : s.clock ≤ now := by simpa [GateAction.times] using htimes
    have hconfigured : Configured policy (s.gate.policy.expireBlocks now) :=
      ⟨h.configured.minSeverity, h.configured.allowlist, h.configured.maxActionsPerWindow,
        h.configured.window⟩
    exact ⟨h.sound, hconfigured,
      fun e he => (h.justified e he).congr rfl h.configured hconfigured, h.limited.later hclock⟩

/-- In every run of the gate, its queue and its policy, each call of a response action is for a flow
whose decision to contain is in the audit graph, then and ever after; the alert is of the severity
that is asked for, and the target is not on the allowlist. No window has more than
`max_actions_per_window` actions that were taken. -/
theorem executions_of_run {triggerCfg : TriggerConfig φ} {slaPolicy : SlaPolicy}
    {minSeverity : Response.Severity} {allowlist : List Str} {maxActionsPerWindow : UInt32}
    {window blockDuration : Duration} {start : ReviewGatedResponse φ} {clock : Instant}
    {as : List (GateAction φ)} {s : GateState φ}
    (hnew : ReviewGatedResponse.new triggerCfg slaPolicy
      { ResponsePolicy.new minSeverity allowlist with
        maxActionsPerWindow := maxActionsPerWindow
        window := window
        blockDuration := blockDuration } = .ok start)
    (h : Run GateStep (fun _ _ => True) ⟨start, clock⟩ as s) :
    (∀ e ∈ s.gate.executions,
      (∃ id, e.authority = .approved id) ∧
      (∃ decision ∈ decisionsForFlow s.gate.queue.engine e.flowId,
        decision.verdict = .executeContainment ∧
        s.gate.queue.containmentDecision e.flowId = .approved decision.decisionId) ∧
      minSeverity.rank ≤ e.alert.severity.rank ∧ e.targetIp ∉ allowlist) ∧
    ∀ t, s.gate.executions.countP (fun e => decide (e.attempt.taken = true ∧
      t ≤ e.attempt.executedAt ∧ e.attempt.executedAt < t + window)) ≤
        maxActionsPerWindow.toNat := by
  cases hnew
  have hstart : Guarded { ResponsePolicy.new minSeverity allowlist with
      maxActionsPerWindow := maxActionsPerWindow, window := window,
      blockDuration := blockDuration } ⟨.initial triggerCfg slaPolicy, _, []⟩ clock :=
    ⟨ReviewQueue.sound_initial _ _, ⟨rfl, rfl, rfl, rfl⟩, nofun, limited_nil clock⟩
  have hguarded := h.invariant (I := fun s => Guarded _ s.gate s.clock) hstart
    fun _ _ _ hs _ hstep => hs.step hstep
  refine ⟨fun e he => ?_, fun t => ?_⟩
  · obtain ⟨hauthority, ⟨decision, hholds, hflow, hverdict⟩, hseverity, htarget⟩ :=
      hguarded.justified e he
    rw [hguarded.configured.minSeverity] at hseverity
    rw [hguarded.configured.allowlist] at htarget
    refine ⟨hauthority, ⟨decision, ?_, hverdict, ?_⟩, hseverity, htarget⟩
    · rw [← hflow]
      exact hguarded.sound.mem_decisionsForFlow.mpr hholds
    · rw [← hflow]
      exact hguarded.sound.approved_of_holds hholds hverdict
  · have hbounded := hguarded.limited.bounded t
    unfold countFrom takenActions at hbounded
    rw [List.countP_map, List.countP_filter] at hbounded
    refine le_trans (List.countP_mono_left fun e _ hin => ?_) hbounded
    simp only [decide_eq_true_eq, Function.comp_apply, Bool.and_eq_true] at hin ⊢
    exact ⟨hin.2, hin.1⟩

/-- One flow is contained at once, and one by a reviewer. -/
def twoContained : List (GateAction Float) :=
  [.handleFlowPrediction (ReviewQueue.attack 0.97) 1700000001 ⟨.high⟩ "10.0.0.7".toList
      ⟨true, 1, 1, 2, 2⟩,
    .handle "flow-2".toList ⟨.denialOfService, 0.5, none, none⟩ false 1700000002 1700000002
      ⟨.high⟩ "10.0.0.8".toList ⟨true, 3, 3, 3, 3⟩,
    .resolveAndExecute "flow-2".toList "alice".toList .executeContainment "beaconing".toList
      1700000003 ⟨.high⟩ "10.0.0.8".toList ⟨true, 4, 4, 5, 5⟩]

theorem executions_of_run_twoContained : ∃ start s : GateState Float,
    Run GateStep (fun _ _ => True) start twoContained s ∧
    s.gate.executions.map (fun e => (e.flowId, e.targetIp)) =
      [("flow-1".toList, "10.0.0.7".toList), ("flow-2".toList, "10.0.0.8".toList)] ∧
    (∀ e ∈ s.gate.executions, ∃ id, e.authority = .approved id) ∧
    s.gate.executions.countP (fun e => decide (e.attempt.taken = true ∧
      0 ≤ e.attempt.executedAt ∧ e.attempt.executedAt < 0 + Duration.fromSecs 60)) ≤ 10 := by
  let policy : ResponsePolicy := .new .medium ["10.0.0.99".toList]
  let step (s : GateState Float) (a : GateAction Float) : GateState Float :=
    ⟨finalState (a.exec s.gate), a.times.getLastD s.clock⟩
  have hrun : Run GateStep (fun _ _ => True) ⟨⟨.initial .default .failSafe, policy, []⟩, 0⟩
      twoContained (twoContained.foldl step ⟨⟨.initial .default .failSafe, policy, []⟩, 0⟩) :=
    ((Run.single trivial ⟨trivial, by decide, rfl⟩).snoc trivial ⟨trivial, by decide, rfl⟩).snoc
      trivial ⟨trivial, by decide, rfl⟩
  have hnew : ReviewGatedResponse.new (φ := Float) .default .failSafe
      { ResponsePolicy.new .medium ["10.0.0.99".toList] with
        maxActionsPerWindow := 10
        window := Duration.fromSecs 60
        blockDuration := Duration.fromSecs (15 * 60) } =
        .ok ⟨.initial .default .failSafe, policy, []⟩ := rfl
  obtain ⟨hjustified, hrate⟩ := executions_of_run hnew hrun
  exact ⟨_, _, hrun, by decide, fun e he => (hjustified e he).1, hrate 0⟩

end ActiveDefense.Siem
