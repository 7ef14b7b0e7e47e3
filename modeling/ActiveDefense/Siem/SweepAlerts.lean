import ActiveDefense.Siem.QueueHistory
import ActiveDefense.Siem.Trigger

/-!
# What a sweep tells the alert sink

A sweep decides the expired items one after the other under the lock, and tells the sink when it has
decided all of them. It ends at the first decision that the audit graph refuses, with an error and
before the sink is told anything: what it decided up to there is closed in silence. So each
resolution is told and returned if and only if no id is refused, or that for the first item is.
-/

namespace ActiveDefense.Siem

/-- An `SlaBreach` has what an `SlaResolution` has. -/
abbrev SlaBreach (φ : Type) := SlaResolution φ

/-- The queue, and what the alert sink was told so far. -/
structure Alerting (φ : Type) where
  queue : ReviewQueue φ
  notified : List (SlaBreach φ)

/-- An operation of the queue that tells the sink. -/
abbrev Alert (φ α : Type) := EStateM ReviewQueueError (Alerting φ) α

namespace Alerting

variable {φ : Type}

/-- An operation under the queue's lock. -/
def onQueue {α : Type} (x : Review φ α) : Alert φ α := fun s =>
  match x s.queue with
  | .ok a queue => .ok a { s with queue := queue }
  | .error e queue => .error e { s with queue := queue }

/-- `SlaBreachAlertSink::notify`. -/
def notify (breach : SlaBreach φ) : Alert φ Unit :=
  modify fun s => { s with notified := s.notified ++ [breach] }

/-- The loop over the breaches, after the lock is released. -/
def notifyEach : List (SlaBreach φ) → Alert φ (List (SlaResolution φ))
  | [] => return []
  | breach :: rest => do
    notify breach
    return ⟨breach.prediction, breach.decision⟩ :: (← notifyEach rest)

/-- `sweep_expired_with_sink`. -/
def sweepExpiredWithSink [FloatArith φ] (slaSeconds : Timestamp) (order : List (Str × Timestamp)) :
    Alert φ (List (SlaResolution φ)) := do
  let breaches ← onQueue (ReviewQueue.sweepItems slaSeconds order)
  notifyEach breaches

/-- Each breach is told once, in order, and returned. -/
theorem notifyEach_run (breaches : List (SlaBreach φ)) (s : Alerting φ) :
    notifyEach breaches s = .ok breaches { s with notified := s.notified ++ breaches } := by
  induction breaches generalizing s with
  | nil => simp [notifyEach, pure, EStateM.pure]
  | cons breach rest ih =>
    have hfirst : notify breach s = .ok () { s with notified := s.notified ++ [breach] } := rfl
    rw [notifyEach, bind_run_of_ok hfirst, bind_run_of_ok (ih _)]
    simp [pure, EStateM.pure]

/-- What the sink is told is what the sweep returns, and nothing when it fails. -/
theorem sweepExpiredWithSink_run [FloatArith φ] (slaSeconds : Timestamp)
    (order : List (Str × Timestamp)) (s : Alerting φ) :
    sweepExpiredWithSink slaSeconds order s =
      match ReviewQueue.sweepItems slaSeconds order s.queue with
      | .ok breaches queue => .ok breaches ⟨queue, s.notified ++ breaches⟩
      | .error e queue => .error e ⟨queue, s.notified⟩ := by
  unfold sweepExpiredWithSink
  cases hrun : ReviewQueue.sweepItems slaSeconds order s.queue with
  | ok breaches queue =>
    have hqueue : onQueue (ReviewQueue.sweepItems slaSeconds order) s =
        .ok breaches { s with queue := queue } := by rw [onQueue, hrun]
    rw [bind_run_of_ok hqueue, notifyEach_run]
  | error e queue =>
    have hqueue : onQueue (ReviewQueue.sweepItems slaSeconds order) s =
        .error e { s with queue := queue } := by rw [onQueue, hrun]
    exact bind_run_of_error hqueue

end Alerting

/-! ## The loop under the lock -/

namespace ReviewQueue

variable {φ : Type}

/-- A decision on an item is recorded. -/
structure Records (q : ReviewQueue φ) (item : QueueItem φ) (decision : AuditDecision)
    (q' : ReviewQueue φ) : Prop where
  found : q.items.lookup decision.flowId = some item
  id : decision.decisionId = decisionName decision.flowId q.decisionSeq
  free : decision.decisionId ∉ q.engine.store.instances
  instances : q'.engine.store.instances =
    q.engine.store.instances.insert decision.decisionId (decisionInstance decision)
  items : q'.items =
    q.items.insert decision.flowId { item with state := .resolved decision.decisionId }
  seq : q'.decisionSeq = q.decisionSeq + 1

/-- The result of a sweep with one more resolution in front. -/
def consResolution (resolution : SlaResolution φ) :
    EStateM.Result ReviewQueueError (ReviewQueue φ) (List (SlaResolution φ)) →
      EStateM.Result ReviewQueueError (ReviewQueue φ) (List (SlaResolution φ))
  | .ok resolutions q => .ok (resolution :: resolutions) q
  | .error e q => .error e q

/-- What the loop of a sweep comes to: it decides item after item until an id is refused. -/
inductive Swept : ReviewQueue φ → List (Str × Timestamp) →
    EStateM.Result ReviewQueueError (ReviewQueue φ) (List (SlaResolution φ)) → Prop
  | nil {q : ReviewQueue φ} : Swept q [] (.ok [] q)
  | refused {q : ReviewQueue φ} {flowId : Str} {decidedAt : Timestamp}
      {rest : List (Str × Timestamp)} {e : ReviewQueueError}
      (htaken : decisionName flowId q.decisionSeq ∈ q.engine.store.instances) :
      Swept q ((flowId, decidedAt) :: rest) (.error e { q with decisionSeq := q.decisionSeq + 1 })
  | recorded {q q₁ : ReviewQueue φ} {item : QueueItem φ} {decision : AuditDecision}
      {decidedAt : Timestamp} {rest : List (Str × Timestamp)}
      {result : EStateM.Result ReviewQueueError (ReviewQueue φ) (List (SlaResolution φ))}
      (hrecords : q.Records item decision q₁) (hrest : Swept q₁ rest result) :
      Swept q ((decision.flowId, decidedAt) :: rest)
        (consResolution ⟨item.prediction, decision⟩ result)

section
variable [FloatArith φ]

/-- The loop of a sweep over items that are there, each once. -/
theorem Sound.swept {q : ReviewQueue φ} (h : q.Sound) (slaSeconds : Timestamp)
    {order : List (Str × Timestamp)} (hnodup : (order.map Prod.fst).Nodup)
    (hopen : ∀ flowId ∈ order.map Prod.fst, ∃ item, q.items.lookup flowId = some item ∧
      item.state.isOpen = true) : Swept q order (sweepItems slaSeconds order q) := by
  induction order generalizing q with
  | nil => exact .nil
  | cons entry rest ih =>
    obtain ⟨flowId, decidedAt⟩ := entry
    obtain ⟨hnew, hnodup⟩ := List.nodup_cons.mp hnodup
    obtain ⟨item, hitem, hitemOpen⟩ := hopen flowId (.head _)
    unfold sweepItems
    simp only [get_bind_run, hitem]
    obtain ⟨verdict, rationale, hruling⟩ : ∃ verdict rationale,
        q.slaVerdict slaSeconds item.prediction = (verdict, rationale) := ⟨_, _, rfl⟩
    rw [hruling]
    have hcases := h.resolve_run .systemSlaTimeout verdict rationale decidedAt hitem
    simp only at hcases ⊢
    split at hcases
    · next htaken =>
      rw [bind_run_of_error hcases]
      exact .refused htaken
    · next hfree =>
      obtain ⟨engine, hrecord, hrun⟩ := hcases
      rw [bind_run_of_ok hrun]
      obtain ⟨-, hinstances, -⟩ := recordDecisionNode_spec hrecord
      let decision : AuditDecision := ⟨decisionName flowId q.decisionSeq, flowId,
        .systemSlaTimeout, verdict, rationale, decidedAt⟩
      have hauthorized : q.Authorized item decision := ⟨slaSeconds, hruling.symm⟩
      have hlogs : Logs q (.resolved decision) _ :=
        .resolved hitem hitemOpen rfl hauthorized hrecord
      -- the items of the other flows are as they were
      have hrest := ih (h.logs hlogs) hnodup fun id hid => by
        obtain ⟨item', hitem', hopen'⟩ := hopen id (List.mem_cons_of_mem _ hid)
        refine ⟨item', (AList.lookup_insert_ne ?_).trans hitem', hopen'⟩
        rintro rfl
        exact hnew hid
      have hrecords : q.Records item decision { q with
          engine := engine
          items := q.items.insert flowId { item with state := .resolved decision.decisionId }
          decisionSeq := q.decisionSeq + 1 } := ⟨hitem, rfl, hfree, hinstances, rfl, rfl⟩
      have hswept : Swept q ((flowId, decidedAt) :: rest) _ := .recorded hrecords hrest
      simp only [bind, EStateM.bind, pure, EStateM.pure]
      unfold consResolution at hswept
      split
      · next hok =>
        rw [hok] at hswept
        exact hswept
      · next herror =>
        rw [herror] at hswept
        exact hswept

end

/-- The ids that the counter gives to the decisions on some flows. -/
def sweepIds (seq : UInt64) : List Str → List Str
  | [] => []
  | flowId :: rest => decisionName flowId seq :: sweepIds (seq + 1) rest

theorem exists_of_mem_sweepIds {seq : UInt64} {flows : List Str} {id : Str}
    (h : id ∈ sweepIds seq flows) : ∃ flowId ∈ flows, ∃ seq', id = decisionName flowId seq' := by
  induction flows generalizing seq with
  | nil => cases h
  | cons flowId rest ih =>
    rcases List.mem_cons.mp h with rfl | h
    · exact ⟨flowId, .head _, seq, rfl⟩
    · obtain ⟨flowId', hmem, hid⟩ := ih h
      exact ⟨flowId', List.mem_cons_of_mem _ hmem, hid⟩

/-- A decision on a flow takes no id from the decisions on others. -/
theorem Records.free_iff {q q' : ReviewQueue φ} {item : QueueItem φ} {decision : AuditDecision}
    (h : q.Records item decision q') {flows : List Str} (hflow : decision.flowId ∉ flows) :
    (∀ id ∈ sweepIds q'.decisionSeq flows, id ∉ q'.engine.store.instances) ↔
      ∀ id ∈ sweepIds (q.decisionSeq + 1) flows, id ∉ q.engine.store.instances := by
  rw [h.seq, h.instances]
  refine forall₂_congr fun id hid => ?_
  have hne : id ≠ decision.decisionId := by
    rintro rfl
    obtain ⟨flowId, hmem, seq, hname⟩ := exists_of_mem_sweepIds hid
    rw [h.id] at hname
    exact hflow ((decisionName_inj hname).1 ▸ hmem)
  rw [AList.mem_insert, not_or]
  exact and_iff_right hne

/-- A sweep leaves the items of the flows that it does not come to. -/
theorem Swept.lookup_of_not_mem {q : ReviewQueue φ} {order : List (Str × Timestamp)}
    {result : EStateM.Result ReviewQueueError (ReviewQueue φ) (List (SlaResolution φ))}
    (h : Swept q order result) {flowId : Str} (hflow : flowId ∉ order.map Prod.fst) :
    (finalState result).items.lookup flowId = q.items.lookup flowId := by
  induction h with
  | nil => rfl
  | refused => rfl
  | @recorded q q₁ item decision decidedAt rest result hrecords _ ih =>
    rw [List.map_cons, List.mem_cons, not_or] at hflow
    have hstate : finalState (consResolution ⟨item.prediction, decision⟩ result) =
        finalState result := by cases result <;> rfl
    rw [hstate, ih hflow.2, hrecords.items, AList.lookup_insert_ne hflow.1]

/-- A sweep succeeds if no id is refused. -/
theorem Swept.ok_iff {q : ReviewQueue φ} {order : List (Str × Timestamp)}
    {result : EStateM.Result ReviewQueueError (ReviewQueue φ) (List (SlaResolution φ))}
    (h : Swept q order result) (hnodup : (order.map Prod.fst).Nodup) :
    (∃ resolutions q', result = .ok resolutions q') ↔
      ∀ id ∈ sweepIds q.decisionSeq (order.map Prod.fst), id ∉ q.engine.store.instances := by
  induction h with
  | nil => exact iff_of_true ⟨_, _, rfl⟩ nofun
  | refused htaken =>
    refine iff_of_false nofun fun hfree => ?_
    exact hfree _ (.head _) htaken
  | @recorded q q₁ item decision decidedAt rest result hrecords _ ih =>
    obtain ⟨hnew, hnodup⟩ := List.nodup_cons.mp hnodup
    have hresult : (∃ resolutions q',
        consResolution ⟨item.prediction, decision⟩ result = .ok resolutions q') ↔
          ∃ resolutions q', result = .ok resolutions q' := by
      cases result with
      | ok resolutions q' => exact iff_of_true ⟨_, _, rfl⟩ ⟨_, _, rfl⟩
      | error e q' => exact iff_of_false nofun nofun
    rw [hresult, ih hnodup, hrecords.free_iff hnew, List.map_cons, sweepIds,
      List.forall_mem_cons, ← hrecords.id]
    exact (and_iff_right hrecords.free).symm

/-- What a sweep returns: a resolution for each flow in its order, whose decision the item names. -/
theorem Swept.resolutions {q q' : ReviewQueue φ} {order : List (Str × Timestamp)}
    {resolutions : List (SlaResolution φ)}
    {result : EStateM.Result ReviewQueueError (ReviewQueue φ) (List (SlaResolution φ))}
    (h : Swept q order result) (hnodup : (order.map Prod.fst).Nodup)
    (hok : result = .ok resolutions q') :
    resolutions.map (·.decision.flowId) = order.map Prod.fst ∧
      ∀ r ∈ resolutions, ∃ item, q'.items.lookup r.decision.flowId = some item ∧
        item.state = .resolved r.decision.decisionId := by
  induction h generalizing resolutions with
  | nil =>
    cases hok
    exact ⟨rfl, nofun⟩
  | refused => cases hok
  | @recorded q q₁ item decision decidedAt rest result hrecords hrest ih =>
    obtain ⟨hnew, hnodup⟩ := List.nodup_cons.mp hnodup
    cases result with
    | error e q' => cases hok
    | ok resolutions q' =>
      cases hok
      obtain ⟨hflows, hitems⟩ := ih hnodup rfl
      refine ⟨by rw [List.map_cons, hflows, List.map_cons], fun r hr => ?_⟩
      rcases List.mem_cons.mp hr with rfl | hr
      · have hkept : q'.items.lookup decision.flowId = _ := hrest.lookup_of_not_mem hnew
        rw [hrecords.items, AList.lookup_insert] at hkept
        exact ⟨_, hkept, rfl⟩
      · exact hitems r hr

/-- The first item stays decided, whatever comes after it. -/
theorem Swept.first {q : ReviewQueue φ} {flowId : Str} {decidedAt : Timestamp}
    {rest : List (Str × Timestamp)}
    {result : EStateM.Result ReviewQueueError (ReviewQueue φ) (List (SlaResolution φ))}
    (h : Swept q ((flowId, decidedAt) :: rest) result) (hnew : flowId ∉ rest.map Prod.fst)
    (hfree : decisionName flowId q.decisionSeq ∉ q.engine.store.instances) :
    ∃ item, (finalState result).items.lookup flowId = some item ∧
      item.state = .resolved (decisionName flowId q.decisionSeq) := by
  cases h with
  | refused htaken => exact absurd htaken hfree
  | @recorded _ q₁ item decision _ _ result hrecords hrest =>
    have hstate : finalState (consResolution ⟨item.prediction, decision⟩ result) =
        finalState result := by cases result <;> rfl
    have hkept := hrest.lookup_of_not_mem hnew
    rw [hrecords.items, AList.lookup_insert] at hkept
    rw [hstate]
    exact ⟨_, hkept, congrArg ReviewState.resolved hrecords.id⟩

/-- A call closes the item of a flow, under a decision. -/
structure Closes (q q' : ReviewQueue φ) (flowId decisionId : Str) : Prop where
  waited : ∃ item, q.items.lookup flowId = some item ∧ item.state.isOpen = true
  closed : ∃ item, q'.items.lookup flowId = some item ∧ item.state = .resolved decisionId

/-- An item that is closed is not as it was. -/
theorem Closes.lookup_ne {q q' : ReviewQueue φ} {flowId id : Str} (h : q.Closes q' flowId id) :
    q'.items.lookup flowId ≠ q.items.lookup flowId := by
  obtain ⟨⟨item, hitem, hopen⟩, item', hitem', hstate⟩ := h
  rw [hitem, hitem']
  rintro ⟨⟩
  rw [hstate] at hopen
  cases hopen

/-- A sweep closes no item outside its order. -/
theorem Swept.mem_of_closes {q : ReviewQueue φ} {order : List (Str × Timestamp)}
    {result : EStateM.Result ReviewQueueError (ReviewQueue φ) (List (SlaResolution φ))}
    (h : Swept q order result) {flowId id : Str}
    (hcloses : q.Closes (finalState result) flowId id) :
    flowId ∈ order.map Prod.fst := by
  by_contra hflow
  exact hcloses.lookup_ne (h.lookup_of_not_mem hflow)

/-- A sweep that fails has closed nothing if and only if it fails at its first item. -/
theorem Swept.silent_iff {q q' : ReviewQueue φ} {order : List (Str × Timestamp)}
    {e : ReviewQueueError} (h : Swept q order (.error e q')) (hnodup : (order.map Prod.fst).Nodup)
    (hopen : ∀ flowId ∈ order.map Prod.fst, ∃ item, q.items.lookup flowId = some item ∧
      item.state.isOpen = true) :
    (∀ flowId id, ¬ q.Closes q' flowId id) ↔
      ∃ id ∈ (sweepIds q.decisionSeq (order.map Prod.fst)).head?,
        id ∈ q.engine.store.instances := by
  generalize hresult : EStateM.Result.error e q' = result at h
  cases h with
  | nil => cases hresult
  | refused htaken =>
    cases hresult
    exact iff_of_true (fun flowId id hcloses => hcloses.lookup_ne rfl) ⟨_, rfl, htaken⟩
  | @recorded _ q₁ item decision decidedAt rest result hrecords hrest =>
    obtain ⟨hnew, -⟩ := List.nodup_cons.mp hnodup
    refine iff_of_false (fun hsilent => ?_) ?_
    · have hfree : decisionName decision.flowId q.decisionSeq ∉ q.engine.store.instances :=
        hrecords.id ▸ hrecords.free
      have hwhole : Swept q ((decision.flowId, decidedAt) :: rest) _ := .recorded hrecords hrest
      obtain ⟨item', hitem', hstate'⟩ := hwhole.first hnew hfree
      rw [← hresult] at hitem'
      exact hsilent _ _ ⟨hopen _ (.head _), item', hitem', hstate'⟩
    · rintro ⟨id, hid, htaken⟩
      cases hid
      exact hrecords.free (hrecords.id ▸ htaken)

/-- The decisions on a flow among some resolutions. -/
def decisionIdsOn (flowId : Str) (resolutions : List (SlaResolution φ)) : List Str :=
  (resolutions.filter fun r => decide (r.decision.flowId = flowId)).map (·.decision.decisionId)

/-- Of the flows that a sweep closes, each has one resolution. -/
theorem Swept.decisionIdsOn_eq {q q' : ReviewQueue φ} {order : List (Str × Timestamp)}
    {resolutions : List (SlaResolution φ)} (h : Swept q order (.ok resolutions q'))
    (hnodup : (order.map Prod.fst).Nodup) {flowId id : Str} (hcloses : q.Closes q' flowId id) :
    decisionIdsOn flowId resolutions = [id] := by
  obtain ⟨hflows, hitems⟩ := h.resolutions hnodup rfl
  have hmem : flowId ∈ resolutions.map (·.decision.flowId) := by
    rw [hflows]
    exact h.mem_of_closes hcloses
  have hcount : (resolutions.map (·.decision.flowId)).count flowId = 1 :=
    List.count_eq_one_of_mem (by rwa [hflows]) hmem
  obtain ⟨r, hr⟩ : ∃ r,
      resolutions.filter (fun r => decide (r.decision.flowId = flowId)) = [r] := by
    rw [← List.length_eq_one_iff, ← List.countP_eq_length_filter, ← hcount, List.count_eq_countP,
      List.countP_map]
    exact List.countP_congr fun r _ => by simp
  obtain ⟨hrmem, hrflow⟩ := List.mem_filter.mp (hr ▸ List.mem_singleton_self r)
  obtain ⟨item, hitem, hstate⟩ := hitems r hrmem
  obtain ⟨item', hitem', hstate'⟩ := hcloses.closed
  rw [of_decide_eq_true hrflow, hitem'] at hitem
  cases hitem
  rw [decisionIdsOn, hr, List.map_singleton, ← ReviewState.resolved.inj (hstate'.symm.trans hstate)]

/-- Operations one after the other, where each is allowed in every state. -/
theorem reachable_foldl [FloatArith φ] {q : ReviewQueue φ} {as : List (ReviewAction φ)}
    (hallowed : ∀ a ∈ as, ∀ q, a.Allowed q) :
    Reachable Step q (as.foldl (fun q a => finalState (a.exec q)) q) := by
  induction as generalizing q with
  | nil => exact .refl
  | cons a rest ih =>
    have hfirst : Step q a (finalState (a.exec q)) := ⟨hallowed a (.head _) q, rfl⟩
    exact (Reachable.refl.tail hfirst).trans (ih fun b hb => hallowed b (.tail _ hb))

/-- What a sweep finds expired is there, and open. -/
theorem exists_isOpen_of_mem_expiredFlowIds {q : ReviewQueue φ} {now slaSeconds : Timestamp}
    {flowId : Str} (h : flowId ∈ q.expiredFlowIds now slaSeconds) :
    ∃ item, q.items.lookup flowId = some item ∧ item.state.isOpen = true := by
  obtain ⟨⟨_, item⟩, hmem, rfl⟩ := List.mem_map.mp h
  have hitem := AList.mem_lookup_iff.mpr (List.mem_filter.mp hmem).1
  exact ⟨item, hitem, isOpen_of_mem_expiredFlowIds h hitem⟩

end ReviewQueue

namespace Alerting

open ReviewQueue

variable {φ : Type}

/-- Each item that the call closes is told to the sink once, and returned once. -/
def Announces (s : Alerting φ)
    (result : EStateM.Result ReviewQueueError (Alerting φ) (List (SlaResolution φ))) : Prop :=
  ∀ flowId id, s.queue.Closes (finalState result).queue flowId id →
    ∃ told resolutions s', (finalState result).notified = s.notified ++ told ∧
      decisionIdsOn flowId told = [id] ∧
      result = .ok resolutions s' ∧ decisionIdsOn flowId resolutions = [id]

variable [FloatArith φ]

theorem announces_iff {s : Alerting φ} (h : s.queue.Sound) {now slaSeconds : Timestamp}
    {order : List (Str × Timestamp)}
    (hperm : (order.map Prod.fst).Perm (s.queue.expiredFlowIds now slaSeconds)) :
    s.Announces (sweepExpiredWithSink slaSeconds order s) ↔
      (∀ id ∈ sweepIds s.queue.decisionSeq (order.map Prod.fst),
        id ∉ s.queue.engine.store.instances) ∨
      ∃ id ∈ (sweepIds s.queue.decisionSeq (order.map Prod.fst)).head?,
        id ∈ s.queue.engine.store.instances := by
  have hnodup : (order.map Prod.fst).Nodup := hperm.nodup_iff.mpr nodup_expiredFlowIds
  have hopen : ∀ flowId ∈ order.map Prod.fst, ∃ item,
      s.queue.items.lookup flowId = some item ∧ item.state.isOpen = true := by
    intro flowId hflow
    exact exists_isOpen_of_mem_expiredFlowIds (hperm.mem_iff.mp hflow)
  have hswept := h.swept slaSeconds hnodup hopen
  rw [sweepExpiredWithSink_run, ← hswept.ok_iff hnodup]
  cases hrun : sweepItems slaSeconds order s.queue with
  | ok breaches queue =>
    rw [hrun] at hswept
    refine iff_of_true (fun flowId id hcloses => ?_) (.inl ⟨_, _, rfl⟩)
    have hone := hswept.decisionIdsOn_eq hnodup hcloses
    exact ⟨breaches, breaches, _, rfl, hone, rfl, hone⟩
  | error e queue =>
    rw [hrun] at hswept
    have hfails : ¬ ∃ resolutions q', (.error e queue :
        EStateM.Result ReviewQueueError (ReviewQueue φ) (List (SlaResolution φ))) =
          .ok resolutions q' := nofun
    rw [or_iff_right hfails, ← hswept.silent_iff hnodup hopen]
    constructor
    · intro hannounced flowId id hcloses
      obtain ⟨_, _, _, -, -, hok, -⟩ := hannounced flowId id hcloses
      cases hok
    · exact fun hsilent flowId id hcloses => absurd hcloses (hsilent flowId id)

/-- In every state that is reached, a sweep tells the sink of each item that it closes, and returns
it, if and only if it finds the ids for its decisions free, or the first of them taken. -/
theorem sweep_announced_iff {triggerCfg : TriggerConfig φ} {slaPolicy : SlaPolicy}
    {start : ReviewQueue φ} {s : Alerting φ}
    (hnew : ReviewQueue.new triggerCfg slaPolicy = .ok start)
    (h : Reachable Step start s.queue) {now slaSeconds : Timestamp}
    {order : List (Str × Timestamp)}
    (hperm : (order.map Prod.fst).Perm (s.queue.expiredFlowIds now slaSeconds)) :
    s.Announces (sweepExpiredWithSink slaSeconds order s) ↔
      (∀ id ∈ sweepIds s.queue.decisionSeq (order.map Prod.fst),
        id ∉ s.queue.engine.store.instances) ∨
      ∃ id ∈ (sweepIds s.queue.decisionSeq (order.map Prod.fst)).head?,
        id ∈ s.queue.engine.store.instances :=
  announces_iff (sound_of_reachable hnew h) hperm

end Alerting

/-! ## Two flows that wait, and a third -/

/-- Two attacks, and then a flow that comes in too late to be swept with them. -/
def twoAndLate (late : Str) : List (ReviewAction Float) :=
  let doubtful (flowId : Str) : FlowPrediction Float :=
    ⟨flowId, "DenialOfService".toList, 0.5, none, none, false, 1700000000⟩
  [.ingest (doubtful "a".toList) 1700000001, .ingest (doubtful "b".toList) 1700000002,
    .ingest (doubtful late) 1700003000]

/-- The queue with the flows in it, before anything was told. -/
def waiting (late : Str) : Alerting Float :=
  ⟨(twoAndLate late).foldl (fun q a => finalState (a.exec q)) (.initial .default .failSafe), []⟩

theorem reachable_waiting (late : Str) :
    Reachable ReviewQueue.Step (.initial .default .failSafe) (waiting late).queue := by
  refine ReviewQueue.reachable_foldl fun a ha q => ?_
  simp only [twoAndLate, List.mem_cons, List.not_mem_nil, or_false] at ha
  rcases ha with rfl | rfl | rfl <;> trivial

/-- The sweep comes to the first of the two, and then to the second. -/
def firstSecond : List (Str × Timestamp) :=
  [("a".toList, 1700004000), ("b".toList, 1700004000)]

namespace Alerting

open ReviewQueue

/-- With no name in the way, both are told. -/
theorem sweep_announced_iff_free :
    Reachable Step (.initial .default .failSafe) (waiting "c".toList).queue ∧
    (firstSecond.map Prod.fst).Perm
      ((waiting "c".toList).queue.expiredFlowIds 1700004000 3600) ∧
    (waiting "c".toList).Announces (sweepExpiredWithSink 3600 firstSecond (waiting "c".toList)) :=
  have hperm : (firstSecond.map Prod.fst).Perm
      ((waiting "c".toList).queue.expiredFlowIds 1700004000 3600) := by decide
  ⟨reachable_waiting _, hperm,
    (sweep_announced_iff (new_eq _ _) (reachable_waiting _) hperm).mpr
      (.inl (by decide))⟩

/-- The late flow has the id of the second decision: the sweep fails there, and the first item has
been closed in silence. -/
theorem not_sweep_announced : ¬ ∀ (triggerCfg : TriggerConfig Float) (slaPolicy : SlaPolicy)
    (start : ReviewQueue Float) (s : Alerting Float),
    ReviewQueue.new triggerCfg slaPolicy = .ok start → Reachable Step start s.queue →
    ∀ (now slaSeconds : Timestamp) (order : List (Str × Timestamp)),
      (order.map Prod.fst).Perm (s.queue.expiredFlowIds now slaSeconds) →
      s.Announces (sweepExpiredWithSink slaSeconds order s) := by
  intro hclaim
  have hreachable := reachable_waiting "dec-b-1".toList
  have hperm : (firstSecond.map Prod.fst).Perm
      ((waiting "dec-b-1".toList).queue.expiredFlowIds 1700004000 3600) := by decide
  have hcondition := (announces_iff (sound_of_reachable (new_eq _ _) hreachable) hperm).mp
    (hclaim _ _ _ _ (new_eq _ _) hreachable _ _ _ hperm)
  exact absurd hcondition (by decide)

end Alerting

end ActiveDefense.Siem
