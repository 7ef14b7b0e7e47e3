import ActiveDefense.Siem.IngestAtomicity
import ActiveDefense.Siem.QueueHistory
import ActiveDefense.Siem.Replay
import ActiveDefense.Siem.Trigger

/-!
# A queue that is saved and loaded

What a sound queue saves is replayed, so the loaded queue has the same items, the same decisions and
the same counter. The counter goes on where it was, and it wraps: of `2 ^ 64` ids that it gives in a
row no two are the same, and the next one may be the first again. The id of a recorded decision is
not given again in any case, but one that was refused is.
-/

namespace ActiveDefense.Siem

namespace ReviewQueue

/-! ## What is loaded -/

section
variable {φ : Type}

/-- The queue has the items, the decisions, the verdicts and the counter of the other one. -/
structure Restores (q q' : ReviewQueue φ) : Prop where
  items : ∀ flowId, q'.items.lookup flowId = q.items.lookup flowId
  decisions : ∀ flowId, decisionsForFlow q'.engine flowId = decisionsForFlow q.engine flowId
  verdicts : ∀ flowId, q'.containmentDecision flowId = q.containmentDecision flowId
  decisionSeq : q'.decisionSeq = q.decisionSeq
  triggerCfg : q'.triggerCfg = q.triggerCfg
  slaPolicy : q'.slaPolicy = q.slaPolicy

variable [FloatArith φ]

/-- Sound queues with the same items and the same decisions read the same of every flow. -/
theorem Sound.decisionsForFlow_congr {q q' : ReviewQueue φ} (h : q.Sound) (h' : q'.Sound)
    (hitems : ∀ flowId, q'.items.lookup flowId = q.items.lookup flowId)
    (hnodes : ∀ id decision,
      q'.engine.store.instances.lookup id = some (decisionInstance decision) →
        q.engine.store.instances.lookup id = some (decisionInstance decision)) (flowId : Str) :
    decisionsForFlow q'.engine flowId = decisionsForFlow q.engine flowId := by
  have hrecorded := h.trail flowId
  have hrecorded' := h'.trail flowId
  rw [show q'.named flowId = q.named flowId by rw [named, hitems, named]] at hrecorded'
  cases hnamed : q.named flowId with
  | none =>
    rw [hnamed] at hrecorded hrecorded'
    rw [hrecorded.decisionsForFlow_none, hrecorded'.decisionsForFlow_none]
  | some id =>
    rw [hnamed] at hrecorded hrecorded'
    obtain ⟨decision, hone, -, -, hnode⟩ := hrecorded.decisionsForFlow_some
    obtain ⟨decision', hone', -, -, hnode'⟩ := hrecorded'.decisionsForFlow_some
    have hsame := (hnodes id decision' hnode').symm.trans hnode
    rw [hone, hone', decisionInstance_injective (Option.some.inj hsame)]

end

/-- A document with the items, decisions and counter of a sound queue is loaded. -/
theorem Sound.load {q : ReviewQueue Float} (h : q.Sound) {p : PersistedState}
    (hp : q.persisted.Same p)
    (hfinite : ∀ flowId item, q.items.lookup flowId = some item → item.prediction.Finite)
    (hcfg : TriggerConfig.read q.triggerCfg.write = some q.triggerCfg) {float : Float → Str}
    {fromStr : Str → Option JsonValue}
    (htext : fromStr (p.write.toStringPretty float 0) = some p.write)
    (defaultTriggerCfg : TriggerConfig Float) (defaultSlaPolicy : SlaPolicy) :
    ∃ q', loadOrNew fromStr (some (p.write.toStringPretty float 0)) defaultTriggerCfg
        defaultSlaPolicy = .ok q' ∧ q.Restores q' ∧ q'.Sound ∧ q'.Settled := by
  have hitems : ∀ flowId, p.items.lookup flowId = q.items.lookup flowId := hp.items
  have hdecisions : ∀ id, p.decisions.lookup id = q.snapshotDecisions.lookup id := hp.decisions
  have htriggerCfg : p.triggerCfg = q.triggerCfg := hp.triggerCfg
  obtain ⟨p', hread, hp'⟩ := PersistedState.read_write (p := p)
    (fun flowId item hitem => hfinite flowId item ((hitems flowId).symm.trans hitem))
    (by rw [htriggerCfg]; exact hcfg)
  have hcoherent := h.coherent.congr (fun flowId => (hp'.items flowId).trans (hitems flowId))
    fun id => (hp'.decisions id).trans (hdecisions id)
  obtain ⟨engine, hrun, hsound, hsettled, hnodes⟩ :=
    hcoherent.rehydrate p'.triggerCfg p'.slaPolicy p'.nextDecisionSeq
  refine ⟨_, ?_, ?_, hsound, hsettled⟩
  · simp only [loadOrNew, htext, Option.bind_some, hread]
    exact hrun
  · have hsame := h.decisionsForFlow_congr hsound
      (fun flowId => (hp'.items flowId).trans (hitems flowId)) fun id decision hnode => by
        rw [← h.lookup_snapshotDecisions, ← hdecisions, ← hp'.decisions]
        exact (hnodes id decision).mp hnode
    refine ⟨fun flowId => (hp'.items flowId).trans (hitems flowId), hsame, fun flowId => ?_,
      hp'.nextDecisionSeq.trans hp.nextDecisionSeq, hp'.triggerCfg.trans htriggerCfg,
      hp'.slaPolicy.trans hp.slaPolicy⟩
    simp only [containmentDecision, ContainmentExecutor.check, hsame]

/-! ## Runs -/

end ReviewQueue

/-- The predictions that an operation brings in are finite. -/
def ReviewAction.Finite : ReviewAction Float → Prop
  | ingest prediction _ => prediction.Finite
  | _ => True

namespace ReviewQueue

/-- The prediction that an event brings in is finite. -/
theorem finite_of_emits {a : ReviewAction Float} {event : QueueEvent Float} (ha : a.Finite)
    (hemits : a.Emits event) {prediction : FlowPrediction Float}
    (hevent : (∃ reason enqueuedAt, event = .queued prediction reason enqueuedAt) ∨
      ∃ decision, event = .autoResolved prediction decision) : prediction.Finite := by
  rcases hevent with ⟨reason, enqueuedAt, rfl⟩ | ⟨decision, rfl⟩
  · cases a with
    | ingest prediction' =>
      obtain ⟨rfl, -⟩ := hemits
      exact ha
    | _ => cases hemits
  · cases a with
    | ingest prediction' =>
      obtain ⟨rfl, -⟩ := hemits
      exact ha
    | _ => cases hemits

/-- The predictions of the items are finite. -/
def FiniteItems (q : ReviewQueue Float) : Prop :=
  ∀ flowId item, q.items.lookup flowId = some item → item.prediction.Finite

theorem FiniteItems.insert {q : ReviewQueue Float} (h : q.FiniteItems) {flowId : Str}
    {item : QueueItem Float} (hitem : item.prediction.Finite) (flowId' : Str)
    (item' : QueueItem Float) (hlookup : (q.items.insert flowId item).lookup flowId' = some item') :
    item'.prediction.Finite := by
  by_cases heq : flowId' = flowId
  · rw [heq, AList.lookup_insert] at hlookup
    cases hlookup
    exact hitem
  · exact h flowId' item' ((AList.lookup_insert_ne heq).symm.trans hlookup)

theorem FiniteItems.logs {q q' : ReviewQueue Float} {a : ReviewAction Float}
    {event : QueueEvent Float} (h : q.FiniteItems) (ha : a.Finite) (hemits : a.Emits event)
    (hlogs : Logs q event q') : q'.FiniteItems := by
  cases hlogs with
  | predicted => exact h
  | queued => exact h.insert (finite_of_emits ha hemits (.inl ⟨_, _, rfl⟩))
  | autoResolved => exact h.insert (finite_of_emits ha hemits (.inr ⟨_, rfl⟩))
  | claimed hitem =>
    have hfinite := h _ _ hitem
    exact h.insert hfinite
  | resolved hitem =>
    have hfinite := h _ _ hitem
    exact h.insert hfinite
  | refused => exact h

/-- What a run of operations from a new queue, with finite numbers, comes to. -/
structure Ran (triggerCfg : TriggerConfig Float) (q : ReviewQueue Float) : Prop where
  sound : q.Sound
  finite : q.FiniteItems
  numbered : q.Numbered
  triggerCfg : q.triggerCfg = triggerCfg

theorem ran_of_run {triggerCfg : TriggerConfig Float} {slaPolicy : SlaPolicy}
    {start q : ReviewQueue Float} {as : List (ReviewAction Float)}
    (hnew : new triggerCfg slaPolicy = .ok start)
    (h : Run Step (fun _ a => a.Finite) start as q) : Ran triggerCfg q := by
  rw [new_eq] at hnew
  cases hnew
  obtain ⟨hsound, hfinite, hnumbered, hcfg⟩ := (sound_initial triggerCfg slaPolicy).invariant
    (I := fun q => q.FiniteItems ∧ q.Numbered ∧ q.triggerCfg = triggerCfg) ⟨nofun, nofun, rfl⟩ h
    (by
      rintro s a t event u ha ht ⟨hfinite, hnumbered, hcfg⟩ hemits hlogs
      exact ⟨hfinite.logs ha hemits hlogs, hnumbered.logs ht hlogs, hlogs.config.1.trans hcfg⟩)
  exact ⟨hsound, hfinite, hnumbered, hcfg⟩

/-- The ids that a run of operations takes from the counter. -/
def Generates (q : ReviewQueue Float) (as : List (ReviewAction Float)) (ids : List Str)
    (q' : ReviewQueue Float) : Prop :=
  ∃ events, Run Logs (fun _ event => ∃ a ∈ as, a.Emits event) q events q' ∧
    ids = generatedIds q.decisionSeq events

/-- Every run takes some ids. -/
theorem Sound.generates {q q' : ReviewQueue Float} (h : q.Sound)
    {ok : ReviewQueue Float → ReviewAction Float → Prop} {as : List (ReviewAction Float)}
    (hrun : Run Step ok q as q') : ∃ ids, q.Generates as ids q' := by
  obtain ⟨-, events, hevents⟩ := h.logged_run hrun
  exact ⟨_, events, hevents, rfl⟩

theorem Generates.append {q q' q'' : ReviewQueue Float} {as bs : List (ReviewAction Float)}
    {ids ids' : List Str} (h : q.Generates as ids q') (h' : q'.Generates bs ids' q'') :
    q.Generates (as ++ bs) (ids ++ ids') q'' := by
  obtain ⟨events, hevents, rfl⟩ := h
  obtain ⟨events', hevents', rfl⟩ := h'
  refine ⟨events ++ events', (hevents.mono ?_).append (hevents'.mono ?_), ?_⟩
  · rintro t event ⟨a, ha, hemits⟩
    exact ⟨a, List.mem_append_left _ ha, hemits⟩
  · rintro t event ⟨a, ha, hemits⟩
    exact ⟨a, List.mem_append_right _ ha, hemits⟩
  · rw [generatedIds_append, ← seq_of_run hevents]

/-- The decisions of a queue that was loaded are those of the queue that was saved. -/
theorem Restores.holds {q q' : ReviewQueue Float} (h : q.Restores q') (hq : q.Sound)
    (hq' : q'.Sound) {decision : AuditDecision} : q'.Holds decision ↔ q.Holds decision := by
  rw [← hq'.mem_decisionsForFlow, h.decisions, hq.mem_decisionsForFlow]

/-- In every run of operations with finite numbers, the queue is saved and loaded again: the loaded
queue has the items, decisions, verdicts and counter of the one that was saved. Whatever is done
with it then, the id of a recorded decision is not given again, and of the ids given before and
after, if they are no more than `2 ^ 64`, no two are the same. -/
theorem load_save {triggerCfg : TriggerConfig Float} {slaPolicy : SlaPolicy}
    {start q : ReviewQueue Float} {as : List (ReviewAction Float)}
    (hnew : new triggerCfg slaPolicy = .ok start)
    (h : Run Step (fun _ a => a.Finite) start as q)
    (hcfg : TriggerConfig.read triggerCfg.write = some triggerCfg) {float : Float → Str}
    {fromStr : Str → Option JsonValue} (htext : fromStr (q.save float) = some q.persisted.write) :
    ∃ q', loadOrNew fromStr (some (q.save float)) triggerCfg slaPolicy = .ok q' ∧ q.Restores q' ∧
      ∀ bs q'' earlier later, Run Step (fun _ _ => True) q' bs q'' →
        start.Generates as earlier q → q'.Generates bs later q'' →
          (∀ decision ∈ allDecisions q.engine, decision.decisionId ∉ later) ∧
          (earlier.length + later.length ≤ 2 ^ 64 → (earlier ++ later).Nodup) := by
  obtain ⟨hsound, hfinite, hnumbered, htrigger⟩ := ran_of_run hnew h
  have hsame : q.persisted.Same q.persisted :=
    ⟨rfl, fun _ => rfl, fun _ => rfl, rfl, rfl, rfl⟩
  obtain ⟨q', hload, hrestores, hsound', -⟩ :=
    hsound.load hsame hfinite (by rw [htrigger]; exact hcfg) htext triggerCfg slaPolicy
  refine ⟨q', hload, hrestores, fun bs q'' earlier later _ hearlier hlater => ?_⟩
  obtain ⟨events, hevents, rfl⟩ := hearlier
  obtain ⟨events', hevents', rfl⟩ := hlater
  have hnumbered' : q'.Numbered := fun decision hholds =>
    hnumbered decision ((hrestores.holds hsound hsound').mp hholds)
  refine ⟨fun decision hmem => ?_, fun hlength => ?_⟩
  · have hholds : q.Holds decision := hsound.graph.mem_allDecisions.mp hmem
    exact hnumbered'.not_mem_generatedIds hsound' hevents'
      ((hrestores.holds hsound hsound').mpr hholds)
  · rw [hrestores.decisionSeq, seq_of_run hevents, ← generatedIds_append] at *
    refine nodup_generatedIds ?_
    rw [generatedIds_append, List.length_append]
    exact hlength

/-! ## What is not promised -/

/-- The text of a number with one or two digits after the point. -/
def shortFloat (v : Float) : Str :=
  let text := FloatArith.fixed 2 v
  if text.getLast? = some '0' then text.dropLast else text

/-- A document is read back from its text. -/
def readBack (p : PersistedState) (s : Str) : Option JsonValue :=
  if s = p.write.toStringPretty shortFloat 0 then some p.write else none

theorem readBack_write (p : PersistedState) :
    readBack p (p.write.toStringPretty shortFloat 0) = some p.write := if_pos rfl

theorem read_write_default :
    TriggerConfig.read (TriggerConfig.write .default) = some .default :=
  TriggerConfig.read_write ⟨by decide, by decide, by decide⟩

/-- One flow was contained at once, one by a reviewer, and one was dismissed by a sweep; the queue
is saved and loaded. -/
theorem load_save_threeFlows : ∃ q q' : ReviewQueue Float,
    Run Step (fun _ a => a.Finite) (initial .default .failSafe) threeFlows q ∧
    loadOrNew (readBack q.persisted) (some (q.save shortFloat)) .default .failSafe = .ok q' ∧
    (q.items.lookup "flow-2".toList).map (·.state) = some (.resolved "dec-flow-2-1".toList) ∧
    (q'.items.lookup "flow-2".toList).map (·.state) = some (.resolved "dec-flow-2-1".toList) ∧
    q'.containmentDecision "flow-2".toList = q.containmentDecision "flow-2".toList := by
  have hend : (threeFlows.foldlM next (initial .default .failSafe)).any (fun q => decide
      ((q.items.lookup "flow-2".toList).map (·.state) =
        some (.resolved "dec-flow-2-1".toList))) = true := by
    decide +kernel
  obtain ⟨q, hrun, hstate⟩ :=
    Run.exists_of_any (fun _ _ _ h => ⟨trivial, (next_spec h).2⟩) hend
  have hfinite : Run Step (fun _ a => a.Finite) (initial .default .failSafe) threeFlows q := by
    refine hrun.of_forall fun a ha _ => ?_
    simp only [threeFlows, List.mem_cons, List.not_mem_nil, or_false] at ha
    rcases ha with rfl | rfl | rfl | rfl | rfl | rfl | rfl
    · exact ⟨by decide, nofun⟩
    · exact ⟨by decide, nofun⟩
    · trivial
    · exact ⟨by decide +kernel, nofun⟩
    · trivial
    · trivial
    · trivial
  obtain ⟨q', hload, hrestores, -⟩ :=
    load_save (new_eq _ _) hfinite read_write_default (readBack_write q.persisted)
  exact ⟨q, q', hfinite, hload, hstate, by rw [hrestores.items, hstate],
    hrestores.verdicts _⟩

/-- After the namesake, the flow itself, which waits for a human as well. -/
def bothWaiting : ReviewQueue Float :=
  finalState ((ReviewAction.ingest (attack 0.5) 1700000002).exec afterNamesake)

/-- The human's decision on the flow. -/
def containFlow : ReviewAction Float :=
  .recordDecision "flow-1".toList "alice".toList .executeContainment "beaconing".toList 1700000003

/-- Another flow, which is contained at once. -/
def filler (n : Nat) : FlowPrediction Float :=
  ⟨'x' :: decimal n, "DenialOfService".toList, 0.97, none, none, false, 1700000000⟩

/-- Where the flow waits and the id for its decision is taken, the human's decision is refused. -/
theorem Sound.containFlow_refused {q : ReviewQueue Float} (h : q.Sound) {item : QueueItem Float}
    (hitem : q.items.lookup "flow-1".toList = some item) (hopen : item.state.isOpen = true)
    (htaken : decisionName "flow-1".toList q.decisionSeq ∈ q.engine.store.instances) :
    Step q containFlow { q with decisionSeq := q.decisionSeq + 1 } ∧
      q.Generates [containFlow] [decisionName "flow-1".toList q.decisionSeq]
        { q with decisionSeq := q.decisionSeq + 1 } := by
  have hrefused := h.resolve_run (.human "alice".toList) .executeContainment "beaconing".toList
    1700000003 hitem
  simp only [if_pos htaken] at hrefused
  refine ⟨⟨trivial, ?_⟩, [.refused "flow-1".toList], .single ?_ ?_, rfl⟩
  · have hreviewer : trim "alice".toList ≠ [] := by decide
    have hrationale : trim "beaconing".toList ≠ [] := by decide
    simp only [containFlow, ReviewAction.exec, finalState_discard, recordDecision]
    rw [finalState_guard, if_neg hreviewer, finalState_guard, if_neg hrationale]
    simp only [get_bind_run, hitem, hopen, if_true, hrefused]
    rfl
  · exact ⟨containFlow, .head _, rfl⟩
  · exact .refused (named_of_isOpen hitem hopen) htaken

/-- The queue after the refusal and `n` other flows: whatever is in the audit graph is one of the
two flows that wait, or it is named for one of the others. -/
structure Filled (n : Nat) (q : ReviewQueue Float) : Prop where
  sound : q.Sound
  seq : q.decisionSeq = UInt64.ofNat (n + 1)
  triggerCfg : q.triggerCfg = .default
  waiting : ∃ item, q.items.lookup "flow-1".toList = some item ∧ item.state.isOpen = true
  namesake : "dec-flow-1-0".toList ∈ q.items
  names : ∀ id ∈ q.engine.store.instances, id = "dec-flow-1-0".toList ∨ id = "flow-1".toList ∨
    ∃ k < n, id = (filler k).flowId ∨ ∃ seq, id = decisionName (filler k).flowId seq

theorem filler_flowId_inj {m n : Nat} (h : (filler m).flowId = (filler n).flowId) : m = n := by
  have hvalue := congrArg (fun s => Nat.ofDigitChars 10 s 0) (List.cons.inj h).2
  simpa only [decimal, Nat.ofDigitChars_ten_toDigits] using hvalue

/-- The name of the next flow is new, and so is that of its decision. -/
theorem Filled.free {n : Nat} {q : ReviewQueue Float} (h : Filled n q) :
    (filler n).flowId ∉ q.engine.store.instances ∧
      ∀ seq, decisionName (filler n).flowId seq ∉ q.engine.store.instances := by
  constructor
  · intro hmem
    rcases h.names _ hmem with hid | hid | ⟨k, hk, hid | ⟨seq, hid⟩⟩
    · exact absurd (congrArg List.head? hid) (by simp [filler])
    · exact absurd (congrArg List.head? hid) (by simp [filler])
    · exact absurd (filler_flowId_inj hid) (by omega)
    · exact absurd (congrArg List.head? hid) (by simp [filler, decisionName])
  · intro seq hmem
    rcases h.names _ hmem with hid | hid | ⟨k, hk, hid | ⟨seq', hid⟩⟩
    · have hname : decisionName (filler n).flowId seq = decisionName "flow-1".toList 0 := hid
      exact absurd (congrArg List.head? (decisionName_inj hname).1) (by simp [filler])
    · exact absurd (congrArg List.head? hid) (by simp [decisionName])
    · exact absurd (congrArg List.head? hid) (by simp [filler, decisionName])
    · exact absurd (filler_flowId_inj (decisionName_inj hid).1) (by omega)

theorem evaluate_filler (n : Nat) :
    ReviewTrigger.evaluate (filler n) .default = none := by
  have hattack : ReviewTrigger.evaluate (attack 0.97) .default = none := by decide +kernel
  exact hattack

/-- One more of the other flows. -/
theorem Filled.step {n : Nat} {q : ReviewQueue Float} (h : Filled n q) :
    ∃ q', Step q (.ingest (filler n) 1700000004) q' ∧ Filled (n + 1) q' := by
  obtain ⟨hfree, hnameFree⟩ := h.free
  refine ⟨_, ⟨trivial, rfl⟩, ?_⟩
  have hsound := h.sound.step (a := .ingest (filler n) 1700000004) ⟨trivial, rfl⟩
  simp only [ReviewAction.exec, finalState_discard] at hsound ⊢
  have hingested := h.sound.ingested (filler n) 1700000004
  have htrigger := evaluate_filler n
  rw [← h.triggerCfg] at htrigger
  generalize ingest (filler n) 1700000004 q = result at hingested hsound
  cases hingested with
  | duplicateFlow hmem =>
    obtain ⟨item, hitem⟩ := Table.mem_iff_lookup.mp hmem
    exact absurd (h.sound.mem_instances hitem) hfree
  | taken _ htaken => exact absurd htaken hfree
  | queued _ _ hreason => cases htrigger.symm.trans hreason
  | refused _ _ _ htaken => exact absurd htaken (hnameFree _)
  | autoResolved hnew hnode _ _ hdecision hrecord =>
    obtain ⟨item, hitem, hopen⟩ := h.waiting
    obtain ⟨-, hnodes⟩ := h.sound.graph.recordPrediction hnode
    obtain ⟨-, hinstances, -⟩ := recordDecisionNode_spec hrecord
    rw [hnodes, hdecision] at hinstances
    refine ⟨hsound, ?_, h.triggerCfg, ⟨item, ?_, hopen⟩, ?_, ?_⟩
    · show q.decisionSeq + 1 = _
      rw [h.seq, UInt64.ofNat_add (n + 1) 1]
      rfl
    · exact (AList.lookup_insert_ne (by simp [filler])).trans hitem
    · exact (AList.mem_insert _).mpr (.inr h.namesake)
    · simp only [finalState, hinstances, AList.mem_insert]
      rintro id (rfl | rfl | hid)
      · exact .inr (.inr ⟨n, by omega, .inr ⟨_, rfl⟩⟩)
      · exact .inr (.inr ⟨n, by omega, .inl rfl⟩)
      · rcases h.names id hid with hid | hid | ⟨k, hk, hid⟩
        · exact .inl hid
        · exact .inr (.inl hid)
        · exact .inr (.inr ⟨k, by omega, hid⟩)

/-- Any number of other flows, after both flows wait and the human's decision was refused. -/
theorem exists_filled (n : Nat) : ∃ as q earlier,
    Run Step (fun _ a => a.Finite) (initial .default .failSafe) as q ∧ Filled n q ∧
      (initial .default .failSafe).Generates as earlier q ∧
      decisionName "flow-1".toList 0 ∈ earlier := by
  induction n with
  | zero =>
    have hsecond : Step afterNamesake (.ingest (attack 0.5) 1700000002) bothWaiting :=
      ⟨trivial, rfl⟩
    have hrun : Run Step (fun _ a => a.Finite) (initial .default .failSafe)
        [.ingest namesake 1700000001, .ingest (attack 0.5) 1700000002] bothWaiting := by
      refine (Run.single ⟨by decide +kernel, nofun⟩ ?_).snoc ⟨by decide +kernel, nofun⟩ hsecond
      exact ⟨trivial, rfl⟩
    have hsound : bothWaiting.Sound := ((sound_initial _ _).logged_run hrun).1
    obtain ⟨ids, hids⟩ := (sound_initial _ _).generates hrun
    have hwaiting : (bothWaiting.items.lookup "flow-1".toList).any (·.state.isOpen) = true := by
      decide +kernel
    obtain ⟨item, hitem, hopen⟩ := (Option.any_eq_true _ _).mp hwaiting
    have hseq : bothWaiting.decisionSeq = 0 := by decide +kernel
    have htaken : decisionName "flow-1".toList bothWaiting.decisionSeq ∈
        bothWaiting.engine.store.instances := by
      decide +kernel
    have hnames : ∀ id ∈ bothWaiting.engine.store.instances.keys,
        id = "dec-flow-1-0".toList ∨ id = "flow-1".toList := by
      decide +kernel
    obtain ⟨hstep, hgenerates⟩ := hsound.containFlow_refused hitem hopen htaken
    refine ⟨_, _, _, hrun.snoc (a := containFlow) trivial hstep,
      ⟨hsound.step hstep, ?_, ?_, ⟨item, hitem, hopen⟩, ?_, fun id hid => ?_⟩,
      hids.append hgenerates, ?_⟩
    · show bothWaiting.decisionSeq + 1 = _
      rw [hseq]
      rfl
    · rfl
    · decide
    · rcases hnames id hid with hid | hid
      · exact .inl hid
      · exact .inr (.inl hid)
    · rw [← hseq]
      simp
  | succ n ih =>
    obtain ⟨as, q, earlier, hrun, hfilled, hearlier, hmem⟩ := ih
    obtain ⟨q', hstep, hfilled'⟩ := hfilled.step
    have hlast : Run Step (fun _ _ => True) q [.ingest (filler n) 1700000004] q' :=
      .single trivial hstep
    obtain ⟨ids, hids⟩ := hfilled.sound.generates hlast
    have hconfidence : (attack 0.97).confidence.isFinite = true := by decide
    have hfinite : (ReviewAction.ingest (filler n) 1700000004).Finite := ⟨hconfidence, nofun⟩
    refine ⟨_, q', _, hrun.snoc hfinite hstep, hfilled', hearlier.append hids, ?_⟩
    exact List.mem_append_left _ hmem

/-- The id for the decision on a flow was refused; `2 ^ 64` ids later, after the queue was saved and
loaded, the same id is given again. -/
theorem not_load_save : ¬ ∀ (triggerCfg : TriggerConfig Float) (slaPolicy : SlaPolicy)
    (start q : ReviewQueue Float) (as : List (ReviewAction Float)),
    new triggerCfg slaPolicy = .ok start → Run Step (fun _ a => a.Finite) start as q →
    TriggerConfig.read triggerCfg.write = some triggerCfg →
    ∀ (float : Float → Str) (fromStr : Str → Option JsonValue),
      fromStr (q.save float) = some q.persisted.write →
      ∃ q', loadOrNew fromStr (some (q.save float)) triggerCfg slaPolicy = .ok q' ∧
        q.Restores q' ∧ ∀ bs q'' earlier later, Run Step (fun _ _ => True) q' bs q'' →
          start.Generates as earlier q → q'.Generates bs later q'' →
            ∀ id ∈ later, id ∉ earlier := by
  intro hclaim
  obtain ⟨as, q, earlier, hrun, hfilled, hearlier, hmem⟩ := exists_filled (2 ^ 64 - 1)
  obtain ⟨q', hload, hrestores, hdistinct⟩ := hclaim .default .failSafe _ q as (new_eq _ _) hrun
    read_write_default shortFloat (readBack q.persisted) (readBack_write q.persisted)
  obtain ⟨hsound, hfinite, -, htrigger⟩ := ran_of_run (new_eq _ _) hrun
  have hsame : q.persisted.Same q.persisted :=
    ⟨rfl, fun _ => rfl, fun _ => rfl, rfl, rfl, rfl⟩
  obtain ⟨q₁, hload', -, hsound', -⟩ := hsound.load hsame hfinite
    (by rw [htrigger]; exact read_write_default) (readBack_write q.persisted) .default .failSafe
  cases hload.symm.trans hload'
  -- what waits is there again, and the counter is back at the start
  obtain ⟨item, hitem, hopen⟩ := hfilled.waiting
  rw [← hrestores.items] at hitem
  have hseq : q'.decisionSeq = 0 := by
    rw [hrestores.decisionSeq, hfilled.seq]
    exact UInt64.toNat_inj.mp rfl
  have htaken : decisionName "flow-1".toList q'.decisionSeq ∈ q'.engine.store.instances := by
    obtain ⟨namesake, hnamesake⟩ := Table.mem_iff_lookup.mp hfilled.namesake
    rw [← hrestores.items] at hnamesake
    rw [hseq]
    exact hsound'.mem_instances hnamesake
  obtain ⟨hstep, hlater⟩ := hsound'.containFlow_refused hitem hopen htaken
  refine hdistinct _ _ earlier _ (Run.single (a := containFlow) trivial hstep) hearlier hlater _
    (.head _) ?_
  rw [hseq]
  exact hmem

end ReviewQueue

end ActiveDefense.Siem
