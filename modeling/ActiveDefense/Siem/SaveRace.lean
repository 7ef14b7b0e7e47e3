import ActiveDefense.Siem.SaveLoad

/-!
# A save among other operations

`save` takes the items, the decisions, the counter and the configuration one after the other, and
the queue's mutex is free in between; the counter is read without it. What is written is a state
that the queue had, if no operation between the first reading and that of the counter records a
decision or takes an id. Otherwise the document may have a decision without its prediction, and is
not loaded again.
-/

namespace ActiveDefense.Siem.ReviewQueue

/-! ## The readings of a save -/

/-- What a save has read so far. -/
inductive Saving where
  | idle
  | items (items : Table Str (QueueItem Float))
  | decisions (items : Table Str (QueueItem Float)) (decisions : Table Str AuditDecision)
  | seq (items : Table Str (QueueItem Float)) (decisions : Table Str AuditDecision)
      (nextDecisionSeq : UInt64)
  | triggerCfg (items : Table Str (QueueItem Float)) (decisions : Table Str AuditDecision)
      (nextDecisionSeq : UInt64) (triggerCfg : TriggerConfig Float)

/-- The queue, the save under way, and the documents written. -/
structure Saver where
  queue : ReviewQueue Float
  saving : Saving
  written : List PersistedState

inductive SaveAction where
  | op (a : ReviewAction Float)
  | snapshotItems
  | snapshotDecisions
  | nextDecisionSeq
  /-- The counter is read while an operation holds the mutex, after `k` of its ids. -/
  | nextDecisionSeqDuring (a : ReviewAction Float) (k : Nat)
  | triggerCfg
  | slaPolicy

/-- The readings of `save`, between the operations of the queue. -/
inductive SaveStep : Saver → SaveAction → Saver → Prop
  | op {q q' : ReviewQueue Float} {a : ReviewAction Float} {saving : Saving}
      {written : List PersistedState} (hstep : Step q a q') :
      SaveStep ⟨q, saving, written⟩ (.op a) ⟨q', saving, written⟩
  | snapshotItems {q : ReviewQueue Float} {written : List PersistedState} :
      SaveStep ⟨q, .idle, written⟩ .snapshotItems ⟨q, .items q.items, written⟩
  | snapshotDecisions {q : ReviewQueue Float} {items : Table Str (QueueItem Float)}
      {written : List PersistedState} :
      SaveStep ⟨q, .items items, written⟩ .snapshotDecisions
        ⟨q, .decisions items q.snapshotDecisions, written⟩
  | nextDecisionSeq {q : ReviewQueue Float} {items : Table Str (QueueItem Float)}
      {decisions : Table Str AuditDecision} {written : List PersistedState} :
      SaveStep ⟨q, .decisions items decisions, written⟩ .nextDecisionSeq
        ⟨q, .seq items decisions q.decisionSeq, written⟩
  | nextDecisionSeqDuring {q q' : ReviewQueue Float} {a : ReviewAction Float} {k : Nat}
      {items : Table Str (QueueItem Float)} {decisions : Table Str AuditDecision}
      {written : List PersistedState} (hstep : Step q a q')
      (hk : k ≤ (q'.decisionSeq - q.decisionSeq).toNat) :
      SaveStep ⟨q, .decisions items decisions, written⟩ (.nextDecisionSeqDuring a k)
        ⟨q', .seq items decisions (q.decisionSeq + UInt64.ofNat k), written⟩
  | triggerCfg {q : ReviewQueue Float} {items : Table Str (QueueItem Float)}
      {decisions : Table Str AuditDecision} {seq : UInt64} {written : List PersistedState} :
      SaveStep ⟨q, .seq items decisions seq, written⟩ .triggerCfg
        ⟨q, .triggerCfg items decisions seq q.triggerCfg, written⟩
  | slaPolicy {q : ReviewQueue Float} {items : Table Str (QueueItem Float)}
      {decisions : Table Str AuditDecision} {seq : UInt64} {cfg : TriggerConfig Float}
      {written : List PersistedState} :
      SaveStep ⟨q, .triggerCfg items decisions seq cfg, written⟩ .slaPolicy
        ⟨q, .idle, ⟨1, items, decisions, seq, cfg, q.slaPolicy⟩ :: written⟩

/-! ## What may come in between -/

/-- An operation between the items and the counter that does no harm: it records no decision, and it
takes an id only where it changes nothing else and the items are those that were read. -/
def Harmless (items : Table Str (QueueItem Float)) (q : ReviewQueue Float)
    (a : ReviewAction Float) : Prop :=
  let q' := finalState (a.exec q)
  (∀ decision, q'.Holds decision → q.Holds decision) ∧
    (q'.decisionSeq = q.decisionSeq ∨
      (∀ flowId, q.items.lookup flowId = items.lookup flowId) ∧ q'.items = q.items ∧
        q'.engine = q.engine)

/-- A save begins while all numbers are finite and no prediction is without an item, and until it
has read the counter the operations do no harm. -/
def Orderly (σ : Saver) : SaveAction → Prop
  | .snapshotItems => σ.queue.FiniteItems ∧ σ.queue.Settled
  | .op a =>
    match σ.saving with
    | .items items | .decisions items _ => Harmless items σ.queue a
    | _ => True
  | .nextDecisionSeqDuring a k => k = 0 ∨
    match σ.saving with
    | .decisions items _ => Harmless items σ.queue a ∧
        σ.queue.decisionSeq + UInt64.ofNat k = (finalState (a.exec σ.queue)).decisionSeq
    | _ => True
  | _ => True

/-! ## A step of the queue -/

/-- A prediction that gets an item. -/
theorem Settled.predict {q : ReviewQueue Float} (h : q.Sound) (hsettled : q.Settled)
    {prediction : FlowPrediction Float} {engine : OntologyEngine}
    (hnode : recordPrediction prediction q.engine = .ok () engine) {id : Str}
    (hid : id ∈ engine.store.instances) : id = prediction.flowId ∨ id ∈ q.items ∨
      ∃ decision, engine.store.instances.lookup decision.decisionId =
        some (decisionInstance decision) ∧ decision.decisionId = id := by
  obtain ⟨hnew, -⟩ := recordPrediction_spec hnode
  obtain ⟨-, hinstances⟩ := h.graph.recordPrediction hnode
  rw [hinstances] at hid ⊢
  rcases (AList.mem_insert _).mp hid with heq | hid
  · exact .inl heq
  · rcases hsettled id hid with hmem | ⟨decision, hholds, hdecision⟩
    · exact .inr (.inl hmem)
    · exact .inr (.inr ⟨decision, Table.lookup_insert_of_not_mem hnew hholds, hdecision⟩)

/-- A step leaves no prediction without an item, unless an ingest loses its id. -/
theorem Sound.settled_step {q q' : ReviewQueue Float} {a : ReviewAction Float} (h : q.Sound)
    (hsettled : q.Settled) (hstep : Step q a q') :
    q'.Settled ∨ q'.decisionSeq ≠ q.decisionSeq ∧ q'.engine ≠ q.engine := by
  have hother : (∀ prediction, ¬ a.Emits (.predicted prediction)) → q'.Settled := by
    intro hemits
    obtain ⟨events, hevents⟩ := h.logged hstep
    refine (hevents.invariant (I := fun q => q.Sound ∧ q.Settled) ⟨h, hsettled⟩ ?_).2
    rintro t event u ⟨ht, hsettled⟩ hevent hlogs
    refine ⟨ht.logs hlogs, hsettled.logs ht hlogs ?_⟩
    rintro prediction rfl
    exact hemits prediction hevent
  cases a with
  | ingest prediction enqueuedAt =>
    obtain ⟨-, rfl⟩ := hstep
    simp only [ReviewAction.exec, finalState_discard]
    have hingested := h.ingested prediction enqueuedAt
    generalize ingest prediction enqueuedAt q = result at hingested
    cases hingested with
    | duplicateFlow => exact .inl hsettled
    | taken => exact .inl hsettled
    | queued hnew hnode htrigger =>
      refine .inl fun id hid => ?_
      rcases hsettled.predict h hnode hid with rfl | hmem | hdecision
      · exact .inl ((AList.mem_insert _).mpr (.inl rfl))
      · exact .inl ((AList.mem_insert _).mpr (.inr hmem))
      · exact .inr hdecision
    | refused hnew hnode htrigger htaken =>
      obtain ⟨hfree, -⟩ := recordPrediction_spec hnode
      obtain ⟨-, hinstances⟩ := h.graph.recordPrediction hnode
      refine .inr ⟨by simp [finalState], fun heq => hfree ?_⟩
      rw [← heq]
      simp only [finalState, hinstances]
      exact (AList.mem_insert _).mpr (.inl rfl)
    | autoResolved hnew hnode htrigger hfree hdecision hrecord =>
      obtain ⟨hfree', hinstances, -⟩ := recordDecisionNode_spec hrecord
      refine .inl fun id hid => ?_
      simp only [finalState, hinstances] at hid
      rcases (AList.mem_insert _).mp hid with heq | hid
      · refine .inr ⟨_, ?_, heq.symm⟩
        unfold Holds
        simp only [finalState, hinstances, AList.lookup_insert]
      · rcases hsettled.predict h hnode hid with rfl | hmem | ⟨decision, hholds, heq⟩
        · exact .inl ((AList.mem_insert _).mpr (.inl rfl))
        · exact .inl ((AList.mem_insert _).mpr (.inr hmem))
        · refine .inr ⟨decision, ?_, heq⟩
          unfold Holds
          simp only [finalState, hinstances]
          exact Table.lookup_insert_of_not_mem hfree' hholds
  | claim => exact .inl (hother fun _ => id)
  | recordDecision => exact .inl (hother fun _ => id)
  | sweepExpired => exact .inl (hother fun _ => id)

theorem Sound.config_step {q q' : ReviewQueue Float} {a : ReviewAction Float} (h : q.Sound)
    (hstep : Step q a q') : q'.triggerCfg = q.triggerCfg ∧ q'.slaPolicy = q.slaPolicy := by
  obtain ⟨events, hevents⟩ := h.logged hstep
  refine hevents.invariant
    (I := fun t => t.triggerCfg = q.triggerCfg ∧ t.slaPolicy = q.slaPolicy) ⟨rfl, rfl⟩ ?_
  rintro t event u ⟨hcfg, hpolicy⟩ - hlogs
  exact ⟨hlogs.config.1.trans hcfg, hlogs.config.2.trans hpolicy⟩

/-! ## The state that is saved -/

/-- A state that can be saved and loaded. -/
structure Savable (triggerCfg : TriggerConfig Float) (slaPolicy : SlaPolicy)
    (s : ReviewQueue Float) : Prop where
  sound : s.Sound
  finite : s.FiniteItems
  settled : s.Settled
  triggerCfg : s.triggerCfg = triggerCfg
  slaPolicy : s.slaPolicy = slaPolicy

/-- The queue has the items of a state that was saved, or others, and its decisions and counter. -/
structure Bears (s q : ReviewQueue Float) : Prop where
  settled : q.Settled
  holds : ∀ decision, q.Holds decision ↔ s.Holds decision
  seq : q.decisionSeq = s.decisionSeq

/-- An operation that does no harm: the state that is saved is the one before or the one after. -/
theorem Bears.step {triggerCfg : TriggerConfig Float} {slaPolicy : SlaPolicy}
    {s q q' : ReviewQueue Float} {a : ReviewAction Float} {items : Table Str (QueueItem Float)}
    (h : Bears s q) (hs : Savable triggerCfg slaPolicy s)
    (hq : q.Sound) (hcfg : q.triggerCfg = triggerCfg ∧ q.slaPolicy = slaPolicy)
    (hitems : ∀ flowId, s.items.lookup flowId = items.lookup flowId)
    (hstep : Step q a q') (hharmless : Harmless items q a) :
    ∃ s', (s' = s ∨ s' = q') ∧ Savable triggerCfg slaPolicy s' ∧
      (∀ flowId, s'.items.lookup flowId = items.lookup flowId) ∧
      (∀ decision, s'.Holds decision ↔ s.Holds decision) ∧ Bears s' q' := by
  have hq' : q' = finalState (a.exec q) := hstep.2
  unfold Harmless at hharmless
  rw [← hq'] at hharmless
  obtain ⟨hrecorded, hcounter⟩ := hharmless
  have hholds : ∀ decision, q'.Holds decision ↔ s.Holds decision := fun decision =>
    ⟨fun h' => (h.holds decision).mp (hrecorded decision h'),
      fun h' => ((h.holds decision).mpr h').step hq hstep⟩
  have hsettled : q'.Settled := by
    rcases hq.settled_step h.settled hstep with hsettled | ⟨hseq, hengine⟩
    · exact hsettled
    · rcases hcounter with heq | ⟨-, -, heq⟩
      · exact absurd heq hseq
      · exact absurd heq hengine
  rcases hcounter with hseq | ⟨hread, hkept, -⟩
  · exact ⟨s, .inl rfl, hs, hitems, fun _ => Iff.rfl, hsettled, hholds, hseq.trans h.seq⟩
  · have hitems' : ∀ flowId, q'.items.lookup flowId = items.lookup flowId := by
      rw [hkept]
      exact hread
    obtain ⟨hcfg', hpolicy'⟩ := hq.config_step hstep
    refine ⟨q', .inr rfl, ⟨hq.step hstep, fun flowId item hitem => ?_, hsettled,
      hcfg'.trans hcfg.1, hpolicy'.trans hcfg.2⟩, hitems', hholds, hsettled, fun _ => Iff.rfl, rfl⟩
    rw [hitems', ← hitems] at hitem
    exact hs.finite flowId item hitem

/-- What was read so far is of the state `s`, which the queue bears until the counter is read. -/
def Saving.Of (saving : Saving) (s q : ReviewQueue Float) : Prop :=
  match saving with
  | .idle => True
  | .items taken => (∀ flowId, s.items.lookup flowId = taken.lookup flowId) ∧ Bears s q
  | .decisions taken recorded => (∀ flowId, s.items.lookup flowId = taken.lookup flowId) ∧
      (∀ id, s.snapshotDecisions.lookup id = recorded.lookup id) ∧ Bears s q
  | .seq taken recorded count => (∀ flowId, s.items.lookup flowId = taken.lookup flowId) ∧
      (∀ id, s.snapshotDecisions.lookup id = recorded.lookup id) ∧ s.decisionSeq = count
  | .triggerCfg taken recorded count cfg =>
      (∀ flowId, s.items.lookup flowId = taken.lookup flowId) ∧
      (∀ id, s.snapshotDecisions.lookup id = recorded.lookup id) ∧ s.decisionSeq = count ∧
      s.triggerCfg = cfg

/-- Sound queues with the same decisions have the same snapshot of them. -/
theorem Sound.snapshotDecisions_congr {s q : ReviewQueue Float} (hs : s.Sound) (hq : q.Sound)
    (h : ∀ decision, q.Holds decision ↔ s.Holds decision) (id : Str) :
    q.snapshotDecisions.lookup id = s.snapshotDecisions.lookup id := by
  refine Option.ext fun decision => ?_
  have hnode : ∀ {t : ReviewQueue Float}, t.Sound →
      (t.snapshotDecisions.lookup id = some decision ↔
        t.Holds decision ∧ decision.decisionId = id) := by
    intro t ht
    rw [ht.lookup_snapshotDecisions]
    constructor
    · intro hid
      have heq := ht.graph.decisionId_eq hid
      exact ⟨by rw [Holds, heq, hid], heq⟩
    · rintro ⟨hid, rfl⟩
      exact hid
  rw [hnode hq, hnode hs, h]

section
variable {triggerCfg : TriggerConfig Float} {slaPolicy : SlaPolicy} {s q q' : ReviewQueue Float}
  {a : ReviewAction Float} {written : List PersistedState}

/-- An operation during a save: what was read is of the same state, or of the one after it. -/
theorem Saving.Of.op {saving : Saving} (h : saving.Of s q) (hs : Savable triggerCfg slaPolicy s)
    (hq : q.Sound) (hcfg : q.triggerCfg = triggerCfg ∧ q.slaPolicy = slaPolicy)
    (hstep : Step q a q') (hok : Orderly ⟨q, saving, written⟩ (.op a)) :
    ∃ s', (s' = s ∨ s' = q') ∧ Savable triggerCfg slaPolicy s' ∧ saving.Of s' q' := by
  cases saving with
  | idle => exact ⟨s, .inl rfl, hs, trivial⟩
  | items taken =>
    obtain ⟨hitems, hbears⟩ := h
    obtain ⟨s', hwhich, hs', hitems', -, hbears'⟩ := hbears.step hs hq hcfg hitems hstep hok
    exact ⟨s', hwhich, hs', hitems', hbears'⟩
  | decisions taken recorded =>
    obtain ⟨hitems, hdecisions, hbears⟩ := h
    obtain ⟨s', hwhich, hs', hitems', hholds, hbears'⟩ := hbears.step hs hq hcfg hitems hstep hok
    refine ⟨s', hwhich, hs', hitems', fun id => ?_, hbears'⟩
    rw [← hdecisions]
    exact hs.sound.snapshotDecisions_congr hs'.sound hholds id
  | seq => exact ⟨s, .inl rfl, hs, h⟩
  | triggerCfg => exact ⟨s, .inl rfl, hs, h⟩

/-- The counter is read during an operation. -/
theorem Saving.Of.nextDecisionSeqDuring {taken : Table Str (QueueItem Float)}
    {recorded : Table Str AuditDecision} {k : Nat} (h : (decisions taken recorded).Of s q)
    (hs : Savable triggerCfg slaPolicy s) (hq : q.Sound)
    (hcfg : q.triggerCfg = triggerCfg ∧ q.slaPolicy = slaPolicy) (hstep : Step q a q')
    (hok : Orderly ⟨q, .decisions taken recorded, written⟩ (.nextDecisionSeqDuring a k)) :
    ∃ s', (s' = s ∨ s' = q') ∧ Savable triggerCfg slaPolicy s' ∧
      (seq taken recorded (q.decisionSeq + UInt64.ofNat k)).Of s' q' := by
  obtain ⟨hitems, hdecisions, hbears⟩ := h
  rcases hok with rfl | ⟨hharmless, hlast⟩
  · refine ⟨s, .inl rfl, hs, hitems, hdecisions, ?_⟩
    rw [← hbears.seq]
    simp
  · obtain ⟨s', hwhich, hs', hitems', hholds, hbears'⟩ :=
      hbears.step hs hq hcfg hitems hstep hharmless
    refine ⟨s', hwhich, hs', hitems', fun id => ?_, ?_⟩
    · rw [← hdecisions]
      exact hs.sound.snapshotDecisions_congr hs'.sound hholds id
    · rw [← hbears'.seq, hstep.2, ← hlast]

end

/-- The save, with the states that the queue has had. -/
structure Saved (triggerCfg : TriggerConfig Float) (slaPolicy : SlaPolicy) (start : Saver)
    (as : List SaveAction) (σ : Saver) : Prop where
  sound : σ.queue.Sound
  config : σ.queue.triggerCfg = triggerCfg ∧ σ.queue.slaPolicy = slaPolicy
  saving : σ.saving = .idle ∨ ∃ s, Savable triggerCfg slaPolicy s ∧
    Visited SaveStep Orderly start as (fun τ => τ.queue = s) ∧ σ.saving.Of s σ.queue
  written : ∀ p ∈ σ.written, ∃ s, Savable triggerCfg slaPolicy s ∧
    Visited SaveStep Orderly start as (fun τ => τ.queue = s) ∧ s.persisted.Same p

section
variable {triggerCfg : TriggerConfig Float} {slaPolicy : SlaPolicy} {start : Saver}
  {as : List SaveAction} {σ σ' : Saver}

/-- A step of the save, or of the queue meanwhile. -/
theorem Saved.step {a : SaveAction} (h : Saved triggerCfg slaPolicy start as σ)
    (hrun : Run SaveStep Orderly start as σ) (hok : Orderly σ a) (hstep : SaveStep σ a σ') :
    Saved triggerCfg slaPolicy start (as ++ [a]) σ' := by
  have hvisited : Visited SaveStep Orderly start (as ++ [a]) (fun τ => τ.queue = σ'.queue) :=
    (hrun.snoc hok hstep).visited rfl
  have hpassed : ∀ {s s' : ReviewQueue Float},
      Visited SaveStep Orderly start as (fun τ => τ.queue = s) → (s' = s ∨ s' = σ'.queue) →
        Visited SaveStep Orderly start (as ++ [a]) (fun τ => τ.queue = s') := by
    rintro s s' hpast (rfl | rfl)
    · exact hpast.snoc a
    · exact hvisited
  -- what was written, and a state that the queue had
  have hkept : ∀ p ∈ σ.written, ∃ s, Savable triggerCfg slaPolicy s ∧
      Visited SaveStep Orderly start (as ++ [a]) (fun τ => τ.queue = s) ∧
        s.persisted.Same p := by
    intro p hp
    obtain ⟨s, hs, hpast, hsame⟩ := h.written p hp
    exact ⟨s, hs, hpast.snoc a, hsame⟩
  obtain ⟨hsound, hconfig, hsaving, -⟩ := h
  cases hstep with
  | @op q q' a saving _ hstep =>
    obtain ⟨hcfg, hpolicy⟩ := hsound.config_step hstep
    refine ⟨hsound.step hstep, ⟨hcfg.trans hconfig.1, hpolicy.trans hconfig.2⟩, ?_, hkept⟩
    rcases hsaving with hidle | ⟨s, hs, hpast, hof⟩
    · exact .inl hidle
    · obtain ⟨s', hwhich, hs', hof'⟩ := hof.op hs hsound hconfig hstep hok
      exact .inr ⟨s', hs', hpassed hpast hwhich, hof'⟩
  | snapshotItems =>
    obtain ⟨hfinite, hsettled⟩ := hok
    refine ⟨hsound, hconfig, .inr ⟨_, ?_, hvisited, ?_⟩, hkept⟩
    · exact ⟨hsound, hfinite, hsettled, hconfig.1, hconfig.2⟩
    · exact ⟨fun _ => rfl, hsettled, fun _ => Iff.rfl, rfl⟩
  | snapshotDecisions =>
    rcases hsaving with hidle | ⟨s, hs, hpast, hitems, hbears⟩
    · cases hidle
    · refine ⟨hsound, hconfig, .inr ⟨s, hs, hpast.snoc _, hitems, fun id => ?_, hbears⟩, hkept⟩
      exact (hs.sound.snapshotDecisions_congr hsound hbears.holds id).symm
  | nextDecisionSeq =>
    rcases hsaving with hidle | ⟨s, hs, hpast, hitems, hdecisions, hbears⟩
    · cases hidle
    · exact ⟨hsound, hconfig, .inr ⟨s, hs, hpast.snoc _, hitems, hdecisions, hbears.seq.symm⟩,
        hkept⟩
  | nextDecisionSeqDuring hstep =>
    obtain ⟨hcfg, hpolicy⟩ := hsound.config_step hstep
    refine ⟨hsound.step hstep, ⟨hcfg.trans hconfig.1, hpolicy.trans hconfig.2⟩, .inr ?_, hkept⟩
    rcases hsaving with hidle | ⟨s, hs, hpast, hof⟩
    · cases hidle
    · obtain ⟨s', hwhich, hs', hof'⟩ := hof.nextDecisionSeqDuring hs hsound hconfig hstep hok
      exact ⟨s', hs', hpassed hpast hwhich, hof'⟩
  | triggerCfg =>
    rcases hsaving with hidle | ⟨s, hs, hpast, hitems, hdecisions, hseq⟩
    · cases hidle
    · exact ⟨hsound, hconfig, .inr ⟨s, hs, hpast.snoc _, hitems, hdecisions, hseq,
        hs.triggerCfg.trans hconfig.1.symm⟩, hkept⟩
  | slaPolicy =>
    rcases hsaving with hidle | ⟨s, hs, hpast, hitems, hdecisions, hseq, hcfg⟩
    · cases hidle
    · refine ⟨hsound, hconfig, .inl rfl, fun p hp => ?_⟩
      rcases List.mem_cons.mp hp with rfl | hp
      · refine ⟨s, hs, hpast.snoc _, rfl, fun flowId => (hitems flowId).symm,
          fun id => (hdecisions id).symm, hseq.symm, hcfg.symm, ?_⟩
        exact hconfig.2.trans hs.slaPolicy.symm
      · exact hkept p hp

theorem saved_of_run (hstart : start = ⟨initial triggerCfg slaPolicy, .idle, []⟩)
    (h : Run SaveStep Orderly start as σ) : Saved triggerCfg slaPolicy start as σ := by
  induction h with
  | nil =>
    rw [hstart]
    exact ⟨sound_initial _ _, ⟨rfl, rfl⟩, .inl rfl, nofun⟩
  | snoc hrun hok hstep ih => exact ih.step hrun hok hstep

end

/-! ## What was written is loaded -/

/-- The loaded queue is the one that was saved: its graph has the same nodes as well. -/
structure Reproduces (q q' : ReviewQueue Float) : Prop extends Restores q q' where
  nodes : ∀ id, q'.engine.store.instances.lookup id = q.engine.store.instances.lookup id

/-- A node is that of an item or of a decision, so the same items and decisions have the same. -/
theorem Settled.lookup {q q' : ReviewQueue Float} (h : q.Settled) (hq : q.Sound) (hq' : q'.Sound)
    (hitems : ∀ flowId, q'.items.lookup flowId = q.items.lookup flowId)
    (hholds : ∀ decision, q'.Holds decision ↔ q.Holds decision) {id : Str} {inst : ObjectInstance}
    (hnode : q.engine.store.instances.lookup id = some inst) :
    q'.engine.store.instances.lookup id = some inst := by
  rcases h id (Table.mem_iff_lookup.mpr ⟨inst, hnode⟩) with hmem | ⟨decision, hdecision, rfl⟩
  · obtain ⟨item, hitem⟩ := Table.mem_iff_lookup.mp hmem
    have hpredicted := (hq.predicted id item hitem).2
    rw [hnode] at hpredicted
    rw [hpredicted]
    exact (hq'.predicted id item ((hitems id).trans hitem)).2
  · have hsame := (hholds decision).mpr hdecision
    rw [Holds, hnode] at hdecision
    rw [hdecision]
    exact hsame

/-- In every run of a queue and its saves that is orderly, each document written holds each
decision that an item names, and no other, and it is loaded; the loaded queue is one that the queue
was between two operations. -/
theorem reproduces_of_written {triggerCfg : TriggerConfig Float} {slaPolicy : SlaPolicy}
    {start : ReviewQueue Float} {as : List SaveAction} {σ : Saver}
    (hnew : new triggerCfg slaPolicy = .ok start) (hcfg : triggerCfg.Finite)
    (h : Run SaveStep Orderly ⟨start, .idle, []⟩ as σ) {p : PersistedState} (hp : p ∈ σ.written)
    {float : Float → Str} {fromStr : Str → Option JsonValue}
    (htext : fromStr (p.write.toStringPretty float 0) = some p.write)
    (defaultTriggerCfg : TriggerConfig Float) (defaultSlaPolicy : SlaPolicy) :
    Coherent p.items p.decisions ∧
    ∃ q', loadOrNew fromStr (some (p.write.toStringPretty float 0)) defaultTriggerCfg
        defaultSlaPolicy = .ok q' ∧
      Visited SaveStep Orderly ⟨start, .idle, []⟩ as fun τ => τ.queue.Reproduces q' := by
  rw [new_eq] at hnew
  cases hnew
  obtain ⟨s, hs, ⟨bs, cs, τ, has, hrun, rfl⟩, hsame⟩ := (saved_of_run rfl h).written p hp
  refine ⟨hs.sound.coherent.congr hsame.items hsame.decisions, ?_⟩
  obtain ⟨q', hload, hrestores, hsound, hsettled⟩ := hs.sound.load hsame hs.finite
    (by rw [hs.triggerCfg]; exact TriggerConfig.read_write hcfg) htext defaultTriggerCfg
    defaultSlaPolicy
  have hholds : ∀ decision, q'.Holds decision ↔ τ.queue.Holds decision :=
    fun decision => hrestores.holds hs.sound hsound
  refine ⟨q', hload, bs, cs, τ, has, hrun, hrestores, fun id => Option.ext fun inst => ⟨?_, ?_⟩⟩
  · exact hsettled.lookup hsound hs.sound (fun flowId => (hrestores.items flowId).symm)
      fun decision => (hholds decision).symm
  · exact hs.settled.lookup hs.sound hsound hrestores.items hholds

/-- A claim writes nothing to the audit graph, and takes no id. -/
theorem harmless_claim (items : Table Str (QueueItem Float)) (q : ReviewQueue Float)
    (flowId reviewer : Str) (claimedAt : Timestamp) :
    Harmless items q (.claim flowId reviewer claimedAt) := by
  have hkept : (finalState (claim flowId reviewer claimedAt q)).engine = q.engine ∧
      (finalState (claim flowId reviewer claimedAt q)).decisionSeq = q.decisionSeq := by
    cases hrun : claim flowId reviewer claimedAt q with
    | error e q' =>
      cases claim_error hrun
      exact ⟨rfl, rfl⟩
    | ok _ q' =>
      obtain ⟨item, reason, -, -, rfl⟩ := claim_spec hrun
      exact ⟨rfl, rfl⟩
  refine ⟨fun decision hholds => ?_, .inl hkept.2⟩
  unfold Holds at hholds ⊢
  simp only [ReviewAction.exec, hkept.1] at hholds
  exact hholds

/-- A flow waits when the save takes the items; then a reviewer claims it. -/
def claimedMeanwhile : List SaveAction :=
  [.op (.ingest (attack 0.5) 1700000001), .snapshotItems,
    .op (.claim "flow-1".toList "alice".toList 1700000002), .snapshotDecisions, .nextDecisionSeq,
    .triggerCfg, .slaPolicy]

theorem reproduces_of_written_claimed : ∃ σ p q', p ∈ σ.written ∧
    Run SaveStep Orderly ⟨initial .default .failSafe, .idle, []⟩ claimedMeanwhile σ ∧
    loadOrNew (readBack p) (some (p.write.toStringPretty shortFloat 0)) .default
      .failSafe = .ok q' ∧
    Visited SaveStep Orderly ⟨initial .default .failSafe, .idle, []⟩ claimedMeanwhile
      fun τ => τ.queue.Reproduces q' := by
  let waiting : ReviewQueue Float := finalState
    ((ReviewAction.ingest (attack 0.5) 1700000001).exec (initial .default .failSafe))
  have hstep : Step (initial .default .failSafe) (.ingest (attack 0.5) 1700000001) waiting :=
    ⟨trivial, rfl⟩
  have hfinite : (ReviewAction.ingest (attack 0.5) 1700000001).Finite :=
    ⟨by decide, nofun⟩
  have hran := ran_of_run (new_eq _ _) (Run.single hfinite hstep)
  have hsettled : waiting.Settled := by
    have hempty : (initial (φ := Float) .default .failSafe).Settled := nofun
    rcases (sound_initial _ _).settled_step hempty hstep with h | ⟨hseq, -⟩
    · exact h
    · exact absurd (by decide) hseq
  let claimed : ReviewQueue Float :=
    finalState ((ReviewAction.claim "flow-1".toList "alice".toList 1700000002).exec waiting)
  have hwaiting : Run SaveStep Orderly ⟨initial .default .failSafe, .idle, []⟩
      [.op (.ingest (attack 0.5) 1700000001)] ⟨waiting, .idle, []⟩ := .single trivial (.op hstep)
  have hitems : Run SaveStep Orderly ⟨waiting, .idle, []⟩ [.snapshotItems]
      ⟨waiting, .items waiting.items, []⟩ := .single ⟨hran.finite, hsettled⟩ .snapshotItems
  have hclaimed : Run SaveStep Orderly ⟨waiting, .items waiting.items, []⟩
      [.op (.claim "flow-1".toList "alice".toList 1700000002)]
      ⟨claimed, .items waiting.items, []⟩ :=
    .single (harmless_claim _ _ _ _ _) (.op ⟨trivial, rfl⟩)
  have hrest : Run SaveStep Orderly ⟨claimed, .items waiting.items, []⟩
      [.snapshotDecisions, .nextDecisionSeq, .triggerCfg, .slaPolicy]
      ⟨claimed, .idle, [⟨1, waiting.items, claimed.snapshotDecisions, claimed.decisionSeq,
        claimed.triggerCfg, claimed.slaPolicy⟩]⟩ :=
    (((Run.single trivial .snapshotDecisions).snoc trivial .nextDecisionSeq).snoc trivial
      .triggerCfg).snoc trivial .slaPolicy
  have hrun := hwaiting.append (hitems.append (hclaimed.append hrest))
  have hcfg : (TriggerConfig.default : TriggerConfig Float).Finite :=
    ⟨by decide, by decide, by decide⟩
  obtain ⟨-, q', hload, hpast⟩ := reproduces_of_written (new_eq _ _) hcfg hrun (.head _)
    (readBack_write _) .default .failSafe
  exact ⟨_, _, q', .head _, hrun, hload, hpast⟩

/-- A flow is contained at once after the save has taken the items. -/
def containedMeanwhile : List SaveAction :=
  [.snapshotItems, .op (.ingest (attack 0.97) 1700000001), .snapshotDecisions, .nextDecisionSeq,
    .triggerCfg, .slaPolicy]

/-- The queue after the flow was contained. -/
def contained : ReviewQueue Float :=
  finalState ((ReviewAction.ingest (attack 0.97) 1700000001).exec (initial .default .failSafe))

/-- The document has the decision, and no item. -/
def torn : PersistedState :=
  ⟨1, ∅, contained.snapshotDecisions, contained.decisionSeq, contained.triggerCfg,
    contained.slaPolicy⟩

/-- What was written is not loaded. -/
theorem not_reproduces_of_written : ¬ ∀ (triggerCfg : TriggerConfig Float)
    (slaPolicy : SlaPolicy) (start : ReviewQueue Float) (as : List SaveAction) (σ : Saver),
    new triggerCfg slaPolicy = .ok start →
    Run SaveStep (fun _ _ => True) ⟨start, .idle, []⟩ as σ → ∀ p ∈ σ.written,
    ∀ (float : Float → Str) (fromStr : Str → Option JsonValue),
      fromStr (p.write.toStringPretty float 0) = some p.write →
      ∀ (defaultTriggerCfg : TriggerConfig Float) (defaultSlaPolicy : SlaPolicy),
        ∃ q', loadOrNew fromStr (some (p.write.toStringPretty float 0)) defaultTriggerCfg
            defaultSlaPolicy = .ok q' ∧
          Visited SaveStep (fun _ _ => True) ⟨start, .idle, []⟩ as
            fun τ => τ.queue.Reproduces q' := by
  intro hclaim
  have hrun : Run SaveStep (fun _ _ => True) ⟨initial .default .failSafe, .idle, []⟩
      containedMeanwhile ⟨contained, .idle, [torn]⟩ :=
    (((((Run.nil.snoc trivial .snapshotItems).snoc trivial (.op ⟨trivial, rfl⟩)).snoc trivial
      .snapshotDecisions).snoc trivial .nextDecisionSeq).snoc trivial .triggerCfg).snoc trivial
      .slaPolicy
  obtain ⟨q', hload, -⟩ := hclaim _ _ _ _ _ (new_eq _ _) hrun torn (.head _) shortFloat
    (fun _ => some torn.write) rfl .default .failSafe
  have hfails : (match loadOrNew (fun _ => some torn.write) (some []) .default .failSafe with
      | .ok _ => true
      | .error _ => false) = false := by
    decide
  change loadOrNew (fun _ => some torn.write) (some []) .default .failSafe = .ok q' at hload
  rw [hload] at hfails
  cases hfails

end ActiveDefense.Siem.ReviewQueue
