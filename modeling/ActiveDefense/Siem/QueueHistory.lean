import ActiveDefense.Siem.QueueLog

/-!
# The history of a queue

What the audit graph holds stays there, and an item that is closed stays as it is. A decision that
is new was recorded by an event, under the id that the counter gave then; an id that the counter
gives to a flow is given while the flow has no decision. So it is never that of a decision that was
recorded before, though the counter wraps.
-/

namespace ActiveDefense.Siem

/-! ## The ids that the counter gives -/

/-- No decimal digit is a hyphen, so the last hyphen of a decision's id ends the id of its flow. -/
theorem decisionName_inj {flowId flowId' : Str} {seq seq' : UInt64}
    (h : decisionName flowId seq = decisionName flowId' seq') : flowId = flowId' ∧ seq = seq' := by
  have hhyphen : ∀ n, '-' ∉ (decimal n).reverse := by
    intro n hmem
    exact absurd (isDigit_of_mem_decimal (List.mem_reverse.mp hmem)) (by decide)
  simp only [decisionName, List.append_assoc, List.append_cancel_left_eq] at h
  replace h := congrArg (fun s => splitOnce '-' s.reverse) h
  simp only [List.reverse_append, List.reverse_cons, List.append_assoc, List.singleton_append,
    splitOnce_append (hhyphen _), Option.some.injEq, Prod.mk.injEq, List.reverse_inj] at h
  obtain ⟨hdigits, hflow⟩ := h
  refine ⟨hflow, UInt64.toNat_inj.mp ?_⟩
  have hvalue := congrArg (fun s => Nat.ofDigitChars 10 s 0) hdigits
  simpa only [decimal, Nat.ofDigitChars_ten_toDigits] using hvalue

/-- The flow for whose decision an event takes an id from the counter. -/
def QueueEvent.subject {φ : Type} : QueueEvent φ → Option Str
  | autoResolved _ decision => some decision.flowId
  | resolved decision => some decision.flowId
  | refused flowId => some flowId
  | predicted _ | queued .. | claimed .. => none

/-- The ids that events take from the counter, in order. -/
def generatedIds {φ : Type} (seq : UInt64) : List (QueueEvent φ) → List Str
  | [] => []
  | event :: rest =>
    match event.subject with
    | some flowId => decisionName flowId seq :: generatedIds (seq + 1) rest
    | none => generatedIds seq rest

theorem generatedIds_append {φ : Type} (seq : UInt64) (events events' : List (QueueEvent φ)) :
    generatedIds seq (events ++ events') = generatedIds seq events ++
      generatedIds (seq + UInt64.ofNat (generatedIds seq events).length) events' := by
  induction events generalizing seq with
  | nil => simp [generatedIds]
  | cons event rest ih =>
    simp only [List.cons_append, generatedIds]
    cases event.subject with
    | none => exact ih seq
    | some flowId =>
      simp only [ih (seq + 1), List.cons_append, List.length_cons, UInt64.ofNat_add]
      rw [UInt64.add_assoc, UInt64.add_comm 1]
      rfl

theorem exists_of_mem_generatedIds {φ : Type} {seq : UInt64} {events : List (QueueEvent φ)}
    {id : Str} (h : id ∈ generatedIds seq events) :
    ∃ flowId, ∃ k < (generatedIds seq events).length,
      id = decisionName flowId (seq + UInt64.ofNat k) := by
  induction events generalizing seq with
  | nil => cases h
  | cons event rest ih =>
    unfold generatedIds at h ⊢
    cases hsubject : event.subject with
    | none =>
      rw [hsubject] at h
      exact ih h
    | some flowId =>
      rw [hsubject] at h
      rcases List.mem_cons.mp h with rfl | h
      · exact ⟨flowId, 0, Nat.succ_pos _, by simp⟩
      · obtain ⟨flowId', k, hk, hid⟩ := ih h
        refine ⟨flowId', k + 1, Nat.succ_lt_succ hk, ?_⟩
        rw [hid, UInt64.ofNat_add, UInt64.add_assoc, UInt64.add_comm 1]
        rfl

/-- Of `2 ^ 64` ids in a row no two are the same. -/
theorem nodup_generatedIds {φ : Type} {seq : UInt64} {events : List (QueueEvent φ)}
    (h : (generatedIds seq events).length ≤ 2 ^ 64) : (generatedIds seq events).Nodup := by
  induction events generalizing seq with
  | nil => exact List.nodup_nil
  | cons event rest ih =>
    unfold generatedIds at h ⊢
    cases hsubject : event.subject with
    | none =>
      rw [hsubject] at h
      exact ih h
    | some flowId =>
      rw [hsubject, List.length_cons] at h
      refine List.nodup_cons.mpr ⟨fun hmem => ?_, ih (by omega)⟩
      obtain ⟨flowId', k, hk, hid⟩ := exists_of_mem_generatedIds hmem
      have hseq := congrArg UInt64.toNat (decisionName_inj hid).2
      simp only [UInt64.toNat_add, UInt64.toNat_ofNat'] at hseq
      have hbound := seq.toNat_lt
      simp only [UInt64.toNat_one] at hseq
      omega

namespace ReviewQueue

variable {φ : Type} [FloatArith φ]

/-! ## What is recorded -/

/-- The decision has a node in the audit graph. -/
def Holds (q : ReviewQueue φ) (decision : AuditDecision) : Prop :=
  q.engine.store.instances.lookup decision.decisionId = some (decisionInstance decision)

/-- The decisions that are read of a flow are those in the audit graph. -/
theorem Sound.mem_decisionsForFlow {q : ReviewQueue φ} (h : q.Sound) {decision : AuditDecision} :
    decision ∈ decisionsForFlow q.engine decision.flowId ↔ q.Holds decision := by
  have hrecorded := h.trail decision.flowId
  constructor
  · intro hmem
    cases hnamed : q.named decision.flowId with
    | none =>
      rw [hnamed] at hrecorded
      rw [hrecorded.decisionsForFlow_none] at hmem
      cases hmem
    | some id =>
      rw [hnamed] at hrecorded
      obtain ⟨decision', hone, rfl, -, hnode⟩ := hrecorded.decisionsForFlow_some
      rw [hone, List.mem_singleton] at hmem
      rw [hmem]
      exact hnode
  · intro hholds
    rw [h.decided _ decision hholds] at hrecorded
    obtain ⟨decision', hone, -, -, hnode⟩ := hrecorded.decisionsForFlow_some
    rw [hone, decisionInstance_injective (Option.some.inj (hholds.symm.trans hnode))]
    exact .head _

omit [FloatArith φ] in
/-- A node that is added under a new id. -/
theorem lookup_insert_decision {q : ReviewQueue φ} {engine : OntologyEngine}
    {decision decision' : AuditDecision}
    (hinstances : engine.store.instances =
      q.engine.store.instances.insert decision.decisionId (decisionInstance decision))
    (h : engine.store.instances.lookup decision'.decisionId = some (decisionInstance decision')) :
    decision' = decision ∨ q.Holds decision' := by
  rw [hinstances] at h
  by_cases hid : decision'.decisionId = decision.decisionId
  · rw [hid, AList.lookup_insert] at h
    exact .inl (decisionInstance_injective (Option.some.inj h)).symm
  · rw [AList.lookup_insert_ne hid] at h
    exact .inr h

/-- A decision that is new in the audit graph is the one that the event records. -/
theorem Logs.holds {q q' : ReviewQueue φ} {event : QueueEvent φ} (hq : q.Sound)
    (h : Logs q event q') {decision : AuditDecision} (hholds : q'.Holds decision) :
    q.Holds decision ∨ event = .resolved decision ∨
      ∃ prediction, event = .autoResolved prediction decision := by
  cases h with
  | predicted _ hnode =>
    obtain ⟨-, hinstances⟩ := hq.graph.recordPrediction hnode
    unfold Holds at hholds
    simp only [hinstances] at hholds
    exact .inl (lookup_insert_prediction hholds)
  | queued => exact .inl hholds
  | autoResolved _ _ _ _ _ _ _ hrecord =>
    rcases lookup_insert_decision (recordDecisionNode_spec hrecord).2.1 hholds with rfl | hold
    · exact .inr (.inr ⟨_, rfl⟩)
    · exact .inl hold
  | claimed => exact .inl hholds
  | resolved _ _ _ _ hrecord =>
    rcases lookup_insert_decision (recordDecisionNode_spec hrecord).2.1 hholds with rfl | hold
    · exact .inr (.inl rfl)
    · exact .inl hold
  | refused => exact .inl hholds

/-- A decision that is new after several events, one of them has recorded. -/
theorem holds_of_run {q q' : ReviewQueue φ} {ok : ReviewQueue φ → QueueEvent φ → Prop}
    {events : List (QueueEvent φ)} (hq : q.Sound) (h : Run Logs ok q events q')
    {decision : AuditDecision} (hholds : q'.Holds decision) :
    q.Holds decision ∨ ∃ t u event, ok t event ∧ Logs t event u ∧
      (event = .resolved decision ∨ ∃ prediction, event = .autoResolved prediction decision) := by
  induction h with
  | nil => exact .inl hholds
  | snoc hrun hok hlogs ih =>
    rcases hlogs.holds (hq.of_run hrun) hholds with hold | hevent
    · exact ih hold
    · exact .inr ⟨_, _, _, hok, hlogs, hevent⟩


/-! ## What stays -/

/-- Every node of the audit graph is the prediction of an item, or a decision. -/
def Settled (q : ReviewQueue φ) : Prop :=
  ∀ id ∈ q.engine.store.instances,
    id ∈ q.items ∨ ∃ decision, q.Holds decision ∧ decision.decisionId = id

/-- What the audit graph holds stays there. -/
theorem Logs.lookup {q q' : ReviewQueue φ} {event : QueueEvent φ} (hq : q.Sound)
    (h : Logs q event q') {id : Str} {inst : ObjectInstance}
    (hnode : q.engine.store.instances.lookup id = some inst) :
    q'.engine.store.instances.lookup id = some inst := by
  have hrecord : ∀ {decision engine}, recordDecisionNode decision q.engine = .ok () engine →
      engine.store.instances.lookup id = some inst := by
    intro decision engine hrun
    obtain ⟨hnew, hinstances, -⟩ := recordDecisionNode_spec hrun
    rw [hinstances]
    exact Table.lookup_insert_of_not_mem hnew hnode
  cases h with
  | predicted _ hrun =>
    obtain ⟨hnew, -⟩ := recordPrediction_spec hrun
    obtain ⟨-, hinstances⟩ := hq.graph.recordPrediction hrun
    simp only [hinstances]
    exact Table.lookup_insert_of_not_mem hnew hnode
  | autoResolved _ _ _ _ _ _ _ hrun => exact hrecord hrun
  | resolved _ _ _ _ hrun => exact hrecord hrun
  | _ => exact hnode

theorem Holds.of_run {q q' : ReviewQueue φ} {ok : ReviewQueue φ → QueueEvent φ → Prop}
    {events : List (QueueEvent φ)} {decision : AuditDecision} (h : q.Holds decision)
    (hrun : Run Logs ok q events q') (hq : q.Sound) : q'.Holds decision := by
  induction hrun with
  | nil => exact h
  | snoc hrun _ hlogs ih => exact hlogs.lookup (hq.of_run hrun) ih

theorem Holds.step {q q' : ReviewQueue φ} {a : ReviewAction φ} {decision : AuditDecision}
    (h : q.Holds decision) (hq : q.Sound) (hstep : Step q a q') : q'.Holds decision := by
  obtain ⟨events, hevents⟩ := hq.logged hstep
  exact h.of_run hevents hq

theorem Logs.mem_items {q q' : ReviewQueue φ} {event : QueueEvent φ} (h : Logs q event q')
    {flowId : Str} (hmem : flowId ∈ q.items) : flowId ∈ q'.items := by
  cases h with
  | predicted => exact hmem
  | refused => exact hmem
  | _ => exact (AList.mem_insert _).mpr (.inr hmem)

/-- An event that brings in no prediction leaves none without an item. -/
theorem Settled.logs {q q' : ReviewQueue φ} {event : QueueEvent φ} (hq : q.Sound)
    (h : q.Settled) (hlogs : Logs q event q')
    (hevent : ∀ prediction, event ≠ .predicted prediction) : q'.Settled := by
  have hold : ∀ id ∈ q.engine.store.instances,
      id ∈ q'.items ∨ ∃ decision, q'.Holds decision ∧ decision.decisionId = id := by
    intro id hid
    rcases h id hid with hmem | ⟨decision, hholds, hdecision⟩
    · exact .inl (hlogs.mem_items hmem)
    · exact .inr ⟨decision, hlogs.lookup hq hholds, hdecision⟩
  have hrecord : ∀ {decision engine}, recordDecisionNode decision q.engine = .ok () engine →
      ∀ id ∈ engine.store.instances, id ∈ q.engine.store.instances ∨
        engine.store.instances.lookup decision.decisionId = some (decisionInstance decision) ∧
          decision.decisionId = id := by
    intro decision engine hrun id hid
    obtain ⟨-, hinstances, -⟩ := recordDecisionNode_spec hrun
    rw [hinstances] at hid ⊢
    rcases (AList.mem_insert _).mp hid with rfl | hid
    · exact .inr ⟨AList.lookup_insert _, rfl⟩
    · exact .inl hid
  intro id hid
  cases hlogs with
  | predicted => exact absurd rfl (hevent _)
  | autoResolved _ _ _ _ _ _ _ hrun =>
    rcases hrecord hrun id hid with hid | ⟨hholds, hdecision⟩
    · exact hold id hid
    · exact .inr ⟨_, hholds, hdecision⟩
  | resolved _ _ _ _ hrun =>
    rcases hrecord hrun id hid with hid | ⟨hholds, hdecision⟩
    · exact hold id hid
    · exact .inr ⟨_, hholds, hdecision⟩
  | _ => exact hold id hid

/-- An item that is closed stays as it is. -/
theorem Logs.closed {q q' : ReviewQueue φ} {event : QueueEvent φ} (h : Logs q event q')
    {flowId : Str} {item : QueueItem φ} (hitem : q.items.lookup flowId = some item)
    (hclosed : item.state.isOpen = false) : q'.items.lookup flowId = some item := by
  have hmem : flowId ∈ q.items := Table.mem_iff_lookup.mpr ⟨item, hitem⟩
  have hother : ∀ {id : Str} {item' : QueueItem φ}, (id ∈ q.items → ∃ open',
      q.items.lookup id = some open' ∧ open'.state.isOpen = true) →
      (q.items.insert id item').lookup flowId = some item := by
    intro id item' hopen
    refine (AList.lookup_insert_ne ?_).trans hitem
    rintro rfl
    obtain ⟨open', hopen', hstate⟩ := hopen hmem
    cases hitem.symm.trans hopen'
    cases hclosed.symm.trans hstate
  cases h with
  | predicted => exact hitem
  | queued hnew => exact hother fun hin => absurd hin hnew
  | autoResolved hnew _ _ hflow => exact hother fun hin => absurd (hflow ▸ hin) hnew
  | claimed hitem' hpending => exact hother fun _ => ⟨_, hitem', by rw [hpending]; rfl⟩
  | resolved hitem' hopen => exact hother fun _ => ⟨_, hitem', hopen⟩
  | refused => exact hitem

/-- What holds at the start and is kept by each event of each operation holds after every run. -/
theorem Sound.invariant {I : ReviewQueue φ → Prop} {ok : ReviewQueue φ → ReviewAction φ → Prop}
    {q q' : ReviewQueue φ} {as : List (ReviewAction φ)} (h : q.Sound) (hI : I q)
    (hrun : Run Step ok q as q')
    (hlogs : ∀ s a t event u, ok s a → t.Sound → I t → a.Emits event → Logs t event u → I u) :
    q'.Sound ∧ I q' := by
  refine hrun.invariant (I := fun q => q.Sound ∧ I q) ⟨h, hI⟩ ?_
  rintro s a s' ⟨hs, hI⟩ hok hstep
  obtain ⟨events, hevents⟩ := hs.logged hstep
  refine hevents.invariant (I := fun q => q.Sound ∧ I q) ⟨hs, hI⟩ ?_
  rintro t event u ⟨ht, hI⟩ hemits hevent
  exact ⟨ht.logs hevent, hlogs s a t event u hok ht hI hemits hevent⟩

/-! ## The counter -/

theorem Logs.seq {q q' : ReviewQueue φ} {event : QueueEvent φ} (h : Logs q event q') :
    q'.decisionSeq =
      q.decisionSeq + UInt64.ofNat (generatedIds q.decisionSeq [event]).length := by
  cases h <;> simp [generatedIds, QueueEvent.subject]

theorem seq_of_run {q q' : ReviewQueue φ} {ok : ReviewQueue φ → QueueEvent φ → Prop}
    {events : List (QueueEvent φ)} (h : Run Logs ok q events q') :
    q'.decisionSeq = q.decisionSeq + UInt64.ofNat (generatedIds q.decisionSeq events).length := by
  induction h with
  | nil => simp [generatedIds]
  | snoc _ _ hlogs ih =>
    rw [hlogs.seq, generatedIds_append, List.length_append, UInt64.ofNat_add, ← ih,
      ← UInt64.add_assoc, ← ih]

/-- An id is given to a flow that has no decision. -/
theorem Logs.undecided {q q' : ReviewQueue φ} {event : QueueEvent φ} (h : Logs q event q')
    {flowId : Str} (hsubject : event.subject = some flowId) : q.named flowId = none := by
  cases h with
  | autoResolved hnew _ _ hflow =>
    cases hsubject
    rw [named, hflow, AList.lookup_eq_none.mpr hnew]
    rfl
  | resolved hitem hopen =>
    cases hsubject
    exact named_of_isOpen hitem hopen
  | refused hundecided =>
    cases hsubject
    exact hundecided
  | _ => cases hsubject

/-- The ids of the decisions in the audit graph were given by the counter. -/
def Numbered (q : ReviewQueue φ) : Prop :=
  ∀ decision, q.Holds decision → ∃ seq, decision.decisionId = decisionName decision.flowId seq

theorem Numbered.logs {q q' : ReviewQueue φ} {event : QueueEvent φ} (hq : q.Sound)
    (h : q.Numbered) (hlogs : Logs q event q') : q'.Numbered := by
  intro decision hholds
  rcases hlogs.holds hq hholds with hold | rfl | ⟨prediction, rfl⟩
  · exact h decision hold
  · cases hlogs with
    | resolved _ _ hid => exact ⟨_, hid⟩
  · cases hlogs with
    | autoResolved _ _ _ _ hid => exact ⟨_, hid⟩

/-- The id of a decision is not given again, whatever the counter does. -/
theorem Numbered.not_mem_generatedIds {q q' : ReviewQueue φ} (hq : q.Sound) (h : q.Numbered)
    {ok : ReviewQueue φ → QueueEvent φ → Prop} {events : List (QueueEvent φ)}
    (hrun : Run Logs ok q events q') {decision : AuditDecision} (hholds : q.Holds decision) :
    decision.decisionId ∉ generatedIds q.decisionSeq events := by
  induction hrun with
  | nil => exact List.not_mem_nil
  | @snoc events event t u hrun _ hlogs ih =>
    rw [generatedIds_append, List.mem_append, not_or, ← seq_of_run hrun]
    refine ⟨ih, fun hmem => ?_⟩
    have ht := hq.of_run hrun
    obtain ⟨seq, hname⟩ := h decision hholds
    have hdecided := ht.decided _ decision (hholds.of_run hrun hq)
    cases hsubject : event.subject with
    | none =>
      simp only [generatedIds, hsubject] at hmem
      cases hmem
    | some flowId =>
      simp only [generatedIds, hsubject, List.mem_singleton] at hmem
      obtain ⟨hflow, -⟩ := decisionName_inj (hname.symm.trans hmem)
      rw [hflow, hlogs.undecided hsubject] at hdecided
      cases hdecided

end ReviewQueue

end ActiveDefense.Siem
