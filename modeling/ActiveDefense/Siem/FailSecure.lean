import ActiveDefense.Siem.SweepAlerts
import Mathlib.Tactic.Linarith
import Mathlib.Tactic.NormNum

/-!
# The floor of the fail-secure policy

A sweep under the fail-secure policy contains an attack whose confidence, rounded to thousandths, is
not below the floor. So it also contains one that is below the floor by half a thousandth or less.
Arithmetic is exact.
-/

namespace ActiveDefense.Siem

/-! ## Thousandths -/

section
variable {K : Type} [Field K] [LinearOrder K] [IsStrictOrderedRing K] [FloorRing K]

/-- A number in range passes through the integer types as it is. -/
theorem toNat_saturateI64 {n : ℤ} (hlo : 0 ≤ n) (hhi : n ≤ 1000) :
    (saturateI64 n).toUInt64.toUInt32.toNat = n.toNat := by
  have hclamp : max (-2 ^ 63) (min n (2 ^ 63 - 1)) = n := by omega
  have hbits : (Int64.ofInt n).toUInt64.toNat = (n % 2 ^ 64).toNat := by
    show (Int64.ofInt n).toBitVec.toNat = _
    rw [Int64.toBitVec_ofInt, BitVec.toNat_ofInt]
    rfl
  rw [saturateI64, hclamp, UInt64.toNat_toUInt32, hbits]
  omega

/-- The thousandths of a confidence, rounded. -/
theorem toNat_toMillis {c : K} (hlo : 0 ≤ c) (hhi : c ≤ 1) :
    (toMillis c).toUInt64.toUInt32.toNat = ⌊1000 * c + 1 / 2⌋.toNat := by
  have hrange : clamp c 0.0 1.0 = c := by
    have hzero : ¬ c < 0.0 := by
      norm_num
      exact hlo
    have hone : ¬ 1.0 < c := by
      norm_num
      exact hhi
    rw [clamp, if_neg hzero, if_neg hone]
  have hscale : c * 1000.0 = 1000 * c := by
    norm_num
    exact mul_comm c 1000
  have hround : roundHalfAway (1000 * c) = ⌊1000 * c + 1 / 2⌋ := if_pos (by linarith)
  have hfloor : ⌊1000 * c + 1 / 2⌋ ≤ 1000 := by
    rw [← Int.lt_add_one_iff, Int.floor_lt]
    push_cast
    linarith
  have hnonneg : 0 ≤ ⌊1000 * c + 1 / 2⌋ := Int.floor_nonneg.mpr (by linarith)
  rw [toMillis, hrange]
  show (saturateI64 (roundHalfAway (c * 1000.0))).toUInt64.toUInt32.toNat = _
  rw [hscale, hround, toNat_saturateI64 hnonneg hfloor]

/-- The floor is met half a thousandth early. -/
theorem le_toMillis_iff {c : K} (hlo : 0 ≤ c) (hhi : c ≤ 1) (t : UInt32) :
    t ≤ (toMillis c).toUInt64.toUInt32 ↔ (t.toNat : K) - 1 / 2 ≤ 1000 * c := by
  have hnonneg : 0 ≤ ⌊1000 * c + 1 / 2⌋ := Int.floor_nonneg.mpr (by linarith)
  rw [UInt32.le_iff_toNat_le, toNat_toMillis hlo hhi, ← Nat.cast_le (α := ℤ),
    Int.toNat_of_nonneg hnonneg, Int.le_floor]
  push_cast
  exact sub_le_iff_le_add.symm

end

/-! ## What a sweep rules -/

namespace ReviewQueue

variable {φ : Type} [FloatArith φ]

/-- The ruling of a sweep goes by the configuration. -/
theorem slaVerdict_congr {q q' : ReviewQueue φ}
    (hconfig : q'.triggerCfg = q.triggerCfg ∧ q'.slaPolicy = q.slaPolicy) (slaSeconds : Timestamp)
    (prediction : FlowPrediction φ) :
    q'.slaVerdict slaSeconds prediction = q.slaVerdict slaSeconds prediction := by
  unfold slaVerdict
  rw [hconfig.1, hconfig.2]

/-- Where a sweep has come to: what it has decided, it has ruled on the predictions that were
there. -/
structure SweptSince (q t : ReviewQueue φ) : Prop where
  config : t.triggerCfg = q.triggerCfg ∧ t.slaPolicy = q.slaPolicy
  items : ∀ flowId item, t.items.lookup flowId = some item →
    ∃ old, q.items.lookup flowId = some old ∧ old.prediction = item.prediction
  ruled : ∀ decision, t.Holds decision → q.Holds decision ∨
    decision.reviewer = .systemSlaTimeout ∧ ∃ old slaSeconds,
      q.items.lookup decision.flowId = some old ∧
      (decision.verdict, decision.rationale) = q.slaVerdict slaSeconds old.prediction

theorem SweptSince.refl (q : ReviewQueue φ) : q.SweptSince q where
  config := ⟨rfl, rfl⟩
  items _ item hitem := ⟨item, hitem, rfl⟩
  ruled _ hholds := .inl hholds

theorem SweptSince.logs {q t u : ReviewQueue φ} {event : QueueEvent φ} (h : q.SweptSince t)
    (ht : t.Sound) {now slaSeconds : Timestamp} {order : List (Str × Timestamp)}
    (hemits : (ReviewAction.sweepExpired now slaSeconds order).Emits event)
    (hlogs : Logs t event u) : q.SweptSince u := by
  have hholds : ∀ decision, u.Holds decision → t.Holds decision ∨ event = .resolved decision ∨
      ∃ prediction, event = .autoResolved prediction decision := fun _ => hlogs.holds ht
  cases hlogs with
  | @resolved item decision engine hitem hopen hid hauthorized hrecord =>
    refine ⟨h.config, fun flowId item' hitem' => ?_, fun decision' hholds' => ?_⟩
    · by_cases hflow : flowId = decision.flowId
      · subst hflow
        cases (AList.lookup_insert _).symm.trans hitem'
        exact h.items _ item hitem
      · exact h.items _ _ ((AList.lookup_insert_ne hflow).symm.trans hitem')
    · rcases hholds decision' hholds' with hold | hevent | ⟨_, hevent⟩
      · exact h.ruled decision' hold
      · cases hevent
        obtain ⟨old, hold, hprediction⟩ := h.items _ item hitem
        unfold Authorized at hauthorized
        rw [hemits.1] at hauthorized
        obtain ⟨slaSeconds', hruling⟩ := hauthorized
        rw [slaVerdict_congr h.config, ← hprediction] at hruling
        exact .inr ⟨hemits.1, old, slaSeconds', hold, hruling⟩
      · cases hevent
  | refused => exact ⟨h.config, h.items, h.ruled⟩
  | _ => exact hemits.elim

/-- What a sweep leaves. -/
theorem Sound.sweptSince {q q' : ReviewQueue φ} (h : q.Sound) {now slaSeconds : Timestamp}
    {order : List (Str × Timestamp)} (hstep : Step q (.sweepExpired now slaSeconds order) q') :
    q.SweptSince q' := by
  obtain ⟨events, hevents⟩ := h.logged hstep
  refine (hevents.invariant (I := fun t => t.Sound ∧ q.SweptSince t) ⟨h, .refl q⟩ ?_).2
  rintro t event u ⟨ht, hswept⟩ hemits hlogs
  exact ⟨ht.logs hlogs, hswept.logs ht hemits hlogs⟩

/-- The decision of a sweep on an item that it closes. -/
theorem Sound.exists_ruling {q q' : ReviewQueue φ} (h : q.Sound) {now slaSeconds : Timestamp}
    {order : List (Str × Timestamp)} (hstep : Step q (.sweepExpired now slaSeconds order) q')
    {flowId id : Str} (hcloses : q.Closes q' flowId id) {item : QueueItem φ}
    (hitem : q.items.lookup flowId = some item) :
    ∃ decision slaSeconds, decisionsForFlow q'.engine flowId = [decision] ∧
      decision.decisionId = id ∧ decision.reviewer = .systemSlaTimeout ∧
      (decision.verdict, decision.rationale) = q.slaVerdict slaSeconds item.prediction := by
  obtain ⟨⟨waiting, hwaiting, hopen⟩, closed, hclosed, hstate⟩ := hcloses
  cases hitem.symm.trans hwaiting
  have hnamed : q'.named flowId = some id := by
    rw [named, hclosed]
    simp [hstate, ReviewState.decisionId]
  have hrecorded := (h.step hstep).trail flowId
  rw [hnamed] at hrecorded
  obtain ⟨decision, hone, hid, hflow, hnode⟩ := hrecorded.decisionsForFlow_some
  subst hid hflow
  have hnew : ¬ q.Holds decision := fun hholds => by
    have hdecided := h.decided _ decision hholds
    rw [named_of_isOpen hitem hopen] at hdecided
    cases hdecided
  obtain ⟨hreviewer, old, slaSeconds', hold, hruling⟩ :=
    ((h.sweptSince hstep).ruled decision hnode).resolve_left hnew
  cases hitem.symm.trans hold
  exact ⟨decision, slaSeconds', hone, rfl, hreviewer, hruling⟩

/-- The configuration is that of the start. -/
theorem config_of_reachable {triggerCfg : TriggerConfig φ} {slaPolicy : SlaPolicy}
    {start q : ReviewQueue φ} (hnew : new triggerCfg slaPolicy = .ok start)
    (h : Reachable Step start q) : q.triggerCfg = triggerCfg ∧ q.slaPolicy = slaPolicy := by
  rw [new_eq] at hnew
  cases hnew
  obtain ⟨as, hrun⟩ := h
  refine ((sound_initial triggerCfg slaPolicy).invariant
    (I := fun q => q.triggerCfg = triggerCfg ∧ q.slaPolicy = slaPolicy) ⟨rfl, rfl⟩ hrun ?_).2
  rintro s a t event u - ht ⟨htrigger, hpolicy⟩ - hlogs
  exact ⟨hlogs.config.1.trans htrigger, hlogs.config.2.trans hpolicy⟩

/-- The ruling on an attack, under the fail-secure policy. -/
theorem slaVerdict_failSecure {q : ReviewQueue φ} {t : UInt32}
    (hpolicy : q.slaPolicy = .failSecure t)
    {prediction : FlowPrediction φ} (hlabel : prediction.predictedLabel ≠ q.triggerCfg.benignLabel)
    (slaSeconds : Timestamp) :
    (q.slaVerdict slaSeconds prediction).1 = .executeContainment ↔
      t ≤ (toMillis prediction.confidence).toUInt64.toUInt32 := by
  unfold slaVerdict
  rw [hpolicy]
  simp only
  split
  · next hcontains => exact iff_of_true rfl hcontains.2
  · next hdismisses => exact iff_of_false nofun fun hmet => hdismisses ⟨hlabel, hmet⟩

section
variable {K : Type} [Field K] [LinearOrder K] [IsStrictOrderedRing K] [FloorRing K]

theorem failSecure_rules {triggerCfg : TriggerConfig K} {t : UInt32} {start q q' : ReviewQueue K}
    (hnew : new triggerCfg (.failSecure t) = .ok start) (h : Reachable Step start q)
    {now slaSeconds : Timestamp} {order : List (Str × Timestamp)}
    (hstep : Step q (.sweepExpired now slaSeconds order) q') {flowId id : Str}
    (hcloses : q.Closes q' flowId id) {item : QueueItem K}
    (hitem : q.items.lookup flowId = some item)
    (hlabel : item.prediction.predictedLabel ≠ triggerCfg.benignLabel)
    (hlo : 0 ≤ item.prediction.confidence) (hhi : item.prediction.confidence ≤ 1) :
    ∃ decision, decisionsForFlow q'.engine flowId = [decision] ∧ decision.decisionId = id ∧
      decision.reviewer = .systemSlaTimeout ∧
      (decision.verdict = .executeContainment ↔
        (t.toNat : K) - 1 / 2 ≤ 1000 * item.prediction.confidence) := by
  obtain ⟨decision, slaSeconds', hone, hid, hreviewer, hruling⟩ :=
    (sound_of_reachable hnew h).exists_ruling hstep hcloses hitem
  obtain ⟨htrigger, hpolicy⟩ := config_of_reachable hnew h
  refine ⟨decision, hone, hid, hreviewer, ?_⟩
  rw [← htrigger] at hlabel
  rw [← le_toMillis_iff hlo hhi, ← slaVerdict_failSecure hpolicy hlabel slaSeconds', ← hruling]

/-- In every state that is reached, a sweep under the fail-secure policy decides to contain an
attack if and only if its confidence is not below the floor; except where the confidence is below
the floor by half a thousandth or less. -/
theorem failSecure_contains_iff {triggerCfg : TriggerConfig K} {t : UInt32}
    {start q q' : ReviewQueue K} (hnew : new triggerCfg (.failSecure t) = .ok start)
    (h : Reachable Step start q) {now slaSeconds : Timestamp} {order : List (Str × Timestamp)}
    (hstep : Step q (.sweepExpired now slaSeconds order) q') {flowId id : Str}
    (hcloses : q.Closes q' flowId id) {item : QueueItem K}
    (hitem : q.items.lookup flowId = some item)
    (hlabel : item.prediction.predictedLabel ≠ triggerCfg.benignLabel)
    (hlo : 0 ≤ item.prediction.confidence) (hhi : item.prediction.confidence ≤ 1) :
    ∃ decision, decisionsForFlow q'.engine flowId = [decision] ∧ decision.decisionId = id ∧
      decision.reviewer = .systemSlaTimeout ∧
      ((decision.verdict = .executeContainment ↔
          (t.toNat : K) / 1000 ≤ item.prediction.confidence) ↔
        ¬ ((t.toNat : K) - 1 / 2 ≤ 1000 * item.prediction.confidence ∧
          1000 * item.prediction.confidence < t.toNat)) := by
  obtain ⟨decision, hone, hid, hreviewer, hverdict⟩ :=
    failSecure_rules hnew h hstep hcloses hitem hlabel hlo hhi
  refine ⟨decision, hone, hid, hreviewer, ?_⟩
  have hfloor : (t.toNat : K) / 1000 ≤ item.prediction.confidence ↔
      (t.toNat : K) ≤ 1000 * item.prediction.confidence := by
    rw [div_le_iff₀ (by norm_num), mul_comm]
  rw [hverdict, hfloor]
  constructor
  · rintro hiff ⟨hearly, hbelow⟩
    exact absurd (hiff.mp hearly) (not_le.mpr hbelow)
  · intro hnever
    refine ⟨fun hearly => ?_, fun hmet => by linarith⟩
    exact not_lt.mp fun hbelow => hnever ⟨hearly, hbelow⟩

end

/-! ## A floor of nine tenths -/

/-- An attack that waits for a human. -/
def doubtful (confidence : ℚ) : FlowPrediction ℚ :=
  ⟨"flow-1".toList, "DenialOfService".toList, confidence, none, none, false, 1700000000⟩

/-- The queue in which it waits. -/
def overdue (confidence : ℚ) : ReviewQueue ℚ :=
  finalState ((ReviewAction.ingest (doubtful confidence) 1700000001).exec
    (initial .default (.failSecure 900)))

theorem reachable_overdue (confidence : ℚ) :
    Reachable Step (initial .default (.failSecure 900)) (overdue confidence) := by
  have hstep : Step (initial .default (.failSecure 900)) (.ingest (doubtful confidence) 1700000001)
      (overdue confidence) := ⟨trivial, rfl⟩
  exact Reachable.refl.tail hstep

/-- The sweep that finds it expired. -/
def sweepOverdue : ReviewAction ℚ :=
  .sweepExpired 1700004000 3600 [("flow-1".toList, 1700004001)]

/-- The sweep closes the item. -/
theorem closes_overdue (confidence : ℚ)
    (h : Option.map (fun item => (item.prediction, item.state))
          ((overdue confidence).items.lookup "flow-1".toList) =
        some (doubtful confidence, .pending .lowConfidenceAttack) ∧
      Option.map (·.state) ((finalState (sweepOverdue.exec (overdue confidence))).items.lookup
        "flow-1".toList) = some (.resolved "dec-flow-1-0".toList)) :
    (overdue confidence).Closes (finalState (sweepOverdue.exec (overdue confidence)))
      "flow-1".toList "dec-flow-1-0".toList ∧
    ∃ item, (overdue confidence).items.lookup "flow-1".toList = some item ∧
      item.prediction = doubtful confidence := by
  obtain ⟨hwaiting, hclosed⟩ := h
  obtain ⟨item, hitem, hentry⟩ := Option.map_eq_some_iff.mp hwaiting
  obtain ⟨hprediction, hstate⟩ := Prod.mk.inj hentry
  obtain ⟨item', hitem', hstate'⟩ := Option.map_eq_some_iff.mp hclosed
  exact ⟨⟨⟨item, hitem, by rw [hstate]; rfl⟩, item', hitem', hstate'⟩, item, hitem, hprediction⟩

/-- An attack that is well below the floor is dismissed. -/
theorem failSecure_contains_iff_below :
    let q' := finalState (sweepOverdue.exec (overdue 0.85))
    Reachable Step (initial .default (.failSecure 900)) (overdue 0.85) ∧
    Step (overdue 0.85) sweepOverdue q' ∧
    (overdue 0.85).Closes q' "flow-1".toList "dec-flow-1-0".toList ∧
    ∃ decision, decisionsForFlow q'.engine "flow-1".toList = [decision] ∧
      (decision.verdict = .executeContainment ↔ (900 : ℚ) / 1000 ≤ 0.85) := by
  intro q'
  have hstep : Step (overdue 0.85) sweepOverdue q' := ⟨by decide +kernel, rfl⟩
  obtain ⟨hcloses, item, hitem, hprediction⟩ := closes_overdue 0.85 (by decide +kernel)
  have hcontains := failSecure_contains_iff (new_eq _ _) (reachable_overdue 0.85) hstep hcloses
    hitem
  rw [hprediction] at hcontains
  obtain ⟨decision, hone, -, -, hiff⟩ :=
    hcontains (by decide) (by decide +kernel) (by decide +kernel)
  exact ⟨reachable_overdue 0.85, hstep, hcloses, decision, hone, hiff.mpr (by decide +kernel)⟩

/-- An attack that is below the floor by less than half a thousandth is contained. -/
theorem not_failSecure_contains : ¬ ∀ (triggerCfg : TriggerConfig ℚ) (t : UInt32)
    (start q q' : ReviewQueue ℚ), new triggerCfg (.failSecure t) = .ok start →
    Reachable Step start q →
    ∀ (now slaSeconds : Timestamp) (order : List (Str × Timestamp)),
      Step q (.sweepExpired now slaSeconds order) q' →
      ∀ flowId id, q.Closes q' flowId id →
        ∀ item, q.items.lookup flowId = some item →
          item.prediction.predictedLabel ≠ triggerCfg.benignLabel →
          0 ≤ item.prediction.confidence → item.prediction.confidence ≤ 1 →
          ∀ decision ∈ decisionsForFlow q'.engine flowId,
            decision.verdict = .executeContainment ↔
              (t.toNat : ℚ) / 1000 ≤ item.prediction.confidence := by
  intro hclaim
  have hstep : Step (overdue 0.8996) sweepOverdue
      (finalState (sweepOverdue.exec (overdue 0.8996))) := ⟨by decide +kernel, rfl⟩
  obtain ⟨hcloses, item, hitem, hprediction⟩ := closes_overdue 0.8996 (by decide +kernel)
  have hrules := failSecure_rules (new_eq _ _) (reachable_overdue 0.8996) hstep hcloses hitem
  have hclaim := hclaim _ _ _ _ _ (new_eq _ _) (reachable_overdue 0.8996) _ _ _ hstep _ _ hcloses
    item hitem
  rw [hprediction] at hrules hclaim
  obtain ⟨decision, hone, -, -, hverdict⟩ :=
    hrules (by decide +kernel) (by decide +kernel) (by decide +kernel)
  have hiff := hclaim (by decide +kernel) (by decide +kernel) (by decide +kernel) decision
    (hone ▸ List.mem_singleton_self decision)
  exact absurd (hiff.mp (hverdict.mpr (by decide +kernel))) (by decide +kernel)

end ReviewQueue

end ActiveDefense.Siem
