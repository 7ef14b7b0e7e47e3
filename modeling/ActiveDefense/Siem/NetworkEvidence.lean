import ActiveDefense.Siem.Orchestrator
import ActiveDefense.Siem.Trigger
import Mathlib.Algebra.Order.BigOperators.Group.List
import Mathlib.Tactic.Linarith
import Mathlib.Tactic.NormNum

/-!
# Network evidence alone is left to a human

An alert is evidence with confidence `3 / 5` in the XDP lane, and with its score in the spectral
lane, where a score of `9 / 10` or more is critical. A record is decided on when an event comes that
is critical or of the other lane, so what was there before is of one lane and not critical, and the
mean with that event stays below the `9 / 10` that the review gate asks for. A critical event alone
makes a verdict that counts as out of distribution. Arithmetic is exact.
-/

namespace ActiveDefense.Siem

variable {K : Type} [Field K] [LinearOrder K] [FloorRing K]

/-! ## The evidence -/

/-- What the network lanes send. -/
structure NetworkEvidence (e : CorrelationEvent K) : Prop where
  lane : e.source = .xdp ∨ e.source = .spectral
  xdp : e.source = .xdp → e.confidence = 3 / 5
  spectral : e.source = .spectral → e.confidence ≤ 1
  uncritical : e.source = .spectral → e.severity ≠ .critical → e.confidence < 9 / 10

theorem networkEvidence_xdp (host : IpAddr) (flow : FlowKey) (reason : Str) (now : Instant) :
    NetworkEvidence (xdpEvent host flow reason false now : CorrelationEvent K) where
  lane := .inl rfl
  xdp _ := by
    show (0.6 : K) = 3 / 5
    norm_num
  spectral h := nomatch h
  uncritical h := nomatch h

variable [IsStrictOrderedRing K]

theorem networkEvidence_spectral (host : IpAddr) (flow : FlowKey) (anomalyScore fiedlerShift : K)
    (now : Instant) :
    NetworkEvidence (spectralEvent host flow anomalyScore fiedlerShift now) where
  lane := .inr rfl
  xdp h := nomatch h
  spectral _ := by
    show clamp anomalyScore (0.0 : K) 1.0 ≤ 1
    unfold clamp
    norm_num
    split_ifs <;> linarith
  uncritical _ hseverity := by
    have hlow : ¬ (0.9 : K) ≤ anomalyScore := fun h => hseverity (if_pos h)
    show clamp anomalyScore (0.0 : K) 1.0 < 9 / 10
    unfold clamp
    norm_num at hlow ⊢
    split_ifs <;> linarith

/-- After events of one lane that are not critical, an event of the other lane leaves the mean
below `9 / 10`. -/
theorem sum_confidence_lt {older : List (CorrelationEvent K)} {e : CorrelationEvent K}
    (hnet : ∀ x ∈ older ++ [e], NetworkEvidence x)
    (hlane : ∀ x ∈ older, ∀ y ∈ older, x.source = y.source)
    (hcrit : ∀ x ∈ older, x.severity ≠ .critical) (hother : ∃ x ∈ older, x.source ≠ e.source) :
    ((older ++ [e]).map (·.confidence)).sum < 9 / 10 * (older ++ [e]).length := by
  obtain ⟨x, hx, hne⟩ := hother
  have he := hnet e (by simp)
  have hlen : (1 : K) ≤ older.length := by exact_mod_cast List.length_pos_of_mem hx
  have hsum : ∀ b : K, (∀ y ∈ older, y.confidence ≤ b) →
      (older.map (·.confidence)).sum ≤ older.length * b := by
    intro b hb
    have hle := List.sum_le_card_nsmul (older.map (·.confidence)) b (by simpa using hb)
    simpa using hle
  rw [List.map_append, List.sum_append, List.length_append]
  simp only [List.map_cons, List.map_nil, List.sum_singleton, List.length_singleton, Nat.cast_add,
    Nat.cast_one]
  rcases (hnet x (List.mem_append_left _ hx)).lane with hxdp | hspectral
  · have hb := hsum (3 / 5) fun y hy =>
      ((hnet y (List.mem_append_left _ hy)).xdp ((hlane y hy x hx).trans hxdp)).le
    have hlast := he.spectral (he.lane.resolve_left fun h => hne (hxdp.trans h.symm))
    linarith
  · have hb := hsum (9 / 10) fun y hy =>
      ((hnet y (List.mem_append_left _ hy)).uncritical ((hlane y hy x hx).trans hspectral)
        (hcrit y hy)).le
    have hlast := he.xdp (he.lane.resolve_right fun h => hne (hspectral.trans h.symm))
    linarith

theorem meanConfidence_lt {r : HostRecord K}
    (h : (r.evidence.map (·.confidence)).sum < 9 / 10 * r.evidence.length) :
    r.meanConfidence < 0.9 := by
  have hpos : (0 : K) < r.evidence.length := by
    exact_mod_cast List.length_pos_iff.mpr r.evidence_ne
  have hfold : (r.evidence.map (·.confidence)).foldl (· + ·) (0.0 : K) =
      (r.evidence.map (·.confidence)).sum := by
    rw [List.sum_eq_foldl]
    norm_num
  rw [HostRecord.meanConfidence, if_neg (by simpa using r.evidence_ne), hfold]
  show _ / (r.evidence.length : K) < (0.9 : K)
  rw [div_lt_iff₀ hpos]
  norm_num
  exact h

/-! ## The verdicts -/

/-- The review gate will not let the verdict through. -/
def NeedsHuman (v : CorrelationVerdict K) : Prop :=
  v.reason = .multiLaneCorroboration → v.confidence < 0.9

namespace Correlation

/-- All evidence is of the network lanes, and so no verdict that waits to be handled is one that
the gate lets through. -/
structure NetworkOnly (s : Correlation K) : Prop where
  sound : s.Sound
  queue : ∀ e ∈ s.engine.rx.queue, NetworkEvidence e
  evidence : ∀ host record, s.engine.state.lookup host = some record →
    ∀ e ∈ record.evidence, NetworkEvidence e
  verdicts : ∀ v ∈ s.engine.outTx.queue, NeedsHuman v

omit [IsStrictOrderedRing K] in
theorem networkOnly_start {config : CorrelationConfig} {capacity : Nat} :
    (start config (.channel capacity) : Correlation K).NetworkOnly where
  sound := sound_start
  queue e he := absurd he List.not_mem_nil
  evidence host record hl := by
    rw [lookup_start] at hl
    cases hl
  verdicts v hv := absurd hv List.not_mem_nil

omit [IsStrictOrderedRing K] in
/-- What is in the record of an event that is handled is of the network lanes. -/
theorem NetworkOnly.pushed {s : Correlation K} (h : s.NetworkOnly) {event : CorrelationEvent K}
    (hevent : NetworkEvidence event) : ∀ e ∈ (s.engine.pushed event).evidence,
      NetworkEvidence e := by
  intro e he
  obtain rfl | ⟨record, hl, hkept⟩ := CorrelationEngine.mem_pushed.mp he
  · exact hevent
  · exact h.evidence _ _ hl e (record.kept_subset _ hkept)

/-- A verdict that two lanes corroborate is made when the second one joins the first. -/
theorem NetworkOnly.needsHuman {s : Correlation K} (h : s.NetworkOnly)
    {event : CorrelationEvent K} (hevent : NetworkEvidence event) {reason : CorrelationReason}
    (hdue : s.engine.due event = some reason) {now : Instant} :
    NeedsHuman ((s.engine.pushed event).verdict event.host reason now) := by
  rintro (rfl : reason = .multiLaneCorroboration)
  have hnet := h.pushed hevent
  unfold CorrelationEngine.due at hdue
  split at hdue
  · cases hdue
  next hopen =>
  obtain ⟨e₁, he₁, e₂, he₂, hne⟩ := HostRecord.reason_eq_multiLane.mp hdue
  refine meanConfidence_lt ?_
  unfold CorrelationEngine.pushed at hnet hopen he₁ he₂ ⊢
  cases hl : s.engine.state.lookup event.host with
  | none =>
    rw [hl] at he₁ he₂
    cases List.mem_singleton.mp he₁
    cases List.mem_singleton.mp he₂
    exact absurd rfl hne
  | some record =>
    rw [hl] at hnet hopen he₁ he₂
    have hundecided := h.sound.undecided _ _ hl (Bool.eq_false_iff.mpr hopen)
    obtain ⟨hlane, hcrit⟩ := HostRecord.reason_eq_none.mp hundecided
    have hkept := record.kept_subset s.engine.config.maxEvidencePerHost
    refine sum_confidence_lt hnet (fun x hx y hy => hlane x (hkept hx) y (hkept hy))
      (fun x hx => hcrit x (hkept hx)) ?_
    -- one of two events that differ is an older one that differs from the new one
    by_contra hall
    push Not at hall
    have hsource : ∀ x ∈ record.kept s.engine.config.maxEvidencePerHost ++ [event],
        x.source = event.source := by
      intro x hx
      rcases List.mem_append.mp hx with hx | hx
      · exact hall x hx
      · rw [List.mem_singleton.mp hx]
    exact hne ((hsource e₁ he₁).trans (hsource e₂ he₂).symm)

/-- Evidence of the network lanes brings no other. -/
theorem NetworkOnly.step {s t : Correlation K} {a : CorrelationAction K} (h : s.NetworkOnly)
    (hsent : ∀ e, a.sent = some e → NetworkEvidence e) (hst : Step s a t) : t.NetworkOnly := by
  have hsound := h.sound.step hst
  obtain ⟨-, ⟨event, now, evicted, -, hhandles⟩ | hquiet⟩ := hst.cases
  · have hevent : NetworkEvidence event := h.queue _ (hhandles.queue ▸ .head _)
    refine ⟨hsound, fun e he => ?_, fun host record hl e he => ?_, fun v hv => ?_⟩
    · exact h.queue e (hhandles.queue ▸ .tail _ he)
    · obtain ⟨-, ⟨rfl, rfl⟩ | ⟨-, hl⟩⟩ := (hhandles.lookup host record).mp hl
      · exact h.pushed hevent e he
      · exact h.evidence host record hl e he
    · rw [hhandles.outTx, List.mem_append] at hv
      rcases hv with hv | hv
      · exact h.verdicts v hv
      · obtain ⟨-, reason, hdue, rfl⟩ :=
          CorrelationEngine.taken_emission.mp (Option.mem_toList.mp hv)
        exact h.needsHuman hevent hdue
  · refine ⟨hsound, fun e he => ?_, fun host record hl => ?_, fun v hv => ?_⟩
    · exact (hquiet.queue e he).elim (h.queue e) (hsent e)
    · exact h.evidence host record (hquiet.lookup host record hl)
    · exact h.verdicts v (hquiet.outTx hv)

end Correlation

end ActiveDefense.Siem
