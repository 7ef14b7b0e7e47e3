import ActiveDefense.Spectral.Estimate

/-!
# The virtual edges over runs

A tick makes the virtual edges anew, for pairs that no physical edge joins, or it keeps those that
are younger than ten ticks. It keeps them without a look at the physical edges, which may have been
replaced since (`run_sound_iff`).
-/

namespace ActiveDefense.Spectral.Regularizer

variable {n : Nat} {φ : Type} [FloatFns φ] {checks : OverflowChecks} {s t : Regularizer n φ}

/-! ## Pairs -/

theorem nodup_pairs (n : Nat) : (pairs n).Nodup := by
  refine List.nodup_flatMap.mpr ⟨fun u _ => ?_, ?_⟩
  · exact ((List.nodup_finRange n).filter _).map fun v w h => congrArg Prod.snd h
  · refine (List.nodup_finRange n).imp fun {u v} hne => ?_
    intro pair hu hv
    obtain ⟨_, -, rfl⟩ := List.mem_map.mp hu
    obtain ⟨_, -, heq⟩ := List.mem_map.mp hv
    exact hne (congrArg Prod.fst heq).symm

/-- The loops go through every pair once. -/
theorem pairwise_pairs (n : Nat) :
    (pairs n).Pairwise fun p q => s(p.1, p.2) ≠ s(q.1, q.2) := by
  refine List.Pairwise.imp_of_mem ?_ (nodup_pairs n)
  intro p q hp hq hne hsame
  have hplt := mem_pairs_iff.mp hp
  have hqlt := mem_pairs_iff.mp hq
  rcases Sym2.eq_iff.mp hsame with ⟨h1, h2⟩ | ⟨h1, h2⟩
  · exact hne (Prod.ext h1 h2)
  · rw [h1, h2] at hplt
    exact absurd hqlt (not_lt.mpr hplt.le)

/-- The virtual edges join pairs that the loops go through, in order. -/
def Ordered (s : Regularizer n φ) : Prop :=
  (s.virtualEdges.map fun ve => (ve.src, ve.dst)).Sublist (pairs n)

theorem Ordered.refresh {currentTick injected : Nat} (h : s.Ordered)
    (hrefresh : s.refresh checks currentTick = .ok (injected, t)) : t.Ordered := by
  rcases refresh_cases hrefresh with ⟨-, edges, hedges, rfl⟩ | ⟨-, rfl⟩
  · exact (inject_spec hedges).1
  · exact (List.filter_sublist.map _).trans h

theorem Ordered.step {a : RegularizerAction n φ} (h : s.Ordered) (hstep : Step checks s a t) :
    t.Ordered := by
  cases a with
  | registerNode id metadata =>
    cases hstep
    exact h
  | updatePhysicalEdges edges =>
    cases hstep
    exact h
  | configure epsilon alpha similarityThreshold =>
    cases hstep
    exact h
  | tick currentTick =>
    obtain ⟨report, htick⟩ := step_tick_iff.mp hstep
    obtain ⟨_, r, hrefresh, -, -, _, rfl⟩ := tick_cases htick
    have hordered := h.refresh hrefresh
    exact hordered

theorem ordered_of_reachable {ε α : φ} (h : Reachable (Step checks) (new n ε α) s) : s.Ordered :=
  h.invariant (List.nil_sublist _) fun _ _ _ hordered hstep => hordered.step hstep

/-! ## After a tick -/

/-- What holds of the virtual edges after a tick: none joins a physical pair, no pair has two, and
none is older than ten ticks. -/
structure Sound (s : Regularizer n φ) (currentTick : Nat) : Prop where
  apart : ∀ ve ∈ s.virtualEdges, s.alreadyPhysical ve.src ve.dst = false
  once : s.virtualEdges.Pairwise fun ve we => s(ve.src, ve.dst) ≠ s(we.src, we.dst)
  recent : ∀ ve ∈ s.virtualEdges, currentTick ≤ ve.injectedAt + 10

omit [FloatFns φ] in
theorem Ordered.once (h : s.Ordered) :
    s.virtualEdges.Pairwise fun ve we => s(ve.src, ve.dst) ≠ s(we.src, we.dst) := by
  have hpairs := (pairwise_pairs n).sublist h
  rwa [List.pairwise_map] at hpairs

/-- A tick makes the virtual edges anew, or none that it keeps joins a physical pair. -/
def Clear (s : Regularizer n φ) (currentTick : Nat) : Prop :=
  s.lambda2Raw < 0.05 ∨ ∀ ve ∈ s.virtualEdges, currentTick < ve.injectedAt + 10 →
    s.alreadyPhysical ve.src ve.dst = false

theorem sound_iff_clear {currentTick : Nat} (h : s.Ordered)
    (hstep : Step checks s (.tick currentTick) t) : t.Sound currentTick ↔ s.Clear currentTick := by
  have honce := (h.step hstep).once
  obtain ⟨report, htick⟩ := step_tick_iff.mp hstep
  obtain ⟨_, r, hrefresh, -, -, _, rfl⟩ := tick_cases htick
  rcases refresh_cases hrefresh with ⟨hraw, edges, hedges, rfl⟩ | ⟨hraw, rfl⟩
  · refine iff_of_true ⟨fun ve hve => ?_, honce, fun ve hve => ?_⟩ (.inl hraw)
    · exact ((inject_spec hedges).2 ve hve).2.1
    · have hat := ((inject_spec hedges).2 ve hve).1
      omega
  · constructor
    · intro hsound
      refine .inr fun ve hve hyoung => hsound.apart ve (List.mem_filter.mpr ⟨hve, ?_⟩)
      rw [decide_eq_true_eq, saturatingSub]
      omega
    · rintro (hlt | hclear)
      · exact absurd hlt hraw
      · refine ⟨fun ve hve => ?_, honce, fun ve hve => ?_⟩
        · obtain ⟨hmem, hyoung⟩ := List.mem_filter.mp hve
          rw [decide_eq_true_eq, saturatingSub] at hyoung
          exact hclear ve hmem (by omega)
        · obtain ⟨-, hyoung⟩ := List.mem_filter.mp hve
          rw [decide_eq_true_eq, saturatingSub] at hyoung
          omega

/-- The action is no tick, or one that leaves the virtual edges sound. -/
def LeavesSound (checks : OverflowChecks) (s : Regularizer n φ) : RegularizerAction n φ → Prop
  | .tick currentTick => ∀ t, Step checks s (.tick currentTick) t → t.Sound currentTick
  | _ => True

/-- The action is no tick, or one in a state that is clear for it. -/
def MeetsClear (s : Regularizer n φ) : RegularizerAction n φ → Prop
  | .tick currentTick => s.Clear currentTick
  | _ => True

/-- The runs all of whose ticks leave the virtual edges sound are those all of whose ticks make the
edges anew or keep none that joins a physical pair. -/
theorem run_sound_iff (checks : OverflowChecks) (ε α : φ) (as : List (RegularizerAction n φ))
    (s : Regularizer n φ) :
    Run (Step checks) (LeavesSound checks) (new n ε α) as s ↔
      Run (Step checks) MeetsClear (new n ε α) as s := by
  refine Run.congr fun t a u hreach hstep => ?_
  have hordered := ordered_of_reachable hreach
  cases a with
  | registerNode | updatePhysicalEdges | configure => exact Iff.rfl
  | tick currentTick =>
    constructor
    · intro h
      exact (sound_iff_clear hordered hstep).mp (h u hstep)
    · intro h v hv
      exact (sound_iff_clear hordered hv).mpr h

/-- A node behind a gateway. -/
def gatewayNode : NodeMeta where
  subnetPrefix := 0
  prefixLen := 0
  gateway := some 1
  asPath := []
  infraParent := none

/-- Two nodes behind one gateway. -/
noncomputable def gatewayPair : Regularizer 2 ℝ :=
  ((new 2 0.01 0.5).registerNode 0 gatewayNode).registerNode 1 gatewayNode

theorem lambda2Raw_two {s : Regularizer 2 ℝ} {μ : ℝ}
    (hμ : s.epsilon - 2 * s.buildPhysicalOnly 0 1 = μ) (h0 : 0 ≤ μ) (h10 : 1e-10 < 10 - μ) :
    s.lambda2Raw = μ := by
  refine fiedlerPowerIter_of_eigenvector le_rfl s.balanced_physicalOnly ?_ h0 h10 60
  rw [operator_two s.balanced_physicalOnly, hμ]

/-- The first tick joins the nodes. -/
theorem refresh_gatewayPair : gatewayPair.refresh .on 0 = .ok (1, { gatewayPair with
    virtualEdges := [⟨0, 1, 0.5 * 0.9, .commonGateway 1, 0⟩] }) := by
  have hraw : gatewayPair.lambda2Raw = 0.01 := by
    refine lambda2Raw_two ?_ (by norm_num) (by norm_num)
    change (0.01 : ℝ) - 2 * 0.0 = 0.01
    norm_num
  have hlt : gatewayPair.lambda2Raw < 0.05 := by
    rw [hraw]
    norm_num
  have hsim : (0.4 : ℝ) ≤ 0.9 := by norm_num
  have hinject : gatewayPair.inject .on 0 (pairs 2) =
      .ok [⟨0, 1, 0.5 * 0.9, .commonGateway 1, 0⟩] := by
    change (if (0.4 : ℝ) ≤ 0.9 then _ else _) = _
    rw [if_pos hsim]
    rfl
  rw [refresh, if_pos hlt, hinject]
  rfl

/-- A run in which an edge comes between nodes that a virtual edge joins. -/
theorem exists_joined :
    ∃ (as : List (RegularizerAction 2 ℝ)) (s : Regularizer 2 ℝ),
      Run (Step .on) (fun _ _ => True) (new 2 0.01 0.5) as s ∧ s.epsilon = 0.01 ∧
        s.physicalEdges = [(0, 1, 1)] ∧
        s.virtualEdges = [⟨0, 1, 0.5 * 0.9, .commonGateway 1, 0⟩] := by
  obtain ⟨report, s, htick⟩ := tick_of_refresh refresh_gatewayPair
  have hfields : s.epsilon = 0.01 ∧
      s.virtualEdges = [⟨0, 1, 0.5 * 0.9, .commonGateway 1, 0⟩] := by
    obtain ⟨_, r, hrefresh, -, -, _, rfl⟩ := tick_cases htick
    cases refresh_gatewayPair.symm.trans hrefresh
    exact ⟨rfl, rfl⟩
  have hgateway : Run (Step .on) (fun _ _ => True) (new 2 0.01 0.5)
      [.registerNode 0 gatewayNode, .registerNode 1 gatewayNode] gatewayPair :=
    (Run.single trivial rfl).snoc trivial rfl
  have hinjected := hgateway.snoc trivial (step_tick_iff.mpr ⟨report, htick⟩)
  have hupdate : Step .on s (.updatePhysicalEdges [(0, 1, 1)])
      (s.updatePhysicalEdges [(0, 1, 1)]) := rfl
  exact ⟨_, _, hinjected.snoc trivial hupdate, hfields.1, rfl, hfields.2⟩

/-- The second tick keeps the virtual edge. -/
theorem not_run_sound :
    ¬ ∀ (n : Nat) (checks : OverflowChecks) (ε α : ℝ) (as : List (RegularizerAction n ℝ))
      (currentTick : Nat) (s : Regularizer n ℝ),
      Run (Step checks) (fun _ _ => True) (new n ε α) (as ++ [.tick currentTick]) s →
        s.Sound currentTick := by
  intro h
  obtain ⟨as, s, hrun, hepsilon, hphysical, hvirtual⟩ := exists_joined
  have hraw : s.lambda2Raw = 2.01 := by
    refine lambda2Raw_two ?_ (by norm_num) (by norm_num)
    have hentry : s.buildPhysicalOnly 0 1 = -1 := by
      rw [buildPhysicalOnly, hphysical]
      exact physicalRows_pair 1
    rw [hentry, hepsilon]
    norm_num
  have hlarge : ¬ s.lambda2Raw < 0.05 := by
    rw [hraw]
    norm_num
  have hrefresh : s.refresh .on 1 = .ok _ := if_neg hlarge
  obtain ⟨report, t, htick⟩ := tick_of_refresh hrefresh
  have hstep := step_tick_iff.mpr ⟨report, htick⟩
  have hsound := h 2 .on 0.01 0.5 as 1 t (hrun.snoc trivial hstep)
  have hordered := ordered_of_reachable ⟨as, hrun⟩
  rcases (sound_iff_clear hordered hstep).mp hsound with hlt | hclear
  · exact hlarge hlt
  · have happart := hclear ⟨0, 1, 0.5 * 0.9, .commonGateway 1, 0⟩ (by rw [hvirtual]; exact .head _)
      (by decide)
    rw [alreadyPhysical, hphysical] at happart
    cases happart

end ActiveDefense.Spectral.Regularizer
