import ActiveDefense.Rust.FloatFns
import ActiveDefense.Spectral.Similarity

/-!
# The Laplacian regulariser

A `DynamicLaplacianRegularizer` of `n` nodes keeps a snapshot of weighted physical edges and a list
of virtual edges. A `tick` estimates the second eigenvalue of the physical Laplacian; where the
estimate is small it makes the virtual edges anew, from the similarity of the nodes that no physical
edge joins, and else it only drops those that are too old (`refresh`). Then it estimates the second
eigenvalue with the virtual edges. The nodes of the edges are within range: `l[ui][vi]` would panic
elsewhere. A vector is a function of its index.
-/

namespace ActiveDefense.Spectral

structure VirtualEdge (n : Nat) (φ : Type) where
  src : Fin n
  dst : Fin n
  weight : φ
  reason : VirtualEdgeReason φ
  injectedAt : Nat

structure RegularizationReport (φ : Type) where
  tick : Nat
  lambda2Raw : φ
  lambda2Regularized : φ
  virtualEdgesInjected : Nat
  regularizerActive : Bool
  propagationGradientValid : Bool

/-- A physical edge and its weight. -/
abbrev PhysicalEdge (n : Nat) (φ : Type) := Fin n × Fin n × φ

/-- `DynamicLaplacianRegularizer`. -/
structure Regularizer (n : Nat) (φ : Type) where
  physicalEdges : List (PhysicalEdge n φ)
  virtualEdges : List (VirtualEdge n φ)
  nodeMeta : Table Nat NodeMeta
  lambda2 : φ
  epsilon : φ
  alpha : φ
  similarityThreshold : φ
  fiedlerVec : Fin n → φ
  lambda2History : List φ

variable {n : Nat} {φ : Type} [FloatFns φ]

/-! ## The Laplacians -/

/-- A matrix, row by row. -/
abbrev Rows (n : Nat) (φ : Type) := Fin n → Fin n → φ

/-- `l[i][j] = f(l[i][j])`. -/
def setAt (l : Rows n φ) (i j : Fin n) (f : φ → φ) : Rows n φ :=
  Function.update l i (Function.update (l i) j (f (l i j)))

/-- The four lines that an edge adds to a Laplacian. -/
def addWeight (l : Rows n φ) (u v : Fin n) (w : φ) : Rows n φ :=
  let l := setAt l u u (· + w)
  let l := setAt l v v (· + w)
  let l := setAt l u v (· - w)
  setAt l v u (· - w)

/-- `for i in 0..n { l[i][i] += epsilon }`. -/
def addDiagonal (l : Rows n φ) (epsilon : φ) : Rows n φ := fun i j =>
  if i = j then l i j + epsilon else l i j

/-- The first loop of the builders. -/
def physicalRows (edges : List (PhysicalEdge n φ)) : Rows n φ :=
  edges.foldl (fun l edge => addWeight l edge.1 edge.2.1 edge.2.2) fun _ _ => 0.0

namespace Regularizer

/-- `build_regularized_laplacian_physical_only`. -/
def buildPhysicalOnly (self : Regularizer n φ) : Rows n φ :=
  addDiagonal (physicalRows self.physicalEdges) self.epsilon

/-- `build_regularized_laplacian`. -/
def buildRegularizedLaplacian (self : Regularizer n φ) : Rows n φ :=
  addDiagonal (self.virtualEdges.foldl (fun l ve => addWeight l ve.src ve.dst ve.weight)
    (physicalRows self.physicalEdges)) self.epsilon

end Regularizer

/-! ## Entries -/

omit [FloatFns φ] in
theorem setAt_apply (l : Rows n φ) (i j : Fin n) (f : φ → φ) (a b : Fin n) :
    setAt l i j f a b = if a = i ∧ b = j then f (l a b) else l a b := by
  rw [setAt, Function.update_apply]
  by_cases ha : a = i
  · rw [if_pos ha, Function.update_apply, ha]
    by_cases hb : b = j
    · rw [if_pos hb, if_pos ⟨rfl, hb⟩, hb]
    · rw [if_neg hb, if_neg fun h => hb h.2]
  · rw [if_neg ha, if_neg fun h => ha h.1]

/-- An edge adds its weight to the diagonal at its ends. -/
theorem addWeight_self (l : Rows n φ) {u v : Fin n} (huv : u ≠ v) (w : φ) (i : Fin n) :
    addWeight l u v w i i = if i = u ∨ i = v then l i i + w else l i i := by
  simp only [addWeight, setAt_apply]
  by_cases hu : i = u
  · simp [hu, huv]
  · by_cases hv : i = v
    · simp [hv, huv.symm]
    · simp [hu, hv]

/-- It takes its weight from the two entries between them. -/
theorem addWeight_ne (l : Rows n φ) {u v : Fin n} (huv : u ≠ v) (w : φ) {i j : Fin n}
    (hij : i ≠ j) :
    addWeight l u v w i j =
      if (i = u ∧ j = v) ∨ (i = v ∧ j = u) then l i j - w else l i j := by
  have hu : ¬ (i = u ∧ j = u) := fun h => hij (h.1.trans h.2.symm)
  have hv : ¬ (i = v ∧ j = v) := fun h => hij (h.1.trans h.2.symm)
  simp only [addWeight, setAt_apply, if_neg hu, if_neg hv]
  by_cases hfirst : i = u ∧ j = v
  · simp [hfirst, huv]
  · by_cases hsecond : i = v ∧ j = u
    · simp [hsecond, huv.symm]
    · simp [hfirst, hsecond]

/-! ## The eigenvalue -/

/-- `iter().sum()`. -/
def total (v : Fin n → φ) : φ := (List.ofFn v).foldl (· + ·) 0.0

/-- The products of the entries of two vectors, summed up. -/
def dot (v w : Fin n → φ) : φ := total fun i => v i * w i

def invSqrtN (n : Nat) (φ : Type) [FloatFns φ] : φ := 1.0 / FloatFns.sqrt (FloatArith.ofUsize n)

/-- `project_out`. -/
def projectOut (v : Fin n → φ) : Fin n → φ :=
  let dot := total v * invSqrtN n φ
  fun i => v i - dot * invSqrtN n φ

/-- `normalize`. -/
def normalize (v : Fin n → φ) : Fin n → φ :=
  let norm := FloatFns.sqrt (total fun i => v i * v i)
  if (1e-10 : φ) < norm then fun i => v i / norm else v

/-- The vector that the iteration starts with. -/
def startVector (n : Nat) (φ : Type) [FloatFns φ] : Fin n → φ := fun i =>
  FloatFns.sin (FloatArith.ofUsize i.val * 0.37 + 1.0)

/-- A turn of the loop of `fiedler_power_iter`. -/
def powerTurn (l : Rows n φ) (v : Fin n → φ) : Fin n → φ :=
  let sigma : φ := 10.0
  normalize (projectOut fun i => sigma * v i - dot (l i) v)

/-- `fiedler_power_iter`. -/
def fiedlerPowerIter (l : Rows n φ) (iters : Nat) : φ × (Fin n → φ) :=
  let v := (powerTurn l)^[iters] (normalize (projectOut (startVector n φ)))
  let lv : Fin n → φ := fun i => dot (l i) v
  let rayleigh := dot v lv
  (maxF32 rayleigh 0.0, v)

/-! ## The tick -/

namespace Regularizer

/-- `DynamicLaplacianRegularizer::new`. -/
def new (n : Nat) (epsilon alpha : φ) : Regularizer n φ where
  physicalEdges := []
  virtualEdges := []
  nodeMeta := ∅
  lambda2 := 0.0
  epsilon := epsilon
  alpha := alpha
  similarityThreshold := 0.4
  fiedlerVec := fun _ => 0.0
  lambda2History := []

/-- `register_node`. -/
def registerNode (self : Regularizer n φ) (id : Nat) (metadata : NodeMeta) : Regularizer n φ :=
  { self with nodeMeta := self.nodeMeta.insert id metadata }

/-- `update_physical_edges`. -/
def updatePhysicalEdges (self : Regularizer n φ) (edges : List (PhysicalEdge n φ)) :
    Regularizer n φ :=
  { self with physicalEdges := edges }

/-- `already_physical`. -/
def alreadyPhysical (self : Regularizer n φ) (u v : Fin n) : Bool :=
  self.physicalEdges.any fun edge =>
    decide ((edge.1 = u ∧ edge.2.1 = v) ∨ (edge.1 = v ∧ edge.2.1 = u))

/-- The pairs of nodes that the loops of `tick` go through. -/
def pairs (n : Nat) : List (Fin n × Fin n) :=
  (List.finRange n).flatMap fun u => ((List.finRange n).filter (u < ·)).map fun v => (u, v)

theorem mem_pairs_iff {pair : Fin n × Fin n} : pair ∈ pairs n ↔ pair.1 < pair.2 := by
  simp only [pairs, List.mem_flatMap, List.mem_finRange, List.mem_map, List.mem_filter,
    decide_eq_true_eq, true_and]
  constructor
  · rintro ⟨u, v, hlt, rfl⟩
    exact hlt
  · intro hlt
    exact ⟨pair.1, pair.2, hlt, rfl⟩

/-- The edges that the loops inject. -/
def inject (self : Regularizer n φ) (checks : OverflowChecks) (currentTick : Nat) :
    List (Fin n × Fin n) → Except Panic (List (VirtualEdge n φ))
  | [] => .ok []
  | (u, v) :: rest =>
    if self.alreadyPhysical u v then self.inject checks currentTick rest
    else do
      let (sim, reason) ← similarity (φ := φ) checks self.nodeMeta u v
      let edges ← self.inject checks currentTick rest
      if self.similarityThreshold ≤ sim then
        .ok ({ src := u, dst := v, weight := self.alpha * sim, reason := reason,
               injectedAt := currentTick } :: edges)
      else .ok edges

/-- The estimate on the physical graph. -/
def lambda2Raw (self : Regularizer n φ) : φ := (fiedlerPowerIter self.buildPhysicalOnly 60).1

/-- What a tick does to the virtual edges, and how many it injects. -/
def refresh (self : Regularizer n φ) (checks : OverflowChecks) (currentTick : Nat) :
    Except Panic (Nat × Regularizer n φ) :=
  if self.lambda2Raw < 0.05 then do
    let edges ← self.inject checks currentTick (pairs n)
    .ok (edges.length, { self with virtualEdges := edges })
  else
    .ok (0, { self with
      virtualEdges := self.virtualEdges.filter fun ve =>
        decide (saturatingSub currentTick ve.injectedAt < 10) })

/-- `tick`. -/
def tick (self : Regularizer n φ) (checks : OverflowChecks) (currentTick : Nat) :
    Except Panic (RegularizationReport φ × Regularizer n φ) := do
  let lambda2Raw := self.lambda2Raw
  let (injected, self) ← self.refresh checks currentTick
  let (lambda2Reg, fiedler) := fiedlerPowerIter self.buildRegularizedLaplacian 80
  let history := self.lambda2History ++ [lambda2Raw]
  .ok ({
      tick := currentTick
      lambda2Raw := lambda2Raw
      lambda2Regularized := lambda2Reg
      virtualEdgesInjected := injected
      regularizerActive := decide (lambda2Raw < 0.05)
      propagationGradientValid := decide ((1e-4 : φ) < lambda2Reg) },
    { self with
      lambda2 := lambda2Reg
      fiedlerVec := fiedler
      lambda2History := if 128 < history.length then history.tail else history })

end Regularizer

/-! ## What a tick does -/

namespace Regularizer

variable {self : Regularizer n φ} {checks : OverflowChecks} {currentTick : Nat}

/-- The injected edges join some of the pairs, in order, none of which is physical. -/
theorem inject_spec {pairs : List (Fin n × Fin n)} {edges : List (VirtualEdge n φ)}
    (h : self.inject checks currentTick pairs = .ok edges) :
    (edges.map fun ve => (ve.src, ve.dst)).Sublist pairs ∧
      ∀ ve ∈ edges, ve.injectedAt = currentTick ∧ self.alreadyPhysical ve.src ve.dst = false ∧
        ∃ sim, self.similarityThreshold ≤ sim ∧ ve.weight = self.alpha * sim := by
  induction pairs generalizing edges with
  | nil =>
    cases h
    exact ⟨.slnil, fun ve hve => absurd hve List.not_mem_nil⟩
  | cons pair rest ih =>
    obtain ⟨u, v⟩ := pair
    rw [inject] at h
    split at h
    · obtain ⟨hsub, hall⟩ := ih h
      exact ⟨hsub.cons _, hall⟩
    · rename_i hphysical
      obtain ⟨⟨sim, reason⟩, -, h⟩ := bind_eq_ok.mp h
      obtain ⟨tail, htail, h⟩ := bind_eq_ok.mp h
      obtain ⟨hsub, hall⟩ := ih htail
      split at h
      · rename_i hsim
        cases h
        refine ⟨hsub.cons_cons _, fun ve hve => ?_⟩
        rcases List.mem_cons.mp hve with rfl | hve
        · exact ⟨rfl, Bool.eq_false_iff.mpr hphysical, sim, hsim, rfl⟩
        · exact hall ve hve
      · cases h
        exact ⟨hsub.cons _, hall⟩

/-- A tick makes the virtual edges anew, or it drops those that are too old. -/
theorem refresh_cases {injected : Nat} {t : Regularizer n φ}
    (h : self.refresh checks currentTick = .ok (injected, t)) :
    (self.lambda2Raw < 0.05 ∧ ∃ edges, self.inject checks currentTick (pairs n) = .ok edges ∧
        t = { self with virtualEdges := edges }) ∨
      (¬ self.lambda2Raw < 0.05 ∧ t = { self with
        virtualEdges := self.virtualEdges.filter fun ve =>
          decide (saturatingSub currentTick ve.injectedAt < 10) }) := by
  rw [refresh] at h
  split at h
  · rename_i hraw
    obtain ⟨edges, hedges, h⟩ := bind_eq_ok.mp h
    cases h
    exact .inl ⟨hraw, edges, hedges, rfl⟩
  · rename_i hraw
    cases h
    exact .inr ⟨hraw, rfl⟩

/-- A tick estimates before and after it has refreshed the virtual edges, and changes nothing else
that an estimate depends on. -/
theorem tick_cases {report : RegularizationReport φ} {t : Regularizer n φ}
    (h : self.tick checks currentTick = .ok (report, t)) :
    ∃ injected s, self.refresh checks currentTick = .ok (injected, s) ∧
      report.regularizerActive = decide (self.lambda2Raw < 0.05) ∧
      report.lambda2Regularized = (fiedlerPowerIter s.buildRegularizedLaplacian 80).1 ∧
      ∃ history, t = { s with
        lambda2 := report.lambda2Regularized
        fiedlerVec := (fiedlerPowerIter s.buildRegularizedLaplacian 80).2
        lambda2History := history } := by
  rw [tick] at h
  obtain ⟨⟨injected, s⟩, hrefresh, h⟩ := bind_eq_ok.mp h
  cases h
  exact ⟨injected, s, hrefresh, rfl, rfl, _, rfl⟩

/-- A tick panics only where its refresh does. -/
theorem tick_of_refresh {injected : Nat} {s : Regularizer n φ}
    (h : self.refresh checks currentTick = .ok (injected, s)) :
    ∃ report t, self.tick checks currentTick = .ok (report, t) := by
  rw [tick, h]
  exact ⟨_, _, rfl⟩

end Regularizer

/-! ## Runs -/

/-- What a caller does to a regulariser. -/
inductive RegularizerAction (n : Nat) (φ : Type) where
  | registerNode (id : Nat) (metadata : NodeMeta)
  | updatePhysicalEdges (edges : List (PhysicalEdge n φ))
  | configure (epsilon alpha similarityThreshold : φ)
  | tick (currentTick : Nat)

namespace Regularizer

/-- The state after an action that does not panic; the fields that `configure` sets are public. -/
def next (checks : OverflowChecks) (self : Regularizer n φ) :
    RegularizerAction n φ → Except Panic (Regularizer n φ)
  | .registerNode id metadata => .ok (self.registerNode id metadata)
  | .updatePhysicalEdges edges => .ok (self.updatePhysicalEdges edges)
  | .configure epsilon alpha similarityThreshold =>
    .ok { self with
      epsilon := epsilon, alpha := alpha, similarityThreshold := similarityThreshold }
  | .tick currentTick => (self.tick checks currentTick).map (·.2)

def Step (checks : OverflowChecks) (s : Regularizer n φ) (a : RegularizerAction n φ)
    (t : Regularizer n φ) : Prop :=
  s.next checks a = .ok t

/-- A step of a tick is a tick that reports. -/
theorem step_tick_iff {checks : OverflowChecks} {s t : Regularizer n φ} {currentTick : Nat} :
    Step checks s (.tick currentTick) t ↔
      ∃ report, s.tick checks currentTick = .ok (report, t) := by
  rw [Step, next]
  cases s.tick checks currentTick with
  | error panic =>
    constructor
    · intro h
      cases h
    · rintro ⟨_, h⟩
      cases h
  | ok result =>
    constructor
    · intro h
      cases h
      exact ⟨_, rfl⟩
    · rintro ⟨report, h⟩
      cases h
      rfl

end Regularizer

end ActiveDefense.Spectral
