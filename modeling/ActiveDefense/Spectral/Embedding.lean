import ActiveDefense.Lib.Rotation
import ActiveDefense.Spectral.Laplacian
import ActiveDefense.Spectral.Regularizer
import Mathlib.LinearAlgebra.UnitaryGroup

/-!
# The embedding of a graph

`embed` diagonalises the Laplacian: a turn of its loop finds the largest entry off the diagonal and
rotates it away, and keeps the product of the rotations. Over the real numbers the matrix that the
entries are written into is the rotated matrix (`applyJacobiRotationToL_eq`), by an angle at which
the entry becomes zero (`jacobiCs_spec`). So each turn keeps the product of the three matrices, and
the squares off the diagonal lose those of the entry (`rotates_of_turn`); with enough turns the loop
stops early (`embed_isOk`).
-/

namespace ActiveDefense.Spectral

open Matrix Rotation

/-- `JacobiConfig`. -/
structure JacobiConfig (φ : Type) where
  maxIterations : Nat
  epsilon : φ
  dimensions : Option Nat

/-- What `GraphError` says of an embedding. -/
inductive EmbedError (φ : Type) where
  | insufficientNodesForEmbedding (numNodes : Nat)
  | eigenConvergenceFailed (maxIterations : Nat) (residual : φ)
deriving Repr

/-- `SpectralEmbedding`. -/
structure SpectralEmbedding (φ : Type) where
  numNodes : Nat
  numDims : Nat
  eigenvectorMatrix : List (List φ)
  eigenvalues : List φ
  algebraicConnectivity : φ

variable {n : Nat} {φ : Type} [FloatFns φ] [Neg φ]

namespace JacobiConfig

omit [Neg φ]

/-- `JacobiConfig::default`. -/
def standard : JacobiConfig φ where
  maxIterations := 2000
  epsilon := 1e-9
  dimensions := none

/-- `JacobiConfig::relaxed`. -/
def relaxed : JacobiConfig φ where
  maxIterations := 20000
  epsilon := 1e-6
  dimensions := none

end JacobiConfig

/-- `f64::abs`, but for the sign of a zero. -/
def absF64 (x : φ) : φ := if x < 0.0 then -x else x

/-- `Graph::laplacian`, with the numbers of an embedding. -/
def laplacianRows (φ : Type) [FloatFns φ] [Neg φ] (g : Graph) : Rows g.numNodes φ := fun i =>
  (g.nbrs i).foldl (fun row j k => if k.val = j then -1.0 else row k)
    fun k => if k = i then FloatArith.ofUsize (g.nbrs i).length else 0.0

/-! ## A rotation -/

/-- `off_diagonal_max`, of a matrix with at least two rows. -/
def offDiagonalMax (hn : 2 ≤ n) (l : Rows n φ) : φ × Fin n × Fin n :=
  (Regularizer.pairs n).foldl (fun best pair =>
    let v := absF64 (l pair.1 pair.2)
    if best.1 < v then (v, pair) else best) (0.0, ⟨0, Nat.zero_lt_of_lt hn⟩, ⟨1, hn⟩)

/-- `theta` of `jacobi_cs`. -/
def jacobiTheta (lPp lQq lPq : φ) : φ := (lQq - lPp) / (2.0 * lPq)

/-- `t` of `jacobi_cs`. -/
def jacobiT (theta : φ) : φ :=
  if 0.0 ≤ theta then 1.0 / (theta + FloatFns.sqrt (theta * theta + 1.0))
  else -1.0 / (-theta + FloatFns.sqrt (theta * theta + 1.0))

/-- `jacobi_cs`. -/
def jacobiCs (lPp lQq lPq : φ) : φ × φ :=
  let t := jacobiT (jacobiTheta lPp lQq lPq)
  let c := 1.0 / FloatFns.sqrt (1.0 + t * t)
  (c, t * c)

/-- A turn of the loop of `apply_jacobi_rotation_to_l`. -/
def rotateEntries (p q : Fin n) (c s : φ) (l : Rows n φ) (i : Fin n) : Rows n φ :=
  if i ≠ p ∧ i ≠ q then
    let lIp := l i p
    let lIq := l i q
    let l := setAt l i p fun _ => c * lIp - s * lIq
    let l := setAt l p i fun _ => l i p
    let l := setAt l i q fun _ => s * lIp + c * lIq
    setAt l q i fun _ => l i q
  else l

/-- `apply_jacobi_rotation_to_l`. -/
def applyJacobiRotationToL (l : Rows n φ) (p q : Fin n) (c s : φ) : Rows n φ :=
  let lPp := l p p
  let lQq := l q q
  let lPq := l p q
  let l := setAt l p p fun _ => c * c * lPp - 2.0 * s * c * lPq + s * s * lQq
  let l := setAt l q q fun _ => s * s * lPp + 2.0 * s * c * lPq + c * c * lQq
  let l := setAt l p q fun _ => 0.0
  let l := setAt l q p fun _ => 0.0
  (List.finRange n).foldl (rotateEntries p q c s) l

/-- The loop of `embed` over the rows of `u`. -/
def rotateColumns (u : Rows n φ) (p q : Fin n) (c s : φ) : Rows n φ :=
  (List.finRange n).foldl (fun u i =>
    let uIp := u i p
    let uIq := u i q
    let u := setAt u i p fun _ => c * uIp - s * uIq
    setAt u i q fun _ => s * uIp + c * uIq) u

/-- The matrices `l` and `u` of `embed`. -/
structure Work (n : Nat) (φ : Type) where
  l : Rows n φ
  u : Rows n φ

/-- A turn of the loop of `embed`; nothing, where it breaks. -/
def jacobiTurn (hn : 2 ≤ n) (absEpsilon : φ) (w : Work n φ) : Option (Work n φ) :=
  let (maxVal, p, q) := offDiagonalMax hn w.l
  if maxVal < absEpsilon then none
  else
    let (c, s) := jacobiCs (w.l p p) (w.l q q) (w.l p q)
    some { l := applyJacobiRotationToL w.l p q c s, u := rotateColumns w.u p q c s }

/-- The loop of `embed`, and whether it converged. -/
def jacobiLoop (hn : 2 ≤ n) (absEpsilon : φ) : Nat → Work n φ → Work n φ × Bool
  | 0, w => (w, false)
  | k + 1, w =>
    match jacobiTurn hn absEpsilon w with
    | none => (w, true)
    | some w' => jacobiLoop hn absEpsilon k w'

/-! ## The embedding -/

namespace SpectralEmbedding

/-- `scale`. -/
def scale (l : Rows n φ) : φ :=
  (List.finRange n).foldl (fun acc i => maxF32 acc (absF64 (l i i))) 1.0

/-- The matrices before the loop. -/
def start (graph : Graph) : Work graph.numNodes φ where
  l := laplacianRows φ graph
  u := fun i j => if i = j then 1.0 else 0.0

/-- The eigenvalues, which are never negative, with their columns, in ascending order. -/
def sortedPairs (l : Rows n φ) : List (φ × Fin n) :=
  ((List.finRange n).map fun i => (maxF32 (l i i) 0.0, i)).mergeSort fun a b => !decide (b.1 < a.1)

/-- What `embed` returns, after its loop. -/
def assemble (cfg : JacobiConfig φ) (w : Work n φ) : SpectralEmbedding φ :=
  let numDims := min (cfg.dimensions.getD n) n
  let pairs := (sortedPairs w.l).take numDims
  let eigenvalues := pairs.map (·.1)
  { numNodes := n
    numDims := numDims
    eigenvectorMatrix := (List.finRange n).map fun i => pairs.map fun pair => w.u i pair.2
    eigenvalues := eigenvalues
    algebraicConnectivity := if 1 < numDims then eigenvalues.getD 1 0.0 else 0.0 }

/-- `SpectralEmbedding::embed`. -/
def embed (graph : Graph) (cfg : JacobiConfig φ) : Except (EmbedError φ) (SpectralEmbedding φ) :=
  if h : graph.numNodes < 2 then .error (.insufficientNodesForEmbedding graph.numNodes)
  else
    let hn : 2 ≤ graph.numNodes := Nat.le_of_not_lt h
    let scale := scale (start (φ := φ) graph).l
    let (w, converged) := jacobiLoop hn (cfg.epsilon * scale) cfg.maxIterations (start graph)
    let residual := (offDiagonalMax hn w.l).1
    if converged = false ∧ 1e-3 < residual / scale then
      .error (.eigenConvergenceFailed cfg.maxIterations residual)
    else .ok (assemble cfg w)

/-- `eigenvector_matrix[i][k]`. -/
def entry (e : SpectralEmbedding φ) (i k : Nat) : φ := (e.eigenvectorMatrix.getD i []).getD k 0.0

end SpectralEmbedding

/-! ## The entries that are written -/

section
variable {p q : Fin n} {c s : ℝ}

theorem rotateEntries_apply (hpq : p ≠ q) (l : Rows n ℝ) (i a b : Fin n) :
    rotateEntries p q c s l i a b =
      if i ≠ p ∧ i ≠ q ∧ (a = i ∧ b = p ∨ a = p ∧ b = i) then c * l i p - s * l i q
      else if i ≠ p ∧ i ≠ q ∧ (a = i ∧ b = q ∨ a = q ∧ b = i) then s * l i p + c * l i q
      else l a b := by
  rw [rotateEntries]
  split
  · simp only [setAt_apply]
    grind
  · grind

theorem foldl_rotateEntries (hpq : p ≠ q) {is : List (Fin n)} (his : is.Nodup) (l : Rows n ℝ)
    (a b : Fin n) : is.foldl (rotateEntries p q c s) l a b =
      if a ∈ is ∧ a ≠ p ∧ a ≠ q ∧ b = p then c * l a p - s * l a q
      else if a ∈ is ∧ a ≠ p ∧ a ≠ q ∧ b = q then s * l a p + c * l a q
      else if b ∈ is ∧ b ≠ p ∧ b ≠ q ∧ a = p then c * l b p - s * l b q
      else if b ∈ is ∧ b ≠ p ∧ b ≠ q ∧ a = q then s * l b p + c * l b q
      else l a b := by
  induction is generalizing l with
  | nil => simp
  | cons i is ih =>
    obtain ⟨hi, his'⟩ := List.nodup_cons.mp his
    have hkeep : ∀ a ∈ is, a ≠ p → a ≠ q → ∀ b, rotateEntries p q c s l i a b = l a b := by
      intro a ha hap haq b
      have hai : a ≠ i := fun heq => hi (heq ▸ ha)
      rw [rotateEntries_apply hpq, if_neg (by tauto), if_neg (by tauto)]
    have hentry := rotateEntries_apply (c := c) (s := s) hpq l i a b
    rw [List.foldl_cons, ih his']
    simp only [List.mem_cons]
    -- the turns of the other rows read entries that the first turn has not written
    by_cases ha : a ∈ is ∧ a ≠ p ∧ a ≠ q
    · rw [hkeep a ha.1 ha.2.1 ha.2.2, hkeep a ha.1 ha.2.1 ha.2.2, hkeep a ha.1 ha.2.1 ha.2.2]
      grind
    · by_cases hb : b ∈ is ∧ b ≠ p ∧ b ≠ q
      · rw [hkeep b hb.1 hb.2.1 hb.2.2, hkeep b hb.1 hb.2.1 hb.2.2, hentry]
        grind
      · rw [if_neg (by tauto), if_neg (by tauto), if_neg (by tauto), if_neg (by tauto), hentry]
        clear ih hkeep hentry
        by_cases hai : a = i
        · subst hai
          by_cases hbp : b = p
          · grind
          · by_cases hbq : b = q
            · grind
            · grind
        · by_cases hbi : b = i
          · subst hbi
            by_cases hap : a = p
            · grind
            · by_cases haq : a = q
              · grind
              · grind
          · rw [if_neg (by tauto), if_neg (by tauto), if_neg (by tauto), if_neg (by tauto),
              if_neg (by tauto), if_neg (by tauto)]

theorem zero_lit : (0.0 : ℝ) = 0 := by norm_num

theorem one_lit : (1.0 : ℝ) = 1 := by norm_num

theorem two_lit : (2.0 : ℝ) = 2 := by norm_num

/-- What is written into a symmetric matrix is the rotated matrix, where the rotation makes the
entry zero. -/
theorem applyJacobiRotationToL_eq (hpq : p ≠ q) {l : Rows n ℝ} (hl : (Matrix.of l).IsSymm)
    (hzero : rotate p q c s (Matrix.of l) p q = 0) :
    Matrix.of (applyJacobiRotationToL l p q c s) = rotate p q c s (Matrix.of l) := by
  have hsymm : ∀ i j, l i j = l j i := fun i j => hl.apply j i
  have hrotated := rotate_isSymm (p := p) (q := q) (c := c) (s := s) hl
  ext a b
  rw [of_apply, applyJacobiRotationToL, foldl_rotateEntries hpq (List.nodup_finRange n)]
  simp only [setAt_apply, List.mem_finRange, true_and, zero_lit, two_lit]
  by_cases ha : a = p
  · subst ha
    by_cases hb : b = a
    · subst hb
      rw [rotate_apply hpq hl, mul_plane_apply hpq, mul_plane_apply hpq]
      simp [hpq, hsymm q b]
      ring
    · by_cases hb' : b = q
      · subst hb'
        rw [hzero]
        simp [hpq, hb]
      · rw [rotate_apply hpq hl]
        simp [mul_plane_apply hpq, hb, hb']
  · by_cases ha' : a = q
    · subst ha'
      by_cases hb : b = p
      · subst hb
        rw [← hrotated.apply, hzero]
        simp [hpq, ha]
      · by_cases hb' : b = a
        · subst hb'
          rw [rotate_apply hpq hl, mul_plane_apply hpq, mul_plane_apply hpq]
          simp [hb, hsymm b p]
          ring
        · rw [rotate_apply hpq hl]
          simp [mul_plane_apply hpq, hb, hb', ha]
    · by_cases hb : b = p
      · subst hb
        rw [rotate_apply hpq hl, mul_plane_apply hpq, mul_plane_apply hpq]
        simp [ha, ha', hpq, hsymm b a, hsymm q a]
      · by_cases hb' : b = q
        · subst hb'
          rw [rotate_apply hpq hl, mul_plane_apply hpq, mul_plane_apply hpq]
          simp [ha, ha', hpq, hb, hsymm p a, hsymm b a]
        · rw [rotate_apply hpq hl]
          simp [mul_plane_apply hpq, ha, ha', hb, hb', hsymm b a]

/-- The loop over the rows of `u` is the product with the rotation. -/
theorem rotateColumns_eq (hpq : p ≠ q) (u : Rows n ℝ) :
    Matrix.of (rotateColumns u p q c s) = Matrix.of u * plane p q c s := by
  have hfold : ∀ is : List (Fin n), is.Nodup → ∀ (u : Rows n ℝ) (a b : Fin n),
      is.foldl (fun u i => setAt (setAt u i p fun _ => c * u i p - s * u i q) i q
        fun _ => s * u i p + c * u i q) u a b =
      if a ∈ is then (Matrix.of u * plane p q c s) a b else u a b := by
    intro is his
    induction is with
    | nil =>
      intro u a b
      simp
    | cons i is ih =>
      intro u a b
      obtain ⟨hi, his'⟩ := List.nodup_cons.mp his
      rw [List.foldl_cons, ih his']
      simp only [mul_plane_apply hpq, of_apply, setAt_apply, List.mem_cons]
      grind
  ext a b
  rw [of_apply, rotateColumns, hfold _ (List.nodup_finRange n), if_pos (List.mem_finRange a)]

end

/-! ## The angle -/

theorem absF64_eq (x : ℝ) : absF64 x = |x| := by
  rw [absF64, zero_lit]
  split
  · next h =>
    rw [abs_of_neg h]
  · next h =>
    rw [abs_of_nonneg (not_lt.mp h)]

theorem sqrt_eq (x : ℝ) : FloatFns.sqrt x = Real.sqrt x := rfl

theorem exists_sqrt {x : ℝ} (hx : 0 < x) : ∃ r, Real.sqrt x = r ∧ 0 < r ∧ r * r = x :=
  ⟨Real.sqrt x, rfl, Real.sqrt_pos.mpr hx, Real.mul_self_sqrt hx.le⟩

/-- No divisor of `jacobi_cs` is zero, and the tangent is a root of its equation. -/
theorem jacobiT_spec (theta : ℝ) :
    (0 ≤ theta → theta + Real.sqrt (theta * theta + 1) ≠ 0) ∧
      (theta < 0 → -theta + Real.sqrt (theta * theta + 1) ≠ 0) ∧
      jacobiT theta * jacobiT theta + 2 * theta * jacobiT theta = 1 := by
  have harg : 0 < theta * theta + 1 := add_pos_of_nonneg_of_pos (mul_self_nonneg theta) one_pos
  obtain ⟨r, hr, hpos, hsq⟩ := exists_sqrt harg
  rw [jacobiT, sqrt_eq, zero_lit, one_lit, hr]
  refine ⟨fun h => (add_pos_of_nonneg_of_pos h hpos).ne',
    fun h => (add_pos (neg_pos.mpr h) hpos).ne', ?_⟩
  split
  · next h =>
    have hne : theta + r ≠ 0 := (add_pos_of_nonneg_of_pos h hpos).ne'
    field_simp
    linear_combination -hsq
  · next h =>
    have hne : -theta + r ≠ 0 := (add_pos (neg_pos.mpr (not_le.mp h)) hpos).ne'
    field_simp
    linear_combination -hsq

/-- A rotation, whatever the entries. -/
theorem jacobiCs_unit {lPp lQq lPq c s : ℝ} (h : jacobiCs lPp lQq lPq = (c, s)) :
    c * c + s * s = 1 := by
  obtain ⟨t, ht⟩ : ∃ t, t = jacobiT (jacobiTheta lPp lQq lPq) := ⟨_, rfl⟩
  rw [jacobiCs, sqrt_eq, one_lit, ← ht] at h
  obtain ⟨rfl, rfl⟩ := Prod.mk.inj h
  have harg : 0 < 1 + t * t := add_pos_of_pos_of_nonneg one_pos (mul_self_nonneg t)
  obtain ⟨r, hr, hpos, hsq⟩ := exists_sqrt harg
  have hr0 := hpos.ne'
  rw [hr]
  field_simp
  linear_combination -hsq

/-- The angle makes the entry zero. -/
theorem jacobiCs_spec (lPp lQq : ℝ) {lPq c s : ℝ} (hne : lPq ≠ 0)
    (h : jacobiCs lPp lQq lPq = (c, s)) :
    c * c + s * s = 1 ∧ s * (c * lPp - s * lPq) + c * (c * lPq - s * lQq) = 0 := by
  refine ⟨jacobiCs_unit h, ?_⟩
  obtain ⟨t, ht⟩ : ∃ t, t = jacobiT (jacobiTheta lPp lQq lPq) := ⟨_, rfl⟩
  have hroot := (jacobiT_spec (jacobiTheta lPp lQq lPq)).2.2
  rw [jacobiCs, sqrt_eq, one_lit, ← ht] at h
  rw [← ht, jacobiTheta, two_lit] at hroot
  obtain ⟨rfl, rfl⟩ := Prod.mk.inj h
  have harg : 0 < 1 + t * t := add_pos_of_pos_of_nonneg one_pos (mul_self_nonneg t)
  obtain ⟨r, hr, hpos, -⟩ := exists_sqrt harg
  have hr0 := hpos.ne'
  rw [hr]
  field_simp at hroot ⊢
  linear_combination -hroot

/-! ## The entry -/

/-- A search for the largest of a list keeps an item with a value that it has or exceeds, and the
value it ends with is at least that of every item. -/
theorem foldl_largest {α : Type} (f : α → ℝ) (P : α → Prop) (items : List α)
    (hitems : ∀ item ∈ items, P item) (best : ℝ × α) (hbest : P best.2) (hle : best.1 ≤ f best.2)
    {next : ℝ × α}
    (h : items.foldl (fun best item => if best.1 < f item then (f item, item) else best) best =
      next) :
    P next.2 ∧ next.1 ≤ f next.2 ∧ best.1 ≤ next.1 ∧ ∀ item ∈ items, f item ≤ next.1 := by
  induction items generalizing best with
  | nil =>
    cases h
    exact ⟨hbest, hle, le_refl _, fun item hitem => absurd hitem List.not_mem_nil⟩
  | cons item items ih =>
    rw [List.foldl_cons] at h
    have hrest : ∀ item ∈ items, P item := fun item hitem => hitems item (.tail _ hitem)
    by_cases hless : best.1 < f item
    · rw [if_pos hless] at h
      obtain ⟨hnext, hle', hgrow, hall⟩ :=
        ih hrest (f item, item) (hitems item (.head _)) (le_refl _) h
      refine ⟨hnext, hle', hless.le.trans hgrow, fun other hother => ?_⟩
      rcases List.mem_cons.mp hother with rfl | hother
      · exact hgrow
      · exact hall other hother
    · rw [if_neg hless] at h
      obtain ⟨hnext, hle', hgrow, hall⟩ := ih hrest best hbest hle h
      refine ⟨hnext, hle', hgrow, fun other hother => ?_⟩
      rcases List.mem_cons.mp hother with rfl | hother
      · exact (not_lt.mp hless).trans hgrow
      · exact hall other hother

/-- The entry that is found is the largest off the diagonal. -/
theorem offDiagonalMax_spec (hn : 2 ≤ n) (l : Rows n ℝ) {m : ℝ} {p q : Fin n}
    (h : offDiagonalMax hn l = (m, p, q)) :
    p < q ∧ m = |l p q| ∧ ∀ i j, i < j → |l i j| ≤ m := by
  have hfirst : (0.0 : ℝ) ≤ |l ⟨0, Nat.zero_lt_of_lt hn⟩ ⟨1, hn⟩| := by
    rw [zero_lit]
    exact abs_nonneg _
  simp only [offDiagonalMax, absF64_eq] at h
  obtain ⟨hlt, hle, -, hall⟩ := foldl_largest (fun pair : Fin n × Fin n => |l pair.1 pair.2|)
    (fun pair => pair.1 < pair.2) (Regularizer.pairs n)
    (fun pair hpair => Regularizer.mem_pairs_iff.mp hpair) _ (Fin.mk_lt_mk.mpr one_pos) hfirst h
  exact ⟨hlt, le_antisymm hle (hall (p, q) (Regularizer.mem_pairs_iff.mpr hlt)),
    fun i j hij => hall (i, j) (Regularizer.mem_pairs_iff.mpr hij)⟩

/-! ## A turn of the loop -/

/-- What holds of the matrices between the turns. -/
structure Work.Holds (laplacian : Matrix (Fin n) (Fin n) ℝ) (w : Work n ℝ) : Prop where
  symm : (Matrix.of w.l).IsSymm
  orthogonal : Matrix.of w.u ∈ Matrix.orthogonalGroup (Fin n) ℝ
  product : Matrix.of w.u * Matrix.of w.l * (Matrix.of w.u)ᵀ = laplacian

/-- What a rotation does: it makes the largest entry zero, and it divides by no zero. -/
structure Rotates (hn : 2 ≤ n) (laplacian : Matrix (Fin n) (Fin n) ℝ) (w w' : Work n ℝ) : Prop
    extends w'.Holds laplacian where
  eliminated : ∀ m p q, offDiagonalMax hn w.l = (m, p, q) → p < q ∧ w'.l p q = 0 ∧
    offSq (Matrix.of w'.l) = offSq (Matrix.of w.l) - 2 * w.l p q ^ 2
  divisors : ∀ m p q, offDiagonalMax hn w.l = (m, p, q) →
    2 * w.l p q ≠ 0 ∧
    let theta := jacobiTheta (w.l p p) (w.l q q) (w.l p q)
    (0 ≤ theta → theta + Real.sqrt (theta * theta + 1) ≠ 0) ∧
    (theta < 0 → -theta + Real.sqrt (theta * theta + 1) ≠ 0) ∧
    Real.sqrt (1 + jacobiT theta * jacobiT theta) ≠ 0

variable {laplacian : Matrix (Fin n) (Fin n) ℝ} {w w' : Work n ℝ} {absEpsilon : ℝ}

/-- What a turn does that does not break. -/
theorem jacobiTurn_cases (hn : 2 ≤ n) (hε : 0 < absEpsilon)
    (h : jacobiTurn hn absEpsilon w = some w') :
    ∃ p q c s, offDiagonalMax hn w.l = (|w.l p q|, p, q) ∧ p < q ∧ w.l p q ≠ 0 ∧
      (∀ i j, i < j → |w.l i j| ≤ |w.l p q|) ∧
      jacobiCs (w.l p p) (w.l q q) (w.l p q) = (c, s) ∧
      w' = { l := applyJacobiRotationToL w.l p q c s, u := rotateColumns w.u p q c s } := by
  obtain ⟨⟨m, p, q⟩, hmax⟩ : ∃ r, offDiagonalMax hn w.l = r := ⟨_, rfl⟩
  obtain ⟨⟨c, s⟩, hcs⟩ : ∃ r, jacobiCs (w.l p p) (w.l q q) (w.l p q) = r := ⟨_, rfl⟩
  obtain ⟨hpq, rfl, hall⟩ := offDiagonalMax_spec hn w.l hmax
  simp only [jacobiTurn, hmax, hcs] at h
  split at h
  · cases h
  · next hge =>
    have hne : w.l p q ≠ 0 := abs_pos.mp (hε.trans_le (not_lt.mp hge))
    exact ⟨p, q, c, s, hmax, hpq, hne, hall, hcs, (Option.some.inj h).symm⟩

/-- Over the real numbers a turn is a rotation of the matrices. -/
theorem rotates_of_turn (hn : 2 ≤ n) (hε : 0 < absEpsilon) (hw : w.Holds laplacian)
    (h : jacobiTurn hn absEpsilon w = some w') : Rotates hn laplacian w w' := by
  obtain ⟨p, q, c, s, hmax, hlt, hne, -, hcs, rfl⟩ := jacobiTurn_cases hn hε h
  have hpq : p ≠ q := hlt.ne
  obtain ⟨hunit, hzero⟩ := jacobiCs_spec (w.l p p) (w.l q q) hne hcs
  have hzero' : rotate p q c s (Matrix.of w.l) p q = 0 := by
    have hqp : w.l q p = w.l p q := hw.symm.apply p q
    rw [rotate_apply hpq hw.symm, if_neg hpq.symm, if_pos rfl, mul_plane_apply hpq,
      mul_plane_apply hpq, if_pos rfl, if_pos rfl]
    simp only [of_apply, hqp]
    exact hzero
  have hl := applyJacobiRotationToL_eq hpq hw.symm hzero'
  have hu := rotateColumns_eq (c := c) (s := s) hpq w.u
  have hplane : plane p q c s ∈ Matrix.orthogonalGroup (Fin n) ℝ :=
    (Matrix.mem_orthogonalGroup_iff _ _).mpr (plane_mul_transpose hpq hunit)
  refine { symm := ?_, orthogonal := ?_, product := ?_, eliminated := ?_, divisors := ?_ }
  · rw [hl]
    exact rotate_isSymm hw.symm
  · rw [hu]
    exact mul_mem hw.orthogonal hplane
  · rw [hl, hu, mul_rotate_mul hpq hunit, hw.product]
  · intro m p' q' hmax'
    obtain ⟨rfl, rfl⟩ := Prod.mk.inj (Prod.mk.inj (hmax.symm.trans hmax')).2
    refine ⟨hlt, ?_, ?_⟩
    · exact (congrFun (congrFun hl p) q).trans hzero'
    · rw [hl, offSq_rotate hpq hunit hw.symm hzero']
      rfl
  · intro m p' q' hmax'
    obtain ⟨rfl, rfl⟩ := Prod.mk.inj (Prod.mk.inj (hmax.symm.trans hmax')).2
    obtain ⟨hpos, hneg, -⟩ := jacobiT_spec (jacobiTheta (w.l p p) (w.l q q) (w.l p q))
    refine ⟨mul_ne_zero two_ne_zero hne, hpos, hneg, (Real.sqrt_pos.mpr ?_).ne'⟩
    exact add_pos_of_pos_of_nonneg one_pos (mul_self_nonneg _)

/-! ## The loop -/

/-- The matrices after each turn of the loop that does not break. -/
def rotations (hn : 2 ≤ n) (absEpsilon : φ) : Nat → Work n φ → List (Work n φ)
  | 0, _ => []
  | k + 1, w =>
    match jacobiTurn hn absEpsilon w with
    | none => []
    | some w' => w' :: rotations hn absEpsilon k w'

theorem jacobiLoop_fst (hn : 2 ≤ n) (absEpsilon : φ) (k : Nat) (w : Work n φ) :
    (jacobiLoop hn absEpsilon k w).1 =
      (w :: rotations hn absEpsilon k w).getLast (List.cons_ne_nil _ _) := by
  induction k generalizing w with
  | zero => rfl
  | succ k ih =>
    rw [jacobiLoop, rotations]
    split
    · rfl
    · rw [ih, List.getLast_cons_cons]

theorem isChain_rotations (hn : 2 ≤ n) (hε : 0 < absEpsilon) (k : Nat)
    (hw : w.Holds laplacian) :
    List.IsChain (Rotates hn laplacian) (w :: rotations hn absEpsilon k w) := by
  induction k generalizing w with
  | zero => exact .singleton w
  | succ k ih =>
    rw [rotations]
    split
    · exact .singleton w
    · next w' h =>
      have hrotates := rotates_of_turn hn hε hw h
      exact .cons_cons hrotates (ih hrotates.toHolds)

/-- The loop keeps the product of the rotations orthogonal, whatever the matrix. -/
theorem orthogonal_jacobiLoop (hn : 2 ≤ n) (absEpsilon : ℝ) (k : Nat) {w : Work n ℝ}
    (hw : Matrix.of w.u ∈ Matrix.orthogonalGroup (Fin n) ℝ) :
    Matrix.of (jacobiLoop hn absEpsilon k w).1.u ∈ Matrix.orthogonalGroup (Fin n) ℝ := by
  induction k generalizing w with
  | zero => exact hw
  | succ k ih =>
    rw [jacobiLoop]
    split
    · exact hw
    · next w' h =>
      refine ih ?_
      obtain ⟨⟨m, p, q⟩, hmax⟩ : ∃ r, offDiagonalMax hn w.l = r := ⟨_, rfl⟩
      obtain ⟨⟨c, s⟩, hcs⟩ : ∃ r, jacobiCs (w.l p p) (w.l q q) (w.l p q) = r := ⟨_, rfl⟩
      have hpq := (offDiagonalMax_spec hn w.l hmax).1.ne
      simp only [jacobiTurn, hmax, hcs] at h
      split at h
      · cases h
      · cases h
        have hplane : plane p q c s ∈ Matrix.orthogonalGroup (Fin n) ℝ :=
          (Matrix.mem_orthogonalGroup_iff _ _).mpr (plane_mul_transpose hpq (jacobiCs_unit hcs))
        rw [rotateColumns_eq hpq]
        exact mul_mem hw hplane

/-- A loop that converged found no large entry. -/
theorem jacobiLoop_converged (hn : 2 ≤ n) (absEpsilon : ℝ) (k : Nat) {w : Work n ℝ}
    (h : (jacobiLoop hn absEpsilon k w).2 = true) :
    (offDiagonalMax hn (jacobiLoop hn absEpsilon k w).1.l).1 < absEpsilon := by
  induction k generalizing w with
  | zero => cases h
  | succ k ih =>
    rw [jacobiLoop] at h ⊢
    split at h
    · next hnone =>
      by_contra hnot
      simp [jacobiTurn, hnot] at hnone
    · exact ih h

/-! ## The start -/

theorem laplacianRows_eq {g : Graph} (h : g.Valid) :
    Matrix.of (laplacianRows ℝ g) = g.laplacianMatrix ℝ := by
  have hfold : ∀ (js : List Nat) (row : Fin g.numNodes → ℝ) (k : Fin g.numNodes),
      js.foldl (fun row j k => if k.val = j then -1.0 else row k) row k =
        if k.val ∈ js then -1 else row k := by
    intro js
    induction js with
    | nil =>
      intro row k
      simp
    | cons j js ih =>
      intro row k
      rw [List.foldl_cons, ih]
      simp only [one_lit, List.mem_cons]
      grind
  ext i j
  have hcast : (FloatArith.ofUsize (g.nbrs i).length : ℝ) = (g.nbrs i).length := rfl
  rw [of_apply, laplacianRows, hfold, Graph.laplacianMatrix_eq h, zero_lit, hcast]
  simp only [SimpleGraph.lapMatrix, SimpleGraph.degMatrix, Matrix.sub_apply,
    Matrix.diagonal_apply, SimpleGraph.adjMatrix_apply, h.simple_adj, Graph.degree_eq h]
  by_cases hij : i = j
  · subst hij
    simp [h.loopless]
  · by_cases hmem : j.val ∈ g.nbrs i
    · simp [hij, hmem]
    · simp [hij, Ne.symm hij, hmem]

namespace SpectralEmbedding

theorem one_le_scale (l : Rows n ℝ) : 1 ≤ scale l := by
  have hfold : ∀ (is : List (Fin n)) (acc : ℝ),
      acc ≤ is.foldl (fun acc i => maxF32 acc (absF64 (l i i))) acc := by
    intro is
    induction is with
    | nil => exact fun acc => le_refl acc
    | cons i is ih =>
      intro acc
      rw [List.foldl_cons]
      refine le_trans ?_ (ih _)
      rw [maxF32_eq_max]
      exact le_max_left _ _
  have hle := hfold (List.finRange n) 1.0
  rw [one_lit] at hle
  rw [scale, one_lit]
  exact hle

theorem scale_le {l : Rows n ℝ} {m : ℝ} (hone : 1 ≤ m) (h : ∀ i, |l i i| ≤ m) : scale l ≤ m := by
  have hfold : ∀ (is : List (Fin n)) (acc : ℝ), acc ≤ m →
      is.foldl (fun acc i => maxF32 acc (absF64 (l i i))) acc ≤ m := by
    intro is
    induction is with
    | nil => exact fun acc hacc => hacc
    | cons i is ih =>
      intro acc hacc
      rw [List.foldl_cons, maxF32_eq_max, absF64_eq]
      exact ih _ (max_le hacc (h i))
  rw [scale, one_lit]
  exact hfold _ _ hone

theorem start_u (g : Graph) : Matrix.of (start (φ := ℝ) g).u = 1 := by
  ext i j
  rw [of_apply, start, one_lit, zero_lit, one_apply]

theorem start_holds {g : Graph} (h : g.Valid) : (start (φ := ℝ) g).Holds (g.laplacianMatrix ℝ) := by
  have hl : Matrix.of (start (φ := ℝ) g).l = g.laplacianMatrix ℝ := laplacianRows_eq h
  refine { symm := ?_, orthogonal := ?_, product := ?_ }
  · rw [hl, Graph.laplacianMatrix_eq h]
    exact SimpleGraph.isSymm_lapMatrix ℝ g.simple
  · rw [start_u]
    exact one_mem _
  · rw [hl, start_u, Matrix.one_mul, transpose_one, Matrix.mul_one]

/-- Whatever the graph and the number of turns: each turn of the loop of `embed` keeps the working
matrix symmetric, the product of the rotations orthogonal and the product of the three equal to the
Laplacian, takes the squares of the entry from those off the diagonal, and divides by no zero. -/
theorem isChain_embed {g : Graph} (h : g.Built) (hn : 2 ≤ g.numNodes) (cfg : JacobiConfig ℝ)
    (hε : 0 < cfg.epsilon) :
    List.IsChain (Rotates hn (g.laplacianMatrix ℝ)) (start g ::
      rotations hn (cfg.epsilon * scale (start (φ := ℝ) g).l) cfg.maxIterations (start g)) ∧
    (jacobiLoop hn (cfg.epsilon * scale (start (φ := ℝ) g).l) cfg.maxIterations (start g)).1 =
      (start g :: rotations hn (cfg.epsilon * scale (start (φ := ℝ) g).l) cfg.maxIterations
        (start g)).getLast (List.cons_ne_nil _ _) :=
  ⟨isChain_rotations hn (mul_pos hε (one_pos.trans_le (one_le_scale _))) cfg.maxIterations
    (start_holds h.valid), jacobiLoop_fst _ _ _ _⟩

/-- A rotation of the Laplacian of two nodes that are joined. -/
theorem isChain_embed_pair :
    ∃ (g : Graph) (hn : 2 ≤ g.numNodes) (w : Work g.numNodes ℝ), g.Built ∧
      jacobiTurn hn (1e-6 * scale (start (φ := ℝ) g).l) (start g) = some w ∧
      Rotates hn (g.laplacianMatrix ℝ) (start g) w := by
  let g : Graph := { numNodes := 2, adjacency := [[1], [0]] }
  have hbuilt : g.Built := ⟨2, { numNodes := 2, adjacency := [[], []] }, [(0, 1)], rfl, rfl⟩
  have hpos : (0 : ℝ) < (JacobiConfig.relaxed (φ := ℝ)).epsilon := by
    norm_num [JacobiConfig.relaxed]
  have hl : ∀ i j, (start (φ := ℝ) g).l i j = if i = j then 1 else -1 := by
    intro i j
    have hentry := congrFun (congrFun (laplacianRows_eq hbuilt.valid) i) j
    refine hentry.trans ?_
    fin_cases i <;> fin_cases j <;> simp [g, Graph.laplacianMatrix, Graph.laplacian,
      Graph.laplacianRow, Graph.nbrs, List.range_succ]
  have hscale : scale (start (φ := ℝ) g).l = 1 := by
    have hdiag : ∀ i, absF64 ((start (φ := ℝ) g).l i i) = 1 := by
      intro i
      rw [hl, if_pos rfl, absF64_eq, abs_one]
    simp only [scale, hdiag, maxF32_eq_max, one_lit]
    exact List.foldl_fixed' (fun _ => max_self 1) _
  obtain ⟨w, hw⟩ : ∃ w, jacobiTurn (le_refl 2) (1e-6 * scale (start (φ := ℝ) g).l) (start g) =
      some w := by
    obtain ⟨⟨m, p, q⟩, hmax⟩ : ∃ r, offDiagonalMax (le_refl 2) (start (φ := ℝ) g).l = r := ⟨_, rfl⟩
    have hle := (offDiagonalMax_spec (le_refl 2) _ hmax).2.2 0 1 Fin.zero_lt_one
    rw [hl, if_neg Fin.zero_ne_one, abs_neg, abs_one] at hle
    have hge : ¬ m < 1e-6 * scale (start (φ := ℝ) g).l := by
      rw [hscale, not_lt]
      exact le_trans (by norm_num) hle
    exact ⟨_, by rw [jacobiTurn, hmax]; exact if_neg hge⟩
  have hchain := (isChain_embed hbuilt (le_refl 2) JacobiConfig.relaxed hpos).1
  have hfirst : rotations (le_refl 2) (1e-6 * scale (start (φ := ℝ) g).l) 20000 (start g) =
      w :: rotations (le_refl 2) (1e-6 * scale (start (φ := ℝ) g).l) 19999 w := by
    rw [rotations, hw]
  have hchain' : List.IsChain (Rotates (le_refl 2) (g.laplacianMatrix ℝ)) (start g ::
      rotations (le_refl 2) (1e-6 * scale (start (φ := ℝ) g).l) 20000 (start g)) := hchain
  rw [hfirst, List.isChain_cons_cons] at hchain'
  exact ⟨g, le_refl 2, w, hbuilt, hw, hchain'.1⟩

/-! ## With enough turns -/

section
variable {laplacian : Matrix (Fin n) (Fin n) ℝ} {w w' : Work n ℝ} {absEpsilon : ℝ}

/-- A turn leaves a constant share of the squares off the diagonal. -/
theorem offSq_turn_le (hn : 2 ≤ n) (hε : 0 < absEpsilon) (hw : w.Holds laplacian)
    (h : jacobiTurn hn absEpsilon w = some w') :
    offSq (Matrix.of w'.l) ≤ share ℝ n * offSq (Matrix.of w.l) := by
  obtain ⟨p, q, c, s, hmax, -, -, hall, -, -⟩ := jacobiTurn_cases hn hε h
  have hlargest : ∀ i j, i ≠ j → Matrix.of w.l i j ^ 2 ≤ w.l p q ^ 2 := by
    intro i j hij
    rw [of_apply, sq_le_sq]
    rcases lt_or_gt_of_ne hij with hlt | hgt
    · exact hall i j hlt
    · have hji : w.l i j = w.l j i := hw.symm.apply j i
      rw [hji]
      exact hall j i hgt
  have hle := offSq_sub_le (by rwa [Fintype.card_fin]) hlargest
  rw [Fintype.card_fin] at hle
  rw [((rotates_of_turn hn hε hw h).eliminated _ p q hmax).2.2]
  exact hle

/-- The loop keeps what holds of the matrices; it converges, or the squares off the diagonal have
shrunk with every turn. -/
theorem jacobiLoop_spec (hn : 2 ≤ n) (hε : 0 < absEpsilon) (k : Nat) (hw : w.Holds laplacian) :
    (jacobiLoop hn absEpsilon k w).1.Holds laplacian ∧
      ((jacobiLoop hn absEpsilon k w).2 = true ∨
        offSq (Matrix.of (jacobiLoop hn absEpsilon k w).1.l) ≤
          share ℝ n ^ k * offSq (Matrix.of w.l)) := by
  induction k generalizing w with
  | zero =>
    rw [pow_zero, one_mul]
    exact ⟨hw, .inr (le_refl _)⟩
  | succ k ih =>
    rw [jacobiLoop]
    split
    · exact ⟨hw, .inl rfl⟩
    · next w' h =>
      have hturn := offSq_turn_le hn hε hw h
      obtain ⟨hholds, hcase⟩ := ih (rotates_of_turn hn hε hw h).toHolds
      refine ⟨hholds, hcase.imp_right fun hle => hle.trans ?_⟩
      rw [pow_succ, mul_assoc]
      exact mul_le_mul_of_nonneg_left hturn (pow_nonneg (share_nonneg hn) k)

end

/-- With enough turns the embedding succeeds. -/
theorem exists_embed {g : Graph} (h : g.Valid) (hn : 2 ≤ g.numNodes) {cfg : JacobiConfig ℝ}
    (hε : 0 < cfg.epsilon) (hsmall : cfg.epsilon ≤ 1e-3)
    (hturns : share ℝ g.numNodes ^ cfg.maxIterations * offSq (g.laplacianMatrix ℝ) <
      cfg.epsilon ^ 2) : ∃ e, embed g cfg = .ok e := by
  obtain ⟨σ, hσ⟩ : ∃ σ, scale (start (φ := ℝ) g).l = σ := ⟨_, rfl⟩
  have hσ1 : 1 ≤ σ := hσ ▸ one_le_scale _
  obtain ⟨⟨w, converged⟩, hloop⟩ : ∃ r,
      jacobiLoop hn (cfg.epsilon * σ) cfg.maxIterations (start (φ := ℝ) g) = r := ⟨_, rfl⟩
  obtain ⟨⟨m, p, q⟩, hmax⟩ : ∃ r, offDiagonalMax hn w.l = r := ⟨_, rfl⟩
  obtain ⟨-, hcase⟩ := jacobiLoop_spec hn (mul_pos hε (one_pos.trans_le hσ1)) cfg.maxIterations
    (start_holds h)
  rw [hloop] at hcase
  have hno : ¬ (converged = false ∧ 1e-3 < m / σ) := by
    rintro ⟨rfl, hlarge⟩
    obtain ⟨hlt, hm, -⟩ := offDiagonalMax_spec hn w.l hmax
    have hoff := hcase.resolve_left Bool.false_ne_true
    have hl : Matrix.of (start (φ := ℝ) g).l = g.laplacianMatrix ℝ := laplacianRows_eq h
    rw [hl] at hoff
    have hentry := sq_le_offSq (Matrix.of w.l) hlt.ne
    have hsq : m ^ 2 < cfg.epsilon ^ 2 := by
      rw [hm, sq_abs]
      exact (hentry.trans hoff).trans_lt hturns
    have hm0 : 0 ≤ m := hm ▸ abs_nonneg _
    have hlt' : m < cfg.epsilon := lt_of_pow_lt_pow_left₀ 2 hε.le hsq
    have hdiv : m / σ ≤ m := div_le_self hm0 hσ1
    linarith
  refine ⟨assemble cfg w, ?_⟩
  rw [embed, dif_neg (Nat.not_lt.mpr hn)]
  simp only [hσ, hloop, hmax]
  exact if_neg hno

/-! ## What is returned -/

/-- The pairs are in some order of their columns. -/
theorem exists_perm (l : Rows n ℝ) : ∃ σ : Equiv.Perm (Fin n),
    sortedPairs l = (List.finRange n).map fun j => (maxF32 (l (σ j) (σ j)) 0.0, σ j) := by
  have hperm : (sortedPairs l).Perm ((List.finRange n).map fun i => (maxF32 (l i i) 0.0, i)) :=
    List.mergeSort_perm _ _
  have hcols : ((sortedPairs l).map (·.2)).Nodup := by
    have hmap := hperm.map (·.2)
    rw [List.map_map, Function.comp_def, List.map_id'] at hmap
    exact hmap.nodup_iff.mpr (List.nodup_finRange n)
  have hlen : (sortedPairs l).length = n := by
    rw [hperm.length_eq, List.length_map, List.length_finRange]
  let pair : Fin n → ℝ × Fin n := fun j => (sortedPairs l).get (j.cast hlen.symm)
  have hpair : ∀ j, pair j = (maxF32 (l (pair j).2 (pair j).2) 0.0, (pair j).2) := by
    intro j
    have hmem := hperm.mem_iff.mp (List.get_mem (sortedPairs l) (j.cast hlen.symm))
    obtain ⟨i, -, hi⟩ := List.mem_map.mp hmem
    change pair j ∈ _ at hmem
    change _ = pair j at hi
    rw [← hi]
  have hinj : Function.Injective fun j => (pair j).2 := by
    intro j k hjk
    have hget := List.inj_on_of_nodup_map hcols
      (List.get_mem _ (j.cast hlen.symm)) (List.get_mem _ (k.cast hlen.symm)) hjk
    have hcast := (List.nodup_iff_injective_get.mp (List.Nodup.of_map _ hcols)) hget
    exact Fin.cast_injective _ hcast
  refine ⟨.ofBijective _ (Finite.injective_iff_bijective.mp hinj), ?_⟩
  refine List.ext_get (by rw [hlen, List.length_map, List.length_finRange]) fun j hj _ => ?_
  have hj' : j < n := hlen ▸ hj
  have heq := hpair ⟨j, hj'⟩
  simpa [pair] using heq

/-- What is returned has the columns of `u` in their order. -/
theorem entry_assemble {cfg : JacobiConfig ℝ} (hdims : cfg.dimensions = none) (w : Work n ℝ) :
    (assemble cfg w).numDims = n ∧
      ∃ σ : Equiv.Perm (Fin n), ∀ i j : Fin n, (assemble cfg w).entry i j = w.u i (σ j) := by
  have hnum : min (cfg.dimensions.getD n) n = n := by
    rw [hdims]
    exact min_self n
  obtain ⟨σ, hσ⟩ := exists_perm w.l
  refine ⟨hnum, σ, fun i j => ?_⟩
  rw [entry, assemble]
  simp only [hnum, hσ]
  simp [List.getD_eq_getElem?_getD]

/-- What a call that succeeds has computed. -/
theorem of_embed {g : Graph} {cfg : JacobiConfig ℝ} {e : SpectralEmbedding ℝ}
    (h : embed g cfg = .ok e) :
    ∃ (hn : 2 ≤ g.numNodes) (w : Work g.numNodes ℝ), e = assemble cfg w ∧
      (jacobiLoop hn (cfg.epsilon * scale (start (φ := ℝ) g).l) cfg.maxIterations (start g)).1 = w ∧
      (offDiagonalMax hn w.l).1 ≤ max cfg.epsilon 1e-3 * scale (start (φ := ℝ) g).l := by
  rw [embed] at h
  split at h
  · cases h
  · next hlt =>
    have hn : 2 ≤ g.numNodes := Nat.le_of_not_lt hlt
    obtain ⟨σ, hσ⟩ : ∃ σ, scale (start (φ := ℝ) g).l = σ := ⟨_, rfl⟩
    have hσ0 : 0 < σ := one_pos.trans_le (hσ ▸ one_le_scale _)
    obtain ⟨⟨w, converged⟩, hloop⟩ : ∃ r,
      jacobiLoop hn (cfg.epsilon * σ) cfg.maxIterations (start (φ := ℝ) g) = r := ⟨_, rfl⟩
    simp only [hσ, hloop] at h ⊢
    split at h
    · cases h
    · next hsmall =>
      refine ⟨hn, w, (Except.ok.inj h).symm, rfl, ?_⟩
      cases converged with
      | true =>
        have hlt := jacobiLoop_converged hn (cfg.epsilon * σ) cfg.maxIterations
          (w := start g) (by rw [hloop])
        rw [hloop] at hlt
        exact hlt.le.trans (mul_le_mul_of_nonneg_right (le_max_left _ _) hσ0.le)
      | false =>
        have hle := not_lt.mp fun hlarge => hsmall ⟨rfl, hlarge⟩
        rw [div_le_iff₀ hσ0] at hle
        exact hle.trans (mul_le_mul_of_nonneg_right (le_max_right _ _) hσ0.le)

/-- The rows of an embedding with all dimensions are orthonormal, and so are its columns. -/
theorem exists_orthogonal {g : Graph} {cfg : JacobiConfig ℝ} {e : SpectralEmbedding ℝ}
    (h : embed g cfg = .ok e) (hdims : cfg.dimensions = none) :
    2 ≤ g.numNodes ∧ e.numNodes = g.numNodes ∧ e.numDims = g.numNodes ∧
      ∃ v ∈ Matrix.orthogonalGroup (Fin g.numNodes) ℝ,
        ∀ i j : Fin g.numNodes, e.entry i j = v i j := by
  obtain ⟨hn, w, rfl, hw, -⟩ := of_embed h
  obtain ⟨hnum, σ, hσ⟩ := entry_assemble hdims w
  refine ⟨hn, rfl, hnum, (Matrix.of w.u).submatrix id σ, ?_, hσ⟩
  have horth : Matrix.of w.u ∈ Matrix.orthogonalGroup (Fin g.numNodes) ℝ :=
    hw ▸ orthogonal_jacobiLoop hn _ _ (start_u g ▸ one_mem _)
  rw [Matrix.mem_orthogonalGroup_iff] at horth ⊢
  rw [transpose_submatrix, submatrix_mul_equiv, horth, submatrix_one _ Function.injective_id]

/-- In the coordinates of these columns the Laplacian is nearly diagonal. -/
theorem exists_nearly_diagonal {g : Graph} (hvalid : g.Valid) {cfg : JacobiConfig ℝ}
    (hε : 0 < cfg.epsilon) {e : SpectralEmbedding ℝ} (h : embed g cfg = .ok e)
    (hdims : cfg.dimensions = none) :
    ∃ v d : Matrix (Fin g.numNodes) (Fin g.numNodes) ℝ,
      v ∈ Matrix.orthogonalGroup (Fin g.numNodes) ℝ ∧
      (∀ i j : Fin g.numNodes, e.entry i j = v i j) ∧ v * d * vᵀ = g.laplacianMatrix ℝ ∧
      ∀ i j, i ≠ j → |d i j| ≤ max cfg.epsilon 1e-3 * scale (start (φ := ℝ) g).l := by
  obtain ⟨hn, w, rfl, hw, hsmall⟩ := of_embed h
  obtain ⟨-, σ, hσ⟩ := entry_assemble hdims w
  have hσ0 : 0 < scale (start (φ := ℝ) g).l := one_pos.trans_le (one_le_scale _)
  obtain ⟨hholds, -⟩ := jacobiLoop_spec hn (mul_pos hε hσ0) cfg.maxIterations (start_holds hvalid)
  rw [hw] at hholds
  refine ⟨(Matrix.of w.u).submatrix id σ, (Matrix.of w.l).submatrix σ σ, ?_, hσ, ?_, ?_⟩
  · have horth := hholds.orthogonal
    rw [Matrix.mem_orthogonalGroup_iff] at horth ⊢
    rw [transpose_submatrix, submatrix_mul_equiv, horth, submatrix_one _ Function.injective_id]
  · rw [transpose_submatrix, submatrix_mul_equiv, submatrix_mul_equiv, hholds.product,
      submatrix_id_id]
  · intro i j hij
    obtain ⟨⟨m, p, q⟩, hmax⟩ : ∃ r, offDiagonalMax hn w.l = r := ⟨_, rfl⟩
    obtain ⟨-, -, hall⟩ := offDiagonalMax_spec hn w.l hmax
    rw [hmax] at hsmall
    rw [submatrix_apply, of_apply]
    rcases lt_or_gt_of_ne (σ.injective.ne hij) with hlt | hgt
    · exact (hall _ _ hlt).trans hsmall
    · have hji : w.l (σ i) (σ j) = w.l (σ j) (σ i) := hholds.symm.apply (σ j) (σ i)
      rw [hji]
      exact (hall _ _ hgt).trans hsmall

end SpectralEmbedding

end ActiveDefense.Spectral
