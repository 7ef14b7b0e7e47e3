import ActiveDefense.Lib.PowerIteration
import ActiveDefense.Spectral.Regularizer
import Mathlib.Analysis.Matrix.Spectrum
import Mathlib.Analysis.SpecialFunctions.Trigonometric.Bounds

/-!
# The estimate of the second eigenvalue

Over the real numbers the builders make matrices that are symmetric and whose rows sum up to one
number (`Balanced`). Such a matrix keeps the vectors that sum up to zero, so the projections of
`fiedler_power_iter` do nothing after the first one, and its loop is the power iteration of the
matrix shifted by 10 (`toLp_powerTurn`). What it estimates is a quotient of moments of the start
vector (`fiedlerPowerIter_of_normalises`), unless the iteration never normalises.
-/

namespace ActiveDefense.Spectral

variable {n : Nat}

/-! ## Sums -/

theorem total_eq_sum (v : Fin n → ℝ) : total v = ∑ i, v i := by
  have hzero : (0.0 : ℝ) = 0 := by norm_num
  rw [total, hzero, ← List.sum_eq_foldl, List.sum_ofFn]

theorem dot_eq_sum (v w : Fin n → ℝ) : dot v w = ∑ i, v i * w i := total_eq_sum _

theorem ten_eq : (10.0 : ℝ) = 10 := by norm_num

/-! ## The matrices -/

/-- The indicator of a node. -/
def unit (u : Fin n) : Fin n → ℝ := fun i => if i = u then 1 else 0

theorem setAt_add (l : Rows n ℝ) (i j : Fin n) (w : ℝ) (a b : Fin n) :
    setAt l i j (· + w) a b = l a b + w * (unit i a * unit j b) := by
  rw [setAt_apply, unit, unit]
  by_cases ha : a = i <;> by_cases hb : b = j <;> simp [ha, hb]

theorem setAt_sub (l : Rows n ℝ) (i j : Fin n) (w : ℝ) (a b : Fin n) :
    setAt l i j (· - w) a b = l a b - w * (unit i a * unit j b) := by
  rw [setAt_apply, unit, unit]
  by_cases ha : a = i <;> by_cases hb : b = j <;> simp [ha, hb]

/-- The vector of an edge: an edge adds its weight times the products of the entries. -/
def ends (u v : Fin n) : Fin n → ℝ := fun i => unit u i - unit v i

theorem addWeight_apply (l : Rows n ℝ) (u v : Fin n) (w : ℝ) (i j : Fin n) :
    addWeight l u v w i j = l i j + w * (ends u v i * ends u v j) := by
  simp only [addWeight, setAt_add, setAt_sub, ends]
  ring

theorem sum_ends (u v : Fin n) : ∑ i, ends u v i = 0 := by
  simp [ends, unit, Finset.sum_sub_distrib]

theorem sum_ends_mul (u v : Fin n) (x : Fin n → ℝ) : ∑ i, ends u v i * x i = x u - x v := by
  simp [ends, unit, sub_mul, Finset.sum_sub_distrib]

/-- A symmetric matrix whose rows sum up to `ε`. -/
structure Balanced (ε : ℝ) (l : Rows n ℝ) : Prop where
  symm : ∀ i j, l i j = l j i
  sum_row : ∀ i, ∑ j, l i j = ε

/-- The quadratic form of a matrix. -/
noncomputable def form (l : Rows n ℝ) (x : Fin n → ℝ) : ℝ := dot x fun i => dot (l i) x

theorem Balanced.addWeight {ε : ℝ} {l : Rows n ℝ} (h : Balanced ε l) (u v : Fin n) (w : ℝ) :
    Balanced ε (addWeight l u v w) where
  symm i j := by
    rw [addWeight_apply, addWeight_apply, h.symm, mul_comm (ends u v i)]
  sum_row i := by
    simp only [addWeight_apply, Finset.sum_add_distrib, h.sum_row, ← Finset.mul_sum, sum_ends]
    ring

theorem dot_addWeight (l : Rows n ℝ) (u v : Fin n) (w : ℝ) (x : Fin n → ℝ) (i : Fin n) :
    dot (addWeight l u v w i) x = dot (l i) x + w * ends u v i * (x u - x v) := by
  rw [dot_eq_sum, dot_eq_sum, ← sum_ends_mul, Finset.mul_sum, ← Finset.sum_add_distrib]
  refine Finset.sum_congr rfl fun j _ => ?_
  rw [addWeight_apply]
  ring

theorem form_addWeight (l : Rows n ℝ) (u v : Fin n) (w : ℝ) (x : Fin n → ℝ) :
    form (addWeight l u v w) x = form l x + w * (x u - x v) ^ 2 := by
  have hcol : ∑ i, x i * (w * ends u v i * (x u - x v)) = w * (x u - x v) ^ 2 := by
    calc ∑ i, x i * (w * ends u v i * (x u - x v))
        = ∑ i, w * (x u - x v) * (ends u v i * x i) := by
          refine Finset.sum_congr rfl fun i _ => ?_
          ring
      _ = w * (x u - x v) ^ 2 := by
          rw [← Finset.mul_sum, sum_ends_mul]
          ring
  simp only [form, dot_eq_sum x, dot_addWeight, mul_add, Finset.sum_add_distrib, hcol]

/-- Adding edges keeps a matrix balanced; with weights that are not negative, its form grows. -/
theorem Balanced.foldl {α : Type} {ε : ℝ} {u v : α → Fin n} {w : α → ℝ} (edges : List α)
    {l : Rows n ℝ} (h : Balanced ε l) :
    Balanced ε (edges.foldl (fun l edge => Spectral.addWeight l (u edge) (v edge) (w edge)) l) := by
  induction edges generalizing l with
  | nil => exact h
  | cons edge edges ih => exact ih (h.addWeight _ _ _)

theorem form_le_foldl {α : Type} {u v : α → Fin n} {w : α → ℝ} {edges : List α}
    (hw : ∀ edge ∈ edges, 0 ≤ w edge) (l : Rows n ℝ) (x : Fin n → ℝ) :
    form l x ≤
      form (edges.foldl (fun l edge => addWeight l (u edge) (v edge) (w edge)) l) x := by
  induction edges generalizing l with
  | nil => exact le_refl _
  | cons edge edges ih =>
    calc form l x ≤ form (addWeight l (u edge) (v edge) (w edge)) x := by
          rw [form_addWeight]
          have hsq := sq_nonneg (x (u edge) - x (v edge))
          have hedge := mul_nonneg (hw edge List.mem_cons_self) hsq
          linarith
      _ ≤ _ := ih (fun e he => hw e (List.mem_cons_of_mem _ he)) _

theorem balanced_zero : Balanced 0 (fun _ _ : Fin n => (0.0 : ℝ)) where
  symm _ _ := rfl
  sum_row i := by norm_num

theorem dot_zero (x : Fin n → ℝ) : dot (fun _ => (0.0 : ℝ)) x = 0 := by
  rw [dot_eq_sum]
  norm_num

theorem form_zero (x : Fin n → ℝ) : form (fun _ _ : Fin n => (0.0 : ℝ)) x = 0 := by
  simp only [form, dot_zero, dot_eq_sum x, mul_zero, Finset.sum_const_zero]

theorem Balanced.addDiagonal {l : Rows n ℝ} (h : Balanced 0 l) (ε : ℝ) :
    Balanced ε (addDiagonal l ε) where
  symm i j := by
    rw [Spectral.addDiagonal, Spectral.addDiagonal, h.symm]
    simp only [eq_comm]
  sum_row i := by
    have hsplit : ∀ j, Spectral.addDiagonal l ε i j = l i j + if i = j then ε else 0 := by
      intro j
      rw [Spectral.addDiagonal]
      split <;> simp
    simp [hsplit, Finset.sum_add_distrib, h.sum_row]

theorem dot_addDiagonal (l : Rows n ℝ) (ε : ℝ) (x : Fin n → ℝ) (i : Fin n) :
    dot (addDiagonal l ε i) x = dot (l i) x + ε * x i := by
  have hsplit : ∀ j, addDiagonal l ε i j * x j = l i j * x j + if i = j then ε * x j else 0 := by
    intro j
    rw [addDiagonal]
    split <;> ring
  simp [dot_eq_sum, hsplit, Finset.sum_add_distrib]

theorem form_addDiagonal (l : Rows n ℝ) (ε : ℝ) (x : Fin n → ℝ) :
    form (addDiagonal l ε) x = form l x + ε * ∑ i, x i ^ 2 := by
  simp only [form, dot_eq_sum x, dot_addDiagonal, mul_add, Finset.sum_add_distrib, Finset.mul_sum]
  refine congrArg (_ + ·) (Finset.sum_congr rfl fun i _ => ?_)
  ring

/-! ## The loop -/

/-- The operator of a matrix. -/
noncomputable def operator (l : Rows n ℝ) :
    EuclideanSpace ℝ (Fin n) →ₗ[ℝ] EuclideanSpace ℝ (Fin n) :=
  Matrix.toEuclideanLin (Matrix.of l)

theorem operator_toLp (l : Rows n ℝ) (x : Fin n → ℝ) :
    operator l (WithLp.toLp 2 x) = WithLp.toLp 2 fun i => dot (l i) x := by
  simp only [dot_eq_sum]
  rfl

theorem inner_toLp (x y : Fin n → ℝ) :
    inner ℝ (WithLp.toLp 2 x) (WithLp.toLp 2 y) = dot x y := by
  rw [dot_eq_sum, PiLp.inner_apply]
  simp [mul_comm]

theorem inner_operator (l : Rows n ℝ) (x : EuclideanSpace ℝ (Fin n)) :
    inner ℝ x (operator l x) = form l x := by
  rw [form, ← inner_toLp, ← operator_toLp]

theorem norm_toLp (x : Fin n → ℝ) : ‖WithLp.toLp 2 x‖ = √(total fun i => x i * x i) := by
  rw [EuclideanSpace.norm_eq, total_eq_sum]
  simp [sq]

theorem toLp_normalize (x : Fin n → ℝ) :
    WithLp.toLp 2 (normalize x) = scaleAbove 1e-10 (WithLp.toLp 2 x) := by
  rw [scaleAbove, norm_toLp]
  change WithLp.toLp 2 (if (1e-10 : ℝ) < √(total fun i => x i * x i) then _ else _) = _
  split
  · rw [← WithLp.toLp_smul]
    refine congrArg (WithLp.toLp 2) (funext fun i => ?_)
    rw [Pi.smul_apply, smul_eq_mul, inv_mul_eq_div]
    rfl
  · rfl

theorem sum_normalize {x : Fin n → ℝ} (hx : ∑ i, x i = 0) : ∑ i, normalize x i = 0 := by
  rw [normalize]
  split
  · rw [← Finset.sum_div, hx, zero_div]
  · exact hx

theorem projectOut_apply (hn : 0 < n) (x : Fin n → ℝ) (i : Fin n) :
    projectOut x i = x i - (∑ j, x j) / n := by
  have hsq : √(n : ℝ) * √(n : ℝ) = n := Real.mul_self_sqrt (Nat.cast_nonneg n)
  have hpos : 0 < √(n : ℝ) := Real.sqrt_pos.mpr (Nat.cast_pos.mpr hn)
  have hscale : invSqrtN n ℝ = 1 / √(n : ℝ) := by
    change (1.0 : ℝ) / √(n : ℝ) = _
    norm_num
  rw [projectOut, total_eq_sum, hscale, mul_assoc, one_div, ← mul_inv, hsq, div_eq_mul_inv]

theorem sum_projectOut (hn : 0 < n) (x : Fin n → ℝ) : ∑ i, projectOut x i = 0 := by
  have hcast : (n : ℝ) ≠ 0 := Nat.cast_ne_zero.mpr hn.ne'
  simp [projectOut_apply hn, Finset.sum_sub_distrib, mul_div_cancel₀ _ hcast]

theorem projectOut_of_sum_eq_zero {x : Fin n → ℝ} (hx : ∑ i, x i = 0) : projectOut x = x := by
  funext i
  rw [projectOut, total_eq_sum, hx, zero_mul, zero_mul]
  exact sub_zero _

theorem Balanced.sum_apply {ε : ℝ} {l : Rows n ℝ} (h : Balanced ε l) (x : Fin n → ℝ) :
    ∑ i, dot (l i) x = ε * ∑ i, x i := by
  simp only [dot_eq_sum]
  rw [Finset.sum_comm, Finset.mul_sum]
  refine Finset.sum_congr rfl fun j _ => ?_
  rw [← Finset.sum_mul, ← h.sum_row j]
  simp only [h.symm j]

/-- A turn is a step of the power iteration of the shifted matrix. -/
theorem toLp_powerTurn {ε : ℝ} {l : Rows n ℝ} (h : Balanced ε l) {x : Fin n → ℝ}
    (hx : ∑ i, x i = 0) :
    WithLp.toLp 2 (powerTurn l x) =
        powerStep 1e-10 (shifted 10 (operator l)) (WithLp.toLp 2 x) ∧
      ∑ i, powerTurn l x i = 0 := by
  have hsum : ∑ i, ((10.0 : ℝ) * x i - dot (l i) x) = 0 := by
    rw [Finset.sum_sub_distrib, h.sum_apply, ← Finset.mul_sum, hx, mul_zero, mul_zero, sub_zero]
  have hturn : powerTurn l x = normalize fun i => (10.0 : ℝ) * x i - dot (l i) x :=
    congrArg normalize (projectOut_of_sum_eq_zero hsum)
  rw [hturn]
  refine ⟨?_, sum_normalize hsum⟩
  rw [toLp_normalize, powerStep, shifted_apply, operator_toLp, ten_eq]
  rfl

/-! ## The start -/

/-- The unit vector that the loop starts with. -/
noncomputable def unitStart (n : Nat) : EuclideanSpace ℝ (Fin n) :=
  WithLp.toLp _ (normalize (projectOut (startVector n ℝ)))

theorem sin_step : (0.1 : ℝ) < Real.sin 1.37 - Real.sin 1 := by
  have hsin : (0.18 : ℝ) < Real.sin 0.185 := by
    have hcube := Real.sin_gt_sub_cube (x := (0.185 : ℝ)) (by norm_num)
    linarith
  have hcos : (0.29 : ℝ) ≤ Real.cos 1.185 := by
    have hsq := Real.one_sub_sq_div_two_le_cos (x := (1.185 : ℝ))
    linarith
  calc (0.1 : ℝ) < 2 * 0.18 * 0.29 := by norm_num
    _ ≤ 2 * Real.sin 0.185 * Real.cos 1.185 := by gcongr
    _ = Real.sin 1.37 - Real.sin 1 := by
      rw [Real.sin_sub_sin]
      norm_num

/-- Two entries of a vector are no further apart than twice its length. -/
theorem sub_le_norm (x : Fin n → ℝ) (i j : Fin n) : x i - x j ≤ 2 * ‖WithLp.toLp 2 x‖ := by
  have hi := PiLp.norm_apply_le (WithLp.toLp 2 x) i
  have hj := PiLp.norm_apply_le (WithLp.toLp 2 x) j
  have habs := abs_sub (x i) (x j)
  have hle := le_abs_self (x i - x j)
  simp only [Real.norm_eq_abs] at hi hj
  linarith

/-- The first two entries are apart. -/
theorem projectOut_start_step (hn : 2 ≤ n) :
    0.1 < projectOut (startVector n ℝ) ⟨1, hn⟩ - projectOut (startVector n ℝ) ⟨0, by omega⟩ := by
  have hentry : ∀ i : Fin n, startVector n ℝ i = Real.sin (i.val * 0.37 + 1.0) := fun _ => rfl
  have hstep := sin_step
  rw [projectOut_apply (by omega), projectOut_apply (by omega), hentry, hentry]
  norm_num at hstep ⊢
  exact hstep

theorem norm_projectOut_start (hn : 2 ≤ n) :
    (0.05 : ℝ) < ‖WithLp.toLp 2 (projectOut (startVector n ℝ))‖ := by
  have hstep := projectOut_start_step hn
  have hnorm := sub_le_norm (projectOut (startVector n ℝ)) ⟨1, hn⟩ ⟨0, by omega⟩
  linarith

/-- The entries are not long. -/
theorem abs_projectOut_start_le (hn : 0 < n) (i : Fin n) :
    |projectOut (startVector n ℝ) i| ≤ 2 := by
  have hcast : (0 : ℝ) < n := Nat.cast_pos.mpr hn
  have hone : ∀ j, |startVector n ℝ j| ≤ 1 := fun j => Real.abs_sin_le_one _
  have hmean : |(∑ j, startVector n ℝ j) / n| ≤ 1 := by
    rw [abs_div, abs_of_pos hcast, div_le_one hcast]
    calc |∑ j, startVector n ℝ j| ≤ ∑ j, |startVector n ℝ j| := Finset.abs_sum_le_sum_abs _ _
      _ ≤ ∑ _ : Fin n, 1 := Finset.sum_le_sum fun j _ => hone j
      _ = n := by simp
  have hdiff := abs_sub (startVector n ℝ i) ((∑ j, startVector n ℝ j) / n)
  have hi := hone i
  rw [projectOut_apply hn]
  linarith

theorem norm_sq_projectOut_start_le (hn : 0 < n) :
    ‖WithLp.toLp 2 (projectOut (startVector n ℝ))‖ ^ 2 ≤ 4 * n := by
  rw [EuclideanSpace.real_norm_sq_eq]
  calc ∑ i, projectOut (startVector n ℝ) i ^ 2 ≤ ∑ _ : Fin n, (4 : ℝ) := by
        refine Finset.sum_le_sum fun i _ => ?_
        have habs := abs_le.mp (abs_projectOut_start_le hn i)
        have hsq := sq_le_sq' habs.1 habs.2
        norm_num at hsq ⊢
        exact hsq
    _ = 4 * n := by simp [mul_comm]

theorem unitStart_eq (hn : 2 ≤ n) :
    unitStart n = ‖WithLp.toLp 2 (projectOut (startVector n ℝ))‖⁻¹ •
      WithLp.toLp 2 (projectOut (startVector n ℝ)) := by
  have habove : (1e-10 : ℝ) < ‖WithLp.toLp 2 (projectOut (startVector n ℝ))‖ := by
    refine lt_trans ?_ (norm_projectOut_start hn)
    norm_num
  rw [unitStart, toLp_normalize, scaleAbove, if_pos habove]

theorem norm_unitStart (hn : 2 ≤ n) : ‖unitStart n‖ = 1 := by
  have hlong := norm_projectOut_start hn
  have hpos : 0 < ‖WithLp.toLp 2 (projectOut (startVector n ℝ))‖ := by linarith
  rw [unitStart_eq hn, norm_scale hpos, div_self hpos.ne']

/-- The loop is the power iteration. -/
theorem toLp_powerTurn_iterate (hn : 0 < n) {ε : ℝ} {l : Rows n ℝ} (h : Balanced ε l) (k : Nat) :
    WithLp.toLp 2 ((powerTurn l)^[k] (normalize (projectOut (startVector n ℝ)))) =
        (powerStep 1e-10 (shifted 10 (operator l)))^[k] (unitStart n) ∧
      ∑ i, (powerTurn l)^[k] (normalize (projectOut (startVector n ℝ))) i = 0 := by
  induction k with
  | zero => exact ⟨rfl, sum_normalize (sum_projectOut hn _)⟩
  | succ k ih =>
    obtain ⟨hstep, hsum⟩ := toLp_powerTurn h ih.2
    rw [Function.iterate_succ_apply', Function.iterate_succ_apply', hstep, ih.1]
    exact ⟨rfl, hsum⟩

theorem fiedlerPowerIter_eq (hn : 0 < n) {ε : ℝ} {l : Rows n ℝ} (h : Balanced ε l) (k : Nat) :
    let w := (powerStep 1e-10 (shifted 10 (operator l)))^[k] (unitStart n)
    (fiedlerPowerIter l k).1 = max (inner ℝ w (operator l w)) 0 := by
  intro w
  have hzero : (0.0 : ℝ) = 0 := by norm_num
  have hw : w = _ := (toLp_powerTurn_iterate hn h k).1.symm
  rw [hw, operator_toLp, inner_toLp, fiedlerPowerIter, maxF32_eq_max, hzero]

/-! ## In a basis of eigenvectors -/

section
variable {ε : ℝ} {l : Rows n ℝ}

theorem Balanced.exists_eigenbasis (h : Balanced ε l) :
    Nonempty (Eigenbasis (operator l) (Fin n)) := by
  have hl : (Matrix.of l).IsHermitian := Matrix.IsHermitian.ext fun i j => h.symm j i
  refine ⟨⟨hl.eigenvectorBasis, hl.eigenvalues, fun j => ?_⟩⟩
  rw [operator, Matrix.toLpLin_apply, hl.mulVec_eigenvectorBasis]
  rfl

variable (e : Eigenbasis (operator l) (Fin n))

theorem value_eq_form (j : Fin n) : e.value j = form l (e.basis j) := by
  rw [← inner_operator, e.inner_basis_apply, real_inner_self_eq_norm_sq, e.basis.norm_eq_one,
    one_pow, mul_one]

theorem sum_sq_basis (j : Fin n) : ∑ i, e.basis j i ^ 2 = 1 := by
  rw [← EuclideanSpace.real_norm_sq_eq, e.basis.norm_eq_one, one_pow]

/-- A lower bound of the quadratic form bounds the eigenvalues. -/
theorem le_value (hform : ∀ x : Fin n → ℝ, ε * ∑ i, x i ^ 2 ≤ form l x) (j : Fin n) :
    ε ≤ e.value j := by
  have hle := hform (e.basis j)
  rwa [sum_sq_basis, mul_one, ← value_eq_form] at hle

/-- The iteration of the estimate scales at all, in `k` turns. -/
def Normalises (k : Nat) : Prop := e.Scales 1e-10 10.0 (unitStart n) k

/-- The eigenvalues, each as heavy as `k` turns make it. -/
noncomputable def weighed (k : Nat) : ℝ :=
  e.moment (unitStart n) fun x => (10.0 - x) ^ (2 * k) * x

/-- The weights of the eigenvalues after `k` turns. -/
noncomputable def weights (k : Nat) : ℝ := e.moment (unitStart n) fun x => (10.0 - x) ^ (2 * k)

theorem normalises_iff (k : Nat) : Normalises e k ↔ e.Scales 1e-10 10 (unitStart n) k := by
  rw [Normalises, ten_eq]

theorem weighed_eq (k : Nat) :
    weighed e k = e.moment (unitStart n) fun x => (10 - x) ^ (2 * k) * x := by
  rw [weighed, ten_eq]

theorem weights_eq (k : Nat) :
    weights e k = e.moment (unitStart n) fun x => (10 - x) ^ (2 * k) := by
  rw [weights, ten_eq]

theorem weights_pos (hn : 2 ≤ n) {k : Nat} (hk : Normalises e k) : 0 < weights e k :=
  e.moment_pos_of_scales (by norm_num) (norm_unitStart hn) hk

/-- An iteration that lengthens every eigenvector normalises. -/
theorem normalises_of_forall (hn : 2 ≤ n) (h : ∀ j, 1 ≤ (10 - e.value j) ^ 2) (k : Nat) :
    Normalises e k := by
  have hone : e.moment (unitStart n) (fun _ => 1) = 1 := by
    rw [e.moment_one, norm_unitStart hn, one_pow]
  have hle := e.moment_le (f := fun _ => 1) (g := fun x => (10 - x) ^ 2) h (unitStart n)
  refine (normalises_iff e k).mpr (.inl (lt_of_lt_of_le ?_ hle))
  rw [hone]
  norm_num

theorem fiedlerPowerIter_of_normalises (hn : 2 ≤ n) (h : Balanced ε l) {k : Nat}
    (hk : Normalises e (k + 1)) :
    (fiedlerPowerIter l (k + 1)).1 = max (weighed e (k + 1) / weights e (k + 1)) 0 := by
  rw [fiedlerPowerIter_eq (by omega) h, weighed_eq, weights_eq]
  congr 1
  exact (e.inner_powerStep_iterate (by norm_num) (by norm_num) (norm_unitStart hn) 10 k).1
    ((normalises_iff e _).mp hk)

theorem fiedlerPowerIter_of_not_normalises (hn : 2 ≤ n) (h : Balanced ε l) {k : Nat}
    (hk : ¬ Normalises e (k + 1)) :
    (fiedlerPowerIter l (k + 1)).1 = max (weighed e (k + 1)) 0 := by
  rw [fiedlerPowerIter_eq (by omega) h, weighed_eq]
  congr 1
  exact (e.inner_powerStep_iterate (by norm_num) (by norm_num) (norm_unitStart hn) 10 k).2
    ((normalises_iff e _).not.mp hk)

end

/-! ## Where the start vector is an eigenvector -/

section
variable {ε μ : ℝ} {l : Rows n ℝ}

theorem iterate_of_fixed {α : Type*} {f : α → α} {x : α} (h : f x = x) (k : Nat) : f^[k] x = x :=
  Function.IsFixedPt.iterate h k

theorem fiedlerPowerIter_of_eigenvector (hn : 2 ≤ n) (h : Balanced ε l)
    (hstart : operator l (unitStart n) = μ • unitStart n) (h0 : 0 ≤ μ) (hμ : 1e-10 < 10 - μ)
    (k : Nat) : (fiedlerPowerIter l k).1 = μ := by
  have hunit := norm_unitStart hn
  have hpos : 0 < 10 - μ := by
    refine lt_trans ?_ hμ
    norm_num
  have hshifted : shifted 10 (operator l) (unitStart n) = (10 - μ) • unitStart n := by
    rw [shifted_apply, hstart, sub_smul]
  have hnorm : ‖(10 - μ) • unitStart n‖ = 10 - μ := by
    rw [norm_smul, hunit, mul_one, Real.norm_of_nonneg hpos.le]
  have hfixed : powerStep 1e-10 (shifted 10 (operator l)) (unitStart n) = unitStart n := by
    rw [powerStep, hshifted, scaleAbove, hnorm, if_pos hμ, smul_smul, inv_mul_cancel₀ hpos.ne',
      one_smul]
  rw [fiedlerPowerIter_eq (by omega) h, iterate_of_fixed hfixed, hstart, real_inner_smul_right,
    real_inner_self_eq_norm_sq, hunit, one_pow, mul_one, max_eq_left h0]

/-- The shift leaves nothing of an eigenvector of the eigenvalue 10. -/
theorem fiedlerPowerIter_of_ten (hn : 0 < n) (h : Balanced ε l)
    (hstart : operator l (unitStart n) = (10 : ℝ) • unitStart n) (k : Nat) :
    (fiedlerPowerIter l (k + 1)).1 = 0 := by
  have hshifted : shifted 10 (operator l) (unitStart n) = 0 := by
    rw [shifted_apply, hstart, sub_self]
  have hzero : ∀ x : EuclideanSpace ℝ (Fin n), shifted 10 (operator l) x = 0 →
      powerStep 1e-10 (shifted 10 (operator l)) x = 0 := by
    intro x hx
    rw [powerStep, hx, scaleAbove]
    simp
  rw [fiedlerPowerIter_eq hn h, Function.iterate_succ_apply, hzero _ hshifted,
    iterate_of_fixed (hzero 0 (map_zero _)), inner_zero_left, max_self]

/-- With two nodes there is one direction to start in. -/
theorem operator_two {l : Rows 2 ℝ} (h : Balanced ε l) :
    operator l (unitStart 2) = (ε - 2 * l 0 1) • unitStart 2 := by
  have hsum := sum_normalize (sum_projectOut two_pos (startVector 2 ℝ))
  have h0 := h.sum_row 0
  have h1 := h.sum_row 1
  have hsymm := h.symm 1 0
  rw [Fin.sum_univ_two] at hsum h0 h1
  rw [unitStart, operator_toLp, ← WithLp.toLp_smul]
  refine congrArg (WithLp.toLp 2) (funext fun i => ?_)
  have hlast := eq_neg_of_add_eq_zero_right hsum
  have h00 := eq_sub_of_add_eq h0
  have h11 := eq_sub_of_add_eq' h1
  match i with
  | 0 =>
    rw [dot_eq_sum, Fin.sum_univ_two, hlast, h00, Pi.smul_apply, smul_eq_mul]
    ring
  | 1 =>
    rw [dot_eq_sum, Fin.sum_univ_two, Pi.smul_apply, hlast, h11, hsymm, smul_eq_mul]
    ring

end

end ActiveDefense.Spectral
