import Mathlib.Algebra.Order.BigOperators.Ring.Finset
import Mathlib.Algebra.Order.Field.Basic
import Mathlib.LinearAlgebra.Matrix.Symmetric
import Mathlib.LinearAlgebra.Matrix.Trace
import Mathlib.Tactic.LinearCombination
import Mathlib.Tactic.Linarith
import Mathlib.Tactic.Module

/-!
# Rotations of a symmetric matrix

`plane p q c s` turns the coordinates `p` and `q` and leaves the others. To rotate a symmetric
matrix by it keeps the sum of the squares of its entries, so where the rotation makes the entry at
`p` and `q` zero, the squares off the diagonal lose those of this entry (`offSq_rotate`). When the
entry is the largest one off the diagonal, they shrink by a constant factor (`offSq_sub_le`). What a
matrix looks like that is nearly diagonal in orthonormal coordinates is seen from its square
(`abs_mul_self_apply_le`).
-/

namespace ActiveDefense.Rotation

open Matrix

variable {ι K : Type*} [Fintype ι] [DecidableEq ι] [CommRing K]

/-- The rotation of the plane of two coordinates. -/
def plane (p q : ι) (c s : K) : Matrix ι ι K := fun i j =>
  if j = p then if i = p then c else if i = q then -s else 0
  else if j = q then if i = p then s else if i = q then c else 0
  else if i = j then 1 else 0

variable {p q : ι} {c s : K}

/-- A product with a rotation: two columns are combined. -/
theorem mul_plane_apply (hpq : p ≠ q) (m : Matrix ι ι K) (i j : ι) :
    (m * plane p q c s) i j =
      if j = p then c * m i p - s * m i q
      else if j = q then s * m i p + c * m i q else m i j := by
  rw [mul_apply]
  split
  · next hj =>
    subst hj
    rw [Fintype.sum_eq_add j q hpq fun k hk => by simp [plane, hk.1, hk.2]]
    simp [plane, hpq.symm]
    ring
  · next hjp =>
    split
    · next hj =>
      subst hj
      rw [Fintype.sum_eq_add p j hpq fun k hk => by simp [plane, hjp, hk.1, hk.2]]
      simp [plane, hjp]
      ring
    · next hjq =>
      rw [Fintype.sum_eq_single j fun k hk => by simp [plane, hjp, hjq, hk]]
      simp [plane, hjp, hjq]

omit [Fintype ι] in
theorem plane_transpose (hpq : p ≠ q) : (plane p q c s)ᵀ = plane p q c (-s) := by
  have hqp := hpq.symm
  ext i j
  rw [transpose_apply, plane, plane]
  grind

/-- The columns of a rotation are orthonormal. -/
theorem plane_mul_transpose (hpq : p ≠ q) (h : c * c + s * s = 1) :
    plane p q c s * (plane p q c s)ᵀ = 1 := by
  rw [plane_transpose hpq]
  ext i j
  rw [mul_plane_apply hpq, one_apply, plane, plane, plane]
  grind

/-! ## A rotated matrix -/

/-- The matrix in the rotated coordinates. -/
def rotate (p q : ι) (c s : K) (l : Matrix ι ι K) : Matrix ι ι K :=
  (plane p q c s)ᵀ * l * plane p q c s

variable {l : Matrix ι ι K}

theorem rotate_isSymm (hl : l.IsSymm) : (rotate p q c s l).IsSymm := by
  rw [Matrix.IsSymm, rotate, transpose_mul, transpose_mul, transpose_transpose, hl.eq,
    Matrix.mul_assoc]

/-- The entries of a symmetric matrix that is rotated. -/
theorem rotate_apply (hpq : p ≠ q) (hl : l.IsSymm) (i j : ι) :
    rotate p q c s l i j =
      if j = p then c * (l * plane p q c s) p i - s * (l * plane p q c s) q i
      else if j = q then s * (l * plane p q c s) p i + c * (l * plane p q c s) q i
      else (l * plane p q c s) j i := by
  have hleft : ∀ k, ((plane p q c s)ᵀ * l) i k = (l * plane p q c s) k i := by
    intro k
    rw [← transpose_apply (l * plane p q c s), transpose_mul, hl.eq]
  rw [rotate, mul_plane_apply hpq, hleft, hleft, hleft]

/-- The product of three matrices is kept. -/
theorem mul_rotate_mul (hpq : p ≠ q) (h : c * c + s * s = 1) (u l : Matrix ι ι K) :
    u * plane p q c s * rotate p q c s l * (u * plane p q c s)ᵀ = u * l * uᵀ := by
  have hone := plane_mul_transpose hpq h
  calc u * plane p q c s * rotate p q c s l * (u * plane p q c s)ᵀ
      = u * (plane p q c s * (plane p q c s)ᵀ) * l * (plane p q c s * (plane p q c s)ᵀ) * uᵀ := by
        rw [rotate, transpose_mul]
        simp only [Matrix.mul_assoc]
    _ = u * l * uᵀ := by rw [hone, Matrix.mul_one, Matrix.mul_one]

/-! ## The squares off the diagonal -/

/-- The sum of the squares of the entries. -/
def sumSq (l : Matrix ι ι K) : K := ∑ i, ∑ j, l i j ^ 2

/-- The sum of the squares of the entries off the diagonal. -/
def offSq (l : Matrix ι ι K) : K := ∑ i, ∑ j, if i = j then 0 else l i j ^ 2

theorem offSq_add (l : Matrix ι ι K) : offSq l + ∑ i, l i i ^ 2 = sumSq l := by
  rw [offSq, sumSq, ← Finset.sum_add_distrib]
  refine Finset.sum_congr rfl fun i _ => ?_
  have hdiag : l i i ^ 2 = ∑ j, if i = j then l i j ^ 2 else 0 := by
    rw [Finset.sum_ite_eq, if_pos (Finset.mem_univ i)]
  rw [hdiag, ← Finset.sum_add_distrib]
  refine Finset.sum_congr rfl fun j _ => ?_
  split
  · rw [zero_add]
  · rw [add_zero]

omit [DecidableEq ι] in
theorem sumSq_eq_trace (l : Matrix ι ι K) : sumSq l = (l * lᵀ).trace := by
  simp only [sumSq, trace, diag_apply, mul_apply, transpose_apply, sq]

/-- Other orthonormal coordinates keep it. -/
theorem sumSq_conj (hv : vᵀ * v = 1) (d : Matrix ι ι K) : sumSq (v * d * vᵀ) = sumSq d := by
  rw [sumSq_eq_trace, sumSq_eq_trace]
  calc (v * d * vᵀ * (v * d * vᵀ)ᵀ).trace = (v * (d * (vᵀ * v) * dᵀ * vᵀ)).trace := by
        rw [transpose_mul, transpose_mul, transpose_transpose]
        simp only [Matrix.mul_assoc]
    _ = (d * dᵀ * (vᵀ * v)).trace := by
        rw [hv, Matrix.mul_one, trace_mul_comm, Matrix.mul_assoc, hv]
    _ = (d * dᵀ).trace := by rw [hv, Matrix.mul_one]

theorem sumSq_rotate (hpq : p ≠ q) (h : c * c + s * s = 1) (l : Matrix ι ι K) :
    sumSq (rotate p q c s l) = sumSq l := by
  have hone : (plane p q c s)ᵀᵀ * (plane p q c s)ᵀ = 1 := by
    rw [transpose_transpose, plane_mul_transpose hpq h]
  have hconj := sumSq_conj hone l
  rwa [transpose_transpose] at hconj

/-- A rotation that makes an entry zero takes its squares from those off the diagonal. -/
theorem offSq_rotate (hpq : p ≠ q) (h : c * c + s * s = 1) (hl : l.IsSymm)
    (hzero : rotate p q c s l p q = 0) :
    offSq (rotate p q c s l) = offSq l - 2 * l p q ^ 2 := by
  have hsum := sumSq_rotate hpq h l
  rw [← offSq_add, ← offSq_add] at hsum
  have hother : ∀ k, k ≠ p ∧ k ≠ q → rotate p q c s l k k ^ 2 - l k k ^ 2 = 0 := by
    intro k hk
    rw [rotate_apply hpq hl, if_neg hk.1, if_neg hk.2, mul_plane_apply hpq, if_neg hk.1,
      if_neg hk.2, sub_self]
  have hdiag : ∑ i, (rotate p q c s l i i ^ 2 - l i i ^ 2) = 2 * l p q ^ 2 := by
    rw [Fintype.sum_eq_add p q hpq hother]
    have hqp : l q p = l p q := hl.apply p q
    simp only [rotate_apply hpq hl, mul_plane_apply hpq, if_neg hpq.symm, if_true,
      hqp] at hzero ⊢
    linear_combination
      (-2 * (s * (c * l p p - s * l p q) + c * (c * l p q - s * l q q))) * hzero +
        (c * c + s * s + 1) * (l p p ^ 2 + l q q ^ 2 + 2 * l p q ^ 2) * h
  rw [Finset.sum_sub_distrib] at hdiag
  linear_combination hsum - hdiag

/-! ## How fast they shrink -/

section
variable {K : Type*} [Field K] [LinearOrder K] [IsStrictOrderedRing K] {p q : ι} {c s : K}
  {l : Matrix ι ι K}

theorem sq_le_offSq (l : Matrix ι ι K) {i j : ι} (hij : i ≠ j) : l i j ^ 2 ≤ offSq l := by
  have hterm : ∀ i j, 0 ≤ if i = j then 0 else l i j ^ 2 := by
    intro i j
    split
    · exact le_refl 0
    · exact sq_nonneg _
  calc l i j ^ 2 = if i = j then 0 else l i j ^ 2 := (if_neg hij).symm
    _ ≤ ∑ j, if i = j then 0 else l i j ^ 2 :=
        Finset.single_le_sum (fun j _ => hterm i j) (Finset.mem_univ j)
    _ ≤ offSq l := Finset.single_le_sum (f := fun i => ∑ j, if i = j then 0 else l i j ^ 2)
        (fun i _ => Finset.sum_nonneg fun j _ => hterm i j) (Finset.mem_univ i)

theorem offSq_le (l : Matrix ι ι K) {m : K} (h : ∀ i j, i ≠ j → l i j ^ 2 ≤ m) :
    offSq l ≤ Fintype.card ι * (Fintype.card ι - 1) * m := by
  have hrow : ∀ i : ι, (∑ j, if i = j then 0 else l i j ^ 2) ≤ (Fintype.card ι - 1) * m := by
    intro i
    have hle : ∀ j, (if i = j then 0 else l i j ^ 2) ≤ if i = j then 0 else m := by
      intro j
      split
      · exact le_refl 0
      · next hij => exact h i j hij
    have hone : ∀ j, (if i = j then 0 else m) = m - if i = j then m else 0 := by
      intro j
      split
      · rw [sub_self]
      · rw [sub_zero]
    calc (∑ j, if i = j then 0 else l i j ^ 2) ≤ ∑ j, if i = j then 0 else m :=
          Finset.sum_le_sum fun j _ => hle j
      _ = (Fintype.card ι - 1) * m := by
          simp only [hone, Finset.sum_sub_distrib, Finset.sum_const, Finset.sum_ite_eq,
            Finset.mem_univ, if_true, Finset.card_univ, nsmul_eq_mul]
          ring
  calc offSq l ≤ ∑ _i : ι, (Fintype.card ι - 1) * m := Finset.sum_le_sum fun i _ => hrow i
    _ = Fintype.card ι * (Fintype.card ι - 1) * m := by
        rw [Finset.sum_const, Finset.card_univ, nsmul_eq_mul, mul_assoc]

/-- What is left of the squares, at most, when the largest of them is lost. -/
def share (K : Type*) [Field K] (n : ℕ) : K := 1 - 2.0 / (n * (n - 1))

theorem share_nonneg {n : ℕ} (hn : 2 ≤ n) : 0 ≤ share K n := by
  have hcast : (2 : K) ≤ n := by exact_mod_cast hn
  have hpairs : (0 : K) < n * (n - 1) := mul_pos (by linarith) (by linarith)
  have htwo : (2.0 : K) = 2 := by norm_num
  rw [share, sub_nonneg, div_le_one hpairs, htwo]
  nlinarith

theorem offSq_sub_le (hcard : 2 ≤ Fintype.card ι) {m : K} (h : ∀ i j, i ≠ j → l i j ^ 2 ≤ m) :
    offSq l - 2 * m ≤ share K (Fintype.card ι) * offSq l := by
  have hcast : (2 : K) ≤ Fintype.card ι := by exact_mod_cast hcard
  have hpairs : (0 : K) < Fintype.card ι * (Fintype.card ι - 1) :=
    mul_pos (by linarith) (by linarith)
  have htwo : (2.0 : K) = 2 := by norm_num
  have hle : 2 / (Fintype.card ι * (Fintype.card ι - 1)) * offSq l ≤ 2 * m := by
    rw [div_mul_eq_mul_div, div_le_iff₀ hpairs]
    have hoff := offSq_le l h
    linarith
  rw [share, htwo, sub_mul, one_mul]
  linarith

end

/-! ## Matrices that are nearly diagonal -/

section
variable {K : Type*} [Field K] [LinearOrder K] [IsStrictOrderedRing K] {v d : Matrix ι ι K}

omit [DecidableEq ι] in
theorem abs_mul_apply_le {x y : Matrix ι ι K} {X Y : K} {i j : ι} (hX : 0 ≤ X)
    (hx : ∀ k, |x i k| ≤ X) (hy : ∀ k, |y k j| ≤ Y) :
    |(x * y) i j| ≤ Fintype.card ι * (X * Y) := by
  rw [mul_apply]
  calc |∑ k, x i k * y k j| ≤ ∑ k, |x i k * y k j| := Finset.abs_sum_le_sum_abs _ _
    _ ≤ ∑ _k : ι, X * Y := by
        refine Finset.sum_le_sum fun k _ => ?_
        rw [abs_mul]
        exact mul_le_mul (hx k) (hy k) (abs_nonneg _) hX
    _ = Fintype.card ι * (X * Y) := by
        rw [Finset.sum_const, Finset.card_univ, nsmul_eq_mul]

theorem abs_le_one (hv : v * vᵀ = 1) (i j : ι) : |v i j| ≤ 1 := by
  have hone : ∑ k, v i k * v i k = 1 := by
    have hentry := congrFun (congrFun hv i) i
    rw [mul_apply, one_apply_eq] at hentry
    exact hentry
  have hle : v i j * v i j ≤ 1 := hone ▸
    Finset.single_le_sum (f := fun k => v i k * v i k) (fun k _ => mul_self_nonneg _)
      (Finset.mem_univ j)
  rw [← sq] at hle
  exact (sq_le_one_iff_abs_le_one _).mp hle

omit [DecidableEq ι] in
theorem sq_le_sumSq (d : Matrix ι ι K) (i j : ι) : d i j ^ 2 ≤ sumSq d :=
  calc d i j ^ 2 ≤ ∑ j, d i j ^ 2 :=
        Finset.single_le_sum (f := fun j => d i j ^ 2) (fun _ _ => sq_nonneg _) (Finset.mem_univ j)
    _ ≤ sumSq d := Finset.single_le_sum (f := fun i => ∑ j, d i j ^ 2)
        (fun _ _ => Finset.sum_nonneg fun _ _ => sq_nonneg _) (Finset.mem_univ i)

/-- A matrix less one of its diagonal entries. -/
def shift (d : Matrix ι ι K) (k : ι) : Matrix ι ι K := d - d k k • 1

omit [Fintype ι] [LinearOrder K] [IsStrictOrderedRing K] in
theorem shift_apply (d : Matrix ι ι K) (k i j : ι) :
    shift d k i j = if i = j then d i j - d k k else d i j := by
  rw [shift, Matrix.sub_apply, Matrix.smul_apply, one_apply]
  split
  · rw [smul_eq_mul, mul_one]
  · rw [smul_zero, sub_zero]

omit [LinearOrder K] [IsStrictOrderedRing K] in
theorem shift_mul_shift (d : Matrix ι ι K) (p q : ι) :
    shift d p * shift d q = d * d - (d p p + d q q) • d + (d p p * d q q) • 1 := by
  simp only [shift, Matrix.mul_sub, Matrix.sub_mul, Matrix.mul_smul, Matrix.smul_mul,
    Matrix.mul_one, Matrix.one_mul]
  module

omit [Fintype ι] in
theorem abs_shift_le {B : K} (hB : ∀ i j, |d i j| ≤ B) (k i j : ι) : |shift d k i j| ≤ 2 * B := by
  have hB0 : 0 ≤ B := (abs_nonneg _).trans (hB k k)
  rw [shift_apply]
  split
  · rw [two_mul]
    exact (abs_sub _ _).trans (add_le_add (hB i j) (hB k k))
  · linarith [hB i j]

omit [Fintype ι] in
/-- The column of the entry is small. -/
theorem abs_shift_self_le {δ : K} (hδ : ∀ i j, i ≠ j → |d i j| ≤ δ) (hδ0 : 0 ≤ δ) (k i : ι) :
    |shift d k i k| ≤ δ := by
  rw [shift_apply]
  split
  · next hik =>
    rw [hik, sub_self, abs_zero]
    exact hδ0
  · next hik => exact hδ i k hik

/-- Where a matrix is nearly diagonal in the coordinates `v`, and a unit vector has two coordinates
only, the square of the matrix has small entries where the matrix has none. -/
theorem abs_mul_self_apply_le (hv : v * vᵀ = 1) (hv' : vᵀ * v = 1) {p q r s : ι} (hpq : p ≠ q)
    (hrow : ∀ j, j ≠ p → j ≠ q → v r j = 0) (hrs : s ≠ r) (hzero : (v * d * vᵀ) s r = 0)
    {δ B : K} (hδ : ∀ i j, i ≠ j → |d i j| ≤ δ) (hδ0 : 0 ≤ δ) (hB : ∀ i j, |d i j| ≤ B) :
    |(v * d * vᵀ * (v * d * vᵀ)) s r| ≤ 4 * Fintype.card ι ^ 2 * B * δ := by
  -- the two coordinates give the two terms of an entry
  have hterms : ∀ x : Matrix ι ι K,
      (v * x * vᵀ) s r = (v * x) s p * v r p + (v * x) s q * v r q := by
    intro x
    rw [mul_apply, Fintype.sum_eq_add p q hpq fun j hj => by
      rw [transpose_apply, hrow j hj.1 hj.2, mul_zero]]
    rfl
  have hsquare : v * d * vᵀ * (v * d * vᵀ) = v * (d * d) * vᵀ := by
    rw [← Matrix.mul_assoc, ← Matrix.mul_assoc, Matrix.mul_assoc _ vᵀ v, hv', Matrix.mul_one]
    simp only [Matrix.mul_assoc]
  have hentry : (v * d * vᵀ * (v * d * vᵀ)) s r = (v * (shift d p * shift d q) * vᵀ) s r := by
    have hconj : v * (shift d p * shift d q) * vᵀ = v * (d * d) * vᵀ -
        (d p p + d q q) • (v * d * vᵀ) + (d p p * d q q) • 1 := by
      rw [shift_mul_shift]
      simp only [Matrix.mul_add, Matrix.add_mul, Matrix.mul_sub, Matrix.sub_mul, Matrix.mul_smul,
        Matrix.smul_mul, Matrix.mul_one, hv]
    rw [hconj, hsquare, Matrix.add_apply, Matrix.sub_apply, Matrix.smul_apply, Matrix.smul_apply,
      hzero, one_apply_ne hrs, smul_zero, smul_zero, sub_zero, add_zero]
  have hcomm : shift d p * shift d q = shift d q * shift d p := by
    rw [shift_mul_shift, shift_mul_shift, add_comm (d p p), mul_comm (d p p)]
  have hcol : ∀ k l, |(v * (shift d k * shift d l)) s l * v r l| ≤
      Fintype.card ι * (Fintype.card ι * (1 * (2 * B)) * δ) := by
    intro k l
    have hB0 : 0 ≤ 2 * B := (abs_nonneg _).trans (abs_shift_le hB k k k)
    have hrow : ∀ m, |(v * shift d k) s m| ≤ Fintype.card ι * (1 * (2 * B)) := fun m =>
      abs_mul_apply_le one_pos.le (abs_le_one hv s) fun j => abs_shift_le hB k j m
    have hle := abs_mul_apply_le (mul_nonneg (Nat.cast_nonneg _) (mul_nonneg one_pos.le hB0)) hrow
      (abs_shift_self_le hδ hδ0 l)
    rw [← Matrix.mul_assoc, abs_mul]
    calc |(v * shift d k * shift d l) s l| * |v r l|
        ≤ |(v * shift d k * shift d l) s l| * 1 :=
          mul_le_mul_of_nonneg_left (abs_le_one hv r l) (abs_nonneg _)
      _ ≤ Fintype.card ι * (Fintype.card ι * (1 * (2 * B)) * δ) := by
          rw [mul_one]
          exact hle
  have hfirst := hcol q p
  rw [← hcomm] at hfirst
  rw [hentry, hterms]
  calc |(v * (shift d p * shift d q)) s p * v r p + (v * (shift d p * shift d q)) s q * v r q|
      ≤ _ + _ := (abs_add_le _ _).trans (add_le_add hfirst (hcol p q))
    _ = 4 * Fintype.card ι ^ 2 * B * δ := by ring

end

end ActiveDefense.Rotation
