import Mathlib.Analysis.Real.Sqrt
import Mathlib.LinearAlgebra.UnitaryGroup
import Mathlib.Tactic.Linarith

/-!
# Lists of numbers as vectors, and columns of orthogonal matrices

The product of two lists is at most that of their norms (`abs_listDot_le`), so a cosine and a
correlation are at most 1, and the norm of a sum is at most the sum of the norms
(`sqrt_sum_sq_add_le`). Of two orthogonal matrices, cut off at as many rows as both have, `k`
columns each have products whose squares add up to `k` at most (`sum_sq_products_le`), and to
`k` where the matrices are the same and nothing is cut off (`sum_sq_products_self`).
-/

namespace ActiveDefense

open Matrix

/-! ## Lists -/

/-- The products of the numbers of two lists, summed up. -/
def listDot (xs ys : List ℝ) : ℝ := (List.zipWith (· * ·) xs ys).sum

variable (xs ys : List ℝ)

@[simp] theorem listDot_cons_cons (x y : ℝ) : listDot (x :: xs) (y :: ys) = x * y + listDot xs ys :=
  List.sum_cons

theorem listDot_self_nonneg : 0 ≤ listDot xs xs := by
  induction xs with
  | nil => exact le_refl 0
  | cons x xs ih =>
    rw [listDot_cons_cons]
    exact add_nonneg (mul_self_nonneg x) ih

/-- Cauchy's inequality. -/
theorem sq_listDot_le : listDot xs ys ^ 2 ≤ listDot xs xs * listDot ys ys := by
  induction xs generalizing ys with
  | nil => simp [listDot]
  | cons x xs ih =>
    cases ys with
    | nil => simp [listDot]
    | cons y ys =>
      have hrest := ih ys
      have hxs := listDot_self_nonneg xs
      have hys := listDot_self_nonneg ys
      simp only [listDot_cons_cons]
      generalize listDot xs xs = A at hrest hxs ⊢
      generalize listDot ys ys = B at hrest hys ⊢
      generalize listDot xs ys = S at hrest ⊢
      -- the mixed term is at most the mean of the two squares
      have hmixed : 2 * (x * y * S) ≤ x * x * B + y * y * A := by
        have hP : 0 ≤ x * x * B := mul_nonneg (mul_self_nonneg x) hys
        have hQ : 0 ≤ y * y * A := mul_nonneg (mul_self_nonneg y) hxs
        have hsq : (2 * (x * y * S)) ^ 2 ≤ (x * x * B + y * y * A) ^ 2 := by
          have hS : (x * y) ^ 2 * S ^ 2 ≤ (x * y) ^ 2 * (A * B) :=
            mul_le_mul_of_nonneg_left hrest (sq_nonneg _)
          linarith [sq_nonneg (x * x * B - y * y * A)]
        exact le_of_sq_le_sq hsq (add_nonneg hP hQ)
      linarith

theorem abs_listDot_le : |listDot xs ys| ≤ √(listDot xs xs) * √(listDot ys ys) := by
  rw [← Real.sqrt_mul (listDot_self_nonneg xs)]
  exact Real.abs_le_sqrt (sq_listDot_le xs ys)

/-- A cosine is at most 1. -/
theorem abs_cosine_le_one : |listDot xs ys / (√(listDot xs xs) * √(listDot ys ys))| ≤ 1 := by
  have hnonneg : 0 ≤ √(listDot xs xs) * √(listDot ys ys) :=
    mul_nonneg (Real.sqrt_nonneg _) (Real.sqrt_nonneg _)
  rw [abs_div, abs_of_nonneg hnonneg]
  exact div_le_one_of_le₀ (abs_listDot_le xs ys) hnonneg

variable {κ : Type} (ks : List κ) (f g : κ → ℝ)

theorem listDot_map : listDot (ks.map f) (ks.map g) = (ks.map fun k => f k * g k).sum := by
  rw [listDot, List.zipWith_map, List.zipWith_self]

/-- The norm of a sum. -/
theorem sqrt_sum_sq_add_le : √(ks.map fun k => (f k + g k) ^ 2).sum ≤
    √(ks.map fun k => f k ^ 2).sum + √(ks.map fun k => g k ^ 2).sum := by
  have hsplit : (ks.map fun k => (f k + g k) ^ 2).sum =
      (ks.map fun k => f k ^ 2).sum + 2 * listDot (ks.map f) (ks.map g) +
        (ks.map fun k => g k ^ 2).sum := by
    rw [listDot_map]
    induction ks with
    | nil => simp
    | cons k ks ih =>
      simp only [List.map_cons, List.sum_cons]
      linarith
  have hf : (ks.map fun k => f k ^ 2).sum = listDot (ks.map f) (ks.map f) := by
    simp only [listDot_map, sq]
  have hg : (ks.map fun k => g k ^ 2).sum = listDot (ks.map g) (ks.map g) := by
    simp only [listDot_map, sq]
  have hcauchy := (le_abs_self _).trans (abs_listDot_le (ks.map f) (ks.map g))
  have hF := Real.sq_sqrt (listDot_self_nonneg (ks.map f))
  have hG := Real.sq_sqrt (listDot_self_nonneg (ks.map g))
  rw [hsplit, hf, hg]
  refine Real.sqrt_le_iff.mpr ⟨add_nonneg (Real.sqrt_nonneg _) (Real.sqrt_nonneg _), ?_⟩
  linarith

/-! ## Columns -/

/-- The entries are those of an orthogonal matrix. -/
def OrthogonalEntries (n : ℕ) (a : ℕ → ℕ → ℝ) : Prop :=
  ∃ v ∈ Matrix.orthogonalGroup (Fin n) ℝ, ∀ i j : Fin n, a i j = v i j

namespace OrthogonalEntries

variable {n m s : ℕ} {a b : ℕ → ℕ → ℝ}

/-- The columns are orthonormal. -/
theorem sum_mul (h : OrthogonalEntries n a) {k l : ℕ} (hk : k < n) (hl : l < n) :
    ∑ i ∈ Finset.range n, a i k * a i l = if k = l then 1 else 0 := by
  obtain ⟨v, hv, hav⟩ := h
  have hone := congrFun
    (congrFun ((Matrix.mem_orthogonalGroup_iff' (Fin n) ℝ).mp hv) ⟨k, hk⟩) ⟨l, hl⟩
  rw [Matrix.mul_apply, Matrix.one_apply] at hone
  simp only [Fin.mk.injEq] at hone
  rw [← hone, Finset.sum_range]
  exact Finset.sum_congr rfl fun i _ => congrArg₂ (· * ·) (hav i ⟨k, hk⟩) (hav i ⟨l, hl⟩)

/-- The products of all columns with a vector are as long as the vector. -/
theorem sum_sq_dot (h : OrthogonalEntries n a) (x : ℕ → ℝ) :
    ∑ k ∈ Finset.range n, (∑ i ∈ Finset.range n, a i k * x i) ^ 2 =
      ∑ i ∈ Finset.range n, x i ^ 2 := by
  obtain ⟨v, hv, hav⟩ := h
  let X : Fin n → ℝ := fun i => x i
  have hlength : (vᵀ *ᵥ X) ⬝ᵥ (vᵀ *ᵥ X) = X ⬝ᵥ X := by
    rw [Matrix.dotProduct_mulVec, ← Matrix.mulVec_transpose, transpose_transpose, mulVec_mulVec]
    have hone : v * vᵀ = 1 := (Matrix.mem_orthogonalGroup_iff (Fin n) ℝ).mp hv
    rw [hone, one_mulVec]
  simp only [dotProduct, mulVec, transpose_apply] at hlength
  simp only [Finset.sum_range, sq]
  have hterms : ∀ k i : Fin n, a i k * x i = v i k * X i := by
    intro k i
    rw [hav]
  simp only [hterms]
  exact hlength

/-- Cut off at some rows, the products of some columns with a vector are no longer. -/
theorem sum_sq_dot_le (h : OrthogonalEntries n a) (hs : s ≤ n) {K : Finset ℕ}
    (hK : K ⊆ Finset.range n) (x : ℕ → ℝ) :
    ∑ k ∈ K, (∑ i ∈ Finset.range s, a i k * x i) ^ 2 ≤ ∑ i ∈ Finset.range s, x i ^ 2 := by
  let X : ℕ → ℝ := fun i => if i < s then x i else 0
  have hcut : ∀ f : ℕ → ℝ → ℝ, (∀ i, f i 0 = 0) →
      ∑ i ∈ Finset.range n, f i (X i) = ∑ i ∈ Finset.range s, f i (x i) := by
    intro f hf
    rw [← Finset.sum_subset (Finset.range_mono hs)]
    · refine Finset.sum_congr rfl fun i hi => ?_
      rw [show X i = x i from if_pos (Finset.mem_range.mp hi)]
    · intro i _ hi
      rw [show X i = 0 from if_neg fun h => hi (Finset.mem_range.mpr h), hf]
  have hall := h.sum_sq_dot X
  rw [hcut (fun _ y => y ^ 2) fun _ => by simp] at hall
  rw [← hall]
  refine (Finset.sum_le_sum_of_subset_of_nonneg hK fun k _ _ => sq_nonneg _).trans' (le_of_eq ?_)
  refine Finset.sum_congr rfl fun k _ => ?_
  rw [hcut (fun i y => a i k * y) fun _ => mul_zero _]

/-- The squares of the products of two sets of columns add up to the size of a set at most. -/
theorem sum_sq_products_le (ha : OrthogonalEntries n a) (hb : OrthogonalEntries m b) (hn : s ≤ n)
    (hm : s ≤ m) {K L : Finset ℕ} (hK : K ⊆ Finset.range n) (hL : L ⊆ Finset.range m) :
    ∑ k ∈ K, ∑ l ∈ L, (∑ i ∈ Finset.range s, a i k * b i l) ^ 2 ≤ L.card := by
  rw [Finset.sum_comm, ← nsmul_one]
  refine Finset.sum_le_card_nsmul L _ 1 fun l hl => ?_
  refine (ha.sum_sq_dot_le hn hK fun i => b i l).trans ?_
  have hone := hb.sum_mul (Finset.mem_range.mp (hL hl)) (Finset.mem_range.mp (hL hl))
  rw [if_pos rfl] at hone
  rw [← hone]
  simp only [← sq]
  exact Finset.sum_le_sum_of_subset_of_nonneg (Finset.range_mono hm) fun i _ _ => sq_nonneg _

/-- Where the matrices are the same and nothing is cut off, they add up to the size. -/
theorem sum_sq_products_self (ha : OrthogonalEntries n a) {K : Finset ℕ}
    (hK : K ⊆ Finset.range n) :
    ∑ k ∈ K, ∑ l ∈ K, (∑ i ∈ Finset.range n, a i k * a i l) ^ 2 = K.card := by
  have hone : ∀ k ∈ K, ∑ l ∈ K, (∑ i ∈ Finset.range n, a i k * a i l) ^ 2 = 1 := by
    intro k hk
    rw [Finset.sum_eq_single_of_mem k hk fun l hl hne => ?_]
    · rw [ha.sum_mul (Finset.mem_range.mp (hK hk)) (Finset.mem_range.mp (hK hk)), if_pos rfl,
        one_pow]
    · rw [ha.sum_mul (Finset.mem_range.mp (hK hk)) (Finset.mem_range.mp (hK hl)),
        if_neg (Ne.symm hne), zero_pow two_ne_zero]
  rw [Finset.sum_congr rfl hone, Finset.sum_const, nsmul_one]

end OrthogonalEntries

end ActiveDefense
