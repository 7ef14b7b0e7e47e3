import Mathlib.Algebra.Order.BigOperators.Group.List
import Mathlib.Analysis.Real.Sqrt
import Mathlib.Tactic.LinearCombination
import Mathlib.Tactic.Linarith

/-!
# Mean and spread of a list of numbers

The variance of numbers between two bounds is at most a quarter of the square of their distance
(`variance_le_of_mem`), and no number is further from the mean than the deviation allows for the
length of the list (`sq_sub_mean_le`).
-/

namespace ActiveDefense

/-- The mean. -/
noncomputable def mean (xs : List ℝ) : ℝ := xs.sum / xs.length

/-- The variance. -/
noncomputable def variance (xs : List ℝ) : ℝ :=
  (xs.map fun x => (x - mean xs) * (x - mean xs)).sum / xs.length

variable {xs : List ℝ} {lo hi : ℝ}

theorem sum_eq_length_mul_mean (hne : xs ≠ []) : xs.sum = xs.length * mean xs := by
  have hlen : (xs.length : ℝ) ≠ 0 := by exact_mod_cast (List.length_pos_of_ne_nil hne).ne'
  rw [mean, mul_div_cancel₀ _ hlen]

/-- The mean is between the bounds. -/
theorem mean_mem (hne : xs ≠ []) (h : ∀ x ∈ xs, lo ≤ x ∧ x ≤ hi) : lo ≤ mean xs ∧ mean xs ≤ hi := by
  have hlen : (0 : ℝ) < xs.length := by exact_mod_cast List.length_pos_of_ne_nil hne
  constructor
  · rw [mean, le_div_iff₀ hlen]
    have hsum := List.card_nsmul_le_sum xs lo fun x hx => (h x hx).1
    rw [nsmul_eq_mul] at hsum
    linarith
  · rw [mean, div_le_iff₀ hlen]
    have hsum := List.sum_le_card_nsmul xs hi fun x hx => (h x hx).2
    rw [nsmul_eq_mul] at hsum
    linarith

/-- The sum of `(hi - x) * (x - lo)`, by which the squares are below what the bounds allow. -/
theorem sum_deviations (hi lo m : ℝ) (ys : List ℝ) :
    (ys.map fun x => (x - m) * (x - m)).sum + (ys.map fun x => (hi - x) * (x - lo)).sum =
      (hi + lo - 2 * m) * ys.sum + ys.length * (m * m - hi * lo) := by
  induction ys with
  | nil => simp
  | cons y ys ih =>
    simp only [List.map_cons, List.sum_cons, List.length_cons, Nat.cast_succ]
    linear_combination ih

/-- The variance of numbers between two bounds. -/
theorem variance_le_of_mem (hne : xs ≠ []) (h : ∀ x ∈ xs, lo ≤ x ∧ x ≤ hi) :
    variance xs ≤ ((hi - lo) / 2) * ((hi - lo) / 2) := by
  have hlen : (0 : ℝ) < xs.length := by exact_mod_cast List.length_pos_of_ne_nil hne
  have hsum := sum_deviations hi lo (mean xs) xs
  have hnonneg : 0 ≤ (xs.map fun x => (hi - x) * (x - lo)).sum := by
    refine List.sum_nonneg fun y hy => ?_
    obtain ⟨x, hx, rfl⟩ := List.mem_map.mp hy
    exact mul_nonneg (sub_nonneg.mpr (h x hx).2) (sub_nonneg.mpr (h x hx).1)
  rw [sum_eq_length_mul_mean hne] at hsum
  have hbound : (xs.map fun x => (x - mean xs) * (x - mean xs)).sum ≤
      ((hi - mean xs) * (mean xs - lo)) * xs.length := by
    linarith
  have hmiddle : (hi - mean xs) * (mean xs - lo) ≤ ((hi - lo) / 2) * ((hi - lo) / 2) := by
    nlinarith [sq_nonneg (hi + lo - 2 * mean xs)]
  exact ((div_le_iff₀ hlen).mpr hbound).trans hmiddle

/-- How far a number can be from the mean. -/
theorem sq_sub_mean_le {x : ℝ} (hx : x ∈ xs) :
    (x - mean xs) * (x - mean xs) ≤ xs.length * variance xs := by
  have hlen : (xs.length : ℝ) ≠ 0 := by exact_mod_cast (List.length_pos_of_mem hx).ne'
  rw [variance, mul_div_cancel₀ _ hlen]
  refine List.single_le_sum (fun y hy => ?_) _ (List.mem_map_of_mem hx)
  obtain ⟨x, -, rfl⟩ := List.mem_map.mp hy
  exact mul_self_nonneg _

theorem variance_nonneg (xs : List ℝ) : 0 ≤ variance xs := by
  refine div_nonneg (List.sum_nonneg fun y hy => ?_) (Nat.cast_nonneg _)
  obtain ⟨x, -, rfl⟩ := List.mem_map.mp hy
  exact mul_self_nonneg _

end ActiveDefense
