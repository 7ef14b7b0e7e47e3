import ActiveDefense.Rust.Float
import Mathlib.Analysis.Complex.Trigonometric
import Mathlib.Analysis.Real.Sqrt

/-!
# The functions of floating-point numbers that are not arithmetic

Exact arithmetic with `sqrt` and `sin` is that of the real numbers.
-/

namespace ActiveDefense

/-- `f32` with the functions that the program uses. -/
class FloatFns (φ : Type) extends FloatArith φ where
  sqrt : φ → φ
  sin : φ → φ

instance : FloatFns Float where
  sqrt := Float.sqrt
  sin := Float.sin

noncomputable instance : FloatFns ℝ where
  sqrt := Real.sqrt
  sin := Real.sin

/-- `f32::max`; a NaN gives way to the other number. -/
def maxF32 {φ : Type} [FloatArith φ] (a b : φ) : φ :=
  if b < a then a else if a < b then b else if a ≤ a then a else b

theorem maxF32_eq_max {K : Type} [Field K] [LinearOrder K] [FloorRing K] (a b : K) :
    maxF32 a b = max a b := by
  rw [maxF32]
  split
  · rename_i h
    exact (max_eq_left_of_lt h).symm
  · rename_i h
    split
    · rename_i h'
      exact (max_eq_right_of_lt h').symm
    · rename_i h'
      rw [if_pos (le_refl a), max_eq_left (not_lt.mp h')]

end ActiveDefense
