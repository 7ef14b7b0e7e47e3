import ActiveDefense.Rust.Text
import ActiveDefense.Rust.Time
import Mathlib.Algebra.Order.Floor.Ring
import Mathlib.Data.Rat.Floor

/-!
# Floating-point numbers

Code that computes with `f64` is modelled over a number type with the operations it uses. The
instances are Lean's `Float`, which is binary64 with its infinities and its NaN, and every ordered
field with a floor, which is exact arithmetic. `f32` is not told apart from `f64`.
-/

namespace ActiveDefense

/-- The operations of `f64` that the program uses. -/
class FloatArith (φ : Type) extends Add φ, Sub φ, Mul φ, Div φ, LT φ, LE φ, OfScientific φ where
  decLt : DecidableLT φ
  decLe : DecidableLE φ
  /-- `n as f64`, for a `usize`. -/
  ofUsize : Nat → φ
  /-- `x.round() as i64`. -/
  roundI64 : φ → Int64
  /-- The format `{:.n}`. -/
  fixed : Nat → φ → Str

instance decidableLtFloat {φ : Type} [FloatArith φ] : DecidableLT φ := FloatArith.decLt

instance decidableLeFloat {φ : Type} [FloatArith φ] : DecidableLE φ := FloatArith.decLe

/-- `f64::clamp`; a NaN is left as it is. -/
def clamp {φ : Type} [FloatArith φ] (x lo hi : φ) : φ :=
  if x < lo then lo else if hi < x then hi else x

/-- `f64::min`; a NaN gives way to the other number. -/
def minF64 {φ : Type} [FloatArith φ] (a b : φ) : φ :=
  if a < b then a else if b < a then b else if a ≤ a then a else b

/-- `Duration::as_secs_f64`. -/
def Duration.asSecsF64 {φ : Type} [FloatArith φ] (d : Duration) : φ :=
  FloatArith.ofUsize (d / 10 ^ 9) + FloatArith.ofUsize (d % 10 ^ 9) / 1e9

/-! ## Exact arithmetic -/

section
variable {K : Type} [Field K] [LinearOrder K] [FloorRing K]

/-- The nearest integer, halves away from zero. -/
def roundHalfAway (x : K) : ℤ := if 0 ≤ x then ⌊x + 1 / 2⌋ else -⌊-x + 1 / 2⌋

/-- The nearest integer, halves to the even one. -/
def roundHalfEven (x : K) : ℤ :=
  let below := ⌊x⌋
  if x - below < 1 / 2 then below
  else if x - below = 1 / 2 ∧ below % 2 = 0 then below
  else below + 1

/-- `as i64` of an integer, which saturates. -/
def saturateI64 (n : ℤ) : Int64 := Int64.ofInt (max (-2 ^ 63) (min n (2 ^ 63 - 1)))

/-- A sign and `scaled / 10 ^ n`, with `n` digits after the point. -/
def fixedText (n : Nat) (negative : Bool) (scaled : Nat) : Str :=
  let sign := if negative then ['-'] else []
  let fraction := (decimal (scaled % 10 ^ n)).leftpad n '0'
  sign ++ decimal (scaled / 10 ^ n) ++ if n = 0 then [] else '.' :: fraction

instance : FloatArith K where
  decLt := inferInstance
  decLe := inferInstance
  ofUsize n := n
  roundI64 x := saturateI64 (roundHalfAway x)
  fixed n x := fixedText n (decide (x < 0)) (roundHalfEven (|x| * 10 ^ n)).toNat

end

/-! ## `f64` -/

/-- The operations on the value of a finite number are exact before they round to the result's
type. -/
instance : FloatArith Float where
  decLt := inferInstance
  decLe := inferInstance
  ofUsize n := Float.ofNat n
  roundI64 x :=
    match x.toModel.unpack with
    | .notANumber => 0
    | .zero _ => 0
    | .infinity .positive => saturateI64 (2 ^ 63)
    | .infinity .negative => saturateI64 (-2 ^ 63)
    | .finite .positive m e _ => saturateI64 (roundHalfAway ((m : ℚ) * 2 ^ e))
    | .finite .negative m e _ => saturateI64 (-roundHalfAway ((m : ℚ) * 2 ^ e))
  fixed n x :=
    match x.toModel.unpack with
    | .notANumber => "NaN".toList
    | .infinity .positive => "inf".toList
    | .infinity .negative => "-inf".toList
    | .zero s => fixedText n (s == .negative) 0
    | .finite s m e _ =>
      fixedText n (s == .negative) (roundHalfEven ((m : ℚ) * 2 ^ e * 10 ^ n)).toNat

/-- The number that an `f64` stands for. An infinity and a NaN stand for none, and get zero. -/
def f64Value (x : Float) : ℚ :=
  match x.toModel.unpack with
  | .finite .positive m e _ => m * 2 ^ e
  | .finite .negative m e _ => -(m * 2 ^ e)
  | .notANumber | .infinity _ | .zero _ => 0

example : FloatArith.fixed 3 (0.8565 : Float) = "0.857".toList ∧
    FloatArith.roundI64 (0.8565 * 1000 : Float) = 857 := by
  decide +kernel

/-! The comparisons of `f64`: with a NaN they are all false, without one they are total. -/

section
open Float.Model

/-- The two orders of a comparison agree. -/
theorem compare_swap (a b : UnpackedFloat) : b.compare a = (a.compare b).map Ordering.swap := by
  cases a with
  | notANumber => cases b <;> rfl
  | infinity s =>
    cases b with
    | infinity t => cases s <;> cases t <;> rfl
    | notANumber => rfl
    | zero => cases s <;> rfl
    | finite => cases s <;> rfl
  | zero s =>
    cases b with
    | infinity t => cases t <;> rfl
    | notANumber => rfl
    | zero => rfl
    | finite t => cases t <;> rfl
  | finite s m e =>
    cases b with
    | infinity t => cases s <;> cases t <;> rfl
    | notANumber => rfl
    | zero => cases s <;> rfl
    | finite t n f =>
      have he : compare f e = (compare e f).swap := Std.OrientedCmp.eq_swap
      have hm : compare n m = (compare m n).swap := Std.OrientedCmp.eq_swap
      cases s <;> cases t <;> dsimp only [UnpackedFloat.compare]
      all_goals simp [he, hm, Ordering.swap_then]

/-- Numbers that are no NaN compare. -/
theorem compare_isSome {a b : UnpackedFloat} (ha : a.isNaN = false) (hb : b.isNaN = false) :
    ∃ o, a.compare b = some o := by
  cases a with
  | notANumber => cases ha
  | _ s =>
    cases b with
    | notANumber => cases hb
    | _ t => cases s <;> cases t <;> exact ⟨_, rfl⟩

/-- A comparison with a NaN has no result. -/
theorem compare_eq_none {a b : UnpackedFloat} (h : a.isNaN = true ∨ b.isNaN = true) :
    a.compare b = none := by
  rcases h with h | h
  · cases a with
    | notANumber => rfl
    | _ => cases h
  · cases b with
    | notANumber => cases a <;> rfl
    | _ => cases h

theorem float_lt_iff {a b : Float} :
    a < b ↔ a.toModel.unpack.compare b.toModel.unpack = some .lt := by
  change decide (a.toModel < b.toModel) = true ↔ _
  rw [decide_eq_true_iff]
  exact beq_iff_eq

theorem float_le_iff {a b : Float} :
    a ≤ b ↔ (a.toModel.unpack.compare b.toModel.unpack).any (·.isLE) = true := by
  change decide (a.toModel ≤ b.toModel) = true ↔ _
  rw [decide_eq_true_iff]
  exact Iff.rfl

theorem float_le_of_not_lt {a b : Float} (ha : a.isNaN = false) (hb : b.isNaN = false)
    (h : ¬ a < b) : b ≤ a := by
  obtain ⟨o, ho⟩ := compare_isSome ha hb
  rw [float_lt_iff, ho] at h
  rw [float_le_iff, compare_swap a.toModel.unpack, ho]
  cases o with
  | lt => exact absurd rfl h
  | eq => rfl
  | gt => rfl

theorem float_not_le_of_isNaN {a b : Float} (h : a.isNaN = true ∨ b.isNaN = true) : ¬ a ≤ b := by
  rw [float_le_iff, compare_eq_none h]
  simp

/-- Numbers that compare equal are one number, or they are zeros. -/
theorem eq_or_zero_of_compare {a b : UnpackedFloat} (h : a.compare b = some .eq) :
    a = b ∨ ∃ s t, a = .zero s ∧ b = .zero t := by
  cases a with
  | notANumber => cases h
  | infinity s =>
    cases b with
    | infinity t => cases s <;> cases t <;> first | exact .inl rfl | cases h
    | notANumber => cases h
    | zero => cases s <;> cases h
    | finite => cases s <;> cases h
  | zero s =>
    cases b with
    | zero t => exact .inr ⟨s, t, rfl, rfl⟩
    | infinity t => cases t <;> cases h
    | notANumber => cases h
    | finite t => cases t <;> cases h
  | finite s m e =>
    cases b with
    | finite t n f =>
      have hsame : s = t ∧ (compare e f).then (compare m n) = .eq := by
        cases s <;> cases t <;> dsimp only [UnpackedFloat.compare] at h
        · exact ⟨rfl, Ordering.swap_eq_eq.mp (Option.some.inj h)⟩
        · cases h
        · cases h
        · exact ⟨rfl, Option.some.inj h⟩
      obtain ⟨rfl, hthen⟩ := hsame
      obtain ⟨he, hm⟩ := Ordering.then_eq_eq.mp hthen
      cases compare_eq_iff_eq.mp he
      cases compare_eq_iff_eq.mp hm
      exact .inl rfl
    | infinity t => cases s <;> cases t <;> cases h
    | notANumber => cases s <;> cases h
    | zero => cases s <;> cases h

theorem float_beq_iff {a b : Float} :
    (a == b) = true ↔ a.toModel.unpack.compare b.toModel.unpack = some .eq := by
  change (a.toModel.unpack.compare b.toModel.unpack == some .eq) = true ↔ _
  exact beq_iff_eq

theorem float_beq_trans {a b c : Float} (hab : (a == b) = true) (hbc : (b == c) = true) :
    (a == c) = true := by
  rw [float_beq_iff] at hab hbc ⊢
  rcases eq_or_zero_of_compare hab with hsame | ⟨s, t, ha, hb⟩
  · rw [hsame]
    exact hbc
  · rcases eq_or_zero_of_compare hbc with hsame | ⟨_, u, -, hc⟩
    · rw [← hsame]
      exact hab
    · rw [ha, hc]
      rfl

end

end ActiveDefense
