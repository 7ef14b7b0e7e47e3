import Mathlib.Data.Int.ModEq

/-!
# One's-complement sums

Words are added up in one's complement: the carry out of a word is added back to it. A sum so made
is congruent to the plain sum modulo `base - 1`, and it is zero for the plain sum zero only
(`Reduces`); among the words that leaves one (`Reduces.eq_top`). So words get the sum `base - 1`,
all ones, once the complement of their sum is added to them (`onesSum_complement`).
-/

namespace ActiveDefense

variable {base : Nat}

/-- Adds the carry out of a word back to it. -/
def carryBack (base n : Nat) : Nat := n % base + n / base

/-- The one's-complement sum of words. -/
def onesSum (base : Nat) (words : List Nat) : Nat :=
  words.foldl (fun sum word => carryBack base (sum + word)) 0

/-- `x` is what carries that are added back can make of `n`. -/
structure Reduces (base n x : Nat) : Prop where
  modEq : x ≡ n [MOD base - 1]
  zero_iff : x = 0 ↔ n = 0

namespace Reduces

variable {n x y : Nat}

theorem refl (base n : Nat) : Reduces base n n := ⟨Nat.ModEq.refl n, Iff.rfl⟩

theorem trans (h : Reduces base n x) (h' : Reduces base x y) : Reduces base n y :=
  ⟨h'.modEq.trans h.modEq, h'.zero_iff.trans h.zero_iff⟩

theorem add (h : Reduces base n x) (word : Nat) : Reduces base (n + word) (x + word) where
  modEq := h.modEq.add_right word
  zero_iff := by rw [Nat.add_eq_zero_iff, Nat.add_eq_zero_iff, h.zero_iff]

theorem carryBack (hbase : 0 < base) (n : Nat) : Reduces base n (carryBack base n) where
  modEq := by
    have hone : base ≡ 1 [MOD base - 1] := by
      have hsub : base - 1 + 1 ≡ 0 + 1 [MOD base - 1] :=
        (Nat.modEq_zero_iff_dvd.mpr (Nat.dvd_refl _)).add_right 1
      rwa [Nat.sub_add_cancel hbase] at hsub
    have hn : n % base + 1 * (n / base) ≡ n % base + base * (n / base) [MOD base - 1] :=
      (hone.symm.mul_right _).add_left _
    rwa [one_mul, Nat.mod_add_div] at hn
  zero_iff := by
    rw [ActiveDefense.carryBack, Nat.add_eq_zero_iff]
    constructor
    · rintro ⟨hlow, hhigh⟩
      rw [← Nat.mod_add_div n base, hlow, hhigh, Nat.mul_zero]
    · rintro rfl
      exact ⟨Nat.zero_mod base, Nat.zero_div base⟩

/-- A number that is a multiple of all ones, and not zero, leaves all ones. -/
theorem eq_top (h : Reduces base n x) (hx : x < base) (hn : n ≠ 0) (hmul : base - 1 ∣ n) :
    x = base - 1 := by
  have hdvd : base - 1 ∣ x := (h.modEq.dvd_iff (Nat.dvd_refl _)).mpr hmul
  have hpos : 0 < x := Nat.pos_of_ne_zero fun hzero => hn (h.zero_iff.mp hzero)
  exact Nat.le_antisymm (Nat.le_sub_one_of_lt hx) (Nat.le_of_dvd hpos hdvd)

end Reduces

/-- Two words and a carry fit into a word, once the carry is added back. -/
theorem carryBack_lt {a b : Nat} (ha : a < base) (hb : b < base) : carryBack base (a + b) < base := by
  rw [carryBack]
  rcases Nat.lt_or_ge (a + b) base with hlt | hge
  · rw [Nat.mod_eq_of_lt hlt, Nat.div_eq_of_lt hlt, Nat.add_zero]
    exact hlt
  · have hsub : a + b - base < base - 1 := by omega
    rw [Nat.mod_eq_sub_mod hge, Nat.mod_eq_of_lt (hsub.trans_le (Nat.sub_le base 1)),
      Nat.div_eq_of_lt_le (k := 1) (by omega) (by omega)]
    omega

/-- What a one's-complement sum is, by the plain sum. -/
theorem reduces_onesSum (hbase : 0 < base) (words : List Nat) :
    Reduces base words.sum (onesSum base words) := by
  have hfold : ∀ n sum, Reduces base n sum → Reduces base (n + words.sum)
      (words.foldl (fun sum word => carryBack base (sum + word)) sum) := by
    induction words with
    | nil => exact fun n sum h => h
    | cons word words ih =>
      intro n sum h
      rw [List.sum_cons, ← Nat.add_assoc, List.foldl_cons]
      exact ih _ _ ((h.add word).trans (.carryBack hbase _))
  have hzero := hfold 0 0 (.refl base 0)
  rwa [Nat.zero_add] at hzero

theorem onesSum_lt (hbase : 0 < base) {words : List Nat} (h : ∀ word ∈ words, word < base) :
    onesSum base words < base := by
  have hfold : ∀ sum, sum < base →
      words.foldl (fun sum word => carryBack base (sum + word)) sum < base := by
    induction words with
    | nil => exact fun sum hsum => hsum
    | cons word words ih =>
      intro sum hsum
      obtain ⟨hword, hwords⟩ := List.forall_mem_cons.mp h
      exact ih hwords _ (carryBack_lt hsum hword)
  exact hfold 0 hbase

/-- Words whose sum was completed with the complement of `x` add up to all ones, where `x` is what
they added up to before. -/
theorem onesSum_complement (hbase : 1 < base) {words : List Nat} (h : ∀ word ∈ words, word < base)
    {n x : Nat} (hx : Reduces base n x) (hlt : x < base) (hsum : words.sum = n + (base - 1 - x)) :
    onesSum base words = base - 1 := by
  have hpos : 0 < base := Nat.lt_of_succ_lt hbase
  refine (reduces_onesSum hpos words).eq_top (onesSum_lt hpos h) ?_ ?_
  · intro hzero
    rw [hsum, Nat.add_eq_zero_iff] at hzero
    have hnil := hx.zero_iff.mpr hzero.1
    omega
  · have hmod : x + (base - 1 - x) ≡ words.sum [MOD base - 1] := by
      rw [hsum]
      exact hx.modEq.add_right _
    rw [Nat.add_sub_cancel' (Nat.le_sub_one_of_lt hlt)] at hmod
    exact (hmod.dvd_iff (Nat.dvd_refl _)).mp (Nat.dvd_refl _)

end ActiveDefense
