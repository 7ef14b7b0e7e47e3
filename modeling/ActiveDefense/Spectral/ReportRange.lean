import ActiveDefense.Lib.Alignment
import ActiveDefense.Spectral.Homology

/-!
# The range of a report

Over the real numbers every cosine of a report of `analyse` and its alignment of subspaces are
between 0 and 1, and its correlations between -1 and 1, whatever the flows: the embeddings may have
different numbers of nodes, of which the first ones are compared, and the rotations may have stopped
short of a diagonal matrix (`report_in_range`). An embedding agrees with itself in full
(`self_alignment`). Both are about embeddings in all dimensions, as every configuration of the
source asks for.
-/

namespace ActiveDefense.Spectral

open SpectralEmbedding

/-! ## Statistics -/

theorem sumOfProducts_eq (xs ys : List ℝ) : sumOfProducts xs ys = listDot xs ys := by
  rw [sumOfProducts, sumOf_eq, listDot]

/-- A cosine is between 0 and 1. -/
theorem cosineAbs_mem (a b : List ℝ) : cosineAbs a b ∈ Set.Icc 0 1 := by
  simp only [cosineAbs, sqrt_eq, sumOfProducts_eq, absF64_eq, zero_lit]
  split
  · exact ⟨le_refl 0, zero_le_one⟩
  · exact ⟨abs_nonneg _, abs_cosine_le_one a b⟩

/-- A correlation is between -1 and 1. -/
theorem abs_correlation_le (xs ys : List ℝ) : |correlation xs ys| ≤ 1 := by
  simp only [correlation, sqrt_eq, sumOfProducts_eq, zero_lit]
  split
  · rw [abs_zero]
    exact zero_le_one
  · exact abs_cosine_le_one _ _

theorem abs_spearman_le (xs ys : List ℝ) : |spearman xs ys| ≤ 1 := by
  rw [spearman]
  split
  · rw [zero_lit, abs_zero]
    exact zero_le_one
  · exact abs_correlation_le _ _

theorem abs_pearson_le (xs ys : List ℝ) : |pearson xs ys| ≤ 1 := by
  rw [pearson]
  split
  · rw [zero_lit, abs_zero]
    exact zero_le_one
  · exact abs_correlation_le _ _

/-! ## Subspaces -/

/-- The entries of an embedding are those of an orthogonal matrix. -/
theorem orthogonalEntries_embed {g : Graph} {cfg : JacobiConfig ℝ} {e : SpectralEmbedding ℝ}
    (h : embed g cfg = .ok e) (hdims : cfg.dimensions = none) :
    e.numDims = e.numNodes ∧ 2 ≤ e.numNodes ∧ OrthogonalEntries e.numNodes e.entry := by
  obtain ⟨hn, hnodes, hnum, hv⟩ := exists_orthogonal h hdims
  rw [hnodes]
  exact ⟨hnum, hn, hv⟩

/-- How many columns `subspace_alignment` compares. -/
def comparedDims (g h : SpectralEmbedding ℝ) (k : Nat) : Nat :=
  min (min (min k (g.numDims - 1)) (h.numDims - 1)) (min g.numNodes h.numNodes)

theorem sum_range' (n : Nat) (f : Nat → ℝ) :
    ((List.range' 1 n).map f).sum = ∑ i ∈ Finset.Ico 1 (1 + n), f i := by
  rw [Nat.Ico_eq_range', Nat.add_sub_cancel_left]
  rfl

/-- The alignment as a sum over the columns. -/
theorem subspaceAlignment_eq (g h : SpectralEmbedding ℝ) {k : Nat} (hk : comparedDims g h k ≠ 0) :
    subspaceAlignment g h k =
      (∑ ki ∈ Finset.Ico 1 (1 + comparedDims g h k), ∑ kj ∈ Finset.Ico 1 (1 + comparedDims g h k),
        (∑ i ∈ Finset.range (min g.numNodes h.numNodes), g.entry i ki * h.entry i kj) ^ 2) /
        (comparedDims g h k : ℝ) := by
  rw [comparedDims] at hk ⊢
  simp only [subspaceAlignment]
  rw [if_neg hk, sumOf_eq, List.flatMap_def, List.sum_flatten, List.map_map]
  simp only [Function.comp_def, column, sumOfProducts_range, sum_range', ← sq]
  rfl

/-- The columns that are compared are columns of both. -/
theorem compared_subset {g h : SpectralEmbedding ℝ} (hg : g.numDims = g.numNodes)
    (hh : h.numDims = h.numNodes) (hg2 : 2 ≤ g.numNodes) (hh2 : 2 ≤ h.numNodes) (k : Nat) :
    Finset.Ico 1 (1 + comparedDims g h k) ⊆ Finset.range g.numNodes ∧
      Finset.Ico 1 (1 + comparedDims g h k) ⊆ Finset.range h.numNodes := by
  have hle : comparedDims g h k ≤ g.numNodes - 1 ∧ comparedDims g h k ≤ h.numNodes - 1 := by
    rw [comparedDims, hg, hh]
    omega
  constructor
  · intro i hi
    rw [Finset.mem_Ico] at hi
    rw [Finset.mem_range]
    omega
  · intro i hi
    rw [Finset.mem_Ico] at hi
    rw [Finset.mem_range]
    omega

section
variable {g g' : Graph} {cfg cfg' : JacobiConfig ℝ} {e e' : SpectralEmbedding ℝ}

/-- An alignment is between 0 and 1. -/
theorem subspaceAlignment_mem (h : embed g cfg = .ok e) (hdims : cfg.dimensions = none)
    (h' : embed g' cfg' = .ok e') (hdims' : cfg'.dimensions = none) (k : Nat) :
    subspaceAlignment e e' k ∈ Set.Icc 0 1 := by
  obtain ⟨hnum, htwo, horth⟩ := orthogonalEntries_embed h hdims
  obtain ⟨hnum', htwo', horth'⟩ := orthogonalEntries_embed h' hdims'
  by_cases hk : comparedDims e e' k = 0
  · have hzero : subspaceAlignment e e' k = 0 := by
      rw [comparedDims] at hk
      simp only [subspaceAlignment]
      rw [if_pos hk, zero_lit]
    rw [hzero]
    exact ⟨le_refl 0, zero_le_one⟩
  · have hpos : (0 : ℝ) < comparedDims e e' k := by exact_mod_cast Nat.pos_of_ne_zero hk
    obtain ⟨hK, hL⟩ := compared_subset hnum hnum' htwo htwo' k
    have hle := horth.sum_sq_products_le horth' (min_le_left _ _) (min_le_right _ _) hK hL
    rw [Nat.card_Ico, Nat.add_sub_cancel_left] at hle
    rw [subspaceAlignment_eq e e' hk]
    constructor
    · refine div_nonneg (Finset.sum_nonneg fun _ _ => Finset.sum_nonneg fun _ _ => sq_nonneg _) ?_
      exact hpos.le
    · exact (div_le_one hpos).mpr hle

/-- What an embedding has in common with itself: its subspaces are aligned in full, and so is each
mode. -/
theorem self_alignment (h : embed g cfg = .ok e) (hdims : cfg.dimensions = none) {k : Nat}
    (hk : 1 ≤ k) :
    subspaceAlignment e e k = 1 ∧
      ∀ mode, mode < e.numNodes →
        cosineAbs (e.column e.numNodes mode) (e.column e.numNodes mode) = 1 := by
  obtain ⟨hnum, htwo, horth⟩ := orthogonalEntries_embed h hdims
  constructor
  · have hcompared : comparedDims e e k ≠ 0 := by
      rw [comparedDims, hnum]
      omega
    have hne : (comparedDims e e k : ℝ) ≠ 0 := by exact_mod_cast hcompared
    obtain ⟨hK, -⟩ := compared_subset hnum hnum htwo htwo k
    have hsum := horth.sum_sq_products_self hK
    rw [Nat.card_Ico, Nat.add_sub_cancel_left] at hsum
    rw [subspaceAlignment_eq e e hcompared, min_self, hsum, div_self hne]
  · intro mode hmode
    have hone := horth.sum_mul hmode hmode
    rw [if_pos rfl] at hone
    rw [column, cosineAbs_range, hone, Real.sqrt_one, if_neg (by norm_num)]
    norm_num

theorem self_alignment_star : ∃ e : SpectralEmbedding ℝ, embed (star 2) .standard = .ok e ∧
    subspaceAlignment e e 4 = 1 := by
  obtain ⟨e, h⟩ := exists_embed_star_two
  exact ⟨e, h, (self_alignment h rfl (by decide)).1⟩

/-! ## Reports -/

/-- Everything that a report measures is in its range. -/
theorem report_in_range (h : embed g cfg = .ok e) (hdims : cfg.dimensions = none)
    (hdims' : cfg'.dimensions = none) (flows : List (FlowRecord ℝ)) (ipIndex : Str → Option Nat)
    (k : Nat) :
    let report := analyse flows e ipIndex k cfg'
    report.fiedlerCosine ∈ Set.Icc 0 1 ∧ report.subspaceAlignment ∈ Set.Icc 0 1 ∧
    (∀ c ∈ report.perModeCosines, c ∈ Set.Icc 0 1) ∧ |report.eigenvalueCorrelation| ≤ 1 ∧
    ∀ rho, report.ctRankCorrelation = some rho → |rho| ≤ 1 := by
  have hzero : (0.0 : ℝ) ∈ Set.Icc (0 : ℝ) 1 := by
    rw [zero_lit]
    exact ⟨le_refl 0, zero_le_one⟩
  simp only [analyse]
  split
  · refine ⟨hzero, hzero, fun c hc => absurd hc List.not_mem_nil, ?_, fun rho hrho => ?_⟩
    · rw [zero_lit, abs_zero]
      exact zero_le_one
    · cases hrho
  · next e' he' =>
    refine ⟨cosineAbs_mem _ _, subspaceAlignment_mem h hdims he' hdims' _, fun c hc => ?_,
      abs_pearson_le _ _, fun rho hrho => ?_⟩
    · obtain ⟨mode, -, rfl⟩ := List.mem_map.mp hc
      exact cosineAbs_mem _ _
    · dsimp only at hrho
      split at hrho
      · rw [← Option.some.inj hrho]
        exact abs_spearman_le _ _
      · cases hrho

theorem report_in_range_star : ∃ e : SpectralEmbedding ℝ, embed (star 2) .standard = .ok e ∧
    (analyse [⟨"a".toList, [0, 1]⟩, ⟨"b".toList, [1, 0]⟩] e
      (fun ip => if ip = "a".toList then some 0 else some 1) 5 .standard).subspaceAlignment ∈
        Set.Icc 0 1 := by
  obtain ⟨e, h⟩ := exists_embed_star_two
  exact ⟨e, h, (report_in_range h rfl rfl _ _ _).2.1⟩

end

end ActiveDefense.Spectral
