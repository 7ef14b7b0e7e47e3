import Mathlib.Analysis.SpecialFunctions.Log.Base
import Mathlib.Data.List.Dedup
import Mathlib.Data.List.GetD

/-!
# The entropy of a text

The entropy of a text, in bits, is that of a letter drawn from it. It is at most the logarithm of the
number of letters that occur (`entropy_le_logb`), which a text without repetitions reaches
(`entropy_of_nodup`): so a text with much entropy has many letters (`rpow_le_of_le_entropy`). A table
of counts with a place for each byte has, where it is not zero, the counts of the bytes that occur
(`Tallies.perm`).
-/

namespace ActiveDefense

open Real

variable {α : Type} [DecidableEq α]

/-! ## Counts -/

/-- A share of a whole, and its part of the entropy. -/
noncomputable def surprise (n c : ℕ) : ℝ := -((c : ℝ) / n) * logb (2 : ℕ) (c / n)

/-- A tangent of the logarithm: `k` is the number of letters, and the bound is met by `n / k`. -/
theorem surprise_le {n c k : ℕ} (hc : 0 < c) (hn : 0 < n) (hk : 0 < k) :
    surprise n c ≤ c / n * logb 2 k + (1 / k - c / n) / log 2 := by
  have hlog2 : 0 < log 2 := log_pos one_lt_two
  have hc' : (0 : ℝ) < c := by exact_mod_cast hc
  have hn' : (0 : ℝ) < n := by exact_mod_cast hn
  have hk' : (0 : ℝ) < k := by exact_mod_cast hk
  have hp : (0 : ℝ) < c / n := by positivity
  have htangent : log (1 / (k * (c / n))) ≤ 1 / (k * (c / n)) - 1 :=
    log_le_sub_one_of_pos (by positivity)
  have hsplit : log (1 / (k * (c / n))) = -log k - log (c / n) := by
    rw [log_div one_ne_zero (by positivity), log_one, log_mul hk'.ne' hp.ne']
    ring
  have hscaled := mul_le_mul_of_nonneg_left htangent hp.le
  rw [hsplit] at hscaled
  have hcancel : (c : ℝ) / n * (1 / (k * (c / n)) - 1) = 1 / k - c / n := by
    field_simp
  rw [hcancel] at hscaled
  rw [surprise, Nat.cast_ofNat, logb, logb, ← sub_nonneg]
  have heq : (c : ℝ) / n * (log k / log 2) + (1 / k - c / n) / log 2 -
      -((c : ℝ) / n) * (log (c / n) / log 2) =
      (1 / k - c / n - c / n * (-log k - log (c / n))) / log 2 := by
    ring
  rw [heq]
  exact div_nonneg (sub_nonneg.mpr hscaled) hlog2.le

theorem sum_affine (n a b l : ℝ) (cs : List ℕ) :
    (cs.map fun c : ℕ => (c : ℝ) / n * a + (b - c / n) / l).sum =
      cs.sum / n * a + (cs.length * b - cs.sum / n) / l := by
  induction cs with
  | nil => simp
  | cons c cs ih =>
    rw [List.map_cons, List.sum_cons, ih, List.sum_cons, List.length_cons, Nat.cast_add,
      Nat.cast_succ]
    ring

/-- The entropy of counts that are not zero is at most that of as many equal ones. -/
theorem sum_surprise_le {cs : List ℕ} (hpos : ∀ c ∈ cs, 0 < c) (hne : cs ≠ []) :
    (cs.map (surprise cs.sum)).sum ≤ logb 2 cs.length := by
  have hlen : 0 < cs.length := List.length_pos_of_ne_nil hne
  have hsum : 0 < cs.sum := by
    obtain ⟨c, rest, rfl⟩ := List.exists_cons_of_ne_nil hne
    exact Nat.add_pos_left (hpos c (.head _)) _
  have hsum' : (cs.sum : ℝ) ≠ 0 := by exact_mod_cast hsum.ne'
  have hlen' : (cs.length : ℝ) ≠ 0 := by exact_mod_cast hlen.ne'
  calc (cs.map (surprise cs.sum)).sum
      ≤ (cs.map fun c : ℕ =>
          (c : ℝ) / cs.sum * logb 2 cs.length + (1 / cs.length - c / cs.sum) / log 2).sum :=
        List.sum_le_sum fun c hc => surprise_le (hpos c hc) hsum hlen
    _ = logb 2 cs.length := by
        rw [sum_affine, div_self hsum', mul_one_div_cancel hlen', sub_self, zero_div, one_mul,
          add_zero]

/-! ## The entropy -/

/-- The counts of the letters that occur. -/
def letterCounts (xs : List α) : List ℕ := xs.dedup.map xs.count

theorem sum_letterCounts (xs : List α) : (letterCounts xs).sum = xs.length :=
  List.sum_map_count_dedup_eq_length xs

theorem letterCounts_pos {xs : List α} : ∀ c ∈ letterCounts xs, 0 < c := by
  intro c hc
  obtain ⟨x, hx, rfl⟩ := List.mem_map.mp hc
  exact List.count_pos_iff.mpr (List.mem_dedup.mp hx)

/-- The entropy of a text. -/
noncomputable def entropy (xs : List α) : ℝ := ((letterCounts xs).map (surprise xs.length)).sum

/-- The entropy is at most the logarithm of the number of letters. -/
theorem entropy_le_logb {xs : List α} (hne : xs ≠ []) : entropy xs ≤ logb 2 xs.dedup.length := by
  have hcounts : letterCounts xs ≠ [] := fun h => hne <| by
    have hdedup := List.map_eq_nil_iff.mp h
    exact (List.dedup_eq_nil xs).mp hdedup
  have hle := sum_surprise_le letterCounts_pos hcounts
  rwa [sum_letterCounts, letterCounts, List.length_map] at hle

/-- A text with so much entropy has so many letters. -/
theorem rpow_le_of_le_entropy {xs : List α} {bits : ℝ} (hne : xs ≠ []) (h : bits ≤ entropy xs) :
    (2 : ℝ) ^ bits ≤ xs.dedup.length := by
  have hpos : (0 : ℝ) < xs.dedup.length := by
    have hdedup : xs.dedup ≠ [] := fun h => hne ((List.dedup_eq_nil xs).mp h)
    exact_mod_cast List.length_pos_of_ne_nil hdedup
  exact (le_logb_iff_rpow_le one_lt_two hpos).mp (h.trans (entropy_le_logb hne))

/-! ## Tables of counts -/

/-- A table with a place for each byte, which has how often the byte occurs. -/
def Tallies (counts : List ℕ) (bytes : List UInt8) : Prop :=
  counts = (List.range 256).map fun i => bytes.count (UInt8.ofNat i)

/-- The table of the empty text. -/
theorem tallies_nil : Tallies (List.replicate 256 0) [] := by
  rw [Tallies]
  simp [List.map_const']

/-- One byte more. -/
theorem Tallies.set {counts : List ℕ} {bytes : List UInt8} (h : Tallies counts bytes) (b : UInt8) :
    Tallies (counts.set b.toNat (counts.getD b.toNat 0 + 1)) (bytes ++ [b]) := by
  rw [Tallies] at h ⊢
  subst h
  refine List.ext_getElem (by simp) fun i hi hi' => ?_
  have hi : i < 256 := by simpa using hi'
  have hbyte : b = UInt8.ofNat i ↔ b.toNat = i := by
    rw [← UInt8.toNat_inj, UInt8.toNat_ofNat_of_lt' hi]
  rw [List.getElem_set, List.getElem_map, List.getElem_map, List.getElem_range, List.count_append,
    List.count_singleton]
  split
  · next hb =>
    subst hb
    rw [List.getD_eq_getElem _ _ (by simpa using hi), List.getElem_map, List.getElem_range,
      UInt8.ofNat_toNat, beq_self_eq_true, if_pos rfl]
  · next hb =>
    have hne : ¬ (b == UInt8.ofNat i) = true := by simpa [hbyte] using hb
    rw [if_neg hne, Nat.add_zero]

/-- More bytes. -/
theorem Tallies.foldl {counts : List ℕ} {bytes : List UInt8} (data : List UInt8)
    (h : Tallies counts bytes) :
    Tallies (data.foldl (fun counts b => counts.set b.toNat (counts.getD b.toNat 0 + 1)) counts)
      (bytes ++ data) := by
  induction data generalizing counts bytes with
  | nil => rwa [List.append_nil]
  | cons b data ih =>
    rw [List.foldl_cons, ← List.singleton_append, ← List.append_assoc]
    exact ih (h.set b)

/-- The counts that are not zero are those of the bytes that occur. -/
theorem Tallies.perm {counts : List ℕ} {bytes : List UInt8} (h : Tallies counts bytes) :
    (counts.filter (0 < ·)).Perm (letterCounts bytes) := by
  have hnodup : (((List.range 256).filter fun i => decide (0 < bytes.count (UInt8.ofNat i))).map
      UInt8.ofNat).Nodup := by
    refine List.Nodup.map_on (fun i hi j hj heq => ?_) (List.nodup_range.filter _)
    have hi := List.mem_range.mp (List.mem_of_mem_filter hi)
    have hj := List.mem_range.mp (List.mem_of_mem_filter hj)
    have hval := congrArg UInt8.toNat heq
    rwa [UInt8.toNat_ofNat_of_lt' hi, UInt8.toNat_ofNat_of_lt' hj] at hval
  have hbytes : (((List.range 256).filter fun i => decide (0 < bytes.count (UInt8.ofNat i))).map
      UInt8.ofNat).Perm bytes.dedup := by
    refine (List.perm_ext_iff_of_nodup hnodup bytes.nodup_dedup).mpr fun b => ?_
    simp only [List.mem_map, List.mem_filter, List.mem_range, decide_eq_true_eq,
      List.count_pos_iff, List.mem_dedup]
    constructor
    · rintro ⟨i, ⟨-, hmem⟩, rfl⟩
      exact hmem
    · exact fun hmem => ⟨b.toNat, ⟨b.toNat_lt, by rwa [UInt8.ofNat_toNat]⟩, UInt8.ofNat_toNat⟩
  have hcounts := hbytes.map bytes.count
  rw [List.map_map] at hcounts
  rw [h, List.filter_map, letterCounts]
  exact hcounts

/-- So a sum over them is the entropy. -/
theorem Tallies.sum_surprise {counts : List ℕ} {bytes : List UInt8} (h : Tallies counts bytes) :
    ((counts.filter (0 < ·)).map (surprise bytes.length)).sum = entropy bytes :=
  (h.perm.map _).sum_eq

end ActiveDefense
