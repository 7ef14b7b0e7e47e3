import ActiveDefense.Clam.Completeness

/-!
# Overflow in the verification of a hex signature

The bounds of a gap come straight from the text of a signature. `find_backward` adds the least
distance of a gap to the length of the segment in front of it, and this is the one sum of `verify`
that can leave the range of a `usize` (`HexSignature.GapOverflows`): the others saturate, or add up
positions in the buffer. With overflow checks `verify` panics exactly where its backward walk comes
to such a gap (`verify_total_iff`).
-/

namespace ActiveDefense.Clam

namespace HexSignature

section
variable (sig : HexSignature) (buf : Slice)

/-- The least distance of the gap and the length of the segment in front of it do not add up to a
`usize`. -/
def GapOverflows (idx : Nat) : Prop :=
  ∃ gap ∈ sig.gaps[idx]?, ∃ seg ∈ sig.segments[idx]?, usizeMax < (gapBounds gap).1 + seg.len

instance (idx : Nat) : Decidable (sig.GapOverflows idx) :=
  inferInstanceAs (Decidable (∃ gap ∈ sig.gaps[idx]?, ∃ seg ∈ sig.segments[idx]?, _))

/-- The segments after gap `idx` and before the one with index `n`, as a search from the start of
that one. -/
def backwardLinksAfter (idx n : Nat) : List (Link Nat) :=
  (List.range' (idx + 1) (n - (idx + 1))).reverse.map (sig.backwardLink buf)

/-- The search around an anchor at `anchorPos` comes to the gap: the anchor segment matches, and the
nearest occurrences of the segments after it and of those between it and the gap are found. -/
def Reaches (anchorPos idx : Nat) : Prop :=
  sig.AnchorMatches buf anchorPos ∧
    (nearest (sig.forwardLinks buf) (anchorPos - sig.anchorOffset + sig.anchorLen)).isSome ∧
      (nearest (sig.backwardLinksAfter buf idx sig.anchorSegment)
        (anchorPos - sig.anchorOffset)).isSome

instance (anchorPos idx : Nat) : Decidable (sig.Reaches buf anchorPos idx) :=
  inferInstanceAs (Decidable (_ ∧ _ ∧ _))

/-- The search around an anchor at `anchorPos` comes to no gap in front of the anchor that
overflows. -/
def AvoidsOverflow (anchorPos : Nat) : Prop :=
  ∀ idx < sig.anchorSegment, sig.GapOverflows idx → ¬ sig.Reaches buf anchorPos idx

instance (anchorPos : Nat) : Decidable (sig.AvoidsOverflow buf anchorPos) :=
  inferInstanceAs (Decidable (∀ idx < sig.anchorSegment, _))

end

variable {sig : HexSignature} {buf : Slice}

/-- One more segment is the first that the search comes to. -/
theorem backwardLinksAfter_succ {idx n : Nat} (h : idx < n) :
    sig.backwardLinksAfter buf idx (n + 1) =
      sig.backwardLink buf n :: sig.backwardLinksAfter buf idx n := by
  have hcount : n + 1 - (idx + 1) = n - (idx + 1) + 1 := by omega
  have hlast : idx + 1 + (n - (idx + 1)) = n := by omega
  rw [backwardLinksAfter, hcount, List.range'_concat, List.reverse_append, Nat.one_mul, hlast]
  rfl

/-- Right before gap `n` nothing is left to be searched. -/
theorem backwardLinksAfter_self {n : Nat} : sig.backwardLinksAfter buf n (n + 1) = [] := by
  rw [backwardLinksAfter, Nat.sub_self]
  rfl

/-- A gap does not overflow if its sum is a `usize`. -/
theorem not_gapOverflows_iff {idx : Nat} {gap : Gap} {seg : Segment}
    (hgap : sig.gaps[idx]? = some gap) (hseg : sig.segments[idx]? = some seg) :
    ¬ sig.GapOverflows idx ↔ (gapBounds gap).1 + seg.len ≤ usizeMax := by
  simp [GapOverflows, hgap, hseg]

/-- A gap whose sum is a `usize` is one link of the search. -/
theorem walkBackward_cons {idx cursorStart : Nat} {rest : List Nat} {gap : Gap} {seg : Segment}
    (hgap : sig.gaps[idx]? = some gap) (hseg : sig.segments[idx]? = some seg)
    (hsum : (gapBounds gap).1 + seg.len ≤ usizeMax) (hcursor : cursorStart ≤ buf.len) :
    sig.walkBackward buf (idx :: rest) cursorStart =
      match (sig.backwardLink buf idx cursorStart).head? with
      | some pos => sig.walkBackward buf rest pos
      | none => .ok none := by
  have hlink : sig.backwardLink buf idx cursorStart = backwardStarts buf seg gap cursorStart := by
    simp only [backwardLink, hgap, hseg]
  rw [hlink]
  cases hhead : (backwardStarts buf seg gap cursorStart).head? <;>
    simp only [walkBackward, index_of_getElem? hgap, index_of_getElem? hseg,
      findBackward_eq hsum hcursor, hhead, bind, Except.bind]

/-- A gap whose sum is no `usize` ends the walk in a panic. -/
theorem walkBackward_of_overflow {idx cursorStart : Nat} {rest : List Nat} {gap : Gap}
    {seg : Segment} (hgap : sig.gaps[idx]? = some gap) (hseg : sig.segments[idx]? = some seg)
    (hsum : ¬ (gapBounds gap).1 + seg.len ≤ usizeMax) :
    sig.walkBackward buf (idx :: rest) cursorStart = .error .overflow := by
  simp only [walkBackward, index_of_getElem? hgap, index_of_getElem? hseg, findBackward, checkedAdd,
    if_neg hsum, bind, Except.bind]

/-- The backward walk over the first `n` gaps does not panic if and only if it comes to none that
overflows. -/
theorem walkBackward_total_iff (hsig : sig.WellShaped) {n cursorStart : Nat}
    (hn : n ≤ sig.gaps.length) (hcursor : cursorStart ≤ buf.len) :
    (∃ r, sig.walkBackward buf (List.range n).reverse cursorStart = .ok r) ↔
      ∀ idx < n, sig.GapOverflows idx →
        ¬ (nearest (sig.backwardLinksAfter buf idx n) cursorStart).isSome := by
  induction n generalizing cursorStart with
  | zero => exact iff_of_true ⟨_, rfl⟩ fun _ h => absurd h (Nat.not_lt_zero _)
  | succ n ih =>
    obtain ⟨gap, seg, _, hgap, hseg, -⟩ := hsig.exists_segments hn
    have hnot := not_gapOverflows_iff hgap hseg
    have hsplit : (∀ idx < n + 1, sig.GapOverflows idx →
          ¬ (nearest (sig.backwardLinksAfter buf idx (n + 1)) cursorStart).isSome) ↔
        ¬ sig.GapOverflows n ∧ ∀ idx < n, sig.GapOverflows idx →
          ¬ ((sig.backwardLink buf n cursorStart).head?.bind
            (nearest (sig.backwardLinksAfter buf idx n))).isSome := by
      rw [Nat.forall_lt_succ_right, and_comm, backwardLinksAfter_self]
      refine and_congr (by simp [nearest]) ?_
      refine forall_congr' fun idx => forall_congr' fun hidx => ?_
      rw [backwardLinksAfter_succ hidx, nearest]
    rw [hsplit, List.range_succ, List.reverse_append]
    change (∃ r, sig.walkBackward buf (n :: (List.range n).reverse) cursorStart = .ok r) ↔ _
    by_cases hsum : (gapBounds gap).1 + seg.len ≤ usizeMax
    · rw [walkBackward_cons hgap hseg hsum hcursor, and_iff_right (hnot.mpr hsum)]
      cases hhead : (sig.backwardLink buf n cursorStart).head? with
      | none => simp
      | some pos =>
        have hpos : pos ≤ buf.len := le_of_mem_backwardLink (List.mem_of_mem_head? hhead)
        exact ih (Nat.le_of_succ_le hn) hpos
    · rw [walkBackward_of_overflow hgap hseg hsum]
      simp [hnot, hsum]

/-- `verify` neither overflows nor indexes out of bounds if and only if its search comes to no gap
in front of the anchor whose least distance and segment do not add up to a `usize`. -/
theorem verify_total_iff {lineNo : Nat} {name pattern : Str}
    (hsig : HexSignature.parse lineNo name pattern = .ok sig)
    (hlen : (utf8 pattern).length ≤ isizeMax) (buf : Slice) {anchorPos : Nat}
    (hpos : anchorPos ≤ buf.len) :
    (∃ r, sig.verify buf anchorPos = .ok r) ↔ sig.AvoidsOverflow buf anchorPos := by
  have hshape := wellShaped_of_parse hsig
  have hgaps := hshape.gaps_length
  have hlt := hshape.anchor_lt
  have hcursor : anchorPos - sig.anchorOffset ≤ buf.len := by omega
  rw [verify_eq_walks hshape (short_of_parse hsig hlen) hcursor]
  unfold AvoidsOverflow Reaches
  by_cases hmatches : sig.AnchorMatches buf anchorPos
  · rw [if_pos hmatches]
    cases hforward : nearest (sig.forwardLinks buf)
      (anchorPos - sig.anchorOffset + sig.anchorLen) with
    | none => simp
    | some _ =>
      have hwalk : (∃ r, sig.walkBackward buf _ _ = .ok r) ↔ _ :=
        walkBackward_total_iff hshape (show sig.anchorSegment ≤ sig.gaps.length by omega) hcursor
      simpa only [gapsBackward, hmatches, Option.isSome_some, true_and] using hwalk
  · rw [if_neg hmatches]
    simp [hmatches]

/-- The signature of `6161*{min-max}68656c6c6f`: `aa`, and then `hello` at a distance. -/
def aaHello (min max : Nat) : HexSignature where
  name := "t".toList
  segments := [⟨[.byte 0x61, .byte 0x61]⟩, ⟨"hello".toList.map fun c => .byte (.ofNat c.toNat)⟩]
  gaps := [.bounded min max]
  anchorSegment := 1
  anchorOffset := 0
  anchorLiteral := "hello".toList.map fun c => .ofNat c.toNat

/-- The bytes of a text. -/
def textSlice (s : String) (h : s.toList.length ≤ isizeMax) : Slice :=
  ⟨s.toList.map fun c => .ofNat c.toNat, by simpa using h⟩

theorem parse_aaHello_near :
    HexSignature.parse 1 "t".toList "6161*{0-30}68656c6c6f".toList = .ok (aaHello 0 30) := by
  decide

theorem parse_aaHello_far : HexSignature.parse 1 "t".toList
    "6161*{18446744073709551615-18446744073709551615}68656c6c6f".toList =
      .ok (aaHello usizeMax usizeMax) := by
  decide

theorem verify_total_near :
    ∃ r, (aaHello 0 30).verify (textSlice "aa hello" (by decide)) 3 = .ok r :=
  (verify_total_iff parse_aaHello_near (by decide) _ (by decide)).mpr (by decide)

/-- On `hello`, the signature whose gap is as large as can be written panics. -/
theorem not_verify_total :
    ¬ ∀ (lineNo : Nat) (name pattern : Str) (sig : HexSignature) (buf : Slice) (anchorPos : Nat),
      HexSignature.parse lineNo name pattern = .ok sig → (utf8 pattern).length ≤ isizeMax →
        anchorPos ≤ buf.len → ∃ r, sig.verify buf anchorPos = .ok r := by
  intro h
  obtain ⟨r, hr⟩ := h 1 _ _ _ (textSlice "hello" (by decide)) 0 parse_aaHello_far
    (by decide) (by decide)
  have hpanic : (aaHello usizeMax usizeMax).verify (textSlice "hello" (by decide)) 0 =
      .error .overflow := by
    decide
  rw [hpanic] at hr
  cases hr

end HexSignature

end ActiveDefense.Clam
