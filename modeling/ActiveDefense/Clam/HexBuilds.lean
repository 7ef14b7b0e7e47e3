import ActiveDefense.Clam.HexOverflow

/-!
# Hex signatures in a build without overflow checks

The functions of the verification once more, with the checks of the build as a parameter. With the
checks on they are those of `ActiveDefense.Clam.HexSig`. With the checks off they do the same where
those do not panic, and the sum that can overflow wraps: the backward search of a gap then looks for
its segment closer than the least distance (`wrappedStarts`), down to the position in front of which
it starts.
-/

namespace ActiveDefense.Clam

variable (checks : OverflowChecks)

namespace Segment

/-- The test of `matches_at` on one token. -/
def tokenMatchesIn (buf : Slice) (pos : Nat) : Token × Nat → Except Panic Bool
  | (.byte b, i) => do .ok ((← index buf.bytes (← addUsize checks pos i)) == b)
  | (.wildcard, _) => .ok true

/-- `matches_at`. -/
def matchesAtIn (seg : Segment) (buf : Slice) (pos : Nat) : Except Panic Bool := do
  if buf.len < (← addUsize checks pos seg.len) then .ok false
  else allM (tokenMatchesIn checks buf pos) seg.tokens.zipIdx

end Segment

/-- `find_forward`. -/
def findForwardIn (buf : Slice) (seg : Segment) (after : Nat) (gap : Gap) :
    Except Panic (Option Nat) :=
  let (lo, hi) := gapBounds gap
  let first := saturatingAdd after lo
  let last := min (saturatingAdd after hi) buf.len
  findM (seg.matchesAtIn checks buf) (rangeInclusive first last)

/-- `find_backward`. -/
def findBackwardIn (buf : Slice) (seg : Segment) (before : Nat) (gap : Gap) :
    Except Panic (Option Nat) := do
  let (lo, hi) := gapBounds gap
  let minEnd ← addUsize checks lo seg.len
  if before < minEnd then .ok none
  else
    let latestStart ← subUsize checks before minEnd
    let earliestStart := saturatingSub before (saturatingAdd hi seg.len)
    findM (seg.matchesAtIn checks buf) (rangeInclusive earliestStart latestStart).reverse

namespace HexSignature

/-- The walk from the anchor to the end of the pattern. -/
def walkForwardIn (sig : HexSignature) (buf : Slice) :
    List Nat → Nat → Except Panic (Option Nat)
  | [], cursorEnd => .ok (some cursorEnd)
  | idx :: rest, cursorEnd => do
    let gap ← index sig.gaps idx
    let nextSeg ← index sig.segments (idx + 1)
    match ← findForwardIn checks buf nextSeg cursorEnd gap with
    | some pos => walkForwardIn sig buf rest (← addUsize checks pos nextSeg.len)
    | none => .ok none

/-- The walk from the anchor back to the start of the pattern. -/
def walkBackwardIn (sig : HexSignature) (buf : Slice) :
    List Nat → Nat → Except Panic (Option Nat)
  | [], cursorStart => .ok (some cursorStart)
  | idx :: rest, cursorStart => do
    let gap ← index sig.gaps idx
    let prevSeg ← index sig.segments idx
    match ← findBackwardIn checks buf prevSeg cursorStart gap with
    | some pos => walkBackwardIn sig buf rest pos
    | none => .ok none

/-- `verify`. -/
def verifyIn (sig : HexSignature) (buf : Slice) (anchorMatchPos : Nat) :
    Except Panic (Option Nat) := do
  if anchorMatchPos < sig.anchorOffset then .ok none
  else
    let anchorSegStart ← subUsize checks anchorMatchPos sig.anchorOffset
    let anchorSeg ← index sig.segments sig.anchorSegment
    if ← anchorSeg.matchesAtIn checks buf anchorSegStart then
      match ← sig.walkForwardIn checks buf sig.gapsForward
          (← addUsize checks anchorSegStart anchorSeg.len) with
      | some _ => sig.walkBackwardIn checks buf sig.gapsBackward anchorSegStart
      | none => .ok none
    else .ok none

end HexSignature

/-! ## With the checks -/

theorem Segment.matchesAtIn_on : Segment.matchesAtIn .on = Segment.matchesAt := by
  have htoken : Segment.tokenMatchesIn .on = Segment.tokenMatches := by
    funext buf pos ⟨t, i⟩
    cases t <;> rfl
  funext seg buf pos
  rw [Segment.matchesAtIn, htoken]
  rfl

theorem findForwardIn_on : findForwardIn .on = findForward := by
  funext buf seg after gap
  rw [findForwardIn, Segment.matchesAtIn_on]
  rfl

theorem findBackwardIn_on : findBackwardIn .on = findBackward := by
  funext buf seg before gap
  rw [findBackwardIn, Segment.matchesAtIn_on]
  rfl

namespace HexSignature

variable {sig : HexSignature} {buf : Slice}

theorem walkForwardIn_on {idxs : List Nat} {cursorEnd : Nat} :
    sig.walkForwardIn .on buf idxs cursorEnd = sig.walkForward buf idxs cursorEnd := by
  induction idxs generalizing cursorEnd with
  | nil => rfl
  | cons idx idxs ih =>
    simp only [walkForwardIn, findForwardIn_on, addUsize, ih]
    rfl

theorem walkBackwardIn_on {idxs : List Nat} {cursorStart : Nat} :
    sig.walkBackwardIn .on buf idxs cursorStart = sig.walkBackward buf idxs cursorStart := by
  induction idxs generalizing cursorStart with
  | nil => rfl
  | cons idx idxs ih =>
    simp only [walkBackwardIn, findBackwardIn_on, ih]
    rfl

/-- With the checks on, this is the verification of `ActiveDefense.Clam.HexSig`. -/
theorem verifyIn_on {anchorPos : Nat} : sig.verifyIn .on buf anchorPos = sig.verify buf anchorPos := by
  simp only [verifyIn, Segment.matchesAtIn_on, walkForwardIn_on, walkBackwardIn_on, addUsize,
    subUsize]
  rfl

end HexSignature

/-! ## Without the checks -/

section
variable {buf : Slice}

theorem Segment.extends_matchesAtIn {seg : Segment} {pos : Nat} :
    Extends (seg.matchesAt buf pos) (seg.matchesAtIn checks buf pos) := by
  refine (Extends.addUsize checks).bind fun stop => .ite (.refl _) (.allM fun (t, i) => ?_)
  cases t with
  | wildcard => exact .refl _
  | byte b => exact (Extends.addUsize checks).bind fun at_ => .refl _

theorem extends_findForwardIn {seg : Segment} {gap : Gap} {after : Nat} :
    Extends (findForward buf seg after gap) (findForwardIn checks buf seg after gap) :=
  .findM fun _ => seg.extends_matchesAtIn checks

theorem HexSignature.extends_walkForwardIn {sig : HexSignature} {idxs : List Nat}
    {cursorEnd : Nat} :
    Extends (sig.walkForward buf idxs cursorEnd) (sig.walkForwardIn checks buf idxs cursorEnd) := by
  induction idxs generalizing cursorEnd with
  | nil => exact .refl _
  | cons idx idxs ih =>
    refine (Extends.refl _).bind fun gap => (Extends.refl _).bind fun next => ?_
    refine (extends_findForwardIn checks).bind fun found => ?_
    cases found with
    | none => exact .refl _
    | some pos => exact (Extends.addUsize checks).bind fun cursorEnd => ih

end

/-- The occurrences of the segment whose end the gap and `minEnd` allow before `before`, nearest
first. -/
def startsWithin (buf : Slice) (seg : Segment) (gap : Gap) (minEnd before : Nat) : List Nat :=
  if before < minEnd then []
  else (rangeInclusive (before - ((gapBounds gap).2 + seg.len)) (before - minEnd)).reverse.filter
    (seg.MatchesAt buf)

/-- Where the backward search of a gap looks in a build without the checks: where the least distance
and the segment add up past the range, what is left of the sum is no distance. -/
def wrappedStarts (buf : Slice) (seg : Segment) (gap : Gap) (before : Nat) : List Nat :=
  startsWithin buf seg gap (((gapBounds gap).1 + seg.len) % (usizeMax + 1)) before

theorem le_of_mem_startsWithin {buf : Slice} {seg : Segment} {gap : Gap} {minEnd before pos : Nat}
    (h : pos ∈ startsWithin buf seg gap minEnd before) : pos ≤ before := by
  rw [startsWithin] at h
  split at h
  · cases h
  · simp only [List.mem_filter, List.mem_reverse, mem_rangeInclusive] at h
    omega

/-- Within the sum itself, these are the occurrences that the gap allows. -/
theorem startsWithin_eq {buf : Slice} {seg : Segment} {gap : Gap} {minEnd before : Nat}
    (h : minEnd = (gapBounds gap).1 + seg.len) :
    startsWithin buf seg gap minEnd before = backwardStarts buf seg gap before := by
  subst h
  rfl

/-- A sum that does not wrap is a distance. -/
theorem wrappedStarts_eq {buf : Slice} {seg : Segment} {gap : Gap} {before : Nat}
    (hsum : (gapBounds gap).1 + seg.len ≤ usizeMax) :
    wrappedStarts buf seg gap before = backwardStarts buf seg gap before :=
  startsWithin_eq (mod_usize_of_le hsum)

/-- The backward search of a build looks where its sum puts the latest end. -/
theorem findBackwardIn_of_add {buf : Slice} {seg : Segment} {gap : Gap} {minEnd before : Nat}
    (hadd : addUsize checks (gapBounds gap).1 seg.len = .ok minEnd) (hseg : seg.len ≤ isizeMax)
    (hbefore : before ≤ buf.len) :
    findBackwardIn checks buf seg before gap =
      .ok (startsWithin buf seg gap minEnd before).head? := by
  have hmax : before ≤ usizeMax := buf.le_usizeMax hbefore
  simp only [findBackwardIn, hadd, startsWithin, bind, Except.bind]
  split
  · rfl
  · next hroom =>
    have hsub := Extends.subUsize checks hmax _ (checkedSub_of_le (Nat.not_lt.mp hroom))
    have hsat : saturatingSub before (saturatingAdd (gapBounds gap).2 seg.len) =
        before - ((gapBounds gap).2 + seg.len) := by
      simp only [saturatingSub, saturatingAdd]
      omega
    have hfind : ∀ pos ∈ (rangeInclusive (before - ((gapBounds gap).2 + seg.len))
        (before - minEnd)).reverse,
        seg.matchesAtIn checks buf pos = .ok (decide (seg.MatchesAt buf pos)) := by
      intro pos hpos
      have hle := (mem_rangeInclusive.mp (List.mem_reverse.mp hpos)).2
      have hend := buf.add_isize_le_usizeMax (m := pos) (by omega) hseg
      exact seg.extends_matchesAtIn checks _ (Segment.matchesAt_eq hend)
    simp only [hsub, hsat, findM_of_ok hfind, List.head?_filter]

/-- The backward search of a build without the checks. -/
theorem findBackwardIn_off {buf : Slice} {seg : Segment} {gap : Gap} {before : Nat}
    (hseg : seg.len ≤ isizeMax) (hbefore : before ≤ buf.len) :
    findBackwardIn .off buf seg before gap = .ok (wrappedStarts buf seg gap before).head? :=
  findBackwardIn_of_add .off rfl hseg hbefore

namespace HexSignature

variable (sig : HexSignature) (buf : Slice)

/-- The link of gap `idx` in the backward walk of a build without the checks. -/
def wrappedLink (idx : Nat) : Link Nat := fun before =>
  match sig.gaps[idx]?, sig.segments[idx]? with
  | some gap, some seg => wrappedStarts buf seg gap before
  | _, _ => []

/-- The segments before the anchor segment, as a build without the checks searches for them. -/
def wrappedLinks : List (Link Nat) := sig.gapsBackward.map (sig.wrappedLink buf)

variable {sig buf}

/-- A gap that does not overflow is the same link in every build. -/
theorem wrappedLink_eq {idx : Nat} (h : ¬ sig.GapOverflows idx) :
    sig.wrappedLink buf idx = sig.backwardLink buf idx := by
  funext before
  rw [wrappedLink, backwardLink]
  cases hgap : sig.gaps[idx]? with
  | none => rfl
  | some gap =>
    cases hseg : sig.segments[idx]? with
    | none => rfl
    | some seg => exact wrappedStarts_eq ((not_gapOverflows_iff hgap hseg).mp h)

/-- Without the checks the backward walk does not panic. -/
theorem walkBackwardIn_off (hsig : sig.WellShaped) (hshort : sig.Short) {idxs : List Nat}
    (hidxs : ∀ idx ∈ idxs, idx < sig.gaps.length) {cursorStart : Nat}
    (hcursor : cursorStart ≤ buf.len) :
    sig.walkBackwardIn .off buf idxs cursorStart =
      .ok (nearest (idxs.map (sig.wrappedLink buf)) cursorStart) := by
  induction idxs generalizing cursorStart with
  | nil => rfl
  | cons idx idxs ih =>
    obtain ⟨gap, seg, _, hgap, hseg, -⟩ := hsig.exists_segments (hidxs idx (.head _))
    simp only [walkBackwardIn, index_of_getElem? hgap, index_of_getElem? hseg, List.map_cons,
      nearest, wrappedLink, hgap, hseg, findBackwardIn_off (hshort _ _ hseg) hcursor, bind,
      Except.bind]
    cases hhead : (wrappedStarts buf seg gap cursorStart).head? with
    | none => rfl
    | some pos =>
      have hle := le_of_mem_startsWithin (List.mem_of_mem_head? hhead)
      exact ih (fun i hi => hidxs i (List.mem_cons_of_mem _ hi)) (by omega)

/-- Without the checks, `verify` finds what its two searches find where the anchor segment
matches. -/
theorem verifyIn_off (hsig : sig.WellShaped) (hshort : sig.Short) {anchorPos : Nat}
    (hpos : anchorPos ≤ buf.len) :
    sig.verifyIn .off buf anchorPos = .ok
      (if sig.AnchorMatches buf anchorPos then
        (nearest (sig.forwardLinks buf)
          (anchorPos - sig.anchorOffset + sig.anchorLen)).bind fun _ =>
            nearest (sig.wrappedLinks buf) (anchorPos - sig.anchorOffset)
      else none) := by
  have hlen := hsig.gaps_length
  obtain ⟨seg, hseg⟩ : ∃ seg, sig.segments[sig.anchorSegment]? = some seg :=
    ⟨_, List.getElem?_eq_getElem hsig.anchor_lt⟩
  have hcursor : anchorPos - sig.anchorOffset ≤ buf.len := by omega
  have hmax := buf.add_isize_le_usizeMax hcursor (hshort _ _ hseg)
  have hanchorLen : sig.anchorLen = seg.len := by simp [anchorLen, hseg]
  have hforward : ∀ idx ∈ sig.gapsForward, idx < sig.gaps.length := by
    intro idx hidx
    simp only [gapsForward, List.mem_range'_1] at hidx
    omega
  have hbackward : ∀ idx ∈ sig.gapsBackward, idx < sig.gaps.length := by
    intro idx hidx
    simp only [gapsBackward, List.mem_reverse, List.mem_range] at hidx
    have := hsig.anchor_lt
    omega
  have hmatches : sig.AnchorMatches buf anchorPos ↔
      sig.anchorOffset ≤ anchorPos ∧ seg.MatchesAt buf (anchorPos - sig.anchorOffset) := by
    simp [AnchorMatches, hseg]
  rw [verifyIn, hanchorLen]
  by_cases hoffset : anchorPos < sig.anchorOffset
  · rw [if_pos hoffset, if_neg fun h => absurd h.1 (Nat.not_le.mpr hoffset)]
  · have hle := Nat.not_lt.mp hoffset
    have hstart := Extends.subUsize .off (buf.le_usizeMax hpos) _ (checkedSub_of_le hle)
    have hmatch : seg.matchesAt buf _ = _ := Segment.matchesAt_eq hmax
    have hanchor := seg.extends_matchesAtIn .off _ hmatch
    have hend := Extends.addUsize .off _ (checkedAdd_of_le hmax)
    have hforwardWalk : sig.walkForward buf _ _ = _ :=
      walkForward_eq hsig hshort hforward (anchorPos - sig.anchorOffset + seg.len)
    have hwalk := extends_walkForwardIn .off _ hforwardWalk
    simp only [if_neg hoffset, hstart, index_of_getElem? hseg, hanchor, hend, hwalk,
      walkBackwardIn_off hsig hshort hbackward hcursor, forwardLinks, wrappedLinks, hmatches, hle,
      true_and, bind, Except.bind, decide_eq_true_eq]
    split
    · cases nearest (sig.gapsForward.map (sig.forwardLink buf))
        (anchorPos - sig.anchorOffset + seg.len) <;> rfl
    · rfl

end HexSignature

end ActiveDefense.Clam
