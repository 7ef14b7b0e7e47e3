import ActiveDefense.Clam.HexSig
import ActiveDefense.Lib.NearestSearch

/-!
# Which placements of a hex signature the scanner finds

A `Placement` puts every segment of a signature somewhere in the buffer and keeps every gap within
its bounds. `HexSignature.verify` looks for one around an occurrence of the anchor, and takes the
nearest occurrence of each segment without ever going back. Under a placement nothing in it
panics, and its two walks are the searches `nearest` along `forwardLink` and `backwardLink`;
`verify_complete_iff` then says on which inputs it finds a match when there is one.
-/

namespace ActiveDefense.Clam

/-! ## Occurrences of a segment -/

/-- The byte is the one the token asks for. -/
def Token.Agrees : Token → Option UInt8 → Prop
  | .byte b, x => x = some b
  | .wildcard, _ => True

instance : ∀ (t : Token) (x : Option UInt8), Decidable (t.Agrees x)
  | .byte b, x => inferInstanceAs (Decidable (x = some b))
  | .wildcard, _ => .isTrue trivial

/-- The segment lies in the buffer at `pos` and agrees with its bytes. -/
def Segment.MatchesAt (seg : Segment) (buf : Slice) (pos : Nat) : Prop :=
  pos + seg.len ≤ buf.len ∧ ∀ p ∈ seg.tokens.zipIdx, p.1.Agrees buf.bytes[pos + p.2]?

instance (seg : Segment) (buf : Slice) (pos : Nat) : Decidable (seg.MatchesAt buf pos) :=
  inferInstanceAs (Decidable (_ ∧ _))

/-- Inside the buffer, the test of a token reads the byte at its position. -/
theorem Segment.tokenMatches_eq {buf : Slice} {pos : Nat} {p : Token × Nat}
    (h : pos + p.2 < buf.len) :
    Segment.tokenMatches buf pos p = .ok (decide (p.1.Agrees buf.bytes[pos + p.2]?)) := by
  obtain ⟨t, i⟩ := p
  cases t with
  | wildcard => rfl
  | byte b =>
    have hmax : pos + i ≤ usizeMax := buf.le_usizeMax (Nat.le_of_lt h)
    obtain ⟨x, hget⟩ : ∃ x, buf.bytes[pos + i]? = some x := ⟨_, List.getElem?_eq_getElem h⟩
    rw [Segment.tokenMatches, checkedAdd_of_le hmax]
    simp only [bind, Except.bind, index_of_getElem? hget, Token.Agrees, hget, Option.some.injEq]
    rfl

/-- Where the end of the segment is a `usize`, `matches_at` does not panic. -/
theorem Segment.matchesAt_eq {seg : Segment} {buf : Slice} {pos : Nat}
    (h : pos + seg.len ≤ usizeMax) :
    seg.matchesAt buf pos = .ok (decide (seg.MatchesAt buf pos)) := by
  rw [Segment.matchesAt, checkedAdd_of_le h]
  simp only [bind, Except.bind]
  by_cases hlen : buf.len < pos + seg.len
  · have hout : ¬ seg.MatchesAt buf pos := fun hm => absurd hm.1 (Nat.not_le.mpr hlen)
    simp [hlen, hout]
  · rw [if_neg hlen]
    have htokens : ∀ p ∈ seg.tokens.zipIdx, tokenMatches buf pos p =
        .ok (decide (p.1.Agrees buf.bytes[pos + p.2]?)) := by
      intro p hp
      have hlt : p.2 < seg.len := List.snd_lt_of_mem_zipIdx hp
      exact tokenMatches_eq (by omega)
    rw [allM_of_ok htokens]
    simp only [Segment.MatchesAt, Nat.not_lt.mp hlen, true_and, List.all_eq, decide_eq_true_eq]

/-! ## Candidates of a search -/

/-- The occurrences of the segment after `after` that keep the gap, nearest first. -/
def forwardStarts (buf : Slice) (seg : Segment) (gap : Gap) (after : Nat) : List Nat :=
  (rangeInclusive (after + (gapBounds gap).1) (min (after + (gapBounds gap).2) buf.len)).filter
    (seg.MatchesAt buf)

/-- The occurrences of the segment before `before` that keep the gap, nearest first. -/
def backwardStarts (buf : Slice) (seg : Segment) (gap : Gap) (before : Nat) : List Nat :=
  if before < (gapBounds gap).1 + seg.len then []
  else (rangeInclusive (before - ((gapBounds gap).2 + seg.len))
    (before - ((gapBounds gap).1 + seg.len))).reverse.filter (seg.MatchesAt buf)

theorem mem_rangeInclusive {first last pos : Nat} :
    pos ∈ rangeInclusive first last ↔ first ≤ pos ∧ pos ≤ last := by
  simp only [rangeInclusive, List.mem_range'_1]
  omega

theorem mem_forwardStarts {buf : Slice} {seg : Segment} {gap : Gap} {after pos : Nat} :
    pos ∈ forwardStarts buf seg gap after ↔
      after + (gapBounds gap).1 ≤ pos ∧ pos ≤ after + (gapBounds gap).2 ∧
        seg.MatchesAt buf pos := by
  simp only [forwardStarts, List.mem_filter, mem_rangeInclusive, decide_eq_true_eq]
  constructor
  · rintro ⟨⟨hlo, hhi⟩, hm⟩
    exact ⟨hlo, by omega, hm⟩
  · rintro ⟨hlo, hhi, hm⟩
    have hfit := hm.1
    exact ⟨⟨hlo, by omega⟩, hm⟩

theorem mem_backwardStarts {buf : Slice} {seg : Segment} {gap : Gap} {before pos : Nat} :
    pos ∈ backwardStarts buf seg gap before ↔
      pos + seg.len + (gapBounds gap).1 ≤ before ∧ before ≤ pos + seg.len + (gapBounds gap).2 ∧
        seg.MatchesAt buf pos := by
  rw [backwardStarts]
  split
  · simp only [List.not_mem_nil, false_iff, not_and]
    omega
  · simp only [List.mem_filter, List.mem_reverse, mem_rangeInclusive, decide_eq_true_eq]
    constructor
    · rintro ⟨⟨hlo, hhi⟩, hm⟩
      exact ⟨by omega, by omega, hm⟩
    · rintro ⟨hlo, hhi, hm⟩
      exact ⟨⟨by omega, by omega⟩, hm⟩

/-- The forward search returns the nearest candidate. -/
theorem findForward_eq {buf : Slice} {seg : Segment} {gap : Gap} {after : Nat}
    (hseg : seg.len ≤ isizeMax) :
    findForward buf seg after gap = .ok (forwardStarts buf seg gap after).head? := by
  have hbuf : buf.len ≤ isizeMax := buf.length_le
  have hrange : rangeInclusive (saturatingAdd after (gapBounds gap).1)
      (min (saturatingAdd after (gapBounds gap).2) buf.len) =
      rangeInclusive (after + (gapBounds gap).1) (min (after + (gapBounds gap).2) buf.len) := by
    -- a start that saturates is past the buffer, and so is the exact one: both ranges are empty
    simp only [rangeInclusive, saturatingAdd, usizeMax, isizeMax] at *
    by_cases hsat : after + (gapBounds gap).1 ≤ 2 ^ 64 - 1
    · congr 1 <;> omega
    · rw [show min (min (after + (gapBounds gap).2) (2 ^ 64 - 1)) buf.len + 1 -
          min (after + (gapBounds gap).1) (2 ^ 64 - 1) = 0 by omega,
        show min (after + (gapBounds gap).2) buf.len + 1 - (after + (gapBounds gap).1) = 0 by omega]
      rfl
  have hfind : ∀ pos ∈ rangeInclusive (after + (gapBounds gap).1)
      (min (after + (gapBounds gap).2) buf.len),
      seg.matchesAt buf pos = .ok (decide (seg.MatchesAt buf pos)) := by
    intro pos hpos
    have hle := (mem_rangeInclusive.mp hpos).2
    exact Segment.matchesAt_eq (buf.add_isize_le_usizeMax (by omega) hseg)
  simp only [findForward, hrange, findM_of_ok hfind, forwardStarts, List.head?_filter]

/-- The backward search returns the nearest candidate. -/
theorem findBackward_eq {buf : Slice} {seg : Segment} {gap : Gap} {before : Nat}
    (hmin : (gapBounds gap).1 + seg.len ≤ usizeMax) (hbefore : before ≤ buf.len) :
    findBackward buf seg before gap = .ok (backwardStarts buf seg gap before).head? := by
  have hbuf : buf.len ≤ isizeMax := buf.length_le
  simp only [findBackward, checkedAdd_of_le hmin, backwardStarts, bind, Except.bind]
  split
  · rfl
  · next hroom =>
    rw [checkedSub_of_le (Nat.not_lt.mp hroom)]
    have hsat : saturatingSub before (saturatingAdd (gapBounds gap).2 seg.len) =
        before - ((gapBounds gap).2 + seg.len) := by
      simp only [saturatingSub, saturatingAdd, usizeMax, isizeMax] at *
      omega
    have hfind : ∀ pos ∈ (rangeInclusive (before - ((gapBounds gap).2 + seg.len))
        (before - ((gapBounds gap).1 + seg.len))).reverse,
        seg.matchesAt buf pos = .ok (decide (seg.MatchesAt buf pos)) := by
      intro pos hpos
      have hle := (mem_rangeInclusive.mp (List.mem_reverse.mp hpos)).2
      exact Segment.matchesAt_eq (buf.le_usizeMax (by omega))
    simp only [hsat, findM_of_ok hfind, List.head?_filter]

/-! ## Placements -/

/-- A placement of all segments of the signature in the buffer that puts the anchor at
`anchorPos`. -/
structure Placement (sig : HexSignature) (buf : Slice) (anchorPos : Nat) where
  pos : Nat → Nat
  matchesAt : ∀ (i : Nat) (seg : Segment), sig.segments[i]? = some seg → seg.MatchesAt buf (pos i)
  gap : ∀ (i : Nat) (seg : Segment) (gap : Gap), sig.segments[i]? = some seg → sig.gaps[i]? = some gap →
    pos i + seg.len + (gapBounds gap).1 ≤ pos (i + 1) ∧
      pos (i + 1) ≤ pos i + seg.len + (gapBounds gap).2
  anchor : pos sig.anchorSegment + sig.anchorOffset = anchorPos

namespace HexSignature

variable (sig : HexSignature) (buf : Slice)

/-- The link of gap `idx` in the forward walk, between the ends of its two segments. -/
def forwardLink (idx : Nat) : Link Nat := fun after =>
  match sig.gaps[idx]?, sig.segments[idx + 1]? with
  | some gap, some seg => (forwardStarts buf seg gap after).map (· + seg.len)
  | _, _ => []

/-- The link of gap `idx` in the backward walk, between the starts of its two segments. -/
def backwardLink (idx : Nat) : Link Nat := fun before =>
  match sig.gaps[idx]?, sig.segments[idx]? with
  | some gap, some seg => backwardStarts buf seg gap before
  | _, _ => []

/-- The segments after the anchor segment, as a search from the end of the anchor segment. -/
def forwardLinks : List (Link Nat) := sig.gapsForward.map (sig.forwardLink buf)

/-- The segments before the anchor segment, as a search from the start of the anchor segment. -/
def backwardLinks : List (Link Nat) := sig.gapsBackward.map (sig.backwardLink buf)

/-- The length of the anchor segment. -/
def anchorLen : Nat := (sig.segments[sig.anchorSegment]?.map Segment.len).getD 0

/-- Around the anchor at `anchorPos`, the nearest occurrence of a segment is never one from which
the rest of the signature cannot be placed while it can be from another occurrence. -/
def NearestSufficesAt (anchorPos : Nat) : Prop :=
  NearestSuffices (sig.forwardLinks buf) (anchorPos - sig.anchorOffset + sig.anchorLen) ∧
    NearestSuffices (sig.backwardLinks buf) (anchorPos - sig.anchorOffset)

instance (anchorPos : Nat) : Decidable (sig.NearestSufficesAt buf anchorPos) :=
  inferInstanceAs (Decidable (_ ∧ _))

/-- Every segment fits into the buffer, and so does every segment with the least gap after it. -/
structure Fits : Prop where
  segment : ∀ (i : Nat) (seg : Segment), sig.segments[i]? = some seg → seg.len ≤ buf.len
  gap : ∀ (i : Nat) (seg : Segment) (gap : Gap), sig.segments[i]? = some seg → sig.gaps[i]? = some gap →
    (gapBounds gap).1 + seg.len ≤ buf.len

variable {sig buf}

theorem mem_forwardLink {idx after pos : Nat} {gap : Gap} {seg : Segment}
    (hgap : sig.gaps[idx]? = some gap) (hseg : sig.segments[idx + 1]? = some seg)
    (hm : seg.MatchesAt buf pos) (hlo : after + (gapBounds gap).1 ≤ pos)
    (hhi : pos ≤ after + (gapBounds gap).2) : pos + seg.len ∈ sig.forwardLink buf idx after := by
  rw [forwardLink, hgap, hseg]
  exact List.mem_map_of_mem (mem_forwardStarts.mpr ⟨hlo, hhi, hm⟩)

theorem mem_backwardLink {idx before pos : Nat} {gap : Gap} {seg : Segment}
    (hgap : sig.gaps[idx]? = some gap) (hseg : sig.segments[idx]? = some seg)
    (hm : seg.MatchesAt buf pos) (hlo : pos + seg.len + (gapBounds gap).1 ≤ before)
    (hhi : before ≤ pos + seg.len + (gapBounds gap).2) :
    pos ∈ sig.backwardLink buf idx before := by
  rw [backwardLink, hgap, hseg]
  exact mem_backwardStarts.mpr ⟨hlo, hhi, hm⟩

end HexSignature

/-- In a well-shaped signature every gap has a segment on either side. -/
theorem HexSignature.WellShaped.exists_segments {sig : HexSignature} (hsig : sig.WellShaped)
    {idx : Nat} (h : idx < sig.gaps.length) :
    ∃ gap seg next, sig.gaps[idx]? = some gap ∧ sig.segments[idx]? = some seg ∧
      sig.segments[idx + 1]? = some next := by
  have hlen := hsig.gaps_length
  exact ⟨_, _, _, List.getElem?_eq_getElem h, List.getElem?_eq_getElem (by omega),
    List.getElem?_eq_getElem (by omega)⟩

namespace Placement

variable {sig : HexSignature} {buf : Slice} {anchorPos : Nat}

/-- A placement shows that the signature fits into the buffer. -/
theorem fits (p : Placement sig buf anchorPos) (hsig : sig.WellShaped) : sig.Fits buf where
  segment i seg hseg := by
    have := (p.matchesAt i seg hseg).1
    omega
  gap i seg gap hseg hgap := by
    obtain ⟨_, _, _, -, -, hnext⟩ := hsig.exists_segments (List.getElem?_eq_some_iff.mp hgap).1
    have hfit := (p.matchesAt (i + 1) _ hnext).1
    have hdist := (p.gap i seg gap hseg hgap).1
    omega

/-- A placement completes the forward search from each of its segments. -/
theorem completable_forward (p : Placement sig buf anchorPos) (hsig : sig.WellShaped)
    {n i : Nat} {seg : Segment} (hseg : sig.segments[i]? = some seg)
    (hn : i + n ≤ sig.gaps.length) :
    Completable ((List.range' i n).map (sig.forwardLink buf)) (p.pos i + seg.len) := by
  induction n generalizing i seg with
  | zero => trivial
  | succ n ih =>
    have hi : i < sig.gaps.length := by omega
    obtain ⟨_, _, _, hgap, -, hnext⟩ := hsig.exists_segments hi
    obtain ⟨hlo, hhi⟩ := p.gap i _ _ hseg hgap
    have hm := p.matchesAt (i + 1) _ hnext
    exact ⟨_, HexSignature.mem_forwardLink hgap hnext hm hlo hhi, ih hnext (by omega)⟩

/-- A placement completes the backward search from each of its segments. -/
theorem completable_backward (p : Placement sig buf anchorPos) (hsig : sig.WellShaped)
    {n : Nat} (hn : n ≤ sig.gaps.length) :
    Completable ((List.range n).reverse.map (sig.backwardLink buf)) (p.pos n) := by
  induction n with
  | zero => trivial
  | succ n ih =>
    obtain ⟨_, _, _, hgap, hseg, -⟩ := hsig.exists_segments hn
    obtain ⟨hlo, hhi⟩ := p.gap n _ _ hseg hgap
    have hm := p.matchesAt n _ hseg
    rw [List.range_succ, List.reverse_append]
    exact ⟨_, HexSignature.mem_backwardLink hgap hseg hm hlo hhi, ih (by omega)⟩

end Placement

/-! ## The two walks -/

namespace HexSignature

variable {sig : HexSignature} {buf : Slice}

/-- Segments that are no longer than a slice can be, as those of a pattern are. -/
def Short (sig : HexSignature) : Prop :=
  ∀ (i : Nat) (seg : Segment), sig.segments[i]? = some seg → seg.len ≤ isizeMax

theorem Fits.short (hfits : sig.Fits buf) : sig.Short := fun i seg hseg =>
  Nat.le_trans (hfits.segment i seg hseg) buf.length_le

/-- The segments of a pattern are no longer than its text. -/
theorem short_of_parse {lineNo : Nat} {name pattern : Str}
    (hsig : HexSignature.parse lineNo name pattern = .ok sig)
    (hlen : (utf8 pattern).length ≤ isizeMax) : sig.Short := fun _ _ hseg =>
  Nat.le_trans (len_le_of_parse hsig (List.mem_of_getElem? hseg)) hlen

/-- The forward walk is the nearest search along the links. -/
theorem walkForward_eq (hsig : sig.WellShaped) (hshort : sig.Short) {idxs : List Nat}
    (hidxs : ∀ idx ∈ idxs, idx < sig.gaps.length) (cursorEnd : Nat) :
    sig.walkForward buf idxs cursorEnd =
      .ok (nearest (idxs.map (sig.forwardLink buf)) cursorEnd) := by
  induction idxs generalizing cursorEnd with
  | nil => rfl
  | cons idx idxs ih =>
    obtain ⟨gap, _, next, hgap, -, hnext⟩ := hsig.exists_segments (hidxs idx (.head _))
    have hfit := hshort _ _ hnext
    have hrest := ih fun i hi => hidxs i (List.mem_cons_of_mem _ hi)
    simp only [walkForward, index_of_getElem? hgap, index_of_getElem? hnext, List.map_cons,
      nearest, forwardLink, hgap, hnext, findForward_eq hfit, List.head?_map, bind, Except.bind]
    cases hhead : (forwardStarts buf next gap cursorEnd).head? with
    | none => rfl
    | some pos =>
      have hend := (mem_forwardStarts.mp (List.mem_of_mem_head? hhead)).2.2.1
      simp only [checkedAdd_of_le (buf.le_usizeMax hend), hrest, Option.map_some, Option.bind_some]

/-- Where the signature fits, the backward walk is the nearest search along the links. -/
theorem walkBackward_eq (hsig : sig.WellShaped) (hfits : sig.Fits buf) {idxs : List Nat}
    (hidxs : ∀ idx ∈ idxs, idx < sig.gaps.length) {cursorStart : Nat}
    (hcursor : cursorStart ≤ buf.len) :
    sig.walkBackward buf idxs cursorStart =
      .ok (nearest (idxs.map (sig.backwardLink buf)) cursorStart) := by
  induction idxs generalizing cursorStart with
  | nil => rfl
  | cons idx idxs ih =>
    obtain ⟨gap, seg, _, hgap, hseg, -⟩ := hsig.exists_segments (hidxs idx (.head _))
    have hfit := buf.le_usizeMax (hfits.gap _ _ _ hseg hgap)
    simp only [walkBackward, index_of_getElem? hgap, index_of_getElem? hseg, List.map_cons,
      nearest, backwardLink, hgap, hseg, findBackward_eq hfit hcursor, bind, Except.bind]
    cases hhead : (backwardStarts buf seg gap cursorStart).head? with
    | none => rfl
    | some pos =>
      have hend := (mem_backwardStarts.mp (List.mem_of_mem_head? hhead)).1
      exact ih (fun i hi => hidxs i (List.mem_cons_of_mem _ hi)) (by omega)

variable (sig buf) in
/-- The anchor segment lies where an anchor at `anchorPos` puts it. -/
def AnchorMatches (anchorPos : Nat) : Prop :=
  sig.anchorOffset ≤ anchorPos ∧ ∀ seg ∈ sig.segments[sig.anchorSegment]?,
    seg.MatchesAt buf (anchorPos - sig.anchorOffset)

instance (anchorPos : Nat) : Decidable (sig.AnchorMatches buf anchorPos) :=
  inferInstanceAs (Decidable (_ ∧ _))

/-- `verify` walks where the anchor segment matches. -/
theorem verify_eq_walks (hsig : sig.WellShaped) (hshort : sig.Short) {anchorPos : Nat}
    (hpos : anchorPos - sig.anchorOffset ≤ buf.len) :
    sig.verify buf anchorPos =
      if sig.AnchorMatches buf anchorPos then
        match nearest (sig.forwardLinks buf) (anchorPos - sig.anchorOffset + sig.anchorLen) with
        | some _ => sig.walkBackward buf sig.gapsBackward (anchorPos - sig.anchorOffset)
        | none => .ok none
      else .ok none := by
  have hlen := hsig.gaps_length
  obtain ⟨seg, hseg⟩ : ∃ seg, sig.segments[sig.anchorSegment]? = some seg :=
    ⟨_, List.getElem?_eq_getElem hsig.anchor_lt⟩
  have hmax := buf.add_isize_le_usizeMax hpos (hshort _ _ hseg)
  have hanchorLen : sig.anchorLen = seg.len := by simp [anchorLen, hseg]
  have hforward : ∀ idx ∈ sig.gapsForward, idx < sig.gaps.length := by
    intro idx hidx
    simp only [gapsForward, List.mem_range'_1] at hidx
    omega
  have hmatches : sig.AnchorMatches buf anchorPos ↔
      sig.anchorOffset ≤ anchorPos ∧ seg.MatchesAt buf (anchorPos - sig.anchorOffset) := by
    simp [AnchorMatches, hseg]
  rw [verify, hanchorLen]
  by_cases hoffset : anchorPos < sig.anchorOffset
  · rw [if_pos hoffset, if_neg fun h => absurd h.1 (Nat.not_le.mpr hoffset)]
  · have hle := Nat.not_lt.mp hoffset
    have hwalk : sig.walkForward buf sig.gapsForward (anchorPos - sig.anchorOffset + seg.len) =
        .ok (nearest (sig.forwardLinks buf) (anchorPos - sig.anchorOffset + seg.len)) :=
      walkForward_eq hsig hshort hforward _
    by_cases hm : seg.MatchesAt buf (anchorPos - sig.anchorOffset)
    · rw [if_pos (hmatches.mpr ⟨hle, hm⟩)]
      cases hnext : nearest (sig.forwardLinks buf) (anchorPos - sig.anchorOffset + seg.len) <;>
        simp only [if_neg hoffset, checkedSub_of_le hle, index_of_getElem? hseg,
          Segment.matchesAt_eq hmax, hm, checkedAdd_of_le hmax, hwalk, hnext, decide_true, if_true,
          bind, Except.bind]
    · rw [if_neg fun h => hm (hmatches.mp h).2]
      simp only [if_neg hoffset, checkedSub_of_le hle, index_of_getElem? hseg,
        Segment.matchesAt_eq hmax, hm, decide_false, Bool.false_eq_true, if_false, bind,
        Except.bind]

/-- Where the signature fits and the anchor segment matches, `verify` is the two nearest searches
around the anchor. -/
theorem verify_eq (hsig : sig.WellShaped) (hfits : sig.Fits buf) {anchorPos : Nat} {seg : Segment}
    (hseg : sig.segments[sig.anchorSegment]? = some seg) (hoffset : sig.anchorOffset ≤ anchorPos)
    (hm : seg.MatchesAt buf (anchorPos - sig.anchorOffset)) :
    sig.verify buf anchorPos =
      .ok ((nearest (sig.forwardLinks buf) (anchorPos - sig.anchorOffset + seg.len)).bind fun _ =>
        nearest (sig.backwardLinks buf) (anchorPos - sig.anchorOffset)) := by
  have hlen := hsig.gaps_length
  have hlt := hsig.anchor_lt
  have hfit := hm.1
  have hcursor : anchorPos - sig.anchorOffset ≤ buf.len := by omega
  have hbackward : ∀ idx ∈ sig.gapsBackward, idx < sig.gaps.length := by
    intro idx hidx
    simp only [gapsBackward, List.mem_reverse, List.mem_range] at hidx
    omega
  have hmatches : sig.AnchorMatches buf anchorPos := by
    refine ⟨hoffset, fun s hs => ?_⟩
    rw [hseg] at hs
    cases hs
    exact hm
  have hanchorLen : sig.anchorLen = seg.len := by simp [anchorLen, hseg]
  rw [verify_eq_walks hsig hfits.short hcursor, if_pos hmatches, hanchorLen,
    walkBackward_eq hsig hfits hbackward hcursor, ← backwardLinks]
  cases nearest (sig.forwardLinks buf) (anchorPos - sig.anchorOffset + seg.len) <;> rfl

/-- Under a placement, `verify` finds a match exactly when the nearest occurrences suffice. -/
theorem verify_isSome_iff (hsig : sig.WellShaped) {anchorPos : Nat}
    (p : Placement sig buf anchorPos) :
    (∃ start, sig.verify buf anchorPos = .ok (some start)) ↔
      sig.NearestSufficesAt buf anchorPos := by
  have hlen := hsig.gaps_length
  have hlt := hsig.anchor_lt
  have hseg : sig.segments[sig.anchorSegment]? = some sig.segments[sig.anchorSegment] :=
    List.getElem?_eq_getElem hlt
  have hanchor := p.anchor
  have hstart : anchorPos - sig.anchorOffset = p.pos sig.anchorSegment := by omega
  have hm := p.matchesAt _ _ hseg
  have hf : Completable (sig.forwardLinks buf) _ := p.completable_forward hsig hseg (by omega)
  have hb : Completable (sig.backwardLinks buf) _ := p.completable_backward hsig (by omega)
  have hanchorLen : sig.anchorLen = sig.segments[sig.anchorSegment].len := by
    simp [anchorLen, hseg]
  rw [verify_eq hsig (p.fits hsig) hseg (by omega) (hstart ▸ hm), NearestSufficesAt, hstart,
    hanchorLen, ← nearest_isSome_iff hf, ← nearest_isSome_iff hb]
  simp [Option.isSome_iff_exists, Option.bind_eq_some_iff]

/-! ### Gaps that may span the whole buffer -/

/-- The first element of a list in strict order comes before the others. -/
theorem rel_head?_of_pairwise {r : Nat → Nat → Prop} {xs : List Nat} (h : xs.Pairwise r) {y z : Nat}
    (hy : y ∈ xs.head?) (hz : z ∈ xs) : z = y ∨ r y z := by
  cases xs with
  | nil => cases hz
  | cons x xs =>
    cases hy
    exact (List.mem_cons.mp hz).imp id (List.rel_of_pairwise_cons h)

/-- The first candidate of a forward link is the least. -/
theorem forwardLink_nearest {idx after y z : Nat} (hy : y ∈ (sig.forwardLink buf idx after).head?)
    (hz : z ∈ sig.forwardLink buf idx after) : y ≤ z := by
  have hsorted : (sig.forwardLink buf idx after).Pairwise (· < ·) := by
    rw [forwardLink]
    split
    · next gap seg _ _ =>
      have hstarts : (forwardStarts buf seg gap after).Pairwise (· < ·) :=
        List.Pairwise.filter _ List.pairwise_lt_range'
      exact List.pairwise_map.mpr (hstarts.imp fun h => Nat.add_lt_add_right h _)
    · exact .nil
  have := rel_head?_of_pairwise hsorted hy hz
  omega

/-- The first candidate of a backward link is the greatest. -/
theorem backwardLink_nearest {idx before y z : Nat}
    (hy : y ∈ (sig.backwardLink buf idx before).head?)
    (hz : z ∈ sig.backwardLink buf idx before) : z ≤ y := by
  have hsorted : (sig.backwardLink buf idx before).Pairwise (fun a b => b < a) := by
    rw [backwardLink]
    split
    · next gap seg _ _ =>
      rw [backwardStarts]
      split
      · exact .nil
      · exact (List.pairwise_reverse.mpr List.pairwise_lt_range').filter _
    · exact .nil
  have := rel_head?_of_pairwise hsorted hy hz
  omega

/-- What a backward link offers lies in the buffer. -/
theorem le_of_mem_backwardLink {idx before z : Nat} (hz : z ∈ sig.backwardLink buf idx before) :
    z ≤ buf.len := by
  rw [backwardLink] at hz
  split at hz
  · have hfit := (mem_backwardStarts.mp hz).2.2.1
    omega
  · cases hz

/-- A forward link whose gap may span the whole buffer offers from an earlier end all that it
offers from a later one. -/
theorem forwardLink_mono {idx a b : Nat}
    (hwide : ∀ gap, sig.gaps[idx]? = some gap → buf.len ≤ (gapBounds gap).2) (hab : a ≤ b)
    {z : Nat} (hz : z ∈ sig.forwardLink buf idx b) : z ∈ sig.forwardLink buf idx a := by
  rw [forwardLink] at hz
  split at hz
  · next gap seg hgap hseg =>
    obtain ⟨pos, hpos, rfl⟩ := List.mem_map.mp hz
    obtain ⟨hlo, -, hm⟩ := mem_forwardStarts.mp hpos
    have hfit := hm.1
    have hreach := hwide gap hgap
    exact mem_forwardLink hgap hseg hm (by omega) (by omega)
  · cases hz

/-- A backward link whose gap may span the whole buffer offers from a later start all that it
offers from an earlier one. -/
theorem backwardLink_mono {idx a b : Nat}
    (hwide : ∀ gap, sig.gaps[idx]? = some gap → buf.len ≤ (gapBounds gap).2) (hab : a ≤ b)
    (hb : b ≤ buf.len) {z : Nat} (hz : z ∈ sig.backwardLink buf idx a) :
    z ∈ sig.backwardLink buf idx b := by
  rw [backwardLink] at hz
  split at hz
  · next gap seg hgap hseg =>
    obtain ⟨hlo, -, hm⟩ := mem_backwardStarts.mp hz
    have hreach := hwide gap hgap
    exact mem_backwardLink hgap hseg hm (by omega) (by omega)
  · cases hz

/-- Only the gaps that do not touch the anchor segment can make the nearest occurrence a wrong
choice: where each of them may span the whole buffer, the nearest occurrences suffice. -/
theorem nearestSufficesAt_of_wide
    (hwide : ∀ (idx : Nat) (gap : Gap), sig.gaps[idx]? = some gap → idx ≠ sig.anchorSegment →
      idx + 1 ≠ sig.anchorSegment → buf.len ≤ (gapBounds gap).2) (anchorPos : Nat) :
    sig.NearestSufficesAt buf anchorPos := by
  constructor
  · apply nearestSuffices_of_exchange (r := fun a b => a ≤ b)
    · intro f hf x y hy z hz
      obtain ⟨idx, -, rfl⟩ := List.mem_map.mp hf
      exact forwardLink_nearest hy hz
    · intro f hf a b hab z hz
      rw [forwardLinks, ← List.map_tail] at hf
      obtain ⟨idx, hidx, rfl⟩ := List.mem_map.mp hf
      rw [gapsForward, List.tail_range', List.mem_range'_1] at hidx
      exact ⟨z, forwardLink_mono (fun gap hgap => hwide idx gap hgap (by omega) (by omega)) hab hz,
        Nat.le_refl z⟩
  · apply nearestSuffices_of_exchange (r := fun a b => b ≤ a ∧ a ≤ buf.len)
    · intro f hf x y hy z hz
      obtain ⟨idx, -, rfl⟩ := List.mem_map.mp hf
      exact ⟨backwardLink_nearest hy hz, le_of_mem_backwardLink (List.mem_of_mem_head? hy)⟩
    · intro f hf a b hab z hz
      rw [backwardLinks, ← List.map_tail] at hf
      obtain ⟨idx, hidx, rfl⟩ := List.mem_map.mp hf
      have hlt : idx + 1 < sig.anchorSegment := by
        rw [gapsBackward, List.tail_reverse, List.mem_reverse] at hidx
        cases hn : sig.anchorSegment with
        | zero => simp [hn] at hidx
        | succ n =>
          rw [hn, List.range_succ, List.dropLast_concat, List.mem_range] at hidx
          omega
      exact ⟨z, backwardLink_mono (fun gap hgap => hwide idx gap hgap (by omega) (by omega)) hab.1
        hab.2 hz, Nat.le_refl z, le_of_mem_backwardLink hz⟩

/-- `verify` finds a match whenever there is a placement, provided that every gap that does not
touch the anchor segment may span the whole buffer. -/
theorem verify_complete_of_wide {lineNo : Nat} {name pattern : Str}
    (hsig : HexSignature.parse lineNo name pattern = .ok sig)
    (hwide : ∀ (idx : Nat) (gap : Gap), sig.gaps[idx]? = some gap → idx ≠ sig.anchorSegment →
      idx + 1 ≠ sig.anchorSegment → buf.len ≤ (gapBounds gap).2) {anchorPos : Nat}
    (p : Placement sig buf anchorPos) : ∃ start, sig.verify buf anchorPos = .ok (some start) :=
  (verify_isSome_iff (wellShaped_of_parse hsig) p).mpr (nearestSufficesAt_of_wide hwide anchorPos)

/-- Whether `verify` finds a match when there is a placement: exactly when, where there is one, the
nearest occurrences suffice. -/
theorem verify_complete_iff {lineNo : Nat} {name pattern : Str}
    (hsig : HexSignature.parse lineNo name pattern = .ok sig) (buf : Slice) (anchorPos : Nat) :
    (Nonempty (Placement sig buf anchorPos) →
        ∃ start, sig.verify buf anchorPos = .ok (some start)) ↔
      (Nonempty (Placement sig buf anchorPos) → sig.NearestSufficesAt buf anchorPos) := by
  have hshape := wellShaped_of_parse hsig
  constructor
  · rintro h ⟨p⟩
    exact (verify_isSome_iff hshape p).mp (h ⟨p⟩)
  · rintro h ⟨p⟩
    exact (verify_isSome_iff hshape p).mpr (h ⟨p⟩)

/-- The signature of `4142*{0-10}58*{0-0}59`: `AB`, an `X` within ten bytes and a `Y` right after
it. -/
def abXY : HexSignature where
  name := "t".toList
  segments := [⟨[.byte 0x41, .byte 0x42]⟩, ⟨[.byte 0x58]⟩, ⟨[.byte 0x59]⟩]
  gaps := [.bounded 0 10, .bounded 0 0]
  anchorSegment := 0
  anchorOffset := 0
  anchorLiteral := [0x41, 0x42]

theorem parse_abXY :
    HexSignature.parse 1 "t".toList "4142*{0-10}58*{0-0}59".toList = .ok abXY := by
  decide

/-- `ABXY`, where the only `X` is the one before the `Y`. -/
def oneX : Slice := ⟨[0x41, 0x42, 0x58, 0x59], by decide⟩

/-- `ABX.XY`, where the nearest `X` is not followed by a `Y` but the next one is. -/
def twoX : Slice := ⟨[0x41, 0x42, 0x58, 0x00, 0x58, 0x59], by decide⟩

/-- A placement of `abXY` with its `X` and `Y` at given positions. -/
def placementXY (buf : Slice) (x y : Nat) (hab : Segment.MatchesAt ⟨[.byte 0x41, .byte 0x42]⟩ buf 0)
    (hx : Segment.MatchesAt ⟨[.byte 0x58]⟩ buf x) (hy : Segment.MatchesAt ⟨[.byte 0x59]⟩ buf y)
    (hfirst : 2 ≤ x ∧ x ≤ 12) (hsecond : x + 1 = y) : Placement abXY buf 0 where
  pos i := [0, x, y].getD i 0
  matchesAt i seg hseg := by
    match i with
    | 0 => cases hseg; exact hab
    | 1 => cases hseg; exact hx
    | 2 => cases hseg; exact hy
    | _ + 3 => cases hseg
  gap i seg gap hseg hgap := by
    match i with
    | 0 => cases hseg; cases hgap; exact hfirst
    | 1 =>
      cases hseg
      cases hgap
      exact ⟨Nat.le_of_eq hsecond, Nat.le_of_eq hsecond.symm⟩
    | _ + 2 => cases hgap
  anchor := rfl

theorem verify_complete_oneX : ∃ start, abXY.verify oneX 0 = .ok (some start) :=
  (verify_complete_iff parse_abXY oneX 0).mpr (fun _ => by decide)
    ⟨placementXY oneX 2 3 (by decide) (by decide) (by decide) (by decide) rfl⟩

/-- In `ABX.XY` the signature has a placement that `verify` misses. -/
theorem not_verify_complete :
    ¬ ∀ (lineNo : Nat) (name pattern : Str) (sig : HexSignature) (buf : Slice) (anchorPos : Nat),
      HexSignature.parse lineNo name pattern = .ok sig →
        Nonempty (Placement sig buf anchorPos) →
          ∃ start, sig.verify buf anchorPos = .ok (some start) := by
  intro h
  obtain ⟨start, hstart⟩ := h 1 _ _ abXY twoX 0 parse_abXY
    ⟨placementXY twoX 4 5 (by decide) (by decide) (by decide) (by decide) rfl⟩
  have hnone : abXY.verify twoX 0 = .ok none := by decide
  rw [hnone] at hstart
  cases hstart

end HexSignature

end ActiveDefense.Clam
