import ActiveDefense.Clam.HexSplit
import ActiveDefense.Rust.Hex

/-!
# Writing a hex signature and reading it back

A list of segments and the gaps between them are written as a pattern: two digits for a byte, `??`
for a wildcard, `*` or `*{min-max}` for a gap. No segment has a star or a brace in it, so the pattern
is split where it was put together (`splitOnGaps_render`), and each piece is read back as what it was
written from. What `parse` makes of a written pattern therefore depends on the anchor only
(`parse_render`), which is long enough wherever two bytes stand side by side.
-/

namespace ActiveDefense.Clam

/-! ## The pattern syntax -/

/-- A token as a pattern has it. -/
def Token.render : Token → Str
  | .byte b => hexEncode [b]
  | .wildcard => ['?', '?']

/-- A segment as a pattern has it. -/
def Segment.render (seg : Segment) : Str := seg.tokens.flatMap Token.render

/-- A gap as a pattern has it. -/
def Gap.render : Gap → Str
  | .unbounded => ['*']
  | .bounded min max => '*' :: '{' :: (decimal min ++ '-' :: decimal max) ++ ['}']

/-- Segments with the gaps between them as a pattern. -/
def renderPattern : List Segment → List Gap → Str
  | [], _ => []
  | seg :: segs, gaps => seg.render ++ (gaps.zip segs).flatMap fun p => p.1.render ++ p.2.render

/-- The bounds of the gap are of type `usize`. -/
def Gap.Fits : Gap → Prop
  | .unbounded => True
  | .bounded min max => min < 2 ^ 64 ∧ max < 2 ^ 64

/-! ## Reading tokens and gaps -/

/-- What the `hex` crate reads as a digit is one here. -/
theorem hexNibble_of_hexVal {c v : UInt8} {i : Nat} (h : hexVal c i = .ok v) :
    hexNibble c = some v := by
  simp only [hexVal] at h
  simp only [hexNibble, Bool.and_eq_true, decide_eq_true_eq]
  split at h
  · next hupper =>
    have hdigit : ¬ (48 ≤ c ∧ c ≤ 57) := by
      simp only [UInt8.le_iff_toNat_le, UInt8.reduceToNat] at *
      omega
    have hlower : ¬ (97 ≤ c ∧ c ≤ 102) := by
      simp only [UInt8.le_iff_toNat_le, UInt8.reduceToNat] at *
      omega
    rw [if_neg hdigit, if_neg hlower, if_pos hupper]
    exact congrArg some (Except.ok.inj h)
  · split at h
    · next hlower =>
      have hdigit : ¬ (48 ≤ c ∧ c ≤ 57) := by
        simp only [UInt8.le_iff_toNat_le, UInt8.reduceToNat] at *
        omega
      rw [if_neg hdigit, if_pos hlower]
      exact congrArg some (Except.ok.inj h)
    · split at h
      · next hdigit =>
        rw [if_pos hdigit]
        exact congrArg some (Except.ok.inj h)
      · cases h

/-- A token is written as two bytes, which are read as the token. -/
theorem exists_utf8_render (lineNo : Nat) (t : Token) :
    ∃ a b, utf8 t.render = [a, b] ∧ parseToken lineNo a b = .ok t := by
  cases t with
  | wildcard => exact ⟨63, 63, rfl, rfl⟩
  | byte x =>
    obtain ⟨hi, lo, htext, hhi, hlo⟩ := exists_utf8_hexEncode_cons x [] 0
    have hhi := hexNibble_of_hexVal hhi
    have hlo := hexNibble_of_hexVal hlo
    refine ⟨hi, lo, htext, ?_⟩
    have hq : ¬ hi = 63 := by
      rintro rfl
      cases hhi
    simp only [parseToken, hq, decide_false, Bool.false_and, Bool.false_eq_true, if_false, hhi, hlo,
      halves_eq]

/-- A segment is read back. -/
theorem parseSegment_render (lineNo : Nat) (seg : Segment) :
    parseSegment lineNo seg.render = .ok seg := by
  obtain ⟨tokens⟩ := seg
  have htokens : (utf8 (tokens.flatMap Token.render)).length % 2 = 0 ∧
      parseTokens lineNo (utf8 (tokens.flatMap Token.render)) = .ok tokens := by
    induction tokens with
    | nil => exact ⟨rfl, rfl⟩
    | cons t ts ih =>
      obtain ⟨a, b, htext, hread⟩ := exists_utf8_render lineNo t
      obtain ⟨heven, hrest⟩ := ih
      rw [List.flatMap_cons, utf8_append, htext]
      refine ⟨?_, ?_⟩
      · simp only [List.cons_append, List.nil_append, List.length_cons]
        omega
      · simp only [List.cons_append, List.nil_append, parseTokens, hread, hrest, bind, Except.bind]
  simp only [parseSegment, Segment.render, htokens.1, htokens.2, ne_eq, not_true_eq_false, if_false,
    bind, Except.bind]

theorem not_mem_decimal {n : Nat} {c : Char} (h : ¬ c.isDigit) : c ∉ decimal n := fun hc =>
  h (isDigit_of_mem_decimal hc)

/-- A gap is read back. -/
theorem parseGap_render (lineNo : Nat) {gap : Gap} (h : gap.Fits) :
    parseGap lineNo gap.render = .ok gap := by
  cases gap with
  | unbounded => rfl
  | bounded min max =>
    obtain ⟨hmin, hmax⟩ := h
    have hinner : stripSuffix '}' ((decimal min ++ '-' :: decimal max) ++ ['}']) =
        some (decimal min ++ '-' :: decimal max) := by
      rw [stripSuffix, List.reverse_concat, stripPrefix, if_pos rfl, Option.map_some,
        List.reverse_reverse]
    have hsplit : splitOnce '-' (decimal min ++ '-' :: decimal max) =
        some (decimal min, decimal max) :=
      splitOnce_append (not_mem_decimal (by decide)) _
    have hstar : (Gap.bounded min max).render ≠ ['*'] := by simp [Gap.render]
    rw [parseGap, if_neg hstar]
    simp only [Gap.render, List.cons_append, stripPrefix, if_true, Option.bind_some, hinner, hsplit,
      parseUnsigned_decimal hmin, parseUnsigned_decimal hmax]

/-! ## Splitting a written pattern -/

/-- A digit of base 16 is none of the characters of a gap. -/
theorem digitChar_ne {n : Nat} (h : n < 16) : Nat.digitChar n ≠ '*' ∧ Nat.digitChar n ≠ '{' := by
  revert h
  revert n
  decide

/-- No segment has a star or a brace in it. -/
theorem ne_of_mem_render {seg : Segment} {c : Char} (h : c ∈ seg.render) : c ≠ '*' ∧ c ≠ '{' := by
  obtain ⟨t, -, hc⟩ := List.mem_flatMap.mp h
  cases t with
  | wildcard =>
    obtain rfl : c = '?' := by simpa [Token.render] using hc
    decide
  | byte b =>
    have hlt := b.toNat_lt
    have hdigits : c = Nat.digitChar (b.toNat / 16) ∨ c = Nat.digitChar (b.toNat % 16) := by
      simpa [Token.render, hexEncode] using hc
    obtain rfl | rfl := hdigits
    · exact digitChar_ne (by omega)
    · exact digitChar_ne (by omega)

/-- A written gap is split off, where no brace follows it. -/
theorem splitGo_gap (gap : Gap) {rest : Str} (h : rest.head? ≠ some '{') (piece : Str) :
    splitGo .segment piece (gap.render ++ rest) =
      piece :: gap.render :: splitGo .segment [] rest := by
  cases gap with
  | unbounded =>
    rw [Gap.render, List.cons_append, List.nil_append, splitGo, if_pos rfl, splitGo_star h]
  | bounded min max =>
    have hbody : '}' ∉ decimal min ++ '-' :: decimal max := by
      simp only [List.mem_append, List.mem_cons, not_or]
      exact ⟨not_mem_decimal (by decide), by decide, not_mem_decimal (by decide)⟩
    have htext : (Gap.bounded min max).render ++ rest =
        '*' :: '{' :: ((decimal min ++ '-' :: decimal max) ++ '}' :: rest) := by
      simp [Gap.render]
    rw [htext, splitGo, if_pos rfl, splitGo, if_pos rfl, splitGo_braces hbody]
    simp [Gap.render]

/-- What follows a gap does not begin with a brace. -/
theorem head?_segment_ne (seg : Segment) (pairs : List (Gap × Segment)) :
    (seg.render ++ pairs.flatMap fun p => p.1.render ++ p.2.render).head? ≠ some '{' := by
  intro h
  cases hseg : seg.render with
  | cons c cs =>
    rw [hseg] at h
    have hmem : c ∈ seg.render := hseg ▸ List.mem_cons_self
    exact (ne_of_mem_render hmem).2 (by simpa using h)
  | nil =>
    rw [hseg] at h
    cases pairs with
    | nil => cases h
    | cons p ps =>
      obtain ⟨gap, next⟩ := p
      cases gap <;> simp [Gap.render] at h

/-- A written pattern is split where it was put together. -/
theorem splitGo_render (seg : Segment) (pairs : List (Gap × Segment)) :
    splitGo .segment [] (seg.render ++ pairs.flatMap fun p => p.1.render ++ p.2.render) =
      seg.render :: pairs.flatMap fun p => [p.1.render, p.2.render] := by
  have hstar : ∀ s : Segment, '*' ∉ s.render := fun s hmem => (ne_of_mem_render hmem).1 rfl
  induction pairs generalizing seg with
  | nil =>
    rw [splitGo_segment_append (hstar seg)]
    rfl
  | cons p ps ih =>
    rw [splitGo_segment_append (hstar seg), List.nil_append, List.flatMap_cons, List.append_assoc,
      splitGo_gap _ (head?_segment_ne p.2 ps), ih p.2]
    rfl

/-- The pieces after the first segment are read back. -/
theorem parsePieces_render (lineNo : Nat) {pairs : List (Gap × Segment)}
    (h : ∀ p ∈ pairs, p.1.Fits) :
    parsePieces lineNo (pairs.flatMap fun p => [p.1.render, p.2.render]) =
      .ok (pairs.map (·.1), pairs.map (·.2)) := by
  induction pairs with
  | nil => rfl
  | cons p ps ih =>
    obtain ⟨hp, hps⟩ := List.forall_mem_cons.mp h
    simp only [List.flatMap_cons, List.cons_append, List.nil_append, parsePieces,
      parseGap_render lineNo hp, parseSegment_render, ih hps, bind, Except.bind, List.map_cons]

/-! ## The anchor of a pattern with a run -/

namespace Segment

/-- The length of the best run, once the current one has ended. -/
def RunState.closedLen (s : RunState) : Nat := (s.close.map fun p => p.2.length).getD 0

theorem RunState.closedLen_eq (s : RunState) :
    s.closedLen = max ((s.best.map fun p => p.2.length).getD 0) s.cur.length := by
  simp only [closedLen, close, improves, decide_eq_true_eq]
  split
  · next h =>
    rw [Nat.max_eq_right (Nat.le_of_lt h)]
    rfl
  · next h => rw [Nat.max_eq_left (Nat.not_lt.mp h)]

/-- A token does not make the best run shorter. -/
theorem RunState.closedLen_le_step (s : RunState) (p : Token × Nat) :
    s.closedLen ≤ (s.step p).closedLen := by
  obtain ⟨t, i⟩ := p
  cases t with
  | byte b =>
    rw [closedLen_eq, closedLen_eq]
    simp only [step, List.length_append]
    omega
  | wildcard =>
    have hclosed : (s.step (.wildcard, i)).closedLen = max s.closedLen 0 := closedLen_eq _
    omega

theorem RunState.closedLen_le_foldl (s : RunState) (ps : List (Token × Nat)) :
    s.closedLen ≤ (ps.foldl RunState.step s).closedLen := by
  induction ps generalizing s with
  | nil => exact Nat.le_refl _
  | cons p ps ih => exact (s.closedLen_le_step p).trans (ih _)

/-- Two bytes side by side make a run of two. -/
theorem two_le_longestLiteralRun {seg : Segment} {before after : List Token} {a b : UInt8}
    (h : seg.tokens = before ++ .byte a :: .byte b :: after) :
    ∃ off lit, seg.longestLiteralRun = some (off, lit) ∧ 2 ≤ lit.length := by
  have hlen : 2 ≤ ((seg.longestLiteralRun.map fun p => p.2.length).getD 0) := by
    rw [longestLiteralRun, h, List.zipIdx_append, List.foldl_append, List.zipIdx_cons,
      List.zipIdx_cons, List.foldl_cons, List.foldl_cons]
    refine Nat.le_trans ?_ (RunState.closedLen_le_foldl _ _)
    rw [RunState.closedLen_eq]
    simp only [RunState.step, List.length_append, List.length_cons, List.length_nil]
    omega
  cases hrun : seg.longestLiteralRun with
  | none =>
    rw [hrun] at hlen
    cases hlen
  | some p =>
    rw [hrun] at hlen
    exact ⟨p.1, p.2, rfl, hlen⟩

end Segment

/-- The length of an anchor, if there is one. -/
def anchorLength (best : Option (Nat × Nat × List UInt8)) : Nat :=
  (best.map fun b => b.2.2.length).getD 0

/-- A segment does not make the anchor shorter. -/
theorem anchorLength_le_betterAnchor (best : Option (Nat × Nat × List UInt8))
    (p : Segment × Nat) : anchorLength best ≤ anchorLength (betterAnchor best p) := by
  obtain ⟨seg, i⟩ := p
  rw [betterAnchor]
  split
  · exact Nat.le_refl _
  · next off lit _ =>
    dsimp only
    split
    · next hbetter =>
      cases best with
      | none => exact Nat.zero_le _
      | some b =>
        simp only [Option.map_some, Option.getD_some, Bool.and_eq_true, decide_eq_true_eq] at hbetter
        exact Nat.le_of_lt hbetter.1
    · exact Nat.le_refl _

/-- The anchor is no shorter than a run of a segment that it was chosen from. -/
theorem le_anchorLength_betterAnchor (best : Option (Nat × Nat × List UInt8)) {seg : Segment}
    {off : Nat} {lit : List UInt8} (h : seg.longestLiteralRun = some (off, lit)) (i : Nat) :
    lit.length ≤ anchorLength (betterAnchor best (seg, i)) := by
  rw [betterAnchor, h]
  dsimp only
  split
  · exact Nat.le_refl _
  · next hbetter =>
    cases best with
    | none =>
      have hnil : lit = [] := by simpa using hbetter
      simp [hnil]
    | some b =>
      by_cases hnil : lit = []
      · simp [hnil]
      · simpa [hnil, anchorLength] using hbetter

theorem anchorLength_le_foldl (best : Option (Nat × Nat × List UInt8)) (ps : List (Segment × Nat)) :
    anchorLength best ≤ anchorLength (ps.foldl betterAnchor best) := by
  induction ps generalizing best with
  | nil => exact Nat.le_refl _
  | cons p ps ih => exact (anchorLength_le_betterAnchor best p).trans (ih _)

/-- Two bytes stand side by side in one of the segments. -/
def HasRun (segments : List Segment) : Prop :=
  ∃ seg ∈ segments, ∃ before a b after, seg.tokens = before ++ .byte a :: .byte b :: after

/-- Where two bytes stand side by side, there is an anchor of at least two. -/
theorem HasRun.exists_anchor {segments : List Segment} (h : HasRun segments) :
    ∃ i off lit, chooseAnchor segments = some (i, off, lit) ∧ 2 ≤ lit.length := by
  obtain ⟨seg, hseg, before, a, b, after, htokens⟩ := h
  obtain ⟨off, lit, hrun, hlit⟩ := Segment.two_le_longestLiteralRun htokens
  obtain ⟨front, back, rfl⟩ := List.append_of_mem hseg
  have hlen : 2 ≤ anchorLength (chooseAnchor (front ++ seg :: back)) := by
    rw [chooseAnchor, List.zipIdx_append, List.foldl_append, List.zipIdx_cons, List.foldl_cons]
    refine Nat.le_trans ?_ (anchorLength_le_foldl _ _)
    exact hlit.trans (le_anchorLength_betterAnchor _ hrun _)
  cases hchoice : chooseAnchor (front ++ seg :: back) with
  | none =>
    rw [hchoice] at hlen
    cases hlen
  | some p =>
    obtain ⟨i, off', lit'⟩ := p
    rw [hchoice] at hlen
    exact ⟨i, off', lit', rfl, hlen⟩

/-! ## Round trips -/

/-- What is read from a written pattern is what was written, with the anchor that is chosen for
it. -/
theorem parse_render {segments : List Segment} {gaps : List Gap}
    (hlen : gaps.length + 1 = segments.length) (hgaps : ∀ gap ∈ gaps, gap.Fits) (lineNo : Nat)
    (name : Str) {i off : Nat} {lit : List UInt8} (hanchor : chooseAnchor segments = some (i, off, lit))
    (hlit : 2 ≤ lit.length) :
    HexSignature.parse lineNo name (renderPattern segments gaps) =
      .ok ⟨name, segments, gaps, i, off, lit⟩ := by
  cases segments with
  | nil => cases hlen
  | cons seg segs =>
    have hlen' : gaps.length = segs.length := Nat.succ.inj hlen
    have hfits : ∀ p ∈ gaps.zip segs, p.1.Fits := fun p hp => hgaps _ (List.of_mem_zip hp).1
    have hpieces := parsePieces_render lineNo hfits
    rw [List.map_fst_zip (Nat.le_of_eq hlen'), List.map_snd_zip (Nat.le_of_eq hlen'.symm)] at hpieces
    rw [HexSignature.parse, splitOnGaps, renderPattern, splitGo_render]
    simp only [parseSegment_render, hpieces, hanchor, if_pos hlit, bind, Except.bind]

/-- The bounds that a gap is read with are of type `usize`. -/
theorem fits_of_parseGap {lineNo : Nat} {tok : Str} {gap : Gap}
    (h : parseGap lineNo tok = .ok gap) : gap.Fits := by
  simp only [parseGap] at h
  split at h
  · cases h
    trivial
  · split at h
    · cases h
    · split at h
      · cases h
      · split at h
        · cases h
        · next min hmin =>
          split at h
          · cases h
          · next max hmax =>
            cases h
            exact ⟨parseUnsigned_lt (by decide) hmin, parseUnsigned_lt (by decide) hmax⟩

theorem fits_of_parsePieces {lineNo : Nat} {pieces : List Str} {gaps : List Gap}
    {segs : List Segment} (h : parsePieces lineNo pieces = .ok (gaps, segs)) :
    ∀ gap ∈ gaps, gap.Fits := by
  fun_induction parsePieces lineNo pieces generalizing gaps segs with
  | case1 =>
    cases h
    exact fun _ hgap => absurd hgap List.not_mem_nil
  | case2 gapTok => exact absurd h parsePieces_single_ne_ok
  | case3 gapTok segTok rest ih =>
    obtain ⟨_, _, _, _, hgap, -, hrest, rfl, rfl⟩ := exists_of_parsePieces h
    exact List.forall_mem_cons.mpr ⟨fits_of_parseGap hgap, ih hrest⟩

namespace HexSignature

/-- Segments and gaps in which two bytes stand side by side are read back from the pattern that they
are written as, and a signature that was read is read again from the pattern that it is written
as. -/
theorem parse_roundTrip :
    (∀ (segments : List Segment) (gaps : List Gap) (lineNo : Nat) (name : Str),
      gaps.length + 1 = segments.length → (∀ gap ∈ gaps, gap.Fits) → HasRun segments →
        ∃ sig, HexSignature.parse lineNo name (renderPattern segments gaps) = .ok sig ∧
          sig.segments = segments ∧ sig.gaps = gaps) ∧
      ∀ (lineNo : Nat) (name pattern : Str) (sig : HexSignature),
        HexSignature.parse lineNo name pattern = .ok sig →
          HexSignature.parse lineNo name (renderPattern sig.segments sig.gaps) = .ok sig := by
  constructor
  · intro segments gaps lineNo name hlen hgaps hrun
    obtain ⟨i, off, lit, hanchor, hlit⟩ := hrun.exists_anchor
    exact ⟨_, parse_render hlen hgaps lineNo name hanchor hlit, rfl, rfl⟩
  · intro lineNo name pattern sig hsig
    obtain ⟨_, _, _, _, -, -, hpieces, -, hanchor, hlit, rfl⟩ := exists_of_parse hsig
    have hlen := (wellShaped_of_parse hsig).gaps_length
    exact parse_render hlen (fits_of_parsePieces hpieces) lineNo sig.name hanchor hlit

/-- `6161*68??` is read back from its segments, and again from what is read. -/
theorem parse_roundTrip_wildcard :
    (∃ sig, HexSignature.parse 1 "t".toList (renderPattern
        [⟨[.byte 0x61, .byte 0x61]⟩, ⟨[.byte 0x68, .wildcard]⟩] [.unbounded]) = .ok sig ∧
      sig.segments = [⟨[.byte 0x61, .byte 0x61]⟩, ⟨[.byte 0x68, .wildcard]⟩] ∧
        sig.gaps = [.unbounded]) ∧
      ∀ sig, HexSignature.parse 1 "t".toList "6161*68??".toList = .ok sig →
        HexSignature.parse 1 "t".toList (renderPattern sig.segments sig.gaps) = .ok sig :=
  ⟨parse_roundTrip.1 _ _ _ _ rfl (by simp [Gap.Fits]) ⟨_, .head _, [], 0x61, 0x61, [], rfl⟩,
    fun sig => parse_roundTrip.2 _ _ _ sig⟩

end HexSignature

end ActiveDefense.Clam
