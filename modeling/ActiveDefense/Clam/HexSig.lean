import ActiveDefense.Rust.Arith
import ActiveDefense.Rust.Utf8

/-!
# Hex signatures

A pattern such as `6a6f??686e*{2-8}646f65` is split at its gaps into segments of bytes and
one-byte wildcards; the longest run of concrete bytes is the anchor that the shared automaton looks
for. `HexSignature.parse` reads a pattern, and `HexSignature.verify` checks a signature around an
occurrence of its anchor, taking the nearest occurrence of every further segment.
-/

namespace ActiveDefense.Clam

/-- `SigError`, as far as signature lines raise it. -/
inductive SigError where
  | badHexSig (line : Nat) (reason : Str)
  | badHashSig (line : Nat) (reason : Str)
  | noAnchor
deriving DecidableEq, Repr

inductive Token where
  | byte (b : UInt8)
  | wildcard
deriving DecidableEq, Repr

structure Segment where
  tokens : List Token
deriving DecidableEq, Repr

inductive Gap where
  | unbounded
  | bounded (min max : Nat)
deriving DecidableEq, Repr

structure HexSignature where
  name : Str
  segments : List Segment
  gaps : List Gap
  anchorSegment : Nat
  anchorOffset : Nat
  anchorLiteral : List UInt8
deriving DecidableEq, Repr

/-- `MAX_GAP_SEARCH`. -/
def maxGapSearch : Nat := 1 <<< 16

/-- `gap_bounds`. -/
def gapBounds : Gap → Nat × Nat
  | .unbounded => (0, maxGapSearch)
  | .bounded min max => (min, max)

/-! ## Segments -/

namespace Segment

def len (seg : Segment) : Nat := seg.tokens.length

/-- The test of `matches_at` on one token. -/
def tokenMatches (buf : Slice) (pos : Nat) : Token × Nat → Except Panic Bool
  | (.byte b, i) => do .ok ((← index buf.bytes (← checkedAdd pos i)) == b)
  | (.wildcard, _) => .ok true

/-- `matches_at`. -/
def matchesAt (seg : Segment) (buf : Slice) (pos : Nat) : Except Panic Bool := do
  if buf.len < (← checkedAdd pos seg.len) then .ok false
  else allM (tokenMatches buf pos) seg.tokens.zipIdx

/-- The loop state of `longest_literal_run`. -/
structure RunState where
  best : Option (Nat × List UInt8)
  curStart : Nat
  cur : List UInt8
deriving DecidableEq, Repr

/-- The run so far is longer than the best one. -/
def RunState.improves (s : RunState) : Bool :=
  ((s.best.map fun p => p.2.length).getD 0) < s.cur.length

/-- The best run once the current one has ended. -/
def RunState.close (s : RunState) : Option (Nat × List UInt8) :=
  if s.improves then some (s.curStart, s.cur) else s.best

def RunState.step (s : RunState) : Token × Nat → RunState
  | (.byte b, i) =>
    { s with curStart := if s.cur = [] then i else s.curStart, cur := s.cur ++ [b] }
  | (.wildcard, _) => { s with best := s.close, cur := [] }

/-- `longest_literal_run`: the first longest run of concrete bytes, with its offset. -/
def longestLiteralRun (seg : Segment) : Option (Nat × List UInt8) :=
  (seg.tokens.zipIdx.foldl RunState.step ⟨none, 0, []⟩).close

end Segment

/-! ## Parsing -/

/-- Where `split_on_gaps` is in the pattern: in a segment, right after a `*`, or in the braces
after one. -/
inductive SplitMode where
  | segment
  | star
  | braces
deriving DecidableEq, Repr

/-- The loop of `split_on_gaps`, with the piece read so far. -/
def splitGo : SplitMode → Str → Str → List Str
  | .segment, piece, [] => [piece]
  | .star, piece, [] => [piece, []]
  | .braces, piece, [] => [piece, []]
  | .segment, piece, c :: cs =>
    if c = '*' then piece :: splitGo .star ['*'] cs else splitGo .segment (piece ++ [c]) cs
  | .star, piece, c :: cs =>
    if c = '{' then splitGo .braces (piece ++ [c]) cs
    else if c = '*' then piece :: [] :: splitGo .star ['*'] cs
    else piece :: splitGo .segment [c] cs
  | .braces, piece, c :: cs =>
    if c = '}' then (piece ++ [c]) :: splitGo .segment [] cs
    else splitGo .braces (piece ++ [c]) cs

/-- `split_on_gaps`: segments and gaps in turn, beginning and ending with a segment. -/
def splitOnGaps (pattern : Str) : List Str := splitGo .segment [] pattern

/-- `str::strip_prefix` of one character. -/
def stripPrefix (c : Char) : Str → Option Str
  | d :: s => if d = c then some s else none
  | [] => none

/-- `str::strip_suffix` of one character. -/
def stripSuffix (c : Char) (s : Str) : Option Str := (stripPrefix c s.reverse).map List.reverse

/-- `parse_gap`. -/
def parseGap (lineNo : Nat) (tok : Str) : Except SigError Gap :=
  let bad (what : String) : Except SigError Gap :=
    .error (.badHexSig lineNo (what.toList ++ " '".toList ++ tok ++ "'".toList))
  if tok = ['*'] then .ok .unbounded
  else
    match (stripPrefix '*' tok).bind (stripPrefix '{') |>.bind (stripSuffix '}') with
    | none => bad "bad gap token"
    | some inner =>
      match splitOnce '-' inner with
      | none => bad "bad gap range"
      | some (minS, maxS) =>
        match parseUnsigned (2 ^ 64) minS with
        | .error _ => bad "bad gap min in"
        | .ok min =>
          match parseUnsigned (2 ^ 64) maxS with
          | .error _ => bad "bad gap max in"
          | .ok max => .ok (.bounded min max)

/-- `hex_nibble`. -/
def hexNibble (b : UInt8) : Option UInt8 :=
  if 48 ≤ b && b ≤ 57 then some (b - 48)
  else if 97 ≤ b && b ≤ 102 then some (b - 97 + 10)
  else if 65 ≤ b && b ≤ 70 then some (b - 65 + 10)
  else none

/-- The token of a pair of bytes. -/
def parseToken (lineNo : Nat) (a b : UInt8) : Except SigError Token :=
  if a = 63 && b = 63 then .ok .wildcard
  else
    match hexNibble a, hexNibble b with
    | some hi, some lo => .ok (.byte (hi <<< 4 ||| lo))
    | _, _ =>
      .error (.badHexSig lineNo
        ("invalid hex byte '".toList ++ fromUtf8LossyPair a b ++ "'".toList))

/-- The loop of `parse_segment` over pairs of bytes. -/
def parseTokens (lineNo : Nat) : List UInt8 → Except SigError (List Token)
  | a :: b :: rest => do
    let t ← parseToken lineNo a b
    let ts ← parseTokens lineNo rest
    .ok (t :: ts)
  | _ => .ok []

/-- `parse_segment`. -/
def parseSegment (lineNo : Nat) (tok : Str) : Except SigError Segment := do
  let bytes := utf8 tok
  if bytes.length % 2 ≠ 0 then .error (.badHexSig lineNo "odd number of hex digits".toList)
  else .ok ⟨← parseTokens lineNo bytes⟩

/-- The loop of `HexSignature::parse` over the pieces after the first segment. -/
def parsePieces (lineNo : Nat) : List Str → Except SigError (List Gap × List Segment)
  | [] => .ok ([], [])
  | [gapTok] => do
    let _ ← parseGap lineNo gapTok
    .error (.badHexSig lineNo "trailing gap with no following segment".toList)
  | gapTok :: segTok :: rest => do
    let gap ← parseGap lineNo gapTok
    let seg ← parseSegment lineNo segTok
    let (gaps, segs) ← parsePieces lineNo rest
    .ok (gap :: gaps, seg :: segs)

/-- The choice of the anchor: a longer run replaces the best one so far. -/
def betterAnchor (best : Option (Nat × Nat × List UInt8)) :
    Segment × Nat → Option (Nat × Nat × List UInt8)
  | (seg, segIdx) =>
    match seg.longestLiteralRun with
    | none => best
    | some (off, lit) =>
      let better := (best.map fun b => decide (b.2.2.length < lit.length)).getD true
      if better && lit ≠ [] then some (segIdx, off, lit) else best

/-- The anchor of a list of segments: segment, offset and literal. -/
def chooseAnchor (segments : List Segment) : Option (Nat × Nat × List UInt8) :=
  segments.zipIdx.foldl betterAnchor none

/-- `HexSignature::parse`. -/
def HexSignature.parse (lineNo : Nat) (name pattern : Str) : Except SigError HexSignature :=
  match splitOnGaps pattern with
  | [] => .error .noAnchor
  | first :: pieces => do
    let seg ← parseSegment lineNo first
    let (gaps, segs) ← parsePieces lineNo pieces
    let segments := seg :: segs
    match chooseAnchor segments with
    | some (anchorSegment, anchorOffset, anchorLiteral) =>
      if 2 ≤ anchorLiteral.length then
        .ok { name, segments, gaps, anchorSegment, anchorOffset, anchorLiteral }
      else .error .noAnchor
    | none => .error .noAnchor

/-- The shape that `verify` relies on when it indexes segments and gaps. -/
structure HexSignature.WellShaped (sig : HexSignature) : Prop where
  gaps_length : sig.gaps.length + 1 = sig.segments.length
  anchor_lt : sig.anchorSegment < sig.segments.length

/-- What a gap and its segment add to the pieces after them. -/
theorem exists_of_parsePieces {lineNo : Nat} {gapTok segTok : Str} {rest : List Str}
    {gaps : List Gap} {segs : List Segment}
    (h : parsePieces lineNo (gapTok :: segTok :: rest) = .ok (gaps, segs)) :
    ∃ gap seg gaps' segs', parseGap lineNo gapTok = .ok gap ∧
      parseSegment lineNo segTok = .ok seg ∧ parsePieces lineNo rest = .ok (gaps', segs') ∧
      gaps = gap :: gaps' ∧ segs = seg :: segs' := by
  simp only [parsePieces, bind_eq_ok] at h
  obtain ⟨gap, hgap, seg, hseg, ⟨gaps', segs'⟩, hrest, h⟩ := h
  cases h
  exact ⟨gap, seg, gaps', segs', hgap, hseg, hrest, rfl, rfl⟩

/-- A gap without a segment is refused. -/
theorem parsePieces_single_ne_ok {lineNo : Nat} {gapTok : Str} {p : List Gap × List Segment} :
    parsePieces lineNo [gapTok] ≠ .ok p := by
  intro h
  simp only [parsePieces, bind_eq_ok] at h
  obtain ⟨_, -, h⟩ := h
  cases h

/-- Every gap is followed by its segment. -/
theorem parsePieces_length {lineNo : Nat} {pieces : List Str} {gaps : List Gap}
    {segs : List Segment} (h : parsePieces lineNo pieces = .ok (gaps, segs)) :
    gaps.length = segs.length := by
  fun_induction parsePieces lineNo pieces generalizing gaps segs with
  | case1 => cases h; rfl
  | case2 gapTok => exact absurd h parsePieces_single_ne_ok
  | case3 gapTok segTok rest ih =>
    obtain ⟨_, _, _, _, -, -, hrest, rfl, rfl⟩ := exists_of_parsePieces h
    simp [ih hrest]

/-- A step of the choice keeps the best anchor or takes the segment at hand. -/
theorem betterAnchor_cases (best : Option (Nat × Nat × List UInt8)) (p : Segment × Nat) :
    betterAnchor best p = best ∨ ∃ off lit, betterAnchor best p = some (p.2, off, lit) := by
  obtain ⟨seg, i⟩ := p
  rw [betterAnchor]
  split
  · exact .inl rfl
  · next off lit _ =>
    dsimp only
    split
    · exact .inr ⟨off, lit, rfl⟩
    · exact .inl rfl

/-- The anchor is in one of the segments. -/
theorem chooseAnchor_lt {segments : List Segment} {i off : Nat} {lit : List UInt8}
    (h : chooseAnchor segments = some (i, off, lit)) : i < segments.length := by
  suffices hfold : ∀ (ps : List (Segment × Nat)) (best : Option (Nat × Nat × List UInt8)),
      (∀ p ∈ ps, p.2 < segments.length) → (∀ b ∈ best, b.1 < segments.length) →
        ∀ b ∈ ps.foldl betterAnchor best, b.1 < segments.length from
    hfold _ none (fun _ hp => List.snd_lt_of_mem_zipIdx hp) (by simp) _ h
  intro ps
  induction ps with
  | nil => exact fun _ _ hbest => hbest
  | cons p ps ih =>
    intro best hps hbest
    refine ih _ (fun q hq => hps q (List.mem_cons_of_mem _ hq)) fun b hb => ?_
    obtain hkeep | ⟨off', lit', htake⟩ := betterAnchor_cases best p
    · exact hbest b (hkeep ▸ hb)
    · rw [htake] at hb
      cases hb
      exact hps p (.head _)

/-- What a pattern that is accepted was read as. -/
theorem HexSignature.exists_of_parse {lineNo : Nat} {name pattern : Str} {sig : HexSignature}
    (h : HexSignature.parse lineNo name pattern = .ok sig) :
    ∃ first pieces seg segs, splitOnGaps pattern = first :: pieces ∧
      parseSegment lineNo first = .ok seg ∧ parsePieces lineNo pieces = .ok (sig.gaps, segs) ∧
      sig.segments = seg :: segs ∧
      chooseAnchor sig.segments = some (sig.anchorSegment, sig.anchorOffset, sig.anchorLiteral) ∧
      2 ≤ sig.anchorLiteral.length ∧ sig.name = name := by
  rw [HexSignature.parse] at h
  split at h
  · cases h
  · next first pieces hsplit =>
    simp only [bind_eq_ok] at h
    obtain ⟨seg, hseg, ⟨gaps, segs⟩, hpieces, h⟩ := h
    simp only at h
    split at h
    · next hanchor =>
      split at h
      · next hlong =>
        cases h
        exact ⟨first, pieces, seg, segs, hsplit, hseg, hpieces, rfl, hanchor, hlong, rfl⟩
      · cases h
    · cases h

/-- A parsed signature has the shape that `verify` relies on. -/
theorem HexSignature.wellShaped_of_parse {lineNo : Nat} {name pattern : Str} {sig : HexSignature}
    (h : HexSignature.parse lineNo name pattern = .ok sig) : sig.WellShaped := by
  obtain ⟨_, _, _, _, -, -, hpieces, hsegments, hanchor, -⟩ := exists_of_parse h
  exact ⟨by simp [hsegments, parsePieces_length hpieces], chooseAnchor_lt hanchor⟩

/-! ### Lengths -/

/-- The pieces make up what was read, behind the piece read before. -/
theorem flatten_splitGo (mode : SplitMode) (piece cs : Str) :
    (splitGo mode piece cs).flatten = piece ++ cs := by
  fun_induction splitGo mode piece cs <;> simp_all

/-- The pieces of a pattern make it up. -/
theorem flatten_splitOnGaps (pattern : Str) : (splitOnGaps pattern).flatten = pattern :=
  flatten_splitGo .segment [] pattern

/-- A piece is no longer than the pattern. -/
theorem utf8_length_le_of_mem_splitOnGaps {pattern tok : Str} (h : tok ∈ splitOnGaps pattern) :
    (utf8 tok).length ≤ (utf8 pattern).length := by
  obtain ⟨before, after, hpieces⟩ := List.append_of_mem h
  have hpattern := flatten_splitOnGaps pattern
  rw [hpieces, List.flatten_append, List.flatten_cons] at hpattern
  rw [← hpattern, utf8_append, utf8_append, List.length_append, List.length_append]
  omega

/-- A token is read from two bytes. -/
theorem parseTokens_length {lineNo : Nat} {bytes : List UInt8} {tokens : List Token}
    (h : parseTokens lineNo bytes = .ok tokens) : 2 * tokens.length ≤ bytes.length := by
  fun_induction parseTokens lineNo bytes generalizing tokens with
  | case1 a b rest ih =>
    simp only [bind_eq_ok] at h
    obtain ⟨t, -, ts, hrest, h⟩ := h
    cases h
    have := ih hrest
    simp only [List.length_cons]
    omega
  | case2 => cases h; simp

/-- A segment is read from one of the pieces. -/
theorem exists_piece_of_parsePieces {lineNo : Nat} {pieces : List Str} {gaps : List Gap}
    {segs : List Segment} (h : parsePieces lineNo pieces = .ok (gaps, segs)) :
    ∀ seg ∈ segs, ∃ tok ∈ pieces, parseSegment lineNo tok = .ok seg := by
  fun_induction parsePieces lineNo pieces generalizing gaps segs with
  | case1 => cases h; simp
  | case2 gapTok => exact absurd h parsePieces_single_ne_ok
  | case3 gapTok segTok rest ih =>
    obtain ⟨_, _, _, _, -, hseg, hrest, rfl, rfl⟩ := exists_of_parsePieces h
    intro s hs
    rcases List.mem_cons.mp hs with rfl | hs
    · exact ⟨segTok, by simp, hseg⟩
    · obtain ⟨tok, htok, hparse⟩ := ih hrest s hs
      exact ⟨tok, by simp [htok], hparse⟩

/-- A segment of a parsed signature is no longer than the pattern. -/
theorem HexSignature.len_le_of_parse {lineNo : Nat} {name pattern : Str} {sig : HexSignature}
    (h : HexSignature.parse lineNo name pattern = .ok sig) {seg : Segment}
    (hseg : seg ∈ sig.segments) : seg.len ≤ (utf8 pattern).length := by
  obtain ⟨first, pieces, head, segs, hsplit, hfirst, hpieces, hsegments, -⟩ := exists_of_parse h
  obtain ⟨tok, htok, hparse⟩ : ∃ tok ∈ first :: pieces, parseSegment lineNo tok = .ok seg := by
    rw [hsegments] at hseg
    rcases List.mem_cons.mp hseg with rfl | hseg
    · exact ⟨first, .head _, hfirst⟩
    · obtain ⟨tok, htok, hparse⟩ := exists_piece_of_parsePieces hpieces seg hseg
      exact ⟨tok, .tail _ htok, hparse⟩
  have hle := utf8_length_le_of_mem_splitOnGaps (hsplit ▸ htok)
  simp only [parseSegment] at hparse
  split at hparse
  · cases hparse
  · obtain ⟨tokens, htokens, hparse⟩ := bind_eq_ok.mp hparse
    cases hparse
    have hlen := parseTokens_length htokens
    simp only [Segment.len]
    omega

/-! ## Verification -/

/-- The positions `first..=last`. -/
def rangeInclusive (first last : Nat) : List Nat := List.range' first (last + 1 - first)

/-- `find_forward`. -/
def findForward (buf : Slice) (seg : Segment) (after : Nat) (gap : Gap) :
    Except Panic (Option Nat) :=
  let (lo, hi) := gapBounds gap
  let first := saturatingAdd after lo
  let last := min (saturatingAdd after hi) buf.len
  findM (seg.matchesAt buf) (rangeInclusive first last)

/-- `find_backward`. -/
def findBackward (buf : Slice) (seg : Segment) (before : Nat) (gap : Gap) :
    Except Panic (Option Nat) := do
  let (lo, hi) := gapBounds gap
  let minEnd ← checkedAdd lo seg.len
  if before < minEnd then .ok none
  else
    let latestStart ← checkedSub before minEnd
    let earliestStart := saturatingSub before (saturatingAdd hi seg.len)
    findM (seg.matchesAt buf) (rangeInclusive earliestStart latestStart).reverse

namespace HexSignature

/-- The walk from the anchor to the end of the pattern, over the indices of the gaps. -/
def walkForward (sig : HexSignature) (buf : Slice) : List Nat → Nat → Except Panic (Option Nat)
  | [], cursorEnd => .ok (some cursorEnd)
  | idx :: rest, cursorEnd => do
    let gap ← index sig.gaps idx
    let nextSeg ← index sig.segments (idx + 1)
    match ← findForward buf nextSeg cursorEnd gap with
    | some pos => walkForward sig buf rest (← checkedAdd pos nextSeg.len)
    | none => .ok none

/-- The walk from the anchor back to the start of the pattern, over the indices of the gaps. -/
def walkBackward (sig : HexSignature) (buf : Slice) : List Nat → Nat → Except Panic (Option Nat)
  | [], cursorStart => .ok (some cursorStart)
  | idx :: rest, cursorStart => do
    let gap ← index sig.gaps idx
    let prevSeg ← index sig.segments idx
    match ← findBackward buf prevSeg cursorStart gap with
    | some pos => walkBackward sig buf rest pos
    | none => .ok none

/-- The gaps after the anchor segment, in the order of the forward walk. -/
def gapsForward (sig : HexSignature) : List Nat :=
  List.range' sig.anchorSegment (sig.gaps.length - sig.anchorSegment)

/-- The gaps before the anchor segment, in the order of the backward walk. -/
def gapsBackward (sig : HexSignature) : List Nat := (List.range sig.anchorSegment).reverse

/-- `verify`: the start of the match around an anchor at `anchorMatchPos`. -/
def verify (sig : HexSignature) (buf : Slice) (anchorMatchPos : Nat) :
    Except Panic (Option Nat) := do
  if anchorMatchPos < sig.anchorOffset then .ok none
  else
    let anchorSegStart ← checkedSub anchorMatchPos sig.anchorOffset
    let anchorSeg ← index sig.segments sig.anchorSegment
    if ← anchorSeg.matchesAt buf anchorSegStart then
      match ← sig.walkForward buf sig.gapsForward (← checkedAdd anchorSegStart anchorSeg.len) with
      | some _ => sig.walkBackward buf sig.gapsBackward anchorSegStart
      | none => .ok none
    else .ok none

end HexSignature

end ActiveDefense.Clam
