import ActiveDefense.Clam.HexRoundTrip
import ActiveDefense.Clam.HexSplit

/-!
# The anchor of a pattern

`longest_literal_run` goes through the tokens of a segment once, with the run it is in and the best
run that has ended (`RunState.Reads`). What is left at the end is a run of the segment, and no run
is longer (`runAt_longest`, `length_le_longest`). The choice among the segments keeps the longest of
these (`Chosen`), so the anchor of an accepted pattern is one of its longest runs of bytes
(`anchor_of_parse`).
-/

namespace ActiveDefense.Clam

/-- The bytes `lit` stand in the tokens, side by side from `off` on. -/
def RunAt (tokens : List Token) (off : Nat) (lit : List UInt8) : Prop :=
  ∃ before after, tokens = before ++ lit.map Token.byte ++ after ∧ before.length = off

def Token.isByte : Token → Bool
  | .byte _ => true
  | .wildcard => false

section
variable {tokens : List Token} {t : Token} {off : Nat} {lit : List UInt8} {b : UInt8}

theorem RunAt.append (h : RunAt tokens off lit) (more : List Token) :
    RunAt (tokens ++ more) off lit := by
  obtain ⟨before, after, rfl, hoff⟩ := h
  exact ⟨before, after ++ more, by simp, hoff⟩

/-- A run of a list with one more token is a run of the list, or it ends with the token. -/
theorem RunAt.cases_snoc (h : RunAt (tokens ++ [t]) off lit) :
    RunAt tokens off lit ∨ lit = [] ∨
      ∃ front b, lit = front ++ [b] ∧ t = .byte b ∧ ∃ before,
        tokens = before ++ front.map Token.byte := by
  obtain ⟨before, after, heq, hoff⟩ := h
  rcases List.eq_nil_or_concat' after with rfl | ⟨after, last, rfl⟩
  · rcases List.eq_nil_or_concat' lit with rfl | ⟨front, b, rfl⟩
    · exact .inr (.inl rfl)
    · rw [List.append_nil, List.map_append, ← List.append_assoc] at heq
      obtain ⟨htokens, hlast⟩ := List.append_inj' heq rfl
      exact .inr (.inr ⟨front, b, rfl, (List.cons.inj hlast).1, before, htokens⟩)
  · rw [← List.append_assoc] at heq
    obtain ⟨htokens, -⟩ := List.append_inj' heq rfl
    exact .inl ⟨before, after, htokens, hoff⟩

/-- A run that cannot be longer is all the bytes from its start on. -/
theorem RunAt.takeWhile_eq (h : RunAt tokens off lit)
    (hmax : ∀ lit', RunAt tokens off lit' → lit'.length ≤ lit.length) :
    (tokens.drop off).takeWhile Token.isByte = lit.map Token.byte := by
  obtain ⟨before, after, rfl, rfl⟩ := h
  have hbytes : ∀ t ∈ lit.map Token.byte, t.isByte = true := by
    intro t ht
    obtain ⟨b, -, rfl⟩ := List.mem_map.mp ht
    rfl
  rw [List.append_assoc, List.drop_left, List.takeWhile_append_of_pos hbytes]
  cases after with
  | nil => simp
  | cons t after =>
    cases t with
    | wildcard => simp [Token.isByte]
    | byte b =>
      have hlong := hmax (lit ++ [b]) ⟨before, after, by simp, rfl⟩
      rw [List.length_append] at hlong
      exact absurd hlong (Nat.not_succ_le_self _)

end

/-! ## The longest run of a segment -/

namespace Segment

/-- What the loop knows after the tokens `done`. -/
structure RunState.Reads (done : List Token) (s : RunState) : Prop where
  best : ∀ p ∈ s.best, RunAt done p.1 p.2
  /-- The run that it is in ends with the last token. -/
  cur : ∃ before, done = before ++ s.cur.map Token.byte ∧ (s.cur ≠ [] → before.length = s.curStart)
  /-- No run that ends with the last token is longer. -/
  ends : ∀ before (lit : List UInt8), done = before ++ lit.map Token.byte → lit.length ≤ s.cur.length
  longest : ∀ off lit, RunAt done off lit → lit.length ≤ s.closedLen

theorem RunState.Reads.start : RunState.Reads [] ⟨none, 0, []⟩ where
  best p hp := by cases hp
  cur := ⟨[], rfl, fun h => absurd rfl h⟩
  ends before lit h := by
    have hlit : List.map Token.byte lit = [] := (List.append_eq_nil_iff.mp h.symm).2
    rw [List.map_eq_nil_iff.mp hlit]
  longest off lit h := by
    obtain ⟨before, after, heq, -⟩ := h
    have hlit : List.map Token.byte lit = [] :=
      (List.append_eq_nil_iff.mp (List.append_eq_nil_iff.mp heq.symm).1).2
    rw [List.map_eq_nil_iff.mp hlit]
    exact Nat.zero_le _

/-- The best run, once the current one has ended, is a run. -/
theorem RunState.Reads.runAt_close {done : List Token} {s : RunState} (h : s.Reads done)
    {p : Nat × List UInt8} (hp : p ∈ s.close) : RunAt done p.1 p.2 := by
  rw [close] at hp
  split at hp
  · next himproves =>
    cases hp
    obtain ⟨before, hdone, hstart⟩ := h.cur
    have hne : s.cur ≠ [] := by
      intro hnil
      rw [improves, hnil] at himproves
      simp at himproves
    exact ⟨before, [], by rw [hdone, List.append_nil], hstart hne⟩
  · exact h.best p hp

theorem RunState.Reads.step {done : List Token} {s : RunState} (h : s.Reads done) (t : Token) :
    (s.step (t, done.length)).Reads (done ++ [t]) := by
  have hclosed := s.closedLen_le_step (t, done.length)
  cases t with
  | byte b =>
    obtain ⟨before, hdone, hstart⟩ := h.cur
    have hends : ∀ front (lit : List UInt8), done ++ [.byte b] = front ++ lit.map Token.byte →
        lit.length ≤ s.cur.length + 1 := by
      intro front lit heq
      rcases List.eq_nil_or_concat' lit with rfl | ⟨lit, c, rfl⟩
      · exact Nat.zero_le _
      · rw [List.map_append, ← List.append_assoc] at heq
        have hle := h.ends front lit (List.append_inj' heq rfl).1
        rw [List.length_append]
        exact Nat.succ_le_succ hle
    refine ⟨fun p hp => (h.best p hp).append _, ⟨before, ?_, fun _ => ?_⟩, fun front lit heq => ?_,
      fun off lit hrun => ?_⟩
    · rw [hdone, RunState.step, List.map_append, List.append_assoc]
      rfl
    · rw [RunState.step]
      split
      · next hnil => rw [hdone, hnil, List.map_nil, List.append_nil]
      · next hne => exact hstart hne
    · rw [RunState.step, List.length_append]
      exact hends front lit heq
    · rcases hrun.cases_snoc with hold | rfl | ⟨front, c, rfl, -, ⟨before', hbefore⟩⟩
      · exact (h.longest off lit hold).trans hclosed
      · exact Nat.zero_le _
      · rw [RunState.closedLen_eq, RunState.step]
        refine le_max_of_le_right ?_
        rw [List.length_append, List.length_append]
        exact Nat.succ_le_succ (h.ends before' front hbefore)
  | wildcard =>
    refine ⟨fun p hp => (h.runAt_close hp).append _, ⟨done ++ [.wildcard], ?_, fun hne => ?_⟩,
      fun front lit heq => ?_, fun off lit hrun => ?_⟩
    · rw [RunState.step, List.map_nil, List.append_nil]
    · exact absurd rfl hne
    · rcases List.eq_nil_or_concat' lit with rfl | ⟨lit, c, rfl⟩
      · exact Nat.le_refl _
      · rw [List.map_append, ← List.append_assoc] at heq
        have hlast : [Token.wildcard] = [c].map Token.byte := (List.append_inj' heq rfl).2
        cases hlast
    · rcases hrun.cases_snoc with hold | rfl | ⟨front, c, rfl, hbyte, -⟩
      · exact (h.longest off lit hold).trans hclosed
      · exact Nat.zero_le _
      · cases hbyte

theorem RunState.Reads.foldl {done : List Token} {s : RunState} (h : s.Reads done)
    (rest : List Token) :
    ((rest.zipIdx done.length).foldl RunState.step s).Reads (done ++ rest) := by
  induction rest generalizing done s with
  | nil =>
    rw [List.append_nil]
    exact h
  | cons t rest ih =>
    have hrest := ih (h.step t)
    rw [List.append_assoc, List.length_append] at hrest
    exact hrest

/-- What the loop knows at the end. -/
theorem reads_tokens (seg : Segment) :
    (seg.tokens.zipIdx.foldl RunState.step ⟨none, 0, []⟩).Reads seg.tokens :=
  RunState.Reads.start.foldl seg.tokens

/-- What `longest_literal_run` finds is a run of bytes. -/
theorem runAt_longest {seg : Segment} {off : Nat} {lit : List UInt8}
    (h : seg.longestLiteralRun = some (off, lit)) : RunAt seg.tokens off lit :=
  seg.reads_tokens.runAt_close (Option.mem_def.mpr h)

/-- No run of bytes is longer. -/
theorem length_le_longest (seg : Segment) {off : Nat} {lit : List UInt8}
    (h : RunAt seg.tokens off lit) :
    lit.length ≤ (seg.longestLiteralRun.map fun p => p.2.length).getD 0 :=
  seg.reads_tokens.longest off lit h

end Segment

/-! ## The choice among the segments -/

/-- What the choice knows after the segments `done`. -/
structure Chosen (done : List Segment) (best : Option (Nat × Nat × List UInt8)) : Prop where
  runAt : ∀ b ∈ best, ∃ seg, done[b.1]? = some seg ∧ RunAt seg.tokens b.2.1 b.2.2
  longest : ∀ seg ∈ done, ∀ off lit, RunAt seg.tokens off lit → lit.length ≤ anchorLength best

theorem Chosen.step {done : List Segment} {best : Option (Nat × Nat × List UInt8)}
    (h : Chosen done best) (seg : Segment) :
    Chosen (done ++ [seg]) (betterAnchor best (seg, done.length)) := by
  have hold : ∀ b ∈ best, ∃ seg', (done ++ [seg])[b.1]? = some seg' ∧
      RunAt seg'.tokens b.2.1 b.2.2 := by
    intro b hb
    obtain ⟨seg', hseg', hrun⟩ := h.runAt b hb
    have hlt := (List.getElem?_eq_some_iff.mp hseg').1
    exact ⟨seg', by rw [List.getElem?_append_left hlt, hseg'], hrun⟩
  refine ⟨fun b hb => ?_, fun seg' hseg' off lit hrun => ?_⟩
  · rw [betterAnchor] at hb
    split at hb
    · exact hold b hb
    · next off lit hlongest =>
      dsimp only at hb
      split at hb
      · cases hb
        exact ⟨seg, List.getElem?_concat_length, Segment.runAt_longest hlongest⟩
      · exact hold b hb
  · rcases List.mem_append.mp hseg' with hmem | hlast
    · exact (h.longest seg' hmem off lit hrun).trans (anchorLength_le_betterAnchor best _)
    · obtain rfl := List.mem_singleton.mp hlast
      have hle := seg'.length_le_longest hrun
      cases hlongest : seg'.longestLiteralRun with
      | none =>
        rw [hlongest] at hle
        exact hle.trans (Nat.zero_le _)
      | some p =>
        rw [hlongest] at hle
        exact hle.trans (le_anchorLength_betterAnchor best hlongest done.length)

theorem Chosen.foldl {done : List Segment} {best : Option (Nat × Nat × List UInt8)}
    (h : Chosen done best) (rest : List Segment) :
    Chosen (done ++ rest) ((rest.zipIdx done.length).foldl betterAnchor best) := by
  induction rest generalizing done best with
  | nil =>
    rw [List.append_nil]
    exact h
  | cons seg rest ih =>
    have hrest := ih (h.step seg)
    rw [List.append_assoc, List.length_append] at hrest
    exact hrest

theorem chosen_chooseAnchor (segments : List Segment) :
    Chosen segments (chooseAnchor segments) := by
  have hstart : Chosen [] none := by
    constructor
    · intro b hb
      cases hb
    · intro seg hseg
      cases hseg
  exact hstart.foldl segments

/-- Every piece after the first segment is read as a gap or as a segment. -/
theorem length_pieces_of_parsePieces {lineNo : Nat} {pieces : List Str} {gaps : List Gap}
    {segs : List Segment} (h : parsePieces lineNo pieces = .ok (gaps, segs)) :
    pieces.length = gaps.length + segs.length := by
  fun_induction parsePieces lineNo pieces generalizing gaps segs with
  | case1 =>
    cases h
    rfl
  | case2 gapTok => exact absurd h parsePieces_single_ne_ok
  | case3 gapTok segTok rest ih =>
    obtain ⟨_, _, _, _, -, -, hrest, rfl, rfl⟩ := exists_of_parsePieces h
    have hlen := ih hrest
    simp only [List.length_cons]
    omega

/-- Between every two segments of an accepted pattern there is a gap. Its anchor is all the bytes of
a segment from an offset on, two of them or more, and no segment has more bytes side by side. The
pieces that it was split into make it up, and each was read as a segment or as a gap. -/
theorem anchor_of_parse {lineNo : Nat} {name pattern : Str} {sig : HexSignature}
    (h : HexSignature.parse lineNo name pattern = .ok sig) :
    sig.gaps.length + 1 = sig.segments.length ∧
    (∃ seg, sig.segments[sig.anchorSegment]? = some seg ∧
      (seg.tokens.drop sig.anchorOffset).takeWhile Token.isByte =
        sig.anchorLiteral.map Token.byte) ∧
    2 ≤ sig.anchorLiteral.length ∧
    (∀ seg ∈ sig.segments, ∀ off lit, RunAt seg.tokens off lit →
      lit.length ≤ sig.anchorLiteral.length) ∧
    ∃ pieces, splitBytes pattern = .ok pieces ∧ pieces.flatten = pattern ∧
      pieces.length = sig.segments.length + sig.gaps.length := by
  have hshape := HexSignature.wellShaped_of_parse h
  obtain ⟨first, pieces, seg, segs, hsplit, -, hpieces, hsegments, hanchor, hlong, -⟩ :=
    HexSignature.exists_of_parse h
  have hchosen := chosen_chooseAnchor sig.segments
  rw [hanchor] at hchosen
  obtain ⟨anchor, hget, hrun⟩ := hchosen.runAt _ rfl
  have hmax := hchosen.longest anchor (List.mem_of_getElem? hget)
  refine ⟨hshape.gaps_length, ⟨anchor, hget, ?_⟩, hlong, hchosen.longest,
    splitOnGaps pattern, splitBytes_eq pattern, flatten_splitOnGaps pattern, ?_⟩
  · exact hrun.takeWhile_eq fun lit' hrun' => hmax _ lit' hrun'
  · rw [hsplit, List.length_cons, length_pieces_of_parsePieces hpieces, hsegments,
      List.length_cons]
    omega

/-- The signature of `6a6f??686e*{2-8}646f65`, whose second segment is its longest run. -/
def johnDoe : HexSignature where
  name := "John".toList
  segments := [⟨[.byte 0x6a, .byte 0x6f, .wildcard, .byte 0x68, .byte 0x6e]⟩,
    ⟨[.byte 0x64, .byte 0x6f, .byte 0x65]⟩]
  gaps := [.bounded 2 8]
  anchorSegment := 1
  anchorOffset := 0
  anchorLiteral := [0x64, 0x6f, 0x65]

theorem anchor_of_parse_johnDoe :
    HexSignature.parse 1 "John".toList "6a6f??686e*{2-8}646f65".toList = .ok johnDoe ∧
      ∀ seg ∈ johnDoe.segments, ∀ off lit, RunAt seg.tokens off lit → lit.length ≤ 3 := by
  have hparse : HexSignature.parse 1 "John".toList "6a6f??686e*{2-8}646f65".toList =
      .ok johnDoe := by decide +kernel
  obtain ⟨-, -, -, hmax, -⟩ := anchor_of_parse hparse
  exact ⟨hparse, hmax⟩

end ActiveDefense.Clam
