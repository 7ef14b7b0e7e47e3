import ActiveDefense.Clam.HexSig

/-!
# Where a pattern is split

`split_on_gaps` walks through the bytes of a pattern, and slices its pieces out of the text at the
offsets of stars and braces. Stars and braces are single bytes that occur in no other character, so
every slice is cut at the ends of characters, and the walk gives the pieces of `splitOnGaps`
(`splitBytes_eq`), of a pattern in any alphabet.
-/

namespace ActiveDefense.Clam

/-! ## Gaps -/

/-- Characters of a segment are added to the piece. -/
theorem splitGo_segment_append {text : Str} (h : '*' ∉ text) (piece rest : Str) :
    splitGo .segment piece (text ++ rest) = splitGo .segment (piece ++ text) rest := by
  induction text generalizing piece with
  | nil => simp
  | cons c cs ih =>
    obtain ⟨hc, hcs⟩ := not_or.mp (List.mem_cons.not.mp h)
    rw [List.cons_append, splitGo, if_neg (Ne.symm hc), ih hcs]
    simp

/-- A star that no brace follows is a gap of its own. -/
theorem splitGo_star {rest : Str} (h : rest.head? ≠ some '{') (piece : Str) :
    splitGo .star piece rest = piece :: splitGo .segment [] rest := by
  cases rest with
  | nil => rfl
  | cons c cs =>
    have hc : c ≠ '{' := fun heq => h (by simp [heq])
    simp only [splitGo, if_neg hc, List.nil_append]
    split
    · rfl
    · rfl

/-- Braces after a star belong to the gap. -/
theorem splitGo_braces {body : Str} (h : '}' ∉ body) (piece rest : Str) :
    splitGo .braces piece (body ++ '}' :: rest) =
      (piece ++ body ++ ['}']) :: splitGo .segment [] rest := by
  induction body generalizing piece with
  | nil => simp [splitGo]
  | cons c cs ih =>
    obtain ⟨hc, hcs⟩ := not_or.mp (List.mem_cons.not.mp h)
    rw [List.cons_append, splitGo, if_neg (Ne.symm hc), ih hcs]
    simp

/-- Braces that are left open go to the end of the pattern. -/
theorem splitGo_braces_open {body : Str} (h : '}' ∉ body) (piece : Str) :
    splitGo .braces piece body = [piece ++ body, []] := by
  induction body generalizing piece with
  | nil => simp [splitGo]
  | cons c cs ih =>
    obtain ⟨hc, hcs⟩ := not_or.mp (List.mem_cons.not.mp h)
    rw [splitGo, if_neg (Ne.symm hc), ih hcs]
    simp

/-! ## The walk through the bytes -/

/-- Where the gap ends whose star is in front of offset `i`. -/
def gapEnd (bytes : List UInt8) (i : Nat) : Nat :=
  if bytes[i]? = some 123 then
    let close := i + ((bytes.drop i).takeWhile fun b => b ≠ 125).length
    if close < bytes.length then close + 1 else close
  else i

theorem le_gapEnd (bytes : List UInt8) (i : Nat) : i ≤ gapEnd bytes i := by
  rw [gapEnd]
  split
  · dsimp only
    split <;> omega
  · exact Nat.le_refl i

/-- The loop of `split_on_gaps`, with the start of the segment and the offset it has come to. -/
def splitBytesFrom (pattern : Str) (segStart i : Nat) : Except Panic (List Str) :=
  if i < (utf8 pattern).length then
    if (utf8 pattern)[i]? = some 42 then do
      let seg ← strSlice pattern segStart i
      let gap ← strSlice pattern i (gapEnd (utf8 pattern) (i + 1))
      let rest ← splitBytesFrom pattern (gapEnd (utf8 pattern) (i + 1))
        (gapEnd (utf8 pattern) (i + 1))
      .ok (seg :: gap :: rest)
    else splitBytesFrom pattern segStart (i + 1)
  else do .ok [← strSlice pattern segStart (utf8 pattern).length]
termination_by (utf8 pattern).length - i
decreasing_by
  · have := le_gapEnd (utf8 pattern) (i + 1)
    omega
  · omega

/-- `split_on_gaps`, as it walks through the bytes. -/
def splitBytes (pattern : Str) : Except Panic (List Str) := splitBytesFrom pattern 0 0

section
variable (xs : List UInt8) {body : List UInt8}

/-- No brace follows the star. -/
theorem gapEnd_star {ys : List UInt8} (h : ys.head? ≠ some 123) :
    gapEnd (xs ++ ys) xs.length = xs.length := by
  have hget : (xs ++ ys)[xs.length]? = ys.head? := by
    rw [List.getElem?_append_right (Nat.le_refl _), Nat.sub_self, ← List.head?_eq_getElem?]
  rw [gapEnd, hget, if_neg h]

/-- The bytes of a brace that stays open. -/
theorem takeWhile_open (h : 125 ∉ body) (ys : List UInt8) :
    ((123 :: body ++ ys).takeWhile fun b => b ≠ 125) =
      123 :: body ++ ys.takeWhile fun b => b ≠ 125 := by
  refine List.takeWhile_append_of_pos fun b hb => decide_eq_true ?_
  rintro rfl
  rcases List.mem_cons.mp hb with heq | hb
  · cases heq
  · exact h hb

/-- The bytes up to the closing brace. -/
theorem gapEnd_braces (h : 125 ∉ body) (ys : List UInt8) :
    gapEnd (xs ++ 123 :: body ++ 125 :: ys) xs.length = (xs ++ 123 :: body ++ [125]).length := by
  have htext : xs ++ 123 :: body ++ 125 :: ys = xs ++ (123 :: body ++ 125 :: ys) := by simp
  have hget : (xs ++ (123 :: body ++ 125 :: ys))[xs.length]? = some 123 := by simp
  rw [htext, gapEnd, if_pos hget, List.drop_left, takeWhile_open h]
  simp only [List.takeWhile_cons, ne_eq, not_true_eq_false, decide_false, Bool.false_eq_true,
    if_false, List.append_nil, List.length_append, List.length_cons, List.length_nil]
  rw [if_pos (by omega)]

/-- The bytes to the end of the pattern. -/
theorem gapEnd_open (h : 125 ∉ body) :
    gapEnd (xs ++ 123 :: body) xs.length = (xs ++ 123 :: body).length := by
  have hget : (xs ++ 123 :: body)[xs.length]? = some 123 := by simp
  have hrun := takeWhile_open h []
  rw [List.append_nil] at hrun
  rw [gapEnd, if_pos hget, List.drop_left, hrun]
  simp only [List.takeWhile_nil, List.append_nil, List.length_append, Nat.lt_irrefl, if_false]

end

/-- Text up to a star or a brace, and what follows, in bytes. -/
theorem utf8_append_cons {c : Char} {b : UInt8} (hc : String.utf8EncodeChar c = [b])
    (before after : Str) : utf8 (before ++ c :: after) = utf8 before ++ b :: utf8 after := by
  rw [utf8_append, utf8_cons, hc]
  rfl

/-- The gap that begins with a star: what it is split off as, and where it ends. -/
theorem exists_gap (cs : Str) :
    ∃ gap rest, gap ≠ [] ∧ '*' :: cs = gap ++ rest ∧
      splitGo .star ['*'] cs = gap :: splitGo .segment [] rest ∧
        ∀ before, gapEnd (utf8 (before ++ '*' :: cs)) ((utf8 before).length + 1) =
        (utf8 (before ++ gap)).length := by
  have hstar : ∀ before : Str, (utf8 before).length + 1 = (utf8 before ++ [42]).length := by
    intro before
    rw [List.length_append]
    rfl
  have hbytes : ∀ before after : Str,
      utf8 (before ++ '*' :: after) = (utf8 before ++ [42]) ++ utf8 after := by
    intro before after
    rw [utf8_append_cons rfl, List.append_assoc]
    rfl
  by_cases hopen : cs.head? = some '{'
  · obtain ⟨ds, rfl⟩ : ∃ ds, cs = '{' :: ds := by
      cases cs with
      | nil => cases hopen
      | cons c ds => exact ⟨ds, by simpa using hopen⟩
    have hbraces : splitGo .star ['*'] ('{' :: ds) = splitGo .braces ['*', '{'] ds := if_pos rfl
    rw [hbraces]
    by_cases hclose : '}' ∈ ds
    · obtain ⟨body, rest, rfl, hbody⟩ := List.eq_append_cons_of_mem hclose
      refine ⟨'*' :: '{' :: body ++ ['}'], rest, by simp, by simp, ?_, fun before => ?_⟩
      · rw [splitGo_braces hbody]
        rfl
      · have hend := gapEnd_braces (utf8 before ++ [42])
          (not_mem_utf8 (b := 125) (by decide) rfl hbody) (utf8 rest)
        have htext : utf8 ('{' :: (body ++ '}' :: rest)) = 123 :: utf8 body ++ 125 :: utf8 rest := by
          rw [← List.cons_append, utf8_append_cons rfl]
          rfl
        have hgap : utf8 (before ++ ('*' :: '{' :: body ++ ['}'])) =
            utf8 before ++ [42] ++ 123 :: utf8 body ++ [125] := by
          rw [← List.append_assoc, utf8_append_cons rfl, hbytes]
          rfl
        rw [hstar, hbytes, htext, hgap, ← hend]
        simp only [List.append_assoc, List.cons_append, List.nil_append]
    · refine ⟨'*' :: '{' :: ds, [], by simp, by simp, ?_, fun before => ?_⟩
      · rw [splitGo_braces_open hclose]
        rfl
      · rw [hstar, hbytes]
        exact gapEnd_open _ (not_mem_utf8 (b := 125) (by decide) rfl hclose)
  · refine ⟨['*'], cs, by simp, rfl, splitGo_star hopen ['*'], fun before => ?_⟩
    rw [hstar, hbytes, hbytes, gapEnd_star _ (head?_utf8_ne (by decide) rfl hopen)]
    simp [utf8]

/-! ## The pieces -/

/-- Over bytes that are no star the walk goes on with the same segment. -/
theorem splitBytesFrom_skip {pattern : Str} {segStart : Nat} {n i : Nat}
    (hlen : i + n ≤ (utf8 pattern).length)
    (h : ∀ k < n, (utf8 pattern)[i + k]? ≠ some 42) :
    splitBytesFrom pattern segStart i = splitBytesFrom pattern segStart (i + n) := by
  induction n generalizing i with
  | zero => rfl
  | succ n ih =>
    have hrest := ih (i := i + 1) (by omega) fun k hk => by
      have := h (k + 1) (by omega)
      rwa [show i + 1 + k = i + (k + 1) by omega]
    have hfirst : (utf8 pattern)[i]? ≠ some 42 := h 0 (by omega)
    rw [splitBytesFrom, if_pos (by omega), if_neg hfirst, hrest]
    congr 1
    omega

/-- The walk gives the pieces of the rest of the pattern. -/
theorem splitBytesFrom_eq (before piece rest : Str) :
    splitBytesFrom (before ++ piece ++ rest) (utf8 before).length (utf8 (before ++ piece)).length =
      .ok (splitGo .segment piece rest) := by
  induction hn : rest.length using Nat.strongRecOn generalizing before piece rest with
  | ind n ih =>
    cases rest with
    | nil =>
      have hpart := strSlice_part before piece []
      rw [List.append_nil] at hpart ⊢
      rw [splitBytesFrom, if_neg (Nat.lt_irrefl _), hpart]
      rfl
    | cons c cs =>
      have htext := utf8_append (before ++ piece) (c :: cs)
      have hlt : (utf8 (before ++ piece)).length + c.utf8Size ≤
          (utf8 (before ++ piece ++ c :: cs)).length := by
        rw [htext, List.length_append, utf8_cons_length]
        omega
      by_cases hstar : c = '*'
      · subst hstar
        obtain ⟨gap, rest, hne, hcs, hsplit, hend⟩ := exists_gap cs
        have hbyte : (utf8 (before ++ piece ++ '*' :: cs))[(utf8 (before ++ piece)).length]? =
            some 42 := by
          rw [utf8_append_cons rfl]
          simp
        have hgap := strSlice_part (before ++ piece) gap rest
        have hseg := strSlice_part before piece ('*' :: cs)
        have hsmaller : rest.length < n := by
          have hlen := congrArg List.length hcs
          have hpos := List.length_pos_of_ne_nil hne
          rw [List.length_append] at hlen
          omega
        have hrest := ih rest.length hsmaller (before ++ piece ++ gap) [] rest rfl
        rw [List.append_assoc (before ++ piece), ← hcs] at hgap
        rw [List.append_nil, List.append_assoc (before ++ piece), ← hcs] at hrest
        rw [splitBytesFrom, if_pos (by have := Char.utf8Size_pos '*'; omega), if_pos hbyte, hseg,
          hend, hgap, hrest]
        simp only [splitGo, if_true, hsplit]
        rfl
      · have hbytes : ∀ k < c.utf8Size,
            (utf8 (before ++ piece ++ c :: cs))[(utf8 (before ++ piece)).length + k]? ≠ some 42 := by
          intro k hk
          have hmem : (42 : UInt8) ∉ utf8 [c] :=
            not_mem_utf8 (a := '*') (by decide) rfl (by simpa using Ne.symm hstar)
          rw [utf8_cons] at hmem
          rw [htext, utf8_cons, List.getElem?_append_right (Nat.le_add_right _ _),
            Nat.add_sub_cancel_left, List.getElem?_append_left (by rwa [String.length_utf8EncodeChar])]
          exact fun h => hmem (List.mem_append_left _ (List.mem_of_getElem? h))
        have hstep : (utf8 (before ++ piece)).length + c.utf8Size =
            (utf8 (before ++ (piece ++ [c]))).length := by
          rw [← List.append_assoc, utf8_append (before ++ piece), List.length_append,
            utf8_cons_length]
          rfl
        have hrest := ih cs.length (by simp only [List.length_cons] at hn; omega) before
          (piece ++ [c]) cs rfl
        rw [splitBytesFrom_skip hlt hbytes, hstep]
        simpa [splitGo, hstar] using hrest

/-- Walking through the bytes, `split_on_gaps` slices at character boundaries only, and gives the
pieces between the stars and braces. -/
theorem splitBytes_eq (pattern : Str) : splitBytes pattern = .ok (splitOnGaps pattern) :=
  splitBytesFrom_eq [] [] pattern

end ActiveDefense.Clam
