import Mathlib.Algebra.Ring.Nat
import Mathlib.Data.List.Basic

/-!
# Rust's `str`, as far as the program reads and writes text

A string is the list of its characters. The functions carry the names of the standard library's
and follow its documentation: the whitespace of `trim` and `split_whitespace` is Unicode's
`White_Space`, an unsigned integer parses from an optional `+` and ASCII digits, `lines` ends a
line at `\n` or `\r\n`.
-/

namespace ActiveDefense

/-- A `&str` or a `String`. -/
abbrev Str := List Char

instance lawfulBEqStr : LawfulBEq Str := inferInstance

/-! ## Characters -/

/-- `char::is_whitespace`: the property `White_Space`. -/
def isWhitespace (c : Char) : Bool :=
  decide (9 ≤ c.toNat ∧ c.toNat ≤ 13) || decide (0x2000 ≤ c.toNat ∧ c.toNat ≤ 0x200A) ||
    [0x20, 0x85, 0xA0, 0x1680, 0x2028, 0x2029, 0x202F, 0x205F, 0x3000].contains c.toNat

/-- `char::to_ascii_uppercase`. -/
def toAsciiUppercase (c : Char) : Char :=
  if 97 ≤ c.toNat ∧ c.toNat ≤ 122 then Char.ofNat (c.toNat - 32) else c

/-- A decimal digit is the character of a number between those of `0` and `9`. -/
theorem toNat_of_isDigit {c : Char} (h : c.isDigit) : 48 ≤ c.toNat ∧ c.toNat ≤ 57 := by
  simpa [Char.isDigit, UInt32.le_iff_toNat_le] using h

/-- A decimal digit is not whitespace. -/
theorem not_isWhitespace_of_isDigit {c : Char} (h : c.isDigit) : isWhitespace c = false := by
  obtain ⟨h1, h2⟩ := toNat_of_isDigit h
  simp only [isWhitespace, Bool.or_eq_false_iff, decide_eq_false_iff_not, List.contains_cons,
    List.contains_nil, beq_eq_false_iff_ne]
  grind

/-- A given word has no whitespace. -/
theorem not_isWhitespace_of_all {w : Str} (h : w.all (fun c => !isWhitespace c) = true) :
    ∀ c ∈ w, isWhitespace c = false := by
  intro c hc
  simpa using List.all_eq_true.mp h c hc

/-! ## Splitting -/

section
variable {α : Type} [DecidableEq α]

/-- `str::split_once`, at the first `sep`. -/
def splitOnce (sep : α) : List α → Option (List α × List α)
  | [] => none
  | c :: cs => if c = sep then some ([], cs) else (splitOnce sep cs).map fun p => (c :: p.1, p.2)

theorem splitOnce_append {sep : α} {xs : List α} (h : sep ∉ xs) (ys : List α) :
    splitOnce sep (xs ++ sep :: ys) = some (xs, ys) := by
  induction xs with
  | nil => simp [splitOnce]
  | cons x xs ih =>
    obtain ⟨hx, hxs⟩ := not_or.mp (List.mem_cons.not.mp h)
    simp [splitOnce, Ne.symm hx, ih hxs]

theorem splitOnce_of_not_mem {sep : α} {xs : List α} (h : sep ∉ xs) :
    splitOnce sep xs = none := by
  induction xs with
  | nil => rfl
  | cons x xs ih =>
    obtain ⟨hx, hxs⟩ := not_or.mp (List.mem_cons.not.mp h)
    simp [splitOnce, Ne.symm hx, ih hxs]

/-- What is split off in front of the first `sep` does not contain it. -/
theorem eq_append_of_splitOnce {sep : α} {xs ys zs : List α}
    (h : splitOnce sep xs = some (ys, zs)) : xs = ys ++ sep :: zs ∧ sep ∉ ys := by
  induction xs generalizing ys with
  | nil => cases h
  | cons x xs ih =>
    rw [splitOnce] at h
    split at h
    · rename_i hx
      cases h
      simp [hx]
    · rename_i hx
      obtain ⟨⟨as, bs⟩, hp, heq⟩ := Option.map_eq_some_iff.mp h
      cases heq
      obtain ⟨rfl, hmem⟩ := ih hp
      exact ⟨rfl, by simp [Ne.symm hx, hmem]⟩

/-- `str::splitn`: at most so many pieces, the last of which is not split any further. -/
def splitn (sep : α) : Nat → List α → List (List α)
  | 0, _ => []
  | 1, xs => [xs]
  | n + 2, xs =>
    match splitOnce sep xs with
    | none => [xs]
    | some (ys, zs) => ys :: splitn sep (n + 1) zs

theorem length_splitn_le (sep : α) (n : Nat) (xs : List α) : (splitn sep n xs).length ≤ n := by
  fun_induction splitn sep n xs with
  | case1 => exact Nat.le_refl _
  | case2 => exact Nat.le_refl _
  | case3 => simp
  | case4 n xs ys zs _ ih => exact Nat.succ_le_succ ih

end

/-- `str::trim_start`. -/
def trimStart (s : Str) : Str := s.dropWhile isWhitespace

/-- `str::trim_end`. -/
def trimEnd (s : Str) : Str := (trimStart s.reverse).reverse

/-- `str::trim`. -/
def trim (s : Str) : Str := (trimStart (trimStart s).reverse).reverse

/-- What starts and ends with characters that are not whitespace is its own trimming. -/
theorem trim_eq_self {s : Str} (hh : ∀ c ∈ s.head?, isWhitespace c = false)
    (hl : ∀ c ∈ s.getLast?, isWhitespace c = false) : trim s = s := by
  have hstart : ∀ t : Str, (∀ c ∈ t.head?, isWhitespace c = false) → trimStart t = t := by
    intro t ht
    cases t with
    | nil => rfl
    | cons c t => simp [trimStart, ht c rfl]
  rw [trim, hstart s hh, hstart s.reverse (by simpa using hl), List.reverse_reverse]

/-- Puts a character in front of the first piece. -/
def consHead (c : Char) : List Str → List Str
  | [] => [[c]]
  | w :: ws => (c :: w) :: ws

/-- `str::split_whitespace`: the maximal runs of characters that are not whitespace. -/
def splitWhitespace : Str → List Str
  | [] => []
  | c :: cs =>
    if isWhitespace c then splitWhitespace cs
    else if cs.head?.all isWhitespace then [c] :: splitWhitespace cs
    else consHead c (splitWhitespace cs)

/-- A word followed by a blank, or by nothing, is split off. -/
theorem splitWhitespace_append {w rest : Str} (hne : w ≠ [])
    (hw : ∀ c ∈ w, isWhitespace c = false) (hrest : rest.head?.all isWhitespace = true) :
    splitWhitespace (w ++ rest) = w :: splitWhitespace rest := by
  induction w with
  | nil => exact absurd rfl hne
  | cons c w ih =>
    have hc : isWhitespace c = false := hw c (.head _)
    cases w with
    | nil => simp [splitWhitespace, hc, hrest]
    | cons d w =>
      have hd : isWhitespace d = false := hw d (.tail _ (.head _))
      have hword := ih (by simp) fun x hx => hw x (.tail _ hx)
      rw [List.cons_append, splitWhitespace, hword]
      simp [hc, hd, consHead]

theorem splitWhitespace_word {w : Str} (hne : w ≠ []) (hw : ∀ c ∈ w, isWhitespace c = false) :
    splitWhitespace w = [w] := by
  have h : splitWhitespace (w ++ []) = [w] := splitWhitespace_append hne hw rfl
  rwa [List.append_nil] at h

theorem splitWhitespace_append_blank {w : Str} (hne : w ≠ [])
    (hw : ∀ c ∈ w, isWhitespace c = false) (rest : Str) :
    splitWhitespace (w ++ ' ' :: rest) = w :: splitWhitespace rest := by
  have hblank : isWhitespace ' ' = true := by decide
  rw [splitWhitespace_append hne hw rfl, splitWhitespace, if_pos hblank]

/-- `str::split_inclusive('\n')`: the pieces of the text, each with the newline that ends it. -/
def splitInclusive : Str → List Str
  | [] => []
  | c :: cs =>
    if c = '\n' then [c] :: splitInclusive cs
    else
      match splitInclusive cs with
      | [] => [[c]]
      | l :: ls => (c :: l) :: ls

/-- Drops the newline a line ends with, and the carriage return before it. -/
def stripLineEnd (l : Str) : Str :=
  match l.reverse with
  | '\n' :: '\r' :: r => r.reverse
  | '\n' :: r => r.reverse
  | _ => l

/-- `str::lines`. -/
def lines (s : Str) : List Str := (splitInclusive s).map stripLineEnd

theorem splitInclusive_append {l : Str} (h : '\n' ∉ l) (s : Str) :
    splitInclusive (l ++ '\n' :: s) = (l ++ ['\n']) :: splitInclusive s := by
  induction l with
  | nil => simp [splitInclusive]
  | cons c l ih =>
    obtain ⟨hc, hl⟩ := not_or.mp (List.mem_cons.not.mp h)
    simp [splitInclusive, Ne.symm hc, ih hl]

/-- A line that does not end in a carriage return is what its terminated form strips to. -/
theorem stripLineEnd_append {l : Str} (h : l.getLast? ≠ some '\r') :
    stripLineEnd (l ++ ['\n']) = l := by
  rw [stripLineEnd, List.reverse_append]
  cases hr : l.reverse with
  | nil => simp_all
  | cons c r =>
    have hl : l = r.reverse ++ [c] := by rw [← List.reverse_reverse l, hr, List.reverse_cons]
    have hc : c ≠ '\r' := by
      rintro rfl
      exact h (by simp [hl])
    subst hl
    simp only [List.reverse_cons, List.reverse_nil, List.nil_append, List.singleton_append]
    split
    · rename_i heq
      simp only [List.cons.injEq] at heq
      exact absurd heq.2.1 hc
    · rename_i heq
      simp only [List.cons.injEq, true_and] at heq
      simp [← heq]
    · rename_i _ hne
      exact absurd rfl (hne _)

/-- The lines of a text of terminated lines are those lines. -/
theorem lines_flatMap {ls : List Str} (hn : ∀ l ∈ ls, '\n' ∉ l)
    (hr : ∀ l ∈ ls, l.getLast? ≠ some '\r') : lines (ls.flatMap (· ++ ['\n'])) = ls := by
  induction ls with
  | nil => rfl
  | cons l ls ih =>
    have htail := ih (fun x hx => hn x (List.mem_cons_of_mem _ hx))
      (fun x hx => hr x (List.mem_cons_of_mem _ hx))
    rw [List.flatMap_cons, List.append_assoc, List.singleton_append, lines,
      splitInclusive_append (hn l (.head _)), List.map_cons, stripLineEnd_append (hr l (.head _))]
    exact congrArg (l :: ·) htail

/-! ## Parts of a text -/

theorem trim_sublist (s : Str) : (trim s).Sublist s := by
  have hend := (List.dropWhile_sublist isWhitespace (l := (trimStart s).reverse)).reverse
  rw [List.reverse_reverse] at hend
  exact hend.trans (List.dropWhile_sublist isWhitespace)

theorem stripLineEnd_sublist (l : Str) : (stripLineEnd l).Sublist l := by
  have hrev : ∀ (xs : Str) {r : Str}, l.reverse = xs ++ r → r.reverse.Sublist l := by
    intro xs r hr
    have hl : l = r.reverse ++ xs.reverse := by
      rw [← List.reverse_reverse l, hr, List.reverse_append]
    exact hl ▸ List.sublist_append_left _ _
  unfold stripLineEnd
  split
  · next r hr => exact hrev ['\n', '\r'] hr
  · next r hr => exact hrev ['\n'] hr
  · exact List.Sublist.refl l

/-- Whitespace at the end is trimmed off. -/
theorem trim_append_blank {c : Char} (hc : isWhitespace c = true) (s : Str) :
    trim (s ++ [c]) = trim s := by
  have hstart : trimStart (s ++ [c]) =
      if (trimStart s).isEmpty then trimStart [c] else trimStart s ++ [c] := List.dropWhile_append
  have hlast : trimStart [c] = [] := List.dropWhile_cons_of_pos hc
  rw [trim, hstart, trim]
  split
  · next hblank => rw [List.isEmpty_iff.mp hblank, hlast]
  · have hrev : trimStart (trimStart s ++ [c]).reverse = trimStart (trimStart s).reverse := by
      rw [List.reverse_append, List.reverse_singleton, List.singleton_append, trimStart,
        List.dropWhile_cons_of_pos hc]
      rfl
    rw [hrev]

/-- The end of a line is whitespace. -/
theorem trim_stripLineEnd (l : Str) : trim (stripLineEnd l) = trim l := by
  have hsplit : ∀ {r e : Str}, l.reverse = e ++ r → l = r.reverse ++ e.reverse := by
    intro r e hr
    rw [← List.reverse_reverse l, hr, List.reverse_append]
  unfold stripLineEnd
  split
  · next r hr =>
    rw [hsplit (e := ['\n', '\r']) hr, List.reverse_cons, List.reverse_singleton,
      ← List.append_assoc, trim_append_blank (by decide), trim_append_blank (by decide)]
  · next r hr =>
    rw [hsplit (e := ['\n']) hr, List.reverse_singleton, trim_append_blank (by decide)]
  · rfl

theorem splitInclusive_of_not_mem {l : Str} (h : '\n' ∉ l) (hne : l ≠ []) :
    splitInclusive l = [l] := by
  induction l with
  | nil => exact absurd rfl hne
  | cons c l ih =>
    obtain ⟨hc, hl⟩ := not_or.mp (List.mem_cons.not.mp h)
    cases l with
    | nil => simp [splitInclusive, Ne.symm hc]
    | cons d l => rw [splitInclusive, if_neg (Ne.symm hc), ih hl (List.cons_ne_nil d l)]

theorem flatten_splitInclusive (s : Str) : (splitInclusive s).flatten = s := by
  induction s with
  | nil => rfl
  | cons c cs ih =>
    rw [splitInclusive]
    split
    · rw [List.flatten_cons, ih]
      rfl
    · split
      · next hnil =>
        rw [hnil] at ih
        simp [← ih]
      · next l ls hcons =>
        rw [hcons] at ih
        rw [← ih]
        rfl

/-- A line is part of the text. -/
theorem sublist_of_mem_lines {s l : Str} (h : l ∈ lines s) : l.Sublist s := by
  obtain ⟨piece, hpiece, rfl⟩ := List.mem_map.mp h
  have hpart := List.sublist_flatten_of_mem hpiece
  rw [flatten_splitInclusive] at hpart
  exact (stripLineEnd_sublist piece).trans hpart

/-! ## Unsigned integers -/

/-- `std::num::IntErrorKind`, the kinds an unsigned parse reports. -/
inductive IntErrorKind where
  | empty
  | invalidDigit
  | posOverflow
deriving DecidableEq, Repr

/-- The text of a `ParseIntError`. -/
def IntErrorKind.display : IntErrorKind → String
  | .empty => "cannot parse integer from empty string"
  | .invalidDigit => "invalid digit found in string"
  | .posOverflow => "number too large to fit in target type"

/-- The digit loop of `from_str_radix(_, 10)` for a type of `bound` values. -/
def parseDigits (bound : Nat) : Nat → Str → Except IntErrorKind Nat
  | acc, [] => .ok acc
  | acc, c :: cs =>
    if c.isDigit then
      let acc' := 10 * acc + (c.toNat - '0'.toNat)
      if acc' < bound then parseDigits bound acc' cs else .error .posOverflow
    else .error .invalidDigit

/-- `str::parse` at an unsigned type of `bound` values. -/
def parseUnsigned (bound : Nat) : Str → Except IntErrorKind Nat
  | [] => .error .empty
  | ['+'] => .error .invalidDigit
  | '+' :: cs => parseDigits bound 0 cs
  | cs => parseDigits bound 0 cs

/-- `char::to_digit`. -/
def toDigit (radix : Nat) (c : Char) : Option Nat :=
  let d :=
    if 48 ≤ c.toNat ∧ c.toNat ≤ 57 then c.toNat - 48
    else if 97 ≤ c.toNat ∧ c.toNat ≤ 122 then c.toNat - 97 + 10
    else if 65 ≤ c.toNat ∧ c.toNat ≤ 90 then c.toNat - 65 + 10
    else radix
  if d < radix then some d else none

/-- The digit loop of `from_str_radix` for a type of `bound` values. -/
def parseDigitsRadix (radix bound : Nat) : Nat → Str → Except IntErrorKind Nat
  | acc, [] => .ok acc
  | acc, c :: cs =>
    match toDigit radix c with
    | none => .error .invalidDigit
    | some d =>
      let acc' := radix * acc + d
      if acc' < bound then parseDigitsRadix radix bound acc' cs else .error .posOverflow

/-- `from_str_radix` of an unsigned type of `bound` values. -/
def fromStrRadix (radix bound : Nat) : Str → Except IntErrorKind Nat
  | [] => .error .empty
  | ['+'] => .error .invalidDigit
  | '+' :: cs => parseDigitsRadix radix bound 0 cs
  | cs => parseDigitsRadix radix bound 0 cs

/-- `Display` of an unsigned integer. -/
def decimal (n : Nat) : Str := Nat.toDigits 10 n

theorem decimal_ne_nil (n : Nat) : decimal n ≠ [] := Nat.toDigits_ne_nil

theorem isDigit_of_mem_decimal {n : Nat} {c : Char} (h : c ∈ decimal n) : c.isDigit :=
  Nat.isDigit_of_mem_toDigits (by decide) (by decide) h

theorem not_isWhitespace_of_mem_decimal {n : Nat} {c : Char} (h : c ∈ decimal n) :
    isWhitespace c = false :=
  not_isWhitespace_of_isDigit (isDigit_of_mem_decimal h)

/-- Reading more digits does not make the number read so far smaller. -/
theorem le_ofDigitChars (ds : Str) (acc : Nat) : acc ≤ Nat.ofDigitChars 10 ds acc := by
  rw [Nat.ofDigitChars_eq_ofDigitChars_zero]
  have hpow : 1 ≤ 10 ^ ds.length := Nat.one_le_pow _ _ (by decide)
  exact Nat.le_add_right_of_le (Nat.le_mul_of_pos_left _ hpow)

theorem parseDigits_of_isDigit {bound acc : Nat} {cs : Str} (hd : ∀ c ∈ cs, c.isDigit)
    (hb : Nat.ofDigitChars 10 cs acc < bound) :
    parseDigits bound acc cs = .ok (Nat.ofDigitChars 10 cs acc) := by
  induction cs generalizing acc with
  | nil => rfl
  | cons c cs ih =>
    rw [Nat.ofDigitChars_cons] at hb ⊢
    have hlt := Nat.lt_of_le_of_lt (le_ofDigitChars cs _) hb
    rw [parseDigits, if_pos (hd c (.head _))]
    simp only
    rw [if_pos hlt]
    exact ih (fun x hx => hd x (List.mem_cons_of_mem _ hx)) hb

theorem parseDigits_lt {bound acc n : Nat} {cs : Str} (hacc : acc < bound)
    (h : parseDigits bound acc cs = .ok n) : n < bound := by
  induction cs generalizing acc with
  | nil =>
    cases h
    exact hacc
  | cons c cs ih =>
    simp only [parseDigits] at h
    split at h
    · split at h
      · next hlt => exact ih hlt h
      · cases h
    · cases h

/-- An integer that is read fits the type. -/
theorem parseUnsigned_lt {bound n : Nat} {s : Str} (hbound : 0 < bound)
    (h : parseUnsigned bound s = .ok n) : n < bound := by
  unfold parseUnsigned at h
  split at h
  · cases h
  · cases h
  · exact parseDigits_lt hbound h
  · exact parseDigits_lt hbound h

/-- A displayed integer that fits the type parses back. -/
theorem parseUnsigned_decimal {bound n : Nat} (h : n < bound) :
    parseUnsigned bound (decimal n) = .ok n := by
  have hdig : ∀ c ∈ decimal n, c.isDigit := fun c hc => isDigit_of_mem_decimal hc
  have hparse : parseDigits bound 0 (decimal n) = .ok n := by
    have hval : Nat.ofDigitChars 10 (decimal n) 0 = n := Nat.ofDigitChars_ten_toDigits
    rw [parseDigits_of_isDigit hdig (hval.symm ▸ h), hval]
  have hplus : '+' ∉ decimal n := fun hm => absurd (hdig _ hm) (by decide)
  have hne : decimal n ≠ [] := Nat.toDigits_ne_nil
  unfold parseUnsigned
  split
  · contradiction
  · rename_i he
    simp [he] at hplus
  · rename_i he
    simp [he] at hplus
  · exact hparse

/-! ## Searching -/

/-- `str::find`: where the first occurrence of `pat` begins. -/
def strFind (pat : Str) : Str → Option Nat
  | [] => if pat = [] then some 0 else none
  | c :: cs => if pat <+: c :: cs then some 0 else (strFind pat cs).map (· + 1)

theorem strFind_eq_none_iff {pat s : Str} : strFind pat s = none ↔ ¬ pat <:+: s := by
  induction s with
  | nil => simp [strFind]
  | cons c s ih =>
    rw [strFind, List.infix_cons_iff, not_or, ← ih]
    split
    · rename_i hpre
      simp [hpre]
    · rename_i hpre
      simp [hpre]

/-- What is read before the last character of the first occurrence has no occurrence. -/
theorem strFind_first {pat before : Str} (behind : Str) (hne : pat ≠ [])
    (hfirst : ¬ pat <:+: before ++ pat.dropLast) :
    strFind pat (before ++ pat ++ behind) = some before.length := by
  induction before with
  | nil =>
    obtain ⟨p, pat, rfl⟩ := List.exists_cons_of_ne_nil hne
    rw [List.nil_append, List.cons_append, strFind, if_pos ⟨behind, rfl⟩]
    rfl
  | cons c before ih =>
    rw [List.cons_append, List.infix_cons_iff, not_or] at hfirst
    have hpre : ¬ pat <+: c :: (before ++ pat ++ behind) := by
      intro hpre
      have hlong : c :: (before ++ pat.dropLast) <+: c :: (before ++ pat ++ behind) := by
        rw [List.cons_prefix_cons, List.append_assoc, List.prefix_append_right_inj]
        exact ⟨rfl, (List.dropLast_prefix pat).trans (List.prefix_append pat behind)⟩
      have hlen : 0 < pat.length := List.length_pos_iff.mpr hne
      refine hfirst.1 (List.prefix_of_prefix_length_le hpre hlong ?_)
      simp only [List.length_cons, List.length_append, List.length_dropLast]
      omega
    rw [List.cons_append, List.cons_append, strFind, if_neg hpre, ih hfirst.2]
    rfl

/-- A text with an occurrence has a first one. -/
theorem exists_first {pat s : Str} (hne : pat ≠ []) (h : pat <:+: s) :
    ∃ before behind, s = before ++ pat ++ behind ∧ ¬ pat <:+: before ++ pat.dropLast := by
  induction s with
  | nil => exact absurd (List.infix_nil.mp h) hne
  | cons c s ih =>
    by_cases hpre : pat <+: c :: s
    · obtain ⟨behind, hs⟩ := hpre
      refine ⟨[], behind, hs.symm, fun hinf => ?_⟩
      have hle := hinf.length_le
      have hlen : 0 < pat.length := List.length_pos_iff.mpr hne
      simp only [List.nil_append, List.length_dropLast] at hle
      omega
    · have hinf : pat <:+: s := (List.infix_cons_iff.mp h).resolve_left hpre
      obtain ⟨before, behind, hs, hfirst⟩ := ih hinf
      refine ⟨c :: before, behind, by rw [hs]; rfl, ?_⟩
      rw [List.cons_append, List.infix_cons_iff, not_or]
      refine ⟨fun hpre' => hpre (hpre'.trans ?_), hfirst⟩
      rw [hs, List.cons_prefix_cons, List.append_assoc, List.prefix_append_right_inj]
      exact ⟨rfl, (List.dropLast_prefix pat).trans (List.prefix_append pat behind)⟩

/-- A word in front of a blank ends at the first blank. -/
theorem prefix_append_blank {w cs rest : Str} (hw : ' ' ∉ w)
    (h : w ++ [' '] <+: cs ++ ' ' :: rest) : w ++ [' '] <+: cs ++ [' '] := by
  induction w generalizing cs with
  | nil =>
    cases cs with
    | nil => exact List.prefix_refl _
    | cons c cs =>
      obtain ⟨rfl, -⟩ := List.cons_prefix_cons.mp h
      exact List.cons_prefix_cons.mpr ⟨rfl, List.nil_prefix⟩
  | cons a w ih =>
    obtain ⟨ha, hw⟩ := not_or.mp (List.mem_cons.not.mp hw)
    cases cs with
    | nil =>
      obtain ⟨rfl, -⟩ := List.cons_prefix_cons.mp h
      exact absurd rfl ha
    | cons c cs =>
      obtain ⟨hac, hrest⟩ := List.cons_prefix_cons.mp h
      exact List.cons_prefix_cons.mpr ⟨hac, ih hw hrest⟩

/-- A word between blanks does not reach over a third blank: past a text that does not have it, it
is searched from the text's last blank on. -/
theorem strFind_append_blank {w pre : Str} (hw : ' ' ∉ w)
    (hpre : ¬ ' ' :: (w ++ [' ']) <:+: pre ++ [' ']) (rest : Str) :
    strFind (' ' :: (w ++ [' '])) (pre ++ ' ' :: rest)
      = (strFind (' ' :: (w ++ [' '])) (' ' :: rest)).map (· + pre.length) := by
  induction pre with
  | nil => simp
  | cons c pre ih =>
    rw [List.cons_append, List.infix_cons_iff, not_or] at hpre
    have hnot : ¬ ' ' :: (w ++ [' ']) <+: c :: (pre ++ ' ' :: rest) := by
      intro h
      obtain ⟨hc, h⟩ := List.cons_prefix_cons.mp h
      exact hpre.1 (List.cons_prefix_cons.mpr ⟨hc, prefix_append_blank hw h⟩)
    rw [List.cons_append, strFind, if_neg hnot, ih hpre.2, Option.map_map]
    congr 1

theorem consHead_append (c : Char) {ws : List Str} (hne : ws ≠ []) (vs : List Str) :
    consHead c (ws ++ vs) = consHead c ws ++ vs := by
  cases ws with
  | nil => exact absurd rfl hne
  | cons w ws => rfl

theorem splitWhitespace_ne_nil {s : Str} (h : s.head?.all isWhitespace = false) :
    splitWhitespace s ≠ [] := by
  cases s with
  | nil => cases h
  | cons c s =>
    have hc : isWhitespace c = false := by simpa using h
    rw [splitWhitespace, hc, if_neg (by simp)]
    split
    · simp
    · cases splitWhitespace s <;> simp [consHead]

/-- The words on the two sides of a blank. -/
theorem splitWhitespace_blank (xs ys : Str) :
    splitWhitespace (xs ++ ' ' :: ys) = splitWhitespace xs ++ splitWhitespace ys := by
  have hblank : isWhitespace ' ' = true := by decide
  induction xs with
  | nil => simp [splitWhitespace, hblank]
  | cons c xs ih =>
    have hhead : (xs ++ ' ' :: ys).head?.all isWhitespace = xs.head?.all isWhitespace := by
      cases xs <;> simp [hblank]
    rw [List.cons_append, splitWhitespace, splitWhitespace, hhead, ih]
    split
    · rfl
    · split
      · rfl
      · rename_i hnot
        exact consHead_append c (splitWhitespace_ne_nil (by simpa using hnot)) _

end ActiveDefense
