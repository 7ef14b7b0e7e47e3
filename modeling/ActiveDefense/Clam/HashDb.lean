import ActiveDefense.Clam.HexSig
import ActiveDefense.Lib.Table
import Mathlib.Tactic.IntervalCases

/-!
# The hash database

A line `hexhash:size:name` asks for a whole-file digest of 16, 20 or 32 bytes. The hash field is
decoded two bytes at a time: each pair is sliced out of the string, and read as a number in base 16.
A slice that cuts a character is a panic, and the reading takes a sign for the first digit.
`HashDb.addLine_cases` says what becomes of a line: the hash fields that panic are those that
`CutsCharacter` describes, and those that are taken in are the `HexPairs` of a known length.
-/

namespace ActiveDefense.Clam

structure HashHit where
  name : Str
  expectedSize : Option Nat
deriving DecidableEq, Repr

/-- A digest of `n` bytes. -/
abbrev Digest (n : Nat) : Type := { b : List UInt8 // b.length = n }

structure HashDb where
  md5 : Table (Digest 16) HashHit
  sha1 : Table (Digest 20) HashHit
  sha256 : Table (Digest 32) HashHit

namespace HashDb

/-- `HashDb::new`. -/
def new : HashDb := ⟨∅, ∅, ∅⟩

/-- The loop of `hex_decode`, with the number of pairs left and the offset it has come to. -/
def hexDecodeFrom (s : Str) : Nat → Nat → Except Panic (Option (List UInt8))
  | 0, _ => .ok (some [])
  | pairs + 1, i => do
    match fromStrRadix 16 256 (← strSlice s i (i + 2)) with
    | .error _ => .ok none
    | .ok byte => .ok ((← hexDecodeFrom s pairs (i + 2)).map (UInt8.ofNat byte :: ·))

/-- `hex_decode`. -/
def hexDecode (s : Str) : Except Panic (Option (List UInt8)) :=
  let bytes := utf8 s
  if bytes.length % 2 ≠ 0 then .ok none else hexDecodeFrom s (bytes.length / 2) 0

/-- The size field of a line, which may be `*`. -/
def parseSize (lineNo : Nat) (sizeField : Str) : Except SigError (Option Nat) :=
  if sizeField = ['*'] then .ok none
  else
    match parseUnsigned (2 ^ 64) sizeField with
    | .ok size => .ok (some size)
    | .error _ =>
      .error (.badHashSig lineNo ("invalid size '".toList ++ sizeField ++ "'".toList))

/-- The insertion of `add_line` under the key that the length of the digest selects. -/
def insertRaw (db : HashDb) (lineNo : Nat) (raw : List UInt8) (hit : HashHit) :
    Except SigError HashDb :=
  if h : raw.length = 16 then .ok { db with md5 := db.md5.insert ⟨raw, h⟩ hit }
  else if h : raw.length = 20 then .ok { db with sha1 := db.sha1.insert ⟨raw, h⟩ hit }
  else if h : raw.length = 32 then .ok { db with sha256 := db.sha256.insert ⟨raw, h⟩ hit }
  else
    .error (.badHashSig lineNo
      ("unsupported hash length ".toList ++ decimal raw.length ++ " bytes".toList))

/-- `HashDb::add_line`. -/
def addLine (db : HashDb) (lineNo : Nat) (line : Str) : Except Panic (Except SigError HashDb) :=
  match splitn ':' 3 line with
  | [] => .ok (.error (.badHashSig lineNo "missing hash field".toList))
  | [_] => .ok (.error (.badHashSig lineNo "missing size field".toList))
  | [_, _] => .ok (.error (.badHashSig lineNo "missing name field".toList))
  | hashHex :: sizeField :: name :: _ =>
    match parseSize lineNo sizeField with
    | .error e => .ok (.error e)
    | .ok expectedSize => do
      match ← hexDecode hashHex with
      | none => .ok (.error (.badHashSig lineNo "invalid hex hash".toList))
      | some raw => .ok (db.insertRaw lineNo raw ⟨name, expectedSize⟩)

/-- `size_matches`. -/
def sizeMatches (hit : HashHit) (size : Nat) : Bool :=
  (hit.expectedSize.map fun s => s == size).getD true

/-- `lookup_md5`. -/
def lookupMd5 (db : HashDb) (digest : Digest 16) (size : Nat) : Option HashHit :=
  (db.md5.lookup digest).filter fun h => sizeMatches h size

/-- `lookup_sha1`. -/
def lookupSha1 (db : HashDb) (digest : Digest 20) (size : Nat) : Option HashHit :=
  (db.sha1.lookup digest).filter fun h => sizeMatches h size

/-- `lookup_sha256`. -/
def lookupSha256 (db : HashDb) (digest : Digest 32) (size : Nat) : Option HashHit :=
  (db.sha256.lookup digest).filter fun h => sizeMatches h size

/-- `HashDb::len`. -/
def len (db : HashDb) : Nat := db.md5.len + db.sha1.len + db.sha256.len

/-- `HashDb::is_empty`. -/
def isEmpty (db : HashDb) : Bool := db.len == 0

/-! ## Pairs of characters -/

/-- A hexadecimal digit, of either case. -/
def IsHexDigit (c : Char) : Prop := (toDigit 16 c).isSome

instance (c : Char) : Decidable (IsHexDigit c) := inferInstanceAs (Decidable (_ = true))

/-- Two characters that are read as a byte: a sign may stand for the first digit. -/
def IsPair (c d : Char) : Prop := (c = '+' ∨ IsHexDigit c) ∧ IsHexDigit d

instance (c d : Char) : Decidable (IsPair c d) := inferInstanceAs (Decidable (_ ∧ _))

/-- A text that is read as bytes, pair by pair. -/
inductive HexPairs : Str → Prop where
  | nil : HexPairs []
  | cons {c d : Char} {rest : Str} : IsPair c d → HexPairs rest → HexPairs (c :: d :: rest)

/-- Two bytes at a time, the text comes to a pair that ends within a character before it comes to
one that is no byte. -/
inductive CutsCharacter : Str → Prop where
  | first {c : Char} {rest : Str} : 2 < c.utf8Size → CutsCharacter (c :: rest)
  | second {c d : Char} {rest : Str} :
    c.utf8Size = 1 → 1 < d.utf8Size → CutsCharacter (c :: d :: rest)
  | later {c d : Char} {rest : Str} :
    IsPair c d → CutsCharacter rest → CutsCharacter (c :: d :: rest)

/-- A digit is below the radix. -/
theorem lt_of_toDigit {radix d : Nat} {c : Char} (h : toDigit radix c = some d) : d < radix := by
  simp only [toDigit, Option.ite_none_right_eq_some, Option.some.injEq] at h
  omega

theorem utf8Size_of_toDigit {c : Char} (h : IsHexDigit c) : c.utf8Size = 1 := by
  obtain ⟨d, hd⟩ := Option.isSome_iff_exists.mp h
  simp only [toDigit, Option.ite_none_right_eq_some, Option.some.injEq] at hd
  have hval : c.val.toNat ≤ 0x7F := by
    change c.toNat ≤ 0x7F
    have hlt := hd.1
    split at hlt
    · omega
    · split at hlt
      · omega
      · split at hlt <;> omega
  exact Char.utf8Size_eq_one_iff.mpr (UInt32.le_iff_toNat_le.mpr hval)

theorem IsPair.utf8Size {c d : Char} (h : IsPair c d) : c.utf8Size = 1 ∧ d.utf8Size = 1 := by
  refine ⟨?_, utf8Size_of_toDigit h.2⟩
  rcases h.1 with rfl | hc
  · rfl
  · exact utf8Size_of_toDigit hc

/-- One digit is read as its value. -/
theorem parseDigitsRadix_single (d : Char) :
    parseDigitsRadix 16 256 0 [d] =
      match toDigit 16 d with
      | some n => .ok n
      | none => .error .invalidDigit := by
  rw [parseDigitsRadix]
  cases hd : toDigit 16 d with
  | none => rfl
  | some n =>
    have hlt := lt_of_toDigit hd
    simp only
    rw [if_pos (by omega), parseDigitsRadix]
    simp

/-- Two characters are read as a byte if and only if they are a pair. -/
theorem fromStrRadix_pair (c d : Char) :
    (∃ byte, fromStrRadix 16 256 [c, d] = .ok byte) ↔ IsPair c d := by
  by_cases hplus : c = '+'
  · subst hplus
    simp only [fromStrRadix, parseDigitsRadix_single, IsPair, true_or, true_and, IsHexDigit]
    cases toDigit 16 d <;> simp
  · have hdigits : fromStrRadix 16 256 [c, d] = parseDigitsRadix 16 256 0 [c, d] := by
      unfold fromStrRadix
      split <;> simp_all
    rw [hdigits, parseDigitsRadix]
    simp only [IsPair, hplus, false_or, IsHexDigit]
    cases hc : toDigit 16 c with
    | none => simp
    | some m =>
      cases hd : toDigit 16 d with
      | none =>
        have hm := lt_of_toDigit hc
        simp only
        rw [if_pos (by omega), parseDigitsRadix, hd]
        simp
      | some n =>
        have hm := lt_of_toDigit hc
        have hn := lt_of_toDigit hd
        simp only
        rw [if_pos (by omega), parseDigitsRadix, hd]
        simp only
        rw [if_pos (by omega), parseDigitsRadix]
        simp

/-- Of two characters of one byte, neither is cut. -/
theorem cutsCharacter_cons {c d : Char} {rest : Str} (hc : c.utf8Size = 1) (hd : d.utf8Size = 1) :
    CutsCharacter (c :: d :: rest) ↔ IsPair c d ∧ CutsCharacter rest := by
  constructor
  · rintro (h | ⟨-, h⟩ | ⟨hpair, hrest⟩)
    · omega
    · omega
    · exact ⟨hpair, hrest⟩
  · rintro ⟨hpair, hrest⟩
    exact .later hpair hrest

theorem hexPairs_cons {c d : Char} {rest : Str} :
    HexPairs (c :: d :: rest) ↔ IsPair c d ∧ HexPairs rest := by
  constructor
  · rintro (_ | ⟨hpair, hrest⟩)
    exact ⟨hpair, hrest⟩
  · rintro ⟨hpair, hrest⟩
    exact .cons hpair hrest

/-- A text of pairs has as many characters as bytes. -/
theorem HexPairs.utf8_length {s : Str} (h : HexPairs s) : (utf8 s).length = s.length := by
  induction h with
  | nil => rfl
  | cons hpair _ ih =>
    rw [utf8_cons_length, utf8_cons_length, hpair.utf8Size.1, hpair.utf8Size.2, ih]
    simp only [List.length_cons]
    omega

theorem HexPairs.utf8_even {s : Str} (h : HexPairs s) : (utf8 s).length % 2 = 0 := by
  induction h with
  | nil => rfl
  | cons hpair _ ih =>
    rw [utf8_cons_length, utf8_cons_length, hpair.utf8Size.1, hpair.utf8Size.2]
    omega

/-! ## Decoding -/

/-- The first two bytes of a text are cut out where a character ends behind them. -/
theorem takeBytes_two (c : Char) (rest : Str) (hlen : 2 ≤ (utf8 (c :: rest)).length) :
    (2 < c.utf8Size ∧ takeBytes (c :: rest) 2 = none) ∨
      (c.utf8Size = 2 ∧ takeBytes (c :: rest) 2 = some [c]) ∨
      ∃ d rest', rest = d :: rest' ∧ c.utf8Size = 1 ∧
        ((1 < d.utf8Size ∧ takeBytes (c :: rest) 2 = none) ∨
          (d.utf8Size = 1 ∧ takeBytes (c :: rest) 2 = some [c, d])) := by
  have hpos := c.utf8Size_pos
  rw [takeBytes]
  by_cases hlong : c.utf8Size ≤ 2
  · rw [if_pos hlong]
    by_cases htwo : c.utf8Size = 2
    · refine .inr (.inl ⟨htwo, ?_⟩)
      rw [htwo]
      cases rest <;> rfl
    · have hone : c.utf8Size = 1 := by omega
      cases rest with
      | nil =>
        rw [utf8_cons_length, hone] at hlen
        exact absurd hlen (by decide)
      | cons d rest' =>
        refine .inr (.inr ⟨d, rest', rfl, hone, ?_⟩)
        have hposd := d.utf8Size_pos
        rw [hone, takeBytes]
        by_cases hd : d.utf8Size ≤ 1
        · have hd' : d.utf8Size = 1 := by omega
          rw [hd']
          refine .inr ⟨rfl, ?_⟩
          cases rest' <;> rfl
        · rw [if_neg hd]
          exact .inl ⟨by omega, rfl⟩
  · rw [if_neg hlong]
    exact .inl ⟨by omega, rfl⟩

/-- A character of several bytes is no byte in base 16. -/
theorem fromStrRadix_long {c : Char} (h : c.utf8Size = 2) :
    fromStrRadix 16 256 [c] = .error .invalidDigit := by
  have hdigit : toDigit 16 c = none := by
    cases hd : toDigit 16 c with
    | none => rfl
    | some d =>
      have hone := utf8Size_of_toDigit (show IsHexDigit c by simp [IsHexDigit, hd])
      omega
  unfold fromStrRadix
  split <;> simp_all [parseDigitsRadix]

/-- What the loop makes of the text from its offset on: it is cut, it is read, or it is refused. -/
theorem hexDecodeFrom_cases (before : Str) {rest : Str} {pairs : Nat}
    (hlen : (utf8 rest).length = 2 * pairs) :
    (CutsCharacter rest ∧
      hexDecodeFrom (before ++ rest) pairs (utf8 before).length = .error .charBoundary) ∨
    (¬ CutsCharacter rest ∧ HexPairs rest ∧ ∃ raw, raw.length = pairs ∧
      hexDecodeFrom (before ++ rest) pairs (utf8 before).length = .ok (some raw)) ∨
    (¬ CutsCharacter rest ∧ ¬ HexPairs rest ∧
      hexDecodeFrom (before ++ rest) pairs (utf8 before).length = .ok none) := by
  induction pairs generalizing before rest with
  | zero =>
    cases rest with
    | nil => exact .inr (.inl ⟨nofun, .nil, [], rfl, rfl⟩)
    | cons c rest =>
      have := c.utf8Size_pos
      rw [utf8_cons_length] at hlen
      omega
  | succ pairs ih =>
    cases rest with
    | nil => cases hlen
    | cons c rest =>
      rw [hexDecodeFrom, strSlice_append]
      obtain ⟨hc, htake⟩ | ⟨hc, htake⟩ | ⟨d, rest, rfl, hc, ⟨hd, htake⟩ | ⟨hd, htake⟩⟩ :=
        takeBytes_two c rest (by omega)
      · rw [htake]
        exact .inl ⟨.first hc, rfl⟩
      · -- a character of two bytes is a slice, and no number
        rw [htake]
        simp only [bind, Except.bind, fromStrRadix_long hc]
        refine .inr (.inr ⟨?_, ?_, trivial⟩)
        · rintro (h | ⟨h, -⟩ | ⟨h, -⟩)
          · omega
          · omega
          · have := h.utf8Size.1
            omega
        · rintro (_ | ⟨h, -⟩)
          have := h.utf8Size.1
          omega
      · rw [htake]
        exact .inl ⟨.second hc hd, rfl⟩
      · rw [htake]
        have hbefore : (utf8 before).length + 2 = (utf8 (before ++ [c, d])).length := by
          simp only [utf8_append, List.length_append, utf8_cons_length, hc, hd]
          rfl
        have hrest : (utf8 rest).length = 2 * pairs := by
          rw [utf8_cons_length, utf8_cons_length] at hlen
          omega
        have htext : before ++ c :: d :: rest = before ++ [c, d] ++ rest := by simp
        simp only [bind, Except.bind, hbefore, htext]
        rw [cutsCharacter_cons hc hd, hexPairs_cons]
        cases hread : fromStrRadix 16 256 [c, d] with
        | error e =>
          have hpair : ¬ IsPair c d := fun h => by
            obtain ⟨byte, hbyte⟩ := (fromStrRadix_pair c d).mpr h
            rw [hread] at hbyte
            cases hbyte
          exact .inr (.inr ⟨fun h => hpair h.1, fun h => hpair h.1, rfl⟩)
        | ok byte =>
          have hpair : IsPair c d := (fromStrRadix_pair c d).mp ⟨byte, hread⟩
          obtain ⟨hcut, hrun⟩ | ⟨hcut, hread, raw, hraw, hrun⟩ | ⟨hcut, hread, hrun⟩ :=
            ih (before ++ [c, d]) hrest
          · rw [hrun]
            exact .inl ⟨⟨hpair, hcut⟩, rfl⟩
          · rw [hrun]
            exact .inr (.inl ⟨fun h => hcut h.2, ⟨hpair, hread⟩, .ofNat byte :: raw, by simp [hraw],
              rfl⟩)
          · rw [hrun]
            exact .inr (.inr ⟨fun h => hcut h.2, fun h => hread h.2, rfl⟩)

/-- What becomes of a hash field: its decoding cuts a character, or gives a byte for each pair, or
refuses it. -/
theorem hexDecode_cases (s : Str) :
    (((utf8 s).length % 2 = 0 ∧ CutsCharacter s) ∧ hexDecode s = .error .charBoundary) ∨
    (¬ ((utf8 s).length % 2 = 0 ∧ CutsCharacter s) ∧ HexPairs s ∧
      ∃ raw, 2 * raw.length = s.length ∧ hexDecode s = .ok (some raw)) ∨
    (¬ ((utf8 s).length % 2 = 0 ∧ CutsCharacter s) ∧ ¬ HexPairs s ∧ hexDecode s = .ok none) := by
  rw [hexDecode]
  by_cases hodd : (utf8 s).length % 2 = 0
  · have hlen : (utf8 s).length = 2 * ((utf8 s).length / 2) := by omega
    simp only [hodd, ne_eq, not_true_eq_false, if_false, true_and]
    obtain ⟨hcut, hrun⟩ | ⟨hcut, hread, raw, hraw, hrun⟩ | hrefused :=
      hexDecodeFrom_cases [] hlen
    · exact .inl ⟨hcut, hrun⟩
    · have htotal := hread.utf8_length
      exact .inr (.inl ⟨hcut, hread, raw, by omega, hrun⟩)
    · exact .inr (.inr hrefused)
  · have hread : ¬ HexPairs s := fun h => hodd h.utf8_even
    exact .inr (.inr ⟨fun h => hodd h.1, hread, if_pos hodd⟩)

/-! ## Lines -/

/-- The line has its three fields, `hash` is the first of them, and the size can be read. -/
def HasHash (line hash : Str) : Prop :=
  ∃ sizeField name, splitn ':' 3 line = [hash, sizeField, name] ∧
    (sizeField = ['*'] ∨ ∃ size, parseUnsigned (2 ^ 64) sizeField = .ok size)

/-- The decoding of the hash field of the line cuts a character. -/
def Cut (line : Str) : Prop :=
  ∃ hash, HasHash line hash ∧ (utf8 hash).length % 2 = 0 ∧ CutsCharacter hash

/-- The hash field of the line is read as a digest of a known length. -/
def Taken (line : Str) : Prop :=
  ∃ hash, HasHash line hash ∧ HexPairs hash ∧ hash.length ∈ [32, 40, 64]

theorem HasHash.inj {line hash hash' : Str} (h : HasHash line hash) (h' : HasHash line hash') :
    hash = hash' := by
  obtain ⟨_, _, hsplit, -⟩ := h
  obtain ⟨_, _, hsplit', -⟩ := h'
  rw [hsplit] at hsplit'
  cases hsplit'
  rfl

theorem HasHash.mem_head? {line hash : Str} (h : HasHash line hash) :
    hash ∈ (splitn ':' 3 line).head? := by
  obtain ⟨_, _, hsplit, -⟩ := h
  rw [hsplit]
  rfl

/-- A size is read if and only if it is `*` or a number. -/
theorem parseSize_cases (lineNo : Nat) (sizeField : Str) :
    ((sizeField = ['*'] ∨ ∃ size, parseUnsigned (2 ^ 64) sizeField = .ok size) ∧
      ∃ size, parseSize lineNo sizeField = .ok size) ∨
    (¬ (sizeField = ['*'] ∨ ∃ size, parseUnsigned (2 ^ 64) sizeField = .ok size) ∧
      ∃ e, parseSize lineNo sizeField = .error e) := by
  rw [parseSize]
  by_cases hstar : sizeField = ['*']
  · exact .inl ⟨.inl hstar, none, if_pos hstar⟩
  · rw [if_neg hstar]
    cases hsize : parseUnsigned (2 ^ 64) sizeField with
    | ok size => exact .inl ⟨.inr ⟨size, rfl⟩, _, rfl⟩
    | error e => exact .inr ⟨by simp [hstar], _, rfl⟩

/-- A digest is inserted if and only if one of the tables is for its length. -/
theorem insertRaw_cases (db : HashDb) (lineNo : Nat) (raw : List UInt8) (hit : HashHit) :
    (raw.length ∈ [16, 20, 32] ∧ ∃ db', db.insertRaw lineNo raw hit = .ok db') ∨
      (raw.length ∉ [16, 20, 32] ∧ ∃ e, db.insertRaw lineNo raw hit = .error e) := by
  unfold insertRaw
  split
  · next h => exact .inl ⟨by simp [h], _, rfl⟩
  · split
    · next h => exact .inl ⟨by simp [h], _, rfl⟩
    · split
      · next h => exact .inl ⟨by simp [h], _, rfl⟩
      · next h h' h'' => exact .inr ⟨by simp [h, h', h''], _, rfl⟩

/-- A line that does not get as far as its hash field is refused. -/
theorem addLine_of_not_hasHash (db : HashDb) (lineNo : Nat) {line : Str}
    (h : ∀ hash, ¬ HasHash line hash) : ∃ e, db.addLine lineNo line = .ok (.error e) := by
  have hlen := length_splitn_le ':' 3 line
  rw [addLine]
  split
  · exact ⟨_, rfl⟩
  · exact ⟨_, rfl⟩
  · exact ⟨_, rfl⟩
  · next hash sizeField name rest hsplit =>
    have hrest : rest = [] := by
      rw [hsplit] at hlen
      simp only [List.length_cons] at hlen
      exact List.eq_nil_of_length_eq_zero (by omega)
    subst hrest
    obtain ⟨hsize, -⟩ | ⟨-, e, he⟩ := parseSize_cases lineNo sizeField
    · exact absurd ⟨sizeField, name, hsplit, hsize⟩ (h hash)
    · rw [he]
      exact ⟨e, rfl⟩

/-- What becomes of a line that gets as far as its hash field is decided by that field. -/
theorem addLine_of_hasHash (db : HashDb) (lineNo : Nat) {line hash : Str} (h : HasHash line hash) :
    ∃ hit, db.addLine lineNo line = (hexDecode hash).bind fun
      | none => .ok (.error (.badHashSig lineNo "invalid hex hash".toList))
      | some raw => .ok (db.insertRaw lineNo raw hit) := by
  obtain ⟨sizeField, name, hsplit, hsize⟩ := h
  obtain ⟨-, size, hread⟩ | ⟨hbad, -⟩ := parseSize_cases lineNo sizeField
  · refine ⟨⟨name, size⟩, ?_⟩
    rw [addLine, hsplit]
    simp only [hread]
    rfl
  · exact absurd hsize hbad

/-- The line is cut or taken as its hash field says. -/
theorem HasHash.cut_iff {line hash : Str} (h : HasHash line hash) :
    Cut line ↔ (utf8 hash).length % 2 = 0 ∧ CutsCharacter hash := by
  refine ⟨fun ⟨hash', h', hcut⟩ => ?_, fun hcut => ⟨hash, h, hcut⟩⟩
  rw [h.inj h']
  exact hcut

theorem HasHash.taken_iff {line hash : Str} (h : HasHash line hash) :
    Taken line ↔ HexPairs hash ∧ hash.length ∈ [32, 40, 64] := by
  refine ⟨fun ⟨hash', h', htaken⟩ => ?_, fun htaken => ⟨hash, h, htaken⟩⟩
  rw [h.inj h']
  exact htaken

/-- What becomes of a line: its decoding cuts a character, or it is taken in, or it is refused. -/
theorem addLine_cases (db : HashDb) (lineNo : Nat) (line : Str) :
    (Cut line ∧ db.addLine lineNo line = .error .charBoundary) ∨
    (¬ Cut line ∧ Taken line ∧ ∃ db', db.addLine lineNo line = .ok (.ok db')) ∨
    (¬ Cut line ∧ ¬ Taken line ∧ ∃ e, db.addLine lineNo line = .ok (.error e)) := by
  by_cases hhash : ∃ hash, HasHash line hash
  · obtain ⟨hash, hhash⟩ := hhash
    obtain ⟨hit, hrun⟩ := db.addLine_of_hasHash lineNo hhash
    rw [hhash.cut_iff, hhash.taken_iff, hrun]
    obtain ⟨hcut, hdec⟩ | ⟨hcut, hread, raw, hraw, hdec⟩ | ⟨hcut, hread, hdec⟩ :=
      hexDecode_cases hash
    · rw [hdec]
      exact .inl ⟨hcut, rfl⟩
    · rw [hdec]
      have hlen : raw.length ∈ [16, 20, 32] ↔ hash.length ∈ [32, 40, 64] := by
        simp only [List.mem_cons, List.not_mem_nil, or_false]
        omega
      obtain ⟨hknown, db', hins⟩ | ⟨hknown, e, hins⟩ := db.insertRaw_cases lineNo raw hit
      · exact .inr (.inl ⟨hcut, ⟨hread, hlen.mp hknown⟩, db', congrArg Except.ok hins⟩)
      · exact .inr (.inr ⟨hcut, fun h => hknown (hlen.mpr h.2), e, congrArg Except.ok hins⟩)
    · rw [hdec]
      exact .inr (.inr ⟨hcut, fun h => hread h.1, _, rfl⟩)
  · have hnone : ∀ hash, ¬ HasHash line hash := fun hash h => hhash ⟨hash, h⟩
    obtain ⟨e, he⟩ := db.addLine_of_not_hasHash lineNo hnone
    exact .inr (.inr ⟨fun ⟨hash, h, _⟩ => hnone hash h, fun ⟨hash, h, _⟩ => hnone hash h, e, he⟩)

end HashDb

end ActiveDefense.Clam
